import Chronos.Types
import Chronos.Json
import Chronos.Emission
import Chronos.ParseDecimal

/-!
# The wire protocols of the exchanges

`BinanceJsonProtocol` and `OKXJsonProtocol` turn one message into ticks. The
text is read by simdjson, here a parameter that gives no document where the
library reports an error. An access whose field is missing or of another type
throws where its result is converted, and only the reading of the text stands
inside a `try`. What was emitted before a throw stays emitted.
-/

set_option autoImplicit false

namespace Chronos.MarketDataProtocols
open ParseDecimal Emission

inductive Thrown where
  | simdjsonError
  | invalidArgument
  | outOfRange
  deriving DecidableEq

inductive ExchangeId where
  | unknown
  | binance
  | okx
  deriving DecidableEq

def ExchangeId.number : ExchangeId → ℕ
  | .unknown => 0
  | .binance => 1
  | .okx => 2

section Access
variable {F : Type}

def getObject : Option (Json F) → Except Thrown (List (String × Json F))
  | some (.object fields) => .ok fields
  | _ => .error .simdjsonError

def getArray : Option (Json F) → Except Thrown (List (Json F))
  | some (.array items) => .ok items
  | _ => .error .simdjsonError

def getString : Option (Json F) → Except Thrown String
  | some (.string s) => .ok s
  | _ => .error .simdjsonError

def getUInt64 : Option (Json F) → Except Thrown ℕ
  | some (.integer z) => if 0 ≤ z then .ok z.toNat else .error .simdjsonError
  | _ => .error .simdjsonError

def getBool : Option (Json F) → Except Thrown Bool
  | some (.bool b) => .ok b
  | _ => .error .simdjsonError

end Access

def isSpace (c : Char) : Bool :=
  c = ' ' || c = '\t' || c = '\n' || c = '\r' || c = '\x0b' || c = '\x0c'

def unsignedNumber (cs : List Char) : Except Thrown ℕ :=
  let digits := cs.takeWhile isDigit
  let n := digits.foldl (fun n c => n*10+digit c) 0
  if digits = [] then .error .invalidArgument
  else if 2^64 ≤ n then .error .outOfRange
  else .ok n

def stoull (text : String) : Except Thrown ℕ :=
  match text.toList.dropWhile isSpace with
  | '-'::cs => (unsignedNumber cs).map (fun n => (2^64-n)%2^64)
  | '+'::cs => unsignedNumber cs
  | cs => unsignedNumber cs

/-- `sn.find(suffix) != npos` -/
def contains (sn suffix : String) : Bool := suffix.toList <:+: sn.toList

def toMicroseconds (ms : ℕ) : ℕ := ms*1000%2^64

section Levels
variable {F : Type}

def readLevel (level : Json F) : Except Thrown (Decimal × Decimal) := do
  let pair ← getArray (some level)
  let price ← getString pair[0]?
  let quantity ← getString pair[1]?
  return (parseDecimal price,parseDecimal quantity)

def depthTick (exchange : ExchangeId) (exchangeTs recvTs sid : ℕ) (side : TickSide) : Tick where
  exchangeId := exchange.number
  exchangeTimestampUs := exchangeTs
  receiveTimestampUs := recvTs
  symbolId := sid
  side := side
  flags := 0

def emitLevel (tick : Tick) (level : Json F) : Emission Tick Thrown Unit := do
  let x ← lift (readLevel level)
  emit { tick with price := x.1, quantity := x.2 }

def emitLevels (tick : Tick) (side : Option (Json F)) : Emission Tick Thrown Unit := do
  let levels ← lift (getArray side)
  each (emitLevel tick) levels

end Levels

namespace BinanceJsonProtocol
variable {F : Type}

def depthSuffix : String := "@depth5@100ms"
def tradeSuffix : String := "@aggTrade"

section Parse
variable (recvTs : ℕ) (resolveSymbolId : String → ℕ)

def parseDepthUpdate (data : List (String × Json F)) : Emission Tick Thrown Unit := do
  let ms ← lift (getUInt64 (Json.fieldIn "E" data))
  let symbol ← lift (getString (Json.fieldIn "s" data))
  let sid := resolveSymbolId symbol
  if sid = 0 then pure ()
  else do
    emitLevels (depthTick .binance (toMicroseconds ms) recvTs sid .bid) (Json.fieldIn "b" data)
    emitLevels (depthTick .binance (toMicroseconds ms) recvTs sid .ask) (Json.fieldIn "a" data)

def parseTrade (data : List (String × Json F)) : Emission Tick Thrown Unit := do
  let symbol ← lift (getString (Json.fieldIn "s" data))
  let sid := resolveSymbolId symbol
  if sid = 0 then pure ()
  else do
    let price ← lift (getString (Json.fieldIn "p" data))
    let quantity ← lift (getString (Json.fieldIn "q" data))
    let ms ← lift (getUInt64 (Json.fieldIn "T" data))
    let maker ← lift (getBool (Json.fieldIn "m" data))
    emit {
      exchangeId := ExchangeId.binance.number
      symbolId := sid
      price := parseDecimal price
      quantity := parseDecimal quantity
      exchangeTimestampUs := toMicroseconds ms
      receiveTimestampUs := recvTs
      side := if maker then .trade else .bid
      flags := 1 }

def parseStream (obj : List (String × Json F)) (stream : Json F) : Emission Tick Thrown ℕ := do
  let sn ← lift (getString (some stream))
  let data ← lift (getObject (Json.fieldIn "data" obj))
  if contains sn depthSuffix then do
    parseDepthUpdate recvTs resolveSymbolId data
    pure 5
  else if contains sn tradeSuffix then do
    parseTrade recvTs resolveSymbolId data
    pure 1
  else pure 0

def parseEvent (obj : List (String × Json F)) (e : Json F) : Emission Tick Thrown ℕ := do
  let event ← lift (getString (some e))
  if event = "depthUpdate" then do
    parseDepthUpdate recvTs resolveSymbolId obj
    pure 5
  else if event = "aggTrade" ∨ event = "trade" then do
    parseTrade recvTs resolveSymbolId obj
    pure 1
  else pure 0

def parseDocument (doc : Json F) : Emission Tick Thrown ℕ := do
  let obj ← lift (getObject (some doc))
  match Json.fieldIn "stream" obj with
  | some stream => parseStream recvTs resolveSymbolId obj stream
  | none =>
    match Json.fieldIn "e" obj with
    | some e => parseEvent recvTs resolveSymbolId obj e
    | none => pure 0

def parse (read : String → Option (Json F)) (msg : String) : Emission Tick Thrown ℕ :=
  match read msg with
  | none => pure 0
  | some doc => parseDocument recvTs resolveSymbolId doc

end Parse
end BinanceJsonProtocol

namespace OKXJsonProtocol
variable {F : Type}

section Parse
variable (recvTs : ℕ) (resolveSymbolId : String → ℕ)

def booksTime (data : List (String × Json F)) : Except Thrown ℕ :=
  match Json.fieldIn "ts" data with
  | none => .ok recvTs
  | some ts => do
    let text ← getString (some ts)
    let ms ← stoull text
    return toMicroseconds ms

def parseBooks5 (instId : String) (data : List (String × Json F)) : Emission Tick Thrown Unit := do
  let sid := resolveSymbolId instId
  if sid = 0 then pure ()
  else do
    let exchangeTs ← lift (booksTime recvTs data)
    emitLevels (depthTick .okx exchangeTs recvTs sid .bid) (Json.fieldIn "bids" data)
    emitLevels (depthTick .okx exchangeTs recvTs sid .ask) (Json.fieldIn "asks" data)

def parseTrade (instId : String) (data : List (String × Json F)) : Emission Tick Thrown Unit := do
  let sid := resolveSymbolId instId
  if sid = 0 then pure ()
  else do
    let side ← lift (getString (Json.fieldIn "side" data))
    let text ← lift (getString (Json.fieldIn "ts" data))
    let ms ← lift (stoull text)
    let price ← lift (getString (Json.fieldIn "px" data))
    let quantity ← lift (getString (Json.fieldIn "sz" data))
    emit {
      exchangeId := ExchangeId.okx.number
      exchangeTimestampUs := toMicroseconds ms
      receiveTimestampUs := recvTs
      symbolId := sid
      price := parseDecimal price
      quantity := parseDecimal quantity
      side := if side = "buy" then .bid else .trade
      flags := 1 }

def parseEvent (obj : List (String × Json F)) (event : Json F) : Emission Tick Thrown ℕ := do
  let event ← lift (getString (some event))
  if event = "subscribe" then pure 0
  else if event = "error" then do
    let _ ← lift (getString (Json.fieldIn "msg" obj))
    pure 0
  else pure 0

def element (parse : List (String × Json F) → Emission Tick Thrown Unit) (elem : Json F) :
    Emission Tick Thrown Unit := do
  let data ← lift (getObject (some elem))
  parse data

def parsePush (obj : List (String × Json F)) (arg : Json F) : Emission Tick Thrown ℕ := do
  let arg ← lift (getObject (some arg))
  let channel ← lift (getString (Json.fieldIn "channel" arg))
  let instId ← lift (getString (Json.fieldIn "instId" arg))
  if channel = "books5" then do
    let elems ← lift (getArray (Json.fieldIn "data" obj))
    each (element (parseBooks5 recvTs resolveSymbolId instId)) elems
    pure (5*elems.length)
  else if channel = "trades" then do
    let elems ← lift (getArray (Json.fieldIn "data" obj))
    each (element (parseTrade recvTs resolveSymbolId instId)) elems
    pure elems.length
  else pure 0

def parseDocument (doc : Json F) : Emission Tick Thrown ℕ := do
  let obj ← lift (getObject (some doc))
  match Json.fieldIn "event" obj with
  | some event => parseEvent obj event
  | none =>
    match Json.fieldIn "arg" obj with
    | some arg => parsePush recvTs resolveSymbolId obj arg
    | none => pure 0

def parse (read : String → Option (Json F)) (msg : String) : Emission Tick Thrown ℕ :=
  match read msg with
  | none => pure 0
  | some doc => parseDocument recvTs resolveSymbolId doc

end Parse

def isPingMessage (msg : String) : Bool := msg = "ping"
def isPongMessage (msg : String) : Bool := msg = "pong"

end OKXJsonProtocol

structure Protocol where
  isPingMessage : String → Bool
  isPongMessage : String → Bool
  parse : ℕ → String → Emission Tick Thrown ℕ

section Protocols
variable {F : Type} (resolveSymbolId : String → ℕ) (read : String → Option (Json F))

def binance : Protocol where
  isPingMessage := fun _ => false
  isPongMessage := fun _ => false
  parse recvTs := BinanceJsonProtocol.parse recvTs resolveSymbolId read

def okx : Protocol where
  isPingMessage := OKXJsonProtocol.isPingMessage
  isPongMessage := OKXJsonProtocol.isPongMessage
  parse recvTs := OKXJsonProtocol.parse recvTs resolveSymbolId read

end Protocols

namespace ThinMuxAdapter
variable (protocol : Protocol)

structure Received where
  msg : String
  ts : ℕ

def turn (m : Received) : Emission Tick Thrown Unit :=
  if protocol.isPingMessage m.msg then pure ()
  else if protocol.isPongMessage m.msg then pure ()
  else do
    let _ ← protocol.parse m.ts m.msg
    pure ()

/-- The turns up to the end of the connection or an empty message. -/
def readLoop (received : List Received) : Emission Tick Thrown Unit :=
  each (turn protocol) (received.takeWhile (fun m => m.msg ≠ ""))

end ThinMuxAdapter
end Chronos.MarketDataProtocols
