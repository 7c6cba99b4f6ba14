import Chronos.MarketDataParsing

/-!
# The parsers of the older adapters

`BinanceAdapter` and `OkxAdapter` parse messages by themselves. They read the
fields the protocols read, in the same order, but catch what simdjson throws
while a payload is read, and `BinanceAdapter` recognizes a stream by other
suffixes than `BinanceJsonProtocol`.
-/

set_option autoImplicit false

namespace Chronos.Emission
variable {T E A B : Type}

def catching (caught : E → Bool) (x : Emission T E Unit) : Emission T E Unit where
  emitted := x.emitted
  result := match x.result with
    | .ok _ => .ok ()
    | .error e => if caught e then .ok () else .error e

theorem catching_completes (caught : E → Bool) (x : Emission T E Unit) (h : x.Completes) :
    (catching caught x).Completes := by
  obtain ⟨u,hu⟩ := h
  exact ⟨(),by rw [catching, hu]⟩

theorem bind_of_error (x : Emission T E A) (f : A → Emission T E B) (e : E) (h : x.result = .error e) :
    (x >>= f).emitted = x.emitted := by
  obtain ⟨us,r⟩ := x
  obtain rfl : r = .error e := h
  rfl

@[simp] theorem then_pure_emitted (x : Emission T E A) (b : B) :
    (x >>= fun _ => pure b).emitted = x.emitted := by
  cases h : x.result with
  | ok a => rw [bind_of_ok x _ a h, pure_emitted, List.append_nil]
  | error e => exact bind_of_error x _ e h

def EmitsOnly (x : Emission T E A) (P : T → Prop) : Prop := ∀ t ∈ x.emitted, P t

theorem pure_emitsOnly (a : A) (P : T → Prop) : (pure a : Emission T E A).EmitsOnly P := by
  intro t ht
  cases ht

theorem bind_emitsOnly (x : Emission T E A) (f : A → Emission T E B) (P : T → Prop)
    (hx : x.EmitsOnly P) (hf : ∀ a, (f a).EmitsOnly P) : (x >>= f).EmitsOnly P := by
  intro t ht
  cases h : x.result with
  | ok a =>
    rw [bind_of_ok x f a h, List.mem_append] at ht
    rcases ht with ht | ht
    · exact hx t ht
    · exact hf a t ht
  | error e =>
    rw [bind_of_error x f e h] at ht
    exact hx t ht

theorem lift_bind_emitsOnly (r : Except E A) (f : A → Emission T E B) (P : T → Prop)
    (hf : ∀ a, (f a).EmitsOnly P) : (lift r >>= f).EmitsOnly P :=
  bind_emitsOnly _ f P (by intro t ht; cases ht) hf

theorem each_emitsOnly (f : A → Emission T E Unit) (as : List A) (P : T → Prop)
    (hf : ∀ a, (f a).EmitsOnly P) : (each f as).EmitsOnly P := by
  induction as with
  | nil => exact pure_emitsOnly () P
  | cons a as ih => exact bind_emitsOnly _ _ P (hf a) (fun _ => ih)

end Chronos.Emission

namespace Chronos
open Emission MarketDataProtocols

def isSimdjsonError : Thrown → Bool
  | .simdjsonError => true
  | _ => false

/-- `json_parser.parse` outside of any `try`. -/
def readDocument {F : Type} (read : String → Option (Json F)) (message : String) :
    Except Thrown (Json F) :=
  match read message with
  | none => .error .simdjsonError
  | some doc => .ok doc

namespace BinanceAdapter
variable {F : Type}

def depthStreamSuffix : String := "@depth"
def tradeStreamSuffix : String := "@trade"
def tickerStreamSuffix : String := "@ticker"

section Parse
variable (receiveTs : ℕ) (getSymbolId : String → ℕ)

/-- The block inside the `try` is that of `BinanceJsonProtocol`. -/
def parseDepthUpdate (data : List (String × Json F)) : Emission Tick Thrown Unit :=
  catching isSimdjsonError (BinanceJsonProtocol.parseDepthUpdate receiveTs getSymbolId data)

def parseTrade (data : List (String × Json F)) : Emission Tick Thrown Unit :=
  catching isSimdjsonError (BinanceJsonProtocol.parseTrade receiveTs getSymbolId data)

def parse24hrTicker (_data : List (String × Json F)) : Emission Tick Thrown Unit := pure ()

def parseStream (obj : List (String × Json F)) (stream : Json F) : Emission Tick Thrown Unit := do
  let sn ← lift (getString (some stream))
  let data ← lift (getObject (Json.fieldIn "data" obj))
  if contains sn depthStreamSuffix then parseDepthUpdate receiveTs getSymbolId data
  else if contains sn tradeStreamSuffix then parseTrade receiveTs getSymbolId data
  else if contains sn tickerStreamSuffix then parse24hrTicker data
  else pure ()

def parseEvent (obj : List (String × Json F)) (e : Json F) : Emission Tick Thrown Unit := do
  let event ← lift (getString (some e))
  if event = "depthUpdate" then parseDepthUpdate receiveTs getSymbolId obj
  else if event = "aggTrade" ∨ event = "trade" then parseTrade receiveTs getSymbolId obj
  else if event = "24hrTicker" then parse24hrTicker obj
  else pure ()

def parseResult (obj : List (String × Json F)) : Emission Tick Thrown Unit := do
  let _ ← lift (getUInt64 (Json.fieldIn "id" obj))
  pure ()

def parseMessage (read : String → Option (Json F)) (message : String) : Emission Tick Thrown Unit := do
  let doc ← lift (readDocument read message)
  let obj ← lift (getObject (some doc))
  match Json.fieldIn "stream" obj with
  | some stream => parseStream receiveTs getSymbolId obj stream
  | none =>
    match Json.fieldIn "e" obj with
    | some e => parseEvent receiveTs getSymbolId obj e
    | none =>
      match Json.fieldIn "result" obj with
      | some _ => parseResult obj
      | none => pure ()

end Parse
end BinanceAdapter

namespace OkxAdapter
variable {F : Type} (receiveTs : ℕ) (getSymbolId : String → ℕ)

/-- The block inside the `try` is that of `OKXJsonProtocol`. -/
def parseBooks5 (instId : String) (data : List (String × Json F)) : Emission Tick Thrown Unit :=
  catching isSimdjsonError (OKXJsonProtocol.parseBooks5 receiveTs getSymbolId instId data)

def parseTrade (instId : String) (data : List (String × Json F)) : Emission Tick Thrown Unit :=
  catching isSimdjsonError (OKXJsonProtocol.parseTrade receiveTs getSymbolId instId data)

def parseEvent (obj : List (String × Json F)) (event : Json F) : Emission Tick Thrown Unit := do
  let event ← lift (getString (some event))
  if event = "subscribe" then pure ()
  else if event = "error" then do
    let _ ← lift (getString (Json.fieldIn "msg" obj))
    pure ()
  else pure ()

def parsePush (obj : List (String × Json F)) (arg : Json F) : Emission Tick Thrown Unit := do
  let arg ← lift (getObject (some arg))
  let channel ← lift (getString (Json.fieldIn "channel" arg))
  let instId ← lift (getString (Json.fieldIn "instId" arg))
  if channel = "books5" then do
    let elems ← lift (getArray (Json.fieldIn "data" obj))
    each (OKXJsonProtocol.element (parseBooks5 receiveTs getSymbolId instId)) elems
  else if channel = "trades" then do
    let elems ← lift (getArray (Json.fieldIn "data" obj))
    each (OKXJsonProtocol.element (parseTrade receiveTs getSymbolId instId)) elems
  else pure ()

def parseMessage (read : String → Option (Json F)) (message : String) : Emission Tick Thrown Unit := do
  let doc ← lift (readDocument read message)
  let obj ← lift (getObject (some doc))
  match Json.fieldIn "event" obj with
  | some event => parseEvent obj event
  | none =>
    match Json.fieldIn "arg" obj with
    | some arg => parsePush receiveTs getSymbolId obj arg
    | none => pure ()

end OkxAdapter
end Chronos
