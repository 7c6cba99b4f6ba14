import Chronos.BinanceMessages
import Chronos.OKXMessages

/-!
# Messages that cannot be parsed

A parse returns and is all or nothing exactly when the document has the shape
its own fields announce. Nothing is required of a text that is no JSON, and
nothing of the levels of a symbol that is not subscribed. An exception of the
parser ends the thread of the read loop, which has no handler for it.
-/

set_option autoImplicit false

namespace Chronos.MarketDataProtocols
open Emission

/-- The call returns, and emits one tick for each of `items` things or none. -/
structure AllOrNothing (x : Emission Tick Thrown ℕ) (items : ℕ) : Prop where
  returns : x.Completes
  whole : x.emitted = [] ∨ x.emitted.length = items

section Messages
variable {F : Type} (resolveSymbolId : String → ℕ) (read : String → Option (Json F))

def BinanceTakes (msg : String) : Prop :=
  ∀ doc, read msg = some doc → BinanceJsonProtocol.IsMessage resolveSymbolId doc

def OKXTakes (msg : String) : Prop :=
  ∀ doc, read msg = some doc → OKXJsonProtocol.IsMessage resolveSymbolId doc

def itemsOf (count : Json F → ℕ) (msg : String) : ℕ :=
  match read msg with
  | none => 0
  | some doc => count doc

theorem allOrNothing_iff (x : Emission Tick Thrown ℕ) (items : ℕ) (h : x.Emits (NoneOr items)) :
    AllOrNothing x items ↔ x.Completes := ⟨fun ha => ha.returns,fun hc => ⟨hc,h hc⟩⟩

theorem binance_completes (recvTs : ℕ) (msg : String) :
    (BinanceJsonProtocol.parse recvTs resolveSymbolId read msg).Completes ↔
      BinanceTakes resolveSymbolId read msg := by
  unfold BinanceJsonProtocol.parse BinanceTakes
  cases read msg with
  | none => simp
  | some doc => simp [BinanceJsonProtocol.parseDocument_completes]

theorem binance_emits (recvTs : ℕ) (msg : String) :
    (BinanceJsonProtocol.parse recvTs resolveSymbolId read msg).Emits
      (NoneOr (itemsOf read BinanceJsonProtocol.itemsIn msg)) := by
  unfold BinanceJsonProtocol.parse itemsOf
  cases read msg with
  | none => exact pure_emits _ _
  | some doc => exact BinanceJsonProtocol.parseDocument_emits recvTs resolveSymbolId doc

theorem okx_completes (recvTs : ℕ) (msg : String) :
    (OKXJsonProtocol.parse recvTs resolveSymbolId read msg).Completes ↔
      OKXTakes resolveSymbolId read msg := by
  unfold OKXJsonProtocol.parse OKXTakes
  cases read msg with
  | none => simp
  | some doc => simp [OKXJsonProtocol.parseDocument_completes]

theorem okx_emits (recvTs : ℕ) (msg : String) :
    (OKXJsonProtocol.parse recvTs resolveSymbolId read msg).Emits
      (NoneOr (itemsOf read OKXJsonProtocol.itemsIn msg)) := by
  unfold OKXJsonProtocol.parse itemsOf
  cases read msg with
  | none => exact pure_emits _ _
  | some doc => exact OKXJsonProtocol.parseDocument_emits recvTs resolveSymbolId doc

end Messages

namespace ThinMuxAdapter
variable (protocol : Protocol)

/-- The message comes before any empty one and is given to the parser. -/
def Parsed (received : List Received) (m : Received) : Prop :=
  m ∈ received.takeWhile (fun m => m.msg ≠ "") ∧ protocol.isPingMessage m.msg = false ∧
    protocol.isPongMessage m.msg = false

theorem turn_completes (m : Received) :
    (turn protocol m).Completes ↔ (protocol.isPingMessage m.msg = false →
      protocol.isPongMessage m.msg = false → (protocol.parse m.ts m.msg).Completes) := by
  unfold turn
  split_ifs with hping hpong
  · simp [hping]
  · simp [hpong]
  · simp [hping, hpong, then_pure_completes]

theorem readLoop_completes (received : List Received) :
    (readLoop protocol received).Completes ↔
      ∀ m, Parsed protocol received m → (protocol.parse m.ts m.msg).Completes := by
  simp only [readLoop, each_completes, turn_completes, Parsed]
  constructor
  · rintro h m ⟨hm,hping,hpong⟩
    exact h m hm hping hpong
  · intro h m hm hping hpong
    exact h m ⟨hm,hping,hpong⟩

end ThinMuxAdapter

section Results
open ThinMuxAdapter
variable {F : Type} (resolveSymbolId : String → ℕ) (read : String → Option (Json F))

/-- A call returns with all ticks of the message or none, and the read loop
outlives a series of messages, exactly when the documents have the shapes the
protocol takes. -/
theorem parse_total_iff_shaped :
    (∀ recvTs msg, AllOrNothing (BinanceJsonProtocol.parse recvTs resolveSymbolId read msg)
        (itemsOf read BinanceJsonProtocol.itemsIn msg) ↔ BinanceTakes resolveSymbolId read msg) ∧
      (∀ recvTs msg, AllOrNothing (OKXJsonProtocol.parse recvTs resolveSymbolId read msg)
        (itemsOf read OKXJsonProtocol.itemsIn msg) ↔ OKXTakes resolveSymbolId read msg) ∧
      (∀ received, (readLoop (binance resolveSymbolId read) received).Completes ↔
        ∀ m, Parsed (binance resolveSymbolId read) received m →
          BinanceTakes resolveSymbolId read m.msg) ∧
      (∀ received, (readLoop (okx resolveSymbolId read) received).Completes ↔
        ∀ m, Parsed (okx resolveSymbolId read) received m → OKXTakes resolveSymbolId read m.msg) := by
  refine ⟨?_,?_,?_,?_⟩
  · intro recvTs msg
    rw [allOrNothing_iff _ _ (binance_emits resolveSymbolId read recvTs msg), binance_completes]
  · intro recvTs msg
    rw [allOrNothing_iff _ _ (okx_emits resolveSymbolId read recvTs msg), okx_completes]
  · intro received
    simp only [readLoop_completes, binance, binance_completes]
  · intro received
    simp only [readLoop_completes, okx, okx_completes]

end Results

section Failures

def shortLevel : Json Unit := .object [("e",.string "depthUpdate"),("E",.integer 1),("s",.string "X"),
  ("b",.array [.array [.string "100",.string "2"],.array [.string "99"]]),("a",.array [])]

def shortLevelText : String :=
  "\x7b\"e\":\"depthUpdate\",\"E\":1,\"s\":\"X\",\"b\":[[\"100\",\"2\"],[\"99\"]],\"a\":[]\x7d"

def readFailing (msg : String) : Option (Json Unit) :=
  if msg = "[]" then some (.array [])
  else if msg = shortLevelText then some shortLevel
  else none

/-- The array makes both parsers throw; of the update the first of two levels was emitted. -/
theorem malformed_messages_throw :
    (BinanceJsonProtocol.parse 0 (fun _ => 1) readFailing "[]").result = .error .simdjsonError ∧
      (OKXJsonProtocol.parse 0 (fun _ => 1) readFailing "[]").result = .error .simdjsonError ∧
      (BinanceJsonProtocol.parse 0 (fun _ => 1) readFailing shortLevelText).emitted.length = 1 ∧
      itemsOf readFailing BinanceJsonProtocol.itemsIn shortLevelText = 2 ∧
      ¬AllOrNothing (BinanceJsonProtocol.parse 0 (fun _ => 1) readFailing shortLevelText)
        (itemsOf readFailing BinanceJsonProtocol.itemsIn shortLevelText) ∧
      ¬AllOrNothing (OKXJsonProtocol.parse 0 (fun _ => 1) readFailing "[]")
        (itemsOf readFailing OKXJsonProtocol.itemsIn "[]") := by
  have harray : readFailing "[]" = some (.array []) := by simp [readFailing]
  have hshort : readFailing shortLevelText = some shortLevel := by simp [readFailing, shortLevelText]
  simp only [BinanceJsonProtocol.parse, OKXJsonProtocol.parse, itemsOf, harray, hshort]
  refine ⟨rfl,rfl,rfl,rfl,?_,?_⟩
  · rintro ⟨⟨n,hn⟩,-⟩
    cases hn
  · rintro ⟨⟨n,hn⟩,-⟩
    cases hn

end Failures
end Chronos.MarketDataProtocols
