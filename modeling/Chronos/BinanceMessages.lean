import Chronos.MarketDataShapes

/-!
# Messages of Binance

The shapes `BinanceJsonProtocol` takes, and the ticks it emits for them.
-/

set_option autoImplicit false

namespace Chronos.MarketDataProtocols
open Emission

namespace BinanceJsonProtocol
variable {F : Type}

section Shape
variable (resolveSymbolId : String → ℕ)

structure IsDepthUpdate (data : List (String × Json F)) : Prop where
  time : IsTime (Json.fieldIn "E" data)
  symbol : IsString (Json.fieldIn "s" data)
  levels : ∀ s, Json.fieldIn "s" data = some (.string s) → resolveSymbolId s ≠ 0 →
    IsLadder (Json.fieldIn "b" data) ∧ IsLadder (Json.fieldIn "a" data)

structure TradeFields (data : List (String × Json F)) : Prop where
  price : IsString (Json.fieldIn "p" data)
  quantity : IsString (Json.fieldIn "q" data)
  time : IsTime (Json.fieldIn "T" data)
  maker : IsFlag (Json.fieldIn "m" data)

structure IsTrade (data : List (String × Json F)) : Prop where
  symbol : IsString (Json.fieldIn "s" data)
  fields : ∀ s, Json.fieldIn "s" data = some (.string s) → resolveSymbolId s ≠ 0 → TradeFields data

def IsStream (obj : List (String × Json F)) (stream : Json F) : Prop :=
  ∃ sn data, stream = .string sn ∧ Json.fieldIn "data" obj = some (.object data) ∧
    (contains sn depthSuffix = true → IsDepthUpdate resolveSymbolId data) ∧
    (contains sn depthSuffix = false → contains sn tradeSuffix = true → IsTrade resolveSymbolId data)

def IsEvent (obj : List (String × Json F)) (e : Json F) : Prop :=
  ∃ event, e = .string event ∧ (event = "depthUpdate" → IsDepthUpdate resolveSymbolId obj) ∧
    (event = "aggTrade" ∨ event = "trade" → IsTrade resolveSymbolId obj)

def IsMessage (doc : Json F) : Prop :=
  ∃ obj, doc = .object obj ∧
    (∀ stream, Json.fieldIn "stream" obj = some stream → IsStream resolveSymbolId obj stream) ∧
    (∀ e, Json.fieldIn "stream" obj = none → Json.fieldIn "e" obj = some e →
      IsEvent resolveSymbolId obj e)

end Shape

section Items

def levelsIn (data : List (String × Json F)) : ℕ :=
  entriesIn (Json.fieldIn "b" data)+entriesIn (Json.fieldIn "a" data)

def announced (depth trade : Bool) (data : List (String × Json F)) : ℕ :=
  if depth then levelsIn data else if trade then 1 else 0

def itemsIn : Json F → ℕ
  | .object obj =>
    match Json.fieldIn "stream" obj, Json.fieldIn "data" obj, Json.fieldIn "e" obj with
    | some (.string sn), some (.object data), _ =>
      announced (contains sn depthSuffix) (contains sn tradeSuffix) data
    | none, _, some (.string event) =>
      announced (event = "depthUpdate") (event = "aggTrade" ∨ event = "trade") obj
    | _, _, _ => 0
  | _ => 0

end Items

section Parsing
variable (recvTs : ℕ) (resolveSymbolId : String → ℕ) (data : List (String × Json F))

theorem parseDepthUpdate_completes :
    (parseDepthUpdate recvTs resolveSymbolId data).Completes ↔ IsDepthUpdate resolveSymbolId data := by
  simp only [parseDepthUpdate, lift_bind_completes, getString_ok]
  constructor
  · rintro ⟨ms,hms,s,hs,hc⟩
    refine ⟨(isTime_iff _).mpr ⟨ms,hms⟩,⟨s,hs⟩,?_⟩
    intro s' hs' hsid
    rw [hs, Option.some.injEq, Json.string.injEq] at hs'
    rw [hs', if_neg hsid, emitBook_completes] at hc
    exact hc
  · rintro ⟨htime,⟨s,hs⟩,hlevels⟩
    obtain ⟨ms,hms⟩ := (isTime_iff _).mp htime
    refine ⟨ms,hms,s,hs,?_⟩
    by_cases hsid : resolveSymbolId s = 0
    · rw [if_pos hsid]
      exact pure_completes ()
    · rw [if_neg hsid, emitBook_completes]
      exact hlevels s hs hsid

theorem parseDepthUpdate_emits :
    (parseDepthUpdate recvTs resolveSymbolId data).Emits (NoneOr (levelsIn data)) := by
  apply lift_bind_emits
  intro ms _
  apply lift_bind_emits
  intro s _
  dsimp only
  split_ifs
  · exact pure_emits _ _
  · intro hc
    exact Or.inr (emitBook_emits _ _ _ _ hc)

theorem parseTrade_completes :
    (parseTrade recvTs resolveSymbolId data).Completes ↔ IsTrade resolveSymbolId data := by
  simp only [parseTrade, lift_bind_completes, getString_ok]
  constructor
  · rintro ⟨s,hs,hc⟩
    refine ⟨⟨s,hs⟩,?_⟩
    intro s' hs' hsid
    rw [hs, Option.some.injEq, Json.string.injEq] at hs'
    rw [hs', if_neg hsid] at hc
    simp only [lift_bind_completes, getString_ok, getBool_ok] at hc
    obtain ⟨p,hp,q,hq,ms,hms,m,hm,-⟩ := hc
    exact ⟨⟨p,hp⟩,⟨q,hq⟩,(isTime_iff _).mpr ⟨ms,hms⟩,⟨m,hm⟩⟩
  · rintro ⟨⟨s,hs⟩,hfields⟩
    refine ⟨s,hs,?_⟩
    by_cases hsid : resolveSymbolId s = 0
    · rw [if_pos hsid]
      exact pure_completes ()
    · rw [if_neg hsid]
      obtain ⟨⟨p,hp⟩,⟨q,hq⟩,htime,⟨m,hm⟩⟩ := hfields s hs hsid
      obtain ⟨ms,hms⟩ := (isTime_iff _).mp htime
      simp only [lift_bind_completes, getString_ok, getBool_ok]
      exact ⟨p,hp,q,hq,ms,hms,m,hm,emit_completes _⟩

theorem parseTrade_emits : (parseTrade recvTs resolveSymbolId data).Emits (NoneOr 1) := by
  apply lift_bind_emits
  intro s _
  dsimp only
  split_ifs
  · exact pure_emits _ _
  · apply lift_bind_emits
    intro p _
    apply lift_bind_emits
    intro q _
    apply lift_bind_emits
    intro ms _
    apply lift_bind_emits
    intro m _ _
    exact Or.inr rfl

theorem parseStream_completes (obj : List (String × Json F)) (stream : Json F) :
    (parseStream recvTs resolveSymbolId obj stream).Completes ↔ IsStream resolveSymbolId obj stream := by
  simp only [parseStream, lift_bind_completes, getString_ok, getObject_ok, Option.some.injEq, IsStream]
  constructor
  · rintro ⟨sn,hsn,data,hdata,hc⟩
    refine ⟨sn,data,hsn,hdata,?_,?_⟩
    · intro hd
      rw [if_pos hd, then_pure_completes, parseDepthUpdate_completes] at hc
      exact hc
    · intro hd ht
      rw [if_neg (by simp [hd]), if_pos ht, then_pure_completes, parseTrade_completes] at hc
      exact hc
  · rintro ⟨sn,data,hsn,hdata,hdepth,htrade⟩
    refine ⟨sn,hsn,data,hdata,?_⟩
    split_ifs with hd ht
    · rw [then_pure_completes, parseDepthUpdate_completes]
      exact hdepth hd
    · rw [then_pure_completes, parseTrade_completes]
      exact htrade (by simpa using hd) ht
    · exact pure_completes 0

theorem parseEvent_completes (obj : List (String × Json F)) (e : Json F) :
    (parseEvent recvTs resolveSymbolId obj e).Completes ↔ IsEvent resolveSymbolId obj e := by
  simp only [parseEvent, lift_bind_completes, getString_ok, Option.some.injEq, IsEvent]
  constructor
  · rintro ⟨event,he,hc⟩
    refine ⟨event,he,?_,?_⟩
    · intro hd
      rw [if_pos hd, then_pure_completes, parseDepthUpdate_completes] at hc
      exact hc
    · intro ht
      have hd : event ≠ "depthUpdate" := by rcases ht with rfl | rfl <;> decide
      rw [if_neg hd, if_pos ht, then_pure_completes, parseTrade_completes] at hc
      exact hc
  · rintro ⟨event,he,hdepth,htrade⟩
    refine ⟨event,he,?_⟩
    split_ifs with hd ht
    · rw [then_pure_completes, parseDepthUpdate_completes]
      exact hdepth hd
    · rw [then_pure_completes, parseTrade_completes]
      exact htrade ht
    · exact pure_completes 0

theorem parseDocument_completes (doc : Json F) :
    (parseDocument recvTs resolveSymbolId doc).Completes ↔ IsMessage resolveSymbolId doc := by
  simp only [parseDocument, lift_bind_completes, getObject_ok, Option.some.injEq, IsMessage]
  apply exists_congr
  intro obj
  apply and_congr_right
  intro _
  cases hstream : Json.fieldIn "stream" obj with
  | some stream => simp [parseStream_completes]
  | none =>
    cases he : Json.fieldIn "e" obj with
    | some e => simp [parseEvent_completes]
    | none => simp

theorem parseDocument_emits (doc : Json F) :
    (parseDocument recvTs resolveSymbolId doc).Emits (NoneOr (itemsIn doc)) := by
  apply lift_bind_emits
  intro obj hobj
  rw [getObject_ok, Option.some.injEq] at hobj
  subst hobj
  cases hstream : Json.fieldIn "stream" obj with
  | some stream =>
    apply lift_bind_emits
    intro sn hsn
    apply lift_bind_emits
    intro data hdata
    rw [getString_ok, Option.some.injEq] at hsn
    rw [getObject_ok] at hdata
    simp only [itemsIn, hstream, hsn, hdata, announced]
    split_ifs
    · exact then_pure_emits _ _ _ (parseDepthUpdate_emits recvTs resolveSymbolId data)
    · exact then_pure_emits _ _ _ (parseTrade_emits recvTs resolveSymbolId data)
    · exact pure_emits _ _
  | none =>
    cases he : Json.fieldIn "e" obj with
    | none => exact pure_emits _ _
    | some e =>
      apply lift_bind_emits
      intro event hevent
      rw [getString_ok, Option.some.injEq] at hevent
      simp only [itemsIn, hstream, he, hevent, announced, decide_eq_true_eq]
      split_ifs
      · exact then_pure_emits _ _ _ (parseDepthUpdate_emits recvTs resolveSymbolId obj)
      · exact then_pure_emits _ _ _ (parseTrade_emits recvTs resolveSymbolId obj)
      · exact pure_emits _ _

end Parsing
end BinanceJsonProtocol

end Chronos.MarketDataProtocols
