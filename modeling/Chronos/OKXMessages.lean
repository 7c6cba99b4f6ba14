import Chronos.MarketDataShapes

/-!
# Messages of OKX

The shapes `OKXJsonProtocol` takes, and the ticks it emits for them.
-/

set_option autoImplicit false

namespace Chronos.MarketDataProtocols
open Emission

namespace OKXJsonProtocol
variable {F : Type}

section Shape
variable (resolveSymbolId : String → ℕ)

structure IsBook (data : List (String × Json F)) : Prop where
  time : ∀ ts, Json.fieldIn "ts" data = some ts → IsNumeral (some ts)
  bids : IsLadder (Json.fieldIn "bids" data)
  asks : IsLadder (Json.fieldIn "asks" data)

structure IsTrade (data : List (String × Json F)) : Prop where
  side : IsString (Json.fieldIn "side" data)
  time : IsNumeral (Json.fieldIn "ts" data)
  price : IsString (Json.fieldIn "px" data)
  quantity : IsString (Json.fieldIn "sz" data)

def IsBatch (instId : String) (shape : List (String × Json F) → Prop) (data : Option (Json F)) : Prop :=
  ∃ elems, data = some (.array elems) ∧ ∀ elem ∈ elems,
    ∃ fields, elem = .object fields ∧ (resolveSymbolId instId ≠ 0 → shape fields)

def IsEvent (obj : List (String × Json F)) (event : Json F) : Prop :=
  ∃ name, event = .string name ∧ (name = "error" → IsString (Json.fieldIn "msg" obj))

def IsPush (obj : List (String × Json F)) (arg : Json F) : Prop :=
  ∃ fields channel instId, arg = .object fields ∧
    Json.fieldIn "channel" fields = some (.string channel) ∧
    Json.fieldIn "instId" fields = some (.string instId) ∧
    (channel = "books5" → IsBatch resolveSymbolId instId IsBook (Json.fieldIn "data" obj)) ∧
    (channel = "trades" → IsBatch resolveSymbolId instId IsTrade (Json.fieldIn "data" obj))

def IsMessage (doc : Json F) : Prop :=
  ∃ obj, doc = .object obj ∧
    (∀ event, Json.fieldIn "event" obj = some event → IsEvent obj event) ∧
    (∀ arg, Json.fieldIn "event" obj = none → Json.fieldIn "arg" obj = some arg →
      IsPush resolveSymbolId obj arg)

end Shape

section Items

def levelsIn : Json F → ℕ
  | .object data => entriesIn (Json.fieldIn "bids" data)+entriesIn (Json.fieldIn "asks" data)
  | _ => 0

def announced (channel : String) (elems : List (Json F)) : ℕ :=
  if channel = "books5" then (elems.map levelsIn).sum
  else if channel = "trades" then elems.length else 0

def itemsIn : Json F → ℕ
  | .object obj =>
    match Json.fieldIn "event" obj, Json.fieldIn "arg" obj, Json.fieldIn "data" obj with
    | none, some (.object arg), some (.array elems) =>
      match Json.fieldIn "channel" arg with
      | some (.string channel) => announced channel elems
      | _ => 0
    | _, _, _ => 0
  | _ => 0

end Items

section Parsing
variable (recvTs : ℕ) (resolveSymbolId : String → ℕ) (instId : String)

theorem booksTime_ok (data : List (String × Json F)) :
    (∃ n, booksTime recvTs data = .ok n) ↔
      ∀ ts, Json.fieldIn "ts" data = some ts → IsNumeral (some ts) := by
  unfold booksTime
  cases Json.fieldIn "ts" data with
  | none => simp
  | some ts =>
    simp only [except_bind_ok, getString_ok, Option.some.injEq, IsNumeral]
    constructor
    · rintro ⟨n,s,hs,ms,hms,-⟩ ts' rfl
      exact ⟨s,ms,hs,hms⟩
    · intro h
      obtain ⟨s,ms,hs,hms⟩ := h ts rfl
      exact ⟨_,s,hs,ms,hms,rfl⟩

theorem parseBooks5_completes (data : List (String × Json F)) :
    (parseBooks5 recvTs resolveSymbolId instId data).Completes ↔
      (resolveSymbolId instId ≠ 0 → IsBook data) := by
  unfold parseBooks5
  dsimp only
  split_ifs with hsid
  · simp [hsid]
  · rw [lift_bind_completes]
    simp only [emitBook_completes, exists_and_right, booksTime_ok]
    exact ⟨fun ⟨ht,hb,ha⟩ _ => ⟨ht,hb,ha⟩,fun h => ⟨(h hsid).time,(h hsid).bids,(h hsid).asks⟩⟩

theorem parseTrade_completes (data : List (String × Json F)) :
    (parseTrade recvTs resolveSymbolId instId data).Completes ↔
      (resolveSymbolId instId ≠ 0 → IsTrade data) := by
  unfold parseTrade
  dsimp only
  split_ifs with hsid
  · simp [hsid]
  · simp only [lift_bind_completes, getString_ok]
    constructor
    · rintro ⟨side,hside,text,htext,ms,hms,p,hp,q,hq,-⟩ _
      exact ⟨⟨side,hside⟩,⟨text,ms,htext,hms⟩,⟨p,hp⟩,⟨q,hq⟩⟩
    · intro h
      obtain ⟨⟨side,hside⟩,⟨text,ms,htext,hms⟩,⟨p,hp⟩,⟨q,hq⟩⟩ := h hsid
      exact ⟨side,hside,text,htext,ms,hms,p,hp,q,hq,emit_completes _⟩

theorem element_completes (parse : List (String × Json F) → Emission Tick Thrown Unit) (elem : Json F) :
    (element parse elem).Completes ↔ ∃ fields, elem = .object fields ∧ (parse fields).Completes := by
  simp only [element, lift_bind_completes, getObject_ok, Option.some.injEq]

theorem booksElement_emits (elem : Json F) :
    (element (parseBooks5 recvTs resolveSymbolId instId) elem).Emits
      (fun ticks => ticks.length = if resolveSymbolId instId = 0 then 0 else levelsIn elem) := by
  apply lift_bind_emits
  intro data hdata
  rw [getObject_ok, Option.some.injEq] at hdata
  subst hdata
  unfold parseBooks5
  dsimp only
  split_ifs
  · exact fun _ => rfl
  · apply lift_bind_emits
    intro ts _
    exact emitBook_emits _ _ _ _

theorem tradeElement_emits (elem : Json F) :
    (element (parseTrade recvTs resolveSymbolId instId) elem).Emits
      (fun ticks => ticks.length = if resolveSymbolId instId = 0 then 0 else 1) := by
  apply lift_bind_emits
  intro data _
  unfold parseTrade
  dsimp only
  split_ifs
  · exact fun _ => rfl
  · apply lift_bind_emits
    intro side _
    apply lift_bind_emits
    intro text _
    apply lift_bind_emits
    intro ms _
    apply lift_bind_emits
    intro p _
    apply lift_bind_emits
    intro q _ _
    rfl

theorem batch_emits (parse : List (String × Json F) → Emission Tick Thrown Unit) (n : Json F → ℕ)
    (elems : List (Json F))
    (h : ∀ elem, (element parse elem).Emits
      (fun ticks => ticks.length = if resolveSymbolId instId = 0 then 0 else n elem)) :
    (each (element parse) elems).Emits (NoneOr (elems.map n).sum) := by
  intro hc
  have hlen := each_emits_length _ _ elems (fun elem _ => h elem) hc
  by_cases hsid : resolveSymbolId instId = 0
  · left
    apply List.eq_nil_of_length_eq_zero
    simpa [hsid] using hlen
  · right
    simpa [hsid] using hlen

theorem parseEvent_completes (obj : List (String × Json F)) (event : Json F) :
    (parseEvent obj event).Completes ↔ IsEvent obj event := by
  simp only [parseEvent, lift_bind_completes, getString_ok, Option.some.injEq, IsEvent]
  apply exists_congr
  intro name
  apply and_congr_right
  intro _
  by_cases hs : name = "subscribe"
  · simp [hs]
  · by_cases he : name = "error"
    · simp [he, lift_bind_completes, IsString]
    · simp [hs, he]

theorem parsePush_completes (obj : List (String × Json F)) (arg : Json F) :
    (parsePush recvTs resolveSymbolId obj arg).Completes ↔ IsPush resolveSymbolId obj arg := by
  simp only [parsePush, lift_bind_completes, getObject_ok, getString_ok, Option.some.injEq, IsPush]
  constructor
  · rintro ⟨fields,hfields,channel,hchannel,id,hid,hc⟩
    refine ⟨fields,channel,id,hfields,hchannel,hid,?_,?_⟩
    · intro hb
      simpa [hb, lift_bind_completes, then_pure_completes, each_completes, element_completes,
        parseBooks5_completes, IsBatch] using hc
    · intro ht
      simpa [ht, lift_bind_completes, then_pure_completes, each_completes, element_completes,
        parseTrade_completes, IsBatch] using hc
  · rintro ⟨fields,channel,id,hfields,hchannel,hid,hbooks,htrades⟩
    refine ⟨fields,hfields,channel,hchannel,id,hid,?_⟩
    split_ifs with hb ht
    · simpa [lift_bind_completes, then_pure_completes, each_completes, element_completes,
        parseBooks5_completes, IsBatch] using hbooks hb
    · simpa [lift_bind_completes, then_pure_completes, each_completes, element_completes,
        parseTrade_completes, IsBatch] using htrades ht
    · exact pure_completes 0

theorem parseDocument_completes (doc : Json F) :
    (parseDocument recvTs resolveSymbolId doc).Completes ↔ IsMessage resolveSymbolId doc := by
  simp only [parseDocument, lift_bind_completes, getObject_ok, Option.some.injEq, IsMessage]
  apply exists_congr
  intro obj
  apply and_congr_right
  intro _
  cases hevent : Json.fieldIn "event" obj with
  | some event => simp [parseEvent_completes]
  | none =>
    cases harg : Json.fieldIn "arg" obj with
    | some arg => simp [parsePush_completes]
    | none => simp

theorem parseEvent_emits (obj : List (String × Json F)) (event : Json F) (items : ℕ) :
    (parseEvent obj event).Emits (NoneOr items) := by
  apply lift_bind_emits
  intro name _
  split_ifs
  · exact pure_emits _ _
  · apply lift_bind_emits
    intro msg _
    exact pure_emits _ _
  · exact pure_emits _ _

theorem parseDocument_emits (doc : Json F) :
    (parseDocument recvTs resolveSymbolId doc).Emits (NoneOr (itemsIn doc)) := by
  apply lift_bind_emits
  intro obj hobj
  rw [getObject_ok, Option.some.injEq] at hobj
  subst hobj
  cases hevent : Json.fieldIn "event" obj with
  | some event => exact parseEvent_emits obj event _
  | none =>
    cases harg : Json.fieldIn "arg" obj with
    | none => exact pure_emits _ _
    | some arg =>
      apply lift_bind_emits
      intro fields hfields
      apply lift_bind_emits
      intro channel hchannel
      apply lift_bind_emits
      intro id _
      rw [getObject_ok, Option.some.injEq] at hfields
      rw [getString_ok] at hchannel
      split_ifs with hb ht
      · apply lift_bind_emits
        intro elems helems
        rw [getArray_ok] at helems
        simp only [itemsIn, hevent, harg, hfields, hchannel, helems, announced, if_pos hb]
        exact then_pure_emits _ _ _ (batch_emits resolveSymbolId id _ _ elems (booksElement_emits recvTs _ id))
      · apply lift_bind_emits
        intro elems helems
        rw [getArray_ok] at helems
        simp only [itemsIn, hevent, harg, hfields, hchannel, helems, announced, if_neg hb, if_pos ht]
        have hbatch := batch_emits resolveSymbolId id _ (fun _ => 1) elems (tradeElement_emits recvTs _ id)
        rw [List.map_const', List.sum_replicate, smul_eq_mul, mul_one] at hbatch
        exact then_pure_emits _ _ _ hbatch
      · exact pure_emits _ _

end Parsing
end OKXJsonProtocol

end Chronos.MarketDataProtocols
