import Chronos.MarketDataProtocols

/-!
# Fields and levels

When each access of the protocols succeeds, and what the levels of a book
emit.
-/

set_option autoImplicit false

namespace Chronos.MarketDataProtocols
open Emission

section Shapes
variable {F : Type}

def IsString (x : Option (Json F)) : Prop := ∃ s, x = some (.string s)

def IsTime (x : Option (Json F)) : Prop := ∃ z, 0 ≤ z ∧ x = some (.integer z)

def IsFlag (x : Option (Json F)) : Prop := ∃ b, x = some (.bool b)

def IsNumeral (x : Option (Json F)) : Prop := ∃ s n, x = some (.string s) ∧ stoull s = .ok n

def IsLevel (level : Json F) : Prop :=
  ∃ price quantity rest, level = .array (.string price::.string quantity::rest)

def IsLadder (side : Option (Json F)) : Prop :=
  ∃ levels, side = some (.array levels) ∧ ∀ level ∈ levels, IsLevel level

def entriesIn : Option (Json F) → ℕ
  | some (.array items) => items.length
  | _ => 0

@[simp] theorem getObject_ok (x : Option (Json F)) (fields : List (String × Json F)) :
    getObject x = .ok fields ↔ x = some (.object fields) := by
  unfold getObject
  split <;> simp_all

@[simp] theorem getArray_ok (x : Option (Json F)) (items : List (Json F)) :
    getArray x = .ok items ↔ x = some (.array items) := by
  unfold getArray
  split <;> simp_all

@[simp] theorem getString_ok (x : Option (Json F)) (s : String) :
    getString x = .ok s ↔ x = some (.string s) := by
  unfold getString
  split <;> simp_all

@[simp] theorem getBool_ok (x : Option (Json F)) (b : Bool) :
    getBool x = .ok b ↔ x = some (.bool b) := by
  unfold getBool
  split
  · simp
  · rename_i hno
    simpa using hno b

theorem getUInt64_ok (x : Option (Json F)) (n : ℕ) :
    getUInt64 x = .ok n ↔ x = some (.integer n) := by
  unfold getUInt64
  split
  · rename_i z
    by_cases hz : 0 ≤ z
    · simp only [hz, if_true, Except.ok.injEq, Option.some.injEq, Json.integer.injEq]
      omega
    · simp only [hz, if_false, Option.some.injEq, Json.integer.injEq]
      constructor
      · intro h
        cases h
      · intro h
        omega
  · rename_i hno
    constructor
    · intro h
      cases h
    · intro h
      exact absurd h (hno n)

theorem isTime_iff (x : Option (Json F)) : IsTime x ↔ ∃ n, getUInt64 x = .ok n := by
  constructor
  · rintro ⟨z,hz,hx⟩
    exact ⟨z.toNat,(getUInt64_ok x _).mpr (by rw [hx, Int.toNat_of_nonneg hz])⟩
  · rintro ⟨n,hn⟩
    exact ⟨n,Int.natCast_nonneg n,(getUInt64_ok x n).mp hn⟩

theorem except_bind_ok {A B : Type} (x : Except Thrown A) (f : A → Except Thrown B) (b : B) :
    x >>= f = .ok b ↔ ∃ a, x = .ok a ∧ f a = .ok b := by
  cases x with
  | error e =>
    constructor
    · intro h
      cases h
    · rintro ⟨a,h,-⟩
      cases h
  | ok a =>
    constructor
    · intro h
      exact ⟨a,rfl,h⟩
    · rintro ⟨a',h,hb⟩
      cases h
      exact hb

theorem isLevel_iff (level : Json F) : IsLevel level ↔ ∃ x, readLevel level = .ok x := by
  constructor
  · rintro ⟨price,quantity,rest,rfl⟩
    exact ⟨_,rfl⟩
  · rintro ⟨x,hx⟩
    rw [readLevel, except_bind_ok] at hx
    obtain ⟨pair,hpair,hx⟩ := hx
    rw [except_bind_ok] at hx
    obtain ⟨price,hprice,hx⟩ := hx
    rw [except_bind_ok] at hx
    obtain ⟨quantity,hquantity,-⟩ := hx
    rw [getArray_ok, Option.some.injEq] at hpair
    rw [getString_ok] at hprice hquantity
    match pair, hprice, hquantity with
    | a::b::rest, hprice, hquantity =>
      simp only [List.getElem?_cons_zero, List.getElem?_cons_succ, Option.some.injEq] at hprice hquantity
      exact ⟨price,quantity,rest,by rw [hpair, hprice, hquantity]⟩
    | [a], hprice, hquantity => simp at hquantity
    | [], hprice, hquantity => simp at hprice

variable (tick : Tick) (side : Option (Json F))

theorem emitLevel_completes (level : Json F) : (emitLevel tick level).Completes ↔ IsLevel level := by
  rw [emitLevel, lift_bind_completes, isLevel_iff]
  simp

theorem emitLevels_completes : (emitLevels tick side).Completes ↔ IsLadder side := by
  simp only [emitLevels, lift_bind_completes, each_completes, emitLevel_completes, getArray_ok, IsLadder]

theorem emitLevels_emits :
    (emitLevels tick side).Emits (fun ticks => ticks.length = entriesIn side) := by
  apply lift_bind_emits
  intro levels hlevels hc
  rw [getArray_ok] at hlevels
  have hone : ∀ level ∈ levels, (emitLevel tick level).Emits (fun ticks => ticks.length = 1) := by
    intro level _
    apply lift_bind_emits
    intro x _ _
    rfl
  rw [each_emits_length _ (fun _ => 1) levels hone hc, hlevels]
  simp [entriesIn]

end Shapes

section Books
variable {F : Type} (tick tick' : Tick) (bids asks : Option (Json F))

theorem emitBook_completes :
    (emitLevels tick bids >>= fun _ => emitLevels tick' asks).Completes ↔
      IsLadder bids ∧ IsLadder asks := by
  rw [bind_completes, ← emitLevels_completes tick, ← emitLevels_completes tick']
  exact ⟨fun ⟨u,hb,ha⟩ => ⟨⟨u,hb⟩,ha⟩,fun ⟨⟨u,hb⟩,ha⟩ => ⟨u,hb,ha⟩⟩

theorem emitBook_emits :
    (emitLevels tick bids >>= fun _ => emitLevels tick' asks).Emits
      (fun ticks => ticks.length = entriesIn bids+entriesIn asks) := by
  apply bind_emits
  intro u hu hc
  rw [List.length_append, emitLevels_emits tick bids ⟨u,hu⟩, emitLevels_emits tick' asks hc]

end Books

def NoneOr (items : ℕ) (ticks : List Tick) : Prop := ticks = [] ∨ ticks.length = items

theorem pure_emits {A : Type} (a : A) (items : ℕ) :
    (pure a : Emission Tick Thrown A).Emits (NoneOr items) := fun _ => Or.inl rfl

theorem then_pure_emits {A B : Type} (x : Emission Tick Thrown A) (b : B) (P : List Tick → Prop)
    (h : x.Emits P) : (x >>= fun _ => pure b).Emits P := by
  apply bind_emits
  intro a ha _
  rw [pure_emitted, List.append_nil]
  exact h ⟨a,ha⟩

theorem then_pure_completes {A B : Type} (x : Emission Tick Thrown A) (b : B) :
    (x >>= fun _ => pure b).Completes ↔ x.Completes := by
  rw [bind_completes]
  exact ⟨fun ⟨a,ha,_⟩ => ⟨a,ha⟩,fun ⟨a,ha⟩ => ⟨a,ha,pure_completes b⟩⟩

end Chronos.MarketDataProtocols
