import Chronos.Schedule

/-!
# Calls made of critical sections

A call is a list of sections. A section holds its locks from its first step
to its last, so it is one step of the shared state; what it finds there
decides which sections the call goes on with. Between two sections of one
thread any other thread may run.
-/

set_option autoImplicit false

namespace Chronos.CriticalSections
variable {n : ℕ} {S A M : Type}

structure State (n : ℕ) (S A : Type) where
  shared : S
  /-- What each thread has left of its call. -/
  rest : Fin n → List A

section Steps
variable (perform : S → A → S × List A)

def call (s : State n S A) (i : Fin n) (sections : List A) : State n S A :=
  { s with rest := Function.update s.rest i sections }

def advance (s : State n S A) (i : Fin n) : State n S A :=
  match s.rest i with
  | [] => s
  | a::as =>
    { shared := (perform s.shared a).1
      rest := Function.update s.rest i ((perform s.shared a).2++as) }

def Quiet (s : State n S A) : Prop := ∀ i, s.rest i = []

theorem advance_eq (s : State n S A) (i : Fin n) (a : A) (as : List A) (h : s.rest i = a::as) :
    advance perform s i =
      ⟨(perform s.shared a).1,Function.update s.rest i ((perform s.shared a).2++as)⟩ := by
  rw [advance, h]

theorem advance_idle (s : State n S A) (i : Fin n) (h : s.rest i = []) : advance perform s i = s := by
  rw [advance, h]

theorem advance_rest (s : State n S A) (i j : Fin n) (hj : j ≠ i) :
    (advance perform s i).rest j = s.rest j := by
  unfold advance
  cases s.rest i with
  | nil => rfl
  | cons a as => exact Function.update_of_ne hj _ _

theorem call_rest (s : State n S A) (i j : Fin n) (sections : List A) (hj : j ≠ i) :
    (call s i sections).rest j = s.rest j := Function.update_of_ne hj _ _

@[simp] theorem call_self (s : State n S A) (i : Fin n) (sections : List A) :
    (call s i sections).rest i = sections := Function.update_self _ _ _

end Steps

section Solo
variable {perform : S → A → S × List A}

inductive Completes (perform : S → A → S × List A) : S → List A → S → Prop
  | nil (s : S) : Completes perform s [] s
  | cons (s t : S) (a : A) (as : List A)
      (h : Completes perform (perform s a).1 ((perform s a).2++as) t) : Completes perform s (a::as) t

theorem Completes.append {s t u : S} {as bs : List A} (h : Completes perform s as t)
    (hb : Completes perform t bs u) : Completes perform s (as++bs) u := by
  induction h with
  | nil s => exact hb
  | cons s t a as h ih =>
    apply Completes.cons
    have hrest := ih hb
    rwa [List.append_assoc] at hrest

theorem Completes.then {s t u : S} {a : A} {as : List A} (ha : perform s a = (t,[]))
    (h : Completes perform t as u) : Completes perform s (a::as) u := by
  apply Completes.cons
  rw [ha]
  exact h

theorem Completes.goesOn {s t u : S} {a : A} {as bs : List A} (ha : perform s a = (t,bs))
    (h : Completes perform t (bs++as) u) : Completes perform s (a::as) u := by
  apply Completes.cons
  rw [ha]
  exact h

theorem Completes.one {s t : S} {a : A} (ha : perform s a = (t,[])) : Completes perform s [a] t :=
  .then ha (.nil t)

theorem Completes.run {s t : S} {as : List A} (h : Completes perform s as t) (rest : Fin n → List A)
    (i : Fin n) (hi : rest i = as) :
    ∃ k, (fun u => advance perform u i)^[k] ⟨s,rest⟩ = ⟨t,Function.update rest i []⟩ := by
  induction h generalizing rest with
  | nil s =>
    refine ⟨0,?_⟩
    rw [← hi, Function.update_eq_self]
    rfl
  | cons s t a as h ih =>
    obtain ⟨k,hk⟩ := ih (Function.update rest i ((perform s a).2++as)) (Function.update_self _ _ _)
    refine ⟨k+1,?_⟩
    rw [Function.iterate_succ_apply, advance_eq perform ⟨s,rest⟩ i a as hi, hk, Function.update_idem]

theorem Completes.uninterrupted {s t : S} {as : List A} (h : Completes perform s as t)
    (rest : Fin n → List A) (i : Fin n) :
    ∃ k, (fun u => advance perform u i)^[k] (call ⟨s,rest⟩ i as) = ⟨t,Function.update rest i []⟩ := by
  obtain ⟨k,hk⟩ := h.run (Function.update rest i as) i (Function.update_self _ _ _)
  rw [Function.update_idem] at hk
  exact ⟨k,hk⟩

end Solo

section Sections
variable (perform : S → A → S × List A) (inv : S → Prop) (good : A → Prop)

structure Closed : Prop where
  keeps : ∀ s a, good a → inv s → inv (perform s a).1
  goesOn : ∀ s a, good a → inv s → ∀ b ∈ (perform s a).2, good b

structure Holds (s : State n S A) : Prop where
  shared : inv s.shared
  rest : ∀ i, ∀ a ∈ s.rest i, good a

variable {perform inv good}

theorem closed_true : Closed perform (fun _ => True) (fun _ => True) where
  keeps _ _ _ _ := trivial
  goesOn _ _ _ _ _ _ := trivial

theorem advance_holds (hc : Closed perform inv good) (s : State n S A) (i : Fin n)
    (h : Holds inv good s) : Holds inv good (advance perform s i) := by
  cases hi : s.rest i with
  | nil => rwa [advance_idle perform s i hi]
  | cons a as =>
    have hgood : ∀ b ∈ a::as, good b := hi ▸ h.rest i
    have ha := hgood a List.mem_cons_self
    rw [advance_eq perform s i a as hi]
    refine ⟨hc.keeps s.shared a ha h.shared,fun j => ?_⟩
    dsimp only
    by_cases hj : j = i
    · rw [hj, Function.update_self]
      intro b hb
      rcases List.mem_append.mp hb with hb | hb
      · exact hc.goesOn s.shared a ha h.shared b hb
      · exact hgood b (List.mem_cons_of_mem a hb)
    · rw [Function.update_of_ne hj]
      exact h.rest j

theorem call_holds (s : State n S A) (i : Fin n) (sections : List A) (hs : ∀ a ∈ sections, good a)
    (h : Holds inv good s) : Holds inv good (call s i sections) := by
  refine ⟨h.shared,fun j => ?_⟩
  by_cases hj : j = i
  · subst hj
    rw [call_self]
    exact hs
  · rw [call_rest s i j sections hj]
    exact h.rest j

end Sections

section Accounts
variable [AddCommGroup M] (perform : S → A → S × List A) (inv : S → Prop) (good : A → Prop)
  (value : S → M) (owed : A → M)

/-- A section pays into the account what it owed, less what the sections owe
with which it goes on. -/
def Balanced : Prop :=
  ∀ s a, good a → inv s → value (perform s a).1+((perform s a).2.map owed).sum = value s+owed a

def debt (s : State n S A) (i : Fin n) : M := ((s.rest i).map owed).sum

def total (s : State n S A) : M := value s.shared+∑ i, debt owed s i

variable {perform inv good value owed}

theorem debt_update (owed : A → M) (s : State n S A) (i : Fin n) (as : List A) :
    ∑ j, ((Function.update s.rest i as j).map owed).sum =
      ∑ j, debt owed s j-debt owed s i+(as.map owed).sum := by
  have hrest : ∑ j ∈ Finset.univ.erase i, ((Function.update s.rest i as j).map owed).sum =
      ∑ j ∈ Finset.univ.erase i, debt owed s j := by
    apply Finset.sum_congr rfl
    intro j hj
    rw [Function.update_of_ne (Finset.ne_of_mem_erase hj)]
    rfl
  rw [← Finset.add_sum_erase _ _ (Finset.mem_univ i), ← Finset.add_sum_erase _ (debt owed s) (Finset.mem_univ i),
    hrest, Function.update_self]
  abel

theorem advance_change (s : State n S A) (i : Fin n) (a : A) (as : List A) (hi : s.rest i = a::as) :
    total value owed (advance perform s i) = total value owed s+
      (value (perform s.shared a).1+((perform s.shared a).2.map owed).sum-(value s.shared+owed a)) := by
  have hdebt : debt owed s i = owed a+(as.map owed).sum := by rw [debt, hi, List.map_cons, List.sum_cons]
  have hsum := debt_update owed s i ((perform s.shared a).2++as)
  rw [advance_eq perform s i a as hi]
  calc
    value (perform s.shared a).1+
          ∑ j, ((Function.update s.rest i ((perform s.shared a).2++as) j).map owed).sum
        = value (perform s.shared a).1+(∑ j, debt owed s j-(owed a+(as.map owed).sum)+
            (((perform s.shared a).2.map owed).sum+(as.map owed).sum)) := by
          rw [hsum, hdebt, List.map_append, List.sum_append]
    _ = total value owed s+(value (perform s.shared a).1+((perform s.shared a).2.map owed).sum-
          (value s.shared+owed a)) := by
          rw [total]
          abel

theorem advance_total (hb : Balanced perform inv good value owed) (s : State n S A) (i : Fin n)
    (h : Holds inv good s) : total value owed (advance perform s i) = total value owed s := by
  cases hi : s.rest i with
  | nil => rw [advance_idle perform s i hi]
  | cons a as =>
    have ha : good a := h.rest i a (by rw [hi]; exact List.mem_cons_self)
    rw [advance_change s i a as hi, hb s.shared a ha h.shared, sub_self, add_zero]

theorem call_total (s : State n S A) (i : Fin n) (sections : List A) (hi : s.rest i = []) :
    total value owed (call s i sections) = total value owed s+(sections.map owed).sum := by
  have hdebt : debt owed s i = 0 := by rw [debt, hi]; rfl
  have hsum := debt_update owed s i sections
  calc
    value s.shared+∑ j, ((Function.update s.rest i sections j).map owed).sum
        = value s.shared+(∑ j, debt owed s j-debt owed s i+(sections.map owed).sum) := by rw [hsum]
    _ = total value owed s+(sections.map owed).sum := by
        rw [hdebt, total]
        abel

/-- Nothing is owed while every thread is outside. -/
theorem total_quiet (s : State n S A) (h : Quiet s) : total value owed s = value s.shared := by
  have hzero : ∀ i ∈ Finset.univ, debt owed s i = 0 := by
    intro i _
    rw [debt, h i]
    rfl
  rw [total, Finset.sum_eq_zero hzero, add_zero]

end Accounts

section Budgets
variable [AddCommGroup M] [PartialOrder M] [IsOrderedAddMonoid M] (perform : S → A → S × List A)
  (value : S → M) (owed : A → M)

/-- A section and those it goes on with cost no more than was set aside for it. -/
def Covered : Prop :=
  ∀ s a, value (perform s a).1+((perform s a).2.map owed).sum ≤ value s+owed a

variable {perform value owed}

theorem advance_total_le (hb : Covered perform value owed) (s : State n S A) (i : Fin n) :
    total value owed (advance perform s i) ≤ total value owed s := by
  cases hi : s.rest i with
  | nil => rw [advance_idle perform s i hi]
  | cons a as =>
    rw [advance_change s i a as hi]
    exact add_le_of_nonpos_right (sub_nonpos.mpr (hb s.shared a))

end Budgets

section Moves
variable {C : Type} (perform : S → A → S × List A) (program : C → List A)

inductive Move (n : ℕ) (C : Type) where
  | call (i : Fin n) (c : C)
  | next (i : Fin n)

def Move.step (s : State n S A) : Move n C → State n S A
  | .call i c => CriticalSections.call s i (program c)
  | .next i => advance perform s i

def Move.Fits (s : State n S A) : Move n C → Prop
  | .call i _ => s.rest i = []
  | .next _ => True

instance Move.Fits.decidable (s : State n S A) (m : Move n C) : Decidable (Move.Fits s m) :=
  match m with
  | .call i _ => decidable_of_iff ((s.rest i).isEmpty = true) List.isEmpty_iff
  | .next _ => inferInstanceAs (Decidable True)

def Move.made : Move n C → Option C
  | .call _ c => some c
  | .next _ => none

def callsOf (moves : List (Move n C)) : List C := moves.filterMap Move.made

def opened (n : ℕ) (s : S) : State n S A := ⟨s,fun _ => []⟩

theorem opened_holds (inv : S → Prop) (good : A → Prop) (s : S) (h : inv s) :
    Holds inv good (opened n s : State n S A) := ⟨h,fun _ _ ha => absurd ha List.not_mem_nil⟩

variable {perform program} {inv : S → Prop} {good : A → Prop}

theorem move_holds (hc : Closed perform inv good) (s : State n S A) (m : Move n C)
    (hgood : ∀ c, m.made = some c → ∀ a ∈ program c, good a) (h : Holds inv good s) :
    Holds inv good (m.step perform program s) := by
  cases m with
  | call i c => exact call_holds s i (program c) (hgood c rfl) h
  | next i => exact advance_holds hc s i h

theorem moves_holds (hc : Closed perform inv good) (moves : List (Move n C)) (s : State n S A)
    (hgood : ∀ c ∈ callsOf moves, ∀ a ∈ program c, good a) (h : Holds inv good s) :
    Holds inv good (Schedule.run (Move.step perform program) moves s) := by
  induction moves generalizing s with
  | nil => exact h
  | cons m moves ih =>
    have hone := move_holds hc s m
      (fun c hm => hgood c (List.mem_filterMap.mpr ⟨m,List.mem_cons_self,hm⟩)) h
    apply ih (m.step perform program s) _ hone
    intro c hmem
    obtain ⟨m',hm',hmade⟩ := List.mem_filterMap.mp hmem
    exact hgood c (List.mem_filterMap.mpr ⟨m',List.mem_cons_of_mem m hm',hmade⟩)

variable [AddCommGroup M] {value : S → M} {owed : A → M} {owes : C → M}

/-- The account after a run: what the calls owed, and what is still owed. -/
theorem moves_total (hc : Closed perform inv good) (hb : Balanced perform inv good value owed)
    (howes : ∀ c, ((program c).map owed).sum = owes c) (moves : List (Move n C)) (s : State n S A)
    (hgood : ∀ c ∈ callsOf moves, ∀ a ∈ program c, good a)
    (hfits : Schedule.Allowed (Move.step perform program) Move.Fits moves s) (h : Holds inv good s) :
    total value owed (Schedule.run (Move.step perform program) moves s) =
      total value owed s+((callsOf moves).map owes).sum := by
  induction moves generalizing s with
  | nil => exact (add_zero _).symm
  | cons m moves ih =>
    have hone := move_holds hc s m
      (fun c hm => hgood c (List.mem_filterMap.mpr ⟨m,List.mem_cons_self,hm⟩)) h
    have hrest := ih (m.step perform program s) (fun c hmem => by
      obtain ⟨m',hm',hmade⟩ := List.mem_filterMap.mp hmem
      exact hgood c (List.mem_filterMap.mpr ⟨m',List.mem_cons_of_mem m hm',hmade⟩)) hfits.2 hone
    rw [Schedule.run, hrest]
    cases m with
    | call i c =>
      have hcall : total value owed ((Move.call i c).step perform program s) =
          total value owed s+owes c := (call_total s i (program c) hfits.1).trans (by rw [howes])
      have hcalls : callsOf (.call i c::moves) = c::callsOf moves := rfl
      rw [hcall, hcalls, List.map_cons, List.sum_cons, add_assoc]
    | next i =>
      have hnext : total value owed ((Move.next i : Move n C).step perform program s) = total value owed s :=
        advance_total hb s i h
      rw [hnext]
      rfl

/-- The cost of a run: what was set aside for the calls, less what is left of it. -/
theorem moves_total_le [PartialOrder M] [IsOrderedAddMonoid M] (hb : Covered perform value owed)
    (howes : ∀ c, ((program c).map owed).sum = owes c) (moves : List (Move n C)) (s : State n S A)
    (hfits : Schedule.Allowed (Move.step perform program) Move.Fits moves s) :
    total value owed (Schedule.run (Move.step perform program) moves s) ≤
      total value owed s+((callsOf moves).map owes).sum := by
  induction moves generalizing s with
  | nil => exact (add_zero _).symm.le
  | cons m moves ih =>
    refine (ih (m.step perform program s) hfits.2).trans ?_
    cases m with
    | call i c =>
      have hcall : total value owed ((Move.call i c).step perform program s) =
          total value owed s+owes c := (call_total s i (program c) hfits.1).trans (by rw [howes])
      have hcalls : callsOf (.call i c::moves) = c::callsOf moves := rfl
      rw [hcall, hcalls, List.map_cons, List.sum_cons, add_assoc]
    | next i => exact add_le_add (advance_total_le hb s i) le_rfl

end Moves
end Chronos.CriticalSections
