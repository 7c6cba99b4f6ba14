import Mathlib

/-!
# Schedules

A schedule is a finite list of actions applied to a state, one after the
other. What the environment promises is a condition on each action in the
state it meets; a schedule is allowed when every one of its actions keeps
the promise.
-/

set_option autoImplicit false

namespace Chronos.Schedule
variable {S A : Type}

def run (step : S → A → S) : List A → S → S
  | [], s => s
  | a::as, s => run step as (step s a)

theorem run_append (step : S → A → S) (as bs : List A) (s : S) :
    run step (as++bs) s = run step bs (run step as s) := by
  induction as generalizing s with
  | nil => rfl
  | cons a as ih => exact ih (step s a)

def Allowed (step : S → A → S) (ok : S → A → Prop) : List A → S → Prop
  | [], _ => True
  | a::as, s => ok s a ∧ Allowed step ok as (step s a)

instance Allowed.decidable (step : S → A → S) (ok : S → A → Prop) [∀ s a, Decidable (ok s a)] :
    ∀ (as : List A) (s : S), Decidable (Allowed step ok as s)
  | [], _ => inferInstanceAs (Decidable True)
  | a::as, s => @instDecidableAnd _ _ _ (Allowed.decidable step ok as (step s a))

theorem allowed_append (step : S → A → S) (ok : S → A → Prop) (as bs : List A) (s : S) :
    Allowed step ok (as++bs) s ↔ Allowed step ok as s ∧ Allowed step ok bs (run step as s) := by
  induction as generalizing s with
  | nil => simp [Allowed, run]
  | cons a as ih => simp [Allowed, run, ih, and_assoc]

theorem allowed_of_forall (step : S → A → S) (ok : S → A → Prop) (h : ∀ s a, ok s a) (as : List A)
    (s : S) : Allowed step ok as s := by
  induction as generalizing s with
  | nil => trivial
  | cons a as ih => exact ⟨h s a,ih (step s a)⟩

theorem allowed_and (step : S → A → S) (ok ok' : S → A → Prop) (as : List A) (s : S) :
    Allowed step (fun s a => ok s a ∧ ok' s a) as s ↔ Allowed step ok as s ∧ Allowed step ok' as s := by
  induction as generalizing s with
  | nil => simp [Allowed]
  | cons a as ih =>
    rw [Allowed, Allowed, Allowed, ih]
    exact and_and_and_comm

/-- A promise about the actions alone. -/
theorem allowed_actions (step : S → A → S) (ok : A → Prop) (as : List A) (s : S) :
    Allowed step (fun _ a => ok a) as s ↔ ∀ a ∈ as, ok a := by
  induction as generalizing s with
  | nil => simp [Allowed]
  | cons a as ih => rw [Allowed, ih, List.forall_mem_cons]

/-- What every allowed step keeps, every allowed schedule keeps. -/
theorem invariant (step : S → A → S) (ok : S → A → Prop) (inv : S → Prop)
    (hstep : ∀ s a, ok s a → inv s → inv (step s a)) (as : List A) (s : S)
    (hok : Allowed step ok as s) (hs : inv s) : inv (run step as s) := by
  induction as generalizing s with
  | nil => exact hs
  | cons a as ih => exact ih (step s a) hok.2 (hstep s a hok.1 hs)

/-- A promise may be traded for one that it implies under an invariant. -/
theorem allowed_of_invariant (step : S → A → S) (ok ok' : S → A → Prop) (inv : S → Prop)
    (hstep : ∀ s a, ok s a → inv s → inv (step s a)) (himp : ∀ s a, ok s a → inv s → ok' s a)
    (as : List A) (s : S) (hok : Allowed step ok as s) (hs : inv s) : Allowed step ok' as s := by
  induction as generalizing s with
  | nil => trivial
  | cons a as ih => exact ⟨himp s a hok.1 hs,ih (step s a) hok.2 (hstep s a hok.1 hs)⟩

/-- A promise that is exactly what an invariant needs: of the schedules in a
domain, those that keep it are the ones whose states all satisfy the
invariant. -/
theorem invariant_iff_within (step : S → A → S) (domain ok : S → A → Prop) (always inv : S → Prop)
    (hstep : ∀ s a, domain s a → always s → always (step s a))
    (h : ∀ s a, domain s a → always s → inv s → (inv (step s a) ↔ ok s a)) (as : List A) (s : S)
    (hdomain : Allowed step domain as s) (ha : always s) (hs : inv s) :
    (∀ n, inv (run step (as.take n) s)) ↔ Allowed step ok as s := by
  induction as generalizing s with
  | nil => simpa [Allowed, run] using hs
  | cons a as ih =>
    have hone := h s a hdomain.1 ha hs
    have hrest := ih (step s a) hdomain.2 (hstep s a hdomain.1 ha)
    constructor
    · intro hall
      exact ⟨hone.mp (hall 1),(hrest (hall 1)).mp (fun n => hall (n+1))⟩
    · rintro ⟨hok,hallowed⟩ n
      cases n with
      | zero => exact hs
      | succ n => exact (hrest (hone.mpr hok)).mpr hallowed n

/-- The same, where the other invariant holds outside of the domain too. -/
theorem invariant_iff (step : S → A → S) (domain ok : S → A → Prop) (always inv : S → Prop)
    (hstep : ∀ s a, always s → always (step s a))
    (h : ∀ s a, domain s a → always s → inv s → (inv (step s a) ↔ ok s a)) (as : List A) (s : S)
    (hdomain : Allowed step domain as s) (ha : always s) (hs : inv s) :
    (∀ n, inv (run step (as.take n) s)) ↔ Allowed step ok as s :=
  invariant_iff_within step domain ok always inv (fun s a _ => hstep s a) h as s hdomain ha hs

/-- A property of all prefixes, when each action decides whether it is kept. -/
theorem prefixes_iff (P : List A → Prop) (ok : List A → A → Prop) (h0 : P [])
    (hstep : ∀ as a, P as → (P (as++[a]) ↔ ok as a)) (as : List A) :
    (∀ n, P (as.take n)) ↔ ∀ before a after, as = before++a::after → ok before a := by
  constructor
  · rintro h before a after rfl
    have hbefore := h before.length
    have hnext := h (before.length+1)
    rw [List.take_left' rfl] at hbefore
    rw [List.take_append, List.take_of_length_le (Nat.le_succ _), Nat.add_sub_cancel_left,
      List.take_succ_cons, List.take_zero] at hnext
    exact (hstep before a hbefore).mp hnext
  · intro h n
    induction n with
    | zero => exact h0
    | succ n ih =>
      by_cases hn : n < as.length
      · rw [List.take_succ_eq_append_getElem hn]
        refine (hstep _ _ ih).mpr (h _ _ (as.drop (n+1)) ?_)
        rw [← List.drop_eq_getElem_cons hn, List.take_append_drop]
      · rw [List.take_of_length_le (by omega)]
        rwa [List.take_of_length_le (by omega)] at ih

end Chronos.Schedule
