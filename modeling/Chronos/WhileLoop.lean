import Mathlib

/-!
# Loops that may not end

`while (go on) { turn }` on a state, with fuel for its tests. A loop leaves
with a state when some fuel is enough for it; it ends when it leaves with any.
-/

set_option autoImplicit false

namespace Chronos.WhileLoop
variable {S : Type} (goOn : S → Bool) (turn : S → S)

def run : ℕ → S → Option S
  | 0, _ => none
  | fuel+1, s => if goOn s then run fuel (turn s) else some s

def Leaves (s t : S) : Prop := ∃ fuel, run goOn turn fuel s = some t

def Ends (s : S) : Prop := ∃ t, Leaves goOn turn s t

variable {goOn turn}

theorem leaves_stop (s t : S) (h : goOn s = false) : Leaves goOn turn s t ↔ t = s := by
  constructor
  · rintro ⟨fuel,hrun⟩
    cases fuel with
    | zero => cases hrun
    | succ fuel =>
      rw [run, h, if_neg Bool.false_ne_true] at hrun
      exact (Option.some.inj hrun).symm
  · rintro rfl
    exact ⟨1,by rw [run, h, if_neg Bool.false_ne_true]⟩

theorem leaves_turn (s t : S) (h : goOn s = true) :
    Leaves goOn turn s t ↔ Leaves goOn turn (turn s) t := by
  constructor
  · rintro ⟨fuel,hrun⟩
    cases fuel with
    | zero => cases hrun
    | succ fuel => exact ⟨fuel,by rwa [run, if_pos h] at hrun⟩
  · rintro ⟨fuel,hrun⟩
    exact ⟨fuel+1,by rwa [run, if_pos h]⟩

theorem ends_turn (s : S) (h : goOn s = true) :
    Ends goOn turn s ↔ Ends goOn turn (turn s) :=
  exists_congr (fun t => leaves_turn s t h)

theorem ends_stop (s : S) (h : goOn s = false) : Ends goOn turn s :=
  ⟨s,(leaves_stop s s h).mpr rfl⟩

/-- What a loop leaves with has an invariant of its turns, and goes on no more. -/
theorem leaves_invariant (inv : S → Prop) (hturn : ∀ s, goOn s = true → inv s → inv (turn s))
    (s t : S) (hs : inv s) (h : Leaves goOn turn s t) : inv t ∧ goOn t = false := by
  obtain ⟨fuel,hrun⟩ := h
  induction fuel generalizing s with
  | zero => cases hrun
  | succ fuel ih =>
    rw [run] at hrun
    by_cases hgo : goOn s = true
    · rw [if_pos hgo] at hrun
      exact ih (turn s) (hturn s hgo hs) hrun
    · rw [if_neg hgo] at hrun
      obtain rfl := Option.some.inj hrun
      exact ⟨hs,Bool.eq_false_iff.mpr hgo⟩

/-- An invariant under which the loop always goes on. -/
theorem never_ends (inv : S → Prop) (hturn : ∀ s, goOn s = true → inv s → inv (turn s))
    (hgo : ∀ s, inv s → goOn s = true) (s : S) (hs : inv s) : ¬Ends goOn turn s := by
  rintro ⟨t,ht⟩
  obtain ⟨hinv,hstop⟩ := leaves_invariant inv hturn s t hs ht
  exact Bool.false_ne_true (hstop.symm.trans (hgo t hinv))

theorem leaves_unique (s t t' : S) (h : Leaves goOn turn s t) (h' : Leaves goOn turn s t') :
    t = t' := by
  obtain ⟨fuel,hrun⟩ := h
  induction fuel generalizing s with
  | zero => cases hrun
  | succ fuel ih =>
    rw [run] at hrun
    by_cases hgo : goOn s = true
    · rw [if_pos hgo] at hrun
      exact ih (turn s) ((leaves_turn s t' hgo).mp h') hrun
    · rw [if_neg hgo] at hrun
      rw [(leaves_stop s t' (Bool.eq_false_iff.mpr hgo)).mp h', Option.some.inj hrun]

end Chronos.WhileLoop
