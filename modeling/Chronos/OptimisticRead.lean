import Mathlib

/-!
# Optimistic reads of a versioned cell

A cell is data beside a version number. Whoever writes makes the number odd
first, changes the data word by word and makes it even again. A reader loads
the number, goes on only if it is even, reads word by word, and keeps its
result only if a second load gives the same number. As long as the number
does not come round, that result belongs to the data of one moment.
-/

set_option autoImplicit false

namespace Chronos.OptimisticRead
variable {D R : Type}

inductive Reading (D R : Type) where
  | done (result : R)
  | load (next : D → Reading D R)

namespace Reading

def advance : Reading D R → D → Reading D R
  | .done r, _ => .done r
  | .load next, d => next d

def result : Reading D R → D → R
  | .done r, _ => r
  | .load next, d => (next d).result d

@[simp] theorem result_done (r : R) (d : D) : (done r).result d = r := rfl

@[simp] theorem result_load (next : D → Reading D R) (d : D) :
    (load next).result d = (next d).result d := rfl

theorem result_advance (q : Reading D R) (d : D) : (q.advance d).result d = q.result d := by
  cases q with
  | done r => rfl
  | load next => rfl

end Reading

structure Cell (D : Type) where
  version : ℕ
  data : D

/-- What a step of the writing side may do: raise the version, or leave it
and change the data under an odd one only. -/
structure Disciplined (c c' : Cell D) : Prop where
  forward : c.version ≤ c'.version
  covered : c'.version = c.version → c.version%2 = 1 ∨ c'.data = c.data

/-- A read between its two version loads: if the version it started from is
still there, the rest of the read gives what the whole read would give now. -/
structure Faithful (c : Cell D) (query : Reading D R) (before : ℕ) (rest : Reading D R) : Prop where
  even : before%2 = 0
  past : before ≤ c.version
  unchanged : c.version = before → rest.result c.data = query.result c.data

theorem begin_faithful (c : Cell D) (query : Reading D R) (h : c.version%2 = 0) :
    Faithful c query c.version query := ⟨h,le_refl _,fun _ => rfl⟩

theorem advance_faithful (c : Cell D) (query rest : Reading D R) (before : ℕ)
    (h : Faithful c query before rest) : Faithful c query before (rest.advance c.data) where
  even := h.even
  past := h.past
  unchanged hv := (Reading.result_advance rest c.data).trans (h.unchanged hv)

theorem write_faithful (c c' : Cell D) (query rest : Reading D R) (before : ℕ)
    (hw : Disciplined c c') (h : Faithful c query before rest) : Faithful c' query before rest where
  even := h.even
  past := h.past.trans hw.forward
  unchanged hv := by
    have hforward := hw.forward
    have hpast := h.past
    have hsame : c'.version = c.version := by omega
    rcases hw.covered hsame with hodd | hdata
    · have heven := h.even
      omega
    · rw [hdata]
      exact h.unchanged (by omega)

/-- The second load: an equal version makes the result that of the present
data, and no write is under way. -/
theorem validated (c : Cell D) (query : Reading D R) (before : ℕ) (r : R)
    (h : Faithful c query before (.done r)) (hv : c.version = before) :
    r = query.result c.data ∧ c.version%2 = 0 :=
  ⟨h.unchanged hv,hv ▸ h.even⟩

end Chronos.OptimisticRead
