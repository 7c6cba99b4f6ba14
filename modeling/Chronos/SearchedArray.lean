import Mathlib

/-!
# Sorted prefixes of fixed arrays

An array of fixed length holds its live entries in a prefix. The halving
loops find a position by a monotone test on indices; the two shifting loops
open and close one slot. Their effect is stated on the list of live entries.
-/

set_option autoImplicit false

namespace Chronos.SearchedArray

/-- `while (lo < hi)` with one test: the window shrinks to the first index at
which the test fails. -/
def lowerBound (goRight : ℕ → Bool) (lo hi : ℕ) : ℕ :=
  if lo < hi then
    let mid := lo+(hi-lo)/2
    if goRight mid then lowerBound goRight (mid+1) hi else lowerBound goRight lo mid
  else lo
  termination_by hi-lo

/-- The three-way loop, which may stop early on an index passing neither test. -/
def search (goRight goLeft : ℕ → Bool) (lo hi : ℕ) : Option ℕ :=
  if lo < hi then
    let mid := lo+(hi-lo)/2
    if goRight mid then search goRight goLeft (mid+1) hi
    else if goLeft mid then search goRight goLeft lo mid
    else some mid
  else none
  termination_by hi-lo

def Downward (p : ℕ → Bool) (n : ℕ) : Prop := ∀ i j, i ≤ j → j < n → p j → p i

def Upward (p : ℕ → Bool) (n : ℕ) : Prop := ∀ i j, i ≤ j → j < n → p i → p j

theorem lowerBound_spec (p : ℕ → Bool) (n lo hi : ℕ) (hm : Downward p n)
    (hlo : ∀ i < lo, p i) (hhi : ∀ i, hi ≤ i → i < n → ¬p i) (hle : lo ≤ hi) (hn : hi ≤ n) :
    lowerBound p lo hi ≤ n ∧ (∀ i < lowerBound p lo hi, p i) ∧
      ∀ i, lowerBound p lo hi ≤ i → i < n → ¬p i := by
  fun_induction lowerBound p lo hi with
  | case1 lo hi hlt mid ht ih =>
    refine ih (fun i hi => hm i mid (by omega) (by omega) ht) hhi (by omega) hn
  | case2 lo hi hlt mid ht ih =>
    refine ih hlo (fun i hi hin hp => ht ?_) (by omega) (by omega)
    exact hm mid i hi hin hp
  | case3 lo hi hlt => exact ⟨by omega,hlo,fun i hi => hhi i (by omega)⟩

def probes (goRight : ℕ → Bool) (lo hi : ℕ) : List ℕ :=
  if lo < hi then
    let mid := lo+(hi-lo)/2
    if goRight mid then mid::probes goRight (mid+1) hi else mid::probes goRight lo mid
  else []
  termination_by hi-lo

/-- The range of the result, whatever the test. -/
theorem lowerBound_le (p : ℕ → Bool) (lo hi : ℕ) (h : lo ≤ hi) : lowerBound p lo hi ≤ hi := by
  fun_induction lowerBound p lo hi with
  | case1 lo hi hlt mid ht ih => exact ih (by omega)
  | case2 lo hi hlt mid ht ih => exact (ih (by omega)).trans (by omega)
  | case3 lo hi hlt => exact h

theorem probes_lt (p : ℕ → Bool) (lo hi : ℕ) : ∀ i ∈ probes p lo hi, i < hi := by
  fun_induction probes p lo hi with
  | case1 lo hi hlt mid ht ih => exact List.forall_mem_cons.mpr ⟨by omega,ih⟩
  | case2 lo hi hlt mid ht ih =>
    exact List.forall_mem_cons.mpr ⟨by omega,fun i hi => (ih i hi).trans (by omega)⟩
  | case3 lo hi hlt => simp

/-- The loop reads its test at the listed indices and nowhere else. -/
theorem lowerBound_congr (p q : ℕ → Bool) (lo hi : ℕ) (h : ∀ i ∈ probes p lo hi, p i = q i) :
    lowerBound q lo hi = lowerBound p lo hi ∧ probes q lo hi = probes p lo hi := by
  rw [lowerBound.eq_def q, probes.eq_def q]
  fun_induction probes p lo hi with
  | case1 lo hi hlt mid ht ih =>
    rw [List.forall_mem_cons] at h
    have hq : q mid = true := h.1 ▸ ht
    obtain ⟨hbound,hprobes⟩ := ih h.2
    rw [← lowerBound.eq_def] at hbound
    rw [← probes.eq_def] at hprobes
    rw [lowerBound.eq_def p]
    simp only [if_pos hlt, mid, hq, ht, if_true]
    exact ⟨hbound,congrArg _ hprobes⟩
  | case2 lo hi hlt mid ht ih =>
    rw [List.forall_mem_cons] at h
    have hq : ¬q mid = true := h.1 ▸ ht
    obtain ⟨hbound,hprobes⟩ := ih h.2
    rw [← lowerBound.eq_def] at hbound
    rw [← probes.eq_def] at hprobes
    rw [lowerBound.eq_def p]
    simp only [if_pos hlt, mid, if_neg hq, if_neg ht]
    exact ⟨hbound,congrArg _ hprobes⟩
  | case3 lo hi hlt =>
    rw [lowerBound, if_neg hlt, if_neg hlt, if_neg hlt]
    exact ⟨rfl,rfl⟩

/-- A test that changes once is passed as often as the index of the change. -/
theorem countP_range (p : ℕ → Bool) (n k : ℕ) (hk : k ≤ n) (hleft : ∀ i < k, p i)
    (hright : ∀ i, k ≤ i → i < n → ¬p i) : (List.range n).countP p = k := by
  induction n with
  | zero => simpa using (Nat.le_zero.mp hk).symm
  | succ n ih =>
    rw [List.range_succ, List.countP_append, List.countP_singleton]
    by_cases hn : k ≤ n
    · rw [ih hn (fun i h hi => hright i h (by omega)), if_neg (hright n hn (by omega)), add_zero]
    · have hkn : k = n+1 := by omega
      subst hkn
      have hall : (List.range n).countP p = n := by
        have h := List.countP_eq_length.mpr
          (fun i hi => hleft i ((List.mem_range.mp hi).trans (Nat.lt_succ_self n)))
        rwa [List.length_range] at h
      rw [hall, if_pos (hleft n (by omega))]

theorem search_found (p q : ℕ → Bool) (lo hi m : ℕ) (h : search p q lo hi = some m) :
    m < hi ∧ ¬p m ∧ ¬q m := by
  fun_induction search p q lo hi with
  | case1 lo hi hlt mid hp ih => exact ih h
  | case2 lo hi hlt mid hp hq ih => exact ⟨by have := (ih h).1; omega,(ih h).2⟩
  | case3 lo hi hlt mid hp hq =>
    obtain rfl := Option.some.inj h
    exact ⟨by omega,hp,hq⟩
  | case4 lo hi hlt => cases h

theorem search_missing (p q : ℕ → Bool) (n lo hi : ℕ) (hp : Downward p n) (hq : Upward q n)
    (hlo : ∀ i < lo, p i) (hhi : ∀ i, hi ≤ i → i < n → q i) (hle : lo ≤ hi) (hn : hi ≤ n)
    (h : search p q lo hi = none) : ∀ i < n, p i ∨ q i := by
  fun_induction search p q lo hi with
  | case1 lo hi hlt mid ht ih =>
    exact ih (fun i hi => hp i mid (by omega) (by omega) ht) hhi (by omega) hn h
  | case2 lo hi hlt mid ht hu ih =>
    exact ih hlo (fun i hi hin => hq mid i hi hin hu) (by omega) (by omega) h
  | case3 lo hi hlt mid ht hu => cases h
  | case4 lo hi hlt =>
    intro i hi
    rcases Nat.lt_or_ge i lo with hl | hl
    · exact Or.inl (hlo i hl)
    · exact Or.inr (hhi i (by omega) hi)

section Shifts
variable {α : Type*} [Inhabited α] {n : ℕ}

/-- `for (i = count; i > pos; --i) xs[i] = xs[i-1]` -/
def openSlot (pos : ℕ) : ℕ → Vector α n → Vector α n
  | 0, xs => xs
  | i+1, xs => if pos < i+1 then openSlot pos i (xs.setIfInBounds (i+1) (xs.getD i default)) else xs

/-- `for (j = pos; j < count-1; ++j) xs[j] = xs[j+1]`, with the remaining
number of turns as the recursion argument. -/
def closeSlot : ℕ → ℕ → Vector α n → Vector α n
  | 0, _, xs => xs
  | k+1, j, xs => closeSlot k (j+1) (xs.setIfInBounds j (xs.getD (j+1) default))

/-- `for (i = 0; i < count; ++i) xs[i] = f(i)` -/
def copyFirst (f : ℕ → α) : ℕ → Vector α n → Vector α n
  | 0, xs => xs
  | c+1, xs => (copyFirst f c xs).setIfInBounds c (f c)

theorem some_getD (xs : Vector α n) (i : ℕ) (h : i < n) : some (xs.getD i default) = xs[i]? := by
  simp [Vector.getD, h]

theorem openSlot_getElem? (pos count : ℕ) (xs : Vector α n) (hc : count < n) (i : ℕ) :
    (openSlot pos count xs)[i]? = if pos < i ∧ i ≤ count then xs[i-1]? else xs[i]? := by
  induction count generalizing xs with
  | zero => rw [openSlot, if_neg (by omega)]
  | succ c ih =>
    rw [openSlot]
    by_cases hp : pos < c+1
    · rw [if_pos hp, ih _ (by omega)]
      by_cases hg : pos < i ∧ i ≤ c
      · rw [if_pos hg, if_pos ⟨hg.1,by omega⟩, Vector.getElem?_setIfInBounds_ne (by omega)]
      rw [if_neg hg]
      by_cases hi : i = c+1
      · subst hi
        rw [if_pos ⟨hp,le_refl _⟩, Vector.getElem?_setIfInBounds_self_of_lt hc,
          some_getD xs c (by omega)]
        rfl
      · rw [if_neg (by omega), Vector.getElem?_setIfInBounds_ne (by omega)]
    · rw [if_neg hp, if_neg (by omega)]

theorem closeSlot_getElem? (k j : ℕ) (xs : Vector α n) (hk : j+k < n) (i : ℕ) :
    (closeSlot k j xs)[i]? = if j ≤ i ∧ i < j+k then xs[i+1]? else xs[i]? := by
  induction k generalizing j xs with
  | zero => rw [closeSlot, if_neg (by omega)]
  | succ k ih =>
    rw [closeSlot, ih (j+1) _ (by omega)]
    by_cases hg : j+1 ≤ i ∧ i < j+1+k
    · rw [if_pos hg, if_pos (by omega), Vector.getElem?_setIfInBounds_ne (by omega)]
    rw [if_neg hg]
    by_cases hi : i = j
    · subst hi
      rw [if_pos (by omega), Vector.getElem?_setIfInBounds_self_of_lt (by omega),
        some_getD xs (i+1) (by omega)]
    · rw [if_neg (by omega), Vector.getElem?_setIfInBounds_ne (by omega)]

end Shifts

section Held
variable {α : Type*} {n : ℕ}

def held (xs : Vector α n) (count : ℕ) : List α := xs.toList.take count

theorem held_length (xs : Vector α n) (count : ℕ) (h : count ≤ n) :
    (held xs count).length = count := by
  simp [held, h]

theorem held_getElem? (xs : Vector α n) (count i : ℕ) :
    (held xs count)[i]? = if i < count then xs[i]? else none := by
  simp [held, List.getElem?_take]

theorem held_set (xs : Vector α n) (count pos : ℕ) (x : α) (hc : count ≤ n) (hp : pos < count) :
    held (xs.setIfInBounds pos x) count = (held xs count).set pos x := by
  apply List.ext_getElem?
  intro i
  rw [held_getElem?, Vector.getElem?_setIfInBounds, List.getElem?_set, held_getElem?,
    held_length xs count hc]
  grind

theorem held_open [Inhabited α] (xs : Vector α n) (count pos : ℕ) (x : α)
    (hc : count < n) (hp : pos ≤ count) :
    held ((openSlot pos count xs).setIfInBounds pos x) (count+1) =
      (held xs count).insertIdx pos x := by
  apply List.ext_getElem?
  intro i
  rw [held_getElem?, Vector.getElem?_setIfInBounds, openSlot_getElem? pos count xs hc,
    List.getElem?_insertIdx, held_getElem?, held_getElem?, held_length xs count (by omega)]
  grind

theorem held_close [Inhabited α] (xs : Vector α n) (count pos : ℕ)
    (hc : count ≤ n) (hp : pos < count) :
    held (closeSlot (count-1-pos) pos xs) (count-1) = (held xs count).eraseIdx pos := by
  apply List.ext_getElem?
  intro i
  rw [held_getElem?, closeSlot_getElem? _ _ xs (by omega), List.getElem?_eraseIdx,
    held_getElem?, held_getElem?]
  grind

/-- Inserting into a list cut to `count` entries is inserting first and
cutting one entry later. -/
theorem insertIdx_take (xs : List α) (count pos : ℕ) (x : α) (hp : pos ≤ count)
    (hc : count ≤ xs.length) :
    (xs.take count).insertIdx pos x = (xs.insertIdx pos x).take (count+1) := by
  apply List.ext_getElem?
  intro i
  rw [List.getElem?_insertIdx, List.getElem?_take, List.getElem?_take, List.getElem?_take,
    List.getElem?_insertIdx, List.length_take, Nat.min_eq_left hc]
  grind

theorem copyFirst_getElem? (f : ℕ → α) (count : ℕ) (xs : Vector α n) (hc : count ≤ n) (i : ℕ) :
    (copyFirst f count xs)[i]? = if i < count then some (f i) else xs[i]? := by
  induction count with
  | zero => simp [copyFirst]
  | succ c ih =>
    rw [copyFirst, Vector.getElem?_setIfInBounds, ih (by omega)]
    by_cases hi : c = i
    · subst hi
      rw [if_pos rfl, if_pos (by omega), if_pos (by omega)]
    · rw [if_neg hi]
      exact if_congr (by omega) rfl rfl

theorem held_copyFirst (f : ℕ → α) (count : ℕ) (xs : Vector α n) (hc : count ≤ n) :
    held (copyFirst f count xs) count = (List.range count).map f := by
  apply List.ext_getElem?
  intro i
  rw [held_getElem?, copyFirst_getElem? f count xs hc, List.getElem?_map]
  by_cases hi : i < count
  · rw [if_pos hi, if_pos hi, List.getElem?_range hi]
    rfl
  · rw [if_neg hi, List.getElem?_eq_none (by simpa using hi)]
    rfl

theorem range_getD [Inhabited α] (xs : Vector α n) (count : ℕ) (hc : count ≤ n) :
    (List.range count).map (fun i => xs.getD i default) = held xs count := by
  apply List.ext_getElem?
  intro i
  rw [held_getElem?, List.getElem?_map]
  by_cases hi : i < count
  · rw [if_pos hi, List.getElem?_range hi, Option.map_some, some_getD xs i (by omega)]
  · rw [if_neg hi, List.getElem?_eq_none (by simpa using hi)]
    rfl

end Held

end Chronos.SearchedArray
