import Mathlib

/-!
# Running peaks

The running maximum of a list, and a scan that keeps the first element of
the largest key it has met.
-/

set_option autoImplicit false

namespace Chronos.RunningPeak

section Places
variable {α : Type}

def UpTo (xs : List α) (j : ℕ) : Set α := {a | ∃ i ≤ j, xs[i]? = some a}

theorem upTo_zero (x : α) (xs : List α) : UpTo (x::xs) 0 = {x} := by
  ext a
  constructor
  · rintro ⟨i,hi,ha⟩
    cases Nat.le_zero.mp hi
    exact (Option.some.inj ha).symm
  · intro ha
    exact ⟨0,le_rfl,congrArg some ha.symm⟩

theorem upTo_succ (x : α) (xs : List α) (j : ℕ) :
    UpTo (x::xs) (j+1) = {x} ∪ UpTo xs j := by
  ext a
  constructor
  · rintro ⟨i,hi,ha⟩
    cases i with
    | zero => exact Or.inl (Option.some.inj ha).symm
    | succ i => exact Or.inr ⟨i,by omega,by simpa using ha⟩
  · rintro (ha | ⟨i,hi,ha⟩)
    · exact ⟨0,by omega,congrArg some ha.symm⟩
    · exact ⟨i+1,by omega,by simpa using ha⟩

end Places

section Peaks
variable {α : Type} [LinearOrder α]

def peaks (p : α) : List α → List α
  | [] => []
  | x::xs => max p x::peaks (max p x) xs

@[simp] theorem length_peaks (p : α) (xs : List α) : (peaks p xs).length = xs.length := by
  induction xs generalizing p with
  | nil => rfl
  | cons x xs ih => simp only [peaks, List.length_cons, ih]

theorem peaks_isGreatest_from (p : α) (xs : List α) (j : ℕ) (m : α)
    (h : (peaks p xs)[j]? = some m) : IsGreatest ({p} ∪ UpTo xs j) m := by
  induction xs generalizing p j with
  | nil => simp [peaks] at h
  | cons x xs ih =>
    have hpair (q r : α) : IsGreatest {q,r} (max q r) := isGreatest_pair
    cases j with
    | zero =>
      have hm : max p x = m := by simpa [peaks] using h
      rw [upTo_zero, ← hm]
      exact hpair p x
    | succ j =>
      have hrest : IsGreatest ({max p x} ∪ UpTo xs j) m :=
        ih (max p x) j (by simpa [peaks] using h)
      have hup : {p} ∪ UpTo (x::xs) (j+1) = {p,x} ∪ UpTo xs j := by
        rw [upTo_succ, ← Set.union_assoc]
        rfl
      rw [hup]
      constructor
      · rcases hrest.1 with hm | hm
        · rw [Set.mem_singleton_iff.mp hm]
          exact Or.inl (hpair p x).1
        · exact Or.inr hm
      · intro a ha
        rcases ha with ha | ha
        · exact ((hpair p x).2 ha).trans (hrest.2 (Or.inl rfl))
        · exact hrest.2 (Or.inr ha)

/-- Started at the first element, the peaks are the maxima of the elements so far. -/
theorem peaks_isGreatest (x : α) (xs : List α) (j : ℕ) (m : α)
    (h : (peaks x (x::xs))[j]? = some m) : IsGreatest (UpTo (x::xs) j) m := by
  have hx : x ∈ UpTo (x::xs) j := ⟨0,Nat.zero_le j,rfl⟩
  have hfirst : UpTo (x::xs) j = {x} ∪ UpTo (x::xs) j :=
    (Set.union_eq_self_of_subset_left (Set.singleton_subset_iff.mpr hx)).symm
  rw [hfirst]
  exact peaks_isGreatest_from x (x::xs) j m h

theorem peaks_map {β : Type} [LinearOrder β] (f : α → β) (hf : Monotone f) (p : α)
    (xs : List α) : (peaks p xs).map f = peaks (f p) (xs.map f) := by
  induction xs generalizing p with
  | nil => rfl
  | cons x xs ih => simp only [peaks, List.map_cons, ih, hf.map_max]

end Peaks

section Falls
variable {G : Type} [AddCommGroup G] [LinearOrder G] [IsOrderedAddMonoid G]

def Falls (xs : List G) : Set G :=
  {d | ∃ (i j : ℕ) (a b : G), i ≤ j ∧ xs[i]? = some a ∧ xs[j]? = some b ∧ d = a-b}

def PeakFalls (ps xs : List G) : Set G :=
  {d | ∃ (j : ℕ) (p a : G), ps[j]? = some p ∧ xs[j]? = some a ∧ d = p-a}

/-- The largest fall of one pass with a running peak is the largest over all pairs. -/
theorem falls_isGreatest (x : G) (xs : List G) (m : G)
    (h : IsGreatest (PeakFalls (peaks x (x::xs)) (x::xs)) m) :
    IsGreatest (Falls (x::xs)) m := by
  constructor
  · obtain ⟨j,p,a,hp,ha,hm⟩ := h.1
    obtain ⟨i,hi,hpi⟩ := (peaks_isGreatest x xs j p hp).1
    exact ⟨i,j,p,a,hi,hpi,ha,hm⟩
  · rintro d ⟨i,j,a,b,hij,ha,hb,hd⟩
    have hj : j < (peaks x (x::xs)).length := by
      rw [length_peaks]
      exact (List.getElem?_eq_some_iff.mp hb).1
    have hp := List.getElem?_eq_getElem hj
    have hpeak : a ≤ (peaks x (x::xs))[j] :=
      (peaks_isGreatest x xs j _ hp).2 ⟨i,hij,ha⟩
    have hfall : (peaks x (x::xs))[j]-b ≤ m := h.2 ⟨j,_,b,hp,hb,rfl⟩
    calc d = a-b := hd
      _ ≤ (peaks x (x::xs))[j]-b := sub_le_sub_right hpeak b
      _ ≤ m := hfall

/-- Nothing is lost exactly when no element is below an earlier one. -/
theorem falls_zero_iff (xs : List G) (m : G) (h : IsGreatest (Falls xs) m) :
    m = 0 ↔ xs.Pairwise (· ≤ ·) := by
  rw [List.pairwise_iff_getElem]
  constructor
  · intro hm i j hi hj hij
    have hfall : xs[i]-xs[j] ≤ m := h.2 ⟨i,j,_,_,hij.le,
      List.getElem?_eq_getElem hi,List.getElem?_eq_getElem hj,rfl⟩
    exact sub_nonpos.mp (hm ▸ hfall)
  · intro hmono
    obtain ⟨i,j,a,b,hij,ha,hb,hm⟩ := h.1
    obtain ⟨hi,rfl⟩ := List.getElem?_eq_some_iff.mp ha
    obtain ⟨hj,rfl⟩ := List.getElem?_eq_some_iff.mp hb
    have hzero : 0 ≤ m := h.2 ⟨j,j,_,_,le_rfl,hb,hb,(sub_self _).symm⟩
    have hle : xs[i] ≤ xs[j] := by
      rcases hij.lt_or_eq with hlt | rfl
      · exact hmono i j hi hj hlt
      · exact le_rfl
    rw [hm] at hzero ⊢
    exact le_antisymm (sub_nonpos.mpr hle) hzero

end Falls

section Scan
variable {α β : Type} [LinearOrder α]

/-- A scan that changes its choice only for a larger key. -/
def keep (f : β → α) (best x : β) : β := if f best < f x then x else best

/-- The scan ends with the first element of the largest key. -/
theorem argmax_keep (f : β → α) (b : β) (xs : List β) :
    (b::xs).argmax f = some (xs.foldl (keep f) b) := by
  induction xs using List.reverseRecOn with
  | nil => rfl
  | append_singleton xs x ih =>
    rw [← List.cons_append, List.argmax_concat, ih, List.foldl_append]
    show (if f (xs.foldl (keep f) b) < f x then some x else some (xs.foldl (keep f) b)) =
      some (keep f (xs.foldl (keep f) b) x)
    rw [keep]
    split_ifs <;> rfl

end Scan
end Chronos.RunningPeak
