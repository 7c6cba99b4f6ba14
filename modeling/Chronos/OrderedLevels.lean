import Mathlib

/-!
# Key-ordered association lists

Entries are kept in the order of a comparator, one entry a key. The ordered
map below is a container with such a list as its iteration order. The second
half describes assignment and removal by the position at which a search ends,
which is how an array holding the same entries sees them.
-/

set_option autoImplicit false

namespace Chronos.OrderedLevels

variable {K V : Type*} (before : K → K → Prop)

def Ordered (xs : List (K × V)) : Prop := xs.Pairwise (fun a b => before a.1 b.1)

section Lists
variable [DecidableRel before]

def put (k : K) (v : V) : List (K × V) → List (K × V)
  | [] => [(k,v)]
  | x::xs => if before x.1 k then x::put k v xs
      else if before k x.1 then (k,v)::x::xs else (k,v)::xs

def remove [DecidableEq K] (k : K) (xs : List (K × V)) : List (K × V) :=
  xs.eraseP (fun x => x.1 = k)

theorem put_mem (k : K) (v : V) (xs : List (K × V)) (x : K × V)
    (h : x ∈ put before k v xs) : x = (k,v) ∨ x ∈ xs := by
  induction xs with
  | nil => exact Or.inl (by simpa [put] using h)
  | cons y ys ih =>
    simp only [put] at h
    split_ifs at h
    · rcases List.mem_cons.mp h with rfl | h
      · exact Or.inr (by simp)
      · exact (ih h).imp_right (List.mem_cons_of_mem y)
    · simpa using h
    · exact (List.mem_cons.mp h).imp_right (List.mem_cons_of_mem y)

theorem put_ordered [IsStrictTotalOrder K before] (k : K) (v : V) (xs : List (K × V))
    (h : Ordered before xs) : Ordered before (put before k v xs) := by
  induction xs with
  | nil => simp [put, Ordered]
  | cons y ys ih =>
    obtain ⟨hy,hs⟩ := List.pairwise_cons.mp h
    simp only [put]
    split_ifs with hb ha
    · refine List.pairwise_cons.mpr ⟨fun z hz => ?_,ih hs⟩
      rcases put_mem before k v ys z hz with rfl | hz
      · exact hb
      · exact hy z hz
    · refine List.pairwise_cons.mpr ⟨fun z hz => ?_,h⟩
      rcases List.mem_cons.mp hz with rfl | hz
      · exact ha
      · exact trans_of before ha (hy z hz)
    · have he : y.1 = k := (trichotomous_of before y.1 k).resolve_left hb |>.resolve_right ha
      refine List.pairwise_cons.mpr ⟨fun z hz => ?_,hs⟩
      exact he ▸ hy z hz

theorem put_mem_iff [IsStrictTotalOrder K before] (k : K) (v : V) (xs : List (K × V))
    (h : Ordered before xs) (x : K × V) :
    x ∈ put before k v xs ↔ x = (k,v) ∨ x ∈ xs ∧ x.1 ≠ k := by
  induction xs with
  | nil => simp [put]
  | cons y ys ih =>
    obtain ⟨hy,hs⟩ := List.pairwise_cons.mp h
    -- the entries that stay have keys other than `k`
    have hnot {z : K × V} (hz : before z.1 k ∨ before k z.1) : z.1 ≠ k := by
      rintro rfl
      exact hz.elim (irrefl_of before z.1) (irrefl_of before z.1)
    simp only [put]
    split_ifs with hb ha
    · rw [List.mem_cons, ih hs, List.mem_cons]
      constructor
      · rintro (rfl | rfl | hx)
        · exact Or.inr ⟨Or.inl rfl,hnot (Or.inl hb)⟩
        · exact Or.inl rfl
        · exact Or.inr ⟨Or.inr hx.1,hx.2⟩
      · rintro (rfl | ⟨rfl | hx,hk⟩)
        · exact Or.inr (Or.inl rfl)
        · exact Or.inl rfl
        · exact Or.inr (Or.inr ⟨hx,hk⟩)
    · rw [List.mem_cons]
      refine or_congr_right (iff_self_and.mpr fun hx => hnot (Or.inr ?_))
      rcases List.mem_cons.mp hx with rfl | hx
      · exact ha
      · exact trans_of before ha (hy x hx)
    · have he : y.1 = k := (trichotomous_of before y.1 k).resolve_left hb |>.resolve_right ha
      rw [List.mem_cons, List.mem_cons]
      refine or_congr_right ?_
      constructor
      · exact fun hx => ⟨Or.inr hx,hnot (Or.inr (he ▸ hy x hx))⟩
      · rintro ⟨rfl | hx,hk⟩
        · exact absurd he hk
        · exact hx

end Lists

theorem ordered_keys [IsStrictTotalOrder K before] (xs : List (K × V)) (h : Ordered before xs) :
    (xs.map Prod.fst).Nodup := by
  have hkeys : (xs.map Prod.fst).Pairwise before := List.pairwise_map.mpr h
  exact hkeys.imp (ne_of_irrefl (r := before))

theorem remove_ordered [DecidableEq K] (k : K) (xs : List (K × V))
    (h : Ordered before xs) : Ordered before (remove k xs) :=
  List.Pairwise.sublist List.eraseP_sublist h

section Positions

/-- Position `r` separates the entries before key `k` from the others. -/
structure Splits (k : K) (xs : List (K × V)) (r : ℕ) : Prop where
  bound : r ≤ xs.length
  left : ∀ i (h : i < xs.length), i < r → before xs[i].1 k
  right : ∀ i (h : i < xs.length), r ≤ i → ¬before xs[i].1 k

theorem splits_tail (k : K) (x : K × V) (xs : List (K × V)) (r : ℕ)
    (h : Splits before k (x::xs) (r+1)) : Splits before k xs r where
  bound := by simpa using h.bound
  left i hi hr := h.left (i+1) (Nat.succ_lt_succ hi) (by omega)
  right i hi hr := h.right (i+1) (Nat.succ_lt_succ hi) (by omega)

variable [DecidableRel before]

theorem put_at_hit [IsStrictTotalOrder K before] (k : K) (v : V) (xs : List (K × V)) (r : ℕ)
    (hs : Splits before k xs r) (hr : r < xs.length) (hk : xs[r].1 = k) :
    put before k v xs = xs.set r (k,v) := by
  induction xs generalizing r with
  | nil => simp at hr
  | cons x xs ih =>
    cases r with
    | zero =>
      have hx : x.1 = k := by simpa using hk
      simp [put, hx, irrefl_of before k]
    | succ r =>
      have hb : before x.1 k := hs.left 0 (by simp) (by omega)
      simp only [put, if_pos hb, List.set_cons_succ]
      rw [ih r (splits_tail before k x xs r hs) (by simpa using hr) (by simpa using hk)]

theorem put_at_gap [IsStrictTotalOrder K before] (k : K) (v : V) (xs : List (K × V)) (r : ℕ)
    (hs : Splits before k xs r) (hk : ∀ h : r < xs.length, xs[r].1 ≠ k) :
    put before k v xs = xs.insertIdx r (k,v) := by
  induction xs generalizing r with
  | nil =>
    have hr : r = 0 := by simpa using hs.bound
    simp [put, hr]
  | cons x xs ih =>
    cases r with
    | zero =>
      have hb : ¬before x.1 k := hs.right 0 (by simp) (by omega)
      have hn : x.1 ≠ k := hk (by simp)
      have ha : before k x.1 := (trichotomous_of before x.1 k).resolve_left hb |>.resolve_left hn
      simp [put, hb, ha]
    | succ r =>
      have hb : before x.1 k := hs.left 0 (by simp) (by omega)
      simp only [put, if_pos hb, List.insertIdx_succ_cons]
      rw [ih r (splits_tail before k x xs r hs)
        (fun h => hk (Nat.succ_lt_succ h))]

end Positions

theorem remove_at [DecidableEq K] [IsStrictTotalOrder K before] (k : K) (xs : List (K × V))
    (m : ℕ) (hs : Ordered before xs) (hm : m < xs.length) (hk : xs[m].1 = k) :
    remove k xs = xs.eraseIdx m := by
  induction xs generalizing m with
  | nil => simp at hm
  | cons x xs ih =>
    obtain ⟨hx,hs⟩ := List.pairwise_cons.mp hs
    cases m with
    | zero => simp [remove, show x.1 = k by simpa using hk]
    | succ m =>
      have hm' : m < xs.length := by simpa using hm
      have hk' : xs[m].1 = k := by simpa using hk
      have hb : before x.1 k := hk' ▸ hx _ (List.getElem_mem hm')
      have hn : x.1 ≠ k := fun he => irrefl_of before k (he ▸ hb)
      have ht := ih m hs hm' hk'
      simp only [remove] at ht
      simp [remove, hn, ht]

theorem remove_missing [DecidableEq K] (k : K) (xs : List (K × V)) (h : ∀ x ∈ xs, x.1 ≠ k) :
    remove k xs = xs := List.eraseP_of_forall_not (by simpa using h)

theorem remove_eq_self_iff [DecidableEq K] (k : K) (xs : List (K × V)) :
    remove k xs = xs ↔ ∀ x ∈ xs, x.1 ≠ k := by
  constructor
  · intro h x hx hk
    have hlen : (remove k xs).length = xs.length-1 :=
      List.length_eraseP_of_mem hx (decide_eq_true hk)
    have hpos : 0 < xs.length := List.length_pos_of_mem hx
    rw [h] at hlen
    omega
  · exact remove_missing k xs

section Unchanged
variable [DecidableRel before]

theorem put_of_mem [IsStrictTotalOrder K before] (k : K) (v : V) (xs : List (K × V))
    (hs : Ordered before xs) (h : (k,v) ∈ xs) : put before k v xs = xs := by
  induction xs with
  | nil => simp at h
  | cons x xs ih =>
    obtain ⟨hx,hs⟩ := List.pairwise_cons.mp hs
    rcases List.mem_cons.mp h with rfl | h
    · simp [put, irrefl_of before k]
    · rw [put, if_pos (hx _ h), ih hs h]

theorem put_last (k : K) (v : V) (xs : List (K × V)) (h : ∀ x ∈ xs, before x.1 k) :
    put before k v xs = xs++[(k,v)] := by
  induction xs with
  | nil => rfl
  | cons x xs ih =>
    rw [put, if_pos (h x (by simp)), ih (fun y hy => h y (by simp [hy]))]
    rfl

/-- The first entries stay when the entry is there already, or when it comes after all of them. -/
theorem take_put_eq_self_iff [IsStrictTotalOrder K before] (k : K) (v : V) (xs : List (K × V)) (n : ℕ)
    (hs : Ordered before xs) (hn : xs.length ≤ n) :
    (put before k v xs).take n = xs ↔
      (k,v) ∈ xs ∨ xs.length = n ∧ ∀ x ∈ xs, before x.1 k := by
  constructor
  · clear hs hn
    intro h
    induction xs generalizing n with
    | nil =>
      right
      cases n with
      | zero => simp
      | succ n => simp [put] at h
    | cons x xs ih =>
      cases n with
      | zero => simp at h
      | succ n =>
        simp only [put] at h
        split_ifs at h with hb ha
        · rw [List.take_succ_cons, List.cons.injEq] at h
          rcases ih n h.2 with hmem | ⟨hlen,hall⟩
          · exact Or.inl (List.mem_cons_of_mem x hmem)
          · refine Or.inr ⟨by rw [List.length_cons, hlen],?_⟩
            exact List.forall_mem_cons.mpr ⟨hb,hall⟩
        · rw [List.take_succ_cons, List.cons.injEq] at h
          exact Or.inl (List.mem_cons.mpr (Or.inl h.1))
        · rw [List.take_succ_cons, List.cons.injEq] at h
          exact Or.inl (List.mem_cons.mpr (Or.inl h.1))
  · rintro (hmem | ⟨hlen,hall⟩)
    · rw [put_of_mem before k v xs hs hmem, List.take_of_length_le hn]
    · rw [put_last before k v xs hall, List.take_left' hlen]

end Unchanged

structure SortedMap (V : Type*) where
  entries : List (K × V)
  ordered : Ordered before entries

namespace SortedMap
variable {before}

def empty : SortedMap before V := ⟨[],List.Pairwise.nil⟩

def size (m : SortedMap before V) : ℕ := m.entries.length

def find [DecidableEq K] (m : SortedMap before V) (k : K) : Option V :=
  (m.entries.find? (fun x => x.1 = k)).map Prod.snd

def assign [DecidableRel before] [IsStrictTotalOrder K before]
    (m : SortedMap before V) (k : K) (v : V) : SortedMap before V :=
  ⟨put before k v m.entries,put_ordered before k v m.entries m.ordered⟩

def erase [DecidableEq K] (m : SortedMap before V) (k : K) : SortedMap before V :=
  ⟨remove k m.entries,remove_ordered before k m.entries m.ordered⟩

def eraseLast (m : SortedMap before V) : SortedMap before V :=
  ⟨m.entries.dropLast,List.Pairwise.sublist (List.dropLast_sublist _) m.ordered⟩

theorem find_none [DecidableEq K] (m : SortedMap before V) (k : K) :
    m.find k = none ↔ ∀ x ∈ m.entries, x.1 ≠ k := by
  simp [find]

end SortedMap

end Chronos.OrderedLevels
