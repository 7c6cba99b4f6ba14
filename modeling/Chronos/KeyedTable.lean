import Mathlib

/-!
# Tables with distinct keys

A table lists its entries in the order an iteration visits them. Assignment
keeps the place of a key it finds; a new key is placed last. Erasing takes
the entry of a key out.
-/

set_option autoImplicit false

namespace Chronos.KeyedTable

structure Table (K V : Type) where
  entries : List (K × V)
  distinct : (entries.map Prod.fst).Nodup

namespace Table
variable {K V : Type}

def empty : Table K V := ⟨[],List.nodup_nil⟩

variable [DecidableEq K]

def lookup (k : K) : List (K × V) → Option V
  | [] => none
  | x::xs => if x.1 = k then some x.2 else lookup k xs

def replace (k : K) (v : V) : List (K × V) → List (K × V)
  | [] => [(k,v)]
  | x::xs => if x.1 = k then (k,v)::xs else x::replace k v xs

theorem replace_keys (k : K) (v : V) (xs : List (K × V)) (y : K)
    (h : y ∈ (replace k v xs).map Prod.fst) : y = k ∨ y ∈ xs.map Prod.fst := by
  induction xs with
  | nil => exact Or.inl (by simpa [replace] using h)
  | cons x xs ih =>
    simp only [replace] at h
    split_ifs at h with hk
    · rcases List.mem_cons.mp h with h | h
      · exact Or.inl h
      · exact Or.inr (by simp [h])
    · rcases List.mem_cons.mp h with h | h
      · exact Or.inr (by simp [h])
      · exact (ih h).imp_right (fun h => by simp [h])

theorem replace_distinct (k : K) (v : V) (xs : List (K × V)) (h : (xs.map Prod.fst).Nodup) :
    ((replace k v xs).map Prod.fst).Nodup := by
  induction xs with
  | nil => simp [replace]
  | cons x xs ih =>
    obtain ⟨hx,hs⟩ := List.nodup_cons.mp h
    simp only [replace]
    split_ifs with hk
    · exact hk ▸ h
    · refine List.nodup_cons.mpr ⟨fun hm => ?_,ih hs⟩
      rcases replace_keys k v xs x.1 hm with he | he
      · exact hk he
      · exact hx he

def find (t : Table K V) (k : K) : Option V := lookup k t.entries

def assign (t : Table K V) (k : K) (v : V) : Table K V :=
  ⟨replace k v t.entries,replace_distinct k v t.entries t.distinct⟩

theorem lookup_replace (k j : K) (v : V) (xs : List (K × V)) :
    lookup j (replace k v xs) = if k = j then some v else lookup j xs := by
  induction xs with
  | nil => simp [replace, lookup]
  | cons x xs ih =>
    by_cases hk : x.1 = k
    · by_cases hj : k = j <;> simp [replace, lookup, hk, hj]
    · by_cases hj : x.1 = j
      · have hkj : k ≠ j := fun h => hk (hj.trans h.symm)
        simp only [replace, if_neg hk, lookup, if_pos hj, if_neg hkj]
      · simp [replace, lookup, hk, hj, ih]

@[simp] theorem find_assign (t : Table K V) (k j : K) (v : V) :
    (t.assign k v).find j = if k = j then some v else t.find j :=
  lookup_replace k j v t.entries

@[simp] theorem find_empty (k : K) : (empty : Table K V).find k = none := rfl

def erase (t : Table K V) (k : K) : Table K V :=
  ⟨t.entries.filter (fun x => x.1 ≠ k),
    t.distinct.sublist (List.filter_sublist.map Prod.fst)⟩

theorem lookup_filter (k j : K) (xs : List (K × V)) :
    lookup j (xs.filter (fun x => x.1 ≠ k)) = if k = j then none else lookup j xs := by
  induction xs with
  | nil => simp [lookup]
  | cons x xs ih =>
    by_cases hk : x.1 = k
    · rw [List.filter_cons_of_neg (by simpa using hk), ih]
      by_cases hj : k = j
      · simp [hj]
      · simp [lookup, hk, hj]
    · rw [List.filter_cons_of_pos (by simpa using hk), lookup, ih]
      by_cases hj : k = j
      · subst hj
        simp [hk]
      · simp [lookup, hj]

@[simp] theorem find_erase (t : Table K V) (k j : K) :
    (t.erase k).find j = if k = j then none else t.find j :=
  lookup_filter k j t.entries

theorem lookup_mem (k : K) (v : V) (xs : List (K × V)) (hd : (xs.map Prod.fst).Nodup) :
    lookup k xs = some v ↔ (k,v) ∈ xs := by
  induction xs with
  | nil => simp [lookup]
  | cons x xs ih =>
    obtain ⟨hx,hs⟩ := List.nodup_cons.mp hd
    rw [lookup, List.mem_cons]
    split_ifs with hk
    · subst hk
      constructor
      · intro h
        exact Or.inl (by rw [← Option.some.inj h])
      · rintro (h | h)
        · rw [← h]
        · exact absurd (List.mem_map_of_mem h) hx
    · rw [ih hs]
      exact ⟨Or.inr,fun h => h.resolve_left (fun he => hk (by rw [← he]))⟩

theorem find_mem (t : Table K V) (k : K) (v : V) : t.find k = some v ↔ (k,v) ∈ t.entries :=
  lookup_mem k v t.entries t.distinct

theorem lookup_filterValue (p : V → Bool) (k : K) (xs : List (K × V)) (hd : (xs.map Prod.fst).Nodup) :
    lookup k (xs.filter (fun x => p x.2)) = (lookup k xs).filter p := by
  have hd' : ((xs.filter (fun x => p x.2)).map Prod.fst).Nodup :=
    hd.sublist (List.filter_sublist.map Prod.fst)
  ext v
  rw [lookup_mem k v _ hd', List.mem_filter, Option.filter_eq_some_iff,
    lookup_mem k v xs hd]

def part (w : V → ℤ) (t : Table K V) (k : K) : ℤ := (t.find k).elim 0 w

theorem sum_replace {G : Type} [AddCommGroup G] (w : V → G) (k : K) (v : V) (xs : List (K × V)) :
    ((replace k v xs).map (fun x => w x.2)).sum =
      (xs.map (fun x => w x.2)).sum-(lookup k xs).elim 0 w+w v := by
  induction xs with
  | nil => simp [replace, lookup]
  | cons x xs ih =>
    by_cases hk : x.1 = k
    · simp only [replace, lookup, if_pos hk, List.map_cons, List.sum_cons, Option.elim_some]
      abel
    · simp only [replace, lookup, if_neg hk, List.map_cons, List.sum_cons, ih]
      abel

/-- Assigning one key moves a sum over the table by the change at that key. -/
theorem sum_assign (w : V → ℤ) (t : Table K V) (k : K) (v : V) :
    ((t.assign k v).entries.map (fun x => w x.2)).sum =
      (t.entries.map (fun x => w x.2)).sum-part w t k+w v := sum_replace w k v t.entries

end Table
end Chronos.KeyedTable
