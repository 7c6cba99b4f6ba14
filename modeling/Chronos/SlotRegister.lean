import Mathlib

/-!
# Slots that hold live names

Names are issued by somebody else, kept in slots of one's own and given up when
they are dead. A slot that is free holds zero. The register is the slots, the
names that are live and all names ever issued; it knows its names when the
slots hold exactly the live ones.
-/

set_option autoImplicit false

namespace Chronos

structure SlotRegister (I α : Type) where
  slots : I → α
  live : Finset α
  issued : Finset α

namespace SlotRegister
variable {I α : Type} [DecidableEq I] [DecidableEq α] [Zero α]

def put (r : SlotRegister I α) (i : I) (a : α) : SlotRegister I α :=
  if a = 0 then r
  else { slots := Function.update r.slots i a, live := insert a r.live, issued := insert a r.issued }

def clear (r : SlotRegister I α) (i : I) (gone : Bool) : SlotRegister I α :=
  { r with
    slots := Function.update r.slots i 0
    live := if gone then r.live.erase (r.slots i) else r.live }

def Knows (r : SlotRegister I α) : Prop := ∀ a, (a ≠ 0 ∧ ∃ i, r.slots i = a) ↔ a ∈ r.live

structure Sound (r : SlotRegister I α) : Prop where
  distinct : ∀ i j, r.slots i ≠ 0 → r.slots i = r.slots j → i = j
  held : ∀ i, r.slots i ≠ 0 → r.slots i ∈ r.issued
  live : r.live ⊆ r.issued

structure Forgets (r : SlotRegister I α) (a : α) : Prop where
  name : a ≠ 0
  live : a ∈ r.live
  missing : ∀ i, r.slots i ≠ a

variable {r : SlotRegister I α}

omit [DecidableEq I] [DecidableEq α] in
theorem Forgets.not_knows {a : α} (h : r.Forgets a) : ¬r.Knows := by
  intro hk
  obtain ⟨_,i,hi⟩ := (hk a).mpr h.live
  exact h.missing i hi

section Put
variable (i : I) (a : α)

theorem put_zero (r : SlotRegister I α) : r.put i 0 = r := if_pos rfl

theorem put_slots (r : SlotRegister I α) (ha : a ≠ 0) : (r.put i a).slots = Function.update r.slots i a := by
  rw [put, if_neg ha]

theorem put_live (r : SlotRegister I α) (ha : a ≠ 0) : (r.put i a).live = insert a r.live := by
  rw [put, if_neg ha]

theorem put_issued (r : SlotRegister I α) (ha : a ≠ 0) : (r.put i a).issued = insert a r.issued := by
  rw [put, if_neg ha]

theorem put_sound (hfresh : a ≠ 0 → a ∉ r.issued) (h : r.Sound) : (r.put i a).Sound := by
  by_cases ha : a = 0
  · rwa [ha, put_zero]
  have hother : ∀ j, r.slots j ≠ 0 → r.slots j ≠ a := fun j hj heq => hfresh ha (heq ▸ h.held j hj)
  constructor
  case distinct =>
    intro j k hj heq
    rw [put_slots i a r ha] at hj heq
    by_cases hji : j = i
    · by_cases hki : k = i
      · rw [hji, hki]
      · rw [hji, Function.update_self, Function.update_of_ne hki] at heq
        exact absurd heq.symm (hother k (heq ▸ ha))
    · rw [Function.update_of_ne hji] at hj heq
      by_cases hki : k = i
      · rw [hki, Function.update_self] at heq
        exact absurd heq (hother j hj)
      · rw [Function.update_of_ne hki] at heq
        exact h.distinct j k hj heq
  case held =>
    intro j hj
    rw [put_slots i a r ha] at hj ⊢
    rw [put_issued i a r ha]
    by_cases hji : j = i
    · rw [hji, Function.update_self]
      exact Finset.mem_insert_self ..
    · rw [Function.update_of_ne hji] at hj ⊢
      exact Finset.mem_insert_of_mem (h.held j hj)
  case live =>
    rw [put_live i a r ha, put_issued i a r ha]
    exact Finset.insert_subset_insert a h.live

theorem put_knows (hfree : r.slots i = 0) (h : r.Knows) : (r.put i a).Knows := by
  by_cases ha : a = 0
  · rwa [ha, put_zero]
  intro b
  rw [put_slots i a r ha, put_live i a r ha, Finset.mem_insert, ← h b]
  constructor
  · rintro ⟨hb,j,hj⟩
    by_cases hji : j = i
    · rw [hji, Function.update_self] at hj
      exact Or.inl hj.symm
    · rw [Function.update_of_ne hji] at hj
      exact Or.inr ⟨hb,j,hj⟩
  · rintro (rfl | ⟨hb,j,hj⟩)
    · exact ⟨ha,i,Function.update_self ..⟩
    · have hji : j ≠ i := by
        rintro rfl
        exact hb (hj.symm.trans hfree)
      exact ⟨hb,j,by rwa [Function.update_of_ne hji]⟩

theorem put_forgets_other (b : α) (hb : b ≠ a) (h : r.Forgets b) : (r.put i a).Forgets b := by
  by_cases ha : a = 0
  · rwa [ha, put_zero]
  constructor
  case name => exact h.name
  case live =>
    rw [put_live i a r ha]
    exact Finset.mem_insert_of_mem h.live
  case missing =>
    intro j
    rw [put_slots i a r ha]
    by_cases hji : j = i
    · rw [hji, Function.update_self]
      exact hb.symm
    · rw [Function.update_of_ne hji]
      exact h.missing j

/-- A name put over another one is the only way to lose a name here. -/
theorem put_forgets (ha : a ≠ 0) (hi : r.slots i ≠ 0) (hfresh : a ∉ r.issued) (hs : r.Sound)
    (h : r.Knows) : (r.put i a).Forgets (r.slots i) := by
  have hne : r.slots i ≠ a := fun heq => hfresh (heq ▸ hs.held i hi)
  constructor
  case name => exact hi
  case live =>
    rw [put_live i a r ha]
    exact Finset.mem_insert_of_mem ((h _).mp ⟨hi,i,rfl⟩)
  case missing =>
    intro j
    rw [put_slots i a r ha]
    by_cases hji : j = i
    · rw [hji, Function.update_self]
      exact hne.symm
    · rw [Function.update_of_ne hji]
      exact fun heq => hji (hs.distinct i j hi heq.symm).symm

theorem put_knows_iff (hfresh : a ≠ 0 → a ∉ r.issued) (hs : r.Sound) (h : r.Knows) :
    (r.put i a).Knows ↔ r.slots i = 0 ∨ a = 0 := by
  constructor
  · intro hput
    by_contra hno
    obtain ⟨hi,ha⟩ := not_or.mp hno
    exact (put_forgets i a ha hi (hfresh ha) hs h).not_knows hput
  · rintro (hfree | ha)
    · exact put_knows i a hfree h
    · rwa [ha, put_zero]

end Put

section Clear
variable (i : I) (gone : Bool)

theorem clear_sound (h : r.Sound) : (r.clear i gone).Sound := by
  have hslot : ∀ j, (r.clear i gone).slots j ≠ 0 → j ≠ i ∧ (r.clear i gone).slots j = r.slots j := by
    intro j hj
    have hji : j ≠ i := by
      rintro rfl
      exact hj (Function.update_self ..)
    exact ⟨hji,Function.update_of_ne hji ..⟩
  constructor
  case distinct =>
    intro j k hj heq
    have hk : (r.clear i gone).slots k ≠ 0 := heq ▸ hj
    obtain ⟨_,hj'⟩ := hslot j hj
    obtain ⟨_,hk'⟩ := hslot k hk
    rw [hj', hk'] at heq
    exact h.distinct j k (hj' ▸ hj) heq
  case held =>
    intro j hj
    obtain ⟨_,hj'⟩ := hslot j hj
    rw [hj']
    exact h.held j (hj' ▸ hj)
  case live =>
    show (if gone then r.live.erase (r.slots i) else r.live) ⊆ r.issued
    split_ifs
    · exact (Finset.erase_subset ..).trans h.live
    · exact h.live

theorem clear_knows (hi : r.slots i ≠ 0) (hs : r.Sound) (h : r.Knows) : (r.clear i true).Knows := by
  intro b
  show (b ≠ 0 ∧ ∃ j, Function.update r.slots i 0 j = b) ↔ b ∈ r.live.erase (r.slots i)
  rw [Finset.mem_erase, ← h b]
  constructor
  · rintro ⟨hb,j,hj⟩
    have hji : j ≠ i := by
      rintro rfl
      rw [Function.update_self] at hj
      exact hb hj.symm
    rw [Function.update_of_ne hji] at hj
    refine ⟨fun heq => hji ?_,hb,j,hj⟩
    exact (hs.distinct i j hi (heq.symm.trans hj.symm)).symm
  · rintro ⟨hne,hb,j,hj⟩
    have hji : j ≠ i := by
      rintro rfl
      exact hne hj.symm
    exact ⟨hb,j,by rwa [Function.update_of_ne hji]⟩

theorem clear_forgets (hi : r.slots i ≠ 0) (hs : r.Sound) (h : r.Knows) :
    (r.clear i false).Forgets (r.slots i) := by
  constructor
  case name => exact hi
  case live => exact (h _).mp ⟨hi,i,rfl⟩
  case missing =>
    intro j heq
    by_cases hji : j = i
    · rw [hji] at heq
      exact hi (heq.symm.trans (Function.update_self ..))
    · have hj : r.slots j = r.slots i := (Function.update_of_ne hji ..).symm.trans heq
      exact hji (hs.distinct i j hi hj.symm).symm

theorem clear_forgets_other (b : α) (h : r.Forgets b) : (r.clear i gone).Forgets b := by
  constructor
  case name => exact h.name
  case live =>
    show b ∈ if gone then r.live.erase (r.slots i) else r.live
    split_ifs
    · exact Finset.mem_erase.mpr ⟨(h.missing i).symm,h.live⟩
    · exact h.live
  case missing =>
    intro j heq
    by_cases hji : j = i
    · rw [hji] at heq
      exact h.name (heq.symm.trans (Function.update_self ..))
    · exact h.missing j ((Function.update_of_ne hji ..).symm.trans heq)

theorem clear_other (j : I) (hji : j ≠ i) : (r.clear i gone).slots j = r.slots j :=
  Function.update_of_ne hji ..

end Clear

section Move
variable (i : I) (gone : Bool) (target : Option I) (a : α)

def move (r : SlotRegister I α) (i : I) (gone : Bool) (target : Option I) (a : α) : SlotRegister I α :=
  match target with
  | none => r.clear i gone
  | some j => (r.clear i gone).put j a

theorem move_sound (hfresh : a ≠ 0 → a ∉ r.issued) (h : r.Sound) : (r.move i gone target a).Sound := by
  cases target with
  | none => exact clear_sound i gone h
  | some j => exact put_sound j a hfresh (clear_sound i gone h)

theorem move_forgets (hi : r.slots i ≠ 0) (hfresh : a ≠ 0 → a ∉ r.issued) (hs : r.Sound) (h : r.Knows) :
    (r.move i false target a).Forgets (r.slots i) := by
  have hcleared := clear_forgets i hi hs h
  cases target with
  | none => exact hcleared
  | some j =>
    by_cases ha : a = 0
    · rw [move, ha, put_zero]
      exact hcleared
    · exact put_forgets_other j a _ (fun heq => hfresh ha (heq ▸ hs.held i hi)) hcleared

theorem move_knows_iff (hi : r.slots i ≠ 0) (hother : ∀ j ∈ target, j ≠ i)
    (hfresh : a ≠ 0 → a ∉ r.issued) (hs : r.Sound) (h : r.Knows) :
    (r.move i gone target a).Knows ↔ gone ∧ ∀ j ∈ target, r.slots j = 0 ∨ a = 0 := by
  cases gone with
  | false => simpa using (move_forgets i target a hi hfresh hs h).not_knows
  | true =>
    have hcleared := clear_knows i hi hs h
    cases target with
    | none => simpa [move] using hcleared
    | some j =>
      have hput := put_knows_iff (r := r.clear i true) j a hfresh (clear_sound i true hs) hcleared
      rw [clear_other i true j (hother j rfl)] at hput
      simpa [move] using hput

end Move

section Passes

def putFree (wanted : I → Bool) (answer : I → α) (r : SlotRegister I α) (i : I) : SlotRegister I α :=
  if wanted i ∧ r.slots i = 0 then r.put i (answer i) else r

def clearIf (stale : I → Bool) (gone : α → Bool) (r : SlotRegister I α) (i : I) : SlotRegister I α :=
  if stale i ∧ r.slots i ≠ 0 then r.clear i (gone (r.slots i)) else r

variable (wanted stale : I → Bool) (answer : I → α) (gone : α → Bool)

theorem putFree_kept (i : I) (hfresh : answer i ≠ 0 → answer i ∉ r.issued) (hs : r.Sound) :
    (r.putFree wanted answer i).Sound ∧ (r.Knows → (r.putFree wanted answer i).Knows) ∧
      ∀ a ∈ (r.putFree wanted answer i).issued, a ∈ r.issued ∨ a = answer i := by
  unfold putFree
  split_ifs with hput
  · refine ⟨put_sound i _ hfresh hs,put_knows i _ hput.2,fun a ha => ?_⟩
    by_cases hzero : answer i = 0
    · rw [hzero, put_zero] at ha
      exact Or.inl ha
    · rw [put_issued i _ r hzero] at ha
      exact (Finset.mem_insert.mp ha).symm
  · exact ⟨hs,id,fun a ha => Or.inl ha⟩

theorem putFrees_kept (is : List I) (hnodup : is.Nodup) (r : SlotRegister I α)
    (hfresh : ∀ i ∈ is, answer i ≠ 0 → answer i ∉ r.issued)
    (hinj : ∀ i j, answer i ≠ 0 → answer i = answer j → i = j) (hs : r.Sound) :
    (is.foldl (putFree wanted answer) r).Sound ∧
      (r.Knows → (is.foldl (putFree wanted answer) r).Knows) := by
  induction is generalizing r with
  | nil => exact ⟨hs,id⟩
  | cons i is ih =>
    obtain ⟨hi,hnodup⟩ := List.nodup_cons.mp hnodup
    obtain ⟨hfirst,hrest⟩ := List.forall_mem_cons.mp hfresh
    obtain ⟨hsound,hknows,hissued⟩ := putFree_kept wanted answer i hfirst hs
    have hlater : ∀ j ∈ is, answer j ≠ 0 → answer j ∉ (r.putFree wanted answer i).issued := by
      intro j hj hzero hin
      rcases hissued _ hin with hold | heq
      · exact hrest j hj hzero hold
      · exact hi (hinj j i hzero heq ▸ hj)
    obtain ⟨hsound',hknows'⟩ := ih hnodup (r.putFree wanted answer i) hlater hsound
    exact ⟨hsound',fun h => hknows' (hknows h)⟩

theorem clearIfs_sound (is : List I) (r : SlotRegister I α) (hs : r.Sound) :
    (is.foldl (clearIf stale gone) r).Sound := by
  induction is generalizing r with
  | nil => exact hs
  | cons i is ih =>
    refine ih _ ?_
    unfold clearIf
    split_ifs
    · exact clear_sound i _ hs
    · exact hs

theorem clearIfs_forgets (is : List I) (r : SlotRegister I α) (a : α) (h : r.Forgets a) :
    (is.foldl (clearIf stale gone) r).Forgets a := by
  induction is generalizing r with
  | nil => exact h
  | cons i is ih =>
    refine ih _ ?_
    unfold clearIf
    split_ifs
    · exact clear_forgets_other i _ a h
    · exact h

/-- A pass over stale slots keeps the names known exactly if every name it
meets is gone. -/
theorem clearIfs_knows_iff (is : List I) (r : SlotRegister I α) (hs : r.Sound) (h : r.Knows) :
    (is.foldl (clearIf stale gone) r).Knows ↔
      ∀ i ∈ is, stale i → r.slots i ≠ 0 → gone (r.slots i) := by
  induction is generalizing r with
  | nil => simpa using h
  | cons i is ih =>
    rw [List.foldl_cons, List.forall_mem_cons]
    by_cases hclear : stale i ∧ r.slots i ≠ 0
    · rw [clearIf, if_pos hclear]
      obtain ⟨hstale,hi⟩ := hclear
      by_cases hgone : gone (r.slots i) = true
      · have hothers : ∀ j, (r.clear i true).slots j ≠ 0 → (r.clear i true).slots j = r.slots j := by
          intro j hj
          refine clear_other i true j ?_
          rintro rfl
          exact hj (Function.update_self ..)
        rw [hgone, ih _ (clear_sound i true hs) (clear_knows i hi hs h)]
        constructor
        · refine fun hall => ⟨fun _ _ => rfl,fun j hj hstale' hj0 => ?_⟩
          by_cases hji : j = i
          · rw [hji]
            exact hgone
          · have hslot := clear_other (r := r) i true j hji
            exact hslot ▸ hall j hj hstale' (hslot ▸ hj0)
        · rintro ⟨_,hall⟩ j hj hstale' hj0
          have hslot := hothers j hj0
          rw [hslot]
          exact hall j hj hstale' (hslot ▸ hj0)
      · have hforgets : (r.clear i (gone (r.slots i))).Forgets (r.slots i) := by
          rw [Bool.eq_false_iff.mpr hgone]
          exact clear_forgets i hi hs h
        refine iff_of_false ?_ (fun hall => hgone (hall.1 hstale hi))
        exact (clearIfs_forgets stale gone is _ _ hforgets).not_knows
    · rw [clearIf, if_neg hclear, ih r hs h]
      exact ⟨fun hall => ⟨fun hstale hi => absurd ⟨hstale,hi⟩ hclear,hall⟩,fun hall => hall.2⟩

end Passes
end SlotRegister
end Chronos
