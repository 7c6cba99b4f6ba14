import Chronos.OrderBookRefinement
import Chronos.Schedule

/-!
# Rebuilding the map-based book

Updates drop what is not positive and trim to twenty levels. A rebuild takes
a snapshot's levels as they come, the last quantity of a price winning, and
neither drops nor trims. Its copy of the best levels is current all the same.
-/

set_option autoImplicit false

namespace Chronos.OrderBook
open OrderedLevels BookLadder

/-- Every level is positive, or its price comes again later. -/
def LastPositive : List PriceLevel → Prop
  | [] => True
  | l::ls => (0 < l.quantity ∨ ∃ m ∈ ls, m.price = l.price) ∧ LastPositive ls

instance LastPositive.decidable : ∀ ls, Decidable (LastPositive ls)
  | [] => inferInstanceAs (Decidable True)
  | _::ls => @instDecidableAnd _ _ _ (LastPositive.decidable ls)

/-- One side of a snapshot that leaves the book well formed. -/
structure Restores (ls : List PriceLevel) : Prop where
  depth : (ls.map PriceLevel.price).toFinset.card ≤ maxDepth
  positive : LastPositive ls

section Side
variable {before : Decimal → Decimal → Prop} [DecidableRel before] [IsStrictTotalOrder Decimal before]

def Last (x : Decimal × Decimal) : List PriceLevel → Prop
  | [] => False
  | l::ls => toLevel x = l ∧ (∀ m ∈ ls, m.price ≠ l.price) ∨ Last x ls

theorem lastPositive_iff (ls : List PriceLevel) :
    LastPositive ls ↔ ∀ x, Last x ls → 0 < x.2 := by
  induction ls with
  | nil => exact iff_of_true trivial (fun x hx => hx.elim)
  | cons l ls ih =>
    rw [LastPositive, ih]
    constructor
    · rintro ⟨hl,hls⟩ x (⟨rfl,hlast⟩ | hx)
      · exact hl.resolve_right (fun ⟨m,hm,heq⟩ => hlast m hm heq)
      · exact hls x hx
    · intro h
      refine ⟨?_,fun x hx => h x (Or.inr hx)⟩
      by_cases hagain : ∃ m ∈ ls, m.price = l.price
      · exact Or.inr hagain
      · exact Or.inl (h (l.price,l.quantity) (Or.inl ⟨rfl,fun m hm heq => hagain ⟨m,hm,heq⟩⟩))

theorem assigned_mem (ls : List PriceLevel) (m : SortedMap before Decimal) (x : Decimal × Decimal) :
    x ∈ (ls.foldl (fun m l => m.assign l.price l.quantity) m).entries ↔
      Last x ls ∨ x ∈ m.entries ∧ ∀ l ∈ ls, l.price ≠ x.1 := by
  induction ls generalizing m with
  | nil => simp [Last]
  | cons l ls ih =>
    have hlevel : toLevel x = l ↔ x = (l.price,l.quantity) :=
      ⟨fun h => by rw [← h]; rfl,fun h => by rw [h]; rfl⟩
    rw [List.foldl_cons, ih, Last, hlevel, List.forall_mem_cons]
    change Last x ls ∨ x ∈ put before l.price l.quantity m.entries ∧ _ ↔ _
    rw [put_mem_iff before l.price l.quantity m.entries m.ordered]
    constructor
    · rintro (hx | ⟨rfl | hx,hls⟩)
      · exact Or.inl (Or.inr hx)
      · exact Or.inl (Or.inl ⟨rfl,hls⟩)
      · exact Or.inr ⟨hx.1,hx.2.symm,hls⟩
    · rintro ((⟨rfl,hls⟩ | hx) | ⟨hx,hl,hls⟩)
      · exact Or.inr ⟨Or.inl rfl,hls⟩
      · exact Or.inl hx
      · exact Or.inr ⟨Or.inr ⟨hx,hl.symm⟩,hls⟩

theorem assigned_keys (ls : List PriceLevel) (m : SortedMap before Decimal) (k : Decimal) :
    k ∈ (ls.foldl (fun m l => m.assign l.price l.quantity) m).entries.map Prod.fst ↔
      k ∈ ls.map PriceLevel.price ∨ k ∈ m.entries.map Prod.fst := by
  induction ls generalizing m with
  | nil => simp
  | cons l ls ih =>
    have hput : k ∈ (put before l.price l.quantity m.entries).map Prod.fst ↔
        k = l.price ∨ k ∈ m.entries.map Prod.fst := by
      simp only [List.mem_map, put_mem_iff before l.price l.quantity m.entries m.ordered]
      constructor
      · rintro ⟨x,rfl | hx,rfl⟩
        · exact Or.inl rfl
        · exact Or.inr ⟨x,hx.1,rfl⟩
      · rintro (rfl | ⟨x,hx,rfl⟩)
        · exact ⟨_,Or.inl rfl,rfl⟩
        · by_cases hk : x.1 = l.price
          · exact ⟨_,Or.inl rfl,hk.symm⟩
          · exact ⟨x,Or.inr ⟨hx,hk⟩,rfl⟩
    rw [List.foldl_cons, ih, List.map_cons, List.mem_cons, or_comm (a := k = l.price), or_assoc]
    exact or_congr_right hput

theorem assignAll_length (ls : List PriceLevel) :
    (assignAll ls : SortedMap before Decimal).entries.length = (ls.map PriceLevel.price).toFinset.card := by
  have hnodup := ordered_keys before _ (assignAll ls : SortedMap before Decimal).ordered
  rw [← List.length_map, ← List.toFinset_card_of_nodup hnodup]
  congr 1
  ext k
  rw [List.mem_toFinset, List.mem_toFinset, assignAll, assigned_keys]
  simp [SortedMap.empty]

theorem assignAll_sound (ls : List PriceLevel) :
    SideSound before (assignAll ls : SortedMap before Decimal).entries ↔ Restores ls := by
  have hmem (x : Decimal × Decimal) : x ∈ (assignAll ls : SortedMap before Decimal).entries ↔ Last x ls := by
    rw [assignAll, assigned_mem]
    simp [SortedMap.empty]
  have hpositive : (∀ x ∈ (assignAll ls : SortedMap before Decimal).entries, 0 < x.2) ↔ LastPositive ls := by
    simp only [hmem, lastPositive_iff]
  constructor
  · intro h
    have hdepth := h.depth
    rw [assignAll_length] at hdepth
    exact ⟨hdepth,hpositive.mp h.positive⟩
  · exact fun h => ⟨(assignAll_length ls).trans_le h.depth,SortedMap.ordered _,hpositive.mpr h.positive⟩

end Side

inductive BookAction where
  | op (op : BookOp)
  | rebuildFromSnapshot (snapshot : OrderBookSnapshot) (nowUs : ℕ)

def act (b : OrderBook) : BookAction → OrderBook
  | .op op => b.apply op
  | .rebuildFromSnapshot snapshot nowUs => b.rebuildFromSnapshot snapshot nowUs

/-- At most twenty levels a side, all positive, and the best-level copy current. -/
structure WellFormed (b : OrderBook) : Prop where
  levels : Sound b.view
  hot : HotFirst b

def GoodAction : BookAction → Prop
  | .op _ => True
  | .rebuildFromSnapshot snapshot _ => Restores snapshot.bids ∧ Restores snapshot.asks

theorem rebuild_wellFormed (b : OrderBook) (snapshot : OrderBookSnapshot) (nowUs : ℕ) :
    WellFormed (b.rebuildFromSnapshot snapshot nowUs) ↔
      Restores snapshot.bids ∧ Restores snapshot.asks := by
  constructor
  · intro h
    exact ⟨(assignAll_sound _).mp h.levels.bids,(assignAll_sound _).mp h.levels.asks⟩
  · intro h
    exact ⟨⟨(assignAll_sound _).mpr h.1,(assignAll_sound _).mpr h.2⟩,updateHotData_first _ nowUs⟩

theorem act_wellFormed (b : OrderBook) (a : BookAction) (h : WellFormed b) :
    WellFormed (b.act a) ↔ GoodAction a := by
  cases a with
  | op op =>
    have hview := apply_view b op h.levels
    exact iff_of_true ⟨hview ▸ step_sound op b.view h.levels,apply_first b op⟩ trivial
  | rebuildFromSnapshot snapshot nowUs => exact rebuild_wellFormed b snapshot nowUs

/-- The book is well formed in every state of a run exactly when every
snapshot restores a well-formed book. -/
theorem wellFormed_iff (actions : List BookAction) :
    (∀ n, WellFormed (Schedule.run act (actions.take n) {})) ↔
      ∀ snapshot nowUs, .rebuildFromSnapshot snapshot nowUs ∈ actions →
        Restores snapshot.bids ∧ Restores snapshot.asks := by
  have hnew : WellFormed {} := ⟨⟨sound_nil _,sound_nil _⟩,⟨rfl,rfl⟩⟩
  have hgood : (∀ a ∈ actions, GoodAction a) ↔ ∀ snapshot nowUs,
      .rebuildFromSnapshot snapshot nowUs ∈ actions →
        Restores snapshot.bids ∧ Restores snapshot.asks := by
    constructor
    · exact fun h snapshot nowUs hmem => h _ hmem
    · intro h a ha
      cases a with
      | op op => trivial
      | rebuildFromSnapshot snapshot nowUs => exact h snapshot nowUs ha
  rw [← hgood, ← Schedule.allowed_actions act GoodAction actions {}]
  exact Schedule.invariant_iff act (fun _ _ => True) (fun _ a => GoodAction a) (fun _ => True) WellFormed
    (fun _ _ _ => trivial) (fun b a _ _ h => act_wellFormed b a h) actions {}
    (Schedule.allowed_of_forall _ _ (fun _ _ => trivial) _ _) trivial hnew

def zeroBid : OrderBookSnapshot := { bids := [{ price := .ofInt 1, quantity := 0 }] }

theorem zeroBid_kept : ¬∀ actions : List BookAction, WellFormed (Schedule.run act actions {}) := by
  intro h
  have hsound := (h [.rebuildFromSnapshot zeroBid 0]).levels.bids
  exact absurd (hsound.positive (.ofInt 1,0) (by decide)) (by decide)

end Chronos.OrderBook
