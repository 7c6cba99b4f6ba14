import Chronos.PositionManager

/-!
# Quantity conservation

Every exit of `updatePosition` adds the signed fill quantity to the position,
although each computes it its own way through absolute values and signs. The
identity already holds for the wrapped sum, so only the final exact sum has
to lie in the raw range.
-/

set_option autoImplicit false

namespace Chronos.PositionConservation
open KeyedTable

section Moves
variable {D : Type} [AddCommGroup D]

theorem signed_ne_zero (fill : Fill D) (h : fill.fillQuantity ≠ 0) : signedQuantity fill ≠ 0 := by
  unfold signedQuantity
  cases fill.side with
  | buy => exact h
  | sell => exact neg_ne_zero.mpr h

theorem signed_zero (fill : Fill D) (h : fill.fillQuantity = 0) : signedQuantity fill = 0 := by
  unfold signedQuantity
  cases fill.side with
  | buy => exact h
  | sell => exact neg_eq_zero.mpr h

def filled (fills : List (Fill D)) (s : ℕ) : D :=
  (fills.map (fun f => if f.symbolId = s then signedQuantity f else 0)).sum

theorem filled_perm (fills other : List (Fill D)) (s : ℕ) (h : fills.Perm other) :
    filled fills s = filled other s := (h.map _).sum_eq

def heldQuantity (t : Table ℕ (Position D)) (s : ℕ) : D := (t.find s).elim 0 Position.quantity

variable [LinearOrder D]

theorem magnitude_of_neg (v : D) (h : v < 0) : magnitude v = -v := if_pos h

theorem magnitude_of_nonneg (v : D) (h : 0 ≤ v) : magnitude v = v := if_neg (not_lt.mpr h)

theorem signOf_zero (v : D) : signOf v = 0 ↔ v = 0 := by
  unfold signOf
  split_ifs with hp hn
  · exact ⟨fun h => absurd h (by decide),fun h => absurd (h ▸ hp) (lt_irrefl _)⟩
  · exact ⟨fun h => absurd h (by decide),fun h => absurd (h ▸ hn) (lt_irrefl _)⟩
  · exact ⟨fun _ => le_antisymm (not_lt.mp hp) (not_lt.mp hn),fun _ => rfl⟩

theorem signOf_pos (v : D) (h : 0 < v) : signOf v = 1 := if_pos h

theorem signOf_neg (v : D) (h : v < 0) : signOf v = -1 := by
  rw [signOf, if_neg (not_lt.mpr (le_of_lt h)), if_pos h]

variable [Mul D]

theorem flip_quantity (pos : Position D) (fill : Fill D) (hq : pos.quantity ≠ 0)
    (hf : signedQuantity fill ≠ 0) (hs : signOf pos.quantity ≠ signOf (signedQuantity fill)) :
    (flipPosition pos fill).quantity = pos.quantity+signedQuantity fill := by
  simp only [flipPosition]
  rcases lt_or_gt_of_ne hf with hn | hp
  · have hpos : 0 < pos.quantity := by
      rcases lt_or_gt_of_ne hq with h | h
      · exact absurd ((signOf_neg _ h).trans (signOf_neg _ hn).symm) hs
      · exact h
    rw [signOf_neg _ hn, if_neg (by decide), magnitude_of_neg _ hn,
      magnitude_of_nonneg _ (le_of_lt hpos)]
    abel
  · have hneg : pos.quantity < 0 := by
      rcases lt_or_gt_of_ne hq with h | h
      · exact h
      · exact absurd ((signOf_pos _ h).trans (signOf_pos _ hp).symm) hs
    rw [signOf_pos _ hp, if_pos (by decide), magnitude_of_nonneg _ (le_of_lt hp),
      magnitude_of_neg _ hneg]
    abel

variable [Div D]

theorem movePosition_quantity (pos : Position D) (fill : Fill D) (h : fill.fillQuantity ≠ 0) :
    (movePosition pos fill).quantity = pos.quantity+signedQuantity fill := by
  unfold movePosition
  split_ifs with hz hs hr
  · have hq := (signOf_zero pos.quantity).mp hz
    simp [reopenPosition, hq]
  · rfl
  · rfl
  · exact flip_quantity pos fill (fun he => hz ((signOf_zero _).mpr he)) (signed_ne_zero fill h) hs

theorem updatePositions_held (t : Table ℕ (Position D)) (fill : Fill D) (s : ℕ) :
    heldQuantity (updatePositions t fill).1 s =
      heldQuantity t s+(if fill.symbolId = s then signedQuantity fill else 0) := by
  by_cases hz : fill.fillQuantity = 0
  · simp [updatePositions, hz, signed_zero fill hz]
  by_cases hs : fill.symbolId = s
  · subst hs
    cases hf : t.find fill.symbolId with
    | none => simp [updatePositions, hz, heldQuantity, hf, createPosition]
    | some pos =>
      simp [updatePositions, hz, heldQuantity, hf, movePosition_quantity pos fill hz]
  · simp [updatePositions, hz, heldQuantity, hs]

theorem fillPositions_held (fills : List (Fill D)) (t : Table ℕ (Position D)) (s : ℕ) :
    heldQuantity (fillPositions fills t) s = heldQuantity t s+filled fills s := by
  induction fills generalizing t with
  | nil => simp [fillPositions, filled]
  | cons f fs ih =>
    rw [fillPositions, ih, updatePositions_held]
    simp [filled, add_assoc]

end Moves

def exactSigned (f : Fill Decimal) : ℤ :=
  match f.side with
  | .sell => -f.fillQuantity.raw
  | .buy => f.fillQuantity.raw

def exactFilled (fills : List (Fill Decimal)) (s : ℕ) : ℤ :=
  (fills.map (fun f => if f.symbolId = s then exactSigned f else 0)).sum

theorem signed_wrap (f : Fill Decimal) : signedQuantity f = Decimal.wrap (exactSigned f) := by
  unfold signedQuantity exactSigned
  cases f.side with
  | buy => exact (Decimal.wrap_self _).symm
  | sell => rfl

theorem filled_wrap (fills : List (Fill Decimal)) (s : ℕ) :
    filled fills s = Decimal.wrap (exactFilled fills s) := by
  induction fills with
  | nil => rfl
  | cons f fs ih =>
    have hc : filled (f::fs) s = (if f.symbolId = s then signedQuantity f else 0)+filled fs s := by
      simp [filled]
    have he : exactFilled (f::fs) s = (if f.symbolId = s then exactSigned f else 0)+exactFilled fs s := by
      simp [exactFilled]
    rw [hc, he, ih]
    split_ifs
    · rw [signed_wrap, Decimal.add_def, Decimal.wrap_add_left, Decimal.wrap_add_right]
    · simp

theorem quantityOf_held (pm : PositionManager) (s : ℕ) :
    pm.quantityOf s = heldQuantity pm.positions s := by
  unfold PositionManager.quantityOf PositionManager.getPosition heldQuantity
  cases pm.positions.find s <;> rfl

section Manager
variable [NearestDivision.NearestDiv]

theorem updatePosition_positions (pm : PositionManager) (fill : Fill Decimal) :
    (pm.updatePosition fill).1.positions = (updatePositions pm.positions fill).1 := by
  unfold PositionManager.updatePosition
  split_ifs with h
  · simp [updatePositions, h]
  · rfl

theorem run_positions (fills : List (Fill Decimal)) (pm : PositionManager) :
    (PositionManager.run fills pm).positions = fillPositions fills pm.positions := by
  induction fills generalizing pm with
  | nil => rfl
  | cons f fs ih => rw [PositionManager.run, ih, updatePosition_positions, fillPositions]

theorem run_quantity (fills : List (Fill Decimal)) (pm : PositionManager) (s : ℕ) :
    (PositionManager.run fills pm).quantityOf s = pm.quantityOf s+filled fills s := by
  rw [quantityOf_held, run_positions, fillPositions_held, quantityOf_held]

theorem zero_fills_absent (fills : List (Fill Decimal)) (t : Table ℕ (Position Decimal)) (s : ℕ)
    (h : ∀ f ∈ fills, f.symbolId = s → f.fillQuantity = 0) :
    (fillPositions fills t).find s = t.find s := by
  induction fills generalizing t with
  | nil => rfl
  | cons f fs ih =>
    rw [fillPositions, ih _ (fun g hg => h g (by simp [hg]))]
    by_cases hz : f.fillQuantity = 0
    · simp [updatePositions, hz]
    · have hs : f.symbolId ≠ s := fun he => hz (h f (by simp) he)
      simp [updatePositions, hz, hs]

/-- Conservation from the empty manager. The range is asked of the final sum
only; on the way the running quantity may wrap. -/
theorem quantity_conserved (fills : List (Fill Decimal)) (s : ℕ) (h : Fits (exactFilled fills s)) :
    ((PositionManager.run fills {}).quantityOf s).raw = exactFilled fills s ∧
      ((∀ f ∈ fills, f.symbolId = s → f.fillQuantity = 0) →
        (PositionManager.run fills {}).getPosition s = none) ∧
      ∀ other, fills.Perm other →
        (PositionManager.run other {}).quantityOf s = (PositionManager.run fills {}).quantityOf s := by
  refine ⟨?_,?_,?_⟩
  · rw [run_quantity, filled_wrap]
    change (0+Decimal.wrap _).raw = _
    rw [zero_add, Decimal.wrap_raw_of_fits _ h]
  · intro hz
    rw [PositionManager.getPosition, run_positions, zero_fills_absent fills _ s hz]
    rfl
  · intro other hp
    rw [run_quantity, run_quantity, filled_perm fills other s hp]

end Manager

def flipRun : List (Fill Decimal) :=
  [{ symbolId := 1, fillQuantity := .ofInt 3, fillPrice := .ofInt 10 },
   { symbolId := 1, fillQuantity := .ofInt 5, fillPrice := .ofInt 12, side := .sell }]

theorem flipRun_conserved : Fits (exactFilled flipRun 1) ∧
    ((PositionManager.run flipRun {}).quantityOf 1).raw = -2*2^32 :=
  ⟨by decide,(quantity_conserved flipRun 1 (by decide)).1.trans (by decide)⟩

end Chronos.PositionConservation
