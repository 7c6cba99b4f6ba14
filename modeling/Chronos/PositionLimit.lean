import Chronos.PositionConservation
import Chronos.RiskWrapAround

/-!
# The per-symbol limit through partial fills

The value of a quantity at a fixed price is a convex function of the
quantity, also after rounding. While an order fills, the quantity runs from
the one held at the check to the one the check projected, so a limit that
holds at both ends holds at every stop.
-/

set_option autoImplicit false

namespace Chronos.PositionLimit
open NearestDivision PositionConservation RiskWrapAround

section Exposure
variable [NearestDiv]

def exposure (quantity price : ℤ) : ℤ := NearestDiv.quot (|quantity| * price) Decimal.one

theorem exposure_mono (a b p : ℤ) (hp : 0 ≤ p) (h : |a| ≤ |b|) : exposure a p ≤ exposure b p :=
  quot_mono _ _ _ (by decide) (mul_le_mul_of_nonneg_right h hp)

theorem exposure_nonneg (a p : ℤ) (hp : 0 ≤ p) : 0 ≤ exposure a p :=
  quot_nonneg _ _ (by decide) (mul_nonneg (abs_nonneg a) hp)

theorem exposure_between (a m b p limit : ℤ) (hp : 0 ≤ p) (ham : a ≤ m) (hmb : m ≤ b)
    (ha : exposure a p ≤ limit) (hb : exposure b p ≤ limit) : exposure m p ≤ limit := by
  rcases le_max_iff.mp (abs_le_max_abs_abs ham hmb) with h | h
  · exact (exposure_mono m a p hp h).trans ha
  · exact (exposure_mono m b p hp h).trans hb

theorem value_raw (v price : Decimal) (hv : -2^63 < v.raw) (hp : 0 ≤ price.raw)
    (h : exposure v.raw price.raw < 2^63) :
    (magnitude v*price).raw = exposure v.raw price.raw := by
  have h0 := exposure_nonneg v.raw price.raw hp
  have hm := magnitude_raw v hv
  unfold exposure at h h0 ⊢
  rw [← hm] at h h0 ⊢
  exact Decimal.mul_raw _ _ ⟨by omega,h⟩

end Exposure

def filledRaw (s : ℕ) (fills : List (Fill Decimal)) : ℤ :=
  (fills.map (fun f => if f.symbolId = s then f.fillQuantity.raw else 0)).sum

/-- Fills of one order, in the order they arrive; fills of other symbols may
stand between them. -/
structure PartialFills (order : OrderRequest) (fills : List (Fill Decimal)) : Prop where
  side : ∀ f ∈ fills, f.symbolId = order.symbolId → f.side = order.side
  price : ∀ f ∈ fills, f.symbolId = order.symbolId → f.fillPrice = order.price
  positive : ∀ f ∈ fills, f.symbolId = order.symbolId → 0 < f.fillQuantity
  total : filledRaw order.symbolId fills ≤ order.quantity.raw

theorem filledRaw_nonneg (s : ℕ) (fills : List (Fill Decimal))
    (h : ∀ f ∈ fills, f.symbolId = s → 0 < f.fillQuantity) : 0 ≤ filledRaw s fills := by
  apply List.sum_nonneg
  intro x hx
  obtain ⟨f,hf,rfl⟩ := List.mem_map.mp hx
  split_ifs with hs
  · exact le_of_lt ((Decimal.lt_iff _ _).mp (h f hf hs))
  · exact le_refl _

theorem exactFilled_eq (order : OrderRequest) (fills : List (Fill Decimal))
    (h : ∀ f ∈ fills, f.symbolId = order.symbolId → f.side = order.side) :
    exactFilled fills order.symbolId =
      match order.side with
      | .sell => -filledRaw order.symbolId fills
      | .buy => filledRaw order.symbolId fills := by
  induction fills with
  | nil => cases order.side <;> rfl
  | cons f fs ih =>
    have hc : exactFilled (f::fs) order.symbolId =
        (if f.symbolId = order.symbolId then exactSigned f else 0)+exactFilled fs order.symbolId := by
      simp [exactFilled]
    have hr : filledRaw order.symbolId (f::fs) =
        (if f.symbolId = order.symbolId then f.fillQuantity.raw else 0)+filledRaw order.symbolId fs := by
      simp [filledRaw]
    rw [hc, hr, ih (fun g hg => h g (by simp [hg]))]
    by_cases hs : f.symbolId = order.symbolId
    · have hside := h f (by simp) hs
      rw [if_pos hs, if_pos hs, exactSigned, hside]
      cases order.side with
      | buy => rfl
      | sell => simp only [neg_add]
    · rw [if_neg hs, if_neg hs]
      cases order.side <;> simp

theorem filledRaw_before (s : ℕ) (before after : List (Fill Decimal))
    (h : ∀ f ∈ before++after, f.symbolId = s → 0 < f.fillQuantity) :
    filledRaw s before ≤ filledRaw s (before++after) := by
  have hr := filledRaw_nonneg s after (fun f hf => h f (by simp [hf]))
  have ha : filledRaw s (before++after) = filledRaw s before+filledRaw s after := by
    simp [filledRaw]
  omega

section Order
variable [NearestDiv]

/-- No overflow in the quantities and values the limit speaks about. -/
structure InRange (pm : PositionManager) (order : OrderRequest) : Prop where
  held : -2^63 < (pm.quantityOf order.symbolId).raw
  projected : |exactProjected pm order| < 2^63
  heldValue : exposure (pm.quantityOf order.symbolId).raw order.price.raw < 2^63
  projectedValue : exposure (exactProjected pm order) order.price.raw < 2^63

theorem projectedValue_raw (pm : PositionManager) (order : OrderRequest) (hp : 0 ≤ order.price.raw)
    (hz : |exactProjected pm order| < 2^63)
    (hv : exposure (exactProjected pm order) order.price.raw < 2^63) :
    (RiskEngine.projectedValue pm order).raw = exposure (exactProjected pm order) order.price.raw := by
  have hl := abs_lt.mp hz
  have hw := Decimal.wrap_raw_of_fits (exactProjected pm order) ⟨by omega,by omega⟩
  rw [RiskEngine.projectedValue, projected_wrap, value_raw _ _ (by omega) hp (by rwa [hw]), hw]

/-- Between the held and the projected quantity the running quantity does not
wrap, and both ends bound its value. -/
theorem limit_between (pm : PositionManager) (order : OrderRequest) (limit : Decimal) (v : Decimal)
    (m : ℤ) (hp : 0 ≤ order.price.raw) (hr : InRange pm order) (hv : v = Decimal.wrap m)
    (hm : (pm.quantityOf order.symbolId).raw ≤ m ∧ m ≤ exactProjected pm order ∨
      exactProjected pm order ≤ m ∧ m ≤ (pm.quantityOf order.symbolId).raw)
    (ha : exposure (pm.quantityOf order.symbolId).raw order.price.raw ≤ limit.raw)
    (hb : exposure (exactProjected pm order) order.price.raw ≤ limit.raw) :
    magnitude v*order.price ≤ limit := by
  have he := (pm.quantityOf order.symbolId).fits.2
  have hh := hr.held
  have hz := abs_lt.mp hr.projected
  have hw := Decimal.wrap_raw_of_fits m ⟨by omega,by omega⟩
  have hx : exposure m order.price.raw ≤ limit.raw := by
    rcases hm with ⟨h1,h2⟩ | ⟨h1,h2⟩
    · exact exposure_between _ m _ _ _ hp h1 h2 ha hb
    · exact exposure_between _ m _ _ _ hp h1 h2 hb ha
  have hl := limit.fits.2
  rw [Decimal.le_iff, hv, value_raw _ _ (by omega) hp (by rw [hw]; omega), hw]
  exact hx

/-- However an accepted order fills, the symbol stays within the limit after
every fill. -/
theorem partial_fills_within_limit (e : RiskEngine) (pm : PositionManager) (order : OrderRequest)
    (t : ClockReadings) (before after : List (Fill Decimal)) (hp : 0 < order.price)
    (hr : InRange pm order) (hpass : (e.checkOrder pm order t).2.passed = true)
    (hnow : magnitude (pm.quantityOf order.symbolId)*order.price ≤ e.hotParams.maxPositionValue)
    (hf : PartialFills order (before++after)) :
    magnitude ((PositionManager.run before pm).quantityOf order.symbolId)*order.price ≤
      e.hotParams.maxPositionValue := by
  have hp0 : 0 ≤ order.price.raw := le_of_lt ((Decimal.lt_iff _ _).mp hp)
  have ha := (Decimal.le_iff _ _).mp hnow
  rw [value_raw _ _ hr.held hp0 hr.heldValue] at ha
  have hb := (Decimal.le_iff _ _).mp ((RiskEngine.checkOrder_passed _ _ _ _).mp hpass).position
  rw [projectedValue_raw pm order hp0 hr.projected hr.projectedValue] at hb
  have hq : (PositionManager.run before pm).quantityOf order.symbolId =
      Decimal.wrap ((pm.quantityOf order.symbolId).raw+exactFilled before order.symbolId) := by
    rw [run_quantity, filled_wrap, Decimal.add_def, Decimal.wrap_add_right]
  have hside := exactFilled_eq order before (fun f hb => hf.side f (by simp [hb]))
  have h0 := filledRaw_nonneg order.symbolId before (fun f hb => hf.positive f (by simp [hb]))
  have h1 := (filledRaw_before order.symbolId before after hf.positive).trans hf.total
  refine limit_between pm order _ _ _ hp0 hr hq ?_ ha hb
  unfold exactProjected
  cases hs : order.side with
  | buy =>
    rw [hs] at hside
    simp only at hside ⊢
    omega
  | sell =>
    rw [hs] at hside
    simp only at hside ⊢
    omega

end Order

def flipOrder : OrderRequest where
  symbolId := 1
  price := .ofInt 100
  quantity := .ofInt 5
  side := .sell

def longThree : PositionManager :=
  PositionManager.run [{ symbolId := 1, fillQuantity := .ofInt 3, fillPrice := .ofInt 90 }] {}

def flipFill (n : ℤ) : Fill Decimal :=
  { symbolId := 1, fillQuantity := .ofInt n, fillPrice := .ofInt 100, side := .sell }

theorem flipOrder_in_range : InRange longThree flipOrder :=
  ⟨by decide,by decide,by decide,by decide⟩

theorem flipOrder_within_limit :
    magnitude ((PositionManager.run [flipFill 2] longThree).quantityOf 1)*Decimal.ofInt 100 ≤
      Decimal.ofInt 500000 :=
  partial_fills_within_limit RiskEngine.initial longThree flipOrder ⟨0,0⟩ [flipFill 2] [flipFill 3]
    (by decide) flipOrder_in_range (by decide) (by decide)
    ⟨by decide,by decide,by decide,by decide⟩

end Chronos.PositionLimit
