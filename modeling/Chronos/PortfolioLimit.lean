import Chronos.PortfolioValue
import Chronos.Schedule

/-!
# The portfolio limit and the order just checked

The fourth check compares the cached total of what is already held; the
order under check is not part of it. An order that only reduces a position
keeps the total within the limit. Any other order can take it over the limit
by its own value.
-/

set_option autoImplicit false

namespace Chronos.PortfolioLimit
open NearestDivision PositionConservation RiskWrapAround PositionLimit PortfolioValue

theorem filledRaw_cons (order : OrderRequest) (f : Fill Decimal) (fs : List (Fill Decimal))
    (h : f.symbolId = order.symbolId) :
    filledRaw order.symbolId (f::fs) = f.fillQuantity.raw+filledRaw order.symbolId fs := by
  simp [filledRaw, h]

/-- The order is on the other side of the held quantity and not larger. -/
def Reduces (side : OrderSide) (held quantity : ℤ) : Prop :=
  match side with
  | .sell => quantity ≤ held
  | .buy => quantity ≤ -held

instance Reduces.decidable (held quantity : ℤ) : ∀ side, Decidable (Reduces side held quantity)
  | .sell => inferInstanceAs (Decidable (_ ≤ _))
  | .buy => inferInstanceAs (Decidable (_ ≤ _))

theorem reduces_step (f : Fill Decimal) (held rest : ℤ) (hf : 0 < f.fillQuantity.raw)
    (hrest : 0 ≤ rest) (h : Reduces f.side held (f.fillQuantity.raw+rest)) :
    held*exactSigned f < 0 ∧ f.fillQuantity.raw ≤ |held| ∧
      Reduces f.side (held+exactSigned f) rest := by
  unfold Reduces at h ⊢
  unfold exactSigned
  cases hs : f.side with
  | buy =>
    simp only [hs] at h ⊢
    exact ⟨mul_neg_of_neg_of_pos (by omega) hf,by rw [abs_of_neg (by omega)]; omega,by omega⟩
  | sell =>
    simp only [hs] at h ⊢
    exact ⟨mul_neg_of_pos_of_neg (by omega) (by omega),by rw [abs_of_pos (by omega)]; omega,by omega⟩

section Limit
variable [NearestDiv]

@[mk_iff] structure FillOfOrder (order : OrderRequest) (pm : PositionManager) (f : Fill Decimal) : Prop where
  symbol : f.symbolId = order.symbolId
  side : f.side = order.side
  price : f.fillPrice = order.price
  positive : 0 < f.fillQuantity
  range : FillInRange (positionAt pm f.symbolId) f
  sums : SumsFit (pm.updatePosition f).1.positions.entries 0

instance FillOfOrder.decidable (order : OrderRequest) (pm : PositionManager) (f : Fill Decimal) :
    Decidable (FillOfOrder order pm f) := decidable_of_iff' _ (fillOfOrder_iff order pm f)

def FilledInRange (order : OrderRequest) (fills : List (Fill Decimal)) (pm : PositionManager) : Prop :=
  Schedule.Allowed (fun pm f => (pm.updatePosition f).1) (FillOfOrder order) fills pm

instance FilledInRange.decidable (order : OrderRequest) (fills : List (Fill Decimal))
    (pm : PositionManager) : Decidable (FilledInRange order fills pm) :=
  Schedule.Allowed.decidable _ _ fills pm

theorem quantity_filled (pm : PositionManager) (f : Fill Decimal) (hf : 0 < f.fillQuantity.raw)
    (hr : FillInRange (positionAt pm f.symbolId) f) :
    ((pm.updatePosition f).1.quantityOf f.symbolId).raw =
      (pm.quantityOf f.symbolId).raw+exactSigned f := by
  obtain ⟨hlow,hhigh⟩ := moved_sum_fits _ f hf hr
  rw [positionAt_quantity] at hlow hhigh
  have h := run_quantity [f] pm f.symbolId
  simp only [PositionManager.run, filled, List.map_cons, List.map_nil, List.sum_cons, List.sum_nil,
    if_true, add_zero] at h
  rw [h, Decimal.add_raw, signed_raw f hf]
  rw [signed_raw f hf]
  exact ⟨le_of_lt hlow,hhigh⟩

/-- Every fill raises the total by at most its value and its rounding. -/
theorem fills_total (order : OrderRequest) (fills : List (Fill Decimal)) (pm : PositionManager)
    (hp : 0 < order.price.raw) (hc : Coherent pm)
    (ha : 0 ≤ (positionAt pm order.symbolId).averagePrice.raw)
    (hok : FilledInRange order fills pm) :
    Coherent (PositionManager.run fills pm) ∧ 0 ≤ filledRaw order.symbolId fills ∧
      2*(2^32*(PositionManager.run fills pm).totalValueRaw) ≤
        2*(2^32*pm.totalValueRaw)+2*(filledRaw order.symbolId fills*order.price.raw)+
          fills.length*(|(pm.quantityOf order.symbolId).raw|+
            filledRaw order.symbolId fills+2*2^32) := by
  induction fills generalizing pm with
  | nil => exact ⟨hc,le_refl _,by simp [PositionManager.run, filledRaw]⟩
  | cons f fs ih =>
    obtain ⟨hfo,hok⟩ := hok
    have hf : 0 < f.fillQuantity.raw := (Decimal.lt_iff _ _).mp hfo.positive
    have hsym := hfo.symbol
    rw [← hsym] at ha
    obtain ⟨hc',hm,ht⟩ := updatePosition_total pm f hc hf (by rw [hfo.price]; omega) ha hfo.range hfo.sums
    have hq := quantity_filled pm f hf hfo.range
    obtain ⟨hcr,h0,hi⟩ := ih _ hc' (by rw [← hsym]; exact hm.average) hok
    have hb := hm.bounded
    have hv := (quot_one_bounds (|f.fillQuantity.raw| * f.fillPrice.raw)).2
    rw [abs_of_pos hf] at hv
    rw [exposure, abs_of_pos hf, positionAt_quantity] at hb
    have hx := abs_add_le (pm.quantityOf f.symbolId).raw (exactSigned f)
    rw [exactSigned_abs f hf, ← hq] at hx
    rw [hfo.price] at hv hb
    rw [filledRaw_cons order f fs hsym, PositionManager.run]
    refine ⟨hcr,by omega,?_⟩
    rw [← hsym] at hi h0 ⊢
    have hn : (fs.length : ℤ)*(|((pm.updatePosition f).1.quantityOf f.symbolId).raw|+
        filledRaw f.symbolId fs+2*2^32) ≤ fs.length*(|(pm.quantityOf f.symbolId).raw|+
        (f.fillQuantity.raw+filledRaw f.symbolId fs)+2*2^32) :=
      mul_le_mul_of_nonneg_left (by linarith) (Int.natCast_nonneg _)
    simp only [List.length_cons]
    push_cast
    linarith

theorem fills_reduce (order : OrderRequest) (fills : List (Fill Decimal)) (pm : PositionManager)
    (hp : 0 < order.price.raw) (hc : Coherent pm)
    (ha : 0 ≤ (positionAt pm order.symbolId).averagePrice.raw)
    (hok : FilledInRange order fills pm)
    (hred : Reduces order.side (pm.quantityOf order.symbolId).raw (filledRaw order.symbolId fills)) :
    (PositionManager.run fills pm).totalValueRaw ≤ pm.totalValueRaw := by
  induction fills generalizing pm with
  | nil => exact le_refl _
  | cons f fs ih =>
    obtain ⟨hfo,hok⟩ := hok
    have hf : 0 < f.fillQuantity.raw := (Decimal.lt_iff _ _).mp hfo.positive
    have hsym := hfo.symbol
    rw [← hsym] at ha
    obtain ⟨hc',hm,ht⟩ := updatePosition_total pm f hc hf (by rw [hfo.price]; omega) ha hfo.range hfo.sums
    have hav' : 0 ≤ (positionAt (pm.updatePosition f).1 order.symbolId).averagePrice.raw := by
      rw [← hsym]
      exact hm.average
    have hrest := (fills_total order fs _ hp hc' hav' hok).2.1
    rw [filledRaw_cons order f fs hsym, ← hfo.side] at hred
    obtain ⟨hopp,hle,hleft⟩ := reduces_step f _ _ hf hrest hred
    rw [← hsym, ← positionAt_quantity] at hopp hle
    have hlow := hm.reduced hopp hle
    rw [← hsym, ← quantity_filled pm f hf hfo.range, hsym, hfo.side] at hleft
    exact (ih _ hc' hav' hok hleft).trans (by omega)

/-- The room an accepted order can take above the limit: nothing when
it reduces, its own value and the rounding of its fills otherwise. -/
theorem total_after_accepted_order (e : RiskEngine) (pm : PositionManager) (order : OrderRequest)
    (t : ClockReadings) (fills : List (Fill Decimal)) (hp : 0 < order.price) (hc : Coherent pm)
    (ha : 0 ≤ (positionAt pm order.symbolId).averagePrice)
    (hpass : (e.checkOrder pm order t).2.passed = true) (hok : FilledInRange order fills pm)
    (hall : filledRaw order.symbolId fills = order.quantity.raw) :
    (PositionManager.run fills pm).getTotalValueCached.toRat ≤
        e.hotParams.maxTotalPositionValue.toRat+order.price.toRat*order.quantity.toRat+
          fills.length*(|(pm.quantityOf order.symbolId).toRat|+order.quantity.toRat+2)/2^33 ∧
      (Reduces order.side (pm.quantityOf order.symbolId).raw order.quantity.raw →
        (PositionManager.run fills pm).getTotalValueCached ≤ e.hotParams.maxTotalPositionValue) := by
  have hp0 : 0 < order.price.raw := (Decimal.lt_iff _ _).mp hp
  have ha0 : 0 ≤ (positionAt pm order.symbolId).averagePrice.raw := (Decimal.le_iff _ _).mp ha
  have hm := (Decimal.le_iff _ _).mp ((RiskEngine.checkOrder_passed _ _ _ _).mp hpass).total
  rw [coherent_cached pm hc] at hm
  obtain ⟨hc',-,hb⟩ := fills_total order fills pm hp0 hc ha0 hok
  constructor
  · rw [hall] at hb
    have hbound : 2*(2^32*(PositionManager.run fills pm).totalValueRaw) ≤
        2*(2^32*e.hotParams.maxTotalPositionValue.raw)+2*(order.quantity.raw*order.price.raw)+
          fills.length*(|(pm.quantityOf order.symbolId).raw|+order.quantity.raw+2*2^32) := by
      linarith
    unfold Decimal.toRat
    rw [coherent_cached _ hc', abs_div, abs_of_pos (show (0:ℚ) < 2^32 by norm_num)]
    have hq : (2*(2^32*(PositionManager.run fills pm).totalValueRaw) : ℚ) ≤
        2*(2^32*e.hotParams.maxTotalPositionValue.raw)+2*(order.quantity.raw*order.price.raw)+
          fills.length*(|((pm.quantityOf order.symbolId).raw : ℚ)|+order.quantity.raw+2*2^32) := by
      exact_mod_cast hbound
    linarith
  · intro hred
    rw [Decimal.le_iff, coherent_cached _ hc']
    rw [← hall] at hred
    exact (fills_reduce order fills pm hp0 hc ha0 hok hred).trans hm

end Limit

def narrowEngine : RiskEngine where
  hotParams :=
    { maxOrderValue := .ofInt 1000
      maxPositionValue := .ofInt 1000
      maxTotalPositionValue := .ofInt 150
      minAvailableCapital := 0 }
  availableCapital := .ofInt 1000000

def buyTwo : OrderRequest where
  symbolId := 1
  price := .ofInt 100
  quantity := .ofInt 2

def buyTwoFill : Fill Decimal where
  symbolId := 1
  fillPrice := .ofInt 100
  fillQuantity := .ofInt 2

/-- A first order of value `200` passes: the total it is compared with is zero. -/
theorem buyTwo_breaks_portfolio_limit :
    (narrowEngine.checkOrder {} buyTwo ⟨0,0⟩).2.passed = true ∧
      PositionManager.getTotalValueCached {} ≤ narrowEngine.hotParams.maxTotalPositionValue ∧
      ¬(PositionManager.updatePosition {} buyTwoFill).1.getTotalValueCached ≤
        narrowEngine.hotParams.maxTotalPositionValue :=
  ⟨by decide,by decide,by decide⟩

def holdThree : PositionManager :=
  (PositionManager.updatePosition {} { symbolId := 1, fillPrice := .ofInt 40, fillQuantity := .ofInt 3 }).1

def sellTwo : OrderRequest where
  symbolId := 1
  side := .sell
  price := .ofInt 100
  quantity := .ofInt 2

def sellOneFill : Fill Decimal where
  symbolId := 1
  side := .sell
  fillPrice := .ofInt 100
  fillQuantity := .ofInt 1

/-- Two fills of an order that reduces a position. -/
theorem sellTwo_total :
    (PositionManager.run [sellOneFill,sellOneFill] holdThree).getTotalValueCached.toRat ≤
        narrowEngine.hotParams.maxTotalPositionValue.toRat+sellTwo.price.toRat*sellTwo.quantity.toRat+
          ([sellOneFill,sellOneFill].length : ℕ)*(|(holdThree.quantityOf 1).toRat|+sellTwo.quantity.toRat+2)/
            2^33 ∧
      (PositionManager.run [sellOneFill,sellOneFill] holdThree).getTotalValueCached ≤
        narrowEngine.hotParams.maxTotalPositionValue := by
  have htotal := total_after_accepted_order narrowEngine holdThree sellTwo ⟨0,0⟩ [sellOneFill,sellOneFill]
    (by decide) ⟨rfl,by decide +kernel⟩ (by decide +kernel) (by decide +kernel) (by decide +kernel)
    (by decide +kernel)
  exact ⟨htotal.1,htotal.2 (by decide +kernel)⟩

end Chronos.PortfolioLimit
