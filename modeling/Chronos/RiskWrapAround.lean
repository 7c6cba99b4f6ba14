import Chronos.Double
import Chronos.ParameterPublication

/-!
# What the wrapped comparisons of `checkOrder` promise

Three of the checks compare results of wrapping arithmetic with limits that
were truncated to raw units. The same limits, read as exact inequalities of
the parameters with one raw unit of slack, are missed when a product, a
projected quantity or the remaining capital leaves the 64-bit range, when a
parameter does not fit a `Decimal`, and at the limit itself when conversion
and rounding together drop more than the slack.
-/

set_option autoImplicit false

namespace Chronos.RiskWrapAround
open NearestDivision

section Wrap

theorem wrap_raw_shift (z k : ℤ) (h : Fits (z+k*2^64)) : (Decimal.wrap z).raw = z+k*2^64 := by
  have hs : Decimal.wrap (z+k*2^64) = Decimal.wrap z :=
    Decimal.ext (Int.add_mul_bmod_self_right z k (2^64))
  rw [← hs, Decimal.wrap_raw_of_fits _ h]

theorem magnitude_raw (v : Decimal) (h : -2^63 < v.raw) : (magnitude v).raw = |v.raw| := by
  have hv := v.fits.2
  unfold magnitude
  split_ifs with hn
  · have hr : v.raw < 0 := (Decimal.lt_iff v 0).mp hn
    rw [abs_of_neg hr, Decimal.neg_raw _ ⟨by omega,by omega⟩]
  · have hr : 0 ≤ v.raw := (Decimal.le_iff 0 v).mp (not_lt.mp hn)
    rw [abs_of_nonneg hr]

theorem magnitude_min (v : Decimal) (h : v.raw = -2^63) : (magnitude v).raw = -2^63 := by
  have hn : v < 0 := (Decimal.lt_iff v 0).mpr (by simp [h])
  rw [magnitude, if_pos hn, Decimal.neg_def, h]
  rfl

/-- The magnitude of a wrapped integer of at most `2^64`: the integer's own
magnitude, the minimum, or the distance to `2^64`. -/
theorem magnitude_wrap (z : ℤ) (h : |z| ≤ 2^64) :
    (magnitude (Decimal.wrap z)).raw =
      if |z| < 2^63 then |z| else if |z| = 2^63 then -2^63 else 2^64-|z| := by
  have hz := abs_le.mp h
  split_ifs with hs he
  · have hz := abs_lt.mp hs
    have hw := Decimal.wrap_raw_of_fits z ⟨by omega,by omega⟩
    rw [magnitude_raw _ (by omega), hw]
  · apply magnitude_min
    rcases abs_choice z with ha | ha
    · rw [wrap_raw_shift z (-1) ⟨by omega,by omega⟩]
      omega
    · rw [Decimal.wrap_raw_of_fits z ⟨by omega,by omega⟩]
      omega
  · rcases abs_choice z with ha | ha
    · have hw := wrap_raw_shift z (-1) ⟨by omega,by omega⟩
      rw [magnitude_raw _ (by omega), hw, abs_of_nonpos (by omega)]
      omega
    · have hw := wrap_raw_shift z 1 ⟨by omega,by omega⟩
      rw [magnitude_raw _ (by omega), hw, abs_of_nonneg (by omega)]
      omega

end Wrap

def exactProjected (pm : PositionManager) (order : OrderRequest) : ℤ :=
  match order.side with
  | .sell => (pm.quantityOf order.symbolId).raw-order.quantity.raw
  | .buy => (pm.quantityOf order.symbolId).raw+order.quantity.raw

theorem projected_wrap (pm : PositionManager) (order : OrderRequest) :
    pm.quantityOf order.symbolId+RiskEngine.signedOrderQuantity order =
      Decimal.wrap (exactProjected pm order) := by
  unfold RiskEngine.signedOrderQuantity exactProjected
  cases order.side with
  | buy => rfl
  | sell => rw [Decimal.neg_def, Decimal.add_def, Decimal.wrap_add_right, ← sub_eq_add_neg]

theorem exactProjected_bound (pm : PositionManager) (order : OrderRequest) :
    |exactProjected pm order| ≤ 2^64 := by
  have he := (pm.quantityOf order.symbolId).fits
  have hq := order.quantity.fits
  have := he.1
  have := he.2
  have := hq.1
  have := hq.2
  unfold exactProjected
  cases order.side <;> simp only <;> exact abs_le.mpr ⟨by omega,by omega⟩

def projectedQuantity (pm : PositionManager) (order : OrderRequest) : ℚ :=
  match order.side with
  | .sell => (pm.quantityOf order.symbolId).toRat-order.quantity.toRat
  | .buy => (pm.quantityOf order.symbolId).toRat+order.quantity.toRat

theorem projectedQuantity_eq (pm : PositionManager) (order : OrderRequest) :
    projectedQuantity pm order = exactProjected pm order/2^32 := by
  unfold projectedQuantity exactProjected Decimal.toRat
  cases order.side <;> push_cast <;> ring

/-- The limits of the header over exact values, up to one raw unit. -/
structure ExactLimits (params : RiskParameters Double) (capital : Decimal) (pm : PositionManager)
    (order : OrderRequest) : Prop where
  orderValue : |order.price.toRat*order.quantity.toRat| ≤ params.maxOrderValue.toRat+1/2^32
  position : |projectedQuantity pm order| * order.price.toRat ≤ params.maxPositionValue.toRat+1/2^32
  capital : params.minAvailableCapital.toRat-1/2^32 ≤
    capital.toRat-|order.price.toRat*order.quantity.toRat|

theorem orderValue_rat (order : OrderRequest) : |order.price.toRat*order.quantity.toRat| =
    (|order.price.raw*order.quantity.raw| : ℤ)/2^64 := by
  unfold Decimal.toRat
  rw [div_mul_div_comm, abs_div, ← pow_add, abs_of_pos (show (0:ℚ) < 2^(32+32) by norm_num)]
  push_cast
  rfl

theorem projectedValue_rat (pm : PositionManager) (order : OrderRequest) :
    |projectedQuantity pm order| * order.price.toRat =
      (|exactProjected pm order| * order.price.raw : ℤ)/2^64 := by
  rw [projectedQuantity_eq, Decimal.toRat, abs_div, abs_of_pos (show (0:ℚ) < 2^32 by norm_num),
    div_mul_div_comm, ← pow_add]
  push_cast
  rfl

theorem below_limit (n : ℤ) (limit : Double) :
    (n/2^64 : ℚ) ≤ limit.toRat+1/2^32 ↔ (n : ℚ) ≤ (limit.scaled+1)*2^32 := by
  have he : (limit.toRat+1/2^32)*2^64 = (limit.scaled+1)*2^32 := by
    rw [Double.scaled]
    ring
  rw [div_le_iff₀ (by norm_num), he]

theorem above_limit (n : ℤ) (capital : Decimal) (limit : Double) :
    limit.toRat-1/2^32 ≤ capital.toRat-(n/2^64 : ℚ) ↔ (n : ℚ) ≤ (capital.raw-limit.scaled+1)*2^32 := by
  have he : (capital.toRat-limit.toRat+1/2^32)*2^64 = (capital.raw-limit.scaled+1)*2^32 := by
    rw [Double.scaled, Decimal.toRat]
    ring
  rw [← he, ← div_le_iff₀ (by norm_num)]
  constructor <;> intro h <;> linarith

section AtLimit
open Double

/-- A value that was rounded and passed the truncated limit misses the exact
one at most at the limit itself. -/
theorem passed_below_iff (m : ℚ) (n r : ℤ) (hup : 2*n-2^32 ≤ 2*(2^32*r)) (hr : r ≤ truncated m) :
    (n : ℚ) ≤ (m+1)*2^32 ↔ (r = truncated m → ((n : ℚ)/2^32-r)+(truncated m-m) ≤ 1) := by
  rw [← div_le_iff₀ (by norm_num)]
  rcases eq_or_lt_of_le hr with rfl | hlt
  · constructor
    · intro h _
      linarith
    · intro h
      linarith [h rfl]
  · refine iff_of_true ?_ (fun he => absurd he (ne_of_lt hlt))
    have hnear := (truncated_near m).2
    have hle : (r : ℚ) ≤ truncated m-1 := by exact_mod_cast (show r ≤ truncated m-1 by omega)
    have hn : 2*(n : ℚ)-2^32 ≤ 2*(2^32*r) := by exact_mod_cast hup
    rw [div_le_iff₀ (by norm_num)]
    linarith

theorem passed_above_iff (m : ℚ) (c n r : ℤ) (hup : 2*n-2^32 ≤ 2*(2^32*r)) (hr : truncated m ≤ c-r) :
    (n : ℚ) ≤ (c-m+1)*2^32 ↔ (c-r = truncated m → ((n : ℚ)/2^32-r)+(m-truncated m) ≤ 1) := by
  rw [← div_le_iff₀ (by norm_num)]
  rcases eq_or_lt_of_le hr with heq | hlt
  · have hc : (c : ℚ) = truncated m+r := by exact_mod_cast (show c = truncated m+r by omega)
    constructor
    · intro h _
      linarith
    · intro h
      linarith [h heq.symm]
  · refine iff_of_true ?_ (fun he => absurd he.symm (ne_of_lt hlt))
    have hnear := (truncated_near m).1
    have hle : (truncated m : ℚ)+1 ≤ c-r := by exact_mod_cast (show truncated m+1 ≤ c-r by omega)
    have hn : 2*(n : ℚ)-2^32 ≤ 2*(2^32*r) := by exact_mod_cast hup
    rw [div_le_iff₀ (by norm_num)]
    linarith

end AtLimit

section Products
variable [NearestDiv]

theorem quot_one_bounds (n : ℤ) :
    2*n-2^32 ≤ 2*(2^32*NearestDiv.quot n Decimal.one) ∧
      2*(2^32*NearestDiv.quot n Decimal.one) ≤ 2*n+2^32 :=
  quot_bounds n Decimal.one (by decide)

theorem quot_abs_bounds (n : ℤ) :
    2*|n|-2^32 ≤ 2*(2^32 * |NearestDiv.quot n Decimal.one|) ∧
      2*(2^32 * |NearestDiv.quot n Decimal.one|) ≤ 2*|n|+2^32 := by
  have h := quot_one_bounds n
  rcases abs_choice n with hn | hn <;>
    rcases abs_choice (NearestDiv.quot n Decimal.one) with hq | hq <;>
    rw [hn, hq] <;> have := abs_nonneg n <;> have := abs_nonneg (NearestDiv.quot n Decimal.one) <;>
    omega

def roundedValue (order : OrderRequest) : ℤ :=
  |NearestDiv.quot (order.price.raw*order.quantity.raw) Decimal.one|

def roundedProjection (pm : PositionManager) (order : OrderRequest) : ℤ :=
  NearestDiv.quot (|exactProjected pm order| * order.price.raw) Decimal.one

theorem orderValueAbs_raw (order : OrderRequest) (h : roundedValue order < 2^63) :
    (RiskEngine.orderValueAbs order).raw = roundedValue order := by
  rw [RiskEngine.orderValueAbs, Decimal.mul_def, magnitude_wrap _ (by rw [roundedValue] at h; omega)]
  exact if_pos h

theorem projectedValue_eq (pm : PositionManager) (order : OrderRequest)
    (h : |exactProjected pm order| < 2^63) :
    RiskEngine.projectedValue pm order = Decimal.wrap (roundedProjection pm order) := by
  have hm := magnitude_wrap _ (exactProjected_bound pm order)
  rw [if_pos h] at hm
  rw [RiskEngine.projectedValue, projected_wrap, Decimal.mul_def, hm, roundedProjection]

open Double

/-- What an accepted order must meet to keep the exact limits. With a regular
limit and no wrapping before it a comparison decides, up to what conversion
and rounding drop at the limit; otherwise it says nothing. -/
structure Sound (params : RiskParameters Double) (capital : Decimal) (pm : PositionManager)
    (order : OrderRequest) : Prop where
  orderValue :
    let n := |order.price.raw*order.quantity.raw|
    let m := params.maxOrderValue.scaled
    if params.maxOrderValue.Regular then
      roundedValue order < 2^63 ∧ (roundedValue order = truncated m →
        ((n : ℚ)/2^32-roundedValue order)+(truncated m-m) ≤ 1)
    else (n : ℚ) ≤ (m+1)*2^32
  position :
    let n := |exactProjected pm order| * order.price.raw
    let m := params.maxPositionValue.scaled
    if params.maxPositionValue.Regular ∧ |exactProjected pm order| < 2^63 then
      (order.price.raw ≤ 0 ∨ roundedProjection pm order < 2^63) ∧ (roundedProjection pm order = truncated m →
        ((n : ℚ)/2^32-roundedProjection pm order)+(truncated m-m) ≤ 1)
    else (n : ℚ) ≤ (m+1)*2^32
  capital :
    let n := |order.price.raw*order.quantity.raw|
    let m := params.minAvailableCapital.scaled
    if params.minAvailableCapital.Regular ∧ roundedValue order < 2^63 then
      -2^63 ≤ capital.raw-roundedValue order ∧ (capital.raw-roundedValue order = truncated m →
        ((n : ℚ)/2^32-roundedValue order)+(m-truncated m) ≤ 1)
    else (n : ℚ) ≤ (capital.raw-m+1)*2^32

variable (outOfRange : Double → Decimal)

theorem orderValue_sound (limit : Double) (order : OrderRequest)
    (h : RiskEngine.orderValueAbs order ≤ toDecimal outOfRange limit) (hreg : limit.Regular) :
    ((|order.price.raw*order.quantity.raw| : ℤ) : ℚ) ≤ (limit.scaled+1)*2^32 ↔
      roundedValue order < 2^63 ∧ (roundedValue order = truncated limit.scaled →
        (((|order.price.raw*order.quantity.raw| : ℤ) : ℚ)/2^32-roundedValue order)+
          (truncated limit.scaled-limit.scaled) ≤ 1) := by
  have hb := quot_abs_bounds (order.price.raw*order.quantity.raw)
  rw [← roundedValue] at hb
  by_cases hv : roundedValue order < 2^63
  · have hle : roundedValue order ≤ truncated limit.scaled := by
      rw [← orderValueAbs_raw order hv, ← toDecimal_raw outOfRange limit hreg]
      exact (Decimal.le_iff _ _).mp h
    rw [passed_below_iff _ _ _ hb.1 hle]
    exact ⟨fun hd => ⟨hv,hd⟩,And.right⟩
  · refine iff_of_false (fun hle => ?_) (fun hs => hv hs.1)
    have hgap := (abs_le.mp (scaled_gap limit hreg)).2
    have hn : (2:ℚ)^95-2^31 ≤ ((|order.price.raw*order.quantity.raw| : ℤ) : ℚ) := by
      exact_mod_cast (show (2:ℤ)^95-2^31 ≤ |order.price.raw*order.quantity.raw| by omega)
    linarith

theorem position_sound (limit : Double) (pm : PositionManager) (order : OrderRequest)
    (h : RiskEngine.projectedValue pm order ≤ toDecimal outOfRange limit) (hreg : limit.Regular)
    (hx : |exactProjected pm order| < 2^63) :
    ((|exactProjected pm order| * order.price.raw : ℤ) : ℚ) ≤ (limit.scaled+1)*2^32 ↔
      (order.price.raw ≤ 0 ∨ roundedProjection pm order < 2^63) ∧
        (roundedProjection pm order = truncated limit.scaled →
          (((|exactProjected pm order| * order.price.raw : ℤ) : ℚ)/2^32-roundedProjection pm order)+
            (truncated limit.scaled-limit.scaled) ≤ 1) := by
  have hb := quot_one_bounds (|exactProjected pm order| * order.price.raw)
  rw [← roundedProjection] at hb
  have hgap := abs_le.mp (scaled_gap limit hreg)
  have hle := (Decimal.le_iff _ _).mp h
  rw [projectedValue_eq pm order hx, toDecimal_raw outOfRange limit hreg] at hle
  have hlow := (truncated_fits limit hreg).1
  have h0 := abs_nonneg (exactProjected pm order)
  by_cases hf : Fits (roundedProjection pm order)
  · rw [Decimal.wrap_raw_of_fits _ hf] at hle
    rw [passed_below_iff _ _ _ hb.1 hle]
    exact ⟨fun hd => ⟨Or.inr hf.2,hd⟩,And.right⟩
  rcases lt_or_ge (roundedProjection pm order) (2^63) with hr | hr
  · -- the value wraps below the range, and is negative
    have hsmall : roundedProjection pm order < -2^63 := by
      by_contra hc
      exact hf ⟨not_lt.mp hc,hr⟩
    refine iff_of_true ?_ ⟨Or.inr hr,fun he => by omega⟩
    have hn : ((|exactProjected pm order| * order.price.raw : ℤ) : ℚ) ≤ -2^95 := by
      exact_mod_cast (show |exactProjected pm order| * order.price.raw ≤ -2^95 by omega)
    linarith
  · refine iff_of_false (fun hn => ?_) (fun hs => ?_)
    · have hn' : (2:ℚ)^95-2^31 ≤ ((|exactProjected pm order| * order.price.raw : ℤ) : ℚ) := by
        exact_mod_cast (show (2:ℤ)^95-2^31 ≤ |exactProjected pm order| * order.price.raw by omega)
      linarith
    · rcases hs.1 with hp | hlt
      · have hn := mul_nonpos_of_nonneg_of_nonpos h0 hp
        omega
      · omega

theorem capital_sound (limit : Double) (capital : Decimal) (order : OrderRequest)
    (h : toDecimal outOfRange limit ≤ capital-RiskEngine.orderValueAbs order) (hreg : limit.Regular)
    (hv : roundedValue order < 2^63) :
    ((|order.price.raw*order.quantity.raw| : ℤ) : ℚ) ≤ (capital.raw-limit.scaled+1)*2^32 ↔
      -2^63 ≤ capital.raw-roundedValue order ∧ (capital.raw-roundedValue order = truncated limit.scaled →
        (((|order.price.raw*order.quantity.raw| : ℤ) : ℚ)/2^32-roundedValue order)+
          (limit.scaled-truncated limit.scaled) ≤ 1) := by
  have hb := quot_abs_bounds (order.price.raw*order.quantity.raw)
  rw [← roundedValue] at hb
  have hraw := orderValueAbs_raw order hv
  have h0 : 0 ≤ roundedValue order := abs_nonneg _
  have hc2 := capital.fits.2
  have hle := (Decimal.le_iff _ _).mp h
  by_cases hrem : -2^63 ≤ capital.raw-roundedValue order
  · rw [Decimal.sub_raw _ _ ⟨by omega,by omega⟩, hraw, toDecimal_raw outOfRange limit hreg] at hle
    rw [passed_above_iff _ _ _ _ hb.1 hle]
    exact ⟨fun hd => ⟨hrem,hd⟩,And.right⟩
  · refine iff_of_false (fun hn => ?_) (fun hs => hrem hs.1)
    have hgap := (abs_le.mp (scaled_gap limit hreg)).1
    have hlow : (2:ℚ)*2^32*roundedValue order-2^32 ≤ 2*((|order.price.raw*order.quantity.raw| : ℤ) : ℚ) := by
      exact_mod_cast (show 2*2^32*roundedValue order-2^32 ≤ 2*|order.price.raw*order.quantity.raw| by omega)
    have hcap : (capital.raw : ℚ)+2^63+1 ≤ roundedValue order := by
      exact_mod_cast (show capital.raw+2^63+1 ≤ roundedValue order by omega)
    linarith

open RiskParameterUpdate

def configured (e : RiskEngine) (defaults : RiskParameters Double)
    (updates : List (RiskParameters Double × ℕ)) : RiskEngine :=
  { e with hotParams := (publishAll (toDecimal outOfRange) defaults updates).hotParams }

omit [NearestDiv] in
theorem configured_limits (e : RiskEngine) (defaults : RiskParameters Double)
    (updates : List (RiskParameters Double × ℕ)) :
    let hp := (configured outOfRange e defaults updates).hotParams
    let params := lastParameters defaults updates
    hp.maxOrderValue = toDecimal outOfRange params.maxOrderValue ∧
      hp.maxPositionValue = toDecimal outOfRange params.maxPositionValue ∧
        hp.minAvailableCapital = toDecimal outOfRange params.minAvailableCapital := by
  have hlimits := (publishAll_holds (toDecimal outOfRange) defaults updates).limits
  dsimp only [configured]
  rw [hlimits]
  exact ⟨rfl,rfl,rfl⟩

/-- For every parameter set, whatever a conversion out of range gives: an
accepted order keeps the exact limits in exactly these cases. -/
theorem accepted_within_exact_limits_iff (e : RiskEngine) (defaults : RiskParameters Double)
    (updates : List (RiskParameters Double × ℕ)) (pm : PositionManager) (order : OrderRequest)
    (t : ClockReadings)
    (h : ((configured outOfRange e defaults updates).checkOrder pm order t).2.passed = true) :
    ExactLimits (lastParameters defaults updates) e.availableCapital pm order ↔
      Sound (lastParameters defaults updates) e.availableCapital pm order := by
  obtain ⟨hl1,hl2,hl3⟩ := configured_limits outOfRange e defaults updates
  obtain ⟨ho,-,hp,-,hc⟩ := (RiskEngine.checkOrder_passed _ _ _ _).mp h
  rw [hl1] at ho
  rw [hl2] at hp
  rw [hl3] at hc
  generalize lastParameters defaults updates = params at *
  have h1 := below_limit |order.price.raw*order.quantity.raw| params.maxOrderValue
  have h2 := below_limit (|exactProjected pm order| * order.price.raw) params.maxPositionValue
  have h3 := above_limit |order.price.raw*order.quantity.raw| e.availableCapital params.minAvailableCapital
  rw [← orderValue_rat] at h1 h3
  rw [← projectedValue_rat] at h2
  constructor
  · rintro ⟨hvalue,hposition,hcapital⟩
    refine ⟨?_,?_,?_⟩
    · dsimp only
      split_ifs with hreg
      · exact (orderValue_sound outOfRange _ order ho hreg).mp (h1.mp hvalue)
      · exact h1.mp hvalue
    · dsimp only
      split_ifs with hreg
      · exact (position_sound outOfRange _ pm order hp hreg.1 hreg.2).mp (h2.mp hposition)
      · exact h2.mp hposition
    · dsimp only
      split_ifs with hreg
      · exact (capital_sound outOfRange _ _ order hc hreg.1 hreg.2).mp (h3.mp hcapital)
      · exact h3.mp hcapital
  · rintro ⟨hvalue,hposition,hcapital⟩
    refine ⟨h1.mpr ?_,h2.mpr ?_,h3.mpr ?_⟩
    · dsimp only at hvalue
      split_ifs at hvalue with hreg
      · exact (orderValue_sound outOfRange _ order ho hreg).mpr hvalue
      · exact hvalue
    · dsimp only at hposition
      split_ifs at hposition with hreg
      · exact (position_sound outOfRange _ pm order hp hreg.1 hreg.2).mpr hposition
      · exact hposition
    · dsimp only at hcapital
      split_ifs at hcapital with hreg
      · exact (capital_sound outOfRange _ _ order hc hreg.1 hreg.2).mpr hcapital
      · exact hcapital

end Products

section Examples
open RiskParameterUpdate Double

def defaultParameters : RiskParameters Double where
  maxOrderValue := ofInt 100000 (by decide)
  maxPositionValue := ofInt 500000 (by decide)
  maxOrdersPerSecond := 100
  maxTotalPositionValue := ofInt 1000000 (by decide)
  minAvailableCapital := ofInt 10000 (by decide)
  maxDrawdownPercent := ofInt 20 (by decide)

theorem initial_configured (outOfRange : Double → Decimal) :
    configured outOfRange RiskEngine.initial defaultParameters [] = RiskEngine.initial := by
  have hlimit (n : ℤ) (h : |n| < 2^53) (hf : Fits (n*2^32)) := toDecimal_ofInt outOfRange n h hf
  simp [configured, publishAll, Schedule.run, initialStore, buildHot, defaultParameters, RiskEngine.initial,
    RiskEngine.defaultParams, hlimit _ _ (show Fits (100000*2^32) by decide),
    hlimit _ _ (show Fits (500000*2^32) by decide), hlimit _ _ (show Fits (1000000*2^32) by decide),
    hlimit _ _ (show Fits (10000*2^32) by decide)]

def hugeOrder : OrderRequest where
  symbolId := 1
  price := .ofInt 65536
  quantity := .ofInt 65536

/-- Accepted by a newly constructed engine although its value, `2^32`, is far
above the order limit of `100000`. -/
theorem hugeOrder_accepted :
    (RiskEngine.initial.checkOrder {} hugeOrder ⟨0,0⟩).2.passed = true ∧
      configured (fun _ => 0) RiskEngine.initial defaultParameters [] = RiskEngine.initial ∧
        ¬ExactLimits defaultParameters RiskEngine.initial.availableCapital {} hugeOrder := by
  refine ⟨by decide,initial_configured _,fun h => ?_⟩
  have hvalue := h.orderValue
  rw [orderValue_rat] at hvalue
  have hn : |hugeOrder.price.raw*hugeOrder.quantity.raw| = 2^96 := by decide
  rw [hn] at hvalue
  norm_num [defaultParameters, ofInt, toRat] at hvalue

def finerMinimum : RiskParameters Double :=
  { defaultParameters with minAvailableCapital := ⟨10000*2^39+115,-39,by decide,by decide⟩ }

def smallestOrder : OrderRequest where
  symbolId := 1
  price := ⟨2^30,by decide⟩
  quantity := ⟨1,by decide⟩

theorem finerMinimum_scaled : finerMinimum.minAvailableCapital.scaled = 10000*2^32+115/2^7 := by
  norm_num [finerMinimum, scaled, toRat]

theorem finerMinimum_truncated : truncated finerMinimum.minAvailableCapital.scaled = 10000*2^32 := by
  rw [finerMinimum_scaled, truncated, if_pos (by norm_num), Int.floor_eq_iff]
  norm_num

/-- Rounding drops a quarter of a raw unit and truncation `115/128` of one. -/
theorem smallestOrder_unsound (pm : PositionManager) : ¬Sound finerMinimum (.ofInt 10000) pm smallestOrder := by
  intro hs
  have hc := hs.capital
  have hr : roundedValue smallestOrder = 0 := by decide
  have hreg : finerMinimum.minAvailableCapital.Regular := by
    rw [Regular, finerMinimum_scaled, abs_lt]
    norm_num
  have hn : |smallestOrder.price.raw*smallestOrder.quantity.raw| = 2^30 := by decide
  have hcapital : (Decimal.ofInt 10000).raw = 10000*2^32 := by decide
  dsimp only at hc
  rw [if_pos ⟨hreg,by rw [hr]; decide⟩, finerMinimum_truncated, finerMinimum_scaled, hr, hn, hcapital] at hc
  have hdrop := hc.2 (by norm_num)
  norm_num at hdrop

theorem smallestOrder_missed :
    let e := { RiskEngine.initial with availableCapital := .ofInt 10000 }
    ((configured (fun _ => 0) e defaultParameters [(finerMinimum,0)]).checkOrder {} smallestOrder ⟨0,0⟩).2.passed
        = true ∧ ¬ExactLimits finerMinimum (.ofInt 10000) {} smallestOrder := by
  intro e
  have haccepted : ((configured (fun _ => 0) e defaultParameters [(finerMinimum,0)]).checkOrder {} smallestOrder
      ⟨0,0⟩).2.passed = true := by
    decide +kernel
  exact ⟨haccepted,(accepted_within_exact_limits_iff (fun _ => 0) e defaultParameters [(finerMinimum,0)] {}
    smallestOrder ⟨0,0⟩ haccepted).not.mpr (smallestOrder_unsound {})⟩

end Examples
end Chronos.RiskWrapAround
