import Chronos.PositionLimit

/-!
# How a fill moves the cached total

The cache is a saturating sum over all symbols of absolute quantity times
average price. Where nothing overflows it is the exact sum, and one fill
replaces one term of it. A reduction never raises its term. Any other fill
raises it by at most the value of the fill, and a weighted average adds half
a raw unit for each unit of quantity it is kept over.
-/

set_option autoImplicit false

namespace Chronos.PortfolioValue
open NearestDivision KeyedTable PositionConservation RiskWrapAround PositionLimit

theorem saturatingAdd_exact (raw add : ℤ) (h : Fits (raw+add)) :
    PositionManager.saturatingAdd raw add = raw+add := by
  obtain ⟨hl,hu⟩ := h
  unfold PositionManager.saturatingAdd PositionManager.int64Max PositionManager.int64Min
  rw [if_neg (by omega), if_neg (by omega)]

theorem signOf_raw (v : Decimal) : signOf v = v.raw.sign := by
  rcases lt_trichotomy v.raw 0 with h | h | h
  · rw [signOf_neg v ((Decimal.lt_iff _ _).mpr h), Int.sign_eq_neg_one_of_neg h]
  · rw [(signOf_zero v).mpr (Decimal.ext h), h, Int.sign_zero]
  · rw [signOf_pos v ((Decimal.lt_iff _ _).mpr h), Int.sign_eq_one_of_pos h]

theorem exactSigned_abs (f : Fill Decimal) (h : 0 < f.fillQuantity.raw) :
    |exactSigned f| = f.fillQuantity.raw := by
  unfold exactSigned
  cases f.side with
  | buy => exact abs_of_pos h
  | sell => rw [abs_neg, abs_of_pos h]

theorem signed_raw (f : Fill Decimal) (h : 0 < f.fillQuantity.raw) :
    (signedQuantity f).raw = exactSigned f := by
  have hf := f.fillQuantity.fits.2
  have ha := abs_le.mp (le_of_eq (exactSigned_abs f h))
  rw [signed_wrap, Decimal.wrap_raw_of_fits _ ⟨by omega,by omega⟩]

theorem opposite_abs (a b : ℤ) (h : a*b < 0) (hle : |b| ≤ |a|) : |a+b| = |a|-|b| := by
  rcases mul_neg_iff.mp h with ⟨h1,h2⟩ | ⟨h1,h2⟩
  · rw [abs_of_pos h1, abs_of_neg h2] at hle ⊢
    rw [abs_of_nonneg (by omega)]
    ring
  · rw [abs_of_neg h1, abs_of_pos h2] at hle ⊢
    rw [abs_of_nonpos (by omega)]
    ring

def positionAt (pm : PositionManager) (s : ℕ) : Position Decimal := (pm.getPosition s).getD {}

theorem positionAt_quantity (pm : PositionManager) (s : ℕ) :
    (positionAt pm s).quantity = pm.quantityOf s := by
  unfold positionAt PositionManager.quantityOf
  cases pm.getPosition s <;> rfl

section Total
variable [NearestDiv]

def sumNotional (xs : List (ℕ × Position Decimal)) : ℤ :=
  (xs.map (fun x => (PositionManager.notional x.2).raw)).sum

def SumsFit : List (ℕ × Position Decimal) → ℤ → Prop
  | [], raw => Fits raw
  | x::xs, raw => Fits raw ∧ SumsFit xs (raw+(PositionManager.notional x.2).raw)

instance SumsFit.decidable : ∀ (xs : List (ℕ × Position Decimal)) (raw : ℤ), Decidable (SumsFit xs raw)
  | [], raw => inferInstanceAs (Decidable (Fits raw))
  | x::xs, raw => @instDecidableAnd _ _ (inferInstanceAs (Decidable (Fits raw)))
      (SumsFit.decidable xs (raw+(PositionManager.notional x.2).raw))

theorem sumsFit_start (xs : List (ℕ × Position Decimal)) (raw : ℤ) (h : SumsFit xs raw) :
    Fits raw := by
  cases xs with
  | nil => exact h
  | cons x xs => exact h.1

theorem notional_flat (pos : Position Decimal) (h : pos.quantity = 0) :
    (PositionManager.notional pos).raw = 0 := by
  have hq : NearestDiv.quot 0 Decimal.one = 0 := quot_zero _ (by decide)
  simp [PositionManager.notional, h, magnitude, Decimal.mul_def, hq]

theorem recalcRaw_exact (xs : List (ℕ × Position Decimal)) (raw : ℤ) (h : SumsFit xs raw) :
    PositionManager.recalcRaw xs raw = raw+sumNotional xs := by
  induction xs generalizing raw with
  | nil => simp [PositionManager.recalcRaw, sumNotional]
  | cons x xs ih =>
    have hs : sumNotional (x::xs) = (PositionManager.notional x.2).raw+sumNotional xs := by
      simp [sumNotional]
    have hstep : (if x.2.quantity = 0 then raw
        else PositionManager.saturatingAdd raw (PositionManager.notional x.2).raw) =
        raw+(PositionManager.notional x.2).raw := by
      split_ifs with hz
      · rw [notional_flat _ hz, add_zero]
      · exact saturatingAdd_exact _ _ (sumsFit_start _ _ h.2)
    rw [PositionManager.recalcRaw, hstep, ih _ h.2, hs, add_assoc]

structure Coherent (pm : PositionManager) : Prop where
  cached : pm.totalValueRaw = PositionManager.recalcRaw pm.positions.entries 0
  fit : SumsFit pm.positions.entries 0

theorem coherent_total (pm : PositionManager) (h : Coherent pm) :
    pm.totalValueRaw = sumNotional pm.positions.entries := by
  rw [h.cached, recalcRaw_exact _ _ h.fit, zero_add]

/-- The average an increase computes, before its truncation to 64 bits. -/
def averagedRaw (pos : Position Decimal) (f : Fill Decimal) : ℤ :=
  NearestDiv.quot ((exposure pos.quantity.raw pos.averagePrice.raw+
    exposure f.fillQuantity.raw f.fillPrice.raw)*Decimal.one)
    (|pos.quantity.raw|+f.fillQuantity.raw)

/-- No Decimal operation of the branch taken overflows. -/
@[mk_iff] structure FillInRange (pos : Position Decimal) (f : Fill Decimal) : Prop where
  minimum : -2^63 < pos.quantity.raw
  heldValue : exposure pos.quantity.raw pos.averagePrice.raw < 2^63
  reopened : pos.quantity.raw*exactSigned f ≤ 0 → |pos.quantity.raw| < f.fillQuantity.raw →
    exposure (pos.quantity.raw+exactSigned f) f.fillPrice.raw < 2^63
  quantity : 0 < pos.quantity.raw*exactSigned f → |pos.quantity.raw|+f.fillQuantity.raw < 2^63
  fillValue : 0 < pos.quantity.raw*exactSigned f → exposure f.fillQuantity.raw f.fillPrice.raw < 2^63
  summed : 0 < pos.quantity.raw*exactSigned f →
    exposure pos.quantity.raw pos.averagePrice.raw+exposure f.fillQuantity.raw f.fillPrice.raw < 2^63
  averaged : 0 < pos.quantity.raw*exactSigned f → averagedRaw pos f < 2^63
  newValue : 0 < pos.quantity.raw*exactSigned f →
    exposure (pos.quantity.raw+exactSigned f) (averagedRaw pos f) < 2^63

instance FillInRange.decidable (pos : Position Decimal) (f : Fill Decimal) : Decidable (FillInRange pos f) :=
  decidable_of_iff' _ (fillInRange_iff pos f)

theorem notional_raw (pos : Position Decimal) (hq : -2^63 < pos.quantity.raw)
    (ha : 0 ≤ pos.averagePrice.raw)
    (hv : exposure pos.quantity.raw pos.averagePrice.raw < 2^63) :
    (PositionManager.notional pos).raw = exposure pos.quantity.raw pos.averagePrice.raw :=
  value_raw _ _ hq ha hv

theorem moved_quantity_fits (pos : Position Decimal) (f : Fill Decimal) (hf : 0 < f.fillQuantity.raw)
    (hfits : Fits (pos.quantity.raw+exactSigned f)) :
    (movePosition pos f).quantity.raw = pos.quantity.raw+exactSigned f := by
  have hz : f.fillQuantity ≠ 0 := fun h => by simp [h] at hf
  have hs := signed_raw f hf
  rw [movePosition_quantity pos f hz, Decimal.add_raw, hs]
  rw [hs]
  exact hfits

omit [NearestDiv] in
theorem mixed_sum_fits (a b : ℤ) (hb : |b| < 2^63) (ha : -2^63 < a) (ha' : a < 2^63) (h : a*b ≤ 0) :
    -2^63 < a+b ∧ a+b < 2^63 := by
  have hb := abs_lt.mp hb
  rcases mul_nonpos_iff.mp h with ⟨h1,h2⟩ | ⟨h1,h2⟩ <;> constructor <;> omega

theorem moved_sum_fits (pos : Position Decimal) (f : Fill Decimal) (hf : 0 < f.fillQuantity.raw)
    (hr : FillInRange pos f) :
    -2^63 < pos.quantity.raw+exactSigned f ∧ pos.quantity.raw+exactSigned f < 2^63 := by
  have hab := exactSigned_abs f hf
  by_cases hsame : 0 < pos.quantity.raw*exactSigned f
  · have ha := abs_add_le pos.quantity.raw (exactSigned f)
    rw [hab] at ha
    exact abs_lt.mp (ha.trans_lt (hr.quantity hsame))
  · exact mixed_sum_fits _ _ (hab ▸ f.fillQuantity.fits.2) hr.minimum pos.quantity.fits.2 (not_lt.mp hsame)

theorem moved_quantity_raw (pos : Position Decimal) (f : Fill Decimal) (hf : 0 < f.fillQuantity.raw)
    (hr : FillInRange pos f) : (movePosition pos f).quantity.raw = pos.quantity.raw+exactSigned f := by
  obtain ⟨hlow,hhigh⟩ := moved_sum_fits pos f hf hr
  exact moved_quantity_fits pos f hf ⟨le_of_lt hlow,hhigh⟩

theorem averagedRaw_nonneg (pos : Position Decimal) (f : Fill Decimal)
    (hf : 0 < f.fillQuantity.raw) (hp : 0 ≤ f.fillPrice.raw) (ha : 0 ≤ pos.averagePrice.raw) :
    0 ≤ averagedRaw pos f := by
  have h0 := exposure_nonneg pos.quantity.raw pos.averagePrice.raw ha
  have h1 := exposure_nonneg f.fillQuantity.raw f.fillPrice.raw hp
  have hd := abs_nonneg pos.quantity.raw
  exact quot_nonneg _ _ (by omega) (mul_nonneg (by omega) (by decide))

theorem average_raw (pos : Position Decimal) (f : Fill Decimal) (hf : 0 < f.fillQuantity.raw)
    (hp : 0 ≤ f.fillPrice.raw) (ha : 0 ≤ pos.averagePrice.raw) (hr : FillInRange pos f)
    (hsame : 0 < pos.quantity.raw*exactSigned f) :
    (calcWeightedAverage pos.quantity pos.averagePrice f.fillQuantity f.fillPrice).raw =
      averagedRaw pos f := by
  have hq := hr.quantity hsame
  have hmin := hr.minimum
  have habs := magnitude_raw pos.quantity hmin
  have hnew : (magnitude pos.quantity+f.fillQuantity).raw = |pos.quantity.raw|+f.fillQuantity.raw := by
    rw [Decimal.add_raw, habs]
    have := abs_nonneg pos.quantity.raw
    rw [habs]
    exact ⟨by omega,hq⟩
  have hne : magnitude pos.quantity+f.fillQuantity ≠ 0 := by
    intro h
    have := abs_nonneg pos.quantity.raw
    rw [h, Decimal.zero_raw] at hnew
    omega
  have hold := value_raw pos.quantity pos.averagePrice hmin ha hr.heldValue
  have h0 := exposure_nonneg pos.quantity.raw pos.averagePrice.raw ha
  have h1 := exposure_nonneg f.fillQuantity.raw f.fillPrice.raw hp
  have hfill : (f.fillQuantity*f.fillPrice).raw = exposure f.fillQuantity.raw f.fillPrice.raw := by
    have hv := hr.fillValue hsame
    unfold exposure at hv h1 ⊢
    rw [abs_of_pos hf] at hv h1 ⊢
    exact Decimal.mul_raw _ _ ⟨by omega,hv⟩
  have hsum := hr.summed hsame
  have hnum : (magnitude pos.quantity*pos.averagePrice+f.fillQuantity*f.fillPrice).raw =
      exposure pos.quantity.raw pos.averagePrice.raw+exposure f.fillQuantity.raw f.fillPrice.raw := by
    rw [Decimal.add_raw, hold, hfill]
    rw [hold, hfill]
    exact ⟨by omega,hsum⟩
  have hav := averagedRaw_nonneg pos f hf hp ha
  have hub := hr.averaged hsame
  unfold averagedRaw at hav hub ⊢
  simp only [calcWeightedAverage, if_neg hne]
  rw [← hnum, ← hnew] at hav hub ⊢
  exact Decimal.div_raw _ _ ⟨by omega,hub⟩

/-- An average kept over a quantity gives back the two values it was formed
from, up to half a raw unit for each unit of quantity and one last rounding. -/
theorem averaged_value (pos : Position Decimal) (f : Fill Decimal) (hf : 0 < f.fillQuantity.raw)
    (hsame : 0 < pos.quantity.raw*exactSigned f) :
    2*(2^32*exposure (pos.quantity.raw+exactSigned f) (averagedRaw pos f)) ≤
      2*(2^32*(exposure pos.quantity.raw pos.averagePrice.raw+
        exposure f.fillQuantity.raw f.fillPrice.raw))+
        (|pos.quantity.raw|+f.fillQuantity.raw)+2^32 := by
  have hx : |pos.quantity.raw+exactSigned f| = |pos.quantity.raw|+f.fillQuantity.raw := by
    rw [← exactSigned_abs f hf]
    rcases mul_pos_iff.mp hsame with ⟨h1,h2⟩ | ⟨h1,h2⟩
    · exact abs_add_eq_add_abs_iff _ _ |>.mpr (Or.inl ⟨le_of_lt h1,le_of_lt h2⟩)
    · exact abs_add_eq_add_abs_iff _ _ |>.mpr (Or.inr ⟨le_of_lt h1,le_of_lt h2⟩)
  have hd := abs_nonneg pos.quantity.raw
  have hb := (quot_bounds ((exposure pos.quantity.raw pos.averagePrice.raw+
    exposure f.fillQuantity.raw f.fillPrice.raw)*Decimal.one)
    (|pos.quantity.raw|+f.fillQuantity.raw) (by omega)).2
  have hv := (quot_one_bounds ((|pos.quantity.raw|+f.fillQuantity.raw)*averagedRaw pos f)).2
  rw [exposure, hx]
  change 2*((|pos.quantity.raw|+f.fillQuantity.raw)*averagedRaw pos f) ≤ _ at hb
  rw [show Decimal.one = 2^32 from rfl] at hb
  linarith

omit [NearestDiv] in
theorem mul_pos_of_sign_eq (a b : ℤ) (hb : b ≠ 0) (h : a.sign = b.sign) : 0 < a*b := by
  rw [← Int.sign_eq_one_iff_pos, Int.sign_mul, h, ← Int.sign_mul, Int.sign_eq_one_iff_pos]
  exact mul_self_pos.mpr hb

omit [NearestDiv] in
theorem mul_neg_of_sign_ne (a b : ℤ) (ha : a ≠ 0) (hb : b ≠ 0) (h : a.sign ≠ b.sign) : a*b < 0 := by
  rcases lt_or_gt_of_ne ha with h1 | h1 <;> rcases lt_or_gt_of_ne hb with h2 | h2
  · exact absurd (by rw [Int.sign_eq_neg_one_of_neg h1, Int.sign_eq_neg_one_of_neg h2]) h
  · exact mul_neg_of_neg_of_pos h1 h2
  · exact mul_neg_of_pos_of_neg h1 h2
  · exact absurd (by rw [Int.sign_eq_one_of_pos h1, Int.sign_eq_one_of_pos h2]) h

theorem moved_average (pos : Position Decimal) (f : Fill Decimal) (hf : 0 < f.fillQuantity.raw)
    (hmin : -2^63 < pos.quantity.raw) :
    pos.quantity.raw = 0 ∧ (movePosition pos f).averagePrice = f.fillPrice ∨
    0 < pos.quantity.raw*exactSigned f ∧ (movePosition pos f).averagePrice =
      calcWeightedAverage pos.quantity pos.averagePrice f.fillQuantity f.fillPrice ∨
    pos.quantity.raw*exactSigned f < 0 ∧ f.fillQuantity.raw ≤ |pos.quantity.raw| ∧
      ((movePosition pos f).averagePrice = pos.averagePrice ∨
        (movePosition pos f).averagePrice = 0) ∨
    pos.quantity.raw*exactSigned f < 0 ∧ |pos.quantity.raw| < f.fillQuantity.raw ∧
      (movePosition pos f).averagePrice = f.fillPrice := by
  have hs := signed_raw f hf
  have hq := magnitude_raw pos.quantity hmin
  have hab := exactSigned_abs f hf
  have hsle := neg_abs_le (exactSigned f)
  have hfits := f.fillQuantity.fits.2
  have hm := magnitude_raw (signedQuantity f) (by rw [hs]; omega)
  rw [hs, hab] at hm
  have hsne : exactSigned f ≠ 0 := fun h => by rw [h, abs_zero] at hab; omega
  unfold movePosition
  rw [signOf_raw, signOf_raw, hs]
  split_ifs with hz he hred
  · exact Or.inl ⟨Int.sign_eq_zero_iff_zero.mp hz,rfl⟩
  · exact Or.inr (Or.inl ⟨mul_pos_of_sign_eq _ _ hsne he,rfl⟩)
  · have hopp := mul_neg_of_sign_ne _ _ (fun h => hz (Int.sign_eq_zero_iff_zero.mpr h)) hsne he
    rw [Decimal.le_iff, hm, hq] at hred
    refine Or.inr (Or.inr (Or.inl ⟨hopp,hred,?_⟩))
    simp only [reducePosition]
    split_ifs
    · exact Or.inr rfl
    · exact Or.inl rfl
  · have hopp := mul_neg_of_sign_ne _ _ (fun h => hz (Int.sign_eq_zero_iff_zero.mpr h)) hsne he
    rw [Decimal.le_iff, hm, hq, not_le] at hred
    exact Or.inr (Or.inr (Or.inr ⟨hopp,hred,rfl⟩))

structure ValueMoved (pos moved : Position Decimal) (f : Fill Decimal) : Prop where
  average : 0 ≤ moved.averagePrice.raw
  bounded : 2*(2^32*(PositionManager.notional moved).raw) ≤
    2*(2^32*((PositionManager.notional pos).raw+exposure f.fillQuantity.raw f.fillPrice.raw))+
      (|pos.quantity.raw|+f.fillQuantity.raw)+2^32
  reduced : pos.quantity.raw*exactSigned f < 0 → f.fillQuantity.raw ≤ |pos.quantity.raw| →
    (PositionManager.notional moved).raw ≤ (PositionManager.notional pos).raw

theorem movePosition_value (pos : Position Decimal) (f : Fill Decimal) (hf : 0 < f.fillQuantity.raw)
    (hp : 0 ≤ f.fillPrice.raw) (ha : 0 ≤ pos.averagePrice.raw) (hr : FillInRange pos f) :
    ValueMoved pos (movePosition pos f) f := by
  have hd := abs_nonneg pos.quantity.raw
  have hq := moved_quantity_raw pos f hf hr
  have hab := exactSigned_abs f hf
  have hmin : -2^63 < (movePosition pos f).quantity.raw := by
    rw [hq]
    exact (moved_sum_fits pos f hf hr).1
  have hold := notional_raw pos hr.minimum ha hr.heldValue
  have h0 := exposure_nonneg pos.quantity.raw pos.averagePrice.raw ha
  have hv0 := exposure_nonneg f.fillQuantity.raw f.fillPrice.raw hp
  -- a position priced at the fill is worth at most the fill
  have hfresh : pos.quantity.raw*exactSigned f ≤ 0 → |pos.quantity.raw| < f.fillQuantity.raw →
      |pos.quantity.raw+exactSigned f| ≤ f.fillQuantity.raw →
      (movePosition pos f).averagePrice = f.fillPrice →
      (PositionManager.notional (movePosition pos f)).raw ≤
        exposure f.fillQuantity.raw f.fillPrice.raw := by
    intro hmixed hsmall hx hav
    have hm := exposure_mono (pos.quantity.raw+exactSigned f) f.fillQuantity.raw f.fillPrice.raw hp
      (by rwa [abs_of_pos hf])
    have hfv := hr.reopened hmixed hsmall
    rw [notional_raw _ hmin (by rwa [hav]) (by rw [hq, hav]; exact hfv), hq, hav]
    exact hm
  rcases moved_average pos f hf hr.minimum with ⟨he,hav⟩ | ⟨hsame,hav⟩ | ⟨hopp,hred,hav⟩ | ⟨hopp,hflip,hav⟩
  · have hn := hfresh (by rw [he, zero_mul]) (by rwa [he, abs_zero]) (by rw [he, zero_add, hab]) hav
    exact ⟨by rwa [hav],by omega,fun h => absurd h (by rw [he]; simp)⟩
  · have havr := average_raw pos f hf hp ha hr hsame
    have hav0 := averagedRaw_nonneg pos f hf hp ha
    rw [← hav] at havr
    have hn : (PositionManager.notional (movePosition pos f)).raw =
        exposure (pos.quantity.raw+exactSigned f) (averagedRaw pos f) := by
      rw [notional_raw _ hmin (by rwa [havr]) (by rw [hq, havr]; exact hr.newValue hsame), hq, havr]
    have hb := averaged_value pos f hf hsame
    exact ⟨by rwa [havr],by rw [hn, hold]; exact hb,fun h => absurd h (by omega)⟩
  · have hx := opposite_abs _ _ hopp (by omega)
    have hm := exposure_mono (pos.quantity.raw+exactSigned f) pos.quantity.raw pos.averagePrice.raw
      ha (by omega)
    have hov := hr.heldValue
    have hav0 : 0 ≤ (movePosition pos f).averagePrice.raw := by
      rcases hav with hav | hav
      · rwa [hav]
      · simp [hav]
    have hn : (PositionManager.notional (movePosition pos f)).raw ≤
        (PositionManager.notional pos).raw := by
      rcases hav with hav | hav
      · rw [notional_raw _ hmin hav0 (by rw [hq, hav]; omega), hq, hav, hold]
        exact hm
      · have hz : exposure (movePosition pos f).quantity.raw (0 : Decimal).raw = 0 := by
          simp [exposure, quot_zero Decimal.one (by decide)]
        rw [notional_raw _ hmin hav0 (by rw [hav, hz]; decide), hav, hz, hold]
        exact h0
    exact ⟨hav0,by omega,fun _ _ => hn⟩
  · have hx := opposite_abs (exactSigned f) pos.quantity.raw (by rwa [mul_comm]) (by omega)
    have hn := hfresh (le_of_lt hopp) hflip (by rw [add_comm]; omega) hav
    exact ⟨by rwa [hav],by omega,fun _ h => absurd h (by omega)⟩

theorem sumsFit_total (xs : List (ℕ × Position Decimal)) (raw : ℤ) (h : SumsFit xs raw) :
    Fits (raw+sumNotional xs) := by
  induction xs generalizing raw with
  | nil => simpa [sumNotional, SumsFit] using h
  | cons x xs ih =>
    have hi := ih _ h.2
    simpa [sumNotional, add_assoc] using hi

theorem coherent_cached (pm : PositionManager) (h : Coherent pm) :
    pm.getTotalValueCached.raw = pm.totalValueRaw := by
  have hf := sumsFit_total _ _ h.fit
  rw [zero_add, ← coherent_total pm h] at hf
  exact Decimal.wrap_raw_of_fits _ hf

theorem createPosition_value (f : Fill Decimal) (hf : 0 < f.fillQuantity.raw)
    (hp : 0 ≤ f.fillPrice.raw) (hr : FillInRange {} f) : ValueMoved {} (createPosition f) f := by
  have h := movePosition_value {} f hf hp (le_refl _) hr
  have hopen : movePosition {} f = reopenPosition {} f := if_pos rfl
  rw [hopen] at h
  exact ⟨h.average,h.bounded,h.reduced⟩

/-- One fill replaces the value of one position in the total. -/
theorem updatePosition_total (pm : PositionManager) (f : Fill Decimal) (hc : Coherent pm)
    (hf : 0 < f.fillQuantity.raw) (hp : 0 ≤ f.fillPrice.raw)
    (ha : 0 ≤ (positionAt pm f.symbolId).averagePrice.raw)
    (hr : FillInRange (positionAt pm f.symbolId) f)
    (hs : SumsFit (pm.updatePosition f).1.positions.entries 0) :
    Coherent (pm.updatePosition f).1 ∧
      ValueMoved (positionAt pm f.symbolId) (positionAt (pm.updatePosition f).1 f.symbolId) f ∧
      (pm.updatePosition f).1.totalValueRaw = pm.totalValueRaw-
        (PositionManager.notional (positionAt pm f.symbolId)).raw+
        (PositionManager.notional (positionAt (pm.updatePosition f).1 f.symbolId)).raw := by
  have hz : f.fillQuantity ≠ 0 := fun h => by simp [h] at hf
  have hcoh : Coherent (pm.updatePosition f).1 := by
    constructor
    case fit => exact hs
    simp [PositionManager.updatePosition, hz, PositionManager.recalcTotalValue]
  have hpos := updatePosition_positions pm f
  have hsum := Table.sum_assign (fun p => (PositionManager.notional p).raw) pm.positions f.symbolId
  refine ⟨hcoh,?_,?_⟩
  · unfold positionAt PositionManager.getPosition at ha hr ⊢
    rw [hpos]
    cases hfind : pm.positions.find f.symbolId with
    | none =>
      simp only [hfind, Option.getD_none] at hr
      simpa [updatePositions, hz, hfind] using createPosition_value f hf hp hr
    | some pos =>
      simp only [hfind, Option.getD_some] at hr ha
      simpa [updatePositions, hz, hfind] using movePosition_value pos f hf hp ha hr
  · rw [coherent_total _ hcoh, coherent_total _ hc]
    unfold positionAt PositionManager.getPosition sumNotional
    rw [hpos]
    cases hfind : pm.positions.find f.symbolId with
    | none =>
      have h0 := notional_flat {} rfl
      simp [updatePositions, hz, hfind, hsum, Table.part, h0]
    | some pos => simp [updatePositions, hz, hfind, hsum, Table.part]

end Total

end Chronos.PortfolioValue
