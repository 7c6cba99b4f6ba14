import Chronos.PortfolioValue
import Chronos.Schedule

/-!
# Drift of the average price

Each increase multiplies the rounded average by the quantity held, adds the
value of the fill and divides again. In raw units the three roundings move
quantity times average by one unit of the scale and by half the new quantity.
So the distance from the exact cost stays below the quantity held times the
number of fills, as long as no fill is smaller than one.
-/

set_option autoImplicit false

namespace Chronos.PriceDrift
open NearestDivision KeyedTable PositionConservation PositionLimit PortfolioValue

structure Entry (s : ℕ) (side : OrderSide) (f : Fill Decimal) : Prop where
  symbol : f.symbolId = s
  side : f.side = side
  quantity : Decimal.ofInt 1 ≤ f.fillQuantity
  price : 0 ≤ f.fillPrice

def quantitySum (fills : List (Fill Decimal)) : ℤ := (fills.map (fun f => f.fillQuantity.raw)).sum

def costSum (fills : List (Fill Decimal)) : ℤ :=
  (fills.map (fun f => f.fillQuantity.raw*f.fillPrice.raw)).sum

def exactAverage (fills : List (Fill Decimal)) : ℚ :=
  (fills.map (fun f => f.fillQuantity.toRat*f.fillPrice.toRat)).sum/
    (fills.map (fun f => f.fillQuantity.toRat)).sum

def sideSign : OrderSide → ℤ
  | .buy => 1
  | .sell => -1

section Run
variable [NearestDiv]

def NoOverflow (pm : PositionManager) (f : Fill Decimal) : Prop := FillInRange (positionAt pm f.symbolId) f

instance NoOverflow.decidable (pm : PositionManager) (f : Fill Decimal) : Decidable (NoOverflow pm f) :=
  inferInstanceAs (Decidable (FillInRange _ _))

structure Drift (side : OrderSide) (fills : List (Fill Decimal)) (pos : Position Decimal) : Prop where
  held : Decimal.one ≤ quantitySum fills
  quantity : pos.quantity.raw = sideSign side*quantitySum fills
  price : 0 ≤ pos.averagePrice.raw
  drift : |quantitySum fills*pos.averagePrice.raw-costSum fills| ≤ fills.length*quantitySum fills

omit [NearestDiv] in
theorem exactSigned_side (f : Fill Decimal) : exactSigned f = sideSign f.side*f.fillQuantity.raw := by
  rw [exactSigned]
  cases f.side <;> simp [sideSign]

omit [NearestDiv] in
theorem Entry.signed {s : ℕ} {side : OrderSide} {f : Fill Decimal} (h : Entry s side f) :
    exactSigned f = sideSign side*f.fillQuantity.raw := by rw [exactSigned_side, h.side]

omit [NearestDiv] in
theorem Entry.atLeastOne {s : ℕ} {side : OrderSide} {f : Fill Decimal} (h : Entry s side f) :
    Decimal.one ≤ f.fillQuantity.raw := by
  have hle := (Decimal.le_iff _ _).mp h.quantity
  have hone : (Decimal.ofInt 1).raw = Decimal.one := by decide
  rwa [hone] at hle

omit [NearestDiv] in
theorem Entry.ne_zero {s : ℕ} {side : OrderSide} {f : Fill Decimal} (h : Entry s side f) :
    f.fillQuantity ≠ 0 := by
  intro hz
  have hone := h.atLeastOne
  rw [hz] at hone
  exact absurd hone (by decide)

omit [NearestDiv] in
theorem sums_append (before : List (Fill Decimal)) (f : Fill Decimal) :
    quantitySum (before++[f]) = quantitySum before+f.fillQuantity.raw ∧
      costSum (before++[f]) = costSum before+f.fillQuantity.raw*f.fillPrice.raw := by
  simp [quantitySum, costSum]

omit [NearestDiv] in
theorem sideSign_square (side : OrderSide) : sideSign side*sideSign side = 1 := by
  cases side <;> rfl

omit [NearestDiv] in
theorem sideSign_abs (side : OrderSide) (q : ℤ) (hq : 0 ≤ q) : |sideSign side*q| = q := by
  cases side <;> simp [sideSign, abs_of_nonneg hq]

omit [NearestDiv] in
theorem create_drift (s : ℕ) (side : OrderSide) (f : Fill Decimal) (hf : Entry s side f) :
    Drift side [f] (createPosition f) := by
  have hone := hf.atLeastOne
  have hpos : 0 < f.fillQuantity.raw := lt_of_lt_of_le (by decide) hone
  constructor
  case held => simpa [quantitySum] using hone
  case quantity =>
    rw [createPosition, signed_raw f hpos, hf.signed]
    simp [quantitySum]
  case price => exact (Decimal.le_iff _ _).mp hf.price
  case drift => simp [quantitySum, costSum, createPosition, le_of_lt hpos]

/-- The three roundings of an increase. -/
theorem averagedRaw_near (pos : Position Decimal) (f : Fill Decimal) (hf : 0 < f.fillQuantity.raw) :
    |2*((|pos.quantity.raw|+f.fillQuantity.raw)*averagedRaw pos f)-
      2*(|pos.quantity.raw| * pos.averagePrice.raw+f.fillQuantity.raw*f.fillPrice.raw)| ≤
      |pos.quantity.raw|+f.fillQuantity.raw+2*Decimal.one := by
  have hd := abs_nonneg pos.quantity.raw
  have hheld : 2*(|pos.quantity.raw| * pos.averagePrice.raw)-Decimal.one ≤
      2*(Decimal.one*exposure pos.quantity.raw pos.averagePrice.raw) ∧
      2*(Decimal.one*exposure pos.quantity.raw pos.averagePrice.raw) ≤
      2*(|pos.quantity.raw| * pos.averagePrice.raw)+Decimal.one := quot_bounds _ _ (by decide)
  have hfill : 2*(|f.fillQuantity.raw| * f.fillPrice.raw)-Decimal.one ≤
      2*(Decimal.one*exposure f.fillQuantity.raw f.fillPrice.raw) ∧
      2*(Decimal.one*exposure f.fillQuantity.raw f.fillPrice.raw) ≤
      2*(|f.fillQuantity.raw| * f.fillPrice.raw)+Decimal.one := quot_bounds _ _ (by decide)
  have haverage := quot_bounds ((exposure pos.quantity.raw pos.averagePrice.raw+
    exposure f.fillQuantity.raw f.fillPrice.raw)*Decimal.one)
    (|pos.quantity.raw|+f.fillQuantity.raw) (by omega)
  rw [← averagedRaw] at haverage
  rw [abs_of_pos hf] at hfill
  obtain ⟨hlower,hupper⟩ := haverage
  exact abs_le.mpr ⟨by linarith [hheld.1,hfill.1],by linarith [hheld.2,hfill.2]⟩

structure Increased (side : OrderSide) (q : ℤ) (pos moved : Position Decimal) (f : Fill Decimal) :
    Prop where
  held : |pos.quantity.raw| = q
  quantity : moved.quantity.raw = sideSign side*(q+f.fillQuantity.raw)
  average : moved.averagePrice.raw = averagedRaw pos f

theorem sameSide_increases (side : OrderSide) (q : ℤ) (pos : Position Decimal) (f : Fill Decimal)
    (hside : f.side = side) (hf : 0 < f.fillQuantity.raw) (hp : 0 ≤ f.fillPrice.raw) (hq : 0 < q)
    (hquantity : pos.quantity.raw = sideSign side*q) (ha : 0 ≤ pos.averagePrice.raw)
    (hr : FillInRange pos f) : Increased side q pos (movePosition pos f) f := by
  have hsigned : exactSigned f = sideSign side*f.fillQuantity.raw := by rw [exactSigned_side, hside]
  have hsame : 0 < pos.quantity.raw*exactSigned f := by
    have hproduct : pos.quantity.raw*exactSigned f =
        sideSign side*sideSign side*(q*f.fillQuantity.raw) := by
      rw [hquantity, hsigned]
      ring
    rw [hproduct, sideSign_square, one_mul]
    exact mul_pos hq hf
  constructor
  case held => rw [hquantity, sideSign_abs side _ (le_of_lt hq)]
  case quantity =>
    rw [moved_quantity_raw pos f hf hr, hquantity, hsigned]
    ring
  case average =>
    rcases moved_average pos f hf hr.minimum with ⟨hz,-⟩ | ⟨-,hm⟩ | ⟨hn,-⟩ | ⟨hn,-⟩
    · rw [hz, zero_mul] at hsame
      exact absurd hsame (lt_irrefl _)
    · rw [hm]
      exact average_raw pos f hf hp ha hr hsame
    · exact absurd hsame (not_lt.mpr (le_of_lt hn))
    · exact absurd hsame (not_lt.mpr (le_of_lt hn))

theorem increase_drift (s : ℕ) (side : OrderSide) (before : List (Fill Decimal)) (f : Fill Decimal)
    (pos : Position Decimal) (hf : Entry s side f) (hr : FillInRange pos f)
    (h : Drift side before pos) : Drift side (before++[f]) (movePosition pos f) := by
  have hone := hf.atLeastOne
  have hheld := h.held
  have hscale : 0 < Decimal.one := by decide
  have hpos : 0 < f.fillQuantity.raw := by omega
  have hprice := (Decimal.le_iff _ _).mp hf.price
  obtain ⟨hsumQuantity,hsumCost⟩ := sums_append before f
  obtain ⟨habs,hquantity,haverage⟩ := sameSide_increases side (quantitySum before) pos f hf.side hpos
    hprice (by omega) h.quantity h.price hr
  constructor
  case held => omega
  case quantity => rw [hquantity, hsumQuantity]
  case price =>
    rw [haverage]
    exact averagedRaw_nonneg pos f hpos hprice h.price
  case drift =>
    have hnear := abs_le.mp (averagedRaw_near pos f hpos)
    have hold := abs_le.mp h.drift
    have hweight : 0 ≤ (before.length : ℤ)*f.fillQuantity.raw := mul_nonneg (Int.natCast_nonneg _) (le_of_lt hpos)
    rw [habs] at hnear
    rw [haverage, hsumQuantity, hsumCost, List.length_append, List.length_singleton, Nat.cast_add,
      Nat.cast_one]
    -- the weight of the old error shrinks by the share of the new fill
    exact abs_le.mpr ⟨by nlinarith [hnear.1,hold.1],by nlinarith [hnear.2,hold.2]⟩

theorem getPosition_update (pm : PositionManager) (f : Fill Decimal) (hf : f.fillQuantity ≠ 0) :
    (pm.updatePosition f).1.getPosition f.symbolId = some (match pm.getPosition f.symbolId with
      | none => createPosition f
      | some pos => movePosition pos f) := by
  rw [PositionManager.getPosition, PositionManager.getPosition, updatePosition_positions,
    updatePositions, if_neg hf]
  simp only [Table.find_assign, if_true]
  cases pm.positions.find f.symbolId <;> rfl

theorem run_drift (s : ℕ) (side : OrderSide) (fills before : List (Fill Decimal)) (pm : PositionManager)
    (pos : Position Decimal) (hf : ∀ f ∈ fills, Entry s side f)
    (hr : Schedule.Allowed (fun pm f => (pm.updatePosition f).1) NoOverflow fills pm)
    (hpos : pm.getPosition s = some pos) (h : Drift side before pos) :
    ∃ p, (PositionManager.run fills pm).getPosition s = some p ∧ Drift side (before++fills) p := by
  induction fills generalizing before pm pos with
  | nil => exact ⟨pos,hpos,by rwa [List.append_nil]⟩
  | cons f fs ih =>
    obtain ⟨hrange,hrest⟩ := hr
    have hentry := hf f List.mem_cons_self
    have hsymbol := hentry.symbol
    have hnext := getPosition_update pm f hentry.ne_zero
    rw [NoOverflow, positionAt] at hrange
    rw [hsymbol, hpos] at hrange hnext
    rw [List.append_cons]
    exact ih (before++[f]) _ _ (fun g hg => hf g (List.mem_cons_of_mem f hg)) hrest hnext
      (increase_drift s side before f pos hentry hrange h)

omit [NearestDiv] in
theorem costSum_rat (fills : List (Fill Decimal)) :
    (fills.map (fun f => f.fillQuantity.toRat*f.fillPrice.toRat)).sum = (costSum fills : ℚ)/2^64 := by
  induction fills with
  | nil => simp [costSum]
  | cons f fs ih =>
    rw [List.map_cons, List.sum_cons, ih]
    simp only [costSum, List.map_cons, List.sum_cons, Decimal.toRat, Int.cast_add, Int.cast_mul]
    ring

omit [NearestDiv] in
theorem quantitySum_rat (fills : List (Fill Decimal)) :
    (fills.map (fun f => f.fillQuantity.toRat)).sum = (quantitySum fills : ℚ)/2^32 := by
  induction fills with
  | nil => simp [quantitySum]
  | cons f fs ih =>
    rw [List.map_cons, List.sum_cons, ih]
    simp only [quantitySum, List.map_cons, List.sum_cons, Decimal.toRat, Int.cast_add]
    ring

omit [NearestDiv] in
theorem drift_rat (side : OrderSide) (fills : List (Fill Decimal)) (pos : Position Decimal)
    (h : Drift side fills pos) :
    |pos.averagePrice.toRat-exactAverage fills| ≤ fills.length/2^32 := by
  have hheld : (0 : ℚ) < quantitySum fills := by
    have := h.held
    exact_mod_cast lt_of_lt_of_le (show (0 : ℤ) < Decimal.one by decide) this
  have hdrift : |(quantitySum fills : ℚ)*pos.averagePrice.raw-costSum fills| ≤
      fills.length*quantitySum fills := by exact_mod_cast h.drift
  have hsplit : pos.averagePrice.toRat-exactAverage fills =
      ((quantitySum fills : ℚ)*pos.averagePrice.raw-costSum fills)/(quantitySum fills*2^32) := by
    rw [exactAverage, costSum_rat, quantitySum_rat, Decimal.toRat]
    field_simp
  rw [hsplit, abs_div, abs_of_pos (by positivity : (0 : ℚ) < quantitySum fills*2^32),
    div_le_div_iff₀ (by positivity) (by positivity)]
  calc
    |(quantitySum fills : ℚ)*pos.averagePrice.raw-costSum fills| * 2^32
      ≤ fills.length*quantitySum fills*2^32 := mul_le_mul_of_nonneg_right hdrift (by positivity)
    _ = fills.length*(quantitySum fills*2^32) := mul_assoc _ _ _

/-- After n fills of one side, the average price is within n raw units of the
exact one. -/
theorem average_drift (fills : List (Fill Decimal)) (s : ℕ) (side : OrderSide) (pm : PositionManager)
    (hne : fills ≠ []) (hf : ∀ f ∈ fills, Entry s side f) (hpm : pm.getPosition s = none)
    (hr : Schedule.Allowed (fun pm f => (pm.updatePosition f).1) NoOverflow fills pm) :
    ∃ p, (PositionManager.run fills pm).getPosition s = some p ∧
      |p.averagePrice.toRat-exactAverage fills| ≤ fills.length/2^32 := by
  obtain ⟨f,fs,rfl⟩ := List.exists_cons_of_ne_nil hne
  obtain ⟨-,hrest⟩ := hr
  have hentry := hf f List.mem_cons_self
  have hnext := getPosition_update pm f hentry.ne_zero
  rw [hentry.symbol, hpm] at hnext
  obtain ⟨p,hp,hdrift⟩ := run_drift s side fs [f] _ _ (fun g hg => hf g (List.mem_cons_of_mem f hg))
    hrest hnext (create_drift s side f hentry)
  exact ⟨p,hp,drift_rat side (f::fs) p hdrift⟩

end Run

def twoBuys : List (Fill Decimal) :=
  [{ symbolId := 1, fillQuantity := .ofInt 1, fillPrice := .ofInt 10 },
   { symbolId := 1, fillQuantity := .ofInt 2, fillPrice := .ofInt 11 }]

theorem twoBuys_entries (f : Fill Decimal) (hf : f ∈ twoBuys) : Entry 1 .buy f := by
  rw [twoBuys, List.mem_cons, List.mem_singleton] at hf
  rcases hf with rfl | rfl
  · exact ⟨rfl,rfl,by decide,by decide⟩
  · exact ⟨rfl,rfl,by decide,by decide⟩

theorem twoBuys_average : ∃ p, (PositionManager.run twoBuys {}).getPosition 1 = some p ∧
    |p.averagePrice.toRat-exactAverage twoBuys| ≤ twoBuys.length/2^32 :=
  average_drift twoBuys 1 .buy {} (by simp [twoBuys]) twoBuys_entries rfl (by decide +kernel)

end Chronos.PriceDrift
