import Chronos.PriceDrift

/-!
# The average price and the prices paid

An increase rounds two products and divides their sum by the new holding.
Above two units the roundings come to less than one raw unit and the average
stays between the prices paid. Below they are magnified: of a holding of
a few raw units the average can be off by a whole unit of price.
-/

set_option autoImplicit false

namespace Chronos.PriceRange
open NearestDivision KeyedTable PositionConservation PositionLimit PortfolioValue PriceDrift

structure Traded (s : ℕ) (side : OrderSide) (f : Fill Decimal) : Prop where
  symbol : f.symbolId = s
  side : f.side = side
  quantity : 0 < f.fillQuantity
  price : 0 < f.fillPrice

def AboveTwo : List (Fill Decimal) → Prop
  | f::g::_ => 2*Decimal.one < f.fillQuantity.raw+g.fillQuantity.raw
  | _ => True

theorem quantitySum_nonneg (fills : List (Fill Decimal)) (h : ∀ f ∈ fills, 0 < f.fillQuantity) :
    0 ≤ quantitySum fills := by
  apply List.sum_nonneg
  intro x hx
  obtain ⟨f,hf,rfl⟩ := List.mem_map.mp hx
  exact le_of_lt ((Decimal.lt_iff _ _).mp (h f hf))

theorem aboveTwo_holding (before : List (Fill Decimal)) (f : Fill Decimal) (hne : before ≠ [])
    (h : ∀ g ∈ before++[f], 0 < g.fillQuantity) (hlarge : AboveTwo (before++[f])) :
    2*Decimal.one < quantitySum before+f.fillQuantity.raw ∧ AboveTwo before := by
  match before, hne with
  | [g], _ =>
    change 2*Decimal.one < g.fillQuantity.raw+f.fillQuantity.raw at hlarge
    exact ⟨by simpa [quantitySum] using hlarge,trivial⟩
  | g::k::rest, _ =>
    have hrest := quantitySum_nonneg rest (fun x hx => h x (by simp [hx]))
    have hf := (Decimal.lt_iff _ _).mp (h f (by simp))
    refine ⟨?_,hlarge⟩
    change 2*Decimal.one < g.fillQuantity.raw+k.fillQuantity.raw at hlarge
    have hsum : quantitySum (g::k::rest) = g.fillQuantity.raw+(k.fillQuantity.raw+quantitySum rest) := by
      simp [quantitySum]
    rw [Decimal.zero_raw] at hf
    omega

structure Between (side : OrderSide) (low high : ℤ) (fills : List (Fill Decimal))
    (pos : Position Decimal) : Prop where
  held : 0 < quantitySum fills
  quantity : pos.quantity.raw = sideSign side*quantitySum fills
  price : 0 ≤ pos.averagePrice.raw
  above : 2*(quantitySum fills*(low-pos.averagePrice.raw)) ≤
    ((fills.length : ℤ)-1)*(2*Decimal.one+quantitySum fills)
  below : 2*(quantitySum fills*(pos.averagePrice.raw-high)) ≤
    ((fills.length : ℤ)-1)*(2*Decimal.one+quantitySum fills)
  inside : AboveTwo fills → low ≤ pos.averagePrice.raw ∧ pos.averagePrice.raw ≤ high

theorem first_between (s : ℕ) (side : OrderSide) (low high : ℤ) (f : Fill Decimal)
    (moved : Position Decimal) (hf : Traded s side f)
    (hp : low ≤ f.fillPrice.raw ∧ f.fillPrice.raw ≤ high)
    (hquantity : moved.quantity = signedQuantity f) (haverage : moved.averagePrice = f.fillPrice) :
    Between side low high [f] moved := by
  have hpos := (Decimal.lt_iff _ _).mp hf.quantity
  have hprice := (Decimal.lt_iff _ _).mp hf.price
  rw [Decimal.zero_raw] at hpos hprice
  have hsum : quantitySum [f] = f.fillQuantity.raw := by simp [quantitySum]
  constructor
  case held => rwa [hsum]
  case quantity => rw [hquantity, signed_raw f hpos, exactSigned_side, hf.side, hsum]
  case price =>
    rw [haverage]
    exact le_of_lt hprice
  case above =>
    rw [hsum, haverage]
    have hle := mul_nonneg (le_of_lt hpos) (sub_nonneg.mpr hp.1)
    simp only [List.length_singleton, Nat.cast_one, sub_self, zero_mul]
    linarith
  case below =>
    rw [hsum, haverage]
    have hle := mul_nonneg (le_of_lt hpos) (sub_nonneg.mpr hp.2)
    simp only [List.length_singleton, Nat.cast_one, sub_self, zero_mul]
    linarith
  case inside =>
    rw [haverage]
    exact fun _ => hp

/-- The average is a mean of the old one and the new price, up to one rounding
of the scale and half the holding. -/
theorem averaged_between (q f a p average low high : ℤ) (hf : 0 < f)
    (hp : low ≤ p ∧ p ≤ high)
    (hnear : |2*((q+f)*average)-2*(q*a+f*p)| ≤ q+f+2*Decimal.one) :
    2*((q+f)*(low-average)) ≤ 2*(q*(low-a))+(2*Decimal.one+(q+f)) ∧
      2*((q+f)*(average-high)) ≤ 2*(q*(a-high))+(2*Decimal.one+(q+f)) := by
  have hlow := mul_nonneg (le_of_lt hf) (sub_nonneg.mpr hp.1)
  have hhigh := mul_nonneg (le_of_lt hf) (sub_nonneg.mpr hp.2)
  obtain ⟨h1,h2⟩ := abs_le.mp hnear
  constructor <;> linarith

theorem bounded_of_near (d x : ℤ) (hd : 2*Decimal.one < d) (h : 2*(d*x) ≤ 2*Decimal.one+d) :
    x ≤ 0 := by
  by_contra hx
  have hone : 0 < Decimal.one := by decide
  have hle : d*1 ≤ d*x := mul_le_mul_of_nonneg_left (by omega) (by omega)
  linarith

section Run
variable [NearestDiv]

theorem increase_between (s : ℕ) (side : OrderSide) (low high : ℤ) (before : List (Fill Decimal))
    (f : Fill Decimal) (pos : Position Decimal) (hne : before ≠ [])
    (hf : ∀ g ∈ before++[f], Traded s side g) (hp : low ≤ f.fillPrice.raw ∧ f.fillPrice.raw ≤ high)
    (hr : FillInRange pos f) (h : Between side low high before pos) :
    Between side low high (before++[f]) (movePosition pos f) := by
  have htraded := hf f (by simp)
  have hpos := (Decimal.lt_iff _ _).mp htraded.quantity
  have hprice := (Decimal.lt_iff _ _).mp htraded.price
  rw [Decimal.zero_raw] at hpos hprice
  have hheld := h.held
  obtain ⟨hsum,-⟩ := sums_append before f
  obtain ⟨habs,hquantity,haverage⟩ := sameSide_increases side (quantitySum before) pos f
    htraded.side hpos (le_of_lt hprice) hheld h.quantity h.price hr
  have hnear := averagedRaw_near pos f hpos
  rw [habs, ← haverage] at hnear
  obtain ⟨hlow,hhigh⟩ := averaged_between _ _ _ _ _ low high hpos hp hnear
  have hlength : ((before++[f]).length : ℤ)-1 = ((before.length : ℤ)-1)+1 := by
    rw [List.length_append, List.length_singleton, Nat.cast_add, Nat.cast_one]
    ring
  have hfirst : 0 ≤ (before.length : ℤ)-1 := by
    have := List.length_pos_of_ne_nil hne
    omega
  have hgrow := mul_nonneg hfirst (le_of_lt hpos)
  constructor
  case held => omega
  case quantity => rw [hquantity, hsum]
  case price =>
    rw [haverage]
    exact averagedRaw_nonneg pos f hpos (le_of_lt hprice) h.price
  case above =>
    rw [hsum, hlength]
    linarith [h.above]
  case below =>
    rw [hsum, hlength]
    linarith [h.below]
  case inside =>
    intro hlarge
    obtain ⟨hholding,hbefore⟩ := aboveTwo_holding before f hne (fun g hg => (hf g hg).quantity) hlarge
    obtain ⟨h1,h2⟩ := h.inside hbefore
    have hq1 := mul_nonneg (le_of_lt hheld) (sub_nonneg.mpr h1)
    have hq2 := mul_nonneg (le_of_lt hheld) (sub_nonneg.mpr h2)
    have hx1 := bounded_of_near _ _ hholding (show 2*(_*(low-(movePosition pos f).averagePrice.raw)) ≤ _ by
      linarith)
    have hx2 := bounded_of_near _ _ hholding (show 2*(_*((movePosition pos f).averagePrice.raw-high)) ≤ _ by
      linarith)
    exact ⟨by omega,by omega⟩

theorem run_between (s : ℕ) (side : OrderSide) (low high : ℤ) (fills before : List (Fill Decimal))
    (pm : PositionManager) (pos : Position Decimal) (hne : before ≠ [])
    (hf : ∀ f ∈ before++fills, Traded s side f)
    (hp : ∀ f ∈ fills, low ≤ f.fillPrice.raw ∧ f.fillPrice.raw ≤ high)
    (hr : Schedule.Allowed (fun pm f => (pm.updatePosition f).1) NoOverflow fills pm)
    (hpos : pm.getPosition s = some pos) (h : Between side low high before pos) :
    ∃ p, (PositionManager.run fills pm).getPosition s = some p ∧
      Between side low high (before++fills) p := by
  induction fills generalizing before pm pos with
  | nil => exact ⟨pos,hpos,by rwa [List.append_nil]⟩
  | cons f fs ih =>
    obtain ⟨hrange,hrest⟩ := hr
    have htraded := hf f (by simp)
    have hz : f.fillQuantity ≠ 0 := ne_of_gt htraded.quantity
    have hnext := getPosition_update pm f hz
    rw [NoOverflow, positionAt] at hrange
    rw [htraded.symbol, hpos] at hrange hnext
    rw [List.append_cons] at hf ⊢
    exact ih (before++[f]) _ _ (by simp) hf (fun g hg => hp g (by simp [hg])) hrest hnext
      (increase_between s side low high before f pos hne (fun g hg => hf g (List.mem_append_left _ hg))
        (hp f (by simp)) hrange h)

theorem fills_between (fills : List (Fill Decimal)) (s : ℕ) (side : OrderSide) (pm : PositionManager)
    (low high : ℤ) (hne : fills ≠ []) (hf : ∀ f ∈ fills, Traded s side f) (hpm : pm.quantityOf s = 0)
    (hr : Schedule.Allowed (fun pm f => (pm.updatePosition f).1) NoOverflow fills pm)
    (hp : ∀ f ∈ fills, low ≤ f.fillPrice.raw ∧ f.fillPrice.raw ≤ high) :
    ∃ p, (PositionManager.run fills pm).getPosition s = some p ∧ Between side low high fills p := by
  obtain ⟨f,fs,rfl⟩ := List.exists_cons_of_ne_nil hne
  have htraded := hf f (by simp)
  have hnext := getPosition_update pm f (ne_of_gt htraded.quantity)
  rw [htraded.symbol] at hnext
  refine run_between s side low high fs [f] _ _ (by simp) hf (fun g hg => hp g (by simp [hg])) hr.2 hnext ?_
  cases hpos : pm.getPosition s with
  | none => exact first_between s side low high f _ htraded (hp f (by simp)) rfl rfl
  | some pos =>
    rw [PositionManager.quantityOf, hpos] at hpm
    have hopen : movePosition pos f = reopenPosition pos f := if_pos ((signOf_zero _).mpr hpm)
    simp only [hopen]
    exact first_between s side low high f _ htraded (hp f (by simp)) rfl rfl

/-- How far the average may leave the prices paid: for each fill after the
first, half a raw unit and one more divided by the quantity held. -/
def slack (fills : List (Fill Decimal)) : ℚ :=
  ((fills.length : ℚ)-1)*(1/(fills.map (fun f => f.fillQuantity.toRat)).sum+1/2)/2^32

omit [NearestDiv] in
theorem slack_rat (fills : List (Fill Decimal)) (x : ℤ) (hheld : 0 < quantitySum fills)
    (h : 2*(quantitySum fills*x) ≤ ((fills.length : ℤ)-1)*(2*Decimal.one+quantitySum fills)) :
    (x : ℚ)/2^32 ≤ slack fills := by
  have hpos : (0 : ℚ) < quantitySum fills := by exact_mod_cast hheld
  have hcast : 2*((quantitySum fills : ℚ)*x) ≤
      ((fills.length : ℚ)-1)*(2*2^32+quantitySum fills) := by exact_mod_cast h
  have hone : 1/((quantitySum fills : ℚ)/2^32)+1/2 =
      (2*2^32+quantitySum fills)/(2*quantitySum fills) := by
    field_simp
  rw [slack, quantitySum_rat, hone]
  apply div_le_div_of_nonneg_right _ (by norm_num)
  rw [mul_div_assoc', le_div_iff₀ (by positivity)]
  linarith

/-- Fills of one side keep the average price between any bounds of their prices,
the price itself if there is only one, when the first two are of more than two
units. For smaller ones the average leaves the bounds by no more than the
slack. -/
theorem average_between_prices (fills : List (Fill Decimal)) (s : ℕ) (side : OrderSide)
    (pm : PositionManager) (low high : Decimal) (hne : fills ≠ []) (hf : ∀ f ∈ fills, Traded s side f)
    (hpm : pm.quantityOf s = 0)
    (hr : Schedule.Allowed (fun pm f => (pm.updatePosition f).1) NoOverflow fills pm)
    (hp : ∀ f ∈ fills, low ≤ f.fillPrice ∧ f.fillPrice ≤ high) :
    ∃ p, (PositionManager.run fills pm).getPosition s = some p ∧
      (AboveTwo fills → low ≤ p.averagePrice ∧ p.averagePrice ≤ high) ∧
      low.toRat-slack fills ≤ p.averagePrice.toRat ∧ p.averagePrice.toRat ≤ high.toRat+slack fills := by
  obtain ⟨p,hget,h⟩ := fills_between fills s side pm low.raw high.raw hne hf hpm hr hp
  have habove := slack_rat fills _ h.held h.above
  have hbelow := slack_rat fills _ h.held h.below
  push_cast at habove hbelow
  refine ⟨p,hget,h.inside,?_,?_⟩
  · unfold Decimal.toRat
    linarith
  · unfold Decimal.toRat
    linarith

end Run

def dustBuys : List (Fill Decimal) :=
  [{ symbolId := 1, fillQuantity := .wrap 1, fillPrice := .wrap (13*2^30) },
   { symbolId := 1, fillQuantity := .wrap 1, fillPrice := .wrap (13*2^30) }]

/-- Each product is rounded to three raw units, and so the average to 3. -/
theorem dustBuys_average :
    (∀ f ∈ dustBuys, Traded 1 .buy f) ∧
      Schedule.Allowed (fun pm f => (pm.updatePosition f).1) NoOverflow dustBuys {} ∧
      ((PositionManager.run dustBuys {}).getPosition 1).map Position.averagePrice = some (.ofInt 3) ∧
      ∀ f ∈ dustBuys, Decimal.ofInt 3 < f.fillPrice := by
  have htraded : ∀ f ∈ dustBuys, Traded 1 .buy f := by
    simp only [dustBuys, List.forall_mem_cons]
    exact ⟨⟨rfl,rfl,by decide,by decide⟩,⟨rfl,rfl,by decide,by decide⟩,fun f hf => by cases hf⟩
  exact ⟨htraded,by decide +kernel,by decide +kernel,by decide +kernel⟩

/-- Two units exactly are not enough: one and a half and one half, at the
smallest price. -/
example : ((PositionManager.run
    [{ symbolId := 1, fillQuantity := .wrap (3*2^31), fillPrice := .wrap 1 },
     { symbolId := 1, fillQuantity := .wrap (2^31), fillPrice := .wrap 1 }] {}).getPosition 1).map
    Position.averagePrice = some (.wrap 2) := by decide +kernel

theorem twoBuys_between : ∃ p, (PositionManager.run twoBuys {}).getPosition 1 = some p ∧
    Decimal.ofInt 10 ≤ p.averagePrice ∧ p.averagePrice ≤ Decimal.ofInt 11 := by
  have htraded : ∀ f ∈ twoBuys, Traded 1 .buy f := by
    simp only [twoBuys, List.forall_mem_cons]
    exact ⟨⟨rfl,rfl,by decide,by decide⟩,⟨rfl,rfl,by decide,by decide⟩,fun f hf => by cases hf⟩
  obtain ⟨p,hget,hinside,-⟩ := average_between_prices twoBuys 1 .buy {} (.ofInt 10) (.ofInt 11)
    (by simp [twoBuys]) htraded rfl
    (by decide +kernel) (by decide +kernel)
  exact ⟨p,hget,hinside (show _ < _ by decide)⟩

end Chronos.PriceRange
