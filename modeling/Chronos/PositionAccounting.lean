import Chronos.PositionConservation

/-!
# Profit and loss as cash flow

With the arithmetic read exactly, the total profit of a position at any mark
is the cash-flow value of the fills behind it. Weighted averaging, booking on
a reduction, resetting on a close and the flip all keep this one equation.
-/

set_option autoImplicit false

namespace Chronos.PositionAccounting
open KeyedTable PositionConservation

def cash (f : Fill ℚ) (m : ℚ) : ℚ := signedQuantity f*(m-f.fillPrice)

def cashFlow (fills : List (Fill ℚ)) (m : ℚ) : ℚ := (fills.map (fun f => cash f m)).sum

def heldPnL (t : Table ℕ (Position ℚ)) (s : ℕ) (m : ℚ) : ℚ :=
  (t.find s).elim 0 (fun p => p.getTotalPnL m)

theorem create_total (f : Fill ℚ) (m : ℚ) : (createPosition f).getTotalPnL m = cash f m := by
  simp [createPosition, Position.getTotalPnL, Position.getUnrealizedPnL, cash]

theorem reopen_total (p : Position ℚ) (f : Fill ℚ) (m : ℚ) (hq : p.quantity = 0) :
    (reopenPosition p f).getTotalPnL m = p.getTotalPnL m+cash f m := by
  simp [reopenPosition, Position.getTotalPnL, Position.getUnrealizedPnL, cash, hq]

theorem signed_buy (f : Fill ℚ) (h : f.side = .buy) : signedQuantity f = f.fillQuantity := by
  simp [signedQuantity, h]

theorem signed_sell (f : Fill ℚ) (h : f.side = .sell) : signedQuantity f = -f.fillQuantity := by
  simp [signedQuantity, h]

theorem signed_side (f : Fill ℚ) (h : 0 < f.fillQuantity) :
    0 < signedQuantity f ∧ signedQuantity f = f.fillQuantity ∨
      signedQuantity f < 0 ∧ signedQuantity f = -f.fillQuantity := by
  cases hs : f.side with
  | buy => exact Or.inl ⟨by simpa [signed_buy f hs] using h,signed_buy f hs⟩
  | sell => exact Or.inr ⟨by simpa [signed_sell f hs] using h,signed_sell f hs⟩

theorem sign_eq (x y : ℚ) (hx : x ≠ 0) (h : signOf x = signOf y) :
    0 < x ∧ 0 < y ∨ x < 0 ∧ y < 0 := by
  rcases lt_or_gt_of_ne hx with hn | hp
  · rw [signOf_neg _ hn] at h
    refine Or.inr ⟨hn,?_⟩
    by_contra hy
    rw [signOf, if_neg hy] at h
    split_ifs at h
  · rw [signOf_pos _ hp] at h
    refine Or.inl ⟨hp,?_⟩
    by_contra hy
    rw [signOf, if_neg hy] at h
    split_ifs at h
    omega

/-- Averaging moves the entry price so that the cost of the whole position is
the cost of its two parts. -/
theorem weighted_cost (q a f p : ℚ) (h : magnitude q+f ≠ 0) :
    (magnitude q+f)*calcWeightedAverage q a f p = magnitude q*a+f*p := by
  simp only [calcWeightedAverage, if_neg h]
  field_simp

theorem increase_total (p : Position ℚ) (f : Fill ℚ) (m : ℚ) (hf : 0 < f.fillQuantity)
    (hq : p.quantity ≠ 0) (hs : signOf p.quantity = signOf (signedQuantity f)) :
    (increasePosition p f).getTotalPnL m = p.getTotalPnL m+cash f m := by
  simp only [increasePosition, Position.getTotalPnL, Position.getUnrealizedPnL, cash]
  rcases sign_eq _ _ hq hs with ⟨hp,hy⟩ | ⟨hn,hy⟩
  · have hmag := magnitude_of_nonneg p.quantity (le_of_lt hp)
    have hc := weighted_cost p.quantity p.averagePrice f.fillQuantity f.fillPrice (by rw [hmag]; positivity)
    rw [hmag] at hc
    have hsq : signedQuantity f = f.fillQuantity := by
      rcases signed_side f hf with ⟨-,h⟩ | ⟨h,-⟩
      · exact h
      · exact absurd hy (not_lt.mpr (le_of_lt h))
    rw [hsq]
    linear_combination -hc
  · have hmag := magnitude_of_neg p.quantity hn
    have hc := weighted_cost p.quantity p.averagePrice f.fillQuantity f.fillPrice (by
      rw [hmag]; exact ne_of_gt (by linarith))
    rw [hmag] at hc
    have hsq : signedQuantity f = -f.fillQuantity := by
      rcases signed_side f hf with ⟨h,-⟩ | ⟨-,h⟩
      · exact absurd hy (not_lt.mpr (le_of_lt h))
      · exact h
    rw [hsq]
    linear_combination hc

theorem sign_opposite (x y : ℚ) (hx : x ≠ 0) (hy : y ≠ 0) (h : signOf x ≠ signOf y) :
    0 < x ∧ y < 0 ∨ x < 0 ∧ 0 < y := by
  rcases lt_or_gt_of_ne hx with hn | hp <;> rcases lt_or_gt_of_ne hy with hn' | hp'
  · exact absurd ((signOf_neg _ hn).trans (signOf_neg _ hn').symm) h
  · exact Or.inr ⟨hn,hp'⟩
  · exact Or.inl ⟨hp,hn'⟩
  · exact absurd ((signOf_pos _ hp).trans (signOf_pos _ hp').symm) h

theorem reduce_total (p : Position ℚ) (f : Fill ℚ) (m : ℚ)
    (hs : 0 < p.quantity ∧ signedQuantity f < 0 ∨ p.quantity < 0 ∧ 0 < signedQuantity f) :
    (reducePosition p f).getTotalPnL m = p.getTotalPnL m+cash f m := by
  have hkeep : (p.quantity+signedQuantity f)*
      (m-(if p.quantity+signedQuantity f = 0 then 0 else p.averagePrice)) =
        (p.quantity+signedQuantity f)*(m-p.averagePrice) := by
    split_ifs with h
    · rw [h, zero_mul, zero_mul]
    · rfl
  simp only [reducePosition, Position.getTotalPnL, Position.getUnrealizedPnL, cash,
    calcRealizedPnLOnReduce, hkeep]
  rcases hs with ⟨hp,hn⟩ | ⟨hn,hp⟩
  · rw [if_pos hp, magnitude_of_neg _ hn]
    ring
  · rw [if_neg (not_lt.mpr (le_of_lt hn)), magnitude_of_nonneg _ (le_of_lt hp)]
    ring

theorem flip_total (p : Position ℚ) (f : Fill ℚ) (m : ℚ)
    (hs : 0 < p.quantity ∧ signedQuantity f < 0 ∨ p.quantity < 0 ∧ 0 < signedQuantity f) :
    (flipPosition p f).getTotalPnL m = p.getTotalPnL m+cash f m := by
  simp only [flipPosition, Position.getTotalPnL, Position.getUnrealizedPnL, cash,
    calcRealizedPnLOnReduce]
  rcases hs with ⟨hp,hn⟩ | ⟨hn,hp⟩
  · rw [if_pos hp, signOf_neg _ hn, if_neg (by decide), magnitude_of_neg _ hn,
      magnitude_of_nonneg _ (le_of_lt hp)]
    ring
  · rw [if_neg (not_lt.mpr (le_of_lt hn)), signOf_pos _ hp, if_pos (by decide),
      magnitude_of_nonneg _ (le_of_lt hp), magnitude_of_neg _ hn]
    ring

/-- One fill moves the total profit by its own cash flow, on every branch. -/
theorem move_total (p : Position ℚ) (f : Fill ℚ) (m : ℚ) (hf : 0 < f.fillQuantity) :
    (movePosition p f).getTotalPnL m = p.getTotalPnL m+cash f m := by
  unfold movePosition
  split_ifs with hz hs hr
  · exact reopen_total p f m ((signOf_zero _).mp hz)
  · exact increase_total p f m hf (fun h => hz ((signOf_zero _).mpr h)) hs
  · exact reduce_total p f m (sign_opposite _ _ (fun h => hz ((signOf_zero _).mpr h))
      (signed_ne_zero f (ne_of_gt hf)) hs)
  · exact flip_total p f m (sign_opposite _ _ (fun h => hz ((signOf_zero _).mpr h))
      (signed_ne_zero f (ne_of_gt hf)) hs)

theorem update_total (t : Table ℕ (Position ℚ)) (f : Fill ℚ) (m : ℚ) (hf : 0 < f.fillQuantity) :
    heldPnL (updatePositions t f).1 f.symbolId m = heldPnL t f.symbolId m+cash f m := by
  have hz := ne_of_gt hf
  cases hfind : t.find f.symbolId with
  | none => simp [updatePositions, hz, heldPnL, hfind, create_total]
  | some p => simp [updatePositions, hz, heldPnL, hfind, move_total p f m hf]

theorem fillPositions_total (fills : List (Fill ℚ)) (t : Table ℕ (Position ℚ)) (s : ℕ) (m : ℚ)
    (hs : ∀ f ∈ fills, f.symbolId = s) (hf : ∀ f ∈ fills, 0 < f.fillQuantity) :
    heldPnL (fillPositions fills t) s m = heldPnL t s m+cashFlow fills m := by
  induction fills generalizing t with
  | nil => simp [fillPositions, cashFlow]
  | cons f fs ih =>
    have hone := update_total t f m (hf f (by simp))
    rw [hs f (by simp)] at hone
    rw [fillPositions, ih _ (fun g hg => hs g (by simp [hg])) (fun g hg => hf g (by simp [hg])), hone]
    simp [cashFlow, add_assoc]

theorem fillPositions_present (fills : List (Fill ℚ)) (t : Table ℕ (Position ℚ)) (s : ℕ)
    (hs : ∀ f ∈ fills, f.symbolId = s) (hf : ∀ f ∈ fills, 0 < f.fillQuantity)
    (h : fills ≠ [] ∨ (t.find s).isSome) : ((fillPositions fills t).find s).isSome := by
  induction fills generalizing t with
  | nil => simpa [fillPositions] using h
  | cons f fs ih =>
    apply ih _ (fun g hg => hs g (by simp [hg])) (fun g hg => hf g (by simp [hg]))
    have hz := ne_of_gt (hf f (by simp))
    simp [updatePositions, hz, hs f (by simp)]

theorem cashFlow_zero (fills : List (Fill ℚ)) :
    cashFlow fills 0 = -(fills.map (fun f => signedQuantity f*f.fillPrice)).sum := by
  induction fills with
  | nil => simp [cashFlow]
  | cons f fs ih =>
    simp only [cashFlow, cash, List.map_cons, List.sum_cons] at ih ⊢
    rw [ih]
    ring

/-- After any positive fills of one symbol, starting without a position, the
total profit at every mark is the cash-flow value of the fills; a flat
position has booked minus the signed cost of all of them. -/
theorem pnl_is_cash_flow (fills : List (Fill ℚ)) (s : ℕ) (hne : fills ≠ [])
    (hs : ∀ f ∈ fills, f.symbolId = s) (hf : ∀ f ∈ fills, 0 < f.fillQuantity) :
    ∃ p, (fillPositions fills .empty).find s = some p ∧
      (∀ m, p.getTotalPnL m = (fills.map (fun f => signedQuantity f*(m-f.fillPrice))).sum) ∧
      (p.quantity = 0 →
        p.realizedPnl = -(fills.map (fun f => signedQuantity f*f.fillPrice)).sum) := by
  have hp := fillPositions_present fills .empty s hs hf (Or.inl hne)
  obtain ⟨p,hp⟩ := Option.isSome_iff_exists.mp hp
  have htotal : ∀ m, p.getTotalPnL m = cashFlow fills m := by
    intro m
    have h := fillPositions_total fills .empty s m hs hf
    simpa [heldPnL, hp] using h
  refine ⟨p,hp,htotal,fun hq => ?_⟩
  have h0 := htotal 0
  simp only [Position.getTotalPnL, Position.getUnrealizedPnL, hq, zero_mul, add_zero] at h0
  exact h0.trans (cashFlow_zero fills)

def flipAndClose : List (Fill ℚ) :=
  [{ symbolId := 1, fillQuantity := 2, fillPrice := 10 },
   { symbolId := 1, fillQuantity := 5, fillPrice := 13, side := .sell },
   { symbolId := 1, fillQuantity := 3, fillPrice := 11 }]

theorem flipAndClose_pnl : ∃ p, (fillPositions flipAndClose .empty).find 1 = some p ∧
    ∀ m, p.getTotalPnL m =
      (flipAndClose.map (fun f => signedQuantity f*(m-f.fillPrice))).sum := by
  obtain ⟨p,hp,ht,-⟩ := pnl_is_cash_flow flipAndClose 1 (by simp [flipAndClose])
    (by simp [flipAndClose]) (by simp [flipAndClose])
  exact ⟨p,hp,ht⟩

end Chronos.PositionAccounting
