import Chronos.PositionLimit
import Chronos.StrategyContext

/-!
# The per-symbol limit with orders in flight

The check projects an order onto the filled position only. What the position
can still become is the filled quantity plus the open buys at one end and
minus the open sells at the other. As long as at most one order of a symbol
and side is open, the check bounds each end when it moves; two open orders
of one side move an end the check never sees.
-/

set_option autoImplicit false

namespace Chronos.OrdersInFlight
open NearestDivision PositionConservation RiskWrapAround PositionLimit

def outstanding (s : ℕ) (side : OrderSide) (accepted : List OpenOrder) : ℤ :=
  (accepted.map (fun o => if o.order.symbolId = s ∧ o.order.side = side then o.remaining else 0)).sum

theorem outstanding_append (s : ℕ) (side : OrderSide) (os : List OpenOrder) (o : OpenOrder) :
    outstanding s side (os++[o]) = outstanding s side os+
      if o.order.symbolId = s ∧ o.order.side = side then o.remaining else 0 := by
  simp [outstanding]

theorem outstanding_nonneg (s : ℕ) (side : OrderSide) (os : List OpenOrder)
    (h : ∀ o ∈ os, 0 ≤ o.remaining) : 0 ≤ outstanding s side os := by
  apply List.sum_nonneg
  intro x hx
  obtain ⟨o,ho,rfl⟩ := List.mem_map.mp hx
  split_ifs
  · exact h o ho
  · exact le_refl _

theorem outstanding_none (s : ℕ) (side : OrderSide) (os : List OpenOrder)
    (h : ∀ o ∈ os, o.order.symbolId = s → o.order.side = side → o.remaining = 0) :
    outstanding s side os = 0 := by
  apply List.sum_eq_zero
  intro x hx
  obtain ⟨o,ho,rfl⟩ := List.mem_map.mp hx
  split_ifs with hc
  · exact h o ho hc.1 hc.2
  · rfl

theorem outstanding_take (s : ℕ) (side : OrderSide) (os : List OpenOrder) (n : ℕ) (q : ℤ)
    (o : OpenOrder) (h : os[n]? = some o) :
    outstanding s side (Desk.take os n q) = outstanding s side os-
      if o.order.symbolId = s ∧ o.order.side = side then q else 0 := by
  induction os generalizing n with
  | nil => simp at h
  | cons x xs ih =>
    cases n with
    | zero =>
      obtain rfl : x = o := by simpa using h
      simp only [Desk.take, outstanding, List.map_cons, List.sum_cons]
      split_ifs <;> ring
    | succ n =>
      have hi := ih n (by simpa using h)
      unfold outstanding at hi ⊢
      rw [Desk.take, List.map_cons, List.sum_cons, hi, List.map_cons, List.sum_cons]
      ring

theorem take_remaining (os : List OpenOrder) (n : ℕ) (q : ℤ) (o : OpenOrder) (h : os[n]? = some o)
    (hq : q ≤ o.remaining) (hr : ∀ o ∈ os, 0 ≤ o.remaining) :
    ∀ o ∈ Desk.take os n q, 0 ≤ o.remaining := by
  induction os generalizing n with
  | nil => simp at h
  | cons x xs ih =>
    cases n with
    | zero =>
      obtain rfl : x = o := by simpa using h
      intro y hy
      rcases List.mem_cons.mp hy with rfl | hy
      · exact sub_nonneg.mpr hq
      · exact hr y (by simp [hy])
    | succ n =>
      intro y hy
      rcases List.mem_cons.mp hy with rfl | hy
      · exact hr y (by simp)
      · exact ih n (by simpa using h) (fun o ho => hr o (by simp [ho])) y hy

section Reach
variable [NearestDiv]

/-- Both ends of what the symbol's quantity can still become are in range and
within the limit at the symbol's price. -/
structure Reach (limit price held buys sells : ℤ) : Prop where
  below : held+buys < 2^63
  above : -2^63 < held-sells
  high : exposure (held+buys) price ≤ limit
  low : exposure (held-sells) price ≤ limit

theorem reach_buy_filled (limit price held buys sells q : ℤ) (hp : 0 ≤ price) (hq : 0 ≤ q)
    (hb : 0 ≤ buys-q) (hs : 0 ≤ sells) (h : Reach limit price held buys sells) :
    Reach limit price (held+q) (buys-q) sells where
  below := by have := h.below; omega
  above := by have := h.above; omega
  high := by rw [show held+q+(buys-q) = held+buys by ring]; exact h.high
  low := exposure_between _ _ _ _ _ hp (by omega) (by omega) h.low h.high

theorem reach_sell_filled (limit price held buys sells q : ℤ) (hp : 0 ≤ price) (hq : 0 ≤ q)
    (hb : 0 ≤ buys) (hs : 0 ≤ sells-q) (h : Reach limit price held buys sells) :
    Reach limit price (held-q) buys (sells-q) where
  below := by have := h.below; omega
  above := by have := h.above; omega
  high := exposure_between _ _ _ _ _ hp (by omega) (by omega) h.low h.high
  low := by rw [show held-q-(sells-q) = held-sells by ring]; exact h.low

/-- What the environment keeps to: positive orders at the symbol's one price
whose projection does not overflow, and fills of enqueued orders at the
order's price and side up to its open quantity. -/
def Valid (price : ℕ → Decimal) (d : Desk) : DeskAction → Prop
  | .submit order _ => 0 < order.price ∧ 0 < order.quantity ∧ order.price = price order.symbolId ∧
      |exactProjected d.ctx.positionManager order| < 2^63 ∧
      exposure (exactProjected d.ctx.positionManager order) order.price.raw < 2^63
  | .fill index f => ∃ o, d.accepted[index]? = some o ∧ f.symbolId = o.order.symbolId ∧
      f.side = o.order.side ∧ f.fillPrice = o.order.price ∧ 0 < f.fillQuantity ∧
      f.fillQuantity.raw ≤ o.remaining
  | _ => True

/-- No order is submitted while one of its symbol and side is still open. -/
def OneOpen (d : Desk) : DeskAction → Prop
  | .submit order _ => ∀ o ∈ d.accepted, o.order.symbolId = order.symbolId →
      o.order.side = order.side → o.remaining = 0
  | _ => True

structure InFlight (hp : HotParams) (price : ℕ → Decimal) (d : Desk) : Prop where
  params : d.ctx.riskEngine.hotParams = hp
  remaining : ∀ o ∈ d.accepted, 0 ≤ o.remaining
  reach : ∀ s, Reach hp.maxPositionValue.raw (price s).raw (d.ctx.positionManager.quantityOf s).raw
    (outstanding s .buy d.accepted) (outstanding s .sell d.accepted)

theorem enqueueOrder_spec (ctx : StrategyContext) (order : OrderRequest) (t : ClockReadings) :
    (ctx.enqueueOrder order t).1.positionManager = ctx.positionManager ∧
      (ctx.enqueueOrder order t).1.riskEngine.hotParams = ctx.riskEngine.hotParams ∧
      ((ctx.enqueueOrder order t).2 = none ∨
        (ctx.riskEngine.checkOrder ctx.positionManager order t).2.passed = true ∧
        ∃ id timestampUs strategyId, (ctx.enqueueOrder order t).2 = some { order with
          orderId := id, timestampUs := timestampUs, strategyId := strategyId }) := by
  have hk := (RiskEngine.checkOrder_kept ctx.riskEngine ctx.positionManager order t).1
  rcases ctx.enqueueOrder_cases order t with ⟨-,h⟩ | ⟨hpass,h | h⟩ <;> rw [h]
  · exact ⟨rfl,hk,Or.inl rfl⟩
  · exact ⟨rfl,hk,Or.inl rfl⟩
  · exact ⟨rfl,hk,Or.inr ⟨hpass,_,_,_,rfl⟩⟩

theorem quantity_after_fill (pm : PositionManager) (f : Fill Decimal) (s : ℕ) :
    (pm.updatePosition f).1.quantityOf s = pm.quantityOf s+
      if f.symbolId = s then signedQuantity f else 0 := by
  have h := run_quantity [f] pm s
  simpa [PositionManager.run, filled] using h

/-- The end on the order's side moves to the quantity the check projected;
the other end stays. -/
theorem reach_submitted (limit : Decimal) (price : ℕ → Decimal) (d : Desk) (order : OrderRequest)
    (hp : order.price = price order.symbolId) (h0 : 0 < order.price)
    (hz : |exactProjected d.ctx.positionManager order| < 2^63)
    (hv : exposure (exactProjected d.ctx.positionManager order) order.price.raw < 2^63)
    (hc : RiskEngine.projectedValue d.ctx.positionManager order ≤ limit)
    (hone : OneOpen d (.submit order ⟨0,0⟩))
    (h : Reach limit.raw (price order.symbolId).raw
      (d.ctx.positionManager.quantityOf order.symbolId).raw
      (outstanding order.symbolId .buy d.accepted) (outstanding order.symbolId .sell d.accepted)) :
    Reach limit.raw (price order.symbolId).raw
      (d.ctx.positionManager.quantityOf order.symbolId).raw
      (outstanding order.symbolId .buy d.accepted+
        if order.side = .buy then order.quantity.raw else 0)
      (outstanding order.symbolId .sell d.accepted+
        if order.side = .sell then order.quantity.raw else 0) := by
  have hp0 : 0 ≤ order.price.raw := le_of_lt ((Decimal.lt_iff _ _).mp h0)
  have hx : exposure (exactProjected d.ctx.positionManager order) (price order.symbolId).raw ≤
      limit.raw := by
    rw [← hp, ← projectedValue_raw _ order hp0 hz hv]
    exact hc
  have hz := abs_lt.mp hz
  have hnone := outstanding_none order.symbolId order.side d.accepted hone
  unfold exactProjected at hz hx
  obtain ⟨hb,ha,hh,hl⟩ := h
  cases hs : order.side with
  | buy =>
    rw [hs] at hz hx hnone
    simp only [hnone, reduceCtorEq, if_true, if_false, add_zero, zero_add] at *
    exact ⟨hz.2,ha,hx,hl⟩
  | sell =>
    rw [hs] at hz hx hnone
    simp only [hnone, reduceCtorEq, if_true, if_false, add_zero, zero_add] at *
    exact ⟨hb,hz.1,hh,hx⟩

theorem submit_inFlight (hp : HotParams) (price : ℕ → Decimal) (d : Desk) (order : OrderRequest)
    (t : ClockReadings) (hv : Valid price d (.submit order t)) (hone : OneOpen d (.submit order t))
    (h : InFlight hp price d) : InFlight hp price (d.step (.submit order t)) := by
  obtain ⟨h0,hq,hprice,hz,hx⟩ := hv
  obtain ⟨hm,hk,hr⟩ := enqueueOrder_spec d.ctx order t
  simp only [Desk.step]
  rcases hr with hn | ⟨hpass,id,time,strategy,hsome⟩
  · simp only [hn, Option.toList_none, List.map_nil, List.append_nil]
    exact ⟨hk.trans h.params,h.remaining,fun s => by rw [hm]; exact h.reach s⟩
  · have hc := ((RiskEngine.checkOrder_passed _ _ _ _).mp hpass).position
    rw [h.params] at hc
    simp only [hsome, Option.toList_some, List.map_cons, List.map_nil]
    constructor
    case params => exact hk.trans h.params
    case remaining =>
      intro o ho
      rcases List.mem_append.mp ho with ho | ho
      · exact h.remaining o ho
      · rw [List.mem_singleton.mp ho]
        exact le_of_lt ((Decimal.lt_iff _ _).mp hq)
    case reach =>
      intro s
      rw [hm, outstanding_append, outstanding_append]
      by_cases hs : order.symbolId = s
      · subst hs
        simp only [true_and]
        exact reach_submitted _ price d order hprice h0 hz hx hc hone (h.reach _)
      · simp only [hs, false_and, if_false, add_zero]
        exact h.reach s

theorem fill_inFlight (hp : HotParams) (price : ℕ → Decimal) (hprice : ∀ s, 0 < price s) (d : Desk)
    (index : ℕ) (f : Fill Decimal) (hv : Valid price d (.fill index f)) (h : InFlight hp price d) :
    InFlight hp price (d.step (.fill index f)) := by
  obtain ⟨o,ho,hsym,hside,-,hpos,hle⟩ := hv
  have hrem := take_remaining d.accepted index _ o ho hle h.remaining
  refine ⟨h.params,hrem,?_⟩
  intro s
  have hp0 : 0 ≤ (price s).raw := le_of_lt ((Decimal.lt_iff _ _).mp (hprice s))
  have hq0 : 0 ≤ f.fillQuantity.raw := le_of_lt ((Decimal.lt_iff _ _).mp hpos)
  have hb := outstanding_nonneg s .buy _ hrem
  have hs := outstanding_nonneg s .sell _ hrem
  have hr := h.reach s
  simp only [Desk.step, outstanding_take s _ d.accepted index _ o ho, quantity_after_fill] at hb hs ⊢
  rw [← hsym, ← hside] at hb hs ⊢
  by_cases hsy : f.symbolId = s
  · cases hfs : f.side with
    | buy =>
      simp only [hfs, hsy, signedQuantity, reduceCtorEq, and_true, and_false, if_true, if_false,
        sub_zero] at hb hs ⊢
      have hfill := reach_buy_filled _ _ _ _ _ _ hp0 hq0 hb hs hr
      have h1 := hfill.below
      have h2 := hfill.above
      rwa [Decimal.add_raw _ _ ⟨by omega,by omega⟩]
    | sell =>
      simp only [hfs, hsy, signedQuantity, reduceCtorEq, and_true, and_false, if_true, if_false,
        sub_zero] at hb hs ⊢
      have hfill := reach_sell_filled _ _ _ _ _ _ hp0 hq0 hb hs hr
      have h1 := hfill.below
      have h2 := hfill.above
      rwa [← sub_eq_add_neg, Decimal.sub_raw _ _ ⟨by omega,by omega⟩]
  · simpa only [hsy, false_and, if_false, sub_zero, add_zero] using hr

theorem step_inFlight (hp : HotParams) (price : ℕ → Decimal) (hprice : ∀ s, 0 < price s) (d : Desk)
    (a : DeskAction) (hok : Valid price d a ∧ OneOpen d a) (h : InFlight hp price d) :
    InFlight hp price (d.step a) := by
  cases a with
  | dispatch timestampUs strategyId => exact ⟨h.params,h.remaining,h.reach⟩
  | submit order t => exact submit_inFlight hp price d order t hok.1 hok.2 h
  | cancel orderId =>
    simp only [Desk.step, StrategyContext.cancelOrder]
    split <;> exact ⟨h.params,h.remaining,h.reach⟩
  | pop =>
    simp only [Desk.step]
    split <;> exact ⟨h.params,h.remaining,h.reach⟩
  | fill index f => exact fill_inFlight hp price hprice d index f hok.1 h

/-- The filled quantity lies between the two ends. -/
theorem inFlight_limit (hp : HotParams) (price : ℕ → Decimal) (hprice : ∀ s, 0 < price s) (d : Desk)
    (h : InFlight hp price d) (s : ℕ) :
    magnitude (d.ctx.positionManager.quantityOf s)*price s ≤ hp.maxPositionValue := by
  have hp0 : 0 ≤ (price s).raw := le_of_lt ((Decimal.lt_iff _ _).mp (hprice s))
  have hb := outstanding_nonneg s .buy _ h.remaining
  have hs := outstanding_nonneg s .sell _ h.remaining
  obtain ⟨hbelow,habove,hhigh,hlow⟩ := h.reach s
  have hx := exposure_between _ (d.ctx.positionManager.quantityOf s).raw _ _ _ hp0
    (by omega) (by omega) hlow hhigh
  have hl := hp.maxPositionValue.fits.2
  rw [Decimal.le_iff, value_raw _ _ (by omega) hp0 (by omega)]
  exact hx

/-- From a flat book and with one open order per symbol and side, no run of
submissions and fills takes a symbol over its limit. -/
theorem limit_with_orders_in_flight (price : ℕ → Decimal) (hprice : ∀ s, 0 < price s)
    (ctx : StrategyContext) (hflat : ∀ s, ctx.positionManager.quantityOf s = 0)
    (hlimit : 0 ≤ ctx.riskEngine.hotParams.maxPositionValue) (actions : List DeskAction)
    (hok : Schedule.Allowed Desk.step (fun d a => Valid price d a ∧ OneOpen d a) actions ⟨ctx,[]⟩)
    (s : ℕ) :
    magnitude ((Schedule.run Desk.step actions ⟨ctx,[]⟩).ctx.positionManager.quantityOf s)*price s ≤
      ctx.riskEngine.hotParams.maxPositionValue := by
  have h0 : InFlight ctx.riskEngine.hotParams price ⟨ctx,[]⟩ := by
    refine ⟨rfl,by simp,?_⟩
    intro s
    have hx : exposure 0 (price s).raw ≤ ctx.riskEngine.hotParams.maxPositionValue.raw := by
      simpa [exposure, quot_zero Decimal.one (by decide)] using (Decimal.le_iff _ _).mp hlimit
    rw [hflat s]
    exact ⟨by simp [outstanding],by simp [outstanding],hx,hx⟩
  exact inFlight_limit _ price hprice _
    (Schedule.invariant _ _ _ (step_inFlight _ price hprice) actions _ hok h0) s

end Reach

def narrowContext : StrategyContext where
  riskEngine :=
    { hotParams :=
        { maxOrderValue := .ofInt 1000
          maxPositionValue := .ofInt 150
          maxTotalPositionValue := .ofInt 1000000
          minAvailableCapital := 0 }
      availableCapital := .ofInt 1000000 }

def buyOne : OrderRequest where
  symbolId := 1
  price := .ofInt 100
  quantity := .ofInt 1

def buyOneFill : Fill Decimal where
  symbolId := 1
  fillPrice := .ofInt 100
  fillQuantity := .ofInt 1

def twoBuys : List DeskAction :=
  [.submit buyOne ⟨0,0⟩,.submit buyOne ⟨0,0⟩,.fill 0 buyOneFill,.fill 1 buyOneFill]

theorem twoBuys_break_limit :
    Schedule.Allowed Desk.step (Valid (fun _ => .ofInt 100)) twoBuys ⟨narrowContext,[]⟩ ∧
      ¬magnitude ((Schedule.run Desk.step twoBuys ⟨narrowContext,[]⟩).ctx.positionManager.quantityOf 1)
          *Decimal.ofInt 100 ≤ narrowContext.riskEngine.hotParams.maxPositionValue := by
  refine ⟨⟨⟨by decide,by decide,by decide,by decide,by decide⟩,
    ⟨by decide,by decide,by decide,by decide,by decide⟩,?_,?_,trivial⟩,by decide⟩
  · exact ⟨_,rfl,by decide,by decide,by decide,by decide,by decide⟩
  · exact ⟨_,rfl,by decide,by decide,by decide,by decide,by decide⟩

def buyThenSell : List DeskAction :=
  [.submit buyOne ⟨0,0⟩,.fill 0 buyOneFill,.submit { buyOne with side := .sell } ⟨0,0⟩]

theorem buyThenSell_within_limit :
    magnitude ((Schedule.run Desk.step buyThenSell ⟨narrowContext,[]⟩).ctx.positionManager.quantityOf 1)
      *Decimal.ofInt 100 ≤ Decimal.ofInt 150 := by
  refine limit_with_orders_in_flight (fun _ => .ofInt 100) (fun _ => by decide) narrowContext
    (fun _ => rfl) (by decide) buyThenSell ⟨⟨?_,?_⟩,⟨?_,trivial⟩,⟨?_,?_⟩,trivial⟩ 1
  · exact ⟨by decide,by decide,by decide,by decide,by decide⟩
  · exact fun o ho => absurd ho (List.not_mem_nil)
  · exact ⟨_,rfl,by decide,by decide,by decide,by decide,by decide⟩
  · exact ⟨by decide,by decide,by decide,by decide,by decide⟩
  · intro o ho _ hside
    obtain rfl := List.mem_singleton.mp ho
    exact absurd hside (by decide)

end Chronos.OrdersInFlight
