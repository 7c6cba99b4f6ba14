import Chronos.BacktestEngine

/-!
# One sale in a backtest

A small order to sell is within every limit but possibly that of the rate
limiter. It is queued when it is submitted, waits once the queue was drained,
and is filled as soon as there is a bid.
-/

set_option autoImplicit false

namespace Chronos
open KeyedTable Backtest

namespace BacktestEngine
variable {S : Type}

section Limits
variable [NearestDivision.NearestDiv]

omit [NearestDivision.NearestDiv] in
theorem rateAllows_of_count (r : RiskEngine) (nowUs : ℕ)
    (h : r.ordersThisSecond < r.hotParams.maxOrdersPerSecond) : r.rateAllows nowUs = true := by
  unfold RiskEngine.rateAllows RiskEngine.checkRateLimitInternal
  simp only [RiskEngine.readHotParamsOptimistic_eq]
  split_ifs
  · exact decide_eq_true (Nat.lt_of_le_of_lt (Nat.zero_le _) h)
  · exact decide_eq_true h

theorem checkOrder_limiter (r : RiskEngine) (pm : PositionManager) (order : OrderRequest)
    (t : ClockReadings) (hvalue : RiskEngine.orderValueAbs order ≤ r.hotParams.maxOrderValue) :
    (r.checkOrder pm order t).1.currentSecond = (r.checkRateLimitInternal t.limiterUs).1.currentSecond ∧
      (r.checkOrder pm order t).1.ordersThisSecond =
        (r.checkRateLimitInternal t.limiterUs).1.ordersThisSecond := by
  change (r.checkRate t.limiterUs (RiskEngine.checkOrderValue _ order
      { RiskCheckResult.accept with checkTimestampUs := t.checkUs })).1.currentSecond = _ ∧
    (r.checkRate t.limiterUs (RiskEngine.checkOrderValue _ order
      { RiskCheckResult.accept with checkTimestampUs := t.checkUs })).1.ordersThisSecond = _
  have hpassed := (RiskEngine.checkOrderValue_passed (r.readHotParamsOptimistic RiskEngine.gather)
    order { RiskCheckResult.accept with checkTimestampUs := t.checkUs }).mpr
      ⟨by rw [RiskEngine.readHotParamsOptimistic_eq]; exact hvalue,rfl⟩
  unfold RiskEngine.checkRate
  rw [if_pos hpassed]
  exact ⟨rfl,rfl⟩

structure Counting (k : ℕ) (r : RiskEngine) : Prop where
  params : r.hotParams = riskParams
  capital : r.availableCapital = .ofInt 1000000
  second : r.currentSecond = 0
  count : r.ordersThisSecond = k

theorem checkOrder_counting (k : ℕ) (r : RiskEngine) (pm : PositionManager) (order : OrderRequest)
    (t : ClockReadings) (h : Counting k r) (hk : k+1 < 2^32) (ht : t.limiterUs = 0)
    (hvalue : RiskEngine.orderValueAbs order ≤ riskParams.maxOrderValue) :
    Counting (k+1) (r.checkOrder pm order t).1 := by
  obtain ⟨hparams,hcapital⟩ := RiskEngine.checkOrder_kept r pm order t
  obtain ⟨hsecond,hcount⟩ := checkOrder_limiter r pm order t (by rw [h.params]; exact hvalue)
  have hzero : r.currentSecond = currentSecondSinceEpoch 0 := h.second
  constructor
  case params => exact hparams.trans h.params
  case capital => exact hcapital.trans h.capital
  case second =>
    rw [hsecond, ht, RiskEngine.checkRateLimitInternal]
    simp only [hzero, ne_eq, not_true, if_false]
    rfl
  case count =>
    rw [hcount, ht, RiskEngine.checkRateLimitInternal]
    simp only [hzero, ne_eq, not_true, if_false, h.count]
    exact Nat.mod_eq_of_lt hk

end Limits

section Sale
variable [NearestDivision.NearestDiv] (clock : ℕ → ClockReadings)

def smallSell (symbolId orderId strategyId : ℕ) : OrderRequest where
  orderId := orderId
  strategyId := strategyId
  symbolId := symbolId
  price := .ofInt 1
  quantity := .ofInt 1
  side := .sell

theorem mul_ofInt_one (a : Decimal) : a*.ofInt 1 = a := by
  have hone : (Decimal.ofInt 1).raw = Decimal.one := by decide
  rw [Decimal.mul_def, hone, mul_comm, NearestDivision.quot_exact a.raw Decimal.one (by decide),
    Decimal.wrap_self]

theorem smallSell_value (symbolId orderId strategyId : ℕ) :
    RiskEngine.orderValueAbs (smallSell symbolId orderId strategyId) = .ofInt 1 := by
  rw [RiskEngine.orderValueAbs, smallSell, mul_ofInt_one]
  change magnitude (Decimal.ofInt 1) = _
  decide

theorem smallSell_projected (symbolId orderId strategyId : ℕ) :
    RiskEngine.projectedValue {} (smallSell symbolId orderId strategyId) = .ofInt 1 := by
  rw [RiskEngine.projectedValue, smallSell, mul_ofInt_one]
  change magnitude (0+ -(Decimal.ofInt 1)) = _
  decide

theorem smallSell_passed (symbolId orderId strategyId k : ℕ) (r : RiskEngine) (t : ClockReadings)
    (h : Counting k r) :
    (r.checkOrder {} (smallSell symbolId orderId strategyId) t).2.passed =
      r.rateAllows t.limiterUs := by
  rw [Bool.eq_iff_iff, RiskEngine.checkOrder_passed]
  refine ⟨RiskEngine.Admitted.rate,fun hrate => ?_⟩
  constructor
  case orderValue =>
    rw [smallSell_value, h.params]
    decide
  case rate => exact hrate
  case position =>
    rw [smallSell_projected, h.params]
    decide
  case total =>
    rw [h.params]
    decide
  case capital =>
    rw [smallSell_value, h.params, h.capital]
    decide

theorem smallSell_submitted (symbolId k : ℕ) (e : BacktestEngine S) (h : Counting k e.ctx.riskEngine)
    (hk : k < 1000000) (hpm : e.ctx.positionManager = {}) (hqueue : e.ctx.orderOutput = []) :
    (e.submitOrder clock (smallSell symbolId 0 0)).1.ctx = { e.ctx with
      riskEngine := (e.ctx.riskEngine.checkOrder {} (smallSell symbolId 0 0)
        (clock e.checked.length)).1
      currentId := (e.ctx.currentId+1)%2^64
      orderOutput := [{ smallSell symbolId e.ctx.currentId e.ctx.currentStrategyId with
        timestampUs := e.ctx.timestampUs }]
      ordersSubmitted := e.ctx.ordersSubmitted+1 } := by
  have hallows : e.ctx.riskEngine.rateAllows (clock e.checked.length).limiterUs = true :=
    rateAllows_of_count _ _ (by rw [h.count, h.params]; exact hk)
  have hpassed := smallSell_passed symbolId 0 0 k e.ctx.riskEngine (clock e.checked.length) h
  rw [hallows] at hpassed
  rw [← hpm] at hpassed
  have hroom : e.ctx.orderOutput.length < StrategyContext.orderQueueCapacity := by
    rw [hqueue]
    decide
  change (e.ctx.submitOrder (smallSell symbolId 0 0) (clock e.checked.length)).1 = _
  rw [StrategyContext.submitOrder, StrategyContext.enqueueOrder_enqueued _ _ _ hpassed hroom, hqueue,
    ← hpm]
  rfl

theorem smallSell_drained (symbolId orderId strategyId k : ℕ) (e : BacktestEngine S)
    (h : Counting k e.ctx.riskEngine) (hpm : e.ctx.positionManager = {}) (hpending : e.pending = [])
    (hqueue : e.ctx.orderOutput = [smallSell symbolId orderId strategyId]) :
    (e.drainOrderQueue clock).pending =
      if e.ctx.riskEngine.rateAllows (clock e.checked.length).limiterUs then
        [pendingOf (smallSell symbolId orderId strategyId) e.currentTickTs]
      else [] := by
  have hpassed := smallSell_passed symbolId orderId strategyId k e.ctx.riskEngine
    (clock e.checked.length) h
  unfold drainOrderQueue
  rw [hqueue, List.foldl_cons, List.foldl_nil, drainOne_pending]
  change markCancelled (smallSell symbolId orderId strategyId) e.pending++
    (if (e.ctx.riskEngine.checkOrder e.ctx.positionManager (smallSell symbolId orderId strategyId)
      (clock e.checked.length)).2.passed then
        [pendingOf (smallSell symbolId orderId strategyId) e.currentTickTs] else []) = _
  rw [hpm, hpassed, hpending, markCancelled, List.map_nil, ite_self, List.nil_append]

theorem smallSell_filled (cfg : BacktestConfig Decimal) (strategy : Strategy S) (e : BacktestEngine S)
    (tick : Tick) (symbolId orderId strategyId placedAtUs exchangeId other : ℕ)
    (hpending : e.pending = [pendingOf (smallSell symbolId orderId strategyId) placedAtUs])
    (hbook : e.book = ({} : OrderBookV2).update (StrategyEngine.bidTick exchangeId other)) :
    (e.settle clock cfg strategy tick).fills =
      e.fills++[(pendingOf (smallSell symbolId orderId strategyId) placedAtUs,
        fillOf cfg (e.quotes tick) (pendingOf (smallSell symbolId orderId strategyId) placedAtUs))] := by
  have hbid : (e.quotes tick).bestBid = some (.ofInt 1) := by
    change e.book.getBestBid.getD none = _
    rw [hbook, StrategyEngine.bidTick_bestBid]
    rfl
  have hliquid : hasLiquidity (e.quotes tick)
      (pendingOf (smallSell symbolId orderId strategyId) placedAtUs).side = true := by
    change (e.quotes tick).bestBid.isSome = true
    rw [hbid]
    rfl
  rw [(settle_history clock cfg strategy e tick).1, hpending, newFills_cons, if_pos hliquid]
  rfl

end Sale
end BacktestEngine
end Chronos
