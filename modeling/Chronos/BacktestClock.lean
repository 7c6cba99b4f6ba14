import Chronos.BacktestSale

/-!
# Wall-clock readings in a backtest

The replay follows the times of the log, the rate limiter counts by the wall
clock. Two runs under different clocks go in lockstep, apart from the limiter's
own counts, as long as it refuses no check in either.
-/

set_option autoImplicit false

namespace Chronos
open KeyedTable Backtest

namespace BacktestEngine
variable {S : Type}

/-- The limits and the capital of two engines agree; what the limiter and the
statistics count may differ. -/
def SameLimits (r r' : RiskEngine) : Prop :=
  r'.hotParams = r.hotParams ∧ r'.availableCapital = r.availableCapital

def withChecks (e : BacktestEngine S) (r : RiskEngine) (checked : List RiskCall) :
    BacktestEngine S := { e with ctx := { e.ctx with riskEngine := r }, checked := checked }

def Alike (e e' : BacktestEngine S) : Prop :=
  ∃ r checked, SameLimits e.ctx.riskEngine r ∧ e' = e.withChecks r checked

section Checks
variable [NearestDivision.NearestDiv]

def Admits (c : RiskCall) : Prop :=
  RiskEngine.orderValueAbs c.order ≤ c.engine.hotParams.maxOrderValue →
    c.engine.rateAllows c.readings.limiterUs = true

instance (c : RiskCall) : Decidable (Admits c) := inferInstanceAs (Decidable (_ → _))

/-- No check so far was refused by the rate limiter. -/
def Unlimited (e : BacktestEngine S) : Prop := ∀ c ∈ e.checked, Admits c

instance (e : BacktestEngine S) : Decidable e.Unlimited :=
  inferInstanceAs (Decidable (∀ c ∈ e.checked, Admits c))

theorem passed_congr (r r' : RiskEngine) (pm : PositionManager) (order : OrderRequest)
    (t t' : ClockReadings) (hr : SameLimits r r') (h : Admits ⟨r,order,t⟩)
    (h' : Admits ⟨r',order,t'⟩) :
    (r'.checkOrder pm order t').2.passed = (r.checkOrder pm order t).2.passed := by
  obtain ⟨hparams,hcapital⟩ := hr
  have hiff : RiskEngine.Admitted r' pm order t'.limiterUs ↔
      RiskEngine.Admitted r pm order t.limiterUs := by
    constructor
    · rintro ⟨hvalue,-,hposition,htotal,hmin⟩
      rw [hparams] at hvalue hposition htotal hmin
      rw [hcapital] at hmin
      exact ⟨hvalue,h hvalue,hposition,htotal,hmin⟩
    · rintro ⟨hvalue,-,hposition,htotal,hmin⟩
      rw [← hparams] at hvalue hposition htotal hmin
      rw [← hcapital] at hmin
      exact ⟨hvalue,h' hvalue,hposition,htotal,hmin⟩
  rw [Bool.eq_iff_iff, RiskEngine.checkOrder_passed, RiskEngine.checkOrder_passed, hiff]

theorem checkOrder_sameLimits (r r' : RiskEngine) (pm pm' : PositionManager)
    (order : OrderRequest) (t t' : ClockReadings) (hr : SameLimits r r') :
    SameLimits (r.checkOrder pm order t).1 (r'.checkOrder pm' order t').1 := by
  obtain ⟨hparams,hcapital⟩ := RiskEngine.checkOrder_kept r pm order t
  obtain ⟨hparams',hcapital'⟩ := RiskEngine.checkOrder_kept r' pm' order t'
  exact ⟨by rw [hparams, hparams', hr.1],by rw [hcapital, hcapital', hr.2]⟩

theorem submitOrder_alike (ctx : StrategyContext) (r : RiskEngine) (order : OrderRequest)
    (t t' : ClockReadings) (hr : SameLimits ctx.riskEngine r) (h : Admits ⟨ctx.riskEngine,order,t⟩)
    (h' : Admits ⟨r,order,t'⟩) :
    ∃ r', SameLimits (ctx.submitOrder order t).1.riskEngine r' ∧
      ({ ctx with riskEngine := r } : StrategyContext).submitOrder order t' =
        ({ (ctx.submitOrder order t).1 with riskEngine := r' },(ctx.submitOrder order t).2) := by
  have hpassed := passed_congr ctx.riskEngine r ctx.positionManager order t t' hr h h'
  have hlimits := checkOrder_sameLimits ctx.riskEngine r ctx.positionManager ctx.positionManager
    order t t' hr
  refine ⟨(r.checkOrder ctx.positionManager order t').1,?_⟩
  unfold StrategyContext.submitOrder StrategyContext.enqueueOrder
  dsimp only
  rw [hpassed]
  split_ifs
  · exact ⟨hlimits,rfl⟩
  · dsimp only [StrategyContext.generate]
    cases StrategyContext.tryPush ctx.orderOutput { order with
      orderId := ctx.currentId
      timestampUs := ctx.timestampUs
      strategyId := ctx.currentStrategyId } with
    | none => exact ⟨hlimits,rfl⟩
    | some queue => exact ⟨hlimits,rfl⟩

omit [NearestDivision.NearestDiv] in
theorem cancelOrder_alike (ctx : StrategyContext) (r : RiskEngine) (orderId : ℕ)
    (hr : SameLimits ctx.riskEngine r) :
    ∃ r', SameLimits (ctx.cancelOrder orderId).1.riskEngine r' ∧
      ({ ctx with riskEngine := r } : StrategyContext).cancelOrder orderId =
        ({ (ctx.cancelOrder orderId).1 with riskEngine := r' },(ctx.cancelOrder orderId).2) := by
  refine ⟨r,?_⟩
  unfold StrategyContext.cancelOrder
  dsimp only
  cases StrategyContext.tryPush ctx.orderOutput
    { orderId := orderId, quantity := 0, timestampUs := ctx.timestampUs } with
  | none => exact ⟨hr,rfl⟩
  | some queue => exact ⟨hr,rfl⟩

end Checks

section Growth
variable [NearestDivision.NearestDiv] (clock : ℕ → ClockReadings)
variable (cfg : BacktestConfig Decimal) (strategy : Strategy S)

def history (e : BacktestEngine S) : RiskEngine × List RiskCall := (e.ctx.riskEngine,e.checked)

def CheckStep (x y : RiskEngine × List RiskCall) : Prop :=
  ∃ pm order t, y = ((x.1.checkOrder pm order t).1,x.2++[⟨x.1,order,t⟩])

def Further (x y : RiskEngine × List RiskCall) : Prop := Relation.ReflTransGen CheckStep x y

theorem further_checked {x y : RiskEngine × List RiskCall} (h : Further x y) : x.2 ⊆ y.2 := by
  induction h with
  | refl => exact List.Subset.refl _
  | tail _ hstep ih =>
    obtain ⟨pm,order,t,rfl⟩ := hstep
    exact List.Subset.trans ih (List.subset_append_left _ _)

theorem unlimited_of_further {e e' : BacktestEngine S} (h : Further e.history e'.history)
    (hu : Unlimited e') : Unlimited e := fun c hc => hu c (further_checked h hc)

theorem foldl_further {α : Type} (f : BacktestEngine S → α → BacktestEngine S)
    (hf : ∀ e x, Further e.history (f e x).history) (xs : List α) (e : BacktestEngine S) :
    Further e.history (xs.foldl f e).history := by
  induction xs generalizing e with
  | nil => exact Relation.ReflTransGen.refl
  | cons x xs ih => exact Relation.ReflTransGen.trans (hf e x) (ih (f e x))

theorem submitOrder_engine (ctx : StrategyContext) (order : OrderRequest) (t : ClockReadings) :
    (ctx.submitOrder order t).1.riskEngine =
      (ctx.riskEngine.checkOrder ctx.positionManager order t).1 := by
  unfold StrategyContext.submitOrder
  rcases ctx.enqueueOrder_cases order t with ⟨-,h⟩ | ⟨-,h | h⟩ <;> rw [h] <;> rfl

omit [NearestDivision.NearestDiv] in
theorem cancelOrder_engine (ctx : StrategyContext) (orderId : ℕ) :
    (ctx.cancelOrder orderId).1.riskEngine = ctx.riskEngine := by
  rcases ctx.cancelOrder_cases orderId with h | h <;> rw [h]

theorem submit_further (e : BacktestEngine S) (order : OrderRequest) :
    Further e.history (e.submitOrder clock order).1.history := by
  refine Relation.ReflTransGen.single ⟨e.ctx.positionManager,order,clock e.checked.length,?_⟩
  exact congrArg (·,e.checked++[e.nextCall clock order]) (submitOrder_engine e.ctx order _)

theorem call_further (c : Callback S) (e : BacktestEngine S) :
    Further e.history (call clock c e).history := by
  induction c generalizing e with
  | finish s => exact Relation.ReflTransGen.refl
  | submitOrder order next ih => exact Relation.ReflTransGen.trans (submit_further clock e order) (ih _ _)
  | cancelOrder orderId next ih =>
    have hcancel : e.history =
        ({ e with ctx := (e.ctx.cancelOrder orderId).1 } : BacktestEngine S).history :=
      congrArg (·,e.checked) (cancelOrder_engine e.ctx orderId).symm
    rw [hcancel]
    exact ih _ { e with ctx := (e.ctx.cancelOrder orderId).1 }
  | viewBook symbolId next ih => exact ih _ e
  | getPosition symbolId next ih => exact ih _ e
  | getAvailableCapital next ih => exact ih _ e
  | currentTimestampUs next ih => exact ih _ e

theorem drainOne_further (e : BacktestEngine S) (order : OrderRequest) :
    Further e.history (e.drainOne clock order).history := by
  refine Relation.ReflTransGen.single ⟨e.ctx.positionManager,order,clock e.checked.length,?_⟩
  unfold drainOne
  dsimp only
  split_ifs
  · rfl
  · rfl

theorem drainOrderQueue_further (e : BacktestEngine S) :
    Further e.history (e.drainOrderQueue clock).history :=
  foldl_further (drainOne clock) (drainOne_further clock) e.ctx.orderOutput
    { e with ctx := { e.ctx with orderOutput := [] } }

theorem fillOne_further (tick : Tick) (e : BacktestEngine S) (p : Backtest.PendingOrder Decimal) :
    Further e.history (fillOne clock cfg strategy tick e p).history := by
  unfold fillOne
  split_ifs
  · exact call_further clock (strategy.onFill e.strategy (fillOf cfg (e.quotes tick) p))
      (e.recordFill cfg tick p)
  · exact Relation.ReflTransGen.refl

theorem recordEquity_history (e : BacktestEngine S) (tick : Tick) :
    (e.recordEquity cfg tick).history = e.history := by
  unfold recordEquity
  split_ifs
  · rfl
  · rfl

theorem deliver_further (e : BacktestEngine S) (tick : Tick) :
    Further e.history (e.deliver clock strategy tick).history :=
  Relation.ReflTransGen.trans (call_further clock (strategy.onTick e.strategy tick) (e.showTick tick))
    (drainOrderQueue_further clock _)

theorem settle_further (e : BacktestEngine S) (tick : Tick) :
    Further e.history (e.settle clock cfg strategy tick).history := by
  rw [settle, recordEquity_history]
  exact foldl_further (fillOne clock cfg strategy tick) (fillOne_further clock cfg strategy tick)
    e.pending { e with pending := [] }

theorem tickCallback_further (e : BacktestEngine S) (tick : Tick) :
    Further e.history (tickCallback clock cfg strategy e tick).history :=
  Relation.ReflTransGen.trans (deliver_further clock strategy e tick)
    (settle_further clock cfg strategy (e.deliver clock strategy tick) tick)

theorem run_further (ticks : List Tick) :
    Further (prepared strategy).history (run clock cfg strategy ticks).history :=
  Relation.ReflTransGen.trans (call_further clock (strategy.onLoad strategy.new) (prepared strategy))
    (foldl_further _ (tickCallback_further clock cfg strategy) ticks (loaded clock cfg strategy))

end Growth

section Counts
variable [NearestDivision.NearestDiv]

theorem checkOrder_count (r : RiskEngine) (pm : PositionManager) (order : OrderRequest)
    (t : ClockReadings) :
    (r.checkOrder pm order t).1.ordersThisSecond ≤ r.ordersThisSecond+1 := by
  change (r.checkRate t.limiterUs _).1.ordersThisSecond ≤ _
  unfold RiskEngine.checkRate
  split_ifs
  · unfold RiskEngine.checkRateLimitInternal
    dsimp only
    refine Nat.le_trans (Nat.mod_le _ _) (Nat.add_le_add_right ?_ 1)
    split_ifs
    · exact Nat.zero_le _
    · exact Nat.le_refl _
  · exact Nat.le_succ _

structure Counted (x : RiskEngine × List RiskCall) : Prop where
  params : x.1.hotParams = riskParams
  count : x.1.ordersThisSecond ≤ x.2.length
  calls : ∀ c ∈ x.2, c.engine.hotParams = riskParams ∧ c.engine.ordersThisSecond < x.2.length

theorem further_counted {x y : RiskEngine × List RiskCall} (h : Further x y) (hx : Counted x) :
    Counted y := by
  induction h with
  | refl => exact hx
  | @tail y z _ hstep ih =>
    obtain ⟨pm,order,t,rfl⟩ := hstep
    have hcount := checkOrder_count y.1 pm order t
    constructor
    case params => exact (RiskEngine.checkOrder_kept y.1 pm order t).1.trans ih.params
    case count =>
      rw [List.length_append, List.length_singleton]
      exact Nat.le_trans hcount (Nat.add_le_add_right ih.count 1)
    case calls =>
      intro c hc
      rw [List.length_append, List.length_singleton]
      rcases List.mem_append.mp hc with hc | hc
      · exact ⟨(ih.calls c hc).1,Nat.lt_succ_of_lt (ih.calls c hc).2⟩
      · rw [List.mem_singleton.mp hc]
        exact ⟨ih.params,Nat.lt_succ_of_le ih.count⟩

/-- A run with at most a million checks never meets the rate limit. -/
theorem unlimited_of_few (clock : ℕ → ClockReadings) (cfg : BacktestConfig Decimal)
    (strategy : Strategy S) (ticks : List Tick)
    (h : (run clock cfg strategy ticks).checked.length ≤ 1000000) :
    Unlimited (run clock cfg strategy ticks) := by
  have hcounted := further_counted (run_further clock cfg strategy ticks)
    ⟨rfl,Nat.zero_le _,fun c hc => nomatch hc⟩
  intro c hc _
  obtain ⟨hparams,hcount⟩ := hcounted.calls c hc
  refine rateAllows_of_count c.engine _ ?_
  rw [hparams]
  exact Nat.lt_of_lt_of_le hcount h

end Counts

section Lockstep
variable [NearestDivision.NearestDiv] (clock clock' : ℕ → ClockReadings)
variable (cfg : BacktestConfig Decimal) (strategy : Strategy S)

/-- Two loops stay in lockstep if one turn does. -/
theorem foldl_alike {α : Type} (f f' : BacktestEngine S → α → BacktestEngine S)
    (hf : ∀ e x, Further e.history (f e x).history)
    (hf' : ∀ e x, Further e.history (f' e x).history)
    (hstep : ∀ e e' x, Alike e e' → Unlimited (f e x) → Unlimited (f' e' x) →
      Alike (f e x) (f' e' x)) (xs : List α) (e e' : BacktestEngine S) (h : Alike e e')
    (hu : Unlimited (xs.foldl f e)) (hu' : Unlimited (xs.foldl f' e')) :
    Alike (xs.foldl f e) (xs.foldl f' e') := by
  induction xs generalizing e e' with
  | nil => exact h
  | cons x xs ih =>
    exact ih _ _ (hstep e e' x h (unlimited_of_further (foldl_further f hf xs _) hu)
      (unlimited_of_further (foldl_further f' hf' xs _) hu')) hu hu'

theorem submit_alike (e e' : BacktestEngine S) (order : OrderRequest) (h : Alike e e')
    (hu : Unlimited (e.submitOrder clock order).1) (hu' : Unlimited (e'.submitOrder clock' order).1) :
    Alike (e.submitOrder clock order).1 (e'.submitOrder clock' order).1 ∧
      (e'.submitOrder clock' order).2 = (e.submitOrder clock order).2 := by
  obtain ⟨r,checked,hr,rfl⟩ := h
  have hadmits := hu _ (List.mem_append_right _ (List.mem_singleton_self (e.nextCall clock order)))
  have hadmits' := hu' _ (List.mem_append_right _
    (List.mem_singleton_self ((e.withChecks r checked).nextCall clock' order)))
  obtain ⟨r',hr',hsubmit⟩ := submitOrder_alike e.ctx r order (e.nextCall clock order).readings
    ((e.withChecks r checked).nextCall clock' order).readings hr hadmits hadmits'
  have hctx : (e.withChecks r checked).ctx.submitOrder order
      ((e.withChecks r checked).nextCall clock' order).readings =
      ({ (e.ctx.submitOrder order (e.nextCall clock order).readings).1 with riskEngine := r' },
        (e.ctx.submitOrder order (e.nextCall clock order).readings).2) := hsubmit
  unfold submitOrder
  dsimp only
  rw [hctx]
  exact ⟨⟨r',_,hr',rfl⟩,rfl⟩

theorem call_alike (c : Callback S) (e e' : BacktestEngine S) (h : Alike e e')
    (hu : Unlimited (call clock c e)) (hu' : Unlimited (call clock' c e')) :
    Alike (call clock c e) (call clock' c e') := by
  induction c generalizing e e' with
  | finish s =>
    obtain ⟨r,checked,hr,rfl⟩ := h
    exact ⟨r,checked,hr,rfl⟩
  | submitOrder order next ih =>
    simp only [call] at hu hu' ⊢
    obtain ⟨halike,hid⟩ := submit_alike clock clock' e e' order h
      (unlimited_of_further (call_further clock _ _) hu)
      (unlimited_of_further (call_further clock' _ _) hu')
    rw [hid] at hu' ⊢
    exact ih _ _ _ halike hu hu'
  | cancelOrder orderId next ih =>
    obtain ⟨r,checked,hr,rfl⟩ := h
    obtain ⟨r',hr',hctx⟩ := cancelOrder_alike e.ctx r orderId hr
    have hcancel : (e.withChecks r checked).ctx.cancelOrder orderId =
        ({ (e.ctx.cancelOrder orderId).1 with riskEngine := r' },(e.ctx.cancelOrder orderId).2) := hctx
    simp only [call] at hu hu' ⊢
    rw [hcancel] at hu' ⊢
    exact ih _ { e with ctx := (e.ctx.cancelOrder orderId).1 } _ ⟨r',checked,hr',rfl⟩ hu hu'
  | viewBook symbolId next ih =>
    obtain ⟨r,checked,hr,rfl⟩ := h
    exact ih _ e _ ⟨r,checked,hr,rfl⟩ hu hu'
  | getPosition symbolId next ih =>
    obtain ⟨r,checked,hr,rfl⟩ := h
    exact ih _ e _ ⟨r,checked,hr,rfl⟩ hu hu'
  | getAvailableCapital next ih =>
    obtain ⟨r,checked,hr,rfl⟩ := h
    have hcapital : (e.withChecks r checked).ctx.riskEngine.getAvailableCapital =
        e.ctx.riskEngine.getAvailableCapital := hr.2
    simp only [call] at hu hu' ⊢
    rw [hcapital] at hu' ⊢
    exact ih _ e _ ⟨r,checked,hr,rfl⟩ hu hu'
  | currentTimestampUs next ih =>
    obtain ⟨r,checked,hr,rfl⟩ := h
    exact ih _ e _ ⟨r,checked,hr,rfl⟩ hu hu'

theorem drainOne_checked (e : BacktestEngine S) (order : OrderRequest) :
    (e.drainOne clock order).checked = e.checked++[e.nextCall clock order] := by
  unfold drainOne
  dsimp only
  split_ifs
  · rfl
  · rfl

theorem drainOne_alike (e e' : BacktestEngine S) (order : OrderRequest) (h : Alike e e')
    (hu : Unlimited (e.drainOne clock order)) (hu' : Unlimited (e'.drainOne clock' order)) :
    Alike (e.drainOne clock order) (e'.drainOne clock' order) := by
  obtain ⟨r,checked,hr,rfl⟩ := h
  have hadmits := hu (e.nextCall clock order) (by rw [drainOne_checked]; simp)
  have hadmits' := hu' ((e.withChecks r checked).nextCall clock' order)
    (by rw [drainOne_checked]; simp)
  have hpassed := passed_congr e.ctx.riskEngine r e.ctx.positionManager order
    (e.nextCall clock order).readings ((e.withChecks r checked).nextCall clock' order).readings
    hr hadmits hadmits'
  have hlimits := checkOrder_sameLimits e.ctx.riskEngine r e.ctx.positionManager
    e.ctx.positionManager order (e.nextCall clock order).readings
    ((e.withChecks r checked).nextCall clock' order).readings hr
  unfold drainOne
  dsimp only
  have hsame : ((e.withChecks r checked).ctx.riskEngine.checkOrder
      (e.withChecks r checked).ctx.positionManager order
      ((e.withChecks r checked).nextCall clock' order).readings).2.passed =
      (e.ctx.riskEngine.checkOrder e.ctx.positionManager order
        (e.nextCall clock order).readings).2.passed := hpassed
  rw [hsame]
  split_ifs
  · exact ⟨_,_,hlimits,rfl⟩
  · exact ⟨_,_,hlimits,rfl⟩

theorem drainOrderQueue_alike (e e' : BacktestEngine S) (h : Alike e e')
    (hu : Unlimited (e.drainOrderQueue clock)) (hu' : Unlimited (e'.drainOrderQueue clock')) :
    Alike (e.drainOrderQueue clock) (e'.drainOrderQueue clock') := by
  obtain ⟨r,checked,hr,rfl⟩ := h
  exact foldl_alike (drainOne clock) (drainOne clock') (drainOne_further clock)
    (drainOne_further clock') (drainOne_alike clock clock') e.ctx.orderOutput _ _ ⟨r,checked,hr,rfl⟩ hu hu'

theorem deliver_alike (e e' : BacktestEngine S) (tick : Tick) (h : Alike e e')
    (hu : Unlimited (e.deliver clock strategy tick))
    (hu' : Unlimited (e'.deliver clock' strategy tick)) :
    Alike (e.deliver clock strategy tick) (e'.deliver clock' strategy tick) := by
  obtain ⟨r,checked,hr,rfl⟩ := h
  refine drainOrderQueue_alike clock clock' _ _ (call_alike clock clock' _ _ _ ⟨r,checked,hr,rfl⟩
    (unlimited_of_further (drainOrderQueue_further clock _) hu)
    (unlimited_of_further (drainOrderQueue_further clock' _) hu')) hu hu'

theorem fillOne_alike (tick : Tick) (e e' : BacktestEngine S) (p : Backtest.PendingOrder Decimal)
    (h : Alike e e') (hu : Unlimited (fillOne clock cfg strategy tick e p))
    (hu' : Unlimited (fillOne clock' cfg strategy tick e' p)) :
    Alike (fillOne clock cfg strategy tick e p) (fillOne clock' cfg strategy tick e' p) := by
  obtain ⟨r,checked,hr,rfl⟩ := h
  have hquotes : (e.withChecks r checked).quotes tick = e.quotes tick := rfl
  unfold fillOne at hu hu' ⊢
  rw [hquotes] at hu' ⊢
  split_ifs at hu hu' ⊢
  · exact call_alike clock clock' _ _ _ ⟨r,checked,hr,rfl⟩ hu hu'
  · exact ⟨r,checked,hr,rfl⟩

theorem simulateFills_alike (e e' : BacktestEngine S) (tick : Tick) (h : Alike e e')
    (hu : Unlimited (e.simulateFillsForPending clock cfg strategy tick))
    (hu' : Unlimited (e'.simulateFillsForPending clock' cfg strategy tick)) :
    Alike (e.simulateFillsForPending clock cfg strategy tick)
      (e'.simulateFillsForPending clock' cfg strategy tick) := by
  obtain ⟨r,checked,hr,rfl⟩ := h
  exact foldl_alike (fillOne clock cfg strategy tick) (fillOne clock' cfg strategy tick)
    (fillOne_further clock cfg strategy tick) (fillOne_further clock' cfg strategy tick)
    (fillOne_alike clock clock' cfg strategy tick) e.pending { e with pending := [] } _
    ⟨r,checked,hr,rfl⟩ hu hu'

theorem recordEquity_alike (e e' : BacktestEngine S) (tick : Tick)
    (h : Alike e e') : Alike (e.recordEquity cfg tick) (e'.recordEquity cfg tick) := by
  obtain ⟨r,checked,hr,rfl⟩ := h
  unfold recordEquity
  split_ifs
  · exact ⟨r,checked,hr,rfl⟩
  · exact ⟨r,checked,hr,rfl⟩

theorem settle_alike (e e' : BacktestEngine S) (tick : Tick) (h : Alike e e')
    (hu : Unlimited (e.settle clock cfg strategy tick))
    (hu' : Unlimited (e'.settle clock' cfg strategy tick)) :
    Alike (e.settle clock cfg strategy tick) (e'.settle clock' cfg strategy tick) := by
  have hsettled : ∀ (clock : ℕ → ClockReadings) (e : BacktestEngine S),
      Unlimited (e.settle clock cfg strategy tick) →
        Unlimited (e.simulateFillsForPending clock cfg strategy tick) := by
    intro clock e hu
    have hchecked : (e.settle clock cfg strategy tick).checked =
        (e.simulateFillsForPending clock cfg strategy tick).checked :=
      congrArg Prod.snd (recordEquity_history cfg _ tick)
    rw [Unlimited, hchecked] at hu
    exact hu
  exact recordEquity_alike cfg _ _ tick (simulateFills_alike clock clock' cfg strategy e e' tick h
    (hsettled clock e hu) (hsettled clock' e' hu'))

theorem tickCallback_alike (e e' : BacktestEngine S) (tick : Tick) (h : Alike e e')
    (hu : Unlimited (tickCallback clock cfg strategy e tick))
    (hu' : Unlimited (tickCallback clock' cfg strategy e' tick)) :
    Alike (tickCallback clock cfg strategy e tick) (tickCallback clock' cfg strategy e' tick) :=
  settle_alike clock clock' cfg strategy _ _ tick (deliver_alike clock clock' strategy e e' tick h
    (unlimited_of_further (settle_further clock cfg strategy _ tick) hu)
    (unlimited_of_further (settle_further clock' cfg strategy _ tick) hu')) hu hu'

/-- Whatever the strategy and the log, two runs in which the rate limiter refuses
no check have the same positions, waiting orders, trades, equity and fills. -/
theorem clocks_agree (ticks : List Tick) (hu : Unlimited (run clock cfg strategy ticks))
    (hu' : Unlimited (run clock' cfg strategy ticks)) :
    (run clock' cfg strategy ticks).ledger = (run clock cfg strategy ticks).ledger := by
  have hmore := foldl_further _ (tickCallback_further clock cfg strategy) ticks (loaded clock cfg strategy)
  have hmore' := foldl_further _ (tickCallback_further clock' cfg strategy) ticks
    (loaded clock' cfg strategy)
  obtain ⟨r,checked,hr,hloaded⟩ := call_alike clock clock' (strategy.onLoad strategy.new)
    (prepared strategy) (prepared strategy) ⟨_,_,⟨rfl,rfl⟩,rfl⟩
    (fun c hc => hu c (further_checked hmore hc)) (fun c hc => hu' c (further_checked hmore' hc))
  have hstart : Alike (loaded clock cfg strategy) (loaded clock' cfg strategy) := by
    refine ⟨r,checked,hr,?_⟩
    unfold loaded
    rw [hloaded]
    rfl
  obtain ⟨r',checked',-,hsame⟩ := foldl_alike (tickCallback clock cfg strategy)
    (tickCallback clock' cfg strategy) (tickCallback_further clock cfg strategy)
    (tickCallback_further clock' cfg strategy) (tickCallback_alike clock clock' cfg strategy)
    ticks _ _ hstart hu hu'
  have hledger := congrArg ledger hsame
  exact hledger

end Lockstep
section Burst

def largeBuy : OrderRequest := { symbolId := 1, price := .ofInt 995000, quantity := .ofInt 1 }

def buyMany : ℕ → Callback Unit
  | 0 => .finish ()
  | n+1 => .submitOrder largeBuy (fun _ => buyMany n)

def burst (n : ℕ) : Strategy Unit where
  new := ()
  onLoad _ := .finish ()
  onTick _ _ := .submitOrder (smallSell 1 0 0) (fun _ => buyMany n)
  onFill _ _ := .finish ()

def burstClock (later n : ℕ) : ClockReadings := if n < 1000000 then ⟨0,0⟩ else ⟨later,later⟩

theorem burstClock_monotone (later : ℕ) : Monotone (fun n => (burstClock later n).limiterUs) := by
  intro m n hmn
  unfold burstClock
  dsimp only
  split_ifs with hm hn
  · exact Nat.le_refl _
  · exact Nat.zero_le _
  · omega
  · exact Nat.le_refl _

theorem largeBuy_refused (k : ℕ) (r : RiskEngine) (pm : PositionManager) (t : ClockReadings)
    (h : Counting k r) : (r.checkOrder pm largeBuy t).2.passed = false := by
  rw [Bool.eq_false_iff]
  intro hpassed
  have hcapital := ((RiskEngine.checkOrder_passed r pm largeBuy t).mp hpassed).capital
  rw [h.params, h.capital] at hcapital
  revert hcapital
  decide +kernel

theorem buyMany_call (later n k : ℕ) (e : BacktestEngine Unit) (h : Counting k e.ctx.riskEngine)
    (hchecked : e.checked.length = k) (hk : k+n ≤ 1000000) :
    Counting (k+n) (call (burstClock later) (buyMany n) e).ctx.riskEngine ∧
      (call (burstClock later) (buyMany n) e).checked.length = k+n ∧
      (call (burstClock later) (buyMany n) e).ctx.orderOutput = e.ctx.orderOutput ∧
      (call (burstClock later) (buyMany n) e).ctx.positionManager = e.ctx.positionManager := by
  induction n generalizing k e with
  | zero => exact ⟨h,hchecked,rfl,rfl⟩
  | succ n ih =>
    have hreadings : (e.nextCall (burstClock later) largeBuy).readings = ⟨0,0⟩ := by
      change burstClock later e.checked.length = _
      rw [hchecked, burstClock, if_pos (by omega)]
    have hrefused := largeBuy_refused k e.ctx.riskEngine e.ctx.positionManager
      (e.nextCall (burstClock later) largeBuy).readings h
    have hsubmit : e.ctx.submitOrder largeBuy (e.nextCall (burstClock later) largeBuy).readings =
        ({ e.ctx with
          riskEngine := (e.ctx.riskEngine.checkOrder e.ctx.positionManager largeBuy
            (e.nextCall (burstClock later) largeBuy).readings).1
          ordersRiskRejected := e.ctx.ordersRiskRejected+1 },0) := by
      rw [StrategyContext.submitOrder, StrategyContext.enqueueOrder_rejected _ _ _ hrefused]
      rfl
    have hvalue : RiskEngine.orderValueAbs largeBuy ≤ riskParams.maxOrderValue := by decide +kernel
    have hcounting := checkOrder_counting k e.ctx.riskEngine e.ctx.positionManager largeBuy
      (e.nextCall (burstClock later) largeBuy).readings h (by omega) (by rw [hreadings]) hvalue
    have hstep : call (burstClock later) (buyMany (n+1)) e =
        call (burstClock later) (buyMany n) (e.submitOrder (burstClock later) largeBuy).1 := rfl
    have hctx : (e.submitOrder (burstClock later) largeBuy).1.ctx = { e.ctx with
        riskEngine := (e.ctx.riskEngine.checkOrder e.ctx.positionManager largeBuy
          (e.nextCall (burstClock later) largeBuy).readings).1
        ordersRiskRejected := e.ctx.ordersRiskRejected+1 } := congrArg Prod.fst hsubmit
    have hlength : (e.submitOrder (burstClock later) largeBuy).1.checked.length = k+1 := by
      change (e.checked++[_]).length = k+1
      rw [List.length_append, hchecked]
      rfl
    obtain ⟨hcount,hmany,houtput,hmanager⟩ := ih (k+1) (e.submitOrder (burstClock later) largeBuy).1
      (by rw [hctx]; exact hcounting) hlength (by omega)
    rw [hctx] at houtput hmanager
    have hsum : k+1+n = k+(n+1) := by omega
    rw [hsum] at hcount hmany
    rw [hstep]
    exact ⟨hcount,hmany,houtput,hmanager⟩

def firstBid : Tick := StrategyEngine.bidTick 1 1

def burstConfig : BacktestConfig Decimal := { initialCapital := 0 }

def atFirstTick : BacktestEngine Unit :=
  ({ prepared (burst 0) with equity := [(0,initialEquity burstConfig)] } :
    BacktestEngine Unit).showTick firstBid

theorem atFirstTick_submit (later : ℕ) :
    (atFirstTick.submitOrder (burstClock later) (smallSell 1 0 0)).1.ctx.orderOutput = [smallSell 1 1 1] ∧
      (atFirstTick.submitOrder (burstClock later) (smallSell 1 0 0)).1.ctx.positionManager = {} ∧
      Counting 1 (atFirstTick.submitOrder (burstClock later) (smallSell 1 0 0)).1.ctx.riskEngine := by
  have hstart : Counting 0 atFirstTick.ctx.riskEngine := ⟨rfl,rfl,rfl,rfl⟩
  rw [smallSell_submitted (burstClock later) 1 0 atFirstTick hstart (by decide) rfl rfl]
  refine ⟨rfl,rfl,?_⟩
  exact checkOrder_counting 0 _ {} (smallSell 1 0 0) _ hstart (by decide) rfl
    (by rw [smallSell_value]; decide)

/-- What waits after the queue was drained depends on the last reading. -/
theorem burst_pending (later n : ℕ) (hn : 1+n = 1000000) :
    ∃ r, Counting 1000000 r ∧
      ((loaded (burstClock later) burstConfig (burst n)).deliver (burstClock later)
          (burst n) firstBid).pending =
        if r.rateAllows later then [pendingOf (smallSell 1 1 1) 0] else [] := by
  have hdeliver : (loaded (burstClock later) burstConfig (burst n)).deliver (burstClock later)
      (burst n) firstBid = (call (burstClock later) (buyMany n)
        (atFirstTick.submitOrder (burstClock later) (smallSell 1 0 0)).1).drainOrderQueue
          (burstClock later) := rfl
  obtain ⟨houtput,hmanager,hcounting⟩ := atFirstTick_submit later
  obtain ⟨hcount,hmany,hqueue,hpm⟩ := buyMany_call later n 1
    (atFirstTick.submitOrder (burstClock later) (smallSell 1 0 0)).1 hcounting rfl (le_of_eq hn)
  obtain ⟨hledger,-,-,hts⟩ := call_market (burstClock later) (buyMany n)
    (atFirstTick.submitOrder (burstClock later) (smallSell 1 0 0)).1
  rw [houtput] at hqueue
  rw [hmanager] at hpm
  rw [hn] at hcount hmany
  rw [hdeliver]
  generalize call (burstClock later) (buyMany n)
    (atFirstTick.submitOrder (burstClock later) (smallSell 1 0 0)).1 = e at *
  have hpending : e.pending = [] := congrArg Ledger.pending hledger
  have htime : e.currentTickTs = 0 := hts
  refine ⟨e.ctx.riskEngine,hcount,?_⟩
  rw [smallSell_drained (burstClock later) 1 1 1 1000000 e hcount hpm hpending hqueue, hmany, htime,
    burstClock, if_neg (lt_irrefl _)]

theorem burst_fills (later n : ℕ) (hn : 1+n = 1000000) :
    ∃ r, Counting 1000000 r ∧
      (run (burstClock later) burstConfig (burst n) [firstBid]).fills.length =
        if r.rateAllows later then 1 else 0 := by
  obtain ⟨r,hr,hpending⟩ := burst_pending later n hn
  refine ⟨r,hr,?_⟩
  let e := (loaded (burstClock later) burstConfig (burst n)).deliver (burstClock later) (burst n) firstBid
  have hbook : e.book = ({} : OrderBookV2).update firstBid := by
    obtain ⟨pending,-,hbook,-⟩ := deliver_ledger (burstClock later) (burst n) firstBid
      (loaded (burstClock later) burstConfig (burst n))
    exact hbook
  have hstart : e.fills = [] :=
    (deliver_history (burstClock later) (burst n)
      (loaded (burstClock later) burstConfig (burst n)) firstBid).1
  change (e.settle (burstClock later) burstConfig (burst n) firstBid).fills.length = _
  split_ifs at hpending ⊢
  · rw [smallSell_filled (burstClock later) burstConfig (burst n) e firstBid 1 1 1 0 1 1 hpending hbook,
      hstart]
    rfl
  · rw [(settle_history (burstClock later) burstConfig (burst n) e firstBid).1, hstart, hpending]
    rfl

/-- A burst of a million checks and one more: in one second the sale is refused
when the queue is drained, with the last reading in the next second it is filled. -/
theorem burst_differs :
    (∀ later, Monotone (fun n => (burstClock later n).limiterUs)) ∧
      (run (burstClock 0) burstConfig (burst 999999) [firstBid]).fills.length = 0 ∧
      (run (burstClock 1000000) burstConfig (burst 999999) [firstBid]).fills.length = 1 := by
  have hmax : riskParams.maxOrdersPerSecond = 1000000 := rfl
  refine ⟨burstClock_monotone,?_,?_⟩
  · obtain ⟨r,hr,hfills⟩ := burst_fills 0 999999 (by decide)
    have hsecond : r.currentSecond = currentSecondSinceEpoch 0 := hr.second
    have hrefused : r.rateAllows 0 = false := by
      simp [RiskEngine.rateAllows, RiskEngine.checkRateLimitInternal, hsecond, hr.count, hr.params, hmax]
    rw [hfills, hrefused]
    rfl
  · obtain ⟨r,hr,hfills⟩ := burst_fills 1000000 999999 (by decide)
    have hsecond : r.currentSecond ≠ currentSecondSinceEpoch 1000000 := by
      rw [hr.second]
      decide
    have hallowed : r.rateAllows 1000000 = true := by
      simp [RiskEngine.rateAllows, RiskEngine.checkRateLimitInternal, hsecond, hr.params, hmax]
    rw [hfills, hallowed]
    rfl

/-- With one order to buy, the sale fills under either clock. -/
theorem shortBurst_agrees :
    (run (fun n => ⟨n*700000,n*700000⟩) burstConfig (burst 1) [firstBid]).ledger =
      (run (fun _ => ⟨0,0⟩) burstConfig (burst 1) [firstBid]).ledger :=
  clocks_agree (fun _ => ⟨0,0⟩) (fun n => ⟨n*700000,n*700000⟩) burstConfig (burst 1) [firstBid]
    (by decide +kernel) (by decide +kernel)

end Burst

end BacktestEngine
end Chronos
