import Chronos.BacktestLedger
import Chronos.MarketIsolation
import Chronos.PositionConservation

/-!
# The backtest engine

`run` loads a strategy and replays the ticks of a log. A strategy is any
program over its context: in each callback it asks one thing after the other,
and what it asks next may depend on every answer. The clock gives the readings
of each risk check in turn. An engine is run once.
-/

set_option autoImplicit false

namespace Chronos
open KeyedTable

namespace Backtest

inductive Callback (S : Type) where
  | finish (s : S)
  | submitOrder (order : OrderRequest) (next : ℕ → Callback S)
  | cancelOrder (orderId : ℕ) (next : Bool → Callback S)
  | viewBook (symbolId : ℕ) (next : StrategyEngine.View → Callback S)
  | getPosition (symbolId : ℕ) (next : Option (Position Decimal) → Callback S)
  | getAvailableCapital (next : Decimal → Callback S)
  | currentTimestampUs (next : ℕ → Callback S)

structure Strategy (S : Type) where
  new : S
  onLoad : S → Callback S
  onTick : S → Tick → Callback S
  onFill : S → Fill Decimal → Callback S

structure RiskCall where
  engine : RiskEngine
  order : OrderRequest
  readings : ClockReadings

end Backtest

open Backtest in
/-- `checked` lists the risk checks made so far; it and `fills` are history. -/
structure BacktestEngine (S : Type) where
  strategy : S
  ctx : StrategyContext
  orderBooks : Table ℕ OrderBookV2
  book : OrderBookV2 := .new
  pending : List (Backtest.PendingOrder Decimal) := []
  trades : List (Trade Decimal) := []
  equity : List (ℕ × Decimal) := []
  fills : List (Backtest.PendingOrder Decimal × Fill Decimal) := []
  currentTickTs : ℕ := 0
  checked : List RiskCall := []

namespace BacktestEngine
open Backtest
variable {S : Type}

def riskParams : HotParams :=
  { RiskEngine.defaultParams with
    maxOrderValue := .ofInt 1000000
    maxPositionValue := .ofInt 1000000
    maxOrdersPerSecond := 1000000
    maxTotalPositionValue := .ofInt 10000000
    version := 2 }

def prepared (strategy : Strategy S) : BacktestEngine S where
  strategy := strategy.new
  ctx := {
    riskEngine := { RiskEngine.initial with hotParams := riskParams }
    currentStrategyId := currentStrategyId }
  orderBooks := Table.empty.assign 1 .new

def initialEquity (cfg : BacktestConfig Decimal) : Decimal :=
  if cfg.initialCapital = 0 then .ofInt 10000 else cfg.initialCapital

section Run
variable [NearestDivision.NearestDiv]

def view (e : BacktestEngine S) (symbolId : ℕ) : StrategyEngine.View :=
  ({ ctx := e.ctx, orderBooks := e.orderBooks, strategies := [] } : StrategyEngine).view symbolId

variable (clock : ℕ → ClockReadings)

def nextCall (e : BacktestEngine S) (order : OrderRequest) : RiskCall :=
  ⟨e.ctx.riskEngine,order,clock e.checked.length⟩

def submitOrder (e : BacktestEngine S) (order : OrderRequest) : BacktestEngine S × ℕ :=
  let c := e.nextCall clock order
  let (ctx,id) := e.ctx.submitOrder order c.readings
  ({ e with ctx := ctx, checked := e.checked++[c] },id)

def call : Callback S → BacktestEngine S → BacktestEngine S
  | .finish s, e => { e with strategy := s }
  | .submitOrder order next, e =>
    call (next (e.submitOrder clock order).2) (e.submitOrder clock order).1
  | .cancelOrder orderId next, e =>
    call (next (e.ctx.cancelOrder orderId).2) { e with ctx := (e.ctx.cancelOrder orderId).1 }
  | .viewBook symbolId next, e => call (next (e.view symbolId)) e
  | .getPosition symbolId next, e => call (next (e.ctx.positionManager.getPosition symbolId)) e
  | .getAvailableCapital next, e => call (next e.ctx.riskEngine.getAvailableCapital) e
  | .currentTimestampUs next, e => call (next e.ctx.timestampUs) e

/-- A cancel request has no strategy number; those of `submitOrder` have one. -/
def isCancel (strategyId : ℕ) : Bool := strategyId = 0

def markCancelled (order : OrderRequest) (pending : List (Backtest.PendingOrder Decimal)) :
    List (Backtest.PendingOrder Decimal) :=
  if isCancel order.strategyId then
    pending.map (fun p => if p.orderId = order.orderId ∧ !isCancel p.strategyId then
      { p with cancelled := true } else p)
  else pending

def pendingOf (order : OrderRequest) (placedAtUs : ℕ) : Backtest.PendingOrder Decimal where
  orderId := order.orderId
  symbolId := order.symbolId
  side := order.side
  price := order.price
  quantity := order.quantity
  placedAtUs := placedAtUs
  strategyId := order.strategyId

def drainOne (e : BacktestEngine S) (order : OrderRequest) : BacktestEngine S :=
  let c := e.nextCall clock order
  let result := e.ctx.riskEngine.checkOrder e.ctx.positionManager order c.readings
  let pending := markCancelled order e.pending
  if result.2.passed then
    { e with
      checked := e.checked++[c]
      ctx := { e.ctx with riskEngine := result.1 }
      pending := pending++[pendingOf order e.currentTickTs] }
  else
    { e with
      checked := e.checked++[c]
      ctx := { e.ctx with
        riskEngine := result.1
        ordersRiskRejected := e.ctx.ordersRiskRejected+1 }
      pending := pending }

theorem drainOne_pending (e : BacktestEngine S) (order : OrderRequest) :
    (e.drainOne clock order).pending = markCancelled order e.pending++
      (if (e.ctx.riskEngine.checkOrder e.ctx.positionManager order
          (e.nextCall clock order).readings).2.passed then [pendingOf order e.currentTickTs]
        else []) := by
  unfold drainOne
  dsimp only
  split_ifs
  · rfl
  · exact (List.append_nil _).symm

/-- Nothing is queued while the queue is drained. -/
def drainOrderQueue (e : BacktestEngine S) : BacktestEngine S :=
  e.ctx.orderOutput.foldl (drainOne clock) { e with ctx := { e.ctx with orderOutput := [] } }

def showTick (e : BacktestEngine S) (tick : Tick) : BacktestEngine S :=
  { e with
    currentTickTs := tick.exchangeTimestampUs
    book := e.book.update tick
    orderBooks := e.orderBooks.assign 1 (((e.orderBooks.find 1).getD .new).update tick)
    ctx := { e.ctx with timestampUs := tick.exchangeTimestampUs } }

def deliver (strategy : Strategy S) (e : BacktestEngine S) (tick : Tick) : BacktestEngine S :=
  (call clock (strategy.onTick e.strategy tick) (e.showTick tick)).drainOrderQueue clock

/-- The best prices of `book_`; nobody writes it meanwhile, so a read succeeds. -/
def quotes (e : BacktestEngine S) (tick : Tick) : Quotes Decimal where
  price := tick.price
  timestampUs := tick.exchangeTimestampUs
  bestBid := e.book.getBestBid.getD none
  bestAsk := e.book.getBestAsk.getD none

def recordFill (cfg : BacktestConfig Decimal) (tick : Tick) (e : BacktestEngine S)
    (p : Backtest.PendingOrder Decimal) : BacktestEngine S :=
  let q := e.quotes tick
  let f := fillOf cfg q p
  { e with
    ctx := { e.ctx with positionManager := (e.ctx.positionManager.updatePosition f).1 }
    trades := e.trades++[tradeOf cfg q p f]
    fills := e.fills++[(p,f)] }

def fillOne (cfg : BacktestConfig Decimal) (strategy : Strategy S) (tick : Tick)
    (e : BacktestEngine S) (p : Backtest.PendingOrder Decimal) : BacktestEngine S :=
  if hasLiquidity (e.quotes tick) p.side then
    call clock (strategy.onFill e.strategy (fillOf cfg (e.quotes tick) p)) (e.recordFill cfg tick p)
  else { e with pending := e.pending++[p] }

def simulateFillsForPending (cfg : BacktestConfig Decimal) (strategy : Strategy S)
    (e : BacktestEngine S) (tick : Tick) : BacktestEngine S :=
  e.pending.foldl (fillOne clock cfg strategy tick) { e with pending := [] }

def recordEquity (cfg : BacktestConfig Decimal) (e : BacktestEngine S) (tick : Tick) :
    BacktestEngine S :=
  if cfg.recordEquityEveryTick then
    { e with equity := e.equity++[(e.currentTickTs,
        initialEquity cfg+totalPnl (e.quotes tick) e.ctx.positionManager.positions)] }
  else e

def settle (cfg : BacktestConfig Decimal) (strategy : Strategy S) (e : BacktestEngine S)
    (tick : Tick) : BacktestEngine S :=
  (e.simulateFillsForPending clock cfg strategy tick).recordEquity cfg tick

def tickCallback (cfg : BacktestConfig Decimal) (strategy : Strategy S) (e : BacktestEngine S)
    (tick : Tick) : BacktestEngine S := (e.deliver clock strategy tick).settle clock cfg strategy tick

def loaded (cfg : BacktestConfig Decimal) (strategy : Strategy S) : BacktestEngine S :=
  let e := call clock (strategy.onLoad strategy.new) (prepared strategy)
  { e with equity := e.equity++[(0,initialEquity cfg)] }

def run (cfg : BacktestConfig Decimal) (strategy : Strategy S) (ticks : List Tick) :
    BacktestEngine S := ticks.foldl (tickCallback clock cfg strategy) (loaded clock cfg strategy)

end Run

def ledger (e : BacktestEngine S) : Ledger Decimal where
  positions := e.ctx.positionManager.positions
  pending := e.pending
  trades := e.trades
  equity := e.equity
  fills := e.fills

section Refinement
variable [NearestDivision.NearestDiv] (clock : ℕ → ClockReadings)

structure SameMarket (e e' : BacktestEngine S) : Prop where
  ledger : e'.ledger = e.ledger
  book : e'.book = e.book
  orderBooks : e'.orderBooks = e.orderBooks
  currentTickTs : e'.currentTickTs = e.currentTickTs

theorem submitOrder_positions (ctx : StrategyContext) (order : OrderRequest) (t : ClockReadings) :
    (ctx.submitOrder order t).1.positionManager = ctx.positionManager :=
  StrategyEngine.request_positions ctx (.submit order t)

theorem cancelOrder_positions (ctx : StrategyContext) (orderId : ℕ) :
    (ctx.cancelOrder orderId).1.positionManager = ctx.positionManager :=
  StrategyEngine.request_positions ctx (.cancel orderId)

theorem call_market (c : Callback S) (e : BacktestEngine S) : SameMarket e (call clock c e) := by
  induction c generalizing e with
  | finish s => exact ⟨rfl,rfl,rfl,rfl⟩
  | submitOrder order next ih =>
    obtain ⟨hledger,hbook,hbooks,hts⟩ := ih (e.submitOrder clock order).2
      (e.submitOrder clock order).1
    refine ⟨hledger.trans ?_,hbook,hbooks,hts⟩
    have hpositions := submitOrder_positions e.ctx order (e.nextCall clock order).readings
    rw [ledger, ledger]
    exact congrArg (fun pm : PositionManager => (⟨pm.positions,e.pending,e.trades,e.equity,e.fills⟩ :
      Ledger Decimal)) hpositions
  | cancelOrder orderId next ih =>
    obtain ⟨hledger,hbook,hbooks,hts⟩ := ih (e.ctx.cancelOrder orderId).2
      { e with ctx := (e.ctx.cancelOrder orderId).1 }
    refine ⟨hledger.trans ?_,hbook,hbooks,hts⟩
    rw [ledger, cancelOrder_positions]
    rfl
  | viewBook symbolId next ih => exact ih _ e
  | getPosition symbolId next ih => exact ih _ e
  | getAvailableCapital next ih => exact ih _ e
  | currentTimestampUs next ih => exact ih _ e

variable (cfg : BacktestConfig Decimal) (strategy : Strategy S) (tick : Tick)

omit [NearestDivision.NearestDiv] in
theorem quotes_congr {e e' : BacktestEngine S} (h : e'.book = e.book) :
    e'.quotes tick = e.quotes tick := by rw [quotes, quotes, h]

theorem fillOne_ledger (e : BacktestEngine S) (p : Backtest.PendingOrder Decimal) :
    (fillOne clock cfg strategy tick e p).ledger = e.ledger.fillOne cfg (e.quotes tick) p ∧
      (fillOne clock cfg strategy tick e p).book = e.book ∧
      (fillOne clock cfg strategy tick e p).currentTickTs = e.currentTickTs := by
  unfold fillOne Ledger.fillOne
  split_ifs
  · obtain ⟨hledger,hbook,-,hts⟩ := call_market clock
      (strategy.onFill e.strategy (fillOf cfg (e.quotes tick) p)) (e.recordFill cfg tick p)
    refine ⟨hledger.trans ?_,hbook,hts⟩
    rw [ledger, recordFill, PositionConservation.updatePosition_positions]
    rfl
  · exact ⟨rfl,rfl,rfl⟩

theorem foldl_ledger (ps : List (Backtest.PendingOrder Decimal)) (e : BacktestEngine S) :
    (ps.foldl (fillOne clock cfg strategy tick) e).ledger =
        ps.foldl (Ledger.fillOne cfg (e.quotes tick)) e.ledger ∧
      (ps.foldl (fillOne clock cfg strategy tick) e).book = e.book ∧
      (ps.foldl (fillOne clock cfg strategy tick) e).currentTickTs = e.currentTickTs := by
  induction ps generalizing e with
  | nil => exact ⟨rfl,rfl,rfl⟩
  | cons p ps ih =>
    obtain ⟨hledger,hbook,hts⟩ := fillOne_ledger clock cfg strategy tick e p
    obtain ⟨hledgers,hbooks,htimes⟩ := ih (fillOne clock cfg strategy tick e p)
    rw [hledger, quotes_congr tick hbook] at hledgers
    exact ⟨hledgers,hbooks.trans hbook,htimes.trans hts⟩

theorem settle_ledger (e : BacktestEngine S) (ht : e.currentTickTs = tick.exchangeTimestampUs) :
    (e.settle clock cfg strategy tick).ledger =
      e.ledger.settle cfg (e.quotes tick) (initialEquity cfg) := by
  obtain ⟨hledger,hbook,hts⟩ := foldl_ledger clock cfg strategy tick e.pending { e with pending := [] }
  have hquotes := quotes_congr tick hbook
  have htime := hts.trans ht
  change _ = (e.ledger.simulateFills cfg (e.quotes tick)).recordEquity cfg (e.quotes tick)
    (initialEquity cfg)
  have hfills : (e.simulateFillsForPending clock cfg strategy tick).ledger =
      e.ledger.simulateFills cfg (e.quotes tick) := hledger
  rw [settle, recordEquity, Ledger.recordEquity, ← hfills]
  split_ifs
  · change _ = ({ (e.simulateFillsForPending clock cfg strategy tick).ledger with
      equity := _ } : Ledger Decimal)
    unfold simulateFillsForPending
    rw [hquotes, htime]
    rfl
  · rfl

theorem drainOne_ledger (e : BacktestEngine S) (order : OrderRequest) :
    ∃ pending, (e.drainOne clock order).ledger = { e.ledger with pending := pending } ∧
      (e.drainOne clock order).book = e.book ∧
      (e.drainOne clock order).currentTickTs = e.currentTickTs := by
  unfold drainOne
  dsimp only
  split_ifs
  · exact ⟨_,rfl,rfl,rfl⟩
  · exact ⟨_,rfl,rfl,rfl⟩

theorem drainAll_ledger (orders : List OrderRequest) (e : BacktestEngine S) :
    ∃ pending, (orders.foldl (drainOne clock) e).ledger = { e.ledger with pending := pending } ∧
      (orders.foldl (drainOne clock) e).book = e.book ∧
      (orders.foldl (drainOne clock) e).currentTickTs = e.currentTickTs := by
  induction orders generalizing e with
  | nil => exact ⟨e.ledger.pending,rfl,rfl,rfl⟩
  | cons order orders ih =>
    obtain ⟨pending,hledger,hbook,hts⟩ := drainOne_ledger clock e order
    obtain ⟨pending',hledger',hbook',hts'⟩ := ih (e.drainOne clock order)
    exact ⟨pending',hledger'.trans (by rw [hledger]),hbook'.trans hbook,hts'.trans hts⟩

theorem deliver_ledger (e : BacktestEngine S) :
    ∃ pending, (e.deliver clock strategy tick).ledger = { e.ledger with pending := pending } ∧
      (e.deliver clock strategy tick).book = e.book.update tick ∧
      (e.deliver clock strategy tick).currentTickTs = tick.exchangeTimestampUs := by
  obtain ⟨hledger,hbook,-,hts⟩ := call_market clock (strategy.onTick e.strategy tick) (e.showTick tick)
  let e₁ := call clock (strategy.onTick e.strategy tick) (e.showTick tick)
  obtain ⟨pending,hdrain,hdrainBook,hdrainTs⟩ := drainAll_ledger clock e₁.ctx.orderOutput
    { e₁ with ctx := { e₁.ctx with orderOutput := [] } }
  have hsame : ({ e₁ with ctx := { e₁.ctx with orderOutput := [] } } : BacktestEngine S).ledger =
      e.ledger := hledger
  exact ⟨pending,hdrain.trans (by rw [hsame]),hdrainBook.trans hbook,hdrainTs.trans hts⟩

theorem deliver_history (e : BacktestEngine S) (tick : Tick) :
    (e.deliver clock strategy tick).fills = e.fills ∧ (e.deliver clock strategy tick).trades = e.trades := by
  obtain ⟨pending,hledger,-⟩ := deliver_ledger clock strategy tick e
  exact ⟨congrArg Ledger.fills hledger,congrArg Ledger.trades hledger⟩

theorem settle_history (e : BacktestEngine S) (tick : Tick) :
    (e.settle clock cfg strategy tick).fills = e.fills++newFills cfg (e.quotes tick) e.pending ∧
      (e.settle clock cfg strategy tick).trades.length =
        e.trades.length+(newFills cfg (e.quotes tick) e.pending).length := by
  have hledger : (e.simulateFillsForPending clock cfg strategy tick).ledger =
      e.ledger.simulateFills cfg (e.quotes tick) :=
    (foldl_ledger clock cfg strategy tick e.pending { e with pending := [] }).1
  rw [simulateFills_eq] at hledger
  have hfills := congrArg Ledger.fills hledger
  have htrades := congrArg List.length (congrArg Ledger.trades hledger)
  rw [List.length_append, List.length_map] at htrades
  rw [settle, recordEquity]
  split_ifs
  · exact ⟨hfills,htrades⟩
  · exact ⟨hfills,htrades⟩

theorem tickCallback_pending (e : BacktestEngine S) (tick : Tick) :
    (tickCallback clock cfg strategy e tick).pending =
      (e.deliver clock strategy tick).pending.filter
        (fun p => !hasLiquidity ((e.deliver clock strategy tick).quotes tick) p.side) := by
  have hledger : ((e.deliver clock strategy tick).simulateFillsForPending clock cfg strategy
        tick).ledger = (e.deliver clock strategy tick).ledger.simulateFills cfg
          ((e.deliver clock strategy tick).quotes tick) :=
    (foldl_ledger clock cfg strategy tick (e.deliver clock strategy tick).pending
      { e.deliver clock strategy tick with pending := [] }).1
  rw [simulateFills_eq] at hledger
  have hpending := congrArg Ledger.pending hledger
  rw [tickCallback, settle, recordEquity]
  split_ifs <;> exact hpending

omit tick in
theorem loaded_ledger : (loaded clock cfg strategy).ledger = { equity := [(0,initialEquity cfg)] } := by
  have hledger := (call_market clock (strategy.onLoad strategy.new) (prepared strategy)).ledger
  have hequity : (loaded clock cfg strategy).ledger =
      { (call clock (strategy.onLoad strategy.new) (prepared strategy)).ledger with
        equity := (call clock (strategy.onLoad strategy.new) (prepared strategy)).ledger.equity++
          [(0,initialEquity cfg)] } := rfl
  rw [hequity, hledger]
  rfl

/-- A whole run is a run of the ledger; the strategy and the risk engine choose
which orders wait at each tick. -/
theorem run_ledger (ticks : List Tick) :
    ∃ inputs : List (Quotes Decimal × List (Backtest.PendingOrder Decimal)),
    inputs.map (fun i => (i.1.price,i.1.timestampUs)) =
        ticks.map (fun t => (t.price,t.exchangeTimestampUs)) ∧
      (run clock cfg strategy ticks).ledger = Ledger.run cfg (initialEquity cfg) inputs := by
  have hfold : ∀ e : BacktestEngine S,
      ∃ inputs : List (Quotes Decimal × List (Backtest.PendingOrder Decimal)),
      inputs.map (fun i => (i.1.price,i.1.timestampUs)) =
          ticks.map (fun t => (t.price,t.exchangeTimestampUs)) ∧
        (ticks.foldl (tickCallback clock cfg strategy) e).ledger =
          inputs.foldl (fun l input => l.tick cfg (initialEquity cfg) input) e.ledger := by
    induction ticks with
    | nil => exact fun e => ⟨[],rfl,rfl⟩
    | cons tick ticks ih =>
      intro e
      obtain ⟨pending,hledger,-,hts⟩ := deliver_ledger clock strategy tick e
      obtain ⟨inputs,hinputs,hrest⟩ := ih (tickCallback clock cfg strategy e tick)
      refine ⟨((e.deliver clock strategy tick).quotes tick,pending)::inputs,?_,?_⟩
      · rw [List.map_cons, List.map_cons, hinputs]
        rfl
      · rw [List.foldl_cons, hrest, tickCallback, settle_ledger clock cfg strategy tick _ hts, hledger]
        rfl
  obtain ⟨inputs,hinputs,hrun⟩ := hfold (loaded clock cfg strategy)
  exact ⟨inputs,hinputs,by rw [run, hrun, loaded_ledger]; rfl⟩

end Refinement
end BacktestEngine
end Chronos
