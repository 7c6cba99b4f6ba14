import Chronos.OrderGatewaySteps
import Chronos.PositionConservation
import Chronos.StrategyEngine

/-!
# From a strategy's order to its fill

The engine's order queue feeds a gateway with simulated fills, whose callback
pushes each fill into the engine's fill queue. The two threads interleave at
their queue operations: a callback of a strategy may submit and cancel any
number of times, and the gateway may run between any two of these calls. A
fill that finds the fill queue full is dropped, since the callback ignores
the answer of `pushFill`.

The engine's thread works off the callbacks of a turn one after the other.
`start` has only those of `onLoad`, which it makes without naming the
strategy; the dispatch loop names each strategy before it calls it.

Kept beside the queues are the requests that entered and left the order
queue, with the callback that entered them, and the fills that were applied,
dropped, and handed to a strategy.
-/

set_option autoImplicit false

namespace Chronos
open KeyedTable

namespace TradingPipeline

inductive Call where
  | onLoad (strategyId : ℕ)
  | onTick (strategyId : ℕ)
  | onTimer (strategyId : ℕ)
  | onFill (strategyId : ℕ) (fill : Fill Decimal)

end TradingPipeline

open TradingPipeline in
structure TradingPipeline where
  engine : StrategyEngine
  gateway : OrderGateway
  agenda : List Call
  calling : Option Call := none
  fillQueue : List (Fill Decimal) := []
  entered : List (Call × OrderRequest) := []
  handled : List (Call × OrderRequest) := []
  applied : List (Fill Decimal) := []
  dropped : List (Fill Decimal) := []
  delivered : List (ℕ × Fill Decimal) := []

namespace TradingPipeline
namespace Call

def strategyId : Call → ℕ
  | .onLoad id | .onTick id | .onTimer id | .onFill id _ => id

def inLoop : Call → Bool
  | .onLoad _ => false
  | _ => true

def name (ctx : StrategyContext) (c : Call) : StrategyContext :=
  if c.inLoop then { ctx with currentStrategyId := c.strategyId } else ctx

def tells : Call → List (ℕ × Fill Decimal)
  | .onFill id f => [(id,f)]
  | _ => []

end Call

def fillQueueCapacity : ℕ := 1024

/-- The engine takes a tick, a fill, or finds its idle timer due; the callback
that is running returns and the next begins; it submits or cancels; the
gateway takes a request. -/
inductive Action where
  | tick (tick : Tick)
  | fill
  | timer
  | call
  | submit (order : OrderRequest) (t : ClockReadings)
  | cancel (orderId : ℕ)
  | handle (io : Surroundings)

def setContext (p : TradingPipeline) (ctx : StrategyContext) : TradingPipeline :=
  { p with engine := { p.engine with ctx := ctx } }

def Resting (p : TradingPipeline) : Prop := p.agenda.isEmpty = true ∧ p.calling.isNone = true

instance Resting.decidable (p : TradingPipeline) : Decidable p.Resting := inferInstanceAs (Decidable (_ ∧ _))

/-- `pushFill`, its answer ignored. -/
def pushFill (p : TradingPipeline) (f : Fill Decimal) : TradingPipeline :=
  if p.fillQueue.length < fillQueueCapacity then { p with fillQueue := p.fillQueue++[f] }
  else { p with dropped := p.dropped++[f] }

def enter (p : TradingPipeline) (ctx : StrategyContext) : TradingPipeline :=
  match p.calling with
  | none => p
  | some c =>
    { p.setContext ctx with
      entered := p.entered++(ctx.orderOutput.drop p.engine.ctx.orderOutput.length).map (c,·) }

def call (p : TradingPipeline) : TradingPipeline :=
  match p.agenda with
  | [] => { p with calling := none }
  | c::rest =>
    { p.setContext (c.name p.engine.ctx) with
      agenda := rest
      calling := some c
      delivered := p.delivered++c.tells }

def Late (e : StrategyEngine) (tick : Tick) : Prop :=
  StrategyEngine.elapsed tick.receiveTimestampUs e.lastTimerUs > StrategyEngine.timerIntervalUs

instance Late.decidable (e : StrategyEngine) (tick : Tick) : Decidable (Late e tick) :=
  inferInstanceAs (Decidable (_ > _))

def timerCalls (e : StrategyEngine) : List Call := e.strategies.map (fun s => .onTimer s.id)

def tickCalls (e : StrategyEngine) (tick : Tick) : List Call :=
  (e.strategies.filter (fun s => s.isWildcard || s.symbols.contains tick.symbolId)).map
      (fun s => .onTick s.id)++
    if Late e tick then timerCalls e else []

def fillCalls (e : StrategyEngine) (f : Fill Decimal) : List Call :=
  if e.strategies.any (fun s => s.id = f.strategyId) then [.onFill f.strategyId f] else []

theorem timerCalls_inLoop (e : StrategyEngine) : ∀ c ∈ timerCalls e, c.inLoop = true := by
  intro c hc
  obtain ⟨s,-,rfl⟩ := List.mem_map.mp hc
  rfl

theorem tickCalls_inLoop (e : StrategyEngine) (tick : Tick) : ∀ c ∈ tickCalls e tick, c.inLoop = true := by
  intro c hc
  rcases List.mem_append.mp hc with hc | hc
  · obtain ⟨s,-,rfl⟩ := List.mem_map.mp hc
    rfl
  · split_ifs at hc
    · exact timerCalls_inLoop e c hc
    · cases hc

theorem fillCalls_inLoop (e : StrategyEngine) (f : Fill Decimal) : ∀ c ∈ fillCalls e f, c.inLoop = true := by
  unfold fillCalls
  split_ifs <;> simp [Call.inLoop]

def takeTick (e : StrategyEngine) (tick : Tick) : StrategyEngine :=
  { e with
    ticksProcessed := e.ticksProcessed+1
    orderBooks := e.orderBooks.assign tick.symbolId
      (((e.orderBooks.find tick.symbolId).getD .new).update tick)
    lastTimerUs := if Late e tick then tick.receiveTimestampUs else e.lastTimerUs
    ctx := { e.ctx with timestampUs := tick.receiveTimestampUs } }

section Step
variable [NearestDivision.NearestDiv]

def applyFill (e : StrategyEngine) (f : Fill Decimal) : StrategyEngine :=
  { e with
    fillsProcessed := e.fillsProcessed+1
    ctx := { e.ctx with
      timestampUs := f.receiveTimestampUs
      positionManager := (e.ctx.positionManager.updatePosition f).1 } }

def takeFill (p : TradingPipeline) : TradingPipeline :=
  match p.fillQueue with
  | [] => p
  | f::queue =>
    { p with
      engine := applyFill p.engine f
      fillQueue := queue
      applied := p.applied++[f]
      agenda := fillCalls p.engine f }

/-- The gateway pops a request and processes it; the fills its callback was
given go to the engine. The call beside the request is that of `entered`. -/
def handle (p : TradingPipeline) (io : Surroundings) : TradingPipeline :=
  match StrategyContext.tryPop p.engine.ctx.orderOutput with
  | none => p
  | some (order,queue) =>
    let gateway := p.gateway.processOrder order io
    let fills := gateway.callbacks.drop p.gateway.callbacks.length
    fills.foldl pushFill { p.setContext { p.engine.ctx with orderOutput := queue } with
      gateway := gateway
      handled := p.handled++((p.entered.drop p.handled.length).head?).toList }

def step (p : TradingPipeline) : Action → TradingPipeline
  | .tick t =>
    if p.Resting then { p with engine := takeTick p.engine t, agenda := tickCalls p.engine t } else p
  | .fill => if p.Resting then p.takeFill else p
  | .timer => if p.Resting then { p with agenda := timerCalls p.engine } else p
  | .call => p.call
  | .submit order t => p.enter (p.engine.ctx.submitOrder order t).1
  | .cancel orderId => p.enter (p.engine.ctx.cancelOrder orderId).1
  | .handle io => p.handle io

end Step

section Turn
variable [NearestDivision.NearestDiv] (r : StrategyEngine.Responses)

def Call.requests : Call → List StrategyEngine.Request
  | .onLoad _ => []
  | .onTick id => r.onTick id
  | .onTimer id => r.onTimer id
  | .onFill id _ => r.onFill id

def asked : StrategyEngine.Request → Action
  | .submit order t => .submit order t
  | .cancel orderId => .cancel orderId

def callActions (c : Call) : List Action := .call::(c.requests r).map asked

theorem requests_alone (requests : List StrategyEngine.Request) (p : TradingPipeline)
    (hcall : p.calling.isSome = true) :
    (Schedule.run step (requests.map asked) p).engine =
        { p.engine with ctx := requests.foldl StrategyEngine.request p.engine.ctx } ∧
      (Schedule.run step (requests.map asked) p).agenda = p.agenda := by
  induction requests generalizing p with
  | nil => exact ⟨rfl,rfl⟩
  | cons q requests ih =>
    obtain ⟨c,hc⟩ := Option.isSome_iff_exists.mp hcall
    have hone : (p.step (asked q)).engine =
        { p.engine with ctx := StrategyEngine.request p.engine.ctx q } ∧
        (p.step (asked q)).agenda = p.agenda ∧ (p.step (asked q)).calling = p.calling := by
      cases q <;> simp [asked, step, enter, hc, setContext, StrategyEngine.request]
    obtain ⟨hengine,hagenda⟩ := ih (p.step (asked q)) (by rw [hone.2.2]; exact hcall)
    rw [hone.1] at hengine
    exact ⟨hengine,hagenda.trans hone.2.1⟩

/-- The callbacks of a turn that the gateway does not interrupt. -/
theorem calls_alone (calls : List Call) (p : TradingPipeline) (hp : p.agenda = calls)
    (hloop : ∀ c ∈ calls, c.inLoop = true) :
    (Schedule.run step (calls.flatMap (callActions r)) p).engine = { p.engine with
      ctx := calls.foldl (fun ctx c => StrategyEngine.respond (fun _ => c.requests r) ctx c.strategyId)
        p.engine.ctx } := by
  induction calls generalizing p with
  | nil => rfl
  | cons c calls ih =>
    have hname : c.name p.engine.ctx = { p.engine.ctx with currentStrategyId := c.strategyId } :=
      if_pos (hloop c List.mem_cons_self)
    have hcall : p.step .call = { p.setContext (c.name p.engine.ctx) with
        agenda := calls, calling := some c, delivered := p.delivered++c.tells } := by
      rw [step, call, hp]
    obtain ⟨hengine,hagenda⟩ := requests_alone (c.requests r) (p.step .call) (by rw [hcall]; rfl)
    rw [List.flatMap_cons, Schedule.run_append]
    have hrest := ih (Schedule.run step (callActions r c) p) (hagenda.trans (by rw [hcall]))
      (fun d hd => hloop d (List.mem_cons_of_mem c hd))
    refine hrest.trans ?_
    rw [callActions, Schedule.run, hengine, hcall, hname]
    rfl

theorem foldl_calls (f : ℕ → Call) (requests : ℕ → List StrategyEngine.Request)
    (hf : ∀ id, (f id).requests r = requests id ∧ (f id).strategyId = id)
    (entries : List StrategyEngine.StrategyEntry) (ctx : StrategyContext) :
    (entries.map (fun s => f s.id)).foldl
        (fun ctx c => StrategyEngine.respond (fun _ => c.requests r) ctx c.strategyId) ctx =
      StrategyEngine.dispatch requests entries ctx := by
  rw [List.foldl_map]
  congr 1
  funext ctx s
  obtain ⟨hr,hid⟩ := hf s.id
  rw [hid, StrategyEngine.respond, StrategyEngine.respond, hr]

/-- A turn of the engine that nothing interrupts is one of the dispatch loop. -/
theorem tick_alone (p : TradingPipeline) (tick : Tick) (hrest : p.Resting) :
    (Schedule.run step (.tick tick::(tickCalls p.engine tick).flatMap (callActions r)) p).engine =
      p.engine.processTick tick r := by
  have htake : p.step (.tick tick) =
      { p with engine := takeTick p.engine tick, agenda := tickCalls p.engine tick } := if_pos hrest
  rw [Schedule.run, htake, calls_alone r (tickCalls p.engine tick) _ rfl (tickCalls_inLoop p.engine tick),
    takeTick, tickCalls, List.foldl_append, foldl_calls r Call.onTick r.onTick (fun id => ⟨rfl,rfl⟩)]
  by_cases hlate : Late p.engine tick
  · have hturn : p.engine.processTick tick r = { p.engine.dispatchTick tick r with
        lastTimerUs := tick.receiveTimestampUs
        ctx := StrategyEngine.dispatch r.onTimer p.engine.strategies (p.engine.dispatchTick tick r).ctx } :=
      if_pos hlate
    rw [hturn, if_pos hlate, if_pos hlate, timerCalls,
      foldl_calls r Call.onTimer r.onTimer (fun id => ⟨rfl,rfl⟩)]
    rfl
  · have hturn : p.engine.processTick tick r = p.engine.dispatchTick tick r := if_neg hlate
    rw [hturn, if_neg hlate, if_neg hlate]
    rfl

theorem fill_alone (p : TradingPipeline) (f : Fill Decimal) (queue : List (Fill Decimal))
    (hq : p.fillQueue = f::queue) (hrest : p.Resting) :
    (Schedule.run step (.fill::(fillCalls p.engine f).flatMap (callActions r)) p).engine =
      p.engine.processFill f r := by
  have htake : p.step .fill = p.takeFill := if_pos hrest
  have hagenda : p.takeFill.agenda = fillCalls p.engine f := by rw [takeFill, hq]
  rw [Schedule.run, htake, calls_alone r (fillCalls p.engine f) p.takeFill hagenda
    (fillCalls_inLoop p.engine f), takeFill, hq]
  simp only [fillCalls, StrategyEngine.processFill]
  split_ifs <;> rfl

end Turn

section Gateway
variable (g : OrderGateway)

def fillable (exchangeId : ℕ) (order : OrderRequest) : Bool :=
  order.exchangeId = exchangeId && decide (order.quantity ≠ 0)

/-- A gateway that fills every order at once, with nothing pending. -/
structure Simulating (exchangeId : ℕ) : Prop where
  simulate : g.simulateFills = true
  callback : g.fillCallback = true
  exchange : g.exchangeId = exchangeId
  idle : ∀ j, g.pendingOrders.find j = none

theorem live_of_simulate (h : g.simulateFills = true) : g.live = false := by
  simp [GatewaySetup.live, h]

theorem processNewSimulated_fills (order : OrderRequest) (io : Surroundings)
    (hs : g.simulateFills = true) (hc : g.fillCallback = true) (hidle : ∀ j, g.pendingOrders.find j = none) :
    (∀ j, (g.processNewSimulated order io).pendingOrders.find j = none) ∧
      (g.processNewSimulated order io).callbacks =
        g.callbacks++[OrderGateway.simulatedFill order io.sendTimeUs] ∧
      (g.processNewSimulated order io).toGatewaySetup = g.toGatewaySetup := by
  have hfind : ((g.send (.wire (OrderEncoding.encodeOrder order))).trackPending order io.sendTimeUs).findForFill
      (OrderGateway.simulatedFill order io.sendTimeUs).orderId =
        some (order.orderId,OrderGateway.tracked order io.sendTimeUs) := by
    simp [OrderGateway.findForFill, OrderGateway.trackPending, OrderGateway.simulatedFill]
  have hwhole : (OrderGateway.tracked order io.sendTimeUs).originalQuantity ≤
      (OrderGateway.tracked order io.sendTimeUs).filledQuantity+
        (OrderGateway.simulatedFill order io.sendTimeUs).fillQuantity := by
    change order.quantity ≤ 0+order.quantity
    rw [zero_add]
  have hsend : (g.send (.wire (OrderEncoding.encodeOrder order))).pendingOrders = g.pendingOrders := rfl
  refine ⟨fun j => ?_,?_,?_⟩
  · simp only [OrderGateway.processNewSimulated, OrderGateway.injectFill, hfind, if_pos hwhole]
    simp [OrderGateway.trackPending, OrderGateway.send, hs, hc, hidle]
  · simp only [OrderGateway.processNewSimulated, OrderGateway.injectFill, hfind]
    simp [OrderGateway.trackPending, OrderGateway.send, hs, hc, OrderGateway.simulatedFill,
      OrderGateway.tracked]
  · simp only [OrderGateway.processNewSimulated, OrderGateway.injectFill, hfind]
    simp [OrderGateway.trackPending, OrderGateway.send, hs, hc]

/-- What a simulating gateway does with a request: it fills it if it is for it,
and nothing stays pending. -/
theorem processOrder_simulating (exchangeId : ℕ) (order : OrderRequest) (io : Surroundings)
    (h : Simulating g exchangeId) :
    Simulating (g.processOrder order io) exchangeId ∧ (g.processOrder order io).callbacks =
      g.callbacks++if fillable exchangeId order then [OrderGateway.simulatedFill order io.sendTimeUs]
        else [] := by
  have hl := live_of_simulate g h.simulate
  unfold OrderGateway.processOrder
  dsimp only
  by_cases he : order.exchangeId = g.exchangeId
  · rw [if_neg (not_not.mpr he)]
    by_cases hq : order.quantity = 0
    · have hf : fillable exchangeId order = false := by simp [fillable, hq]
      rw [if_pos hq, hf]
      unfold OrderGateway.processCancel
      have hlive : (GatewaySetup.live g.toGatewaySetup) = false := hl
      simp only [hlive, Bool.false_eq_true, if_false, OrderGateway.send, h.idle, List.append_nil]
      exact ⟨⟨h.simulate,h.callback,h.exchange,h.idle⟩,trivial⟩
    · have hf : fillable exchangeId order = true := by simp [fillable, hq, he, h.exchange]
      rw [if_neg hq, hf]
      simp only [h.idle]
      unfold OrderGateway.processNew
      have hlive : (GatewaySetup.live g.toGatewaySetup) = false := hl
      simp only [hlive, Bool.false_eq_true, if_false]
      obtain ⟨hidle,hcall,hsetup⟩ := processNewSimulated_fills
        { g with stats := { g.stats with ordersReceived := g.stats.ordersReceived+1 } } order io
        h.simulate h.callback h.idle
      refine ⟨⟨?_,?_,?_,hidle⟩,hcall⟩
      · exact (congrArg GatewaySetup.simulateFills hsetup).trans h.simulate
      · exact (congrArg GatewaySetup.fillCallback hsetup).trans h.callback
      · exact (congrArg GatewaySetup.exchangeId hsetup).trans h.exchange
  · have hf : fillable exchangeId order = false := by simp [fillable, ← h.exchange, he]
    rw [if_pos he, hf]
    exact ⟨⟨h.simulate,h.callback,h.exchange,h.idle⟩,(List.append_nil _).symm⟩

end Gateway

structure Deal where
  orderId : ℕ
  symbolId : ℕ
  strategyId : ℕ
  side : OrderSide
  price : Decimal
  quantity : Decimal

def dealOf (order : OrderRequest) : Deal where
  orderId := order.orderId
  symbolId := order.symbolId
  strategyId := order.strategyId
  side := order.side
  price := order.price
  quantity := order.quantity

def dealIn (fill : Fill Decimal) : Deal where
  orderId := fill.orderId
  symbolId := fill.symbolId
  strategyId := fill.strategyId
  side := fill.side
  price := fill.fillPrice
  quantity := fill.fillQuantity

def filledOrders (exchangeId : ℕ) (p : TradingPipeline) : List OrderRequest :=
  (p.handled.map Prod.snd).filter (fillable exchangeId)

def received (p : TradingPipeline) : List (Fill Decimal) := p.applied++p.fillQueue

def isOrder (x : Call × OrderRequest) : Bool := decide (x.2.quantity ≠ 0)

/-- What a call of a strategy does to its context: it leaves the queue, or
adds one request, which is a cancellation or has the next id and the
strategy's number. -/
inductive Called (ctx ctx' : StrategyContext) : Prop where
  | kept (queue : ctx'.orderOutput = ctx.orderOutput)
      (positions : ctx'.positionManager = ctx.positionManager) (ids : ctx.currentId ≤ ctx'.currentId)
  | added (order : OrderRequest) (queue : ctx'.orderOutput = ctx.orderOutput++[order])
      (positions : ctx'.positionManager = ctx.positionManager) (ids : ctx.currentId ≤ ctx'.currentId)
      (named : order.quantity ≠ 0 → order.strategyId = ctx.currentStrategyId ∧
        ctx.currentId ≤ order.orderId ∧ order.orderId < ctx'.currentId)

theorem cancelOrder_called (ctx : StrategyContext) (orderId : ℕ) :
    Called ctx (ctx.cancelOrder orderId).1 := by
  rcases ctx.cancelOrder_cases orderId with h | h <;> rw [h]
  · exact Called.kept rfl rfl (le_refl _)
  · exact Called.added _ rfl rfl (le_refl _) (fun h => absurd rfl h)

theorem pushFill_account (p : TradingPipeline) (f : Fill Decimal)
    (callbacks : List (Fill Decimal)) (horder : p.received.Sublist callbacks)
    (hcomplete : (p.received++p.dropped).Perm callbacks) :
    (p.pushFill f).received.Sublist (callbacks++[f]) ∧
      ((p.pushFill f).received++(p.pushFill f).dropped).Perm (callbacks++[f]) := by
  unfold pushFill
  split_ifs
  · have hr : received { p with fillQueue := p.fillQueue++[f] } = p.received++[f] := by
      simp [received]
    rw [hr]
    refine ⟨horder.append_right [f] ,?_⟩
    have hswap : (p.received++[f]++p.dropped).Perm (p.received++p.dropped++[f]) := by
      rw [List.append_assoc, List.append_assoc]
      exact List.perm_append_comm.append_left p.received
    exact hswap.trans (hcomplete.append_right [f])
  · refine ⟨horder.trans (List.sublist_append_left _ _),?_⟩
    change (p.received++(p.dropped++[f])).Perm _
    rw [← List.append_assoc]
    exact hcomplete.append_right [f]

theorem pushFill_fields (p : TradingPipeline) (f : Fill Decimal) :
    ∃ queue dropped, p.pushFill f = { p with fillQueue := queue, dropped := dropped } := by
  unfold pushFill
  split_ifs
  · exact ⟨_,_,rfl⟩
  · exact ⟨_,_,rfl⟩

def fresh (engine : StrategyEngine) (gateway : OrderGateway) : TradingPipeline where
  engine := engine
  gateway := gateway
  agenda := engine.strategies.map (fun s => .onLoad s.id)

structure Fresh (engine : StrategyEngine) (gateway : OrderGateway) : Prop where
  simulating : Simulating gateway gateway.exchangeId
  callbacks : gateway.callbacks = []
  queue : engine.ctx.orderOutput = []

def exactOrdered (orders : List OrderRequest) (s : ℕ) : ℤ :=
  (orders.map (fun o => if o.symbolId = s then
    (match o.side with | .sell => -o.quantity.raw | .buy => o.quantity.raw) else 0)).sum

def dealSigned (s : ℕ) (d : Deal) : ℤ :=
  if d.symbolId = s then (match d.side with | .sell => -d.quantity.raw | .buy => d.quantity.raw) else 0

theorem exactFilled_deals (fills : List (Fill Decimal)) (s : ℕ) :
    PositionConservation.exactFilled fills s = ((fills.map dealIn).map (dealSigned s)).sum := by
  rw [PositionConservation.exactFilled, List.map_map]
  rfl

theorem exactOrdered_deals (orders : List OrderRequest) (s : ℕ) :
    exactOrdered orders s = ((orders.map dealOf).map (dealSigned s)).sum := by
  rw [exactOrdered, List.map_map]
  rfl

section Run
variable [NearestDivision.NearestDiv]

/-- The account of all requests and fills. The orders have numbers of their
own, in the order of their submission. -/
structure Account (exchangeId : ℕ) (start : PositionManager) (p : TradingPipeline) : Prop where
  gateway : Simulating p.gateway exchangeId
  requests : ∃ rest, p.entered = p.handled++rest ∧ rest.map Prod.snd = p.engine.ctx.orderOutput
  fills : p.gateway.callbacks.map dealIn = (p.filledOrders exchangeId).map dealOf
  order : p.received.Sublist p.gateway.callbacks
  complete : (p.received++p.dropped).Perm p.gateway.callbacks
  positions : p.engine.ctx.positionManager = PositionManager.run p.applied start
  numbered : ((p.entered.filter isOrder).map (fun x => x.2.orderId)).Pairwise (· < ·)
  fresh : ∀ x ∈ p.entered, isOrder x = true → x.2.orderId < p.engine.ctx.currentId

def FewIds (p : TradingPipeline) (_ : Action) : Prop := p.engine.ctx.currentId+1 < 2^64

instance FewIds.decidable (p : TradingPipeline) (a : Action) : Decidable (FewIds p a) :=
  inferInstanceAs (Decidable (_ < _))

theorem enter_account (exchangeId : ℕ) (start : PositionManager) (p : TradingPipeline)
    (ctx : StrategyContext) (hc : Called p.engine.ctx ctx) (h : Account exchangeId start p) :
    Account exchangeId start (p.enter ctx) := by
  obtain ⟨rest,hentered,hqueue⟩ := h.requests
  unfold enter
  cases hcalling : p.calling with
  | none => exact h
  | some c =>
    cases hc with
    | kept queue positions ids =>
      have hnone : p.entered++(ctx.orderOutput.drop p.engine.ctx.orderOutput.length).map (c,·) =
          p.entered := by simp [queue]
      constructor
      case gateway => exact h.gateway
      case requests => exact ⟨rest,hnone.trans hentered,hqueue.trans queue.symm⟩
      case fills => exact h.fills
      case order => exact h.order
      case complete => exact h.complete
      case positions => exact positions.trans h.positions
      case numbered =>
        dsimp only
        rw [hnone]
        exact h.numbered
      case fresh =>
        dsimp only
        rw [hnone]
        exact fun x hx ho => (h.fresh x hx ho).trans_le ids
    | added order queue positions ids named =>
      have hone : p.entered++(ctx.orderOutput.drop p.engine.ctx.orderOutput.length).map (c,·) =
          p.entered++[(c,order)] := by simp [queue]
      constructor
      case gateway => exact h.gateway
      case requests =>
        refine ⟨rest++[(c,order)],?_,?_⟩
        · dsimp only
          rw [hone, hentered, List.append_assoc]
          rfl
        · rw [List.map_append, hqueue]
          exact queue.symm
      case fills => exact h.fills
      case order => exact h.order
      case complete => exact h.complete
      case positions => exact positions.trans h.positions
      case numbered =>
        dsimp only
        rw [hone, List.filter_append, List.map_append]
        refine List.pairwise_append.mpr ⟨h.numbered,?_,?_⟩
        · cases hq : isOrder (c,order) <;> simp [hq]
        · intro a ha b hb
          obtain ⟨x,hx,rfl⟩ := List.mem_map.mp ha
          obtain ⟨y,hy,rfl⟩ := List.mem_map.mp hb
          obtain ⟨hmem,ho⟩ := List.mem_filter.mp hx
          obtain ⟨hy,hyo⟩ := List.mem_filter.mp hy
          obtain rfl := List.mem_singleton.mp hy
          exact (h.fresh x hmem ho).trans_le (named (by simpa [isOrder] using hyo)).2.1
      case fresh =>
        dsimp only
        rw [hone]
        intro x hx ho
        rcases List.mem_append.mp hx with hx | hx
        · exact (h.fresh x hx ho).trans_le ids
        · obtain rfl := List.mem_singleton.mp hx
          exact (named (by simpa [isOrder] using ho)).2.2

theorem engine_account (exchangeId : ℕ) (start : PositionManager) (p q : TradingPipeline)
    (hqueue : q.engine.ctx.orderOutput = p.engine.ctx.orderOutput)
    (hpos : q.engine.ctx.positionManager = p.engine.ctx.positionManager)
    (hid : q.engine.ctx.currentId = p.engine.ctx.currentId) (hgateway : q.gateway = p.gateway)
    (hrequests : q.entered = p.entered ∧ q.handled = p.handled)
    (hfills : q.fillQueue = p.fillQueue ∧ q.applied = p.applied ∧ q.dropped = p.dropped)
    (h : Account exchangeId start p) : Account exchangeId start q := by
  obtain ⟨hentered,hhandled⟩ := hrequests
  obtain ⟨hwaiting,happlied,hdropped⟩ := hfills
  have hreceived : q.received = p.received := by rw [received, received, happlied, hwaiting]
  constructor
  case gateway => rw [hgateway]; exact h.gateway
  case requests => rw [hentered, hhandled, hqueue]; exact h.requests
  case fills => rw [hgateway, filledOrders, hhandled]; exact h.fills
  case order => rw [hreceived, hgateway]; exact h.order
  case complete => rw [hreceived, hdropped, hgateway]; exact h.complete
  case positions => rw [hpos, happlied]; exact h.positions
  case numbered => rw [hentered]; exact h.numbered
  case fresh => rw [hentered, hid]; exact h.fresh

theorem handled_account (exchangeId : ℕ) (start : PositionManager) (p q : TradingPipeline)
    (x : Call × OrderRequest) (rest : List (Call × OrderRequest)) (io : Surroundings)
    (h : Account exchangeId start p) (hentered : p.entered = p.handled++x::rest)
    (hqueue : q.engine.ctx.orderOutput = rest.map Prod.snd)
    (hengine : ∃ ctx, q.engine = { p.engine with ctx := ctx } ∧
      ctx.positionManager = p.engine.ctx.positionManager ∧ ctx.currentId = p.engine.ctx.currentId)
    (hgateway : q.gateway = p.gateway.processOrder x.2 io) (hhandled : q.handled = p.handled++[x])
    (hkept : q.entered = p.entered ∧ q.applied = p.applied)
    (horder : q.received.Sublist q.gateway.callbacks)
    (hcomplete : (q.received++q.dropped).Perm q.gateway.callbacks) : Account exchangeId start q := by
  obtain ⟨hsim,hcall⟩ := processOrder_simulating p.gateway exchangeId x.2 io h.gateway
  obtain ⟨ctx,hctx,hpos,hid⟩ := hengine
  obtain ⟨hent,happ⟩ := hkept
  constructor
  case gateway => rw [hgateway]; exact hsim
  case requests =>
    refine ⟨rest,?_,hqueue.symm⟩
    rw [hent, hentered, hhandled, List.append_assoc]
    rfl
  case fills =>
    rw [hgateway, hcall, filledOrders, hhandled, List.map_append, List.map_append, List.filter_append,
      List.map_append, h.fills, filledOrders]
    congr 1
    cases hf : fillable exchangeId x.2 <;> simp [hf, dealIn, dealOf, OrderGateway.simulatedFill]
  case order => exact horder
  case complete => exact hcomplete
  case positions =>
    rw [happ, ← h.positions, hctx]
    exact hpos
  case numbered => rw [hent]; exact h.numbered
  case fresh =>
    rw [hent, hctx]
    exact fun y hy ho => (h.fresh y hy ho).trans_eq hid.symm

theorem handle_account (exchangeId : ℕ) (start : PositionManager) (p : TradingPipeline)
    (io : Surroundings) (h : Account exchangeId start p) : Account exchangeId start (p.handle io) := by
  obtain ⟨rest,hentered,hqueue⟩ := h.requests
  unfold handle
  cases hq : p.engine.ctx.orderOutput with
  | nil => exact h
  | cons order queue =>
    rw [hq] at hqueue
    obtain ⟨x,rest,rfl,rfl,hrest⟩ : ∃ x rest', rest = x::rest' ∧ x.2 = order ∧
        rest'.map Prod.snd = queue := by
      cases rest with
      | nil => cases hqueue
      | cons x rest => exact ⟨x,rest,rfl,(List.cons.inj hqueue).1,(List.cons.inj hqueue).2⟩
    obtain ⟨hsim,hcall⟩ := processOrder_simulating p.gateway exchangeId x.2 io h.gateway
    have hnext : ((p.entered.drop p.handled.length).head?).toList = [x] := by
      rw [hentered, List.drop_left]
      rfl
    simp only [StrategyContext.tryPop, hnext]
    rw [hcall, List.drop_left]
    have hbase := handled_account exchangeId start p
    cases hf : fillable exchangeId x.2 with
    | false =>
      rw [hf] at hcall
      simp only [Bool.false_eq_true, if_false, List.append_nil] at hcall
      refine hbase _ x rest io h hentered hrest.symm ⟨_,rfl,rfl,rfl⟩ rfl rfl ⟨rfl,rfl⟩ ?_ ?_
      · exact hcall.symm ▸ h.order
      · exact hcall.symm ▸ h.complete
    | true =>
      rw [hf] at hcall
      simp only [if_true] at hcall
      simp only [if_true, List.foldl_cons, List.foldl_nil]
      obtain ⟨fq,d,hpush⟩ := pushFill_fields
        { p.setContext { p.engine.ctx with orderOutput := queue } with
          gateway := p.gateway.processOrder x.2 io, handled := p.handled++[x] }
        (OrderGateway.simulatedFill x.2 io.sendTimeUs)
      obtain ⟨hsub,hperm⟩ := pushFill_account
        { p.setContext { p.engine.ctx with orderOutput := queue } with
          gateway := p.gateway.processOrder x.2 io, handled := p.handled++[x] }
        (OrderGateway.simulatedFill x.2 io.sendTimeUs) p.gateway.callbacks h.order h.complete
      rw [← hcall] at hsub hperm
      rw [hpush] at hsub hperm ⊢
      exact hbase _ x rest io h hentered hrest.symm ⟨_,rfl,rfl,rfl⟩ rfl rfl ⟨rfl,rfl⟩ hsub hperm

theorem fresh_account (engine : StrategyEngine) (gateway : OrderGateway) (h : Fresh engine gateway) :
    Account gateway.exchangeId engine.ctx.positionManager (fresh engine gateway) where
  gateway := h.simulating
  requests := ⟨[],rfl,h.queue.symm⟩
  fills := by simp [fresh, h.callbacks, filledOrders]
  order := by simp [fresh, received]
  complete := by simp [fresh, received, h.callbacks]
  positions := rfl
  numbered := List.Pairwise.nil
  fresh _ hx := absurd hx List.not_mem_nil

section Deals
variable (exchangeId : ℕ) (start : PositionManager) (p : TradingPipeline)

theorem deals_perm (h : Account exchangeId start p) :
    ((p.received++p.dropped).map dealIn).Perm ((p.filledOrders exchangeId).map dealOf) :=
  (h.complete.map dealIn).trans (List.Perm.of_eq h.fills)

/-- The orders filled are among the orders entered, in their order. -/
theorem filledOrders_sublist (h : Account exchangeId start p) :
    ((p.filledOrders exchangeId).map OrderRequest.orderId).Sublist
      ((p.entered.filter isOrder).map (fun x => x.2.orderId)) := by
  obtain ⟨rest,hentered,-⟩ := h.requests
  have hsub : (p.handled.filter (fun x => fillable exchangeId x.2)).Sublist (p.entered.filter isOrder) := by
    refine (List.monotone_filter_right p.handled ?_).trans
      (List.Sublist.filter isOrder (hentered ▸ List.sublist_append_left p.handled rest))
    intro x hx
    simp only [fillable, Bool.and_eq_true, isOrder] at hx ⊢
    exact hx.2
  have hmap := hsub.map (fun x => x.2.orderId)
  rwa [filledOrders, List.filter_map, List.map_map]

theorem deals_nodup (h : Account exchangeId start p) :
    ((p.received++p.dropped).map Fill.orderId).Nodup := by
  have horders : ((p.filledOrders exchangeId).map OrderRequest.orderId).Nodup :=
    (filledOrders_sublist exchangeId start p h).nodup (h.numbered.imp fun hlt => hlt.ne)
  have hperm := (deals_perm exchangeId start p h).map Deal.orderId
  rw [List.map_map, List.map_map] at hperm
  exact hperm.nodup_iff.mpr horders

end Deals

theorem submitOrder_called (ctx : StrategyContext) (order : OrderRequest) (t : ClockReadings)
    (hfew : ctx.currentId+1 < 2^64) : Called ctx (ctx.submitOrder order t).1 := by
  have hid : (ctx.currentId+1)%2^64 = ctx.currentId+1 := Nat.mod_eq_of_lt hfew
  unfold StrategyContext.submitOrder
  rcases ctx.enqueueOrder_cases order t with ⟨-,h⟩ | ⟨-,h | h⟩ <;> rw [h]
  · exact Called.kept rfl rfl (le_refl _)
  · exact Called.kept rfl rfl (by simp only [hid]; omega)
  · exact Called.added (ctx.stamped order) rfl rfl (by simp only [hid]; omega)
      (fun _ => ⟨rfl,le_refl _,by simp only [hid]; exact Nat.lt_succ_self _⟩)

theorem positions_snoc (fills : List (Fill Decimal)) (f : Fill Decimal) (pm : PositionManager) :
    PositionManager.run (fills++[f]) pm = ((PositionManager.run fills pm).updatePosition f).1 := by
  induction fills generalizing pm with
  | nil => rfl
  | cons g fills ih => exact ih (pm.updatePosition g).1

theorem takeFill_account (exchangeId : ℕ) (start : PositionManager) (p : TradingPipeline)
    (h : Account exchangeId start p) : Account exchangeId start p.takeFill := by
  unfold takeFill
  cases hq : p.fillQueue with
  | nil => exact h
  | cons f queue =>
    have hreceived : p.received = p.applied++[f]++queue := by simp [received, hq]
    constructor
    case gateway => exact h.gateway
    case requests => exact h.requests
    case fills => exact h.fills
    case order =>
      have horder := h.order
      rw [hreceived] at horder
      exact horder
    case complete =>
      have hcomplete := h.complete
      rw [hreceived] at hcomplete
      exact hcomplete
    case positions =>
      change (p.engine.ctx.positionManager.updatePosition f).1 = _
      rw [h.positions]
      exact (positions_snoc p.applied f start).symm
    case numbered => exact h.numbered
    case fresh => exact h.fresh

theorem call_account (exchangeId : ℕ) (start : PositionManager) (p : TradingPipeline)
    (h : Account exchangeId start p) : Account exchangeId start p.call := by
  unfold call
  cases p.agenda with
  | nil => exact engine_account exchangeId start p _ rfl rfl rfl rfl ⟨rfl,rfl⟩ ⟨rfl,rfl,rfl⟩ h
  | cons c rest =>
    have hname : (c.name p.engine.ctx).orderOutput = p.engine.ctx.orderOutput ∧
        (c.name p.engine.ctx).positionManager = p.engine.ctx.positionManager ∧
        (c.name p.engine.ctx).currentId = p.engine.ctx.currentId := by
      unfold Call.name
      split_ifs <;> exact ⟨rfl,rfl,rfl⟩
    exact engine_account exchangeId start p _ hname.1 hname.2.1 hname.2.2 rfl ⟨rfl,rfl⟩ ⟨rfl,rfl,rfl⟩ h

theorem step_account (exchangeId : ℕ) (start : PositionManager) (p : TradingPipeline) (a : Action)
    (hfew : FewIds p a) (h : Account exchangeId start p) : Account exchangeId start (p.step a) := by
  cases a with
  | tick t =>
    rw [step]
    split_ifs
    · exact engine_account exchangeId start p _ rfl rfl rfl rfl ⟨rfl,rfl⟩ ⟨rfl,rfl,rfl⟩ h
    · exact h
  | fill =>
    rw [step]
    split_ifs
    · exact takeFill_account exchangeId start p h
    · exact h
  | timer =>
    rw [step]
    split_ifs
    · exact engine_account exchangeId start p _ rfl rfl rfl rfl ⟨rfl,rfl⟩ ⟨rfl,rfl,rfl⟩ h
    · exact h
  | call => exact call_account exchangeId start p h
  | submit order t => exact enter_account exchangeId start p _ (submitOrder_called _ order t hfew) h
  | cancel orderId => exact enter_account exchangeId start p _ (cancelOrder_called _ orderId) h
  | handle io => exact handle_account exchangeId start p io h

theorem run_account (engine : StrategyEngine) (gateway : OrderGateway) (h : Fresh engine gateway)
    (actions : List Action) (hok : Schedule.Allowed step FewIds actions (fresh engine gateway)) :
    Account gateway.exchangeId engine.ctx.positionManager
      (Schedule.run step actions (fresh engine gateway)) :=
  Schedule.invariant step FewIds (Account gateway.exchangeId engine.ctx.positionManager)
    (fun p a => step_account gateway.exchangeId engine.ctx.positionManager p a) actions _ hok
    (fresh_account engine gateway h)

/-- At every moment the position of a symbol, the fills that wait and those
that were dropped add up to the orders the gateway has filled. -/
theorem positions_reconcile (engine : StrategyEngine) (gateway : OrderGateway) (h : Fresh engine gateway)
    (hflat : engine.ctx.positionManager = {}) (actions : List Action)
    (hok : Schedule.Allowed step FewIds actions (fresh engine gateway)) (s : ℕ)
    (hfits : Fits (PositionConservation.exactFilled
      (Schedule.run step actions (fresh engine gateway)).applied s)) :
    ((Schedule.run step actions (fresh engine gateway)).engine.ctx.positionManager.quantityOf s).raw+
        PositionConservation.exactFilled (Schedule.run step actions (fresh engine gateway)).fillQueue s+
        PositionConservation.exactFilled (Schedule.run step actions (fresh engine gateway)).dropped s =
      exactOrdered ((Schedule.run step actions (fresh engine gateway)).filledOrders gateway.exchangeId) s := by
  have haccount := run_account engine gateway h actions hok
  rw [hflat] at haccount
  generalize Schedule.run step actions (fresh engine gateway) = p at haccount hfits
  have hposition : (p.engine.ctx.positionManager.quantityOf s).raw =
      PositionConservation.exactFilled p.applied s := by
    rw [haccount.positions, PositionConservation.run_quantity, PositionConservation.filled_wrap]
    change (0+Decimal.wrap _).raw = _
    rw [zero_add, Decimal.wrap_raw_of_fits _ hfits]
  have hsum := ((deals_perm gateway.exchangeId {} p haccount).map (dealSigned s)).sum_eq
  rw [hposition, exactOrdered_deals, ← hsum, exactFilled_deals, exactFilled_deals, exactFilled_deals]
  simp only [received, List.map_append, List.sum_append]

end Run

def oneStrategy : StrategyEngine :=
  .new { riskEngine := RiskEngine.initial } [{ id := 1, symbols := [], isWildcard := true }]

def simulatedGateway : OrderGateway := { simulateFills := true, exchangeId := 1 }

theorem oneStrategy_fresh : Fresh oneStrategy simulatedGateway :=
  ⟨⟨rfl,rfl,rfl,fun _ => rfl⟩,rfl,rfl⟩

def buyTwo : OrderRequest :=
  { symbolId := 1, exchangeId := 1, price := Decimal.ofInt 100, quantity := Decimal.ofInt 2 }

def twoOrders : List Action :=
  [.call,.submit buyTwo ⟨0,0⟩,.call,.tick { symbolId := 1 },.call,.submit buyTwo ⟨0,0⟩,
    .cancel 1,.call,.handle {},.handle {},.fill,.fill,.call]

theorem twoOrders_ids : Schedule.Allowed step FewIds twoOrders (fresh oneStrategy simulatedGateway) := by
  decide +kernel

theorem twoOrders_reconcile :
    exactOrdered ((Schedule.run step twoOrders (fresh oneStrategy simulatedGateway)).filledOrders 1) 1 =
      4*2^32 :=
  (positions_reconcile oneStrategy simulatedGateway oneStrategy_fresh rfl twoOrders twoOrders_ids 1
    (by decide +kernel)).symm.trans (by decide +kernel)

end TradingPipeline
end Chronos
