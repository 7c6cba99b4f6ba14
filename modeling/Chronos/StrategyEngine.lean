import Chronos.OrderBookV2
import Chronos.StrategyContext
import Chronos.KeyedTable

/-!
# The strategy engine

The dispatch loop takes ticks and fills from its queues one at a time. A tick
updates the book of its symbol and goes to the strategies that subscribed to
it; a fill updates the position and goes to the strategy that owns the order.
What a strategy asks of its context in a callback is the environment's choice.
-/

set_option autoImplicit false

namespace Chronos
open KeyedTable

namespace StrategyEngine

inductive Request where
  | submit (order : OrderRequest) (t : ClockReadings)
  | cancel (orderId : ℕ)

structure StrategyEntry where
  id : ℕ
  symbols : List ℕ
  isWildcard : Bool

structure Responses where
  onTick : ℕ → List Request := fun _ => []
  onTimer : ℕ → List Request := fun _ => []
  onFill : ℕ → List Request := fun _ => []

def timerIntervalUs : ℕ := 100000

end StrategyEngine

open StrategyEngine in
structure StrategyEngine where
  ctx : StrategyContext
  orderBooks : Table ℕ OrderBookV2
  strategies : List StrategyEntry
  lastTimerUs : ℕ := 0
  ticksProcessed : ℕ := 0
  fillsProcessed : ℕ := 0

namespace StrategyEngine

def new (ctx : StrategyContext) (strategies : List StrategyEntry) : StrategyEngine where
  ctx := ctx
  orderBooks := .empty
  strategies := strategies

section Dispatch
variable [NearestDivision.NearestDiv]

def request (ctx : StrategyContext) : Request → StrategyContext
  | .submit order t => (ctx.submitOrder order t).1
  | .cancel orderId => (ctx.cancelOrder orderId).1

def respond (requests : ℕ → List Request) (ctx : StrategyContext) (id : ℕ) : StrategyContext :=
  (requests id).foldl request { ctx with currentStrategyId := id }

def dispatch (requests : ℕ → List Request) (entries : List StrategyEntry) (ctx : StrategyContext) :
    StrategyContext :=
  entries.foldl (fun ctx entry => respond requests ctx entry.id) ctx

def elapsed (now last : ℕ) : ℕ := (now+2^64-last)%2^64

def dispatchTick (e : StrategyEngine) (tick : Tick) (r : Responses) : StrategyEngine :=
  let book := (e.orderBooks.find tick.symbolId).getD .new
  let subscribed := e.strategies.filter (fun s => s.isWildcard || s.symbols.contains tick.symbolId)
  { e with
    ticksProcessed := e.ticksProcessed+1
    orderBooks := e.orderBooks.assign tick.symbolId (book.update tick)
    ctx := dispatch r.onTick subscribed { e.ctx with timestampUs := tick.receiveTimestampUs } }

def tickTimer (e : StrategyEngine) (tick : Tick) (r : Responses) : StrategyEngine :=
  if elapsed tick.receiveTimestampUs e.lastTimerUs > timerIntervalUs then
    { e with
      lastTimerUs := tick.receiveTimestampUs
      ctx := dispatch r.onTimer e.strategies e.ctx }
  else e

def processTick (e : StrategyEngine) (tick : Tick) (r : Responses) : StrategyEngine :=
  (e.dispatchTick tick r).tickTimer tick r

def processFill (e : StrategyEngine) (fill : Fill Decimal) (r : Responses) : StrategyEngine :=
  let ctx := { e.ctx with
    timestampUs := fill.receiveTimestampUs
    positionManager := (e.ctx.positionManager.updatePosition fill).1 }
  { e with
    fillsProcessed := e.fillsProcessed+1
    ctx := if e.strategies.any (fun s => s.id = fill.strategyId) then
        respond r.onFill ctx fill.strategyId
      else ctx }

def idleTimer (e : StrategyEngine) (r : Responses) : StrategyEngine :=
  { e with ctx := dispatch r.onTimer e.strategies e.ctx }

inductive Action where
  | tick (tick : Tick) (r : Responses)
  | fill (fill : Fill Decimal) (r : Responses)
  | idle (r : Responses)

def step (e : StrategyEngine) : Action → StrategyEngine
  | .tick t r => e.processTick t r
  | .fill f r => e.processFill f r
  | .idle r => e.idleTimer r

end Dispatch

section Queries
variable (e : StrategyEngine) (symbolId : ℕ)

/-- The answer of a symbol's book; a symbol without one has the default answer. The
outer option is that of the optimistic read. -/
def query {A : Type} (default : A) (answer : OrderBookV2 → Option A) : Option A :=
  match e.orderBooks.find symbolId with
  | none => some default
  | some book => answer book

def getBestBid : Option (Option Decimal) := e.query symbolId none OrderBookV2.getBestBid

def getBestAsk : Option (Option Decimal) := e.query symbolId none OrderBookV2.getBestAsk

def getMidPrice [NearestDivision.NearestDiv] : Option (Option Decimal) :=
  e.query symbolId none OrderBookV2.getMidPrice

def getTop5Bids : Option (Vector PriceLevel OrderBookV2.hotDepth) :=
  e.query symbolId (.replicate _ {}) OrderBookV2.getTop5Bids

def getTop5Asks : Option (Vector PriceLevel OrderBookV2.hotDepth) :=
  e.query symbolId (.replicate _ {}) OrderBookV2.getTop5Asks

def bookOf : OrderBookV2 := (e.orderBooks.find symbolId).getD .new

end Queries

def ticksOf (actions : List Action) : List Tick :=
  actions.filterMap (fun a => match a with
    | .tick t _ => some t
    | _ => none)

def feed (book : Option OrderBookV2) (ticks : List Tick) : Option OrderBookV2 :=
  ticks.foldl (fun b t => some ((b.getD .new).update t)) book

section Books
variable [NearestDivision.NearestDiv]

theorem tickTimer_orderBooks (e : StrategyEngine) (tick : Tick) (r : Responses) :
    (e.tickTimer tick r).orderBooks = e.orderBooks := by
  unfold tickTimer
  split_ifs <;> rfl

@[simp] theorem processTick_orderBooks (e : StrategyEngine) (tick : Tick) (r : Responses) :
    (e.processTick tick r).orderBooks =
      e.orderBooks.assign tick.symbolId (((e.orderBooks.find tick.symbolId).getD .new).update tick) :=
  tickTimer_orderBooks _ tick r

theorem step_book (e : StrategyEngine) (a : Action) (s : ℕ) :
    (e.step a).orderBooks.find s =
      feed (e.orderBooks.find s) ((ticksOf [a]).filter (fun t => t.symbolId = s)) := by
  cases a with
  | tick t r =>
    by_cases hs : t.symbolId = s
    · simp [step, ticksOf, feed, hs]
    · simp [step, ticksOf, feed, hs]
  | fill f r => rfl
  | idle r => rfl

/-- Over a whole run, a symbol's book is made by its own ticks. -/
theorem run_book (actions : List Action) (e : StrategyEngine) (s : ℕ) :
    (Schedule.run step actions e).orderBooks.find s =
      feed (e.orderBooks.find s) ((ticksOf actions).filter (fun t => t.symbolId = s)) := by
  induction actions generalizing e with
  | nil => rfl
  | cons a actions ih =>
    have hcons : ticksOf (a::actions) = ticksOf [a]++ticksOf actions := by
      rw [ticksOf, ← List.singleton_append, List.filterMap_append]
      rfl
    rw [Schedule.run, ih, step_book, hcons, List.filter_append]
    exact (List.foldl_append ..).symm

end Books

section Positions
variable [NearestDivision.NearestDiv]

theorem request_positions (ctx : StrategyContext) (r : Request) :
    (request ctx r).positionManager = ctx.positionManager := by
  cases r with
  | submit order t =>
    show (ctx.submitOrder order t).1.positionManager = _
    unfold StrategyContext.submitOrder
    rcases ctx.enqueueOrder_cases order t with ⟨-,h⟩ | ⟨-,h | h⟩ <;> rw [h] <;> rfl
  | cancel orderId =>
    show (ctx.cancelOrder orderId).1.positionManager = _
    rcases ctx.cancelOrder_cases orderId with h | h <;> rw [h]

theorem respond_positions (requests : ℕ → List Request) (ctx : StrategyContext) (id : ℕ) :
    (respond requests ctx id).positionManager = ctx.positionManager := by
  have hfold : ∀ (rs : List Request) (ctx : StrategyContext),
      (rs.foldl request ctx).positionManager = ctx.positionManager := by
    intro rs
    induction rs with
    | nil => exact fun _ => rfl
    | cons r rs ih => exact fun ctx => (ih (request ctx r)).trans (request_positions ctx r)
  exact hfold (requests id) { ctx with currentStrategyId := id }

theorem dispatch_positions (requests : ℕ → List Request) (entries : List StrategyEntry)
    (ctx : StrategyContext) : (dispatch requests entries ctx).positionManager = ctx.positionManager := by
  induction entries generalizing ctx with
  | nil => rfl
  | cons entry entries ih =>
    exact (ih (respond requests ctx entry.id)).trans (respond_positions requests ctx entry.id)

theorem processTick_positions (e : StrategyEngine) (tick : Tick) (r : Responses) :
    (e.processTick tick r).ctx.positionManager = e.ctx.positionManager := by
  unfold processTick tickTimer
  split_ifs
  · exact (dispatch_positions _ _ _).trans (dispatch_positions _ _ _)
  · exact dispatch_positions _ _ _

/-- A fill is applied to the positions once, whoever owns it. -/
theorem processFill_positions (e : StrategyEngine) (fill : Fill Decimal) (r : Responses) :
    (e.processFill fill r).ctx.positionManager = (e.ctx.positionManager.updatePosition fill).1 := by
  unfold processFill
  dsimp only
  split_ifs
  · exact respond_positions _ _ _
  · rfl

theorem idleTimer_positions (e : StrategyEngine) (r : Responses) :
    (e.idleTimer r).ctx.positionManager = e.ctx.positionManager :=
  dispatch_positions _ _ _

end Positions
end StrategyEngine
end Chronos
