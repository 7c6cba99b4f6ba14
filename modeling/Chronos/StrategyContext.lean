import Chronos.RiskEngine
import Chronos.Schedule

/-!
# Order submission

`submitOrder` asks the risk engine, draws an identifier, stamps the order and
offers it to the bounded output queue. The queue is read here as the bounded
sequence of orders it holds. A desk puts the context between its two sides:
strategies that submit and a market that fills what was enqueued.
-/

set_option autoImplicit false

namespace Chronos

structure StrategyContext where
  riskEngine : RiskEngine
  positionManager : PositionManager := {}
  currentId : ℕ := 1
  orderOutput : List OrderRequest := []
  timestampUs : ℕ := 0
  currentStrategyId : ℕ := 0
  ordersSubmitted : ℕ := 0
  ordersRiskRejected : ℕ := 0
  ordersQueueDropped : ℕ := 0

namespace StrategyContext

def orderQueueCapacity : ℕ := 1024

def tryPush (queue : List OrderRequest) (order : OrderRequest) : Option (List OrderRequest) :=
  if queue.length < orderQueueCapacity then some (queue++[order]) else none

def tryPop : List OrderRequest → Option (OrderRequest × List OrderRequest)
  | [] => none
  | order::queue => some (order,queue)

def generate (ctx : StrategyContext) : StrategyContext × ℕ :=
  ({ ctx with currentId := (ctx.currentId+1)%2^64 },ctx.currentId)

section Submit
variable [NearestDivision.NearestDiv]

/-- `submitOrder`, returning the order as it was enqueued. -/
def enqueueOrder (ctx : StrategyContext) (order : OrderRequest) (t : ClockReadings) :
    StrategyContext × Option OrderRequest :=
  let (engine,result) := ctx.riskEngine.checkOrder ctx.positionManager order t
  let ctx := { ctx with riskEngine := engine }
  if result.passed = false then
    ({ ctx with ordersRiskRejected := ctx.ordersRiskRejected+1 },none)
  else
    let (ctx,id) := ctx.generate
    let validated := { order with
      orderId := id
      timestampUs := ctx.timestampUs
      strategyId := ctx.currentStrategyId }
    match tryPush ctx.orderOutput validated with
    | none => ({ ctx with ordersQueueDropped := ctx.ordersQueueDropped+1 },none)
    | some queue =>
      ({ ctx with orderOutput := queue, ordersSubmitted := ctx.ordersSubmitted+1 },some validated)

def submitOrder (ctx : StrategyContext) (order : OrderRequest) (t : ClockReadings) :
    StrategyContext × ℕ :=
  let (ctx,validated) := ctx.enqueueOrder order t
  (ctx,(validated.map OrderRequest.orderId).getD 0)

end Submit

def cancelOrder (ctx : StrategyContext) (orderId : ℕ) : StrategyContext × Bool :=
  let cancel : OrderRequest := { orderId := orderId, quantity := 0, timestampUs := ctx.timestampUs }
  match tryPush ctx.orderOutput cancel with
  | none => (ctx,false)
  | some queue => ({ ctx with orderOutput := queue },true)

theorem cancelOrder_cases (ctx : StrategyContext) (orderId : ℕ) :
    ctx.cancelOrder orderId = (ctx,false) ∨
      ctx.cancelOrder orderId =
        ({ ctx with orderOutput := ctx.orderOutput++
          [{ orderId := orderId, quantity := 0, timestampUs := ctx.timestampUs }] },true) := by
  unfold cancelOrder tryPush
  by_cases hroom : ctx.orderOutput.length < orderQueueCapacity
  · exact Or.inr (by simp [hroom])
  · exact Or.inl (by simp [hroom])

theorem cancelOrder_queue (ctx : StrategyContext) (orderId : ℕ) :
    ∃ more, (ctx.cancelOrder orderId).1.orderOutput = ctx.orderOutput++more := by
  rcases ctx.cancelOrder_cases orderId with h | h
  · exact ⟨[],by rw [h, List.append_nil]⟩
  · exact ⟨_,congrArg (fun r => r.1.orderOutput) h⟩

def stamped (ctx : StrategyContext) (order : OrderRequest) : OrderRequest :=
  { order with
    orderId := ctx.currentId
    timestampUs := ctx.timestampUs
    strategyId := ctx.currentStrategyId }

section Cases
variable [NearestDivision.NearestDiv]
variable (ctx : StrategyContext) (order : OrderRequest) (t : ClockReadings)

def afterCheck : StrategyContext :=
  { ctx with riskEngine := (ctx.riskEngine.checkOrder ctx.positionManager order t).1 }

theorem enqueueOrder_rejected
    (h : (ctx.riskEngine.checkOrder ctx.positionManager order t).2.passed = false) :
    ctx.enqueueOrder order t =
      ({ ctx.afterCheck order t with ordersRiskRejected := ctx.ordersRiskRejected+1 },none) := by
  unfold enqueueOrder afterCheck
  dsimp only
  rw [if_pos h]

theorem enqueueOrder_dropped
    (h : (ctx.riskEngine.checkOrder ctx.positionManager order t).2.passed = true)
    (hfull : ¬ctx.orderOutput.length < orderQueueCapacity) :
    ctx.enqueueOrder order t =
      ({ ctx.afterCheck order t with
        currentId := (ctx.currentId+1)%2^64
        ordersQueueDropped := ctx.ordersQueueDropped+1 },none) := by
  unfold enqueueOrder afterCheck
  dsimp only
  rw [h, if_neg (by decide)]
  simp only [generate, tryPush, hfull, if_false]

theorem enqueueOrder_enqueued
    (h : (ctx.riskEngine.checkOrder ctx.positionManager order t).2.passed = true)
    (hroom : ctx.orderOutput.length < orderQueueCapacity) :
    ctx.enqueueOrder order t =
      ({ ctx.afterCheck order t with
        currentId := (ctx.currentId+1)%2^64
        orderOutput := ctx.orderOutput++[ctx.stamped order]
        ordersSubmitted := ctx.ordersSubmitted+1 },some (ctx.stamped order)) := by
  unfold enqueueOrder afterCheck
  dsimp only
  rw [h, if_neg (by decide)]
  simp only [generate, tryPush, hroom, if_true, stamped]

/-- The three ways of `enqueueOrder`. -/
theorem enqueueOrder_cases :
    ((ctx.riskEngine.checkOrder ctx.positionManager order t).2.passed = false ∧
      ctx.enqueueOrder order t = ({ ctx.afterCheck order t with
        ordersRiskRejected := ctx.ordersRiskRejected+1 },none)) ∨
    (ctx.riskEngine.checkOrder ctx.positionManager order t).2.passed = true ∧
      (ctx.enqueueOrder order t = ({ ctx.afterCheck order t with
          currentId := (ctx.currentId+1)%2^64
          ordersQueueDropped := ctx.ordersQueueDropped+1 },none) ∨
        ctx.enqueueOrder order t = ({ ctx.afterCheck order t with
          currentId := (ctx.currentId+1)%2^64
          orderOutput := ctx.orderOutput++[ctx.stamped order]
          ordersSubmitted := ctx.ordersSubmitted+1 },some (ctx.stamped order))) := by
  by_cases h : (ctx.riskEngine.checkOrder ctx.positionManager order t).2.passed = true
  · by_cases hroom : ctx.orderOutput.length < orderQueueCapacity
    · exact Or.inr ⟨h,Or.inr (ctx.enqueueOrder_enqueued order t h hroom)⟩
    · exact Or.inr ⟨h,Or.inl (ctx.enqueueOrder_dropped order t h hroom)⟩
  · rw [Bool.not_eq_true] at h
    exact Or.inl ⟨h,ctx.enqueueOrder_rejected order t h⟩

theorem submitOrder_queue :
    ∃ more, (ctx.submitOrder order t).1.orderOutput = ctx.orderOutput++more := by
  unfold submitOrder
  rcases ctx.enqueueOrder_cases order t with ⟨-,h⟩ | ⟨-,h | h⟩ <;> rw [h]
  · exact ⟨[],(List.append_nil _).symm⟩
  · exact ⟨[],(List.append_nil _).symm⟩
  · exact ⟨_,rfl⟩

end Cases

end StrategyContext

structure OpenOrder where
  order : OrderRequest
  remaining : ℤ

structure Desk where
  ctx : StrategyContext
  accepted : List OpenOrder := []

inductive DeskAction where
  | dispatch (timestampUs strategyId : ℕ)
  | submit (order : OrderRequest) (t : ClockReadings)
  | cancel (orderId : ℕ)
  | pop
  | fill (index : ℕ) (f : Fill Decimal)

namespace Desk

def take : List OpenOrder → ℕ → ℤ → List OpenOrder
  | [], _, _ => []
  | o::os, 0, q => { o with remaining := o.remaining-q }::os
  | o::os, n+1, q => o::take os n q

section Step
variable [NearestDivision.NearestDiv]

def step (d : Desk) : DeskAction → Desk
  | .dispatch timestampUs strategyId =>
    { d with ctx := { d.ctx with timestampUs := timestampUs, currentStrategyId := strategyId } }
  | .submit order t =>
    let (ctx,validated) := d.ctx.enqueueOrder order t
    { d with
      ctx := ctx
      accepted := d.accepted++(validated.toList.map (fun o => ⟨o,o.quantity.raw⟩)) }
  | .cancel orderId => { d with ctx := (d.ctx.cancelOrder orderId).1 }
  | .pop =>
    match StrategyContext.tryPop d.ctx.orderOutput with
    | none => d
    | some (_,queue) => { d with ctx := { d.ctx with orderOutput := queue } }
  | .fill index f =>
    { d with
      ctx := { d.ctx with positionManager := (d.ctx.positionManager.updatePosition f).1 }
      accepted := take d.accepted index f.fillQuantity.raw }

end Step
end Desk
end Chronos
