import Chronos.StrategyContext

/-!
# The account of submitted orders

Strategies are dispatched, submit and cancel; the output queue is popped; the
risk engine and the positions may change in any way in between. A record is
kept of every call of `submitOrder` and of everything that entered and left
the queue, with what `submitOrder` itself put there marked.
-/

set_option autoImplicit false

namespace Chronos.OrderSubmission
open StrategyContext

structure Call where
  order : OrderRequest
  strategyId : ℕ
  passed : Bool
  returned : ℕ
  enqueued : List OrderRequest

structure State where
  ctx : StrategyContext
  dispatched : ℕ := 0
  calls : List Call := []
  entered : List (OrderRequest × Bool) := []
  popped : List OrderRequest := []

inductive Action where
  | dispatch (timestampUs strategyId : ℕ)
  | environment (riskEngine : RiskEngine) (positionManager : PositionManager)
  | submit (order : OrderRequest) (t : ClockReadings)
  | cancel (orderId : ℕ)
  | pop

def added (before after : List OrderRequest) : List OrderRequest := after.drop before.length

def State.record (s : State) (ctx : StrategyContext) (call : Call) : State :=
  { s with
    ctx := ctx
    calls := s.calls++[call]
    entered := s.entered++call.enqueued.map (fun o => (o,true)) }

def start (riskEngine : RiskEngine) (positionManager : PositionManager) : State where
  ctx := { riskEngine := riskEngine, positionManager := positionManager }

def submitted (s : State) : List OrderRequest := (s.entered.filter Prod.snd).map Prod.fst

def drawn (s : State) : ℕ := s.calls.countP Call.passed

/-- A call returns the id its order was enqueued with, or zero and nothing
was; what was enqueued passed the check as it is, under the strategy's id. -/
structure Call.Answered (call : Call) : Prop where
  nonzero : call.returned ≠ 0 ↔ ∃ o, call.enqueued = [o] ∧ o.orderId = call.returned
  zero : call.returned = 0 → call.enqueued = []
  checked : ∀ o ∈ call.enqueued, call.passed = true ∧ o.symbolId = call.order.symbolId ∧
    o.side = call.order.side ∧ o.price = call.order.price ∧ o.quantity = call.order.quantity
  strategy : ∀ o ∈ call.enqueued, o.strategyId = call.strategyId

structure Accounted (s : State) : Prop where
  answered : ∀ call ∈ s.calls, call.Answered
  /-- What came out and what is inside is what entered, in that order. -/
  output : s.popped++s.ctx.orderOutput = s.entered.map Prod.fst
  fromCalls : submitted s = s.calls.flatMap Call.enqueued
  increasing : ((submitted s).map OrderRequest.orderId).Pairwise (· < ·)
  counted : s.calls.length = s.ctx.ordersSubmitted+s.ctx.ordersRiskRejected+s.ctx.ordersQueueDropped

structure Inv (s : State) : Prop where
  accounted : Accounted s
  next : s.ctx.currentId = (drawn s+1)%2^64
  below : ∀ o ∈ submitted s, o.orderId ≤ drawn s
  strategy : s.ctx.currentStrategyId = s.dispatched

theorem added_append (before more : List OrderRequest) : added before (before++more) = more :=
  List.drop_left

theorem added_self (queue : List OrderRequest) : added queue queue = [] :=
  List.drop_length

theorem submitted_append (s s' : State) (orders : List OrderRequest) (mark : Bool)
    (h : s'.entered = s.entered++orders.map (fun o => (o,mark))) :
    submitted s' = submitted s++if mark then orders else [] := by
  have hmarked : ((orders.map (fun o => (o,mark))).filter Prod.snd).map Prod.fst =
      if mark then orders else [] := by
    cases mark <;> simp [List.filter_map, Function.comp_def]
  rw [submitted, h, List.filter_append, List.map_append, hmarked]
  rfl

theorem start_inv (riskEngine : RiskEngine) (positionManager : PositionManager) :
    Inv (start riskEngine positionManager) where
  accounted := {
    answered := List.forall_mem_nil _
    output := rfl
    fromCalls := rfl
    increasing := List.Pairwise.nil
    counted := rfl }
  next := rfl
  below := List.forall_mem_nil _
  strategy := rfl

theorem Inv.keep (s s' : State) (h : Inv s) (hcalls : s'.calls = s.calls)
    (hsubmitted : submitted s' = submitted s)
    (houtput : s'.popped++s'.ctx.orderOutput = s'.entered.map Prod.fst)
    (hnext : s'.ctx.currentId = s.ctx.currentId)
    (hcount : s'.ctx.ordersSubmitted+s'.ctx.ordersRiskRejected+s'.ctx.ordersQueueDropped =
      s.ctx.ordersSubmitted+s.ctx.ordersRiskRejected+s.ctx.ordersQueueDropped)
    (hstrategy : s'.ctx.currentStrategyId = s'.dispatched) : Inv s' := by
  have hdrawn : drawn s' = drawn s := congrArg (List.countP Call.passed) hcalls
  constructor
  case accounted =>
    constructor
    case answered =>
      rw [hcalls]
      exact h.accounted.answered
    case output => exact houtput
    case fromCalls =>
      rw [hsubmitted, hcalls]
      exact h.accounted.fromCalls
    case increasing =>
      rw [hsubmitted]
      exact h.accounted.increasing
    case counted => rw [hcalls, hcount, h.accounted.counted]
  case next => rw [hnext, hdrawn, h.next]
  case below =>
    rw [hsubmitted, hdrawn]
    exact h.below
  case strategy => exact hstrategy

theorem nothing_answered (order : OrderRequest) (strategyId : ℕ) (passed : Bool) :
    Call.Answered ⟨order,strategyId,passed,0,[]⟩ where
  nonzero := by simp
  zero _ := rfl
  checked := List.forall_mem_nil _
  strategy := List.forall_mem_nil _

theorem stamped_answered (s : State) (order : OrderRequest) (h : Inv s) (h0 : s.ctx.currentId ≠ 0) :
    Call.Answered ⟨order,s.dispatched,true,s.ctx.currentId,[s.ctx.stamped order]⟩ where
  nonzero := iff_of_true h0 ⟨_,rfl,rfl⟩
  zero h := absurd h h0
  checked := List.forall_mem_singleton.mpr ⟨rfl,rfl,rfl,rfl,rfl⟩
  strategy := List.forall_mem_singleton.mpr h.strategy

theorem drawn_record (s : State) (ctx : StrategyContext) (call : Call) :
    drawn (s.record ctx call) = drawn s+if call.passed then 1 else 0 := by
  rw [drawn, State.record, List.countP_append, List.countP_singleton]
  rfl

theorem submitted_record (s : State) (ctx : StrategyContext) (call : Call) :
    submitted (s.record ctx call) = submitted s++call.enqueued :=
  submitted_append s _ call.enqueued true rfl

/-- One more call on the record: its order drew the next id if the check let
it through, and carries that id if it is in the queue. -/
theorem Inv.record (s : State) (ctx : StrategyContext) (call : Call) (h : Inv s)
    (hqueue : ctx.orderOutput = s.ctx.orderOutput++call.enqueued) (hcall : call.Answered)
    (hid : ∀ o ∈ call.enqueued, o.orderId = drawn s+1) (hone : call.enqueued.length ≤ 1)
    (hnext : ctx.currentId = (drawn (s.record ctx call)+1)%2^64)
    (hcount : ctx.ordersSubmitted+ctx.ordersRiskRejected+ctx.ordersQueueDropped =
      s.ctx.ordersSubmitted+s.ctx.ordersRiskRejected+s.ctx.ordersQueueDropped+1)
    (hstrategy : ctx.currentStrategyId = s.ctx.currentStrategyId) : Inv (s.record ctx call) := by
  constructor
  case accounted =>
    constructor
    case answered =>
      exact List.forall_mem_append.mpr ⟨h.accounted.answered,List.forall_mem_singleton.mpr hcall⟩
    case output =>
      show s.popped++ctx.orderOutput = (s.entered++call.enqueued.map (fun o => (o,true))).map Prod.fst
      rw [hqueue, ← List.append_assoc, h.accounted.output, List.map_append, List.map_map]
      exact congrArg _ (List.map_id _).symm
    case fromCalls =>
      rw [submitted_record, h.accounted.fromCalls]
      show _ = (s.calls++[call]).flatMap Call.enqueued
      rw [List.flatMap_append, List.flatMap_singleton]
    case increasing =>
      rw [submitted_record, List.map_append, List.pairwise_append]
      refine ⟨h.accounted.increasing,?_,?_⟩
      · match henqueued : call.enqueued with
        | [] => exact List.Pairwise.nil
        | [o] => exact List.pairwise_singleton _ _
        | o::o'::os => exact absurd hone (by simp [henqueued])
      · intro a ha b hb
        obtain ⟨o,ho,rfl⟩ := List.mem_map.mp ha
        obtain ⟨o',ho',rfl⟩ := List.mem_map.mp hb
        rw [hid o' ho']
        exact Nat.lt_succ_of_le (h.below o ho)
    case counted =>
      show (s.calls++[call]).length = _
      rw [List.length_append, h.accounted.counted]
      exact hcount.symm
  case next => exact hnext
  case below =>
    intro o ho
    rw [submitted_record, List.mem_append] at ho
    rw [drawn_record]
    rcases ho with ho | ho
    · exact (h.below o ho).trans (Nat.le_add_right _ _)
    · rw [hid o ho, if_pos (hcall.checked o ho).1]
  case strategy => exact hstrategy.trans h.strategy

section Step
variable [NearestDivision.NearestDiv]

def step (s : State) : Action → State
  | .dispatch timestampUs strategyId =>
    { s with
      ctx := { s.ctx with timestampUs := timestampUs, currentStrategyId := strategyId }
      dispatched := strategyId }
  | .environment riskEngine positionManager =>
    { s with ctx := { s.ctx with riskEngine := riskEngine, positionManager := positionManager } }
  | .submit order t =>
    let (ctx,id) := s.ctx.submitOrder order t
    let enqueued := added s.ctx.orderOutput ctx.orderOutput
    let passed := (s.ctx.riskEngine.checkOrder s.ctx.positionManager order t).2.passed
    s.record ctx ⟨order,s.dispatched,passed,id,enqueued⟩
  | .cancel orderId =>
    let ctx := (s.ctx.cancelOrder orderId).1
    { s with
      ctx := ctx
      entered := s.entered++(added s.ctx.orderOutput ctx.orderOutput).map (fun o => (o,false)) }
  | .pop =>
    match tryPop s.ctx.orderOutput with
    | none => s
    | some (order,queue) =>
      { s with ctx := { s.ctx with orderOutput := queue }, popped := s.popped++[order] }

theorem drawn_step (s : State) (a : Action) : drawn s ≤ drawn (step s a) := by
  cases a with
  | submit order t =>
    show s.calls.countP Call.passed ≤ (s.calls++[_]).countP Call.passed
    rw [List.countP_append]
    exact Nat.le_add_right _ _
  | pop =>
    simp only [step]
    split <;> exact le_rfl
  | _ => exact le_rfl

theorem step_pop (s : State) (h : Inv s) : Inv (step s .pop) := by
  have houtput := h.accounted.output
  simp only [step]
  cases hq : s.ctx.orderOutput with
  | nil => exact h
  | cons order queue =>
    rw [hq] at houtput
    refine h.keep _ _ rfl rfl ?_ rfl rfl h.strategy
    show s.popped++[order]++queue = _
    rw [List.append_assoc]
    exact houtput

theorem step_cancel (s : State) (orderId : ℕ) (h : Inv s) : Inv (step s (.cancel orderId)) := by
  have hsubmitted : submitted (step s (.cancel orderId)) = submitted s := by
    rw [submitted_append s _ _ false rfl]
    exact List.append_nil _
  rcases s.ctx.cancelOrder_cases orderId with hctx | hctx <;> simp only [step, hctx] at hsubmitted ⊢
  case inl =>
    refine h.keep _ _ rfl hsubmitted ?_ rfl rfl h.strategy
    rw [added_self, List.map_nil, List.append_nil]
    exact h.accounted.output
  case inr =>
    refine h.keep _ _ rfl hsubmitted ?_ rfl rfl h.strategy
    rw [added_append, ← List.append_assoc, h.accounted.output, List.map_append]
    rfl

theorem step_submit (s : State) (order : OrderRequest) (t : ClockReadings) (h : Inv s)
    (hfew : drawn (step s (.submit order t)) < 2^64) : Inv (step s (.submit order t)) := by
  have hcases := s.ctx.enqueueOrder_cases order t
  simp only [step, submitOrder] at hfew ⊢
  rw [drawn_record] at hfew
  generalize (s.ctx.riskEngine.checkOrder s.ctx.positionManager order t).2.passed = passed at hcases hfew ⊢
  have hsame : (s.ctx.afterCheck order t).orderOutput = s.ctx.orderOutput := rfl
  rcases hcases with ⟨rfl,hsubmit⟩ | ⟨rfl,hsubmit | hsubmit⟩ <;> rw [hsubmit] <;> dsimp only
  case inl =>
    rw [hsame, added_self]
    apply h.record
    case hqueue => exact (List.append_nil _).symm
    case hcall => exact nothing_answered order s.dispatched false
    case hid => exact List.forall_mem_nil _
    case hone => exact Nat.zero_le 1
    case hnext =>
      rw [drawn_record]
      exact h.next
    case hcount =>
      simp only [afterCheck]
      omega
    case hstrategy => rfl
  case inr.inl =>
    rw [hsame, added_self]
    apply h.record
    case hqueue => exact (List.append_nil _).symm
    case hcall => exact nothing_answered order s.dispatched true
    case hid => exact List.forall_mem_nil _
    case hone => exact Nat.zero_le 1
    case hnext => rw [drawn_record, if_pos rfl, h.next, Nat.mod_add_mod]
    case hcount => exact (Nat.add_assoc _ _ _).symm
    case hstrategy => rfl
  case inr.inr =>
    rw [if_pos rfl] at hfew
    have hid : s.ctx.currentId = drawn s+1 := h.next.trans (Nat.mod_eq_of_lt hfew)
    rw [added_append]
    apply h.record
    case hqueue => rfl
    case hcall => exact stamped_answered s order h (by omega)
    case hid => exact List.forall_mem_singleton.mpr hid
    case hone => exact le_rfl
    case hnext => rw [drawn_record, if_pos rfl, h.next, Nat.mod_add_mod]
    case hcount =>
      simp only [afterCheck]
      omega
    case hstrategy => rfl

theorem step_inv (s : State) (a : Action) (hfew : drawn (step s a) < 2^64) (h : Inv s) :
    Inv (step s a) := by
  cases a with
  | dispatch timestampUs strategyId => exact h.keep _ _ rfl rfl h.accounted.output rfl rfl rfl
  | environment riskEngine positionManager =>
    exact h.keep _ _ rfl rfl h.accounted.output rfl rfl h.strategy
  | submit order t => exact step_submit s order t h hfew
  | cancel orderId => exact step_cancel s orderId h
  | pop => exact step_pop s h

/-- Every run that draws fewer than 2^64 identifiers. -/
theorem submissions_accounted (riskEngine : RiskEngine) (positionManager : PositionManager)
    (actions : List Action)
    (hfew : drawn (Schedule.run step actions (start riskEngine positionManager)) < 2^64) :
    Accounted (Schedule.run step actions (start riskEngine positionManager)) := by
  have hrun : drawn (Schedule.run step actions (start riskEngine positionManager)) < 2^64 →
      Inv (Schedule.run step actions (start riskEngine positionManager)) := by
    apply Schedule.invariant step (fun _ _ => True) (fun s => drawn s < 2^64 → Inv s)
    · intro s a _ h hfew
      exact step_inv s a hfew (h ((drawn_step s a).trans_lt hfew))
    · exact Schedule.allowed_of_forall step _ (fun _ _ => trivial) actions _
    · exact fun _ => start_inv riskEngine positionManager
  exact (hrun hfew).accounted

end Step

def limitOrder (symbolId : ℕ) : OrderRequest :=
  { symbolId := symbolId, price := Decimal.ofInt 100, quantity := Decimal.ofInt 2 }

def twoStrategies : List Action :=
  [.dispatch 5 7,.submit (limitOrder 1) ⟨0,0⟩,.cancel 1,.pop,.dispatch 6 8,.submit (limitOrder 2) ⟨1,1⟩]

theorem twoStrategies_accounted :
    Accounted (Schedule.run step twoStrategies (start RiskEngine.initial {})) ∧
      (submitted (Schedule.run step twoStrategies (start RiskEngine.initial {}))).map
        (fun o => (o.orderId,o.strategyId)) = [(1,7),(2,8)] :=
  ⟨submissions_accounted _ _ _ (by decide +kernel),by decide +kernel⟩

end Chronos.OrderSubmission
