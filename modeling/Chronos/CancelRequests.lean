import Chronos.StrategyContext
import Chronos.LiveOrders

/-!
# Cancelling an order, from the strategy to the exchange

`StrategyContext::cancelOrder` makes a request out of the order id alone and
puts it in the queue that also carries the orders. The gateway takes it out
again, compares its exchange id with its own and looks up its symbol. The
request has neither, so both are zero there.
-/

set_option autoImplicit false

namespace Chronos.CancelRequests
open OrderGateway OrderEncoding

structure State where
  ctx : StrategyContext
  gateway : OrderGateway

inductive Action where
  | dispatch (timestampUs strategyId : ℕ)
  | submit (order : OrderRequest) (t : ClockReadings)
  | cancel (orderId : ℕ)
  | process (io : Surroundings)
  | ack (a : OrderAck)
  | fill (f : Fill Decimal) (nowUs : ℕ)
  | reject (r : OrderReject)

def isProcess : Action → Bool
  | .process _ => true
  | _ => false

def pops (actions : List Action) : ℕ := actions.countP isProcess

def cancelRequest (ctx : StrategyContext) (orderId : ℕ) : OrderRequest :=
  { orderId := orderId, quantity := 0, timestampUs := ctx.timestampUs }

/-- A cancel for the order was sent, in live mode with the symbol given, and
if that succeeded the order is not pending. -/
structure CancelCarriedOut (g g' : OrderGateway) (o symbolId : ℕ) (io : Surroundings) : Prop where
  sent : g'.sends = g.sends++
    [if g.live then .cancel (g.symbolIdToName symbolId) o else .wire (encodeCancel o)]
  gone : (g.live = true → io.cancelOk = true) → ¬g'.Pending o

theorem cancel_queue (ctx : StrategyContext) (o : ℕ) (hpushed : (ctx.cancelOrder o).2 = true) :
    (ctx.cancelOrder o).1.orderOutput = ctx.orderOutput++[cancelRequest ctx o] := by
  rcases ctx.cancelOrder_cases o with h | h
  · rw [h] at hpushed
    cases hpushed
  · rw [h]
    rfl

section Step
variable [NearestDivision.NearestDiv]

def step (s : State) : Action → State
  | .dispatch timestampUs strategyId =>
    { s with ctx := { s.ctx with timestampUs := timestampUs, currentStrategyId := strategyId } }
  | .submit order t => { s with ctx := (s.ctx.submitOrder order t).1 }
  | .cancel orderId => { s with ctx := (s.ctx.cancelOrder orderId).1 }
  | .process io =>
    match StrategyContext.tryPop s.ctx.orderOutput with
    | none => s
    | some (order,queue) =>
      { ctx := { s.ctx with orderOutput := queue }, gateway := s.gateway.processOrder order io }
  | .ack a => { s with gateway := s.gateway.injectOrderAck a }
  | .fill f nowUs => { s with gateway := s.gateway.injectFill f nowUs }
  | .reject r => { s with gateway := s.gateway.injectOrderReject r }

theorem step_queue (s : State) (a : Action) (h : isProcess a = false) :
    ∃ more, (step s a).ctx.orderOutput = s.ctx.orderOutput++more := by
  cases a with
  | submit order t => exact s.ctx.submitOrder_queue order t
  | cancel o => exact s.ctx.cancelOrder_queue o
  | process io => cases h
  | _ => exact ⟨[],(List.append_nil _).symm⟩

/-- A request reaches the front when those before it have been taken. -/
theorem front_reached (actions : List Action) (s : State) (ahead behind : List OrderRequest)
    (c : OrderRequest) (hq : s.ctx.orderOutput = ahead++c::behind) (hp : pops actions = ahead.length) :
    ∃ more, (Schedule.run step actions s).ctx.orderOutput = c::more := by
  induction actions generalizing s ahead behind with
  | nil =>
    obtain rfl : ahead = [] := List.eq_nil_of_length_eq_zero hp.symm
    exact ⟨behind,hq⟩
  | cons a actions ih =>
    rw [pops, List.countP_cons] at hp
    cases ha : isProcess a with
    | false =>
      rw [ha] at hp
      obtain ⟨more,hmore⟩ := step_queue s a ha
      refine ih (step s a) ahead (behind++more) ?_ hp
      rw [hmore, hq, List.append_assoc, List.cons_append]
    | true =>
      rw [ha] at hp
      cases a with
      | process io =>
        cases ahead with
        | nil => cases hp
        | cons x ahead =>
          refine ih _ ahead behind ?_ (Nat.succ.inj hp)
          simp only [step, hq, List.cons_append, StrategyContext.tryPop]
      | _ => cases ha

theorem step_setup (s : State) (a : Action) :
    (step s a).gateway.toGatewaySetup = s.gateway.toGatewaySetup := by
  cases a with
  | process io =>
    simp only [step]
    split
    · rfl
    · exact s.gateway.step_setup (.process _ io)
  | ack a => exact s.gateway.step_setup (.ack a)
  | fill f nowUs => exact s.gateway.step_setup (.fill f nowUs)
  | reject r => exact s.gateway.step_setup (.reject r)
  | _ => rfl

theorem run_setup (actions : List Action) (s : State) :
    (Schedule.run step actions s).gateway.toGatewaySetup = s.gateway.toGatewaySetup := by
  induction actions generalizing s with
  | nil => rfl
  | cons a actions ih => exact (ih (step s a)).trans (step_setup s a)

end Step

theorem request_carried_out_iff (g : OrderGateway) (c : OrderRequest) (o symbolId : ℕ) (io : Surroundings)
    (hid : c.orderId = o) (hq : c.quantity = 0) (hx : c.exchangeId = 0) (hs : c.symbolId = 0) :
    CancelCarriedOut g (g.processOrder c io) o symbolId io ↔ g.exchangeId = 0 ∧ g.live = false := by
  have hsilent : ∀ m, g.sends ≠ g.sends++[m] := by
    intro m h
    have := congrArg List.length h
    simp at this
  have hname : g.symbolIdToName 0 = "" := by simp [GatewaySetup.symbolIdToName]
  constructor
  · intro h
    by_cases h0 : g.exchangeId = 0
    · refine ⟨h0,?_⟩
      cases hl : g.live with
      | false => rfl
      | true =>
        have hsends : (g.processOrder c io).sends = g.sends := by
          simp only [processOrder, hx, h0, hq, processCancel, hl, hs, hname]
          simp only [ne_eq, not_true_eq_false, if_false, if_true]
          split <;> rfl
        exact absurd (hsends.symm.trans h.sent) (hsilent _)
    · have hsends : (g.processOrder c io).sends = g.sends := by
        simp [processOrder, hx, Ne.symm h0]
      exact absurd (hsends.symm.trans h.sent) (hsilent _)
  · rintro ⟨h0,hl⟩
    constructor
    case sent =>
      simp only [processOrder, hx, h0, hq, processCancel, hl, hid]
      simp only [ne_eq, not_true_eq_false, if_false, if_true, Bool.false_eq_true]
      split <;> rfl
    case gone =>
      intro _
      rw [Pending, processOrder_find, processEdit, if_neg (by rw [hx, h0]; exact not_not.mpr rfl),
        if_pos hq, eraseEdit_find, if_pos hid]
      exact Bool.false_ne_true

section Run
variable [NearestDivision.NearestDiv]

/-- Every run: a cancel that `cancelOrder` enqueued for a tracked order, once
the requests before it have been taken, is carried out exactly if the gateway
has exchange id zero and is not live. -/
theorem cancel_carried_out_iff (s : State) (before middle : List Action) (o : ℕ) (io : Surroundings)
    (hpushed : ((Schedule.run step before s).ctx.cancelOrder o).2 = true)
    (hturn : pops middle = (Schedule.run step before s).ctx.orderOutput.length) :
    ∀ p, (Schedule.run step before s).gateway.pendingOrders.find o = some p →
      (CancelCarriedOut (Schedule.run step (before++.cancel o::middle) s).gateway
        (Schedule.run step (before++.cancel o::middle++[.process io]) s).gateway o p.symbolId io ↔
        s.gateway.exchangeId = 0 ∧ s.gateway.live = false) := by
  intro p _
  have hqueue := cancel_queue (Schedule.run step before s).ctx o hpushed
  obtain ⟨more,hfront⟩ := front_reached middle (step (Schedule.run step before s) (.cancel o))
    (Schedule.run step before s).ctx.orderOutput [] (cancelRequest (Schedule.run step before s).ctx o)
    hqueue hturn
  have hsetup := run_setup (before++.cancel o::middle) s
  have hrun : Schedule.run step middle (step (Schedule.run step before s) (.cancel o)) =
      Schedule.run step (before++.cancel o::middle) s := by
    rw [Schedule.run_append]
    rfl
  rw [hrun] at hfront
  rw [Schedule.run_append step (before++.cancel o::middle), ← hsetup]
  have hlast : (Schedule.run step [.process io] (Schedule.run step (before++.cancel o::middle) s)).gateway =
      (Schedule.run step (before++.cancel o::middle) s).gateway.processOrder
        (cancelRequest (Schedule.run step before s).ctx o) io := by
    simp only [Schedule.run, step, hfront, StrategyContext.tryPop]
  rw [hlast]
  exact request_carried_out_iff _ _ o p.symbolId io rfl rfl rfl rfl

end Run

def strategyOrder (exchangeId : ℕ) : OrderRequest :=
  { symbolId := 1, exchangeId := exchangeId, price := Decimal.ofInt 100, quantity := Decimal.ofInt 2 }

def opening (setup : GatewaySetup) : State where
  ctx := { riskEngine := RiskEngine.initial }
  gateway := { toGatewaySetup := setup }

def submitted (exchangeId : ℕ) : List Action :=
  [.submit (strategyOrder exchangeId) ⟨0,0⟩,
    .process { placeResponse := .placed (some 900) none }]

/-- On an exchange with another id the request is taken for that of another
gateway; the order stays on the exchange and pending. -/
theorem cancel_not_sent :
    (Schedule.run step (submitted 1) (opening binanceSetup)).gateway.Pending 1 ∧
    ((Schedule.run step (submitted 1) (opening binanceSetup)).ctx.cancelOrder 1).2 = true ∧
    ∀ symbolId, ¬CancelCarriedOut (Schedule.run step (submitted 1++[.cancel 1]) (opening binanceSetup)).gateway
      (Schedule.run step (submitted 1++[.cancel 1,.process { cancelOk := true }]) (opening binanceSetup)).gateway
      1 symbolId { cancelOk := true } := by
  have hpending : (Schedule.run step (submitted 1++[.cancel 1,.process { cancelOk := true }])
      (opening binanceSetup)).gateway.Pending 1 := by decide +kernel
  exact ⟨by decide +kernel,by decide +kernel,fun symbolId h => h.gone (fun _ => rfl) hpending⟩

def paperSetup : GatewaySetup := { symbols := ["BTCUSDT"], simulateFills := false }

theorem paper_cancel_carried_out :
    ∃ p, (Schedule.run step (submitted 0) (opening paperSetup)).gateway.pendingOrders.find 1 = some p ∧
      CancelCarriedOut (Schedule.run step (submitted 0++[.cancel 1]) (opening paperSetup)).gateway
        (Schedule.run step (submitted 0++[.cancel 1,.process {}]) (opening paperSetup)).gateway
        1 p.symbolId {} := by
  have hpending : (Schedule.run step (submitted 0) (opening paperSetup)).gateway.Pending 1 := by
    decide +kernel
  obtain ⟨p,hp⟩ := Option.isSome_iff_exists.mp hpending
  exact ⟨p,hp,(cancel_carried_out_iff (opening paperSetup) (submitted 0) [] 1 {} (by decide +kernel)
    (by decide +kernel) p hp).mpr ⟨rfl,rfl⟩⟩

end Chronos.CancelRequests
