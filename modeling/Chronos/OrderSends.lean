import Chronos.LiveOrders

/-!
# Sending an order to the exchange

A live gateway notes the client order id and tracks the order before the REST
call, so that fills can be matched at once. An order that cannot be encoded
is refused before that and leaves no trace. An empty response is counted as a
reject too, but both notes stay.
-/

set_option autoImplicit false

namespace Chronos.OrderGateway
open KeyedTable OrderEncoding

structure NewOrder (g : OrderGateway) (order : OrderRequest) : Prop where
  exchange : order.exchangeId = g.exchangeId
  quantity : order.quantity ≠ 0
  unknown : ∀ p, g.pendingOrders.find order.orderId = some p → modifiable p.status = false

/-- Counted as rejected without a trace in the two maps. -/
def LeavesNoTrace (g : OrderGateway) (order : OrderRequest) (io : Surroundings) : Prop :=
  (g.processOrder order io).stats.ordersRejected = g.stats.ordersRejected+1 →
    (g.processOrder order io).pendingOrders = g.pendingOrders ∧
      (g.processOrder order io).clientIdToLocal = g.clientIdToLocal

variable (g : OrderGateway) (order : OrderRequest) (io : Surroundings)

def received (g : OrderGateway) : OrderGateway :=
  { g with stats := { g.stats with ordersReceived := g.stats.ordersReceived+1 } }

theorem processOrder_new (hl : g.live = true) (hn : NewOrder g order) :
    g.processOrder order io = g.received.processNewLive order io := by
  have hnew : g.processOrder order io = g.received.processNew order io := by
    simp only [processOrder]
    rw [if_neg (not_not.mpr hn.exchange), if_neg hn.quantity]
    cases hf : g.pendingOrders.find order.orderId with
    | none => rfl
    | some p =>
      simp only [hn.unknown p hf]
      rfl
  rw [hnew]
  exact if_pos hl

theorem unmapped_refused (hs : g.symbolIdToName order.symbolId = "") :
    g.processNewLive order io =
      { g with stats := { g.stats with ordersRejected := g.stats.ordersRejected+1 } } := by
  simp [processNewLive, encodeOrderJson, hs]

def request (g : OrderGateway) (order : OrderRequest) (nowUs : ℕ) : PlaceRequest where
  symbol := g.symbolIdToName order.symbolId
  side := if order.side = .buy then "BUY" else "SELL"
  quantity := numberText order.quantity
  price := numberText order.price
  clientOrderId := Nat.repr order.orderId++"_"++Nat.repr nowUs

def noted (g : OrderGateway) (order : OrderRequest) (io : Surroundings) : OrderGateway :=
  let g' := { g with
    clientIdToLocal := g.clientIdToLocal.assign (g.request order io.clientTimeUs).clientOrderId order.orderId }
  g'.trackPending order io.sendTimeUs

theorem mapped_sent (hs : g.symbolIdToName order.symbolId ≠ "") :
    g.processNewLive order io =
      let r := (g.noted order io).realSendWithClientId order (g.request order io.clientTimeUs) io.placeResponse
      if r.2 then { r.1 with stats := { r.1.stats with ordersSent := r.1.stats.ordersSent+1 } }
      else { r.1 with stats := { r.1.stats with ordersRejected := r.1.stats.ordersRejected+1 } } := by
  simp only [processNewLive, encodeOrderJson, if_neg hs]
  rfl

theorem injectOrderAck_stats (a : OrderAck) : (g.injectOrderAck a).stats = g.stats := by
  unfold injectOrderAck
  split <;> rfl

theorem answered_not_rejected (hl : g.live = true) (hs : g.symbolIdToName order.symbolId ≠ "")
    (hr : io.placeResponse ≠ .failed) :
    (g.processNewLive order io).stats.ordersRejected = g.stats.ordersRejected := by
  have hh : (g.noted order io).httpClient = true := GatewaySetup.httpClient_of_live _ hl
  rw [mapped_sent g order io hs]
  unfold realSendWithClientId
  rw [hh]
  cases hp : io.placeResponse with
  | failed => exact absurd hp hr
  | unreadable => rfl
  | placed orderId updateTime =>
    simp only [Bool.true_eq_false, if_false, if_true, injectOrderAck_stats]
    rfl

/-- An empty response counts as a reject of an order that is now pending. -/
theorem empty_response_tracked (hl : g.live = true) (hs : g.symbolIdToName order.symbolId ≠ "")
    (hr : io.placeResponse = .failed) :
    (g.processNewLive order io).stats.ordersRejected = g.stats.ordersRejected+1 ∧
      (g.processNewLive order io).pendingOrders.find order.orderId = some (tracked order io.sendTimeUs) := by
  have hh : (g.noted order io).httpClient = true := GatewaySetup.httpClient_of_live _ hl
  rw [mapped_sent g order io hs]
  simp only [realSendWithClientId, hh, hr]
  constructor
  · rfl
  · exact (Table.find_assign _ _ _ _).trans (if_pos rfl)

theorem injectOrderAck_sends (a : OrderAck) : (g.injectOrderAck a).sends = g.sends := by
  unfold injectOrderAck
  split <;> rfl

theorem sends_elsewhere (hx : order.exchangeId ≠ g.exchangeId) :
    (g.processOrder order io).sends = g.sends++[] := by
  simp [processOrder, hx]

theorem sends_modify (hx : order.exchangeId = g.exchangeId) (hq : order.quantity ≠ 0)
    (p : PendingOrder) (hp : g.pendingOrders.find order.orderId = some p)
    (hm : modifiable p.status = true) : (g.processOrder order io).sends =
      g.sends++[.wire (encodeModify order.orderId order.price order.quantity)] := by
  simp [processOrder, hx, hq, hp, hm, processModify, send]

theorem sends_unnamed (hl : g.live = true) (hn : NewOrder g order)
    (hs : g.symbolIdToName order.symbolId = "") :
    (g.processOrder order io).sends = g.sends++[] := by
  rw [g.processOrder_new order io hl hn, unmapped_refused g.received order io hs, List.append_nil]
  rfl

theorem sends_new (hl : g.live = true) (hn : NewOrder g order)
    (hs : g.symbolIdToName order.symbolId ≠ "") :
    (g.processOrder order io).sends = g.sends++[.place (g.request order io.clientTimeUs)] := by
  have hh : (g.received.noted order io).httpClient = true := GatewaySetup.httpClient_of_live _ hl
  rw [g.processOrder_new order io hl hn, mapped_sent g.received order io hs]
  unfold realSendWithClientId
  rw [hh]
  cases io.placeResponse with
  | failed => rfl
  | unreadable => rfl
  | placed orderId updateTime =>
    simp only [Bool.true_eq_false, if_false, if_true, injectOrderAck_sends]
    rfl

/-- A new order of a live gateway is refused without a trace unless its symbol
has a name and the REST call returns nothing. -/
theorem no_trace_iff (hl : g.live = true) (hn : NewOrder g order) :
    LeavesNoTrace g order io ↔
      ¬(g.symbolIdToName order.symbolId ≠ "" ∧ io.placeResponse = .failed) := by
  rw [LeavesNoTrace, g.processOrder_new order io hl hn]
  constructor
  · rintro h ⟨hs,hr⟩
    obtain ⟨hcount,hfind⟩ := g.received.empty_response_tracked order io hl hs hr
    rw [(h hcount).1] at hfind
    exact Bool.false_ne_true (hn.unknown _ hfind).symm
  · intro h hcount
    by_cases hs : g.symbolIdToName order.symbolId = ""
    · rw [unmapped_refused g.received order io hs]
      exact ⟨rfl,rfl⟩
    · have hr : io.placeResponse ≠ .failed := fun hr => h ⟨hs,hr⟩
      have hsame : (g.received.processNewLive order io).stats.ordersRejected = g.stats.ordersRejected :=
        g.received.answered_not_rejected order io hl hs hr
      omega

/-- The order was counted as rejected. It is pending, the next request under
its id is taken for a modification, and the shutdown cancels it. -/
theorem emptyResponse_leaves_trace : ¬LeavesNoTrace binanceGateway buyRequest {} ∧
    (binanceGateway.processOrder buyRequest {}).stats.ordersRejected = 1 ∧
    ((binanceGateway.processOrder buyRequest {}).processOrder buyRequest {}).stats.ordersModified = 1 ∧
    Sent.cancel "BTCUSDT" 7 ∈ (binanceGateway.processOrder buyRequest {}).cancelAllPending.sends := by
  refine ⟨fun h => ?_,by decide +kernel,by decide +kernel,by decide +kernel⟩
  have hpending : (binanceGateway.processOrder buyRequest {}).Pending 7 := by decide +kernel
  rw [Pending, (h (by decide +kernel)).1] at hpending
  exact absurd hpending (by decide)

def unmappedRequest : OrderRequest := { buyRequest with symbolId := 2 }

theorem unmappedRequest_leaves_no_trace :
    (binanceGateway.processOrder unmappedRequest {}).stats.ordersRejected = 1 ∧
    LeavesNoTrace binanceGateway unmappedRequest {} := by
  have hn : NewOrder binanceGateway unmappedRequest := ⟨rfl,by decide +kernel,fun p hp => by cases hp⟩
  refine ⟨by decide +kernel,(no_trace_iff binanceGateway unmappedRequest {} rfl hn).mpr ?_⟩
  exact fun h => h.1 (by decide +kernel)

end Chronos.OrderGateway
