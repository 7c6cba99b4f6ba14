import Chronos.KeyedTable
import Chronos.Schedule
import Chronos.OrderEncoding

/-!
# The order gateway

`OrderGateway` takes order requests, keeps the orders it believes to be on
the exchange and hands fills back. Three maps are its memory: pending orders
by local id, local ids by exchange id and by client order id. The clock, the
answers of the HTTP client and the parsed body of its response come from
outside and are arguments. What goes out is kept as two lists: what was sent,
and the fills the callback was given. Send latencies are left out.
-/

set_option autoImplicit false

namespace Chronos
open KeyedTable OrderEncoding

structure PendingOrder where
  orderId : ℕ := 0
  clientOrderId : ℕ := 0
  submitTimestampUs : ℕ := 0
  symbolId : ℕ := 0
  exchangeId : ℕ := 0
  strategyId : ℕ := 0
  side : OrderSide := .buy
  type : OrderType := .limit
  status : OrderStatus := .pending
  originalPrice : Decimal := 0
  originalQuantity : Decimal := 0
  filledQuantity : Decimal := 0
  lastUpdateUs : ℕ := 0
  deriving DecidableEq

structure OrderGatewayStats where
  ordersReceived : ℕ := 0
  ordersSent : ℕ := 0
  ordersRejected : ℕ := 0
  ordersCancelled : ℕ := 0
  ordersModified : ℕ := 0
  fillsReceived : ℕ := 0
  fillErrors : ℕ := 0
  exchangeIdMismatch : ℕ := 0
  deriving DecidableEq

inductive Sent where
  | wire (message : String)
  | place (request : PlaceRequest)
  | cancel (symbol : String) (orderId : ℕ)
  deriving DecidableEq

inductive PlaceResponse where
  | failed
  | unreadable
  | placed (orderId updateTime : Option ℕ)

/-- What one call of `processOrder` meets outside. -/
structure Surroundings where
  sendTimeUs : ℕ := 0
  clientTimeUs : ℕ := 0
  fillTimeUs : ℕ := 0
  placeResponse : PlaceResponse := .failed
  cancelOk : Bool := false

/-- What a gateway is given before its first order: the symbols of its
configuration, its exchange, its mode, and whether an HTTP client and a
callback are set. -/
structure GatewaySetup where
  symbols : List String := []
  exchangeId : ℕ := 0
  simulateFills : Bool := true
  httpClient : Bool := false
  fillCallback : Bool := true
  deriving DecidableEq

namespace GatewaySetup

def live (c : GatewaySetup) : Bool := !c.simulateFills && c.httpClient

theorem httpClient_of_live (c : GatewaySetup) (hl : c.live = true) : c.httpClient = true := by
  rw [live, Bool.and_eq_true] at hl
  exact hl.2

def symbolIdToName (c : GatewaySetup) (symbolId : ℕ) : String :=
  if symbolId = 0 ∨ c.symbols.length < symbolId then "" else c.symbols.getD (symbolId-1) ""

end GatewaySetup

structure OrderGateway extends GatewaySetup where
  pendingOrders : Table ℕ PendingOrder := .empty
  exchangeToLocal : Table ℕ ℕ := .empty
  clientIdToLocal : Table String ℕ := .empty
  stats : OrderGatewayStats := {}
  sends : List Sent := []
  callbacks : List (Fill Decimal) := []

namespace OrderGateway

def send (g : OrderGateway) (m : Sent) : OrderGateway := { g with sends := g.sends++[m] }

def tracked (order : OrderRequest) (submitTimeUs : ℕ) : PendingOrder where
  orderId := order.orderId
  clientOrderId := order.clientOrderId
  submitTimestampUs := submitTimeUs
  symbolId := order.symbolId
  exchangeId := order.exchangeId
  strategyId := order.strategyId
  side := order.side
  type := order.type
  status := .pending
  originalPrice := order.price
  originalQuantity := order.quantity
  filledQuantity := 0
  lastUpdateUs := submitTimeUs

def trackPending (g : OrderGateway) (order : OrderRequest) (submitTimeUs : ℕ) : OrderGateway :=
  { g with pendingOrders := g.pendingOrders.assign order.orderId (tracked order submitTimeUs) }

def finalizeOrder (g : OrderGateway) (orderId : ℕ) : OrderGateway :=
  { g with pendingOrders := g.pendingOrders.erase orderId }

/-- The entry a fill is looked up to: first as a local id, then as an
exchange id. -/
def findForFill (g : OrderGateway) (orderId : ℕ) : Option (ℕ × PendingOrder) :=
  match g.pendingOrders.find orderId with
  | some p => some (orderId,p)
  | none =>
    match g.exchangeToLocal.find orderId with
    | some localId => (g.pendingOrders.find localId).map (fun p => (localId,p))
    | none => none

def partlyFilled (p : PendingOrder) (fill : Fill Decimal) (nowUs : ℕ) : PendingOrder :=
  { p with
    filledQuantity := p.filledQuantity+fill.fillQuantity
    lastUpdateUs := nowUs
    status := .partiallyFilled }

def injectFill (g : OrderGateway) (fill : Fill Decimal) (nowUs : ℕ) : OrderGateway :=
  match g.findForFill fill.orderId with
  | none => { g with stats := { g.stats with fillErrors := g.stats.fillErrors+1 } }
  | some (id,p) =>
    let enriched := { fill with strategyId := p.strategyId, symbolId := p.symbolId }
    { g with
      pendingOrders :=
        if p.originalQuantity ≤ p.filledQuantity+fill.fillQuantity then g.pendingOrders.erase id
        else g.pendingOrders.assign id (partlyFilled p fill nowUs)
      callbacks := if g.fillCallback then g.callbacks++[enriched] else g.callbacks
      stats := { g.stats with fillsReceived := g.stats.fillsReceived+1 } }

def acknowledged (p : PendingOrder) (timestampUs : ℕ) : PendingOrder :=
  { p with status := .accepted, lastUpdateUs := timestampUs }

def injectOrderAck (g : OrderGateway) (ack : OrderAck) : OrderGateway :=
  match g.pendingOrders.find ack.orderId with
  | none => g
  | some p =>
    { g with
      pendingOrders := g.pendingOrders.assign ack.orderId (acknowledged p ack.timestampUs)
      exchangeToLocal :=
        if ack.exchangeOrderId = 0 then g.exchangeToLocal
        else g.exchangeToLocal.assign ack.exchangeOrderId ack.orderId }

def injectOrderReject (g : OrderGateway) (reject : OrderReject) : OrderGateway :=
  let g := match g.pendingOrders.find reject.orderId with
    | none => g
    | some _ => g.finalizeOrder reject.orderId
  { g with stats := { g.stats with ordersRejected := g.stats.ordersRejected+1 } }

def resolveByClientOrderId (g : OrderGateway) (clientOrderId : String) : ℕ :=
  (g.clientIdToLocal.find clientOrderId).getD 0

def placedAck (order : OrderRequest) (orderId updateTime : Option ℕ) : OrderAck where
  orderId := order.orderId
  exchangeOrderId := orderId.getD 0
  status := .accepted
  timestampUs := updateTime.getD 0*1000%2^64

def realSendWithClientId (g : OrderGateway) (order : OrderRequest) (request : PlaceRequest)
    (response : PlaceResponse) : OrderGateway × Bool :=
  if g.httpClient = false then (g,false)
  else match response with
    | .failed => (g.send (.place request),false)
    | .unreadable => (g.send (.place request),true)
    | .placed orderId updateTime =>
      ((g.send (.place request)).injectOrderAck (placedAck order orderId updateTime),true)

def processCancel (g : OrderGateway) (order : OrderRequest) : OrderGateway :=
  let g :=
    if g.live then
      if g.symbolIdToName order.symbolId = "" then g
      else g.send (.cancel (g.symbolIdToName order.symbolId) order.orderId)
    else g.send (.wire (encodeCancel order.orderId))
  let g := match g.pendingOrders.find order.orderId with
    | none => g
    | some _ => g.finalizeOrder order.orderId
  { g with stats := { g.stats with ordersCancelled := g.stats.ordersCancelled+1 } }

def modifiable (status : OrderStatus) : Bool :=
  status = .pending || status = .accepted || status = .partiallyFilled

def modified (p : PendingOrder) (order : OrderRequest) (sendTimeUs : ℕ) : PendingOrder :=
  { p with
    originalPrice := order.price
    originalQuantity := order.quantity
    lastUpdateUs := sendTimeUs }

def processModify (g : OrderGateway) (order : OrderRequest) (p : PendingOrder) (io : Surroundings) :
    OrderGateway :=
  let g := g.send (.wire (encodeModify order.orderId order.price order.quantity))
  { g with
    pendingOrders := g.pendingOrders.assign order.orderId (modified p order io.sendTimeUs)
    stats := { g.stats with ordersModified := g.stats.ordersModified+1 } }

def simulatedFill (order : OrderRequest) (sendTimeUs : ℕ) : Fill Decimal where
  orderId := order.orderId
  symbolId := order.symbolId
  fillPrice := order.price
  fillQuantity := order.quantity
  side := order.side
  exchangeId := order.exchangeId
  strategyId := order.strategyId
  exchangeTimestampUs := sendTimeUs
  receiveTimestampUs := sendTimeUs

def processNewLive (g : OrderGateway) (order : OrderRequest) (io : Surroundings) : OrderGateway :=
  match encodeOrderJson (g.symbolIdToName order.symbolId) order io.clientTimeUs with
  | none => { g with stats := { g.stats with ordersRejected := g.stats.ordersRejected+1 } }
  | some request =>
    let g := { g with clientIdToLocal := g.clientIdToLocal.assign request.clientOrderId order.orderId }
    let g := g.trackPending order io.sendTimeUs
    let (g,sent) := g.realSendWithClientId order request io.placeResponse
    if sent then { g with stats := { g.stats with ordersSent := g.stats.ordersSent+1 } }
    else { g with stats := { g.stats with ordersRejected := g.stats.ordersRejected+1 } }

def processNewSimulated (g : OrderGateway) (order : OrderRequest) (io : Surroundings) : OrderGateway :=
  let g := (g.send (.wire (encodeOrder order))).trackPending order io.sendTimeUs
  let g :=
    if g.simulateFills && g.fillCallback then g.injectFill (simulatedFill order io.sendTimeUs) io.fillTimeUs
    else g
  { g with stats := { g.stats with ordersSent := g.stats.ordersSent+1 } }

def processNew (g : OrderGateway) (order : OrderRequest) (io : Surroundings) : OrderGateway :=
  if g.live then g.processNewLive order io else g.processNewSimulated order io

def processOrder (g : OrderGateway) (order : OrderRequest) (io : Surroundings) : OrderGateway :=
  let g := { g with stats := { g.stats with ordersReceived := g.stats.ordersReceived+1 } }
  if order.exchangeId ≠ g.exchangeId then
    { g with stats := { g.stats with exchangeIdMismatch := g.stats.exchangeIdMismatch+1 } }
  else if order.quantity = 0 then g.processCancel order
  else match g.pendingOrders.find order.orderId with
    | some p => if modifiable p.status then g.processModify order p io else g.processNew order io
    | none => g.processNew order io

def cancelPending (g : OrderGateway) (id : ℕ) : OrderGateway :=
  let cancelled (g : OrderGateway) :=
    let g := g.finalizeOrder id
    { g with stats := { g.stats with ordersCancelled := g.stats.ordersCancelled+1 } }
  if g.live then
    match g.pendingOrders.find id with
    | none => g
    | some p =>
      if g.symbolIdToName p.symbolId = "" then cancelled g
      else cancelled (g.send (.cancel (g.symbolIdToName p.symbolId) id))
  else cancelled g

def cancelAllPending (g : OrderGateway) : OrderGateway :=
  (g.pendingOrders.entries.map Prod.fst).foldl cancelPending g

end OrderGateway
end Chronos
