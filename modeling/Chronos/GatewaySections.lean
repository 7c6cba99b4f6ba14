import Chronos.CriticalSections
import Chronos.GatewayCounters

/-!
# The critical sections of the gateway

`pending_mutex_` and `stats_mutex_` are held for a few lines at a time, and
requests go out between two sections. So the I/O thread, the user stream and
the thread that stops the gateway mix section by section. Alone, the sections
of a call do what the call does.
-/

set_option autoImplicit false

namespace Chronos.OrderGateway
open KeyedTable OrderEncoding CriticalSections

inductive Section where
  | received
  | settled (o : Outcome)
  | send (m : Sent)
  /-- The entry is erased if there is one. -/
  | finalize (id : ℕ)
  | check (order : OrderRequest) (io : Surroundings)
  | note (clientOrderId : String) (orderId : ℕ)
  | track (order : OrderRequest) (submitTimeUs : ℕ)
  | ack (a : OrderAck)
  | fill (f : Fill Decimal) (nowUs : ℕ)
  | callback (f : Fill Decimal)
  | fillReceived
  /-- The ids are collected. -/
  | collect
  /-- The symbol of an order that is about to be cancelled is looked up. -/
  | look (id : ℕ)

section Programs
variable (c : GatewaySetup)

def placeSections (order : OrderRequest) (request : PlaceRequest) : PlaceResponse → List Section
  | .failed => [.send (.place request),.settled .rejected]
  | .unreadable => [.send (.place request),.settled .sent]
  | .placed orderId updateTime =>
    [.send (.place request),.ack (placedAck order orderId updateTime),.settled .sent]

def newLiveSections (order : OrderRequest) (io : Surroundings) : List Section :=
  match encodeOrderJson (c.symbolIdToName order.symbolId) order io.clientTimeUs with
  | none => [.settled .rejected]
  | some request =>
    .note request.clientOrderId order.orderId::.track order io.sendTimeUs::
      placeSections order request io.placeResponse

def newSimulatedSections (order : OrderRequest) (io : Surroundings) : List Section :=
  [.send (.wire (encodeOrder order)),.track order io.sendTimeUs]++
    (if c.simulateFills && c.fillCallback then [.fill (simulatedFill order io.sendTimeUs) io.fillTimeUs]
      else [])++[.settled .sent]

def newSections (order : OrderRequest) (io : Surroundings) : List Section :=
  if c.live then newLiveSections c order io else newSimulatedSections c order io

def cancelSections (order : OrderRequest) : List Section :=
  (if c.live then
    if c.symbolIdToName order.symbolId = "" then []
    else [.send (.cancel (c.symbolIdToName order.symbolId) order.orderId)]
  else [.send (.wire (encodeCancel order.orderId))])++
    [.finalize order.orderId,.settled .cancelled]

def processSections (order : OrderRequest) (io : Surroundings) : List Section :=
  .received::
    (if order.exchangeId ≠ c.exchangeId then [.settled .mismatch]
    else if order.quantity = 0 then cancelSections c order
    else [.check order io])

def rejectSections (r : OrderReject) : List Section := [.finalize r.orderId,.settled .rejected]

def Action.sections : Action → List Section
  | .process order io => processSections c order io
  | .ack a => [.ack a]
  | .fill f nowUs => [.fill f nowUs]
  | .reject r => rejectSections r

def cancelPendingSections (id : ℕ) : List Section :=
  if c.live then [.look id] else [.finalize id,.settled .cancelled]

end Programs

/-- The entry a fill finds is edited; the callback and the count come later. -/
def fillEntry (g : OrderGateway) (f : Fill Decimal) (nowUs id : ℕ) (p : PendingOrder) : OrderGateway :=
  { g with pendingOrders :=
      if p.originalQuantity ≤ p.filledQuantity+f.fillQuantity then g.pendingOrders.erase id
      else g.pendingOrders.assign id (partlyFilled p f nowUs) }

def enriched (f : Fill Decimal) (p : PendingOrder) : Fill Decimal :=
  { f with strategyId := p.strategyId, symbolId := p.symbolId }

/-- One section, and those the call goes on with. -/
def perform (g : OrderGateway) : Section → OrderGateway × List Section
  | .received => (g.received,[])
  | .settled o => (g.counted o,[])
  | .send m => (g.send m,[])
  | .finalize id =>
    (match g.pendingOrders.find id with
      | none => g
      | some _ => g.finalizeOrder id,[])
  | .check order io =>
    match g.pendingOrders.find order.orderId with
    | some p =>
      if modifiable p.status then (g.processModify order p io,[])
      else (g,newSections g.toGatewaySetup order io)
    | none => (g,newSections g.toGatewaySetup order io)
  | .note clientOrderId orderId =>
    ({ g with clientIdToLocal := g.clientIdToLocal.assign clientOrderId orderId },[])
  | .track order submitTimeUs => (g.trackPending order submitTimeUs,[])
  | .ack a => (g.injectOrderAck a,[])
  | .fill f nowUs =>
    match g.findForFill f.orderId with
    | none => ({ g with stats := { g.stats with fillErrors := g.stats.fillErrors+1 } },[])
    | some (id,p) =>
      (g.fillEntry f nowUs id p,
        (if g.fillCallback then [.callback (enriched f p)] else [])++[.fillReceived])
  | .callback f => ({ g with callbacks := g.callbacks++[f] },[])
  | .fillReceived => ({ g with stats := { g.stats with fillsReceived := g.stats.fillsReceived+1 } },[])
  | .collect =>
    (g,(g.pendingOrders.entries.map Prod.fst).flatMap (cancelPendingSections g.toGatewaySetup))
  | .look id =>
    match g.pendingOrders.find id with
    | none => (g,[])
    | some p =>
      (g,(if g.symbolIdToName p.symbolId = "" then []
        else [.send (.cancel (g.symbolIdToName p.symbolId) id)])++
          [.finalize id,.settled .cancelled])

theorem perform_fill (g : OrderGateway) (f : Fill Decimal) (nowUs id : ℕ) (p : PendingOrder)
    (h : g.findForFill f.orderId = some (id,p)) : perform g (.fill f nowUs) =
      (g.fillEntry f nowUs id p,
        (if g.fillCallback then [.callback (enriched f p)] else [])++[.fillReceived]) := by
  simp only [perform, h]

theorem perform_look (g : OrderGateway) (id : ℕ) (p : PendingOrder)
    (h : g.pendingOrders.find id = some p) : perform g (.look id) =
      (g,(if g.symbolIdToName p.symbolId = "" then []
        else [.send (.cancel (g.symbolIdToName p.symbolId) id)])++
          [.finalize id,.settled .cancelled]) := by
  simp only [perform, h]

section Solo
variable (g : OrderGateway)

theorem injectFill_solo (f : Fill Decimal) (nowUs : ℕ) :
    Completes perform g [.fill f nowUs] (g.injectFill f nowUs) := by
  cases hf : g.findForFill f.orderId with
  | none =>
    apply Completes.one
    simp only [perform, hf, injectFill]
  | some x =>
    obtain ⟨id,p⟩ := x
    apply Completes.goesOn (g.perform_fill f nowUs id p hf)
    have hinject : g.injectFill f nowUs = { g.fillEntry f nowUs id p with
        callbacks := if g.fillCallback then g.callbacks++[enriched f p] else g.callbacks
        stats := { g.stats with fillsReceived := g.stats.fillsReceived+1 } } := by
      simp only [injectFill, hf]
      rfl
    rw [hinject, List.append_nil]
    by_cases hc : g.fillCallback = true
    · rw [if_pos hc, if_pos hc]
      exact .then rfl (.one rfl)
    · rw [if_neg hc, if_neg hc]
      exact .one rfl

theorem injectOrderAck_solo (a : OrderAck) : Completes perform g [.ack a] (g.injectOrderAck a) :=
  .one rfl

theorem injectOrderReject_solo (r : OrderReject) :
    Completes perform g (rejectSections r) (g.injectOrderReject r) := .then rfl (.one rfl)

theorem processCancel_solo (order : OrderRequest) :
    Completes perform g (cancelSections g.toGatewaySetup order) (g.processCancel order) := by
  unfold cancelSections processCancel
  split_ifs
  · exact .then rfl (.one rfl)
  · exact .then rfl (.then rfl (.one rfl))
  · exact .then rfl (.then rfl (.one rfl))

theorem processNewSimulated_solo (order : OrderRequest) (io : Surroundings) :
    Completes perform g (newSimulatedSections g.toGatewaySetup order io) (g.processNewSimulated order io) := by
  unfold newSimulatedSections
  by_cases hf : (g.simulateFills && g.fillCallback) = true
  · rw [g.processNewSimulated_filled order io hf, if_pos hf]
    have hfill := (g.onTheWire order io).injectFill_solo (simulatedFill order io.sendTimeUs) io.fillTimeUs
    exact .then rfl (.then rfl (hfill.append (.one rfl)))
  · rw [g.processNewSimulated_unfilled order io hf, if_neg hf]
    exact .then rfl (.then rfl (.one rfl))

theorem processNewLive_solo (order : OrderRequest) (io : Surroundings) (hl : g.live = true) :
    Completes perform g (newLiveSections g.toGatewaySetup order io) (g.processNewLive order io) := by
  have hh : g.httpClient = true := GatewaySetup.httpClient_of_live _ hl
  unfold newLiveSections processNewLive
  cases encodeOrderJson (g.symbolIdToName order.symbolId) order io.clientTimeUs with
  | none => exact .one rfl
  | some request =>
    have hclient : ((OrderGateway.trackPending { g with
        clientIdToLocal := g.clientIdToLocal.assign request.clientOrderId order.orderId } order
          io.sendTimeUs).httpClient = false) ↔ False := by simp [trackPending, hh]
    apply Completes.then rfl
    apply Completes.then rfl
    simp only [realSendWithClientId, hclient, if_false]
    cases io.placeResponse with
    | failed => exact .then rfl (.one rfl)
    | unreadable => exact .then rfl (.one rfl)
    | placed orderId updateTime => exact .then rfl (.then rfl (.one rfl))

theorem processNew_solo (order : OrderRequest) (io : Surroundings) :
    Completes perform g (newSections g.toGatewaySetup order io) (g.processNew order io) := by
  unfold newSections processNew
  by_cases hl : g.live = true
  · rw [if_pos hl, if_pos hl]
    exact g.processNewLive_solo order io hl
  · rw [if_neg hl, if_neg hl]
    exact g.processNewSimulated_solo order io

theorem check_solo (order : OrderRequest) (io : Surroundings) :
    Completes perform g [.check order io] (match g.pendingOrders.find order.orderId with
      | some p =>
        if modifiable p.status then g.processModify order p io else g.processNew order io
      | none => g.processNew order io) := by
  have hnew := g.processNew_solo order io
  rw [← List.append_nil (newSections g.toGatewaySetup order io)] at hnew
  cases hf : g.pendingOrders.find order.orderId with
  | none => exact .goesOn (by simp only [perform, hf]) hnew
  | some p =>
    dsimp only
    by_cases hm : modifiable p.status = true
    · rw [if_pos hm]
      exact .one (by simp only [perform, hf, if_pos hm])
    · rw [if_neg hm]
      exact .goesOn (by simp only [perform, hf, if_neg hm]) hnew

theorem processOrder_solo (order : OrderRequest) (io : Surroundings) :
    Completes perform g (processSections g.toGatewaySetup order io) (g.processOrder order io) := by
  rw [processOrder_branches, processSections]
  apply Completes.then rfl
  by_cases hx : order.exchangeId = g.exchangeId
  · rw [if_neg (not_not.mpr hx), if_neg (not_not.mpr hx)]
    by_cases hq : order.quantity = 0
    · rw [if_pos hq, if_pos hq]
      exact g.received.processCancel_solo order
    · rw [if_neg hq, if_neg hq]
      exact g.received.check_solo order io
  · rw [if_pos hx, if_pos hx]
    exact .one rfl

theorem cancelPending_solo (id : ℕ) (h : (g.pendingOrders.find id).isSome = true) :
    Completes perform g (cancelPendingSections g.toGatewaySetup id) (g.cancelPending id) := by
  obtain ⟨p,hp⟩ := Option.isSome_iff_exists.mp h
  have hcancelled (g' : OrderGateway) (h' : g'.pendingOrders.find id = some p) :
      Completes perform g' [.finalize id,.settled .cancelled] ((g'.finalizeOrder id).counted .cancelled) :=
    .then (by simp only [perform, h']) (.one rfl)
  unfold cancelPendingSections cancelPending
  by_cases hl : g.live = true
  · rw [if_pos hl, if_pos hl, hp]
    apply Completes.goesOn (g.perform_look id p hp)
    rw [List.append_nil]
    dsimp only
    by_cases hs : g.symbolIdToName p.symbolId = ""
    · rw [if_pos hs, if_pos hs]
      exact hcancelled g hp
    · rw [if_neg hs, if_neg hs]
      exact .then rfl (hcancelled (g.send _) hp)
  · rw [if_neg hl, if_neg hl]
    exact hcancelled g hp

theorem cancelPending_setup (id : ℕ) : (g.cancelPending id).toGatewaySetup = g.toGatewaySetup := by
  unfold cancelPending
  cases g.pendingOrders.find id <;> dsimp only <;> split_ifs <;> rfl

theorem cancelEach_solo (ids : List ℕ) (hn : ids.Nodup)
    (hp : ∀ id ∈ ids, (g.pendingOrders.find id).isSome = true) :
    Completes perform g (ids.flatMap (cancelPendingSections g.toGatewaySetup)) (ids.foldl cancelPending g) := by
  induction ids generalizing g with
  | nil => exact .nil g
  | cons id ids ih =>
    obtain ⟨hid,hn⟩ := List.nodup_cons.mp hn
    have hone := g.cancelPending_solo id (hp id List.mem_cons_self)
    have hrest := ih (g.cancelPending id) hn (fun j hj => by
      rw [g.cancelPending_find id j (fun he => hid (he ▸ hj))]
      exact hp j (List.mem_cons_of_mem id hj))
    rw [g.cancelPending_setup id] at hrest
    exact hone.append hrest

theorem cancelAllPending_solo : Completes perform g [.collect] g.cancelAllPending := by
  have heach := g.cancelEach_solo (g.pendingOrders.entries.map Prod.fst) g.pendingOrders.distinct
    (fun id hid => by
      rw [List.mem_map] at hid
      obtain ⟨x,hx,rfl⟩ := hid
      rw [(Table.find_mem g.pendingOrders x.1 x.2).mpr hx]
      rfl)
  exact .goesOn rfl ((List.append_nil _).symm ▸ heach)

/-- A call that nothing interrupts does what the function it stands for does. -/
theorem call_sequential {n : ℕ} (a : Action) (rest : Fin n → List Section) (i : Fin n) :
    ∃ k, (fun s => advance perform s i)^[k] (call ⟨g,rest⟩ i (a.sections g.toGatewaySetup)) =
      ⟨g.step a,Function.update rest i []⟩ := by
  have hsolo : Completes perform g (a.sections g.toGatewaySetup) (g.step a) := by
    cases a with
    | process order io => exact g.processOrder_solo order io
    | ack a => exact g.injectOrderAck_solo a
    | fill f nowUs => exact g.injectFill_solo f nowUs
    | reject r => exact g.injectOrderReject_solo r
  exact hsolo.uninterrupted rest i

end Solo
end Chronos.OrderGateway
