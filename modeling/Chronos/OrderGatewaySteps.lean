import Chronos.OrderGateway

/-!
# What one step of the gateway changes

The I/O thread processes requests, the user stream injects fills,
acknowledgements and rejects; a mutex makes each of them one step. Every step
makes at most one edit of the pending orders. The edits are listed here once,
and so are the entries of the other two maps.
-/

set_option autoImplicit false

namespace Chronos.OrderGateway
open KeyedTable OrderEncoding

inductive Action where
  | process (order : OrderRequest) (io : Surroundings)
  | ack (a : OrderAck)
  | fill (f : Fill Decimal) (nowUs : ℕ)
  | reject (r : OrderReject)

def step (g : OrderGateway) : Action → OrderGateway
  | .process order io => g.processOrder order io
  | .ack a => g.injectOrderAck a
  | .fill f nowUs => g.injectFill f nowUs
  | .reject r => g.injectOrderReject r

inductive Edit where
  | keep
  | erase (id : ℕ)
  | assign (id : ℕ) (p : PendingOrder)

def Edit.find (t : Table ℕ PendingOrder) (j : ℕ) : Edit → Option PendingOrder
  | .keep => t.find j
  | .erase id => if id = j then none else t.find j
  | .assign id p => if id = j then some p else t.find j

variable (g : OrderGateway)

def eraseEdit (id : ℕ) : Edit := if (g.pendingOrders.find id).isSome then .erase id else .keep

def fillEdit (fill : Fill Decimal) (nowUs : ℕ) : Edit :=
  match g.findForFill fill.orderId with
  | none => .keep
  | some (id,p) =>
    if p.originalQuantity ≤ p.filledQuantity+fill.fillQuantity then .erase id
    else .assign id (partlyFilled p fill nowUs)

def ackEdit (a : OrderAck) : Edit :=
  match g.pendingOrders.find a.orderId with
  | none => .keep
  | some p => .assign a.orderId (acknowledged p a.timestampUs)

def newEdit (order : OrderRequest) (io : Surroundings) : Edit :=
  if g.live then
    if g.symbolIdToName order.symbolId = "" then .keep
    else match io.placeResponse with
      | .placed orderId updateTime =>
        .assign order.orderId
          (acknowledged (tracked order io.sendTimeUs) (placedAck order orderId updateTime).timestampUs)
      | _ => .assign order.orderId (tracked order io.sendTimeUs)
  else if g.simulateFills && g.fillCallback then .erase order.orderId
  else .assign order.orderId (tracked order io.sendTimeUs)

def processEdit (order : OrderRequest) (io : Surroundings) : Edit :=
  if order.exchangeId ≠ g.exchangeId then .keep
  else if order.quantity = 0 then g.eraseEdit order.orderId
  else match g.pendingOrders.find order.orderId with
    | some p =>
      if modifiable p.status then .assign order.orderId (modified p order io.sendTimeUs)
      else g.newEdit order io
    | none => g.newEdit order io

def edit : Action → Edit
  | .process order io => g.processEdit order io
  | .ack a => g.ackEdit a
  | .fill f nowUs => g.fillEdit f nowUs
  | .reject r => g.eraseEdit r.orderId

section Pending

theorem findForFill_entry (e o : ℕ) (p : PendingOrder) (h : g.findForFill e = some (o,p)) :
    g.pendingOrders.find o = some p := by
  unfold findForFill at h
  cases hlocal : g.pendingOrders.find e with
  | some q =>
    rw [hlocal] at h
    obtain ⟨rfl,rfl⟩ := Prod.mk.inj (Option.some.inj h)
    exact hlocal
  | none =>
    rw [hlocal] at h
    simp only at h
    cases hex : g.exchangeToLocal.find e with
    | none =>
      rw [hex] at h
      cases h
    | some id =>
      rw [hex] at h
      obtain ⟨q,hq,heq⟩ := Option.map_eq_some_iff.mp h
      obtain ⟨rfl,rfl⟩ := Prod.mk.inj heq
      exact hq

theorem injectFill_find (f : Fill Decimal) (nowUs j : ℕ) :
    (g.injectFill f nowUs).pendingOrders.find j = (g.fillEdit f nowUs).find g.pendingOrders j := by
  unfold injectFill fillEdit
  cases g.findForFill f.orderId with
  | none => rfl
  | some x =>
    obtain ⟨id,p⟩ := x
    simp only
    split_ifs
    · rw [Table.find_erase]
      rfl
    · rw [Table.find_assign]
      rfl

theorem injectOrderAck_find (a : OrderAck) (j : ℕ) :
    (g.injectOrderAck a).pendingOrders.find j = (g.ackEdit a).find g.pendingOrders j := by
  unfold injectOrderAck ackEdit
  cases g.pendingOrders.find a.orderId with
  | none => rfl
  | some p =>
    simp only [Table.find_assign]
    rfl

theorem erased_find (t : Table ℕ PendingOrder) (id j : ℕ) :
    (match t.find id with
      | none => t
      | some _ => t.erase id).find j = if id = j then none else t.find j := by
  cases hf : t.find id with
  | none =>
    by_cases hj : id = j
    · subst hj
      simp [hf]
    · simp [hj]
  | some p => exact Table.find_erase _ _ _

theorem eraseEdit_find (id j : ℕ) : (g.eraseEdit id).find g.pendingOrders j =
    if id = j then none else g.pendingOrders.find j := by
  rw [← erased_find, eraseEdit]
  cases g.pendingOrders.find id with
  | none => rfl
  | some p => exact (Table.find_erase _ _ _).symm

theorem injectOrderReject_find (r : OrderReject) (j : ℕ) :
    (g.injectOrderReject r).pendingOrders.find j = (g.eraseEdit r.orderId).find g.pendingOrders j := by
  rw [eraseEdit_find, ← erased_find, injectOrderReject]
  cases g.pendingOrders.find r.orderId <;> rfl

theorem processCancel_find (order : OrderRequest) (j : ℕ) :
    (g.processCancel order).pendingOrders.find j =
      if order.orderId = j then none else g.pendingOrders.find j := by
  have hkeep : ∀ g' : OrderGateway, g'.pendingOrders = g.pendingOrders →
      (match g'.pendingOrders.find order.orderId with
        | none => g'
        | some _ => g'.finalizeOrder order.orderId).pendingOrders.find j =
          if order.orderId = j then none else g.pendingOrders.find j := by
    intro g' hg
    rw [← hg, ← erased_find]
    cases g'.pendingOrders.find order.orderId <;> rfl
  unfold processCancel
  apply hkeep
  split_ifs <;> rfl

theorem processNewLive_find (order : OrderRequest) (io : Surroundings) (j : ℕ) (hl : g.live = true) :
    (g.processNewLive order io).pendingOrders.find j = (g.newEdit order io).find g.pendingOrders j := by
  have hh : g.httpClient = true := GatewaySetup.httpClient_of_live _ hl
  unfold processNewLive newEdit encodeOrderJson
  rw [if_pos hl]
  by_cases hs : g.symbolIdToName order.symbolId = ""
  · simp [hs, Edit.find]
  · simp only [hs, if_false, realSendWithClientId, trackPending, hh]
    cases io.placeResponse with
    | failed => simp [Edit.find, send]
    | unreadable => simp [Edit.find, send]
    | placed orderId updateTime =>
      simp only [injectOrderAck, placedAck, send, Table.find_assign]
      by_cases hj : order.orderId = j <;> simp [hj, Edit.find]

theorem simulatedFill_edit (order : OrderRequest) (sendTimeUs nowUs : ℕ) :
    (g.trackPending order sendTimeUs).fillEdit (simulatedFill order sendTimeUs) nowUs =
      .erase order.orderId := by
  have hfind : (g.trackPending order sendTimeUs).findForFill order.orderId =
      some (order.orderId,tracked order sendTimeUs) := by
    simp [findForFill, trackPending]
  have hfull : order.quantity ≤ (0:Decimal)+order.quantity := by rw [zero_add]
  unfold fillEdit
  rw [show (simulatedFill order sendTimeUs).orderId = order.orderId from rfl, hfind]
  exact if_pos hfull

theorem processNewSimulated_find (order : OrderRequest) (io : Surroundings) (j : ℕ) (hl : g.live = false) :
    (g.processNewSimulated order io).pendingOrders.find j = (g.newEdit order io).find g.pendingOrders j := by
  unfold processNewSimulated newEdit
  simp only [hl]
  by_cases hf : (g.simulateFills && g.fillCallback) = true
  · have hf' : (((g.send (.wire (encodeOrder order))).trackPending order io.sendTimeUs).simulateFills &&
        ((g.send (.wire (encodeOrder order))).trackPending order io.sendTimeUs).fillCallback) = true := hf
    rw [if_pos hf', if_pos hf, injectFill_find, simulatedFill_edit]
    by_cases hj : order.orderId = j <;> simp [Edit.find, trackPending, send, hj]
  · simp [hf, trackPending, send, Edit.find]

theorem processNew_find (order : OrderRequest) (io : Surroundings) (j : ℕ) :
    (g.processNew order io).pendingOrders.find j = (g.newEdit order io).find g.pendingOrders j := by
  unfold processNew
  split_ifs with hl
  · exact g.processNewLive_find order io j hl
  · exact g.processNewSimulated_find order io j (by simpa using hl)

theorem processOrder_find (order : OrderRequest) (io : Surroundings) (j : ℕ) :
    (g.processOrder order io).pendingOrders.find j = (g.processEdit order io).find g.pendingOrders j := by
  simp only [processOrder, processEdit]
  split_ifs with hx hq
  · rfl
  · rw [processCancel_find, eraseEdit_find]
  · cases hf : g.pendingOrders.find order.orderId with
    | none => exact processNew_find _ order io j
    | some p =>
      simp only
      split_ifs
      · simp [processModify, send, Edit.find]
      · exact processNew_find _ order io j

/-- Every step is one edit of the pending orders. -/
theorem step_find (a : Action) (j : ℕ) :
    (g.step a).pendingOrders.find j = (g.edit a).find g.pendingOrders j := by
  cases a with
  | process order io => exact g.processOrder_find order io j
  | ack a => exact g.injectOrderAck_find a j
  | fill f nowUs => exact g.injectFill_find f nowUs j
  | reject r => exact g.injectOrderReject_find r j

inductive Assigned (g : OrderGateway) : Action → ℕ → PendingOrder → Prop where
  | tracked (order : OrderRequest) (io : Surroundings) (hx : order.exchangeId = g.exchangeId)
      (hq : order.quantity ≠ 0) : Assigned g (.process order io) order.orderId (tracked order io.sendTimeUs)
  | placed (order : OrderRequest) (io : Surroundings) (t : ℕ) (hx : order.exchangeId = g.exchangeId)
      (hq : order.quantity ≠ 0) :
      Assigned g (.process order io) order.orderId
        (acknowledged (OrderGateway.tracked order io.sendTimeUs) t)
  | modified (order : OrderRequest) (io : Surroundings) (p : PendingOrder)
      (hx : order.exchangeId = g.exchangeId) (hq : order.quantity ≠ 0)
      (hp : g.pendingOrders.find order.orderId = some p) :
      Assigned g (.process order io) order.orderId (OrderGateway.modified p order io.sendTimeUs)
  | acknowledged (a : OrderAck) (p : PendingOrder) (hp : g.pendingOrders.find a.orderId = some p) :
      Assigned g (.ack a) a.orderId (OrderGateway.acknowledged p a.timestampUs)
  | partlyFilled (f : Fill Decimal) (nowUs o : ℕ) (p : PendingOrder)
      (hp : g.findForFill f.orderId = some (o,p))
      (hleft : p.filledQuantity+f.fillQuantity < p.originalQuantity) :
      Assigned g (.fill f nowUs) o (OrderGateway.partlyFilled p f nowUs)

theorem newEdit_assigned (order : OrderRequest) (io : Surroundings) (o : ℕ) (p : PendingOrder)
    (hx : order.exchangeId = g.exchangeId) (hq : order.quantity ≠ 0)
    (h : g.newEdit order io = .assign o p) : Assigned g (.process order io) o p := by
  unfold newEdit at h
  split_ifs at h
  · cases hr : io.placeResponse with
    | placed orderId updateTime =>
      rw [hr] at h
      obtain ⟨rfl,rfl⟩ := Edit.assign.inj h
      exact .placed order io _ hx hq
    | failed =>
      rw [hr] at h
      obtain ⟨rfl,rfl⟩ := Edit.assign.inj h
      exact .tracked order io hx hq
    | unreadable =>
      rw [hr] at h
      obtain ⟨rfl,rfl⟩ := Edit.assign.inj h
      exact .tracked order io hx hq
  · obtain ⟨rfl,rfl⟩ := Edit.assign.inj h
    exact .tracked order io hx hq

theorem processEdit_assigned (order : OrderRequest) (io : Surroundings) (o : ℕ) (p : PendingOrder)
    (h : g.processEdit order io = .assign o p) : Assigned g (.process order io) o p := by
  unfold processEdit at h
  by_cases hx : order.exchangeId = g.exchangeId
  case neg =>
    rw [if_pos hx] at h
    cases h
  rw [if_neg (not_not.mpr hx)] at h
  by_cases hq : order.quantity = 0
  · rw [if_pos hq, eraseEdit] at h
    split_ifs at h
  rw [if_neg hq] at h
  cases hf : g.pendingOrders.find order.orderId with
  | none =>
    rw [hf] at h
    exact g.newEdit_assigned order io o p hx hq h
  | some q =>
    rw [hf] at h
    simp only at h
    split_ifs at h
    · obtain ⟨rfl,rfl⟩ := Edit.assign.inj h
      exact .modified order io q hx hq hf
    · exact g.newEdit_assigned order io o p hx hq h

theorem edit_assigned (a : Action) (o : ℕ) (p : PendingOrder) (h : g.edit a = .assign o p) :
    Assigned g a o p := by
  cases a with
  | process order io => exact g.processEdit_assigned order io o p h
  | ack a =>
    simp only [edit, ackEdit] at h
    cases hf : g.pendingOrders.find a.orderId with
    | none =>
      rw [hf] at h
      cases h
    | some q =>
      rw [hf] at h
      obtain ⟨rfl,rfl⟩ := Edit.assign.inj h
      exact .acknowledged a q hf
  | fill f nowUs =>
    simp only [edit, fillEdit] at h
    cases hf : g.findForFill f.orderId with
    | none =>
      rw [hf] at h
      cases h
    | some x =>
      obtain ⟨id,q⟩ := x
      rw [hf] at h
      simp only at h
      split_ifs at h with hfull
      obtain ⟨rfl,rfl⟩ := Edit.assign.inj h
      exact .partlyFilled f nowUs id q hf (not_le.mp hfull)
  | reject r =>
    simp only [edit, eraseEdit] at h
    split_ifs at h

end Pending

section Acknowledgements

def ackEntry (a : OrderAck) : Option (ℕ × ℕ) :=
  if (g.pendingOrders.find a.orderId).isSome = true ∧ a.exchangeOrderId ≠ 0 then
    some (a.exchangeOrderId,a.orderId)
  else none

def newEntry (order : OrderRequest) (io : Surroundings) : Option (ℕ × ℕ) :=
  if g.live = true ∧ g.symbolIdToName order.symbolId ≠ "" then
    match io.placeResponse with
    | .placed (some e) _ => if e = 0 then none else some (e,order.orderId)
    | _ => none
  else none

def acknowledgement : Action → Option (ℕ × ℕ)
  | .process order io =>
    if order.exchangeId ≠ g.exchangeId then none
    else if order.quantity = 0 then none
    else match g.pendingOrders.find order.orderId with
      | some p => if modifiable p.status then none else g.newEntry order io
      | none => g.newEntry order io
  | .ack a => g.ackEntry a
  | _ => none

def noteEntry (t : Table ℕ ℕ) (e : ℕ) : Option (ℕ × ℕ) → Option ℕ
  | none => t.find e
  | some x => if x.1 = e then some x.2 else t.find e

theorem injectFill_exchange (f : Fill Decimal) (nowUs : ℕ) :
    (g.injectFill f nowUs).exchangeToLocal = g.exchangeToLocal := by
  unfold injectFill
  split <;> rfl

theorem injectOrderAck_exchange (a : OrderAck) (e : ℕ) :
    (g.injectOrderAck a).exchangeToLocal.find e = noteEntry g.exchangeToLocal e (g.ackEntry a) := by
  unfold injectOrderAck ackEntry
  cases g.pendingOrders.find a.orderId with
  | none => rfl
  | some p =>
    by_cases h0 : a.exchangeOrderId = 0
    · simp [h0, noteEntry]
    · simp [h0, noteEntry]

theorem processNew_exchange (order : OrderRequest) (io : Surroundings) (e : ℕ) :
    (g.processNew order io).exchangeToLocal.find e =
      noteEntry g.exchangeToLocal e (g.newEntry order io) := by
  unfold processNew
  split_ifs with hl
  · have hh : g.httpClient = true := GatewaySetup.httpClient_of_live _ hl
    unfold processNewLive newEntry encodeOrderJson
    by_cases hs : g.symbolIdToName order.symbolId = ""
    · simp [hs, noteEntry]
    · simp only [hs, if_false, realSendWithClientId, trackPending, hh, hl]
      cases io.placeResponse with
      | failed => simp [noteEntry, send]
      | unreadable => simp [noteEntry, send]
      | placed orderId updateTime =>
        cases orderId with
        | none => simp [injectOrderAck, placedAck, send, noteEntry]
        | some id =>
          by_cases h0 : id = 0
          · simp [injectOrderAck, placedAck, send, noteEntry, h0]
          · simp [injectOrderAck, placedAck, send, noteEntry, h0, hs]
  · unfold processNewSimulated newEntry
    simp only [hl, Bool.false_eq_true, false_and, if_false]
    split_ifs
    · exact congrArg (fun t => t.find e) (injectFill_exchange _ _ _)
    · rfl

/-- A step ties at most one exchange id to a local id. -/
theorem step_exchange (a : Action) (e : ℕ) : (g.step a).exchangeToLocal.find e =
    noteEntry g.exchangeToLocal e (g.acknowledgement a) := by
  cases a with
  | process order io =>
    simp only [step, processOrder, acknowledgement]
    split_ifs
    · rfl
    · unfold processCancel
      simp only
      split <;> (split_ifs <;> rfl)
    · cases g.pendingOrders.find order.orderId with
      | none => exact processNew_exchange _ order io e
      | some p =>
        simp only
        split_ifs
        · rfl
        · exact processNew_exchange _ order io e
  | ack a => exact g.injectOrderAck_exchange a e
  | fill f nowUs => exact congrArg (fun t => t.find e) (g.injectFill_exchange f nowUs)
  | reject r =>
    simp only [step, injectOrderReject]
    split <;> rfl

end Acknowledgements

section Setup

theorem injectFill_setup (f : Fill Decimal) (nowUs : ℕ) :
    (g.injectFill f nowUs).toGatewaySetup = g.toGatewaySetup := by
  unfold injectFill
  split <;> rfl

theorem injectOrderAck_setup (a : OrderAck) : (g.injectOrderAck a).toGatewaySetup = g.toGatewaySetup := by
  unfold injectOrderAck
  split <;> rfl

theorem realSend_setup (order : OrderRequest) (request : PlaceRequest) (response : PlaceResponse) :
    (g.realSendWithClientId order request response).1.toGatewaySetup = g.toGatewaySetup := by
  unfold realSendWithClientId
  split_ifs
  · rfl
  · cases response with
    | placed orderId updateTime => exact injectOrderAck_setup _ _
    | _ => rfl

theorem processNew_setup (order : OrderRequest) (io : Surroundings) :
    (g.processNew order io).toGatewaySetup = g.toGatewaySetup := by
  unfold processNew
  split_ifs
  · unfold processNewLive
    cases encodeOrderJson (g.symbolIdToName order.symbolId) order io.clientTimeUs with
    | none => rfl
    | some request =>
      simp only
      split_ifs <;> exact realSend_setup _ _ _ _
  · unfold processNewSimulated
    simp only
    split_ifs
    · exact injectFill_setup _ _ _
    · rfl

theorem step_setup (a : Action) : (g.step a).toGatewaySetup = g.toGatewaySetup := by
  cases a with
  | process order io =>
    simp only [step, processOrder]
    split_ifs
    · rfl
    · unfold processCancel
      simp only
      split <;> (split_ifs <;> rfl)
    · split
      · split_ifs
        · rfl
        · exact processNew_setup _ order io
      · exact processNew_setup _ order io
  | ack a => exact g.injectOrderAck_setup a
  | fill f nowUs => exact g.injectFill_setup f nowUs
  | reject r =>
    simp only [step, injectOrderReject]
    split <;> rfl

theorem run_setup (actions : List Action) :
    (Schedule.run step actions g).toGatewaySetup = g.toGatewaySetup := by
  induction actions generalizing g with
  | nil => rfl
  | cons a actions ih => exact (ih (g.step a)).trans (g.step_setup a)

end Setup
end Chronos.OrderGateway
