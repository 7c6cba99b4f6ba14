import Chronos.OrderSends

/-!
# The counters of the gateway balance

What every operation adds to the number of received requests, to the number
of outcomes and to the number of accounted fills. A request has one outcome,
a reject is one more, a fill is either handed on or an error.
-/

set_option autoImplicit false

namespace Chronos.OrderGateway
open KeyedTable OrderEncoding

def outcomes (s : OrderGatewayStats) : ℕ :=
  s.exchangeIdMismatch+s.ordersSent+s.ordersRejected+s.ordersCancelled+s.ordersModified

def accountedFills (s : OrderGatewayStats) : ℕ := s.fillsReceived+s.fillErrors

structure Counted (s t : OrderGatewayStats) (received settled fills : ℕ) : Prop where
  received : t.ordersReceived = s.ordersReceived+received
  settled : outcomes t = outcomes s+settled
  fills : accountedFills t = accountedFills s+fills

theorem Counted.refl (s : OrderGatewayStats) : Counted s s 0 0 0 := ⟨rfl,rfl,rfl⟩

theorem Counted.trans {s t u : OrderGatewayStats} {r o f r' o' f' : ℕ} (h : Counted s t r o f)
    (h' : Counted t u r' o' f') : Counted s u (r+r') (o+o') (f+f') := by
  constructor
  · rw [h'.received, h.received, Nat.add_assoc]
  · rw [h'.settled, h.settled, Nat.add_assoc]
  · rw [h'.fills, h.fills, Nat.add_assoc]

inductive Outcome where
  | mismatch
  | sent
  | rejected
  | cancelled
  | modified

def Outcome.count (s : OrderGatewayStats) : Outcome → OrderGatewayStats
  | .mismatch => { s with exchangeIdMismatch := s.exchangeIdMismatch+1 }
  | .sent => { s with ordersSent := s.ordersSent+1 }
  | .rejected => { s with ordersRejected := s.ordersRejected+1 }
  | .cancelled => { s with ordersCancelled := s.ordersCancelled+1 }
  | .modified => { s with ordersModified := s.ordersModified+1 }

theorem counted_outcome (s : OrderGatewayStats) (o : Outcome) : Counted s (o.count s) 0 1 0 := by
  cases o <;> constructor <;> simp only [Outcome.count, outcomes, accountedFills] <;> omega

theorem counted_received (s : OrderGatewayStats) :
    Counted s { s with ordersReceived := s.ordersReceived+1 } 1 0 0 := ⟨rfl,rfl,rfl⟩

theorem counted_fill (s : OrderGatewayStats) :
    Counted s { s with fillsReceived := s.fillsReceived+1 } 0 0 1 := by
  constructor <;> simp only [outcomes, accountedFills] <;> omega

theorem counted_fillError (s : OrderGatewayStats) :
    Counted s { s with fillErrors := s.fillErrors+1 } 0 0 1 := ⟨rfl,rfl,rfl⟩

section Operations
variable (g : OrderGateway)

theorem injectFill_counted (f : Fill Decimal) (nowUs : ℕ) :
    Counted g.stats (g.injectFill f nowUs).stats 0 0 1 := by
  unfold injectFill
  cases g.findForFill f.orderId with
  | none => exact counted_fillError g.stats
  | some x => exact counted_fill g.stats

theorem injectOrderReject_counted (r : OrderReject) :
    Counted g.stats (g.injectOrderReject r).stats 0 1 0 := by
  unfold injectOrderReject
  cases g.pendingOrders.find r.orderId with
  | none => exact counted_outcome g.stats .rejected
  | some p => exact counted_outcome g.stats .rejected

theorem processCancel_counted (order : OrderRequest) :
    Counted g.stats (g.processCancel order).stats 0 1 0 := by
  have hcount : (g.processCancel order).stats = Outcome.cancelled.count g.stats := by
    unfold processCancel
    split_ifs <;> dsimp only [send] <;> cases g.pendingOrders.find order.orderId <;> rfl
  rw [hcount]
  exact counted_outcome g.stats .cancelled

theorem processModify_counted (order : OrderRequest) (p : PendingOrder) (io : Surroundings) :
    Counted g.stats (g.processModify order p io).stats 0 1 0 := counted_outcome g.stats .modified

theorem realSend_stats (order : OrderRequest) (request : PlaceRequest) (response : PlaceResponse) :
    (g.realSendWithClientId order request response).1.stats = g.stats := by
  unfold realSendWithClientId
  split_ifs
  · rfl
  · cases response with
    | failed => rfl
    | unreadable => rfl
    | placed orderId updateTime => exact injectOrderAck_stats _ _

theorem processNewLive_counted (order : OrderRequest) (io : Surroundings) :
    Counted g.stats (g.processNewLive order io).stats 0 1 0 := by
  by_cases hs : g.symbolIdToName order.symbolId = ""
  · rw [unmapped_refused g order io hs]
    exact counted_outcome g.stats .rejected
  · have hstats : ((g.noted order io).realSendWithClientId order (g.request order io.clientTimeUs)
        io.placeResponse).1.stats = g.stats := realSend_stats _ _ _ _
    rw [mapped_sent g order io hs]
    dsimp only
    split_ifs
    · rw [hstats]
      exact counted_outcome g.stats .sent
    · rw [hstats]
      exact counted_outcome g.stats .rejected

def onTheWire (g : OrderGateway) (order : OrderRequest) (io : Surroundings) : OrderGateway :=
  (g.send (.wire (encodeOrder order))).trackPending order io.sendTimeUs

def counted (g : OrderGateway) (o : Outcome) : OrderGateway := { g with stats := o.count g.stats }

theorem processNewSimulated_filled (order : OrderRequest) (io : Surroundings)
    (hf : (g.simulateFills && g.fillCallback) = true) :
    g.processNewSimulated order io = ((g.onTheWire order io).injectFill
      (simulatedFill order io.sendTimeUs) io.fillTimeUs).counted .sent :=
  congrArg (fun g' : OrderGateway => g'.counted .sent) (if_pos hf)

theorem processNewSimulated_unfilled (order : OrderRequest) (io : Surroundings)
    (hf : ¬(g.simulateFills && g.fillCallback) = true) :
    g.processNewSimulated order io = (g.onTheWire order io).counted .sent :=
  congrArg (fun g' : OrderGateway => g'.counted .sent) (if_neg hf)

theorem processNewSimulated_counted (order : OrderRequest) (io : Surroundings) :
    Counted g.stats (g.processNewSimulated order io).stats 0 1
      (if g.simulateFills && g.fillCallback then 1 else 0) := by
  by_cases hf : (g.simulateFills && g.fillCallback) = true
  · rw [if_pos hf, g.processNewSimulated_filled order io hf]
    have hfill := injectFill_counted (g.onTheWire order io) (simulatedFill order io.sendTimeUs)
      io.fillTimeUs
    exact hfill.trans (counted_outcome _ .sent)
  · rw [if_neg hf, g.processNewSimulated_unfilled order io hf]
    exact counted_outcome g.stats .sent

def simulatesFill (g : OrderGateway) (order : OrderRequest) : Bool :=
  order.exchangeId = g.exchangeId && order.quantity ≠ 0 &&
    !((g.pendingOrders.find order.orderId).any (fun p => modifiable p.status)) &&
    (!g.live && (g.simulateFills && g.fillCallback))

def injected (g : OrderGateway) : Action → List (Fill Decimal)
  | .process order io => if g.simulatesFill order then [simulatedFill order io.sendTimeUs] else []
  | .ack _ => []
  | .fill f _ => [f]
  | .reject _ => []

theorem processNew_counted (order : OrderRequest) (io : Surroundings) :
    Counted g.stats (g.processNew order io).stats 0 1
      (if !g.live && (g.simulateFills && g.fillCallback) then 1 else 0) := by
  unfold processNew
  by_cases hl : g.live = true
  · rw [if_pos hl, hl]
    exact g.processNewLive_counted order io
  · rw [if_neg hl, Bool.eq_false_of_not_eq_true hl]
    exact g.processNewSimulated_counted order io

/-- The branches of `processOrder`, each entered with the request counted. -/
theorem processOrder_branches (order : OrderRequest) (io : Surroundings) :
    g.processOrder order io =
      if order.exchangeId ≠ g.exchangeId then g.received.counted .mismatch
      else if order.quantity = 0 then g.received.processCancel order
      else match g.pendingOrders.find order.orderId with
        | some p =>
          if modifiable p.status then g.received.processModify order p io
          else g.received.processNew order io
        | none => g.received.processNew order io := rfl

theorem injected_process (order : OrderRequest) (io : Surroundings) :
    (g.injected (.process order io)).length = if g.simulatesFill order then 1 else 0 := by
  show (if g.simulatesFill order then [simulatedFill order io.sendTimeUs] else []).length = _
  split_ifs <;> rfl

theorem processOrder_counted (order : OrderRequest) (io : Surroundings) :
    Counted g.stats (g.processOrder order io).stats 1 1 (g.injected (.process order io)).length := by
  have hreceived : Counted g.stats g.received.stats 1 0 0 := counted_received g.stats
  have hnew : Counted g.stats (g.received.processNew order io).stats 1 1
      (if !g.live && (g.simulateFills && g.fillCallback) then 1 else 0) := by
    have h := hreceived.trans (g.received.processNew_counted order io)
    rw [Nat.add_zero, Nat.zero_add] at h
    exact h
  rw [injected_process, processOrder_branches]
  by_cases hx : order.exchangeId = g.exchangeId
  · rw [if_neg (not_not.mpr hx)]
    by_cases hq : order.quantity = 0
    · rw [if_pos hq]
      have hs : g.simulatesFill order = false := by simp [simulatesFill, hq]
      rw [hs]
      exact hreceived.trans (g.received.processCancel_counted order)
    · rw [if_neg hq]
      cases hf : g.pendingOrders.find order.orderId with
      | none =>
        have hs : g.simulatesFill order = (!g.live && (g.simulateFills && g.fillCallback)) := by
          simp [simulatesFill, hx, hq, hf]
        rw [hs]
        exact hnew
      | some p =>
        dsimp only
        by_cases hm : modifiable p.status = true
        · have hs : g.simulatesFill order = false := by simp [simulatesFill, hf, hm]
          rw [if_pos hm, hs]
          exact hreceived.trans (g.received.processModify_counted order p io)
        · have hs : g.simulatesFill order = (!g.live && (g.simulateFills && g.fillCallback)) := by
            simp [simulatesFill, hx, hq, hf, hm]
          rw [if_neg hm, hs]
          exact hnew
  · have hs : g.simulatesFill order = false := by simp [simulatesFill, hx]
    rw [if_pos hx, hs]
    exact hreceived.trans (counted_outcome g.received.stats .mismatch)

/-- What `simulatesFill` foresees is that `processOrder` injects its own fill. -/
theorem processOrder_simulated (order : OrderRequest) (io : Surroundings)
    (h : g.simulatesFill order = true) :
    g.processOrder order io = ((g.received.onTheWire order io).injectFill
      (simulatedFill order io.sendTimeUs) io.fillTimeUs).counted .sent := by
  simp only [simulatesFill, Bool.and_eq_true, decide_eq_true_eq, Bool.not_eq_true'] at h
  obtain ⟨⟨⟨hx,hq⟩,hm⟩,hl,hf⟩ := h
  have hnew : g.received.processNew order io = g.received.processNewSimulated order io :=
    if_neg (Bool.not_eq_true _ ▸ hl)
  have hfilled := g.received.processNewSimulated_filled order io (Bool.and_eq_true _ _ ▸ hf)
  rw [processOrder_branches, if_neg (not_not.mpr hx), if_neg hq]
  cases hp : g.pendingOrders.find order.orderId with
  | none => exact hnew.trans hfilled
  | some p =>
    rw [hp, Option.any_some] at hm
    dsimp only
    rw [hm]
    exact hnew.trans hfilled

end Operations

section Runs
variable (g : OrderGateway)

def Action.isRequest : Action → Bool
  | .process _ _ => true
  | _ => false

def Action.isReject : Action → Bool
  | .reject _ => true
  | _ => false

def injectedFills : List Action → OrderGateway → List (Fill Decimal)
  | [], _ => []
  | a::actions, g => g.injected a++injectedFills actions (g.step a)

theorem step_counted (a : Action) :
    Counted g.stats (g.step a).stats a.isRequest.toNat (a.isRequest.toNat+a.isReject.toNat)
      (g.injected a).length := by
  cases a with
  | process order io => exact g.processOrder_counted order io
  | ack a =>
    show Counted g.stats (g.injectOrderAck a).stats 0 0 0
    rw [injectOrderAck_stats]
    exact .refl g.stats
  | fill f nowUs => exact g.injectFill_counted f nowUs
  | reject r => exact g.injectOrderReject_counted r

theorem countP_cons_toNat (p : Action → Bool) (a : Action) (actions : List Action) :
    (a::actions).countP p = (p a).toNat+actions.countP p := by
  rw [List.countP_cons, Nat.add_comm]
  cases p a <;> rfl

theorem run_counted (actions : List Action) :
    Counted g.stats (Schedule.run step actions g).stats (actions.countP Action.isRequest)
      (actions.countP Action.isRequest+actions.countP Action.isReject)
      (injectedFills actions g).length := by
  induction actions generalizing g with
  | nil => exact .refl g.stats
  | cons a actions ih =>
    have h := (g.step_counted a).trans (ih (g.step a))
    rw [Nat.add_add_add_comm] at h
    rwa [countP_cons_toNat, countP_cons_toNat, injectedFills, List.length_append]

theorem cancelPending_stats (id : ℕ) (h : (g.pendingOrders.find id).isSome = true) :
    (g.cancelPending id).stats = Outcome.cancelled.count g.stats := by
  obtain ⟨p,hp⟩ := Option.isSome_iff_exists.mp h
  unfold cancelPending
  rw [hp]
  dsimp only
  split_ifs <;> rfl

theorem cancelPending_find (id j : ℕ) (hj : id ≠ j) :
    (g.cancelPending id).pendingOrders.find j = g.pendingOrders.find j := by
  have herase : (g.pendingOrders.erase id).find j = g.pendingOrders.find j := by
    rw [Table.find_erase, if_neg hj]
  unfold cancelPending
  cases g.pendingOrders.find id <;> dsimp only <;> split_ifs <;> first | exact herase | rfl

/-- The ids are collected first; each of them is still pending at its turn. -/
theorem cancelPending_counted (ids : List ℕ) (hn : ids.Nodup)
    (hp : ∀ id ∈ ids, (g.pendingOrders.find id).isSome = true) :
    Counted g.stats (ids.foldl cancelPending g).stats 0 ids.length 0 := by
  induction ids generalizing g with
  | nil => exact .refl g.stats
  | cons id ids ih =>
    obtain ⟨hid,hn⟩ := List.nodup_cons.mp hn
    have hone : Counted g.stats (g.cancelPending id).stats 0 1 0 := by
      rw [g.cancelPending_stats id (hp id List.mem_cons_self)]
      exact counted_outcome g.stats .cancelled
    have hrest := ih (g.cancelPending id) hn (fun j hj => by
      rw [g.cancelPending_find id j (fun he => hid (he ▸ hj))]
      exact hp j (List.mem_cons_of_mem id hj))
    have h := hone.trans hrest
    rwa [Nat.add_comm 1] at h

theorem cancelAllPending_counted :
    Counted g.stats g.cancelAllPending.stats 0 g.pendingOrders.entries.length 0 := by
  have h := g.cancelPending_counted (g.pendingOrders.entries.map Prod.fst)
    g.pendingOrders.distinct (fun id hid => by
      rw [List.mem_map] at hid
      obtain ⟨x,hx,rfl⟩ := hid
      rw [(Table.find_mem g.pendingOrders x.1 x.2).mpr hx]
      rfl)
  rwa [List.length_map] at h

theorem counters_balance (setup : GatewaySetup) (actions : List Action) :
    let start : OrderGateway := { toGatewaySetup := setup }
    let g := Schedule.run step actions start
    let final := g.cancelAllPending.stats
    final.ordersReceived+actions.countP Action.isReject+g.pendingOrders.entries.length =
        final.exchangeIdMismatch+final.ordersSent+final.ordersRejected+final.ordersCancelled+
          final.ordersModified ∧
      (injectedFills actions start).length = final.fillsReceived+final.fillErrors := by
  intro start g final
  have h : Counted start.stats final _ _ _ :=
    (start.run_counted actions).trans g.cancelAllPending_counted
  have hreceived : final.ordersReceived = 0+(actions.countP Action.isRequest+0) := h.received
  have hsettled : outcomes final = 0+(actions.countP Action.isRequest+
    actions.countP Action.isReject+g.pendingOrders.entries.length) := h.settled
  have hfills : accountedFills final = 0+((injectedFills actions start).length+0) := h.fills
  constructor
  · rw [hreceived]
    show _ = outcomes final
    omega
  · show _ = accountedFills final
    omega

end Runs
end Chronos.OrderGateway
