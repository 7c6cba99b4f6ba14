import Chronos.ExchangeRecord

/-!
# Execution reports

`parseExecutionReport` turns an order update of the exchange into an
acknowledgement, a reject or a fill of the gateway. A report is given by the
fields it has, its numbers already converted by `toDecimal(std::stod(..))`.
It names its order by the client order id, or else by the exchange id.

Not every terminal report closes its order: `CANCELED` is not handled at all,
a reject is looked up by local id only, and the last of the trades closes an
order only if their quantities, each truncated by its conversion, still reach
the tracked quantity.
-/

set_option autoImplicit false

namespace Chronos.OrderGateway
open KeyedTable OrderEncoding

structure ExecutionReport where
  eventType : String := "ORDER_TRADE_UPDATE"
  status : String := ""
  execType : String := ""
  side : String := "BUY"
  orderId : Option ℕ := none
  clientOrderId : Option String := none
  time : Option ℕ := none
  reason : Option String := none
  lastPrice : Option Decimal := none
  lastQuantity : Option Decimal := none
  quantity : Option Decimal := none
  eventTime : Option ℕ := none

namespace ExecutionReport

def localId (r : ExecutionReport) (g : OrderGateway) : ℕ :=
  let id := match r.clientOrderId with
    | some c => g.resolveByClientOrderId c
    | none => 0
  if id = 0 then r.orderId.getD 0 else id

def milliseconds (t : Option ℕ) : ℕ := t.getD 0*1000%2^64

def ack (r : ExecutionReport) (g : OrderGateway) : OrderAck where
  orderId := r.localId g
  exchangeOrderId := r.orderId.getD 0
  status := .accepted
  timestampUs := milliseconds r.time

def reject (r : ExecutionReport) (g : OrderGateway) : OrderReject where
  orderId := r.localId g
  timestampUs := milliseconds r.time
  reason := r.reason.getD ""

def fillQuantity (r : ExecutionReport) : Decimal :=
  match r.quantity with
  | some q => if r.lastQuantity.getD 0 = 0 then q else r.lastQuantity.getD 0
  | none => r.lastQuantity.getD 0

def fill (r : ExecutionReport) (g : OrderGateway) : Fill Decimal where
  orderId := r.localId g
  exchangeId := 1
  side := if r.side = "BUY" then .buy else .sell
  fillPrice := r.lastPrice.getD 0
  fillQuantity := r.fillQuantity
  exchangeTimestampUs := milliseconds r.time
  receiveTimestampUs := milliseconds r.eventTime

end ExecutionReport

def parseExecutionReport (g : OrderGateway) (r : ExecutionReport) (nowUs : ℕ) : OrderGateway :=
  if r.eventType ≠ "ORDER_TRADE_UPDATE" then g
  else if r.status = "NEW" ∨ r.status = "ACCEPTED" then g.injectOrderAck (r.ack g)
  else if r.status = "REJECTED" ∨ r.status = "EXPIRED" then g.injectOrderReject (r.reject g)
  else if r.execType = "TRADE" ∧ (r.status = "FILLED" ∨ r.status = "PARTIALLY_FILLED") then
    g.injectFill (r.fill g) nowUs
  else g

/-- An order on the exchange: the quantity it was placed for and what was traded
of it, as the exchange counts, and its trades as the stream converts them. -/
structure Dealt where
  quantity : ℚ
  traded : ℚ := 0
  converted : ℤ := 0

inductive StreamEvent where
  | process (order : OrderRequest) (io : Surroundings)
  | report (r : ExecutionReport) (nowUs owner : ℕ) (quantity : ℚ)

/-- The gateway beside the exchange's record of its orders. -/
structure Stream where
  gateway : OrderGateway
  orders : Table ℕ Dealt := .empty

namespace ExecutionReport

def isTrade (r : ExecutionReport) : Bool :=
  r.eventType = "ORDER_TRADE_UPDATE" && r.execType = "TRADE" &&
    (r.status = "FILLED" || r.status = "PARTIALLY_FILLED")

end ExecutionReport

namespace Stream

def dealt (orders : Table ℕ Dealt) (owner : ℕ) (quantity : ℚ) (converted : Decimal) : Table ℕ Dealt :=
  match orders.find owner with
  | none => orders
  | some d => orders.assign owner
      { d with traded := d.traded+quantity, converted := d.converted+converted.raw }

def step (v : Stream) : StreamEvent → Stream
  | .process order io => {
      gateway := v.gateway.processOrder order io
      orders := if places v.gateway order io then
          v.orders.assign order.orderId { quantity := numberValue order.quantity }
        else v.orders }
  | .report r nowUs owner quantity => {
      gateway := v.gateway.parseExecutionReport r nowUs
      orders := if r.isTrade then dealt v.orders owner quantity r.fillQuantity else v.orders }

end Stream

section Reports
variable (g : OrderGateway) (r : ExecutionReport) (o : ℕ)

def NamesByClient : Prop := ∃ c, r.clientOrderId = some c ∧ g.clientIdToLocal.find c = some o

def NamesByExchange : Prop := ∀ c, r.clientOrderId = some c → g.clientIdToLocal.find c = none

def Names : Prop := NamesByClient g r o ∨ NamesByExchange g r

/-- The report leads to the local id without the map of exchange ids: by the
client order id, unless the local id is zero, or by equal numbers. -/
def Direct : Prop := (NamesByClient g r o ∧ o ≠ 0) ∨ r.orderId.getD 0 = o

def Reaches : Prop := Direct g r o ∨
  g.pendingOrders.find (r.orderId.getD 0) = none ∧ g.exchangeToLocal.find (r.orderId.getD 0) = some o

theorem localId_of_client (h : NamesByClient g r o) (h0 : o ≠ 0) : r.localId g = o := by
  obtain ⟨c,hc,ho⟩ := h
  simp [ExecutionReport.localId, hc, resolveByClientOrderId, ho, h0]

/-- In every other case the exchange id stands for the local one. -/
theorem localId_of_exchange (hn : Names g r o) (h : ¬(NamesByClient g r o ∧ o ≠ 0)) :
    r.localId g = r.orderId.getD 0 := by
  rcases hn with hclient | hunknown
  · obtain ⟨c,hc,ho⟩ := hclient
    have h0 : o = 0 := by
      by_contra h0
      exact h ⟨⟨c,hc,ho⟩,h0⟩
    simp [ExecutionReport.localId, hc, resolveByClientOrderId, ho, h0]
  · cases hc : r.clientOrderId with
    | none => simp [ExecutionReport.localId, hc]
    | some c => simp [ExecutionReport.localId, hc, resolveByClientOrderId, hunknown c hc]

theorem localId_iff (hn : Names g r o) : r.localId g = o ↔ Direct g r o := by
  by_cases hc : NamesByClient g r o ∧ o ≠ 0
  · simp [g.localId_of_client r o hc.1 hc.2, Direct, hc]
  · rw [g.localId_of_exchange r o hn hc]
    simp [Direct, hc]

theorem findForFill_iff (hn : Names g r o) (p : PendingOrder) (hp : g.pendingOrders.find o = some p) :
    g.findForFill (r.localId g) = some (o,p) ↔ Reaches g r o := by
  unfold Reaches
  by_cases hd : Direct g r o
  · have hid := (g.localId_iff r o hn).mpr hd
    simp [findForFill, hid, hp, hd]
  · have hid : r.localId g = r.orderId.getD 0 := by
      apply g.localId_of_exchange r o hn
      exact fun hc => hd (Or.inl hc)
    have hne : r.orderId.getD 0 ≠ o := fun he => hd (Or.inr he)
    rw [hid]
    simp only [hd, false_or]
    unfold findForFill
    cases hlocal : g.pendingOrders.find (r.orderId.getD 0) with
    | some q => simp [hne]
    | none =>
      cases hex : g.exchangeToLocal.find (r.orderId.getD 0) with
      | none => simp
      | some id =>
        simp only [Option.map_eq_some_iff, Prod.mk.injEq, true_and, Option.some.injEq]
        constructor
        · rintro ⟨q,-,rfl,-⟩
          rfl
        · rintro rfl
          exact ⟨p,hp,rfl,rfl⟩

theorem fill_erases_iff (f : Fill Decimal) (nowUs : ℕ) (p : PendingOrder)
    (hp : g.pendingOrders.find o = some p) :
    g.fillEdit f nowUs = .erase o ↔
      g.findForFill f.orderId = some (o,p) ∧ p.originalQuantity ≤ p.filledQuantity+f.fillQuantity := by
  unfold fillEdit
  cases hf : g.findForFill f.orderId with
  | none => simp
  | some x =>
    obtain ⟨id,q⟩ := x
    have hq := g.findForFill_entry _ _ _ hf
    simp only [Option.some.injEq, Prod.mk.injEq]
    constructor
    · intro h
      split_ifs at h with hfull
      obtain rfl := Edit.erase.inj h
      obtain rfl := Option.some.inj (hq.symm.trans hp)
      exact ⟨⟨rfl,rfl⟩,hfull⟩
    · rintro ⟨⟨rfl,rfl⟩,hfull⟩
      exact if_pos hfull

variable (nowUs : ℕ) (p : PendingOrder) (hp : g.pendingOrders.find o = some p) (hn : Names g r o)
  (he : r.eventType = "ORDER_TRADE_UPDATE")

include hp he

theorem canceled_kept (hs : r.status = "CANCELED") : (g.parseExecutionReport r nowUs).Pending o := by
  have hsame : g.parseExecutionReport r nowUs = g := by simp [parseExecutionReport, he, hs]
  rw [hsame, Pending, hp]
  rfl

include hn

theorem rejected_closes_iff (hs : r.status = "REJECTED" ∨ r.status = "EXPIRED") :
    ¬(g.parseExecutionReport r nowUs).Pending o ↔ Direct g r o := by
  have hreject : g.parseExecutionReport r nowUs = g.step (.reject (r.reject g)) := by
    rcases hs with hs | hs <;> simp [parseExecutionReport, he, hs, OrderGateway.step]
  have hpending : g.Pending o := by rw [Pending, hp]; rfl
  rw [hreject, leaves_iff g _ o hpending, ← g.localId_iff r o hn]
  constructor
  · exact fun h => g.eraseEdit_eq _ _ h
  · intro hid
    have hfound : (g.pendingOrders.find (r.localId g)).isSome = true := by
      rw [hid, hp]
      rfl
    change g.eraseEdit (r.localId g) = .erase o
    rw [eraseEdit, if_pos hfound, hid]

theorem filled_closes_iff (hs : r.status = "FILLED") :
    ¬(g.parseExecutionReport r nowUs).Pending o ↔ r.execType = "TRADE" ∧ Reaches g r o ∧
      p.originalQuantity ≤ p.filledQuantity+r.fillQuantity := by
  have hpending : g.Pending o := by rw [Pending, hp]; rfl
  by_cases hx : r.execType = "TRADE"
  · have hfill : g.parseExecutionReport r nowUs = g.step (.fill (r.fill g) nowUs) := by
      simp [parseExecutionReport, he, hs, hx, OrderGateway.step]
    rw [hfill, leaves_iff g _ o hpending, ← g.findForFill_iff r o hn p hp]
    simp only [hx, true_and]
    exact g.fill_erases_iff o (r.fill g) nowUs p hp
  · have hsame : g.parseExecutionReport r nowUs = g := by simp [parseExecutionReport, he, hs, hx]
    rw [hsame]
    simp [hpending, hx]

end Reports

section Steps
variable (g : OrderGateway) (r : ExecutionReport) (nowUs : ℕ)

theorem report_step (P : OrderGateway → Prop) (h : P g)
    (hstep : ∀ a, (∀ order io, a ≠ .process order io) → P (g.step a)) :
    P (g.parseExecutionReport r nowUs) := by
  unfold parseExecutionReport
  split_ifs
  · exact h
  · exact hstep (.ack (r.ack g)) (fun _ _ he => by cases he)
  · exact hstep (.reject (r.reject g)) (fun _ _ he => by cases he)
  · exact hstep (.fill (r.fill g) nowUs) (fun _ _ he => by cases he)
  · exact h

theorem trade_fill (h : r.isTrade = true) :
    g.parseExecutionReport r nowUs = g.injectFill (r.fill g) nowUs := by
  simp only [ExecutionReport.isTrade, Bool.and_eq_true, Bool.or_eq_true, decide_eq_true_eq] at h
  obtain ⟨⟨he,hx⟩,hs | hs⟩ := h
  · simp [parseExecutionReport, he, hx, hs]
  · simp [parseExecutionReport, he, hx, hs]

theorem message_entry (h : r.isTrade = false) (o : ℕ) (p : PendingOrder)
    (hp : (g.parseExecutionReport r nowUs).pendingOrders.find o = some p) :
    ∃ q, g.pendingOrders.find o = some q ∧ p.filledQuantity = q.filledQuantity := by
  unfold parseExecutionReport at hp
  split_ifs at hp with he hack hreject htrade
  · exact ⟨p,hp,rfl⟩
  · obtain ⟨q,hq,_,hfilled⟩ := g.ack_entry (r.ack g) o p hp
    exact ⟨q,hq,hfilled⟩
  · exact ⟨p,g.reject_entry (r.reject g) o p hp,rfl⟩
  · have htraded : r.isTrade = true := by
      simp [ExecutionReport.isTrade, not_not.mp he, htrade]
    rw [h] at htraded
    cases htraded
  · exact ⟨p,hp,rfl⟩

end Steps

section Absent
variable (g : OrderGateway)

theorem absent_step (a : Action) (o : ℕ) (h : ¬g.Pending o)
    (hp : ∀ order io, a = .process order io → order.orderId ≠ o) : ¬(g.step a).Pending o := by
  have habsent : g.pendingOrders.find o = none := Option.not_isSome_iff_eq_none.mp h
  have hfind : ∀ id p, g.pendingOrders.find id = some p → id ≠ o := by
    rintro id p hid rfl
    rw [habsent] at hid
    cases hid
  have hedit : ∀ p, g.edit a ≠ .assign o p := by
    intro p he
    cases g.edit_assigned a o p he with
    | tracked order io hx hq => exact hp order io rfl rfl
    | placed order io t hx hq => exact hp order io rfl rfl
    | modified order io q hx hq hf => exact hp order io rfl rfl
    | acknowledged a q hq => exact hfind _ q hq rfl
    | partlyFilled f nowUs o q hq hleft => exact hfind o q (g.findForFill_entry _ _ _ hq) rfl
  rw [Pending, step_find]
  cases he : g.edit a with
  | keep => simpa [Edit.find] using habsent
  | erase id => simp [Edit.find, habsent]
  | assign id p =>
    have hne : id ≠ o := by
      rintro rfl
      exact hedit p he
    simp [Edit.find, hne, habsent]

end Absent

namespace Stream

/-- The exchange has reported all trades of the order, this one included. -/
def AllTradesReported (v : Stream) (r : ExecutionReport) (owner : ℕ) (quantity : ℚ) : Prop :=
  ∃ d, v.orders.find owner = some d ∧ d.quantity ≤ d.traded+(if r.isTrade then quantity else 0)

structure Terminal (v : Stream) (r : ExecutionReport) (owner : ℕ) (quantity : ℚ) : Prop where
  event : r.eventType = "ORDER_TRADE_UPDATE"
  status : r.status = "CANCELED" ∨ r.status = "REJECTED" ∨ r.status = "EXPIRED" ∨
    r.status = "FILLED" ∧ v.AllTradesReported r owner quantity

/-- The quantities of the order's trades as they were converted, added in 64
bits, reach the tracked quantity. -/
def SumReaches (v : Stream) (r : ExecutionReport) (owner : ℕ) : Prop :=
  ∀ p d, v.gateway.pendingOrders.find owner = some p → v.orders.find owner = some d →
    p.originalQuantity ≤ Decimal.wrap (d.converted+r.fillQuantity.raw)

/-- A report about a pending order is no `CANCELED`; a reject leads to the order
by itself, a trade reaches it, and the last trade completes the sum of all. -/
structure Recognized (v : Stream) (r : ExecutionReport) (owner : ℕ) (quantity : ℚ) : Prop where
  canceled : r.eventType = "ORDER_TRADE_UPDATE" → r.status ≠ "CANCELED"
  rejected : r.eventType = "ORDER_TRADE_UPDATE" → r.status = "REJECTED" ∨ r.status = "EXPIRED" →
    Direct v.gateway r owner
  traded : r.isTrade = true → Reaches v.gateway r owner
  filled : r.eventType = "ORDER_TRADE_UPDATE" → r.status = "FILLED" →
    v.AllTradesReported r owner quantity → r.execType = "TRADE" ∧ v.SumReaches r owner

/-- A trade of an order that is not pending reaches no other. -/
def Astray (g : OrderGateway) (r : ExecutionReport) : Prop :=
  r.isTrade = true ∧ ∃ o, g.Pending o ∧ LeadsTo g (r.localId g) o

/-- No report about a pending order carries the client order id of another. -/
def Named (v : Stream) : StreamEvent → Prop
  | .process _ _ => True
  | .report r _ owner _ => v.gateway.Pending owner → Names v.gateway r owner

def ReportRecognized (v : Stream) : StreamEvent → Prop
  | .process _ _ => True
  | .report r _ owner quantity =>
    (v.gateway.Pending owner → v.Recognized r owner quantity) ∧
      (¬v.gateway.Pending owner → ¬Astray v.gateway r)

/-- After a terminal report for a pending order the order is not pending. -/
def DropsDead (v : Stream) : StreamEvent → Prop
  | .process _ _ => True
  | .report r nowUs owner quantity => v.gateway.Pending owner → v.Terminal r owner quantity →
      ¬(v.step (.report r nowUs owner quantity)).gateway.Pending owner

structure Counted (v : Stream) : Prop where
  live : v.gateway.live = true
  modifiable : AllModifiable v.gateway
  entries : ∀ o p, v.gateway.pendingOrders.find o = some p →
    ∃ d, v.orders.find o = some d ∧ p.filledQuantity = .wrap d.converted

variable (v : Stream)

theorem dealt_find (orders : Table ℕ Dealt) (owner j : ℕ) (quantity : ℚ) (converted : Decimal) :
    (dealt orders owner quantity converted).find j = if owner = j then
      (orders.find owner).map
        (fun d => { d with traded := d.traded+quantity, converted := d.converted+converted.raw })
    else orders.find j := by
  unfold dealt
  cases hfind : orders.find owner with
  | none =>
    split_ifs with hj
    · rw [← hj, hfind]
      rfl
    · rfl
  | some d => rw [Table.find_assign]; rfl

theorem counted_process (order : OrderRequest) (io : Surroundings) (h : Counted v) (o : ℕ)
    (p : PendingOrder) (hp : (v.step (.process order io)).gateway.pendingOrders.find o = some p) :
    ∃ d, (v.step (.process order io)).orders.find o = some d ∧ p.filledQuantity = .wrap d.converted := by
  have hfind : (v.gateway.processOrder order io).pendingOrders.find o = some p := hp
  by_cases ho : order.orderId = o
  · subst ho
    cases v.gateway.own_entry order io h.live h.modifiable p hfind with
    | placed hplaced hquantity hfilled =>
      simp only [step, hplaced, if_true, Table.find_assign]
      rw [hfilled]
      exact ⟨_,rfl,rfl⟩
    | kept hplaced hentry =>
      simp only [step, hplaced]
      exact h.entries order.orderId p hentry
    | modified q hplaced hx hq hentry hquantity hfilled =>
      simp only [step, hplaced]
      rw [hfilled]
      exact h.entries order.orderId q hentry
  · rw [v.gateway.process_other order io h.live o ho] at hfind
    have hsame : (v.step (.process order io)).orders.find o = v.orders.find o := by
      simp only [step]
      split_ifs
      · rw [Table.find_assign, if_neg ho]
      · rfl
    rw [hsame]
    exact h.entries o p hfind

theorem counted_trade (r : ExecutionReport) (nowUs owner : ℕ) (quantity : ℚ) (h : Counted v)
    (hn : v.Named (.report r nowUs owner quantity))
    (hr : v.ReportRecognized (.report r nowUs owner quantity)) (ht : r.isTrade = true) (o : ℕ)
    (p : PendingOrder)
    (hp : (v.gateway.injectFill (r.fill v.gateway) nowUs).pendingOrders.find o = some p) :
    ∃ d, (dealt v.orders owner quantity r.fillQuantity).find o = some d ∧
      p.filledQuantity = .wrap d.converted := by
  rw [injectFill_find] at hp
  rw [dealt_find]
  by_cases hpending : v.gateway.Pending owner
  · obtain ⟨q,hq⟩ := (v.gateway.pending_iff owner).mp hpending
    obtain ⟨d,hd,hcounted⟩ := h.entries owner q hq
    have hfound := (v.gateway.findForFill_iff r owner (hn hpending) q hq).mpr
      ((hr.1 hpending).traded ht)
    have hfill : v.gateway.findForFill (r.fill v.gateway).orderId = some (owner,q) := hfound
    rw [fillEdit, hfill] at hp
    simp only at hp
    by_cases ho : owner = o
    · subst ho
      rw [if_pos rfl, hd]
      split_ifs at hp
      · rw [Edit.find, if_pos rfl] at hp
        cases hp
      · rw [Edit.find, if_pos rfl] at hp
        obtain rfl := Option.some.inj hp
        refine ⟨_,rfl,?_⟩
        change q.filledQuantity+r.fillQuantity = _
        rw [hcounted, Decimal.add_def, Decimal.wrap_add_left]
    · rw [if_neg ho]
      split_ifs at hp
      · rw [Edit.find, if_neg ho] at hp
        exact h.entries o p hp
      · rw [Edit.find, if_neg ho] at hp
        exact h.entries o p hp
  · have hnone : v.gateway.findForFill (r.fill v.gateway).orderId = none := by
      by_contra hsome
      obtain ⟨x,hx⟩ := Option.ne_none_iff_exists'.mp hsome
      obtain ⟨hentry,hleads⟩ := v.gateway.found_leads _ x.1 x.2 hx
      exact hr.2 hpending ⟨ht,x.1,(v.gateway.pending_iff x.1).mpr ⟨x.2,hentry⟩,hleads⟩
    rw [fillEdit, hnone] at hp
    have ho : owner ≠ o := by
      rintro rfl
      exact hpending ((v.gateway.pending_iff owner).mpr ⟨p,hp⟩)
    rw [if_neg ho]
    exact h.entries o p hp

theorem counted_step (e : StreamEvent) (h : Counted v) (hn : v.Named e) (hr : v.ReportRecognized e) :
    Counted (v.step e) := by
  cases e with
  | process order io =>
    constructor
    case live =>
      change (v.gateway.step (.process order io)).live = true
      rw [OrderGateway.step_setup]
      exact h.live
    case modifiable => exact v.gateway.modifiable_step (.process order io) h.modifiable
    case entries => exact counted_process v order io h
  | report r nowUs owner quantity =>
    constructor
    case live =>
      refine v.gateway.report_step r nowUs (fun g => g.live = true) h.live (fun a _ => ?_)
      rw [OrderGateway.step_setup]
      exact h.live
    case modifiable =>
      exact v.gateway.report_step r nowUs AllModifiable h.modifiable
        (fun a _ => v.gateway.modifiable_step a h.modifiable)
    case entries =>
      intro o p hp
      simp only [step] at hp ⊢
      cases ht : r.isTrade with
      | true =>
        rw [v.gateway.trade_fill r nowUs ht] at hp
        exact counted_trade v r nowUs owner quantity h hn hr ht o p hp
      | false =>
        obtain ⟨q,hq,hfilled⟩ := v.gateway.message_entry r nowUs ht o p hp
        rw [hfilled]
        exact h.entries o q hq

/-- A terminal report for an order whose trades were counted drops it exactly
when it is recognized. -/
theorem terminal_drops_iff (r : ExecutionReport) (nowUs owner : ℕ) (quantity : ℚ) (h : Counted v)
    (hpending : v.gateway.Pending owner) (hn : Names v.gateway r owner)
    (ht : v.Terminal r owner quantity) :
    ¬(v.gateway.parseExecutionReport r nowUs).Pending owner ↔ v.Recognized r owner quantity := by
  obtain ⟨p,hp⟩ := (v.gateway.pending_iff owner).mp hpending
  have hplain : r.status ≠ "FILLED" → r.status ≠ "PARTIALLY_FILLED" → ¬r.isTrade = true := by
    intro hs hs' htrade
    simp [ExecutionReport.isTrade, hs, hs'] at htrade
  rcases ht.status with hs | hs | hs | ⟨hs,hall⟩
  · have hkept := v.gateway.canceled_kept r owner nowUs p hp ht.event hs
    exact ⟨fun hout => absurd hkept hout,fun hrec => absurd hs (hrec.canceled ht.event)⟩
  · rw [v.gateway.rejected_closes_iff r owner nowUs p hp hn ht.event (Or.inl hs)]
    refine ⟨fun hdirect => ⟨fun _ => by simp [hs],fun _ _ => hdirect,fun htrade => ?_,fun _ hf => ?_⟩,
      fun hrec => hrec.rejected ht.event (Or.inl hs)⟩
    · exact absurd htrade (hplain (by simp [hs]) (by simp [hs]))
    · simp [hs] at hf
  · rw [v.gateway.rejected_closes_iff r owner nowUs p hp hn ht.event (Or.inr hs)]
    refine ⟨fun hdirect => ⟨fun _ => by simp [hs],fun _ _ => hdirect,fun htrade => ?_,fun _ hf => ?_⟩,
      fun hrec => hrec.rejected ht.event (Or.inr hs)⟩
    · exact absurd htrade (hplain (by simp [hs]) (by simp [hs]))
    · simp [hs] at hf
  · obtain ⟨d,hd,hcounted⟩ := h.entries owner p hp
    have hsum : p.filledQuantity+r.fillQuantity = Decimal.wrap (d.converted+r.fillQuantity.raw) := by
      rw [hcounted, Decimal.add_def, Decimal.wrap_add_left]
    rw [v.gateway.filled_closes_iff r owner nowUs p hp hn ht.event hs, hsum]
    constructor
    · rintro ⟨hx,hreaches,hfull⟩
      refine ⟨fun _ => by simp [hs],fun _ hr => by simp [hs] at hr,fun _ => hreaches,
        fun _ _ _ => ⟨hx,fun p' d' hp' hd' => ?_⟩⟩
      obtain rfl := Option.some.inj (hp.symm.trans hp')
      obtain rfl := Option.some.inj (hd.symm.trans hd')
      exact hfull
    · intro hrec
      obtain ⟨hx,hreach⟩ := hrec.filled ht.event hs hall
      have htrade : r.isTrade = true := by simp [ExecutionReport.isTrade, ht.event, hx, hs]
      exact ⟨hx,hrec.traded htrade,hreach p d hp hd⟩

theorem dropsDead_step (e : StreamEvent) (h : Counted v) (hn : v.Named e) (hr : v.ReportRecognized e) :
    v.DropsDead e := by
  cases e with
  | process order io => trivial
  | report r nowUs owner quantity =>
    intro hpending ht
    exact (terminal_drops_iff v r nowUs owner quantity h hpending (hn hpending) ht).mpr
      (hr.1 hpending)

theorem absent_event (e : StreamEvent) (o : ℕ) (h : ¬v.gateway.Pending o)
    (hp : ∀ order io, e = .process order io → order.orderId ≠ o) : ¬(v.step e).gateway.Pending o := by
  cases e with
  | process order io =>
    refine v.gateway.absent_step (.process order io) o h (fun order' io' he => ?_)
    obtain ⟨rfl,rfl⟩ := Action.process.inj he
    exact hp order io rfl
  | report r nowUs owner quantity =>
    exact v.gateway.report_step r nowUs (fun g => ¬g.Pending o) h
      (fun a ha => v.gateway.absent_step a o h (fun order io he => absurd he (ha order io)))

theorem absent_run (events : List StreamEvent) (o : ℕ) (h : ¬v.gateway.Pending o)
    (hp : ∀ order io, .process order io ∈ events → order.orderId ≠ o) :
    ¬(Schedule.run step events v).gateway.Pending o := by
  induction events generalizing v with
  | nil => exact h
  | cons e events ih =>
    refine ih (v.step e) (v.absent_event e o h (fun order io he => ?_))
      (fun order io hm => hp order io (List.mem_cons_of_mem e hm))
    exact hp order io (he ▸ List.mem_cons_self)

def opened (setup : GatewaySetup) : Stream := { gateway := { toGatewaySetup := setup } }

theorem opened_counted (setup : GatewaySetup) (hl : setup.live = true) : Counted (opened setup) where
  live := hl
  modifiable o p hp := by cases hp
  entries o p hp := by cases hp

theorem counted_run (setup : GatewaySetup) (hl : setup.live = true) (events : List StreamEvent)
    (hn : Schedule.Allowed step Named events (opened setup))
    (hr : Schedule.Allowed step ReportRecognized events (opened setup)) :
    Counted (Schedule.run step events (opened setup)) :=
  Schedule.invariant step (fun v e => v.Named e ∧ v.ReportRecognized e) Counted
    (fun v e he h => counted_step v e h he.1 he.2) events _
    ((Schedule.allowed_and step Named ReportRecognized events _).mpr ⟨hn,hr⟩) (opened_counted setup hl)

/-- Every run of a live gateway whose reports name their orders: if all of them
are recognized, every terminal report drops its order, which stays out until
a request under its id is processed; and after reports that were recognized,
a terminal one drops its order only if it is recognized too. -/
theorem dead_orders_dropped (setup : GatewaySetup) (hl : setup.live = true) (events : List StreamEvent)
    (hn : Schedule.Allowed step Named events (opened setup)) :
    (Schedule.Allowed step ReportRecognized events (opened setup) →
      Schedule.Allowed step DropsDead events (opened setup)) ∧
    ∀ (before after : List StreamEvent) (r : ExecutionReport) (nowUs owner : ℕ) (quantity : ℚ),
      events = before++.report r nowUs owner quantity::after →
      Schedule.Allowed step ReportRecognized before (opened setup) →
      (Schedule.run step before (opened setup)).gateway.Pending owner →
      (Schedule.run step before (opened setup)).Terminal r owner quantity →
      (¬((Schedule.run step before (opened setup)).step (.report r nowUs owner
          quantity)).gateway.Pending owner ↔
        (Schedule.run step before (opened setup)).Recognized r owner quantity) ∧
      ((Schedule.run step before (opened setup)).Recognized r owner quantity →
        (∀ order io, .process order io ∈ after → order.orderId ≠ owner) →
        ¬(Schedule.run step events (opened setup)).gateway.Pending owner) := by
  constructor
  · intro hr
    exact Schedule.allowed_of_invariant step (fun v e => v.Named e ∧ v.ReportRecognized e) DropsDead
      Counted (fun v e he h => counted_step v e h he.1 he.2)
      (fun v e he h => dropsDead_step v e h he.1 he.2) events _
      ((Schedule.allowed_and step Named ReportRecognized events _).mpr ⟨hn,hr⟩)
      (opened_counted setup hl)
  · rintro before after r nowUs owner quantity rfl hr hpending ht
    obtain ⟨hbefore,hname,-⟩ := (Schedule.allowed_append step Named before _ _).mp hn
    have hcounted := counted_run setup hl before hbefore hr
    have hiff := terminal_drops_iff _ r nowUs owner quantity hcounted hpending (hname hpending) ht
    refine ⟨hiff,fun hrec hafter => ?_⟩
    rw [Schedule.run_append]
    exact absent_run _ after owner (hiff.mpr hrec) hafter

def placement : StreamEvent := .process buyRequest { placeResponse := .placed (some 900) none }

def canceledReport : ExecutionReport :=
  { status := "CANCELED", execType := "CANCELED", orderId := some 900, clientOrderId := some "7_0" }

def expiredReport : ExecutionReport := { status := "EXPIRED", execType := "EXPIRED", orderId := some 900 }

def smallPlacement : StreamEvent := .process { buyRequest with quantity := .wrap 1288490188 } {}

def tenth (status : String) : ExecutionReport :=
  { status := status, execType := "TRADE", orderId := some 900, clientOrderId := some "7_0",
    lastQuantity := some (.wrap 429496729) }

def tenthTraded (status : String) : StreamEvent := .report (tenth status) 0 7 (1/10)

/-- The order was cancelled on the exchange, or expired there and named by its
exchange id only, or all of it was traded in three tenths, and is still pending. -/
theorem terminalReports_keep_order :
    Names (Schedule.run step [placement] (opened binanceSetup)).gateway canceledReport 7 ∧
    (Schedule.run step [placement] (opened binanceSetup)).Terminal canceledReport 7 0 ∧
    (Schedule.run step [placement,.report canceledReport 0 7 0]
      (opened binanceSetup)).gateway.Pending 7 ∧
    (Schedule.run step [placement] (opened binanceSetup)).gateway.exchangeToLocal.find 900 = some 7 ∧
    Names (Schedule.run step [placement] (opened binanceSetup)).gateway expiredReport 7 ∧
    (Schedule.run step [placement] (opened binanceSetup)).Terminal expiredReport 7 0 ∧
    (Schedule.run step [placement,.report expiredReport 0 7 0]
      (opened binanceSetup)).gateway.Pending 7 ∧
    Names (Schedule.run step [smallPlacement,tenthTraded "PARTIALLY_FILLED",
      tenthTraded "PARTIALLY_FILLED"] (opened binanceSetup)).gateway (tenth "FILLED") 7 ∧
    (Schedule.run step [smallPlacement,tenthTraded "PARTIALLY_FILLED",tenthTraded "PARTIALLY_FILLED"]
      (opened binanceSetup)).Terminal (tenth "FILLED") 7 (1/10) ∧
    (Schedule.run step [smallPlacement,tenthTraded "PARTIALLY_FILLED",tenthTraded "PARTIALLY_FILLED",
      tenthTraded "FILLED"] (opened binanceSetup)).gateway.Pending 7 := by
  have hall : ((Schedule.run step [smallPlacement,tenthTraded "PARTIALLY_FILLED",
      tenthTraded "PARTIALLY_FILLED"] (opened binanceSetup)).orders.find 7).any
        (fun d => d.quantity ≤ d.traded+1/10) = true := by decide +kernel
  obtain ⟨d,hd,htraded⟩ := (Option.any_eq_true _ _).mp hall
  refine ⟨Or.inl ⟨"7_0",rfl,by decide +kernel⟩,⟨rfl,Or.inl rfl⟩,by decide +kernel,
    by decide +kernel,Or.inr (fun c hc => by cases hc),⟨rfl,Or.inr (Or.inr (Or.inl rfl))⟩,
    by decide +kernel,Or.inl ⟨"7_0",rfl,by decide +kernel⟩,
    ⟨rfl,Or.inr (Or.inr (Or.inr ⟨rfl,d,hd,of_decide_eq_true htraded⟩))⟩,by decide +kernel⟩

def unitReport (status : String) (clientOrderId : Option String) : ExecutionReport :=
  { status := status, execType := "TRADE", orderId := some 900, clientOrderId := clientOrderId,
    lastQuantity := some (.ofInt 1) }

def firstUnit : StreamEvent := .report (unitReport "PARTIALLY_FILLED" none) 0 7 1

def lastUnit : StreamEvent := .report (unitReport "FILLED" (some "7_0")) 0 7 1

/-- Both units are traded, and the order is gone. -/
theorem bothUnits_dropped :
    (Schedule.run step [placement,firstUnit] (opened binanceSetup)).gateway.Pending 7 ∧
    ¬(Schedule.run step [placement,firstUnit,lastUnit] (opened binanceSetup)).gateway.Pending 7 := by
  have hall : ((Schedule.run step [placement,firstUnit] (opened binanceSetup)).orders.find 7).any
      (fun d => d.quantity ≤ d.traded+1) = true := by decide +kernel
  have hsums : ((Schedule.run step [placement,firstUnit] (opened binanceSetup)).orders.find 7).all
      (fun d => ((Schedule.run step [placement,firstUnit]
        (opened binanceSetup)).gateway.pendingOrders.find 7).all
          (fun p => p.originalQuantity ≤ Decimal.wrap (d.converted+(Decimal.ofInt 1).raw))) = true := by
    decide +kernel
  have hpending : (Schedule.run step [placement,firstUnit] (opened binanceSetup)).gateway.Pending 7 := by
    decide +kernel
  have hunknown : (Schedule.run step [placement] (opened binanceSetup)).gateway.pendingOrders.find 900 =
      none := Option.not_isSome_iff_eq_none.mp (by decide +kernel)
  have hmapped : (Schedule.run step [placement]
      (opened binanceSetup)).gateway.exchangeToLocal.find 900 = some 7 := by decide +kernel
  have hclient : NamesByClient (Schedule.run step [placement,firstUnit] (opened binanceSetup)).gateway
      (unitReport "FILLED" (some "7_0")) 7 := ⟨"7_0",rfl,by decide +kernel⟩
  have hn : Schedule.Allowed step Named [placement,firstUnit,lastUnit] (opened binanceSetup) :=
    ⟨trivial,fun _ => Or.inr (fun c hc => by cases hc),fun _ => Or.inl hclient,trivial⟩
  have hr : Schedule.Allowed step ReportRecognized [placement,firstUnit] (opened binanceSetup) := by
    refine ⟨trivial,⟨fun _ => ⟨fun _ => by decide,fun _ h => ?_,fun _ => Or.inr ⟨hunknown,hmapped⟩,
      fun _ h => ?_⟩,fun hout => absurd ?_ hout⟩,trivial⟩
    · rcases h with h | h
      · exact absurd h (by decide)
      · exact absurd h (by decide)
    · exact absurd h (by decide)
    · decide +kernel
  obtain ⟨d,hd,htraded⟩ := (Option.any_eq_true _ _).mp hall
  have hterminal : (Schedule.run step [placement,firstUnit] (opened binanceSetup)).Terminal
      (unitReport "FILLED" (some "7_0")) 7 1 :=
    ⟨rfl,Or.inr (Or.inr (Or.inr ⟨rfl,d,hd,of_decide_eq_true htraded⟩))⟩
  refine ⟨hpending,((dead_orders_dropped binanceSetup rfl [placement,firstUnit,lastUnit] hn).2
    [placement,firstUnit] [] _ 0 7 1 rfl hr hpending hterminal).1.mpr ?_⟩
  refine ⟨fun _ => by decide,fun _ h => ?_,fun _ => Or.inl (Or.inl ⟨hclient,by decide⟩),
    fun _ _ _ => ⟨rfl,fun p d' hp hd' => ?_⟩⟩
  · rcases h with h | h
    · exact absurd h (by decide)
    · exact absurd h (by decide)
  · rw [hd', hp] at hsums
    exact of_decide_eq_true hsums

end Stream
end Chronos.OrderGateway
