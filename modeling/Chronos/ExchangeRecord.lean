import Chronos.FillAttribution
import Chronos.OrderSends
import Chronos.PendingEntries

/-!
# Live orders and the record of the exchange

The exchange keeps its own record: what each order was placed for, and what
was traded of it since. There every fill and every reject belongs to one
order, whatever number its message carries. The gateway forgets no live order
as long as its cancels are carried out, a change of an order, which is never
transmitted, does not go below the quantity it was placed for, and the number
of a message leads to no order but its own.
-/

set_option autoImplicit false

namespace Chronos.OrderGateway
open KeyedTable

def isPlacement : Sent → Bool
  | .place _ => true
  | _ => false

def places (g : OrderGateway) (order : OrderRequest) (io : Surroundings) : Bool :=
  ((g.processOrder order io).sends.drop g.sends.length).any isPlacement

/-- A fill under this number reaches the order: by its local id, or by an
exchange id that is no pending order's local id. -/
def LeadsTo (g : OrderGateway) (n o : ℕ) : Prop :=
  n = o ∨ ¬g.Pending n ∧ g.exchangeToLocal.find n = some o

structure Placed where
  quantity : ℤ
  filled : ℤ := 0

inductive Event where
  | process (order : OrderRequest) (io : Surroundings)
  | ack (a : OrderAck)
  | fill (f : Fill Decimal) (nowUs owner : ℕ)
  | reject (r : OrderReject) (owner : ℕ)

def Event.action : Event → Action
  | .process order io => .process order io
  | .ack a => .ack a
  | .fill f nowUs _ => .fill f nowUs
  | .reject r _ => .reject r

/-- The gateway beside the exchange's record of its orders. -/
structure Venue where
  gateway : OrderGateway
  orders : Table ℕ Placed := .empty

namespace Venue

def traded (orders : Table ℕ Placed) (owner : ℕ) (quantity : Decimal) : Table ℕ Placed :=
  match orders.find owner with
  | none => orders
  | some r => orders.assign owner { r with filled := r.filled+quantity.raw }

/-- Only a placement tells the exchange of a quantity. -/
def step (v : Venue) (e : Event) : Venue where
  gateway := v.gateway.step e.action
  orders := match e with
    | .process order io =>
      if places v.gateway order io then v.orders.assign order.orderId { quantity := order.quantity.raw }
      else v.orders
    | .fill f _ owner => traded v.orders owner f.fillQuantity
    | _ => v.orders

/-- The events that end an order: its trades reach the quantity it was placed
for, the exchange rejects it or lets it expire, or a cancel request for it was
sent and succeeded. -/
def Closes (v : Venue) (e : Event) (o : ℕ) : Prop :=
  match e with
  | .process order io => order.orderId = o ∧ order.exchangeId = v.gateway.exchangeId ∧
      order.quantity = 0 ∧ v.gateway.symbolIdToName order.symbolId ≠ "" ∧ io.cancelOk = true
  | .ack _ => False
  | .fill f _ owner => owner = o ∧ ∃ r, v.orders.find o = some r ∧
      r.quantity ≤ r.filled+f.fillQuantity.raw
  | .reject _ owner => owner = o

def KeepsLive (v : Venue) (e : Event) : Prop :=
  ∀ o, v.gateway.Pending o → ¬(v.step e).gateway.Pending o → v.Closes e o

/-- A cancel request for a pending order names a symbol and succeeds, a change
of one asks for no less than it was placed for, and no other order is reached
by the number of a fill or a reject. -/
def Matched (v : Venue) : Event → Prop
  | .process order io => order.exchangeId = v.gateway.exchangeId → v.gateway.Pending order.orderId →
      (order.quantity = 0 → v.gateway.symbolIdToName order.symbolId ≠ "" ∧ io.cancelOk = true) ∧
        (order.quantity ≠ 0 → ∀ r, v.orders.find order.orderId = some r →
          r.quantity ≤ order.quantity.raw)
  | .ack _ => True
  | .fill f _ owner => ∀ o, v.gateway.Pending o → LeadsTo v.gateway f.orderId o → o = owner
  | .reject r owner => v.gateway.Pending r.orderId → r.orderId = owner

def PositiveFill : Event → Prop
  | .fill f _ _ => 0 < f.fillQuantity
  | _ => True

end Venue

section Lookups
variable (g : OrderGateway)

theorem pending_iff (o : ℕ) : g.Pending o ↔ ∃ p, g.pendingOrders.find o = some p :=
  Option.isSome_iff_exists

theorem found_leads (n o : ℕ) (p : PendingOrder) (h : g.findForFill n = some (o,p)) :
    g.pendingOrders.find o = some p ∧ LeadsTo g n o := by
  refine ⟨g.findForFill_entry n o p h,?_⟩
  unfold findForFill at h
  cases hlocal : g.pendingOrders.find n with
  | some q =>
    rw [hlocal] at h
    exact Or.inl (Prod.mk.inj (Option.some.inj h)).1
  | none =>
    rw [hlocal] at h
    simp only at h
    cases hex : g.exchangeToLocal.find n with
    | none =>
      rw [hex] at h
      cases h
    | some id =>
      rw [hex] at h
      obtain ⟨q,-,heq⟩ := Option.map_eq_some_iff.mp h
      rw [(Prod.mk.inj heq).1] at hex
      refine Or.inr ⟨?_,hex⟩
      rw [Pending, hlocal]
      exact Bool.false_ne_true

theorem leads_found (n o : ℕ) (p : PendingOrder) (hp : g.pendingOrders.find o = some p)
    (h : LeadsTo g n o) : g.findForFill n = some (o,p) := by
  rcases h with rfl | ⟨hn,hex⟩
  · unfold findForFill
    rw [hp]
  · exact g.found_by_exchangeId n o p hex hp (Or.inr (Option.not_isSome_iff_eq_none.mp hn))

variable (order : OrderRequest) (io : Surroundings)

theorem places_of_sends (ms : List Sent) (h : (g.processOrder order io).sends = g.sends++ms) :
    places g order io = ms.any isPlacement := by
  rw [places, h, List.drop_left]

theorem newOrder_of_absent (hx : order.exchangeId = g.exchangeId) (hq : order.quantity ≠ 0)
    (hp : g.pendingOrders.find order.orderId = none) : NewOrder g order := by
  refine ⟨hx,hq,fun p hp' => ?_⟩
  rw [hp] at hp'
  cases hp'

theorem ack_entry (a : OrderAck) (o : ℕ) (p : PendingOrder)
    (hp : (g.injectOrderAck a).pendingOrders.find o = some p) :
    ∃ q, g.pendingOrders.find o = some q ∧ p.originalQuantity = q.originalQuantity ∧
      p.filledQuantity = q.filledQuantity := by
  rw [injectOrderAck_find, ackEdit] at hp
  cases hacked : g.pendingOrders.find a.orderId with
  | none =>
    rw [hacked] at hp
    exact ⟨p,hp,rfl,rfl⟩
  | some q =>
    simp only [hacked, Edit.find] at hp
    split_ifs at hp with ho
    · obtain rfl := Option.some.inj hp
      exact ⟨q,ho ▸ hacked,rfl,rfl⟩
    · exact ⟨p,hp,rfl,rfl⟩

theorem reject_entry (r : OrderReject) (o : ℕ) (p : PendingOrder)
    (hp : (g.injectOrderReject r).pendingOrders.find o = some p) : g.pendingOrders.find o = some p := by
  rw [injectOrderReject_find, eraseEdit_find] at hp
  split_ifs at hp
  exact hp

theorem process_other (hl : g.live = true) (j : ℕ) (hj : order.orderId ≠ j) :
    (g.processOrder order io).pendingOrders.find j = g.pendingOrders.find j := by
  rw [processOrder_find]
  cases hedit : g.processEdit order io with
  | keep => rfl
  | erase id =>
    obtain ⟨_,_,rfl,_⟩ := (g.process_erases order io id hl).mp hedit
    exact if_neg hj
  | assign id p =>
    have hid : order.orderId = id := by
      cases g.processEdit_assigned order io id p hedit <;> rfl
    subst hid
    exact if_neg hj

inductive OwnEntry (g : OrderGateway) (order : OrderRequest) (io : Surroundings) (p : PendingOrder) :
    Prop where
  | placed (hplaced : places g order io = true) (hquantity : p.originalQuantity = order.quantity)
      (hfilled : p.filledQuantity = 0)
  | kept (hplaced : places g order io = false)
      (hp : g.pendingOrders.find order.orderId = some p)
  | modified (q : PendingOrder) (hplaced : places g order io = false)
      (hx : order.exchangeId = g.exchangeId) (hq : order.quantity ≠ 0)
      (hp : g.pendingOrders.find order.orderId = some q)
      (hquantity : p.originalQuantity = order.quantity) (hfilled : p.filledQuantity = q.filledQuantity)

theorem own_entry (hl : g.live = true) (hm : AllModifiable g) (p : PendingOrder)
    (hp : (g.processOrder order io).pendingOrders.find order.orderId = some p) :
    OwnEntry g order io p := by
  rw [processOrder_find] at hp
  by_cases hx : order.exchangeId = g.exchangeId
  case neg =>
    rw [processEdit, if_pos hx, Edit.find] at hp
    exact .kept (places_of_sends g order io [] (sends_elsewhere g order io hx)) hp
  by_cases hq : order.quantity = 0
  · rw [processEdit, if_neg (not_not.mpr hx), if_pos hq, eraseEdit_find, if_pos rfl] at hp
    cases hp
  rw [processEdit, if_neg (not_not.mpr hx), if_neg hq] at hp
  cases hfind : g.pendingOrders.find order.orderId with
  | some q =>
    have hmodifiable := hm _ q hfind
    simp only [hfind, hmodifiable, if_true, Edit.find, Option.some.injEq] at hp
    subst hp
    exact .modified q (places_of_sends g order io _ (sends_modify g order io hx hq q hfind hmodifiable))
      hx hq hfind rfl rfl
  | none =>
    have hn := g.newOrder_of_absent order hx hq hfind
    simp only [hfind] at hp
    rw [newEdit, if_pos hl] at hp
    by_cases hs : g.symbolIdToName order.symbolId = ""
    · rw [if_pos hs, Edit.find, hfind] at hp
      cases hp
    · have hplaced : places g order io = true :=
        places_of_sends g order io _ (sends_new g order io hl hn hs)
      rw [if_neg hs] at hp
      cases hr : io.placeResponse with
      | failed =>
        simp only [hr, Edit.find, if_true, Option.some.injEq] at hp
        exact .placed hplaced (hp ▸ rfl) (hp ▸ rfl)
      | unreadable =>
        simp only [hr, Edit.find, if_true, Option.some.injEq] at hp
        exact .placed hplaced (hp ▸ rfl) (hp ▸ rfl)
      | placed orderId updateTime =>
        simp only [hr, Edit.find, if_true, Option.some.injEq] at hp
        exact .placed hplaced (hp ▸ rfl) (hp ▸ rfl)

end Lookups

namespace Venue

/-- Every pending order is on record, the gateway asks for no less than the
record and has counted no more. -/
structure Recorded (v : Venue) : Prop where
  live : v.gateway.live = true
  modifiable : AllModifiable v.gateway
  entries : ∀ o p, v.gateway.pendingOrders.find o = some p → ∃ r, v.orders.find o = some r ∧
    r.quantity ≤ p.originalQuantity.raw ∧ p.filledQuantity.raw ≤ r.filled

variable (v : Venue)

theorem traded_find (orders : Table ℕ Placed) (owner j : ℕ) (quantity : Decimal) :
    (traded orders owner quantity).find j = if owner = j then
      (orders.find owner).map (fun r => { r with filled := r.filled+quantity.raw })
    else orders.find j := by
  unfold traded
  cases hfind : orders.find owner with
  | none =>
    split_ifs with hj
    · rw [← hj, hfind]
      rfl
    · rfl
  | some r => rw [Table.find_assign]; rfl

theorem step_orders_other (order : OrderRequest) (io : Surroundings) (j : ℕ) (hj : order.orderId ≠ j) :
    (v.step (.process order io)).orders.find j = v.orders.find j := by
  simp only [step]
  split_ifs
  · rw [Table.find_assign, if_neg hj]
  · rfl

theorem recorded_process (order : OrderRequest) (io : Surroundings) (h : Recorded v)
    (hm : v.Matched (.process order io)) (o : ℕ) (p : PendingOrder)
    (hp : (v.step (.process order io)).gateway.pendingOrders.find o = some p) :
    ∃ r, (v.step (.process order io)).orders.find o = some r ∧
      r.quantity ≤ p.originalQuantity.raw ∧ p.filledQuantity.raw ≤ r.filled := by
  have hfind : (v.gateway.processOrder order io).pendingOrders.find o = some p := hp
  by_cases ho : order.orderId = o
  · subst ho
    cases v.gateway.own_entry order io h.live h.modifiable p hfind with
    | placed hplaced hquantity hfilled =>
      simp only [step, hplaced, if_true, Table.find_assign]
      rw [hquantity, hfilled]
      exact ⟨_,rfl,le_refl _,le_refl _⟩
    | kept hplaced hentry =>
      simp only [step, hplaced]
      exact h.entries order.orderId p hentry
    | modified q hplaced hx hq hentry hquantity hfilled =>
      obtain ⟨r,hr,_,hcounted⟩ := h.entries _ q hentry
      have hpending : v.gateway.Pending order.orderId := (v.gateway.pending_iff _).mpr ⟨q,hentry⟩
      simp only [step, hplaced]
      rw [hquantity, hfilled]
      exact ⟨r,hr,(hm hx hpending).2 hq r hr,hcounted⟩
  · rw [v.gateway.process_other order io h.live o ho] at hfind
    rw [step_orders_other v order io o ho]
    exact h.entries o p hfind

theorem recorded_fill (f : Fill Decimal) (nowUs owner : ℕ) (h : Recorded v)
    (hm : v.Matched (.fill f nowUs owner)) (hf : 0 < f.fillQuantity) (o : ℕ) (p : PendingOrder)
    (hp : (v.step (.fill f nowUs owner)).gateway.pendingOrders.find o = some p) :
    ∃ r, (v.step (.fill f nowUs owner)).orders.find o = some r ∧
      r.quantity ≤ p.originalQuantity.raw ∧ p.filledQuantity.raw ≤ r.filled := by
  have hpositive : 0 < f.fillQuantity.raw := hf
  have hrecord : (v.step (.fill f nowUs owner)).orders = traded v.orders owner f.fillQuantity := rfl
  -- what was on record stays so, and the filled quantity grows for the owner
  have hkept : ∀ q, v.gateway.pendingOrders.find o = some q →
      ∃ r, (v.step (.fill f nowUs owner)).orders.find o = some r ∧
        r.quantity ≤ q.originalQuantity.raw ∧ q.filledQuantity.raw ≤ r.filled ∧
        (owner = o → q.filledQuantity.raw+f.fillQuantity.raw ≤ r.filled) := by
    intro q hq
    obtain ⟨r,hr,hquantity,hfilled⟩ := h.entries o q hq
    rw [hrecord, traded_find]
    split_ifs with howner
    · rw [howner, hr]
      exact ⟨_,rfl,hquantity,by dsimp only; omega,fun _ => by dsimp only; omega⟩
    · exact ⟨r,hr,hquantity,hfilled,fun hown => absurd hown howner⟩
  have hfind : (v.gateway.fillEdit f nowUs).find v.gateway.pendingOrders o = some p :=
    (v.gateway.injectFill_find f nowUs o).symm.trans hp
  have hplain : v.gateway.pendingOrders.find o = some p →
      ∃ r, (v.step (.fill f nowUs owner)).orders.find o = some r ∧
        r.quantity ≤ p.originalQuantity.raw ∧ p.filledQuantity.raw ≤ r.filled := by
    intro hq
    obtain ⟨r,hr,hquantity,hfilled,_⟩ := hkept p hq
    exact ⟨r,hr,hquantity,hfilled⟩
  cases hedit : v.gateway.fillEdit f nowUs with
  | keep =>
    rw [hedit] at hfind
    exact hplain hfind
  | erase id =>
    rw [hedit, Edit.find] at hfind
    split_ifs at hfind
    exact hplain hfind
  | assign id q =>
    rw [hedit, Edit.find] at hfind
    split_ifs at hfind with hid
    · subst hid
      obtain rfl := Option.some.inj hfind
      cases v.gateway.edit_assigned (.fill f nowUs) id q hedit with
      | partlyFilled _ _ _ q hfound hleft =>
        obtain ⟨hq,hleads⟩ := v.gateway.found_leads _ _ _ hfound
        obtain ⟨r,hr,hquantity,_,hfilled⟩ := hkept q hq
        have howner := hm id ((v.gateway.pending_iff id).mpr ⟨q,hq⟩) hleads
        exact ⟨r,hr,hquantity,le_trans (add_raw_le _ _ hf) (hfilled howner.symm)⟩
    · exact hplain hfind

theorem recorded_step (e : Event) (h : Recorded v) (hm : v.Matched e) (hf : PositiveFill e) :
    Recorded (v.step e) := by
  constructor
  case live =>
    change (v.gateway.step e.action).live = true
    rw [OrderGateway.step_setup]
    exact h.live
  case modifiable => exact v.gateway.modifiable_step e.action h.modifiable
  case entries =>
    cases e with
    | process order io => exact recorded_process v order io h hm
    | ack a =>
      intro o p hp
      obtain ⟨q,hq,hquantity,hfilled⟩ := v.gateway.ack_entry a o p hp
      rw [hquantity, hfilled]
      exact h.entries o q hq
    | fill f nowUs owner => exact recorded_fill v f nowUs owner h hm hf
    | reject r owner =>
      intro o p hp
      exact h.entries o p (v.gateway.reject_entry r o p hp)

/-- What leaves in a matched step was closed. -/
theorem keepsLive_step (e : Event) (h : Recorded v) (hm : v.Matched e) (hf : PositiveFill e) :
    v.KeepsLive e := by
  intro o hp hout
  have hedit := (v.gateway.leaves_iff e.action o hp).mp hout
  cases e with
  | process order io =>
    obtain ⟨hx,hq,rfl,_⟩ := (v.gateway.process_erases order io o h.live).mp hedit
    exact ⟨rfl,hx,hq,(hm hx hp).1 hq⟩
  | ack a =>
    exfalso
    simp only [Event.action, edit, ackEdit] at hedit
    split at hedit <;> cases hedit
  | fill f nowUs owner =>
    have hfill : v.gateway.fillEdit f nowUs = .erase o := hedit
    unfold fillEdit at hfill
    cases hfound : v.gateway.findForFill f.orderId with
    | none =>
      rw [hfound] at hfill
      cases hfill
    | some x =>
      obtain ⟨id,p⟩ := x
      rw [hfound] at hfill
      simp only at hfill
      split_ifs at hfill with hfull
      obtain rfl := Edit.erase.inj hfill
      obtain ⟨hentry,hleads⟩ := v.gateway.found_leads _ _ _ hfound
      obtain ⟨r,hr,hquantity,hfilled⟩ := h.entries id p hentry
      have hsum := add_raw_le p.filledQuantity f.fillQuantity hf
      have hraw : p.originalQuantity.raw ≤ (p.filledQuantity+f.fillQuantity).raw := hfull
      exact ⟨(hm id hp hleads).symm,r,hr,by omega⟩
  | reject r owner =>
    have hid := v.gateway.eraseEdit_eq r.orderId o hedit
    exact (hm (hid ▸ hp)).symm.trans hid

theorem open_order_kept (events : List Event) (o : ℕ) (hp : v.gateway.Pending o)
    (hkeep : Schedule.Allowed step KeepsLive events v)
    (hopen : Schedule.Allowed step (fun v e => ¬v.Closes e o) events v) :
    (Schedule.run step events v).gateway.Pending o := by
  induction events generalizing v with
  | nil => exact hp
  | cons e events ih =>
    refine ih (v.step e) ?_ hkeep.2 hopen.2
    by_contra hout
    exact hopen.1 (hkeep.1 o hp hout)

/-- A fill whose number leads to a pending order is credited to it. -/
theorem fill_attributed (g : OrderGateway) (f : Fill Decimal) (nowUs o : ℕ) (p : PendingOrder)
    (hp : g.pendingOrders.find o = some p) (hleads : LeadsTo g f.orderId o) :
    Credited g f nowUs o p ∧
      (g.injectFill f nowUs).stats.fillErrors = g.stats.fillErrors ∧
      (g.injectFill f nowUs).stats.fillsReceived = g.stats.fillsReceived+1 := by
  have hfound := g.leads_found f.orderId o p hp hleads
  refine ⟨g.credited_of_found f nowUs o p hfound,?_⟩
  unfold injectFill
  rw [hfound]
  exact ⟨rfl,rfl⟩

def opened (setup : GatewaySetup) : Venue := { gateway := { toGatewaySetup := setup } }

theorem opened_recorded (setup : GatewaySetup) (hl : setup.live = true) : Recorded (opened setup) where
  live := hl
  modifiable o p hp := by cases hp
  entries o p hp := by cases hp

/-- Every matched run of a live gateway: its orders leave only when the record
of the exchange closes them; and an order that nothing closed since it was
tracked is pending, and the fills whose number leads to it are credited to it. -/
theorem live_orders_kept (setup : GatewaySetup) (hl : setup.live = true) (events : List Event)
    (hpos : ∀ e ∈ events, PositiveFill e) (hm : Schedule.Allowed step Matched events (opened setup)) :
    Schedule.Allowed step KeepsLive events (opened setup) ∧
    ∀ (before after : List Event) (o : ℕ), events = before++after →
      (Schedule.run step before (opened setup)).gateway.Pending o →
      Schedule.Allowed step (fun v e => ¬v.Closes e o) after (Schedule.run step before (opened setup)) →
      ∃ p, (Schedule.run step events (opened setup)).gateway.pendingOrders.find o = some p ∧
        ∀ (f : Fill Decimal) (nowUs : ℕ),
          LeadsTo (Schedule.run step events (opened setup)).gateway f.orderId o →
          Credited (Schedule.run step events (opened setup)).gateway f nowUs o p ∧
            ((Schedule.run step events (opened setup)).gateway.injectFill f nowUs).stats.fillErrors =
              (Schedule.run step events (opened setup)).gateway.stats.fillErrors ∧
            ((Schedule.run step events (opened setup)).gateway.injectFill f nowUs).stats.fillsReceived =
              (Schedule.run step events (opened setup)).gateway.stats.fillsReceived+1 := by
  have hpositive := (Schedule.allowed_actions step PositiveFill events (opened setup)).mpr hpos
  have hboth := (Schedule.allowed_and step Matched (fun _ e => PositiveFill e) events
    (opened setup)).mpr ⟨hm,hpositive⟩
  have hkeep : Schedule.Allowed step KeepsLive events (opened setup) :=
    Schedule.allowed_of_invariant step _ KeepsLive Recorded
      (fun v e he h => recorded_step v e h he.1 he.2)
      (fun v e he h => keepsLive_step v e h he.1 he.2) events _ hboth (opened_recorded setup hl)
  refine ⟨hkeep,?_⟩
  rintro before after o rfl hp hopen
  have hrest := ((Schedule.allowed_append step KeepsLive before after _).mp hkeep).2
  have hpending := open_order_kept _ after o hp hrest hopen
  rw [← Schedule.run_append] at hpending
  obtain ⟨p,hentry⟩ := (pending_iff _ o).mp hpending
  exact ⟨p,hentry,fun f nowUs hleads => fill_attributed _ f nowUs o p hentry hleads⟩

def placement : Event := .process buyRequest { placeResponse := .placed (some 900) none }

def refusedCancel : Event := .process cancelRequest { cancelOk := false }

/-- The order is placed, its cancel request fails, and the fill that the
exchange then reports is an error. -/
theorem failedCancel_forgets_order :
    (Schedule.run step [placement] (opened binanceSetup)).gateway.Pending 7 ∧
    ¬Closes (Schedule.run step [placement] (opened binanceSetup)) refusedCancel 7 ∧
    ¬(Schedule.run step [placement,refusedCancel] (opened binanceSetup)).gateway.Pending 7 ∧
    (Schedule.run step [placement,refusedCancel,
      .fill { orderId := 7, fillQuantity := Decimal.ofInt 1 } 0 7]
        (opened binanceSetup)).gateway.stats.fillErrors = 1 :=
  ⟨by decide +kernel,fun h => Bool.false_ne_true h.2.2.2.2,by decide +kernel,by decide +kernel⟩

def partlyTraded : List Event := [.fill halfFill 0 7,
  .process { buyRequest with quantity := Decimal.ofInt 3 } {}]

theorem partlyTraded_kept :
    ∃ p, (Schedule.run step (placement::partlyTraded)
        (opened binanceSetup)).gateway.pendingOrders.find 7 = some p ∧
      Credited (Schedule.run step (placement::partlyTraded) (opened binanceSetup)).gateway
        halfFill 0 7 p := by
  have hplaced : ((Schedule.run step [placement] (opened binanceSetup)).orders.find 7).all
      (fun r => r.filled+halfFill.fillQuantity.raw < r.quantity) = true := by decide +kernel
  have htraded : ((Schedule.run step [placement,.fill halfFill 0 7] (opened binanceSetup)).orders.find
      7).all (fun r => r.quantity ≤ (Decimal.ofInt 3).raw) = true := by decide +kernel
  have hmapped : (Schedule.run step [placement]
      (opened binanceSetup)).gateway.exchangeToLocal.find 900 = some 7 := by decide +kernel
  have hm : Schedule.Allowed step Matched (placement::partlyTraded) (opened binanceSetup) := by
    refine ⟨fun _ hp => absurd hp (by decide +kernel),?_,fun _ _ => ⟨fun hq => ?_,fun _ r hr => ?_⟩,trivial⟩
    · rintro o hp (rfl | ⟨_,hex⟩)
      · exact absurd hp (by decide +kernel)
      · exact (Option.some.inj (hmapped.symm.trans hex)).symm
    · exact absurd hq (by decide +kernel)
    · rw [show (Schedule.run step [placement,.fill halfFill 0 7] (opened binanceSetup)).orders.find 7 =
        some r from hr] at htraded
      exact of_decide_eq_true htraded
  have hpos : ∀ e ∈ placement::partlyTraded, PositiveFill e := by
    intro e he
    simp only [partlyTraded, List.mem_cons, List.not_mem_nil, or_false] at he
    rcases he with rfl | rfl | rfl
    · trivial
    · exact (by decide +kernel : 0 < Decimal.ofInt 1)
    · trivial
  have hopen : Schedule.Allowed step (fun v e => ¬v.Closes e 7) partlyTraded
      (Schedule.run step [placement] (opened binanceSetup)) := by
    refine ⟨?_,fun h => absurd h.2.2.1 (by decide +kernel),trivial⟩
    rintro ⟨_,r,hr,hfull⟩
    rw [hr] at hplaced
    exact absurd hfull (not_le.mpr (of_decide_eq_true hplaced))
  obtain ⟨p,hp,hfills⟩ := (live_orders_kept binanceSetup rfl (placement::partlyTraded) hpos hm).2
    [placement] partlyTraded 7 rfl (by decide +kernel) hopen
  refine ⟨p,hp,(hfills halfFill 0 (Or.inr ⟨?_,?_⟩)).1⟩
  · decide +kernel
  · decide +kernel

end Venue
end Chronos.OrderGateway
