import Chronos.OrderSends
import Chronos.PendingEntries

/-!
# What the exchange was told

A second table is kept beside the gateway: under each order id the last
request that went through the HTTP client and got a response. A modification
goes through the simulated send in every mode, and a new order is tracked
before its REST call, so these two decide whether the pending orders are
those the exchange was told of.
-/

set_option autoImplicit false

namespace Chronos.OrderGateway
open KeyedTable OrderEncoding

def answered (io : Surroundings) : Sent → Bool
  | .wire _ => false
  | .place _ =>
    match io.placeResponse with
    | .failed => false
    | _ => true
  | .cancel _ _ => io.cancelOk

def transmits (g : OrderGateway) (order : OrderRequest) (io : Surroundings) : Bool :=
  ((g.processOrder order io).sends.drop g.sends.length).any (answered io)

structure Exchange where
  gateway : OrderGateway
  told : Table ℕ OrderRequest := .empty

namespace Exchange

def step (s : Exchange) (a : Action) : Exchange where
  gateway := s.gateway.step a
  told := match a with
    | .process order io =>
      if transmits s.gateway order io then s.told.assign order.orderId order else s.told
    | _ => s.told

/-- The last transmitted request for an order asked for this. -/
def Told (s : Exchange) (o : ℕ) (price quantity : Decimal) : Prop :=
  ∃ r, s.told.find o = some r ∧ r.price = price ∧ r.quantity = quantity

def Agrees (s : Exchange) : Prop :=
  ∀ o p, s.gateway.pendingOrders.find o = some p → s.Told o p.originalPrice p.originalQuantity

/-- A modification asks for what is recorded, and a new order whose REST call
fails for what was transmitted under its id before. -/
def Announced (s : Exchange) : Action → Prop
  | .process order io => order.exchangeId = s.gateway.exchangeId → order.quantity ≠ 0 →
      match s.gateway.pendingOrders.find order.orderId with
      | some p => order.price = p.originalPrice ∧ order.quantity = p.originalQuantity
      | none => s.gateway.symbolIdToName order.symbolId ≠ "" → io.placeResponse = .failed →
          s.Told order.orderId order.price order.quantity
  | _ => True

end Exchange

section Transmission
variable (g : OrderGateway) (order : OrderRequest) (io : Surroundings)

theorem transmits_of_sends (ms : List Sent) (h : (g.processOrder order io).sends = g.sends++ms) :
    transmits g order io = ms.any (answered io) := by
  rw [transmits, h, List.drop_left]

theorem transmits_elsewhere (hx : order.exchangeId ≠ g.exchangeId) : transmits g order io = false :=
  transmits_of_sends g order io [] (sends_elsewhere g order io hx)

theorem transmits_modify (hx : order.exchangeId = g.exchangeId) (hq : order.quantity ≠ 0)
    (p : PendingOrder) (hp : g.pendingOrders.find order.orderId = some p)
    (hm : modifiable p.status = true) : transmits g order io = false :=
  transmits_of_sends g order io _ (sends_modify g order io hx hq p hp hm)

/-- A new order of a live gateway under a symbol without a name. -/
theorem transmits_unnamed (hl : g.live = true) (hn : NewOrder g order)
    (hs : g.symbolIdToName order.symbolId = "") : transmits g order io = false :=
  transmits_of_sends g order io [] (sends_unnamed g order io hl hn hs)

theorem transmits_new (hl : g.live = true) (hn : NewOrder g order)
    (hs : g.symbolIdToName order.symbolId ≠ "") :
    transmits g order io = true ↔ io.placeResponse ≠ .failed := by
  rw [transmits_of_sends g order io _ (sends_new g order io hl hn hs)]
  cases hr : io.placeResponse <;> simp [answered, hr]

end Transmission

namespace Exchange

theorem agrees_edit (s s' : Exchange) (id : ℕ) (entry : Option PendingOrder) (h : Agrees s)
    (hfind : ∀ j, s'.gateway.pendingOrders.find j =
      if id = j then entry else s.gateway.pendingOrders.find j)
    (htold : ∀ j, id ≠ j → s'.told.find j = s.told.find j) :
    Agrees s' ↔ ∀ p, entry = some p → s'.Told id p.originalPrice p.originalQuantity := by
  constructor
  · intro ha p hp
    apply ha id p
    rw [hfind, if_pos rfl]
    exact hp
  · intro hentry o p hp
    rw [hfind] at hp
    split_ifs at hp with ho
    · exact ho ▸ hentry p hp
    · obtain ⟨r,hr,hprice,hquantity⟩ := h o p hp
      exact ⟨r,(htold o ho).trans hr,hprice,hquantity⟩

/-- An entry that was edited without a word to the exchange. -/
theorem agrees_silent (s s' : Exchange) (id : ℕ) (entry : Option PendingOrder) (h : Agrees s)
    (hfind : ∀ j, s'.gateway.pendingOrders.find j =
      if id = j then entry else s.gateway.pendingOrders.find j) (htold : s'.told = s.told) :
    Agrees s' ↔ ∀ p, entry = some p → s.Told id p.originalPrice p.originalQuantity := by
  rw [agrees_edit s s' id entry h hfind (fun j _ => by rw [htold])]
  simp only [Told, htold]

theorem agrees_message (s : Exchange) (a : Action) (ha : ∀ order io, a ≠ .process order io)
    (h : Agrees s) : Agrees (s.step a) := by
  have htold : (s.step a).told = s.told := by
    cases a with
    | process order io => exact absurd rfl (ha order io)
    | _ => rfl
  have hkept : ∀ o p, s.gateway.edit a = .assign o p → s.Told o p.originalPrice p.originalQuantity := by
    intro o p he
    cases s.gateway.edit_assigned a o p he with
    | tracked order io hx hq => exact absurd rfl (ha order io)
    | placed order io t hx hq => exact absurd rfl (ha order io)
    | modified order io q hx hq hp => exact absurd rfl (ha order io)
    | acknowledged a q hp => exact h _ q hp
    | partlyFilled f nowUs id q hp hleft => exact h _ q (s.gateway.findForFill_entry _ _ _ hp)
  intro o p hp
  simp only [Told, htold]
  rw [show (s.step a).gateway = s.gateway.step a from rfl, step_find] at hp
  cases he : s.gateway.edit a with
  | keep =>
    rw [he] at hp
    exact h o p hp
  | erase id =>
    rw [he, Edit.find] at hp
    split_ifs at hp
    exact h o p hp
  | assign id q =>
    rw [he, Edit.find] at hp
    split_ifs at hp with ho
    · obtain rfl := Option.some.inj hp
      exact ho ▸ hkept id q he
    · exact h o p hp

section Process
variable (s : Exchange) (order : OrderRequest) (io : Surroundings)

theorem told_silent (ht : transmits s.gateway order io = false) :
    (s.step (.process order io)).told = s.told := by
  simp [step, ht]

theorem told_other (j : ℕ) (hj : order.orderId ≠ j) :
    (s.step (.process order io)).told.find j = s.told.find j := by
  simp only [step]
  split_ifs
  · rw [Table.find_assign, if_neg hj]
  · rfl

theorem process_find (j : ℕ) : (s.step (.process order io)).gateway.pendingOrders.find j =
    (s.gateway.processEdit order io).find s.gateway.pendingOrders j :=
  s.gateway.step_find (.process order io) j

/-- A step changes the entry of the request's own id only. -/
theorem process_kept (hkeep : s.gateway.processEdit order io = .keep) (j : ℕ) :
    (s.step (.process order io)).gateway.pendingOrders.find j = if order.orderId = j then
      s.gateway.pendingOrders.find order.orderId else s.gateway.pendingOrders.find j := by
  rw [process_find, hkeep, Edit.find]
  split_ifs with hj
  · rw [hj]
  · rfl

theorem agrees_elsewhere (hx : order.exchangeId ≠ s.gateway.exchangeId) (h : Agrees s) :
    Agrees (s.step (.process order io)) := by
  have hkeep : s.gateway.processEdit order io = .keep := by simp [processEdit, hx]
  rw [agrees_silent s _ _ _ h (process_kept s order io hkeep)
    (told_silent s order io (transmits_elsewhere s.gateway order io hx))]
  exact fun p hp => h _ p hp

theorem agrees_cancel (hx : order.exchangeId = s.gateway.exchangeId) (hq : order.quantity = 0)
    (h : Agrees s) : Agrees (s.step (.process order io)) := by
  rw [agrees_edit s _ order.orderId none h ?_ (told_other s order io)]
  · exact fun p hp => by cases hp
  · intro j
    rw [process_find, show s.gateway.processEdit order io = s.gateway.eraseEdit order.orderId by
      simp [processEdit, hx, hq], eraseEdit_find]

theorem agrees_modify (hx : order.exchangeId = s.gateway.exchangeId) (hq : order.quantity ≠ 0)
    (p : PendingOrder) (hp : s.gateway.pendingOrders.find order.orderId = some p)
    (hm : modifiable p.status = true) (h : Agrees s) :
    Agrees (s.step (.process order io)) ↔
      order.price = p.originalPrice ∧ order.quantity = p.originalQuantity := by
  have hedit : s.gateway.processEdit order io = .assign order.orderId (modified p order io.sendTimeUs) := by
    simp [processEdit, hx, hq, hp, hm]
  rw [agrees_silent s _ order.orderId (some (modified p order io.sendTimeUs)) h
    (fun j => by rw [process_find, hedit]; rfl)
    (told_silent s order io (transmits_modify s.gateway order io hx hq p hp hm))]
  obtain ⟨r,hr,hprice,hquantity⟩ := h _ p hp
  constructor
  · intro ha
    obtain ⟨r',hr',hprice',hquantity'⟩ := ha _ rfl
    obtain rfl := Option.some.inj (hr.symm.trans hr')
    exact ⟨hprice'.symm.trans hprice,hquantity'.symm.trans hquantity⟩
  · rintro ⟨hpr,hqu⟩ q hq'
    obtain rfl := Option.some.inj hq'
    exact ⟨r,hr,hprice.trans hpr.symm,hquantity.trans hqu.symm⟩

theorem agrees_new (hl : s.gateway.live = true) (hx : order.exchangeId = s.gateway.exchangeId)
    (hq : order.quantity ≠ 0) (hp : s.gateway.pendingOrders.find order.orderId = none)
    (h : Agrees s) :
    Agrees (s.step (.process order io)) ↔
      (s.gateway.symbolIdToName order.symbolId ≠ "" → io.placeResponse = .failed →
        s.Told order.orderId order.price order.quantity) := by
  have hnew : s.gateway.processEdit order io = s.gateway.newEdit order io := by
    simp [processEdit, hx, hq, hp]
  have hn : NewOrder s.gateway order := by
    refine ⟨hx,hq,fun p hp' => ?_⟩
    rw [hp] at hp'
    cases hp'
  by_cases hs : s.gateway.symbolIdToName order.symbolId = ""
  · have hkeep : s.gateway.processEdit order io = .keep := by simp [hnew, newEdit, hl, hs]
    rw [agrees_silent s _ _ _ h (process_kept s order io hkeep)
      (told_silent s order io (transmits_unnamed s.gateway order io hl hn hs))]
    exact ⟨fun _ hn => absurd hs hn,fun _ p hp => h _ p hp⟩
  obtain ⟨p,hedit,hprice,hquantity⟩ : ∃ p, s.gateway.processEdit order io = .assign order.orderId p ∧
      p.originalPrice = order.price ∧ p.originalQuantity = order.quantity := by
    rw [hnew, newEdit, if_pos hl, if_neg hs]
    cases io.placeResponse <;> exact ⟨_,rfl,rfl,rfl⟩
  have hfind : ∀ j, (s.step (.process order io)).gateway.pendingOrders.find j =
      if order.orderId = j then some p else s.gateway.pendingOrders.find j :=
    fun j => by rw [process_find, hedit]; rfl
  have ht := transmits_new s.gateway order io hl hn hs
  by_cases hr : io.placeResponse = .failed
  · have hsilent : transmits s.gateway order io = false := by
      by_contra hc
      exact ht.mp (by simpa using hc) hr
    rw [agrees_silent s _ _ _ h hfind (told_silent s order io hsilent)]
    constructor
    · intro ha _ _
      have htold := ha p rfl
      rwa [hprice, hquantity] at htold
    · intro ha q hq'
      obtain rfl := Option.some.inj hq'
      rw [hprice, hquantity]
      exact ha hs hr
  · rw [agrees_edit s _ _ _ h hfind (told_other s order io)]
    refine ⟨fun _ _ hf => absurd hf hr,fun _ q hq' => ?_⟩
    obtain rfl := Option.some.inj hq'
    refine ⟨order,?_,hprice.symm,hquantity.symm⟩
    simp [step, ht.mpr hr]

end Process

structure Settled (s : Exchange) : Prop where
  live : s.gateway.live = true
  modifiable : AllModifiable s.gateway

/-- A step keeps the agreement exactly when it was announced. -/
theorem agrees_step (s : Exchange) (a : Action) (hs : Settled s) (h : Agrees s) :
    Agrees (s.step a) ↔ Announced s a := by
  cases a with
  | process order io =>
    simp only [Announced]
    by_cases hx : order.exchangeId = s.gateway.exchangeId
    case neg => exact ⟨fun _ hx' => absurd hx' hx,fun _ => agrees_elsewhere s order io hx h⟩
    by_cases hq : order.quantity = 0
    case pos => exact ⟨fun _ _ hq' => absurd hq hq',fun _ => agrees_cancel s order io hx hq h⟩
    simp only [hx, ne_eq, hq, not_false_eq_true, forall_true_left]
    cases hp : s.gateway.pendingOrders.find order.orderId with
    | some p => exact agrees_modify s order io hx hq p hp (hs.modifiable _ p hp) h
    | none => exact agrees_new s order io hs.live hx hq hp h
  | ack a => exact ⟨fun _ => trivial,fun _ => agrees_message s _ (by simp) h⟩
  | fill f nowUs => exact ⟨fun _ => trivial,fun _ => agrees_message s _ (by simp) h⟩
  | reject r => exact ⟨fun _ => trivial,fun _ => agrees_message s _ (by simp) h⟩

theorem settled_step (s : Exchange) (a : Action) (hs : Settled s) : Settled (s.step a) where
  live := by
    rw [show (s.step a).gateway = s.gateway.step a from rfl, OrderGateway.step_setup]
    exact hs.live
  modifiable := s.gateway.modifiable_step a hs.modifiable

/-- The runs of a fresh live gateway in which the pending orders are, in every
state, what the exchange was told: those in which every step was announced. -/
theorem told_iff_announced (setup : GatewaySetup) (hl : setup.live = true) (actions : List Action) :
    (∀ n, Agrees (Schedule.run step (actions.take n) { gateway := { toGatewaySetup := setup } })) ↔
      Schedule.Allowed step Announced actions { gateway := { toGatewaySetup := setup } } := by
  refine Schedule.invariant_iff step (fun _ _ => True) Announced Settled Agrees settled_step
    (fun s a _ hs h => agrees_step s a hs h) actions _ ?_ ?_ ?_
  · exact Schedule.allowed_of_forall step _ (fun _ _ => trivial) actions _
  · exact ⟨hl,fun o p hp => by cases hp⟩
  · exact fun o p hp => by cases hp

def modifyPlaced : List Action := [placeOrder,.process { buyRequest with quantity := Decimal.ofInt 1 } {}]

/-- The gateway records the new quantity. The exchange was told the old one. -/
theorem modifyPlaced_disagrees :
    ¬Agrees (Schedule.run step modifyPlaced { gateway := binanceGateway }) := by
  have hentry : ((Schedule.run step modifyPlaced
      { gateway := binanceGateway }).gateway.pendingOrders.find 7).any
        (fun p => p.originalQuantity = Decimal.ofInt 1) = true := by decide +kernel
  have htold : ((Schedule.run step modifyPlaced { gateway := binanceGateway }).told.find 7).all
      (fun r => r.quantity = Decimal.ofInt 2) = true := by decide +kernel
  intro h
  cases hfind : (Schedule.run step modifyPlaced
      { gateway := binanceGateway }).gateway.pendingOrders.find 7 with
  | none =>
    rw [hfind] at hentry
    cases hentry
  | some p =>
    obtain ⟨r,hr,-,hquantity⟩ := h 7 p hfind
    rw [hfind] at hentry
    rw [hr] at htold
    rw [of_decide_eq_true htold, of_decide_eq_true hentry] at hquantity
    exact absurd hquantity (by decide +kernel)

theorem announced_answered (s : Exchange) (order : OrderRequest) (io : Surroundings)
    (hp : s.gateway.pendingOrders.find order.orderId = none) (hr : io.placeResponse ≠ .failed) :
    Announced s (.process order io) := by
  intro _ _
  rw [hp]
  exact fun _ hf => absurd hf hr

def placeAndCancel : List Action := [placeOrder,.process cancelRequest { cancelOk := true },placeOrder]

theorem placeAndCancel_agrees :
    (Schedule.run step placeAndCancel { gateway := binanceGateway }).gateway.Pending 7 ∧
    Agrees (Schedule.run step placeAndCancel { gateway := binanceGateway }) := by
  refine ⟨by decide +kernel,(told_iff_announced binanceSetup rfl placeAndCancel).mpr ?_ 3⟩
  refine ⟨announced_answered _ _ _ rfl (by simp),fun _ hq => absurd rfl hq,?_,trivial⟩
  exact announced_answered _ _ _ (by decide +kernel) (by simp)

end Exchange
end Chronos.OrderGateway
