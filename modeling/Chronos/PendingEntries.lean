import Chronos.LiveOrders

/-!
# The entries of the pending orders

An entry should be filled below its quantity and say `PARTIALLY_FILLED`
exactly when something was filled. Tracking, fills and rejects see to that.
An acknowledgement sets the status without looking at the filled quantity,
and a modification sets the quantity without looking at it, so the two decide
whether a run keeps its entries sound.
-/

set_option autoImplicit false

namespace Chronos.OrderGateway
open KeyedTable

structure EntrySound (p : PendingOrder) : Prop where
  nonnegative : 0 ≤ p.filledQuantity
  below : p.filledQuantity < p.originalQuantity
  status : p.status = .partiallyFilled ↔ 0 < p.filledQuantity

def EntriesSound (g : OrderGateway) : Prop :=
  ∀ o p, g.pendingOrders.find o = some p → EntrySound p

/-- Quantities of orders are not negative, zero being a cancel, those of fills
are positive, and the running sum does not overflow. -/
def Admissible (g : OrderGateway) : Action → Prop
  | .process order _ => 0 ≤ order.quantity
  | .fill f _ => 0 < f.fillQuantity ∧ ∀ o p, g.findForFill f.orderId = some (o,p) →
      Fits (p.filledQuantity.raw+f.fillQuantity.raw)
  | _ => True

/-- An acknowledgement comes before the first fill of its order, and a
modification asks for more than was filled. -/
def Orderly (g : OrderGateway) : Action → Prop
  | .ack a => ∀ p, g.pendingOrders.find a.orderId = some p → p.filledQuantity = 0
  | .process order _ => order.exchangeId = g.exchangeId → order.quantity ≠ 0 →
      ∀ p, g.pendingOrders.find order.orderId = some p → p.filledQuantity < order.quantity
  | _ => True

variable (g : OrderGateway)

def AllModifiable (g : OrderGateway) : Prop :=
  ∀ o p, g.pendingOrders.find o = some p → modifiable p.status = true

theorem step_entries (P : PendingOrder → Prop) (a : Action)
    (h : ∀ o p, g.pendingOrders.find o = some p → P p) :
    (∀ o p, (g.step a).pendingOrders.find o = some p → P p) ↔ ∀ o p, g.edit a = .assign o p → P p := by
  constructor
  · intro hall o p he
    apply hall o p
    rw [step_find, he]
    exact if_pos rfl
  · intro hassign o p hfind
    rw [step_find] at hfind
    cases he : g.edit a with
    | keep =>
      rw [he] at hfind
      exact h o p hfind
    | erase id =>
      rw [he, Edit.find] at hfind
      split_ifs at hfind
      exact h o p hfind
    | assign id q =>
      rw [he, Edit.find] at hfind
      split_ifs at hfind
      · obtain rfl := Option.some.inj hfind
        exact hassign id q he
      · exact h o p hfind

theorem modifiable_step (a : Action) (h : AllModifiable g) : AllModifiable (g.step a) := by
  apply (g.step_entries (fun p => modifiable p.status = true) a h).mpr
  intro o p he
  cases g.edit_assigned a o p he with
  | modified order io q hx hq hp => exact h _ q hp
  | _ => rfl

theorem tracked_sound (order : OrderRequest) (t : ℕ) (h : 0 ≤ order.quantity) (hq : order.quantity ≠ 0) :
    EntrySound (tracked order t) := by
  constructor
  case nonnegative => exact le_refl _
  case below => exact lt_of_le_of_ne h (Ne.symm hq)
  case status => simp [tracked]

theorem acknowledged_sound (p : PendingOrder) (t : ℕ) (h : EntrySound p) :
    EntrySound (acknowledged p t) ↔ p.filledQuantity = 0 := by
  constructor
  · intro ha
    have hn : ¬0 < p.filledQuantity := fun hpos => by cases ha.status.mpr hpos
    exact le_antisymm (not_lt.mp hn) h.nonnegative
  · intro hz
    exact ⟨h.nonnegative,h.below,by simp [acknowledged, hz]⟩

theorem modified_sound (p : PendingOrder) (order : OrderRequest) (t : ℕ) (h : EntrySound p) :
    EntrySound (modified p order t) ↔ p.filledQuantity < order.quantity :=
  ⟨fun hm => hm.below,fun hlt => ⟨h.nonnegative,hlt,h.status⟩⟩

theorem partlyFilled_sound (p : PendingOrder) (f : Fill Decimal) (t : ℕ) (h : EntrySound p)
    (hf : 0 < f.fillQuantity) (hfits : Fits (p.filledQuantity.raw+f.fillQuantity.raw))
    (hleft : p.filledQuantity+f.fillQuantity < p.originalQuantity) : EntrySound (partlyFilled p f t) := by
  have hpos : 0 < p.filledQuantity+f.fillQuantity := by
    have hn : 0 ≤ p.filledQuantity.raw := h.nonnegative
    have hq : 0 < f.fillQuantity.raw := hf
    rw [Decimal.lt_iff, Decimal.add_raw _ _ hfits, Decimal.zero_raw]
    omega
  exact ⟨hpos.le,hleft,by simp [partlyFilled, hpos]⟩

/-- A step keeps the entries sound exactly when it is orderly. -/
theorem entries_step (a : Action) (hd : Admissible g a) (hm : AllModifiable g) (hs : EntriesSound g) :
    EntriesSound (g.step a) ↔ Orderly g a := by
  rw [EntriesSound, g.step_entries EntrySound a hs]
  constructor
  · intro h
    cases a with
    | process order io =>
      intro hx hq p hp
      have he : g.edit (.process order io) = .assign order.orderId (modified p order io.sendTimeUs) := by
        simp [edit, processEdit, hx, hq, hp, hm _ p hp]
      exact (modified_sound p order _ (hs _ p hp)).mp (h _ _ he)
    | ack a =>
      intro p hp
      have he : g.edit (.ack a) = .assign a.orderId (acknowledged p a.timestampUs) := by
        simp [edit, ackEdit, hp]
      exact (acknowledged_sound p _ (hs _ p hp)).mp (h _ _ he)
    | fill f nowUs => trivial
    | reject r => trivial
  · intro h o p he
    cases g.edit_assigned a o p he with
    | tracked order io hx hq => exact tracked_sound order _ hd hq
    | placed order io t hx hq => exact (acknowledged_sound _ t (tracked_sound order _ hd hq)).mpr rfl
    | modified order io q hx hq hp => exact (modified_sound q order _ (hs _ q hp)).mpr (h hx hq q hp)
    | acknowledged a q hp => exact (acknowledged_sound q _ (hs _ q hp)).mpr (h q hp)
    | partlyFilled f nowUs id q hp hleft =>
      exact partlyFilled_sound q f nowUs (hs _ q (g.findForFill_entry _ _ _ hp)) hd.1 (hd.2 _ _ hp) hleft

/-- The runs of a fresh gateway whose entries are sound in every state are the
orderly ones. -/
theorem entries_sound_iff_orderly (setup : GatewaySetup) (actions : List Action)
    (hd : Schedule.Allowed step Admissible actions { toGatewaySetup := setup }) :
    (∀ n, EntriesSound (Schedule.run step (actions.take n) { toGatewaySetup := setup })) ↔
      Schedule.Allowed step Orderly actions { toGatewaySetup := setup } := by
  refine Schedule.invariant_iff step Admissible Orderly AllModifiable EntriesSound
    (fun g a h => g.modifiable_step a h) (fun g a hd hm hs => g.entries_step a hd hm hs) actions _ hd ?_ ?_
  · exact fun o p hp => by cases hp
  · exact fun o p hp => by cases hp

def acceptedAck : OrderAck := { orderId := 7, exchangeOrderId := 900, status := .accepted }

theorem placeOrder_admissible (g : OrderGateway) : Admissible g placeOrder :=
  (by decide +kernel : 0 ≤ buyRequest.quantity)

theorem halfFill_admissible (g : OrderGateway)
    (h : (g.findForFill halfFill.orderId).all
      (fun x => Fits (x.2.filledQuantity.raw+halfFill.fillQuantity.raw)) = true) :
    Admissible g (.fill halfFill 0) := by
  refine ⟨by decide +kernel,fun o p hp => ?_⟩
  rw [hp] at h
  exact of_decide_eq_true h

def ackAfterFill : List Action := [placeOrder,.fill halfFill 0,.ack acceptedAck]

/-- The entry is then accepted and partly filled at once. -/
theorem ackAfterFill_breaks_status : Schedule.Allowed step Admissible ackAfterFill binanceGateway ∧
    ¬EntriesSound (Schedule.run step ackAfterFill binanceGateway) := by
  have hentry : ((Schedule.run step ackAfterFill binanceGateway).pendingOrders.find 7).any
      (fun p => p.status ≠ .partiallyFilled && 0 < p.filledQuantity) = true := by decide +kernel
  refine ⟨⟨placeOrder_admissible _,halfFill_admissible _ (by decide +kernel),trivial,trivial⟩,fun hs => ?_⟩
  cases hfind : (Schedule.run step ackAfterFill binanceGateway).pendingOrders.find 7 with
  | none =>
    rw [hfind] at hentry
    cases hentry
  | some p =>
    rw [hfind] at hentry
    simp only [Option.any_some, Bool.and_eq_true, decide_eq_true_eq] at hentry
    exact hentry.1 ((hs 7 p hfind).status.mpr hentry.2)

def ackBeforeFill : List Action := [placeOrder,.ack acceptedAck,.fill halfFill 0]

theorem ackBeforeFill_sound :
    (Schedule.run step ackBeforeFill binanceGateway).stats.fillsReceived = 1 ∧
    EntriesSound (Schedule.run step ackBeforeFill binanceGateway) := by
  have horderly : Schedule.Allowed step Orderly ackBeforeFill binanceGateway := by
    have hzero : ((Schedule.run step [placeOrder] binanceGateway).pendingOrders.find 7).all
        (fun p => p.filledQuantity = 0) = true := by decide +kernel
    refine ⟨fun _ _ p hp => (by cases hp),fun p hp => ?_,trivial,trivial⟩
    rw [show (Schedule.run step [placeOrder] binanceGateway).pendingOrders.find 7 = some p from hp] at hzero
    exact of_decide_eq_true hzero
  refine ⟨by decide +kernel,(entries_sound_iff_orderly binanceSetup ackBeforeFill ?_).mpr horderly 3⟩
  exact ⟨placeOrder_admissible _,trivial,halfFill_admissible _ (by decide +kernel),trivial⟩

end Chronos.OrderGateway
