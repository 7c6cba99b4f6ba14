import Chronos.OrderGatewaySteps

/-!
# How an order leaves the gateway

Of the edits of the pending orders only one that erases takes an order out,
and in live mode a request erases one in the cancel branch only. A fill erases
an order when the sum of what was filled reaches the quantity tracked for it.
-/

set_option autoImplicit false

namespace Chronos.OrderGateway
open KeyedTable

/-- A wrapped sum is never above the exact one when the addend is positive. -/
theorem add_raw_le (a b : Decimal) (hb : 0 < b) : (a+b).raw ≤ a.raw+b.raw := by
  have ha := a.fits.1
  have hb0 : 0 < b.raw := hb
  have hu := b.fits.2
  have hua := a.fits.2
  by_cases hf : a.raw+b.raw < 2^63
  · exact (Decimal.add_raw a b ⟨by omega,hf⟩).le
  · exact ((a+b).fits.2.trans_le (not_lt.mp hf)).le

def Pending (g : OrderGateway) (o : ℕ) : Prop := (g.pendingOrders.find o).isSome = true

instance (g : OrderGateway) (o : ℕ) : Decidable (g.Pending o) := inferInstanceAs (Decidable (_ = _))

variable (g : OrderGateway)

theorem leaves_iff (a : Action) (o : ℕ) (h : g.Pending o) :
    ¬(g.step a).Pending o ↔ g.edit a = .erase o := by
  have hne : g.pendingOrders.find o ≠ none := by
    intro hn
    rw [Pending, hn] at h
    cases h
  rw [Pending, step_find]
  cases g.edit a with
  | keep => simp [Edit.find, hne]
  | erase id =>
    by_cases hid : id = o
    · simp [Edit.find, hid]
    · simp [Edit.find, hid, hne]
  | assign id p =>
    by_cases hid : id = o
    · simp [Edit.find, hid]
    · simp [Edit.find, hid, hne]

theorem eraseEdit_eq (id o : ℕ) (h : g.eraseEdit id = .erase o) : id = o := by
  unfold eraseEdit at h
  split_ifs at h
  exact Edit.erase.inj h

theorem newEdit_tracks (order : OrderRequest) (io : Surroundings) (o : ℕ) (hl : g.live = true) :
    g.newEdit order io ≠ .erase o := by
  unfold newEdit
  rw [if_pos hl]
  split_ifs
  · exact fun h => by cases h
  · cases io.placeResponse <;> exact fun h => by cases h

/-- In live mode a request erases an order in the cancel branch only. -/
theorem process_erases (order : OrderRequest) (io : Surroundings) (o : ℕ) (hl : g.live = true) :
    g.processEdit order io = .erase o ↔
      order.exchangeId = g.exchangeId ∧ order.quantity = 0 ∧ order.orderId = o ∧ g.Pending o := by
  unfold processEdit
  by_cases hx : order.exchangeId = g.exchangeId
  case neg => simp [hx]
  by_cases hq : order.quantity = 0
  · rw [if_neg (not_not.mpr hx), if_pos hq]
    constructor
    · intro h
      have hid := g.eraseEdit_eq _ _ h
      unfold eraseEdit at h
      split_ifs at h with hp
      exact ⟨hx,hq,hid,hid ▸ hp⟩
    · rintro ⟨-,-,rfl,hp⟩
      exact if_pos hp
  · rw [if_neg (not_not.mpr hx), if_neg hq]
    have hnew := g.newEdit_tracks order io o hl
    cases g.pendingOrders.find order.orderId with
    | none => simp [hnew, hq]
    | some p =>
      simp only [hq, false_and, and_false, iff_false]
      split_ifs
      · exact fun h => by cases h
      · exact hnew

def binanceSetup : GatewaySetup :=
  { symbols := ["BTCUSDT"], exchangeId := 1, simulateFills := false, httpClient := true }

def binanceGateway : OrderGateway := { toGatewaySetup := binanceSetup }

def buyRequest : OrderRequest :=
  { orderId := 7, symbolId := 1, exchangeId := 1, price := Decimal.ofInt 100, quantity := Decimal.ofInt 2 }

def cancelRequest : OrderRequest := { orderId := 7, symbolId := 1, exchangeId := 1 }

def placeOrder : Action := .process buyRequest { placeResponse := .placed (some 900) none }

def halfFill : Fill Decimal := { orderId := 900, fillQuantity := Decimal.ofInt 1 }

end Chronos.OrderGateway
