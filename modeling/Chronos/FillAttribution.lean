import Chronos.LiveOrders

/-!
# Which order a fill is credited to

`injectFill` receives one number and tries it first as a local id, then as
an exchange id. A fill under an acknowledged exchange id therefore reaches the
order it belongs to unless another pending order has that number for its
local id.
-/

set_option autoImplicit false

namespace Chronos.OrderGateway
open KeyedTable

def DistinctExchangeIds (g : OrderGateway) (a : Action) : Prop :=
  ∀ e o, g.acknowledgement a = some (e,o) → ∀ o', g.exchangeToLocal.find e = some o' → o' = o

/-- The filled quantity of one order grows by the fill, and the order leaves
when it is complete; the callback gets its strategy and symbol; every other
order stays as it was. -/
structure Credited (g : OrderGateway) (f : Fill Decimal) (nowUs o : ℕ) (p : PendingOrder) : Prop where
  filled : (g.injectFill f nowUs).pendingOrders.find o =
    if p.originalQuantity ≤ p.filledQuantity+f.fillQuantity then none
    else some (partlyFilled p f nowUs)
  callback : (g.injectFill f nowUs).callbacks =
    if g.fillCallback then
      g.callbacks++[{ f with strategyId := p.strategyId, symbolId := p.symbolId }]
    else g.callbacks
  others : ∀ j, j ≠ o → (g.injectFill f nowUs).pendingOrders.find j = g.pendingOrders.find j

variable (g : OrderGateway)

theorem credited_of_found (f : Fill Decimal) (nowUs o : ℕ) (p : PendingOrder)
    (h : g.findForFill f.orderId = some (o,p)) : Credited g f nowUs o p := by
  have hfind : ∀ j, (g.injectFill f nowUs).pendingOrders.find j =
      if o = j then (if p.originalQuantity ≤ p.filledQuantity+f.fillQuantity then none
        else some (partlyFilled p f nowUs)) else g.pendingOrders.find j := by
    intro j
    rw [injectFill_find, fillEdit, h]
    simp only
    split_ifs <;> simp_all [Edit.find]
  constructor
  case filled =>
    rw [hfind, if_pos rfl]
  case callback =>
    unfold injectFill
    rw [h]
  case others =>
    intro j hj
    rw [hfind, if_neg (Ne.symm hj)]

theorem found_by_exchangeId (e o : ℕ) (p : PendingOrder) (he : g.exchangeToLocal.find e = some o)
    (hp : g.pendingOrders.find o = some p) (hfree : e = o ∨ g.pendingOrders.find e = none) :
    g.findForFill e = some (o,p) := by
  unfold findForFill
  rcases hfree with rfl | hfree
  · rw [hp]
  · rw [hfree, he]
    simp [hp]

theorem collision_not_credited (f : Fill Decimal) (nowUs o : ℕ) (p b : PendingOrder)
    (hq : f.fillQuantity ≠ 0) (hne : f.orderId ≠ o) (hb : g.pendingOrders.find f.orderId = some b) :
    ¬Credited g f nowUs o p := by
  intro h
  have hfound : g.findForFill f.orderId = some (f.orderId,b) := by
    unfold findForFill
    rw [hb]
  have hmine := (g.credited_of_found f nowUs f.orderId b hfound).filled
  rw [h.others f.orderId hne, hb] at hmine
  split_ifs at hmine
  have hsame : b.filledQuantity = b.filledQuantity+f.fillQuantity :=
    congrArg PendingOrder.filledQuantity (Option.some.inj hmine)
  exact hq (left_eq_add.mp hsame)

theorem acknowledged_kept (actions : List Action) (e o : ℕ) (he : g.exchangeToLocal.find e = some o)
    (hd : Schedule.Allowed step DistinctExchangeIds actions g) :
    (Schedule.run step actions g).exchangeToLocal.find e = some o := by
  induction actions generalizing g with
  | nil => exact he
  | cons a actions ih =>
    refine ih (g.step a) ?_ hd.2
    rw [step_exchange]
    cases hack : g.acknowledgement a with
    | none => exact he
    | some x =>
      obtain ⟨e',o'⟩ := x
      by_cases hee : e' = e
      · subst hee
        rw [hd.1 e' o' hack o he]
        exact if_pos rfl
      · exact (if_neg hee).trans he

/-- Every run: a fill under the exchange id acknowledged for a pending order is
credited to it if no other pending order has this number for its local id,
and, unless its quantity is zero, only then. -/
theorem fill_credited_iff (actions before after : List Action) (a : Action) (e o : ℕ) (p : PendingOrder)
    (f : Fill Decimal) (nowUs : ℕ)
    (hd : Schedule.Allowed step DistinctExchangeIds actions g)
    (hsplit : actions = before++a::after)
    (hack : (Schedule.run step before g).acknowledgement a = some (e,o))
    (hp : (Schedule.run step actions g).pendingOrders.find o = some p) (hf : f.orderId = e) :
    ((e = o ∨ (Schedule.run step actions g).pendingOrders.find e = none) →
      Credited (Schedule.run step actions g) f nowUs o p) ∧
    (f.fillQuantity ≠ 0 → Credited (Schedule.run step actions g) f nowUs o p →
      e = o ∨ (Schedule.run step actions g).pendingOrders.find e = none) := by
  subst hsplit hf
  have hrest := ((Schedule.allowed_append step DistinctExchangeIds before (a::after) g).mp hd).2.2
  have hnoted : ((Schedule.run step before g).step a).exchangeToLocal.find f.orderId = some o := by
    rw [step_exchange, hack]
    exact if_pos rfl
  have he : (Schedule.run step (before++a::after) g).exchangeToLocal.find f.orderId = some o := by
    rw [Schedule.run_append]
    exact acknowledged_kept _ after f.orderId o hnoted hrest
  constructor
  · intro hfree
    exact credited_of_found _ f nowUs o p (found_by_exchangeId _ _ o p he hp hfree)
  · intro hq hcredited
    by_contra hcollision
    push Not at hcollision
    obtain ⟨b,hb⟩ := Option.ne_none_iff_exists'.mp hcollision.2
    exact collision_not_credited _ f nowUs o p b hq hcollision.1 hb hcredited

def firstOrder : Action :=
  .process { buyRequest with strategyId := 1 } { placeResponse := .placed (some 900) none }

def secondOrder (id : ℕ) : Action :=
  .process { buyRequest with orderId := id, strategyId := 2 } { placeResponse := .placed (some 901) none }

theorem twoOrders_distinct (id : ℕ)
    (h : ((Schedule.run step [firstOrder] binanceGateway).acknowledgement (secondOrder id)).all
      (fun x => (Schedule.run step [firstOrder] binanceGateway).exchangeToLocal.find x.1 = none) = true) :
    Schedule.Allowed step DistinctExchangeIds [firstOrder,secondOrder id] binanceGateway := by
  refine ⟨fun e o _ o' ho' => (by cases ho'),fun e o hack o' ho' => ?_,trivial⟩
  have hack' : (Schedule.run step [firstOrder] binanceGateway).acknowledgement (secondOrder id) =
    some (e,o) := hack
  rw [hack'] at h
  exact absurd ((of_decide_eq_true h).symm.trans ho') (by simp)

/-- The exchange numbers the first order like the gateway numbers the second;
the second strategy is told of the first one's fill. -/
theorem equalIds_credit_other_order :
    Schedule.Allowed step DistinctExchangeIds [firstOrder,secondOrder 900] binanceGateway ∧
    binanceGateway.acknowledgement firstOrder = some (900,7) ∧
    ((Schedule.run step [firstOrder,secondOrder 900] binanceGateway).injectFill halfFill
      0).callbacks.map Fill.strategyId = [2] ∧
    ∃ p, (Schedule.run step [firstOrder,secondOrder 900] binanceGateway).pendingOrders.find 7 = some p ∧
      p.strategyId = 1 ∧
      ¬Credited (Schedule.run step [firstOrder,secondOrder 900] binanceGateway) halfFill 0 7 p := by
  have hfirst : ((Schedule.run step [firstOrder,secondOrder 900] binanceGateway).pendingOrders.find 7).any
      (fun p => p.strategyId = 1) = true := by decide +kernel
  have hsecond : (Schedule.run step [firstOrder,secondOrder 900] binanceGateway).Pending
      halfFill.orderId := by decide +kernel
  obtain ⟨p,hp,hstrategy⟩ := (Option.any_eq_true _ _).mp hfirst
  obtain ⟨b,hb⟩ := Option.isSome_iff_exists.mp hsecond
  refine ⟨twoOrders_distinct 900 (by decide +kernel),by decide +kernel,by decide +kernel,p,hp,
    of_decide_eq_true hstrategy,?_⟩
  exact collision_not_credited _ halfFill 0 7 p b (by decide +kernel) (by decide) hb

theorem otherIds_credit_order :
    ∃ p, (Schedule.run step [firstOrder,secondOrder 8] binanceGateway).pendingOrders.find 7 = some p ∧
      Credited (Schedule.run step [firstOrder,secondOrder 8] binanceGateway) halfFill 0 7 p := by
  have hfirst : (Schedule.run step [firstOrder,secondOrder 8] binanceGateway).Pending 7 := by
    decide +kernel
  have hfree : ¬(Schedule.run step [firstOrder,secondOrder 8] binanceGateway).Pending 900 := by
    decide +kernel
  obtain ⟨p,hp⟩ := Option.isSome_iff_exists.mp hfirst
  refine ⟨p,hp,?_⟩
  exact (fill_credited_iff binanceGateway [firstOrder,secondOrder 8] [] [secondOrder 8] firstOrder 900 7 p
    halfFill 0 (twoOrders_distinct 8 (by decide +kernel)) rfl (by decide +kernel) hp rfl).1
    (Or.inr (Option.not_isSome_iff_eq_none.mp hfree))

end Chronos.OrderGateway
