import Chronos.GatewaySections

/-!
# The counters under interleaving

However the sections of requests, fills, acknowledgements and rejects are
mixed, once every thread is outside the gateway the counters balance: each
section pays what the call it stands for owed.
-/

set_option autoImplicit false

namespace Chronos.OrderGateway
open KeyedTable OrderEncoding CriticalSections

def fillsItself (c : GatewaySetup) : Bool := c.simulateFills && c.fillCallback

/-- Received requests, outcomes, accounted fills beyond the simulated ones, and
callbacks beyond the counted fills. -/
def account (c : GatewaySetup) (g : OrderGateway) : ℤ × ℤ × ℤ × ℤ :=
  (g.stats.ordersReceived,outcomes g.stats,
    accountedFills g.stats-(if fillsItself c then (g.stats.ordersSent : ℤ) else 0),
    g.callbacks.length-(if c.fillCallback then (g.stats.fillsReceived : ℤ) else 0))

def owed (c : GatewaySetup) : Section → ℤ × ℤ × ℤ × ℤ
  | .received => (1,0,0,0)
  | .settled .sent => (0,1,-(if fillsItself c then 1 else 0),0)
  | .settled _ => (0,1,0,0)
  | .check _ _ => (0,1,0,0)
  | .fill _ _ => (0,0,1,0)
  | .callback _ => (0,0,0,1)
  | .fillReceived => (0,0,1,-(if c.fillCallback then 1 else 0))
  | _ => 0

def Section.Plain : Section → Prop
  | .collect | .look _ => False
  | _ => True

section Plain
variable (c : GatewaySetup)

theorem newSections_plain (order : OrderRequest) (io : Surroundings) :
    ∀ a ∈ newSections c order io, a.Plain := by
  unfold newSections newLiveSections newSimulatedSections
  intro a ha
  split_ifs at ha
  · cases he : encodeOrderJson (c.symbolIdToName order.symbolId) order io.clientTimeUs with
    | none =>
      rw [he] at ha
      rw [List.mem_singleton.mp ha]
      trivial
    | some request =>
      rw [he] at ha
      cases hr : io.placeResponse <;> simp only [hr, placeSections, List.mem_cons, List.not_mem_nil, or_false] at ha
      all_goals rcases ha with rfl | rfl | rfl | rfl | rfl <;> trivial
  all_goals
    simp only [List.mem_append, List.mem_cons, List.not_mem_nil, or_false] at ha
    rcases ha with ((rfl | rfl) | rfl) | rfl <;> trivial

theorem cancelSections_plain (order : OrderRequest) : ∀ a ∈ cancelSections c order, a.Plain := by
  unfold cancelSections
  intro a ha
  split_ifs at ha <;> simp only [List.mem_append, List.mem_cons, List.not_mem_nil, or_false, false_or] at ha
  · rcases ha with rfl | rfl <;> trivial
  · rcases ha with rfl | rfl | rfl <;> trivial
  · rcases ha with rfl | rfl | rfl <;> trivial

theorem sections_plain (a : Action) : ∀ x ∈ a.sections c, x.Plain := by
  cases a with
  | process order io =>
    intro x hx
    rcases List.mem_cons.mp hx with rfl | hx
    · trivial
    · split_ifs at hx
      · rw [List.mem_singleton.mp hx]
        trivial
      · exact cancelSections_plain c order x hx
      · rw [List.mem_singleton.mp hx]
        trivial
  | ack a => exact fun x hx => List.mem_singleton.mp hx ▸ trivial
  | fill f nowUs => exact fun x hx => List.mem_singleton.mp hx ▸ trivial
  | reject r =>
    intro x hx
    rcases List.mem_pair.mp hx with rfl | rfl <;> trivial

end Plain

section Owed
variable (c : GatewaySetup)

theorem fillsItself_of_live (hl : c.live = true) : fillsItself c = false := by
  rw [GatewaySetup.live, Bool.and_eq_true, Bool.not_eq_true'] at hl
  rw [fillsItself, hl.1, Bool.false_and]

theorem newSections_owed (order : OrderRequest) (io : Surroundings) :
    ((newSections c order io).map (owed c)).sum = (0,1,0,0) := by
  unfold newSections
  by_cases hl : c.live = true
  · have hf := fillsItself_of_live c hl
    rw [if_pos hl, newLiveSections]
    cases encodeOrderJson (c.symbolIdToName order.symbolId) order io.clientTimeUs with
    | none => simp [owed]
    | some request => cases io.placeResponse <;> simp [placeSections, owed, hf]
  · rw [if_neg hl, newSimulatedSections]
    by_cases hf : fillsItself c = true
    · have hf' : (c.simulateFills && c.fillCallback) = true := hf
      simp [owed, hf, hf']
    · have hf' : ¬(c.simulateFills && c.fillCallback) = true := hf
      simp [owed, hf, hf']

def Action.owes : Action → ℤ × ℤ × ℤ × ℤ
  | .process _ _ => (1,1,0,0)
  | .ack _ => 0
  | .fill _ _ => (0,0,1,0)
  | .reject _ => (0,1,0,0)

theorem sections_owed (a : Action) : ((a.sections c).map (owed c)).sum = a.owes := by
  cases a with
  | process order io =>
    simp only [Action.sections, processSections, cancelSections]
    split_ifs <;> simp [owed, Action.owes]
  | ack a => simp [Action.sections, owed, Action.owes]
  | fill f nowUs => simp [Action.sections, owed, Action.owes]
  | reject r => simp [Action.sections, rejectSections, owed, Action.owes]

end Owed

section Balance
variable (c : GatewaySetup)

theorem perform_setup (g : OrderGateway) (a : Section) : (perform g a).1.toGatewaySetup = g.toGatewaySetup := by
  cases a with
  | finalize id =>
    simp only [perform]
    cases g.pendingOrders.find id <;> rfl
  | check order io =>
    simp only [perform]
    cases g.pendingOrders.find order.orderId with
    | none => rfl
    | some p =>
      dsimp only
      split_ifs <;> rfl
  | ack a => exact g.injectOrderAck_setup a
  | fill f nowUs =>
    simp only [perform]
    cases g.findForFill f.orderId <;> rfl
  | look id =>
    simp only [perform]
    cases g.pendingOrders.find id <;> rfl
  | _ => rfl

theorem perform_closed :
    Closed perform (fun g : OrderGateway => g.toGatewaySetup = c) Section.Plain where
  keeps g a _ hg := (perform_setup g a).trans hg
  goesOn g a ha _ := by
    cases a with
    | check order io =>
      have hnew := newSections_plain g.toGatewaySetup order io
      simp only [perform]
      cases g.pendingOrders.find order.orderId with
      | none => exact hnew
      | some p =>
        dsimp only
        split_ifs
        · exact fun _ hb => absurd hb List.not_mem_nil
        · exact hnew
    | fill f nowUs =>
      simp only [perform]
      cases g.findForFill f.orderId with
      | none => exact fun _ hb => absurd hb List.not_mem_nil
      | some x =>
        intro b hb
        dsimp only at hb
        split_ifs at hb
        · rcases List.mem_pair.mp hb with rfl | rfl <;> trivial
        · rw [List.mem_singleton.mp hb]
          trivial
    | collect => exact ha.elim
    | look id => exact ha.elim
    | _ => exact fun _ hb => absurd hb List.not_mem_nil

theorem settled_pays (g : OrderGateway) (o : Outcome) :
    account c (g.counted o) = account c g+owed c (.settled o) := by
  cases o with
  | sent =>
    simp only [account, counted, Outcome.count, outcomes, accountedFills, owed, Prod.mk_add_mk,
      Prod.mk.injEq, add_zero, true_and, and_true]
    constructor
    · push_cast
      ring
    · split_ifs <;> push_cast <;> ring
  | _ => simp [account, counted, Outcome.count, outcomes, accountedFills, owed]; ring

theorem perform_balanced :
    Balanced perform (fun g : OrderGateway => g.toGatewaySetup = c) Section.Plain (account c) (owed c) := by
  rintro g a ha rfl
  cases a with
  | received => simp [perform, OrderGateway.received, account, outcomes, accountedFills, owed]
  | settled o => exact (add_zero _).trans (settled_pays g.toGatewaySetup g o)
  | send m => exact rfl
  | finalize id =>
    simp only [perform]
    cases g.pendingOrders.find id <;> rfl
  | check order io =>
    have hnew := newSections_owed g.toGatewaySetup order io
    simp only [perform]
    cases g.pendingOrders.find order.orderId with
    | none => rw [hnew]; rfl
    | some p =>
      dsimp only
      split_ifs
      · exact (add_zero _).trans (settled_pays g.toGatewaySetup g .modified)
      · rw [hnew]
        rfl
  | note clientOrderId orderId => rfl
  | track order submitTimeUs => rfl
  | ack a =>
    have hs := g.injectOrderAck_stats a
    have hcalls : (g.injectOrderAck a).callbacks = g.callbacks := by
      unfold injectOrderAck
      split <;> rfl
    simp only [perform, account, hs, hcalls]
    rfl
  | fill f nowUs =>
    simp only [perform]
    cases g.findForFill f.orderId with
    | none => simp [account, outcomes, accountedFills, owed]; ring
    | some x =>
      dsimp only
      by_cases hc : g.fillCallback = true
      · simp [hc, account, fillEntry, owed]
      · simp [hc, account, fillEntry, owed]
  | callback f => simp [perform, account, owed]; ring
  | fillReceived =>
    simp only [perform, account, outcomes, accountedFills, owed, List.map_nil, List.sum_nil, add_zero,
      Prod.mk_add_mk, Prod.mk.injEq, true_and]
    constructor
    · push_cast
      ring
    · split_ifs <;> push_cast <;> ring
  | collect => exact ha.elim
  | look id => exact ha.elim

end Balance

section Runs
variable {n : ℕ} (c : GatewaySetup)

def Action.isFill : Action → Bool
  | .fill _ _ => true
  | _ => false

theorem calls_owe (calls : List Action) : (calls.map Action.owes).sum =
    ((calls.countP Action.isRequest : ℤ),
      (calls.countP Action.isRequest+calls.countP Action.isReject : ℤ),(calls.countP Action.isFill : ℤ),0) := by
  induction calls with
  | nil => rfl
  | cons a calls ih =>
    rw [List.map_cons, List.sum_cons, ih]
    cases a with
    | process order io =>
      simp [Action.owes, Action.isRequest, Action.isReject, Action.isFill, List.countP_cons]
      exact ⟨by ring,by ring⟩
    | ack a => simp [Action.owes, Action.isRequest, Action.isReject, Action.isFill]
    | fill f nowUs =>
      simp [Action.owes, Action.isRequest, Action.isReject, Action.isFill, List.countP_cons]
      ring
    | reject r =>
      simp [Action.owes, Action.isRequest, Action.isReject, Action.isFill, List.countP_cons]
      ring

def start (c : GatewaySetup) (n : ℕ) : State n OrderGateway Section := opened n { toGatewaySetup := c }

def act : State n OrderGateway Section → Move n Action → State n OrderGateway Section :=
  Move.step perform (Action.sections c)

structure Accounted (c : GatewaySetup) (g : OrderGateway) (calls : List Action) : Prop where
  received : g.stats.ordersReceived = calls.countP Action.isRequest
  settled : outcomes g.stats = calls.countP Action.isRequest+calls.countP Action.isReject
  fills : accountedFills g.stats =
    calls.countP Action.isFill+(if fillsItself c then g.stats.ordersSent else 0)
  callbacks : g.callbacks.length = if c.fillCallback then g.stats.fillsReceived else 0

/-- Whatever the interleaving, the counters agree with the calls once every
thread is outside. -/
theorem interleaved_counters (moves : List (Move n Action))
    (hfits : Schedule.Allowed (act c) Move.Fits moves (start c n))
    (hquiet : Quiet (Schedule.run (act c) moves (start c n))) :
    Accounted c (Schedule.run (act c) moves (start c n)).shared (callsOf moves) := by
  have htotal : total (account c) (owed c) (Schedule.run (act c) moves (start c n)) =
      total (account c) (owed c) (start c n)+((callsOf moves).map Action.owes).sum :=
    moves_total (perform_closed c) (perform_balanced c) (sections_owed c) moves (start c n)
      (fun a _ => sections_plain c a) hfits (opened_holds _ _ _ rfl)
  rw [calls_owe, total_quiet _ hquiet, total_quiet (start c n) (fun _ => rfl)] at htotal
  generalize (Schedule.run (act c) moves (start c n)).shared = g at htotal ⊢
  simp only [account, start, opened, outcomes, accountedFills, Prod.mk_add_mk, Prod.mk.injEq] at htotal
  obtain ⟨hreceived,hsettled,hfills,hcallbacks⟩ := htotal
  constructor
  case received => simpa using hreceived
  case settled =>
    unfold outcomes
    simp at hsettled
    omega
  case fills =>
    unfold accountedFills
    by_cases hf : fillsItself c = true
    · simp only [if_pos hf] at hfills ⊢
      push_cast at hfills
      omega
    · simp only [if_neg hf] at hfills ⊢
      push_cast at hfills
      omega
  case callbacks =>
    by_cases hc : c.fillCallback = true
    · simp only [if_pos hc] at hcallbacks ⊢
      simp at hcallbacks
      omega
    · simp only [if_neg hc] at hcallbacks ⊢
      simpa using hcallbacks

def fillBeforeAck (worker stream : Fin n) : List (Move n Action) :=
  [.call worker (.process buyRequest { placeResponse := .placed (some 70) none })]++
    List.replicate 5 (.next worker)++[.call stream (.fill { orderId := 7, fillQuantity := Decimal.ofInt 1 } 9)]++
    List.replicate 3 (.next stream)++List.replicate 2 (.next worker)

theorem fillBeforeAck_counters :
    Accounted binanceGateway.toGatewaySetup
      (Schedule.run (act binanceGateway.toGatewaySetup) (fillBeforeAck (0 : Fin 2) 1)
        (start binanceGateway.toGatewaySetup 2)).shared (callsOf (fillBeforeAck (0 : Fin 2) 1)) :=
  interleaved_counters binanceGateway.toGatewaySetup (fillBeforeAck (0 : Fin 2) 1) (by decide +kernel)
    (fun i => by revert i; decide +kernel)

end Runs
end Chronos.OrderGateway
