import Chronos.TradingPipeline

/-!
# Every order once

The dispatch loop names a strategy before it calls it, so what a callback of
the loop enters carries the number of its strategy. What `onLoad` enters
carries none: no strategy is told of its fills. From this and the account of
all fills it follows which strategy is told of what.
-/

set_option autoImplicit false

namespace Chronos.TradingPipeline
open KeyedTable

def Call.stamp (c : Call) : ℕ := if c.inLoop then c.strategyId else 0

def Registered (e : StrategyEngine) (id : ℕ) : Prop := e.strategies.any (fun s => s.id = id) = true

/-- `registerStrategy` numbers the strategies from one on, and no strategy has
been named yet. -/
structure Started (engine : StrategyEngine) : Prop where
  ids : ∀ s ∈ engine.strategies, s.id ≠ 0
  unnamed : engine.ctx.currentStrategyId = 0

def notices (p : TradingPipeline) : List (ℕ × Fill Decimal) := p.delivered++p.agenda.flatMap Call.tells

/-- What the engine's thread knows of its callbacks. Those of `onLoad` come
first, while no strategy has been named. -/
structure Named (p : TradingPipeline) : Prop where
  ids : ∀ s ∈ p.engine.strategies, s.id ≠ 0
  kinds : ((∀ c ∈ p.agenda, c.inLoop = false) ∧ p.engine.ctx.currentStrategyId = 0) ∨
    ∀ c ∈ p.agenda, c.inLoop = true
  named : ∀ c, p.calling = some c → p.engine.ctx.currentStrategyId = c.stamp
  registered : ∀ c, p.calling = some c ∨ c ∈ p.agenda → Registered p.engine c.strategyId
  owner : ∀ x ∈ p.entered, isOrder x = true → x.2.strategyId = x.1.stamp ∧ Registered p.engine x.1.strategyId
  told : p.notices = (p.applied.filter (fun f => p.engine.strategies.any (fun s => s.id = f.strategyId))).map
    (fun f => (f.strategyId,f))

section Calls
variable (e : StrategyEngine)

theorem entry_registered (s : StrategyEngine.StrategyEntry) (h : s ∈ e.strategies) : Registered e s.id :=
  List.any_eq_true.mpr ⟨s,h,decide_eq_true rfl⟩

theorem timerCalls_registered : ∀ c ∈ timerCalls e, Registered e c.strategyId := by
  intro c hc
  obtain ⟨s,hs,rfl⟩ := List.mem_map.mp hc
  exact entry_registered e s hs

theorem tickCalls_registered (tick : Tick) : ∀ c ∈ tickCalls e tick, Registered e c.strategyId := by
  intro c hc
  rcases List.mem_append.mp hc with hc | hc
  · obtain ⟨s,hs,rfl⟩ := List.mem_map.mp hc
    exact entry_registered e s (List.mem_filter.mp hs).1
  · split_ifs at hc
    · exact timerCalls_registered e c hc
    · cases hc

theorem timerCalls_tell : (timerCalls e).flatMap Call.tells = [] :=
  List.flatMap_eq_nil_iff.mpr (fun c hc => by obtain ⟨s,-,rfl⟩ := List.mem_map.mp hc; rfl)

theorem tickCalls_tell (tick : Tick) : (tickCalls e tick).flatMap Call.tells = [] := by
  refine List.flatMap_eq_nil_iff.mpr (fun c hc => ?_)
  rcases List.mem_append.mp hc with hc | hc
  · obtain ⟨s,-,rfl⟩ := List.mem_map.mp hc
    rfl
  · split_ifs at hc
    · exact List.flatMap_eq_nil_iff.mp (timerCalls_tell e) c hc
    · cases hc

end Calls

section Step
variable (p : TradingPipeline)

theorem turn_named (e : StrategyEngine) (calls : List Call) (hrest : p.Resting)
    (hs : e.strategies = p.engine.strategies) (hloop : ∀ c ∈ calls, c.inLoop = true)
    (hregistered : ∀ c ∈ calls, Registered p.engine c.strategyId) (htell : calls.flatMap Call.tells = [])
    (h : Named p) : Named { p with engine := e, agenda := calls } := by
  have hagenda : p.agenda = [] := List.isEmpty_iff.mp hrest.1
  have hcalling : p.calling = none := Option.isNone_iff_eq_none.mp hrest.2
  have hkeep (id : ℕ) (hid : Registered p.engine id) : Registered e id := by rwa [Registered, hs]
  constructor
  case ids => exact hs ▸ h.ids
  case kinds => exact Or.inr hloop
  case named =>
    intro c hc
    rw [hcalling] at hc
    cases hc
  case registered =>
    rintro c (hc | hc)
    · rw [hcalling] at hc
      cases hc
    · exact hkeep _ (hregistered c hc)
  case owner => exact fun x hx ho => ⟨(h.owner x hx ho).1,hkeep _ (h.owner x hx ho).2⟩
  case told =>
    have htold := h.told
    rw [notices, hagenda, List.flatMap_nil] at htold
    rw [notices, htell]
    simpa only [hs] using htold

section Division
variable [NearestDivision.NearestDiv]

theorem takeFill_named (hrest : p.Resting) (h : Named p) : Named p.takeFill := by
  have hagenda : p.agenda = [] := List.isEmpty_iff.mp hrest.1
  have hcalling : p.calling = none := Option.isNone_iff_eq_none.mp hrest.2
  cases hq : p.fillQueue with
  | nil =>
    rw [takeFill, hq]
    exact h
  | cons f queue =>
    have htake : p.takeFill = { p with
        engine := applyFill p.engine f, fillQueue := queue, applied := p.applied++[f]
        agenda := fillCalls p.engine f } := by rw [takeFill, hq]
    rw [htake]
    constructor
    case ids => exact h.ids
    case kinds => exact Or.inr (fillCalls_inLoop p.engine f)
    case named =>
      intro c hc
      dsimp only at hc
      rw [hcalling] at hc
      cases hc
    case registered =>
      rintro c (hc | hc)
      · dsimp only at hc
        rw [hcalling] at hc
        cases hc
      · dsimp only [fillCalls] at hc
        split_ifs at hc with hs
        · obtain rfl := List.mem_singleton.mp hc
          exact hs
        · cases hc
    case owner => exact h.owner
    case told =>
      have htold := h.told
      rw [notices, hagenda, List.flatMap_nil, List.append_nil] at htold
      rw [notices, List.filter_append, List.map_append]
      dsimp only [applyFill]
      rw [htold]
      congr 1
      unfold fillCalls
      cases hs : p.engine.strategies.any (fun s => s.id = f.strategyId) <;> simp [hs, Call.tells]

omit [NearestDivision.NearestDiv] in
theorem call_named (h : Named p) : Named p.call := by
  cases hagenda : p.agenda with
  | nil =>
    have hcall : p.call = { p with calling := none } := by rw [call, hagenda]
    rw [hcall]
    constructor
    case ids => exact h.ids
    case kinds => exact h.kinds
    case named => exact fun c hc => by cases hc
    case registered =>
      rintro c (hc | hc)
      · cases hc
      · exact h.registered c (Or.inr hc)
    case owner => exact h.owner
    case told => exact h.told
  | cons c rest =>
    have hmem (d : Call) (hd : d ∈ rest) : d ∈ p.agenda := hagenda ▸ List.mem_cons_of_mem c hd
    have hc : c ∈ p.agenda := hagenda ▸ List.mem_cons_self
    have hkinds : ((∀ d ∈ rest, d.inLoop = false) ∧ (c.name p.engine.ctx).currentStrategyId = 0) ∨
        ∀ d ∈ rest, d.inLoop = true := by
      rcases h.kinds with ⟨hload,hzero⟩ | hloop
      · refine Or.inl ⟨fun d hd => hload d (hmem d hd),?_⟩
        rw [Call.name, hload c hc]
        exact hzero
      · exact Or.inr (fun d hd => hloop d (hmem d hd))
    have hcall : p.call = { p.setContext (c.name p.engine.ctx) with
        agenda := rest, calling := some c, delivered := p.delivered++c.tells } := by rw [call, hagenda]
    rw [hcall]
    constructor
    case ids => exact h.ids
    case kinds => exact hkinds
    case named =>
      rintro d hd
      obtain rfl : c = d := Option.some.inj hd
      cases hl : c.inLoop with
      | true => simp [setContext, Call.name, Call.stamp, hl]
      | false =>
        rcases h.kinds with ⟨-,hzero⟩ | hloop
        · simpa [setContext, Call.name, Call.stamp, hl] using hzero
        · rw [hloop c hc] at hl
          cases hl
    case registered =>
      rintro d (hd | hd)
      · obtain rfl : c = d := Option.some.inj hd
        exact h.registered c (Or.inr hc)
      · exact h.registered d (Or.inr (hmem d hd))
    case owner => exact h.owner
    case told =>
      have htold := h.told
      rw [notices, hagenda, List.flatMap_cons, ← List.append_assoc] at htold
      exact htold

omit [NearestDivision.NearestDiv] in
theorem enter_named (ctx : StrategyContext) (hc : Called p.engine.ctx ctx)
    (hname : ctx.currentStrategyId = p.engine.ctx.currentStrategyId) (h : Named p) :
    Named (p.enter ctx) := by
  cases hcalling : p.calling with
  | none =>
    rw [enter, hcalling]
    exact h
  | some c =>
    have henter : p.enter ctx = { p.setContext ctx with entered :=
        p.entered++(ctx.orderOutput.drop p.engine.ctx.orderOutput.length).map (c,·) } := by
      rw [enter, hcalling]
    rw [henter]
    have hstamp := h.named c hcalling
    have hregistered := h.registered c (Or.inl hcalling)
    constructor
    case ids => exact h.ids
    case kinds =>
      refine h.kinds.imp_left (fun hload => ⟨hload.1,?_⟩)
      exact hname.trans hload.2
    case named => exact fun d hd => hname.trans (h.named d hd)
    case registered => exact h.registered
    case owner =>
      intro x hx ho
      rcases List.mem_append.mp hx with hx | hx
      · exact h.owner x hx ho
      · cases hc with
        | kept queue => simp [queue] at hx
        | added order queue positions ids named =>
          obtain rfl : x = (c,order) := by simpa [queue] using hx
          exact ⟨(named (by simpa [isOrder] using ho)).1.trans hstamp,hregistered⟩
    case told => exact h.told

theorem submitOrder_strategy (ctx : StrategyContext) (order : OrderRequest) (t : ClockReadings) :
    (ctx.submitOrder order t).1.currentStrategyId = ctx.currentStrategyId := by
  unfold StrategyContext.submitOrder
  rcases ctx.enqueueOrder_cases order t with ⟨-,h⟩ | ⟨-,h | h⟩ <;> rw [h] <;> rfl

omit [NearestDivision.NearestDiv] in
theorem cancelOrder_strategy (ctx : StrategyContext) (orderId : ℕ) :
    (ctx.cancelOrder orderId).1.currentStrategyId = ctx.currentStrategyId := by
  rcases ctx.cancelOrder_cases orderId with h | h <;> rw [h]

omit [NearestDivision.NearestDiv] in
theorem pushAll_fields (fills : List (Fill Decimal)) :
    ∃ queue dropped, fills.foldl pushFill p = { p with fillQueue := queue, dropped := dropped } := by
  induction fills generalizing p with
  | nil => exact ⟨p.fillQueue,p.dropped,rfl⟩
  | cons f fills ih =>
    obtain ⟨queue,dropped,hone⟩ := pushFill_fields p f
    obtain ⟨queue',dropped',hrest⟩ := ih (p.pushFill f)
    exact ⟨queue',dropped',by rw [List.foldl_cons, hrest, hone]⟩

omit [NearestDivision.NearestDiv] in
theorem handle_named (io : Surroundings) (h : Named p) : Named (p.handle io) := by
  unfold handle
  cases StrategyContext.tryPop p.engine.ctx.orderOutput with
  | none => exact h
  | some popped =>
    obtain ⟨order,queue⟩ := popped
    dsimp only
    generalize (p.gateway.processOrder order io).callbacks.drop p.gateway.callbacks.length = fills
    obtain ⟨fq,d,hpush⟩ := pushAll_fields { p.setContext { p.engine.ctx with orderOutput := queue } with
      gateway := p.gateway.processOrder order io
      handled := p.handled++((p.entered.drop p.handled.length).head?).toList } fills
    rw [hpush]
    exact ⟨h.ids,h.kinds,h.named,h.registered,h.owner,h.told⟩

theorem step_named (a : Action) (hfew : FewIds p a) (h : Named p) : Named (p.step a) := by
  cases a with
  | tick t =>
    rw [step]
    split_ifs with hrest
    · exact turn_named p _ _ hrest rfl (tickCalls_inLoop p.engine t) (tickCalls_registered p.engine t)
        (tickCalls_tell p.engine t) h
    · exact h
  | fill =>
    rw [step]
    split_ifs with hrest
    · exact takeFill_named p hrest h
    · exact h
  | timer =>
    rw [step]
    split_ifs with hrest
    · exact turn_named p p.engine _ hrest rfl (timerCalls_inLoop p.engine) (timerCalls_registered p.engine)
        (timerCalls_tell p.engine) h
    · exact h
  | call => exact call_named p h
  | submit order t =>
    exact enter_named p _ (submitOrder_called _ order t hfew) (submitOrder_strategy _ order t) h
  | cancel orderId => exact enter_named p _ (cancelOrder_called _ orderId) (cancelOrder_strategy _ orderId) h
  | handle io => exact handle_named p io h

omit [NearestDivision.NearestDiv] in
theorem start_named (engine : StrategyEngine) (gateway : OrderGateway) (h : Started engine) :
    Named (fresh engine gateway) := by
  have hload : ∀ c ∈ (fresh engine gateway).agenda, ∃ s ∈ engine.strategies, c = .onLoad s.id := by
    intro c hc
    obtain ⟨s,hs,rfl⟩ := List.mem_map.mp hc
    exact ⟨s,hs,rfl⟩
  have htell : (fresh engine gateway).agenda.flatMap Call.tells = [] := by
    refine List.flatMap_eq_nil_iff.mpr (fun c hc => ?_)
    obtain ⟨s,-,rfl⟩ := hload c hc
    rfl
  constructor
  case ids => exact h.ids
  case kinds =>
    refine Or.inl ⟨fun c hc => ?_,h.unnamed⟩
    obtain ⟨s,-,rfl⟩ := hload c hc
    rfl
  case named => exact fun c hc => by cases hc
  case registered =>
    rintro c (hc | hc)
    · cases hc
    · obtain ⟨s,hs,rfl⟩ := hload c hc
      exact entry_registered engine s hs
  case owner => exact fun x hx => absurd hx List.not_mem_nil
  case told => exact htell

end Division
section Room
variable [NearestDivision.NearestDiv]

/-- A fill is dropped by this step only if it finds the fill queue full. -/
def DropsWhenFull (p : TradingPipeline) (a : Action) : Prop :=
  (p.step a).dropped = p.dropped ∨
    p.fillQueue.length = fillQueueCapacity ∧ ∃ f, (p.step a).dropped = p.dropped++[f]

omit [NearestDivision.NearestDiv] in
theorem pushFill_room (f : Fill Decimal) (h : p.fillQueue.length ≤ fillQueueCapacity) :
    (p.pushFill f).fillQueue.length ≤ fillQueueCapacity ∧
      ((p.pushFill f).dropped = p.dropped ∨
        p.fillQueue.length = fillQueueCapacity ∧ (p.pushFill f).dropped = p.dropped++[f]) := by
  unfold pushFill
  split_ifs with hroom
  · exact ⟨by simpa using hroom,Or.inl rfl⟩
  · exact ⟨h,Or.inr ⟨le_antisymm h (not_lt.mp hroom),rfl⟩⟩

theorem handle_room (exchangeId : ℕ) (io : Surroundings) (hg : Simulating p.gateway exchangeId)
    (h : p.fillQueue.length ≤ fillQueueCapacity) :
    (p.handle io).fillQueue.length ≤ fillQueueCapacity ∧ DropsWhenFull p (.handle io) := by
  unfold DropsWhenFull
  rw [step, handle]
  cases StrategyContext.tryPop p.engine.ctx.orderOutput with
  | none => exact ⟨h,Or.inl rfl⟩
  | some popped =>
    obtain ⟨order,queue⟩ := popped
    dsimp only
    rw [(processOrder_simulating p.gateway exchangeId order io hg).2, List.drop_left]
    split_ifs
    · obtain ⟨hlen,hdrop⟩ := pushFill_room { p.setContext { p.engine.ctx with orderOutput := queue } with
        gateway := p.gateway.processOrder order io
        handled := p.handled++((p.entered.drop p.handled.length).head?).toList }
        (OrderGateway.simulatedFill order io.sendTimeUs) h
      exact ⟨hlen,hdrop.imp_right (fun hfull => ⟨hfull.1,_,hfull.2⟩)⟩
    · exact ⟨h,Or.inl rfl⟩

def Drains (q : TradingPipeline) : Prop := q.fillQueue.length ≤ p.fillQueue.length ∧ q.dropped = p.dropped

omit [NearestDivision.NearestDiv] in
theorem enter_drains (ctx : StrategyContext) : Drains p (p.enter ctx) := by
  unfold enter
  cases p.calling <;> exact ⟨le_refl _,rfl⟩

omit [NearestDivision.NearestDiv] in
theorem call_drains : Drains p p.call := by
  unfold call
  cases p.agenda <;> exact ⟨le_refl _,rfl⟩

theorem takeFill_drains : Drains p p.takeFill := by
  cases hq : p.fillQueue with
  | nil =>
    rw [takeFill, hq]
    exact ⟨le_refl _,rfl⟩
  | cons f queue =>
    rw [takeFill, hq]
    exact ⟨by simp [hq],rfl⟩

theorem drains_room (a : Action) (h : p.fillQueue.length ≤ fillQueueCapacity) (hd : Drains p (p.step a)) :
    (p.step a).fillQueue.length ≤ fillQueueCapacity ∧ DropsWhenFull p a :=
  ⟨hd.1.trans h,Or.inl hd.2⟩

theorem step_room (exchangeId : ℕ) (a : Action) (hg : Simulating p.gateway exchangeId)
    (h : p.fillQueue.length ≤ fillQueueCapacity) :
    (p.step a).fillQueue.length ≤ fillQueueCapacity ∧ DropsWhenFull p a := by
  cases a with
  | tick t =>
    refine drains_room p _ h ?_
    rw [step]
    split_ifs <;> exact ⟨le_refl _,rfl⟩
  | fill =>
    refine drains_room p _ h ?_
    rw [step]
    split_ifs
    · exact takeFill_drains p
    · exact ⟨le_refl _,rfl⟩
  | timer =>
    refine drains_room p _ h ?_
    rw [step]
    split_ifs <;> exact ⟨le_refl _,rfl⟩
  | call => exact drains_room p _ h (call_drains p)
  | submit order t => exact drains_room p _ h (enter_drains p _)
  | cancel orderId => exact drains_room p _ h (enter_drains p _)
  | handle io => exact handle_room p exchangeId io hg h

end Room
end Step
theorem stamp_registered (p : TradingPipeline) (c : Call) (hn : Named p) (h : Registered p.engine c.stamp) :
    c.inLoop = true ∧ c.stamp = c.strategyId := by
  unfold Call.stamp at h ⊢
  split_ifs at h ⊢ with hl
  · exact ⟨hl,rfl⟩
  · obtain ⟨s,hs,hid⟩ := List.any_eq_true.mp h
    exact absurd (of_decide_eq_true hid) (hn.ids s hs)

/-- No order is lost, filled twice or told to the wrong strategy: the queue
holds what was entered and not handled; the handled orders of the exchange
are filled once each, the fills being applied, waiting or dropped, in order;
and a strategy is told of exactly the applied fills of the orders its own
callbacks in the dispatch loop entered. -/
structure ExactlyOnce (exchangeId : ℕ) (p : TradingPipeline) : Prop where
  queued : p.entered.map Prod.snd = p.handled.map Prod.snd++p.engine.ctx.orderOutput
  filled : ((p.received++p.dropped).map dealIn).Perm ((p.filledOrders exchangeId).map dealOf)
  inOrder : (p.received.map dealIn).Sublist ((p.filledOrders exchangeId).map dealOf)
  room : p.fillQueue.length ≤ fillQueueCapacity
  once : ((p.received++p.dropped).map Fill.orderId).Nodup
  owner : ∀ f ∈ p.received++p.dropped, ∃ call order, (call,order) ∈ p.handled ∧ order.quantity ≠ 0 ∧
    dealIn f = dealOf order ∧ f.strategyId = call.stamp
  told : ∀ id f, (id,f) ∈ p.notices ↔ f ∈ p.applied ∧ ∃ call order, (call,order) ∈ p.handled ∧
    call.inLoop = true ∧ call.strategyId = id ∧ dealIn f = dealOf order
  toldOnce : (p.notices.map (fun d => d.2.orderId)).Nodup

section Once
variable [NearestDivision.NearestDiv]
variable (exchangeId : ℕ) (start : PositionManager) (p : TradingPipeline)

/-- Every fill is that of an order some callback entered, and names the
strategy that callback was of, or none. -/
theorem deal_owner (h : Account exchangeId start p) (hn : Named p) (f : Fill Decimal)
    (hf : f ∈ p.received++p.dropped) :
    ∃ call order, (call,order) ∈ p.handled ∧ order.quantity ≠ 0 ∧ dealIn f = dealOf order ∧
      f.strategyId = call.stamp := by
  obtain ⟨rest,hentered,-⟩ := h.requests
  have hmem := (deals_perm exchangeId start p h).mem_iff.mp (List.mem_map_of_mem hf)
  obtain ⟨order,horder,hdeal⟩ := List.mem_map.mp hmem
  obtain ⟨hhandled,hfill⟩ := List.mem_filter.mp horder
  obtain ⟨x,hx,rfl⟩ := List.mem_map.mp hhandled
  have ho : isOrder x = true := by
    simp only [fillable, Bool.and_eq_true] at hfill
    exact hfill.2
  have hown := (hn.owner x (hentered ▸ List.mem_append_left rest hx) ho).1
  exact ⟨x.1,x.2,hx,of_decide_eq_true ho,hdeal.symm,(congrArg Deal.strategyId hdeal).symm.trans hown⟩

theorem told_iff (h : Account exchangeId start p) (hn : Named p) (id : ℕ) (f : Fill Decimal) :
    (id,f) ∈ p.notices ↔ f ∈ p.applied ∧ ∃ call order, (call,order) ∈ p.handled ∧
      call.inLoop = true ∧ call.strategyId = id ∧ dealIn f = dealOf order := by
  have hmem : (id,f) ∈ p.notices ↔ f ∈ p.applied ∧ f.strategyId = id ∧ Registered p.engine id := by
    rw [hn.told, List.mem_map]
    constructor
    · rintro ⟨g,hg,heq⟩
      obtain ⟨rfl,rfl⟩ := Prod.mk.inj heq
      exact ⟨(List.mem_filter.mp hg).1,rfl,(List.mem_filter.mp hg).2⟩
    · rintro ⟨hf,rfl,hs⟩
      exact ⟨f,List.mem_filter.mpr ⟨hf,hs⟩,rfl⟩
  rw [hmem]
  refine and_congr_right (fun hf => ?_)
  have hreceived : f ∈ p.received++p.dropped := List.mem_append_left _ (List.mem_append_left _ hf)
  obtain ⟨call,order,hhandled,hquantity,hdeal,hstamp⟩ := deal_owner exchangeId start p h hn f hreceived
  constructor
  · rintro ⟨rfl,hs⟩
    obtain ⟨hl,hid⟩ := stamp_registered p call hn (hstamp ▸ hs)
    exact ⟨call,order,hhandled,hl,hid.symm.trans hstamp.symm,hdeal⟩
  · rintro ⟨call',order',hhandled',hl,rfl,hdeal'⟩
    obtain ⟨rest,hentered,-⟩ := h.requests
    have horder : isOrder (call',order') = true := by
      have hsame : order.quantity = order'.quantity := congrArg Deal.quantity (hdeal.symm.trans hdeal')
      exact decide_eq_true (hsame ▸ hquantity)
    obtain ⟨hown,hregistered⟩ := hn.owner _ (hentered ▸ List.mem_append_left rest hhandled') horder
    refine ⟨?_,hregistered⟩
    rw [show f.strategyId = order'.strategyId from congrArg Deal.strategyId hdeal', hown, Call.stamp,
      if_pos hl]

theorem named_exactlyOnce (h : Account exchangeId start p) (hn : Named p)
    (hroom : p.fillQueue.length ≤ fillQueueCapacity) : ExactlyOnce exchangeId p := by
  have hnodup := deals_nodup exchangeId start p h
  constructor
  case queued =>
    obtain ⟨rest,hentered,hrest⟩ := h.requests
    rw [hentered, List.map_append, hrest]
  case filled => exact deals_perm exchangeId start p h
  case inOrder =>
    rw [← h.fills]
    exact h.order.map dealIn
  case room => exact hroom
  case once => exact hnodup
  case owner => exact deal_owner exchangeId start p h hn
  case told => exact told_iff exchangeId start p h hn
  case toldOnce =>
    rw [hn.told, List.map_map]
    refine List.Nodup.sublist ?_ hnodup
    rw [received, List.append_assoc, List.map_append]
    exact ((List.filter_sublist).map Fill.orderId).trans (List.sublist_append_left _ _)

end Once
section Run
variable [NearestDivision.NearestDiv]

structure Sound (exchangeId : ℕ) (start : PositionManager) (p : TradingPipeline) : Prop where
  account : Account exchangeId start p
  named : Named p
  room : p.fillQueue.length ≤ fillQueueCapacity

theorem step_sound (exchangeId : ℕ) (start : PositionManager) (p : TradingPipeline) (a : Action)
    (hfew : FewIds p a) (h : Sound exchangeId start p) : Sound exchangeId start (p.step a) :=
  ⟨step_account exchangeId start p a hfew h.account,step_named p a hfew h.named,
    (step_room p exchangeId a h.account.gateway h.room).1⟩

/-- Any interleaving of the engine, its strategies and the gateway, from
`start` on; a fill is dropped only by a full queue. -/
theorem orders_exactly_once (engine : StrategyEngine) (gateway : OrderGateway) (h : Fresh engine gateway)
    (hs : Started engine) (actions : List Action)
    (hok : Schedule.Allowed step FewIds actions (fresh engine gateway)) :
    ExactlyOnce gateway.exchangeId (Schedule.run step actions (fresh engine gateway)) ∧
      Schedule.Allowed step DropsWhenFull actions (fresh engine gateway) := by
  have hstart : Sound gateway.exchangeId engine.ctx.positionManager (fresh engine gateway) :=
    ⟨fresh_account engine gateway h,start_named engine gateway hs,Nat.zero_le _⟩
  have hkeep := step_sound gateway.exchangeId engine.ctx.positionManager
  constructor
  · have hend := Schedule.invariant step FewIds _ hkeep actions _ hok hstart
    exact named_exactlyOnce _ _ _ hend.account hend.named hend.room
  · refine Schedule.allowed_of_invariant step FewIds DropsWhenFull _ hkeep ?_ actions _ hok hstart
    exact fun p a _ hp => (step_room p gateway.exchangeId a hp.account.gateway hp.room).2

end Run

theorem oneStrategy_started : Started oneStrategy := ⟨by decide,rfl⟩

/-- Both fills are applied; the strategy is told of the one for the order of
its `onTick`. -/
theorem twoOrders_once :
    (ExactlyOnce 1 (Schedule.run step twoOrders (fresh oneStrategy simulatedGateway)) ∧
      Schedule.Allowed step DropsWhenFull twoOrders (fresh oneStrategy simulatedGateway)) ∧
    (Schedule.run step twoOrders (fresh oneStrategy simulatedGateway)).applied.length = 2 ∧
    (Schedule.run step twoOrders (fresh oneStrategy simulatedGateway)).delivered.map
      (fun d => (d.1,d.2.orderId)) = [(1,2)] :=
  ⟨orders_exactly_once oneStrategy simulatedGateway oneStrategy_fresh oneStrategy_started twoOrders
    twoOrders_ids,by decide +kernel,by decide +kernel⟩

end Chronos.TradingPipeline
