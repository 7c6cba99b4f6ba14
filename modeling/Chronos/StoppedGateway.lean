import Chronos.GatewayDrain

/-!
# What a stopped gateway leaves behind

Once the I/O thread has ended nobody adds an entry to the pending orders, and
each of them waits for a section of `cancelAllPending`. When `stop` returns
none is left.
-/

set_option autoImplicit false

namespace Chronos
open TicketRing OrderGateway CriticalSections KeyedTable OrderEncoding

section Sections

def OrderGateway.Section.Requests : Section → Prop
  | .received | .check _ _ | .note _ _ | .track _ _ => True
  | _ => False

/-- The section will take the entry of the id out, or leads to one that will. -/
def OrderGateway.Section.Dooms (j : ℕ) : Section → Prop
  | .collect => True
  | .look id => id = j
  | .finalize id => id = j
  | _ => False

theorem OrderGateway.cancelPendingSections_dooms (c : GatewaySetup) (id : ℕ) :
    (∃ a ∈ cancelPendingSections c id, a.Dooms id) ∧ ∀ a ∈ cancelPendingSections c id, ¬a.Requests := by
  unfold cancelPendingSections
  split_ifs
  · exact ⟨⟨_,List.mem_singleton_self _,rfl⟩,fun a ha => by rw [List.mem_singleton.mp ha]; exact fun h => h⟩
  · refine ⟨⟨_,List.mem_cons_self,rfl⟩,fun a ha => ?_⟩
    rcases List.mem_pair.mp ha with rfl | rfl <;> exact fun h => h

variable (g : OrderGateway)

namespace OrderGateway

theorem finalize_find (id j : ℕ) : (perform g (.finalize id)).1.pendingOrders.find j =
    if id = j then none else g.pendingOrders.find j := by
  simp only [perform]
  cases hf : g.pendingOrders.find id with
  | none =>
    dsimp only
    split_ifs with hj
    · rw [← hj, hf]
    · rfl
  | some p => exact Table.find_erase g.pendingOrders id j

/-- A section that is not of `processOrder` makes no new entry, and goes on
with none of its sections. -/
theorem perform_others (a : Section) (ha : ¬a.Requests) :
    (∀ j, ((perform g a).1.pendingOrders.find j).isSome = true →
      (g.pendingOrders.find j).isSome = true) ∧ ∀ b ∈ (perform g a).2, ¬b.Requests := by
  cases a with
  | received => exact absurd trivial ha
  | check order io => exact absurd trivial ha
  | note clientOrderId orderId => exact absurd trivial ha
  | track order submitTimeUs => exact absurd trivial ha
  | finalize id =>
    refine ⟨fun j hj => ?_,fun b hb => absurd hb List.not_mem_nil⟩
    rw [finalize_find] at hj
    split_ifs at hj
    · exact Bool.noConfusion hj
    · exact hj
  | ack a =>
    refine ⟨fun j hj => ?_,fun b hb => absurd hb List.not_mem_nil⟩
    have hfind := g.injectOrderAck_find a j
    change ((g.injectOrderAck a).pendingOrders.find j).isSome = true at hj
    rw [hfind, ackEdit] at hj
    cases hf : g.pendingOrders.find a.orderId with
    | none =>
      rw [hf] at hj
      exact hj
    | some p =>
      rw [hf] at hj
      simp only [Edit.find] at hj
      split_ifs at hj with hid
      · rw [← hid, hf]
        rfl
      · exact hj
  | fill f nowUs =>
    simp only [perform]
    cases hf : g.findForFill f.orderId with
    | none => exact ⟨fun j hj => hj,fun b hb => absurd hb List.not_mem_nil⟩
    | some x =>
      obtain ⟨id,p⟩ := x
      have hentry := findForFill_entry g f.orderId id p hf
      constructor
      · intro j hj
        simp only [fillEntry] at hj
        split_ifs at hj
        · rw [Table.find_erase] at hj
          split_ifs at hj
          · exact Bool.noConfusion hj
          · exact hj
        · rw [Table.find_assign] at hj
          split_ifs at hj with hid
          · rw [← hid, hentry]
            rfl
          · exact hj
      · intro b hb
        dsimp only at hb
        split_ifs at hb
        · rcases List.mem_pair.mp hb with rfl | rfl <;> exact fun h => h
        · rw [List.mem_singleton.mp hb]
          exact fun h => h
  | collect =>
    refine ⟨fun j hj => hj,fun b hb => ?_⟩
    obtain ⟨id,-,hb⟩ := List.mem_flatMap.mp hb
    exact (cancelPendingSections_dooms g.toGatewaySetup id).2 b hb
  | look id =>
    simp only [perform]
    cases g.pendingOrders.find id with
    | none => exact ⟨fun j hj => hj,fun b hb => absurd hb List.not_mem_nil⟩
    | some p =>
      refine ⟨fun j hj => hj,fun b hb => ?_⟩
      dsimp only at hb
      split_ifs at hb
      · rcases List.mem_pair.mp hb with rfl | rfl <;> exact fun h => h
      · simp only [List.mem_append, List.mem_cons, List.not_mem_nil, or_false] at hb
        rcases hb with rfl | rfl | rfl <;> exact fun h => h
  | settled o => exact ⟨fun j hj => hj,fun b hb => absurd hb List.not_mem_nil⟩
  | send m => exact ⟨fun j hj => hj,fun b hb => absurd hb List.not_mem_nil⟩
  | callback f => exact ⟨fun j hj => hj,fun b hb => absurd hb List.not_mem_nil⟩
  | fillReceived => exact ⟨fun j hj => hj,fun b hb => absurd hb List.not_mem_nil⟩

/-- An entry that outlives the section it waited for waits for another one. -/
theorem perform_dooms (a : Section) (j : ℕ) (ha : a.Dooms j)
    (hj : ((perform g a).1.pendingOrders.find j).isSome = true) : ∃ b ∈ (perform g a).2, b.Dooms j := by
  cases a with
  | collect =>
    obtain ⟨p,hp⟩ := Option.isSome_iff_exists.mp hj
    have hmem : (j,p) ∈ g.pendingOrders.entries := (Table.find_mem g.pendingOrders j p).mp hp
    obtain ⟨⟨b,hb,hdooms⟩,-⟩ := cancelPendingSections_dooms g.toGatewaySetup j
    exact ⟨b,List.mem_flatMap.mpr ⟨j,List.mem_map_of_mem hmem,hb⟩,hdooms⟩
  | look id =>
    obtain rfl : id = j := ha
    cases hf : g.pendingOrders.find id with
    | none =>
      simp only [perform, hf] at hj
      exact Bool.noConfusion hj
    | some p =>
      rw [perform_look g id p hf]
      exact ⟨.finalize id,List.mem_append_right _ List.mem_cons_self,rfl⟩
  | finalize id =>
    obtain rfl : id = j := ha
    rw [finalize_find, if_pos rfl] at hj
    exact Bool.noConfusion hj
  | _ => exact ha.elim

theorem injected_others (c : GatewaySetup) (a : Action) (ha : a.isRequest = false) :
    ∀ b ∈ a.sections c, ¬b.Requests := by
  cases a with
  | process order io => exact Bool.noConfusion ha
  | ack a => exact fun b hb => by rw [List.mem_singleton.mp hb]; exact id
  | fill f nowUs => exact fun b hb => by rw [List.mem_singleton.mp hb]; exact id
  | reject r => exact fun b hb => by rcases List.mem_pair.mp hb with rfl | rfl <;> exact fun h => h

def unreceived : Section → ℤ
  | .received => 1
  | _ => 0

def receivedCount (g : OrderGateway) : ℤ := g.stats.ordersReceived

theorem unreceived_zero (as : List Section) (h : ∀ a ∈ as, a ≠ .received) : (as.map unreceived).sum = 0 := by
  apply List.sum_eq_zero
  intro x hx
  obtain ⟨a,ha,rfl⟩ := List.mem_map.mp hx
  have hne := h a ha
  cases a <;> first | rfl | exact absurd rfl hne

theorem newSections_unreceived (c : GatewaySetup) (order : OrderRequest) (io : Surroundings) :
    ((newSections c order io).map unreceived).sum = 0 := by
  unfold newSections newLiveSections newSimulatedSections
  split_ifs
  · cases encodeOrderJson (c.symbolIdToName order.symbolId) order io.clientTimeUs with
    | none => rfl
    | some request => cases io.placeResponse <;> rfl
  · rfl
  · rfl

theorem processSections_unreceived (c : GatewaySetup) (order : OrderRequest) (io : Surroundings) :
    ((processSections c order io).map unreceived).sum = 1 := by
  unfold processSections cancelSections
  split_ifs <;> rfl

theorem others_unreceived (as : List Section) (h : ∀ a ∈ as, ¬a.Requests) : (as.map unreceived).sum = 0 :=
  unreceived_zero as (fun a ha he => h a ha (he ▸ trivial))

theorem perform_received :
    Balanced perform (fun _ => True) (fun _ => True) receivedCount unreceived := by
  intro g a _ _
  cases a with
  | received =>
    simp only [perform, receivedCount, OrderGateway.received, unreceived, List.map_nil, List.sum_nil, add_zero]
    push_cast
    rfl
  | settled o => cases o <;> rfl
  | finalize id =>
    simp only [perform]
    cases g.pendingOrders.find id <;> rfl
  | check order io =>
    have hnew := newSections_unreceived g.toGatewaySetup order io
    simp only [perform]
    cases g.pendingOrders.find order.orderId with
    | none => rw [hnew]; rfl
    | some p =>
      dsimp only
      split_ifs
      · rfl
      · rw [hnew]
        rfl
  | ack a =>
    simp only [perform, receivedCount, g.injectOrderAck_stats a]
    rfl
  | fill f nowUs =>
    simp only [perform]
    cases g.findForFill f.orderId with
    | none => rfl
    | some x =>
      dsimp only
      split_ifs <;> rfl
  | collect =>
    have hothers : ((perform g .collect).2.map unreceived).sum = 0 :=
      others_unreceived _ (g.perform_others .collect (fun h => h)).2
    rw [hothers]
    rfl
  | look id =>
    have hothers : ((perform g (.look id)).2.map unreceived).sum = 0 :=
      others_unreceived _ (g.perform_others (.look id) (fun h => h)).2
    rw [hothers]
    simp only [perform]
    cases g.pendingOrders.find id <;> rfl
  | _ => rfl

end OrderGateway
end Sections

namespace GatewayShutdown
variable {n : ℕ}

theorem stopper_ne : (stopper : Fin (n+2)) ≠ io := by simp [stopper, io]

theorem stream_ne_io (i : Fin n) : stream i ≠ io := Fin.succ_ne_zero _

theorem stream_ne_stopper (i : Fin n) : stream i ≠ stopper := by
  intro h
  have hval := congrArg Fin.val h
  simp [stream, stopper] at hval

def WorkerPlace.isProcessing : WorkerPlace → Bool
  | .process _ _ _ => true
  | _ => false

structure CallSide (s : GatewayShutdown n) : Prop where
  others : ∀ i, i ≠ io → ∀ a ∈ s.calls.rest i, ¬a.Requests
  idle : s.worker.isProcessing = false → s.calls.rest io = []
  waiting : s.control ≠ .cancelling → s.calls.rest stopper = []
  doomed : s.control = .cancelling ∨ s.control = .returned →
    ∀ j, (s.gateway.pendingOrders.find j).isSome = true → ∃ a ∈ s.calls.rest stopper, a.Dooms j
  received : total receivedCount unreceived s.calls = s.queue.returned.length

theorem started_callSide (c : GatewaySetup) : CallSide (started c n) where
  others _ _ _ ha := absurd ha List.not_mem_nil
  idle _ := rfl
  waiting _ := rfl
  doomed h := by rcases h with h | h <;> cases h
  received := total_quiet _ (fun _ => rfl)

variable (s : GatewayShutdown n)

theorem advance_received (i : Fin (n+2)) :
    total receivedCount unreceived (advance perform s.calls i) = total receivedCount unreceived s.calls :=
  advance_total perform_received s.calls i ⟨trivial,fun _ _ _ => trivial⟩

theorem advance_others (i : Fin (n+2)) (hi : i ≠ io)
    (h : ∀ j, j ≠ io → ∀ a ∈ s.calls.rest j, ¬a.Requests) :
    (∀ j, j ≠ io → ∀ a ∈ (advance perform s.calls i).rest j, ¬a.Requests) ∧
      ∀ j, ((advance perform s.calls i).shared.pendingOrders.find j).isSome = true →
        (s.gateway.pendingOrders.find j).isSome = true := by
  cases hr : s.calls.rest i with
  | nil =>
    rw [advance_idle perform s.calls i hr]
    exact ⟨h,fun _ hj => hj⟩
  | cons a as =>
    have hall : ∀ b ∈ a::as, ¬b.Requests := hr ▸ h i hi
    obtain ⟨hfind,hmore⟩ := s.gateway.perform_others a (hall a List.mem_cons_self)
    rw [advance_eq perform s.calls i a as hr]
    refine ⟨fun j hj => ?_,hfind⟩
    dsimp only
    by_cases hji : j = i
    · rw [hji, Function.update_self]
      intro b hb
      rcases List.mem_append.mp hb with hb | hb
      · exact hmore b hb
      · exact hall b (List.mem_cons_of_mem a hb)
    · rw [Function.update_of_ne hji]
      exact h j hj

theorem io_callSide (t : GatewayShutdown n)
    (hrest : ∀ i, i ≠ io → t.calls.rest i = s.calls.rest i)
    (hidle : t.worker.isProcessing = false → t.calls.rest io = [])
    (hcontrol : t.control = s.control) (hworker : s.worker ≠ .ended)
    (hreceived : total receivedCount unreceived t.calls = t.queue.returned.length) (hq : QueueSide s)
    (h : CallSide s) : CallSide t where
  others i hi := by
    rw [hrest i hi]
    exact h.others i hi
  idle := hidle
  waiting hc := by
    rw [hrest stopper stopper_ne]
    exact h.waiting (hcontrol ▸ hc)
  doomed hc := absurd (hq.joined (hcontrol ▸ hc)) hworker
  received := hreceived

theorem popping_callSide (d spurious : Bool) (surroundings : Surroundings) (hw : s.worker = .popping d)
    (hq : QueueSide s) (hq' : QueueSide (s.popPart d spurious surroundings)) (h : CallSide s) :
    CallSide (s.popPart d spurious surroundings) := by
  have hstep : MpmcQueue.PopStep s.queue (s.popQueue spurious) :=
    MpmcQueue.pop_step queueCapacity s.queue spurious hq.queue
  have hidle : s.calls.rest io = [] := h.idle (by rw [hw]; rfl)
  have hworker : s.worker ≠ .ended := by rw [hw]; simp
  -- a step that pops nothing leaves the calls alone
  have hsame (worker : WorkerPlace) (blocked : Option ℕ)
      (hreturned : (s.popQueue spurious).returned = s.queue.returned) :
      CallSide { s with queue := s.popQueue spurious, worker := worker, blocked := blocked } := by
    have hreceived : total receivedCount unreceived s.calls = (s.popQueue spurious).returned.length := by
      rw [hreturned]
      exact h.received
    exact io_callSide s _ (fun _ _ => rfl) (fun _ => hidle) rfl hworker hreceived hq h
  cases hstep with
  | waits source target inside _ tail returned =>
    have hplace : ∀ pos order, s.queue.threads 0 ≠ .popStore pos order := by
      intro pos order hplace
      rw [hplace] at source
      simp [MpmcQueue.hand] at source
    rw [popPart_inside s spurious d surroundings hplace inside]
    exact hsame s.worker s.blocked returned
  | givesUp pos place idle unpublished tail returned =>
    simp only [popPart, place, idle]
    split_ifs
    · exact hsame .ended _ returned
    · exact hsame .top s.blocked returned
  | claims pos place target tail returned =>
    rw [popPart_inside s spurious d surroundings (by simp [place]) (by rw [target]; rfl)]
    exact hsame s.worker s.blocked returned
  | copies pos order place target tail returned =>
    rw [popPart_inside s spurious d surroundings (by simp [place]) (by rw [target]; rfl)]
    exact hsame s.worker s.blocked returned
  | stores pos order place idle tail returned =>
    have hpart : s.popPart d spurious surroundings = { s with
        queue := s.popQueue spurious
        worker := .process d pos order
        calls := call s.calls io (orderSections s.gateway.toGatewaySetup order surroundings) } := by
      simp only [popPart, place]
    rw [hpart] at hq' ⊢
    obtain ⟨request,rfl⟩ := Option.isSome_iff_exists.mp (hq'.present (pos,order) List.mem_cons_self)
    have hreceived : total receivedCount unreceived (call s.calls io
        (processSections s.gateway.toGatewaySetup request surroundings)) =
          (s.popQueue spurious).returned.length := by
      rw [call_total s.calls io _ hidle, processSections_unreceived, h.received, returned, List.length_append]
      exact (Nat.cast_add _ _).symm
    exact io_callSide s _ (fun i hi => call_rest s.calls io i _ hi) (fun hp => Bool.noConfusion hp) rfl hworker
      hreceived hq h

theorem process_callSide (d : Bool) (ticket : ℕ) (order : Option OrderRequest)
    (hw : s.worker = .process d ticket order) (hq : QueueSide s) (h : CallSide s) :
    CallSide (s.processPart d ticket order) := by
  have hworker : s.worker ≠ .ended := by rw [hw]; simp
  unfold processPart
  split
  · rename_i hidle
    exact io_callSide s _ (fun _ _ => rfl) (fun _ => hidle) rfl hworker h.received hq h
  · exact io_callSide s _ (fun i hi => advance_rest perform s.calls io i hi)
      (fun hp => by simp [hw, WorkerPlace.isProcessing] at hp) rfl hworker
      ((advance_received s io).trans h.received) hq h

theorem worker_callSide (spurious : Bool) (surroundings : Surroundings)
    (hok : Promise s (.worker spurious surroundings)) (hq : QueueSide s) (h : CallSide s) :
    CallSide (s.workerStep spurious surroundings) := by
  have hq' := worker_queueSide s spurious surroundings hok hq
  unfold workerStep at hq' ⊢
  cases hw : s.worker with
  | top =>
    exact io_callSide s _ (fun _ _ => rfl) (fun _ => h.idle (by rw [hw]; rfl)) rfl (by rw [hw]; simp)
      h.received hq h
  | popping d =>
    rw [hw] at hq'
    exact popping_callSide s d spurious surroundings hw hq hq' h
  | process d ticket order => exact process_callSide s d ticket order hw hq h
  | ended => exact h

theorem inject_callSide (i : Fin n) (a : OrderGateway.Action) (hok : Promise s (.inject i a))
    (h : CallSide s) :
    CallSide { s with calls := call s.calls (stream i) (a.sections s.gateway.toGatewaySetup) } := by
  obtain ⟨ha,hidle⟩ := hok
  have hothers := injected_others s.gateway.toGatewaySetup a ha
  have hsame (j : Fin (n+2)) (hj : j ≠ stream i) :=
    call_rest s.calls (stream i) j (a.sections s.gateway.toGatewaySetup) hj
  constructor
  case others =>
    intro j hj
    by_cases hji : j = stream i
    · rw [hji]
      exact (call_self s.calls (stream i) _).symm ▸ hothers
    · exact (hsame j hji).symm ▸ h.others j hj
  case idle => exact fun hw => (hsame io (stream_ne_io i).symm).trans (h.idle hw)
  case waiting => exact fun hc => (hsame stopper (stream_ne_stopper i).symm).trans (h.waiting hc)
  case doomed =>
    intro hc j hj
    dsimp only
    rw [hsame stopper (stream_ne_stopper i).symm]
    exact h.doomed hc j hj
  case received =>
    dsimp only
    rw [call_total s.calls (stream i) _ hidle, others_unreceived _ hothers, add_zero]
    exact h.received

theorem user_callSide (i : Fin n) (h : CallSide s) :
    CallSide { s with calls := advance perform s.calls (stream i) } := by
  obtain ⟨hothers,hfind⟩ := advance_others s (stream i) (stream_ne_io i) h.others
  have hsame (j : Fin (n+2)) (hj : j ≠ stream i) := advance_rest perform s.calls (stream i) j hj
  constructor
  case others => exact hothers
  case idle => exact fun hw => (hsame io (stream_ne_io i).symm).trans (h.idle hw)
  case waiting => exact fun hc => (hsame stopper (stream_ne_stopper i).symm).trans (h.waiting hc)
  case doomed =>
    intro hc j hj
    dsimp only
    rw [hsame stopper (stream_ne_stopper i).symm]
    exact h.doomed hc j (hfind j hj)
  case received => exact (advance_received s (stream i)).trans h.received

/-- A turn of the cancellation: what the section did not take out waits on. -/
theorem cancel_callSide (hc : s.control = .cancelling) (h : CallSide s) :
    CallSide { s with calls := advance perform s.calls stopper } := by
  obtain ⟨hothers,-⟩ := advance_others s stopper stopper_ne h.others
  constructor
  case others => exact hothers
  case idle => exact fun hw => (advance_rest perform s.calls stopper io stopper_ne.symm).trans (h.idle hw)
  case waiting => exact fun hne => absurd hc hne
  case doomed =>
    intro _ j hj
    dsimp only [gateway] at hj ⊢
    cases hr : s.calls.rest stopper with
    | nil =>
      rw [advance_idle perform s.calls stopper hr] at hj ⊢
      exact h.doomed (Or.inl hc) j hj
    | cons a as =>
      have hold := (s.gateway.perform_others a (h.others stopper stopper_ne a (by rw [hr]; exact List.mem_cons_self))).1
      rw [advance_eq perform s.calls stopper a as hr] at hj ⊢
      obtain ⟨b,hb,hdooms⟩ := h.doomed (Or.inl hc) j (hold j hj)
      rw [hr] at hb
      dsimp only
      rw [Function.update_self]
      rcases List.mem_cons.mp hb with rfl | hb
      · obtain ⟨b',hb',hdooms'⟩ := s.gateway.perform_dooms b j hdooms hj
        exact ⟨b',List.mem_append_left as hb',hdooms'⟩
      · exact ⟨b,List.mem_append_right _ hb,hdooms⟩
  case received => exact (advance_received s stopper).trans h.received

theorem stop_callSide (h : CallSide s) : CallSide s.stop := by
  unfold stop
  cases hc : s.control with
  | outside =>
    exact ⟨h.others,h.idle,fun _ => h.waiting (by rw [hc]; simp),fun hd => by simp at hd,h.received⟩
  | stopping =>
    exact ⟨h.others,h.idle,fun _ => h.waiting (by rw [hc]; simp),fun hd => by simp at hd,h.received⟩
  | joining =>
    dsimp only
    split
    · have hidle := h.waiting (by rw [hc]; simp)
      constructor
      case others =>
        intro j hj
        by_cases hjs : j = stopper
        · rw [hjs]
          refine (call_self s.calls stopper _).symm ▸ fun a ha => ?_
          rw [List.mem_singleton.mp ha]
          exact fun h => h
        · exact (call_rest s.calls stopper j _ hjs).symm ▸ h.others j hj
      case idle => exact fun hw => (call_rest s.calls stopper io _ stopper_ne.symm).trans (h.idle hw)
      case waiting => exact fun hne => absurd rfl hne
      case doomed =>
        intro _ j _
        exact ⟨.collect,(call_self s.calls stopper _).symm ▸ List.mem_singleton_self _,trivial⟩
      case received => exact (call_total s.calls stopper _ hidle).trans ((add_zero _).trans h.received)
    · exact h
  | cancelling =>
    dsimp only
    split
    · rename_i hidle
      exact ⟨h.others,h.idle,fun _ => hidle,fun _ => h.doomed (Or.inl hc),h.received⟩
    · have hcancel := cancel_callSide s hc h
      rw [hc] at hcancel
      exact hcancel
  | returned => exact h

theorem step_callSide (a : Action n) (hok : Promise s a) (hq : QueueSide s) (h : CallSide s) :
    CallSide (s.step a) := by
  cases a with
  | push thread order spurious =>
    have hne : (pushAction thread order spurious).thread ≠ 0 := Nat.succ_ne_zero thread
    obtain ⟨-,hreturned,-⟩ := MpmcQueue.push_step queueCapacity s.queue _
      (hq.queue.pushers _ hne) order rfl
    exact ⟨h.others,h.idle,h.waiting,h.doomed,h.received.trans (congrArg _ (congrArg List.length hreturned.symm))⟩
  | worker spurious surroundings => exact worker_callSide s spurious surroundings hok hq h
  | inject i a => exact inject_callSide s i a hok h
  | user i => exact user_callSide s i h
  | stop => exact stop_callSide s h

/-- After `stop` nothing is pending. The orders were processed in queue order,
each owed one once with the value that was pushed, unless the drain met a
half-pushed ticket in front of it. -/
structure Stopped (s : GatewayShutdown n) : Prop where
  nothingPending : ∀ j, s.gateway.pendingOrders.find j = none
  once : ∀ q, s.owed q = true →
    (∃ order, s.queue.pushed[q]? = some order ∧
      s.processed.filter (fun x => x.1 = q) = [(q,some order)]) ∨ ∃ b, s.blocked = some b ∧ b < q
  inOrder : s.processed.map Prod.fst = List.range s.processed.length
  received : s.gateway.stats.ordersReceived = s.processed.length

section Results
variable {s} (hq : QueueSide s) (h : CallSide s)
include hq

theorem QueueSide.processed_inOrder : s.processed.map Prod.fst = List.range s.processed.length := by
  have horder : ∃ k, s.queue.returned.map Prod.fst = List.range k := by
    have hqueue := hq.inOrder
    unfold MpmcQueue.InOrder at hqueue
    split at hqueue
    · exact ⟨_,hqueue⟩
    · exact ⟨_,hqueue.2⟩
  obtain ⟨k,hk⟩ := horder
  rw [hq.history, List.map_append] at hk
  have hprefix := ZMQBridge.prefix_of_range _ _ k hk
  rwa [List.length_map] at hprefix

theorem QueueSide.processed_eq (hended : s.worker = .ended) : s.processed = s.queue.returned := by
  rw [hq.history, hended]
  exact (List.append_nil _).symm

theorem QueueSide.processed_once (hended : s.worker = .ended) (q : ℕ) (howed : s.owed q = true) :
    (∃ order, s.queue.pushed[q]? = some order ∧
      s.processed.filter (fun x => x.1 = q) = [(q,some order)]) ∨ ∃ b, s.blocked = some b ∧ b < q := by
  rcases hq.ended hended q howed with hlt | hblocked
  · left
    rw [hq.processed_eq hended]
    exact MpmcQueue.returned_of_claimed queueCapacity s.queue hq.queue
      (hq.quiet (by rw [hended]; rfl)) q hlt
  · exact Or.inr hblocked

include h in
theorem CallSide.all_received (hended : s.worker = .ended) :
    s.gateway.stats.ordersReceived = s.processed.length := by
  have hdebt : ∀ i ∈ Finset.univ, debt unreceived s.calls i = 0 := by
    intro i _
    by_cases hi : i = io
    · have hidle : s.calls.rest i = [] := hi ▸ h.idle (by rw [hended]; rfl)
      rw [debt, hidle]
      rfl
    · exact others_unreceived _ (h.others i hi)
  have hreceived := h.received
  rw [total, Finset.sum_eq_zero hdebt, add_zero, ← hq.processed_eq hended] at hreceived
  exact Int.ofNat.inj hreceived

include h in
theorem CallSide.stopped (hreturned : s.control = .returned) : Stopped s := by
  have hended := hq.joined (Or.inr hreturned)
  have hidle := h.waiting (by rw [hreturned]; simp)
  refine ⟨fun j => ?_,hq.processed_once hended,hq.processed_inOrder,h.all_received hq hended⟩
  rw [← Option.not_isSome_iff_eq_none]
  intro hj
  obtain ⟨a,ha,-⟩ := h.doomed (Or.inr hreturned) j hj
  rw [hidle] at ha
  exact List.not_mem_nil ha

end Results

theorem stop_settles (c : GatewaySetup) (actions : List (Action n))
    (hok : Schedule.Allowed step Promise actions (started c n))
    (hreturned : (Schedule.run step actions (started c n)).control = .returned) :
    Stopped (Schedule.run step actions (started c n)) := by
  have hsides := Schedule.invariant step Promise (fun s : GatewayShutdown n => QueueSide s ∧ CallSide s)
    (fun s a ha hs => ⟨step_queueSide s a ha hs.1,step_callSide s a ha hs.1 hs.2⟩) actions (started c n) hok
    ⟨started_queueSide c,started_callSide c⟩
  exact hsides.2.stopped hsides.1 hreturned

section Examples

theorem step_few (s : GatewayShutdown n) (a : Action n) : (s.step a).queue.begun ≤ s.queue.begun+1 := by
  cases a with
  | push thread order spurious => exact MpmcQueue.step_begun queueCapacity s.queue _
  | worker spurious surroundings =>
    have hpop : (s.popQueue spurious).begun ≤ s.queue.begun+1 :=
      MpmcQueue.step_begun queueCapacity s.queue (popAction spurious)
    simp only [step, workerStep, popPart, processPart]
    split
    · exact Nat.le_succ _
    · split
      · exact hpop
      · split
        · split_ifs <;> exact hpop
        · exact hpop
      · exact hpop
    · split <;> exact Nat.le_succ _
    · exact Nat.le_succ _
  | inject i a => exact Nat.le_succ _
  | user i => exact Nat.le_succ _
  | stop =>
    simp only [step, stop]
    split
    · exact Nat.le_succ _
    · exact Nat.le_succ _
    · split <;> exact Nat.le_succ _
    · split <;> exact Nat.le_succ _
    · exact Nat.le_succ _

theorem allowed_of_few (actions : List (Action 0)) (s : GatewayShutdown 0)
    (hfew : s.queue.begun+actions.length < 2^62) : Schedule.Allowed step Promise actions s := by
  induction actions generalizing s with
  | nil => trivial
  | cons a actions ih =>
    rw [List.length_cons] at hfew
    have hstep := step_few s a
    refine ⟨?_,ih (s.step a) (by omega)⟩
    cases a with
    | push thread order spurious =>
      exact lt_of_le_of_lt (MpmcQueue.step_begun queueCapacity s.queue _) (by omega)
    | worker spurious surroundings =>
      exact fun _ => lt_of_le_of_lt (MpmcQueue.step_begun queueCapacity s.queue _) (by omega)
    | inject i a => exact i.elim0
    | user i => trivial
    | stop => trivial

def stopAsleep : List (Action 0) :=
  List.replicate 6 (.push 0 buyRequest false)++[.stop,.stop]++
    List.replicate 20 (.worker false { placeResponse := .placed (some 900) none })++
    List.replicate 8 .stop

theorem stopAsleep_settles :
    (Schedule.run step stopAsleep (started binanceGateway.toGatewaySetup 0)).gateway.sends.length = 2 ∧
    Stopped (Schedule.run step stopAsleep (started binanceGateway.toGatewaySetup 0)) :=
  ⟨by decide +kernel,stop_settles binanceGateway.toGatewaySetup stopAsleep
    (allowed_of_few stopAsleep _ (by decide)) (by decide +kernel)⟩

end Examples
end GatewayShutdown
end Chronos
