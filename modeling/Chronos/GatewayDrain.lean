import Chronos.GatewayShutdown

/-!
# The queue while the gateway stops

Tickets are processed in order, and the drain takes every owed ticket in
front of the first half-pushed one.
-/

set_option autoImplicit false

namespace Chronos
open TicketRing OrderGateway CriticalSections

namespace GatewayShutdown
open MpmcQueue (SinglePopper InOrder PopStep)
variable {n : ℕ}

def inFlight : WorkerPlace → List (ℕ × Option OrderRequest)
  | .process _ ticket order => [(ticket,order)]
  | _ => []

def WorkerPlace.draining : WorkerPlace → Bool
  | .popping d => d
  | .process d _ _ => d
  | .top => false
  | .ended => true

def WorkerPlace.isPopping : WorkerPlace → Bool
  | .popping _ => true
  | _ => false

structure QueueSide (s : GatewayShutdown n) : Prop where
  queue : SinglePopper queueCapacity s.queue
  inOrder : InOrder s.queue
  quiet : s.worker.isPopping = false → s.queue.threads 0 = .idle
  history : s.queue.returned = s.processed++inFlight s.worker
  present : ∀ x ∈ inFlight s.worker, x.2.isSome = true
  owed : ∀ q, s.owed q = true → (s.queue.tickets.stage q).isPublished = true
  draining : s.worker.draining = true → s.running = false
  lowered : s.running = false → s.control ≠ .outside ∧ s.control ≠ .stopping
  joined : s.control = .cancelling ∨ s.control = .returned → s.worker = .ended
  /-- The drain left an owed ticket only behind a half-pushed one. -/
  ended : s.worker = .ended → ∀ q, s.owed q = true →
    q < s.queue.tail ∨ ∃ b, s.blocked = some b ∧ b < q

theorem started_queueSide (c : GatewaySetup) : QueueSide (started c n) where
  queue := ⟨MpmcQueue.initial_invariant queueCapacity,fun _ _ => rfl,rfl,by simp [started, MpmcQueue.initial]⟩
  inOrder := rfl
  quiet _ := rfl
  history := rfl
  present _ h := absurd h List.not_mem_nil
  owed _ h := Bool.noConfusion h
  draining h := Bool.noConfusion h
  lowered h := Bool.noConfusion h
  joined h := by rcases h with h | h <;> cases h
  ended h := by cases h

theorem calls_queueSide (s : GatewayShutdown n) (calls : State (n+2) OrderGateway Section)
    (h : QueueSide s) : QueueSide { s with calls := calls } where
  queue := h.queue
  inOrder := h.inOrder
  quiet := h.quiet
  history := h.history
  present := h.present
  owed := h.owed
  draining := h.draining
  lowered := h.lowered
  joined := h.joined
  ended := h.ended

variable (s : GatewayShutdown n)

theorem push_queueSide (thread : ℕ) (order : OrderRequest) (spurious : Bool)
    (hf : MpmcQueue.FewOperations queueCapacity s.queue (pushAction thread order spurious))
    (h : QueueSide s) : QueueSide (s.push thread order spurious) := by
  have hne : (pushAction thread order spurious).thread ≠ 0 := Nat.succ_ne_zero thread
  have hzero := MpmcQueue.step_threads queueCapacity s.queue _ 0 (Ne.symm hne)
  obtain ⟨htail,hreturned,-⟩ := MpmcQueue.push_step queueCapacity s.queue _
    (h.queue.pushers _ hne) order rfl
  constructor
  case queue => exact MpmcQueue.push_singlePopper queueCapacity s.queue _ order hne rfl hf h.queue
  case inOrder => exact MpmcQueue.push_inOrder queueCapacity s.queue _ order hne rfl h.queue h.inOrder
  case quiet => exact fun hw => hzero.trans (h.quiet hw)
  case history => exact hreturned.trans h.history
  case present => exact h.present
  case owed =>
    intro q hq
    exact MpmcQueue.step_published queueCapacity s.queue _ h.queue.invariant q (h.owed q hq)
  case draining => exact h.draining
  case lowered => exact h.lowered
  case joined => exact h.joined
  case ended =>
    intro hw q hq
    show q < (MpmcQueue.step queueCapacity s.queue (pushAction thread order spurious)).tail ∨ _
    rw [htail]
    exact h.ended hw q hq

section Pop
variable (spurious : Bool)

theorem pop_queueSide (d : Bool) (hw : s.worker = .popping d)
    (hf : MpmcQueue.FewOperations queueCapacity s.queue (popAction spurious)) (worker : WorkerPlace)
    (blocked : Option ℕ)
    (hquiet : worker.isPopping = false → (s.popQueue spurious).threads 0 = .idle)
    (hhistory : (s.popQueue spurious).returned = s.queue.returned++inFlight worker)
    (hpresent : ∀ x ∈ inFlight worker, x.2.isSome = true)
    (hdraining : worker.draining = d)
    (hended : worker = .ended → ∀ q, s.owed q = true →
      q < (s.popQueue spurious).tail ∨ ∃ b, blocked = some b ∧ b < q) (h : QueueSide s) :
    QueueSide { s with queue := s.popQueue spurious, worker := worker, blocked := blocked } := by
  have hold := h.history
  rw [hw] at hold
  constructor
  case queue => exact MpmcQueue.pop_singlePopper queueCapacity s.queue spurious hf h.queue
  case inOrder => exact MpmcQueue.pop_inOrder queueCapacity s.queue spurious h.queue h.inOrder
  case quiet => exact hquiet
  case history =>
    refine hhistory.trans ?_
    rw [hold]
    exact congrArg (·++inFlight worker) (List.append_nil s.processed)
  case present => exact hpresent
  case owed =>
    intro q hq
    exact MpmcQueue.step_published queueCapacity s.queue _ h.queue.invariant q (h.owed q hq)
  case draining =>
    intro hd
    exact h.draining (by rw [hw]; exact hdraining.symm.trans hd)
  case lowered => exact h.lowered
  case joined =>
    intro hc
    exact absurd ((h.joined hc).symm.trans hw) (by simp)
  case ended => exact hended

/-- A published ticket behind an unpublished front: the front was taken. -/
theorem halfPushed_front (q : MpmcQueue.State OrderRequest) (hq : SinglePopper queueCapacity q)
    (hfront : (q.tickets.stage q.tail).isPublished = false) (k : ℕ)
    (hk : (q.tickets.stage k).isPublished = true) (hle : q.tail ≤ k) :
    halfPushed q = some q.tail ∧ q.tail < k := by
  have hne : q.tail ≠ k := fun he => by rw [he, hk] at hfront; exact Bool.noConfusion hfront
  have hlt : q.tail < k := lt_of_le_of_ne hle hne
  have hhead : k < q.tickets.head := by
    by_contra hge
    have huntaken := (hq.invariant.sound.untaken k).mpr (not_lt.mp hge)
    rw [huntaken] at hk
    exact Bool.noConfusion hk
  have htaken : q.tickets.stage q.tail ≠ .untaken := by
    intro hu
    have hge := (hq.invariant.sound.untaken q.tail).mp hu
    omega
  refine ⟨?_,hlt⟩
  unfold halfPushed
  revert hfront htaken
  cases q.tickets.stage q.tail <;> simp [Stage.isPublished]

theorem popPart_inside (d : Bool) (io : Surroundings)
    (hplace : ∀ pos order, s.queue.threads 0 ≠ .popStore pos order)
    (hin : MpmcQueue.isPop ((s.popQueue spurious).threads 0) = true) :
    s.popPart d spurious io = { s with queue := s.popQueue spurious } := by
  unfold popPart
  split
  · exact absurd ‹_› (hplace _ _)
  · split
    · rename_i hidle
      rw [hidle] at hin
      exact Bool.noConfusion hin
    · rfl
  · rfl

theorem inside_queueSide (d : Bool) (io : Surroundings) (hw : s.worker = .popping d)
    (hf : MpmcQueue.FewOperations queueCapacity s.queue (popAction spurious))
    (hplace : ∀ pos order, s.queue.threads 0 ≠ .popStore pos order)
    (hin : MpmcQueue.isPop ((s.popQueue spurious).threads 0) = true)
    (hreturned : (s.popQueue spurious).returned = s.queue.returned) (h : QueueSide s) :
    QueueSide (s.popPart d spurious io) := by
  rw [popPart_inside s spurious d io hplace hin]
  refine pop_queueSide s spurious d hw hf s.worker s.blocked ?_ ?_ h.present ?_ ?_ h
  · rw [hw]
    exact fun hq => Bool.noConfusion hq
  · rw [hreturned, hw]
    exact (List.append_nil _).symm
  · rw [hw]
    rfl
  · rw [hw]
    exact fun he => by cases he

theorem popping_queueSide (d : Bool) (io : Surroundings) (hw : s.worker = .popping d)
    (hf : MpmcQueue.FewOperations queueCapacity s.queue (popAction spurious)) (h : QueueSide s) :
    QueueSide (s.popPart d spurious io) := by
  have hstep : PopStep s.queue (s.popQueue spurious) :=
    MpmcQueue.pop_step queueCapacity s.queue spurious h.queue
  have hqueue := MpmcQueue.pop_singlePopper queueCapacity s.queue spurious hf h.queue
  cases hstep with
  | waits source target inside _ tail returned =>
    refine inside_queueSide s spurious d io hw hf ?_ inside returned h
    intro pos order hplace
    rw [hplace] at source
    simp [MpmcQueue.hand] at source
  | givesUp pos place idle unpublished tail returned =>
    have hreturned : (s.popQueue spurious).returned = s.queue.returned++[] :=
      returned.trans (List.append_nil _).symm
    cases d with
    | false =>
      have hpart : s.popPart false spurious io = { s with queue := s.popQueue spurious, worker := .top } := by
        simp [popPart, place, idle]
      rw [hpart]
      exact pop_queueSide s spurious false hw hf .top s.blocked (fun _ => idle) hreturned (by simp [inFlight])
        rfl (fun he => by cases he) h
    | true =>
      have hpart : s.popPart true spurious io = { s with
          queue := s.popQueue spurious, worker := .ended, blocked := halfPushed s.queue } := by
        simp [popPart, place, idle]
      rw [hpart]
      refine pop_queueSide s spurious true hw hf .ended (halfPushed s.queue) (fun _ => idle) hreturned
        (by simp [inFlight]) rfl (fun _ q hq => ?_) h
      rw [tail]
      by_cases hlt : q < s.queue.tail
      · exact Or.inl hlt
      · have hfront := halfPushed_front s.queue h.queue unpublished q (h.owed q hq) (not_lt.mp hlt)
        exact Or.inr ⟨s.queue.tail,hfront⟩
  | claims pos place target tail returned =>
    exact inside_queueSide s spurious d io hw hf (by simp [place]) (by rw [target]; rfl) returned h
  | copies pos order place target tail returned =>
    exact inside_queueSide s spurious d io hw hf (by simp [place]) (by rw [target]; rfl) returned h
  | stores pos order place idle tail returned =>
    have hlast : (pos,order) ∈ (s.popQueue spurious).returned := by rw [returned]; simp
    have hsome := (hqueue.invariant.returns.sound _ hlast).2.1
    have hpart : s.popPart d spurious io = { s with
        queue := s.popQueue spurious
        worker := .process d pos order
        calls := call s.calls GatewayShutdown.io (orderSections s.gateway.toGatewaySetup order io) } := by
      simp only [popPart, place]
    have hside := pop_queueSide s spurious d hw hf (.process d pos order) s.blocked (fun _ => idle) returned
      (fun x hx => by rw [List.mem_singleton.mp hx]; exact hsome) rfl (fun he => by cases he) h
    rw [hpart]
    exact calls_queueSide _ _ hside

end Pop

theorem top_queueSide (hw : s.worker = .top) (h : QueueSide s) :
    QueueSide { s with worker := .popping (!s.running) } where
  queue := h.queue
  inOrder := h.inOrder
  quiet hp := Bool.noConfusion hp
  history := by
    have hold := h.history
    rw [hw] at hold
    exact hold
  present _ hx := absurd hx List.not_mem_nil
  owed := h.owed
  draining hd := by simpa [WorkerPlace.draining] using hd
  lowered := h.lowered
  joined hc := absurd ((h.joined hc).symm.trans hw) (by simp)
  ended he := by cases he

theorem process_queueSide (d : Bool) (ticket : ℕ) (order : Option OrderRequest)
    (hw : s.worker = .process d ticket order) (h : QueueSide s) :
    QueueSide (s.processPart d ticket order) := by
  unfold processPart
  split
  · have hold := h.history
    have hdraining := h.draining
    rw [hw] at hold hdraining
    exact {
      queue := h.queue
      inOrder := h.inOrder
      quiet := fun hp => Bool.noConfusion hp
      history := hold.trans (List.append_nil _).symm
      present := fun _ hx => absurd hx List.not_mem_nil
      owed := h.owed
      draining := hdraining
      lowered := h.lowered
      joined := fun hc => absurd ((h.joined hc).symm.trans hw) (by simp)
      ended := fun he => by cases he }
  · exact calls_queueSide s _ h

theorem worker_queueSide (spurious : Bool) (io : Surroundings) (hok : Promise s (.worker spurious io))
    (h : QueueSide s) : QueueSide (s.workerStep spurious io) := by
  unfold workerStep
  cases hw : s.worker with
  | top => exact top_queueSide s hw h
  | popping d => exact popping_queueSide s spurious d io hw (hok ⟨d,hw⟩) h
  | process d ticket order => exact process_queueSide s d ticket order hw h
  | ended => exact h

theorem control_queueSide (calls : State (n+2) OrderGateway Section) (running : Bool)
    (control : ControlPlace) (owed : ℕ → Bool)
    (howed : ∀ q, owed q = true → (s.queue.tickets.stage q).isPublished = true)
    (hrunning : s.running = false → running = false)
    (hlowered : running = false → control ≠ .outside ∧ control ≠ .stopping)
    (hjoined : control = .cancelling ∨ control = .returned → s.worker = .ended)
    (hended : s.worker = .ended → owed = s.owed) (h : QueueSide s) :
    QueueSide { s with calls := calls, running := running, control := control, owed := owed } where
  queue := h.queue
  inOrder := h.inOrder
  quiet := h.quiet
  history := h.history
  present := h.present
  owed := howed
  draining hd := hrunning (h.draining hd)
  lowered := hlowered
  joined := hjoined
  ended hw q hq := h.ended hw q ((congrFun (hended hw) q).symm.trans hq)

theorem QueueSide.not_ended {s : GatewayShutdown n} (h : QueueSide s) (hc : s.control = .outside) :
    s.worker ≠ .ended := by
  intro hw
  exact (h.lowered (h.draining (by rw [hw]; rfl))).1 hc

theorem stop_queueSide (h : QueueSide s) : QueueSide s.stop := by
  unfold stop
  cases hc : s.control with
  | outside =>
    have hrunning : s.running ≠ false := fun hr => (h.lowered hr).1 hc
    exact control_queueSide s s.calls s.running .stopping _ (fun _ hq => hq) id
      (fun hr => absurd hr hrunning) (by simp) (fun hw => absurd hw (h.not_ended hc)) h
  | stopping =>
    exact control_queueSide s s.calls false .joining s.owed h.owed (fun _ => rfl) (by simp) (by simp)
      (fun _ => rfl) h
  | joining =>
    dsimp only
    split
    · rename_i hended
      exact control_queueSide s _ s.running .cancelling s.owed h.owed id (by simp) (fun _ => hended)
        (fun _ => rfl) h
    · exact h
  | cancelling =>
    have hended := h.joined (Or.inl hc)
    dsimp only
    split
    · exact control_queueSide s s.calls s.running .returned s.owed h.owed id (by simp) (fun _ => hended)
        (fun _ => rfl) h
    · exact control_queueSide s _ s.running .cancelling s.owed h.owed id (by simp) (fun _ => hended)
        (fun _ => rfl) h
  | returned => exact h

theorem step_queueSide (a : Action n) (hok : Promise s a) (h : QueueSide s) : QueueSide (s.step a) := by
  cases a with
  | push thread order spurious => exact push_queueSide s thread order spurious hok h
  | worker spurious io => exact worker_queueSide s spurious io hok h
  | inject i a => exact calls_queueSide s _ h
  | user i => exact calls_queueSide s _ h
  | stop => exact stop_queueSide s h

end GatewayShutdown
end Chronos
