import Chronos.ZMQBridge
import Chronos.SinglePopper

/-!
# Events published before the end

The publisher thread claims the tickets in order, sends what it claims and
counts what it sends. When it ends with nothing published left unclaimed, and
nothing is published afterwards, the sent events are the accepted ones.
-/

set_option autoImplicit false

namespace Chronos
open TicketRing

namespace ZMQBridge
open MpmcQueue (SinglePopper InOrder PopStep)

def inFlight : WorkerPlace → List (ℕ × Option Message)
  | .send ticket ev => [(ticket,ev.map message)]
  | _ => []

def toMessages (returned : List (ℕ × Option Event)) : List (ℕ × Option Message) :=
  returned.map (fun x => (x.1,x.2.map message))

structure Invariant (s : ZMQBridge) : Prop where
  queue : SinglePopper queueCapacity s.queue
  inOrder : InOrder s.queue
  quiet : s.worker ≠ .popping → s.queue.threads 0 = .idle
  history : toMessages s.queue.returned = s.sent++inFlight s.worker
  present : ∀ ticket ev, s.worker = .send ticket ev → ev.isSome = true
  counted : s.ticksPub+s.ordersPub+s.fillsPub = s.sent.length
  accepted : ∀ q, q ∈ s.accepted ↔ (s.queue.tickets.stage q).isPublished = true
  distinct : s.accepted.Nodup
  owed : ∀ q ∈ s.owed, q ∈ s.accepted
  /-- An ended thread left nothing behind. -/
  ended : s.worker = .ended → ∀ q, (s.queue.tickets.stage q).isPublished = true → q < s.queue.tail
  returned : s.control = .returned → s.worker = .ended

theorem initial_invariant : Invariant {} where
  queue := ⟨MpmcQueue.initial_invariant queueCapacity,fun _ _ => rfl,rfl,by simp [MpmcQueue.initial]⟩
  inOrder := rfl
  quiet _ := rfl
  history := rfl
  present _ _ h := by cases h
  counted := rfl
  accepted q := by simp [MpmcQueue.initial, Stage.isPublished]
  distinct := List.nodup_nil
  owed _ h := by cases h
  ended h := by cases h
  returned h := by cases h

section Publish
variable (s : ZMQBridge) (thread : ℕ) (ev : Event) (spurious : Bool)

theorem publish_shape :
    ∃ more dropped, s.publish thread ev spurious = { s with
        queue := MpmcQueue.step queueCapacity s.queue (pushAction thread ev spurious)
        accepted := s.accepted++more
        dropped := dropped } ∧
      more.Nodup ∧ ∀ q, q ∈ more ↔ s.queue.threads (thread+1) = .pushStore q := by
  unfold publish
  split
  · rename_i pos hplace
    exact ⟨[pos],s.dropped,rfl,List.nodup_singleton pos,by simp [hplace, eq_comm]⟩
  · rename_i val pos hplace
    dsimp only
    split
    · exact ⟨[],s.dropped+1,by simp,List.nodup_nil,by simp [hplace]⟩
    · exact ⟨[],s.dropped,by simp,List.nodup_nil,by simp [hplace]⟩
  · rename_i hno _
    exact ⟨[],s.dropped,by simp,List.nodup_nil,fun q => by simpa using hno q⟩

theorem publish_invariant
    (hf : MpmcQueue.FewOperations queueCapacity s.queue (pushAction thread ev spurious))
    (hend : s.worker = .ended → ∀ pos, s.queue.threads (thread+1) ≠ .pushStore pos)
    (h : Invariant s) : Invariant (s.publish thread ev spurious) := by
  have hne : (pushAction thread ev spurious).thread ≠ 0 := Nat.succ_ne_zero thread
  have hzero := MpmcQueue.step_threads queueCapacity s.queue _ 0 (Ne.symm hne)
  have hpublished := MpmcQueue.step_published_iff queueCapacity s.queue
    (pushAction thread ev spurious) h.queue.invariant
  obtain ⟨htail,hreturned,-⟩ := MpmcQueue.push_step queueCapacity s.queue _
    (h.queue.pushers _ hne) ev rfl
  obtain ⟨more,dropped,hshape,hnodup,hmore⟩ := publish_shape s thread ev spurious
  rw [hshape]
  constructor
  case queue => exact MpmcQueue.push_singlePopper queueCapacity s.queue _ ev hne rfl hf h.queue
  case inOrder => exact MpmcQueue.push_inOrder queueCapacity s.queue _ ev hne rfl h.queue h.inOrder
  case quiet =>
    intro hworker
    exact hzero.trans (h.quiet hworker)
  case history => exact (congrArg toMessages hreturned).trans h.history
  case present => exact h.present
  case counted => exact h.counted
  case accepted =>
    intro q
    rw [List.mem_append, h.accepted, hmore]
    exact (hpublished q).symm
  case distinct =>
    refine List.nodup_append'.mpr ⟨h.distinct,hnodup,?_⟩
    intro q hq hstore
    have hstage := h.queue.invariant.hands.owns (thread+1) q .written (by rw [(hmore q).mp hstore]; rfl)
    rw [h.accepted, hstage] at hq
    exact Bool.noConfusion hq
  case owed => exact fun q hq => List.mem_append_left more (h.owed q hq)
  case ended =>
    intro hworker q hq
    dsimp only at hq ⊢
    rw [htail]
    rcases (hpublished q).mp hq with hold | hstore
    · exact h.ended hworker q hold
    · exact absurd hstore (hend hworker q)
  case returned => exact h.returned

end Publish

section Worker
variable (s : ZMQBridge) (spurious : Bool)

theorem top_invariant (hw : s.worker = .top)
    (hleft : s.running = false → ∀ q, (s.queue.tickets.stage q).isPublished = true → q < s.queue.tail)
    (h : Invariant s) :
    Invariant { s with worker := if s.running then .popping else .ended } := by
  have hidle := h.quiet (by simp [hw])
  have hhistory := h.history
  rw [hw] at hhistory
  constructor
  case queue => exact h.queue
  case inOrder => exact h.inOrder
  case quiet => exact fun _ => hidle
  case history =>
    refine hhistory.trans ?_
    dsimp only
    split_ifs <;> rfl
  case present =>
    intro ticket ev
    dsimp only
    split_ifs <;> simp
  case counted => exact h.counted
  case accepted => exact h.accepted
  case distinct => exact h.distinct
  case owed => exact h.owed
  case ended =>
    dsimp only
    split_ifs with hr
    · simp
    · exact fun _ => hleft (by simpa using hr)
  case returned =>
    intro hr
    exact absurd ((h.returned hr).symm.trans hw) (by simp)

theorem send_invariant (ticket : ℕ) (ev : Option Event) (hw : s.worker = .send ticket ev)
    (h : Invariant s) : Invariant (s.sendPart ticket ev) := by
  have hidle := h.quiet (by simp [hw])
  have hhistory := h.history
  rw [hw] at hhistory
  obtain ⟨e,rfl⟩ := Option.isSome_iff_exists.mp (h.present ticket ev hw)
  have hcount : (s.count (some e)).ticksPub+(s.count (some e)).ordersPub+(s.count (some e)).fillsPub =
      s.sent.length+1 := by
    rw [← h.counted]
    cases e <;> simp only [count] <;> omega
  obtain ⟨ticksPub,ordersPub,fillsPub,hshape⟩ : ∃ ticksPub ordersPub fillsPub,
      s.count (some e) =
        { s with ticksPub := ticksPub, ordersPub := ordersPub, fillsPub := fillsPub } := by
    cases e <;> exact ⟨_,_,_,rfl⟩
  rw [hshape] at hcount
  rw [sendPart, hshape]
  constructor
  case queue => exact h.queue
  case inOrder => exact h.inOrder
  case quiet => exact fun _ => hidle
  case history => exact hhistory.trans (List.append_nil _).symm
  case present => simp
  case counted =>
    dsimp only at hcount ⊢
    rw [hcount, List.length_append, List.length_singleton]
  case accepted => exact h.accepted
  case distinct => exact h.distinct
  case owed => exact h.owed
  case ended => simp
  case returned =>
    intro hr
    exact absurd ((h.returned hr).symm.trans hw) (by simp)

theorem pop_invariant (hw : s.worker = .popping)
    (hf : MpmcQueue.FewOperations queueCapacity s.queue (popAction spurious)) (worker : WorkerPlace)
    (hquiet : worker ≠ .popping → (s.popQueue spurious).threads 0 = .idle)
    (hhistory : toMessages (s.popQueue spurious).returned =
      toMessages s.queue.returned++inFlight worker)
    (hpresent : ∀ ticket ev, worker = .send ticket ev → ev.isSome = true)
    (hend : worker ≠ .ended) (h : Invariant s) :
    Invariant { s with queue := s.popQueue spurious, worker := worker } := by
  have hpublished := MpmcQueue.step_published_iff queueCapacity s.queue (popAction spurious)
    h.queue.invariant
  have hplace : ∀ q, s.queue.threads 0 ≠ .pushStore q := by
    intro q hq
    have hpopper := h.queue.popper
    rw [hq] at hpopper
    exact Bool.noConfusion hpopper
  have hold := h.history
  rw [hw] at hold
  constructor
  case queue => exact MpmcQueue.pop_singlePopper queueCapacity s.queue spurious hf h.queue
  case inOrder => exact MpmcQueue.pop_inOrder queueCapacity s.queue spurious h.queue h.inOrder
  case quiet => exact hquiet
  case history =>
    refine hhistory.trans ?_
    rw [hold]
    exact congrArg (·++inFlight worker) (List.append_nil s.sent)
  case present => exact hpresent
  case counted => exact h.counted
  case accepted =>
    intro q
    rw [h.accepted]
    exact ((hpublished q).trans (or_iff_left (hplace q))).symm
  case distinct => exact h.distinct
  case owed => exact h.owed
  case ended => exact fun he => absurd he hend
  case returned =>
    intro hr
    exact absurd ((h.returned hr).symm.trans hw) (by simp)

theorem popPart_inside (hplace : ∀ pos ev, s.queue.threads 0 ≠ .popStore pos ev)
    (hin : MpmcQueue.isPop ((s.popQueue spurious).threads 0) = true) :
    s.popPart spurious = { s with queue := s.popQueue spurious } := by
  unfold popPart
  split
  · exact absurd ‹_› (hplace _ _)
  · split
    · rename_i hidle
      rw [hidle] at hin
      exact Bool.noConfusion hin
    · rfl
  · rfl

theorem inside_invariant (hw : s.worker = .popping)
    (hf : MpmcQueue.FewOperations queueCapacity s.queue (popAction spurious))
    (hplace : ∀ pos ev, s.queue.threads 0 ≠ .popStore pos ev)
    (hin : MpmcQueue.isPop ((s.popQueue spurious).threads 0) = true)
    (hreturned : (s.popQueue spurious).returned = s.queue.returned) (h : Invariant s) :
    Invariant (s.popPart spurious) := by
  rw [popPart_inside s spurious hplace hin]
  refine pop_invariant s spurious hw hf s.worker (fun hne => absurd hw hne) ?_ h.present ?_ h
  · rw [hreturned, hw]
    exact (List.append_nil _).symm
  · rw [hw]
    simp

theorem popping_invariant (hw : s.worker = .popping)
    (hf : MpmcQueue.FewOperations queueCapacity s.queue (popAction spurious)) (h : Invariant s) :
    Invariant (s.popPart spurious) := by
  have hstep : PopStep s.queue (s.popQueue spurious) :=
    MpmcQueue.pop_step queueCapacity s.queue spurious h.queue
  have hqueue := MpmcQueue.pop_singlePopper queueCapacity s.queue spurious hf h.queue
  cases hstep with
  | waits source target inside _ tail returned =>
    refine inside_invariant s spurious hw hf ?_ inside returned h
    intro pos ev hplace
    rw [hplace] at source
    simp [MpmcQueue.hand] at source
  | givesUp pos place idle unpublished tail returned =>
    have hpart : s.popPart spurious = { s with queue := s.popQueue spurious, worker := .top } := by
      simp only [popPart, place, idle]
    rw [hpart]
    refine pop_invariant s spurious hw hf .top (fun _ => idle) ?_ (by simp) (by simp) h
    rw [returned]
    exact (List.append_nil _).symm
  | claims pos place target tail returned =>
    exact inside_invariant s spurious hw hf (by simp [place]) (by rw [target]; rfl) returned h
  | copies pos ev place target tail returned =>
    exact inside_invariant s spurious hw hf (by simp [place]) (by rw [target]; rfl) returned h
  | stores pos ev place idle tail returned =>
    have hpart : s.popPart spurious = { s with queue := s.popQueue spurious, worker := .send pos ev } := by
      simp only [popPart, place]
    rw [hpart]
    refine pop_invariant s spurious hw hf (.send pos ev) (fun _ => idle) ?_ ?_ (by simp) h
    · rw [returned, toMessages, List.map_append]
      rfl
    · intro ticket ev' he
      cases he
      have hlast : (pos,ev) ∈ (s.popQueue spurious).returned := by rw [returned]; simp
      exact (hqueue.invariant.returns.sound _ hlast).2.1

theorem worker_invariant (hok : Orderly s (.worker spurious)) (h : Invariant s) :
    Invariant (s.workerStep spurious) := by
  unfold workerStep
  cases hw : s.worker with
  | top => exact top_invariant s hw (hok.2 hw) h
  | popping => exact popping_invariant s spurious hw (hok.1 hw) h
  | send ticket ev => exact send_invariant s ticket ev hw h
  | ended => exact h

end Worker

section Run
variable (s : ZMQBridge)

theorem control_invariant (running : Bool) (control : ControlPlace) (owed : List ℕ)
    (howed : ∀ q ∈ owed, q ∈ s.accepted) (hreturned : control = .returned → s.worker = .ended)
    (h : Invariant s) :
    Invariant { s with running := running, control := control, owed := owed } where
  queue := h.queue
  inOrder := h.inOrder
  quiet := h.quiet
  history := h.history
  present := h.present
  counted := h.counted
  accepted := h.accepted
  distinct := h.distinct
  owed := howed
  ended := h.ended
  returned := hreturned

theorem stop_invariant (h : Invariant s) : Invariant s.stop := by
  unfold stop
  cases hc : s.control with
  | outside => exact control_invariant s s.running .stopping s.accepted (fun _ hq => hq) (by simp) h
  | stopping => exact control_invariant s false .joining s.owed h.owed (by simp) h
  | joining =>
    dsimp only
    split
    · rename_i hended
      exact control_invariant s s.running .returned s.owed h.owed (fun _ => hended) h
    · exact h
  | returned => exact h

theorem orderly_step_invariant (a : Action) (hok : Orderly s a) (h : Invariant s) :
    Invariant (s.step a) := by
  cases a with
  | publish thread ev spurious =>
    simp only [step]
    split_ifs
    · exact h
    · exact publish_invariant s thread ev spurious hok.1 hok.2 h
  | worker spurious => exact worker_invariant s spurious hok h
  | stop => exact stop_invariant s h

end Run

/-- When `stop` has returned, every event accepted before the call was sent
once, what was sent is in queue order, and the counters together are the
number of accepted events. -/
structure NothingLost (s : ZMQBridge) : Prop where
  once : s.control = .returned → ∀ q ∈ s.owed, ∃ ev, s.queue.pushed[q]? = some ev ∧
    s.sent.filter (fun x => x.1 = q) = [(q,some (message ev))]
  inOrder : s.sent.map Prod.fst = List.range s.sent.length
  counted : s.control = .returned → s.ticksPub+s.ordersPub+s.fillsPub = s.accepted.length

theorem prefix_of_range (l m : List ℕ) (n : ℕ) (h : l++m = List.range n) : l = List.range l.length := by
  have hle : l.length ≤ n := by
    have hlength := congrArg List.length h
    rw [List.length_append, List.length_range] at hlength
    omega
  calc
    l = (l++m).take l.length := (List.take_left' rfl).symm
    _ = List.range l.length := by rw [h, List.take_range, Nat.min_eq_left hle]

section Results
variable {s : ZMQBridge} (h : Invariant s)
include h

theorem Invariant.sent_inOrder : s.sent.map Prod.fst = List.range s.sent.length := by
  have horder : ∃ n, s.queue.returned.map Prod.fst = List.range n := by
    have hqueue := h.inOrder
    unfold InOrder at hqueue
    split at hqueue
    · exact ⟨_,hqueue⟩
    · exact ⟨_,hqueue.2⟩
  obtain ⟨n,hn⟩ := horder
  have hkeys : (toMessages s.queue.returned).map Prod.fst = s.queue.returned.map Prod.fst := by
    rw [toMessages, List.map_map]
    rfl
  rw [h.history, List.map_append, hn] at hkeys
  have hprefix := prefix_of_range _ _ n hkeys
  rwa [List.length_map] at hprefix

theorem Invariant.sent_eq (hended : s.worker = .ended) : s.sent = toMessages s.queue.returned := by
  rw [h.history, hended]
  exact (List.append_nil _).symm

theorem Invariant.accepted_iff (hended : s.worker = .ended) (q : ℕ) :
    q ∈ s.accepted ↔ q < s.queue.tail := by
  rw [h.accepted]
  refine ⟨h.ended hended q,fun hq => ?_⟩
  rw [h.queue.invariant.memory.tail] at hq
  have hclaimed := (h.queue.invariant.sound.claimed q).mpr hq
  revert hclaimed
  cases s.queue.tickets.stage q <;> simp [Stage.isClaimed, Stage.isPublished]

theorem Invariant.counts_accepted (hended : s.worker = .ended) :
    s.ticksPub+s.ordersPub+s.fillsPub = s.accepted.length := by
  have hidle := h.quiet (by simp [hended])
  have horder := h.inOrder
  rw [InOrder, hidle] at horder
  have hreturned : s.queue.returned.length = s.queue.tail := by
    have hlength := congrArg List.length horder
    rwa [List.length_map, List.length_range] at hlength
  have hperm : s.accepted.Perm (List.range s.queue.tail) :=
    (List.perm_ext_iff_of_nodup h.distinct List.nodup_range).mpr
      (fun q => by rw [h.accepted_iff hended, List.mem_range])
  rw [h.counted, h.sent_eq hended, toMessages, List.length_map, hreturned, hperm.length_eq,
    List.length_range]

theorem Invariant.nothingLost : NothingLost s := by
  refine ⟨fun hr q hq => ?_,h.sent_inOrder,fun hr => h.counts_accepted (h.returned hr)⟩
  have hended := h.returned hr
  have hidle := h.quiet (by simp [hended])
  obtain ⟨ev,hpushed,honce⟩ := MpmcQueue.returned_of_claimed queueCapacity s.queue h.queue hidle q
    ((h.accepted_iff hended q).mp (h.owed q hq))
  refine ⟨ev,hpushed,?_⟩
  rw [h.sent_eq hended, toMessages, List.filter_map]
  exact congrArg toMessages honce

end Results

/-- In every orderly run nothing accepted is lost. -/
theorem orderly_published (actions : List Action) (hok : Schedule.Allowed step Orderly actions {}) :
    NothingLost (Schedule.run step actions {}) :=
  (Schedule.invariant step Orderly Invariant orderly_step_invariant actions {} hok
    initial_invariant).nothingLost

section Examples

/-- While the flag is up and nobody stops the bridge, only the number of
operations counts. -/
theorem allowed_of_few (actions : List Action) (s : ZMQBridge) (hstop : ∀ a ∈ actions, a ≠ Action.stop)
    (hrunning : s.running = true) (hworker : s.worker ≠ .ended)
    (hfew : s.queue.begun+actions.length < 2^62) : Schedule.Allowed step Orderly actions s := by
  induction actions generalizing s with
  | nil => trivial
  | cons a actions ih =>
    rw [List.length_cons] at hfew
    have hrest := fun b hb => hstop b (List.mem_cons_of_mem a hb)
    cases a with
    | publish thread ev spurious =>
      have hbegun := MpmcQueue.step_begun queueCapacity s.queue (pushAction thread ev spurious)
      obtain ⟨more,dropped,hshape,-⟩ := publish_shape s thread ev spurious
      refine ⟨⟨lt_of_le_of_lt hbegun (by omega),fun he => absurd he hworker⟩,?_⟩
      simp only [step]
      split_ifs
      · exact ih s hrest hrunning hworker (by omega)
      · rw [hshape]
        exact ih _ hrest hrunning hworker (by dsimp only; omega)
    | worker spurious =>
      have hbegun := MpmcQueue.step_begun queueCapacity s.queue (popAction spurious)
      have hpop : (s.popQueue spurious).begun+actions.length < 2^62 := by
        have hle : (s.popQueue spurious).begun ≤ s.queue.begun+1 := hbegun
        omega
      refine ⟨⟨fun _ => lt_of_le_of_lt hbegun (by omega),fun _ hr => ?_⟩,?_⟩
      · rw [hrunning] at hr
        exact Bool.noConfusion hr
      · change Schedule.Allowed step Orderly actions (s.workerStep spurious)
        unfold workerStep
        cases hw : s.worker with
        | top => exact ih _ hrest hrunning (by simp [hrunning]) (by dsimp only; omega)
        | popping =>
          dsimp only [popPart]
          split
          · exact ih _ hrest hrunning (by simp) hpop
          · split
            · exact ih _ hrest hrunning (by simp) hpop
            · exact ih _ hrest hrunning hworker hpop
          · exact ih _ hrest hrunning hworker hpop
        | send ticket ev =>
          refine ih _ hrest ?_ (by simp [sendPart]) ?_
          · cases ev with
            | none => exact hrunning
            | some ev => cases ev <;> exact hrunning
          · cases ev with
            | none => exact lt_of_le_of_lt (Nat.add_le_add_left (Nat.le_succ _) _) hfew
            | some ev =>
              cases ev <;> exact lt_of_le_of_lt (Nat.add_le_add_left (Nat.le_succ _) _) hfew
        | ended => exact absurd hw hworker
    | stop => exact absurd rfl (hstop .stop List.mem_cons_self)

def publishOne : List Action := List.replicate 6 (Action.publish 0 (.tick {}) false)

def stopAsleep : List Action := publishOne++[Action.stop,Action.stop,Action.worker false,Action.stop]

theorem stopAsleep_loses : ¬NothingLost (Schedule.run step stopAsleep {}) := by
  have hstate : (Schedule.run step stopAsleep {}).control = .returned ∧
      (Schedule.run step stopAsleep {}).owed = [0] ∧
      (Schedule.run step stopAsleep {}).sent.length = 0 := by decide +kernel
  obtain ⟨hreturned,howed,hnone⟩ := hstate
  intro h
  obtain ⟨ev,-,honce⟩ := h.once hreturned 0 (by rw [howed]; simp)
  rw [List.eq_nil_of_length_eq_zero hnone] at honce
  exact absurd honce (by simp)

def beforeStop : List Action := publishOne++List.replicate 11 (Action.worker false)

def stopInTime : List Action := beforeStop++[Action.stop,Action.stop,Action.worker false,Action.stop]

theorem stopAwake_allowed : Schedule.Allowed step Orderly stopInTime {} := by
  have hbefore := allowed_of_few beforeStop {} (by simp [beforeStop, publishOne]) rfl (by simp) (by decide)
  have hinv := Schedule.invariant step Orderly Invariant orderly_step_invariant beforeStop {} hbefore
    initial_invariant
  have hstate : (Schedule.run step beforeStop {}).accepted = [0] ∧
      (Schedule.run step beforeStop {}).queue.tail = 1 := by decide +kernel
  refine (Schedule.allowed_append step Orderly beforeStop _ _).mpr
    ⟨hbefore,trivial,trivial,⟨?_,?_⟩,trivial,trivial⟩
  · intro _
    decide +kernel
  · intro _ _ q hq
    have haccepted := (hinv.accepted q).mpr hq
    rw [hstate.1, List.mem_singleton] at haccepted
    change q < (Schedule.run step beforeStop {}).queue.tail
    rw [hstate.2, haccepted]
    exact Nat.one_pos

theorem stopInTime_publishes : (Schedule.run step stopInTime {}).control = .returned ∧
    (Schedule.run step stopInTime {}).owed = [0] ∧ NothingLost (Schedule.run step stopInTime {}) :=
  ⟨by decide +kernel,by decide +kernel,orderly_published stopInTime stopAwake_allowed⟩

end Examples
end ZMQBridge
end Chronos
