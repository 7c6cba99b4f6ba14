import Chronos.EngineShutdown
import Chronos.SinglePopper

/-!
# Fills at shutdown

What the pops returned is what was applied, and the fill about to be applied.
The tickets are claimed in order by the dispatch thread alone. After the flag
is down it claims one ticket at most, so nothing owed is lost when the flag
is lowered with at most the ticket in front still to be claimed and the turn's
pop still to come.
-/

set_option autoImplicit false

namespace Chronos
open TicketRing

namespace EngineShutdown
open MpmcQueue (SinglePopper PopStep)
variable [NearestDivision.NearestDiv]

def applyFills (start : PositionManager) (fills : List (ℕ × Option (Fill Decimal))) : PositionManager :=
  fills.foldl (fun positions x => (positions.updatePosition (x.2.getD {})).1) start

def inFlight : WorkerPlace → List (ℕ × Option (Fill Decimal))
  | .apply ticket fill => [(ticket,fill)]
  | _ => []

structure Invariant (start : PositionManager) (s : EngineShutdown) : Prop where
  queue : SinglePopper fillCapacity s.fillQueue
  quiet : (∀ didWork, s.worker ≠ .popping didWork) → s.fillQueue.threads 0 = .idle
  history : s.fillQueue.returned = s.applied++inFlight s.worker
  positions : s.engine.ctx.positionManager = applyFills start s.applied
  absent : s.running = false → s.control ≠ .joining → s.worker = .absent
  down : s.control = .joining ∨ s.control = .returned → s.running = false
  published : ∀ q, s.owed q = true → (s.fillQueue.tickets.stage q).isPublished = true
  /-- While `stop` waits, an owed ticket is claimed or will be. -/
  awaited : s.control = .joining → ∀ q, s.owed q = true → Taken s q
  settled : s.control = .returned → ∀ q, s.owed q = true → q < s.fillQueue.tail

section Steps
variable (start : PositionManager) (s : EngineShutdown)

theorem push_invariant (thread : ℕ) (fill : Fill Decimal) (spurious : Bool)
    (hf : MpmcQueue.FewOperations fillCapacity s.fillQueue (pushAction thread fill spurious))
    (h : Invariant start s) : Invariant start (s.step (.push thread fill spurious)) := by
  have hne : (pushAction thread fill spurious).thread ≠ 0 := Nat.succ_ne_zero thread
  have hzero := MpmcQueue.step_threads fillCapacity s.fillQueue _ 0 (Ne.symm hne)
  obtain ⟨htail,hreturned,-⟩ := MpmcQueue.push_step fillCapacity s.fillQueue _
    (h.queue.pushers _ hne) fill rfl
  constructor
  case queue => exact MpmcQueue.push_singlePopper fillCapacity s.fillQueue _ fill hne rfl hf h.queue
  case quiet =>
    intro hworker
    exact hzero.trans (h.quiet hworker)
  case history => exact hreturned.trans h.history
  case positions => exact h.positions
  case absent => exact h.absent
  case down => exact h.down
  case published =>
    intro q hq
    exact MpmcQueue.step_published fillCapacity s.fillQueue _ h.queue.invariant q (h.published q hq)
  case awaited =>
    intro hj q hq
    have htaken := h.awaited hj q hq
    simp only [Taken, WillPop, step, htail, hzero] at htaken ⊢
    exact htaken
  case settled =>
    intro hr q hq
    exact lt_of_lt_of_eq (h.settled hr q hq) htail.symm

structure WorkerMove (s s' : EngineShutdown) : Prop where
  present : s.worker ≠ .absent
  running : s'.running = s.running
  control : s'.control = s.control
  owed : s'.owed = s.owed
  queue : SinglePopper fillCapacity s'.fillQueue
  quiet : (∀ didWork, s'.worker ≠ .popping didWork) → s'.fillQueue.threads 0 = .idle
  history : s'.fillQueue.returned = s'.applied++inFlight s'.worker
  positions : s'.engine.ctx.positionManager = applyFills start s'.applied
  published : ∀ q, (s.fillQueue.tickets.stage q).isPublished = true →
    (s'.fillQueue.tickets.stage q).isPublished = true
  taken : ∀ q, (s.fillQueue.tickets.stage q).isPublished = true → Taken s q → Taken s' q

theorem workerMove_invariant (s' : EngineShutdown) (hm : WorkerMove start s s')
    (h : Invariant start s) : Invariant start s' := by
  -- a dispatch thread that moves is there, so `stop` has not returned
  have hreturned : s.control ≠ .returned := fun hr =>
    hm.present (h.absent (h.down (Or.inr hr)) (by rw [hr]; decide))
  constructor
  case queue => exact hm.queue
  case quiet => exact hm.quiet
  case history => exact hm.history
  case positions => exact hm.positions
  case absent =>
    rw [hm.running, hm.control]
    exact fun hr hj => absurd (h.absent hr hj) hm.present
  case down =>
    rw [hm.running, hm.control]
    exact h.down
  case published =>
    rw [hm.owed]
    exact fun q hq => hm.published q (h.published q hq)
  case awaited =>
    rw [hm.owed, hm.control]
    exact fun hj q hq => hm.taken q (h.published q hq) (h.awaited hj q hq)
  case settled =>
    rw [hm.control]
    exact fun hr => absurd hr hreturned

omit [NearestDivision.NearestDiv] in
theorem taken_of_not_willPop (h : ¬WillPop s) (q : ℕ) (hq : Taken s q) : q < s.fillQueue.tail := by
  rcases hq with hlt | ⟨-,hw⟩
  · exact hlt
  · exact absurd hw h

/-- What the steps outside the pop have in common. -/
theorem outside_move (hpresent : s.worker ≠ .absent)
    (hpopping : ∀ didWork, s.worker ≠ .popping didWork) (engine : StrategyEngine)
    (worker : WorkerPlace) (applied : List (ℕ × Option (Fill Decimal)))
    (hhistory : s.applied++inFlight s.worker = applied++inFlight worker)
    (hpos : engine.ctx.positionManager = applyFills start applied)
    (htaken : ∀ q, Taken s q →
      Taken { s with engine := engine, worker := worker, applied := applied } q)
    (h : Invariant start s) :
    WorkerMove start s { s with engine := engine, worker := worker, applied := applied } where
  present := hpresent
  running := rfl
  control := rfl
  owed := rfl
  queue := h.queue
  quiet _ := h.quiet hpopping
  history := h.history.trans hhistory
  positions := hpos
  published _ hq := hq
  taken q _ hq := htaken q hq

theorem top_move (hw : s.worker = .top) (h : Invariant start s) (input : WorkerInput) :
    WorkerMove start s (s.workerStep input) := by
  have hstep : s.workerStep input = { s with worker := if s.running then .ticks else .ended } := by
    rw [workerStep, hw]
  have hnext : inFlight (if s.running then WorkerPlace.ticks else WorkerPlace.ended) = [] := by
    split_ifs <;> rfl
  rw [hstep]
  refine outside_move start s (by simp [hw]) (by simp [hw]) s.engine _ s.applied ?_ h.positions ?_ h
  · rw [hnext, hw]
    rfl
  · exact fun q hq => Or.inl (taken_of_not_willPop s (by simp [WillPop, hw]) q hq)

theorem ticks_move (hw : s.worker = .ticks) (h : Invariant start s) (input : WorkerInput) :
    WorkerMove start s (s.workerStep input) := by
  have hidle := h.quiet (by simp [hw])
  obtain ⟨engine,didWork,hstep,hpos⟩ : ∃ (engine : StrategyEngine) (didWork : Bool),
      s.workerStep input = { s with engine := engine, worker := .popping didWork } ∧
        engine.ctx.positionManager = s.engine.ctx.positionManager := by
    rw [workerStep, hw]
    dsimp only [tickPart]
    split
    · exact ⟨s.engine,false,rfl,rfl⟩
    · exact ⟨_,true,rfl,StrategyEngine.processTick_positions _ _ _⟩
  rw [hstep]
  refine outside_move start s (by simp [hw]) (by simp [hw]) engine (.popping didWork) s.applied ?_
    (hpos.trans h.positions) ?_ h
  · rw [hw]
    rfl
  · rintro q (hlt | ⟨he,-⟩)
    · exact Or.inl hlt
    · exact Or.inr ⟨he,Or.inr ⟨⟨didWork,rfl⟩,by simp only [hidle]; rfl⟩⟩

theorem apply_move (ticket : ℕ) (fill : Option (Fill Decimal)) (hw : s.worker = .apply ticket fill)
    (h : Invariant start s) (input : WorkerInput) : WorkerMove start s (s.workerStep input) := by
  have hstep : s.workerStep input = s.applyPart ticket fill input := by rw [workerStep, hw]
  have hfill := StrategyEngine.processFill_positions s.engine (fill.getD {}) input.responses
  rw [hstep, applyPart]
  refine outside_move start s (by simp [hw]) (by simp [hw]) _ .top _ ?_ ?_ ?_ h
  · rw [hw]
    exact (List.append_nil _).symm
  · rw [hfill, h.positions, applyFills, applyFills, List.foldl_append]
    rfl
  · exact fun q hq => Or.inl (taken_of_not_willPop s (by simp [WillPop, hw]) q hq)

end Steps

section Pop
variable (start : PositionManager) (s : EngineShutdown) (didWork : Bool) (input : WorkerInput)

theorem popQueue_step (h : Invariant start s) : PopStep s.fillQueue (s.popQueue input) :=
  MpmcQueue.pop_step fillCapacity s.fillQueue input.spurious h.queue

theorem pop_move (hw : s.worker = .popping didWork)
    (hf : MpmcQueue.FewOperations fillCapacity s.fillQueue (popAction input.spurious))
    (engine : StrategyEngine) (worker : WorkerPlace)
    (hquiet : (∀ didWork, worker ≠ .popping didWork) → (s.popQueue input).threads 0 = .idle)
    (hreturned : (s.popQueue input).returned = s.fillQueue.returned++inFlight worker)
    (hpos : engine.ctx.positionManager = s.engine.ctx.positionManager)
    (htaken : ∀ q, (s.fillQueue.tickets.stage q).isPublished = true → Taken s q →
      Taken { s with fillQueue := s.popQueue input, engine := engine, worker := worker } q)
    (h : Invariant start s) :
    WorkerMove start s
      { s with fillQueue := s.popQueue input, engine := engine, worker := worker } := by
  have hhistory := h.history
  rw [hw] at hhistory
  constructor
  case present => simp [hw]
  case running => rfl
  case control => rfl
  case owed => rfl
  case queue => exact MpmcQueue.pop_singlePopper fillCapacity s.fillQueue input.spurious hf h.queue
  case quiet => exact hquiet
  case history =>
    rw [hreturned, hhistory]
    exact congrArg (·++inFlight worker) (List.append_nil s.applied)
  case positions => exact hpos.trans h.positions
  case published => exact MpmcQueue.step_published fillCapacity s.fillQueue _ h.queue.invariant
  case taken => exact htaken

theorem popPart_inside (hplace : ∀ pos val, s.fillQueue.threads 0 ≠ .popStore pos val)
    (hin : MpmcQueue.isPop ((s.popQueue input).threads 0) = true) :
    s.popPart didWork input = { s with fillQueue := s.popQueue input } := by
  have hidle : ∀ p : MpmcQueue.Place (Fill Decimal), MpmcQueue.isPop p = true → isIdle p = false := by
    intro p hp
    cases p <;> first | rfl | exact Bool.noConfusion hp
  unfold popPart
  split
  · exact absurd ‹_› (hplace _ _)
  · rw [hidle _ hin]
    rfl
  · rfl

theorem inside_move (hw : s.worker = .popping didWork)
    (hf : MpmcQueue.FewOperations fillCapacity s.fillQueue (popAction input.spurious))
    (hplace : ∀ pos val, s.fillQueue.threads 0 ≠ .popStore pos val)
    (hin : MpmcQueue.isPop ((s.popQueue input).threads 0) = true)
    (hreturned : (s.popQueue input).returned = s.fillQueue.returned)
    (htaken : ∀ q, Taken s q → q < (s.popQueue input).tail ∨
      q = (s.popQueue input).tail ∧ MpmcQueue.hand ((s.popQueue input).threads 0) = none)
    (h : Invariant start s) : WorkerMove start s (s.popPart didWork input) := by
  rw [popPart_inside s didWork input hplace hin]
  refine pop_move start s didWork input hw hf s.engine s.worker ?_ ?_ rfl ?_ h
  · exact fun hne => absurd hw (hne didWork)
  · rw [hreturned, hw]
    exact (List.append_nil _).symm
  · intro q _ hq
    rcases htaken q hq with hlt | ⟨he,hhand⟩
    · exact Or.inl hlt
    · exact Or.inr ⟨he,Or.inr ⟨⟨didWork,hw⟩,hhand⟩⟩

/-- The pop returned false: the ticket in front is not published. -/
theorem givesUp_move (hw : s.worker = .popping didWork)
    (hf : MpmcQueue.FewOperations fillCapacity s.fillQueue (popAction input.spurious)) (pos : ℕ)
    (hplace : s.fillQueue.threads 0 = .popSeq pos) (hidle : (s.popQueue input).threads 0 = .idle)
    (hempty : (s.fillQueue.tickets.stage s.fillQueue.tail).isPublished = false)
    (htail : (s.popQueue input).tail = s.fillQueue.tail)
    (hreturned : (s.popQueue input).returned = s.fillQueue.returned) (h : Invariant start s) :
    WorkerMove start s (s.popPart didWork input) := by
  have hstep : s.popPart didWork input =
      popFailed { s with fillQueue := s.popQueue input } didWork input := by
    rw [popPart, hplace]
    dsimp only
    rw [hidle]
    rfl
  rw [hstep, popFailed]
  refine pop_move start s didWork input hw hf _ .top (fun _ => hidle) ?_ ?_ ?_ h
  · rw [hreturned]
    exact (List.append_nil _).symm
  · dsimp only
    split_ifs
    · exact StrategyEngine.idleTimer_positions _ _
    · rfl
  · intro q hpub hq
    rcases hq with hlt | ⟨rfl,-⟩
    · exact Or.inl (lt_of_lt_of_eq hlt htail.symm)
    · rw [hempty] at hpub
      exact Bool.noConfusion hpub

theorem stores_move (hw : s.worker = .popping didWork)
    (hf : MpmcQueue.FewOperations fillCapacity s.fillQueue (popAction input.spurious)) (pos : ℕ)
    (val : Option (Fill Decimal)) (hplace : s.fillQueue.threads 0 = .popStore pos val)
    (hidle : (s.popQueue input).threads 0 = .idle)
    (htail : (s.popQueue input).tail = s.fillQueue.tail)
    (hreturned : (s.popQueue input).returned = s.fillQueue.returned++[(pos,val)])
    (h : Invariant start s) : WorkerMove start s (s.popPart didWork input) := by
  rw [popPart, hplace]
  refine pop_move start s didWork input hw hf s.engine (.apply pos val) (fun _ => hidle) hreturned
    rfl ?_ h
  intro q _ hq
  refine Or.inl (lt_of_lt_of_eq (taken_of_not_willPop s ?_ q hq) htail.symm)
  simp [WillPop, hw, hplace, MpmcQueue.hand]

theorem popping_move (hw : s.worker = .popping didWork)
    (hf : MpmcQueue.FewOperations fillCapacity s.fillQueue (popAction input.spurious))
    (h : Invariant start s) : WorkerMove start s (s.workerStep input) := by
  have hstep : s.workerStep input = s.popPart didWork input := by rw [workerStep, hw]
  rw [hstep]
  cases popQueue_step start s input h with
  | waits source target inside front tail returned =>
    refine inside_move start s didWork input hw hf ?_ inside returned ?_ h
    · intro pos val hplace
      rw [hplace] at source
      simp [MpmcQueue.hand] at source
    · rintro q (hlt | ⟨he,-⟩)
      · exact Or.inl (by rw [tail]; exact hlt)
      · exact Or.inr ⟨by rw [tail]; exact he,target⟩
  | givesUp pos place idle unpublished tail returned =>
    exact givesUp_move start s didWork input hw hf pos place idle unpublished tail returned h
  | claims pos place target tail returned =>
    refine inside_move start s didWork input hw hf (by simp [place]) (by rw [target]; rfl) returned ?_ h
    rintro q (hlt | ⟨he,-⟩)
    · exact Or.inl (by omega)
    · exact Or.inl (by omega)
  | copies pos val place target tail returned =>
    refine inside_move start s didWork input hw hf (by simp [place]) (by rw [target]; rfl) returned ?_ h
    intro q hq
    have hlt := taken_of_not_willPop s (by simp [WillPop, hw, place, MpmcQueue.hand]) q hq
    exact Or.inl (by rw [tail]; exact hlt)
  | stores pos val place idle tail returned =>
    exact stores_move start s didWork input hw hf pos val place idle tail returned h

end Pop

section Run
variable (start : PositionManager) (s : EngineShutdown)

theorem worker_invariant (input : WorkerInput) (hok : Orderly s (.worker input))
    (h : Invariant start s) : Invariant start (s.step (.worker input)) := by
  change Invariant start (s.workerStep input)
  cases hw : s.worker with
  | absent =>
    rw [workerStep, hw]
    exact h
  | top => exact workerMove_invariant start s _ (top_move start s hw h input) h
  | ticks => exact workerMove_invariant start s _ (ticks_move start s hw h input) h
  | popping didWork =>
    exact workerMove_invariant start s _
      (popping_move start s didWork input hw (hok ⟨didWork,hw⟩) h) h
  | apply ticket fill =>
    exact workerMove_invariant start s _ (apply_move start s ticket fill hw h input) h
  | ended =>
    rw [workerStep, hw]
    exact h

theorem start_invariant (h : Invariant start s) : Invariant start s.start := by
  unfold EngineShutdown.start
  split_ifs with hrunning hjoining
  · exact h
  · exact h
  have habsent := h.absent (by simpa using hrunning) hjoining
  have hhistory := h.history
  rw [habsent] at hhistory
  constructor
  case queue => exact h.queue
  case quiet => exact fun _ => h.quiet (by simp [habsent])
  case history => exact hhistory
  case positions => exact h.positions
  case absent => exact fun hr => Bool.noConfusion hr
  case down => simp
  case published => exact h.published
  case awaited => simp
  case settled => simp

theorem call_invariant (hj : s.control ≠ .joining)
    (hwaiting : s.running = false → ∀ q, (s.fillQueue.tickets.stage q).isPublished = true →
      q < s.fillQueue.tail) (h : Invariant start s) :
    Invariant start { s with
      owed := fun q => (s.fillQueue.tickets.stage q).isPublished
      control := if s.running then .stopping else .returned } := by
  constructor
  case queue => exact h.queue
  case quiet => exact h.quiet
  case history => exact h.history
  case positions => exact h.positions
  case absent => exact fun hr _ => h.absent hr hj
  case down =>
    dsimp only
    split_ifs with hr
    · simp
    · exact fun _ => by simpa using hr
  case published => exact fun _ hq => hq
  case awaited =>
    dsimp only
    split_ifs <;> simp
  case settled =>
    dsimp only
    split_ifs with hr
    · simp
    · exact fun _ => hwaiting (by simpa using hr)

theorem lower_invariant (htaken : ∀ q, s.owed q = true → Taken s q) (h : Invariant start s) :
    Invariant start { s with running := false, control := .joining } := by
  constructor
  case queue => exact h.queue
  case quiet => exact h.quiet
  case history => exact h.history
  case positions => exact h.positions
  case absent => simp
  case down => simp
  case published => exact h.published
  case awaited => exact fun _ => htaken
  case settled => simp

/-- The join: the dispatch thread has ended, so what it took was applied. -/
theorem join_invariant (hj : s.control = .joining) (hw : s.worker = .ended) (h : Invariant start s) :
    Invariant start { s with worker := .absent, control := .returned } := by
  have hhistory := h.history
  rw [hw] at hhistory
  constructor
  case queue => exact h.queue
  case quiet => exact fun _ => h.quiet (by simp [hw])
  case history => exact hhistory
  case positions => exact h.positions
  case absent => simp
  case down => exact fun _ => h.down (Or.inl hj)
  case published => exact h.published
  case awaited => simp
  case settled =>
    intro _ q hq
    exact taken_of_not_willPop s (by simp [WillPop, hw]) q (h.awaited hj q hq)

theorem stop_invariant (hok : Orderly s .stop) (h : Invariant start s) : Invariant start s.stop := by
  unfold stop
  cases hc : s.control with
  | outside => exact call_invariant start s (by simp [hc]) (by simpa [Orderly, hc] using hok) h
  | returned => exact call_invariant start s (by simp [hc]) (by simpa [Orderly, hc] using hok) h
  | stopping => exact lower_invariant start s (by simpa [Orderly, hc] using hok) h
  | joining =>
    cases hw : s.worker with
    | ended => exact join_invariant start s hc hw h
    | absent => exact h
    | top => exact h
    | ticks => exact h
    | popping didWork => exact h
    | apply ticket fill => exact h

theorem orderly_step_invariant (a : Action) (hok : Orderly s a) (h : Invariant start s) :
    Invariant start (s.step a) := by
  cases a with
  | push thread fill spurious => exact push_invariant start s thread fill spurious hok h
  | worker input => exact worker_invariant start s input hok h
  | start => exact start_invariant start s h
  | stop => exact stop_invariant start s hok h

theorem step_begun (a : Action) : (s.step a).fillQueue.begun ≤ s.fillQueue.begun+1 := by
  cases a with
  | push thread fill spurious => exact MpmcQueue.step_begun fillCapacity s.fillQueue _
  | worker input =>
    have hpop : (s.popQueue input).begun ≤ s.fillQueue.begun+1 :=
      MpmcQueue.step_begun fillCapacity s.fillQueue _
    simp only [step, workerStep]
    split
    case h_3 =>
      unfold tickPart
      split <;> exact Nat.le_succ _
    case h_4 =>
      unfold popPart
      split
      · exact hpop
      · split_ifs <;> exact hpop
      · exact hpop
    all_goals exact Nat.le_succ _
  | start =>
    simp only [step, EngineShutdown.start]
    split_ifs <;> exact Nat.le_succ _
  | stop =>
    simp only [step, stop]
    split
    · exact Nat.le_succ _
    · split <;> exact Nat.le_succ _
    · exact Nat.le_succ _

theorem allowed_of_few (actions : List Action) (hstop : ∀ a ∈ actions, a ≠ Action.stop)
    (hfew : s.fillQueue.begun+actions.length < 2^62) : Schedule.Allowed step Orderly actions s := by
  induction actions generalizing s with
  | nil => trivial
  | cons a actions ih =>
    rw [List.length_cons] at hfew
    have hbegun := step_begun s a
    refine ⟨?_,ih (s.step a) (fun b hb => hstop b (List.mem_cons_of_mem a hb)) (by omega)⟩
    cases a with
    | push thread fill spurious => exact lt_of_le_of_lt hbegun (by omega)
    | worker input =>
      have hpop := MpmcQueue.step_begun fillCapacity s.fillQueue (popAction input.spurious)
      exact fun _ => lt_of_le_of_lt hpop (by omega)
    | start => trivial
    | stop => exact absurd rfl (hstop .stop List.mem_cons_self)

end Run

theorem initial_invariant (engine : StrategyEngine) :
    Invariant engine.ctx.positionManager (initial engine) where
  queue := ⟨MpmcQueue.initial_invariant fillCapacity,fun _ _ => rfl,rfl,by simp [initial, MpmcQueue.initial]⟩
  quiet _ := rfl
  history := rfl
  positions := rfl
  absent _ _ := rfl
  down h := by simp [initial] at h
  published _ h := Bool.noConfusion h
  awaited h := by simp [initial] at h
  settled h := by simp [initial] at h

/-- When `stop` has returned, every fill whose push had returned before the
call was applied, with its value and once, and the positions are the start's
with the applied fills. -/
structure NothingLost (engine : StrategyEngine) (s : EngineShutdown) : Prop where
  once : s.control = .returned → ∀ q, s.owed q = true →
    ∃ fill, s.fillQueue.pushed[q]? = some fill ∧
      s.applied.filter (fun x => x.1 = q) = [(q,some fill)]
  positions : s.engine.ctx.positionManager = applyFills engine.ctx.positionManager s.applied

/-- In every orderly run, no fill is lost at any `stop`. -/
theorem orderly_nothingLost (engine : StrategyEngine) (actions : List Action)
    (hok : Schedule.Allowed step Orderly actions (initial engine)) :
    NothingLost engine (Schedule.run step actions (initial engine)) := by
  have h := Schedule.invariant step Orderly (Invariant engine.ctx.positionManager)
    (fun s a => orderly_step_invariant _ s a) actions _ hok (initial_invariant engine)
  refine ⟨fun hr q hq => ?_,h.positions⟩
  have habsent := h.absent (h.down (Or.inr hr)) (by rw [hr]; decide)
  have hidle := h.quiet (by simp [habsent])
  have hhistory : (Schedule.run step actions (initial engine)).fillQueue.returned =
      (Schedule.run step actions (initial engine)).applied :=
    h.history.trans (by rw [habsent]; exact List.append_nil _)
  rw [← hhistory]
  exact MpmcQueue.returned_of_claimed fillCapacity _ h.queue hidle q (h.settled hr q hq)

theorem Invariant.below_head {start : PositionManager} {s : EngineShutdown} (h : Invariant start s)
    (q : ℕ) (hq : (s.fillQueue.tickets.stage q).isPublished = true) : q < s.fillQueue.tickets.head := by
  by_contra hc
  rw [(h.queue.invariant.sound.untaken q).mpr (not_lt.mp hc)] at hq
  exact Bool.noConfusion hq

end EngineShutdown

namespace EngineShutdown

def boughtFill : Fill Decimal :=
  { symbolId := 1, side := .buy, fillPrice := .ofInt 1, fillQuantity := .ofInt 1 }

def pushBought : List Action := List.replicate 6 (Action.push 0 boughtFill false)

def idleEngine : StrategyEngine := StrategyEngine.new { riskEngine := RiskEngine.initial } []

def stopAtOnce : List Action :=
  pushBought++[Action.start,Action.stop,Action.stop,Action.worker {},Action.stop]

/-- The loop finds the flag down before its first turn, and the fill stays in the queue. -/
theorem stopAtOnce_loses : ¬NothingLost idleEngine (Schedule.run step stopAtOnce (initial idleEngine)) := by
  have hstate : (Schedule.run step stopAtOnce (initial idleEngine)).control = .returned ∧
      (Schedule.run step stopAtOnce (initial idleEngine)).owed 0 = true ∧
      (Schedule.run step stopAtOnce (initial idleEngine)).applied.length = 0 := by decide +kernel
  obtain ⟨hreturned,howed,hnone⟩ := hstate
  intro h
  obtain ⟨fill,-,honce⟩ := h.once hreturned 0 howed
  rw [List.eq_nil_of_length_eq_zero hnone] at honce
  exact absurd honce (by simp)

def beforeStop : List Action := pushBought++[Action.start,Action.worker {},Action.worker {}]

def afterStop : List Action := List.replicate 8 (Action.worker {})

def stopInTime : List Action := beforeStop++([Action.stop,Action.stop]++(afterStop++[Action.stop]))

theorem beforeStop_taken (q : ℕ)
    (hq : ((Schedule.run step beforeStop (initial idleEngine)).fillQueue.tickets.stage q).isPublished = true) :
    Taken ((Schedule.run step beforeStop (initial idleEngine)).step .stop) q := by
  have hallowed := allowed_of_few (initial idleEngine) beforeStop (by simp [beforeStop, pushBought])
    (by decide)
  have hinv := Schedule.invariant step Orderly (Invariant idleEngine.ctx.positionManager)
    (fun s a => orderly_step_invariant _ s a) beforeStop _ hallowed (initial_invariant idleEngine)
  have hlt := hinv.below_head q hq
  have hhead : (Schedule.run step beforeStop (initial idleEngine)).fillQueue.tickets.head = 1 := by
    decide +kernel
  obtain rfl : q = 0 := by omega
  exact Or.inr ⟨by decide +kernel,Or.inr ⟨⟨false,rfl⟩,rfl⟩⟩

theorem stopInTime_allowed : Schedule.Allowed step Orderly stopInTime (initial idleEngine) := by
  refine (Schedule.allowed_append step Orderly beforeStop _ _).mpr ⟨?_,?_,?_,?_⟩
  · exact allowed_of_few _ _ (by simp [beforeStop, pushBought]) (by decide)
  · intro hdown
    exact absurd hdown (by decide +kernel)
  · exact beforeStop_taken
  · refine (Schedule.allowed_append step Orderly afterStop _ _).mpr ⟨?_,?_,trivial⟩
    · exact allowed_of_few _ _ (by simp [afterStop]) (by decide +kernel)
    · trivial

/-- The loop pops the fill after the flag is down, applies it and ends. -/
theorem stopInTime_keeps :
    (Schedule.run step stopInTime (initial idleEngine)).control = .returned ∧
      (Schedule.run step stopInTime (initial idleEngine)).owed 0 = true ∧
      NothingLost idleEngine (Schedule.run step stopInTime (initial idleEngine)) :=
  ⟨by decide +kernel,by decide +kernel,orderly_nothingLost idleEngine stopInTime stopInTime_allowed⟩

end EngineShutdown
end Chronos
