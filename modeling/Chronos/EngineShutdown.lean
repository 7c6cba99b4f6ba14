import Chronos.StrategyEngine
import Chronos.MpmcQueueSafety

/-!
# Starting and stopping the dispatch loop

The dispatch thread, the threads that push fills and the thread that starts
and stops the engine, one atomic access at a time. The fill queue is the
bounded queue with its own steps; the dispatch thread is the only one that
pops, and it does so at most once a turn. The loop reads the flag at the top
of a turn and ends when it finds it down. Ticks are the environment's choice.
`onLoad` and `onUnload` are left out.

The tickets owed are those published when `stop` was last called; the history
lists what was applied to the positions.
-/

set_option autoImplicit false

namespace Chronos
open TicketRing

namespace EngineShutdown

def fillCapacity : MpmcQueue.Capacity := ⟨10,by decide,by decide⟩

inductive WorkerPlace where
  | absent
  | top
  | ticks
  | popping (didWork : Bool)
  | apply (ticket : ℕ) (fill : Option (Fill Decimal))
  | ended

inductive ControlPlace where
  | outside
  | stopping
  | joining
  | returned
  deriving DecidableEq

structure WorkerInput where
  spurious : Bool := false
  tick : Option Tick := none
  timerDue : Bool := false
  responses : StrategyEngine.Responses := {}

inductive Action where
  | push (thread : ℕ) (fill : Fill Decimal) (spurious : Bool)
  | worker (input : WorkerInput)
  | start
  | stop

end EngineShutdown

open EngineShutdown in
structure EngineShutdown where
  engine : StrategyEngine
  fillQueue : MpmcQueue.State (Fill Decimal)
  running : Bool := false
  worker : WorkerPlace := .absent
  control : ControlPlace := .outside
  owed : ℕ → Bool := fun _ => false
  applied : List (ℕ × Option (Fill Decimal)) := []

namespace EngineShutdown

def initial (engine : StrategyEngine) : EngineShutdown where
  engine := engine
  fillQueue := MpmcQueue.initial (Fill Decimal)

def pushAction (thread : ℕ) (fill : Fill Decimal) (spurious : Bool) : MpmcQueue.Action (Fill Decimal) :=
  ⟨thread+1,.push fill,spurious⟩

def popAction (spurious : Bool) : MpmcQueue.Action (Fill Decimal) := ⟨0,.pop,spurious⟩

def isIdle : MpmcQueue.Place (Fill Decimal) → Bool
  | .idle => true
  | _ => false

def popQueue (s : EngineShutdown) (input : WorkerInput) : MpmcQueue.State (Fill Decimal) :=
  MpmcQueue.step fillCapacity s.fillQueue (popAction input.spurious)

section Step
variable [NearestDivision.NearestDiv]

def tickPart (s : EngineShutdown) (input : WorkerInput) : EngineShutdown :=
  match input.tick with
  | none => { s with worker := .popping false }
  | some tick => { s with
      engine := s.engine.processTick tick input.responses
      worker := .popping true }

def popFailed (s : EngineShutdown) (didWork : Bool) (input : WorkerInput) : EngineShutdown :=
  { s with
    worker := .top
    engine := if didWork = false ∧ input.timerDue = true then s.engine.idleTimer input.responses
      else s.engine }

def popPart (s : EngineShutdown) (didWork : Bool) (input : WorkerInput) : EngineShutdown :=
  match s.fillQueue.threads 0 with
  | .popStore pos val => { s with fillQueue := s.popQueue input, worker := .apply pos val }
  | .popSeq _ =>
    if isIdle ((s.popQueue input).threads 0) then
      popFailed { s with fillQueue := s.popQueue input } didWork input
    else { s with fillQueue := s.popQueue input }
  | _ => { s with fillQueue := s.popQueue input }

def applyPart (s : EngineShutdown) (ticket : ℕ) (fill : Option (Fill Decimal)) (input : WorkerInput) :
    EngineShutdown :=
  { s with
    engine := s.engine.processFill (fill.getD {}) input.responses
    applied := s.applied++[(ticket,fill)]
    worker := .top }

def workerStep (s : EngineShutdown) (input : WorkerInput) : EngineShutdown :=
  match s.worker with
  | .absent => s
  | .top => { s with worker := if s.running then .ticks else .ended }
  | .ticks => s.tickPart input
  | .popping didWork => s.popPart didWork input
  | .apply ticket fill => s.applyPart ticket fill input
  | .ended => s

end Step

/-- Nothing happens while the engine is running or being stopped. The time of
the last timer is a local variable of the dispatch thread. -/
def start (s : EngineShutdown) : EngineShutdown :=
  if s.running then s
  else if s.control = .joining then s
  else { s with
    engine := { s.engine with lastTimerUs := 0 }
    running := true
    worker := .top
    control := .outside }

def stop (s : EngineShutdown) : EngineShutdown :=
  match s.control with
  | .stopping => { s with running := false, control := .joining }
  | .joining =>
    match s.worker with
    | .ended => { s with worker := .absent, control := .returned }
    | _ => s
  | _ => { s with
      owed := fun q => (s.fillQueue.tickets.stage q).isPublished
      control := if s.running then .stopping else .returned }

section Run
variable [NearestDivision.NearestDiv]

def step (s : EngineShutdown) : Action → EngineShutdown
  | .push thread fill spurious =>
    { s with fillQueue := MpmcQueue.step fillCapacity s.fillQueue (pushAction thread fill spurious) }
  | .worker input => s.workerStep input
  | .start => s.start
  | .stop => s.stop

/-- The dispatch thread will try to pop once more, and has not yet done so. -/
def WillPop (s : EngineShutdown) : Prop :=
  s.worker = .ticks ∨ (∃ didWork, s.worker = .popping didWork) ∧
    MpmcQueue.hand (s.fillQueue.threads 0) = none

/-- A ticket the dispatch thread has claimed, or will claim before it reads the flag again. -/
def Taken (s : EngineShutdown) (q : ℕ) : Prop := q < s.fillQueue.tail ∨ q = s.fillQueue.tail ∧ WillPop s

/-- The positions of the queue do not wrap around, and the flag is lowered when
no owed ticket is left behind. A `stop` of an engine that is not running finds
no published ticket waiting. -/
def Orderly (s : EngineShutdown) : Action → Prop
  | .push thread fill spurious =>
    MpmcQueue.FewOperations fillCapacity s.fillQueue (pushAction thread fill spurious)
  | .worker input => (∃ didWork, s.worker = .popping didWork) →
      MpmcQueue.FewOperations fillCapacity s.fillQueue (popAction input.spurious)
  | .start => True
  | .stop => match s.control with
    | .stopping => ∀ q, s.owed q = true → Taken s q
    | .joining => True
    | _ => s.running = false → ∀ q, (s.fillQueue.tickets.stage q).isPublished = true →
        q < s.fillQueue.tail

end Run
end EngineShutdown
end Chronos
