import Chronos.Types
import Chronos.MpmcQueueSafety

/-!
# The event bridge

Any number of threads publish events through the bounded queue; one thread
pops them and sends each as a message. The bridge runs from the end of
`initialize` to the return of `stop`, which takes the queue away: a call of
`publish` after that is undefined and left out. Every `zmq_send` is taken to
succeed, and fewer than `2^62` operations keep the 64-bit counters from
wrapping around.

Accepted are the tickets of the publish calls that returned true, in the order
in which they returned; owed are those accepted when `stop` was called.
-/

set_option autoImplicit false

namespace Chronos
open TicketRing

namespace ZMQBridge

def queueCapacity : MpmcQueue.Capacity := ⟨16,by decide,by decide⟩

inductive Event where
  | tick (tick : Tick)
  | order (order : OrderRequest)
  | fill (fill : Fill Decimal)

def Event.topic : Event → String
  | .tick _ => "TICK"
  | .order _ => "ORDR"
  | .fill _ => "FILL"

structure Message where
  topic : String
  record : Event

def message (ev : Event) : Message := ⟨ev.topic,ev⟩

inductive WorkerPlace where
  | top
  | popping
  | send (ticket : ℕ) (ev : Option Event)
  | ended

inductive ControlPlace where
  | outside
  | stopping
  | joining
  | returned
  deriving DecidableEq

inductive Action where
  | publish (thread : ℕ) (ev : Event) (spurious : Bool)
  | worker (spurious : Bool)
  | stop

end ZMQBridge

open ZMQBridge in
structure ZMQBridge where
  queue : MpmcQueue.State Event := MpmcQueue.initial Event
  running : Bool := true
  worker : WorkerPlace := .top
  control : ControlPlace := .outside
  ticksPub : ℕ := 0
  ordersPub : ℕ := 0
  fillsPub : ℕ := 0
  dropped : ℕ := 0
  accepted : List ℕ := []
  owed : List ℕ := []
  sent : List (ℕ × Option Message) := []

namespace ZMQBridge

def pushAction (thread : ℕ) (ev : Event) (spurious : Bool) : MpmcQueue.Action Event :=
  ⟨thread+1,.push ev,spurious⟩

def popAction (spurious : Bool) : MpmcQueue.Action Event := ⟨0,.pop,spurious⟩

variable (s : ZMQBridge)

def publish (thread : ℕ) (ev : Event) (spurious : Bool) : ZMQBridge :=
  let queue := MpmcQueue.step queueCapacity s.queue (pushAction thread ev spurious)
  match s.queue.threads (thread+1) with
  | .pushStore pos => { s with queue := queue, accepted := s.accepted++[pos] }
  | .pushSeq _ _ =>
    match queue.threads (thread+1) with
    | .idle => { s with queue := queue, dropped := s.dropped+1 }
    | _ => { s with queue := queue }
  | _ => { s with queue := queue }

def popQueue (spurious : Bool) : MpmcQueue.State Event :=
  MpmcQueue.step queueCapacity s.queue (popAction spurious)

/-- One step of `try_pop`. When it returns false the thread sleeps and goes on
at the top of the loop. -/
def popPart (spurious : Bool) : ZMQBridge :=
  match s.queue.threads 0 with
  | .popStore pos ev => { s with queue := s.popQueue spurious, worker := .send pos ev }
  | .popSeq _ =>
    match (s.popQueue spurious).threads 0 with
    | .idle => { s with queue := s.popQueue spurious, worker := .top }
    | _ => { s with queue := s.popQueue spurious }
  | _ => { s with queue := s.popQueue spurious }

def count : Option Event → ZMQBridge
  | some (.tick _) => { s with ticksPub := s.ticksPub+1 }
  | some (.order _) => { s with ordersPub := s.ordersPub+1 }
  | some (.fill _) => { s with fillsPub := s.fillsPub+1 }
  | none => s

def sendPart (ticket : ℕ) (ev : Option Event) : ZMQBridge :=
  { s.count ev with sent := s.sent++[(ticket,ev.map message)], worker := .popping }

def workerStep (spurious : Bool) : ZMQBridge :=
  match s.worker with
  | .top => { s with worker := if s.running then .popping else .ended }
  | .popping => s.popPart spurious
  | .send ticket ev => s.sendPart ticket ev
  | .ended => s

def stop : ZMQBridge :=
  match s.control with
  | .outside => { s with owed := s.accepted, control := .stopping }
  | .stopping => { s with running := false, control := .joining }
  | .joining =>
    match s.worker with
    | .ended => { s with control := .returned }
    | _ => s
  | .returned => s

def step : Action → ZMQBridge
  | .publish thread ev spurious => if s.control = .returned then s else s.publish thread ev spurious
  | .worker spurious => s.workerStep spurious
  | .stop => s.stop

/-- The positions of the queue do not wrap around. When the publisher thread
finds the flag down, every published ticket was claimed, and after that no
publish call stores. -/
def Orderly : Action → Prop
  | .publish thread ev spurious =>
    MpmcQueue.FewOperations queueCapacity s.queue (pushAction thread ev spurious) ∧
      (s.worker = .ended → ∀ pos, s.queue.threads (thread+1) ≠ .pushStore pos)
  | .worker spurious =>
    (s.worker = .popping → MpmcQueue.FewOperations queueCapacity s.queue (popAction spurious)) ∧
      (s.worker = .top → s.running = false →
        ∀ q, (s.queue.tickets.stage q).isPublished = true → q < s.queue.tail)
  | .stop => True

end ZMQBridge
end Chronos
