import Chronos.GatewayAccounts
import Chronos.PublishedEvents

/-!
# Stopping the gateway

Any number of threads push orders; the I/O thread pops them and processes
each, section by section. When it finds the flag down it drains what is left
and ends, and the thread that called `stop` then cancels whatever is pending.
All the while the user stream may inject fills, acknowledgements and rejects.
The model runs from the return of `start` to the return of `stop`.

Owed are the tickets that were published when `stop` was called. A drain that
stops at a ticket which was taken and not yet published remembers it.
-/

set_option autoImplicit false

namespace Chronos
open TicketRing OrderGateway CriticalSections

namespace GatewayShutdown

def queueCapacity : MpmcQueue.Capacity :=
  have h : 1 ≤ 10 ∧ 10 ≤ 62 := by decide
  ⟨10,h.1,h.2⟩

inductive WorkerPlace where
  | top
  | popping (draining : Bool)
  | process (draining : Bool) (ticket : ℕ) (order : Option OrderRequest)
  | ended

inductive ControlPlace where
  | outside
  | stopping
  | joining
  | cancelling
  | returned
  deriving DecidableEq

inductive Action (n : ℕ) where
  | push (thread : ℕ) (order : OrderRequest) (spurious : Bool)
  | worker (spurious : Bool) (io : Surroundings)
  | inject (i : Fin n) (a : OrderGateway.Action)
  | user (i : Fin n)
  | stop

end GatewayShutdown

open GatewayShutdown in
structure GatewayShutdown (n : ℕ) where
  calls : State (n+2) OrderGateway Section
  queue : MpmcQueue.State OrderRequest := MpmcQueue.initial OrderRequest
  running : Bool := true
  worker : WorkerPlace := .top
  control : ControlPlace := .outside
  owed : ℕ → Bool := fun _ => false
  processed : List (ℕ × Option OrderRequest) := []
  blocked : Option ℕ := none

namespace GatewayShutdown
variable {n : ℕ}

def io : Fin (n+2) := 0

def stopper : Fin (n+2) := 1

def stream (i : Fin n) : Fin (n+2) := i.succ.succ

def started (c : GatewaySetup) (n : ℕ) : GatewayShutdown n := { calls := start c (n+2) }

def pushAction (thread : ℕ) (order : OrderRequest) (spurious : Bool) : MpmcQueue.Action OrderRequest :=
  ⟨thread+1,.push order,spurious⟩

def popAction (spurious : Bool) : MpmcQueue.Action OrderRequest := ⟨0,.pop,spurious⟩

variable (s : GatewayShutdown n)

def gateway : OrderGateway := s.calls.shared

def push (thread : ℕ) (order : OrderRequest) (spurious : Bool) : GatewayShutdown n :=
  { s with queue := MpmcQueue.step queueCapacity s.queue (pushAction thread order spurious) }

def popQueue (spurious : Bool) : MpmcQueue.State OrderRequest :=
  MpmcQueue.step queueCapacity s.queue (popAction spurious)

/-- The ticket in front, when a push has taken it and not published it. -/
def halfPushed (q : MpmcQueue.State OrderRequest) : Option ℕ :=
  match q.tickets.stage q.tail with
  | .taken | .written => some q.tail
  | _ => none

def orderSections (c : GatewaySetup) (order : Option OrderRequest) (io : Surroundings) : List Section :=
  match order with
  | some order => processSections c order io
  | none => []

def popPart (draining spurious : Bool) (io : Surroundings) : GatewayShutdown n :=
  match s.queue.threads 0 with
  | .popStore pos order =>
    { s with
      queue := s.popQueue spurious
      worker := .process draining pos order
      calls := call s.calls GatewayShutdown.io (orderSections s.gateway.toGatewaySetup order io) }
  | .popSeq _ =>
    match (s.popQueue spurious).threads 0 with
    | .idle =>
      if draining then
        { s with queue := s.popQueue spurious, worker := .ended, blocked := halfPushed s.queue }
      else { s with queue := s.popQueue spurious, worker := .top }
    | _ => { s with queue := s.popQueue spurious }
  | _ => { s with queue := s.popQueue spurious }

def processPart (draining : Bool) (ticket : ℕ) (order : Option OrderRequest) : GatewayShutdown n :=
  match s.calls.rest io with
  | [] => { s with worker := .popping draining, processed := s.processed++[(ticket,order)] }
  | _ => { s with calls := advance perform s.calls io }

def workerStep (spurious : Bool) (io : Surroundings) : GatewayShutdown n :=
  match s.worker with
  | .top => { s with worker := .popping (!s.running) }
  | .popping draining => s.popPart draining spurious io
  | .process draining ticket order => s.processPart draining ticket order
  | .ended => s

def stop : GatewayShutdown n :=
  match s.control with
  | .outside => { s with owed := fun q => (s.queue.tickets.stage q).isPublished, control := .stopping }
  | .stopping => { s with running := false, control := .joining }
  | .joining =>
    match s.worker with
    | .ended => { s with calls := call s.calls stopper [.collect], control := .cancelling }
    | _ => s
  | .cancelling =>
    match s.calls.rest stopper with
    | [] => { s with control := .returned }
    | _ => { s with calls := advance perform s.calls stopper }
  | .returned => s

def step : Action n → GatewayShutdown n
  | .push thread order spurious => s.push thread order spurious
  | .worker spurious io => s.workerStep spurious io
  | .inject i a => { s with calls := call s.calls (stream i) (a.sections s.gateway.toGatewaySetup) }
  | .user i => { s with calls := advance perform s.calls (stream i) }
  | .stop => s.stop

/-- The positions of the queue do not wrap around. The user stream injects, and
is inside one call at a time. -/
def Promise : Action n → Prop
  | .push thread order spurious =>
    MpmcQueue.FewOperations queueCapacity s.queue (pushAction thread order spurious)
  | .worker spurious _ => (∃ draining, s.worker = .popping draining) →
      MpmcQueue.FewOperations queueCapacity s.queue (popAction spurious)
  | .inject i a => a.isRequest = false ∧ s.calls.rest (stream i) = []
  | .user _ => True
  | .stop => True

end GatewayShutdown
end Chronos
