import Chronos.OrderBookV2Readings

/-!
# One writer and many readers of the order book

The writer runs operations, one store at a time; any number of threads run
hot and cold queries, one load at a time; every order of their steps is a
run. The writer's `fetch_add` on the version is one step. Statistics of the
readers are left out: no query reads them.

A return records how many operations were complete when the query began to
read and how many had begun when it ended, and for a hot query the hot data
in memory at its last version load.
-/

set_option autoImplicit false

namespace Chronos.OrderBookThreads
open BookLadder (BookOp)
open OrderBookV2 OptimisticRead

/-- Where a thread stands in `readHotDataOptimistic`. The number is that of the
operations complete at its first version load. -/
inductive HotPlace where
  | idle
  | start (q : HotQuery)
  | retry (q : HotQuery) (completed : ℕ)
  | reading (q : HotQuery) (completed version : ℕ) (rest : Reading HotData HotAnswer)

inductive ColdPlace where
  | idle
  | start (q : ColdQuery)
  | reading (q : ColdQuery) (buffer : Fin 2) (completed : ℕ) (rest : Reading ColdData ColdAnswer)

structure HotReturn where
  query : HotQuery
  answer : HotAnswer
  seen : HotData
  completed : ℕ
  begun : ℕ

structure ColdReturn where
  query : ColdQuery
  answer : ColdAnswer
  completed : ℕ
  begun : ℕ

structure State where
  book : OrderBookV2 := {}
  rest : List Instr := []
  ops : List BookOp := []
  hotWrites : ℕ := 0
  hotReaders : ℕ → HotPlace := fun _ => .idle
  coldReaders : ℕ → ColdPlace := fun _ => .idle
  hotReturns : List HotReturn := []
  coldReturns : List ColdReturn := []

inductive Action where
  | write (op : BookOp)
  | hot (thread : ℕ) (q : HotQuery)
  | cold (thread : ℕ) (q : ColdQuery)

def isBump : Instr → Bool
  | .bump => true
  | _ => false

def bumps (rest : List Instr) : ℕ := rest.countP isBump

/-- The operations whose last store is made. -/
def completed (s : State) : ℕ := if s.rest.isEmpty then s.ops.length else s.ops.length-1

def setHot (s : State) (t : ℕ) (p : HotPlace) : State :=
  { s with hotReaders := Function.update s.hotReaders t p }

def setCold (s : State) (t : ℕ) (p : ColdPlace) : State :=
  { s with coldReaders := Function.update s.coldReaders t p }

def writeStep (s : State) (op : BookOp) : State :=
  match s.rest with
  | [] =>
    { s with
      rest := program s.book op
      ops := s.ops++[op]
      hotWrites := s.hotWrites+bumps (program s.book op)/2 }
  | i::rest => { s with book := s.book.exec i, rest := rest }

section Step
variable [NearestDivision.NearestDiv]

def lookStep (s : State) (t : ℕ) (q : HotQuery) (k : ℕ) : State :=
  if s.book.hotData.version%2 = 1 then setHot s t (.retry q k)
  else setHot s t (.reading q k s.book.hotData.version q.reading)

def hotStep (s : State) (t : ℕ) (query : HotQuery) : State :=
  match s.hotReaders t with
  | .idle => setHot s t (.start query)
  | .start q => lookStep s t q (completed s)
  | .retry q k => lookStep s t q k
  | .reading q k version (.done answer) =>
    if s.book.hotData.version = version then
      setHot { s with
        hotReturns := s.hotReturns++[⟨q,answer,s.book.hotData,k,s.ops.length⟩] } t .idle
    else setHot s t (.retry q k)
  | .reading q k version rest => setHot s t (.reading q k version (rest.advance s.book.hotData))

def coldStep (s : State) (t : ℕ) (query : ColdQuery) : State :=
  match s.coldReaders t with
  | .idle => setCold s t (.start query)
  | .start q => setCold s t (.reading q s.book.activeColdBuffer (completed s) q.reading)
  | .reading q _ k (.done answer) =>
    setCold { s with coldReturns := s.coldReturns++[⟨q,answer,k,s.ops.length⟩] } t .idle
  | .reading q buffer k rest =>
    setCold s t (.reading q buffer k (rest.advance (s.book.coldBuffers buffer)))

def step (s : State) : Action → State
  | .write op => writeStep s op
  | .hot t q => hotStep s t q
  | .cold t q => coldStep s t q

end Step

theorem completed_begin (s : State) (op : BookOp) (h : s.rest = []) :
    completed (writeStep s op) = completed s := by
  have hne : (program s.book op).isEmpty = false := by
    cases op <;> simp [program, swapProgram]
  simp [writeStep, completed, h, hne]

theorem completed_exec (s : State) (op : BookOp) (i : Instr) (rest : List Instr) (h : s.rest = i::rest) :
    completed s ≤ completed (writeStep s op) := by
  simp only [writeStep, completed, h]
  split_ifs <;> simp_all

theorem completed_write (s : State) (op : BookOp) : completed s ≤ completed (writeStep s op) := by
  cases h : s.rest with
  | nil => exact (completed_begin s op h).ge
  | cons i rest => exact completed_exec s op i rest h

theorem completed_le (s : State) : completed s ≤ s.ops.length := by
  unfold completed
  split_ifs <;> omega

def Ends (s : State) : Prop := Schedule.run exec s.rest s.book = after s.ops

theorem after_append (ops : List BookOp) (op : BookOp) : after (ops++[op]) = (after ops).apply op :=
  OrderBookV2.run_append ops [op] {}

theorem ends_write (s : State) (op : BookOp) (h : Ends s) : Ends (writeStep s op) := by
  unfold Ends writeStep at *
  cases hr : s.rest with
  | nil =>
    rw [hr] at h
    have hb : s.book = after s.ops := h
    change Schedule.run exec (program s.book op) s.book = after (s.ops++[op])
    rw [program_run, after_append, ← hb]
  | cons i rest =>
    rw [hr] at h
    exact h

end Chronos.OrderBookThreads
