import Chronos.LogReader

/-!
# Replay of logs

`TimeReplayer` merges the records of several logs by their timestamps. Its
heap holds the next record of each stream. Which of several entries with the
least timestamp comes first depends on how the heap was built, so it is left
open.
-/

set_option autoImplicit false

namespace Chronos
open ByteRecords

namespace TimeReplayer

structure StreamPos where
  reader : LogReader
  pos : ℕ

structure HeapEntry where
  timestamp : ℕ
  streamIdx : ℕ
  deriving DecidableEq

/-- What `priority_queue::top` returns at each delivery: some least entry. -/
structure HeapOrder where
  top : ℕ → List HeapEntry → HeapEntry
  top_mem : ∀ n heap, heap ≠ [] → top n heap ∈ heap
  top_least : ∀ n heap, ∀ e ∈ heap, (top n heap).timestamp ≤ e.timestamp

def firstLeast : HeapOrder where
  top _ heap := (heap.argmin HeapEntry.timestamp).getD ⟨0,0⟩
  top_mem := by
    intro _ heap hne
    cases harg : heap.argmin HeapEntry.timestamp with
    | none => exact absurd (List.argmin_eq_none.mp harg) hne
    | some e => exact List.argmin_mem harg
  top_least := by
    intro _ heap e he
    cases harg : heap.argmin HeapEntry.timestamp with
    | none => exact absurd he (by simp [List.argmin_eq_none.mp harg])
    | some least => exact List.le_of_mem_argmin he harg

inductive Callback where
  | tick
  | order
  | fill
  deriving DecidableEq

def Callback.logType : Callback → ℕ
  | .tick => 0
  | .order => 1
  | .fill => 2

structure Delivery where
  callback : Callback
  record : Bytes
  stream : ℕ
  time : ℕ
  deriving DecidableEq

end TimeReplayer

open TimeReplayer in
/-- The replayer, and the calls of its callbacks so far; all three are set. -/
structure TimeReplayer where
  streams : List StreamPos
  heap : List HeapEntry
  currentTime : ℕ
  eventsProcessed : ℕ
  totalEvents : ℕ
  paused : Bool
  delivered : List Delivery

namespace TimeReplayer

def empty : TimeReplayer where
  streams := []
  heap := []
  currentTime := 0
  eventsProcessed := 0
  totalEvents := 0
  paused := false
  delivered := []

def isExhausted (s : TimeReplayer) : Bool := s.eventsProcessed ≥ s.totalEvents

def addStream (s : TimeReplayer) (reader : LogReader) : TimeReplayer :=
  if reader.recordCount = 0 then s
  else { s with
    streams := s.streams++[⟨reader,0⟩]
    totalEvents := s.totalEvents+reader.recordCount
    heap := s.heap++[⟨reader.timestampAt 0,s.streams.length⟩] }

def eventAt (reader : LogReader) (pos : ℕ) : Option (Callback × Bytes) :=
  match reader.logType with
  | 0 => (reader.tickAt pos).map (fun t => (.tick,t))
  | 1 => (reader.orderAt pos).map (fun o => (.order,o))
  | 2 => (reader.fillAt pos).map (fun f => (.fill,f))
  | _ => none

def deliver (entry : HeapEntry) (sp : StreamPos) : List Delivery :=
  match eventAt sp.reader sp.pos with
  | some (callback,record) => [⟨callback,record,entry.streamIdx,entry.timestamp⟩]
  | none => []

def nextEntry (idx : ℕ) (sp : StreamPos) : List HeapEntry :=
  if sp.pos+1 < sp.reader.recordCount then [⟨sp.reader.timestampAt (sp.pos+1),idx⟩] else []

def process (s : TimeReplayer) (entry : HeapEntry) (sp : StreamPos) : TimeReplayer := { s with
  delivered := s.delivered++deliver entry sp
  currentTime := entry.timestamp
  eventsProcessed := s.eventsProcessed+1
  streams := s.streams.set entry.streamIdx { sp with pos := sp.pos+1 }
  heap := s.heap.erase entry++nextEntry entry.streamIdx sp }

/-- Undefined on an empty heap and on an entry without a stream. -/
def advanceToNextEvent (order : HeapOrder) (s : TimeReplayer) : Option (TimeReplayer × Bool) :=
  if s.paused then some (s,false)
  else if s.isExhausted then some (s,false)
  else if s.heap = [] then none
  else
    let entry := order.top s.eventsProcessed s.heap
    match s.streams[entry.streamIdx]? with
    | none => none
    | some sp => some (s.process entry sp,true)

theorem advance_progress (order : HeapOrder) (s s' : TimeReplayer)
    (h : s.advanceToNextEvent order = some (s',true)) :
    s'.totalEvents-s'.eventsProcessed < s.totalEvents-s.eventsProcessed := by
  unfold advanceToNextEvent at h
  by_cases hp : s.paused = true
  · simp [hp] at h
  · by_cases he : s.isExhausted = true
    · simp [hp, he] at h
    · simp only [hp, he, if_false, Bool.false_eq_true] at h
      split_ifs at h
      cases hsp : s.streams[(order.top s.eventsProcessed s.heap).streamIdx]? with
      | none =>
        rw [hsp] at h
        cases h
      | some sp =>
        rw [hsp] at h
        cases h
        simp only [isExhausted, ge_iff_le, decide_eq_true_eq, not_le] at he
        simp only [process]
        omega

def advanceToEnd (order : HeapOrder) (s : TimeReplayer) : Option (TimeReplayer × ℕ) :=
  if s.isExhausted then some (s,0)
  else
    match _h : s.advanceToNextEvent order with
    | none => none
    | some (s',false) => some (s',0)
    | some (s',true) =>
      match s'.advanceToEnd order with
      | none => none
      | some (s'',count) => some (s'',count+1)
termination_by s.totalEvents-s.eventsProcessed
decreasing_by exact advance_progress order s s' _h

/-- The test is made on the time of the last delivery. -/
def advanceTo (order : HeapOrder) (targetUs : ℕ) (s : TimeReplayer) : Option (TimeReplayer × ℕ) :=
  if s.isExhausted || targetUs ≤ s.currentTime then some (s,0)
  else
    match _h : s.advanceToNextEvent order with
    | none => none
    | some (s',false) => some (s',0)
    | some (s',true) =>
      match s'.advanceTo order targetUs with
      | none => none
      | some (s'',count) => some (s'',count+1)
termination_by s.totalEvents-s.eventsProcessed
decreasing_by exact advance_progress order s s' _h

def pause (s : TimeReplayer) : TimeReplayer := { s with paused := true }

def resume (s : TimeReplayer) : TimeReplayer := { s with paused := false }

def withStreams (readers : List LogReader) : TimeReplayer := readers.foldl addStream empty

end TimeReplayer
end Chronos
