import Chronos.ByteRecords

/-!
# Log writer

`LogWriter` gathers records in one bounded buffer per log and appends the
buffers to files. A write and the part of a flush for one buffer each hold
that buffer's lock, so a run is a sequence of these. The bytes given to
`fwrite` stay with the stream until it is flushed or closed. All of it is on
one day.
-/

set_option autoImplicit false

namespace Chronos
open ByteRecords

inductive LogType where
  | tick
  | order
  | fill
  deriving DecidableEq

namespace LogType

def number : LogType → ℕ
  | .tick => 0
  | .order => 1
  | .fill => 2

def recordSize : LogType → ℕ
  | .tick => 64
  | .order => 128
  | .fill => 128

end LogType

/-- A tick, an order or a fill as the bytes it has in memory. -/
structure LogRecord where
  type : LogType
  bytes : Bytes
  sized : bytes.length = type.recordSize

structure LogBuffer where
  size : ℕ
  bytes : Bytes

def LogBuffer.appendToBuffer (buf : LogBuffer) (record : Bytes) : LogBuffer × Bool :=
  if buf.bytes.length+record.length > buf.size then (buf,false)
  else ({ buf with bytes := buf.bytes++record },true)

/-- One of the three logs: its file, the stream open on it with the bytes not
yet flushed, its buffer and the number of records written. -/
structure Log where
  disk : Option Bytes
  stream : Option Bytes
  buffer : LogBuffer
  written : ℕ

namespace Log

def logMagic : ℕ := 0x01304E4F524843
def logVersion : ℕ := 1
def headerSize : ℕ := 64

def fileHeader (type : LogType) (now : ℕ) : Bytes :=
  encode 8 logMagic++encode 4 logVersion++encode 4 type.number++encode 8 now++
    List.replicate (headerSize-24) 0

def openLogFile (type : LogType) (bufferSize now : ℕ) (log : Log) : Log where
  disk := some (log.disk.getD [])
  stream := some (if (log.disk.getD []).length = 0 then fileHeader type now else [])
  buffer := { log.buffer with size := bufferSize }
  written := log.written

def write (log : Log) (record : Bytes) : Log × Bool :=
  match log.buffer.appendToBuffer record with
  | (buffer,true) => ({ log with buffer := buffer, written := log.written+1 },true)
  | (_,false) => (log,false)

def flushBuffer (log : Log) : Log :=
  match log.stream with
  | none => log
  | some pending =>
    if 0 < log.buffer.bytes.length then { log with
      disk := some (log.disk.getD []++pending++log.buffer.bytes)
      stream := some []
      buffer := { log.buffer with bytes := [] } }
    else log

def fclose (log : Log) : Log :=
  match log.stream with
  | none => log
  | some pending => { log with disk := some (log.disk.getD []++pending), stream := none }

end Log

structure LogWriter where
  log : LogType → Log
  running : Bool

namespace LogWriter

def fresh (disk : LogType → Option Bytes) : LogWriter where
  log := fun type => {
    disk := disk type
    stream := none
    buffer := ⟨0,[]⟩
    written := 0 }
  running := false

inductive Call where
  | write (record : LogRecord)
  | flushBuffer (type : LogType)

def initializeWriter (bufferSize : ℕ) (now : LogType → ℕ) (w : LogWriter) : LogWriter where
  log := fun type => (w.log type).openLogFile type bufferSize (now type)
  running := true

def write (w : LogWriter) (record : LogRecord) : LogWriter × Bool :=
  let (log,ok) := (w.log record.type).write record.bytes
  ({ w with log := Function.update w.log record.type log },ok)

def step (w : LogWriter) : Call → LogWriter
  | .write record => (w.write record).1
  | .flushBuffer type => { w with log := Function.update w.log type (w.log type).flushBuffer }

def stop (w : LogWriter) : LogWriter :=
  if w.running = false then w
  else {
    log := fun type => (w.log type).flushBuffer.fclose
    running := false }

def run (w : LogWriter) (calls : List Call) : LogWriter := calls.foldl step w

def accepted (w : LogWriter) : List Call → List LogRecord
  | [] => []
  | .write record::calls =>
    if (w.write record).2 then record::accepted (w.write record).1 calls
    else accepted (w.write record).1 calls
  | .flushBuffer type::calls => accepted (w.step (.flushBuffer type)) calls

structure Cycle where
  bufferSize : ℕ
  now : LogType → ℕ
  calls : List Call

def start (w : LogWriter) (c : Cycle) : LogWriter := w.initializeWriter c.bufferSize c.now

def runCycle (w : LogWriter) (c : Cycle) : LogWriter := ((w.start c).run c.calls).stop

def runCycles (w : LogWriter) (cycles : List Cycle) : LogWriter := cycles.foldl runCycle w

def acceptedOver (w : LogWriter) : List Cycle → List LogRecord
  | [] => []
  | c::cycles => accepted (w.start c) c.calls++acceptedOver (w.runCycle c) cycles

def acceptedOf (type : LogType) (records : List LogRecord) : List Bytes :=
  (records.filter (fun r => r.type = type)).map LogRecord.bytes

end LogWriter
end Chronos
