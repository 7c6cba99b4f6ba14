import Chronos.ByteRecords

/-!
# Log reader

`LogReader` maps a log file and finds its records by their index. It keeps its
own copies of the magic number, the header size and the sizes by type.
-/

set_option autoImplicit false

namespace Chronos.LogReader
open ByteRecords

def logMagic : ℕ := 0x01304E4F524843
def logVersion : ℕ := 1
def headerSize : ℕ := 64

def recordSizeForType : ℕ → ℕ
  | 0 => 64
  | 1 => 128
  | 2 => 128
  | _ => 0

def timestampOffsetForType : ℕ → ℕ
  | 0 => 0
  | 1 => 8
  | 2 => 24
  | _ => 0

structure LogFileHeader where
  magic : ℕ
  version : ℕ
  logType : ℕ
  createdTimestampUs : ℕ
  deriving DecidableEq

def numberAt (raw : Bytes) (offset width : ℕ) : ℕ := decode ((raw.drop offset).take width)

def readHeader (raw : Bytes) : LogFileHeader where
  magic := numberAt raw 0 8
  version := numberAt raw 8 4
  logType := numberAt raw 12 4
  createdTimestampUs := numberAt raw 16 8

end LogReader

open ByteRecords LogReader in
structure LogReader where
  mappedData : Bytes
  recordSize : ℕ
  recordCount : ℕ
  timestampOffset : ℕ
  header : LogFileHeader
  deriving DecidableEq

namespace LogReader
open ByteRecords

def closed : LogReader where
  mappedData := []
  recordSize := 0
  recordCount := 0
  timestampOffset := 0
  header := ⟨0,0,0,0⟩

/-- `open` on a file with the given bytes; none where it returns false. -/
def openFile (file : Bytes) : Option LogReader :=
  let header := readHeader file
  let recordSize := recordSizeForType header.logType
  if file.length < headerSize then none
  else if header.magic ≠ logMagic then none
  else if recordSize = 0 then none
  else some {
    mappedData := file
    recordSize := recordSize
    -- a partial record at the end is not counted
    recordCount := (file.length-headerSize)/recordSize
    timestampOffset := timestampOffsetForType header.logType
    header := header }

variable (reader : LogReader)

def logType : ℕ := reader.header.logType

def recordAt (index : ℕ) : Option Bytes :=
  if index ≥ reader.recordCount then none
  else some (recordIn reader.recordSize (reader.mappedData.drop headerSize) index)

def typedAt (type index : ℕ) : Option Bytes :=
  if reader.logType ≠ type then none else reader.recordAt index

def tickAt (index : ℕ) : Option Bytes := reader.typedAt 0 index
def orderAt (index : ℕ) : Option Bytes := reader.typedAt 1 index
def fillAt (index : ℕ) : Option Bytes := reader.typedAt 2 index

def timestampAt (index : ℕ) : ℕ :=
  match reader.recordAt index with
  | none => 0
  | some record => numberAt record reader.timestampOffset 8

end LogReader
end Chronos
