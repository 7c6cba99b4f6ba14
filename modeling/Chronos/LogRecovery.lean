import Chronos.LogRoundTrip

/-!
# Logs cut off by a crash

A file that was cut off is opened for appending as it is: only an empty one
gets a header, and new records follow the last byte. So what is read back is
right for all later records exactly when the cut left nothing, or a header and
whole records.
-/

set_option autoImplicit false

namespace Chronos
open ByteRecords LogReader LogWriter

structure WrittenLog (type : LogType) where
  now : ℕ
  records : List Bytes
  sized : ∀ r ∈ records, r.length = type.recordSize

namespace WrittenLog
variable {type : LogType} (file : WrittenLog type) (n : ℕ)

def bytes : Bytes := Log.fileHeader type file.now++file.records.flatten

def left : Bytes := file.bytes.take n

def survivors : List Bytes := file.records.take (((file.left n).length-headerSize)/type.recordSize)

/-- Nothing is left, or a header and whole records. -/
def OnBoundary : Prop :=
  (file.left n).length = 0 ∨
    headerSize ≤ (file.left n).length ∧ type.recordSize ∣ (file.left n).length-headerSize

def crashed (others : LogType → Option Bytes) : LogType → Option Bytes :=
  Function.update others type (some (file.left n))

/-- What survived and whatever is written in later cycles is read back. -/
def Recovers : Prop := ∀ others c cycles,
  ReadsBack type (((fresh (file.crashed n others)).runCycles (c::cycles)).log type).disk
    (file.survivors n++acceptedOf type ((fresh (file.crashed n others)).acceptedOver (c::cycles)))

theorem survivors_sized : ∀ r ∈ file.survivors n, r.length = type.recordSize :=
  fun r hr => file.sized r (List.mem_of_mem_take hr)

theorem recovered_disk (others : LogType → Option Bytes) (c : Cycle) (cycles : List Cycle) :
    (((fresh (file.crashed n others)).runCycles (c::cycles)).log type).disk =
      some (Log.opened type (c.now type) (file.left n)++
        (acceptedOf type ((fresh (file.crashed n others)).acceptedOver (c::cycles))).flatten) := by
  rw [runCycles_disk, crashed, Function.update_self, Option.getD_some]

theorem left_split (h : headerSize ≤ (file.left n).length) :
    ∃ fragment : Bytes, file.left n =
        Log.fileHeader type file.now++((file.survivors n).flatten++fragment) ∧
      fragment.length = ((file.left n).length-headerSize)%type.recordSize := by
  have hlen : (file.left n).length = min n (headerSize+file.records.flatten.length) := by
    rw [left, bytes, List.length_take, List.length_append, fileHeader_length, headerSize]
  obtain ⟨fragment,htake,hfragment⟩ := take_flatten type.recordSize file.records file.sized
    ((file.left n).length-headerSize) (by omega)
  refine ⟨fragment,?_,hfragment⟩
  have hleft : file.left n = file.bytes.take (file.left n).length := by
    rw [left, List.length_take, ← List.take_eq_take_min]
  rw [survivors, ← htake]
  nth_rewrite 1 [hleft]
  rw [bytes, List.take_append, fileHeader_length, List.take_of_length_le]
  · rfl
  · rw [fileHeader_length]
    exact h

theorem recovers_of_boundary (h : file.OnBoundary n) : file.Recovers n := by
  intro others c cycles
  rw [recovered_disk]
  rcases h with hnone | ⟨hheader,hwhole⟩
  · have hsurvive : file.survivors n = [] := by
      rw [survivors, hnone]
      simp
    rw [Log.opened, if_pos hnone, hsurvive, List.nil_append]
    exact readsBack_records type _ _ (acceptedOf_sized type _)
  · obtain ⟨fragment,hleft,hfragment⟩ := file.left_split n hheader
    rw [Nat.mod_eq_zero_of_dvd hwhole] at hfragment
    have hne : file.left n ≠ [] := List.ne_nil_of_length_pos (lt_of_lt_of_le (by decide) hheader)
    rw [opened_of_ne_nil _ _ _ hne, hleft, List.eq_nil_of_length_eq_zero hfragment, List.append_nil,
      List.append_assoc, ← List.flatten_append]
    apply readsBack_records
    intro r hr
    rcases List.mem_append.mp hr with hr | hr
    · exact file.survivors_sized n r hr
    · exact acceptedOf_sized type _ r hr

def oneWrite (record : LogRecord) : Cycle where
  bufferSize := record.type.recordSize
  now := fun _ => 0
  calls := [Call.write record]

theorem oneWrite_accepted (disk : LogType → Option Bytes) (record : LogRecord) :
    acceptedOf record.type ((fresh disk).acceptedOver [oneWrite record]) = [record.bytes] := by
  have hfits : (((fresh disk).start (oneWrite record)).write record).2 = true := by
    simp [LogWriter.write, start, initializeWriter, oneWrite, Log.openLogFile, fresh, Log.write,
      LogBuffer.appendToBuffer, record.sized]
  have hall : (fresh disk).acceptedOver [oneWrite record] = [record] := by
    simp only [acceptedOver, List.append_nil]
    exact if_pos hfits
  simp [hall, acceptedOf]

theorem not_recovers_in_header (hsome : (file.left n).length ≠ 0)
    (hshort : (file.left n).length < headerSize) : ¬file.Recovers n := by
  intro h
  obtain ⟨bytes,reader,hdisk,hopen,-⟩ := h (fun _ => none) ⟨0,fun _ => 0,[]⟩ []
  rw [recovered_disk, Log.opened, if_neg hsome] at hdisk
  have hbytes : bytes = file.left n := by
    simpa [acceptedOver, accepted, acceptedOf] using hdisk.symm
  rw [openFile, hbytes, if_pos hshort] at hopen
  cases hopen

/-- The first record written after a fragment is read from the fragment's first byte on. -/
theorem not_recovers_in_record (hheader : headerSize ≤ (file.left n).length)
    (hpart : ¬type.recordSize ∣ (file.left n).length-headerSize) : ¬file.Recovers n := by
  obtain ⟨fragment,hleft,hfragment⟩ := file.left_split n hheader
  have hpos : 0 < fragment.length := by
    rw [hfragment]
    exact Nat.pos_of_ne_zero (fun h0 => hpart (Nat.dvd_of_mod_eq_zero h0))
  cases fragment with
  | nil => simp at hpos
  | cons b fragment =>
    intro h
    let record : LogRecord := ⟨type,List.replicate type.recordSize (b+1),List.length_replicate⟩
    obtain ⟨bytes,reader,hdisk,hopen,-,-,hrecords⟩ := h (fun _ => none) (oneWrite record) []
    have hne : file.left n ≠ [] := List.ne_nil_of_length_pos (lt_of_lt_of_le (by decide) hheader)
    have haccepted := oneWrite_accepted (file.crashed n (fun _ => none)) record
    have hlast := hrecords (file.survivors n).length
    rw [show record.type = type from rfl] at haccepted
    rw [recovered_disk, haccepted, opened_of_ne_nil _ _ _ hne, hleft, List.append_assoc,
      Option.some.injEq] at hdisk
    rw [← hdisk, openFile_header, Option.some.injEq] at hopen
    rw [← hopen, haccepted, readerOf_recordAt, List.getElem?_concat_length] at hlast
    split_ifs at hlast
    rw [Option.some.injEq, recordIn, List.append_assoc, drop_flatten _ _ (file.survivors_sized n) _ _ le_rfl,
      List.drop_length] at hlast
    have hhead := congrArg List.head? hlast
    obtain ⟨size,hsize⟩ := Nat.exists_eq_succ_of_ne_zero (recordSize_pos type).ne'
    simp [record, hsize, List.replicate_succ] at hhead

/-- Exactly on a boundary. -/
theorem recovers_iff_boundary : file.Recovers n ↔ file.OnBoundary n := by
  constructor
  · intro h
    by_contra hb
    rw [OnBoundary, not_or, not_and_or] at hb
    rcases hb with ⟨hsome,hshort | hpart⟩
    · exact file.not_recovers_in_header n hsome (Nat.not_le.mp hshort) h
    · by_cases hheader : headerSize ≤ (file.left n).length
      · exact file.not_recovers_in_record n hheader hpart h
      · exact file.not_recovers_in_header n hsome (Nat.not_le.mp hheader) h
  · exact file.recovers_of_boundary n

def oneTick : WrittenLog .tick where
  now := 0
  records := [List.replicate 64 0]
  sized := by simp [LogType.recordSize]

def nextTick : LogRecord := ⟨.tick,List.replicate 64 1,rfl⟩

/-- The crash left 100 bytes, 36 of them from the tick. After one more tick the
reader finds one record, and its first 36 bytes are those of the lost tick. -/
theorem cutTick_mixed :
    ¬ReadsBack .tick
        (((fresh (oneTick.crashed 100 (fun _ => none))).runCycles [oneWrite nextTick]).log .tick).disk
        (oneTick.survivors 100++acceptedOf .tick
          ((fresh (oneTick.crashed 100 (fun _ => none))).acceptedOver [oneWrite nextTick])) ∧
      ∃ reader, (((fresh (oneTick.crashed 100 (fun _ => none))).runCycles
          [oneWrite nextTick]).log .tick).disk.bind openFile = some reader ∧
        reader.recordAt 0 = some (List.replicate 36 0++List.replicate 28 1) := by
  have hleft : oneTick.left 100 = Log.fileHeader .tick 0++List.replicate 36 0 := by decide +kernel
  have hdisk : (((fresh (oneTick.crashed 100 (fun _ => none))).runCycles
      [oneWrite nextTick]).log .tick).disk =
      some (Log.fileHeader .tick 0++(List.replicate 36 0++List.replicate 64 1)) := by
    have haccepted : acceptedOf .tick ((fresh (oneTick.crashed 100 (fun _ => none))).acceptedOver
        [oneWrite nextTick]) = [nextTick.bytes] := oneWrite_accepted _ nextTick
    rw [recovered_disk, hleft, opened_of_ne_nil _ _ _ (by decide +kernel), List.append_assoc,
      haccepted]
    rfl
  have hmixed : (readerOf .tick 0 (List.replicate 36 0++List.replicate 64 1)).recordAt 0 =
      some (List.replicate 36 0++List.replicate 28 1) := by
    rw [readerOf_recordAt]
    decide +kernel
  constructor
  · rintro ⟨bytes,reader,hbytes,hopen,-,-,hrecords⟩
    rw [hdisk, Option.some.injEq] at hbytes
    rw [← hbytes, openFile_header, Option.some.injEq] at hopen
    have hfirst := hrecords 0
    rw [← hopen, hmixed] at hfirst
    revert hfirst
    decide +kernel
  · refine ⟨readerOf .tick 0 (List.replicate 36 0++List.replicate 64 1),?_,hmixed⟩
    rw [hdisk, Option.bind_some, openFile_header]

end WrittenLog
end Chronos
