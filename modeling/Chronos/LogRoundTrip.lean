import Chronos.LogWriter
import Chronos.LogReader

/-!
# From the writer to the reader

What a log holds is the bytes of its file, of its stream and of its buffer, in
this order. A write that is accepted appends its record to that, a flush moves
bytes along, and a stop leaves them all in the file. A file that is not empty
when it is opened gets no second header. The reader takes such a file apart
again.
-/

set_option autoImplicit false

namespace Chronos
open ByteRecords

namespace Log

def content (log : Log) : Bytes := log.disk.getD []++log.stream.getD []++log.buffer.bytes

def opened (type : LogType) (now : ℕ) (file : Bytes) : Bytes :=
  if file.length = 0 then fileHeader type now else file

theorem write_content (log : Log) (record : Bytes) :
    (log.write record).1.content = log.content++if (log.write record).2 then record else [] := by
  unfold write LogBuffer.appendToBuffer
  by_cases hfull : log.buffer.bytes.length+record.length > log.buffer.size
  · simp [hfull]
  · simp [hfull, content]

theorem write_stream (log : Log) (record : Bytes) : (log.write record).1.stream = log.stream := by
  unfold write
  split <;> rfl

theorem flushBuffer_content (log : Log) : log.flushBuffer.content = log.content := by
  unfold flushBuffer
  cases hs : log.stream with
  | none => rfl
  | some pending =>
    simp only
    split_ifs
    · simp [content, hs]
    · rfl

theorem flushBuffer_isSome (log : Log) : log.flushBuffer.stream.isSome = log.stream.isSome := by
  unfold flushBuffer
  cases hs : log.stream with
  | none => simp [hs]
  | some pending =>
    simp only
    split_ifs
    · rfl
    · simp [hs]

theorem openLogFile_content (type : LogType) (bufferSize now : ℕ) (log : Log)
    (h : log.buffer.bytes = []) :
    (log.openLogFile type bufferSize now).content = opened type now (log.disk.getD []) := by
  simp only [content, openLogFile, opened, h, Option.getD_some, List.append_nil]
  split_ifs with hd
  · rw [List.eq_nil_of_length_eq_zero hd, List.nil_append]
  · rw [List.append_nil]

theorem flush_fclose (log : Log) (h : log.stream.isSome = true) :
    log.flushBuffer.fclose.disk = some log.content ∧
      log.flushBuffer.fclose.buffer.bytes = [] := by
  obtain ⟨pending,hs⟩ := Option.isSome_iff_exists.mp h
  by_cases hb : 0 < log.buffer.bytes.length
  · simp [flushBuffer, fclose, content, hs, hb]
  · have hnil : log.buffer.bytes = [] := List.eq_nil_of_length_eq_zero (by omega)
    simp [flushBuffer, fclose, content, hs, hnil]

end Log

namespace LogWriter

theorem acceptedOf_append (type : LogType) (rs rs' : List LogRecord) :
    acceptedOf type (rs++rs') = acceptedOf type rs++acceptedOf type rs' := by
  simp [acceptedOf]

theorem acceptedOf_sized (type : LogType) (rs : List LogRecord) :
    ∀ r ∈ acceptedOf type rs, r.length = type.recordSize := by
  intro r hr
  simp only [acceptedOf, List.mem_map, List.mem_filter, decide_eq_true_eq] at hr
  obtain ⟨record,⟨-,rfl⟩,rfl⟩ := hr
  exact record.sized

def added (w : LogWriter) (type : LogType) : Call → Bytes
  | .write record => if record.type = type ∧ (w.write record).2 = true then record.bytes else []
  | .flushBuffer _ => []

theorem step_content (w : LogWriter) (call : Call) (type : LogType) :
    ((w.step call).log type).content = (w.log type).content++w.added type call := by
  cases call with
  | write record =>
    by_cases ht : record.type = type
    · subst ht
      simp [step, write, added, Log.write_content]
    · simp [step, write, added, Function.update_of_ne (Ne.symm ht), ht]
  | flushBuffer t =>
    by_cases ht : t = type
    · subst ht
      simp [step, added, Log.flushBuffer_content]
    · simp [step, added, Function.update_of_ne (Ne.symm ht)]

theorem step_isSome (w : LogWriter) (call : Call) (type : LogType) :
    ((w.step call).log type).stream.isSome = (w.log type).stream.isSome := by
  cases call with
  | write record =>
    by_cases ht : record.type = type
    · subst ht
      simp [step, write, Log.write_stream]
    · simp [step, write, Function.update_of_ne (Ne.symm ht)]
  | flushBuffer t =>
    by_cases ht : t = type
    · subst ht
      simp [step, Log.flushBuffer_isSome]
    · simp [step, Function.update_of_ne (Ne.symm ht)]

theorem accepted_cons (w : LogWriter) (call : Call) (calls : List Call) (type : LogType) :
    (acceptedOf type (w.accepted (call::calls))).flatten =
      w.added type call++(acceptedOf type ((w.step call).accepted calls)).flatten := by
  cases call with
  | flushBuffer t => rfl
  | write record =>
    by_cases hok : (w.write record).2 = true <;> by_cases ht : record.type = type <;>
      simp [accepted, acceptedOf, added, step, hok, ht]

theorem run_content (w : LogWriter) (calls : List Call) (type : LogType) :
    ((w.run calls).log type).content =
        (w.log type).content++(acceptedOf type (w.accepted calls)).flatten ∧
      ((w.run calls).log type).stream.isSome = (w.log type).stream.isSome := by
  induction calls generalizing w with
  | nil => simp [run, accepted, acceptedOf]
  | cons call calls ih =>
    obtain ⟨hc,hs⟩ := ih (w.step call)
    constructor
    · rw [accepted_cons, ← List.append_assoc, ← step_content]
      exact hc
    · rw [← step_isSome w call type]
      exact hs

theorem run_running (w : LogWriter) (calls : List Call) : (w.run calls).running = w.running := by
  induction calls generalizing w with
  | nil => rfl
  | cons call calls ih =>
    have hstep : (w.step call).running = w.running := by cases call <;> rfl
    rw [← hstep]
    exact ih (w.step call)

theorem runCycle_disk (w : LogWriter) (c : Cycle) (type : LogType)
    (h : (w.log type).buffer.bytes = []) :
    ((w.runCycle c).log type).disk = some (Log.opened type (c.now type) ((w.log type).disk.getD [])++
        (acceptedOf type ((w.start c).accepted c.calls)).flatten) ∧
      ((w.runCycle c).log type).buffer.bytes = [] := by
  obtain ⟨hcontent,hstream⟩ := run_content (w.start c) c.calls type
  have hrunning : ((w.start c).run c.calls).running = true := run_running _ _
  have hopen : ((w.start c).log type).content =
      Log.opened type (c.now type) ((w.log type).disk.getD []) := Log.openLogFile_content _ _ _ _ h
  rw [hopen] at hcontent
  rw [← hcontent]
  have hlog : (w.runCycle c).log type = (((w.start c).run c.calls).log type).flushBuffer.fclose := by
    simp [runCycle, stop, hrunning]
  rw [hlog]
  exact Log.flush_fclose _ (by rw [hstream]; rfl)

theorem opened_of_ne_nil (type : LogType) (now : ℕ) (file : Bytes) (h : file ≠ []) :
    Log.opened type now file = file := if_neg (fun hlen => h (List.eq_nil_of_length_eq_zero hlen))

theorem fileHeader_length (type : LogType) (now : ℕ) :
    (Log.fileHeader type now).length = 64 := by simp [Log.fileHeader, Log.headerSize]

theorem opened_ne_nil (type : LogType) (now : ℕ) (file : Bytes) : Log.opened type now file ≠ [] := by
  unfold Log.opened
  split_ifs with h
  · exact List.ne_nil_of_length_pos (by rw [fileHeader_length]; decide)
  · exact fun hnil => h (by rw [hnil]; rfl)

theorem runCycles_append (w : LogWriter) (cycles : List Cycle) (type : LogType) (file : Bytes)
    (hbuf : (w.log type).buffer.bytes = []) (hdisk : (w.log type).disk = some file) (hne : file ≠ []) :
    ((w.runCycles cycles).log type).disk =
      some (file++(acceptedOf type (w.acceptedOver cycles)).flatten) := by
  induction cycles generalizing w file with
  | nil => simpa [runCycles, acceptedOver, acceptedOf] using hdisk
  | cons c cycles ih =>
    obtain ⟨hcycle,hbuf'⟩ := runCycle_disk w c type hbuf
    rw [hdisk, Option.getD_some, opened_of_ne_nil type _ file hne] at hcycle
    rw [acceptedOver, acceptedOf_append, List.flatten_append, ← List.append_assoc]
    exact ih (w.runCycle c) _ hbuf' hcycle (List.append_ne_nil_of_left_ne_nil hne _)

/-- The file after one or more cycles. -/
theorem runCycles_disk (disk : LogType → Option Bytes) (c : Cycle) (cycles : List Cycle)
    (type : LogType) :
    (((fresh disk).runCycles (c::cycles)).log type).disk =
      some (Log.opened type (c.now type) ((disk type).getD [])++
        (acceptedOf type ((fresh disk).acceptedOver (c::cycles))).flatten) := by
  obtain ⟨hcycle,hbuf⟩ := runCycle_disk (fresh disk) c type rfl
  have happend := runCycles_append _ cycles type _ hbuf hcycle
    (List.append_ne_nil_of_left_ne_nil (opened_ne_nil _ _ _) _)
  rw [acceptedOver, acceptedOf_append, List.flatten_append, ← List.append_assoc]
  exact happend

end LogWriter

namespace LogReader
open LogWriter

theorem numberAt_encode (before rest : Bytes) (offset width n : ℕ) (ho : before.length = offset)
    (hn : n < 256^width) : numberAt (before++encode width n++rest) offset width = n := by
  rw [numberAt, List.append_assoc, List.drop_left' ho, List.take_left' (encode_length width n),
    decode_encode, Nat.mod_eq_of_lt hn]

theorem magic_read (type : LogType) (now : ℕ) (data : Bytes) :
    (readHeader (Log.fileHeader type now++data)).magic = logMagic := by
  have hsplit : Log.fileHeader type now++data = []++encode 8 Log.logMagic++(encode 4 Log.logVersion++
      (encode 4 type.number++(encode 8 now++(List.replicate (Log.headerSize-24) 0++data)))) := by
    simp only [Log.fileHeader, List.append_assoc, List.nil_append]
  rw [readHeader, hsplit]
  exact numberAt_encode _ _ _ _ _ rfl (by decide)

theorem logType_read (type : LogType) (now : ℕ) (data : Bytes) :
    (readHeader (Log.fileHeader type now++data)).logType = type.number := by
  have hsplit : Log.fileHeader type now++data = (encode 8 Log.logMagic++encode 4 Log.logVersion)++
      encode 4 type.number++(encode 8 now++(List.replicate (Log.headerSize-24) 0++data)) := by
    simp only [Log.fileHeader, List.append_assoc]
  rw [readHeader, hsplit]
  refine numberAt_encode _ _ _ _ _ ?_ (by cases type <;> decide)
  rw [List.length_append, encode_length, encode_length]

theorem recordSizeForType_number (type : LogType) :
    recordSizeForType type.number = type.recordSize := by cases type <;> rfl

theorem recordSize_pos (type : LogType) : 0 < type.recordSize := by cases type <;> decide

theorem drop_header (type : LogType) (now : ℕ) (data : Bytes) :
    (Log.fileHeader type now++data).drop headerSize = data :=
  List.drop_left' (fileHeader_length type now)

def readerOf (type : LogType) (now : ℕ) (data : Bytes) : LogReader where
  mappedData := Log.fileHeader type now++data
  recordSize := type.recordSize
  recordCount := data.length/type.recordSize
  timestampOffset := timestampOffsetForType type.number
  header := readHeader (Log.fileHeader type now++data)

theorem openFile_header (type : LogType) (now : ℕ) (data : Bytes) :
    openFile (Log.fileHeader type now++data) = some (readerOf type now data) := by
  have hlen : (Log.fileHeader type now++data).length-headerSize = data.length := by
    rw [List.length_append, fileHeader_length, headerSize, Nat.add_sub_cancel_left]
  have hlong : ¬(Log.fileHeader type now++data).length < headerSize := by
    rw [List.length_append, fileHeader_length, headerSize]
    omega
  have hsize : type.recordSize ≠ 0 := (recordSize_pos type).ne'
  simp only [openFile, magic_read, logType_read, recordSizeForType_number, hlong, hsize, hlen, ne_eq,
    not_true_eq_false, if_false, readerOf]

theorem readerOf_recordAt (type : LogType) (now : ℕ) (data : Bytes) (i : ℕ) :
    (readerOf type now data).recordAt i = if i < data.length/type.recordSize then
      some (recordIn type.recordSize data i) else none := by
  simp only [recordAt, readerOf, drop_header, ge_iff_le]
  by_cases hi : i < data.length/type.recordSize
  · rw [if_neg (Nat.not_le.mpr hi), if_pos hi]
  · rw [if_pos (Nat.not_lt.mp hi), if_neg hi]

/-- The file is a log of the given type with exactly these records. -/
def ReadsBack (type : LogType) (file : Option Bytes) (records : List Bytes) : Prop :=
  ∃ bytes reader, file = some bytes ∧ openFile bytes = some reader ∧
    reader.logType = type.number ∧ reader.recordCount = records.length ∧
    ∀ i, reader.recordAt i = records[i]?

theorem readsBack_records (type : LogType) (now : ℕ) (records : List Bytes)
    (h : ∀ r ∈ records, r.length = type.recordSize) :
    ReadsBack type (some (Log.fileHeader type now++records.flatten)) records := by
  have hlen : records.flatten.length/type.recordSize = records.length := by
    rw [flatten_length _ _ h, Nat.mul_div_cancel _ (recordSize_pos type)]
  refine ⟨_,_,rfl,openFile_header type now _,logType_read type now _,hlen,?_⟩
  intro i
  rw [readerOf_recordAt, hlen]
  by_cases hi : i < records.length
  · have hfind := recordIn_flatten type.recordSize records h [] i hi
    rw [List.append_nil] at hfind
    rw [if_pos hi, hfind, List.getElem?_eq_getElem hi]
  · rw [if_neg hi, List.getElem?_eq_none (Nat.not_lt.mp hi)]

end LogReader

namespace LogWriter
open LogReader

/-- Any calls in any number of cycles in an empty directory: after the last
stop each of the files is a header and the accepted records, and the reader
finds exactly these. -/
theorem accepted_records_read_back (c : Cycle) (cycles : List Cycle) (type : LogType) :
    ReadsBack type (((fresh (fun _ => none)).runCycles (c::cycles)).log type).disk
        (acceptedOf type ((fresh (fun _ => none)).acceptedOver (c::cycles))) ∧
      (((fresh (fun _ => none)).runCycles (c::cycles)).log type).disk =
        some (Log.fileHeader type (c.now type)++
          (acceptedOf type ((fresh (fun _ => none)).acceptedOver (c::cycles))).flatten) := by
  have hdisk := runCycles_disk (fun _ => none) c cycles type
  rw [Option.getD_none, Log.opened, List.length_nil, if_pos rfl] at hdisk
  constructor
  · rw [hdisk]
    exact readsBack_records type _ _ (acceptedOf_sized type _)
  · exact hdisk

end LogWriter
end Chronos
