import Chronos.LogReader

/-!
# What the log reader accepts and reads

`open` checks the length, the magic number and the log type. The version is
read and not compared, so the files it accepts are the well-formed ones only
as far as no other version is met. What it then reads lies inside the file.
-/

set_option autoImplicit false

namespace Chronos.LogReader
open ByteRecords

structure Span where
  offset : ℕ
  length : ℕ
  deriving DecidableEq

namespace Span

def Inside (file : Bytes) (s : Span) : Prop := s.offset+s.length ≤ file.length

def bytes (file : Bytes) (s : Span) : Bytes := (file.drop s.offset).take s.length

def part (s : Span) (offset length : ℕ) : Span := ⟨s.offset+offset,length⟩

theorem part_inside (file : Bytes) (s : Span) (offset length : ℕ) (hs : s.Inside file)
    (h : offset+length ≤ s.length) : (s.part offset length).Inside file := by
  unfold Inside part at *
  dsimp only
  omega

theorem part_bytes (file : Bytes) (s : Span) (offset length : ℕ) (h : offset+length ≤ s.length) :
    (s.part offset length).bytes file = ((s.bytes file).drop offset).take length := by
  rw [bytes, bytes, part, List.drop_take, List.take_take, List.drop_drop, min_eq_left (by omega)]

end Span

section Ranges
variable (reader : LogReader)

def recordSpan (index : ℕ) : Option Span :=
  if index ≥ reader.recordCount then none
  else some ⟨headerSize+index*reader.recordSize,reader.recordSize⟩

def typedSpan (type index : ℕ) : Option Span :=
  if reader.logType ≠ type then none
  else (reader.recordSpan index).map (fun s => s.part 0 (recordSizeForType type))

def timestampSpan (index : ℕ) : Option Span :=
  (reader.recordSpan index).map (fun s => s.part reader.timestampOffset 8)

end Ranges

structure WellFormed (file : Bytes) : Prop where
  long : headerSize ≤ file.length
  magic : (readHeader file).magic = logMagic
  version : (readHeader file).version = logVersion
  type : (readHeader file).logType < 3

/-- Each accessor reads its range and no byte outside the file, and no complete
record is left out. -/
structure ReadsInside (file : Bytes) (reader : LogReader) : Prop where
  record : ∀ i, reader.recordAt i = (reader.recordSpan i).map (Span.bytes file) ∧
    ∀ s ∈ reader.recordSpan i, s.Inside file
  typed : ∀ type i, reader.typedAt type i = (reader.typedSpan type i).map (Span.bytes file) ∧
    ∀ s ∈ reader.typedSpan type i, s.Inside file
  timestamp : ∀ i, reader.timestampAt i = ((reader.timestampSpan i).map
      (fun s => decode (s.bytes file))).getD 0 ∧
    ∀ s ∈ reader.timestampSpan i, s.Inside file
  complete : ∀ i, headerSize+(i+1)*recordSizeForType reader.logType ≤ file.length →
    reader.recordSpan i = some ⟨headerSize+i*recordSizeForType reader.logType,
      recordSizeForType reader.logType⟩

structure Accepted (file : Bytes) : Prop where
  long : headerSize ≤ file.length
  magic : (readHeader file).magic = logMagic
  type : (readHeader file).logType < 3

theorem recordSize_pos_iff (type : ℕ) : recordSizeForType type ≠ 0 ↔ type < 3 := by
  rcases type with _ | _ | _ | n
  · simp [recordSizeForType]
  · simp [recordSizeForType]
  · simp [recordSizeForType]
  · simp [recordSizeForType]

theorem timestamp_fits (type : ℕ) (h : type < 3) :
    timestampOffsetForType type+8 ≤ recordSizeForType type := by
  interval_cases type <;> decide

def opened (file : Bytes) : LogReader where
  mappedData := file
  recordSize := recordSizeForType (readHeader file).logType
  recordCount := (file.length-headerSize)/recordSizeForType (readHeader file).logType
  timestampOffset := timestampOffsetForType (readHeader file).logType
  header := readHeader file

theorem openFile_eq_some_iff (file : Bytes) (reader : LogReader) :
    openFile file = some reader ↔ Accepted file ∧ opened file = reader := by
  have hsize := recordSize_pos_iff (readHeader file).logType
  unfold openFile
  dsimp only
  split_ifs with hlong hmagic hzero
  · simp only [false_iff]
    exact fun h => absurd h.1.long (by omega)
  · simp only [false_iff]
    exact fun h => hmagic h.1.magic
  · simp only [false_iff]
    exact fun h => hsize.mpr h.1.type hzero
  · constructor
    · intro h
      exact ⟨⟨not_lt.mp hlong,not_not.mp hmagic,hsize.mp hzero⟩,Option.some.inj h⟩
    · intro h
      exact congrArg some h.2

theorem openFile_isSome_iff (file : Bytes) : (openFile file).isSome ↔ Accepted file := by
  rw [Option.isSome_iff_exists]
  simp only [openFile_eq_some_iff]
  exact ⟨fun ⟨_,h,_⟩ => h,fun h => ⟨_,h,rfl⟩⟩

section Opened
variable (file : Bytes)

theorem lt_recordCount_iff (h : Accepted file) (i : ℕ) : i < (opened file).recordCount ↔
    headerSize+(i+1)*(opened file).recordSize ≤ file.length := by
  have hpos : 0 < (opened file).recordSize :=
    Nat.pos_of_ne_zero ((recordSize_pos_iff _).mpr h.type)
  have hlong := h.long
  show i < (file.length-headerSize)/(opened file).recordSize ↔ _
  rw [Nat.lt_iff_add_one_le, Nat.le_div_iff_mul_le hpos]
  omega

theorem recordAt_span (i : ℕ) :
    (opened file).recordAt i = ((opened file).recordSpan i).map (Span.bytes file) := by
  unfold recordAt recordSpan
  split_ifs
  · rfl
  · rw [Option.map_some, Span.bytes, recordIn, List.drop_drop]
    rfl

theorem recordSpan_inside (h : Accepted file) (i : ℕ) (s : Span)
    (hs : s ∈ (opened file).recordSpan i) :
    s.Inside file ∧ s.length = recordSizeForType (opened file).logType := by
  unfold recordSpan at hs
  split_ifs at hs with hi
  · cases hs
  · cases hs
    have hfit := (lt_recordCount_iff file h i).mp (not_le.mp hi)
    rw [Nat.add_mul, Nat.one_mul] at hfit
    refine ⟨?_,rfl⟩
    unfold Span.Inside
    dsimp only
    omega

theorem opened_readsInside (h : Accepted file) : ReadsInside file (opened file) := by
  have hspan := recordSpan_inside file h
  have hfits := timestamp_fits _ h.type
  constructor
  case record => exact fun i => ⟨recordAt_span file i,fun s hs => (hspan i s hs).1⟩
  case typed =>
    intro type i
    unfold typedAt typedSpan
    by_cases ht : (opened file).logType = type
    · subst ht
      rw [if_neg (not_not.mpr rfl), if_neg (not_not.mpr rfl), recordAt_span]
      cases hs : (opened file).recordSpan i with
      | none => exact ⟨rfl,fun s hs => by cases hs⟩
      | some s =>
        obtain ⟨hin,hlength⟩ := hspan i s hs
        have hpart : s.part 0 (recordSizeForType (opened file).logType) = s := by
          rw [← hlength]
          rfl
        simp only [Option.map_some, hpart]
        exact ⟨trivial,fun s' hs' => by cases hs'; exact hin⟩
    · rw [if_pos ht, if_pos ht]
      exact ⟨rfl,fun s hs => by cases hs⟩
  case timestamp =>
    intro i
    unfold timestampAt timestampSpan
    rw [recordAt_span]
    cases hs : (opened file).recordSpan i with
    | none => exact ⟨rfl,fun s hs => by cases hs⟩
    | some s =>
      obtain ⟨hin,hlength⟩ := hspan i s hs
      have hfit : (opened file).timestampOffset+8 ≤ s.length := hlength ▸ hfits
      refine ⟨?_,fun s' hs' => by cases hs'; exact s.part_inside file _ 8 hin hfit⟩
      simp only [Option.map_some, Option.getD_some, s.part_bytes file _ 8 hfit]
      rfl
  case complete =>
    intro i hi
    have hlt := (lt_recordCount_iff file h i).mpr hi
    exact if_neg (not_le.mpr hlt)

end Opened

def ReadsWellFormed (file : Bytes) : Prop :=
  ((openFile file).isSome ↔ WellFormed file) ∧
    ∀ reader, openFile file = some reader → ReadsInside file reader

/-- The version field is the current one, or the file is refused for its
length, its magic number or its type. -/
def NoOtherVersion (file : Bytes) : Prop :=
  (readHeader file).version = logVersion ∨ file.length < headerSize ∨
    (readHeader file).magic ≠ logMagic ∨ 3 ≤ (readHeader file).logType

theorem readsWellFormed_iff (file : Bytes) : ReadsWellFormed file ↔ NoOtherVersion file := by
  have hinside : ∀ reader, openFile file = some reader → ReadsInside file reader := by
    intro reader hreader
    obtain ⟨haccepted,rfl⟩ := (openFile_eq_some_iff file reader).mp hreader
    exact opened_readsInside file haccepted
  unfold ReadsWellFormed
  rw [and_iff_left hinside, openFile_isSome_iff]
  constructor
  · intro h
    by_cases haccepted : Accepted file
    · exact Or.inl (h.mp haccepted).version
    · by_contra hno
      unfold NoOtherVersion at hno
      push Not at hno
      exact haccepted ⟨hno.2.1,hno.2.2.1,hno.2.2.2⟩
  · intro h
    constructor
    · intro haccepted
      refine ⟨haccepted.long,haccepted.magic,?_,haccepted.type⟩
      rcases h with hversion | hshort | hmagic | htype
      · exact hversion
      · exact absurd haccepted.long (not_le.mpr hshort)
      · exact absurd haccepted.magic hmagic
      · exact absurd haccepted.type (not_lt.mpr htype)
    · exact fun hwell => ⟨hwell.long,hwell.magic,hwell.type⟩

def versionTwo : Bytes :=
  encode 8 logMagic++encode 4 2++encode 4 0++List.replicate 48 0

theorem versionTwo_opened : (openFile versionTwo).isSome = true ∧ ¬WellFormed versionTwo ∧
    ¬ReadsWellFormed versionTwo := by
  have hopen : (openFile versionTwo).isSome = true := by decide +kernel
  have hversion : (readHeader versionTwo).version ≠ logVersion := by decide +kernel
  have hnot : ¬WellFormed versionTwo := fun h => hversion h.version
  exact ⟨hopen,hnot,fun h => hnot (h.1.mp hopen)⟩

end Chronos.LogReader
