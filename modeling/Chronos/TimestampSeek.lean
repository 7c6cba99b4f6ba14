import Chronos.LogFileAccess
import Chronos.SearchedArray

/-!
# Seeking a timestamp

`seekToTimestamp` looks at the last record and then halves the range of
indices. On a log in order of time it finds the first record that is not
earlier; on any log it stays among the records.
-/

set_option autoImplicit false

namespace Chronos.LogReader
open ByteRecords SearchedArray

section Seek
variable (reader : LogReader) (timestampUs : ℕ)

def seekToTimestamp : ℕ :=
  if reader.recordCount = 0 then 0
  -- every record is earlier
  else if reader.timestampAt (reader.recordCount-1) < timestampUs then reader.recordCount
  else lowerBound (fun mid => reader.timestampAt mid < timestampUs) 0 reader.recordCount

def seekReads : List ℕ :=
  if reader.recordCount = 0 then []
  else if reader.timestampAt (reader.recordCount-1) < timestampUs then [reader.recordCount-1]
  else (reader.recordCount-1)::
    probes (fun mid => reader.timestampAt mid < timestampUs) 0 reader.recordCount

def Chronological : Prop :=
  ∀ i j, i ≤ j → j < reader.recordCount → reader.timestampAt i ≤ reader.timestampAt j

def earlier : ℕ :=
  (List.range reader.recordCount).countP (fun i => reader.timestampAt i < timestampUs)

theorem seek_le : reader.seekToTimestamp timestampUs ≤ reader.recordCount := by
  unfold seekToTimestamp
  split_ifs
  · exact Nat.zero_le _
  · exact le_refl _
  · exact lowerBound_le _ 0 _ (Nat.zero_le _)

theorem seekReads_lt : ∀ i ∈ reader.seekReads timestampUs, i < reader.recordCount := by
  unfold seekReads
  split_ifs with hzero hlast
  · simp
  · simpa using Nat.pos_of_ne_zero hzero
  · exact List.forall_mem_cons.mpr ⟨by omega,probes_lt _ 0 _⟩

/-- Two readers with as many records and the same timestamps where one of them
is read are searched alike. -/
theorem seek_congr (other : LogReader) (hcount : other.recordCount = reader.recordCount)
    (h : ∀ i ∈ reader.seekReads timestampUs, other.timestampAt i = reader.timestampAt i) :
    other.seekToTimestamp timestampUs = reader.seekToTimestamp timestampUs := by
  unfold seekReads at h
  unfold seekToTimestamp
  rw [hcount]
  by_cases hzero : reader.recordCount = 0
  · rw [if_pos hzero, if_pos hzero]
  rw [if_neg hzero] at h ⊢
  rw [if_neg hzero]
  by_cases hlast : reader.timestampAt (reader.recordCount-1) < timestampUs
  · rw [if_pos hlast] at h ⊢
    rw [h _ (List.mem_singleton.mpr rfl), if_pos hlast]
  · rw [if_neg hlast] at h ⊢
    obtain ⟨hend,hprobes⟩ := List.forall_mem_cons.mp h
    rw [hend, if_neg hlast]
    exact (lowerBound_congr _ _ 0 _ (fun i hi => by rw [hprobes i hi])).1

theorem earlier_downward (h : reader.Chronological) :
    Downward (fun i => reader.timestampAt i < timestampUs) reader.recordCount := by
  intro i j hij hj hp
  have hle := h i j hij hj
  simp only [decide_eq_true_eq] at hp ⊢
  omega

theorem seek_separates (h : reader.Chronological) :
    (∀ i < reader.seekToTimestamp timestampUs, reader.timestampAt i < timestampUs) ∧
      ∀ i, reader.seekToTimestamp timestampUs ≤ i → i < reader.recordCount →
        timestampUs ≤ reader.timestampAt i := by
  unfold seekToTimestamp
  split_ifs with hzero hlast
  · exact ⟨fun i hi => by omega,fun i _ hi => by omega⟩
  · refine ⟨fun i hi => ?_,fun i hle hi => by omega⟩
    have hle := h i (reader.recordCount-1) (by omega) (by omega)
    omega
  · have hspec := lowerBound_spec _ reader.recordCount 0 reader.recordCount
      (earlier_downward reader timestampUs h) (fun i hi => by omega) (fun i hi hn => by omega)
      (Nat.zero_le _) (le_refl _)
    exact ⟨fun i hi => of_decide_eq_true (hspec.2.1 i hi),
      fun i hle hi => not_lt.mp (fun hlt => hspec.2.2 i hle hi (decide_eq_true hlt))⟩

theorem seek_earlier (h : reader.Chronological) :
    reader.seekToTimestamp timestampUs = reader.earlier timestampUs := by
  obtain ⟨hleft,hright⟩ := seek_separates reader timestampUs h
  refine (countP_range _ _ _ (reader.seek_le timestampUs) ?_ ?_).symm
  · exact fun i hi => decide_eq_true (hleft i hi)
  · intro i hle hi hlt
    exact absurd (of_decide_eq_true hlt) (not_lt.mpr (hright i hle hi))

end Seek

theorem timestampSpan_inside (file : Bytes) (reader : LogReader)
    (hopen : openFile file = some reader) (i : ℕ) (hi : i < reader.recordCount) :
    ∃ s, reader.timestampSpan i = some s ∧ s.Inside file := by
  obtain ⟨haccepted,rfl⟩ := (openFile_eq_some_iff file reader).mp hopen
  have hspan : (opened file).timestampSpan i =
      some ((⟨headerSize+i*(opened file).recordSize,(opened file).recordSize⟩ : Span).part
        (opened file).timestampOffset 8) := by
    rw [timestampSpan, recordSpan, if_neg (not_le.mpr hi)]
    rfl
  exact ⟨_,hspan,((opened_readsInside file haccepted).timestamp i).2 _ hspan⟩

/-- A seek stays among the records of every log, reads only these and depends on
nothing else; on a log in order of time it returns the number of earlier records, which is the first
index not earlier, if there is one. -/
theorem seekToTimestamp_exact (reader : LogReader) (timestampUs : ℕ) :
    reader.seekToTimestamp timestampUs ≤ reader.recordCount ∧
      (∀ i ∈ reader.seekReads timestampUs, i < reader.recordCount ∧
        ∀ file, openFile file = some reader →
          ∃ s, reader.timestampSpan i = some s ∧ s.Inside file) ∧
      (∀ other : LogReader, other.recordCount = reader.recordCount →
        (∀ i ∈ reader.seekReads timestampUs, other.timestampAt i = reader.timestampAt i) →
        other.seekToTimestamp timestampUs = reader.seekToTimestamp timestampUs) ∧
      (reader.Chronological →
        reader.seekToTimestamp timestampUs = reader.earlier timestampUs ∧
        (∀ i < reader.seekToTimestamp timestampUs, reader.timestampAt i < timestampUs) ∧
        ∀ i, reader.seekToTimestamp timestampUs ≤ i → i < reader.recordCount →
          timestampUs ≤ reader.timestampAt i) := by
  refine ⟨reader.seek_le timestampUs,?_,reader.seek_congr timestampUs,?_⟩
  · intro i hi
    have hlt := reader.seekReads_lt timestampUs i hi
    exact ⟨hlt,fun file hopen => timestampSpan_inside file reader hopen i hlt⟩
  · exact fun h => ⟨reader.seek_earlier timestampUs h,reader.seek_separates timestampUs h⟩

def threeTicks : Bytes :=
  encode 8 logMagic++encode 4 1++encode 4 0++List.replicate 48 0++
    [5,7,7].flatMap (fun t => encode 8 t++List.replicate 56 0)

theorem threeTicks_chronological : (opened threeTicks).Chronological := by
  have hcount : (opened threeTicks).recordCount = 3 := by decide +kernel
  have hall : ∀ j < 3, ∀ i < j+1,
      (opened threeTicks).timestampAt i ≤ (opened threeTicks).timestampAt j := by decide +kernel
  intro i j hij hj
  exact hall j (hcount ▸ hj) i (by omega)

theorem threeTicks_sought : (opened threeTicks).seekToTimestamp 7 = (opened threeTicks).earlier 7 ∧
    (opened threeTicks).seekToTimestamp 7 = 1 :=
  ⟨((seekToTimestamp_exact (opened threeTicks) 7).2.2.2 threeTicks_chronological).1,by decide +kernel⟩

end Chronos.LogReader
