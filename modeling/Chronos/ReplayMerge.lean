import Chronos.TimeReplayer

/-!
# The replay is a merge

The heap holds exactly one entry for each stream that is not at its end, with
the timestamp of the stream's next record, and the events processed are the
records the streams have passed. So the heap is not empty before the count is
full, and each delivery is the next record of some stream. If the timestamps
of every stream do not decrease, nothing in the heap is older than what was
delivered.
-/

set_option autoImplicit false

namespace Chronos.TimeReplayer
open ByteRecords

def Current (streams : List StreamPos) (e : HeapEntry) : Prop :=
  ∃ sp, streams[e.streamIdx]? = some sp ∧ sp.pos < sp.reader.recordCount ∧
    e.timestamp = sp.reader.timestampAt sp.pos

def Delivery.seen (d : Delivery) : ℕ × Option Bytes × ℕ := (d.callback.logType,some d.record,d.time)

def recordSeen (reader : LogReader) (i : ℕ) : ℕ × Option Bytes × ℕ :=
  (reader.logType,reader.recordAt i,reader.timestampAt i)

def deliveredFrom (j : ℕ) (ds : List Delivery) : List Delivery := ds.filter (fun d => d.stream = j)

structure Inv (rs : List LogReader) (s : TimeReplayer) : Prop where
  readers : s.streams.map StreamPos.reader = rs
  bounded : ∀ sp ∈ s.streams, sp.pos ≤ sp.reader.recordCount
  nodup : s.heap.Nodup
  heap : ∀ e, e ∈ s.heap ↔ Current s.streams e
  processed : s.eventsProcessed = (s.streams.map StreamPos.pos).sum
  total : s.totalEvents = (rs.map LogReader.recordCount).sum
  count : s.delivered.length = s.eventsProcessed
  history : ∀ (j : ℕ) (sp : StreamPos), s.streams[j]? = some sp →
    (deliveredFrom j s.delivered).map Delivery.seen = (List.range sp.pos).map (recordSeen sp.reader)
  running : s.paused = false

section Records
variable (reader : LogReader)

theorem recordAt_of_lt (i : ℕ) (h : i < reader.recordCount) : ∃ record, reader.recordAt i = some record :=
  ⟨_,if_neg (Nat.not_le.mpr h)⟩

theorem eventAt_of_lt (ht : reader.logType < 3) (i : ℕ) (h : i < reader.recordCount) :
    ∃ callback record, eventAt reader i = some (callback,record) ∧
      callback.logType = reader.logType ∧ reader.recordAt i = some record := by
  obtain ⟨record,hrecord⟩ := recordAt_of_lt reader i h
  unfold eventAt LogReader.tickAt LogReader.orderAt LogReader.fillAt LogReader.typedAt
  rcases htype : reader.logType with _ | _ | _ | n
  · exact ⟨.tick,record,by simp [hrecord],rfl,hrecord⟩
  · exact ⟨.order,record,by simp [hrecord],rfl,hrecord⟩
  · exact ⟨.fill,record,by simp [hrecord],rfl,hrecord⟩
  · omega

end Records

theorem sum_pos_set (streams : List StreamPos) (j : ℕ) (sp sp' : StreamPos)
    (h : streams[j]? = some sp) :
    ((streams.set j sp').map StreamPos.pos).sum+sp.pos = (streams.map StreamPos.pos).sum+sp'.pos := by
  induction streams generalizing j with
  | nil => simp at h
  | cons x xs ih =>
    cases j with
    | zero =>
      obtain rfl : x = sp := by simpa using h
      simp
      omega
    | succ j =>
      have hrest := ih j (by simpa using h)
      simp only [List.set_cons_succ, List.map_cons, List.sum_cons]
      omega

/-- A stream short of its end, when the positions add up to less than the counts. -/
theorem exists_unfinished (streams : List StreamPos)
    (h : (streams.map StreamPos.pos).sum < ((streams.map StreamPos.reader).map LogReader.recordCount).sum) :
    ∃ (j : ℕ) (sp : StreamPos), streams[j]? = some sp ∧ sp.pos < sp.reader.recordCount := by
  induction streams with
  | nil => simp at h
  | cons x xs ih =>
    by_cases hx : x.pos < x.reader.recordCount
    · exact ⟨0,x,rfl,hx⟩
    · obtain ⟨j,sp,hj,hsp⟩ := ih (by simp at h ⊢; omega)
      exact ⟨j+1,sp,by simpa using hj,hsp⟩

theorem mem_nextEntry (idx : ℕ) (sp : StreamPos) (e : HeapEntry) :
    e ∈ nextEntry idx sp ↔ e.streamIdx = idx ∧ sp.pos+1 < sp.reader.recordCount ∧
      e.timestamp = sp.reader.timestampAt (sp.pos+1) := by
  obtain ⟨time,j⟩ := e
  unfold nextEntry
  split_ifs with h
  · simp only [List.mem_singleton, HeapEntry.mk.injEq, h, true_and]
    exact and_comm
  · simp [h]

section Step
variable {rs : List LogReader} {s : TimeReplayer} (hinv : Inv rs s)
include hinv

theorem heap_ne_nil (he : s.isExhausted = false) : s.heap ≠ [] := by
  have hlt : s.eventsProcessed < s.totalEvents := by
    simpa [isExhausted] using he
  rw [hinv.processed, hinv.total, ← hinv.readers] at hlt
  obtain ⟨j,sp,hj,hsp⟩ := exists_unfinished s.streams hlt
  have hmem : (⟨sp.reader.timestampAt sp.pos,j⟩ : HeapEntry) ∈ s.heap :=
    (hinv.heap _).mpr ⟨sp,hj,hsp,rfl⟩
  exact List.ne_nil_of_mem hmem

/-- What a call does before the end: some least entry of the heap is processed. -/
theorem advance_cases (order : HeapOrder) (he : s.isExhausted = false) :
    ∃ (entry : HeapEntry) (sp : StreamPos), entry ∈ s.heap ∧ (∀ e ∈ s.heap, entry.timestamp ≤ e.timestamp) ∧
      s.streams[entry.streamIdx]? = some sp ∧ sp.pos < sp.reader.recordCount ∧
      entry.timestamp = sp.reader.timestampAt sp.pos ∧
      s.advanceToNextEvent order = some (s.process entry sp,true) := by
  have hne := heap_ne_nil hinv he
  have hmem := order.top_mem s.eventsProcessed s.heap hne
  obtain ⟨sp,hsp,hpos,htime⟩ := (hinv.heap _).mp hmem
  refine ⟨_,sp,hmem,order.top_least s.eventsProcessed s.heap,hsp,hpos,htime,?_⟩
  simp [advanceToNextEvent, hinv.running, he, hne, hsp]

variable (entry : HeapEntry) (sp : StreamPos) (hmem : entry ∈ s.heap)
  (hsp : s.streams[entry.streamIdx]? = some sp) (hpos : sp.pos < sp.reader.recordCount)
  (htime : entry.timestamp = sp.reader.timestampAt sp.pos)
include hmem hsp hpos htime

omit hpos in
/-- The heap has no other entry of the same stream. -/
theorem eq_of_streamIdx (e : HeapEntry) (he : e ∈ s.heap) (hidx : e.streamIdx = entry.streamIdx) :
    e = entry := by
  obtain ⟨sp',hsp',-,htime'⟩ := (hinv.heap e).mp he
  rw [hidx, hsp, Option.some.injEq] at hsp'
  subst hsp'
  have htimes : e.timestamp = entry.timestamp := by rw [htime', htime]
  cases e
  cases entry
  simp_all

omit hinv hmem hpos htime in
theorem process_streams (j : ℕ) :
    (s.process entry sp).streams[j]? =
      if j = entry.streamIdx then some { sp with pos := sp.pos+1 } else s.streams[j]? := by
  have hlt : entry.streamIdx < s.streams.length := (List.getElem?_eq_some_iff.mp hsp).1
  by_cases hj : j = entry.streamIdx
  · rw [if_pos hj, hj]
    exact List.getElem?_set_self hlt
  · rw [if_neg hj]
    exact List.getElem?_set_ne (Ne.symm hj)

omit hpos in
theorem process_heap (e : HeapEntry) :
    e ∈ (s.process entry sp).heap ↔ Current (s.process entry sp).streams e := by
  rw [Current, process_streams entry sp hsp]
  simp only [process, List.mem_append, hinv.nodup.mem_erase_iff, mem_nextEntry]
  by_cases hidx : e.streamIdx = entry.streamIdx
  · -- the entry of this stream is now that of its next record, if there is one
    have hold : ¬(e ≠ entry ∧ e ∈ s.heap) := by
      rintro ⟨hne,he⟩
      exact hne (eq_of_streamIdx hinv entry sp hmem hsp htime e he hidx)
    rw [or_iff_right hold, if_pos hidx]
    constructor
    · rintro ⟨-,hnext,htime'⟩
      exact ⟨_,rfl,hnext,htime'⟩
    · rintro ⟨sp',hsp',hnext,htime'⟩
      cases hsp'
      exact ⟨hidx,hnext,htime'⟩
  · have hne : e ≠ entry := fun h => hidx (by rw [h])
    rw [or_iff_left (fun h => hidx h.1), if_neg hidx, and_iff_right hne]
    exact hinv.heap e

omit hpos in
theorem process_nodup : (s.process entry sp).heap.Nodup := by
  refine List.Nodup.append (hinv.nodup.erase entry) ?_ ?_
  · unfold nextEntry
    split_ifs <;> simp
  · intro e he hnext
    obtain ⟨hne,hold⟩ := hinv.nodup.mem_erase_iff.mp he
    have hidx := ((mem_nextEntry _ _ _).mp hnext).1
    exact hne (eq_of_streamIdx hinv entry sp hmem hsp htime e hold hidx)

omit hinv hmem hsp in
theorem deliver_eq (htype : sp.reader.logType < 3) :
    ∃ d, deliver entry sp = [d] ∧ d.stream = entry.streamIdx ∧ d.time = entry.timestamp ∧
      d.seen = recordSeen sp.reader sp.pos := by
  obtain ⟨callback,record,hevent,hcallback,hrecord⟩ := eventAt_of_lt sp.reader htype sp.pos hpos
  refine ⟨⟨callback,record,entry.streamIdx,entry.timestamp⟩,?_,rfl,rfl,?_⟩
  · rw [deliver, hevent]
  · rw [Delivery.seen, recordSeen, hcallback, hrecord, htime]

theorem inv_process (htype : sp.reader.logType < 3) : Inv rs (s.process entry sp) := by
  obtain ⟨d,hdeliver,hstream,-,hseen⟩ := deliver_eq entry sp hpos htime htype
  have hdelivered : (s.process entry sp).delivered = s.delivered++[d] := by rw [← hdeliver]; rfl
  constructor
  case readers =>
    rw [← hinv.readers, process, List.map_set]
    apply List.ext_getElem?
    intro j
    by_cases hj : j = entry.streamIdx
    · subst hj
      rw [List.getElem?_map, hsp, List.getElem?_set_self (by simpa using (List.getElem?_eq_some_iff.mp hsp).1)]
      rfl
    · rw [List.getElem?_set_ne (Ne.symm hj)]
  case bounded =>
    intro sp' hsp'
    rcases List.mem_or_eq_of_mem_set hsp' with hold | rfl
    · exact hinv.bounded sp' hold
    · exact hpos
  case nodup => exact process_nodup hinv entry sp hmem hsp htime
  case heap => exact process_heap hinv entry sp hmem hsp htime
  case processed =>
    have hsum := sum_pos_set s.streams entry.streamIdx sp { sp with pos := sp.pos+1 } hsp
    show s.eventsProcessed+1 = ((s.streams.set entry.streamIdx { sp with pos := sp.pos+1 }).map
      StreamPos.pos).sum
    rw [hinv.processed]
    simp only at hsum
    omega
  case total => exact hinv.total
  case count =>
    rw [hdelivered, List.length_append, hinv.count]
    rfl
  case history =>
    intro j sp' hsp'
    rw [process_streams entry sp hsp] at hsp'
    rw [hdelivered, deliveredFrom, List.filter_append, List.map_append]
    by_cases hj : j = entry.streamIdx
    · rw [if_pos hj, Option.some.injEq] at hsp'
      have hold := hinv.history entry.streamIdx sp hsp
      rw [← hsp', hj, List.range_succ, List.map_append, ← hold]
      simp [deliveredFrom, hstream, hseen]
    · rw [if_neg hj] at hsp'
      rw [← hinv.history j sp' hsp']
      simp [deliveredFrom, hstream, Ne.symm hj]
  case running => exact hinv.running

end Step

section Ends
variable {rs : List LogReader} {s : TimeReplayer} (hinv : Inv rs s)
include hinv

theorem Inv.stream_of_reader (j : ℕ) (reader : LogReader) (hj : rs[j]? = some reader) :
    ∃ sp, s.streams[j]? = some sp ∧ sp.reader = reader := by
  rw [← hinv.readers, List.getElem?_map] at hj
  exact Option.map_eq_some_iff.mp hj

/-- At the end every stream is at its end. -/
theorem Inv.pos_eq_count (hfull : s.totalEvents ≤ s.eventsProcessed) (j : ℕ) (sp : StreamPos)
    (hsp : s.streams[j]? = some sp) : sp.pos = sp.reader.recordCount := by
  rw [hinv.processed, hinv.total, ← hinv.readers, List.map_map] at hfull
  have hmem : sp ∈ s.streams := List.mem_of_getElem? hsp
  by_contra hne
  have hlt : sp.pos < sp.reader.recordCount := lt_of_le_of_ne (hinv.bounded sp hmem) hne
  have hsum := List.sum_lt_sum _ _ hinv.bounded ⟨sp,hmem,hlt⟩
  exact absurd hfull (Nat.not_le.mpr hsum)

end Ends

section Times

def NonDecreasing (reader : LogReader) : Prop :=
  ∀ i, i+1 < reader.recordCount → reader.timestampAt i ≤ reader.timestampAt (i+1)

/-- The deliveries so far are in order, and nothing older is in the heap. -/
structure Ordered (s : TimeReplayer) : Prop where
  sorted : (s.delivered.map Delivery.time).Pairwise (fun t t' => t ≤ t')
  ahead : ∀ d ∈ s.delivered, ∀ e ∈ s.heap, d.time ≤ e.timestamp
  current : (s.delivered.map Delivery.time).getLastD 0 = s.currentTime

theorem ordered_process {s : TimeReplayer} (hord : Ordered s) (entry : HeapEntry) (sp : StreamPos)
    (hmem : entry ∈ s.heap) (hleast : ∀ e ∈ s.heap, entry.timestamp ≤ e.timestamp)
    (hpos : sp.pos < sp.reader.recordCount) (htime : entry.timestamp = sp.reader.timestampAt sp.pos)
    (htype : sp.reader.logType < 3) (hmono : NonDecreasing sp.reader) : Ordered (s.process entry sp) := by
  obtain ⟨d,hdeliver,-,hdtime,-⟩ := deliver_eq entry sp hpos htime htype
  have hdelivered : (s.process entry sp).delivered = s.delivered++[d] := by rw [← hdeliver]; rfl
  -- what is in the heap afterwards is not older than the entry
  have hnew : ∀ e ∈ (s.process entry sp).heap, entry.timestamp ≤ e.timestamp := by
    intro e he
    rcases List.mem_append.mp he with hold | hnext
    · exact hleast e (List.mem_of_mem_erase hold)
    · obtain ⟨-,hlt,htime'⟩ := (mem_nextEntry _ _ _).mp hnext
      rw [htime, htime']
      exact hmono sp.pos hlt
  constructor
  case sorted =>
    rw [hdelivered, List.map_append, List.pairwise_append]
    refine ⟨hord.sorted,by simp,?_⟩
    intro t ht t' ht'
    obtain ⟨d',hd',rfl⟩ := List.mem_map.mp ht
    rw [List.map_singleton, List.mem_singleton] at ht'
    rw [ht', hdtime]
    exact hord.ahead d' hd' entry hmem
  case ahead =>
    intro d' hd' e he
    rw [hdelivered, List.mem_append, List.mem_singleton] at hd'
    rcases hd' with hold | rfl
    · exact (hord.ahead d' hold entry hmem).trans (hnew e he)
    · rw [hdtime]
      exact hnew e he
  case current =>
    rw [hdelivered, List.map_append, List.map_singleton, List.getLastD_concat]
    exact hdtime

end Times

section Runs
variable {rs : List LogReader} (htypes : ∀ r ∈ rs, r.logType < 3) (order : HeapOrder)
include htypes

omit htypes in
theorem reader_mem {s : TimeReplayer} (hinv : Inv rs s) (j : ℕ) (sp : StreamPos)
    (hsp : s.streams[j]? = some sp) : sp.reader ∈ rs := by
  rw [← hinv.readers]
  exact List.mem_map_of_mem (List.mem_of_getElem? hsp)

/-- The states of a run, one delivery after the other, each from a heap that is not empty. -/
structure Deliveries (n : ℕ) (states : ℕ → TimeReplayer) : Prop where
  heap : ∀ k < n, (states k).heap ≠ []
  turn : ∀ k < n, (states k).advanceToNextEvent order = some (states (k+1),true)

def prepend (s : TimeReplayer) (states : ℕ → TimeReplayer) : ℕ → TimeReplayer
  | 0 => s
  | k+1 => states k

omit htypes in
theorem deliveries_prepend (s : TimeReplayer) (states : ℕ → TimeReplayer) (n : ℕ) (hheap : s.heap ≠ [])
    (hturn : s.advanceToNextEvent order = some (states 0,true)) (h : Deliveries order n states) :
    Deliveries order (n+1) (prepend s states) := by
  constructor
  case heap =>
    intro k hk
    cases k with
    | zero => exact hheap
    | succ k => exact h.heap k (Nat.lt_of_succ_lt_succ hk)
  case turn =>
    intro k hk
    cases k with
    | zero => exact hturn
    | succ k => exact h.turn k (Nat.lt_of_succ_lt_succ hk)

omit htypes in
theorem forall_prepend (P : TimeReplayer → Prop) (s : TimeReplayer) (states : ℕ → TimeReplayer) (n : ℕ)
    (hs : P s) (h : ∀ k ≤ n, P (states k)) : ∀ k ≤ n+1, P (prepend s states k) := by
  intro k hk
  cases k with
  | zero => exact hs
  | succ k => exact h k (Nat.le_of_succ_le_succ hk)

/-- From every state of the invariant the end is reached, with all events delivered. -/
theorem deliveries_inv (s : TimeReplayer) (hinv : Inv rs s) (left : ℕ)
    (hleft : s.totalEvents-s.eventsProcessed = left) :
    ∃ states, states 0 = s ∧ Deliveries order left states ∧ s.advanceToEnd order = some (states left,left) ∧
      (∀ k ≤ left, Inv rs (states k)) ∧ (states left).isExhausted = true ∧
      ((∀ r ∈ rs, NonDecreasing r) → Ordered s → ∀ k ≤ left, Ordered (states k)) := by
  induction left generalizing s with
  | zero =>
    have he : s.isExhausted = true := by simpa [isExhausted] using Nat.sub_eq_zero_iff_le.mp hleft
    refine ⟨fun _ => s,rfl,⟨fun _ hk => absurd hk (Nat.not_lt_zero _),fun _ hk => absurd hk (Nat.not_lt_zero _)⟩,
      ?_,fun _ _ => hinv,he,fun _ hord _ _ => hord⟩
    rw [advanceToEnd, if_pos he]
  | succ left ih =>
    have he : s.isExhausted = false := by
      simp only [isExhausted, ge_iff_le, decide_eq_false_iff_not, not_le]
      omega
    obtain ⟨entry,sp,hmem,hleast,hsp,hpos,htime,hadvance⟩ := advance_cases hinv order he
    have hreader : sp.reader ∈ rs := reader_mem hinv _ sp hsp
    have hinv' := inv_process hinv entry sp hmem hsp hpos htime (htypes _ hreader)
    obtain ⟨states,hfirst,hruns,hend,hinvs,he',hord'⟩ :=
      ih (s.process entry sp) hinv' (by simp only [process]; omega)
    refine ⟨prepend s states,rfl,deliveries_prepend order s states left (heap_ne_nil hinv he)
      (by rw [hadvance, hfirst]) hruns,?_,forall_prepend (Inv rs) s states left hinv hinvs,he',?_⟩
    · rw [advanceToEnd, if_neg (by simp [he])]
      split
      · rename_i hnone
        rw [hadvance] at hnone
        cases hnone
      · rename_i hfalse
        rw [hadvance] at hfalse
        cases hfalse
      · rename_i htrue
        rw [hadvance] at htrue
        cases htrue
        rw [hend]
        rfl
    · intro hmono hord
      exact forall_prepend Ordered s states left hord (hord' hmono
        (ordered_process hord entry sp hmem hleast hpos htime (htypes _ hreader) (hmono _ hreader)))

theorem advanceToEnd_inv (s : TimeReplayer) (hinv : Inv rs s) :
    ∃ s', s.advanceToEnd order = some (s',s.totalEvents-s.eventsProcessed) ∧ Inv rs s' ∧
      s'.isExhausted = true ∧ ((∀ r ∈ rs, NonDecreasing r) → Ordered s → Ordered s') := by
  obtain ⟨states,-,-,hend,hinvs,he,hord⟩ := deliveries_inv htypes order s hinv _ rfl
  exact ⟨_,hend,hinvs _ le_rfl,he,fun hmono hs => hord hmono hs _ le_rfl⟩

omit htypes in
theorem advance_processed (s s' : TimeReplayer) (h : s.advanceToNextEvent order = some (s',true)) :
    s'.eventsProcessed = s.eventsProcessed+1 := by
  rw [advanceToNextEvent] at h
  split_ifs at h
  · cases h
  · cases h
  · dsimp only at h
    split at h
    · cases h
    · cases h
      rfl

omit htypes in
theorem deliveries_processed {n : ℕ} {states : ℕ → TimeReplayer} (h : Deliveries order n states)
    (hstart : (states 0).eventsProcessed = 0) (k : ℕ) (hk : k ≤ n) : (states k).eventsProcessed = k := by
  induction k with
  | zero => exact hstart
  | succ k ih =>
    rw [advance_processed order _ _ (h.turn k hk), ih (le_of_lt hk)]

omit htypes in
/-- A delivery does not set the time back. -/
theorem currentTime_step (s s' : TimeReplayer) (hinv : Inv rs s) (hord : Ordered s)
    (h : s.advanceToNextEvent order = some (s',true)) : s.currentTime ≤ s'.currentTime := by
  cases he : s.isExhausted with
  | true =>
    rw [advanceToNextEvent, if_neg (by simp [hinv.running]), if_pos he] at h
    cases h
  | false =>
    obtain ⟨entry,sp,hmem,-,-,-,-,hadvance⟩ := advance_cases hinv order he
    rw [h, Option.some.injEq, Prod.mk.injEq] at hadvance
    rw [hadvance.1]
    show s.currentTime ≤ entry.timestamp
    rw [← hord.current]
    rcases s.delivered.eq_nil_or_concat with hnone | ⟨front,d,hlast⟩
    · rw [hnone]
      exact Nat.zero_le _
    · have hd := hord.ahead d (by rw [hlast]; simp) entry hmem
      rw [hlast, List.concat_eq_append, List.map_append, List.map_singleton, List.getLastD_concat]
      exact hd

end Runs

section Start

def streamsOf (readers : List LogReader) : List LogReader := readers.filter (fun r => r.recordCount ≠ 0)

theorem inv_empty : Inv [] empty where
  readers := rfl
  bounded := by simp [empty]
  nodup := List.nodup_nil
  heap := by simp [empty, Current]
  processed := rfl
  total := rfl
  count := rfl
  history := by simp [empty]
  running := rfl

theorem getElem?_concat (streams : List StreamPos) (sp : StreamPos) (j : ℕ) :
    (streams++[sp])[j]? = if j = streams.length then some sp else streams[j]? := by
  by_cases hj : j = streams.length
  · simp [hj]
  · rw [if_neg hj]
    by_cases hlt : j < streams.length
    · exact List.getElem?_append_left hlt
    · rw [List.getElem?_eq_none (by rw [List.length_append, List.length_singleton]; omega),
        List.getElem?_eq_none (by omega)]

theorem inv_addStream {rs : List LogReader} {s : TimeReplayer} (hinv : Inv rs s)
    (hstart : s.delivered = []) (reader : LogReader) (hne : reader.recordCount ≠ 0) :
    Inv (rs++[reader]) (s.addStream reader) := by
  have hadd : s.addStream reader = { s with
      streams := s.streams++[⟨reader,0⟩]
      totalEvents := s.totalEvents+reader.recordCount
      heap := s.heap++[⟨reader.timestampAt 0,s.streams.length⟩] } := if_neg hne
  have hstreams := getElem?_concat s.streams ⟨reader,0⟩
  -- no entry of the heap is one of the new stream
  have hold : ∀ e ∈ s.heap, e.streamIdx ≠ s.streams.length := by
    intro e he hidx
    obtain ⟨sp,hsp,-⟩ := (hinv.heap e).mp he
    rw [hidx, List.getElem?_eq_none le_rfl] at hsp
    cases hsp
  rw [hadd]
  constructor
  case readers => rw [← hinv.readers]; simp
  case bounded =>
    intro sp hsp
    rcases List.mem_append.mp hsp with hsp | hsp
    · exact hinv.bounded sp hsp
    · rw [List.mem_singleton.mp hsp]
      exact Nat.zero_le _
  case nodup =>
    refine List.Nodup.append hinv.nodup (List.nodup_singleton _) ?_
    intro e he hnew
    exact hold e he (by rw [List.mem_singleton.mp hnew])
  case heap =>
    intro e
    rw [List.mem_append, List.mem_singleton, Current]
    simp only [hstreams]
    by_cases hidx : e.streamIdx = s.streams.length
    · rw [or_iff_right (fun he => hold e he hidx), if_pos hidx]
      constructor
      · intro he
        exact ⟨_,rfl,Nat.pos_of_ne_zero hne,by rw [he]⟩
      · rintro ⟨sp,hsp,-,htime⟩
        cases hsp
        cases e
        simp_all
    · rw [or_iff_left (fun he => hidx (by rw [he])), if_neg hidx]
      exact hinv.heap e
  case processed =>
    rw [List.map_append, List.sum_append]
    exact hinv.processed
  case total => simp [hinv.total]
  case count => exact hinv.count
  case history =>
    intro j sp hsp
    simp only [hstreams] at hsp
    split_ifs at hsp with hj
    · cases hsp
      simp [hstart, deliveredFrom]
    · exact hinv.history j sp hsp
  case running => exact hinv.running

theorem inv_foldl_addStream (readers : List LogReader) (rs : List LogReader) (s : TimeReplayer)
    (hinv : Inv rs s) (hstart : s.delivered = []) (htime : s.currentTime = 0) :
    Inv (rs++streamsOf readers) (readers.foldl addStream s) ∧
      (readers.foldl addStream s).delivered = [] ∧ (readers.foldl addStream s).currentTime = 0 := by
  induction readers generalizing rs s with
  | nil => simpa [streamsOf] using ⟨hinv,hstart,htime⟩
  | cons reader readers ih =>
    by_cases hzero : reader.recordCount = 0
    · have hskip : s.addStream reader = s := if_pos hzero
      have hsame : streamsOf (reader::readers) = streamsOf readers := by simp [streamsOf, hzero]
      rw [List.foldl_cons, hskip, hsame]
      exact ih rs s hinv hstart htime
    · have hcons : streamsOf (reader::readers) = reader::streamsOf readers := by
        simp [streamsOf, hzero]
      have hadd := ih (rs++[reader]) (s.addStream reader) (inv_addStream hinv hstart reader hzero)
        (by simp [addStream, hzero, hstart]) (by simp [addStream, hzero, htime])
      rw [List.append_assoc] at hadd
      rw [List.foldl_cons, hcons]
      exact hadd

theorem inv_withStreams (readers : List LogReader) :
    Inv (streamsOf readers) (withStreams readers) ∧ (withStreams readers).delivered = [] ∧
      (withStreams readers).currentTime = 0 := by
  have h := inv_foldl_addStream readers [] empty inv_empty rfl rfl
  rw [List.nil_append] at h
  exact h

end Start

section Files

def readerOn (file : Bytes) : LogReader := (LogReader.openFile file).getD LogReader.closed

theorem readerOn_logType (file : Bytes) (h : (readerOn file).recordCount ≠ 0) :
    (readerOn file).logType < 3 := by
  unfold readerOn LogReader.openFile at h ⊢
  simp only at h ⊢
  split_ifs at h ⊢ with _ _ hsize
  · exact absurd rfl h
  · exact absurd rfl h
  · exact absurd rfl h
  · simp only [Option.getD_some, LogReader.logType]
    by_contra hge
    apply hsize
    obtain ⟨n,hn⟩ := Nat.exists_eq_add_of_le (Nat.not_lt.mp hge)
    rw [hn, Nat.add_comm]
    rfl

theorem streamsOf_logType (files : List Bytes) :
    ∀ r ∈ streamsOf (files.map readerOn), r.logType < 3 := by
  intro r hr
  obtain ⟨hmem,hne⟩ := List.mem_filter.mp hr
  obtain ⟨file,-,rfl⟩ := List.mem_map.mp hmem
  exact readerOn_logType file (by simpa using hne)

theorem sum_streamsOf (readers : List LogReader) :
    ((streamsOf readers).map LogReader.recordCount).sum = (readers.map LogReader.recordCount).sum := by
  induction readers with
  | nil => rfl
  | cons reader readers ih =>
    by_cases hzero : reader.recordCount = 0
    · simpa [streamsOf, hzero] using ih
    · simpa [streamsOf, hzero] using ih

/-- Running to the end, whatever is in the files and however ties are resolved,
delivers as many events as there are records, each stream's records in their
order and to their callback. If the timestamps of no stream decrease, those of
the deliveries do not, nor does the current time from delivery to delivery. -/
theorem replay_is_merge (order : HeapOrder) (files : List Bytes) :
    let start := withStreams (files.map readerOn)
    ∃ states : ℕ → TimeReplayer, states 0 = start ∧ Deliveries order start.totalEvents states ∧
      start.advanceToEnd order = some (states start.totalEvents,start.totalEvents) ∧
      start.totalEvents = ((files.map readerOn).map LogReader.recordCount).sum ∧
      (∀ k ≤ start.totalEvents, (states k).delivered.length = k) ∧
      (∀ (j : ℕ) (reader : LogReader), (streamsOf (files.map readerOn))[j]? = some reader →
        (deliveredFrom j (states start.totalEvents).delivered).map Delivery.seen =
          (List.range reader.recordCount).map (recordSeen reader)) ∧
      ((∀ r ∈ files.map readerOn, NonDecreasing r) →
        ((states start.totalEvents).delivered.map Delivery.time).Pairwise (fun t t' => t ≤ t') ∧
          (∀ k ≤ start.totalEvents,
            ((states k).delivered.map Delivery.time).getLastD 0 = (states k).currentTime) ∧
          ∀ k < start.totalEvents, (states k).currentTime ≤ (states (k+1)).currentTime) := by
  intro start
  obtain ⟨hinv,hnone,hzero⟩ : Inv (streamsOf (files.map readerOn)) start ∧ start.delivered = [] ∧
      start.currentTime = 0 := inv_withStreams (files.map readerOn)
  have hprocessed : start.eventsProcessed = 0 := by
    rw [← hinv.count, hnone]
    rfl
  obtain ⟨states,hfirst,hruns,hend,hinvs,hexhausted,hordered⟩ :=
    deliveries_inv (streamsOf_logType files) order start hinv start.totalEvents (by rw [hprocessed, Nat.sub_zero])
  have hinv' := hinvs _ le_rfl
  have hfull : (states start.totalEvents).totalEvents ≤ (states start.totalEvents).eventsProcessed := by
    simpa [isExhausted] using hexhausted
  refine ⟨states,hfirst,hruns,hend,?_,?_,?_,?_⟩
  · rw [hinv.total, sum_streamsOf]
  · intro k hk
    rw [(hinvs k hk).count]
    exact deliveries_processed order hruns (by rw [hfirst, hprocessed]) k hk
  · intro j reader hj
    obtain ⟨sp,hsp,rfl⟩ := hinv'.stream_of_reader j reader hj
    rw [hinv'.history j sp hsp, hinv'.pos_eq_count hfull j sp hsp]
  · intro hmono
    have hord := hordered (fun r hr => hmono r (List.mem_filter.mp hr).1) {
      sorted := by simp [hnone]
      ahead := by simp [hnone]
      current := by simp [hnone, hzero] }
    exact ⟨(hord _ le_rfl).sorted,fun k hk => (hord k hk).current,fun k hk =>
      currentTime_step order _ _ (hinvs k (le_of_lt hk)) (hord k (le_of_lt hk)) (hruns.turn k hk)⟩

example :
    let log (time : ℕ) : LogReader := ⟨List.replicate 64 0++encode 8 time++List.replicate 56 0,64,1,0,⟨0,0,0,0⟩⟩
    ((withStreams [log 5,LogReader.closed,log 3]).advanceToNextEvent firstLeast).map
      (fun r => r.1.delivered.map (fun d => (d.stream,d.time))) = some [(1,3)] := by decide +kernel

end Files

end Chronos.TimeReplayer
