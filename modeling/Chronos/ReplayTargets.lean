import Chronos.ReplayMerge

/-!
# Advancing to a target

`advanceTo` tests the time of the last delivery before each event. In every
state that is reached without adding streams on the way, the heap has nothing
older than that time, so the call ends with everything before the target
delivered and at most one event from the target on.
-/

set_option autoImplicit false

namespace Chronos.TimeReplayer
open ByteRecords

section Equations
variable (order : HeapOrder) (targetUs : ℕ) (s : TimeReplayer)

def Stopped : Prop := s.isExhausted = true ∨ targetUs ≤ s.currentTime

theorem advanceTo_stopped (h : s.Stopped targetUs) : s.advanceTo order targetUs = some (s,0) := by
  rw [advanceTo, if_pos]
  simpa [Stopped] using h

theorem advanceTo_turn (h : ¬s.Stopped targetUs) : s.advanceTo order targetUs =
    match s.advanceToNextEvent order with
    | none => none
    | some (s',false) => some (s',0)
    | some (s',true) => (s'.advanceTo order targetUs).map (fun r => (r.1,r.2+1)) := by
  rw [advanceTo, if_neg (by simpa [Stopped] using h)]
  split
  · rename_i hnone
    rw [hnone]
  · rename_i hfalse
    rw [hfalse]
  · rename_i s' htrue
    rw [htrue]
    show _ = (s'.advanceTo order targetUs).map _
    cases s'.advanceTo order targetUs <;> rfl

theorem advanceTo_paused (h : ¬s.Stopped targetUs) (s' : TimeReplayer)
    (hnext : s.advanceToNextEvent order = some (s',false)) :
    s.advanceTo order targetUs = some (s',0) := by
  rw [advanceTo_turn order targetUs s h, hnext]

theorem advanceTo_undefined (h : ¬s.Stopped targetUs) (hnext : s.advanceToNextEvent order = none) :
    s.advanceTo order targetUs = none := by
  rw [advanceTo_turn order targetUs s h, hnext]

theorem advanceTo_next (h : ¬s.Stopped targetUs) (s' : TimeReplayer)
    (hnext : s.advanceToNextEvent order = some (s',true)) :
    s.advanceTo order targetUs = (s'.advanceTo order targetUs).map (fun r => (r.1,r.2+1)) := by
  rw [advanceTo_turn order targetUs s h, hnext]

theorem advance_false (s' : TimeReplayer) (h : s.advanceToNextEvent order = some (s',false)) :
    s' = s := by
  unfold advanceToNextEvent at h
  split_ifs at h
  · cases h
    rfl
  · cases h
    rfl
  · dsimp only at h
    cases hsp : s.streams[(order.top s.eventsProcessed s.heap).streamIdx]? with
    | none =>
      rw [hsp] at h
      cases h
    | some sp =>
      rw [hsp] at h
      cases h

end Equations

structure Arrived (rs : List LogReader) (targetUs : ℕ) (s s' : TimeReplayer) (n : ℕ) : Prop where
  inv : Inv rs s'
  ordered : Ordered s'
  stopped : s'.Stopped targetUs
  calls : ∃ calls, s'.delivered = s.delivered++calls ∧ calls.length = n ∧
    (calls.filter (fun d => targetUs ≤ d.time)).length ≤ 1

section Calls
variable {rs : List LogReader} (htypes : ∀ r ∈ rs, r.logType < 3)
  (hmono : ∀ r ∈ rs, NonDecreasing r) (order : HeapOrder) (targetUs : ℕ)
include htypes hmono

/-- The loop by induction on the events that are left: the event that reaches
the target is the last one. -/
theorem advanceTo_arrives (s : TimeReplayer) (hinv : Inv rs s) (hord : Ordered s) :
    ∃ s' n, s.advanceTo order targetUs = some (s',n) ∧ Arrived rs targetUs s s' n := by
  induction hleft : s.totalEvents-s.eventsProcessed generalizing s with
  | zero =>
    have hstop : s.Stopped targetUs :=
      Or.inl (by simpa [isExhausted] using Nat.sub_eq_zero_iff_le.mp hleft)
    exact ⟨s,0,advanceTo_stopped order targetUs s hstop,hinv,hord,hstop,[],by simp⟩
  | succ left ih =>
    by_cases hstop : s.Stopped targetUs
    · exact ⟨s,0,advanceTo_stopped order targetUs s hstop,hinv,hord,hstop,[],by simp⟩
    · have he : s.isExhausted = false := by
        simp only [isExhausted, ge_iff_le, decide_eq_false_iff_not, not_le]
        omega
      obtain ⟨entry,sp,hmem,hleast,hsp,hpos,htime,hadvance⟩ := advance_cases hinv order he
      have hreader : sp.reader ∈ rs := reader_mem hinv _ sp hsp
      have htype := htypes _ hreader
      have hinv' := inv_process hinv entry sp hmem hsp hpos htime htype
      have hord' := ordered_process hord entry sp hmem hleast hpos htime htype (hmono _ hreader)
      obtain ⟨d,hdeliver,-,hdtime,-⟩ := deliver_eq entry sp hpos htime htype
      have hdelivered : (s.process entry sp).delivered = s.delivered++[d] := by rw [← hdeliver]; rfl
      have hnext := advanceTo_next order targetUs s hstop _ hadvance
      by_cases hreached : targetUs ≤ entry.timestamp
      · have hstop' : (s.process entry sp).Stopped targetUs := Or.inr hreached
        rw [advanceTo_stopped order targetUs _ hstop'] at hnext
        exact ⟨_,1,hnext,hinv',hord',hstop',[d],hdelivered,rfl,List.length_filter_le _ _⟩
      · obtain ⟨s',n,hrest,harrived⟩ := ih (s.process entry sp) hinv' hord'
          (by simp only [process]; omega)
        obtain ⟨calls,hcalls,hlength,hone⟩ := harrived.calls
        rw [hrest] at hnext
        have hbefore : ¬targetUs ≤ d.time := hdtime ▸ hreached
        refine ⟨s',n+1,hnext,harrived.inv,harrived.ordered,harrived.stopped,d::calls,?_,?_,?_⟩
        · rw [hcalls, hdelivered, List.append_assoc]
          rfl
        · rw [List.length_cons, hlength]
        · rw [List.filter_cons_of_neg (by simpa using hbefore)]
          exact hone

end Calls

/-- Two calls with rising targets are one call with the later. -/
theorem advanceTo_advanceTo (order : HeapOrder) (t t' : ℕ) (htt : t ≤ t') (s s' : TimeReplayer)
    (n : ℕ) (h : s.advanceTo order t = some (s',n)) :
    s.advanceTo order t' = (s'.advanceTo order t').map (fun r => (r.1,r.2+n)) := by
  induction hleft : s.totalEvents-s.eventsProcessed using Nat.strong_induction_on
    generalizing s n with
  | _ left ih =>
    have hnone : (s'.advanceTo order t').map (fun r => (r.1,r.2+0)) = s'.advanceTo order t' := by
      cases s'.advanceTo order t' <;> rfl
    by_cases hstop : s.Stopped t
    · rw [advanceTo_stopped order t s hstop] at h
      cases h
      exact hnone.symm
    · have hstop' : ¬s.Stopped t' := fun hs => hstop (hs.imp_right htt.trans)
      cases hadvance : s.advanceToNextEvent order with
      | none =>
        rw [advanceTo_undefined order t s hstop hadvance] at h
        cases h
      | some r =>
        obtain ⟨s1,more⟩ := r
        cases more with
        | false =>
          obtain rfl := advance_false order s s1 hadvance
          rw [advanceTo_paused order t s1 hstop s1 hadvance] at h
          cases h
          exact hnone.symm
        | true =>
          rw [advanceTo_next order t s hstop s1 hadvance, Option.map_eq_some_iff] at h
          obtain ⟨⟨s2,m⟩,hm,heq⟩ := h
          cases heq
          have hprogress := advance_progress order s s1 hadvance
          have hrest := ih _ (hleft ▸ hprogress) s1 m hm rfl
          rw [advanceTo_next order t' s hstop' s1 hadvance, hrest, Option.map_map]
          rfl

section Reached
variable {rs : List LogReader}

structure Sound (rs : List LogReader) (s : TimeReplayer) : Prop where
  inv : Inv rs s.resume
  ordered : Ordered s.resume

/-- The states the calls of a user lead to once the streams are added. -/
inductive Reachable (order : HeapOrder) (readers : List LogReader) : TimeReplayer → Prop where
  | start : Reachable order readers (withStreams readers)
  | pause {s : TimeReplayer} : Reachable order readers s → Reachable order readers s.pause
  | resume {s : TimeReplayer} : Reachable order readers s → Reachable order readers s.resume
  | next {s s' : TimeReplayer} {more : Bool} : Reachable order readers s →
      s.advanceToNextEvent order = some (s',more) → Reachable order readers s'
  | toTarget {s s' : TimeReplayer} {targetUs n : ℕ} : Reachable order readers s →
      s.advanceTo order targetUs = some (s',n) → Reachable order readers s'
  | toEnd {s s' : TimeReplayer} {n : ℕ} : Reachable order readers s →
      s.advanceToEnd order = some (s',n) → Reachable order readers s'

theorem advance_paused (order : HeapOrder) (s : TimeReplayer) (h : s.paused = true) :
    s.advanceToNextEvent order = some (s,false) := by
  unfold advanceToNextEvent
  rw [if_pos h]

theorem resume_of_running (s : TimeReplayer) (h : s.paused = false) : s.resume = s := by
  unfold resume
  rw [← h]

theorem Sound.of_running {s : TimeReplayer} (hinv : Inv rs s) (hord : Ordered s) : Sound rs s := by
  have h := resume_of_running s hinv.running
  constructor
  · rw [h]
    exact hinv
  · rw [h]
    exact hord

variable (htypes : ∀ r ∈ rs, r.logType < 3) (hmono : ∀ r ∈ rs, NonDecreasing r) (order : HeapOrder)
include htypes hmono

theorem Sound.next {s s' : TimeReplayer} {more : Bool} (hs : Sound rs s)
    (h : s.advanceToNextEvent order = some (s',more)) : Sound rs s' := by
  by_cases hp : s.paused = true
  · rw [advance_paused order s hp] at h
    cases h
    exact hs
  · have hrun := resume_of_running s (Bool.eq_false_of_not_eq_true hp)
    have hinv := hrun ▸ hs.inv
    have hord := hrun ▸ hs.ordered
    by_cases he : s.isExhausted = true
    · unfold advanceToNextEvent at h
      rw [if_neg hp, if_pos he] at h
      cases h
      exact hs
    · obtain ⟨entry,sp,hmem,hleast,hsp,hpos,htime,hadvance⟩ :=
        advance_cases hinv order (Bool.eq_false_of_not_eq_true he)
      have hreader : sp.reader ∈ rs := reader_mem hinv _ sp hsp
      have htype := htypes _ hreader
      cases hadvance.symm.trans h
      exact .of_running (inv_process hinv entry sp hmem hsp hpos htime htype)
        (ordered_process hord entry sp hmem hleast hpos htime htype (hmono _ hreader))

theorem Sound.toTarget {s s' : TimeReplayer} {targetUs n : ℕ} (hs : Sound rs s)
    (h : s.advanceTo order targetUs = some (s',n)) : Sound rs s' := by
  by_cases hp : s.paused = true
  · by_cases hstop : s.Stopped targetUs
    · rw [advanceTo_stopped order targetUs s hstop] at h
      cases h
      exact hs
    · rw [advanceTo_paused order targetUs s hstop s (advance_paused order s hp)] at h
      cases h
      exact hs
  · have hrun := resume_of_running s (Bool.eq_false_of_not_eq_true hp)
    obtain ⟨s1,m,hcall,harrived⟩ := advanceTo_arrives htypes hmono order targetUs s
      (hrun ▸ hs.inv) (hrun ▸ hs.ordered)
    cases hcall.symm.trans h
    exact .of_running harrived.inv harrived.ordered

theorem Sound.toEnd {s s' : TimeReplayer} {n : ℕ} (hs : Sound rs s)
    (h : s.advanceToEnd order = some (s',n)) : Sound rs s' := by
  by_cases hp : s.paused = true
  · have hsame : s' = s := by
      rw [advanceToEnd] at h
      split_ifs at h
      · cases h
        rfl
      · split at h
        · cases h
        · rename_i hfalse
          cases h
          exact advance_false order s _ hfalse
        · rename_i htrue
          cases (advance_paused order s hp).symm.trans htrue
    rw [hsame]
    exact hs
  · have hrun := resume_of_running s (Bool.eq_false_of_not_eq_true hp)
    obtain ⟨s1,hcall,hinv,-,hord⟩ := advanceToEnd_inv htypes order s (hrun ▸ hs.inv)
    cases hcall.symm.trans h
    exact .of_running hinv (hord hmono (hrun ▸ hs.ordered))

end Reached

section Delivered
variable {rs : List LogReader} {s : TimeReplayer}

theorem nonDecreasing_le (reader : LogReader) (h : NonDecreasing reader) (i j : ℕ) (hij : i ≤ j)
    (hj : j < reader.recordCount) : reader.timestampAt i ≤ reader.timestampAt j := by
  induction j, hij using Nat.le_induction with
  | base => exact le_rfl
  | succ j hij ih => exact (ih (by omega)).trans (h j hj)

/-- The time of the last delivery is not after any record still to come. -/
theorem currentTime_le (hinv : Inv rs s) (hord : Ordered s) (hmono : ∀ r ∈ rs, NonDecreasing r)
    (j : ℕ) (sp : StreamPos) (hsp : s.streams[j]? = some sp) (i : ℕ) (hpos : sp.pos ≤ i)
    (hi : i < sp.reader.recordCount) : s.currentTime ≤ sp.reader.timestampAt i := by
  have hnext : (⟨sp.reader.timestampAt sp.pos,j⟩ : HeapEntry) ∈ s.heap :=
    (hinv.heap _).mpr ⟨sp,hsp,lt_of_le_of_lt hpos hi,rfl⟩
  have hrise := nonDecreasing_le sp.reader (hmono _ (reader_mem hinv j sp hsp)) sp.pos i hpos hi
  refine le_trans ?_ hrise
  rw [← hord.current]
  rcases List.eq_nil_or_concat s.delivered with hnil | ⟨ds,d,hlast⟩
  · rw [hnil]
    exact Nat.zero_le _
  · rw [List.concat_eq_append] at hlast
    rw [hlast, List.map_append, List.map_singleton, List.getLastD_concat]
    exact hord.ahead d (by rw [hlast]; simp) _ hnext

/-- After the loop has stopped, what is not delivered is not before the target. -/
theorem stopped_delivered (hinv : Inv rs s) (hord : Ordered s) (hmono : ∀ r ∈ rs, NonDecreasing r)
    (targetUs : ℕ) (hstop : s.Stopped targetUs) (j : ℕ) (reader : LogReader)
    (hj : rs[j]? = some reader) :
    ∃ p ≤ reader.recordCount, (deliveredFrom j s.delivered).map Delivery.seen =
        (List.range p).map (recordSeen reader) ∧
      ∀ i < reader.recordCount, reader.timestampAt i < targetUs → i < p := by
  obtain ⟨sp,hsp,rfl⟩ := hinv.stream_of_reader j reader hj
  refine ⟨sp.pos,hinv.bounded sp (List.mem_of_getElem? hsp),hinv.history j sp hsp,?_⟩
  intro i hi hbefore
  rcases hstop with hend | htime
  · have hfull : s.totalEvents ≤ s.eventsProcessed := by simpa [isExhausted] using hend
    rw [hinv.pos_eq_count hfull j sp hsp]
    exact hi
  · by_contra hnot
    have hle := currentTime_le hinv hord hmono j sp hsp i (not_lt.mp hnot) hi
    omega

end Delivered

section Files
variable (order : HeapOrder) (files : List Bytes)
  (hmono : ∀ r ∈ files.map readerOn, NonDecreasing r)
include hmono

theorem Reachable.sound {s : TimeReplayer} (h : Reachable order (files.map readerOn) s) :
    Sound (streamsOf (files.map readerOn)) s := by
  have htypes := streamsOf_logType files
  have hstreams : ∀ r ∈ streamsOf (files.map readerOn), NonDecreasing r :=
    fun r hr => hmono r (List.mem_filter.mp hr).1
  induction h with
  | start =>
    obtain ⟨hinv,hnone,hzero⟩ := inv_withStreams (files.map readerOn)
    exact .of_running hinv {
      sorted := by simp [hnone]
      ahead := by simp [hnone]
      current := by simp [hnone, hzero] }
  | pause _ ih => exact ⟨ih.inv,ih.ordered⟩
  | resume _ ih => exact ⟨ih.inv,ih.ordered⟩
  | next _ hcall ih => exact ih.next htypes hstreams order hcall
  | toTarget _ hcall ih => exact ih.toTarget htypes hstreams order hcall
  | toEnd _ hcall ih => exact ih.toEnd htypes hstreams order hcall

/-- From every reachable state that is not paused, `advanceTo` stops at its
target: everything before it is delivered, at most one event from it on, the
result counts the events, and a call with a later target goes on as if it had
been made at once. -/
theorem advanceTo_target (s : TimeReplayer) (hs : Reachable order (files.map readerOn) s)
    (hrun : s.paused = false) (targetUs : ℕ) :
    ∃ s' n calls, s.advanceTo order targetUs = some (s',n) ∧
      (s'.isExhausted = true ∨ targetUs ≤ s'.currentTime) ∧
      (∀ (j : ℕ) (reader : LogReader), (streamsOf (files.map readerOn))[j]? = some reader →
        ∃ p ≤ reader.recordCount, (deliveredFrom j s'.delivered).map Delivery.seen =
            (List.range p).map (recordSeen reader) ∧
          ∀ i < reader.recordCount, reader.timestampAt i < targetUs → i < p) ∧
      s'.delivered = s.delivered++calls ∧
      (calls.filter (fun d => targetUs ≤ d.time)).length ≤ 1 ∧
      s'.eventsProcessed = s.eventsProcessed+n ∧ calls.length = n ∧
      ∀ laterUs, targetUs ≤ laterUs → ∃ s'' m, s'.advanceTo order laterUs = some (s'',m) ∧
        s.advanceTo order laterUs = some (s'',m+n) := by
  have htypes := streamsOf_logType files
  have hstreams : ∀ r ∈ streamsOf (files.map readerOn), NonDecreasing r :=
    fun r hr => hmono r (List.mem_filter.mp hr).1
  have hsame := resume_of_running s hrun
  have hsound := hs.sound order files hmono
  have hinv := hsame ▸ hsound.inv
  obtain ⟨s',n,hcall,harrived⟩ := advanceTo_arrives htypes hstreams order targetUs s hinv
    (hsame ▸ hsound.ordered)
  obtain ⟨calls,hcalls,hlength,hone⟩ := harrived.calls
  refine ⟨s',n,calls,hcall,harrived.stopped,stopped_delivered harrived.inv harrived.ordered hstreams
    targetUs harrived.stopped,hcalls,hone,?_,hlength,?_⟩
  · rw [← harrived.inv.count, hcalls, List.length_append, hinv.count, hlength]
  · intro laterUs hlater
    obtain ⟨s'',m,hrest,-⟩ := advanceTo_arrives htypes hstreams order laterUs s' harrived.inv
      harrived.ordered
    refine ⟨s'',m,hrest,?_⟩
    rw [advanceTo_advanceTo order targetUs laterUs hlater s s' n hcall, hrest, Option.map_some]

end Files

def twoTicks : Bytes :=
  encode 8 LogReader.logMagic++encode 4 1++encode 4 0++List.replicate 48 0++
    (encode 8 1000++List.replicate 56 0)++(encode 8 3000++List.replicate 56 0)

theorem twoTicks_nonDecreasing : NonDecreasing (readerOn twoTicks) := by
  have hcount : (readerOn twoTicks).recordCount = 2 := by decide +kernel
  have htimes : (readerOn twoTicks).timestampAt 0 ≤ (readerOn twoTicks).timestampAt 1 := by
    decide +kernel
  intro i hi
  rw [hcount] at hi
  have hi : i = 0 := by omega
  rw [hi]
  exact htimes

/-- Two streams with the same times: every event is tied with another. -/
theorem advanceTo_target_ties :
    let start := withStreams ([twoTicks,twoTicks].map readerOn)
    ∃ s' n calls, start.advanceTo firstLeast 2000 = some (s',n) ∧
      (s'.isExhausted = true ∨ 2000 ≤ s'.currentTime) ∧ s'.delivered = calls ∧
        (calls.filter (fun d => 2000 ≤ d.time)).length ≤ 1 ∧ calls.length = n := by
  have hmono : ∀ r ∈ [twoTicks,twoTicks].map readerOn, NonDecreasing r := by
    intro r hr
    obtain ⟨file,hfile,rfl⟩ := List.mem_map.mp hr
    have hsame : file = twoTicks := by simpa using hfile
    rw [hsame]
    exact twoTicks_nonDecreasing
  obtain ⟨s',n,calls,hcall,hstop,-,hcalls,hone,-,hlength,-⟩ := advanceTo_target firstLeast
    [twoTicks,twoTicks] hmono (withStreams ([twoTicks,twoTicks].map readerOn)) .start (by decide +kernel) 2000
  have hstart : (withStreams ([twoTicks,twoTicks].map readerOn)).delivered = [] := (inv_withStreams _).2.1
  rw [hstart] at hcalls
  exact ⟨s',n,calls,hcall,hstop,hcalls,hone,hlength⟩

end Chronos.TimeReplayer
