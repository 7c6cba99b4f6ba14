import Chronos.OrderBookV2Threads

/-!
# Hot reads of the order book are linearizable

The list of an operation holds no version increment or two, and stores into
the hot data stand between the two. So the version is odd exactly while the
hot data is being written, and an even version finds the hot data of the
operations before the one under way, or of that one as well. A query that
returns saw one even version at both of its last loads.
-/

set_option autoImplicit false

namespace Chronos.OrderBookThreads
open BookLadder (BookOp)
open OrderBookV2 OptimisticRead

def isHotStore : Instr → Bool
  | .copyHot _ => true
  | .zeroHot _ => true
  | _ => false

def isQuiet (i : Instr) : Bool := !isBump i && !isHotStore i

def Tidy : List Instr → Prop
  | [] => True
  | i::rest => (isHotStore i = true → bumps rest = 1) ∧ Tidy rest

section Shape

theorem bumps_cons (i : Instr) (rest : List Instr) :
    bumps (i::rest) = bumps rest+if isBump i then 1 else 0 := List.countP_cons

theorem bumps_append (xs ys : List Instr) : bumps (xs++ys) = bumps xs+bumps ys := List.countP_append

theorem quiet_bumps (xs : List Instr) (h : ∀ i ∈ xs, isQuiet i = true) : bumps xs = 0 := by
  apply List.countP_eq_zero.mpr
  intro i hi
  have hq := h i hi
  simp only [isQuiet, Bool.and_eq_true, Bool.not_eq_true'] at hq
  simp [hq.1]

theorem quiet_tidy (xs ys : List Instr) (h : ∀ i ∈ xs, isQuiet i = true) (hy : Tidy ys) :
    Tidy (xs++ys) := by
  induction xs with
  | nil => exact hy
  | cons i xs ih =>
    refine ⟨fun hs => ?_,ih (fun j hj => h j (by simp [hj]))⟩
    have hq := h i (by simp)
    simp [isQuiet, hs] at hq

theorem stores_tidy (xs ys : List Instr) (h : ∀ i ∈ xs, isHotStore i = true) (hy : Tidy ys)
    (hb : bumps ys = 1) : Tidy (xs++ys) ∧ bumps (xs++ys) = 1 := by
  induction xs with
  | nil => exact ⟨hy,hb⟩
  | cons i xs ih =>
    obtain ⟨ht,hc⟩ := ih (fun j hj => h j (by simp [hj]))
    refine ⟨⟨fun _ => hc,ht⟩,?_⟩
    have hs := h i (by simp)
    have hi : isBump i = false := by
      cases i with
      | bump => cases hs
      | _ => rfl
    rw [List.cons_append, bumps_cons, hc, hi]
    rfl

theorem bracket_tidy (front stores back : List Instr) (hf : ∀ i ∈ front, isQuiet i = true)
    (hs : ∀ i ∈ stores, isHotStore i = true) (hb : ∀ i ∈ back, isQuiet i = true) :
    Tidy (front++(.bump::(stores++(.bump::back)))) ∧
      bumps (front++(.bump::(stores++(.bump::back)))) = 2 := by
  have hback : Tidy back := by simpa using quiet_tidy back [] hb trivial
  have hclose : Tidy (.bump::back) := ⟨fun h => (by cases h),hback⟩
  have hone : bumps (.bump::back) = 1 := by rw [bumps_cons, quiet_bumps back hb]; rfl
  obtain ⟨ht,hc⟩ := stores_tidy stores (.bump::back) hs hclose hone
  constructor
  · exact quiet_tidy front _ hf ⟨fun h => (by cases h),ht⟩
  · rw [bumps_append, quiet_bumps front hf, bumps_cons, hc]
    rfl

theorem swap_quiet : ∀ i ∈ swapProgram, isQuiet i = true := by
  intro i hi
  simp only [swapProgram, List.cons_append, List.mem_cons, List.mem_append, List.mem_map,
    List.not_mem_nil, or_false] at hi
  rcases hi with rfl | rfl | ⟨w,-,rfl⟩ | rfl <;> rfl

theorem updateLevels_quiet (b : OrderBookV2) (tick : Tick) :
    ∀ i ∈ updateLevelsProgram b tick, isQuiet i = true := by
  intro i hi
  obtain ⟨w,rfl⟩ | ⟨d,rfl⟩ := updateLevels_instr b tick i hi <;> rfl

theorem program_tidy (b : OrderBookV2) (op : BookOp) :
    Tidy (program b op) ∧ (bumps (program b op) = 0 ∨ bumps (program b op) = 2) := by
  cases op with
  | update tick =>
    have hback : ∀ i ∈ swapProgram++[.updated], isQuiet i = true :=
      List.forall_mem_append.mpr ⟨swap_quiet,List.forall_mem_singleton.mpr rfl⟩
    have hfront := updateLevels_quiet b tick
    by_cases hd : (b.updateLevels tick).hotDataDirty
    · have hdirty : ∀ i ∈ updateLevelsProgram b tick++[.dirty false], isQuiet i = true :=
        List.forall_mem_append.mpr ⟨hfront,List.forall_mem_singleton.mpr rfl⟩
      have h := bracket_tidy _ ((topWords (b.updateLevels tick).getWriteBuffer).map .copyHot) _ hdirty
        (by simp [isHotStore]) hback
      have he : program b (.update tick) = (updateLevelsProgram b tick++[Instr.dirty false])++
          (Instr.bump::((topWords (b.updateLevels tick).getWriteBuffer).map Instr.copyHot++
            (Instr.bump::(swapProgram++[Instr.updated])))) := by
        simp [program, rebuildProgram, hd]
      rw [he]
      exact ⟨h.1,Or.inr h.2⟩
    · have he : program b (.update tick) = updateLevelsProgram b tick++(swapProgram++[.updated]) := by
        simp [program, rebuildProgram, hd]
      have hall : ∀ i ∈ program b (.update tick), isQuiet i = true := by
        rw [he]
        exact List.forall_mem_append.mpr ⟨hfront,hback⟩
      exact ⟨by simpa using quiet_tidy _ [] hall trivial,Or.inl (quiet_bumps _ hall)⟩
  | clear =>
    have h := bracket_tidy (clearWrites.map .write) (zeroWords.map .zeroHot) swapProgram
      (by simp [isQuiet, isBump, isHotStore]) (by simp [isHotStore]) swap_quiet
    have he : program b .clear = clearWrites.map Instr.write++
        (Instr.bump::(zeroWords.map Instr.zeroHot++(Instr.bump::swapProgram))) := by
      simp [program]
    rw [he]
    exact ⟨h.1,Or.inr h.2⟩

end Shape

theorem exec_quiet (b : OrderBookV2) (i : Instr) (h : isQuiet i = true) : (b.exec i).hotData = b.hotData := by
  cases i with
  | bump => cases h
  | copyHot w => cases h
  | zeroHot w => cases h
  | _ => rfl

theorem exec_store (b : OrderBookV2) (i : Instr) (h : isHotStore i = true) :
    (b.exec i).hotData.version = b.hotData.version := by
  cases i with
  | copyHot w => rcases w with ⟨_ | _,_⟩ | ⟨_ | _,_⟩ | ⟨_ | _⟩ | _ <;> rfl
  | zeroHot w => rcases w with ⟨_ | _,_⟩ | ⟨_ | _,_⟩ | ⟨_ | _⟩ | _ <;> rfl
  | _ => cases h

theorem run_hot (b : OrderBookV2) (rest : List Instr) (ht : Tidy rest) (hb : bumps rest = 0) :
    (Schedule.run exec rest b).hotData = b.hotData := by
  induction rest generalizing b with
  | nil => rfl
  | cons i rest ih =>
    rw [bumps_cons] at hb
    have hs : isHotStore i = false := by
      by_contra h
      have := ht.1 (by simpa using h)
      omega
    have hi : isBump i = false := by
      by_contra h
      rw [if_pos (by simpa using h)] at hb
      omega
    exact (ih _ ht.2 (by omega)).trans (exec_quiet b i (by simp [isQuiet, hs, hi]))

def hotCell (d : HotData) : Cell HotData := ⟨d.version,d⟩

/-- The writer between two of its stores. Increments come in pairs, so the
version and the increments to come add up to twice the hot writes. -/
structure HotWriter (s : State) : Prop where
  ends : Ends s
  tidy : Tidy s.rest
  bound : bumps s.rest ≤ 2
  count : s.book.hotData.version+bumps s.rest = 2*s.hotWrites
  few : s.hotWrites < 2^63
  before : bumps s.rest = 2 → s.book.hotData = (after s.ops.dropLast).hotData

/-- An even version finds the hot data of a completed prefix. -/
theorem current_hot (s : State) (h : HotWriter s) (he : s.book.hotData.version%2 = 0) :
    ∃ n, completed s ≤ n ∧ n ≤ s.ops.length ∧
      s.book.hotData = (after (s.ops.take n)).hotData := by
  have hcount := h.count
  have hbound := h.bound
  rcases (show bumps s.rest = 2 ∨ bumps s.rest = 0 by omega) with hb | hb
  · have hne : s.rest ≠ [] := by
      intro hn
      rw [hn] at hb
      cases hb
    refine ⟨s.ops.length-1,?_,Nat.sub_le _ _,?_⟩
    · simp [completed, hne]
    · rw [← List.dropLast_eq_take]
      exact h.before hb
  · refine ⟨s.ops.length,completed_le s,le_refl _,?_⟩
    rw [List.take_length, ← h.ends]
    exact (run_hot s.book s.rest h.tidy hb).symm

theorem begin_hotWriter (s : State) (op : BookOp) (hr : s.rest = [])
    (hfew : (writeStep s op).hotWrites < 2^63) (h : HotWriter s) : HotWriter (writeStep s op) := by
  obtain ⟨htidy,hbumps⟩ := program_tidy s.book op
  have hends := ends_write s op h.ends
  have hbook : s.book = after s.ops := by
    have := h.ends
    rwa [Ends, hr] at this
  have hcount := h.count
  simp only [writeStep, hr] at hends hfew ⊢
  constructor
  case ends => exact hends
  case tidy => exact htidy
  case bound => rcases hbumps with hb | hb <;> simp [hb]
  case count =>
    have h0 : bumps s.rest = 0 := by rw [hr]; rfl
    simp only
    omega
  case few => exact hfew
  case before =>
    intro _
    simp only [List.dropLast_concat]
    rw [hbook]

theorem exec_disciplined (s : State) (i : Instr) (rest : List Instr) (hr : s.rest = i::rest)
    (h : HotWriter s) :
    Disciplined (hotCell s.book.hotData) (hotCell (s.book.exec i).hotData) ∧
      (s.book.exec i).hotData.version = s.book.hotData.version+(if isBump i then 1 else 0) := by
  have hcount := h.count
  have hfew := h.few
  have htidy := h.tidy
  rw [hr] at hcount htidy
  rw [bumps_cons] at hcount
  by_cases hb : isBump i = true
  · have hi : i = .bump := by
      cases i with
      | bump => rfl
      | _ => cases hb
    have hv : (s.book.exec i).hotData.version = s.book.hotData.version+1 := by
      rw [if_pos hb] at hcount
      subst hi
      exact Nat.mod_eq_of_lt (by omega)
    refine ⟨⟨?_,?_⟩,by rw [hv, if_pos hb]⟩
    · exact (Nat.le_succ _).trans_eq hv.symm
    · intro he
      exact absurd (hv.symm.trans he) (by simp [hotCell])
  rw [if_neg hb] at hcount
  by_cases hs : isHotStore i = true
  · have hodd : s.book.hotData.version%2 = 1 := by
      have := htidy.1 hs
      omega
    have hv := exec_store s.book i hs
    exact ⟨⟨hv.ge,fun _ => Or.inl hodd⟩,by rw [hv, if_neg hb]; rfl⟩
  · have hq := exec_quiet s.book i (by simp [isQuiet, hb, hs])
    rw [hq, if_neg hb]
    exact ⟨⟨le_refl _,fun _ => Or.inr rfl⟩,rfl⟩

theorem exec_hotWriter (s : State) (op : BookOp) (i : Instr) (rest : List Instr) (hr : s.rest = i::rest)
    (h : HotWriter s) : HotWriter (writeStep s op) := by
  have hends := ends_write s op h.ends
  obtain ⟨-,hv⟩ := exec_disciplined s i rest hr h
  have hcount := h.count
  have hbound := h.bound
  have htidy := h.tidy
  rw [hr] at hcount hbound htidy
  rw [bumps_cons] at hcount hbound
  simp only [writeStep, hr] at hends ⊢
  constructor
  case ends => exact hends
  case tidy => exact htidy.2
  case bound => simp only; omega
  case count => simp only; omega
  case few => exact h.few
  case before =>
    intro hb
    have hi : isBump i = false := by
      by_contra hc
      rw [if_pos (by simpa using hc)] at hbound
      simp only at hb
      omega
    have hs : isHotStore i = false := by
      by_contra hc
      have := htidy.1 (by simpa using hc)
      simp only at hb
      omega
    have hq := exec_quiet s.book i (by simp [isQuiet, hi, hs])
    simp only
    rw [hq]
    exact h.before (by rw [hr, bumps_cons, hi]; exact hb)

section Reads
variable [NearestDivision.NearestDiv]

def HotPlaceSound (s : State) : HotPlace → Prop
  | .reading q k version rest =>
    Faithful (hotCell s.book.hotData) q.reading version rest ∧ k ≤ completed s
  | .retry _ k => k ≤ completed s
  | _ => True

/-- The answer is that of the query on the hot data found at its last version
load, and this is the hot data of a completed prefix of the operations: no
shorter than what was complete at the first version load, no longer than
what had begun at the last. -/
structure Linearized (ops : List BookOp) (r : HotReturn) : Prop where
  answer : r.answer = r.query.eval r.seen
  begun : r.begun ≤ ops.length
  state : ∃ n, r.completed ≤ n ∧ n ≤ r.begun ∧ r.seen = (after (ops.take n)).hotData

structure HotSound (s : State) : Prop where
  writer : HotWriter s
  readers : ∀ t, HotPlaceSound s (s.hotReaders t)
  returned : ∀ r ∈ s.hotReturns, Linearized s.ops r

/-- Fewer than `2^63` writes of the hot data. -/
def FewWrites (s : State) (a : Action) : Prop := (step s a).hotWrites < 2^63

instance (s : State) (a : Action) : Decidable (FewWrites s a) := inferInstanceAs (Decidable (_ < _))

omit [NearestDivision.NearestDiv] in
theorem linearized_append [NearestDivision.NearestDiv] (ops more : List BookOp) (r : HotReturn)
    (h : Linearized ops r) : Linearized (ops++more) r := by
  obtain ⟨n,hlow,hhigh,hseen⟩ := h.state
  have hb := h.begun
  constructor
  case answer => exact h.answer
  case begun => exact hb.trans (by simp)
  case state =>
    refine ⟨n,hlow,hhigh,?_⟩
    rw [List.take_append_of_le_length (by omega)]
    exact hseen

theorem setHot_sound (s : State) (t : ℕ) (p : HotPlace) (hp : HotPlaceSound s p) (h : HotSound s) :
    HotSound (setHot s t p) := by
  constructor
  case writer => exact ⟨h.writer.ends,h.writer.tidy,h.writer.bound,h.writer.count,h.writer.few,h.writer.before⟩
  case readers =>
    exact (Function.forall_update_iff _ fun _ => HotPlaceSound s).mpr ⟨hp,fun u _ => h.readers u⟩
  case returned => exact h.returned

theorem look_sound (s : State) (t : ℕ) (q : HotQuery) (k : ℕ) (hk : k ≤ completed s) (h : HotSound s) :
    HotSound (lookStep s t q k) := by
  unfold lookStep
  split_ifs with hv
  · exact setHot_sound s t _ hk h
  · exact setHot_sound s t _
      ⟨begin_faithful (hotCell s.book.hotData) q.reading (Nat.mod_two_ne_one.mp hv),hk⟩ h

/-- The last version load: the answer is that of the hot data in memory. -/
theorem return_sound (s : State) (t : ℕ) (q : HotQuery) (k : ℕ) (answer : HotAnswer)
    (hf : Faithful (hotCell s.book.hotData) q.reading s.book.hotData.version (.done answer))
    (hk : k ≤ completed s) (h : HotSound s) :
    HotSound (setHot { s with
      hotReturns := s.hotReturns++[⟨q,answer,s.book.hotData,k,s.ops.length⟩] } t .idle) := by
  obtain ⟨ha,he⟩ := validated (hotCell s.book.hotData) q.reading _ answer hf rfl
  obtain ⟨n,hlow,hhigh,hseen⟩ := current_hot s h.writer he
  refine setHot_sound _ t .idle trivial ?_
  constructor
  case writer => exact ⟨h.writer.ends,h.writer.tidy,h.writer.bound,h.writer.count,h.writer.few,h.writer.before⟩
  case readers => exact h.readers
  case returned =>
    intro r hr
    rcases List.mem_append.mp hr with hr | hr
    · exact h.returned r hr
    · obtain rfl := List.mem_singleton.mp hr
      exact ⟨ha.trans (hotReading_result q _),le_refl _,n,hk.trans hlow,hhigh,hseen⟩

theorem hotStep_sound (s : State) (t : ℕ) (query : HotQuery) (h : HotSound s) :
    HotSound (hotStep s t query) := by
  have hp := h.readers t
  unfold hotStep
  cases ht : s.hotReaders t with
  | idle => exact setHot_sound s t _ trivial h
  | start q => exact look_sound s t q _ (le_refl _) h
  | retry q k =>
    rw [ht] at hp
    exact look_sound s t q k hp h
  | reading q k version rest =>
    rw [ht] at hp
    obtain ⟨hf,hk⟩ := hp
    cases rest with
    | done answer =>
      simp only
      split_ifs with hv
      · subst hv
        exact return_sound s t q k answer hf hk h
      · exact setHot_sound s t _ hk h
    | load next => exact setHot_sound s t _ ⟨advance_faithful _ _ _ _ hf,hk⟩ h

theorem readers_write (s s' : State) (hd : Disciplined (hotCell s.book.hotData) (hotCell s'.book.hotData))
    (hc : completed s ≤ completed s') (p : HotPlace) (h : HotPlaceSound s p) : HotPlaceSound s' p := by
  cases p with
  | reading q k version rest => exact ⟨write_faithful _ _ _ _ _ hd h.1,le_trans h.2 hc⟩
  | retry q k => exact le_trans h hc
  | idle => trivial
  | start q => trivial

theorem writeStep_sound (s : State) (op : BookOp) (hfew : (writeStep s op).hotWrites < 2^63)
    (h : HotSound s) : HotSound (writeStep s op) := by
  have hcompleted := completed_write s op
  cases hr : s.rest with
  | nil =>
    have hw := begin_hotWriter s op hr hfew h.writer
    simp only [writeStep, hr] at hw hcompleted ⊢
    constructor
    case writer => exact hw
    case readers =>
      intro t
      refine readers_write s { s with rest := program s.book op, ops := s.ops++[op] } ?_ hcompleted _
        (h.readers t)
      exact ⟨le_refl _,fun _ => Or.inr rfl⟩
    case returned => exact fun r hm => linearized_append _ _ r (h.returned r hm)
  | cons i rest =>
    have hw := exec_hotWriter s op i rest hr h.writer
    obtain ⟨hd,-⟩ := exec_disciplined s i rest hr h.writer
    simp only [writeStep, hr] at hw hcompleted ⊢
    constructor
    case writer => exact hw
    case readers => exact fun t => readers_write s _ hd hcompleted _ (h.readers t)
    case returned => exact h.returned

theorem coldStep_sound (s : State) (t : ℕ) (q : ColdQuery) (h : HotSound s) : HotSound (coldStep s t q) := by
  unfold coldStep
  split
  all_goals
    exact ⟨⟨h.writer.ends,h.writer.tidy,h.writer.bound,h.writer.count,h.writer.few,h.writer.before⟩,
      h.readers,h.returned⟩

theorem step_hotSound (s : State) (a : Action) (hfew : FewWrites s a) (h : HotSound s) :
    HotSound (step s a) := by
  cases a with
  | write op => exact writeStep_sound s op hfew h
  | hot t q => exact hotStep_sound s t q h
  | cold t q => exact coldStep_sound s t q h

theorem initial_hotSound : HotSound {} := by
  constructor
  case writer => exact ⟨rfl,trivial,Nat.zero_le _,rfl,by decide,fun h => absurd h (by decide)⟩
  case readers => exact fun _ => trivial
  case returned => exact fun r hr => absurd hr List.not_mem_nil

/-- One writer and any number of readers, every interleaving: each hot query
answers from the hot data of one moment between two writes. -/
theorem hot_reads_linearizable (actions : List Action)
    (hok : Schedule.Allowed step FewWrites actions {}) :
    ∀ r ∈ (Schedule.run step actions {}).hotReturns,
      Linearized (Schedule.run step actions {}).ops r :=
  (Schedule.invariant step FewWrites HotSound step_hotSound actions {} hok initial_hotSound).returned

end Reads

def firstBid : BookOp := .update { price := Decimal.ofInt 100, quantity := Decimal.ofInt 1 }

def readDuringUpdate : List Action :=
  List.replicate 10 (Action.write firstBid)++List.replicate 3 (Action.hot 0 .bestBid)++
    List.replicate 5 (Action.write firstBid)++List.replicate 4 (Action.hot 0 .bestBid)

theorem readDuringUpdate_linearizable :
    (Schedule.run step readDuringUpdate {}).hotReturns.map HotReturn.answer =
      [.value (some (Decimal.ofInt 100))] ∧
    ∀ r ∈ (Schedule.run step readDuringUpdate {}).hotReturns,
      Linearized (Schedule.run step readDuringUpdate {}).ops r :=
  ⟨by decide +kernel,hot_reads_linearizable readDuringUpdate (by decide +kernel)⟩

end Chronos.OrderBookThreads
