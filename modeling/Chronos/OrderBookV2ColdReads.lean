import Chronos.OrderBookV2Threads

/-!
# Cold reads of the order book and the buffers they traverse

The constructor puts readers and writer on one buffer, so the first operation
stores into the active one. Each later operation prepares the dark buffer, and
its swap then copies back over the buffer that was active a moment ago, which
a query may still be traversing. Where neither of the two meets a query, each
cold query answers from the book left by a prefix of the operations.
-/

set_option autoImplicit false

namespace Chronos.OrderBookThreads
open BookLadder (BookOp)
open OrderBookV2 OptimisticRead

def Traverses (buffer : Fin 2) : ColdPlace → Prop
  | .reading _ i _ (.load _) => i = buffer
  | _ => False

def Free (s : State) (buffer : Fin 2) : Prop := ∀ t, ¬Traverses buffer (s.coldReaders t)

def Intrudes (s : State) : Prop :=
  match s.rest with
  | [] => s.book.activeColdBuffer = s.book.writeBufferIndex
  | .copyBack (.price .bid 0)::_ => True
  | _ => False

def Exposed (s : State) : Prop :=
  s.book.activeColdBuffer = s.book.writeBufferIndex ∧ ∃ w, Instr.write w ∈ s.rest

/-- The moments that decide: no query is in the buffer when the writer begins
to overwrite it, and none enters it in the course of the first operation. -/
def Undisturbed (s : State) : Action → Prop
  | .write _ => Intrudes s → Free s s.book.writeBufferIndex
  | .hot _ _ => True
  | .cold t _ => ∀ q, s.coldReaders t = .start q → ¬Exposed s

section Shape

def isFront : Instr → Bool
  | .write _ => true
  | .dirty _ => true
  | .bump => true
  | .copyHot _ => true
  | .zeroHot _ => true
  | _ => false

def backProgram (ws : List Word) (tail : List Instr) : List Instr := ws.map .copyBack++(.swapped::tail)

theorem swapProgram_append (tail : List Instr) :
    swapProgram++tail = .flip::.activate::backProgram coldWords tail := by
  simp [swapProgram, backProgram]

theorem updateLevels_front (b : OrderBookV2) (tick : Tick) :
    ∀ i ∈ updateLevelsProgram b tick, isFront i = true := by
  intro i hi
  obtain ⟨w,rfl⟩ | ⟨d,rfl⟩ := updateLevels_instr b tick i hi <;> rfl

theorem rebuild_front (b : OrderBookV2) : ∀ i ∈ rebuildProgram b, isFront i = true := by
  intro i hi
  unfold rebuildProgram at hi
  split_ifs at hi
  · simp only [List.cons_append, List.mem_cons, List.mem_append, List.mem_map, List.not_mem_nil,
      or_false] at hi
    rcases hi with rfl | rfl | ⟨w,-,rfl⟩ | rfl <;> rfl
  · exact absurd hi List.not_mem_nil

theorem clear_front : ∀ i ∈ clearWrites.map Instr.write++(.bump::zeroWords.map .zeroHot++[.bump]),
    isFront i = true := by
  intro i hi
  simp only [List.cons_append, List.mem_cons, List.mem_append, List.mem_map, List.not_mem_nil,
    or_false] at hi
  rcases hi with ⟨w,-,rfl⟩ | rfl | ⟨w,-,rfl⟩ | rfl <;> rfl

theorem program_shape (b : OrderBookV2) (op : BookOp) : ∃ front tail,
    program b op = front++(swapProgram++tail) ∧ (∀ i ∈ front, isFront i = true) ∧
      ∀ i ∈ tail, i = .updated := by
  cases op with
  | update tick =>
    refine ⟨updateLevelsProgram b tick++rebuildProgram (b.updateLevels tick),[.updated],?_,?_,by simp⟩
    · simp [program]
    · exact List.forall_mem_append.mpr ⟨updateLevels_front b tick,rebuild_front _⟩
  | clear => exact ⟨_,[],by rw [List.append_nil, program],clear_front,by simp⟩

theorem exec_other (b : OrderBookV2) (i : Instr) (j : Fin 2) (hj : j ≠ b.writeBufferIndex) :
    (b.exec i).coldBuffers j = b.coldBuffers j := by
  cases i with
  | write w => exact Function.update_of_ne hj _ _
  | copyBack w => exact Function.update_of_ne hj _ _
  | _ => rfl

theorem exec_front (b : OrderBookV2) (i : Instr) (h : isFront i = true) :
    (b.exec i).writeBufferIndex = b.writeBufferIndex ∧ (b.exec i).activeColdBuffer = b.activeColdBuffer := by
  cases i with
  | flip => cases h
  | activate => cases h
  | _ => exact ⟨rfl,rfl⟩

theorem front_run (front : List Instr) (b : OrderBookV2) (hf : ∀ i ∈ front, isFront i = true)
    (hw : ∀ w, Instr.write w ∉ front) :
    (Schedule.run exec front b).coldBuffers = b.coldBuffers ∧
      (Schedule.run exec front b).writeBufferIndex = b.writeBufferIndex := by
  induction front generalizing b with
  | nil => exact ⟨rfl,rfl⟩
  | cons i front ih =>
    obtain ⟨hc,hi⟩ := ih (b.exec i) (fun j hj => hf j (by simp [hj])) (fun w hm => hw w (by simp [hm]))
    have hb : (b.exec i).coldBuffers = b.coldBuffers := by
      cases i with
      | write w => exact absurd List.mem_cons_self (hw w)
      | copyBack w => exact absurd (hf _ List.mem_cons_self) Bool.false_ne_true
      | _ => rfl
    exact ⟨hc.trans hb,hi.trans (exec_front b i (hf i List.mem_cons_self)).1⟩

theorem tail_run (tail : List Instr) (b : OrderBookV2) (h : ∀ i ∈ tail, i = .updated) :
    (Schedule.run exec tail b).getReadBuffer = b.getReadBuffer := by
  induction tail generalizing b with
  | nil => rfl
  | cons i tail ih =>
    have hi := h i List.mem_cons_self
    subst hi
    exact ih (b.exec .updated) (fun j hj => h j (by simp [hj]))

theorem back_run (ws : List Word) (tail : List Instr) (b : OrderBookV2) (ht : ∀ i ∈ tail, i = .updated)
    (hne : b.activeColdBuffer ≠ b.writeBufferIndex) :
    (Schedule.run exec (backProgram ws tail) b).getReadBuffer = b.getReadBuffer := by
  rw [backProgram, Schedule.run_append, copyBack_run b ws hne, Schedule.run, tail_run tail _ ht]
  exact Function.update_of_ne hne _ _

end Shape

section Writer

def previous (s : State) : ColdData := (after s.ops.dropLast).getReadBuffer

structure Preparing (s : State) (front tail : List Instr) : Prop where
  rest : s.rest = front++(swapProgram++tail)
  fronts : ∀ i ∈ front, isFront i = true
  ends : ∀ i ∈ tail, i = .updated
  dark : s.book.activeColdBuffer ≠ s.book.writeBufferIndex →
    Free s s.book.writeBufferIndex ∧ s.book.getReadBuffer = previous s
  fresh : s.book.activeColdBuffer = s.book.writeBufferIndex → (∃ w, Instr.write w ∈ front) →
    Free s s.book.writeBufferIndex

structure Flipped (s : State) (tail : List Instr) : Prop where
  rest : s.rest = .activate::backProgram coldWords tail
  ends : ∀ i ∈ tail, i = .updated
  old : s.book.activeColdBuffer = s.book.writeBufferIndex → s.book.getReadBuffer = previous s

structure Copying (s : State) (ws : List Word) (tail : List Instr) : Prop where
  rest : s.rest = backProgram ws tail
  ends : ∀ i ∈ tail, i = .updated
  apart : s.book.activeColdBuffer ≠ s.book.writeBufferIndex
  free : ws = coldWords ∨ Free s s.book.writeBufferIndex

structure Closing (s : State) : Prop where
  rest : ∀ i ∈ s.rest, i = .updated
  free : s.book.activeColdBuffer ≠ s.book.writeBufferIndex → Free s s.book.writeBufferIndex

inductive Phase (s : State) : Prop where
  | preparing (front tail : List Instr) (h : Preparing s front tail)
  | flipped (tail : List Instr) (h : Flipped s tail)
  | copying (ws : List Word) (tail : List Instr) (h : Copying s ws tail)
  | closing (h : Closing s)

theorem previous_prefix (s : State) (hr : s.rest ≠ []) (h : s.book.getReadBuffer = previous s) :
    ∃ n, completed s ≤ n ∧ n ≤ s.ops.length ∧
      s.book.getReadBuffer = (after (s.ops.take n)).getReadBuffer := by
  refine ⟨s.ops.length-1,?_,Nat.sub_le _ _,?_⟩
  · simp [completed, hr]
  · rw [← List.dropLast_eq_take]
    exact h

theorem final_prefix (s : State) (he : Ends s)
    (h : (Schedule.run exec s.rest s.book).getReadBuffer = s.book.getReadBuffer) :
    ∃ n, completed s ≤ n ∧ n ≤ s.ops.length ∧
      s.book.getReadBuffer = (after (s.ops.take n)).getReadBuffer := by
  refine ⟨s.ops.length,completed_le s,le_refl _,?_⟩
  rw [List.take_length, ← he, h]

theorem preparing_run (s : State) (front tail : List Instr) (h : Preparing s front tail)
    (hsame : s.book.activeColdBuffer = s.book.writeBufferIndex) (hw : ∀ w, Instr.write w ∉ front) :
    (Schedule.run exec s.rest s.book).getReadBuffer = s.book.getReadBuffer := by
  obtain ⟨hbuffers,hindex⟩ := front_run front s.book h.fronts hw
  rw [h.rest, Schedule.run_append, Schedule.run_append, swap_program, tail_run _ _ h.ends, swap_read,
    getWriteBuffer, hbuffers, hindex, getReadBuffer, hsame]

theorem pointer_sound (s : State) (he : Ends s) (h : Phase s) (hx : ¬Exposed s) :
    ∃ n, completed s ≤ n ∧ n ≤ s.ops.length ∧
      s.book.getReadBuffer = (after (s.ops.take n)).getReadBuffer := by
  have hother : ∀ a w : Fin 2, a ≠ w → otherBuffer w = a := by decide
  cases h with
  | preparing front tail h =>
    by_cases hsame : s.book.activeColdBuffer = s.book.writeBufferIndex
    · refine final_prefix s he (preparing_run s front tail h hsame ?_)
      intro w hw
      exact hx ⟨hsame,w,by rw [h.rest]; exact List.mem_append_left _ hw⟩
    · exact previous_prefix s (by simp [h.rest, swapProgram]) (h.dark hsame).2
  | flipped tail h =>
    by_cases hsame : s.book.activeColdBuffer = s.book.writeBufferIndex
    · exact previous_prefix s (by simp [h.rest]) (h.old hsame)
    · apply final_prefix s he
      have hactive := hother _ _ hsame
      have hexec : s.book.exec .activate = s.book := by
        rw [exec, hactive]
      rw [h.rest, Schedule.run, hexec]
      exact back_run _ _ _ h.ends hsame
  | copying ws tail h =>
    apply final_prefix s he
    rw [h.rest]
    exact back_run ws tail s.book h.ends h.apart
  | closing h => exact final_prefix s he (tail_run _ _ h.rest)

/-- Readers move without harm to the writer's phase: they leave the write
buffer, or enter the active one when no store into it is to come. -/
theorem phase_readers (s s' : State) (hb : s'.book = s.book) (hr : s'.rest = s.rest) (ho : s'.ops = s.ops)
    (hfree : (Free s s.book.writeBufferIndex → Free s' s.book.writeBufferIndex) ∨
      (s.book.activeColdBuffer = s.book.writeBufferIndex ∧ ¬Exposed s))
    (h : Phase s) : Phase s' := by
  have hapart : s.book.activeColdBuffer ≠ s.book.writeBufferIndex →
      Free s s.book.writeBufferIndex → Free s' s.book.writeBufferIndex := by
    intro hne
    rcases hfree with hfree | ⟨hsame,-⟩
    · exact hfree
    · exact absurd hsame hne
  cases h with
  | preparing front tail h =>
    refine .preparing front tail ⟨hr.trans h.rest,h.fronts,h.ends,?_,?_⟩
    · rw [hb, previous, ho]
      exact fun hne => ⟨hapart hne (h.dark hne).1,(h.dark hne).2⟩
    · rw [hb]
      intro hsame hw
      rcases hfree with hfree | ⟨-,hx⟩
      · exact hfree (h.fresh hsame hw)
      · obtain ⟨w,hw⟩ := hw
        exact absurd ⟨hsame,w,by rw [h.rest]; exact List.mem_append_left _ hw⟩ hx
  | flipped tail h =>
    refine .flipped tail ⟨hr.trans h.rest,h.ends,?_⟩
    rw [hb, previous, ho]
    exact h.old
  | copying ws tail h =>
    refine .copying ws tail ⟨hr.trans h.rest,h.ends,by rw [hb]; exact h.apart,?_⟩
    rw [hb]
    exact h.free.imp id (hapart h.apart)
  | closing h =>
    refine .closing ⟨by rw [hr]; exact h.rest,?_⟩
    rw [hb]
    exact fun hne => hapart hne (h.free hne)

/-- The writer's next step is a store into a cold buffer. -/
def Overwrites (s : State) : Prop :=
  match s.rest with
  | .write _::_ => True
  | .copyBack _::_ => True
  | _ => False

theorem begin_phase (s : State) (op : BookOp) (hr : s.rest = [])
    (hok : Intrudes s → Free s s.book.writeBufferIndex) (he : Ends s) (h : Closing s) :
    Phase (writeStep s op) := by
  obtain ⟨front,tail,hp,hf,ht⟩ := program_shape s.book op
  have hbook : s.book = after s.ops := by rwa [Ends, hr] at he
  have hintrudes : s.book.activeColdBuffer = s.book.writeBufferIndex → Intrudes s := by
    intro hsame
    rw [Intrudes, hr]
    exact hsame
  simp only [writeStep, hr]
  refine .preparing front tail ⟨hp,hf,ht,fun hne => ⟨h.free hne,?_⟩,fun hsame _ => ?_⟩
  · simp only [previous, List.dropLast_concat, ← hbook]
  · exact hok (hintrudes hsame)

/-- Where the writer stores, no query has loads to make. -/
theorem overwrites_free (s : State) (hok : Intrudes s → Free s s.book.writeBufferIndex) (h : Phase s)
    (ho : Overwrites s) : Free s s.book.writeBufferIndex := by
  cases h with
  | preparing front tail h =>
    by_cases hsame : s.book.activeColdBuffer = s.book.writeBufferIndex
    · apply h.fresh hsame
      cases front with
      | nil =>
        rw [Overwrites, h.rest] at ho
        exact absurd ho id
      | cons i front =>
        rw [Overwrites, h.rest] at ho
        cases i with
        | write w => exact ⟨w,List.mem_cons_self⟩
        | copyBack w => exact absurd (h.fronts _ List.mem_cons_self) Bool.false_ne_true
        | _ => exact absurd ho id
    · exact (h.dark hsame).1
  | flipped tail h =>
    rw [Overwrites, h.rest] at ho
    exact absurd ho id
  | copying ws tail h =>
    rcases h.free with hws | hfree
    · apply hok
      rw [Intrudes, h.rest, hws]
      trivial
    · exact hfree
  | closing h =>
    cases hr : s.rest with
    | nil =>
      rw [Overwrites, hr] at ho
      exact absurd ho id
    | cons i rest =>
      have hi := h.rest i (by rw [hr]; exact List.mem_cons_self)
      rw [Overwrites, hr, hi] at ho
      exact absurd ho id

theorem preparing_exec (s : State) (i : Instr) (front tail rest : List Instr) (hr : s.rest = i::rest)
    (h : Preparing s front tail) : Phase { s with book := s.book.exec i, rest := rest } := by
  have hother : ∀ a w : Fin 2, a = otherBuffer w → a ≠ w := by decide
  cases front with
  | nil =>
    have hrest := h.rest
    rw [hr, List.nil_append, swapProgram_append] at hrest
    obtain ⟨rfl,rfl⟩ := List.cons.inj hrest
    exact .flipped tail ⟨rfl,h.ends,fun hsame => (h.dark (hother _ _ hsame)).2⟩
  | cons j front =>
    have hrest := h.rest
    rw [hr] at hrest
    obtain ⟨rfl,rfl⟩ := List.cons.inj hrest
    obtain ⟨hwrite,hactive⟩ := exec_front s.book i (h.fronts i List.mem_cons_self)
    refine .preparing front tail ⟨rfl,fun j hj => h.fronts j (by simp [hj]),h.ends,?_,?_⟩
    · simp only [hwrite, hactive, getReadBuffer]
      intro hne
      refine ⟨(h.dark hne).1,?_⟩
      rw [exec_other s.book i _ hne]
      exact (h.dark hne).2
    · simp only [hwrite, hactive]
      rintro hsame ⟨w,hw⟩
      exact h.fresh hsame ⟨w,by simp [hw]⟩

theorem exec_phase (s : State) (i : Instr) (rest : List Instr) (hr : s.rest = i::rest)
    (hok : Intrudes s → Free s s.book.writeBufferIndex) (h : Phase s) :
    Phase { s with book := s.book.exec i, rest := rest } := by
  have hfree := overwrites_free s hok h
  cases h with
  | preparing front tail h => exact preparing_exec s i front tail rest hr h
  | flipped tail h =>
    have hapart : ∀ w : Fin 2, otherBuffer w ≠ w := by decide
    obtain ⟨rfl,rfl⟩ := List.cons.inj (hr.symm.trans h.rest)
    exact .copying coldWords tail ⟨rfl,h.ends,hapart _,Or.inl rfl⟩
  | copying ws tail h =>
    have hrest := hr.symm.trans h.rest
    cases ws with
    | nil =>
      obtain ⟨rfl,rfl⟩ := List.cons.inj hrest
      refine .closing ⟨h.ends,fun _ => ?_⟩
      rcases h.free with hws | hf
      · cases hws
      · exact hf
    | cons w ws =>
      obtain ⟨rfl,rfl⟩ := List.cons.inj hrest
      refine .copying ws tail ⟨rfl,h.ends,h.apart,Or.inr (hfree ?_)⟩
      rw [Overwrites, hr]
      trivial
  | closing h =>
    have hi := h.rest i (by rw [hr]; exact List.mem_cons_self)
    subst hi
    exact .closing ⟨fun j hj => h.rest j (by rw [hr]; exact List.mem_cons_of_mem _ hj),h.free⟩

theorem writeStep_phase (s : State) (op : BookOp) (hok : Intrudes s → Free s s.book.writeBufferIndex)
    (he : Ends s) (h : Phase s) : Phase (writeStep s op) := by
  cases hr : s.rest with
  | nil =>
    refine begin_phase s op hr hok he ?_
    cases h with
    | closing h => exact h
    | preparing front tail h => exact absurd (hr.symm.trans h.rest) (by simp [swapProgram])
    | flipped tail h => exact absurd (hr.symm.trans h.rest) (by simp)
    | copying ws tail h => exact absurd (hr.symm.trans h.rest) (by simp [backProgram])
  | cons i rest =>
    simp only [writeStep, hr]
    exact exec_phase s i rest hr hok h

end Writer

section Reads

/-- The answer of the sequential query on the book left by a prefix of the
operations: no shorter than what was complete at the pointer load, no longer
than what had begun at the return. -/
structure Consistent (ops : List BookOp) (r : ColdReturn) : Prop where
  begun : r.begun ≤ ops.length
  state : ∃ n, r.completed ≤ n ∧ n ≤ r.begun ∧
    r.answer = r.query.ask (after (ops.take n))

def ColdPlaceSound (s : State) : ColdPlace → Prop
  | .reading q buffer k rest => ∃ n, k ≤ n ∧ n ≤ s.ops.length ∧
      rest.result (s.book.coldBuffers buffer) = q.ask (after (s.ops.take n))
  | _ => True

structure ColdSound (s : State) : Prop where
  ends : Ends s
  phase : Phase s
  readers : ∀ t, ColdPlaceSound s (s.coldReaders t)
  returned : ∀ r ∈ s.coldReturns, Consistent s.ops r

theorem consistent_append (ops more : List BookOp) (r : ColdReturn) (h : Consistent ops r) :
    Consistent (ops++more) r := by
  obtain ⟨n,hlow,hhigh,ha⟩ := h.state
  have hb := h.begun
  constructor
  case begun => exact hb.trans (by simp)
  case state =>
    refine ⟨n,hlow,hhigh,?_⟩
    rw [List.take_append_of_le_length (by omega)]
    exact ha

theorem place_begin (s : State) (op : BookOp) (hr : s.rest = []) (p : ColdPlace) (h : ColdPlaceSound s p) :
    ColdPlaceSound (writeStep s op) p := by
  cases p with
  | reading q buffer k rest =>
    obtain ⟨n,hlow,hhigh,ha⟩ := h
    simp only [writeStep, hr]
    refine ⟨n,hlow,hhigh.trans (by simp),?_⟩
    rw [List.take_append_of_le_length hhigh]
    exact ha
  | _ => trivial

theorem place_exec (s : State) (i : Instr) (rest : List Instr) (hr : s.rest = i::rest) (p : ColdPlace)
    (hfree : Overwrites s → ¬Traverses s.book.writeBufferIndex p) (h : ColdPlaceSound s p) :
    ColdPlaceSound { s with book := s.book.exec i, rest := rest } p := by
  cases p with
  | reading q buffer k loads =>
    obtain ⟨n,hlow,hhigh,ha⟩ := h
    refine ⟨n,hlow,hhigh,?_⟩
    cases loads with
    | done answer => exact ha
    | load next =>
      have hsame : (s.book.exec i).coldBuffers buffer = s.book.coldBuffers buffer := by
        by_cases hb : buffer = s.book.writeBufferIndex
        · rw [Overwrites, hr] at hfree
          cases i with
          | write w => exact absurd hb (hfree trivial)
          | copyBack w => exact absurd hb (hfree trivial)
          | _ => rfl
        · exact exec_other s.book i buffer hb
      rw [hsame]
      exact ha
  | _ => trivial

theorem writeStep_cold (s : State) (op : BookOp) (hok : Intrudes s → Free s s.book.writeBufferIndex)
    (h : ColdSound s) : ColdSound (writeStep s op) := by
  have hends := ends_write s op h.ends
  have hphase := writeStep_phase s op hok h.ends h.phase
  have hfree := overwrites_free s hok h.phase
  cases hr : s.rest with
  | nil =>
    constructor
    case ends => exact hends
    case phase => exact hphase
    case readers =>
      intro t
      have hp := place_begin s op hr _ (h.readers t)
      simp only [writeStep, hr] at hp ⊢
      exact hp
    case returned =>
      simp only [writeStep, hr]
      exact fun r hm => consistent_append _ _ r (h.returned r hm)
  | cons i rest =>
    simp only [writeStep, hr] at hends hphase ⊢
    constructor
    case ends => exact hends
    case phase => exact hphase
    case readers => exact fun t => place_exec s i rest hr _ (fun ho => hfree ho t) (h.readers t)
    case returned => exact h.returned

theorem setCold_sound (s : State) (t : ℕ) (p : ColdPlace) (hp : ColdPlaceSound s p)
    (htr : (Traverses s.book.writeBufferIndex p → Traverses s.book.writeBufferIndex (s.coldReaders t)) ∨
      (s.book.activeColdBuffer = s.book.writeBufferIndex ∧ ¬Exposed s))
    (h : ColdSound s) : ColdSound (setCold s t p) := by
  constructor
  case ends => exact h.ends
  case phase =>
    refine phase_readers s (setCold s t p) rfl rfl rfl (htr.imp_left (fun htr hfree => ?_)) h.phase
    exact (Function.forall_update_iff _ fun _ => (¬Traverses s.book.writeBufferIndex ·)).mpr
      ⟨fun hp => hfree t (htr hp),fun u _ => hfree u⟩
  case readers =>
    exact (Function.forall_update_iff _ fun _ => ColdPlaceSound s).mpr ⟨hp,fun u _ => h.readers u⟩
  case returned => exact h.returned

theorem enter_sound (s : State) (t : ℕ) (q : ColdQuery) (hx : ¬Exposed s) (h : ColdSound s) :
    ColdSound (setCold s t (.reading q s.book.activeColdBuffer (completed s) q.reading)) := by
  obtain ⟨n,hlow,hhigh,hbuffer⟩ := pointer_sound s h.ends h.phase hx
  have hbounded : Bounded (after (s.ops.take n)).getReadBuffer :=
    (run_refines (s.ops.take n) {} new_coherent).1.bounded
  apply setCold_sound s t _ _ _ h
  · refine ⟨n,hlow,hhigh,?_⟩
    rw [← coldReading_result q _ hbounded, ← hbuffer]
    rfl
  · by_cases hsame : s.book.activeColdBuffer = s.book.writeBufferIndex
    · exact Or.inr ⟨hsame,hx⟩
    · left
      intro htr
      cases hq : q.reading with
      | done answer =>
        rw [hq] at htr
        exact absurd htr id
      | load next =>
        rw [hq] at htr
        exact absurd htr hsame

theorem coldReturn_sound (s : State) (t : ℕ) (q : ColdQuery) (buffer : Fin 2) (k : ℕ) (answer : ColdAnswer)
    (hp : ColdPlaceSound s (.reading q buffer k (.done answer))) (h : ColdSound s) :
    ColdSound (setCold { s with
      coldReturns := s.coldReturns++[⟨q,answer,k,s.ops.length⟩] } t .idle) := by
  refine setCold_sound _ t .idle trivial (Or.inl fun h => absurd h id) ?_
  constructor
  case ends => exact h.ends
  case phase => exact phase_readers s _ rfl rfl rfl (Or.inl id) h.phase
  case readers => exact h.readers
  case returned =>
    intro r hr
    rcases List.mem_append.mp hr with hr | hr
    · exact h.returned r hr
    · obtain rfl := List.mem_singleton.mp hr
      exact ⟨le_refl _,hp⟩

theorem coldStep_cold (s : State) (t : ℕ) (query : ColdQuery)
    (hok : ∀ q, s.coldReaders t = .start q → ¬Exposed s) (h : ColdSound s) :
    ColdSound (coldStep s t query) := by
  have hp := h.readers t
  unfold coldStep
  cases ht : s.coldReaders t with
  | idle => exact setCold_sound s t _ trivial (Or.inl fun h => absurd h id) h
  | start q => exact enter_sound s t q (hok q ht) h
  | reading q buffer k rest =>
    rw [ht] at hp
    cases rest with
    | done answer => exact coldReturn_sound s t q buffer k answer hp h
    | load next =>
      obtain ⟨n,hlow,hhigh,ha⟩ := hp
      refine setCold_sound s t _ ⟨n,hlow,hhigh,?_⟩ (Or.inl fun htr => ?_) h
      · rw [Reading.result_advance]
        exact ha
      · rw [ht]
        simp only [Reading.advance] at htr
        cases hn : next (s.book.coldBuffers buffer) with
        | done answer =>
          rw [hn] at htr
          exact absurd htr id
        | load more =>
          rw [hn] at htr
          exact htr

theorem initial_coldSound : ColdSound {} := by
  constructor
  case ends => rfl
  case phase => exact .closing ⟨fun i hi => absurd hi List.not_mem_nil,fun h => absurd rfl h⟩
  case readers => exact fun _ => trivial
  case returned => exact fun r hr => absurd hr List.not_mem_nil

variable [NearestDivision.NearestDiv]

theorem lookStep_frame (s : State) (t : ℕ) (q : HotQuery) (k : ℕ) :
    ∃ readers returns,
      lookStep s t q k = { s with hotReaders := readers, hotReturns := returns } := by
  by_cases hodd : s.book.hotData.version%2 = 1
  · exact ⟨_,_,if_pos hodd⟩
  · exact ⟨_,_,if_neg hodd⟩

/-- A hot query touches the hot readers only. -/
theorem hotStep_frame (s : State) (t : ℕ) (query : HotQuery) :
    ∃ readers returns,
      hotStep s t query = { s with hotReaders := readers, hotReturns := returns } := by
  unfold hotStep
  cases s.hotReaders t with
  | idle => exact ⟨_,_,rfl⟩
  | start q => exact lookStep_frame s t q _
  | retry q k => exact lookStep_frame s t q k
  | reading q k version rest =>
    cases rest with
    | load step => exact ⟨_,_,rfl⟩
    | done answer =>
      by_cases hv : s.book.hotData.version = version
      · exact ⟨_,_,if_pos hv⟩
      · exact ⟨_,_,if_neg hv⟩

theorem hotStep_cold (s : State) (t : ℕ) (q : HotQuery) (h : ColdSound s) : ColdSound (hotStep s t q) := by
  obtain ⟨readers,returns,hs⟩ := hotStep_frame s t q
  rw [hs]
  constructor
  case ends => exact h.ends
  case phase => exact phase_readers s _ rfl rfl rfl (Or.inl id) h.phase
  case readers =>
    intro u
    have hu := h.readers u
    cases hp : s.coldReaders u with
    | reading q buffer k rest =>
      rw [hp] at hu
      exact hu
    | _ => trivial
  case returned => exact h.returned

theorem step_coldSound (s : State) (a : Action) (hok : Undisturbed s a) (h : ColdSound s) :
    ColdSound (step s a) := by
  cases a with
  | write op => exact writeStep_cold s op hok h
  | hot t q => exact hotStep_cold s t q h
  | cold t q => exact coldStep_cold s t q hok h

/-- In an undisturbed run every cold query answers from one prefix of the
operations, and no store goes to a buffer that a query is traversing. -/
theorem cold_reads_consistent (actions : List Action)
    (hok : Schedule.Allowed step Undisturbed actions {}) :
    (∀ r ∈ (Schedule.run step actions {}).coldReturns,
      Consistent (Schedule.run step actions {}).ops r) ∧
    ∀ (before rest : List Action) (op : BookOp), actions = before++.write op::rest →
      Overwrites (Schedule.run step before {}) →
      Free (Schedule.run step before {}) (Schedule.run step before {}).book.writeBufferIndex := by
  constructor
  · exact (Schedule.invariant step Undisturbed ColdSound step_coldSound actions {} hok
      initial_coldSound).returned
  · rintro before rest op rfl ho
    obtain ⟨hbefore,hnext,-⟩ := (Schedule.allowed_append step Undisturbed before _ {}).mp hok
    have hs := Schedule.invariant step Undisturbed ColdSound step_coldSound before {} hbefore
      initial_coldSound
    exact overwrites_free _ hnext hs.phase ho

end Reads

def openingBid : BookOp := .update { price := Decimal.ofInt 100, quantity := Decimal.ofInt 1 }

def lateReader : List Action :=
  List.replicate 101 (Action.write openingBid)++List.replicate 3 (Action.cold 0 (.bidLevels 20))++
    List.replicate 110 (Action.write .clear)++List.replicate 4 (Action.cold 0 (.bidLevels 20))

def answeredBids (l : List PriceLevel) (r : ColdReturn) : Bool :=
  match r.query,r.answer with
  | .bidLevels 20,.levels l' => l' = l
  | _,_ => false

/-- It returns a bid at price zero, which no prefix of the operations leaves. -/
theorem lateReader_mixes_levels : ∃ r ∈ (Schedule.run step lateReader {}).coldReturns,
    ∀ n, r.answer ≠ r.query.ask (after ((Schedule.run step lateReader {}).ops.take n)) := by
  have hreturn : (Schedule.run step lateReader {}).coldReturns.any
      (answeredBids [⟨0,Decimal.ofInt 1⟩]) = true := by decide +kernel
  have hlength : (Schedule.run step lateReader {}).ops.length = 2 := by decide +kernel
  have hcontents : ∀ n < 3,
      (after ((Schedule.run step lateReader {}).ops.take n)).getBidLevels 20 ≠
        [⟨0,Decimal.ofInt 1⟩] := by decide +kernel
  obtain ⟨r,hr,hanswer⟩ := List.any_eq_true.mp hreturn
  refine ⟨r,hr,fun n hn => ?_⟩
  obtain ⟨query,answer,k,m⟩ := r
  unfold answeredBids at hanswer
  split at hanswer
  case h_1 l hq ha =>
    simp only at hq ha hn
    rw [hq, ha, ColdQuery.ask] at hn
    have hl := (of_decide_eq_true hanswer).symm.trans (ColdAnswer.levels.inj hn)
    rcases Nat.lt_or_ge n 3 with hlt | hge
    · exact hcontents n hlt hl.symm
    · rw [List.take_of_length_le (by omega)] at hl
      exact hcontents 2 (by decide) (by rw [List.take_of_length_le (by omega)]; exact hl.symm)
  case h_2 => cases hanswer

def readAfterUpdate : List Action :=
  List.replicate 101 (Action.write openingBid)++List.replicate 7 (Action.cold 0 (.bidLevels 20))

theorem idle_undisturbed (n : ℕ) (op : BookOp) (s : State) (h : ∀ t, s.coldReaders t = .idle) :
    Schedule.Allowed step Undisturbed (List.replicate n (.write op)) s := by
  induction n generalizing s with
  | zero => trivial
  | succ n ih =>
    refine ⟨fun _ t => by rw [h t]; exact id,ih _ (fun t => ?_)⟩
    change (writeStep s op).coldReaders t = .idle
    unfold writeStep
    split <;> exact h t

def Unexposed (s : State) : Action → Bool
  | .cold _ _ => s.book.activeColdBuffer ≠ s.book.writeBufferIndex
  | _ => false

theorem readAfterUpdate_consistent :
    (Schedule.run step readAfterUpdate {}).coldReturns.any
      (answeredBids [⟨Decimal.ofInt 100,Decimal.ofInt 1⟩]) = true ∧
    (∀ r ∈ (Schedule.run step readAfterUpdate {}).coldReturns,
      Consistent (Schedule.run step readAfterUpdate {}).ops r) := by
  refine ⟨by decide +kernel,(cold_reads_consistent readAfterUpdate ?_).1⟩
  rw [readAfterUpdate, Schedule.allowed_append]
  refine ⟨idle_undisturbed _ _ _ (fun _ => rfl),?_⟩
  refine Schedule.allowed_of_invariant step (fun s a => Unexposed s a = true) Undisturbed (fun _ => True)
    (fun _ _ _ _ => trivial) ?_ _ _ (by decide +kernel) trivial
  intro s a ha _
  cases a with
  | cold t q => exact fun _ _ hx => absurd hx.1 (by simpa [Unexposed] using ha)
  | _ => cases ha

end Chronos.OrderBookThreads
