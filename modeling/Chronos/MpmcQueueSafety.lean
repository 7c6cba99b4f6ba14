import Chronos.MpmcQueueSteps

/-!
# Safety of the bounded queue

Read off the invariant: what no interleaving of pushes and pops can do. The
queue is then compared with the bounded sequence it stands for: the exchange
of a push appends a value, the exchange of a pop takes the first one, and
every other step leaves the sequence alone.
-/

set_option autoImplicit false

namespace Chronos.MpmcQueue
open TicketRing

section Safety
variable {V : Type} (c : Capacity)

structure Safe (s : State V) : Prop where
  /-- The copy into a slot finds every earlier value of the slot copied out. -/
  noOverwrite : ∀ t val pos, s.threads t = .pushCopy val pos → ∀ q, mask c q = mask c pos →
    (s.tickets.stage q).isWritten = true → (s.tickets.stage q).isCopied = true
  /-- The copy writes the value of the push that drew the ticket. -/
  writes : ∀ t val pos, s.threads t = .pushCopy val pos → s.pushed[pos]? = some val
  /-- A pop returns the value of the push with its ticket. -/
  returns : ∀ q v, (q,v) ∈ s.returned → ∃ val, v = some val ∧ s.pushed[q]? = some val
  returnsOnce : (s.returned.map Prod.fst).Nodup
  inOrder : ∀ (m : ℕ) (values : ℕ → Option V), (∀ q, q < m → (q,values q) ∈ s.returned) →
    (List.range m).map values = (s.pushed.take m).map some
  /-- A pushed value is in the hand of a thread, in its slot, or returned. -/
  nothingLost : ∀ q, q < s.pushed.length → (∃ t, hand (s.threads t) = some (q,s.tickets.stage q)) ∨
    (s.slots (mask c q)).data = s.pushed[q]? ∨ ∃ v, (q,v) ∈ s.returned
  /-- Between its exchange and its store a thread has its slot to itself. -/
  untorn : ∀ t u q r st st', hand (s.threads t) = some (q,st) → hand (s.threads u) = some (r,st') →
    mask c q = mask c r → t = u
  ordered : s.tail ≤ s.head ∧ s.head ≤ s.tail+c.size
  held : ∀ tickets : Finset ℕ, (∀ q ∈ tickets, (s.tickets.stage q).isWritten = true ∧
    (s.tickets.stage q).isCopied = false) → tickets.card ≤ c.size
  /-- A push gives up only on a slot that its ticket's predecessor still has. -/
  full : ∀ (a : Action V) (val : V) (pos : ℕ), s.threads a.thread = .pushSeq val pos →
    (step c s a).threads a.thread = .idle → c.size ≤ pos ∧ s.tickets.stage (pos-c.size) ≠ .released
  /-- A pop gives up only on a ticket that is not published. -/
  empty : ∀ (a : Action V) (pos : ℕ), s.threads a.thread = .popSeq pos →
    (step c s a).threads a.thread = .idle → (s.tickets.stage pos).isPublished = false

variable (s : State V) (h : Invariant c s)
include h

theorem invariant_noOverwrite (t : ℕ) (val : V) (pos q : ℕ) (ht : s.threads t = .pushCopy val pos)
    (hm : q%c.size = pos%c.size) (hw : (s.tickets.stage q).isWritten = true) :
    (s.tickets.stage q).isCopied = true := by
  have hheld := held_of_hand c s t pos .taken h (by rw [ht]; rfl)
  rcases lt_trichotomy q pos with hlt | rfl | hgt
  · rw [h.sound.earlier q (by rw [hm, hheld.turn]; exact hlt)]
    rfl
  · rw [hheld.stage] at hw
    exact absurd hw (by decide)
  · rw [h.sound.later q (by rw [hm, hheld.turn]; exact hgt)] at hw
    exact absurd hw (by decide)

theorem invariant_returns (q : ℕ) (v : Option V) (hv : (q,v) ∈ s.returned) :
    ∃ val, v = some val ∧ s.pushed[q]? = some val := by
  obtain ⟨-,hsome,hval⟩ := h.returns.sound _ hv
  obtain ⟨val,rfl⟩ := Option.isSome_iff_exists.mp hsome
  exact ⟨val,rfl,hval⟩

theorem invariant_inOrder (m : ℕ) (values : ℕ → Option V)
    (hv : ∀ q, q < m → (q,values q) ∈ s.returned) :
    (List.range m).map values = (s.pushed.take m).map some := by
  apply List.ext_getElem?
  intro i
  by_cases hi : i < m
  · obtain ⟨val,he,hp⟩ := invariant_returns c s h i _ (hv i hi)
    simp [hi, he, hp]
  · simp [hi]

theorem invariant_nothingLost (q : ℕ) (hq : q < s.pushed.length) :
    (∃ t, hand (s.threads t) = some (q,s.tickets.stage q)) ∨
      (s.slots (q%c.size)).data = s.pushed[q]? ∨ ∃ v, (q,v) ∈ s.returned := by
  by_cases hin : (s.tickets.stage q).inHand = true
  · exact Or.inl (h.hands.owned q hin)
  by_cases hr : s.tickets.stage q = .released
  · exact Or.inr (Or.inr (h.returns.complete q hr))
  have hu : s.tickets.stage q ≠ .untaken := by
    intro hu
    have := (h.sound.untaken q).mp hu
    rw [h.memory.length] at hq
    omega
  have hturn := turn_of_busy c.size s.tickets h.sound q hu hr
  have hdata := h.memory.data _ (Nat.mod_lt q (size_pos c))
  rw [hturn] at hdata
  right
  left
  apply hdata
  revert hin hr hu
  cases s.tickets.stage q <;> simp [Stage.inHand, Stage.isWritten]

theorem invariant_untorn (t u q r : ℕ) (st st' : Stage) (hq : hand (s.threads t) = some (q,st))
    (hr : hand (s.threads u) = some (r,st')) (hm : q%c.size = r%c.size) : t = u := by
  have h1 := (held_of_hand c s t q st h hq).turn
  have h2 := (held_of_hand c s u r st' h hr).turn
  obtain rfl : q = r := by rw [← h1, ← h2, hm]
  exact h.hands.alone t u q st st' hq hr

theorem turn_le_seq (i : ℕ) (hi : i < c.size) : s.tickets.turn i ≤ (s.slots i).seq := by
  rw [h.memory.seq i hi]
  split_ifs <;> omega

theorem invariant_full (a : Action V) (val : V) (pos : ℕ) (ht : s.threads a.thread = .pushSeq val pos)
    (hidle : (step c s a).threads a.thread = .idle) :
    c.size ≤ pos ∧ s.tickets.stage (pos-c.size) ≠ .released := by
  have hk := h.known a.thread
  rw [ht] at hk
  have hpos : pos ≤ s.tickets.head := hk
  have hhead := (counters_small c s h).1
  have hi := Nat.mod_lt pos (size_pos c)
  have hdiff := pushDiff_eq _ pos (seq_small c s h _ hi) (by omega)
  have hneg : pushDiff (s.slots (pos%c.size)).seq pos < 0 := by
    simp only [step, ht, pushSeqStep, mask_eq] at hidle
    split_ifs at hidle with h0 hneg
    · simp [goto] at hidle
    · exact hneg
    · simp [goto] at hidle
  have hle := turn_le_seq c s h _ hi
  have hround := round_apart c.size _ pos (h.sound.place _ hi) (by omega)
  have hm : (pos-c.size)%c.size = pos%c.size := (Nat.mod_eq_sub_mod (by omega)).symm
  constructor
  · omega
  rcases eq_or_lt_of_le (show s.tickets.turn (pos%c.size) ≤ pos-c.size by omega) with he | hlt
  · rw [← he]
    exact h.sound.current _ hi
  · rw [h.sound.later _ (by rw [hm]; exact hlt)]
    simp

theorem invariant_empty (a : Action V) (pos : ℕ) (ht : s.threads a.thread = .popSeq pos)
    (hidle : (step c s a).threads a.thread = .idle) :
    (s.tickets.stage pos).isPublished = false := by
  have hk := h.known a.thread
  rw [ht] at hk
  have hpos : pos ≤ s.tickets.tail := hk
  have htail := (counters_small c s h).2
  have hi := Nat.mod_lt pos (size_pos c)
  have hdiff := popDiff_eq _ pos (seq_small c s h _ hi) (by omega)
  have hneg : popDiff (s.slots (pos%c.size)).seq pos < 0 := by
    simp only [step, ht, popSeqStep, mask_eq] at hidle
    split_ifs at hidle with h0 hneg
    · simp [goto] at hidle
    · exact hneg
    · simp [goto] at hidle
  have hle := turn_le_seq c s h _ hi
  rcases eq_or_lt_of_le (show s.tickets.turn (pos%c.size) ≤ pos by omega) with he | hlt
  · have hseq := h.memory.seq _ hi
    rw [he] at hseq
    cases hp : (s.tickets.stage pos).isPublished with
    | false => rfl
    | true =>
      rw [hp, if_pos rfl] at hseq
      omega
  · rw [h.sound.later pos hlt]
    rfl

end Safety

section Runs
variable {V : Type} (c : Capacity)

theorem invariant_safe (s : State V) (h : Invariant c s) : Safe c s := by
  have hb := counters_bounded c.size s.tickets h.sound (size_pos c)
  constructor
  case noOverwrite =>
    intro t val pos ht q hm
    rw [mask_eq, mask_eq] at hm
    exact invariant_noOverwrite c s h t val pos q ht hm
  case writes =>
    intro t val pos ht
    have hk := h.known t
    rwa [ht] at hk
  case returns => exact invariant_returns c s h
  case returnsOnce => exact h.returns.distinct
  case inOrder => exact invariant_inOrder c s h
  case nothingLost =>
    intro q hq
    rw [mask_eq]
    exact invariant_nothingLost c s h q hq
  case untorn =>
    intro t u q r st st' hq hr hm
    rw [mask_eq, mask_eq] at hm
    exact invariant_untorn c s h t u q r st st' hq hr hm
  case ordered =>
    rw [h.memory.head, h.memory.tail]
    exact hb
  case held => exact unconsumed_card c.size s.tickets h.sound (size_pos c)
  case full => exact invariant_full c s h
  case empty => exact invariant_empty c s h

/-- Every capacity, every number of threads, every interleaving of fewer than
`2^62` operations. -/
theorem queue_safe (actions : List (Action V))
    (hok : Schedule.Allowed (step c) (FewOperations c) actions (initial V)) :
    Safe c (Schedule.run (step c) actions (initial V)) :=
  invariant_safe c _ (run_invariant c actions hok)

/-- The sequence the queue stands for: drawn by a push, not yet by a pop. -/
def contents (s : State V) : List V := s.pushed.drop s.tail

theorem contents_length (s : State V) (h : Invariant c s) :
    (contents s).length = s.head-s.tail := by
  rw [contents, List.length_drop, h.memory.length, h.memory.head]

theorem pushSwap_contents (s : State V) (t : ℕ) (val : V) (pos : ℕ) (spurious : Bool)
    (h : Invariant c s) (h' : Invariant c (pushSwapStep s t val pos spurious)) :
    contents (pushSwapStep s t val pos spurious) = contents s ∨
      contents (pushSwapStep s t val pos spurious) = contents s++[val] ∧
        (contents s).length < c.size := by
  have hhead := (counters_small c s h).1
  have hb := counters_bounded c.size s.tickets h.sound (size_pos c)
  have hb' := counters_bounded c.size _ h'.sound (size_pos c)
  have hlen := contents_length c s h
  have hlength := h.memory.length
  have hmh := h.memory.head
  have hmt := h.memory.tail
  unfold pushSwapStep at hb' ⊢
  split_ifs at hb' ⊢ with hcas
  · simp only [goto, Tickets.take] at hb'
    have hle : s.tail ≤ s.pushed.length := by omega
    exact Or.inr ⟨List.drop_append_of_le_length hle,by omega⟩
  · exact Or.inl rfl

theorem popSwap_contents (s : State V) (t pos : ℕ) (spurious : Bool) (h : Invariant c s)
    (h' : Invariant c (popSwapStep s t pos spurious)) :
    contents (popSwapStep s t pos spurious) = contents s ∨
      ∃ val, contents s = val::contents (popSwapStep s t pos spurious) ∧
        s.pushed[pos]? = some val := by
  have htail := (counters_small c s h).2
  have hb' := counters_bounded c.size _ h'.sound (size_pos c)
  have hlength := h.memory.length
  have hmt := h.memory.tail
  unfold popSwapStep at hb' ⊢
  split_ifs at hb' ⊢ with hcas
  · simp only [goto, Tickets.claim] at hb'
    have hlt : pos < s.pushed.length := by omega
    refine Or.inr ⟨s.pushed[pos],?_,List.getElem?_eq_getElem hlt⟩
    simp only [contents, goto]
    rw [hcas.1, Nat.mod_eq_of_lt (by omega)]
    exact List.drop_eq_getElem_cons hlt
  · exact Or.inl rfl

/-- One step of the queue is a step of the bounded sequence: nothing, a value
put last while there is room, or the first value taken by the pop whose
ticket it has. -/
theorem step_contents (s : State V) (a : Action V) (hf : FewOperations c s a) (h : Invariant c s) :
    contents (step c s a) = contents s ∨
      (∃ val, contents (step c s a) = contents s++[val] ∧ (contents s).length < c.size) ∨
      ∃ pos val, s.threads a.thread = .popSwap pos ∧ contents s = val::contents (step c s a) ∧
        s.pushed[pos]? = some val := by
  have h' := step_invariant c s a hf h
  unfold step at h' ⊢
  cases ht : s.threads a.thread with
  | idle => exact Or.inl rfl
  | pushLoad val => exact Or.inl rfl
  | pushSeq val pos =>
    left
    simp only [pushSeqStep]
    split_ifs <;> rfl
  | pushSwap val pos =>
    simp only [ht] at h'
    exact (pushSwap_contents c s a.thread val pos a.spurious h h').imp_right
      (fun hp => Or.inl ⟨val,hp⟩)
  | pushCopy val pos => exact Or.inl rfl
  | pushStore pos => exact Or.inl rfl
  | popLoad => exact Or.inl rfl
  | popSeq pos =>
    left
    simp only [popSeqStep]
    split_ifs <;> rfl
  | popSwap pos =>
    simp only [ht] at h'
    refine (popSwap_contents c s a.thread pos a.spurious h h').imp_right (fun hp => Or.inr ?_)
    obtain ⟨val,hc,hv⟩ := hp
    exact ⟨pos,val,rfl,hc,hv⟩
  | popCopy pos => exact Or.inl rfl
  | popStore pos val => exact Or.inl rfl

end Runs

def pair : Capacity := ⟨1,by decide,by decide⟩

def pushAndPop : List (Action ℕ) :=
  [⟨0,.push 7,false⟩,⟨0,.pop,false⟩,⟨0,.pop,false⟩,⟨0,.pop,false⟩,⟨0,.pop,false⟩,⟨1,.pop,false⟩,
    ⟨1,.pop,false⟩,⟨0,.pop,false⟩,⟨1,.pop,false⟩,⟨1,.pop,true⟩,⟨1,.pop,false⟩,⟨1,.pop,false⟩,
    ⟨1,.pop,false⟩,⟨1,.pop,false⟩]

theorem pushAndPop_safe : (Schedule.run (step pair) pushAndPop (initial ℕ)).returned = [(0,some 7)] ∧
    Safe pair (Schedule.run (step pair) pushAndPop (initial ℕ)) :=
  ⟨by decide,queue_safe pair pushAndPop (by decide)⟩

end Chronos.MpmcQueue
