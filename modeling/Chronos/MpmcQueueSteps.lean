import Chronos.MpmcQueueInvariant

/-!
# Every step keeps the agreement

Steps before a compare-exchange change nothing that is shared. The steps that
move a ticket from one stage to the next all have the same shape: one thread,
one slot and the stage of the ticket whose turn it is. Only the last store of
a pop also moves a turn.
-/

set_option autoImplicit false

namespace Chronos.MpmcQueue
open TicketRing

section Bounds
variable {V : Type} (c : Capacity) (s : State V)

theorem size_pos : 0 < c.size := by
  have h := (size_bounds c).1
  omega

theorem counters_small (h : Invariant c s) : s.tickets.head < 2^62 ∧ s.tickets.tail < 2^62 := by
  obtain ⟨active,-,hle⟩ := h.budget
  have := h.few
  omega

theorem turn_small (h : Invariant c s) (i : ℕ) (hi : i < c.size) : s.tickets.turn i < 2^63 := by
  have hsize := (size_bounds c).2
  have htail := (counters_small c s h).2
  by_cases hlt : s.tickets.turn i < c.size
  · omega
  have hm : (s.tickets.turn i-c.size)%c.size = i := by
    have hp := h.sound.place i hi
    rwa [← Nat.mod_eq_sub_mod (by omega)]
  have hrel := h.sound.earlier (s.tickets.turn i-c.size) (by rw [hm]; have := size_pos c; omega)
  have hc := (h.sound.claimed (s.tickets.turn i-c.size)).mp (by rw [hrel]; rfl)
  omega

theorem seq_small (h : Invariant c s) (i : ℕ) (hi : i < c.size) : (s.slots i).seq < 2^63 := by
  have hhead := (counters_small c s h).1
  rw [h.memory.seq i hi]
  split_ifs with hp
  · have hu : ¬s.tickets.head ≤ s.tickets.turn i := by
      intro hf
      rw [(h.sound.untaken _).mpr hf] at hp
      exact absurd hp (by decide)
    omega
  · exact turn_small c s h i hi

/-- A sequence number equal to the position shows that the position has the turn. -/
theorem turn_of_seq (h : Invariant c s) (pos : ℕ) (hs : (s.slots (pos%c.size)).seq = pos) :
    s.tickets.turn (pos%c.size) = pos := by
  have hi := Nat.mod_lt pos (size_pos c)
  rw [h.memory.seq _ hi] at hs
  split_ifs at hs with hp
  · have := round_apart c.size _ pos (h.sound.place _ hi) (by omega)
    have := (size_bounds c).1
    omega
  · exact hs

/-- A sequence number one above shows that the position is published. -/
theorem published_of_seq (h : Invariant c s) (pos : ℕ)
    (hs : (s.slots (pos%c.size)).seq = pos+1) : (s.tickets.stage pos).isPublished = true := by
  have hi := Nat.mod_lt pos (size_pos c)
  rw [h.memory.seq _ hi] at hs
  split_ifs at hs with hp
  · rwa [show s.tickets.turn (pos%c.size) = pos by omega] at hp
  · have := round_apart c.size pos _ (h.sound.place _ hi).symm (by omega)
    have := (size_bounds c).1
    omega

end Bounds

section Quiet
variable {V : Type} (c : Capacity) (s : State V) (t : ℕ)

theorem quiet_invariant (p : Place V) (begun : ℕ) (hfrom : hand (s.threads t) = none)
    (hto : hand p = none) (hk : Known c s p) (hb : begun < 2^62)
    (ha : (isActive p).toNat+s.begun ≤ (isActive (s.threads t)).toNat+begun) (h : Invariant c s) :
    Invariant c (goto { s with begun := begun } t p) := by
  have hu := (h.sound.untaken s.tickets.head).mpr (le_refl _)
  have hlater : Later s (goto { s with begun := begun } t p) :=
    ⟨le_refl _,le_refl _,fun _ => le_refl _,fun _ h => h,fun _ _ h => h⟩
  have hhands : Hands (goto { s with begun := begun } t p) := by
    -- restaging an untaken ticket to untaken changes nothing
    refine hands_restage s _ t p s.tickets.head .untaken rfl ?_ (Or.inl ⟨hfrom,by rw [hu]; rfl⟩)
      (Or.inr ⟨hto,rfl⟩) h.hands
    exact (Function.update_eq_self_iff.mpr hu.symm).symm
  exact
    { sound := h.sound
      memory := ⟨h.memory.head,h.memory.tail,h.memory.length,h.memory.seq,h.memory.data⟩
      hands := hhands
      known := known_move s _ t p c rfl hlater (known_later c s _ p hlater hk) h.known
      returns := returns_keep s _ rfl (fun _ => Iff.rfl) (fun _ _ h => h) h.returns
      budget := budget_move s _ t p rfl (by simp only [goto]; omega) h.budget
      few := hb }

theorem begin_invariant (request : Request V) (ht : s.threads t = .idle)
    (hf : s.begun+1 < 2^62) (h : Invariant c s) : Invariant c (beginStep s t request) := by
  cases request with
  | push val =>
    exact quiet_invariant c s t (.pushLoad val) _ (by rw [ht]; rfl) rfl trivial hf
      (by simp [ht, isActive]; omega) h
  | pop =>
    exact quiet_invariant c s t .popLoad _ (by rw [ht]; rfl) rfl trivial hf
      (by simp [ht, isActive]; omega) h

theorem goto_invariant (p : Place V) (hfrom : hand (s.threads t) = none) (hto : hand p = none)
    (hk : Known c s p) (ha : isActive (s.threads t) = true) (h : Invariant c s) :
    Invariant c (goto s t p) := by
  refine quiet_invariant c s t p s.begun hfrom hto hk h.few ?_ h
  rw [ha]
  cases isActive p <;> simp

theorem pushSeq_invariant (val : V) (pos : ℕ) (ht : s.threads t = .pushSeq val pos)
    (h : Invariant c s) : Invariant c (pushSeqStep c s t val pos) := by
  have hk := h.known t
  rw [ht] at hk
  have hpos : pos ≤ s.tickets.head := hk
  have hhead := (counters_small c s h).1
  have hdiff := pushDiff_eq _ pos (seq_small c s h _ (Nat.mod_lt pos (size_pos c))) (by omega)
  simp only [pushSeqStep, mask_eq]
  split_ifs with h0 hneg
  · have hturn := turn_of_seq c s h pos (by rw [hdiff] at h0; omega)
    exact goto_invariant c s t _ (by rw [ht]; rfl) rfl ⟨hpos,by omega⟩ (by rw [ht]; rfl) h
  · exact goto_invariant c s t _ (by rw [ht]; rfl) rfl trivial (by rw [ht]; rfl) h
  · exact goto_invariant c s t _ (by rw [ht]; rfl) rfl trivial (by rw [ht]; rfl) h

theorem popSeq_invariant (pos : ℕ) (ht : s.threads t = .popSeq pos) (h : Invariant c s) :
    Invariant c (popSeqStep c s t pos) := by
  have hk := h.known t
  rw [ht] at hk
  have hpos : pos ≤ s.tickets.tail := hk
  have htail := (counters_small c s h).2
  have hdiff := popDiff_eq _ pos (seq_small c s h _ (Nat.mod_lt pos (size_pos c))) (by omega)
  simp only [popSeqStep, mask_eq]
  split_ifs with h0 hneg
  · have hpub := published_of_seq c s h pos (by rw [hdiff] at h0; omega)
    exact goto_invariant c s t _ (by rw [ht]; rfl) rfl ⟨hpos,hpub⟩ (by rw [ht]; rfl) h
  · exact goto_invariant c s t _ (by rw [ht]; rfl) rfl trivial (by rw [ht]; rfl) h
  · exact goto_invariant c s t _ (by rw [ht]; rfl) rfl trivial (by rw [ht]; rfl) h

end Quiet

section Ticket
variable {V : Type} (c : Capacity) (s s' : State V) (t q : ℕ) (p : Place V) (st : Stage) (slot : Slot V)

structure Restaged : Prop where
  threads : s'.threads = Function.update s.threads t p
  slots : s'.slots = Function.update s.slots (q%c.size) slot
  stage : s'.tickets.stage = Function.update s.tickets.stage q st
  turns : s'.tickets.turn = s.tickets.turn
  returned : s'.returned = s.returned
  begun : s'.begun = s.begun
  sound : Sound c.size s'.tickets
  head : s'.head = s'.tickets.head
  tail : s'.tail = s'.tickets.tail
  length : s'.pushed.length = s'.tickets.head
  pushed : ∀ (q : ℕ) (x : V), s.pushed[q]? = some x → s'.pushed[q]? = some x
  heads : s.tickets.head ≤ s'.tickets.head
  tails : s.tickets.tail ≤ s'.tickets.tail
  turn : s.tickets.turn (q%c.size) = q
  unreleased : s.tickets.stage q ≠ .released ∧ st ≠ .released
  published : (s.tickets.stage q).isPublished = true → st.isPublished = true
  seq : slot.seq = if st.isPublished then q+1 else q
  data : st.isWritten = true → slot.data = s'.pushed[q]?
  source : hand (s.threads t) = none ∧ (s.tickets.stage q).inHand = false ∨
    ∃ st₀, hand (s.threads t) = some (q,st₀)
  target : hand p = some (q,st) ∨ hand p = none ∧ st.inHand = false
  known : Known c s' p
  count : s'.tickets.head+s'.tickets.tail+(isActive p).toNat ≤
    s.tickets.head+s.tickets.tail+(isActive (s.threads t)).toNat

theorem restaged_memory (hs : Restaged c s s' t q p st slot) (h : Invariant c s) : Memory c s' := by
  constructor
  case head => exact hs.head
  case tail => exact hs.tail
  case length => exact hs.length
  case seq =>
    intro i hi
    simp only [hs.slots, hs.stage, hs.turns, Function.update_apply]
    by_cases he : i = q%c.size
    · subst he
      rw [if_pos rfl, hs.turn, if_pos rfl]
      exact hs.seq
    · have hne : s.tickets.turn i ≠ q := fun ht => he (by rw [← h.sound.place i hi, ht])
      rw [if_neg he, if_neg hne]
      exact h.memory.seq i hi
  case data =>
    intro i hi hw
    simp only [hs.slots, hs.stage, hs.turns, Function.update_apply] at hw ⊢
    by_cases he : i = q%c.size
    · subst he
      rw [hs.turn, if_pos rfl] at hw
      rw [if_pos rfl, hs.turn]
      exact hs.data hw
    · have hne : s.tickets.turn i ≠ q := fun ht => he (by rw [← h.sound.place i hi, ht])
      rw [if_neg hne] at hw
      rw [if_neg he, h.memory.data i hi hw]
      have hlt : s.tickets.turn i < s.pushed.length := by
        rw [h.memory.length]
        by_contra hc
        rw [(h.sound.untaken _).mpr (by omega)] at hw
        exact absurd hw (by decide)
      have hget := List.getElem?_eq_getElem hlt
      rw [hget, hs.pushed _ _ hget]

theorem restaged_later (hs : Restaged c s s' t q p st slot) : Later s s' where
  head := hs.heads
  tail := hs.tails
  turn i := by rw [hs.turns]
  published r hr := by
    rw [hs.stage, Function.update_apply]
    split_ifs with he
    · exact hs.published (he ▸ hr)
    · exact hr
  pushed := hs.pushed

theorem restaged_invariant (hs : Restaged c s s' t q p st slot) (h : Invariant c s) :
    Invariant c s' where
  sound := hs.sound
  memory := restaged_memory c s s' t q p st slot hs h
  hands := hands_restage s s' t p q st hs.threads hs.stage hs.source hs.target h.hands
  known := known_move s s' t p c hs.threads (restaged_later c s s' t q p st slot hs) hs.known h.known
  returns := by
    refine returns_keep s s' hs.returned (fun r => ?_) hs.pushed h.returns
    rw [hs.stage, Function.update_apply]
    split_ifs with he
    · subst he
      exact ⟨fun hf => absurd hf hs.unreleased.2,fun hf => absurd hf hs.unreleased.1⟩
    · exact Iff.rfl
  budget := by
    have hc := hs.count
    have hb := hs.begun
    exact budget_move s s' t p hs.threads (by omega) h.budget
  few := by rw [hs.begun]; exact h.few

structure Held (q : ℕ) (st : Stage) : Prop where
  stage : s.tickets.stage q = st
  turn : s.tickets.turn (q%c.size) = q
  below : q < s.tickets.head
  seq : (s.slots (q%c.size)).seq = if st.isPublished then q+1 else q
  data : st.isWritten = true → (s.slots (q%c.size)).data = s.pushed[q]?

theorem held_of_hand (h : Invariant c s) (hq : hand (s.threads t) = some (q,st)) :
    Held c s q st := by
  have hst := h.hands.owns t q st hq
  have hin := hand_inHand _ _ _ hq
  have hu : st ≠ .untaken := fun he => by rw [he] at hin; exact absurd hin (by decide)
  have hr : st ≠ .released := fun he => by rw [he] at hin; exact absurd hin (by decide)
  have hturn := turn_of_busy c.size s.tickets h.sound q (by rwa [hst]) (by rwa [hst])
  have hi := Nat.mod_lt q (size_pos c)
  have hseq := h.memory.seq _ hi
  have hdata := h.memory.data _ hi
  rw [hturn, hst] at hseq hdata
  refine ⟨hst,hturn,?_,hseq,hdata⟩
  by_contra hc
  exact hu (hst.symm.trans ((h.sound.untaken q).mpr (by omega)))

theorem advanced_invariant (st₀ : Stage) (hq : hand (s.threads t) = some (q,st₀))
    (hto : hand p = some (q,st) ∨ hand p = none ∧ st.inHand = false) (hp : isActive p = false)
    (hu : st ≠ .untaken) (hr : st ≠ .released) (hc : st.isClaimed = st₀.isClaimed)
    (hpub : st₀.isPublished = true → st.isPublished = true)
    (hseq : slot.seq = if st.isPublished then q+1 else q)
    (hdata : st.isWritten = true → slot.data = s.pushed[q]?)
    (hknown : Known c s p) (h : Invariant c s) :
    Invariant c (goto { setSlot s (q%c.size) slot with tickets := s.tickets.advance q st } t p) := by
  have hin := hand_inHand _ _ _ hq
  obtain ⟨hst,hturn,-,-,-⟩ := held_of_hand c s t q st₀ h hq
  subst hst
  have hbusy : s.tickets.stage q ≠ .untaken ∧ s.tickets.stage q ≠ .released :=
    ⟨fun he => by rw [he] at hin; exact absurd hin (by decide),
      fun he => by rw [he] at hin; exact absurd hin (by decide)⟩
  refine restaged_invariant c s _ t q p st slot ?_ h
  have hlater : Later s (goto { setSlot s (q%c.size) slot with
      tickets := s.tickets.advance q st } t p) := by
    refine ⟨le_refl _,le_refl _,fun _ => le_refl _,fun r hr => ?_,fun _ _ hx => hx⟩
    simp only [goto, Tickets.advance, Function.update_apply]
    split_ifs with he
    · exact hpub (he ▸ hr)
    · exact hr
  exact
    { threads := rfl
      slots := rfl
      stage := rfl
      turns := rfl
      returned := rfl
      begun := rfl
      sound := advance_sound c.size s.tickets h.sound q st hbusy.1 hbusy.2 hu hr hc
      head := h.memory.head
      tail := h.memory.tail
      length := h.memory.length
      pushed := hlater.pushed
      heads := le_refl _
      tails := le_refl _
      turn := hturn
      unreleased := ⟨hbusy.2,hr⟩
      published := hpub
      seq := hseq
      data := hdata
      source := Or.inr ⟨_,hq⟩
      target := hto
      known := known_later c s _ p hlater hknown
      count := by simp [goto, setSlot, Tickets.advance, hp] }

end Ticket

section Push
variable {V : Type} (c : Capacity) (s : State V) (t : ℕ) (val : V) (pos : ℕ)

theorem pushSwap_invariant (spurious : Bool) (ht : s.threads t = .pushSwap val pos)
    (h : Invariant c s) : Invariant c (pushSwapStep s t val pos spurious) := by
  have hk := h.known t
  rw [ht] at hk
  obtain ⟨-,hle⟩ := hk
  have hhead := (counters_small c s h).1
  unfold pushSwapStep
  split_ifs with hcas
  · have heq : s.tickets.head = pos := h.memory.head.symm.trans hcas.1
    have hu : s.tickets.stage pos = .untaken := (h.sound.untaken pos).mpr (by omega)
    have hturn : s.tickets.turn (pos%c.size) = pos := by
      rcases eq_or_lt_of_le hle with he | hlt
      · exact he.symm
      · rw [h.sound.earlier pos hlt] at hu
        exact absurd hu (by simp)
    have hi := Nat.mod_lt pos (size_pos c)
    have hseq := h.memory.seq _ hi
    rw [hturn, hu] at hseq
    have hlen := h.memory.length
    refine restaged_invariant c s _ t pos (.pushCopy val pos) .taken (s.slots (pos%c.size)) ?_ h
    exact
      { threads := rfl
        slots := (Function.update_eq_self _ _).symm
        stage := by simp [goto, Tickets.take, heq]
        turns := rfl
        returned := rfl
        begun := rfl
        sound := take_sound c.size s.tickets h.sound (by rw [heq]; exact hturn)
        head := by simp only [goto, Tickets.take]; omega
        tail := h.memory.tail
        length := by simp [goto, Tickets.take, hlen]
        pushed := fun r x hx =>
          (List.getElem?_append_left (List.getElem?_eq_some_iff.mp hx).1).trans hx
        heads := Nat.le_succ _
        tails := le_refl _
        turn := hturn
        unreleased := ⟨by simp [hu],by simp⟩
        published := fun hp => absurd hp (by rw [hu]; decide)
        seq := hseq
        data := fun hw => absurd hw (by decide)
        source := Or.inl ⟨by rw [ht]; rfl,by rw [hu]; rfl⟩
        target := Or.inl rfl
        known := by simp [Known, goto, ← heq, ← hlen]
        count := by simp [goto, Tickets.take, ht, isActive]; omega }
  · exact goto_invariant c s t _ (by rw [ht]; rfl) rfl (le_of_eq h.memory.head) (by rw [ht]; rfl) h

theorem pushCopy_invariant (ht : s.threads t = .pushCopy val pos) (h : Invariant c s) :
    Invariant c (pushCopyStep c s t val pos) := by
  have hk := h.known t
  rw [ht] at hk
  have hq : hand (s.threads t) = some (pos,.taken) := by rw [ht]; rfl
  have hheld := held_of_hand c s t pos .taken h hq
  rw [pushCopyStep, mask_eq]
  exact advanced_invariant c s t pos (.pushStore pos) .written _ .taken hq (Or.inl rfl) rfl
    (by simp) (by simp) rfl (fun hf => absurd hf (by decide)) hheld.seq (fun _ => hk.symm) trivial h

theorem pushStore_invariant (ht : s.threads t = .pushStore pos) (h : Invariant c s) :
    Invariant c (pushStoreStep c s t pos) := by
  have hhead := (counters_small c s h).1
  have hq : hand (s.threads t) = some (pos,.written) := by rw [ht]; rfl
  have hheld := held_of_hand c s t pos .written h hq
  have hlt := hheld.below
  rw [pushStoreStep, mask_eq]
  exact advanced_invariant c s t pos .idle .published _ .written hq (Or.inr ⟨rfl,rfl⟩) rfl
    (by simp) (by simp) rfl (fun _ => rfl) (Nat.mod_eq_of_lt (by omega)) hheld.data trivial h

end Push

section Pop
variable {V : Type} (c : Capacity) (s : State V) (t pos : ℕ)

theorem popSwap_invariant (spurious : Bool) (ht : s.threads t = .popSwap pos) (h : Invariant c s) :
    Invariant c (popSwapStep s t pos spurious) := by
  have hk := h.known t
  rw [ht] at hk
  obtain ⟨-,hpub⟩ := hk
  have htail := (counters_small c s h).2
  unfold popSwapStep
  split_ifs with hcas
  · have heq : s.tickets.tail = pos := h.memory.tail.symm.trans hcas.1
    have hst : s.tickets.stage pos = .published := by
      have hnc : ¬(s.tickets.stage pos).isClaimed = true := fun hf =>
        absurd ((h.sound.claimed pos).mp hf) (by omega)
      revert hpub hnc
      cases s.tickets.stage pos <;> simp [Stage.isPublished, Stage.isClaimed]
    have hturn := turn_of_busy c.size s.tickets h.sound pos (by simp [hst]) (by simp [hst])
    have hi := Nat.mod_lt pos (size_pos c)
    have hseq := h.memory.seq _ hi
    have hdata := h.memory.data _ hi (by rw [hturn, hst]; rfl)
    rw [hturn, hst] at hseq
    rw [hturn] at hdata
    refine restaged_invariant c s _ t pos (.popCopy pos) .claimed (s.slots (pos%c.size)) ?_ h
    exact
      { threads := rfl
        slots := (Function.update_eq_self _ _).symm
        stage := by simp [goto, Tickets.claim, heq]
        turns := rfl
        returned := rfl
        begun := rfl
        sound := claim_sound c.size s.tickets h.sound (by rw [heq]; exact hst)
        head := h.memory.head
        tail := by simp only [goto, Tickets.claim]; omega
        length := h.memory.length
        pushed := fun _ _ hx => hx
        heads := le_refl _
        tails := Nat.le_succ _
        turn := hturn
        unreleased := ⟨by simp [hst],by simp⟩
        published := fun _ => rfl
        seq := hseq
        data := fun _ => hdata
        source := Or.inl ⟨by rw [ht]; rfl,by rw [hst]; rfl⟩
        target := Or.inl rfl
        known := trivial
        count := by simp [goto, Tickets.claim, ht, isActive]; omega }
  · exact goto_invariant c s t _ (by rw [ht]; rfl) rfl (le_of_eq h.memory.tail) (by rw [ht]; rfl) h

theorem popCopy_invariant (ht : s.threads t = .popCopy pos) (h : Invariant c s) :
    Invariant c (popCopyStep c s t pos) := by
  have hq : hand (s.threads t) = some (pos,.claimed) := by rw [ht]; rfl
  have hheld := held_of_hand c s t pos .claimed h hq
  have hdata := hheld.data rfl
  have hlt : pos < s.pushed.length := by
    rw [h.memory.length]
    exact hheld.below
  have hself : setSlot s (pos%c.size) (s.slots (pos%c.size)) = s := by
    simp [setSlot]
  have hadv := advanced_invariant c s t pos (.popStore pos (s.slots (pos%c.size)).data) .copied
    (s.slots (pos%c.size)) .claimed hq (Or.inl rfl) rfl (by simp) (by simp) rfl (fun _ => rfl)
    hheld.seq hheld.data ⟨by rw [hdata]; simpa using hlt,hdata.symm⟩ h
  rw [hself] at hadv
  rw [popCopyStep, mask_eq]
  exact hadv

theorem popStore_memory (val : Option V) (hheld : Held c s pos .copied) (h : Invariant c s) :
    Memory c (popStoreStep c s t pos val) := by
  have hhead := (counters_small c s h).1
  have hlt := hheld.below
  have hsize := size_bounds c
  have hround : pos+c.size ≠ pos := by omega
  have hnext : s.tickets.stage (pos+c.size) = .untaken := by
    apply h.sound.later
    rw [Nat.add_mod_right, hheld.turn]
    omega
  constructor
  case head => exact h.memory.head
  case tail => exact h.memory.tail
  case length => exact h.memory.length
  case seq =>
    intro i hi
    simp only [popStoreStep, goto, setSlot, Tickets.release, mask_eq, Function.update_apply]
    by_cases he : i = pos%c.size
    · rw [if_pos he, if_pos he, if_neg hround, hnext]
      exact Nat.mod_eq_of_lt (by omega)
    · have hne : s.tickets.turn i ≠ pos := fun ht => he (by rw [← h.sound.place i hi, ht])
      rw [if_neg he, if_neg he, if_neg hne]
      exact h.memory.seq i hi
  case data =>
    intro i hi hw
    simp only [popStoreStep, goto, setSlot, Tickets.release, mask_eq, Function.update_apply] at hw ⊢
    by_cases he : i = pos%c.size
    · rw [if_pos he, if_neg hround, hnext] at hw
      exact absurd hw (by decide)
    · have hne : s.tickets.turn i ≠ pos := fun ht => he (by rw [← h.sound.place i hi, ht])
      rw [if_neg he, if_neg hne] at hw
      rw [if_neg he, if_neg he]
      exact h.memory.data i hi hw

theorem popStore_returns (val : Option V) (hheld : Held c s pos .copied) (hsome : val.isSome = true)
    (hval : s.pushed[pos]? = val) (h : Invariant c s) : Returns (popStoreStep c s t pos val) := by
  have hnew : ∀ v, (pos,v) ∉ s.returned := by
    intro v hv
    have hr := (h.returns.sound _ hv).1
    rw [hheld.stage] at hr
    exact absurd hr (by simp)
  constructor
  case sound =>
    intro x hx
    simp only [popStoreStep, goto, setSlot, Tickets.release, Function.update_apply] at hx ⊢
    rcases List.mem_append.mp hx with hx | hx
    · obtain ⟨h1,h2,h3⟩ := h.returns.sound x hx
      have hne : x.1 ≠ pos := fun he => hnew x.2 (he ▸ hx)
      rw [if_neg hne]
      exact ⟨h1,h2,h3⟩
    · rw [List.mem_singleton.mp hx]
      exact ⟨if_pos rfl,hsome,hval⟩
  case complete =>
    intro q hq
    simp only [popStoreStep, goto, setSlot, Tickets.release, Function.update_apply] at hq ⊢
    by_cases he : q = pos
    · exact ⟨val,by simp [he]⟩
    · rw [if_neg he] at hq
      obtain ⟨v,hv⟩ := h.returns.complete q hq
      exact ⟨v,by simp [hv]⟩
  case distinct =>
    simp only [popStoreStep, goto]
    rw [List.map_append, List.nodup_append]
    refine ⟨h.returns.distinct,by simp,?_⟩
    intro a ha b hb
    obtain ⟨x,hx,rfl⟩ := List.mem_map.mp ha
    obtain rfl : b = pos := by simpa using hb
    exact fun he => hnew x.2 (he ▸ hx)

/-- The last store of a pop hands the slot to the ticket one round later. -/
theorem popStore_invariant (val : Option V) (ht : s.threads t = .popStore pos val)
    (h : Invariant c s) : Invariant c (popStoreStep c s t pos val) := by
  have hk := h.known t
  rw [ht] at hk
  have hq : hand (s.threads t) = some (pos,.copied) := by rw [ht]; rfl
  have hheld := held_of_hand c s t pos .copied h hq
  have hlater : Later s (popStoreStep c s t pos val) := by
    refine ⟨le_refl _,le_refl _,fun i => ?_,fun r hr => ?_,fun _ _ hx => hx⟩
    all_goals simp only [popStoreStep, goto, Tickets.release, Function.update_apply]
    · split_ifs with he
      · rw [he, hheld.turn]
        omega
      · exact le_refl _
    · split_ifs
      · rfl
      · exact hr
  exact
    { sound := release_sound c.size s.tickets h.sound (size_pos c) pos hheld.stage
      memory := popStore_memory c s t pos val hheld h
      hands := hands_restage s _ t .idle pos .released rfl rfl (Or.inr ⟨_,hq⟩) (Or.inr ⟨rfl,rfl⟩) h.hands
      known := known_move s _ t .idle c rfl hlater trivial h.known
      returns := popStore_returns c s t pos val hheld hk.1 hk.2 h
      budget := budget_move s _ t .idle rfl
        (by simp [popStoreStep, goto, setSlot, Tickets.release, isActive]) h.budget
      few := h.few }

end Pop

section Runs
variable {V : Type} (c : Capacity)

theorem step_invariant (s : State V) (a : Action V) (hf : FewOperations c s a)
    (h : Invariant c s) : Invariant c (step c s a) := by
  unfold FewOperations at hf
  unfold step at hf ⊢
  cases ht : s.threads a.thread with
  | idle =>
    simp only [ht] at hf
    exact begin_invariant c s a.thread a.request ht hf h
  | pushLoad val =>
    exact goto_invariant c s a.thread _ (by rw [ht]; rfl) rfl (le_of_eq h.memory.head) (by rw [ht]; rfl) h
  | pushSeq val pos => exact pushSeq_invariant c s a.thread val pos ht h
  | pushSwap val pos => exact pushSwap_invariant c s a.thread val pos a.spurious ht h
  | pushCopy val pos => exact pushCopy_invariant c s a.thread val pos ht h
  | pushStore pos => exact pushStore_invariant c s a.thread pos ht h
  | popLoad =>
    exact goto_invariant c s a.thread _ (by rw [ht]; rfl) rfl (le_of_eq h.memory.tail) (by rw [ht]; rfl) h
  | popSeq pos => exact popSeq_invariant c s a.thread pos ht h
  | popSwap pos => exact popSwap_invariant c s a.thread pos a.spurious ht h
  | popCopy pos => exact popCopy_invariant c s a.thread pos ht h
  | popStore pos val => exact popStore_invariant c s a.thread pos val ht h

theorem run_invariant (actions : List (Action V))
    (hok : Schedule.Allowed (step c) (FewOperations c) actions (initial V)) :
    Invariant c (Schedule.run (step c) actions (initial V)) :=
  Schedule.invariant (step c) (FewOperations c) (Invariant c) (step_invariant c) actions _ hok
    (initial_invariant c)

end Runs

end Chronos.MpmcQueue
