import Chronos.MpmcQueueSafety

/-!
# Reading the size of the bounded queue

`size()` loads the head, later the tail, and subtracts; `empty()` compares the
result with zero. Any number of readers do this while the other threads push
and pop, one access at a time. A reader that stands between its two loads is
overtaken when a pop draws the ticket of the head it holds: then it subtracts
the larger counter from the smaller one.

The flag of a reader and of a result records whether head and tail were equal
at some moment since the call began. No step of the queue reads it.
-/

set_option autoImplicit false

namespace Chronos.QueueSize
open MpmcQueue (Capacity FewOperations pair)

/-- A reader is outside, in its call, or between its loads with the head it got. -/
inductive Reader where
  | idle
  | begun (met : Bool)
  | loaded (head : ℕ) (met : Bool)
  deriving DecidableEq

structure State (V : Type) where
  queue : MpmcQueue.State V
  readers : ℕ → Reader := fun _ => .idle
  returned : List (ℕ × Bool) := []

inductive Action (V : Type) where
  | access (a : MpmcQueue.Action V)
  | read (reader : ℕ)

def initial (V : Type) : State V where
  queue := MpmcQueue.initial V

section Steps
variable {V : Type} (c : Capacity)

def equal (q : MpmcQueue.State V) : Bool := q.head = q.tail

def meet (q : MpmcQueue.State V) : Reader → Reader
  | .idle => .idle
  | .begun met => .begun (met || equal q)
  | .loaded h met => .loaded h (met || equal q)

def difference (h t : ℕ) : ℕ := (h+2^64-t)%2^64

def readStep (s : State V) (r : ℕ) : State V :=
  match s.readers r with
  | .idle => { s with readers := Function.update s.readers r (.begun (equal s.queue)) }
  | .begun met => { s with readers := Function.update s.readers r (.loaded s.queue.head met) }
  | .loaded h met => { s with
      readers := Function.update s.readers r .idle
      returned := s.returned++[(difference h s.queue.tail,met)] }

def step (s : State V) : Action V → State V
  | .access a =>
    let q := MpmcQueue.step c s.queue a
    { s with queue := q, readers := fun r => meet q (s.readers r) }
  | .read r => readStep s r

def Few (s : State V) : Action V → Prop
  | .access a => FewOperations c s.queue a
  | .read _ => True

/-- A result of `size()` that some state has, and of `empty()` that a moment of the call has. -/
def Possible (result : ℕ × Bool) : Prop := result.1 ≤ c.size ∧ (result.1 = 0 → result.2 = true)

def exchanges (q : MpmcQueue.State V) (a : MpmcQueue.Action V) : Bool :=
  match q.threads a.thread with
  | .popSwap pos => q.tail = pos && !a.spurious
  | _ => false

/-- The next ticket of a pop lies before the head a reader holds; it is the
last one before it only while that is still the head or the call has seen the
queue empty. -/
def Clear (q : MpmcQueue.State V) : Reader → Prop
  | .loaded h met => q.tail+1 ≤ h ∧ (q.tail+1 = h → q.head = h ∨ met = true)
  | _ => True

def Unovertaken (s : State V) : Action V → Prop
  | .access a => exchanges s.queue a = true → ∀ r, Clear s.queue (s.readers r)
  | .read _ => True

end Steps

section Counters
variable {V : Type} (c : Capacity) (q : MpmcQueue.State V) (a : MpmcQueue.Action V)
open MpmcQueue

theorem step_counters :
    (MpmcQueue.step c q a).tail = (if exchanges q a then (q.tail+1)%2^64 else q.tail) ∧
      ((MpmcQueue.step c q a).head = q.head ∨
        exchanges q a = false ∧ (MpmcQueue.step c q a).head = (q.head+1)%2^64) := by
  have hstill (hno : exchanges q a = false) (htail : (MpmcQueue.step c q a).tail = q.tail)
      (hhead : (MpmcQueue.step c q a).head = q.head) :
      (MpmcQueue.step c q a).tail = (if exchanges q a then (q.tail+1)%2^64 else q.tail) ∧
        ((MpmcQueue.step c q a).head = q.head ∨
          exchanges q a = false ∧ (MpmcQueue.step c q a).head = (q.head+1)%2^64) := by
    rw [hno]
    exact ⟨htail,Or.inl hhead⟩
  cases ht : q.threads a.thread with
  | popSwap pos =>
    by_cases hcas : q.tail = pos ∧ a.spurious = false
    · have hyes : exchanges q a = true := by simp [exchanges, ht, hcas]
      have hstep : MpmcQueue.step c q a = popSwapStep q a.thread pos a.spurious := by
        rw [MpmcQueue.step, ht]
      rw [hyes, hstep, popSwapStep, if_pos hcas, hcas.1]
      exact ⟨rfl,Or.inl rfl⟩
    · have hstep : MpmcQueue.step c q a = goto q a.thread (.popSeq q.tail) := by
        rw [MpmcQueue.step, ht]
        exact if_neg hcas
      exact hstill (by simpa [exchanges, ht] using hcas) (by rw [hstep]; rfl) (by rw [hstep]; rfl)
  | pushSwap val pos =>
    have hno : exchanges q a = false := by rw [exchanges, ht]
    by_cases hcas : q.head = pos ∧ a.spurious = false
    · have hstep : MpmcQueue.step c q a = pushSwapStep q a.thread val pos a.spurious := by
        rw [MpmcQueue.step, ht]
      rw [hno, hstep, pushSwapStep, if_pos hcas, hcas.1]
      exact ⟨rfl,Or.inr ⟨rfl,rfl⟩⟩
    · have hstep : MpmcQueue.step c q a = goto q a.thread (.pushSeq val q.head) := by
        rw [MpmcQueue.step, ht]
        exact if_neg hcas
      exact hstill hno (by rw [hstep]; rfl) (by rw [hstep]; rfl)
  | pushSeq val pos =>
    have hstep : ∃ p, MpmcQueue.step c q a = goto q a.thread p := by
      rw [MpmcQueue.step, ht]
      simp only [pushSeqStep]
      split_ifs <;> exact ⟨_,rfl⟩
    obtain ⟨p,hstep⟩ := hstep
    exact hstill (by rw [exchanges, ht]) (by rw [hstep]; rfl) (by rw [hstep]; rfl)
  | popSeq pos =>
    have hstep : ∃ p, MpmcQueue.step c q a = goto q a.thread p := by
      rw [MpmcQueue.step, ht]
      simp only [popSeqStep]
      split_ifs <;> exact ⟨_,rfl⟩
    obtain ⟨p,hstep⟩ := hstep
    exact hstill (by rw [exchanges, ht]) (by rw [hstep]; rfl) (by rw [hstep]; rfl)
  -- the other steps touch neither counter
  | _ =>
    exact hstill (by rw [exchanges, ht]) (by rw [MpmcQueue.step, ht]; rfl)
      (by rw [MpmcQueue.step, ht]; rfl)

structure Moves (q q' : MpmcQueue.State V) (popped : Bool) : Prop where
  tail : q'.tail = if popped then q.tail+1 else q.tail
  head : q.head ≤ q'.head
  still : popped = true → q'.head = q.head
  small : q.head < 2^62 ∧ q.tail < 2^62

theorem step_moves (h : Invariant c q) : Moves q (MpmcQueue.step c q a) (exchanges q a) := by
  have hsmall := counters_small c q h
  rw [← h.memory.head, ← h.memory.tail] at hsmall
  obtain ⟨htail,hhead⟩ := step_counters c q a
  rw [Nat.mod_eq_of_lt (by omega)] at htail hhead
  constructor
  case tail => exact htail
  case head => omega
  case still =>
    intro hpop
    rcases hhead with hhead | ⟨hno,-⟩
    · exact hhead
    · rw [hpop] at hno
      cases hno
  case small => exact hsmall

end Counters

section Readers
variable {V : Type} (c : Capacity)

def Standing (q : MpmcQueue.State V) : Reader → Prop
  | .idle => True
  | .begun met => q.head = q.tail → met = true
  | .loaded h met => q.tail ≤ h ∧ h ≤ q.head ∧ h ≤ q.tail+c.size ∧ (q.tail = h → met = true)

structure Inv (s : State V) : Prop where
  queue : MpmcQueue.Invariant c s.queue
  standing : ∀ r, Standing c s.queue (s.readers r)
  possible : ∀ result ∈ s.returned, Possible c result

theorem difference_eq (h t : ℕ) (hle : t ≤ h) (hh : h < 2^62) : difference h t = h-t := by
  unfold difference
  omega

theorem initial_inv : Inv c (initial V) where
  queue := MpmcQueue.initial_invariant c
  standing _ := trivial
  possible _ h := absurd h List.not_mem_nil

theorem access_standing (q : MpmcQueue.State V) (a : MpmcQueue.Action V) (reader : Reader)
    (hq : MpmcQueue.Invariant c q) (hok : exchanges q a = true → Clear q reader)
    (hr : Standing c q reader) :
    Standing c (MpmcQueue.step c q a) (meet (MpmcQueue.step c q a) reader) := by
  obtain ⟨htail,hhead,hstill,-⟩ := step_moves c q a hq
  cases reader with
  | idle => trivial
  | begun met =>
    intro heq
    simp [equal, heq]
  | loaded h met =>
    obtain ⟨hle,hfrom,hroom,hmet⟩ := hr
    by_cases hpop : exchanges q a = true
    · obtain ⟨hpast,hlast⟩ := hok hpop
      rw [if_pos hpop] at htail
      have hsame := hstill hpop
      refine ⟨by omega,by omega,by omega,fun heq => ?_⟩
      rcases hlast (by omega) with hnow | hmet
      · -- the queue is empty at this very step
        have hequal : equal (MpmcQueue.step c q a) = true := decide_eq_true (by omega)
        rw [hequal, Bool.or_true]
      · rw [hmet, Bool.true_or]
    · rw [if_neg hpop] at htail
      refine ⟨by omega,by omega,by omega,fun heq => ?_⟩
      rw [hmet (by omega), Bool.true_or]

theorem update_standing (q : MpmcQueue.State V) (readers : ℕ → Reader) (r : ℕ) (reader : Reader)
    (hr : Standing c q reader) (h : ∀ u, Standing c q (readers u)) (u : ℕ) :
    Standing c q (Function.update readers r reader u) := by
  rw [Function.update_apply]
  split_ifs
  · exact hr
  · exact h u

theorem read_inv (s : State V) (r : ℕ) (h : Inv c s) : Inv c (readStep s r) := by
  have hordered := (MpmcQueue.invariant_safe c s.queue h.queue).ordered
  have hsmall := (step_moves c s.queue ⟨0,.pop,false⟩ h.queue).small
  have hr := h.standing r
  unfold readStep
  cases hplace : s.readers r with
  | idle =>
    exact ⟨h.queue,update_standing c _ _ r _ (fun heq => decide_eq_true heq) h.standing,h.possible⟩
  | begun met =>
    rw [hplace] at hr
    have hloaded : Standing c s.queue (.loaded s.queue.head met) :=
      ⟨hordered.1,le_refl _,hordered.2,fun heq => hr heq.symm⟩
    exact ⟨h.queue,update_standing c _ _ r _ hloaded h.standing,h.possible⟩
  | loaded head met =>
    rw [hplace] at hr
    obtain ⟨hle,hfrom,hroom,hmet⟩ := hr
    have hsize := difference_eq head s.queue.tail hle (by omega)
    refine ⟨h.queue,update_standing c _ _ r .idle trivial h.standing,fun result hresult => ?_⟩
    rcases List.mem_append.mp hresult with hold | hnew
    · exact h.possible result hold
    · rw [List.mem_singleton.mp hnew, hsize]
      exact ⟨by simp only; omega,fun hzero => hmet (by simp only at hzero; omega)⟩

theorem step_inv (s : State V) (a : Action V) (hok : Few c s a ∧ Unovertaken s a) (h : Inv c s) :
    Inv c (step c s a) := by
  cases a with
  | access a =>
    refine ⟨MpmcQueue.step_invariant c s.queue a hok.1 h.queue,fun r => ?_,h.possible⟩
    exact access_standing c s.queue a (s.readers r) h.queue (fun hpop => hok.2 hpop r) (h.standing r)
  | read r => exact read_inv c s r h

end Readers

section Overtaken
variable {V : Type} (c : Capacity)

def Doomed (q : MpmcQueue.State V) : Reader → Prop
  | .loaded h met => h < q.tail ∨ h = q.tail ∧ h < q.head ∧ met = false
  | _ => False

def Wrong (s : State V) : Prop :=
  (∃ result ∈ s.returned, ¬Possible c result) ∨ ∃ r, Doomed s.queue (s.readers r)

theorem not_equal (q : MpmcQueue.State V) (h : q.tail < q.head) : equal q = false :=
  decide_eq_false (by omega)

theorem access_doomed (q : MpmcQueue.State V) (a : MpmcQueue.Action V) (reader : Reader)
    (hq : MpmcQueue.Invariant c q) (hd : Doomed q reader) :
    Doomed (MpmcQueue.step c q a) (meet (MpmcQueue.step c q a) reader) := by
  obtain ⟨htail,hhead,hstill,-⟩ := step_moves c q a hq
  cases reader with
  | idle => exact hd.elim
  | begun met => exact hd.elim
  | loaded h met =>
    by_cases hpop : exchanges q a = true
    · rw [if_pos hpop] at htail
      rcases hd with hlt | ⟨heq,-,-⟩
      · exact Or.inl (by omega)
      · exact Or.inl (by omega)
    · rw [if_neg hpop] at htail
      rcases hd with hlt | ⟨heq,hlt,hmet⟩
      · exact Or.inl (by omega)
      · refine Or.inr ⟨by omega,by omega,?_⟩
        rw [hmet, not_equal _ (by omega), Bool.false_or]

/-- The step that overtakes a reader seals its result. -/
theorem overtaken_doomed (q : MpmcQueue.State V) (a : MpmcQueue.Action V) (reader : Reader)
    (hq : MpmcQueue.Invariant c q) (hs : Standing c q reader) (hpop : exchanges q a = true)
    (hnot : ¬Clear q reader) :
    Doomed (MpmcQueue.step c q a) (meet (MpmcQueue.step c q a) reader) := by
  obtain ⟨htail,-,hstill,-⟩ := step_moves c q a hq
  have hsame := hstill hpop
  rw [if_pos hpop] at htail
  cases reader with
  | idle => exact absurd trivial hnot
  | begun met => exact absurd trivial hnot
  | loaded h met =>
    by_cases hlt : h < q.tail+1
    · exact Or.inl (by omega)
    · have hlast : q.tail+1 = h ∧ ¬(q.head = h ∨ met = true) := by
        refine ⟨?_,fun hor => hnot ⟨by omega,fun _ => hor⟩⟩
        by_contra hne
        exact hnot ⟨by omega,fun heq => absurd heq hne⟩
      obtain ⟨heq,hno⟩ := hlast
      have hfrom : h ≤ q.head := hs.2.1
      have hne : q.head ≠ h := fun he => hno (Or.inl he)
      refine Or.inr ⟨by omega,by omega,?_⟩
      rw [Bool.eq_false_of_not_eq_true (fun hm => hno (Or.inr hm)), not_equal _ (by omega),
        Bool.false_or]

theorem doomed_impossible (q : MpmcQueue.State V) (h : ℕ) (met : Bool)
    (hq : MpmcQueue.Invariant c q) (hd : Doomed q (.loaded h met)) :
    ¬Possible c (difference h q.tail,met) := by
  have hsmall := (step_moves c q ⟨0,.pop,false⟩ hq).small
  have hsize := (MpmcQueue.size_bounds c).2
  rintro ⟨hle,hzero⟩
  rcases hd with hlt | ⟨heq,-,hmet⟩
  · unfold difference at hle
    simp only at hle
    omega
  · have hnone : difference h q.tail = 0 := by
      unfold difference
      omega
    rw [hmet] at hzero
    exact absurd (hzero hnone) (by simp)

theorem step_wrong (s : State V) (a : Action V) (hq : MpmcQueue.Invariant c s.queue)
    (hw : Wrong c s) : Wrong c (step c s a) := by
  cases a with
  | access a =>
    rcases hw with hresult | ⟨r,hd⟩
    · exact Or.inl hresult
    · exact Or.inr ⟨r,access_doomed c s.queue a (s.readers r) hq hd⟩
  | read u =>
    rcases hw with ⟨result,hmem,hbad⟩ | ⟨r,hd⟩
    · refine Or.inl ⟨result,?_,hbad⟩
      simp only [step, readStep]
      split
      · exact hmem
      · exact hmem
      · exact List.mem_append_left _ hmem
    · simp only [step, readStep]
      by_cases hru : r = u
      · subst hru
        cases hplace : s.readers r with
        | idle =>
          rw [hplace] at hd
          exact hd.elim
        | begun met =>
          rw [hplace] at hd
          exact hd.elim
        | loaded h met =>
          rw [hplace] at hd
          exact Or.inl ⟨_,List.mem_append_right _ List.mem_cons_self,doomed_impossible c s.queue h met hq hd⟩
      · refine Or.inr ⟨r,?_⟩
        split
        · simpa only [Function.update_of_ne hru] using hd
        · simpa only [Function.update_of_ne hru] using hd
        · simpa only [Function.update_of_ne hru] using hd

theorem step_queue (s : State V) (a : Action V) (hf : Few c s a) (hq : MpmcQueue.Invariant c s.queue) :
    MpmcQueue.Invariant c (step c s a).queue := by
  cases a with
  | access a => exact MpmcQueue.step_invariant c s.queue a hf hq
  | read r =>
    simp only [step, readStep]
    split <;> exact hq

theorem overtaken_wrong (s : State V) (a : Action V) (h : Inv c s) (hnot : ¬Unovertaken s a) :
    Wrong c (step c s a) := by
  cases a with
  | access a =>
    simp only [Unovertaken, not_forall] at hnot
    obtain ⟨hpop,r,hbad⟩ := hnot
    exact Or.inr ⟨r,overtaken_doomed c s.queue a (s.readers r) h.queue (h.standing r) hpop hbad⟩
  | read r => exact absurd trivial hnot

/-- Where no reader is left in a call, only possible results were returned
exactly when no reader was overtaken. -/
theorem possible_unovertaken (actions : List (Action V)) (s : State V) (h : Inv c s)
    (hfew : Schedule.Allowed (step c) (Few c) actions s)
    (hidle : ∀ r, (Schedule.run (step c) actions s).readers r = .idle)
    (hall : ∀ result ∈ (Schedule.run (step c) actions s).returned, Possible c result) :
    Schedule.Allowed (step c) Unovertaken actions s := by
  induction actions generalizing s with
  | nil => trivial
  | cons a actions ih =>
    by_cases hok : Unovertaken s a
    · exact ⟨hok,ih _ (step_inv c s a ⟨hfew.1,hok⟩ h) hfew.2 hidle hall⟩
    · have hstart := overtaken_wrong c s a h hok
      have hend := Schedule.invariant (step c) (Few c)
        (fun s => MpmcQueue.Invariant c s.queue ∧ Wrong c s)
        (fun s a hf hs => ⟨step_queue c s a hf hs.1,step_wrong c s a hs.1 hs.2⟩) actions (step c s a)
        hfew.2 ⟨step_queue c s a hfew.1 h.queue,hstart⟩
      rcases hend.2 with ⟨result,hmem,hbad⟩ | ⟨r,hd⟩
      · exact absurd (hall result hmem) hbad
      · change Doomed _ ((Schedule.run (step c) (a::actions) s).readers r) at hd
        rw [hidle r] at hd
        exact hd.elim

end Overtaken

instance Few.decidable {V : Type} (c : Capacity) (s : State V) : ∀ a, Decidable (Few c s a)
  | .access a => inferInstanceAs (Decidable (FewOperations c s.queue a))
  | .read _ => inferInstanceAs (Decidable True)

/-- Every interleaving of fewer than `2^62` pushes and pops with any reads: as
long as no reader is overtaken all results are possible; and once an overtaken
reader has returned they are not. -/
theorem size_possible {V : Type} (c : Capacity) (actions : List (Action V))
    (hfew : Schedule.Allowed (step c) (Few c) actions (initial V)) :
    (Schedule.Allowed (step c) Unovertaken actions (initial V) →
      ∀ result ∈ (Schedule.run (step c) actions (initial V)).returned, Possible c result) ∧
    ((∀ r, (Schedule.run (step c) actions (initial V)).readers r = .idle) →
      (∀ result ∈ (Schedule.run (step c) actions (initial V)).returned, Possible c result) →
      Schedule.Allowed (step c) Unovertaken actions (initial V)) := by
  constructor
  · intro hok
    have hboth := (Schedule.allowed_and (step c) (Few c) Unovertaken actions (initial V)).mpr ⟨hfew,hok⟩
    exact (Schedule.invariant (step c) (fun s a => Few c s a ∧ Unovertaken s a) (Inv c) (step_inv c)
      actions (initial V) hboth (initial_inv c)).possible
  · exact possible_unovertaken c actions (initial V) (initial_inv c) hfew

section Lone
variable {V : Type} (c : Capacity)

instance Clear.decidable (q : MpmcQueue.State V) : ∀ reader, Decidable (Clear q reader)
  | .idle => inferInstanceAs (Decidable True)
  | .begun _ => inferInstanceAs (Decidable True)
  | .loaded _ _ => inferInstanceAs (Decidable (_ ∧ _))

def Lone (s : State V) : Action V → Prop
  | .access a => exchanges s.queue a = true → Clear s.queue (s.readers 0)
  | .read r => r = 0

instance Lone.decidable (s : State V) : ∀ a, Decidable (Lone s a)
  | .access _ => inferInstanceAs (Decidable (_ → _))
  | .read _ => inferInstanceAs (Decidable (_ = _))

theorem lone_unovertaken (actions : List (Action V))
    (h : Schedule.Allowed (step c) Lone actions (initial V)) :
    Schedule.Allowed (step c) Unovertaken actions (initial V) := by
  refine Schedule.allowed_of_invariant (step c) Lone Unovertaken
    (fun s => ∀ r, r ≠ 0 → s.readers r = .idle) ?_ ?_ actions (initial V) h (fun _ _ => rfl)
  · intro s a hlone hs r hr
    cases a with
    | access a =>
      change meet _ (s.readers r) = _
      rw [hs r hr]
      rfl
    | read u =>
      obtain rfl : u = 0 := hlone
      simp only [step, readStep]
      split <;> simpa only [Function.update_of_ne hr] using hs r hr
  · intro s a hlone hs
    cases a with
    | access a =>
      intro hpop r
      by_cases hr : r = 0
      · rw [hr]
        exact hlone hpop
      · rw [hs r hr]
        trivial
    | read u => trivial

end Lone

section Runs

def pushes (val : ℕ) : List (Action ℕ) :=
  .access ⟨0,.push val,false⟩::List.replicate 5 (.access ⟨0,.pop,false⟩)

def pops : List (Action ℕ) := List.replicate 6 (.access ⟨0,.pop,false⟩)

def reads (n : ℕ) : List (Action ℕ) := List.replicate n (.read 0)

/-- One element is popped between the loads, while the head stays: empty. -/
theorem popped_between : (Schedule.run (step pair)
    (pushes 1++reads 2++pops++reads 1) (initial ℕ)).returned = [(0,true)] ∧
      Possible pair (0,true) := by
  have hreturned : (Schedule.run (step pair)
      (pushes 1++reads 2++pops++reads 1) (initial ℕ)).returned = [(0,true)] := by decide
  have hpossible := (size_possible pair (pushes 1++reads 2++pops++reads 1) (by decide)).1
    (lone_unovertaken pair _ (by decide))
  rw [hreturned] at hpossible
  exact ⟨hreturned,hpossible _ List.mem_cons_self⟩

/-- The head is loaded, an element goes in and out, the tail is loaded: the
size is the largest 64-bit word. -/
theorem size_underflow : ¬∀ (c : Capacity) (actions : List (Action ℕ)),
    Schedule.Allowed (step c) (Few c) actions (initial ℕ) →
      ∀ result ∈ (Schedule.run (step c) actions (initial ℕ)).returned, Possible c result := by
  intro h
  have hbad := h pair (reads 2++pushes 1++pops++reads 1) (by decide) (2^64-1,true) (by decide)
  exact absurd hbad.1 (by decide)

/-- `empty()` answers for a queue that is never empty during the call. -/
example : (Schedule.run (step pair) (pushes 1++reads 2++pushes 2++pops++reads 1) (initial ℕ)).returned =
    [(0,false)] := by decide

end Runs

end Chronos.QueueSize
