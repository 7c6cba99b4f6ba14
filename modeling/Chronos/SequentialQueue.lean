import Chronos.Decimal
import Chronos.MpmcQueue

/-!
# The bounded queue under one thread

One thread calls `try_push` and `try_pop`. Nobody else moves the counters, so
a round of the loop that neither returns nor exchanges repeats for ever, and
the only other way on is a weak exchange that fails for no reason. A signed
difference that overflows is undefined. With two slots or more the calls are
those of a bounded FIFO; with one slot the sequence number of a full slot is
the one a push looks for.
-/

set_option autoImplicit false

namespace Chronos.SequentialQueue
open MpmcQueue

structure Queue (V : Type) where
  slots : ℕ → Slot V
  head : ℕ := 0
  tail : ℕ := 0

def new (V : Type) : Queue V where
  slots i := ⟨none,i⟩

section Calls
variable {V : Type} (log : ℕ)

def capacity : ℕ := 2^log

def slotOf (pos : ℕ) : ℕ := pos &&& (capacity log-1)

/-- The loop of both calls from a loaded position: for some rounds, of whose
exchanges the first fail. -/
def exchangeLoop {R : Type} (diff : ℕ → ℤ) (counter : ℕ) (won : ℕ → R) (refused : R) :
    ℕ → ℕ → ℕ → Option R
  | 0, _, _ => none
  | rounds+1, fails, pos =>
    if ¬Fits (diff pos) then none
    else if diff pos = 0 then
      if counter = pos ∧ fails = 0 then some (won pos)
      else exchangeLoop diff counter won refused rounds (fails-1) counter
    else if diff pos < 0 then some refused
    else exchangeLoop diff counter won refused rounds fails counter

def pushLoop (q : Queue V) (val : V) : ℕ → ℕ → ℕ → Option (Bool × Queue V) :=
  exchangeLoop (fun pos => pushDiff (q.slots (slotOf log pos)).seq pos) q.head
    (fun pos => (true,{ q with
      head := (pos+1)%2^64
      slots := Function.update q.slots (slotOf log pos) ⟨some val,(pos+1)%2^64⟩ }))
    (false,q)

def popLoop (q : Queue V) : ℕ → ℕ → ℕ → Option (Option (Option V) × Queue V) :=
  exchangeLoop (fun pos => popDiff (q.slots (slotOf log pos)).seq pos) q.tail
    (fun pos => (some (q.slots (slotOf log pos)).data,{ q with
      tail := (pos+1)%2^64
      slots := Function.update q.slots (slotOf log pos)
        ⟨(q.slots (slotOf log pos)).data,(pos+capacity log)%2^64⟩ }))
    (none,q)

/-- One round more than exchanges fail; further rounds would not return either. -/
def tryPush (q : Queue V) (val : V) (fails : ℕ) : Option (Bool × Queue V) :=
  pushLoop log q val (fails+1) fails q.head

def tryPop (q : Queue V) (fails : ℕ) : Option (Option (Option V) × Queue V) :=
  popLoop log q (fails+1) fails q.tail

def size (q : Queue V) : ℕ := (q.head+2^64-q.tail)%2^64

end Calls

inductive Call (V : Type) where
  | push (val : V) (fails : ℕ)
  | pop (fails : ℕ)

inductive Answer (V : Type) where
  | pushed (ok : Bool)
  | popped (val : Option (Option V))
  deriving DecidableEq

section Runs
variable {V : Type} (log : ℕ)

def call (q : Queue V) : Call V → Option (Answer V × Queue V)
  | .push val fails => (tryPush log q val fails).map (fun r => (.pushed r.1,r.2))
  | .pop fails => (tryPop log q fails).map (fun r => (.popped r.1,r.2))

def answers : List (Call V) → Queue V → Option (List (Answer V × ℕ))
  | [], _ => some []
  | a::as, q => (call log q a).bind (fun r => (answers as r.2).map (fun rest => (r.1,size r.2)::rest))

end Runs

structure Fifo (V : Type) where
  taken : ℕ := 0
  held : List V := []

section Reference
variable {V : Type} (n : ℕ)

def fifoCall (f : Fifo V) : Call V → Answer V × Fifo V
  | .push val _ =>
    if f.held.length = n then (.pushed false,f)
    else (.pushed true,{ f with held := f.held++[val] })
  | .pop _ =>
    match f.held with
    | [] => (.popped none,f)
    | x::xs => (.popped (some (some x)),⟨f.taken+1,xs⟩)

def fifoNext (f : Fifo V) (a : Call V) : Fifo V := (fifoCall n f a).2

def fifoAnswers : List (Call V) → Fifo V → List (Answer V × ℕ)
  | [], _ => []
  | a::as, f => ((fifoCall n f a).1,(fifoNext n f a).held.length)::fifoAnswers as (fifoNext n f a)

end Reference

section Words

/-- The words of two positions lie on both sides of `2^63`. -/
def Straddles (p q : ℕ) : Prop := p%2^64 < 2^63 ∧ 2^63 ≤ q%2^64

instance (p q : ℕ) : Decidable (Straddles p q) := inferInstanceAs (Decidable (_ ∧ _))

theorem toInt64_word (w : ℕ) (h : w < 2^64) : toInt64 w = if w < 2^63 then (w : ℤ) else w-2^64 := by
  unfold toInt64
  split_ifs with hlow
  · apply Int.bmod_eq_of_le <;> omega
  · rw [← Int.sub_bmod_right]
    apply Int.bmod_eq_of_le <;> omega

theorem pushDiff_same (p : ℕ) : pushDiff (p%2^64) (p%2^64) = 0 := sub_self _

theorem pushDiff_behind (p d : ℕ) (hd : 0 < d) (hsmall : d < 2^62) :
    pushDiff (p%2^64) ((p+d)%2^64) = if Straddles p (p+d) then 2^64-(d : ℤ) else -(d : ℤ) := by
  have hp : p%2^64 < 2^64 := Nat.mod_lt _ (by decide)
  have hq : (p+d)%2^64 < 2^64 := Nat.mod_lt _ (by decide)
  have hnext : (p+d)%2^64 = p%2^64+d ∨ (p+d)%2^64+2^64 = p%2^64+d := by omega
  rw [pushDiff, toInt64_word _ hp, toInt64_word _ hq]
  by_cases h : Straddles p (p+d)
  · obtain ⟨hl,hr⟩ := id h
    rw [if_pos h, if_pos hl, if_neg (not_lt.mpr hr)]
    omega
  · rw [if_neg h]
    unfold Straddles at h
    split_ifs <;> omega

theorem popDiff_push (seq pos : ℕ) : popDiff seq (pos%2^64) = pushDiff seq ((pos+1)%2^64) := by
  rw [popDiff, pushDiff, Nat.mod_add_mod]

theorem slotOf_word (log p : ℕ) (h : log ≤ 62) : slotOf log (p%2^64) = p%capacity log := by
  rw [slotOf, capacity, Nat.and_two_pow_sub_one_eq_mod]
  exact Nat.mod_mod_of_dvd p (pow_dvd_pow 2 (by omega))

end Words

section Loop
variable {R : Type} (diff : ℕ → ℤ) (counter : ℕ) (won : ℕ → R) (refused : R)

theorem exchange_won (fails : ℕ) (h : diff counter = 0) :
    exchangeLoop diff counter won refused (fails+1) fails counter = some (won counter) := by
  have hfits : ¬¬Fits 0 := by decide
  induction fails with
  | zero => simp only [exchangeLoop, h, if_neg hfits, and_self, if_true]
  | succ fails ih =>
    rw [exchangeLoop]
    simp only [h, if_neg hfits, if_true, Nat.succ_ne_zero, and_false, if_false, Nat.add_sub_cancel]
    exact ih

theorem exchange_refused (rounds fails : ℕ) (hfits : Fits (diff counter)) (h : diff counter < 0) :
    exchangeLoop diff counter won refused (rounds+1) fails counter = some refused := by
  rw [exchangeLoop, if_neg (not_not.mpr hfits), if_neg (ne_of_lt h), if_pos h]

theorem exchange_overflow (rounds fails : ℕ) (h : ¬Fits (diff counter)) :
    exchangeLoop diff counter won refused rounds fails counter = none := by
  cases rounds with
  | zero => rfl
  | succ rounds => rw [exchangeLoop, if_pos h]

theorem exchange_behind (fails p d : ℕ) (hd : 0 < d) (hsmall : d < 2^62)
    (h : diff counter = pushDiff (p%2^64) ((p+d)%2^64)) :
    exchangeLoop diff counter won refused (fails+1) fails counter =
      if Straddles p (p+d) then none else some refused := by
  rw [pushDiff_behind p d hd hsmall] at h
  split_ifs at h ⊢ with hover
  · apply exchange_overflow
    rw [h]
    unfold Fits
    omega
  · apply exchange_refused
    · rw [h]
      unfold Fits
      omega
    · rw [h]
      omega

/-- A loop that returns after some number of rounds does so after one round
more than exchanges fail. -/
theorem exchange_complete (rounds fails : ℕ) (r : R)
    (h : exchangeLoop diff counter won refused rounds fails counter = some r) :
    exchangeLoop diff counter won refused (fails+1) fails counter = some r := by
  by_cases hfits : Fits (diff counter)
  case neg =>
    rw [exchange_overflow diff counter won refused rounds fails hfits] at h
    cases h
  rcases lt_trichotomy (diff counter) 0 with hlt | heq | hgt
  · rw [exchange_refused diff counter won refused fails fails hfits hlt]
    cases rounds with
    | zero => cases h
    | succ rounds => rwa [exchange_refused diff counter won refused rounds fails hfits hlt] at h
  · rw [exchange_won diff counter won refused fails heq]
    have hzero : ¬¬Fits 0 := by decide
    induction rounds generalizing fails with
    | zero => cases h
    | succ rounds ih =>
      rw [exchangeLoop, heq, if_neg hzero, if_pos rfl] at h
      by_cases hfails : fails = 0
      · rwa [if_pos ⟨rfl,hfails⟩] at h
      · rw [if_neg (fun hc => hfails hc.2)] at h
        exact ih _ h
  · -- ahead of the position: the same round again
    induction rounds with
    | zero => cases h
    | succ rounds ih =>
      rw [exchangeLoop, if_neg (not_not.mpr hfits), if_neg (ne_of_gt hgt),
        if_neg (not_lt_of_gt hgt)] at h
      exact ih h

end Loop

section Tries
variable {V : Type} (log : ℕ) (q : Queue V)

theorem tryPush_free (val : V) (fails : ℕ)
    (h : pushDiff (q.slots (slotOf log q.head)).seq q.head = 0) :
    tryPush log q val fails = some (true,{ q with
      head := (q.head+1)%2^64
      slots := Function.update q.slots (slotOf log q.head) ⟨some val,(q.head+1)%2^64⟩ }) := by
  rw [tryPush, pushLoop, exchange_won]
  exact h

theorem tryPop_full (fails : ℕ)
    (h : popDiff (q.slots (slotOf log q.tail)).seq q.tail = 0) :
    tryPop log q fails = some (some (q.slots (slotOf log q.tail)).data,{ q with
      tail := (q.tail+1)%2^64
      slots := Function.update q.slots (slotOf log q.tail)
        ⟨(q.slots (slotOf log q.tail)).data,(q.tail+capacity log)%2^64⟩ }) := by
  rw [tryPop, popLoop, exchange_won]
  exact h

/-- No other number of rounds makes a call return otherwise. -/
theorem tryPush_complete (val : V) (rounds fails : ℕ) (r : Bool × Queue V)
    (h : pushLoop log q val rounds fails q.head = some r) : tryPush log q val fails = some r := by
  rw [pushLoop] at h
  rw [tryPush, pushLoop, exchange_complete _ _ _ _ _ _ _ h]

theorem tryPop_complete (rounds fails : ℕ) (r : Option (Option V) × Queue V)
    (h : popLoop log q rounds fails q.tail = some r) : tryPop log q fails = some r := by
  rw [popLoop] at h
  rw [tryPop, popLoop, exchange_complete _ _ _ _ _ _ _ h]

end Tries

structure Represents {V : Type} (log : ℕ) (q : Queue V) (f : Fifo V) : Prop where
  head : q.head = (f.taken+f.held.length)%2^64
  tail : q.tail = f.taken%2^64
  room : f.held.length ≤ capacity log
  full : ∀ i (h : i < f.held.length),
    q.slots ((f.taken+i)%capacity log) = ⟨some f.held[i],(f.taken+i+1)%2^64⟩
  free : ∀ i, f.held.length ≤ i → i < capacity log →
    (q.slots ((f.taken+i)%capacity log)).seq = (f.taken+i)%2^64

section Representation
variable {V : Type} (log : ℕ) (q : Queue V) (f : Fifo V)

theorem capacity_bounds (h : log ≤ 62) : 0 < capacity log ∧ capacity log ≤ 2^62 :=
  ⟨Nat.two_pow_pos log,Nat.pow_le_pow_right (by decide) h⟩

theorem new_represents (h : log ≤ 62) : Represents log (new V) {} where
  head := rfl
  tail := rfl
  room := Nat.zero_le _
  full i h := absurd h (Nat.not_lt_zero i)
  free i _ hi := by
    change (0+i)%capacity log = (0+i)%2^64
    have := (capacity_bounds log h).2
    rw [zero_add, Nat.mod_eq_of_lt hi, Nat.mod_eq_of_lt (by omega)]

theorem size_represents (hlog : log ≤ 62) (h : Represents log q f) : size q = f.held.length := by
  have hroom := h.room
  have hcap := (capacity_bounds log hlog).2
  rw [size, h.head, h.tail]
  omega

theorem slot_inj (i j : ℕ) (hi : i < capacity log) (hj : j < capacity log)
    (h : (f.taken+i)%capacity log = (f.taken+j)%capacity log) : i = j :=
  (Nat.ModEq.add_left_cancel' f.taken h).eq_of_lt_of_lt hi hj

theorem head_slot (hlog : log ≤ 62) (h : Represents log q f) :
    slotOf log q.head = (f.taken+f.held.length)%capacity log := by
  rw [h.head, slotOf_word log _ hlog]

theorem tail_slot (hlog : log ≤ 62) (h : Represents log q f) :
    slotOf log q.tail = f.taken%capacity log := by
  rw [h.tail, slotOf_word log _ hlog]

theorem push_represents (val : V) (hroom : f.held.length < capacity log) (h : Represents log q f) :
    Represents log { q with
      head := (q.head+1)%2^64
      slots := Function.update q.slots ((f.taken+f.held.length)%capacity log)
        ⟨some val,(q.head+1)%2^64⟩ } { f with held := f.held++[val] } := by
  have hnext : (q.head+1)%2^64 = (f.taken+f.held.length+1)%2^64 := by
    rw [h.head, Nat.mod_add_mod]
  constructor
  case head =>
    rw [List.length_append, List.length_singleton]
    exact hnext
  case tail => exact h.tail
  case room =>
    rw [List.length_append, List.length_singleton]
    exact hroom
  case full =>
    intro i hi
    dsimp only at hi ⊢
    rw [List.length_append, List.length_singleton] at hi
    by_cases hlast : i = f.held.length
    · subst hlast
      simp only [Function.update_self, hnext, List.getElem_concat_length]
    · have hother : (f.taken+i)%capacity log ≠ (f.taken+f.held.length)%capacity log :=
        fun he => hlast (slot_inj log f i _ (by omega) hroom he)
      have hold := h.full i (by omega)
      rw [Function.update_of_ne hother, hold, List.getElem_append_left]
  case free =>
    intro i hi hlt
    dsimp only at hi ⊢
    rw [List.length_append, List.length_singleton] at hi
    have hother : (f.taken+i)%capacity log ≠ (f.taken+f.held.length)%capacity log :=
      fun he => absurd (slot_inj log f i _ hlt hroom he) (by omega)
    rw [Function.update_of_ne hother]
    exact h.free i (by omega) hlt

theorem pop_represents (x : V) (xs : List V) (hheld : f.held = x::xs) (h : Represents log q f) :
    Represents log { q with
      tail := (q.tail+1)%2^64
      slots := Function.update q.slots (f.taken%capacity log)
        ⟨(q.slots (f.taken%capacity log)).data,(q.tail+capacity log)%2^64⟩ } ⟨f.taken+1,xs⟩ := by
  have hlen : f.held.length = xs.length+1 := by rw [hheld, List.length_cons]
  have hroom := h.room
  have hpos : 0 < capacity log := Nat.two_pow_pos log
  have hshift (i : ℕ) : f.taken+1+i = f.taken+(i+1) := by omega
  have hother (i : ℕ) (hi : i+1 < capacity log) :
      (f.taken+(i+1))%capacity log ≠ f.taken%capacity log :=
    fun he => absurd (slot_inj log f (i+1) 0 hi hpos he) (by omega)
  constructor
  case head =>
    dsimp only
    rw [h.head, hlen]
    exact congrArg (·%2^64) (by omega)
  case tail =>
    dsimp only
    rw [h.tail, Nat.mod_add_mod]
  case room =>
    dsimp only
    omega
  case full =>
    intro i hi
    dsimp only at hi ⊢
    have hold := h.full (i+1) (by omega)
    rw [hshift]
    rw [Function.update_of_ne (hother i (by omega)), hold]
    simp only [hheld, List.getElem_cons_succ]
  case free =>
    intro i hi hlt
    dsimp only at hi ⊢
    rw [hshift]
    by_cases hwrap : i+1 = capacity log
    · rw [hwrap, Nat.add_mod_right, Function.update_self, h.tail, Nat.mod_add_mod]
    · rw [Function.update_of_ne (hother i (by omega))]
      exact h.free (i+1) (by omega) (by omega)

end Representation

/-- What a call needs: a push on a full queue more than one slot, and a call
that is refused two positions on one side of `2^63`. -/
def Sound {V : Type} (log : ℕ) (f : Fifo V) : Call V → Prop
  | .push _ _ => f.held.length = capacity log →
    capacity log ≠ 1 ∧ ¬Straddles (f.taken+1) (f.taken+f.held.length)
  | .pop _ => f.held = [] → ¬Straddles f.taken (f.taken+1)

instance Sound.decidable {V : Type} (log : ℕ) (f : Fifo V) : ∀ a, Decidable (Sound log f a)
  | .push _ _ => inferInstanceAs (Decidable (_ → _))
  | .pop _ => inferInstanceAs (Decidable (_ → _))

section Correctness
variable {V : Type} (log : ℕ) (q : Queue V) (f : Fifo V)

def Agrees (a : Call V) : Prop :=
  ∃ q', call log q a = some ((fifoCall (capacity log) f a).1,q') ∧
    Represents log q' (fifoNext (capacity log) f a)

theorem push_agrees (hlog : log ≤ 62) (val : V) (fails : ℕ) (hroom : f.held.length < capacity log)
    (h : Represents log q f) : Agrees log q f (.push val fails) := by
  have hslot := head_slot log q f hlog h
  have hfree := h.free f.held.length (le_refl _) hroom
  have hdiff : pushDiff (q.slots (slotOf log q.head)).seq q.head = 0 := by
    rw [hslot, hfree, h.head]
    exact pushDiff_same _
  have hfifo : fifoCall (capacity log) f (.push val fails) =
      (.pushed true,{ f with held := f.held++[val] }) := if_neg (by omega)
  have htry := tryPush_free log q val fails hdiff
  rw [hslot] at htry
  rw [Agrees, fifoNext, hfifo]
  exact ⟨_,by rw [call, htry]; rfl,push_represents log q f val hroom h⟩

theorem push_refused (hlog : log ≤ 62) (val : V) (fails : ℕ) (hfull : f.held.length = capacity log)
    (h : Represents log q f) :
    (Sound log f (.push val fails) ∧ Agrees log q f (.push val fails)) ∨
      ¬Sound log f (.push val fails) ∧
        ∀ q', call log q (.push val fails) ≠ some ((fifoCall (capacity log) f (.push val fails)).1,q') := by
  obtain ⟨hpos,hcap⟩ := capacity_bounds log hlog
  have hslot : slotOf log q.head = (f.taken+0)%capacity log := by
    rw [head_slot log q f hlog h, hfull, Nat.add_mod_right, add_zero]
  have hold := h.full 0 (by omega)
  have hseq : (q.slots (slotOf log q.head)).seq = (f.taken+1)%2^64 := by
    rw [hslot, hold, add_zero]
  have hfifo : fifoCall (capacity log) f (.push val fails) = (.pushed false,f) := if_pos hfull
  by_cases hone : capacity log = 1
  · -- one slot: the full slot looks free
    have hdiff : pushDiff (q.slots (slotOf log q.head)).seq q.head = 0 := by
      rw [hseq, h.head, hfull, hone]
      exact pushDiff_same _
    refine Or.inr ⟨fun hsound => (hsound hfull).1 hone,fun q' hq' => ?_⟩
    rw [call, tryPush_free log q val fails hdiff, hfifo] at hq'
    exact absurd hq' (by simp)
  · have hsum : f.taken+1+(capacity log-1) = f.taken+f.held.length := by omega
    have htry : tryPush log q val fails =
        if Straddles (f.taken+1) (f.taken+f.held.length) then none else some (false,q) := by
      rw [← hsum, tryPush, pushLoop]
      refine exchange_behind _ _ _ _ _ _ (capacity log-1) (by omega) (by omega) ?_
      rw [hseq, h.head, hsum]
    by_cases hover : Straddles (f.taken+1) (f.taken+f.held.length)
    · rw [if_pos hover] at htry
      refine Or.inr ⟨fun hsound => (hsound hfull).2 hover,fun q' hq' => ?_⟩
      rw [call, htry] at hq'
      cases hq'
    · rw [if_neg hover] at htry
      refine Or.inl ⟨fun _ => ⟨hone,hover⟩,q,?_,?_⟩
      · rw [call, htry, hfifo]
        rfl
      · rw [fifoNext, hfifo]
        exact h

theorem pop_agrees (hlog : log ≤ 62) (fails : ℕ) (x : V) (xs : List V) (hheld : f.held = x::xs)
    (h : Represents log q f) : Agrees log q f (.pop fails) := by
  have hslot := tail_slot log q f hlog h
  have hfull : q.slots (f.taken%capacity log) = ⟨some x,(f.taken+1)%2^64⟩ := by
    have hold := h.full 0 (by rw [hheld, List.length_cons]; omega)
    simpa [hheld] using hold
  have hdiff : popDiff (q.slots (slotOf log q.tail)).seq q.tail = 0 := by
    rw [hslot, hfull, h.tail, popDiff_push]
    exact pushDiff_same _
  have hfifo : fifoCall (capacity log) f (.pop fails) = (.popped (some (some x)),⟨f.taken+1,xs⟩) := by
    rw [fifoCall, hheld]
  have htry := tryPop_full log q fails hdiff
  rw [hslot] at htry
  rw [Agrees, fifoNext, hfifo]
  exact ⟨_,by rw [call, htry, hfull]; rfl,pop_represents log q f x xs hheld h⟩

theorem pop_refused (hlog : log ≤ 62) (fails : ℕ) (hempty : f.held = []) (h : Represents log q f) :
    (Sound log f (.pop fails) ∧ Agrees log q f (.pop fails)) ∨
      ¬Sound log f (.pop fails) ∧
        ∀ q', call log q (.pop fails) ≠ some ((fifoCall (capacity log) f (.pop fails)).1,q') := by
  have hpos := (capacity_bounds log hlog).1
  have hfree := h.free 0 (by rw [hempty]; exact Nat.zero_le _) hpos
  have hfifo : fifoCall (capacity log) f (.pop fails) = (.popped none,f) := by
    rw [fifoCall, hempty]
  have htry : tryPop log q fails =
      if Straddles f.taken (f.taken+1) then none else some (none,q) := by
    rw [tryPop, popLoop]
    refine exchange_behind _ _ _ _ _ _ 1 (by decide) (by decide) ?_
    rw [tail_slot log q f hlog h, h.tail, popDiff_push]
    exact congrArg (fun seq => pushDiff seq _) hfree
  by_cases hover : Straddles f.taken (f.taken+1)
  · rw [if_pos hover] at htry
    refine Or.inr ⟨fun hsound => hsound hempty hover,fun q' hq' => ?_⟩
    rw [call, htry] at hq'
    cases hq'
  · rw [if_neg hover] at htry
    refine Or.inl ⟨fun _ => hover,q,?_,?_⟩
    · rw [call, htry, hfifo]
      rfl
    · rw [fifoNext, hfifo]
      exact h

/-- One call: sound and like the FIFO, or neither. -/
theorem call_agrees (hlog : log ≤ 62) (a : Call V) (h : Represents log q f) :
    (Sound log f a ∧ Agrees log q f a) ∨
      ¬Sound log f a ∧ ∀ q', call log q a ≠ some ((fifoCall (capacity log) f a).1,q') := by
  cases a with
  | push val fails =>
    by_cases hfull : f.held.length = capacity log
    · exact push_refused log q f hlog val fails hfull h
    · have hroom := h.room
      exact Or.inl ⟨fun he => absurd he hfull,push_agrees log q f hlog val fails (by omega) h⟩
  | pop fails =>
    cases hheld : f.held with
    | nil => exact pop_refused log q f hlog fails hheld h
    | cons x xs =>
      have hne : f.held ≠ [] := by simp [hheld]
      exact Or.inl ⟨fun he => absurd he hne,pop_agrees log q f hlog fails x xs hheld h⟩

theorem answers_iff (hlog : log ≤ 62) (calls : List (Call V)) (h : Represents log q f) :
    answers log calls q = some (fifoAnswers (capacity log) calls f) ↔
      Schedule.Allowed (fifoNext (capacity log)) (Sound log) calls f := by
  induction calls generalizing q f with
  | nil => exact iff_of_true rfl trivial
  | cons a calls ih =>
    rw [answers, fifoAnswers, Schedule.Allowed]
    rcases call_agrees log q f hlog a h with ⟨hsound,q',hcall,hnext⟩ | ⟨hnot,hother⟩
    · rw [hcall, Option.bind_some, size_represents log q' _ hlog hnext, and_iff_right hsound,
        ← ih q' _ hnext]
      simp
    · refine iff_of_false (fun hall => ?_) (fun hall => hnot hall.1)
      obtain ⟨⟨answer,q'⟩,hcall,hrest⟩ := Option.bind_eq_some_iff.mp hall
      obtain ⟨rest,-,heq⟩ := Option.map_eq_some_iff.mp hrest
      have hanswer : answer = (fifoCall (capacity log) f a).1 :=
        congrArg Prod.fst (List.cons.inj heq).1
      exact hother q' (hanswer ▸ hcall)

end Correctness

section Solo
variable {V : Type} (c : Capacity)

def queueOf (s : State V) : Queue V := ⟨s.slots,s.head,s.tail⟩

def Brings (t : ℕ) (s : State V) (q : Queue V) : Prop :=
  ∃ actions : List (Action V), (∀ a ∈ actions, a.thread = t) ∧
    (Schedule.run (step c) actions s).threads t = .idle ∧
    queueOf (Schedule.run (step c) actions s) = q

theorem brings_step (t : ℕ) (s : State V) (q : Queue V) (a : Action V) (ha : a.thread = t)
    (h : Brings c t (step c s a) q) : Brings c t s q := by
  obtain ⟨actions,hall,hidle,hqueue⟩ := h
  exact ⟨a::actions,List.forall_mem_cons.mpr ⟨ha,hall⟩,hidle,hqueue⟩

theorem brings_done (t : ℕ) (s : State V) (h : s.threads t = .idle) : Brings c t s (queueOf s) :=
  ⟨[],fun _ ha => absurd ha List.not_mem_nil,h,rfl⟩

theorem goto_place (s : State V) (t : ℕ) (p : Place V) : (goto s t p).threads t = p := by
  simp [goto]

theorem goto_goto (s : State V) (t : ℕ) (p p' : Place V) : goto (goto s t p) t p' = goto s t p' := by
  simp [goto]

/-- The sequential loop is the concurrent machine run by one thread: of the
three places of the loop the first compares, the second exchanges and the third
loads the counter. -/
theorem loop_solo {R : Type} (t : ℕ) (s : State V) (diff : ℕ → ℤ) (counter : ℕ)
    (won : ℕ → R × Queue V) (refused r : R × Queue V) (seq swap : ℕ → Place V) (load : Place V)
    (hseq : ∀ pos, step c (goto s t (seq pos)) ⟨t,.pop,false⟩ =
      goto s t (if diff pos = 0 then swap pos else if diff pos < 0 then .idle else load))
    (hswap : ∀ pos, step c (goto s t (swap pos)) ⟨t,.pop,true⟩ = goto s t (seq counter))
    (hload : step c (goto s t load) ⟨t,.pop,false⟩ = goto s t (seq counter))
    (hwon : Brings c t (goto s t (swap counter)) (won counter).2) (hrefused : refused.2 = queueOf s)
    (rounds fails pos : ℕ) (h : exchangeLoop diff counter won refused rounds fails pos = some r) :
    Brings c t (goto s t (seq pos)) r.2 := by
  induction rounds generalizing fails pos with
  | zero => cases h
  | succ rounds ih =>
    apply brings_step c t _ r.2 ⟨t,.pop,false⟩ rfl
    rw [hseq]
    rw [exchangeLoop] at h
    simp only [ite_not, Option.ite_none_right_eq_some] at h
    obtain ⟨-,h⟩ := h
    split_ifs at h ⊢ with hzero hthis hneg
    · obtain ⟨rfl,-⟩ := hthis
      cases h
      exact hwon
    · -- the exchange fails, for another counter or for no reason
      apply brings_step c t _ r.2 ⟨t,.pop,true⟩ rfl
      rw [hswap]
      exact ih _ _ h
    · cases h
      rw [hrefused]
      exact brings_done c t _ (goto_place s t .idle)
    · apply brings_step c t _ r.2 ⟨t,.pop,false⟩ rfl
      rw [hload]
      exact ih _ _ h

theorem push_won (t : ℕ) (val : V) (s : State V) :
    Brings c t (goto s t (.pushSwap val s.head)) { queueOf s with
      head := (s.head+1)%2^64
      slots := Function.update s.slots (mask c s.head) ⟨some val,(s.head+1)%2^64⟩ } := by
  refine ⟨[⟨t,.pop,false⟩,⟨t,.pop,false⟩,⟨t,.pop,false⟩],by simp,?_,?_⟩
  · simp [Schedule.run, step, pushSwapStep, goto, pushCopyStep, pushStoreStep, setSlot]
  · simp [Schedule.run, step, pushSwapStep, goto, pushCopyStep, pushStoreStep, setSlot, queueOf]

theorem push_solo (t : ℕ) (val : V) (rounds fails pos : ℕ) (s : State V) (r : Bool × Queue V)
    (h : pushLoop c.log (queueOf s) val rounds fails pos = some r) :
    Brings c t (goto s t (.pushSeq val pos)) r.2 := by
  rw [pushLoop] at h
  refine loop_solo c t s _ s.head _ _ r (.pushSeq val) (.pushSwap val) (.pushLoad val)
    ?_ ?_ ?_ (push_won c t val s) rfl rounds fails pos h
  · intro pos
    rw [step, goto_place]
    simp only [pushSeqStep, goto_goto, apply_ite (goto s t)]
    rfl
  · intro pos
    rw [step, goto_place]
    simp only [pushSwapStep, Bool.true_eq_false, and_false, if_false, goto_goto]
    rfl
  · rw [step, goto_place]
    exact goto_goto s t _ _

theorem pop_won (t : ℕ) (s : State V) :
    Brings c t (goto s t (.popSwap s.tail)) { queueOf s with
      tail := (s.tail+1)%2^64
      slots := Function.update s.slots (mask c s.tail)
        ⟨(s.slots (mask c s.tail)).data,(s.tail+c.size)%2^64⟩ } := by
  refine ⟨[⟨t,.pop,false⟩,⟨t,.pop,false⟩,⟨t,.pop,false⟩],by simp,?_,?_⟩
  · simp [Schedule.run, step, popSwapStep, goto, popCopyStep, popStoreStep, setSlot]
  · simp [Schedule.run, step, popSwapStep, goto, popCopyStep, popStoreStep, setSlot, queueOf]

theorem pop_solo (t : ℕ) (rounds fails pos : ℕ) (s : State V) (r : Option (Option V) × Queue V)
    (h : popLoop c.log (queueOf s) rounds fails pos = some r) :
    Brings c t (goto s t (.popSeq pos)) r.2 := by
  rw [popLoop] at h
  refine loop_solo c t s _ s.tail _ _ r .popSeq .popSwap .popLoad
    ?_ ?_ ?_ (pop_won c t s) rfl rounds fails pos h
  · intro pos
    rw [step, goto_place]
    simp only [popSeqStep, goto_goto, apply_ite (goto s t)]
    rfl
  · intro pos
    rw [step, goto_place]
    simp only [popSwapStep, Bool.true_eq_false, and_false, if_false, goto_goto]
    rfl
  · rw [step, goto_place]
    exact goto_goto s t _ _

/-- A call that returns is one the concurrent machine can make with a single
thread: from outside, through the load of the counter. -/
theorem call_solo (t : ℕ) (s : State V) (a : Call V) (answer : Answer V) (q : Queue V)
    (ht : s.threads t = .idle) (h : call c.log (queueOf s) a = some (answer,q)) : Brings c t s q := by
  let s₁ : State V := { s with begun := s.begun+1 }
  cases a with
  | push val fails =>
    rw [call, tryPush] at h
    obtain ⟨r,hloop,heq⟩ := Option.map_eq_some_iff.mp h
    cases heq
    have hbegin : step c s ⟨t,.push val,false⟩ = goto s₁ t (.pushLoad val) := by
      rw [step, ht]
      rfl
    have hload : step c (goto s₁ t (.pushLoad val)) ⟨t,.pop,false⟩ = goto s₁ t (.pushSeq val s.head) := by
      rw [step, goto_place]
      exact goto_goto s₁ t _ _
    apply brings_step c t s r.2 ⟨t,.push val,false⟩ rfl
    rw [hbegin]
    apply brings_step c t _ r.2 ⟨t,.pop,false⟩ rfl
    rw [hload]
    exact push_solo c t val _ fails s.head s₁ r hloop
  | pop fails =>
    rw [call, tryPop] at h
    obtain ⟨r,hloop,heq⟩ := Option.map_eq_some_iff.mp h
    cases heq
    have hbegin : step c s ⟨t,.pop,false⟩ = goto s₁ t .popLoad := by
      rw [step, ht]
      rfl
    have hload : step c (goto s₁ t .popLoad) ⟨t,.pop,false⟩ = goto s₁ t (.popSeq s.tail) := by
      rw [step, goto_place]
      exact goto_goto s₁ t _ _
    apply brings_step c t s r.2 ⟨t,.pop,false⟩ rfl
    rw [hbegin]
    apply brings_step c t _ r.2 ⟨t,.pop,false⟩ rfl
    rw [hload]
    exact pop_solo c t _ fails s.tail s₁ r hloop

end Solo

section Fifo
variable {V : Type} (log : ℕ)

theorem fifoNext_count (n : ℕ) (f : Fifo V) (a : Call V) :
    (fifoNext n f a).taken+(fifoNext n f a).held.length ≤ f.taken+f.held.length+1 := by
  cases a with
  | push val fails =>
    unfold fifoNext fifoCall
    split_ifs
    · exact Nat.le_succ _
    · simp only [List.length_append, List.length_singleton]
      omega
  | pop fails =>
    unfold fifoNext fifoCall
    cases h : f.held with
    | nil => simp [h]
    | cons x xs =>
      simp only [List.length_cons]
      omega

/-- With two slots or more no word reaches `2^63` in fewer calls than that. -/
theorem few_sound (hlog : 1 ≤ log) (calls : List (Call V)) (f : Fifo V)
    (hfew : f.taken+f.held.length+calls.length < 2^63) :
    Schedule.Allowed (fifoNext (capacity log)) (Sound log) calls f := by
  induction calls generalizing f with
  | nil => trivial
  | cons a calls ih =>
    have hnext := fifoNext_count (capacity log) f a
    rw [List.length_cons] at hfew
    refine ⟨?_,ih _ (by omega)⟩
    have hone : capacity log ≠ 1 := by
      have : 2^1 ≤ capacity log := Nat.pow_le_pow_right (by decide) hlog
      omega
    cases a with
    | push val fails => exact fun _ => ⟨hone,fun hs => by unfold Straddles at hs; omega⟩
    | pop fails => exact fun _ hs => by unfold Straddles at hs; omega

theorem fifo_of_few (hpos : 1 ≤ log) (hlog : log ≤ 62) (calls : List (Call V))
    (hfew : calls.length < 2^63) :
    answers log calls (new V) = some (fifoAnswers (capacity log) calls {}) :=
  (answers_iff log _ _ hlog calls (new_represents log hlog)).mpr
    (few_sound log hpos calls {} (by simpa using hfew))

/-- The calls of one thread are those of a bounded FIFO exactly when no push
meets a full queue of one slot, and no refused call the middle of the words. -/
theorem fifo_iff (hlog : log ≤ 62) (calls : List (Call V)) :
    answers log calls (new V) = some (fifoAnswers (capacity log) calls {}) ↔
      Schedule.Allowed (fifoNext (capacity log)) (Sound log) calls {} :=
  answers_iff log _ _ hlog calls (new_represents log hlog)

def threePushes : List (Call ℕ) := [.push 1 0,.push 2 1,.push 3 0,.pop 0]

theorem threePushes_fifo : answers 1 threePushes (new ℕ) =
    some [(.pushed true,1),(.pushed true,2),(.pushed false,2),(.popped (some (some 1)),1)] :=
  (fifo_iff 1 (by decide) threePushes).mpr (by decide)

/-- One slot: the second push overwrites the first element and succeeds. -/
theorem oneSlot_overwritten : ¬∀ (log : ℕ) (calls : List (Call ℕ)), log ≤ 62 →
    answers log calls (new ℕ) = some (fifoAnswers (capacity log) calls {}) := by
  intro h
  exact absurd (h 0 [.push 1 0,.push 2 0] (by decide)) (by decide)

/-- The pop that follows finds a number ahead of its position, for ever. -/
example : answers 0 [.push 1 0,.push 2 0,.pop 0] (new ℕ) = none := by decide

end Fifo

end Chronos.SequentialQueue
