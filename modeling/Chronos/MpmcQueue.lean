import Chronos.Schedule
import Chronos.TicketRing

/-!
# The bounded queue with per-slot sequence numbers

Any number of threads run `try_push` and `try_pop`, one atomic access at a
time: the load of a counter, the load of a slot's sequence number, a weak
compare-exchange that may fail for no reason, the copy of the element and
the store of the sequence number. Positions are 64-bit words and the
comparison of a sequence number with a position is a signed difference.

No step reads the history fields: they record the stage of every ticket, the
pushed values in ticket order and what the pops returned.
-/

set_option autoImplicit false

namespace Chronos.MpmcQueue
open TicketRing

/-- The template argument `N`. An array of `N` slots of 64 bytes has to fit
the address space, so the exponent stays well below 63. -/
structure Capacity where
  log : ℕ
  positive : 1 ≤ log
  representable : log ≤ 62

def Capacity.size (c : Capacity) : ℕ := 2^c.log

/-- A slot; `none` is the indeterminate content before the first copy. -/
structure Slot (V : Type) where
  data : Option V
  seq : ℕ

inductive Request (V : Type) where
  | push (val : V)
  | pop

inductive Place (V : Type) where
  | idle
  | pushLoad (val : V)
  | pushSeq (val : V) (pos : ℕ)
  | pushSwap (val : V) (pos : ℕ)
  | pushCopy (val : V) (pos : ℕ)
  | pushStore (pos : ℕ)
  | popLoad
  | popSeq (pos : ℕ)
  | popSwap (pos : ℕ)
  | popCopy (pos : ℕ)
  | popStore (pos : ℕ) (val : Option V)

structure State (V : Type) where
  slots : ℕ → Slot V
  head : ℕ := 0
  tail : ℕ := 0
  threads : ℕ → Place V := fun _ => .idle
  begun : ℕ := 0
  tickets : Tickets := {}
  pushed : List V := []
  returned : List (ℕ × Option V) := []

/-- A thread takes its next step. An idle thread begins the request; a
compare-exchange may be made to fail. -/
structure Action (V : Type) where
  thread : ℕ
  request : Request V := .pop
  spurious : Bool := false

def initial (V : Type) : State V where
  slots i := ⟨none,i⟩

section Words
variable (c : Capacity)

/-- `pos & (N - 1)` -/
def mask (pos : ℕ) : ℕ := pos &&& (c.size-1)

/-- `static_cast<int64_t>` of a 64-bit word. -/
def toInt64 (x : ℕ) : ℤ := (x : ℤ).bmod (2^64)

def pushDiff (seq pos : ℕ) : ℤ := toInt64 seq-toInt64 pos

def popDiff (seq pos : ℕ) : ℤ := toInt64 seq-toInt64 ((pos+1)%2^64)

end Words

section Step
variable {V : Type} (c : Capacity)

def goto (s : State V) (t : ℕ) (p : Place V) : State V :=
  { s with threads := Function.update s.threads t p }

def setSlot (s : State V) (i : ℕ) (slot : Slot V) : State V :=
  { s with slots := Function.update s.slots i slot }

def beginStep (s : State V) (t : ℕ) (request : Request V) : State V :=
  goto { s with begun := s.begun+1 } t
    (match request with
    | .push val => .pushLoad val
    | .pop => .popLoad)

def pushSeqStep (s : State V) (t : ℕ) (val : V) (pos : ℕ) : State V :=
  let diff := pushDiff (s.slots (mask c pos)).seq pos
  if diff = 0 then goto s t (.pushSwap val pos)
  else if diff < 0 then goto s t .idle
  else goto s t (.pushLoad val)

def pushSwapStep (s : State V) (t : ℕ) (val : V) (pos : ℕ) (spurious : Bool) : State V :=
  if s.head = pos ∧ spurious = false then
    goto { s with
      head := (pos+1)%2^64
      tickets := s.tickets.take
      pushed := s.pushed++[val] } t (.pushCopy val pos)
  else goto s t (.pushSeq val s.head)

def pushCopyStep (s : State V) (t : ℕ) (val : V) (pos : ℕ) : State V :=
  goto { setSlot s (mask c pos) { s.slots (mask c pos) with data := some val } with
    tickets := s.tickets.advance pos .written } t (.pushStore pos)

def pushStoreStep (s : State V) (t pos : ℕ) : State V :=
  goto { setSlot s (mask c pos) { s.slots (mask c pos) with seq := (pos+1)%2^64 } with
    tickets := s.tickets.advance pos .published } t .idle

def popSeqStep (s : State V) (t pos : ℕ) : State V :=
  let diff := popDiff (s.slots (mask c pos)).seq pos
  if diff = 0 then goto s t (.popSwap pos)
  else if diff < 0 then goto s t .idle
  else goto s t .popLoad

def popSwapStep (s : State V) (t pos : ℕ) (spurious : Bool) : State V :=
  if s.tail = pos ∧ spurious = false then
    goto { s with tail := (pos+1)%2^64, tickets := s.tickets.claim } t (.popCopy pos)
  else goto s t (.popSeq s.tail)

def popCopyStep (s : State V) (t pos : ℕ) : State V :=
  goto { s with tickets := s.tickets.advance pos .copied } t
    (.popStore pos (s.slots (mask c pos)).data)

def popStoreStep (s : State V) (t pos : ℕ) (val : Option V) : State V :=
  goto { setSlot s (mask c pos) { s.slots (mask c pos) with seq := (pos+c.size)%2^64 } with
    tickets := s.tickets.release c.size pos
    returned := s.returned++[(pos,val)] } t .idle

def step (s : State V) (a : Action V) : State V :=
  match s.threads a.thread with
  | .idle => beginStep s a.thread a.request
  | .pushLoad val => goto s a.thread (.pushSeq val s.head)
  | .pushSeq val pos => pushSeqStep c s a.thread val pos
  | .pushSwap val pos => pushSwapStep s a.thread val pos a.spurious
  | .pushCopy val pos => pushCopyStep c s a.thread val pos
  | .pushStore pos => pushStoreStep c s a.thread pos
  | .popLoad => goto s a.thread (.popSeq s.tail)
  | .popSeq pos => popSeqStep c s a.thread pos
  | .popSwap pos => popSwapStep s a.thread pos a.spurious
  | .popCopy pos => popCopyStep c s a.thread pos
  | .popStore pos val => popStoreStep c s a.thread pos val

/-- Fewer than `2^62` operations have begun. -/
def FewOperations (s : State V) (a : Action V) : Prop := (step c s a).begun < 2^62

instance (s : State V) (a : Action V) : Decidable (FewOperations c s a) :=
  inferInstanceAs (Decidable (_ < _))

end Step

section Arithmetic
variable (c : Capacity)

theorem size_bounds : 2 ≤ c.size ∧ c.size ≤ 2^62 :=
  ⟨Nat.pow_le_pow_right (n := 2) (i := 1) (by decide) c.positive,
    Nat.pow_le_pow_right (by decide) c.representable⟩

@[simp] theorem mask_eq (pos : ℕ) : mask c pos = pos%c.size :=
  Nat.and_two_pow_sub_one_eq_mod pos c.log

theorem toInt64_eq (x : ℕ) (h : x < 2^63) : toInt64 x = x := by
  apply Int.bmod_eq_of_le <;> omega

theorem pushDiff_eq (seq pos : ℕ) (hs : seq < 2^63) (hp : pos < 2^63) :
    pushDiff seq pos = seq-pos := by
  rw [pushDiff, toInt64_eq seq hs, toInt64_eq pos hp]

theorem popDiff_eq (seq pos : ℕ) (hs : seq < 2^63) (hp : pos+1 < 2^63) :
    popDiff seq pos = seq-(pos+1 : ℕ) := by
  rw [popDiff, toInt64_eq seq hs, Nat.mod_eq_of_lt (by omega), toInt64_eq (pos+1) hp]

end Arithmetic

end Chronos.MpmcQueue
