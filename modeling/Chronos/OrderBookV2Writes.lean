import Chronos.OrderBookV2Refinement
import Chronos.Schedule

/-!
# The stores of the order book's writer, one word at a time

An operation is a list of stores in program order. Prices, quantities, counts
and times are single words, a structure assignment is one store a field. One
thread writes, so what it loads between two stores is what it left there: the
branches and loop bounds of an operation are those of the state it starts
from, and every copied value is loaded when its store is made. The list of an
operation has the effect of the operation.
-/

set_option autoImplicit false

namespace Chronos.OrderBookV2
open BookLadder SearchedArray

inductive BookSide where
  | bid
  | ask
  deriving DecidableEq

/-- A store into a cold buffer; the last two load the word they store from
another level of the same buffer. -/
inductive ColdWrite where
  | price (s : BookSide) (i : ℕ) (value : Decimal)
  | quantity (s : BookSide) (i : ℕ) (value : Decimal)
  | count (s : BookSide) (value : ℕ)
  | time (value : ℕ)
  | movePrice (s : BookSide) (dst src : ℕ)
  | moveQuantity (s : BookSide) (dst src : ℕ)

def setPrice (levels : Vector Level maxDepth) (i : ℕ) (p : Decimal) : Vector Level maxDepth :=
  levels.setIfInBounds i { levels.getD i default with price := p }

def setQuantity (levels : Vector Level maxDepth) (i : ℕ) (q : Decimal) : Vector Level maxDepth :=
  levels.setIfInBounds i { levels.getD i default with quantity := q }

namespace ColdData

def levels (c : ColdData) : BookSide → Vector Level maxDepth
  | .bid => c.bids
  | .ask => c.asks

def count (c : ColdData) : BookSide → ℕ
  | .bid => c.bidCount
  | .ask => c.askCount

def setLevels (c : ColdData) (s : BookSide) (levels : Vector Level maxDepth) : ColdData :=
  match s with
  | .bid => { c with bids := levels }
  | .ask => { c with asks := levels }

def setCount (c : ColdData) (s : BookSide) (n : ℕ) : ColdData :=
  match s with
  | .bid => { c with bidCount := n }
  | .ask => { c with askCount := n }

def write (c : ColdData) : ColdWrite → ColdData
  | .price s i p => c.setLevels s (setPrice (c.levels s) i p)
  | .quantity s i q => c.setLevels s (setQuantity (c.levels s) i q)
  | .count s n => c.setCount s n
  | .time t => { c with lastUpdateTime := t }
  | .movePrice s dst src =>
    c.setLevels s (setPrice (c.levels s) dst ((c.levels s).getD src default).price)
  | .moveQuantity s dst src =>
    c.setLevels s (setQuantity (c.levels s) dst ((c.levels s).getD src default).quantity)

@[simp] theorem levels_setLevels (c : ColdData) (s : BookSide) (ls : Vector Level maxDepth) :
    (c.setLevels s ls).levels s = ls := by
  cases s <;> rfl

@[simp] theorem setLevels_setLevels (c : ColdData) (s : BookSide) (ls ms : Vector Level maxDepth) :
    (c.setLevels s ls).setLevels s ms = c.setLevels s ms := by
  cases s <;> rfl

@[simp] theorem setLevels_levels (c : ColdData) (s : BookSide) : c.setLevels s (c.levels s) = c := by
  cases s <;> rfl

@[simp] theorem levels_setCount (c : ColdData) (s : BookSide) (n : ℕ) :
    (c.setCount s n).levels s = c.levels s := by
  cases s <;> rfl

@[simp] theorem setCount_setLevels (c : ColdData) (s : BookSide) (n : ℕ) (ls : Vector Level maxDepth) :
    (c.setCount s n).setLevels s ls = (c.setLevels s ls).setCount s n := by
  cases s <;> rfl

@[simp] theorem setCount_setCount (c : ColdData) (s : BookSide) (n m : ℕ) :
    (c.setCount s n).setCount s m = c.setCount s m := by
  cases s <;> rfl

end ColdData

theorem set_words (levels : Vector Level maxDepth) (i : ℕ) (p q : Decimal) :
    setQuantity (setPrice levels i p) i q = levels.setIfInBounds i ⟨p,q⟩ := by
  apply Vector.ext
  intro j hj
  by_cases hij : i = j
  · subst hij
    simp [setQuantity, setPrice, hj, Vector.getD]
  · simp [setQuantity, setPrice, hij]

section Lists
variable (before : Decimal → Decimal → Prop) [DecidableRel before] (s : BookSide)

/-- `for (i = count; i > pos; --i) levels[i] = levels[i-1]` -/
def openWrites (pos : ℕ) : ℕ → List ColdWrite
  | 0 => []
  | i+1 => if pos < i+1 then .movePrice s (i+1) i::.moveQuantity s (i+1) i::openWrites pos i else []

/-- `for (j = pos; j < count-1; ++j) levels[j] = levels[j+1]` -/
def closeWrites : ℕ → ℕ → List ColdWrite
  | 0, _ => []
  | k+1, j => .movePrice s j (j+1)::.moveQuantity s j (j+1)::closeWrites k (j+1)

def shiftWrites (count pos : ℕ) (price quantity : Decimal) : List ColdWrite :=
  openWrites s pos count++[.price s pos price,.quantity s pos quantity,.count s (count+1)]

def insertWrites (levels : Vector Level maxDepth) (count : ℕ) (price quantity : Decimal) :
    List ColdWrite :=
  let lo := lowerBound (fun mid => before (levels.getD mid default).price price) 0 count
  if lo < count ∧ (levels.getD lo default).price = price then [.quantity s lo quantity]
  else if maxDepth ≤ count then
    if maxDepth ≤ lo then []
    else .count s (maxDepth-1)::shiftWrites s (maxDepth-1) lo price quantity
  else shiftWrites s count lo price quantity

def removeWrites (levels : Vector Level maxDepth) (count : ℕ) (price : Decimal) : List ColdWrite :=
  match search (fun mid => before (levels.getD mid default).price price)
      (fun mid => before price (levels.getD mid default).price) 0 count with
  | some mid => closeWrites s (count-1-mid) mid++[.count s (count-1)]
  | none => []

def sideWrites (levels : Vector Level maxDepth) (count : ℕ) (price quantity : Decimal) :
    List ColdWrite :=
  if 0 < quantity then insertWrites before s levels count price quantity
  else removeWrites before s levels count price

theorem move_words (c : ColdData) (dst src : ℕ) (h : dst ≠ src) :
    Schedule.run ColdData.write [.movePrice s dst src,.moveQuantity s dst src] c =
      c.setLevels s ((c.levels s).setIfInBounds dst ((c.levels s).getD src default)) := by
  have hsrc : ∀ p, (setPrice (c.levels s) dst p).getD src default = (c.levels s).getD src default := by
    intro p
    simp [setPrice, Vector.getD, h]
  simp only [Schedule.run, ColdData.write, ColdData.levels_setLevels, ColdData.setLevels_setLevels, hsrc,
    set_words]

theorem openWrites_run (pos n : ℕ) (c : ColdData) :
    Schedule.run ColdData.write (openWrites s pos n) c = c.setLevels s (openSlot pos n (c.levels s)) := by
  induction n generalizing c with
  | zero => simp [openWrites, openSlot, Schedule.run]
  | succ i ih =>
    rw [openWrites, openSlot]
    split_ifs with hp
    · change Schedule.run ColdData.write (openWrites s pos i)
        (Schedule.run ColdData.write [.movePrice s (i+1) i,.moveQuantity s (i+1) i] c) = _
      rw [move_words s c (i+1) i (by omega), ih]
      simp
    · simp [Schedule.run]

theorem closeWrites_run (k j : ℕ) (c : ColdData) :
    Schedule.run ColdData.write (closeWrites s k j) c = c.setLevels s (closeSlot k j (c.levels s)) := by
  induction k generalizing j c with
  | zero => simp [closeWrites, closeSlot, Schedule.run]
  | succ k ih =>
    rw [closeWrites, closeSlot]
    change Schedule.run ColdData.write (closeWrites s k (j+1))
      (Schedule.run ColdData.write [.movePrice s j (j+1),.moveQuantity s j (j+1)] c) = _
    rw [move_words s c j (j+1) (by omega), ih]
    simp

theorem shiftWrites_run (count pos : ℕ) (price quantity : Decimal) (c : ColdData) :
    Schedule.run ColdData.write (shiftWrites s count pos price quantity) c =
      (c.setLevels s (shiftAndInsert (c.levels s) count pos price quantity).1).setCount s (count+1) := by
  rw [shiftWrites, Schedule.run_append, openWrites_run]
  simp [Schedule.run, ColdData.write, set_words, shiftAndInsert]

theorem insertWrites_run (c : ColdData) (price quantity : Decimal) :
    Schedule.run ColdData.write (insertWrites before s (c.levels s) (c.count s) price quantity) c =
      let r := insertLevel before (c.levels s) (c.count s) price quantity
      (c.setLevels s r.1).setCount s r.2.1 := by
  have hcount : c.setCount s (c.count s) = c := by cases s <;> rfl
  have hkeep : ∀ ls, (c.setLevels s ls).setCount s (c.count s) = c.setLevels s ls := by
    intro ls
    rw [← ColdData.setCount_setLevels, hcount]
  simp only [insertWrites, insertLevel]
  split_ifs with hit hfull hend
  · simp [Schedule.run, ColdData.write, setQuantity, hkeep]
  · simp [Schedule.run, hcount]
  · rw [Schedule.run, shiftWrites_run]
    simp [ColdData.write, shiftAndInsert]
  · rw [shiftWrites_run]
    rfl

theorem removeWrites_run (c : ColdData) (price : Decimal) :
    Schedule.run ColdData.write (removeWrites before s (c.levels s) (c.count s) price) c =
      let r := removeLevel before (c.levels s) (c.count s) price
      (c.setLevels s r.1).setCount s r.2.1 := by
  have hcount : c.setCount s (c.count s) = c := by cases s <;> rfl
  simp only [removeWrites, removeLevel]
  generalize search _ _ 0 (c.count s) = found
  cases found with
  | some mid =>
    simp only
    rw [Schedule.run_append, closeWrites_run]
    rfl
  | none => simp [Schedule.run, hcount]

theorem sideWrites_run (c : ColdData) (price quantity : Decimal) :
    Schedule.run ColdData.write (sideWrites before s (c.levels s) (c.count s) price quantity) c =
      let r := updateSide before (c.levels s) (c.count s) price quantity
      (c.setLevels s r.1).setCount s r.2.1 := by
  unfold sideWrites updateSide
  split_ifs
  · exact insertWrites_run before s c price quantity
  · exact removeWrites_run before s c price

end Lists

def tickWrites (w : ColdData) (tick : Tick) : List ColdWrite :=
  if tick.side = .bid then sideWrites (· > ·) .bid w.bids w.bidCount tick.price tick.quantity
  else sideWrites (· < ·) .ask w.asks w.askCount tick.price tick.quantity

theorem tickWrites_run (w : ColdData) (tick : Tick) :
    Schedule.run ColdData.write (tickWrites w tick) w = (applyTick w tick).1 := by
  rw [applyTick_side, tickWrites]
  split_ifs
  · exact sideWrites_run (· > ·) .bid w tick.price tick.quantity
  · exact sideWrites_run (· < ·) .ask w tick.price tick.quantity

end Chronos.OrderBookV2
