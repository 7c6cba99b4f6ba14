import Chronos.Types
import Chronos.OrderedLevels

/-!
# What an order book is for

A side of the book is the ladder of its best levels: one positive quantity a
price, best price first, at most twenty prices. A positive quantity sets its
price and pushes out the worst level of a full ladder; any other quantity
deletes the price. Both implementations are compared with this ladder.
-/

set_option autoImplicit false

namespace Chronos.BookLadder
open OrderedLevels

def maxDepth : ℕ := 20

inductive BookOp where
  | update (tick : Tick)
  | clear

section Side
variable (before : Decimal → Decimal → Prop) [DecidableRel before]

def settle (price quantity : Decimal) (xs : List (Decimal × Decimal)) : List (Decimal × Decimal) :=
  if 0 < quantity then (put before price quantity xs).take maxDepth else remove price xs

structure SideSound (xs : List (Decimal × Decimal)) : Prop where
  depth : xs.length ≤ maxDepth
  ordered : Ordered before xs
  positive : ∀ x ∈ xs, 0 < x.2

omit [DecidableRel before] in
theorem sound_nil : SideSound before [] := ⟨by simp,List.Pairwise.nil,by simp⟩

variable [IsStrictTotalOrder Decimal before]

theorem settle_sound (price quantity : Decimal) (xs : List (Decimal × Decimal))
    (h : SideSound before xs) : SideSound before (settle before price quantity xs) := by
  unfold settle
  split_ifs with hq
  · refine ⟨List.length_take_le _ _,(put_ordered before price quantity xs h.ordered).sublist
      (List.take_sublist _ _),fun x hx => ?_⟩
    rcases put_mem before price quantity xs x (List.mem_of_mem_take hx) with rfl | hx
    · exact hq
    · exact h.positive x hx
  · exact ⟨(List.eraseP_sublist.length_le).trans h.depth,remove_ordered before price xs h.ordered,
      fun x hx => h.positive x (List.mem_of_mem_eraseP hx)⟩

end Side

structure Ladders where
  bids : List (Decimal × Decimal) := []
  asks : List (Decimal × Decimal) := []
  deriving DecidableEq

def step : BookOp → Ladders → Ladders
  | .update t, l =>
    if t.side = .bid then { l with bids := settle (· > ·) t.price t.quantity l.bids }
    else { l with asks := settle (· < ·) t.price t.quantity l.asks }
  | .clear, _ => {}

def run : List BookOp → Ladders → Ladders
  | [], l => l
  | op::ops, l => run ops (step op l)

structure Sound (l : Ladders) : Prop where
  bids : SideSound (· > ·) l.bids
  asks : SideSound (· < ·) l.asks

theorem step_sound (op : BookOp) (l : Ladders) (h : Sound l) : Sound (step op l) := by
  cases op with
  | update t =>
    simp only [step]
    split_ifs
    · exact ⟨settle_sound _ _ _ _ h.bids,h.asks⟩
    · exact ⟨h.bids,settle_sound _ _ _ _ h.asks⟩
  | clear => exact ⟨sound_nil _,sound_nil _⟩

theorem run_sound (ops : List BookOp) (l : Ladders) (h : Sound l) : Sound (run ops l) := by
  induction ops generalizing l with
  | nil => exact h
  | cons op ops ih => exact ih (step op l) (step_sound op l h)

def toLevel (x : Decimal × Decimal) : PriceLevel := ⟨x.1,x.2⟩

namespace Ladders

def bestBid (l : Ladders) : Option Decimal := l.bids.head?.map Prod.fst

def bestAsk (l : Ladders) : Option Decimal := l.asks.head?.map Prod.fst

def quote (l : Ladders) (f : Decimal → Decimal → Decimal) : Option Decimal :=
  match l.bestBid, l.bestAsk with
  | some bid, some ask => some (f bid ask)
  | _, _ => none

end Ladders

def levelOf (xs : List (Decimal × Decimal)) (level : ℕ) : Option PriceLevel := xs[level]?.map toLevel

def levelsOf (xs : List (Decimal × Decimal)) (maxLevels : ℕ) : List PriceLevel :=
  (xs.take maxLevels).map toLevel

end Chronos.BookLadder
