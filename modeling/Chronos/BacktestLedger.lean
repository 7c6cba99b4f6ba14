import Chronos.PositionManager

/-!
# The books of a backtest

What `BacktestEngine` keeps of its simulated exchange: positions, orders that
wait for a fill, recorded trades and equity. It is written over an arbitrary
number type; which orders wait is an input here, chosen by the strategy and
the risk engine.
-/

set_option autoImplicit false

namespace Chronos
open KeyedTable

namespace Backtest

inductive FillMode where
  | immediate
  | nextTick
  | conservative
  deriving DecidableEq

/-- `PendingOrder` with the fields of its order the simulation reads. `strategyId`
is that of the request: a cancel request has none. `cancelled` is history: a
cancel request for the order was drained while it waited. -/
structure PendingOrder (D : Type) where
  orderId : ℕ
  symbolId : ℕ
  side : OrderSide
  price : D
  quantity : D
  placedAtUs : ℕ
  strategyId : ℕ
  cancelled : Bool := false

structure Trade (D : Type) where
  entryTimeUs : ℕ
  exitTimeUs : ℕ
  symbolId : ℕ
  entryPrice : D
  exitPrice : D
  quantity : D
  pnl : D
  direction : OrderSide

structure Quotes (D : Type) where
  price : D
  timestampUs : ℕ
  bestBid : Option D
  bestAsk : Option D

structure BacktestConfig (D : Type) where
  fillMode : FillMode := .nextTick
  initialCapital : D
  takerFee : Option D := none
  recordEquityEveryTick : Bool := true

/-- `fills` is history: each filled entry with its fill. -/
structure Ledger (D : Type) [Zero D] where
  positions : Table ℕ (Position D) := .empty
  pending : List (PendingOrder D) := []
  trades : List (Trade D) := []
  equity : List (ℕ × D) := []
  fills : List (PendingOrder D × Fill D) := []

section Prices
variable {D : Type} (mode : FillMode) (q : Quotes D)

def fillPrice (side : OrderSide) : D :=
  match side with
  | .buy => if mode = .conservative then q.bestAsk.getD q.price else q.bestAsk.getD q.price
  | .sell => if mode = .conservative then q.bestBid.getD q.price else q.bestBid.getD q.price

def hasLiquidity (side : OrderSide) : Bool :=
  match side with
  | .buy => q.bestAsk.isSome
  | .sell => q.bestBid.isSome

end Prices

section Opposite
variable {D : Type} (q : Quotes D)

def Quotes.opposite : OrderSide → Option D
  | .buy => q.bestAsk
  | .sell => q.bestBid

theorem hasLiquidity_opposite (side : OrderSide) : hasLiquidity q side = (q.opposite side).isSome := by
  cases side <;> rfl

theorem fillPrice_opposite (mode : FillMode) (side : OrderSide) :
    fillPrice mode q side = (q.opposite side).getD q.price := by
  cases side <;> exact ite_self _

end Opposite

section Simulation
variable {D : Type} [Zero D] [Add D] [Sub D] [Neg D] [Mul D] [Div D]
variable [LT D] [DecidableLT D] [LE D] [DecidableLE D] [DecidableEq D]
variable (cfg : BacktestConfig D) (q : Quotes D)

def currentStrategyId : ℕ := 1

def fillOf (p : PendingOrder D) : Fill D where
  orderId := p.orderId
  fillPrice := fillPrice cfg.fillMode q p.side
  fillQuantity := p.quantity
  side := p.side
  symbolId := p.symbolId
  exchangeTimestampUs := q.timestampUs
  strategyId := currentStrategyId

def tradePnl (p : PendingOrder D) (f : Fill D) : D :=
  match f.side with
  | .buy => f.fillQuantity*(f.fillPrice-p.price)
  | .sell => f.fillQuantity*(p.price-f.fillPrice)

def feeOf (rate : D) (f : Fill D) : D := f.fillPrice*f.fillQuantity*rate

def tradeOf (p : PendingOrder D) (f : Fill D) : Trade D where
  entryTimeUs := p.placedAtUs
  exitTimeUs := q.timestampUs
  symbolId := f.symbolId
  entryPrice := p.price
  exitPrice := f.fillPrice
  quantity := f.fillQuantity
  pnl := match cfg.takerFee with
    | some rate => tradePnl p f-feeOf rate f
    | none => tradePnl p f
  direction := f.side

def markPrice (pos : Position D) : D :=
  if 0 < pos.quantity ∧ q.bestBid.isSome then q.bestBid.getD q.price
  else if pos.quantity < 0 ∧ q.bestAsk.isSome then q.bestAsk.getD q.price
  else q.price

def totalPnl (positions : Table ℕ (Position D)) : D :=
  positions.entries.foldl (fun total x => total+x.2.getTotalPnL (markPrice q x.2)) 0

namespace Ledger
variable (l : Ledger D)

def fillOne (p : PendingOrder D) : Ledger D :=
  if hasLiquidity q p.side then
    { l with
      positions := (updatePositions l.positions (fillOf cfg q p)).1
      trades := l.trades++[tradeOf cfg q p (fillOf cfg q p)]
      fills := l.fills++[(p,fillOf cfg q p)] }
  else { l with pending := l.pending++[p] }

def simulateFills : Ledger D := l.pending.foldl (fillOne cfg q) { l with pending := [] }

def recordEquity (initialEquity : D) : Ledger D :=
  if cfg.recordEquityEveryTick then
    { l with equity := l.equity++[(q.timestampUs,initialEquity+totalPnl q l.positions)] }
  else l

def settle (initialEquity : D) : Ledger D := (l.simulateFills cfg q).recordEquity cfg q initialEquity

def tick (initialEquity : D) (input : Quotes D × List (PendingOrder D)) : Ledger D :=
  ({ l with pending := input.2 }).settle cfg input.1 initialEquity

def run (initialEquity : D) (inputs : List (Quotes D × List (PendingOrder D))) : Ledger D :=
  inputs.foldl (fun l input => l.tick cfg initialEquity input) { equity := [(0,initialEquity)] }

end Ledger
end Simulation

section NewFills
variable {D : Type} [Zero D] (cfg : BacktestConfig D) (q : Quotes D)

def newFills (pending : List (PendingOrder D)) : List (PendingOrder D × Fill D) :=
  (pending.filter (fun p => hasLiquidity q p.side)).map (fun p => (p,fillOf cfg q p))

theorem newFills_cons (p : PendingOrder D) (ps : List (PendingOrder D)) :
    newFills cfg q (p::ps) =
      (if hasLiquidity q p.side then [(p,fillOf cfg q p)] else [])++newFills cfg q ps := by
  rw [newFills, List.filter_cons]
  split_ifs <;> rfl

end NewFills

section Simulated
variable {D : Type} [Zero D] [Add D] [Sub D] [Neg D] [Mul D] [Div D]
variable [LT D] [DecidableLT D] [LE D] [DecidableLE D] [DecidableEq D]
variable (cfg : BacktestConfig D) (q : Quotes D)

theorem foldl_fillOne (ps : List (PendingOrder D)) (l : Ledger D) :
    ps.foldl (Ledger.fillOne cfg q) l = { l with
      positions := fillPositions ((newFills cfg q ps).map Prod.snd) l.positions
      trades := l.trades++(newFills cfg q ps).map (fun x => tradeOf cfg q x.1 x.2)
      fills := l.fills++newFills cfg q ps
      pending := l.pending++ps.filter (fun p => !hasLiquidity q p.side) } := by
  induction ps generalizing l with
  | nil => simp only [List.foldl_nil, newFills, List.filter_nil, List.map_nil, fillPositions,
      List.append_nil]
  | cons p ps ih =>
    rw [List.foldl_cons, ih, newFills_cons, Ledger.fillOne]
    cases h : hasLiquidity q p.side with
    | true =>
      simp only [if_true, List.singleton_append, List.map_cons, fillPositions, List.append_assoc,
        List.filter_cons, h, Bool.not_true, Bool.false_eq_true, if_false]
    | false =>
      simp only [Bool.false_eq_true, if_false, List.nil_append, List.append_assoc,
        List.singleton_append, List.filter_cons, h, Bool.not_false, if_true]

theorem simulateFills_eq (l : Ledger D) :
    l.simulateFills cfg q = { l with
      positions := fillPositions ((newFills cfg q l.pending).map Prod.snd) l.positions
      trades := l.trades++(newFills cfg q l.pending).map (fun x => tradeOf cfg q x.1 x.2)
      fills := l.fills++newFills cfg q l.pending
      pending := l.pending.filter (fun p => !hasLiquidity q p.side) } :=
  foldl_fillOne cfg q l.pending { l with pending := [] }

end Simulated
end Backtest
end Chronos
