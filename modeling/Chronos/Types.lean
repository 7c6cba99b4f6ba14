import Chronos.Decimal

/-!
# Records exchanged between the components

Identifiers, counters and timestamps are unbounded naturals where no
component depends on their width. Fills and positions are written over an
arbitrary number type, because their arithmetic is read twice: as wrapped
fixed-point arithmetic and as exact rational arithmetic.
-/

set_option autoImplicit false

namespace Chronos

inductive OrderSide where
  | buy
  | sell
  deriving DecidableEq, Repr

inductive TickSide where
  | bid
  | ask
  | trade
  deriving DecidableEq, Repr

inductive OrderType where
  | limit
  | market
  | stopLoss
  | stopLimit
  deriving DecidableEq, Repr

inductive TimeInForce where
  | gtc
  | ioc
  | fok
  | day
  deriving DecidableEq, Repr

inductive OrderStatus where
  | pending
  | accepted
  | rejected
  | partiallyFilled
  | filled
  | cancelled
  | expired
  deriving DecidableEq, Repr

structure Tick where
  exchangeTimestampUs : ℕ := 0
  receiveTimestampUs : ℕ := 0
  exchangeId : ℕ := 0
  symbolId : ℕ := 0
  price : Decimal := 0
  quantity : Decimal := 0
  side : TickSide := .bid
  flags : ℕ := 0
  deriving DecidableEq

structure PriceLevel where
  price : Decimal := 0
  quantity : Decimal := 0
  deriving DecidableEq

instance : Inhabited PriceLevel := ⟨{}⟩

structure OrderBookSnapshot where
  symbolId : ℕ := 0
  timestampUs : ℕ := 0
  bids : List PriceLevel := []
  asks : List PriceLevel := []

structure OrderRequest where
  orderId : ℕ := 0
  timestampUs : ℕ := 0
  price : Decimal := 0
  quantity : Decimal := 0
  stopPrice : Decimal := 0
  clientOrderId : ℕ := 0
  symbolId : ℕ := 0
  exchangeId : ℕ := 0
  strategyId : ℕ := 0
  side : OrderSide := .buy
  type : OrderType := .limit
  tif : TimeInForce := .gtc
  strategyFlags : ℕ := 0
  deriving DecidableEq

structure OrderAck where
  orderId : ℕ := 0
  exchangeOrderId : ℕ := 0
  status : OrderStatus := .pending
  timestampUs : ℕ := 0

structure OrderReject where
  orderId : ℕ := 0
  reason : String := ""
  timestampUs : ℕ := 0

section Arithmetic
variable (D : Type)

structure Fill [Zero D] where
  executionId : ℕ := 0
  fillId : ℕ := 0
  orderId : ℕ := 0
  exchangeTimestampUs : ℕ := 0
  receiveTimestampUs : ℕ := 0
  fillPrice : D := 0
  fillQuantity : D := 0
  symbolId : ℕ := 0
  exchangeId : ℕ := 0
  strategyId : ℕ := 0
  side : OrderSide := .buy
  isMaker : ℕ := 0

structure Position [Zero D] where
  symbolId : ℕ := 0
  quantity : D := 0
  averagePrice : D := 0
  realizedPnl : D := 0
  lastUpdateUs : ℕ := 0
  deriving DecidableEq

end Arithmetic

section Profit
variable {D : Type} [Zero D] [Add D] [Sub D] [Mul D]

namespace Position

def getUnrealizedPnL (p : Position D) (currentPrice : D) : D :=
  p.quantity*(currentPrice-p.averagePrice)

def getTotalPnL (p : Position D) (currentPrice : D) : D :=
  p.realizedPnl+p.getUnrealizedPnL currentPrice

end Position
end Profit

end Chronos
