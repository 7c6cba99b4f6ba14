import Chronos.Types

/-!
# Orders as text

The wire messages of the simulated path and the fields of a real order.
`std::to_string` of a double prints six fraction digits of the double nearest
to the fixed-point value, both roundings to even on ties.
-/

set_option autoImplicit false

namespace Chronos.OrderEncoding

def nearestEven (n d : ℕ) : ℕ :=
  if 2*(n%d) < d then n/d
  else if d < 2*(n%d) then n/d+1
  else n/d+n/d%2

/-- The magnitude a double keeps of a raw value: 53 significant bits. -/
def toDouble (raw : ℕ) : ℕ := nearestEven raw (2^(Nat.log2 raw-52))*2^(Nat.log2 raw-52)

def padSix (digits : String) : String := String.ofList (List.replicate (6-digits.length) '0')++digits

def numberText (value : Decimal) : String :=
  let millionths := nearestEven (toDouble value.raw.natAbs*10^6) (2^32)
  (if value.raw < 0 then "-" else "")++Nat.repr (millionths/10^6)++"."++padSix (Nat.repr (millionths%10^6))

def numberValue (value : Decimal) : ℚ :=
  (if value.raw < 0 then -1 else 1)*nearestEven (toDouble value.raw.natAbs*10^6) (2^32)/10^6

def sideNumber : OrderSide → ℕ
  | .buy => 0
  | .sell => 1

def typeNumber : OrderType → ℕ
  | .limit => 0
  | .market => 1
  | .stopLoss => 2
  | .stopLimit => 3

def encodeOrder (order : OrderRequest) : String :=
  "NEW|"++Nat.repr order.orderId++"|"++Nat.repr order.symbolId++"|"++numberText order.price++"|"
    ++numberText order.quantity++"|"++Nat.repr (sideNumber order.side)++"|"
    ++Nat.repr (typeNumber order.type)

def encodeCancel (orderId : ℕ) : String := "CANCEL|"++Nat.repr orderId

def encodeModify (orderId : ℕ) (newPrice newQuantity : Decimal) : String :=
  "MODIFY|"++Nat.repr orderId++"|"++numberText newPrice++"|"++numberText newQuantity

structure PlaceRequest where
  symbol : String
  side : String
  quantity : String
  price : String
  clientOrderId : String
  deriving DecidableEq

def encodeOrderJson (symbol : String) (order : OrderRequest) (nowUs : ℕ) : Option PlaceRequest :=
  if symbol = "" then none
  else some {
    symbol := symbol
    side := if order.side = .buy then "BUY" else "SELL"
    quantity := numberText order.quantity
    price := numberText order.price
    clientOrderId := Nat.repr order.orderId++"_"++Nat.repr nowUs }

end Chronos.OrderEncoding
