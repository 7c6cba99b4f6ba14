import Chronos.Types
import Chronos.KeyedTable

/-!
# Positions and the cached portfolio value

`updatePosition` has six exits: a zero fill is ignored, an unknown symbol is
created, a flat position is re-opened, and an open one is increased, reduced
or flipped. The position arithmetic is written over an arbitrary number type.
The cached total is a sum of raw products with a hand-written saturating
addition and belongs to the fixed-point reading only.
-/

set_option autoImplicit false

namespace Chronos
open KeyedTable

section Arithmetic
variable {D : Type} [Zero D] [Add D] [Sub D] [Neg D] [Mul D] [Div D]
variable [LT D] [DecidableLT D] [LE D] [DecidableLE D] [DecidableEq D]

/-- `v < Decimal(0) ? -v : v` -/
def magnitude (v : D) : D := if v < 0 then -v else v

def signOf (v : D) : ℤ := if 0 < v then 1 else if v < 0 then -1 else 0

def calcWeightedAverage (oldQty oldAvg fillQty fillPrice : D) : D :=
  let oldAbs := magnitude oldQty
  let newAbs := oldAbs+fillQty
  if newAbs = 0 then 0 else (oldAbs*oldAvg+fillQty*fillPrice)/newAbs

def calcRealizedPnLOnReduce (pos : Position D) (fillPrice reducedAbs : D) : D :=
  if 0 < pos.quantity then reducedAbs*(fillPrice-pos.averagePrice)
  else reducedAbs*(pos.averagePrice-fillPrice)

def signedQuantity (fill : Fill D) : D :=
  match fill.side with
  | .sell => -fill.fillQuantity
  | .buy => fill.fillQuantity

def createPosition (fill : Fill D) : Position D where
  symbolId := fill.symbolId
  quantity := signedQuantity fill
  averagePrice := fill.fillPrice
  realizedPnl := 0
  lastUpdateUs := fill.receiveTimestampUs

def reopenPosition (pos : Position D) (fill : Fill D) : Position D :=
  { pos with
    quantity := signedQuantity fill
    averagePrice := fill.fillPrice
    lastUpdateUs := fill.receiveTimestampUs }

def increasePosition (pos : Position D) (fill : Fill D) : Position D :=
  { pos with
    quantity := pos.quantity+signedQuantity fill
    averagePrice := calcWeightedAverage pos.quantity pos.averagePrice fill.fillQuantity fill.fillPrice
    lastUpdateUs := fill.receiveTimestampUs }

def reducePosition (pos : Position D) (fill : Fill D) : Position D :=
  let quantity := pos.quantity+signedQuantity fill
  { pos with
    realizedPnl := pos.realizedPnl+
      calcRealizedPnLOnReduce pos fill.fillPrice (magnitude (signedQuantity fill))
    quantity := quantity
    averagePrice := if quantity = 0 then 0 else pos.averagePrice
    lastUpdateUs := fill.receiveTimestampUs }

def flipPosition (pos : Position D) (fill : Fill D) : Position D :=
  let remaining := magnitude (signedQuantity fill)-magnitude pos.quantity
  { pos with
    realizedPnl := pos.realizedPnl+
      calcRealizedPnLOnReduce pos fill.fillPrice (magnitude pos.quantity)
    quantity := if 0 < signOf (signedQuantity fill) then remaining else -remaining
    averagePrice := fill.fillPrice
    lastUpdateUs := fill.receiveTimestampUs }

def movePosition (pos : Position D) (fill : Fill D) : Position D :=
  if signOf pos.quantity = 0 then reopenPosition pos fill
  else if signOf pos.quantity = signOf (signedQuantity fill) then increasePosition pos fill
  else if magnitude (signedQuantity fill) ≤ magnitude pos.quantity then reducePosition pos fill
  else flipPosition pos fill

/-- The part of `updatePosition` that concerns `positions_`, with the position
it returns a pointer to. -/
def updatePositions (positions : Table ℕ (Position D)) (fill : Fill D) :
    Table ℕ (Position D) × Option (Position D) :=
  if fill.fillQuantity = 0 then (positions,none)
  else
    let p := match positions.find fill.symbolId with
      | none => createPosition fill
      | some pos => movePosition pos fill
    (positions.assign fill.symbolId p,some p)

def fillPositions : List (Fill D) → Table ℕ (Position D) → Table ℕ (Position D)
  | [], t => t
  | f::fs, t => fillPositions fs (updatePositions t f).1

end Arithmetic

structure PositionManager where
  positions : Table ℕ (Position Decimal) := .empty
  totalValueRaw : ℤ := 0

namespace PositionManager

def int64Max : ℤ := 2^63-1
def int64Min : ℤ := -2^63

def saturatingAdd (raw add : ℤ) : ℤ :=
  if 0 < add ∧ int64Max-add < raw then int64Max
  else if add < 0 ∧ raw < int64Min-add then int64Min
  else raw+add

section Value
variable [NearestDivision.NearestDiv]

def notional (pos : Position Decimal) : Decimal := magnitude pos.quantity*pos.averagePrice

def recalcRaw : List (ℕ × Position Decimal) → ℤ → ℤ
  | [], raw => raw
  | x::xs, raw => recalcRaw xs
      (if x.2.quantity = 0 then raw else saturatingAdd raw (notional x.2).raw)

def recalcTotalValue (pm : PositionManager) : PositionManager :=
  { pm with totalValueRaw := recalcRaw pm.positions.entries 0 }

def markPrice (currentPrices : Table ℕ Decimal) (symbolId : ℕ) (pos : Position Decimal) : Decimal :=
  match currentPrices.find symbolId with
  | some price => if 0 < price then price else pos.averagePrice
  | none => pos.averagePrice

def addValues (currentPrices : Table ℕ Decimal) : List (ℕ × Position Decimal) → Decimal → Decimal
  | [], total => total
  | x::xs, total => addValues currentPrices xs
      (if x.2.quantity = 0 then total
        else total+magnitude x.2.quantity*markPrice currentPrices x.1 x.2)

def getTotalValue (pm : PositionManager) (currentPrices : Table ℕ Decimal) : Decimal :=
  addValues currentPrices pm.positions.entries 0

def updatePosition (pm : PositionManager) (fill : Fill Decimal) :
    PositionManager × Option (Position Decimal) :=
  if fill.fillQuantity = 0 then (pm,none)
  else
    let (positions,p) := updatePositions pm.positions fill
    (recalcTotalValue { pm with positions := positions },p)

def run : List (Fill Decimal) → PositionManager → PositionManager
  | [], pm => pm
  | f::fs, pm => run fs (pm.updatePosition f).1

end Value

def getPosition (pm : PositionManager) (symbolId : ℕ) : Option (Position Decimal) :=
  pm.positions.find symbolId

def getTotalValueCached (pm : PositionManager) : Decimal := Decimal.wrap pm.totalValueRaw

def clear (_ : PositionManager) : PositionManager := {}

def size (pm : PositionManager) : ℕ := (pm.positions.entries.filter (fun x => x.2.quantity ≠ 0)).length

/-- `existing ? existing->quantity : Decimal(0)` -/
def quantityOf (pm : PositionManager) (symbolId : ℕ) : Decimal :=
  match pm.getPosition symbolId with
  | some p => p.quantity
  | none => 0

end PositionManager
end Chronos
