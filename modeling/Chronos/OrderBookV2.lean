import Chronos.BookLadder
import Chronos.SearchedArray

/-!
# The array-based order book

`OrderBookV2` keeps two copies of a twenty-level buffer and a five-level hot
copy. A write goes to the dark buffer, which then becomes the active one and
is copied back over the other. The hot copy is rebuilt only when the position
an update reports lies in the top five. The functions follow a single thread;
a reader that finds an odd version there spins for ever, which is `none`.
-/

set_option autoImplicit false

namespace Chronos
open BookLadder SearchedArray

namespace OrderBookV2

def hotDepth : ℕ := 5

abbrev Level := PriceLevel

def isValid (l : Level) : Bool := 0 < l.quantity

structure HotData where
  bidPrices : Vector Decimal hotDepth := .replicate hotDepth 0
  bidQuantities : Vector Decimal hotDepth := .replicate hotDepth 0
  askPrices : Vector Decimal hotDepth := .replicate hotDepth 0
  askQuantities : Vector Decimal hotDepth := .replicate hotDepth 0
  version : ℕ := 0
  lastUpdateTime : ℕ := 0
  bidCount : ℕ := 0
  askCount : ℕ := 0

structure ColdData where
  bids : Vector Level maxDepth := .replicate maxDepth {}
  asks : Vector Level maxDepth := .replicate maxDepth {}
  bidCount : ℕ := 0
  askCount : ℕ := 0
  lastUpdateTime : ℕ := 0

def ColdData.clear (c : ColdData) : ColdData := { lastUpdateTime := c.lastUpdateTime }

end OrderBookV2

structure OrderBookV2 where
  hotData : OrderBookV2.HotData := {}
  coldBuffers : Fin 2 → OrderBookV2.ColdData := fun _ => {}
  activeColdBuffer : Fin 2 := 0
  writeBufferIndex : Fin 2 := 0
  hotDataDirty : Bool := false
  totalUpdates : ℕ := 0
  bufferSwaps : ℕ := 0

namespace OrderBookV2

section Levels
variable (before : Decimal → Decimal → Prop) [DecidableRel before]

def shiftAndInsert (levels : Vector Level maxDepth) (count pos : ℕ) (price quantity : Decimal) :
    Vector Level maxDepth × ℕ × ℤ :=
  ((openSlot pos count levels).setIfInBounds pos ⟨price,quantity⟩,count+1,pos)

/-- `insertBidLevel` and `insertAskLevel` differ in the comparison only. The
result is the array, its count and the affected position, or -1. -/
def insertLevel (levels : Vector Level maxDepth) (count : ℕ) (price quantity : Decimal) :
    Vector Level maxDepth × ℕ × ℤ :=
  let lo := lowerBound (fun mid => before (levels.getD mid default).price price) 0 count
  if lo < count ∧ (levels.getD lo default).price = price then
    (levels.setIfInBounds lo { levels.getD lo default with quantity := quantity },count,lo)
  else if maxDepth ≤ count then
    if maxDepth ≤ lo then (levels,count,-1)
    else shiftAndInsert levels (maxDepth-1) lo price quantity
  else shiftAndInsert levels count lo price quantity

def removeLevel (levels : Vector Level maxDepth) (count : ℕ) (price : Decimal) :
    Vector Level maxDepth × ℕ × ℤ :=
  match search (fun mid => before (levels.getD mid default).price price)
      (fun mid => before price (levels.getD mid default).price) 0 count with
  | some mid => (closeSlot (count-1-mid) mid levels,count-1,mid)
  | none => (levels,count,-1)

end Levels

def insertBidLevel := insertLevel (· > ·)
def insertAskLevel := insertLevel (· < ·)
def removeBidLevel := removeLevel (· > ·)
def removeAskLevel := removeLevel (· < ·)

def getWriteBuffer (b : OrderBookV2) : ColdData := b.coldBuffers b.writeBufferIndex

def getReadBuffer (b : OrderBookV2) : ColdData := b.coldBuffers b.activeColdBuffer

def setWriteBuffer (b : OrderBookV2) (c : ColdData) : OrderBookV2 :=
  { b with coldBuffers := Function.update b.coldBuffers b.writeBufferIndex c }

def applyTick (w : ColdData) (tick : Tick) : ColdData × ℤ :=
  if tick.side = .bid then
    let (levels,count,pos) :=
      if 0 < tick.quantity then insertBidLevel w.bids w.bidCount tick.price tick.quantity
      else removeBidLevel w.bids w.bidCount tick.price
    ({ w with bids := levels, bidCount := count },pos)
  else
    let (levels,count,pos) :=
      if 0 < tick.quantity then insertAskLevel w.asks w.askCount tick.price tick.quantity
      else removeAskLevel w.asks w.askCount tick.price
    ({ w with asks := levels, askCount := count },pos)

def updateLevels (b : OrderBookV2) (tick : Tick) : OrderBookV2 :=
  let (w,affectedPos) := applyTick b.getWriteBuffer tick
  { b.setWriteBuffer { w with lastUpdateTime := tick.receiveTimestampUs } with
    hotDataDirty := 0 ≤ affectedPos && affectedPos < hotDepth }

def bump (version : ℕ) : ℕ := (version+1) % 2^64

def copyTop (h : HotData) (w : ColdData) : HotData :=
  let bids := min hotDepth w.bidCount
  let asks := min hotDepth w.askCount
  { bidCount := bids
    bidPrices := copyFirst (fun i => (w.bids.getD i default).price) bids h.bidPrices
    bidQuantities := copyFirst (fun i => (w.bids.getD i default).quantity) bids h.bidQuantities
    askCount := asks
    askPrices := copyFirst (fun i => (w.asks.getD i default).price) asks h.askPrices
    askQuantities := copyFirst (fun i => (w.asks.getD i default).quantity) asks h.askQuantities
    lastUpdateTime := w.lastUpdateTime
    version := h.version }

def rebuildHotData (b : OrderBookV2) : OrderBookV2 :=
  if b.hotDataDirty then
    let h := { b.hotData with version := bump b.hotData.version }
    let h := copyTop h b.getWriteBuffer
    { b with hotDataDirty := false, hotData := { h with version := bump h.version } }
  else b

def swapColdBuffers (b : OrderBookV2) : OrderBookV2 :=
  let index := 1-b.writeBufferIndex
  let newActive := 1-index
  { b with
    writeBufferIndex := index
    activeColdBuffer := newActive
    coldBuffers := Function.update b.coldBuffers index (b.coldBuffers newActive)
    bufferSwaps := b.bufferSwaps+1 }

def update (b : OrderBookV2) (tick : Tick) : OrderBookV2 :=
  let b := ((b.updateLevels tick).rebuildHotData).swapColdBuffers
  { b with totalUpdates := b.totalUpdates+1 }

def clear (b : OrderBookV2) : OrderBookV2 :=
  let b := b.setWriteBuffer b.getWriteBuffer.clear
  let h : HotData := { lastUpdateTime := b.hotData.lastUpdateTime
                       version := bump (bump b.hotData.version) }
  swapColdBuffers { b with hotData := h }

def readHotDataOptimistic {α : Type} (b : OrderBookV2) (func : HotData → α) : Option α :=
  if b.hotData.version % 2 = 1 then none else some (func b.hotData)

def getBestBid (b : OrderBookV2) : Option (Option Decimal) :=
  b.readHotDataOptimistic (fun d => if 0 < d.bidCount then some (d.bidPrices.getD 0 0) else none)

def getBestAsk (b : OrderBookV2) : Option (Option Decimal) :=
  b.readHotDataOptimistic (fun d => if 0 < d.askCount then some (d.askPrices.getD 0 0) else none)

def getMidPrice [NearestDivision.NearestDiv] (b : OrderBookV2) : Option (Option Decimal) :=
  b.readHotDataOptimistic (fun d => if 0 < d.bidCount ∧ 0 < d.askCount then
    some ((d.bidPrices.getD 0 0+d.askPrices.getD 0 0)/Decimal.ofInt 2) else none)

def getSpread (b : OrderBookV2) : Option (Option Decimal) :=
  b.readHotDataOptimistic (fun d => if 0 < d.bidCount ∧ 0 < d.askCount then
    some (d.askPrices.getD 0 0-d.bidPrices.getD 0 0) else none)

def topFive (prices quantities : Vector Decimal hotDepth) (count : ℕ) : Vector PriceLevel hotDepth :=
  Vector.ofFn (fun i : Fin hotDepth =>
    if i < count then ⟨prices.getD i 0,quantities.getD i 0⟩ else {})

def getTop5Bids (b : OrderBookV2) : Option (Vector PriceLevel hotDepth) :=
  b.readHotDataOptimistic (fun d => topFive d.bidPrices d.bidQuantities d.bidCount)

def getTop5Asks (b : OrderBookV2) : Option (Vector PriceLevel hotDepth) :=
  b.readHotDataOptimistic (fun d => topFive d.askPrices d.askQuantities d.askCount)

def levelAt (levels : Vector Level maxDepth) (count level : ℕ) : Option PriceLevel :=
  if maxDepth ≤ level then none
  else if level < count then some (levels.getD level default) else none

def validLevels (levels : Vector Level maxDepth) (count : ℕ) : List PriceLevel :=
  (List.range count).filterMap (fun i =>
    if isValid (levels.getD i default) then some (levels.getD i default) else none)

def levelsFast (levels : Vector Level maxDepth) (count : ℕ) : Vector PriceLevel maxDepth × ℕ :=
  (copyFirst (fun i => levels.getD i default) count (.replicate maxDepth {}),count)

def getBidLevel (b : OrderBookV2) (level : ℕ) : Option PriceLevel :=
  levelAt b.getReadBuffer.bids b.getReadBuffer.bidCount level

def getAskLevel (b : OrderBookV2) (level : ℕ) : Option PriceLevel :=
  levelAt b.getReadBuffer.asks b.getReadBuffer.askCount level

def getBidLevels (b : OrderBookV2) (maxLevels : ℕ) : List PriceLevel :=
  validLevels b.getReadBuffer.bids (min maxLevels b.getReadBuffer.bidCount)

def getAskLevels (b : OrderBookV2) (maxLevels : ℕ) : List PriceLevel :=
  validLevels b.getReadBuffer.asks (min maxLevels b.getReadBuffer.askCount)

def getBidLevelsFast (b : OrderBookV2) : Vector PriceLevel maxDepth × ℕ :=
  levelsFast b.getReadBuffer.bids b.getReadBuffer.bidCount

def getAskLevelsFast (b : OrderBookV2) : Vector PriceLevel maxDepth × ℕ :=
  levelsFast b.getReadBuffer.asks b.getReadBuffer.askCount

def generateSnapshot (b : OrderBookV2) : OrderBookSnapshot where
  timestampUs := b.getReadBuffer.lastUpdateTime
  bids := validLevels b.getReadBuffer.bids b.getReadBuffer.bidCount
  asks := validLevels b.getReadBuffer.asks b.getReadBuffer.askCount

def empty (b : OrderBookV2) : Bool := b.getReadBuffer.bidCount = 0 && b.getReadBuffer.askCount = 0

def getLastUpdateTime (b : OrderBookV2) : ℕ := b.hotData.lastUpdateTime

def apply (b : OrderBookV2) : BookOp → OrderBookV2
  | .update t => b.update t
  | .clear => b.clear

def run : List BookOp → OrderBookV2 → OrderBookV2
  | [], b => b
  | op::ops, b => run ops (b.apply op)

def after (ops : List BookOp) : OrderBookV2 := run ops {}

abbrev new : OrderBookV2 := {}

def otherBuffer (index : Fin 2) : Fin 2 := 1-index

end OrderBookV2
end Chronos
