import Chronos.BookLadder

/-!
# The map-based order book

`OrderBook` keeps each side in an ordered map and a copy of the best level of
each side. The copy is refreshed on every update, before the depth is
trimmed. The functions below follow a single thread, in which the locks are
free and no write is ever seen half done. Counters of reads and latencies,
which no function of the book consults, are left out.
-/

set_option autoImplicit false

namespace Chronos
open OrderedLevels BookLadder

namespace OrderBook

structure HotData where
  bestBidPrice : Decimal := 0
  bestBidQuantity : Decimal := 0
  bestAskPrice : Decimal := 0
  bestAskQuantity : Decimal := 0
  lastUpdateTime : ℕ := 0
  version : ℕ := 0
  hasBids : Bool := false
  hasAsks : Bool := false

structure Statistics where
  totalUpdates : ℕ := 0
  bidUpdates : ℕ := 0
  askUpdates : ℕ := 0
  levelAdditions : ℕ := 0
  levelRemovals : ℕ := 0

structure ColdData where
  bids : SortedMap (K := Decimal) (· > ·) Decimal := .empty
  asks : SortedMap (K := Decimal) (· < ·) Decimal := .empty
  statistics : Statistics := {}

end OrderBook

structure OrderBook where
  hotData : OrderBook.HotData := {}
  coldData : OrderBook.ColdData := {}

namespace OrderBook

section Side
variable {before : Decimal → Decimal → Prop} [DecidableRel before]

def updateLevel [IsStrictTotalOrder Decimal before] (m : SortedMap before Decimal)
    (s : Statistics) (price quantity : Decimal) : SortedMap before Decimal × Statistics :=
  if 0 < quantity then
    (m.assign price quantity,
      if (m.find price).isNone then { s with levelAdditions := s.levelAdditions+1 } else s)
  else if (m.find price).isSome then
    (m.erase price,{ s with levelRemovals := s.levelRemovals+1 })
  else (m,s)

/-- `while (size() > MAX_DEPTH) erase(--end())` -/
def trim (m : SortedMap before Decimal) : SortedMap before Decimal :=
  if maxDepth < m.size then trim m.eraseLast else m
  termination_by m.size
  decreasing_by simp only [SortedMap.size, SortedMap.eraseLast, List.length_dropLast] at *; omega

/-- `for (entry : map) { if (count >= max_levels) break; ...; count++; }` -/
def collect (maxLevels : ℕ) : ℕ → List (Decimal × Decimal) → List PriceLevel
  | _, [] => []
  | count, x::xs => if maxLevels ≤ count then [] else toLevel x::collect maxLevels (count+1) xs

def levelAt (m : SortedMap before Decimal) (level : ℕ) : Option PriceLevel :=
  if m.size ≤ level then none else m.entries[level]?.map toLevel

end Side

def updateBidLevel (b : OrderBook) (price quantity : Decimal) : OrderBook :=
  let (m,s) := updateLevel b.coldData.bids b.coldData.statistics price quantity
  { b with coldData := { b.coldData with bids := m, statistics := s } }

def updateAskLevel (b : OrderBook) (price quantity : Decimal) : OrderBook :=
  let (m,s) := updateLevel b.coldData.asks b.coldData.statistics price quantity
  { b with coldData := { b.coldData with asks := m, statistics := s } }

def bump (version : ℕ) : ℕ := (version+1) % 2^64

def updateHotData (b : OrderBook) (receiveTimestampUs : ℕ) : OrderBook :=
  let h := { b.hotData with version := bump b.hotData.version }
  let h := match b.coldData.bids.entries with
    | x::_ => { h with bestBidPrice := x.1, bestBidQuantity := x.2, hasBids := true }
    | [] => { h with hasBids := false }
  let h := match b.coldData.asks.entries with
    | x::_ => { h with bestAskPrice := x.1, bestAskQuantity := x.2, hasAsks := true }
    | [] => { h with hasAsks := false }
  { b with hotData := { h with lastUpdateTime := receiveTimestampUs, version := bump h.version } }

def trimDepth (b : OrderBook) : OrderBook :=
  { b with coldData := { b.coldData with
      bids := trim b.coldData.bids, asks := trim b.coldData.asks } }

def countUpdate (b : OrderBook) (isBid : Bool) : OrderBook :=
  let s := b.coldData.statistics
  let s := { s with totalUpdates := s.totalUpdates+1 }
  let s := if isBid then { s with bidUpdates := s.bidUpdates+1 }
    else { s with askUpdates := s.askUpdates+1 }
  { b with coldData := { b.coldData with statistics := s } }

def update (b : OrderBook) (tick : Tick) : OrderBook :=
  let isBid : Bool := tick.side = .bid
  let b := if isBid then b.updateBidLevel tick.price tick.quantity
    else b.updateAskLevel tick.price tick.quantity
  ((b.updateHotData tick.receiveTimestampUs).trimDepth).countUpdate isBid

def clear (b : OrderBook) : OrderBook where
  coldData := { b.coldData with bids := .empty, asks := .empty }
  hotData := { b.hotData with
    hasBids := false, hasAsks := false, bestBidPrice := 0, bestBidQuantity := 0,
    bestAskPrice := 0, bestAskQuantity := 0, version := bump (bump b.hotData.version) }

def assignAll {before : Decimal → Decimal → Prop} [DecidableRel before]
    [IsStrictTotalOrder Decimal before] (ls : List PriceLevel) : SortedMap before Decimal :=
  ls.foldl (fun m l => m.assign l.price l.quantity) .empty

def rebuildFromSnapshot (b : OrderBook) (s : OrderBookSnapshot) (nowUs : ℕ) : OrderBook :=
  updateHotData { b with coldData := { b.coldData with
    bids := assignAll s.bids, asks := assignAll s.asks } } nowUs

/-- With no other thread the version cannot change between the two loads. An
odd version would use up the retries and then be read all the same. -/
def readHotDataOptimistic {α : Type} (b : OrderBook) (func : HotData → α) : ℕ → α
  | 0 => func b.hotData
  | retries+1 => if b.hotData.version % 2 = 1 then b.readHotDataOptimistic func retries
      else func b.hotData

def maxRetries : ℕ := 100

def getBestBid (b : OrderBook) : Option Decimal :=
  b.readHotDataOptimistic (fun d => if d.hasBids then some d.bestBidPrice else none) maxRetries

def getBestAsk (b : OrderBook) : Option Decimal :=
  b.readHotDataOptimistic (fun d => if d.hasAsks then some d.bestAskPrice else none) maxRetries

def getMidPrice [NearestDivision.NearestDiv] (b : OrderBook) : Option Decimal :=
  b.readHotDataOptimistic (fun d => if d.hasBids && d.hasAsks then
    some ((d.bestBidPrice+d.bestAskPrice)/Decimal.ofInt 2) else none) maxRetries

def getSpread (b : OrderBook) : Option Decimal :=
  b.readHotDataOptimistic (fun d => if d.hasBids && d.hasAsks then
    some (d.bestAskPrice-d.bestBidPrice) else none) maxRetries

def getBidLevel (b : OrderBook) (level : ℕ) : Option PriceLevel := levelAt b.coldData.bids level

def getAskLevel (b : OrderBook) (level : ℕ) : Option PriceLevel := levelAt b.coldData.asks level

def getBidLevels (b : OrderBook) (maxLevels : ℕ) : List PriceLevel :=
  collect maxLevels 0 b.coldData.bids.entries

def getAskLevels (b : OrderBook) (maxLevels : ℕ) : List PriceLevel :=
  collect maxLevels 0 b.coldData.asks.entries

def generateSnapshot (b : OrderBook) : OrderBookSnapshot where
  timestampUs := b.hotData.lastUpdateTime
  bids := b.coldData.bids.entries.map toLevel
  asks := b.coldData.asks.entries.map toLevel

def empty (b : OrderBook) : Bool := b.coldData.bids.entries.isEmpty && b.coldData.asks.entries.isEmpty

def getLastUpdateTime (b : OrderBook) : ℕ := b.hotData.lastUpdateTime

def apply (b : OrderBook) : BookOp → OrderBook
  | .update t => b.update t
  | .clear => b.clear

def run : List BookOp → OrderBook → OrderBook
  | [], b => b
  | op::ops, b => run ops (b.apply op)

end OrderBook
end Chronos
