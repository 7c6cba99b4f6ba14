import Chronos.OptimisticRead
import Chronos.OrderBookV2Program

/-!
# The queries of the order book, one load at a time

A hot query is the function handed to `readHotDataOptimistic`, a cold query
the traversal of the buffer behind the active pointer. Loops that test a
count in their condition load it again on every turn. On data that stays as
it is each reading gives the answer of the sequential query.
-/

set_option autoImplicit false

namespace Chronos.OrderBookV2
open BookLadder SearchedArray OptimisticRead

inductive HotQuery where
  | bestBid
  | bestAsk
  | midPrice
  | spread
  | top5Bids
  | top5Asks
  deriving DecidableEq

inductive HotAnswer where
  | value (v : Option Decimal)
  | levels (l : Vector PriceLevel hotDepth)
  deriving DecidableEq

inductive ColdQuery where
  | bidLevels (maxLevels : ℕ)
  | askLevels (maxLevels : ℕ)
  | bidLevelsFast
  | askLevelsFast
  | snapshot
  deriving DecidableEq

inductive ColdAnswer where
  | levels (l : List PriceLevel)
  | fast (l : Vector PriceLevel maxDepth) (count : ℕ)
  | snapshot (s : OrderBookSnapshot)

section Hot
variable [NearestDivision.NearestDiv]

def HotQuery.eval (d : HotData) : HotQuery → HotAnswer
  | .bestBid => .value (if 0 < d.bidCount then some (d.bidPrices.getD 0 0) else none)
  | .bestAsk => .value (if 0 < d.askCount then some (d.askPrices.getD 0 0) else none)
  | .midPrice => .value (if 0 < d.bidCount ∧ 0 < d.askCount then
      some ((d.bidPrices.getD 0 0+d.askPrices.getD 0 0)/Decimal.ofInt 2) else none)
  | .spread => .value (if 0 < d.bidCount ∧ 0 < d.askCount then
      some (d.askPrices.getD 0 0-d.bidPrices.getD 0 0) else none)
  | .top5Bids => .levels (topFive d.bidPrices d.bidQuantities d.bidCount)
  | .top5Asks => .levels (topFive d.askPrices d.askQuantities d.askCount)

def bestReading (count : HotData → ℕ) (prices : HotData → Vector Decimal hotDepth) :
    Reading HotData HotAnswer :=
  .load fun d => if 0 < count d then .load fun d => .done (.value (some ((prices d).getD 0 0)))
    else .done (.value none)

def quoteReading (f : Decimal → Decimal → Decimal) : Reading HotData HotAnswer :=
  .load fun d => if 0 < d.bidCount then
      .load fun d => if 0 < d.askCount then
          .load fun d => let bid := d.bidPrices.getD 0 0
          .load fun d => .done (.value (some (f bid (d.askPrices.getD 0 0))))
        else .done (.value none)
    else .done (.value none)

def topReading (count : HotData → ℕ) (prices quantities : HotData → Vector Decimal hotDepth) :
    ℕ → ℕ → Vector PriceLevel hotDepth → Reading HotData HotAnswer
  | 0, _, levels => .done (.levels levels)
  | k+1, i, levels =>
    .load fun d => if i < count d then
        .load fun d => let price := (prices d).getD i 0
        .load fun d =>
          topReading count prices quantities k (i+1)
            (levels.setIfInBounds i ⟨price,(quantities d).getD i 0⟩)
      else topReading count prices quantities k (i+1) (levels.setIfInBounds i {})

def HotQuery.reading : HotQuery → Reading HotData HotAnswer
  | .bestBid => bestReading HotData.bidCount HotData.bidPrices
  | .bestAsk => bestReading HotData.askCount HotData.askPrices
  | .midPrice => quoteReading (fun bid ask => (bid+ask)/Decimal.ofInt 2)
  | .spread => quoteReading (fun bid ask => ask-bid)
  | .top5Bids =>
    topReading HotData.bidCount HotData.bidPrices HotData.bidQuantities hotDepth 0
      (.replicate hotDepth {})
  | .top5Asks =>
    topReading HotData.askCount HotData.askPrices HotData.askQuantities hotDepth 0
      (.replicate hotDepth {})

omit [NearestDivision.NearestDiv] in
theorem topReading_result (count : HotData → ℕ) (prices quantities : HotData → Vector Decimal hotDepth)
    (d : HotData) (levels : Vector PriceLevel hotDepth) :
    (topReading count prices quantities hotDepth 0 levels).result d =
      .levels (topFive (prices d) (quantities d) (count d)) := by
  have hone : ∀ k i ls, (topReading count prices quantities (k+1) i ls).result d =
      (topReading count prices quantities k (i+1) (ls.setIfInBounds i
        (if i < count d then ⟨(prices d).getD i 0,(quantities d).getD i 0⟩ else {}))).result d := by
    intro k i ls
    rw [topReading, Reading.result_load]
    split_ifs <;> rfl
  have hlevels : (topReading count prices quantities hotDepth 0 levels).result d =
      .levels (copyFirst (fun i =>
        if i < count d then ⟨(prices d).getD i 0,(quantities d).getD i 0⟩ else {}) hotDepth levels) :=
    (hone 4 0 _).trans ((hone 3 1 _).trans ((hone 2 2 _).trans ((hone 1 3 _).trans (hone 0 4 _))))
  rw [hlevels]
  refine congrArg HotAnswer.levels (copyFirst_all _ _ _ (fun i hi => ?_))
  rw [topFive, Vector.getElem_ofFn]

theorem hotReading_result (q : HotQuery) (d : HotData) : q.reading.result d = q.eval d := by
  cases q with
  | bestBid | bestAsk =>
    simp only [HotQuery.reading, HotQuery.eval, bestReading, Reading.result_load]
    split_ifs <;> rfl
  | midPrice | spread =>
    simp only [HotQuery.reading, HotQuery.eval, quoteReading, Reading.result_load]
    by_cases hb : 0 < d.bidCount <;> by_cases ha : 0 < d.askCount <;> simp [hb, ha]
  | top5Bids => exact topReading_result _ _ _ d _
  | top5Asks => exact topReading_result _ _ _ d _

end Hot
section Cold

def ColdQuery.ask (b : OrderBookV2) : ColdQuery → ColdAnswer
  | .bidLevels n => .levels (b.getBidLevels n)
  | .askLevels n => .levels (b.getAskLevels n)
  | .bidLevelsFast => .fast b.getBidLevelsFast.1 b.getBidLevelsFast.2
  | .askLevelsFast => .fast b.getAskLevelsFast.1 b.getAskLevelsFast.2
  | .snapshot => .snapshot b.generateSnapshot

def validReading (s : BookSide) (i : ℕ) (levels : List PriceLevel)
    (next : List PriceLevel → Reading ColdData ColdAnswer) : Reading ColdData ColdAnswer :=
  .load fun c => if isValid ((c.levels s).getD i default) then
      .load fun c => let price := ((c.levels s).getD i default).price
      .load fun c => next (levels++[⟨price,((c.levels s).getD i default).quantity⟩])
    else next levels

def countedReading (s : BookSide) (next : List PriceLevel → Reading ColdData ColdAnswer) :
    ℕ → ℕ → List PriceLevel → Reading ColdData ColdAnswer
  | 0, _, levels => next levels
  | k+1, i, levels => validReading s i levels (countedReading s next k (i+1))

def snapshotReading (s : BookSide) (next : List PriceLevel → Reading ColdData ColdAnswer) :
    ℕ → ℕ → List PriceLevel → Reading ColdData ColdAnswer
  | 0, _, levels => .load fun _ => next levels
  | k+1, i, levels =>
    .load fun c => if i < c.count s then validReading s i levels (snapshotReading s next k (i+1))
      else next levels

def fastReading (s : BookSide) (count : ℕ) :
    ℕ → ℕ → Vector PriceLevel maxDepth → Reading ColdData ColdAnswer
  | 0, _, levels => .load fun _ => .done (.fast levels count)
  | k+1, i, levels =>
    .load fun c => if i < c.count s then
        .load fun c => let price := ((c.levels s).getD i default).price
        .load fun c =>
          fastReading s count k (i+1)
            (levels.setIfInBounds i ⟨price,((c.levels s).getD i default).quantity⟩)
      else .done (.fast levels count)

def levelsReading (s : BookSide) (maxLevels : ℕ) : Reading ColdData ColdAnswer :=
  .load fun c => countedReading s (fun l => .done (.levels l)) (min maxLevels (c.count s)) 0 []

def levelsFastReading (s : BookSide) : Reading ColdData ColdAnswer :=
  .load fun c => fastReading s (c.count s) maxDepth 0 (.replicate maxDepth {})

def ColdQuery.reading : ColdQuery → Reading ColdData ColdAnswer
  | .bidLevels n => levelsReading .bid n
  | .askLevels n => levelsReading .ask n
  | .bidLevelsFast => levelsFastReading .bid
  | .askLevelsFast => levelsFastReading .ask
  | .snapshot =>
    .load fun c => let time := c.lastUpdateTime
    snapshotReading .bid (fun bids =>
      snapshotReading .ask (fun asks =>
        .done (.snapshot { timestampUs := time, bids := bids, asks := asks })) maxDepth 0 []) maxDepth 0 []

def validFrom (levels : Vector Level maxDepth) (i k : ℕ) : List PriceLevel :=
  (List.range' i k).filterMap (fun j =>
    if isValid (levels.getD j default) then some (levels.getD j default) else none)

variable (s : BookSide) (c : ColdData) (next : List PriceLevel → Reading ColdData ColdAnswer)

theorem validReading_result (i : ℕ) (levels : List PriceLevel) :
    (validReading s i levels next).result c =
      (next (levels++validFrom (c.levels s) i 1)).result c := by
  rw [validReading, Reading.result_load]
  simp only [validFrom, List.range'_one, List.filterMap_cons, List.filterMap_nil]
  split_ifs
  · rfl
  · rw [List.append_nil]

theorem validFrom_succ (levels : Vector Level maxDepth) (i k : ℕ) :
    validFrom levels i (k+1) = validFrom levels i 1++validFrom levels (i+1) k := by
  simp only [validFrom, ← List.filterMap_append]
  rfl

theorem countedReading_result (k i : ℕ) (levels : List PriceLevel) :
    (countedReading s next k i levels).result c =
      (next (levels++validFrom (c.levels s) i k)).result c := by
  induction k generalizing i levels with
  | zero => simp [countedReading, validFrom]
  | succ k ih =>
    rw [countedReading, validReading_result, ih, List.append_assoc, ← validFrom_succ]

theorem snapshotReading_result (k i : ℕ) (levels : List PriceLevel) (hk : c.count s ≤ i+k) :
    (snapshotReading s next k i levels).result c =
      (next (levels++validFrom (c.levels s) i (c.count s-i))).result c := by
  induction k generalizing i levels with
  | zero =>
    rw [snapshotReading, Reading.result_load, Nat.sub_eq_zero_of_le (by omega)]
    simp [validFrom]
  | succ k ih =>
    rw [snapshotReading, Reading.result_load]
    split_ifs with hi
    · rw [validReading_result, ih (i+1) _ (by omega), List.append_assoc, ← validFrom_succ,
        show c.count s-(i+1)+1 = c.count s-i by omega]
    · rw [Nat.sub_eq_zero_of_le (by omega)]
      simp [validFrom]

theorem fastReading_result (k i : ℕ) (levels : Vector PriceLevel maxDepth) (hk : c.count s ≤ i+k)
    (hi : i ≤ c.count s)
    (hl : levels = copyFirst (fun j => (c.levels s).getD j default) i (.replicate maxDepth {})) :
    (fastReading s (c.count s) k i levels).result c =
      .fast (copyFirst (fun j => (c.levels s).getD j default) (c.count s) (.replicate maxDepth {}))
        (c.count s) := by
  induction k generalizing i levels with
  | zero =>
    obtain rfl : i = c.count s := by omega
    rw [fastReading, Reading.result_load, hl]
    rfl
  | succ k ih =>
    rw [fastReading, Reading.result_load]
    split_ifs with hlt
    · refine ih (i+1) _ (by omega) (by omega) ?_
      rw [hl, copyFirst]
    · obtain rfl : i = c.count s := by omega
      rw [hl]
      rfl

/-- A traversal of an unchanging buffer answers the sequential query. -/
theorem coldReading_result (q : ColdQuery) (b : OrderBookV2) (h : Bounded b.getReadBuffer) :
    q.reading.result b.getReadBuffer = q.ask b := by
  have hvalid : ∀ (levels : Vector Level maxDepth) (n : ℕ),
      validFrom levels 0 n = validLevels levels n := by
    intro levels n
    rw [validFrom, validLevels, List.range_eq_range']
  have hbids : b.getReadBuffer.count .bid ≤ 0+maxDepth := h.bids.trans_eq (Nat.zero_add _).symm
  have hasks : b.getReadBuffer.count .ask ≤ 0+maxDepth := h.asks.trans_eq (Nat.zero_add _).symm
  cases q with
  | bidLevels n =>
    exact (countedReading_result .bid b.getReadBuffer _ _ 0 []).trans
      (congrArg ColdAnswer.levels (hvalid _ _))
  | askLevels n =>
    exact (countedReading_result .ask b.getReadBuffer _ _ 0 []).trans
      (congrArg ColdAnswer.levels (hvalid _ _))
  | bidLevelsFast =>
    exact fastReading_result .bid b.getReadBuffer maxDepth 0 _ hbids (Nat.zero_le _) rfl
  | askLevelsFast =>
    exact fastReading_result .ask b.getReadBuffer maxDepth 0 _ hasks (Nat.zero_le _) rfl
  | snapshot =>
    rw [ColdQuery.reading, Reading.result_load,
      snapshotReading_result .bid _ _ maxDepth 0 [] hbids,
      snapshotReading_result .ask _ _ maxDepth 0 [] hasks]
    simp only [List.nil_append, Nat.sub_zero, hvalid]
    rfl

end Cold
end Chronos.OrderBookV2
