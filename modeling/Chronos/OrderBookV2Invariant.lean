import Chronos.OrderBookV2Refinement

/-!
# The representation invariant of the array-based book

The coherent states of the refinement are read back on the arrays: order,
uniqueness, bounds and positivity by index, equality of the two buffers, and
the hot arrays as a copy of the first levels. The queries then answer from
the ladders.
-/

set_option autoImplicit false

namespace Chronos.OrderBookV2
open OrderedLevels BookLadder SearchedArray

section Queries
variable (levels : Vector Level maxDepth) (count : ℕ)

theorem hotSide_get (prices quantities : Vector Decimal hotDepth) (hot i : ℕ) (hh : hot ≤ hotDepth) :
    (hotSide prices quantities hot)[i]? =
      if i < hot then some (prices.getD i 0,quantities.getD i 0) else none := by
  have hp (xs : Vector Decimal hotDepth) (hi : i < hot) : (held xs hot)[i]? = some (xs.getD i 0) := by
    rw [held_getElem?, if_pos hi]
    exact (some_getD xs i (by omega)).symm
  by_cases hi : i < hot
  · rw [if_pos hi]
    exact List.getElem?_zip_eq_some.mpr ⟨hp prices hi,hp quantities hi⟩
  · rw [if_neg hi]
    apply List.getElem?_eq_none
    simp only [hotSide, List.length_zip, held_length _ _ hh]
    omega

theorem side_getElem? (i : ℕ) (hc : count ≤ maxDepth) :
    (side levels count)[i]? = if i < count then some (pairOf (levels.getD i default)) else none := by
  have hl := side_length levels count hc
  by_cases hi : i < count
  · rw [if_pos hi, List.getElem?_eq_getElem (by omega), side_get levels count i hc]
  · rw [if_neg hi, List.getElem?_eq_none (by omega)]

theorem levelAt_eq (i : ℕ) (hc : count ≤ maxDepth) :
    levelAt levels count i = levelOf (side levels count) i := by
  rw [levelOf, side_getElem? levels count i hc, levelAt]
  split_ifs <;> first | omega | rfl

theorem validLevels_eq (n : ℕ) (hc : count ≤ maxDepth) (hp : ∀ x ∈ side levels count, 0 < x.2) :
    validLevels levels (min n count) = levelsOf (side levels count) n := by
  have hvalid : ∀ i ∈ List.range (min n count),
      (if isValid (levels.getD i default) then some (levels.getD i default) else none) =
        some (levels.getD i default) := by
    intro i hi
    have hi : i < count := by have := List.mem_range.mp hi; omega
    have hl := side_length levels count hc
    have h := hp _ (List.getElem_mem (show i < (side levels count).length by omega))
    rw [side_get levels count i hc] at h
    exact if_pos (decide_eq_true h)
  rw [validLevels, List.filterMap_congr hvalid]
  change List.filterMap (some ∘ fun i => levels.getD i default) _ = _
  rw [List.filterMap_eq_map, levelsOf, side,
    ← range_getD levels count hc, List.map_map, ← List.map_take, List.take_range, List.map_map]
  rfl

end Queries

section Answers
variable (b : OrderBookV2) (h : Coherent b)
include h

theorem read_returns {α : Type} (f : HotData → α) : b.readHotDataOptimistic f = some (f b.hotData) := by
  have hv := h.hot.version
  rw [readHotDataOptimistic, if_neg (by omega)]

theorem hot_bound : b.hotData.bidCount ≤ hotDepth ∧ b.hotData.askCount ≤ hotDepth := by
  rw [h.hot.bidCount, h.hot.askCount]
  exact ⟨Nat.min_le_left _ _,Nat.min_le_left _ _⟩

theorem hot_bids_get (i : ℕ) (hi : i < hotDepth) : (ladders b.getReadBuffer).bids[i]? =
    if i < b.hotData.bidCount then
      some (b.hotData.bidPrices.getD i 0,b.hotData.bidQuantities.getD i 0) else none := by
  rw [← hotSide_get _ _ _ i (hot_bound b h).1, ← List.getElem?_take_of_lt hi]
  exact congrArg (fun l => l.bids[i]?) h.hot.levels.symm

theorem hot_asks_get (i : ℕ) (hi : i < hotDepth) : (ladders b.getReadBuffer).asks[i]? =
    if i < b.hotData.askCount then
      some (b.hotData.askPrices.getD i 0,b.hotData.askQuantities.getD i 0) else none := by
  rw [← hotSide_get _ _ _ i (hot_bound b h).2, ← List.getElem?_take_of_lt hi]
  exact congrArg (fun l => l.asks[i]?) h.hot.levels.symm

theorem bestBid_hot : (ladders b.getReadBuffer).bestBid =
    if 0 < b.hotData.bidCount then some (b.hotData.bidPrices.getD 0 0) else none := by
  rw [Ladders.bestBid, List.head?_eq_getElem?, hot_bids_get b h 0 (by decide)]
  split_ifs <;> rfl

theorem bestAsk_hot : (ladders b.getReadBuffer).bestAsk =
    if 0 < b.hotData.askCount then some (b.hotData.askPrices.getD 0 0) else none := by
  rw [Ladders.bestAsk, List.head?_eq_getElem?, hot_asks_get b h 0 (by decide)]
  split_ifs <;> rfl

theorem quote_hot (f : Decimal → Decimal → Decimal) : (ladders b.getReadBuffer).quote f =
    if 0 < b.hotData.bidCount ∧ 0 < b.hotData.askCount then
      some (f (b.hotData.bidPrices.getD 0 0) (b.hotData.askPrices.getD 0 0)) else none := by
  rw [Ladders.quote, bestBid_hot b h, bestAsk_hot b h]
  by_cases hb : 0 < b.hotData.bidCount <;> by_cases ha : 0 < b.hotData.askCount <;> simp [hb, ha]

theorem getBestBid_eq : b.getBestBid = some (ladders b.getReadBuffer).bestBid := by
  rw [getBestBid, read_returns b h, bestBid_hot b h]

theorem getBestAsk_eq : b.getBestAsk = some (ladders b.getReadBuffer).bestAsk := by
  rw [getBestAsk, read_returns b h, bestAsk_hot b h]

theorem getMidPrice_eq [NearestDivision.NearestDiv] : b.getMidPrice =
    some ((ladders b.getReadBuffer).quote (fun bid ask => (bid+ask)/Decimal.ofInt 2)) := by
  rw [getMidPrice, read_returns b h, quote_hot b h]

theorem getSpread_eq : b.getSpread =
    some ((ladders b.getReadBuffer).quote (fun bid ask => ask-bid)) := by
  rw [getSpread, read_returns b h, quote_hot b h]

theorem getBidLevels_eq (n : ℕ) : b.getBidLevels n = levelsOf (ladders b.getReadBuffer).bids n :=
  validLevels_eq _ _ n h.bounded.bids h.sound.bids.positive

theorem getAskLevels_eq (n : ℕ) : b.getAskLevels n = levelsOf (ladders b.getReadBuffer).asks n :=
  validLevels_eq _ _ n h.bounded.asks h.sound.asks.positive

end Answers

def padFive (xs : List PriceLevel) : Vector PriceLevel hotDepth :=
  Vector.ofFn (fun i : Fin hotDepth => xs.getD i {})

theorem topFive_eq (xs : List (Decimal × Decimal)) (prices quantities : Vector Decimal hotDepth)
    (count : ℕ) (h : ∀ i < hotDepth, xs[i]? =
      if i < count then some (prices.getD i 0,quantities.getD i 0) else none) :
    topFive prices quantities count = padFive (levelsOf xs maxDepth) := by
  apply Vector.ext
  intro i hi
  have hm : i < maxDepth := lt_trans hi (by decide)
  rw [topFive, padFive, Vector.getElem_ofFn, Vector.getElem_ofFn, List.getD_eq_getElem?_getD,
    levelsOf, List.getElem?_map, List.getElem?_take_of_lt hm, h i hi]
  split_ifs <;> rfl

/-- One side of a buffer by index: bounded, strictly ordered (so no price
twice) and positive in its first `count` entries. -/
structure SideInvariant (before : Decimal → Decimal → Prop) (levels : Vector Level maxDepth)
    (count : ℕ) : Prop where
  bound : count ≤ maxDepth
  monotone : ∀ i j, i < j → j < count →
    before (levels.getD i default).price (levels.getD j default).price
  positive : ∀ i < count, 0 < (levels.getD i default).quantity

theorem side_invariant (before : Decimal → Decimal → Prop) (levels : Vector Level maxDepth)
    (count : ℕ) (hc : count ≤ maxDepth) (h : SideSound before (side levels count)) :
    SideInvariant before levels count where
  bound := hc
  monotone i j hij hj := before_trans_index before levels count hc h.ordered i j hij hj
  positive i hi := by
    have hl := side_length levels count hc
    have hp := h.positive _ (List.getElem_mem (show i < (side levels count).length by omega))
    rwa [side_get levels count i hc] at hp

structure HotCopy (prices quantities : Vector Decimal hotDepth) (hot : ℕ)
    (levels : Vector Level maxDepth) (count : ℕ) : Prop where
  count : hot = min hotDepth count
  prices : ∀ i < hot, prices.getD i 0 = (levels.getD i default).price
  quantities : ∀ i < hot, quantities.getD i 0 = (levels.getD i default).quantity

theorem hot_copy (prices quantities : Vector Decimal hotDepth) (hot : ℕ)
    (levels : Vector Level maxDepth) (count : ℕ) (hc : count ≤ maxDepth)
    (hcount : hot = min hotDepth count)
    (h : ∀ i < hotDepth, (side levels count)[i]? =
      if i < hot then some (prices.getD i 0,quantities.getD i 0) else none) :
    HotCopy prices quantities hot levels count := by
  have hpair : ∀ i < hot, (prices.getD i 0,quantities.getD i 0) = pairOf (levels.getD i default) := by
    intro i hi
    have he := h i (by omega)
    rw [side_getElem? levels count i hc, if_pos (by omega), if_pos hi] at he
    exact (Option.some.inj he).symm
  exact ⟨hcount,fun i hi => congrArg Prod.fst (hpair i hi),fun i hi => congrArg Prod.snd (hpair i hi)⟩

structure Representation (b : OrderBookV2) : Prop where
  bids : SideInvariant (· > ·) b.getReadBuffer.bids b.getReadBuffer.bidCount
  asks : SideInvariant (· < ·) b.getReadBuffer.asks b.getReadBuffer.askCount
  buffers : b.coldBuffers 0 = b.coldBuffers 1
  hotBids : HotCopy b.hotData.bidPrices b.hotData.bidQuantities b.hotData.bidCount
    b.getReadBuffer.bids b.getReadBuffer.bidCount
  hotAsks : HotCopy b.hotData.askPrices b.hotData.askQuantities b.hotData.askCount
    b.getReadBuffer.asks b.getReadBuffer.askCount
  topBids : b.getTop5Bids = some (padFive (b.getBidLevels maxDepth))
  topAsks : b.getTop5Asks = some (padFive (b.getAskLevels maxDepth))

theorem coherent_representation (b : OrderBookV2) (h : Coherent b) : Representation b where
  bids := side_invariant _ _ _ h.bounded.bids h.sound.bids
  asks := side_invariant _ _ _ h.bounded.asks h.sound.asks
  buffers := (h.buffers 0).trans (h.buffers 1).symm
  hotBids := hot_copy _ _ _ _ _ h.bounded.bids h.hot.bidCount (hot_bids_get b h)
  hotAsks := hot_copy _ _ _ _ _ h.bounded.asks h.hot.askCount (hot_asks_get b h)
  topBids := by
    rw [getTop5Bids, read_returns b h, getBidLevels_eq b h]
    exact congrArg some (topFive_eq _ _ _ _ (hot_bids_get b h))
  topAsks := by
    rw [getTop5Asks, read_returns b h, getAskLevels_eq b h]
    exact congrArg some (topFive_eq _ _ _ _ (hot_asks_get b h))

/-- The representation invariant in every state the operations can reach from
the constructor, including those in which reader and writer start on the same
buffer. -/
theorem run_representation (ops : List BookOp) : Representation (run ops {}) :=
  coherent_representation _ (run_refines ops {} new_coherent).1

end Chronos.OrderBookV2
