import Chronos.OrderBookRefinement
import Chronos.OrderBookV2Invariant

/-!
# The two order books agree

Both books refine the same ladders, so after the same operations every query
gives the same answer. A query of the array-based book also has to return,
which its version parity ensures.
-/

set_option autoImplicit false

namespace Chronos.OrderBookAgreement
open BookLadder

structure SameAnswers [NearestDivision.NearestDiv] (a : OrderBook) (b : OrderBookV2) : Prop where
  bestBid : b.getBestBid = some a.getBestBid
  bestAsk : b.getBestAsk = some a.getBestAsk
  midPrice : b.getMidPrice = some a.getMidPrice
  spread : b.getSpread = some a.getSpread
  bidLevel : ∀ i, b.getBidLevel i = a.getBidLevel i
  askLevel : ∀ i, b.getAskLevel i = a.getAskLevel i
  bidLevels : ∀ n, b.getBidLevels n = a.getBidLevels n
  askLevels : ∀ n, b.getAskLevels n = a.getAskLevels n
  empty : b.empty = a.empty
  snapshotBids : b.generateSnapshot.bids = a.generateSnapshot.bids
  snapshotAsks : b.generateSnapshot.asks = a.generateSnapshot.asks

theorem snapshot_side (levels : Vector OrderBookV2.Level maxDepth) (count : ℕ) (hc : count ≤ maxDepth)
    (hp : ∀ x ∈ OrderBookV2.side levels count, 0 < x.2) :
    OrderBookV2.validLevels levels count = (OrderBookV2.side levels count).map toLevel := by
  have h := OrderBookV2.validLevels_eq levels count count hc hp
  rw [Nat.min_self, levelsOf, List.take_of_length_le
    (le_of_eq (OrderBookV2.side_length levels count hc))] at h
  exact h

theorem side_empty (levels : Vector OrderBookV2.Level maxDepth) (count : ℕ) (hc : count ≤ maxDepth) :
    decide (count = 0) = (OrderBookV2.side levels count).isEmpty := by
  rw [Bool.eq_iff_iff, decide_eq_true_eq, List.isEmpty_iff_length_eq_zero,
    OrderBookV2.side_length levels count hc]

/-- Equal ladders behind two coherent books force equal answers. -/
theorem answers_of_view [NearestDivision.NearestDiv] (a : OrderBook) (b : OrderBookV2)
    (ha : OrderBook.HotFirst a) (hb : OrderBookV2.Coherent b)
    (hv : OrderBookV2.ladders b.getReadBuffer = a.view) : SameAnswers a b where
  bestBid := by rw [OrderBookV2.getBestBid_eq b hb, OrderBook.getBestBid_eq a ha, hv]
  bestAsk := by rw [OrderBookV2.getBestAsk_eq b hb, OrderBook.getBestAsk_eq a ha, hv]
  midPrice := by rw [OrderBookV2.getMidPrice_eq b hb, OrderBook.getMidPrice_eq a ha, hv]
  spread := by rw [OrderBookV2.getSpread_eq b hb, OrderBook.getSpread_eq a ha, hv]
  bidLevel i := by
    rw [OrderBookV2.getBidLevel, OrderBookV2.levelAt_eq _ _ i hb.bounded.bids, OrderBook.getBidLevel,
      OrderBook.levelAt_eq]
    exact congrArg (fun l => levelOf l.bids i) hv
  askLevel i := by
    rw [OrderBookV2.getAskLevel, OrderBookV2.levelAt_eq _ _ i hb.bounded.asks, OrderBook.getAskLevel,
      OrderBook.levelAt_eq]
    exact congrArg (fun l => levelOf l.asks i) hv
  bidLevels n := by rw [OrderBookV2.getBidLevels_eq b hb, OrderBook.getBidLevels_eq, hv]
  askLevels n := by rw [OrderBookV2.getAskLevels_eq b hb, OrderBook.getAskLevels_eq, hv]
  empty := by
    rw [OrderBookV2.empty, side_empty b.getReadBuffer.bids _ hb.bounded.bids,
      side_empty b.getReadBuffer.asks _ hb.bounded.asks]
    exact congrArg (fun l => l.bids.isEmpty && l.asks.isEmpty) hv
  snapshotBids := (snapshot_side _ _ hb.bounded.bids hb.sound.bids.positive).trans
    (congrArg (fun l => l.bids.map toLevel) hv)
  snapshotAsks := (snapshot_side _ _ hb.bounded.asks hb.sound.asks.positive).trans
    (congrArg (fun l => l.asks.map toLevel) hv)

/-- From the empty state, any updates and clears leave the two books with the
same answers to every query. -/
theorem books_agree [NearestDivision.NearestDiv] (ops : List BookOp) :
    SameAnswers (OrderBook.run ops {}) (OrderBookV2.run ops {}) := by
  obtain ⟨ha,hf⟩ := OrderBook.run_refines ops {} ⟨sound_nil _,sound_nil _⟩ ⟨rfl,rfl⟩
  obtain ⟨hc,hb⟩ := OrderBookV2.run_refines ops {} OrderBookV2.new_coherent
  exact answers_of_view _ _ hf hc (hb.trans ha.symm)

end Chronos.OrderBookAgreement
