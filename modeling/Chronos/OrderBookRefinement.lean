import Chronos.OrderBook

/-!
# The map-based book follows the ladders

The best-level copy is taken before trimming, which never touches the first
level of a side. Every query is a function of the two ladders.
-/

set_option autoImplicit false

namespace Chronos.OrderBook
open OrderedLevels BookLadder

def view (b : OrderBook) : Ladders := ⟨b.coldData.bids.entries,b.coldData.asks.entries⟩

def hotBid (h : HotData) : Option (Decimal × Decimal) :=
  if h.hasBids then some (h.bestBidPrice,h.bestBidQuantity) else none

def hotAsk (h : HotData) : Option (Decimal × Decimal) :=
  if h.hasAsks then some (h.bestAskPrice,h.bestAskQuantity) else none

structure HotFirst (b : OrderBook) : Prop where
  bid : hotBid b.hotData = b.coldData.bids.entries.head?
  ask : hotAsk b.hotData = b.coldData.asks.entries.head?

section Side
variable {before : Decimal → Decimal → Prop} [DecidableRel before]

omit [DecidableRel before] in
theorem trim_entries (m : SortedMap before Decimal) : (trim m).entries = m.entries.take maxDepth := by
  fun_induction trim m with
  | case1 m h ih =>
    have hd : m.eraseLast.entries = m.entries.take (m.entries.length-1) := List.dropLast_eq_take
    simp only [SortedMap.size] at h
    rw [ih, hd, List.take_take, Nat.min_eq_left (by omega)]
  | case2 m h =>
    simp only [SortedMap.size] at h
    rw [List.take_of_length_le (by omega)]

omit [DecidableRel before] in
theorem trim_sound (m : SortedMap before Decimal) (h : SideSound before m.entries) :
    (trim m).entries = m.entries := by
  rw [trim_entries, List.take_of_length_le h.depth]

variable [IsStrictTotalOrder Decimal before]

theorem updateLevel_trim (m : SortedMap before Decimal) (s : Statistics) (price quantity : Decimal)
    (h : SideSound before m.entries) :
    (trim (updateLevel m s price quantity).1).entries = settle before price quantity m.entries := by
  rw [trim_entries]
  by_cases hq : 0 < quantity
  · simp only [updateLevel, settle, if_pos hq]
    rfl
  have hl := (settle_sound before price quantity m.entries h).depth
  simp only [updateLevel, settle, if_neg hq] at hl ⊢
  by_cases hf : (m.find price).isSome
  · rw [if_pos hf]
    exact List.take_of_length_le hl
  · have hm := (SortedMap.find_none m price).mp (by simpa using hf)
    rw [if_neg hf, remove_missing price m.entries hm, List.take_of_length_le h.depth]

end Side

theorem collect_take (n count : ℕ) (xs : List (Decimal × Decimal)) :
    collect n count xs = (xs.take (n-count)).map toLevel := by
  induction xs generalizing count with
  | nil => simp [collect]
  | cons x xs ih =>
    rw [collect]
    split_ifs with h
    · rw [Nat.sub_eq_zero_of_le h]
      rfl
    · obtain ⟨k,hk⟩ : ∃ k, n-count = k+1 := ⟨n-count-1,by omega⟩
      rw [ih, hk, show n-(count+1) = k by omega]
      rfl

theorem levelAt_eq {before : Decimal → Decimal → Prop} (m : SortedMap before Decimal) (i : ℕ) :
    levelAt m i = levelOf m.entries i := by
  unfold levelAt levelOf SortedMap.size
  split_ifs with h
  · rw [List.getElem?_eq_none h]
    rfl
  · rfl

theorem readHotDataOptimistic_eq {α : Type} (b : OrderBook) (f : HotData → α) (n : ℕ) :
    b.readHotDataOptimistic f n = f b.hotData := by
  induction n with
  | zero => rfl
  | succ n ih => simp [readHotDataOptimistic, ih]

theorem updateHotData_first (b : OrderBook) (t : ℕ) : HotFirst (b.updateHotData t) := by
  constructor
  · cases hb : b.coldData.bids.entries <;> cases ha : b.coldData.asks.entries <;>
      simp [updateHotData, hotBid, hb, ha]
  · cases hb : b.coldData.bids.entries <;> cases ha : b.coldData.asks.entries <;>
      simp [updateHotData, hotAsk, hb, ha]

theorem trimDepth_first (b : OrderBook) (h : HotFirst b) : HotFirst b.trimDepth := by
  have ht (xs : List (Decimal × Decimal)) : (xs.take maxDepth).head? = xs.head? := by
    cases xs <;> rfl
  constructor
  · simpa [trimDepth, trim_entries, ht] using h.bid
  · simpa [trimDepth, trim_entries, ht] using h.ask

theorem update_first (b : OrderBook) (t : Tick) : HotFirst (b.update t) := by
  have h (c : OrderBook) (n : ℕ) (isBid : Bool) :
      HotFirst (((c.updateHotData n).trimDepth).countUpdate isBid) := by
    have hc := trimDepth_first _ (updateHotData_first c n)
    exact ⟨hc.bid,hc.ask⟩
  exact h _ _ _

theorem clear_first (b : OrderBook) : HotFirst b.clear := ⟨rfl,rfl⟩

theorem update_view (b : OrderBook) (t : Tick) (h : Sound b.view) :
    (b.update t).view = step (.update t) b.view := by
  by_cases hs : t.side = .bid
  · simp only [update, hs, decide_true, if_true, step, view]
    refine congrArg₂ Ladders.mk ?_ ?_
    · exact updateLevel_trim b.coldData.bids b.coldData.statistics t.price t.quantity h.bids
    · exact trim_sound b.coldData.asks h.asks
  · simp only [update, hs, decide_false, if_false, step, view]
    refine congrArg₂ Ladders.mk ?_ ?_
    · exact trim_sound b.coldData.bids h.bids
    · exact updateLevel_trim b.coldData.asks b.coldData.statistics t.price t.quantity h.asks

theorem apply_view (b : OrderBook) (op : BookOp) (h : Sound b.view) :
    (b.apply op).view = step op b.view := by
  cases op with
  | update t => exact update_view b t h
  | clear => rfl

theorem apply_first (b : OrderBook) (op : BookOp) : HotFirst (b.apply op) := by
  cases op with
  | update t => exact update_first b t
  | clear => exact clear_first b

/-- After any operations the book holds the ladders those operations leave,
and its copy of the best levels is current. -/
theorem run_refines (ops : List BookOp) (b : OrderBook) (hs : Sound b.view) (hf : HotFirst b) :
    (run ops b).view = BookLadder.run ops b.view ∧ HotFirst (run ops b) := by
  induction ops generalizing b with
  | nil => exact ⟨rfl,hf⟩
  | cons op ops ih =>
    have hv := apply_view b op hs
    have h := ih (b.apply op) (hv ▸ step_sound op b.view hs) (apply_first b op)
    rw [hv] at h
    exact h

section Queries
variable (b : OrderBook) (h : HotFirst b)
include h

theorem getBestBid_eq : b.getBestBid = b.view.bestBid := by
  rw [getBestBid, readHotDataOptimistic_eq, Ladders.bestBid, view, ← h.bid, hotBid]
  split_ifs <;> rfl

theorem getBestAsk_eq : b.getBestAsk = b.view.bestAsk := by
  rw [getBestAsk, readHotDataOptimistic_eq, Ladders.bestAsk, view, ← h.ask, hotAsk]
  split_ifs <;> rfl

theorem quote_eq (f : Decimal → Decimal → Decimal) :
    b.view.quote f = if b.hotData.hasBids && b.hotData.hasAsks then
      some (f b.hotData.bestBidPrice b.hotData.bestAskPrice) else none := by
  rw [Ladders.quote, ← getBestBid_eq b h, ← getBestAsk_eq b h, getBestBid, getBestAsk,
    readHotDataOptimistic_eq, readHotDataOptimistic_eq]
  cases b.hotData.hasBids <;> cases b.hotData.hasAsks <;> rfl

theorem getMidPrice_eq [NearestDivision.NearestDiv] :
    b.getMidPrice = b.view.quote (fun bid ask => (bid+ask)/Decimal.ofInt 2) := by
  rw [getMidPrice, readHotDataOptimistic_eq, quote_eq b h]

theorem getSpread_eq : b.getSpread = b.view.quote (fun bid ask => ask-bid) := by
  rw [getSpread, readHotDataOptimistic_eq, quote_eq b h]

end Queries

theorem getBidLevels_eq (b : OrderBook) (n : ℕ) : b.getBidLevels n = levelsOf b.view.bids n := by
  simp [getBidLevels, collect_take, levelsOf, view]

theorem getAskLevels_eq (b : OrderBook) (n : ℕ) : b.getAskLevels n = levelsOf b.view.asks n := by
  simp [getAskLevels, collect_take, levelsOf, view]

end Chronos.OrderBook
