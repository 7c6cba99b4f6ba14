import Chronos.OrderBookV2Refinement

/-!
# The two times of the array-based book

Every update writes its receive time to the cold buffer, from which snapshots
are made. The hot copy, which `getLastUpdateTime` reads, gets the time only
when the update falls among the five best levels of its side. Clearing keeps
both times.
-/

set_option autoImplicit false

namespace Chronos.OrderBookV2
open OrderedLevels BookLadder SearchedArray

section Rank
variable (before : Decimal → Decimal → Prop) [DecidableRel before]

/-- How many levels of a side are better than a price. -/
def rank (price : Decimal) (xs : List (Decimal × Decimal)) : ℕ :=
  xs.countP (fun x => before x.1 price)

theorem rank_of_splits (price : Decimal) (xs : List (Decimal × Decimal)) (r : ℕ)
    (h : Splits before price xs r) : rank before price xs = r := by
  have hleft : (xs.take r).countP (fun x => before x.1 price) = (xs.take r).length := by
    rw [List.countP_eq_length]
    intro x hx
    obtain ⟨i,hi,rfl⟩ := List.getElem_of_mem hx
    have hi' : i < r ∧ i < xs.length := by simpa using hi
    rw [List.getElem_take]
    exact decide_eq_true (h.left i hi'.2 hi'.1)
  have hright : (xs.drop r).countP (fun x => before x.1 price) = 0 := by
    rw [List.countP_eq_zero]
    intro x hx
    obtain ⟨i,hi,rfl⟩ := List.getElem_of_mem hx
    have hi' : r+i < xs.length := by simpa [Nat.lt_sub_iff_add_lt, add_comm] using hi
    rw [List.getElem_drop, decide_eq_true_eq]
    exact h.right (r+i) hi' (by omega)
  have hbound := h.bound
  rw [rank, ← List.take_append_drop r xs, List.countP_append, hleft, hright, List.length_take]
  omega

/-- The level of an update is one of the five best; a removal has to find it. -/
def InTopFive (price quantity : Decimal) (xs : List (Decimal × Decimal)) : Prop :=
  rank before price xs < hotDepth ∧ (0 < quantity ∨ ∃ x ∈ xs, x.1 = price)

instance (price quantity : Decimal) (xs : List (Decimal × Decimal)) :
    Decidable (InTopFive before price quantity xs) := inferInstanceAs (Decidable (_ ∧ _))

section Positions
variable [IsStrictTotalOrder Decimal before]
variable (levels : Vector Level maxDepth) (count : ℕ) (price quantity : Decimal)

theorem insertLevel_position (hc : count ≤ maxDepth) (hs : Ordered before (side levels count)) :
    (insertLevel before levels count price quantity).2.2 = rank before price (side levels count) ∨
      (insertLevel before levels count price quantity).2.2 = -1 ∧
        maxDepth ≤ rank before price (side levels count) := by
  have hsplits := lowerBound_splits before levels count price hc hs
  rw [rank_of_splits before price _ _ hsplits, insertLevel]
  generalize lowerBound (fun mid => before (levels.getD mid default).price price) 0 count = lo
  split_ifs with hit hfull hend
  · exact Or.inl rfl
  · exact Or.inr ⟨rfl,hend⟩
  · exact Or.inl rfl
  · exact Or.inl rfl

omit [DecidableRel before] in
theorem splits_of_hit (xs : List (Decimal × Decimal)) (i : ℕ) (hs : Ordered before xs)
    (hi : i < xs.length) (hk : xs[i].1 = price) : Splits before price xs i where
  bound := le_of_lt hi
  left j hj hlt := hk ▸ List.pairwise_iff_getElem.mp hs j i hj hi hlt
  right j hj hle hbefore := by
    rcases Nat.lt_or_eq_of_le hle with hlt | rfl
    · have hafter := List.pairwise_iff_getElem.mp hs i j hi hj hlt
      rw [hk] at hafter
      exact asymm_of before hafter hbefore
    · rw [hk] at hbefore
      exact irrefl_of before price hbefore

theorem removeLevel_position (hc : count ≤ maxDepth) (hs : Ordered before (side levels count)) :
    (∃ x ∈ side levels count, x.1 = price) ∧
        (removeLevel before levels count price).2.2 = rank before price (side levels count) ∨
      (¬∃ x ∈ side levels count, x.1 = price) ∧ (removeLevel before levels count price).2.2 = -1 := by
  rw [removeLevel]
  cases hm : search (fun mid => before (levels.getD mid default).price price)
      (fun mid => before price (levels.getD mid default).price) 0 count with
  | some mid =>
    obtain ⟨hlt,hk⟩ := search_price before levels count price hc mid hm
    have hsplits := splits_of_hit before price _ mid hs hlt hk
    exact Or.inl ⟨⟨_,List.getElem_mem hlt,hk⟩,(congrArg _ (rank_of_splits before price _ _ hsplits)).symm⟩
  | none =>
    have hnone := search_none before levels count price hc hs hm
    refine Or.inr ⟨?_,rfl⟩
    rintro ⟨x,hx,he⟩
    exact hnone x hx he

theorem updateSide_position (hc : count ≤ maxDepth) (hs : Ordered before (side levels count)) :
    (0 ≤ (updateSide before levels count price quantity).2.2 ∧
        (updateSide before levels count price quantity).2.2 < hotDepth) ↔
      InTopFive before price quantity (side levels count) := by
  have hdeep : hotDepth < maxDepth := by decide
  unfold updateSide InTopFive
  by_cases hq : 0 < quantity
  · rw [if_pos hq]
    rcases insertLevel_position before levels count price quantity hc hs with hpos | ⟨hpos,hend⟩
    · rw [hpos]
      simp [hq]
    · rw [hpos]
      exact iff_of_false (by simp) (fun h => absurd h.1 (by omega))
  · rw [if_neg hq]
    rcases removeLevel_position before levels count price hc hs with ⟨hfound,hpos⟩ | ⟨hnone,hpos⟩
    · rw [hpos]
      simp only [hfound, or_true, and_true]
      omega
    · rw [hpos]
      exact iff_of_false (by simp) (fun h => h.2.elim hq hnone)

end Positions
end Rank

/-- A tick falls among the five best levels of its side. -/
def TouchesTop (t : Tick) (l : Ladders) : Prop :=
  if t.side = .bid then InTopFive (· > ·) t.price t.quantity l.bids
  else InTopFive (· < ·) t.price t.quantity l.asks

instance (t : Tick) (l : Ladders) : Decidable (TouchesTop t l) := by
  unfold TouchesTop
  infer_instance

def topTime : List BookOp → Ladders → ℕ → ℕ
  | [], _, time => time
  | .update t::ops, l, time =>
    topTime ops (step (.update t) l) (if TouchesTop t l then t.receiveTimestampUs else time)
  | .clear::ops, _, time => topTime ops {} time

/-- Both reported times are the receive time of a tick. -/
def Fresh (b : OrderBookV2) (t : Tick) : Prop :=
  b.getLastUpdateTime = b.generateSnapshot.timestampUs ∧ b.getLastUpdateTime = t.receiveTimestampUs

section Times

theorem applyTick_touches (w : ColdData) (t : Tick) (hb : Bounded w) (hs : Sound (ladders w)) :
    (0 ≤ (applyTick w t).2 ∧ (applyTick w t).2 < hotDepth) ↔ TouchesTop t (ladders w) := by
  rw [applyTick_side, TouchesTop]
  by_cases hside : t.side = .bid
  · rw [if_pos hside, if_pos hside]
    exact updateSide_position (· > ·) w.bids w.bidCount t.price t.quantity hb.bids hs.bids.ordered
  · rw [if_neg hside, if_neg hside]
    exact updateSide_position (· < ·) w.asks w.askCount t.price t.quantity hb.asks hs.asks.ordered

theorem update_time (b : OrderBookV2) (t : Tick) (h : Coherent b) :
    (b.update t).getLastUpdateTime =
      if TouchesTop t (ladders b.getReadBuffer) then t.receiveTimestampUs else b.getLastUpdateTime := by
  have hw := coherent_write b h
  have hdirty : (b.updateLevels t).hotDataDirty = true ↔ TouchesTop t (ladders b.getReadBuffer) := by
    rw [← hw, ← applyTick_touches b.getWriteBuffer t (hw ▸ h.bounded) (hw ▸ h.sound)]
    simp [updateLevels]
  change (b.updateLevels t).rebuildHotData.hotData.lastUpdateTime = _
  rw [rebuildHotData]
  by_cases htop : TouchesTop t (ladders b.getReadBuffer)
  · rw [if_pos (hdirty.mpr htop), if_pos htop]
    change (b.updateLevels t).getWriteBuffer.lastUpdateTime = _
    rw [updateLevels_write]
  · rw [if_neg (mt hdirty.mp htop), if_neg htop]
    rfl

theorem update_snapshot (b : OrderBookV2) (t : Tick) :
    (b.update t).generateSnapshot.timestampUs = t.receiveTimestampUs := by
  change (b.update t).getReadBuffer.lastUpdateTime = _
  rw [update, counted_read, swap_read, rebuild_write, updateLevels_write]

theorem clear_snapshot (b : OrderBookV2) (h : Coherent b) :
    b.clear.generateSnapshot.timestampUs = b.generateSnapshot.timestampUs := by
  change b.clear.getReadBuffer.lastUpdateTime = b.getReadBuffer.lastUpdateTime
  rw [clear, swap_read, ← coherent_write b h]
  have hget := congrArg ColdData.lastUpdateTime (setWriteBuffer_get b b.getWriteBuffer.clear)
  exact hget

theorem run_time (ops : List BookOp) (b : OrderBookV2) (h : Coherent b) :
    (run ops b).getLastUpdateTime = topTime ops (ladders b.getReadBuffer) b.getLastUpdateTime := by
  induction ops generalizing b with
  | nil => rfl
  | cons op ops ih =>
    obtain ⟨hc,hl⟩ := apply_coherent b op h
    have hrest := ih (b.apply op) hc
    rw [hl] at hrest
    cases op with
    | update t => exact hrest.trans (by rw [topTime, ← update_time b t h]; rfl)
    | clear => exact hrest

theorem clears_times (n : ℕ) (b : OrderBookV2) (h : Coherent b) :
    (run (List.replicate n .clear) b).getLastUpdateTime = b.getLastUpdateTime ∧
      (run (List.replicate n .clear) b).generateSnapshot.timestampUs =
        b.generateSnapshot.timestampUs := by
  induction n generalizing b with
  | zero => exact ⟨rfl,rfl⟩
  | succ n ih =>
    obtain ⟨hhot,hcold⟩ := ih b.clear (clear_coherent b h).1
    exact ⟨hhot,hcold.trans (clear_snapshot b h)⟩

theorem fresh_after (earlier : List BookOp) (t : Tick) (clears : ℕ) :
    Fresh (after (earlier++.update t::List.replicate clears .clear)) t ↔
      TouchesTop t (BookLadder.run earlier {}) ∨ topTime earlier {} 0 = t.receiveTimestampUs := by
  obtain ⟨hc,hl⟩ := run_refines earlier {} new_coherent
  have hbefore := run_time earlier {} new_coherent
  have hupdate := update_time (run earlier {}) t hc
  obtain ⟨hhot,hcold⟩ := clears_times clears ((run earlier {}).update t) (update_coherent _ t hc).1
  rw [after, run_append]
  change Fresh (run (List.replicate clears .clear) ((run earlier {}).update t)) t ↔ _
  rw [Fresh, hhot, hcold, update_snapshot, and_self, hupdate, hl, hbefore]
  change (if TouchesTop t (BookLadder.run earlier {}) then _ else topTime earlier {} 0) = _ ↔ _
  split_ifs with htop
  · exact iff_of_true rfl (Or.inl htop)
  · rw [or_iff_right htop]

/-- A sequence with an update ends in its last update and clears. -/
theorem last_update (ops : List BookOp) (h : ∃ t, .update t ∈ ops) :
    ∃ earlier t clears, ops = earlier++.update t::List.replicate clears .clear := by
  induction ops using List.reverseRecOn with
  | nil =>
    obtain ⟨t,ht⟩ := h
    cases ht
  | append_singleton ops op ih =>
    cases op with
    | update t => exact ⟨ops,t,0,rfl⟩
    | clear =>
      have hmem : ∃ t, .update t ∈ ops := by simpa using h
      obtain ⟨earlier,t,clears,rfl⟩ := ih hmem
      exact ⟨earlier,t,clears+1,by simp [List.replicate_succ']⟩

end Times

/-- The book reports the time of its last update when that update touched the
top five, or came at the same time as the last one that did. -/
theorem fresh_iff (ops : List BookOp) (h : ∃ t, .update t ∈ ops) :
    ∃ earlier t clears, ops = earlier++.update t::List.replicate clears .clear ∧
      (Fresh (after ops) t ↔
        TouchesTop t (BookLadder.run earlier {}) ∨ topTime earlier {} 0 = t.receiveTimestampUs) := by
  obtain ⟨earlier,t,clears,rfl⟩ := last_update ops h
  exact ⟨earlier,t,clears,rfl,fresh_after earlier t clears⟩

def bidAt (price : ℤ) (time : ℕ) : Tick :=
  { price := .ofInt price, quantity := .ofInt 1, side := .bid, receiveTimestampUs := time }

def fiveBids : List BookOp := [6,5,4,3,2].map (fun price => .update (bidAt price 1))

def rebuiltBids : List BookOp := fiveBids++[.clear,.update (bidAt 4 2),.update (bidAt 5 3),.clear]

theorem rebuiltBids_fresh : ∃ earlier t clears,
    rebuiltBids = earlier++.update t::List.replicate clears .clear ∧
      (Fresh (after rebuiltBids) t ↔
        TouchesTop t (BookLadder.run earlier {}) ∨ topTime earlier {} 0 = t.receiveTimestampUs) :=
  fresh_iff rebuiltBids ⟨bidAt 4 2,by simp [rebuiltBids]⟩

/-- A sixth bid below five others reaches the snapshot's time only. -/
theorem sixthBid_stale : ¬∀ (earlier : List BookOp) (t : Tick) (clears : ℕ),
    Fresh (after (earlier++.update t::List.replicate clears .clear)) t := by
  intro h
  have hstale := (fresh_after fiveBids (bidAt 1 2) 0).mp (h fiveBids (bidAt 1 2) 0)
  exact absurd hstale (by decide +kernel)

end Chronos.OrderBookV2
