import Chronos.OrderBookV2

/-!
# The array-based book follows the ladders

Every array helper is described on the list of live levels: it settles the
price in the ladder, and it leaves all levels before the position it reports
untouched. The second fact is what lets the hot copy skip a rebuild.
-/

set_option autoImplicit false

namespace Chronos.OrderBookV2
open OrderedLevels BookLadder SearchedArray

def pairOf (l : Level) : Decimal × Decimal := (l.price,l.quantity)

def side (levels : Vector Level maxDepth) (count : ℕ) : List (Decimal × Decimal) :=
  (held levels count).map pairOf

theorem side_length (levels : Vector Level maxDepth) (count : ℕ) (h : count ≤ maxDepth) :
    (side levels count).length = count := by
  simp [side, held_length levels count h]

theorem side_get (levels : Vector Level maxDepth) (count i : ℕ) (hc : count ≤ maxDepth)
    (hi : i < (side levels count).length) :
    (side levels count)[i] = pairOf (levels.getD i default) := by
  have hl := side_length levels count hc
  have he : (side levels count)[i]? = some (pairOf (levels.getD i default)) := by
    rw [side, List.getElem?_map, held_getElem?, if_pos (by omega),
      ← some_getD levels i (by omega)]
    rfl
  exact Option.some.inj ((List.getElem?_eq_getElem hi).symm.trans he)

/-- The array, its count and the affected position after an operation on a
side that should now read `target`. -/
structure Settled (levels : Vector Level maxDepth) (count : ℕ)
    (target : List (Decimal × Decimal)) (r : Vector Level maxDepth × ℕ × ℤ) : Prop where
  bound : r.2.1 ≤ maxDepth
  reads : side r.1 r.2.1 = target
  untouched : ∀ k : ℕ, r.2.2 < 0 ∨ k ≤ r.2.2 → target.take k = (side levels count).take k

theorem position_le (pos k : ℕ) (h : (pos:ℤ) < 0 ∨ (k:ℤ) ≤ pos) : k ≤ pos := by
  omega

section Arrays
variable (before : Decimal → Decimal → Prop) [DecidableRel before]
variable [IsStrictTotalOrder Decimal before]
variable (levels : Vector Level maxDepth) (count : ℕ) (price quantity : Decimal)

omit [DecidableRel before] [IsStrictTotalOrder Decimal before] in
theorem before_trans_index (hc : count ≤ maxDepth) (hs : Ordered before (side levels count))
    (i j : ℕ) (hij : i < j) (hj : j < count) :
    before (levels.getD i default).price (levels.getD j default).price := by
  have hl := side_length levels count hc
  have h := List.pairwise_iff_getElem.mp hs i j (by omega) (by omega) hij
  rwa [side_get levels count i hc, side_get levels count j hc] at h

theorem right_test_downward (hc : count ≤ maxDepth) (hs : Ordered before (side levels count)) :
    Downward (fun mid => before (levels.getD mid default).price price) count := by
  intro i j hij hj hp
  simp only [decide_eq_true_eq] at hp ⊢
  rcases Nat.lt_or_eq_of_le hij with h | rfl
  · exact trans_of before (before_trans_index before levels count hc hs i j h hj) hp
  · exact hp

theorem left_test_upward (hc : count ≤ maxDepth) (hs : Ordered before (side levels count)) :
    Upward (fun mid => before price (levels.getD mid default).price) count := by
  intro i j hij hj hp
  simp only [decide_eq_true_eq] at hp ⊢
  rcases Nat.lt_or_eq_of_le hij with h | rfl
  · exact trans_of before hp (before_trans_index before levels count hc hs i j h hj)
  · exact hp

theorem lowerBound_splits (hc : count ≤ maxDepth) (hs : Ordered before (side levels count)) :
    Splits before price (side levels count)
      (lowerBound (fun mid => before (levels.getD mid default).price price) 0 count) := by
  have hl := side_length levels count hc
  obtain ⟨hb,hleft,hright⟩ := lowerBound_spec _ count 0 count
    (right_test_downward before levels count price hc hs) (by simp)
    (fun i hi hn => absurd hn (by omega)) (Nat.zero_le _) (le_refl _)
  refine ⟨by omega,fun i hi hr => ?_,fun i hi hr => ?_⟩
  · rw [side_get levels count i hc]
    exact of_decide_eq_true (hleft i hr)
  · rw [side_get levels count i hc]
    exact fun h => hright i hr (by omega) (decide_eq_true h)

theorem shiftAndInsert_reads (pos : ℕ) (hc : count < maxDepth) (hp : pos ≤ count) :
    side (shiftAndInsert levels count pos price quantity).1 (count+1) =
      (side levels count).insertIdx pos (price,quantity) := by
  rw [shiftAndInsert, side, held_open levels count pos _ hc hp, List.map_insertIdx]
  rfl

theorem insertLevel_settled (hc : count ≤ maxDepth) (hs : Ordered before (side levels count)) :
    Settled levels count ((put before price quantity (side levels count)).take maxDepth)
      (insertLevel before levels count price quantity) := by
  have hl := side_length levels count hc
  have hsp := lowerBound_splits before levels count price hc hs
  rw [insertLevel]
  generalize lowerBound (fun mid => before (levels.getD mid default).price price) 0 count = lo at hsp
  have hlo := hsp.bound
  by_cases hit : lo < count ∧ (levels.getD lo default).price = price
  · -- replacement at the position found
    have hk : (side levels count)[lo].1 = price := by
      rw [side_get levels count lo hc]
      exact hit.2
    have hput := put_at_hit before price quantity _ lo hsp (by omega) hk
    rw [if_pos hit, hput, List.take_of_length_le (by simp [hl, hc])]
    refine ⟨hc,?_,fun k hk => ?_⟩
    · rw [side, held_set levels count lo _ hc hit.1, List.map_set]
      simp [side, pairOf, hit.2]
    · exact List.take_set_of_le (position_le lo k hk)
  have hput := put_at_gap before price quantity _ lo hsp (fun h he => hit ⟨by omega,by
    rwa [side_get levels count lo hc] at he⟩)
  rw [if_neg hit, hput]
  by_cases hfull : maxDepth ≤ count
  · obtain rfl : count = maxDepth := le_antisymm hc hfull
    rw [if_pos hfull]
    by_cases hend : maxDepth ≤ lo
    · -- refused: the price is worse than all twenty levels
      obtain rfl : lo = maxDepth := by omega
      rw [if_pos hend, List.take_insertIdx_eq_take_of_le _ _ _ _ (le_refl _),
        List.take_of_length_le (by omega)]
      exact ⟨le_refl _,rfl,fun k _ => rfl⟩
    · -- eviction: the last level is overwritten by the shift
      rw [if_neg hend]
      have hcut : side levels (maxDepth-1) = (side levels maxDepth).take (maxDepth-1) := by
        simp [side, held, List.map_take, List.take_take]
      refine ⟨le_refl _,?_,fun k hk => ?_⟩
      · change side (shiftAndInsert levels (maxDepth-1) lo price quantity).1 (maxDepth-1+1) = _
        rw [shiftAndInsert_reads levels (maxDepth-1) price quantity lo (by decide) (by omega), hcut,
          insertIdx_take _ _ _ _ (by omega) (by omega)]
        rfl
      · have hk := position_le lo k hk
        rw [List.take_take, Nat.min_eq_left (by omega), List.take_insertIdx_eq_take_of_le _ _ _ _ hk]
  · rw [if_neg hfull, List.take_of_length_le (by
      rw [List.length_insertIdx_of_le_length hlo]; omega)]
    refine ⟨by simp only [shiftAndInsert]; omega,?_,fun k hk => ?_⟩
    · exact shiftAndInsert_reads levels count price quantity lo (by omega) (by omega)
    · exact List.take_insertIdx_eq_take_of_le _ _ _ _ (position_le lo k hk)

theorem search_price (hc : count ≤ maxDepth) (mid : ℕ)
    (hm : search (fun mid => before (levels.getD mid default).price price)
      (fun mid => before price (levels.getD mid default).price) 0 count = some mid) :
    ∃ h : mid < (side levels count).length, (side levels count)[mid].1 = price := by
  have hl := side_length levels count hc
  obtain ⟨hlt,hp,hq⟩ := search_found _ _ _ _ _ hm
  simp only [decide_eq_true_eq] at hp hq
  refine ⟨by omega,?_⟩
  rw [side_get levels count mid hc]
  exact (trichotomous_of before _ _).resolve_left hp |>.resolve_right hq

theorem search_none (hc : count ≤ maxDepth) (hs : Ordered before (side levels count))
    (hm : search (fun mid => before (levels.getD mid default).price price)
      (fun mid => before price (levels.getD mid default).price) 0 count = none) :
    ∀ x ∈ side levels count, x.1 ≠ price := by
  have hl := side_length levels count hc
  have hno := search_missing _ _ count 0 count
    (right_test_downward before levels count price hc hs)
    (left_test_upward before levels count price hc hs) (by simp)
    (fun i hi hn => absurd hn (by omega)) (Nat.zero_le _) (le_refl _) hm
  intro x hx he
  obtain ⟨i,hi,rfl⟩ := List.getElem_of_mem hx
  rw [side_get levels count i hc] at he
  have h := hno i (by omega)
  simp only [decide_eq_true_eq] at h
  rcases h with h | h <;> exact irrefl_of before price (he ▸ h)

theorem removeLevel_settled (hc : count ≤ maxDepth) (hs : Ordered before (side levels count)) :
    Settled levels count (remove price (side levels count))
      (removeLevel before levels count price) := by
  have hl := side_length levels count hc
  rw [removeLevel]
  split
  case h_1 mid hm =>
    obtain ⟨hlt,hk⟩ := search_price before levels count price hc mid hm
    rw [remove_at before price _ mid hs hlt hk]
    refine ⟨by simp only; omega,?_,fun k hk => ?_⟩
    · rw [side, held_close levels count mid hc (by omega), ← List.eraseIdx_map]
      rfl
    · exact List.take_eraseIdx_eq_take_of_le _ _ _ (position_le mid k hk)
  case h_2 hm =>
    rw [remove_missing price _ (search_none before levels count price hc hs hm)]
    exact ⟨hc,rfl,fun k _ => rfl⟩

def updateSide : Vector Level maxDepth × ℕ × ℤ :=
  if 0 < quantity then insertLevel before levels count price quantity
  else removeLevel before levels count price

theorem updateSide_settled (hc : count ≤ maxDepth) (hs : Ordered before (side levels count)) :
    Settled levels count (settle before price quantity (side levels count))
      (updateSide before levels count price quantity) := by
  unfold updateSide settle
  split_ifs
  · exact insertLevel_settled before levels count price quantity hc hs
  · exact removeLevel_settled before levels count price hc hs

end Arrays

def ladders (w : ColdData) : Ladders := ⟨side w.bids w.bidCount,side w.asks w.askCount⟩

structure Bounded (w : ColdData) : Prop where
  bids : w.bidCount ≤ maxDepth
  asks : w.askCount ≤ maxDepth

def top (l : Ladders) (k : ℕ) : Ladders := ⟨l.bids.take k,l.asks.take k⟩

theorem applyTick_side (w : ColdData) (t : Tick) : applyTick w t =
    if t.side = .bid then
      let r := updateSide (· > ·) w.bids w.bidCount t.price t.quantity
      ({ w with bids := r.1, bidCount := r.2.1 },r.2.2)
    else
      let r := updateSide (· < ·) w.asks w.askCount t.price t.quantity
      ({ w with asks := r.1, askCount := r.2.1 },r.2.2) := rfl

/-- What one tick does to a buffer: the ladders take the step, and everything
better than the reported position stays. -/
theorem applyTick_spec (w : ColdData) (t : Tick) (hb : Bounded w) (hs : Sound (ladders w)) :
    Bounded (applyTick w t).1 ∧ ladders (applyTick w t).1 = step (.update t) (ladders w) ∧
      ∀ k : ℕ, (applyTick w t).2 < 0 ∨ k ≤ (applyTick w t).2 →
        top (ladders (applyTick w t).1) k = top (ladders w) k := by
  rw [applyTick_side]
  by_cases hside : t.side = .bid
  · have h := updateSide_settled (· > ·) w.bids w.bidCount t.price t.quantity hb.bids hs.bids.ordered
    simp only [if_pos hside, step]
    refine ⟨⟨h.bound,hb.asks⟩,congrArg₂ Ladders.mk h.reads rfl,fun k hk => ?_⟩
    exact congrArg₂ Ladders.mk ((congrArg _ h.reads).trans (h.untouched k hk)) rfl
  · have h := updateSide_settled (· < ·) w.asks w.askCount t.price t.quantity hb.asks hs.asks.ordered
    simp only [if_neg hside, step]
    refine ⟨⟨hb.bids,h.bound⟩,congrArg₂ Ladders.mk rfl h.reads,fun k hk => ?_⟩
    exact congrArg₂ Ladders.mk rfl ((congrArg _ h.reads).trans (h.untouched k hk))

def hotSide (prices quantities : Vector Decimal hotDepth) (count : ℕ) : List (Decimal × Decimal) :=
  (held prices count).zip (held quantities count)

def hotLadders (h : HotData) : Ladders :=
  ⟨hotSide h.bidPrices h.bidQuantities h.bidCount,hotSide h.askPrices h.askQuantities h.askCount⟩

structure HotTop (h : HotData) (w : ColdData) : Prop where
  bidCount : h.bidCount = min hotDepth w.bidCount
  askCount : h.askCount = min hotDepth w.askCount
  levels : hotLadders h = top (ladders w) hotDepth
  version : h.version % 2 = 0

theorem bump_twice (v : ℕ) (h : v % 2 = 0) : bump (bump v) % 2 = 0 := by
  unfold bump
  omega

theorem hotSide_copy (levels : Vector Level maxDepth) (count : ℕ) (hc : count ≤ maxDepth)
    (prices quantities : Vector Decimal hotDepth) :
    hotSide (copyFirst (fun i => (levels.getD i default).price) (min hotDepth count) prices)
      (copyFirst (fun i => (levels.getD i default).quantity) (min hotDepth count) quantities)
      (min hotDepth count) = (side levels count).take hotDepth := by
  have hm : min hotDepth count ≤ hotDepth := Nat.min_le_left _ _
  rw [hotSide, held_copyFirst _ _ _ hm, held_copyFirst _ _ _ hm, List.zip_map', side,
    ← range_getD levels count hc, List.map_map, ← List.map_take, List.take_range]
  rfl

theorem top_counts (l m : Ladders) (h : top l hotDepth = top m hotDepth) :
    min hotDepth l.bids.length = min hotDepth m.bids.length ∧
      min hotDepth l.asks.length = min hotDepth m.asks.length := by
  have hb := congrArg (fun x => x.bids.length) h
  have ha := congrArg (fun x => x.asks.length) h
  simpa [top] using And.intro hb ha

/-- The state between two operations: both buffers agree, their ladders are
sound and the hot copy is current. -/
structure Coherent (b : OrderBookV2) : Prop where
  buffers : ∀ i, b.coldBuffers i = b.getReadBuffer
  bounded : Bounded b.getReadBuffer
  sound : Sound (ladders b.getReadBuffer)
  hot : HotTop b.hotData b.getReadBuffer

theorem coherent_write (b : OrderBookV2) (h : Coherent b) : b.getWriteBuffer = b.getReadBuffer :=
  h.buffers _

theorem swap_buffer (b : OrderBookV2) (i : Fin 2) :
    (b.swapColdBuffers).coldBuffers i = b.getWriteBuffer := by
  have hw : ∀ w i : Fin 2, i = 1-w ∨ i = w := by decide
  have hb : ∀ w : Fin 2, 1-(1-w) = w := by decide
  rcases hw b.writeBufferIndex i with h | h
  · simp [swapColdBuffers, getWriteBuffer, h, hb]
  · have hne : ∀ w : Fin 2, w ≠ 1-w := by decide
    simp [swapColdBuffers, getWriteBuffer, h, hne]

theorem swap_read (b : OrderBookV2) : b.swapColdBuffers.getReadBuffer = b.getWriteBuffer :=
  swap_buffer b _

theorem swap_coherent (b : OrderBookV2) (hb : Bounded b.getWriteBuffer)
    (hs : Sound (ladders b.getWriteBuffer)) (hh : HotTop b.hotData b.getWriteBuffer) :
    Coherent b.swapColdBuffers where
  buffers i := (swap_buffer b i).trans (swap_read b).symm
  bounded := (swap_read b).symm ▸ hb
  sound := (swap_read b).symm ▸ hs
  hot := (swap_read b).symm ▸ hh

theorem setWriteBuffer_get (b : OrderBookV2) (w : ColdData) :
    (b.setWriteBuffer w).getWriteBuffer = w := by
  simp [setWriteBuffer, getWriteBuffer]

theorem updateLevels_write (b : OrderBookV2) (t : Tick) : (b.updateLevels t).getWriteBuffer =
    { (applyTick b.getWriteBuffer t).1 with lastUpdateTime := t.receiveTimestampUs } :=
  setWriteBuffer_get b { (applyTick b.getWriteBuffer t).1 with
    lastUpdateTime := t.receiveTimestampUs }

theorem rebuild_write (b : OrderBookV2) : b.rebuildHotData.getWriteBuffer = b.getWriteBuffer := by
  unfold rebuildHotData
  split_ifs <;> rfl

theorem updateLevels_hot (b : OrderBookV2) (t : Tick) : (b.updateLevels t).hotData = b.hotData := rfl

theorem rebuild_top (b : OrderBookV2) (w : ColdData) (hw : b.getWriteBuffer = w) (hb : Bounded w)
    (hv : b.hotData.version % 2 = 0) (hd : b.hotDataDirty = true) :
    HotTop b.rebuildHotData.hotData w := by
  rw [rebuildHotData, if_pos hd, hw]
  exact ⟨rfl,rfl,congrArg₂ Ladders.mk (hotSide_copy _ _ hb.bids _ _) (hotSide_copy _ _ hb.asks _ _),
    bump_twice _ hv⟩

/-- The skipped rebuild: an unaffected top five is already the right copy. -/
theorem hotTop_unaffected (h : HotData) (w w' : ColdData) (hw : Bounded w) (hw' : Bounded w')
    (hh : HotTop h w) (ht : top (ladders w') hotDepth = top (ladders w) hotDepth) : HotTop h w' := by
  obtain ⟨hb,ha⟩ := top_counts _ _ ht
  simp only [ladders, side_length _ _ hw.bids, side_length _ _ hw.asks, side_length _ _ hw'.bids,
    side_length _ _ hw'.asks] at hb ha
  exact ⟨hh.bidCount.trans hb.symm,hh.askCount.trans ha.symm,hh.levels.trans ht.symm,hh.version⟩

theorem update_hot (b : OrderBookV2) (t : Tick) (h : Coherent b) :
    HotTop (b.updateLevels t).rebuildHotData.hotData (b.updateLevels t).getWriteBuffer := by
  have hw := coherent_write b h
  obtain ⟨hb,-,ht⟩ := applyTick_spec b.getWriteBuffer t (hw ▸ h.bounded) (hw ▸ h.sound)
  have hb' : Bounded (b.updateLevels t).getWriteBuffer := by
    rw [updateLevels_write]
    exact ⟨hb.bids,hb.asks⟩
  have hv := h.hot.version
  by_cases hd : (b.updateLevels t).hotDataDirty
  · exact rebuild_top _ _ rfl hb' hv hd
  · have hpos : (applyTick b.getWriteBuffer t).2 < 0 ∨
        (hotDepth:ℤ) ≤ (applyTick b.getWriteBuffer t).2 := by
      simp only [updateLevels, Bool.and_eq_true, decide_eq_true_eq, not_and_or, not_le, not_lt] at hd
      exact hd
    rw [rebuildHotData, if_neg hd, updateLevels_hot]
    refine hotTop_unaffected b.hotData b.getReadBuffer _ h.bounded hb' h.hot ?_
    rw [updateLevels_write, ← hw]
    exact ht hotDepth hpos

theorem counted_coherent (b : OrderBookV2) (n : ℕ) (h : Coherent b) :
    Coherent { b with totalUpdates := n } := ⟨h.buffers,h.bounded,h.sound,h.hot⟩

theorem counted_read (b : OrderBookV2) (n : ℕ) :
    OrderBookV2.getReadBuffer { b with totalUpdates := n } = b.getReadBuffer := rfl

theorem update_coherent (b : OrderBookV2) (t : Tick) (h : Coherent b) :
    Coherent (b.update t) ∧
      ladders (b.update t).getReadBuffer = step (.update t) (ladders b.getReadBuffer) := by
  have hw := coherent_write b h
  obtain ⟨hb,hl,-⟩ := applyTick_spec b.getWriteBuffer t (hw ▸ h.bounded) (hw ▸ h.sound)
  have hwrite := updateLevels_write b t
  have hlad : ladders (b.updateLevels t).getWriteBuffer =
      step (.update t) (ladders b.getReadBuffer) := by
    rw [hwrite, ← hw]
    exact hl
  have hc := swap_coherent (b.updateLevels t).rebuildHotData
    (by rw [rebuild_write, hwrite]; exact ⟨hb.bids,hb.asks⟩)
    (by rw [rebuild_write, hlad]; exact step_sound _ _ h.sound)
    (by rw [rebuild_write]; exact update_hot b t h)
  refine ⟨counted_coherent _ _ hc,?_⟩
  rw [update, counted_read, swap_read, rebuild_write]
  exact hlad

theorem clear_coherent (b : OrderBookV2) (h : Coherent b) :
    Coherent b.clear ∧ ladders b.clear.getReadBuffer = {} := by
  have hw := setWriteBuffer_get b b.getWriteBuffer.clear
  have hlad : ladders b.getWriteBuffer.clear = {} := rfl
  have hv := bump_twice _ h.hot.version
  constructor
  · apply swap_coherent
    · exact hw.symm ▸ ⟨Nat.zero_le _,Nat.zero_le _⟩
    · exact hw.symm ▸ ⟨sound_nil _,sound_nil _⟩
    · exact hw.symm ▸ ⟨rfl,rfl,rfl,hv⟩
  · rw [clear, swap_read]
    exact (congrArg ladders hw).trans hlad

theorem new_coherent : Coherent {} where
  buffers _ := rfl
  bounded := ⟨Nat.zero_le _,Nat.zero_le _⟩
  sound := ⟨sound_nil _,sound_nil _⟩
  hot := ⟨rfl,rfl,rfl,rfl⟩

theorem apply_coherent (b : OrderBookV2) (op : BookOp) (h : Coherent b) :
    Coherent (b.apply op) ∧ ladders (b.apply op).getReadBuffer = step op (ladders b.getReadBuffer) := by
  cases op with
  | update t => exact update_coherent b t h
  | clear => exact clear_coherent b h

theorem run_append (ops more : List BookOp) (b : OrderBookV2) :
    run (ops++more) b = run more (run ops b) := by
  induction ops generalizing b with
  | nil => rfl
  | cons op ops ih => exact ih (b.apply op)

/-- Along any operations the book stays coherent and its active buffer holds
the ladders those operations leave. -/
theorem run_refines (ops : List BookOp) (b : OrderBookV2) (h : Coherent b) :
    Coherent (run ops b) ∧
      ladders (run ops b).getReadBuffer = BookLadder.run ops (ladders b.getReadBuffer) := by
  induction ops generalizing b with
  | nil => exact ⟨h,rfl⟩
  | cons op ops ih =>
    obtain ⟨hc,hl⟩ := apply_coherent b op h
    have ht := ih (b.apply op) hc
    rw [hl] at ht
    exact ht

end Chronos.OrderBookV2
