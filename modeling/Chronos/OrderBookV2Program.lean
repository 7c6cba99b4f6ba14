import Chronos.OrderBookV2Writes

/-!
# The writer's operations as lists of stores

`update` and `clear` as the stores they make: into the dark buffer, between
two version increments into the hot data, into the buffer index and the
active pointer, and the copy back. Run without a break, the list of an
operation is the operation.
-/

set_option autoImplicit false

namespace Chronos.OrderBookV2
open BookLadder SearchedArray

inductive Word where
  | price (s : BookSide) (i : ℕ)
  | quantity (s : BookSide) (i : ℕ)
  | count (s : BookSide)
  | time
  deriving DecidableEq

def Word.load (src : ColdData) : Word → ColdWrite
  | .price s i => .price s i ((src.levels s).getD i default).price
  | .quantity s i => .quantity s i ((src.levels s).getD i default).quantity
  | .count s => .count s (src.count s)
  | .time => .time src.lastUpdateTime

def levelWords (s : BookSide) (n : ℕ) : List Word :=
  (List.range n).flatMap (fun i => [.price s i,.quantity s i])

def coldWords : List Word :=
  levelWords .bid maxDepth++levelWords .ask maxDepth++[.count .bid,.count .ask,.time]

theorem levelWords_succ (s : BookSide) (n : ℕ) :
    levelWords s (n+1) = levelWords s n++[.price s n,.quantity s n] := by
  simp [levelWords, List.range_succ]

theorem copyFirst_all {α : Type} {n : ℕ} (f : ℕ → α) (xs ys : Vector α n)
    (h : ∀ i (hi : i < n), f i = ys[i]) : copyFirst f n xs = ys := by
  apply Vector.ext
  intro i hi
  have hc := copyFirst_getElem? f n xs (le_refl n) i
  rw [if_pos hi, Vector.getElem?_eq_getElem hi] at hc
  exact (Option.some.inj hc).trans (h i hi)

theorem levelWords_load (src : ColdData) (s : BookSide) (n : ℕ) (c : ColdData) :
    Schedule.run ColdData.write ((levelWords s n).map (Word.load src)) c =
      c.setLevels s (copyFirst (fun i => (src.levels s).getD i default) n (c.levels s)) := by
  induction n with
  | zero => simp [levelWords, copyFirst, Schedule.run]
  | succ n ih =>
    rw [levelWords_succ, List.map_append, Schedule.run_append, ih, copyFirst]
    simp [Schedule.run, ColdData.write, Word.load, set_words]

theorem levels_copied (src : ColdData) (s : BookSide) (xs : Vector Level maxDepth) :
    copyFirst (fun i => (src.levels s).getD i default) maxDepth xs = src.levels s := by
  apply copyFirst_all
  intro i hi
  simp [Vector.getD, hi]

theorem coldWords_load (src c : ColdData) :
    Schedule.run ColdData.write (coldWords.map (Word.load src)) c = src := by
  rw [coldWords, List.map_append, List.map_append, Schedule.run_append, Schedule.run_append,
    levelWords_load, levelWords_load, levels_copied, levels_copied]
  rfl

def clearLevels : ℕ → List ColdWrite
  | 0 => []
  | n+1 => clearLevels n++
      [.price .bid n 0,.quantity .bid n 0,.price .ask n 0,.quantity .ask n 0]

def clearWrites : List ColdWrite := .count .bid 0::.count .ask 0::clearLevels maxDepth

theorem clearLevels_run (n : ℕ) (c : ColdData) : Schedule.run ColdData.write (clearLevels n) c =
    { c with bids := copyFirst (fun _ => {}) n c.bids, asks := copyFirst (fun _ => {}) n c.asks } := by
  induction n with
  | zero => rfl
  | succ n ih =>
    rw [clearLevels, Schedule.run_append, ih]
    simp only [Schedule.run, ColdData.write, ColdData.levels_setLevels, ColdData.setLevels_setLevels,
      set_words]
    rfl

theorem clearWrites_run (c : ColdData) : Schedule.run ColdData.write clearWrites c = c.clear := by
  have hzero : ∀ xs : Vector Level maxDepth, copyFirst (fun _ => {}) maxDepth xs =
      .replicate maxDepth {} := fun xs => copyFirst_all _ _ _ (by simp)
  rw [clearWrites, Schedule.run, Schedule.run, clearLevels_run, hzero, hzero]
  rfl

namespace HotData

def setCount (h : HotData) (s : BookSide) (n : ℕ) : HotData :=
  match s with
  | .bid => { h with bidCount := n }
  | .ask => { h with askCount := n }

def setPrice (h : HotData) (s : BookSide) (i : ℕ) (p : Decimal) : HotData :=
  match s with
  | .bid => { h with bidPrices := h.bidPrices.setIfInBounds i p }
  | .ask => { h with askPrices := h.askPrices.setIfInBounds i p }

def setQuantity (h : HotData) (s : BookSide) (i : ℕ) (q : Decimal) : HotData :=
  match s with
  | .bid => { h with bidQuantities := h.bidQuantities.setIfInBounds i q }
  | .ask => { h with askQuantities := h.askQuantities.setIfInBounds i q }

def copy (w : ColdData) (h : HotData) : Word → HotData
  | .price s i => h.setPrice s i ((w.levels s).getD i default).price
  | .quantity s i => h.setQuantity s i ((w.levels s).getD i default).quantity
  | .count s => h.setCount s (min hotDepth (w.count s))
  | .time => { h with lastUpdateTime := w.lastUpdateTime }

def zero (h : HotData) : Word → HotData
  | .price s i => h.setPrice s i 0
  | .quantity s i => h.setQuantity s i 0
  | .count s => h.setCount s 0
  | .time => h

end HotData

def topWords (w : ColdData) : List Word :=
  .count .bid::levelWords .bid (min hotDepth w.bidCount)++
    .count .ask::levelWords .ask (min hotDepth w.askCount)++[.time]

theorem levelWords_copyBids (w : ColdData) (n : ℕ) (h : HotData) :
    Schedule.run (HotData.copy w) (levelWords .bid n) h =
      { h with
        bidPrices := copyFirst (fun i => (w.bids.getD i default).price) n h.bidPrices
        bidQuantities := copyFirst (fun i => (w.bids.getD i default).quantity) n h.bidQuantities } := by
  induction n with
  | zero => rfl
  | succ n ih =>
    rw [levelWords_succ, Schedule.run_append, ih]
    rfl

theorem levelWords_copyAsks (w : ColdData) (n : ℕ) (h : HotData) :
    Schedule.run (HotData.copy w) (levelWords .ask n) h =
      { h with
        askPrices := copyFirst (fun i => (w.asks.getD i default).price) n h.askPrices
        askQuantities := copyFirst (fun i => (w.asks.getD i default).quantity) n h.askQuantities } := by
  induction n with
  | zero => rfl
  | succ n ih =>
    rw [levelWords_succ, Schedule.run_append, ih]
    rfl

theorem topWords_copy (w : ColdData) (h : HotData) :
    Schedule.run (HotData.copy w) (topWords w) h = copyTop h w := by
  simp only [topWords, List.cons_append, Schedule.run_append, Schedule.run, levelWords_copyBids,
    levelWords_copyAsks]
  rfl

def zeroWords : List Word :=
  .count .bid::.count .ask::((List.range hotDepth).map (.price .bid)++
    (List.range hotDepth).map (.quantity .bid)++(List.range hotDepth).map (.price .ask)++
    (List.range hotDepth).map (.quantity .ask))

theorem zeroWords_run (h : HotData) : Schedule.run HotData.zero zeroWords h =
    { lastUpdateTime := h.lastUpdateTime, version := h.version } := by
  have hzero : ∀ xs : Vector Decimal hotDepth,
      ((((xs.setIfInBounds 0 0).setIfInBounds 1 0).setIfInBounds 2 0).setIfInBounds 3 0).setIfInBounds
        4 0 = .replicate hotDepth 0 :=
    fun xs => copyFirst_all (fun _ => (0 : Decimal)) xs (.replicate hotDepth 0) (by simp)
  have hrange : List.range hotDepth = [0,1,2,3,4] := rfl
  simp only [zeroWords, hrange, List.map_cons, List.map_nil, List.cons_append, List.nil_append,
    Schedule.run, HotData.zero, HotData.setCount, HotData.setPrice, HotData.setQuantity]
  rw [hzero, hzero, hzero, hzero]

inductive Instr where
  | write (w : ColdWrite)
  | dirty (flag : Bool)
  | bump
  | copyHot (w : Word)
  | zeroHot (w : Word)
  | flip
  | activate
  | copyBack (w : Word)
  | swapped
  | updated

/-- `flip` and `activate` are the two stores of the swap, `copyBack` a word of
its copy; the last two are counters. -/
def exec (b : OrderBookV2) : Instr → OrderBookV2
  | .write w => b.setWriteBuffer (b.getWriteBuffer.write w)
  | .dirty flag => { b with hotDataDirty := flag }
  | .bump => { b with hotData := { b.hotData with version := OrderBookV2.bump b.hotData.version } }
  | .copyHot w => { b with hotData := b.hotData.copy b.getWriteBuffer w }
  | .zeroHot w => { b with hotData := b.hotData.zero w }
  | .flip => { b with writeBufferIndex := otherBuffer b.writeBufferIndex }
  | .activate => { b with activeColdBuffer := otherBuffer b.writeBufferIndex }
  | .copyBack w => b.setWriteBuffer (b.getWriteBuffer.write (w.load b.getReadBuffer))
  | .swapped => { b with bufferSwaps := b.bufferSwaps+1 }
  | .updated => { b with totalUpdates := b.totalUpdates+1 }

def updateLevelsProgram (b : OrderBookV2) (tick : Tick) : List Instr :=
  (tickWrites b.getWriteBuffer tick).map .write++
    [.dirty (b.updateLevels tick).hotDataDirty,.write (.time tick.receiveTimestampUs)]

theorem updateLevels_instr (b : OrderBookV2) (tick : Tick) (i : Instr) (hi : i ∈ updateLevelsProgram b tick) :
    (∃ w, i = .write w) ∨ ∃ d, i = .dirty d := by
  simp only [updateLevelsProgram, List.mem_append, List.mem_map, List.mem_cons, List.not_mem_nil,
    or_false] at hi
  rcases hi with ⟨w,-,rfl⟩ | rfl | rfl
  · exact Or.inl ⟨_,rfl⟩
  · exact Or.inr ⟨_,rfl⟩
  · exact Or.inl ⟨_,rfl⟩

def rebuildProgram (b : OrderBookV2) : List Instr :=
  if b.hotDataDirty then
    .dirty false::.bump::(topWords b.getWriteBuffer).map .copyHot++[.bump]
  else []

def swapProgram : List Instr := .flip::.activate::coldWords.map .copyBack++[.swapped]

def program (b : OrderBookV2) : BookOp → List Instr
  | .update tick =>
    updateLevelsProgram b tick++rebuildProgram (b.updateLevels tick)++swapProgram++[.updated]
  | .clear => clearWrites.map .write++(.bump::zeroWords.map .zeroHot++[.bump])++swapProgram

section Runs
variable (b : OrderBookV2)

theorem writes_run (ws : List ColdWrite) : Schedule.run exec (ws.map .write) b =
    b.setWriteBuffer (Schedule.run ColdData.write ws b.getWriteBuffer) := by
  induction ws generalizing b with
  | nil => simp [Schedule.run, setWriteBuffer, getWriteBuffer]
  | cons w ws ih =>
    rw [List.map_cons, Schedule.run, ih]
    simp [exec, setWriteBuffer, getWriteBuffer, Schedule.run]

theorem copyHot_run (ws : List Word) : Schedule.run exec (ws.map .copyHot) b =
    { b with hotData := Schedule.run (HotData.copy b.getWriteBuffer) ws b.hotData } := by
  induction ws generalizing b with
  | nil => rfl
  | cons w ws ih =>
    rw [List.map_cons, Schedule.run, ih]
    rfl

theorem zeroHot_run (ws : List Word) : Schedule.run exec (ws.map .zeroHot) b =
    { b with hotData := Schedule.run HotData.zero ws b.hotData } := by
  induction ws generalizing b with
  | nil => rfl
  | cons w ws ih =>
    rw [List.map_cons, Schedule.run, ih]
    rfl

theorem copyBack_run (ws : List Word) (h : b.activeColdBuffer ≠ b.writeBufferIndex) :
    Schedule.run exec (ws.map .copyBack) b =
      b.setWriteBuffer (Schedule.run ColdData.write (ws.map (Word.load b.getReadBuffer))
        b.getWriteBuffer) := by
  induction ws generalizing b with
  | nil => simp [Schedule.run, setWriteBuffer, getWriteBuffer]
  | cons w ws ih =>
    have hread : (exec b (.copyBack w)).getReadBuffer = b.getReadBuffer := by
      simp [exec, setWriteBuffer, getReadBuffer, h]
    rw [List.map_cons, Schedule.run, ih (exec b (.copyBack w)) h, hread]
    simp [exec, setWriteBuffer, getWriteBuffer, Schedule.run]

theorem swap_program : Schedule.run exec swapProgram b = b.swapColdBuffers := by
  have hne : ∀ w : Fin 2, 1-(1-w) ≠ 1-w := by decide
  simp only [swapProgram, List.cons_append, Schedule.run_append, Schedule.run]
  rw [copyBack_run _ _ (hne _), coldWords_load]
  rfl

theorem updateLevels_program (tick : Tick) :
    Schedule.run exec (updateLevelsProgram b tick) b = b.updateLevels tick := by
  rw [updateLevelsProgram, Schedule.run_append, writes_run, tickWrites_run]
  simp [Schedule.run, exec, setWriteBuffer, getWriteBuffer, ColdData.write, updateLevels]

theorem rebuild_program : Schedule.run exec (rebuildProgram b) b = b.rebuildHotData := by
  unfold rebuildProgram rebuildHotData
  split_ifs with hd
  · simp only [List.cons_append, Schedule.run_append, Schedule.run]
    rw [copyHot_run]
    exact congrArg (fun h => exec { exec (exec b (.dirty false)) .bump with hotData := h } .bump)
      (topWords_copy b.getWriteBuffer _)
  · rfl

/-- The list of an operation, run without a break, is the operation. -/
theorem program_run (op : BookOp) : Schedule.run exec (program b op) b = b.apply op := by
  cases op with
  | update tick =>
    rw [program, Schedule.run_append, Schedule.run_append, Schedule.run_append, updateLevels_program,
      rebuild_program, swap_program]
    rfl
  | clear =>
    rw [program, Schedule.run_append, Schedule.run_append, writes_run, clearWrites_run, swap_program]
    simp only [List.cons_append, Schedule.run_append, Schedule.run, zeroHot_run, zeroWords_run]
    rfl

end Runs
end Chronos.OrderBookV2
