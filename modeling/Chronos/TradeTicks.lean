import Chronos.StrategyEngine
import Chronos.OrderBookV2Invariant
import Chronos.MarketDataProtocols

/-!
# Trades in the book

A book looks at the side of a tick and not at its flags: a bid goes to the
bids, everything else to the asks. So a trade tick is taken for a depth tick,
and the levels stay those of the depth ticks exactly when every trade changes
nothing on the side it is taken for.
-/

set_option autoImplicit false

namespace Chronos
open OrderedLevels

namespace BookLadder

section Side
variable (before : Decimal → Decimal → Prop)

/-- Settling the price changes nothing: a positive quantity stands at the price
already or comes after the levels of a full side, or there is nothing to delete. -/
def Stands (price quantity : Decimal) (xs : List (Decimal × Decimal)) : Prop :=
  if 0 < quantity then
    (price,quantity) ∈ xs ∨ xs.length = maxDepth ∧ ∀ x ∈ xs, before x.1 price
  else ∀ x ∈ xs, x.1 ≠ price

instance [DecidableRel before] (price quantity : Decimal) (xs : List (Decimal × Decimal)) :
    Decidable (Stands before price quantity xs) :=
  inferInstanceAs (Decidable (if 0 < quantity then
    (price,quantity) ∈ xs ∨ xs.length = maxDepth ∧ ∀ x ∈ xs, before x.1 price
  else ∀ x ∈ xs, x.1 ≠ price))

theorem settle_eq_self_iff [DecidableRel before] [IsStrictTotalOrder Decimal before]
    (price quantity : Decimal) (xs : List (Decimal × Decimal)) (h : SideSound before xs) :
    settle before price quantity xs = xs ↔ Stands before price quantity xs := by
  unfold settle Stands
  split_ifs
  · exact take_put_eq_self_iff before price quantity xs maxDepth h.ordered h.depth
  · exact remove_eq_self_iff price xs

end Side

def Standing (l : Ladders) (t : Tick) : Prop :=
  if t.side = .bid then Stands (· > ·) t.price t.quantity l.bids
  else Stands (· < ·) t.price t.quantity l.asks

instance (l : Ladders) (t : Tick) : Decidable (Standing l t) :=
  inferInstanceAs (Decidable (if t.side = .bid then Stands (· > ·) t.price t.quantity l.bids
    else Stands (· < ·) t.price t.quantity l.asks))

theorem step_eq_self_iff (l : Ladders) (t : Tick) (h : Sound l) :
    step (.update t) l = l ↔ Standing l t := by
  obtain ⟨bids,asks⟩ := l
  by_cases hside : t.side = .bid
  · rw [Standing, if_pos hside, ← settle_eq_self_iff _ _ _ _ h.bids]
    simp [step, hside]
  · rw [Standing, if_neg hside, ← settle_eq_self_iff _ _ _ _ h.asks]
    simp [step, hside]

theorem run_append (ops ops' : List BookOp) (l : Ladders) : run (ops++ops') l = run ops' (run ops l) := by
  induction ops generalizing l with
  | nil => rfl
  | cons op ops ih => exact ih (step op l)

end BookLadder

namespace StrategyEngine
open BookLadder

def levels (e : StrategyEngine) (symbolId : ℕ) : List PriceLevel × List PriceLevel :=
  ((e.bookOf symbolId).getBidLevels maxDepth,(e.bookOf symbolId).getAskLevels maxDepth)

def laddersOf (e : StrategyEngine) (symbolId : ℕ) : Ladders :=
  OrderBookV2.ladders (e.bookOf symbolId).getReadBuffer

def isDepthTick (symbolId : ℕ) : Action → Bool
  | .tick t _ => t.symbolId = symbolId && t.flags = 0
  | _ => false

def depthOnly (symbolId : ℕ) (actions : List Action) : List Action :=
  actions.filter (isDepthTick symbolId)

def updatesOf (symbolId : ℕ) (actions : List Action) : List BookOp :=
  ((ticksOf actions).filter (fun t => t.symbolId = symbolId)).map BookOp.update

theorem feed_getD (book : Option OrderBookV2) (ticks : List Tick) :
    (feed book ticks).getD .new = OrderBookV2.run (ticks.map BookOp.update) (book.getD .new) := by
  induction ticks generalizing book with
  | nil => rfl
  | cons t ticks ih => exact ih (some ((book.getD .new).update t))

theorem toLevel_injective : Function.Injective toLevel := by
  intro x y h
  rw [toLevel, toLevel, PriceLevel.mk.injEq] at h
  exact Prod.ext h.1 h.2

section Runs
variable [NearestDivision.NearestDiv] (ctx : StrategyContext) (strategies : List StrategyEntry) (s : ℕ)

def after (actions : List Action) : StrategyEngine := Schedule.run step actions (new ctx strategies)

theorem after_book (actions : List Action) :
    (after ctx strategies actions).bookOf s = OrderBookV2.run (updatesOf s actions) {} := by
  rw [bookOf, after, run_book, feed_getD]
  rfl

theorem after_ladders (actions : List Action) :
    (after ctx strategies actions).laddersOf s = BookLadder.run (updatesOf s actions) {} ∧
      OrderBookV2.Coherent ((after ctx strategies actions).bookOf s) := by
  obtain ⟨hcoherent,hladders⟩ :=
    OrderBookV2.run_refines (updatesOf s actions) {} OrderBookV2.new_coherent
  rw [laddersOf, after_book]
  exact ⟨hladders,hcoherent⟩

theorem after_levels (actions : List Action) :
    (after ctx strategies actions).levels s =
      (((after ctx strategies actions).laddersOf s).bids.map toLevel,
        ((after ctx strategies actions).laddersOf s).asks.map toLevel) := by
  obtain ⟨-,hcoherent⟩ := after_ladders ctx strategies s actions
  rw [levels, OrderBookV2.getBidLevels_eq _ hcoherent, OrderBookV2.getAskLevels_eq _ hcoherent, levelsOf,
    levelsOf, List.take_of_length_le hcoherent.sound.bids.depth,
    List.take_of_length_le hcoherent.sound.asks.depth]
  rfl

theorem levels_eq_iff (actions actions' : List Action) :
    (after ctx strategies actions).levels s = (after ctx strategies actions').levels s ↔
      BookLadder.run (updatesOf s actions) {} = BookLadder.run (updatesOf s actions') {} := by
  rw [after_levels, after_levels, (after_ladders ctx strategies s actions).1,
    (after_ladders ctx strategies s actions').1, Prod.mk.injEq,
    (List.map_injective_iff.mpr toLevel_injective).eq_iff,
    (List.map_injective_iff.mpr toLevel_injective).eq_iff]
  cases BookLadder.run (updatesOf s actions) {}
  cases BookLadder.run (updatesOf s actions') {}
  rw [Ladders.mk.injEq]

/-- With and without the trades, and the other symbols, the levels are the same. -/
def Agrees (actions : List Action) : Prop :=
  (after ctx strategies actions).levels s = (after ctx strategies (depthOnly s actions)).levels s

/-- A trade tick of the symbol changes nothing in the book it meets. -/
def Harmless (actions : List Action) (a : Action) : Prop := ∀ t r, a = .tick t r → t.symbolId = s →
  t.flags ≠ 0 → Standing ((after ctx strategies actions).laddersOf s) t

omit [NearestDivision.NearestDiv] in
theorem updatesOf_append (actions actions' : List Action) :
    updatesOf s (actions++actions') = updatesOf s actions++updatesOf s actions' := by
  rw [updatesOf, ticksOf, List.filterMap_append, List.filter_append, List.map_append]
  rfl

omit [NearestDivision.NearestDiv] in
theorem depthOnly_append (actions actions' : List Action) :
    depthOnly s (actions++actions') = depthOnly s actions++depthOnly s actions' := List.filter_append ..

theorem agrees_of_same (actions : List Action) (a : Action) (h : Agrees ctx strategies s actions)
    (hsame : updatesOf s (depthOnly s [a]) = updatesOf s [a]) : Agrees ctx strategies s (actions++[a]) := by
  rw [Agrees, levels_eq_iff] at h ⊢
  rw [depthOnly_append, updatesOf_append, updatesOf_append, run_append, run_append, h, hsame]

/-- A trade keeps the agreement exactly when it changes nothing. -/
theorem agrees_of_dropped (actions : List Action) (t : Tick) (r : Responses)
    (h : Agrees ctx strategies s actions) (hs : t.symbolId = s) (hf : t.flags ≠ 0) :
    Agrees ctx strategies s (actions++[Action.tick t r]) ↔
      Standing ((after ctx strategies actions).laddersOf s) t := by
  have hdropped : depthOnly s [Action.tick t r] = [] := by simp [depthOnly, isDepthTick, hf]
  have hupdates : updatesOf s [Action.tick t r] = [BookOp.update t] := by simp [updatesOf, ticksOf, hs]
  have hladders := (after_ladders ctx strategies s actions).1
  have hsound : Sound (BookLadder.run (updatesOf s actions) {}) :=
    run_sound _ _ ⟨sound_nil _,sound_nil _⟩
  rw [Agrees, levels_eq_iff] at h ⊢
  rw [depthOnly_append, updatesOf_append, run_append, hdropped, hupdates, List.append_nil, ← h, hladders,
    ← step_eq_self_iff _ t hsound]
  rfl

theorem agrees_step (actions : List Action) (a : Action) (h : Agrees ctx strategies s actions) :
    Agrees ctx strategies s (actions++[a]) ↔ Harmless ctx strategies s actions a := by
  cases a with
  | tick t r =>
    by_cases hs : t.symbolId = s
    · by_cases hf : t.flags = 0
      · have hsame : updatesOf s (depthOnly s [Action.tick t r]) = updatesOf s [Action.tick t r] := by
          simp [depthOnly, isDepthTick, hs, hf]
        refine iff_of_true (agrees_of_same ctx strategies s actions _ h hsame) ?_
        intro t' r' ht _ hf'
        cases ht
        exact absurd hf hf'
      · rw [agrees_of_dropped ctx strategies s actions t r h hs hf]
        constructor
        · intro hstanding t' r' ht _ _
          cases ht
          exact hstanding
        · exact fun hharmless => hharmless t r rfl hs hf
    · have hsame : updatesOf s (depthOnly s [Action.tick t r]) = updatesOf s [Action.tick t r] := by
        simp [depthOnly, isDepthTick, updatesOf, ticksOf, hs]
      refine iff_of_true (agrees_of_same ctx strategies s actions _ h hsame) ?_
      intro t' r' ht hs' _
      cases ht
      exact absurd hs' hs
  | fill f r =>
    refine iff_of_true (agrees_of_same ctx strategies s actions _ h rfl) ?_
    intro t' r' ht
    cases ht
  | idle r =>
    refine iff_of_true (agrees_of_same ctx strategies s actions _ h rfl) ?_
    intro t' r' ht
    cases ht

/-- Throughout a run the levels are those of the depth ticks alone if and only
if every trade of the symbol changes nothing in the book it meets. -/
theorem depth_unaltered_iff (actions : List Action) :
    (∀ n, Agrees ctx strategies s (actions.take n)) ↔
      ∀ before a rest, actions = before++a::rest → Harmless ctx strategies s before a :=
  Schedule.prefixes_iff (Agrees ctx strategies s) (Harmless ctx strategies s) rfl
    (agrees_step ctx strategies s) actions

end Runs

section Messages
open MarketDataProtocols

def tradeMessage : Json Unit := .object [("e",.string "aggTrade"),("s",.string "BTCUSDT"),
  ("p",.string "100"),("q",.string "2"),("T",.integer 1),("m",.bool false)]

def tradeTicks : List Tick :=
  (BinanceJsonProtocol.parseDocument 0 (fun _ => 1) tradeMessage).emitted

def tradeRun : List Action := tradeTicks.map (fun t => Action.tick t {})

/-- The trade leaves a bid in a book that has seen no depth. -/
theorem trade_becomes_bid :
    tradeTicks.map Tick.flags = [1] ∧
      (after { riskEngine := RiskEngine.initial } [] tradeRun).levels 1 = ([⟨.ofInt 100,.ofInt 2⟩],[]) ∧
      (after { riskEngine := RiskEngine.initial } [] (depthOnly 1 tradeRun)).levels 1 = ([],[]) ∧
      ¬Agrees { riskEngine := RiskEngine.initial } [] 1 tradeRun := by
  have hfull : (after { riskEngine := RiskEngine.initial } [] tradeRun).levels 1 =
      ([⟨.ofInt 100,.ofInt 2⟩],[]) := by decide +kernel
  have hdepth : (after { riskEngine := RiskEngine.initial } [] (depthOnly 1 tradeRun)).levels 1 =
      ([],[]) := by decide +kernel
  refine ⟨by decide +kernel,hfull,hdepth,?_⟩
  rw [Agrees, hfull, hdepth]
  decide

end Messages
end StrategyEngine
end Chronos
