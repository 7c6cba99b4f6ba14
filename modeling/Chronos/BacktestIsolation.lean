import Chronos.BacktestSale
import Chronos.TradeTicks

/-!
# Symbols of a backtest

All ticks of a log go into one book, the strategy is shown that book as symbol
one, and every tick fills the orders of every symbol. Two logs with the same
ticks of a symbol look the same to its strategy as long as the ticks of other
symbols change nothing in the shared book and meet no request in the queue.
-/

set_option autoImplicit false

namespace Chronos
open KeyedTable Backtest BookLadder

namespace Backtest
variable {S : Type}

/-- A callback that reads and trades one symbol. -/
def Callback.Only (symbolId : ℕ) : Callback S → Prop
  | .finish _ => True
  | .submitOrder order next => order.symbolId = symbolId ∧ ∀ id, (next id).Only symbolId
  | .cancelOrder _ next => ∀ ok, (next ok).Only symbolId
  | .viewBook s next => s = symbolId ∧ ∀ v, (next v).Only symbolId
  | .getPosition s next => s = symbolId ∧ ∀ p, (next p).Only symbolId
  | .getAvailableCapital next => ∀ c, (next c).Only symbolId
  | .currentTimestampUs next => ∀ t, (next t).Only symbolId

/-- A strategy of one symbol; ticks of others leave it as it is. -/
structure Strategy.Only (symbolId : ℕ) (strategy : Strategy S) : Prop where
  onLoad : ∀ s, (strategy.onLoad s).Only symbolId
  onTick : ∀ s tick, tick.symbolId = symbolId → (strategy.onTick s tick).Only symbolId
  onFill : ∀ s f, (strategy.onFill s f).Only symbolId
  others : ∀ s tick, tick.symbolId ≠ symbolId → strategy.onTick s tick = .finish s

end Backtest

namespace BacktestEngine

section Books

structure SameLevels (b b' : OrderBookV2) : Prop where
  left : OrderBookV2.Coherent b
  right : OrderBookV2.Coherent b'
  levels : OrderBookV2.ladders b'.getReadBuffer = OrderBookV2.ladders b.getReadBuffer

theorem sameLevels_new : SameLevels .new .new := ⟨OrderBookV2.new_coherent,OrderBookV2.new_coherent,rfl⟩

theorem sameLevels_update (b b' : OrderBookV2) (tick : Tick) (h : SameLevels b b') :
    SameLevels (b.update tick) (b'.update tick) := by
  obtain ⟨hleft,hlevels⟩ := OrderBookV2.update_coherent b tick h.left
  obtain ⟨hright,hlevels'⟩ := OrderBookV2.update_coherent b' tick h.right
  exact ⟨hleft,hright,by rw [hlevels, hlevels', h.levels]⟩

theorem sameLevels_standing (b b' : OrderBookV2) (tick : Tick) (h : SameLevels b b')
    (hs : Standing (OrderBookV2.ladders b.getReadBuffer) tick) : SameLevels b (b'.update tick) := by
  obtain ⟨hright,hlevels⟩ := OrderBookV2.update_coherent b' tick h.right
  refine ⟨h.left,hright,?_⟩
  rw [hlevels, h.levels, step_eq_self_iff _ tick h.left.sound]
  exact hs

theorem sameLevels_bestBid (b b' : OrderBookV2) (h : SameLevels b b') :
    b'.getBestBid = b.getBestBid := by
  rw [OrderBookV2.getBestBid_eq b' h.right, OrderBookV2.getBestBid_eq b h.left, h.levels]

theorem sameLevels_bestAsk (b b' : OrderBookV2) (h : SameLevels b b') :
    b'.getBestAsk = b.getBestAsk := by
  rw [OrderBookV2.getBestAsk_eq b' h.right, OrderBookV2.getBestAsk_eq b h.left, h.levels]

theorem sameLevels_mid [NearestDivision.NearestDiv] (b b' : OrderBookV2) (h : SameLevels b b') :
    b'.getMidPrice = b.getMidPrice := by
  rw [OrderBookV2.getMidPrice_eq b' h.right, OrderBookV2.getMidPrice_eq b h.left, h.levels]

theorem sameLevels_topBids (b b' : OrderBookV2) (h : SameLevels b b') :
    b'.getTop5Bids = b.getTop5Bids := by
  rw [(OrderBookV2.coherent_representation b' h.right).topBids,
    (OrderBookV2.coherent_representation b h.left).topBids, OrderBookV2.getBidLevels_eq b' h.right,
    OrderBookV2.getBidLevels_eq b h.left, h.levels]

theorem sameLevels_topAsks (b b' : OrderBookV2) (h : SameLevels b b') :
    b'.getTop5Asks = b.getTop5Asks := by
  rw [(OrderBookV2.coherent_representation b' h.right).topAsks,
    (OrderBookV2.coherent_representation b h.left).topAsks, OrderBookV2.getAskLevels_eq b' h.right,
    OrderBookV2.getAskLevels_eq b h.left, h.levels]

def SameTables (books books' : Table ℕ OrderBookV2) : Prop :=
  ∀ s, Option.Rel SameLevels (books.find s) (books'.find s)

theorem sameTables_getD (books books' : Table ℕ OrderBookV2) (s : ℕ) (h : SameTables books books') :
    SameLevels ((books.find s).getD .new) ((books'.find s).getD .new) := by
  have hs := h s
  cases hfind : books.find s <;> cases hfind' : books'.find s <;> rw [hfind, hfind'] at hs <;> cases hs
  · exact sameLevels_new
  · assumption

theorem sameTables_assign (books books' : Table ℕ OrderBookV2) (s : ℕ) (b b' : OrderBookV2)
    (h : SameTables books books') (hb : SameLevels b b') :
    SameTables (books.assign s b) (books'.assign s b') := by
  intro j
  rw [Table.find_assign, Table.find_assign]
  split_ifs
  · exact Option.Rel.some hb
  · exact h j

end Books

section Logs
variable {S : Type} [NearestDivision.NearestDiv]

section Runs
variable (clock : ℕ → ClockReadings) (cfg : BacktestConfig Decimal) (strategy : Strategy S)

/-- What the strategy is shown of a symbol after each of its ticks. -/
def viewsOf (symbolId : ℕ) : List Tick → BacktestEngine S → List StrategyEngine.View
  | [], _ => []
  | tick::ticks, e =>
    let e := tickCallback clock cfg strategy e tick
    if tick.symbolId = symbolId then e.view symbolId::viewsOf symbolId ticks e
    else viewsOf symbolId ticks e

def fillsOf (symbolId : ℕ) (e : BacktestEngine S) : List (ℕ × Decimal) :=
  (e.fills.filter (fun x => x.2.symbolId = symbolId)).map (fun x => (x.2.orderId,x.2.fillPrice))

end Runs

def shared (e : BacktestEngine S) : Ladders := OrderBookV2.ladders e.book.getReadBuffer

/-- The tick changes nothing in the shared book, and no request is drained at it. -/
structure PassesBy (e : BacktestEngine S) (tick : Tick) : Prop where
  standing : Standing e.shared tick
  queue : e.ctx.orderOutput = []

instance (e : BacktestEngine S) (tick : Tick) : Decidable (e.PassesBy tick) :=
  decidable_of_iff (Standing e.shared tick ∧ e.ctx.orderOutput = [])
    ⟨fun h => ⟨h.1,h.2⟩,fun h => ⟨h.standing,h.queue⟩⟩

/-- Every tick of another symbol passes by the engine it meets. -/
def Undisturbed (clock : ℕ → ClockReadings) (cfg : BacktestConfig Decimal) (strategy : Strategy S)
    (symbolId : ℕ) : List Tick → BacktestEngine S → Prop :=
  Schedule.Allowed (tickCallback clock cfg strategy)
    (fun e tick => tick.symbolId ≠ symbolId → e.PassesBy tick)

instance (clock : ℕ → ClockReadings) (cfg : BacktestConfig Decimal) (strategy : Strategy S)
    (symbolId : ℕ) (ticks : List Tick) (e : BacktestEngine S) :
    Decidable (Undisturbed clock cfg strategy symbolId ticks e) := Schedule.Allowed.decidable _ _ ticks e

section Mirrors

/-- The second engine is the first with other books of the same levels, and
another equity curve. -/
def Mirrors (e e' : BacktestEngine S) : Prop :=
  ∃ book orderBooks equity, SameLevels e.book book ∧ SameTables e.orderBooks orderBooks ∧
    e' = { e with book := book, orderBooks := orderBooks, equity := equity }

/-- Between two ticks the times may differ too. -/
def Between (e e' : BacktestEngine S) : Prop :=
  Mirrors e { e' with
    currentTickTs := e.currentTickTs
    ctx := { e'.ctx with timestampUs := e.ctx.timestampUs } }

omit [NearestDivision.NearestDiv] in
theorem between_of_mirrors {e e' : BacktestEngine S} (h : Mirrors e e') : Between e e' := by
  obtain ⟨book,orderBooks,equity,hbook,hbooks,rfl⟩ := h
  exact ⟨book,orderBooks,equity,hbook,hbooks,rfl⟩

omit [NearestDivision.NearestDiv] in
theorem between_fills {e e' : BacktestEngine S} (h : Between e e') : e'.fills = e.fills := by
  obtain ⟨book,orderBooks,equity,_,_,heq⟩ := h
  have hfills := congrArg BacktestEngine.fills heq
  exact hfills

omit [NearestDivision.NearestDiv] in
theorem mirrors_quotes {e e' : BacktestEngine S} (h : Mirrors e e') (tick : Tick) :
    e'.quotes tick = e.quotes tick := by
  obtain ⟨book,orderBooks,equity,hbook,_,rfl⟩ := h
  rw [quotes, quotes]
  dsimp only
  rw [sameLevels_bestBid e.book book hbook, sameLevels_bestAsk e.book book hbook]

theorem view_congr (e e' : BacktestEngine S) (h : SameTables e.orderBooks e'.orderBooks) (s : ℕ) :
    e'.view s = e.view s := by
  have hs := h s
  unfold view StrategyEngine.view StrategyEngine.getBestBid StrategyEngine.getBestAsk
    StrategyEngine.getMidPrice StrategyEngine.getTop5Bids StrategyEngine.getTop5Asks
    StrategyEngine.query
  dsimp only
  cases hfind : e.orderBooks.find s with
  | none =>
    rw [hfind] at hs
    cases hfind' : e'.orderBooks.find s with
    | none => rfl
    | some b' =>
      rw [hfind'] at hs
      cases hs
  | some b =>
    rw [hfind] at hs
    cases hfind' : e'.orderBooks.find s with
    | none =>
      rw [hfind'] at hs
      cases hs
    | some b' =>
      rw [hfind'] at hs
      cases hs with
      | some hb =>
        dsimp only
        rw [sameLevels_bestBid b b' hb, sameLevels_bestAsk b b' hb, sameLevels_mid b b' hb,
          sameLevels_topBids b b' hb, sameLevels_topAsks b b' hb]

variable (clock : ℕ → ClockReadings)

theorem call_mirrors (c : Callback S) (e e' : BacktestEngine S) (h : Mirrors e e') :
    Mirrors (call clock c e) (call clock c e') := by
  induction c generalizing e e' with
  | finish s =>
    obtain ⟨book,orderBooks,equity,hbook,hbooks,rfl⟩ := h
    exact ⟨book,orderBooks,equity,hbook,hbooks,rfl⟩
  | submitOrder order next ih =>
    obtain ⟨book,orderBooks,equity,hbook,hbooks,rfl⟩ := h
    exact ih _ _ _ ⟨book,orderBooks,equity,hbook,hbooks,rfl⟩
  | cancelOrder orderId next ih =>
    obtain ⟨book,orderBooks,equity,hbook,hbooks,rfl⟩ := h
    exact ih _ _ _ ⟨book,orderBooks,equity,hbook,hbooks,rfl⟩
  | viewBook symbolId next ih =>
    obtain ⟨book,orderBooks,equity,hbook,hbooks,rfl⟩ := h
    have hview := view_congr e { e with book := book, orderBooks := orderBooks, equity := equity }
      hbooks symbolId
    simp only [call]
    rw [hview]
    exact ih _ _ _ ⟨book,orderBooks,equity,hbook,hbooks,rfl⟩
  | getPosition symbolId next ih =>
    obtain ⟨book,orderBooks,equity,hbook,hbooks,rfl⟩ := h
    exact ih _ _ _ ⟨book,orderBooks,equity,hbook,hbooks,rfl⟩
  | getAvailableCapital next ih =>
    obtain ⟨book,orderBooks,equity,hbook,hbooks,rfl⟩ := h
    exact ih _ _ _ ⟨book,orderBooks,equity,hbook,hbooks,rfl⟩
  | currentTimestampUs next ih =>
    obtain ⟨book,orderBooks,equity,hbook,hbooks,rfl⟩ := h
    exact ih _ _ _ ⟨book,orderBooks,equity,hbook,hbooks,rfl⟩

omit [NearestDivision.NearestDiv] in
/-- Two loops mirror each other if one turn does. -/
theorem foldl_mirrors {α : Type} (f : BacktestEngine S → α → BacktestEngine S)
    (hstep : ∀ e e' x, Mirrors e e' → Mirrors (f e x) (f e' x)) (xs : List α)
    (e e' : BacktestEngine S) (h : Mirrors e e') : Mirrors (xs.foldl f e) (xs.foldl f e') := by
  induction xs generalizing e e' with
  | nil => exact h
  | cons x xs ih => exact ih _ _ (hstep e e' x h)

theorem drainOne_mirrors (e e' : BacktestEngine S) (order : OrderRequest) (h : Mirrors e e') :
    Mirrors (e.drainOne clock order) (e'.drainOne clock order) := by
  obtain ⟨book,orderBooks,equity,hbook,hbooks,rfl⟩ := h
  unfold drainOne
  dsimp only [nextCall]
  split_ifs
  · exact ⟨book,orderBooks,equity,hbook,hbooks,rfl⟩
  · exact ⟨book,orderBooks,equity,hbook,hbooks,rfl⟩

theorem drainOrderQueue_mirrors (e e' : BacktestEngine S) (h : Mirrors e e') :
    Mirrors (e.drainOrderQueue clock) (e'.drainOrderQueue clock) := by
  obtain ⟨book,orderBooks,equity,hbook,hbooks,rfl⟩ := h
  exact foldl_mirrors (drainOne clock) (drainOne_mirrors clock) e.ctx.orderOutput _ _
    ⟨book,orderBooks,equity,hbook,hbooks,rfl⟩

variable (cfg : BacktestConfig Decimal) (strategy : Strategy S)

theorem fillOne_mirrors (tick : Tick) (e e' : BacktestEngine S) (p : Backtest.PendingOrder Decimal)
    (h : Mirrors e e') :
    Mirrors (fillOne clock cfg strategy tick e p) (fillOne clock cfg strategy tick e' p) := by
  have hquotes := mirrors_quotes h tick
  obtain ⟨book,orderBooks,equity,hbook,hbooks,rfl⟩ := h
  unfold fillOne recordFill
  rw [hquotes]
  split_ifs
  · exact call_mirrors clock _ _ _ ⟨book,orderBooks,equity,hbook,hbooks,rfl⟩
  · exact ⟨book,orderBooks,equity,hbook,hbooks,rfl⟩

theorem settle_mirrors (tick : Tick) (e e' : BacktestEngine S) (h : Mirrors e e') :
    Mirrors (e.settle clock cfg strategy tick) (e'.settle clock cfg strategy tick) := by
  have hfills : Mirrors (e.simulateFillsForPending clock cfg strategy tick)
      (e'.simulateFillsForPending clock cfg strategy tick) := by
    obtain ⟨book,orderBooks,equity,hbook,hbooks,rfl⟩ := h
    exact foldl_mirrors (fillOne clock cfg strategy tick) (fillOne_mirrors clock cfg strategy tick)
      e.pending _ _ ⟨book,orderBooks,equity,hbook,hbooks,rfl⟩
  obtain ⟨book,orderBooks,equity,hbook,hbooks,heq⟩ := hfills
  rw [settle, settle, heq, recordEquity, recordEquity]
  split_ifs
  · exact ⟨book,orderBooks,_,hbook,hbooks,rfl⟩
  · exact ⟨book,orderBooks,equity,hbook,hbooks,rfl⟩

omit [NearestDivision.NearestDiv] in
theorem showTick_mirrors (tick : Tick) (e e' : BacktestEngine S) (h : Between e e') :
    Mirrors (e.showTick tick) (e'.showTick tick) := by
  obtain ⟨book,orderBooks,equity,hbook,hbooks,heq⟩ := h
  have hshow := congrArg (fun e : BacktestEngine S => e.showTick tick) heq
  have hsame : e'.showTick tick =
      ({ e with book := book, orderBooks := orderBooks, equity := equity } :
        BacktestEngine S).showTick tick := hshow
  rw [hsame]
  exact ⟨book.update tick,_,equity,sameLevels_update e.book book tick hbook,
    sameTables_assign e.orderBooks orderBooks 1 _ _ hbooks
      (sameLevels_update _ _ tick (sameTables_getD e.orderBooks orderBooks 1 hbooks)),rfl⟩

theorem tickCallback_mirrors (tick : Tick) (e e' : BacktestEngine S) (h : Between e e') :
    Mirrors (tickCallback clock cfg strategy e tick) (tickCallback clock cfg strategy e' tick) := by
  have hstrategy : e'.strategy = e.strategy := by
    obtain ⟨book,orderBooks,equity,_,_,heq⟩ := h
    have hstrategies := congrArg BacktestEngine.strategy heq
    exact hstrategies
  have hshow := showTick_mirrors tick e e' h
  rw [tickCallback, tickCallback, deliver, deliver, hstrategy]
  exact settle_mirrors clock cfg strategy tick _ _
    (drainOrderQueue_mirrors clock _ _ (call_mirrors clock _ _ _ hshow))

end Mirrors

section Foreign
variable (clock : ℕ → ClockReadings) (cfg : BacktestConfig Decimal) (strategy : Strategy S)

structure Quiet (e : BacktestEngine S) : Prop where
  waiting : ∀ p ∈ e.pending, ∀ tick, hasLiquidity (e.quotes tick) p.side = false
  shown : ∃ book, e.orderBooks.find 1 = some book ∧ SameLevels e.book book

def bookState (e : BacktestEngine S) : OrderBookV2 × Table ℕ OrderBookV2 := (e.book,e.orderBooks)

omit [NearestDivision.NearestDiv] in
theorem foldl_bookState {α : Type} (f : BacktestEngine S → α → BacktestEngine S)
    (hstep : ∀ e x, (f e x).bookState = e.bookState) (xs : List α) (e : BacktestEngine S) :
    (xs.foldl f e).bookState = e.bookState := by
  induction xs generalizing e with
  | nil => rfl
  | cons x xs ih => exact (ih (f e x)).trans (hstep e x)

theorem call_bookState (c : Callback S) (e : BacktestEngine S) :
    (call clock c e).bookState = e.bookState :=
  Prod.ext (call_market clock c e).book (call_market clock c e).orderBooks

theorem drainOne_bookState (e : BacktestEngine S) (order : OrderRequest) :
    (e.drainOne clock order).bookState = e.bookState := by
  unfold drainOne
  dsimp only
  split_ifs
  · rfl
  · rfl

theorem fillOne_bookState (tick : Tick) (e : BacktestEngine S) (p : Backtest.PendingOrder Decimal) :
    (fillOne clock cfg strategy tick e p).bookState = e.bookState := by
  unfold fillOne
  split_ifs
  · exact call_bookState clock _ (e.recordFill cfg tick p)
  · rfl

theorem settle_bookState (tick : Tick) (e : BacktestEngine S) :
    (e.settle clock cfg strategy tick).bookState = e.bookState := by
  have hfills : (e.simulateFillsForPending clock cfg strategy tick).bookState = e.bookState :=
    foldl_bookState (fillOne clock cfg strategy tick) (fillOne_bookState clock cfg strategy tick)
      e.pending { e with pending := [] }
  rw [settle, recordEquity]
  split_ifs
  · exact hfills
  · exact hfills

theorem deliver_bookState (tick : Tick) (e : BacktestEngine S) :
    (e.deliver clock strategy tick).bookState = (e.showTick tick).bookState :=
  (foldl_bookState (drainOne clock) (drainOne_bookState clock) _ _).trans
    (call_bookState clock (strategy.onTick e.strategy tick) (e.showTick tick))

theorem tickCallback_quiet (tick : Tick) (e : BacktestEngine S) (h : Quiet e) :
    Quiet (tickCallback clock cfg strategy e tick) := by
  have hdeliver := deliver_bookState clock strategy tick e
  have hsettle := settle_bookState clock cfg strategy tick (e.deliver clock strategy tick)
  constructor
  case waiting =>
    intro p hp other
    rw [tickCallback_pending] at hp
    have hnone := (List.mem_filter.mp hp).2
    have hbook : (tickCallback clock cfg strategy e tick).book = (e.deliver clock strategy tick).book :=
      congrArg Prod.fst hsettle
    cases hside : p.side <;> rw [hside] at hnone <;>
      simpa [hasLiquidity, quotes, hbook] using hnone
  case shown =>
    obtain ⟨book,hfind,hlevels⟩ := h.shown
    refine ⟨book.update tick,?_,?_⟩
    · have hbooks : (tickCallback clock cfg strategy e tick).orderBooks = (e.showTick tick).orderBooks :=
        congrArg Prod.snd (hsettle.trans hdeliver)
      rw [hbooks, showTick]
      dsimp only
      rw [Table.find_assign, if_pos rfl, hfind]
      rfl
    · have hbook : (tickCallback clock cfg strategy e tick).book = e.book.update tick :=
        congrArg Prod.fst (hsettle.trans hdeliver)
      rw [hbook]
      exact sameLevels_update e.book book tick hlevels

theorem foldl_unquoted (tick : Tick) (ps : List (Backtest.PendingOrder Decimal))
    (e : BacktestEngine S) (h : ∀ p ∈ ps, hasLiquidity (e.quotes tick) p.side = false) :
    ps.foldl (fillOne clock cfg strategy tick) e = { e with pending := e.pending++ps } := by
  induction ps generalizing e with
  | nil => rw [List.foldl_nil, List.append_nil]
  | cons p ps ih =>
    have hp : fillOne clock cfg strategy tick e p = { e with pending := e.pending++[p] } := by
      rw [fillOne, h p List.mem_cons_self]
      rfl
    have hrest := ih { e with pending := e.pending++[p] }
      (fun p' hp' => h p' (List.mem_cons_of_mem p hp'))
    rw [List.foldl_cons, hp, hrest]
    simp only [List.append_assoc, List.singleton_append]

theorem tickCallback_passing (tick : Tick) (e : BacktestEngine S) (h : Quiet e)
    (hpass : e.PassesBy tick) (hidle : strategy.onTick e.strategy tick = .finish e.strategy) :
    ∃ equity, tickCallback clock cfg strategy e tick = { e.showTick tick with equity := equity } := by
  obtain ⟨_,_,hsame⟩ := h.shown
  have hlevels := sameLevels_standing e.book e.book tick ⟨hsame.left,hsame.left,rfl⟩ hpass.standing
  have hdeliver : e.deliver clock strategy tick = e.showTick tick := by
    rw [deliver, hidle]
    change e.ctx.orderOutput.foldl (drainOne clock)
      { e.showTick tick with ctx := { (e.showTick tick).ctx with orderOutput := [] } } = _
    rw [hpass.queue, List.foldl_nil, showTick, ← hpass.queue]
  have hquotes : (e.showTick tick).quotes tick = e.quotes tick := by
    rw [quotes, quotes, showTick]
    dsimp only
    rw [sameLevels_bestBid _ _ hlevels, sameLevels_bestAsk _ _ hlevels]
  have hfills : (e.showTick tick).simulateFillsForPending clock cfg strategy tick = e.showTick tick :=
    foldl_unquoted clock cfg strategy tick e.pending { e.showTick tick with pending := [] }
      (fun p hp => (congrArg (hasLiquidity · p.side) hquotes).trans (h.waiting p hp tick))
  rw [tickCallback, hdeliver, settle, hfills, recordEquity]
  split_ifs
  · exact ⟨_,rfl⟩
  · exact ⟨_,rfl⟩

/-- A tick that passes by is not seen in the other run. -/
theorem passing_between (tick : Tick) (e e' : BacktestEngine S) (h : Between e e') (hquiet : Quiet e')
    (hpass : e'.PassesBy tick) (hidle : strategy.onTick e'.strategy tick = .finish e'.strategy) :
    Between e (tickCallback clock cfg strategy e' tick) := by
  obtain ⟨equity,hcallback⟩ := tickCallback_passing clock cfg strategy tick e' hquiet hpass hidle
  obtain ⟨shownBook,hfind,hshown⟩ := hquiet.shown
  obtain ⟨book,orderBooks,_,hbook,hbooks,heq⟩ := h
  have hbookEq : e'.book = book := congrArg BacktestEngine.book heq
  have hbooksEq : e'.orderBooks = orderBooks := congrArg BacktestEngine.orderBooks heq
  subst hbookEq
  subst hbooksEq
  rw [hcallback]
  refine ⟨e'.book.update tick,(e'.showTick tick).orderBooks,equity,?_,?_,?_⟩
  · exact sameLevels_standing e.book e'.book tick hbook (hbook.levels ▸ hpass.standing)
  · intro s
    have hs := hbooks s
    change Option.Rel SameLevels _ ((e'.orderBooks.assign 1 _).find s)
    rw [Table.find_assign]
    split_ifs with hone
    · subst hone
      rw [hfind] at hs ⊢
      cases hown : e.orderBooks.find 1 with
      | none =>
        rw [hown] at hs
        cases hs
      | some own =>
        rw [hown] at hs
        cases hs with
        | some hlevels =>
          refine Option.Rel.some (sameLevels_standing own shownBook tick hlevels ?_)
          have heq : OrderBookV2.ladders own.getReadBuffer = e'.shared := by
            rw [← hlevels.levels, hshown.levels]
            rfl
          rw [heq]
          exact hpass.standing
    · exact hs
  · exact congrArg (fun x : BacktestEngine S => ({ x with
      book := e'.book.update tick
      orderBooks := (e'.showTick tick).orderBooks
      equity := equity } : BacktestEngine S)) heq

end Foreign

section Runs
variable (clock : ℕ → ClockReadings) (cfg : BacktestConfig Decimal) (strategy : Strategy S)

theorem loaded_quiet : Quiet (loaded clock cfg strategy) := by
  have hpending : (loaded clock cfg strategy).pending = [] :=
    congrArg Ledger.pending (loaded_ledger clock cfg strategy)
  have hbooks : (loaded clock cfg strategy).bookState = (prepared strategy).bookState :=
    call_bookState clock (strategy.onLoad strategy.new) (prepared strategy)
  have hbook : (loaded clock cfg strategy).book = .new := congrArg Prod.fst hbooks
  have htable : (loaded clock cfg strategy).orderBooks = Table.empty.assign 1 .new :=
    congrArg Prod.snd hbooks
  constructor
  case waiting =>
    intro p hp
    rw [hpending] at hp
    cases hp
  case shown =>
    refine ⟨.new,?_,?_⟩
    · rw [htable, Table.find_assign, if_pos rfl]
    · rw [hbook]
      exact sameLevels_new

theorem loaded_between : Between (loaded clock cfg strategy) (loaded clock cfg strategy) := by
  have hbooks : (loaded clock cfg strategy).bookState = (prepared strategy).bookState :=
    call_bookState clock (strategy.onLoad strategy.new) (prepared strategy)
  have hbook : (loaded clock cfg strategy).book = .new := congrArg Prod.fst hbooks
  have htable : (loaded clock cfg strategy).orderBooks = Table.empty.assign 1 .new :=
    congrArg Prod.snd hbooks
  refine between_of_mirrors ⟨_,_,_,hbook ▸ sameLevels_new,?_,rfl⟩
  change SameTables (loaded clock cfg strategy).orderBooks (loaded clock cfg strategy).orderBooks
  rw [htable]
  exact sameTables_assign _ _ 1 _ _ (fun s => by rw [Table.find_empty]; exact Option.Rel.none)
    sameLevels_new

/-- Undisturbed, a log looks like its ticks of the symbol alone. -/
theorem undisturbed_filter (s : ℕ) (honly : strategy.Only s) (ticks : List Tick)
    (e e' : BacktestEngine S) (h : Between e e') (hquiet : Quiet e')
    (hundisturbed : Undisturbed clock cfg strategy s ticks e') :
    viewsOf clock cfg strategy s ticks e' =
        viewsOf clock cfg strategy s (ticks.filter (fun t => t.symbolId = s)) e ∧
      Between ((ticks.filter (fun t => t.symbolId = s)).foldl (tickCallback clock cfg strategy) e)
        (ticks.foldl (tickCallback clock cfg strategy) e') := by
  induction ticks generalizing e e' with
  | nil => exact ⟨rfl,h⟩
  | cons tick ticks ih =>
    obtain ⟨hpass,hrest⟩ := hundisturbed
    have hquiet' := tickCallback_quiet clock cfg strategy tick e' hquiet
    by_cases hs : tick.symbolId = s
    · have hmirrors := tickCallback_mirrors clock cfg strategy tick e e' h
      obtain ⟨hviews,hbetween⟩ := ih _ _ (between_of_mirrors hmirrors) hquiet' hrest
      have hview : (tickCallback clock cfg strategy e' tick).view s =
          (tickCallback clock cfg strategy e tick).view s := by
        obtain ⟨book,orderBooks,equity,_,hbooks,heq⟩ := hmirrors
        exact view_congr _ _ (heq ▸ hbooks) s
      rw [List.filter_cons_of_pos (by simpa using hs), viewsOf, viewsOf, if_pos hs, if_pos hs, hview,
        hviews]
      exact ⟨rfl,hbetween⟩
    · have hidle := honly.others e'.strategy tick hs
      have hbetween := passing_between clock cfg strategy tick e e' h hquiet (hpass hs) hidle
      rw [List.filter_cons_of_neg (by simpa using hs), viewsOf, if_neg hs]
      exact ih _ _ hbetween hquiet' hrest

/-- A symbol is isolated in two backtests with the same ticks of it, as long as
every tick of another symbol passes by the engine it meets. -/
theorem symbol_isolated (s : ℕ) (honly : strategy.Only s) (ticks ticks' : List Tick)
    (hsame : ticks.filter (fun t => t.symbolId = s) = ticks'.filter (fun t => t.symbolId = s))
    (h : Undisturbed clock cfg strategy s ticks (loaded clock cfg strategy))
    (h' : Undisturbed clock cfg strategy s ticks' (loaded clock cfg strategy)) :
    viewsOf clock cfg strategy s ticks (loaded clock cfg strategy) =
        viewsOf clock cfg strategy s ticks' (loaded clock cfg strategy) ∧
      (run clock cfg strategy ticks).fillsOf s = (run clock cfg strategy ticks').fillsOf s := by
  have hquiet := loaded_quiet clock cfg strategy
  have hself := loaded_between clock cfg strategy
  obtain ⟨hviews,hbetween⟩ := undisturbed_filter clock cfg strategy s honly ticks _ _ hself hquiet h
  obtain ⟨hviews',hbetween'⟩ :=
    undisturbed_filter clock cfg strategy s honly ticks' _ _ hself hquiet h'
  have hfills : (run clock cfg strategy ticks).fills = _ := between_fills hbetween
  have hfills' : (run clock cfg strategy ticks').fills = _ := between_fills hbetween'
  rw [hviews, hviews', hsame]
  refine ⟨rfl,?_⟩
  rw [fillsOf, fillsOf, hfills, hfills', hsame]

end Runs
end Logs

section Example

def saleClock (_ : ℕ) : ClockReadings := ⟨0,0⟩

def saleConfig : BacktestConfig Decimal := { initialCapital := 0 }

def sellOne : Strategy Unit where
  new := ()
  onLoad _ := .finish ()
  onTick _ tick :=
    if tick.symbolId = 1 then .submitOrder (smallSell 1 0 0) (fun _ => .finish ()) else .finish ()
  onFill _ _ := .finish ()

theorem sellOne_only : sellOne.Only 1 where
  onLoad _ := trivial
  onTick _ tick h := by
    have hsell : sellOne.onTick () tick = .submitOrder (smallSell 1 0 0) (fun _ => .finish ()) := if_pos h
    rw [hsell]
    exact ⟨rfl,fun _ => trivial⟩
  onFill _ _ := trivial
  others _ tick h := if_neg h

def bidOne : Tick := { symbolId := 1, price := .ofInt 1, quantity := .ofInt 1 }
def bidTwo : Tick := { symbolId := 2, price := .ofInt 2, quantity := .ofInt 1 }

/-- A bid of symbol two is shown as the best bid of symbol one, and its price is
what the sale of symbol one gets. -/
theorem otherBid_shows :
    sellOne.Only 1 ∧
      [bidOne].filter (fun t => t.symbolId = 1) = [bidTwo,bidOne].filter (fun t => t.symbolId = 1) ∧
      (viewsOf saleClock saleConfig sellOne 1 [bidOne] (loaded saleClock saleConfig sellOne)).map
          StrategyEngine.View.bestBid = [some (some (.ofInt 1))] ∧
      (viewsOf saleClock saleConfig sellOne 1 [bidTwo,bidOne]
          (loaded saleClock saleConfig sellOne)).map
          StrategyEngine.View.bestBid = [some (some (.ofInt 2))] ∧
      (run saleClock saleConfig sellOne [bidOne]).fillsOf 1 = [(1,.ofInt 1)] ∧
      (run saleClock saleConfig sellOne [bidTwo,bidOne]).fillsOf 1 = [(1,.ofInt 2)] := by
  refine ⟨sellOne_only,?_,?_,?_,?_,?_⟩
  all_goals decide +kernel

/-- A tick of symbol two that repeats the bid passes by, and so does one that
deletes a price the book does not have. -/
theorem passingTicks_isolated :
    viewsOf saleClock saleConfig sellOne 1 [bidOne,{ bidOne with symbolId := 2 },bidOne]
        (loaded saleClock saleConfig sellOne) =
      viewsOf saleClock saleConfig sellOne 1 [{ bidTwo with quantity := 0 },bidOne,bidOne]
        (loaded saleClock saleConfig sellOne) ∧
      (run saleClock saleConfig sellOne [bidOne,{ bidOne with symbolId := 2 },bidOne]).fillsOf 1 =
        (run saleClock saleConfig sellOne [{ bidTwo with quantity := 0 },bidOne,bidOne]).fillsOf 1 :=
  symbol_isolated saleClock saleConfig sellOne 1 sellOne_only _ _ (by decide +kernel)
    (by decide +kernel) (by decide +kernel)

end Example
end BacktestEngine
end Chronos
