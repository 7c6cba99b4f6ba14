import Chronos.StrategyEngine
import Chronos.OrderBookV2Invariant
import Chronos.MarketDataProtocols
import Chronos.Subscriptions

/-!
# Whose ticks make a book

The books are stored under the symbol number alone. Two runs with the same
ticks of a market show the same book for it as long as no other exchange uses
the market's symbol number, and for no other set of markets.
-/

set_option autoImplicit false

namespace Chronos.StrategyEngine
open KeyedTable

structure View where
  bestBid : Option (Option Decimal)
  bestAsk : Option (Option Decimal)
  midPrice : Option (Option Decimal)
  top5Bids : Option (Vector PriceLevel OrderBookV2.hotDepth)
  top5Asks : Option (Vector PriceLevel OrderBookV2.hotDepth)

def view [NearestDivision.NearestDiv] (e : StrategyEngine) (symbolId : ℕ) : View where
  bestBid := e.getBestBid symbolId
  bestAsk := e.getBestAsk symbolId
  midPrice := e.getMidPrice symbolId
  top5Bids := e.getTop5Bids symbolId
  top5Asks := e.getTop5Asks symbolId

def marketTicks (exchangeId symbolId : ℕ) (actions : List Action) : List Tick :=
  (ticksOf actions).filter (fun t => t.exchangeId = exchangeId ∧ t.symbolId = symbolId)

def FromMarkets (markets : ℕ → ℕ → Prop) (actions : List Action) : Prop :=
  ∀ t ∈ ticksOf actions, markets t.exchangeId t.symbolId

section Runs
variable [NearestDivision.NearestDiv]

theorem view_congr (e e' : StrategyEngine) (s : ℕ) (h : e.orderBooks.find s = e'.orderBooks.find s) :
    e.view s = e'.view s := by
  simp only [view, getBestBid, getBestAsk, getMidPrice, getTop5Bids, getTop5Asks, query, h]

omit [NearestDivision.NearestDiv] in
theorem symbolTicks_eq (markets : ℕ → ℕ → Prop) (x s : ℕ) (h : ∀ x', markets x' s → x' = x)
    (actions : List Action) (hmarkets : FromMarkets markets actions) :
    (ticksOf actions).filter (fun t => t.symbolId = s) = marketTicks x s actions := by
  apply List.filter_congr
  intro t ht
  by_cases hs : t.symbolId = s
  · have hx : t.exchangeId = x := h _ (hs ▸ hmarkets t ht)
    simp [hs, hx]
  · simp [hs]

variable (ctx ctx' : StrategyContext) (strategies strategies' : List StrategyEntry)

/-- Any two runs over some markets, with any strategies, any fills and any
other ticks in between. -/
def Isolated (markets : ℕ → ℕ → Prop) (x s : ℕ) : Prop := ∀ actions actions' : List Action,
  FromMarkets markets actions → FromMarkets markets actions' →
    marketTicks x s actions = marketTicks x s actions' →
    (Schedule.run step actions (new ctx strategies)).view s =
      (Schedule.run step actions' (new ctx' strategies')).view s

theorem isolated_of_unshared (markets : ℕ → ℕ → Prop) (x s : ℕ) (h : ∀ x', markets x' s → x' = x) :
    Isolated ctx ctx' strategies strategies' markets x s := by
  intro actions actions' hmarkets hmarkets' hsame
  apply view_congr
  rw [run_book, run_book, symbolTicks_eq markets x s h actions hmarkets,
    symbolTicks_eq markets x s h actions' hmarkets', hsame]
  rfl

def bidTick (x s : ℕ) : Tick :=
  { exchangeId := x, symbolId := s, price := .ofInt 1, quantity := .ofInt 1 }

omit [NearestDivision.NearestDiv] in
theorem bidTick_bestBid (x s : ℕ) :
    (({} : OrderBookV2).update (bidTick x s)).getBestBid = some (some (.ofInt 1)) := by
  obtain ⟨hcoherent,hladders⟩ := OrderBookV2.update_coherent {} (bidTick x s) OrderBookV2.new_coherent
  have hempty : OrderBookV2.ladders ({} : OrderBookV2).getReadBuffer = {} := rfl
  have hpositive : (0 : Decimal) < .ofInt 1 := by decide
  rw [OrderBookV2.getBestBid_eq _ hcoherent, hladders, hempty]
  simp [BookLadder.step, BookLadder.settle, BookLadder.Ladders.bestBid, bidTick, hpositive,
    OrderedLevels.put, BookLadder.maxDepth]

/-- A tick of another exchange under the same number shows. -/
theorem not_isolated (markets : ℕ → ℕ → Prop) (x x' s : ℕ) (hx : markets x' s) (hne : x' ≠ x) :
    ¬Isolated ctx ctx' strategies strategies' markets x s := by
  intro h
  have hview := h [] [Action.tick (bidTick x' s) {}] (by simp [FromMarkets, ticksOf])
    (by simpa [FromMarkets, ticksOf, bidTick] using hx)
    (by simp [marketTicks, ticksOf, bidTick, hne])
  have hbook : (Schedule.run step [Action.tick (bidTick x' s) {}] (new ctx' strategies')).orderBooks.find s =
      some (({} : OrderBookV2).update (bidTick x' s)) := by
    rw [run_book]
    simp [ticksOf, bidTick, feed, new]
  have hnone : (Schedule.run step [] (new ctx strategies)).orderBooks.find s = none := rfl
  have hbid := congrArg View.bestBid hview
  simp only [view, getBestBid, query, hnone, hbook, bidTick_bestBid] at hbid
  cases hbid

/-- Exactly the markets whose symbol number no other exchange uses are isolated. -/
theorem isolated_iff_unshared (markets : ℕ → ℕ → Prop) (x s : ℕ) :
    Isolated ctx ctx' strategies strategies' markets x s ↔ ∀ x', markets x' s → x' = x := by
  constructor
  · intro h x' hx
    by_contra hne
    exact not_isolated ctx ctx' strategies strategies' markets x x' s hx hne h
  · exact isolated_of_unshared ctx ctx' strategies strategies' markets x s

end Runs

section Adapters
open MarketDataProtocols ThinMuxAdapter

def binanceSub : SubState := subscribe BinanceJsonProtocol.normalizeSymbol {} "BTCUSDT"
def okxSub : SubState := subscribe OKXJsonProtocol.normalizeSymbol {} "ETH-USDT"

def btcBid : Json Unit := .object [("e",.string "depthUpdate"),("E",.integer 1),("s",.string "BTCUSDT"),
  ("b",.array [.array [.string "100",.string "2"]]),("a",.array [])]

def ethBid : Json Unit := .object [
  ("arg",.object [("channel",.string "books5"),("instId",.string "ETH-USDT")]),
  ("data",.array [.object [("bids",.array [.array [.string "3000",.string "1"]]),("asks",.array []),
    ("ts",.string "1")]])]

def btcTicks : List Tick := (BinanceJsonProtocol.parseDocument 0
  (resolveSymbolId BinanceJsonProtocol.normalizeSymbol binanceSub) btcBid).emitted
def ethTicks : List Tick := (OKXJsonProtocol.parseDocument 0
  (resolveSymbolId OKXJsonProtocol.normalizeSymbol okxSub) ethBid).emitted

def dispatched (ticks : List Tick) : StrategyEngine :=
  Schedule.run step (ticks.map (fun t => Action.tick t {})) (new { riskEngine := RiskEngine.initial } [])

/-- Both symbols have number one. The OKX tick leaves the ticks of Binance's
market as they were, and the bid seen for it is that of the other exchange. -/
theorem sharedNumber_mixes :
    resolveSymbolId BinanceJsonProtocol.normalizeSymbol binanceSub "BTCUSDT" = 1 ∧
      resolveSymbolId OKXJsonProtocol.normalizeSymbol okxSub "ETH-USDT" = 1 ∧
      marketTicks 1 1 (btcTicks.map (fun t => Action.tick t {})) =
        marketTicks 1 1 ((btcTicks++ethTicks).map (fun t => Action.tick t {})) ∧
      (dispatched btcTicks).getBestBid 1 = some (some (.ofInt 100)) ∧
      (dispatched (btcTicks++ethTicks)).getBestBid 1 = some (some (.ofInt 3000)) ∧
      (dispatched btcTicks).view 1 ≠ (dispatched (btcTicks++ethTicks)).view 1 := by
  have hbtc : (dispatched btcTicks).getBestBid 1 = some (some (.ofInt 100)) := by decide +kernel
  have hboth : (dispatched (btcTicks++ethTicks)).getBestBid 1 = some (some (.ofInt 3000)) := by
    decide +kernel
  refine ⟨by decide +kernel,by decide +kernel,by decide +kernel,hbtc,hboth,?_⟩
  intro hview
  have hbid : (dispatched btcTicks).getBestBid 1 = (dispatched (btcTicks++ethTicks)).getBestBid 1 :=
    congrArg View.bestBid hview
  rw [hbtc, hboth] at hbid
  revert hbid
  decide

end Adapters
end Chronos.StrategyEngine
