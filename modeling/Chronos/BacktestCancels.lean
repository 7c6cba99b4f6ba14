import Chronos.BacktestEngine

/-!
# Cancel requests in a backtest

A cancel request waits like an order and is filled like one as soon as there
is an ask; the order it names stays where it is. A run fills no cancel request
and no cancelled order exactly when none of them meets a quote.
-/

set_option autoImplicit false

namespace Chronos
open KeyedTable Backtest

namespace BacktestEngine
variable {S : Type}

section Runs
variable [NearestDivision.NearestDiv] (clock : ℕ → ClockReadings) (cfg : BacktestConfig Decimal)
variable (strategy : Strategy S)

inductive Part where
  | deliver (tick : Tick)
  | settle (tick : Tick)

def part (e : BacktestEngine S) : Part → BacktestEngine S
  | .deliver tick => e.deliver clock strategy tick
  | .settle tick => e.settle clock cfg strategy tick

def partsOf (ticks : List Tick) : List Part :=
  ticks.flatMap (fun tick => [Part.deliver tick,Part.settle tick])

/-- A run is its parts in turn. -/
theorem run_parts (ticks : List Tick) :
    run clock cfg strategy ticks =
      Schedule.run (part clock cfg strategy) (partsOf ticks) (loaded clock cfg strategy) := by
  have hfold : ∀ e : BacktestEngine S, ticks.foldl (tickCallback clock cfg strategy) e =
      Schedule.run (part clock cfg strategy) (partsOf ticks) e := by
    induction ticks with
    | nil => exact fun e => rfl
    | cons tick ticks ih => exact fun e => ih (tickCallback clock cfg strategy e tick)
  exact hfold _

/-- The part that is filled is an order, and no cancel request for it was
drained while it waited. -/
def IsLive (p : Backtest.PendingOrder Decimal) : Prop :=
  isCancel p.strategyId = false ∧ p.cancelled = false

structure OnlyLiveFills (e : BacktestEngine S) : Prop where
  live : ∀ x ∈ e.fills, IsLive x.1
  trades : e.trades.length = e.fills.length

/-- When fills are simulated, what is not live has no quote on the other side. -/
def Unquoted (e : BacktestEngine S) : Part → Prop
  | .deliver _ => True
  | .settle tick => ∀ p ∈ e.pending, ¬IsLive p → hasLiquidity (e.quotes tick) p.side = false

def Booked (e : BacktestEngine S) : Prop := e.trades.length = e.fills.length

theorem part_booked (e : BacktestEngine S) (a : Part) (h : Booked e) :
    Booked (part clock cfg strategy e a) := by
  cases a with
  | deliver tick =>
    obtain ⟨hfills,htrades⟩ := deliver_history clock strategy e tick
    rw [Booked, part, hfills, htrades]
    exact h
  | settle tick =>
    obtain ⟨hfills,htrades⟩ := settle_history clock cfg strategy e tick
    rw [Booked, part, hfills, htrades, List.length_append]
    exact congrArg (·+_) h

theorem part_onlyLive_iff (e : BacktestEngine S) (a : Part) (hb : Booked e) (h : OnlyLiveFills e) :
    OnlyLiveFills (part clock cfg strategy e a) ↔ Unquoted e a := by
  have hbooked := part_booked clock cfg strategy e a hb
  cases a with
  | deliver tick =>
    refine ⟨fun _ => trivial,fun _ => ⟨?_,hbooked⟩⟩
    rw [part, (deliver_history clock strategy e tick).1]
    exact h.live
  | settle tick =>
    have hfills := (settle_history clock cfg strategy e tick).1
    constructor
    · intro hlive p hp hnot
      by_contra hquote
      have hfilled : (p,fillOf cfg (e.quotes tick) p) ∈ newFills cfg (e.quotes tick) e.pending :=
        List.mem_map_of_mem (List.mem_filter.mpr ⟨hp,by simpa using hquote⟩)
      have hmem : (p,fillOf cfg (e.quotes tick) p) ∈ (part clock cfg strategy e (.settle tick)).fills := by
        rw [part, hfills]
        exact List.mem_append_right _ hfilled
      exact hnot (hlive.live _ hmem)
    · intro hunquoted
      refine ⟨fun x hx => ?_,hbooked⟩
      rw [part, hfills, List.mem_append] at hx
      rcases hx with hx | hx
      · exact h.live x hx
      · obtain ⟨p,hp,rfl⟩ := List.mem_map.mp hx
        obtain ⟨hpending,hliquid⟩ := List.mem_filter.mp hp
        by_contra hnot
        rw [hunquoted p hpending hnot] at hliquid
        cases hliquid

/-- For every strategy, log, mode and clock, a run fills live orders only exactly
when nothing else that waits meets a quote. -/
theorem cancels_kept_iff (ticks : List Tick) :
    (∀ n, OnlyLiveFills (Schedule.run (part clock cfg strategy) ((partsOf ticks).take n)
      (loaded clock cfg strategy))) ↔
      Schedule.Allowed (part clock cfg strategy) Unquoted (partsOf ticks)
        (loaded clock cfg strategy) := by
  have hledger := loaded_ledger clock cfg strategy
  have hfills : (loaded clock cfg strategy).fills = [] := congrArg Ledger.fills hledger
  have htrades : (loaded clock cfg strategy).trades = [] := congrArg Ledger.trades hledger
  have hbooked : Booked (loaded clock cfg strategy) := by rw [Booked, hfills, htrades]; rfl
  refine Schedule.invariant_iff (part clock cfg strategy) (fun _ _ => True) Unquoted Booked
    OnlyLiveFills (part_booked clock cfg strategy)
    (fun e a _ hb h => part_onlyLive_iff clock cfg strategy e a hb h) (partsOf ticks) _
    (Schedule.allowed_of_forall _ _ (fun _ _ => trivial) _ _) hbooked ⟨?_,hbooked⟩
  rw [hfills]
  intro x hx
  cases hx

end Runs

section Example

def buyAndCancel : Strategy ℕ where
  new := 0
  onLoad n := .finish n
  onTick n _ := match n with
    | 0 => .submitOrder { symbolId := 1, price := .ofInt 100, quantity := .ofInt 1 }
        (fun id => .finish id)
    | n+1 => .cancelOrder (n+1) (fun _ => .finish (n+1))
  onFill n _ := .finish n

def onlyBid : Tick := { symbolId := 1, price := .ofInt 99, quantity := .ofInt 1 }

def anAsk : Tick := { symbolId := 1, price := .ofInt 101, quantity := .ofInt 1, side := .ask }

def mainConfig : BacktestConfig Decimal := { initialCapital := 0 }

def cancelRun : BacktestEngine ℕ :=
  run (fun _ => ⟨0,0⟩) mainConfig buyAndCancel [onlyBid,onlyBid,anAsk]

/-- When the ask comes, the cancelled order and the cancel requests are filled. -/
theorem cancelled_filled : ¬OnlyLiveFills cancelRun := by
  have hfills : cancelRun.fills.map (fun x => (x.1.strategyId,x.1.cancelled)) =
      [(1,true),(0,false),(0,false)] := by decide +kernel
  intro h
  have hlive : ∀ y ∈ cancelRun.fills.map (fun x => (x.1.strategyId,x.1.cancelled)), y.2 = false := by
    intro y hy
    obtain ⟨x,hx,rfl⟩ := List.mem_map.mp hy
    exact (h.live x hx).2
  rw [hfills] at hlive
  exact absurd (hlive (1,true) (by simp)) (by simp)

end Example
end BacktestEngine
end Chronos
