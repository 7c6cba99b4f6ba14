import Chronos.BacktestCancels

/-!
# Fill modes

The history of a run keeps, for every fill, the numbers of the ticks in whose
callbacks its order was submitted, placed and filled, and the quotes after
every tick. In every mode an order is filled at the first quote it meets: that
quote is the only one since it was placed, and it may be the one that stood
when the order was submitted.
-/

set_option autoImplicit false

namespace Chronos
open KeyedTable Backtest

namespace Backtest

/-- A filled entry with the ticks in whose callbacks it was submitted, placed
and filled. `onLoad` is callback zero. -/
structure TimedFill where
  entry : Backtest.PendingOrder Decimal
  fill : Fill Decimal
  submitted : ℕ
  placed : ℕ
  filled : ℕ

/-- An engine with the history of its fills; `waiting` has the ticks at which
each entry of `pending` was submitted and placed. -/
structure Timed (S : Type) where
  engine : BacktestEngine S
  waiting : List (ℕ × ℕ) := []
  quotes : List (Quotes Decimal) := []
  fills : List TimedFill := []

namespace Timed
variable {S : Type} (t : Timed S)

def shown (side : OrderSide) : ℕ → Option Decimal
  | 0 => none
  | k+1 => t.quotes[k]?.bind (·.opposite side)

/-- The best prices from the tick at which an order was placed to that of its fill. -/
def since (x : TimedFill) : Set Decimal :=
  {p | ∃ k, x.placed ≤ k ∧ k ≤ x.filled ∧ t.shown x.entry.side k = some p}

def Worst (x : TimedFill) : Prop :=
  match x.entry.side with
  | .buy => IsGreatest (t.since x) x.fill.fillPrice
  | .sell => IsLeast (t.since x) x.fill.fillPrice

structure Later (x : TimedFill) : Prop where
  submitted : x.submitted < x.filled
  price : t.shown x.entry.side x.filled = some x.fill.fillPrice

/-- What the fill modes document, for every order that was filled. A cancel
request is no order; that it is filled too is left out here. -/
def FillModesKept (cfg : BacktestConfig Decimal) : Prop :=
  ∀ x ∈ t.fills, BacktestEngine.isCancel x.entry.strategyId = false →
    (cfg.fillMode = .nextTick → t.Later x) ∧ (cfg.fillMode = .conservative → t.Worst x)

end Timed
end Backtest

namespace BacktestEngine
variable {S : Type}

section Requests
variable [NearestDivision.NearestDiv] (clock : ℕ → ClockReadings)

def accepted (e : BacktestEngine S) : List OrderRequest → List OrderRequest
  | [] => []
  | order::orders =>
    (if (e.ctx.riskEngine.checkOrder e.ctx.positionManager order
        (e.nextCall clock order).readings).2.passed then [order] else [])++
      accepted (e.drainOne clock order) orders

variable (strategy : Strategy S)

def ticked (e : BacktestEngine S) (tick : Tick) : BacktestEngine S :=
  call clock (strategy.onTick e.strategy tick) (e.showTick tick)

def draining (e : BacktestEngine S) (tick : Tick) : BacktestEngine S :=
  { e.ticked clock strategy tick with ctx := { (e.ticked clock strategy tick).ctx with orderOutput := [] } }

def earlier (e : BacktestEngine S) (tick : Tick) : List OrderRequest :=
  accepted clock (e.draining clock strategy tick) e.ctx.orderOutput

def fresh (e : BacktestEngine S) (tick : Tick) : List OrderRequest :=
  accepted clock (e.ctx.orderOutput.foldl (drainOne clock) (e.draining clock strategy tick))
    ((e.ticked clock strategy tick).ctx.orderOutput.drop e.ctx.orderOutput.length)

/-- `onTick` submits an order that is accepted, and the book has a quote for it. -/
def FillsAtOnce (e : BacktestEngine S) (tick : Tick) : Prop :=
  ∃ order ∈ e.fresh clock strategy tick, isCancel order.strategyId = false ∧
    hasLiquidity ((e.ticked clock strategy tick).quotes tick) order.side = true

end Requests

section History
variable [NearestDivision.NearestDiv] (clock : ℕ → ClockReadings) (cfg : BacktestConfig Decimal)
variable (strategy : Strategy S)

def stamped (t : Timed S) (tick : Tick) : List (Backtest.PendingOrder Decimal × ℕ × ℕ) :=
  (t.engine.deliver clock strategy tick).pending.zip (t.waiting++
    (t.engine.earlier clock strategy tick).map (fun _ => (t.quotes.length,t.quotes.length+1))++
    (t.engine.fresh clock strategy tick).map (fun _ => (t.quotes.length+1,t.quotes.length+1)))

def timedTick (t : Timed S) (tick : Tick) : Timed S :=
  let q := (t.engine.deliver clock strategy tick).quotes tick
  let entries := stamped clock strategy t tick
  { engine := tickCallback clock cfg strategy t.engine tick
    waiting := (entries.filter (fun x => !hasLiquidity q x.1.side)).map Prod.snd
    quotes := t.quotes++[q]
    fills := t.fills++(entries.filter (fun x => hasLiquidity q x.1.side)).map
      (fun x => ⟨x.1,fillOf cfg q x.1,x.2.1,x.2.2,t.quotes.length+1⟩) }

def timedRun (ticks : List Tick) : Timed S :=
  ticks.foldl (timedTick clock cfg strategy) { engine := loaded clock cfg strategy }

end History

section Queue
variable [NearestDivision.NearestDiv] (clock : ℕ → ClockReadings) (strategy : Strategy S)

theorem call_queue (c : Callback S) (e : BacktestEngine S) :
    ∃ more, (call clock c e).ctx.orderOutput = e.ctx.orderOutput++more := by
  induction c generalizing e with
  | finish s => exact ⟨[],(List.append_nil _).symm⟩
  | submitOrder order next ih =>
    obtain ⟨first,hfirst⟩ := e.ctx.submitOrder_queue order (e.nextCall clock order).readings
    obtain ⟨rest,hrest⟩ := ih (e.submitOrder clock order).2 (e.submitOrder clock order).1
    have hsubmitted : (e.submitOrder clock order).1.ctx.orderOutput = e.ctx.orderOutput++first := hfirst
    exact ⟨first++rest,by rw [call, hrest, hsubmitted, List.append_assoc]⟩
  | cancelOrder orderId next ih =>
    obtain ⟨first,hfirst⟩ := e.ctx.cancelOrder_queue orderId
    obtain ⟨rest,hrest⟩ := ih (e.ctx.cancelOrder orderId).2
      { e with ctx := (e.ctx.cancelOrder orderId).1 }
    exact ⟨first++rest,by rw [call, hrest, hfirst, List.append_assoc]⟩
  | viewBook symbolId next ih => exact ih _ e
  | getPosition symbolId next ih => exact ih _ e
  | getAvailableCapital next ih => exact ih _ e
  | currentTimestampUs next ih => exact ih _ e

def entryKey (p : Backtest.PendingOrder Decimal) : OrderSide × ℕ := (p.side,p.strategyId)

def requestKey (order : OrderRequest) : OrderSide × ℕ := (order.side,order.strategyId)

omit [NearestDivision.NearestDiv] in
theorem markCancelled_keys (order : OrderRequest) (ps : List (Backtest.PendingOrder Decimal)) :
    (markCancelled order ps).map entryKey = ps.map entryKey := by
  unfold markCancelled
  split_ifs
  · rw [List.map_map]
    refine List.map_congr_left (fun p _ => ?_)
    rw [Function.comp_apply]
    split_ifs <;> rfl
  · rfl

theorem drainOne_keys (e : BacktestEngine S) (order : OrderRequest) :
    (e.drainOne clock order).pending.map entryKey =
      e.pending.map entryKey++(if (e.ctx.riskEngine.checkOrder e.ctx.positionManager order
        (e.nextCall clock order).readings).2.passed then [order] else []).map requestKey := by
  rw [drainOne_pending, List.map_append, markCancelled_keys]
  split_ifs <;> rfl

theorem drainAll_keys (orders : List OrderRequest) (e : BacktestEngine S) :
    (orders.foldl (drainOne clock) e).pending.map entryKey =
      e.pending.map entryKey++(accepted clock e orders).map requestKey := by
  induction orders generalizing e with
  | nil => exact (List.append_nil _).symm
  | cons order orders ih =>
    rw [List.foldl_cons, ih, drainOne_keys, accepted, List.map_append, List.append_assoc]

theorem deliver_keys (e : BacktestEngine S) (tick : Tick) :
    (e.deliver clock strategy tick).pending.map entryKey =
      e.pending.map entryKey++(e.earlier clock strategy tick).map requestKey++
        (e.fresh clock strategy tick).map requestKey := by
  obtain ⟨more,hmore⟩ := call_queue clock (strategy.onTick e.strategy tick) (e.showTick tick)
  have hqueue : (e.ticked clock strategy tick).ctx.orderOutput = e.ctx.orderOutput++more := hmore
  have hpending : (e.draining clock strategy tick).pending = e.pending :=
    congrArg Ledger.pending
      (call_market clock (strategy.onTick e.strategy tick) (e.showTick tick)).ledger
  have hdeliver : e.deliver clock strategy tick =
      (e.ticked clock strategy tick).ctx.orderOutput.foldl (drainOne clock)
        (e.draining clock strategy tick) := rfl
  rw [hdeliver, fresh, hqueue, List.drop_left, List.foldl_append, drainAll_keys, drainAll_keys,
    hpending]
  rfl

end Queue

section Invariant
variable [NearestDivision.NearestDiv] (clock : ℕ → ClockReadings) (cfg : BacktestConfig Decimal)
variable (strategy : Strategy S) (t : Timed S) (tick : Tick)

structure Unmet (side : OrderSide) (ticks : ℕ × ℕ) : Prop where
  submitted : ticks.1 ≤ ticks.2
  placed : 1 ≤ ticks.2
  length : ticks.2 ≤ t.quotes.length
  unquoted : ∀ k, ticks.2 ≤ k → t.shown side k = none

structure MetOnce (x : TimedFill) : Prop where
  submitted : x.submitted ≤ x.placed
  placed : x.placed ≤ x.filled
  filled : x.filled ≤ t.quotes.length
  unquoted : ∀ k, x.placed ≤ k → k < x.filled → t.shown x.entry.side k = none
  price : t.shown x.entry.side x.filled = some x.fill.fillPrice

structure HistoryInv : Prop where
  waiting : t.waiting.length = t.engine.pending.length
  unmet : ∀ x ∈ (t.engine.pending.map entryKey).zip t.waiting, Unmet t x.1.1 x.2
  fills : ∀ x ∈ t.fills, MetOnce t x

def tickQuotes : Quotes Decimal := (t.engine.deliver clock strategy tick).quotes tick

omit [NearestDivision.NearestDiv] in
theorem shown_late (side : OrderSide) (k : ℕ) (h : t.quotes.length < k) : t.shown side k = none := by
  obtain ⟨k,rfl⟩ : ∃ j, k = j+1 := ⟨k-1,by omega⟩
  rw [Timed.shown, List.getElem?_eq_none (by omega)]
  rfl

theorem shown_tick_self (side : OrderSide) :
    (timedTick clock cfg strategy t tick).shown side (t.quotes.length+1) =
      (tickQuotes clock strategy t tick).opposite side := by
  change (t.quotes++[_])[t.quotes.length]?.bind _ = _
  rw [List.getElem?_concat_length]
  rfl

theorem shown_tick_other (side : OrderSide) (k : ℕ) (h : k ≠ t.quotes.length+1) :
    (timedTick clock cfg strategy t tick).shown side k = t.shown side k := by
  cases k with
  | zero => rfl
  | succ k =>
    change (t.quotes++[_])[k]?.bind _ = t.quotes[k]?.bind _
    by_cases hk : k < t.quotes.length
    · rw [List.getElem?_append_left hk]
    · rw [List.getElem?_eq_none (by rw [List.length_append, List.length_singleton]; omega),
        List.getElem?_eq_none (by omega)]

theorem quotes_tick : (timedTick clock cfg strategy t tick).quotes.length = t.quotes.length+1 :=
  List.length_append

theorem ticked_quotes (e : BacktestEngine S) :
    (e.deliver clock strategy tick).quotes tick = (e.ticked clock strategy tick).quotes tick := by
  obtain ⟨_,_,hbook,_⟩ := deliver_ledger clock strategy tick e
  obtain ⟨_,hticked,_,_⟩ := call_market clock (strategy.onTick e.strategy tick) (e.showTick tick)
  exact quotes_congr tick (hbook.trans hticked.symm)

variable {t}

theorem stamps_length (h : HistoryInv t) :
    (t.engine.deliver clock strategy tick).pending.length = (t.waiting++
      (t.engine.earlier clock strategy tick).map (fun _ => (t.quotes.length,t.quotes.length+1))++
      (t.engine.fresh clock strategy tick).map
        (fun _ => (t.quotes.length+1,t.quotes.length+1))).length := by
  have hkeys := congrArg List.length (deliver_keys clock strategy t.engine tick)
  simpa only [List.length_map, List.length_append, h.waiting] using hkeys

theorem stamped_keys (h : HistoryInv t) :
    (stamped clock strategy t tick).map (fun x => (entryKey x.1,x.2)) =
      (t.engine.pending.map entryKey).zip t.waiting++
        (t.engine.earlier clock strategy tick).map
          (fun order => (requestKey order,t.quotes.length,t.quotes.length+1))++
        (t.engine.fresh clock strategy tick).map
          (fun order => (requestKey order,t.quotes.length+1,t.quotes.length+1)) := by
  have hzip : ∀ (ps : List (Backtest.PendingOrder Decimal)) (ws : List (ℕ × ℕ)),
      (ps.zip ws).map (fun x => (entryKey x.1,x.2)) = (ps.map entryKey).zip ws := by
    intro ps ws
    rw [List.zip_map_left]
    rfl
  have hold : (t.engine.pending.map entryKey).length = t.waiting.length := by
    rw [List.length_map, h.waiting]
  rw [stamped, hzip, deliver_keys, List.zip_append (by simp only [List.length_append, List.length_map,
    hold]), List.zip_append hold, List.zip_map', List.zip_map']

/-- An entry waited before, or it was made of a request queued in the callback
before or in this one. -/
theorem stamped_cases (h : HistoryInv t) (x : Backtest.PendingOrder Decimal × ℕ × ℕ)
    (hx : x ∈ stamped clock strategy t tick) :
    (entryKey x.1,x.2) ∈ (t.engine.pending.map entryKey).zip t.waiting ∨
      x.2 = (t.quotes.length,t.quotes.length+1) ∨
      x.2 = (t.quotes.length+1,t.quotes.length+1) ∧
        ∃ order ∈ t.engine.fresh clock strategy tick, entryKey x.1 = requestKey order := by
  have hmem : (entryKey x.1,x.2) ∈ (stamped clock strategy t tick).map (fun x => (entryKey x.1,x.2)) :=
    List.mem_map_of_mem hx
  rw [stamped_keys clock strategy tick h, List.mem_append, List.mem_append] at hmem
  rcases hmem with (hold | hearlier) | hfresh
  · exact Or.inl hold
  · obtain ⟨order,_,horder⟩ := List.mem_map.mp hearlier
    exact Or.inr (Or.inl (Prod.mk.inj horder).2.symm)
  · obtain ⟨order,hmem,horder⟩ := List.mem_map.mp hfresh
    obtain ⟨hkey,hticks⟩ := Prod.mk.inj horder
    exact Or.inr (Or.inr ⟨hticks.symm,order,hmem,hkey.symm⟩)

theorem stamped_unmet (h : HistoryInv t) (x : Backtest.PendingOrder Decimal × ℕ × ℕ)
    (hx : x ∈ stamped clock strategy t tick) :
    x.2.1 ≤ x.2.2 ∧ 1 ≤ x.2.2 ∧ x.2.2 ≤ t.quotes.length+1 ∧
      ∀ k, x.2.2 ≤ k → t.shown x.1.side k = none := by
  rcases stamped_cases clock strategy tick h x hx with hold | hticks | ⟨hticks,_⟩
  · obtain ⟨hsubmitted,hplaced,hlength,hunquoted⟩ := h.unmet _ hold
    exact ⟨hsubmitted,hplaced,Nat.le_succ_of_le hlength,hunquoted⟩
  · rw [hticks]
    exact ⟨Nat.le_succ _,Nat.le_add_left _ _,le_refl _,fun k hk => shown_late t _ k hk⟩
  · rw [hticks]
    exact ⟨le_refl _,Nat.le_add_left _ _,le_refl _,fun k hk => shown_late t _ k hk⟩

theorem stamped_pending (h : HistoryInv t) :
    (stamped clock strategy t tick).map Prod.fst = (t.engine.deliver clock strategy tick).pending :=
  List.map_fst_zip (stamps_length clock strategy tick h).le

theorem timedTick_pending (h : HistoryInv t) :
    (timedTick clock cfg strategy t tick).engine.pending =
      ((stamped clock strategy t tick).filter
        (fun x => !hasLiquidity (tickQuotes clock strategy t tick) x.1.side)).map Prod.fst := by
  change (tickCallback clock cfg strategy t.engine tick).pending = _
  rw [tickCallback_pending, ← stamped_pending clock strategy tick h, List.filter_map]
  rfl

theorem metOnce_tick (x : TimedFill) (h : MetOnce t x) :
    MetOnce (timedTick clock cfg strategy t tick) x := by
  have hfilled := h.filled
  constructor
  case submitted => exact h.submitted
  case placed => exact h.placed
  case filled =>
    rw [quotes_tick]
    omega
  case unquoted =>
    intro k hplaced hk
    rw [shown_tick_other clock cfg strategy t tick _ k (by omega)]
    exact h.unquoted k hplaced hk
  case price =>
    rw [shown_tick_other clock cfg strategy t tick _ _ (by omega)]
    exact h.price

theorem metOnce_filled (h : HistoryInv t) (x : Backtest.PendingOrder Decimal × ℕ × ℕ)
    (hx : x ∈ stamped clock strategy t tick)
    (hquote : hasLiquidity (tickQuotes clock strategy t tick) x.1.side = true) :
    MetOnce (timedTick clock cfg strategy t tick) ⟨x.1,
      fillOf cfg (tickQuotes clock strategy t tick) x.1,x.2.1,x.2.2,t.quotes.length+1⟩ := by
  obtain ⟨hsubmitted,_,hlength,hunquoted⟩ := stamped_unmet clock strategy tick h x hx
  rw [hasLiquidity_opposite, Option.isSome_iff_exists] at hquote
  obtain ⟨price,hprice⟩ := hquote
  constructor
  case submitted => exact hsubmitted
  case placed => exact hlength
  case filled => rw [quotes_tick]
  case unquoted =>
    intro k hplaced hk
    rw [shown_tick_other clock cfg strategy t tick _ k (Nat.ne_of_lt hk)]
    exact hunquoted k hplaced
  case price =>
    rw [shown_tick_self, hprice, fillOf, fillPrice_opposite, hprice, Option.getD_some]

theorem timedTick_inv (h : HistoryInv t) : HistoryInv (timedTick clock cfg strategy t tick) := by
  constructor
  case waiting =>
    rw [timedTick_pending clock cfg strategy tick h]
    exact (List.length_map _).trans (List.length_map _).symm
  case unmet =>
    intro x hx
    rw [timedTick_pending clock cfg strategy tick h, List.map_map] at hx
    change x ∈ List.zip _ (((stamped clock strategy t tick).filter
      (fun x => !hasLiquidity (tickQuotes clock strategy t tick) x.1.side)).map Prod.snd) at hx
    rw [List.zip_map'] at hx
    obtain ⟨y,hy,rfl⟩ := List.mem_map.mp hx
    obtain ⟨hmem,hquote⟩ := List.mem_filter.mp hy
    obtain ⟨hsubmitted,hplaced,hlength,hunquoted⟩ := stamped_unmet clock strategy tick h y hmem
    refine ⟨hsubmitted,hplaced,by rwa [quotes_tick],fun k hk => ?_⟩
    by_cases hlast : k = t.quotes.length+1
    · rw [hasLiquidity_opposite, Bool.not_eq_true'] at hquote
      have hnone : (tickQuotes clock strategy t tick).opposite y.1.side = none :=
        Option.isNone_iff_eq_none.mp (Option.isSome_eq_false_iff.mp hquote)
      rw [hlast, shown_tick_self]
      exact hnone
    · rw [shown_tick_other clock cfg strategy t tick _ k hlast]
      exact hunquoted k hk
  case fills =>
    intro x hx
    rcases List.mem_append.mp hx with hx | hx
    · exact metOnce_tick clock cfg strategy tick x (h.fills x hx)
    · obtain ⟨y,hy,rfl⟩ := List.mem_map.mp hx
      obtain ⟨hmem,hquote⟩ := List.mem_filter.mp hy
      exact metOnce_filled clock cfg strategy tick h y hmem hquote

end Invariant

section Modes
variable [NearestDivision.NearestDiv] (clock : ℕ → ClockReadings) (cfg : BacktestConfig Decimal)
variable (strategy : Strategy S)

def Delayed (t : Timed S) : Prop :=
  ∀ x ∈ t.fills, isCancel x.entry.strategyId = false → x.submitted < x.filled

/-- An entry that was submitted in the tick's own callback is that of an accepted request. -/
theorem stamped_fresh (t : Timed S) (tick : Tick) (h : HistoryInv t)
    (x : Backtest.PendingOrder Decimal × ℕ × ℕ) (hx : x ∈ stamped clock strategy t tick)
    (hticks : x.2.1 = t.quotes.length+1) :
    ∃ order ∈ t.engine.fresh clock strategy tick, entryKey x.1 = requestKey order := by
  rcases stamped_cases clock strategy tick h x hx with hold | hearlier | ⟨_,hfresh⟩
  · obtain ⟨hsubmitted,_,hlength,_⟩ := h.unmet _ hold
    have hle : x.2.1 ≤ t.quotes.length := Nat.le_trans hsubmitted hlength
    omega
  · rw [hearlier] at hticks
    exact absurd hticks (Nat.ne_of_lt (Nat.lt_succ_self _))
  · exact hfresh

theorem fresh_stamped (t : Timed S) (tick : Tick) (h : HistoryInv t) (order : OrderRequest)
    (horder : order ∈ t.engine.fresh clock strategy tick) :
    ∃ x ∈ stamped clock strategy t tick,
      entryKey x.1 = requestKey order ∧ x.2 = (t.quotes.length+1,t.quotes.length+1) := by
  have hmem : (requestKey order,t.quotes.length+1,t.quotes.length+1) ∈
      (stamped clock strategy t tick).map (fun x => (entryKey x.1,x.2)) := by
    rw [stamped_keys clock strategy tick h]
    exact List.mem_append_right _ (List.mem_map_of_mem horder)
  obtain ⟨x,hx,heq⟩ := List.mem_map.mp hmem
  exact ⟨x,hx,(Prod.mk.inj heq).1,(Prod.mk.inj heq).2⟩

theorem timedTick_delayed (t : Timed S) (tick : Tick) (h : HistoryInv t) :
    Delayed (timedTick clock cfg strategy t tick) ↔
      Delayed t ∧ ¬t.engine.FillsAtOnce clock strategy tick := by
  have hquotes : tickQuotes clock strategy t tick = (t.engine.ticked clock strategy tick).quotes tick :=
    ticked_quotes clock strategy tick t.engine
  constructor
  · refine fun hdelayed => ⟨fun x hx => hdelayed x (List.mem_append_left _ hx),?_⟩
    rintro ⟨order,horder,hcancel,hquote⟩
    obtain ⟨x,hx,hkey,hticks⟩ := fresh_stamped clock strategy t tick h order horder
    obtain ⟨hside,hstrategy⟩ := Prod.mk.inj hkey
    have hfilled : x ∈ (stamped clock strategy t tick).filter
        (fun x => hasLiquidity (tickQuotes clock strategy t tick) x.1.side) :=
      List.mem_filter.mpr ⟨hx,by rw [hquotes, hside]; exact hquote⟩
    have hlater := hdelayed _ (List.mem_append_right _ (List.mem_map_of_mem hfilled))
      (by rw [← hcancel, ← hstrategy])
    have hsubmitted : x.2.1 < t.quotes.length+1 := hlater
    rw [hticks] at hsubmitted
    exact Nat.lt_irrefl _ hsubmitted
  · rintro ⟨hdelayed,hnot⟩ x hx hcancel
    rcases List.mem_append.mp hx with hx | hx
    · exact hdelayed x hx hcancel
    · obtain ⟨y,hy,rfl⟩ := List.mem_map.mp hx
      obtain ⟨hmem,hquote⟩ := List.mem_filter.mp hy
      obtain ⟨hsubmitted,_,hlength,_⟩ := stamped_unmet clock strategy tick h y hmem
      refine Nat.lt_of_le_of_ne (Nat.le_trans hsubmitted hlength) (fun hticks => hnot ?_)
      obtain ⟨order,horder,hkey⟩ := stamped_fresh clock strategy t tick h y hmem hticks
      obtain ⟨hside,hstrategy⟩ := Prod.mk.inj hkey
      refine ⟨order,horder,hstrategy ▸ hcancel,?_⟩
      rw [← hquotes, ← hside]
      exact hquote

theorem loaded_inv : HistoryInv { engine := loaded clock cfg strategy } := by
  have hpending : (loaded clock cfg strategy).pending = [] :=
    congrArg Ledger.pending (loaded_ledger clock cfg strategy)
  constructor
  case waiting => rw [hpending]; rfl
  case unmet =>
    intro x hx
    rw [List.zip_nil_right] at hx
    cases hx
  case fills => exact fun x hx => by cases hx

theorem timedRun_inv (ticks : List Tick) : HistoryInv (timedRun clock cfg strategy ticks) := by
  unfold timedRun
  induction ticks using List.reverseRecOn with
  | nil => exact loaded_inv clock cfg strategy
  | append_singleton ticks tick ih =>
    rw [List.foldl_append, List.foldl_cons, List.foldl_nil]
    exact timedTick_inv clock cfg strategy tick ih

/-- The history is that of the run: its engine and its fills. -/
theorem timedRun_run (ticks : List Tick) :
    (timedRun clock cfg strategy ticks).engine = run clock cfg strategy ticks ∧
      (timedRun clock cfg strategy ticks).fills.map (fun x => (x.entry,x.fill)) =
        (run clock cfg strategy ticks).fills := by
  induction ticks using List.reverseRecOn with
  | nil => exact ⟨rfl,(congrArg Ledger.fills (loaded_ledger clock cfg strategy)).symm⟩
  | append_singleton ticks tick ih =>
    have hinv := timedRun_inv clock cfg strategy ticks
    have hhistory : timedRun clock cfg strategy (ticks++[tick]) =
        timedTick clock cfg strategy (timedRun clock cfg strategy ticks) tick := List.foldl_concat _ _ _ _
    have hrun : run clock cfg strategy (ticks++[tick]) =
        tickCallback clock cfg strategy (run clock cfg strategy ticks) tick := List.foldl_concat _ _ _ _
    obtain ⟨hengine,hfills⟩ := ih
    rw [hhistory, hrun, ← hengine] at *
    refine ⟨rfl,?_⟩
    rw [tickCallback, (settle_history clock cfg strategy _ tick).1, (deliver_history clock strategy _ tick).1,
      newFills, ← stamped_pending clock strategy tick hinv, List.filter_map, ← hfills]
    change List.map _ (_++_) = _
    rw [List.map_append, List.map_map, List.map_map]
    rfl

theorem timedRun_delayed (ticks : List Tick) :
    Delayed (timedRun clock cfg strategy ticks) ↔
      Schedule.Allowed (tickCallback clock cfg strategy)
        (fun e tick => ¬e.FillsAtOnce clock strategy tick) ticks (loaded clock cfg strategy) := by
  have hfold : ∀ t : Timed S, HistoryInv t →
      (Delayed (ticks.foldl (timedTick clock cfg strategy) t) ↔
        Delayed t ∧ Schedule.Allowed (tickCallback clock cfg strategy)
          (fun e tick => ¬e.FillsAtOnce clock strategy tick) ticks t.engine) := by
    induction ticks with
    | nil => exact fun t _ => (and_iff_left trivial).symm
    | cons tick ticks ih =>
      intro t ht
      rw [List.foldl_cons, ih _ (timedTick_inv clock cfg strategy tick ht),
        timedTick_delayed clock cfg strategy t tick ht, and_assoc]
      rfl
  have hempty : Delayed ({ engine := loaded clock cfg strategy } : Timed S) := fun x hx => by cases hx
  rw [timedRun, hfold _ (loaded_inv clock cfg strategy), and_iff_right hempty]

omit [NearestDivision.NearestDiv] in
theorem since_metOnce (t : Timed S) (x : TimedFill) (h : MetOnce t x) :
    t.since x = {x.fill.fillPrice} := by
  ext price
  constructor
  · rintro ⟨k,hplaced,hfilled,hprice⟩
    rcases Nat.lt_or_eq_of_le hfilled with hlt | rfl
    · rw [h.unquoted k hplaced hlt] at hprice
      cases hprice
    · rw [h.price] at hprice
      exact (Option.some.inj hprice).symm
  · rintro rfl
    exact ⟨x.filled,h.placed,le_refl _,h.price⟩

omit [NearestDivision.NearestDiv] in
theorem worst_metOnce (t : Timed S) (x : TimedFill) (h : MetOnce t x) : t.Worst x := by
  unfold Timed.Worst
  rw [since_metOnce t x h]
  cases x.entry.side
  · exact isGreatest_singleton
  · exact isLeast_singleton

/-- For every strategy, log, mode and clock, a run keeps the fill modes exactly
when no order is filled at once in the mode that waits for the next tick. -/
theorem fillModes_kept_iff (ticks : List Tick) :
    (timedRun clock cfg strategy ticks).FillModesKept cfg ↔
      (cfg.fillMode = .nextTick → Schedule.Allowed (tickCallback clock cfg strategy)
        (fun e tick => ¬e.FillsAtOnce clock strategy tick) ticks (loaded clock cfg strategy)) := by
  have hinv := timedRun_inv clock cfg strategy ticks
  rw [← timedRun_delayed]
  constructor
  · intro hkept hmode x hx hcancel
    exact ((hkept x hx hcancel).1 hmode).submitted
  · intro hdelayed x hx hcancel
    have hmet := hinv.fills x hx
    exact ⟨fun hmode => ⟨hdelayed hmode x hx hcancel,hmet.price⟩,
      fun _ => worst_metOnce _ x hmet⟩

end Modes

section Example

/-- The first tick is an ask, and the buy submitted at it is filled at it. -/
theorem buy_filledAtOnce :
    ¬(timedRun (fun _ => ⟨0,0⟩) mainConfig buyAndCancel [anAsk]).FillModesKept mainConfig := by
  have hfills : (timedRun (fun _ => ⟨0,0⟩) mainConfig buyAndCancel [anAsk]).fills.map
      (fun x => (x.entry.strategyId,x.submitted,x.filled)) = [(1,1,1)] := by decide +kernel
  intro hkept
  obtain ⟨x,hx,heq⟩ := List.mem_map.mp (hfills ▸ List.mem_singleton_self (1,1,1))
  obtain ⟨hstrategy,hticks⟩ := Prod.mk.inj heq
  obtain ⟨hsubmitted,hfilled⟩ := Prod.mk.inj hticks
  have hlater := ((hkept x hx (by rw [hstrategy]; rfl)).1 rfl).submitted
  rw [hsubmitted, hfilled] at hlater
  exact Nat.lt_irrefl _ hlater

end Example
end BacktestEngine
end Chronos
