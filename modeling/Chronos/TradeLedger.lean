import Chronos.BacktestLedger
import Chronos.PositionAccounting

/-!
# Trades and equity of a backtest

A trade is recorded for each fill, with the difference between the fill price
and the price of its own order as its profit, and it pays the fee; equity is
the profit of the positions and pays no fee. When all positions are flat, an
order makes no difference between the two only if its limit is about twice the
quote it meets.
-/

set_option autoImplicit false

namespace Chronos.TradeLedger
open KeyedTable Backtest PositionConservation PositionAccounting

variable (cfg : BacktestConfig ℚ)

def bookedPnl (x : Backtest.PendingOrder ℚ × Fill ℚ) : ℚ :=
  tradePnl x.1 x.2-(cfg.takerFee.elim 0 (fun rate => feeOf rate x.2))

theorem tradeOf_pnl (q : Quotes ℚ) (x : Backtest.PendingOrder ℚ × Fill ℚ) :
    (tradeOf cfg q x.1 x.2).pnl = bookedPnl cfg x := by
  unfold tradeOf bookedPnl
  cases cfg.takerFee with
  | none => exact (sub_zero _).symm
  | some rate => rfl

/-- What a fill books beyond its cash flow: twice its price less the price of
its order, and the fee. -/
def edge (x : Backtest.PendingOrder ℚ × Fill ℚ) : ℚ :=
  signedQuantity x.2*(2*x.2.fillPrice-x.1.price)-
    (cfg.takerFee.elim 0 (fun rate => feeOf rate x.2))

theorem booked_cash (x : Backtest.PendingOrder ℚ × Fill ℚ) : bookedPnl cfg x = cash x.2 0+edge cfg x := by
  unfold bookedPnl edge tradePnl cash signedQuantity
  cases x.2.side with
  | buy => ring
  | sell => ring

theorem booked_sum (xs : List (Backtest.PendingOrder ℚ × Fill ℚ)) :
    (xs.map (bookedPnl cfg)).sum = cashFlow (xs.map Prod.snd) 0+(xs.map (edge cfg)).sum := by
  induction xs with
  | nil => simp [cashFlow]
  | cons x xs ih =>
    simp only [cashFlow, List.map_cons, List.sum_cons] at ih ⊢
    rw [ih, booked_cash]
    ring

section Totals

/-- The profit of a whole table at mark zero, which is that at every mark once
all positions are flat. -/
def tablePnl (t : Table ℕ (Position ℚ)) : ℚ := (t.entries.map (fun x => x.2.getTotalPnL 0)).sum

theorem update_tablePnl (t : Table ℕ (Position ℚ)) (f : Fill ℚ) (hf : 0 ≤ f.fillQuantity) :
    tablePnl (updatePositions t f).1 = tablePnl t+cash f 0 := by
  rcases hf.eq_or_lt with hzero | hpos
  · rw [updatePositions, if_pos hzero.symm, cash, signed_zero f hzero.symm]
    ring
  · have hsum := fun v => Table.sum_replace (fun p : Position ℚ => p.getTotalPnL 0) f.symbolId v
      t.entries
    rw [updatePositions, if_neg (ne_of_gt hpos)]
    cases hfind : t.find f.symbolId with
    | none =>
      have hnew := hsum (createPosition f)
      rw [show Table.lookup f.symbolId t.entries = none from hfind, create_total] at hnew
      refine hnew.trans ?_
      simp only [tablePnl, Option.elim_none, sub_zero]
    | some p =>
      have hnew := hsum (movePosition p f)
      rw [show Table.lookup f.symbolId t.entries = some p from hfind, move_total p f 0 hpos] at hnew
      refine hnew.trans ?_
      simp only [tablePnl, Option.elim_some]
      ring

theorem fills_tablePnl (fills : List (Fill ℚ)) (t : Table ℕ (Position ℚ))
    (hf : ∀ f ∈ fills, 0 ≤ f.fillQuantity) :
    tablePnl (fillPositions fills t) = tablePnl t+cashFlow fills 0 := by
  induction fills generalizing t with
  | nil => simp [fillPositions, cashFlow]
  | cons f fs ih =>
    rw [fillPositions, ih _ (fun g hg => hf g (List.mem_cons_of_mem f hg)),
      update_tablePnl t f (hf f List.mem_cons_self)]
    simp only [cashFlow, List.map_cons, List.sum_cons]
    ring

def Flat (t : Table ℕ (Position ℚ)) : Prop := ∀ x ∈ t.entries, x.2.quantity = 0

theorem totalPnl_flat (q : Quotes ℚ) (t : Table ℕ (Position ℚ)) (h : Flat t) :
    totalPnl q t = tablePnl t := by
  unfold totalPnl tablePnl
  rw [List.sum_eq_foldl, List.foldl_map]
  refine List.foldl_ext _ _ _ (fun total x hx => ?_)
  rw [Position.getTotalPnL, Position.getUnrealizedPnL, Position.getTotalPnL,
    Position.getUnrealizedPnL, h x hx]
  ring

end Totals

section Runs

def fillsOf (inputs : List (Quotes ℚ × List (Backtest.PendingOrder ℚ))) :
    List (Backtest.PendingOrder ℚ × Fill ℚ) :=
  inputs.flatMap (fun i => newFills cfg i.1 i.2)

def lastEquity (l : Ledger ℚ) : ℚ := l.equity.getLast?.elim 0 Prod.snd

structure Recorded (initialEquity : ℚ) (fills : List (Backtest.PendingOrder ℚ × Fill ℚ))
    (l : Ledger ℚ) : Prop where
  positions : l.positions = fillPositions (fills.map Prod.snd) .empty
  trades : (l.trades.map Trade.pnl).sum = (fills.map (bookedPnl cfg)).sum
  equity : Flat l.positions → lastEquity l = initialEquity+tablePnl l.positions

theorem fillPositions_append (fills more : List (Fill ℚ)) (t : Table ℕ (Position ℚ)) :
    fillPositions (fills++more) t = fillPositions more (fillPositions fills t) := by
  induction fills generalizing t with
  | nil => rfl
  | cons f fs ih => exact ih _

theorem tick_recorded (initialEquity : ℚ) (fills : List (Backtest.PendingOrder ℚ × Fill ℚ))
    (l : Ledger ℚ) (input : Quotes ℚ × List (Backtest.PendingOrder ℚ))
    (hrec : cfg.recordEquityEveryTick = true) (h : Recorded cfg initialEquity fills l) :
    Recorded cfg initialEquity (fills++newFills cfg input.1 input.2)
      (l.tick cfg initialEquity input) := by
  unfold Ledger.tick Ledger.settle Ledger.recordEquity
  rw [simulateFills_eq, if_pos hrec]
  constructor
  case positions => rw [List.map_append, fillPositions_append, ← h.positions]
  case trades =>
    simp only [List.map_append, List.sum_append, List.map_map, h.trades]
    refine congrArg _ (congrArg List.sum (List.map_congr_left (fun x _ => ?_)))
    exact tradeOf_pnl cfg input.1 x
  case equity =>
    intro hflat
    simp only [lastEquity, List.getLast?_concat, Option.elim_some]
    rw [totalPnl_flat _ _ hflat]

theorem run_recorded (initialEquity : ℚ) (inputs : List (Quotes ℚ × List (Backtest.PendingOrder ℚ)))
    (hrec : cfg.recordEquityEveryTick = true) :
    Recorded cfg initialEquity (fillsOf cfg inputs) (Ledger.run cfg initialEquity inputs) := by
  have hfold : ∀ fills l, Recorded cfg initialEquity fills l →
      Recorded cfg initialEquity (fills++fillsOf cfg inputs)
        (inputs.foldl (fun l input => l.tick cfg initialEquity input) l) := by
    induction inputs with
    | nil =>
      intro fills l h
      rw [fillsOf, List.flatMap_nil, List.append_nil]
      exact h
    | cons input inputs ih =>
      intro fills l h
      rw [fillsOf, List.flatMap_cons, ← List.append_assoc]
      exact ih _ _ (tick_recorded cfg initialEquity fills l input hrec h)
  refine hfold [] _ ⟨rfl,rfl,fun _ => ?_⟩
  simp [lastEquity, tablePnl, Table.empty]

def met (inputs : List (Quotes ℚ × List (Backtest.PendingOrder ℚ))) :
    List (Quotes ℚ × Backtest.PendingOrder ℚ) :=
  inputs.flatMap (fun i => (i.2.filter (fun p => hasLiquidity i.1 p.side)).map (fun p => (i.1,p)))

/-- The multiple of the quote at which the profit booked for a fill is its cash flow. -/
def factor : OrderSide → ℚ
  | .buy => 2-cfg.takerFee.getD 0
  | .sell => 2+cfg.takerFee.getD 0

/-- The limit of an order is that multiple of the quote it meets. -/
def Priced (x : Quotes ℚ × Backtest.PendingOrder ℚ) : Prop :=
  x.2.quantity = 0 ∨ ∀ price ∈ x.1.opposite x.2.side, x.2.price = factor cfg x.2.side*price

instance (x : Quotes ℚ × Backtest.PendingOrder ℚ) : Decidable (Priced cfg x) :=
  inferInstanceAs (Decidable (_ ∨ ∀ price ∈ x.1.opposite x.2.side, _))

theorem met_fills (inputs : List (Quotes ℚ × List (Backtest.PendingOrder ℚ))) :
    fillsOf cfg inputs = (met inputs).map (fun x => (x.2,fillOf cfg x.1 x.2)) := by
  rw [fillsOf, met, List.map_flatMap]
  refine List.flatMap_congr (fun i _ => ?_)
  rw [newFills, List.map_map]
  rfl

theorem met_opposite (inputs : List (Quotes ℚ × List (Backtest.PendingOrder ℚ)))
    (x : Quotes ℚ × Backtest.PendingOrder ℚ) (hx : x ∈ met inputs) :
    ∃ price, x.1.opposite x.2.side = some price := by
  obtain ⟨i,_,hi⟩ := List.mem_flatMap.mp hx
  obtain ⟨p,hp,rfl⟩ := List.mem_map.mp hi
  have hquote := (List.mem_filter.mp hp).2
  rw [hasLiquidity_opposite] at hquote
  exact Option.isSome_iff_exists.mp hquote

/-- What the trade of an order books too much, by its limit and the quote it meets. -/
def mispricing (x : Quotes ℚ × Backtest.PendingOrder ℚ) : ℚ :=
  (x.1.opposite x.2.side).elim 0 (fun price => match x.2.side with
    | .buy => x.2.quantity*(factor cfg .buy*price-x.2.price)
    | .sell => x.2.quantity*(x.2.price-factor cfg .sell*price))

theorem edge_mispricing (x : Quotes ℚ × Backtest.PendingOrder ℚ) (price : ℚ)
    (hprice : x.1.opposite x.2.side = some price) :
    edge cfg (x.2,fillOf cfg x.1 x.2) = mispricing cfg x := by
  have hfill : (fillOf cfg x.1 x.2).fillPrice = price := by
    rw [fillOf, fillPrice_opposite, hprice, Option.getD_some]
  have hfee : cfg.takerFee.elim 0 (fun rate => feeOf rate (fillOf cfg x.1 x.2)) =
      price*x.2.quantity*cfg.takerFee.getD 0 := by
    cases cfg.takerFee with
    | none => rw [Option.getD_none, mul_zero]; rfl
    | some rate =>
      rw [Option.elim_some, feeOf, hfill]
      rfl
  rw [mispricing, hprice, edge, hfee, hfill, Option.elim_some]
  cases hside : x.2.side with
  | buy =>
    rw [signed_buy (fillOf cfg x.1 x.2) hside]
    change x.2.quantity*(2*price-x.2.price)-_ = x.2.quantity*(factor cfg .buy*price-x.2.price)
    rw [factor]
    ring
  | sell =>
    rw [signed_sell (fillOf cfg x.1 x.2) hside]
    change -x.2.quantity*(2*price-x.2.price)-_ = x.2.quantity*(x.2.price-factor cfg .sell*price)
    rw [factor]
    ring

theorem mispricing_zero_iff (x : Quotes ℚ × Backtest.PendingOrder ℚ) (price : ℚ)
    (hprice : x.1.opposite x.2.side = some price) : mispricing cfg x = 0 ↔ Priced cfg x := by
  have hpriced : Priced cfg x ↔
      x.2.quantity = 0 ∨ x.2.price = factor cfg x.2.side*price := by
    rw [Priced, hprice]
    simp only [Option.mem_def, Option.some.injEq, forall_eq']
  rw [hpriced, mispricing, hprice, Option.elim_some]
  cases x.2.side with
  | buy =>
    dsimp only
    rw [mul_eq_zero, sub_eq_zero, eq_comm (a := x.2.price)]
  | sell =>
    dsimp only
    rw [mul_eq_zero, sub_eq_zero]

/-- When all positions are flat at the end, the trades show more than the equity by
what the orders that met a quote were priced wrong. -/
theorem trades_exceed_equity (initialEquity : ℚ)
    (inputs : List (Quotes ℚ × List (Backtest.PendingOrder ℚ)))
    (hrec : cfg.recordEquityEveryTick = true)
    (hflat : Flat (Ledger.run cfg initialEquity inputs).positions)
    (hquantity : ∀ x ∈ met inputs, 0 ≤ x.2.quantity) :
    ((Ledger.run cfg initialEquity inputs).trades.map Trade.pnl).sum =
      lastEquity (Ledger.run cfg initialEquity inputs)-initialEquity+
        ((met inputs).map (mispricing cfg)).sum := by
  obtain ⟨hpositions,htrades,hequity⟩ := run_recorded cfg initialEquity inputs hrec
  have hstart : tablePnl (.empty : Table ℕ (Position ℚ)) = 0 := by simp [tablePnl, Table.empty]
  have hfills : ∀ f ∈ (fillsOf cfg inputs).map Prod.snd, 0 ≤ f.fillQuantity := by
    intro f hf
    rw [met_fills, List.map_map] at hf
    obtain ⟨x,hx,rfl⟩ := List.mem_map.mp hf
    exact hquantity x hx
  have hedges : (fillsOf cfg inputs).map (edge cfg) = (met inputs).map (mispricing cfg) := by
    rw [met_fills, List.map_map]
    refine List.map_congr_left (fun x hx => ?_)
    obtain ⟨price,hprice⟩ := met_opposite inputs x hx
    exact edge_mispricing cfg x price hprice
  rw [htrades, hequity hflat, hpositions, fills_tablePnl _ _ hfills, hstart, booked_sum, hedges]
  ring

/-- One number that is not zero among zeros. -/
theorem sum_of_one {A : Type} (f : A → ℚ) (xs : List A) (h : xs.countP (fun x => f x ≠ 0) = 1) :
    (xs.map f).sum ≠ 0 := by
  induction xs with
  | nil => cases h
  | cons x xs ih =>
    rw [List.map_cons, List.sum_cons]
    by_cases hx : f x = 0
    · rw [List.countP_cons_of_neg (by simpa using hx)] at h
      rw [hx, zero_add]
      exact ih h
    · rw [List.countP_cons_of_pos (by simpa using hx)] at h
      have hrest : (xs.map f).sum = 0 := by
        refine List.sum_eq_zero (fun y hy => ?_)
        obtain ⟨z,hz,rfl⟩ := List.mem_map.mp hy
        have hnone := List.countP_eq_zero.mp (Nat.succ.inj h) z hz
        simpa using hnone
      rw [hrest, add_zero]
      exact hx

/-- When all positions are flat at the end and no quantity was negative, trades
and equity agree exactly if what the orders were priced wrong cancels out: so if
every order that met a quote was priced at its multiple of the quote, and not if
all but one were. -/
theorem trades_agree_of_priced (initialEquity : ℚ)
    (inputs : List (Quotes ℚ × List (Backtest.PendingOrder ℚ)))
    (hrec : cfg.recordEquityEveryTick = true)
    (hflat : Flat (Ledger.run cfg initialEquity inputs).positions)
    (hquantity : ∀ x ∈ met inputs, 0 ≤ x.2.quantity) :
    (((Ledger.run cfg initialEquity inputs).trades.map Trade.pnl).sum =
        lastEquity (Ledger.run cfg initialEquity inputs)-initialEquity ↔
      ((met inputs).map (mispricing cfg)).sum = 0) ∧
    ((∀ x ∈ met inputs, Priced cfg x) →
      ((Ledger.run cfg initialEquity inputs).trades.map Trade.pnl).sum =
        lastEquity (Ledger.run cfg initialEquity inputs)-initialEquity) ∧
    ((met inputs).countP (fun x => ¬Priced cfg x) = 1 →
      ((Ledger.run cfg initialEquity inputs).trades.map Trade.pnl).sum ≠
        lastEquity (Ledger.run cfg initialEquity inputs)-initialEquity) := by
  have hexceed := trades_exceed_equity cfg initialEquity inputs hrec hflat hquantity
  have hagree : ((Ledger.run cfg initialEquity inputs).trades.map Trade.pnl).sum =
        lastEquity (Ledger.run cfg initialEquity inputs)-initialEquity ↔
      ((met inputs).map (mispricing cfg)).sum = 0 := by rw [hexceed, add_eq_left]
  have hzero : ∀ x ∈ met inputs, mispricing cfg x = 0 ↔ Priced cfg x := by
    intro x hx
    obtain ⟨price,hprice⟩ := met_opposite inputs x hx
    exact mispricing_zero_iff cfg x price hprice
  refine ⟨hagree,fun hpriced => hagree.mpr ?_,fun hone => hagree.not.mpr ?_⟩
  · refine List.sum_eq_zero (fun y hy => ?_)
    obtain ⟨x,hx,rfl⟩ := List.mem_map.mp hy
    exact (hzero x hx).mpr (hpriced x hx)
  · have hcount : (met inputs).countP (fun x => mispricing cfg x ≠ 0) = 1 := by
      rw [← hone]
      refine List.countP_congr (fun x hx => ?_)
      simp only [decide_eq_true_eq, ne_eq, hzero x hx]
    exact sum_of_one _ _ hcount

end Runs

section Example

def exampleConfig : BacktestConfig ℚ := { initialCapital := 0 }

def exampleOrder (orderId : ℕ) (side : OrderSide) (price : ℚ) : Backtest.PendingOrder ℚ where
  orderId := orderId
  symbolId := 1
  side := side
  price := price
  quantity := 1
  placedAtUs := orderId
  strategyId := currentStrategyId

def roundTrip (buyLimit sellLimit : ℚ) : List (Quotes ℚ × List (Backtest.PendingOrder ℚ)) :=
  [(⟨100,1,none,some 100⟩,[exampleOrder 1 .buy buyLimit]),
   (⟨100,2,none,none⟩,[]),
   (⟨110,3,some 110,none⟩,[exampleOrder 2 .sell sellLimit])]

/-- Both at their limits, the trades show no profit and the equity ten. -/
theorem roundTrip_disagrees :
    Flat (Ledger.run exampleConfig 10000 (roundTrip 100 110)).positions ∧
      ((Ledger.run exampleConfig 10000 (roundTrip 100 110)).trades.map Trade.pnl).sum = 0 ∧
      lastEquity (Ledger.run exampleConfig 10000 (roundTrip 100 110)) = 10010 := by
  unfold Flat
  decide +kernel

/-- With limits of twice the quotes they agree, with one of them they do not. -/
theorem roundTrip_priced :
    ((Ledger.run exampleConfig 10000 (roundTrip 200 220)).trades.map Trade.pnl).sum =
        lastEquity (Ledger.run exampleConfig 10000 (roundTrip 200 220))-10000 ∧
      ((Ledger.run exampleConfig 10000 (roundTrip 200 110)).trades.map Trade.pnl).sum ≠
        lastEquity (Ledger.run exampleConfig 10000 (roundTrip 200 110))-10000 :=
  ⟨(trades_agree_of_priced exampleConfig 10000 (roundTrip 200 220) rfl
      (by unfold Flat; decide +kernel) (by decide +kernel)).2.1 (by decide +kernel),
    (trades_agree_of_priced exampleConfig 10000 (roundTrip 200 110) rfl
      (by unfold Flat; decide +kernel) (by decide +kernel)).2.2 (by decide +kernel)⟩

end Example
end Chronos.TradeLedger
