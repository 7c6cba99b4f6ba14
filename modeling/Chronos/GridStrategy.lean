import Chronos.Types
import Chronos.Schedule
import Chronos.SlotRegister

/-!
# The grid strategy

`GridStrategy` keeps two orders a level, one a side. Ticks fill the free slots
on the right side of the mid price, a fill moves an order to the neighbouring
level, and the timer cancels what has come to stand on the wrong side. The
book and the answers of `submitOrder` and `cancelOrder` are the environment's.

Prices are compared as binary floating-point numbers, whose type and operations
are a parameter.
-/

set_option autoImplicit false

namespace Chronos

namespace GridStrategy

class Doubles (F : Type) extends Add F, Sub F, Mul F, Div F, LT F, IntCast F, OfScientific F where
  ltDecidable : ∀ x y : F, Decidable (x < y)
  round : F → F
  toDouble : Decimal → F
  toDecimal : F → Decimal

export Doubles (toDouble toDecimal)

instance Doubles.decidableLT {F : Type} [Doubles F] : DecidableLT F := Doubles.ltDecidable

structure Config (F : Type) where
  gridLow : F
  gridHigh : F
  gridLevels : ℤ
  quantity : F
  symbolId : ℕ

structure GridLevel where
  price : Decimal
  buyOrderId : ℕ
  sellOrderId : ℕ
  deriving DecidableEq

namespace GridLevel

def orderId (level : GridLevel) : OrderSide → ℕ
  | .buy => level.buyOrderId
  | .sell => level.sellOrderId

def setOrderId (level : GridLevel) (side : OrderSide) (id : ℕ) : GridLevel :=
  match side with
  | .buy => { level with buyOrderId := id }
  | .sell => { level with sellOrderId := id }

end GridLevel

abbrev Slot := ℕ × OrderSide

section Levels
variable (levels : List GridLevel)

def idAt (slot : Slot) : ℕ := ((levels[slot.1]?).map (fun l => l.orderId slot.2)).getD 0

def setIdAt (slot : Slot) (id : ℕ) : List GridLevel :=
  levels.modify slot.1 (fun l => l.setOrderId slot.2 id)

def prices : List Decimal := levels.map GridLevel.price

def priceAt (i : ℕ) : Decimal := ((prices levels)[i]?).getD 0

theorem setIdAt_length (slot : Slot) (id : ℕ) : (setIdAt levels slot id).length = levels.length :=
  List.length_modify ..

theorem setIdAt_getElem? (slot : Slot) (id j : ℕ) : (setIdAt levels slot id)[j]? =
    (levels[j]?).map (fun l => if slot.1 = j then l.setOrderId slot.2 id else l) :=
  List.getElem?_modify ..

theorem setIdAt_prices (slot : Slot) (id : ℕ) : prices (setIdAt levels slot id) = prices levels := by
  have hprice : ∀ l : GridLevel, (l.setOrderId slot.2 id).price = l.price := by
    intro l
    cases slot.2 <;> rfl
  apply List.ext_getElem?
  intro i
  rw [prices, prices, List.getElem?_map, List.getElem?_map, setIdAt_getElem?, Option.map_map]
  congr 1
  funext l
  show (if slot.1 = i then l.setOrderId slot.2 id else l).price = l.price
  split_ifs
  · exact hprice l
  · rfl

theorem setIdAt_idAt (slot : Slot) (id : ℕ) (h : slot.1 < levels.length) :
    idAt (setIdAt levels slot id) = Function.update (idAt levels) slot id := by
  obtain ⟨i,side⟩ := slot
  ext ⟨j,side'⟩
  rw [idAt, setIdAt_getElem?, Option.map_map]
  by_cases hij : i = j
  · subst hij
    have hget : levels[i]? = some levels[i] := List.getElem?_eq_getElem h
    by_cases hside : side' = side
    · subst hside
      rw [Function.update_self, hget]
      show (if i = i then levels[i].setOrderId side' id else levels[i]).orderId side' = id
      rw [if_pos rfl]
      cases side' <;> rfl
    · have hne : ((i,side') : Slot) ≠ (i,side) := fun heq => hside (Prod.mk.inj heq).2
      rw [Function.update_of_ne hne, idAt, hget]
      show (if i = i then levels[i].setOrderId side id else levels[i]).orderId side' = levels[i].orderId side'
      rw [if_pos rfl]
      cases side <;> cases side' <;> first | exact absurd rfl hside | rfl
  · have hne : ((j,side') : Slot) ≠ (i,side) := fun heq => hij (Prod.mk.inj heq).1.symm
    rw [Function.update_of_ne hne, idAt]
    congr 2
    ext l
    show (if i = j then l.setOrderId side id else l).orderId side' = l.orderId side'
    rw [if_neg hij]

end Levels
end GridStrategy

open GridStrategy in
/-- `submitted`, `issued` and `live` are history: the requests that were made, the
identifiers that came back, and those of them that are neither completely filled
nor cancelled. -/
structure GridStrategy (F : Type) where
  cfg : Config F
  levels : List GridLevel
  initialized : Bool := false
  ticksProcessed : ℕ := 0
  fillsProcessed : ℕ := 0
  submitted : List OrderRequest := []
  issued : Finset ℕ := ∅
  live : Finset ℕ := ∅

namespace GridStrategy
variable {F : Type} [Doubles F]

def larger (a b : F) : F := if a < b then b else a

def smaller (a b : F) : F := if b < a then b else a

def new (cfg : Config F) : GridStrategy F :=
  let spacing := (cfg.gridHigh-cfg.gridLow)/(cfg.gridLevels : F)
  { cfg := cfg
    levels := (List.range (cfg.gridLevels+1).toNat).map
      (fun i : ℕ => ⟨toDecimal (cfg.gridLow+spacing*((i : ℤ) : F)),0,0⟩) }

def roundPrice (price : Decimal) (decimals : ℕ) : Decimal :=
  let v : F := toDouble price
  let scale : F := ((10^decimals : ℤ) : F)
  toDecimal (Doubles.round (v*scale)/scale)

section Placing
variable (s : GridStrategy F)

def placeAt (side : OrderSide) (levelIdx : ℕ) (price : Decimal) (oid : ℕ) : GridStrategy F :=
  let order : OrderRequest := {
    symbolId := s.cfg.symbolId
    price := roundPrice (F := F) price 1
    quantity := toDecimal s.cfg.quantity
    side := side
    type := .limit
    tif := .gtc }
  let s := { s with submitted := s.submitted++[order] }
  if oid = 0 then s
  else { s with
    levels := setIdAt s.levels (levelIdx,side) oid
    issued := insert oid s.issued
    live := insert oid s.live }

def placeBuyAt (levelIdx : ℕ) (price : Decimal) (oid : ℕ) : GridStrategy F :=
  s.placeAt .buy levelIdx price oid

def placeSellAt (levelIdx : ℕ) (price : Decimal) (oid : ℕ) : GridStrategy F :=
  s.placeAt .sell levelIdx price oid

end Placing

structure TickLoop (F : Type) where
  strategy : GridStrategy F
  buyOffset : ℤ := 0
  sellOffset : ℤ := 0

def countTick (s : GridStrategy F) (oid : ℕ) : GridStrategy F :=
  if oid = 0 then s else { s with ticksProcessed := s.ticksProcessed+1 }

def tickBuy (midVal : F) (answer : Slot → ℕ) (loop : TickLoop F) (i : ℕ) : TickLoop F :=
  let levelPrice : F := toDouble (priceAt loop.strategy.levels i)
  if levelPrice < midVal ∧ idAt loop.strategy.levels (i,.buy) = 0 then
    let aggressive := larger levelPrice midVal+0.5+(loop.buyOffset : F)*0.1
    let oid := answer (i,.buy)
    { loop with
      strategy := (loop.strategy.placeBuyAt i (toDecimal aggressive) oid).countTick oid
      buyOffset := loop.buyOffset+1 }
  else loop

def tickSell (midVal : F) (answer : Slot → ℕ) (loop : TickLoop F) (i : ℕ) : TickLoop F :=
  let levelPrice : F := toDouble (priceAt loop.strategy.levels i)
  if levelPrice > midVal ∧ idAt loop.strategy.levels (i,.sell) = 0 then
    let aggressive := smaller levelPrice midVal-0.5-(loop.sellOffset : F)*0.1
    let oid := answer (i,.sell)
    { loop with
      strategy := (loop.strategy.placeSellAt i (toDecimal aggressive) oid).countTick oid
      sellOffset := loop.sellOffset+1 }
  else loop

def onTick (s : GridStrategy F) (mid : Option Decimal) (answer : Slot → ℕ) : GridStrategy F :=
  if !s.initialized then s
  else match mid with
    | none => s
    | some mid =>
      ((List.range s.levels.length).foldl
        (fun loop i => tickSell (toDouble mid) answer (tickBuy (toDouble mid) answer loop i) i)
        { strategy := s }).strategy

def buyFilled (s : GridStrategy F) (midVal : F) (oid i : ℕ) : GridStrategy F :=
  let s := { s with levels := setIdAt s.levels (i,.buy) 0, fillsProcessed := s.fillsProcessed+1 }
  if i+1 < s.levels.length then
    let price : F := toDouble (priceAt s.levels (i+1))
    let price := if midVal > 0.0 then smaller price midVal else price
    s.placeSellAt (i+1) (toDecimal price) oid
  else s

def sellFilled (s : GridStrategy F) (midVal : F) (oid i : ℕ) : GridStrategy F :=
  let s := { s with levels := setIdAt s.levels (i,.sell) 0, fillsProcessed := s.fillsProcessed+1 }
  if i > 0 then
    let price : F := toDouble (priceAt s.levels (i-1))
    let price := if midVal > 0.0 then larger price midVal else price
    s.placeBuyAt (i-1) (toDecimal price) oid
  else s

def fillLevels (s : GridStrategy F) (orderId : ℕ) (midVal : F) (oid : ℕ) : List ℕ → GridStrategy F
  | [] => s
  | i::is =>
    if orderId ≠ 0 ∧ orderId = idAt s.levels (i,.buy) then s.buyFilled midVal oid i
    else if orderId ≠ 0 ∧ orderId = idAt s.levels (i,.sell) then s.sellFilled midVal oid i
    else s.fillLevels orderId midVal oid is

def onFill (s : GridStrategy F) (orderId : ℕ) (mid : Option Decimal) (oid : ℕ) : GridStrategy F :=
  let midVal : F := match mid with
    | some mid => toDouble mid
    | none => 0.0
  s.fillLevels orderId midVal oid (List.range s.levels.length)

def cancelAt (s : GridStrategy F) (cancelled : ℕ → Bool) (slot : Slot) : GridStrategy F :=
  let id := idAt s.levels slot
  { s with
    levels := setIdAt s.levels slot 0
    live := if cancelled id then s.live.erase id else s.live }

def timerBuy (midVal : F) (cancelled : ℕ → Bool) (s : GridStrategy F) (i : ℕ) : GridStrategy F :=
  let price : F := toDouble (priceAt s.levels i)
  if price > midVal ∧ idAt s.levels (i,.buy) ≠ 0 then s.cancelAt cancelled (i,.buy) else s

def timerSell (midVal : F) (cancelled : ℕ → Bool) (s : GridStrategy F) (i : ℕ) : GridStrategy F :=
  let price : F := toDouble (priceAt s.levels i)
  if price < midVal ∧ idAt s.levels (i,.sell) ≠ 0 then s.cancelAt cancelled (i,.sell) else s

def onTimer (s : GridStrategy F) (mid : Option Decimal) (cancelled : ℕ → Bool) : GridStrategy F :=
  if !s.initialized then s
  else match mid with
    | none => s
    | some mid =>
      (List.range s.levels.length).foldl
        (fun s i => timerSell (toDouble mid) cancelled (timerBuy (toDouble mid) cancelled s i) i) s

/-- The callbacks. A fill is complete or partial, which `onFill` does not look at. -/
inductive Action where
  | load
  | unload
  | tick (mid : Option Decimal) (answer : Slot → ℕ)
  | fill (orderId : ℕ) (complete : Bool) (mid : Option Decimal) (oid : ℕ)
  | timer (mid : Option Decimal) (cancelled : ℕ → Bool)

def settle (s : GridStrategy F) (orderId : ℕ) (complete : Bool) : GridStrategy F :=
  { s with live := if complete then s.live.erase orderId else s.live }

def step (s : GridStrategy F) : Action → GridStrategy F
  | .load => { s with initialized := true }
  | .unload => { s with initialized := false }
  | .tick mid answer => s.onTick mid answer
  | .fill orderId complete mid oid => (s.settle orderId complete).onFill orderId mid oid
  | .timer mid cancelled => s.onTimer mid cancelled

end GridStrategy
end Chronos
