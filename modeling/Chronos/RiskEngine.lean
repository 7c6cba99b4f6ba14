import Chronos.PositionManager

/-!
# The pre-trade risk engine, one call at a time

`checkOrder` runs five checks in a fixed order and stops asking at the first
one that fails. The clock is read twice: once for the time stamp of the
result and once inside the rate limiter. Limits are arbitrary `Decimal`
values, as `buildHot` leaves them in `HotParams`; latencies are not kept.
-/

set_option autoImplicit false

namespace Chronos

structure RiskCheckResult where
  passed : Bool := true
  rejectionReason : String := ""
  checkTimestampUs : ℕ := 0
  deriving DecidableEq

namespace RiskCheckResult

def accept : RiskCheckResult := { passed := true }

def reject (reason : String) : RiskCheckResult :=
  { passed := false, rejectionReason := reason }

end RiskCheckResult

structure HotParams where
  maxOrderValue : Decimal := 0
  maxPositionValue : Decimal := 0
  maxTotalPositionValue : Decimal := 0
  minAvailableCapital : Decimal := 0
  maxOrdersPerSecond : ℕ := 100
  version : ℕ := 0

structure Statistics where
  totalChecks : ℕ := 0
  accepted : ℕ := 0
  rejected : ℕ := 0
  rateLimitRejects : ℕ := 0
  orderValueRejects : ℕ := 0
  positionLimitRejects : ℕ := 0
  totalPositionRejects : ℕ := 0
  capitalRejects : ℕ := 0

def found (reason word : String) : Bool := decide (word.toList <:+: reason.toList)

namespace Statistics

def update (s : Statistics) (passed : Bool) (reason : String) : Statistics :=
  let s := { s with totalChecks := s.totalChecks+1 }
  if passed then { s with accepted := s.accepted+1 }
  else
    let s := { s with rejected := s.rejected+1 }
    if found reason "Rate limit" then { s with rateLimitRejects := s.rateLimitRejects+1 }
    else if found reason "Order value" then { s with orderValueRejects := s.orderValueRejects+1 }
    else if found reason "Position" then { s with positionLimitRejects := s.positionLimitRejects+1 }
    else if found reason "Total position" then
      { s with totalPositionRejects := s.totalPositionRejects+1 }
    else if found reason "capital" || found reason "Capital" then
      { s with capitalRejects := s.capitalRejects+1 }
    else s

end Statistics

structure ClockReadings where
  checkUs : ℕ
  limiterUs : ℕ

structure RiskEngine where
  hotParams : HotParams
  currentSecond : ℕ := 0
  ordersThisSecond : ℕ := 0
  availableCapital : Decimal := 0
  stats : Statistics := {}

def currentSecondSinceEpoch (nowUs : ℕ) : ℕ := nowUs/1000000%2^32

namespace RiskEngine

def defaultParams : HotParams where
  maxOrderValue := .ofInt 100000
  maxPositionValue := .ofInt 500000
  maxTotalPositionValue := .ofInt 1000000
  minAvailableCapital := .ofInt 10000
  maxOrdersPerSecond := 100

def initial : RiskEngine where
  hotParams := defaultParams
  availableCapital := .ofInt 1000000

def getAvailableCapital (e : RiskEngine) : Decimal := e.availableCapital

def maxRetries : ℕ := 100

/-- The retry loop of the optimistic read when no writer runs beside it: an
odd version is never seen to change, and the fallback reads anyway. -/
def readLoop {R : Type} (hp : HotParams) (func : HotParams → R) : ℕ → R
  | 0 => func hp
  | n+1 => if hp.version%2 = 1 then readLoop hp func n else func hp

def readHotParamsOptimistic {R : Type} (e : RiskEngine) (func : HotParams → R) : R :=
  readLoop e.hotParams func maxRetries

theorem readLoop_eq {R : Type} (hp : HotParams) (func : HotParams → R) (n : ℕ) :
    readLoop hp func n = func hp := by
  induction n with
  | zero => rfl
  | succ n ih =>
    rw [readLoop, ih]
    exact ite_self _

@[simp] theorem readHotParamsOptimistic_eq {R : Type} (e : RiskEngine) (func : HotParams → R) :
    e.readHotParamsOptimistic func = func e.hotParams := readLoop_eq _ _ _

def checkRateLimitInternal (e : RiskEngine) (nowUs : ℕ) : RiskEngine × Bool :=
  let nowSec := currentSecondSinceEpoch nowUs
  let e := if e.currentSecond ≠ nowSec then { e with currentSecond := nowSec, ordersThisSecond := 0 }
    else e
  let maxOps := e.readHotParamsOptimistic HotParams.maxOrdersPerSecond
  let count := e.ordersThisSecond
  ({ e with ordersThisSecond := (count+1)%2^32 },count < maxOps)

def checkRateLimit (e : RiskEngine) (nowUs : ℕ) : RiskEngine × Bool := e.checkRateLimitInternal nowUs

structure CheckInfo where
  maxOrderValue : Decimal
  maxPositionValue : Decimal
  maxTotalPositionValue : Decimal
  minAvailableCapital : Decimal

def gather (hp : HotParams) : CheckInfo :=
  ⟨hp.maxOrderValue,hp.maxPositionValue,hp.maxTotalPositionValue,hp.minAvailableCapital⟩

def signedOrderQuantity (order : OrderRequest) : Decimal :=
  match order.side with
  | .sell => -order.quantity
  | .buy => order.quantity

def checkRate (e : RiskEngine) (nowUs : ℕ) (result : RiskCheckResult) : RiskEngine × RiskCheckResult :=
  if result.passed then
    let (e,ok) := e.checkRateLimitInternal nowUs
    (e,if ok then result else .reject "Rate limit exceeded")
  else (e,result)

def checkTotalPosition (info : CheckInfo) (pm : PositionManager) (result : RiskCheckResult) :
    RiskCheckResult :=
  if result.passed ∧ info.maxTotalPositionValue < pm.getTotalValueCached then
    .reject "Total position value exceeds limit"
  else result

def rateAllows (e : RiskEngine) (nowUs : ℕ) : Bool := (e.checkRateLimitInternal nowUs).2

theorem checkRate_passed (e : RiskEngine) (nowUs : ℕ) (r : RiskCheckResult) :
    (e.checkRate nowUs r).2.passed = true ↔ r.passed = true ∧ e.rateAllows nowUs = true := by
  unfold checkRate rateAllows
  cases hr : r.passed with
  | false => simp [hr]
  | true =>
    rcases e.checkRateLimitInternal nowUs with ⟨e,ok⟩
    cases ok <;> simp [hr, RiskCheckResult.reject]

theorem checkRateLimitInternal_kept (e : RiskEngine) (nowUs : ℕ) :
    (e.checkRateLimitInternal nowUs).1.hotParams = e.hotParams ∧
      (e.checkRateLimitInternal nowUs).1.availableCapital = e.availableCapital := by
  unfold checkRateLimitInternal
  by_cases h : e.currentSecond ≠ currentSecondSinceEpoch nowUs <;> simp [h]

theorem checkRate_kept (e : RiskEngine) (nowUs : ℕ) (r : RiskCheckResult) :
    (e.checkRate nowUs r).1.hotParams = e.hotParams ∧
      (e.checkRate nowUs r).1.availableCapital = e.availableCapital := by
  unfold checkRate
  split_ifs
  · exact checkRateLimitInternal_kept e nowUs
  · exact ⟨rfl,rfl⟩

theorem gate_passed (r : RiskCheckResult) (fails : Prop) [Decidable fails] (reason : String) :
    (if r.passed ∧ fails then RiskCheckResult.reject reason else r).passed = true ↔
      r.passed = true ∧ ¬fails := by
  split_ifs with h
  · exact ⟨fun hf => absurd hf (by simp [RiskCheckResult.reject]),fun hp => absurd h.2 hp.2⟩
  · exact ⟨fun hr => ⟨hr,fun hf => h ⟨hr,hf⟩⟩,And.left⟩

theorem checkTotalPosition_passed (info : CheckInfo) (pm : PositionManager) (r : RiskCheckResult) :
    (checkTotalPosition info pm r).passed = true ↔
      r.passed = true ∧ pm.getTotalValueCached ≤ info.maxTotalPositionValue := by
  rw [checkTotalPosition, gate_passed, not_lt]

section Checks
variable [NearestDivision.NearestDiv]

def orderValueAbs (order : OrderRequest) : Decimal := magnitude (order.price*order.quantity)

def projectedValue (pm : PositionManager) (order : OrderRequest) : Decimal :=
  magnitude (pm.quantityOf order.symbolId+signedOrderQuantity order)*order.price

def checkOrderValue (info : CheckInfo) (order : OrderRequest) (result : RiskCheckResult) :
    RiskCheckResult :=
  if info.maxOrderValue < orderValueAbs order then .reject "Order value exceeds limit" else result

def checkPositionLimit (info : CheckInfo) (pm : PositionManager) (order : OrderRequest)
    (result : RiskCheckResult) : RiskCheckResult :=
  if result.passed ∧ info.maxPositionValue < projectedValue pm order then
    .reject ("Position value for symbol "++toString order.symbolId++" would exceed limit")
  else result

def checkCapital (info : CheckInfo) (capital : Decimal) (order : OrderRequest)
    (result : RiskCheckResult) : RiskCheckResult :=
  if result.passed ∧ capital-orderValueAbs order < info.minAvailableCapital then
    .reject "Insufficient available capital"
  else result

def checkOrder (e : RiskEngine) (pm : PositionManager) (order : OrderRequest) (t : ClockReadings) :
    RiskEngine × RiskCheckResult :=
  let info := e.readHotParamsOptimistic gather
  let result : RiskCheckResult := { RiskCheckResult.accept with checkTimestampUs := t.checkUs }
  let result := checkOrderValue info order result
  let (e,result) := e.checkRate t.limiterUs result
  let result := checkPositionLimit info pm order result
  let result := checkTotalPosition info pm result
  let result := checkCapital info e.availableCapital order result
  ({ e with stats := e.stats.update result.passed result.rejectionReason },result)

theorem checkOrderValue_passed (info : CheckInfo) (order : OrderRequest) (r : RiskCheckResult) :
    (checkOrderValue info order r).passed = true ↔
      orderValueAbs order ≤ info.maxOrderValue ∧ r.passed = true := by
  unfold checkOrderValue
  split_ifs with h
  · exact ⟨fun hf => absurd hf (by simp [RiskCheckResult.reject]),fun hp => absurd h (not_lt.mpr hp.1)⟩
  · exact ⟨fun hr => ⟨not_lt.mp h,hr⟩,And.right⟩

theorem checkPositionLimit_passed (info : CheckInfo) (pm : PositionManager) (order : OrderRequest)
    (r : RiskCheckResult) : (checkPositionLimit info pm order r).passed = true ↔
      r.passed = true ∧ projectedValue pm order ≤ info.maxPositionValue := by
  rw [checkPositionLimit, gate_passed, not_lt]

theorem checkCapital_passed (info : CheckInfo) (capital : Decimal) (order : OrderRequest)
    (r : RiskCheckResult) : (checkCapital info capital order r).passed = true ↔
      r.passed = true ∧ info.minAvailableCapital ≤ capital-orderValueAbs order := by
  rw [checkCapital, gate_passed, not_lt]

structure Admitted (e : RiskEngine) (pm : PositionManager) (order : OrderRequest) (nowUs : ℕ) :
    Prop where
  orderValue : orderValueAbs order ≤ e.hotParams.maxOrderValue
  rate : e.rateAllows nowUs = true
  position : projectedValue pm order ≤ e.hotParams.maxPositionValue
  total : pm.getTotalValueCached ≤ e.hotParams.maxTotalPositionValue
  capital : e.hotParams.minAvailableCapital ≤ e.availableCapital-orderValueAbs order

theorem checkOrder_passed (e : RiskEngine) (pm : PositionManager) (order : OrderRequest)
    (t : ClockReadings) :
    (e.checkOrder pm order t).2.passed = true ↔ Admitted e pm order t.limiterUs := by
  simp only [checkOrder, readHotParamsOptimistic_eq, checkCapital_passed, checkTotalPosition_passed,
    checkPositionLimit_passed, checkRate_passed, checkOrderValue_passed, gather,
    (checkRate_kept _ _ _).2]
  constructor
  · rintro ⟨⟨⟨⟨⟨hv,_⟩,hr⟩,hp⟩,ht⟩,hc⟩
    exact ⟨hv,hr,hp,ht,hc⟩
  · rintro ⟨hv,hr,hp,ht,hc⟩
    exact ⟨⟨⟨⟨⟨hv,rfl⟩,hr⟩,hp⟩,ht⟩,hc⟩

theorem checkOrder_kept (e : RiskEngine) (pm : PositionManager) (order : OrderRequest)
    (t : ClockReadings) : (e.checkOrder pm order t).1.hotParams = e.hotParams ∧
      (e.checkOrder pm order t).1.availableCapital = e.availableCapital :=
  checkRate_kept _ _ _

end Checks
end RiskEngine
end Chronos
