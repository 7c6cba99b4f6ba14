import Chronos.RiskEngine

/-!
# Every check is counted once

The counters of `updateStats` are chosen by searching the rejection text for
words. The texts `checkOrder` can produce each match the word of their own
check and no word tried before it, although the position text contains the
symbol's number, so the counters partition the checks.
-/

set_option autoImplicit false

namespace Chronos.RiskStatistics

inductive Failure where
  | orderValue
  | rate
  | position (symbolId : ℕ)
  | total
  | capital
  deriving DecidableEq

def text : Failure → String
  | .orderValue => "Order value exceeds limit"
  | .rate => "Rate limit exceeded"
  | .position symbolId => "Position value for symbol "++toString symbolId++" would exceed limit"
  | .total => "Total position value exceeds limit"
  | .capital => "Insufficient available capital"

def count (s : Statistics) : Failure → Statistics
  | .orderValue => { s with orderValueRejects := s.orderValueRejects+1 }
  | .rate => { s with rateLimitRejects := s.rateLimitRejects+1 }
  | .position _ => { s with positionLimitRejects := s.positionLimitRejects+1 }
  | .total => { s with totalPositionRejects := s.totalPositionRejects+1 }
  | .capital => { s with capitalRejects := s.capitalRejects+1 }

theorem not_found (reason word : String) (letter : Char) (hw : letter ∈ word.toList)
    (hr : letter ∉ reason.toList) : found reason word = false := by
  unfold found
  rw [decide_eq_false_iff_not]
  intro h
  exact hr (h.subset hw)

theorem toList_joined (before middle after : String) :
    (before++middle++after).toList = before.toList++(middle.toList++after.toList) := by
  rw [String.toList_append, String.toList_append, List.append_assoc]

theorem position_toList (symbolId : ℕ) : (text (.position symbolId)).toList =
    "Position value for symbol ".toList++((toString symbolId).toList++" would exceed limit".toList) :=
  toList_joined _ _ _

theorem position_letters (symbolId : ℕ) (letter : Char) (hd : letter.isDigit = false)
    (h1 : letter ∉ "Position value for symbol ".toList) (h2 : letter ∉ " would exceed limit".toList) :
    letter ∉ (text (.position symbolId)).toList := by
  rw [position_toList, List.mem_append, List.mem_append]
  rintro (h | h | h)
  · exact h1 h
  · have ht : letter ∈ Nat.toDigits 10 symbolId := by
      rwa [Nat.toString_eq_repr, Nat.toList_repr] at h
    rw [Nat.isDigit_of_mem_toDigits (by decide) (by decide) ht] at hd
    exact Bool.noConfusion hd
  · exact h2 h

theorem position_found (symbolId : ℕ) : found (text (.position symbolId)) "Position" = true := by
  unfold found
  rw [decide_eq_true_iff, position_toList]
  have hp : "Position".toList <+: "Position value for symbol ".toList := by decide
  exact (hp.trans (List.prefix_append _ _)).isInfix

theorem update_failure (s : Statistics) (f : Failure) :
    s.update false (text f) =
      count { s with totalChecks := s.totalChecks+1, rejected := s.rejected+1 } f := by
  cases f with
  | orderValue => rfl
  | rate => rfl
  | position symbolId =>
    have hr := not_found (text (.position symbolId)) "Rate limit" 'R' (by decide)
      (position_letters symbolId 'R' (by decide) (by decide) (by decide))
    have ho := not_found (text (.position symbolId)) "Order value" 'O' (by decide)
      (position_letters symbolId 'O' (by decide) (by decide) (by decide))
    have hp := position_found symbolId
    simp [Statistics.update, hr, ho, hp, count]
  | total => rfl
  | capital => rfl

/-- A result is an acceptance or carries the text of a failure. -/
def Classified (r : RiskCheckResult) : Prop :=
  r.passed = true ∨ ∃ f, r.passed = false ∧ r.rejectionReason = text f

theorem classified_gate (fails : Prop) [Decidable fails] (f : Failure) (r : RiskCheckResult)
    (h : Classified r) : Classified (if fails then RiskCheckResult.reject (text f) else r) := by
  split_ifs
  · exact Or.inr ⟨f,rfl,rfl⟩
  · exact h

theorem checkRate_classified (e : RiskEngine) (nowUs : ℕ) (r : RiskCheckResult) (h : Classified r) :
    Classified (e.checkRate nowUs r).2 := by
  unfold RiskEngine.checkRate
  split_ifs
  · rcases e.checkRateLimitInternal nowUs with ⟨e,ok⟩
    cases ok with
    | true => exact h
    | false => exact Or.inr ⟨.rate,rfl,rfl⟩
  · exact h

structure Balanced (s : Statistics) : Prop where
  checks : s.totalChecks = s.accepted+s.rejected
  rejects : s.rejected = s.rateLimitRejects+s.orderValueRejects+s.positionLimitRejects+
    s.totalPositionRejects+s.capitalRejects

theorem update_balanced (s : Statistics) (r : RiskCheckResult) (hr : Classified r)
    (h : Balanced s) : Balanced (s.update r.passed r.rejectionReason) := by
  obtain ⟨hc,hs⟩ := h
  rcases hr with hp | ⟨f,hp,ht⟩
  · rw [hp]
    constructor
    · change s.totalChecks+1 = s.accepted+1+s.rejected
      omega
    · exact hs
  · rw [hp, ht, update_failure]
    cases f <;> constructor <;> simp only [count] <;> omega

theorem checkRate_stats (e : RiskEngine) (nowUs : ℕ) (r : RiskCheckResult) :
    (e.checkRate nowUs r).1.stats = e.stats := by
  unfold RiskEngine.checkRate RiskEngine.checkRateLimitInternal
  by_cases hp : r.passed = true <;>
    by_cases hs : e.currentSecond = currentSecondSinceEpoch nowUs <;> simp [hp, hs]

section Calls
variable [NearestDivision.NearestDiv]

theorem checkOrder_classified (e : RiskEngine) (pm : PositionManager) (order : OrderRequest)
    (t : ClockReadings) : Classified (e.checkOrder pm order t).2 := by
  have h0 : Classified { RiskCheckResult.accept with checkTimestampUs := t.checkUs } := Or.inl rfl
  have h1 := classified_gate ((RiskEngine.gather e.hotParams).maxOrderValue <
    RiskEngine.orderValueAbs order) .orderValue _ h0
  have h2 := checkRate_classified e t.limiterUs _ h1
  simp only [RiskEngine.checkOrder, RiskEngine.readHotParamsOptimistic_eq]
  apply classified_gate _ .capital
  apply classified_gate _ .total
  apply classified_gate _ (.position order.symbolId)
  exact h2

theorem checkOrder_stats (e : RiskEngine) (pm : PositionManager) (order : OrderRequest)
    (t : ClockReadings) : (e.checkOrder pm order t).1.stats =
      e.stats.update (e.checkOrder pm order t).2.passed
        (e.checkOrder pm order t).2.rejectionReason := by
  simp only [RiskEngine.checkOrder, checkRate_stats]

structure Call where
  positions : PositionManager
  order : OrderRequest
  clock : ClockReadings

def run : List Call → RiskEngine → RiskEngine
  | [], e => e
  | a::as, e => run as (e.checkOrder a.positions a.order a.clock).1

/-- Over any sequence of calls every check is accepted or rejected, and every
rejection is counted under one check. -/
theorem run_balanced (calls : List Call) (e : RiskEngine) (h : Balanced e.stats) :
    Balanced (run calls e).stats := by
  induction calls generalizing e with
  | nil => exact h
  | cons a as ih =>
    apply ih
    rw [checkOrder_stats]
    exact update_balanced _ _ (checkOrder_classified e a.positions a.order a.clock) h

end Calls
end Chronos.RiskStatistics
