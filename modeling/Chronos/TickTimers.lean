import Chronos.StrategyEngine

/-!
# Timers driven by ticks

`run` calls `onTimer` after a tick whose receive time is more than 100 ms
after that of the last such tick. The difference is unsigned: a tick older
than the last timer wraps around and fires at once, so the intervals are kept
exactly when no such tick arrives.
-/

set_option autoImplicit false

namespace Chronos.StrategyEngine

def TimerDue (e : StrategyEngine) (tick : Tick) : Prop :=
  timerIntervalUs < elapsed tick.receiveTimestampUs e.lastTimerUs ∧ e.strategies ≠ []

instance (e : StrategyEngine) (tick : Tick) : Decidable (e.TimerDue tick) :=
  inferInstanceAs (Decidable (_ ∧ ¬_))

def timerTime (e : StrategyEngine) : Action → List ℕ
  | .tick tick _ => if e.TimerDue tick then [tick.receiveTimestampUs] else []
  | .fill _ _ => []
  | .idle _ => []

/-- A tick older than the last timer does not fire. -/
def NotLate (e : StrategyEngine) : Action → Prop
  | .tick tick _ => tick.receiveTimestampUs < e.lastTimerUs →
      elapsed tick.receiveTimestampUs e.lastTimerUs ≤ timerIntervalUs
  | .fill _ _ => True
  | .idle _ => True

instance (e : StrategyEngine) : (a : Action) → Decidable (e.NotLate a)
  | .tick _ _ => inferInstanceAs (Decidable (_ → _))
  | .fill _ _ => .isTrue trivial
  | .idle _ => .isTrue trivial

/-- Strictly increasing, and more than an interval between neighbours. -/
def WellSpaced (times : List ℕ) : Prop :=
  times.Pairwise (· < ·) ∧ times.IsChain (fun last now => timerIntervalUs < now-last)

instance (times : List ℕ) : Decidable (WellSpaced times) := inferInstanceAs (Decidable (_ ∧ _))

def After (last now : ℕ) : Prop := last+timerIntervalUs < now

theorem wellSpaced_iff (times : List ℕ) : WellSpaced times ↔ times.IsChain After := by
  constructor
  · rintro ⟨hlt,hchain⟩
    apply hchain.imp
    intro last now h
    unfold After
    omega
  · intro hchain
    have hlt : times.IsChain (· < ·) := hchain.imp (fun last now h => by unfold After at h; omega)
    refine ⟨List.isChain_iff_pairwise.mp hlt,hchain.imp ?_⟩
    intro last now h
    unfold After at h
    omega

/-- The unsigned difference is the difference of the times unless the tick is older. -/
theorem after_iff (last now : ℕ) (hlast : last < 2^64) (hnow : now < 2^64)
    (h : timerIntervalUs < elapsed now last) : After last now ↔ last ≤ now := by
  unfold After
  unfold elapsed at h
  constructor
  · omega
  · intro hle
    have hmod : (now+2^64-last)%2^64 = now-last := by
      rw [show now+2^64-last = now-last+2^64 by omega, Nat.add_mod_right]
      exact Nat.mod_eq_of_lt (by omega)
    omega

section Times
variable [NearestDivision.NearestDiv]

def timerTimes : List Action → StrategyEngine → List ℕ
  | [], _ => []
  | a::actions, e => e.timerTime a++timerTimes actions (e.step a)

theorem processTick_lastTimer (e : StrategyEngine) (tick : Tick) (r : Responses) :
    (e.processTick tick r).lastTimerUs =
      if timerIntervalUs < elapsed tick.receiveTimestampUs e.lastTimerUs then
        tick.receiveTimestampUs
      else e.lastTimerUs := by
  unfold processTick tickTimer
  have hlast : (e.dispatchTick tick r).lastTimerUs = e.lastTimerUs := rfl
  rw [hlast]
  split_ifs <;> rfl

theorem step_strategies (e : StrategyEngine) (a : Action) :
    (e.step a).strategies = e.strategies := by
  cases a with
  | tick tick r =>
    show ((e.dispatchTick tick r).tickTimer tick r).strategies = _
    unfold tickTimer
    split_ifs <;> rfl
  | fill fill r => rfl
  | idle r => rfl

theorem timerTimes_silent (actions : List Action) (e : StrategyEngine) (hs : e.strategies = []) :
    timerTimes actions e = [] := by
  induction actions generalizing e with
  | nil => rfl
  | cons a actions ih =>
    have hnone : e.timerTime a = [] := by
      cases a with
      | tick tick r => exact if_neg (fun h => h.2 hs)
      | fill fill r => rfl
      | idle r => rfl
    rw [timerTimes, hnone, ih (e.step a) ((e.step_strategies a).trans hs)]
    rfl

/-- The step: the times stay in order from the last timer on as long as no late tick fires. -/
theorem times_chain_iff (actions : List Action) (e : StrategyEngine) (hs : e.strategies ≠ [])
    (hlast : e.lastTimerUs < 2^64)
    (hticks : ∀ tick ∈ ticksOf actions, tick.receiveTimestampUs < 2^64) :
    (e.lastTimerUs::timerTimes actions e).IsChain After ↔
      Schedule.Allowed step NotLate actions e := by
  induction actions generalizing e with
  | nil => simp [timerTimes, Schedule.Allowed]
  | cons a actions ih =>
    have hs' : (e.step a).strategies ≠ [] := e.step_strategies a ▸ hs
    cases a with
    | fill fill r =>
      exact (ih (e.step (.fill fill r)) hs' hlast hticks).trans (and_iff_right trivial).symm
    | idle r => exact (ih (e.step (.idle r)) hs' hlast hticks).trans (and_iff_right trivial).symm
    | tick tick r =>
      have hnow : tick.receiveTimestampUs < 2^64 := hticks tick List.mem_cons_self
      have hrest : ∀ t ∈ ticksOf actions, t.receiveTimestampUs < 2^64 :=
        fun t ht => hticks t (List.mem_cons_of_mem tick ht)
      have hstep := e.processTick_lastTimer tick r
      by_cases h : timerIntervalUs < elapsed tick.receiveTimestampUs e.lastTimerUs
      · rw [if_pos h] at hstep
        have htimes : timerTimes (.tick tick r::actions) e =
            tick.receiveTimestampUs::timerTimes actions (e.step (.tick tick r)) := by
          rw [timerTimes, timerTime, if_pos ⟨h,hs⟩]
          rfl
        have hok : e.NotLate (.tick tick r) ↔ e.lastTimerUs ≤ tick.receiveTimestampUs := by
          unfold NotLate
          omega
        have hnext := ih (e.step (.tick tick r)) hs' (hstep ▸ hnow) hrest
        rw [show (e.step (.tick tick r)).lastTimerUs = _ from hstep] at hnext
        rw [htimes, List.isChain_cons_cons, after_iff _ _ hlast hnow h, Schedule.Allowed, hok, hnext]
      · rw [if_neg h] at hstep
        have htimes : timerTimes (.tick tick r::actions) e =
            timerTimes actions (e.step (.tick tick r)) := by
          rw [timerTimes, timerTime, if_neg (fun hdue => h hdue.1)]
          rfl
        have hok : e.NotLate (.tick tick r) := fun _ => not_lt.mp h
        have hnext := ih (e.step (.tick tick r)) hs' (hstep ▸ hlast) hrest
        rw [show (e.step (.tick tick r)).lastTimerUs = _ from hstep] at hnext
        rw [htimes, hnext, Schedule.Allowed]
        exact (and_iff_right hok).symm

/-- An engine that has had no timer waits an interval for its first. -/
theorem first_timer (actions : List Action) (e : StrategyEngine) (hs : e.strategies ≠ [])
    (hlast : e.lastTimerUs = 0)
    (hticks : ∀ tick ∈ ticksOf actions, tick.receiveTimestampUs < 2^64) (t : ℕ)
    (ht : t ∈ (timerTimes actions e).head?) : After 0 t := by
  induction actions generalizing e with
  | nil => cases ht
  | cons a actions ih =>
    have hs' : (e.step a).strategies ≠ [] := e.step_strategies a ▸ hs
    cases a with
    | fill fill r => exact ih (e.step (.fill fill r)) hs' hlast hticks ht
    | idle r => exact ih (e.step (.idle r)) hs' hlast hticks ht
    | tick tick r =>
      have hnow : tick.receiveTimestampUs < 2^64 := hticks tick List.mem_cons_self
      by_cases h : timerIntervalUs < elapsed tick.receiveTimestampUs e.lastTimerUs
      · rw [timerTimes, timerTime, if_pos ⟨h,hs⟩] at ht
        have heq : tick.receiveTimestampUs = t := Option.some.inj ht
        rw [hlast] at h
        exact heq ▸ (after_iff 0 _ (by decide) hnow h).mpr (Nat.zero_le _)
      · have hstep := e.processTick_lastTimer tick r
        rw [if_neg h] at hstep
        rw [timerTimes, timerTime, if_neg (fun hdue => h hdue.1)] at ht
        exact ih (e.step (.tick tick r)) hs' (hstep.trans hlast)
          (fun t ht => hticks t (List.mem_cons_of_mem tick ht)) ht

/-- The intervals are kept in a run exactly when there is no strategy or no late tick fires. -/
theorem timers_spaced_iff (ctx : StrategyContext) (strategies : List StrategyEntry)
    (actions : List Action) (h : ∀ tick ∈ ticksOf actions, tick.receiveTimestampUs < 2^64) :
    WellSpaced (timerTimes actions (new ctx strategies)) ↔
      strategies = [] ∨ Schedule.Allowed step NotLate actions (new ctx strategies) := by
  by_cases hs : strategies = []
  · rw [timerTimes_silent actions (new ctx strategies) hs]
    simp [WellSpaced, hs]
  · have hchain := times_chain_iff actions (new ctx strategies) hs (Nat.two_pow_pos 64) h
    rw [wellSpaced_iff, or_iff_right hs, ← hchain, List.isChain_cons]
    exact (and_iff_right (first_timer actions (new ctx strategies) hs rfl h)).symm

end Times

def ticksAt (times : List ℕ) : List Action :=
  times.map (fun t => Action.tick { receiveTimestampUs := t } {})

def oneStrategy : StrategyEngine := new { riskEngine := RiskEngine.initial } [⟨1,[],true⟩]

/-- A tick one microsecond older than the last timer fires the next one. -/
theorem olderTick_fires : timerTimes (ticksAt [200000,199999]) oneStrategy = [200000,199999] ∧
    ¬WellSpaced (timerTimes (ticksAt [200000,199999]) oneStrategy) := by
  decide +kernel

theorem timers_spaced_inOrder :
    WellSpaced (timerTimes (ticksAt [200000,250000,300001]) oneStrategy) :=
  (timers_spaced_iff { riskEngine := RiskEngine.initial } [⟨1,[],true⟩]
    (ticksAt [200000,250000,300001]) (by decide +kernel)).mpr (Or.inr (by decide +kernel))

end Chronos.StrategyEngine
