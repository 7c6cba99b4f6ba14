import Chronos.RiskEngine
import Chronos.Schedule

/-!
# The rate limiter under interleaving

One call is a clock read, a load of `current_second_`, a compare-exchange
when the two differ, a store of zero when that succeeded, and a `fetch_add`.
Any number of threads take these steps in any order. The exchange and the
store are two steps, and a second may be over before the call that read it
counts itself; in both windows a call is counted against a number that does
not belong to its second.
-/

set_option autoImplicit false

namespace Chronos

namespace RateLimiter

inductive Place where
  | idle
  | read (nowSec : ℕ)
  | loaded (nowSec prevSec : ℕ)
  | swapped (nowSec : ℕ)
  | counting (nowSec : ℕ)
  deriving DecidableEq

/-- The shared words and the threads; `passed` lists the second each passing
call had read. -/
structure State where
  clockUs : ℕ := 0
  currentSecond : ℕ := 0
  ordersThisSecond : ℕ := 0
  threads : ℕ → Place := fun _ => .idle
  passed : List ℕ := []

structure Action where
  thread : ℕ
  nowUs : ℕ := 0

def move (s : State) (t : ℕ) (p : Place) : State := { s with threads := Function.update s.threads t p }

def step (maxOps : ℕ) (s : State) (a : Action) : State :=
  match s.threads a.thread with
  | .idle => move { s with clockUs := a.nowUs } a.thread (.read (currentSecondSinceEpoch a.nowUs))
  | .read nowSec =>
    if s.currentSecond ≠ nowSec then move s a.thread (.loaded nowSec s.currentSecond)
    else move s a.thread (.counting nowSec)
  | .loaded nowSec prevSec =>
    if s.currentSecond = prevSec then move { s with currentSecond := nowSec } a.thread (.swapped nowSec)
    else move s a.thread (.counting nowSec)
  | .swapped nowSec => move { s with ordersThisSecond := 0 } a.thread (.counting nowSec)
  | .counting nowSec =>
    move { s with
      ordersThisSecond := (s.ordersThisSecond+1)%2^32
      passed := if s.ordersThisSecond < maxOps then nowSec::s.passed else s.passed } a.thread .idle

def passes (s : State) (sec : ℕ) : ℕ := s.passed.count sec

def ClockMonotone (s : State) (a : Action) : Prop :=
  s.threads a.thread = .idle → s.clockUs ≤ a.nowUs

instance (s : State) (a : Action) : Decidable (ClockMonotone s a) := inferInstanceAs (Decidable (_ → _))

def Resetting (s : State) : Prop := ∃ t sec, s.threads t = .swapped sec

/-- The steps that keep out of both windows: an exchange goes forward in time,
and a call counts itself while its own second is current, no reset is under
way and the 32-bit counter has room. -/
def Orderly (s : State) (a : Action) : Prop :=
  match s.threads a.thread with
  | .loaded nowSec prevSec => s.currentSecond = prevSec → s.currentSecond < nowSec
  | .counting nowSec => s.currentSecond = nowSec ∧ ¬Resetting s ∧ s.ordersThisSecond+1 < 2^32
  | _ => True

/-- A call that runs alone is the sequential `checkRateLimitInternal`. -/
theorem solo_call (e : RiskEngine) (s : State) (t nowUs : ℕ) (ht : s.threads t = .idle)
    (hsec : s.currentSecond = e.currentSecond) (hcount : s.ordersThisSecond = e.ordersThisSecond) :
    ∃ n, n ≤ 5 ∧
      let s' := Schedule.run (step e.hotParams.maxOrdersPerSecond) (List.replicate n ⟨t,nowUs⟩) s
      let r := e.checkRateLimitInternal nowUs
      s'.currentSecond = r.1.currentSecond ∧ s'.ordersThisSecond = r.1.ordersThisSecond ∧
        s'.threads t = .idle ∧
        s'.passed = if r.2 then currentSecondSinceEpoch nowUs::s.passed else s.passed := by
  by_cases h : e.currentSecond = currentSecondSinceEpoch nowUs
  · refine ⟨3,by decide,?_⟩
    simp [List.replicate, Schedule.run, step, move, ht, hsec, hcount, h,
      RiskEngine.checkRateLimitInternal]
  · refine ⟨5,by decide,?_⟩
    simp [List.replicate, Schedule.run, step, move, ht, hsec, h, RiskEngine.checkRateLimitInternal]

/-- The current second owes its passes to the counter, a second under reset
has none, and neither has any later one. -/
structure Limited (maxOps : ℕ) (s : State) : Prop where
  within : ∀ sec, passes s sec ≤ maxOps
  future : ∀ sec, s.currentSecond < sec → passes s sec = 0
  resetting : Resetting s → passes s s.currentSecond = 0
  counted : ¬Resetting s → passes s s.currentSecond ≤ s.ordersThisSecond

theorem resetting_move (s : State) (t : ℕ) (p : Place) (hp : ∀ sec, p ≠ .swapped sec)
    (ht : ∀ sec, s.threads t ≠ .swapped sec) : Resetting (move s t p) ↔ Resetting s := by
  constructor
  · rintro ⟨u,sec,h⟩
    by_cases hu : u = t
    · subst hu
      exact absurd (by simpa [move] using h) (hp sec)
    · exact ⟨u,sec,by simpa [move, hu] using h⟩
  · rintro ⟨u,sec,h⟩
    have hu : u ≠ t := fun he => ht sec (he ▸ h)
    exact ⟨u,sec,by simpa [move, hu] using h⟩

theorem move_limited (maxOps : ℕ) (s : State) (t : ℕ) (p : Place) (hp : ∀ sec, p ≠ .swapped sec)
    (ht : ∀ sec, s.threads t ≠ .swapped sec) (h : Limited maxOps s) :
    Limited maxOps (move s t p) where
  within := h.within
  future := h.future
  resetting hr := h.resetting ((resetting_move s t p hp ht).mp hr)
  counted hr := h.counted (fun hs => hr ((resetting_move s t p hp ht).mpr hs))

theorem swap_limited (maxOps : ℕ) (s : State) (t nowSec : ℕ) (hf : s.currentSecond < nowSec)
    (h : Limited maxOps s) :
    Limited maxOps (move { s with currentSecond := nowSec } t (.swapped nowSec)) where
  within := h.within
  future sec hsec := h.future sec (hf.trans hsec)
  resetting _ := h.future nowSec hf
  counted _ := le_of_eq_of_le (h.future nowSec hf) (Nat.zero_le _)

theorem store_limited (maxOps : ℕ) (s : State) (t nowSec : ℕ) (ht : s.threads t = .swapped nowSec)
    (h : Limited maxOps s) :
    Limited maxOps (move { s with ordersThisSecond := 0 } t (.counting nowSec)) where
  within := h.within
  future := h.future
  resetting _ := h.resetting ⟨t,nowSec,ht⟩
  counted _ := le_of_eq (h.resetting ⟨t,nowSec,ht⟩)

theorem passes_cons (s : State) (nowSec sec : ℕ) :
    passes { s with passed := nowSec::s.passed } sec =
      passes s sec+if nowSec = sec then 1 else 0 := by
  simp [passes, List.count_cons]

theorem count_limited (maxOps : ℕ) (s : State) (t nowSec : ℕ) (ht : s.threads t = .counting nowSec)
    (hcur : s.currentSecond = nowSec) (hr : ¬Resetting s) (hroom : s.ordersThisSecond+1 < 2^32)
    (h : Limited maxOps s) :
    Limited maxOps (move { s with
      ordersThisSecond := (s.ordersThisSecond+1)%2^32
      passed := if s.ordersThisSecond < maxOps then nowSec::s.passed else s.passed } t .idle) := by
  have hc := h.counted hr
  have hnr : ¬Resetting (move { s with
      ordersThisSecond := (s.ordersThisSecond+1)%2^32
      passed := if s.ordersThisSecond < maxOps then nowSec::s.passed else s.passed } t .idle) :=
    fun hm => hr ((resetting_move _ t .idle (by simp) (by simp [ht])).mp hm)
  subst hcur
  rw [Nat.mod_eq_of_lt hroom] at hnr ⊢
  split_ifs at hnr ⊢ with hpass
  · have hp := passes_cons s s.currentSecond
    refine ⟨fun sec => (hp sec).trans_le ?_,fun sec hsec => (hp sec).trans ?_,
      fun hm => absurd hm hnr,fun _ => (hp s.currentSecond).trans_le ?_⟩
    · have hw := h.within sec
      by_cases he : s.currentSecond = sec
      · subst he
        rw [if_pos rfl]
        omega
      · rwa [if_neg he]
    · have hlt : s.currentSecond < sec := hsec
      rw [if_neg (by omega), h.future sec hlt]
    · rw [if_pos rfl]
      exact Nat.add_le_add_right hc 1
  · exact ⟨h.within,h.future,fun hm => absurd hm hnr,fun _ => hc.trans (Nat.le_succ _)⟩

theorem step_limited (maxOps : ℕ) (s : State) (a : Action) (ho : Orderly s a)
    (h : Limited maxOps s) : Limited maxOps (step maxOps s a) := by
  unfold step
  unfold Orderly at ho
  cases ht : s.threads a.thread with
  | idle =>
    have hc : Limited maxOps { s with clockUs := a.nowUs } := ⟨h.within,h.future,h.resetting,h.counted⟩
    exact move_limited maxOps _ a.thread _ (by simp) (by simp [ht]) hc
  | read nowSec =>
    simp only
    split_ifs
    · exact move_limited maxOps s a.thread _ (by simp) (by simp [ht]) h
    · exact move_limited maxOps s a.thread _ (by simp) (by simp [ht]) h
  | loaded nowSec prevSec =>
    simp only [ht] at ho
    simp only
    split_ifs with hs
    · exact swap_limited maxOps s a.thread nowSec (ho hs) h
    · exact move_limited maxOps s a.thread _ (by simp) (by simp [ht]) h
  | swapped nowSec => exact store_limited maxOps s a.thread nowSec ht h
  | counting nowSec =>
    simp only [ht] at ho
    exact count_limited maxOps s a.thread nowSec ht ho.1 ho.2.1 ho.2.2 h

/-- In every run that keeps out of the two windows, at most `maxOps` of the
calls that read a second pass, whatever the number of threads. -/
theorem passes_bounded (maxOps : ℕ) (actions : List Action)
    (hok : Schedule.Allowed (step maxOps) (fun s a => ClockMonotone s a ∧ Orderly s a) actions {})
    (sec : ℕ) : passes (Schedule.run (step maxOps) actions {}) sec ≤ maxOps := by
  have h0 : Limited maxOps {} :=
    ⟨fun _ => Nat.zero_le _,fun _ _ => rfl,fun _ => rfl,fun _ => Nat.zero_le _⟩
  exact (Schedule.invariant (step maxOps) _ (Limited maxOps)
    (fun s a ho h => step_limited maxOps s a ho.2 h) actions {} hok h0).within sec

def overlappingCalls : List Action :=
  [⟨0,5000000⟩,⟨1,5000000⟩,⟨0,0⟩,⟨0,0⟩,⟨1,0⟩,⟨1,0⟩,⟨0,0⟩,⟨0,0⟩]

theorem overlappingCalls_pass_twice :
    Schedule.Allowed (step 1) ClockMonotone overlappingCalls {} ∧
      ¬passes (Schedule.run (step 1) overlappingCalls {}) 5 ≤ 1 := ⟨by decide,by decide⟩

def successiveCalls : List Action :=
  [⟨0,5000000⟩,⟨0,0⟩,⟨0,0⟩,⟨0,0⟩,⟨0,0⟩,⟨1,5000000⟩,⟨1,0⟩,⟨1,0⟩]

theorem successiveCalls_pass_once : passes (Schedule.run (step 1) successiveCalls {}) 5 ≤ 1 := by
  refine passes_bounded 1 successiveCalls ⟨⟨?_,trivial⟩,⟨?_,trivial⟩,⟨?_,fun _ => by decide⟩,⟨?_,trivial⟩,
    ⟨?_,rfl,?_,by decide⟩,⟨?_,trivial⟩,⟨?_,trivial⟩,⟨?_,rfl,?_,by decide⟩,trivial⟩ 5
  case refine_6 | refine_10 =>
    rintro ⟨t,sec,h⟩
    rcases t with _ | _ | t <;> simp [step, move, currentSecondSinceEpoch] at h
  all_goals decide

end RateLimiter
end Chronos
