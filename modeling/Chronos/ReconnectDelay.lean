import Chronos.Schedule

/-!
# How long a reconnection waits

`MarketDataGateway` and `ThinMuxAdapter` wait longer after every attempt that
failed, up to a minute, and spread the wait by a quarter. The number of
attempts is an `int` and so is the delay, which is multiplied before it is
bounded. Shifts by 32 places or more have no meaning in the language: what
they give is a parameter here.
-/

set_option autoImplicit false

namespace Chronos.ReconnectDelay

def wrap32 (z : ℤ) : ℤ := z.bmod (2^32)

structure Delay where
  baseDelayMs : ℤ
  jitterLow : ℤ
  jitterHigh : ℤ
  deriving DecidableEq

structure Sane (d : Delay) : Prop where
  least : 1000 ≤ d.baseDelayMs
  most : d.baseDelayMs ≤ 60000
  jitter : d.jitterLow ≤ d.jitterHigh

section Delays
variable (undefinedShift : ℤ → ℤ)

/-- `1 << attempts` -/
def shiftOne (attempts : ℤ) : ℤ :=
  if 0 ≤ attempts ∧ attempts < 32 then wrap32 (2^attempts.toNat) else undefinedShift attempts

/-- `std::min(1000 * (1 << attempts), 60000)` and `jitter(-base / 4, base / 4)` -/
def delayAfter (attempts : ℤ) : Delay :=
  let base := min (wrap32 (1000*shiftOne undefinedShift attempts)) 60000
  { baseDelayMs := base
    jitterLow := (wrap32 (-base)).tdiv 4
    jitterHigh := base.tdiv 4 }

theorem wrap32_of_fits (z : ℤ) (hlow : -2^31 ≤ z) (hhigh : z < 2^31) : wrap32 z = z := by
  apply Int.bmod_eq_of_le <;> omega

theorem wrap32_succ (k : ℕ) : wrap32 (wrap32 k+1) = wrap32 (k+1 : ℕ) := by
  rw [wrap32, wrap32, Int.bmod_add_bmod, wrap32, Nat.cast_succ]

theorem delayAfter_low (attempts : ℤ) : (delayAfter undefinedShift attempts).jitterLow =
    (wrap32 (-(delayAfter undefinedShift attempts).baseDelayMs)).tdiv 4 := by
  rw [delayAfter]

theorem delayAfter_high (attempts : ℤ) : (delayAfter undefinedShift attempts).jitterHigh =
    (delayAfter undefinedShift attempts).baseDelayMs.tdiv 4 := by
  rw [delayAfter]

/-- Up to 21 doublings the product fits. -/
theorem delayAfter_base (k : ℕ) (hk : k ≤ 21) :
    (delayAfter undefinedShift (wrap32 k)).baseDelayMs = min (1000*2^k) 60000 := by
  have hpow : (2 : ℤ)^k ≤ 2^21 := pow_le_pow_right₀ (by norm_num) hk
  have hpos : (0 : ℤ) < 2^k := by positivity
  have hcount : wrap32 k = k := wrap32_of_fits _ (by omega) (by omega)
  have hshift : shiftOne undefinedShift k = 2^k := by
    rw [shiftOne, if_pos ⟨by omega,by omega⟩, Int.toNat_natCast]
    exact wrap32_of_fits _ (by omega) (by omega)
  have hproduct : wrap32 (1000*2^k) = 1000*2^k := wrap32_of_fits _ (by omega) (by omega)
  rw [hcount, delayAfter, hshift, hproduct]

theorem delayAfter_sane (k : ℕ) (hk : k ≤ 21) : Sane (delayAfter undefinedShift (wrap32 k)) := by
  have hbase := delayAfter_base undefinedShift k hk
  have hone : (1 : ℤ) ≤ 2^k := one_le_pow₀ (by norm_num)
  have hleast : 1000 ≤ (delayAfter undefinedShift (wrap32 k)).baseDelayMs := by omega
  have hmost : (delayAfter undefinedShift (wrap32 k)).baseDelayMs ≤ 60000 := by omega
  constructor
  case least => exact hleast
  case most => exact hmost
  case jitter =>
    have hquarter := Int.tdiv_nonneg (show 0 ≤ (delayAfter undefinedShift (wrap32 k)).baseDelayMs
      by omega) (show (0 : ℤ) ≤ 4 by norm_num)
    rw [delayAfter_low, delayAfter_high, wrap32_of_fits _ (by omega) (by omega), Int.neg_tdiv]
    omega

theorem delayAfter_mono (j k : ℕ) (hjk : j ≤ k) (hk : k ≤ 21) :
    (delayAfter undefinedShift (wrap32 j)).baseDelayMs ≤
      (delayAfter undefinedShift (wrap32 k)).baseDelayMs := by
  rw [delayAfter_base undefinedShift j (hjk.trans hk), delayAfter_base undefinedShift k hk]
  have hpow : (2 : ℤ)^j ≤ 2^k := pow_le_pow_right₀ (by norm_num) hjk
  omega

/-- The next product wraps to a negative one, and the jitter's bounds change places. -/
theorem delayAfter_wraps :
    delayAfter undefinedShift (wrap32 22) = ⟨-100663296,25165824,-25165824⟩ := by
  have hcount : wrap32 22 = 22 := by decide
  have hshift : shiftOne undefinedShift 22 = 4194304 := if_pos ⟨by decide,by decide⟩
  rw [hcount, delayAfter, hshift]
  decide

end Delays

section Runs
variable {A : Type}

def counter (handle : ℤ → A → Delay × ℤ) (calls : List A) : ℤ :=
  Schedule.run (fun attempts a => (handle attempts a).2) calls 0

/-- Every call waits sanely, and after one that did not connect the next waits
no less. -/
def SaneThroughout (handle : ℤ → A → Delay × ℤ) (connects : A → Prop) (calls : List A) : Prop :=
  ∀ before a after, calls = before++a::after →
    Sane (handle (counter handle before) a).1 ∧
      (¬connects a → ∀ b ∈ after.head?, (handle (counter handle before) a).1.baseDelayMs ≤
        (handle (counter handle (before++[a])) b).1.baseDelayMs)

structure Follows (undefinedShift : ℤ → ℤ) (handle : ℤ → A → Delay × ℤ) (connects : A → Prop)
    (count : ℕ → A → ℕ) : Prop where
  delay : ∀ attempts a, (handle attempts a).1 = delayAfter undefinedShift attempts
  counts : ∀ (k : ℕ) (a : A), (handle (wrap32 k) a).2 = wrap32 (count k a)
  atMostOne : ∀ k a, count k a ≤ k+1
  grows : ∀ k a, ¬connects a → k ≤ count k a

variable {undefinedShift : ℤ → ℤ} {handle : ℤ → A → Delay × ℤ} {connects : A → Prop}
  {count : ℕ → A → ℕ}

theorem counter_follows (h : Follows undefinedShift handle connects count) (calls : List A) :
    counter handle calls = wrap32 (Schedule.run count calls 0 : ℕ) := by
  induction calls using List.reverseRecOn with
  | nil => exact (wrap32_of_fits 0 (by decide) (by decide)).symm
  | append_singleton calls a ih =>
    rw [counter] at ih ⊢
    rw [Schedule.run_append, Schedule.run_append, ih]
    exact h.counts _ a

/-- A count that grows by one at most meets every number below one it reaches. -/
theorem count_meets (h : ∀ k a, count k a ≤ k+1) (m : ℕ) (calls : List A)
    (hm : m ≤ Schedule.run count calls 0) :
    ∃ before after, calls = before++after ∧ Schedule.run count before 0 = m := by
  induction calls using List.reverseRecOn with
  | nil => exact ⟨[],[],rfl,(Nat.le_zero.mp hm).symm⟩
  | append_singleton calls a ih =>
    by_cases heq : Schedule.run count (calls++[a]) 0 = m
    · exact ⟨calls++[a],[],(List.append_nil _).symm,heq⟩
    · rw [Schedule.run_append] at hm heq
      have hone := h (Schedule.run count calls 0) a
      change m ≤ count _ a at hm
      change ¬count _ a = m at heq
      obtain ⟨before,after,rfl,hbefore⟩ := ih (by omega)
      exact ⟨before,after++[a],List.append_assoc ..,hbefore⟩

theorem saneThroughout_iff (h : Follows undefinedShift handle connects count) (calls : List A) :
    SaneThroughout handle connects calls ↔
      ∀ before a after, calls = before++a::after → Schedule.run count before 0 ≤ 21 := by
  constructor
  · intro hsane before a after hcalls
    by_contra hmany
    obtain ⟨first,rest,rfl,hfirst⟩ := count_meets h.atMostOne 22 before (by omega)
    obtain ⟨b,more,hb⟩ : ∃ b more, rest++a::after = b::more := by
      cases rest with
      | nil => exact ⟨a,after,rfl⟩
      | cons b more => exact ⟨b,more++a::after,rfl⟩
    have hbad := (hsane first b more (by rw [hcalls, List.append_assoc, hb])).1.least
    rw [h.delay, counter_follows h, hfirst] at hbad
    change 1000 ≤ (delayAfter undefinedShift (wrap32 22)).baseDelayMs at hbad
    rw [delayAfter_wraps] at hbad
    exact absurd hbad (by decide)
  · intro hfew before a after hcalls
    have hbefore := hfew before a after hcalls
    rw [h.delay, counter_follows h]
    refine ⟨delayAfter_sane undefinedShift _ hbefore,?_⟩
    intro hconnects b hb
    obtain ⟨more,rfl⟩ := List.head?_eq_some_iff.mp hb
    have hnext := hfew (before++[a]) b more (by rw [hcalls, List.append_assoc]; rfl)
    rw [h.delay, counter_follows h]
    refine delayAfter_mono undefinedShift _ _ ?_ hnext
    rw [Schedule.run_append]
    exact h.grows _ a hconnects

end Runs

section Handlers
variable (undefinedShift : ℤ → ℤ)

inductive Outcome where
  | stopped
  | connected
  | failed
  deriving DecidableEq

/-- The caller's thread is not looked at: after a failure with reconnection
still on, the timer joins the thread it runs in, which throws. -/
def MarketDataGateway.handleReconnection (attempts : ℤ) (outcome : Outcome) : Delay × ℤ :=
  (delayAfter undefinedShift attempts,
    match outcome with
    | .stopped => attempts
    | .connected => 0
    | .failed => wrap32 (attempts+1))

/-- The call counts an attempt and makes none. Nothing sets the counter back. -/
def ThinMuxAdapter.handleReconnect (attempts : ℤ) (shouldReconnect : Bool) : Delay × ℤ :=
  (delayAfter undefinedShift attempts,if shouldReconnect then wrap32 (attempts+1) else attempts)

def failuresInARow (failures : ℕ) : Outcome → ℕ
  | .stopped => failures
  | .connected => 0
  | .failed => failures+1

def attemptsCounted (attempts : ℕ) (shouldReconnect : Bool) : ℕ :=
  if shouldReconnect then attempts+1 else attempts

theorem gateway_follows : Follows undefinedShift (MarketDataGateway.handleReconnection undefinedShift)
    (· = .connected) failuresInARow := by
  constructor
  case delay => exact fun attempts a => rfl
  case counts =>
    intro k a
    cases a with
    | stopped => simp only [MarketDataGateway.handleReconnection, failuresInARow]
    | connected =>
      have hzero : wrap32 (0 : ℕ) = 0 := wrap32_of_fits 0 (by decide) (by decide)
      simp only [MarketDataGateway.handleReconnection, failuresInARow, hzero]
    | failed =>
      simp only [MarketDataGateway.handleReconnection, failuresInARow]
      exact wrap32_succ k
  case atMostOne =>
    intro k a
    cases a <;> simp [failuresInARow]
  case grows =>
    intro k a ha
    cases a with
    | stopped => exact le_refl k
    | connected => exact absurd rfl ha
    | failed => exact Nat.le_succ k

theorem thinMux_follows : Follows undefinedShift (ThinMuxAdapter.handleReconnect undefinedShift)
    (fun _ => False) attemptsCounted := by
  constructor
  case delay => exact fun attempts a => rfl
  case counts =>
    intro k a
    cases a with
    | false => simp [ThinMuxAdapter.handleReconnect, attemptsCounted]
    | true =>
      simp only [ThinMuxAdapter.handleReconnect, attemptsCounted, if_true]
      exact wrap32_succ k
  case atMostOne =>
    intro k a
    cases a <;> simp [attemptsCounted]
  case grows =>
    intro k a _
    cases a <;> simp [attemptsCounted]

/-- The delays stay sane exactly as long as no call meets more than 21 failed
attempts in a row, which in `ThinMuxAdapter` are all that were ever counted. -/
theorem delays_sane_iff (calls : List Outcome) (counted : List Bool) :
    (SaneThroughout (MarketDataGateway.handleReconnection undefinedShift) (· = .connected) calls ↔
      ∀ before a after, calls = before++a::after → Schedule.run failuresInARow before 0 ≤ 21) ∧
    (SaneThroughout (ThinMuxAdapter.handleReconnect undefinedShift) (fun _ => False) counted ↔
      ∀ before a after, counted = before++a::after → Schedule.run attemptsCounted before 0 ≤ 21) :=
  ⟨saneThroughout_iff (gateway_follows undefinedShift) calls,
    saneThroughout_iff (thinMux_follows undefinedShift) counted⟩

end Handlers

section LongOutage

theorem longOutage_delays :
    (MarketDataGateway.handleReconnection (fun _ => 0)
      (counter (MarketDataGateway.handleReconnection (fun _ => 0)) (List.replicate 22 .failed))
      .failed).1 = ⟨-100663296,25165824,-25165824⟩ ∧
    (ThinMuxAdapter.handleReconnect (fun _ => 0)
      (counter (ThinMuxAdapter.handleReconnect (fun _ => 0)) (List.replicate 22 true))
      true).1 = ⟨-100663296,25165824,-25165824⟩ := by
  decide +kernel

theorem longOutage_insane :
    ¬SaneThroughout (MarketDataGateway.handleReconnection (fun _ => 0)) (· = .connected)
        (List.replicate 23 .failed) ∧
      ¬SaneThroughout (ThinMuxAdapter.handleReconnect (fun _ => 0)) (fun _ => False)
        (List.replicate 23 true) := by
  obtain ⟨hgateway,hthinMux⟩ := longOutage_delays
  constructor
  · intro h
    have hleast := (h (List.replicate 22 .failed) .failed [] rfl).1.least
    rw [hgateway] at hleast
    exact absurd hleast (by decide)
  · intro h
    have hleast := (h (List.replicate 22 true) true [] rfl).1.least
    rw [hthinMux] at hleast
    exact absurd hleast (by decide)

end LongOutage
end Chronos.ReconnectDelay
