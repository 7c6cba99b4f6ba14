import Chronos.WhileLoop

/-!
# The loop of daily returns

`dailyReturns` walks along an equity curve with a day boundary that moves by
one day a turn, in 64-bit arithmetic. The outer loop takes the last snapshot
before the boundary for the close of a day and drops the snapshots before it;
a turn on a day without snapshots drops none.

Timestamps are machine words in microseconds. Equities are of any type with a
difference and a quotient.
-/

set_option autoImplicit false

namespace Chronos.DailyReturns
open WhileLoop
variable {V : Type}

def dayUs : UInt64 := 86400000000

structure Loop (V : Type) where
  rest : List (UInt64 × V)
  dayStart : UInt64
  prevDayClose : V
  rets : List V

/-- `while (j + 1 < equity.size() && equity[j + 1].first < bound) j++`, from the
snapshot at `j` and those after it. -/
def lastBefore (bound : UInt64) : UInt64 × V → List (UInt64 × V) → UInt64 × V
  | snap, [] => snap
  | snap, next::later => if next.1 < bound then lastBefore bound next later else snap

/-- `while (i < equity.size())` -/
def goOn (s : Loop V) : Bool := !s.rest.isEmpty

theorem goOn_nil (s : Loop V) (h : s.rest = []) : goOn s = false := by
  rw [goOn, h]
  rfl

theorem goOn_cons (snap : UInt64 × V) (later : List (UInt64 × V)) (s : Loop V)
    (h : s.rest = snap::later) : goOn s = true := by
  rw [goOn, h]
  rfl

theorem goOn_of_mem (s : Loop V) (x : UInt64 × V) (hx : x ∈ s.rest) : goOn s = true := by
  rw [goOn, List.isEmpty_eq_false_iff.mpr (List.ne_nil_of_mem hx)]
  rfl

section Turn
variable [Sub V] [Div V]

def turn (firstDay : UInt64) (s : Loop V) : Loop V :=
  match s.rest with
  | [] => s
  | snap::later =>
    let bound := s.dayStart+dayUs
    let close := (lastBefore bound snap later).2
    { rest := s.rest.dropWhile (fun x => x.1 < bound)
      dayStart := bound
      prevDayClose := close
      rets := if s.dayStart > firstDay
        then s.rets++[(close-s.prevDayClose)/s.prevDayClose] else s.rets }

def startOfDay (snap : UInt64 × V) : UInt64 := snap.1/dayUs*dayUs

def enter (snap : UInt64 × V) (later : List (UInt64 × V)) : Loop V where
  rest := snap::later
  dayStart := startOfDay snap
  prevDayClose := snap.2
  rets := []

/-- `dailyReturns` with fuel for the tests of its outer loop. -/
def dailyReturns (fuel : ℕ) (equity : List (UInt64 × V)) : Option (List V) :=
  match equity with
  | [] => some []
  | [_] => some []
  | snap::later => (run goOn (turn (startOfDay snap)) fuel (enter snap later)).map Loop.rets

def Returns (equity : List (UInt64 × V)) (rets : List V) : Prop :=
  ∃ fuel, dailyReturns fuel equity = some rets

theorem returns_loop (first second : UInt64 × V) (later : List (UInt64 × V)) (rets : List V) :
    Returns (first::second::later) rets ↔
      ∃ s, Leaves goOn (turn (startOfDay first)) (enter first (second::later)) s ∧ s.rets = rets := by
  constructor
  · rintro ⟨fuel,h⟩
    obtain ⟨s,hs,hrets⟩ := Option.map_eq_some_iff.mp h
    exact ⟨s,⟨fuel,hs⟩,hrets⟩
  · rintro ⟨s,⟨fuel,hs⟩,hrets⟩
    exact ⟨fuel,Option.map_eq_some_iff.mpr ⟨s,hs,hrets⟩⟩

theorem returns_unique (equity : List (UInt64 × V)) (rets rets' : List V) (h : Returns equity rets)
    (h' : Returns equity rets') : rets = rets' := by
  match equity with
  | [] =>
    obtain ⟨⟨_,h⟩,⟨_,h'⟩⟩ := And.intro h h'
    exact Option.some.inj (h.symm.trans h')
  | [_] =>
    obtain ⟨⟨_,h⟩,⟨_,h'⟩⟩ := And.intro h h'
    exact Option.some.inj (h.symm.trans h')
  | first::second::later =>
    obtain ⟨s,hs,rfl⟩ := (returns_loop first second later rets).mp h
    obtain ⟨s',hs',rfl⟩ := (returns_loop first second later rets').mp h'
    rw [leaves_unique _ s s' hs hs']

theorem returns_ends (first second : UInt64 × V) (later : List (UInt64 × V)) :
    (∃ rets, Returns (first::second::later) rets) ↔
      Ends goOn (turn (startOfDay first)) (enter first (second::later)) := by
  simp only [returns_loop]
  exact ⟨fun ⟨_,s,hs,_⟩ => ⟨s,hs⟩,fun ⟨s,hs⟩ => ⟨s.rets,s,hs,rfl⟩⟩

end Turn

section Words

theorem bound_toNat (dayStart : UInt64) :
    (dayStart+dayUs).toNat = (dayStart.toNat+86400000000)%2^64 := UInt64.toNat_add dayStart dayUs

theorem startOfDay_toNat (snap : UInt64 × V) :
    (startOfDay snap).toNat = snap.1.toNat/86400000000*86400000000 := by
  have hlt := snap.1.toNat_lt
  rw [startOfDay, UInt64.toNat_mul, UInt64.toNat_div]
  exact Nat.mod_eq_of_lt (lt_of_le_of_lt (Nat.div_mul_le_self _ _) hlt)

theorem lt_toNat (t bound : UInt64) : t < bound ↔ t.toNat < bound.toNat := UInt64.lt_iff_toNat_lt

/-- The boundaries are multiples of `2^13`, as the length of a day is; 10546875
is odd, so every multiple is met. -/
theorem last_bound_met (start : ℕ) (hstart : start%8192 = 0) (hlt : start < 2^64) :
    ∃ k, (start+(k+1)*86400000000)%2^64 = 2^64-8192 := by
  refine ⟨1908071852877427*(2^51-1-start/8192)+(2^51-1),?_⟩
  have hsum : start+(1908071852877427*(2^51-1-start/8192)+(2^51-1)+1)*86400000000 =
      2^64*(8936938*(2^51-1-start/8192)+10546875)+(2^64-8192) := by omega
  rw [hsum, Nat.mul_add_mod, Nat.mod_eq_of_lt (by norm_num)]

def OnGrid (s : Loop V) : Prop := s.dayStart.toNat%8192 = 0

theorem startOfDay_onGrid (snap : UInt64 × V) (later : List (UInt64 × V)) :
    OnGrid (enter snap later) := by
  unfold OnGrid enter
  rw [startOfDay_toNat]
  omega

/-- All snapshots are before the last boundary there is. -/
def BeforeLast (s : Loop V) : Prop := ∀ x ∈ s.rest, x.1.toNat < 2^64-8192

end Words

section Ending
variable [Sub V] [Div V] (firstDay : UInt64)

theorem turn_rest (s : Loop V) :
    (turn firstDay s).rest = s.rest.dropWhile (fun x => x.1 < s.dayStart+dayUs) := by
  unfold turn
  cases h : s.rest with
  | nil => exact h
  | cons snap later => simp only

theorem turn_dayStart (s : Loop V) (h : goOn s = true) :
    (turn firstDay s).dayStart = s.dayStart+dayUs := by
  unfold turn
  cases hrest : s.rest with
  | nil => simp [goOn, hrest] at h
  | cons snap later => rfl

theorem turn_keeps (s : Loop V) (x : UInt64 × V) (hx : x ∈ s.rest)
    (hlate : (s.dayStart+dayUs).toNat ≤ x.1.toNat) : x ∈ (turn firstDay s).rest := by
  rw [← UInt64.le_iff_toNat_le] at hlate
  rw [turn_rest]
  obtain ⟨before,after,hsplit⟩ := List.mem_iff_append.mp hx
  rw [hsplit, List.dropWhile_append]
  have hhead : (x::after).dropWhile (fun y => y.1 < s.dayStart+dayUs) = x::after :=
    List.dropWhile_cons_of_neg (by simpa using hlate)
  by_cases hnil : (before.dropWhile (fun y => y.1 < s.dayStart+dayUs)).isEmpty
  · rw [if_pos hnil, hhead]
    exact List.mem_cons_self
  · rw [if_neg hnil]
    simp

theorem turn_onGrid (s : Loop V) (hgo : goOn s = true) (h : OnGrid s) : OnGrid (turn firstDay s) := by
  unfold OnGrid at *
  rw [turn_dayStart firstDay s hgo, bound_toNat]
  omega

theorem turn_beforeLast (s : Loop V) (h : BeforeLast s) : BeforeLast (turn firstDay s) := by
  intro x hx
  rw [turn_rest] at hx
  exact h x ((List.dropWhile_suffix _).subset hx)

theorem turn_rest_length (s : Loop V) : (turn firstDay s).rest.length ≤ s.rest.length := by
  rw [turn_rest]
  exact (List.dropWhile_suffix _).length_le

/-- The number of snapshots and the distance to the last boundary decrease
together, the first before the second. -/
theorem beforeLast_ends (n : ℕ) (s : Loop V) (hn : s.rest.length ≤ n) (hgrid : OnGrid s)
    (hlast : BeforeLast s) : Ends goOn (turn firstDay) s := by
  induction n generalizing s with
  | zero =>
    exact ends_stop s (goOn_nil s (List.eq_nil_of_length_eq_zero (Nat.le_zero.mp hn)))
  | succ n ihlength =>
    obtain ⟨k,hk⟩ := last_bound_met s.dayStart.toNat hgrid s.dayStart.toNat_lt
    induction k generalizing s with
    | zero =>
      cases hrest : s.rest with
      | nil => exact ends_stop s (goOn_nil s hrest)
      | cons snap later =>
        have hgo := goOn_cons snap later s hrest
        have hdrop : snap.1 < s.dayStart+dayUs := by
          rw [lt_toNat, bound_toNat]
          have hsnap := hlast snap (by simp [hrest])
          omega
        refine (ends_turn s hgo).mpr (ihlength _ ?_ (turn_onGrid firstDay s hgo hgrid)
          (turn_beforeLast firstDay s hlast))
        rw [turn_rest, hrest, List.dropWhile_cons_of_pos (by simpa using hdrop)]
        rw [hrest, List.length_cons] at hn
        exact (List.dropWhile_suffix _).length_le.trans (by omega)
    | succ k ih =>
      by_cases hgo : goOn s = true
      · refine (ends_turn s hgo).mpr (ih _ ((turn_rest_length firstDay s).trans hn)
          (turn_onGrid firstDay s hgo hgrid) (turn_beforeLast firstDay s hlast) ?_)
        rw [turn_dayStart firstDay s hgo, bound_toNat]
        omega
      · exact ends_stop s (Bool.eq_false_iff.mpr hgo)

theorem late_never_ends (s : Loop V) (hgrid : OnGrid s) (x : UInt64 × V) (hx : x ∈ s.rest)
    (hlate : 2^64-8192 ≤ x.1.toNat) : ¬Ends goOn (turn firstDay) s := by
  refine never_ends (fun s => OnGrid s ∧ x ∈ s.rest) ?_ ?_ s ⟨hgrid,hx⟩
  · rintro s hgo ⟨hgrid,hx⟩
    refine ⟨turn_onGrid firstDay s hgo hgrid,turn_keeps firstDay s x hx ?_⟩
    have hbound := (s.dayStart+dayUs).toNat_lt
    have hnext : (s.dayStart+dayUs).toNat%8192 = 0 := by
      rw [bound_toNat]
      unfold OnGrid at hgrid
      omega
    omega
  · rintro s ⟨_,hx⟩
    exact goOn_of_mem s x hx

end Ending

/-- A call ends exactly if it has nothing to do or no timestamp lies in the
last 8192 microseconds of the clock. -/
theorem dailyReturns_ends_iff [Sub V] [Div V] (equity : List (UInt64 × V)) :
    (∃ rets, Returns equity rets) ↔ equity.length < 2 ∨ ∀ x ∈ equity, x.1.toNat < 2^64-8192 := by
  match equity with
  | [] => exact iff_of_true ⟨[],0,rfl⟩ (Or.inl (by simp))
  | [_] => exact iff_of_true ⟨[],0,rfl⟩ (Or.inl (by simp))
  | first::second::later =>
    have hgrid := startOfDay_onGrid first (second::later)
    rw [returns_ends]
    constructor
    · intro h
      right
      intro x hx
      by_contra hlate
      exact late_never_ends _ _ hgrid x hx (not_lt.mp hlate) h
    · rintro (hshort | hearly)
      · simp at hshort
      · exact beforeLast_ends _ _ _ (le_refl _) hgrid hearly

def lastMicrosecond : List (UInt64 × ℚ) := [(0,1),(18446744073709551615,1)]

theorem lastMicrosecond_never_ends : ¬∃ rets, Returns lastMicrosecond rets := by
  rw [lastMicrosecond, returns_ends]
  exact late_never_ends _ _ (startOfDay_onGrid _ _) (18446744073709551615,1) (by simp [enter])
    (by decide)

end Chronos.DailyReturns
