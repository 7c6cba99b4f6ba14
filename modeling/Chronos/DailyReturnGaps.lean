import Chronos.DailyReturnDays

/-!
# Returns that are no day's

On a day without snapshots the loop closes the day with the next snapshot and
adds its return, then a zero one for the day of that snapshot. On the last day
of the 64-bit clock the boundary wraps and has to climb up again, twice before
it passes the start of that day. The curves on which the returns are those of
the days are the ones that meet neither.
-/

set_option autoImplicit false

namespace Chronos.DailyReturns
open WhileLoop
variable {V : Type}

def lastDayStart : ℕ := 2^64/86400000000*86400000000

def lastDayBound : ℕ := 2^64-328654848

/-- No day is skipped, and all snapshots are before the last day of the clock
or all are on it and before its boundary. -/
def Regular (equity : List (UInt64 × V)) : Prop :=
  equity.length < 2 ∨ NoGap equity ∧
    ((∀ x ∈ equity, x.1.toNat < lastDayStart) ∨
      ∀ x ∈ equity, lastDayStart ≤ x.1.toNat ∧ x.1.toNat < lastDayBound)

section LastDay

theorem startOfDay_day (x : UInt64 × V) : (startOfDay x).toNat = 86400000000*day x := by
  rw [startOfDay_toNat, Nat.mul_comm]
  rfl

theorem startOfDay_last (x : UInt64 × V) (hlate : lastDayStart ≤ x.1.toNat) :
    (startOfDay x).toNat = lastDayStart := by
  have hword := x.1.toNat_lt
  rw [startOfDay_toNat]
  unfold lastDayStart at *
  omega

theorem day_last_le (y x : UInt64 × V) (hlate : lastDayStart ≤ x.1.toNat) : day y ≤ day x := by
  have hword := y.1.toNat_lt
  unfold day lastDayStart at *
  omega

theorem start_le_of_day (y x : UInt64 × V) (hlate : lastDayStart ≤ x.1.toNat) (h : day x ≤ day y) :
    lastDayStart ≤ y.1.toNat := by
  unfold day lastDayStart at *
  omega

theorem first_le {first : UInt64 × V} {later : List (UInt64 × V)} (h : InOrder (first::later))
    (y : UInt64 × V) (hy : y ∈ first::later) : first.1.toNat ≤ y.1.toNat := by
  rcases List.mem_cons.mp hy with rfl | hy
  · exact le_refl _
  · exact UInt64.le_iff_toNat_le.mp ((List.pairwise_cons.mp h).1 y hy)

end LastDay

variable [Sub V] [Div V]

def byDay (equity : List (UInt64 × V)) : List V := returnsOf (closes equity)

section Turns
variable (firstDay : UInt64)

theorem turn_rets_push (s : Loop V) (hgo : goOn s = true) (h : s.dayStart > firstDay) :
    (turn firstDay s).rets.length = s.rets.length+1 := by
  unfold turn
  cases hrest : s.rest with
  | nil => rw [goOn_nil s hrest] at hgo; cases hgo
  | cons x later => simp [h]

theorem turn_rets_still (s : Loop V) (h : ¬s.dayStart > firstDay) :
    (turn firstDay s).rets = s.rets := by
  unfold turn
  cases hrest : s.rest with
  | nil => rfl
  | cons x later => exact if_neg h

theorem turn_rets_le (s : Loop V) : s.rets.length ≤ (turn firstDay s).rets.length := by
  unfold turn
  cases hrest : s.rest with
  | nil => exact le_refl _
  | cons x later =>
    simp only
    split_ifs
    · simp
    · exact le_refl _

theorem leaves_grows (s t : Loop V) (h : Leaves goOn (turn firstDay) s t) :
    s.rets.length ≤ t.rets.length :=
  (leaves_invariant (fun u => s.rets.length ≤ u.rets.length)
    (fun u _ hu => hu.trans (turn_rets_le firstDay u)) s t (le_refl _) h).1

theorem leaves_push (s t : Loop V) (x : UInt64 × V) (hx : x ∈ s.rest) (h : s.dayStart > firstDay)
    (ht : Leaves goOn (turn firstDay) s t) : s.rets.length+1 ≤ t.rets.length := by
  have hgo := goOn_of_mem s x hx
  rw [← turn_rets_push firstDay s hgo h]
  exact leaves_grows firstDay _ t ((leaves_turn s t hgo).mp ht)

end Turns

section Climb
variable (firstDay : UInt64)

structure Climb (x : UInt64 × V) (s s' : Loop V) : Prop where
  here : x ∈ s'.rest
  subset : ∀ y ∈ s'.rest, y ∈ s.rest
  leaves : ∀ t, Leaves goOn (turn firstDay) s t ↔ Leaves goOn (turn firstDay) s' t
  grows : s.rets.length ≤ s'.rets.length
  still : lastDayStart ≤ firstDay.toNat → s'.rets = s.rets

variable {firstDay} {x : UInt64 × V}

theorem Climb.refl (s : Loop V) (hx : x ∈ s.rest) : Climb firstDay x s s where
  here := hx
  subset _ hy := hy
  leaves _ := Iff.rfl
  grows := le_refl _
  still _ := rfl

theorem Climb.trans {s s' s'' : Loop V} (h : Climb firstDay x s s') (h' : Climb firstDay x s' s'') :
    Climb firstDay x s s'' where
  here := h'.here
  subset y hy := h.subset y (h'.subset y hy)
  leaves t := (h.leaves t).trans (h'.leaves t)
  grows := h.grows.trans h'.grows
  still hl := (h'.still hl).trans (h.still hl)

theorem climb_turn (s : Loop V) (hx : x ∈ s.rest) (hlate : lastDayStart ≤ x.1.toNat)
    (hstart : s.dayStart.toNat ≤ lastDayStart) (hnext : (s.dayStart+dayUs).toNat ≤ lastDayStart) :
    Climb firstDay x s (turn firstDay s) := by
  constructor
  case here => exact turn_keeps firstDay s x hx (hnext.trans hlate)
  case subset =>
    intro y hy
    rw [turn_rest] at hy
    exact (List.dropWhile_suffix _).subset hy
  case leaves => exact fun t => leaves_turn s t (goOn_of_mem s x hx)
  case grows => exact turn_rets_le firstDay s
  case still =>
    intro hl
    refine turn_rets_still firstDay s ?_
    rw [gt_iff_lt, lt_toNat]
    omega

variable (firstDay) in
theorem climb_days (m : ℕ) (s : Loop V) (hx : x ∈ s.rest) (hlate : lastDayStart ≤ x.1.toNat)
    (hm : s.dayStart.toNat+86400000000*m ≤ lastDayStart) :
    ∃ s', Climb firstDay x s s' ∧ s'.dayStart.toNat = s.dayStart.toNat+86400000000*m := by
  induction m with
  | zero => exact ⟨s,.refl s hx,by omega⟩
  | succ m ih =>
    obtain ⟨s',hclimb,hday⟩ := ih (by omega)
    have hnext : (s'.dayStart+dayUs).toNat = s.dayStart.toNat+86400000000*(m+1) := by
      rw [bound_toNat, hday]
      unfold lastDayStart at hm
      omega
    refine ⟨turn firstDay s',hclimb.trans ?_,?_⟩
    · exact climb_turn s' hclimb.here hlate (by omega) (by omega)
    · rw [turn_dayStart firstDay s' (goOn_of_mem s' x hclimb.here), hnext]

variable (firstDay) in
/-- From the start of the last day the boundary wraps twice and comes back. -/
theorem climb_laps (s : Loop V) (hx : x ∈ s.rest) (hlate : lastDayStart ≤ x.1.toNat)
    (hday : s.dayStart.toNat = lastDayStart) :
    ∃ s', Climb firstDay x s s' ∧ (s'.dayStart+dayUs).toNat = lastDayBound := by
  unfold lastDayStart lastDayBound at *
  have hwrap : (s.dayStart+dayUs).toNat = 57490448384 := by
    rw [bound_toNat, hday]
    norm_num
  have h1 : Climb firstDay x s (turn firstDay s) :=
    climb_turn s hx hlate (by unfold lastDayStart; omega) (by unfold lastDayStart; omega)
  have hday1 := turn_dayStart firstDay s (goOn_of_mem s x hx)
  obtain ⟨s2,h2,hday2⟩ := climb_days firstDay (2^64/86400000000-1) (turn firstDay s)
    h1.here hlate (by rw [hday1, hwrap]; decide)
  rw [hday1, hwrap] at hday2
  have hwrap2 : (s2.dayStart+dayUs).toNat = 28580896768 := by
    rw [bound_toNat, hday2]
    norm_num
  have h3 : Climb firstDay x s2 (turn firstDay s2) := climb_turn s2 h2.here hlate
    (by unfold lastDayStart; omega) (by unfold lastDayStart; omega)
  have hday3 := turn_dayStart firstDay s2 (goOn_of_mem s2 x h2.here)
  obtain ⟨s4,h4,hday4⟩ := climb_days firstDay (2^64/86400000000-1) (turn firstDay s2)
    h3.here hlate (by rw [hday3, hwrap2]; decide)
  rw [hday3, hwrap2] at hday4
  refine ⟨s4,h1.trans (h2.trans (h3.trans h4)),?_⟩
  rw [bound_toNat, hday4]
  norm_num

end Climb

section Returned
variable (first second : UInt64 × V) (later : List (UInt64 × V))

/-- On the last day alone the boundary climbs without adding a return. -/
theorem last_day_returns (h : ∀ x ∈ first::second::later,
    lastDayStart ≤ x.1.toNat ∧ x.1.toNat < lastDayBound) :
    Returns (first::second::later) [] := by
  obtain ⟨hfirst,_⟩ := h first List.mem_cons_self
  have hstart := startOfDay_last first hfirst
  obtain ⟨s,hclimb,hbound⟩ := climb_laps (startOfDay first) (x := first)
    (enter first (second::later)) List.mem_cons_self hfirst hstart
  have hgo := goOn_of_mem s first hclimb.here
  have hempty : (turn (startOfDay first) s).rest = [] := by
    rw [turn_rest, List.dropWhile_eq_nil_iff]
    intro y hy
    rw [decide_eq_true_eq, lt_toNat, hbound]
    exact (h y (hclimb.subset y hy)).2
  have hstill : ¬s.dayStart > startOfDay first := by
    have hword := s.dayStart.toNat_lt
    rw [bound_toNat] at hbound
    rw [gt_iff_lt, lt_toNat, hstart]
    unfold lastDayStart lastDayBound at *
    omega
  refine (returns_loop first second later []).mpr ⟨turn (startOfDay first) s,?_,?_⟩
  · rw [hclimb.leaves, leaves_turn s _ hgo, leaves_stop _ _ (goOn_nil _ hempty)]
  · rw [turn_rets_still _ s hstill, hclimb.still hstart.ge]
    rfl

variable {first second later} {rets : List V}

/-- A day boundary before a snapshot's day is reached, with a return for each
day in between. -/
theorem reach_day (firstDay : UInt64) (x : UInt64 × V) (k : ℕ) (s : Loop V) (hx : x ∈ s.rest)
    (hday : s.dayStart.toNat+86400000000*k = 86400000000*day x) (hfirst : s.dayStart > firstDay) :
    ∃ s', (∀ t, Leaves goOn (turn firstDay) s t ↔ Leaves goOn (turn firstDay) s' t) ∧
      x ∈ s'.rest ∧ s'.dayStart.toNat = 86400000000*day x ∧
      s.rets.length+k ≤ s'.rets.length ∧ s'.dayStart > firstDay := by
  induction k generalizing s with
  | zero =>
    exact ⟨s,fun _ => Iff.rfl,hx,by omega,le_refl _,hfirst⟩
  | succ k ih =>
    have hgo := goOn_of_mem s x hx
    have hxday : 86400000000*day x ≤ x.1.toNat := Nat.mul_div_le _ _
    have hlt := x.1.toNat_lt
    have hbound : (s.dayStart+dayUs).toNat = s.dayStart.toNat+86400000000 := by
      rw [bound_toNat]
      omega
    have hkept : x ∈ (turn firstDay s).rest := turn_keeps firstDay s x hx (by omega)
    have hnext : (turn firstDay s).dayStart.toNat = s.dayStart.toNat+86400000000 := by
      rw [turn_dayStart firstDay s hgo, hbound]
    have hlater : (turn firstDay s).dayStart > firstDay := by
      rw [gt_iff_lt, lt_toNat] at hfirst ⊢
      omega
    obtain ⟨s',hleaves,hx',hday',hrets,hfirst'⟩ := ih (turn firstDay s) hkept (by omega) hlater
    rw [turn_rets_push firstDay s hgo hfirst] at hrets
    exact ⟨s',fun t => (leaves_turn s t hgo).trans (hleaves t),hx',hday',by omega,hfirst'⟩

theorem enter_reach_day (x : UInt64 × V) (hx : x ∈ first::second::later) (hlt : day first < day x) :
    ∃ s', (∀ t, Leaves goOn (turn (startOfDay first)) (enter first (second::later)) t ↔
        Leaves goOn (turn (startOfDay first)) s' t) ∧
      x ∈ s'.rest ∧ s'.dayStart.toNat = 86400000000*day x ∧
      day x ≤ s'.rets.length+day first+1 ∧ s'.dayStart > startOfDay first := by
  have hgo := goOn_of_mem (enter first (second::later)) x hx
  have hstart : (startOfDay first).toNat = 86400000000*day first := startOfDay_day first
  have hxday : 86400000000*day x ≤ x.1.toNat := Nat.mul_div_le _ _
  have hword := x.1.toNat_lt
  have hbound : ((enter first (second::later)).dayStart+dayUs).toNat = 86400000000*(day first+1) := by
    rw [bound_toNat, enter, hstart]
    omega
  have hkept : x ∈ (turn (startOfDay first) (enter first (second::later))).rest :=
    turn_keeps _ _ x hx (by omega)
  have hnext := turn_dayStart (startOfDay first) _ hgo
  have hfirst : (turn (startOfDay first) (enter first (second::later))).dayStart >
      startOfDay first := by
    rw [gt_iff_lt, lt_toNat, hnext, hbound, hstart]
    omega
  obtain ⟨s',hleaves,hx',hday',hrets,hfirst'⟩ := reach_day (startOfDay first) x
    (day x-day first-1) _ hkept (by rw [hnext, hbound]; omega) hfirst
  exact ⟨s',fun t => (leaves_turn _ t hgo).trans (hleaves t),hx',hday',by omega,hfirst'⟩

/-- At least a return for each day from the first to that of a snapshot. -/
theorem returned_days (h : Returns (first::second::later) rets) (x : UInt64 × V)
    (hx : x ∈ first::second::later) : day x ≤ rets.length+day first := by
  obtain ⟨t,ht,rfl⟩ := (returns_loop first second later rets).mp h
  by_cases hlt : day first < day x
  · obtain ⟨s',hleaves,hx',_,hrets,hfirst⟩ := enter_reach_day x hx hlt
    have hpush := leaves_push _ s' t x hx' hfirst ((hleaves t).mp ht)
    omega
  · omega

/-- One more if the boundary has wrapped before that. -/
theorem returned_wrap (h : Returns (first::second::later) rets) (x : UInt64 × V)
    (hx : x ∈ first::second::later) (hlate : lastDayStart ≤ x.1.toNat) (hlt : day first < day x) :
    day x+1 ≤ rets.length+day first := by
  obtain ⟨t,ht,rfl⟩ := (returns_loop first second later rets).mp h
  have hword := x.1.toNat_lt
  have hxday : day x = 2^64/86400000000 := by
    unfold day lastDayStart at *
    omega
  obtain ⟨s',hleaves,hx',hday,hrets,hfirst⟩ := enter_reach_day x hx hlt
  have hgo := goOn_of_mem s' x hx'
  have hwrap : (s'.dayStart+dayUs).toNat = 57490448384 := by
    rw [bound_toNat, hday, hxday]
    norm_num
  have hkept : x ∈ (turn (startOfDay first) s').rest := by
    unfold lastDayStart at hlate
    exact turn_keeps _ s' x hx' (by omega)
  have hnext := turn_dayStart (startOfDay first) s' hgo
  have hpushed := turn_rets_push (startOfDay first) s' hgo hfirst
  -- the boundary is behind the first day again and climbs past it
  obtain ⟨s2,hclimb,hday2⟩ := climb_days (startOfDay first) (day first)
    (turn (startOfDay first) s') hkept hlate (by
      rw [hnext, hwrap]
      unfold lastDayStart
      omega)
  rw [hnext, hwrap] at hday2
  have hfirst2 : s2.dayStart > startOfDay first := by
    have hstart : (startOfDay first).toNat = 86400000000*day first := startOfDay_day first
    rw [gt_iff_lt, lt_toNat, hday2, hstart]
    omega
  have hleft := (hclimb.leaves t).mp ((leaves_turn s' t hgo).mp ((hleaves t).mp ht))
  have hpush := leaves_push _ s2 t x hclimb.here hfirst2 hleft
  have hgrows := hclimb.grows
  omega

/-- A snapshot of the last day behind its boundary costs a return, too. -/
theorem returned_last (h : Returns (first::second::later) rets) (hfirst : lastDayStart ≤ first.1.toNat)
    (x : UInt64 × V) (hx : x ∈ first::second::later) (hlate : lastDayBound ≤ x.1.toNat) :
    1 ≤ rets.length := by
  obtain ⟨t,ht,rfl⟩ := (returns_loop first second later rets).mp h
  have hstart := startOfDay_last first hfirst
  obtain ⟨s,hclimb,hbound⟩ := climb_laps (startOfDay first) (x := x)
    (enter first (second::later)) hx (by unfold lastDayStart lastDayBound at *; omega) hstart
  have hgo := goOn_of_mem s x hclimb.here
  have hkept : x ∈ (turn (startOfDay first) s).rest := turn_keeps _ s x hclimb.here (by omega)
  have hpast : (turn (startOfDay first) s).dayStart > startOfDay first := by
    rw [gt_iff_lt, lt_toNat, turn_dayStart _ s hgo, hbound, hstart]
    decide
  have hleft := (leaves_turn s t hgo).mp ((hclimb.leaves t).mp ht)
  have hpush := leaves_push _ _ t x hkept hpast hleft
  omega

end Returned

section Regularity
variable {first second : UInt64 × V} {later : List (UInt64 × V)} (horder : InOrder (first::second::later))
include horder

theorem byDay_length (last : ℕ) (hlast : ∀ y ∈ first::second::later, day y ≤ last) :
    (byDay (first::second::later)).length+day first ≤ last ∧
      (¬NoGap (first::second::later) → (byDay (first::second::later)).length+day first < last) := by
  obtain ⟨hcloses,hskipped⟩ := closes_length first (second::later) horder last hlast
  have hpos := closes_pos first (second::later) horder
  rw [byDay, returnsOf_length]
  exact ⟨by omega,fun hgap => by have := hskipped hgap; omega⟩

theorem noGap_of_returns (h : Returns (first::second::later) (byDay (first::second::later))) :
    NoGap (first::second::later) := by
  obtain ⟨last,hlast,hmax⟩ := exists_latest first (second::later)
  have hdays := returned_days h last hlast
  by_contra hgap
  have hfewer := (byDay_length horder (day last) hmax).2 hgap
  omega

/-- With the returns of the days, the last day of the clock is met by all of the
snapshots, before its boundary, or by none. -/
theorem clear_of_returns (h : Returns (first::second::later) (byDay (first::second::later)))
    (x : UInt64 × V) (hx : x ∈ first::second::later) (hlate : lastDayStart ≤ x.1.toNat) :
    ∀ y ∈ first::second::later, lastDayStart ≤ y.1.toNat ∧ y.1.toNat < lastDayBound := by
  have hlength := (byDay_length horder (day x) (fun y _ => day_last_le y x hlate)).1
  have hfirstday : day x ≤ day first := by
    by_contra hlt
    have hwrap := returned_wrap h x hx hlate (not_le.mp hlt)
    omega
  have hfirst := start_le_of_day first x hlate hfirstday
  intro y hy
  constructor
  · exact hfirst.trans (first_le horder y hy)
  · by_contra hbehind
    have hone := returned_last h hfirst y hy (not_lt.mp hbehind)
    omega

theorem last_day_byDay (hlate : lastDayStart ≤ first.1.toNat) : byDay (first::second::later) = [] := by
  have hlength := (byDay_length horder (day first) (fun y _ => day_last_le y first hlate)).1
  exact List.eq_nil_of_length_eq_zero (by omega)

end Regularity

/-- In order of time, the returns are those of the days exactly for the regular
curves. -/
theorem returns_byDay_iff (equity : List (UInt64 × V)) (horder : InOrder equity) :
    Returns equity (byDay equity) ↔ Regular equity := by
  match equity with
  | [] => exact iff_of_true ⟨0,rfl⟩ (Or.inl (by simp))
  | [x] =>
    have hnone : byDay [x] = [] := by rw [byDay, closes_single, returnsOf]
    exact iff_of_true ⟨0,by rw [hnone]; rfl⟩ (Or.inl (by simp))
  | first::second::later =>
    constructor
    · intro h
      refine Or.inr ⟨noGap_of_returns horder h,?_⟩
      by_cases hearly : ∀ x ∈ first::second::later, x.1.toNat < lastDayStart
      · exact Or.inl hearly
      · push Not at hearly
        obtain ⟨x,hx,hlate⟩ := hearly
        exact Or.inr (clear_of_returns horder h x hx hlate)
    · rintro (hshort | ⟨hgap,hearly | hlate⟩)
      · simp at hshort
      · refine full_days_returns first second later horder hgap (fun x hx => ?_)
        have hbefore := hearly x hx
        unfold day lastDayStart at *
        omega
      · rw [last_day_byDay horder (hlate first List.mem_cons_self).1]
        exact last_day_returns first second later hlate

section Curves

def twoDays : List (UInt64 × ℚ) := [(0,100),(43200000000,105),(86400000000,110)]

theorem twoDays_returns : InOrder twoDays ∧ byDay twoDays = [1/21] ∧
    (Returns twoDays (byDay twoDays) ↔ Regular twoDays) := by
  have horder : InOrder twoDays := by
    unfold InOrder
    decide
  exact ⟨horder,by decide +kernel,returns_byDay_iff twoDays horder⟩

def skippedDay : List (UInt64 × ℚ) := [(0,10000),(172800000000,10100)]

theorem skippedDay_returns : InOrder skippedDay ∧ byDay skippedDay = [1/100] ∧
    dailyReturns 4 skippedDay = some [1/100,0] ∧ ¬Returns skippedDay (byDay skippedDay) := by
  have horder : InOrder skippedDay := by
    unfold InOrder
    decide
  have hday : byDay skippedDay = [1/100] := by decide +kernel
  have hreturns : dailyReturns 4 skippedDay = some [1/100,0] := by decide +kernel
  refine ⟨horder,hday,hreturns,fun h => ?_⟩
  have hsame := returns_unique skippedDay _ _ h ⟨4,hreturns⟩
  rw [hday] at hsame
  exact absurd (congrArg List.length hsame) (by decide)

end Curves

end Chronos.DailyReturns
