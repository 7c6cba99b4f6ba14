import Chronos.DailyReturns

/-!
# One return a day

The returns of an equity curve by days: the last equity of each day that has
snapshots, and what it gained over the day before that has some. The loop
agrees with it as long as no day is skipped and the boundary does not wrap;
an empty day and a wrapped boundary each add a return of their own.
-/

set_option autoImplicit false

namespace Chronos.DailyReturns
open WhileLoop
variable {V : Type}

section Days

def day (x : UInt64 × V) : ℕ := x.1.toNat/86400000000

def days (equity : List (UInt64 × V)) : List ℕ := (equity.map day).dedup

def dayClose (equity : List (UInt64 × V)) (d : ℕ) : Option V :=
  ((equity.filter (fun x => day x = d)).getLast?).map Prod.snd

def closes (equity : List (UInt64 × V)) : List V := (days equity).filterMap (dayClose equity)

def returnsOf [Sub V] [Div V] : List V → List V
  | [] => []
  | [_] => []
  | c::c'::cs => (c'-c)/c::returnsOf (c'::cs)

def InOrder (equity : List (UInt64 × V)) : Prop := equity.Pairwise (fun x y => x.1 ≤ y.1)

def NoGap (equity : List (UInt64 × V)) : Prop := equity.IsChain (fun x y => day y ≤ day x+1)

theorem day_mono (x y : UInt64 × V) (h : x.1 ≤ y.1) : day x ≤ day y :=
  Nat.div_le_div_right (UInt64.le_iff_toNat_le.mp h)

theorem dayClose_cons (x : UInt64 × V) (equity : List (UInt64 × V)) (d : ℕ)
    (h : d ∈ equity.map day) : dayClose (x::equity) d = dayClose equity d := by
  unfold dayClose
  by_cases hx : day x = d
  · obtain ⟨y,hy,hday⟩ := List.mem_map.mp h
    have hne : equity.filter (fun x => day x = d) ≠ [] :=
      List.ne_nil_of_mem (List.mem_filter.mpr ⟨hy,decide_eq_true hday⟩)
    rw [List.filter_cons, if_pos (decide_eq_true hx), List.getLast?_cons,
      List.getLast?_eq_some_getLast hne]
    rfl
  · rw [List.filter_cons_of_neg (by simpa using hx)]

theorem dayClose_first (x : UInt64 × V) (equity : List (UInt64 × V)) (h : day x ∉ equity.map day) :
    dayClose (x::equity) (day x) = some x.2 := by
  have hnone : equity.filter (fun y => day y = day x) = [] := by
    rw [List.filter_eq_nil_iff]
    intro y hy hday
    exact h (List.mem_map.mpr ⟨y,hy,of_decide_eq_true hday⟩)
  rw [dayClose, List.filter_cons, if_pos (decide_eq_true rfl), hnone]
  rfl

theorem closes_later (x : UInt64 × V) (equity : List (UInt64 × V)) :
    (days equity).filterMap (dayClose (x::equity)) = closes equity :=
  List.filterMap_congr (fun d hd => dayClose_cons x equity d (List.mem_dedup.mp hd))

theorem closes_single (x : UInt64 × V) : closes [x] = [x.2] := by
  simp [closes, days, dayClose]

theorem closes_cons (x y : UInt64 × V) (later : List (UInt64 × V)) (h : InOrder (x::y::later)) :
    closes (x::y::later) =
      if day x = day y then closes (y::later) else x.2::closes (y::later) := by
  obtain ⟨hx,hlater⟩ := List.pairwise_cons.mp h
  by_cases hday : day x = day y
  · have hmem : day x ∈ (y::later).map day := List.mem_map.mpr ⟨y,List.mem_cons_self,hday.symm⟩
    rw [if_pos hday, closes, days, List.map_cons, List.dedup_cons_of_mem hmem]
    exact closes_later x (y::later)
  · have hmem : day x ∉ (y::later).map day := by
      intro hin
      obtain ⟨z,hz,heq⟩ := List.mem_map.mp hin
      have hxy := day_mono x y (hx y List.mem_cons_self)
      have hyz : day y ≤ day z := by
        rcases List.mem_cons.mp hz with rfl | hz
        · exact le_refl _
        · exact day_mono y z ((List.pairwise_cons.mp hlater).1 z hz)
      omega
    rw [if_neg hday, closes, days, List.map_cons, List.dedup_cons_of_notMem hmem,
      List.filterMap_cons_some (dayClose_first x (y::later) hmem)]
    exact congrArg _ (closes_later x (y::later))

theorem closes_pos (x : UInt64 × V) (later : List (UInt64 × V)) (h : InOrder (x::later)) :
    0 < (closes (x::later)).length := by
  induction later generalizing x with
  | nil => simp [closes_single]
  | cons y later ih =>
    rw [closes_cons x y later h]
    by_cases hday : day x = day y
    · rw [if_pos hday]
      exact ih y (List.pairwise_cons.mp h).2
    · rw [if_neg hday]
      exact Nat.succ_pos _

/-- There are no more closes than days from the first to the last, and fewer if
a day is skipped. -/
theorem closes_length (x : UInt64 × V) (later : List (UInt64 × V)) (h : InOrder (x::later)) (last : ℕ)
    (hlast : ∀ y ∈ x::later, day y ≤ last) :
    (closes (x::later)).length+day x ≤ last+1 ∧
      (¬NoGap (x::later) → (closes (x::later)).length+day x ≤ last) := by
  induction later generalizing x with
  | nil =>
    have hx := hlast x List.mem_cons_self
    rw [closes_single]
    refine ⟨by simp only [List.length_singleton]; omega,fun hgap => ?_⟩
    exact absurd (List.isChain_singleton x) hgap
  | cons y later ih =>
    obtain ⟨hx,hlater⟩ := List.pairwise_cons.mp h
    have hxy := day_mono x y (hx y List.mem_cons_self)
    obtain ⟨hle,hlt⟩ := ih y hlater (fun z hz => hlast z (List.mem_cons_of_mem x hz))
    have hgap : NoGap (x::y::later) ↔ day y ≤ day x+1 ∧ NoGap (y::later) := List.isChain_cons_cons
    rw [closes_cons x y later h, hgap]
    by_cases hday : day x = day y
    · rw [if_pos hday, hday]
      exact ⟨hle,fun hno => hlt (fun hrest => hno ⟨by omega,hrest⟩)⟩
    · rw [if_neg hday, List.length_cons]
      refine ⟨by omega,fun hno => ?_⟩
      by_cases hnext : day y ≤ day x+1
      · have := hlt (fun hrest => hno ⟨hnext,hrest⟩)
        omega
      · omega

theorem returnsOf_length [Sub V] [Div V] (cs : List V) : (returnsOf cs).length = cs.length-1 := by
  induction cs with
  | nil => rfl
  | cons c cs ih =>
    cases cs with
    | nil => rfl
    | cons c' cs => rw [returnsOf, List.length_cons, ih]; rfl

theorem exists_latest (x : UInt64 × V) (later : List (UInt64 × V)) :
    ∃ z ∈ x::later, ∀ y ∈ x::later, day y ≤ day z := by
  induction later generalizing x with
  | nil => exact ⟨x,List.mem_cons_self,by simp⟩
  | cons y later ih =>
    obtain ⟨z,hz,hmax⟩ := ih y
    rcases Nat.le_total (day x) (day z) with hle | hle
    · exact ⟨z,List.mem_cons_of_mem x hz,List.forall_mem_cons.mpr ⟨hle,hmax⟩⟩
    · refine ⟨x,List.mem_cons_self,List.forall_mem_cons.mpr ⟨le_refl _,?_⟩⟩
      exact fun w hw => (hmax w hw).trans hle

end Days

section FullDays

/-- The turn on a day with snapshots closes that day and drops it; with no gap
the next snapshot is of the next day. -/
theorem drop_day (bound : UInt64) (x : UInt64 × V) (later : List (UInt64 × V))
    (h : InOrder (x::later)) (hbound : bound.toNat = (day x+1)*86400000000) :
    closes (x::later) =
        (lastBefore bound x later).2::closes (later.dropWhile (fun y => y.1 < bound)) ∧
      (NoGap (x::later) → ∀ y ∈ (later.dropWhile (fun y => y.1 < bound)).head?, day y = day x+1) := by
  induction later generalizing x with
  | nil => exact ⟨closes_single x,fun _ y hy => by cases hy⟩
  | cons y later ih =>
    obtain ⟨hx,hlater⟩ := List.pairwise_cons.mp h
    have hxy := day_mono x y (hx y List.mem_cons_self)
    have hbefore : y.1 < bound ↔ day y ≤ day x := by
      rw [lt_toNat, hbound, day, day, ← Nat.lt_add_one_iff, Nat.div_lt_iff_lt_mul (by norm_num)]
    rw [closes_cons x y later h]
    by_cases hy : y.1 < bound
    · have hday : day x = day y := le_antisymm hxy (hbefore.mp hy)
      obtain ⟨hcloses,hnext⟩ := ih y hlater (hday ▸ hbound)
      rw [if_pos hday, lastBefore, if_pos hy, List.dropWhile_cons_of_pos (by simpa using hy),
        hday]
      exact ⟨hcloses,fun hgap => hnext (List.isChain_cons_cons.mp hgap).2⟩
    · have hday : day x ≠ day y := fun heq => hy (hbefore.mpr (by omega))
      rw [if_neg hday, lastBefore, if_neg hy, List.dropWhile_cons_of_neg (by simpa using hy)]
      refine ⟨rfl,fun hgap z hz => ?_⟩
      obtain rfl := Option.some.inj hz
      have hstep := (List.isChain_cons_cons.mp hgap).1
      omega

variable [Sub V] [Div V] (firstDay : UInt64)

theorem turn_day (s : Loop V) (x : UInt64 × V) (later : List (UInt64 × V))
    (hrest : s.rest = x::later) (horder : InOrder s.rest) (hgap : NoGap s.rest)
    (hfull : day x < 2^64/86400000000) (hday : s.dayStart.toNat = day x*86400000000) :
    closes s.rest = (turn firstDay s).prevDayClose::closes (turn firstDay s).rest ∧
      (turn firstDay s).rets = (if s.dayStart > firstDay
        then s.rets++[((turn firstDay s).prevDayClose-s.prevDayClose)/s.prevDayClose] else s.rets) ∧
      (turn firstDay s).rest.length < s.rest.length ∧
      (turn firstDay s).dayStart.toNat = (day x+1)*86400000000 ∧
      ∀ y ∈ (turn firstDay s).rest.head?, day y = day x+1 := by
  have hgo := goOn_cons x later s hrest
  have hbound : (s.dayStart+dayUs).toNat = (day x+1)*86400000000 := by
    rw [bound_toNat]
    omega
  have hdrop : x.1 < s.dayStart+dayUs := by
    rw [lt_toNat, hbound, day]
    omega
  have hturn : (turn firstDay s).rest = later.dropWhile (fun y => y.1 < s.dayStart+dayUs) := by
    rw [turn_rest, hrest, List.dropWhile_cons_of_pos (by simpa using hdrop)]
  have hclose : (turn firstDay s).prevDayClose = (lastBefore (s.dayStart+dayUs) x later).2 := by
    simp only [turn, hrest]
  rw [hrest] at horder hgap
  obtain ⟨hcloses,hnext⟩ := drop_day (s.dayStart+dayUs) x later horder hbound
  refine ⟨?_,?_,?_,?_,?_⟩
  · rw [hrest, hcloses, hclose, hturn]
  · rw [hclose]
    simp only [turn, hrest]
  · rw [hturn, hrest, List.length_cons]
    exact Nat.lt_succ_of_le (List.dropWhile_suffix _).length_le
  · rw [turn_dayStart firstDay s hgo, hbound]
  · rw [hturn]
    exact hnext hgap

/-- From the second day on, each turn adds the return of one day. -/
theorem full_days (n : ℕ) (s : Loop V) (hn : s.rest.length ≤ n) (horder : InOrder s.rest)
    (hgap : NoGap s.rest) (hfull : ∀ x ∈ s.rest, day x < 2^64/86400000000)
    (hday : ∀ x ∈ s.rest.head?, s.dayStart.toNat = day x*86400000000) (hfirst : s.dayStart > firstDay) :
    ∃ t, Leaves goOn (turn firstDay) s t ∧
      t.rets = s.rets++returnsOf (s.prevDayClose::closes s.rest) := by
  induction n generalizing s with
  | zero =>
    have hnil := List.eq_nil_of_length_eq_zero (Nat.le_zero.mp hn)
    refine ⟨s,(leaves_stop s s (goOn_nil s hnil)).mpr rfl,?_⟩
    rw [hnil]
    exact (List.append_nil s.rets).symm
  | succ n ih =>
    cases hrest : s.rest with
    | nil =>
      refine ⟨s,(leaves_stop s s (goOn_nil s hrest)).mpr rfl,?_⟩
      exact (List.append_nil s.rets).symm
    | cons x later =>
      have hx : x ∈ s.rest := by rw [hrest]; exact List.mem_cons_self
      have hgo := goOn_cons x later s hrest
      have hstart := hday x (by rw [hrest]; rfl)
      obtain ⟨hcloses,hrets,hlength,hnext,hhead⟩ :=
        turn_day firstDay s x later hrest horder hgap (hfull x hx) hstart
      have hsuffix : (turn firstDay s).rest <:+ s.rest := by
        rw [turn_rest]
        exact List.dropWhile_suffix _
      have hlater : (turn firstDay s).dayStart > firstDay := by
        rw [gt_iff_lt, lt_toNat] at hfirst ⊢
        omega
      obtain ⟨t,ht,hreturns⟩ := ih (turn firstDay s) (by omega) (horder.sublist hsuffix.sublist)
        (hgap.suffix hsuffix) (fun y hy => hfull y (hsuffix.subset hy))
        (fun y hy => by rw [hnext, hhead y hy]) hlater
      refine ⟨t,(leaves_turn s t hgo).mpr ht,?_⟩
      rw [hreturns, hrets, if_pos hfirst, ← hrest, hcloses, returnsOf, List.append_assoc]
      rfl

/-- A curve without gaps that stays clear of the clock's last day. -/
theorem full_days_returns (first second : UInt64 × V) (later : List (UInt64 × V))
    (horder : InOrder (first::second::later)) (hgap : NoGap (first::second::later))
    (hfull : ∀ x ∈ first::second::later, day x < 2^64/86400000000) :
    Returns (first::second::later) (returnsOf (closes (first::second::later))) := by
  have hstart := startOfDay_toNat first
  have hgo := goOn_cons first (second::later) (enter first (second::later)) rfl
  have hstill : ¬(enter first (second::later)).dayStart > startOfDay first :=
    UInt64.lt_irrefl (startOfDay first)
  obtain ⟨hcloses,hrets,_,hnext,hhead⟩ := turn_day (startOfDay first) (enter first (second::later))
    first (second::later) rfl horder hgap (hfull first List.mem_cons_self) hstart
  have hsuffix : (turn (startOfDay first) (enter first (second::later))).rest <:+
      first::second::later := by
    rw [turn_rest]
    exact List.dropWhile_suffix _
  have hlater : (turn (startOfDay first) (enter first (second::later))).dayStart > startOfDay first := by
    rw [gt_iff_lt, lt_toNat, hnext, hstart]
    unfold day
    omega
  obtain ⟨t,ht,hreturns⟩ := full_days (startOfDay first) _
    (turn (startOfDay first) (enter first (second::later))) (le_refl _)
    (horder.sublist hsuffix.sublist) (hgap.suffix hsuffix) (fun y hy => hfull y (hsuffix.subset hy))
    (fun y hy => by rw [hnext, hhead y hy]) hlater
  refine (returns_loop first second later _).mpr ⟨t,(leaves_turn _ t hgo).mpr ht,?_⟩
  rw [hreturns, hrets, if_neg hstill, ← hcloses]
  rfl

end FullDays
end Chronos.DailyReturns
