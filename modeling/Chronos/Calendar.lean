import Mathlib

/-!
# Dates and their texts

Dates of the Gregorian calendar with a year of at most four digits, the
number of days before them, and their eight-digit text. The order of the
days, of the dates and of the texts is the same.
-/

set_option autoImplicit false

namespace Chronos.Calendar

def isLeap (year : ℕ) : Bool := year%4 = 0 && (year%100 ≠ 0 || year%400 = 0)

def daysInMonth (year : ℕ) : ℕ → ℕ
  | 2 => if isLeap year then 29 else 28
  | 4 => 30
  | 6 => 30
  | 9 => 30
  | 11 => 30
  | _ => 31

structure Date where
  year : ℕ
  month : ℕ
  day : ℕ
  year_le : year ≤ 9999
  month_pos : 1 ≤ month
  month_le : month ≤ 12
  day_pos : 1 ≤ day
  day_le : day ≤ daysInMonth year month

namespace Date

@[ext] theorem ext {d d' : Date} (hy : d.year = d'.year) (hm : d.month = d'.month)
    (hd : d.day = d'.day) : d = d' := by
  cases d
  cases d'
  subst hy hm hd
  rfl

def key (d : Date) : ℕ ×ₗ ℕ ×ₗ ℕ := toLex (d.year,toLex (d.month,d.day))

theorem key_injective : Function.Injective key := by
  intro d d' h
  have hpair : (d.year,toLex (d.month,d.day)) = (d'.year,toLex (d'.month,d'.day)) := toLex.injective h
  obtain ⟨hy,hrest⟩ := Prod.mk.inj hpair
  obtain ⟨hm,hd⟩ := Prod.mk.inj (toLex.injective hrest)
  exact ext hy hm hd

instance : LinearOrder Date := LinearOrder.lift' key key_injective

theorem lt_iff (d d' : Date) : d < d' ↔ d.year < d'.year ∨ d.year = d'.year ∧
    (d.month < d'.month ∨ d.month = d'.month ∧ d.day < d'.day) := by
  show key d < key d' ↔ _
  rw [key, key, Prod.Lex.toLex_lt_toLex, Prod.Lex.toLex_lt_toLex]

end Date

section Days
open Finset

def daysBeforeMonth (year month : ℕ) : ℕ := ∑ m ∈ Ico 1 month, daysInMonth year m

def yearLength (year : ℕ) : ℕ := daysBeforeMonth year 13

def daysBeforeYear (year : ℕ) : ℕ := ∑ y ∈ range year, yearLength y

namespace Date

def dayNumber (d : Date) : ℕ := daysBeforeYear d.year+daysBeforeMonth d.year d.month+(d.day-1)

end Date

theorem daysBeforeMonth_succ (year month : ℕ) (h : 1 ≤ month) :
    daysBeforeMonth year (month+1) = daysBeforeMonth year month+daysInMonth year month :=
  sum_Ico_succ_top h _

theorem daysBeforeMonth_mono (year m m' : ℕ) (h : m ≤ m') :
    daysBeforeMonth year m ≤ daysBeforeMonth year m' :=
  sum_le_sum_of_subset (Ico_subset_Ico_right h)

theorem daysBeforeYear_mono (y y' : ℕ) (h : y ≤ y') : daysBeforeYear y ≤ daysBeforeYear y' :=
  sum_le_sum_of_subset (range_subset_range.mpr h)

theorem daysBeforeYear_succ (year : ℕ) :
    daysBeforeYear (year+1) = daysBeforeYear year+yearLength year := sum_range_succ _ _

namespace Date

theorem before_next_month (d : Date) :
    daysBeforeMonth d.year d.month+(d.day-1) < daysBeforeMonth d.year (d.month+1) := by
  have hpos := d.day_pos
  have hle := d.day_le
  rw [daysBeforeMonth_succ _ _ d.month_pos]
  omega

theorem before_next_year (d : Date) : d.dayNumber < daysBeforeYear (d.year+1) := by
  have hmonth := d.before_next_month
  have hyear := daysBeforeMonth_mono d.year (d.month+1) 13 (Nat.succ_le_succ d.month_le)
  rw [daysBeforeYear_succ, yearLength, dayNumber]
  omega

theorem dayNumber_strictMono : StrictMono dayNumber := by
  intro d d' h
  rw [lt_iff] at h
  rcases h with hy | ⟨hy,hm | ⟨hm,hd⟩⟩
  · calc d.dayNumber < daysBeforeYear (d.year+1) := d.before_next_year
      _ ≤ daysBeforeYear d'.year := daysBeforeYear_mono _ _ hy
      _ ≤ d'.dayNumber := by
        rw [dayNumber, Nat.add_assoc]
        exact Nat.le_add_right _ _
  · have hmonth := d.before_next_month
    have hle := daysBeforeMonth_mono d.year (d.month+1) d'.month hm
    rw [dayNumber, dayNumber, ← hy]
    omega
  · have hpos := d.day_pos
    rw [dayNumber, dayNumber, ← hy, ← hm]
    omega

theorem dayNumber_same_month (d d' : Date) (hy : d.year = d'.year) (hm : d.month = d'.month) :
    d.dayNumber+d'.day = d'.dayNumber+d.day := by
  have hpos := d.day_pos
  have hpos' := d'.day_pos
  rw [dayNumber, dayNumber, hy, hm]
  omega

end Date
end Days

section Texts

def digits : ℕ → ℕ → List UInt8
  | 0, _ => []
  | width+1, n => UInt8.ofNat (48+n/10^width%10)::digits width n

@[simp] theorem length_digits (width n : ℕ) : (digits width n).length = width := by
  induction width with
  | zero => rfl
  | succ width ih => rw [digits, List.length_cons, ih]

theorem digit_lt_iff (a b : ℕ) : UInt8.ofNat (48+a%10) < UInt8.ofNat (48+b%10) ↔ a%10 < b%10 := by
  rw [UInt8.lt_iff_toNat_lt, UInt8.toNat_ofNat', UInt8.toNat_ofNat']
  omega

theorem digit_eq_iff (a b : ℕ) : UInt8.ofNat (48+a%10) = UInt8.ofNat (48+b%10) ↔ a%10 = b%10 := by
  rw [← UInt8.toNat_inj, UInt8.toNat_ofNat', UInt8.toNat_ofNat']
  omega

theorem two_parts_lt_iff (P p q u v : ℕ) (hu : u < P) (hv : v < P) :
    u+P*p < v+P*q ↔ p < q ∨ p = q ∧ u < v := by
  constructor
  · intro h
    rcases lt_trichotomy p q with hlt | heq | hgt
    · exact Or.inl hlt
    · subst heq
      exact Or.inr ⟨rfl,by omega⟩
    · have := Nat.mul_le_mul_left P hgt
      rw [Nat.mul_succ] at this
      omega
  · rintro (hlt | ⟨rfl,hlt⟩)
    · have := Nat.mul_le_mul_left P hlt
      rw [Nat.mul_succ] at this
      omega
    · omega

/-- Digits of one width are ordered as the numbers they show. -/
theorem digits_lt_iff (width a b : ℕ) :
    digits width a < digits width b ↔ a%10^width < b%10^width := by
  induction width with
  | zero => simp [digits, Nat.mod_one]
  | succ width ih =>
    have hpos : 0 < 10^width := by positivity
    rw [digits, digits, List.cons_lt_cons_iff, ih, digit_lt_iff, digit_eq_iff, Nat.mod_pow_succ,
      Nat.mod_pow_succ, two_parts_lt_iff _ _ _ _ _ (Nat.mod_lt a hpos) (Nat.mod_lt b hpos)]

theorem digits_eq_iff (width a b : ℕ) :
    digits width a = digits width b ↔ a%10^width = b%10^width := by
  induction width with
  | zero => simp [digits, Nat.mod_one]
  | succ width ih =>
    have hpos : 0 < 10^width := by positivity
    have ha := Nat.mod_lt a hpos
    have hb := Nat.mod_lt b hpos
    have hless := two_parts_lt_iff _ (a/10^width%10) (b/10^width%10) _ _ ha hb
    have hmore := two_parts_lt_iff _ (b/10^width%10) (a/10^width%10) _ _ hb ha
    rw [digits, digits, List.cons.injEq, ih, digit_eq_iff, Nat.mod_pow_succ, Nat.mod_pow_succ]
    constructor
    · rintro ⟨hdigit,hrest⟩
      rw [hdigit, hrest]
    · intro h
      omega

/-- The first parts decide, when they are of one length and differ. -/
theorem append_lt_append_iff {α : Type} [LT α] (xs xs' ys ys' : List α)
    (h : xs.length = xs'.length) :
    xs++ys < xs'++ys' ↔ xs < xs' ∨ xs = xs' ∧ ys < ys' := by
  induction xs generalizing xs' with
  | nil =>
    cases List.length_eq_zero_iff.mp h.symm
    simp
  | cons x xs ih =>
    cases xs' with
    | nil => simp at h
    | cons x' xs' =>
      rw [List.cons_append, List.cons_append, List.cons_lt_cons_iff, List.cons_lt_cons_iff,
        ih xs' (Nat.succ.inj h), List.cons.injEq]
      tauto

theorem daysInMonth_le (year month : ℕ) : daysInMonth year month ≤ 31 := by
  unfold daysInMonth
  split
  · split_ifs <;> decide
  all_goals decide

namespace Date

def text (d : Date) : List UInt8 := digits 4 d.year++(digits 2 d.month++digits 2 d.day)

@[simp] theorem length_text (d : Date) : d.text.length = 8 := by
  rw [text, List.length_append, List.length_append, length_digits, length_digits, length_digits]

theorem day_lt (d : Date) : d.day < 100 := by
  have hle := d.day_le
  have hmonth := daysInMonth_le d.year d.month
  omega

theorem text_lt_iff (d d' : Date) : d.text < d'.text ↔ d < d' := by
  have hy := d.year_le
  have hy' := d'.year_le
  have hm := d.month_le
  have hm' := d'.month_le
  have hd := d.day_lt
  have hd' := d'.day_lt
  rw [text, text, append_lt_append_iff _ _ _ _ (by simp), append_lt_append_iff _ _ _ _ (by simp),
    digits_lt_iff, digits_lt_iff, digits_lt_iff, digits_eq_iff, digits_eq_iff, lt_iff,
    Nat.mod_eq_of_lt (show d.year < 10^4 by omega), Nat.mod_eq_of_lt (show d'.year < 10^4 by omega),
    Nat.mod_eq_of_lt (show d.month < 10^2 by omega), Nat.mod_eq_of_lt (show d'.month < 10^2 by omega),
    Nat.mod_eq_of_lt (show d.day < 10^2 by omega), Nat.mod_eq_of_lt (show d'.day < 10^2 by omega)]

theorem text_injective : Function.Injective text := by
  intro d d' h
  rcases lt_trichotomy d d' with hlt | heq | hgt
  · have htext := (text_lt_iff d d').mpr hlt
    rw [← h, text_lt_iff] at htext
    exact absurd htext (lt_irrefl d)
  · exact heq
  · have htext := (text_lt_iff d' d).mpr hgt
    rw [h, text_lt_iff] at htext
    exact absurd htext (lt_irrefl d')

end Date
end Texts
end Chronos.Calendar
