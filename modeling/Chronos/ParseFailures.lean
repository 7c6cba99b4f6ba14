import Chronos.ParsedNumerals

/-!
# Texts that are not numerals

`parseDecimal` is documented to return zero on failure, but it has no failing
path: it reads the longest numeral at the start and ignores the rest. Its
result is right on numerals in range; on every other text it is zero only when
the parts it reads vanish modulo `2^64`.
-/

set_option autoImplicit false

namespace Chronos.ParseFailures
open ParseDecimal DecimalNumerals ParsedNumerals

def Denotes (text : String) (n : Numeral) : Prop :=
  n.text = text.toList ∧ -2^31 ≤ n.value ∧ n.value < 2^31

/-- The value up to two units where there is one, and zero where there is none. -/
def Correct (text : String) (result : Decimal) : Prop :=
  (∀ n, Denotes text n → |(result.raw : ℚ)-n.value*2^32| ≤ 2) ∧
    ((¬∃ n, Denotes text n) → result = 0)

/-- The integer part is a multiple of `2^32` and the ten places of the fraction
are below one unit. -/
def ReadsNothing (text : String) : Prop :=
  2^32 ∣ digitsValue (scan text.toList).integer ∧
    digitsValue (((scan text.toList).fraction.getD []).take 10)*2^32 <
      10^(((scan text.toList).fraction.getD []).take 10).length

section Numerals
variable (n : Numeral)

theorem raw_near (hlow : -2^31 ≤ n.value) (hhigh : n.value < 2^31) :
    |(raw n : ℚ)-n.value*2^32| ≤ 2 := by
  have hnear := fixed_near n (2^32) 10 (by norm_num)
  rw [raw_of_fits n (fixed_fits n hlow hhigh), abs_sub_comm]
  push_cast at hnear
  exact le_of_lt hnear

end Numerals

theorem scan_fraction_digits (cs : List Char) :
    ∀ c ∈ (scan cs).fraction.getD [], c.isDigit = true := scanFraction_digits _

theorem wrap_eq_zero (s : Sign) (m : ℕ) : Decimal.wrap (s.factor*m) = 0 ↔ 2^64 ∣ m := by
  have hzero : Decimal.wrap (s.factor*m) = 0 ↔ ((2^64 : ℕ) : ℤ) ∣ s.factor*m := by
    rw [Int.dvd_iff_bmod_eq_zero]
    exact ⟨fun h => congrArg Decimal.raw h,fun h => Decimal.ext h⟩
  have hfactor : s.factor.natAbs = 1 := by cases s <;> rfl
  rw [hzero, Int.natCast_dvd, Int.natAbs_mul, hfactor, one_mul, Int.natAbs_natCast]

theorem reads_nothing (text : String) : parseDecimal text = 0 ↔ ReadsNothing text := by
  have hfraction := fraction_lt (scan text.toList) (scan_fraction_digits _)
  rw [parseDecimal_scan, wrap_eq_zero, ReadsNothing, ← Nat.div_eq_zero_iff_lt (by positivity), units]
  generalize digitsValue (((scan text.toList).fraction.getD []).take 10)*2^32/
      10^(((scan text.toList).fraction.getD []).take 10).length = part at hfraction ⊢
  omega

theorem parseDecimal_correct_iff (text : String) :
    Correct text (parseDecimal text) ↔ (∃ n, Denotes text n) ∨ ReadsNothing text := by
  by_cases h : ∃ n, Denotes text n
  · have hnear (n : Numeral) (hn : Denotes text n) :
        |((parseDecimal text).raw : ℚ)-n.value*2^32| ≤ 2 := by
      have hraw := raw_near n hn.2.1 hn.2.2
      rwa [raw, hn.1, String.ofList_toList] at hraw
    exact iff_of_true ⟨hnear,fun hnone => absurd h hnone⟩ (Or.inl h)
  · rw [← reads_nothing]
    constructor
    · intro hcorrect
      exact Or.inr (hcorrect.2 h)
    · rintro (hn | hzero)
      · exact absurd hn h
      · exact ⟨fun n hn => absurd ⟨n,hn⟩ h,fun _ => hzero⟩

/-- An exponent is dropped, and what stands before it is the result. -/
theorem exponent_incorrect : ¬∀ text, Correct text (parseDecimal text) := by
  intro h
  have hnone : ¬∃ n, Denotes "1e5" n := by
    rintro ⟨n,hn⟩
    have hscan := scan_numeral n
    rw [hn.1] at hscan
    have hrest : (scan "1e5".toList).rest = ['e','5'] := by decide +kernel
    rw [hscan] at hrest
    exact absurd hrest (by simp)
  have hzero := (h "1e5").2 hnone
  exact absurd hzero (by decide +kernel)

end Chronos.ParseFailures
