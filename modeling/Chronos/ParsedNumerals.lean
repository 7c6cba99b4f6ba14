import Chronos.DecimalNumerals
import Chronos.ParseDecimal

/-!
# Numerals read as decimals

For every text `parseDecimal` computes one expression in the parts of its
scan. On a numeral whose integer part is below `2^31` nothing wraps, and the
laws of the reading are those of ten places cut off at units of `2^-32`.
-/

set_option autoImplicit false

namespace Chronos.ParsedNumerals
open ParseDecimal DecimalNumerals

section Loops

theorem isDigit_eq (c : Char) : isDigit c = c.isDigit := rfl

theorem isBlank_eq : isBlank = isSpace := rfl

theorem digitsValue_cons (c : Char) (cs : List Char) :
    digitsValue (c::cs) = digit c*10^cs.length+digitsValue cs := by
  have h := digitsValue_append [c] cs
  have hone : digitsValue [c] = digit c := by simp [digitsValue, Nat.ofDigitChars_cons, digit]
  rwa [hone] at h

theorem integerPart_rest (cs : List Char) (mantissa : ℤ) :
    (integerPart cs mantissa).2 = cs.dropWhile Char.isDigit := by
  induction cs generalizing mantissa with
  | nil => rfl
  | cons c cs ih =>
    rw [integerPart, isDigit_eq, List.dropWhile_cons]
    by_cases h : c.isDigit = true
    · rw [if_pos h, if_pos h, ih]
    · rw [if_neg h, if_neg h]

theorem integerPart_value (cs : List Char) (mantissa : ℤ) :
    (integerPart cs mantissa).1 ≡ mantissa*10^(cs.takeWhile Char.isDigit).length+
      digitsValue (cs.takeWhile Char.isDigit) [ZMOD 2^64] := by
  induction cs generalizing mantissa with
  | nil => simp [integerPart, digitsValue]
  | cons c cs ih =>
    rw [integerPart, isDigit_eq, List.takeWhile_cons]
    by_cases h : c.isDigit = true
    · rw [if_pos h, if_pos h]
      have hwrap : (mantissa*10+digit c).bmod (2^64) ≡ mantissa*10+digit c [ZMOD 2^64] :=
        Int.bmod_emod
      calc
        (integerPart cs ((mantissa*10+digit c).bmod (2^64))).1 ≡ _ [ZMOD 2^64] := ih _
        _ ≡ (mantissa*10+digit c)*10^(cs.takeWhile Char.isDigit).length+
            digitsValue (cs.takeWhile Char.isDigit) [ZMOD 2^64] := (hwrap.mul_right _).add_right _
        _ = _ := by
          rw [digitsValue_cons, List.length_cons, pow_succ]
          push_cast
          ring
    · rw [if_neg h, if_neg h]
      simp [digitsValue]

theorem fractionDigits_taken (cs : List Char) (part room : ℕ) (h : room ≤ 10) :
    fractionDigits cs part (10-room) =
      (part*10^((cs.takeWhile Char.isDigit).take room).length+
          digitsValue ((cs.takeWhile Char.isDigit).take room),
        10-room+((cs.takeWhile Char.isDigit).take room).length) := by
  induction cs generalizing part room with
  | nil => simp [fractionDigits, digitsValue]
  | cons c cs ih =>
    rw [fractionDigits, isDigit_eq, List.takeWhile_cons]
    cases room with
    | zero => simp [digitsValue]
    | succ room =>
      by_cases hc : c.isDigit = true
      · have hroom : 10-(room+1) < 10 := by omega
        have hnext : 10-(room+1)+1 = 10-room := by omega
        rw [hc, decide_eq_true hroom, Bool.and_true, if_pos rfl, if_pos rfl, hnext,
          ih _ _ (by omega), List.take_succ_cons, digitsValue_cons, List.length_cons]
        apply Prod.ext
        · ring
        · show 10-room+_ = 10-(room+1)+(_+1)
          omega
      · simp [hc, digitsValue]

theorem fractionPart_scan (cs : List Char) :
    fractionPart cs = (digitsValue (((scanFraction cs).1.getD []).take 10),
      (((scanFraction cs).1.getD []).take 10).length) := by
  cases cs with
  | nil => rfl
  | cons c cs =>
    by_cases h : c = '.'
    · subst h
      have htaken := fractionDigits_taken cs 0 10 le_rfl
      rwa [zero_mul, zero_add, Nat.sub_self, zero_add] at htaken
    · simp [fractionPart, scanFraction, h, digitsValue]

end Loops

def units (s : Scan) : ℕ :=
  digitsValue s.integer*2^32+digitsValue ((s.fraction.getD []).take 10)*2^32/
    10^((s.fraction.getD []).take 10).length

theorem magnitudeOf_scan (cs : List Char) :
    magnitudeOf cs ≡ units ⟨.none,cs.takeWhile Char.isDigit,
      (scanFraction (cs.dropWhile Char.isDigit)).1,[]⟩ [ZMOD 2^64] := by
  have hvalue := integerPart_value cs 0
  have hrest := integerPart_rest cs 0
  rw [zero_mul, zero_add] at hvalue
  show (integerPart cs 0).1*2^32+((fractionPart (integerPart cs 0).2).1*2^32/
    10^(fractionPart (integerPart cs 0).2).2 : ℕ) ≡ _ [ZMOD 2^64]
  rw [hrest, fractionPart_scan, units, Nat.cast_add, Nat.cast_mul]
  exact (hvalue.mul_right _).add_right _

theorem wrap_congr {y z : ℤ} (h : y ≡ z [ZMOD 2^64]) : Decimal.wrap y = Decimal.wrap z := by
  have hmod : y%((2^64 : ℕ) : ℤ) = z%((2^64 : ℕ) : ℤ) := by exact_mod_cast h
  apply Decimal.ext
  rw [Decimal.wrap_raw, Decimal.wrap_raw, ← Int.emod_bmod, hmod, Int.emod_bmod]

/-- Every text: the sign and the units of its scan, wrapped to 64 bits. -/
theorem parseDecimal_scan (text : String) :
    parseDecimal text = Decimal.wrap ((scan text.toList).sign.factor*units (scan text.toList)) := by
  rw [parseDecimal, isBlank_eq, scan]
  generalize text.toList.dropWhile isSpace = cs
  split
  · rfl
  · rw [wrap_congr (magnitudeOf_scan _).neg]
    simp [scanSign, Sign.factor, units]
  · rw [wrap_congr (magnitudeOf_scan _)]
    simp [scanSign, Sign.factor, units]
  · next _ hminus hplus =>
    have hsign : scanSign cs = (.none,cs) := by
      unfold scanSign
      split
      · exact (hminus _ rfl).elim
      · exact (hplus _ rfl).elim
      · rfl
    rw [wrap_congr (magnitudeOf_scan _)]
    simp [hsign, Sign.factor, units]

section Readings
variable (n : Numeral)

def raw : ℤ := (parseDecimal (String.ofList n.text)).raw

theorem units_numeral :
    n.sign.factor*units ⟨n.sign,n.integer,n.fraction,[]⟩ = n.fixed (2^32) 10 := by
  rw [fixed_formula, units, List.length_take]
  rfl

theorem fraction_lt (s : Scan) (h : ∀ c ∈ s.fraction.getD [], c.isDigit = true) :
    digitsValue ((s.fraction.getD []).take 10)*2^32/10^((s.fraction.getD []).take 10).length < 2^32 := by
  have hlt := digitsValue_lt ((s.fraction.getD []).take 10) (fun c hc => h c (List.mem_of_mem_take hc))
  rw [Nat.div_lt_iff_lt_mul (by positivity), mul_comm]
  exact Nat.mul_lt_mul_of_pos_left hlt (by positivity)

theorem raw_of_fits (h : Fits (n.fixed (2^32) 10)) : raw n = n.fixed (2^32) 10 := by
  rw [raw, parseDecimal_scan, String.toList_ofList, scan_numeral, units_numeral]
  exact Decimal.wrap_raw_of_fits _ h

theorem fixed_fits (hlow : -2^31 ≤ n.value) (hhigh : n.value < 2^31) :
    Fits (n.fixed (2^32) 10) := by
  have hle := fixed_le n (2^32) 10
  have hfactor : n.sign.factor = 1 ∨ n.sign.factor = -1 := abs_eq_abs.mp n.sign.factor_abs
  have hdigits : (0 : ℚ) ≤ n.digits/10^n.places := by positivity
  rw [Numeral.value] at hlow hhigh hle
  rw [Numeral.fixed] at hle ⊢
  generalize n.cut 10*2^32/10^min 10 n.places = read at hle ⊢
  generalize (n.digits : ℚ)/10^n.places = size at hdigits hlow hhigh hle
  rcases hfactor with hfactor | hfactor
  · rw [hfactor] at hlow hhigh hle ⊢
    have hread : (read : ℚ) < 2^63 := by
      push_cast at hle hhigh
      rw [one_mul, Nat.abs_cast, one_mul, abs_of_nonneg hdigits] at hle
      linarith
    have hread' : read < 2^63 := by exact_mod_cast hread
    constructor <;> omega
  · rw [hfactor] at hlow hhigh hle ⊢
    have hread : (read : ℚ) ≤ 2^63 := by
      push_cast at hle hlow
      rw [neg_one_mul, abs_neg, Nat.abs_cast, neg_one_mul, abs_neg, abs_of_nonneg hdigits] at hle
      linarith
    have hread' : read ≤ 2^63 := by exact_mod_cast hread
    constructor <;> omega

theorem raw_fixed (h : digitsValue n.integer < 2^31) : raw n = n.fixed (2^32) 10 := by
  have hfraction := fraction_lt ⟨n.sign,n.integer,n.fraction,[]⟩ n.fractionDigits
  have hunits : units ⟨n.sign,n.integer,n.fraction,[]⟩ < 2^63 := by
    have hroom : digitsValue n.integer*2^32+2^32 ≤ 2^63 := by omega
    exact lt_of_lt_of_le (Nat.add_lt_add_left hfraction _) hroom
  have habs : |n.fixed (2^32) 10| < 2^63 := by
    rw [← units_numeral, abs_mul, n.sign.factor_abs, one_mul, Nat.abs_cast]
    exact_mod_cast hunits
  obtain ⟨hlow,hhigh⟩ := abs_lt.mp habs
  exact raw_of_fits n ⟨le_of_lt hlow,hhigh⟩

/-- The reading of a numeral below `2^31`: its formula, its error, and what it
keeps of order, trailing zeros and distinctness. -/
theorem parseDecimal_numeral (h : digitsValue n.integer < 2^31) :
    raw n = n.sign.factor*(digitsValue n.integer*2^32+
        digitsValue (n.decimals.take 10)*2^32/10^min 10 n.places : ℕ) ∧
      |n.value*2^32-raw n| < 2 ∧
      |(raw n : ℚ)| ≤ |n.value| * 2^32 ∧
      (∀ zeros, raw (n.withZeros zeros) = raw n) ∧
      (∀ m : Numeral, digitsValue m.integer < 2^31 → n.places = m.places →
        n.value ≤ m.value → raw n ≤ raw m) ∧
      ∀ m : Numeral, digitsValue m.integer < 2^31 → n.places ≤ 9 → m.places ≤ 9 →
        raw n = raw m → n.value = m.value := by
  have hraw := raw_fixed n h
  have hnear := fixed_near n (2^32) 10 (by norm_num)
  have hle := fixed_le n (2^32) 10
  have hzeros (zeros : ℕ) : raw (n.withZeros zeros) = raw n := by
    rw [raw_fixed (n.withZeros zeros) h, fixed_withZeros, hraw]
  push_cast at hnear hle
  refine ⟨?_,?_,?_,hzeros,?_,?_⟩
  · rw [hraw, fixed_formula]
  · rw [hraw]
    exact hnear
  · rw [hraw]
    exact hle
  · intro m hm hplaces hvalue
    rw [hraw, raw_fixed m hm]
    exact fixed_mono n m (2^32) 10 hplaces hvalue
  · intro m hm hn9 hm9 heq
    rw [hraw, raw_fixed m hm] at heq
    exact fixed_injective n m (2^32) 10 9 hn9 hm9 (by norm_num) (by norm_num) heq

def twelveAndAHalf : Numeral :=
  ⟨[' '],.plus,['1','2'],some ['5'],by simp [isSpace],by simp,by simp,by simp⟩

theorem twelveAndAHalf_read : raw twelveAndAHalf = 25*2^31 ∧
    ∀ zeros, raw (twelveAndAHalf.withZeros zeros) = 25*2^31 := by
  have h := parseDecimal_numeral twelveAndAHalf (by decide)
  have hraw : raw twelveAndAHalf = 25*2^31 := by
    rw [h.1]
    decide
  exact ⟨hraw,fun zeros => (h.2.2.2.1 zeros).trans hraw⟩

end Readings

end Chronos.ParsedNumerals
