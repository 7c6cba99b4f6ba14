import Chronos.Decimal

/-!
# Binary floating-point limits

A finite `double` is a mantissa of at most 53 bits times a power of two.
`toDecimal` scales it by `2^32`, which is exact, and truncates the result to
an `int64_t`; where it does not fit, the language leaves the result open.
-/

set_option autoImplicit false

namespace Chronos

structure Double where
  mantissa : ℤ
  exponent : ℤ
  short : |mantissa| < 2^53
  bounded : -1074 ≤ exponent ∧ exponent ≤ 971

namespace Double

def toRat (v : Double) : ℚ := v.mantissa*2^v.exponent

def scaled (v : Double) : ℚ := v.toRat*2^32

def truncated (q : ℚ) : ℤ := if 0 ≤ q then ⌊q⌋ else ⌈q⌉

/-- The result of a conversion that does not fit is a parameter. -/
def toDecimal (outOfRange : Double → Decimal) (v : Double) : Decimal :=
  if h : Fits (truncated v.scaled) then ⟨truncated v.scaled,h⟩ else outOfRange v

def Regular (v : Double) : Prop := |v.scaled| < 2^63

instance (v : Double) : Decidable (Regular v) := inferInstanceAs (Decidable (_ < _))

theorem truncated_near (q : ℚ) : q-1 < truncated q ∧ (truncated q : ℚ) < q+1 := by
  rw [truncated]
  split_ifs with h
  · exact ⟨Int.sub_one_lt_floor q,lt_of_le_of_lt (Int.floor_le q) (lt_add_one q)⟩
  · exact ⟨lt_of_lt_of_le (sub_one_lt q) (Int.le_ceil q),Int.ceil_lt_add_one q⟩

theorem truncated_fits (v : Double) (h : v.Regular) : Fits (truncated v.scaled) := by
  have hv := abs_lt.mp h
  rw [truncated]
  split_ifs with h0
  · have hf : ⌊v.scaled⌋ < 2^63 := Int.floor_lt.mpr (by exact_mod_cast hv.2)
    have hn : 0 ≤ ⌊v.scaled⌋ := Int.floor_nonneg.mpr h0
    exact ⟨by omega,hf⟩
  · have hc : -2^63 ≤ ⌈v.scaled⌉ := by
      have hle : ((-2^63 : ℤ) : ℚ) ≤ ⌈v.scaled⌉ := by
        push_cast
        exact (le_of_lt hv.1).trans (Int.le_ceil _)
      exact_mod_cast hle
    have hn : ⌈v.scaled⌉ ≤ 0 := Int.ceil_le.mpr (by exact_mod_cast le_of_lt (not_le.mp h0))
    exact ⟨hc,by omega⟩

theorem toDecimal_raw (outOfRange : Double → Decimal) (v : Double) (h : v.Regular) :
    (toDecimal outOfRange v).raw = truncated v.scaled := by
  rw [toDecimal, dif_pos (truncated_fits v h)]

theorem scaled_eq (v : Double) : v.scaled = v.mantissa*2^(v.exponent+32) := by
  rw [scaled, toRat, mul_assoc, zpow_add₀ (by norm_num)]
  norm_num

/-- Below `2^63` a number of 53 bits stays a gap away. -/
theorem gap (m e : ℤ) (hm : m < 2^53) (h : (m : ℚ)*2^e < 2^63) : (m : ℚ)*2^e ≤ 2^63-2^10 := by
  rcases le_or_gt e 10 with he | he
  · have hpow : (2:ℚ)^e ≤ 2^(10:ℤ) := zpow_le_zpow_right₀ (by norm_num) he
    have hpos : (0:ℚ) < 2^e := by positivity
    have hm' : (m : ℚ) ≤ 2^53-1 := by exact_mod_cast (show m ≤ 2^53-1 by omega)
    calc (m : ℚ)*2^e ≤ (2^53-1)*2^e := mul_le_mul_of_nonneg_right hm' (le_of_lt hpos)
      _ ≤ (2^53-1)*2^(10:ℤ) := mul_le_mul_of_nonneg_left hpow (by norm_num)
      _ = 2^63-2^10 := by norm_num
  · obtain ⟨k,hk⟩ := Int.eq_ofNat_of_zero_le (show 0 ≤ e-10 by omega)
    have hexp : e = ((k+10 : ℕ) : ℤ) := by push_cast; omega
    have hint : (m : ℚ)*2^e = ((m*2^k*2^10 : ℤ) : ℚ) := by
      rw [hexp, zpow_natCast, pow_add]
      push_cast
      ring
    rw [hint] at h ⊢
    have hlt : m*2^k*2^10 < 2^63 := by exact_mod_cast h
    have hle : m*2^k*2^10 ≤ 2^63-2^10 := by
      generalize m*2^k = z at hlt
      omega
    exact_mod_cast hle

theorem scaled_gap (v : Double) (h : v.Regular) : |v.scaled| ≤ 2^63-2^10 := by
  have hv := abs_lt.mp h
  have hm := abs_lt.mp v.short
  rw [scaled_eq] at hv
  rw [scaled_eq]
  refine abs_le'.mpr ⟨gap _ _ hm.2 hv.2,?_⟩
  have hneg := gap (-v.mantissa) (v.exponent+32) (by omega) (by push_cast; linarith)
  push_cast at hneg
  linarith

def ofInt (n : ℤ) (h : |n| < 2^53) : Double := ⟨n,0,h,by decide⟩

theorem toDecimal_ofInt (outOfRange : Double → Decimal) (n : ℤ) (h : |n| < 2^53) (hf : Fits (n*2^32)) :
    toDecimal outOfRange (ofInt n h) = .ofInt n := by
  have hs : (ofInt n h).scaled = ((n*2^32 : ℤ) : ℚ) := by
    rw [scaled, toRat, ofInt, zpow_zero, mul_one]
    push_cast
    rfl
  have ht : truncated (ofInt n h).scaled = n*2^32 := by
    rw [hs, truncated]
    split_ifs
    · exact Int.floor_intCast _
    · exact Int.ceil_intCast _
  apply Decimal.ext
  rw [toDecimal, dif_pos (by rwa [ht]), Decimal.ofInt, Decimal.one, Decimal.wrap_raw_of_fits _ hf]
  exact ht

end Double
end Chronos
