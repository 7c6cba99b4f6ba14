import Mathlib

/-!
# Nearest integer quotients

A rounded division is any map from a numerator and a denominator to an
integer at distance at most one half from the exact quotient. The tie rule
is left open: every bound below follows from nearness alone, so it holds of
each implementation of round-to-nearest.
-/

set_option autoImplicit false

namespace Chronos.NearestDivision

class NearestDiv where
  quot : ℤ → ℤ → ℤ
  nearest : ∀ n d : ℤ, d ≠ 0 → 2*|d*quot n d-n| ≤ |d|

section Bounds
variable [NearestDiv]

open NearestDiv

theorem quot_bounds (n d : ℤ) (hd : 0 < d) :
    2*n-d ≤ 2*(d*quot n d) ∧ 2*(d*quot n d) ≤ 2*n+d := by
  have h := nearest n d (ne_of_gt hd)
  rw [abs_of_pos hd] at h
  have hl := neg_abs_le (d*quot n d-n)
  have hu := le_abs_self (d*quot n d-n)
  constructor <;> linarith

/-- Nearness already forces monotonicity: two inverted quotients would be a
whole unit apart while their numerators differ by less than one denominator. -/
theorem quot_mono (n m d : ℤ) (hd : 0 < d) (h : n ≤ m) : quot n d ≤ quot m d := by
  rcases eq_or_lt_of_le h with rfl | hlt
  · exact le_refl _
  by_contra hc
  have hn := (quot_bounds n d hd).2
  have hm := (quot_bounds m d hd).1
  have hgap : d*(quot m d+1) ≤ d*quot n d :=
    mul_le_mul_of_nonneg_left (by omega) (le_of_lt hd)
  linarith

theorem quot_exact (k d : ℤ) (hd : 0 < d) : quot (d*k) d = k := by
  have h := quot_bounds (d*k) d hd
  have hlo : d*(2*k-1) ≤ d*(2*quot (d*k) d) := by linarith [h.1]
  have hhi : d*(2*quot (d*k) d) ≤ d*(2*k+1) := by linarith [h.2]
  have h1 := le_of_mul_le_mul_left hlo hd
  have h2 := le_of_mul_le_mul_left hhi hd
  omega

theorem quot_zero (d : ℤ) (hd : 0 < d) : quot 0 d = 0 := by
  simpa using quot_exact 0 d hd

theorem quot_nonneg (n d : ℤ) (hd : 0 < d) (hn : 0 ≤ n) : 0 ≤ quot n d := by
  simpa [quot_zero d hd] using quot_mono 0 n d hd hn

end Bounds

/-- The usual integer realization: one more bit of quotient is kept and the
last one added back, so halves are rounded away from zero. -/
def halfAway (n d : ℤ) : ℤ := ((2*n).tdiv d).tdiv 2+((2*n).tdiv d).tmod 2

theorem tmod_two_nonneg (v : ℤ) (hv : 0 ≤ v) : 0 ≤ v.tmod 2 ∧ v.tmod 2 ≤ 1 := by
  have h := Int.tmod_lt_of_pos v (show (0:ℤ) < 2 by decide)
  exact ⟨Int.tmod_nonneg 2 hv,by omega⟩

theorem tmod_two_nonpos (v : ℤ) (hv : v ≤ 0) : -1 ≤ v.tmod 2 ∧ v.tmod 2 ≤ 0 := by
  have h := tmod_two_nonneg (-v) (by omega)
  rw [Int.neg_tmod] at h
  omega

theorem tmod_sign (n d : ℤ) :
    (0 ≤ n → 0 ≤ n.tmod d) ∧ (n ≤ 0 → n.tmod d ≤ 0) := by
  refine ⟨fun h => Int.tmod_nonneg d h,fun h => ?_⟩
  have hn := Int.tmod_nonneg d (show 0 ≤ -n by omega)
  rw [Int.neg_tmod] at hn
  omega

/-- The bit added back and the discarded remainder point the same way. -/
theorem last_bit_sign (n d : ℤ) :
    0 ≤ d*(n.tdiv d).tmod 2 ∧ 0 ≤ n.tmod d ∨ d*(n.tdiv d).tmod 2 ≤ 0 ∧ n.tmod d ≤ 0 := by
  rcases le_total 0 n with hn | hn <;> rcases le_total 0 d with hd | hd
  · have hv := Int.tdiv_nonneg hn hd
    exact Or.inl ⟨mul_nonneg hd (tmod_two_nonneg _ hv).1,(tmod_sign n d).1 hn⟩
  · have hv := Int.tdiv_nonpos_of_nonneg_of_nonpos hn hd
    exact Or.inl ⟨mul_nonneg_of_nonpos_of_nonpos hd (tmod_two_nonpos _ hv).2,(tmod_sign n d).1 hn⟩
  · have hv : n.tdiv d ≤ 0 := by
      have h := Int.tdiv_nonneg (show 0 ≤ -n by omega) hd
      rw [Int.neg_tdiv] at h
      omega
    exact Or.inr ⟨mul_nonpos_of_nonneg_of_nonpos hd (tmod_two_nonpos _ hv).2,(tmod_sign n d).2 hn⟩
  · have hv : 0 ≤ n.tdiv d := Int.tdiv_nonneg_of_nonpos_of_nonpos hn hd
    exact Or.inr ⟨mul_nonpos_of_nonpos_of_nonneg hd (tmod_two_nonneg _ hv).1,(tmod_sign n d).2 hn⟩

theorem last_bit_bound (v d : ℤ) : |d*v.tmod 2| ≤ |d| := by
  have ht : |v.tmod 2| ≤ 1 := by
    rcases le_total 0 v with hv | hv
    · have h := tmod_two_nonneg v hv
      exact abs_le.mpr ⟨by omega,h.2⟩
    · have h := tmod_two_nonpos v hv
      exact abs_le.mpr ⟨h.1,by omega⟩
  rw [abs_mul]
  calc
    |d| * |v.tmod 2| ≤ |d| * 1 := mul_le_mul_of_nonneg_left ht (abs_nonneg d)
    _ = |d| := mul_one _

theorem remainder_bound (n d : ℤ) (hd : d ≠ 0) : |n.tmod d| ≤ |d| := by
  have hp := abs_pos.mpr hd
  have hl := Int.lt_tmod_of_pos n hp
  have hu := Int.tmod_lt_of_pos n hp
  have he : n.tmod |d| = n.tmod d := by rcases abs_choice d with h | h <;> simp [h]
  rw [he] at hl hu
  exact abs_le.mpr ⟨le_of_lt hl,le_of_lt hu⟩

theorem halfAway_nearest (n d : ℤ) (hd : d ≠ 0) : 2*|d*halfAway n d-n| ≤ |d| := by
  have hv := Int.mul_tdiv_add_tmod (2*n) d
  have ht := Int.mul_tdiv_add_tmod ((2*n).tdiv d) 2
  have hid : 2*(d*halfAway n d-n) = d*((2*n).tdiv d).tmod 2-(2*n).tmod d := by
    unfold halfAway
    linear_combination hv+d*ht
  have hr := remainder_bound (2*n) d hd
  have hb := last_bit_bound ((2*n).tdiv d) d
  rw [abs_le] at hr hb
  rw [show 2*|d*halfAway n d-n| = |2*(d*halfAway n d-n)| by simp [abs_mul], hid, abs_le]
  rcases last_bit_sign (2*n) d with h | h <;> constructor <;> omega

instance roundHalfAway : NearestDiv := ⟨halfAway,halfAway_nearest⟩

end Chronos.NearestDivision
