import Chronos.NearestDivision

/-!
# The 64-bit fixed-point number

`Decimal` is `fpm::fixed<int64_t, __int128, 32>`: a 64-bit raw value with 32
fraction bits. Sums, differences and negations wrap modulo `2^64`. Products
and quotients are formed in 128 bits, rounded to the nearest raw unit and
truncated to 64 bits. The library itself is external; of its rounding only
nearness is used, the tie rule is a parameter.
-/

set_option autoImplicit false

namespace Chronos
open NearestDivision

def Fits (z : ℤ) : Prop := -2^63 ≤ z ∧ z < 2^63

instance (z : ℤ) : Decidable (Fits z) := inferInstanceAs (Decidable (_ ∧ _))

structure Decimal where
  raw : ℤ
  fits : Fits raw

namespace Decimal

@[ext] theorem ext {a b : Decimal} (h : a.raw = b.raw) : a = b := by
  cases a
  cases b
  cases h
  rfl

instance : LinearOrder Decimal := LinearOrder.lift' raw (fun _ _ h => ext h)

theorem bmod_fits (z : ℤ) : Fits (z.bmod (2^64)) := by
  have hl := Int.le_bmod (x := z) (show 0 < 2^64 by decide)
  have hu := Int.bmod_lt (x := z) (show 0 < 2^64 by decide)
  constructor <;> omega

/-- `static_cast<int64_t>` of a wider integer. -/
def wrap (z : ℤ) : Decimal := ⟨z.bmod (2^64),bmod_fits z⟩

@[simp] theorem wrap_raw (z : ℤ) : (wrap z).raw = z.bmod (2^64) := rfl

theorem wrap_raw_of_fits (z : ℤ) (h : Fits z) : (wrap z).raw = z := by
  apply Int.bmod_eq_of_le <;> have := h.1 <;> have := h.2 <;> omega

@[simp] theorem wrap_self (a : Decimal) : wrap a.raw = a :=
  ext (wrap_raw_of_fits a.raw a.fits)

instance : Zero Decimal := ⟨⟨0,by decide⟩⟩
instance : Inhabited Decimal := ⟨0⟩
instance : Add Decimal := ⟨fun a b => wrap (a.raw+b.raw)⟩
instance : Sub Decimal := ⟨fun a b => wrap (a.raw-b.raw)⟩
instance : Neg Decimal := ⟨fun a => wrap (-a.raw)⟩

def one : ℤ := 2^32

instance [NearestDiv] : Mul Decimal := ⟨fun a b => wrap (NearestDiv.quot (a.raw*b.raw) one)⟩
instance [NearestDiv] : Div Decimal := ⟨fun a b => wrap (NearestDiv.quot (a.raw*one) b.raw)⟩

def ofInt (n : ℤ) : Decimal := wrap (n*one)

theorem lt_iff (a b : Decimal) : a < b ↔ a.raw < b.raw := Iff.rfl
theorem le_iff (a b : Decimal) : a ≤ b ↔ a.raw ≤ b.raw := Iff.rfl

@[simp] theorem zero_raw : (0 : Decimal).raw = 0 := rfl
theorem add_def (a b : Decimal) : a+b = wrap (a.raw+b.raw) := rfl
theorem sub_def (a b : Decimal) : a-b = wrap (a.raw-b.raw) := rfl
theorem neg_def (a : Decimal) : -a = wrap (-a.raw) := rfl
theorem mul_def [NearestDiv] (a b : Decimal) :
    a*b = wrap (NearestDiv.quot (a.raw*b.raw) one) := rfl

theorem add_raw (a b : Decimal) (h : Fits (a.raw+b.raw)) : (a+b).raw = a.raw+b.raw :=
  wrap_raw_of_fits _ h

theorem sub_raw (a b : Decimal) (h : Fits (a.raw-b.raw)) : (a-b).raw = a.raw-b.raw :=
  wrap_raw_of_fits _ h

theorem neg_raw (a : Decimal) (h : Fits (-a.raw)) : (-a).raw = -a.raw :=
  wrap_raw_of_fits _ h

theorem mul_raw [NearestDiv] (a b : Decimal) (h : Fits (NearestDiv.quot (a.raw*b.raw) one)) :
    (a*b).raw = NearestDiv.quot (a.raw*b.raw) one := wrap_raw_of_fits _ h

theorem div_raw [NearestDiv] (a b : Decimal) (h : Fits (NearestDiv.quot (a.raw*one) b.raw)) :
    (a/b).raw = NearestDiv.quot (a.raw*one) b.raw := wrap_raw_of_fits _ h

theorem wrap_add_left (y z : ℤ) : wrap ((wrap y).raw+z) = wrap (y+z) :=
  ext Int.bmod_add_bmod

theorem wrap_add_right (y z : ℤ) : wrap (y+(wrap z).raw) = wrap (y+z) :=
  ext Int.add_bmod_bmod

/-- Wrapped addition keeps the group laws of the integers; this is what makes
a running quantity independent of where it overflows on the way. -/
instance : AddCommGroup Decimal where
  add_assoc a b c := by
    simp only [add_def, wrap_add_left, wrap_add_right, add_assoc]
  zero_add a := by simp only [add_def, zero_raw, zero_add, wrap_self]
  add_zero a := by simp only [add_def, zero_raw, add_zero, wrap_self]
  add_comm a b := by simp only [add_def, add_comm]
  neg_add_cancel a := by
    simp only [add_def, neg_def, wrap_add_left, neg_add_cancel]
    rfl
  sub_eq_add_neg a b := by
    simp only [add_def, sub_def, neg_def, wrap_add_right, sub_eq_add_neg]
  nsmul := nsmulRec
  zsmul := zsmulRec

def toRat (a : Decimal) : ℚ := a.raw/2^32

theorem toRat_strictMono : StrictMono toRat := by
  intro a b h
  have hab : (a.raw : ℚ) < b.raw := Int.cast_lt.mpr h
  exact div_lt_div_of_pos_right hab (by positivity)

theorem toRat_zero : (0 : Decimal).toRat = 0 := by simp [toRat]

end Decimal
end Chronos
