import Mathlib

/-!
# Decimal numerals as text

A numeral is blanks, a sign, digits and, after a point, more digits, with at
least one digit in all. A scan divides every text into these parts and a rest;
on a numeral it finds its own parts and no rest. A fixed-point reading keeps
some places of the fraction, scales and cuts off what is below one unit.
-/

set_option autoImplicit false

namespace Chronos.DecimalNumerals

def isSpace (c : Char) : Bool := c = ' ' || c = '\t'

def digitsValue (cs : List Char) : ℕ := Nat.ofDigitChars 10 cs 0

theorem digitsValue_append (cs ds : List Char) :
    digitsValue (cs++ds) = digitsValue cs*10^ds.length+digitsValue ds := by
  rw [digitsValue, Nat.ofDigitChars_append, Nat.ofDigitChars_eq_ofDigitChars_zero, mul_comm]
  rfl

theorem digitsValue_zeros (n : ℕ) : digitsValue (List.replicate n '0') = 0 := by
  simp [digitsValue]

theorem digit_lt (c : Char) (h : c.isDigit = true) : c.toNat - '0'.toNat < 10 := by
  simp only [Char.isDigit, Bool.and_eq_true, decide_eq_true_eq, UInt32.le_iff_toNat_le] at h
  change 48 ≤ c.toNat ∧ c.toNat ≤ 57 at h
  change c.toNat-48 < 10
  omega

theorem digitsValue_lt (cs : List Char) (h : ∀ c ∈ cs, c.isDigit = true) :
    digitsValue cs < 10^cs.length := by
  induction cs using List.reverseRecOn with
  | nil => simp [digitsValue]
  | append_singleton cs c ih =>
    have hc := digit_lt c (h c (by simp))
    have hcs := ih (fun d hd => h d (by simp [hd]))
    have hone : digitsValue [c] = c.toNat - '0'.toNat := by
      simp [digitsValue, Nat.ofDigitChars_cons]
    rw [digitsValue_append, hone, List.length_append, List.length_singleton, pow_one,
      pow_succ]
    omega

inductive Sign where
  | none
  | plus
  | minus
  deriving DecidableEq, Repr

namespace Sign

def text : Sign → List Char
  | none => []
  | plus => ['+']
  | minus => ['-']

def factor : Sign → ℤ
  | minus => -1
  | _ => 1

theorem factor_abs (s : Sign) : |s.factor| = 1 := by cases s <;> rfl

end Sign

def fractionText : Option (List Char) → List Char
  | none => []
  | some ds => '.'::ds

structure Numeral where
  blanks : List Char
  sign : Sign
  integer : List Char
  fraction : Option (List Char)
  blank : ∀ c ∈ blanks, isSpace c = true
  integerDigits : ∀ c ∈ integer, c.isDigit = true
  fractionDigits : ∀ c ∈ fraction.getD [], c.isDigit = true
  someDigit : integer++fraction.getD [] ≠ []

structure Scan where
  sign : Sign
  integer : List Char
  fraction : Option (List Char)
  rest : List Char
  deriving DecidableEq

def scanSign : List Char → Sign × List Char
  | '-'::cs => (.minus,cs)
  | '+'::cs => (.plus,cs)
  | cs => (.none,cs)

def scanFraction : List Char → Option (List Char) × List Char
  | '.'::cs => (some (cs.takeWhile Char.isDigit),cs.dropWhile Char.isDigit)
  | cs => (none,cs)

def scan (cs : List Char) : Scan :=
  let (sign,cs) := scanSign (cs.dropWhile isSpace)
  let (fraction,rest) := scanFraction (cs.dropWhile Char.isDigit)
  ⟨sign,cs.takeWhile Char.isDigit,fraction,rest⟩

namespace Numeral
variable (n : Numeral)

def decimals : List Char := n.fraction.getD []

def body : List Char := n.integer++fractionText n.fraction

def text : List Char := n.blanks++(n.sign.text++n.body)

end Numeral

section Reading

theorem takeWhile_fraction (fraction : Option (List Char)) :
    (fractionText fraction).takeWhile Char.isDigit = [] := by
  cases fraction <;> rfl

theorem dropWhile_fraction (fraction : Option (List Char)) :
    (fractionText fraction).dropWhile Char.isDigit = fractionText fraction := by
  cases fraction <;> rfl

theorem scanFraction_text (fraction : Option (List Char))
    (h : ∀ c ∈ fraction.getD [], c.isDigit = true) :
    scanFraction (fractionText fraction) = (fraction,[]) := by
  cases fraction with
  | none => rfl
  | some ds =>
    have htake : ds.takeWhile Char.isDigit = ds := List.takeWhile_eq_self_iff.mpr h
    have hdrop : ds.dropWhile Char.isDigit = [] := List.dropWhile_eq_nil_iff.mpr h
    simp only [fractionText, scanFraction, htake, hdrop]

theorem body_head (n : Numeral) : ∃ c cs, n.body = c::cs ∧ (c.isDigit = true ∨ c = '.') := by
  unfold Numeral.body
  cases hi : n.integer with
  | cons c cs => exact ⟨c,_,rfl,Or.inl (n.integerDigits c (by simp [hi]))⟩
  | nil =>
    cases hf : n.fraction with
    | some ds => exact ⟨'.',ds,rfl,Or.inr rfl⟩
    | none =>
      have h := n.someDigit
      rw [hi, hf] at h
      exact absurd rfl h

theorem scanSign_body (n : Numeral) : scanSign (n.sign.text++n.body) = (n.sign,n.body) := by
  cases hs : n.sign with
  | minus => rfl
  | plus => rfl
  | none =>
    obtain ⟨c,cs,hb,hc⟩ := body_head n
    rw [hb]
    simp only [Sign.text, List.nil_append, scanSign]
    split
    · next h =>
      obtain ⟨rfl,-⟩ := List.cons.inj h
      exact absurd hc (by decide)
    · next h =>
      obtain ⟨rfl,-⟩ := List.cons.inj h
      exact absurd hc (by decide)
    · rfl

theorem dropWhile_signed (n : Numeral) :
    (n.sign.text++n.body).dropWhile isSpace = n.sign.text++n.body := by
  obtain ⟨c,cs,hb,hc⟩ := body_head n
  have hnot : isSpace c = false := by
    rcases hc with hc | rfl
    · by_contra hspace
      have hc' : c = ' ' ∨ c = '\t' := by simpa [isSpace, -not_or, or_iff_not_imp_left] using hspace
      rcases hc' with rfl | rfl
      · exact absurd hc (by decide)
      · exact absurd hc (by decide)
    · rfl
  cases n.sign with
  | minus => rfl
  | plus => rfl
  | none => simp [Sign.text, hb, hnot]

/-- The scan of a numeral finds its parts, and they are unique. -/
theorem scan_numeral (n : Numeral) : scan n.text = ⟨n.sign,n.integer,n.fraction,[]⟩ := by
  have hbody : n.body.takeWhile Char.isDigit = n.integer ∧
      n.body.dropWhile Char.isDigit = fractionText n.fraction := by
    rw [Numeral.body, List.takeWhile_append_of_pos n.integerDigits,
      List.dropWhile_append_of_pos n.integerDigits, takeWhile_fraction, dropWhile_fraction,
      List.append_nil]
    exact ⟨rfl,rfl⟩
  have hsigned := scanSign_body n
  have hfraction := scanFraction_text n.fraction n.fractionDigits
  rw [scan, Numeral.text, List.dropWhile_append_of_pos n.blank, dropWhile_signed]
  simp only [hsigned, hbody.1, hbody.2, hfraction]

theorem scanFraction_digits (cs : List Char) :
    ∀ c ∈ (scanFraction cs).1.getD [], c.isDigit = true := by
  unfold scanFraction
  split
  · exact fun c hc => List.mem_takeWhile_imp hc
  · exact fun c hc => by cases hc

end Reading

section Values
variable (n : Numeral)

namespace Numeral

def digits : ℕ := digitsValue (n.integer++n.decimals)

def places : ℕ := n.decimals.length

def value : ℚ := n.sign.factor*(n.digits/10^n.places)

/-- The whole number of the digits up to some places of the fraction. -/
def cut (places : ℕ) : ℕ := digitsValue (n.integer++n.decimals.take places)

/-- The reading in units of `1/scale` that looks at some places and cuts off. -/
def fixed (scale places : ℕ) : ℤ := n.sign.factor*(n.cut places*scale/10^min places n.places : ℕ)

def withZeros (zeros : ℕ) : Numeral :=
  { n with
    fraction := some (n.decimals++List.replicate zeros '0')
    fractionDigits := by
      intro c hc
      rcases List.mem_append.mp hc with hc | hc
      · exact n.fractionDigits c hc
      · rw [List.eq_of_mem_replicate hc]
        rfl
    someDigit := by
      intro h
      obtain ⟨hi,hf⟩ := List.append_eq_nil_iff.mp h
      obtain ⟨hd,-⟩ := List.append_eq_nil_iff.mp hf
      exact n.someDigit (by rw [hi]; exact hd) }

end Numeral

/-- Cutting places off divides, and what is cut off is less than a unit. -/
theorem cut_div (places : ℕ) : n.cut places = n.digits/10^(n.places-places) := by
  have hsplit : n.digits = n.cut places*10^(n.places-places)+digitsValue (n.decimals.drop places) := by
    have h := digitsValue_append (n.integer++n.decimals.take places) (n.decimals.drop places)
    rw [List.append_assoc, List.take_append_drop, List.length_drop] at h
    exact h
  have hlt := digitsValue_lt (n.decimals.drop places)
    (fun c hc => n.fractionDigits c (List.mem_of_mem_drop hc))
  rw [List.length_drop] at hlt
  change _ < 10^(n.places-places) at hlt
  rw [hsplit, Nat.mul_comm, Nat.mul_add_div (by positivity), Nat.div_eq_of_lt hlt, add_zero]

theorem cut_split (places : ℕ) :
    n.cut places = digitsValue n.integer*10^min places n.places+digitsValue (n.decimals.take places) := by
  rw [Numeral.cut, digitsValue_append, List.length_take]
  rfl

end Values

section FixedPoint
variable (n m : Numeral) (scale places : ℕ)

/-- The whole units and the fraction may be scaled apart. -/
theorem fixed_formula : n.fixed scale places = n.sign.factor*(digitsValue n.integer*scale+
    digitsValue (n.decimals.take places)*scale/10^min places n.places : ℕ) := by
  have hsplit : n.cut places*scale = digitsValue (n.decimals.take places)*scale+
      digitsValue n.integer*scale*10^min places n.places := by
    rw [cut_split]
    ring
  rw [Numeral.fixed, hsplit, Nat.add_mul_div_right _ _ (by positivity), add_comm]

theorem factor_div (s : Sign) (a b : ℕ) : s.factor*((a/b : ℕ) : ℤ) = (s.factor*a).tdiv b := by
  cases s <;> simp [Sign.factor, Int.neg_tdiv]

/-- What is cut off, from the places left out and from the last unit. -/
theorem cut_bounds : n.cut places*scale/10^min places n.places*10^n.places ≤ n.digits*scale ∧
    (n.places ≤ places → n.digits*scale < (n.cut places*scale/10^min places n.places+1)*10^n.places) ∧
    (scale ≤ 10^places →
      n.digits*scale < (n.cut places*scale/10^min places n.places+2)*10^n.places) := by
  have hcut := cut_div n places
  have hpow : 10^n.places = 10^min places n.places*10^(n.places-places) := by
    rw [← pow_add]
    congr 1
    omega
  have hunit := Nat.div_mul_le_self (n.cut places*scale) (10^min places n.places)
  have hnext := Nat.lt_div_mul_add (show 0 < 10^min places n.places by positivity)
    (a := n.cut places*scale)
  have hdigits := Nat.div_mul_le_self n.digits (10^(n.places-places))
  have hrest := Nat.lt_div_mul_add (show 0 < 10^(n.places-places) by positivity) (a := n.digits)
  rw [← hcut] at hdigits hrest
  generalize n.cut places*scale/10^min places n.places = units at hunit hnext ⊢
  refine ⟨?_,fun hp => ?_,fun hscale => ?_⟩
  · calc
      units*10^n.places = units*10^min places n.places*10^(n.places-places) := by rw [hpow, mul_assoc]
      _ ≤ n.cut places*scale*10^(n.places-places) := Nat.mul_le_mul_right _ hunit
      _ = n.cut places*10^(n.places-places)*scale := by ring
      _ ≤ n.digits*scale := Nat.mul_le_mul_right _ hdigits
  · rw [Nat.sub_eq_zero_of_le hp, pow_zero, Nat.div_one] at hcut
    rw [Nat.min_eq_right hp, hcut] at hnext
    linarith
  · by_cases hp : n.places ≤ places
    · rw [Nat.sub_eq_zero_of_le hp, pow_zero, Nat.div_one] at hcut
      rw [Nat.min_eq_right hp, hcut] at hnext
      have hpos : 0 < 10^n.places := by positivity
      linarith
    · rw [Nat.min_eq_left (by omega)] at hnext hpow
      calc
        n.digits*scale ≤ (n.cut places*10^(n.places-places)+10^(n.places-places))*scale :=
          Nat.mul_le_mul_right _ (le_of_lt hrest)
        _ = (n.cut places*scale+scale)*10^(n.places-places) := by ring
        _ < (units*10^places+10^places+10^places)*10^(n.places-places) := by
          apply Nat.mul_lt_mul_of_pos_right _ (by positivity)
          omega
        _ = (units+2)*10^n.places := by
          rw [hpow]
          ring

theorem fixed_distance (bound : ℕ)
    (hlow : n.cut places*scale/10^min places n.places*10^n.places ≤ n.digits*scale)
    (hhigh : n.digits*scale < (n.cut places*scale/10^min places n.places+bound)*10^n.places) :
    |n.value*scale-n.fixed scale places| < bound := by
  have hpos : (0 : ℚ) < 10^n.places := by positivity
  have hfactor : |(n.sign.factor : ℚ)| = 1 := by exact_mod_cast n.sign.factor_abs
  have hl : ((n.cut places*scale/10^min places n.places : ℕ) : ℚ)*10^n.places ≤ n.digits*scale := by
    exact_mod_cast hlow
  have hh : (n.digits : ℚ)*scale <
      (((n.cut places*scale/10^min places n.places : ℕ) : ℚ)+bound)*10^n.places := by
    exact_mod_cast hhigh
  have hdiff : n.value*scale-n.fixed scale places = n.sign.factor*
      ((n.digits*scale-((n.cut places*scale/10^min places n.places : ℕ) : ℚ)*10^n.places)/10^n.places) := by
    rw [Numeral.value, Numeral.fixed, Int.cast_mul, Int.cast_natCast]
    field_simp
  rw [hdiff, abs_mul, hfactor, one_mul, abs_of_nonneg (div_nonneg (by linarith) (le_of_lt hpos)),
    div_lt_iff₀ hpos]
  linarith

theorem fixed_exact (h : n.places ≤ places) : |n.value*scale-n.fixed scale places| < 1 := by
  obtain ⟨hlow,hhigh,-⟩ := cut_bounds n scale places
  simpa using fixed_distance n scale places 1 hlow (hhigh h)

theorem fixed_near (h : scale ≤ 10^places) : |n.value*scale-n.fixed scale places| < 2 := by
  obtain ⟨hlow,-,hhigh⟩ := cut_bounds n scale places
  simpa using fixed_distance n scale places 2 hlow (hhigh h)

theorem fixed_le : |(n.fixed scale places : ℚ)| ≤ |n.value| * scale := by
  have hfactor : |(n.sign.factor : ℚ)| = 1 := by exact_mod_cast n.sign.factor_abs
  have hlow : ((n.cut places*scale/10^min places n.places : ℕ) : ℚ)*10^n.places ≤ n.digits*scale := by
    exact_mod_cast (cut_bounds n scale places).1
  rw [Numeral.fixed, Numeral.value, Int.cast_mul, Int.cast_natCast, abs_mul, abs_mul, hfactor, one_mul,
    one_mul, Nat.abs_cast, abs_of_nonneg (by positivity), div_mul_eq_mul_div, le_div_iff₀ (by positivity)]
  exact hlow

theorem fixed_mono (hplaces : n.places = m.places) (h : n.value ≤ m.value) :
    n.fixed scale places ≤ m.fixed scale places := by
  have hdigits : n.sign.factor*n.digits ≤ m.sign.factor*m.digits := by
    rw [Numeral.value, Numeral.value, hplaces, ← mul_div_assoc, ← mul_div_assoc,
      div_le_div_iff_of_pos_right (by positivity)] at h
    exact_mod_cast h
  have hcut : n.sign.factor*n.cut places ≤ m.sign.factor*m.cut places := by
    rw [cut_div, cut_div, factor_div, factor_div, hplaces]
    exact Int.tdiv_le_tdiv (by positivity) hdigits
  rw [Numeral.fixed, Numeral.fixed, factor_div, factor_div, hplaces]
  apply Int.tdiv_le_tdiv (by positivity)
  push_cast
  rw [← mul_assoc, ← mul_assoc]
  exact mul_le_mul_of_nonneg_right hcut (Int.natCast_nonneg scale)

theorem fixed_withZeros (zeros : ℕ) :
    (n.withZeros zeros).fixed scale places = n.fixed scale places := by
  have hplaces : (n.withZeros zeros).places = n.places+zeros := by
    simp [Numeral.places, Numeral.withZeros, Numeral.decimals]
  have hcut : (n.withZeros zeros).cut places = n.cut places*10^min (places-n.places) zeros := by
    have htake : (n.withZeros zeros).decimals.take places =
        n.decimals.take places++List.replicate (min (places-n.places) zeros) '0' := by
      change (n.decimals++List.replicate zeros '0').take places = _
      rw [List.take_append, List.take_replicate]
      rfl
    have hzeros := digitsValue_append (n.integer++n.decimals.take places)
      (List.replicate (min (places-n.places) zeros) '0')
    rw [digitsValue_zeros, List.length_replicate, add_zero, List.append_assoc] at hzeros
    rw [Numeral.cut, htake]
    exact hzeros
  have hmin : min places (n.places+zeros) = min places n.places+min (places-n.places) zeros := by omega
  rw [Numeral.fixed, hplaces, hcut, hmin, pow_add, mul_right_comm,
    Nat.mul_div_mul_right _ _ (by positivity)]
  rfl

/-- Where one decimal place of the value is at least two units, the reading
tells different values apart. -/
theorem fixed_injective (p : ℕ) (hn : n.places ≤ p) (hm : m.places ≤ p) (hp : p ≤ places)
    (hscale : 2*10^p ≤ scale) (h : n.fixed scale places = m.fixed scale places) :
    n.value = m.value := by
  have hpow : (0 : ℚ) < 10^p := by positivity
  have hwhole (k : Numeral) (hk : k.places ≤ p) :
      k.value*10^p = ((k.sign.factor*(k.digits*10^(p-k.places)) : ℤ) : ℚ) := by
    rw [Numeral.value, show (10 : ℚ)^p = 10^k.places*10^(p-k.places) by
      rw [← pow_add, Nat.add_sub_cancel' hk]]
    push_cast
    field_simp
  have h1 := abs_lt.mp (fixed_exact n scale places (hn.trans hp))
  have h2 := abs_lt.mp (fixed_exact m scale places (hm.trans hp))
  rw [h] at h1
  have hlt : |n.value-m.value| * scale < 2 := by
    rw [← Nat.abs_cast scale, ← abs_mul]
    exact abs_lt.mpr ⟨by linarith [h1.1,h2.2],by linarith [h1.2,h2.1]⟩
  have hcast : 2*(10 : ℚ)^p ≤ scale := by exact_mod_cast hscale
  have hclose : |n.value-m.value| * 10^p < 1 := by
    have := mul_le_mul_of_nonneg_left hcast (abs_nonneg (n.value-m.value))
    linarith
  rw [← abs_of_pos hpow, ← abs_mul, sub_mul, hwhole n hn, hwhole m hm] at hclose
  have heq : n.sign.factor*(n.digits*10^(p-n.places)) = m.sign.factor*(m.digits*10^(p-m.places)) := by
    rw [← sub_eq_zero]
    exact Int.abs_lt_one_iff.mp (by exact_mod_cast hclose)
  apply mul_right_cancel₀ (ne_of_gt hpow)
  rw [hwhole n hn, hwhole m hm, heq]

end FixedPoint
end Chronos.DecimalNumerals
