import Chronos.OrderEncoding
import Chronos.ParsedNumerals

/-!
# Numbers that reach the exchange

A price or quantity text is parsed into 32 fraction bits and sent as the six
fraction digits that `std::to_string` prints. Six digits are enough for the
number to come back exactly when it has no more digits of its own.
-/

set_option autoImplicit false

namespace Chronos.SentNumbers
open OrderEncoding ParseDecimal DecimalNumerals ParsedNumerals

/-- Read back as an exact decimal number and rounded to eight fraction digits. -/
def ReadsBack (text : String) (v : ℚ) : Prop :=
  ∃ n : Numeral, n.text = text.toList ∧ (round (n.value*10^8) : ℚ)/10^8 = v

/-- At most eight fraction digits, and a magnitude that a double keeps exactly. -/
structure Admissible (n : Numeral) : Prop where
  places : n.places ≤ 8
  small : |n.value| < 2^20

section Rounding

theorem nearestEven_one (n : ℕ) : nearestEven n 1 = n := by
  rw [nearestEven, Nat.mod_one, Nat.div_one]
  rfl

/-- Below 53 bits the conversion to double is exact. -/
theorem toDouble_exact (raw : ℕ) (h : raw < 2^53) : toDouble raw = raw := by
  have hlog : Nat.log2 raw-52 = 0 := by
    by_cases hzero : raw = 0
    · subst hzero
      rfl
    · have := (Nat.log2_lt hzero).mpr h
      omega
  rw [toDouble, hlog, pow_zero, nearestEven_one, mul_one]

theorem nearestEven_below (m n d : ℕ) (hlow : m ≤ n*d) (hclose : 2*(n*d) < 2*m+d) :
    nearestEven m d = n := by
  have hd : 0 < d := by omega
  have hdiv := Nat.div_add_mod m d
  have hmod := Nat.mod_lt m hd
  by_cases heq : m = n*d
  · subst heq
    rw [nearestEven, Nat.mul_mod_left, Nat.mul_div_cancel _ hd, if_pos (by omega)]
  · have hquot : m/d = n-1 := by
      apply Nat.div_eq_of_lt_le
      · rw [Nat.sub_mul]
        omega
      · have hn : n-1+1 = n := by
          rcases n with _ | n
          · omega
          · rfl
        rw [hn]
        omega
    have hn : 0 < n := by
      by_contra h0
      have : n = 0 := by omega
      subst this
      omega
    have hrest : m%d = m-(n*d-d) := by
      rw [hquot, mul_comm, Nat.sub_mul, one_mul] at hdiv
      omega
    have hfull : d ≤ n*d := Nat.le_mul_of_pos_left d hn
    rw [nearestEven, hquot, hrest, if_neg (by omega), if_pos (by omega)]
    omega

/-- A whole number of millionths survives the cut to 32 bits and the print. -/
theorem millionths_close (raw z : ℤ) (hnear : |z*2^32-raw*10^6| < 10^6)
    (hle : |raw| * 10^6 ≤ |z| * 2^32) :
    (if raw < 0 then -1 else 1)*(nearestEven (raw.natAbs*10^6) (2^32) : ℤ) = z := by
  have hnear' := abs_lt.mp hnear
  have hclose : nearestEven (raw.natAbs*10^6) (2^32) = z.natAbs := by
    apply nearestEven_below
    · rw [Int.abs_eq_natAbs, Int.abs_eq_natAbs] at hle
      exact_mod_cast hle
    · rcases le_or_gt 0 z with hz | hz
      · omega
      · omega
  rw [hclose]
  rcases le_or_gt 0 z with hz | hz
  · rw [if_neg (by omega)]
    omega
  · rw [if_pos (by omega)]
    omega

end Rounding

section Printing

def millionths (value : Decimal) : ℕ := nearestEven (toDouble value.raw.natAbs*10^6) (2^32)

def sixDigits (n : ℕ) : List Char :=
  List.replicate (6-(Nat.toDigits 10 n).length) '0'++Nat.toDigits 10 n

theorem sixDigits_digits (n : ℕ) : ∀ c ∈ sixDigits n, c.isDigit = true := by
  intro c hc
  rcases List.mem_append.mp hc with hc | hc
  · rw [List.eq_of_mem_replicate hc]
    rfl
  · exact Nat.isDigit_of_mem_toDigits (by decide) (by decide) hc

theorem sixDigits_length (n : ℕ) (h : n < 10^6) : (sixDigits n).length = 6 := by
  have hlen := (Nat.length_toDigits_le_iff (show 1 < 10 by decide) (show 0 < 6 by decide)).mpr h
  rw [sixDigits, List.length_append, List.length_replicate]
  omega

theorem sixDigits_value (n : ℕ) : digitsValue (sixDigits n) = n := by
  rw [sixDigits, digitsValue_append, digitsValue_zeros, zero_mul, zero_add]
  exact Nat.ofDigitChars_ten_toDigits

def sixPlaces (sign : Sign) (n : ℕ) : Numeral where
  blanks := []
  sign := sign
  integer := Nat.toDigits 10 (n/10^6)
  fraction := some (sixDigits (n%10^6))
  blank := fun c hc => by cases hc
  integerDigits := fun c hc => Nat.isDigit_of_mem_toDigits (by decide) (by decide) hc
  fractionDigits := by
    rw [Option.getD_some]
    exact sixDigits_digits _
  someDigit := fun h => Nat.toDigits_ne_nil (List.append_eq_nil_iff.mp h).1

theorem sixPlaces_value (sign : Sign) (n : ℕ) : (sixPlaces sign n).value = (sign.factor*n : ℤ)/10^6 := by
  have hdecimals : (sixPlaces sign n).decimals = sixDigits (n%10^6) := by
    rw [Numeral.decimals, sixPlaces, Option.getD_some]
  have hlen : (sixDigits (n%10^6)).length = 6 := sixDigits_length _ (Nat.mod_lt _ (by norm_num))
  have hint : digitsValue (sixPlaces sign n).integer = n/10^6 := by
    rw [sixPlaces]
    exact Nat.ofDigitChars_ten_toDigits
  have hdigits : (sixPlaces sign n).digits = n := by
    rw [Numeral.digits, hdecimals, digitsValue_append, hint, hlen, sixDigits_value, mul_comm]
    exact Nat.div_add_mod _ _
  rw [Numeral.value, Numeral.places, hdecimals, hlen, hdigits, mul_div_assoc']
  push_cast
  rfl

def signOf (value : Decimal) : Sign := if value.raw < 0 then .minus else .none

theorem numberText_numeral (value : Decimal) :
    (sixPlaces (signOf value) (millionths value)).text = (numberText value).toList := by
  have hpad (n : ℕ) : (padSix (Nat.repr n)).toList = sixDigits n := by
    rw [padSix, String.toList_append, String.toList_ofList, Nat.toList_repr, ← String.length_toList,
      Nat.toList_repr]
    rfl
  have hsign : (if value.raw < 0 then "-" else "").toList = (signOf value).text := by
    unfold signOf
    split <;> rfl
  rw [numberText]
  change _ = (_++Nat.repr (millionths value/10^6)++"."++padSix (Nat.repr (millionths value%10^6))).toList
  generalize millionths value = n
  have hpoint : ".".toList = ['.'] := rfl
  rw [String.toList_append, String.toList_append, String.toList_append, hpad, hsign, hpoint,
    Nat.toList_repr, List.append_assoc, List.append_assoc, List.singleton_append]
  rw [Numeral.text, Numeral.body, sixPlaces, fractionText, List.nil_append]

end Printing

section Sent

/-- A text is at most one numeral's. -/
theorem value_of_text {n m : Numeral} (h : n.text = m.text) : n.value = m.value := by
  have hscan := scan_numeral n
  rw [h, scan_numeral m] at hscan
  obtain ⟨hsign,hinteger,hfraction,-⟩ := Scan.mk.inj hscan
  simp only [Numeral.value, Numeral.digits, Numeral.places, Numeral.decimals, hsign, hinteger, hfraction]

theorem readsBack_iff (value : Decimal) (v : ℚ) :
    ReadsBack (numberText value) v ↔ v*10^6 = ((signOf value).factor*millionths value : ℤ) := by
  have hround (k : ℤ) : (round ((k : ℚ)/10^6*10^8) : ℚ)/10^8 = k/10^6 := by
    have hwhole : (k : ℚ)/10^6*10^8 = ((k*100 : ℤ) : ℚ) := by
      push_cast
      ring
    rw [hwhole, round_intCast]
    push_cast
    ring
  have htext := numberText_numeral value
  have hvalue := sixPlaces_value (signOf value) (millionths value)
  generalize (signOf value).factor*(millionths value : ℤ) = k at hvalue ⊢
  constructor
  · rintro ⟨n,hn,rfl⟩
    rw [value_of_text (hn.trans htext.symm), hvalue, hround]
    field_simp
  · intro hv
    refine ⟨_,htext,?_⟩
    rw [hvalue, hround, ← hv]
    field_simp

/-- A parsed number comes back exactly when it is a whole number of millionths. -/
theorem readsBack_numeral (n : Numeral) (hn : Admissible n) :
    ReadsBack (numberText (parseDecimal (String.ofList n.text))) n.value ↔
      ∃ z : ℤ, n.value*10^6 = z := by
  rw [readsBack_iff]
  constructor
  · intro h
    exact ⟨_,h⟩
  · rintro ⟨z,hz⟩
    have hsmall := abs_lt.mp hn.small
    have hfits := fixed_fits n (by linarith [hsmall.1]) (by linarith [hsmall.2])
    have hraw : (parseDecimal (String.ofList n.text)).raw = n.fixed (2^32) 10 := raw_of_fits n hfits
    have hnear := fixed_exact n (2^32) 10 (hn.places.trans (by norm_num))
    have hle := fixed_le n (2^32) 10
    rw [← hraw] at hnear hle
    generalize parseDecimal (String.ofList n.text) = value at hnear hle ⊢
    rw [Nat.cast_pow, Nat.cast_ofNat] at hnear hle
    have hbound : |(value.raw : ℚ)| < 2^52 := by
      have := mul_lt_mul_of_pos_right hn.small (show (0 : ℚ) < 2^32 by norm_num)
      linarith
    have hdouble : toDouble value.raw.natAbs = value.raw.natAbs := by
      apply toDouble_exact
      have hbound' : |value.raw| < 2^52 := by exact_mod_cast hbound
      rw [Int.abs_eq_natAbs] at hbound'
      omega
    have hclose : |z*2^32-value.raw*10^6| < 10^6 := by
      have hscaled := mul_lt_mul_of_pos_right hnear (show (0 : ℚ) < 10^6 by norm_num)
      rw [← abs_of_pos (show (0 : ℚ) < 10^6 by norm_num), ← abs_mul, sub_mul, mul_right_comm, hz,
        one_mul, abs_of_pos (show (0 : ℚ) < 10^6 by norm_num)] at hscaled
      exact_mod_cast hscaled
    have hcut : |value.raw| * 10^6 ≤ |z| * 2^32 := by
      have hscaled := mul_le_mul_of_nonneg_right hle (show (0 : ℚ) ≤ 10^6 by norm_num)
      have habs : |n.value| * 10^6 = |(z : ℚ)| := by
        rw [← hz, abs_mul, abs_of_pos (show (0 : ℚ) < 10^6 by norm_num)]
      rw [mul_right_comm, habs] at hscaled
      exact_mod_cast hscaled
    have hsign : (signOf value).factor = if value.raw < 0 then -1 else 1 := by
      unfold signOf
      split <;> rfl
    rw [hz, hsign, millionths, hdouble, millionths_close value.raw z hclose hcut]

/-- The request carries the two numbers, and a quantity is not lost. -/
def Carries (request : PlaceRequest) (price quantity : ℚ) : Prop :=
  ReadsBack request.price price ∧ ReadsBack request.quantity quantity ∧
    (quantity ≠ 0 → ¬ReadsBack request.quantity 0)

theorem sent_numbers (price quantity : Numeral) (order : OrderRequest) (symbol : String) (nowUs : ℕ)
    (request : PlaceRequest) (hp : Admissible price) (hq : Admissible quantity)
    (hprice : order.price = parseDecimal (String.ofList price.text))
    (hquantity : order.quantity = parseDecimal (String.ofList quantity.text))
    (hsent : encodeOrderJson symbol order nowUs = some request) :
    Carries request price.value quantity.value ↔
      (∃ z : ℤ, price.value*10^6 = z) ∧ ∃ z : ℤ, quantity.value*10^6 = z := by
  have hfields : request.price = numberText order.price ∧
      request.quantity = numberText order.quantity := by
    unfold encodeOrderJson at hsent
    split at hsent
    · cases hsent
    · cases hsent
      exact ⟨rfl,rfl⟩
  rw [Carries, hfields.1, hfields.2, hprice, hquantity, readsBack_numeral price hp,
    ← readsBack_numeral quantity hq]
  constructor
  · exact fun h => ⟨h.1,h.2.1⟩
  · intro h
    refine ⟨h.1,h.2,fun hne hzero => hne ?_⟩
    have hback := (readsBack_iff _ _).mp h.2
    rw [← (readsBack_iff _ _).mp hzero, zero_mul] at hback
    exact (mul_eq_zero_iff_right (by norm_num)).mp hback

theorem twelveAndAHalf_value : twelveAndAHalf.value = 25/2 := by
  have hdigits : twelveAndAHalf.digits = 125 := by decide
  rw [Numeral.value, hdigits]
  norm_num [twelveAndAHalf, Sign.factor, Numeral.places, Numeral.decimals]

theorem twelveAndAHalf_admissible : Admissible twelveAndAHalf := by
  constructor
  · decide
  · rw [twelveAndAHalf_value]
    norm_num [abs_of_pos]

def twelveAndAHalfOrder : OrderRequest :=
  { price := parseDecimal (String.ofList twelveAndAHalf.text)
    quantity := parseDecimal (String.ofList twelveAndAHalf.text) }

theorem twelveAndAHalf_sent : ∃ request,
    encodeOrderJson "BTCUSDT" twelveAndAHalfOrder 0 = some request ∧ Carries request (25/2) (25/2) := by
  have hwhole : ∃ z : ℤ, twelveAndAHalf.value*10^6 = z :=
    ⟨12500000,by rw [twelveAndAHalf_value]; norm_num⟩
  have h := (sent_numbers twelveAndAHalf twelveAndAHalf twelveAndAHalfOrder "BTCUSDT" 0 _
    twelveAndAHalf_admissible twelveAndAHalf_admissible rfl rfl rfl).mpr ⟨hwhole,hwhole⟩
  rw [twelveAndAHalf_value] at h
  exact ⟨_,rfl,h⟩

def dust : Numeral :=
  ⟨[],.none,['0'],some ['0','0','0','0','0','0','0','1'],by simp,by simp,by simp,by simp⟩

theorem dust_value : dust.value = 1/10^8 := by
  have hdigits : dust.digits = 1 := by decide
  rw [Numeral.value, hdigits]
  norm_num [dust, Sign.factor, Numeral.places, Numeral.decimals]

/-- The smallest quantity of eight digits is sent as zero. -/
theorem dust_lost : ¬∀ (price quantity : Numeral) (order : OrderRequest) (symbol : String) (nowUs : ℕ)
    (request : PlaceRequest), Admissible price → Admissible quantity →
    order.price = parseDecimal (String.ofList price.text) →
    order.quantity = parseDecimal (String.ofList quantity.text) →
    encodeOrderJson symbol order nowUs = some request → Carries request price.value quantity.value := by
  intro h
  have hdust : Admissible dust := by
    constructor
    · decide
    · rw [dust_value]
      norm_num [abs_of_pos]
  have hsent := h dust dust ⟨0,0,parseDecimal "0.00000001",parseDecimal "0.00000001",0,0,1,0,0,.buy,.limit,.gtc,0⟩
    "BTCUSDT" 0 _ hdust hdust rfl rfl rfl
  have hback := (readsBack_iff (parseDecimal "0.00000001") _).mp hsent.2.1
  have hzero : (signOf (parseDecimal "0.00000001")).factor*
      (millionths (parseDecimal "0.00000001") : ℤ) = 0 := by decide +kernel
  rw [hzero, dust_value] at hback
  norm_num at hback

end Sent

end Chronos.SentNumbers
