import Mathlib

/-!
# Encrypted API keys

`ApiKeyEncryptor` combines a text with a derived key by exclusive or and
stores it in base 64. Strings are lists of bytes. The decoder shifts every
six bits into one 32-bit integer that is never cleared; only its low twelve
bits are read before they are shifted on, so what was there before does not
matter.
-/

set_option autoImplicit false

namespace Chronos.ApiKeyEncryptor

abbrev Bytes := List UInt8

def base64Chars : Bytes :=
  "ABCDEFGHIJKLMNOPQRSTUVWXYZabcdefghijklmnopqrstuvwxyz0123456789+/".toList.map Char.toUInt8

def padding : UInt8 := '='.toUInt8

/-- `BASE64_CHARS[(n >> shift) & 0x3F]` -/
def base64Char (n shift : UInt32) : UInt8 := base64Chars.getD ((n >>> shift) &&& 0x3F).toNat 0

def encodeGroup (first : UInt8) (second third : Option UInt8) : Bytes :=
  let n := first.toUInt32 <<< 16 ||| (second.getD 0).toUInt32 <<< 8 ||| (third.getD 0).toUInt32
  [base64Char n 18,base64Char n 12,
    if second.isSome then base64Char n 6 else padding,
    if third.isSome then base64Char n 0 else padding]

def base64Encode : Bytes → Bytes
  | [] => []
  | [a] => encodeGroup a none none
  | [a,b] => encodeGroup a (some b) none
  | a::b::c::data => encodeGroup a (some b) (some c)++base64Encode data

/-- `strchr` in `BASE64_CHARS`; it also finds the null byte at its end. -/
def charIndex (c : UInt8) : Option ℕ := (base64Chars++[0]).idxOf? c

def decodeLoop : Bytes → BitVec 32 → ℤ → Bytes
  | [], _, _ => []
  | c::encoded, val, valb =>
    if c = padding then []
    else match charIndex c with
      | none => decodeLoop encoded val valb
      | some p =>
        let val := val <<< 6 ||| BitVec.ofNat 32 p
        let valb := valb+6
        if 0 ≤ valb then
          UInt8.ofNat (val.sshiftRight valb.toNat &&& 0xFF).toNat::decodeLoop encoded val (valb-8)
        else decodeLoop encoded val valb

def base64Decode (encoded : Bytes) : Bytes := decodeLoop encoded 0 (-8)

def xorCipher (data key : Bytes) : Bytes :=
  if key = [] then data else data.mapIdx (fun i b => b ^^^ key.getD (i%key.length) 0)

def deriveKey (master : Bytes) : Bytes :=
  if master = [] then []
  else (List.range 32).map (fun i => master.getD (i%master.length) 0 ^^^ UInt8.ofNat (i*0x9E3779B9))

end Chronos.ApiKeyEncryptor

open Chronos.ApiKeyEncryptor in
structure Chronos.ApiKeyEncryptor where
  masterKey : Bytes

namespace Chronos.ApiKeyEncryptor

def new (master : Bytes) : ApiKeyEncryptor := ⟨deriveKey master⟩

def encrypt (e : ApiKeyEncryptor) (plaintext : Bytes) : Bytes :=
  if e.masterKey = [] then plaintext else base64Encode (xorCipher plaintext e.masterKey)

def decrypt (e : ApiKeyEncryptor) (ciphertext : Bytes) : Bytes :=
  if e.masterKey = [] then ciphertext else xorCipher (base64Decode ciphertext) e.masterKey

section Bits

/-- The sign bits of the shift stay above the byte that is kept. -/
theorem sshiftRight_low (x : BitVec 32) (k : ℕ) (h : k ≤ 24) :
    (x.sshiftRight k).setWidth 8 = (x >>> k).setWidth 8 := by
  ext i hi
  simp only [BitVec.getElem_setWidth, BitVec.getLsbD_sshiftRight, BitVec.getLsbD_ushiftRight]
  have h32 : ¬32 ≤ i := by omega
  have hk : k+i < 32 := by omega
  simp [h32, hk]

theorem byte_of_shift (x : BitVec 32) (k : ℕ) (h : k ≤ 24) :
    UInt8.ofNat (x.sshiftRight k &&& 0xFF).toNat = UInt8.ofNat (x.toNat/2^k) := by
  have hlow := congrArg BitVec.toNat (sshiftRight_low x k h)
  rw [BitVec.toNat_setWidth, BitVec.toNat_setWidth, BitVec.toNat_ushiftRight,
    Nat.shiftRight_eq_div_pow] at hlow
  have hmask : (x.sshiftRight k &&& 0xFF).toNat = (x.sshiftRight k).toNat%2^8 := by
    rw [BitVec.toNat_and]
    exact Nat.and_two_pow_sub_one_eq_mod _ 8
  apply UInt8.toNat.inj
  rw [hmask, hlow, UInt8.toNat_ofNat', UInt8.toNat_ofNat', Nat.mod_mod]

def push (x : BitVec 32) (p : ℕ) : BitVec 32 := x <<< 6 ||| BitVec.ofNat 32 p

theorem push_toNat (x : BitVec 32) (p : ℕ) (hp : p < 64) :
    (push x p).toNat = x.toNat*64%2^32+p := by
  have hshift : x.toNat <<< 6%2^32 = (x.toNat%2^26) <<< 6 := by
    rw [Nat.shiftLeft_eq, Nat.shiftLeft_eq]
    omega
  rw [push, BitVec.toNat_or, BitVec.toNat_shiftLeft, BitVec.toNat_ofNat,
    Nat.mod_eq_of_lt (show p < 2^32 by omega), hshift,
    ← Nat.shiftLeft_add_eq_or_of_lt (show p < 2^6 by omega), Nat.shiftLeft_eq]
  omega

/-- The three bytes of a group as one number. -/
theorem group_toNat (a b c : UInt8) :
    (a.toUInt32 <<< 16 ||| b.toUInt32 <<< 8 ||| c.toUInt32).toNat =
      a.toNat*2^16+b.toNat*2^8+c.toNat := by
  have ha := a.toNat_lt
  have hb := b.toNat_lt
  have hc := c.toNat_lt
  have hhigh : (a.toUInt32 <<< 16).toNat = a.toNat <<< 16 := by
    rw [UInt32.toNat_shiftLeft, UInt8.toNat_toUInt32]
    show a.toNat <<< 16%2^32 = _
    rw [Nat.shiftLeft_eq]
    omega
  have hmid : (b.toUInt32 <<< 8).toNat = b.toNat <<< 8 := by
    rw [UInt32.toNat_shiftLeft, UInt8.toNat_toUInt32]
    show b.toNat <<< 8%2^32 = _
    rw [Nat.shiftLeft_eq]
    omega
  have hlow : b.toNat <<< 8+c.toNat < 2^16 := by
    rw [Nat.shiftLeft_eq]
    omega
  rw [UInt32.toNat_or, UInt32.toNat_or, hhigh, hmid, UInt8.toNat_toUInt32, Nat.or_assoc,
    ← Nat.shiftLeft_add_eq_or_of_lt (show c.toNat < 2^8 by omega),
    ← Nat.shiftLeft_add_eq_or_of_lt hlow, Nat.shiftLeft_eq, Nat.shiftLeft_eq]
  omega

end Bits

section Digits

def digit (p : ℕ) : UInt8 := base64Chars.getD p 0

theorem charIndex_digit : ∀ p < 64, charIndex (digit p) = some p ∧ digit p ≠ padding := by
  decide +kernel

theorem base64Char_eq (n shift : UInt32) (hs : shift.toNat < 32) :
    base64Char n shift = digit (n.toNat/2^shift.toNat%64) := by
  have hmask : ((n >>> shift) &&& 0x3F).toNat = (n >>> shift).toNat%2^6 := by
    rw [UInt32.toNat_and]
    exact Nat.and_two_pow_sub_one_eq_mod _ 6
  rw [base64Char, hmask, UInt32.toNat_shiftRight, Nat.mod_eq_of_lt hs, Nat.shiftRight_eq_div_pow]
  rfl

theorem decodeLoop_wait (p : ℕ) (hp : p < 64) (encoded : Bytes) (val : BitVec 32) (valb : ℤ)
    (hv : valb+6 < 0) : decodeLoop (digit p::encoded) val valb =
      decodeLoop encoded (push val p) (valb+6) := by
  obtain ⟨hindex,hpad⟩ := charIndex_digit p hp
  rw [decodeLoop, if_neg hpad, hindex]
  exact if_neg (not_le.mpr hv)

theorem decodeLoop_emit (p : ℕ) (hp : p < 64) (encoded : Bytes) (val : BitVec 32) (valb : ℤ)
    (k : ℕ) (hk : valb+6 = k) (hle : k ≤ 24) : decodeLoop (digit p::encoded) val valb =
      UInt8.ofNat ((push val p).toNat/2^k)::decodeLoop encoded (push val p) (valb-2) := by
  obtain ⟨hindex,hpad⟩ := charIndex_digit p hp
  have hnext : valb+6-8 = valb-2 := by omega
  rw [decodeLoop, if_neg hpad, hindex]
  dsimp only
  rw [if_pos (hk ▸ Int.natCast_nonneg k), hk, Int.toNat_natCast, hnext.symm, hk]
  exact congrArg (fun b => b::decodeLoop encoded (push val p) ((k : ℤ)-8)) (byte_of_shift _ k hle)

theorem decodeLoop_padding (encoded : Bytes) (val : BitVec 32) (valb : ℤ) :
    decodeLoop (padding::encoded) val valb = [] := by
  rw [decodeLoop, if_pos rfl]

end Digits

section Groups

/-- Of everything shifted in before, the byte depends on the last twelve bits only. -/
theorem byte_of_push (x : BitVec 32) (p q k : ℕ) (hp : p < 64) (hq : q < 64) (hk : k ≤ 4) :
    UInt8.ofNat ((push (push x p) q).toNat/2^k) = UInt8.ofNat ((p*64+q)/2^k) := by
  apply UInt8.toNat.inj
  rw [UInt8.toNat_ofNat', UInt8.toNat_ofNat', push_toNat _ q hq, push_toNat x p hp]
  interval_cases k <;> omega

theorem decode_first (p q : ℕ) (hp : p < 64) (hq : q < 64) (encoded : Bytes) (val : BitVec 32) :
    decodeLoop (digit p::digit q::encoded) val (-8) =
      UInt8.ofNat ((p*64+q)/2^4)::decodeLoop encoded (push (push val p) q) (-4) := by
  rw [decodeLoop_wait p hp _ val (-8) (by decide),
    decodeLoop_emit q hq _ _ _ 4 (by decide) (by decide), byte_of_push val p q 4 hp hq (by decide)]
  rfl

theorem decode_second (p q : ℕ) (hp : p < 64) (hq : q < 64) (encoded : Bytes) (val : BitVec 32) :
    decodeLoop (digit q::encoded) (push val p) (-4) =
      UInt8.ofNat ((p*64+q)/2^2)::decodeLoop encoded (push (push val p) q) (-6) := by
  rw [decodeLoop_emit q hq _ _ _ 2 (by decide) (by decide), byte_of_push val p q 2 hp hq (by decide)]
  rfl

theorem decode_third (p q : ℕ) (hp : p < 64) (hq : q < 64) (encoded : Bytes) (val : BitVec 32) :
    decodeLoop (digit q::encoded) (push val p) (-6) =
      UInt8.ofNat ((p*64+q)/2^0)::decodeLoop encoded (push (push val p) q) (-8) := by
  rw [decodeLoop_emit q hq _ _ _ 0 (by decide) (by decide), byte_of_push val p q 0 hp hq (by decide)]
  rfl

def sextet (a b c : UInt8) (shift : ℕ) : ℕ := (a.toNat*2^16+b.toNat*2^8+c.toNat)/2^shift%64

theorem sextet_lt (a b c : UInt8) (shift : ℕ) : sextet a b c shift < 64 := Nat.mod_lt _ (by decide)

theorem encodeGroup_eq (a : UInt8) (b c : Option UInt8) :
    encodeGroup a b c = [digit (sextet a (b.getD 0) (c.getD 0) 18),
      digit (sextet a (b.getD 0) (c.getD 0) 12),
      if b.isSome then digit (sextet a (b.getD 0) (c.getD 0) 6) else padding,
      if c.isSome then digit (sextet a (b.getD 0) (c.getD 0) 0) else padding] := by
  have hchar (shift : UInt32) (hs : shift.toNat < 32) : base64Char
      (a.toUInt32 <<< 16 ||| (b.getD 0).toUInt32 <<< 8 ||| (c.getD 0).toUInt32) shift =
        digit (sextet a (b.getD 0) (c.getD 0) shift.toNat) := by
    rw [base64Char_eq _ shift hs, group_toNat]
    rfl
  unfold encodeGroup
  dsimp only
  rw [hchar 18 (by decide), hchar 12 (by decide), hchar 6 (by decide), hchar 0 (by decide)]
  rfl

variable (a b c : UInt8)

theorem first_byte : UInt8.ofNat ((sextet a b c 18*64+sextet a b c 12)/2^4) = a := by
  have ha := a.toNat_lt
  have hb := b.toNat_lt
  have hc := c.toNat_lt
  apply UInt8.toNat.inj
  rw [UInt8.toNat_ofNat']
  unfold sextet
  omega

theorem second_byte : UInt8.ofNat ((sextet a b c 12*64+sextet a b c 6)/2^2) = b := by
  have hb := b.toNat_lt
  have hc := c.toNat_lt
  apply UInt8.toNat.inj
  rw [UInt8.toNat_ofNat']
  unfold sextet
  omega

theorem third_byte : UInt8.ofNat ((sextet a b c 6*64+sextet a b c 0)/2^0) = c := by
  have hc := c.toNat_lt
  apply UInt8.toNat.inj
  rw [UInt8.toNat_ofNat']
  unfold sextet
  omega

theorem decode_group (rest : Bytes) (val : BitVec 32) :
    ∃ val', decodeLoop (encodeGroup a (some b) (some c)++rest) val (-8) =
      a::b::c::decodeLoop rest val' (-8) := by
  have h18 := sextet_lt a b c 18
  have h12 := sextet_lt a b c 12
  have h6 := sextet_lt a b c 6
  have h0 := sextet_lt a b c 0
  have hgroup : encodeGroup a (some b) (some c)++rest = digit (sextet a b c 18)::
      digit (sextet a b c 12)::digit (sextet a b c 6)::digit (sextet a b c 0)::rest := by
    rw [encodeGroup_eq]
    rfl
  have hbytes := decode_third (sextet a b c 6) (sextet a b c 0) h6 h0 rest
    (push (push val (sextet a b c 18)) (sextet a b c 12))
  use push (push (push (push val (sextet a b c 18)) (sextet a b c 12)) (sextet a b c 6))
    (sextet a b c 0)
  rw [hgroup, decode_first _ _ h18 h12, decode_second _ _ h12 h6, hbytes, first_byte, second_byte,
    third_byte]

theorem decode_pair (val : BitVec 32) :
    decodeLoop (encodeGroup a (some b) none) val (-8) = [a,b] := by
  have h18 := sextet_lt a b 0 18
  have h12 := sextet_lt a b 0 12
  have h6 := sextet_lt a b 0 6
  rw [encodeGroup_eq]
  show decodeLoop (digit (sextet a b 0 18)::digit (sextet a b 0 12)::
    [digit (sextet a b 0 6),padding]) val (-8) = _
  rw [decode_first _ _ h18 h12, decode_second _ _ h12 h6, decodeLoop_padding, first_byte, second_byte]

theorem decode_single (val : BitVec 32) :
    decodeLoop (encodeGroup a none none) val (-8) = [a] := by
  rw [encodeGroup_eq]
  show decodeLoop (digit (sextet a 0 0 18)::digit (sextet a 0 0 12)::[padding,padding]) val (-8) = _
  rw [decode_first _ _ (sextet_lt a 0 0 18) (sextet_lt a 0 0 12), decodeLoop_padding, first_byte]

/-- By groups of three; the integer the loop carries is arbitrary. -/
theorem decodeLoop_encode (data : Bytes) (val : BitVec 32) :
    decodeLoop (base64Encode data) val (-8) = data := by
  induction data using base64Encode.induct generalizing val with
  | case1 => rfl
  | case2 a => exact decode_single a val
  | case3 a b => exact decode_pair a b val
  | case4 a b c data ih =>
    obtain ⟨val',hgroup⟩ := decode_group a b c (base64Encode data) val
    rw [base64Encode, hgroup, ih val']

theorem base64Decode_encode (data : Bytes) : base64Decode (base64Encode data) = data :=
  decodeLoop_encode data 0

end Groups

section Cipher

theorem xorCipher_xorCipher (data key : Bytes) : xorCipher (xorCipher data key) key = data := by
  unfold xorCipher
  split_ifs with hkey
  · rfl
  · rw [List.mapIdx_mapIdx]
    apply List.ext_getElem
    · rw [List.length_mapIdx]
    · intro i h h'
      rw [List.getElem_mapIdx]
      show data[i] ^^^ _ ^^^ _ = data[i]
      rw [UInt8.xor_assoc, UInt8.xor_self, UInt8.xor_zero]

theorem deriveKey_length (master : Bytes) (h : master ≠ []) : (deriveKey master).length = 32 := by
  rw [deriveKey, if_neg h, List.length_map, List.length_range]

theorem decrypt_encrypt (e : ApiKeyEncryptor) (plaintext : Bytes) :
    e.decrypt (e.encrypt plaintext) = plaintext := by
  unfold decrypt encrypt
  split_ifs
  · rfl
  · rw [base64Decode_encode, xorCipher_xorCipher]

/-- What is encrypted under a master key is read back under it; so is any byte
vector in base 64, and the cipher undoes itself. -/
theorem round_trip :
    (∀ master plaintext : Bytes, (new master).decrypt ((new master).encrypt plaintext) = plaintext) ∧
      (∀ data : Bytes, base64Decode (base64Encode data) = data) ∧
      ∀ master data : Bytes, (master ≠ [] → (deriveKey master).length = 32) ∧
        xorCipher (xorCipher data (deriveKey master)) (deriveKey master) = data :=
  ⟨fun master plaintext => decrypt_encrypt (new master) plaintext,base64Decode_encode,
    fun master data => ⟨deriveKey_length master,xorCipher_xorCipher data (deriveKey master)⟩⟩

end Cipher
end Chronos.ApiKeyEncryptor
