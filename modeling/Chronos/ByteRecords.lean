import Mathlib

/-!
# Numbers and records as bytes

A number is stored in a fixed number of bytes, the lowest first. Records of
one size stand one after the other; an index finds each of them again, also
when bytes follow the last one.
-/

set_option autoImplicit false

namespace Chronos.ByteRecords

abbrev Bytes := List UInt8

def encode : ℕ → ℕ → Bytes
  | 0, _ => []
  | width+1, n => UInt8.ofNat n::encode width (n/256)

def decode : Bytes → ℕ
  | [] => 0
  | b::bs => b.toNat+256*decode bs

@[simp] theorem encode_length (width n : ℕ) : (encode width n).length = width := by
  induction width generalizing n with
  | zero => rfl
  | succ width ih => simp [encode, ih]

theorem decode_encode (width n : ℕ) : decode (encode width n) = n%256^width := by
  induction width generalizing n with
  | zero => simp [encode, decode, Nat.mod_one]
  | succ width ih =>
    have hmod : n%(256*256^width) = n%256+256*(n/256%256^width) := Nat.mod_mul
    rw [encode, decode, ih, pow_succ', hmod]
    rfl

def recordIn (size : ℕ) (bytes : Bytes) (i : ℕ) : Bytes := (bytes.drop (i*size)).take size

section Records
variable (size : ℕ) (rs : List Bytes)

theorem flatten_length (h : ∀ r ∈ rs, r.length = size) : rs.flatten.length = rs.length*size := by
  rw [List.length_flatten, List.map_congr_left h, List.map_const', List.sum_replicate, smul_eq_mul]

theorem drop_flatten (h : ∀ r ∈ rs, r.length = size) (rest : Bytes) (i : ℕ) (hi : i ≤ rs.length) :
    (rs.flatten++rest).drop (i*size) = (rs.drop i).flatten++rest := by
  induction i generalizing rs with
  | zero => simp
  | succ i ih =>
    cases rs with
    | nil => simp at hi
    | cons r rs =>
      have hr : r.length = size := h r (by simp)
      rw [Nat.succ_mul, Nat.add_comm, ← List.drop_drop, List.flatten_cons, List.append_assoc,
        List.drop_left' hr, List.drop_succ_cons]
      exact ih rs (fun x hx => h x (by simp [hx])) (by simpa using hi)

theorem recordIn_flatten (h : ∀ r ∈ rs, r.length = size) (rest : Bytes) (i : ℕ) (hi : i < rs.length) :
    recordIn size (rs.flatten++rest) i = rs[i] := by
  rw [recordIn, drop_flatten size rs h rest i hi.le, List.drop_eq_getElem_cons hi, List.flatten_cons,
    List.append_assoc, List.take_left' (h _ (List.getElem_mem hi))]

theorem take_flatten (h : ∀ r ∈ rs, r.length = size) (n : ℕ)
    (hn : n ≤ rs.flatten.length) :
    ∃ fragment : Bytes, rs.flatten.take n = (rs.take (n/size)).flatten++fragment ∧
      fragment.length = n%size := by
  have hle : n/size ≤ rs.length := by
    rw [flatten_length size rs h] at hn
    exact Nat.div_le_of_le_mul (by rwa [Nat.mul_comm])
  have htake : (rs.take (n/size)).flatten.length = n/size*size := by
    rw [flatten_length size _ (fun r hr => h r (List.mem_of_mem_take hr)), List.length_take,
      Nat.min_eq_left hle]
  have hsplit : rs.flatten = (rs.take (n/size)).flatten++(rs.drop (n/size)).flatten := by
    rw [← List.flatten_append, List.take_append_drop]
  have hmod : n-n/size*size = n%size := by
    rw [Nat.mul_comm, Nat.mod_eq_sub_mul_div]
  refine ⟨(rs.drop (n/size)).flatten.take (n%size),?_,?_⟩
  · nth_rewrite 1 [hsplit]
    rw [List.take_append, htake, hmod, List.take_of_length_le]
    rw [htake]
    exact Nat.div_mul_le_self n size
  · have hlen := congrArg List.length hsplit
    rw [List.length_append, htake] at hlen
    rw [List.length_take]
    have := Nat.div_add_mod' n size
    omega

end Records
end Chronos.ByteRecords
