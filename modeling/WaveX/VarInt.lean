import Mathlib.Algebra.BigOperators.Group.List.Basic
import Mathlib.Data.FinEnum
import Mathlib.Data.List.Infix
import Mathlib.Data.List.Nodup
import Mathlib.Data.List.Perm.Basic
import Mathlib.Data.List.Range
import Mathlib.Data.List.TakeWhile
import Mathlib.Data.Nat.Bitwise
import Mathlib.Logic.Relation
import Mathlib.Tactic.Linarith
import Mathlib.Tactic.Ring
import Mathlib.Tactic.Tauto

/-! # RFC 9000 §16 variable-length integers

    `VarInt::encode` and `VarInt::decode` of `src/Network/QUIC/VarInt.cpp`.
    Byte strings are lists of bytes; a cursor into a buffer is modelled by the
    list of the bytes from the cursor on, so `decode` returns the value and the
    rest of the buffer. -/

namespace QuicVarInt

/-- A byte string (`std::string`, `std::string_view`). -/
abbrev Bytes := List UInt8

/-- The bytes of a string literal. -/
def text (s : String) : Bytes := s.toUTF8.data.toList

/-- `VarInt::encoded_size`. -/
def encodedSize (val : Nat) : Nat :=
  if val ≤ 0x3f then 1
  else if val ≤ 0x3fff then 2
  else if val ≤ 0x3fffffff then 4
  else 8

/-- The `i`-th lowest byte of `val`: `(val >> (8 * i)) & 0xff`. -/
def byteAt (val i : Nat) : UInt8 := UInt8.ofNat ((val >>> (8 * i)) &&& 0xff)

/-- `VarInt::encode(val, out)`: the bytes appended to `out`.  The two high bits
    of the first byte hold the length, the other bits the value. -/
def encode (val : Nat) : Bytes :=
  if val ≤ 0x3f then
    [UInt8.ofNat (val &&& 0x3f)]
  else if val ≤ 0x3fff then
    [UInt8.ofNat (0x40 ||| ((val >>> 8) &&& 0x3f)), byteAt val 0]
  else if val ≤ 0x3fffffff then
    [UInt8.ofNat (0x80 ||| ((val >>> 24) &&& 0x3f)), byteAt val 2, byteAt val 1,
      byteAt val 0]
  else
    [UInt8.ofNat (0xc0 ||| ((val >>> 56) &&& 0x3f)), byteAt val 6, byteAt val 5,
      byteAt val 4, byteAt val 3, byteAt val 2, byteAt val 1, byteAt val 0]

/-- `VarInt::decode(buf, cursor, val)`: the value read at the cursor and the
    bytes after it, `none` when the buffer ends too early. -/
def decode : Bytes → Option (Nat × Bytes)
  | [] => none
  | first :: rest =>
      let len := 1 <<< ((first.toNat >>> 6) &&& 0x03)
      if rest.length + 1 < len then none
      else
        some ((rest.take (len - 1)).foldl (fun v b => (v <<< 8) ||| b.toNat)
                (first.toNat &&& 0x3f),
              rest.drop (len - 1))

/-- A successful `decode` consumes at least one byte. -/
theorem decode_length_lt {buf rest : Bytes} {val : Nat}
    (h : decode buf = some (val, rest)) : rest.length < buf.length := by
  cases buf with
  | nil => exact nomatch h
  | cons first tl =>
      simp only [decode] at h
      split at h
      · exact nomatch h
      · have hp := Option.some.inj h
        have hr := congrArg Prod.snd hp
        simp only at hr
        rw [← hr, List.length_drop, List.length_cons]
        omega

/-! ## The round trip -/

/-- `byteAt` as a digit in base 256. -/
theorem byteAt_toNat (val i : Nat) : (byteAt val i).toNat = val / 2 ^ (8 * i) % 256 := by
  have hmask : (val >>> (8 * i)) &&& 0xff = val / 2 ^ (8 * i) % 256 := by
    rw [Nat.shiftRight_eq_div_pow]
    exact Nat.and_two_pow_sub_one_eq_mod _ 8
  rw [byteAt, hmask, UInt8.toNat_ofNat']
  omega

/-- The first byte of an encoding: the length class in the two high bits, six
    bits of the value below. -/
theorem lead_toNat (cls x : Nat) (hcls : cls < 4) :
    (UInt8.ofNat ((64 * cls) ||| (x &&& 0x3f))).toNat = 64 * cls + x % 64 := by
  have hmask : x &&& 0x3f = x % 64 := Nat.and_two_pow_sub_one_eq_mod x 6
  have hlow : x % 64 < 2 ^ 6 := Nat.mod_lt _ (by decide)
  have hor : 64 * cls ||| x % 64 = 64 * cls + x % 64 := by
    rw [show 64 * cls = cls <<< 6 by rw [Nat.shiftLeft_eq, Nat.mul_comm]]
    exact (Nat.shiftLeft_add_eq_or_of_lt hlow cls).symm
  rw [hmask, hor, UInt8.toNat_ofNat']
  omega

/-- One round of the loop of `decode`. -/
theorem shift_or_byte (v : Nat) (b : UInt8) : (v <<< 8) ||| b.toNat = v * 256 + b.toNat := by
  rw [← Nat.shiftLeft_add_eq_or_of_lt (show b.toNat < 2 ^ 8 from b.toNat_lt) v,
    Nat.shiftLeft_eq]

/-- `decode` on a first byte of length class `cls`. -/
theorem decode_lead {first : UInt8} {rest : Bytes} {cls x : Nat} (hcls : cls < 4)
    (hfirst : first.toNat = 64 * cls + x % 64) (hlen : 2 ^ cls ≤ rest.length + 1) :
    decode (first :: rest)
      = some ((rest.take (2 ^ cls - 1)).foldl (fun v b => v * 256 + b.toNat) (x % 64),
          rest.drop (2 ^ cls - 1)) := by
  have hclass : (first.toNat >>> 6) &&& 0x03 = cls := by
    rw [Nat.shiftRight_eq_div_pow, show (0x03 : Nat) = 2 ^ 2 - 1 by rfl,
      Nat.and_two_pow_sub_one_eq_mod, hfirst]
    omega
  have hvalue : first.toNat &&& 0x3f = x % 64 := by
    rw [show (0x3f : Nat) = 2 ^ 6 - 1 by rfl, Nat.and_two_pow_sub_one_eq_mod, hfirst]
    omega
  have hsize : 1 <<< cls = 2 ^ cls := by rw [Nat.shiftLeft_eq, Nat.one_mul]
  simp only [decode, hclass, hvalue, hsize, shift_or_byte]
  rw [if_neg (by omega)]

/-- **Round trip**: `decode` gives back what `encode` wrote and leaves the bytes
    after it, for every value a varint can hold. -/
theorem decode_encode {v : Nat} (hv : v < 2 ^ 62) (rest : Bytes) :
    decode (encode v ++ rest) = some (v, rest) := by
  rw [encode]
  split
  · have hlead : (UInt8.ofNat (v &&& 0x3f)).toNat = 64 * 0 + v % 64 := by
      rw [← lead_toNat 0 v (by decide), Nat.mul_zero, Nat.zero_or]
    rw [List.cons_append, decode_lead (by decide) hlead (by simp)]
    simp
    omega
  · split
    · have hlead := lead_toNat 1 (v >>> 8) (by decide)
      rw [List.cons_append, decode_lead (by decide) hlead (by simp)]
      simp [byteAt_toNat, Nat.shiftRight_eq_div_pow]
      omega
    · split
      · have hlead := lead_toNat 2 (v >>> 24) (by decide)
        rw [List.cons_append, decode_lead (by decide) hlead (by simp)]
        simp [byteAt_toNat, Nat.shiftRight_eq_div_pow]
        omega
      · have hlead := lead_toNat 3 (v >>> 56) (by decide)
        rw [List.cons_append, decode_lead (by decide) hlead (by simp)]
        simp [byteAt_toNat, Nat.shiftRight_eq_div_pow]
        omega

theorem encode_length (v : Nat) : (encode v).length = encodedSize v := by
  rw [encode, encodedSize]
  repeat' split
  all_goals rfl

end QuicVarInt
