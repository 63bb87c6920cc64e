import Mathlib.Data.List.DropRight
import WaveX.HttpText

/-! # The keys of the WebSocket handshake

    `base64_encode` and `base64_decode` of `src/protos/websocket/WebSocket.cpp`, and
    `is_valid_client_key`, which asks that a key decodes to sixteen bytes.  The code shifts
    the bytes of a group together in a 32-bit number and takes them apart again. -/

namespace WebSocketKeys

open QuicVarInt List

/-! ## The two functions -/

/-- `kAlphabet`. -/
def kAlphabet : Bytes := text "ABCDEFGHIJKLMNOPQRSTUVWXYZabcdefghijklmnopqrstuvwxyz0123456789+/"

/-- `=`. -/
def equals : UInt8 := 0x3d

/-- `kAlphabet[v & 0x3F]`. -/
def symbol (v : Nat) : UInt8 := kAlphabet.getD (v &&& 0x3f) 0

/-- `base64_encode`. -/
def base64Encode : Bytes → Bytes
  | x :: y :: z :: rest =>
      let v := x.toNat <<< 16 ||| y.toNat <<< 8 ||| z.toNat
      symbol (v >>> 18) :: symbol (v >>> 12) :: symbol (v >>> 6) :: symbol v :: base64Encode rest
  | [x, y] =>
      let v := x.toNat <<< 16 ||| y.toNat <<< 8
      [symbol (v >>> 18), symbol (v >>> 12), symbol (v >>> 6), equals]
  | [x] =>
      let v := x.toNat <<< 16
      [symbol (v >>> 18), symbol (v >>> 12), equals, equals]
  | [] => []

/-- `value`: the number of a symbol, and -1 for any other byte. -/
def value (c : UInt8) : Int :=
  if 0x41 ≤ c ∧ c ≤ 0x5a then c.toNat - 0x41
  else if 0x61 ≤ c ∧ c ≤ 0x7a then c.toNat - 0x61 + 26
  else if 0x30 ≤ c ∧ c ≤ 0x39 then c.toNat - 0x30 + 52
  else if c = 0x2b then 62
  else if c = 0x2f then 63
  else -1

/-- The third and the fourth place of a group: -2 for a padding, in the last group. -/
def valueOrPad (last : Bool) (c : UInt8) : Int := if c = equals && last then -2 else value c

/-- A round of the loop of `base64_decode`. -/
def decodeGroup (last : Bool) (w x y z : UInt8) : Option Bytes :=
  let a := value w
  let b := value x
  let c := valueOrPad last y
  let d := valueOrPad last z
  if a < 0 ∨ b < 0 ∨ c = -1 ∨ d = -1 ∨ (c = -2 ∧ d ≠ -2) then none
  else
    let v := a.toNat <<< 18 ||| b.toNat <<< 12 ||| (if c ≥ 0 then c.toNat <<< 6 else 0) |||
      (if d ≥ 0 then d.toNat else 0)
    some (UInt8.ofNat (v >>> 16 &&& 0xff) ::
      ((if c ≥ 0 then [UInt8.ofNat (v >>> 8 &&& 0xff)] else []) ++
        if d ≥ 0 then [UInt8.ofNat (v &&& 0xff)] else []))

/-- The loop of `base64_decode`. -/
def decodeGroups : Bytes → Option Bytes
  | w :: x :: y :: z :: rest =>
      match decodeGroup rest.isEmpty w x y z with
      | none => none
      | some group => (decodeGroups rest).map (group ++ ·)
  | _ => some []

/-- `base64_decode`. -/
def base64Decode (input : Bytes) : Option Bytes :=
  if input.length % 4 ≠ 0 then none else decodeGroups input

/-- `is_valid_client_key`. -/
def isValidClientKey (clientKey : Bytes) : Bool :=
  if clientKey.length ≠ 24 then false
  else
    match base64Decode clientKey with
    | none => false
    | some decoded => decoded.length = 16

/-! ## The alphabet -/

theorem symbol_mod (v : Nat) : symbol v = symbol (v % 64) := by
  have hmask : ∀ n : Nat, n &&& 0x3f = n % 64 := fun n => Nat.and_two_pow_sub_one_eq_mod n 6
  rw [symbol, symbol, hmask, hmask, Nat.mod_mod]

/-- Every symbol has its own number. -/
theorem value_symbol {v : Nat} (h : v < 64) : value (symbol v) = v := by
  have hall : ∀ i : Fin 64, value (symbol i.val) = (i.val : Int) := by decide +kernel
  exact hall ⟨v, h⟩

/-- A byte that has a number is the symbol of it. -/
theorem symbol_value : ∀ {c : UInt8}, 0 ≤ value c → symbol (value c).toNat = c := by
  decide +kernel

theorem value_lt : ∀ c, value c < 64 := by decide +kernel

theorem value_equals : value equals = -1 := by decide

theorem symbol_ne_equals {v : Nat} (h : v < 64) : symbol v ≠ equals := by
  intro heq
  have hv := value_symbol h
  rw [heq, value_equals] at hv
  omega

/-! ## Groups -/

/-- A number with no bits below the place of another one. -/
theorem or_eq_add {i a b : Nat} (ha : 2 ^ i ∣ a) (hb : b < 2 ^ i) : a ||| b = a + b := by
  obtain ⟨k, rfl⟩ := ha
  exact (Nat.two_pow_add_eq_or_of_lt hb k).symm

theorem symbol_shift (v i : Nat) : symbol (v >>> i) = symbol (v / 2 ^ i % 64) := by
  rw [symbol_mod, Nat.shiftRight_eq_div_pow]

/-- The three bytes of four numbers of six bits. -/
def octets (a b c d : Nat) : Bytes :=
  [UInt8.ofNat (a * 4 + b / 16), UInt8.ofNat (b % 16 * 16 + c / 4), UInt8.ofNat (c % 4 * 64 + d)]

/-- The number of three bytes. -/
theorem word_three (x y z : UInt8) : x.toNat <<< 16 ||| y.toNat <<< 8 ||| z.toNat =
    x.toNat * 65536 + y.toNat * 256 + z.toNat := by
  have hy := y.toNat_lt
  have hz := z.toNat_lt
  rw [Nat.shiftLeft_eq, Nat.shiftLeft_eq,
    or_eq_add (i := 16) (b := y.toNat * 2 ^ 8) (by omega) (by omega),
    or_eq_add (i := 8) (by omega) (by omega)]

theorem base64Encode_three (x y z : UInt8) (rest : Bytes) :
    base64Encode (x :: y :: z :: rest) =
      symbol (x.toNat / 4) :: symbol (x.toNat % 4 * 16 + y.toNat / 16) ::
        symbol (y.toNat % 16 * 4 + z.toNat / 64) :: symbol (z.toNat % 64) ::
          base64Encode rest := by
  have hx := x.toNat_lt
  have hy := y.toNat_lt
  have hz := z.toNat_lt
  rw [base64Encode, word_three, symbol_shift, symbol_shift, symbol_shift, symbol_mod (_ + z.toNat)]
  have h18 : (x.toNat * 65536 + y.toNat * 256 + z.toNat) / 2 ^ 18 % 64 = x.toNat / 4 := by omega
  have h12 : (x.toNat * 65536 + y.toNat * 256 + z.toNat) / 2 ^ 12 % 64 =
      x.toNat % 4 * 16 + y.toNat / 16 := by omega
  have h6 : (x.toNat * 65536 + y.toNat * 256 + z.toNat) / 2 ^ 6 % 64 =
      y.toNat % 16 * 4 + z.toNat / 64 := by omega
  have h0 : (x.toNat * 65536 + y.toNat * 256 + z.toNat) % 64 = z.toNat % 64 := by omega
  rw [h18, h12, h6, h0]

theorem base64Encode_two (x y : UInt8) :
    base64Encode [x, y] = [symbol (x.toNat / 4), symbol (x.toNat % 4 * 16 + y.toNat / 16),
      symbol (y.toNat % 16 * 4), equals] := by
  have hx := x.toNat_lt
  have hy := y.toNat_lt
  have hv := word_three x y 0
  rw [show (0 : UInt8).toNat = 0 from rfl, Nat.or_zero, Nat.add_zero] at hv
  rw [base64Encode, hv, symbol_shift, symbol_shift, symbol_shift]
  have h18 : (x.toNat * 65536 + y.toNat * 256) / 2 ^ 18 % 64 = x.toNat / 4 := by omega
  have h12 : (x.toNat * 65536 + y.toNat * 256) / 2 ^ 12 % 64 =
      x.toNat % 4 * 16 + y.toNat / 16 := by omega
  have h6 : (x.toNat * 65536 + y.toNat * 256) / 2 ^ 6 % 64 = y.toNat % 16 * 4 := by omega
  rw [h18, h12, h6]

theorem base64Encode_one (x : UInt8) :
    base64Encode [x] = [symbol (x.toNat / 4), symbol (x.toNat % 4 * 16), equals, equals] := by
  have hx := x.toNat_lt
  rw [base64Encode, Nat.shiftLeft_eq, symbol_shift, symbol_shift]
  have h18 : x.toNat * 2 ^ 16 / 2 ^ 18 % 64 = x.toNat / 4 := by omega
  have h12 : x.toNat * 2 ^ 16 / 2 ^ 12 % 64 = x.toNat % 4 * 16 := by omega
  rw [h18, h12]

section

variable {a b c d : Nat} {last : Bool}

/-- The number of four symbols. -/
theorem word_four (hb : b < 64) (hc : c < 64) (hd : d < 64) :
    a <<< 18 ||| b <<< 12 ||| c <<< 6 ||| d = a * 262144 + b * 4096 + c * 64 + d := by
  rw [Nat.shiftLeft_eq, Nat.shiftLeft_eq, Nat.shiftLeft_eq,
    or_eq_add (i := 18) (b := b * 2 ^ 12) (by omega) (by omega),
    or_eq_add (i := 12) (b := c * 2 ^ 6) (by omega) (by omega),
    or_eq_add (i := 6) (by omega) (by omega)]

/-- The bytes of that number. -/
theorem word_octets (ha : a < 64) (hb : b < 64) (hc : c < 64) (hd : d < 64) :
    let v := a * 262144 + b * 4096 + c * 64 + d
    [UInt8.ofNat (v >>> 16 &&& 0xff), UInt8.ofNat (v >>> 8 &&& 0xff), UInt8.ofNat (v &&& 0xff)] =
      octets a b c d := by
  intro v
  have hmask : ∀ n : Nat, n &&& 0xff = n % 256 := fun n => Nat.and_two_pow_sub_one_eq_mod n 8
  have h16 : v / 2 ^ 16 % 256 = a * 4 + b / 16 := by omega
  have h8 : v / 2 ^ 8 % 256 = b % 16 * 16 + c / 4 := by omega
  have h0 : v % 256 = c % 4 * 64 + d := by omega
  rw [hmask, hmask, hmask, Nat.shiftRight_eq_div_pow, Nat.shiftRight_eq_div_pow, h16, h8, h0]
  rfl

/-- A symbol keeps its number in the last places of a group. -/
theorem valueOrPad_symbol (h : c < 64) : valueOrPad last (symbol c) = c := by
  rw [valueOrPad, decide_eq_false (symbol_ne_equals h), Bool.false_and, if_neg Bool.false_ne_true,
    value_symbol h]

theorem valueOrPad_equals : valueOrPad true equals = -2 := by decide

theorem decodeGroup_three (ha : a < 64) (hb : b < 64) (hc : c < 64) (hd : d < 64) :
    decodeGroup last (symbol a) (symbol b) (symbol c) (symbol d) = some (octets a b c d) := by
  rw [← word_octets ha hb hc hd, decodeGroup, value_symbol ha, value_symbol hb,
    valueOrPad_symbol hc, valueOrPad_symbol hd]
  dsimp only
  rw [if_neg (by omega), if_pos (by omega), if_pos (by omega), if_pos (by omega),
    if_pos (by omega), Int.toNat_natCast, Int.toNat_natCast, Int.toNat_natCast,
    Int.toNat_natCast, word_four hb hc hd]
  rfl

/-- One padding takes the third byte. -/
theorem decodeGroup_two (ha : a < 64) (hb : b < 64) (hc : c < 64) :
    decodeGroup true (symbol a) (symbol b) (symbol c) equals = some ((octets a b c 0).take 2) := by
  rw [← word_octets ha hb hc (show 0 < 64 by decide), decodeGroup, value_symbol ha,
    value_symbol hb, valueOrPad_symbol hc, valueOrPad_equals]
  dsimp only
  rw [if_neg (by omega), if_pos (by omega), if_neg (by decide), if_pos (by omega),
    if_neg (by decide), Int.toNat_natCast, Int.toNat_natCast, Int.toNat_natCast,
    word_four hb hc (show 0 < 64 by decide)]
  rfl

/-- Two paddings leave the first byte. -/
theorem decodeGroup_one (ha : a < 64) (hb : b < 64) :
    decodeGroup true (symbol a) (symbol b) equals equals = some ((octets a b 0 0).take 1) := by
  have hword := @word_four a b 0 0 hb (by decide) (by decide)
  rw [Nat.zero_shiftLeft] at hword
  rw [← word_octets ha hb (show 0 < 64 by decide) (show 0 < 64 by decide), decodeGroup,
    value_symbol ha, value_symbol hb, valueOrPad_equals]
  dsimp only
  rw [if_neg (by omega), if_neg (by decide), if_neg (by decide), if_neg (by decide),
    if_neg (by decide), Int.toNat_natCast, Int.toNat_natCast, hword]
  rfl

theorem eq_symbol {x : UInt8} (h : 0 ≤ value x) : ∃ v < 64, x = symbol v := by
  have hlt := value_lt x
  exact ⟨(value x).toNat, by omega, (symbol_value h).symm⟩

/-- What the loop accepts: four symbols, or a last group with one padding or two. -/
theorem decodeGroup_cases {w x y z : UInt8} {out : Bytes}
    (h : decodeGroup last w x y z = some out) :
    ∃ a < 64, ∃ b < 64, w = symbol a ∧ x = symbol b ∧
      ((∃ c < 64, ∃ d < 64, y = symbol c ∧ z = symbol d ∧ out = octets a b c d) ∨
        (last = true ∧ ∃ c < 64, y = symbol c ∧ z = equals ∧ out = (octets a b c 0).take 2) ∨
        (last = true ∧ y = equals ∧ z = equals ∧ out = (octets a b 0 0).take 1)) := by
  have hguard : ¬ (value w < 0 ∨ value x < 0 ∨ valueOrPad last y = -1 ∨ valueOrPad last z = -1 ∨
      (valueOrPad last y = -2 ∧ valueOrPad last z ≠ -2)) := by
    intro hbad
    rw [decodeGroup, if_pos hbad] at h
    cases h
  have hpad : ∀ s : UInt8, valueOrPad last s ≠ -1 →
      (last = true ∧ s = equals) ∨ (valueOrPad last s ≠ -2 ∧ 0 ≤ value s) := by
    have hvalue : ∀ s : UInt8, value s = -1 ∨ 0 ≤ value s := by decide +kernel
    intro s hs
    rw [valueOrPad] at hs ⊢
    split at hs
    · next heq =>
      rw [Bool.and_eq_true, decide_eq_true_eq] at heq
      exact .inl heq.symm
    · next heq =>
      rw [if_neg heq]
      have hnum := (hvalue s).resolve_left hs
      exact .inr ⟨by omega, hnum⟩
  obtain ⟨a, ha, rfl⟩ := eq_symbol (show 0 ≤ value w by omega)
  obtain ⟨b, hb, rfl⟩ := eq_symbol (show 0 ≤ value x by omega)
  refine ⟨a, ha, b, hb, rfl, rfl, ?_⟩
  rcases hpad y (by omega) with ⟨hlast, rfl⟩ | ⟨-, hy⟩
  · -- a padding in the third place wants one in the fourth
    rcases hpad z (by omega) with ⟨-, rfl⟩ | ⟨hz, -⟩
    · subst hlast
      rw [decodeGroup_one ha hb] at h
      exact .inr (.inr ⟨rfl, rfl, rfl, (Option.some.inj h).symm⟩)
    · subst hlast
      rw [valueOrPad_equals] at hguard
      omega
  · obtain ⟨c, hc, rfl⟩ := eq_symbol hy
    rcases hpad z (by omega) with ⟨hlast, rfl⟩ | ⟨-, hz⟩
    · subst hlast
      rw [decodeGroup_two ha hb hc] at h
      exact .inr (.inl ⟨rfl, c, hc, rfl, rfl, (Option.some.inj h).symm⟩)
    · obtain ⟨d, hd, rfl⟩ := eq_symbol hz
      rw [decodeGroup_three ha hb hc hd] at h
      exact .inl ⟨c, hc, d, hd, rfl, rfl, (Option.some.inj h).symm⟩

end

/-! ## From bytes to symbols and back -/

/-- The bytes of the symbols of three bytes. -/
theorem octets_bytes (x y z : UInt8) :
    octets (x.toNat / 4) (x.toNat % 4 * 16 + y.toNat / 16) (y.toNat % 16 * 4 + z.toNat / 64)
      (z.toNat % 64) = [x, y, z] := by
  have hx := x.toNat_lt
  have hy := y.toNat_lt
  have hz := z.toNat_lt
  have h1 : x.toNat / 4 * 4 + (x.toNat % 4 * 16 + y.toNat / 16) / 16 = x.toNat := by omega
  have h2 : (x.toNat % 4 * 16 + y.toNat / 16) % 16 * 16 + (y.toNat % 16 * 4 + z.toNat / 64) / 4 =
      y.toNat := by omega
  have h3 : (y.toNat % 16 * 4 + z.toNat / 64) % 4 * 64 + z.toNat % 64 = z.toNat := by omega
  rw [octets, h1, h2, h3, UInt8.ofNat_toNat, UInt8.ofNat_toNat, UInt8.ofNat_toNat]

/-- Groups that were encoded are decoded. -/
theorem decodeGroups_encode (s : Bytes) : decodeGroups (base64Encode s) = some s := by
  induction s using base64Encode.induct with
  | case1 x y z rest ih =>
    have hx := x.toNat_lt
    have hy := y.toNat_lt
    have hz := z.toNat_lt
    rw [base64Encode_three, decodeGroups,
      decodeGroup_three (by omega) (by omega) (by omega) (by omega), octets_bytes, ih]
    rfl
  | case2 x y =>
    have hx := x.toNat_lt
    have hy := y.toNat_lt
    have hbytes := octets_bytes x y 0
    rw [show (0 : UInt8).toNat = 0 from rfl, Nat.zero_div, Nat.zero_mod, Nat.add_zero] at hbytes
    rw [base64Encode_two, decodeGroups, isEmpty_nil,
      decodeGroup_two (by omega) (by omega) (by omega), hbytes]
    rfl
  | case3 x =>
    have hx := x.toNat_lt
    have hbytes := octets_bytes x 0 0
    rw [show (0 : UInt8).toNat = 0 from rfl, Nat.zero_div, Nat.zero_mod, Nat.add_zero] at hbytes
    rw [base64Encode_one, decodeGroups, isEmpty_nil,
      decodeGroup_one (by omega) (by omega), hbytes]
    rfl
  | case4 => rfl

/-- Four symbols stand for up to three bytes. -/
theorem base64Encode_length (s : Bytes) : (base64Encode s).length = (s.length + 2) / 3 * 4 := by
  induction s using base64Encode.induct with
  | case1 x y z rest ih =>
    rw [base64Encode_three, length_cons, length_cons, length_cons, length_cons,
      ih, length_cons, length_cons, length_cons]
    omega
  | case2 x y =>
    rw [base64Encode_two]
    simp only [length_cons, length_nil]
  | case3 x =>
    rw [base64Encode_one]
    simp only [length_cons, length_nil]
  | case4 => rfl

/-- Whole groups stand for themselves. -/
theorem base64Encode_append {v : Bytes} (hv : v.length % 3 = 0) (s : Bytes) :
    base64Encode (v ++ s) = base64Encode v ++ base64Encode s := by
  induction v using base64Encode.induct with
  | case1 x y z rest ih =>
    have hrest : rest.length % 3 = 0 := by
      simp only [length_cons] at hv
      omega
    rw [base64Encode_three, cons_append, cons_append, cons_append,
      base64Encode_three, ih hrest]
    rfl
  | case2 x y => exact absurd hv (by simp)
  | case3 x => exact absurd hv (by simp)
  | case4 => rfl

/-- The symbols of the bytes of a group. -/
theorem encode_octets {a b c d : Nat} (ha : a < 64) (hb : b < 64) (hc : c < 64) (hd : d < 64) :
    base64Encode (octets a b c d) = [symbol a, symbol b, symbol c, symbol d] ∧
      base64Encode ((octets a b c d).take 2) =
        [symbol a, symbol b, symbol (c / 4 * 4), equals] ∧
      base64Encode ((octets a b c d).take 1) = [symbol a, symbol (b / 16 * 16), equals, equals] := by
  have h1 : (UInt8.ofNat (a * 4 + b / 16)).toNat = a * 4 + b / 16 :=
    UInt8.toNat_ofNat_of_lt' (show _ < 256 by omega)
  have h2 : (UInt8.ofNat (b % 16 * 16 + c / 4)).toNat = b % 16 * 16 + c / 4 :=
    UInt8.toNat_ofNat_of_lt' (show _ < 256 by omega)
  have h3 : (UInt8.ofNat (c % 4 * 64 + d)).toNat = c % 4 * 64 + d :=
    UInt8.toNat_ofNat_of_lt' (show _ < 256 by omega)
  have ha' : (a * 4 + b / 16) / 4 = a := by omega
  have hb' : (a * 4 + b / 16) % 4 * 16 + (b % 16 * 16 + c / 4) / 16 = b := by omega
  have hc' : (b % 16 * 16 + c / 4) % 16 * 4 + (c % 4 * 64 + d) / 64 = c := by omega
  have hd' : (c % 4 * 64 + d) % 64 = d := by omega
  refine ⟨?_, ?_, ?_⟩
  · rw [octets, base64Encode_three, h1, h2, h3, ha', hb', hc', hd']
    rfl
  · have hc'' : (b % 16 * 16 + c / 4) % 16 * 4 = c / 4 * 4 := by omega
    rw [octets, take_succ_cons, take_succ_cons, take_zero, base64Encode_two, h1, h2,
      ha', hb', hc'']
  · have hb'' : (a * 4 + b / 16) % 4 * 16 = b / 16 * 16 := by omega
    rw [octets, take_succ_cons, take_zero, base64Encode_one, h1, ha', hb'']

/-! ## Texts that decode -/

/-- What a text that decodes ends with, and the bytes of it. -/
inductive Tail : Bytes → Bytes → Prop
  | none : Tail [] []
  | two {a b c : Nat} : a < 64 → b < 64 → c < 64 →
      Tail [symbol a, symbol b, symbol c, equals] ((octets a b c 0).take 2)
  | one {a b : Nat} : a < 64 → b < 64 →
      Tail [symbol a, symbol b, equals, equals] ((octets a b 0 0).take 1)

/-- A text that decodes is that of whole groups, and one of the tails. -/
theorem decodeGroups_split {t u : Bytes} (hlen : t.length % 4 = 0) (h : decodeGroups t = some u) :
    ∃ v tail rest, t = base64Encode v ++ tail ∧ u = v ++ rest ∧ v.length % 3 = 0 ∧
      Tail tail rest := by
  induction t using decodeGroups.induct generalizing u with
  | case1 w x y z rest hnone =>
    rw [decodeGroups, hnone] at h
    cases h
  | case2 w x y z rest group hgroup ih =>
    rw [decodeGroups, hgroup] at h
    obtain ⟨out, hout, rfl⟩ := Option.map_eq_some_iff.mp h
    have hrest : rest.length % 4 = 0 := by
      simp only [length_cons] at hlen
      omega
    obtain ⟨a, ha, b, hb, rfl, rfl, hplaces⟩ := decodeGroup_cases hgroup
    rcases hplaces with ⟨c, hc, d, hd, rfl, rfl, rfl⟩ | ⟨hlast, c, hc, rfl, rfl, rfl⟩ |
      ⟨hlast, rfl, rfl, rfl⟩
    · obtain ⟨v, tail, bytes, rfl, rfl, hv, htail⟩ := ih hrest hout
      have hthree : (octets a b c d).length = 3 := rfl
      refine ⟨octets a b c d ++ v, tail, bytes, ?_, (append_assoc _ _ _).symm, ?_, htail⟩
      · rw [base64Encode_append (by rw [hthree]), (encode_octets ha hb hc hd).1]
        rfl
      · rw [length_append, hthree]
        omega
    · obtain rfl := List.isEmpty_iff.mp hlast
      obtain rfl := Option.some.inj hout
      exact ⟨[], _, _, rfl, append_nil _, rfl, .two ha hb hc⟩
    · obtain rfl := List.isEmpty_iff.mp hlast
      obtain rfl := Option.some.inj hout
      exact ⟨[], _, _, rfl, append_nil _, rfl, .one ha hb⟩
  | case3 t hshort =>
    have hnil : t = [] := by
      match t, hlen, hshort with
      | [], _, _ => rfl
      | [_], hlen, _ => exact absurd hlen (by simp)
      | [_, _], hlen, _ => exact absurd hlen (by simp)
      | [_, _, _], hlen, _ => exact absurd hlen (by simp)
      | w :: x :: y :: z :: rest, _, hshort => exact absurd rfl (hshort w x y z rest)
    subst hnil
    obtain rfl := Option.some.inj h
    exact ⟨[], [], [], rfl, rfl, rfl, .none⟩

/-- The number of paddings at the end of a text. -/
def pads (t : Bytes) : Nat := (t.rtakeWhile fun c => c = equals).length

/-- The last symbol of a text, in front of the padding. -/
def lastSymbol (t : Bytes) : Option UInt8 := (t.rdropWhile fun c => c = equals).getLast?

/-- The low bits of the last symbol, two for each padding, are in no byte. -/
def UnusedZero (t : Bytes) : Prop := ∀ c ∈ lastSymbol t, value c % 4 ^ pads t = 0

/-- The end of a text with a symbol and its padding. -/
theorem end_symbol (front : Bytes) {c : UInt8} (hc : c ≠ equals) (n : Nat) :
    pads (front ++ c :: List.replicate n equals) = n ∧
      lastSymbol (front ++ c :: List.replicate n equals) = some c := by
  have hpad : ∀ x ∈ List.replicate n equals, decide (x = equals) = true := by
    intro x hx
    exact decide_eq_true (eq_of_mem_replicate hx)
  have hrev : (front ++ c :: List.replicate n equals).reverse =
      List.replicate n equals ++ c :: front.reverse := by
    rw [reverse_append, reverse_cons, reverse_replicate, append_assoc]
    rfl
  constructor
  · rw [pads, List.rtakeWhile, hrev, takeWhile_append_of_pos hpad,
      takeWhile_cons_of_neg (by simpa using hc), append_nil, length_reverse,
      length_replicate]
  · rw [lastSymbol, List.rdropWhile, hrev, dropWhile_append_of_pos hpad,
      dropWhile_cons_of_neg (by simpa using hc), reverse_cons, getLast?_concat]

/-- The text of whole groups has no padding. -/
theorem equals_not_mem {v : Bytes} (hv : v.length % 3 = 0) : equals ∉ base64Encode v := by
  induction v using base64Encode.induct with
  | case1 x y z rest ih =>
    have hx := x.toNat_lt
    have hy := y.toNat_lt
    have hz := z.toNat_lt
    have hrest : rest.length % 3 = 0 := by
      simp only [length_cons] at hv
      omega
    rw [base64Encode_three, mem_cons, mem_cons, mem_cons, mem_cons]
    rintro (heq | heq | heq | heq | hmem)
    · exact symbol_ne_equals (by omega) heq.symm
    · exact symbol_ne_equals (by omega) heq.symm
    · exact symbol_ne_equals (by omega) heq.symm
    · exact symbol_ne_equals (by omega) heq.symm
    · exact ih hrest hmem
  | case2 x y => exact absurd hv (by simp)
  | case3 x => exact absurd hv (by simp)
  | case4 => exact not_mem_nil

theorem pads_whole {v : Bytes} (hv : v.length % 3 = 0) : pads (base64Encode v) = 0 := by
  rw [pads, length_eq_zero_iff, rtakeWhile_eq_nil_iff]
  intro hne hlast
  have hmem := getLast_mem hne
  rw [of_decide_eq_true hlast] at hmem
  exact equals_not_mem hv hmem

/-- What a text that decodes has to do with the bytes. -/
theorem decodeGroups_spec {t u : Bytes} (hlen : t.length % 4 = 0) (h : decodeGroups t = some u) :
    u.length + pads t = 3 * t.length / 4 ∧ (UnusedZero t → base64Encode u = t) := by
  obtain ⟨v, tail, rest, rfl, rfl, hv, htail⟩ := decodeGroups_split hlen h
  have hlength : (base64Encode v).length = v.length / 3 * 4 := by
    rw [base64Encode_length]
    omega
  cases htail with
  | none =>
    rw [append_nil, append_nil, pads_whole hv, hlength]
    exact ⟨by omega, fun _ => rfl⟩
  | @two a b c ha hb hc =>
    obtain ⟨hpads, hsym⟩ := end_symbol (base64Encode v ++ [symbol a, symbol b])
      (symbol_ne_equals hc) 1
    rw [append_assoc] at hpads hsym
    change pads (base64Encode v ++ [symbol a, symbol b, symbol c, equals]) = 1 at hpads
    change lastSymbol (base64Encode v ++ [symbol a, symbol b, symbol c, equals]) = _ at hsym
    rw [UnusedZero, hpads, hsym, length_append, length_append, hlength]
    refine ⟨show v.length + 2 + 1 = 3 * (v.length / 3 * 4 + 4) / 4 by omega, ?_⟩
    intro hzero
    have hlow := hzero _ rfl
    rw [value_symbol hc] at hlow
    have hc4 : c / 4 * 4 = c := by omega
    rw [base64Encode_append hv, (encode_octets ha hb hc (show 0 < 64 by decide)).2.1, hc4]
  | @one a b ha hb =>
    obtain ⟨hpads, hsym⟩ := end_symbol (base64Encode v ++ [symbol a]) (symbol_ne_equals hb) 2
    rw [append_assoc] at hpads hsym
    change pads (base64Encode v ++ [symbol a, symbol b, equals, equals]) = 2 at hpads
    change lastSymbol (base64Encode v ++ [symbol a, symbol b, equals, equals]) = _ at hsym
    rw [UnusedZero, hpads, hsym, length_append, length_append, hlength]
    refine ⟨show v.length + 1 + 2 = 3 * (v.length / 3 * 4 + 4) / 4 by omega, ?_⟩
    intro hzero
    have hlow := hzero _ rfl
    rw [value_symbol hb] at hlow
    have hb16 : b / 16 * 16 = b := by omega
    rw [base64Encode_append hv,
      (encode_octets ha hb (show 0 < 64 by decide) (show 0 < 64 by decide)).2.2, hb16]

theorem base64Decode_eq_some {t u : Bytes} (h : base64Decode t = some u) :
    t.length % 4 = 0 ∧ decodeGroups t = some u := by
  rw [base64Decode] at h
  split at h
  · cases h
  · next hlen => exact ⟨of_not_not hlen, h⟩

/-- What was encoded is decoded. -/
theorem base64Decode_encode (s : Bytes) : base64Decode (base64Encode s) = some s := by
  rw [base64Decode, base64Encode_length, if_neg (by omega), decodeGroups_encode]

/-- A client key is valid exactly if it is the text of sixteen bytes, up to the low bits of
    its last symbol. -/
theorem isValidClientKey_iff (clientKey : Bytes) :
    isValidClientKey clientKey = true ↔
      clientKey.length = 24 ∧ pads clientKey = 2 ∧ (base64Decode clientKey).isSome = true := by
  rw [isValidClientKey]
  split
  · next hlen => exact ⟨fun h => absurd h Bool.false_ne_true, fun h => absurd h.1 hlen⟩
  · next hlen =>
    have h24 := of_not_not hlen
    cases hdecode : base64Decode clientKey with
    | none => exact ⟨fun h => absurd h Bool.false_ne_true, fun h => absurd h.2.2 Bool.false_ne_true⟩
    | some decoded =>
      obtain ⟨hmod, hgroups⟩ := base64Decode_eq_some hdecode
      obtain ⟨hcount, -⟩ := decodeGroups_spec hmod hgroups
      dsimp only
      rw [decide_eq_true_eq, h24] at *
      constructor
      · intro h16
        exact ⟨rfl, by omega, rfl⟩
      · intro h
        omega

/-- **The base64 round trip**: every text that is encoded decodes to what it was; and what
    a text decodes to has three bytes for four symbols, less one for each padding, and gives
    that text again when the unused bits are zero. -/
theorem base64_round_trip (s t : Bytes) :
    base64Decode (base64Encode s) = some s ∧
      ∀ u, base64Decode t = some u →
        u.length + pads t = 3 * t.length / 4 ∧ (UnusedZero t → base64Encode u = t) := by
  refine ⟨base64Decode_encode s, ?_⟩
  intro u h
  obtain ⟨hmod, hgroups⟩ := base64Decode_eq_some h
  exact decodeGroups_spec hmod hgroups

end WebSocketKeys
