import WaveX.HttpText
import WaveX.Hpack

/-! # Integers and strings of header blocks

    What the encoders of HPACK and QPACK share: `encode_integer`, `encode_string`, the
    search of a static table and the fields a header list stands for.  The decoders of
    `Hpack` read back what the first two write, wherever it stands in a block.  A block
    is shorter than 2^64 bytes, as every string of the machine is. -/

namespace HeaderStrings

open QuicVarInt HttpText Hpack List

/-! ## Encoders -/

/-- The loop of `encode_integer`: seven bits a byte, lowest first.  A 64-bit number has at
    most ten. -/
def encodeContinuation : Nat → Nat → Bytes
  | 0, value => [UInt8.ofNat value]
  | fuel + 1, value =>
      if value ≥ 128 then
        UInt8.ofNat (value % 128 ||| 0x80) :: encodeContinuation fuel (value / 128)
      else [UInt8.ofNat value]

/-- `encode_integer`: the bytes that are appended. -/
def encodeInteger (value prefixBits prefixMask : Nat) : Bytes :=
  let maxPrefix := 2 ^ prefixBits - 1
  if value < maxPrefix then [UInt8.ofNat (prefixMask ||| value)]
  else UInt8.ofNat (prefixMask ||| maxPrefix) :: encodeContinuation 10 (value - maxPrefix)

/-- `encode_string`: no Huffman code, the length in a prefix of seven bits. -/
def encodeString (str : Bytes) : Bytes := encodeInteger str.length 7 0x00 ++ str

/-- The loop of `find_static` from the index `i` on: the first entry with the name and the
    value, else the first with the name, else `missing`. -/
def searchStatic (missing : Nat) (name value : Bytes) :
    Nat → Nat → List (String × String) → Nat × Bool
  | _, nameMatch, [] => (nameMatch, false)
  | i, nameMatch, (n, v) :: rest =>
      if isEqual (text n) name then
        if text v = value then (i, true)
        else searchStatic missing name value (i + 1)
          (if nameMatch = missing then i else nameMatch) rest
      else searchStatic missing name value (i + 1) nameMatch rest

/-- A text, or what stands for it when it is empty. -/
def orDefault (s : Bytes) (default : String) : Bytes := if s = [] then text default else s

/-- The fields the regular headers of a list are sent as: pseudo-headers are skipped and
    names are in lower case. -/
def regularFields (headers : List Field) : List Field :=
  (headers.filter fun h => !isPseudo h.1).map fun h => (lower h.1, h.2)

/-! ## A cursor in a block -/

/-- The cursor `c` of `input` stands before `rest`, the bytes that are left. -/
structure At (input : Bytes) (c : Nat) (rest : Bytes) : Prop where
  drop : input.drop c = rest
  length : input.length = c + rest.length

variable {input rest : Bytes} {c : Nat}

theorem At.of_eq (h : input = rest) : At input 0 rest :=
  ⟨h, by rw [h, Nat.zero_add]⟩

theorem At.start (input : Bytes) : At input 0 input := At.of_eq rfl

theorem At.advance {a : Bytes} (h : At input c (a ++ rest)) : At input (c + a.length) rest := by
  obtain ⟨hdrop, hlength⟩ := h
  constructor
  · rw [← drop_drop, hdrop, drop_left]
  · rw [hlength, length_append, Nat.add_assoc]

/-- A block of pieces that are not empty has a byte for each of them at least. -/
theorem length_le_flatten {α : Type*} {R : Bytes → α → Prop}
    (hne : ∀ {rep a}, R rep a → rep ≠ []) {reps : List Bytes} {as : List α}
    (h : List.Forall₂ R reps as) : reps.length ≤ reps.flatten.length := by
  induction h with
  | nil => exact Nat.le_refl 0
  | cons hrep _ ih =>
    have hpos := length_pos_iff.mpr (hne hrep)
    rw [flatten_cons, length_append, length_cons]
    omega

/-! ## Integers -/

theorem wrap_of_lt {n : Nat} (h : n < 2 ^ 64) : wrap n = n := Nat.mod_eq_of_lt h

/-- A byte that is not the last one of an integer. -/
theorem continued_byte (value : Nat) :
    (UInt8.ofNat (value % 128 ||| 0x80)).toNat &&& 0x7f = value % 128 ∧
      (UInt8.ofNat (value % 128 ||| 0x80)).toNat &&& 0x80 ≠ 0 := by
  have hlt : value % 128 < 128 := Nat.mod_lt _ (by decide)
  generalize value % 128 = v at hlt
  revert v
  decide

theorem last_byte {value : Nat} (h : value < 128) :
    (UInt8.ofNat value).toNat &&& 0x7f = value ∧ (UInt8.ofNat value).toNat &&& 0x80 = 0 := by
  revert value
  decide

theorem decodeContinuation_last {value result m c : Nat} (hvalue : value < 128)
    (hsum : result + value * 2 ^ m < 2 ^ 64) (rest : Bytes) :
    decodeContinuation result m c ([UInt8.ofNat value] ++ rest) =
      some (result + value * 2 ^ m, c + 1) := by
  obtain ⟨hlow, hend⟩ := last_byte hvalue
  rw [singleton_append, decodeContinuation, hlow, if_pos hend, Nat.shiftLeft_eq,
    wrap_of_lt hsum]

/-- The loop of `decode_integer` reads back what that of `encode_integer` writes. -/
theorem decodeContinuation_encode {fuel value result m c : Nat} (hfuel : value < 128 ^ (fuel + 1))
    (hsum : result + value * 2 ^ m < 2 ^ 64) (rest : Bytes) :
    decodeContinuation result m c (encodeContinuation fuel value ++ rest) =
      some (result + value * 2 ^ m, c + (encodeContinuation fuel value).length) := by
  induction fuel generalizing value result m c with
  | zero => exact decodeContinuation_last (by omega) hsum rest
  | succ fuel ih =>
    rw [encodeContinuation]
    split
    · rename_i hmore
      obtain ⟨hlow, hcont⟩ := continued_byte value
      -- the next digit is not shifted beyond 63 bits, or the sum would not fit
      have hshift : ¬ m + 7 > 63 := by
        intro hbig
        have hpow : 2 ^ 57 ≤ 2 ^ m := Nat.pow_le_pow_right (by decide) (by omega)
        have hmul := Nat.mul_le_mul hmore hpow
        omega
      have hsplit : value * 2 ^ m = value % 128 * 2 ^ m + value / 128 * 2 ^ (m + 7) := by
        have hdiv := Nat.div_add_mod value 128
        calc value * 2 ^ m = (128 * (value / 128) + value % 128) * 2 ^ m := by rw [hdiv]
          _ = value % 128 * 2 ^ m + value / 128 * 2 ^ (m + 7) := by ring
      have hfew : value / 128 < 128 ^ (fuel + 1) := by
        rw [Nat.pow_succ] at hfuel
        exact Nat.div_lt_of_lt_mul (by omega)
      rw [hsplit, ← Nat.add_assoc] at hsum ⊢
      have hpart : result + value % 128 * 2 ^ m < 2 ^ 64 :=
        Nat.lt_of_le_of_lt (Nat.le_add_right _ _) hsum
      rw [cons_append, decodeContinuation, hlow, if_neg hcont, if_neg hshift,
        Nat.shiftLeft_eq, wrap_of_lt hpart, ih hfew hsum, length_cons, Nat.add_assoc c,
        Nat.add_comm 1]
    · rename_i hless
      exact decodeContinuation_last (Nat.not_le.mp hless) hsum rest

/-- The bits of the mask are above the prefix. -/
def PrefixFits (prefixBits prefixMask : Nat) : Prop :=
  prefixMask % 2 ^ prefixBits = 0 ∧ prefixMask + 2 ^ prefixBits ≤ 256

instance PrefixFits.decidable (prefixBits prefixMask : Nat) :
    Decidable (PrefixFits prefixBits prefixMask) := inferInstanceAs (Decidable (_ ∧ _))

/-- The mask and the prefix do not overlap. -/
theorem PrefixFits.or_eq {bits mask v : Nat} (h : PrefixFits bits mask) (hv : v < 2 ^ bits) :
    mask ||| v = mask + v := by
  obtain ⟨q, hq⟩ := Nat.dvd_of_mod_eq_zero h.1
  rw [hq]
  exact (Nat.two_pow_add_eq_or_of_lt hv q).symm

/-- The first byte of an integer. -/
theorem prefix_byte {bits mask v : Nat} (h : PrefixFits bits mask) (hv : v < 2 ^ bits) :
    (UInt8.ofNat (mask ||| v)).toNat = mask + v := by
  have hfit := h.2
  rw [UInt8.toNat_ofNat', h.or_eq hv]
  exact Nat.mod_eq_of_lt (by omega)

/-- Its bits below the mask are the prefix. -/
theorem prefix_low {bits mask v : Nat} (h : PrefixFits bits mask) (hv : v < 2 ^ bits) :
    (UInt8.ofNat (mask ||| v)).toNat &&& (2 ^ bits - 1) = v := by
  rw [prefix_byte h hv, Nat.and_two_pow_sub_one_eq_mod, Nat.add_mod, h.1, Nat.zero_add,
    Nat.mod_mod]
  exact Nat.mod_eq_of_lt hv

/-- Its bits above the prefix are those of the mask. -/
theorem prefix_flag {bits mask v k : Nat} (h : PrefixFits bits mask) (hv : v < 2 ^ bits)
    (hk : k % 2 ^ bits = 0) : (UInt8.ofNat (mask ||| v)).toNat &&& k = mask &&& k := by
  have hnone : v &&& k = 0 := by
    obtain ⟨q, rfl⟩ := Nat.dvd_of_mod_eq_zero hk
    apply Nat.eq_of_testBit_eq
    intro i
    rw [Nat.testBit_and, Nat.testBit_two_pow_mul, Nat.zero_testBit]
    by_cases hi : i < bits
    · rw [decide_eq_false (Nat.not_le.mpr hi), Bool.false_and, Bool.and_false]
    · have hpow : 2 ^ bits ≤ 2 ^ i := Nat.pow_le_pow_right (by decide) (Nat.not_lt.mp hi)
      rw [Nat.testBit_lt_two_pow (Nat.lt_of_lt_of_le hv hpow), Bool.false_and]
  rw [prefix_byte h hv, ← h.or_eq hv, Nat.and_or_distrib_right, hnone, Nat.or_zero]

theorem encodeInteger_first (value bits mask : Nat) :
    ∃ tail, encodeInteger value bits mask =
      UInt8.ofNat (mask ||| min value (2 ^ bits - 1)) :: tail := by
  rw [encodeInteger]
  split
  · rename_i hlt
    exact ⟨[], by rw [Nat.min_eq_left (Nat.le_of_lt hlt)]⟩
  · rename_i hle
    exact ⟨_, by rw [Nat.min_eq_right (Nat.not_lt.mp hle)]⟩

variable {bits mask value : Nat}

/-- The byte at the cursor of an integer. -/
theorem At.first (hpre : PrefixFits bits mask)
    (h : At input c (encodeInteger value bits mask ++ rest)) :
    ∃ b tail, input.drop c = b :: tail ∧
      ∀ k, k % 2 ^ bits = 0 → b.toNat &&& k = mask &&& k := by
  obtain ⟨tail, hfirst⟩ := encodeInteger_first value bits mask
  have hmin : min value (2 ^ bits - 1) < 2 ^ bits := by
    have hpos := Nat.two_pow_pos bits
    omega
  refine ⟨_, tail ++ rest, ?_, fun k hk => prefix_flag hpre hmin hk⟩
  rw [h.drop, hfirst, cons_append]

/-- `decode_integer` reads back what `encode_integer` writes. -/
theorem decodeInteger_encode (hpre : PrefixFits bits mask) (hvalue : value < 2 ^ 64)
    (h : At input c (encodeInteger value bits mask ++ rest)) :
    decodeInteger input c bits = some (value, c + (encodeInteger value bits mask).length) := by
  by_cases hlt : value < 2 ^ bits - 1
  · have hencode : encodeInteger value bits mask = [UInt8.ofNat (mask ||| value)] := if_pos hlt
    have hlow := prefix_low hpre (Nat.lt_of_lt_of_le hlt (Nat.sub_le _ _))
    rw [decodeInteger, h.drop, hencode]
    simp only [singleton_append, hlow]
    rw [if_pos hlt]
    rfl
  · have hencode : encodeInteger value bits mask = UInt8.ofNat (mask ||| 2 ^ bits - 1) ::
        encodeContinuation 10 (value - (2 ^ bits - 1)) := if_neg hlt
    have hlow := prefix_low hpre (Nat.sub_lt (Nat.two_pow_pos bits) Nat.one_pos)
    have hsum : 2 ^ bits - 1 + (value - (2 ^ bits - 1)) * 2 ^ 0 = value := by
      rw [Nat.pow_zero, Nat.mul_one]
      exact Nat.add_sub_cancel' (Nat.not_lt.mp hlt)
    have hfuel : value - (2 ^ bits - 1) < 128 ^ 11 :=
      Nat.lt_of_le_of_lt (Nat.sub_le _ _) (Nat.lt_trans hvalue (by decide))
    rw [decodeInteger, h.drop, hencode]
    simp only [cons_append, hlow]
    rw [if_neg (Nat.lt_irrefl _), decodeContinuation_encode hfuel (by rw [hsum]; exact hvalue),
      hsum, length_cons, Nat.add_assoc, Nat.add_comm 1]

/-! ## Strings -/

/-- A string whose length has been read. -/
theorem takeString_at {str : Bytes} (hat : At input c (str ++ rest))
    (hsum : c + str.length < 2 ^ 64) :
    takeString input c str.length false = some (str, c + str.length) := by
  have hlength := hat.length
  rw [length_append] at hlength
  rw [takeString, wrap_of_lt hsum, if_neg (by omega), hat.drop, take_left]
  rfl

/-- `decode_string` reads back what `encode_string` writes. -/
theorem decodeString_encode {str : Bytes} (hsize : input.length < 2 ^ 64)
    (h : At input c (encodeString str ++ rest)) :
    decodeString input c = some (str, c + (encodeString str).length) := by
  have hparts : At input c (encodeInteger str.length 7 0 ++ (str ++ rest)) := by
    rw [← append_assoc]
    exact h
  have hlength := hparts.advance.length
  rw [length_append] at hlength
  have hfits : PrefixFits 7 0 := by decide
  have hinteger := decodeInteger_encode hfits (by omega) hparts
  obtain ⟨first, tail, hdrop, hflag⟩ := hparts.first hfits
  have hplain : first.toNat &&& 0x80 = 0 := hflag 0x80 (by decide)
  rw [decodeString, hdrop]
  dsimp only
  rw [hinteger, hplain]
  show takeString input (c + (encodeInteger str.length 7 0).length) str.length false = _
  rw [takeString_at hparts.advance (by omega), encodeString, length_append, Nat.add_assoc]

/-! ## Bytes that break off -/

/-- The first list breaks off before the end of the second. -/
def Cut (part whole : Bytes) : Prop := part <+: whole ∧ part.length < whole.length

theorem Cut.cons {b x : UInt8} {part whole : Bytes} (h : Cut (b :: part) (x :: whole)) :
    b = x ∧ Cut part whole := by
  obtain ⟨hpre, hlength⟩ := h
  obtain ⟨hhead, htail⟩ := cons_prefix_cons.mp hpre
  exact ⟨hhead, htail, Nat.lt_of_succ_lt_succ hlength⟩

theorem Cut.singleton {x : UInt8} {part : Bytes} (h : Cut part [x]) : part = [] :=
  eq_nil_of_length_eq_zero (Nat.lt_one_iff.mp h.2)

/-- What breaks off breaks off in the first part, or after it in the second. -/
theorem Cut.append {part a b : Bytes} (h : Cut part (a ++ b)) :
    Cut part a ∨ ∃ part', part = a ++ part' ∧ Cut part' b := by
  obtain ⟨hpre, hlength⟩ := h
  by_cases hshort : part.length < a.length
  · exact .inl ⟨prefix_of_prefix_length_le hpre (prefix_append a b)
      (Nat.le_of_lt hshort), hshort⟩
  · obtain ⟨part', rfl⟩ := prefix_of_prefix_length_le (prefix_append a b) hpre
      (Nat.not_lt.mp hshort)
    rw [length_append, length_append] at hlength
    exact .inr ⟨part', rfl, (prefix_append_right_inj a).mp hpre, by omega⟩

/-- The first byte of an integer that stands before other bytes, all of them possibly
    broken off. -/
theorem first_of_cut {part after tail : Bytes} {b : UInt8} (hfits : PrefixFits bits mask)
    (hat : At input c part) (hcut : Cut part (encodeInteger value bits mask ++ after))
    (hdrop : input.drop c = b :: tail) :
    ∀ k, k % 2 ^ bits = 0 → b.toNat &&& k = mask &&& k := by
  obtain ⟨more, hmore⟩ := hcut.1
  have hwhole : At (part ++ more) 0 (encodeInteger value bits mask ++ after) := At.of_eq hmore
  obtain ⟨b', tail', hdrop', hflag⟩ := hwhole.first hfits
  have hpart : part = b :: tail := hat.drop.symm.trans hdrop
  rw [hpart, drop_zero, cons_append] at hdrop'
  obtain ⟨rfl, -⟩ := cons_eq_cons.mp hdrop'
  exact hflag

theorem decodeContinuation_cut {fuel value result m c : Nat} {part : Bytes}
    (h : Cut part (encodeContinuation fuel value)) :
    decodeContinuation result m c part = none := by
  induction fuel generalizing value result m c part with
  | zero =>
    rw [h.singleton]
    rfl
  | succ fuel ih =>
    rw [encodeContinuation] at h
    split at h
    · cases part with
      | nil => rfl
      | cons b part =>
        obtain ⟨rfl, hrest⟩ := h.cons
        rw [decodeContinuation, if_neg (continued_byte value).2]
        rw [ih hrest, ite_self]
    · rw [h.singleton]
      rfl

theorem decodeInteger_cut {part : Bytes} (hpre : PrefixFits bits mask)
    (h : Cut part (encodeInteger value bits mask)) (hdrop : input.drop c = part) :
    decodeInteger input c bits = none := by
  rw [decodeInteger, hdrop]
  rw [encodeInteger] at h
  split at h
  · rw [h.singleton]
  · cases part with
    | nil => rfl
    | cons b part =>
      obtain ⟨rfl, hrest⟩ := h.cons
      dsimp only
      rw [prefix_low hpre (Nat.sub_lt (Nat.two_pow_pos bits) Nat.one_pos),
        if_neg (Nat.lt_irrefl _), decodeContinuation_cut hrest]

/-- The length that was announced is more than is left. -/
theorem takeString_cut {len : Nat} {part : Bytes} (hat : At input c part)
    (hlen : part.length < len) (hsum : c + len < 2 ^ 64) (isHuffman : Bool) :
    takeString input c len isHuffman = none := by
  have hlength := hat.length
  rw [takeString, wrap_of_lt hsum, if_pos (by omega)]

theorem decodeString_cut {str part : Bytes} (hat : At input c part)
    (h : Cut part (encodeString str)) (hsize : c + (encodeString str).length < 2 ^ 64) :
    decodeString input c = none := by
  have hfits : PrefixFits 7 0 := by decide
  rw [decodeString]
  cases hdrop : input.drop c with
  | nil => rfl
  | cons first tail =>
    dsimp only
    rw [encodeString, length_append] at hsize
    obtain hinteger | ⟨part', rfl, hbody⟩ := h.append
    · rw [decodeInteger_cut hfits hinteger hat.drop]
      rfl
    · rw [decodeInteger_encode hfits (by omega) hat]
      exact takeString_cut hat.advance hbody.2 (by omega) _

/-! ## Static tables -/

/-- The entry at an index from `start` on has the name. -/
def Found (table : List (String × String)) (start idx : Nat) (name : Bytes) : Prop :=
  start ≤ idx ∧ ∃ e, table[idx]? = some e ∧ isEqual (text e.1) name = true

/-- `find_static` returns an entry with the name and the value, or one with the name,
    or `missing`. -/
theorem searchStatic_spec {table : List (String × String)} {start missing : Nat}
    (name value : Bytes) (rest : List (String × String)) {i nameMatch : Nat}
    (hrest : table.drop i = rest) (hstart : start ≤ i)
    (hname : nameMatch = missing ∨ Found table start nameMatch name) :
    (∃ idx e, searchStatic missing name value i nameMatch rest = (idx, true) ∧ start ≤ idx ∧
        table[idx]? = some e ∧ isEqual (text e.1) name = true ∧ text e.2 = value) ∨
      ∃ idx, searchStatic missing name value i nameMatch rest = (idx, false) ∧
        (idx = missing ∨ Found table start idx name) := by
  induction rest generalizing i nameMatch with
  | nil => exact .inr ⟨nameMatch, rfl, hname⟩
  | cons e rest ih =>
    obtain ⟨n, v⟩ := e
    have hentry : table[i]? = some (n, v) := by
      rw [← head?_drop, hrest, head?_cons]
    have hnext : table.drop (i + 1) = rest := by
      rw [← drop_drop, hrest, drop_one, tail_cons]
    rw [searchStatic]
    split
    · rename_i hequal
      split
      · rename_i hvalue
        exact .inl ⟨i, (n, v), rfl, hstart, hentry, hequal, hvalue⟩
      · refine ih hnext (Nat.le_succ_of_le hstart) ?_
        split
        · exact .inr ⟨hstart, (n, v), hentry, hequal⟩
        · exact hname
    · exact ih hnext (Nat.le_succ_of_le hstart) hname

end HeaderStrings
