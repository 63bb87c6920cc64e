import WaveX.HeaderStrings

/-! # What an HPACK integer stands for

    An integer is a prefix of some bits and, when they are all ones, groups of seven bits,
    lowest first.  `integerAt` reads it with numbers of any size.  `decode_integer` adds up
    in 64 bits, and looks at the shift only behind the addition: ten groups are taken
    whatever the tenth adds, so a sum of 2^64 or more wraps. -/

namespace HpackIntegers

open QuicVarInt Hpack HeaderStrings

/-! ## The value of an encoding -/

/-- The sum of the groups up to the first byte without the continuation bit, and how many
    they are. -/
def groups : Bytes → Option (Nat × Nat)
  | [] => none
  | b :: rest =>
      if b.toNat &&& 0x80 = 0 then some (b.toNat % 128, 1)
      else (groups rest).map fun r => (b.toNat % 128 + 128 * r.1, r.2 + 1)

/-- The integer at a cursor and the cursor behind it. -/
def integerAt (input : Bytes) (cursor prefixBits : Nat) : Option (Nat × Nat) :=
  match input.drop cursor with
  | [] => none
  | first :: rest =>
      let start := first.toNat % 2 ^ prefixBits
      if start < 2 ^ prefixBits - 1 then some (start, cursor + 1)
      else (groups rest).map fun r => (start + r.1, cursor + 1 + r.2)

variable {result m c bits v c' sum n : Nat} {input rest : Bytes} {b : UInt8}

theorem groups_pos (h : groups rest = some (sum, n)) : 0 < n := by
  cases rest with
  | nil => cases h
  | cons b rest =>
    rw [groups] at h
    split at h
    · cases h
      exact Nat.one_pos
    · obtain ⟨r, -, heq⟩ := Option.map_eq_some_iff.mp h
      cases heq
      exact Nat.succ_pos _

/-- One more group. -/
theorem add_group (result m group more : Nat) :
    (wrap (result + group <<< m) + more * 2 ^ (m + 7)) % 2 ^ 64 =
      (result + (group + 128 * more) * 2 ^ m) % 2 ^ 64 := by
  have hsum : result + group * 2 ^ m + more * 2 ^ (m + 7) =
      result + (group + 128 * more) * 2 ^ m := by
    rw [Nat.pow_add]
    ring
  rw [wrap, Nat.shiftLeft_eq, Nat.mod_add_mod, hsum]

/-- The loop of `decode_integer`: up to ten groups, their sum in 64 bits. -/
theorem decodeContinuation_eq_some (hm : m ≤ 63) :
    decodeContinuation result m c rest = some (v, c') ↔
      ∃ sum n, groups rest = some (sum, n) ∧ m + 7 * n ≤ 70 ∧
        v = (result + sum * 2 ^ m) % 2 ^ 64 ∧ c' = c + n := by
  induction rest generalizing result m c with
  | nil =>
    constructor
    · rintro ⟨⟩
    · rintro ⟨sum, n, hgroups, -⟩
      cases hgroups
  | cons b rest ih =>
    have hlow : b.toNat &&& 0x7f = b.toNat % 128 := Nat.and_two_pow_sub_one_eq_mod b.toNat 7
    rw [decodeContinuation, groups, hlow]
    by_cases hend : b.toNat &&& 0x80 = 0
    · rw [if_pos hend, if_pos hend, wrap, Nat.shiftLeft_eq]
      constructor
      · intro h
        cases h
        exact ⟨_, _, rfl, by omega, rfl, rfl⟩
      · rintro ⟨sum, n, hgroups, -, rfl, rfl⟩
        cases hgroups
        rfl
    · rw [if_neg hend, if_neg hend]
      by_cases hshift : m + 7 > 63
      · rw [if_pos hshift]
        constructor
        · rintro ⟨⟩
        · rintro ⟨sum, n, hgroups, hlimit, -⟩
          obtain ⟨⟨sum', n'⟩, hrest, heq⟩ := Option.map_eq_some_iff.mp hgroups
          cases heq
          have hpos := groups_pos hrest
          omega
      · rw [if_neg hshift, ih (Nat.not_lt.mp hshift)]
        constructor
        · rintro ⟨sum, n, hgroups, hlimit, rfl, rfl⟩
          rw [hgroups]
          exact ⟨_, _, rfl, by omega, add_group _ _ _ _, by omega⟩
        · rintro ⟨sum, n, hgroups, hlimit, rfl, rfl⟩
          obtain ⟨⟨sum', n'⟩, hrest, heq⟩ := Option.map_eq_some_iff.mp hgroups
          cases heq
          exact ⟨sum', n', hrest, by omega, (add_group _ _ _ _).symm, by omega⟩

/-- `decode_integer` takes an integer of at most ten groups, modulo 2^64. -/
theorem decodeInteger_eq_some (hbits : bits ≤ 8) :
    decodeInteger input c bits = some (v, c') ↔
      ∃ value, integerAt input c bits = some (value, c') ∧ c' ≤ c + 11 ∧ v = value % 2 ^ 64 := by
  rw [decodeInteger, integerAt]
  cases input.drop c with
  | nil =>
    constructor
    · rintro ⟨⟩
    · rintro ⟨value, ⟨⟩, -⟩
  | cons first rest =>
    have hpow : 2 ^ bits ≤ 2 ^ 8 := Nat.pow_le_pow_right (by decide) hbits
    have hstart : first.toNat % 2 ^ bits < 2 ^ bits := Nat.mod_lt _ (Nat.two_pow_pos bits)
    dsimp only
    rw [Nat.and_two_pow_sub_one_eq_mod]
    by_cases hshort : first.toNat % 2 ^ bits < 2 ^ bits - 1
    · rw [if_pos hshort, if_pos hshort]
      constructor
      · intro h
        cases h
        exact ⟨_, rfl, by omega, (Nat.mod_eq_of_lt (by omega)).symm⟩
      · rintro ⟨value, hvalue, -, rfl⟩
        cases hvalue
        have hlt : first.toNat % 2 ^ bits < 2 ^ 64 := by omega
        rw [Nat.mod_eq_of_lt hlt]
    · rw [if_neg hshort, if_neg hshort, decodeContinuation_eq_some (by decide)]
      constructor
      · rintro ⟨sum, n, hgroups, hlimit, rfl, rfl⟩
        rw [hgroups, Nat.pow_zero, Nat.mul_one]
        exact ⟨_, rfl, by omega, rfl⟩
      · rintro ⟨value, hvalue, hlimit, rfl⟩
        obtain ⟨⟨sum, n⟩, hgroups, heq⟩ := Option.map_eq_some_iff.mp hvalue
        cases heq
        exact ⟨sum, n, hgroups, by omega, by rw [Nat.pow_zero, Nat.mul_one], rfl⟩

/-- `decode_integer` undoes `encode_integer` for every 64-bit value and consumes its bytes;
    what it returns on an input is the value of the integer there exactly when that value is
    below 2^64, or takes more than ten groups and is refused. -/
theorem decodeInteger_exact (input : Bytes) (cursor bits : Nat) (hbits : bits ≤ 8) :
    (∀ value mask before after, value < 2 ^ 64 → PrefixFits bits mask →
      decodeInteger (before ++ (encodeInteger value bits mask ++ after)) before.length bits =
        some (value, before.length + (encodeInteger value bits mask).length)) ∧
    ((∀ v c, decodeInteger input cursor bits = some (v, c) →
        integerAt input cursor bits = some (v, c)) ↔
      ∀ value c, integerAt input cursor bits = some (value, c) →
        value < 2 ^ 64 ∨ cursor + 11 < c) := by
  constructor
  · intro value mask before after hvalue hpre
    refine decodeInteger_encode hpre hvalue ⟨List.drop_left, ?_⟩
    rw [List.length_append]
  · constructor
    · intro h value c hvalue
      by_cases hlimit : c ≤ cursor + 11
      · left
        have hdecode := h _ _ ((decodeInteger_eq_some hbits).mpr ⟨value, hvalue, hlimit, rfl⟩)
        rw [hvalue] at hdecode
        have heq : value = value % 2 ^ 64 := congrArg Prod.fst (Option.some.inj hdecode)
        rw [heq]
        exact Nat.mod_lt _ (Nat.two_pow_pos 64)
      · exact .inr (Nat.not_le.mp hlimit)
    · intro h v c hdecode
      obtain ⟨value, hvalue, hlimit, rfl⟩ := (decodeInteger_eq_some hbits).mp hdecode
      rcases h value c hvalue with hlt | hmany
      · rw [Nat.mod_eq_of_lt hlt]
        exact hvalue
      · omega

/-- 1337 behind a prefix of five bits. -/
theorem decodeInteger_exact_prefix :
    decodeInteger [0x1f, 0x9a, 0x0a] 0 5 = some (1337, 3) ∧
      (∀ v c, decodeInteger [0x1f, 0x9a, 0x0a] 0 5 = some (v, c) →
        integerAt [0x1f, 0x9a, 0x0a] 0 5 = some (v, c)) := by
  have hexact := decodeInteger_exact [0x1f, 0x9a, 0x0a] 0 5 (by decide)
  refine ⟨hexact.1 1337 0 [] [] (by decide) (by decide), hexact.2.mpr ?_⟩
  intro value c hvalue
  cases hvalue
  exact .inl (by decide)

/-- The encoding of 2^64. -/
def wrapping : Bytes := [0xff, 0x81, 0xfe, 0xff, 0xff, 0xff, 0xff, 0xff, 0xff, 0xff, 0x01]

/-- It is taken for 0. -/
theorem integer_wraps :
    integerAt wrapping 0 8 = some (2 ^ 64, 11) ∧
      decodeInteger wrapping 0 8 = some (0, 11) := by
  constructor
  · decide
  · decide

end HpackIntegers
