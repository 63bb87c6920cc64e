import WaveX.Qpack

/-! # Progress of the header decoders

    Every decoder of `http2::hpack` and `http3::qpack` moves a cursor over its input, and
    its loops end because each round moves the cursor forward.  A length is added to the
    cursor before it is compared with the size of the input, in 64 bits: a length just
    below `2 ^ 64` passes the comparison and moves the cursor back.

    `Progress input` is what the callers rely on, `NoWrapBack input` says that no length
    field of the input is of that kind, and the two are equivalent. -/

namespace HeaderProgress

open QuicVarInt Hpack List

variable {input : Bytes}

/-! ## Integers -/

variable {rest : Bytes}

variable {result m cursor v c' : Nat}

theorem decodeContinuation_advances (h : decodeContinuation result m cursor rest = some (v, c')) :
    cursor < c' ∧ c' ≤ cursor + rest.length := by
  induction rest generalizing result m cursor with
  | nil => rw [decodeContinuation] at h; cases h
  | cons b rest ih =>
    rw [decodeContinuation] at h
    simp only [length_cons]
    split at h
    · obtain ⟨-, rfl⟩ := Prod.mk.inj (Option.some.inj h)
      omega
    · split at h
      · cases h
      · obtain ⟨h1, h2⟩ := ih h
        omega

variable {first : UInt8}

theorem drop_cons_lt {c : Nat} (h : input.drop c = first :: rest) :
    c + rest.length + 1 = input.length := by
  have hlen := congrArg List.length h
  simp only [length_drop, length_cons] at hlen
  omega

/-- `decode_integer` always advances: it adds nothing but the bytes it has read. -/
theorem decodeInteger_advances {c p v c' : Nat} (h : decodeInteger input c p = some (v, c')) :
    c < c' ∧ c' ≤ input.length := by
  rw [decodeInteger] at h
  split at h
  · cases h
  · rename_i first rest hdrop
    have hlen := drop_cons_lt hdrop
    simp only at h
    split at h
    · obtain ⟨-, rfl⟩ := Prod.mk.inj (Option.some.inj h)
      omega
    · obtain ⟨h1, h2⟩ := decodeContinuation_advances h
      omega

/-- The value of an integer is a `uint64_t`. -/
theorem decodeContinuation_lt (h : decodeContinuation result m cursor rest = some (v, c')) :
    v < 2 ^ 64 := by
  induction rest generalizing result m cursor with
  | nil => rw [decodeContinuation] at h; cases h
  | cons b rest ih =>
    rw [decodeContinuation] at h
    split at h
    · obtain ⟨rfl, -⟩ := Prod.mk.inj (Option.some.inj h)
      exact Nat.mod_lt _ (by decide)
    · split at h
      · cases h
      · exact ih h

/-- An integer is read modulo 2^64. -/
theorem decodeInteger_lt {c p v c' : Nat} (hp : p ≤ 8) (h : decodeInteger input c p = some (v, c')) :
    v < 2 ^ 64 := by
  rw [decodeInteger] at h
  split at h
  · cases h
  · simp only at h
    split at h
    · rename_i hlt
      obtain ⟨rfl, -⟩ := Prod.mk.inj (Option.some.inj h)
      have hpow : 2 ^ p ≤ 2 ^ 8 := Nat.pow_le_pow_right (by decide) hp
      omega
    · exact decodeContinuation_lt h

/-! ## Length fields -/

/-- The bytes at `c1` are the text of a string whose flag is `isHuffman`: any bytes, or
    a Huffman code. -/
def Decodes (isHuffman : Bool) (raw : Bytes) : Prop :=
  isHuffman = true → (huffmanDecode raw).isSome = true

/-- The length field at `c` is so near `2 ^ 64` that the end of its string, a 64-bit
    sum, falls to `e`, at `c` or before; the string itself is the rest of the input. -/
def FallsBack (input : Bytes) (c prefixBits : Nat) (isHuffman : Bool) (e : Nat) : Prop :=
  ∃ len c1, decodeInteger input c prefixBits = some (len, c1) ∧
    c1 + len = 2 ^ 64 + e ∧ e ≤ c ∧ Decodes isHuffman (input.drop c1)

/-- A string literal occupies the input from `c` to `e`. -/
def Spans (input : Bytes) (c e : Nat) : Prop :=
  ∃ first rest len c1, input.drop c = first :: rest ∧
    decodeInteger input c 7 = some (len, c1) ∧ wrap (c1 + len) = e ∧ e ≤ input.length ∧
    Decodes (first.toNat &&& 0x80 != 0) ((input.drop c1).take len)

/-- A literal name whose length falls back, with a value after it that ends at `c` or
    before as well. -/
def NameFallsBack (input : Bytes) (c prefixBits : Nat) (isHuffman : Bool) : Prop :=
  ∃ e e', FallsBack input c prefixBits isHuffman e ∧ Spans input e e' ∧ e' ≤ c

/-- No length field of the input falls back: none of a string, and no name length where
    the byte at its start opens an insertion with a literal name (`01Hxxxxx`) or a line
    with a literal name (`001NHxxx`). -/
structure NoWrapBack (input : Bytes) : Prop where
  strings : ∀ c e first rest, input.drop c = first :: rest →
    ¬ FallsBack input c 7 (first.toNat &&& 0x80 != 0) e
  inserts : ∀ c first rest, input.drop c = first :: rest → first.toNat &&& 0xc0 = 0x40 →
    ¬ NameFallsBack input c 5 (first.toNat &&& 0x20 != 0)
  lines : ∀ c first rest, input.drop c = first :: rest → first.toNat &&& 0x80 = 0 →
    first.toNat &&& 0x40 = 0 → first.toNat &&& 0x20 ≠ 0 →
    ¬ NameFallsBack input c 3 (first.toNat &&& 0x08 != 0)

/-! ## Strings -/

variable {isHuffman : Bool}

/-- A string is read when its end, modulo 2^64, is within the input. -/
theorem takeString_some {c1 len e : Nat} :
    (∃ s, takeString input c1 len isHuffman = some (s, e)) ↔
      wrap (c1 + len) = e ∧ e ≤ input.length ∧
        Decodes isHuffman ((input.drop c1).take len) := by
  rw [takeString, Decodes]
  constructor
  · rintro ⟨s, h⟩
    split at h
    · cases h
    · rename_i hle
      cases isHuffman with
      | false =>
        obtain ⟨-, rfl⟩ := Prod.mk.inj (Option.some.inj h)
        exact ⟨rfl, by omega, fun h => absurd h Bool.false_ne_true⟩
      | true =>
        obtain ⟨out, hout, h⟩ := Option.map_eq_some_iff.mp h
        obtain ⟨-, rfl⟩ := Prod.mk.inj h
        exact ⟨rfl, by omega, fun _ => by rw [hout, Option.isSome_some]⟩
  · rintro ⟨rfl, hle, hdec⟩
    rw [if_neg (by omega)]
    cases isHuffman with
    | false => exact ⟨_, rfl⟩
    | true =>
      obtain ⟨out, hout⟩ := Option.isSome_iff_exists.mp (hdec rfl)
      refine ⟨out, ?_⟩
      simp only [hout, if_true, Option.map_some]

/-- Where a string literal ends, if it can be read. -/
theorem decodeString_some {c e : Nat} :
    (∃ v, decodeString input c = some (v, e)) ↔ Spans input c e := by
  rw [decodeString, Spans]
  constructor
  · rintro ⟨v, h⟩
    split at h
    · cases h
    · rename_i first rest hdrop
      obtain ⟨⟨len, c1⟩, hint, htake⟩ := Option.bind_eq_some_iff.mp h
      exact ⟨first, rest, len, c1, hdrop, hint, takeString_some.mp ⟨v, htake⟩⟩
  · rintro ⟨first, rest, len, c1, hdrop, hint, hend⟩
    obtain ⟨v, htake⟩ := takeString_some.mpr hend
    refine ⟨v, ?_⟩
    simp only [hdrop, hint, Option.bind_eq_bind, Option.bind_some, htake]

variable {c p e : Nat}

/-- A length whose string ends at `c` or before falls back: there is no other way for
    a sum that starts beyond `c` to get there. -/
theorem fallsBack_iff (hsize : input.length < 2 ^ 64) (hp : p ≤ 8) :
    FallsBack input c p isHuffman e ↔
      e ≤ c ∧ ∃ len c1, decodeInteger input c p = some (len, c1) ∧ wrap (c1 + len) = e ∧
        e ≤ input.length ∧ Decodes isHuffman ((input.drop c1).take len) := by
  -- either way the length reaches beyond the input, and `take` takes all of the rest
  have hall : ∀ len c1, c1 + len = 2 ^ 64 + e → (input.drop c1).take len = input.drop c1 := by
    intro len c1 hsum
    refine take_of_length_le ?_
    rw [length_drop]
    omega
  constructor
  · rintro ⟨len, c1, hint, hsum, hle, hdec⟩
    obtain ⟨hlt, hc1⟩ := decodeInteger_advances hint
    refine ⟨hle, len, c1, hint, ?_, by omega, ?_⟩
    · rw [wrap]
      omega
    · rwa [hall len c1 hsum]
  · rintro ⟨hle, len, c1, hint, hwrap, -, hdec⟩
    obtain ⟨hlt, hc1⟩ := decodeInteger_advances hint
    have hlen := decodeInteger_lt hp hint
    rw [wrap] at hwrap
    have hsum : c1 + len = 2 ^ 64 + e := by omega
    exact ⟨len, c1, hint, hsum, hle, by rwa [hall len c1 hsum] at hdec⟩

theorem spans_le {c e : Nat} (h : Spans input c e) : e ≤ input.length := by
  obtain ⟨_, _, _, _, _, _, _, hle, _⟩ := h
  exact hle

theorem spans_fallsBack {c e : Nat} (hsize : input.length < 2 ^ 64) (h : Spans input c e)
    (hle : e ≤ c) :
    ∃ first rest, input.drop c = first :: rest ∧
      FallsBack input c 7 (first.toNat &&& 0x80 != 0) e := by
  obtain ⟨first, rest, len, c1, hdrop, hend⟩ := h
  exact ⟨first, rest, hdrop, (fallsBack_iff hsize (by decide)).mpr ⟨hle, len, c1, hend⟩⟩

theorem fallsBack_spans {c e : Nat} (hsize : input.length < 2 ^ 64)
    (hdrop : input.drop c = first :: rest) (h : FallsBack input c 7 (first.toNat &&& 0x80 != 0) e) :
    Spans input c e := by
  obtain ⟨-, len, c1, hend⟩ := (fallsBack_iff hsize (by decide)).mp h
  exact ⟨first, rest, len, c1, hdrop, hend⟩

/-- `decode_string` advances on an input without lengths that fall back. -/
theorem spans_advances {c e : Nat} (hsize : input.length < 2 ^ 64) (hno : NoWrapBack input)
    (h : Spans input c e) : c < e := by
  rcases Nat.lt_or_ge c e with hlt | hle
  · exact hlt
  · obtain ⟨first, rest, hdrop, hback⟩ := spans_fallsBack hsize h hle
    exact absurd hback (hno.strings c e first rest hdrop)

/-! ## Literal names -/

theorem decodeName_some :
    (∃ v, Qpack.decodeName input c p isHuffman = some (v, e)) ↔
      ∃ len c1, decodeInteger input c p = some (len, c1) ∧ wrap (c1 + len) = e ∧
        e ≤ input.length ∧ Decodes isHuffman ((input.drop c1).take len) := by
  rw [Qpack.decodeName]
  constructor
  · rintro ⟨v, h⟩
    obtain ⟨⟨len, c1⟩, hint, htake⟩ := Option.bind_eq_some_iff.mp h
    exact ⟨len, c1, hint, takeString_some.mp ⟨v, htake⟩⟩
  · rintro ⟨len, c1, hint, hend⟩
    obtain ⟨v, htake⟩ := takeString_some.mpr hend
    exact ⟨v, Option.bind_eq_some_iff.mpr ⟨_, hint, htake⟩⟩

theorem decodeNameValue_some :
    (∃ f, Qpack.decodeNameValue input c p isHuffman = some (f, e)) ↔
      ∃ c1, (∃ v, Qpack.decodeName input c p isHuffman = some (v, c1)) ∧ Spans input c1 e := by
  rw [Qpack.decodeNameValue]
  constructor
  · rintro ⟨f, h⟩
    obtain ⟨⟨name, c1⟩, hname, h⟩ := Option.bind_eq_some_iff.mp h
    obtain ⟨⟨val, c2⟩, hval, h⟩ := Option.bind_eq_some_iff.mp h
    obtain ⟨-, rfl⟩ := Prod.mk.inj (Option.some.inj h)
    exact ⟨c1, ⟨name, hname⟩, decodeString_some.mp ⟨val, hval⟩⟩
  · rintro ⟨c1, ⟨name, hname⟩, hspan⟩
    obtain ⟨val, hval⟩ := decodeString_some.mpr hspan
    refine ⟨(name, val), ?_⟩
    simp only [hname, hval, Option.bind_eq_bind, Option.bind_some]

/-- A name whose length falls back is decoded, and the cursor with it falls back. -/
theorem nameFallsBack_decodes {c p : Nat} (hsize : input.length < 2 ^ 64) (hp : p ≤ 8)
    (h : NameFallsBack input c p isHuffman) :
    ∃ f e, Qpack.decodeNameValue input c p isHuffman = some (f, e) ∧ e ≤ c := by
  obtain ⟨c1, e, hback, hspan, hle⟩ := h
  have hname := decodeName_some.mpr ((fallsBack_iff hsize hp).mp hback).2
  obtain ⟨f, h⟩ := decodeNameValue_some.mpr ⟨c1, hname, hspan⟩
  exact ⟨f, e, h, hle⟩

variable {f : Field}

/-- Any other literal name with its value advances. -/
theorem decodeNameValue_advances (hsize : input.length < 2 ^ 64) (hp : p ≤ 8)
    (hno : NoWrapBack input) (hname : ¬ NameFallsBack input c p isHuffman)
    (h : Qpack.decodeNameValue input c p isHuffman = some (f, e)) :
    c < e ∧ e ≤ input.length := by
  obtain ⟨c1, hdec, hspan⟩ := decodeNameValue_some.mp ⟨f, h⟩
  refine ⟨?_, spans_le hspan⟩
  have hadv := spans_advances hsize hno hspan
  rcases Nat.lt_or_ge c e with hlt | hle
  · exact hlt
  · have hback := (fallsBack_iff hsize hp).mpr ⟨by omega, decodeName_some.mp hdec⟩
    exact absurd ⟨c1, e, hback, hspan, hle⟩ hname

/-- A name by reference and its value advance. -/
theorem decodeRefValue_advances {lookup : Nat → Option Field} (hsize : input.length < 2 ^ 64)
    (hno : NoWrapBack input) (h : Qpack.decodeRefValue input c p lookup = some (f, e)) :
    c < e ∧ e ≤ input.length := by
  obtain ⟨⟨idx, c1⟩, hint, h⟩ := Option.bind_eq_some_iff.mp h
  obtain ⟨named, -, h⟩ := Option.bind_eq_some_iff.mp h
  obtain ⟨⟨val, c2⟩, hval, h⟩ := Option.bind_eq_some_iff.mp h
  obtain ⟨-, rfl⟩ := Prod.mk.inj (Option.some.inj h)
  have hspan := decodeString_some.mp ⟨val, hval⟩
  have hadv := spans_advances hsize hno hspan
  have hint := decodeInteger_advances hint
  exact ⟨by omega, spans_le hspan⟩

/-! ## Instructions and lines -/

/-- What a successful instruction does to the table: a new capacity, or one insertion. -/
theorem setMaxCapacity_totalInserts {t t' : Qpack.DynamicTable} {cap : Nat}
    (h : t.setMaxCapacity cap = some t') : t'.totalInserts = t.totalInserts := by
  rw [Qpack.DynamicTable.setMaxCapacity] at h
  split at h
  · cases h
  · obtain rfl := Option.some.inj h
    rfl

theorem insert_totalInserts (t : Qpack.DynamicTable) (f : Field) :
    (t.insert f).totalInserts = t.totalInserts + 1 := by
  rw [Qpack.DynamicTable.insert]
  split <;> rfl

/-- An instruction advances and inserts at most once. -/
theorem applyEncoderInstruction_advances {c e : Nat} {t t' : Qpack.DynamicTable}
    (hsize : input.length < 2 ^ 64) (hno : NoWrapBack input)
    (h : Qpack.applyEncoderInstruction input c t = some (t', e)) :
    (c < e ∧ e ≤ input.length) ∧ t'.totalInserts ≤ t.totalInserts + 1 := by
  rw [Qpack.applyEncoderInstruction] at h
  split at h
  · cases h
  · rename_i first rest hdrop
    simp only at h
    split at h
    · obtain ⟨⟨cap, c1⟩, hint, h⟩ := Option.bind_eq_some_iff.mp h
      obtain ⟨t1, hcap, h⟩ := Option.bind_eq_some_iff.mp h
      obtain ⟨rfl, rfl⟩ := Prod.mk.inj (Option.some.inj h)
      have hsame := setMaxCapacity_totalInserts hcap
      exact ⟨decodeInteger_advances hint, by omega⟩
    · split at h
      · obtain ⟨⟨f, c1⟩, href, h⟩ := Option.bind_eq_some_iff.mp h
        obtain ⟨rfl, rfl⟩ := Prod.mk.inj (Option.some.inj h)
        exact ⟨decodeRefValue_advances hsize hno href, (insert_totalInserts t f).le⟩
      · split at h
        · rename_i hpattern
          obtain ⟨⟨f, c1⟩, hname, h⟩ := Option.bind_eq_some_iff.mp h
          obtain ⟨rfl, rfl⟩ := Prod.mk.inj (Option.some.inj h)
          have hback := hno.inserts c first rest hdrop hpattern
          exact ⟨decodeNameValue_advances hsize (by decide) hno hback hname,
            (insert_totalInserts t f).le⟩
        · split at h
          · obtain ⟨⟨idx, c1⟩, hint, h⟩ := Option.bind_eq_some_iff.mp h
            obtain ⟨f, -, h⟩ := Option.bind_eq_some_iff.mp h
            obtain ⟨rfl, rfl⟩ := Prod.mk.inj (Option.some.inj h)
            exact ⟨decodeInteger_advances hint, (insert_totalInserts t f).le⟩
          · cases h

/-- The bits of a byte that opens an insertion with a literal name. -/
theorem insert_pattern {b : Nat} (h : b &&& 0xc0 = 0x40) : b &&& 0xe0 ≠ 0x20 ∧ b &&& 0x80 = 0 := by
  constructor
  · intro he
    have : (b &&& 0xe0) &&& 0xc0 = b &&& 0xc0 := Nat.and_assoc b 0xe0 0xc0
    rw [he, h] at this
    exact absurd this (by decide)
  · calc b &&& 0x80 = (b &&& 0xc0) &&& 0x80 := (Nat.and_assoc b 0xc0 0x80).symm
      _ = 0x40 &&& 0x80 := by rw [h]
      _ = 0 := rfl

/-- At a byte that opens an insertion with a literal name the instruction is that
    insertion. -/
theorem applyEncoderInstruction_literal {c e : Nat} {t : Qpack.DynamicTable}
    (hdrop : input.drop c = first :: rest) (hpattern : first.toNat &&& 0xc0 = 0x40)
    (h : Qpack.decodeNameValue input c 5 (first.toNat &&& 0x20 != 0) = some (f, e)) :
    Qpack.applyEncoderInstruction input c t = some (t.insert f, e) := by
  obtain ⟨hcap, href⟩ := insert_pattern hpattern
  rw [Qpack.applyEncoderInstruction]
  simp only [hdrop]
  rw [if_neg hcap, if_neg (not_not.mpr href), if_pos hpattern]
  simp only [h, Option.bind_eq_bind, Option.bind_some]

/-- A line of a field section advances. -/
theorem decodeLine_advances {c e base : Nat} {t : Qpack.DynamicTable}
    (hsize : input.length < 2 ^ 64) (hno : NoWrapBack input) (hdrop : input.drop c = first :: rest)
    (h : Qpack.decodeLine input c t base first.toNat = some (f, e)) :
    c < e ∧ e ≤ input.length := by
  rw [Qpack.decodeLine] at h
  split at h
  · obtain ⟨⟨idx, c1⟩, hint, h⟩ := Option.bind_eq_some_iff.mp h
    obtain ⟨g, -, h⟩ := Option.bind_eq_some_iff.mp h
    obtain ⟨-, rfl⟩ := Prod.mk.inj (Option.some.inj h)
    exact decodeInteger_advances hint
  · rename_i h80
    split at h
    · exact decodeRefValue_advances hsize hno h
    · rename_i h40
      split at h
      · rename_i h20
        have hback := hno.lines c first rest hdrop (not_not.mp h80) (not_not.mp h40) h20
        exact decodeNameValue_advances hsize (by decide) hno hback h
      · split at h
        · obtain ⟨⟨idx, c1⟩, hint, h⟩ := Option.bind_eq_some_iff.mp h
          obtain ⟨g, -, h⟩ := Option.bind_eq_some_iff.mp h
          obtain ⟨-, rfl⟩ := Prod.mk.inj (Option.some.inj h)
          exact decodeInteger_advances hint
        · split at h
          · exact decodeRefValue_advances hsize hno h
          · cases h

/-- At a byte that opens a line with a literal name the line is that literal. -/
theorem decodeLine_literal {c base b : Nat} {t : Qpack.DynamicTable} (h80 : b &&& 0x80 = 0)
    (h40 : b &&& 0x40 = 0) (h20 : b &&& 0x20 ≠ 0) :
    Qpack.decodeLine input c t base b = Qpack.decodeNameValue input c 3 (b &&& 0x08 != 0) := by
  rw [Qpack.decodeLine, if_neg (not_not.mpr h80), if_neg (not_not.mpr h40), if_pos h20]

/-! ## Rounds of the HPACK decoder -/

theorem dropOldest_length (cap : Nat) (entries : List Field) :
    (DynamicTable.dropOldest cap entries).length ≤ entries.length := by
  induction entries with
  | nil => rw [DynamicTable.dropOldest]
  | cons e rest ih =>
    rw [DynamicTable.dropOldest, length_cons]
    split
    · omega
    · rw [length_cons]

theorem evictToFit_length (cap : Nat) (entries : List Field) :
    (DynamicTable.evictToFit cap entries).length ≤ entries.length := by
  have h := dropOldest_length cap entries.reverse
  rw [DynamicTable.evictToFit, length_reverse]
  rwa [length_reverse] at h

theorem insert_length (t : DynamicTable) (f : Field) :
    (t.insert f).entries.length ≤ t.entries.length + 1 := by
  rw [DynamicTable.insert]
  split
  · exact Nat.zero_le _
  · exact evictToFit_length t.maxCapacity (f :: t.entries)

/-- What one round of `decode_header_block` adds: at most one field, and an entry of the
    table only with a field. -/
def Adds (t : DynamicTable) (r : Round) : Prop :=
  r.table.entries.length ≤ t.entries.length + r.field.toList.length

variable {t : DynamicTable}

theorem decodeLiteral_advances (hsize : input.length < 2 ^ 64) (hno : NoWrapBack input)
    (h : decodeLiteral input c p t = some (f, e)) : c < e ∧ e ≤ input.length := by
  obtain ⟨⟨idx, c1⟩, hint, h⟩ := Option.bind_eq_some_iff.mp h
  obtain ⟨⟨name, c2⟩, hname, h⟩ := Option.bind_eq_some_iff.mp h
  obtain ⟨⟨val, c3⟩, hval, h⟩ := Option.bind_eq_some_iff.mp h
  obtain ⟨-, rfl⟩ := Prod.mk.inj (Option.some.inj h)
  have hspan := decodeString_some.mp ⟨val, hval⟩
  have hadv := spans_advances hsize hno hspan
  have hint := decodeInteger_advances hint
  have hmid : c1 ≤ c2 := by
    split at hname
    · exact (spans_advances hsize hno (decodeString_some.mp ⟨name, hname⟩)).le
    · split at hname
      · cases hname
      · obtain ⟨-, rfl⟩ := Prod.mk.inj (Option.some.inj hname)
        exact le_rfl
  exact ⟨by omega, spans_le hspan⟩

/-- A round of the HPACK decoder advances. -/
theorem decodeRound_advances {c b : Nat} {r : Round} (hsize : input.length < 2 ^ 64)
    (hno : NoWrapBack input) (h : decodeRound input c t b = some r) :
    c < r.cursor ∧ r.cursor ≤ input.length := by
  rw [decodeRound] at h
  split at h
  · obtain ⟨⟨idx, c1⟩, hint, h⟩ := Option.bind_eq_some_iff.mp h
    simp only at h
    split at h
    · cases h
    · obtain rfl := Option.some.inj h
      exact decodeInteger_advances hint
  · split at h
    · obtain ⟨⟨f, c1⟩, hlit, h⟩ := Option.bind_eq_some_iff.mp h
      obtain rfl := Option.some.inj h
      exact decodeLiteral_advances hsize hno hlit
    · split at h
      · obtain ⟨⟨cap, c1⟩, hint, h⟩ := Option.bind_eq_some_iff.mp h
        obtain rfl := Option.some.inj h
        exact decodeInteger_advances hint
      · obtain ⟨⟨f, c1⟩, hlit, h⟩ := Option.bind_eq_some_iff.mp h
        obtain rfl := Option.some.inj h
        exact decodeLiteral_advances hsize hno hlit

/-- A round adds at most one field to the list and to the table. -/
theorem decodeRound_adds {c b : Nat} {r : Round} (h : decodeRound input c t b = some r) :
    Adds t r := by
  rw [decodeRound] at h
  rw [Adds]
  split at h
  · obtain ⟨⟨idx, c1⟩, hint, h⟩ := Option.bind_eq_some_iff.mp h
    simp only at h
    split at h
    · cases h
    · obtain rfl := Option.some.inj h
      exact Nat.le_add_right _ _
  · split at h
    · obtain ⟨⟨f, c1⟩, hlit, h⟩ := Option.bind_eq_some_iff.mp h
      obtain rfl := Option.some.inj h
      exact insert_length t f
    · split at h
      · obtain ⟨⟨cap, c1⟩, hint, h⟩ := Option.bind_eq_some_iff.mp h
        obtain rfl := Option.some.inj h
        exact evictToFit_length cap t.entries
      · obtain ⟨⟨f, c1⟩, hlit, h⟩ := Option.bind_eq_some_iff.mp h
        obtain rfl := Option.some.inj h
        exact Nat.le_add_right _ _

/-! ## The loops -/

/-- One round of the HPACK loop. -/
theorem decodeLoop_round {cap fuel c : Nat} {headers : List Field} {r : Round}
    (hdrop : input.drop c = first :: rest) (hcap : overLimit cap headers = false)
    (hround : decodeRound input c t first.toNat = some r) :
    decodeLoop cap input (fuel + 1) c t headers =
      decodeLoop cap input fuel r.cursor r.table (headers ++ r.field.toList) := by
  rw [decodeLoop]
  simp only [hdrop, hcap, hround, Bool.false_eq_true, if_false]

/-- The HPACK loop ends with a round to spare for each byte left, and each byte it has
    passed stands for one field at most. -/
theorem decodeLoop_ends (cap : Nat) (hsize : input.length < 2 ^ 64) (hno : NoWrapBack input)
    (fuel c : Nat) (t : DynamicTable) (headers : List Field) (hfuel : input.length < fuel + c)
    (hc : c ≤ input.length) :
    ∃ d, decodeLoop cap input fuel c t headers = some d ∧
      d.headers.length + c ≤ headers.length + input.length ∧
      d.table.entries.length + c ≤ t.entries.length + input.length := by
  induction fuel generalizing c t headers with
  | zero => omega
  | succ fuel ih =>
    rw [decodeLoop]
    cases hdrop : input.drop c with
    | nil => exact ⟨_, rfl, by simpa using hc, by simpa using hc⟩
    | cons b rest =>
      simp only
      split
      · exact ⟨_, rfl, by simpa using hc, by simpa using hc⟩
      · cases hround : decodeRound input c t b.toNat with
        | none => exact ⟨_, rfl, by simpa using hc, by simpa using hc⟩
        | some r =>
          obtain ⟨hlt, hle⟩ := decodeRound_advances hsize hno hround
          have hadds := decodeRound_adds hround
          rw [Adds] at hadds
          have hone : r.field.toList.length ≤ 1 := by
            cases r.field <;> simp
          obtain ⟨d, hd, hheaders, htable⟩ :=
            ih r.cursor r.table (headers ++ r.field.toList) (by omega) hle
          rw [length_append] at hheaders
          exact ⟨d, hd, by omega, by omega⟩

/-- So does the QPACK loop. -/
theorem decodeLines_ends (cap : Nat) (t : Qpack.DynamicTable) (base : Nat)
    (hsize : input.length < 2 ^ 64) (hno : NoWrapBack input) (fuel c : Nat)
    (headers : List Field) (hfuel : input.length < fuel + c) (hc : c ≤ input.length) :
    ∃ s, Qpack.decodeLines cap input t base fuel c headers = some s ∧
      s.headers.length + c ≤ headers.length + input.length := by
  induction fuel generalizing c headers with
  | zero => omega
  | succ fuel ih =>
    rw [Qpack.decodeLines]
    cases hdrop : input.drop c with
    | nil => exact ⟨_, rfl, by simpa using hc⟩
    | cons b rest =>
      simp only
      cases hline : Qpack.decodeLine input c t base b.toNat with
      | none => exact ⟨_, rfl, by simpa using hc⟩
      | some p =>
        obtain ⟨f, c1⟩ := p
        obtain ⟨hlt, hle⟩ := decodeLine_advances hsize hno hdrop hline
        simp only
        cases hadd : Qpack.addHeader cap headers f with
        | none => exact ⟨_, rfl, by simpa using hc⟩
        | some headers' =>
          have hlen : headers'.length = headers.length + 1 := by
            rw [Qpack.addHeader] at hadd
            split at hadd
            · cases hadd
            · obtain rfl := Option.some.inj hadd
              rw [length_append, length_singleton]
          obtain ⟨s, hs, hbound⟩ := ih c1 headers' (by omega) hle
          exact ⟨s, hs, by omega⟩

/-- And the loop over the instructions of an encoder stream, with one insertion at most
    for each byte it has passed. -/
theorem instructionLoop_ends (hsize : input.length < 2 ^ 64) (hno : NoWrapBack input)
    (fuel c : Nat) (t : Qpack.DynamicTable) (hfuel : input.length < fuel + c)
    (hc : c ≤ input.length) :
    ∃ t' e, Qpack.instructionLoop input fuel c t = some (t', e) ∧ c ≤ e ∧ e ≤ input.length ∧
      t'.totalInserts + c ≤ t.totalInserts + e := by
  induction fuel generalizing c t with
  | zero => omega
  | succ fuel ih =>
    rw [Qpack.instructionLoop]
    split
    · exact ⟨t, c, rfl, le_rfl, hc, le_rfl⟩
    · cases happly : Qpack.applyEncoderInstruction input c t with
      | none => exact ⟨t, c, rfl, le_rfl, hc, le_rfl⟩
      | some p =>
        obtain ⟨t1, c1⟩ := p
        obtain ⟨⟨hlt, hle⟩, hins⟩ := applyEncoderInstruction_advances hsize hno happly
        obtain ⟨t', e, hloop, hce, he, hbound⟩ := ih c1 t1 (by omega) hle
        exact ⟨t', e, hloop, by omega, he, by omega⟩

theorem decodePrefix_cursor {t : Qpack.DynamicTable} {base c : Nat}
    (h : Qpack.decodePrefix input t = .lines base c) : c ≤ input.length := by
  rw [Qpack.decodePrefix] at h
  split at h
  · cases h
  · split at h
    · split at h
      · cases h
      · rename_i deltaBase c1 hint
        split at h
        · cases h
        · rw [Qpack.sectionBase] at h
          have hle := (decodeInteger_advances hint).2
          split at h
          · split at h
            · cases h
            · obtain ⟨-, rfl⟩ := Qpack.SectionStart.lines.inj h
              exact hle
          · obtain ⟨-, rfl⟩ := Qpack.SectionStart.lines.inj h
            exact hle
    · cases h

/-! ## Decoding under a cap -/

theorem decodeLiteral_cursor_le (h : decodeLiteral input c p t = some (f, e)) :
    e ≤ input.length := by
  obtain ⟨⟨idx, c1⟩, -, h⟩ := Option.bind_eq_some_iff.mp h
  obtain ⟨⟨name, c2⟩, -, h⟩ := Option.bind_eq_some_iff.mp h
  obtain ⟨⟨val, c3⟩, hval, h⟩ := Option.bind_eq_some_iff.mp h
  obtain ⟨-, rfl⟩ := Prod.mk.inj (Option.some.inj h)
  exact spans_le (decodeString_some.mp ⟨val, hval⟩)

/-- Whatever its lengths, a round stays inside the block, and it moves forward unless it
    adds a field. -/
theorem decodeRound_moves {c b : Nat} {r : Round} (h : decodeRound input c t b = some r) :
    r.cursor ≤ input.length ∧ (r.field = none → c < r.cursor) := by
  rw [decodeRound] at h
  split at h
  · obtain ⟨⟨idx, c1⟩, hint, h⟩ := Option.bind_eq_some_iff.mp h
    simp only at h
    split at h
    · cases h
    · obtain rfl := Option.some.inj h
      exact ⟨(decodeInteger_advances hint).2, fun hnone => nomatch hnone⟩
  · split at h
    · obtain ⟨⟨f, c1⟩, hlit, h⟩ := Option.bind_eq_some_iff.mp h
      obtain rfl := Option.some.inj h
      exact ⟨decodeLiteral_cursor_le hlit, fun hnone => nomatch hnone⟩
    · split at h
      · obtain ⟨⟨cap, c1⟩, hint, h⟩ := Option.bind_eq_some_iff.mp h
        obtain rfl := Option.some.inj h
        exact ⟨(decodeInteger_advances hint).2, fun _ => (decodeInteger_advances hint).1⟩
      · obtain ⟨⟨f, c1⟩, hlit, h⟩ := Option.bind_eq_some_iff.mp h
        obtain rfl := Option.some.inj h
        exact ⟨decodeLiteral_cursor_le hlit, fun hnone => nomatch hnone⟩

/-- A field counts for 32 octets at least. -/
theorem headers_size_ge (headers : List Field) :
    32 * headers.length ≤ (headers.map fieldSize).sum := by
  induction headers with
  | nil => exact Nat.zero_le _
  | cons f rest ih =>
    rw [map_cons, sum_cons, length_cons, fieldSize]
    omega

/-- A list within the cap has a bounded number of fields. -/
theorem length_le_of_withinLimit {cap : Nat} {headers : List Field} (hcap : cap ≠ 0)
    (h : overLimit cap headers = false) : headers.length ≤ cap / 32 := by
  rw [overLimit, decide_eq_false_iff_not, not_and, Nat.not_lt] at h
  have hsize := headers_size_ge headers
  have hle := h hcap
  omega

/-- With a cap the HPACK loop ends on every block: the list cannot grow for ever, and
    between two fields the cursor moves forward. -/
theorem decodeLoop_capped {cap : Nat} (hcap : cap ≠ 0) (fuel c : Nat) (t : DynamicTable)
    (headers : List Field)
    (hfuel : (cap / 32 + 1 - headers.length) * (input.length + 1) + (input.length - c) < fuel) :
    ∃ d, decodeLoop cap input fuel c t headers = some d := by
  induction fuel generalizing c t headers with
  | zero => omega
  | succ fuel ih =>
    cases hdrop : input.drop c with
    | nil =>
      rw [decodeLoop]
      simp only [hdrop]
      exact ⟨_, rfl⟩
    | cons b rest =>
      cases hover : overLimit cap headers with
      | true =>
        rw [decodeLoop]
        simp only [hdrop, hover, if_true]
        exact ⟨_, rfl⟩
      | false =>
        cases hround : decodeRound input c t b.toNat with
        | none =>
          rw [decodeLoop]
          simp only [hdrop, hover, hround, Bool.false_eq_true, if_false]
          exact ⟨_, rfl⟩
        | some r =>
          rw [decodeLoop_round hdrop hover hround]
          obtain ⟨hle, hmove⟩ := decodeRound_moves hround
          have hlen := length_le_of_withinLimit hcap hover
          have hc := drop_cons_lt hdrop
          refine ih r.cursor r.table _ ?_
          cases hfield : r.field with
          | none =>
            have hlt := hmove hfield
            rw [Option.toList_none, append_nil]
            omega
          | some f =>
            rw [Option.toList_some, length_append, length_singleton]
            obtain ⟨k, hk⟩ : ∃ k, cap / 32 + 1 - headers.length = k + 1 :=
              ⟨cap / 32 - headers.length, by omega⟩
            rw [hk, Nat.succ_mul] at hfuel
            rw [show cap / 32 + 1 - (headers.length + 1) = k by omega]
            omega

/-- The rounds `decodeHeaderBlock` allows are enough. -/
theorem decodeHeaderBlock_eq {cap : Nat} (hcap : cap ≠ 0) (block : Bytes) (t : DynamicTable) :
    decodeLoop cap block (roundLimit cap block) 0 t [] = some (decodeHeaderBlock cap block t) := by
  have hfuel : (cap / 32 + 1 - ([] : List Field).length) * (block.length + 1) + (block.length - 0) <
      roundLimit cap block := by
    rw [roundLimit, length_nil, Nat.sub_zero, Nat.sub_zero, Nat.succ_mul (cap / 32 + 1)]
    omega
  obtain ⟨d, hd⟩ := decodeLoop_capped hcap (roundLimit cap block) 0 t [] hfuel
  rw [decodeHeaderBlock, hd, Option.getD_some]

/-! ## A list beyond a cap -/

/-- The field `:method: GET`, of 42 octets, which one byte stands for. -/
def getField : Field := (text ":method", text "GET")

/-- A block that starts with `n` times `:method: GET`. -/
def gets (n : Nat) (rest : Bytes) : Bytes := List.replicate n 0x82 ++ rest

theorem gets_drop {n c : Nat} (rest : Bytes) (h : c < n) :
    ∃ tail, (gets n rest).drop c = 0x82 :: tail := by
  obtain ⟨k, rfl⟩ : ∃ k, n = c + (k + 1) := ⟨n - c - 1, by omega⟩
  refine ⟨List.replicate k 0x82 ++ rest, ?_⟩
  rw [gets, replicate_add, append_assoc, drop_left' length_replicate,
    replicate_succ, cons_append]

theorem gets_round {n c : Nat} (h : c < n) (t : DynamicTable) :
    decodeRound (gets n rest) c t 0x82 = some ⟨some getField, t, c + 1⟩ := by
  obtain ⟨tail, hdrop⟩ := gets_drop rest h
  have hint : decodeInteger (gets n rest) c 7 = some (2, c + 1) := by
    rw [decodeInteger, hdrop]
    rfl
  rw [decodeRound, if_pos (by decide), hint]
  rfl

theorem gets_size (c : Nat) : ((List.replicate c getField).map fieldSize).sum = c * 42 := by
  rw [map_replicate, sum_replicate]
  rfl

/-- Once the fields are more than the cap allows, decoding stops and leaves the table as
    it was, whatever follows in the block. -/
theorem gets_loop {cap n : Nat} (hcap : cap ≠ 0) (hbig : cap < n * 42) (t : DynamicTable)
    (fuel c : Nat) (hc : c ≤ n) {d : Decoded}
    (h : decodeLoop cap (gets n rest) fuel c t (List.replicate c getField) = some d) :
    d.ok = false ∧ d.limitExceeded = true ∧ d.table = t := by
  induction fuel generalizing c with
  | zero => cases h
  | succ fuel ih =>
    cases hover : overLimit cap (List.replicate c getField) with
    | true =>
      rw [decodeLoop] at h
      simp only [hover, if_true, Bool.not_true] at h
      split at h
      · obtain rfl := Option.some.inj h
        exact ⟨rfl, rfl, rfl⟩
      · obtain rfl := Option.some.inj h
        exact ⟨rfl, rfl, rfl⟩
    | false =>
      have hsize := hover
      rw [overLimit, decide_eq_false_iff_not, gets_size, not_and, Nat.not_lt] at hsize
      have hlt : c < n := by
        have := hsize hcap
        omega
      obtain ⟨tail, hdrop⟩ := gets_drop rest hlt
      rw [decodeLoop_round hdrop hover (gets_round hlt t), Option.toList_some,
        ← replicate_succ'] at h
      exact ih (c + 1) hlt h

/-- A block of so many fields passes the cap. -/
theorem gets_overCap {cap n : Nat} (hcap : cap ≠ 0) (hbig : cap < n * 42) (rest : Bytes)
    (t : DynamicTable) :
    (decodeHeaderBlock cap (gets n rest) t).ok = false ∧
      (decodeHeaderBlock cap (gets n rest) t).limitExceeded = true ∧
      (decodeHeaderBlock cap (gets n rest) t).table = t :=
  gets_loop hcap hbig t _ 0 (Nat.zero_le n) (decodeHeaderBlock_eq hcap (gets n rest) t)

/-! ## Progress -/

/-- Header decoding makes progress on an input: every call that succeeds moves its
    cursor forward and leaves it inside, every loop ends within one round for each byte
    and one more, and no byte stands for more than one field or insertion. -/
structure Progress (input : Bytes) : Prop where
  integer : ∀ c p v e, decodeInteger input c p = some (v, e) → c < e ∧ e ≤ input.length
  string : ∀ c s e, decodeString input c = some (s, e) → c < e ∧ e ≤ input.length
  instruction : ∀ c t t' e, Qpack.applyEncoderInstruction input c t = some (t', e) →
    c < e ∧ e ≤ input.length
  line : ∀ c t base first rest f e, input.drop c = first :: rest →
    Qpack.decodeLine input c t base first.toNat = some (f, e) → c < e ∧ e ≤ input.length
  hpackBlock : ∀ cap t, ∃ d, decodeLoop cap input (input.length + 1) 0 t [] = some d ∧
    d.headers.length ≤ input.length ∧
    d.table.entries.length ≤ t.entries.length + input.length
  qpackBlock : ∀ cap t, ∃ s,
    Qpack.decodeHeaderBlock cap input t (input.length + 1) = some s ∧
    s.headers.length ≤ input.length
  instructions : ∀ t, ∃ t' e,
    Qpack.instructionLoop input (input.length + 1) 0 t = some (t', e) ∧
    e ≤ input.length ∧ t'.totalInserts ≤ t.totalInserts + e

/-- A block that does not wrap around is decoded to its end. -/
theorem qpackBlock_ends (cap : Nat) (t : Qpack.DynamicTable) (hsize : input.length < 2 ^ 64)
    (hno : NoWrapBack input) :
    ∃ s, Qpack.decodeHeaderBlock cap input t (input.length + 1) = some s ∧
      s.headers.length ≤ input.length := by
  rw [Qpack.decodeHeaderBlock]
  cases hpre : Qpack.decodePrefix input t with
  | malformed => exact ⟨_, rfl, Nat.zero_le _⟩
  | blocked => exact ⟨_, rfl, Nat.zero_le _⟩
  | lines base c =>
    obtain ⟨s, hs, hbound⟩ := decodeLines_ends cap t base hsize hno (input.length + 1) c []
      (by omega) (decodePrefix_cursor hpre)
    rw [length_nil] at hbound
    exact ⟨s, hs, by omega⟩

theorem noWrapBack_progress (hsize : input.length < 2 ^ 64) (hno : NoWrapBack input) :
    Progress input where
  integer _ _ _ _ h := decodeInteger_advances h
  string c s e h := by
    have hspan := decodeString_some.mp ⟨s, h⟩
    exact ⟨spans_advances hsize hno hspan, spans_le hspan⟩
  instruction _ _ _ _ h := (applyEncoderInstruction_advances hsize hno h).1
  line _ _ _ _ _ _ _ hdrop h := decodeLine_advances hsize hno hdrop h
  hpackBlock cap t := by
    obtain ⟨d, hd, hheaders, htable⟩ :=
      decodeLoop_ends cap hsize hno (input.length + 1) 0 t [] (by omega) (Nat.zero_le _)
    rw [length_nil] at hheaders
    exact ⟨d, hd, by omega, by omega⟩
  qpackBlock cap t := qpackBlock_ends cap t hsize hno
  instructions t := by
    obtain ⟨t', e, hloop, -, he, hbound⟩ :=
      instructionLoop_ends hsize hno (input.length + 1) 0 t (by omega) (Nat.zero_le _)
    exact ⟨t', e, hloop, he, by omega⟩

theorem progress_noWrapBack (hsize : input.length < 2 ^ 64) (hp : Progress input) :
    NoWrapBack input where
  strings c e first rest hdrop hback := by
    obtain ⟨s, h⟩ := decodeString_some.mpr (fallsBack_spans hsize hdrop hback)
    have hlt := (hp.string c s e h).1
    obtain ⟨_, _, _, _, hle, _⟩ := hback
    omega
  inserts c first rest hdrop hpattern hback := by
    obtain ⟨f, e, h, hle⟩ := nameFallsBack_decodes hsize (by decide) hback
    -- the insertion succeeds on any table: the empty one will do
    have happly := applyEncoderInstruction_literal (t := {}) hdrop hpattern h
    have hlt := (hp.instruction c _ _ e happly).1
    omega
  lines c first rest hdrop h80 h40 h20 hback := by
    obtain ⟨f, e, h, hle⟩ := nameFallsBack_decodes hsize (by decide) hback
    have hline : Qpack.decodeLine input c {} 0 first.toNat = some (f, e) := by
      rw [decodeLine_literal h80 h40 h20, h]
    have hlt := (hp.line c _ _ first rest f e hdrop hline).1
    omega

/-- Header decoding makes progress on a byte string exactly when no length field of it
    falls back. -/
theorem progress_iff_noWrapBack (input : Bytes) (hsize : input.length < 2 ^ 64) :
    Progress input ↔ NoWrapBack input :=
  ⟨progress_noWrapBack hsize, noWrapBack_progress hsize⟩

/-- Seven bits a byte: an integer of few continuation bytes is small. -/
theorem decodeContinuation_small (h : decodeContinuation result m cursor rest = some (v, c')) :
    v + 2 ^ m ≤ result + 2 ^ (m + 7 * rest.length) := by
  induction rest generalizing result m cursor with
  | nil => rw [decodeContinuation] at h; cases h
  | cons b rest ih =>
    have hbits : (b.toNat &&& 0x7f) <<< m ≤ 127 * 2 ^ m := by
      rw [Nat.shiftLeft_eq]
      exact Nat.mul_le_mul_right _ Nat.and_le_right
    have hwrap : wrap (result + (b.toNat &&& 0x7f) <<< m) ≤ result + 127 * 2 ^ m :=
      le_trans (Nat.mod_le _ _) (Nat.add_le_add_left hbits result)
    have hnext : 2 ^ (m + 7) = 128 * 2 ^ m := by rw [Nat.pow_add, Nat.mul_comm]
    have hpow : 2 ^ (m + 7) ≤ 2 ^ (m + 7 * (b :: rest).length) :=
      Nat.pow_le_pow_right (by decide) (by rw [length_cons]; omega)
    rw [decodeContinuation] at h
    split at h
    · obtain ⟨rfl, -⟩ := Prod.mk.inj (Option.some.inj h)
      omega
    · split at h
      · cases h
      · have hrest := ih h
        have hexp : m + 7 + 7 * rest.length = m + 7 * (b :: rest).length := by
          rw [length_cons]
          omega
        rw [hexp] at hrest
        omega

/-- Nine bytes cannot hold a length that falls back. -/
theorem short_noWrapBack (h : input.length ≤ 9) : NoWrapBack input := by
  have hno : ∀ c p isHuffman e, p ≤ 8 → ¬ FallsBack input c p isHuffman e := by
    rintro c p isHuffman e hp ⟨len, c1, hint, hsum, -, -⟩
    have hc1 := (decodeInteger_advances hint).2
    suffices len ≤ 2 ^ 57 by omega
    rw [decodeInteger] at hint
    split at hint
    · cases hint
    · rename_i first rest hdrop
      have hrest := drop_cons_lt hdrop
      have hmax : 2 ^ p ≤ 2 ^ 8 := Nat.pow_le_pow_right (by decide) hp
      have hfirst : first.toNat &&& (2 ^ p - 1) ≤ 2 ^ p - 1 := Nat.and_le_right
      simp only at hint
      split at hint
      · obtain ⟨rfl, -⟩ := Prod.mk.inj (Option.some.inj hint)
        omega
      · have hsmall := decodeContinuation_small hint
        have hpow : 2 ^ (0 + 7 * rest.length) ≤ 2 ^ 56 :=
          Nat.pow_le_pow_right (by decide) (by omega)
        omega
  refine ⟨fun c e _ _ _ => hno c 7 _ e (by decide), ?_, ?_⟩
  · rintro c _ _ _ _ ⟨e, _, hback, _⟩
    exact hno c 5 _ e (by decide) hback
  · rintro c _ _ _ _ _ _ ⟨e, _, hback, _⟩
    exact hno c 3 _ e (by decide) hback

/-- Two indexed fields and a literal one. -/
theorem progress_three_fields : Progress [0x82, 0x86, 0x00, 1, 97, 1, 98] :=
  (progress_iff_noWrapBack _ (by decide)).mpr (short_noWrapBack (by decide))

/-- A literal field whose value claims `2 ^ 64 - 14` bytes: its length ends at byte 14. -/
def loopingBlock : Bytes := [0, 1, 97, 127, 243, 254, 255, 255, 255, 255, 255, 255, 255, 1]

theorem loopingBlock_round (t : DynamicTable) :
    decodeRound loopingBlock 0 t 0 = some ⟨some ([97], []), t, 0⟩ := rfl

/-- The decoder stays at the block's first line for ever. -/
theorem loopingBlock_loops (fuel : Nat) (t : DynamicTable) (headers : List Field) :
    decodeLoop 0 loopingBlock fuel 0 t headers = none := by
  induction fuel generalizing headers with
  | zero => rw [decodeLoop]
  | succ fuel ih =>
    have hcap : overLimit 0 headers = false := by simp [overLimit]
    rw [decodeLoop_round rfl hcap (loopingBlock_round t)]
    exact ih _

/-- The value of the field in `loopingBlock` moves the cursor from 3 back to 0, where the
    field starts, and without a cap on the list the decoder never ends. -/
theorem loopingBlock_no_progress :
    decodeString loopingBlock 3 = some ([], 0) ∧
      (∀ fuel, decodeLoop 0 loopingBlock fuel 0 {} [] = none) ∧ ¬ Progress loopingBlock := by
  refine ⟨rfl, fun fuel => loopingBlock_loops fuel {} [], fun hp => ?_⟩
  obtain ⟨d, hd, -⟩ := hp.hpackBlock 0 {}
  rw [loopingBlock_loops] at hd
  cases hd

end HeaderProgress
