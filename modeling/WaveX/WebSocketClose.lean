import WaveX.WebSocketMessages

/-! # Close payloads

    `close_payload` cuts a reason to 123 bytes with `utf8_prefix`, which walks back over
    continuation bytes.  The cut is the longest one that splits no sequence; in the encoding
    of a text such a cut falls between two characters, so what is left is the encoding of a
    text again, and the peer that receives the frame has nothing to refuse. -/

namespace WebSocketClose

open QuicVarInt WebSocketCodec WebSocketUtf8 WebSocketRead WebSocketMessages List

/-! ## Where a text may be cut -/

variable {s p t : Bytes} {b : UInt8} {n max : Nat}

/-- A continuation byte. -/
def Continues (b : UInt8) : Prop := b.toNat &&& 0xC0 = 0x80

/-- A cut after `n` bytes falls in front of a continuation byte. -/
def Splits (s : Bytes) (n : Nat) : Prop := 0 < n ∧ ∃ h : n < s.length, Continues s[n]

theorem continues_iff : Continues b ↔ b.toNat / 64 = 2 := (byte_masks b.toNat_lt).2.2.2.1

/-- A character starts with a byte that continues none, and goes on with such bytes. -/
theorem utf8EncodeChar_bytes (c : Char) : ∃ b tail, String.utf8EncodeChar c = b :: tail ∧
    ¬ Continues b ∧ ∀ x ∈ tail, Continues x := by
  have hvalid : c.val.toNat < 0xD800 ∨ (0xDFFF < c.val.toNat ∧ c.val.toNat < 0x110000) := c.valid
  simp only [continues_iff]
  rw [String.utf8EncodeChar]
  generalize c.val.toNat = v at hvalid
  split
  · refine ⟨_, [], rfl, ?_, forall_mem_nil _⟩
    rw [ofNat_toNat_lt (by omega)]
    omega
  · split
    · refine ⟨_, _, rfl, ?_, ?_⟩
      · rw [ofNat_toNat_lt (by omega)]
        omega
      · simp only [forall_mem_singleton]
        rw [ofNat_toNat_lt (by omega)]
        omega
    · split
      · refine ⟨_, _, rfl, ?_, ?_⟩
        · rw [ofNat_toNat_lt (by omega)]
          omega
        · simp only [forall_mem_cons, not_mem_nil, false_implies, implies_true, and_true]
          rw [ofNat_toNat_lt (by omega), ofNat_toNat_lt (by omega)]
          omega
      · refine ⟨_, _, rfl, ?_, ?_⟩
        · rw [ofNat_toNat_lt (by omega)]
          omega
        · simp only [forall_mem_cons, not_mem_nil, false_implies, implies_true, and_true]
          rw [ofNat_toNat_lt (by omega), ofNat_toNat_lt (by omega), ofNat_toNat_lt (by omega)]
          omega

/-- What follows a character in a text is a text. -/
theorem valid_tail {c : Char} (h : ValidUtf8 (String.utf8EncodeChar c ++ t)) : ValidUtf8 t := by
  obtain ⟨cs, hcs⟩ := h
  have hround := utf8Round_complete c t
  rw [hcs] at hround
  cases cs with
  | nil => cases hround
  | cons c₀ cs =>
      rw [flatMap_cons, utf8Round_complete] at hround
      exact ⟨cs, (Option.some.inj hround).symm⟩

/-- What follows a text in a text is a text. -/
theorem valid_drop (hp : ValidUtf8 p) (h : ValidUtf8 (p ++ t)) : ValidUtf8 t := by
  obtain ⟨cs, rfl⟩ := hp
  induction cs with
  | nil => exact h
  | cons c cs ih =>
      rw [flatMap_cons, append_assoc] at h
      exact ih (valid_tail h)

theorem valid_first (h : ValidUtf8 (b :: t)) : ¬ Continues b := by
  obtain ⟨cs, hcs⟩ := h
  cases cs with
  | nil => cases hcs
  | cons c cs =>
      obtain ⟨first, tail, hc, hfirst, -⟩ := utf8EncodeChar_bytes c
      rw [flatMap_cons, hc] at hcs
      cases hcs
      exact hfirst

/-- **The cuts of a text**: those that split no sequence leave a text. -/
theorem valid_take_iff (h : ValidUtf8 s) (hn : n ≤ s.length) :
    ValidUtf8 (s.take n) ↔ ¬ Splits s n := by
  constructor
  · rintro htake ⟨-, hlt, hsplit⟩
    have hrest := valid_drop (t := s.drop n) htake (by rw [take_append_drop]; exact h)
    rw [drop_eq_getElem_cons hlt] at hrest
    exact valid_first hrest hsplit
  · intro hwhole
    obtain ⟨cs, rfl⟩ := h
    induction cs generalizing n with
    | nil =>
        rw [flatMap_nil, take_nil]
        exact ⟨[], rfl⟩
    | cons c cs ih =>
        obtain ⟨first, tail, hc, -, htail⟩ := utf8EncodeChar_bytes c
        rw [flatMap_cons, length_append] at hn
        rw [flatMap_cons] at hwhole ⊢
        by_cases hzero : n = 0
        · rw [hzero]
          exact ⟨[], rfl⟩
        · by_cases hinside : n < (String.utf8EncodeChar c).length
          · -- the cut would be inside of the character
            refine absurd ⟨Nat.pos_of_ne_zero hzero, ?_, ?_⟩ hwhole
            · rw [length_append]
              omega
            · rw [getElem_append_left hinside]
              obtain ⟨m, rfl⟩ := Nat.exists_eq_succ_of_ne_zero hzero
              simp only [hc, getElem_cons_succ]
              exact htail _ (getElem_mem _)
          · obtain ⟨m, rfl⟩ := Nat.exists_eq_add_of_le (Nat.not_lt.mp hinside)
            rw [take_length_add_append]
            obtain ⟨cs', hcs'⟩ := ih (n := m) (by omega) (by
              rintro ⟨hpos, hlt, hsplit⟩
              refine hwhole ⟨by omega, ?_, ?_⟩
              · rw [length_append]
                omega
              · rw [getElem_append_right (by omega)]
                simp only [Nat.add_sub_cancel_left]
                exact hsplit)
            exact ⟨c :: cs', by rw [flatMap_cons, hcs']⟩

/-! ## `utf8_prefix` -/

/-- The walk back ends at the last cut that splits no sequence. -/
theorem utf8Cut_last (s : Bytes) (max : Nat) (h : max < s.length) :
    utf8Cut s max ≤ max ∧ ¬ Splits s (utf8Cut s max) ∧
      ∀ m ≤ max, ¬ Splits s m → m ≤ utf8Cut s max := by
  induction max with
  | zero =>
      refine ⟨Nat.le_refl 0, ?_, fun m hm _ => hm⟩
      rintro ⟨hpos, -⟩
      exact Nat.lt_irrefl 0 hpos
  | succ cut ih =>
      have hbyte : s.getD (cut + 1) 0 = s[cut + 1] := by
        rw [getD_eq_getElem?_getD, getElem?_eq_getElem h, Option.getD_some]
      rw [utf8Cut, hbyte]
      by_cases hsplit : s[cut + 1].toNat &&& 0xC0 = 0x80
      · rw [if_pos hsplit]
        obtain ⟨hle, hends, hlast⟩ := ih (by omega)
        refine ⟨Nat.le_succ_of_le hle, hends, fun m hm hwhole => ?_⟩
        have hne : m ≠ cut + 1 := by
          rintro rfl
          exact hwhole ⟨Nat.succ_pos cut, h, hsplit⟩
        exact hlast m (by omega) hwhole
      · rw [if_neg hsplit]
        refine ⟨Nat.le_refl _, ?_, fun m hm _ => hm⟩
        rintro ⟨-, hlt, hcontinues⟩
        exact hsplit hcontinues

/-- The longest prefix within a bound that splits no sequence. -/
structure LongestWhole (max : Nat) (s head : Bytes) : Prop where
  front : head <+: s
  bounded : head.length ≤ max
  whole : ¬ Splits s head.length
  longest : ∀ p, p <+: s → p.length ≤ max → ¬ Splits s p.length → p.length ≤ head.length

/-- **`utf8_prefix`** is that prefix. -/
theorem utf8Head_longest (s : Bytes) (max : Nat) : LongestWhole max s (utf8Head s max) := by
  rw [utf8Head]
  by_cases hfits : s.length ≤ max
  · rw [if_pos hfits]
    refine ⟨prefix_refl s, hfits, ?_, fun p hp _ _ => hp.length_le⟩
    rintro ⟨-, hlt, -⟩
    exact Nat.lt_irrefl _ hlt
  · rw [if_neg hfits]
    obtain ⟨hle, hends, hlast⟩ := utf8Cut_last s max (Nat.not_le.mp hfits)
    have hlength : (s.take (utf8Cut s max)).length = utf8Cut s max :=
      length_take_of_le (by omega)
    refine ⟨List.take_prefix _ _, ?_, ?_, ?_⟩
    · omega
    · rw [hlength]
      exact hends
    · intro p _ hbounded hwhole
      rw [hlength]
      exact hlast p.length hbounded hwhole

/-- The longest prefix within a bound that is a text. -/
structure LongestText (max : Nat) (s head : Bytes) : Prop where
  front : head <+: s
  bounded : head.length ≤ max
  text : ValidUtf8 head
  longest : ∀ p, p <+: s → p.length ≤ max → ValidUtf8 p → p.length ≤ head.length

/-- Of a text, the two are the same. -/
theorem LongestWhole.text {head : Bytes} (h : LongestWhole max s head) (hs : ValidUtf8 s) :
    LongestText max s head := by
  have hcut : ∀ p, p <+: s → (ValidUtf8 p ↔ ¬ Splits s p.length) := by
    intro p hp
    have htake := valid_take_iff hs hp.length_le
    rw [← prefix_iff_eq_take.mp hp] at htake
    exact htake
  refine ⟨h.front, h.bounded, (hcut _ h.front).mpr h.whole, ?_⟩
  intro p hp hbounded htext
  exact h.longest p hp hbounded ((hcut p hp).mp htext)

/-! ## Close payloads -/

variable {code : Nat} {reason : Bytes}

/-- A code that is valid is sent, and read back. -/
theorem parseClosePayload_closePayload (hcode : isValidCloseCode code = true) (reason : Bytes) :
    closePayload code reason = byteAt code 1 :: byteAt code 0 :: utf8Head reason 123 ∧
      parseClosePayload (closePayload code reason) = some (code, utf8Head reason 123) := by
  have hranges := hcode
  simp only [isValidCloseCode, Bool.or_eq_true, Bool.and_eq_true, decide_eq_true_eq] at hranges
  have hsent : closePayload code reason =
      byteAt code 1 :: byteAt code 0 :: utf8Head reason 123 := by
    rw [closePayload, noStatus, abnormal, if_neg]
    simp only [Bool.or_eq_true, decide_eq_true_eq]
    omega
  have hread : ((byteAt code 1).toNat <<< 8) ||| (byteAt code 0).toNat = code := by
    rw [shift_or_byte, byteAt_toNat, byteAt_toNat]
    omega
  refine ⟨hsent, ?_⟩
  rw [hsent, parseClosePayload]
  simp only [hread, hcode, if_true]

/-- **Close payloads.**  The payload of a valid code and a text fits into a control frame
    and is read back as the code and the longest part of the text that fits; so whatever a
    reader is doing when the frame arrives, it closes with them and refuses nothing. -/
theorem close_payload_accepted (code : Nat) (reason : Bytes)
    (hcode : isValidCloseCode code = true) (hreason : ValidUtf8 reason) :
    (closePayload code reason).length ≤ 125 ∧
      ∃ kept, parseClosePayload (closePayload code reason) = some (code, kept) ∧
        LongestText 123 reason kept ∧
        ∀ (opts : Options) (r : Reader) (started : Option (Opcode × Bytes))
          (arrivals : List Arrival) (key : UInt32) (rest : Bytes),
          Standing r started → Successful arrivals →
          stream r arrivals =
            received opts.role .close (closePayload code reason) true key ++ rest →
          ∃ r₁ arrivals₁, r₁.readClosed = true ∧ r₁.closeCode = code ∧ r₁.closeReason = kept ∧
            read opts r arrivals = ⟨some (.error .closed), r₁, arrivals₁, [.close code]⟩ := by
  obtain ⟨hsent, hparsed⟩ := parseClosePayload_closePayload hcode reason
  have hkept := (utf8Head_longest reason 123).text hreason
  have hshort : (closePayload code reason).length ≤ 125 := by
    have hbounded := hkept.bounded
    rw [hsent, length_cons, length_cons]
    omega
  refine ⟨hshort, utf8Head reason 123, hparsed, hkept, ?_⟩
  intro opts r started arrivals key rest hs ha hstream
  exact read_close hs ha hshort hparsed hkept.text hstream

/-- A reason of 124 bytes, with a cut after 123 of them in its last character. -/
theorem close_payload_accepted_cut :
    (closePayload 1000 (List.replicate 122 0x61 ++ [0xC3, 0xA9])).length ≤ 125 ∧
      LongestText 123 (List.replicate 122 0x61 ++ [0xC3, 0xA9]) (List.replicate 122 0x61) := by
  obtain ⟨hlength, kept, hparsed, hkept, -⟩ :=
    close_payload_accepted 1000 (List.replicate 122 0x61 ++ [0xC3, 0xA9]) (by decide)
      ((isValidUtf8_iff _).mp (by decide +kernel))
  have hread : parseClosePayload (closePayload 1000 (List.replicate 122 0x61 ++ [0xC3, 0xA9])) =
      some (1000, List.replicate 122 0x61) := by decide +kernel
  rw [hread] at hparsed
  cases hparsed
  exact ⟨hlength, hkept⟩

end WebSocketClose
