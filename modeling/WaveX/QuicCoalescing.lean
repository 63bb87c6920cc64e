import WaveX.QuicRuns

/-! # Coalescing packets into datagrams and splitting them again

    `poll_outgoing_datagrams` puts several packets into one datagram, and the loop of
    `handle_datagram` finds their boundaries again.  The coalescer looks at the first
    byte and the size of a packet; the splitter at the header, whose low bits header
    protection has masked, and at the Length field.

    A sealed packet shows what both need (`LongShape`, `ShortShape`): the bits header
    protection leaves alone, the bytes up to the packet number, and a Length that
    reaches the end of the packet.  The coalescer concatenates groups of packets
    (`coalesce_groups`), and the splitter recovers each group (`splitDatagram_flatten`).
    What a poll does not return it holds back: the budget of an unvalidated client
    (`releaseReady_held`). -/

namespace QuicCoalescing

open QuicVarInt QuicFrames QuicPacket QuicCrypto QuicState QuicSend QuicReceive QuicRuns List

/-! ## The first byte under header protection -/

/-- The form bit of a first byte. -/
def formBit (first : UInt8) : Bool := first.toNat &&& 0x80 != 0

/-- Header protection leaves the three high bits alone. -/
theorem mask_shift_five (first m : UInt8) (isLong : Bool) :
    (first ^^^ (m &&& firstByteMask isLong)).toNat >>> 5 = first.toNat >>> 5 := by
  have hzero : (m &&& firstByteMask isLong).toNat >>> 5 = 0 := by
    rw [Nat.shiftRight_eq_div_pow]
    apply Nat.div_eq_of_lt
    have hle : (m &&& firstByteMask isLong).toNat ≤ (firstByteMask isLong).toNat := by
      rw [UInt8.toNat_and]
      exact Nat.and_le_right
    have hmask : (firstByteMask isLong).toNat < 2 ^ 5 := by cases isLong <;> decide
    exact Nat.lt_of_le_of_lt hle hmask
  rw [UInt8.toNat_xor, Nat.shiftRight_xor_distrib, hzero, Nat.xor_zero]

/-- Header protection of a long header leaves the four high bits alone. -/
theorem mask_shift_four (first m : UInt8) :
    (first ^^^ (m &&& firstByteMask true)).toNat >>> 4 = first.toNat >>> 4 := by
  have hzero : (m &&& firstByteMask true).toNat >>> 4 = 0 := by
    rw [Nat.shiftRight_eq_div_pow]
    apply Nat.div_eq_of_lt
    rw [UInt8.toNat_and]
    exact Nat.lt_of_le_of_lt Nat.and_le_right (by decide)
  rw [UInt8.toNat_xor, Nat.shiftRight_xor_distrib, hzero, Nat.xor_zero]

/-- The form bit is one of the three high bits. -/
theorem formBit_eq_of_shift {a b : UInt8} (h : a.toNat >>> 5 = b.toNat >>> 5) :
    formBit a = formBit b := by
  have hbit : ∀ c : UInt8, formBit c = (c.toNat >>> 5).testBit 2 := by
    intro c
    rw [Nat.testBit_shiftRight]
    show (c.toNat &&& 2 ^ 7 != 0) = c.toNat.testBit 7
    rw [Nat.and_two_pow]
    cases c.toNat.testBit 7 <;> rfl
  rw [hbit, hbit, h]

/-- The packet type sits in the four high bits. -/
theorem ofLongBits_eq_of_shift {a b : UInt8} (h : a.toNat >>> 4 = b.toNat >>> 4) :
    PacketType.ofLongBits a.toNat = PacketType.ofLongBits b.toNat := by
  rw [PacketType.ofLongBits, PacketType.ofLongBits, h]

/-- The first byte of a long header. -/
def longFirst (hdr : PacketHeader) : UInt8 :=
  UInt8.ofNat (0xc0 ||| ((hdr.type.code &&& 0x03) <<< 4) ||| ((hdr.packetNumberLen - 1) &&& 0x03))

/-- The first byte of a short header. -/
def shortFirst (hdr : PacketHeader) : UInt8 :=
  UInt8.ofNat (0x40 ||| (if hdr.keyPhase then 0x04 else 0) ||| ((hdr.packetNumberLen - 1) &&& 0x03))

/-- The types a long header can name. -/
def namesLongType : PacketType → Bool
  | .initial | .zeroRtt | .handshake | .retry => true
  | .oneRtt | .versionNegotiation => false

theorem longFirst_bits {hdr : PacketHeader} (h : namesLongType hdr.type = true) :
    formBit (longFirst hdr) = true ∧ PacketType.ofLongBits (longFirst hdr).toNat = hdr.type := by
  have hlow : (hdr.packetNumberLen - 1) &&& 0x03 < 4 :=
    Nat.lt_of_le_of_lt Nat.and_le_right (by decide)
  rw [longFirst]
  revert hlow h
  generalize (hdr.packetNumberLen - 1) &&& 0x03 = low
  intro h hlow
  revert low
  cases htype : hdr.type with
  | oneRtt => rw [htype] at h; exact absurd h Bool.false_ne_true
  | versionNegotiation => rw [htype] at h; exact absurd h Bool.false_ne_true
  | _ => decide

theorem shortFirst_bits (hdr : PacketHeader) : formBit (shortFirst hdr) = false := by
  have hlow : (hdr.packetNumberLen - 1) &&& 0x03 < 4 :=
    Nat.lt_of_le_of_lt Nat.and_le_right (by decide)
  rw [shortFirst]
  revert hlow
  generalize (hdr.packetNumberLen - 1) &&& 0x03 = low
  revert low
  cases hdr.keyPhase <;> decide

/-! ## The shape of a sealed packet -/

/-- The bytes of a long header between the first byte and the packet number. -/
def longBody (hdr : PacketHeader) : Bytes :=
  [byteAt hdr.version 3, byteAt hdr.version 2, byteAt hdr.version 1, byteAt hdr.version 0]
    ++ UInt8.ofNat hdr.dcid.length :: hdr.dcid.bytes
    ++ UInt8.ofNat hdr.scid.length :: hdr.scid.bytes
    ++ (if hdr.type = .initial then encode hdr.token.length ++ hdr.token else [])
    ++ encode hdr.length

theorem packPacketNumber_length (pn len : Nat) : (packPacketNumber pn len).length = len := by
  induction len with
  | zero => rfl
  | succ len ih => rw [packPacketNumber, length_cons, ih]

/-- The bytes of a long header. -/
theorem packPacketHeader_long {hdr : PacketHeader} (h : hdr.isLong = true) :
    packPacketHeader hdr
      = longFirst hdr :: (longBody hdr
          ++ packPacketNumber hdr.packetNumber hdr.packetNumberLen) := by
  rw [packPacketHeader, if_pos h]
  simp only [longFirst, longBody, cons_append, nil_append, append_assoc]

/-- The bytes of a short header. -/
theorem packPacketHeader_short {hdr : PacketHeader} (h : hdr.isLong = false) :
    packPacketHeader hdr
      = shortFirst hdr :: (hdr.dcid.bytes
          ++ packPacketNumber hdr.packetNumber hdr.packetNumberLen) := by
  rw [packPacketHeader, if_neg (by rw [h]; exact Bool.false_ne_true)]
  simp only [shortFirst, cons_append, nil_append]

theorem xorBytes_length (bytes mask : Bytes) : (xorBytes bytes mask).length = bytes.length := by
  rw [xorBytes, length_append, length_zipWith, length_drop]
  omega

/-- Header protection of a packet whose packet number follows `body`: only the low
    bits of the first byte and bytes after `body` change. -/
theorem protectHeader_shape {K : Type} (ops : CryptoOps K) (k : K) (isLong : Bool) (pnLen : Nat)
    (first : UInt8) (body tl : Bytes) :
    ∃ first' tl', protectHeader ops k isLong (1 + body.length) pnLen (first :: (body ++ tl))
        = first' :: (body ++ tl') ∧ tl'.length = tl.length
      ∧ (first' = first ∨ ∃ m, first' = first ^^^ (m &&& firstByteMask isLong)) := by
  rw [protectHeader]
  split
  · exact ⟨first, tl, rfl, rfl, Or.inl rfl⟩
  · split
    · exact ⟨first, tl, rfl, rfl, Or.inl rfl⟩
    · next mask hmask =>
      refine ⟨first ^^^ (mask.headD 0 &&& firstByteMask isLong),
        xorBytes tl ((mask.drop 1).take pnLen), ?_, xorBytes_length _ _, Or.inr ⟨_, rfl⟩⟩
      simp only [applyHeaderMask, Nat.add_sub_cancel_left, take_left, drop_left]

/-- A packet with a long header, as the splitter reads it: `tl` is what the Length field
    counts. -/
def LongShape (hdr : PacketHeader) (packet : Bytes) : Prop :=
  ∃ first tl, packet = first :: (longBody hdr ++ tl) ∧ tl.length = hdr.length
    ∧ first.toNat >>> 4 = (longFirst hdr).toNat >>> 4

/-- A packet with a short header that leaves room for a connection id of `cidLen` bytes. -/
def ShortShape (cidLen : Nat) (packet : Bytes) : Prop :=
  ∃ first rest, packet = first :: rest ∧ formBit first = false
    ∧ (if cidLen > 0 then cidLen else 8) ≤ rest.length

/-- A header the code seals packets with, for a receiver whose connection ids have
    `cidLen` bytes: a long header names a long type and its lengths fit their fields, a
    short header leaves room for the receiver's connection id. -/
structure Sealable (cidLen : Nat) (hdr : PacketHeader) (plaintextLen : Nat) : Prop where
  longType : hdr.isLong = true → namesLongType hdr.type = true
  fits : hdr.isLong = true → hdr.token.length < 2 ^ 31 ∧ hdr.packetNumberLen < 2 ^ 8
    ∧ plaintextLen < 2 ^ 31
  reaches : hdr.isLong = false → cidLen ≤ hdr.dcid.length + 17

/-- AES-128-GCM appends a tag of 16 bytes. -/
def TagOfSixteen {K : Type} (ops : CryptoOps K) : Prop :=
  ∀ k nonce aad plaintext out, ops.encrypt k nonce aad plaintext = some out →
    out.length = plaintext.length + 16

variable {K : Type} {ops : CryptoOps K} {keys : ProtectionKeys K} {hdr : PacketHeader}
  {plaintext packet : Bytes} {cidLen : Nat}

theorem mutableHdr_packetNumberLen_pos (hdr : PacketHeader) (n : Nat) :
    1 ≤ (mutableHdr hdr n).packetNumberLen := by
  simp only [mutableHdr]
  split <;> omega

/-- What `protect_packet` returns: the packed header and the ciphertext, with header
    protection applied. -/
theorem protectPacket_eq (h : protectPacket ops keys hdr plaintext = some packet) :
    ∃ out, ops.encrypt keys.material
          (nonce (ops.iv keys.material) (mutableHdr hdr plaintext.length).packetNumber)
          (packPacketHeader (mutableHdr hdr plaintext.length)) plaintext = some out
      ∧ packet = protectHeader ops keys.material (mutableHdr hdr plaintext.length).isLong
          ((packPacketHeader (mutableHdr hdr plaintext.length)).length
            - (mutableHdr hdr plaintext.length).packetNumberLen)
          (mutableHdr hdr plaintext.length).packetNumberLen
          (packPacketHeader (mutableHdr hdr plaintext.length) ++ out) := by
  rw [protectPacket] at h
  split at h
  · simp only [Option.map_eq_some_iff] at h
    obtain ⟨out, hout, heq⟩ := h
    exact ⟨out, hout, heq.symm⟩
  · exact nomatch h

/-- A sealed long-header packet. -/
theorem longShape_of_protectPacket (htag : TagOfSixteen ops) (hlong : hdr.isLong = true)
    (h : protectPacket ops keys hdr plaintext = some packet) :
    LongShape (mutableHdr hdr plaintext.length) packet := by
  obtain ⟨out, hout, rfl⟩ := protectPacket_eq h
  have hlen := htag _ _ _ _ _ hout
  have hlong' : (mutableHdr hdr plaintext.length).isLong = true := hlong
  rw [packPacketHeader_long hlong']
  generalize hm : mutableHdr hdr plaintext.length = m at *
  have hoffset : (longFirst m :: (longBody m ++ packPacketNumber m.packetNumber
      m.packetNumberLen)).length - m.packetNumberLen = 1 + (longBody m).length := by
    rw [length_cons, length_append, packPacketNumber_length]
    omega
  rw [hoffset, cons_append, append_assoc]
  obtain ⟨first, tl, heq, htl, hfirst⟩ := protectHeader_shape ops keys.material m.isLong
    m.packetNumberLen (longFirst m) (longBody m)
    (packPacketNumber m.packetNumber m.packetNumberLen ++ out)
  refine ⟨first, tl, heq, ?_, ?_⟩
  · have hlength : m.length = plaintext.length + 16 + m.packetNumberLen := by
      rw [← hm]
      simp only [mutableHdr, hlong, if_true]
    rw [htl, length_append, packPacketNumber_length, hlen, hlength]
    omega
  · rcases hfirst with rfl | ⟨mask, rfl⟩
    · rfl
    · rw [hlong', mask_shift_four]

/-- A sealed short-header packet. -/
theorem shortShape_of_protectPacket (htag : TagOfSixteen ops) (hlong : hdr.isLong = false)
    (hcid : cidLen ≤ hdr.dcid.length + 17)
    (h : protectPacket ops keys hdr plaintext = some packet) : ShortShape cidLen packet := by
  obtain ⟨out, hout, rfl⟩ := protectPacket_eq h
  have hlen := htag _ _ _ _ _ hout
  have hshort : (mutableHdr hdr plaintext.length).isLong = false := hlong
  have hpn := mutableHdr_packetNumberLen_pos hdr plaintext.length
  have hdcid : (mutableHdr hdr plaintext.length).dcid = hdr.dcid := rfl
  rw [packPacketHeader_short hshort]
  generalize mutableHdr hdr plaintext.length = m at *
  have hoffset : (shortFirst m :: (m.dcid.bytes ++ packPacketNumber m.packetNumber
      m.packetNumberLen)).length - m.packetNumberLen = 1 + m.dcid.bytes.length := by
    rw [length_cons, length_append, packPacketNumber_length]
    omega
  rw [hoffset, cons_append, append_assoc]
  obtain ⟨first, tl, heq, htl, hfirst⟩ := protectHeader_shape ops keys.material m.isLong
    m.packetNumberLen (shortFirst m) m.dcid.bytes
    (packPacketNumber m.packetNumber m.packetNumberLen ++ out)
  refine ⟨first, _, heq, ?_, ?_⟩
  · rw [← shortFirst_bits m]
    rcases hfirst with rfl | ⟨mask, rfl⟩
    · rfl
    · exact formBit_eq_of_shift (mask_shift_five _ _ _)
  · rw [length_append, htl, length_append, packPacketNumber_length, hlen, hdcid]
    have hbytes : hdr.dcid.length = hdr.dcid.bytes.length := rfl
    split <;> omega

/-! ## The splitter on a sealed packet -/

theorem unpackCid_append (cid : ConnectionId) (rest : Bytes) :
    unpackCid (UInt8.ofNat cid.length :: (cid.bytes ++ rest)) = some (cid, rest) := by
  have hle : cid.bytes.length ≤ 20 := cid.length_le
  have hlen : (UInt8.ofNat cid.length).toNat = cid.bytes.length := by
    rw [UInt8.toNat_ofNat', ConnectionId.length]
    omega
  have hcid : ConnectionId.ofBytes cid.bytes = cid := by
    obtain ⟨bytes, hbytes⟩ := cid
    simp only [ConnectionId.ofBytes, take_of_length_le hbytes]
  simp only [unpackCid, hlen]
  rw [if_neg (by rw [length_append]; simp only [maxConnectionIdLen]; omega),
    take_left, drop_left, hcid]

theorem unpackToken_append {token : Bytes} (h : token.length < 2 ^ 62) (rest : Bytes) :
    unpackToken (encode token.length ++ (token ++ rest)) = some (token, rest) := by
  simp only [unpackToken, decode_encode h, Option.bind_eq_bind, Option.bind_some]
  rw [if_neg (by rw [length_append]; omega), take_left, drop_left]

/-- The header that is read where a long header was packed, whatever the masked bits of its
    first byte. -/
theorem unpackPacketHeader_packed {m : PacketHeader} {first : UInt8}
    (hfirst : first.toNat >>> 4 = (longFirst m).toNat >>> 4)
    (htype : namesLongType m.type = true) (htoken : m.token.length < 2 ^ 62)
    (hlength : m.length < 2 ^ 62) (rest : Bytes) (cidLen : Nat) :
    unpackPacketHeader (first :: (longBody m ++ rest)) cidLen
      = some
          { token := if m.type = .initial then m.token else []
            length := m.length
            packetNumber :=
              if rest.length < (first.toNat &&& 0x03) + 1 then 0
              else beNat (rest.take ((first.toNat &&& 0x03) + 1))
            version := beNat [byteAt m.version 3, byteAt m.version 2, byteAt m.version 1,
              byteAt m.version 0]
            pnOffset := (first :: (longBody m ++ rest)).length - rest.length
            dcid := m.dcid
            scid := m.scid
            type := m.type
            packetNumberLen := (first.toNat &&& 0x03) + 1
            isLong := true } := by
  obtain ⟨hform, hbits⟩ := longFirst_bits htype
  have hlong : (first.toNat &&& 0x80 != 0) = true := by
    have hshift : first.toNat >>> 5 = (longFirst m).toNat >>> 5 := by
      rw [Nat.shiftRight_add _ 4 1, hfirst, ← Nat.shiftRight_add]
    exact (formBit_eq_of_shift hshift).trans hform
  have hkind : PacketType.ofLongBits first.toNat = m.type :=
    (ofLongBits_eq_of_shift hfirst).trans hbits
  simp only [longBody, cons_append, nil_append, append_assoc,
    unpackPacketHeader, hlong, if_true, hkind, take_succ_cons, take_zero,
    drop_succ_cons, drop_zero, unpackCid_append, Option.bind_eq_bind,
    Option.bind_some]
  rw [if_neg (by simp only [length_cons]; omega)]
  -- only an Initial packet has a token
  by_cases hinit : m.type = .initial
  · simp only [hinit, if_true, append_assoc, unpackToken_append htoken,
      decode_encode hlength, Option.bind_some]
  · simp only [hinit, if_false, nil_append, decode_encode hlength, Option.bind_some]

/-- The header of a packet with a long header is read whatever follows the packet, and its
    Length reaches the packet's end. -/
theorem unpackPacketHeader_long {m : PacketHeader} (h : LongShape m packet)
    (htype : namesLongType m.type = true) (htoken : m.token.length < 2 ^ 62)
    (hlength : m.length < 2 ^ 62) (more : Bytes) (cidLen : Nat) :
    ∃ hdr', unpackPacketHeader (packet ++ more) cidLen = some hdr' ∧ hdr'.isLong = true
      ∧ hdr'.length = m.length ∧ hdr'.pnOffset + m.length = packet.length := by
  obtain ⟨first, tl, rfl, htl, hfirst⟩ := h
  have hread := unpackPacketHeader_packed hfirst htype htoken hlength (tl ++ more) cidLen
  rw [← append_assoc, ← cons_append] at hread
  refine ⟨_, hread, rfl, rfl, ?_⟩
  simp only [length_append, length_cons] at htl ⊢
  omega

/-- `packetSize` of a long-header packet at the start of the datagram is its length. -/
theorem packetSize_long {m : PacketHeader} (h : LongShape m packet)
    (htype : namesLongType m.type = true) (htoken : m.token.length < 2 ^ 62)
    (hlength : m.length < 2 ^ 62) (hpos : 0 < m.length) (more : Bytes) (cidLen : Nat) :
    ∃ hdr', unpackPacketHeader (packet ++ more) cidLen = some hdr'
      ∧ packetSize hdr' (packet ++ more) = packet.length := by
  obtain ⟨hdr', hread, hlong, hlen, hend⟩ :=
    unpackPacketHeader_long h htype htoken hlength more cidLen
  refine ⟨hdr', hread, ?_⟩
  have hfits : packet.length ≤ (packet ++ more).length := by
    rw [length_append]
    omega
  simp only [packetSize, hlong, hlen, hend, hpos, hfits, decide_true, Bool.and_true, if_true]

/-- `packetSize` of a short-header packet is everything that is left. -/
theorem packetSize_short (h : ShortShape cidLen packet) :
    ∃ hdr', unpackPacketHeader packet cidLen = some hdr'
      ∧ packetSize hdr' packet = packet.length := by
  obtain ⟨first, rest, rfl, hform, hroom⟩ := h
  have hshort : (first.toNat &&& 0x80 != 0) = false := hform
  simp only [unpackPacketHeader, hshort, Bool.false_eq_true, if_false]
  rw [if_neg (Nat.not_lt.mpr hroom)]
  exact ⟨_, rfl, rfl⟩

/-! ## Sealed packets -/

/-- A packet produced by `protect_packet` for a receiver whose connection ids have
    `cidLen` bytes. -/
def Sealed (ops : CryptoOps K) (cidLen : Nat) (packet : Bytes) : Prop :=
  ∃ keys hdr plaintext, Sealable cidLen hdr plaintext.length
    ∧ protectPacket ops keys hdr plaintext = some packet

/-- The header form of a packet, as the coalescer reads it. -/
def isLongPacket (packet : Bytes) : Bool := formBit (packet.headD 0)

/-- What the coalescer and the splitter use of a sealed packet: it is not empty, a
    long-header packet is found whatever follows it, a short-header packet when it ends
    the datagram. -/
structure Splittable (cidLen : Nat) (packet : Bytes) : Prop where
  nonempty : packet ≠ []
  long : isLongPacket packet = true → ∀ more, ∃ hdr,
    unpackPacketHeader (packet ++ more) cidLen = some hdr
      ∧ packetSize hdr (packet ++ more) = packet.length
  short : isLongPacket packet = false → ∃ hdr,
    unpackPacketHeader packet cidLen = some hdr ∧ packetSize hdr packet = packet.length

/-- A sealed packet says where it ends. -/
theorem Sealed.splittable (htag : TagOfSixteen ops) (h : Sealed ops cidLen packet) :
    Splittable cidLen packet := by
  obtain ⟨keys, hdr, plaintext, hok, hseal⟩ := h
  cases hlong : hdr.isLong with
  | true =>
      have hshape := longShape_of_protectPacket htag hlong hseal
      have htype : namesLongType (mutableHdr hdr plaintext.length).type = true :=
        hok.longType hlong
      obtain ⟨htoken, hpn, hplain⟩ := hok.fits hlong
      have hlen : (mutableHdr hdr plaintext.length).length
          = plaintext.length + 16 + (mutableHdr hdr plaintext.length).packetNumberLen := by
        simp only [mutableHdr, hlong, if_true]
      have hpnLen : (mutableHdr hdr plaintext.length).packetNumberLen < 2 ^ 8 := by
        simp only [mutableHdr]
        split
        · decide
        · exact hpn
      have hsize := packetSize_long hshape htype (show hdr.token.length < 2 ^ 62 by omega)
        (by omega) (by omega)
      obtain ⟨first, tl, heq, -, hfirst⟩ := hshape
      have hform : isLongPacket packet = true := by
        have hshift : first.toNat >>> 5
            = (longFirst (mutableHdr hdr plaintext.length)).toNat >>> 5 := by
          rw [Nat.shiftRight_add _ 4 1, hfirst, ← Nat.shiftRight_add]
        rw [heq]
        exact (formBit_eq_of_shift hshift).trans (longFirst_bits htype).1
      refine ⟨by rw [heq]; exact cons_ne_nil _ _, fun _ more => hsize more cidLen, ?_⟩
      intro hshort
      exact absurd (hshort.symm.trans hform) Bool.false_ne_true
  | false =>
      have hshape := shortShape_of_protectPacket htag hlong (hok.reaches hlong) hseal
      have hsize := packetSize_short hshape
      obtain ⟨first, rest, heq, hform, -⟩ := hshape
      refine ⟨by rw [heq]; exact cons_ne_nil _ _, ?_, fun _ => hsize⟩
      intro hl
      rw [heq] at hl
      exact absurd (hform.symm.trans hl) Bool.false_ne_true

/-! ## The splitting loop -/

/-- The splitting loop of `handle_datagram`: the packets it takes off the datagram, for a
    receiver whose connection ids have `cidLen` bytes. -/
def splitDatagram (cidLen : Nat) : Nat → Bytes → List Bytes
  | 0, _ => []
  | fuel + 1, remaining =>
      if remaining.isEmpty then []
      else
        match unpackPacketHeader remaining cidLen with
        | none => []
        | some hdr =>
            remaining.take (packetSize hdr remaining)
              :: splitDatagram cidLen fuel (remaining.drop (packetSize hdr remaining))

/-- The loop of `handle_datagram` hands the packets of `splitDatagram` to the packet
    handler: one round takes the first one and goes on with the rest. -/
theorem packetLoop_split (env : Env K) (drain : QuicConnection K → QuicConnection K) (fuel : Nat)
    (s : QuicConnection K) (created : List Nat) {remaining first : Bytes} {rest : List Bytes}
    (hopen : s.state ≠ .closed)
    (h : splitDatagram s.localCid.length (fuel + 1) remaining = first :: rest) :
    ∃ hdr, unpackPacketHeader remaining s.localCid.length = some hdr
      ∧ splitDatagram s.localCid.length fuel (remaining.drop first.length) = rest
      ∧ packetLoop env drain (fuel + 1) s created remaining
        = (let r := handlePacket env drain s created hdr first
          if r.2.2 then r
          else packetLoop env drain fuel r.1 r.2.1 (remaining.drop first.length)) := by
  rw [splitDatagram] at h
  split at h
  · exact nomatch h
  · next hne =>
    cases hread : unpackPacketHeader remaining s.localCid.length with
    | none => rw [hread] at h; exact nomatch h
    | some hdr =>
        rw [hread] at h
        obtain ⟨hfirst, hrest⟩ := List.cons.inj h
        have hle : packetSize hdr remaining ≤ remaining.length := by
          rw [packetSize]
          split
          · next hfit => simp only [Bool.and_eq_true, decide_eq_true_eq] at hfit; exact hfit.2
          · exact Nat.le_refl _
        have hlen : first.length = packetSize hdr remaining := by
          rw [← hfirst, length_take, Nat.min_eq_left hle]
        refine ⟨hdr, rfl, by rw [hlen]; exact hrest, ?_⟩
        rw [packetLoop, if_neg (by simp only [hopen, or_false]; exact hne), hread, hlen]
        simp only [hfirst]
        rcases handlePacket env drain s created hdr first with ⟨s', created', stop⟩
        cases stop <;> rfl

/-- A group of packets of which only the last may have a short header is recovered from
    its concatenation. -/
theorem splitDatagram_flatten {group : List Bytes} (hsplit : ∀ p ∈ group, Splittable cidLen p)
    (hlong : ∀ p ∈ group.dropLast, isLongPacket p = true) {fuel : Nat}
    (hfuel : group.length ≤ fuel) : splitDatagram cidLen fuel group.flatten = group := by
  induction group generalizing fuel with
  | nil => cases fuel <;> rfl
  | cons p group ih =>
      have hp := hsplit p (mem_cons_self ..)
      have hgroup := ih fun q hq => hsplit q (mem_cons_of_mem _ hq)
      obtain ⟨fuel, rfl⟩ : ∃ k, fuel = k + 1 := by
        rw [length_cons] at hfuel
        exact ⟨fuel - 1, by omega⟩
      have hfuel' : group.length ≤ fuel := Nat.le_of_succ_le_succ hfuel
      have hne : ¬ ((p :: group).flatten.isEmpty = true) := by
        rw [flatten_cons, List.isEmpty_iff, append_eq_nil_iff]
        exact fun hnil => hp.nonempty hnil.1
      -- a packet with a short header can only be the last one
      have hread : ∃ hdr, unpackPacketHeader (p :: group).flatten cidLen = some hdr
          ∧ packetSize hdr (p :: group).flatten = p.length := by
        cases hform : isLongPacket p with
        | true => exact hp.long hform group.flatten
        | false =>
            cases group with
            | nil =>
                rw [flatten_cons, flatten_nil, append_nil]
                exact hp.short hform
            | cons q group =>
                have htrue := hlong p (mem_cons_self ..)
                rw [hform] at htrue
                exact absurd htrue Bool.false_ne_true
      obtain ⟨hdr, hread, hsize⟩ := hread
      have hrest : ∀ q ∈ group.dropLast, isLongPacket q = true := by
        intro q hq
        cases group with
        | nil => exact absurd hq not_mem_nil
        | cons r group => exact hlong q (mem_cons_of_mem _ hq)
      rw [splitDatagram, if_neg hne, hread]
      simp only [hsize]
      rw [flatten_cons, take_left, drop_left, hgroup hrest hfuel']

/-! ## The coalescer -/

/-- A group of packets that may share a datagram: only the last one has a short header,
    and a group of several packets stays within the limit. -/
structure Packed (limit : Nat) (group : List Bytes) : Prop where
  longs : ∀ p ∈ group.dropLast, isLongPacket p = true
  fits : 2 ≤ group.length → group.flatten.length ≤ limit

/-- The group being filled: with `short` unset another packet may follow. -/
structure Filling (limit : Nat) (cur : List Bytes) (short : Bool) : Prop where
  packed : Packed limit cur
  open_ : short = false → ∀ p ∈ cur, isLongPacket p = true

theorem Filling.single (limit : Nat) (packet : Bytes) :
    Filling limit [packet] (!isLongPacket packet) := by
  refine ⟨⟨fun p hp => absurd hp not_mem_nil, fun h => ?_⟩, ?_⟩
  · rw [length_singleton] at h
    exact absurd h (by decide)
  · intro hopen p hp
    rw [mem_singleton.mp hp]
    simpa using hopen

/-- A packet that fits joins the datagram. -/
theorem Filling.snoc {limit : Nat} {cur : List Bytes} (h : Filling limit cur false)
    {packet : Bytes} (hfits : cur.flatten.length + packet.length ≤ limit) :
    Filling limit (cur ++ [packet]) (!isLongPacket packet) := by
  have hlongs := h.open_ rfl
  refine ⟨⟨?_, ?_⟩, ?_⟩
  · rw [dropLast_concat]
    exact hlongs
  · intro _
    rw [flatten_append, length_append]
    simpa using hfits
  · intro hopen p hp
    rcases mem_append.mp hp with hp | hp
    · exact hlongs p hp
    · rw [mem_singleton.mp hp]
      simpa using hopen

/-- The datagrams are the concatenations of groups that make up the packets in order.
    The induction is on the packets left, with `cur` the group being filled. -/
theorem coalesce_groups (limit : Nat) {packets : List Bytes} (hne : ∀ p ∈ packets, p ≠ [])
    {cur : List Bytes} (hcur : ∀ p ∈ cur, p ≠ []) {short : Bool} (h : Filling limit cur short) :
    ∃ groups : List (List Bytes),
      coalesce limit cur.flatten short packets = groups.map List.flatten
        ∧ groups.flatten = cur ++ packets ∧ ∀ g ∈ groups, Packed limit g := by
  have hempty : ∀ {c : List Bytes}, (∀ p ∈ c, p ≠ []) → (c.flatten.isEmpty = true ↔ c = []) := by
    intro c hc
    rw [List.isEmpty_iff, flatten_eq_nil_iff]
    constructor
    · intro hall
      cases c with
      | nil => rfl
      | cons p c => exact absurd (hall p (mem_cons_self ..)) (hc p (mem_cons_self ..))
    · rintro rfl p hp
      exact absurd hp not_mem_nil
  induction packets generalizing cur short with
  | nil =>
      rw [coalesce]
      by_cases hnil : cur = []
      · subst hnil
        exact ⟨[], rfl, rfl, fun g hg => absurd hg not_mem_nil⟩
      · rw [if_neg (fun hisEmpty => hnil ((hempty hcur).mp hisEmpty))]
        refine ⟨[cur], rfl, by simp, ?_⟩
        intro g hg
        rw [mem_singleton.mp hg]
        exact h.packed
  | cons packet packets ih =>
      have hpacket := hne packet (mem_cons_self ..)
      have hrest : ∀ p ∈ packets, p ≠ [] := fun p hp => hne p (mem_cons_of_mem _ hp)
      obtain ⟨first, tail, rfl⟩ := exists_cons_of_ne_nil hpacket
      have hsingle : ∀ p ∈ [first :: tail], p ≠ [] := by
        intro p hp
        rw [mem_singleton.mp hp]
        exact hpacket
      -- the packet opens a group of its own
      have hnew := ih hrest hsingle (Filling.single limit (first :: tail))
      rw [flatten_cons, flatten_nil, append_nil] at hnew
      obtain ⟨groups, heq, hflat, hpacked⟩ := hnew
      rw [coalesce]
      split
      · next hroom =>
        simp only [Bool.and_eq_true, Bool.not_eq_true', decide_eq_true_eq] at hroom
        obtain ⟨⟨-, rfl⟩, hfits⟩ := hroom
        have hcur' : ∀ p ∈ cur ++ [first :: tail], p ≠ [] := by
          intro p hp
          rcases mem_append.mp hp with hp | hp
          · exact hcur p hp
          · exact hsingle p hp
        obtain ⟨groups', heq', hflat', hpacked'⟩ := ih hrest hcur' (h.snoc hfits)
        refine ⟨groups', ?_, by rw [hflat', append_assoc]; rfl, hpacked'⟩
        rw [flatten_append, flatten_cons, flatten_nil, append_nil] at heq'
        exact heq'
      · split
        · next hisEmpty =>
          have hnil := (hempty hcur).mp hisEmpty
          subst hnil
          exact ⟨groups, heq, hflat, hpacked⟩
        · refine ⟨cur :: groups, ?_, ?_, ?_⟩
          · rw [map_cons, ← heq]
            rfl
          · rw [flatten_cons, hflat]
            rfl
          · intro g hg
            rcases mem_cons.mp hg with rfl | hg
            · exact h.packed
            · exact hpacked g hg

/-! ## What a poll returns -/

/-- Once a datagram is held back, every later one is. -/
theorem releaseReady_holds {s : QuicConnection K} (hval : s.peerAddressValidated = false)
    (hheld : s.amplificationHeldDatagrams ≠ []) (ds : List Bytes) :
    (releaseReady s ds).2 = []
      ∧ (releaseReady s ds).1.amplificationHeldDatagrams = s.amplificationHeldDatagrams ++ ds := by
  induction ds generalizing s with
  | nil => exact ⟨rfl, by rw [releaseReady, append_nil]⟩
  | cons d ds ih =>
      have hfull : s.amplificationHeldDatagrams.isEmpty = false := by
        rw [Bool.eq_false_iff, ne_eq, List.isEmpty_iff]
        exact hheld
      rw [releaseReady, if_pos (by simp [hval, hfull])]
      obtain ⟨hout, hkept⟩ := ih (s := { s with
        amplificationHeldDatagrams := s.amplificationHeldDatagrams ++ [d] }) hval (by simp)
      exact ⟨hout, by rw [hkept, append_assoc]; rfl⟩

/-- The release loop sends a prefix and holds the rest; nothing is held for a peer whose
    address is validated. -/
theorem releaseReady_held {s : QuicConnection K} (hheld : s.amplificationHeldDatagrams = [])
    (ds : List Bytes) :
    (releaseReady s ds).2 ++ (releaseReady s ds).1.amplificationHeldDatagrams = ds
      ∧ (s.peerAddressValidated = true →
          (releaseReady s ds).1.amplificationHeldDatagrams = []) := by
  induction ds generalizing s with
  | nil => exact ⟨by rw [releaseReady, hheld]; rfl, fun _ => hheld⟩
  | cons d ds ih =>
      rw [releaseReady]
      split
      · next hover =>
        have hval : s.peerAddressValidated = false := by
          simp only [Bool.and_eq_true, Bool.not_eq_true'] at hover
          exact hover.1
        obtain ⟨hout, hkept⟩ := releaseReady_holds (s := { s with
          amplificationHeldDatagrams := s.amplificationHeldDatagrams ++ [d] }) hval (by simp) ds
        refine ⟨by rw [hout, hkept, hheld]; rfl, ?_⟩
        intro htrue
        exact absurd (hval.symm.trans htrue) Bool.false_ne_true
      · obtain ⟨hout, hkept⟩ := ih (s := { s with
          cumulativeBytesSent := s.cumulativeBytesSent + d.length }) hheld
        exact ⟨congrArg (d :: ·) hout, hkept⟩

/-- `datagrams` carry `packets` in order, each a group of packets that may share a
    datagram, and the splitting loop recovers the group from the datagram. -/
def Coalesced (cidLen limit : Nat) (packets datagrams : List Bytes) : Prop :=
  ∃ groups : List (List Bytes), datagrams = groups.map List.flatten
    ∧ groups.flatten = packets ∧ ∀ g ∈ groups, Packed limit g
    ∧ splitDatagram cidLen g.flatten.length g.flatten = g

/-- The coalescer is lossless. -/
theorem coalesce_coalesced {limit : Nat} {packets : List Bytes}
    (h : ∀ p ∈ packets, Splittable cidLen p) :
    Coalesced cidLen limit packets (coalesce limit [] false packets) := by
  have hfilling : Filling limit [] false :=
    ⟨⟨fun p hp => absurd hp not_mem_nil, fun h => absurd h (by decide)⟩,
      fun _ p hp => absurd hp not_mem_nil⟩
  obtain ⟨groups, heq, hflat, hpacked⟩ := coalesce_groups limit (fun p hp => (h p hp).nonempty)
    (fun p hp => absurd hp not_mem_nil) hfilling
  rw [nil_append] at hflat
  refine ⟨groups, heq, hflat, ?_⟩
  intro g hg
  have hsplit : ∀ p ∈ g, Splittable cidLen p := by
    intro p hp
    exact h p (hflat ▸ mem_flatten.mpr ⟨g, hg, hp⟩)
  refine ⟨hpacked g hg, splitDatagram_flatten hsplit (hpacked g hg).longs ?_⟩
  have hone : ∀ n ∈ g.map List.length, 1 ≤ n := by
    intro n hn
    obtain ⟨p, hp, rfl⟩ := mem_map.mp hn
    exact length_pos_iff.mpr (hsplit p hp).nonempty
  have hsum := length_le_sum_of_one_le _ hone
  rwa [length_map, ← length_flatten] at hsum

/-- The datagrams of a poll: those returned followed by those held back are the ones held
    before followed by the new ones.  Only a TLS server holds datagrams, and only while
    the client's address is not validated. -/
def Released (s : QuicConnection K) (datagrams : List Bytes) : Prop :=
  if s.isServer && s.tlsInitialized then
    (pollOutgoingDatagrams s).2 ++ (pollOutgoingDatagrams s).1.amplificationHeldDatagrams
        = s.amplificationHeldDatagrams ++ datagrams
      ∧ (s.peerAddressValidated = true →
          (pollOutgoingDatagrams s).1.amplificationHeldDatagrams = [])
  else (pollOutgoingDatagrams s).2 = datagrams
    ∧ (pollOutgoingDatagrams s).1.amplificationHeldDatagrams = s.amplificationHeldDatagrams

theorem released_coalesce (s : QuicConnection K) :
    Released s (coalesce s.maxDatagramSize [] false s.pendingOutboundDatagrams) := by
  rw [Released, pollOutgoingDatagrams]
  simp only
  split
  · obtain ⟨hout, hkept⟩ := releaseReady_held (s := { s with
      pendingOutboundDatagrams := [], amplificationHeldDatagrams := [] }) rfl
      (s.amplificationHeldDatagrams
        ++ coalesce s.maxDatagramSize [] false s.pendingOutboundDatagrams)
    exact ⟨hout, hkept⟩
  · exact ⟨rfl, rfl⟩

/-- **Coalescing is lossless**: for every sequence of sealed packets, a poll makes
    datagrams of them that carry the packets in order and from which the splitting loop
    recovers every packet, and returns them unless the anti-amplification limit holds
    them back. -/
theorem poll_coalesced (htag : TagOfSixteen ops) (cidLen : Nat) (s : QuicConnection K)
    (h : ∀ p ∈ s.pendingOutboundDatagrams, Sealed ops cidLen p) :
    ∃ datagrams, Coalesced cidLen s.maxDatagramSize s.pendingOutboundDatagrams datagrams
      ∧ Released s datagrams :=
  ⟨_, coalesce_coalesced fun p hp => (h p hp).splittable htag, released_coalesce s⟩

/-- A server connection with an Initial, a Handshake and a 1-RTT packet to send. -/
def sampleFlight (tls : Bool) : QuicConnection Unit :=
  { (sampleServer tls).conn (sampleEnv fun _ => {}) with
    pendingOutboundDatagrams :=
      [samplePacket .initial 0 [6], samplePacket .handshake 0 [6], samplePacket .oneRtt 0 [1]] }

theorem sampleCrypto_tag : TagOfSixteen sampleCrypto := by
  intro k nonce aad plaintext out h
  have hout : plaintext ++ List.replicate 16 0 = out := Option.some.inj h
  rw [← hout, length_append, length_replicate]

theorem samplePacket_sealed (type : PacketType) (pn : Nat) (payload : Bytes)
    (htype : namesLongType type = true ∨ type = .oneRtt) (hlen : payload.length < 2 ^ 31) :
    Sealed sampleCrypto 8 (samplePacket type pn payload) := by
  refine ⟨.ofMaterial (), _, payload, ⟨?_, fun _ => ⟨by simp, by simp, hlen⟩, ?_⟩, rfl⟩
  · intro hlong
    rcases htype with htype | rfl
    · exact htype
    · exact absurd hlong (by simp)
  · intro _
    show 8 ≤ (sampleCid 1).length + 17
    decide

theorem sampleFlight_sealed (tls : Bool) :
    ∀ p ∈ (sampleFlight tls).pendingOutboundDatagrams, Sealed sampleCrypto 8 p := by
  intro p hp
  simp only [sampleFlight, mem_cons, not_mem_nil, or_false] at hp
  rcases hp with rfl | rfl | rfl
  · exact samplePacket_sealed _ _ _ (Or.inl rfl) (by decide)
  · exact samplePacket_sealed _ _ _ (Or.inl rfl) (by decide)
  · exact samplePacket_sealed _ _ _ (Or.inr rfl) (by decide)

/-- Three packets in one datagram. -/
theorem poll_sampleFlight :
    (pollOutgoingDatagrams (sampleFlight false)).2.length = 1
      ∧ ∃ datagrams, Coalesced 8 (sampleFlight false).maxDatagramSize
          (sampleFlight false).pendingOutboundDatagrams datagrams
        ∧ Released (sampleFlight false) datagrams :=
  ⟨by decide, poll_coalesced sampleCrypto_tag 8 (sampleFlight false)
    (sampleFlight_sealed false)⟩

/-- A TLS server that has received nothing returns nothing: the flight is held back. -/
theorem sampleFlight_held_back :
    ¬ ∀ s : QuicConnection Unit,
        (∀ p ∈ s.pendingOutboundDatagrams, Sealed sampleCrypto 8 p) →
        Coalesced 8 s.maxDatagramSize s.pendingOutboundDatagrams (pollOutgoingDatagrams s).2 := by
  intro h
  obtain ⟨groups, hout, hflat, -⟩ := h (sampleFlight true) (sampleFlight_sealed true)
  have hnone : (pollOutgoingDatagrams (sampleFlight true)).2 = [] := by decide
  rw [hnone] at hout
  have hgroups : groups = [] := map_eq_nil_iff.mp hout.symm
  rw [hgroups, flatten_nil] at hflat
  exact absurd hflat.symm (cons_ne_nil _ _)

end QuicCoalescing
