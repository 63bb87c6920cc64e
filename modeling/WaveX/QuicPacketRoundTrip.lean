import WaveX.QuicCoalescing

/-! # Opening a sealed packet

    `unprotect_packet` on what `protect_packet` returns.  The sample that the mask is made of
    lies behind the packet number, where header protection changes nothing, so both ends use
    the same mask; without it the bytes in front of the ciphertext are those that were
    authenticated, and the packet number is the one in the window around the next expected
    number. -/

namespace QuicPacketRoundTrip

open QuicVarInt QuicPacket QuicCrypto QuicCoalescing List

/-! ## Packet numbers -/

/-- The window of `full_pn`: the numbers from `largest + 1 - half` (not included) to
    `largest + 1 + half`, where `half` is half of what `len` bytes can count. -/
def InWindow (pn len largest : Nat) : Prop :=
  largest + 1 < pn + 2 ^ (8 * len - 1) ∧ pn ≤ largest + 1 + 2 ^ (8 * len - 1)

/-- Beyond the window, but below what `len` bytes can count: there is no smaller number with
    these low bytes. -/
def BelowWrap (pn len largest : Nat) : Prop :=
  largest + 1 + 2 ^ (8 * len - 1) < pn ∧ pn < 2 ^ (8 * len)

/-- Low bits that are added below a multiple of a power of two. -/
theorem multiple_or {n x : Nat} (h : x < 2 ^ n) (q : Nat) : q * 2 ^ n ||| x = q * 2 ^ n + x := by
  rw [← Nat.shiftLeft_eq]
  exact (Nat.shiftLeft_add_eq_or_of_lt h q).symm

/-- Truncation is inverted in the window, and below the first number that wraps. -/
theorem fullPn_iff {len : Nat} (hlen : 1 ≤ len) (hmax : len ≤ 4) (pn largest : Nat) :
    fullPn (pn % 2 ^ (8 * len)) len largest = pn ↔
      InWindow pn len largest ∨ BelowWrap pn len largest := by
  have hlow : pn % 2 ^ (8 * len) < 2 ^ (8 * len) := Nat.mod_lt _ (Nat.two_pow_pos _)
  rw [fullPn, InWindow, BelowWrap]
  rw [Nat.shiftLeft_eq, Nat.one_mul, Nat.mul_comm len 8, multiple_or hlow]
  obtain rfl | rfl | rfl | rfl : len = 1 ∨ len = 2 ∨ len = 3 ∨ len = 4 := by omega
  all_goals
    split
    · omega
    · split
      · omega
      · omega

/-- The digits of a number in base 256 behind those read so far. -/
theorem foldl_packPacketNumber (pn len v : Nat) :
    (packPacketNumber pn len).foldl (fun v b => (v <<< 8) ||| b.toNat) v =
      v * 2 ^ (8 * len) + pn % 2 ^ (8 * len) := by
  induction len generalizing v with
  | zero => rw [packPacketNumber, foldl_nil, Nat.mul_zero, Nat.pow_zero, Nat.mod_one,
      Nat.mul_one, Nat.add_zero]
  | succ len ih =>
    have hpow : 2 ^ (8 * (len + 1)) = 2 ^ (8 * len) * 256 := by
      rw [Nat.mul_add, Nat.pow_add]
    rw [packPacketNumber, foldl_cons, ih, shift_or_byte, byteAt_toNat, hpow, Nat.mod_mul]
    ring

/-- Packing keeps the low bytes of a number. -/
theorem beNat_packPacketNumber (pn len : Nat) :
    beNat (packPacketNumber pn len) = pn % 2 ^ (8 * len) := by
  rw [beNat, foldl_packPacketNumber, Nat.zero_mul, Nat.zero_add]

/-- **Truncation**: `full_pn` gives back the numbers of the window, whatever their length. -/
theorem fullPn_packed {pn len largest : Nat} (hlen : 1 ≤ len) (hmax : len ≤ 4)
    (h : InWindow pn len largest) :
    fullPn (beNat (packPacketNumber pn len)) len largest = pn := by
  rw [beNat_packPacketNumber]
  exact (fullPn_iff hlen hmax pn largest).mpr (.inl h)

/-! ## Header protection -/

theorem xorBytes_cons (b m : UInt8) (bytes mask : Bytes) :
    xorBytes (b :: bytes) (m :: mask) = (b ^^^ m) :: xorBytes bytes mask := rfl

theorem xorBytes_nil (bytes : Bytes) : xorBytes bytes [] = bytes := by
  rw [xorBytes, zipWith_nil_right, nil_append]
  exact drop_zero

/-- A mask that is applied twice is taken off, also where bytes have been put behind. -/
theorem xorBytes_twice (bytes mask more : Bytes) (h : mask.length ≤ bytes.length) :
    xorBytes (xorBytes bytes mask ++ more) mask = bytes ++ more := by
  induction mask generalizing bytes with
  | nil => rw [xorBytes_nil, xorBytes_nil]
  | cons m mask ih =>
    cases bytes with
    | nil => exact absurd h (Nat.not_succ_le_zero _)
    | cons b bytes =>
      rw [xorBytes_cons, cons_append, xorBytes_cons,
        ih bytes (Nat.le_of_succ_le_succ h), UInt8.xor_assoc, UInt8.xor_self, UInt8.xor_zero]
      rfl

/-- Behind the mask the bytes are as they were. -/
theorem drop_xorBytes (bytes mask : Bytes) {n : Nat} (h : mask.length ≤ n) :
    (xorBytes bytes mask).drop n = bytes.drop n := by
  induction mask generalizing bytes n with
  | nil => rw [xorBytes_nil]
  | cons m mask ih =>
    cases bytes with
    | nil => rfl
    | cons b bytes =>
      cases n with
      | zero => exact absurd h (Nat.not_succ_le_zero _)
      | succ n =>
        rw [xorBytes_cons, drop_succ_cons, drop_succ_cons]
        exact ih bytes (Nat.le_of_succ_le_succ h)

section

variable (isLong : Bool) (pnLen : Nat) (mask : Bytes) (first : UInt8) (body rest more : Bytes)

/-- The mask of the packet number. -/
def pnMask (pnLen : Nat) (mask : Bytes) : Bytes := (mask.drop 1).take pnLen

theorem pnMask_length : (pnMask pnLen mask).length ≤ pnLen := length_take_le _ _

/-- A packet with its header masked: the first byte, and the bytes behind `body`. -/
def maskedPacket : Bytes :=
  (first ^^^ (mask.headD 0 &&& firstByteMask isLong)) ::
    (body ++ xorBytes rest (pnMask pnLen mask))

theorem applyHeaderMask_eq :
    applyHeaderMask isLong (1 + body.length) pnLen mask (first :: (body ++ rest)) =
      maskedPacket isLong pnLen mask first body rest := by
  rw [applyHeaderMask, Nat.add_sub_cancel_left, take_left, drop_left]
  rfl

/-- The mask is taken off a packet, whatever follows it. -/
theorem applyHeaderMask_masked (h : pnLen ≤ rest.length) :
    applyHeaderMask isLong (1 + body.length) pnLen mask
        (maskedPacket isLong pnLen mask first body rest ++ more) =
      first :: (body ++ (rest ++ more)) := by
  have htwice := xorBytes_twice rest (pnMask pnLen mask) more ((pnMask_length pnLen mask).trans h)
  rw [maskedPacket, cons_append, append_assoc, applyHeaderMask_eq, maskedPacket, htwice,
    UInt8.xor_assoc, UInt8.xor_self, UInt8.xor_zero]

/-- Bytes behind the packet number are those of the packet without its mask. -/
theorem drop_masked {n : Nat} (h : pnLen ≤ n) (hrest : n ≤ rest.length) :
    (maskedPacket isLong pnLen mask first body rest ++ more).drop (1 + body.length + n) =
      rest.drop n ++ more := by
  have hlen : n ≤ (xorBytes rest (pnMask pnLen mask)).length := by
    rw [xorBytes_length]
    exact hrest
  rw [maskedPacket, cons_append, append_assoc, Nat.add_assoc, Nat.add_comm 1,
    drop_succ_cons, drop_length_add_append, drop_append_of_le_length hlen,
    drop_xorBytes _ _ ((pnMask_length pnLen mask).trans h)]

theorem maskedPacket_length :
    (maskedPacket isLong pnLen mask first body rest).length = 1 + body.length + rest.length := by
  rw [maskedPacket, length_cons, length_append, xorBytes_length]
  omega

end

/-! ## The first byte and the header -/

/-- The low bits of the first byte give the length of the packet number. -/
theorem low_bits {len : Nat} (hlen : 1 ≤ len) (hmax : len ≤ 4) : ((len - 1) &&& 0x03) + 1 = len := by
  obtain rfl | rfl | rfl | rfl : len = 1 ∨ len = 2 ∨ len = 3 ∨ len = 4 := by omega
  all_goals rfl

theorem longFirst_pnLen {hdr : PacketHeader} (hlen : 1 ≤ hdr.packetNumberLen)
    (hmax : hdr.packetNumberLen ≤ 4) :
    ((longFirst hdr).toNat &&& 0x03) + 1 = hdr.packetNumberLen := by
  have hbits : (longFirst hdr).toNat &&& 0x03 = (hdr.packetNumberLen - 1) &&& 0x03 := by
    have hlow : (hdr.packetNumberLen - 1) &&& 0x03 < 4 :=
      Nat.lt_of_le_of_lt Nat.and_le_right (by decide)
    rw [longFirst]
    revert hlow
    generalize (hdr.packetNumberLen - 1) &&& 0x03 = low
    revert low
    cases hdr.type <;> decide
  rw [hbits]
  exact low_bits hlen hmax

theorem shortFirst_pnLen {hdr : PacketHeader} (hlen : 1 ≤ hdr.packetNumberLen)
    (hmax : hdr.packetNumberLen ≤ 4) :
    ((shortFirst hdr).toNat &&& 0x03) + 1 = hdr.packetNumberLen ∧
      ((shortFirst hdr).toNat &&& 0x04 != 0) = hdr.keyPhase := by
  have hbits : (shortFirst hdr).toNat &&& 0x03 = (hdr.packetNumberLen - 1) &&& 0x03 ∧
      ((shortFirst hdr).toNat &&& 0x04 != 0) = hdr.keyPhase := by
    have hlow : (hdr.packetNumberLen - 1) &&& 0x03 < 4 :=
      Nat.lt_of_le_of_lt Nat.and_le_right (by decide)
    rw [shortFirst]
    revert hlow
    generalize (hdr.packetNumberLen - 1) &&& 0x03 = low
    revert low
    cases hdr.keyPhase <;> decide
  refine ⟨?_, hbits.2⟩
  rw [hbits.1]
  exact low_bits hlen hmax

/-- The header that is read where a short header was packed, whatever the masked bits of its
    first byte. -/
theorem unpackPacketHeader_short {m : PacketHeader} {first : UInt8}
    (hfirst : first.toNat >>> 5 = (shortFirst m).toNat >>> 5) (hcid : 1 ≤ m.dcid.length)
    (rest : Bytes) :
    unpackPacketHeader (first :: (m.dcid.bytes ++ rest)) m.dcid.length = some
      { packetNumber :=
          if rest.length < (first.toNat &&& 0x03) + 1 then 0
          else beNat (rest.take ((first.toNat &&& 0x03) + 1))
        pnOffset := 1 + m.dcid.length
        dcid := m.dcid
        type := .oneRtt
        packetNumberLen := (first.toNat &&& 0x03) + 1
        isLong := false
        keyPhase := first.toNat &&& 0x04 != 0 } := by
  have hform : (first.toNat &&& 0x80 != 0) = false :=
    (formBit_eq_of_shift hfirst).trans (shortFirst_bits m)
  have hbytes : m.dcid.length = m.dcid.bytes.length := rfl
  have hroom : ¬ (m.dcid.bytes ++ rest).length < m.dcid.length := by
    rw [length_append]
    omega
  have hdcid : ConnectionId.ofBytes m.dcid.bytes = m.dcid := by
    obtain ⟨bytes, hle⟩ := m.dcid
    simp only [ConnectionId.ofBytes, take_of_length_le hle]
  rw [unpackPacketHeader]
  dsimp only
  rw [hform, if_neg Bool.false_ne_true, if_pos (show m.dcid.length > 0 from hcid), if_neg hroom,
    hbytes, drop_left, take_left, hdcid]

/-! ## Opening -/

/-- An ideal AEAD: it never fails, appends a tag of 16 bytes, and opens what it sealed under
    the same key, nonce and associated data.  The mask is any function of the key and the
    sample. -/
structure Ideal {K : Type} (ops : CryptoOps K) : Prop where
  seals : ∀ k nonce aad plaintext, ∃ out, ops.encrypt k nonce aad plaintext = some out ∧
    out.length = plaintext.length + 16 ∧ ops.decrypt k nonce aad out = some plaintext
  masks : ∀ k sample, ∃ mask, ops.mask k sample = some mask

section

variable {K : Type} {ops : CryptoOps K} {keys : ProtectionKeys K} {h : PacketHeader}
  {isLong : Bool} {pnLen largest cidLen : Nat} {mask body pnBytes out more plaintext : Bytes}
  {first : UInt8}

/-- A masked packet is opened: the mask is found again, and the bytes in front of the
    ciphertext are those that were authenticated. -/
theorem unprotectPacket_masked
    (hread : unpackPacketHeader
      (maskedPacket isLong pnLen mask first body (pnBytes ++ out) ++ more) cidLen = some h)
    (hoffset : h.pnOffset = 1 + body.length) (hlong : h.isLong = isLong)
    (hpn : pnBytes.length = pnLen) (hmax : pnLen ≤ 4) (hsample : 20 ≤ pnLen + out.length)
    (hmask : ops.mask keys.material (((pnBytes ++ out).drop 4).take 16) = some mask)
    (hfirst : (first.toNat &&& 0x03) + 1 = pnLen)
    (htotal : (if isLong && 0 < h.length && 1 + body.length + h.length ≤
        (maskedPacket isLong pnLen mask first body (pnBytes ++ out) ++ more).length then
        1 + body.length + h.length
      else (maskedPacket isLong pnLen mask first body (pnBytes ++ out) ++ more).length) =
        1 + body.length + (pnLen + out.length))
    (hkeys : candidateKeys ops keys isLong
      (if isLong then h.keyPhase else first.toNat &&& 0x04 != 0) = some keys)
    (hdecrypt : ops.decrypt keys.material
      (nonce (ops.iv keys.material) (fullPn (beNat pnBytes) pnLen largest))
      (first :: (body ++ pnBytes)) out = some plaintext) :
    unprotectPacket ops keys (maskedPacket isLong pnLen mask first body (pnBytes ++ out) ++ more)
        largest cidLen =
      some (keys, { h with
        keyPhase := if isLong then h.keyPhase else first.toNat &&& 0x04 != 0
        packetNumberLen := pnLen
        packetNumber := fullPn (beNat pnBytes) pnLen largest }, plaintext) := by
  have hrest : (pnBytes ++ out).length = pnLen + out.length := by
    rw [length_append, hpn]
  have hsize : (maskedPacket isLong pnLen mask first body (pnBytes ++ out) ++ more).length =
      1 + body.length + (pnLen + out.length) + more.length := by
    rw [length_append, maskedPacket_length, hrest]
  have hfour := drop_masked isLong pnLen mask first body (pnBytes ++ out) more hmax (by omega)
  have hpayload := drop_masked isLong pnLen mask first body (pnBytes ++ out) more
    (Nat.le_refl pnLen) (by omega)
  have hbare := applyHeaderMask_masked isLong pnLen mask first body (pnBytes ++ out) more (by omega)
  have hsampled : ((maskedPacket isLong pnLen mask first body (pnBytes ++ out) ++ more).drop
      (1 + body.length + 4)).take 16 = ((pnBytes ++ out).drop 4).take 16 := by
    rw [hfour, take_append_of_le_length]
    rw [length_drop]
    omega
  have hhead : (maskedPacket isLong pnLen mask first body (pnBytes ++ out) ++ more).headD 0 ^^^
      (mask.headD 0 &&& firstByteMask isLong) = first := by
    show first ^^^ (mask.headD 0 &&& firstByteMask isLong) ^^^
      (mask.headD 0 &&& firstByteMask isLong) = first
    rw [UInt8.xor_assoc, UInt8.xor_self, UInt8.xor_zero]
  have hnumber : ((first :: (body ++ (pnBytes ++ out ++ more))).drop (1 + body.length)).take pnLen =
      pnBytes := by
    rw [Nat.add_comm 1, drop_succ_cons, drop_left, append_assoc, ← hpn,
      take_left]
  have haad : (first :: (body ++ (pnBytes ++ out ++ more))).take (1 + body.length + pnLen) =
      first :: (body ++ pnBytes) := by
    rw [Nat.add_assoc, Nat.add_comm 1, take_succ_cons, take_length_add_append,
      append_assoc, ← hpn, take_left]
  have hcipher : ((maskedPacket isLong pnLen mask first body (pnBytes ++ out) ++ more).drop
      (1 + body.length + pnLen)).take
        (1 + body.length + (pnLen + out.length) - (1 + body.length + pnLen)) = out := by
    have hdiff : 1 + body.length + (pnLen + out.length) - (1 + body.length + pnLen) =
        out.length := by omega
    rw [hpayload, hdiff, ← hpn, drop_left, take_left]
  simp only [unprotectPacket, hread, hoffset, hlong, hsampled, hmask, hhead, hfirst, hbare, hnumber,
    haad, Option.bind_eq_bind, Option.bind_some]
  rw [if_neg (by omega), if_neg (by omega), htotal, if_neg (by omega), hcipher, hkeys]
  simp only [Option.bind_some, hdecrypt]

end

/-! ## The round trip -/

/-- A packet that is sealed for a receiver: a long header of a type with a packet number, or a
    short header with the connection id and the key phase that the receiver expects. -/
structure Exchange {K : Type} (receiver : ProtectionKeys K) (hdr : PacketHeader)
    (plaintext more : Bytes) (largest cidLen : Nat) : Prop where
  longType : hdr.isLong = true →
    hdr.type = .initial ∨ hdr.type = .zeroRtt ∨ hdr.type = .handshake
  shortCid : hdr.isLong = false → hdr.dcid.length = cidLen ∧ 1 ≤ cidLen
  shortPhase : hdr.isLong = false → hdr.keyPhase = (receiver.keyPhase != 0)
  alone : hdr.isLong = false → more = []
  version : hdr.version < 2 ^ 32
  /-- The lengths fit the varints that carry them. -/
  lengths : hdr.token.length < 2 ^ 62 ∧ plaintext.length + 20 < 2 ^ 62
  pnLen : 1 ≤ hdr.packetNumberLen ∧ hdr.packetNumberLen ≤ 4
  sample : 4 ≤ hdr.packetNumberLen + plaintext.length
  pn : hdr.packetNumber < 2 ^ 62
  window : InWindow hdr.packetNumber hdr.packetNumberLen largest

/-- The fields that a header carries on the wire. -/
structure SameOnWire (hdr hdr' : PacketHeader) (plaintextLen : Nat) : Prop where
  isLong : hdr'.isLong = hdr.isLong
  packetNumber : hdr'.packetNumber = hdr.packetNumber
  packetNumberLen : hdr'.packetNumberLen = hdr.packetNumberLen
  dcid : hdr'.dcid = hdr.dcid
  long : hdr.isLong = true → hdr'.type = hdr.type ∧ hdr'.version = hdr.version ∧
    hdr'.scid = hdr.scid ∧ (hdr.type = .initial → hdr'.token = hdr.token) ∧
    hdr'.length = plaintextLen + 16 + hdr.packetNumberLen
  short : hdr.isLong = false → hdr'.type = .oneRtt ∧ hdr'.keyPhase = hdr.keyPhase

section

variable {K : Type} {ops : CryptoOps K} {sender receiver : ProtectionKeys K} {hdr : PacketHeader}
  {plaintext more : Bytes} {largest cidLen : Nat}

/-- What `protect_packet` returns, by the mask of its sample. -/
theorem protectPacket_masked (hvalid : sender.valid = true) {m : PacketHeader} {first : UInt8}
    {body out mask : Bytes} (hm : mutableHdr hdr plaintext.length = m)
    (hheader : packPacketHeader m =
      first :: (body ++ packPacketNumber m.packetNumber m.packetNumberLen))
    (hout : ops.encrypt sender.material (nonce (ops.iv sender.material) m.packetNumber)
      (packPacketHeader m) plaintext = some out)
    (hsample : 20 ≤ m.packetNumberLen + out.length)
    (hmask : ops.mask sender.material
      (((packPacketNumber m.packetNumber m.packetNumberLen ++ out).drop 4).take 16) = some mask) :
    protectPacket ops sender hdr plaintext =
      some (maskedPacket m.isLong m.packetNumberLen mask first body
        (packPacketNumber m.packetNumber m.packetNumberLen ++ out)) := by
  have hoffset : (packPacketHeader m).length - m.packetNumberLen = 1 + body.length := by
    rw [hheader, length_cons, length_append, packPacketNumber_length]
    omega
  have hpacket : packPacketHeader m ++ out =
      first :: (body ++ (packPacketNumber m.packetNumber m.packetNumberLen ++ out)) := by
    rw [hheader, cons_append, append_assoc]
  have hdrop : (packPacketHeader m ++ out).drop (1 + body.length + 4) =
      (packPacketNumber m.packetNumber m.packetNumberLen ++ out).drop 4 := by
    rw [hpacket, Nat.add_assoc, Nat.add_comm 1, drop_succ_cons, drop_length_add_append]
  have hsize : ¬ (packPacketHeader m ++ out).length < 1 + body.length + 4 + 16 := by
    rw [hpacket, length_cons, length_append, length_append, packPacketNumber_length]
    omega
  rw [protectPacket, if_pos hvalid, hm]
  dsimp only
  rw [hout, Option.map_some, hoffset, protectHeader, if_neg hsize, hdrop, hmask]
  dsimp only
  rw [hpacket, applyHeaderMask_eq]

theorem mutableHdr_packetNumberLen (h : 1 ≤ hdr.packetNumberLen) (plaintextLen : Nat) :
    (mutableHdr hdr plaintextLen).packetNumberLen = hdr.packetNumberLen :=
  if_neg (by omega)

/-- A packet is opened whose header is read through the mask. -/
theorem open_packed (hideal : Ideal ops) (hvalid : sender.valid = true)
    (hkeys : receiver.material = sender.material)
    (he : Exchange receiver hdr plaintext more largest cidLen) {m : PacketHeader} {first : UInt8}
    {body : Bytes} (hm : mutableHdr hdr plaintext.length = m)
    (hheader : packPacketHeader m =
      first :: (body ++ packPacketNumber m.packetNumber m.packetNumberLen))
    (hfirst : (first.toNat &&& 0x03) + 1 = m.packetNumberLen)
    (hphase : hdr.isLong = false → (first.toNat &&& 0x04 != 0) = hdr.keyPhase)
    {P : PacketHeader → Prop}
    (hread : ∀ mask rest, ∃ h,
      unpackPacketHeader (maskedPacket hdr.isLong m.packetNumberLen mask first body rest ++ more)
        cidLen = some h ∧ h.pnOffset = 1 + body.length ∧ h.isLong = hdr.isLong ∧
      (hdr.isLong = true → h.length = plaintext.length + 16 + hdr.packetNumberLen) ∧ P h) :
    ∃ packet h, protectPacket ops sender hdr plaintext = some packet ∧
      unprotectPacket ops receiver (packet ++ more) largest cidLen =
        some (receiver, { h with
          keyPhase := if hdr.isLong then h.keyPhase else first.toNat &&& 0x04 != 0
          packetNumberLen := hdr.packetNumberLen
          packetNumber := hdr.packetNumber }, plaintext) ∧
      h.isLong = hdr.isLong ∧
      (hdr.isLong = true → h.length = plaintext.length + 16 + hdr.packetNumberLen) ∧ P h := by
  obtain ⟨hpos, hmax⟩ := he.pnLen
  have hpnLen : m.packetNumberLen = hdr.packetNumberLen :=
    hm ▸ mutableHdr_packetNumberLen hpos _
  have hsame : m.isLong = hdr.isLong ∧ m.packetNumber = hdr.packetNumber := by
    rw [← hm]
    exact ⟨rfl, rfl⟩
  obtain ⟨hlong, hpn⟩ := hsame
  obtain ⟨out, hout, houtLen, hopen⟩ := hideal.seals sender.material
    (nonce (ops.iv sender.material) m.packetNumber) (packPacketHeader m) plaintext
  obtain ⟨mask, hmask⟩ := hideal.masks sender.material
    (((packPacketNumber m.packetNumber m.packetNumberLen ++ out).drop 4).take 16)
  have hsample : 20 ≤ m.packetNumberLen + out.length := by
    have hfour := he.sample
    omega
  have hpacket := protectPacket_masked hvalid hm hheader hout hsample hmask
  obtain ⟨h, hread, hoffset, hform, hlength, hfields⟩ :=
    hread mask (packPacketNumber m.packetNumber m.packetNumberLen ++ out)
  have hsize : (maskedPacket hdr.isLong m.packetNumberLen mask first body
      (packPacketNumber m.packetNumber m.packetNumberLen ++ out) ++ more).length =
        1 + body.length + (m.packetNumberLen + out.length) + more.length := by
    rw [length_append, maskedPacket_length, length_append, packPacketNumber_length]
  -- the window is where `full_pn` finds the number again
  have hnumber : fullPn (beNat (packPacketNumber m.packetNumber m.packetNumberLen))
      m.packetNumberLen largest = hdr.packetNumber := by
    rw [hpnLen, hpn]
    exact fullPn_packed hpos hmax he.window
  -- the header without its mask is what was authenticated
  have hdecrypt : ops.decrypt receiver.material (nonce (ops.iv receiver.material)
      (fullPn (beNat (packPacketNumber m.packetNumber m.packetNumberLen)) m.packetNumberLen
        largest))
      (first :: (body ++ packPacketNumber m.packetNumber m.packetNumberLen)) out =
        some plaintext := by
    rw [hnumber, ← hpn, hkeys, ← hheader]
    exact hopen
  rw [hkeys.symm] at hmask
  rw [hlong] at hpacket
  have hopened := unprotectPacket_masked hread hoffset hform (packPacketNumber_length _ _)
    (hpnLen ▸ hmax) hsample hmask hfirst ?_ ?_ hdecrypt
  · rw [hnumber, hpnLen] at hopened
    exact ⟨_, h, hpacket, hpnLen ▸ hopened, hform, hlength, hfields⟩
  · -- the Length of a long header ends the packet, a short one ends with the datagram
    rw [hsize]
    cases hlongs : hdr.isLong with
    | true =>
      rw [hlength hlongs, if_pos]
      · omega
      · rw [Bool.true_and, Bool.and_eq_true, decide_eq_true_eq, decide_eq_true_eq]
        omega
    | false =>
      rw [he.alone hlongs, Bool.false_and, Bool.false_and, if_neg Bool.false_ne_true]
      rfl
  · rw [candidateKeys]
    cases hlongs : hdr.isLong with
    | true => rfl
    | false =>
      rw [if_neg Bool.false_ne_true, hphase hlongs, he.shortPhase hlongs, bne_self_eq_false]
      rfl

/-- The four bytes of a version are read as it was written. -/
theorem version_read {version : Nat} (h : version < 2 ^ 32) :
    beNat [byteAt version 3, byteAt version 2, byteAt version 1, byteAt version 0] = version := by
  have hread := beNat_packPacketNumber version 4
  rw [Nat.mod_eq_of_lt h] at hread
  exact hread

/-- A sealed packet with a long header is opened. -/
theorem open_long (hideal : Ideal ops) (hvalid : sender.valid = true)
    (hkeys : receiver.material = sender.material) (hlong : hdr.isLong = true)
    (he : Exchange receiver hdr plaintext more largest cidLen) :
    ∃ packet hdr', protectPacket ops sender hdr plaintext = some packet ∧
      unprotectPacket ops receiver (packet ++ more) largest cidLen =
        some (receiver, hdr', plaintext) ∧ SameOnWire hdr hdr' plaintext.length := by
  obtain ⟨hpos, hmax⟩ := he.pnLen
  obtain ⟨htoken, hplaintext⟩ := he.lengths
  have htype : namesLongType hdr.type = true := by
    rcases he.longType hlong with h | h | h
    all_goals
      rw [h]
      rfl
  obtain ⟨m, hm⟩ : ∃ m, mutableHdr hdr plaintext.length = m := ⟨_, rfl⟩
  have hpnLen : m.packetNumberLen = hdr.packetNumberLen :=
    hm ▸ mutableHdr_packetNumberLen hpos _
  have hlength : m.length = plaintext.length + 16 + hdr.packetNumberLen := by
    rw [← hpnLen, ← hm, mutableHdr]
    exact if_pos hlong
  have hsame : m.isLong = true ∧ m.type = hdr.type ∧ m.version = hdr.version ∧
      m.dcid = hdr.dcid ∧ m.scid = hdr.scid ∧ m.token = hdr.token := by
    rw [← hm]
    exact ⟨hlong, rfl, rfl, rfl, rfl, rfl⟩
  obtain ⟨hmlong, hmtype, hmversion, hmdcid, hmscid, hmtoken⟩ := hsame
  have hread : ∀ mask rest, ∃ h, unpackPacketHeader
      (maskedPacket hdr.isLong m.packetNumberLen mask (longFirst m) (longBody m) rest ++ more)
        cidLen = some h ∧ h.pnOffset = 1 + (longBody m).length ∧ h.isLong = hdr.isLong ∧
      (hdr.isLong = true → h.length = plaintext.length + 16 + hdr.packetNumberLen) ∧
      h.type = hdr.type ∧ h.version = hdr.version ∧ h.dcid = hdr.dcid ∧ h.scid = hdr.scid ∧
      (hdr.type = .initial → h.token = hdr.token) := by
    intro mask rest
    have hfirst : (longFirst m ^^^ (mask.headD 0 &&& firstByteMask true)).toNat >>> 4 =
        (longFirst m).toNat >>> 4 := mask_shift_four _ _
    have hunpack := unpackPacketHeader_packed hfirst (hmtype ▸ htype) (hmtoken ▸ htoken)
      (by omega : m.length < 2 ^ 62) (xorBytes rest (pnMask m.packetNumberLen mask) ++ more) cidLen
    rw [hlong, maskedPacket, cons_append, append_assoc]
    refine ⟨_, hunpack, ?_, rfl, fun _ => hlength, hmtype, ?_, hmdcid, hmscid, ?_⟩
    · dsimp only
      rw [length_cons, length_append]
      omega
    · dsimp only
      rw [hmversion]
      exact version_read he.version
    · intro hinitial
      dsimp only
      rw [hmtype, if_pos hinitial, hmtoken]
  obtain ⟨packet, h, hpacket, hopened, hform, hlen, htype', hversion, hdcid, hscid, htoken'⟩ :=
    open_packed hideal hvalid hkeys he hm (packPacketHeader_long hmlong)
      (longFirst_pnLen (hpnLen ▸ hpos) (hpnLen ▸ hmax))
      (fun hshort => absurd (hlong.symm.trans hshort) Bool.true_eq_false_eq_False) hread
  refine ⟨packet, _, hpacket, hopened, hform, rfl, rfl, hdcid, ?_, ?_⟩
  · exact fun _ => ⟨htype', hversion, hscid, htoken', hlen hlong⟩
  · intro hshort
    rw [hlong] at hshort
    cases hshort

/-- A sealed packet with a short header is opened. -/
theorem open_short (hideal : Ideal ops) (hvalid : sender.valid = true)
    (hkeys : receiver.material = sender.material) (hshort : hdr.isLong = false)
    (he : Exchange receiver hdr plaintext more largest cidLen) :
    ∃ packet hdr', protectPacket ops sender hdr plaintext = some packet ∧
      unprotectPacket ops receiver (packet ++ more) largest cidLen =
        some (receiver, hdr', plaintext) ∧ SameOnWire hdr hdr' plaintext.length := by
  obtain ⟨hpos, hmax⟩ := he.pnLen
  obtain ⟨hcid, hcidPos⟩ := he.shortCid hshort
  obtain ⟨m, hm⟩ : ∃ m, mutableHdr hdr plaintext.length = m := ⟨_, rfl⟩
  have hpnLen : m.packetNumberLen = hdr.packetNumberLen :=
    hm ▸ mutableHdr_packetNumberLen hpos _
  have hsame : m.isLong = false ∧ m.dcid = hdr.dcid ∧ m.keyPhase = hdr.keyPhase := by
    rw [← hm]
    exact ⟨hshort, rfl, rfl⟩
  obtain ⟨hmshort, hmdcid, hmphase⟩ := hsame
  obtain ⟨hfirst, hphase⟩ := shortFirst_pnLen (hpnLen ▸ hpos) (hpnLen ▸ hmax)
  have hread : ∀ mask rest, ∃ h, unpackPacketHeader
      (maskedPacket hdr.isLong m.packetNumberLen mask (shortFirst m) m.dcid.bytes rest ++ more)
        cidLen = some h ∧ h.pnOffset = 1 + m.dcid.bytes.length ∧ h.isLong = hdr.isLong ∧
      (hdr.isLong = true → h.length = plaintext.length + 16 + hdr.packetNumberLen) ∧
      h.type = .oneRtt ∧ h.dcid = hdr.dcid := by
    intro mask rest
    have hbits : (shortFirst m ^^^ (mask.headD 0 &&& firstByteMask false)).toNat >>> 5 =
        (shortFirst m).toNat >>> 5 := mask_shift_five _ _ _
    have hunpack := unpackPacketHeader_short hbits (by rw [hmdcid, hcid]; exact hcidPos)
      (xorBytes rest (pnMask m.packetNumberLen mask) ++ more)
    rw [hshort, maskedPacket, cons_append, append_assoc, ← hcid, ← hmdcid]
    refine ⟨_, hunpack, rfl, rfl, ?_, rfl, rfl⟩
    intro hlong
    cases hlong
  obtain ⟨packet, h, hpacket, hopened, hform, -, htype, hdcid⟩ :=
    open_packed hideal hvalid hkeys he hm (packPacketHeader_short hmshort) hfirst
      (fun _ => hphase.trans hmphase) hread
  refine ⟨packet, _, hpacket, hopened, hform, rfl, rfl, hdcid, ?_, ?_⟩
  · intro hlong
    rw [hshort] at hlong
    cases hlong
  · intro _
    refine ⟨htype, ?_⟩
    dsimp only
    rw [hshort, if_neg Bool.false_ne_true]
    exact hphase.trans hmphase

end

/-- **Sealing and opening**: under an ideal AEAD a packet that is sealed for a receiver is
    opened with its plaintext and the header it carried, and truncation is inverted exactly in
    the window and below the first number that wraps. -/
theorem packet_round_trip {K : Type} {ops : CryptoOps K} (hideal : Ideal ops) :
    (∀ (sender receiver : ProtectionKeys K) (hdr : PacketHeader) (plaintext more : Bytes)
        (largest cidLen : Nat), sender.valid = true → receiver.material = sender.material →
      Exchange receiver hdr plaintext more largest cidLen →
        ∃ packet hdr', protectPacket ops sender hdr plaintext = some packet ∧
          unprotectPacket ops receiver (packet ++ more) largest cidLen =
            some (receiver, hdr', plaintext) ∧ SameOnWire hdr hdr' plaintext.length) ∧
      ∀ len, 1 ≤ len → len ≤ 4 → ∀ pn largest, fullPn (pn % 2 ^ (8 * len)) len largest = pn ↔
        InWindow pn len largest ∨ BelowWrap pn len largest := by
  refine ⟨?_, fun len hlen hmax => fullPn_iff hlen hmax⟩
  intro sender receiver hdr plaintext more largest cidLen hvalid hkeys he
  cases hlong : hdr.isLong with
  | true => exact open_long hideal hvalid hkeys hlong he
  | false => exact open_short hideal hvalid hkeys hlong he

/-- The toy cipher suite is ideal. -/
theorem sampleCrypto_ideal : Ideal QuicRuns.sampleCrypto where
  seals := by
    intro k nonce aad plaintext
    refine ⟨_, rfl, ?_, ?_⟩
    · rw [length_append, length_replicate]
    · have hlen : (plaintext ++ List.replicate 16 (0 : UInt8)).length - 16 = plaintext.length := by
        rw [length_append, length_replicate]
        omega
      show (if (plaintext ++ List.replicate 16 0).drop
          ((plaintext ++ List.replicate 16 0).length - 16) = List.replicate 16 0 then
        some ((plaintext ++ List.replicate 16 0).take
          ((plaintext ++ List.replicate 16 0).length - 16)) else none) = some plaintext
      rw [hlen, drop_left, take_left, if_pos rfl]
  masks := fun _ _ => ⟨_, rfl⟩

/-- An Initial packet of three bytes with a packet number of one byte, and a byte behind it. -/
theorem packet_round_trip_initial :
    ∃ packet hdr', protectPacket QuicRuns.sampleCrypto (.ofMaterial ())
        { type := .initial, isLong := true, packetNumber := 300, packetNumberLen := 1 } [1, 2, 3] =
          some packet ∧
      unprotectPacket QuicRuns.sampleCrypto (.ofMaterial ()) (packet ++ [4]) 250 8 =
        some (.ofMaterial (), hdr', [1, 2, 3]) ∧
      SameOnWire { type := .initial, isLong := true, packetNumber := 300, packetNumberLen := 1 }
        hdr' 3 :=
  (packet_round_trip sampleCrypto_ideal).1 (.ofMaterial ()) (.ofMaterial ())
    { type := .initial, isLong := true, packetNumber := 300, packetNumberLen := 1 } [1, 2, 3] [4]
    250 8 rfl rfl {
      longType := fun _ => .inl rfl
      shortCid := fun h => nomatch h
      shortPhase := fun h => nomatch h
      alone := fun h => nomatch h
      version := by decide
      lengths := by decide
      pnLen := by decide
      sample := by decide
      pn := by decide
      window := by rw [InWindow]; decide }

/-- The number 200 behind an empty history lies beyond the window of one byte, and is given
    back all the same. -/
theorem outside_window : ¬ ∀ pn largest : Nat,
    fullPn (pn % 2 ^ (8 * 1)) 1 largest = pn ↔ InWindow pn 1 largest := by
  intro h
  have hwindow : InWindow 200 1 0 := (h 200 0).mp (by decide)
  exact absurd hwindow.2 (by decide)

end QuicPacketRoundTrip
