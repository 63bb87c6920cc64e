import WaveX.QuicPacket

/-! # Packet protection

    `ProtectionKeys`, `update_keys`, `protect_packet` and `unprotect_packet` of
    `src/Network/QUIC/QuicCrypto.cpp`.

    What the code takes from OpenSSL (AES-128-GCM, the AES-ECB header-protection
    mask and HKDF) is the parameter `CryptoOps`: key material is a type `K`, and
    the operations may fail, as the library calls may. -/

namespace QuicCrypto

open QuicVarInt QuicPacket

/-- The cryptographic operations the code calls.  A `K` stands for one set of
    traffic secret, packet key, IV and header-protection key. -/
structure CryptoOps (K : Type) where
  /-- The 12-byte IV of the key set. -/
  iv : K → Bytes
  /-- AES-128-GCM: nonce, associated data and plaintext to ciphertext and tag. -/
  encrypt : K → Bytes → Bytes → Bytes → Option Bytes
  /-- AES-128-GCM: nonce, associated data, ciphertext and tag to plaintext. -/
  decrypt : K → Bytes → Bytes → Bytes → Option Bytes
  /-- The header-protection mask of a 16-byte sample. -/
  mask : K → Bytes → Option Bytes
  /-- The next key generation (HKDF with label `quic ku`); `hp` is kept. -/
  next : K → Option K
  /-- `expand_quic_keys`: the key set of a TLS traffic secret. -/
  expand : Bytes → Option K

/-- `ProtectionKeys`; the cipher contexts are caches and carry no state. -/
structure ProtectionKeys (K : Type) where
  material : K
  keyPhase : Nat := 0
  valid : Bool := false

variable {K : Type} (ops : CryptoOps K)

/-- The keys of a fresh traffic secret. -/
def ProtectionKeys.ofMaterial (k : K) : ProtectionKeys K := ⟨k, 0, true⟩

/-- `CryptoSuite::update_keys`: the next generation with the phase bit flipped,
    `none` when it returns false. -/
def updateKeys (keys : ProtectionKeys K) : Option (ProtectionKeys K) :=
  if keys.valid then
    (ops.next keys.material).map fun k =>
      { keys with material := k, keyPhase := keys.keyPhase ^^^ 1 }
  else none

/-- `Nonce = IV ^ PacketNumber`: the packet number goes into the last 8 of the
    12 bytes. -/
def nonce (iv : Bytes) (pn : Nat) : Bytes :=
  List.zipWith (· ^^^ ·) iv
    ([0, 0, 0, 0] ++ [byteAt pn 7, byteAt pn 6, byteAt pn 5, byteAt pn 4, byteAt pn 3,
      byteAt pn 2, byteAt pn 1, byteAt pn 0])

/-- The bits of the first byte that header protection covers. -/
def firstByteMask (isLong : Bool) : UInt8 := if isLong then 0x0f else 0x1f

/-- XOR `mask` into `bytes` from the start; the bytes beyond it are kept. -/
def xorBytes (bytes mask : Bytes) : Bytes :=
  List.zipWith (· ^^^ ·) bytes mask ++ bytes.drop mask.length

/-- Header protection: mask the first byte and the packet-number bytes. -/
def applyHeaderMask (isLong : Bool) (pnOffset pnLen : Nat) (mask packet : Bytes) : Bytes :=
  match packet with
  | [] => []
  | first :: rest =>
      (first ^^^ (mask.headD 0 &&& firstByteMask isLong))
        :: (rest.take (pnOffset - 1)
          ++ xorBytes (rest.drop (pnOffset - 1)) ((mask.drop 1).take pnLen))

/-- `mutable_hdr`: four packet-number bytes unless the header says otherwise, and
    the Length of a long header. -/
def mutableHdr (hdr : PacketHeader) (plaintextLen : Nat) : PacketHeader :=
  let pnLen := if hdr.packetNumberLen = 0 then 4 else hdr.packetNumberLen
  { hdr with
    packetNumberLen := pnLen
    length := if hdr.isLong then plaintextLen + 16 + pnLen else hdr.length }

/-- The header-protection half of `protect_packet`.  A packet too short for a
    sample, or one whose mask fails, keeps its header bare, as in the code. -/
def protectHeader (k : K) (isLong : Bool) (pnOffset pnLen : Nat) (packet : Bytes) : Bytes :=
  if packet.length < pnOffset + 4 + 16 then packet
  else
    match ops.mask k ((packet.drop (pnOffset + 4)).take 16) with
    | none => packet
    | some mask => applyHeaderMask isLong pnOffset pnLen mask packet

/-- `CryptoSuite::protect_packet`: the sealed packet, `none` when it returns
    false. -/
def protectPacket (keys : ProtectionKeys K) (hdr : PacketHeader) (plaintext : Bytes) :
    Option Bytes :=
  if keys.valid then
    let hdr := mutableHdr hdr plaintext.length
    let header := packPacketHeader hdr
    (ops.encrypt keys.material (nonce (ops.iv keys.material) hdr.packetNumber) header
        plaintext).map fun sealedBytes =>
      protectHeader ops keys.material hdr.isLong (header.length - hdr.packetNumberLen)
        hdr.packetNumberLen (header ++ sealedBytes)
  else none

/-- `full_pn`: the packet number nearest to `largest + 1` with the given low
    bits (RFC 9000 §A.3). -/
def fullPn (truncated pnLen largest : Nat) : Nat :=
  let win := 1 <<< (pnLen * 8)
  let half := win / 2
  let expected := largest + 1
  let candidate := (expected / win * win) ||| truncated
  if candidate + half ≤ expected then candidate + win
  else if candidate > expected + half ∧ candidate ≥ win then candidate - win
  else candidate

/-- The keys `unprotect_packet` tries: the next generation when a short header
    shows the other key phase. -/
def candidateKeys (keys : ProtectionKeys K) (isLong keyPhase : Bool) :
    Option (ProtectionKeys K) :=
  if !isLong && keyPhase != (keys.keyPhase != 0) then updateKeys ops keys else some keys

/-- `CryptoSuite::unprotect_packet`: the keys after the call (the next
    generation is committed only once the tag has verified), the header with its
    protection removed, and the plaintext; `none` when it returns false. -/
def unprotectPacket (keys : ProtectionKeys K) (packet : Bytes)
    (largestPn expectedDcidLen : Nat) :
    Option (ProtectionKeys K × PacketHeader × Bytes) := do
  let hdr ← unpackPacketHeader packet expectedDcidLen
  let pnOffset := hdr.pnOffset
  if packet.length < pnOffset + 4 + 16 then none
  else
    let mask ← ops.mask keys.material ((packet.drop (pnOffset + 4)).take 16)
    let first := packet.headD 0 ^^^ (mask.headD 0 &&& firstByteMask hdr.isLong)
    let pnLen := (first.toNat &&& 0x03) + 1
    let hdr := { hdr with
      keyPhase := if hdr.isLong then hdr.keyPhase else first.toNat &&& 0x04 != 0
      packetNumberLen := pnLen }
    if packet.length < pnOffset + pnLen + 16 then none
    else
      let unmasked := applyHeaderMask hdr.isLong pnOffset pnLen mask packet
      let truncated := beNat ((unmasked.drop pnOffset).take pnLen)
      let pn := fullPn truncated pnLen largestPn
      let hdr := { hdr with packetNumber := pn }
      let hdrLen := pnOffset + pnLen
      let total :=
        if hdr.isLong && 0 < hdr.length && pnOffset + hdr.length ≤ packet.length then
          pnOffset + hdr.length
        else packet.length
      if total < hdrLen + 16 then none
      else
        let keys ← candidateKeys ops keys hdr.isLong hdr.keyPhase
        let plaintext ← ops.decrypt keys.material (nonce (ops.iv keys.material) pn)
          (unmasked.take hdrLen) ((packet.drop hdrLen).take (total - hdrLen))
        some (keys, hdr, plaintext)

end QuicCrypto
