import WaveX.VarInt

/-! # Packet headers

    `ConnectionId`, `PacketType`, `PacketHeader` and the two header functions of
    `src/Network/QUIC/QuicPacket.cpp`. -/

namespace QuicPacket

open QuicVarInt

/-- `MAX_CONNECTION_ID_LEN`. -/
def maxConnectionIdLen : Nat := 20

/-- `ConnectionId`: at most 20 bytes. -/
structure ConnectionId where
  bytes : Bytes
  length_le : bytes.length ≤ maxConnectionIdLen
  deriving DecidableEq, Repr

/-- `ConnectionId(src, len)`: longer sources are cut to 20 bytes. -/
def ConnectionId.ofBytes (src : Bytes) : ConnectionId :=
  ⟨src.take maxConnectionIdLen, List.length_take_le _ _⟩

/-- `ConnectionId::length`. -/
def ConnectionId.length (cid : ConnectionId) : Nat := cid.bytes.length

/-- `ConnectionId::empty`. -/
def ConnectionId.empty (cid : ConnectionId) : Bool := cid.bytes.isEmpty

instance : Inhabited ConnectionId := ⟨ConnectionId.ofBytes []⟩

/-- `PacketType`. -/
inductive PacketType where
  | initial
  | zeroRtt
  | handshake
  | retry
  | oneRtt
  | versionNegotiation
  deriving DecidableEq, Repr

/-- The numeric value of a `PacketType`. -/
def PacketType.code : PacketType → Nat
  | .initial => 0x00
  | .zeroRtt => 0x01
  | .handshake => 0x02
  | .retry => 0x03
  | .oneRtt => 0x04
  | .versionNegotiation => 0x05

/-- `static_cast<PacketType>((first >> 4) & 0x03)`. -/
def PacketType.ofLongBits (first : Nat) : PacketType :=
  match (first >>> 4) &&& 0x03 with
  | 0 => .initial
  | 1 => .zeroRtt
  | 2 => .handshake
  | _ => .retry

/-- The three packet-number spaces. -/
inductive PnSpace where
  | initial
  | handshake
  | application
  deriving DecidableEq, Repr

/-- `space_index`: 0-RTT, 1-RTT and everything else share the last space. -/
def spaceIndex : PacketType → PnSpace
  | .initial => .initial
  | .handshake => .handshake
  | _ => .application

/-- `PacketHeader`. -/
structure PacketHeader where
  token : Bytes := []
  length : Nat := 0
  packetNumber : Nat := 0
  version : Nat := 1
  pnOffset : Nat := 0
  dcid : ConnectionId := default
  scid : ConnectionId := default
  type : PacketType := .oneRtt
  packetNumberLen : Nat := 4
  isLong : Bool := false
  keyPhase : Bool := false
  deriving DecidableEq, Repr

/-- The low `len` bytes of `pn`, most significant first. -/
def packPacketNumber (pn : Nat) : Nat → Bytes
  | 0 => []
  | len + 1 => byteAt pn len :: packPacketNumber pn len

/-- `pack_packet_header`: the bytes appended to `out`. -/
def packPacketHeader (hdr : PacketHeader) : Bytes :=
  if hdr.isLong then
    [UInt8.ofNat (0xc0 ||| ((hdr.type.code &&& 0x03) <<< 4)
        ||| ((hdr.packetNumberLen - 1) &&& 0x03))]
      ++ [byteAt hdr.version 3, byteAt hdr.version 2, byteAt hdr.version 1,
          byteAt hdr.version 0]
      ++ UInt8.ofNat hdr.dcid.length :: hdr.dcid.bytes
      ++ UInt8.ofNat hdr.scid.length :: hdr.scid.bytes
      ++ (if hdr.type = .initial then encode hdr.token.length ++ hdr.token else [])
      ++ encode hdr.length
      ++ packPacketNumber hdr.packetNumber hdr.packetNumberLen
  else
    [UInt8.ofNat (0x40 ||| (if hdr.keyPhase then 0x04 else 0)
        ||| ((hdr.packetNumberLen - 1) &&& 0x03))]
      ++ hdr.dcid.bytes
      ++ packPacketNumber hdr.packetNumber hdr.packetNumberLen

/-- A big-endian number. -/
def beNat (bytes : Bytes) : Nat := bytes.foldl (fun v b => (v <<< 8) ||| b.toNat) 0

/-- A connection id with its length byte. -/
def unpackCid : Bytes → Option (ConnectionId × Bytes)
  | [] => none
  | len :: rest =>
      if len.toNat > maxConnectionIdLen ∨ rest.length < len.toNat then none
      else some (ConnectionId.ofBytes (rest.take len.toNat), rest.drop len.toNat)

/-- The token of an Initial packet. -/
def unpackToken (rest : Bytes) : Option (Bytes × Bytes) := do
  let (len, rest) ← decode rest
  if rest.length < len then none else some (rest.take len, rest.drop len)

/-- `unpack_packet_header`: the header, `none` when it returns false.  The packet
    number read here is still masked; it is only read when enough bytes follow. -/
def unpackPacketHeader (raw : Bytes) (expectedDcidLen : Nat) : Option PacketHeader :=
  match raw with
  | [] => none
  | firstByte :: rest =>
      let first := firstByte.toNat
      let pnLen := (first &&& 0x03) + 1
      if first &&& 0x80 != 0 then do
        let type := PacketType.ofLongBits first
        if rest.length < 4 then none
        else
          let version := beNat (rest.take 4)
          let (dcid, rest) ← unpackCid (rest.drop 4)
          let (scid, rest) ← unpackCid rest
          let (token, rest) ← if type = .initial then unpackToken rest else some ([], rest)
          let (length, rest) ← decode rest
          some
            { token := token
              length := length
              packetNumber :=
                if rest.length < pnLen then 0 else beNat (rest.take pnLen)
              version := version
              pnOffset := raw.length - rest.length
              dcid := dcid
              scid := scid
              type := type
              packetNumberLen := pnLen
              isLong := true }
      else
        let dcidLen := if expectedDcidLen > 0 then expectedDcidLen else 8
        if rest.length < dcidLen then none
        else
          some
            { packetNumber :=
                if (rest.drop dcidLen).length < pnLen then 0
                else beNat ((rest.drop dcidLen).take pnLen)
              pnOffset := 1 + dcidLen
              dcid := ConnectionId.ofBytes (rest.take dcidLen)
              type := .oneRtt
              packetNumberLen := pnLen
              isLong := false
              keyPhase := first &&& 0x04 != 0 }

end QuicPacket
