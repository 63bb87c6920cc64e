import WaveX.VarInt

/-! # QUIC frames

    The frame types of `include/wavex/Network/QUIC/QuicFrames.hpp` with
    `serialize_frame` and `parse_frames` of `src/Network/QUIC/QuicFrames.cpp`.

    `parse_frames` is one loop over the payload.  Its body is `parseFrame`: it
    reads one frame off the wire and reports the frame's type, the entry (if
    any) it appends to the vector of frames, and the bytes left.  Four types are
    consumed without an entry (`NEW_CONNECTION_ID`, `RETIRE_CONNECTION_ID`,
    `PATH_CHALLENGE`, `PATH_RESPONSE`), so the types on the wire (`wireTypes`)
    and the vector (`parseFrames`) are kept apart. -/

namespace QuicFrames

open QuicVarInt

/-- `AckRange`. -/
structure AckRange where
  gap : Nat := 0
  ackRangeLen : Nat := 0
  deriving DecidableEq, Repr

/-- `AckFrame`. -/
structure AckFrame where
  ranges : List AckRange := []
  largestAcknowledged : Nat := 0
  ackDelay : Nat := 0
  ecn : Bool := false
  deriving DecidableEq, Repr

/-- `StreamFrame`; `owned_data` is the same bytes as `data`. -/
structure StreamFrame where
  data : Bytes := []
  streamId : Nat := 0
  offset : Nat := 0
  fin : Bool := false
  hasOffset : Bool := false
  hasLength : Bool := true
  deriving DecidableEq, Repr

/-- `CryptoFrame`. -/
structure CryptoFrame where
  data : Bytes := []
  offset : Nat := 0
  deriving DecidableEq, Repr

/-- `ConnectionCloseFrame`. -/
structure ConnectionCloseFrame where
  reasonPhrase : Bytes := []
  errorCode : Nat := 0
  frameType : Nat := 0
  isApplication : Bool := false
  deriving DecidableEq, Repr

/-- The variant `Frame`, in the order of its alternatives. -/
inductive Frame where
  | padding (length : Nat)
  | ping
  | ack (f : AckFrame)
  | resetStream (streamId errorCode finalSize : Nat)
  | stopSending (streamId errorCode : Nat)
  | crypto (f : CryptoFrame)
  | newToken (token : Bytes)
  | stream (f : StreamFrame)
  | maxData (maxData : Nat)
  | maxStreamData (streamId maxStreamData : Nat)
  | maxStreams (maxStreams : Nat) (bidirectional : Bool)
  | dataBlocked (dataLimit : Nat)
  | streamDataBlocked (streamId streamDataLimit : Nat)
  | streamsBlocked (streamLimit : Nat) (bidirectional : Bool)
  | connectionClose (f : ConnectionCloseFrame)
  | handshakeDone
  | datagram (data : Bytes)
  deriving DecidableEq, Repr

/-- `serialize_frame`: the bytes appended to `out`. -/
def serializeFrame : Frame → Bytes
  | .padding length => List.replicate length 0
  | .ping => encode 0x01
  | .ack f =>
      encode 0x02 ++ encode f.largestAcknowledged ++ encode f.ackDelay
        ++ encode (f.ranges.length - 1)
        ++ encode ((f.ranges.head?.map AckRange.ackRangeLen).getD 0)
        ++ (f.ranges.drop 1).flatMap (fun r => encode r.gap ++ encode r.ackRangeLen)
  | .resetStream sid err final => encode 0x04 ++ encode sid ++ encode err ++ encode final
  | .stopSending sid err => encode 0x05 ++ encode sid ++ encode err
  | .crypto f => encode 0x06 ++ encode f.offset ++ encode f.data.length ++ f.data
  | .newToken token => encode 0x07 ++ encode token.length ++ token
  | .stream f =>
      [UInt8.ofNat (0x08 ||| (if f.hasOffset then 0x04 else 0)
          ||| (if f.hasLength then 0x02 else 0) ||| (if f.fin then 0x01 else 0))]
        ++ encode f.streamId
        ++ (if f.hasOffset then encode f.offset else [])
        ++ (if f.hasLength then encode f.data.length else [])
        ++ f.data
  | .maxData v => encode 0x10 ++ encode v
  | .maxStreamData sid v => encode 0x11 ++ encode sid ++ encode v
  | .maxStreams v bidi => encode (if bidi then 0x12 else 0x13) ++ encode v
  | .dataBlocked v => encode 0x14 ++ encode v
  | .streamDataBlocked sid v => encode 0x15 ++ encode sid ++ encode v
  | .streamsBlocked v bidi => encode (if bidi then 0x16 else 0x17) ++ encode v
  | .connectionClose f =>
      encode (if f.isApplication then 0x1d else 0x1c) ++ encode f.errorCode
        ++ (if f.isApplication then [] else encode f.frameType)
        ++ encode f.reasonPhrase.length ++ f.reasonPhrase
  | .handshakeDone => encode 0x1e
  | .datagram data => encode 0x31 ++ encode data.length ++ data

/-! ## Reading one frame -/

/-- `len` bytes at the cursor, refused when they exceed the payload bounds. -/
def takeBytes (len : Nat) (rest : Bytes) : Option (Bytes × Bytes) :=
  if rest.length < len then none else some (rest.take len, rest.drop len)

/-- The additional ACK ranges: `count` pairs of gap and length. -/
def parseAckRanges : Nat → Bytes → Option (List AckRange × Bytes)
  | 0, rest => some ([], rest)
  | count + 1, rest => do
      let (gap, rest) ← decode rest
      let (len, rest) ← decode rest
      let (ranges, rest) ← parseAckRanges count rest
      some (⟨gap, len⟩ :: ranges, rest)

/-- A STREAM frame after its type byte `peek` (`0x08` to `0x0f`). -/
def parseStreamFrame (peek : Nat) (rest : Bytes) : Option (Frame × Bytes) := do
  let hasOffset := peek &&& 0x04 != 0
  let hasLength := peek &&& 0x02 != 0
  let (sid, rest) ← decode rest
  let (offset, rest) ← if hasOffset then decode rest else some (0, rest)
  let (len, rest) ← if hasLength then decode rest else some (rest.length, rest)
  let (data, rest) ← takeBytes len rest
  some (.stream ⟨data, sid, offset, peek &&& 0x01 != 0, hasOffset, hasLength⟩, rest)

/-- An ACK (`0x02`) or ACK_ECN (`0x03`) frame after its type; the three ECN
    counts are read and dropped. -/
def parseAckFrame (ecn : Bool) (rest : Bytes) : Option (Frame × Bytes) := do
  let (largest, rest) ← decode rest
  let (delay, rest) ← decode rest
  let (rangeCount, rest) ← decode rest
  let (firstRange, rest) ← decode rest
  let (ranges, rest) ← parseAckRanges rangeCount rest
  let ack : AckFrame := ⟨⟨0, firstRange⟩ :: ranges, largest, delay, ecn⟩
  if ecn then do
    let (_, rest) ← decode rest
    let (_, rest) ← decode rest
    let (_, rest) ← decode rest
    some (.ack ack, rest)
  else some (.ack ack, rest)

/-- A CONNECTION_CLOSE frame after its type (`0x1c`, or `0x1d` when
    `isApplication`). -/
def parseConnectionClose (isApplication : Bool) (rest : Bytes) :
    Option (Frame × Bytes) := do
  let (err, rest) ← decode rest
  let (frameType, rest) ← if isApplication then some (0, rest) else decode rest
  let (len, rest) ← decode rest
  let (reason, rest) ← takeBytes len rest
  some (.connectionClose ⟨reason, err, frameType, isApplication⟩, rest)

/-- NEW_CONNECTION_ID after its type: sequence number, retire-prior-to, a
    connection id of 1 to 20 bytes and the 16-byte reset token are skipped. -/
def skipNewConnectionId (rest : Bytes) : Option Bytes := do
  let (_, rest) ← decode rest
  let (_, rest) ← decode rest
  match rest with
  | [] => none
  | cidLen :: rest =>
      if cidLen.toNat < 1 ∨ cidLen.toNat > 20 ∨ rest.length < cidLen.toNat + 16 then none
      else some (rest.drop (cidLen.toNat + 16))

/-- The frame of type `rawType` whose type varint has been read: the entry it
    adds to the vector (`none` for the four skipped types) and the bytes left.
    The outer `none` is `PARSE_FAIL`.  The length of a PADDING run is counted in
    a `uint32_t`. -/
def parseTyped (rawType : Nat) (rest : Bytes) : Option (Option Frame × Bytes) :=
  match rawType with
  | 0x00 => some (some (.padding ((1 + (rest.takeWhile (· == 0)).length) % 2 ^ 32)),
      rest.dropWhile (· == 0))
  | 0x01 => some (some .ping, rest)
  | 0x02 => (parseAckFrame false rest).map fun p => (some p.1, p.2)
  | 0x03 => (parseAckFrame true rest).map fun p => (some p.1, p.2)
  | 0x04 => do
      let (sid, rest) ← decode rest
      let (err, rest) ← decode rest
      let (final, rest) ← decode rest
      some (some (.resetStream sid err final), rest)
  | 0x05 => do
      let (sid, rest) ← decode rest
      let (err, rest) ← decode rest
      some (some (.stopSending sid err), rest)
  | 0x06 => do
      let (offset, rest) ← decode rest
      let (len, rest) ← decode rest
      let (data, rest) ← takeBytes len rest
      some (some (.crypto ⟨data, offset⟩), rest)
  | 0x07 => do
      let (len, rest) ← decode rest
      let (token, rest) ← takeBytes len rest
      some (some (.newToken token), rest)
  | 0x10 => do
      let (v, rest) ← decode rest
      some (some (.maxData v), rest)
  | 0x11 => do
      let (sid, rest) ← decode rest
      let (v, rest) ← decode rest
      some (some (.maxStreamData sid v), rest)
  | 0x12 => do
      let (v, rest) ← decode rest
      some (some (.maxStreams v true), rest)
  | 0x13 => do
      let (v, rest) ← decode rest
      some (some (.maxStreams v false), rest)
  | 0x14 => do
      let (v, rest) ← decode rest
      some (some (.dataBlocked v), rest)
  | 0x15 => do
      let (sid, rest) ← decode rest
      let (v, rest) ← decode rest
      some (some (.streamDataBlocked sid v), rest)
  | 0x16 => do
      let (v, rest) ← decode rest
      some (some (.streamsBlocked v true), rest)
  | 0x17 => do
      let (v, rest) ← decode rest
      some (some (.streamsBlocked v false), rest)
  | 0x18 => (skipNewConnectionId rest).map fun rest => (none, rest)
  | 0x19 => (decode rest).map fun p => (none, p.2)
  | 0x1a => (takeBytes 8 rest).map fun p => (none, p.2)
  | 0x1b => (takeBytes 8 rest).map fun p => (none, p.2)
  | 0x1c => (parseConnectionClose false rest).map fun p => (some p.1, p.2)
  | 0x1d => (parseConnectionClose true rest).map fun p => (some p.1, p.2)
  | 0x1e => some (some .handshakeDone, rest)
  | 0x30 => some (some (.datagram rest), [])
  | 0x31 => do
      let (len, rest) ← decode rest
      let (data, rest) ← takeBytes len rest
      some (some (.datagram data), rest)
  | _ => none

/-- One round of the loop of `parse_frames`: the frame type on the wire, the
    entry it adds to the vector, and the rest of the payload. -/
def parseFrame (payload : Bytes) : Option (Nat × Option Frame × Bytes) :=
  match payload with
  | [] => none
  | first :: rest =>
      if 0x08 ≤ first.toNat ∧ first.toNat ≤ 0x0f then
        (parseStreamFrame first.toNat rest).map fun p => (first.toNat, some p.1, p.2)
      else do
        let (rawType, rest) ← decode payload
        let (entry, rest) ← parseTyped rawType rest
        some (rawType, entry, rest)

/-- The loop of `parse_frames` with its rounds counted down; every round takes
    at least one byte, so the payload's length is enough rounds. -/
def parseLoop : Nat → Bytes → Option (List (Nat × Option Frame))
  | _, [] => some []
  | 0, _ :: _ => none
  | fuel + 1, payload => do
      let (rawType, entry, rest) ← parseFrame payload
      let tail ← parseLoop fuel rest
      some ((rawType, entry) :: tail)

/-- `parse_frames`: the vector of frames, `none` when it returns false. -/
def parseFrames (payload : Bytes) : Option (List Frame) :=
  (parseLoop payload.length payload).map (·.filterMap Prod.snd)

/-- The types of the frames on the wire, in order, of a payload that
    `parse_frames` accepts. -/
def wireTypes (payload : Bytes) : Option (List Nat) :=
  (parseLoop payload.length payload).map (·.map Prod.fst)

end QuicFrames
