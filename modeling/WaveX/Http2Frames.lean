import WaveX.Hpack

/-! # HTTP/2 frames

    The frame layer of `http2codec.hpp` and the helpers of
    `src/protos/http/http2session.cpp`: frame headers, the frames a session writes, and
    the parts of a received payload.  A frame that a session handles or queues is a
    `Frame`; its length is that of its payload. -/

namespace Http2Frames

open QuicVarInt

/-! ## Types, flags and codes -/

/-- `frame_type`; a byte outside the enumeration keeps its value. -/
inductive FrameType where
  | data
  | headers
  | priority
  | rstStream
  | settings
  | pushPromise
  | ping
  | goaway
  | windowUpdate
  | continuation
  | extension (byte : Nat)
  deriving DecidableEq, Repr

/-- `static_cast<frame_type>` of a byte. -/
def FrameType.ofByte : Nat → FrameType
  | 0 => .data
  | 1 => .headers
  | 2 => .priority
  | 3 => .rstStream
  | 4 => .settings
  | 5 => .pushPromise
  | 6 => .ping
  | 7 => .goaway
  | 8 => .windowUpdate
  | 9 => .continuation
  | n => .extension n

/-- The byte of a frame type. -/
def FrameType.toByte : FrameType → Nat
  | .data => 0
  | .headers => 1
  | .priority => 2
  | .rstStream => 3
  | .settings => 4
  | .pushPromise => 5
  | .ping => 6
  | .goaway => 7
  | .windowUpdate => 8
  | .continuation => 9
  | .extension n => n

/-- `flags::END_STREAM`. -/
def flagEndStream : Nat := 0x01

/-- `flags::ACK`. -/
def flagAck : Nat := 0x01

/-- `flags::END_HEADERS`. -/
def flagEndHeaders : Nat := 0x04

/-- `flags::PADDED`. -/
def flagPadded : Nat := 0x08

/-- `flags::PRIORITY`. -/
def flagPriority : Nat := 0x20

/-- `error_code`, the values a session uses. -/
inductive ErrorCode where
  | noError
  | protocolError
  | flowControlError
  | streamClosed
  | frameSizeError
  | refusedStream
  | cancel
  | compressionError
  | enhanceYourCalm
  deriving DecidableEq, Repr

/-- The wire value of an error code. -/
def ErrorCode.value : ErrorCode → Nat
  | .noError => 0x0
  | .protocolError => 0x1
  | .flowControlError => 0x3
  | .streamClosed => 0x5
  | .frameSizeError => 0x6
  | .refusedStream => 0x7
  | .cancel => 0x8
  | .compressionError => 0x9
  | .enhanceYourCalm => 0xb

/-! ## Frames -/

/-- A frame: the fields of its header and its payload. -/
structure Frame where
  type : FrameType
  flags : Nat := 0
  streamId : Nat
  payload : Bytes
  deriving DecidableEq, Repr

/-- `has_flag`. -/
def Frame.hasFlag (f : Frame) (flag : Nat) : Bool := f.flags &&& flag == flag

/-- `frame_header::HEADER_SIZE`. -/
def headerSize : Nat := 9

/-- The size of a frame on the wire. -/
def Frame.wireSize (f : Frame) : Nat := headerSize + f.payload.length

/-- A 32-bit number, big-endian. -/
def u32 (n : Nat) : Bytes := [byteAt n 3, byteAt n 2, byteAt n 1, byteAt n 0]

/-- `read_u32`: 0 for fewer than four bytes. -/
def readU32 : Bytes → Nat
  | b3 :: b2 :: b1 :: b0 :: _ =>
      b3.toNat <<< 24 ||| b2.toNat <<< 16 ||| b1.toNat <<< 8 ||| b0.toNat
  | _ => 0

/-- `encode_frame`: the length goes into 24 bits, the stream id into 31. -/
def encodeFrame (f : Frame) : Bytes :=
  [byteAt f.payload.length 2, byteAt f.payload.length 1, byteAt f.payload.length 0,
    UInt8.ofNat f.type.toByte, UInt8.ofNat f.flags] ++
  u32 (f.streamId &&& 0x7fffffff) ++ f.payload

/-- A frame header read off a buffer: length, type, flags and stream id. -/
structure FrameHeader where
  length : Nat
  type : FrameType
  flags : Nat
  streamId : Nat
  deriving DecidableEq, Repr

/-- `unpack_frame_header`. -/
def unpackFrameHeader : Bytes → Option FrameHeader
  | l2 :: l1 :: l0 :: t :: fl :: s3 :: s2 :: s1 :: s0 :: _ => some {
      length := l2.toNat <<< 16 ||| l1.toNat <<< 8 ||| l0.toNat
      type := .ofByte t.toNat
      flags := fl.toNat
      streamId := (s3.toNat &&& 0x7f) <<< 24 ||| s2.toNat <<< 16 ||| s1.toNat <<< 8 |||
        s0.toNat }
  | _ => none

/-- The frames at the start of a buffer, up to the first that is not complete; a frame
    has at least nine bytes, so the buffer's length is enough for the count. -/
def wireFramesUpTo : Nat → Bytes → List Frame
  | 0, _ => []
  | fuel + 1, bytes =>
      match unpackFrameHeader bytes with
      | none => []
      | some hdr =>
          if headerSize + hdr.length > bytes.length then []
          else
            ⟨hdr.type, hdr.flags, hdr.streamId, (bytes.drop headerSize).take hdr.length⟩ ::
              wireFramesUpTo fuel (bytes.drop (headerSize + hdr.length))

/-- The frames `send_frames` finds in the bytes it is handed. -/
def wireFrames (bytes : Bytes) : List Frame := wireFramesUpTo bytes.length bytes

/-! ## The frames a session writes -/

/-- `serialize_rst_stream`. -/
def rstStreamFrame (sid : Nat) (err : ErrorCode) : Frame :=
  { type := .rstStream, streamId := sid, payload := u32 err.value }

/-- `serialize_goaway` without debug data. -/
def goawayFrame (lastSid : Nat) (err : ErrorCode) : Frame :=
  { type := .goaway, streamId := 0, payload := u32 (lastSid &&& 0x7fffffff) ++ u32 err.value }

/-- `serialize_window_update`. -/
def windowUpdateFrame (sid increment : Nat) : Frame :=
  { type := .windowUpdate, streamId := sid, payload := u32 (increment &&& 0x7fffffff) }

/-- `serialize_settings_ack`. -/
def settingsAckFrame : Frame :=
  { type := .settings, flags := flagAck, streamId := 0, payload := [] }

/-- The flags of a frame that may end its stream. -/
def endStreamFlags (endStream : Bool) : Nat := if endStream then flagEndStream else 0

/-- `serialize_data_frame` and the DATA frames of `send_frames`. -/
def dataFrame (sid : Nat) (payload : Bytes) (endStream : Bool) : Frame :=
  { type := .data, flags := endStreamFlags endStream, streamId := sid, payload }

/-- The CONTINUATION frames of a header block; the last one ends it. -/
def continuationFrames (sid maxFrameSize : Nat) : Nat → Bytes → List Frame
  | 0, _ => []
  | fuel + 1, block =>
      if block = [] then []
      else
        let last := (block.drop maxFrameSize).isEmpty
        { type := .continuation, flags := if last then flagEndHeaders else 0, streamId := sid,
          payload := block.take maxFrameSize } ::
        continuationFrames sid maxFrameSize fuel (block.drop maxFrameSize)

/-- `encode_header_frames`. -/
def encodeHeaderFrames (sid : Nat) (block : Bytes) (endStream : Bool) (maxFrameSize : Nat) :
    List Frame :=
  if block.length ≤ maxFrameSize then
    [{ type := .headers, flags := endStreamFlags endStream ||| flagEndHeaders, streamId := sid,
       payload := block }]
  else
    { type := .headers, flags := endStreamFlags endStream, streamId := sid,
      payload := block.take maxFrameSize } ::
    continuationFrames sid maxFrameSize block.length (block.drop maxFrameSize)

/-- The payload of a SETTINGS frame: six bytes for each parameter. -/
def settingsPayload : List (Nat × Nat) → Bytes
  | [] => []
  | (id, value) :: rest => byteAt id 1 :: byteAt id 0 :: u32 value ++ settingsPayload rest

/-- `session_preamble`: the server's SETTINGS, then the connection window. -/
def sessionPreamble : List Frame :=
  [{ type := .settings, streamId := 0,
     payload := settingsPayload [(3, 100), (4, 1 <<< 20), (2, 0), (6, 65536), (8, 1)] },
   windowUpdateFrame 0 ((16 <<< 20) - 65535)]

/-! ## The parts of a received payload -/

/-- The padding of a HEADERS or DATA payload: its length and where the content starts.
    `none` for a padded frame without payload. -/
def padding (f : Frame) : Option (Nat × Nat) :=
  if f.hasFlag flagPadded then f.payload.head?.map fun b => (b.toNat, 1) else some (0, 0)

/-- `headers_fragment`: `none` when malformed. -/
def headersFragment (f : Frame) : Option Bytes := do
  let (pad, start) ← padding f
  let cursor := start + (if f.hasFlag flagPriority then 5 else 0)
  if f.payload.length < cursor + pad then none
  else some ((f.payload.drop cursor).take (f.payload.length - cursor - pad))

/-- `data_payload`: `none` when malformed. -/
def dataPayload (f : Frame) : Option Bytes := do
  let (pad, start) ← padding f
  if f.payload.length < start + pad then none
  else some ((f.payload.drop start).take (f.payload.length - start - pad))

/-- The parameters of a SETTINGS payload, identifier and value. -/
def settingsOf : Bytes → List (Nat × Nat)
  | i1 :: i0 :: v3 :: v2 :: v1 :: v0 :: rest =>
      (i1.toNat <<< 8 ||| i0.toNat, readU32 [v3, v2, v1, v0]) :: settingsOf rest
  | _ => []

/-- The increment of a WINDOW_UPDATE payload. -/
def windowIncrement (payload : Bytes) : Nat := readU32 payload &&& 0x7fffffff

end Http2Frames
