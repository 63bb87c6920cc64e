import WaveX.HttpText
import WaveX.Http2FrameCodec
import WaveX.Http2Session

/-! # The HTTP/2 message parser

    `http2::parser` of `include/wavex/protos/http/http2codec.hpp`: `parse_frame`,
    `parse_request` and `parse_response`.  Both parsers start from scratch on every buffer
    and run the same loop over its frames; it ends at END_STREAM or where the bytes run
    out.  They work on a copy of the HPACK table and put it back only on success.

    A message is what the parser leaves in the object it is given; views into storage and
    the status text, which is looked up by the status code, are left out. -/

namespace Http2Parser

open QuicVarInt HttpText Hpack Http2Frames Http2FrameCodec
open Http2Session (defaultMaxHeaderListSize)

/-! ## Frames -/

/-- `parser::result`. -/
inductive ParseResult where
  | success
  | incomplete
  | error
  | headersTooLarge
  deriving DecidableEq, Repr

/-- `parse_frame`: the frame at the start of the buffer and its size, or the result. -/
def parseFrame (buffer : Bytes) : Except ParseResult (Frame × Nat) :=
  if buffer.length < headerSize then .error .incomplete
  else
    match unpackFrameHeader buffer with
    | none => .error .error
    | some hdr =>
        let totalFrameLen := headerSize + hdr.length
        if buffer.length < totalFrameLen then .error .incomplete
        else .ok (⟨hdr.type, hdr.flags, hdr.streamId, (buffer.drop headerSize).take hdr.length⟩,
          totalFrameLen)

/-! ## The loop -/

/-- What the loop has gathered: the cursor, the stream id of the message, the decoded
    fields, the body and the working copy of the table. -/
structure Gathered where
  cursor : Nat := 0
  streamId : Nat
  table : DynamicTable
  decodedHeaders : List Field := []
  headersReceived : Bool := false
  bodyAccumulator : Bytes := []
  deriving DecidableEq, Repr

/-- What one frame makes of the loop: it goes on, it is left, or the parser returns. -/
inductive Turn where
  | next (g : Gathered)
  | leave (g : Gathered)
  | fail (r : ParseResult) (g : Gathered)
  deriving DecidableEq, Repr

/-- END_STREAM leaves the loop. -/
def turn (f : Frame) (g : Gathered) : Turn :=
  if f.hasFlag flagEndStream then .leave g else .next g

/-- The body of the loop after `parse_frame`; `tooLarge` is the result for a header list
    beyond the cap.  The parsers check the five bytes of a priority on their own before
    they check the padding, which covers them. -/
def onFrame (tooLarge : ParseResult) (g : Gathered) (f : Frame) : Turn :=
  match f.type with
  | .settings => .next g
  | .headers =>
      let g := { g with streamId := f.streamId }
      match headersFragment f with
      | none => .fail .error g
      | some headerBlock =>
          let d := decodeHeaderBlock defaultMaxHeaderListSize headerBlock g.table
          if d.ok then
            turn f { g with
              table := d.table
              decodedHeaders := g.decodedHeaders ++ d.headers
              headersReceived := true }
          else .fail (if d.limitExceeded then tooLarge else .error) g
  | .data =>
      if f.streamId = g.streamId then
        match dataPayload f with
        | none => .fail .error g
        | some data => turn f { g with bodyAccumulator := g.bodyAccumulator ++ data }
      else .next g
  | _ => .next g

/-- The loop over the frames of a buffer, with its rounds counted down: `success` when it
    ends without a result.  Every round takes a frame, so the length of the buffer is
    enough. -/
def gather (tooLarge : ParseResult) : Nat → Gathered → Bytes → ParseResult × Gathered
  | 0, g, _ => (.success, g)
  | fuel + 1, g, remaining =>
      if remaining = [] then (.success, g)
      else
        match parseFrame remaining with
        | .error r => (if g.headersReceived then .incomplete else r, g)
        | .ok (f, frameBytes) =>
            match onFrame tooLarge { g with cursor := g.cursor + frameBytes } f with
            | .fail r g => (r, g)
            | .leave g => (.success, g)
            | .next g => gather tooLarge fuel g (remaining.drop frameBytes)

/-- What a parser leaves behind: its result, the message, `bytes_consumed` and the table. -/
structure Outcome (α : Type) where
  result : ParseResult
  message : α
  bytesConsumed : Nat
  table : DynamicTable
  deriving DecidableEq, Repr

/-! ## Responses -/

/-- `http2::response`. -/
structure Response where
  statusCode : Nat := 200
  headers : List Field := []
  body : Bytes := []
  streamId : Nat := 1
  deriving DecidableEq, Repr

/-- `status_code` of a `:status` field: 200 when it is not a number. -/
def statusOf (value : Bytes) : Nat := ((fromChars value).map Prod.fst).getD 200 % 2 ^ 32

/-- The transfer of the decoded fields into a response. -/
def addField (res : Response) (f : Field) : Response :=
  if f.1 = text ":status" then { res with statusCode := statusOf f.2 }
  else { res with headers := res.headers ++ [f] }

/-- The end of `parse_response`, after the loop. -/
def finishResponse (res : Response) (dt : DynamicTable) : ParseResult × Gathered → Outcome Response
  | (r, g) =>
      let cleared := { res with headers := [], body := [], streamId := g.streamId }
      if r ≠ .success then ⟨r, cleared, 0, dt⟩
      else if ¬ g.headersReceived then ⟨.incomplete, cleared, 0, dt⟩
      else ⟨.success, { g.decodedHeaders.foldl addField cleared with body := g.bodyAccumulator },
        g.cursor, g.table⟩

/-- `parse_response`. -/
def parseResponse (buffer : Bytes) (res : Response) (dt : DynamicTable) : Outcome Response :=
  finishResponse res dt
    (gather .error buffer.length { streamId := res.streamId, table := dt } buffer)

/-! ## Requests -/

/-- `http2::request`. -/
structure Request where
  method : Method := .unknown
  target : Bytes := []
  scheme : Bytes := []
  authority : Bytes := []
  protocol : Bytes := []
  headers : List Field := []
  body : Bytes := []
  streamId : Nat := 1
  deriving DecidableEq, Repr

/-- The transfer of the decoded fields into a request. -/
def addRequestField (req : Request) (f : Field) : Request :=
  if f.1 = text ":method" then { req with method := .ofName f.2 }
  else if f.1 = text ":path" then { req with target := f.2 }
  else if f.1 = text ":scheme" then { req with scheme := f.2 }
  else if f.1 = text ":authority" then { req with authority := f.2 }
  else if f.1 = text ":protocol" then { req with protocol := f.2 }
  else { req with headers := req.headers ++ [f] }

/-- `:protocol` only on CONNECT, which then carries `:scheme`, `:path` and `:authority`. -/
def protocolMisused (req : Request) : Bool :=
  decide (req.protocol ≠ [] ∧
    (req.method ≠ .connect ∨ req.target = [] ∨ req.scheme = [] ∨ req.authority = []))

/-- `CONNECTION_PREFACE`. -/
def connectionPreface : Bytes := text "PRI * HTTP/2.0\r\n\r\nSM\r\n\r\n"

/-- The end of `parse_request`, after the loop; the scheme is "https" where a request has
    none. -/
def finishRequest (req : Request) (dt : DynamicTable) : ParseResult × Gathered → Outcome Request
  | (r, g) =>
      let cleared : Request := { method := req.method, streamId := g.streamId }
      if r ≠ .success then ⟨r, cleared, 0, dt⟩
      else if ¬ g.headersReceived then ⟨.incomplete, cleared, 0, dt⟩
      else
        let filled := g.decodedHeaders.foldl addRequestField cleared
        if protocolMisused filled then ⟨.error, filled, 0, dt⟩
        else ⟨.success, { filled with
          scheme := if filled.scheme = [] then text "https" else filled.scheme
          body := g.bodyAccumulator }, g.cursor, g.table⟩

/-- `parse_request`. -/
def parseRequest (buffer : Bytes) (req : Request) (dt : DynamicTable) : Outcome Request :=
  let start := if connectionPreface.isPrefixOf buffer then connectionPreface.length else 0
  finishRequest req dt (gather .headersTooLarge buffer.length
    { cursor := start, streamId := req.streamId, table := dt } (buffer.drop start))

/-! ## One frame -/

variable {f : Frame} {rest : Bytes}

/-- `parse_frame` reads back a frame that was written. -/
theorem parseFrame_encodeFrame (h : Encodable f) (hsid : f.streamId < 2 ^ 31) (rest : Bytes) :
    parseFrame (encodeFrame f ++ rest) = .ok (f, (encodeFrame f).length) := by
  have hlong : ¬ (encodeFrame f ++ rest).length < headerSize := by
    rw [List.length_append, encodeFrame_length]
    omega
  have hroom : ¬ (encodeFrame f ++ rest).length < headerSize + (headerOf f).length := by
    rw [List.length_append, encodeFrame_length, headerOf_length]
    omega
  have hpayload : (f.payload ++ rest).take (headerOf f).length = f.payload := List.take_left
  rw [parseFrame, if_neg hlong, unpackFrameHeader_encodeFrame h]
  dsimp only
  rw [if_neg hroom, encodeFrame_drop, hpayload, header_frame hsid, encodeFrame_length]
  rfl

/-- A frame that breaks off is incomplete. -/
theorem parseFrame_cut (h : Encodable f) {part : Bytes} (hpre : part <+: encodeFrame f)
    (hlength : part.length < (encodeFrame f).length) : parseFrame part = .error .incomplete := by
  rw [parseFrame]
  split
  · rfl
  · rename_i hlong
    have hheader : unpackFrameHeader part = some (headerOf f) := by
      rw [← unpackFrameHeader_encodeFrame h []]
      obtain ⟨more, hmore⟩ := hpre
      rw [List.append_nil, ← hmore]
      exact (unpackFrameHeader_append hlong more).symm
    rw [hheader]
    dsimp only
    rw [encodeFrame_length] at hlength
    rw [headerOf_length, if_pos hlength]

/-! ## The loop over frames -/

variable {tooLarge : ParseResult} {g : Gathered}

theorem gather_nil (tooLarge : ParseResult) (fuel : Nat) (g : Gathered) :
    gather tooLarge fuel g [] = (.success, g) := by
  cases fuel <;> rfl

/-- A round on a frame that was written. -/
theorem gather_frame (h : Encodable f) (hsid : f.streamId < 2 ^ 31) (fuel : Nat) :
    gather tooLarge (fuel + 1) g (encodeFrame f ++ rest) =
      match onFrame tooLarge { g with cursor := g.cursor + (encodeFrame f).length } f with
      | .fail r g => (r, g)
      | .leave g => (.success, g)
      | .next g => gather tooLarge fuel g rest := by
  have hne : encodeFrame f ++ rest ≠ [] := List.cons_ne_nil _ _
  rw [gather, if_neg hne, parseFrame_encodeFrame h hsid]
  dsimp only
  rw [List.drop_left]

theorem onFrame_headers (htype : f.type = .headers) {fragment : Bytes}
    (hfragment : headersFragment f = some fragment) {d : Decoded}
    (hd : decodeHeaderBlock defaultMaxHeaderListSize fragment g.table = d) :
    onFrame tooLarge g f =
      if d.ok then
        turn f { g with
          streamId := f.streamId
          table := d.table
          decodedHeaders := g.decodedHeaders ++ d.headers
          headersReceived := true }
      else .fail (if d.limitExceeded then tooLarge else .error) { g with streamId := f.streamId } := by
  rw [onFrame, htype]
  dsimp only
  rw [hfragment]
  dsimp only
  rw [hd]

theorem onFrame_data (htype : f.type = .data) (hsid : f.streamId = g.streamId) {data : Bytes}
    (hdata : dataPayload f = some data) :
    onFrame tooLarge g f =
      turn f { g with bodyAccumulator := g.bodyAccumulator ++ data } := by
  rw [onFrame, htype]
  dsimp only
  rw [if_pos hsid, hdata]

end Http2Parser
