import WaveX.HttpText
import WaveX.Qpack

/-! # The HTTP/3 request parser

    `http3::parser` of `src/protos/http/http3codec.cpp`: frame headers, the rules for a field
    section and `parse_request`.  Unlike the parsers of HTTP/1 and HTTP/2 it goes on where it
    stopped: the request object keeps a cursor into the buffer, the field section once it has
    been read, and how much of a DATA frame is still to come.

    The loop works on the storage of the request; the message is what a caller reads after
    success.  What else a failed call leaves in the storage is not kept here, because the
    next call clears it. -/

namespace Http3Parser

open QuicVarInt HttpText
open Hpack (Field fieldSize)
open Qpack (DynamicTable Section decodeHeaderBlock)

/-! ## Frame headers -/

/-- `frame_type::DATA`. -/
def typeData : Nat := 0x00

/-- `frame_type::HEADERS`. -/
def typeHeaders : Nat := 0x01

/-- `is_reserved_frame_type`: the types of HTTP/2 that HTTP/3 has not taken over. -/
def isReservedFrameType (type : Nat) : Bool := [0x02, 0x06, 0x08, 0x09].contains type

/-- CANCEL_PUSH, SETTINGS, GOAWAY and MAX_PUSH_ID belong on the control stream. -/
def isControlFrameType (type : Nat) : Bool := [0x03, 0x04, 0x07, 0x0d].contains type

/-- `frame_header`, with the bytes it takes up. -/
structure FrameHeader where
  type : Nat
  length : Nat
  size : Nat
  deriving DecidableEq, Repr

/-- `parse_frame_header`. -/
def parseFrameHeader (buffer : Bytes) : Option FrameHeader :=
  match decode buffer with
  | none => none
  | some (type, rest) =>
      match decode rest with
      | none => none
      | some (length, rest) => some ⟨type, length, buffer.length - rest.length⟩

/-! ## Field sections -/

/-- `is_valid_field_value`: no CR, LF or NUL. -/
def isValidFieldValue (v : Bytes) : Bool := v.all fun c => c != 0x0d && c != 0x0a && c != 0x00

/-- A byte that may stand in a name: no control, space, colon or uppercase letter. -/
def isNameByte (u : UInt8) : Bool :=
  !(u ≤ 0x20 || u ≥ 0x7f || u == 0x3a || (0x41 ≤ u && u ≤ 0x5a))

/-- `is_valid_field_name`: a colon only in front. -/
def isValidFieldName : Bytes → Bool
  | [] => false
  | c :: rest =>
      if c = 0x3a then rest != [] && rest.all isNameByte else isNameByte c && rest.all isNameByte

/-- What the loop over the fields has found: the pseudo-headers with the `has_...` flags,
    `headers_storage` and the content length.  All of it is empty when the loop starts. -/
structure Fields where
  method : Option Method := none
  path : Option Bytes := none
  scheme : Option Bytes := none
  authority : Option Bytes := none
  protocol : Option Bytes := none
  headers : List Field := []
  contentLength : Option Nat := none
  seenRegularHeader : Bool := false
  deriving DecidableEq, Repr

/-- A pseudo-header; `none` is an error here and below. -/
def onPseudoHeader (s : Fields) (name val : Bytes) : Option Fields :=
  if name = text ":method" then
    if s.method.isSome then none else some { s with method := some (Method.ofName val) }
  else if name = text ":path" then
    if s.path.isSome then none else some { s with path := some val }
  else if name = text ":scheme" then
    if s.scheme.isSome then none else some { s with scheme := some val }
  else if name = text ":authority" then
    if s.authority.isSome then none else some { s with authority := some val }
  else if name = text ":protocol" then
    if s.protocol.isSome ∨ val = [] then none else some { s with protocol := some val }
  else none

/-- The fields that belong to a connection. -/
def connectionFields : List Bytes :=
  ["connection", "keep-alive", "proxy-connection", "transfer-encoding", "upgrade"].map text

/-- A regular field. -/
def onRegularHeader (s : Fields) (name val : Bytes) : Option Fields :=
  if name ∈ connectionFields then none
  else if name = text "te" ∧ val ≠ text "trailers" then none
  else if name = text "content-length" then
    match parseContentLength val with
    | none => none
    | some cl =>
        if s.contentLength.isSome ∧ s.contentLength ≠ some cl then none
        else some { s with contentLength := some cl, headers := s.headers ++ [(name, val)] }
  else some { s with headers := s.headers ++ [(name, val)] }

/-- The body of the loop over the fields. -/
def onField (s : Fields) (f : Field) : Option Fields :=
  if ¬ isValidFieldName f.1 ∨ ¬ isValidFieldValue f.2 then none
  else if isPseudo f.1 then
    if s.seenRegularHeader then none else onPseudoHeader s f.1 f.2
  else onRegularHeader { s with seenRegularHeader := true } f.1 f.2

/-- The checks behind the loop. -/
def hasRequired (s : Fields) : Bool :=
  let connect := s.method == some .connect
  s.method.isSome && (connect || (s.path.isSome && s.scheme.isSome)) &&
    (s.protocol.isNone ||
      (connect && s.scheme.isSome && s.path.isSome && s.authority.isSome)) &&
    (s.path != some [] || connect)

/-- The validation of a decoded field section. -/
def validate (decoded : List Field) : Option Fields :=
  (decoded.foldlM onField {}).bind fun s => if hasRequired s then some s else none

/-! ## The loop -/

/-- `parser_state` with `body_storage`; `fields` are there when `headers_received` is set. -/
structure ParserState where
  cursor : Nat := 0
  fields : Option Fields := none
  inDataFrame : Bool := false
  remainingDataFrameBytes : Nat := 0
  bodyStorage : Bytes := []
  deriving DecidableEq, Repr

/-- `result`. -/
inductive ParseResult where
  | success
  | incomplete
  | error
  deriving DecidableEq, Repr

/-- How the loop ends: the bytes have run out, a CONNECT has left the rest of the stream to
    a tunnel, it has returned, or the decoder of the field section never does. -/
inductive Ended where
  | waits (st : ParserState)
  | tunnel (st : ParserState)
  | returned (result : ParseResult) (st : ParserState)
  | hangs
  deriving DecidableEq, Repr

/-- One round of the loop. -/
inductive Turn where
  | next (st : ParserState)
  | ended (e : Ended)
  deriving DecidableEq, Repr

/-- An error resets the state. -/
def fails : Turn := .ended (.returned .error {})

/-- The part of a DATA frame that has arrived. -/
def consumeData (rest : Bytes) (st : ParserState) : ParserState :=
  let toConsume := min rest.length st.remainingDataFrameBytes
  { st with
    bodyStorage := st.bodyStorage ++ rest.take toConsume
    cursor := st.cursor + toConsume
    remainingDataFrameBytes := st.remainingDataFrameBytes - toConsume
    inDataFrame := if st.remainingDataFrameBytes - toConsume = 0 then false else st.inDataFrame }

section

variable (rounds maxFieldSectionSize : Nat) (dt : DynamicTable)

/-- The field section of a request, when it is accepted. -/
def sectionFields (sec : Section) : Option Fields :=
  if 0 < maxFieldSectionSize ∧ (sec.headers.map fieldSize).sum > maxFieldSectionSize then none
  else validate sec.headers

/-- The first HEADERS frame, with the bytes of the whole frame and its block. -/
def onHeaders (st : ParserState) (size : Nat) (block : Bytes) : Turn :=
  match decodeHeaderBlock maxFieldSectionSize block dt rounds with
  | none => .ended .hangs
  | some sec =>
      if ¬ sec.ok then
        if sec.isBlocked then .ended (.returned .incomplete st) else fails
      else
        match sectionFields maxFieldSectionSize sec with
        | none => fails
        | some fields =>
            let st := { st with fields := some fields, cursor := st.cursor + size }
            if fields.method = some .connect then .ended (.tunnel st) else .next st

/-- The body of the loop. -/
def turn (buffer : Bytes) (st : ParserState) : Turn :=
  let remaining := buffer.drop st.cursor
  if st.inDataFrame then .next (consumeData remaining st)
  else
    match parseFrameHeader remaining with
    | none => .ended (.waits st)
    | some hdr =>
        let frameSize := hdr.size + hdr.length
        if isReservedFrameType hdr.type then fails
        else if hdr.type = typeData then
          if st.fields.isNone then fails
          else .next (consumeData (remaining.drop hdr.size) { st with
            cursor := st.cursor + hdr.size
            inDataFrame := true
            remainingDataFrameBytes := hdr.length })
        else if hdr.type = typeHeaders then
          if frameSize > remaining.length then .ended (.waits st)
          else if st.fields.isSome then .next { st with cursor := st.cursor + frameSize }
          else onHeaders rounds maxFieldSectionSize dt st frameSize
            ((remaining.drop hdr.size).take hdr.length)
        else if isControlFrameType hdr.type then fails
        else if frameSize > remaining.length then .ended (.waits st)
        else .next { st with cursor := st.cursor + frameSize }

/-- The loop with its rounds counted down. -/
def loop (buffer : Bytes) : Nat → ParserState → Ended
  | 0, st => .waits st
  | fuel + 1, st =>
      if st.cursor < buffer.length then
        match turn rounds maxFieldSectionSize dt buffer st with
        | .next st => loop buffer fuel st
        | .ended e => e
      else .waits st

/-- The loop: a round takes up at least one byte, so the bytes that are left bound the
    rounds. -/
def run (buffer : Bytes) (st : ParserState) : Ended :=
  loop rounds maxFieldSectionSize dt buffer (buffer.length - st.cursor) st

end

/-! ## Requests -/

/-- What a caller reads of a request. -/
structure Message where
  methodType : Method := .unknown
  target : Bytes := []
  scheme : Bytes := text "https"
  authority : Bytes := []
  protocol : Bytes := []
  headers : List Field := []
  body : Bytes := []
  deriving DecidableEq, Repr

/-- `request`. -/
structure Request where
  state : ParserState := {}
  message : Message := {}
  deriving DecidableEq, Repr

structure Outcome where
  result : ParseResult
  request : Request
  bytesConsumed : Nat := 0
  deriving DecidableEq, Repr

/-- `rebase`: a view of an empty storage stays what it was. -/
def rebased (storage view : Bytes) : Bytes := if storage = [] then view else storage

/-- The message on success.  Headers and body have been cleared at the start; the other
    views may be those of an earlier request. -/
def rebase (fields : Fields) (body : Bytes) (old : Message) : Message where
  methodType := fields.method.getD .unknown
  target := rebased (fields.path.getD []) old.target
  scheme := rebased (fields.scheme.getD []) old.scheme
  authority := rebased (fields.authority.getD []) old.authority
  protocol := fields.protocol.getD []
  headers := fields.headers
  body := body

/-- The checks behind the loop over frames. -/
def finish (st : ParserState) (old : Message) : Outcome :=
  match st.fields with
  | none => { result := .incomplete, request := { state := st, message := old } }
  | some fields =>
      if st.inDataFrame then { result := .incomplete, request := { state := st, message := old } }
      else if fields.contentLength.any fun cl => st.bodyStorage.length < cl then
        { result := .incomplete, request := { state := st, message := old } }
      else if fields.contentLength.any fun cl => st.bodyStorage.length > cl then
        { result := .error, request := { message := old } }
      else
        { result := .success
          request := { message := rebase fields st.bodyStorage old }
          bytesConsumed := st.cursor }

/-- The start of a call: everything is cleared unless an earlier call is resumed. -/
def startState (st : ParserState) : ParserState :=
  if st.cursor = 0 ∧ st.fields.isNone ∧ ¬ st.inDataFrame then {} else st

/-- What the call returns when the loop has ended; `none` when it has not. -/
def conclude (old : Message) : Ended → Option Outcome
  | .hangs => none
  | .returned result st => some { result, request := { state := st, message := old } }
  | .waits st => some (finish st old)
  | .tunnel st => some (finish st old)

/-- `parse_request`; `none` when the decoder of the field section has not returned after the
    rounds it is given. -/
def parseRequest (rounds maxFieldSectionSize : Nat) (dt : DynamicTable) (buffer : Bytes)
    (req : Request) : Option Outcome :=
  if buffer = [] then some { result := .incomplete, request := req }
  else conclude req.message (run rounds maxFieldSectionSize dt buffer (startState req.state))

end Http3Parser
