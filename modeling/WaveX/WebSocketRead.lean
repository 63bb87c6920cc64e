import WaveX.WebSocketOutbox
import WaveX.WebSocketUtf8

/-! # Reading from a WebSocket connection

    `connection::read`, `connection::fill` and `connection::fail` of
    `src/protos/websocket/WebSocket.cpp`.  A call of `read` takes frames from `rbuf_`,
    asking the transport for more bytes when the next frame is not there yet, until it
    has a message or an error to return.

    What `read` sends on the way (the pong to a ping, the close frame of a failure and
    the echo of the peer's close) is returned as a list of `Send`; nothing that `read`
    does afterwards depends on whether the frame was accepted.  `perform` is what each of
    them does to the outbox, whose other users run in between. -/

namespace WebSocketRead

open QuicVarInt WebSocketCodec WebSocketUtf8 WebSocketOutbox List

/-! ## The read side of a connection -/

/-- What reading uses of the role and the options of a connection. -/
structure Options where
  role : Role
  maxMessageSize : Nat
  validateUtf8 : Bool
  deriving DecidableEq, Repr

/-- `message`. -/
structure Message where
  data : Bytes
  type : Opcode
  deriving DecidableEq, Repr

/-- The errors `read` returns: those of `error`, the end of the stream and the error
    codes of the transport. -/
inductive ReadError where
  | closed
  | protocolError
  | messageTooBig
  | invalidUtf8
  | readTimeout
  | eof
  | transport (ec : Nat)
  deriving DecidableEq, Repr

/-- The fields of a connection that `read` uses. -/
structure Reader where
  rbuf : Bytes := []
  rbufConsumed : Nat := 0
  message : Bytes := []
  messageType : Opcode := .text
  inMessage : Bool := false
  closeReason : Bytes := []
  closeCode : Nat := noStatus
  closeReceived : Bool := false
  readClosed : Bool := false
  deriving DecidableEq, Repr

/-- A frame that `read` queues. -/
inductive Send where
  | pong (payload : Bytes)
  | close (code : Nat)
  deriving DecidableEq, Repr

/-- `avail`: the bytes of `rbuf_` not yet consumed. -/
def Reader.avail (r : Reader) : Bytes := r.rbuf.drop r.rbufConsumed

/-- What one round of the loop of `read` comes to: the call returns, the loop goes on,
    or it needs more bytes. -/
inductive Round where
  | returned (result : Except ReadError Message) (r : Reader) (sends : List Send)
  | again (r : Reader) (sends : List Send)
  | fill
  deriving DecidableEq, Repr

/-- `connection::fail`. -/
def fail (r : Reader) (code : Nat) (err : ReadError) : Round :=
  .returned (.error err)
    { r with closeCode := code, readClosed := true, inMessage := false, message := [] }
    [.close code]

/-- `close_code::protocol_error`. -/
def protocolErrorCode : Nat := 1002

/-- `close_code::invalid_payload`. -/
def invalidPayloadCode : Nat := 1007

/-- `close_code::message_too_big`. -/
def messageTooBigCode : Nat := 1009

/-- What is judged from the header alone: reserved bits, the masking direction, control
    frames that are long or fragmented, and continuation frames out of place. -/
def violates (opts : Options) (r : Reader) (h : FrameHeader) : Bool :=
  h.rsv1 || h.rsv2 || h.rsv3 || h.masked != (opts.role = .server) ||
    (h.op.isControl && (!h.fin || h.payloadLength > 125)) ||
    (!h.op.isControl && h.op = .continuation && !r.inMessage) ||
    (!h.op.isControl && h.op ≠ .continuation && r.inMessage)

/-- The close frame of the peer. -/
def onClose (opts : Options) (r : Reader) (payload : Bytes) : Round :=
  match parseClosePayload payload with
  | none => fail r protocolErrorCode .protocolError
  | some (code, reason) =>
      if opts.validateUtf8 && !isValidUtf8 reason then fail r invalidPayloadCode .invalidUtf8
      else
        .returned (.error .closed)
          { r with
            closeReason := reason, closeCode := code, closeReceived := true, readClosed := true }
          [.close code]

/-- A data frame joins the message it starts or goes on with. -/
def Reader.assemble (r : Reader) (h : FrameHeader) (payload : Bytes) : Reader :=
  let r := if h.op ≠ .continuation then
    { r with inMessage := true, messageType := h.op, message := [] } else r
  { r with message := r.message ++ payload }

/-- A data frame: the message is returned when it is complete. -/
def onData (opts : Options) (r : Reader) (h : FrameHeader) (payload : Bytes) : Round :=
  let r := r.assemble h payload
  if h.fin then
    let m : Message := ⟨r.message, r.messageType⟩
    let r := { r with inMessage := false, message := [] }
    if m.type = .text && opts.validateUtf8 && !isValidUtf8 m.data then
      fail r invalidPayloadCode .invalidUtf8
    else .returned (.ok m) r []
  else .again r []

/-- The payload of the frame at the front of `avail`, unmasked. -/
def Reader.payloadOf (r : Reader) (h : FrameHeader) : Bytes :=
  let raw := (r.rbuf.drop (r.rbufConsumed + h.headerSize)).take h.payloadLength
  if h.masked then applyMask h.maskingKey 0 raw else raw

/-- The buffer with that frame unmasked in place and consumed. -/
def Reader.consume (r : Reader) (h : FrameHeader) : Reader :=
  let start := r.rbufConsumed + h.headerSize
  { r with
    rbuf := r.rbuf.take start ++ r.payloadOf h ++ r.rbuf.drop (start + h.payloadLength)
    rbufConsumed := r.rbufConsumed + (h.headerSize + h.payloadLength) }

/-- The `switch` of `read` on a frame that has been consumed. -/
def onFrame (opts : Options) (r : Reader) (h : FrameHeader) (payload : Bytes) : Round :=
  match h.op with
  | .ping => .again r [.pong payload]
  | .pong => .again r []
  | .close => onClose opts r payload
  | _ => onData opts r h payload

/-- One round of the loop of `read`. -/
def readRound (opts : Options) (r : Reader) : Round :=
  if r.readClosed then .returned (.error .closed) r []
  else
    match parseHeader r.avail with
    | .error => fail r protocolErrorCode .protocolError
    | .incomplete => .fill
    | .complete h =>
        if violates opts r h then fail r protocolErrorCode .protocolError
        else if !h.op.isControl && r.message.length + h.payloadLength > opts.maxMessageSize then
          fail r messageTooBigCode .messageTooBig
        else if r.avail.length ≥ h.headerSize + h.payloadLength then
          onFrame opts (r.consume h) h (r.payloadOf h)
        else .fill

/-! ## The transport -/

/-- A completed `read_some`: the bytes it gave, whether the timer fired, and its error
    code, 0 for none. -/
structure Arrival where
  bytes : Bytes
  timedOut : Bool := false
  ec : Nat := 0
  deriving DecidableEq, Repr

/-- The buffer after a `read_some`, which `fill` compacts before it. -/
def fillBuffer (r : Reader) (bytes : Bytes) : Reader :=
  if r.rbufConsumed > 0 && r.rbufConsumed = r.rbuf.length then
    { r with rbuf := bytes, rbufConsumed := 0 }
  else if r.rbufConsumed ≥ 65536 && r.rbufConsumed ≥ r.rbuf.length / 2 then
    { r with rbuf := r.rbuf.drop r.rbufConsumed ++ bytes, rbufConsumed := 0 }
  else { r with rbuf := r.rbuf ++ bytes }

/-- The error that `fill` returns. -/
def Arrival.error (a : Arrival) : Option ReadError :=
  if a.timedOut then some .readTimeout
  else if a.ec ≠ 0 then some (.transport a.ec)
  else if a.bytes.length = 0 then some .eof
  else none

/-- The end of a call of `read` whose `fill` failed. -/
def transportFailed (r : Reader) : Reader :=
  { r with
    readClosed := true, closeCode := if r.closeReceived then r.closeCode else abnormal }

/-- A call of `read`: what it returned, or that it still waits for the transport; with
    the reader it leaves, the arrivals it did not use and what it sent. -/
structure Read where
  result : Option (Except ReadError Message)
  reader : Reader
  arrivals : List Arrival
  sends : List Send
  deriving DecidableEq, Repr

/-- What was sent before. -/
def Read.after (sends : List Send) (c : Read) : Read := { c with sends := sends ++ c.sends }

/-- The rounds on the bytes that are there, for at most so many rounds: the end of the
    call, or the reader that needs more bytes. -/
def scan (opts : Options) : Nat → Reader → Option (Except ReadError Message) × Reader × List Send
  | 0, r => (none, r, [])
  | rounds + 1, r =>
      match readRound opts r with
      | .returned result r sends => (some result, r, sends)
      | .again r sends =>
          let (result, r, more) := scan opts rounds r
          (result, r, sends ++ more)
      | .fill => (none, r, [])

/-- `connection::read` on the arrivals of the transport. -/
def read (opts : Options) (r : Reader) : List Arrival → Read
  | [] =>
      let (result, r, sends) := scan opts (r.avail.length + 1) r
      ⟨result, r, [], sends⟩
  | a :: rest =>
      let (result, r, sends) := scan opts (r.avail.length + 1) r
      match result with
      | some result => ⟨some result, r, a :: rest, sends⟩
      | none =>
          match a.error with
          | some err =>
              ⟨some (.error err), transportFailed (fillBuffer r a.bytes), rest, sends⟩
          | none => (read opts (fillBuffer r a.bytes) rest).after sends

/-- Successive calls of `read`, at most `n` of them: what they returned, up to one that
    still waits. -/
def reads (opts : Options) : Nat → Reader → List Arrival →
    List (Except ReadError Message) × Reader × List Arrival × List Send
  | 0, r, arrivals => ([], r, arrivals, [])
  | n + 1, r, arrivals =>
      let c := read opts r arrivals
      match c.result with
      | none => ([], c.reader, c.arrivals, c.sends)
      | some result =>
          let (results, r, arrivals, sends) := reads opts n c.reader c.arrivals
          (result :: results, r, arrivals, c.sends ++ sends)

/-! ## Sending -/

/-- What `read` does to send a frame, with whether the frame was accepted; a ping is
    answered only while no close was sent. -/
def perform (cfg : Config) (key : UInt32) (s : Session) : Send → Session × Bool
  | .pong payload =>
      if s.out.closeSent then (s, false) else s.enqueue cfg .pong payload false key
  | .close code => s.call cfg (.close code []) key

/-! ## The buffer -/

variable {opts : Options} {r r' : Reader} {h : FrameHeader}

theorem payloadOf_eq (r : Reader) (h : FrameHeader) :
    r.payloadOf h =
      if h.masked then applyMask h.maskingKey 0 ((r.avail.drop h.headerSize).take h.payloadLength)
      else (r.avail.drop h.headerSize).take h.payloadLength := by
  rw [Reader.payloadOf, Reader.avail, drop_drop]

theorem payloadOf_length (hlong : h.headerSize + h.payloadLength ≤ r.avail.length) :
    (r.payloadOf h).length = h.payloadLength := by
  have hraw : ((r.avail.drop h.headerSize).take h.payloadLength).length = h.payloadLength := by
    rw [length_take, length_drop]
    omega
  rw [payloadOf_eq]
  split
  · rw [applyMask_length, hraw]
  · exact hraw

/-- Consuming a frame leaves the bytes after it, whatever unmasking wrote before them. -/
theorem consume_avail (hlong : h.headerSize + h.payloadLength ≤ r.avail.length) :
    (r.consume h).avail = r.avail.drop (h.headerSize + h.payloadLength) := by
  have hsize := payloadOf_length hlong
  rw [Reader.avail, length_drop] at hlong
  by_cases hempty : h.headerSize + h.payloadLength = 0
  · have hheader : h.headerSize = 0 := by omega
    have hpayload : h.payloadLength = 0 := by omega
    rw [hpayload] at hsize
    rw [Reader.consume, Reader.avail, Reader.avail]
    simp only [hheader, hpayload, Nat.add_zero, length_eq_zero_iff.mp hsize, append_nil,
      take_append_drop, drop_zero]
  · have hfront : (r.rbuf.take (r.rbufConsumed + h.headerSize) ++ r.payloadOf h).length =
        r.rbufConsumed + (h.headerSize + h.payloadLength) := by
      rw [length_append, hsize, length_take]
      omega
    rw [Reader.consume, Reader.avail, Reader.avail, drop_left' hfront, drop_drop,
      Nat.add_assoc]

/-- Compacting loses nothing: the bytes that arrive follow those that were there. -/
theorem fillBuffer_avail (hr : r.rbufConsumed ≤ r.rbuf.length) (bytes : Bytes) :
    (fillBuffer r bytes).avail = r.avail ++ bytes := by
  rw [fillBuffer]
  split
  · next hall =>
      rw [Bool.and_eq_true, decide_eq_true_eq, decide_eq_true_eq] at hall
      rw [Reader.avail, Reader.avail, hall.2, drop_length]
      rfl
  · split
    · rfl
    · rw [Reader.avail, Reader.avail, drop_append_of_le_length hr]

/-! ## The loop -/

/-- What a round can come to. -/
theorem round_cases (opts : Options) (r : Reader) :
    (r.readClosed = true ∧ readRound opts r = .returned (.error .closed) r []) ∨
    (r.readClosed = false ∧
      ((∃ code err, readRound opts r = fail r code err) ∨ readRound opts r = .fill ∨
        ∃ h, parseHeader r.avail = .complete h ∧
          (h.op.isControl = false → r.message.length + h.payloadLength ≤ opts.maxMessageSize) ∧
          h.headerSize + h.payloadLength ≤ r.avail.length ∧
          readRound opts r = onFrame opts (r.consume h) h (r.payloadOf h))) := by
  rw [readRound]
  cases hclosed : r.readClosed with
  | true => exact .inl ⟨rfl, rfl⟩
  | false =>
      refine .inr ⟨rfl, ?_⟩
      rw [if_neg Bool.false_ne_true]
      cases hparse : parseHeader r.avail with
      | error => exact .inl ⟨_, _, rfl⟩
      | incomplete => exact .inr (.inl rfl)
      | complete h =>
          simp only
          split
          · exact .inl ⟨_, _, rfl⟩
          · split
            · exact .inl ⟨_, _, rfl⟩
            · next hsize =>
                split
                · next hlong =>
                    refine .inr (.inr ⟨h, rfl, ?_, hlong, rfl⟩)
                    intro hdata
                    rw [hdata] at hsize
                    simpa using hsize
                · exact .inr (.inl rfl)

/-- The bounds of a message and of its text. -/
def Allowed (opts : Options) (m : Message) : Prop :=
  m.data.length ≤ opts.maxMessageSize ∧
    (m.type = .text → opts.validateUtf8 = true → ValidUtf8 m.data)

theorem assemble_avail (r : Reader) (h : FrameHeader) (payload : Bytes) :
    (r.assemble h payload).avail = r.avail := by
  rw [Reader.assemble]
  split <;> rfl

theorem assemble_length (r : Reader) (h : FrameHeader) (payload : Bytes) :
    (r.assemble h payload).message.length ≤ r.message.length + payload.length := by
  rw [Reader.assemble]
  simp only [length_append]
  split <;> simp

/-- What a consumed frame can come to: the loop goes on with the same buffer, the call
    returns a message within the bounds, or it returns an error and closes reading. -/
theorem onFrame_cases (opts : Options) (r : Reader) (h : FrameHeader) (payload : Bytes)
    (hsize : h.op.isControl = false → r.message.length + payload.length ≤ opts.maxMessageSize) :
    (∃ r' sends, onFrame opts r h payload = .again r' sends ∧ r'.avail = r.avail) ∨
    (∃ m r', onFrame opts r h payload = .returned (.ok m) r' [] ∧ Allowed opts m) ∨
    ∃ err r' sends, onFrame opts r h payload = .returned (.error err) r' sends ∧
      r'.readClosed = true := by
  have hdata : h.op.isControl = false → (∃ r' sends, onData opts r h payload = .again r' sends ∧
        r'.avail = r.avail) ∨
      (∃ m r', onData opts r h payload = .returned (.ok m) r' [] ∧ Allowed opts m) ∨
      ∃ err r' sends, onData opts r h payload = .returned (.error err) r' sends ∧
        r'.readClosed = true := by
    intro hcontrol
    have hlength := hsize hcontrol
    rw [onData]
    simp only
    split
    · split
      · exact .inr (.inr ⟨_, _, _, rfl, rfl⟩)
      · next htext =>
          refine .inr (.inl ⟨_, _, rfl, ?_, ?_⟩)
          · exact Nat.le_trans (assemble_length r h payload) hlength
          · intro htype hvalidate
            rw [← isValidUtf8_iff]
            by_contra hbad
            rw [Bool.not_eq_true] at hbad
            simp only at htype hbad
            rw [htype, hvalidate, hbad] at htext
            exact htext rfl
    · exact .inl ⟨_, _, rfl, assemble_avail r h payload⟩
  rw [onFrame]
  cases hop : h.op with
  | ping => exact .inl ⟨_, _, rfl, rfl⟩
  | pong => exact .inl ⟨_, _, rfl, rfl⟩
  | close =>
      simp only
      rw [onClose]
      split
      · exact .inr (.inr ⟨_, _, _, rfl, rfl⟩)
      · split
        · exact .inr (.inr ⟨_, _, _, rfl, rfl⟩)
        · exact .inr (.inr ⟨_, _, _, rfl, rfl⟩)
  | continuation => exact hdata (by rw [hop]; rfl)
  | text => exact hdata (by rw [hop]; rfl)
  | binary => exact hdata (by rw [hop]; rfl)

/-- The loop goes on only after a frame has been consumed. -/
theorem round_again_shorter {sends : List Send} (h : readRound opts r = .again r' sends) :
    r'.avail.length < r.avail.length := by
  rcases round_cases opts r with ⟨-, hround⟩ | ⟨-, ⟨code, err, hround⟩ | hround |
    ⟨hd, hparse, hsize, hlong, hround⟩⟩
  · rw [hround] at h
    cases h
  · rw [hround] at h
    cases h
  · rw [hround] at h
    cases h
  · have hheader := parseHeader_headerSize hparse
    have hsize' : hd.op.isControl = false →
        (r.consume hd).message.length + (r.payloadOf hd).length ≤ opts.maxMessageSize := by
      rw [payloadOf_length hlong]
      exact hsize
    rcases onFrame_cases opts (r.consume hd) hd (r.payloadOf hd) hsize' with
      ⟨r₁, more, hframe, havail⟩ | ⟨m, r₁, hframe, -⟩ | ⟨err, r₁, more, hframe, -⟩
    · rw [hround, hframe] at h
      cases h
      rw [havail, consume_avail hlong, length_drop]
      omega
    · rw [hround, hframe] at h
      cases h
    · rw [hround, hframe] at h
      cases h

/-- More rounds than bytes are as good as any number. -/
theorem scan_rounds {n k : Nat} (hn : r.avail.length < n) (hk : r.avail.length < k) :
    scan opts n r = scan opts k r := by
  induction n generalizing k r with
  | zero => exact absurd hn (Nat.not_lt_zero _)
  | succ n ih =>
      obtain _ | k := k
      · exact absurd hk (Nat.not_lt_zero _)
      · rw [scan, scan]
        cases hround : readRound opts r with
        | returned result r₁ sends => rfl
        | fill => rfl
        | again r₁ sends =>
            have hshorter := round_again_shorter hround
            simp only
            rw [ih (show r₁.avail.length < n by omega) (show r₁.avail.length < k by omega)]

/-- `read` is the loop of the source: a round that does not return either consumes a
    frame or waits for the transport. -/
theorem read_eq (opts : Options) (r : Reader) (arrivals : List Arrival) :
    read opts r arrivals =
      match readRound opts r with
      | .returned result r sends => ⟨some result, r, arrivals, sends⟩
      | .again r sends => (read opts r arrivals).after sends
      | .fill =>
          match arrivals with
          | [] => ⟨none, r, [], []⟩
          | a :: rest =>
              match a.error with
              | some err => ⟨some (.error err), transportFailed (fillBuffer r a.bytes), rest, []⟩
              | none => read opts (fillBuffer r a.bytes) rest := by
  cases hround : readRound opts r with
  | returned result r₁ sends =>
      cases arrivals <;> rw [read, scan, hround]
  | fill =>
      cases arrivals with
      | nil => rw [read, scan, hround]
      | cons a rest =>
          rw [read, scan, hround]
          simp only
          cases a.error <;> rfl
  | again r₁ sends =>
      have hscan : scan opts r.avail.length r₁ = scan opts (r₁.avail.length + 1) r₁ :=
        scan_rounds (round_again_shorter hround) (Nat.lt_succ_self _)
      cases arrivals with
      | nil =>
          show read opts r [] = (read opts r₁ []).after sends
          rw [read, read, scan, hround]
          simp only
          rw [hscan]
          rfl
      | cons a rest =>
          show read opts r (a :: rest) = (read opts r₁ (a :: rest)).after sends
          rw [read, read, scan, hround]
          simp only
          rw [hscan]
          obtain ⟨result, r₂, more⟩ := scan opts (r₁.avail.length + 1) r₁
          cases result with
          | some result => rfl
          | none =>
              simp only
              cases a.error with
              | some err => rfl
              | none => simp only [Read.after, append_assoc]

/-- Induction along a call of `read`: what holds of the reader after a round, or after an
    arrival it waited for, holds of the reader before. -/
theorem read_induction (opts : Options) {P : Reader → List Arrival → Prop}
    (h : ∀ r arrivals, (∀ r' sends, readRound opts r = .again r' sends → P r' arrivals) →
      (∀ a rest, readRound opts r = .fill → arrivals = a :: rest → a.error = none →
        P (fillBuffer r a.bytes) rest) → P r arrivals)
    (r : Reader) (arrivals : List Arrival) : P r arrivals := by
  induction arrivals generalizing r with
  | nil =>
      -- no arrival is left, so the rounds alone have to end
      induction hn : r.avail.length using Nat.strong_induction_on generalizing r with
      | _ n ih =>
          refine h r [] ?_ ?_
          · intro r' sends hround
            exact ih _ (hn ▸ round_again_shorter hround) r' rfl
          · intro a rest _ hnil
            cases hnil
  | cons a rest iharrivals =>
      induction hn : r.avail.length using Nat.strong_induction_on generalizing r with
      | _ n ih =>
          refine h r (a :: rest) ?_ ?_
          · intro r' sends hround
            exact ih _ (hn ▸ round_again_shorter hround) r' rfl
          · intro a' rest' _ hcons _
            cases hcons
            exact iharrivals _

/-! ## Every sequence of frames -/

/-- Reading stays closed. -/
theorem read_closed (h : r.readClosed = true) (arrivals : List Arrival) :
    read opts r arrivals = ⟨some (.error .closed), r, arrivals, []⟩ := by
  rw [read_eq, readRound, if_pos h]

/-- A message that a call returned is within the bounds, and an error closed reading. -/
def Bounded (opts : Options) (c : Read) : Prop :=
  match c.result with
  | none => True
  | some (.ok m) => Allowed opts m
  | some (.error _) => c.reader.readClosed = true

/-- Whatever arrives, a call returns a message within the bounds or closes reading. -/
theorem read_bounded (opts : Options) (r : Reader) (arrivals : List Arrival) :
    Bounded opts (read opts r arrivals) := by
  induction r, arrivals using read_induction opts with
  | h r arrivals hagain hfill =>
      rw [read_eq]
      rcases round_cases opts r with ⟨hclosed, hround⟩ | ⟨-, ⟨code, err, hround⟩ | hround |
        ⟨h, -, hsize, hlong, hround⟩⟩
      · rw [hround]
        exact hclosed
      · rw [hround]
        exact rfl
      · rw [hround]
        cases arrivals with
        | nil => exact trivial
        | cons a rest =>
            simp only
            cases herror : a.error with
            | some err => exact rfl
            | none => exact hfill a rest hround rfl herror
      · have hsize' : h.op.isControl = false →
            (r.consume h).message.length + (r.payloadOf h).length ≤ opts.maxMessageSize := by
          rw [payloadOf_length hlong]
          exact hsize
        rcases onFrame_cases opts (r.consume h) h (r.payloadOf h) hsize' with
          ⟨r₁, sends, hframe, -⟩ | ⟨m, r₁, hframe, hm⟩ | ⟨err, r₁, sends, hframe, hclosed⟩
        · rw [hframe] at hround
          rw [hround]
          exact hagain r₁ sends hround
        · rw [hround, hframe]
          exact hm
        · rw [hround, hframe]
          exact hclosed

/-- Closed reading fails every time. -/
theorem reads_closed (h : r.readClosed = true) (n : Nat) (arrivals : List Arrival) :
    reads opts n r arrivals = (List.replicate n (.error .closed), r, arrivals, []) := by
  induction n with
  | zero => rfl
  | succ n ih =>
      rw [reads, read_closed h]
      simp only
      rw [ih, replicate_succ, nil_append]

/-- Over any number of calls: the messages returned are within the bounds, and after an
    error every call fails. -/
theorem reads_bounded (opts : Options) (n : Nat) (r : Reader) (arrivals : List Arrival) :
    (∀ m, .ok m ∈ (reads opts n r arrivals).1 → Allowed opts m) ∧
      ∀ before err after, (reads opts n r arrivals).1 = before ++ .error err :: after →
        ∀ result ∈ after, result = .error .closed := by
  induction n generalizing r arrivals with
  | zero => simp [reads]
  | succ n ih =>
      have hbounded := read_bounded opts r arrivals
      rw [reads]
      generalize read opts r arrivals = c at hbounded
      obtain ⟨result, r₁, arrivals₁, sends⟩ := c
      cases result with
      | none => simp
      | some result =>
          obtain ⟨hmessages, hfailed⟩ := ih r₁ arrivals₁
          constructor
          · intro m hm
            rcases mem_cons.mp hm with rfl | hm
            · exact hbounded
            · exact hmessages m hm
          · intro before err after hsplit
            obtain _ | ⟨first, before⟩ := before
            · obtain ⟨hfirst, hafter⟩ := List.cons.inj hsplit
              rw [hfirst] at hbounded
              have hclosed : r₁.readClosed = true := hbounded
              rw [reads_closed hclosed] at hafter
              intro result' hmem
              rw [← hafter] at hmem
              exact eq_of_mem_replicate hmem
            · exact hfailed before err after (List.cons.inj hsplit).2

end WebSocketRead
