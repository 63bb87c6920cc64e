import WaveX.Http2Frames
import WaveX.History

/-! # The HTTP/2 server session

    `server_session` of `include/wavex/protos/http/http2session.hpp`: the reader that
    handles one frame after another, the tasks of the streams with their `send_frames`
    and tunnels, and the shutdown.  Everything runs on one executor, so a coroutine is
    undisturbed between two suspensions, and a run is a sequence of `Action`s.

    A `stream_state` is shared: a task or a tunnel keeps its object after `streams_` has
    let go of it.  `streams` therefore lists every object ever made, and `held` says
    which of them are in `streams_`.  A handler of the reader that returns false has
    called `connection_error`, which sets `stopped` here: `process_frames` gives up and
    no further frame is handled. -/

namespace Http2Session

open QuicVarInt Hpack Http2Frames

/-! ## Limits -/

/-- `kMaxConcurrentStreams`. -/
def maxConcurrentStreams : Nat := 100

/-- `kInitialStreamWindow`. -/
def initialStreamWindow : Nat := 1 <<< 20

/-- `kConnectionWindow`. -/
def connectionWindow : Nat := 16 <<< 20

/-- `kMaxFrameSize`. -/
def maxFrameSize : Nat := 16384

/-- `kMaxHeaderBlock`. -/
def maxHeaderBlock : Nat := 256 * 1024

/-- `kMaxOutboxBytes`. -/
def maxOutboxBytes : Nat := 1 <<< 20

/-- `kMaxWindow`. -/
def maxWindow : Nat := 0x7fffffff

/-- `kDefaultMaxHeaderListSize`. -/
def defaultMaxHeaderListSize : Nat := 65536

/-! ## State -/

/-- A `send_frames` between two suspensions: the frames it has not begun, and what is
    left of the DATA frame it is sending, with its END_STREAM flag. -/
structure Send where
  todo : List Frame
  piece : Option (Bytes × Bool) := none
  deriving DecidableEq, Repr

/-- `stream_state`; `parked` is a `tunnel_read` that waits on `event`, and `sending` the
    `send_frames` in progress: a stream has one at a time. -/
structure StreamState where
  id : Nat
  held : Bool := true
  headers : List Field := []
  headerBlock : Bytes := []
  body : Bytes := []
  tunnelIn : Bytes := []
  sendWindow : Int := 65535
  recvUnacked : Nat := 0
  endStreamReceived : Bool := false
  headersDone : Bool := false
  dispatched : Bool := false
  tunnel : Bool := false
  reset : Bool := false
  localClosed : Bool := false
  readCancelled : Bool := false
  rejected : Bool := false
  parked : Bool := false
  sending : Option Send := none
  deriving DecidableEq, Repr

/-- What a session does, for the history. -/
inductive Event where
  /-- The reader takes up a frame. -/
  | received (f : Frame)
  /-- A frame of the session goes into the outbox. -/
  | enqueued (f : Frame)
  /-- A frame of `send_frames` goes into the outbox. -/
  | sent (f : Frame)
  /-- A stream is made. -/
  | opened (sid : Nat)
  /-- A task is spawned for a stream. -/
  | task (sid : Nat)
  /-- `streams_.at` of `dispatch` or `answer_error` throws. -/
  | lostTask (sid : Nat)
  /-- `finish_header_block` is called: the stream and whether its headers are done, the
      block, the decoder's table and `streams_.size()`. -/
  | headerBlock (sid : Nat) (trailers : Bool) (block : Bytes) (table : DynamicTable)
      (count : Nat)
  /-- An increment is added to a send window; 0 is the connection's. -/
  | credited (sid inc : Nat)
  /-- `send_frames` is called. -/
  | sendStarted (sid : Nat) (bytes : Bytes)
  /-- `send_frames` returns, with success or with an error. -/
  | sendEnded (sid : Nat) (ok : Bool)
  | connectionError (err : ErrorCode)
  deriving DecidableEq, Repr

/-- `server_session`; `tasks` are the tasks spawned and not finished, `stopped` says that
    the loop of `run` is over, `log` is the history, newest first. -/
structure Session where
  streams : List StreamState := []
  decodeTable : DynamicTable := {}
  outboxBytes : Nat := 0
  activeTasks : Nat := 0
  connSendWindow : Int := 65535
  peerInitialWindow : Int := 65535
  connRecvUnacked : Nat := 0
  peerMaxFrameSize : Nat := 16384
  lastPeerStreamId : Nat := 0
  continuationSid : Nat := 0
  dead : Bool := false
  goawaySent : Bool := false
  goawayReceived : Bool := false
  stopped : Bool := false
  tasks : List Nat := []
  log : List Event := []
  deriving DecidableEq, Repr

namespace Session

/-- An entry of the history. -/
def record (s : Session) (e : Event) : Session := { s with log := e :: s.log }

/-- `streams_.find`. -/
def find (s : Session) (sid : Nat) : Option StreamState :=
  s.streams.find? fun st => st.id == sid && st.held

/-- The object of a stream, for those who share it. -/
def object (s : Session) (sid : Nat) : Option StreamState :=
  s.streams.find? fun st => st.id == sid

/-- An assignment to members of the object of a stream. -/
def modify (s : Session) (sid : Nat) (g : StreamState → StreamState) : Session :=
  { s with streams := s.streams.map fun st => if st.id = sid then g st else st }

/-- `streams_.erase`. -/
def erase (s : Session) (sid : Nat) : Session := s.modify sid fun st => { st with held := false }

/-- `streams_.size()`. -/
def streamCount (s : Session) : Nat := s.streams.countP fun st => st.held

/-- `enqueue`: nothing is queued on a dead connection. -/
def enqueue (s : Session) (f : Frame) : Session :=
  if s.dead then s
  else ({ s with outboxBytes := s.outboxBytes + f.wireSize }).record (.enqueued f)

/-- `enqueue` in `send_frames`. -/
def send (s : Session) (f : Frame) : Session :=
  if s.dead then s
  else ({ s with outboxBytes := s.outboxBytes + f.wireSize }).record (.sent f)

/-- Several frames of `send_frames` in one string. -/
def sendAll (s : Session) (fs : List Frame) : Session := fs.foldl send s

end Session

open Session

/-! ## Errors and resets -/

/-- `send_goaway`. -/
def sendGoaway (s : Session) (err : ErrorCode) : Session :=
  if s.goawaySent then s
  else ({ s with goawaySent := true }).enqueue (goawayFrame s.lastPeerStreamId err)

/-- `mark_dead_after_flush`. -/
def markDeadAfterFlush (s : Session) : Session :=
  { s with streams := s.streams.map fun st =>
      if st.held then { st with reset := true, parked := false } else st }

/-- `mark_dead`. -/
def markDead (s : Session) : Session :=
  if s.dead then s
  else { s with
    dead := true
    streams := s.streams.map fun st => if st.held then { st with parked := false } else st }

/-- `connection_error`. -/
def connectionError (s : Session) (err : ErrorCode) : Session :=
  { markDeadAfterFlush (sendGoaway (s.record (.connectionError err)) err) with stopped := true }

/-- `reset_stream`: a stream without a task goes at once. -/
def resetStream (s : Session) (st : StreamState) (err : ErrorCode) : Session :=
  let s := if st.reset then s else s.enqueue (rstStreamFrame st.id err)
  let s := s.modify st.id fun x => { x with reset := true, parked := false }
  if st.dispatched then s else s.erase st.id

/-! ## Tasks -/

/-- The common part of `dispatch` and `answer_error`: the task is counted, and spawned
    for what `streams_.at` returns.  `at` throws when the stream is not there. -/
def spawn (s : Session) (sid : Nat) : Session :=
  let s := { s with activeTasks := s.activeTasks + 1 }
  if (s.find sid).isSome then ({ s with tasks := sid :: s.tasks }).record (.task sid)
  else ({ s with stopped := true }).record (.lostTask sid)

/-- `dispatch`. -/
def dispatch (s : Session) (sid : Nat) : Session :=
  spawn (s.modify sid fun st => { st with dispatched := true }) sid

/-- `answer_error`, for a stream that is in the state `st`; what it answers is left to the
    task. -/
def answerError (s : Session) (st : StreamState) : Session :=
  if st.dispatched then s
  else spawn (s.modify st.id fun x => { x with dispatched := true, rejected := true }) st.id

/-! ## Header blocks -/

/-- The first `:method` of the list is CONNECT. -/
def isConnect (headers : List Field) : Bool :=
  match headers.find? fun h => h.1 == text ":method" with
  | some h => h.2 == text "CONNECT"
  | none => false

/-- The first half of `finish_header_block`: the block of `st` has been decoded to `d`. -/
def keepTable (s : Session) (st : StreamState) (d : Decoded) : Session :=
  let s := s.record
    (.headerBlock st.id st.headersDone st.headerBlock s.decodeTable s.streamCount)
  ({ s with continuationSid := 0, decodeTable := d.table }).modify st.id
    fun x => { x with headerBlock := [] }

/-- The second half of `finish_header_block`: what becomes of the stream. -/
def actOnBlock (s : Session) (st : StreamState) (d : Decoded) : Session :=
  if !d.ok && !d.limitExceeded then connectionError s .compressionError
  else if st.headersDone then
    -- trailers: the request is complete
    if !st.dispatched && !st.rejected then dispatch s st.id else s
  else
    let s := s.modify st.id fun x => { x with headersDone := true }
    if !d.ok then sendGoaway (answerError s st) .enhanceYourCalm
    else if s.goawaySent || decide (s.streamCount > maxConcurrentStreams) then
      resetStream s st .refusedStream
    else
      let s := s.modify st.id fun x => { x with headers := d.headers }
      if st.endStreamReceived || isConnect d.headers then dispatch s st.id else s

/-- `finish_header_block`: the block of `st` is complete.  It is decoded in any case. -/
def finishHeaderBlock (s : Session) (st : StreamState) : Session :=
  let d := decodeHeaderBlock defaultMaxHeaderListSize st.headerBlock s.decodeTable
  actOnBlock (keepTable s st d) st d

/-- The end of `on_headers`: the fragment and the flags go to the stream `st`. -/
def takeFragment (s : Session) (st : StreamState) (f : Frame) (fragment : Bytes) : Session :=
  let add := fun (x : StreamState) => { x with
    headerBlock := st.headerBlock ++ fragment
    endStreamReceived := x.endStreamReceived || f.hasFlag flagEndStream }
  let s := s.modify st.id add
  if f.hasFlag flagEndHeaders then finishHeaderBlock s (add st)
  else { s with continuationSid := st.id }

/-- A new stream with the id `sid`. -/
def openStream (s : Session) (st : StreamState) : Session :=
  ({ s with lastPeerStreamId := st.id, streams := s.streams ++ [st] }).record (.opened st.id)

/-- `on_headers`. -/
def onHeaders (s : Session) (f : Frame) : Session :=
  let sid := f.streamId
  if sid = 0 ∨ sid % 2 = 0 then connectionError s .protocolError
  else
    match headersFragment f with
    | none => connectionError s .protocolError
    | some fragment =>
        match s.find sid with
        | some st =>
            -- trailers come after the headers and end the stream
            if !st.headersDone || st.endStreamReceived || !f.hasFlag flagEndStream then
              connectionError s .protocolError
            else takeFragment s { st with headerBlock := [] } f fragment
        | none =>
            if sid ≤ s.lastPeerStreamId then connectionError s .streamClosed
            else
              let st : StreamState := { id := sid, sendWindow := s.peerInitialWindow }
              takeFragment (openStream s st) st f fragment

/-- `on_continuation`. -/
def onContinuation (s : Session) (f : Frame) : Session :=
  if s.continuationSid = 0 ∨ f.streamId ≠ s.continuationSid then
    connectionError s .protocolError
  else
    match s.find f.streamId with
    | none => connectionError s .protocolError
    | some st =>
        let st := { st with headerBlock := st.headerBlock ++ f.payload }
        let s := s.modify st.id fun x => { x with headerBlock := st.headerBlock }
        if st.headerBlock.length > maxHeaderBlock then connectionError s .enhanceYourCalm
        else if f.hasFlag flagEndHeaders then finishHeaderBlock { s with continuationSid := 0 } st
        else s

/-! ## Data -/

/-- `credit_connection`. -/
def creditConnection (s : Session) (n : Nat) : Session :=
  let unacked := s.connRecvUnacked + n
  if unacked ≥ connectionWindow / 2 then
    ({ s with connRecvUnacked := 0 }).enqueue (windowUpdateFrame 0 unacked)
  else { s with connRecvUnacked := unacked }

/-- `credit_stream`. -/
def creditStream (s : Session) (st : StreamState) (n : Nat) : Session :=
  let unacked := st.recvUnacked + n
  if !st.endStreamReceived && !st.reset && decide (unacked ≥ initialStreamWindow / 2) then
    (s.modify st.id fun x => { x with recvUnacked := 0 }).enqueue
      (windowUpdateFrame st.id unacked)
  else s.modify st.id fun x => { x with recvUnacked := unacked }

/-- The end of `on_data`. -/
def endData (s : Session) (st : StreamState) (f : Frame) : Session :=
  let s :=
    if f.hasFlag flagEndStream then
      let s := s.modify st.id fun x => { x with endStreamReceived := true }
      if st.dispatched then s else dispatch s st.id
    else s
  s.modify st.id fun x => { x with parked := false }

/-- The data of a frame for a stream that still takes them: a stream with a task is a
    tunnel, and keeps them until they are read; another one collects its body, up to
    `cap`, which is `services_.max_request_size()`. -/
def takeData (cap : Nat) (s : Session) (st : StreamState) (f : Frame) (data : Bytes) : Session :=
  if st.tunnel || st.dispatched then
    let s := s.modify st.id fun x => { x with tunnelIn := st.tunnelIn ++ data }
    if (st.tunnelIn ++ data).length > initialStreamWindow then
      resetStream s st .flowControlError
    else
      -- padding is consumed at once
      let s := s.modify st.id fun x => { x with
        recvUnacked := x.recvUnacked + (f.payload.length - data.length) }
      endData s st f
  else
    let s := s.modify st.id fun x => { x with body := st.body ++ data }
    let s := creditStream s st f.payload.length
    if cap > 0 ∧ (st.body ++ data).length > cap then
      answerError (s.modify st.id fun x => { x with rejected := true }) st
    else endData s st f

/-- `on_data`. -/
def onData (cap : Nat) (s : Session) (f : Frame) : Session :=
  if f.streamId = 0 then connectionError s .protocolError
  else
    match dataPayload f with
    | none => connectionError s .protocolError
    | some data =>
        let s := creditConnection s f.payload.length
        match s.find f.streamId with
        | none =>
            if f.streamId > s.lastPeerStreamId then connectionError s .protocolError else s
        | some st =>
            if !st.headersDone || st.endStreamReceived then connectionError s .streamClosed
            else if st.reset || st.rejected then s
            else takeData cap s st f data

/-! ## Settings and windows -/

/-- A new SETTINGS_INITIAL_WINDOW_SIZE moves the window of every stream. -/
def setInitialWindow (s : Session) (value : Nat) : Session :=
  { s with
    peerInitialWindow := value
    streams := s.streams.map fun st =>
      if st.held then { st with sendWindow := st.sendWindow + (value - s.peerInitialWindow) }
      else st }

/-- The loop of `on_settings`; false after a connection error. -/
def applySettings (s : Session) : List (Nat × Nat) → Session × Bool
  | [] => (s, true)
  | (id, value) :: rest =>
      if id = 4 then
        if value > maxWindow then (connectionError s .flowControlError, false)
        else applySettings (setInitialWindow s value) rest
      else if id = 5 then
        if value < 16384 ∨ value > 16777215 then (connectionError s .protocolError, false)
        else applySettings { s with peerMaxFrameSize := value } rest
      else if id = 2 ∧ value > 1 then (connectionError s .protocolError, false)
      else applySettings s rest

/-- `on_settings`. -/
def onSettings (s : Session) (f : Frame) : Session :=
  if f.streamId ≠ 0 then connectionError s .protocolError
  else if f.hasFlag flagAck then
    if f.payload = [] then s else connectionError s .frameSizeError
  else if f.payload.length % 6 ≠ 0 then connectionError s .frameSizeError
  else
    match applySettings s (settingsOf f.payload) with
    | (s, false) => s
    | (s, true) => s.enqueue settingsAckFrame

/-- `on_window_update`. -/
def onWindowUpdate (s : Session) (f : Frame) : Session :=
  if f.payload.length ≠ 4 then connectionError s .frameSizeError
  else
    let inc := windowIncrement f.payload
    if f.streamId = 0 then
      if inc = 0 then connectionError s .protocolError
      else
        let s := ({ s with connSendWindow := s.connSendWindow + inc }).record (.credited 0 inc)
        if (maxWindow : Int) < s.connSendWindow then connectionError s .flowControlError else s
    else
      match s.find f.streamId with
      | none => s
      | some st =>
          if inc = 0 then resetStream s st .protocolError
          else
            let s := (s.modify st.id fun x => { x with sendWindow := x.sendWindow + inc }).record
              (.credited st.id inc)
            if (maxWindow : Int) < st.sendWindow + inc then resetStream s st .flowControlError
            else s

/-! ## The reader -/

/-- The RST_STREAM case of `handle_frame`. -/
def onRstStream (s : Session) (f : Frame) : Session :=
  if f.streamId = 0 then connectionError s .protocolError
  else if f.payload.length ≠ 4 then connectionError s .frameSizeError
  else
    match s.find f.streamId with
    | none => s
    | some st =>
        let s := s.modify st.id fun x => { x with reset := true, parked := false }
        if st.dispatched then s else s.erase st.id

/-- The PING case of `handle_frame`. -/
def onPing (s : Session) (f : Frame) : Session :=
  if f.streamId ≠ 0 then connectionError s .protocolError
  else if f.payload.length ≠ 8 then connectionError s .frameSizeError
  else if f.hasFlag flagAck then s
  else s.enqueue { type := .ping, flags := flagAck, streamId := 0, payload := f.payload }

/-- `handle_frame`: between the frames of a header block only its next one may come. -/
def handleFrame (cap : Nat) (s : Session) (f : Frame) : Session :=
  if s.continuationSid ≠ 0 ∧ (f.type ≠ .continuation ∨ f.streamId ≠ s.continuationSid) then
    connectionError s .protocolError
  else
    match f.type with
    | .headers => onHeaders s f
    | .continuation => onContinuation s f
    | .data => onData cap s f
    | .settings => onSettings s f
    | .windowUpdate => onWindowUpdate s f
    | .ping => onPing s f
    | .rstStream => onRstStream s f
    | .goaway => { s with goawayReceived := true }
    | .pushPromise => connectionError s .protocolError
    | .priority | .extension _ => s

/-- One round of `process_frames`. -/
def processFrame (cap : Nat) (s : Session) (f : Frame) : Session :=
  let s := s.record (.received f)
  if f.payload.length > maxFrameSize then connectionError s .frameSizeError
  else handleFrame cap s f

/-! ## `send_frames` -/

/-- `failed()` of `send_frames`. -/
def failed (s : Session) (st : StreamState) : Bool := s.dead || st.reset

/-- `send_frames` returns. -/
def endSend (s : Session) (sid : Nat) (ok : Bool) : Session :=
  (s.modify sid fun x => { x with sending := none }).record (.sendEnded sid ok)

/-- One DATA frame of a piece: as much as both windows and the peer's frame size allow.
    The cast to `std::size_t` takes a negative window modulo `2 ^ 64`. -/
def chunkSize (s : Session) (st : StreamState) (left : Nat) : Nat :=
  let window := ((min st.sendWindow s.connSendWindow) % 2 ^ 64).toNat
  min left (min window s.peerMaxFrameSize)

/-- One round of the inner loop of `send_frames`, after its wait. -/
def sendChunk (s : Session) (st : StreamState) (rest : Bytes) (endStream : Bool)
    (todo : List Frame) : Session :=
  let n := chunkSize s st rest.length
  let last := n == rest.length
  let s := s.send (dataFrame st.id (rest.take n) (last && endStream))
  let s := { s with connSendWindow := s.connSendWindow - n }
  s.modify st.id fun x => { x with
    sendWindow := x.sendWindow - n
    localClosed := x.localClosed || (last && endStream)
    sending := some { todo, piece := if last then none else some (rest.drop n, endStream) } }

/-- The next frame of `send_frames`, after the wait for the outbox: the pieces of a DATA
    frame follow, other frames are queued at once, addressed to the stream. -/
def sendFrame (s : Session) (st : StreamState) (f : Frame) (todo : List Frame) : Session :=
  let endStream := f.hasFlag flagEndStream
  match f.type with
  | .data =>
      s.modify st.id fun x => { x with
        sending := some { todo, piece := some (f.payload, endStream) } }
  | .headers =>
      (s.sendAll (encodeHeaderFrames st.id f.payload endStream s.peerMaxFrameSize)).modify st.id
        fun x => { x with localClosed := x.localClosed || endStream, sending := some { todo } }
  | _ =>
      (s.send { f with streamId := st.id }).modify st.id
        fun x => { x with localClosed := x.localClosed || endStream, sending := some { todo } }

/-- Both windows are open. -/
def windowsOpen (s : Session) (st : StreamState) : Bool :=
  decide (0 < st.sendWindow) && decide (0 < s.connSendWindow)

/-- `send_frames` goes on to its next wait; `none` while what it waits for does not
    hold. -/
def resumeSend (s : Session) (st : StreamState) : Send → Option Session
  | { todo := [], piece := none } => some (endSend s st.id true)
  | { todo := f :: todo, piece := none } =>
      if failed s st then some (endSend s st.id false)
      else if s.outboxBytes < maxOutboxBytes then some (sendFrame s st f todo)
      else none
  | { todo, piece := some (rest, endStream) } =>
      if failed s st then some (endSend s st.id false)
      else if rest = [] ∨ windowsOpen s st then some (sendChunk s st rest endStream todo)
      else none

/-- The deadline of a `send_frames` that waits passes. -/
def timeoutSend (s : Session) (st : StreamState) (snd : Send) : Option Session :=
  match resumeSend s st snd with
  | some _ => none
  | none => some (endSend s st.id false)

/-! ## Tunnels -/

/-- The empty DATA frame that ends a stream. -/
def endStream (s : Session) (st : StreamState) : Session :=
  (s.enqueue (dataFrame st.id [] true)).modify st.id fun x => { x with localClosed := true }

/-- One round of `tunnel_read` with room for `size` bytes. -/
def tunnelRead (s : Session) (st : StreamState) (size : Nat) : Session :=
  if st.tunnelIn ≠ [] then
    let n := min size st.tunnelIn.length
    let unacked := st.recvUnacked + n
    let s := s.modify st.id fun x => { x with tunnelIn := st.tunnelIn.drop n }
    if !st.endStreamReceived && !st.reset && decide (unacked ≥ initialStreamWindow / 4) then
      (s.enqueue (windowUpdateFrame st.id unacked)).modify st.id
        fun x => { x with recvUnacked := 0 }
    else s.modify st.id fun x => { x with recvUnacked := unacked }
  else if st.readCancelled then s.modify st.id fun x => { x with readCancelled := false }
  else if st.endStreamReceived || st.reset || s.dead then s
  else s.modify st.id fun x => { x with parked := true }

/-- `finish_task`. -/
def finishTask (s : Session) (st : StreamState) : Session :=
  let s :=
    if st.endStreamReceived || st.reset then s
    else (s.enqueue (rstStreamFrame st.id .noError)).modify st.id fun x => { x with reset := true }
  let s := s.erase st.id
  { s with activeTasks := s.activeTasks - 1, tasks := s.tasks.erase st.id }

/-! ## Runs -/

/-- What can happen next on the executor. -/
inductive Action where
  /-- The reader handles a frame. -/
  | frame (f : Frame)
  /-- `run` finds the server no longer accepting. -/
  | notAccepting
  /-- The idle timer of `read_more` fires. -/
  | idleTimeout
  /-- `run` breaks after a GOAWAY when no stream is left. -/
  | drained
  /-- The transport fails while reading. -/
  | readError
  /-- `shutdown` tells the streams. -/
  | shutdown
  /-- The transport fails while writing, or `shutdown` has waited for the writer. -/
  | markDead
  /-- `shutdown` ends. -/
  | clear
  /-- The writer has written `n` bytes. -/
  | written (n : Nat)
  /-- A task calls `send_frames`; once the stream is a tunnel, only `tunnel_write` does. -/
  | startSend (sid : Nat) (bytes : Bytes)
  /-- `tunnel_write`. -/
  | tunnelWrite (sid : Nat) (data : Bytes)
  /-- A `send_frames` goes on. -/
  | resume (sid : Nat)
  /-- The deadline of a `send_frames` passes. -/
  | timeout (sid : Nat)
  /-- The response to a CONNECT is out: the stream becomes a tunnel. -/
  | startTunnel (sid : Nat)
  /-- `serve_stream` ends a stream that its response or takeover left open. -/
  | endResponse (sid : Nat)
  /-- `shutdown_send` of a tunnel. -/
  | shutdownSend (sid : Nat)
  | tunnelRead (sid size : Nat)
  /-- `cancel` of a tunnel. -/
  | tunnelCancel (sid : Nat)
  /-- `close` of a tunnel. -/
  | tunnelClose (sid : Nat)
  /-- A task ends in `finish_task`. -/
  | finishTask (sid : Nat)
  deriving DecidableEq, Repr

/-- `send_frames` is called with `bytes`. -/
def startSend (s : Session) (sid : Nat) (bytes : Bytes) : Session :=
  (s.modify sid fun x => { x with sending := some { todo := wireFrames bytes } }).record
    (.sendStarted sid bytes)

/-- An action of a task or a tunnel on the object it shares; `none` when it cannot
    happen. -/
def taskStep (s : Session) (st : StreamState) : Action → Option Session
  | .startSend sid bytes =>
      if st.dispatched ∧ ¬ st.tunnel ∧ st.sending = none then some (startSend s sid bytes)
      else none
  | .tunnelWrite sid data =>
      if st.tunnel ∧ st.sending = none then
        -- a stream closed on our side is a broken pipe
        some (if st.localClosed then s
          else startSend s sid (encodeFrame (dataFrame sid data false)))
      else none
  | .resume _ => st.sending.bind (resumeSend s st)
  | .timeout _ => st.sending.bind (timeoutSend s st)
  | .startTunnel sid =>
      if st.dispatched ∧ st.sending = none ∧ ¬ failed s st then
        some (s.modify sid fun x => { x with tunnel := true })
      else none
  | .endResponse _ =>
      if st.dispatched ∧ ¬ st.localClosed ∧ ¬ failed s st then some (endStream s st) else none
  | .shutdownSend _ =>
      if st.tunnel ∧ ¬ st.localClosed ∧ ¬ st.reset then some (endStream s st) else none
  | .tunnelRead _ size =>
      if st.tunnel ∧ ¬ st.parked then some (tunnelRead s st size) else none
  | .tunnelCancel sid =>
      if st.tunnel then
        some (s.modify sid fun x => { x with readCancelled := true, parked := false })
      else none
  | .tunnelClose sid =>
      if st.tunnel ∧ ¬ st.reset then
        some ((s.enqueue (rstStreamFrame sid .cancel)).modify sid
          fun x => { x with reset := true, parked := false })
      else none
  | .finishTask sid => if sid ∈ s.tasks then some (finishTask s st) else none
  | _ => none

/-- The stream an action of a task is about. -/
def Action.sid : Action → Nat
  | .startSend sid _ | .tunnelWrite sid _ | .resume sid | .timeout sid | .startTunnel sid
  | .endResponse sid | .shutdownSend sid | .tunnelRead sid _ | .tunnelCancel sid
  | .tunnelClose sid | .finishTask sid => sid
  | _ => 0

/-- The effect of an action; `none` when it cannot happen. -/
def step (cap : Nat) (s : Session) (a : Action) : Option Session :=
  match a with
  | .frame f => if s.stopped || s.dead then none else some (processFrame cap s f)
  | .notAccepting => if s.stopped then none else some (sendGoaway s .noError)
  | .idleTimeout =>
      if s.stopped ∨ s.streamCount ≠ 0 then none
      else some { sendGoaway s .noError with stopped := true }
  | .drained =>
      if s.stopped ∨ s.streamCount ≠ 0 ∨ ¬ (s.goawaySent || s.goawayReceived) then none
      else some { s with stopped := true }
  | .readError => if s.stopped then none else some { markDead s with stopped := true }
  | .shutdown => if s.stopped ∧ ¬ s.dead then some (markDeadAfterFlush s) else none
  | .markDead => some (markDead s)
  | .clear =>
      if s.stopped ∧ s.dead ∧ s.activeTasks = 0 then
        some { s with streams := s.streams.map fun st => { st with held := false } }
      else none
  | .written n => some { s with outboxBytes := s.outboxBytes - n }
  | a => (s.object a.sid).bind fun st => taskStep s st a

/-- A session that has queued its preamble. -/
def initial : Session := sessionPreamble.foldl enqueue {}

/-- The runs of a session under a limit on request bodies. -/
def sessions (cap : Nat) : System Session where
  init s := s = initial
  next s s' := ∃ a, step cap s a = some s'

/-- A sequence of actions; `none` when one of them cannot happen. -/
def run (cap : Nat) (s : Session) : List Action → Option Session
  | [] => some s
  | a :: rest => (step cap s a).bind fun s => run cap s rest

/-- The runs in which every step meets a condition on the session and the action. -/
def guarded (G : Session → Action → Prop) (cap : Nat) : System Session where
  init s := s = initial
  next s s' := ∃ a, G s a ∧ step cap s a = some s'

/-- A sequence of actions that meet a condition; `none` when one of them does not, or
    cannot happen. -/
def guardedRun (G : Session → Action → Prop) [∀ s a, Decidable (G s a)] (cap : Nat)
    (s : Session) : List Action → Option Session
  | [] => some s
  | a :: rest => if G s a then (step cap s a).bind fun s => guardedRun G cap s rest else none

/-- The frame that the reader takes up. -/
def receivedFrame : Event → Option Frame
  | .received f => some f
  | _ => none

/-- The frames received, newest first. -/
def received (log : List Event) : List Frame := log.filterMap receivedFrame

/-- The frame that goes into the outbox. -/
def queuedFrame : Event → Option Frame
  | .enqueued f | .sent f => some f
  | _ => none

/-- The frames queued, newest first. -/
def queued (log : List Event) : List Frame := log.filterMap queuedFrame

/-- The increment of a well-formed WINDOW_UPDATE frame for a stream, or for the connection
    when `sid` is 0. -/
def increment (sid : Nat) (f : Frame) : Nat :=
  if f.type = .windowUpdate ∧ f.streamId = sid ∧ f.payload.length = 4 then
    windowIncrement f.payload
  else 0

theorem run_reachable {cap : Nat} {actions : List Action} {s s' : Session}
    (hs : (sessions cap).Reachable s) (h : run cap s actions = some s') :
    (sessions cap).Reachable s' := by
  induction actions generalizing s with
  | nil => exact Option.some.inj h ▸ hs
  | cons a rest ih =>
    obtain ⟨s1, hstep, h⟩ := Option.bind_eq_some_iff.mp h
    obtain ⟨s₀, h₀, hrun⟩ := hs
    exact ih ⟨s₀, h₀, hrun.tail ⟨a, hstep⟩⟩ h

theorem initial_reachable {cap : Nat} : (sessions cap).Reachable initial := ⟨initial, rfl, .refl⟩

theorem guardedRun_steps {G : Session → Action → Prop} [∀ s a, Decidable (G s a)] {cap : Nat}
    {s s' : Session} {actions : List Action} (h : guardedRun G cap s actions = some s') :
    Relation.ReflTransGen (guarded G cap).next s s' := by
  induction actions generalizing s with
  | nil => exact Option.some.inj h ▸ .refl
  | cons a rest ih =>
    obtain ⟨hguard, h⟩ := Option.ite_none_right_eq_some.mp h
    obtain ⟨s1, hstep, h⟩ := Option.bind_eq_some_iff.mp h
    exact .head ⟨a, hguard, hstep⟩ (ih h)

/-- An invariant of the runs that meet a condition: a step may use that the session before
    it is reachable. -/
theorem guarded_invariant {G : Session → Action → Prop} {I : Session → Prop} {cap : Nat}
    {s : Session} (h : (guarded G cap).Reachable s) (hinit : I initial)
    (hstep : ∀ s s' a, (sessions cap).Reachable s → I s → G s a → step cap s a = some s' → I s') :
    (sessions cap).Reachable s ∧ I s := by
  refine h.invariant (I := fun s => (sessions cap).Reachable s ∧ I s) (fun s h₀ => ?_) ?_
  · rw [h₀]
    exact ⟨initial_reachable, hinit⟩
  · rintro s s' ⟨a, hguard, hs'⟩ ⟨⟨s₀, h₀, hrun⟩, hI⟩
    exact ⟨⟨s₀, h₀, hrun.tail ⟨a, hs'⟩⟩, hstep s s' a ⟨s₀, h₀, hrun⟩ hI hguard hs'⟩

end Http2Session
