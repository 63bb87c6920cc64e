import WaveX.QuicState

/-! # The sending half of `QuicConnection`

    Every path of `src/Network/QUIC/QuicConnection.cpp` that builds and seals
    packets (stream flush, CRYPTO flights, ACK-only packets, DATAGRAM,
    HANDSHAKE_DONE, retransmission, CONNECTION_CLOSE), with
    `poll_outgoing_datagrams` and the stream operations that feed the queues. -/

namespace QuicSend

open QuicVarInt QuicFrames QuicPacket QuicCrypto CongestionControl QuicReceiveState QuicState

variable {K : Type} (env : Env K)

/-! ## poll_outgoing_datagrams -/

/-- The coalescing loop: `cur` is `current_dgram`, `short` is
    `current_dgram_ends_with_short`. -/
def coalesce (limit : Nat) (cur : Bytes) (short : Bool) : List Bytes → List Bytes
  | [] => if cur.isEmpty then [] else [cur]
  | [] :: rest => coalesce limit cur short rest
  | (first :: tail) :: rest =>
      let pkt := first :: tail
      let isLong := first.toNat &&& 0x80 != 0
      if !cur.isEmpty && !short && decide (cur.length + pkt.length ≤ limit) then
        coalesce limit (cur ++ pkt) (!isLong) rest
      else if cur.isEmpty then coalesce limit pkt (!isLong) rest
      else cur :: coalesce limit pkt (!isLong) rest

/-- The total size of a list of datagrams. -/
def totalBytes (datagrams : List Bytes) : Nat := (datagrams.map List.length).sum

/-- The release loop: a datagram over the budget of an unvalidated peer, and
    every later one, is held back. -/
def releaseReady (s : QuicConnection K) : List Bytes → QuicConnection K × List Bytes
  | [] => (s, [])
  | d :: rest =>
      if !s.peerAddressValidated && (!s.amplificationHeldDatagrams.isEmpty
          || decide (s.cumulativeBytesSent + d.length > 3 * s.cumulativeBytesReceived)) then
        releaseReady
          { s with amplificationHeldDatagrams := s.amplificationHeldDatagrams ++ [d] } rest
      else
        let (s, out) :=
          releaseReady { s with cumulativeBytesSent := s.cumulativeBytesSent + d.length } rest
        (s, d :: out)

/-- `poll_outgoing_datagrams`. -/
def pollOutgoingDatagrams (s : QuicConnection K) : QuicConnection K × List Bytes :=
  let datagrams := coalesce s.maxDatagramSize [] false s.pendingOutboundDatagrams
  let s := { s with pendingOutboundDatagrams := [] }
  if s.isServer && s.tlsInitialized then
    let ready := s.amplificationHeldDatagrams ++ datagrams
    let (s, out) := releaseReady { s with amplificationHeldDatagrams := [] } ready
    (s.log (.returned (totalBytes out)), out)
  else
    let s := { s with cumulativeBytesSent := s.cumulativeBytesSent + totalBytes datagrams }
    (s.log (.returned (totalBytes datagrams)), datagrams)

/-- `if (on_outbound_) on_outbound_()`: the socket layer's callback either polls
    at once or posts a poll for later. -/
def notifyOutbound (s : QuicConnection K) : QuicConnection K :=
  let polls := env.outboundPolls s.outboundCalls
  let s := { s with outboundCalls := s.outboundCalls + 1 }
  if polls then (pollOutgoingDatagrams s).1 else s

/-! ## Building, sealing and tracking packets -/

/-- `steady_clock::now()`. -/
def steadyNow (s : QuicConnection K) : Int × QuicConnection K :=
  (env.clock s.clockReads, { s with clockReads := s.clockReads + 1 })

/-- `est_overhead` of an Initial packet. -/
def estOverhead (hdr : PacketHeader) : Nat :=
  1 + 4 + (1 + hdr.dcid.length) + (1 + hdr.scid.length) + 1 + 2 + 4 + 16

/-- `pad_client_initial` and the same padding of ack-eliciting Initial packets:
    up to 1200 bytes with PADDING. -/
def padInitial (hdr : PacketHeader) (payload : Bytes) : Bytes :=
  if payload.length + estOverhead hdr < 1200 then
    payload ++ List.replicate (1200 - estOverhead hdr - payload.length) 0
  else payload

/-- A short header for the next 1-RTT packet. -/
def shortHeader (s : QuicConnection K) (pn : Nat) : PacketHeader :=
  { isLong := false
    type := .oneRtt
    keyPhase := s.localKeyPhase != 0
    dcid := s.peerCid
    packetNumber := pn }

/-- A long header for the next Initial or Handshake packet. -/
def longHeader (s : QuicConnection K) (type : PacketType) (pn : Nat) : PacketHeader :=
  { isLong := true
    type := type
    version := s.version
    dcid := s.peerCid
    scid := s.localCid
    packetNumber := pn }

/-- A call of `CryptoSuite::protect_packet` under a send key. -/
def sealPacket (s : QuicConnection K) (slot : KeySlot) (hdr : PacketHeader)
    (payload : Bytes) : Option Bytes × QuicConnection K :=
  (protectPacket env.toCryptoOps (s.localKeys slot) hdr payload,
    s.log (.sealed slot (s.generation slot) hdr.packetNumber))

/-- `pending_outbound_datagrams_.push_back(packet)`. -/
def pushOutbound (s : QuicConnection K) (packet : Bytes) (close : Bool) :
    QuicConnection K :=
  ({ s with
    pendingOutboundDatagrams := s.pendingOutboundDatagrams ++ [packet] }).log (.appended close)

/-- `track_sent_packet`; arming the timer has no effect on the state. -/
def trackSentPacket (s : QuicConnection K) (type : PacketType) (pn bytes : Nat)
    (frames : List Frame) : QuicConnection K :=
  let sp := spaceIndex type
  let (now, s) := steadyNow env s
  ({ s with
    sentPackets := Function.update s.sentPackets sp
      (s.sentPackets sp ++ [SentPacket.ofFrames pn bytes type frames now])
    congestionController := s.congestionController.onPacketSent bytes true }).log
      (.packetized sp pn frames)

/-- Seal a packet and, when that succeeds, track it and queue it; whether it
    succeeded. -/
def sendTracked (s : QuicConnection K) (slot : KeySlot) (hdr : PacketHeader)
    (payload : Bytes) (frames : List Frame) : QuicConnection K × Bool :=
  match sealPacket env s slot hdr payload with
  | (none, s) => (s, false)
  | (some packet, s) =>
      ((pushOutbound (trackSentPacket env s hdr.type hdr.packetNumber packet.length frames)
        packet false).log (.transmitted (spaceIndex hdr.type) hdr.packetNumber), true)

/-- Seal a packet that is not tracked and, when that succeeds, queue it. -/
def sealAndPush (s : QuicConnection K) (slot : KeySlot) (hdr : PacketHeader)
    (payload : Bytes) (close : Bool) : QuicConnection K :=
  match sealPacket env s slot hdr payload with
  | (none, s) => s
  | (some packet, s) =>
      (pushOutbound s packet close).log (.transmitted (spaceIndex hdr.type) hdr.packetNumber)

/-- `if (keys && keys->valid)` around `sendTracked`. -/
def sendIfKeys (s : QuicConnection K) (slot : Option KeySlot) (hdr : PacketHeader)
    (payload : Bytes) (frames : List Frame) : QuicConnection K :=
  match slot with
  | none => s
  | some slot =>
      if (s.localKeys slot).valid then (sendTracked env s slot hdr payload frames).1 else s

/-- `handshake_keys_local_.valid ? &handshake_keys_local_ : nullptr`. -/
def handshakeSendKeys (s : QuicConnection K) : Option KeySlot :=
  if s.handshakeKeysLocal.valid then some .handshake else none

/-! ## DATAGRAM frames -/

/-- `max_datagram_payload`. -/
def maxDatagramPayload (s : QuicConnection K) : Nat :=
  if s.peerMaxDatagramFrameSize = 0 then 0
  else
    let overhead := 1 + s.peerCid.length + 4 + 16 + 1 + 2
    if s.maxDatagramSize ≤ overhead then 0
    else
      min (s.maxDatagramSize - overhead)
        (if s.peerMaxDatagramFrameSize > 3 then s.peerMaxDatagramFrameSize - 3 else 0)

/-- `send_datagram`. -/
def sendDatagram (s : QuicConnection K) (payload : Bytes) : QuicConnection K × Bool :=
  if s.state = .closed ∨ s.peerMaxDatagramFrameSize = 0 then (s, false)
  else if payload.length > maxDatagramPayload s then (s, false)
  else
    match s.oneRttSendKeys with
    | none => (s, false)
    | some slot =>
        let (pn, s) := s.allocateNextPn .oneRtt
        match sendTracked env s slot (shortHeader s pn)
            (serializeFrame (.datagram payload)) [.datagram payload] with
        | (s, false) => (s, false)
        | (s, true) => (notifyOutbound env s, true)

/-! ## CRYPTO flights -/

/-- The ACK frame a CRYPTO packet carries along, when `due`. -/
def piggybackAck (s : QuicConnection K) (sp : PnSpace) (due : Bool) :
    Bytes × QuicConnection K :=
  if due then
    (serializeFrame (.ack ((s.ackTrackers sp).buildAckFrame 0)), s.markAckSent sp)
  else ([], s)

/-- One round of `queue_crypto_frame`: a chunk of at most 1150 bytes in a packet
    of the current write level. -/
def queueCryptoChunk (s : QuicConnection K) (chunk : Bytes) : QuicConnection K :=
  if s.currentWriteLevel = 0 then
    let (pn, s) := s.allocateNextPn .initial
    let hdr := longHeader s .initial pn
    let cf : Frame := .crypto ⟨chunk, s.cryptoSendOffsetInitial⟩
    let s := { s with cryptoSendOffsetInitial := s.cryptoSendOffsetInitial + chunk.length }
    let (ack, s) := piggybackAck s .initial (s.ackTrackers .initial).hasPackets
    sendIfKeys env s (some .initial) hdr (padInitial hdr (ack ++ serializeFrame cf)) [cf]
  else if s.currentWriteLevel = 2 then
    let (pn, s) := s.allocateNextPn .handshake
    let hdr := longHeader s .handshake pn
    let cf : Frame := .crypto ⟨chunk, s.cryptoSendOffsetHandshake⟩
    let s := { s with
      cryptoSendOffsetHandshake := s.cryptoSendOffsetHandshake + chunk.length }
    let (ack, s) := piggybackAck s .handshake (s.ackTrackers .handshake).hasPackets
    sendIfKeys env s (handshakeSendKeys s) hdr (ack ++ serializeFrame cf) [cf]
  else
    let (pn, s) := s.allocateNextPn .oneRtt
    let hdr := shortHeader s pn
    let cf : Frame := .crypto ⟨chunk, s.cryptoSendOffsetApp⟩
    let s := { s with cryptoSendOffsetApp := s.cryptoSendOffsetApp + chunk.length }
    let (ack, s) := piggybackAck s .application
      ((s.ackTrackers .application).hasPackets && (s.ackTrackers .application).needsAck)
    sendIfKeys env s s.oneRttSendKeys hdr (ack ++ serializeFrame cf) [cf]

/-- The loop of `queue_crypto_frame` over non-empty data. -/
def queueCryptoLoop : Nat → QuicConnection K → Bytes → QuicConnection K
  | 0, s, _ => s
  | fuel + 1, s, data =>
      if data.isEmpty then s
      else queueCryptoLoop fuel (queueCryptoChunk env s (data.take 1150)) (data.drop 1150)

/-- `queue_crypto_frame`: empty data still makes one packet. -/
def queueCryptoFrame (s : QuicConnection K) (data : Bytes) : QuicConnection K :=
  notifyOutbound env
    (if data.isEmpty then queueCryptoChunk env s []
      else queueCryptoLoop env data.length s data)

/-! ## ACK-only packets -/

/-- The header and keys of an ACK-only packet. -/
def ackHeader (s : QuicConnection K) (type : PacketType) (pn : Nat) :
    PacketHeader × Option KeySlot :=
  match type with
  | .oneRtt => (shortHeader s pn, s.oneRttSendKeys)
  | .handshake => (longHeader s .handshake pn, handshakeSendKeys s)
  | _ => (longHeader s .initial pn, some .initial)

/-- The ACK-only packet itself, once its header and keys are chosen. -/
def sendAckPacket (s : QuicConnection K) (type : PacketType) (hdr : PacketHeader) :
    Option KeySlot → QuicConnection K
  | none => s
  | some slot =>
      if (s.localKeys slot).valid then
        let (ack, s) := piggybackAck s (spaceIndex type) true
        let payload := if !s.isServer && type = .initial then padInitial hdr ack else ack
        notifyOutbound env (sealAndPush env s slot hdr payload false)
      else s

/-- `send_ack_for_space`. -/
def sendAckForSpace (s : QuicConnection K) (type : PacketType) : QuicConnection K :=
  if (s.ackTrackers (spaceIndex type)).hasPackets then
    let (pn, s) := s.allocateNextPn type
    let (hdr, slot) := ackHeader s type pn
    sendAckPacket env s type hdr slot
  else s

/-! ## Stream data -/

/-- `kMaxStreamFramePayload`. -/
def kMaxStreamFramePayload : Nat := 1150

/-- The bytes of the next STREAM frame: as much of the queue as the payload limit
    and the two credits allow. -/
def chunkLen (s : QuicConnection K) (sid : Nat) : Nat :=
  min (min (min (s.streamSendQueues sid).length kMaxStreamFramePayload)
    (s.maxData - s.dataSent)) (s.maxStreamData - s.streamDataSent sid)

/-- The next STREAM frame of a stream. -/
def nextStreamFrame (s : QuicConnection K) (sid : Nat) : StreamFrame :=
  let len := chunkLen s sid
  { streamId := sid
    data := (s.streamSendQueues sid).take len
    fin := decide (len = (s.streamSendQueues sid).length) && s.streamSendFin sid
    hasLength := true
    offset := s.streamSendOffsets sid
    hasOffset := decide (s.streamSendOffsets sid > 0) }

/-- The counters after a STREAM frame has been packetized. -/
def advanceStream (s : QuicConnection K) (sf : StreamFrame) : QuicConnection K :=
  let sid := sf.streamId
  let len := sf.data.length
  ({ s with
    streamSendOffsets :=
      Function.update s.streamSendOffsets sid (s.streamSendOffsets sid + len)
    dataSent := s.dataSent + len
    streamDataSent := Function.update s.streamDataSent sid (s.streamDataSent sid + len)
    streamSendQueues :=
      Function.update s.streamSendQueues sid ((s.streamSendQueues sid).drop len)
    streamSendFin :=
      Function.update s.streamSendFin sid (s.streamSendFin sid && !sf.fin) }).log
        (.streamSent sid sf.offset sf.data sf.fin)

/-- The inner loop of `flush_stream_send_queues` for one stream. -/
def flushStreamLoop (slot : KeySlot) : Nat → QuicConnection K → Nat → QuicConnection K
  | 0, s, _ => s
  | fuel + 1, s, sid =>
      let queue := s.streamSendQueues sid
      if queue.isEmpty && !s.streamSendFin sid then s
      else if chunkLen s sid = 0 && !queue.isEmpty then s -- blocked by flow control
      else
        let sf := nextStreamFrame s sid
        let (pn, s) := s.allocateNextPn .oneRtt
        match sendTracked env s slot (shortHeader s pn) (serializeFrame (.stream sf))
            [.stream sf] with
        | (s, false) => s -- the bytes stay queued
        | (s, true) =>
            let s := advanceStream s sf
            if sf.data.length = 0 && sf.fin then s
            else flushStreamLoop slot fuel s sid

/-- The send state of a stream that `close_stream` removed is erased once all of
    it has been packetized. -/
def dropSendState (s : QuicConnection K) (sid : Nat) : QuicConnection K :=
  ({ s with
    streamSendFin := Function.update s.streamSendFin sid false
    streamSendOffsets := Function.update s.streamSendOffsets sid 0
    streamDataSent := Function.update s.streamDataSent sid 0
    streamSendQueues := Function.update s.streamSendQueues sid []
    sendQueueIds := s.sendQueueIds.filter (· ≠ sid) }).log
      (.sendStateDropped sid (s.streamSendOffsets sid))

/-- The body of the outer loop of `flush_stream_send_queues`. -/
def flushStream (slot : KeySlot) (s : QuicConnection K) (sid : Nat) : QuicConnection K :=
  let s := flushStreamLoop env slot ((s.streamSendQueues sid).length + 1) s sid
  if (s.streamSendQueues sid).isEmpty && !s.streamSendFin sid && (s.streams sid).isNone then
    dropSendState s sid
  else s

/-- `flush_stream_send_queues`. -/
def flushStreamSendQueues (s : QuicConnection K) : QuicConnection K :=
  if s.state = .closed then s
  else
    match s.oneRttSendKeys with
    | none => s
    | some slot => (env.iterationOrder s.sendQueueIds).foldl (flushStream env slot) s

/-- The queue and FIN flag after `queue_stream_data` has stored its arguments. -/
def enqueueStreamData (s : QuicConnection K) (sid : Nat) (data : Bytes) (fin : Bool) :
    QuicConnection K :=
  let s' := { s with
    sendQueueIds := if sid ∈ s.sendQueueIds then s.sendQueueIds else s.sendQueueIds ++ [sid]
    streamSendQueues :=
      Function.update s.streamSendQueues sid (s.streamSendQueues sid ++ data)
    streamSendFin := Function.update s.streamSendFin sid (s.streamSendFin sid || fin) }
  if s.state = .closed then s' else s'.log (.accepted sid data fin)

/-- `queue_stream_data` (and `write_stream`). -/
def queueStreamData (s : QuicConnection K) (sid : Nat) (data : Bytes) (fin : Bool) :
    QuicConnection K :=
  notifyOutbound env (flushStreamSendQueues env (enqueueStreamData s sid data fin))

/-! ## Closing streams -/

/-- `QuicStream::close` up to `notify_finished_if_needed`: mark the stream closed
    and queue its FIN unless one was sent. -/
def finishStream (s : QuicConnection K) (h : Nat) : QuicConnection K :=
  let st := s.objects h
  let s := s.setObject h { st with isOpen := false, finSent := true }
  if st.finSent then s else queueStreamData env s st.streamId [] true

/-- `close_stream`, with the stream's own `close` and the `close_stream` that
    makes in turn.  Each round erases one entry of `streams_`. -/
def closeStreamLoop : Nat → QuicConnection K → Nat → QuicConnection K
  | 0, s, _ => s
  | fuel + 1, s, sid =>
      match s.streams sid with
      | none => s
      | some h =>
          let s := flushStreamSendQueues env (s.eraseStream sid)
          if (s.objects h).isOpen then
            closeStreamLoop fuel (finishStream env s h) (s.objects h).streamId
          else s

/-- `close_stream`. -/
def closeStream (s : QuicConnection K) (sid : Nat) : QuicConnection K :=
  closeStreamLoop env (s.streamIds.length + 1) s sid

/-- `QuicStream::close`: a closed stream is finished, so
    `notify_finished_if_needed` always removes it from the table. -/
def streamClose (s : QuicConnection K) (h : Nat) : QuicConnection K :=
  if (s.objects h).isOpen then
    closeStream env (finishStream env s h) (s.objects h).streamId
  else s

/-- `notify_finished_if_needed`. -/
def notifyFinishedIfNeeded (s : QuicConnection K) (h : Nat) : QuicConnection K :=
  if (s.objects h).isFinished then closeStream env s (s.objects h).streamId else s

/-- `QuicStream::shutdown`; `send` and `receive` are the two halves. -/
def streamShutdown (s : QuicConnection K) (h : Nat) (send receive : Bool) :
    QuicConnection K :=
  let st := s.objects h
  let needFin := send && !st.finSent
  let s := s.setObject h { st with
    finSent := st.finSent || send
    finReceived := st.finReceived || receive }
  let s := if needFin then queueStreamData env s st.streamId [] true else s
  notifyFinishedIfNeeded env s h

/-- `QuicStream::write_outbound`. -/
def writeOutbound (s : QuicConnection K) (h : Nat) (data : Bytes) (fin : Bool) :
    QuicConnection K :=
  let st := s.objects h
  let s := if fin then s.setObject h { st with finSent := true } else s
  let s := queueStreamData env s st.streamId data fin
  if fin then notifyFinishedIfNeeded env s h else s

/-- `QuicStream::push_inbound` with its `notify_finished_if_needed`. -/
def streamPushInbound (s : QuicConnection K) (h offset : Nat) (data : Bytes) (fin : Bool) :
    QuicConnection K :=
  let (st, notify) := (s.objects h).pushInbound offset data fin
  let s := s.setObject h st
  if notify then notifyFinishedIfNeeded env s h else s

/-! ## Retransmission -/

/-- `retransmit_frame`: CRYPTO, STREAM and HANDSHAKE_DONE are sent again in a
    packet of their own, everything else is dropped. -/
def retransmitFrame (s : QuicConnection K) (frame : Frame) (type : PacketType) :
    QuicConnection K :=
  match frame with
  | .crypto cf =>
      match type with
      | .initial =>
          let (pn, s) := s.allocateNextPn .initial
          let hdr := longHeader s .initial pn
          sendIfKeys env s (some .initial) hdr
            (padInitial hdr (serializeFrame (.crypto cf))) [.crypto cf]
      | .handshake =>
          let (pn, s) := s.allocateNextPn .handshake
          sendIfKeys env s (handshakeSendKeys s) (longHeader s .handshake pn)
            (serializeFrame (.crypto cf)) [.crypto cf]
      | _ =>
          match s.oneRttSendKeys with
          | none => s
          | some slot =>
              let (pn, s) := s.allocateNextPn .oneRtt
              sendIfKeys env s (some slot) (shortHeader s pn)
                (serializeFrame (.crypto cf)) [.crypto cf]
  | .stream sf =>
      match s.oneRttSendKeys with
      | none => s
      | some slot =>
          let (pn, s) := s.allocateNextPn .oneRtt
          (sendTracked env s slot (shortHeader s pn) (serializeFrame (.stream sf))
            [.stream sf]).1
  | .handshakeDone =>
      let (pn, s) := s.allocateNextPn .oneRtt
      match s.oneRttSendKeys with
      | none => s
      | some slot =>
          (sendTracked env s slot (shortHeader s pn) (serializeFrame .handshakeDone)
            [.handshakeDone]).1
  | _ => s

/-- The loop `for (f, pt : lost_frames) retransmit_frame(f, pt)`. -/
def retransmitAll (s : QuicConnection K) (frames : List (Frame × PacketType)) :
    QuicConnection K :=
  frames.foldl (fun s fp => retransmitFrame env s fp.1 fp.2) s

/-- `send_handshake_done`. -/
def sendHandshakeDone (s : QuicConnection K) : QuicConnection K :=
  if !s.isServer || s.handshakeDoneSent then s
  else
    match s.oneRttSendKeys with
    | none => s
    | some slot =>
        let s := { s with handshakeDoneSent := true }
        let (pn, s) := s.allocateNextPn .oneRtt
        (sendTracked env s slot (shortHeader s pn) (serializeFrame .handshakeDone)
          [.handshakeDone]).1

/-! ## Closing the connection -/

/-- The packet type and keys of CONNECTION_CLOSE: the highest level there is. -/
def closeLevel (s : QuicConnection K) : PacketType × KeySlot :=
  match s.oneRttSendKeys with
  | some slot => (.oneRtt, slot)
  | none => if s.handshakeKeysLocal.valid then (.handshake, .handshake)
      else (.initial, .initial)

/-- The CONNECTION_CLOSE packet of `terminate`. -/
def sendConnectionClose (s : QuicConnection K) (err : Nat) (reason : Bytes) :
    QuicConnection K :=
  let payload := serializeFrame (.connectionClose ⟨reason, err, 0, false⟩)
  let (type, slot) := closeLevel s
  let (pn, s) := s.allocateNextPn type
  let hdr := if type = .oneRtt then shortHeader s pn else longHeader s type pn
  let payload := if !s.isServer && type = .initial then padInitial hdr payload else payload
  if (s.localKeys slot).valid then sealAndPush env s slot hdr payload true else s

/-- `state_ = ConnectionState::Closed` in `terminate`. -/
def markClosed (s : QuicConnection K) : QuicConnection K :=
  ({ s with state := .closed }).log (.closed s.ackDue (!s.receivedDatagrams.isEmpty))

/-- `terminate` empties `streams_` and the maps of the send side. -/
def clearStreams (s : QuicConnection K) : QuicConnection K :=
  { s with
    streamIds := []
    streams := fun _ => none
    streamSendOffsets := fun _ => 0
    streamDataSent := fun _ => 0
    sendQueueIds := []
    streamSendQueues := fun _ => []
    streamSendFin := fun _ => false }

/-- `terminate(send_close, err, reason)`. -/
def terminate (s : QuicConnection K) (sendClose : Bool) (err : Nat) (reason : Bytes) :
    QuicConnection K :=
  if s.state = .closed then s
  else
    let s := markClosed s
    let s := if sendClose then sendConnectionClose env s err reason else s
    let openStreams := (env.iterationOrder s.streamIds).filterMap s.streams
    let s := openStreams.foldl (streamClose env) (clearStreams s)
    if sendClose then notifyOutbound env s else s

/-- `close(err, reason)`. -/
def close (s : QuicConnection K) (err : Nat) (reason : Bytes) : QuicConnection K :=
  terminate env s true err reason

/-! ## Acknowledgements, loss and timeouts -/

/-- The ranges after the first one that `on_ack_received` decodes; `smallest` is
    the lower end of the range before. -/
def decodeAckRanges (smallest : Nat) : List AckRange → List (Nat × Nat)
  | [] => []
  | r :: rest =>
      if smallest < r.gap + 2 then []
      else
        let largest := smallest - r.gap - 2
        (largest - r.ackRangeLen, largest) :: decodeAckRanges (largest - r.ackRangeLen) rest

/-- `acked_ranges` of `on_ack_received`. -/
def ackedRanges (ack : AckFrame) : List (Nat × Nat) :=
  let smallest :=
    ack.largestAcknowledged - (ack.ranges.head?.map AckRange.ackRangeLen).getD 0
  (smallest, ack.largestAcknowledged) :: decodeAckRanges smallest (ack.ranges.drop 1)

/-- `is_acked`. -/
def isAcked (ranges : List (Nat × Nat)) (pn : Nat) : Bool :=
  ranges.any (fun r => decide (pn ≥ r.1 ∧ pn ≤ r.2))

/-- What an acknowledged packet does to the controller. -/
def ackPacket (ack : AckFrame) (now : Int) (cc : CongestionController) (pkt : SentPacket) :
    CongestionController :=
  let cc := cc.onPacketAcked pkt.bytesSent
  if pkt.packetNumber = ack.largestAcknowledged then
    cc.updateRtt ((now - pkt.timeSent).tdiv 1000)
      (wrap64 ((ack.ackDelay <<< 3 : Nat) : Int))
  else cc

/-- The loss test of `detect_lost_packets`: three packets behind the largest
    acknowledged one, or older than 9/8 of the round trip. -/
def isLost (cc : CongestionController) (now : Int) (largestAcked : Nat) (pkt : SentPacket) :
    Bool :=
  let maxRtt := max cc.rttStats.smoothedRtt cc.rttStats.latestRtt
  let timeThreshold := (wrap64 (maxRtt * 9)).tdiv 8
  decide (pkt.packetNumber ≤ largestAcked) &&
    (decide (largestAcked ≥ pkt.packetNumber + kPacketThreshold)
      || decide (now ≥ pkt.timeSent + timeThreshold * 1000))

/-- The frames of lost packets with the type of the packet they were in. -/
def framesOf (pkts : List SentPacket) : List (Frame × PacketType) :=
  pkts.flatMap (fun p => p.retransmittableFrames.map (fun f => (f, p.packetType)))

/-- The first half of `detect_lost_packets`: the packets declared lost leave
    `sent_packets_`. -/
def removeLost (s : QuicConnection K) (sp : PnSpace) (now : Int) (lost : SentPacket → Bool) :
    QuicConnection K :=
  let gone := (s.sentPackets sp).filter lost
  { s with
    congestionController :=
      gone.foldl (fun cc p => cc.onCongestionEvent p.timeSent now) s.congestionController
    sentPackets :=
      Function.update s.sentPackets sp ((s.sentPackets sp).filter (fun p => !lost p))
    trace := (gone.map (fun p => Event.lost sp p.packetNumber p.bytesSent)).reverse ++ s.trace }

/-- `detect_lost_packets`. -/
def detectLostPackets (s : QuicConnection K) (sp : PnSpace) (largestAcked : Nat) :
    QuicConnection K :=
  if (s.sentPackets sp).isEmpty then s
  else
    let (now, s) := steadyNow env s
    let lost := isLost s.congestionController now largestAcked
    retransmitAll env (removeLost s sp now lost) (framesOf ((s.sentPackets sp).filter lost))

/-- The loop of `on_ack_received` over the packets in flight. -/
def removeAcked (s : QuicConnection K) (sp : PnSpace) (ack : AckFrame) (now : Int) :
    QuicConnection K :=
  let acked := fun p : SentPacket => isAcked (ackedRanges ack) p.packetNumber
  { s with
    congestionController :=
      ((s.sentPackets sp).filter acked).foldl (ackPacket ack now) s.congestionController
    sentPackets :=
      Function.update s.sentPackets sp ((s.sentPackets sp).filter (fun p => !acked p)) }

/-- `pto_count_`, `largest_acked_packet_` and `has_largest_acked_` once an ACK frame
    has newly acknowledged a packet. -/
def noteLargestAcked (s : QuicConnection K) (sp : PnSpace) (largest : Nat) :
    QuicConnection K :=
  ({ s with
    ptoCount := 0
    largestAckedPacket := Function.update s.largestAckedPacket sp
      (if !s.hasLargestAcked sp || largest > s.largestAckedPacket sp then largest
        else s.largestAckedPacket sp)
    hasLargestAcked := Function.update s.hasLargestAcked sp true }).log (.newlyAcked sp largest)

/-- `on_ack_received`. -/
def onAckReceived (s : QuicConnection K) (type : PacketType) (ack : AckFrame) :
    QuicConnection K :=
  let sp := spaceIndex type
  if (s.sentPackets sp).isEmpty then s
  else
    let s := s.log (.acked sp (ackedRanges ack))
    let (now, s) := steadyNow env s
    let newlyAckedAny :=
      (s.sentPackets sp).any (fun p => isAcked (ackedRanges ack) p.packetNumber)
    let s := removeAcked s sp ack now
    if newlyAckedAny then
      let s := noteLargestAcked s sp ack.largestAcknowledged
      flushStreamSendQueues env (detectLostPackets env s sp ack.largestAcknowledged)
    else s

/-- Clear the frames of the first packet that still has some: the frames taken
    and the packets left. -/
def takeFirstFrames : List SentPacket → List (Frame × PacketType) × List SentPacket
  | [] => ([], [])
  | p :: rest =>
      if p.retransmittableFrames.isEmpty then
        let (frames, rest) := takeFirstFrames rest
        (frames, p :: rest)
      else
        (p.retransmittableFrames.map (fun f => (f, p.packetType)),
          { p with retransmittableFrames := [] } :: rest)

/-- The loop of `on_loss_detection_timeout` over the spaces: the first space with
    a packet that has frames gives them up. -/
def takeProbeFrames (s : QuicConnection K) :
    List PnSpace → List (Frame × PacketType) × QuicConnection K
  | [] => ([], s)
  | sp :: rest =>
      match takeFirstFrames (s.sentPackets sp) with
      | ([], _) => takeProbeFrames s rest
      | (frames, pkts) =>
          (frames, { s with sentPackets := Function.update s.sentPackets sp pkts })

/-- `on_loss_detection_timeout`. -/
def onLossDetectionTimeout (s : QuicConnection K) : QuicConnection K :=
  if s.state = .closed then s
  else
    let (frames, s) := takeProbeFrames s [.initial, .handshake, .application]
    let s := retransmitAll env s frames
    notifyOutbound env { s with ptoCount := s.ptoCount + 1 }

/-- The idle timer: `close(NoError, "Idle timeout expired")`. -/
def onIdleTimeout (s : QuicConnection K) : QuicConnection K :=
  if s.state = .closed then s
  else close env s 0x00 (text "Idle timeout expired")

end QuicSend
