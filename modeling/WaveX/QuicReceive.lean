import WaveX.QuicSend

/-! # The receiving half of `QuicConnection`

    `process_frames`, the TLS engine, `handle_datagram` and
    `drain_buffered_packets` of `src/Network/QUIC/QuicConnection.cpp`.

    `handle_datagram`, `run_tls_engine` and `drain_buffered_packets` call each
    other.  `drain_buffered_packets` returns at once while it is already running,
    so the calls nest only once: the functions take the drain they call as an
    argument, and a drained packet is handled with the drain that does nothing. -/

namespace QuicReceive

open QuicVarInt QuicFrames QuicPacket QuicCrypto CongestionControl QuicReceiveState QuicState
open QuicSend

variable {K : Type} (env : Env K)

/-! ## process_frames -/

/-- `(stream_id & 0x02) == 0`. -/
def isBidi (sid : Nat) : Bool := sid &&& 0x02 == 0

/-- `((stream_id & 0x01) != 0) == !is_server_`. -/
def peerInitiated (isServer : Bool) (sid : Nat) : Bool := (sid &&& 0x01 != 0) == !isServer

/-- `max_allowed`. -/
def maxPeerStreams (s : QuicConnection K) (bidi : Bool) : Nat :=
  if bidi then s.maxPeerBidiStreams else s.maxPeerUniStreams

/-- The ids implicitly opened by `sid`: those of its type from the high-water
    mark up to it. -/
def implicitIds (sid nextIdx : Nat) : List Nat :=
  (List.range' nextIdx ((sid >>> 2) - nextIdx)).map (fun idx => (idx <<< 2) ||| (sid &&& 0x03))

/-- The outcome of looking for the stream of a STREAM frame. -/
inductive StreamLookup where
  /-- An object that exists already. -/
  | found (h : Nat)
  /-- A new peer stream, to be created with these unseen ids and mark. -/
  | fresh (unseen : List Nat) (nextIdx : Nat)
  /-- The frame is ignored. -/
  | ignored
  /-- The connection is closed with this error and reason. -/
  | refused (err : Nat) (reason : String)

/-- The stream-id checks of `process_frames`. -/
def lookupStream (s : QuicConnection K) (sid : Nat) : StreamLookup :=
  let bidi := isBidi sid
  let peer := peerInitiated s.isServer sid
  if !peer && !bidi then .refused 0x05 "STREAM frame on send-only stream"
  else
    match s.streams sid with
    | some h => .found h
    | none =>
        if !peer then .ignored
        else
          let idx := sid >>> 2
          let nextIdx := s.nextPeerStreamIdx bidi
          if idx < nextIdx then
            if sid ∈ s.unseenPeerStreamIds then
              .fresh (s.unseenPeerStreamIds.filter (· ≠ sid)) nextIdx
            else .ignored
          else if idx ≥ maxPeerStreams s bidi then .refused 0x04 "Stream limit exceeded"
          else .fresh (s.unseenPeerStreamIds ++ implicitIds sid nextIdx) (idx + 1)

/-- Creating the stream object of a new peer stream and handing it out: to the
    waiting `accept_stream`, else to the accept queue when no callback is set. -/
def createPeerStream (s : QuicConnection K) (sid : Nat) (unseen : List Nat) (nextIdx : Nat) :
    Nat × QuicConnection K :=
  let (h, s) := ({ s with
    unseenPeerStreamIds := unseen
    nextPeerStreamIdx :=
      Function.update s.nextPeerStreamIdx (isBidi sid) nextIdx }).newStream sid
  let s := s.log (.streamCreated sid true)
  let s :=
    if s.streamAcceptor then ({ s with streamAcceptor := false }).log (.streamHanded sid)
    else if !s.onStreamCreated && decide (s.acceptedStreams.length < 128) then
      { s with acceptedStreams := s.acceptedStreams ++ [h] }
    else s
  (h, s)

/-- The STREAM branch of `process_frames`; `created` is `new_streams`, as ids. -/
def processStreamFrame (s : QuicConnection K) (created : List Nat) (f : StreamFrame) :
    QuicConnection K × List Nat :=
  match lookupStream s f.streamId with
  | .refused err reason => (close env s err (text reason), created)
  | .ignored => (s, created)
  | .found h => (streamPushInbound env s h f.offset f.data f.fin, created)
  | .fresh unseen nextIdx =>
      let (h, s) := createPeerStream s f.streamId unseen nextIdx
      (streamPushInbound env s h f.offset f.data f.fin, created ++ [f.streamId])

/-- Closing the stream a RESET_STREAM or STOP_SENDING frame names. -/
def closeNamedStream (s : QuicConnection K) (sid : Nat) : QuicConnection K :=
  match s.streams sid with
  | some h => streamClose env s h
  | none => s

/-- The DATAGRAM branch of `process_frames`. -/
def processDatagramFrame (s : QuicConnection K) (data : Bytes) : QuicConnection K :=
  if s.localMaxDatagramFrameSize = 0 ∨ data.length > s.localMaxDatagramFrameSize then
    close env s 0x0a (text "unexpected DATAGRAM frame")
  else if s.receivedDatagrams.length < 1024 then
    { s with receivedDatagrams := s.receivedDatagrams ++ [data] }
  else s

/-- One frame of `process_frames`. -/
def processFrame (type : PacketType) (s : QuicConnection K) (created : List Nat) (f : Frame) :
    QuicConnection K × List Nat :=
  let s := s.log (.frameSeen f)
  match f with
  | .datagram data => (processDatagramFrame env s data, created)
  | .ack ack => (onAckReceived env s type ack, created)
  | .stream sf => processStreamFrame env s created sf
  | .maxData v =>
      let s := s.log (.creditData v)
      (if v > s.maxData then flushStreamSendQueues env { s with maxData := v } else s, created)
  | .maxStreamData sid v =>
      let s := s.log (.creditStream sid v)
      (if v > s.maxStreamData then flushStreamSendQueues env { s with maxStreamData := v }
        else s, created)
  | .resetStream sid _ _ => (closeNamedStream env s sid, created)
  | .stopSending sid _ => (closeNamedStream env s sid, created)
  | .connectionClose _ => (terminate env s false 0x00 [], created)
  | _ => (s, created)

/-- `process_frames`. -/
def processFrames (type : PacketType) (s : QuicConnection K) (created : List Nat) :
    List Frame → QuicConnection K × List Nat
  | [] => (s, created)
  | f :: rest =>
      let (s, created) := processFrame env type s created f
      processFrames type s created rest

/-! ## Streams opened locally -/

/-- `create_stream`: the new stream's id. -/
def createStream (s : QuicConnection K) (bidirectional : Bool) : Nat × QuicConnection K :=
  let (sid, s) :=
    if bidirectional then
      ((s.nextBidiStreamId <<< 2) ||| (if s.isServer then 0x01 else 0),
        { s with nextBidiStreamId := s.nextBidiStreamId + 1 })
    else
      ((s.nextUniStreamId <<< 2) ||| 0x02 ||| (if s.isServer then 0x01 else 0),
        { s with nextUniStreamId := s.nextUniStreamId + 1 })
  (sid, (s.newStream sid).2.log (.streamCreated sid false))

/-- `get_or_create_stream`. -/
def getOrCreateStream (s : QuicConnection K) (sid : Nat) : QuicConnection K :=
  match s.streams sid with
  | some _ => s
  | none => (s.newStream sid).2.log (.streamCreated sid false)

/-- The SETTINGS payload of the HTTP/3 control stream. -/
def settingsPayload (s : QuicConnection K) : Bytes :=
  encode 0x06 ++ encode s.maxFieldSectionSize
    ++ encode 0x01 ++ encode 0
    ++ encode 0x07 ++ encode 0
    ++ encode 0x08 ++ encode 1
    ++ (if s.localMaxDatagramFrameSize > 0 then encode 0x33 ++ encode 1 else [])
    ++ encode 0xc671706a ++ encode 16
    ++ encode 0x2b603742 ++ encode 1

/-- Open a unidirectional stream and write to it. -/
def openAndWrite (s : QuicConnection K) (data : Bytes) : QuicConnection K :=
  let (sid, s) := createStream s false
  queueStreamData env s sid data false

/-- `initialize_http3_session`: control, QPACK encoder and QPACK decoder stream. -/
def initializeHttp3Session (s : QuicConnection K) : QuicConnection K :=
  if !s.isServer || s.http3SessionInitialized then s
  else
    let s := { s with http3SessionInitialized := true }
    let payload := settingsPayload s
    let s := openAndWrite env s
      (encode 0x00 ++ encode 0x04 ++ encode payload.length ++ payload)
    let s := openAndWrite env s (encode 0x02)
    let s := openAndWrite env s (encode 0x03)
    flushStreamSendQueues env s

/-! ## The TLS engine -/

/-- `on_tls_secret`: install the keys of a level. -/
def onTlsSecret (s : QuicConnection K) (level : Nat) (write : Bool) (secret : Bytes) :
    QuicConnection K :=
  match env.expand secret with
  | none => s
  | some k =>
      let keys := ProtectionKeys.ofMaterial k
      if write then
        let s := { s with currentWriteLevel := level }
        if level = 2 then { s with handshakeKeysLocal := keys }
        else if level ≥ 3 then
          { s with oneRttKeysLocal := keys, localGeneration := s.localGeneration + 1 }
        else s
      else
        let s := { s with currentReadLevel := level }
        if level = 2 then { s with handshakeKeysPeer := keys }
        else if level ≥ 3 then { s with oneRttKeysPeer := keys }
        else s

/-- `reassembler_for_level`: an unknown level falls back to the first one. -/
def reassemblerLevel (level : Nat) : Nat := if level ≥ 4 then 0 else level

/-- The loop of `on_tls_transport_params`: `max_datagram_frame_size` (0x20) is the
    one parameter acted on; a malformed tail ends the loop. -/
def parseTransportParams : Nat → Bytes → Nat → Nat
  | 0, _, acc => acc
  | fuel + 1, params, acc =>
      match decode params with
      | none => acc
      | some (id, rest) =>
          match decode rest with
          | none => acc
          | some (len, rest) =>
              if rest.length < len then acc
              else
                let acc :=
                  if id = 0x20 then ((decode (rest.take len)).map Prod.fst).getD acc else acc
                parseTransportParams fuel (rest.drop len) acc

/-- A callback of the TLS engine. -/
def tlsCallback (s : QuicConnection K) : TlsCallback → QuicConnection K
  | .cryptoSend data => if data.isEmpty then s else queueCryptoFrame env s data
  | .cryptoRecv => { s with lastReadCryptoLevel := s.currentReadLevel }
  | .cryptoRelease bytes =>
      let level := reassemblerLevel s.lastReadCryptoLevel
      { s with
        cryptoReassemblers := Function.update s.cryptoReassemblers level
          ((s.cryptoReassemblers level).consume bytes) }
  | .yieldSecret level write secret => onTlsSecret env s level write secret
  | .gotTransportParams params =>
      { s with peerMaxDatagramFrameSize :=
          parseTransportParams params.length params s.peerMaxDatagramFrameSize }
  | .alert _ => s

/-- `run_tls_engine`.  None of the callbacks calls it again, so the loop around
    `SSL_do_handshake` runs once. -/
def runTlsEngine (drain : QuicConnection K → QuicConnection K) (s : QuicConnection K) :
    QuicConnection K :=
  if !s.tlsInitialized then s
  else
    let call := env.tls s.tlsCalls
    let s := call.callbacks.foldl (tlsCallback env) { s with tlsCalls := s.tlsCalls + 1 }
    match call.ret with
    | .wantIo => notifyOutbound env (drain s)
    | .fatal => close env s (0x0100 + 40) (text "TLS handshake failed")
    | .done =>
        if s.handshakeDone then s
        else
          let s := drain { s with handshakeDone := true, state := .connected }
          let s := flushStreamSendQueues env (s.log .handshakeResumed)
          let s :=
            if s.isServer then initializeHttp3Session env (sendHandshakeDone env s) else s
          notifyOutbound env s

/-! ## handle_datagram -/

/-- `frame_allowed_in`. -/
def frameAllowedIn (f : Frame) (type : PacketType) : Bool :=
  match type with
  | .oneRtt => true
  | .zeroRtt =>
      match f with
      | .ack _ | .crypto _ | .newToken _ | .handshakeDone => false
      | _ => true
  | _ =>
      match f with
      | .padding _ | .ping | .ack _ | .crypto _ => true
      | .connectionClose ccf => !ccf.isApplication
      | _ => false

/-- The frames that do not make a packet ack-eliciting. -/
def ackElicitingFrame : Frame → Bool
  | .ack _ | .padding _ | .connectionClose _ => false
  | _ => true

/-- `reassembler_for_pkt_type`. -/
def reassemblerForType : PacketType → Nat
  | .initial => 0
  | .zeroRtt => 1
  | .handshake => 2
  | _ => 3

/-- The CRYPTO frames of a packet go to the reassembler of its level; the flag is
    false when one of them exceeds the buffer. -/
def insertCrypto (level : Nat) (s : QuicConnection K) : List Frame → QuicConnection K × Bool
  | [] => (s, true)
  | .crypto cf :: rest =>
      match (s.cryptoReassemblers level).insert cf.offset cf.data with
      | none => (s, false)
      | some r =>
          insertCrypto level
            { s with cryptoReassemblers := Function.update s.cryptoReassemblers level r } rest
  | _ :: rest => insertCrypto level s rest

/-- `ack_trackers_[space_idx].add_packet(pn, is_ack_eliciting)`. -/
def recordPacket (s : QuicConnection K) (sp : PnSpace) (pn : Nat) (ackEliciting : Bool) :
    QuicConnection K :=
  { s with
    ackTrackers := Function.update s.ackTrackers sp
      ((s.ackTrackers sp).addPacket pn ackEliciting) }

/-- A CRYPTO frame. -/
def isCrypto : Frame → Bool
  | .crypto _ => true
  | _ => false

/-- Which keys open a packet. -/
inductive KeyChoice where
  | initial
  | handshake
  | oneRtt
  /-- The packet waits in `buffered_handshake_packets_`. -/
  | bufferHandshake
  /-- The packet waits in `buffered_one_rtt_packets_`. -/
  | bufferOneRtt
  | drop
  deriving DecidableEq

/-- The key selection of `handle_datagram`. -/
def chooseKeys (s : QuicConnection K) (hdr : PacketHeader) : KeyChoice :=
  if hdr.isLong then
    match hdr.type with
    | .initial => if s.initialKeysPeer.valid then .initial else .drop
    | .handshake => if s.handshakeKeysPeer.valid then .handshake else .bufferHandshake
    | _ => .drop
  else if s.oneRttKeysPeer.valid then .oneRtt
  else if !s.tlsInitialized then (if s.initialKeysPeer.valid then .initial else .drop)
  else .bufferOneRtt

/-- The keys behind a choice. -/
def peerKeys (s : QuicConnection K) : KeyChoice → ProtectionKeys K
  | .handshake => s.handshakeKeysPeer
  | .oneRtt => s.oneRttKeysPeer
  | _ => s.initialKeysPeer

/-- Store the keys `unprotect_packet` leaves behind. -/
def setPeerKeys (s : QuicConnection K) (choice : KeyChoice) (keys : ProtectionKeys K) :
    QuicConnection K :=
  match choice with
  | .handshake => { s with handshakeKeysPeer := keys }
  | .oneRtt => { s with oneRttKeysPeer := keys }
  | _ => { s with initialKeysPeer := keys }

/-- The key-phase step after a 1-RTT packet has been opened: a new phase of the
    peer's keys also rotates the local keys. -/
def followKeyPhase (s : QuicConnection K) : QuicConnection K :=
  if s.oneRttKeysPeer.valid && s.oneRttKeysPeer.keyPhase != s.peerKeyPhase then
    let phase := s.oneRttKeysPeer.keyPhase
    let s := { s with peerKeyPhase := phase }
    if s.oneRttKeysLocal.valid then
      match updateKeys env.toCryptoOps s.oneRttKeysLocal with
      | some keys =>
          { s with
            oneRttKeysLocal := { keys with keyPhase := phase }
            localKeyPhase := phase
            localGeneration := s.localGeneration + 1 }
      | none =>
          { s with
            oneRttKeysLocal := { s.oneRttKeysLocal with keyPhase := phase }
            localKeyPhase := phase }
    else s
  else s

/-- What an opened, non-duplicate packet says about the peer, before its frames
    are read. -/
def noteOpened (s : QuicConnection K) (hdr : PacketHeader) : QuicConnection K :=
  if hdr.isLong then
    match hdr.type with
    | .initial =>
        let s := { s with hasReceivedInitial := true }
        if !s.isServer && !s.peerCidSwitched && !hdr.scid.empty then
          { s with peerCid := hdr.scid, peerCidSwitched := true }
        else s
    | .handshake =>
        let s := { s with hasReceivedHandshake := true }
        if s.isServer then { s with peerAddressValidated := true } else s
    | _ => s
  else followKeyPhase env { s with peerAddressValidated := true }

/-- The state after one packet, the ids of the streams created so far, and
    whether `handle_datagram` returns at once. -/
abbrev PacketResult (K : Type) := QuicConnection K × List Nat × Bool

/-- What `handle_datagram` does with the frames of an opened packet before they are
    processed: admission, CRYPTO data, the ACK tracker.  A refused packet closes the
    connection with the error given. -/
def admitFrames (s : QuicConnection K) (hdr : PacketHeader) (frames : List Frame) :
    Except (QuicConnection K × Nat × Bytes) (QuicConnection K) :=
  if s.tlsInitialized && frames.any (fun f => !frameAllowedIn f hdr.type) then
    .error (s, 0x0a, text "frame not permitted in packet type")
  else
    let stored :=
      if s.tlsInitialized then insertCrypto (reassemblerForType hdr.type) s frames
      else (s, true)
    match stored with
    | (s, false) => .error (s, 0x0d, text "CRYPTO buffer limit exceeded")
    | (s, true) =>
        .ok (recordPacket s (spaceIndex hdr.type) hdr.packetNumber (frames.any ackElicitingFrame))

/-- The frames of an opened packet: admission, the TLS engine and `process_frames`. -/
def handleFrames (drain : QuicConnection K → QuicConnection K) (s : QuicConnection K)
    (created : List Nat) (hdr : PacketHeader) (frames : List Frame) : PacketResult K :=
  match admitFrames s hdr frames with
  | .error (s, err, reason) => (close env s err reason, created, true)
  | .ok s =>
      let s :=
        if s.tlsInitialized && frames.any isCrypto then runTlsEngine env drain s else s
      let (s, created) := processFrames env hdr.type s created frames
      (s, created, false)

/-- A packet whose keys are there: open it, drop duplicates, read its frames. -/
def handleOpenable (drain : QuicConnection K → QuicConnection K) (s : QuicConnection K)
    (created : List Nat) (hdr : PacketHeader) (packet : Bytes) (choice : KeyChoice) :
    PacketResult K :=
  let tracker := s.ackTrackers (spaceIndex hdr.type)
  match unprotectPacket env.toCryptoOps (peerKeys s choice) packet tracker.largestPn
      s.localCid.length with
  | none => (s, created, false)
  | some (keys, hdr, plaintext) =>
      let s := setPeerKeys s choice keys
      if tracker.contains hdr.packetNumber then (s, created, false)
      else
        let s := noteOpened env s hdr
        match parseFrames plaintext with
        | some frames => handleFrames env drain s created hdr frames
        | none =>
            (close env s 0x07 (text "malformed or unknown frame"), created, true)

/-- One packet of a datagram. -/
def handlePacket (drain : QuicConnection K → QuicConnection K) (s : QuicConnection K)
    (created : List Nat) (hdr : PacketHeader) (packet : Bytes) : PacketResult K :=
  match chooseKeys s hdr with
  | .bufferHandshake =>
      (if s.bufferedHandshakePackets.length < 16 then
        { s with bufferedHandshakePackets := s.bufferedHandshakePackets ++ [packet] }
        else s, created, false)
  | .bufferOneRtt =>
      (if s.bufferedOneRttPackets.length < 16 then
        { s with bufferedOneRttPackets := s.bufferedOneRttPackets ++ [packet] }
        else s, created, false)
  | .drop => (s, created, false)
  | choice => handleOpenable env drain s created hdr packet choice

/-- The size of the packet at the start of `remaining`: a long header's Length
    when it fits, else everything. -/
def packetSize (hdr : PacketHeader) (remaining : Bytes) : Nat :=
  if hdr.isLong && decide (0 < hdr.length)
      && decide (hdr.pnOffset + hdr.length ≤ remaining.length) then
    hdr.pnOffset + hdr.length
  else remaining.length

/-- The packet loop of `handle_datagram`.  Every packet takes at least one byte,
    so the datagram's length is enough rounds. -/
def packetLoop (drain : QuicConnection K → QuicConnection K) :
    Nat → QuicConnection K → List Nat → Bytes → PacketResult K
  | 0, s, created, _ => (s, created, false)
  | fuel + 1, s, created, remaining =>
      if remaining.isEmpty ∨ s.state = .closed then (s, created, false)
      else
        match unpackPacketHeader remaining s.localCid.length with
        | none => (s, created, false)
        | some hdr =>
            let size := packetSize hdr remaining
            match handlePacket env drain s created hdr (remaining.take size) with
            | (s, created, true) => (s, created, true)
            | (s, created, false) => packetLoop drain fuel s created (remaining.drop size)

/-- `send_initial_handshake_response` (mock mode). -/
def sendInitialHandshakeResponse (s : QuicConnection K) : QuicConnection K :=
  let (pn, s) := s.allocateNextPn .initial
  let tracker := s.ackTrackers .initial
  let ack : AckFrame := if tracker.hasPackets then tracker.buildAckFrame 0 else {}
  let s := s.markAckSent .initial
  sendHandshakeDone env
    (sealAndPush env s .initial (longHeader s .initial pn) (serializeFrame (.ack ack)) false)

/-- `if (ack_trackers_[i].needs_ack()) send_ack_for_space(type)`. -/
def sendAckIfDue (s : QuicConnection K) (type : PacketType) : QuicConnection K :=
  if (s.ackTrackers (spaceIndex type)).needsAck then sendAckForSpace env s type else s

/-- The tail of `handle_datagram` under the lock: the pending ACKs, the mock
    handshake and the buffered packets. -/
def datagramTail (drain : QuicConnection K → QuicConnection K) (s : QuicConnection K) :
    QuicConnection K :=
  let s := sendAckIfDue env s .initial
  let s := sendAckIfDue env s .handshake
  let s := sendAckIfDue env s .oneRtt
  let s :=
    if s.isServer && decide (s.state = .initial) && s.hasReceivedInitial
        && !s.tlsInitialized then
      { sendInitialHandshakeResponse env s with state := .connected }
    else s
  drain s

/-- Hand out what a datagram produced, after the lock is released: new streams to
    the stream callback, DATAGRAM payloads to the datagram callback. -/
def deliver (s : QuicConnection K) (created : List Nat) : QuicConnection K :=
  let datagrams := s.receivedDatagrams
  let s := { s with receivedDatagrams := [] }
  let s := s.logAll (if s.onStreamCreated then created.map Event.streamHanded else [])
  let s := s.logAll (if s.onDatagram then datagrams.map Event.datagramDelivered else [])
  notifyOutbound env s

/-- `handle_datagram` after the received bytes have been counted. -/
def handleCounted (drain : QuicConnection K → QuicConnection K) (s : QuicConnection K)
    (datagram : Bytes) : QuicConnection K :=
  match packetLoop env drain datagram.length s [] datagram with
  | (s, _, true) => s
  | (s, created, false) => deliver env (datagramTail env drain s) created

/-- A buffered packet handled again: `handle_datagram` called by the drain, whose
    own nested calls return at once. -/
def replayPacket (s : QuicConnection K) (packet : Bytes) : QuicConnection K :=
  handleCounted env id
    (({ s with
      cumulativeBytesReceived := s.cumulativeBytesReceived + packet.length }).log
        (.replayed packet.length)) packet

/-- The loop of `drain_buffered_packets`: buffered packets whose keys are there,
    Handshake packets first.  No round adds to the buffers, so their total length
    is enough rounds. -/
def drainLoop : Nat → QuicConnection K → QuicConnection K
  | 0, s => s
  | fuel + 1, s =>
      match s.handshakeKeysPeer.valid, s.bufferedHandshakePackets with
      | true, packet :: rest =>
          drainLoop fuel (replayPacket env { s with bufferedHandshakePackets := rest } packet)
      | _, _ =>
          match s.oneRttKeysPeer.valid, s.bufferedOneRttPackets with
          | true, packet :: rest =>
              drainLoop fuel (replayPacket env { s with bufferedOneRttPackets := rest } packet)
          | _, _ => s

/-- `drain_buffered_packets`. -/
def drainBufferedPackets (s : QuicConnection K) : QuicConnection K :=
  if s.drainingBufferedPackets then s
  else
    let fuel := s.bufferedHandshakePackets.length + s.bufferedOneRttPackets.length
    { drainLoop env fuel { s with drainingBufferedPackets := true } with
      drainingBufferedPackets := false }

/-- `handle_datagram` as the socket layer calls it. -/
def handleDatagram (s : QuicConnection K) (datagram : Bytes) : QuicConnection K :=
  handleCounted env (drainBufferedPackets env)
    (({ s with
      cumulativeBytesReceived := s.cumulativeBytesReceived + datagram.length }).log
        (.received datagram.length)) datagram

/-! ## Key updates and start-up -/

/-- `initiate_key_update`. -/
def initiateKeyUpdate (s : QuicConnection K) : QuicConnection K :=
  if !s.oneRttKeysLocal.valid then s
  else
    match updateKeys env.toCryptoOps s.oneRttKeysLocal with
    | none => s
    | some keys =>
        let phase := s.localKeyPhase ^^^ 1
        { s with
          oneRttKeysLocal := { keys with keyPhase := phase }
          localKeyPhase := phase
          localGeneration := s.localGeneration + 1 }

/-- `init_tls_handshake_engine`, successful: the client starts its handshake at
    once. -/
def initTlsHandshakeEngine (s : QuicConnection K) : QuicConnection K :=
  if s.tlsInitialized then s
  else
    let s := { s with tlsInitialized := true }
    if s.isServer then s else runTlsEngine env (drainBufferedPackets env) s

end QuicReceive
