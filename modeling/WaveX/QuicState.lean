import WaveX.CongestionControl
import WaveX.QuicCrypto
import WaveX.QuicReceiveState

/-! # The state of a `QuicConnection`

    The member variables of `QuicConnection` that its logic reads, and the
    environment it runs in.  The environment answers what the code takes from
    outside: the cryptographic library, the clock, the TLS engine, whether the
    outbound callback polls at once, and the iteration order of the hash maps.
    Answers that vary from call to call are indexed by a call counter kept in the
    state, so a statement over all environments covers every behaviour.

    Maps whose `operator[]` default-constructs are total functions; where the
    code iterates over a map or asks for a key, the keys are kept beside it.

    `trace` and `localGeneration` are ghost state: nothing in the model reads
    them.  The trace lists what the connection has done, newest first. -/

namespace QuicState

open QuicVarInt QuicFrames QuicPacket QuicCrypto CongestionControl QuicReceiveState

/-- `ConnectionState`. -/
inductive ConnectionState where
  | initial
  | handshaking
  | connected
  | draining
  | closed
  deriving DecidableEq, Repr

/-- The three sets of send keys: `initial_keys_local_`, `handshake_keys_local_`
    and `one_rtt_keys_local_`. -/
inductive KeySlot where
  | initial
  | handshake
  | oneRtt
  deriving DecidableEq, Repr

/-- The key level that belongs to a packet-number space. -/
def KeySlot.ofSpace : PnSpace → KeySlot
  | .initial => .initial
  | .handshake => .handshake
  | .application => .oneRtt

/-- A call the TLS engine makes into the connection while `SSL_do_handshake`
    runs. -/
inductive TlsCallback where
  | cryptoSend (data : Bytes)
  | cryptoRecv
  | cryptoRelease (bytes : Nat)
  | yieldSecret (level : Nat) (write : Bool) (secret : Bytes)
  | gotTransportParams (params : Bytes)
  | alert (code : Nat)
  deriving DecidableEq, Repr

/-- The outcome of `SSL_do_handshake` as `run_tls_engine` tells it apart. -/
inductive TlsReturn where
  | done
  | wantIo
  | fatal
  deriving DecidableEq, Repr

/-- One call of `SSL_do_handshake`: the callbacks it makes and its outcome. -/
structure TlsCall where
  callbacks : List TlsCallback := []
  ret : TlsReturn := .wantIo
  deriving DecidableEq, Repr

/-- What the connection takes from outside. -/
structure Env (K : Type) extends CryptoOps K where
  /-- Client and server Initial secrets of a connection id (HKDF-Extract and the
      labels `client in`, `server in`). -/
  initialSecrets : Bytes → Option (Bytes × Bytes)
  /-- The material of default-constructed keys. -/
  blank : K
  /-- The `i`-th reading of `steady_clock`, in nanoseconds. -/
  clock : Nat → Int
  /-- The `i`-th call of `SSL_do_handshake`. -/
  tls : Nat → TlsCall
  /-- Whether the `i`-th call of `on_outbound_` polls synchronously. -/
  outboundPolls : Nat → Bool
  /-- The order in which an `unordered_map` with these keys is traversed. -/
  iterationOrder : List Nat → List Nat
  iterationOrder_perm : ∀ l, (iterationOrder l).Perm l

/-- What a connection does, as far as the properties speak of it. -/
inductive Event where
  /-- A call into the connection begins; `hands` when the caller itself opens or
      takes a stream or drives the handshake. -/
  | called (hands : Bool)
  /-- A UDP datagram handed over by the socket layer. -/
  | received (bytes : Nat)
  /-- A buffered packet handled again by `drain_buffered_packets`. -/
  | replayed (bytes : Nat)
  /-- Bytes returned by `poll_outgoing_datagrams`. -/
  | returned (bytes : Nat)
  /-- A `protect_packet` call under a send key. -/
  | sealed (slot : KeySlot) (generation pn : Nat)
  /-- A sealed packet of a packet-number space given to the socket's queue. -/
  | transmitted (space : PnSpace) (pn : Nat)
  /-- A packet recorded in `sent_packets_`. -/
  | packetized (space : PnSpace) (pn : Nat) (frames : List Frame)
  /-- An ACK frame, as the packet-number ranges it acknowledges. -/
  | acked (space : PnSpace) (ranges : List (Nat × Nat))
  /-- An ACK frame has newly acknowledged a packet; its `largest_acknowledged`. -/
  | newlyAcked (space : PnSpace) (largest : Nat)
  /-- A packet declared lost by `detect_lost_packets`. -/
  | lost (space : PnSpace) (pn bytes : Nat)
  /-- `queue_stream_data` on an open connection. -/
  | accepted (sid : Nat) (data : Bytes) (fin : Bool)
  /-- A STREAM frame packetized for the first time. -/
  | streamSent (sid offset : Nat) (data : Bytes) (fin : Bool)
  /-- The send state of a stream erased by `flush_stream_send_queues`, with the
      offset it had reached. -/
  | sendStateDropped (sid offset : Nat)
  /-- A MAX_DATA frame. -/
  | creditData (maxData : Nat)
  /-- A MAX_STREAM_DATA frame. -/
  | creditStream (sid maxStreamData : Nat)
  /-- A frame `process_frames` arrives at. -/
  | frameSeen (f : Frame)
  /-- A `QuicStream` created; `dispatched` when it also goes to `new_streams`. -/
  | streamCreated (sid : Nat) (dispatched : Bool)
  /-- A stream handed to the waiting `accept_stream` or the stream callback. -/
  | streamHanded (sid : Nat)
  /-- A received DATAGRAM payload given to the datagram callback. -/
  | datagramDelivered (data : Bytes)
  /-- The handshake has just completed and `run_tls_engine` goes on after
      draining the buffered packets. -/
  | handshakeResumed
  /-- A packet appended to `pending_outbound_datagrams_`; `close` when it is the
      CONNECTION_CLOSE of `terminate`. -/
  | appended (close : Bool)
  /-- `terminate` has set `Closed`; whether an ACK was due or a received
      DATAGRAM was waiting for delivery at that point. -/
  | closed (ackDue datagramsWaiting : Bool)
  deriving DecidableEq, Repr

/-- The members set before traffic starts. -/
structure Config where
  tlsInitialized : Bool := false
  isServer : Bool := true
  onStreamCreated : Bool := false
  onDatagram : Bool := false
  maxFieldSectionSize : Nat := 65536
  maxDatagramSize : Nat := 1200
  localMaxDatagramFrameSize : Nat := 65535
  maxPeerBidiStreams : Nat := 100
  maxPeerUniStreams : Nat := 100
  version : Nat := 1
  localCid : ConnectionId := default
  originalDcid : ConnectionId := default

/-- The traffic keys and key phases. -/
structure Keys (K : Type) where
  initialKeysPeer : ProtectionKeys K
  initialKeysLocal : ProtectionKeys K
  handshakeKeysPeer : ProtectionKeys K
  handshakeKeysLocal : ProtectionKeys K
  oneRttKeysPeer : ProtectionKeys K
  oneRttKeysLocal : ProtectionKeys K
  localKeyPhase : Nat := 0
  peerKeyPhase : Nat := 0
  /-- Ghost: how often `one_rtt_keys_local_` has been installed or updated. -/
  localGeneration : Nat := 0

/-- Packet numbers, packets in flight and the congestion controller. -/
structure Recovery where
  congestionController : CongestionController := {}
  sentPackets : PnSpace → List SentPacket := fun _ => []
  nextPacketNumber : PnSpace → Nat := fun _ => 0
  largestAckedPacket : PnSpace → Nat := fun _ => 0
  hasLargestAcked : PnSpace → Bool := fun _ => false
  ptoCount : Nat := 0
  /-- Readings of the clock so far. -/
  clockReads : Nat := 0

/-- The send side of the streams and the peer's flow-control credit. -/
structure SendSide where
  streamSendOffsets : Nat → Nat := fun _ => 0
  streamDataSent : Nat → Nat := fun _ => 0
  sendQueueIds : List Nat := []
  streamSendQueues : Nat → Bytes := fun _ => []
  streamSendFin : Nat → Bool := fun _ => false
  maxData : Nat := 1024 * 1024
  maxStreamData : Nat := 256 * 1024
  dataSent : Nat := 0

/-- The table of live streams and the peer's stream ids. -/
structure StreamTable where
  streamIds : List Nat := []
  streams : Nat → Option Nat := fun _ => none
  /-- The `QuicStream` objects by handle; holders keep them after
      `close_stream`. -/
  objects : Nat → QuicStream := fun _ => {}
  nextHandle : Nat := 0
  acceptedStreams : List Nat := []
  unseenPeerStreamIds : List Nat := []
  streamAcceptor : Bool := false
  /-- Indexed by `is_bidi`. -/
  nextPeerStreamIdx : Bool → Nat := fun _ => 0
  nextBidiStreamId : Nat := 0
  nextUniStreamId : Nat := 0

/-- Packets on their way out and the anti-amplification budget. -/
structure Outbound where
  pendingOutboundDatagrams : List Bytes := []
  amplificationHeldDatagrams : List Bytes := []
  cumulativeBytesReceived : Nat := 0
  cumulativeBytesSent : Nat := 0
  peerAddressValidated : Bool := false
  /-- Calls of `on_outbound_` so far. -/
  outboundCalls : Nat := 0

/-- Received packets, DATAGRAM payloads and CRYPTO data. -/
structure Inbound where
  bufferedHandshakePackets : List Bytes := []
  bufferedOneRttPackets : List Bytes := []
  receivedDatagrams : List Bytes := []
  cryptoReassemblers : Nat → CryptoStreamReassembler := fun _ => {}
  ackTrackers : PnSpace → ReceivedPacketTracker := fun _ => {}
  hasReceivedInitial : Bool := false
  hasReceivedHandshake : Bool := false
  drainingBufferedPackets : Bool := false

/-- The TLS handshake and what it negotiates. -/
structure Handshake where
  cryptoSendOffsetInitial : Nat := 0
  cryptoSendOffsetHandshake : Nat := 0
  cryptoSendOffsetApp : Nat := 0
  currentWriteLevel : Nat := 0
  currentReadLevel : Nat := 0
  lastReadCryptoLevel : Nat := 0
  handshakeDone : Bool := false
  handshakeDoneSent : Bool := false
  http3SessionInitialized : Bool := false
  peerMaxDatagramFrameSize : Nat := 0
  /-- Calls of `SSL_do_handshake` so far. -/
  tlsCalls : Nat := 0

/-- `QuicConnection`. -/
structure QuicConnection (K : Type) extends Config, Keys K, Recovery, SendSide,
    StreamTable, Outbound, Inbound, Handshake where
  peerCid : ConnectionId := default
  peerCidSwitched : Bool := false
  state : ConnectionState := .initial
  /-- Ghost: what has happened, newest first. -/
  trace : List Event := []

namespace QuicConnection

variable {K : Type}

/-- Add an event to the ghost trace. -/
def log (s : QuicConnection K) (e : Event) : QuicConnection K :=
  { s with trace := e :: s.trace }

/-- Add several events to the ghost trace, in order. -/
def logAll (s : QuicConnection K) (es : List Event) : QuicConnection K :=
  { s with trace := es.reverse ++ s.trace }

/-- The send keys of a slot. -/
def localKeys (s : QuicConnection K) : KeySlot → ProtectionKeys K
  | .initial => s.initialKeysLocal
  | .handshake => s.handshakeKeysLocal
  | .oneRtt => s.oneRttKeysLocal

/-- The key generation of a slot; only 1-RTT keys are ever updated. -/
def generation (s : QuicConnection K) : KeySlot → Nat
  | .oneRtt => s.localGeneration
  | _ => 0

/-- `one_rtt_send_keys`: the 1-RTT keys, the Initial keys only in mock mode. -/
def oneRttSendKeys (s : QuicConnection K) : Option KeySlot :=
  if s.oneRttKeysLocal.valid then some .oneRtt
  else if !s.tlsInitialized then some .initial
  else none

/-- A tracker of some space has an ack-eliciting packet to acknowledge. -/
def ackDue (s : QuicConnection K) : Bool :=
  (s.ackTrackers .initial).needsAck || (s.ackTrackers .handshake).needsAck
    || (s.ackTrackers .application).needsAck

/-- `ack_trackers_[sp].mark_ack_sent()`. -/
def markAckSent (s : QuicConnection K) (sp : PnSpace) : QuicConnection K :=
  { s with ackTrackers := Function.update s.ackTrackers sp (s.ackTrackers sp).markAckSent }

/-- `allocate_next_pn`. -/
def allocateNextPn (s : QuicConnection K) (type : PacketType) : Nat × QuicConnection K :=
  let sp := spaceIndex type
  (s.nextPacketNumber sp,
    { s with nextPacketNumber :=
        Function.update s.nextPacketNumber sp (s.nextPacketNumber sp + 1) })

/-- `streams_[sid] = stream`. -/
def insertStream (s : QuicConnection K) (sid h : Nat) : QuicConnection K :=
  { s with
    streamIds := if sid ∈ s.streamIds then s.streamIds else s.streamIds ++ [sid]
    streams := Function.update s.streams sid (some h) }

/-- `streams_.erase(sid)`. -/
def eraseStream (s : QuicConnection K) (sid : Nat) : QuicConnection K :=
  { s with
    streamIds := s.streamIds.filter (· ≠ sid)
    streams := Function.update s.streams sid none }

/-- Change the object behind a handle. -/
def setObject (s : QuicConnection K) (h : Nat) (st : QuicStream) : QuicConnection K :=
  { s with objects := Function.update s.objects h st }

/-- `std::make_shared<QuicStream>` entered into `streams_`. -/
def newStream (s : QuicConnection K) (sid : Nat) : Nat × QuicConnection K :=
  (s.nextHandle,
    ({ s with
      objects := Function.update s.objects s.nextHandle { streamId := sid }
      nextHandle := s.nextHandle + 1 }).insertStream sid s.nextHandle)

end QuicConnection

/-- The constructor `QuicConnection(local_cid, peer_cid, …, is_server, …,
    initial_dcid)`: the Initial keys come from the client's first DCID. -/
def newConnection {K : Type} (env : Env K) (localCid peerCid : ConnectionId)
    (isServer : Bool) (initialDcid : ConnectionId) : QuicConnection K :=
  let blankKeys : ProtectionKeys K := ⟨env.blank, 0, false⟩
  let secretCid := if !initialDcid.empty then initialDcid else peerCid
  let expand (secret : Option Bytes) : ProtectionKeys K :=
    match secret.bind env.expand with
    | some k => .ofMaterial k
    | none => blankKeys
  let secrets := env.initialSecrets secretCid.bytes
  let clientKeys := expand (secrets.map Prod.fst)
  let serverKeys := if clientKeys.valid then expand (secrets.map Prod.snd) else blankKeys
  { initialKeysPeer := if isServer then clientKeys else serverKeys
    initialKeysLocal := if isServer then serverKeys else clientKeys
    handshakeKeysPeer := blankKeys
    handshakeKeysLocal := blankKeys
    oneRttKeysPeer := blankKeys
    oneRttKeysLocal := blankKeys
    localCid := localCid
    peerCid := peerCid
    originalDcid := initialDcid
    isServer := isServer }

end QuicState
