import WaveX.QuicReceive

/-! # Runs of a connection

    The calls a `QuicConnection` can receive, from the socket layer, its timers,
    the application and the holders of its streams, and the states reached by any
    sequence of them.  TLS is initialised before the first call or never (mock
    mode), as the socket layer does it. -/

namespace QuicRuns

open QuicVarInt QuicFrames QuicPacket QuicCrypto QuicState QuicSend QuicReceive

/-- A call into a connection.  Streams are named by the handle of their object,
    as a holder of the shared pointer does. -/
inductive Op where
  | handleDatagram (datagram : Bytes)
  | pollOutgoingDatagrams
  | lossDetectionTimeout
  | idleTimeout
  | sendDatagram (payload : Bytes)
  | createStream (bidirectional : Bool)
  | getOrCreateStream (sid : Nat)
  | acceptStream
  | closeStream (sid : Nat)
  | queueStreamData (sid : Nat) (data : Bytes) (fin : Bool)
  | writeOutbound (handle : Nat) (data : Bytes) (fin : Bool)
  | streamShutdown (handle : Nat) (send receive : Bool)
  | streamClose (handle : Nat)
  | initiateKeyUpdate
  | runTlsEngine
  | close (err : Nat) (reason : Bytes)
  deriving DecidableEq

variable {K : Type} (env : Env K)

/-- `accept_stream`: take a queued stream, else wait for the next one. -/
def acceptStream (s : QuicConnection K) : QuicConnection K :=
  match s.acceptedStreams with
  | h :: rest =>
      ({ s with acceptedStreams := rest }).log (.streamHanded (s.objects h).streamId)
  | [] => { s with streamAcceptor := true }

/-- The calls by which the application itself opens or takes a stream or drives
    the handshake. -/
def Op.hands : Op → Bool
  | .createStream _ | .getOrCreateStream _ | .acceptStream | .runTlsEngine => true
  | _ => false

/-- The effect of a call; a handle that was never given out has no effect. -/
def perform (s : QuicConnection K) : Op → QuicConnection K
  | .handleDatagram d => handleDatagram env s d
  | .pollOutgoingDatagrams => (pollOutgoingDatagrams s).1
  | .lossDetectionTimeout => onLossDetectionTimeout env s
  | .idleTimeout => onIdleTimeout env s
  | .sendDatagram payload => (sendDatagram env s payload).1
  | .createStream bidi => (createStream s bidi).2
  | .getOrCreateStream sid => getOrCreateStream s sid
  | .acceptStream => acceptStream s
  | .closeStream sid => closeStream env s sid
  | .queueStreamData sid data fin => queueStreamData env s sid data fin
  | .writeOutbound h data fin =>
      if h < s.nextHandle then writeOutbound env s h data fin else s
  | .streamShutdown h send receive =>
      if h < s.nextHandle then streamShutdown env s h send receive else s
  | .streamClose h => if h < s.nextHandle then streamClose env s h else s
  | .initiateKeyUpdate => initiateKeyUpdate env s
  | .runTlsEngine => runTlsEngine env (drainBufferedPackets env) s
  | .close err reason => close env s err reason

/-- A call, with its mark in the trace. -/
def applyOp (s : QuicConnection K) (op : Op) : QuicConnection K :=
  perform env (s.log (.called op.hands)) op

/-- A sequence of calls. -/
def applyOps (s : QuicConnection K) (ops : List Op) : QuicConnection K :=
  ops.foldl (applyOp env) s

/-- The limits and callbacks the application may set before traffic starts. -/
structure Settings where
  onStreamCreated : Bool := false
  onDatagram : Bool := false
  maxFieldSectionSize : Nat := 65536
  maxDatagramSize : Nat := 1200
  localMaxDatagramFrameSize : Nat := 65535
  maxPeerBidiStreams : Nat := 100
  maxPeerUniStreams : Nat := 100

/-- A connection before its first call. -/
structure Start where
  localCid : ConnectionId := default
  peerCid : ConnectionId := default
  initialDcid : ConnectionId := default
  isServer : Bool := true
  tls : Bool := true
  settings : Settings := {}

/-- The configuration of a connection. -/
def Start.config (start : Start) : Config where
  tlsInitialized := start.tls
  isServer := start.isServer
  onStreamCreated := start.settings.onStreamCreated
  onDatagram := start.settings.onDatagram
  maxFieldSectionSize := start.settings.maxFieldSectionSize
  maxDatagramSize := start.settings.maxDatagramSize
  localMaxDatagramFrameSize := start.settings.localMaxDatagramFrameSize
  maxPeerBidiStreams := start.settings.maxPeerBidiStreams
  maxPeerUniStreams := start.settings.maxPeerUniStreams
  localCid := start.localCid
  originalDcid := start.initialDcid

/-- A connection as constructed and configured, before TLS. -/
def Start.configured (start : Start) : QuicConnection K :=
  { newConnection env start.localCid start.peerCid start.isServer start.initialDcid with
    onStreamCreated := start.settings.onStreamCreated
    onDatagram := start.settings.onDatagram
    maxFieldSectionSize := start.settings.maxFieldSectionSize
    maxDatagramSize := start.settings.maxDatagramSize
    localMaxDatagramFrameSize := start.settings.localMaxDatagramFrameSize
    maxPeerBidiStreams := start.settings.maxPeerBidiStreams
    maxPeerUniStreams := start.settings.maxPeerUniStreams }

/-- The state a connection starts in. -/
def Start.conn (start : Start) : QuicConnection K :=
  if start.tls then initTlsHandshakeEngine env (start.configured env)
  else start.configured env

/-- The state after a sequence of calls. -/
def Start.after (start : Start) (ops : List Op) : QuicConnection K :=
  applyOps env (start.conn env) ops

/-- The states reached by any calls. -/
def Reachable (start : Start) (s : QuicConnection K) : Prop :=
  ∃ ops : List Op, start.after env ops = s

/-- One more call. -/
theorem Start.after_concat (start : Start) (ops : List Op) (op : Op) :
    start.after env (ops ++ [op]) = applyOp env (start.after env ops) op :=
  List.foldl_append

theorem Start.after_reachable (start : Start) (ops : List Op) :
    Reachable env start (start.after env ops) :=
  ⟨ops, rfl⟩

/-! ## A sample environment -/

/-- A toy cipher suite: one key, a tag of sixteen zero bytes, and a zero
    header-protection mask. -/
def sampleCrypto : CryptoOps Unit where
  iv _ := List.replicate 12 0
  encrypt _ _ _ plaintext := some (plaintext ++ List.replicate 16 0)
  decrypt _ _ _ ciphertext :=
    if ciphertext.drop (ciphertext.length - 16) = List.replicate 16 0 then
      some (ciphertext.take (ciphertext.length - 16))
    else none
  mask _ _ := some (List.replicate 5 0)
  next _ := some ()
  expand _ := some ()

/-- The toy cipher suite with a clock that advances by one, an outbound callback
    that never polls, and the given TLS engine. -/
def sampleEnv (tls : Nat → TlsCall) : Env Unit :=
  { sampleCrypto with
    initialSecrets := fun cid => some (cid, cid)
    blank := ()
    clock := fun i => i
    tls := tls
    outboundPolls := fun _ => false
    iterationOrder := id
    iterationOrder_perm := fun _ => .refl _ }

/-- The toy cipher does not fail. -/
theorem sampleEnv_encrypt (tls : Nat → TlsCall) :
    ∀ k n a p, (sampleEnv tls).encrypt k n a p ≠ none :=
  fun _ _ _ _ => nofun

/-- An eight-byte connection id. -/
def sampleCid (b : UInt8) : ConnectionId := ConnectionId.ofBytes (List.replicate 8 b)

/-- A packet the peer of a sample connection has sealed. -/
def samplePacket (type : PacketType) (pn : Nat) (payload : Bytes) : Bytes :=
  let hdr : PacketHeader :=
    { isLong := decide (type ≠ .oneRtt)
      type := type
      dcid := sampleCid 1
      scid := sampleCid 2
      packetNumber := pn }
  (protectPacket sampleCrypto (.ofMaterial ()) hdr payload).getD []

/-- A sample server connection. -/
def sampleServer (tls : Bool) : Start where
  localCid := sampleCid 1
  peerCid := sampleCid 2
  initialDcid := sampleCid 3
  tls := tls

/-- A server-side TLS engine: it answers the ClientHello with its flight, the
    Handshake keys and the 1-RTT write key, and completes on the client's Finished
    with the 1-RTT read key. -/
def sampleTls : Nat → TlsCall
  | 0 =>
    { callbacks := [.cryptoSend [2], .yieldSecret 2 true [], .yieldSecret 2 false [],
        .cryptoSend [11], .yieldSecret 3 true []] }
  | _ => { callbacks := [.yieldSecret 3 false []], ret := .done }

/-- The client's ClientHello and Finished. -/
def sampleHandshake : List Op :=
  [.handleDatagram (samplePacket .initial 0 (serializeFrame (.crypto ⟨[1], 0⟩))),
    .handleDatagram (samplePacket .handshake 0 (serializeFrame (.crypto ⟨[20], 0⟩)))]

/-- Four writes on a new stream, each in a packet of its own. -/
def sampleWrites : List Op :=
  [.createStream true, .writeOutbound 0 [97] false, .writeOutbound 0 [98] false,
    .writeOutbound 0 [99] false, .writeOutbound 0 [100] false]

/-- The peer acknowledges the fourth 1-RTT packet only. -/
def sampleAck : Op :=
  .handleDatagram (samplePacket .oneRtt 0 (serializeFrame (.ack ⟨[⟨0, 0⟩], 3, 0, false⟩)))

end QuicRuns
