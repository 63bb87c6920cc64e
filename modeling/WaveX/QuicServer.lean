import Mathlib.Data.List.AList
import WaveX.Labelled
import WaveX.QuicPacket

/-! # The QUIC server's connection table

    `QuicServer` of `src/Network/QUIC/QuicServer.cpp`: one socket, one receive callback at a
    time, and a table that finds a connection by a connection id of its own or by the one that
    its client's first packet was sent to.

    The callback checks `stopped_` at its head, looks the connection up under the mutex, and
    hands the datagram over after it; a connection closes in any thread and posts its removal
    from the table; `stop` runs in a thread of its own.  These steps interleave in any order. -/

namespace QuicServer

open QuicVarInt QuicPacket

/-- `kMinInitialDatagramSize`. -/
def minInitialDatagramSize : Nat := 1200

/-- `QUIC_VERSION_1`. -/
def quicVersion1 : Nat := 0x00000001

/-- `connections_`; a connection is named by the number of those made before it. -/
abbrev Table := AList fun _ : ConnectionId => Nat

/-- What the server gives a `QuicConnection` when it makes one. -/
structure Connection (E : Type*) where
  localCid : ConnectionId
  peerCid : ConnectionId
  peerEndpoint : E
  originalDcid : ConnectionId

/-- Where the receive callback stands: not called, past the checks at its head, or past the
    mutex with a connection. -/
inductive Callback (E : Type*) where
  | waiting
  | received (sender : E) (datagram : Bytes)
  | routed (conn : Nat) (hdr : PacketHeader) (datagram : Bytes)

/-- A datagram handed to a connection, with the header that the callback read. -/
structure Delivery where
  conn : Nat
  hdr : PacketHeader
  datagram : Bytes

/-- `QuicServer`.  `made` are the connections in the order they were made, `closed` those whose
    `terminate` has run, `removals` those whose removal is posted and `teardown` those that
    `stop` took from the table and has yet to close; `received`, `replies` and `delivered`
    record what came in, what the server itself answered, and what it handed on. -/
structure Server (E : Type*) where
  connections : Table := ∅
  serverCidLen : Nat := 8
  stopped : Bool := false
  running : Bool := false
  callback : Callback E := .waiting
  made : List (Connection E) := []
  closed : List Nat := []
  removals : List Nat := []
  teardown : List Nat := []
  received : List (E × Bytes) := []
  replies : List (E × Bytes) := []
  delivered : List Delivery := []

variable {E : Type*}

/-- The Version Negotiation packet that answers a header. -/
def versionNegotiation (hdr : PacketHeader) : Bytes :=
  [UInt8.ofNat (0x80 ||| 0x40), 0, 0, 0, 0]
    ++ UInt8.ofNat hdr.scid.length :: hdr.scid.bytes
    ++ UInt8.ofNat hdr.dcid.length :: hdr.dcid.bytes
    ++ [0, 0, 0, 1]

/-- The header of a datagram; a short one has an id of the server's length. -/
def Server.unpack (s : Server E) (datagram : Bytes) : Option PacketHeader :=
  if (datagram.headD 0).toNat &&& 0x80 != 0 then unpackPacketHeader datagram 8
  else unpackPacketHeader datagram s.serverCidLen

/-- A long header of a version other than the two the server goes on with. -/
def unknownVersion (hdr : PacketHeader) : Bool :=
  hdr.isLong && hdr.version != quicVersion1 && hdr.version != 0

/-- A new connection under its own id, and under the client's unless that one is taken. -/
def Server.accept (s : Server E) (sender : E) (hdr : PacketHeader) (serverCid : ConnectionId) :
    Server E :=
  let connections := s.connections.insert serverCid s.made.length
  { s with
    made := s.made ++
      [{ localCid := serverCid, peerCid := hdr.scid, peerEndpoint := sender,
         originalDcid := hdr.dcid }]
    connections :=
      if hdr.dcid ∈ connections then connections
      else connections.insert hdr.dcid s.made.length }

/-- The callback up to the end of the mutex; `serverCid` is what `ConnectionId::random` would
    return. -/
def Server.route (s : Server E) (sender : E) (datagram : Bytes) (serverCid : ConnectionId) :
    Option (Server E) :=
  match s.unpack datagram with
  | none => some { s with callback := .waiting }
  | some hdr =>
      if unknownVersion hdr && datagram.length < minInitialDatagramSize then
        some { s with callback := .waiting }
      else if unknownVersion hdr then
        -- a socket that `stop` has closed sends nothing
        some { s with
          callback := .waiting
          replies :=
            if s.stopped then s.replies else s.replies ++ [(sender, versionNegotiation hdr)] }
      else
        match s.connections.lookup hdr.dcid with
        | some c => some { s with callback := .routed c hdr datagram }
        | none =>
            if hdr.isLong && hdr.type = .initial && datagram.length < minInitialDatagramSize then
              some { s with callback := .waiting }
            else if hdr.isLong && hdr.type = .initial then
              if serverCid.length = s.serverCidLen then
                some { s.accept sender hdr serverCid with
                  callback := .routed s.made.length hdr datagram }
              else none
            else some { s with callback := .waiting }

/-- `terminate`: the first time, the closed callback posts the removal. -/
def Server.close (s : Server E) (c : Nat) : Server E :=
  if c ∈ s.closed then s
  else { s with closed := s.closed ++ [c], removals := s.removals ++ [c] }

/-- `erase_owned`. -/
def eraseOwned (owner : Nat) (connections : Table) (key : ConnectionId) : Table :=
  if key.empty then connections
  else if connections.lookup key = some owner then connections.erase key
  else connections

/-- The posted removal of a connection. -/
def Server.remove (s : Server E) (c : Nat) (conn : Connection E) : Server E :=
  if s.stopped then { s with removals := s.removals.erase c }
  else
    { s with
      removals := s.removals.erase c
      connections :=
        [conn.localCid, conn.localCid, conn.originalDcid].foldl (eraseOwned c) s.connections }

/-- `stop` up to the teardown; the connections it closes then are those of the table. -/
def Server.stop (s : Server E) : Server E :=
  if s.stopped then s
  else
    { s with
      stopped := true
      running := false
      connections := ∅
      teardown := s.connections.entries.map Sigma.snd }

/-- What a thread, the network or the application does. -/
inductive Action (E : Type*) where
  | setConnectionIdLength (len : Nat)
  | start
  | datagram (sender : E) (datagram : Bytes)
  | route (serverCid : ConnectionId)
  | deliver
  | close (c : Nat)
  | remove (c : Nat)
  | stop
  | tearDown

/-- A step; it is not possible when the callback is not where the action needs it. -/
def step (s : Server E) : Action E → Option (Server E)
  | .setConnectionIdLength len => some { s with serverCidLen := min len maxConnectionIdLen }
  | .start =>
      -- a second call while it runs would start a second loop on the same buffer
      if s.stopped then some s
      else if s.running then none
      else some { s with running := true }
  | .datagram sender datagram =>
      match s.callback with
      | .waiting =>
          if !s.running || s.stopped || datagram.isEmpty then none
          else some { s with
            callback := .received sender datagram
            received := s.received ++ [(sender, datagram)] }
      | _ => none
  | .route serverCid =>
      match s.callback with
      | .received sender datagram => s.route sender datagram serverCid
      | _ => none
  | .deliver =>
      match s.callback with
      | .routed c hdr datagram =>
          some { s with callback := .waiting, delivered := s.delivered ++ [⟨c, hdr, datagram⟩] }
      | _ => none
  | .close c => if c < s.made.length then some (s.close c) else none
  | .remove c =>
      if c ∈ s.removals then (s.made[c]?).map fun conn => s.remove c conn else none
  | .stop => some s.stop
  | .tearDown =>
      match s.teardown with
      | c :: rest => some { s.close c with teardown := rest }
      | [] => none

/-- The runs of a server from its construction on. -/
def servers (E : Type*) : System (Server E) := Labelled.system step fun s => s = {}

end QuicServer
