import WaveX.QuicCoalescing
import WaveX.QuicSendSimulation

/-! # The sizes of sent packets

    What `send_datagram`, `queue_crypto_frame`, `flush_stream_send_queues` and
    `retransmit_frame` seal, against `max_datagram_size_`.  The chunks of CRYPTO and STREAM
    data are cut at 1150 bytes whatever the header, the varints and the ACK before them take;
    `max_datagram_payload` counts two bytes for a length that may take four. -/

namespace QuicDatagramSize

open QuicVarInt QuicFrames QuicPacket QuicCrypto CongestionControl QuicReceiveState QuicState List
open QuicSend QuicSimulation QuicCoalescing

/-! ## The size of a sealed packet -/

/-- AES-128-GCM does not fail, and appends a tag of 16 bytes. -/
def SealsAll {K : Type} (ops : CryptoOps K) : Prop :=
  ∀ k nonce aad plaintext, ∃ out, ops.encrypt k nonce aad plaintext = some out ∧
    out.length = plaintext.length + 16

theorem protectHeader_length {K : Type} (ops : CryptoOps K) (k : K) (isLong : Bool)
    (pnOffset pnLen : Nat) (packet : Bytes) :
    (protectHeader ops k isLong pnOffset pnLen packet).length = packet.length := by
  rw [protectHeader]
  split
  · rfl
  · split
    · rfl
    · cases packet with
      | nil => rfl
      | cons first rest =>
        rw [applyHeaderMask, length_cons, length_append, xorBytes_length,
          length_take, length_drop, length_cons]
        omega

/-- The size of a packet with this header and a plaintext of `n` bytes. -/
def sealedSize (hdr : PacketHeader) (n : Nat) : Nat :=
  (packPacketHeader (mutableHdr hdr n)).length + n + 16

theorem protectPacket_size {K : Type} {ops : CryptoOps K} (hall : SealsAll ops)
    {keys : ProtectionKeys K} (hvalid : keys.valid = true) (hdr : PacketHeader)
    (plaintext : Bytes) :
    ∃ packet, protectPacket ops keys hdr plaintext = some packet ∧
      packet.length = sealedSize hdr plaintext.length := by
  obtain ⟨out, hout, hlen⟩ := hall keys.material
    (nonce (ops.iv keys.material) (mutableHdr hdr plaintext.length).packetNumber)
    (packPacketHeader (mutableHdr hdr plaintext.length)) plaintext
  rw [protectPacket, if_pos hvalid]
  dsimp only
  rw [hout]
  refine ⟨_, rfl, ?_⟩
  rw [protectHeader_length, length_append, hlen, sealedSize]
  omega

variable {K : Type}

/-- A short header: the first byte, the connection id and four bytes of packet number. -/
theorem sealedSize_short (s : QuicConnection K) (pn n : Nat) :
    sealedSize (shortHeader s pn) n = s.peerCid.length + n + 21 := by
  have hlen : (mutableHdr (shortHeader s pn) n).dcid.bytes.length = s.peerCid.length := rfl
  have hpn : (mutableHdr (shortHeader s pn) n).packetNumberLen = 4 := rfl
  rw [sealedSize, packPacketHeader_short rfl, length_cons, length_append,
    packPacketNumber_length, hlen, hpn]
  omega

/-- What a long header takes besides the Length field: `est_overhead` counts two bytes for
    that, and the byte of an empty token also where there is none. -/
def longOverhead (s : QuicConnection K) (type : PacketType) : Nat :=
  27 + s.peerCid.length + s.localCid.length + if type = .initial then 1 else 0

theorem sealedSize_long (s : QuicConnection K) (type : PacketType) (pn n : Nat) :
    sealedSize (longHeader s type pn) n = longOverhead s type + encodedSize (n + 20) + n := by
  have hdcid : (mutableHdr (longHeader s type pn) n).dcid.bytes.length = s.peerCid.length := rfl
  have hscid : (mutableHdr (longHeader s type pn) n).scid.bytes.length = s.localCid.length := rfl
  have hpn : (mutableHdr (longHeader s type pn) n).packetNumberLen = 4 := rfl
  have hlength : (mutableHdr (longHeader s type pn) n).length = n + 20 := rfl
  have htype : (mutableHdr (longHeader s type pn) n).type = type := rfl
  have htoken : (mutableHdr (longHeader s type pn) n).token = [] := rfl
  have hempty : (encode 0).length = 1 := rfl
  rw [sealedSize, packPacketHeader_long rfl, longBody, longOverhead]
  simp only [length_cons, length_append, packPacketNumber_length, hdcid, hscid, hpn,
    hlength, htype, htoken, encode_length, length_nil]
  by_cases hinit : type = .initial
  · rw [if_pos hinit, if_pos hinit, append_nil, hempty]
    omega
  · rw [if_neg hinit, if_neg hinit, length_nil]
    omega

/-! ## The sizes of frames -/

theorem crypto_size (cf : CryptoFrame) :
    (serializeFrame (.crypto cf)).length =
      1 + encodedSize cf.offset + encodedSize cf.data.length + cf.data.length := by
  have htype : (encode 0x06).length = 1 := rfl
  simp only [serializeFrame, length_append, encode_length, htype]

theorem datagram_size (payload : Bytes) :
    (serializeFrame (.datagram payload)).length =
      1 + encodedSize payload.length + payload.length := by
  simp only [serializeFrame, length_append, encode_length]
  rfl

theorem stream_size (sf : StreamFrame) :
    (serializeFrame (.stream sf)).length =
      1 + encodedSize sf.streamId + (if sf.hasOffset then encodedSize sf.offset else 0) +
        (if sf.hasLength then encodedSize sf.data.length else 0) + sf.data.length := by
  simp only [serializeFrame, length_append, encode_length, length_singleton,
    apply_ite List.length, length_nil]

/-! ## Packets built by a call -/

/-- A call that only adds to the packets sent, and leaves the limit as it is. -/
structure Extends (s s' : QuicConnection K) : Prop where
  limit : s'.maxDatagramSize = s.maxDatagramSize
  packets : ∀ sp, s.sentPackets sp <+: s'.sentPackets sp

/-- Every packet added by the call is at most `max_datagram_size_` bytes. -/
def Within (s s' : QuicConnection K) : Prop :=
  ∀ sp, ∀ pkt ∈ (s'.sentPackets sp).drop (s.sentPackets sp).length,
    pkt.bytesSent ≤ s.maxDatagramSize

/-- The packets sent and the limit are those of another state. -/
structure SamePackets (s s' : QuicConnection K) : Prop where
  limit : s'.maxDatagramSize = s.maxDatagramSize
  packets : s'.sentPackets = s.sentPackets

theorem SamePackets.extends {s s' : QuicConnection K} (h : SamePackets s s') : Extends s s' := by
  refine ⟨h.limit, ?_⟩
  intro sp
  rw [h.packets]

theorem SamePackets.within {s s' : QuicConnection K} (h : SamePackets s s') : Within s s' := by
  intro sp pkt hpkt
  rw [h.packets, drop_length] at hpkt
  exact absurd hpkt not_mem_nil

theorem SamePackets.within_iff {s s' s'' : QuicConnection K} (h : SamePackets s s') :
    Within s' s'' ↔ Within s s'' := by
  rw [Within, Within, h.limit, h.packets]

theorem SamePackets.within_iff_right {s s' s'' : QuicConnection K} (h : SamePackets s' s'') :
    Within s s'' ↔ Within s s' := by
  rw [Within, Within, h.packets]

theorem Extends.trans {s s' s'' : QuicConnection K} (h : Extends s s') (h' : Extends s' s'') :
    Extends s s'' :=
  ⟨h'.limit.trans h.limit, fun sp => (h.packets sp).trans (h'.packets sp)⟩

/-- The packets of two calls in a row. -/
theorem within_trans {s s' s'' : QuicConnection K} (h : Extends s s') (h' : Extends s' s'') :
    Within s s'' ↔ Within s s' ∧ Within s' s'' := by
  have hsplit : ∀ sp, (s''.sentPackets sp).drop (s.sentPackets sp).length =
      (s'.sentPackets sp).drop (s.sentPackets sp).length ++
        (s''.sentPackets sp).drop (s'.sentPackets sp).length := by
    intro sp
    obtain ⟨new, hnew⟩ := h.packets sp
    obtain ⟨new', hnew'⟩ := h'.packets sp
    rw [← hnew', ← hnew, append_assoc, drop_left, drop_left,
      ← append_assoc, drop_left]
  constructor
  · intro hall
    constructor
    · intro sp pkt hpkt
      refine hall sp pkt ?_
      rw [hsplit]
      exact mem_append_left _ hpkt
    · intro sp pkt hpkt
      rw [h.limit]
      refine hall sp pkt ?_
      rw [hsplit]
      exact mem_append_right _ hpkt
  · rintro ⟨hfirst, hsecond⟩ sp pkt hpkt
    rw [hsplit] at hpkt
    rcases mem_append.mp hpkt with hpkt | hpkt
    · exact hfirst sp pkt hpkt
    · rw [← h.limit]
      exact hsecond sp pkt hpkt

variable (env : Env K)

theorem notifyOutbound_packets (s : QuicConnection K) : SamePackets s (notifyOutbound env s) := by
  obtain ⟨calls, pending, held, sent, returned, heq⟩ := notifyOutbound_spec env s
  rw [heq]
  exact ⟨rfl, rfl⟩

variable {slot : KeySlot}

/-- A packet that is sealed, tracked and queued: the one packet that it adds. -/
theorem sendTracked_sizes (hall : SealsAll env.toCryptoOps) (s : QuicConnection K)
    (hvalid : (s.localKeys slot).valid = true) (hdr : PacketHeader) (payload : Bytes)
    (frames : List Frame) :
    (sendTracked env s slot hdr payload frames).2 = true ∧
      Extends s (sendTracked env s slot hdr payload frames).1 ∧
      (Within s (sendTracked env s slot hdr payload frames).1 ↔
        sealedSize hdr payload.length ≤ s.maxDatagramSize) := by
  obtain ⟨packet, hpacket, hsize⟩ := protectPacket_size hall hvalid hdr payload
  have hsent : ∀ sp, (sendTracked env s slot hdr payload frames).1.sentPackets sp =
      s.sentPackets sp ++ if sp = spaceIndex hdr.type then
        [SentPacket.ofFrames hdr.packetNumber packet.length hdr.type frames
          (env.clock s.clockReads)] else [] := by
    intro sp
    rw [sendTracked, sealPacket, hpacket]
    by_cases hsp : sp = spaceIndex hdr.type
    · subst hsp
      rw [if_pos rfl]
      exact Function.update_self ..
    · rw [if_neg hsp, append_nil]
      exact Function.update_of_ne hsp ..
  have htrue : (sendTracked env s slot hdr payload frames).2 = true := by
    rw [sendTracked, sealPacket, hpacket]
  have hlimit : (sendTracked env s slot hdr payload frames).1.maxDatagramSize =
      s.maxDatagramSize := by
    rw [sendTracked, sealPacket, hpacket]
    rfl
  refine ⟨htrue, ⟨hlimit, ?_⟩, ?_⟩
  · intro sp
    rw [hsent]
    exact prefix_append _ _
  · rw [← hsize]
    constructor
    · intro hwithin
      refine hwithin (spaceIndex hdr.type) (SentPacket.ofFrames hdr.packetNumber packet.length
        hdr.type frames (env.clock s.clockReads)) ?_
      rw [hsent, drop_left, if_pos rfl]
      exact mem_singleton.mpr rfl
    · intro hle sp pkt hpkt
      rw [hsent, drop_left] at hpkt
      split at hpkt
      · rw [mem_singleton.mp hpkt]
        exact hle
      · exact absurd hpkt not_mem_nil

variable {s : QuicConnection K}

/-- With keys that are not valid nothing is sealed. -/
theorem sendTracked_invalid (hvalid : ¬ (s.localKeys slot).valid = true) (hdr : PacketHeader)
    (payload : Bytes) (frames : List Frame) :
    sendTracked env s slot hdr payload frames =
      (s.log (.sealed slot (s.generation slot) hdr.packetNumber), false) := by
  rw [sendTracked, sealPacket, protectPacket, if_neg hvalid]

/-- A key slot that can seal. -/
def Usable (s : QuicConnection K) (slot : Option KeySlot) : Prop :=
  ∃ k, slot = some k ∧ (s.localKeys k).valid = true

/-- Without usable keys nothing is sent. -/
theorem sendIfKeys_unusable {slot : Option KeySlot} (h : ¬ Usable s slot) (hdr : PacketHeader)
    (payload : Bytes) (frames : List Frame) :
    sendIfKeys env s slot hdr payload frames = s := by
  cases slot with
  | none => rfl
  | some k =>
    rw [sendIfKeys]
    exact if_neg fun hvalid => h ⟨k, rfl, hvalid⟩

theorem sendIfKeys_sizes (hall : SealsAll env.toCryptoOps) (s : QuicConnection K)
    (slot : Option KeySlot) (hdr : PacketHeader) (payload : Bytes) (frames : List Frame) :
    Extends s (sendIfKeys env s slot hdr payload frames) ∧
      (Within s (sendIfKeys env s slot hdr payload frames) ↔
        (Usable s slot → sealedSize hdr payload.length ≤ s.maxDatagramSize)) := by
  by_cases husable : Usable s slot
  · obtain ⟨k, rfl, hvalid⟩ := husable
    obtain ⟨-, hextends, hwithin⟩ := sendTracked_sizes env hall s hvalid hdr payload frames
    rw [sendIfKeys, if_pos hvalid]
    refine ⟨hextends, hwithin.trans ?_⟩
    exact ⟨fun hle _ => hle, fun h => h ⟨k, rfl, hvalid⟩⟩
  · rw [sendIfKeys_unusable env husable]
    have hsame : SamePackets s s := ⟨rfl, rfl⟩
    exact ⟨hsame.extends, iff_of_true hsame.within fun h => absurd h husable⟩

/-! ## DATAGRAM frames -/

/-- A DATAGRAM frame with its one byte of type and the length varint fits where
    `max_datagram_payload` counts two bytes of length; an empty one does unless the peer
    allows a single byte. -/
def DatagramFits (s : QuicConnection K) (payload : Bytes) : Prop :=
  s.state ≠ .closed → s.peerMaxDatagramFrameSize ≠ 0 → Usable s s.oneRttSendKeys →
    payload.length ≤ maxDatagramPayload s →
      if payload = [] then s.peerMaxDatagramFrameSize ≠ 1
      else payload.length + encodedSize payload.length ≤ maxDatagramPayload s + 2

/-- A DATAGRAM frame that passed the check. -/
theorem datagram_fits {payload : Bytes} (hmtu : 1200 ≤ s.maxDatagramSize)
    (hpeer : s.peerMaxDatagramFrameSize ≠ 0) (hle : payload.length ≤ maxDatagramPayload s) :
    (s.peerCid.length + (1 + encodedSize payload.length + payload.length) + 21 ≤
        s.maxDatagramSize ∧
      1 + encodedSize payload.length + payload.length ≤ s.peerMaxDatagramFrameSize) ↔
      if payload = [] then s.peerMaxDatagramFrameSize ≠ 1
      else payload.length + encodedSize payload.length ≤ maxDatagramPayload s + 2 := by
  have hcid : s.peerCid.length ≤ 20 := s.peerCid.length_le
  have hmax : maxDatagramPayload s = min (s.maxDatagramSize - (s.peerCid.length + 24))
      (if s.peerMaxDatagramFrameSize > 3 then s.peerMaxDatagramFrameSize - 3 else 0) := by
    rw [maxDatagramPayload, if_neg hpeer]
    dsimp only
    rw [if_neg (by omega)]
    congr 2
    omega
  by_cases hempty : payload = []
  · have hone : encodedSize ([] : Bytes).length = 1 := rfl
    rw [if_pos hempty, hempty, hone, length_nil]
    omega
  · have hpos : 0 < payload.length := length_pos_iff.mpr hempty
    rw [if_neg hempty]
    rw [hmax] at hle ⊢
    split at hle
    · next hbig =>
      rw [if_pos hbig]
      omega
    · omega

theorem sendDatagram_sizes (hall : SealsAll env.toCryptoOps) (hmtu : 1200 ≤ s.maxDatagramSize)
    (payload : Bytes) :
    (Within s (sendDatagram env s payload).1 ∧
      ((sendDatagram env s payload).2 = true →
        (serializeFrame (.datagram payload)).length ≤ s.peerMaxDatagramFrameSize)) ↔
      DatagramFits s payload := by
  have hsame : SamePackets s s := ⟨rfl, rfl⟩
  have hidle : Within s s ∧ (false = true →
      (serializeFrame (.datagram payload)).length ≤ s.peerMaxDatagramFrameSize) :=
    ⟨hsame.within, fun h => absurd h Bool.false_ne_true⟩
  rw [sendDatagram]
  split
  · next hrefused =>
    refine iff_of_true hidle ?_
    intro hopen hpeer
    exact absurd hrefused (not_or.mpr ⟨hopen, hpeer⟩)
  · next hopen =>
    obtain ⟨hopen, hpeer⟩ := not_or.mp hopen
    split
    · next hlong =>
      refine iff_of_true hidle ?_
      intro _ _ _ hle
      exact absurd hle (Nat.not_le.mpr hlong)
    · next hle =>
      have hle := Nat.le_of_not_lt hle
      cases hkeys : s.oneRttSendKeys with
      | none =>
        refine iff_of_true hidle ?_
        rintro _ _ ⟨k, hk, -⟩
        rw [hkeys] at hk
        cases hk
      | some slot =>
        have hpn : SamePackets s (s.allocateNextPn .oneRtt).2 := ⟨rfl, rfl⟩
        dsimp only
        by_cases hvalid : ((s.allocateNextPn .oneRtt).2.localKeys slot).valid = true
        · obtain ⟨htrue, -, hwithin⟩ := sendTracked_sizes env hall (s.allocateNextPn .oneRtt).2
            hvalid (shortHeader (s.allocateNextPn .oneRtt).2 (s.allocateNextPn .oneRtt).1)
            (serializeFrame (.datagram payload)) [.datagram payload]
          generalize sendTracked env (s.allocateNextPn .oneRtt).2 slot
            (shortHeader (s.allocateNextPn .oneRtt).2 (s.allocateNextPn .oneRtt).1)
            (serializeFrame (.datagram payload)) [.datagram payload] = result at htrue hwithin ⊢
          obtain ⟨s', ok⟩ := result
          dsimp only at htrue hwithin
          subst htrue
          dsimp only
          rw [(notifyOutbound_packets env s').within_iff_right, ← hpn.within_iff, hwithin,
            sealedSize_short, datagram_size]
          refine Iff.trans ?_ ((datagram_fits hmtu hpeer hle).trans ?_)
          · exact and_congr_right fun _ => ⟨fun h => h rfl, fun h _ => h⟩
          · exact ⟨fun h _ _ _ _ => h, fun h => h hopen hpeer ⟨slot, hkeys, hvalid⟩ hle⟩
        · rw [sendTracked_invalid env hvalid]
          refine iff_of_true ⟨?_, fun h => absurd h Bool.false_ne_true⟩ ?_
          · exact SamePackets.within ⟨rfl, rfl⟩
          · rintro _ _ ⟨k, hk, hkvalid⟩
            rw [hkeys] at hk
            cases hk
            exact absurd hkvalid hvalid

/-! ## CRYPTO flights -/

/-- The bytes of the ACK frame that a CRYPTO packet carries along. -/
def ackSize (s : QuicConnection K) (sp : PnSpace) (due : Bool) : Nat :=
  if due then (serializeFrame (.ack ((s.ackTrackers sp).buildAckFrame 0))).length else 0

/-- The bytes of a CRYPTO frame at an offset. -/
def cryptoSize (offset len : Nat) : Nat := 1 + encodedSize offset + encodedSize len + len

/-- An Initial packet with `n` bytes of frames: it is padded to 1200 bytes, or it fits with
    its long header. -/
def InitialFits (s : QuicConnection K) (n : Nat) : Prop :=
  Usable s (some .initial) →
    n + (longOverhead s .initial + 2) < 1200 ∨
      longOverhead s .initial + encodedSize (n + 20) + n ≤ s.maxDatagramSize

/-- A Handshake packet with `n` bytes of frames fits with its long header. -/
def HandshakeFits (s : QuicConnection K) (n : Nat) : Prop :=
  Usable s (handshakeSendKeys s) →
    longOverhead s .handshake + encodedSize (n + 20) + n ≤ s.maxDatagramSize

/-- A 1-RTT packet with `n` bytes of frames fits with the connection id and 21 more bytes. -/
def ShortFits (s : QuicConnection K) (n : Nat) : Prop :=
  Usable s s.oneRttSendKeys → s.peerCid.length + n + 21 ≤ s.maxDatagramSize

/-- A chunk of CRYPTO data fits in a packet of the current write level, with the ACK that
    goes along. -/
def ChunkFits (s : QuicConnection K) (len : Nat) : Prop :=
  if s.currentWriteLevel = 0 then
    InitialFits s (ackSize s .initial (s.ackTrackers .initial).hasPackets +
      cryptoSize s.cryptoSendOffsetInitial len)
  else if s.currentWriteLevel = 2 then
    HandshakeFits s (ackSize s .handshake (s.ackTrackers .handshake).hasPackets +
      cryptoSize s.cryptoSendOffsetHandshake len)
  else
    ShortFits s (ackSize s .application
      ((s.ackTrackers .application).hasPackets && (s.ackTrackers .application).needsAck) +
        cryptoSize s.cryptoSendOffsetApp len)

/-- The padding of an Initial packet makes it 1200 bytes. -/
theorem padInitial_size (s : QuicConnection K) (pn : Nat) (payload : Bytes)
    (hmtu : 1200 ≤ s.maxDatagramSize) :
    sealedSize (longHeader s .initial pn)
        (padInitial (longHeader s .initial pn) payload).length ≤ s.maxDatagramSize ↔
      payload.length + (longOverhead s .initial + 2) < 1200 ∨
        longOverhead s .initial + encodedSize (payload.length + 20) + payload.length ≤
          s.maxDatagramSize := by
  have hdcid : s.peerCid.length ≤ 20 := s.peerCid.length_le
  have hscid : s.localCid.length ≤ 20 := s.localCid.length_le
  have hest : estOverhead (longHeader s .initial pn) = longOverhead s .initial + 2 := by
    rw [longOverhead, if_pos rfl]
    show 1 + 4 + (1 + s.peerCid.length) + (1 + s.localCid.length) + 1 + 2 + 4 + 16 = _
    omega
  have hover : longOverhead s .initial ≤ 68 := by
    rw [longOverhead, if_pos rfl]
    omega
  rw [sealedSize_long, padInitial, hest]
  by_cases hshort : payload.length + (longOverhead s .initial + 2) < 1200
  · have hlen : (payload ++ List.replicate
        (1200 - (longOverhead s .initial + 2) - payload.length) 0).length =
        1198 - longOverhead s .initial := by
      rw [length_append, length_replicate]
      omega
    have htwo : encodedSize (1198 - longOverhead s .initial + 20) = 2 := by
      rw [encodedSize, if_neg (by omega), if_pos (by omega)]
    rw [if_pos hshort, hlen, htwo]
    refine iff_of_true ?_ (.inl hshort)
    omega
  · rw [if_neg hshort]
    exact ⟨.inr, fun h => h.resolve_left hshort⟩

/-- Carrying an ACK along only marks it as sent. -/
theorem piggybackAck_frame (s : QuicConnection K) (sp : PnSpace) (due : Bool) :
    (piggybackAck s sp due).1.length = ackSize s sp due ∧
      SamePackets s (piggybackAck s sp due).2 ∧ SameKeys s (piggybackAck s sp due).2 := by
  rw [piggybackAck, ackSize]
  split
  · exact ⟨rfl, ⟨rfl, rfl⟩, ⟨rfl, rfl⟩⟩
  · exact ⟨rfl, ⟨rfl, rfl⟩, ⟨rfl, rfl⟩⟩

theorem localKeys_eq {s s' : QuicConnection K} (h : SameKeys s s') (k : KeySlot) :
    s'.localKeys k = s.localKeys k := by
  cases k with
  | initial => rw [QuicConnection.localKeys, QuicConnection.localKeys, h.2]
  | handshake => rw [QuicConnection.localKeys, QuicConnection.localKeys, h.2]
  | oneRtt => rw [QuicConnection.localKeys, QuicConnection.localKeys, h.2]

/-- Which keys can be used depends on the keys only. -/
theorem usable_iff {s s' : QuicConnection K} (h : SameKeys s s')
    (slot : Option KeySlot) : Usable s' slot ↔ Usable s slot := by
  rw [Usable, Usable]
  simp only [localKeys_eq h]

theorem handshakeSendKeys_eq {s s' : QuicConnection K} (h : SameKeys s s') :
    handshakeSendKeys s' = handshakeSendKeys s := by
  rw [handshakeSendKeys, handshakeSendKeys, h.2]

/-- A packet sent after changes that touch neither keys nor packets. -/
theorem sendIfKeys_after (hall : SealsAll env.toCryptoOps) {s s' : QuicConnection K}
    (hpackets : SamePackets s s') (hkeys : SameKeys s s') (slot : Option KeySlot)
    (hdr : PacketHeader) (payload : Bytes) (frames : List Frame) :
    Extends s (sendIfKeys env s' slot hdr payload frames) ∧
      (Within s (sendIfKeys env s' slot hdr payload frames) ↔
        (Usable s slot → sealedSize hdr payload.length ≤ s.maxDatagramSize)) := by
  obtain ⟨hextends, hwithin⟩ := sendIfKeys_sizes env hall s' slot hdr payload frames
  refine ⟨hpackets.extends.trans hextends, ?_⟩
  rw [← hpackets.within_iff, hwithin, usable_iff hkeys, hpackets.limit]

/-- The ACK of a state that has changed neither in its trackers nor in keys and packets. -/
theorem piggybackAck_after {s s' : QuicConnection K} (hpackets : SamePackets s s')
    (hkeys : SameKeys s s') (htrackers : s'.ackTrackers = s.ackTrackers) (sp : PnSpace)
    (due : Bool) :
    (piggybackAck s' sp due).1.length = ackSize s sp due ∧
      SamePackets s (piggybackAck s' sp due).2 ∧ SameKeys s (piggybackAck s' sp due).2 := by
  obtain ⟨hsize, hpackets', hkeys'⟩ := piggybackAck_frame s' sp due
  refine ⟨?_, ⟨hpackets'.limit.trans hpackets.limit, hpackets'.packets.trans hpackets.packets⟩,
    hkeys.trans hkeys'⟩
  rw [hsize, ackSize, ackSize, htrackers]

theorem queueCryptoChunk_sizes (hall : SealsAll env.toCryptoOps) (hmtu : 1200 ≤ s.maxDatagramSize)
    (chunk : Bytes) :
    Extends s (queueCryptoChunk env s chunk) ∧
      (Within s (queueCryptoChunk env s chunk) ↔ ChunkFits s chunk.length) := by
  rw [queueCryptoChunk, ChunkFits]
  split
  · -- Initial
    dsimp only
    generalize hack : piggybackAck _ _ _ = result
    obtain ⟨hsize, hpackets, hkeys⟩ : result.1.length =
        ackSize s .initial (s.ackTrackers .initial).hasPackets ∧
        SamePackets s result.2 ∧ SameKeys s result.2 := by
      rw [← hack]
      apply piggybackAck_after
      · exact ⟨rfl, rfl⟩
      · exact ⟨rfl, rfl⟩
      · rfl
    obtain ⟨hextends, hwithin⟩ := sendIfKeys_after env hall hpackets hkeys (some .initial)
      (longHeader s .initial (s.nextPacketNumber .initial))
      (padInitial (longHeader s .initial (s.nextPacketNumber .initial))
        (result.1 ++ serializeFrame (.crypto ⟨chunk, s.cryptoSendOffsetInitial⟩)))
      [.crypto ⟨chunk, s.cryptoSendOffsetInitial⟩]
    refine ⟨hextends, hwithin.trans ?_⟩
    rw [InitialFits, padInitial_size s _ _ hmtu, length_append, crypto_size, hsize]
    rfl
  · split
    · -- Handshake
      dsimp only
      generalize hack : piggybackAck _ _ _ = result
      obtain ⟨hsize, hpackets, hkeys⟩ : result.1.length =
          ackSize s .handshake (s.ackTrackers .handshake).hasPackets ∧
          SamePackets s result.2 ∧ SameKeys s result.2 := by
        rw [← hack]
        apply piggybackAck_after
        · exact ⟨rfl, rfl⟩
        · exact ⟨rfl, rfl⟩
        · rfl
      obtain ⟨hextends, hwithin⟩ := sendIfKeys_after env hall hpackets hkeys
        (handshakeSendKeys s) (longHeader s .handshake (s.nextPacketNumber .handshake))
        (result.1 ++ serializeFrame (.crypto ⟨chunk, s.cryptoSendOffsetHandshake⟩))
        [.crypto ⟨chunk, s.cryptoSendOffsetHandshake⟩]
      rw [handshakeSendKeys_eq hkeys]
      refine ⟨hextends, hwithin.trans ?_⟩
      rw [HandshakeFits, sealedSize_long, length_append, crypto_size, hsize]
      rfl
    · -- 1-RTT
      dsimp only
      generalize hack : piggybackAck _ _ _ = result
      obtain ⟨hsize, hpackets, hkeys⟩ : result.1.length =
          ackSize s .application ((s.ackTrackers .application).hasPackets &&
            (s.ackTrackers .application).needsAck) ∧
          SamePackets s result.2 ∧ SameKeys s result.2 := by
        rw [← hack]
        apply piggybackAck_after
        · exact ⟨rfl, rfl⟩
        · exact ⟨rfl, rfl⟩
        · rfl
      obtain ⟨hextends, hwithin⟩ := sendIfKeys_after env hall hpackets hkeys s.oneRttSendKeys
        (shortHeader s (s.nextPacketNumber .application))
        (result.1 ++ serializeFrame (.crypto ⟨chunk, s.cryptoSendOffsetApp⟩))
        [.crypto ⟨chunk, s.cryptoSendOffsetApp⟩]
      rw [hkeys.oneRttSendKeys_eq]
      refine ⟨hextends, hwithin.trans ?_⟩
      rw [ShortFits, sealedSize_short, length_append, crypto_size, hsize]
      rfl

/-- Every chunk of the data fits, when its turn comes. -/
def CryptoLoopFits : Nat → QuicConnection K → Bytes → Prop
  | 0, _, _ => True
  | fuel + 1, s, data =>
      data ≠ [] → ChunkFits s (data.take 1150).length ∧
        CryptoLoopFits fuel (queueCryptoChunk env s (data.take 1150)) (data.drop 1150)

/-- The same for the whole data; no data is one empty chunk. -/
def CryptoFits (s : QuicConnection K) (data : Bytes) : Prop :=
  if data = [] then ChunkFits s 0 else CryptoLoopFits env data.length s data

theorem queueCryptoLoop_sizes (hall : SealsAll env.toCryptoOps) (fuel : Nat)
    (hmtu : 1200 ≤ s.maxDatagramSize) (data : Bytes) :
    Extends s (queueCryptoLoop env fuel s data) ∧
      (Within s (queueCryptoLoop env fuel s data) ↔ CryptoLoopFits env fuel s data) := by
  have hsame : SamePackets s s := ⟨rfl, rfl⟩
  induction fuel generalizing s data with
  | zero => exact ⟨hsame.extends, iff_of_true hsame.within trivial⟩
  | succ fuel ih =>
    rw [queueCryptoLoop, CryptoLoopFits]
    by_cases hempty : data = []
    · rw [if_pos (List.isEmpty_iff.mpr hempty)]
      exact ⟨hsame.extends, iff_of_true hsame.within fun hne => absurd hempty hne⟩
    · rw [if_neg (by rwa [List.isEmpty_iff])]
      obtain ⟨hextends, hwithin⟩ := queueCryptoChunk_sizes env hall hmtu (data.take 1150)
      obtain ⟨hextends', hwithin'⟩ :=
        ih (hextends.limit ▸ hmtu) (data.drop 1150) ⟨rfl, rfl⟩
      refine ⟨hextends.trans hextends', ?_⟩
      rw [within_trans hextends hextends', hwithin, hwithin']
      exact ⟨fun h _ => h, fun h => h hempty⟩

theorem queueCryptoFrame_sizes (hall : SealsAll env.toCryptoOps) (hmtu : 1200 ≤ s.maxDatagramSize)
    (data : Bytes) :
    Within s (queueCryptoFrame env s data) ↔ CryptoFits env s data := by
  rw [queueCryptoFrame, (notifyOutbound_packets env _).within_iff_right, CryptoFits]
  by_cases hempty : data = []
  · rw [if_pos (List.isEmpty_iff.mpr hempty), if_pos hempty]
    exact (queueCryptoChunk_sizes env hall hmtu []).2
  · rw [if_neg (by rwa [List.isEmpty_iff]), if_neg hempty]
    exact (queueCryptoLoop_sizes env hall data.length hmtu data).2

/-! ## Stream data -/

/-- A STREAM frame fits with its varints and the header of a 1-RTT packet. -/
def StreamFits (s : QuicConnection K) (sf : StreamFrame) : Prop :=
  s.peerCid.length + (1 + encodedSize sf.streamId +
    (if sf.hasOffset then encodedSize sf.offset else 0) +
    (if sf.hasLength then encodedSize sf.data.length else 0) + sf.data.length) + 21 ≤
      s.maxDatagramSize

/-- The state after a round of the inner loop. -/
def streamRound (slot : KeySlot) (s : QuicConnection K) (sid : Nat) : QuicConnection K :=
  advanceStream
    (sendTracked env (s.allocateNextPn .oneRtt).2 slot
      (shortHeader (s.allocateNextPn .oneRtt).2 (s.allocateNextPn .oneRtt).1)
      (serializeFrame (.stream (nextStreamFrame s sid))) [.stream (nextStreamFrame s sid)]).1
    (nextStreamFrame s sid)

/-- Every frame of a stream fits, when its turn comes. -/
def StreamLoopFits (slot : KeySlot) : Nat → QuicConnection K → Nat → Prop
  | 0, _, _ => True
  | fuel + 1, s, sid =>
      ¬ ((s.streamSendQueues sid).isEmpty && !s.streamSendFin sid) = true →
      ¬ (decide (chunkLen s sid = 0) && !(s.streamSendQueues sid).isEmpty) = true →
        StreamFits s (nextStreamFrame s sid) ∧
          (¬ (decide ((nextStreamFrame s sid).data.length = 0) && (nextStreamFrame s sid).fin)
              = true →
            StreamLoopFits slot fuel (streamRound env slot s sid) sid)

/-- Every frame of the streams fits, in the order in which they are flushed. -/
def StreamsFit (slot : KeySlot) : QuicConnection K → List Nat → Prop
  | _, [] => True
  | s, sid :: rest =>
      StreamLoopFits env slot ((s.streamSendQueues sid).length + 1) s sid ∧
        StreamsFit slot (flushStream env slot s sid) rest

/-- Every frame that the open connection can seal fits. -/
def FlushFits (s : QuicConnection K) : Prop :=
  s.state ≠ .closed → ∀ slot, s.oneRttSendKeys = some slot → (s.localKeys slot).valid = true →
    StreamsFit env slot s (env.iterationOrder s.sendQueueIds)

theorem streamRound_sizes (hall : SealsAll env.toCryptoOps)
    (hvalid : (s.localKeys slot).valid = true) (sid : Nat) :
    SameKeys s (streamRound env slot s sid) ∧ Extends s (streamRound env slot s sid) ∧
      (Within s (streamRound env slot s sid) ↔ StreamFits s (nextStreamFrame s sid)) := by
  have hpn : SamePackets s (s.allocateNextPn .oneRtt).2 := ⟨rfl, rfl⟩
  have hkeys : SameKeys s (s.allocateNextPn .oneRtt).2 := ⟨rfl, rfl⟩
  have hvalid' : ((s.allocateNextPn .oneRtt).2.localKeys slot).valid = true := by
    rw [localKeys_eq hkeys]
    exact hvalid
  obtain ⟨-, hextends, hwithin⟩ := sendTracked_sizes env hall _ hvalid'
    (shortHeader (s.allocateNextPn .oneRtt).2 (s.allocateNextPn .oneRtt).1)
    (serializeFrame (.stream (nextStreamFrame s sid))) [.stream (nextStreamFrame s sid)]
  have hframe := (sendTracked_frame env (s.allocateNextPn .oneRtt).2 slot
    (shortHeader (s.allocateNextPn .oneRtt).2 (s.allocateNextPn .oneRtt).1)
    (serializeFrame (.stream (nextStreamFrame s sid))) [.stream (nextStreamFrame s sid)]).1
  rw [streamRound]
  generalize sendTracked env (s.allocateNextPn .oneRtt).2 slot
    (shortHeader (s.allocateNextPn .oneRtt).2 (s.allocateNextPn .oneRtt).1)
    (serializeFrame (.stream (nextStreamFrame s sid))) [.stream (nextStreamFrame s sid)]
      = result at hextends hwithin hframe ⊢
  have hadvance : SamePackets result.1 (advanceStream result.1 (nextStreamFrame s sid)) :=
    ⟨rfl, rfl⟩
  have hadvance' : SameKeys result.1 (advanceStream result.1 (nextStreamFrame s sid)) :=
    ⟨rfl, rfl⟩
  refine ⟨(hkeys.trans hframe).trans hadvance',
    (hpn.extends.trans hextends).trans hadvance.extends, ?_⟩
  rw [hadvance.within_iff_right, ← hpn.within_iff, hwithin, sealedSize_short, stream_size]
  rfl

/-- One pass of the inner loop, when sealing does not fail. -/
theorem flushStreamLoop_succ (hall : SealsAll env.toCryptoOps) (fuel : Nat)
    (hvalid : (s.localKeys slot).valid = true) (sid : Nat) :
    flushStreamLoop env slot (fuel + 1) s sid =
      if (s.streamSendQueues sid).isEmpty && !s.streamSendFin sid then s
      else if decide (chunkLen s sid = 0) && !(s.streamSendQueues sid).isEmpty then s
      else if decide ((nextStreamFrame s sid).data.length = 0) && (nextStreamFrame s sid).fin then
        streamRound env slot s sid
      else flushStreamLoop env slot fuel (streamRound env slot s sid) sid := by
  have hkeys : SameKeys s (s.allocateNextPn .oneRtt).2 := ⟨rfl, rfl⟩
  have hvalid' : ((s.allocateNextPn .oneRtt).2.localKeys slot).valid = true := by
    rw [localKeys_eq hkeys]
    exact hvalid
  obtain ⟨htrue, -, -⟩ := sendTracked_sizes env hall _ hvalid'
    (shortHeader (s.allocateNextPn .oneRtt).2 (s.allocateNextPn .oneRtt).1)
    (serializeFrame (.stream (nextStreamFrame s sid))) [.stream (nextStreamFrame s sid)]
  rw [flushStreamLoop, streamRound]
  dsimp only
  generalize sendTracked env (s.allocateNextPn .oneRtt).2 slot
    (shortHeader (s.allocateNextPn .oneRtt).2 (s.allocateNextPn .oneRtt).1)
    (serializeFrame (.stream (nextStreamFrame s sid))) [.stream (nextStreamFrame s sid)]
      = result at htrue ⊢
  obtain ⟨s', ok⟩ := result
  dsimp only at htrue
  subst htrue
  rfl

theorem flushStreamLoop_sizes (hall : SealsAll env.toCryptoOps) (fuel : Nat)
    (hvalid : (s.localKeys slot).valid = true) (sid : Nat) :
    SameKeys s (flushStreamLoop env slot fuel s sid) ∧
      Extends s (flushStreamLoop env slot fuel s sid) ∧
      (Within s (flushStreamLoop env slot fuel s sid) ↔
        StreamLoopFits env slot fuel s sid) := by
  induction fuel generalizing s with
  | zero =>
    have hsame : SamePackets s s := ⟨rfl, rfl⟩
    exact ⟨⟨rfl, rfl⟩, hsame.extends, iff_of_true hsame.within trivial⟩
  | succ fuel ih =>
    have hsame : SamePackets s s := ⟨rfl, rfl⟩
    obtain ⟨hkeys, hextends, hwithin⟩ := streamRound_sizes env hall hvalid sid
    rw [flushStreamLoop_succ env hall fuel hvalid, StreamLoopFits]
    by_cases hdone : ((s.streamSendQueues sid).isEmpty && !s.streamSendFin sid) = true
    · rw [if_pos hdone]
      exact ⟨⟨rfl, rfl⟩, hsame.extends, iff_of_true hsame.within fun h => absurd hdone h⟩
    · rw [if_neg hdone]
      by_cases hblocked :
          (decide (chunkLen s sid = 0) && !(s.streamSendQueues sid).isEmpty) = true
      · rw [if_pos hblocked]
        exact ⟨⟨rfl, rfl⟩, hsame.extends,
          iff_of_true hsame.within fun _ h => absurd hblocked h⟩
      · rw [if_neg hblocked]
        by_cases hlast : (decide ((nextStreamFrame s sid).data.length = 0) &&
            (nextStreamFrame s sid).fin) = true
        · rw [if_pos hlast]
          refine ⟨hkeys, hextends, hwithin.trans ?_⟩
          exact ⟨fun h _ _ => ⟨h, fun hnot => absurd hlast hnot⟩,
            fun h => (h hdone hblocked).1⟩
        · rw [if_neg hlast]
          have hvalid' : ((streamRound env slot s sid).localKeys slot).valid = true := by
            rw [localKeys_eq hkeys]
            exact hvalid
          obtain ⟨hkeys', hextends', hwithin'⟩ := ih hvalid'
          refine ⟨hkeys.trans hkeys', hextends.trans hextends', ?_⟩
          rw [within_trans hextends hextends', hwithin, hwithin']
          exact ⟨fun h _ _ => ⟨h.1, fun _ => h.2⟩,
            fun h => ⟨(h hdone hblocked).1, (h hdone hblocked).2 hlast⟩⟩

theorem flushStream_sizes (hall : SealsAll env.toCryptoOps)
    (hvalid : (s.localKeys slot).valid = true) (sid : Nat) :
    SameKeys s (flushStream env slot s sid) ∧ Extends s (flushStream env slot s sid) ∧
      (Within s (flushStream env slot s sid) ↔
        StreamLoopFits env slot ((s.streamSendQueues sid).length + 1) s sid) := by
  obtain ⟨hkeys, hextends, hwithin⟩ :=
    flushStreamLoop_sizes env hall ((s.streamSendQueues sid).length + 1) hvalid sid
  rw [flushStream]
  split
  · have hdrop : SamePackets (flushStreamLoop env slot ((s.streamSendQueues sid).length + 1) s sid)
        (dropSendState
          (flushStreamLoop env slot ((s.streamSendQueues sid).length + 1) s sid) sid) :=
      ⟨rfl, rfl⟩
    exact ⟨hkeys.trans ⟨rfl, rfl⟩, hextends.trans hdrop.extends,
      hdrop.within_iff_right.trans hwithin⟩
  · exact ⟨hkeys, hextends, hwithin⟩

theorem flushStreams_sizes (hall : SealsAll env.toCryptoOps) (sids : List Nat)
    (hvalid : (s.localKeys slot).valid = true) :
    Extends s (sids.foldl (flushStream env slot) s) ∧
      (Within s (sids.foldl (flushStream env slot) s) ↔ StreamsFit env slot s sids) := by
  induction sids generalizing s with
  | nil =>
    have hsame : SamePackets s s := ⟨rfl, rfl⟩
    exact ⟨hsame.extends, iff_of_true hsame.within trivial⟩
  | cons sid rest ih =>
    obtain ⟨hkeys, hextends, hwithin⟩ := flushStream_sizes env hall hvalid sid
    have hvalid' : ((flushStream env slot s sid).localKeys slot).valid = true := by
      rw [localKeys_eq hkeys]
      exact hvalid
    obtain ⟨hextends', hwithin'⟩ := ih hvalid'
    rw [foldl_cons, StreamsFit]
    exact ⟨hextends.trans hextends', (within_trans hextends hextends').trans
      (and_congr hwithin hwithin')⟩

theorem SamePackets.trans {s s' s'' : QuicConnection K} (h : SamePackets s s')
    (h' : SamePackets s' s'') : SamePackets s s'' :=
  ⟨h'.limit.trans h.limit, h'.packets.trans h.packets⟩

/-- With keys that are not valid a flush sends nothing. -/
theorem flushStream_invalid (hvalid : ¬ (s.localKeys slot).valid = true) (sid : Nat) :
    SamePackets s (flushStream env slot s sid) ∧ SameKeys s (flushStream env slot s sid) := by
  have hloop : SamePackets s
      (flushStreamLoop env slot ((s.streamSendQueues sid).length + 1) s sid) ∧
        SameKeys s (flushStreamLoop env slot ((s.streamSendQueues sid).length + 1) s sid) := by
    have hkeys : SameKeys s (s.allocateNextPn .oneRtt).2 := ⟨rfl, rfl⟩
    have hvalid' : ¬ ((s.allocateNextPn .oneRtt).2.localKeys slot).valid = true := by
      rw [localKeys_eq hkeys]
      exact hvalid
    rw [flushStreamLoop]
    dsimp only
    rw [sendTracked_invalid env hvalid']
    split
    · exact ⟨⟨rfl, rfl⟩, ⟨rfl, rfl⟩⟩
    · split
      · exact ⟨⟨rfl, rfl⟩, ⟨rfl, rfl⟩⟩
      · exact ⟨⟨rfl, rfl⟩, ⟨rfl, rfl⟩⟩
  rw [flushStream]
  split
  · exact ⟨hloop.1.trans ⟨rfl, rfl⟩, hloop.2.trans ⟨rfl, rfl⟩⟩
  · exact hloop

theorem flushStreams_invalid (sids : List Nat) (hvalid : ¬ (s.localKeys slot).valid = true) :
    SamePackets s (sids.foldl (flushStream env slot) s) := by
  induction sids generalizing s with
  | nil => exact ⟨rfl, rfl⟩
  | cons sid rest ih =>
    obtain ⟨hpackets, hkeys⟩ := flushStream_invalid env hvalid sid
    have hvalid' : ¬ ((flushStream env slot s sid).localKeys slot).valid = true := by
      rw [localKeys_eq hkeys]
      exact hvalid
    exact hpackets.trans (ih hvalid')

theorem flushStreamSendQueues_sizes (hall : SealsAll env.toCryptoOps) (s : QuicConnection K) :
    Within s (flushStreamSendQueues env s) ↔ FlushFits env s := by
  have hsame : SamePackets s s := ⟨rfl, rfl⟩
  rw [flushStreamSendQueues]
  by_cases hclosed : s.state = .closed
  · rw [if_pos hclosed]
    exact iff_of_true hsame.within fun hopen => absurd hclosed hopen
  · rw [if_neg hclosed]
    cases hkeys : s.oneRttSendKeys with
    | none =>
      refine iff_of_true hsame.within ?_
      intro _ slot hslot
      rw [hkeys] at hslot
      cases hslot
    | some slot =>
      dsimp only
      by_cases hvalid : (s.localKeys slot).valid = true
      · rw [(flushStreams_sizes env hall _ hvalid).2]
        constructor
        · intro hfit _ slot' hslot _
          rw [hkeys] at hslot
          cases hslot
          exact hfit
        · intro hfit
          exact hfit hclosed slot hkeys hvalid
      · refine iff_of_true (flushStreams_invalid env _ hvalid).within ?_
        intro _ slot' hslot hvalid'
        rw [hkeys] at hslot
        cases hslot
        exact absurd hvalid' hvalid

/-! ## Retransmission -/

/-- A frame sent again fits in a packet of its own. -/
def RetransmitFits (s : QuicConnection K) (frame : Frame) (type : PacketType) : Prop :=
  match frame with
  | .crypto cf =>
      match type with
      | .initial => InitialFits s (cryptoSize cf.offset cf.data.length)
      | .handshake => HandshakeFits s (cryptoSize cf.offset cf.data.length)
      | _ => ShortFits s (cryptoSize cf.offset cf.data.length)
  | .stream sf => Usable s s.oneRttSendKeys → StreamFits s sf
  | _ => True

/-- A frame sent in a 1-RTT packet of its own. -/
theorem sendShort_sizes (hall : SealsAll env.toCryptoOps) (hslot : s.oneRttSendKeys = some slot)
    (payload : Bytes) (frames : List Frame) :
    Within s (sendTracked env (s.allocateNextPn .oneRtt).2 slot
      (shortHeader (s.allocateNextPn .oneRtt).2 (s.allocateNextPn .oneRtt).1) payload
        frames).1 ↔ ShortFits s payload.length := by
  have hpn : SamePackets s (s.allocateNextPn .oneRtt).2 := ⟨rfl, rfl⟩
  have hkeys : SameKeys s (s.allocateNextPn .oneRtt).2 := ⟨rfl, rfl⟩
  by_cases hvalid : ((s.allocateNextPn .oneRtt).2.localKeys slot).valid = true
  · obtain ⟨-, -, hwithin⟩ := sendTracked_sizes env hall _ hvalid
      (shortHeader (s.allocateNextPn .oneRtt).2 (s.allocateNextPn .oneRtt).1) payload frames
    rw [← hpn.within_iff, hwithin, sealedSize_short]
    rw [localKeys_eq hkeys] at hvalid
    exact ⟨fun hle _ => hle, fun h => h ⟨slot, hslot, hvalid⟩⟩
  · rw [sendTracked_invalid env hvalid]
    refine iff_of_true (SamePackets.within ⟨rfl, rfl⟩) ?_
    rintro ⟨k, hk, hkvalid⟩
    rw [hslot] at hk
    cases hk
    rw [localKeys_eq hkeys] at hvalid
    exact absurd hkvalid hvalid

theorem shortFits_of_no_keys (h : s.oneRttSendKeys = none) (n : Nat) :
    ShortFits s n := by
  rintro ⟨k, hk, -⟩
  rw [h] at hk
  cases hk

theorem retransmitCrypto_sizes (hall : SealsAll env.toCryptoOps) (hmtu : 1200 ≤ s.maxDatagramSize)
    (cf : CryptoFrame) (type : PacketType) :
    Within s (retransmitFrame env s (.crypto cf) type) ↔ RetransmitFits s (.crypto cf) type := by
  have hsame : SamePackets s s := ⟨rfl, rfl⟩
  have hpn : SamePackets s (s.allocateNextPn .oneRtt).2 := ⟨rfl, rfl⟩
  have hpnInitial : SamePackets s (s.allocateNextPn .initial).2 := ⟨rfl, rfl⟩
  have hpnHandshake : SamePackets s (s.allocateNextPn .handshake).2 := ⟨rfl, rfl⟩
  have hshort : Within s (retransmitFrame env s (.crypto cf) .oneRtt) ↔
      ShortFits s (cryptoSize cf.offset cf.data.length) := by
    rw [retransmitFrame.eq_def]
    dsimp only
    cases hkeys : s.oneRttSendKeys with
    | none => exact iff_of_true hsame.within (shortFits_of_no_keys hkeys _)
    | some slot =>
      have hsend := (sendIfKeys_after env hall (s := s) hpn ⟨rfl, rfl⟩ (some slot)
        (shortHeader s (s.nextPacketNumber .application)) (serializeFrame (.crypto cf))
        [.crypto cf]).2
      refine hsend.trans ?_
      rw [sealedSize_short, crypto_size, ShortFits, hkeys]
      rfl
  have hinitial := (sendIfKeys_after env hall hpnInitial ⟨rfl, rfl⟩ (some .initial)
    (longHeader s .initial (s.nextPacketNumber .initial))
    (padInitial (longHeader s .initial (s.nextPacketNumber .initial))
      (serializeFrame (.crypto cf))) [.crypto cf]).2
  rw [padInitial_size s _ _ hmtu, crypto_size] at hinitial
  have hhandshake := (sendIfKeys_after env hall hpnHandshake ⟨rfl, rfl⟩ (handshakeSendKeys s)
    (longHeader s .handshake (s.nextPacketNumber .handshake)) (serializeFrame (.crypto cf))
    [.crypto cf]).2
  rw [sealedSize_long, crypto_size] at hhandshake
  cases type with
  | initial => exact hinitial
  | handshake => exact hhandshake
  | zeroRtt => exact hshort
  | retry => exact hshort
  | oneRtt => exact hshort
  | versionNegotiation => exact hshort

theorem retransmitFrame_sizes (hall : SealsAll env.toCryptoOps) (hmtu : 1200 ≤ s.maxDatagramSize)
    (frame : Frame) (type : PacketType) :
    Within s (retransmitFrame env s frame type) ↔ RetransmitFits s frame type := by
  have hsame : SamePackets s s := ⟨rfl, rfl⟩
  cases frame with
  | crypto cf => exact retransmitCrypto_sizes env hall hmtu cf type
  | stream sf =>
    rw [retransmitFrame]
    cases hkeys : s.oneRttSendKeys with
    | none =>
      refine iff_of_true hsame.within ?_
      rintro ⟨k, hk, -⟩
      rw [hkeys] at hk
      cases hk
    | some slot =>
      refine (sendShort_sizes env hall hkeys _ _).trans ?_
      rw [ShortFits, stream_size]
      rfl
  | handshakeDone =>
    have hcid : s.peerCid.length ≤ 20 := s.peerCid.length_le
    have hfits : ShortFits s (serializeFrame .handshakeDone).length := by
      intro _
      show s.peerCid.length + 1 + 21 ≤ s.maxDatagramSize
      omega
    have hpn : SamePackets s (s.allocateNextPn .oneRtt).2 := ⟨rfl, rfl⟩
    have hsend : (s.allocateNextPn .oneRtt).2.oneRttSendKeys = s.oneRttSendKeys := rfl
    rw [retransmitFrame]
    dsimp only
    rw [hsend]
    cases hkeys : s.oneRttSendKeys with
    | none => exact iff_of_true hpn.within trivial
    | some slot =>
      exact iff_of_true ((sendShort_sizes env hall hkeys _ _).mpr hfits) trivial
  | _ => exact iff_of_true hsame.within trivial

/-! ## All four -/

/-- The contract: every packet that one of the four functions builds is within the limit, and
    every DATAGRAM frame that is accepted is within the peer's. -/
def Disciplined (s : QuicConnection K) : Prop :=
  (∀ payload, Within s (sendDatagram env s payload).1 ∧
      ((sendDatagram env s payload).2 = true →
        (serializeFrame (.datagram payload)).length ≤ s.peerMaxDatagramFrameSize)) ∧
    (∀ data, Within s (queueCryptoFrame env s data)) ∧
    Within s (flushStreamSendQueues env s) ∧
    ∀ frame type, Within s (retransmitFrame env s frame type)

/-- What the four functions build is within the limit, and what `send_datagram` accepts is
    within the peer's, exactly when each frame fits with the header, the varints and the ACK
    that go with it. -/
theorem packets_within_iff (hall : SealsAll env.toCryptoOps) (s : QuicConnection K)
    (hmtu : 1200 ≤ s.maxDatagramSize) :
    (∀ payload, (Within s (sendDatagram env s payload).1 ∧
        ((sendDatagram env s payload).2 = true →
          (serializeFrame (.datagram payload)).length ≤ s.peerMaxDatagramFrameSize)) ↔
        DatagramFits s payload) ∧
      (∀ data, Within s (queueCryptoFrame env s data) ↔ CryptoFits env s data) ∧
      (Within s (flushStreamSendQueues env s) ↔ FlushFits env s) ∧
      ∀ frame type, Within s (retransmitFrame env s frame type) ↔ RetransmitFits s frame type :=
  ⟨sendDatagram_sizes env hall hmtu, queueCryptoFrame_sizes env hall hmtu,
    flushStreamSendQueues_sizes env hall s, retransmitFrame_sizes env hall hmtu⟩

theorem sampleCrypto_sealsAll : SealsAll QuicRuns.sampleCrypto := by
  intro k nonce aad plaintext
  exact ⟨_, rfl, by rw [length_append, length_replicate]⟩

/-- A new server connection whose peer has a connection id of 20 bytes. -/
def longCidServer : QuicConnection Unit :=
  newConnection (QuicRuns.sampleEnv fun _ => {}) (QuicRuns.sampleCid 1)
    (ConnectionId.ofBytes (List.replicate 20 2)) true (QuicRuns.sampleCid 3)

/-- Three bytes of a flight fit: the packet is padded to 1200 bytes. -/
theorem packets_within_padded :
    Within longCidServer
      (queueCryptoFrame (QuicRuns.sampleEnv fun _ => {}) longCidServer [1, 2, 3]) := by
  have hiff := (packets_within_iff (QuicRuns.sampleEnv fun _ => {}) sampleCrypto_sealsAll
    longCidServer (by decide)).2.1 [1, 2, 3]
  refine hiff.mpr fun _ => ⟨?_, fun hne => absurd rfl hne⟩
  intro _
  left
  decide

/-- A chunk of 1150 bytes of CRYPTO data does not fit in 1200 bytes. -/
theorem initial_chunk_too_long :
    ¬ ∀ (env : Env Unit) (s : QuicConnection Unit), SealsAll env.toCryptoOps →
      1200 ≤ s.maxDatagramSize → Disciplined env s := by
  intro h
  obtain ⟨-, hcrypto, -, -⟩ := h (QuicRuns.sampleEnv fun _ => {}) longCidServer
    sampleCrypto_sealsAll (by decide)
  have hwithin := hcrypto (List.replicate 1150 0)
  have hne : List.replicate 1150 (0 : UInt8) ≠ [] := by
    intro hnil
    have hlen := congrArg List.length hnil
    rw [length_replicate] at hlen
    exact absurd hlen (by decide)
  rw [queueCryptoFrame_sizes _ sampleCrypto_sealsAll (by decide), CryptoFits, if_neg hne,
    length_replicate] at hwithin
  obtain ⟨hchunk, -⟩ := hwithin hne
  rw [take_of_length_le (by rw [length_replicate]), length_replicate] at hchunk
  have hsize := hchunk ⟨.initial, rfl, rfl⟩
  exact absurd hsize (by decide)

end QuicDatagramSize
