import WaveX.QuicLedger

/-! # The sending half takes ledger steps

    `view` reads the ledger off a connection.  Every function of `QuicSend` that
    neither closes the connection nor reads a packet takes its state to one whose
    view is reached by steps of the ledger.  The lemmas follow the call graph:
    polling, sealing, the packets of each sending path, the streams, and
    retransmission, where `holding` keeps the frames taken out of `sent_packets_`
    in hand until they have been sent again. -/

namespace QuicSimulation

open QuicVarInt QuicFrames QuicPacket QuicCrypto CongestionControl QuicReceiveState QuicState List
open QuicSend QuicReceive QuicLedger

variable {K : Type} (env : Env K)

/-! ## The view -/

/-- There are 1-RTT send keys, and they are valid. -/
def oneRttReady (s : QuicConnection K) : Bool :=
  match s.oneRttSendKeys with
  | some slot => (s.localKeys slot).valid
  | none => false

/-- Whether `retransmit_frame` has the keys for a frame of a packet type. -/
def resendsOf (s : QuicConnection K) : Frame → PacketType → Bool
  | .crypto _, .initial => s.initialKeysLocal.valid
  | .crypto _, .handshake => s.handshakeKeysLocal.valid
  | .crypto _, _ => oneRttReady s
  | .stream _, _ => oneRttReady s
  | .handshakeDone, _ => oneRttReady s
  | _, _ => false

/-- `largest_acked_packet_` of a space once `has_largest_acked_` is set. -/
def largestAckedOf (s : QuicConnection K) (sp : PnSpace) : Option Nat :=
  if s.hasLargestAcked sp then some (s.largestAckedPacket sp) else none

/-- The ledger of a connection while some frames are in hand. -/
def holding (hs : List (Frame × PacketType)) (s : QuicConnection K) : Ledger where
  config := s.toConfig
  resends := resendsOf s
  bytesInFlight := s.congestionController.bytesInFlight
  sentPackets := s.sentPackets
  inHand := hs
  nextPacketNumber := s.nextPacketNumber
  largestAcked := largestAckedOf s
  send := s.toSendSide
  unseen := s.unseenPeerStreamIds
  mark := s.nextPeerStreamIdx
  received := s.cumulativeBytesReceived
  sent := s.cumulativeBytesSent
  validated := s.peerAddressValidated
  ackDue := s.ackDue
  datagrams := s.receivedDatagrams
  state := s.state
  trace := s.trace

/-- The ledger of a connection. -/
abbrev view (s : QuicConnection K) : Ledger := holding [] s

/-- Sealing a packet can fail. -/
def Faulty : Prop := ∃ k n a p, env.encrypt k n a p = none

/-- Runs of the ledger that do not close the connection. -/
abbrev Steps : Ledger → Ledger → Prop := Relation.ReflTransGen (Step (Faulty env))

/-- Runs of the ledger within a call. -/
abbrev Moves : Ledger → Ledger → Prop := Relation.ReflTransGen (Move (Faulty env))

variable {hs : List (Frame × PacketType)} {l l' : Ledger} {s : QuicConnection K}

theorem Steps.moves (h : Steps env l l') : Moves env l l' :=
  Relation.ReflTransGen.mono (fun _ _ h => Move.step h) _ _ h

/-- Steps keep an open connection open. -/
theorem Steps.isOpen (h : Steps env l l') (hl : l.Open) : l'.Open := by
  induction h with
  | refl => exact hl
  | tail _ hstep ih => exact hstep.isOpen ih

/-- Steps do not close the connection. -/
theorem Steps.not_closed (h : Steps env l l') (hl : l.state ≠ .closed) :
    l'.state ≠ .closed := by
  induction h with
  | refl => exact hl
  | tail _ hstep ih => exact hstep.not_closed ih

/-! ## Polling -/

/-- The release loop changes the held datagrams and counts what it releases; an
    unvalidated peer's budget is not exceeded by anything released. -/
theorem releaseReady_spec (s : QuicConnection K) (ds : List Bytes) :
    (∃ held, (releaseReady s ds).1 = { s with
      amplificationHeldDatagrams := held
      cumulativeBytesSent := s.cumulativeBytesSent + totalBytes (releaseReady s ds).2 })
    ∧ (s.peerAddressValidated = false →
      s.cumulativeBytesSent + totalBytes (releaseReady s ds).2
        ≤ max s.cumulativeBytesSent (3 * s.cumulativeBytesReceived)) := by
  induction ds generalizing s with
  | nil => exact ⟨⟨s.amplificationHeldDatagrams, rfl⟩, fun _ => Nat.le_max_left _ _⟩
  | cons d rest ih =>
      rw [releaseReady]
      split_ifs with hheld
      · obtain ⟨⟨held, heq⟩, hle⟩ :=
          ih { s with amplificationHeldDatagrams := s.amplificationHeldDatagrams ++ [d] }
        exact ⟨⟨held, heq⟩, hle⟩
      · obtain ⟨⟨held, heq⟩, hle⟩ :=
          ih { s with cumulativeBytesSent := s.cumulativeBytesSent + d.length }
        have htotal (out : List Bytes) :
            totalBytes (d :: out) = d.length + totalBytes out := by
          simp [totalBytes]
        refine ⟨⟨held, ?_⟩, ?_⟩
        · simp only [htotal, ← Nat.add_assoc]
          exact heq
        · intro hval
          have hle := hle hval
          simp only [hval, Bool.not_false, Bool.true_and, Bool.or_eq_true, not_or,
            decide_eq_true_eq, gt_iff_lt, Nat.not_lt] at hheld
          simp only [htotal] at hle ⊢
          omega

/-- `poll_outgoing_datagrams` releases datagrams within the budget. -/
theorem pollOutgoingDatagrams_steps (hs : List (Frame × PacketType)) (s : QuicConnection K) :
    Steps env (holding hs s) (holding hs (pollOutgoingDatagrams s).1) := by
  unfold pollOutgoingDatagrams
  simp only
  split_ifs with hserver
  · obtain ⟨⟨held, heq⟩, hle⟩ := releaseReady_spec
      { s with pendingOutboundDatagrams := [], amplificationHeldDatagrams := [] }
      (s.amplificationHeldDatagrams
        ++ coalesce s.maxDatagramSize [] false s.pendingOutboundDatagrams)
    rw [heq]
    exact .single (.poll (holding hs s) _ (fun _ _ => hle))
  · refine .single (.poll (holding hs s) _ (fun h₁ h₂ => ?_))
    exact absurd (Bool.and_eq_true_iff.mpr ⟨h₁, h₂⟩) hserver

/-- The outbound callback polls or does nothing. -/
theorem notifyOutbound_steps (hs : List (Frame × PacketType)) (s : QuicConnection K) :
    Steps env (holding hs s) (holding hs (notifyOutbound env s)) := by
  unfold notifyOutbound
  simp only
  split_ifs with hpolls
  · exact pollOutgoingDatagrams_steps env hs { s with outboundCalls := s.outboundCalls + 1 }
  · exact .refl

/-- The outbound callback changes the queues of datagrams and what is counted of them. -/
theorem notifyOutbound_spec (s : QuicConnection K) :
    ∃ (calls : Nat) (pending held : List Bytes) (sent : Nat) (returned : List Nat),
      notifyOutbound env s = { s with
        outboundCalls := calls
        pendingOutboundDatagrams := pending
        amplificationHeldDatagrams := held
        cumulativeBytesSent := sent
        trace := returned.map .returned ++ s.trace } := by
  unfold notifyOutbound pollOutgoingDatagrams
  simp only
  split_ifs
  · obtain ⟨⟨held, heq⟩, -⟩ := releaseReady_spec
      { s with
        outboundCalls := s.outboundCalls + 1
        pendingOutboundDatagrams := []
        amplificationHeldDatagrams := [] }
      (s.amplificationHeldDatagrams
        ++ coalesce s.maxDatagramSize [] false s.pendingOutboundDatagrams)
    rw [heq]
    exact ⟨_, _, _, _, [_], rfl⟩
  · exact ⟨_, _, _, _, [_], rfl⟩
  · exact ⟨_, _, _, _, [], rfl⟩

/-- The same configuration and the same keys. -/
def SameKeys (s s' : QuicConnection K) : Prop :=
  s'.toConfig = s.toConfig ∧ s'.toKeys = s.toKeys

theorem SameKeys.trans {s₁ s₂ s₃ : QuicConnection K} (h : SameKeys s₁ s₂)
    (h' : SameKeys s₂ s₃) : SameKeys s₁ s₃ :=
  ⟨h'.1.trans h.1, h'.2.trans h.2⟩

theorem SameKeys.oneRttSendKeys_eq {s s' : QuicConnection K} (h : SameKeys s s') :
    s'.oneRttSendKeys = s.oneRttSendKeys := by
  unfold QuicConnection.oneRttSendKeys
  rw [h.1, h.2]

/-! ## Sealing and tracking -/

/-- A packed header has at least its first byte. -/
theorem packPacketHeader_length_pos (hdr : PacketHeader) :
    0 < (packPacketHeader hdr).length := by
  unfold packPacketHeader
  split_ifs <;> simp

/-- Header protection keeps a packet's length. -/
theorem applyHeaderMask_length_pos {isLong : Bool} {pnOffset pnLen : Nat}
    {mask packet : Bytes} (h : 0 < packet.length) :
    0 < (applyHeaderMask isLong pnOffset pnLen mask packet).length := by
  cases packet with
  | nil => exact absurd h (Nat.lt_irrefl 0)
  | cons first rest => exact Nat.zero_lt_succ _

/-- Header protection does not empty a packet. -/
theorem protectHeader_length_pos {ops : CryptoOps K} {k : K} {isLong : Bool}
    {pnOffset pnLen : Nat} {packet : Bytes} (h : 0 < packet.length) :
    0 < (protectHeader ops k isLong pnOffset pnLen packet).length := by
  unfold protectHeader
  split_ifs
  · exact h
  · split
    · exact h
    · exact applyHeaderMask_length_pos h

variable {hdr : PacketHeader}

/-- A sealed packet is not empty, and its keys were valid. -/
theorem protectPacket_some {ops : CryptoOps K} {keys : ProtectionKeys K} {payload packet : Bytes}
    (h : protectPacket ops keys hdr payload = some packet) :
    0 < packet.length ∧ keys.valid = true := by
  unfold protectPacket at h
  by_cases hv : keys.valid = true
  · rw [if_pos hv] at h
    obtain ⟨sealedBytes, _, rfl⟩ := Option.map_eq_some_iff.mp h
    refine ⟨protectHeader_length_pos ?_, hv⟩
    rw [length_append]
    exact Nat.add_pos_left (packPacketHeader_length_pos _) _
  · rw [if_neg hv] at h
    exact nomatch h

/-- Under valid keys sealing fails only when the cipher does. -/
theorem protectPacket_none {keys : ProtectionKeys K} {payload : Bytes}
    (h : protectPacket env.toCryptoOps keys hdr payload = none) (hv : keys.valid = true) :
    Faulty env := by
  unfold protectPacket at h
  rw [if_pos hv] at h
  exact ⟨_, _, _, _, Option.map_eq_none_iff.mp h⟩

/-- A packet number that was just allocated lies below the next one. -/
theorem hdr_pn_lt {sp : PnSpace} {pn : Nat} (hb : holding hs s = l.bump sp)
    (hpn : pn = l.nextPacketNumber sp) : pn < (holding hs s).nextPacketNumber sp := by
  rw [hb, hpn]
  show _ < Function.update l.nextPacketNumber sp (l.nextPacketNumber sp + 1) sp
  rw [Function.update_self]
  exact Nat.lt_succ_self _

variable {slot : KeySlot}

/-- `sendTracked` right after a packet number was allocated: the packet is sealed
    under that number, and when sealing succeeds it is tracked and queued. -/
theorem sendTracked_steps {payload : Bytes} {frames : List Frame}
    (hb : holding hs s = l.bump (spaceIndex hdr.type))
    (hpn : hdr.packetNumber = l.nextPacketNumber (spaceIndex hdr.type)) (hopen : l.Open)
    (htls : s.tlsInitialized = true → slot = KeySlot.ofSpace (spaceIndex hdr.type))
    (hframes : (s.localKeys slot).valid = true →
      ∀ f ∈ frames, mustArrive f = true → resendsOf s f hdr.type = true) :
    Steps env l (holding hs (sendTracked env s slot hdr payload frames).1) := by
  have hconfig : s.toConfig = l.config := congrArg Ledger.config hb
  have hseal : Step (Faulty env) l _ := .sealNext l (spaceIndex hdr.type) slot
    (s.generation slot) (fun h => htls (by rw [hconfig]; exact h))
  rw [← hb, ← hpn] at hseal
  unfold sendTracked sealPacket
  cases hp : protectPacket env.toCryptoOps (s.localKeys slot) hdr payload with
  | none => exact .single hseal
  | some packet =>
      obtain ⟨hpos, hvalid⟩ := protectPacket_some hp
      have htrack : Step (Faulty env) _ _ :=
        .track ((holding hs s).log (.sealed slot (s.generation slot) hdr.packetNumber)) hdr.type
          hdr.packetNumber packet.length frames (env.clock s.clockReads) hpos (hframes hvalid)
      refine (((Relation.ReflTransGen.single hseal).tail htrack).tail
        (.append _ (Or.inl (htrack.isOpen (hseal.isOpen hopen))))).tail (.transmit _ _ _ ?_)
      exact hdr_pn_lt hb hpn

/-- `sendTracked` changes neither configuration and keys nor the send side of the
    streams. -/
theorem sendTracked_frame (s : QuicConnection K) (slot : KeySlot) (hdr : PacketHeader)
    (payload : Bytes) (frames : List Frame) :
    SameKeys s (sendTracked env s slot hdr payload frames).1
      ∧ (sendTracked env s slot hdr payload frames).1.toSendSide = s.toSendSide := by
  unfold sendTracked sealPacket
  cases protectPacket env.toCryptoOps (s.localKeys slot) hdr payload with
  | none => exact ⟨⟨rfl, rfl⟩, rfl⟩
  | some packet => exact ⟨⟨rfl, rfl⟩, rfl⟩

/-- When sealing does not fail, the frames of a packet are tracked. -/
theorem sendTracked_tracked (hdr : PacketHeader) (payload : Bytes) (frames : List Frame)
    (hv : (s.localKeys slot).valid = true) :
    (∃ p ∈ (sendTracked env s slot hdr payload frames).1.sentPackets (spaceIndex hdr.type),
      p.retransmittableFrames = frames) ∨ Faulty env := by
  unfold sendTracked sealPacket
  cases hp : protectPacket env.toCryptoOps (s.localKeys slot) hdr payload with
  | none => exact Or.inr (protectPacket_none env hp hv)
  | some packet =>
      refine Or.inl ⟨SentPacket.ofFrames hdr.packetNumber packet.length hdr.type frames
        (env.clock s.clockReads), ?_, rfl⟩
      simp [pushOutbound, trackSentPacket, steadyNow, QuicConnection.log]

/-- `sendIfKeys` right after a packet number was allocated; without keys the
    number is skipped. -/
theorem sendIfKeys_steps {slot : Option KeySlot} {payload : Bytes} {frames : List Frame}
    (hb : holding hs s = l.bump (spaceIndex hdr.type))
    (hpn : hdr.packetNumber = l.nextPacketNumber (spaceIndex hdr.type)) (hopen : l.Open)
    (htls : ∀ k, slot = some k → s.tlsInitialized = true →
      k = KeySlot.ofSpace (spaceIndex hdr.type))
    (hframes : ∀ k, slot = some k → (s.localKeys k).valid = true →
      ∀ f ∈ frames, mustArrive f = true → resendsOf s f hdr.type = true) :
    Steps env l (holding hs (sendIfKeys env s slot hdr payload frames)) := by
  have hskip : Steps env l (holding hs s) := by
    rw [hb]
    exact .single (.skip l _)
  unfold sendIfKeys
  cases slot with
  | none => exact hskip
  | some k =>
      simp only
      split_ifs with hv
      · exact sendTracked_steps env hb hpn hopen (htls k rfl) (hframes k rfl)
      · exact hskip

variable {s' : QuicConnection K}

/-- Steps to the first component of a result that has been named. -/
theorem steps_fst {α : Type} {p : QuicConnection K × α} {a : α} (heq : p = (s', a))
    (h : Steps env l (holding hs p.1)) : Steps env l (holding hs s') := by
  rw [heq] at h
  exact h

/-- In TLS mode 1-RTT packets are sealed under the 1-RTT keys. -/
theorem oneRttSendKeys_tls {k : KeySlot} (h : s.oneRttSendKeys = some k)
    (htls : s.tlsInitialized = true) : k = .oneRtt := by
  unfold QuicConnection.oneRttSendKeys at h
  split_ifs at h with hv hm
  · exact (Option.some.inj h).symm
  · rw [htls] at hm
    exact nomatch hm

/-- Handshake send keys are the Handshake keys, and valid. -/
theorem handshakeSendKeys_some {k : KeySlot} (h : handshakeSendKeys s = some k) :
    k = .handshake ∧ s.handshakeKeysLocal.valid = true := by
  unfold handshakeSendKeys at h
  split_ifs at h with hv
  exact ⟨(Option.some.inj h).symm, hv⟩

/-- Valid 1-RTT send keys are ready. -/
theorem oneRttReady_of_keys {k : KeySlot} (h : s.oneRttSendKeys = some k)
    (hv : (s.localKeys k).valid = true) : oneRttReady s = true := by
  unfold oneRttReady
  rw [h]
  exact hv

/-! ## The sending paths -/

/-- `send_datagram`. -/
theorem sendDatagram_steps (s : QuicConnection K) (payload : Bytes) :
    Steps env (view s) (view (sendDatagram env s payload).1) := by
  unfold sendDatagram
  split_ifs with hclosed hlen
  · exact .refl
  · exact .refl
  · have hopen : (view s).Open := Or.inl (fun h => hclosed (Or.inl h))
    cases hk : s.oneRttSendKeys with
    | none => exact .refl
    | some slot =>
        simp only [QuicConnection.allocateNextPn]
        have hsend : Steps env (view s) (view (sendTracked env (s.allocateNextPn .oneRtt).2 slot
            (shortHeader (s.allocateNextPn .oneRtt).2 (s.allocateNextPn .oneRtt).1)
            (serializeFrame (.datagram payload)) [.datagram payload]).1) :=
          sendTracked_steps env rfl rfl hopen (oneRttSendKeys_tls hk) (by simp [mustArrive])
        split
        · next s' heq => exact steps_fst env heq hsend
        · next s' heq => exact (steps_fst env heq hsend).trans (notifyOutbound_steps env [] s')

/-- Sending an acknowledgement can only make the pending ones fewer. -/
theorem ackDue_of_markAckSent {sp : PnSpace} (h : (s.markAckSent sp).ackDue = true) :
    s.ackDue = true := by
  revert h
  cases sp <;>
    simp +contextual [QuicConnection.ackDue, QuicConnection.markAckSent,
      ReceivedPacketTracker.needsAck, ReceivedPacketTracker.markAckSent] <;> tauto

/-- Marking acknowledgements as sent is a step. -/
theorem markAckSent_step (hs : List (Frame × PacketType)) (s : QuicConnection K)
    (sp : PnSpace) : Step (Faulty env) (holding hs s) (holding hs (s.markAckSent sp)) :=
  .setAckDue (holding hs s) _ (fun h => Or.inl (ackDue_of_markAckSent h))

/-- Sending an acknowledgement along, right after a packet number was allocated. -/
theorem piggybackAck_bump {sp₀ : PnSpace} (hs : List (Frame × PacketType)) (l : Ledger)
    (hb : holding hs s = l.bump sp₀) (sp : PnSpace) (due : Bool) :
    ∃ a, Steps env l { l with ackDue := a }
      ∧ holding hs (piggybackAck s sp due).2 = ({ l with ackDue := a }).bump sp₀ := by
  have hdue : s.ackDue = l.ackDue := congrArg Ledger.ackDue hb
  unfold piggybackAck
  split_ifs
  · refine ⟨(s.markAckSent sp).ackDue, .single (.setAckDue l _ (fun h => Or.inl ?_)), ?_⟩
    · rw [← hdue]
      exact ackDue_of_markAckSent h
    · show { holding hs s with ackDue := (s.markAckSent sp).ackDue } = _
      rw [hb]
      rfl
  · exact ⟨l.ackDue, .refl, hb⟩

/-- One CRYPTO packet. -/
theorem queueCryptoChunk_steps (s : QuicConnection K) (chunk : Bytes)
    (hopen : (view s).Open) :
    Steps env (view s) (view (queueCryptoChunk env s chunk)) := by
  unfold queueCryptoChunk
  split_ifs with h0 h2
  · simp only [QuicConnection.allocateNextPn]
    obtain ⟨a, hsteps, hb⟩ := piggybackAck_bump env [] (view s)
      (s := { (s.allocateNextPn .initial).2 with
        cryptoSendOffsetInitial := s.cryptoSendOffsetInitial + chunk.length })
      rfl .initial (s.ackTrackers .initial).hasPackets
    refine hsteps.trans (sendIfKeys_steps env hb rfl (hsteps.isOpen env hopen) ?_ ?_)
    · rintro k ⟨⟩ _
      rfl
    · rintro k ⟨⟩ hv f hf _
      rw [mem_singleton.mp hf]
      exact hv
  · simp only [QuicConnection.allocateNextPn]
    obtain ⟨a, hsteps, hb⟩ := piggybackAck_bump env [] (view s)
      (s := { (s.allocateNextPn .handshake).2 with
        cryptoSendOffsetHandshake := s.cryptoSendOffsetHandshake + chunk.length })
      rfl .handshake (s.ackTrackers .handshake).hasPackets
    refine hsteps.trans (sendIfKeys_steps env hb rfl (hsteps.isOpen env hopen) ?_ ?_)
    · intro k hk _
      exact (handshakeSendKeys_some hk).1
    · intro k hk hv f hf _
      rw [mem_singleton.mp hf]
      exact (handshakeSendKeys_some hk).2
  · simp only [QuicConnection.allocateNextPn]
    obtain ⟨a, hsteps, hb⟩ := piggybackAck_bump env [] (view s)
      (s := { (s.allocateNextPn .oneRtt).2 with
        cryptoSendOffsetApp := s.cryptoSendOffsetApp + chunk.length })
      rfl .application ((s.ackTrackers .application).hasPackets
        && (s.ackTrackers .application).needsAck)
    refine hsteps.trans (sendIfKeys_steps env hb rfl (hsteps.isOpen env hopen) ?_ ?_)
    · intro k hk htls
      exact oneRttSendKeys_tls hk htls
    · intro k hk hv f hf _
      rw [mem_singleton.mp hf]
      exact oneRttReady_of_keys hk hv

/-- The loop of `queue_crypto_frame`. -/
theorem queueCryptoLoop_steps (fuel : Nat) (s : QuicConnection K) (data : Bytes)
    (hopen : (view s).Open) :
    Steps env (view s) (view (queueCryptoLoop env fuel s data)) := by
  induction fuel generalizing s data with
  | zero => exact .refl
  | succ fuel ih =>
      rw [queueCryptoLoop]
      split_ifs
      · exact .refl
      · have hchunk := queueCryptoChunk_steps env s (data.take 1150) hopen
        exact hchunk.trans (ih _ _ (hchunk.isOpen env hopen))

/-- `queue_crypto_frame`. -/
theorem queueCryptoFrame_steps (s : QuicConnection K) (data : Bytes)
    (hopen : (view s).Open) :
    Steps env (view s) (view (queueCryptoFrame env s data)) := by
  unfold queueCryptoFrame
  refine Relation.ReflTransGen.trans ?_ (notifyOutbound_steps env [] _)
  split_ifs
  · exact queueCryptoChunk_steps env s [] hopen
  · exact queueCryptoLoop_steps env _ s data hopen

variable {type : PacketType}

/-- The header and keys of an ACK-only packet belong to its packet type. -/
theorem ackHeader_spec (pn : Nat) (ht : type = .initial ∨ type = .handshake ∨ type = .oneRtt) :
    (ackHeader s type pn).1.packetNumber = pn
      ∧ spaceIndex (ackHeader s type pn).1.type = spaceIndex type
      ∧ ∀ k, (ackHeader s type pn).2 = some k → s.tlsInitialized = true →
        k = KeySlot.ofSpace (spaceIndex type) := by
  rcases ht with rfl | rfl | rfl
  · exact ⟨rfl, rfl, fun k hk _ => (Option.some.inj hk).symm⟩
  · exact ⟨rfl, rfl, fun k hk _ => (handshakeSendKeys_some hk).1⟩
  · exact ⟨rfl, rfl, fun k hk htls => oneRttSendKeys_tls hk htls⟩

/-- `sealAndPush` right after a packet number was allocated. -/
theorem sealAndPush_steps (sp : PnSpace) (payload : Bytes) (hsp : spaceIndex hdr.type = sp)
    (hb : holding hs s = l.bump sp) (hpn : hdr.packetNumber = l.nextPacketNumber sp)
    (hdue : l.Open ∨ l.ackDue = true) (htls : s.tlsInitialized = true → slot = KeySlot.ofSpace sp) :
    Steps env l (holding hs (sealAndPush env s slot hdr payload false)) := by
  have hconfig : s.toConfig = l.config := congrArg Ledger.config hb
  have hseal : Step (Faulty env) l _ := .sealNext l sp slot (s.generation slot)
    (fun h => htls (by rw [hconfig]; exact h))
  rw [← hb, ← hpn] at hseal
  have hdue' : s.ackDue = l.ackDue := congrArg Ledger.ackDue hb
  unfold sealAndPush sealPacket
  cases protectPacket env.toCryptoOps (s.localKeys slot) hdr payload with
  | none => exact .single hseal
  | some packet =>
      refine ((Relation.ReflTransGen.single hseal).tail (.append _ ?_)).tail (.transmit _ _ _ ?_)
      · exact hdue.imp (fun h => hseal.isOpen h) (fun h => hdue'.trans h)
      · rw [hsp]
        exact hdr_pn_lt hb hpn

/-- Sealing does not look at the acknowledgements. -/
theorem sealAndPush_markAckSent (s : QuicConnection K) (sp : PnSpace) (slot : KeySlot)
    (hdr : PacketHeader) (payload : Bytes) (close : Bool) :
    sealAndPush env (s.markAckSent sp) slot hdr payload close
      = (sealAndPush env s slot hdr payload close).markAckSent sp := by
  unfold sealAndPush sealPacket
  have hkeys : (s.markAckSent sp).localKeys slot = s.localKeys slot := by cases slot <;> rfl
  have hgen : (s.markAckSent sp).generation slot = s.generation slot := by cases slot <;> rfl
  rw [hkeys, hgen]
  cases protectPacket env.toCryptoOps (s.localKeys slot) hdr payload <;> rfl

/-- `send_ack_for_space`: the acknowledgement was due, or the connection is open. -/
theorem sendAckForSpace_steps (s : QuicConnection K) (type : PacketType)
    (ht : type = .initial ∨ type = .handshake ∨ type = .oneRtt)
    (hdue : (view s).Open ∨ s.ackDue = true) :
    Steps env (view s) (view (sendAckForSpace env s type)) := by
  unfold sendAckForSpace
  split_ifs with hpackets
  swap
  · exact .refl
  have hskip : Steps env (view s) (view (s.allocateNextPn type).2) :=
    .single (.skip (view s) (spaceIndex type))
  obtain ⟨hpn, htype, hslot⟩ := ackHeader_spec (s := (s.allocateNextPn type).2)
    (s.nextPacketNumber (spaceIndex type)) ht
  show Steps env (view s) (view (sendAckPacket env (s.allocateNextPn type).2 type
    (ackHeader (s.allocateNextPn type).2 type (s.nextPacketNumber (spaceIndex type))).1
    (ackHeader (s.allocateNextPn type).2 type (s.nextPacketNumber (spaceIndex type))).2))
  cases hk : (ackHeader (s.allocateNextPn type).2 type
      (s.nextPacketNumber (spaceIndex type))).2 with
  | none => exact hskip
  | some slot =>
      rw [sendAckPacket]
      split_ifs with hvalid
      swap
      · exact hskip
      simp only [piggybackAck, ↓reduceIte, sealAndPush_markAckSent]
      refine Relation.ReflTransGen.trans ?_ (notifyOutbound_steps env [] _)
      refine Relation.ReflTransGen.tail ?_ (markAckSent_step env [] _ _)
      exact sealAndPush_steps env _ _ htype rfl hpn hdue (hslot slot hk)

/-! ## Stream data -/

/-- The next STREAM frame of a stream that has something to send may be
    packetized. -/
theorem nextStreamFrame_may (s : QuicConnection K) (sid : Nat)
    (hsome : ¬((s.streamSendQueues sid).isEmpty && !s.streamSendFin sid) = true)
    (hcredit : ¬(decide (chunkLen s sid = 0) && !(s.streamSendQueues sid).isEmpty) = true) :
    MayPacketize s.toSendSide sid (nextStreamFrame s sid).data.length
      (nextStreamFrame s sid).fin := by
  have hq : chunkLen s sid ≤ (s.streamSendQueues sid).length := by
    unfold chunkLen
    omega
  have hlen : (nextStreamFrame s sid).data.length = chunkLen s sid := by
    simp only [nextStreamFrame, length_take]
    omega
  rw [hlen]
  refine ⟨hq, ?_, ?_, rfl, ?_⟩
  · unfold chunkLen
    omega
  · unfold chunkLen
    omega
  · intro h0
    simp only [h0, decide_true, Bool.true_and, Bool.not_eq_true', Bool.not_eq_false,
      List.isEmpty_iff] at hcredit
    simp only [hcredit, isEmpty_nil, Bool.true_and, Bool.not_eq_true',
      Bool.not_eq_false] at hsome
    simp [nextStreamFrame, h0, hcredit, hsome]

/-- The counters move as in the ledger. -/
theorem advanceStream_step {sid : Nat} (hside : s'.toSendSide = s.toSendSide)
    (hstate : s'.state ≠ .closed)
    (hmay : MayPacketize s.toSendSide sid (nextStreamFrame s sid).data.length
      (nextStreamFrame s sid).fin) :
    Step (Faulty env) (holding hs s') (holding hs (advanceStream s' (nextStreamFrame s sid))) := by
  rw [← hside] at hmay
  have hstep : Step (Faulty env) (holding hs s') _ :=
    .packetize (holding hs s') sid _ _ hstate hmay
  have hoff : (holding hs s').send.streamSendOffsets sid = (nextStreamFrame s sid).offset := by
    show s'.toSendSide.streamSendOffsets sid = _
    rw [hside]
    rfl
  have hdata : ((holding hs s').send.streamSendQueues sid).take
      (nextStreamFrame s sid).data.length = (nextStreamFrame s sid).data := by
    show (s'.toSendSide.streamSendQueues sid).take _ = _
    rw [hside]
    simp [nextStreamFrame]
  rw [hoff, hdata] at hstep
  exact hstep

/-- The inner loop of `flush_stream_send_queues`. -/
theorem flushStreamLoop_steps (slot : KeySlot) (fuel : Nat) (s : QuicConnection K) (sid : Nat)
    (hstate : s.state ≠ .closed) (hk : s.oneRttSendKeys = some slot) :
    Steps env (view s) (view (flushStreamLoop env slot fuel s sid))
      ∧ SameKeys s (flushStreamLoop env slot fuel s sid) := by
  induction fuel generalizing s with
  | zero => exact ⟨.refl, rfl, rfl⟩
  | succ fuel ih =>
      rw [flushStreamLoop]
      simp only
      by_cases hsome : ((s.streamSendQueues sid).isEmpty && !s.streamSendFin sid) = true
      · rw [if_pos hsome]
        exact ⟨.refl, rfl, rfl⟩
      rw [if_neg hsome]
      by_cases hcredit :
          (decide (chunkLen s sid = 0) && !(s.streamSendQueues sid).isEmpty) = true
      · rw [if_pos hcredit]
        exact ⟨.refl, rfl, rfl⟩
      rw [if_neg hcredit]
      have hmay := nextStreamFrame_may s sid hsome hcredit
      obtain ⟨hsame, hside⟩ := sendTracked_frame env (s.allocateNextPn .oneRtt).2 slot
        (shortHeader (s.allocateNextPn .oneRtt).2 (s.allocateNextPn .oneRtt).1)
        (serializeFrame (.stream (nextStreamFrame s sid))) [.stream (nextStreamFrame s sid)]
      have hsend : Steps env (view s) (view (sendTracked env (s.allocateNextPn .oneRtt).2 slot
          (shortHeader (s.allocateNextPn .oneRtt).2 (s.allocateNextPn .oneRtt).1)
          (serializeFrame (.stream (nextStreamFrame s sid)))
          [.stream (nextStreamFrame s sid)]).1) := by
        refine sendTracked_steps env rfl rfl (Or.inl hstate) (oneRttSendKeys_tls (s := s) hk) ?_
        intro hv f hf _
        rw [mem_singleton.mp hf]
        exact oneRttReady_of_keys (s := s) hk hv
      rcases hres : sendTracked env (s.allocateNextPn .oneRtt).2 slot
        (shortHeader (s.allocateNextPn .oneRtt).2 (s.allocateNextPn .oneRtt).1)
        (serializeFrame (.stream (nextStreamFrame s sid)))
        [.stream (nextStreamFrame s sid)] with ⟨s', ok⟩
      rw [hres] at hsend hsame hside
      have hstate' : s'.state ≠ .closed := hsend.not_closed env hstate
      have hadvance : Steps env (view s) (view (advanceStream s' (nextStreamFrame s sid))) :=
        hsend.tail (advanceStream_step env hside hstate' hmay)
      cases ok with
      | false => exact ⟨hsend, hsame⟩
      | true =>
          simp only
          split_ifs
          · exact ⟨hadvance, hsame⟩
          · have hk' : (advanceStream s' (nextStreamFrame s sid)).oneRttSendKeys = some slot :=
              (SameKeys.oneRttSendKeys_eq (s := s) hsame).trans hk
            obtain ⟨hrest, hkeys⟩ := ih _ (hadvance.not_closed env hstate) hk'
            exact ⟨hadvance.trans hrest, SameKeys.trans hsame hkeys⟩

/-- One stream of `flush_stream_send_queues`. -/
theorem flushStream_steps (slot : KeySlot) (s : QuicConnection K) (sid : Nat)
    (hstate : s.state ≠ .closed) (hk : s.oneRttSendKeys = some slot) :
    Steps env (view s) (view (flushStream env slot s sid))
      ∧ SameKeys s (flushStream env slot s sid) := by
  obtain ⟨hloop, hsame⟩ := flushStreamLoop_steps env slot
    ((s.streamSendQueues sid).length + 1) s sid hstate hk
  unfold flushStream
  simp only
  split_ifs with hdone
  · simp only [Bool.and_eq_true, List.isEmpty_iff, Bool.not_eq_true'] at hdone
    exact ⟨hloop.tail (.drop (view _) sid hdone.1.1 hdone.1.2), hsame⟩
  · exact ⟨hloop, hsame⟩

/-- `flush_stream_send_queues`. -/
theorem flushStreamSendQueues_steps (s : QuicConnection K) :
    Steps env (view s) (view (flushStreamSendQueues env s)) := by
  unfold flushStreamSendQueues
  split_ifs with hclosed
  · exact .refl
  · cases hk : s.oneRttSendKeys with
    | none => exact .refl
    | some slot =>
        simp only
        generalize env.iterationOrder s.sendQueueIds = ids
        induction ids generalizing s with
        | nil => exact .refl
        | cons sid ids ih =>
            obtain ⟨hflush, hsame⟩ := flushStream_steps env slot s sid hclosed hk
            exact hflush.trans (ih (flushStream env slot s sid)
              (hflush.not_closed env hclosed) (hsame.oneRttSendKeys_eq.trans hk))

/-- `queue_stream_data` stores its arguments. -/
theorem enqueueStreamData_step (s : QuicConnection K) (sid : Nat) (data : Bytes)
    (fin : Bool) :
    Step (Faulty env) (view s) (view (enqueueStreamData s sid data fin)) := by
  unfold enqueueStreamData
  by_cases hclosed : s.state = .closed
  · rw [if_pos hclosed]
    exact .acceptClosed (view s) sid data fin hclosed
  · rw [if_neg hclosed]
    exact .accept (view s) sid data fin hclosed

/-- `queue_stream_data`. -/
theorem queueStreamData_steps (s : QuicConnection K) (sid : Nat) (data : Bytes)
    (fin : Bool) :
    Steps env (view s) (view (queueStreamData env s sid data fin)) :=
  ((Relation.ReflTransGen.single (enqueueStreamData_step env s sid data fin)).trans
    (flushStreamSendQueues_steps env _)).trans (notifyOutbound_steps env [] _)

/-! ## Closing streams -/

/-- `QuicStream::close` up to its last call. -/
theorem finishStream_steps (s : QuicConnection K) (h : Nat) :
    Steps env (view s) (view (finishStream env s h)) := by
  unfold finishStream
  simp only
  split_ifs
  · exact .refl
  · exact queueStreamData_steps env (s.setObject h _) _ _ _

/-- `close_stream` and the calls it makes. -/
theorem closeStreamLoop_steps (fuel : Nat) (s : QuicConnection K) (sid : Nat) :
    Steps env (view s) (view (closeStreamLoop env fuel s sid)) := by
  induction fuel generalizing s sid with
  | zero => exact .refl
  | succ fuel ih =>
      rw [closeStreamLoop]
      split
      · exact .refl
      · next h _ =>
          have hflush : Steps env (view s)
              (view (flushStreamSendQueues env (s.eraseStream sid))) :=
            flushStreamSendQueues_steps env (s.eraseStream sid)
          simp only
          split_ifs
          · exact (hflush.trans (finishStream_steps env _ h)).trans (ih _ _)
          · exact hflush

/-- `close_stream`. -/
theorem closeStream_steps (s : QuicConnection K) (sid : Nat) :
    Steps env (view s) (view (closeStream env s sid)) :=
  closeStreamLoop_steps env _ s sid

/-- `QuicStream::close`. -/
theorem streamClose_steps (s : QuicConnection K) (h : Nat) :
    Steps env (view s) (view (streamClose env s h)) := by
  unfold streamClose
  split_ifs
  · exact (finishStream_steps env s h).trans (closeStream_steps env _ _)
  · exact .refl

/-- `notify_finished_if_needed`. -/
theorem notifyFinishedIfNeeded_steps (s : QuicConnection K) (h : Nat) :
    Steps env (view s) (view (notifyFinishedIfNeeded env s h)) := by
  unfold notifyFinishedIfNeeded
  split_ifs
  · exact closeStream_steps env s _
  · exact .refl

/-- `QuicStream::shutdown`. -/
theorem streamShutdown_steps (s : QuicConnection K) (h : Nat) (send receive : Bool) :
    Steps env (view s) (view (streamShutdown env s h send receive)) := by
  unfold streamShutdown
  simp only
  refine Relation.ReflTransGen.trans ?_ (notifyFinishedIfNeeded_steps env _ h)
  split_ifs
  · exact queueStreamData_steps env (s.setObject h _) _ _ _
  · exact .refl

/-- `QuicStream::write_outbound`. -/
theorem writeOutbound_steps (s : QuicConnection K) (h : Nat) (data : Bytes) (fin : Bool) :
    Steps env (view s) (view (writeOutbound env s h data fin)) := by
  unfold writeOutbound
  cases fin with
  | false => exact queueStreamData_steps env s _ data false
  | true =>
      exact (queueStreamData_steps env (s.setObject h _) _ data true).trans
        (notifyFinishedIfNeeded_steps env _ h)

/-- `QuicStream::push_inbound`. -/
theorem streamPushInbound_steps (s : QuicConnection K) (h offset : Nat) (data : Bytes)
    (fin : Bool) :
    Steps env (view s) (view (streamPushInbound env s h offset data fin)) := by
  unfold streamPushInbound
  simp only
  split_ifs
  · exact notifyFinishedIfNeeded_steps env (s.setObject h _) h
  · exact .refl

/-! ## Retransmission -/

/-- What sending a frame of a packet type again comes to: steps, with the frame
    tracked in a new packet when there were keys for it and sealing did not
    fail. -/
structure Resent (hs : List (Frame × PacketType)) (s s' : QuicConnection K) (f : Frame)
    (type : PacketType) : Prop where
  steps : Steps env (holding hs s) (holding hs s')
  same : SameKeys s s'
  tracked : mustArrive f = true → resendsOf s f type = true →
    (∃ sp, ∃ p ∈ s'.sentPackets sp, f ∈ p.retransmittableFrames) ∨ Faulty env

/-- A frame that is given up: a packet number at most is used for it. -/
theorem Resent.givenUp {f : Frame} (hsteps : Steps env (holding hs s) (holding hs s'))
    (hsame : SameKeys s s') (hno : mustArrive f = true → resendsOf s f type = false) :
    Resent env hs s s' f type := by
  refine ⟨hsteps, hsame, ?_⟩
  intro hm hr
  rw [hno hm] at hr
  exact nomatch hr

/-- A frame sent again in a packet of its own, under valid keys. -/
theorem sendTracked_resent {f : Frame} (payload : Bytes) (hopen : (holding hs s).Open)
    (hpn : hdr.packetNumber = s.nextPacketNumber (spaceIndex hdr.type))
    (htls : s.tlsInitialized = true → slot = KeySlot.ofSpace (spaceIndex hdr.type))
    (hframes : (s.localKeys slot).valid = true → resendsOf s f hdr.type = true)
    (hkeys : resendsOf s f type = true → (s.localKeys slot).valid = true) :
    Resent env hs s
      (sendTracked env (s.allocateNextPn hdr.type).2 slot hdr payload [f]).1 f type := by
  refine ⟨?_, (sendTracked_frame env (s.allocateNextPn hdr.type).2 slot hdr payload [f]).1, ?_⟩
  · refine sendTracked_steps env rfl hpn hopen htls ?_
    intro hv f' hf' _
    rw [mem_singleton.mp hf']
    exact hframes hv
  · intro _ hr
    refine (sendTracked_tracked env (s := (s.allocateNextPn hdr.type).2) hdr payload [f]
      (hkeys hr)).imp ?_ id
    rintro ⟨p, hp, hpf⟩
    exact ⟨_, p, hp, hpf ▸ mem_singleton_self f⟩

/-- The same behind the `keys && keys->valid` check. -/
theorem sendIfKeys_resent {f : Frame} {slot : Option KeySlot} (hdr : PacketHeader) (payload : Bytes)
    (hopen : (holding hs s).Open)
    (hpn : hdr.packetNumber = s.nextPacketNumber (spaceIndex hdr.type))
    (htls : ∀ k, slot = some k → s.tlsInitialized = true →
      k = KeySlot.ofSpace (spaceIndex hdr.type))
    (hframes : ∀ k, slot = some k → (s.localKeys k).valid = true →
      resendsOf s f hdr.type = true) (hkeys : resendsOf s f type = true →
      ∃ k, slot = some k ∧ (s.localKeys k).valid = true) :
    Resent env hs s
      (sendIfKeys env (s.allocateNextPn hdr.type).2 slot hdr payload [f]) f type := by
  have hskip : Steps env (holding hs s) (holding hs (s.allocateNextPn hdr.type).2) :=
    .single (.skip (holding hs s) _)
  unfold sendIfKeys
  cases slot with
  | none =>
      refine Resent.givenUp env hskip ⟨rfl, rfl⟩ ?_
      intro _
      by_contra hr
      obtain ⟨k, hk, _⟩ := hkeys (by simpa using hr)
      exact nomatch hk
  | some k =>
      have hkeys' : resendsOf s f type = true → (s.localKeys k).valid = true := by
        intro hr
        obtain ⟨k', hk', hv⟩ := hkeys hr
        rw [Option.some.inj hk']
        exact hv
      have hsame : (s.allocateNextPn hdr.type).2.localKeys k = s.localKeys k := by
        cases k <;> rfl
      simp only [hsame]
      split_ifs with hv
      · exact sendTracked_resent env payload hopen hpn (htls k rfl) (hframes k rfl) hkeys'
      · refine Resent.givenUp env hskip ⟨rfl, rfl⟩ ?_
        intro _
        by_contra hr
        exact hv (hkeys' (by simpa using hr))

/-- Ready 1-RTT keys are the ones `one_rtt_send_keys` chooses. -/
theorem keys_of_oneRttReady (h : oneRttReady s = true) :
    ∃ k, s.oneRttSendKeys = some k ∧ (s.localKeys k).valid = true := by
  unfold oneRttReady at h
  split at h
  · next k hk => exact ⟨k, hk, h⟩
  · exact nomatch h

/-- Ready 1-RTT keys are valid. -/
theorem valid_of_oneRttReady (hk : s.oneRttSendKeys = some slot) (h : oneRttReady s = true) :
    (s.localKeys slot).valid = true := by
  obtain ⟨k, hk', hv⟩ := keys_of_oneRttReady h
  rw [hk] at hk'
  rw [Option.some.inj hk']
  exact hv

/-- A frame that needs 1-RTT keys is given up without them. -/
theorem Resent.noOneRttKeys {f : Frame} (hsteps : Steps env (holding hs s) (holding hs s'))
    (hsame : SameKeys s s') (hk : s.oneRttSendKeys = none)
    (hf : resendsOf s f type = oneRttReady s) :
    Resent env hs s s' f type := by
  refine Resent.givenUp env hsteps hsame (fun _ => ?_)
  rw [hf, oneRttReady, hk]

/-- The CRYPTO branch of `retransmit_frame`. -/
theorem retransmitCrypto_resent (hs : List (Frame × PacketType)) (s : QuicConnection K)
    (cf : CryptoFrame) (type : PacketType) (hopen : (holding hs s).Open) :
    Resent env hs s (retransmitFrame env s (.crypto cf) type) (.crypto cf) type := by
  have happ : resendsOf s (.crypto cf) type = oneRttReady s →
      Resent env hs s (retransmitFrame env s (.crypto cf) .oneRtt) (.crypto cf) type := by
    intro hr
    simp only [retransmitFrame]
    cases hk : s.oneRttSendKeys with
    | none => exact Resent.noOneRttKeys env .refl ⟨rfl, rfl⟩ hk hr
    | some slot =>
        refine sendIfKeys_resent env (shortHeader (s.allocateNextPn .oneRtt).2
          (s.allocateNextPn .oneRtt).1) _ hopen rfl ?_ ?_ ?_
        · rintro k ⟨⟩ htls
          exact oneRttSendKeys_tls hk htls
        · rintro k ⟨⟩ hv
          exact oneRttReady_of_keys hk hv
        · intro h
          exact ⟨slot, rfl, valid_of_oneRttReady hk (hr ▸ h)⟩
  cases type with
  | initial =>
      simp only [retransmitFrame]
      refine sendIfKeys_resent env (longHeader (s.allocateNextPn .initial).2 .initial
        (s.allocateNextPn .initial).1) _ hopen rfl ?_ ?_ ?_
      · rintro k ⟨⟩ _
        rfl
      · rintro k ⟨⟩ hv
        exact hv
      · intro h
        exact ⟨.initial, rfl, h⟩
  | handshake =>
      simp only [retransmitFrame]
      refine sendIfKeys_resent env (longHeader (s.allocateNextPn .handshake).2
        .handshake (s.allocateNextPn .handshake).1) _ hopen rfl ?_ ?_ ?_
      · intro k hk _
        exact (handshakeSendKeys_some hk).1
      · intro k hk _
        exact (handshakeSendKeys_some hk).2
      · intro h
        exact ⟨.handshake, if_pos h, h⟩
  | _ => exact happ rfl

/-- `retransmit_frame`. -/
theorem retransmitFrame_resent (hs : List (Frame × PacketType)) (s : QuicConnection K)
    (f : Frame) (type : PacketType) (hopen : (holding hs s).Open) :
    Resent env hs s (retransmitFrame env s f type) f type := by
  cases f with
  | crypto cf => exact retransmitCrypto_resent env hs s cf type hopen
  | stream sf =>
      simp only [retransmitFrame]
      cases hk : s.oneRttSendKeys with
      | none => exact Resent.noOneRttKeys env .refl ⟨rfl, rfl⟩ hk rfl
      | some slot =>
          exact sendTracked_resent env _ hopen rfl (oneRttSendKeys_tls hk)
            (oneRttReady_of_keys hk) (valid_of_oneRttReady hk)
  | handshakeDone =>
      simp only [retransmitFrame]
      rw [show (s.allocateNextPn .oneRtt).2.oneRttSendKeys = s.oneRttSendKeys from rfl]
      cases hk : s.oneRttSendKeys with
      | none =>
          exact Resent.noOneRttKeys env (.single (.skip (holding hs s) _)) ⟨rfl, rfl⟩ hk rfl
      | some slot =>
          exact sendTracked_resent env _ hopen rfl (oneRttSendKeys_tls hk)
            (oneRttReady_of_keys hk) (valid_of_oneRttReady hk)
  | _ => exact Resent.givenUp env .refl ⟨rfl, rfl⟩ (fun h => absurd h Bool.false_ne_true)

/-- Connections with the same keys can send the same frames again. -/
theorem SameKeys.resendsOf_eq {s s' : QuicConnection K} (h : SameKeys s s') :
    resendsOf s' = resendsOf s := by
  have hready : oneRttReady s' = oneRttReady s := by
    unfold oneRttReady
    rw [h.oneRttSendKeys_eq]
    cases s.oneRttSendKeys with
    | none => rfl
    | some k => cases k <;> simp only [QuicConnection.localKeys, h.2]
  funext f type
  unfold resendsOf
  rw [hready, h.2]

/-- Every frame in hand is sent again or given up. -/
theorem retransmitAll_steps (frames : List (Frame × PacketType)) (s : QuicConnection K)
    (hopen : (view s).Open) :
    Steps env (holding frames s) (view (retransmitAll env s frames)) := by
  induction frames generalizing s with
  | nil => exact .refl
  | cons fp rest ih =>
      obtain ⟨f, type⟩ := fp
      have hsent := retransmitFrame_resent env ((f, type) :: rest) s f type hopen
      have hsettle : Step (Faulty env)
          (holding ((f, type) :: rest) (retransmitFrame env s f type))
          (holding rest (retransmitFrame env s f type)) := by
        refine .settle _ f type rest rfl ?_
        intro hm hr
        refine hsent.tracked hm ?_
        rw [← hsent.same.resendsOf_eq]
        exact hr
      have hopen' : (view (retransmitFrame env s f type)).Open :=
        hsent.steps.isOpen env hopen
      exact (hsent.steps.tail hsettle).trans (ih _ hopen')

/-- Congestion events leave the bytes in flight alone. -/
theorem bytesInFlight_foldl_onCongestionEvent (pkts : List SentPacket) (now : Int)
    (cc : CongestionController) :
    (pkts.foldl (fun cc p => cc.onCongestionEvent p.timeSent now) cc).bytesInFlight
      = cc.bytesInFlight := by
  induction pkts generalizing cc with
  | nil => rfl
  | cons p rest ih => rw [foldl_cons, ih, CongestionController.bytesInFlight_onCongestionEvent]

/-- Acknowledged packets leave the bytes in flight. -/
theorem bytesInFlight_foldl_ackPacket (pkts : List SentPacket) (ack : AckFrame) (now : Int)
    (cc : CongestionController) :
    (pkts.foldl (ackPacket ack now) cc).bytesInFlight = cc.bytesInFlight - sumBytes pkts := by
  induction pkts generalizing cc with
  | nil => rfl
  | cons p rest ih =>
      have hp : (ackPacket ack now cc p).bytesInFlight = cc.bytesInFlight - p.bytesSent := by
        unfold ackPacket
        simp only
        split_ifs <;> simp
      rw [foldl_cons, ih, hp]
      simp only [sumBytes, map_cons, sum_cons]
      omega

/-- The packets declared lost leave `sent_packets_` with their frames in hand. -/
theorem removeLost_step (s : QuicConnection K) (sp : PnSpace) (now : Int)
    (lost : SentPacket → Bool)
    (hlost : ∀ p ∈ s.sentPackets sp, lost p = true →
      ∃ largest, p.packetNumber < largest ∧ AckedUpTo s.trace sp largest) :
    Step (Faulty env) (view s)
      (holding (framesOf ((s.sentPackets sp).filter lost)) (removeLost s sp now lost)) := by
  have hstep : Step (Faulty env) (view s) _ := .lose (view s) sp lost rfl hlost
  have hcc := bytesInFlight_foldl_onCongestionEvent ((s.sentPackets sp).filter lost) now
    s.congestionController
  simp only [holding, removeLost, hcc] at hstep ⊢
  exact hstep

/-- `detect_lost_packets` after an ACK frame whose largest number is not that of a
    packet left in flight. -/
theorem detectLostPackets_steps (s : QuicConnection K) (sp : PnSpace) (largestAcked : Nat)
    (hopen : (view s).Open) (hacked : AckedUpTo s.trace sp largestAcked)
    (hleft : ∀ p ∈ s.sentPackets sp, p.packetNumber ≠ largestAcked) :
    Steps env (view s) (view (detectLostPackets env s sp largestAcked)) := by
  unfold detectLostPackets
  split_ifs with hempty
  · exact .refl
  · have hlost : ∀ p ∈ s.sentPackets sp,
        isLost s.congestionController (steadyNow env s).1 largestAcked p = true →
        ∃ largest, p.packetNumber < largest ∧ AckedUpTo s.trace sp largest := by
      intro p hp hl
      simp only [isLost, Bool.and_eq_true, decide_eq_true_eq] at hl
      exact ⟨largestAcked, Nat.lt_of_le_of_ne hl.1 (hleft p hp), hacked⟩
    have hlose := removeLost_step env (steadyNow env s).2 sp (steadyNow env s).1
      (isLost s.congestionController (steadyNow env s).1 largestAcked) hlost
    exact Relation.ReflTransGen.head hlose
      (retransmitAll_steps env _ _ (hlose.isOpen hopen))

/-- The acknowledged packets leave `sent_packets_`. -/
theorem removeAcked_step (s : QuicConnection K) (sp : PnSpace) (ack : AckFrame) (now : Int) :
    Step (Faulty env) (view s)
      (view (removeAcked (s.log (.acked sp (ackedRanges ack))) sp ack now)) := by
  have hstep : Step (Faulty env) (view s) _ := .ack (view s) sp (ackedRanges ack)
  have hcc := bytesInFlight_foldl_ackPacket ((s.sentPackets sp).filter
    (fun p => isAcked (ackedRanges ack) p.packetNumber)) ack now s.congestionController
  simp only [holding, removeAcked, QuicConnection.log, hcc] at hstep ⊢
  exact hstep

/-- `largest_acked_packet_` is raised after an ACK frame that acknowledges the number. -/
theorem noteLargestAcked_step (s : QuicConnection K) (sp : PnSpace) (largest : Nat)
    {ranges : List (Nat × Nat)} (hmem : Event.acked sp ranges ∈ s.trace)
    (hacked : isAcked ranges largest = true) :
    Step (Faulty env) (view s) (view (noteLargestAcked s sp largest)) := by
  have hstep : Step (Faulty env) (view s) _ :=
    .noteLargest (view s) sp largest ranges hmem hacked
  have hlargest : largestAckedOf (noteLargestAcked s sp largest)
      = Function.update (largestAckedOf s) sp
          (some (raiseLargest largest (largestAckedOf s sp))) := by
    funext sq
    by_cases hsq : sq = sp
    · subst hsq
      simp only [largestAckedOf, noteLargestAcked, QuicConnection.log, Function.update_self,
        if_true]
      cases s.hasLargestAcked sq with
      | false => rfl
      | true =>
          simp only [Bool.not_true, Bool.false_or, decide_eq_true_eq, if_true, raiseLargest]
          congr 1
          split <;> omega
    · simp only [largestAckedOf, noteLargestAcked, QuicConnection.log,
        Function.update_of_ne hsq]
  simp only [holding, hlargest] at hstep ⊢
  exact hstep

/-- An ACK frame acknowledges its largest number. -/
theorem isAcked_largest (ack : AckFrame) :
    isAcked (ackedRanges ack) ack.largestAcknowledged = true := by
  simp [isAcked, ackedRanges]

/-- `on_ack_received`. -/
theorem onAckReceived_steps (s : QuicConnection K) (type : PacketType) (ack : AckFrame)
    (hopen : (view s).Open) :
    Steps env (view s) (view (onAckReceived env s type ack)) := by
  have hack := removeAcked_step env (steadyNow env s).2 (spaceIndex type) ack
    (steadyNow env s).1
  unfold onAckReceived
  simp only
  split_ifs with hempty hnew
  · exact .refl
  · refine Relation.ReflTransGen.trans ?_ (flushStreamSendQueues_steps env _)
    generalize hs₁ : removeAcked _ _ _ _ = s₁
    have hack' : Steps env (view s) (view s₁) := by
      rw [← hs₁]
      exact .single hack
    have hmem : Event.acked (spaceIndex type) (ackedRanges ack) ∈ s₁.trace := by
      rw [← hs₁]
      exact mem_cons_self
    have hleft : ∀ p ∈ s₁.sentPackets (spaceIndex type),
        p.packetNumber ≠ ack.largestAcknowledged := by
      rw [← hs₁]
      simp only [removeAcked, Function.update_self]
      intro p hp heq
      have hnot := (mem_filter.mp hp).2
      rw [heq, isAcked_largest] at hnot
      exact absurd hnot Bool.false_ne_true
    have hnote : Steps env (view s) _ := hack'.tail (noteLargestAcked_step env s₁ (spaceIndex type)
      ack.largestAcknowledged hmem (isAcked_largest ack))
    refine hnote.trans (detectLostPackets_steps env _ _ _ (hnote.isOpen env hopen) ?_ hleft)
    exact ⟨mem_cons_self, ackedRanges ack, mem_cons_of_mem _ hmem, isAcked_largest ack⟩
  · exact .single hack

/-- The probe takes the frames of at most one packet. -/
theorem takeProbeFrames_steps (s : QuicConnection K) (sps : List PnSpace) :
    Steps env (view s) (holding (takeProbeFrames s sps).1 (takeProbeFrames s sps).2) := by
  induction sps with
  | nil => exact .refl
  | cons sp rest ih =>
      rw [takeProbeFrames]
      have hprobe : Step (Faulty env) (view s) _ := .probe (view s) sp rfl
      split
      · exact ih
      · next frames pkts _ heq =>
          rw [show (view s).sentPackets sp = s.sentPackets sp from rfl, heq] at hprobe
          exact .single hprobe

/-- `on_loss_detection_timeout`. -/
theorem onLossDetectionTimeout_steps (s : QuicConnection K) :
    Steps env (view s) (view (onLossDetectionTimeout env s)) := by
  unfold onLossDetectionTimeout
  split_ifs with hclosed
  · exact .refl
  · have htake := takeProbeFrames_steps env s [.initial, .handshake, .application]
    have hopen : (view (takeProbeFrames s [.initial, .handshake, .application]).2).Open :=
      htake.isOpen env (Or.inl hclosed)
    refine Relation.ReflTransGen.trans ?_ (notifyOutbound_steps env [] _)
    exact htake.trans (retransmitAll_steps env _ _ hopen)

/-- `send_handshake_done`. -/
theorem sendHandshakeDone_steps (s : QuicConnection K) (hopen : (view s).Open) :
    Steps env (view s) (view (sendHandshakeDone env s)) := by
  unfold sendHandshakeDone
  split_ifs
  · exact .refl
  · cases hk : s.oneRttSendKeys with
    | none => exact .refl
    | some slot =>
        refine sendTracked_steps env (l := view s) rfl rfl hopen (oneRttSendKeys_tls hk) ?_
        intro hv f hf _
        rw [mem_singleton.mp hf]
        exact oneRttReady_of_keys hk hv

end QuicSimulation
