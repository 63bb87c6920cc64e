import WaveX.QuicReceiveSimulation

/-! # What leaves the keys alone

    Sending, acknowledging, closing and the frames of a packet do not touch the
    traffic keys or key phases of a connection; only the TLS engine, a local key
    update and an opened packet do.  One lemma for each function, in the order of the
    calls. -/

namespace QuicKeys

open QuicVarInt QuicFrames QuicPacket QuicCrypto QuicState QuicSend QuicReceive QuicSimulation

variable {K : Type} (env : Env K)

/-! ## Sending -/

@[simp]
theorem sendTracked_keys (s : QuicConnection K) (slot : KeySlot) (hdr : PacketHeader)
    (payload : Bytes) (frames : List Frame) :
    (sendTracked env s slot hdr payload frames).1.toKeys = s.toKeys :=
  (sendTracked_frame env s slot hdr payload frames).1.2

@[simp]
theorem sendIfKeys_keys (s : QuicConnection K) (slot : Option KeySlot) (hdr : PacketHeader)
    (payload : Bytes) (frames : List Frame) :
    (sendIfKeys env s slot hdr payload frames).toKeys = s.toKeys := by
  unfold sendIfKeys
  split
  · rfl
  · split_ifs
    · exact sendTracked_keys env s _ hdr payload frames
    · rfl

@[simp]
theorem sealAndPush_keys (s : QuicConnection K) (slot : KeySlot) (hdr : PacketHeader)
    (payload : Bytes) (close : Bool) :
    (sealAndPush env s slot hdr payload close).toKeys = s.toKeys := by
  unfold sealAndPush sealPacket
  cases protectPacket env.toCryptoOps (s.localKeys slot) hdr payload with
  | none => rfl
  | some packet => rfl

@[simp]
theorem notifyOutbound_keys (s : QuicConnection K) :
    (notifyOutbound env s).toKeys = s.toKeys := by
  obtain ⟨calls, pending, held, sent, returned, heq⟩ := notifyOutbound_spec env s
  rw [heq]

/-! ## Streams -/

theorem flushStreamLoop_keys (slot : KeySlot) (fuel : Nat) (s : QuicConnection K) (sid : Nat) :
    (flushStreamLoop env slot fuel s sid).toKeys = s.toKeys := by
  induction fuel generalizing s with
  | zero => rfl
  | succ fuel ih =>
      rw [flushStreamLoop]
      simp only
      by_cases hsome : ((s.streamSendQueues sid).isEmpty && !s.streamSendFin sid) = true
      · rw [if_pos hsome]
      rw [if_neg hsome]
      by_cases hcredit :
          (decide (chunkLen s sid = 0) && !(s.streamSendQueues sid).isEmpty) = true
      · rw [if_pos hcredit]
      rw [if_neg hcredit]
      have hsent := sendTracked_keys env (s.allocateNextPn .oneRtt).2 slot
        (shortHeader (s.allocateNextPn .oneRtt).2 (s.allocateNextPn .oneRtt).1)
        (serializeFrame (.stream (nextStreamFrame s sid))) [.stream (nextStreamFrame s sid)]
      rcases hres : sendTracked env (s.allocateNextPn .oneRtt).2 slot
        (shortHeader (s.allocateNextPn .oneRtt).2 (s.allocateNextPn .oneRtt).1)
        (serializeFrame (.stream (nextStreamFrame s sid)))
        [.stream (nextStreamFrame s sid)] with ⟨s', ok⟩
      rw [hres] at hsent
      cases ok with
      | false => exact hsent
      | true =>
          simp only
          split_ifs
          · exact hsent
          · exact (ih _).trans hsent

theorem flushStream_keys (slot : KeySlot) (s : QuicConnection K) (sid : Nat) :
    (flushStream env slot s sid).toKeys = s.toKeys := by
  unfold flushStream
  simp only
  split_ifs
  · exact flushStreamLoop_keys env slot _ s sid
  · exact flushStreamLoop_keys env slot _ s sid

/-- A loop whose body leaves the keys alone leaves them alone. -/
theorem foldl_keys {α : Type} {f : QuicConnection K → α → QuicConnection K}
    (hf : ∀ s a, (f s a).toKeys = s.toKeys) (as : List α) (s : QuicConnection K) :
    (as.foldl f s).toKeys = s.toKeys := by
  induction as generalizing s with
  | nil => rfl
  | cons a as ih => exact (ih (f s a)).trans (hf s a)

@[simp]
theorem flushStreamSendQueues_keys (s : QuicConnection K) :
    (flushStreamSendQueues env s).toKeys = s.toKeys := by
  unfold flushStreamSendQueues
  split_ifs
  · rfl
  · split
    · rfl
    · exact foldl_keys (flushStream_keys env _) _ s

@[simp]
theorem queueStreamData_keys (s : QuicConnection K) (sid : Nat) (data : Bytes) (fin : Bool) :
    (queueStreamData env s sid data fin).toKeys = s.toKeys := by
  rw [queueStreamData, notifyOutbound_keys, flushStreamSendQueues_keys, enqueueStreamData]
  by_cases hclosed : s.state = .closed
  · rw [if_pos hclosed]
  · rw [if_neg hclosed]
    rfl

theorem finishStream_keys (s : QuicConnection K) (h : Nat) :
    (finishStream env s h).toKeys = s.toKeys := by
  unfold finishStream
  simp only
  split_ifs
  · rfl
  · exact queueStreamData_keys env _ _ _ _

theorem closeStreamLoop_keys (fuel : Nat) (s : QuicConnection K) (sid : Nat) :
    (closeStreamLoop env fuel s sid).toKeys = s.toKeys := by
  induction fuel generalizing s sid with
  | zero => rfl
  | succ fuel ih =>
      rw [closeStreamLoop]
      split
      · rfl
      · have hflush := flushStreamSendQueues_keys env (s.eraseStream sid)
        simp only
        split_ifs
        · exact (ih _ _).trans ((finishStream_keys env _ _).trans hflush)
        · exact hflush

@[simp]
theorem streamClose_keys (s : QuicConnection K) (h : Nat) :
    (streamClose env s h).toKeys = s.toKeys := by
  unfold streamClose closeStream
  split_ifs
  · exact (closeStreamLoop_keys env _ _ _).trans (finishStream_keys env s h)
  · rfl

@[simp]
theorem streamPushInbound_keys (s : QuicConnection K) (h offset : Nat) (data : Bytes)
    (fin : Bool) : (streamPushInbound env s h offset data fin).toKeys = s.toKeys := by
  unfold streamPushInbound notifyFinishedIfNeeded closeStream
  simp only
  split_ifs
  · exact closeStreamLoop_keys env _ _ _
  · rfl
  · rfl

/-! ## Retransmission and closing -/

theorem retransmitFrame_keys (s : QuicConnection K) (frame : Frame) (type : PacketType) :
    (retransmitFrame env s frame type).toKeys = s.toKeys := by
  unfold retransmitFrame
  cases frame with
  | crypto cf =>
      cases type with
      | initial => exact sendIfKeys_keys env _ _ _ _ _
      | handshake => exact sendIfKeys_keys env _ _ _ _ _
      | _ =>
          simp only
          split
          · rfl
          · exact sendIfKeys_keys env _ _ _ _ _
  | stream sf =>
      simp only
      split
      · rfl
      · exact sendTracked_keys env _ _ _ _ _
  | handshakeDone =>
      simp only
      split
      · rfl
      · exact sendTracked_keys env _ _ _ _ _
  | _ => rfl

@[simp]
theorem detectLostPackets_keys (s : QuicConnection K) (sp : PnSpace) (largestAcked : Nat) :
    (detectLostPackets env s sp largestAcked).toKeys = s.toKeys := by
  unfold detectLostPackets retransmitAll
  split_ifs
  · rfl
  · exact foldl_keys (fun s (fp : Frame × PacketType) => retransmitFrame_keys env s fp.1 fp.2) _ _

@[simp]
theorem onAckReceived_keys (s : QuicConnection K) (type : PacketType) (ack : AckFrame) :
    (onAckReceived env s type ack).toKeys = s.toKeys := by
  unfold onAckReceived
  simp only
  split_ifs
  · rfl
  · rw [flushStreamSendQueues_keys, detectLostPackets_keys]
    rfl
  · rfl

theorem sendConnectionClose_keys (s : QuicConnection K) (err : Nat) (reason : Bytes) :
    (sendConnectionClose env s err reason).toKeys = s.toKeys := by
  unfold sendConnectionClose
  simp only
  split_ifs <;> first | exact sealAndPush_keys env _ _ _ _ _ | rfl

@[simp]
theorem terminate_keys (s : QuicConnection K) (sendClose : Bool) (err : Nat) (reason : Bytes) :
    (terminate env s sendClose err reason).toKeys = s.toKeys := by
  unfold terminate
  by_cases hclosed : s.state = .closed
  · rw [if_pos hclosed]
  rw [if_neg hclosed]
  have hloop (hs : List Nat) (s : QuicConnection K) :
      (hs.foldl (streamClose env) (clearStreams s)).toKeys = s.toKeys :=
    foldl_keys (streamClose_keys env) hs (clearStreams s)
  cases sendClose with
  | false =>
      simp only [Bool.false_eq_true, ↓reduceIte]
      exact hloop _ _
  | true =>
      simp only [↓reduceIte, notifyOutbound_keys]
      exact (hloop _ _).trans (sendConnectionClose_keys env (markClosed s) err reason)

/-! ## The frames of a packet -/

theorem createPeerStream_keys (s : QuicConnection K) (sid : Nat) (unseen : List Nat)
    (nextIdx : Nat) : (createPeerStream s sid unseen nextIdx).2.toKeys = s.toKeys := by
  unfold createPeerStream
  simp only
  split_ifs <;> rfl

theorem processFrame_keys (type : PacketType) (s : QuicConnection K) (created : List Nat)
    (f : Frame) : (processFrame env type s created f).1.toKeys = s.toKeys := by
  unfold processFrame
  cases f with
  | datagram data =>
      simp only [processDatagramFrame]
      split_ifs
      · exact terminate_keys env _ _ _ _
      · rfl
      · rfl
  | ack ack => exact onAckReceived_keys env _ type ack
  | stream sf =>
      simp only [processStreamFrame]
      split
      · exact terminate_keys env _ _ _ _
      · rfl
      · exact streamPushInbound_keys env _ _ _ _ _
      · exact (streamPushInbound_keys env _ _ _ _ _).trans (createPeerStream_keys _ _ _ _)
  | maxData v =>
      simp only
      split_ifs
      · exact flushStreamSendQueues_keys env _
      · rfl
  | maxStreamData sid v =>
      simp only
      split_ifs
      · exact flushStreamSendQueues_keys env _
      · rfl
  | resetStream sid _ _ =>
      simp only [closeNamedStream]
      split
      · exact streamClose_keys env _ _
      · rfl
  | stopSending sid _ =>
      simp only [closeNamedStream]
      split
      · exact streamClose_keys env _ _
      · rfl
  | connectionClose _ => exact terminate_keys env _ _ _ _
  | _ => rfl

theorem processFrames_keys (type : PacketType) (s : QuicConnection K) (created : List Nat)
    (frames : List Frame) : (processFrames env type s created frames).1.toKeys = s.toKeys := by
  induction frames generalizing s created with
  | nil => rfl
  | cons f rest ih => exact (ih _ _).trans (processFrame_keys env type s created f)

theorem insertCrypto_keys (level : Nat) (s : QuicConnection K) (frames : List Frame) :
    (insertCrypto level s frames).1.toKeys = s.toKeys := by
  induction frames generalizing s with
  | nil => rfl
  | cons f rest ih =>
      cases f with
      | crypto cf =>
          rw [insertCrypto]
          split
          · rfl
          · exact ih _
      | _ => exact ih s

/-- Admission leaves the keys alone. -/
theorem admitFrames_keys (s : QuicConnection K) (hdr : PacketHeader) (frames : List Frame) :
    match admitFrames s hdr frames with
    | .error refused => refused.1.toKeys = s.toKeys
    | .ok s' => s'.toKeys = s.toKeys := by
  unfold admitFrames
  by_cases hrefused :
      (s.tlsInitialized && frames.any (fun f => !frameAllowedIn f hdr.type)) = true
  · rw [if_pos hrefused]
  rw [if_neg hrefused]
  simp only
  generalize hst : (if s.tlsInitialized then
    insertCrypto (reassemblerForType hdr.type) s frames else (s, true)) = stored
  obtain ⟨s₁, ok⟩ := stored
  have hkeys : s₁.toKeys = s.toKeys := by
    have h := congrArg (fun p => p.1.toKeys) hst
    simp only at h
    rw [← h]
    split_ifs
    · exact insertCrypto_keys _ s frames
    · rfl
  cases ok with
  | false => exact hkeys
  | true => exact hkeys

/-- The frames of a packet without CRYPTO data leave the keys alone. -/
theorem handleFrames_keys (drain : QuicConnection K → QuicConnection K) (s : QuicConnection K)
    (created : List Nat) (hdr : PacketHeader) {frames : List Frame}
    (hcrypto : frames.any isCrypto = false) :
    (handleFrames env drain s created hdr frames).1.toKeys = s.toKeys := by
  have hadmitted := admitFrames_keys s hdr frames
  unfold handleFrames
  cases hres : admitFrames s hdr frames with
  | error refused =>
      rw [hres] at hadmitted
      exact (terminate_keys env _ _ _ _).trans hadmitted
  | ok s' =>
      rw [hres] at hadmitted
      simp only [hcrypto, Bool.and_false, Bool.false_eq_true, ↓reduceIte]
      exact (processFrames_keys env hdr.type s' created frames).trans hadmitted

/-! ## Opening a packet -/

/-- `unprotect_packet` opens a packet under the candidate keys for the phase its
    header shows, and leaves these keys behind. -/
theorem unprotectPacket_candidate {ops : CryptoOps K} {keys keys' : ProtectionKeys K}
    {packet plaintext : Bytes} {largestPn dcidLen : Nat} {hdr : PacketHeader}
    (h : unprotectPacket ops keys packet largestPn dcidLen = some (keys', hdr, plaintext)) :
    candidateKeys ops keys hdr.isLong hdr.keyPhase = some keys'
      ∧ ∃ nonce aad sealedBytes, ops.decrypt keys'.material nonce aad sealedBytes = some plaintext := by
  unfold unprotectPacket at h
  simp only [Option.bind_eq_bind, Option.bind_eq_some_iff, Option.ite_none_left_eq_some] at h
  obtain ⟨_, _, _, _, _, _, _, keys₁, hcand, plain, hdec, h⟩ := h
  cases h
  exact ⟨hcand, _, _, _, hdec⟩

end QuicKeys
