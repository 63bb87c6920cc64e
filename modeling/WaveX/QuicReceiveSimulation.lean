import WaveX.QuicRuns
import WaveX.QuicSendSimulation

/-! # The receiving half takes ledger moves

    Closing, `process_frames`, the TLS engine and `handle_datagram` take the view
    of a connection along moves of the ledger, and so does every call.  The result
    is `connection_refines`: the runs of a connection refine the abstract
    machine, so an invariant of the machine holds of every reachable connection. -/

namespace QuicSimulation

open QuicVarInt QuicFrames QuicPacket QuicCrypto CongestionControl QuicReceiveState QuicState
open QuicSend QuicReceive QuicRuns QuicLedger

variable {K : Type} (env : Env K)

variable {l l' : Ledger} {s : QuicConnection K}

/-! ## Closing -/

/-- The keys of CONNECTION_CLOSE belong to its packet type. -/
theorem closeLevel_tls (htls : s.tlsInitialized = true) :
    (closeLevel s).2 = KeySlot.ofSpace (spaceIndex (closeLevel s).1) := by
  unfold closeLevel
  cases hk : s.oneRttSendKeys with
  | some slot => exact oneRttSendKeys_tls hk htls
  | none =>
      simp only
      split_ifs <;> rfl

/-- The CONNECTION_CLOSE of `terminate`, right after the state was set. -/
theorem sendConnectionClose_steps (s : QuicConnection K) (err : Nat) (reason : Bytes)
    {due waiting : Bool} {past : List Event} (htr : s.trace = .closed due waiting :: past) :
    Steps env (view s) (view (sendConnectionClose env s err reason)) := by
  unfold sendConnectionClose
  simp only
  generalize hlevel : closeLevel s = level
  obtain ⟨type, slot⟩ := level
  have hslot (htls : s.tlsInitialized = true) : slot = KeySlot.ofSpace (spaceIndex type) := by
    have h := closeLevel_tls htls
    rw [hlevel] at h
    exact h
  have hskip : Steps env (view s) (view (s.allocateNextPn type).2) :=
    .single (.skip (view s) (spaceIndex type))
  generalize (if !(s.allocateNextPn type).2.isServer && type = .initial then
    padInitial _ _ else _) = payload
  generalize hhdr : (if type = .oneRtt then _ else _ : PacketHeader) = hdr
  have hpn : hdr.packetNumber = s.nextPacketNumber (spaceIndex type) := by
    rw [← hhdr]
    split_ifs <;> rfl
  have hspace : spaceIndex hdr.type = spaceIndex type := by
    rw [← hhdr]
    split_ifs with htype
    · rw [htype]
      rfl
    · rfl
  split_ifs with hvalid
  · have hseal : Step (Faulty env) (view s) _ :=
      .sealNext (view s) (spaceIndex type) slot (s.generation slot) hslot
    unfold sealAndPush sealPacket
    rw [hpn]
    cases protectPacket env.toCryptoOps _ hdr payload with
    | none => exact .single hseal
    | some packet =>
        refine ((Relation.ReflTransGen.single hseal).tail (.appendClose _ slot
          (s.generation slot) (s.nextPacketNumber (spaceIndex type)) due waiting past ?_)).tail
          (.transmit _ _ _ ?_)
        · show _ :: s.trace = _
          rw [htr]
          rfl
        · rw [hspace]
          exact hdr_pn_lt (l := view s) (s := (s.allocateNextPn type).2) rfl rfl
  · exact hskip

/-- Closing streams one after the other. -/
theorem foldl_streamClose_steps (hs : List Nat) (s : QuicConnection K) :
    Steps env (view s) (view (hs.foldl (streamClose env) s)) := by
  induction hs generalizing s with
  | nil => exact .refl
  | cons h rest ih => exact (streamClose_steps env s h).trans (ih _)

/-- Sealing a packet does not change the state. -/
theorem sealAndPush_state (s : QuicConnection K) (slot : KeySlot) (hdr : PacketHeader)
    (payload : Bytes) (close : Bool) :
    (sealAndPush env s slot hdr payload close).state = s.state := by
  unfold sealAndPush sealPacket
  cases protectPacket env.toCryptoOps (s.localKeys slot) hdr payload <;> rfl

theorem sendConnectionClose_state (s : QuicConnection K) (err : Nat) (reason : Bytes) :
    (sendConnectionClose env s err reason).state = s.state := by
  unfold sendConnectionClose
  simp only
  split_ifs <;> first
    | exact sealAndPush_state env _ _ _ _ _
    | rfl

/-- `terminate` once the state is set: the streams are cleared and closed. -/
theorem closeStreams_steps (s : QuicConnection K) (hs : List Nat) (hstate : s.state = .closed) :
    Steps env (view s) (view (hs.foldl (streamClose env) (clearStreams s))) :=
  Relation.ReflTransGen.head (.clear (view s) hstate)
    (foldl_streamClose_steps env hs (clearStreams s))

/-- `terminate`. -/
theorem terminate_moves (s : QuicConnection K) (sendClose : Bool) (err : Nat)
    (reason : Bytes) :
    Moves env (view s) (view (terminate env s sendClose err reason)) := by
  unfold terminate
  by_cases hclosed : s.state = .closed
  · rw [if_pos hclosed]
  · rw [if_neg hclosed]
    have hclose : Move (Faulty env) (view s) (view (markClosed s)) :=
      .closing (.close (view s) hclosed)
    refine Relation.ReflTransGen.head hclose (Steps.moves env ?_)
    cases sendClose with
    | false => exact closeStreams_steps env (markClosed s) _ rfl
    | true =>
        refine Relation.ReflTransGen.trans ?_ (notifyOutbound_steps env [] _)
        exact (sendConnectionClose_steps env (markClosed s) err reason rfl).trans
          (closeStreams_steps env _ _ (sendConnectionClose_state env (markClosed s) err reason))

/-- `close`. -/
theorem close_moves (s : QuicConnection K) (err : Nat) (reason : Bytes) :
    Moves env (view s) (view (close env s err reason)) :=
  terminate_moves env s true err reason

/-! ## process_frames -/

/-- Streams waiting for the stream callback were created in the call in
    progress. -/
def Fresh (s : QuicConnection K) (created : List Nat) : Prop :=
  created ≠ [] → newStreams s.trace = true

/-- What was created in this call stays so. -/
theorem Moves.fresh {s s' : QuicConnection K} {created : List Nat}
    (h : Moves env (view s) (view s')) (hf : Fresh s created) : Fresh s' created := by
  intro hne
  have hkeep : ∀ l', Moves env (view s) l' → newStreams l'.trace = true := by
    intro l' hrun
    induction hrun with
    | refl => exact hf hne
    | tail _ hmove ih =>
        obtain ⟨later, htr, hnot⟩ := hmove.trace_eq
        rw [htr]
        exact newStreams_append ih hnot
  exact hkeep _ h

/-- A frame that `risky` names opens the ledger. -/
theorem open_of_risky {e : Event} (hr : risky e = true) (hc : isClosed e = false)
    (htr : ∃ past, l.trace = e :: past) : l.Open := by
  obtain ⟨past, htr⟩ := htr
  refine Or.inr ?_
  rw [htr, exposed, hc, hr]
  rfl

/-- A new peer stream may be dispatched. -/
theorem lookupStream_fresh {sid : Nat} {unseen : List Nat} {nextIdx : Nat}
    (h : lookupStream s sid = .fresh unseen nextIdx) :
    MayDispatch (view s) sid unseen nextIdx := by
  unfold lookupStream at h
  cases hst : s.streams sid with
  | some hd =>
      simp only [hst] at h
      split_ifs at h
  | none =>
      simp only [hst] at h
      split_ifs at h with hsend hpeer hbelow hunseen hlimit
      all_goals
        obtain ⟨rfl, rfl⟩ := StreamLookup.fresh.inj h
        have hpeer : peerInitiated s.isServer sid = true := by simpa using hpeer
      · exact ⟨hpeer, Or.inl ⟨hbelow, hunseen, rfl, rfl⟩⟩
      · exact ⟨hpeer, Or.inr ⟨Nat.le_of_not_lt hbelow, Nat.lt_of_not_le hlimit, rfl, rfl⟩⟩

/-- Creating a peer stream: dispatch, and the hand-over to a waiting acceptor. -/
theorem createPeerStream_steps (s : QuicConnection K) (sid : Nat) (unseen : List Nat)
    (nextIdx : Nat) (hopen : (view s).Open) (hmay : MayDispatch (view s) sid unseen nextIdx) :
    Steps env (view s) (view (createPeerStream s sid unseen nextIdx).2)
      ∧ newStreams (createPeerStream s sid unseen nextIdx).2.trace = true := by
  have hdispatch : Step (Faulty env) (view s) _ :=
    .dispatch (view s) sid unseen nextIdx hopen hmay
  unfold createPeerStream
  simp only
  split_ifs
  · exact ⟨(Relation.ReflTransGen.single hdispatch).tail
      (.hand _ sid (Or.inl (hdispatch.isOpen hopen))), rfl⟩
  · exact ⟨.single hdispatch, rfl⟩
  · exact ⟨.single hdispatch, rfl⟩

/-- The STREAM branch of `process_frames`. -/
theorem processStreamFrame_moves (s : QuicConnection K) (created : List Nat)
    (f : StreamFrame) (hopen : (view s).Open) (hf : Fresh s created) :
    Moves env (view s) (view (processStreamFrame env s created f).1)
      ∧ Fresh (processStreamFrame env s created f).1 (processStreamFrame env s created f).2 := by
  unfold processStreamFrame
  split
  · next err reason _ =>
      have h := close_moves env s err (text reason)
      exact ⟨h, Moves.fresh env h hf⟩
  · exact ⟨.refl, hf⟩
  · next hd _ =>
      have h := (streamPushInbound_steps env s hd f.offset f.data f.fin).moves
      exact ⟨h, Moves.fresh env h hf⟩
  · next unseen nextIdx hlook =>
      obtain ⟨hcreate, hnew⟩ := createPeerStream_steps env s f.streamId unseen nextIdx hopen
        (lookupStream_fresh hlook)
      have hpush := (streamPushInbound_steps env
        (createPeerStream s f.streamId unseen nextIdx).2
        (createPeerStream s f.streamId unseen nextIdx).1 f.offset f.data f.fin).moves
      exact ⟨hcreate.moves.trans hpush, Moves.fresh env hpush (fun _ => hnew)⟩

/-- Closing the stream a frame names. -/
theorem closeNamedStream_steps (s : QuicConnection K) (sid : Nat) :
    Steps env (view s) (view (closeNamedStream env s sid)) := by
  unfold closeNamedStream
  split
  · next h _ => exact streamClose_steps env s h
  · exact .refl

/-- The DATAGRAM branch of `process_frames`. -/
theorem processDatagramFrame_moves (s : QuicConnection K) (data : Bytes)
    (hopen : (view s).Open) :
    Moves env (view s) (view (processDatagramFrame env s data)) := by
  unfold processDatagramFrame
  split_ifs
  · exact close_moves env s _ _
  · exact .single (.step (.keepDatagram (view s) data hopen))
  · exact .refl

/-- The MAX_DATA branch of `process_frames`. -/
theorem creditData_steps (s : QuicConnection K) (v : Nat) :
    Steps env (view s) (view (if v > (s.log (.creditData v)).maxData then
      flushStreamSendQueues env { s.log (.creditData v) with maxData := v }
      else s.log (.creditData v))) := by
  have hcredit : Step (Faulty env) (view s) _ := .creditData (view s) v
  split_ifs with hv
  · refine Relation.ReflTransGen.head ?_ (flushStreamSendQueues_steps env _)
    rw [show max (view s).send.maxData v = v from Nat.max_eq_right (Nat.le_of_lt hv)] at hcredit
    exact hcredit
  · rw [show max (view s).send.maxData v = s.maxData from
      Nat.max_eq_left (Nat.le_of_not_lt hv)] at hcredit
    exact .single hcredit

/-- The MAX_STREAM_DATA branch of `process_frames`. -/
theorem creditStream_steps (s : QuicConnection K) (sid v : Nat) :
    Steps env (view s) (view (if v > (s.log (.creditStream sid v)).maxStreamData then
      flushStreamSendQueues env { s.log (.creditStream sid v) with maxStreamData := v }
      else s.log (.creditStream sid v))) := by
  have hcredit : Step (Faulty env) (view s) _ := .creditStream (view s) sid v
  split_ifs with hv
  · refine Relation.ReflTransGen.head ?_ (flushStreamSendQueues_steps env _)
    rw [show max (view s).send.maxStreamData v = v from
      Nat.max_eq_right (Nat.le_of_lt hv)] at hcredit
    exact hcredit
  · rw [show max (view s).send.maxStreamData v = s.maxStreamData from
      Nat.max_eq_left (Nat.le_of_not_lt hv)] at hcredit
    exact .single hcredit

/-- One frame of `process_frames`. -/
theorem processFrame_moves (type : PacketType) (s : QuicConnection K) (created : List Nat)
    (f : Frame) (hf : Fresh s created) :
    Moves env (view s) (view (processFrame env type s created f).1)
      ∧ Fresh (processFrame env type s created f).1 (processFrame env type s created f).2 := by
  have hframe : Moves env (view s) (view (s.log (.frameSeen f))) :=
    .single (.step (.frame (view s) f))
  have hf' : Fresh (s.log (.frameSeen f)) created := Moves.fresh env hframe hf
  -- a frame that creates no stream leaves `created` alone
  have hplain {s' : QuicConnection K} (h : Moves env (view (s.log (.frameSeen f))) (view s')) :
      Moves env (view s) (view s') ∧ Fresh s' created :=
    ⟨hframe.trans h, Moves.fresh env h hf'⟩
  cases f with
  | datagram data =>
      exact hplain (processDatagramFrame_moves env _ data (open_of_risky rfl rfl ⟨_, rfl⟩))
  | ack ack =>
      exact hplain (onAckReceived_steps env _ type ack (open_of_risky rfl rfl ⟨_, rfl⟩)).moves
  | stream sf =>
      obtain ⟨h, hfresh⟩ := processStreamFrame_moves env (s.log (.frameSeen (.stream sf)))
        created sf (open_of_risky rfl rfl ⟨_, rfl⟩) hf'
      exact ⟨hframe.trans h, hfresh⟩
  | maxData v => exact hplain (creditData_steps env (s.log (.frameSeen (.maxData v))) v).moves
  | maxStreamData sid v =>
      exact hplain
        (creditStream_steps env (s.log (.frameSeen (.maxStreamData sid v))) sid v).moves
  | resetStream sid err final => exact hplain (closeNamedStream_steps env _ sid).moves
  | stopSending sid err => exact hplain (closeNamedStream_steps env _ sid).moves
  | connectionClose ccf => exact hplain (terminate_moves env _ false 0x00 [])
  | _ => exact hplain .refl

/-- `process_frames`. -/
theorem processFrames_moves (type : PacketType) (frames : List Frame) (s : QuicConnection K)
    (created : List Nat) (hf : Fresh s created) :
    Moves env (view s) (view (processFrames env type s created frames).1)
      ∧ Fresh (processFrames env type s created frames).1
        (processFrames env type s created frames).2 := by
  induction frames generalizing s created with
  | nil => exact ⟨.refl, hf⟩
  | cons f rest ih =>
      obtain ⟨h, hf'⟩ := processFrame_moves env type s created f hf
      obtain ⟨hrest, hf''⟩ := ih _ _ hf'
      exact ⟨h.trans hrest, hf''⟩

/-! ## Streams opened locally -/

/-- `create_stream`. -/
theorem createStream_steps (s : QuicConnection K) (bidirectional : Bool)
    (hopen : (view s).Open) :
    Steps env (view s) (view (createStream s bidirectional).2) := by
  cases bidirectional <;> exact .single (.create (view s) _ hopen)

/-- `get_or_create_stream`. -/
theorem getOrCreateStream_steps (s : QuicConnection K) (sid : Nat) (hopen : (view s).Open) :
    Steps env (view s) (view (getOrCreateStream s sid)) := by
  unfold getOrCreateStream
  split
  · exact .refl
  · exact .single (.create (view s) sid hopen)

/-- Opening a stream and writing to it. -/
theorem openAndWrite_steps (s : QuicConnection K) (data : Bytes) (hopen : (view s).Open) :
    Steps env (view s) (view (openAndWrite env s data)) :=
  (createStream_steps env s false hopen).trans (queueStreamData_steps env _ _ data false)

/-- `initialize_http3_session`. -/
theorem initializeHttp3Session_steps (s : QuicConnection K) (hopen : (view s).Open) :
    Steps env (view s) (view (initializeHttp3Session env s)) := by
  unfold initializeHttp3Session
  by_cases hdone : (!s.isServer || s.http3SessionInitialized) = true
  · rw [if_pos hdone]
  · rw [if_neg hdone]
    refine Relation.ReflTransGen.trans ?_ (flushStreamSendQueues_steps env _)
    generalize (encode 0x00 ++ encode 0x04 ++ encode _ ++ _ : Bytes) = settings
    have h₁ := openAndWrite_steps env { s with http3SessionInitialized := true } settings hopen
    have h₂ := h₁.trans (openAndWrite_steps env _ (encode 0x02) (h₁.isOpen env hopen))
    exact h₂.trans (openAndWrite_steps env _ (encode 0x03) (Steps.isOpen env h₂ hopen))

/-! ## Keys -/

/-- Send keys that stay valid keep what can be sent again. -/
theorem resendsOf_mono {s s' : QuicConnection K} (htls : s'.tlsInitialized = s.tlsInitialized)
    (hkeys : ∀ k, (s.localKeys k).valid = true → (s'.localKeys k).valid = true) (f : Frame)
    (type : PacketType) (h : resendsOf s f type = true) : resendsOf s' f type = true := by
  have hready : oneRttReady s = true → oneRttReady s' = true := by
    intro hr
    obtain ⟨k, hk, hv⟩ := keys_of_oneRttReady hr
    have hv' := hkeys k hv
    by_cases hone : s'.oneRttKeysLocal.valid = true
    · exact oneRttReady_of_keys (k := .oneRtt) (if_pos hone) hone
    · -- without 1-RTT keys the connection is in mock mode and uses the Initial keys
      have hone' : ¬s.oneRttKeysLocal.valid = true := fun h => hone (hkeys .oneRtt h)
      unfold QuicConnection.oneRttSendKeys at hk
      rw [if_neg hone'] at hk
      split_ifs at hk with hmock
      obtain rfl := Option.some.inj hk
      refine oneRttReady_of_keys (k := .initial) ?_ hv'
      unfold QuicConnection.oneRttSendKeys
      rw [if_neg hone, htls, if_pos hmock]
  cases f with
  | crypto cf =>
      cases type with
      | initial => exact hkeys .initial h
      | handshake => exact hkeys .handshake h
      | _ => exact hready h
  | stream sf => exact hready h
  | handshakeDone => exact hready h
  | _ => exact nomatch h

/-- `on_tls_secret` only adds keys. -/
theorem onTlsSecret_steps (s : QuicConnection K) (level : Nat) (write : Bool)
    (secret : Bytes) : Steps env (view s) (view (onTlsSecret env s level write secret)) := by
  unfold onTlsSecret
  split
  · exact .refl
  · next k _ =>
      simp only
      split_ifs
      · refine .single (.install (view s) _ (resendsOf_mono rfl ?_))
        rintro (_ | _ | _) h
        · exact h
        · rfl
        · exact h
      · refine .single (.install (view s) _ (resendsOf_mono rfl ?_))
        rintro (_ | _ | _) h
        · exact h
        · exact h
        · rfl
      all_goals exact .refl

/-- An updated key is as valid as the one it comes from. -/
theorem updateKeys_valid {ops : CryptoOps K} {keys keys' : ProtectionKeys K}
    (h : updateKeys ops keys = some keys') : keys'.valid = true := by
  unfold updateKeys at h
  split_ifs at h with hv
  obtain ⟨k, _, rfl⟩ := Option.map_eq_some_iff.mp h
  exact hv

/-- `initiate_key_update`. -/
theorem initiateKeyUpdate_steps (s : QuicConnection K) :
    Steps env (view s) (view (initiateKeyUpdate env s)) := by
  unfold initiateKeyUpdate
  split_ifs
  · exact .refl
  · split
    · exact .refl
    · next keys hkeys =>
        refine .single (.install (view s) _ (resendsOf_mono rfl ?_))
        rintro (_ | _ | _) h
        · exact h
        · exact h
        · exact (updateKeys_valid hkeys : keys.valid = true)

/-- The key-phase step after an opened 1-RTT packet. -/
theorem followKeyPhase_steps (s : QuicConnection K) :
    Steps env (view s) (view (followKeyPhase env s)) := by
  unfold followKeyPhase
  by_cases hphase : (s.oneRttKeysPeer.valid
      && s.oneRttKeysPeer.keyPhase != s.peerKeyPhase) = true
  · rw [if_pos hphase]
    simp only
    split_ifs with hvalid
    · split
      · next keys hkeys =>
          refine .single (.install (view s) _ (resendsOf_mono rfl ?_))
          rintro (_ | _ | _) h
          · exact h
          · exact h
          · exact (updateKeys_valid hkeys : keys.valid = true)
      · refine .single (.install (view s) _ (resendsOf_mono rfl ?_))
        rintro (_ | _ | _) h <;> exact h
    · exact .refl
  · rw [if_neg hphase]

/-- What an opened packet says about the peer. -/
theorem noteOpened_steps (s : QuicConnection K) (hdr : PacketHeader) :
    Steps env (view s) (view (noteOpened env s hdr)) := by
  unfold noteOpened
  by_cases hlong : hdr.isLong = true
  · rw [if_pos hlong]
    cases hdr.type with
    | initial =>
        simp only
        split_ifs <;> exact .refl
    | handshake =>
        simp only
        split_ifs
        · exact .single (.validate (view s))
        · exact .refl
    | _ => exact .refl
  · rw [if_neg hlong]
    exact Relation.ReflTransGen.head (.validate (view s))
      (followKeyPhase_steps env { s with peerAddressValidated := true })

/-- The peer's keys are not in the ledger. -/
theorem setPeerKeys_view (s : QuicConnection K) (choice : KeyChoice)
    (keys : ProtectionKeys K) : view (setPeerKeys s choice keys) = view s := by
  cases choice <;> rfl

/-! ## The TLS engine -/

/-- A callback of the TLS engine. -/
theorem tlsCallback_steps (s : QuicConnection K) (cb : TlsCallback) (hopen : (view s).Open) :
    Steps env (view s) (view (tlsCallback env s cb)) := by
  cases cb with
  | cryptoSend data =>
      rw [tlsCallback]
      split_ifs
      · exact .refl
      · exact queueCryptoFrame_steps env s data hopen
  | yieldSecret level write secret => exact onTlsSecret_steps env s level write secret
  | _ => exact .refl

theorem foldl_tlsCallback_steps (cbs : List TlsCallback) (s : QuicConnection K)
    (hopen : (view s).Open) :
    Steps env (view s) (view (cbs.foldl (tlsCallback env) s)) := by
  induction cbs generalizing s with
  | nil => exact .refl
  | cons cb rest ih =>
      have h := tlsCallback_steps env s cb hopen
      exact h.trans (ih _ (h.isOpen env hopen))

section Drain

/-! The functions that take the drain they call; the assumption says that the
    drain itself takes moves. -/

variable {drain : QuicConnection K → QuicConnection K}
  (hdrain : ∀ s, Moves env (view s) (view (drain s)))

include hdrain

/-- `run_tls_engine`. -/
theorem runTlsEngine_moves (s : QuicConnection K) (hopen : (view s).Open) :
    Moves env (view s) (view (runTlsEngine env drain s)) := by
  unfold runTlsEngine
  split_ifs with htls
  · exact .refl
  · have hcbs := foldl_tlsCallback_steps env (env.tls s.tlsCalls).callbacks
      { s with tlsCalls := s.tlsCalls + 1 } hopen
    simp only
    generalize List.foldl _ _ _ = s₁ at hcbs ⊢
    have hopen₁ : (view s₁).Open := hcbs.isOpen env hopen
    refine Relation.ReflTransGen.trans hcbs.moves ?_
    cases (env.tls s.tlsCalls).ret with
    | wantIo => exact (hdrain s₁).trans (notifyOutbound_steps env [] _).moves
    | fatal => exact close_moves env s₁ _ _
    | done =>
        simp only
        by_cases hdone : s₁.handshakeDone = true
        · rw [if_pos hdone]
        · rw [if_neg hdone]
          refine Relation.ReflTransGen.trans ?_ (notifyOutbound_steps env [] _).moves
          have hconnect : Moves env (view s₁)
              (view (drain { s₁ with handshakeDone := true, state := .connected })) :=
            .head (.step (.connect (view s₁) hopen₁))
              (hdrain { s₁ with handshakeDone := true, state := .connected })
          generalize drain _ = s₂ at hconnect ⊢
          -- from here on the ledger is open, whatever the drain did
          have hopen₂ : (view (s₂.log .handshakeResumed)).Open :=
            open_of_risky rfl rfl ⟨_, rfl⟩
          have hresume := hconnect.tail (.step (.resume (view s₂)))
          have hflush := flushStreamSendQueues_steps env (s₂.log .handshakeResumed)
          refine Relation.ReflTransGen.trans hresume ?_
          split_ifs
          · have hdone := hflush.trans (sendHandshakeDone_steps env _ (hflush.isOpen env hopen₂))
            exact Steps.moves env (hdone.trans (initializeHttp3Session_steps env _
              (Steps.isOpen env hdone hopen₂)))
          · exact hflush.moves

/-! ## handle_datagram -/

omit hdrain in
/-- CRYPTO data is not in the ledger. -/
theorem insertCrypto_view (level : Nat) (frames : List Frame) (s : QuicConnection K) :
    view (insertCrypto level s frames).1 = view s := by
  induction frames generalizing s with
  | nil => rfl
  | cons f rest ih =>
      cases f with
      | crypto cf =>
          rw [insertCrypto]
          split
          · rfl
          · exact ih _
      | _ => exact ih s

omit hdrain in
/-- An ack-eliciting packet is recorded while the connection is open. -/
theorem recordPacket_steps (s : QuicConnection K) (sp : PnSpace) (pn : Nat)
    (ackEliciting : Bool) (hopen : (view s).Open) :
    Steps env (view s) (view (recordPacket s sp pn ackEliciting)) :=
  .single (.setAckDue (view s) _ (fun _ => Or.inr hopen))

omit hdrain in
/-- Admission leaves the connection as it is or marks the packet for
    acknowledgement. -/
theorem admitFrames_steps (s : QuicConnection K) (hdr : PacketHeader) (frames : List Frame)
    (hstate : s.state ≠ .closed) :
    match admitFrames s hdr frames with
    | .error (s', _, _) => view s' = view s
    | .ok s' => Steps env (view s) (view s') := by
  unfold admitFrames
  by_cases hadmitted :
      (s.tlsInitialized && frames.any (fun f => !frameAllowedIn f hdr.type)) = true
  · rw [if_pos hadmitted]
  rw [if_neg hadmitted]
  simp only
  generalize hst : (if s.tlsInitialized then
    insertCrypto (reassemblerForType hdr.type) s frames else (s, true)) = stored
  obtain ⟨s₁, ok⟩ := stored
  have hview : view s₁ = view s := by
    have h := congrArg (fun p => view p.1) hst
    simp only at h
    rw [← h]
    split_ifs
    · exact insertCrypto_view _ _ s
    · rfl
  cases ok with
  | false => exact hview
  | true =>
      have hstate₁ : (view s₁).state ≠ .closed := hview ▸ hstate
      rw [← hview]
      exact recordPacket_steps env s₁ _ _ _ (Or.inl hstate₁)

/-- The frames of an opened packet. -/
theorem handleFrames_moves (s : QuicConnection K) (created : List Nat) (hdr : PacketHeader)
    (frames : List Frame) (hstate : s.state ≠ .closed) (hf : Fresh s created) :
    Moves env (view s) (view (handleFrames env drain s created hdr frames).1)
      ∧ Fresh (handleFrames env drain s created hdr frames).1
        (handleFrames env drain s created hdr frames).2.1 := by
  have hadmitted := admitFrames_steps env s hdr frames hstate
  unfold handleFrames
  cases hres : admitFrames s hdr frames with
  | error refused =>
      obtain ⟨s₁, err, reason⟩ := refused
      rw [hres] at hadmitted
      have h := close_moves env s₁ err reason
      rw [show view s₁ = view s from hadmitted] at h
      exact ⟨h, Moves.fresh env h hf⟩
  | ok s₂ =>
      rw [hres] at hadmitted
      have hrec : Steps env (view s) (view s₂) := hadmitted
      have hopen₂ := hrec.isOpen env (Or.inl hstate)
      simp only
      have htls : Moves env (view s₂) (view (if s₂.tlsInitialized && frames.any isCrypto then
          runTlsEngine env drain s₂ else s₂)) := by
        split_ifs
        · exact runTlsEngine_moves env hdrain s₂ hopen₂
        · exact .refl
      have hrun := hrec.moves.trans htls
      obtain ⟨hframes, hf₃⟩ := processFrames_moves env hdr.type frames _ created
        (Moves.fresh env hrun hf)
      exact ⟨hrun.trans hframes, hf₃⟩

/-- A packet whose keys are there. -/
theorem handleOpenable_moves (s : QuicConnection K) (created : List Nat) (hdr : PacketHeader)
    (packet : Bytes) (choice : KeyChoice) (hstate : s.state ≠ .closed) (hf : Fresh s created) :
    Moves env (view s) (view (handleOpenable env drain s created hdr packet choice).1)
      ∧ Fresh (handleOpenable env drain s created hdr packet choice).1
        (handleOpenable env drain s created hdr packet choice).2.1 := by
  unfold handleOpenable
  simp only
  split
  · exact ⟨.refl, hf⟩
  · next keys hdr' plaintext _ =>
      have hset := setPeerKeys_view s choice keys
      have hf₁ : Fresh (setPeerKeys s choice keys) created := Moves.fresh env (by rw [hset]) hf
      rw [← hset]
      split_ifs
      · exact ⟨.refl, hf₁⟩
      · have hstate₁ : (setPeerKeys s choice keys).state ≠ .closed := by
          cases choice <;> exact hstate
        have hnote := noteOpened_steps env (setPeerKeys s choice keys) hdr'
        generalize noteOpened env _ hdr' = s₂ at hnote ⊢
        have hf₂ : Fresh s₂ created := Moves.fresh env hnote.moves hf₁
        split
        · next frames _ =>
            obtain ⟨h, hf₃⟩ := handleFrames_moves env hdrain s₂ created hdr' frames
              (hnote.not_closed env hstate₁) hf₂
            exact ⟨hnote.moves.trans h, hf₃⟩
        · have h := close_moves env s₂ 0x07 (text "malformed or unknown frame")
          exact ⟨hnote.moves.trans h, Moves.fresh env h hf₂⟩

/-- One packet of a datagram. -/
theorem handlePacket_moves (s : QuicConnection K) (created : List Nat) (hdr : PacketHeader)
    (packet : Bytes) (hstate : s.state ≠ .closed) (hf : Fresh s created) :
    Moves env (view s) (view (handlePacket env drain s created hdr packet).1)
      ∧ Fresh (handlePacket env drain s created hdr packet).1
        (handlePacket env drain s created hdr packet).2.1 := by
  unfold handlePacket
  split
  · split_ifs
    · exact ⟨.refl, hf⟩
    · exact ⟨.refl, hf⟩
  · split_ifs
    · exact ⟨.refl, hf⟩
    · exact ⟨.refl, hf⟩
  · exact ⟨.refl, hf⟩
  · exact handleOpenable_moves env hdrain s created hdr packet _ hstate hf

/-- The packet loop of `handle_datagram`. -/
theorem packetLoop_moves (fuel : Nat) (s : QuicConnection K) (created : List Nat)
    (remaining : Bytes) (hf : Fresh s created) :
    Moves env (view s) (view (packetLoop env drain fuel s created remaining).1)
      ∧ Fresh (packetLoop env drain fuel s created remaining).1
        (packetLoop env drain fuel s created remaining).2.1 := by
  induction fuel generalizing s created remaining with
  | zero => exact ⟨.refl, hf⟩
  | succ fuel ih =>
      rw [packetLoop]
      by_cases hstop : remaining.isEmpty ∨ s.state = .closed
      · rw [if_pos hstop]
        exact ⟨.refl, hf⟩
      rw [if_neg hstop]
      split
      · exact ⟨.refl, hf⟩
      · next hdr _ =>
          simp only
          have hpacket := handlePacket_moves env hdrain s created hdr
            (remaining.take (packetSize hdr remaining)) (fun h => hstop (Or.inr h)) hf
          rcases hres : handlePacket env drain s created hdr
            (remaining.take (packetSize hdr remaining)) with ⟨s', created', stop⟩
          rw [hres] at hpacket
          cases stop with
          | true => exact hpacket
          | false =>
              obtain ⟨hrest, hf'⟩ := ih s' created' _ hpacket.2
              exact ⟨hpacket.1.trans hrest, hf'⟩

omit hdrain in
/-- `send_initial_handshake_response`. -/
theorem sendInitialHandshakeResponse_steps (s : QuicConnection K) (hopen : (view s).Open) :
    Steps env (view s) (view (sendInitialHandshakeResponse env s)) := by
  unfold sendInitialHandshakeResponse
  simp only [sealAndPush_markAckSent]
  have hseal : Steps env (view s) (view (sealAndPush env (s.allocateNextPn .initial).2 .initial
      (longHeader (s.allocateNextPn .initial).2 .initial (s.allocateNextPn .initial).1)
      (serializeFrame (.ack (if (s.ackTrackers .initial).hasPackets then
        (s.ackTrackers .initial).buildAckFrame 0 else {}))) false)) :=
    sealAndPush_steps env .initial _ rfl rfl rfl (Or.inl hopen) (fun _ => rfl)
  have hmark := hseal.tail (markAckSent_step env [] _ .initial)
  exact Relation.ReflTransGen.trans hmark
    (sendHandshakeDone_steps env _ (Steps.isOpen env hmark hopen))

omit hdrain in
/-- An acknowledgement that is due. -/
theorem sendAckIfDue_steps (s : QuicConnection K) (type : PacketType)
    (ht : type = .initial ∨ type = .handshake ∨ type = .oneRtt) :
    Steps env (view s) (view (sendAckIfDue env s type)) := by
  unfold sendAckIfDue
  split_ifs with hneeds
  · refine sendAckForSpace_steps env s type ht (Or.inr ?_)
    rcases ht with rfl | rfl | rfl <;>
      simp only [spaceIndex] at hneeds <;>
      simp [QuicConnection.ackDue, hneeds]
  · exact .refl

/-- The tail of `handle_datagram` under the lock. -/
theorem datagramTail_moves (s : QuicConnection K) :
    Moves env (view s) (view (datagramTail env drain s)) := by
  unfold datagramTail
  simp only
  have h₁ := sendAckIfDue_steps env s .initial (Or.inl rfl)
  generalize sendAckIfDue env s .initial = s₁ at h₁ ⊢
  have h₂ := sendAckIfDue_steps env s₁ .handshake (Or.inr (Or.inl rfl))
  generalize sendAckIfDue env s₁ .handshake = s₂ at h₂ ⊢
  have h₃ := sendAckIfDue_steps env s₂ .oneRtt (Or.inr (Or.inr rfl))
  generalize sendAckIfDue env s₂ .oneRtt = s₃ at h₃ ⊢
  have hacks := (h₁.trans h₂).trans h₃
  split_ifs with hmock
  · have hinit : s₃.state = .initial := by
      simp only [Bool.and_eq_true, decide_eq_true_eq] at hmock
      exact hmock.1.1.2
    have hopen : (view s₃).Open := Or.inl (by
      show s₃.state ≠ .closed
      rw [hinit]
      exact ConnectionState.noConfusion)
    have hresp := sendInitialHandshakeResponse_steps env s₃ hopen
    have hconn := hresp.tail (.connect (view _) (hresp.isOpen env hopen))
    exact ((Steps.moves env hacks).trans (Steps.moves env hconn)).trans (hdrain
      { sendInitialHandshakeResponse env s₃ with state := .connected })
  · exact (Steps.moves env hacks).trans (hdrain s₃)

omit hdrain in
/-- New streams go to the stream callback. -/
theorem logAll_hand_steps (created : List Nat) (s : QuicConnection K)
    (hcb : s.onStreamCreated = true) (hnew : created ≠ [] → newStreams s.trace = true) :
    Steps env (view s) (view (s.logAll (created.map Event.streamHanded))) := by
  induction created generalizing s with
  | nil => exact .refl
  | cons sid rest ih =>
      have hn := hnew (List.cons_ne_nil sid rest)
      have hrest := ih (s.log (.streamHanded sid)) hcb (fun _ => hn)
      rw [List.map_cons, QuicConnection.logAll, List.reverse_cons, List.append_assoc]
      exact Relation.ReflTransGen.head (.hand (view s) sid (Or.inr ⟨hcb, hn⟩)) hrest

omit hdrain in
/-- Hand-out of what a datagram produced. -/
theorem deliver_steps (s : QuicConnection K) (created : List Nat) (hf : Fresh s created) :
    Steps env (view s) (view (deliver env s created)) := by
  unfold deliver
  refine Relation.ReflTransGen.trans ?_ (notifyOutbound_steps env [] _)
  have hhand : Steps env (view s) (view (s.logAll
      (if s.onStreamCreated then created.map Event.streamHanded else []))) := by
    split_ifs with hcb
    · exact logAll_hand_steps env created s hcb hf
    · exact .refl
  exact hhand.tail (.deliver (view (s.logAll _)))

/-- `handle_datagram` after the received bytes have been counted. -/
theorem handleCounted_moves (s : QuicConnection K) (datagram : Bytes) :
    Moves env (view s) (view (handleCounted env drain s datagram)) := by
  have hloop := packetLoop_moves env hdrain datagram.length s [] datagram
    (fun h => absurd rfl h)
  unfold handleCounted
  rcases hres : packetLoop env drain datagram.length s [] datagram with ⟨s', created, stop⟩
  rw [hres] at hloop
  cases stop with
  | true => exact hloop.1
  | false =>
      have htail := datagramTail_moves env hdrain s'
      exact (hloop.1.trans htail).trans
        (deliver_steps env _ created (Moves.fresh env htail hloop.2)).moves

end Drain

/-- A buffered packet handled again. -/
theorem replayPacket_moves (s : QuicConnection K) (packet : Bytes) :
    Moves env (view s) (view (replayPacket env s packet)) := by
  refine Relation.ReflTransGen.head (.step (.replay (view s) packet.length)) ?_
  have hid (s : QuicConnection K) : Moves env (view s) (view (id s)) := .refl
  exact handleCounted_moves env hid (({ s with
    cumulativeBytesReceived := s.cumulativeBytesReceived + packet.length }).log
      (.replayed packet.length)) packet

/-- The loop of `drain_buffered_packets`. -/
theorem drainLoop_moves (fuel : Nat) (s : QuicConnection K) :
    Moves env (view s) (view (drainLoop env fuel s)) := by
  induction fuel generalizing s with
  | zero => exact .refl
  | succ fuel ih =>
      rw [drainLoop]
      split
      · next packet rest _ _ =>
          exact (replayPacket_moves env { s with bufferedHandshakePackets := rest } packet).trans
            (ih _)
      · split
        · next packet rest _ _ =>
            exact (replayPacket_moves env { s with bufferedOneRttPackets := rest } packet).trans
              (ih _)
        · exact .refl

/-- `drain_buffered_packets`. -/
theorem drainBufferedPackets_moves (s : QuicConnection K) :
    Moves env (view s) (view (drainBufferedPackets env s)) := by
  unfold drainBufferedPackets
  split_ifs
  · exact .refl
  · exact drainLoop_moves env _ { s with drainingBufferedPackets := true }

/-! ## Calls and runs -/

/-- `handle_datagram` as the socket layer calls it. -/
theorem handleDatagram_moves (s : QuicConnection K) (datagram : Bytes) :
    ∃ l, Call (view s) l ∧ Moves env l (view (handleDatagram env s datagram)) :=
  ⟨_, .receive (view s) datagram.length,
    handleCounted_moves env (drainBufferedPackets_moves env) (({ s with
      cumulativeBytesReceived := s.cumulativeBytesReceived + datagram.length }).log
        (.received datagram.length)) datagram⟩

/-- `accept_stream`. -/
theorem acceptStream_steps (s : QuicConnection K) (hopen : (view s).Open) :
    Steps env (view s) (view (acceptStream s)) := by
  unfold acceptStream
  split
  · exact .single (.hand (view s) _ (Or.inl hopen))
  · exact .refl

/-- `init_tls_handshake_engine`. -/
theorem initTlsHandshakeEngine_moves (s : QuicConnection K) (htls : s.tlsInitialized = false)
    (hstate : s.state ≠ .closed) :
    Moves env (view { s with tlsInitialized := true })
      (view (initTlsHandshakeEngine env s)) := by
  unfold initTlsHandshakeEngine
  rw [htls, if_neg Bool.false_ne_true]
  simp only
  split_ifs
  · exact .refl
  · exact runTlsEngine_moves env (drainBufferedPackets_moves env)
      { s with tlsInitialized := true } (Or.inl hstate)

/-- What a call does once it has begun. -/
theorem perform_next (s : QuicConnection K) (op : Op)
    (hopen : op.hands = true → (view s).Open) {config : Config} :
    Relation.ReflTransGen (machine (Faulty env) config).next (view s)
      (view (perform env s op)) := by
  have hmoves {l l' : Ledger} (h : Moves env l l') :
      Relation.ReflTransGen (machine (Faulty env) config).next l l' :=
    Relation.ReflTransGen.mono (fun _ _ h => Or.inl h) _ _ h
  have hsteps {l l' : Ledger} (h : Steps env l l') :
      Relation.ReflTransGen (machine (Faulty env) config).next l l' := hmoves h.moves
  cases op with
  | handleDatagram d =>
      obtain ⟨l, hcall, h⟩ := handleDatagram_moves env s d
      exact Relation.ReflTransGen.head (Or.inr hcall) (hmoves h)
  | pollOutgoingDatagrams => exact hsteps (pollOutgoingDatagrams_steps env [] s)
  | lossDetectionTimeout => exact hsteps (onLossDetectionTimeout_steps env s)
  | idleTimeout =>
      show Relation.ReflTransGen _ _ (view (onIdleTimeout env s))
      unfold onIdleTimeout
      split_ifs
      · exact .refl
      · exact hmoves (close_moves env s _ _)
  | sendDatagram payload => exact hsteps (sendDatagram_steps env s payload)
  | createStream bidi => exact hsteps (createStream_steps env s bidi (hopen rfl))
  | getOrCreateStream sid => exact hsteps (getOrCreateStream_steps env s sid (hopen rfl))
  | acceptStream => exact hsteps (acceptStream_steps env s (hopen rfl))
  | closeStream sid => exact hsteps (closeStream_steps env s sid)
  | queueStreamData sid data fin => exact hsteps (queueStreamData_steps env s sid data fin)
  | writeOutbound h data fin =>
      rw [perform]
      split_ifs
      · exact hsteps (writeOutbound_steps env s h data fin)
      · exact .refl
  | streamShutdown h send receive =>
      rw [perform]
      split_ifs
      · exact hsteps (streamShutdown_steps env s h send receive)
      · exact .refl
  | streamClose h =>
      rw [perform]
      split_ifs
      · exact hsteps (streamClose_steps env s h)
      · exact .refl
  | initiateKeyUpdate => exact hsteps (initiateKeyUpdate_steps env s)
  | runTlsEngine =>
      exact hmoves (runTlsEngine_moves env (drainBufferedPackets_moves env) s (hopen rfl))
  | close err reason => exact hmoves (close_moves env s err reason)

/-- A connection with its calls as a transition system. -/
def connection (start : Start) : System (QuicConnection K) where
  init s := s = start.conn env
  next s s' := ∃ op, s' = applyOp env s op

/-- The runs of a connection refine the abstract machine. -/
theorem connection_refines (start : Start) :
    System.Refines (connection env start) (machine (Faulty env) start.config) view where
  init := by
    rintro _ rfl
    -- with its TLS flag set, the configured connection has an empty ledger
    have hinit : view { start.configured env with tlsInitialized := start.tls } =
        Ledger.mk start.config (resendsOf { start.configured env with
          tlsInitialized := start.tls }) 0 (fun _ => []) [] (fun _ => 0) (fun _ => none) {} []
          (fun _ => 0) 0 0 false false [] .initial [] := rfl
    refine ⟨_, ⟨_, hinit⟩, ?_⟩
    unfold Start.conn
    split_ifs with htls
    · rw [htls]
      exact Relation.ReflTransGen.mono (fun _ _ h => Or.inl h) _ _
        (initTlsHandshakeEngine_moves env (start.configured env) rfl ConnectionState.noConfusion)
    · rw [Bool.not_eq_true] at htls
      rw [htls]
      exact .refl
  next := by
    rintro s _ ⟨op, rfl⟩
    refine Relation.ReflTransGen.head (Or.inr (.call (view s) op.hands)) ?_
    refine perform_next env (s.log (.called op.hands)) op ?_
    intro hhands
    exact open_of_risky (e := .called op.hands) hhands rfl ⟨_, rfl⟩

/-- The view of a reachable connection is reachable in the abstract machine. -/
theorem reachable_view {start : Start} (h : Reachable env start s) :
    (machine (Faulty env) start.config).Reachable (view s) := by
  obtain ⟨ops, rfl⟩ := h
  refine (connection_refines env start).reachable ⟨start.conn env, rfl, ?_⟩
  unfold Start.after
  generalize start.conn env = s
  induction ops generalizing s with
  | nil => exact .refl
  | cons op ops ih => exact Relation.ReflTransGen.head ⟨op, rfl⟩ (ih _)

end QuicSimulation
