import WaveX.QuicReceiveSimulation

/-! # What the STREAM frames of packets carry

    A STREAM frame is cut from a stream's queue once, by `flush_stream_send_queues`; every
    later packet with it is a retransmission.  So each STREAM frame of each packet that was
    ever built carries the bytes that were sent at its offset the first time, and what was
    sent the first time is in a packet (`original_of_reachable`).  One lemma for each
    function, in the order of the calls. -/

namespace QuicStreamFrames

open QuicVarInt QuicFrames QuicPacket QuicCrypto QuicReceiveState CongestionControl List
open QuicState QuicSend QuicReceive QuicRuns QuicSimulation

/-- A STREAM frame was sent for the first time with these bytes at this place. -/
def FirstSent (events : List Event) : Frame → Prop
  | .stream sf => .streamSent sf.streamId sf.offset sf.data sf.fin ∈ events
  | _ => True

theorem FirstSent.mono {events events' : List Event} {f : Frame} (h : FirstSent events f)
    (hsub : events ⊆ events') : FirstSent events' f := by
  cases f with
  | stream sf => exact hsub h
  | _ => trivial

/-- A packet was built with this STREAM frame. -/
def Packetized (events : List Event) (sf : StreamFrame) : Prop :=
  ∃ sp pn frames, .packetized sp pn frames ∈ events ∧ .stream sf ∈ frames

theorem Packetized.mono {events events' : List Event} {sf : StreamFrame}
    (h : Packetized events sf) (hsub : events ⊆ events') : Packetized events' sf := by
  obtain ⟨sp, pn, frames, hbuilt, hf⟩ := h
  exact ⟨sp, pn, frames, hsub hbuilt, hf⟩

/-- The STREAM frames of all packets. -/
def packetizedStreams (events : List Event) : List StreamFrame :=
  events.flatMap fun e =>
    match e with
    | .packetized _ _ frames =>
        frames.filterMap fun f => match f with | .stream sf => some sf | _ => none
    | _ => []

theorem mem_packetizedStreams {events : List Event} {sf : StreamFrame} :
    sf ∈ packetizedStreams events ↔ Packetized events sf := by
  rw [packetizedStreams, mem_flatMap]
  constructor
  · rintro ⟨e, he, hsf⟩
    cases e with
    | packetized sp pn frames =>
      obtain ⟨f, hf, heq⟩ := mem_filterMap.mp hsf
      cases f with
      | stream sf' =>
        cases heq
        exact ⟨sp, pn, frames, he, hf⟩
      | _ => exact nomatch heq
    | _ => exact absurd hsf not_mem_nil
  · rintro ⟨sp, pn, frames, hbuilt, hf⟩
    exact ⟨_, hbuilt, mem_filterMap.mpr ⟨_, hf, rfl⟩⟩

/-- The first time the frame is sent. -/
def firstOf (sf : StreamFrame) : Event := .streamSent sf.streamId sf.offset sf.data sf.fin

variable {K : Type} (env : Env K)

/-- The STREAM frames of the packets built, and of those held for loss detection, and the
    frames sent for the first time. -/
structure Original (s : QuicConnection K) : Prop where
  built : ∀ sp pn frames, .packetized sp pn frames ∈ s.trace → ∀ f ∈ frames, FirstSent s.trace f
  held : ∀ sp, ∀ p ∈ s.sentPackets sp, ∀ f ∈ p.retransmittableFrames, FirstSent s.trace f
  sent : ∀ sid offset data fin, .streamSent sid offset data fin ∈ s.trace →
    ∃ sf, Packetized s.trace sf ∧ firstOf sf = .streamSent sid offset data fin

/-- An event other than a packet and the first sending of a STREAM frame. -/
def notBuilt : Event → Bool
  | .packetized _ _ _ | .streamSent _ _ _ _ => false
  | _ => true

variable {env} {s s' : QuicConnection K}

theorem Original.grow (h : Original s) (later : List Event) (htrace : s'.trace = later ++ s.trace)
    (hlater : ∀ e ∈ later, notBuilt e = true)
    (hheld : ∀ sp, ∀ p ∈ s'.sentPackets sp, ∀ f ∈ p.retransmittableFrames,
      ∃ p₀ ∈ s.sentPackets sp, f ∈ p₀.retransmittableFrames) : Original s' := by
  have hsub : s.trace ⊆ s'.trace := by
    rw [htrace]
    exact subset_append_right _ _
  constructor
  case built =>
    intro sp pn frames hp f hf
    rw [htrace] at hp
    rcases mem_append.mp hp with hnew | hold
    · exact nomatch hlater _ hnew
    · exact (h.built sp pn frames hold f hf).mono hsub
  case held =>
    intro sp p hp f hf
    obtain ⟨p₀, hp₀, hf₀⟩ := hheld sp p hp f hf
    exact (h.held sp p₀ hp₀ f hf₀).mono hsub
  case sent =>
    intro sid offset data fin hs
    rw [htrace] at hs
    rcases mem_append.mp hs with hnew | hold
    · exact nomatch hlater _ hnew
    · obtain ⟨sf, hpkt, heq⟩ := h.sent sid offset data fin hold
      exact ⟨sf, hpkt.mono hsub, heq⟩

/-- More history, without a packet, and the same packets held. -/
theorem Original.aside (h : Original s) (later : List Event) (htrace : s'.trace = later ++ s.trace)
    (hlater : ∀ e ∈ later, notBuilt e = true) (hsent : s'.sentPackets = s.sentPackets) :
    Original s' := by
  refine h.grow later htrace hlater fun sp p hp f hf => ?_
  rw [hsent] at hp
  exact ⟨p, hp, hf⟩

theorem Original.same (h : Original s) (htrace : s'.trace = s.trace)
    (hsent : s'.sentPackets = s.sentPackets) : Original s' :=
  h.aside [] htrace (fun _ he => absurd he not_mem_nil) hsent

theorem Original.log (h : Original s) {e : Event} (he : notBuilt e = true) : Original (s.log e) :=
  h.aside [e] rfl (fun _ hmem => by rw [mem_singleton.mp hmem]; exact he) rfl

/-- A loop whose body keeps a property keeps it. -/
theorem foldl_original {α : Type} {f : QuicConnection K → α → QuicConnection K}
    (hf : ∀ s a, Original s → Original (f s a)) (as : List α) (h : Original s) :
    Original (as.foldl f s) := by
  induction as generalizing s with
  | nil => exact h
  | cons a as ih => exact ih (hf s a h)

/-! ## Sending -/

theorem notifyOutbound_original (h : Original s) : Original (notifyOutbound env s) := by
  obtain ⟨calls, pending, held, sent, returned, heq⟩ := notifyOutbound_spec env s
  rw [heq]
  refine h.aside (returned.map .returned) rfl ?_ rfl
  intro e he
  obtain ⟨n, -, rfl⟩ := mem_map.mp he
  rfl

/-- A packet enters `sent_packets_`; `hframes` looks at the history after it, and what is
    sent for the first time with it is among its frames. -/
theorem track_original (h : Original s) {sp : PnSpace} {pn : Nat} {frames : List Frame}
    {p : SentPacket} (hp : p.retransmittableFrames = frames)
    (hsent : s'.sentPackets = Function.update s.sentPackets sp (s.sentPackets sp ++ [p]))
    (before after : List Event)
    (htrace : s'.trace = after ++ .packetized sp pn frames :: (before ++ s.trace))
    (hbefore : ∀ e ∈ before, notBuilt e = true)
    (hafter : ∀ e ∈ after, notBuilt e = true ∨ ∃ sf, .stream sf ∈ frames ∧ e = firstOf sf)
    (hframes : ∀ f ∈ frames, FirstSent s'.trace f) : Original s' := by
  have hsub : s.trace ⊆ s'.trace := by
    rw [htrace]
    intro e he
    exact mem_append_right _ (mem_cons_of_mem _ (mem_append_right _ he))
  constructor
  case built =>
    intro sp' pn' frames' hbuilt f hf
    rw [htrace] at hbuilt
    rcases mem_append.mp hbuilt with hnew | hbuilt
    · rcases hafter _ hnew with hother | ⟨sf, -, heq⟩
      · exact nomatch hother
      · exact nomatch heq
    rcases mem_cons.mp hbuilt with heq | hbuilt
    · cases heq
      exact hframes f hf
    rcases mem_append.mp hbuilt with hnew | hold
    · exact nomatch hbefore _ hnew
    · exact (h.built sp' pn' frames' hold f hf).mono hsub
  case held =>
    intro sp' q hq f hf
    rw [hsent] at hq
    by_cases hsp : sp' = sp
    · subst hsp
      rw [Function.update_self] at hq
      rcases mem_append.mp hq with hold | hnew
      · exact (h.held sp' q hold f hf).mono hsub
      · rw [mem_singleton.mp hnew, hp] at hf
        exact hframes f hf
    · rw [Function.update_of_ne hsp] at hq
      exact (h.held sp' q hq f hf).mono hsub
  case sent =>
    intro sid offset data fin hs
    have hpkt : .packetized sp pn frames ∈ s'.trace := by
      rw [htrace]
      exact mem_append_right _ mem_cons_self
    rw [htrace] at hs
    rcases mem_append.mp hs with hnew | hs
    · rcases hafter _ hnew with hother | ⟨sf, hf, heq⟩
      · exact nomatch hother
      · exact ⟨sf, ⟨sp, pn, frames, hpkt, hf⟩, heq.symm⟩
    rcases mem_cons.mp hs with heq | hs
    · exact nomatch heq
    rcases mem_append.mp hs with hnew | hold
    · exact nomatch hbefore _ hnew
    · obtain ⟨sf, hold, heq⟩ := h.sent sid offset data fin hold
      exact ⟨sf, hold.mono hsub, heq⟩

/-- A packet whose frames were all sent before, or are no STREAM frames. -/
theorem sendTracked_original (h : Original s) (slot : KeySlot) (hdr : PacketHeader)
    (payload : Bytes) {frames : List Frame} (hframes : ∀ f ∈ frames, FirstSent s.trace f) :
    Original (sendTracked env s slot hdr payload frames).1 := by
  unfold sendTracked sealPacket
  cases protectPacket env.toCryptoOps (s.localKeys slot) hdr payload with
  | none => exact h.log rfl
  | some packet =>
    refine track_original h
      (p := SentPacket.ofFrames hdr.packetNumber packet.length hdr.type frames
        (env.clock s.clockReads)) rfl rfl
      [.sealed slot (s.generation slot) hdr.packetNumber]
      [.transmitted (spaceIndex hdr.type) hdr.packetNumber, .appended false] rfl ?_ ?_ ?_
    · intro e he
      rw [mem_singleton.mp he]
      rfl
    · intro e he
      rcases mem_cons.mp he with rfl | he
      · exact .inl rfl
      · rw [mem_singleton.mp he]
        exact .inl rfl
    · intro f hf
      exact (hframes f hf).mono (by
        intro e he
        exact mem_cons_of_mem _ (mem_cons_of_mem _ (mem_cons_of_mem _
          (mem_cons_of_mem _ he))))

theorem sendIfKeys_original (h : Original s) (slot : Option KeySlot) (hdr : PacketHeader)
    (payload : Bytes) {frames : List Frame} (hframes : ∀ f ∈ frames, FirstSent s.trace f) :
    Original (sendIfKeys env s slot hdr payload frames) := by
  unfold sendIfKeys
  split
  · exact h
  · split_ifs
    · exact sendTracked_original h _ hdr payload hframes
    · exact h

theorem sealAndPush_original (h : Original s) (slot : KeySlot) (hdr : PacketHeader)
    (payload : Bytes) (close : Bool) : Original (sealAndPush env s slot hdr payload close) := by
  unfold sealAndPush sealPacket
  cases protectPacket env.toCryptoOps (s.localKeys slot) hdr payload with
  | none => exact h.log rfl
  | some packet =>
    refine h.aside [.transmitted (spaceIndex hdr.type) hdr.packetNumber, .appended close,
      .sealed slot (s.generation slot) hdr.packetNumber] rfl ?_ rfl
    intro e he
    simp only [mem_cons, not_mem_nil, or_false] at he
    rcases he with rfl | rfl | rfl <;> rfl

/-- A frame that is no STREAM frame. -/
theorem firstSent_single {events : List Event} {f : Frame} (hf : FirstSent events f) :
    ∀ g ∈ [f], FirstSent events g := by
  intro g hg
  rw [mem_singleton.mp hg]
  exact hf

theorem sendDatagram_original (h : Original s) (payload : Bytes) :
    Original (sendDatagram env s payload).1 := by
  unfold sendDatagram
  split_ifs
  · exact h
  · exact h
  · split
    · exact h
    next slot _ =>
      simp only
      have hpn : Original (s.allocateNextPn .oneRtt).2 := h.same rfl rfl
      have hsent : Original (sendTracked env _ _ _ _ _).1 := sendTracked_original hpn slot
        (shortHeader (s.allocateNextPn .oneRtt).2 (s.allocateNextPn .oneRtt).1)
        (serializeFrame (.datagram payload)) (firstSent_single (f := .datagram payload) trivial)
      split
      next heq =>
        rw [heq] at hsent
        exact hsent
      next heq =>
        rw [heq] at hsent
        exact notifyOutbound_original hsent

theorem piggybackAck_original (h : Original s) (sp : PnSpace) (due : Bool) :
    Original (piggybackAck s sp due).2 := by
  unfold piggybackAck
  split_ifs
  · exact h.same rfl rfl
  · exact h

theorem queueCryptoChunk_original (h : Original s) (chunk : Bytes) :
    Original (queueCryptoChunk env s chunk) := by
  unfold queueCryptoChunk
  simp only
  split_ifs
  all_goals
    refine sendIfKeys_original (piggybackAck_original ?_ _ _) _ _ _
      (firstSent_single (f := .crypto _) trivial)
    exact h.same rfl rfl

theorem queueCryptoLoop_original (fuel : Nat) (h : Original s) (data : Bytes) :
    Original (queueCryptoLoop env fuel s data) := by
  induction fuel generalizing s data with
  | zero => exact h
  | succ fuel ih =>
    rw [queueCryptoLoop]
    split_ifs
    · exact h
    · exact ih (queueCryptoChunk_original h _) _

theorem queueCryptoFrame_original (h : Original s) (data : Bytes) :
    Original (queueCryptoFrame env s data) := by
  refine notifyOutbound_original ?_
  split_ifs
  · exact queueCryptoChunk_original h _
  · exact queueCryptoLoop_original _ h data

theorem sendAckForSpace_original (h : Original s) (type : PacketType) :
    Original (sendAckForSpace env s type) := by
  unfold sendAckForSpace
  split_ifs
  · simp only
    have hpn : Original (s.allocateNextPn type).2 := h.same rfl rfl
    generalize ackHeader (s.allocateNextPn type).2 type (s.allocateNextPn type).1 = chosen
    obtain ⟨hdr, slot⟩ := chosen
    cases slot with
    | none => exact hpn
    | some slot =>
      simp only [sendAckPacket]
      split
      · exact notifyOutbound_original (sealAndPush_original (piggybackAck_original hpn _ _) _ _ _ _)
      · exact hpn
  · exact h

/-! ## Streams -/

/-- A packet with the next STREAM frame of a stream, together with its entry in the history. -/
theorem sendNext_original (h : Original s) (slot : KeySlot) (hdr : PacketHeader)
    (payload : Bytes) (sf : StreamFrame) {s' : QuicConnection K} {ok : Bool}
    (hsend : sendTracked env s slot hdr payload [.stream sf] = (s', ok)) :
    if ok = true then Original (advanceStream s' sf) else Original s' := by
  unfold sendTracked sealPacket at hsend
  cases hp : protectPacket env.toCryptoOps (s.localKeys slot) hdr payload with
  | none =>
    rw [hp] at hsend
    cases hsend
    exact h.log rfl
  | some packet =>
    rw [hp] at hsend
    cases hsend
    refine track_original h
      (p := SentPacket.ofFrames hdr.packetNumber packet.length hdr.type [.stream sf]
        (env.clock s.clockReads)) rfl rfl
      [.sealed slot (s.generation slot) hdr.packetNumber]
      [.streamSent sf.streamId sf.offset sf.data sf.fin,
        .transmitted (spaceIndex hdr.type) hdr.packetNumber, .appended false] rfl ?_ ?_ ?_
    · intro e he
      rw [mem_singleton.mp he]
      rfl
    · intro e he
      simp only [mem_cons, not_mem_nil, or_false] at he
      rcases he with rfl | rfl | rfl
      · exact .inr ⟨sf, mem_cons_self, rfl⟩
      · exact .inl rfl
      · exact .inl rfl
    · exact firstSent_single (f := .stream sf) mem_cons_self

theorem flushStreamLoop_original (slot : KeySlot) (fuel : Nat) (h : Original s) (sid : Nat) :
    Original (flushStreamLoop env slot fuel s sid) := by
  induction fuel generalizing s with
  | zero => exact h
  | succ fuel ih =>
    rw [flushStreamLoop]
    simp only
    by_cases hsome : ((s.streamSendQueues sid).isEmpty && !s.streamSendFin sid) = true
    · rw [if_pos hsome]
      exact h
    rw [if_neg hsome]
    by_cases hcredit :
        (decide (chunkLen s sid = 0) && !(s.streamSendQueues sid).isEmpty) = true
    · rw [if_pos hcredit]
      exact h
    rw [if_neg hcredit]
    rcases hres : sendTracked env (s.allocateNextPn .oneRtt).2 slot
      (shortHeader (s.allocateNextPn .oneRtt).2 (s.allocateNextPn .oneRtt).1)
      (serializeFrame (.stream (nextStreamFrame s sid)))
      [.stream (nextStreamFrame s sid)] with ⟨s', ok⟩
    have hpn : Original (s.allocateNextPn .oneRtt).2 := h.same rfl rfl
    have hsent := sendNext_original hpn slot _ _ (nextStreamFrame s sid) hres
    cases ok with
    | false => exact hsent
    | true =>
      rw [if_pos rfl] at hsent
      simp only
      split_ifs
      · exact hsent
      · exact ih hsent

theorem flushStream_original (h : Original s) (slot : KeySlot) (sid : Nat) :
    Original (flushStream env slot s sid) := by
  have hloop : Original (flushStreamLoop env slot ((s.streamSendQueues sid).length + 1) s sid) :=
    flushStreamLoop_original slot _ h sid
  unfold flushStream
  simp only
  split_ifs
  · exact hloop.aside [_] rfl (fun e he => by rw [mem_singleton.mp he]; rfl) rfl
  · exact hloop

theorem flushStreamSendQueues_original (h : Original s) :
    Original (flushStreamSendQueues env s) := by
  unfold flushStreamSendQueues
  split_ifs
  · exact h
  · split
    · exact h
    · exact foldl_original (fun _ sid hs => flushStream_original hs _ sid) _ h

theorem queueStreamData_original (h : Original s) (sid : Nat) (data : Bytes) (fin : Bool) :
    Original (queueStreamData env s sid data fin) := by
  refine notifyOutbound_original (flushStreamSendQueues_original ?_)
  unfold enqueueStreamData
  simp only
  split
  · exact h.same rfl rfl
  · exact h.aside [.accepted sid data fin] rfl
      (fun e he => by rw [mem_singleton.mp he]; rfl) rfl

theorem finishStream_original (h : Original s) (i : Nat) : Original (finishStream env s i) := by
  have hset (st : QuicStream) : Original (s.setObject i st) := h.same rfl rfl
  unfold finishStream
  simp only
  split_ifs
  · exact hset _
  · exact queueStreamData_original (hset _) _ _ _

theorem closeStreamLoop_original (fuel : Nat) (h : Original s) (sid : Nat) :
    Original (closeStreamLoop env fuel s sid) := by
  induction fuel generalizing s sid with
  | zero => exact h
  | succ fuel ih =>
    rw [closeStreamLoop]
    split
    · exact h
    · have herase : Original (s.eraseStream sid) := h.same rfl rfl
      have hflush : Original (flushStreamSendQueues env (s.eraseStream sid)) :=
        flushStreamSendQueues_original herase
      simp only
      split_ifs
      · exact ih (finishStream_original hflush _) _
      · exact hflush

theorem closeStream_original (h : Original s) (sid : Nat) : Original (closeStream env s sid) :=
  closeStreamLoop_original _ h sid

theorem streamClose_original (h : Original s) (i : Nat) : Original (streamClose env s i) := by
  unfold streamClose
  split_ifs
  · exact closeStream_original (finishStream_original h i) _
  · exact h

theorem notifyFinishedIfNeeded_original (h : Original s) (i : Nat) :
    Original (notifyFinishedIfNeeded env s i) := by
  unfold notifyFinishedIfNeeded
  split_ifs
  · exact closeStream_original h _
  · exact h

theorem streamShutdown_original (h : Original s) (i : Nat) (send receive : Bool) :
    Original (streamShutdown env s i send receive) := by
  have hset (st : QuicStream) : Original (s.setObject i st) := h.same rfl rfl
  refine notifyFinishedIfNeeded_original ?_ i
  split_ifs
  · exact queueStreamData_original (hset _) _ _ _
  · exact hset _

theorem writeOutbound_original (h : Original s) (i : Nat) (data : Bytes) (fin : Bool) :
    Original (writeOutbound env s i data fin) := by
  have hset (st : QuicStream) : Original (s.setObject i st) := h.same rfl rfl
  unfold writeOutbound
  cases fin with
  | false => exact queueStreamData_original h _ _ _
  | true => exact notifyFinishedIfNeeded_original (queueStreamData_original (hset _) _ _ _) i

theorem streamPushInbound_original (h : Original s) (i offset : Nat) (data : Bytes)
    (fin : Bool) : Original (streamPushInbound env s i offset data fin) := by
  have hset (st : QuicStream) : Original (s.setObject i st) := h.same rfl rfl
  unfold streamPushInbound
  simp only
  split_ifs
  · exact notifyFinishedIfNeeded_original (hset _) i
  · exact hset _

/-! ## Retransmission and closing -/

/-- A frame that was sent before is sent again. -/
theorem retransmitFrame_original (h : Original s) {frame : Frame}
    (hframe : FirstSent s.trace frame) (type : PacketType) :
    Original (retransmitFrame env s frame type) := by
  have hpn (sp : PacketType) : Original (s.allocateNextPn sp).2 := h.same rfl rfl
  unfold retransmitFrame
  cases frame with
  | crypto cf =>
    cases type with
    | initial | handshake =>
      exact sendIfKeys_original (hpn _) _ _ _ (firstSent_single (f := .crypto cf) trivial)
    | _ =>
      simp only
      split
      · exact h
      · exact sendIfKeys_original (hpn _) _ _ _ (firstSent_single (f := .crypto cf) trivial)
  | stream sf =>
    simp only
    split
    · exact h
    · exact sendTracked_original (hpn _) _ _ _ (firstSent_single (f := .stream sf) hframe)
  | handshakeDone =>
    simp only
    split
    · exact hpn _
    · exact sendTracked_original (hpn _) _ _ _ (firstSent_single (f := .handshakeDone) trivial)
  | _ => exact h

theorem sendTracked_trace (s : QuicConnection K) (slot : KeySlot) (hdr : PacketHeader)
    (payload : Bytes) (frames : List Frame) :
    s.trace ⊆ (sendTracked env s slot hdr payload frames).1.trace := by
  unfold sendTracked sealPacket
  cases protectPacket env.toCryptoOps (s.localKeys slot) hdr payload with
  | none => exact subset_cons_self _ _
  | some packet =>
    intro e he
    exact mem_cons_of_mem _ (mem_cons_of_mem _ (mem_cons_of_mem _
      (mem_cons_of_mem _ he)))

theorem sendIfKeys_trace (s : QuicConnection K) (slot : Option KeySlot) (hdr : PacketHeader)
    (payload : Bytes) (frames : List Frame) :
    s.trace ⊆ (sendIfKeys env s slot hdr payload frames).trace := by
  unfold sendIfKeys
  split
  · exact List.Subset.refl _
  · split_ifs
    · exact sendTracked_trace s _ hdr payload frames
    · exact List.Subset.refl _

theorem retransmitFrame_trace (s : QuicConnection K) (frame : Frame) (type : PacketType) :
    s.trace ⊆ (retransmitFrame env s frame type).trace := by
  unfold retransmitFrame
  cases frame with
  | crypto cf =>
    cases type with
    | initial => exact sendIfKeys_trace (s.allocateNextPn .initial).2 _ _ _ _
    | handshake => exact sendIfKeys_trace (s.allocateNextPn .handshake).2 _ _ _ _
    | _ =>
      simp only
      split
      · exact List.Subset.refl _
      · exact sendIfKeys_trace (s.allocateNextPn .oneRtt).2 _ _ _ _
  | stream sf =>
    simp only
    split
    · exact List.Subset.refl _
    · exact sendTracked_trace (s.allocateNextPn .oneRtt).2 _ _ _ _
  | handshakeDone =>
    simp only
    split
    · exact List.Subset.refl s.trace
    · exact sendTracked_trace (s.allocateNextPn .oneRtt).2 _ _ _ _
  | _ => exact List.Subset.refl _

theorem retransmitAll_original {frames : List (Frame × PacketType)} (h : Original s)
    (hframes : ∀ fp ∈ frames, FirstSent s.trace fp.1) : Original (retransmitAll env s frames) := by
  unfold retransmitAll
  induction frames generalizing s with
  | nil => exact h
  | cons fp frames ih =>
    refine ih (retransmitFrame_original h (hframes fp mem_cons_self) fp.2) ?_
    intro fp' hfp'
    exact (hframes fp' (mem_cons_of_mem _ hfp')).mono (retransmitFrame_trace s fp.1 fp.2)

theorem sendHandshakeDone_original (h : Original s) : Original (sendHandshakeDone env s) := by
  unfold sendHandshakeDone
  split_ifs
  · exact h
  · split
    · exact h
    next slot _ =>
      refine sendTracked_original ?_ slot _ _ (firstSent_single (f := .handshakeDone) trivial)
      exact h.same rfl rfl

theorem sendConnectionClose_original (h : Original s) (err : Nat) (reason : Bytes) :
    Original (sendConnectionClose env s err reason) := by
  have hpn (type : PacketType) : Original (s.allocateNextPn type).2 := h.same rfl rfl
  unfold sendConnectionClose
  simp only
  split
  · exact sealAndPush_original (hpn _) _ _ _ _
  · exact hpn _

theorem terminate_original (h : Original s) (sendClose : Bool) (err : Nat) (reason : Bytes) :
    Original (terminate env s sendClose err reason) := by
  have hclosed : Original (markClosed s) :=
    h.aside [_] rfl (fun e he => by rw [mem_singleton.mp he]; rfl) rfl
  have hrest {s' : QuicConnection K} (hs' : Original s') (hs : List Nat) :
      Original (hs.foldl (streamClose env) (clearStreams s')) :=
    foldl_original (fun _ i hi => streamClose_original hi i) hs (hs'.same rfl rfl)
  unfold terminate
  by_cases hstate : s.state = .closed
  · rw [if_pos hstate]
    exact h
  rw [if_neg hstate]
  cases sendClose with
  | false => exact hrest hclosed _
  | true =>
    exact notifyOutbound_original (hrest (sendConnectionClose_original hclosed err reason) _)

theorem close_original (h : Original s) (err : Nat) (reason : Bytes) :
    Original (close env s err reason) :=
  terminate_original h true err reason

/-! ## Acknowledgements, loss and timeouts -/

theorem framesOf_firstSent {events : List Event} {pkts : List SentPacket}
    (h : ∀ p ∈ pkts, ∀ f ∈ p.retransmittableFrames, FirstSent events f) :
    ∀ fp ∈ framesOf pkts, FirstSent events fp.1 := by
  intro fp hfp
  obtain ⟨p, hp, hfp⟩ := mem_flatMap.mp hfp
  obtain ⟨f, hf, rfl⟩ := mem_map.mp hfp
  exact h p hp f hf

/-- Fewer packets are held in one space. -/
theorem held_fewer {sent : PnSpace → List SentPacket} {sp : PnSpace} {pkts : List SentPacket}
    (hpkts : ∀ p ∈ pkts, ∀ f ∈ p.retransmittableFrames,
      ∃ p₀ ∈ sent sp, f ∈ p₀.retransmittableFrames) :
    ∀ sp', ∀ p ∈ Function.update sent sp pkts sp', ∀ f ∈ p.retransmittableFrames,
      ∃ p₀ ∈ sent sp', f ∈ p₀.retransmittableFrames := by
  intro sp' p hp f hf
  by_cases hsp : sp' = sp
  · subst hsp
    rw [Function.update_self] at hp
    exact hpkts p hp f hf
  · rw [Function.update_of_ne hsp] at hp
    exact ⟨p, hp, hf⟩

theorem held_filter {sent : PnSpace → List SentPacket} {sp : PnSpace} (q : SentPacket → Bool) :
    ∀ p ∈ (sent sp).filter q, ∀ f ∈ p.retransmittableFrames,
      ∃ p₀ ∈ sent sp, f ∈ p₀.retransmittableFrames :=
  fun p hp _ hf => ⟨p, mem_of_mem_filter hp, hf⟩

theorem detectLostPackets_original (h : Original s) (sp : PnSpace) (largestAcked : Nat) :
    Original (detectLostPackets env s sp largestAcked) := by
  unfold detectLostPackets
  split_ifs
  · exact h
  · simp only
    generalize isLost _ _ _ = lost
    have hremoved : Original (removeLost (steadyNow env s).2 sp (steadyNow env s).1 lost) := by
      refine h.grow _ rfl ?_ (held_fewer (held_filter fun p => !lost p))
      intro e he
      obtain ⟨p, -, rfl⟩ := mem_map.mp (mem_reverse.mp he)
      rfl
    refine retransmitAll_original hremoved (framesOf_firstSent fun p hp f hf => ?_)
    refine (h.held sp p (mem_of_mem_filter hp) f hf).mono ?_
    exact subset_append_right _ _

theorem onAckReceived_original (h : Original s) (type : PacketType) (ack : AckFrame) :
    Original (onAckReceived env s type ack) := by
  unfold onAckReceived
  simp only
  split
  · exact h
  · generalize hs₁ : removeAcked _ _ ack _ = s₁
    have hremoved : Original s₁ := by
      rw [← hs₁]
      refine h.grow [_] rfl ?_ (held_fewer (held_filter _))
      intro e he
      rw [mem_singleton.mp he]
      rfl
    split
    · refine flushStreamSendQueues_original (detectLostPackets_original ?_ _ _)
      exact hremoved.aside [_] rfl (fun e he => by rw [mem_singleton.mp he]; rfl) rfl
    · exact hremoved

theorem takeFirstFrames_held (pkts : List SentPacket) :
    (∀ p ∈ (takeFirstFrames pkts).2, ∀ f ∈ p.retransmittableFrames,
      ∃ p₀ ∈ pkts, f ∈ p₀.retransmittableFrames) ∧
    ∀ fp ∈ (takeFirstFrames pkts).1, ∃ p ∈ pkts, fp.1 ∈ p.retransmittableFrames := by
  induction pkts with
  | nil => exact ⟨fun _ hp => absurd hp not_mem_nil, fun _ hp => absurd hp not_mem_nil⟩
  | cons q pkts ih =>
    rw [takeFirstFrames]
    split_ifs
    · obtain ⟨hleft, htaken⟩ := ih
      constructor
      · intro p hp f hf
        rcases mem_cons.mp hp with rfl | hp
        · exact ⟨p, mem_cons_self, hf⟩
        · obtain ⟨p₀, hp₀, hf₀⟩ := hleft p hp f hf
          exact ⟨p₀, mem_cons_of_mem _ hp₀, hf₀⟩
      · intro fp hfp
        obtain ⟨p, hp, hf⟩ := htaken fp hfp
        exact ⟨p, mem_cons_of_mem _ hp, hf⟩
    · constructor
      · intro p hp f hf
        rcases mem_cons.mp hp with rfl | hp
        · exact absurd hf not_mem_nil
        · exact ⟨p, mem_cons_of_mem _ hp, hf⟩
      · intro fp hfp
        obtain ⟨f, hf, rfl⟩ := mem_map.mp hfp
        exact ⟨q, mem_cons_self, hf⟩

theorem takeProbeFrames_original (h : Original s) (sps : List PnSpace) :
    Original (takeProbeFrames s sps).2 ∧
      ∀ fp ∈ (takeProbeFrames s sps).1, FirstSent (takeProbeFrames s sps).2.trace fp.1 := by
  induction sps with
  | nil => exact ⟨h, fun _ hp => absurd hp not_mem_nil⟩
  | cons sp sps ih =>
    obtain ⟨hleft, htaken⟩ := takeFirstFrames_held (s.sentPackets sp)
    rw [takeProbeFrames]
    rcases hres : takeFirstFrames (s.sentPackets sp) with ⟨frames, pkts⟩
    rw [hres] at hleft htaken
    cases frames with
    | nil => exact ih
    | cons fp frames =>
      constructor
      · exact h.grow [] rfl (fun _ he => absurd he not_mem_nil) (held_fewer hleft)
      · intro fp' hfp'
        obtain ⟨p, hp, hf⟩ := htaken fp' hfp'
        exact h.held sp p hp _ hf

theorem onLossDetectionTimeout_original (h : Original s) :
    Original (onLossDetectionTimeout env s) := by
  unfold onLossDetectionTimeout
  split_ifs
  · exact h
  · obtain ⟨hleft, htaken⟩ := takeProbeFrames_original h [.initial, .handshake, .application]
    have hagain : Original (retransmitAll env _ _) := retransmitAll_original hleft htaken
    exact notifyOutbound_original (hagain.same rfl rfl)

/-! ## The frames of a packet -/

theorem createPeerStream_original (h : Original s) (sid : Nat) (unseen : List Nat)
    (nextIdx : Nat) : Original (createPeerStream s sid unseen nextIdx).2 := by
  unfold createPeerStream
  simp only
  split_ifs
  · exact h.aside [_, _] rfl (by simp [notBuilt]) rfl
  · exact h.aside [_] rfl (by simp [notBuilt]) rfl
  · exact h.aside [_] rfl (by simp [notBuilt]) rfl

theorem processFrame_original (h : Original s) (type : PacketType) (created : List Nat)
    (f : Frame) : Original (processFrame env type s created f).1 := by
  have hseen : Original (s.log (.frameSeen f)) := h.log rfl
  unfold processFrame
  cases f with
  | datagram data =>
    simp only [processDatagramFrame]
    split_ifs
    · exact close_original hseen _ _
    · exact hseen.same rfl rfl
    · exact hseen
  | ack ack => exact onAckReceived_original hseen type ack
  | stream sf =>
    simp only [processStreamFrame]
    split
    · exact close_original hseen _ _
    · exact hseen
    · exact streamPushInbound_original hseen _ _ _ _
    · exact streamPushInbound_original (createPeerStream_original hseen _ _ _) _ _ _ _
  | maxData v =>
    have hcredit : Original ((s.log (.frameSeen (.maxData v))).log (.creditData v)) := hseen.log rfl
    simp only
    split
    · exact flushStreamSendQueues_original (hcredit.same rfl rfl)
    · exact hcredit
  | maxStreamData sid v =>
    have hcredit : Original ((s.log (.frameSeen (.maxStreamData sid v))).log
        (.creditStream sid v)) := hseen.log rfl
    simp only
    split
    · exact flushStreamSendQueues_original (hcredit.same rfl rfl)
    · exact hcredit
  | resetStream sid _ _ =>
    simp only [closeNamedStream]
    split
    · exact streamClose_original hseen _
    · exact hseen
  | stopSending sid _ =>
    simp only [closeNamedStream]
    split
    · exact streamClose_original hseen _
    · exact hseen
  | connectionClose _ => exact terminate_original hseen _ _ _
  | _ => exact hseen

theorem processFrames_original (h : Original s) (type : PacketType) (created : List Nat)
    (frames : List Frame) : Original (processFrames env type s created frames).1 := by
  induction frames generalizing s created with
  | nil => exact h
  | cons f rest ih => exact ih (processFrame_original h type created f) _

/-! ## Streams opened locally, and the TLS engine -/

theorem createStream_original (h : Original s) (bidirectional : Bool) :
    Original (createStream s bidirectional).2 := by
  unfold createStream
  cases bidirectional with
  | false => exact h.aside [_] rfl (by simp [notBuilt]) rfl
  | true => exact h.aside [_] rfl (by simp [notBuilt]) rfl

theorem getOrCreateStream_original (h : Original s) (sid : Nat) :
    Original (getOrCreateStream s sid) := by
  unfold getOrCreateStream
  split
  · exact h
  · exact h.aside [_] rfl (by simp [notBuilt]) rfl

theorem openAndWrite_original (h : Original s) (data : Bytes) :
    Original (openAndWrite env s data) :=
  queueStreamData_original (createStream_original h false) _ _ _

theorem initializeHttp3Session_original (h : Original s) :
    Original (initializeHttp3Session env s) := by
  unfold initializeHttp3Session
  split_ifs
  · exact h
  · refine flushStreamSendQueues_original (openAndWrite_original (openAndWrite_original
      (openAndWrite_original ?_ _) _) _)
    exact h.same rfl rfl

theorem onTlsSecret_original (h : Original s) (level : Nat) (write : Bool) (secret : Bytes) :
    Original (onTlsSecret env s level write secret) := by
  unfold onTlsSecret
  simp only
  split
  · exact h
  · split_ifs <;> exact h.same rfl rfl

theorem tlsCallback_original (h : Original s) (cb : TlsCallback) :
    Original (tlsCallback env s cb) := by
  unfold tlsCallback
  cases cb with
  | cryptoSend data =>
    simp only
    split_ifs
    · exact h
    · exact queueCryptoFrame_original h data
  | yieldSecret level write secret => exact onTlsSecret_original h level write secret
  | _ => exact h.same rfl rfl

/-- The engine, when what it does with the buffered packets keeps the property. -/
theorem runTlsEngine_original {drain : QuicConnection K → QuicConnection K}
    (hdrain : ∀ s, Original s → Original (drain s)) (h : Original s) :
    Original (runTlsEngine env drain s) := by
  unfold runTlsEngine
  split
  · exact h
  · simp only
    have hcalls : Original ((env.tls s.tlsCalls).callbacks.foldl (tlsCallback env)
        { s with tlsCalls := s.tlsCalls + 1 }) :=
      foldl_original (fun _ cb hs => tlsCallback_original hs cb) _ (h.same rfl rfl)
    split
    · exact notifyOutbound_original (hdrain _ hcalls)
    · exact close_original hcalls _ _
    · split
      · exact hcalls
      · refine notifyOutbound_original ?_
        have hdone := hdrain { (env.tls s.tlsCalls).callbacks.foldl (tlsCallback env)
          { s with tlsCalls := s.tlsCalls + 1 } with handshakeDone := true, state := .connected }
          (hcalls.same rfl rfl)
        have hflush : Original (flushStreamSendQueues env _) :=
          flushStreamSendQueues_original (hdone.log (e := .handshakeResumed) rfl)
        split
        · exact initializeHttp3Session_original (sendHandshakeDone_original hflush)
        · exact hflush

/-! ## Packets and datagrams -/

theorem insertCrypto_original (level : Nat) (h : Original s) (frames : List Frame) :
    Original (insertCrypto level s frames).1 := by
  induction frames generalizing s with
  | nil => exact h
  | cons f rest ih =>
    cases f with
    | crypto cf =>
      rw [insertCrypto]
      split
      · exact h
      · exact ih (h.same rfl rfl)
    | _ => exact ih h

theorem admitFrames_original (h : Original s) (hdr : PacketHeader) (frames : List Frame) :
    match admitFrames s hdr frames with
    | .error refused => Original refused.1
    | .ok s' => Original s' := by
  unfold admitFrames
  split
  next hres =>
    split at hres
    · cases hres
      exact h
    · simp only at hres
      generalize hst : (if s.tlsInitialized then
        insertCrypto (reassemblerForType hdr.type) s frames else (s, true)) = stored at hres
      obtain ⟨s₁, ok⟩ := stored
      have hstored : Original s₁ := by
        split at hst
        · have hins := insertCrypto_original (reassemblerForType hdr.type) h frames
          rw [hst] at hins
          exact hins
        · cases hst
          exact h
      cases ok with
      | false =>
        cases hres
        exact hstored
      | true => exact nomatch hres
  next hres =>
    split at hres
    · exact nomatch hres
    · simp only at hres
      generalize hst : (if s.tlsInitialized then
        insertCrypto (reassemblerForType hdr.type) s frames else (s, true)) = stored at hres
      obtain ⟨s₁, ok⟩ := stored
      have hstored : Original s₁ := by
        split at hst
        · have hins := insertCrypto_original (reassemblerForType hdr.type) h frames
          rw [hst] at hins
          exact hins
        · cases hst
          exact h
      cases ok with
      | false => exact nomatch hres
      | true =>
        cases hres
        exact hstored.same rfl rfl

theorem setPeerKeys_original (h : Original s) (choice : KeyChoice) (keys : ProtectionKeys K) :
    Original (setPeerKeys s choice keys) := by
  unfold setPeerKeys
  split <;> exact h.same rfl rfl

theorem followKeyPhase_original (h : Original s) : Original (followKeyPhase env s) := by
  unfold followKeyPhase
  split
  · simp only
    split
    · split <;> exact h.same rfl rfl
    · exact h.same rfl rfl
  · exact h

theorem noteOpened_original (h : Original s) (hdr : PacketHeader) :
    Original (noteOpened env s hdr) := by
  unfold noteOpened
  split_ifs
  · split
    · simp only
      split_ifs <;> exact h.same rfl rfl
    · simp only
      split_ifs <;> exact h.same rfl rfl
    · exact h
  · exact followKeyPhase_original (h.same rfl rfl)

theorem pollOutgoingDatagrams_original (h : Original s) :
    Original (pollOutgoingDatagrams s).1 := by
  unfold pollOutgoingDatagrams
  simp only
  split
  · obtain ⟨⟨held, heq⟩, -⟩ := releaseReady_spec
      { s with pendingOutboundDatagrams := [], amplificationHeldDatagrams := [] }
      (s.amplificationHeldDatagrams
        ++ coalesce s.maxDatagramSize [] false s.pendingOutboundDatagrams)
    rw [heq]
    refine Original.log ?_ rfl
    exact h.same rfl rfl
  · refine Original.log ?_ rfl
    exact h.same rfl rfl

theorem sendInitialHandshakeResponse_original (h : Original s) :
    Original (sendInitialHandshakeResponse env s) := by
  unfold sendInitialHandshakeResponse
  refine sendHandshakeDone_original (sealAndPush_original ?_ _ _ _ _)
  exact h.same rfl rfl

theorem sendAckIfDue_original (h : Original s) (type : PacketType) :
    Original (sendAckIfDue env s type) := by
  unfold sendAckIfDue
  split
  · exact sendAckForSpace_original h type
  · exact h

/-- Handing out what arrived builds no packet. -/
theorem deliver_original (h : Original s) (created : List Nat) :
    Original (deliver env s created) := by
  unfold deliver
  refine notifyOutbound_original (h.aside
    ((if s.onDatagram then s.receivedDatagrams.map Event.datagramDelivered else []).reverse
      ++ (if s.onStreamCreated then created.map Event.streamHanded else []).reverse)
    (append_assoc _ _ _).symm ?_ rfl)
  intro e he
  rcases mem_append.mp he with hdata | hhanded
  · rw [mem_reverse] at hdata
    split at hdata
    · obtain ⟨d, -, rfl⟩ := mem_map.mp hdata
      rfl
    · exact absurd hdata not_mem_nil
  · rw [mem_reverse] at hhanded
    split at hhanded
    · obtain ⟨sid, -, rfl⟩ := mem_map.mp hhanded
      rfl
    · exact absurd hhanded not_mem_nil

variable {drain : QuicConnection K → QuicConnection K}
  (hdrain : ∀ s, Original s → Original (drain s))

include hdrain

theorem handleFrames_original (h : Original s) (created : List Nat) (hdr : PacketHeader)
    (frames : List Frame) : Original (handleFrames env drain s created hdr frames).1 := by
  have hadmitted := admitFrames_original h hdr frames
  unfold handleFrames
  cases hres : admitFrames s hdr frames with
  | error refused =>
    rw [hres] at hadmitted
    exact close_original hadmitted _ _
  | ok s' =>
    rw [hres] at hadmitted
    simp only
    refine processFrames_original ?_ _ _ _
    split
    · exact runTlsEngine_original hdrain hadmitted
    · exact hadmitted

theorem handleOpenable_original (h : Original s) (created : List Nat) (hdr : PacketHeader)
    (packet : Bytes) (choice : KeyChoice) :
    Original (handleOpenable env drain s created hdr packet choice).1 := by
  unfold handleOpenable
  simp only
  split
  · exact h
  next keys opened plaintext _ =>
    have hkeys := setPeerKeys_original h choice keys
    split
    · exact hkeys
    · have hnoted : Original (noteOpened env _ opened) := noteOpened_original hkeys opened
      split
      · exact handleFrames_original hdrain hnoted _ _ _
      · exact close_original hnoted _ _

theorem handlePacket_original (h : Original s) (created : List Nat) (hdr : PacketHeader)
    (packet : Bytes) : Original (handlePacket env drain s created hdr packet).1 := by
  unfold handlePacket
  split
  · dsimp only
    split <;> exact h.same rfl rfl
  · dsimp only
    split <;> exact h.same rfl rfl
  · exact h
  · exact handleOpenable_original hdrain h _ _ _ _

theorem packetLoop_original (fuel : Nat) (h : Original s) (created : List Nat)
    (remaining : Bytes) : Original (packetLoop env drain fuel s created remaining).1 := by
  induction fuel generalizing s created remaining with
  | zero => exact h
  | succ fuel ih =>
    rw [packetLoop]
    split
    · exact h
    · split
      · exact h
      next hdr _ =>
        have hone : Original (handlePacket env drain _ _ _ _).1 :=
          handlePacket_original hdrain h created hdr (remaining.take (packetSize hdr remaining))
        simp only
        split
        next heq =>
          rw [heq] at hone
          exact hone
        next heq =>
          rw [heq] at hone
          exact ih hone _ _

theorem datagramTail_original (h : Original s) : Original (datagramTail env drain s) := by
  unfold datagramTail
  have hacks : Original (sendAckIfDue env (sendAckIfDue env (sendAckIfDue env s _) _) _) :=
    sendAckIfDue_original (sendAckIfDue_original (sendAckIfDue_original h .initial) .handshake)
      .oneRtt
  refine hdrain _ ?_
  split
  · exact (sendInitialHandshakeResponse_original hacks).same rfl rfl
  · exact hacks

theorem handleCounted_original (h : Original s) (datagram : Bytes) :
    Original (handleCounted env drain s datagram) := by
  unfold handleCounted
  have hloop : Original (packetLoop env drain _ _ _ _).1 :=
    packetLoop_original hdrain datagram.length h [] datagram
  split
  next heq =>
    rw [heq] at hloop
    exact hloop
  next heq =>
    rw [heq] at hloop
    exact deliver_original (datagramTail_original hdrain hloop) _

omit hdrain

theorem replayPacket_original (h : Original s) (packet : Bytes) :
    Original (replayPacket env s packet) := by
  unfold replayPacket
  refine handleCounted_original (fun _ hs => hs) (Original.log ?_ rfl) packet
  exact h.same rfl rfl

theorem drainLoop_original (fuel : Nat) (h : Original s) : Original (drainLoop env fuel s) := by
  induction fuel generalizing s with
  | zero => exact h
  | succ fuel ih =>
    rw [drainLoop]
    split
    · refine ih (replayPacket_original ?_ _)
      exact h.same rfl rfl
    · split
      · refine ih (replayPacket_original ?_ _)
        exact h.same rfl rfl
      · exact h

theorem drainBufferedPackets_original (h : Original s) :
    Original (drainBufferedPackets env s) := by
  unfold drainBufferedPackets
  split
  · exact h
  · have hstart : Original { s with drainingBufferedPackets := true } := h.same rfl rfl
    have hloop (fuel : Nat) : Original (drainLoop env fuel _) := drainLoop_original fuel hstart
    exact (hloop _).same rfl rfl

theorem handleDatagram_original (h : Original s) (datagram : Bytes) :
    Original (handleDatagram env s datagram) := by
  unfold handleDatagram
  refine handleCounted_original (fun _ hs => drainBufferedPackets_original hs)
    (Original.log ?_ rfl) datagram
  exact h.same rfl rfl

/-! ## Calls and runs -/

theorem initiateKeyUpdate_original (h : Original s) : Original (initiateKeyUpdate env s) := by
  unfold initiateKeyUpdate
  split
  · exact h
  · split
    · exact h
    · exact h.same rfl rfl

theorem initTlsHandshakeEngine_original (h : Original s) :
    Original (initTlsHandshakeEngine env s) := by
  unfold initTlsHandshakeEngine
  split
  · exact h
  · simp only
    split
    · exact h.same rfl rfl
    · exact runTlsEngine_original (fun _ hs => drainBufferedPackets_original hs) (h.same rfl rfl)

theorem acceptStream_original (h : Original s) : Original (acceptStream s) := by
  unfold acceptStream
  split
  · refine Original.log ?_ rfl
    exact h.same rfl rfl
  · exact h.same rfl rfl

theorem perform_original (h : Original s) (op : Op) : Original (perform env s op) := by
  cases op with
  | handleDatagram d => exact handleDatagram_original h d
  | pollOutgoingDatagrams => exact pollOutgoingDatagrams_original h
  | lossDetectionTimeout => exact onLossDetectionTimeout_original h
  | idleTimeout =>
    show Original (onIdleTimeout env s)
    unfold onIdleTimeout
    split
    · exact h
    · exact close_original h _ _
  | sendDatagram payload => exact sendDatagram_original h payload
  | createStream bidi => exact createStream_original h bidi
  | getOrCreateStream sid => exact getOrCreateStream_original h sid
  | acceptStream => exact acceptStream_original h
  | closeStream sid => exact closeStream_original h sid
  | queueStreamData sid data fin => exact queueStreamData_original h sid data fin
  | writeOutbound i data fin =>
    rw [perform]
    split
    · exact writeOutbound_original h i data fin
    · exact h
  | streamShutdown i send receive =>
    rw [perform]
    split
    · exact streamShutdown_original h i send receive
    · exact h
  | streamClose i =>
    rw [perform]
    split
    · exact streamClose_original h i
    · exact h
  | initiateKeyUpdate => exact initiateKeyUpdate_original h
  | runTlsEngine =>
    exact runTlsEngine_original (fun _ hs => drainBufferedPackets_original hs) h
  | close err reason => exact close_original h err reason

theorem applyOp_original (h : Original s) (op : Op) : Original (applyOp env s op) :=
  perform_original (h.log rfl) op

theorem conn_original (env : Env K) (start : Start) : Original (start.conn env) := by
  have hfresh : Original (start.configured env) :=
    { built := fun _ _ _ hp => absurd hp not_mem_nil
      held := fun _ _ hp => absurd hp not_mem_nil
      sent := fun _ _ _ _ hs => absurd hs not_mem_nil }
  unfold Start.conn
  split
  · exact initTlsHandshakeEngine_original hfresh
  · exact hfresh

/-- The packets of a connection after any calls. -/
theorem original_of_reachable {start : Start} (h : Reachable env start s) : Original s := by
  obtain ⟨ops, rfl⟩ := h
  exact foldl_original (fun _ op hs => applyOp_original hs op) ops (conn_original env start)

end QuicStreamFrames
