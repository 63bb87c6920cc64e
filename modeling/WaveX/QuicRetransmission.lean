import WaveX.QuicReceiveSimulation

/-! # No frame is lost for good

    CRYPTO, STREAM and HANDSHAKE_DONE frames move from packet to packet: loss
    detection takes them out of `sent_packets_` and sends them in new packets, a
    probe timeout does the same and leaves the emptied packet behind, and an
    acknowledgement can hit the old copy or a new one.  As long as sealing does not
    fail, such a frame is at every moment acknowledged or held by a packet in
    flight (`packetized_acked_or_held`).

    The invariant follows the frames through the moment in which they are in
    hand, and keeps with each of them that its packet type still has keys. -/

namespace QuicRetransmission

open QuicVarInt QuicFrames QuicPacket CongestionControl QuicState QuicSend QuicRuns QuicLedger List
open QuicSimulation

/-- A frame was in a packet that an ACK frame has acknowledged. -/
def Acked (events : List Event) (f : Frame) : Prop :=
  ∃ sp pn frames ranges, Event.packetized sp pn frames ∈ events ∧ f ∈ frames
    ∧ Event.acked sp ranges ∈ events ∧ isAcked ranges pn = true

/-- A frame is held by a packet in flight. -/
def Held (sent : PnSpace → List SentPacket) (f : Frame) : Prop :=
  ∃ sp, ∃ p ∈ sent sp, f ∈ p.retransmittableFrames

/-- A frame is acknowledged, held or in hand. -/
def Covered (l : Ledger) (f : Frame) : Prop :=
  Acked l.trace f ∨ Held l.sentPackets f ∨ ∃ type, (f, type) ∈ l.inHand

/-- Every frame that has to arrive is covered; the frames of a packet were
    packetized with it, and the frames that may have to be sent again have keys. -/
structure Conserved (l : Ledger) : Prop where
  covered : ∀ sp pn frames f, Event.packetized sp pn frames ∈ l.trace → f ∈ frames →
    mustArrive f = true → Covered l f
  recorded : ∀ sp, ∀ p ∈ l.sentPackets sp, ∀ f ∈ p.retransmittableFrames,
    ∃ frames, Event.packetized sp p.packetNumber frames ∈ l.trace ∧ f ∈ frames
  keys : ∀ sp, ∀ p ∈ l.sentPackets sp, ∀ f ∈ p.retransmittableFrames,
    mustArrive f = true → l.resends f p.packetType = true
  handKeys : ∀ f type, (f, type) ∈ l.inHand → mustArrive f = true → l.resends f type = true

variable {config : Config} {l l' : Ledger}

variable {f : Frame}

/-- What was acknowledged stays acknowledged. -/
theorem Acked.mono {events events' : List Event} (h : Acked events f)
    (hsub : ∀ e ∈ events, e ∈ events') : Acked events' f := by
  obtain ⟨sp, pn, frames, ranges, hp, hf, ha, hin⟩ := h
  exact ⟨sp, pn, frames, ranges, hsub _ hp, hf, hsub _ ha, hin⟩

/-- A step that moves no frame: the history grows by events that packetize
    nothing. -/
theorem Conserved.grow (h : Conserved l) (later : List Event)
    (hsent : l'.sentPackets = l.sentPackets) (hhand : l'.inHand = l.inHand)
    (hres : ∀ f type, l.resends f type = true → l'.resends f type = true)
    (htr : l'.trace = later ++ l.trace)
    (hlater : ∀ sp pn frames, Event.packetized sp pn frames ∉ later) : Conserved l' := by
  have hsub : ∀ e ∈ l.trace, e ∈ l'.trace := by
    intro e he
    rw [htr]
    exact mem_append_right _ he
  refine ⟨?_, ?_, ?_, ?_⟩
  · intro sp pn frames f hp hf hm
    rw [htr] at hp
    have hp := (mem_append.mp hp).resolve_left (hlater sp pn frames)
    rcases h.covered sp pn frames f hp hf hm with hc | hc | hc
    · exact Or.inl (hc.mono hsub)
    · exact Or.inr (Or.inl (hsent ▸ hc))
    · exact Or.inr (Or.inr (hhand ▸ hc))
  · intro sp p hp f hf
    rw [hsent] at hp
    obtain ⟨frames, hpk, hmem⟩ := h.recorded sp p hp f hf
    exact ⟨frames, hsub _ hpk, hmem⟩
  · intro sp p hp f hf hm
    rw [hsent] at hp
    exact hres _ _ (h.keys sp p hp f hf hm)
  · intro f type hmem hm
    rw [hhand] at hmem
    exact hres _ _ (h.handKeys f type hmem hm)

/-- The special case of one event. -/
theorem Conserved.logged {e : Event} (h : Conserved l)
    (hsent : l'.sentPackets = l.sentPackets) (hhand : l'.inHand = l.inHand)
    (hres : l'.resends = l.resends) (htr : l'.trace = e :: l.trace)
    (he : ∀ sp pn frames, Event.packetized sp pn frames ≠ e) : Conserved l' := by
  refine h.grow [e] hsent hhand (fun _ _ hr => hres ▸ hr) htr ?_
  intro sp pn frames hmem
  exact he sp pn frames (mem_singleton.mp hmem)

/-! ## The steps that move frames -/

variable {pkts : List SentPacket}

/-- Packets of one space after it has been replaced. -/
theorem mem_update {sent : PnSpace → List SentPacket} {sp sp' : PnSpace} {p : SentPacket}
    (h : p ∈ Function.update sent sp pkts sp') :
    (sp' = sp ∧ p ∈ pkts) ∨ (sp' ≠ sp ∧ p ∈ sent sp') := by
  by_cases heq : sp' = sp
  · subst heq
    rw [Function.update_self] at h
    exact Or.inl ⟨rfl, h⟩
  · rw [Function.update_of_ne heq] at h
    exact Or.inr ⟨heq, h⟩

/-- A held frame whose packet is kept is still held. -/
theorem held_update {sent : PnSpace → List SentPacket} {sp sp' : PnSpace} {p : SentPacket}
    (hp : p ∈ sent sp') (hf : f ∈ p.retransmittableFrames)
    (hkeep : sp' = sp → ∃ q ∈ pkts, f ∈ q.retransmittableFrames) :
    Held (Function.update sent sp pkts) f := by
  by_cases heq : sp' = sp
  · obtain ⟨q, hq, hfq⟩ := hkeep heq
    exact ⟨sp, q, by rwa [Function.update_self], hfq⟩
  · exact ⟨sp', p, by rwa [Function.update_of_ne heq], hf⟩

/-- A sealed packet enters `sent_packets_` with its frames. -/
theorem Conserved.track {type : PacketType} {pn bytes : Nat} {frames : List Frame} {now : Int}
    (h : Conserved l) (hres : ∀ f ∈ frames, mustArrive f = true → l.resends f type = true) :
    Conserved { l with
      sentPackets := Function.update l.sentPackets (spaceIndex type)
        (l.sentPackets (spaceIndex type) ++ [SentPacket.ofFrames pn bytes type frames now])
      bytesInFlight := l.bytesInFlight + bytes
      trace := .packetized (spaceIndex type) pn frames :: l.trace } := by
  have hsub : ∀ e ∈ l.trace,
      e ∈ Event.packetized (spaceIndex type) pn frames :: l.trace :=
    fun e he => mem_cons_of_mem _ he
  have hold {sp : PnSpace} {p : SentPacket} (hp : p ∈ Function.update l.sentPackets
      (spaceIndex type) (l.sentPackets (spaceIndex type)
        ++ [SentPacket.ofFrames pn bytes type frames now]) sp) :
      p ∈ l.sentPackets sp
        ∨ (sp = spaceIndex type ∧ p = SentPacket.ofFrames pn bytes type frames now) := by
    rcases mem_update hp with ⟨heq, hnew⟩ | ⟨_, hp⟩
    · subst heq
      rcases mem_append.mp hnew with hp | hp
      · exact Or.inl hp
      · exact Or.inr ⟨rfl, mem_singleton.mp hp⟩
    · exact Or.inl hp
  refine ⟨?_, ?_, ?_, h.handKeys⟩
  · intro sp pn' frames' f hp hf hm
    rcases mem_cons.mp hp with heq | hp
    · cases heq
      refine Or.inr (Or.inl ⟨spaceIndex type, SentPacket.ofFrames pn bytes type frames now, ?_, hf⟩)
      simp
    · rcases h.covered sp pn' frames' f hp hf hm with hc | ⟨sp', p, hp, hfp⟩ | hc
      · exact Or.inl (hc.mono hsub)
      · refine Or.inr (Or.inl (held_update hp hfp ?_))
        rintro rfl
        exact ⟨p, mem_append_left _ hp, hfp⟩
      · exact Or.inr (Or.inr hc)
  · intro sp p hp f hf
    rcases hold hp with hp | ⟨rfl, rfl⟩
    · obtain ⟨frames', hpk, hmem⟩ := h.recorded _ p hp f hf
      exact ⟨frames', hsub _ hpk, hmem⟩
    · exact ⟨frames, mem_cons_self, hf⟩
  · intro sp p hp f hf hm
    rcases hold hp with hp | ⟨rfl, rfl⟩
    · exact h.keys _ p hp f hf hm
    · exact hres f hf hm

/-- The frames of a packet that leaves with an ACK frame are acknowledged. -/
theorem Conserved.ack {sp : PnSpace} {ranges : List (Nat × Nat)} {bytes : Nat}
    (h : Conserved l) :
    Conserved { l with
      bytesInFlight := bytes
      sentPackets := Function.update l.sentPackets sp
        ((l.sentPackets sp).filter (fun p => !isAcked ranges p.packetNumber))
      trace := .acked sp ranges :: l.trace } := by
  have hsub : ∀ e ∈ l.trace, e ∈ Event.acked sp ranges :: l.trace :=
    fun e he => mem_cons_of_mem _ he
  have hold {sp' : PnSpace} {p : SentPacket} (hp : p ∈ Function.update l.sentPackets sp
      ((l.sentPackets sp).filter (fun p => !isAcked ranges p.packetNumber)) sp') :
      p ∈ l.sentPackets sp' := by
    rcases mem_update hp with ⟨rfl, hp⟩ | ⟨_, hp⟩
    · exact mem_of_mem_filter hp
    · exact hp
  refine ⟨?_, ?_, fun sp' p hp => h.keys sp' p (hold hp), h.handKeys⟩
  · intro sp' pn frames f hp hf hm
    have hp := (mem_cons.mp hp).resolve_left (fun heq => nomatch heq)
    rcases h.covered sp' pn frames f hp hf hm with hc | ⟨sq, q, hq, hfq⟩ | hc
    · exact Or.inl (hc.mono hsub)
    · by_cases hacked : sq = sp ∧ isAcked ranges q.packetNumber = true
      · obtain ⟨rfl, hacked⟩ := hacked
        obtain ⟨frames', hpk, hmem⟩ := h.recorded sq q hq f hfq
        exact Or.inl ⟨sq, q.packetNumber, frames', ranges, hsub _ hpk, hmem,
          mem_cons_self, hacked⟩
      · refine Or.inr (Or.inl (held_update hq hfq ?_))
        rintro rfl
        refine ⟨q, mem_filter.mpr ⟨hq, ?_⟩, hfq⟩
        simpa using fun ha => hacked ⟨rfl, ha⟩
    · exact Or.inr (Or.inr hc)
  · intro sp' p hp f hf
    obtain ⟨frames, hpk, hmem⟩ := h.recorded sp' p (hold hp) f hf
    exact ⟨frames, hsub _ hpk, hmem⟩

/-- The frames of packets declared lost are in hand. -/
theorem Conserved.lose {sp : PnSpace} {lost : SentPacket → Bool} (h : Conserved l)
    (hempty : l.inHand = []) :
    Conserved { l with
      sentPackets := Function.update l.sentPackets sp
        ((l.sentPackets sp).filter (fun p => !lost p))
      inHand := framesOf ((l.sentPackets sp).filter lost)
      trace := lostEvents sp ((l.sentPackets sp).filter lost) ++ l.trace } := by
  have hsub : ∀ e ∈ l.trace, e ∈ lostEvents sp ((l.sentPackets sp).filter lost) ++ l.trace :=
    fun e he => mem_append_right _ he
  have hold {sp' : PnSpace} {p : SentPacket} (hp : p ∈ Function.update l.sentPackets sp
      ((l.sentPackets sp).filter (fun p => !lost p)) sp') : p ∈ l.sentPackets sp' := by
    rcases mem_update hp with ⟨rfl, hp⟩ | ⟨_, hp⟩
    · exact mem_of_mem_filter hp
    · exact hp
  refine ⟨?_, ?_, fun sp' p hp => h.keys sp' p (hold hp), ?_⟩
  · intro sp' pn frames f hp hf hm
    have hp := (mem_append.mp hp).resolve_left (by
      intro hmem
      obtain ⟨pn', bytes, heq⟩ := mem_lostEvents hmem
      exact nomatch heq)
    rcases h.covered sp' pn frames f hp hf hm with hc | ⟨sq, q, hq, hfq⟩ | ⟨type, hc⟩
    · exact Or.inl (hc.mono hsub)
    · by_cases hlost : sq = sp ∧ lost q = true
      · obtain ⟨rfl, hlost⟩ := hlost
        refine Or.inr (Or.inr ⟨q.packetType, ?_⟩)
        refine mem_flatMap.mpr ⟨q, mem_filter.mpr ⟨hq, hlost⟩, ?_⟩
        exact mem_map.mpr ⟨f, hfq, rfl⟩
      · refine Or.inr (Or.inl (held_update hq hfq ?_))
        rintro rfl
        refine ⟨q, mem_filter.mpr ⟨hq, ?_⟩, hfq⟩
        simpa using fun hl => hlost ⟨rfl, hl⟩
    · rw [hempty] at hc
      exact absurd hc not_mem_nil
  · intro sp' p hp f hf
    obtain ⟨frames, hpk, hmem⟩ := h.recorded sp' p (hold hp) f hf
    exact ⟨frames, hsub _ hpk, hmem⟩
  · intro f type hmem hm
    obtain ⟨p, hp, hfp⟩ := mem_flatMap.mp hmem
    obtain ⟨f', hf', heq⟩ := mem_map.mp hfp
    cases heq
    exact h.keys sp p (mem_of_mem_filter hp) f hf' hm

/-- What a probe takes and what it leaves: a frame of a packet is taken with the
    packet's type, or still held. -/
theorem takeFirstFrames_split {p : SentPacket} (hp : p ∈ pkts) (hf : f ∈ p.retransmittableFrames) :
    (f, p.packetType) ∈ (takeFirstFrames pkts).1
      ∨ ∃ q ∈ (takeFirstFrames pkts).2, f ∈ q.retransmittableFrames := by
  induction pkts with
  | nil => exact absurd hp not_mem_nil
  | cons q rest ih =>
      rw [takeFirstFrames]
      by_cases hempty : q.retransmittableFrames.isEmpty = true
      · rw [if_pos hempty]
        rcases mem_cons.mp hp with rfl | hp
        · rw [List.isEmpty_iff.mp hempty] at hf
          exact absurd hf not_mem_nil
        · rcases ih hp with htaken | ⟨q', hq', hfq⟩
          · exact Or.inl htaken
          · exact Or.inr ⟨q', mem_cons_of_mem _ hq', hfq⟩
      · rw [if_neg hempty]
        rcases mem_cons.mp hp with rfl | hp
        · exact Or.inl (mem_map.mpr ⟨f, hf, rfl⟩)
        · exact Or.inr ⟨p, mem_cons_of_mem _ hp, hf⟩

/-- The packets a probe leaves are the old ones, possibly without frames. -/
theorem takeFirstFrames_left {p : SentPacket} (hp : p ∈ (takeFirstFrames pkts).2)
    (hf : f ∈ p.retransmittableFrames) : p ∈ pkts := by
  induction pkts with
  | nil => exact hp
  | cons q rest ih =>
      rw [takeFirstFrames] at hp
      by_cases hempty : q.retransmittableFrames.isEmpty = true
      · rw [if_pos hempty] at hp
        rcases mem_cons.mp hp with rfl | hp
        · exact mem_cons_self
        · exact mem_cons_of_mem _ (ih hp)
      · rw [if_neg hempty] at hp
        rcases mem_cons.mp hp with rfl | hp
        · exact absurd hf not_mem_nil
        · exact mem_cons_of_mem _ hp

/-- The frames a probe takes come from a packet. -/
theorem takeFirstFrames_taken {type : PacketType} (h : (f, type) ∈ (takeFirstFrames pkts).1) :
    ∃ p ∈ pkts, f ∈ p.retransmittableFrames ∧ p.packetType = type := by
  induction pkts with
  | nil => exact absurd h not_mem_nil
  | cons q rest ih =>
      rw [takeFirstFrames] at h
      by_cases hempty : q.retransmittableFrames.isEmpty = true
      · rw [if_pos hempty] at h
        obtain ⟨p, hp, hfp⟩ := ih h
        exact ⟨p, mem_cons_of_mem _ hp, hfp⟩
      · rw [if_neg hempty] at h
        obtain ⟨f', hf', heq⟩ := mem_map.mp h
        cases heq
        exact ⟨q, mem_cons_self, hf', rfl⟩

/-- The frames a probe takes are in hand. -/
theorem Conserved.probe {sp : PnSpace} (h : Conserved l) (hempty : l.inHand = []) :
    Conserved { l with
      sentPackets := Function.update l.sentPackets sp (takeFirstFrames (l.sentPackets sp)).2
      inHand := (takeFirstFrames (l.sentPackets sp)).1 } := by
  have hold {sp' : PnSpace} {p : SentPacket} {f : Frame} (hp : p ∈ Function.update l.sentPackets
      sp (takeFirstFrames (l.sentPackets sp)).2 sp') (hf : f ∈ p.retransmittableFrames) :
      p ∈ l.sentPackets sp' := by
    rcases mem_update hp with ⟨rfl, hp⟩ | ⟨_, hp⟩
    · exact takeFirstFrames_left hp hf
    · exact hp
  refine ⟨?_, fun sp' p hp f hf => h.recorded sp' p (hold hp hf) f hf,
    fun sp' p hp f hf => h.keys sp' p (hold hp hf) f hf, ?_⟩
  · intro sp' pn frames f hp hf hm
    rcases h.covered sp' pn frames f hp hf hm with hc | ⟨sq, q, hq, hfq⟩ | ⟨type, hc⟩
    · exact Or.inl hc
    · by_cases heq : sq = sp
      · subst heq
        rcases takeFirstFrames_split hq hfq with htaken | hleft
        · exact Or.inr (Or.inr ⟨_, htaken⟩)
        · exact Or.inr (Or.inl (held_update hq hfq (fun _ => hleft)))
      · exact Or.inr (Or.inl (held_update hq hfq (fun h => absurd h heq)))
    · rw [hempty] at hc
      exact absurd hc not_mem_nil
  · intro f type hmem hm
    obtain ⟨p, hp, hfp, rfl⟩ := takeFirstFrames_taken hmem
    exact h.keys sp p hp f hfp hm

/-- A frame in hand that has been sent again is held by its new packet. -/
theorem Conserved.settle {type : PacketType} {rest : List (Frame × PacketType)} (h : Conserved l)
    (hhand : l.inHand = (f, type) :: rest)
    (hsent : mustArrive f = true → l.resends f type = true → Held l.sentPackets f) :
    Conserved { l with inHand := rest } := by
  refine ⟨?_, h.recorded, h.keys, ?_⟩
  · intro sp pn frames f' hp hf hm
    rcases h.covered sp pn frames f' hp hf hm with hc | hc | ⟨type', hc⟩
    · exact Or.inl hc
    · exact Or.inr (Or.inl hc)
    · rw [hhand] at hc
      rcases mem_cons.mp hc with heq | hc
      · cases heq
        exact Or.inr (Or.inl (hsent hm (h.handKeys f type (hhand ▸ mem_cons_self) hm)))
      · exact Or.inr (Or.inr ⟨type', hc⟩)
  · intro f' type' hmem
    exact h.handKeys f' type' (hhand ▸ mem_cons_of_mem _ hmem)

/-! ## Runs -/

/-- When sealing cannot fail, every step conserves the frames. -/
theorem Conserved.step {faulty : Prop} (hok : ¬faulty) (h : Step faulty l l')
    (hc : Conserved l) : Conserved l' := by
  cases h with
  | install r hr => exact hc.grow [] rfl rfl hr rfl (by simp)
  | track type pn bytes frames now _ hres => exact hc.track hres
  | ack sp ranges => exact hc.ack
  | lose sp lost hempty _ => exact hc.lose hempty
  | probe sp hempty => exact hc.probe hempty
  | settle f type rest hhand hsent =>
      exact hc.settle hhand (fun hm hr => (hsent hm hr).resolve_right hok)
  | deliver =>
      refine hc.grow _ rfl rfl (fun _ _ h => h) rfl ?_
      intro sp pn frames hmem
      obtain ⟨d, _, heq⟩ := mem_deliveredEvents hmem
      exact nomatch heq
  | _ => first
    | exact ⟨hc.covered, hc.recorded, hc.keys, hc.handKeys⟩
    | exact hc.logged rfl rfl rfl rfl (fun _ _ _ => nofun)

/-- When sealing cannot fail, every reachable ledger has its frames. -/
theorem conserved_of_reachable {faulty : Prop} (hok : ¬faulty)
    (h : (machine faulty config).Reachable l) : Conserved l := by
  refine h.invariant ?_ ?_
  · rintro _ ⟨r, rfl⟩
    refine ⟨?_, ?_, ?_, ?_⟩
    all_goals
      intros
      exact absurd ‹_ ∈ []› not_mem_nil
  · rintro l l' ((hstep | hclose) | hcall) hc
    · exact hc.step hok hstep
    · cases hclose
      exact hc.logged rfl rfl rfl rfl (fun _ _ _ => nofun)
    · cases hcall <;> exact hc.logged rfl rfl rfl rfl (fun _ _ _ => nofun)

/-- Every CRYPTO, STREAM or HANDSHAKE_DONE frame that was ever packetized is in a
    packet that was acknowledged or held by a packet in `sent_packets_`, as long
    as sealing a packet does not fail. -/
theorem packetized_acked_or_held {K : Type} {env : Env K} {start : Start}
    {s : QuicConnection K} (hseal : ∀ k n a p, env.encrypt k n a p ≠ none)
    (h : Reachable env start s) {sp : PnSpace} {pn : Nat} {frames : List Frame} {f : Frame}
    (hp : Event.packetized sp pn frames ∈ s.trace) (hf : f ∈ frames)
    (hm : mustArrive f = true) :
    Acked s.trace f ∨ Held s.sentPackets f := by
  have hok : ¬Faulty env := by
    rintro ⟨k, n, a, p, henc⟩
    exact hseal k n a p henc
  have hc := conserved_of_reachable hok (reachable_view env h)
  rcases hc.covered sp pn frames f hp hf hm with hacked | hheld | ⟨type, hhand⟩
  · exact Or.inl hacked
  · exact Or.inr hheld
  · exact absurd hhand not_mem_nil

/-- The first of four STREAM frames, whose packet is declared lost and whose copy
    a probe timeout sends once more. -/
theorem packetized_acked_or_held_after_loss :
    let s := (sampleServer false).after (sampleEnv fun _ => {})
      (sampleWrites ++ [sampleAck, .lossDetectionTimeout])
    Event.lost .application 0 33 ∈ s.trace
      ∧ (Acked s.trace (.stream ⟨[97], 1, 0, false, false, true⟩)
        ∨ Held s.sentPackets (.stream ⟨[97], 1, 0, false, false, true⟩)) := by
  refine ⟨by decide +kernel, ?_⟩
  have hsent : Event.packetized .application 0 [.stream ⟨[97], 1, 0, false, false, true⟩]
      ∈ ((sampleServer false).after (sampleEnv fun _ => {})
        (sampleWrites ++ [sampleAck, .lossDetectionTimeout])).trace := by decide +kernel
  exact packetized_acked_or_held (sampleEnv_encrypt _)
    (Start.after_reachable (sampleEnv fun _ => {}) (sampleServer false) _) hsent
    (mem_singleton_self _) rfl

end QuicRetransmission
