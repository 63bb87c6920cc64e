import WaveX.QuicRuns

/-! # Frame admission and the wire

    Which frames of an opened packet the checks of `handle_datagram` see.  Both
    checks, `frame_allowed_in` and `is_ack_eliciting`, read the vector that
    `parse_frames` fills, and the parser consumes four frame types without an entry:
    NEW_CONNECTION_ID, RETIRE_CONNECTION_ID, PATH_CHALLENGE and PATH_RESPONSE.  The
    first half of this module says exactly what an entry tells about the type on the
    wire.

    Admission and acknowledgement follow the wire exactly when no skipped frame is
    on it, when the packet is refused for another reason, or, outside Initial and
    Handshake packets, when the space is marked anyway (`followsWire_iff`).  An
    Initial packet that holds nothing but a PATH_CHALLENGE is processed and never
    acknowledged (`path_challenge_processed_unacked`). -/

namespace QuicFrameAdmission

open QuicVarInt QuicFrames QuicPacket QuicCrypto QuicReceiveState QuicState QuicSend QuicReceive
  List
open QuicRuns

/-! ## Types on the wire -/

/-- The frame types that `parse_frames` consumes without an entry. -/
def skippedType (t : Nat) : Bool := decide (0x18 ≤ t ∧ t ≤ 0x1b)

/-- A frame type that RFC 9000 §12.4 permits in Initial and Handshake packets:
    PADDING, PING, ACK, CRYPTO and CONNECTION_CLOSE (0x1c). -/
def permittedType (t : Nat) : Bool :=
  t == 0x00 || t == 0x01 || t == 0x02 || t == 0x03 || t == 0x06 || t == 0x1c

/-- A frame type that asks for an acknowledgement: not PADDING, ACK or
    CONNECTION_CLOSE. -/
def elicitingType (t : Nat) : Bool :=
  !(t == 0x00 || t == 0x02 || t == 0x03 || t == 0x1c || t == 0x1d)

/-- The types a frame has on the wire. -/
def hasType : Frame → Nat → Bool
  | .padding _, t => t == 0x00
  | .ping, t => t == 0x01
  | .ack f, t => t == if f.ecn then 0x03 else 0x02
  | .resetStream _ _ _, t => t == 0x04
  | .stopSending _ _, t => t == 0x05
  | .crypto _, t => t == 0x06
  | .newToken _, t => t == 0x07
  | .stream _, t => decide (0x08 ≤ t ∧ t ≤ 0x0f)
  | .maxData _, t => t == 0x10
  | .maxStreamData _ _, t => t == 0x11
  | .maxStreams _ bidi, t => t == if bidi then 0x12 else 0x13
  | .dataBlocked _, t => t == 0x14
  | .streamDataBlocked _ _, t => t == 0x15
  | .streamsBlocked _ bidi, t => t == if bidi then 0x16 else 0x17
  | .connectionClose f, t => t == if f.isApplication then 0x1d else 0x1c
  | .handshakeDone, t => t == 0x1e
  | .datagram _, t => t == 0x30 || t == 0x31

/-- What an entry of the vector says about the type on the wire. -/
def Listed (t : Nat) : Option Frame → Prop
  | none => skippedType t = true
  | some f => hasType f t = true

/-- A frame with an entry is not of a skipped type, and the two checks answer as its
    type says. -/
theorem hasType_spec {f : Frame} {t : Nat} (h : hasType f t = true) :
    skippedType t = false ∧ ackElicitingFrame f = elicitingType t
      ∧ frameAllowedIn f .initial = permittedType t
      ∧ frameAllowedIn f .handshake = permittedType t := by
  cases f with
  | stream sf =>
      simp only [hasType, decide_eq_true_eq] at h
      have hskip : skippedType t = false := by
        simp only [skippedType, decide_eq_false_iff_not]
        omega
      have heliciting : elicitingType t = true := by
        simp only [elicitingType, Bool.not_eq_true', Bool.or_eq_false_iff, beq_eq_false_iff_ne]
        omega
      have hpermitted : permittedType t = false := by
        simp only [permittedType, Bool.or_eq_false_iff, beq_eq_false_iff_ne]
        omega
      exact ⟨hskip, heliciting.symm, hpermitted.symm, hpermitted.symm⟩
  | ack af =>
      simp only [hasType, beq_iff_eq] at h
      subst h
      cases haf : af.ecn <;> exact ⟨rfl, rfl, rfl, rfl⟩
  | maxStreams _ bidi =>
      simp only [hasType, beq_iff_eq] at h
      subst h
      cases bidi <;> exact ⟨rfl, rfl, rfl, rfl⟩
  | streamsBlocked _ bidi =>
      simp only [hasType, beq_iff_eq] at h
      subst h
      cases bidi <;> exact ⟨rfl, rfl, rfl, rfl⟩
  | connectionClose c =>
      simp only [hasType, beq_iff_eq] at h
      subst h
      cases hc : c.isApplication <;> simp [skippedType, ackElicitingFrame, elicitingType,
        frameAllowedIn, permittedType, hc]
  | datagram _ =>
      simp only [hasType, Bool.or_eq_true, beq_iff_eq] at h
      rcases h with rfl | rfl <;> exact ⟨rfl, rfl, rfl, rfl⟩
  | _ =>
      simp only [hasType, beq_iff_eq] at h
      subst h
      exact ⟨rfl, rfl, rfl, rfl⟩

/-! ## The parser -/

variable {rest rest' : Bytes}

theorem decode_length_le {v : Nat} (h : decode rest = some (v, rest')) :
    rest'.length ≤ rest.length :=
  Nat.le_of_lt (decode_length_lt h)

theorem takeBytes_length_le {len : Nat} {rest data rest' : Bytes}
    (h : takeBytes len rest = some (data, rest')) : rest'.length ≤ rest.length := by
  unfold takeBytes at h
  split at h
  · exact nomatch h
  · cases h
    rw [length_drop]
    exact Nat.sub_le _ _

theorem parseAckRanges_length_le {count : Nat} {ranges : List AckRange}
    (h : parseAckRanges count rest = some (ranges, rest')) : rest'.length ≤ rest.length := by
  induction count generalizing rest ranges with
  | zero =>
      cases h
      exact Nat.le_refl _
  | succ count ih =>
      simp only [parseAckRanges, Option.bind_eq_bind, Option.bind_eq_some_iff] at h
      obtain ⟨⟨_, _⟩, h₁, ⟨_, _⟩, h₂, ⟨_, _⟩, h₃, h⟩ := h
      cases h
      exact (ih h₃).trans ((decode_length_le h₂).trans (decode_length_le h₁))

/-- The ACK parser yields an ACK frame of the variant asked for. -/
theorem parseAckFrame_spec {ecn : Bool} {f : Frame} (h : parseAckFrame ecn rest = some (f, rest')) :
    (∃ a, f = .ack a ∧ a.ecn = ecn) ∧ rest'.length ≤ rest.length := by
  unfold parseAckFrame at h
  simp only [Option.bind_eq_bind, Option.bind_eq_some_iff] at h
  obtain ⟨⟨_, r₁⟩, h₁, ⟨_, r₂⟩, h₂, ⟨_, r₃⟩, h₃, ⟨_, r₄⟩, h₄, ⟨_, r₅⟩, h₅, h⟩ := h
  have hranges : r₅.length ≤ rest.length :=
    (parseAckRanges_length_le h₅).trans ((decode_length_le h₄).trans ((decode_length_le h₃).trans
      ((decode_length_le h₂).trans (decode_length_le h₁))))
  cases ecn with
  | false =>
      cases h
      exact ⟨⟨_, rfl, rfl⟩, hranges⟩
  | true =>
      simp only [↓reduceIte, Option.bind_eq_some_iff] at h
      obtain ⟨⟨_, _⟩, h₆, ⟨_, _⟩, h₇, ⟨_, _⟩, h₈, h⟩ := h
      cases h
      exact ⟨⟨_, rfl, rfl⟩, (decode_length_le h₈).trans ((decode_length_le h₇).trans
        ((decode_length_le h₆).trans hranges))⟩

/-- The CONNECTION_CLOSE parser yields the variant asked for. -/
theorem parseConnectionClose_spec {app : Bool} {f : Frame}
    (h : parseConnectionClose app rest = some (f, rest')) :
    (∃ c, f = .connectionClose c ∧ c.isApplication = app) ∧ rest'.length ≤ rest.length := by
  unfold parseConnectionClose at h
  cases app with
  | false =>
      simp only [Bool.false_eq_true, ↓reduceIte, Option.bind_eq_bind, Option.bind_eq_some_iff] at h
      obtain ⟨⟨_, _⟩, h₁, ⟨_, _⟩, h₂, ⟨_, _⟩, h₃, ⟨_, _⟩, h₄, h⟩ := h
      cases h
      exact ⟨⟨_, rfl, rfl⟩, (takeBytes_length_le h₄).trans ((decode_length_le h₃).trans
        ((decode_length_le h₂).trans (decode_length_le h₁)))⟩
  | true =>
      simp only [↓reduceIte, Option.bind_eq_bind, Option.bind_some, Option.bind_eq_some_iff] at h
      obtain ⟨⟨_, _⟩, h₁, ⟨_, _⟩, h₂, ⟨_, _⟩, h₃, h⟩ := h
      cases h
      exact ⟨⟨_, rfl, rfl⟩, (takeBytes_length_le h₃).trans ((decode_length_le h₂).trans
        (decode_length_le h₁))⟩

/-- The STREAM parser yields a STREAM frame. -/
theorem parseStreamFrame_spec {peek : Nat} {f : Frame}
    (h : parseStreamFrame peek rest = some (f, rest')) :
    (∃ sf, f = .stream sf) ∧ rest'.length ≤ rest.length := by
  unfold parseStreamFrame at h
  simp only [Option.bind_eq_bind] at h
  -- with or without the offset and length fields
  split_ifs at h
  all_goals
    simp only [Option.bind_some, Option.bind_eq_some_iff] at h
    grind [→ decode_length_le, → takeBytes_length_le]

theorem skipNewConnectionId_length_le (h : skipNewConnectionId rest = some rest') :
    rest'.length ≤ rest.length := by
  unfold skipNewConnectionId at h
  simp only [Option.bind_eq_bind, Option.bind_eq_some_iff] at h
  obtain ⟨⟨_, r₁⟩, h₁, ⟨_, r₂⟩, h₂, h⟩ := h
  have hle := (decode_length_le h₂).trans (decode_length_le h₁)
  cases r₂ with
  | nil => exact nomatch h
  | cons cidLen r₃ =>
      simp only at h
      split at h
      · exact nomatch h
      · cases h
        rw [length_cons] at hle
        rw [length_drop]
        omega

/-- A frame after its type: its entry lists it, and the cursor does not go back. -/
theorem parseTyped_spec {t : Nat} {entry : Option Frame}
    (h : parseTyped t rest = some (entry, rest')) :
    Listed t entry ∧ rest'.length ≤ rest.length := by
  unfold parseTyped at h
  simp only [Option.bind_eq_bind] at h
  split at h
  all_goals try simp only [Option.bind_eq_some_iff, Option.map_eq_some_iff] at h
  all_goals first
    | (cases h; done)
    | (cases h; exact ⟨rfl, Nat.le_refl _⟩)
    | (cases h; exact ⟨rfl, Nat.zero_le _⟩)
    | (cases h; exact ⟨rfl, length_dropWhile_le _ _⟩)
    | (obtain ⟨⟨_, _⟩, hf, h⟩ := h
       obtain ⟨⟨a, rfl, ha⟩, hle⟩ := parseAckFrame_spec hf
       cases h
       exact ⟨by simp [Listed, hasType, ha], hle⟩)
    | (obtain ⟨⟨_, _⟩, hf, h⟩ := h
       obtain ⟨⟨c, rfl, hc⟩, hle⟩ := parseConnectionClose_spec hf
       cases h
       exact ⟨by simp [Listed, hasType, hc], hle⟩)
    | (obtain ⟨_, hskip, h⟩ := h
       have hle := skipNewConnectionId_length_le hskip
       cases h
       exact ⟨rfl, hle⟩)
    | (obtain ⟨⟨_, _⟩, h₁, h⟩ := h; cases h; exact ⟨rfl, decode_length_le h₁⟩)
    | (obtain ⟨⟨_, _⟩, h₁, h⟩ := h; cases h; exact ⟨rfl, takeBytes_length_le h₁⟩)
    | (obtain ⟨⟨_, _⟩, h₁, ⟨_, _⟩, h₂, h⟩ := h
       cases h
       exact ⟨rfl, by grind [→ decode_length_le, → takeBytes_length_le]⟩)
    | (obtain ⟨⟨_, _⟩, h₁, ⟨_, _⟩, h₂, ⟨_, _⟩, h₃, h⟩ := h
       cases h
       exact ⟨rfl, by grind [→ decode_length_le, → takeBytes_length_le]⟩)

/-- One round of `parse_frames`: the entry lists the frame, and the round takes at
    least one byte. -/
theorem parseFrame_spec {t : Nat} {payload rest : Bytes} {entry : Option Frame}
    (h : parseFrame payload = some (t, entry, rest)) :
    Listed t entry ∧ rest.length < payload.length := by
  unfold parseFrame at h
  cases payload with
  | nil => exact nomatch h
  | cons first tl =>
      simp only at h
      split_ifs at h with hstream
      · obtain ⟨⟨f, r⟩, hf, heq⟩ := Option.map_eq_some_iff.mp h
        obtain ⟨⟨sf, rfl⟩, hle⟩ := parseStreamFrame_spec hf
        cases heq
        exact ⟨decide_eq_true hstream, Nat.lt_succ_of_le hle⟩
      · simp only [Option.bind_eq_bind, Option.bind_eq_some_iff] at h
        obtain ⟨⟨_, _⟩, hdec, ⟨_, _⟩, htyped, h⟩ := h
        cases h
        obtain ⟨hlisted, hle⟩ := parseTyped_spec htyped
        exact ⟨hlisted, Nat.lt_of_le_of_lt hle (decode_length_lt hdec)⟩

/-- The loop does not run out of rounds: more than the payload's length change
    nothing. -/
theorem parseLoop_fuel {fuel fuel' : Nat} {payload : Bytes} (h : payload.length ≤ fuel)
    (h' : payload.length ≤ fuel') : parseLoop fuel payload = parseLoop fuel' payload := by
  induction fuel generalizing fuel' payload with
  | zero =>
      rw [length_eq_zero_iff.mp (Nat.le_zero.mp h)]
      simp [parseLoop]
  | succ fuel ih =>
      cases payload with
      | nil => simp [parseLoop]
      | cons first tl =>
          cases fuel' with
          | zero => exact absurd h' (Nat.not_succ_le_zero _)
          | succ fuel' =>
              simp only [parseLoop]
              cases hp : parseFrame (first :: tl) with
              | none => rfl
              | some p =>
                  obtain ⟨t, entry, rest⟩ := p
                  have hlt := (parseFrame_spec hp).2
                  rw [length_cons] at h h' hlt
                  have hrest : parseLoop fuel rest = parseLoop fuel' rest :=
                    ih (by omega) (by omega)
                  simp only [Option.bind_eq_bind, Option.bind_some, hrest]

/-- A round of the loop of `parse_frames`, whatever the number of rounds allowed. -/
theorem parseLoop_round {t : Nat} {payload rest : Bytes} {entry : Option Frame}
    (h : parseFrame payload = some (t, entry, rest)) :
    parseLoop payload.length payload = (parseLoop rest.length rest).map ((t, entry) :: ·) := by
  have hlt := (parseFrame_spec h).2
  cases payload with
  | nil => exact nomatch h
  | cons first tl =>
      rw [length_cons] at hlt ⊢
      have hfuel : parseLoop tl.length rest = parseLoop rest.length rest :=
        parseLoop_fuel (Nat.le_of_lt_succ hlt) (Nat.le_refl _)
      simp only [parseLoop, h, hfuel, Option.bind_eq_bind, Option.bind_some]
      cases parseLoop rest.length rest <;> rfl

/-- Every entry of an accepted payload lists its frame. -/
theorem parseLoop_listed {fuel : Nat} {payload : Bytes} {entries : List (Nat × Option Frame)}
    (h : parseLoop fuel payload = some entries) : ∀ e ∈ entries, Listed e.1 e.2 := by
  induction fuel generalizing payload entries with
  | zero =>
      cases payload with
      | nil =>
          cases h
          exact fun e he => absurd he not_mem_nil
      | cons first tl => exact nomatch h
  | succ fuel ih =>
      cases payload with
      | nil =>
          cases h
          exact fun e he => absurd he not_mem_nil
      | cons first tl =>
          simp only [parseLoop, Option.bind_eq_bind, Option.bind_eq_some_iff] at h
          obtain ⟨⟨t, entry, rest⟩, hp, tail, htail, h⟩ := h
          cases h
          refine forall_mem_cons.mpr ⟨(parseFrame_spec hp).1, ih htail⟩

/-! ## Admission -/

/-- The tracker of a space needs an ACK once an ack-eliciting packet is recorded. -/
theorem addPacket_needsAck (t : ReceivedPacketTracker) (pn : Nat) (ackEliciting : Bool) :
    (t.addPacket pn ackEliciting).needsAck = (t.ackElicitingPending || ackEliciting) := by
  have hcap (t : ReceivedPacketTracker) :
      t.capIntervals.hasPackets = t.hasPackets
        ∧ t.capIntervals.ackElicitingPending = t.ackElicitingPending := by
    unfold ReceivedPacketTracker.capIntervals
    split <;> exact ⟨rfl, rfl⟩
  unfold ReceivedPacketTracker.addPacket ReceivedPacketTracker.needsAck
  simp only
  repeat' split
  all_goals simp [hcap]

variable {K : Type} {s : QuicConnection K} {hdr : PacketHeader} {payload : Bytes}
  {frames : List Frame} {types : List Nat}

/-- Admission and acknowledgement follow the wire: an Initial or Handshake packet is
    admitted only when every type on the wire is permitted, and an admitted packet
    marks its space whenever some type on the wire asks for it. -/
def FollowsWire (s : QuicConnection K) (hdr : PacketHeader) (payload : Bytes) : Prop :=
  ∀ frames types recorded, parseFrames payload = some frames → wireTypes payload = some types →
    admitFrames s hdr frames = .ok recorded →
    (hdr.type = .initial ∨ hdr.type = .handshake → ∀ t ∈ types, permittedType t = true)
      ∧ ((∃ t ∈ types, elicitingType t = true) →
        (recorded.ackTrackers (spaceIndex hdr.type)).needsAck = true)

/-- The entries behind the vector and the types on the wire. -/
theorem exists_entries (hparse : parseFrames payload = some frames)
    (hwire : wireTypes payload = some types) :
    ∃ entries : List (Nat × Option Frame), frames = entries.filterMap Prod.snd
      ∧ types = entries.map Prod.fst ∧ ∀ e ∈ entries, Listed e.1 e.2 := by
  obtain ⟨entries, hloop, rfl⟩ := Option.map_eq_some_iff.mp hparse
  rw [wireTypes, hloop] at hwire
  cases hwire
  exact ⟨entries, rfl, rfl, parseLoop_listed hloop⟩

/-- A type on the wire is skipped or has a frame in the vector. -/
theorem exists_frame_of_type (hparse : parseFrames payload = some frames)
    (hwire : wireTypes payload = some types) {t : Nat} (ht : t ∈ types)
    (hskip : skippedType t = false) : ∃ f ∈ frames, hasType f t = true := by
  obtain ⟨entries, rfl, rfl, hlisted⟩ := exists_entries hparse hwire
  obtain ⟨⟨_, entry⟩, he, rfl⟩ := mem_map.mp ht
  have hl := hlisted _ he
  cases entry with
  | none => exact absurd (hskip.symm.trans hl) Bool.false_ne_true
  | some f => exact ⟨f, mem_filterMap.mpr ⟨_, he, rfl⟩, hl⟩

/-- CRYPTO data leaves the ACK trackers alone. -/
theorem insertCrypto_ackTrackers (level : Nat) (s : QuicConnection K) (frames : List Frame) :
    (insertCrypto level s frames).1.ackTrackers = s.ackTrackers := by
  induction frames generalizing s with
  | nil => rfl
  | cons f rest ih =>
      cases f with
      | crypto cf =>
          rw [insertCrypto]
          cases (s.cryptoReassemblers level).insert cf.offset cf.data with
          | none => rfl
          | some r => exact ih _
      | _ => exact ih s

/-- A packet is admitted in TLS mode exactly when all its frames are allowed and its
    CRYPTO data fits the buffer; then an ack-eliciting frame marks the space. -/
theorem admitFrames_tls (hdr : PacketHeader) (frames : List Frame)
    (htls : s.tlsInitialized = true) :
    if (∀ f ∈ frames, frameAllowedIn f hdr.type = true)
        ∧ (insertCrypto (reassemblerForType hdr.type) s frames).2 = true then
      ∃ recorded, admitFrames s hdr frames = .ok recorded
        ∧ (recorded.ackTrackers (spaceIndex hdr.type)).needsAck
          = ((s.ackTrackers (spaceIndex hdr.type)).ackElicitingPending
            || frames.any ackElicitingFrame)
    else ∃ refused, admitFrames s hdr frames = .error refused := by
  have hany : (s.tlsInitialized && frames.any (fun f => !frameAllowedIn f hdr.type)) = true
      ↔ ¬∀ f ∈ frames, frameAllowedIn f hdr.type = true := by
    simp [htls]
  unfold admitFrames
  by_cases hallowed : ∀ f ∈ frames, frameAllowedIn f hdr.type = true
  · rw [if_neg (fun h => hany.mp h hallowed)]
    have hkeep := insertCrypto_ackTrackers (reassemblerForType hdr.type) s frames
    simp only [htls, ↓reduceIte]
    rcases hres : insertCrypto (reassemblerForType hdr.type) s frames with ⟨s₁, ok⟩
    rw [hres] at hkeep
    cases ok with
    | false =>
        rw [if_neg (fun h => Bool.false_ne_true h.2)]
        exact ⟨_, rfl⟩
    | true =>
        rw [if_pos ⟨hallowed, rfl⟩]
        refine ⟨_, rfl, ?_⟩
        simp only at hkeep
        simp only [recordPacket, Function.update_self, hkeep, addPacket_needsAck]
  · rw [if_pos (hany.mpr hallowed), if_neg (fun h => hallowed h.1)]
    exact ⟨_, rfl⟩

/-- Without skipped types on the wire both checks follow it. -/
theorem followsWire_of_no_skipped (htls : s.tlsInitialized = true)
    (hwire : wireTypes payload = some types) (hskip : ∀ t ∈ types, skippedType t = false) :
    FollowsWire s hdr payload := by
  intro frames types' recorded hparse hwire' hadmitted
  rw [hwire] at hwire'
  cases hwire'
  have htls := admitFrames_tls hdr frames htls
  split_ifs at htls with hok
  · obtain ⟨_, heq, hneeds⟩ := htls
    rw [hadmitted] at heq
    cases heq
    refine ⟨?_, ?_⟩
    · intro htype t ht
      obtain ⟨f, hf, hft⟩ := exists_frame_of_type hparse hwire ht (hskip t ht)
      have hallowed := hok.1 f hf
      obtain ⟨_, _, hinitial, hhandshake⟩ := hasType_spec hft
      rcases htype with htype | htype
      · rw [← hinitial, ← htype]
        exact hallowed
      · rw [← hhandshake, ← htype]
        exact hallowed
    · rintro ⟨t, ht, heliciting⟩
      obtain ⟨f, hf, hft⟩ := exists_frame_of_type hparse hwire ht (hskip t ht)
      have hf' : ackElicitingFrame f = true := (hasType_spec hft).2.1.trans heliciting
      rw [hneeds, Bool.or_eq_true]
      exact Or.inr (any_eq_true.mpr ⟨f, hf, hf'⟩)
  · obtain ⟨_, heq⟩ := htls
    rw [hadmitted] at heq
    exact nomatch heq

/-- A skipped type is not permitted in Initial and Handshake packets and asks for an
    acknowledgement. -/
theorem skippedType_spec {t : Nat} (h : skippedType t = true) :
    permittedType t = false ∧ elicitingType t = true := by
  simp only [skippedType, decide_eq_true_eq] at h
  simp only [permittedType, elicitingType, Bool.or_eq_false_iff, beq_eq_false_iff_ne,
    Bool.not_eq_true']
  omega

/-- For a payload that `parse_frames` accepts in TLS mode, admission and
    acknowledgement follow the wire exactly when no skipped frame is on it, or the
    packet is refused for a frame not allowed or for too much CRYPTO data, or it is
    no Initial or Handshake packet and its space is marked by another frame or was
    marked before. -/
theorem followsWire_iff (htls : s.tlsInitialized = true)
    (hparse : parseFrames payload = some frames) (hwire : wireTypes payload = some types) :
    FollowsWire s hdr payload ↔
      (∀ t ∈ types, skippedType t = false)
        ∨ (∃ f ∈ frames, frameAllowedIn f hdr.type = false)
        ∨ (insertCrypto (reassemblerForType hdr.type) s frames).2 = false
        ∨ (hdr.type ≠ .initial ∧ hdr.type ≠ .handshake
          ∧ ((∃ f ∈ frames, ackElicitingFrame f = true)
            ∨ (s.ackTrackers (spaceIndex hdr.type)).ackElicitingPending = true)) := by
  have hadmitted := admitFrames_tls hdr frames htls
  constructor
  · intro hfollows
    by_cases hskip : ∀ t ∈ types, skippedType t = false
    · exact Or.inl hskip
    refine Or.inr ?_
    obtain ⟨t, ht, hskipped⟩ : ∃ t ∈ types, skippedType t = true := by
      simpa using hskip
    obtain ⟨hpermitted, heliciting⟩ := skippedType_spec hskipped
    split_ifs at hadmitted with hok
    · obtain ⟨recorded, heq, hneeds⟩ := hadmitted
      obtain ⟨hwire_a, hwire_b⟩ := hfollows frames types recorded hparse hwire heq
      have htype : ¬(hdr.type = .initial ∨ hdr.type = .handshake) := by
        intro htype
        exact absurd (hpermitted.symm.trans (hwire_a htype t ht)) Bool.false_ne_true
      have hmarked := hwire_b ⟨t, ht, heliciting⟩
      rw [hneeds, Bool.or_eq_true, any_eq_true] at hmarked
      exact Or.inr (Or.inr ⟨fun h => htype (Or.inl h), fun h => htype (Or.inr h), hmarked.symm⟩)
    · by_cases hallowed : ∀ f ∈ frames, frameAllowedIn f hdr.type = true
      · refine Or.inr (Or.inl ?_)
        by_contra hcrypto
        exact hok ⟨hallowed, Bool.of_not_eq_false hcrypto⟩
      · refine Or.inl ?_
        simpa using hallowed
  · rintro (hskip | hcase)
    · exact followsWire_of_no_skipped htls hwire hskip
    intro frames' types' recorded hparse' hwire' hok
    rw [hparse] at hparse'
    cases hparse'
    split_ifs at hadmitted with hcond
    · obtain ⟨_, heq, hneeds⟩ := hadmitted
      rw [hok] at heq
      cases heq
      rcases hcase with ⟨f, hf, hfalse⟩ | hcrypto | ⟨hi, hh, hmarked⟩
      · exact absurd (hfalse.symm.trans (hcond.1 f hf)) Bool.false_ne_true
      · exact absurd (hcrypto.symm.trans hcond.2) Bool.false_ne_true
      · refine ⟨fun htype => absurd htype (not_or.mpr ⟨hi, hh⟩), fun _ => ?_⟩
        rw [hneeds, Bool.or_eq_true, any_eq_true]
        exact hmarked.symm
    · obtain ⟨_, heq⟩ := hadmitted
      rw [hok] at heq
      exact nomatch heq

/-- A 1-RTT packet with a PING beside the PATH_CHALLENGE follows the wire. -/
theorem followsWire_iff_ping :
    let s := (sampleServer true).after (sampleEnv sampleTls) sampleHandshake
    let payload : Bytes := 0x1a :: List.replicate 8 7 ++ [0x01]
    s.tlsInitialized = true ∧ wireTypes payload = some [0x1a, 0x01]
      ∧ FollowsWire s { isLong := false, type := .oneRtt } payload := by
  refine ⟨by decide, by decide, ?_⟩
  have hparse : parseFrames (0x1a :: List.replicate 8 7 ++ [0x01]) = some [.ping] := by
    decide
  have hwire : wireTypes (0x1a :: List.replicate 8 7 ++ [0x01]) = some [0x1a, 0x01] := by
    decide
  refine (followsWire_iff (by decide) hparse hwire).mpr ?_
  exact Or.inr (Or.inr (Or.inr ⟨nofun, nofun, Or.inl ⟨.ping, mem_singleton_self _, rfl⟩⟩))

/-- An Initial packet with nothing but a PATH_CHALLENGE: the server takes it, keeps
    the connection open and owes no acknowledgement. -/
theorem path_challenge_processed_unacked :
    let payload : Bytes := 0x1a :: List.replicate 8 7
    let s := (sampleServer true).after (sampleEnv sampleTls) []
    let s' := (sampleServer true).after (sampleEnv sampleTls)
      [.handleDatagram (samplePacket .initial 0 payload)]
    parseFrames payload = some [] ∧ wireTypes payload = some [0x1a]
      ∧ (s'.ackTrackers .initial).contains 0 = true ∧ s'.state ≠ .closed
      ∧ Event.appended false ∉ s'.trace
      ∧ ¬FollowsWire s { isLong := true, type := .initial } payload := by
  refine ⟨by decide, by decide, by decide, by decide,
    by decide, ?_⟩
  intro hfollows
  have htls : ((sampleServer true).after (sampleEnv sampleTls) []).tlsInitialized = true := by
    decide
  have hadmitted := admitFrames_tls { isLong := true, type := .initial } [] htls
  rw [if_pos ⟨fun _ h => absurd h not_mem_nil, rfl⟩] at hadmitted
  obtain ⟨recorded, hok, _⟩ := hadmitted
  have hpermitted := (hfollows [] [0x1a] recorded (by decide) (by decide) hok).1
    (Or.inl rfl) 0x1a (mem_singleton_self _)
  exact nomatch hpermitted

end QuicFrameAdmission
