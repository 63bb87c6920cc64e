import WaveX.QuicFrameAdmission

/-! # Round trip of the frame codec

    `parse_frames` read after `serialize_frame`: the concatenation of any list of
    frames is parsed to its end and gives the list back in normal form.  The normal
    form says what the wire does not keep: where one PADDING frame ends and the next
    begins, that an ACK had no range, its ECN flag, the gap of its first range, and
    the frame type of an application close.

    One lemma a frame (`parseFrame_serializeFrame`) says that the parser consumes
    exactly what was written; the list follows by induction, with the zero bytes of
    PADDING frames collected until the first frame that is not one. -/

namespace QuicFrameCodec

open QuicVarInt QuicFrames QuicFrameAdmission List

/-! ## Frames that fit the wire -/

/-- `n` fits a varint. -/
abbrev fitsVarint (n : Nat) : Prop := n < 2 ^ 62

/-- Every integer written for the frame fits a varint, a PADDING length its
    `uint32_t`, and a STREAM frame has a length, and an offset field exactly when the
    offset is non-zero. -/
def WireReady : Frame → Prop
  | .padding length => length < 2 ^ 32
  | .ping => True
  | .ack f =>
      fitsVarint f.largestAcknowledged ∧ fitsVarint f.ackDelay ∧ fitsVarint f.ranges.length
        ∧ ∀ r ∈ f.ranges, fitsVarint r.gap ∧ fitsVarint r.ackRangeLen
  | .resetStream sid err final => fitsVarint sid ∧ fitsVarint err ∧ fitsVarint final
  | .stopSending sid err => fitsVarint sid ∧ fitsVarint err
  | .crypto f => fitsVarint f.offset ∧ fitsVarint f.data.length
  | .newToken token => fitsVarint token.length
  | .stream f =>
      fitsVarint f.streamId ∧ fitsVarint f.offset ∧ fitsVarint f.data.length
        ∧ f.hasLength = true ∧ (f.hasOffset = true ↔ f.offset ≠ 0)
  | .maxData v => fitsVarint v
  | .maxStreamData sid v => fitsVarint sid ∧ fitsVarint v
  | .maxStreams v _ => fitsVarint v
  | .dataBlocked v => fitsVarint v
  | .streamDataBlocked sid v => fitsVarint sid ∧ fitsVarint v
  | .streamsBlocked v _ => fitsVarint v
  | .connectionClose f =>
      fitsVarint f.errorCode ∧ fitsVarint f.frameType ∧ fitsVarint f.reasonPhrase.length
  | .handshakeDone => True
  | .datagram data => fitsVarint data.length

/-! ## Normal forms -/

/-- The ranges of an ACK without ranges: the single range `(0, 0)`. -/
def someRanges : List AckRange → List AckRange
  | [] => [⟨0, 0⟩]
  | r :: rs => r :: rs

/-- The first range has no gap on the wire. -/
def dropFirstGap : List AckRange → List AckRange
  | [] => []
  | r :: rs => ⟨0, r.ackRangeLen⟩ :: rs

/-- A frame with what its ACK ranges default to and without its ECN flag. -/
def defaultedFrame : Frame → Frame
  | .ack f => .ack { f with ranges := someRanges f.ranges, ecn := false }
  | f => f

/-- What one frame keeps on the wire. -/
def wireFrame : Frame → Frame
  | .ack f => .ack { f with ranges := dropFirstGap (someRanges f.ranges), ecn := false }
  | .connectionClose f =>
      .connectionClose { f with frameType := if f.isApplication then 0 else f.frameType }
  | f => f

/-- The PADDING frame of a run of `length` zero bytes; none when the run is empty. -/
def paddingRun (length : Nat) : List Frame :=
  if length = 0 then [] else [.padding (length % 2 ^ 32)]

/-- The normal form of a list of frames: `frame` of every frame, adjacent PADDING
    frames merged and empty ones dropped.  `pending` counts the zero bytes since the
    last other frame. -/
def mergePadding (frame : Frame → Frame) (pending : Nat) : List Frame → List Frame
  | [] => paddingRun pending
  | .padding length :: fs => mergePadding frame (pending + length) fs
  | f :: fs => paddingRun pending ++ frame f :: mergePadding frame 0 fs

/-- The frames written one after the other. -/
def serializeFrames (fs : List Frame) : Bytes := fs.flatMap serializeFrame

/-! ## One frame -/

/-- A type below `0x40` is a single byte; outside the STREAM types the loop of
    `parse_frames` reads it as a varint. -/
theorem parseFrame_encode {t : Nat} (ht : t < 0x40) (hstream : t < 0x08 ∨ 0x0f < t)
    (body : Bytes) :
    parseFrame (encode t ++ body) = (parseTyped t body).map fun p => (t, p.1, p.2) := by
  have hdec : decode (encode t ++ body) = some (t, body) := decode_encode (by omega) body
  have henc : encode t = [UInt8.ofNat (t &&& 0x3f)] := by rw [encode, if_pos (by omega)]
  have hbyte : (UInt8.ofNat (t &&& 0x3f)).toNat = t := by
    rw [show (0x3f : Nat) = 2 ^ 6 - 1 by rfl, Nat.and_two_pow_sub_one_eq_mod,
      UInt8.toNat_ofNat']
    omega
  rw [henc] at hdec ⊢
  rw [cons_append, nil_append] at hdec ⊢
  simp only [parseFrame, hbyte]
  rw [if_neg (by omega), hdec, Option.bind_eq_bind, Option.bind_some]
  cases parseTyped t body <;> rfl

/-- `takeBytes` of the length written gives the data back. -/
theorem takeBytes_append (data rest : Bytes) :
    takeBytes data.length (data ++ rest) = some (data, rest) := by
  rw [takeBytes, if_neg (by rw [length_append]; omega), take_left, drop_left]

/-- The additional ranges come back as they were written. -/
theorem parseAckRanges_append {rs : List AckRange}
    (h : ∀ r ∈ rs, fitsVarint r.gap ∧ fitsVarint r.ackRangeLen) (rest : Bytes) :
    parseAckRanges rs.length
        (rs.flatMap (fun r => encode r.gap ++ encode r.ackRangeLen) ++ rest)
      = some (rs, rest) := by
  induction rs with
  | nil => rfl
  | cons r rs ih =>
      have hr := h r (mem_cons_self ..)
      have hrs := ih fun q hq => h q (mem_cons_of_mem _ hq)
      simp only [length_cons, parseAckRanges, flatMap_cons, append_assoc,
        decode_encode hr.1, decode_encode hr.2, hrs, Option.bind_eq_bind, Option.bind_some]

/-- An ACK body comes back with its normal form. -/
theorem parseAckFrame_serialize {f : AckFrame} (h : WireReady (.ack f)) (rest : Bytes) :
    parseAckFrame false
        (encode f.largestAcknowledged ++ encode f.ackDelay ++ encode (f.ranges.length - 1)
          ++ encode ((f.ranges.head?.map AckRange.ackRangeLen).getD 0)
          ++ (f.ranges.drop 1).flatMap (fun r => encode r.gap ++ encode r.ackRangeLen)
          ++ rest)
      = some (wireFrame (.ack f), rest) := by
  obtain ⟨ranges, largest, delay, ecn⟩ := f
  obtain ⟨hlargest, hdelay, hcount, hranges⟩ := h
  simp only at hlargest hdelay hcount hranges ⊢
  cases ranges with
  | nil =>
      have hzero : decode (encode 0 ++ rest) = some (0, rest) := decode_encode (by decide) rest
      simp only [parseAckFrame, append_assoc, decode_encode hlargest,
        decode_encode hdelay, Option.bind_eq_bind, Option.bind_some, length_nil,
        head?_nil, Option.map_none, Option.getD_none, drop_nil, flatMap_nil,
        nil_append, Nat.zero_sub]
      rw [decode_encode (by decide), Option.bind_some, hzero]
      rfl
  | cons r rs =>
      have hr := hranges r (mem_cons_self ..)
      have hlen : fitsVarint rs.length := by
        rw [length_cons] at hcount
        exact Nat.lt_of_succ_lt hcount
      have hrs := parseAckRanges_append (fun q hq => hranges q (mem_cons_of_mem _ hq)) rest
      simp only [parseAckFrame, append_assoc, decode_encode hlargest,
        decode_encode hdelay, Option.bind_eq_bind, Option.bind_some, length_cons,
        Nat.add_sub_cancel, decode_encode hlen, head?_cons, Option.map_some,
        Option.getD_some, decode_encode hr.2, drop_succ_cons, drop_zero, hrs]
      rfl

/-- A CONNECTION_CLOSE body comes back with its normal form. -/
theorem parseConnectionClose_serialize {f : ConnectionCloseFrame}
    (h : WireReady (.connectionClose f)) (rest : Bytes) :
    parseConnectionClose f.isApplication
        (encode f.errorCode ++ (if f.isApplication then [] else encode f.frameType)
          ++ encode f.reasonPhrase.length ++ f.reasonPhrase ++ rest)
      = some (wireFrame (.connectionClose f), rest) := by
  obtain ⟨reason, err, frameType, app⟩ := f
  obtain ⟨herr, htype, hlen⟩ := h
  cases app with
  | true =>
      simp [parseConnectionClose, wireFrame, decode_encode herr, decode_encode hlen,
        takeBytes_append]
  | false =>
      simp [parseConnectionClose, wireFrame, decode_encode herr, decode_encode hlen,
        decode_encode htype, takeBytes_append]

/-- The flags of a STREAM frame with a length sit in the low bits of its type. -/
theorem streamType_bits (hasOffset fin : Bool) :
    let t := 0x08 ||| (if hasOffset then 0x04 else 0) ||| 0x02 ||| (if fin then 0x01 else 0)
    (UInt8.ofNat t).toNat = t ∧ 0x08 ≤ t ∧ t ≤ 0x0f ∧ (t &&& 0x04 != 0) = hasOffset
      ∧ (t &&& 0x02 != 0) = true ∧ (t &&& 0x01 != 0) = fin := by
  cases hasOffset <;> cases fin <;> decide

/-- A STREAM frame with a length comes back as it was. -/
theorem parseFrame_stream {f : StreamFrame} (h : WireReady (.stream f)) (rest : Bytes) :
    ∃ t, parseFrame (serializeFrame (.stream f) ++ rest) = some (t, some (.stream f), rest) := by
  obtain ⟨data, sid, offset, fin, hasOffset, hasLength⟩ := f
  obtain ⟨hsid, hoffset, hlen, hhas, hoff⟩ := h
  simp only at hsid hoffset hlen hhas hoff
  subst hhas
  obtain ⟨hbyte, hlo, hhi, hbit4, hbit2, hbit1⟩ := streamType_bits hasOffset fin
  refine ⟨0x08 ||| (if hasOffset then 0x04 else 0) ||| 0x02 ||| (if fin then 0x01 else 0), ?_⟩
  simp only [serializeFrame, cons_append, nil_append, parseFrame, if_true, hbyte]
  rw [if_pos ⟨hlo, hhi⟩]
  simp only [parseStreamFrame, hbit4, hbit2, hbit1, append_assoc, decode_encode hsid,
    Option.bind_eq_bind, Option.bind_some, if_true]
  -- the offset field is there exactly when the offset is non-zero
  cases hasOffset with
  | true =>
      simp only [if_true, decode_encode hoffset, decode_encode hlen, takeBytes_append,
        Option.bind_some, Option.map_some]
  | false =>
      have hzero : offset = 0 := by
        by_contra hne
        exact absurd (hoff.mpr hne) Bool.false_ne_true
      subst hzero
      simp only [Bool.false_eq_true, if_false, nil_append, decode_encode hlen,
        takeBytes_append, Option.bind_some, Option.map_some]

/-- **One frame**: the parser consumes exactly what was written for a frame that is
    not PADDING and appends the frame's normal form. -/
theorem parseFrame_serializeFrame {f : Frame} (h : WireReady f)
    (hpad : ∀ n, f ≠ .padding n) (rest : Bytes) :
    ∃ t, parseFrame (serializeFrame f ++ rest) = some (t, some (wireFrame f), rest) := by
  cases f with
  | padding n => exact absurd rfl (hpad n)
  | stream f => exact parseFrame_stream h rest
  | ack f =>
      have hbody := parseAckFrame_serialize h rest
      refine ⟨0x02, ?_⟩
      simp only [serializeFrame, append_assoc] at hbody ⊢
      rw [parseFrame_encode (by decide) (by decide)]
      simp only [parseTyped, hbody, Option.map_some]
  | connectionClose f =>
      have hbody := parseConnectionClose_serialize h rest
      simp only [serializeFrame, append_assoc] at hbody ⊢
      -- the type says whether the error is the application's
      cases happ : f.isApplication with
      | true =>
          rw [happ] at hbody
          refine ⟨0x1d, ?_⟩
          rw [if_pos rfl, parseFrame_encode (by decide) (by decide)]
          show Option.map _ (Option.map _ (parseConnectionClose true _)) = _
          rw [hbody]
          rfl
      | false =>
          rw [happ] at hbody
          refine ⟨0x1c, ?_⟩
          rw [if_neg Bool.false_ne_true, parseFrame_encode (by decide) (by decide)]
          show Option.map _ (Option.map _ (parseConnectionClose false _)) = _
          rw [hbody]
          rfl
  | maxStreams v bidi =>
      refine ⟨if bidi then 0x12 else 0x13, ?_⟩
      cases bidi <;>
        simp [serializeFrame, parseFrame_encode, parseTyped, decode_encode h, wireFrame]
  | streamsBlocked v bidi =>
      refine ⟨if bidi then 0x16 else 0x17, ?_⟩
      cases bidi <;>
        simp [serializeFrame, parseFrame_encode, parseTyped, decode_encode h, wireFrame]
  | resetStream sid err final =>
      obtain ⟨hsid, herr, hfinal⟩ := h
      refine ⟨0x04, ?_⟩
      simp [serializeFrame, parseFrame_encode, parseTyped, decode_encode hsid,
        decode_encode herr, decode_encode hfinal, wireFrame]
  | crypto f =>
      obtain ⟨hoffset, hlen⟩ := h
      refine ⟨0x06, ?_⟩
      simp [serializeFrame, parseFrame_encode, parseTyped, decode_encode hoffset,
        decode_encode hlen, takeBytes_append, wireFrame]
  | newToken token =>
      refine ⟨0x07, ?_⟩
      simp [serializeFrame, parseFrame_encode, parseTyped, decode_encode h,
        takeBytes_append, wireFrame]
  | datagram data =>
      refine ⟨0x31, ?_⟩
      simp [serializeFrame, parseFrame_encode, parseTyped, decode_encode h,
        takeBytes_append, wireFrame]
  | stopSending sid err =>
      refine ⟨0x05, ?_⟩
      simp [serializeFrame, parseFrame_encode, parseTyped, decode_encode h.1,
        decode_encode h.2, wireFrame]
  | maxStreamData sid v =>
      refine ⟨0x11, ?_⟩
      simp [serializeFrame, parseFrame_encode, parseTyped, decode_encode h.1,
        decode_encode h.2, wireFrame]
  | streamDataBlocked sid v =>
      refine ⟨0x15, ?_⟩
      simp [serializeFrame, parseFrame_encode, parseTyped, decode_encode h.1,
        decode_encode h.2, wireFrame]
  | maxData v =>
      refine ⟨0x10, ?_⟩
      simp [serializeFrame, parseFrame_encode, parseTyped, decode_encode h, wireFrame]
  | dataBlocked v =>
      refine ⟨0x14, ?_⟩
      simp [serializeFrame, parseFrame_encode, parseTyped, decode_encode h, wireFrame]
  | ping =>
      have hnil := parseFrame_encode (t := 0x01) (by decide) (by decide) rest
      exact ⟨0x01, by rw [serializeFrame, hnil]; rfl⟩
  | handshakeDone =>
      have hnil := parseFrame_encode (t := 0x1e) (by decide) (by decide) rest
      exact ⟨0x1e, by rw [serializeFrame, hnil]; rfl⟩

/-! ## Lists of frames -/

/-- A round of the loop of `parse_frames` that adds an entry. -/
theorem parseFrames_round {t : Nat} {payload rest : Bytes} {f : Frame}
    (h : parseFrame payload = some (t, some f, rest)) :
    parseFrames payload = (parseFrames rest).map (f :: ·) := by
  rw [parseFrames, parseLoop_round h, parseFrames]
  cases parseLoop rest.length rest <;> rfl

theorem streamType_ne_zero (hasOffset hasLength fin : Bool) :
    UInt8.ofNat (0x08 ||| (if hasOffset then 0x04 else 0) ||| (if hasLength then 0x02 else 0)
      ||| (if fin then 0x01 else 0)) ≠ 0 := by
  cases hasOffset <;> cases hasLength <;> cases fin <;> decide

/-- A frame that is not PADDING starts with a non-zero byte, so it ends a run of
    PADDING. -/
theorem serializeFrame_head {f : Frame} (hpad : ∀ n, f ≠ .padding n) :
    ∃ first tl, serializeFrame f = first :: tl ∧ first ≠ 0 := by
  cases f with
  | padding n => exact absurd rfl (hpad n)
  | stream f => exact ⟨_, _, rfl, streamType_ne_zero f.hasOffset f.hasLength f.fin⟩
  | maxStreams v bidi => cases bidi <;> exact ⟨_, _, rfl, by decide⟩
  | streamsBlocked v bidi => cases bidi <;> exact ⟨_, _, rfl, by decide⟩
  | connectionClose f =>
      cases happ : f.isApplication <;> simp only [serializeFrame, happ] <;>
        exact ⟨_, _, rfl, by decide⟩
  | _ => exact ⟨_, _, rfl, by decide⟩

/-- A run of zero bytes before a non-zero byte or the end is one PADDING frame. -/
theorem parseFrames_zeros (n : Nat) {rest : Bytes} (hrest : rest.head? ≠ some 0) :
    parseFrames (List.replicate n 0 ++ rest) = (parseFrames rest).map (paddingRun n ++ ·) := by
  have hrun : ∀ k, (List.replicate k (0 : UInt8) ++ rest).takeWhile (· == 0)
      = List.replicate k 0 ∧ (List.replicate k (0 : UInt8) ++ rest).dropWhile (· == 0) = rest := by
    intro k
    induction k with
    | zero =>
        cases rest with
        | nil => exact ⟨rfl, rfl⟩
        | cons b tl =>
            have hb : (b == 0) = false := by
              apply beq_false_of_ne
              intro hzero
              exact hrest (by rw [hzero]; rfl)
            simp [hb]
    | succ k ih => simp [replicate_succ, ih]
  cases n with
  | zero =>
      rw [replicate_zero, nil_append, paddingRun, if_pos rfl]
      cases parseFrames rest <;> rfl
  | succ k =>
      have hround : parseFrame (List.replicate (k + 1) 0 ++ rest)
          = some (0, some (.padding ((k + 1) % 2 ^ 32)), rest) := by
        have htyped := parseFrame_encode (t := 0) (by decide) (by decide)
          (List.replicate k 0 ++ rest)
        rw [replicate_succ, cons_append]
        refine htyped.trans ?_
        simp only [parseTyped, hrun k, length_replicate, Option.map_some, Nat.add_comm 1 k]
      rw [parseFrames_round hround, paddingRun, if_neg (Nat.succ_ne_zero k)]
      rfl

/-- A list of frames that does not start with PADDING bytes: what follows a run. -/
theorem serializeFrames_cons_head {f : Frame} (hpad : ∀ n, f ≠ .padding n) (fs : List Frame) :
    (serializeFrames (f :: fs)).head? ≠ some 0 := by
  obtain ⟨first, tl, heq, hne⟩ := serializeFrame_head hpad
  rw [serializeFrames, flatMap_cons, heq, cons_append, head?_cons]
  intro h
  exact hne (Option.some.inj h)

/-- The round trip with `pending` zero bytes already written.  The induction is on the
    list: a PADDING frame only lengthens the run, any other frame ends it. -/
theorem parseFrames_pending {fs : List Frame} (h : ∀ f ∈ fs, WireReady f) (pending : Nat) :
    parseFrames (List.replicate pending 0 ++ serializeFrames fs)
      = some (mergePadding wireFrame pending fs) := by
  induction fs generalizing pending with
  | nil =>
      have hnil := parseFrames_zeros pending (show ([] : Bytes).head? ≠ some 0 by simp)
      rw [serializeFrames, flatMap_nil, hnil]
      simp [parseFrames, parseLoop, mergePadding]
  | cons f fs ih =>
      have hf := h f (mem_cons_self ..)
      have ih := ih fun g hg => h g (mem_cons_of_mem _ hg)
      by_cases hpad : ∃ n, f = .padding n
      · obtain ⟨n, rfl⟩ := hpad
        have hzeros : List.replicate pending 0 ++ serializeFrames (.padding n :: fs)
            = List.replicate (pending + n) 0 ++ serializeFrames fs := by
          rw [serializeFrames, flatMap_cons, serializeFrame, ← append_assoc,
            replicate_append_replicate, serializeFrames]
        rw [hzeros, ih (pending + n), mergePadding]
      · have hpad : ∀ n, f ≠ .padding n := fun n hn => hpad ⟨n, hn⟩
        obtain ⟨t, hround⟩ := parseFrame_serializeFrame hf hpad (serializeFrames fs)
        have htail := ih 0
        rw [replicate_zero, nil_append] at htail
        rw [parseFrames_zeros pending (serializeFrames_cons_head hpad fs)]
        have hcons : serializeFrames (f :: fs) = serializeFrame f ++ serializeFrames fs :=
          flatMap_cons
        rw [hcons, parseFrames_round hround, htail]
        cases f with
        | padding n => exact absurd rfl (hpad n)
        | _ => rfl

/-- **Round trip of the frame codec**: the concatenation of any list of frames that fit
    the wire is parsed, and gives the list in normal form. -/
theorem parseFrames_serializeFrames (fs : List Frame) (h : ∀ f ∈ fs, WireReady f) :
    parseFrames (serializeFrames fs) = some (mergePadding wireFrame 0 fs) := by
  have hrun := parseFrames_pending h 0
  rwa [replicate_zero, nil_append] at hrun

/-- An ACK of two ranges, PADDING in two pieces and an application close. -/
def sampleFrames : List Frame :=
  [.ack ⟨[⟨5, 1⟩, ⟨0, 2⟩], 9, 3, true⟩, .padding 2, .padding 0, .padding 1,
    .stream ⟨[7, 0], 4, 0, true, false, true⟩, .connectionClose ⟨[1], 300, 6, true⟩]

theorem sampleFrames_wireReady : ∀ f ∈ sampleFrames, WireReady f := by
  simp [sampleFrames, WireReady]

theorem parseFrames_sampleFrames :
    parseFrames (serializeFrames sampleFrames)
      = some [.ack ⟨[⟨0, 1⟩, ⟨0, 2⟩], 9, 3, false⟩, .padding 3,
          .stream ⟨[7, 0], 4, 0, true, false, true⟩, .connectionClose ⟨[1], 300, 0, true⟩] :=
  parseFrames_serializeFrames sampleFrames sampleFrames_wireReady

/-- The gap of the first range of an ACK is not on the wire: it is read back as 0. -/
theorem firstGap_not_kept :
    ¬ ∀ fs : List Frame, (∀ f ∈ fs, WireReady f) →
        parseFrames (serializeFrames fs) = some (mergePadding defaultedFrame 0 fs) := by
  intro h
  have hack := h [.ack ⟨[⟨5, 1⟩], 9, 3, false⟩] (by simp [WireReady])
  exact absurd hack (by decide)

end QuicFrameCodec
