import WaveX.HpackRoundTrip
import WaveX.Http2Parser

/-! # The rebuilt request

    `build_request_wire` of `src/protos/http/http2session.cpp` writes a request that a
    session has taken apart as frames of one stream, for the parser: the header list in one
    HEADERS frame, as literals that touch no table, and the body in DATA frames.

    `parse_request` reads the list and the body back, whatever they are, as long as the
    list is within the cap of the decoder. -/

namespace Http2RequestWire

open QuicVarInt HttpText Hpack HeaderStrings HpackRoundTrip Http2Frames Http2FrameCodec Http2Parser
  List
open Http2Session (defaultMaxHeaderListSize)

/-! ## `build_request_wire` -/

/-- The header block: literals without indexing, with new names. -/
def requestBlock (headers : List Field) : Bytes := headers.flatMap fun h => encodeLiteral h.1 h.2

/-- The HEADERS frame: the parser takes the block in one frame. -/
def requestHeadersFrame (sid : Nat) (headers : List Field) (endStream : Bool) : Frame where
  type := .headers
  flags := flagEndHeaders ||| endStreamFlags endStream
  streamId := sid
  payload := requestBlock headers

/-- The DATA frames of a body, of 16384 bytes; the last one may end the stream. -/
def bodyFrames (sid : Nat) (endStream : Bool) : Nat → Bytes → List Frame
  | 0, _ => []
  | fuel + 1, body =>
      if body = [] then []
      else
        let last := (body.drop 16384).isEmpty
        dataFrame sid (body.take 16384) (last && endStream) ::
          bodyFrames sid endStream fuel (body.drop 16384)

/-- `build_request_wire`. -/
def buildRequestWire (sid : Nat) (headers : List Field) (body : Bytes) (endStream : Bool) : Bytes :=
  encodeFrame (requestHeadersFrame sid headers (endStream && body.isEmpty)) ++
    (bodyFrames sid endStream body.length body).flatMap encodeFrame

/-! ## The header block -/

variable {sid fuel rounds : Nat} {headers : List Field} {body : Bytes} {endStream : Bool}
  {tooLarge : ParseResult} {g : Gathered}

theorem encodeContinuation_length (fuel value : Nat) :
    (encodeContinuation fuel value).length ≤ fuel + 1 := by
  induction fuel generalizing value with
  | zero => exact Nat.le_refl _
  | succ fuel ih =>
    rw [encodeContinuation]
    split
    · exact Nat.succ_le_succ (ih _)
    · exact Nat.succ_le_succ (Nat.zero_le _)

theorem encodeString_length (str : Bytes) : (encodeString str).length ≤ str.length + 12 := by
  have hint : (encodeInteger str.length 7 0x00).length ≤ 12 := by
    rw [encodeInteger]
    split
    · exact Nat.succ_le_succ (Nat.zero_le _)
    · exact Nat.succ_le_succ (encodeContinuation_length _ _)
  rw [encodeString, length_append]
  omega

/-- A field takes less in the block than in the size of the list. -/
theorem requestBlock_length (headers : List Field) :
    (requestBlock headers).length ≤ (headers.map fieldSize).sum := by
  induction headers with
  | nil => exact Nat.le_refl _
  | cons h rest ih =>
    have hname := encodeString_length h.1
    have hvalue := encodeString_length h.2
    have hzero : (encodeInteger 0 4 0x00).length = 1 := rfl
    rw [requestBlock, flatMap_cons, length_append, map_cons, sum_cons]
    rw [requestBlock] at ih
    rw [encodeLiteral, length_append, length_append, hzero, fieldSize]
    omega

theorem requestBlock_spells (headers : List Field) : Spells (requestBlock headers) headers := by
  induction headers with
  | nil => exact .nil
  | cons h rest ih =>
    rw [requestBlock, flatMap_cons]
    exact (encodeLiteral_represents h.1 h.2).spells.append ih

/-- The block of a list within the cap is short. -/
theorem requestBlock_short (hlist : overLimit defaultMaxHeaderListSize headers = false) :
    (requestBlock headers).length ≤ 65536 := by
  rw [overLimit, decide_eq_false_iff_not] at hlist
  have hsum : (headers.map fieldSize).sum ≤ 65536 := by
    by_contra hover
    exact hlist ⟨by decide, Nat.not_le.mp hover⟩
  exact Nat.le_trans (requestBlock_length headers) hsum

/-! ## Frames -/

theorem dataFrame_ends (sid : Nat) (payload : Bytes) (last : Bool) :
    (dataFrame sid payload last).hasFlag flagEndStream = last := by
  have hflags : ∀ b, (endStreamFlags b &&& flagEndStream == flagEndStream) = b := by decide
  exact hflags last

theorem dataFrame_payload (sid : Nat) (payload : Bytes) (last : Bool) :
    dataPayload (dataFrame sid payload last) = some payload := by
  have hflags : ∀ b, (endStreamFlags b &&& flagPadded == flagPadded) = false := by decide
  have hpad : (dataFrame sid payload last).hasFlag flagPadded = false := hflags last
  rw [dataPayload, padding, if_neg (Bool.eq_false_iff.mp hpad)]
  show (if payload.length < 0 + 0 then none else some ((payload.drop 0).take (payload.length - 0 - 0))) = _
  rw [if_neg (Nat.not_lt_zero _), drop_zero, Nat.sub_zero, Nat.sub_zero, take_length]

theorem dataFrame_encodable {payload : Bytes} (h : payload.length < 2 ^ 24) (sid : Nat)
    (last : Bool) : Encodable (dataFrame sid payload last) := by
  have hflags : ∀ b, endStreamFlags b < 2 ^ 8 := by decide
  exact ⟨h, rfl, hflags last⟩

theorem requestHeadersFrame_ends (sid : Nat) (headers : List Field) (last : Bool) :
    (requestHeadersFrame sid headers last).hasFlag flagEndStream = last := by
  have hflags : ∀ b, ((flagEndHeaders ||| endStreamFlags b) &&& flagEndStream == flagEndStream) = b := by
    decide
  exact hflags last

theorem requestHeadersFrame_fragment (sid : Nat) (headers : List Field) (last : Bool) :
    headersFragment (requestHeadersFrame sid headers last) = some (requestBlock headers) := by
  have hflags : ∀ b, ((flagEndHeaders ||| endStreamFlags b) &&& flagPadded == flagPadded) = false ∧
      ((flagEndHeaders ||| endStreamFlags b) &&& flagPriority == flagPriority) = false := by
    decide
  have hpad : (requestHeadersFrame sid headers last).hasFlag flagPadded = false := (hflags last).1
  have hpriority : (requestHeadersFrame sid headers last).hasFlag flagPriority = false :=
    (hflags last).2
  rw [headersFragment, padding, if_neg (Bool.eq_false_iff.mp hpad)]
  simp only [Option.bind_eq_bind, Option.bind_some, hpriority]
  show (if (requestBlock headers).length < 0 then none
    else some (((requestBlock headers).drop 0).take ((requestBlock headers).length - 0 - 0))) = _
  rw [if_neg (Nat.not_lt_zero _), drop_zero, Nat.sub_zero, Nat.sub_zero, take_length]

theorem requestHeadersFrame_encodable (hlist : overLimit defaultMaxHeaderListSize headers = false)
    (sid : Nat) (last : Bool) : Encodable (requestHeadersFrame sid headers last) := by
  have hflags : ∀ b, flagEndHeaders ||| endStreamFlags b < 2 ^ 8 := by decide
  exact ⟨Nat.lt_of_le_of_lt (requestBlock_short hlist) (by decide), rfl, hflags last⟩

/-- A stream id goes into 31 bits. -/
theorem encodeFrame_streamId (f : Frame) :
    encodeFrame { f with streamId := f.streamId % 2 ^ 31 } = encodeFrame f := by
  have hmask : ∀ n : Nat, n &&& 0x7fffffff = n % 2 ^ 31 := fun n =>
    Nat.and_two_pow_sub_one_eq_mod n 31
  rw [encodeFrame, encodeFrame, hmask, hmask, Nat.mod_mod]

/-! ## The parser -/

/-- What a DATA frame adds. -/
def withData (g : Gathered) (data : Bytes) : Gathered :=
  { g with
    cursor := g.cursor + (headerSize + data.length)
    bodyAccumulator := g.bodyAccumulator ++ data }

/-- A round on a DATA frame of the stream. -/
theorem gather_dataFrame {data rest : Bytes} (hsid : sid < 2 ^ 31) (hdata : data.length < 2 ^ 24)
    (hg : g.streamId = sid) (last : Bool) (fuel : Nat) :
    gather tooLarge (fuel + 1) g (encodeFrame (dataFrame sid data last) ++ rest) =
      if last = true then (.success, withData g data)
      else gather tooLarge fuel (withData g data) rest := by
  have hframe : onFrame tooLarge
      { g with cursor := g.cursor + (encodeFrame (dataFrame sid data last)).length }
      (dataFrame sid data last) = if last = true then .leave (withData g data)
        else .next (withData g data) := by
    refine (onFrame_data rfl hg.symm (dataFrame_payload _ _ _)).trans ?_
    rw [turn, dataFrame_ends, encodeFrame_length]
    rfl
  rw [gather_frame (dataFrame_encodable hdata sid last) hsid, hframe]
  cases last
  · rfl
  · rfl

/-- The parser takes up the body of its stream. -/
theorem gather_bodyFrames (hsid : sid < 2 ^ 31) (hbody : body.length ≤ rounds)
    (hfuel : ((bodyFrames sid endStream rounds body).flatMap encodeFrame).length ≤ fuel)
    (hg : g.streamId = sid) :
    gather tooLarge fuel g ((bodyFrames sid endStream rounds body).flatMap encodeFrame) =
      (.success, { g with
        cursor := g.cursor +
          ((bodyFrames sid endStream rounds body).flatMap encodeFrame).length
        bodyAccumulator := g.bodyAccumulator ++ body }) := by
  have hnone : ∀ rounds, bodyFrames sid endStream rounds [] = [] := by
    intro rounds
    cases rounds
    · rfl
    · rfl
  have hdone : ∀ (fuel : Nat) (g : Gathered), gather tooLarge fuel g (([] : List Frame).flatMap
      encodeFrame) = (.success, { g with
        cursor := g.cursor + (([] : List Frame).flatMap encodeFrame).length
        bodyAccumulator := g.bodyAccumulator ++ [] }) := by
    intro fuel g
    rw [append_nil]
    exact gather_nil _ _ _
  induction rounds generalizing body fuel g with
  | zero =>
    obtain rfl := eq_nil_of_length_eq_zero (Nat.le_zero.mp hbody)
    exact hdone fuel g
  | succ rounds ih =>
    by_cases hempty : body = []
    · rw [hempty, hnone]
      exact hdone fuel g
    · rw [bodyFrames, if_neg hempty] at hfuel ⊢
      rw [flatMap_cons, length_append, encodeFrame_length] at hfuel ⊢
      have hsplit : body.take 16384 ++ body.drop 16384 = body := take_append_drop _ _
      have hpiece : (body.take 16384).length < 2 ^ 24 := by
        rw [length_take]
        omega
      have hfewer : (body.drop 16384).length ≤ rounds := by
        have hpos := length_pos_iff.mpr hempty
        rw [length_drop]
        omega
      obtain ⟨fuel, rfl⟩ : ∃ k, fuel = k + 1 := by
        have hsize : headerSize = 9 := rfl
        exact ⟨fuel - 1, by omega⟩
      have hleft : ((bodyFrames sid endStream rounds (body.drop 16384)).flatMap encodeFrame).length ≤
          fuel := by
        have hsize : headerSize = 9 := rfl
        omega
      rw [gather_dataFrame hsid hpiece hg]
      split
      · -- END_STREAM is on the last piece
        rename_i hlast
        have hend : body.drop 16384 = [] :=
          List.isEmpty_iff.mp (Bool.and_eq_true _ _ ▸ hlast).1
        rw [hend, append_nil] at hsplit
        rw [hend, hnone, hsplit]
        rfl
      · have hg' : (withData g (body.take 16384)).streamId = sid := hg
        rw [ih hfewer hleft hg', withData, append_assoc, hsplit, Nat.add_assoc]
        rfl

theorem buildRequestWire_streamId (sid : Nat) (headers : List Field) (body : Bytes)
    (endStream : Bool) :
    buildRequestWire (sid % 2 ^ 31) headers body endStream =
      buildRequestWire sid headers body endStream := by
  have hbody : ∀ rounds body,
      (bodyFrames (sid % 2 ^ 31) endStream rounds body).flatMap encodeFrame =
        (bodyFrames sid endStream rounds body).flatMap encodeFrame := by
    intro rounds
    induction rounds with
    | zero => exact fun _ => rfl
    | succ rounds ih =>
      intro body
      rw [bodyFrames, bodyFrames]
      split
      · rfl
      · rw [flatMap_cons, flatMap_cons, ih]
        exact congrArg (· ++ _) (encodeFrame_streamId (dataFrame sid (body.take 16384) _))
  rw [buildRequestWire, buildRequestWire, hbody]
  exact congrArg (· ++ _) (encodeFrame_streamId (requestHeadersFrame sid headers _))

/-- A rebuilt request does not start with the preface of a connection: its first byte is
    the highest of the length of a short block. -/
theorem buildRequestWire_preface (hlist : overLimit defaultMaxHeaderListSize headers = false) :
    connectionPreface.isPrefixOf (buildRequestWire sid headers body endStream) = false := by
  have hblock := requestBlock_short hlist
  have htail : connectionPreface = 0x50 :: connectionPreface.tail := by decide
  have hfirst : byteAt (requestBlock headers).length 2 ≠ 0x50 := by
    intro heq
    have hnat := congrArg UInt8.toNat heq
    rw [byteAt_toNat] at hnat
    have hval : (0x50 : UInt8).toNat = 80 := rfl
    omega
  rw [htail]
  show ((0x50 : UInt8) == byteAt (requestBlock headers).length 2 && _) = false
  rw [beq_eq_false_iff_ne.mpr (Ne.symm hfirst), Bool.false_and]

/-- What the loop has gathered at the end of a rebuilt request. -/
def rebuilt (wire : Bytes) (sid : Nat) (headers : List Field) (body : Bytes) (dt : DynamicTable) :
    Gathered where
  cursor := wire.length
  streamId := sid % 2 ^ 31
  table := dt
  decodedHeaders := headers
  headersReceived := true
  bodyAccumulator := body

/-- `parse_request` reads the list and the body back. -/
theorem parseRequest_buildRequestWire
    (hlist : overLimit defaultMaxHeaderListSize headers = false) (sid : Nat) (body : Bytes)
    (endStream : Bool) (req : Request) (dt : DynamicTable) :
    parseRequest (buildRequestWire sid headers body endStream) req dt =
      finishRequest req dt (.success, rebuilt (buildRequestWire sid headers body endStream) sid
        headers body dt) := by
  have hsid : sid % 2 ^ 31 < 2 ^ 31 := Nat.mod_lt _ (by decide)
  have hpreface :
      connectionPreface.isPrefixOf (buildRequestWire sid headers body endStream) = false :=
    buildRequestWire_preface hlist
  rw [parseRequest, hpreface, rebuilt]
  rw [← buildRequestWire_streamId]
  generalize sid % 2 ^ 31 = sid at *
  have hframe := requestHeadersFrame_encodable hlist sid (endStream && body.isEmpty)
  have hwire : (buildRequestWire sid headers body endStream).length =
      (encodeFrame (requestHeadersFrame sid headers (endStream && body.isEmpty))).length +
        ((bodyFrames sid endStream body.length body).flatMap encodeFrame).length := by
    rw [buildRequestWire, length_append]
  obtain ⟨fuel, hfuel⟩ : ∃ k, (buildRequestWire sid headers body endStream).length = k + 1 := by
    rw [encodeFrame_length] at hwire
    have hsize : headerSize = 9 := rfl
    exact ⟨(buildRequestWire sid headers body endStream).length - 1, by omega⟩
  have hleft : ((bodyFrames sid endStream body.length body).flatMap encodeFrame).length ≤ fuel := by
    rw [encodeFrame_length] at hwire
    have hsize : headerSize = 9 := rfl
    omega
  have hdecoded : decodeHeaderBlock defaultMaxHeaderListSize (requestBlock headers) dt =
      ⟨true, false, headers, dt⟩ :=
    (requestBlock_spells headers).decodeHeaderBlock
      (Nat.lt_of_le_of_lt (requestBlock_short hlist) (by decide)) dt hlist
  refine congrArg (finishRequest req dt) ?_
  show gather .headersTooLarge (buildRequestWire sid headers body endStream).length
    { cursor := 0, streamId := req.streamId, table := dt }
    (buildRequestWire sid headers body endStream) = _
  have hcursor : fuel + 1 = _ := hfuel.symm.trans hwire
  rw [hfuel, buildRequestWire, gather_frame hframe hsid,
    onFrame_headers rfl (requestHeadersFrame_fragment _ _ _) hdecoded, if_pos rfl, turn,
    requestHeadersFrame_ends, hcursor]
  cases hend : endStream && body.isEmpty with
  | true =>
    -- END_STREAM: there is no body
    obtain rfl : body = [] := List.isEmpty_iff.mp (Bool.and_eq_true _ _ ▸ hend).2
    show (ParseResult.success, _) = _
    rw [Nat.zero_add]
    rfl
  | false =>
    show gather .headersTooLarge fuel _ _ = _
    rw [gather_bodyFrames hsid (Nat.le_refl _) hleft rfl, Nat.zero_add]
    rfl

end Http2RequestWire
