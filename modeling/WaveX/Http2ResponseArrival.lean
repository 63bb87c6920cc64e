import WaveX.Http2Parser

/-! # Responses that arrive in pieces

    A client hands `parse_response` the bytes it has so far and calls it again when there
    are more.  The parser waits inside a frame.  Between two frames it does not: once a
    HEADERS frame has been read, bytes that run out at the end of a frame are taken for
    the whole response, whether END_STREAM has been seen or not.  So every response of
    more than one frame has a prefix that does not wait. -/

namespace Http2ResponseArrival

open QuicVarInt Hpack Http2Frames Http2FrameCodec Http2Parser List
open Http2Session (defaultMaxHeaderListSize)

/-! ## Complete responses -/

/-- The frames of a complete response: HEADERS, any CONTINUATION frames, any DATA frames.
    END_HEADERS ends the header block and END_STREAM the response, and the header block
    as a whole is one that the parser's decoder accepts. -/
structure CompleteResponse (dt : DynamicTable) (h : Frame) (continuations data : List Frame) :
    Prop where
  encodable : ∀ f ∈ h :: (continuations ++ data), Encodable f ∧ f.streamId < 2 ^ 31
  sameStream : ∀ f ∈ continuations ++ data, f.streamId = h.streamId
  headersType : h.type = .headers
  continuationType : ∀ f ∈ continuations, f.type = .continuation
  dataType : ∀ f ∈ data, f.type = .data ∧ (dataPayload f).isSome
  endHeaders : (h :: continuations).map (·.hasFlag flagEndHeaders) =
    List.replicate continuations.length false ++ [true]
  endStream : (h :: data).map (·.hasFlag flagEndStream) =
    List.replicate data.length false ++ [true]
  block : ∃ fragment, headersFragment h = some fragment ∧
    (decodeHeaderBlock defaultMaxHeaderListSize (fragment ++ continuations.flatMap Frame.payload)
      dt).ok = true

/-- The bytes of a response. -/
def wire (h : Frame) (continuations data : List Frame) : Bytes :=
  (h :: (continuations ++ data)).flatMap encodeFrame

/-- Every proper prefix waits, with nothing consumed and the table as it was, and the whole
    is accepted. -/
structure StableUnderArrival (bytes : Bytes) (res : Response) (dt : DynamicTable) : Prop where
  waits : ∀ part, part <+: bytes → part ≠ bytes →
    (parseResponse part res dt).result = .incomplete ∧
      (parseResponse part res dt).bytesConsumed = 0 ∧ (parseResponse part res dt).table = dt
  succeeds : (parseResponse bytes res dt).result = .success

/-! ## The parser on one frame -/

variable {h : Frame}

/-- A HEADERS frame alone gives a result, whatever its flags: its fragment decodes or it
    does not. -/
theorem parseResponse_headers (hencodable : Encodable h) (hsid : h.streamId < 2 ^ 31)
    (htype : h.type = .headers) {fragment : Bytes} (hfragment : headersFragment h = some fragment)
    (res : Response) (dt : DynamicTable) :
    (parseResponse (encodeFrame h) res dt).result =
      if (decodeHeaderBlock defaultMaxHeaderListSize fragment dt).ok then .success
      else .error := by
  have hne : encodeFrame h ≠ [] := cons_ne_nil _ _
  obtain ⟨fuel, hfuel⟩ := Nat.exists_eq_succ_of_ne_zero
    (Nat.ne_of_gt (length_pos_iff.mpr hne))
  generalize hd : decodeHeaderBlock defaultMaxHeaderListSize fragment dt = d
  rw [parseResponse, hfuel]
  nth_rewrite 1 [← append_nil (encodeFrame h)]
  rw [gather_frame hencodable hsid, onFrame_headers htype hfragment hd]
  cases hok : d.ok with
  | false =>
    rw [if_neg Bool.false_ne_true, if_neg Bool.false_ne_true, ite_self]
    rfl
  | true =>
    rw [if_pos rfl, if_pos rfl, turn]
    cases h.hasFlag flagEndStream with
    | true => rfl
    | false =>
      rw [if_neg Bool.false_ne_true]
      dsimp only
      rw [gather_nil]
      rfl

/-- Inside the first frame the parser waits. -/
theorem parseResponse_cut (hencodable : Encodable h) {part : Bytes}
    (hpre : part <+: encodeFrame h) (hlength : part.length < (encodeFrame h).length)
    (res : Response) (dt : DynamicTable) : (parseResponse part res dt).result = .incomplete := by
  rw [parseResponse]
  cases part with
  | nil => rfl
  | cons b part =>
    rw [length_cons, gather, if_neg (cons_ne_nil _ _),
      parseFrame_cut hencodable hpre hlength]
    rfl

/-- The parser gives nothing away before it succeeds. -/
theorem parseResponse_keeps {buffer : Bytes} {res : Response} {dt : DynamicTable}
    (hresult : (parseResponse buffer res dt).result ≠ .success) :
    (parseResponse buffer res dt).bytesConsumed = 0 ∧
      (parseResponse buffer res dt).table = dt := by
  rw [parseResponse] at hresult ⊢
  generalize gather .error buffer.length { streamId := res.streamId, table := dt } buffer = p
    at hresult ⊢
  obtain ⟨r, g⟩ := p
  rw [finishResponse] at hresult ⊢
  split
  · exact ⟨rfl, rfl⟩
  · rename_i hr
    rw [if_neg hr] at hresult
    split
    · exact ⟨rfl, rfl⟩
    · rename_i hreceived
      rw [if_neg hreceived] at hresult
      exact absurd rfl hresult

/-! ## The exact condition -/

/-- **Responses that are stable under arrival** are those of a single HEADERS frame. -/
theorem stable_under_arrival_iff {dt : DynamicTable} {h : Frame} {continuations data : List Frame}
    (hcomplete : CompleteResponse dt h continuations data) (res : Response) :
    StableUnderArrival (wire h continuations data) res dt ↔ continuations = [] ∧ data = [] := by
  obtain ⟨hencodable, hsid⟩ := hcomplete.encodable h mem_cons_self
  obtain ⟨fragment, hfragment, hdecodes⟩ := hcomplete.block
  have hheaders := parseResponse_headers hencodable hsid hcomplete.headersType hfragment res dt
  have hwire : wire h continuations data =
      encodeFrame h ++ (continuations ++ data).flatMap encodeFrame := flatMap_cons ..
  constructor
  · -- after the first frame the parser has a result, so nothing may follow it
    intro hstable
    by_contra hmore
    have hrest : encodeFrame h ≠ wire h continuations data := by
      intro heq
      have hnil : (continuations ++ data).flatMap encodeFrame = [] :=
        append_right_eq_self.mp (heq.trans hwire).symm
      cases hframes : continuations ++ data with
      | nil => exact hmore (append_eq_nil_iff.mp hframes)
      | cons f frames =>
        rw [hframes, flatMap_cons] at hnil
        exact absurd (append_eq_nil_iff.mp hnil).1 (cons_ne_nil _ _)
    obtain ⟨hwaits, -, -⟩ := hstable.waits (encodeFrame h) (hwire ▸ prefix_append _ _) hrest
    rw [hheaders] at hwaits
    split at hwaits <;> cases hwaits
  · rintro ⟨rfl, rfl⟩
    have hsingle : wire h [] [] = encodeFrame h := by
      rw [hwire, append_nil, flatMap_nil, append_nil]
    rw [flatMap_nil, append_nil] at hdecodes
    rw [hdecodes, if_pos rfl] at hheaders
    rw [hsingle]
    constructor
    · intro part hpre hpart
      have hlength : part.length < (encodeFrame h).length := by
        refine Nat.lt_of_le_of_ne hpre.length_le fun heq => hpart ?_
        exact hpre.eq_of_length heq
      have hincomplete := parseResponse_cut hencodable hpre hlength res dt
      have hresult : (parseResponse part res dt).result ≠ .success := by
        rw [hincomplete]
        decide
      obtain ⟨hconsumed, htable⟩ := parseResponse_keeps hresult
      exact ⟨hincomplete, hconsumed, htable⟩
    · exact hheaders

/-- HEADERS with status 200 and END_HEADERS. -/
def okHeaders (flags : Nat) : Frame :=
  { type := .headers, flags := flags ||| flagEndHeaders, streamId := 1, payload := [0x88] }

/-- A response without a body. -/
theorem stable_under_arrival_single :
    StableUnderArrival (wire (okHeaders flagEndStream) [] []) {} {} := by
  refine (stable_under_arrival_iff ?_ {}).mpr ⟨rfl, rfl⟩
  constructor
  · intro f hf
    obtain rfl := mem_singleton.mp hf
    exact ⟨⟨by decide, by decide, by decide⟩, by decide⟩
  · intro f hf
    cases hf
  · rfl
  · intro f hf
    cases hf
  · intro f hf
    cases hf
  · decide
  · decide
  · exact ⟨[0x88], by decide, by decide⟩

/-- The body of the response below. -/
def bodyFrame : Frame := dataFrame 1 (text "hi") true

/-- The HEADERS frame of a response with a body is taken for the whole response when its
    DATA frame has not arrived yet: the parser succeeds with an empty body, where the
    whole has one. -/
theorem headers_taken_for_response :
    CompleteResponse {} (okHeaders 0) [] [bodyFrame] ∧
      encodeFrame (okHeaders 0) <+: wire (okHeaders 0) [] [bodyFrame] ∧
      parseResponse (encodeFrame (okHeaders 0)) {} {} = ⟨.success, {}, 10, {}⟩ ∧
      parseResponse (wire (okHeaders 0) [] [bodyFrame]) {} {} =
        ⟨.success, { body := text "hi" }, 21, {}⟩ ∧
      ¬ StableUnderArrival (wire (okHeaders 0) [] [bodyFrame]) {} {} := by
  have hcomplete : CompleteResponse {} (okHeaders 0) [] [bodyFrame] := by
    constructor
    · intro f hf
      obtain rfl | hdata := mem_cons.mp hf
      · exact ⟨⟨by decide, by decide, by decide⟩, by decide⟩
      · obtain rfl := mem_singleton.mp hdata
        exact ⟨⟨by decide, by decide, by decide⟩, by decide⟩
    · intro f hf
      obtain rfl := mem_singleton.mp hf
      rfl
    · rfl
    · intro f hf
      cases hf
    · intro f hf
      obtain rfl := mem_singleton.mp hf
      exact ⟨rfl, by decide⟩
    · decide
    · decide
    · exact ⟨[0x88], by decide, by decide⟩
  have hpart : parseResponse (encodeFrame (okHeaders 0)) {} {} = ⟨.success, {}, 10, {}⟩ := by
    decide
  have hwhole : parseResponse (wire (okHeaders 0) [] [bodyFrame]) {} {} =
      ⟨.success, { body := text "hi" }, 21, {}⟩ := by decide
  refine ⟨hcomplete, ⟨encodeFrame bodyFrame, by decide⟩, hpart, hwhole, ?_⟩
  intro hstable
  obtain ⟨hincomplete, -, -⟩ := hstable.waits (encodeFrame (okHeaders 0))
    ⟨encodeFrame bodyFrame, by decide⟩ (by decide)
  rw [hpart] at hincomplete
  cases hincomplete

end Http2ResponseArrival
