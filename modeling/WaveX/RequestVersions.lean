import WaveX.Http2RequestWire
import WaveX.Http3RequestArrival
import WaveX.Http3Validation

/-! # Requests of HTTP/2 and HTTP/3

    Both versions carry a request as a list of fields and a body.  `parse_request` of
    HTTP/3 refuses a list that is not well-formed; `parse_request` of HTTP/2 puts the
    pseudo-headers where they belong, looks at `:protocol`, and takes everything else.  So
    of the requests that HTTP/2 accepts, HTTP/3 accepts exactly those that are well-formed. -/

namespace RequestVersions

open QuicVarInt HttpText Http3Parser Http3RequestArrival Http3Validation Http2RequestWire
open Hpack (Field fieldSize overLimit)
open Http2Session (defaultMaxHeaderListSize)

/-! ## Well-formed requests -/

/-- A well-formed request: each field is proper, and stands in order to those before it
    (pseudo-headers first and once each, one content length), the fields that there have to
    be are there, and the content length is that of the body; the body of a CONNECT is
    empty, what follows it is its tunnel's. -/
structure WellFormed (headers : List Field) (body : Bytes) : Prop where
  proper : ∀ f ∈ headers, Proper f
  ordered : headers.Pairwise Ordered
  method : Has ":method" headers
  target : Connects headers ∨
    (∃ v, v ≠ [] ∧ (text ":path", v) ∈ headers) ∧ Has ":scheme" headers
  protocol : Has ":protocol" headers →
    Connects headers ∧ Has ":scheme" headers ∧ Has ":path" headers ∧ Has ":authority" headers
  length : ∀ v, (text "content-length", v) ∈ headers →
    parseContentLength v = some (if Connects headers then 0 else body.length)

/-- The request that HTTP/2 makes of a list. -/
def transferred (headers : List Field) : Http2Parser.Request :=
  headers.foldl Http2Parser.addRequestField {}

/-! ## HTTP/3 -/

variable {rounds cap : Nat} {dt : Qpack.DynamicTable} {s : RequestStream} {sec : Qpack.Section}
  {fields : Fields} {headers : List Field} {body : Bytes}

/-- The content length is that of the body exactly when every field that gives one gives
    that. -/
theorem declaredLength_iff (hl : Lawful headers) (size : Nat) :
    Complete (collect headers) size ↔
      ∀ v, (text "content-length", v) ∈ headers → parseContentLength v = some size := by
  constructor
  · intro h v hv
    have hsome := (hl.proper _ hv).length rfl
    have hfound := collect_length hl hv rfl
    obtain hnone | hsize := h
    · rw [← hfound, hnone] at hsome
      cases hsome
    · exact hfound.symm.trans hsize
  · intro h
    by_cases hany : ∃ v, (text "content-length", v) ∈ headers
    · obtain ⟨v, hv⟩ := hany
      exact .inr ((collect_length hl hv rfl).trans (h v hv))
    · refine .inl (collect_noLength fun g hg hname => hany ⟨g.2, ?_⟩)
      rw [← hname]
      exact hg

/-- Well-formed is lawful, with what there has to be, and complete. -/
theorem wellFormed_iff : WellFormed headers body ↔
    ∃ fields, validate headers = some fields ∧
      Complete fields (if Connects headers then 0 else body.length) := by
  constructor
  · intro h
    have hl : Lawful headers := ⟨h.proper, h.ordered⟩
    refine ⟨collect headers, validate_iff.mpr ⟨hl, ?_, rfl⟩, (declaredLength_iff hl _).mpr h.length⟩
    exact (hasRequired_iff hl).mpr ⟨h.method, h.target, h.protocol⟩
  · rintro ⟨fields, hvalid, hcomplete⟩
    obtain ⟨hl, hrequired, rfl⟩ := validate_iff.mp hvalid
    obtain ⟨hmethod, htarget, hprotocol⟩ := (hasRequired_iff hl).mp hrequired
    exact ⟨hl.proper, hl.ordered, hmethod, htarget, hprotocol, (declaredLength_iff hl _).mp hcomplete⟩

/-- A list that was decoded is within the cap: `add_header` has looked at each field. -/
theorem decodeLines_within {block : Bytes} {base fuel cursor : Nat} {old : List Field}
    (h : Qpack.decodeLines cap block dt base fuel cursor old = some sec) (hok : sec.ok = true)
    (hold : ¬ (0 < cap ∧ (old.map fieldSize).sum > cap)) :
    ¬ (0 < cap ∧ (sec.headers.map fieldSize).sum > cap) := by
  induction fuel generalizing cursor old with
  | zero => cases h
  | succ fuel ih =>
    rw [Qpack.decodeLines] at h
    split at h
    · obtain rfl := Option.some.inj h
      exact hold
    · split at h
      · obtain rfl := Option.some.inj h
        cases hok
      · split at h
        · obtain rfl := Option.some.inj h
          cases hok
        · next hadd =>
            refine ih h ?_
            rw [Qpack.addHeader] at hadd
            split at hadd
            · cases hadd
            · next hfits =>
                obtain rfl := Option.some.inj hadd
                rwa [List.map_append, List.sum_append, List.map_singleton, List.sum_singleton]

theorem decodeHeaderBlock_within {block : Bytes}
    (h : Qpack.decodeHeaderBlock cap block dt rounds = some sec) (hok : sec.ok = true) :
    ¬ (0 < cap ∧ (sec.headers.map fieldSize).sum > cap) := by
  rw [Qpack.decodeHeaderBlock] at h
  split at h
  · obtain rfl := Option.some.inj h
    cases hok
  · obtain rfl := Option.some.inj h
    cases hok
  · refine decodeLines_within h hok fun hover => ?_
    exact absurd hover.2 (Nat.not_lt_zero _)

/-- A block that is decoded is accepted as far as its list is. -/
theorem accepted_eq (hsec : Qpack.decodeHeaderBlock cap s.headers.payload dt rounds = some sec)
    (hok : sec.ok = true) : acceptedFields rounds cap dt s.headers.payload = validate sec.headers := by
  rw [acceptedFields, hsec, Option.bind_some, if_pos hok, sectionFields,
    if_neg (decodeHeaderBlock_within hsec hok)]

/-- What a call on the whole stream finishes with. -/
theorem finish_success_iff {st : ParserState} {old : Message} (hfields : st.fields = some fields)
    (hout : st.inDataFrame = false) :
    (finish st old).result = .success ↔ Complete fields st.bodyStorage.length := by
  constructor
  · intro h
    obtain ⟨fields', hsome, -, hcomplete⟩ := finish_success h
    rwa [Option.some.inj (hfields.symm.trans hsome)]
  · intro h
    rw [finish_complete hfields hout h]

/-- **HTTP/3 accepts the well-formed requests**, and no others. -/
theorem http3_accepts_iff
    (hsec : Qpack.decodeHeaderBlock cap s.headers.payload dt rounds = some sec)
    (hok : sec.ok = true) :
    (∃ o, Http3Parser.parseRequest rounds cap dt s.bytes {} = some o ∧ o.result = .success) ↔
      WellFormed sec.headers (content s.after) := by
  have haccepted := accepted_eq hsec hok
  rw [wellFormed_iff]
  cases hvalid : validate sec.headers with
  | none =>
    rw [hvalid] at haccepted
    constructor
    · rintro ⟨o, hcall, hsuccess⟩
      rw [RequestStream.bytes, parseRequest_new (head_ne_nil _)] at hcall
      obtain hrun | hrun | hrun := run_refused haccepted (wire s.after)
      · rw [hrun] at hcall
        cases hcall
      · rw [hrun] at hcall
        rw [← Option.some.inj hcall] at hsuccess
        cases hsuccess
      · rw [hrun] at hcall
        rw [← Option.some.inj hcall] at hsuccess
        cases hsuccess
    · rintro ⟨fields, ⟨⟩, -⟩
  | some fields =>
    rw [hvalid] at haccepted
    obtain ⟨hl, -, hcollect⟩ := validate_iff.mp hvalid
    have hmethod : fields.method = some .connect ↔ Connects sec.headers := by
      rw [hcollect]
      exact method_connect hl
    have hfinal : ∀ st, Http3Parser.parseRequest rounds cap dt s.bytes {} = some (finish st {}) →
        st.fields = some fields → st.inDataFrame = false → ∀ size, st.bodyStorage.length = size →
          ((∃ o, Http3Parser.parseRequest rounds cap dt s.bytes {} = some o ∧
            o.result = .success) ↔ ∃ found, some fields = some found ∧ Complete found size) := by
      rintro st hcall hfields hout size rfl
      rw [hcall]
      constructor
      · rintro ⟨o, ho, hsuccess⟩
        rw [← Option.some.inj ho] at hsuccess
        exact ⟨fields, rfl, (finish_success_iff hfields hout).mp hsuccess⟩
      · rintro ⟨found, ⟨⟩, hcomplete⟩
        exact ⟨_, rfl, (finish_success_iff hfields hout).mpr hcomplete⟩
    by_cases hconnect : fields.method = some .connect
    · rw [if_pos (hmethod.mp hconnect)]
      refine hfinal (s.start fields) (parse_tunnel haccepted hconnect (wire s.after)) rfl rfl 0 ?_
      rw [start_body]
      rfl
    · rw [if_neg (fun h => hconnect (hmethod.mpr h))]
      have hcall := parse_body (List.append_nil s.after).symm haccepted hconnect
      refine hfinal (advanced s.after (s.start fields)) hcall rfl rfl _ ?_
      rw [advanced_body]

/-! ## HTTP/2 -/

/-- The transfer of the fields leaves the stream alone. -/
theorem transfer_streamId (sid : Nat) (req : Http2Parser.Request) :
    headers.foldl Http2Parser.addRequestField { req with streamId := sid } =
      { headers.foldl Http2Parser.addRequestField req with streamId := sid } := by
  induction headers generalizing req with
  | nil => rfl
  | cons f headers ih =>
    have hfield : Http2Parser.addRequestField { req with streamId := sid } f =
        { Http2Parser.addRequestField req f with streamId := sid } := by
      rw [Http2Parser.addRequestField, Http2Parser.addRequestField]
      repeat' split
      all_goals rfl
    rw [List.foldl_cons, List.foldl_cons, hfield, ih]

/-- **HTTP/2 accepts every request** but one that misuses `:protocol`. -/
theorem http2_accepts_iff (hlimit : overLimit defaultMaxHeaderListSize headers = false)
    (sid : Nat) (body : Bytes) (dt : Hpack.DynamicTable) :
    (Http2Parser.parseRequest (buildRequestWire sid headers body true) {} dt).result = .success ↔
      Http2Parser.protocolMisused (transferred headers) = false := by
  have hfilled : headers.foldl Http2Parser.addRequestField { streamId := sid % 2 ^ 31 } =
      { transferred headers with streamId := sid % 2 ^ 31 } := transfer_streamId _ {}
  have hmisused : Http2Parser.protocolMisused { transferred headers with
      streamId := sid % 2 ^ 31 } = Http2Parser.protocolMisused (transferred headers) := rfl
  rw [parseRequest_buildRequestWire hlimit, Http2Parser.finishRequest, rebuilt]
  dsimp only
  rw [if_neg (fun h => h rfl), if_neg (fun h => h rfl), hfilled, hmisused]
  cases Http2Parser.protocolMisused (transferred headers) with
  | true =>
    rw [if_pos rfl]
    exact ⟨by rintro ⟨⟩, by rintro ⟨⟩⟩
  | false =>
    rw [if_neg Bool.false_ne_true]
    exact ⟨fun _ => rfl, fun _ => rfl⟩

/-! ## The two versions -/

/-- What HTTP/2 accepts HTTP/3 accepts too, exactly for the requests that HTTP/2 refuses
    for their `:protocol` and for those that are well-formed. -/
theorem versions_agree_iff
    (hsec : Qpack.decodeHeaderBlock cap s.headers.payload dt rounds = some sec)
    (hok : sec.ok = true) (hlimit : overLimit defaultMaxHeaderListSize sec.headers = false)
    (sid : Nat) (table : Hpack.DynamicTable) :
    ((Http2Parser.parseRequest (buildRequestWire sid sec.headers (content s.after) true) {}
        table).result = .success →
      ∃ o, Http3Parser.parseRequest rounds cap dt s.bytes {} = some o ∧ o.result = .success) ↔
      (Http2Parser.protocolMisused (transferred sec.headers) = true ∨
        WellFormed sec.headers (content s.after)) := by
  rw [http2_accepts_iff hlimit, http3_accepts_iff hsec hok]
  cases Http2Parser.protocolMisused (transferred sec.headers) with
  | true => exact ⟨fun _ => .inl rfl, fun _ => by rintro ⟨⟩⟩
  | false =>
    constructor
    · exact fun h => .inr (h rfl)
    · rintro (⟨⟨⟩⟩ | hwell) -
      exact hwell

/-- A GET of "/", with "hi" as its body. -/
theorem versions_agree_get : ∃ sec,
    Qpack.decodeHeaderBlock 65536 getStream.headers.payload {} 20 = some sec ∧
    ((Http2Parser.parseRequest (buildRequestWire 1 sec.headers (content getStream.after) true) {}
        {}).result = .success →
      ∃ o, Http3Parser.parseRequest 20 65536 {} getStream.bytes {} = some o ∧
        o.result = .success) ∧
    WellFormed sec.headers (content getStream.after) := by
  have hsec : Qpack.decodeHeaderBlock 65536 getStream.headers.payload {} 20 = some
      { headers := [(text ":method", text "GET"), (text ":scheme", text "https"),
          (text ":path", text "/")]
        ok := true } := by decide
  have hwell : WellFormed [(text ":method", text "GET"), (text ":scheme", text "https"),
      (text ":path", text "/")] (content getStream.after) := by
    refine wellFormed_iff.mpr ⟨_, rfl, ?_⟩
    exact .inl rfl
  exact ⟨_, hsec, (versions_agree_iff hsec rfl (by decide) 1 {}).mpr (.inr hwell),
    hwell⟩

theorem unknown_nil : ∀ f ∈ ([] : List WireFrame), Unknown f.type := List.forall_mem_nil _

/-- The stream of a field section with a method and nothing else. -/
def bareStream : RequestStream where
  before := []
  headers := ⟨typeHeaders, [0x01, 0x03], [0x00, 0x00, 0xd1], by decide⟩
  after := []
  unknown := unknown_nil
  first := rfl
  allowed := List.forall_mem_nil _

/-- HTTP/2 takes it, without a path and a scheme. -/
theorem bare_method_differs : ¬ ∀ (rounds cap : Nat) (dt : Qpack.DynamicTable) (s : RequestStream)
    (sec : Qpack.Section) (sid : Nat),
      Qpack.decodeHeaderBlock cap s.headers.payload dt rounds = some sec → sec.ok = true →
      overLimit defaultMaxHeaderListSize sec.headers = false →
      (Http2Parser.parseRequest (buildRequestWire sid sec.headers (content s.after) true) {}
        {}).result = .success →
      ∃ o, Http3Parser.parseRequest rounds cap dt s.bytes {} = some o ∧ o.result = .success := by
  intro h
  have hsec : Qpack.decodeHeaderBlock 65536 bareStream.headers.payload {} 20 = some
      { headers := [(text ":method", text "GET")], ok := true } := by decide
  have hlimit : overLimit defaultMaxHeaderListSize [(text ":method", text "GET")] = false := by
    decide
  have haccepts := (http2_accepts_iff hlimit 1 (content bareStream.after) {}).mpr (by decide)
  obtain ⟨o, hcall, hsuccess⟩ := h 20 65536 {} bareStream _ 1 hsec rfl hlimit haccepts
  have hrefused : (Http3Parser.parseRequest 20 65536 {} bareStream.bytes {}).map
      (fun o => o.result) = some .error := by decide
  rw [hcall, Option.map_some, hsuccess] at hrefused
  cases hrefused

end RequestVersions
