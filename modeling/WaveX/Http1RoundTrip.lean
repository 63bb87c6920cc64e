import WaveX.Http1Codec

/-! # HTTP/1 requests on the wire

    `parse_request` reads back what `serialize_request` writes, whatever follows it on the
    connection, and so it finds one request after the other.  A target must not hold what
    ends it, a space or a line break; a header name ends at its colon, and a value is
    stripped of the whitespace around it. -/

namespace Http1RoundTrip

open QuicVarInt HttpText Http1Codec List

/-! ## Fields -/

/-- A value without whitespace at its ends. -/
def Trimmed (value : Bytes) : Prop :=
  (∀ b ∈ value.head?, isOws b = false) ∧ ∀ b ∈ value.getLast?, isOws b = false

instance (value : Bytes) : Decidable (Trimmed value) := inferInstanceAs (Decidable (_ ∧ _))

/-- A header that stays the same on its line. -/
structure Sendable (h : Header) : Prop where
  name : colon ∉ h.1 ∧ lf ∉ h.1
  value : lf ∉ h.2 ∧ Trimmed h.2

instance (h : Header) : Decidable (Sendable h) :=
  decidable_of_iff ((colon ∉ h.1 ∧ lf ∉ h.1) ∧ lf ∉ h.2 ∧ Trimmed h.2)
    ⟨fun ⟨hname, hvalue⟩ => ⟨hname, hvalue⟩, fun ⟨hname, hvalue⟩ => ⟨hname, hvalue⟩⟩

variable {buffer rest value : Bytes} {c : Nat} {h : Header} {headers : List Header}

theorem stripOws_trimmed (htrimmed : Trimmed value) : stripOws (space :: value) = value := by
  obtain ⟨hhead, hlast⟩ := htrimmed
  have hleft : (space :: value).dropWhile isOws = value := by
    have hspace : isOws space = true := rfl
    rw [dropWhile_cons_of_pos hspace]
    cases value with
    | nil => rfl
    | cons b value => exact dropWhile_cons_of_neg (by rw [hhead b rfl]; decide)
  rw [stripOws, hleft, rdropWhile_eq_self_iff]
  intro hne
  rw [hlast _ (getLast?_eq_some_getLast hne)]
  decide

/-- A line is split at its first colon. -/
theorem parseField_sendable (hname : colon ∉ h.1) (hvalue : Trimmed h.2) :
    parseField (h.1 ++ text ": " ++ h.2) = some h := by
  have hline : h.1 ++ text ": " ++ h.2 = h.1 ++ colon :: (space :: h.2) := by
    rw [append_assoc]
    rfl
  rw [parseField, hline, splitFirst_append hname, Option.map_some, stripOws_trimmed hvalue]

theorem drop_of_append {a b : Bytes} (hdrop : buffer.drop c = a ++ b) :
    buffer.drop (c + a.length) = b := by
  rw [← drop_drop, hdrop, drop_left]

theorem lf_not_mem_field (hsend : Sendable h) : lf ∉ h.1 ++ text ": " ++ h.2 := by
  rw [mem_append, mem_append]
  rintro ((hname | hsep) | hvalue)
  · exact hsend.name.2 hname
  · exact absurd hsep (by decide)
  · exact hsend.value.1 hvalue

/-- The headers that were written are read back. -/
theorem headersAt_written (hsend : ∀ h ∈ headers, Sendable h)
    (hdrop : buffer.drop c = headers.flatMap fieldLine ++ crlf ++ rest) :
    HeadersAt buffer c headers (c + (headers.flatMap fieldLine ++ crlf).length) := by
  induction headers generalizing c with
  | nil => exact .blank (findNextLine_crlf hdrop not_mem_nil)
  | cons h headers ih =>
    have hfield := hsend h mem_cons_self
    have hne : h.1 ++ text ": " ++ h.2 ≠ [] := by
      intro hnil
      rw [append_assoc] at hnil
      exact nomatch (append_eq_nil_iff.mp (append_eq_nil_iff.mp hnil).2).1
    rw [flatMap_cons, append_assoc, append_assoc] at hdrop
    have hline : buffer.drop c = h.1 ++ text ": " ++ h.2 ++ crlf ++ _ := hdrop
    have hmore := ih (fun h' hh' => hsend h' (mem_cons_of_mem h hh'))
      ((drop_of_append hline).trans (append_assoc ..).symm)
    have hfind := findNextLine_crlf hline (lf_not_mem_field hfield)
    have hstop : c + ((h :: headers).flatMap fieldLine ++ crlf).length =
        c + (h.1 ++ text ": " ++ h.2 ++ crlf).length +
          (headers.flatMap fieldLine ++ crlf).length := by
      rw [flatMap_cons, append_assoc, length_append, Nat.add_assoc]
      rfl
    rw [hstop]
    exact .field hfind hne (parseField_sendable hfield.name.1 hfield.value.2) hmore

/-! ## Bodies -/

/-- A header that says nothing about the body. -/
def Neutral (h : Header) : Prop :=
  isEqual h.1 (text "Content-Length") = false ∧ isEqual h.1 (text "Transfer-Encoding") = false

instance (h : Header) : Decidable (Neutral h) := inferInstanceAs (Decidable (_ ∧ _))

theorem getHeader_append_none {name : String} {more : List Header}
    (hnone : ∀ h ∈ headers, isEqual h.1 (text name) = false) :
    getHeader (headers ++ more) name = getHeader more name := by
  have hfind : (headers.find? fun h => isEqual h.1 (text name)) = none :=
    find?_eq_none.mpr fun h hh => by rw [hnone h hh]; decide
  rw [getHeader, find?_append, hfind, Option.none_or]
  rfl

theorem addedLength_neutral (hneutral : ∀ h ∈ headers, Neutral h) (body : Bytes) :
    addedLength headers body =
      if body = [] then [] else [(text "Content-Length", decimal body.length)] := by
  have hany : (headers.any fun h => isEqual h.1 (text "Content-Length")) = false :=
    any_eq_false.mpr fun h hh => by rw [(hneutral h hh).1]; decide
  rw [addedLength, hany]
  simp only [Bool.false_eq_true, false_or]

theorem addedLength_sendable {body : Bytes} : ∀ h ∈ addedLength headers body, Sendable h := by
  intro h hh
  rw [addedLength] at hh
  split at hh
  · cases hh
  · obtain rfl := mem_singleton.mp hh
    obtain ⟨hdigits, -⟩ := decimal_digits body.length
    have hclean : ∀ b, isDigit b = true → b ≠ lf ∧ isOws b = false := by decide +kernel
    have hname : colon ∉ text "Content-Length" ∧ lf ∉ text "Content-Length" := by decide
    refine ⟨hname, fun hmem => (hclean lf (hdigits lf hmem)).1 rfl, fun b hb => ?_, fun b hb => ?_⟩
    · exact (hclean b (hdigits b (mem_of_head? hb))).2
    · exact (hclean b (hdigits b (mem_of_getLast? hb))).2

theorem isChunked_neutral (hneutral : ∀ h ∈ headers, Neutral h) (body : Bytes) :
    isChunked (headers ++ addedLength headers body) = false := by
  have hte : getHeader (headers ++ addedLength headers body) "Transfer-Encoding" = none := by
    rw [getHeader_append_none fun h hh => (hneutral h hh).2, addedLength]
    split
    · rfl
    · have hname : isEqual (text "Content-Length") (text "Transfer-Encoding") = false := by
        decide
      rw [getHeader_cons, hname]
      rfl
  rw [isChunked, hte]

/-- The length that was added is the length of the body that follows. -/
theorem extractBody_written {body : Bytes} (isRequest : Bool)
    (hneutral : ∀ h ∈ headers, Neutral h) (hsize : body.length < 2 ^ 64)
    (hempty : body = [] → isRequest = true ∨ rest = []) (hdrop : buffer.drop c = body ++ rest) :
    extractBody buffer c (headers ++ addedLength headers body) isRequest =
      some (.success body (c + body.length)) := by
  have hrest : buffer.length - c = body.length + rest.length := by
    rw [← length_drop, hdrop, length_append]
  have hlength : contentLength (headers ++ addedLength headers body) (buffer.length - c)
      isRequest = some body.length := by
    rw [contentLength, getHeader_append_none fun h hh => (hneutral h hh).1,
      addedLength_neutral hneutral]
    by_cases hbody : body = []
    · rw [if_pos hbody, hrest, hbody]
      obtain hrequest | hnil := hempty hbody
      · rw [hrequest]
        rfl
      · rw [hnil]
        cases isRequest with
        | true => rfl
        | false => rfl
    · have hname : isEqual (text "Content-Length") (text "Content-Length") = true := by
        decide
      rw [if_neg hbody, getHeader_cons, if_pos hname]
      dsimp only
      rw [fromChars_decimal hsize]
      rfl
  rw [extractBody, isChunked_neutral hneutral, if_neg Bool.false_ne_true, hlength]
  dsimp only
  rw [if_neg (by omega), hdrop, take_left]

/-! ## Requests -/

/-- A version number that is a single character other than a line break, as the digits
    are. -/
def VersionNumber (v : Int) : Prop := -176 ≤ v ∧ v ≤ 79 ∧ v ≠ -38

instance (v : Int) : Decidable (VersionNumber v) :=
  inferInstanceAs (Decidable (-176 ≤ v ∧ v ≤ 79 ∧ v ≠ -38))

/-- A request that `serialize_request` can put on the wire. -/
structure WellFormed (req : Request) : Prop where
  method : req.method ≠ .unknown
  target : space ∉ req.target ∧ lf ∉ req.target
  major : VersionNumber req.versionMajor
  minor : VersionNumber req.versionMinor
  headers : ∀ h ∈ req.headers, Sendable h
  neutral : ∀ h ∈ req.headers, Neutral h
  body : req.body.length < 2 ^ 64

/-- The request with the length that the encoder adds for a body. -/
def delivered (req : Request) : Request :=
  { req with headers := req.headers ++
      if req.body = [] then [] else [(text "Content-Length", decimal req.body.length)] }

/-- A version number is read back from its character. -/
theorem versionOf_versionChar {v : Int} (hv : VersionNumber v) :
    versionOf (versionChar v) = v ∧ versionChar v ≠ lf := by
  obtain ⟨hlow, hhigh, hbreak⟩ := hv
  have hall : ∀ k : Fin 256, (k : Int) - 176 ≠ -38 →
      versionOf (versionChar ((k : Int) - 176)) = (k : Int) - 176 ∧
        versionChar ((k : Int) - 176) ≠ lf := by decide +kernel
  have hk := hall ⟨(v + 176).toNat, by omega⟩
  have hcast : (((v + 176).toNat : Nat) : Int) - 176 = v := by omega
  simp only [hcast] at hk
  exact hk hbreak

theorem parseVersion_versionText {major minor : Int} (hmajor : VersionNumber major)
    (hminor : VersionNumber minor) (rest : Bytes) :
    parseVersion (versionText major minor ++ rest) = some (major, minor) := by
  have hstart : (text "HTTP/").isPrefixOf (versionText major minor ++ rest) = true := by
    rw [List.isPrefixOf_iff_prefix, versionText, append_assoc, append_assoc,
      append_assoc]
    exact prefix_append _ _
  have hdrop : (versionText major minor ++ rest).drop 5 =
      versionChar major :: 0x2e :: versionChar minor :: rest := rfl
  rw [parseVersion, if_pos hstart, hdrop]
  dsimp only
  rw [(versionOf_versionChar hmajor).1, (versionOf_versionChar hminor).1]

theorem method_name_clean : ∀ m : Method, space ∉ m.name ∧ lf ∉ m.name := by
  intro m
  cases m with
  | _ => decide

variable {req : Request}

theorem parseRequestLine_written (h : WellFormed req) :
    parseRequestLine (req.method.name ++ [space] ++ req.target ++ [space] ++
        versionText req.versionMajor req.versionMinor) =
      some (req.method, req.target, req.versionMajor, req.versionMinor) := by
  have hline : req.method.name ++ [space] ++ req.target ++ [space] ++
        versionText req.versionMajor req.versionMinor =
      req.method.name ++ space :: (req.target ++ space ::
        (versionText req.versionMajor req.versionMinor ++ [])) := by
    simp only [append_assoc, append_nil, nil_append, cons_append]
  rw [hline, parseRequestLine, splitFirst_append (method_name_clean req.method).1]
  simp only [Option.bind_eq_bind, Option.bind_some]
  rw [splitFirst_append h.target.1]
  simp only [Option.bind_some]
  rw [parseVersion_versionText h.major h.minor, Method.ofName_name req.method h.method]
  rfl

theorem lf_not_mem_version {major minor : Int} (hmajor : VersionNumber major)
    (hminor : VersionNumber minor) : lf ∉ versionText major minor := by
  have hfixed : lf ∉ text "HTTP/" ∧ lf ∉ text "." := by decide
  rw [versionText]
  simp only [mem_append, mem_singleton]
  rintro (((hhttp | hfirst) | hdot) | hsecond)
  · exact hfixed.1 hhttp
  · exact (versionOf_versionChar hmajor).2 hfirst.symm
  · exact hfixed.2 hdot
  · exact (versionOf_versionChar hminor).2 hsecond.symm

theorem lf_not_mem_requestLine (h : WellFormed req) :
    lf ∉ req.method.name ++ [space] ++ req.target ++ [space] ++
      versionText req.versionMajor req.versionMinor := by
  have hspace : lf ∉ [space] := by decide
  simp only [mem_append]
  rintro ((((hmethod | hfirst) | htarget) | hsecond) | hversion)
  · exact (method_name_clean req.method).2 hmethod
  · exact hspace hfirst
  · exact h.target.2 htarget
  · exact hspace hsecond
  · exact lf_not_mem_version h.major h.minor hversion

/-- `parse_request` reads back one request and leaves what follows it. -/
theorem parseRequest_written (h : WellFormed req) (r : Bytes) :
    parseRequest (serializeRequest req ++ r) =
      some (.success (delivered req) (serializeRequest req).length) := by
  have hadded := addedLength_neutral h.neutral req.body
  have hheaders : (delivered req).headers = req.headers ++ addedLength req.headers req.body := by
    rw [hadded]
    rfl
  generalize hbuffer : serializeRequest req ++ r = buffer
  have hparts : buffer.drop 0 = req.method.name ++ [space] ++ req.target ++ [space] ++
        versionText req.versionMajor req.versionMinor ++ crlf ++
      ((req.headers ++ addedLength req.headers req.body).flatMap fieldLine ++ crlf ++
        (req.body ++ r)) := by
    rw [← hbuffer, serializeRequest, serializeRest]
    simp only [drop_zero, append_assoc]
  have hline := findNextLine_crlf hparts (lf_not_mem_requestLine h)
  have hrest := drop_of_append hparts
  have hsend : ∀ f ∈ req.headers ++ addedLength req.headers req.body, Sendable f := by
    intro f hf
    obtain hf | hf := mem_append.mp hf
    · exact h.headers f hf
    · exact addedLength_sendable f hf
  have hat := headersAt_written hsend hrest
  have hbody := extractBody_written true h.neutral h.body (fun _ => .inl rfl)
    (drop_of_append hrest)
  rw [parseRequest_eq_success, hheaders]
  refine ⟨_, _, _, hline, parseRequestLine_written h, hat, hbody.trans ?_⟩
  rw [serializeRequest, serializeRest]
  simp only [length_append, Nat.zero_add, Nat.add_assoc]
  rfl

/-- The requests at the start of a buffer, one after the other, and what follows them. -/
def parseRequests : Nat → Bytes → Option (List Request × Bytes)
  | 0, buffer => some ([], buffer)
  | count + 1, buffer =>
      match parseRequest buffer with
      | some (.success req n) =>
          (parseRequests count (buffer.drop n)).map fun p => (req :: p.1, p.2)
      | _ => none

theorem parseRequests_written {reqs : List Request} (h : ∀ req ∈ reqs, WellFormed req)
    (r : Bytes) :
    parseRequests reqs.length (reqs.flatMap serializeRequest ++ r) =
      some (reqs.map delivered, r) := by
  induction reqs with
  | nil => rfl
  | cons req reqs ih =>
    rw [length_cons, parseRequests, flatMap_cons, append_assoc,
      parseRequest_written (h req mem_cons_self)]
    dsimp only
    rw [drop_left, ih fun req' hreq' => h req' (mem_cons_of_mem req hreq')]
    rfl

/-- **HTTP/1 request round trip.**  Whatever follows on the connection, a request that was
    serialized is read back and exactly its bytes are consumed; and requests that were
    serialized one after the other are read back as a list. -/
theorem request_round_trip :
    (∀ req, WellFormed req → ∀ r, parseRequest (serializeRequest req ++ r) =
        some (.success (delivered req) (serializeRequest req).length)) ∧
      ∀ reqs : List Request, (∀ req ∈ reqs, WellFormed req) → ∀ r,
        parseRequests reqs.length (reqs.flatMap serializeRequest ++ r) =
          some (reqs.map delivered, r) :=
  ⟨fun _ h r => parseRequest_written h r, fun _ h r => parseRequests_written h r⟩

/-- A request whose body looks like a further request. -/
def nested : Request :=
  { method := .post, target := text "/a?b=c", versionMinor := 0
    headers := [(text "Host", text "x"), (text "", text ""), (text "A b", text "c: d")]
    body := text "GET /b HTTP/1.1\r\n\r\n" }

theorem nested_wellFormed : WellFormed nested :=
  ⟨by decide, by decide, by decide, by decide, by decide +kernel, by decide,
    by decide⟩

/-- It is followed on the connection by its copy and the start of a third one. -/
theorem request_round_trip_nested :
    parseRequest (serializeRequest nested ++ text "GET") =
        some (.success (delivered nested) (serializeRequest nested).length) ∧
      parseRequests 2 ([nested, nested].flatMap serializeRequest ++ text "GET") =
        some ([nested, nested].map delivered, text "GET") := by
  have hall : ∀ req ∈ [nested, nested], WellFormed req := by
    intro req hreq
    obtain rfl | hreq := mem_cons.mp hreq
    · exact nested_wellFormed
    · obtain rfl := mem_singleton.mp hreq
      exact nested_wellFormed
  exact ⟨request_round_trip.1 nested nested_wellFormed _,
    request_round_trip.2 [nested, nested] hall _⟩

end Http1RoundTrip
