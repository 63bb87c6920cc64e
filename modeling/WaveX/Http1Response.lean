import WaveX.Http1RoundTrip

/-! # HTTP/1 responses on the wire

    `HttpResponse` of `include/wavex/protos/http/HttpResponse.hpp` with the HTTP/1 codec: a
    handler sets the status, headers and the body, and the server writes what
    `serialize_to` makes of it.  The encoder writes a Content-Length only for a body that
    is not empty.  A response without one ends, for `parse_response`, where the bytes end,
    so an empty body takes everything that follows on the connection. -/

namespace Http1Response

open QuicVarInt HttpText Http1Codec Http1RoundTrip List

/-! ## The response object -/

/-- The table of `status_text_for`. -/
def statusTexts : List (Nat × String) :=
  [(100, "Continue"), (101, "Switching Protocols"), (200, "OK"), (201, "Created"),
   (204, "No Content"), (301, "Moved Permanently"), (302, "Found"), (303, "See Other"),
   (304, "Not Modified"), (307, "Temporary Redirect"), (308, "Permanent Redirect"),
   (400, "Bad Request"), (401, "Unauthorized"), (403, "Forbidden"), (404, "Not Found"),
   (405, "Method Not Allowed"), (408, "Request Timeout"), (413, "Payload Too Large"),
   (426, "Upgrade Required"), (429, "Too Many Requests"), (500, "Internal Server Error"),
   (501, "Not Implemented"), (502, "Bad Gateway"), (503, "Service Unavailable")]

/-- `status_text_for`. -/
def statusTextFor (code : Nat) : Bytes :=
  match statusTexts.find? fun e => e.1 == code with
  | some e => text e.2
  | none => text "Unknown"

/-- `HttpResponse`; the header store and the views of it are one list. -/
structure HttpResponse where
  statusCode : Nat := 200
  statusText : Bytes := text "OK"
  versionMajor : Nat := 1
  versionMinor : Nat := 1
  headers : List Header := []
  body : Bytes := []
  isSent : Bool := false
  isHeadersSent : Bool := false
  deriving DecidableEq, Repr

/-- The header list after `set_impl`: a name that is there, in any letter case, keeps its
    place and its spelling. -/
def setHeader (name value : Bytes) : List Header → List Header
  | [] => [(name, value)]
  | h :: rest =>
      if isEqual h.1 name then (h.1, value) :: rest else h :: setHeader name value rest

/-- `set_impl`. -/
def HttpResponse.set (res : HttpResponse) (name value : Bytes) : HttpResponse :=
  { res with headers := setHeader name value res.headers }

/-- `status` with a code. -/
def HttpResponse.status (res : HttpResponse) (code : Nat) : HttpResponse :=
  { res with statusCode := code, statusText := statusTextFor code }

/-- `send_impl`. -/
def HttpResponse.send (res : HttpResponse) (body : Bytes) : HttpResponse :=
  if res.isSent then res else { res with body, isSent := true }

/-- The message that the object hands to the encoder. -/
def HttpResponse.message (res : HttpResponse) : Response :=
  { statusCode := res.statusCode
    statusText := if res.statusText = [] ∨ res.statusText = text "OK" ∧ res.statusCode ≠ 200 then
      statusTextFor res.statusCode else res.statusText
    versionMajor := res.versionMajor
    versionMinor := res.versionMinor
    headers := res.headers
    body := res.body }

/-- `serialize_to`. -/
def HttpResponse.serializeTo (res : HttpResponse) : Bytes := serializeInto res.message

/-- A call by which a handler makes a response; `statusWith` is `status` with a text. -/
inductive Call where
  | status (code : Nat)
  | statusWith (code : Nat) (statusText : Bytes)
  | set (name value : Bytes)
  | send (body : Bytes)
  deriving DecidableEq, Repr

def HttpResponse.call (res : HttpResponse) : Call → HttpResponse
  | .status code => res.status code
  | .statusWith code statusText => { res with statusCode := code, statusText }
  | .set name value => res.set name value
  | .send body => res.send body

/-- A response made by calls. -/
def built (calls : List Call) : HttpResponse := calls.foldl HttpResponse.call {}

/-! ## What calls make -/

/-- A call with a status code, and with a header or a text without line breaks that says
    nothing about the body. -/
def Allowed : Call → Prop
  | .status code => code < 2 ^ 32
  | .statusWith code statusText => code < 2 ^ 32 ∧ lf ∉ statusText
  | .set name value => lf ∉ name ∧ lf ∉ value ∧ Neutral (name, value)
  | .send body => body.length < 2 ^ 64

/-- A response that can be serialized: no line break outside the body. -/
structure Serializable (res : HttpResponse) : Prop where
  code : res.statusCode < 2 ^ 32
  statusText : lf ∉ res.statusText
  major : res.versionMajor < 10
  minor : res.versionMinor < 10
  headers : ∀ h ∈ res.headers, lf ∉ h.1 ∧ lf ∉ h.2
  body : res.body.length < 2 ^ 64

variable {res : HttpResponse} {name value : Bytes} {headers : List Header}

theorem setHeader_mem {h : Header} (hh : h ∈ setHeader name value headers) :
    h ∈ headers ∨ h.2 = value ∧ (h.1 = name ∨ ∃ h' ∈ headers, h'.1 = h.1) := by
  induction headers with
  | nil =>
    obtain rfl := mem_singleton.mp hh
    exact .inr ⟨rfl, .inl rfl⟩
  | cons e headers ih =>
    rw [setHeader] at hh
    split at hh
    · obtain rfl | hh := mem_cons.mp hh
      · exact .inr ⟨rfl, .inr ⟨e, mem_cons_self, rfl⟩⟩
      · exact .inl (mem_cons_of_mem e hh)
    · obtain rfl | hh := mem_cons.mp hh
      · exact .inl mem_cons_self
      · obtain hold | ⟨hvalue, hname | ⟨h', hh', hname⟩⟩ := ih hh
        · exact .inl (mem_cons_of_mem e hold)
        · exact .inr ⟨hvalue, .inl hname⟩
        · exact .inr ⟨hvalue, .inr ⟨h', mem_cons_of_mem e hh', hname⟩⟩

theorem statusTextFor_clean (code : Nat) : lf ∉ statusTextFor code ∧ statusTextFor code ≠ [] := by
  have hall : ∀ e ∈ statusTexts, lf ∉ text e.2 ∧ text e.2 ≠ [] := by decide
  rw [statusTextFor]
  split
  · rename_i e he
    exact hall e (mem_of_find?_eq_some he)
  · decide

/-- A header without line feeds keeps a response serializable. -/
theorem Serializable.set (h : Serializable res) (hname : lf ∉ name) (hvalue : lf ∉ value) :
    Serializable (res.set name value) := by
  refine { h with headers := fun e he => ?_ }
  obtain hold | ⟨rfl, rfl | ⟨h', hh', hsame⟩⟩ := setHeader_mem he
  · exact h.headers e hold
  · exact ⟨hname, hvalue⟩
  · exact ⟨hsame ▸ (h.headers h' hh').1, hvalue⟩

/-- Setting a header keeps what holds of all names. -/
theorem setHeader_names {P : Bytes → Prop} (h : ∀ f ∈ headers, P f.1) (hname : P name) :
    ∀ f ∈ setHeader name value headers, P f.1 := by
  intro f hf
  obtain hold | ⟨-, rfl | ⟨f', hf', hsame⟩⟩ := setHeader_mem hf
  · exact h f hold
  · exact hname
  · exact hsame ▸ h f' hf'

theorem Serializable.send (h : Serializable res) {body : Bytes} (hbody : body.length < 2 ^ 64) :
    Serializable (res.send body) := by
  rw [HttpResponse.send]
  split
  · exact h
  · exact { h with body := hbody }

theorem send_headers (res : HttpResponse) (body : Bytes) :
    (res.send body).headers = res.headers := by
  rw [HttpResponse.send]
  split
  · rfl
  · rfl

theorem call_serializable {c : Call} (h : Serializable res ∧ ∀ f ∈ res.headers, Neutral f)
    (hc : Allowed c) : Serializable (res.call c) ∧ ∀ f ∈ (res.call c).headers, Neutral f := by
  obtain ⟨hres, hneutral⟩ := h
  cases c with
  | status code =>
    exact ⟨{ hres with code := hc, statusText := (statusTextFor_clean code).1 }, hneutral⟩
  | statusWith code statusText => exact ⟨{ hres with code := hc.1, statusText := hc.2 }, hneutral⟩
  | set name value =>
    exact ⟨hres.set hc.1 hc.2.1, setHeader_names (P := fun n => Neutral (n, [])) hneutral hc.2.2⟩
  | send body => exact ⟨hres.send hc, fun f hf => hneutral f (send_headers res body ▸ hf)⟩

theorem initial_serializable : Serializable {} :=
  ⟨by decide, by decide, by decide, by decide, nofun, by decide⟩

/-- So do any calls that are allowed. -/
theorem built_serializable {calls : List Call} (hcalls : ∀ c ∈ calls, Allowed c) :
    Serializable (built calls) ∧ ∀ f ∈ (built calls).headers, Neutral f := by
  rw [built]
  refine List.foldlRecOn (motive := fun res => Serializable res ∧ ∀ f ∈ res.headers, Neutral f)
    calls HttpResponse.call ⟨initial_serializable, nofun⟩ ?_
  intro res hres c hc
  exact call_serializable hres (hcalls c hc)

/-! ## The status line -/

theorem message_text_clean (h : Serializable res) :
    lf ∉ res.message.statusText ∧ res.message.statusText ≠ [] := by
  show lf ∉ (if _ then _ else _) ∧ (if _ then _ else _) ≠ []
  split
  · exact statusTextFor_clean res.statusCode
  · rename_i hown
    exact ⟨h.statusText, fun hnil => hown (.inl hnil)⟩

theorem version_clean {v : Nat} (hv : v < 10) :
    VersionNumber v ∧ versionChar v ≠ space := by
  have hall : ∀ v < 10, VersionNumber (v : Nat) ∧ versionChar (v : Nat) ≠ space := by decide
  exact hall v hv

/-- The status line of a response. -/
def statusLine (m : Response) : Bytes :=
  versionText m.versionMajor m.versionMinor ++ [space] ++ decimal m.statusCode ++ [space] ++
    m.statusText

/-- The status line is read back. -/
theorem parseStatusLine_written (h : Serializable res) :
    parseStatusLine (statusLine res.message) =
      some ((res.message.versionMajor, res.message.versionMinor), res.message.statusCode,
        res.message.statusText) := by
  obtain ⟨hmajor, hspace⟩ := version_clean h.major
  obtain ⟨hminor, hspace'⟩ := version_clean h.minor
  have hcode : (decimal res.statusCode).length ≠ 0 := fun hzero =>
    decimal_ne_nil _ (eq_nil_of_length_eq_zero hzero)
  have htext : res.message.statusText.length ≠ 0 := fun hzero =>
    (message_text_clean h).2 (eq_nil_of_length_eq_zero hzero)
  have hlong : ¬ (statusLine res.message).length < 12 := by
    have hversion :
        (versionText res.message.versionMajor res.message.versionMinor).length = 8 := rfl
    have hsame : res.message.statusCode = res.statusCode := rfl
    rw [statusLine]
    simp only [length_append, hversion, length_singleton, hsame]
    omega
  have hfirst : space ∉ versionText res.message.versionMajor res.message.versionMinor := by
    have hfixed : space ∉ text "HTTP/" ∧ space ∉ text "." := by decide
    rw [versionText]
    simp only [mem_append, mem_singleton]
    rintro (((hhttp | hchar) | hdot) | hchar)
    · exact hfixed.1 hhttp
    · exact hspace hchar.symm
    · exact hfixed.2 hdot
    · exact hspace' hchar.symm
  have hdigits : space ∉ decimal res.message.statusCode := fun hmem =>
    absurd ((decimal_digits _).1 space hmem) (by decide)
  have hparts : statusLine res.message =
      versionText res.message.versionMajor res.message.versionMinor ++ space ::
        (decimal res.message.statusCode ++ space :: res.message.statusText) := by
    rw [statusLine]
    simp only [append_assoc, cons_append, nil_append]
  have hversion : parseVersion (versionText res.message.versionMajor res.message.versionMinor ++
      space :: (decimal res.message.statusCode ++ space :: res.message.statusText)) =
      some (res.message.versionMajor, res.message.versionMinor) :=
    parseVersion_versionText hmajor hminor _
  have hsplit := splitFirst_append hfirst
    (decimal res.message.statusCode ++ space :: res.message.statusText)
  have hnumber : parseCode (decimal res.message.statusCode) = some res.message.statusCode := by
    have hcode32 : res.message.statusCode < 2 ^ 32 := h.code
    rw [parseCode, fromChars_decimal (by omega)]
    exact if_pos hcode32
  rw [parseStatusLine, if_neg hlong, hparts, hsplit]
  simp only [Option.bind_eq_bind, Option.bind_some]
  rw [splitFirst_append hdigits]
  simp only [hnumber, Option.bind_some]
  rw [hversion]
  rfl

theorem lf_not_mem_statusLine (h : Serializable res) : lf ∉ statusLine res.message := by
  have hspace : lf ∉ [space] := by decide
  rw [statusLine]
  simp only [mem_append]
  rintro ((((hversion | hfirst) | hcode) | hsecond) | htext)
  · exact lf_not_mem_version (version_clean h.major).1 (version_clean h.minor).1 hversion
  · exact hspace hfirst
  · exact absurd ((decimal_digits _).1 lf hcode) (by decide)
  · exact hspace hsecond
  · exact (message_text_clean h).1 htext

/-! ## What the parser makes of it -/

/-- `parse_response` finds the response and leaves what follows it. -/
def SelfDelimiting (res : HttpResponse) (r : Bytes) : Prop :=
  ∃ m, parseResponse (res.serializeTo ++ r) = some (.success m res.serializeTo.length) ∧
    m.statusCode = res.statusCode ∧
    m.headers = res.headers ++ addedLength res.headers res.body ∧ m.body = res.body

/-- A header that is read back as it was written. -/
def Kept (h : Header) : Prop := colon ∉ h.1 ∧ Trimmed h.2

instance (h : Header) : Decidable (Kept h) := inferInstanceAs (Decidable (_ ∧ _))

theorem trimmed_stripOws (s : Bytes) : Trimmed (stripOws s) := by
  rw [stripOws]
  constructor
  · intro b hb
    have hpre := rdropWhile_prefix isOws (l := s.dropWhile isOws)
    obtain ⟨rest, hrest⟩ := hpre
    have hhead : (s.dropWhile isOws).head? = some b := by
      rw [← hrest, head?_append, Option.mem_def.mp hb]
      rfl
    have hnot := head?_dropWhile_not isOws s
    rw [hhead] at hnot
    exact hnot
  · intro b hb
    have hne : (s.dropWhile isOws).rdropWhile isOws ≠ [] := fun hnil => by
      rw [hnil] at hb
      cases hb
    have hlast := rdropWhile_last_not isOws _ hne
    rw [getLast?_eq_some_getLast hne, Option.mem_def, Option.some_inj] at hb
    rw [← hb]
    exact Bool.eq_false_iff.mpr hlast

/-- A parsed header is one that can be written. -/
theorem parseField_kept {line : Bytes} {field : Header} (h : parseField line = some field) :
    Kept field := by
  rw [parseField, Option.map_eq_some_iff] at h
  obtain ⟨⟨before, after⟩, hsplit, rfl⟩ := h
  exact ⟨(splitFirst_eq_some.mp hsplit).2, trimmed_stripOws after⟩

theorem headersAt_kept {buffer : Bytes} {c stop : Nat} (h : HeadersAt buffer c headers stop) :
    ∀ f ∈ headers, Kept f := by
  induction h with
  | blank _ => nofun
  | field _ _ hfield _ ih =>
    intro f hf
    obtain rfl | hf := mem_cons.mp hf
    · exact parseField_kept hfield
    · exact ih f hf

/-- The head of a response is read back, and the body stands behind it. -/
theorem head_written (h : Serializable res) (hkept : ∀ f ∈ res.headers, Kept f) (r : Bytes) :
    ∃ next cursor, findNextLine (res.serializeTo ++ r) 0 = some (statusLine res.message, next) ∧
      HeadersAt (res.serializeTo ++ r) next (res.headers ++ addedLength res.headers res.body)
        cursor ∧
      (res.serializeTo ++ r).drop cursor = res.body ++ r ∧
      cursor + res.body.length = res.serializeTo.length := by
  have hparts : (res.serializeTo ++ r).drop 0 = statusLine res.message ++ crlf ++
      ((res.headers ++ addedLength res.headers res.body).flatMap fieldLine ++ crlf ++
        (res.body ++ r)) := by
    rw [HttpResponse.serializeTo, serializeInto, serializeRest, statusLine]
    simp only [drop_zero, append_assoc]
    rfl
  have hsend : ∀ f ∈ res.headers ++ addedLength res.headers res.body, Sendable f := by
    intro f hf
    obtain hf | hf := mem_append.mp hf
    · obtain ⟨hname, hvalue⟩ := h.headers f hf
      obtain ⟨hcolon, htrimmed⟩ := hkept f hf
      exact ⟨⟨hcolon, hname⟩, hvalue, htrimmed⟩
    · exact addedLength_sendable f hf
  have hline := findNextLine_crlf hparts (lf_not_mem_statusLine h)
  have hrest := drop_of_append hparts
  refine ⟨_, _, hline, headersAt_written hsend hrest, drop_of_append hrest, ?_⟩
  have hlength := congrArg List.length hparts
  simp only [drop_zero, length_append] at hlength ⊢
  omega

/-- A header that is not kept cannot be found in what the parser delivers. -/
theorem SelfDelimiting.kept {r : Bytes} (h : SelfDelimiting res r) :
    ∀ f ∈ res.headers, Kept f := by
  obtain ⟨m, hparse, -, hheaders, -⟩ := h
  obtain ⟨sl, next, cursor, -, -, hat, -⟩ := parseResponse_eq_success.mp hparse
  rw [hheaders] at hat
  exact fun f hf => headersAt_kept hat f (mem_append_left _ hf)

theorem responseBody_of_body {buffer : Bytes} {cursor code : Nat} (h : isBodiless code = false) :
    responseBody buffer cursor headers code = extractBody buffer cursor headers false :=
  if_neg (by rw [h]; exact Bool.false_ne_true)

/-- An empty body takes what follows. -/
theorem extractBody_open {buffer r : Bytes} {cursor : Nat} (hneutral : ∀ f ∈ headers, Neutral f)
    (hdrop : buffer.drop cursor = r) :
    extractBody buffer cursor (headers ++ addedLength headers []) false =
      some (.success r (cursor + r.length)) := by
  have hnone : getHeader (headers ++ addedLength headers []) "Content-Length" = none := by
    rw [getHeader_append_none fun f hf => (hneutral f hf).1, addedLength, if_pos (.inr rfl)]
    rfl
  rw [extractBody_untilClose (isChunked_neutral hneutral []) hnone, ← length_drop, hdrop]

/-- A response whose headers are kept is read back when it has a body or nothing follows. -/
theorem selfDelimiting_of_kept {r : Bytes} (h : Serializable res)
    (hneutral : ∀ f ∈ res.headers, Neutral f) (hbody : isBodiless res.statusCode = false)
    (hopen : res.body ≠ [] ∨ r = []) (hkept : ∀ f ∈ res.headers, Kept f) :
    SelfDelimiting res r := by
  obtain ⟨next, cursor, hfind, hat, hdrop, hend⟩ := head_written h hkept r
  have hextract := extractBody_written false hneutral h.body
    (fun hnil => .inr (hopen.resolve_left fun hne => hne hnil)) hdrop
  rw [hend] at hextract
  refine ⟨{ res.message with headers := res.headers ++ addedLength res.headers res.body },
    parseResponse_eq_success.mpr ⟨_, next, cursor, hfind, parseStatusLine_written h, hat, ?_⟩,
    rfl, rfl, rfl⟩
  exact (responseBody_of_body hbody).trans hextract

/-- **HTTP/1 responses that end where they end.**  A response that calls have made is read
    back, whatever its headers and its body, exactly when it has a body or nothing follows
    it, and its headers are read back as they were written. -/
theorem response_self_delimiting_iff {calls : List Call} {r : Bytes}
    (hcalls : ∀ c ∈ calls, Allowed c) (hbody : isBodiless (built calls).statusCode = false) :
    SelfDelimiting (built calls) r ↔
      ((built calls).body ≠ [] ∨ r = []) ∧ ∀ f ∈ (built calls).headers, Kept f := by
  obtain ⟨hres, hneutral⟩ := built_serializable hcalls
  generalize built calls = res at hbody hres hneutral ⊢
  constructor
  · intro h
    have hkept := h.kept
    refine ⟨or_iff_not_imp_left.mpr fun hempty => ?_, hkept⟩
    obtain ⟨m, hparse, hcode, hheaders, hsame⟩ := h
    obtain ⟨next, cursor, hfind, hat, hdrop, hend⟩ := head_written hres hkept r
    obtain ⟨sl, next', cursor', hfind', -, hat', hbody'⟩ := parseResponse_eq_success.mp hparse
    obtain ⟨-, rfl⟩ := Prod.mk.inj (Option.some.inj (hfind.symm.trans hfind'))
    rw [hheaders] at hat'
    obtain ⟨-, rfl⟩ := hat.unique hat'
    have hnil := not_not.mp hempty
    rw [hnil, nil_append] at hdrop
    rw [hheaders, hcode, responseBody_of_body hbody, hnil, extractBody_open hneutral hdrop, hsame, hnil] at hbody'
    exact (Outcome.success.inj (Option.some.inj hbody')).1
  · rintro ⟨hopen, hkept⟩
    exact selfDelimiting_of_kept hres hneutral hbody hopen hkept

/-- A handler that answers with a text and a header. -/
def greeting : List Call :=
  [.status 404, .set (text "Server") (text "WaveX"), .send (text "HTTP/1.1 200 OK\r\n\r\n")]

instance (c : Call) : Decidable (Allowed c) :=
  match c with
  | .status code => inferInstanceAs (Decidable (code < 2 ^ 32))
  | .statusWith code statusText => inferInstanceAs (Decidable (code < 2 ^ 32 ∧ lf ∉ statusText))
  | .set name value =>
      inferInstanceAs (Decidable (lf ∉ name ∧ lf ∉ value ∧ Neutral (name, value)))
  | .send body => inferInstanceAs (Decidable (body.length < 2 ^ 64))

/-- Its body looks like a response, and another response follows it. -/
theorem response_self_delimiting_greeting :
    SelfDelimiting (built greeting) (text "HTTP/1.1 200 OK\r\n\r\n") :=
  (response_self_delimiting_iff (by decide) (by decide)).mpr
    ⟨.inl (by decide), by decide +kernel⟩

/-- A response with an empty body has no Content-Length, and the response behind it is
    taken for its body. -/
theorem empty_body_takes_next :
    (∀ c ∈ [Call.status 200, .send []], Allowed c) ∧
      (built [.status 200, .send []]).serializeTo = text "HTTP/1.1 200 OK\r\n\r\n" ∧
      parseResponse (text "HTTP/1.1 200 OK\r\n\r\n" ++ text "HTTP/1.1 404 Not Found\r\n\r\n") =
        some (.success { body := text "HTTP/1.1 404 Not Found\r\n\r\n" } 45) ∧
      ¬ SelfDelimiting (built [.status 200, .send []]) (text "HTTP/1.1 404 Not Found\r\n\r\n") := by
  have hwire : (built [.status 200, .send []]).serializeTo = text "HTTP/1.1 200 OK\r\n\r\n" := by
    decide
  have hparse : parseResponse
      (text "HTTP/1.1 200 OK\r\n\r\n" ++ text "HTTP/1.1 404 Not Found\r\n\r\n") =
        some (.success { body := text "HTTP/1.1 404 Not Found\r\n\r\n" } 45) := by
    decide
  refine ⟨by decide, hwire, hparse, ?_⟩
  rintro ⟨m, hm, -⟩
  rw [hwire, hparse] at hm
  have hconsumed := (Outcome.success.inj (Option.some.inj hm)).2
  exact absurd hconsumed (by decide)

end Http1Response
