import WaveX.Http1ChunkProgress

/-! # Requests that arrive in pieces

    `handle_connection` parses what it has of a request from scratch whenever more bytes
    arrive, and the first success wins.  The head of a request, a body with a length and
    the chunks of a body in chunks are not looked at any further once they are there.  The
    line behind the last chunk is: without it the parser succeeds too, and what it has not
    consumed then is taken for the start of the next request. -/

namespace Http1RequestArrival

open QuicVarInt HttpText Http1Codec Http1ChunkProgress List

variable {p q buffer : Bytes} {c c' n next start : Nat} {headers : List Header} {req : Request}

/-! ## Chunks with more bytes behind them -/

theorem getElem?_append_of_lt (h : c < p.length) (q : Bytes) : (p ++ q)[c]? = p[c]? :=
  getElem?_append_left h

/-- A line break that does not reach the end of the buffer stays as it is. -/
theorem skipLineBreak_append (h : skipLineBreak p c < p.length) (q : Bytes) :
    skipLineBreak (p ++ q) c = skipLineBreak p c := by
  have hge := (skipLineBreak_bounds p c).1
  have hfirst : (p ++ q)[c]? = p[c]? := getElem?_append_of_lt (Nat.lt_of_le_of_lt hge h) q
  rw [skipLineBreak] at h
  rw [skipLineBreak, skipLineBreak, hfirst]
  split at h
  · rename_i hcr
    have hsecond : (p ++ q)[c + 1]? = p[c + 1]? := by
      refine getElem?_append_of_lt ?_ q
      split at h
      · omega
      · exact h
    rw [if_pos hcr, hsecond]
  · rename_i hcr
    rw [if_neg hcr, hfirst]

theorem sizeLine_append {size : Nat} (h : SizeLine p c size next) (q : Bytes) :
    SizeLine (p ++ q) c size next := by
  obtain ⟨line, digits, hfind, hread⟩ := h
  exact ⟨line, digits, findNextLine_append hfind q, hread⟩

theorem iterates_append (h : Iterates p c c') (hc' : c' < p.length) (q : Bytes) :
    Iterates (p ++ q) c c' := by
  have hlength : p.length ≤ (p ++ q).length := by
    rw [length_append]
    exact Nat.le_add_right _ _
  refine ⟨Nat.lt_of_lt_of_le h.1 hlength, ?_⟩
  obtain hturn | ⟨data, hturn⟩ := next?_eq_some h.2
  · obtain ⟨line, hfind, hblank⟩ := chunkTurn_eq_blank.mp hturn
    rw [chunkTurn_eq_blank.mpr ⟨line, findNextLine_append hfind q, hblank⟩]
    rfl
  · obtain ⟨size, next, hline, hsize, hroom, -, rfl⟩ := chunkTurn_eq_chunk.mp hturn
    rw [chunkTurn_eq_chunk.mpr ⟨size, next, sizeLine_append hline q, hsize, hroom.trans hlength, rfl,
      rfl⟩, skipLineBreak_append hc' q]
    rfl

theorem reaches_append (h : Reaches p c c') (hc' : c' < p.length) (q : Bytes) :
    Reaches (p ++ q) c c' := by
  induction h with
  | refl => exact .refl
  | tail _ hiter ih => exact (ih hiter.1).tail (iterates_append hiter hc' q)

theorem chunkTurn_last_append (h : chunkTurn p c = .last next) (q : Bytes) :
    chunkTurn (p ++ q) c = .last next :=
  chunkTurn_eq_last.mpr (sizeLine_append (chunkTurn_eq_last.mp h) q)

/-- The last chunk, as the loop comes to it from the start of the body. -/
structure LastChunk (buffer : Bytes) (start c next : Nat) : Prop where
  reached : Reaches buffer start c
  within : c < buffer.length
  turn : chunkTurn buffer c = .last next

theorem LastChunk.append (h : LastChunk p start c next) (q : Bytes) :
    LastChunk (p ++ q) start c next :=
  ⟨reaches_append h.reached h.within q, by rw [length_append]; exact Nat.lt_add_right _ h.within,
    chunkTurn_last_append h.turn q⟩

/-- The raw text of the chunks, up to the cursor at the end. -/
def rawBody (buffer : Bytes) (start stop : Nat) : Bytes :=
  (buffer.drop start).take ((stop + 2 ^ 64 - start) % 2 ^ 64)

theorem LastChunk.extract (h : LastChunk buffer start c next) :
    extractChunkedBody buffer start =
      some (.success (rawBody buffer start (afterLast buffer next)) (afterLast buffer next)) := by
  rw [extractChunkedBody, chunkLoop_of_reaches h.reached h.within h.turn]
  rfl

theorem extract_lastChunk {body : Bytes}
    (h : extractChunkedBody buffer start = some (.success body n)) :
    ∃ c next, LastChunk buffer start c next := by
  obtain ⟨c, next, hreach, hc, hturn, -⟩ := chunkLoop_success (extractChunkedBody_success h).1
  exact ⟨c, next, hreach, hc, hturn⟩

/-! ## The line behind the last chunk -/

/-- The line behind the last chunk has arrived. -/
theorem afterLast_append (h : lf ∈ p.drop next) (q : Bytes) :
    afterLast (p ++ q) next = afterLast p next := by
  cases hfind : findNextLine p next with
  | none => exact absurd h (findNextLine_eq_none.mp hfind)
  | some line => rw [afterLast, afterLast, findNextLine_append hfind q, hfind]

/-- It has not arrived: a line break that comes later moves the end of the request. -/
theorem afterLast_open (hle : next ≤ p.length) (h : lf ∉ p.drop next) :
    afterLast p next = next ∧ afterLast (p ++ [lf]) next = p.length + 1 := by
  have hdrop : (p ++ [lf]).drop next = p.drop next ++ lf :: [] :=
    drop_append_of_le_length hle
  have hfind := findNextLine_eq_some.mpr ⟨p.drop next, [], hdrop, h, rfl, rfl⟩
  constructor
  · rw [afterLast, findNextLine_eq_none.mpr h]
    rfl
  · rw [afterLast, hfind, length_drop]
    show next + (p.length - next) + 1 = p.length + 1
    omega

theorem rawBody_append {stop : Nat} (hstart : start ≤ stop) (hstop : stop ≤ p.length)
    (hsize : p.length < 2 ^ 64) (q : Bytes) : rawBody (p ++ q) start stop = rawBody p start stop := by
  have hcount : (stop + 2 ^ 64 - start) % 2 ^ 64 = stop - start := by omega
  rw [rawBody, rawBody, hcount, drop_append_of_le_length (by omega),
    take_append_of_le_length (by rw [length_drop]; omega)]

/-- A body that ends before it starts has all the bytes there are. -/
theorem rawBody_back {stop : Nat} (hback : stop < start) (hsize : buffer.length ≤ 2 ^ 64)
    (hstart : start ≤ buffer.length) : rawBody buffer start stop = buffer.drop start := by
  have hcount : (stop + 2 ^ 64 - start) % 2 ^ 64 = stop + 2 ^ 64 - start := by omega
  rw [rawBody, hcount]
  exact take_of_length_le (by rw [length_drop]; omega)

/-! ## Stability -/

/-- The request is in chunks, and the line behind its last chunk has not arrived or the
    parser has gone back in front of the body with a size that wraps around. -/
def EndsOpen (p : Bytes) : Prop :=
  ∃ rl next start headers c last, findNextLine p 0 = some (rl, next) ∧
    HeadersAt p next headers start ∧ isChunked headers = true ∧ LastChunk p start c last ∧
    (lf ∉ p.drop last ∨ afterLast p last < start)

theorem extractBody_chunked (h : isChunked headers = true) {isRequest : Bool} :
    extractBody buffer start headers isRequest = extractChunkedBody buffer start := by
  rw [extractBody, if_pos h]

/-- The length of a body does not depend on what has arrived. -/
theorem contentLength_fixed {isRequest : Bool}
    (h : isRequest = true ∨ getHeader headers "Content-Length" ≠ none) (rest rest' : Nat) :
    contentLength headers rest isRequest = contentLength headers rest' isRequest := by
  rw [contentLength, contentLength]
  split
  · rfl
  · rename_i hnone
    obtain rfl | hsome := h
    · rfl
    · exact absurd hnone hsome

/-- A body with a length stays as it is. -/
theorem extractBody_sized_append {body : Bytes} {isRequest : Bool}
    (hplain : isChunked headers = false)
    (hfixed : isRequest = true ∨ getHeader headers "Content-Length" ≠ none)
    (h : extractBody p start headers isRequest = some (.success body n)) (hstart : start ≤ p.length)
    (q : Bytes) : extractBody (p ++ q) start headers isRequest = some (.success body n) := by
  have hlength := contentLength_fixed hfixed ((p ++ q).length - start) (p.length - start)
  rw [extractBody, hplain, if_neg Bool.false_ne_true] at h ⊢
  rw [hlength]
  split at h
  · cases h
  · rename_i len hlen
    split at h
    · cases h
    · rename_i hroom
      rw [length_append, if_neg (by omega), drop_append_of_le_length hstart,
        take_append_of_le_length (by rw [length_drop]; omega)]
      exact h

/-- The last chunk of a request that is accepted, when more bytes follow. -/
theorem LastChunk.parse {rl : Bytes} {last : Nat} (hfind : findNextLine p 0 = some (rl, next))
    (hline : parseRequestLine rl =
      some (req.method, req.target, req.versionMajor, req.versionMinor))
    (hheaders : HeadersAt p next req.headers start) (hchunked : isChunked req.headers = true)
    (hlast : LastChunk p start c last) (q : Bytes) :
    parseRequest (p ++ q) =
      some (.success { req with body := rawBody (p ++ q) start (afterLast (p ++ q) last) }
        (afterLast (p ++ q) last)) :=
  parseRequest_eq_success.mpr ⟨rl, next, start, findNextLine_append hfind q, hline,
    hheaders.append q, (extractBody_chunked hchunked).trans (hlast.append q).extract⟩

/-- **Requests that are stable under arrival.**  A request that is accepted stays the same
    whatever bytes follow exactly when it does not end open. -/
theorem request_stable_iff (hsize : p.length < 2 ^ 64)
    (h : parseRequest p = some (.success req n)) :
    (∀ q, parseRequest (p ++ q) = some (.success req n)) ↔ ¬ EndsOpen p := by
  obtain ⟨rl, next, start, hfind, hline, hheaders, hbody⟩ := parseRequest_eq_success.mp h
  have hstart := hheaders.bounds.2
  constructor
  · rintro hstable ⟨rl', next', start', headers', c, last, hfind', hheaders', hchunked, hlast, hopen⟩
    obtain ⟨rfl, rfl⟩ := Prod.mk.inj (Option.some.inj (hfind.symm.trans hfind'))
    obtain ⟨rfl, rfl⟩ := hheaders.unique hheaders'
    have hle := chunkTurn_last_le hlast.turn
    have hmore := fun q => (hlast.parse hfind hline hheaders hchunked q).symm.trans (hstable q)
    -- the end of the request and its body, with nothing and with a line break behind it
    obtain ⟨hnow, hend⟩ := Outcome.success.inj (Option.some.inj (hmore []))
    obtain ⟨hlater, hend'⟩ := Outcome.success.inj (Option.some.inj (hmore [lf]))
    rw [append_nil] at hnow hend
    by_cases harrived : lf ∈ p.drop last
    · have hback := hopen.resolve_left fun hmissing => hmissing harrived
      have hsame : rawBody p start (afterLast p last) =
          rawBody (p ++ [lf]) start (afterLast (p ++ [lf]) last) :=
        congrArg Request.body (hnow.trans hlater.symm)
      rw [afterLast_append harrived, rawBody_back hback (Nat.le_of_lt hsize) hstart,
        rawBody_back hback (by rw [length_append]; exact hsize)
          (by rw [length_append]; omega),
        drop_append_of_le_length hstart] at hsame
      have hlength := congrArg List.length hsame
      rw [length_append] at hlength
      exact absurd hlength (by simp)
    · obtain ⟨hbefore, hafter⟩ := afterLast_open hle harrived
      omega
  · intro hclosed q
    by_cases hchunked : isChunked req.headers = true
    · rw [extractBody_chunked hchunked] at hbody
      obtain ⟨c, last, hlast⟩ := extract_lastChunk hbody
      have hparts : ¬ (lf ∉ p.drop last ∨ afterLast p last < start) := fun hopen =>
        hclosed ⟨rl, next, start, req.headers, c, last, hfind, hheaders, hchunked, hlast, hopen⟩
      obtain ⟨harrived, hforward⟩ := not_or.mp hparts
      have hend := afterLast_append (not_not.mp harrived) q
      have hraw := rawBody_append (Nat.not_lt.mp hforward)
        (afterLast_le (chunkTurn_last_le hlast.turn)) hsize q
      rw [hlast.extract] at hbody
      obtain ⟨hbody, hn⟩ := Outcome.success.inj (Option.some.inj hbody)
      rw [hlast.parse hfind hline hheaders hchunked q, hend, hraw, hbody, hn]
    · exact parseRequest_eq_success.mpr ⟨rl, next, start, findNextLine_append hfind q, hline,
        hheaders.append q, extractBody_sized_append (Bool.eq_false_iff.mpr hchunked)
          (.inl rfl) hbody hstart q⟩

/-- The head of a request in chunks. -/
def chunkedHead : Bytes := text "PUT /a HTTP/1.1\r\nTransfer-Encoding: chunked\r\n\r\n"

/-- The request with its chunks, as far as the size line of the last one. -/
def chunkedRequest : Bytes := chunkedHead ++ text "2\r\nhi\r\n0\r\n"

/-- What the parser makes of it. -/
def chunkedMessage (body : String) : Request :=
  { method := .put, target := text "/a", headers := [(text "Transfer-Encoding", text "chunked")]
    body := text body }

/-- With the line behind its last chunk the request is stable. -/
theorem request_stable_whole :
    parseRequest (chunkedRequest ++ crlf ++ text "GET") =
      some (.success (chunkedMessage "2\r\nhi\r\n0\r\n\r\n") 59) := by
  have h : parseRequest (chunkedRequest ++ crlf) =
      some (.success (chunkedMessage "2\r\nhi\r\n0\r\n\r\n") 59) := by decide
  refine (request_stable_iff (by decide) h).mpr ?_ _
  rintro ⟨rl, next, start, headers, c, last, hfind, hheaders, -, hlast, hopen⟩
  have hfirst : findNextLine (chunkedRequest ++ crlf) 0 = some (text "PUT /a HTTP/1.1", 17) := by
    decide
  have hsecond : parseHeaders (chunkedRequest ++ crlf) 17 =
      .success [(text "Transfer-Encoding", text "chunked")] 47 := by decide
  obtain ⟨-, rfl⟩ := Prod.mk.inj (Option.some.inj (hfirst.symm.trans hfind))
  obtain ⟨-, rfl⟩ := (parseHeaders_eq_success.mp hsecond).unique hheaders
  have hall : ∀ c < (chunkedRequest ++ crlf).length,
      (match chunkTurn (chunkedRequest ++ crlf) c with
        | .last last => decide (lf ∈ (chunkedRequest ++ crlf).drop last ∧
            47 ≤ afterLast (chunkedRequest ++ crlf) last)
        | _ => true) = true := by decide
  have hhere := hall c hlast.within
  rw [hlast.turn] at hhere
  obtain ⟨harrived, hforward⟩ := of_decide_eq_true hhere
  exact hopen.elim (fun hmissing => hmissing harrived) (Nat.not_lt.mpr hforward)

/-- Without it the parser succeeds as well, with two bytes less; these are then taken for
    the start of the next request, which is refused. -/
theorem last_line_taken_for_request :
    parseRequest chunkedRequest = some (.success (chunkedMessage "2\r\nhi\r\n0\r\n") 57) ∧
      parseRequest (chunkedRequest ++ crlf) =
        some (.success (chunkedMessage "2\r\nhi\r\n0\r\n\r\n") 59) ∧
      parseRequest (crlf ++ text "GET / HTTP/1.1\r\n\r\n") = some .error ∧
      parseRequest (text "GET / HTTP/1.1\r\n\r\n") =
        some (.success { method := .get, target := text "/" } 18) := by
  decide

end Http1RequestArrival
