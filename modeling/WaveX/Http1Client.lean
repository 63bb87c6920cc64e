import WaveX.Http1RequestArrival

/-! # The HTTP/1 client

    `execute_http1_exchange` of `src/Client/HttpClient.cpp` reads from the connection until
    `parse_response` accepts what has arrived, or the server closes.  The first prefix that
    is accepted wins.  With a length, with chunks or with a status that has no body, all
    prefixes that are accepted give the client the same response.  A response that ends
    with the connection is accepted as soon as its head is there, with the part of its body
    that came in the same read. -/

namespace Http1Client

open QuicVarInt HttpText Http1Codec Http1ChunkProgress Http1RequestArrival List

/-! ## The exchange -/

/-- What the client gets from `ClientResponse`. -/
structure ClientResponse where
  statusCode : Nat
  statusText : Bytes
  headers : List Header := []
  body : Bytes
  rawResponse : Bytes := []
  deriving DecidableEq, Repr

/-- The response to a stream that cannot be parsed. -/
def badGateway : ClientResponse :=
  { statusCode := 502, statusText := text "Bad Gateway"
    body := text "Invalid response format from upstream HTTP server" }

/-- The body of a message without its chunks. -/
def content (m : Response) : Option Bytes :=
  if isChunked m.headers then dechunk m.body else some m.body

/-- The response that a parsed message makes; `none` when `dechunk` does not return. -/
def deliver (responseBuffer : Bytes) (m : Response) : Option ClientResponse :=
  (content m).map fun body =>
    { statusCode := m.statusCode, statusText := m.statusText, headers := m.headers, body
      rawResponse := responseBuffer }

/-- The receive loop, with the reads that are to come; behind them the server closes, and
    what has arrived is parsed once more. -/
def receive : Bytes → List Bytes → Option ClientResponse
  | responseBuffer, [] =>
      match parseResponse responseBuffer with
      | none => none
      | some (.success m _) => deliver responseBuffer m
      | some _ => some badGateway
  | responseBuffer, buf :: reads =>
      match parseResponse (responseBuffer ++ buf) with
      | none => none
      | some (.success m _) => deliver (responseBuffer ++ buf) m
      | some _ => receive (responseBuffer ++ buf) reads

/-- `execute_http1_exchange`, from the first read on. -/
def executeHttp1Exchange (reads : List Bytes) : Option ClientResponse := receive [] reads

/-- The transport delivers a stream in these reads, each with as much as fits the buffer. -/
def Splits (reads : List Bytes) (w : Bytes) : Prop :=
  reads.flatten = w ∧ ∀ buf ∈ reads, buf ≠ [] ∧ buf.length ≤ 4096

instance (reads : List Bytes) (w : Bytes) : Decidable (Splits reads w) :=
  inferInstanceAs (Decidable (_ ∧ _))

/-! ## Windows -/

section Window

variable {pre raw post line data : Bytes} {i j n size : Nat}

/-- A line within a part of the buffer is a line of this part. -/
theorem findNextLine_window
    (h : findNextLine (pre ++ raw ++ post) (pre.length + i) = some (line, n))
    (hn : n ≤ pre.length + raw.length) :
    ∃ j, n = pre.length + j ∧ findNextLine raw i = some (line, j) := by
  obtain ⟨r, rest, hdrop, hr, rfl, rfl⟩ := findNextLine_eq_some.mp h
  refine ⟨i + r.length + 1, by omega, findNextLine_eq_some.mpr
    ⟨r, (raw.drop i).drop (r.length + 1), ?_, hr, rfl, rfl⟩⟩
  rw [append_assoc, ← drop_drop, drop_left,
    drop_append_of_le_length (by omega)] at hdrop
  have hline : (raw.drop i).take (r.length + 1) = r ++ [lf] := by
    have htake := congrArg (List.take (r.length + 1)) hdrop
    rw [take_append_of_le_length (by rw [length_drop]; omega), append_cons,
      take_left' (by rw [length_append]; rfl)] at htake
    exact htake
  calc raw.drop i = (raw.drop i).take (r.length + 1) ++ (raw.drop i).drop (r.length + 1) :=
        (take_append_drop _ _).symm
    _ = r ++ lf :: (raw.drop i).drop (r.length + 1) := by rw [hline, ← append_cons]

theorem getElem?_window (hi : i < raw.length) :
    (pre ++ raw ++ post)[pre.length + i]? = raw[i]? := by
  rw [append_assoc, getElem?_append_right (Nat.le_add_right _ _), Nat.add_sub_cancel_left,
    getElem?_append_left hi]

theorem skipLineBreak_window (h : skipLineBreak (pre ++ raw ++ post) (pre.length + i) = n)
    (hn : n < pre.length + raw.length) :
    ∃ j, n = pre.length + j ∧ skipLineBreak raw i = j := by
  have hge := (skipLineBreak_bounds (pre ++ raw ++ post) (pre.length + i)).1
  have hfirst : (pre ++ raw ++ post)[pre.length + i]? = raw[i]? := getElem?_window (by omega)
  rw [skipLineBreak, hfirst] at h
  rw [skipLineBreak]
  split at h
  · rename_i hcr
    have hsecond : (pre ++ raw ++ post)[pre.length + i + 1]? = raw[i + 1]? := by
      rw [Nat.add_assoc]
      refine getElem?_window ?_
      split at h
      · omega
      · omega
    rw [hsecond] at h
    rw [if_pos hcr]
    split at h
    · rename_i hlf
      rw [if_pos hlf]
      exact ⟨i + 1 + 1, by omega, rfl⟩
    · rename_i hlf
      rw [if_neg hlf]
      exact ⟨i + 1, by omega, rfl⟩
  · rename_i hcr
    rw [if_neg hcr]
    rw [hfirst] at h
    split at h
    · rename_i hlf
      rw [if_pos hlf]
      exact ⟨i + 1, by omega, rfl⟩
    · rename_i hlf
      rw [if_neg hlf]
      exact ⟨i, by omega, rfl⟩

theorem sizeLine_window (h : SizeLine (pre ++ raw ++ post) (pre.length + i) size n)
    (hn : n ≤ pre.length + raw.length) : ∃ j, n = pre.length + j ∧ SizeLine raw i size j := by
  obtain ⟨line, digits, hfind, hread⟩ := h
  obtain ⟨j, rfl, hfind'⟩ := findNextLine_window hfind hn
  exact ⟨j, rfl, line, digits, hfind', hread⟩

end Window

/-! ## Chunks -/

/-- No size that is read from the cursor on makes the cursor behind its chunk wrap around:
    the sizes are those of chunks that fit a stream. -/
def Unwrapped (w : Bytes) (start : Nat) : Prop :=
  ∀ c size next, Reaches w start c → SizeLine w c size next → next + size < 2 ^ 64

variable {w p q raw : Bytes} {c c' start next k n : Nat}

theorem Unwrapped.iterate (h : Unwrapped w c) (hiter : Iterates w c c') : Unwrapped w c' :=
  fun d size next hreach hline => h d size next (.head hiter hreach) hline

/-- An iteration without a size that wraps around goes forward. -/
theorem Unwrapped.forward (h : Unwrapped w c) (hiter : Iterates w c c') : c < c' := by
  obtain hturn | ⟨data, hturn⟩ := next?_eq_some hiter.2
  · obtain ⟨line, hfind, -⟩ := chunkTurn_eq_blank.mp hturn
    exact (findNextLine_bounds hfind).1
  · obtain ⟨size, next, hline, -, -, -, rfl⟩ := chunkTurn_eq_chunk.mp hturn
    have hfits := h c size next .refl hline
    have hskip := (skipLineBreak_bounds w (chunkEnd next size)).1
    have hlt := hline.bounds.1
    rw [chunkEnd, Nat.mod_eq_of_lt hfits] at hskip ⊢
    omega

theorem Unwrapped.reaches_le (h : Unwrapped w c) (hreach : Reaches w c c') : c ≤ c' := by
  induction hreach using Relation.ReflTransGen.head_induction_on with
  | refl => exact Nat.le_refl _
  | head hiter _ ih => exact Nat.le_of_lt (Nat.lt_of_lt_of_le (h.forward hiter) (ih (h.iterate hiter)))

/-- A round in the whole stream is the same round in the raw body, as far as this reaches. -/
theorem chunkTurn_window {pre post : Bytes} {i : Nat} {t : ChunkTurn}
    (h : Unwrapped (pre ++ raw ++ post) (pre.length + i))
    (hturn : chunkTurn (pre ++ raw ++ post) (pre.length + i) = t) (hnext : t.next? = some c')
    (hc' : c' < pre.length + raw.length) :
    ∃ j, c' = pre.length + j ∧
      (t = .blank c' ∧ chunkTurn raw i = .blank j ∨
        ∃ data, t = .chunk data c' ∧ chunkTurn raw i = .chunk data j) := by
  obtain rfl | ⟨data, rfl⟩ := next?_eq_some hnext
  · obtain ⟨line, hfind, hblank⟩ := chunkTurn_eq_blank.mp hturn
    obtain ⟨j, rfl, hfind'⟩ := findNextLine_window hfind (Nat.le_of_lt hc')
    exact ⟨j, rfl, .inl ⟨rfl, chunkTurn_eq_blank.mpr ⟨line, hfind', hblank⟩⟩⟩
  · obtain ⟨size, next, hline, hsize, hroom, rfl, hstop⟩ := chunkTurn_eq_chunk.mp hturn
    have hfits := h _ size next .refl hline
    have hend : chunkEnd next size = next + size := Nat.mod_eq_of_lt hfits
    have hskip := (skipLineBreak_bounds (pre ++ raw ++ post) (chunkEnd next size)).1
    rw [← hstop, hend] at hskip
    obtain ⟨j, rfl, hline'⟩ := sizeLine_window hline (by omega)
    have hend' : chunkEnd j size = j + size := Nat.mod_eq_of_lt (by omega)
    rw [hend, Nat.add_assoc] at hstop
    obtain ⟨k, rfl, hskip'⟩ := skipLineBreak_window hstop.symm hc'
    refine ⟨k, rfl, .inr ⟨_, rfl, chunkTurn_eq_chunk.mpr
      ⟨size, j, hline', hsize, by omega, ?_, by rw [hend', hskip']⟩⟩⟩
    rw [append_assoc, ← drop_drop, drop_left, drop_append_of_le_length (by omega),
      take_append_of_le_length (by rw [length_drop]; omega)]

/-- The chunks from one cursor to the last chunk are the same in every part of the stream that
    reaches behind the line of the last chunk. -/
theorem dechunkLoop_window (pre : Bytes) (hreach : Reaches w c c') (hsizes : Unwrapped w c)
    (hlast : chunkTurn w c' = .last next) :
    ∃ chunks : Bytes, ∀ raw post i fuel unchunked, w = pre ++ raw ++ post →
      c = pre.length + i → next ≤ pre.length + raw.length → c' - c < fuel →
      dechunkLoop raw fuel i unchunked = some (unchunked ++ chunks) := by
  induction hreach using Relation.ReflTransGen.head_induction_on with
  | refl =>
    refine ⟨[], ?_⟩
    rintro raw post i fuel unchunked rfl rfl hnext hfuel
    obtain ⟨fuel, rfl⟩ := Nat.exists_eq_succ_of_ne_zero (show fuel ≠ 0 by omega)
    obtain ⟨j, -, hline⟩ := sizeLine_window (chunkTurn_eq_last.mp hlast) hnext
    obtain ⟨hlt, hle, -⟩ := hline.bounds
    rw [dechunkLoop, if_pos (by omega), chunkTurn_eq_last.mpr hline, append_nil]
  | @head c d hiter hreach ih =>
    obtain ⟨chunks, hchunks⟩ := ih (hsizes.iterate hiter)
    have hforward := hsizes.forward hiter
    have hle := (hsizes.iterate hiter).reaches_le hreach
    have hbehind := (chunkTurn_eq_last.mp hlast).bounds.1
    -- the data of this round, which is empty for a blank line
    obtain hturn | ⟨data, hturn⟩ := next?_eq_some hiter.2
    · refine ⟨chunks, ?_⟩
      rintro raw post i fuel unchunked rfl rfl hnext hfuel
      obtain ⟨fuel, rfl⟩ := Nat.exists_eq_succ_of_ne_zero (show fuel ≠ 0 by omega)
      obtain ⟨j, rfl, ⟨-, hraw⟩ | ⟨data, hdata, -⟩⟩ :=
        chunkTurn_window hsizes hturn rfl (by omega)
      · rw [dechunkLoop, if_pos (by omega), hraw]
        exact hchunks raw post j fuel unchunked rfl rfl hnext (by omega)
      · cases hdata
    · refine ⟨data ++ chunks, ?_⟩
      rintro raw post i fuel unchunked rfl rfl hnext hfuel
      obtain ⟨fuel, rfl⟩ := Nat.exists_eq_succ_of_ne_zero (show fuel ≠ 0 by omega)
      obtain ⟨j, rfl, ⟨hblank, -⟩ | ⟨data', hdata, hraw⟩⟩ :=
        chunkTurn_window hsizes hturn rfl (by omega)
      · cases hblank
      · cases hdata
        rw [dechunkLoop, if_pos (by omega), hraw, ← append_assoc]
        exact hchunks raw post j fuel (unchunked ++ data) rfl rfl hnext (by omega)

/-- Every part of the stream that reaches behind the line of the last chunk holds the same
    chunks. -/
theorem dechunk_rawBody (hsize : w.length < 2 ^ 64) (hsizes : Unwrapped w start)
    (hlast : LastChunk w start c next) :
    ∃ chunks, ∀ stop, next ≤ stop → stop ≤ w.length → dechunk (rawBody w start stop) = some chunks := by
  have hbehind := (chunkTurn_eq_last.mp hlast.turn).bounds.1
  have hforward := hsizes.reaches_le hlast.reached
  obtain ⟨chunks, hchunks⟩ :=
    dechunkLoop_window (w.take start) hlast.reached hsizes hlast.turn
  refine ⟨chunks, fun stop hnext hstop => ?_⟩
  have hpre : (w.take start).length = start := length_take_of_le (by omega)
  have hcount : (stop + 2 ^ 64 - start) % 2 ^ 64 = stop - start := by omega
  have hraw : (rawBody w start stop).length = stop - start := by
    rw [rawBody, hcount, length_take_of_le]
    rw [length_drop]
    omega
  have hparts : w = w.take start ++ rawBody w start stop ++ (w.drop start).drop (stop - start) := by
    rw [rawBody, hcount, append_assoc, take_append_drop, take_append_drop]
  rw [dechunk, hchunks _ _ 0 _ [] hparts (by omega) (by omega) (by omega), nil_append]

theorem Unwrapped.of_append (h : Unwrapped (p ++ q) start) : Unwrapped p start := by
  intro c size next hreach hline
  obtain ⟨hlt, hle, -⟩ := hline.bounds
  exact h c size next (reaches_append hreach (by omega) q) (sizeLine_append hline q)

/-- A stream without a wrap-around is read forward. -/
theorem Unwrapped.advances (h : Unwrapped w start) (hsize : w.length < 2 ^ 64) :
    Advances w start := by
  intro c c' hreach hiter
  have hhere : Unwrapped w c := fun d size next hd hline => h d size next (hreach.trans hd) hline
  exact ⟨hhere.forward hiter, (iterates_forward hsize hiter).1⟩

/-! ## Prefixes -/

/-- A stream that is a response: the parser accepts it when all of it is there, and the
    sizes of its chunks, if it is in chunks, are sizes of chunks. -/
structure ResponseStream (w : Bytes) (m : Response) : Prop where
  length : w.length < 2 ^ 64
  accepted : ∃ n, parseResponse w = some (.success m n)
  sizes : ∀ sl next start, findNextLine w 0 = some (sl, next) → HeadersAt w next m.headers start →
    isChunked m.headers = true → Unwrapped w start

/-- The end of the body can be told from the head or from the body itself. -/
def Delimited (m : Response) : Prop :=
  isBodiless m.statusCode = true ∨ isChunked m.headers = true ∨
    getHeader m.headers "Content-Length" ≠ none

instance (m : Response) : Decidable (Delimited m) := inferInstanceAs (Decidable (_ ∨ _ ∨ _))

variable {m m' : Response}

/-- The parser does not return only where a chunked body makes it loop. -/
theorem parseResponse_eq_none (h : parseResponse p = none) :
    ∃ sl next headers start, findNextLine p 0 = some (sl, next) ∧ HeadersAt p next headers start ∧
      isChunked headers = true ∧ extractChunkedBody p start = none := by
  rw [parseResponse] at h
  split at h
  · cases h
  · rename_i sl next hfind
    split at h
    · cases h
    · split at h
      · cases h
      · cases h
      · rename_i headers start hheaders
        refine ⟨sl, next, headers, start, hfind, parseHeaders_eq_success.mp hheaders, ?_⟩
        dsimp only at h
        split at h
        · cases h
        · rw [Option.map_eq_none_iff, extractBody] at h
          split at h
          · rename_i hchunked
            exact ⟨hchunked, h⟩
          · split at h
            · cases h
            · split at h
              · cases h
              · cases h

/-- A prefix that has the whole head has the head of the stream. -/
theorem head_of_prefix (h : ResponseStream (p ++ q) m)
    (hp : parseResponse p = some (.success m' n)) :
    ∃ start n', start ≤ p.length ∧ m' = { m with body := m'.body } ∧
      (isChunked m.headers = true → Unwrapped (p ++ q) start) ∧
      responseBody p start m.headers m.statusCode = some (.success m'.body n) ∧
      responseBody (p ++ q) start m.headers m.statusCode = some (.success m.body n') := by
  obtain ⟨n', hw⟩ := h.accepted
  obtain ⟨sl, next, start, hfind, hline, hheaders, hbody⟩ := parseResponse_eq_success.mp hw
  obtain ⟨sl', next', start', hfind', hline', hheaders', hbody'⟩ := parseResponse_eq_success.mp hp
  obtain ⟨rfl, rfl⟩ :=
    Prod.mk.inj (Option.some.inj (hfind.symm.trans (findNextLine_append hfind' q)))
  obtain ⟨hsame, rfl⟩ := hheaders.unique (hheaders'.append q)
  rw [hline, Option.some_inj, Prod.mk.injEq, Prod.mk.injEq, Prod.mk.injEq] at hline'
  obtain ⟨⟨hmajor, hminor⟩, hcode, htext⟩ := hline'
  rw [← hsame, ← hcode] at hbody'
  refine ⟨start, n', hheaders'.bounds.2, ?_, h.sizes sl next start hfind hheaders, hbody', hbody⟩
  rw [hmajor, hminor, hcode, htext, hsame]

theorem parseResponse_returns (h : ResponseStream (p ++ q) m) : parseResponse p ≠ none := by
  intro hnone
  obtain ⟨n, hw⟩ := h.accepted
  obtain ⟨sl, next, start, hfind, -, hheaders, -⟩ := parseResponse_eq_success.mp hw
  obtain ⟨sl', next', headers, start', hfind', hheaders', hchunked, hloops⟩ :=
    parseResponse_eq_none hnone
  obtain ⟨rfl, rfl⟩ :=
    Prod.mk.inj (Option.some.inj (hfind.symm.trans (findNextLine_append hfind' q)))
  obtain ⟨rfl, rfl⟩ := hheaders.unique (hheaders'.append q)
  have hsize : p.length < 2 ^ 64 := by
    have hlength := h.length
    rw [length_append] at hlength
    omega
  have hsizes := (h.sizes sl next start hfind hheaders hchunked).of_append
  obtain ⟨o, ho⟩ := (hsizes.advances hsize).loops.1
  rw [extractChunkedBody, ho] at hloops
  cases hloops

/-- A chunked body has the same chunks in every prefix that is accepted. -/
theorem dechunk_of_prefix {body body' : Bytes} {n' : Nat} (hsize : (p ++ q).length < 2 ^ 64)
    (hsizes : Unwrapped (p ++ q) start)
    (hp : extractChunkedBody p start = some (.success body' n))
    (hw : extractChunkedBody (p ++ q) start = some (.success body n')) :
    dechunk body' = dechunk body := by
  have hlength : p.length ≤ (p ++ q).length := by
    rw [length_append]
    exact Nat.le_add_right _ _
  obtain ⟨c, last, hlast⟩ := extract_lastChunk hp
  obtain ⟨hbehind, hle, -⟩ := (chunkTurn_eq_last.mp hlast.turn).bounds
  have hforward := hsizes.reaches_le (hlast.append q).reached
  obtain ⟨chunks, hchunks⟩ := dechunk_rawBody hsize hsizes (hlast.append q)
  have hstop := afterLast_le (chunkTurn_last_le hlast.turn)
  have hstop' := afterLast_le (chunkTurn_last_le (hlast.append q).turn)
  have hstart : start ≤ afterLast p last := Nat.le_trans (by omega) (le_afterLast p last)
  have hraw := rawBody_append hstart hstop (Nat.lt_of_le_of_lt hlength hsize) q
  rw [hlast.extract, ← hraw] at hp
  rw [(hlast.append q).extract] at hw
  obtain ⟨rfl, -⟩ := Outcome.success.inj (Option.some.inj hp)
  obtain ⟨rfl, -⟩ := Outcome.success.inj (Option.some.inj hw)
  rw [hchunks _ (le_afterLast p last) (hstop.trans hlength),
    hchunks _ (le_afterLast (p ++ q) last) hstop']

/-- A prefix that is accepted has the content of the stream when its end can be told. -/
theorem content_of_prefix (h : ResponseStream (p ++ q) m) (hend : Delimited m)
    (hp : parseResponse p = some (.success m' n)) :
    content m' = content m ∧ m' = { m with body := m'.body } := by
  obtain ⟨start, n', hstart, hsame, hsizes, hbody', hbody⟩ := head_of_prefix h hp
  refine ⟨?_, hsame⟩
  have hheaders : m'.headers = m.headers := by rw [hsame]
  rw [content, content, hheaders]
  rw [responseBody] at hbody hbody'
  by_cases hbodiless : isBodiless m.statusCode = true
  · rw [if_pos hbodiless] at hbody hbody'
    obtain ⟨hempty, -⟩ := Outcome.success.inj (Option.some.inj hbody)
    obtain ⟨hempty', -⟩ := Outcome.success.inj (Option.some.inj hbody')
    rw [← hempty, ← hempty']
  · rw [if_neg hbodiless] at hbody hbody'
    by_cases hchunked : isChunked m.headers = true
    · rw [extractBody_chunked hchunked] at hbody hbody'
      rw [if_pos hchunked, if_pos hchunked]
      exact dechunk_of_prefix h.length (hsizes hchunked) hbody' hbody
    · have hplain := Bool.eq_false_iff.mpr hchunked
      have hfixed := (hend.resolve_left hbodiless).resolve_left hchunked
      have hmore := extractBody_sized_append hplain (.inr hfixed) hbody' hstart q
      obtain ⟨hbodies, -⟩ := Outcome.success.inj (Option.some.inj (hmore.symm.trans hbody))
      rw [hbodies]

/-! ## The first prefix that is accepted -/

/-- The loop delivers the first prefix that is accepted, counted in reads. -/
theorem receive_first {buffer : Bytes} {reads : List Bytes}
    (hreturns : ∀ p q, p ++ q = w → parseResponse p ≠ none)
    (haccepted : ∃ m n, parseResponse w = some (.success m n)) (hsplit : buffer ++ reads.flatten = w) :
    ∃ k m n, k ≤ reads.length ∧
      parseResponse (buffer ++ (reads.take k).flatten) = some (.success m n) ∧
      receive buffer reads = deliver (buffer ++ (reads.take k).flatten) m ∧
      ∀ j, 0 < j → j < k → ∀ m' n',
        parseResponse (buffer ++ (reads.take j).flatten) ≠ some (.success m' n') := by
  induction reads generalizing buffer with
  | nil =>
    obtain ⟨m, n, hw⟩ := haccepted
    rw [flatten_nil, append_nil] at hsplit
    subst hsplit
    refine ⟨0, m, n, Nat.le_refl 0, ?_, ?_, fun j hpos hj => absurd hj (by omega)⟩
    · rw [take_zero, flatten_nil, append_nil, hw]
    · rw [take_zero, flatten_nil, append_nil, receive, hw]
  | cons buf reads ih =>
    rw [flatten_cons, ← append_assoc] at hsplit
    have hone : buffer ++ ((buf :: reads).take 1).flatten = buffer ++ buf := by
      rw [take_succ_cons, take_zero, flatten_cons, flatten_nil, append_nil]
    have hmore : ∀ k, buffer ++ ((buf :: reads).take (k + 1)).flatten =
        buffer ++ buf ++ (reads.take k).flatten := fun k => by
      rw [take_succ_cons, flatten_cons, append_assoc]
    by_cases hnow : ∃ m n, parseResponse (buffer ++ buf) = some (.success m n)
    · obtain ⟨m, n, hp⟩ := hnow
      refine ⟨1, m, n, by rw [length_cons]; omega, by rw [hone, hp], ?_,
        fun j hpos hj => absurd hj (by omega)⟩
      rw [hone, receive, hp]
    · obtain ⟨k, m, n, hk, hp, hreceive, hfirst⟩ := ih hsplit
      refine ⟨k + 1, m, n, by rw [length_cons]; omega, by rw [hmore, hp], ?_, ?_⟩
      · have hstep : receive buffer (buf :: reads) = receive (buffer ++ buf) reads := by
          rw [receive]
          split
          · rename_i hnone
            exact absurd hnone (hreturns _ _ hsplit)
          · rename_i m' n' hsome
            exact absurd ⟨m', n', hsome⟩ hnow
          · rfl
        rw [hstep, hreceive, hmore]
      · intro j hpos hj m' n' hj'
        obtain ⟨j, rfl⟩ := Nat.exists_eq_succ_of_ne_zero (Nat.ne_of_gt hpos)
        rw [hmore] at hj'
        cases j with
        | zero =>
          rw [take_zero, flatten_nil, append_nil] at hj'
          exact hnow ⟨m', n', hj'⟩
        | succ j => exact hfirst (j + 1) (Nat.succ_pos j) (by omega) m' n' hj'

/-! ## Reads that do not matter -/

/-- The client gets the status, the headers and the whole body of the message. -/
def Complete (m : Response) (res : Option ClientResponse) : Prop :=
  ∃ c, res = some c ∧ c.statusCode = m.statusCode ∧ c.statusText = m.statusText ∧
    c.headers = m.headers ∧ content m = some c.body

theorem content_returns (h : ResponseStream w m) : ∃ body, content m = some body := by
  obtain ⟨n, hw⟩ := h.accepted
  obtain ⟨sl, next, start, hfind, -, hheaders, hbody⟩ := parseResponse_eq_success.mp hw
  rw [content]
  by_cases hchunked : isChunked m.headers = true
  · rw [if_pos hchunked]
    rw [responseBody] at hbody
    split at hbody
    · obtain ⟨hempty, -⟩ := Outcome.success.inj (Option.some.inj hbody)
      rw [← hempty]
      exact ⟨[], rfl⟩
    · rw [extractBody_chunked hchunked] at hbody
      obtain ⟨c, last, hlast⟩ := extract_lastChunk hbody
      obtain ⟨chunks, hchunks⟩ :=
        dechunk_rawBody h.length (h.sizes sl next start hfind hheaders hchunked) hlast
      rw [hlast.extract] at hbody
      obtain ⟨hraw, -⟩ := Outcome.success.inj (Option.some.inj hbody)
      rw [← hraw]
      exact ⟨chunks, hchunks _ (le_afterLast w last) (afterLast_le (chunkTurn_last_le hlast.turn))⟩
  · rw [if_neg hchunked]
    exact ⟨m.body, rfl⟩

/-- A message with the content of the stream is delivered as the whole response. -/
theorem complete_deliver {buffer : Bytes} (h : ResponseStream w m)
    (hsame : content m' = content m ∧ m' = { m with body := m'.body }) :
    Complete m (deliver buffer m') := by
  obtain ⟨body, hbody⟩ := content_returns h
  obtain ⟨hcontent, hhead⟩ := hsame
  rw [deliver, hcontent, hbody]
  refine ⟨_, rfl, ?_, ?_, ?_, hbody⟩
  · rw [hhead]
  · rw [hhead]
  · rw [hhead]

/-- Without a way to tell the end, a prefix has as much of the body as has arrived. -/
theorem body_of_start (h : ResponseStream (p ++ q) m) (hopen : ¬ Delimited m)
    (hp : parseResponse p = some (.success m' n)) :
    m' = { m with body := m'.body } ∧ m.body = m'.body ++ q := by
  obtain ⟨start, n', hstart, hsame, -, hbody', hbody⟩ := head_of_prefix h hp
  obtain ⟨hbodiless, hopen⟩ := not_or.mp hopen
  obtain ⟨hchunked, hlength⟩ := not_or.mp hopen
  have hplain := Bool.eq_false_iff.mpr hchunked
  have hnone := not_not.mp hlength
  rw [responseBody, if_neg hbodiless, extractBody_untilClose hplain hnone] at hbody hbody'
  obtain ⟨hall, -⟩ := Outcome.success.inj (Option.some.inj hbody)
  obtain ⟨hpart, -⟩ := Outcome.success.inj (Option.some.inj hbody')
  refine ⟨hsame, ?_⟩
  rw [← hall, ← hpart, drop_append_of_le_length hstart]

/-- The reads of a transport that delivers byte by byte. -/
def byteReads (w : Bytes) : List Bytes := w.map fun b => [b]

theorem byteReads_flatten (w : Bytes) : (byteReads w).flatten = w := by
  rw [byteReads, ← flatMap_def]
  exact flatMap_singleton' w

/-- The stream may come byte by byte. -/
theorem byteReads_splits (w : Bytes) : Splits (byteReads w) w := by
  refine ⟨byteReads_flatten w, fun buf hbuf => ?_⟩
  obtain ⟨b, -, rfl⟩ := mem_map.mp hbuf
  exact ⟨nofun, Nat.le_of_ble_eq_true rfl⟩

theorem byteReads_take (w : Bytes) (k : Nat) : ((byteReads w).take k).flatten = w.take k := by
  rw [byteReads, ← map_take]
  exact byteReads_flatten (w.take k)

/-- A line that ends in front of the cut is there already. -/
theorem findNextLine_of_append {line : Bytes} (h : findNextLine (p ++ q) c = some (line, n))
    (hn : n ≤ p.length) : findNextLine p c = some (line, n) := by
  have hwindow : findNextLine ([] ++ p ++ q) (([] : Bytes).length + c) = some (line, n) := by
    rw [length_nil, Nat.zero_add]
    exact h
  obtain ⟨j, hj, hfind⟩ := findNextLine_window hwindow (by rw [length_nil, Nat.zero_add]; exact hn)
  rw [length_nil, Nat.zero_add] at hj
  rw [hj]
  exact hfind

/-- So are headers that end in front of it. -/
theorem headersAt_of_append {headers : List Header} {stop : Nat}
    (h : HeadersAt (p ++ q) c headers stop) (hstop : stop ≤ p.length) :
    HeadersAt p c headers stop := by
  induction h with
  | blank h => exact .blank (findNextLine_of_append h hstop)
  | field h hline hfield hrest ih =>
    have hlt := hrest.bounds.1
    exact .field (findNextLine_of_append h (by omega)) hline hfield (ih hstop)

/-- The head alone is accepted when the end cannot be told. -/
theorem head_accepted (h : ResponseStream w m) (hopen : ¬ Delimited m) :
    ∃ k, 0 < k ∧ k ≤ w.length ∧ m.body = w.drop k ∧
      ∃ m' n, parseResponse (w.take k) = some (.success m' n) := by
  obtain ⟨n, hw⟩ := h.accepted
  obtain ⟨sl, next, start, hfind, hline, hheaders, hbody⟩ := parseResponse_eq_success.mp hw
  obtain ⟨hbodiless, hopen⟩ := not_or.mp hopen
  obtain ⟨hchunked, hlength⟩ := not_or.mp hopen
  have huntil : ∀ buffer : Bytes, extractBody buffer start m.headers false =
      some (.success (buffer.drop start) (start + (buffer.length - start))) := fun _ =>
    extractBody_untilClose (Bool.eq_false_iff.mpr hchunked) (not_not.mp hlength)
  obtain ⟨hlt, hle⟩ := hheaders.bounds
  rw [responseBody, if_neg hbodiless, huntil] at hbody
  obtain ⟨hall, -⟩ := Outcome.success.inj (Option.some.inj hbody)
  have htake : (w.take start).length = start := length_take_of_le hle
  rw [← take_append_drop start w] at hfind hheaders
  refine ⟨start, by omega, hle, hall.symm, { m with body := (w.take start).drop start },
    start + ((w.take start).length - start), parseResponse_eq_success.mpr ⟨sl, next, start,
      findNextLine_of_append hfind (by omega), hline, headersAt_of_append hheaders (by omega), ?_⟩⟩
  rw [responseBody, if_neg hbodiless, huntil]

/-- **Reads that do not matter.**  However a response is split into reads, the client gets
    its status, its headers and its whole body exactly when the end of the body can be told
    without the end of the connection, or the body is empty. -/
theorem exchange_independent_iff (h : ResponseStream w m) :
    (∀ reads, Splits reads w → Complete m (executeHttp1Exchange reads)) ↔
      Delimited m ∨ m.body = [] := by
  have haccepted : ∃ m n, parseResponse w = some (.success m n) := ⟨m, h.accepted⟩
  have hreturns : ∀ p q, p ++ q = w → parseResponse p ≠ none := by
    rintro p q rfl
    exact parseResponse_returns h
  constructor
  · intro hall
    by_cases hopen : Delimited m
    · exact .inl hopen
    · -- byte by byte, the head is delivered without a body
      refine .inr ?_
      obtain ⟨k, m', n, hk, hp, hreceive, hfirst⟩ :=
        receive_first hreturns haccepted ((nil_append _).trans (byteReads_flatten w))
      obtain ⟨whole, hpos, hwhole, hbody, m₀, n₀, haccept⟩ := head_accepted h hopen
      simp only [nil_append, byteReads_take] at hp hreceive hfirst
      have hle : k ≤ whole := Nat.not_lt.mp fun hlater => hfirst whole hpos hlater m₀ n₀ haccept
      have hstream := h
      rw [← take_append_drop k w] at hstream
      obtain ⟨-, hrest⟩ := body_of_start hstream hopen hp
      have hempty : m'.body = [] := by
        have hcount := congrArg List.length (hrest.symm.trans hbody)
        rw [length_append, length_drop, length_drop] at hcount
        exact eq_nil_of_length_eq_zero (by omega)
      have hplain : ¬ isChunked m.headers = true := fun hchunked => hopen (.inr (.inl hchunked))
      have hplain' : ¬ isChunked m'.headers = true := by
        rw [(body_of_start hstream hopen hp).1]
        exact hplain
      obtain ⟨c, hc, -, -, -, hcontent⟩ := hall _ (byteReads_splits w)
      rw [executeHttp1Exchange, hreceive, deliver, content, if_neg hplain', Option.map_some,
        Option.some_inj] at hc
      rw [content, if_neg hplain, ← hc, hempty] at hcontent
      exact Option.some.inj hcontent
  · intro hend reads hsplit
    obtain ⟨k, m', n, -, hp, hreceive, -⟩ :=
      receive_first hreturns haccepted ((nil_append _).trans hsplit.1)
    rw [nil_append] at hp hreceive
    rw [executeHttp1Exchange, hreceive]
    refine complete_deliver h ?_
    have hparts : w = (reads.take k).flatten ++ (reads.drop k).flatten := by
      rw [← flatten_append, take_append_drop, hsplit.1]
    rw [hparts] at h
    by_cases hopen : Delimited m
    · exact content_of_prefix h hopen hp
    · obtain ⟨hsame, hbody⟩ := body_of_start h hopen hp
      rw [hend.resolve_left hopen] at hbody
      obtain ⟨hempty, -⟩ := append_eq_nil_iff.mp hbody.symm
      refine ⟨?_, hsame⟩
      rw [hsame, hempty, ← hend.resolve_left hopen]

/-- A response in chunks, without the line behind its last chunk. -/
def chunkedStream : Bytes :=
  text "HTTP/1.1 200 OK\r\nTransfer-Encoding: chunked\r\n\r\n2\r\nhi\r\n0\r\n"

def chunkedMessage : Response :=
  { headers := [(text "Transfer-Encoding", text "chunked")], body := text "2\r\nhi\r\n0\r\n\r\n" }

/-- No size line at this place is too large for the cursor. -/
def sizeFits (bytes : Bytes) (c : Nat) : Bool :=
  match findNextLine bytes c with
  | some (line, next) =>
      match fromCharsHex (sizeText line) with
      | some (size, _) => decide (next + size < 2 ^ 64)
      | none => true
  | none => true

theorem chunkedStream_response : ResponseStream (chunkedStream ++ crlf) chunkedMessage := by
  refine ⟨by decide, ⟨59, by decide⟩, fun sl next start _ _ _ => ?_⟩
  rintro c size next - ⟨line, digits, hfind, hread⟩
  have hall : ∀ c < (chunkedStream ++ crlf).length, sizeFits (chunkedStream ++ crlf) c = true := by
    decide
  obtain ⟨hlt, hle⟩ := findNextLine_bounds hfind
  have hhere := hall c (Nat.lt_of_lt_of_le hlt hle)
  rw [sizeFits, hfind] at hhere
  dsimp only at hhere
  rw [hread] at hhere
  exact of_decide_eq_true hhere

/-- The client takes the first read for the whole response, and that is what it is. -/
theorem exchange_independent_chunked :
    Complete chunkedMessage (executeHttp1Exchange [chunkedStream, crlf]) :=
  (exchange_independent_iff chunkedStream_response).mpr (.inl (by decide))
    [chunkedStream, crlf] (by decide)

/-- A response that ends with the connection loses what does not come with its head. -/
theorem close_delimited_truncated :
    ResponseStream (text "HTTP/1.1 200 OK\r\n\r\nhello") { body := text "hello" } ∧
      Splits [text "HTTP/1.1 200 OK\r\n\r\nhe", text "llo"]
        (text "HTTP/1.1 200 OK\r\n\r\nhello") ∧
      executeHttp1Exchange [text "HTTP/1.1 200 OK\r\n\r\nhe", text "llo"] =
        some { statusCode := 200, statusText := text "OK", body := text "he"
               rawResponse := text "HTTP/1.1 200 OK\r\n\r\nhe" } ∧
      ¬ Complete { body := text "hello" }
        (executeHttp1Exchange [text "HTTP/1.1 200 OK\r\n\r\nhe", text "llo"]) := by
  have hresult : executeHttp1Exchange [text "HTTP/1.1 200 OK\r\n\r\nhe", text "llo"] =
      some { statusCode := 200, statusText := text "OK", body := text "he"
             rawResponse := text "HTTP/1.1 200 OK\r\n\r\nhe" } := by decide
  refine ⟨⟨by decide, ⟨24, by decide⟩, fun _ _ _ _ _ hchunked => ?_⟩,
    by decide, hresult, ?_⟩
  · cases hchunked
  · rintro ⟨c, hc, -, -, -, hbody⟩
    rw [hresult] at hc
    obtain rfl := Option.some.inj hc
    exact absurd (Option.some.inj hbody) (by decide)

end Http1Client
