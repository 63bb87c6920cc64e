import WaveX.Http1RequestArrival
import WaveX.Http1Response

/-! # Streamed HTTP/1 responses

    `start_chunked`, `write_chunk` and `end_chunked` of
    `include/wavex/protos/http/HttpResponse.hpp` put a response on the wire while the
    handler runs, and `handle_connection` writes the response behind the handler when its
    head has not been sent.  Two flags say how far the response is.  A chunk is written
    without a look at the flag that says the response has ended, `send` sets that flag
    without writing anything, and `end_chunked` then writes nothing either. -/

namespace Http1Streaming

open QuicVarInt HttpText Http1Codec Http1ChunkProgress Http1RequestArrival Http1RoundTrip List
open Http1Response

/-! ## The response on the wire -/

/-- What a handler calls. -/
inductive Op where
  | start
  | write (data : Bytes)
  | finish
  | send (body : Bytes)
  deriving DecidableEq, Repr

/-- The response object and the bytes written for the request. -/
structure Stream where
  res : HttpResponse
  wire : Bytes := []
  deriving DecidableEq, Repr

/-- `serialize_headers_only`. -/
def serializeHeadersOnly (res : HttpResponse) : Bytes :=
  serializeInto { res.message with body := [] }

/-- The headers that `start_chunked` sets. -/
def chunkedHeaders (res : HttpResponse) : HttpResponse :=
  if res.versionMajor < 2 then
    (res.set (text "Transfer-Encoding") (text "chunked")).set (text "Connection") (text "keep-alive")
  else res

/-- `start_chunked`. -/
def startChunked (s : Stream) : Stream :=
  if s.res.isHeadersSent then s
  else
    { res := { chunkedHeaders s.res with isHeadersSent := true }
      wire := s.wire ++ serializeHeadersOnly (chunkedHeaders s.res) }

/-- `write_chunk`. -/
def writeChunk (s : Stream) (data : Bytes) : Stream :=
  let s := startChunked s
  if data = [] then s else { s with wire := s.wire ++ formatChunk data }

/-- `end_chunked`. -/
def endChunked (s : Stream) : Stream :=
  if s.res.isSent then s
  else
    let s := startChunked s
    { res := { s.res with isSent := true }, wire := s.wire ++ formatTerminalChunk }

/-- A call of the handler. -/
def step (s : Stream) : Op → Stream
  | .start => startChunked s
  | .write data => writeChunk s data
  | .finish => endChunked s
  | .send body => { s with res := s.res.send body }

/-- The settings of the server for a response: the connection stays open, the timeout and
    the number of requests for it, and the port that is advertised. -/
structure Settings where
  keep : Bool
  timeoutSec : Nat
  remaining : Nat
  altSvcPort : Nat
  deriving DecidableEq, Repr

/-- The text of the Keep-Alive header. -/
def keepAliveText (cfg : Settings) : Bytes :=
  text "timeout=" ++ decimal cfg.timeoutSec ++ text ", max=" ++ decimal cfg.remaining

/-- The text of the alt-svc header. -/
def altSvcText (port : Nat) : Bytes :=
  text "h3=\":" ++ decimal port ++ text "\"; ma=2592000,h3-29=\":" ++ decimal port ++
    text "\"; ma=2592000"

/-- `prepare_response`. -/
def prepareResponse (cfg : Settings) (res : HttpResponse) : HttpResponse :=
  if res.statusCode = 101 then res
  else
    let res :=
      if cfg.keep then
        (res.set (text "Connection") (text "keep-alive")).set (text "Keep-Alive")
          (keepAliveText cfg)
      else res.set (text "Connection") (text "close")
    if cfg.altSvcPort > 0 ∧ getHeader res.headers "alt-svc" = none then
      res.set (text "alt-svc") (altSvcText cfg.altSvcPort)
    else res

/-- What `handle_connection` does behind the handler. -/
def respond (cfg : Settings) (s : Stream) : Stream :=
  let res := prepareResponse cfg s.res
  if res.isHeadersSent then { s with res } else { res, wire := s.wire ++ res.serializeTo }

/-- The bytes written for a request whose handler makes these calls. -/
def streamed (cfg : Settings) (res : HttpResponse) (ops : List Op) : Bytes :=
  (respond cfg (ops.foldl step { res })).wire

/-! ## What it should be -/

/-- The call streams: it starts the response. -/
def Op.streams : Op → Bool
  | .start | .write _ => true
  | .finish | .send _ => false

/-- The bytes that a call writes as a chunk. -/
def Op.data : Op → Bytes
  | .write data => data
  | .start | .finish | .send _ => []

/-- A response that is not streamed: nothing is started or written, and the first call is
    not the end of a stream. -/
def Plain (ops : List Op) : Prop :=
  (∀ op ∈ ops, op.streams = false) ∧ ops.head? ≠ some .finish

instance (ops : List Op) : Decidable (Plain ops) := inferInstanceAs (Decidable (_ ∧ _))

/-- The body that is sent first. -/
def sentBody : List Op → Bytes
  | .send body :: _ => body
  | _ => []

/-- The body that the client is to get: what is sent with a response that is not streamed,
    else the chunks written before the end. -/
def expectedBody (ops : List Op) : Bytes :=
  if Plain ops then sentBody ops else (ops.takeWhile (· ≠ .finish)).flatMap Op.data

/-- The bytes are one complete response with this body. -/
def OneResponse (wire body : Bytes) : Prop :=
  ∃ m, parseResponse wire = some (.success m wire.length) ∧
    (if isChunked m.headers then dechunk m.body else some m.body) = some body

/-- The stream is ended by a call in front of which nothing is sent, and nothing is written
    behind it. -/
def Ended (ops : List Op) : Prop :=
  ∃ pre post, ops = pre ++ .finish :: post ∧ (∀ op ∈ pre, op.streams = true) ∧
    ∀ op ∈ post, op.data = []

/-- Nothing is written at all: no chunk, and the end of the stream comes, if it does, when
    something has been sent. -/
def Silent (ops : List Op) : Prop :=
  (∀ op ∈ ops, op.data = []) ∧
    ∀ pre post, ops = pre ++ .finish :: post → ∃ op ∈ pre, op.streams = false

/-! ## Chunks that were written -/

variable {buffer rest data : Bytes} {c : Nat} {chunks : List Bytes}

/-- The size line of a chunk. -/
theorem sizeText_hexadecimal (n : Nat) : sizeText (hexadecimal n) = hexadecimal n := by
  have hsize := sizeText_digits (hexadecimal_digits n).1 (.inl rfl)
  rw [append_nil] at hsize
  exact hsize

theorem formatChunk_eq (hdata : data ≠ []) :
    formatChunk data = hexadecimal data.length ++ crlf ++ (data ++ crlf) := by
  rw [formatChunk, if_neg hdata, append_assoc]

theorem formatChunk_length (hdata : data ≠ []) :
    (formatChunk data).length = (hexadecimal data.length).length + 2 + data.length + 2 := by
  have hbreak : crlf.length = 2 := rfl
  rw [formatChunk_eq hdata]
  simp only [length_append, hbreak, Nat.add_assoc]

/-- A line break that was written is skipped. -/
theorem skipLineBreak_crlf (hdrop : buffer.drop c = crlf ++ rest) :
    skipLineBreak buffer c = c + 2 := by
  have hfirst : buffer[c]? = some cr := by
    rw [← head?_drop, hdrop]
    rfl
  have hsecond : buffer[c + 1]? = some lf := by
    rw [← head?_drop, ← drop_drop, hdrop]
    rfl
  rw [skipLineBreak, if_pos hfirst, if_pos hsecond]

/-- A chunk that was written is read back. -/
theorem chunkTurn_written (hsize : buffer.length < 2 ^ 64) (hdata : data ≠ [])
    (hdrop : buffer.drop c = formatChunk data ++ rest) :
    chunkTurn buffer c = .chunk data (c + (formatChunk data).length) := by
  have hparts : buffer.drop c = hexadecimal data.length ++ crlf ++ (data ++ (crlf ++ rest)) := by
    rw [hdrop, formatChunk_eq hdata]
    simp only [append_assoc]
  have hclean : lf ∉ hexadecimal data.length := fun hmem =>
    absurd ((hexadecimal_digits data.length).1 lf hmem) (by decide)
  have hfind := findNextLine_crlf hparts hclean
  have hbody := drop_of_append hparts
  have hbreak := drop_of_append hbody
  have hpositive : data.length ≠ 0 := fun hzero => hdata (eq_nil_of_length_eq_zero hzero)
  have hlength : buffer.length - c =
      (hexadecimal data.length ++ crlf).length + (data.length + (crlf ++ rest).length) := by
    rw [← length_drop, hparts]
    simp only [length_append]
  have hend : chunkEnd (c + (hexadecimal data.length ++ crlf).length) data.length =
      c + (hexadecimal data.length ++ crlf).length + data.length :=
    Nat.mod_eq_of_lt (by omega)
  have hwhole : (formatChunk data).length =
      (hexadecimal data.length ++ crlf).length + data.length + 2 := by
    rw [formatChunk_length hdata]
    simp only [length_append]
    rfl
  have hne : sizeText (hexadecimal data.length) ≠ [] := by
    rw [sizeText_hexadecimal]
    exact hexadecimal_ne_nil data.length
  rw [chunkTurn, hfind]
  dsimp only
  rw [if_neg hne, sizeText_hexadecimal, fromCharsHex_hexadecimal (by omega)]
  dsimp only
  rw [if_neg hpositive, hend, if_neg (by omega), hbody, take_left, skipLineBreak_crlf hbreak,
    hwhole]
  simp only [Nat.add_assoc]

/-- The loops go over chunks that were written. -/
theorem reaches_written (hsize : buffer.length < 2 ^ 64) (hchunks : ∀ d ∈ chunks, d ≠ [])
    (hdrop : buffer.drop c = chunks.flatMap formatChunk ++ rest) :
    Reaches buffer c (c + (chunks.flatMap formatChunk).length) := by
  induction chunks generalizing c with
  | nil => exact .refl
  | cons data chunks ih =>
    have hdata := hchunks data mem_cons_self
    rw [flatMap_cons, append_assoc] at hdrop
    have hturn := chunkTurn_written hsize hdata hdrop
    have hmore := ih (fun d hd => hchunks d (mem_cons_of_mem data hd)) (drop_of_append hdrop)
    have hc : c < buffer.length := by
      have hlength := congrArg List.length hdrop
      rw [length_drop, length_append, formatChunk_length hdata] at hlength
      omega
    rw [flatMap_cons, length_append, ← Nat.add_assoc]
    exact .head ⟨hc, by rw [hturn]; rfl⟩ hmore

/-- The terminal chunk is read back. -/
theorem chunkTurn_terminal (hdrop : buffer.drop c = formatTerminalChunk ++ rest) :
    chunkTurn buffer c = .last (c + 3) ∧ afterLast buffer (c + 3) = c + 5 := by
  have hfirst : buffer.drop c = text "0" ++ crlf ++ (crlf ++ rest) := hdrop
  have hclean : lf ∉ text "0" := by decide
  have hfind := findNextLine_crlf hfirst hclean
  have hsecond : buffer.drop (c + 3) = [] ++ crlf ++ rest := drop_of_append hfirst
  have hnext := findNextLine_crlf hsecond not_mem_nil
  have hsize : sizeText (text "0") ≠ [] := by decide
  have hzero : fromCharsHex (sizeText (text "0")) = some (0, 1) := by decide
  constructor
  · rw [chunkTurn, hfind]
    dsimp only
    rw [if_neg hsize, hzero]
    rfl
  · rw [afterLast, hnext]
    rfl

/-- A stream with its terminal chunk is taken as a whole, and what follows is left. -/
theorem extractChunkedBody_ended (hsize : buffer.length < 2 ^ 64) (hchunks : ∀ d ∈ chunks, d ≠ [])
    (hdrop : buffer.drop c = chunks.flatMap formatChunk ++ formatTerminalChunk ++ rest) :
    extractChunkedBody buffer c =
      some (.success (chunks.flatMap formatChunk ++ formatTerminalChunk)
        (c + (chunks.flatMap formatChunk ++ formatTerminalChunk).length)) := by
  have hfirst := hdrop
  rw [append_assoc] at hfirst
  have hlast := drop_of_append hfirst
  obtain ⟨hturn, hafter⟩ := chunkTurn_terminal hlast
  have hfive : formatTerminalChunk.length = 5 := by decide
  have hlength : buffer.length - c =
      (chunks.flatMap formatChunk ++ formatTerminalChunk).length + rest.length := by
    rw [← length_drop, hdrop, length_append]
  have hsum : (chunks.flatMap formatChunk ++ formatTerminalChunk).length =
      (chunks.flatMap formatChunk).length + 5 := by
    rw [length_append, hfive]
  have hreached : LastChunk buffer c _ _ :=
    ⟨reaches_written hsize hchunks hfirst, by omega, hturn⟩
  rw [hreached.extract, hafter, rawBody, hdrop, hsum, ← Nat.add_assoc]
  have hcount : (c + (chunks.flatMap formatChunk).length + 5 + 2 ^ 64 - c) % 2 ^ 64 =
      (chunks.flatMap formatChunk ++ formatTerminalChunk).length := by omega
  rw [hcount, take_left]

/-- A stream without its terminal chunk is not accepted. -/
theorem extractChunkedBody_open {body : Bytes} {n : Nat} (hsize : buffer.length < 2 ^ 64)
    (hchunks : ∀ d ∈ chunks, d ≠ []) (hc : c ≤ buffer.length)
    (hdrop : buffer.drop c = chunks.flatMap formatChunk) :
    extractChunkedBody buffer c ≠ some (.success body n) := by
  intro h
  obtain ⟨last, next, hlast⟩ := extract_lastChunk h
  have hlength : buffer.length = c + (chunks.flatMap formatChunk).length := by
    have hcount := congrArg List.length hdrop
    rw [length_drop] at hcount
    omega
  have hend : Reaches buffer c buffer.length := by
    rw [← append_nil (chunks.flatMap formatChunk)] at hdrop
    rw [hlength]
    exact reaches_written hsize hchunks hdrop
  -- the loop has one way to go, and neither the last chunk nor the end lets it go on
  have hunique : Relator.RightUnique (Iterates buffer) := fun _ _ _ => Iterates.deterministic
  obtain hforth | hback := Relation.ReflTransGen.total_of_right_unique hunique hlast.reached hend
  · obtain heq | ⟨c', hiter, -⟩ := Relation.ReflTransGen.cases_head hforth
    · exact absurd hlast.within (by omega)
    · have hnext := hiter.2
      rw [hlast.turn] at hnext
      cases hnext
  · obtain heq | ⟨c', hiter, -⟩ := Relation.ReflTransGen.cases_head hback
    · exact absurd hlast.within (by omega)
    · exact absurd hiter.1 (lt_irrefl _)

theorem dechunkLoop_written {fuel : Nat} (hsize : buffer.length < 2 ^ 64)
    (hchunks : ∀ d ∈ chunks, d ≠ []) (hfuel : chunks.length < fuel)
    (hdrop : buffer.drop c = chunks.flatMap formatChunk ++ formatTerminalChunk)
    (unchunked : Bytes) :
    dechunkLoop buffer fuel c unchunked = some (unchunked ++ chunks.flatten) := by
  induction chunks generalizing c fuel unchunked with
  | nil =>
    obtain ⟨fuel, rfl⟩ := Nat.exists_eq_succ_of_ne_zero (Nat.ne_of_gt hfuel)
    have hlast : buffer.drop c = formatTerminalChunk ++ [] := hdrop.trans (append_nil _).symm
    have hc : c < buffer.length := by
      have hlength := congrArg List.length hlast
      have hfive : (formatTerminalChunk ++ []).length = 5 := by decide
      rw [length_drop, hfive] at hlength
      omega
    rw [dechunkLoop, if_pos hc, (chunkTurn_terminal hlast).1, flatten_nil, append_nil]
  | cons data chunks ih =>
    obtain ⟨fuel, rfl⟩ := Nat.exists_eq_succ_of_ne_zero (Nat.ne_of_gt (Nat.zero_lt_of_lt hfuel))
    have hdata := hchunks data mem_cons_self
    rw [flatMap_cons, append_assoc] at hdrop
    have hturn := chunkTurn_written hsize hdata hdrop
    have hc : c < buffer.length := by
      have hlength := congrArg List.length hdrop
      have hfive : formatTerminalChunk.length = 5 := by decide
      simp only [length_drop, length_append, hfive] at hlength
      omega
    rw [dechunkLoop, if_pos hc, hturn]
    dsimp only
    rw [ih (fun d hd => hchunks d (mem_cons_of_mem data hd)) (Nat.lt_of_succ_lt_succ hfuel)
      (drop_of_append hdrop), flatten_cons, append_assoc]

/-- `dechunk` puts the chunks together again. -/
theorem dechunk_written (hchunks : ∀ d ∈ chunks, d ≠ [])
    (hsize : (chunks.flatMap formatChunk ++ formatTerminalChunk).length < 2 ^ 64) :
    dechunk (chunks.flatMap formatChunk ++ formatTerminalChunk) = some chunks.flatten := by
  have hcount : chunks.length ≤ (chunks.flatMap formatChunk).length := by
    clear hsize
    induction chunks with
    | nil => exact Nat.le_refl 0
    | cons data chunks ih =>
      have hmore := ih fun d hd => hchunks d (mem_cons_of_mem data hd)
      rw [flatMap_cons, length_append, length_cons,
        formatChunk_length (hchunks data mem_cons_self)]
      omega
  rw [dechunk, dechunkLoop_written hsize hchunks _ drop_zero, nil_append]
  rw [length_append]
  omega

/-- `format_chunk_to` appends what `format_chunk` returns. -/
theorem formatChunkTo_eq (out data : Bytes) : formatChunkTo out data = out ++ formatChunk data := by
  rw [formatChunkTo, formatChunk]
  split
  · rfl
  · rw [append_assoc, append_assoc, append_assoc, append_assoc,
      append_assoc]

/-- **Chunks there and back.**  Whatever is in the data, the parser finds the end of the
    chunks that have been written, and the de-chunker takes the data out of them. -/
theorem chunked_round_trip {before : Bytes} (hchunks : ∀ d ∈ chunks, d ≠ [])
    (hsize : (before ++ (chunks.flatMap formatChunk ++ formatTerminalChunk ++ rest)).length <
      2 ^ 64) :
    extractChunkedBody (before ++ (chunks.flatMap formatChunk ++ formatTerminalChunk ++ rest))
        before.length =
      some (.success (chunks.flatMap formatChunk ++ formatTerminalChunk)
        (before.length + (chunks.flatMap formatChunk ++ formatTerminalChunk).length)) ∧
    dechunk (chunks.flatMap formatChunk ++ formatTerminalChunk) = some chunks.flatten ∧
    ∀ out data, formatChunkTo out data = out ++ formatChunk data := by
  refine ⟨extractChunkedBody_ended hsize hchunks drop_left, dechunk_written hchunks ?_,
    formatChunkTo_eq⟩
  rw [length_append, length_append] at hsize
  omega

/-- Data that looks like chunks, and a last chunk within it. -/
theorem chunked_round_trip_nested :
    extractChunkedBody (text "5\r\na\r\nb\n\r\n5\r\n0\r\n\r\n\r\n0\r\n\r\nGET") 0 =
      some (.success (text "5\r\na\r\nb\n\r\n5\r\n0\r\n\r\n\r\n0\r\n\r\n") 25) ∧
    dechunk (text "5\r\na\r\nb\n\r\n5\r\n0\r\n\r\n\r\n0\r\n\r\n") =
      some (text "a\r\nb\n0\r\n\r\n") := by
  have hwire : [text "a\r\nb\n", text "0\r\n\r\n"].flatMap formatChunk ++ formatTerminalChunk =
      text "5\r\na\r\nb\n\r\n5\r\n0\r\n\r\n\r\n0\r\n\r\n" := by decide
  obtain ⟨hextract, hdechunk, -⟩ := chunked_round_trip
    (show ∀ d ∈ [text "a\r\nb\n", text "0\r\n\r\n"], d ≠ [] by decide)
    (show ([] ++ (_ ++ formatTerminalChunk ++ text "GET")).length < 2 ^ 64 by decide)
  rw [hwire] at hextract hdechunk
  exact ⟨hextract, hdechunk⟩

/-! ## Headers of the server -/

/-- A text between two others, with a number in it. -/
theorem decimal_clean (n : Nat) : lf ∉ decimal n := fun hmem =>
  absurd ((decimal_digits n).1 lf hmem) (by decide)

theorem keepAliveText_sendable (cfg : Settings) : Sendable (text "Keep-Alive", keepAliveText cfg) := by
  have hname : colon ∉ text "Keep-Alive" ∧ lf ∉ text "Keep-Alive" := by decide
  have hfixed : lf ∉ text "timeout=" ∧ lf ∉ text ", max=" := by decide
  have hdigits : ∀ b, isDigit b = true → isOws b = false := by decide +kernel
  refine ⟨hname, ?_, ?_, ?_⟩
  · rw [keepAliveText]
    simp only [mem_append]
    rintro (((h | h) | h) | h)
    · exact hfixed.1 h
    · exact decimal_clean _ h
    · exact hfixed.2 h
    · exact decimal_clean _ h
  · intro b hb
    have hhead : (keepAliveText cfg).head? = some 0x74 := rfl
    rw [hhead, Option.mem_def, Option.some_inj] at hb
    rw [← hb]
    rfl
  · intro b hb
    rw [keepAliveText, getLast?_append_of_ne_nil _ (decimal_ne_nil _)] at hb
    exact hdigits b ((decimal_digits _).1 b (mem_of_getLast? hb))

theorem altSvcText_sendable (port : Nat) : Sendable (text "alt-svc", altSvcText port) := by
  have hname : colon ∉ text "alt-svc" ∧ lf ∉ text "alt-svc" := by decide
  have hfixed : lf ∉ text "h3=\":" ∧ lf ∉ text "\"; ma=2592000,h3-29=\":" ∧
      lf ∉ text "\"; ma=2592000" := by decide
  refine ⟨hname, ?_, ?_, ?_⟩
  · rw [altSvcText]
    simp only [mem_append]
    rintro ((((h | h) | h) | h) | h)
    · exact hfixed.1 h
    · exact decimal_clean _ h
    · exact hfixed.2.1 h
    · exact decimal_clean _ h
    · exact hfixed.2.2 h
  · intro b hb
    have hhead : (altSvcText port).head? = some 0x68 := rfl
    rw [hhead, Option.mem_def, Option.some_inj] at hb
    rw [← hb]
    rfl
  · intro b hb
    have hlast : (text "\"; ma=2592000").getLast? = some 0x30 := by decide
    rw [altSvcText, getLast?_append_of_ne_nil _ (by decide), hlast, Option.mem_def,
      Option.some_inj] at hb
    rw [← hb]
    rfl

/-! ## What the calls write -/

/-- What a response that has been started writes for the calls. -/
def frames : Bool → List Op → Bytes
  | _, [] => []
  | isSent, .start :: ops => frames isSent ops
  | isSent, .write data :: ops =>
      (if data = [] then [] else formatChunk data) ++ frames isSent ops
  | true, .finish :: ops => frames true ops
  | false, .finish :: ops => formatTerminalChunk ++ frames true ops
  | _, .send _ :: ops => frames true ops

/-- The chunks among the calls. -/
def chunksOf (ops : List Op) : List Bytes := (ops.map Op.data).filter (· ≠ [])

variable {s : Stream} {ops pre post : List Op} {op : Op} {cfg : Settings} {res : HttpResponse}

theorem startChunked_started (h : s.res.isHeadersSent = true) : startChunked s = s := if_pos h

/-- Starting sends the head and leaves the flag that says the response has ended. -/
theorem startChunked_flags (s : Stream) :
    (startChunked s).res.isHeadersSent = true ∧ (startChunked s).res.isSent = s.res.isSent := by
  rw [startChunked]
  split
  · rename_i h
    exact ⟨h, rfl⟩
  · refine ⟨rfl, ?_⟩
    show (chunkedHeaders s.res).isSent = s.res.isSent
    rw [chunkedHeaders]
    split
    · rfl
    · rfl

/-- A started response writes frames. -/
theorem foldl_started (h : s.res.isHeadersSent = true) (ops : List Op) :
    (ops.foldl step s).wire = s.wire ++ frames s.res.isSent ops ∧
      (ops.foldl step s).res.isHeadersSent = true := by
  induction ops generalizing s with
  | nil => exact ⟨(append_nil _).symm, h⟩
  | cons op ops ih =>
    rw [foldl_cons]
    cases op with
    | start =>
      have hstep : step s .start = s := startChunked_started h
      rw [hstep, frames]
      exact ih h
    | write data =>
      have hstep : step s (.write data) =
          { s with wire := s.wire ++ if data = [] then [] else formatChunk data } := by
        rw [step, writeChunk, startChunked_started h]
        split
        · rw [append_nil]
        · rfl
      rw [hstep, frames, ← append_assoc]
      exact ih h
    | finish =>
      rw [step, endChunked]
      split
      · rename_i hsent
        have hmore := ih h
        rw [hsent] at hmore ⊢
        exact hmore
      · rename_i hopen
        rw [Bool.eq_false_iff.mpr hopen, startChunked_started h, frames, ← append_assoc]
        exact ih h
    | send body =>
      have hsent : (s.res.send body).isSent = true := by
        rw [HttpResponse.send]
        split
        · rename_i hsent
          exact hsent
        · rfl
      have hheaders : (s.res.send body).isHeadersSent = true := by
        rw [HttpResponse.send]
        split
        · exact h
        · exact h
      have hmore := ih (s := { s with res := s.res.send body }) hheaders
      rw [hsent] at hmore
      exact hmore

/-- The first call that streams starts the response. -/
theorem foldl_start (hop : op.streams = true ∨ op = .finish ∧ s.res.isSent = false) :
    (op :: ops).foldl step s = (op :: ops).foldl step (startChunked s) := by
  obtain ⟨hheaders, hsent⟩ := startChunked_flags s
  have hagain := startChunked_started hheaders
  have hstep : step s op = step (startChunked s) op := by
    obtain hstreams | ⟨rfl, hopen⟩ := hop
    · cases op with
      | start => exact hagain.symm
      | write data => rw [step, writeChunk, step, writeChunk, hagain]
      | finish => cases hstreams
      | send body => cases hstreams
    · rw [step, endChunked, step, endChunked, hsent, hagain, hopen]
      rfl
  rw [foldl_cons, foldl_cons, hstep]

/-- `prepare_response` sets headers that are kept and say nothing about the body. -/
theorem prepareResponse_induct {P : HttpResponse → Prop}
    (hset : ∀ res name value, Sendable (name, value) → Neutral (name, value) → P res →
      P (res.set name value)) (h : P res) : P (prepareResponse cfg res) := by
  have hneutral : Neutral (text "Keep-Alive", []) ∧ Neutral (text "alt-svc", []) := by decide
  have hstays : P ((res.set (text "Connection") (text "keep-alive")).set (text "Keep-Alive")
      (keepAliveText cfg)) :=
    hset _ _ _ (keepAliveText_sendable cfg) hneutral.1
      (hset _ _ _ (by decide +kernel) (by decide) h)
  have hcloses : P (res.set (text "Connection") (text "close")) :=
    hset _ _ _ (by decide +kernel) (by decide) h
  have hadvertises : ∀ r : HttpResponse, P r →
      P (if cfg.altSvcPort > 0 ∧ getHeader r.headers "alt-svc" = none then
        r.set (text "alt-svc") (altSvcText cfg.altSvcPort) else r) := by
    intro r hr
    split
    · exact hset _ _ _ (altSvcText_sendable cfg.altSvcPort) hneutral.2 hr
    · exact hr
  rw [prepareResponse]
  split
  · exact h
  · split
    · exact hadvertises _ hstays
    · exact hadvertises _ hcloses

theorem prepareResponse_isHeadersSent :
    (prepareResponse cfg res).isHeadersSent = res.isHeadersSent :=
  prepareResponse_induct (P := fun r => r.isHeadersSent = res.isHeadersSent)
    (fun _ _ _ _ _ h => h) rfl

/-- Behind a started response nothing more is written. -/
theorem respond_started (h : s.res.isHeadersSent = true) : (respond cfg s).wire = s.wire := by
  rw [respond, if_pos (prepareResponse_isHeadersSent.trans h)]

theorem respond_fresh (h : s.res.isHeadersSent = false) :
    (respond cfg s).wire = s.wire ++ (prepareResponse cfg s.res).serializeTo := by
  rw [respond, if_neg]
  rw [prepareResponse_isHeadersSent, h]
  exact Bool.false_ne_true

/-- The wire of a response that the first call starts. -/
theorem streamed_start (hfresh : res.isHeadersSent = false)
    (hop : op.streams = true ∨ op = .finish ∧ res.isSent = false) :
    streamed cfg res (op :: ops) =
      serializeHeadersOnly (chunkedHeaders res) ++ frames res.isSent (op :: ops) := by
  obtain ⟨hheaders, hsent⟩ := startChunked_flags { res }
  obtain ⟨hwire, hstarted⟩ := foldl_started hheaders (op :: ops)
  rw [streamed, foldl_start hop, respond_started hstarted, hwire, hsent, startChunked, hfresh]
  rfl

/-- Once something has been sent, the calls that do not stream do nothing. -/
theorem foldl_sent (hsent : s.res.isSent = true) (hops : ∀ op ∈ ops, op.streams = false) :
    ops.foldl step s = s := by
  induction ops with
  | nil => rfl
  | cons op ops ih =>
    have hstep : step s op = s := by
      cases op with
      | start => cases hops _ mem_cons_self
      | write data => cases hops _ mem_cons_self
      | finish => exact if_pos hsent
      | send body => rw [step, HttpResponse.send, if_pos hsent]
    rw [foldl_cons, hstep]
    exact ih fun op' hop' => hops op' (mem_cons_of_mem op hop')

/-- The wire of a response that is started when something has been sent. -/
theorem streamed_sent (hfresh : res.isHeadersSent = false) (hsent : res.isSent = true)
    (hops : ∃ op ∈ ops, op.streams = true) :
    streamed cfg res ops = serializeHeadersOnly (chunkedHeaders res) ++ frames true ops := by
  induction ops with
  | nil =>
    obtain ⟨op, hop, -⟩ := hops
    cases hop
  | cons op ops ih =>
    by_cases hop : op.streams = true
    · rw [streamed_start hfresh (.inl hop), hsent]
    · have hrest : ∃ op ∈ ops, op.streams = true := by
        obtain ⟨op', hmem, hstreams⟩ := hops
        obtain rfl | hmem := mem_cons.mp hmem
        · exact absurd hstreams hop
        · exact ⟨op', hmem, hstreams⟩
      have hone : [op].foldl step { res } = { res } := foldl_sent hsent fun op' hop' => by
        rw [mem_singleton.mp hop']
        exact Bool.eq_false_iff.mpr hop
      have hskip : frames true (op :: ops) = frames true ops := by
        cases op with
        | start => exact absurd rfl hop
        | write data => exact absurd rfl hop
        | finish => rfl
        | send body => rfl
      rw [hskip, ← ih hrest, streamed, foldl_cons]
      rw [foldl_cons, foldl_nil] at hone
      rw [hone, streamed]

/-! ## How a stream ends -/

/-- Chunks on the wire. -/
def chunkBytes (ops : List Op) : Bytes := (chunksOf ops).flatMap formatChunk

theorem chunksOf_cons : chunksOf (op :: ops) = if op.data = [] then chunksOf ops
    else op.data :: chunksOf ops := by
  rw [chunksOf, map_cons, filter_cons]
  by_cases hdata : op.data = []
  · simp only [hdata, ne_eq, not_true_eq_false, decide_false, Bool.false_eq_true, if_false,
      if_true, chunksOf]
  · simp only [hdata, ne_eq, not_false_eq_true, decide_true, if_true, if_false, chunksOf]

theorem chunkBytes_cons : chunkBytes (op :: ops) =
    (if op.data = [] then [] else formatChunk op.data) ++ chunkBytes ops := by
  rw [chunkBytes, chunksOf_cons]
  split
  · rfl
  · rw [flatMap_cons]
    rfl

theorem chunksOf_ne_nil : ∀ d ∈ chunksOf ops, d ≠ [] := fun _ hd =>
  of_decide_eq_true (mem_filter.mp hd).2

theorem chunksOf_eq_nil : chunksOf ops = [] ↔ ∀ op ∈ ops, op.data = [] := by
  induction ops with
  | nil => exact iff_of_true rfl nofun
  | cons op ops ih =>
    rw [chunksOf_cons, forall_mem_cons, ← ih]
    by_cases hdata : op.data = []
    · rw [if_pos hdata]
      exact ⟨fun h => ⟨hdata, h⟩, fun h => h.2⟩
    · rw [if_neg hdata]
      exact iff_of_false nofun fun h => hdata h.1

/-- The chunks are what is written. -/
theorem chunksOf_flatten : (chunksOf ops).flatten = ops.flatMap Op.data := by
  induction ops with
  | nil => rfl
  | cons op ops ih =>
    rw [chunksOf_cons, flatMap_cons]
    split
    · rename_i hdata
      rw [hdata, ih]
      rfl
    · rw [flatten_cons, ih]

/-- Chunks take more bytes than their data. -/
theorem chunkBytes_length (h : chunksOf ops ≠ []) :
    (ops.flatMap Op.data).length < (chunkBytes ops).length := by
  rw [← chunksOf_flatten, chunkBytes]
  have hall : ∀ d ∈ chunksOf ops, d ≠ [] := chunksOf_ne_nil
  generalize chunksOf ops = chunks at h hall ⊢
  induction chunks with
  | nil => exact absurd rfl h
  | cons data chunks ih =>
    have hdata := formatChunk_length (hall data mem_cons_self)
    rw [flatten_cons, flatMap_cons, length_append, length_append, hdata]
    by_cases hnil : chunks = []
    · rw [hnil, flatten_nil, flatMap_nil]
      omega
    · have hmore := ih hnil fun d hd => hall d (mem_cons_of_mem data hd)
      omega

theorem chunkBytes_eq_nil : chunkBytes ops = [] ↔ ∀ op ∈ ops, op.data = [] := by
  rw [← chunksOf_eq_nil]
  constructor
  · intro hnil
    by_contra hne
    have hlength := chunkBytes_length hne
    rw [hnil] at hlength
    exact Nat.not_lt_zero _ hlength
  · intro hnil
    rw [chunkBytes, hnil]
    rfl

theorem frames_sent : frames true ops = chunkBytes ops := by
  induction ops with
  | nil => rfl
  | cons op ops ih =>
    rw [chunkBytes_cons, ← ih]
    cases op with
    | start => rfl
    | write data => rfl
    | finish => rfl
    | send body => rfl

theorem frames_streams (hpre : ∀ op ∈ pre, op.streams = true) {isSent : Bool} :
    frames isSent (pre ++ ops) = chunkBytes pre ++ frames isSent ops := by
  induction pre with
  | nil => rfl
  | cons op pre ih =>
    have hmore := ih fun op' hop' => hpre op' (mem_cons_of_mem op hop')
    rw [chunkBytes_cons, append_assoc, ← hmore]
    cases op with
    | start => rfl
    | write data => rfl
    | finish => cases hpre _ mem_cons_self
    | send body => cases hpre _ mem_cons_self

theorem chunkBytes_append : chunkBytes (pre ++ post) = chunkBytes pre ++ chunkBytes post := by
  rw [chunkBytes, chunksOf, map_append, filter_append, flatMap_append]
  rfl

/-- What follows the calls that stream: nothing, the end, or something that is sent. -/
theorem ops_cases (ops : List Op) :
    ∃ pre post, ops = pre ++ post ∧ (∀ op ∈ pre, op.streams = true) ∧
      (post = [] ∨ (∃ rest, post = .finish :: rest) ∨ ∃ body rest, post = .send body :: rest) := by
  induction ops with
  | nil => exact ⟨[], [], rfl, nofun, .inl rfl⟩
  | cons op ops ih =>
    obtain ⟨pre, post, rfl, hpre, hpost⟩ := ih
    cases op with
    | start => exact ⟨.start :: pre, post, rfl, forall_mem_cons.mpr ⟨rfl, hpre⟩, hpost⟩
    | write data =>
      exact ⟨.write data :: pre, post, rfl, forall_mem_cons.mpr ⟨rfl, hpre⟩, hpost⟩
    | finish => exact ⟨[], _, rfl, nofun, .inr (.inl ⟨_, rfl⟩)⟩
    | send body => exact ⟨[], _, rfl, nofun, .inr (.inr ⟨body, _, rfl⟩)⟩

/-- The calls end the stream: nothing is sent in front of the end. -/
def EndsAt (ops pre post : List Op) : Prop :=
  ops = pre ++ .finish :: post ∧ ∀ op ∈ pre, op.streams = true

theorem EndsAt.takeWhile (h : EndsAt ops pre post) : ops.takeWhile Op.streams = pre := by
  rw [h.1, takeWhile_append_of_pos h.2]
  show pre ++ [] = pre
  rw [append_nil]

/-- A stream ends in one place. -/
theorem EndsAt.unique {pre' post' : List Op} (h : EndsAt ops pre post)
    (h' : EndsAt ops pre' post') : post = post' := by
  obtain rfl := h.takeWhile.symm.trans h'.takeWhile
  exact (List.cons.inj (append_cancel_left (h.1.symm.trans h'.1))).2

theorem EndsAt.ended_iff (h : EndsAt ops pre post) : Ended ops ↔ ∀ op ∈ post, op.data = [] := by
  constructor
  · rintro ⟨pre', post', hops, hpre', hpost'⟩
    have hends : EndsAt ops pre' post' := ⟨hops, hpre'⟩
    rw [h.unique hends]
    exact hpost'
  · intro hpost
    exact ⟨pre, post, h.1, h.2, hpost⟩

/-- The head of a response that is streamed. -/
def streamHead (res : HttpResponse) : Bytes := serializeHeadersOnly (chunkedHeaders res)

theorem streamHead_send (res : HttpResponse) (body : Bytes) :
    streamHead (res.send body) = streamHead res := by
  rw [HttpResponse.send]
  split
  · rfl
  · rw [streamHead, streamHead, chunkedHeaders, chunkedHeaders]
    split
    · rfl
    · rfl

/-- What is on the wire: a response that is not streamed, a stream with its end, or a stream
    without one. -/
theorem streamed_cases (cfg : Settings) (ops : List Op) (hsent : res.isSent = false)
    (hfresh : res.isHeadersSent = false) (hbody : res.body = []) :
    (Plain ops ∧ ∃ isSent, streamed cfg res ops =
        (prepareResponse cfg { res with body := expectedBody ops, isSent }).serializeTo) ∨
      ¬ Plain ops ∧
        ((∃ pre post, EndsAt ops pre post ∧ streamed cfg res ops =
            streamHead res ++ (chunkBytes pre ++ formatTerminalChunk ++ chunkBytes post)) ∨
          (∀ pre post, ¬ EndsAt ops pre post) ∧
            streamed cfg res ops = streamHead res ++ chunkBytes ops) := by
  -- the calls in front stream; behind them comes nothing, an end or a `send`
  obtain ⟨pre, post, rfl, hpre, hpost⟩ := ops_cases ops
  have hnever : (∀ rest, post ≠ .finish :: rest) → ∀ pre' post', ¬ EndsAt (pre ++ post) pre' post' := by
    intro hno pre' post' hends
    have htake : (pre ++ post).takeWhile Op.streams = pre := by
      rw [takeWhile_append_of_pos hpre]
      obtain rfl | ⟨rest, rfl⟩ | ⟨body, rest, rfl⟩ := hpost
      · exact append_nil pre
      · exact append_nil pre
      · exact append_nil pre
    obtain rfl := htake.symm.trans hends.takeWhile
    exact hno post' (append_cancel_left hends.1)
  cases pre with
  | cons op pre =>
    have hop := hpre op mem_cons_self
    have hstreams : ¬ Plain (op :: pre ++ post) := fun hplain => by
      have hquiet := hplain.1 op mem_cons_self
      rw [hop] at hquiet
      cases hquiet
    have hwire : streamed cfg res (op :: pre ++ post) =
        streamHead res ++ (chunkBytes (op :: pre) ++ frames false post) := by
      rw [← frames_streams hpre, ← hsent]
      exact streamed_start hfresh (.inl hop)
    refine .inr ⟨hstreams, ?_⟩
    obtain rfl | ⟨rest, rfl⟩ | ⟨body, rest, rfl⟩ := hpost
    · refine .inr ⟨hnever (by rintro rest ⟨⟩), hwire.trans ?_⟩
      rw [append_nil]
      show streamHead res ++ (chunkBytes (op :: pre) ++ []) = _
      rw [append_nil]
    · refine .inl ⟨op :: pre, rest, ⟨rfl, hpre⟩, hwire.trans ?_⟩
      rw [frames, frames_sent, ← append_assoc (chunkBytes (op :: pre))]
    · refine .inr ⟨hnever (by rintro rest ⟨⟩), hwire.trans ?_⟩
      rw [frames, frames_sent, chunkBytes_append, chunkBytes_cons]
      rfl
  | nil =>
    rw [nil_append] at hnever ⊢
    obtain rfl | ⟨rest, rfl⟩ | ⟨body, rest, rfl⟩ := hpost
    · have hres : { res with body := expectedBody [], isSent := res.isSent } = res := by
        show { res with body := [] } = res
        rw [← hbody]
      refine .inl ⟨⟨forall_mem_nil _, by rintro ⟨⟩⟩, res.isSent, ?_⟩
      rw [hres]
      exact respond_fresh hfresh
    · refine .inr ⟨fun hplain => hplain.2 rfl, .inl ⟨[], rest, ⟨rfl, forall_mem_nil _⟩, ?_⟩⟩
      rw [streamed_start hfresh (.inr ⟨rfl, hsent⟩), hsent, frames, frames_sent]
      rfl
    -- a `send` that comes first is the answer unless something streams later
    · by_cases hrest : ∃ op ∈ rest, op.streams = true
      · refine .inr ⟨?_, .inr ⟨hnever (by rintro rest ⟨⟩), ?_⟩⟩
        · obtain ⟨op, hmem, hop⟩ := hrest
          intro hplain
          have hquiet := hplain.1 op (mem_cons_of_mem _ hmem)
          rw [hop] at hquiet
          cases hquiet
        · have hafter : streamed cfg (res.send body) rest =
              streamHead (res.send body) ++ frames true rest := by
            refine streamed_sent ?_ ?_ hrest
            · rw [HttpResponse.send, hsent]
              exact hfresh
            · rw [HttpResponse.send, hsent]
              rfl
          rw [frames_sent, streamHead_send] at hafter
          exact hafter
      · have hquiet : ∀ op ∈ rest, op.streams = false := fun op hop =>
          Bool.eq_false_iff.mpr fun hstreams => hrest ⟨op, hop, hstreams⟩
        have hplain : Plain (.send body :: rest) :=
          ⟨forall_mem_cons.mpr ⟨rfl, hquiet⟩, by rintro ⟨⟩⟩
        have hexpected : expectedBody (.send body :: rest) = body := by
          rw [expectedBody, if_pos hplain]
          rfl
        have hres : res.send body = { res with body, isSent := true } := by
          rw [HttpResponse.send, hsent]
          rfl
        refine .inl ⟨hplain, true, ?_⟩
        have hfold : (Op.send body :: rest).foldl step { res } = { res := res.send body } :=
          foldl_sent (s := { res := res.send body }) (by rw [hres]) hquiet
        rw [hexpected, ← hres, streamed, hfold]
        exact respond_fresh (by rw [hres]; exact hfresh)

/-! ## What the client makes of it -/

/-- A response that a handler may use: its headers are kept and say nothing about the body,
    and its status allows one. -/
structure Ready (res : HttpResponse) : Prop where
  serializable : Serializable res
  neutral : ∀ f ∈ res.headers, Neutral f
  kept : ∀ f ∈ res.headers, Kept f
  status : isBodiless res.statusCode = false

variable {name value body : Bytes}

theorem kept_set (h : ∀ f ∈ res.headers, Kept f) (hsend : Sendable (name, value)) :
    ∀ f ∈ (res.set name value).headers, Kept f := by
  intro f hf
  have hname : colon ∉ f.1 := setHeader_names (P := fun n => colon ∉ n) (fun f hf => (h f hf).1)
    hsend.name.1 f hf
  obtain hold | ⟨hvalue, -⟩ := setHeader_mem hf
  · exact h f hold
  · exact ⟨hname, by rw [hvalue]; exact hsend.value.2⟩

theorem Ready.set (h : Ready res) (hsend : Sendable (name, value)) (hneutral : Neutral (name, value)) :
    Ready (res.set name value) where
  serializable := h.serializable.set hsend.name.2 hsend.value.1
  neutral := setHeader_names (P := fun n => Neutral (n, [])) h.neutral hneutral
  kept := kept_set h.kept hsend
  status := h.status

/-- A header that was set is found, and the others stay as they are. -/
theorem getHeader_setHeader (headers : List Header) (other : String) :
    getHeader (setHeader name value headers) other =
      if isEqual name (text other) then some value else getHeader headers other := by
  induction headers with
  | nil => rw [setHeader, getHeader_cons]
  | cons h headers ih =>
    rw [setHeader]
    split
    · rename_i hsame
      rw [getHeader_cons, getHeader_cons]
      dsimp only
      have hlower := isEqual_iff.mp hsame
      simp only [isEqual, hlower]
      split
      · rfl
      · rfl
    · rename_i hother
      rw [getHeader_cons, getHeader_cons, ih]
      by_cases hhere : isEqual h.1 (text other) = true
      · have hname : ¬ isEqual name (text other) = true := fun hname =>
          hother (isEqual_iff.mpr ((isEqual_iff.mp hhere).trans (isEqual_iff.mp hname).symm))
        rw [if_pos hhere, if_neg hname, if_pos hhere]
      · rw [if_neg hhere, if_neg hhere]

/-- The head of a streamed response. -/
structure HeadReady (res : HttpResponse) : Prop where
  serializable : Serializable res
  kept : ∀ f ∈ res.headers, Kept f
  status : isBodiless res.statusCode = false

theorem Ready.chunkedHeaders (h : Ready res) : HeadReady (chunkedHeaders res) := by
  have hte : Sendable (text "Transfer-Encoding", text "chunked") := by decide +kernel
  have hconn : Sendable (text "Connection", text "keep-alive") := by decide +kernel
  rw [Http1Streaming.chunkedHeaders]
  split
  · exact ⟨(h.serializable.set hte.name.2 hte.value.1).set hconn.name.2 hconn.value.1,
      kept_set (kept_set h.kept hte) hconn, h.status⟩
  · exact ⟨h.serializable, h.kept, h.status⟩

/-- The head says that the body is in chunks, for HTTP/1. -/
theorem isChunked_chunkedHeaders (h : Ready res) :
    isChunked (chunkedHeaders res).headers = decide (res.versionMajor < 2) := by
  rw [chunkedHeaders]
  split
  · rename_i hmajor
    have hconn : isEqual (text "Connection") (text "Transfer-Encoding") = false := by decide
    have hte : isEqual (text "Transfer-Encoding") (text "Transfer-Encoding") = true := by
      decide
    have hfound : getHeader (setHeader (text "Connection") (text "keep-alive")
        (setHeader (text "Transfer-Encoding") (text "chunked") res.headers)) "Transfer-Encoding" =
        some (text "chunked") := by
      rw [getHeader_setHeader, hconn, if_neg Bool.false_ne_true, getHeader_setHeader, if_pos hte]
    show isChunked (setHeader _ _ (setHeader _ _ res.headers)) = _
    rw [isChunked, hfound, decide_eq_true hmajor]
    decide
  · rename_i hmajor
    have hnone := isChunked_neutral h.neutral []
    rw [addedLength, if_pos (.inr rfl), append_nil] at hnone
    rw [hnone, decide_eq_false hmajor]

/-- What the parser makes of a head and the bytes behind it. -/
theorem oneResponse_head (h : HeadReady res) {tail : Bytes} :
    OneResponse (serializeHeadersOnly res ++ tail) body ↔
      ∃ raw, extractBody (serializeHeadersOnly res ++ tail) (serializeHeadersOnly res).length
          res.headers false = some (.success raw (serializeHeadersOnly res ++ tail).length) ∧
        (if isChunked res.headers then dechunk raw else some raw) = some body := by
  have hempty : Serializable { res with body := [] } := 
    { h.serializable with body := Nat.two_pow_pos 64 }
  obtain ⟨next, cursor, hfind, hat, -, hend⟩ := head_written hempty h.kept tail
  have hadded : res.headers ++ addedLength res.headers [] = res.headers := by
    rw [addedLength, if_pos (.inr rfl), append_nil]
  have hwire : HttpResponse.serializeTo { res with body := [] } = serializeHeadersOnly res := rfl
  dsimp only at hat hend
  rw [hwire] at hfind hat hend
  rw [hadded] at hat
  rw [length_nil, Nat.add_zero] at hend
  subst hend
  have hline := parseStatusLine_written hempty
  constructor
  · rintro ⟨m, hparse, hbody⟩
    obtain ⟨sl, next', cursor', hfind', hline', hat', hbody'⟩ := parseResponse_eq_success.mp hparse
    obtain ⟨rfl, rfl⟩ := Prod.mk.inj (Option.some.inj (hfind.symm.trans hfind'))
    obtain ⟨hheaders, rfl⟩ := hat.unique hat'
    have hcode : res.statusCode = m.statusCode :=
      (Prod.mk.inj (Prod.mk.inj (Option.some.inj (hline.symm.trans hline'))).2).1
    rw [← hheaders, ← hcode, responseBody_of_body h.status] at hbody'
    rw [← hheaders] at hbody
    exact ⟨m.body, hbody', hbody⟩
  · rintro ⟨raw, hraw, hbody⟩
    refine ⟨{ res.message with body := raw }, parseResponse_eq_success.mpr
      ⟨_, _, _, hfind, hline, hat, ?_⟩, hbody⟩
    exact (responseBody_of_body h.status).trans hraw

section Wire

variable {tail : Bytes} (h : Ready res)
include h

/-- A stream of another version ends where the bytes end. -/
theorem oneResponse_raw (hmajor : ¬ res.versionMajor < 2) :
    OneResponse (streamHead res ++ tail) body ↔ tail = body := by
  have hsame : chunkedHeaders res = res := if_neg hmajor
  have hplain : isChunked (chunkedHeaders res).headers = false := by
    rw [isChunked_chunkedHeaders h, decide_eq_false hmajor]
  have hextract : extractBody (streamHead res ++ tail) (streamHead res).length
      (res.headers ++ addedLength res.headers []) false = _ :=
    extractBody_open h.neutral drop_left
  rw [addedLength, if_pos (.inr rfl), append_nil, ← length_append] at hextract
  refine (oneResponse_head h.chunkedHeaders).trans ?_
  rw [hplain, hsame]
  rw [streamHead, hsame] at hextract
  constructor
  · rintro ⟨raw, hraw, hbody⟩
    obtain ⟨rfl, -⟩ := Outcome.success.inj (Option.some.inj (hextract.symm.trans hraw))
    exact Option.some.inj hbody
  · rintro rfl
    exact ⟨tail, hextract, rfl⟩

variable (hsize : (streamHead res ++ tail).length < 2 ^ 64)
include hsize

/-- With its terminal chunk and nothing behind it, a stream is one response. -/
theorem oneResponse_ended (hmajor : res.versionMajor < 2) (hchunks : ∀ d ∈ chunks, d ≠ [])
    (htail : tail = chunks.flatMap formatChunk ++ formatTerminalChunk ++ rest) :
    OneResponse (streamHead res ++ tail) body ↔ rest = [] ∧ chunks.flatten = body := by
  have hchunked : isChunked (chunkedHeaders res).headers = true := by
    rw [isChunked_chunkedHeaders h, decide_eq_true hmajor]
  have hextract := extractChunkedBody_ended hsize hchunks
    (drop_left.trans htail)
  have hlength : (streamHead res ++ tail).length = (streamHead res).length +
      (chunks.flatMap formatChunk ++ formatTerminalChunk).length + rest.length := by
    rw [htail, length_append, length_append, Nat.add_assoc]
  have hdechunk := dechunk_written hchunks (by omega)
  refine (oneResponse_head h.chunkedHeaders).trans ?_
  rw [hchunked, extractBody_chunked hchunked]
  constructor
  · rintro ⟨raw, hraw, hbody⟩
    obtain ⟨rfl, hend⟩ := Outcome.success.inj (Option.some.inj (hextract.symm.trans hraw))
    rw [if_pos rfl, hdechunk] at hbody
    refine ⟨eq_nil_of_length_eq_zero ?_, Option.some.inj hbody⟩
    change _ = (streamHead res ++ tail).length at hend
    omega
  · rintro ⟨rfl, rfl⟩
    refine ⟨_, hextract.trans ?_, hdechunk⟩
    change _ = some (Outcome.success _ (streamHead res ++ tail).length)
    rw [hlength, length_nil, Nat.add_zero]

/-- Without its terminal chunk it is not. -/
theorem oneResponse_open (hmajor : res.versionMajor < 2) (hchunks : ∀ d ∈ chunks, d ≠ [])
    (htail : tail = chunks.flatMap formatChunk) : ¬ OneResponse (streamHead res ++ tail) body := by
  have hchunked : isChunked (chunkedHeaders res).headers = true := by
    rw [isChunked_chunkedHeaders h, decide_eq_true hmajor]
  intro hone
  obtain ⟨raw, hraw, -⟩ := (oneResponse_head h.chunkedHeaders).mp hone
  rw [extractBody_chunked hchunked] at hraw
  have hle : (streamHead res).length ≤ (streamHead res ++ tail).length := by
    rw [length_append]
    exact Nat.le_add_right _ _
  exact extractChunkedBody_open hsize hchunks hle (drop_left.trans htail) hraw

end Wire

theorem Ready.plain (h : Ready res) (cfg : Settings) (isSent : Bool)
    (hbody : body.length < 2 ^ 64) : Ready (prepareResponse cfg { res with body, isSent }) :=
  prepareResponse_induct (fun _ _ _ hsend hneutral hr => hr.set hsend hneutral)
    ⟨{ h.serializable with body := hbody }, h.neutral, h.kept, h.status⟩

/-- A response that is not streamed is one response. -/
theorem oneResponse_plain (h : Ready res) : OneResponse res.serializeTo res.body := by
  obtain ⟨m, hparse, -, hheaders, hbody⟩ :=
    selfDelimiting_of_kept (r := []) h.serializable h.neutral h.status (.inr rfl) h.kept
  rw [append_nil] at hparse
  refine ⟨m, hparse, ?_⟩
  rw [hheaders, isChunked_neutral h.neutral, if_neg Bool.false_ne_true, hbody]

theorem body_le_serializeTo (res : HttpResponse) : res.body.length ≤ res.serializeTo.length := by
  rw [HttpResponse.serializeTo, serializeInto, serializeRest]
  simp only [length_append]
  have hsame : res.message.body = res.body := rfl
  rw [hsame]
  omega

theorem prepareResponse_body : (prepareResponse cfg res).body = res.body :=
  prepareResponse_induct (P := fun r => r.body = res.body) (fun _ _ _ _ _ h => h) rfl

/-- The chunks in front of the end are what is expected of a stream. -/
theorem EndsAt.expectedBody (h : EndsAt ops pre post) (hplain : ¬ Plain ops) :
    expectedBody ops = (chunksOf pre).flatten := by
  have hno : ∀ op ∈ pre, decide (op ≠ .finish) = true := by
    intro op hop
    refine decide_eq_true fun hfinish => ?_
    have hstreams := h.2 op hop
    rw [hfinish] at hstreams
    cases hstreams
  rw [Http1Streaming.expectedBody, if_neg hplain, h.1, takeWhile_append_of_pos hno,
    chunksOf_flatten]
  show (pre ++ []).flatMap Op.data = _
  rw [append_nil]

theorem expectedBody_le (hplain : ¬ Plain ops) :
    (expectedBody ops).length ≤ (ops.flatMap Op.data).length := by
  rw [expectedBody, if_neg hplain]
  exact (List.takeWhile_prefix _).flatMap _ |>.length_le

/-- **Streamed HTTP/1 responses.**  What is on the wire for a request is one complete
    response with the body that is expected exactly when the response is not streamed, or
    the stream is ended in front of anything that is sent and nothing is written behind its
    end; for another version than HTTP/1, exactly when nothing is written at all. -/
theorem streamed_response_iff (hready : Ready res) (hsent : res.isSent = false)
    (hfresh : res.isHeadersSent = false) (hempty : res.body = [])
    (hsize : (streamed cfg res ops).length < 2 ^ 64) :
    OneResponse (streamed cfg res ops) (expectedBody ops) ↔
      Plain ops ∨ res.versionMajor < 2 ∧ Ended ops ∨ 2 ≤ res.versionMajor ∧ Silent ops := by
  obtain ⟨hplain, isSent, hwire⟩ | ⟨hplain, ⟨pre, post, hends, hwire⟩ | ⟨hnever, hwire⟩⟩ :=
    streamed_cases cfg ops hsent hfresh hempty
  · refine iff_of_true ?_ (.inl hplain)
    rw [hwire] at hsize ⊢
    have hbound := Nat.lt_of_le_of_lt (body_le_serializeTo _) hsize
    rw [prepareResponse_body] at hbound
    have hone := oneResponse_plain (hready.plain cfg isSent hbound)
    rw [prepareResponse_body] at hone
    exact hone
  · rw [hwire] at hsize ⊢
    have hexpected := hends.expectedBody hplain
    -- only an HTTP/1 response is in chunks
    by_cases hmajor : res.versionMajor < 2
    · rw [oneResponse_ended hready hsize hmajor chunksOf_ne_nil rfl, hexpected, chunkBytes_eq_nil,
        ← hends.ended_iff]
      constructor
      · rintro ⟨hended, -⟩
        exact .inr (.inl ⟨hmajor, hended⟩)
      · rintro (hno | ⟨-, hended⟩ | ⟨hother, -⟩)
        · exact absurd hno hplain
        · exact ⟨hended, rfl⟩
        · omega
    · rw [oneResponse_raw hready hmajor]
      refine iff_of_false ?_ ?_
      · -- the terminal chunk alone makes the bytes more than the chunks
        intro hsame
        have hlength := congrArg List.length hsame
        have hfive : formatTerminalChunk.length = 5 := by decide
        rw [hexpected, chunksOf_flatten] at hlength
        simp only [length_append, hfive] at hlength
        by_cases hnone : chunksOf pre = []
        · rw [← chunksOf_flatten, hnone, flatten_nil, length_nil] at hlength
          omega
        · have hmore := chunkBytes_length hnone
          omega
      · rintro (hno | ⟨hother, -⟩ | ⟨-, hsilent⟩)
        · exact hplain hno
        · exact hmajor hother
        · obtain ⟨op, hop, hquiet⟩ := hsilent.2 pre post hends.1
          rw [hends.2 op hop] at hquiet
          cases hquiet
  · rw [hwire] at hsize ⊢
    by_cases hmajor : res.versionMajor < 2
    · refine iff_of_false (oneResponse_open hready hsize hmajor chunksOf_ne_nil rfl) ?_
      rintro (hno | ⟨-, pre, post, hops, hpre, -⟩ | ⟨hother, -⟩)
      · exact hplain hno
      · exact hnever pre post ⟨hops, hpre⟩
      · omega
    · rw [oneResponse_raw hready hmajor]
      have hle := expectedBody_le hplain
      constructor
      · intro hsame
        have hnone : chunksOf ops = [] := by
          by_contra hne
          have hmore := chunkBytes_length hne
          rw [hsame] at hmore
          omega
        refine .inr (.inr ⟨by omega, chunksOf_eq_nil.mp hnone, fun pre post hops => ?_⟩)
        by_contra hall
        refine hnever pre post ⟨hops, fun op hop => ?_⟩
        exact eq_true_of_ne_false fun hquiet => hall ⟨op, hop, hquiet⟩
      · rintro (hno | ⟨hother, -⟩ | ⟨-, hsilent⟩)
        · exact absurd hno hplain
        · exact absurd hother hmajor
        · have hnone := chunksOf_eq_nil.mpr hsilent.1
          rw [← chunksOf_flatten, hnone] at hle
          rw [chunkBytes, hnone]
          exact (eq_nil_of_length_eq_zero (Nat.le_zero.mp hle)).symm

/-- The settings of a connection that stays open. -/
def keepOpen : Settings := { keep := true, timeoutSec := 5, remaining := 1000, altSvcPort := 0 }

theorem initial_ready : Ready {} := ⟨initial_serializable, nofun, nofun, by decide⟩

/-- A stream of two chunks that is ended twice. -/
def twoChunks : List Op :=
  [.start, .write (text "hi"), .write [], .write (text " there"), .finish, .finish]

theorem streamed_response_twoChunks :
    OneResponse (streamed keepOpen {} twoChunks) (text "hi there") := by
  have hended : Ended twoChunks :=
    ⟨[.start, .write (text "hi"), .write [], .write (text " there")], [.finish], rfl,
      by decide, by decide⟩
  have hexpected : expectedBody twoChunks = text "hi there" := by decide
  rw [← hexpected]
  exact (streamed_response_iff initial_ready rfl rfl rfl (by decide)).mpr
    (.inr (.inl ⟨by decide, hended⟩))

/-- A chunk that is written behind the end follows the response on the wire. -/
theorem chunk_behind_end :
    streamed keepOpen {} [.write (text "hi"), .finish, .write (text "x")] =
        text "HTTP/1.1 200 OK\r\nTransfer-Encoding: chunked\r\nConnection: keep-alive\r\n\r\n" ++
          text "2\r\nhi\r\n0\r\n\r\n1\r\nx\r\n" ∧
      ¬ OneResponse (streamed keepOpen {} [.write (text "hi"), .finish, .write (text "x")])
        (expectedBody [.write (text "hi"), .finish, .write (text "x")]) := by
  refine ⟨by decide, ?_⟩
  rintro ⟨m, hparse, -⟩
  have hreal : ∃ n, n < (streamed keepOpen {} [.write (text "hi"), .finish, .write (text "x")]).length ∧
      ∃ m', parseResponse (streamed keepOpen {} [.write (text "hi"), .finish, .write (text "x")]) =
        some (.success m' n) := by
    refine ⟨83, by decide, { headers := [(text "Transfer-Encoding", text "chunked"),
      (text "Connection", text "keep-alive")], body := text "2\r\nhi\r\n0\r\n\r\n" }, ?_⟩
    decide
  obtain ⟨n, hn, m', hm'⟩ := hreal
  obtain ⟨-, hsame⟩ := Outcome.success.inj (Option.some.inj (hparse.symm.trans hm'))
  omega

end Http1Streaming
