import Mathlib.Data.List.DropRight
import WaveX.HttpText

/-! # The HTTP/1 codec

    The parser, the encoder and the de-chunker of
    `include/wavex/protos/http/http1codec.hpp`.  The parser starts from scratch on every
    buffer.  It works with cursors into the buffer, and the cursor behind a chunk is a sum
    in 64 bits that may wrap around; the loops over chunks may then go on for ever, which
    is `none` here.

    What a parser leaves in the message without success is not read by anyone, so only
    `success` carries a message. -/

namespace Http1Codec

open QuicVarInt HttpText List

/-! ## Characters -/

def lf : UInt8 := 0x0a

def cr : UInt8 := 0x0d

def space : UInt8 := 0x20

def colon : UInt8 := 0x3a

def semicolon : UInt8 := 0x3b

def crlf : Bytes := [cr, lf]

/-- A space or a horizontal tab. -/
def isOws (c : UInt8) : Bool := c == space || c == 0x09

/-- `strip_ows`. -/
def stripOws (s : Bytes) : Bytes := (s.dropWhile isOws).rdropWhile isOws

/-- A line without the CR before its LF. -/
def stripCr (line : Bytes) : Bytes :=
  if line.getLast? = some cr then line.dropLast else line

/-- A version number from its character, which is signed. -/
def versionOf (c : UInt8) : Int := c.toInt8.toInt - 0x30

/-- The character of a version number. -/
def versionChar (v : Int) : UInt8 := UInt8.ofNat ((0x30 + v) % 256).toNat

/-! ## Messages -/

/-- `header`. -/
abbrev Header := Bytes × Bytes

/-- `request`. -/
structure Request where
  method : Method
  target : Bytes
  versionMajor : Int := 1
  versionMinor : Int := 1
  headers : List Header := []
  body : Bytes := []
  deriving DecidableEq, Repr

/-- `response`. -/
structure Response where
  statusCode : Nat := 200
  statusText : Bytes := text "OK"
  versionMajor : Int := 1
  versionMinor : Int := 1
  headers : List Header := []
  body : Bytes := []
  deriving DecidableEq, Repr

/-- `get_header`. -/
def getHeader (headers : List Header) (name : String) : Option Bytes :=
  (headers.find? fun h => isEqual h.1 (text name)).map Prod.snd

/-- `parser::result`, with what comes with a success: the message and `bytes_consumed`. -/
inductive Outcome (α : Type) where
  | success (message : α) (bytesConsumed : Nat)
  | incomplete
  | error
  deriving DecidableEq, Repr

def Outcome.map {α β : Type} (f : α → β) : Outcome α → Outcome β
  | .success m n => .success (f m) n
  | .incomplete => .incomplete
  | .error => .error

/-! ## Lines and headers -/

/-- `find_next_line`: the line at the cursor and where the next one starts. -/
def findNextLine (buffer : Bytes) (cursor : Nat) : Option (Bytes × Nat) :=
  (splitFirst lf (buffer.drop cursor)).map fun p => (stripCr p.1, cursor + p.1.length + 1)

/-- A header line: `none` without a colon. -/
def parseField (line : Bytes) : Option Header :=
  (splitFirst colon line).map fun p => (p.1, stripOws p.2)

/-- The loop of `parse_headers`, with its rounds counted down: the headers and the cursor
    behind them.  Every round takes a line, so the length of the buffer is enough. -/
def headerLoop (buffer : Bytes) : Nat → Nat → List Header → Outcome (List Header)
  | 0, _, _ => .incomplete
  | fuel + 1, cursor, headers =>
      match findNextLine buffer cursor with
      | none => .incomplete
      | some ([], next) => .success headers next
      | some (line, next) =>
          match parseField line with
          | none => .error
          | some h => headerLoop buffer fuel next (headers ++ [h])

/-- `parse_headers`. -/
def parseHeaders (buffer : Bytes) (cursor : Nat) : Outcome (List Header) :=
  headerLoop buffer buffer.length cursor []

/-! ## Chunked bodies -/

/-- What a round of the loops over chunks finds at the cursor.  `extract_chunked_body` and
    `dechunk` look at it in the same way. -/
inductive ChunkTurn where
  /-- No line break follows. -/
  | unterminated
  /-- A line without a size is skipped. -/
  | blank (next : Nat)
  /-- The size is not a number of 64 bits. -/
  | invalid
  /-- The size is zero. -/
  | last (next : Nat)
  /-- The buffer ends before the chunk. -/
  | beyond (next : Nat)
  /-- A chunk, and the cursor behind it. -/
  | chunk (data : Bytes) (next : Nat)
  deriving DecidableEq, Repr

/-- The text of the size in a chunk-size line: an extension is cut off. -/
def sizeText (line : Bytes) : Bytes := stripOws (line.takeWhile (· != semicolon))

/-- The line break behind a chunk, as far as it is there. -/
def skipLineBreak (buffer : Bytes) (cursor : Nat) : Nat :=
  let cursor := if buffer[cursor]? = some cr then cursor + 1 else cursor
  if buffer[cursor]? = some lf then cursor + 1 else cursor

/-- `cursor + chunk_size` in 64 bits. -/
def chunkEnd (next size : Nat) : Nat := (next + size) % 2 ^ 64

/-- One round of the loops over chunks. -/
def chunkTurn (buffer : Bytes) (cursor : Nat) : ChunkTurn :=
  match findNextLine buffer cursor with
  | none => .unterminated
  | some (line, next) =>
      if sizeText line = [] then .blank next
      else
        match fromCharsHex (sizeText line) with
        | none => .invalid
        | some (size, _) =>
            if size = 0 then .last next
            else if chunkEnd next size > buffer.length then .beyond next
            else
              .chunk ((buffer.drop next).take size)
                (skipLineBreak buffer (chunkEnd next size))

/-- The line behind the last chunk, if it is there. -/
def afterLast (buffer : Bytes) (cursor : Nat) : Nat :=
  ((findNextLine buffer cursor).map Prod.snd).getD cursor

/-- The loop of `extract_chunked_body`: the cursor at its end. -/
def chunkLoop (buffer : Bytes) : Nat → Nat → Option (Outcome Unit)
  | 0, _ => none
  | fuel + 1, cursor =>
      if cursor < buffer.length then
        match chunkTurn buffer cursor with
        | .unterminated | .beyond _ => some .incomplete
        | .invalid => some .error
        | .last next => some (.success () (afterLast buffer next))
        | .blank next | .chunk _ next => chunkLoop buffer fuel next
      else some .incomplete

/-- `extract_chunked_body`: the body is the raw text of the chunks.  The cursor takes
    fewer values than the rounds allowed, so a loop that has not ended never does. -/
def extractChunkedBody (buffer : Bytes) (bodyStart : Nat) : Option (Outcome Bytes) :=
  (chunkLoop buffer (buffer.length + 1) bodyStart).map fun
    | .success _ cursor =>
        .success ((buffer.drop bodyStart).take ((cursor + 2 ^ 64 - bodyStart) % 2 ^ 64)) cursor
    | .incomplete => .incomplete
    | .error => .error

/-- The loop of `dechunk`. -/
def dechunkLoop (buffer : Bytes) : Nat → Nat → Bytes → Option Bytes
  | 0, _, _ => none
  | fuel + 1, cursor, unchunked =>
      if cursor < buffer.length then
        match chunkTurn buffer cursor with
        | .unterminated | .invalid => some (unchunked ++ buffer.drop cursor)
        | .last _ => some unchunked
        | .beyond next => some (unchunked ++ buffer.drop next)
        | .blank next => dechunkLoop buffer fuel next unchunked
        | .chunk data next => dechunkLoop buffer fuel next (unchunked ++ data)
      else some unchunked

/-- `dechunk`. -/
def dechunk (chunkedRaw : Bytes) : Option Bytes :=
  dechunkLoop chunkedRaw (chunkedRaw.length + 1) 0 []

/-! ## Bodies -/

/-- The body is in chunks: the first `Transfer-Encoding` has "chunked" somewhere in it. -/
def isChunked (headers : List Header) : Bool :=
  match getHeader headers "Transfer-Encoding" with
  | some te => (findText (text "chunked") te).isSome
  | none => false

/-- The length of a body that is not in chunks: `none` when it is not a number. -/
def contentLength (headers : List Header) (rest : Nat) (isRequest : Bool) : Option Nat :=
  match getHeader headers "Content-Length" with
  | some cl => (fromChars cl).map Prod.fst
  | none => some (if isRequest then 0 else rest)

/-- `extract_body`; its one pass over the headers finds the first of each name. -/
def extractBody (buffer : Bytes) (cursor : Nat) (headers : List Header) (isRequest : Bool) :
    Option (Outcome Bytes) :=
  if isChunked headers then extractChunkedBody buffer cursor
  else
    match contentLength headers (buffer.length - cursor) isRequest with
    | none => some .error
    | some n =>
        if buffer.length - cursor < n then some .incomplete
        else some (.success ((buffer.drop cursor).take n) (cursor + n))

/-! ## Requests -/

/-- The version at the start of a text: "HTTP/X.Y". -/
def parseVersion (ver : Bytes) : Option (Int × Int) :=
  if (text "HTTP/").isPrefixOf ver then
    match ver.drop 5 with
    | major :: _ :: minor :: _ => some (versionOf major, versionOf minor)
    | _ => none
  else none

/-- The request line: method, target and version. -/
def parseRequestLine (rl : Bytes) : Option (Method × Bytes × Int × Int) := do
  let (method, rest) ← splitFirst space rl
  let (target, ver) ← splitFirst space rest
  let (major, minor) ← parseVersion ver
  some (.ofName method, target, major, minor)

/-- `parse_request`. -/
def parseRequest (buffer : Bytes) : Option (Outcome Request) :=
  match findNextLine buffer 0 with
  | none => some .incomplete
  | some (rl, next) =>
      match parseRequestLine rl with
      | none => some .error
      | some (method, target, versionMajor, versionMinor) =>
          match parseHeaders buffer next with
          | .incomplete => some .incomplete
          | .error => some .error
          | .success headers cursor =>
              (extractBody buffer cursor headers true).map (Outcome.map fun body =>
                { method, target, versionMajor, versionMinor, headers, body })

/-! ## Responses -/

/-- `std::from_chars` into a 32-bit unsigned number. -/
def parseCode (s : Bytes) : Option Nat :=
  match fromChars s with
  | some (code, _) => if code < 2 ^ 32 then some code else none
  | none => none

/-- The status line: version, code and text; the text stays "OK" where there is none. -/
def parseStatusLine (sl : Bytes) : Option ((Int × Int) × Nat × Bytes) :=
  if sl.length < 12 then none
  else do
    let version ← parseVersion sl
    let (_, rest) ← splitFirst space sl
    match splitFirst space rest with
    | some (code, statusText) => some (version, ← parseCode code, statusText)
    | none => some (version, ← parseCode rest, text "OK")

/-- A status whose response has no body. -/
def isBodiless (statusCode : Nat) : Bool :=
  decide (100 ≤ statusCode ∧ statusCode < 200 ∨ statusCode = 204 ∨ statusCode = 304)

/-- `parse_response`. -/
def parseResponse (buffer : Bytes) : Option (Outcome Response) :=
  match findNextLine buffer 0 with
  | none => some .incomplete
  | some (sl, next) =>
      match parseStatusLine sl with
      | none => some .error
      | some ((versionMajor, versionMinor), statusCode, statusText) =>
          match parseHeaders buffer next with
          | .incomplete => some .incomplete
          | .error => some .error
          | .success headers cursor =>
              let filled := fun body =>
                { statusCode, statusText, versionMajor, versionMinor, headers, body : Response }
              if isBodiless statusCode then some (.success (filled []) cursor)
              else (extractBody buffer cursor headers false).map (Outcome.map filled)

/-! ## The encoder -/

/-- "HTTP/X.Y". -/
def versionText (major minor : Int) : Bytes :=
  text "HTTP/" ++ [versionChar major] ++ text "." ++ [versionChar minor]

def fieldLine (h : Header) : Bytes := h.1 ++ text ": " ++ h.2 ++ crlf

/-- The header that the encoder adds for a body. -/
def addedLength (headers : List Header) (body : Bytes) : List Header :=
  if (headers.any fun h => isEqual h.1 (text "Content-Length")) ∨ body = [] then []
  else [(text "Content-Length", decimal body.length)]

/-- The headers on the wire, the blank line and the body. -/
def serializeRest (headers : List Header) (body : Bytes) : Bytes :=
  (headers ++ addedLength headers body).flatMap fieldLine ++ crlf ++ body

/-- `serialize_into` of a response. -/
def serializeInto (res : Response) : Bytes :=
  versionText res.versionMajor res.versionMinor ++ [space] ++ decimal res.statusCode ++ [space] ++
    res.statusText ++ crlf ++ serializeRest res.headers res.body

/-- `serialize_request`. -/
def serializeRequest (req : Request) : Bytes :=
  req.method.name ++ [space] ++ req.target ++ [space] ++
    versionText req.versionMajor req.versionMinor ++ crlf ++ serializeRest req.headers req.body

/-- `format_terminal_chunk`. -/
def formatTerminalChunk : Bytes := text "0\r\n\r\n"

/-- `format_chunk`. -/
def formatChunk (data : Bytes) : Bytes :=
  if data = [] then formatTerminalChunk
  else hexadecimal data.length ++ crlf ++ data ++ crlf

/-- `format_chunk_to`: what `out` becomes. -/
def formatChunkTo (out data : Bytes) : Bytes :=
  if data = [] then out ++ formatTerminalChunk
  else out ++ hexadecimal data.length ++ crlf ++ data ++ crlf

/-! ## Lines -/

variable {buffer p q line : Bytes} {c next stop n : Nat} {headers : List Header}

/-- A line ends in front of the first line feed; a carriage return there is cut off. -/
theorem findNextLine_eq_some :
    findNextLine buffer c = some (line, next) ↔
      ∃ raw rest, buffer.drop c = raw ++ lf :: rest ∧ lf ∉ raw ∧ line = stripCr raw ∧
        next = c + raw.length + 1 := by
  rw [findNextLine, Option.map_eq_some_iff]
  constructor
  · rintro ⟨⟨raw, rest⟩, hsplit, hline⟩
    obtain ⟨hdrop, hraw⟩ := splitFirst_eq_some.mp hsplit
    obtain ⟨rfl, rfl⟩ := Prod.mk.inj hline
    exact ⟨raw, rest, hdrop, hraw, rfl, rfl⟩
  · rintro ⟨raw, rest, hdrop, hraw, rfl, rfl⟩
    exact ⟨(raw, rest), splitFirst_eq_some.mpr ⟨hdrop, hraw⟩, rfl⟩

/-- Without a line feed there is no line. -/
theorem findNextLine_eq_none : findNextLine buffer c = none ↔ lf ∉ buffer.drop c := by
  rw [findNextLine, Option.map_eq_none_iff, splitFirst_eq_none]

/-- The next line starts behind this one and within the buffer. -/
theorem findNextLine_bounds (h : findNextLine buffer c = some (line, next)) :
    c < next ∧ next ≤ buffer.length := by
  obtain ⟨raw, rest, hdrop, -, -, rfl⟩ := findNextLine_eq_some.mp h
  have hlength := congrArg List.length hdrop
  rw [length_drop, length_append, length_cons] at hlength
  omega

/-- A line that is there stays as it is when more bytes arrive. -/
theorem findNextLine_append (h : findNextLine p c = some (line, next)) (q : Bytes) :
    findNextLine (p ++ q) c = some (line, next) := by
  have hle : c ≤ p.length := by
    obtain ⟨hlt, hle⟩ := findNextLine_bounds h
    omega
  obtain ⟨raw, rest, hdrop, hraw, hline, hnext⟩ := findNextLine_eq_some.mp h
  refine findNextLine_eq_some.mpr ⟨raw, rest ++ q, ?_, hraw, hline, hnext⟩
  rw [drop_append_of_le_length hle, hdrop, append_assoc, cons_append]

theorem stripCr_concat (line : Bytes) : stripCr (line ++ [cr]) = line := by
  rw [stripCr, getLast?_append, dropLast_concat]
  rfl

/-- A line that was written with CR LF. -/
theorem findNextLine_crlf {rest : Bytes} (hdrop : buffer.drop c = line ++ crlf ++ rest)
    (hline : lf ∉ line) :
    findNextLine buffer c = some (line, c + (line ++ crlf).length) := by
  refine findNextLine_eq_some.mpr ⟨line ++ [cr], rest, ?_, ?_, (stripCr_concat line).symm, ?_⟩
  · rw [hdrop, crlf, append_assoc, append_assoc]
    rfl
  · intro hmem
    obtain hmem | hmem := mem_append.mp hmem
    · exact hline hmem
    · exact absurd (mem_singleton.mp hmem) (by decide)
  · rw [length_append, length_append]
    rfl

/-! ## Headers -/

/-- From the cursor on, the buffer holds these headers and a blank line. -/
inductive HeadersAt (buffer : Bytes) : Nat → List Header → Nat → Prop where
  | blank {c next : Nat} (h : findNextLine buffer c = some ([], next)) : HeadersAt buffer c [] next
  | field {c next stop : Nat} {line : Bytes} {field : Header} {headers : List Header}
      (h : findNextLine buffer c = some (line, next)) (hline : line ≠ [])
      (hfield : parseField line = some field) (hrest : HeadersAt buffer next headers stop) :
      HeadersAt buffer c (field :: headers) stop

/-- What the loop returns stands in the buffer. -/
theorem headerLoop_success {fuel : Nat} {before : List Header}
    (h : headerLoop buffer fuel c before = .success headers stop) :
    ∃ new, headers = before ++ new ∧ HeadersAt buffer c new stop := by
  induction fuel generalizing c before with
  | zero => cases h
  | succ fuel ih =>
    rw [headerLoop] at h
    split at h
    · cases h
    · rename_i next hline
      cases h
      exact ⟨[], (append_nil _).symm, .blank hline⟩
    · rename_i line next hline hfind
      split at h
      · cases h
      · rename_i field hfield
        obtain ⟨new, rfl, hnew⟩ := ih h
        refine ⟨field :: new, append_cons .. |>.symm, .field hfind ?_ hfield hnew⟩
        rintro rfl
        exact hline rfl

/-- What stands in the buffer is what the loop returns. -/
theorem HeadersAt.headerLoop (h : HeadersAt buffer c headers stop) {fuel : Nat}
    (hfuel : buffer.length - c ≤ fuel) (before : List Header) :
    headerLoop buffer fuel c before = .success (before ++ headers) stop := by
  induction h generalizing fuel before with
  | blank h =>
    obtain ⟨hlt, hle⟩ := findNextLine_bounds h
    obtain ⟨fuel, rfl⟩ := Nat.exists_eq_succ_of_ne_zero (show fuel ≠ 0 by omega)
    rw [Http1Codec.headerLoop, h, append_nil]
  | @field c next stop line field headers h hline hfield _ ih =>
    obtain ⟨hlt, hle⟩ := findNextLine_bounds h
    obtain ⟨fuel, rfl⟩ := Nat.exists_eq_succ_of_ne_zero (show fuel ≠ 0 by omega)
    obtain ⟨b, line, rfl⟩ := exists_cons_of_ne_nil hline
    rw [Http1Codec.headerLoop, h]
    dsimp only
    rw [hfield]
    dsimp only
    rw [ih (by omega), ← append_cons]

/-- Header lines are parsed exactly when they stand there. -/
theorem parseHeaders_eq_success :
    parseHeaders buffer c = .success headers stop ↔ HeadersAt buffer c headers stop := by
  constructor
  · intro h
    obtain ⟨new, hnew, hat⟩ := headerLoop_success h
    rw [nil_append] at hnew
    rw [hnew]
    exact hat
  · intro h
    exact h.headerLoop (Nat.sub_le _ _) []

/-- There is one way to read them. -/
theorem HeadersAt.unique {headers' : List Header} {stop' : Nat}
    (h : HeadersAt buffer c headers stop) (h' : HeadersAt buffer c headers' stop') :
    headers = headers' ∧ stop = stop' :=
  Outcome.success.inj
    ((parseHeaders_eq_success.mpr h).symm.trans (parseHeaders_eq_success.mpr h'))

/-- Bytes behind the header section do not matter. -/
theorem HeadersAt.append (h : HeadersAt p c headers stop) (q : Bytes) :
    HeadersAt (p ++ q) c headers stop := by
  induction h with
  | blank h => exact .blank (findNextLine_append h q)
  | field h hline hfield _ ih => exact .field (findNextLine_append h q) hline hfield ih

theorem HeadersAt.bounds (h : HeadersAt buffer c headers stop) : c < stop ∧ stop ≤ buffer.length := by
  induction h with
  | blank h => exact findNextLine_bounds h
  | field h _ _ _ ih =>
    obtain ⟨hlt, -⟩ := findNextLine_bounds h
    exact ⟨by omega, ih.2⟩

theorem getHeader_cons (h : Header) (headers : List Header) (name : String) :
    getHeader (h :: headers) name =
      if isEqual h.1 (text name) then some h.2 else getHeader headers name := by
  rw [getHeader, find?_cons]
  cases isEqual h.1 (text name) with
  | true => rfl
  | false => rfl

/-! ## Messages that are accepted -/

theorem Outcome.map_eq_success {α β : Type} {f : α → β} {o : Outcome α} {m : β} :
    o.map f = .success m n ↔ ∃ a, o = .success a n ∧ f a = m := by
  cases o with
  | success a k =>
    rw [Outcome.map, Outcome.success.injEq]
    constructor
    · rintro ⟨hm, rfl⟩
      exact ⟨a, rfl, hm⟩
    · rintro ⟨a', ho, hm⟩
      obtain ⟨rfl, rfl⟩ := Outcome.success.inj ho
      exact ⟨hm, rfl⟩
  | incomplete => exact iff_of_false nofun fun ⟨_, ho, _⟩ => nomatch ho
  | error => exact iff_of_false nofun fun ⟨_, ho, _⟩ => nomatch ho

/-- A request is a request line and the headers behind it. -/
theorem parseRequest_eq_success {req : Request} :
    parseRequest buffer = some (.success req n) ↔
      ∃ rl next cursor, findNextLine buffer 0 = some (rl, next) ∧
        parseRequestLine rl =
          some (req.method, req.target, req.versionMajor, req.versionMinor) ∧
        HeadersAt buffer next req.headers cursor ∧
        extractBody buffer cursor req.headers true = some (.success req.body n) := by
  constructor
  · intro h
    rw [parseRequest] at h
    split at h
    · cases h
    · rename_i rl next hfind
      split at h
      · cases h
      · rename_i method target major minor hline
        split at h
        · cases h
        · cases h
        · rename_i headers cursor hheaders
          obtain ⟨o, hbody, ho⟩ := Option.map_eq_some_iff.mp h
          obtain ⟨body, rfl, rfl⟩ := Outcome.map_eq_success.mp ho
          exact ⟨rl, next, cursor, hfind, hline, parseHeaders_eq_success.mp hheaders, hbody⟩
  · rintro ⟨rl, next, cursor, hfind, hline, hheaders, hbody⟩
    rw [parseRequest, hfind]
    dsimp only
    rw [hline]
    dsimp only
    rw [parseHeaders_eq_success.mpr hheaders]
    dsimp only
    rw [hbody]
    rfl

/-- The body of a response is empty for some statuses, whatever follows. -/
def responseBody (buffer : Bytes) (cursor : Nat) (headers : List Header) (statusCode : Nat) :
    Option (Outcome Bytes) :=
  if isBodiless statusCode then some (.success [] cursor)
  else extractBody buffer cursor headers false

/-- A response is a status line and the headers behind it. -/
theorem parseResponse_eq_success {res : Response} :
    parseResponse buffer = some (.success res n) ↔
      ∃ sl next cursor, findNextLine buffer 0 = some (sl, next) ∧
        parseStatusLine sl =
          some ((res.versionMajor, res.versionMinor), res.statusCode, res.statusText) ∧
        HeadersAt buffer next res.headers cursor ∧
        responseBody buffer cursor res.headers res.statusCode = some (.success res.body n) := by
  constructor
  · intro h
    rw [parseResponse] at h
    split at h
    · cases h
    · rename_i sl next hfind
      split at h
      · cases h
      · rename_i major minor code status hline
        split at h
        · cases h
        · cases h
        · rename_i headers cursor hheaders
          dsimp only at h
          refine ⟨sl, next, cursor, hfind, ?_⟩
          split at h
          · rename_i hbodiless
            cases h
            exact ⟨hline, parseHeaders_eq_success.mp hheaders, if_pos hbodiless⟩
          · rename_i hbody
            obtain ⟨o, hextract, ho⟩ := Option.map_eq_some_iff.mp h
            obtain ⟨body, rfl, rfl⟩ := Outcome.map_eq_success.mp ho
            exact ⟨hline, parseHeaders_eq_success.mp hheaders, (if_neg hbody).trans hextract⟩
  · rintro ⟨sl, next, cursor, hfind, hline, hheaders, hbody⟩
    rw [parseResponse, hfind]
    dsimp only
    rw [hline]
    dsimp only
    rw [parseHeaders_eq_success.mpr hheaders]
    dsimp only
    rw [responseBody] at hbody
    split
    · rename_i hbodiless
      rw [if_pos hbodiless, Option.some_inj, Outcome.success.injEq] at hbody
      obtain ⟨hbody, rfl⟩ := hbody
      rw [hbody]
    · rename_i hlong
      rw [if_neg hlong] at hbody
      rw [hbody]
      rfl

/-- A body without a length or chunks is all that has arrived. -/
theorem extractBody_untilClose (hplain : isChunked headers = false)
    (hnone : getHeader headers "Content-Length" = none) :
    extractBody buffer c headers false =
      some (.success (buffer.drop c) (c + (buffer.length - c))) := by
  have hlength : contentLength headers (buffer.length - c) false = some (buffer.length - c) := by
    rw [contentLength, hnone]
    rfl
  rw [extractBody, hplain, if_neg Bool.false_ne_true, hlength]
  dsimp only
  rw [if_neg (Nat.lt_irrefl _), ← length_drop, take_length]

/-- The size in a line of hexadecimal digits and an extension. -/
theorem sizeText_digits {digits ext : Bytes} (hdigits : ∀ b ∈ digits, isHexDigit b = true)
    (hext : ext = [] ∨ ext.head? = some semicolon) : sizeText (digits ++ ext) = digits := by
  have hclean : ∀ b, isHexDigit b = true → (b != semicolon) = true ∧ isOws b = false := by
    decide +kernel
  have hstop : ext.takeWhile (· != semicolon) = [] := by
    obtain rfl | hhead := hext
    · rfl
    · obtain ⟨ext, rfl⟩ := head?_eq_some_iff.mp hhead
      rfl
  have htake : (digits ++ ext).takeWhile (· != semicolon) = digits := by
    rw [takeWhile_append_of_pos fun b hb => (hclean b (hdigits b hb)).1, hstop,
      append_nil]
  have hdrop : digits.dropWhile isOws = digits := by
    rw [dropWhile_eq_self_iff]
    intro hpos
    rw [(hclean _ (hdigits _ (getElem_mem hpos))).2]
    decide
  rw [sizeText, htake, stripOws, hdrop, rdropWhile_eq_self_iff]
  intro hne
  rw [(hclean _ (hdigits _ (getLast_mem hne))).2]
  decide

/-! ## Rounds over chunks -/

/-- At the cursor stands a line with this size, and the next line starts behind it. -/
def SizeLine (buffer : Bytes) (c size next : Nat) : Prop :=
  ∃ line digits, findNextLine buffer c = some (line, next) ∧
    fromCharsHex (sizeText line) = some (size, digits)

theorem SizeLine.bounds {size : Nat} (h : SizeLine buffer c size next) :
    c < next ∧ next ≤ buffer.length ∧ size < 2 ^ 64 := by
  obtain ⟨line, digits, hfind, hread⟩ := h
  obtain ⟨hlt, hle⟩ := findNextLine_bounds hfind
  exact ⟨hlt, hle, fromCharsHex_lt hread⟩

/-- What a round makes of a line with a size. -/
theorem SizeLine.chunkTurn {size : Nat} (h : SizeLine buffer c size next) :
    chunkTurn buffer c =
      if size = 0 then .last next
      else if chunkEnd next size > buffer.length then .beyond next
      else .chunk ((buffer.drop next).take size) (skipLineBreak buffer (chunkEnd next size)) := by
  obtain ⟨line, digits, hfind, hread⟩ := h
  have hsized : sizeText line ≠ [] := by
    intro hnil
    rw [hnil] at hread
    cases hread
  rw [Http1Codec.chunkTurn, hfind]
  dsimp only
  rw [if_neg hsized, hread]

/-- A round that finds a size has read it from a line. -/
theorem chunkTurn_cases (buffer : Bytes) (c : Nat) :
    findNextLine buffer c = none ∧ chunkTurn buffer c = .unterminated ∨
      (∃ line next, findNextLine buffer c = some (line, next) ∧
        (sizeText line = [] ∧ chunkTurn buffer c = .blank next ∨
          sizeText line ≠ [] ∧ fromCharsHex (sizeText line) = none ∧
            chunkTurn buffer c = .invalid)) ∨
      ∃ size next, SizeLine buffer c size next := by
  cases hfind : findNextLine buffer c with
  | none => exact .inl ⟨rfl, by rw [chunkTurn, hfind]⟩
  | some p =>
    obtain ⟨line, next⟩ := p
    by_cases hblank : sizeText line = []
    · refine .inr (.inl ⟨line, next, rfl, .inl ⟨hblank, ?_⟩⟩)
      rw [chunkTurn, hfind]
      dsimp only
      rw [if_pos hblank]
    · cases hread : fromCharsHex (sizeText line) with
      | none =>
        refine .inr (.inl ⟨line, next, rfl, .inr ⟨hblank, hread, ?_⟩⟩)
        rw [chunkTurn, hfind]
        dsimp only
        rw [if_neg hblank, hread]
      | some p => exact .inr (.inr ⟨p.1, next, line, p.2, hfind, hread⟩)

/-- The last chunk is a line with the size zero. -/
theorem chunkTurn_eq_last : chunkTurn buffer c = .last next ↔ SizeLine buffer c 0 next := by
  constructor
  · intro h
    obtain ⟨-, hturn⟩ | ⟨line, next', -, ⟨-, hturn⟩ | ⟨-, -, hturn⟩⟩ | ⟨size, next', hline⟩ :=
      chunkTurn_cases buffer c
    · exact nomatch hturn.symm.trans h
    · exact nomatch hturn.symm.trans h
    · exact nomatch hturn.symm.trans h
    · rw [hline.chunkTurn] at h
      split at h
      · rename_i hzero
        cases h
        exact hzero ▸ hline
      · split at h
        · cases h
        · cases h
  · intro h
    rw [h.chunkTurn, if_pos rfl]

/-- A line without a size is passed over. -/
theorem chunkTurn_eq_blank :
    chunkTurn buffer c = .blank next ↔
      ∃ line, findNextLine buffer c = some (line, next) ∧ sizeText line = [] := by
  constructor
  · intro h
    obtain ⟨-, hturn⟩ | ⟨line, next', hfind, ⟨hblank, hturn⟩ | ⟨-, -, hturn⟩⟩ | ⟨size, next', hline⟩ :=
      chunkTurn_cases buffer c
    · exact nomatch hturn.symm.trans h
    · obtain rfl := ChunkTurn.blank.inj (hturn.symm.trans h)
      exact ⟨line, hfind, hblank⟩
    · exact nomatch hturn.symm.trans h
    · rw [hline.chunkTurn] at h
      split at h
      · cases h
      · split at h
        · cases h
        · cases h
  · rintro ⟨line, hfind, hblank⟩
    rw [chunkTurn, hfind]
    dsimp only
    rw [if_pos hblank]

/-- A chunk is a line with its size and as many bytes. -/
theorem chunkTurn_eq_chunk {data : Bytes} :
    chunkTurn buffer c = .chunk data stop ↔
      ∃ size next, SizeLine buffer c size next ∧ size ≠ 0 ∧ chunkEnd next size ≤ buffer.length ∧
        data = (buffer.drop next).take size ∧
        stop = skipLineBreak buffer (chunkEnd next size) := by
  constructor
  · intro h
    obtain ⟨-, hturn⟩ | ⟨line, next', -, ⟨-, hturn⟩ | ⟨-, -, hturn⟩⟩ | ⟨size, next', hline⟩ :=
      chunkTurn_cases buffer c
    · exact nomatch hturn.symm.trans h
    · exact nomatch hturn.symm.trans h
    · exact nomatch hturn.symm.trans h
    · rw [hline.chunkTurn] at h
      split at h
      · cases h
      · rename_i hsize
        split at h
        · cases h
        · rename_i hroom
          cases h
          exact ⟨size, next', hline, hsize, Nat.not_lt.mp hroom, rfl, rfl⟩
  · rintro ⟨size, next, hline, hsize, hroom, rfl, rfl⟩
    rw [hline.chunkTurn, if_neg hsize, if_neg (Nat.not_lt.mpr hroom)]

/-! ## The loops over chunks -/

/-- The cursor of the next round, if there is one. -/
def ChunkTurn.next? : ChunkTurn → Option Nat
  | .blank next | .chunk _ next => some next
  | .unterminated | .invalid | .last _ | .beyond _ => none

/-- One iteration of the loops over chunks takes the cursor from `c` to `c'`. -/
def Iterates (buffer : Bytes) (c c' : Nat) : Prop :=
  c < buffer.length ∧ (chunkTurn buffer c).next? = some c'

/-- The loops come from one cursor to the other. -/
abbrev Reaches (buffer : Bytes) : Nat → Nat → Prop := Relation.ReflTransGen (Iterates buffer)

variable {c' fuel : Nat}

/-- A turn leads to one place. -/
theorem Iterates.deterministic {c₁ c₂ : Nat} (h₁ : Iterates buffer c c₁)
    (h₂ : Iterates buffer c c₂) : c₁ = c₂ :=
  Option.some.inj (h₁.2.symm.trans h₂.2)

theorem next?_eq_some {t : ChunkTurn} (h : t.next? = some c') :
    t = .blank c' ∨ ∃ data, t = .chunk data c' := by
  cases t with
  | blank next => exact .inl (congrArg _ (Option.some.inj h))
  | chunk data next => exact .inr ⟨data, congrArg _ (Option.some.inj h)⟩
  | _ => cases h

/-- The loop goes on where the turn leads. -/
theorem Iterates.chunkLoop (h : Iterates buffer c c') (fuel : Nat) :
    chunkLoop buffer (fuel + 1) c = chunkLoop buffer fuel c' := by
  rw [Http1Codec.chunkLoop, if_pos h.1]
  obtain hturn | ⟨data, hturn⟩ := next?_eq_some h.2
  · rw [hturn]
  · rw [hturn]

/-- So does the loop that collects the body. -/
theorem Iterates.dechunkLoop (h : Iterates buffer c c') (fuel : Nat) (unchunked : Bytes) :
    ∃ more, dechunkLoop buffer (fuel + 1) c unchunked =
      dechunkLoop buffer fuel c' (unchunked ++ more) := by
  rw [Http1Codec.dechunkLoop, if_pos h.1]
  obtain hturn | ⟨data, hturn⟩ := next?_eq_some h.2
  · rw [hturn]
    exact ⟨[], by rw [append_nil]⟩
  · rw [hturn]
    exact ⟨data, rfl⟩

/-- Where no iteration follows, both loops end. -/
theorem loops_end (h : ∀ c', ¬ Iterates buffer c c') (fuel : Nat) :
    (∃ o, chunkLoop buffer (fuel + 1) c = some o) ∧
      ∀ unchunked, ∃ body, dechunkLoop buffer (fuel + 1) c unchunked = some body := by
  rw [Http1Codec.chunkLoop]
  simp only [Http1Codec.dechunkLoop]
  by_cases hc : c < buffer.length
  · rw [if_pos hc]
    simp only [if_pos hc]
    cases hturn : chunkTurn buffer c with
    | blank next => exact absurd ⟨hc, by rw [hturn]; rfl⟩ (h next)
    | chunk data next => exact absurd ⟨hc, by rw [hturn]; rfl⟩ (h next)
    | _ => exact ⟨⟨_, rfl⟩, fun _ => ⟨_, rfl⟩⟩
  · rw [if_neg hc]
    simp only [if_neg hc]
    exact ⟨⟨_, rfl⟩, fun _ => ⟨_, rfl⟩⟩

/-- The loop ends with success at a chunk of size zero that it comes to. -/
theorem chunkLoop_success {u : Unit} (h : chunkLoop buffer fuel c = some (.success u n)) :
    ∃ c' next, Reaches buffer c c' ∧ c' < buffer.length ∧ chunkTurn buffer c' = .last next ∧
      n = afterLast buffer next := by
  induction fuel generalizing c with
  | zero => cases h
  | succ fuel ih =>
    by_cases hnext : ∃ c', Iterates buffer c c'
    · obtain ⟨c', hiter⟩ := hnext
      rw [hiter.chunkLoop] at h
      obtain ⟨last, next, hreach, hlast⟩ := ih h
      exact ⟨last, next, .head hiter hreach, hlast⟩
    · rw [chunkLoop] at h
      split at h
      · rename_i hc
        split at h
        · cases h
        · cases h
        · cases h
        · rename_i next hturn
          cases h
          exact ⟨c, next, .refl, hc, hturn, rfl⟩
        · rename_i next hturn
          exact absurd ⟨next, hc, by rw [hturn]; rfl⟩ hnext
        · rename_i data next hturn
          exact absurd ⟨next, hc, by rw [hturn]; rfl⟩ hnext
      · cases h

end Http1Codec
