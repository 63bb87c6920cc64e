import Mathlib.Data.List.DropRight
import WaveX.HttpText

/-! # Multipart form data

    `MultipartFormData::parse` and `MultipartFormData::compose` of
    `src/Utils/Multipart.cpp`, with `extract_boundary`, `extract_header_value` and
    `extract_parameter`.  The parser finds delimiters, blank lines and line ends by
    searching the body, which may hold any bytes.

    Sizes are 64-bit numbers: a difference that would be negative wraps around.  A file
    larger than `max_memory_buffer` is spooled to disk; the model keeps the bytes written
    there. -/

namespace Multipart

open QuicVarInt HttpText

/-! ## Texts -/

def cr : UInt8 := 0x0d
def lf : UInt8 := 0x0a
def crlf : Bytes := [cr, lf]
def space : UInt8 := 0x20
def quote : UInt8 := 0x22
def semicolon : UInt8 := 0x3b
def colon : UInt8 := 0x3a

/-- `find(pattern, pos)`. -/
def findFrom (pattern body : Bytes) (pos : Nat) : Option Nat :=
  (findText pattern (body.drop pos)).map (pos + ·)

/-- `substr(pos, n)`. -/
def substr (body : Bytes) (pos n : Nat) : Bytes := (body.drop pos).take n

/-- A difference of two sizes. -/
def sizeDiff (a b : Nat) : Nat := (2 ^ 64 + a - b) % 2 ^ 64

/-- The text up to the first `c`, all of it when there is none. -/
def upTo (c : UInt8) (s : Bytes) : Bytes :=
  match splitFirst c s with
  | some (before, _) => before
  | none => s

/-- `extract_boundary`. -/
def extractBoundary (ct : Bytes) : Bytes :=
  match findText (text "boundary=") ct with
  | none => []
  | some pos =>
      let val := ct.drop (pos + (text "boundary=").length)
      let val := if val.head? = some quote then upTo quote (val.drop 1) else upTo semicolon val
      val.rdropWhile (fun c => c = space || c = cr || c = lf)

/-- One line of `extract_header_value`: the value, when the line has this name. -/
def headerLine (name line : Bytes) : Option Bytes :=
  let line := if line.getLast? = some cr then line.dropLast else line
  match splitFirst colon line with
  | none => none
  | some (headerName, val) =>
      if isEqual (headerName.rdropWhile (· = space)) name then some (val.dropWhile (· = space))
      else none

/-- The loop of `extract_header_value` over the lines, for at most so many rounds. -/
def headerLines (name : Bytes) : Nat → Bytes → Bytes
  | 0, _ => []
  | rounds + 1, headers =>
      if headers = [] then []
      else
        match splitFirst lf headers with
        | none => (headerLine name headers).getD []
        | some (line, rest) =>
            match headerLine name line with
            | some val => val
            | none => headerLines name rounds rest

/-- `extract_header_value`; a round takes a byte at least. -/
def extractHeaderValue (headers name : Bytes) : Bytes := headerLines name headers.length headers

/-- `extract_parameter`. -/
def extractParameter (header paramName : Bytes) : Bytes :=
  let needle := paramName ++ text "="
  match findText needle header with
  | none => []
  | some pos =>
      let val := header.drop (pos + needle.length)
      if val.head? = some quote then upTo quote (val.drop 1) else upTo semicolon val

/-! ## Forms -/

/-- `FormField`. -/
structure FormField where
  name : Bytes
  value : Bytes
  deriving DecidableEq, Repr

/-- `UploadedFile`, with the bytes it holds in memory or on disk. -/
structure UploadedFile where
  name : Bytes
  filename : Bytes
  contentType : Bytes
  content : Bytes
  onDisk : Bool
  deriving DecidableEq, Repr

/-- `ClientFile`. -/
structure ClientFile where
  name : Bytes
  filename : Bytes
  contentType : Bytes
  content : Bytes
  deriving DecidableEq, Repr

/-- `MultipartLimits`. -/
structure MultipartLimits where
  maxMemoryBuffer : Nat := 10 * 1024 * 1024
  maxFileSize : Nat := 500 * 1024 * 1024
  maxTotalSize : Nat := 1024 * 1024 * 1024
  maxFiles : Nat := 1000
  maxParts : Nat := 2000
  fits : maxTotalSize < 2 ^ 64 := by decide

/-- `MultipartFormData`. -/
structure MultipartFormData where
  boundary : Bytes := []
  fields : List FormField := []
  files : List UploadedFile := []
  clientFiles : List ClientFile := []
  valid : Bool := true
  deriving DecidableEq, Repr

/-- `add_field`. -/
def MultipartFormData.addField (f : MultipartFormData) (name value : Bytes) : MultipartFormData :=
  { f with fields := f.fields ++ [⟨name, value⟩] }

/-- `add_file`. -/
def MultipartFormData.addFile (f : MultipartFormData) (name filename content contentType : Bytes) :
    MultipartFormData :=
  { f with
    clientFiles := f.clientFiles ++
      [⟨name, filename, if contentType = [] then text "application/octet-stream" else contentType,
        content⟩] }

/-! ## Parsing -/

/-- What a round of the part loop cuts out of the body: the headers, the content and the
    position behind the delimiter that follows. -/
structure Part where
  headers : Bytes
  content : Bytes
  next : Nat
  deriving DecidableEq, Repr

/-- A line break after a delimiter is skipped. -/
def skipLineBreak (body : Bytes) (pos : Nat) : Nat :=
  let pos := if body[pos]? = some cr then pos + 1 else pos
  if body[pos]? = some lf then pos + 1 else pos

/-- The end of the headers and the start of the content. -/
def headerEnd (body : Bytes) (pos : Nat) : Option (Nat × Nat) :=
  match findFrom (crlf ++ crlf) body pos with
  | some headerEnd => some (headerEnd, headerEnd + 4)
  | none => (findFrom [lf, lf] body pos).map fun headerEnd => (headerEnd, headerEnd + 2)

/-- The end of the content: the line break before the delimiter does not belong to it. -/
def partEnd (body : Bytes) (nextBoundary : Nat) : Nat :=
  if nextBoundary ≥ 2 && substr body (nextBoundary - 2) 2 = crlf then nextBoundary - 2
  else if nextBoundary ≥ 1 && body[nextBoundary - 1]? = some lf then nextBoundary - 1
  else nextBoundary

/-- The searches of a round of the part loop, `none` when one of them fails. -/
def nextPart (body delimiter : Bytes) (pos : Nat) : Option Part :=
  let pos := skipLineBreak body pos
  match headerEnd body pos with
  | none => none
  | some (headerEnd, bodyStart) =>
      match findFrom delimiter body bodyStart with
      | none => none
      | some nextBoundary =>
          some {
            headers := substr body pos (headerEnd - pos)
            content := substr body bodyStart (sizeDiff (partEnd body nextBoundary) bodyStart)
            next := nextBoundary + delimiter.length }

/-- A part joins the form; `none` when a limit is exceeded.  A part without a name is
    dropped. -/
def addPart (limits : MultipartLimits) (f : MultipartFormData) (p : Part) :
    Option MultipartFormData :=
  let disposition := extractHeaderValue p.headers (text "Content-Disposition")
  let contentType := extractHeaderValue p.headers (text "Content-Type")
  let name := extractParameter disposition (text "name")
  let filename := extractParameter disposition (text "filename")
  if name = [] then some f
  else if f.files.length + f.fields.length ≥ limits.maxParts then none
  else if filename = [] then some { f with fields := f.fields ++ [⟨name, p.content⟩] }
  else if f.files.length ≥ limits.maxFiles then none
  else if p.content.length > limits.maxFileSize then none
  else some { f with
    files := f.files ++ [{
      name, filename
      contentType := if contentType = [] then text "application/octet-stream" else contentType
      content := p.content
      onDisk := p.content.length > limits.maxMemoryBuffer }] }

/-- The part loop, for at most so many rounds. -/
def partLoop (limits : MultipartLimits) (body delimiter : Bytes) :
    Nat → Nat → MultipartFormData → MultipartFormData
  | 0, _, f => f
  | rounds + 1, pos, f =>
      if body.length ≤ pos then f
      else if pos + 2 ≤ body.length && substr body pos 2 = text "--" then f
      else
        match nextPart body delimiter pos with
        | none => f
        | some p =>
            match addPart limits f p with
            | none => { f with valid := false }
            | some f => partLoop limits body delimiter rounds p.next f

/-- `MultipartFormData::parse`; a round of the loop takes a byte at least. -/
def parse (body contentTypeHeader : Bytes) (limits : MultipartLimits) : MultipartFormData :=
  if body.length > limits.maxTotalSize then { valid := false }
  else
    let boundary := extractBoundary contentTypeHeader
    if boundary = [] then { valid := false }
    else
      let delimiter := text "--" ++ boundary
      match findFrom delimiter body 0 with
      | none => { boundary, valid := false }
      | some pos => partLoop limits body delimiter body.length (pos + delimiter.length) { boundary }

/-! ## Composing -/

/-- A field as `compose` writes it. -/
def composeField (boundary : Bytes) (f : FormField) : Bytes :=
  text "--" ++ boundary ++ crlf ++ text "Content-Disposition: form-data; name=\"" ++ f.name ++
    [quote] ++ crlf ++ crlf ++ f.value ++ crlf

/-- A file as `compose` writes it. -/
def composeFile (boundary : Bytes) (f : ClientFile) : Bytes :=
  text "--" ++ boundary ++ crlf ++ text "Content-Disposition: form-data; name=\"" ++ f.name ++
    text "\"; filename=\"" ++ f.filename ++ [quote] ++ crlf ++ text "Content-Type: " ++
    f.contentType ++ crlf ++ crlf ++ f.content ++ crlf

/-- The boundary that `compose` uses and keeps: the one it is given, the one of the form,
    or a fresh one made from the clock. -/
def MultipartFormData.composeBoundary (f : MultipartFormData) (fresh boundary : Bytes) : Bytes :=
  if boundary ≠ [] then boundary else if f.boundary = [] then fresh else f.boundary

/-- `compose`: the form with its boundary, and the body. -/
def MultipartFormData.compose (f : MultipartFormData) (fresh boundary : Bytes) :
    MultipartFormData × Bytes :=
  let boundary := f.composeBoundary fresh boundary
  ({ f with boundary },
    f.fields.flatMap (composeField boundary) ++ f.clientFiles.flatMap (composeFile boundary) ++
      text "--" ++ boundary ++ text "--" ++ crlf)

/-- `content_type_header`. -/
def MultipartFormData.contentTypeHeader (f : MultipartFormData) (fresh : Bytes) : Bytes :=
  text "multipart/form-data; boundary=" ++ if f.boundary = [] then fresh else f.boundary

end Multipart
