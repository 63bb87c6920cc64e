import WaveX.Multipart

/-! # Multipart round trip

    `parse` reads back the form that `compose` wrote: the same fields and the same files
    in order, whatever bytes the values and contents hold, as long as the delimiter does
    not occur in them. -/

namespace MultipartRoundTrip

open QuicVarInt HttpText Multipart List

/-! ## Forms -/

/-- A call of `add_field` or `add_file`. -/
inductive Entry where
  | field (name value : Bytes)
  | file (name filename content contentType : Bytes)
  deriving DecidableEq, Repr

def addEntry (f : MultipartFormData) : Entry → MultipartFormData
  | .field name value => f.addField name value
  | .file name filename content contentType => f.addFile name filename content contentType

/-- The form that a list of calls builds. -/
def build (entries : List Entry) : MultipartFormData := entries.foldl addEntry {}

/-- The fields of a list of calls. -/
def fieldsOf (entries : List Entry) : List FormField :=
  entries.filterMap fun
    | .field name value => some ⟨name, value⟩
    | .file .. => none

/-- The files of a list of calls. -/
def filesOf (entries : List Entry) : List ClientFile :=
  entries.filterMap fun
    | .field .. => none
    | .file name filename content contentType => some ⟨name, filename, contentType, content⟩

def equals : UInt8 := 0x3d

/-- A name or filename: free of quotes, line breaks and `=`. -/
structure Plain (s : Bytes) : Prop where
  ne_nil : s ≠ []
  noQuote : quote ∉ s
  noCr : cr ∉ s
  noLf : lf ∉ s
  noEquals : equals ∉ s

/-- A content type: no line breaks and no leading spaces. -/
structure ContentType (s : Bytes) : Prop where
  ne_nil : s ≠ []
  noCr : cr ∉ s
  noLf : lf ∉ s
  noSpace : s.head? ≠ some space

/-- A boundary of letters and digits. -/
structure Boundary (b : Bytes) : Prop where
  ne_nil : b ≠ []
  alnum : ∀ c ∈ b, (0x30 ≤ c ∧ c ≤ 0x39) ∨ (0x41 ≤ c ∧ c ≤ 0x5a) ∨ (0x61 ≤ c ∧ c ≤ 0x7a)

def delimiter (boundary : Bytes) : Bytes := text "--" ++ boundary

/-- What is asked of a field or a file. -/
def Entry.WellFormed (boundary : Bytes) (limits : MultipartLimits) : Entry → Prop
  | .field name value => Plain name ∧ ¬ delimiter boundary <:+: value
  | .file name filename content contentType =>
      Plain name ∧ Plain filename ∧ ContentType contentType ∧
        ¬ delimiter boundary <:+: content ∧ content.length ≤ limits.maxFileSize

/-! ## Headers -/

/-- The value of `Content-Disposition` for a field. -/
def fieldDisposition (name : Bytes) : Bytes := text "form-data; name=\"" ++ (name ++ [quote])

/-- The value of `Content-Disposition` for a file. -/
def fileDisposition (name filename : Bytes) : Bytes :=
  text "form-data; name=\"" ++ (name ++ (text "\"; filename=\"" ++ (filename ++ [quote])))

theorem upTo_append {c : UInt8} {before : Bytes} (h : c ∉ before) (after : Bytes) :
    upTo c (before ++ c :: after) = before := by
  rw [upTo, splitFirst_append h]

/-- A quoted parameter behind the place where its name was found. -/
theorem extractParameter_found {before param value rest : Bytes}
    (hfound : findText (param ++ [equals])
      (before ++ (param ++ [equals] ++ (quote :: (value ++ quote :: rest)))) = some before.length)
    (hvalue : quote ∉ value) :
    extractParameter (before ++ (param ++ [equals] ++ (quote :: (value ++ quote :: rest)))) param =
      value := by
  have hneedle : param ++ text "=" = param ++ [equals] := rfl
  have hdrop : (before ++ (param ++ [equals] ++ (quote :: (value ++ quote :: rest)))).drop
      (before.length + (param ++ [equals]).length) = quote :: (value ++ quote :: rest) := by
    rw [← drop_drop, drop_left, drop_left]
  rw [extractParameter, hneedle, hfound]
  simp only [hdrop]
  rw [head?_cons, if_pos rfl]
  exact upTo_append hvalue rest

/-- The parts of a disposition around its `=` signs. -/
theorem fieldDisposition_eq (name : Bytes) :
    fieldDisposition name =
      text "form-data; " ++ (text "name" ++ [equals] ++ (quote :: (name ++ quote :: []))) := rfl

theorem fileDisposition_eq (name filename : Bytes) :
    fileDisposition name filename =
      text "form-data; " ++ (text "name" ++ [equals] ++ (quote :: (name ++ quote ::
        (text "; filename=\"" ++ (filename ++ [quote]))))) := rfl

/-- The name of a field is read back. -/
theorem extractParameter_field_name {name : Bytes} (h : Plain name) :
    extractParameter (fieldDisposition name) (text "name") = name := by
  rw [fieldDisposition_eq]
  exact extractParameter_found (findText_sentinel (by decide)) h.noQuote

/-- The name of a file is read back. -/
theorem extractParameter_file_name {name : Bytes} (h : Plain name) (filename : Bytes) :
    extractParameter (fileDisposition name filename) (text "name") = name := by
  rw [fileDisposition_eq]
  exact extractParameter_found (findText_sentinel (by decide)) h.noQuote

/-- The first `=` of a disposition is not that of a filename. -/
theorem findText_filename (rest : Bytes) :
    findText (text "filename" ++ [equals]) (text "form-data; name" ++ equals :: rest) =
      (findText (text "filename" ++ [equals]) rest).map
        ((text "form-data; name").length + 1 + ·) :=
  findText_sentinel_skip (by decide) (by decide) (by decide)

/-- A field has no file name. -/
theorem extractParameter_field_filename {name : Bytes} (h : Plain name) :
    extractParameter (fieldDisposition name) (text "filename") = [] := by
  have hnone : findText (text "filename" ++ [equals]) (quote :: (name ++ [quote])) = none := by
    rw [← Option.not_isSome_iff_eq_none, findText_isSome]
    intro hinfix
    have hmem : equals ∈ quote :: (name ++ [quote]) :=
      hinfix.subset (mem_append_right _ (mem_singleton.mpr rfl))
    rcases mem_cons.mp hmem with heq | hrest
    · revert heq
      decide
    · rcases mem_append.mp hrest with hname | hlast
      · exact h.noEquals hname
      · revert hlast
        decide
  rw [extractParameter, show text "filename" ++ text "=" = text "filename" ++ [equals] by rfl,
    show fieldDisposition name = text "form-data; name" ++ equals :: (quote :: (name ++ [quote])) by
      rfl, findText_filename, hnone]
  rfl

/-- The file name is read back. -/
theorem extractParameter_file_filename {name filename : Bytes} (h : Plain name)
    (hf : Plain filename) :
    extractParameter (fileDisposition name filename) (text "filename") = filename := by
  have hbefore : equals ∉ (quote :: (name ++ text "\"; ")) ++ text "filename" := by
    rw [cons_append, append_assoc]
    intro hmem
    rcases mem_cons.mp hmem with heq | hmem
    · revert heq
      decide
    · rcases mem_append.mp hmem with hname | hrest
      · exact h.noEquals hname
      · revert hrest
        decide
  have hsplit : fileDisposition name filename =
      (text "form-data; name" ++ equals :: (quote :: (name ++ text "\"; "))) ++
        (text "filename" ++ [equals] ++ (quote :: (filename ++ quote :: []))) := by
    rw [fileDisposition, append_assoc, show text "\"; filename=\"" ++ (filename ++ [quote]) =
      text "\"; " ++ (text "filename" ++ [equals] ++ (quote :: (filename ++ quote :: []))) by rfl,
      ← append_assoc name]
    rfl
  rw [hsplit]
  refine extractParameter_found ?_ hf.noQuote
  rw [append_assoc, cons_append, findText_filename, findText_sentinel hbefore]
  simp only [Option.map_some, length_append, length_cons]
  congr 1
  omega

/-! ## Header lines -/

theorem splitFirst_none {c : UInt8} {s : Bytes} (h : c ∉ s) : splitFirst c s = none :=
  splitFirst_eq_none.mpr h

/-- A line with a name and a value behind a colon and a space. -/
theorem headerLine_named {name value : Bytes} (wanted : Bytes) (hcolon : colon ∉ name)
    (hspace : name.getLast? ≠ some space) (hvalue : value.head? ≠ some space)
    (hcr : (name ++ colon :: space :: value).getLast? ≠ some cr) :
    headerLine wanted (name ++ colon :: space :: value) =
      if isEqual name wanted then some value else none := by
  have hname : name.rdropWhile (· = space) = name := by
    cases hlast : name.getLast? with
    | none =>
        rw [getLast?_eq_none_iff.mp hlast]
        rfl
    | some c =>
        obtain ⟨init, rfl⟩ := getLast?_eq_some_iff.mp hlast
        rw [rdropWhile_concat_neg]
        intro hc
        exact hspace (hlast.trans (congrArg some (of_decide_eq_true hc)))
  have hval : (space :: value).dropWhile (· = space) = value := by
    rw [dropWhile_cons_of_pos (by decide)]
    cases value with
    | nil => rfl
    | cons c value =>
        rw [dropWhile_cons_of_neg]
        intro hc
        exact hvalue (by rw [head?_cons, of_decide_eq_true hc])
  rw [headerLine, if_neg hcr, splitFirst_append hcolon]
  simp only [hname, hval]

/-- The line of a disposition. -/
def dispositionLine (disposition : Bytes) : Bytes :=
  text "Content-Disposition" ++ colon :: space :: disposition

/-- The line of a content type. -/
def contentTypeLine (contentType : Bytes) : Bytes :=
  text "Content-Type" ++ colon :: space :: contentType

/-- A disposition ends with a quote and has no line break in it. -/
structure Disposition (d : Bytes) : Prop where
  last : d.getLast? = some quote
  head : d.head? ≠ some space
  noCr : cr ∉ d
  noLf : lf ∉ d

/-- The disposition of a field is one line. -/
theorem fieldDisposition_ok {name : Bytes} (h : Plain name) : Disposition (fieldDisposition name) where
  last := by
    rw [fieldDisposition, ← append_assoc]
    exact getLast?_concat
  head := by
    show some 0x66 ≠ some space
    decide
  noCr := by
    rw [fieldDisposition, mem_append, mem_append, not_or, not_or]
    exact ⟨by decide, h.noCr, by decide⟩
  noLf := by
    rw [fieldDisposition, mem_append, mem_append, not_or, not_or]
    exact ⟨by decide, h.noLf, by decide⟩

/-- The disposition of a file is one line. -/
theorem fileDisposition_ok {name filename : Bytes} (h : Plain name) (hf : Plain filename) :
    Disposition (fileDisposition name filename) where
  last := by
    rw [fileDisposition, ← append_assoc, ← append_assoc, ← append_assoc]
    exact getLast?_concat
  head := by
    show some 0x66 ≠ some space
    decide
  noCr := by
    rw [fileDisposition, mem_append, mem_append, mem_append, mem_append, not_or,
      not_or, not_or, not_or]
    exact ⟨by decide, h.noCr, by decide, hf.noCr, by decide⟩
  noLf := by
    rw [fileDisposition, mem_append, mem_append, mem_append, mem_append, not_or,
      not_or, not_or, not_or]
    exact ⟨by decide, h.noLf, by decide, hf.noLf, by decide⟩

variable {d : Bytes}

theorem dispositionLine_ok (hd : Disposition d) :
    (dispositionLine d).getLast? ≠ some cr ∧ lf ∉ dispositionLine d ∧ dispositionLine d ≠ [] := by
  refine ⟨?_, ?_, ?_⟩
  · rw [dispositionLine, getLast?_append, getLast?_cons_cons, getLast?_cons, hd.last]
    decide
  · rw [dispositionLine, mem_append, not_or, mem_cons, not_or, mem_cons, not_or]
    exact ⟨by decide, by decide, by decide, hd.noLf⟩
  · rw [dispositionLine]
    exact append_ne_nil_of_right_ne_nil _ (cons_ne_nil _ _)

/-- The disposition is found under its name only. -/
theorem headerLine_disposition (hd : Disposition d) (wanted : Bytes) :
    headerLine wanted (dispositionLine d) =
      if isEqual (text "Content-Disposition") wanted then some d else none := by
  refine headerLine_named wanted (by decide) (by decide) hd.head ?_
  exact (dispositionLine_ok hd).1

/-- The content type is found under its name only. -/
theorem headerLine_contentType {ct : Bytes} (hct : ContentType ct) (wanted : Bytes) :
    headerLine wanted (contentTypeLine ct) =
      if isEqual (text "Content-Type") wanted then some ct else none := by
  refine headerLine_named wanted (by decide) (by decide) hct.noSpace ?_
  intro hlast
  have hmem := mem_of_getLast? hlast
  rcases mem_append.mp hmem with hname | hrest
  · revert hname
    decide
  · rcases mem_cons.mp hrest with heq | hrest
    · revert heq
      decide
    · rcases mem_cons.mp hrest with heq | hrest
      · revert heq
        decide
      · exact hct.noCr hrest

theorem isEqual_refl (s : Bytes) : isEqual s s = true := isEqual_iff.mpr rfl

/-- The carriage return at the end of a line is not part of it. -/
theorem headerLine_cr {line : Bytes} (wanted : Bytes) (h : line.getLast? ≠ some cr) :
    headerLine wanted (line ++ [cr]) = headerLine wanted line := by
  rw [headerLine, headerLine, if_pos getLast?_concat, if_neg h, dropLast_concat]

theorem contentTypeLine_ok {ct : Bytes} (hct : ContentType ct) :
    lf ∉ contentTypeLine ct ∧ contentTypeLine ct ≠ [] := by
  refine ⟨?_, ?_⟩
  · rw [contentTypeLine, mem_append, not_or, mem_cons, not_or, mem_cons, not_or]
    exact ⟨by decide, by decide, by decide, hct.noLf⟩
  · rw [contentTypeLine]
    exact append_ne_nil_of_right_ne_nil _ (cons_ne_nil _ _)

/-- The last line of the headers. -/
theorem headerLines_last {line : Bytes} (wanted : Bytes) (hlf : lf ∉ line) (hne : line ≠ [])
    (rounds : Nat) : headerLines wanted (rounds + 1) line = (headerLine wanted line).getD [] := by
  rw [headerLines, if_neg hne, splitFirst_none hlf]

/-- The headers of a field are one line. -/
theorem extractHeaderValue_one (hd : Disposition d) :
    extractHeaderValue (dispositionLine d) (text "Content-Disposition") = d ∧
      extractHeaderValue (dispositionLine d) (text "Content-Type") = [] := by
  obtain ⟨-, hlf, hne⟩ := dispositionLine_ok hd
  obtain ⟨n, hn⟩ := Nat.exists_eq_succ_of_ne_zero (mt length_eq_zero_iff.mp hne)
  have hvalue (wanted : Bytes) : extractHeaderValue (dispositionLine d) wanted =
      (if isEqual (text "Content-Disposition") wanted then some d else none).getD [] := by
    rw [extractHeaderValue, hn, headerLines_last wanted hlf hne, headerLine_disposition hd]
  constructor
  · rw [hvalue, isEqual_refl]
    rfl
  · rw [hvalue]
    rfl

/-- The headers of a file are two lines. -/
theorem extractHeaderValue_two {ct : Bytes} (hd : Disposition d) (hct : ContentType ct) :
    extractHeaderValue (dispositionLine d ++ (crlf ++ contentTypeLine ct))
        (text "Content-Disposition") = d ∧
      extractHeaderValue (dispositionLine d ++ (crlf ++ contentTypeLine ct))
        (text "Content-Type") = ct := by
  obtain ⟨hcr, hlf, hne⟩ := dispositionLine_ok hd
  obtain ⟨hlf', hne'⟩ := contentTypeLine_ok hct
  have hsplit : splitFirst lf (dispositionLine d ++ (crlf ++ contentTypeLine ct)) =
      some (dispositionLine d ++ [cr], contentTypeLine ct) := by
    rw [show dispositionLine d ++ (crlf ++ contentTypeLine ct) =
      dispositionLine d ++ [cr] ++ lf :: contentTypeLine ct by rw [append_assoc]; rfl]
    refine splitFirst_append ?_ _
    rw [mem_append, not_or]
    exact ⟨hlf, by decide⟩
  have hvalue (wanted : Bytes) :
      extractHeaderValue (dispositionLine d ++ (crlf ++ contentTypeLine ct)) wanted =
        if isEqual (text "Content-Disposition") wanted then d
        else (if isEqual (text "Content-Type") wanted then some ct else none).getD [] := by
    obtain ⟨n, hn⟩ : ∃ n, (dispositionLine d ++ (crlf ++ contentTypeLine ct)).length = n + 1 + 1 := by
      refine ⟨(dispositionLine d).length + (contentTypeLine ct).length, ?_⟩
      rw [length_append, length_append]
      exact Nat.add_left_comm _ 2 _ |>.trans (Nat.add_comm _ _)
    rw [extractHeaderValue, hn, headerLines, if_neg (append_ne_nil_of_left_ne_nil hne _), hsplit]
    simp only [headerLine_cr wanted hcr, headerLine_disposition hd]
    by_cases hwanted : isEqual (text "Content-Disposition") wanted = true
    · rw [if_pos hwanted, if_pos hwanted]
    · rw [if_neg hwanted, if_neg hwanted]
      simp only
      rw [headerLines_last wanted hlf' hne', headerLine_contentType hct]
  constructor
  · rw [hvalue, isEqual_refl, if_pos rfl]
  · rw [hvalue, show isEqual (text "Content-Disposition") (text "Content-Type") = false by decide,
      isEqual_refl]
    rfl

/-! ## Parts -/

def Entry.headers : Entry → Bytes
  | .field name _ => dispositionLine (fieldDisposition name)
  | .file name filename _ contentType =>
      dispositionLine (fileDisposition name filename) ++ (crlf ++ contentTypeLine contentType)

def Entry.content : Entry → Bytes
  | .field _ value => value
  | .file _ _ content _ => content

/-- The entry as `parse` adds it to the form. -/
def Entry.join (limits : MultipartLimits) (f : MultipartFormData) : Entry → MultipartFormData
  | .field name value => { f with fields := f.fields ++ [⟨name, value⟩] }
  | .file name filename content contentType =>
      { f with
        files := f.files ++ [⟨name, filename, contentType, content,
          decide (content.length > limits.maxMemoryBuffer)⟩] }

def Entry.isFile : Entry → Bool
  | .field .. => false
  | .file .. => true

variable {limits : MultipartLimits} {boundary : Bytes} {f : MultipartFormData} {e : Entry}

/-- A well-formed entry is added when there is room for it. -/
theorem addPart_entry (he : e.WellFormed boundary limits) (next : Nat)
    (hparts : f.files.length + f.fields.length < limits.maxParts)
    (hfiles : e.isFile = true → f.files.length < limits.maxFiles) :
    addPart limits f ⟨e.headers, e.content, next⟩ = some (e.join limits f) := by
  cases e with
  | field name value =>
      obtain ⟨hname, -⟩ := he
      obtain ⟨hdisposition, hcontentType⟩ := extractHeaderValue_one (fieldDisposition_ok hname)
      rw [addPart]
      simp only [Entry.headers, Entry.content, hdisposition, hcontentType,
        extractParameter_field_name hname, extractParameter_field_filename hname]
      rw [if_neg hname.ne_nil, if_neg (by omega), if_pos trivial]
      rfl
  | file name filename content contentType =>
      obtain ⟨hname, hfilename, hct, -, hsize⟩ := he
      obtain ⟨hdisposition, hcontentType⟩ :=
        extractHeaderValue_two (fileDisposition_ok hname hfilename) hct
      have hroom := hfiles rfl
      rw [addPart]
      simp only [Entry.headers, Entry.content, hdisposition, hcontentType,
        extractParameter_file_name hname, extractParameter_file_filename hname hfilename]
      rw [if_neg hname.ne_nil, if_neg (by omega), if_neg hfilename.ne_nil, if_neg (by omega),
        if_neg (by omega), if_neg hct.ne_nil]
      rfl

/-- The blank line that ends the headers of an entry is the first one. -/
theorem findText_headers (he : e.WellFormed boundary limits) (rest : Bytes) :
    findText (crlf ++ crlf) (e.headers ++ (crlf ++ crlf ++ rest)) = some e.headers.length := by
  have hline {d : Bytes} (hd : Disposition d) : cr ∉ dispositionLine d := by
    rw [dispositionLine, mem_append, not_or, mem_cons, not_or, mem_cons, not_or]
    exact ⟨by decide, by decide, by decide, hd.noCr⟩
  have hskip {before s : Bytes} (h : cr ∉ before) : findText (crlf ++ crlf) (before ++ s) =
      (findText (crlf ++ crlf) s).map (before.length + ·) := findText_skip h
  cases e with
  | field name value =>
      rw [Entry.headers, hskip (hline (fieldDisposition_ok he.1)), findText_front]
      rfl
  | file name filename content contentType =>
      obtain ⟨hname, hfilename, hct, -⟩ := he
      have hsecond : cr ∉ contentTypeLine contentType := by
        rw [contentTypeLine, mem_append, not_or, mem_cons, not_or, mem_cons, not_or]
        exact ⟨by decide, by decide, by decide, hct.noCr⟩
      -- the line break between the two lines is no blank line
      have hbreak (s : Bytes) : findText (crlf ++ crlf) (crlf ++ (contentTypeLine contentType ++ s)) =
          (findText (crlf ++ crlf) (contentTypeLine contentType ++ s)).map (2 + ·) := by
        have hcr : (crlf ++ crlf).isPrefixOf (cr :: lf :: (contentTypeLine contentType ++ s)) =
            false := rfl
        have hlf : (crlf ++ crlf).isPrefixOf (lf :: (contentTypeLine contentType ++ s)) = false := rfl
        rw [show crlf ++ (contentTypeLine contentType ++ s) =
          cr :: lf :: (contentTypeLine contentType ++ s) by rfl, findText, hcr,
          if_neg Bool.false_ne_true, findText, hlf, if_neg Bool.false_ne_true, Option.map_map]
        congr 1
        funext n
        exact Nat.add_comm n 2
      rw [Entry.headers, append_assoc, hskip (hline (fileDisposition_ok hname hfilename)),
        append_assoc, hbreak, hskip hsecond, findText_front]
      simp only [Option.map_some, length_append]
      rfl

/-! ## The part loop -/

theorem delimiter_cons (b : Bytes) : delimiter b = 0x2d :: (0x2d :: b) := rfl

theorem delimiter_noCr (hb : Boundary boundary) : cr ∉ delimiter boundary := by
  rw [delimiter_cons, mem_cons, not_or, mem_cons, not_or]
  refine ⟨by decide, by decide, ?_⟩
  intro hmem
  have halnum := hb.alnum cr hmem
  revert halnum
  decide

/-- The delimiter behind a content that does not contain it. -/
theorem findText_delimiter {content : Bytes} (hb : Boundary boundary)
    (hcontent : ¬ delimiter boundary <:+: content) (rest : Bytes) :
    findText (delimiter boundary) (content ++ (crlf ++ (delimiter boundary ++ rest))) =
      some (content.length + 2) := by
  have hlf : findText (delimiter boundary) ([lf] ++ (delimiter boundary ++ rest)) = some 1 := by
    rw [delimiter_cons, findText_skip (by decide), findText_front]
    rfl
  rw [show content ++ (crlf ++ (delimiter boundary ++ rest)) =
      content ++ cr :: ([lf] ++ (delimiter boundary ++ rest)) by rfl,
    findText_separated (delimiter_noCr hb) (cons_ne_nil _ _) hcontent, hlf]
  rfl

/-- A search behind `before`. -/
theorem findFrom_append {pattern before s : Bytes} {n : Nat} (h : findText pattern s = some n) :
    findFrom pattern (before ++ s) before.length = some (before.length + n) := by
  rw [findFrom, drop_left, h]
  rfl

theorem substr_append (before s : Bytes) (n : Nat) :
    substr (before ++ s) before.length n = s.take n := by
  rw [substr, drop_left]

/-- The body from behind a delimiter to the next one. -/
def partBytes (e : Entry) : Bytes :=
  crlf ++ (e.headers ++ (crlf ++ crlf ++ (e.content ++ crlf)))

theorem getElem?_append_head {before s : Bytes} {c : UInt8} :
    (before ++ c :: s)[before.length]? = some c := by
  rw [getElem?_append_right (Nat.le_refl _), Nat.sub_self, getElem?_cons_zero]

theorem skipLineBreak_crlf (before s : Bytes) :
    skipLineBreak (before ++ (crlf ++ s)) before.length = (before ++ crlf).length := by
  have hcr : (before ++ (crlf ++ s))[before.length]? = some cr := getElem?_append_head
  have hlf : (before ++ (crlf ++ s))[before.length + 1]? = some lf := by
    rw [show before ++ (crlf ++ s) = before ++ [cr] ++ lf :: s by rw [append_assoc]; rfl,
      show before.length + 1 = (before ++ [cr]).length by rw [length_append]; rfl]
    exact getElem?_append_head
  rw [skipLineBreak]
  simp only [hcr, if_true, hlf]
  rw [length_append]
  rfl

/-- One round of the loop cuts out an entry, whatever its content holds. -/
theorem nextPart_entry (hb : Boundary boundary) (he : e.WellFormed boundary limits)
    {body before rest : Bytes}
    (hbody : body = before ++ (partBytes e ++ (delimiter boundary ++ rest)))
    (hsize : body.length < 2 ^ 64) :
    nextPart body (delimiter boundary) before.length =
      some ⟨e.headers, e.content, (before ++ (partBytes e ++ delimiter boundary)).length⟩ := by
  have hcontent : ¬ delimiter boundary <:+: e.content := by
    cases e with
    | field name value => exact he.2
    | file name filename content contentType => exact he.2.2.2.1
  have hheaders : body = (before ++ crlf) ++ (e.headers ++
      (crlf ++ crlf ++ (e.content ++ (crlf ++ (delimiter boundary ++ rest))))) := by
    rw [hbody, partBytes]
    simp only [append_assoc]
  have hstart : body = (before ++ crlf ++ e.headers ++ (crlf ++ crlf)) ++
      (e.content ++ (crlf ++ (delimiter boundary ++ rest))) := by
    rw [hheaders]
    simp only [append_assoc]
  have hskip : skipLineBreak body before.length = (before ++ crlf).length := by
    rw [hbody, partBytes, append_assoc]
    exact skipLineBreak_crlf _ _
  have hstartLength : (before ++ crlf ++ e.headers ++ (crlf ++ crlf)).length =
      (before ++ crlf).length + e.headers.length + 4 := by
    rw [length_append, length_append]
    rfl
  have hend : headerEnd body (before ++ crlf).length =
      some ((before ++ crlf).length + e.headers.length,
        (before ++ crlf ++ e.headers ++ (crlf ++ crlf)).length) := by
    have hfound : findFrom (crlf ++ crlf) body (before ++ crlf).length =
        some ((before ++ crlf).length + e.headers.length) := by
      rw [hheaders]
      exact findFrom_append (findText_headers he _)
    rw [headerEnd, hfound, hstartLength]
  generalize before ++ crlf ++ e.headers ++ (crlf ++ crlf) = start at hstart hend hstartLength
  have hnext : findFrom (delimiter boundary) body start.length =
      some (start.length + (e.content.length + 2)) := by
    rw [hstart]
    exact findFrom_append (findText_delimiter hb hcontent rest)
  have hpartEnd : partEnd body (start.length + (e.content.length + 2)) =
      (start ++ e.content).length := by
    -- the line break in front of the delimiter is no content
    have hbreak : substr body (start ++ e.content).length 2 = crlf := by
      rw [hstart, ← append_assoc, substr_append]
      rfl
    have hlength : start.length + (e.content.length + 2) - 2 = (start ++ e.content).length := by
      rw [length_append]
      omega
    rw [partEnd, hlength, hbreak]
    rw [if_pos]
    rw [decide_eq_true (show start.length + (e.content.length + 2) ≥ 2 by omega)]
    rfl
  -- the size does not wrap, for the content begins before it ends
  have hdiff : sizeDiff (start ++ e.content).length start.length = e.content.length := by
    have hlength := congrArg List.length hstart
    rw [length_append, length_append] at hlength
    rw [sizeDiff, length_append]
    omega
  have hheader : substr body (before ++ crlf).length
      ((before ++ crlf).length + e.headers.length - (before ++ crlf).length) = e.headers := by
    rw [Nat.add_sub_cancel_left, hheaders, substr_append, take_left]
  have hvalue : substr body start.length e.content.length = e.content := by
    rw [hstart, substr_append, take_left]
  rw [nextPart]
  simp only [hskip, hend, hnext, hpartEnd, hdiff, hheader, hvalue]
  congr 2
  have hlength : body.length = (before ++ (partBytes e ++ delimiter boundary)).length + rest.length := by
    rw [hbody, ← append_assoc (partBytes e), ← append_assoc before, length_append]
  have hlength' : body.length =
      start.length + (e.content.length + (2 + ((delimiter boundary).length + rest.length))) := by
    rw [hstart]
    simp only [length_append]
    rfl
  omega

/-- An entry is one part more, and one file more if it is one. -/
theorem join_length (limits : MultipartLimits) (f : MultipartFormData) (e : Entry) :
    (e.join limits f).files.length + (e.join limits f).fields.length =
        f.files.length + f.fields.length + 1 ∧
      (e.join limits f).files.length = f.files.length + if e.isFile then 1 else 0 := by
  cases e with
  | field name value =>
      constructor
      · simp only [Entry.join, length_append, length_singleton]
        omega
      · rfl
  | file name filename content contentType =>
      constructor
      · simp only [Entry.join, length_append, length_singleton]
        omega
      · simp only [Entry.join, length_append, length_singleton]
        rfl

/-- The form has room for the entries within the limits. -/
structure Room (limits : MultipartLimits) (f : MultipartFormData) (entries : List Entry) :
    Prop where
  parts : f.files.length + f.fields.length + entries.length ≤ limits.maxParts
  files : f.files.length + (entries.filter Entry.isFile).length ≤ limits.maxFiles

/-- The first of the entries is added, and there is room for the others. -/
theorem Room.add {entries : List Entry} (h : Room limits f (e :: entries))
    (he : e.WellFormed boundary limits) (next : Nat) :
    addPart limits f ⟨e.headers, e.content, next⟩ = some (e.join limits f) ∧
      Room limits (e.join limits f) entries := by
  have hparts := h.parts
  have hfiles := h.files
  rw [length_cons] at hparts
  obtain ⟨hcount, hcountFiles⟩ := join_length limits f e
  refine ⟨addPart_entry he next (by omega) ?_, by omega, ?_⟩
  · intro hfile
    rw [filter_cons_of_pos hfile, length_cons] at hfiles
    omega
  · rw [hcountFiles]
    cases hfile : e.isFile with
    | true =>
        rw [filter_cons_of_pos hfile, length_cons] at hfiles
        rw [if_pos rfl]
        omega
    | false =>
        rw [filter_cons_of_neg (by rw [hfile]; exact Bool.false_ne_true)] at hfiles
        exact hfiles

/-- What follows a delimiter: the entries, each up to the next delimiter, and the end. -/
def afterDelimiter (boundary : Bytes) : List Entry → Bytes
  | [] => text "--" ++ crlf
  | e :: rest => partBytes e ++ (delimiter boundary ++ afterDelimiter boundary rest)

/-- The loop adds the entries one by one. -/
theorem partLoop_entries (hb : Boundary boundary) (entries : List Entry)
    (he : ∀ e ∈ entries, e.WellFormed boundary limits) {body before : Bytes}
    (hbody : body = before ++ afterDelimiter boundary entries) (hsize : body.length < 2 ^ 64)
    (f : MultipartFormData) (hroom : Room limits f entries) {rounds : Nat}
    (hrounds : entries.length < rounds) :
    partLoop limits body (delimiter boundary) rounds before.length f =
      entries.foldl (Entry.join limits) f := by
  induction entries generalizing before f rounds with
  | nil =>
      obtain _ | rounds := rounds
      · exact absurd hrounds (Nat.not_lt_zero _)
      · have hend : substr body before.length 2 = text "--" := by
          rw [hbody, substr_append]
          rfl
        have hlength : before.length + 4 = body.length := by
          rw [hbody, length_append]
          rfl
        rw [partLoop, if_neg (by omega), hend, if_pos]
        · rfl
        · rw [decide_eq_true (show before.length + 2 ≤ body.length by omega)]
          rfl
  | cons e entries ih =>
      obtain _ | rounds := rounds
      · exact absurd hrounds (Nat.not_lt_zero _)
      · have hentry := he e mem_cons_self
        rw [length_cons] at hrounds
        have hnext := nextPart_entry hb hentry hbody hsize
        have hmore : substr body before.length 2 ≠ text "--" := by
          rw [hbody, substr_append]
          show crlf ≠ text "--"
          decide
        have hlong : before.length < body.length := by
          rw [hbody, length_append]
          exact Nat.lt_add_of_pos_right (Nat.succ_pos _)
        have hfull : before ++ (partBytes e ++ delimiter boundary) ++
            afterDelimiter boundary entries = body := by
          rw [hbody, afterDelimiter]
          simp only [append_assoc]
        obtain ⟨hadd, hroom⟩ :=
          hroom.add hentry (before ++ (partBytes e ++ delimiter boundary)).length
        have hloop := ih (fun e' he' => he e' (mem_cons_of_mem _ he')) hfull.symm
          (e.join limits f) hroom (Nat.lt_of_succ_lt_succ hrounds)
        rw [partLoop, if_neg (by omega), if_neg, hnext]
        · simp only [hadd]
          exact hloop
        · rw [Bool.and_eq_true, decide_eq_true_eq, decide_eq_true_eq]
          exact fun h => hmore h.2

/-! ## The composed body -/

def ofField (f : FormField) : Entry := .field f.name f.value

def ofFile (f : ClientFile) : Entry := .file f.name f.filename f.content f.contentType

/-- The entries in the order of `compose`: the fields, then the files. -/
def composed (f : MultipartFormData) : List Entry := f.fields.map ofField ++ f.clientFiles.map ofFile

/-- A field is written as a delimiter and its part. -/
theorem composeField_eq (boundary : Bytes) (f : FormField) :
    composeField boundary f = delimiter boundary ++ partBytes (ofField f) := by
  have htext : text "Content-Disposition: form-data; name=\"" =
      text "Content-Disposition" ++ colon :: space :: text "form-data; name=\"" := by decide
  rw [composeField, htext, partBytes, delimiter]
  simp only [ofField, Entry.headers, Entry.content, dispositionLine, fieldDisposition,
    append_assoc, cons_append]

/-- So is a file. -/
theorem composeFile_eq (boundary : Bytes) (f : ClientFile) :
    composeFile boundary f = delimiter boundary ++ partBytes (ofFile f) := by
  have htext : text "Content-Disposition: form-data; name=\"" =
      text "Content-Disposition" ++ colon :: space :: text "form-data; name=\"" := by decide
  have htype : text "Content-Type: " = text "Content-Type" ++ [colon, space] := by decide
  rw [composeFile, htext, htype, partBytes, delimiter]
  simp only [ofFile, Entry.headers, Entry.content, dispositionLine, contentTypeLine,
    fileDisposition, append_assoc, cons_append, nil_append]

/-- Parts, each behind a delimiter, and the closing delimiter. -/
theorem delimited_eq (boundary : Bytes) (entries : List Entry) :
    entries.flatMap (fun e => delimiter boundary ++ partBytes e) ++
        (delimiter boundary ++ (text "--" ++ crlf)) =
      delimiter boundary ++ afterDelimiter boundary entries := by
  induction entries with
  | nil => rfl
  | cons e entries ih =>
      rw [flatMap_cons, append_assoc, ih, afterDelimiter, append_assoc]

/-- The whole body, from the first delimiter on. -/
theorem compose_body (f : MultipartFormData) (fresh : Bytes) (hb : Boundary boundary) :
    f.compose fresh boundary =
      ({ f with boundary }, delimiter boundary ++ afterDelimiter boundary (composed f)) := by
  have hboundary : f.composeBoundary fresh boundary = boundary := if_pos hb.ne_nil
  have hparts : (composed f).flatMap (fun e => delimiter boundary ++ partBytes e) =
      f.fields.flatMap (composeField boundary) ++ f.clientFiles.flatMap (composeFile boundary) := by
    rw [composed, flatMap_append, flatMap_map, flatMap_map,
      funext (composeField_eq boundary), funext (composeFile_eq boundary)]
  rw [MultipartFormData.compose]
  simp only [hboundary]
  rw [← delimited_eq, hparts, delimiter]
  simp only [append_assoc]

/-- The boundary in the content type. -/
theorem extractBoundary_header (hb : Boundary boundary) :
    extractBoundary (text "multipart/form-data; boundary=" ++ boundary) = boundary := by
  have hnot {c : UInt8} (hc : ¬ ((0x30 ≤ c ∧ c ≤ 0x39) ∨ (0x41 ≤ c ∧ c ≤ 0x5a) ∨
      (0x61 ≤ c ∧ c ≤ 0x7a))) : c ∉ boundary := fun hmem => hc (hb.alnum c hmem)
  have hfound : findText (text "boundary=") (text "multipart/form-data; boundary=" ++ boundary) =
      some (text "multipart/form-data; ").length := by
    rw [show text "multipart/form-data; boundary=" ++ boundary =
      text "multipart/form-data; " ++ (text "boundary" ++ [equals] ++ boundary) by rfl]
    exact findText_sentinel
      (show equals ∉ text "multipart/form-data; " ++ text "boundary" by decide)
  have hdrop : (text "multipart/form-data; boundary=" ++ boundary).drop
      ((text "multipart/form-data; ").length + (text "boundary=").length) = boundary := by
    rw [show (text "multipart/form-data; ").length + (text "boundary=").length =
      (text "multipart/form-data; boundary=").length by decide, drop_left]
  have hquote : boundary.head? ≠ some quote := fun h =>
    hnot (by decide) (mem_of_mem_head? h)
  have hsemicolon : upTo semicolon boundary = boundary := by
    rw [upTo, splitFirst_none (hnot (by decide))]
  have htrim : boundary.rdropWhile (fun c => c = space || c = cr || c = lf) = boundary := by
    obtain ⟨init, last, hlast⟩ := eq_nil_or_concat boundary |>.resolve_left hb.ne_nil
    have hmem : last ∈ boundary := by
      rw [hlast, concat_eq_append]
      exact mem_append_right _ (mem_singleton.mpr rfl)
    rw [hlast, concat_eq_append, rdropWhile_concat_neg]
    intro hbad
    rw [Bool.or_eq_true, Bool.or_eq_true, decide_eq_true_eq, decide_eq_true_eq,
      decide_eq_true_eq] at hbad
    rcases hbad with (rfl | rfl) | rfl
    · exact hnot (by decide) hmem
    · exact hnot (by decide) hmem
    · exact hnot (by decide) hmem
  rw [extractBoundary, hfound]
  simp only [hdrop]
  rw [if_neg hquote, hsemicolon, htrim]

/-! ## The round trip -/

/-- The parts that the loop adds, all fields and then all files. -/
theorem join_composed (limits : MultipartLimits) (fields : List FormField) (files : List ClientFile)
    (f : MultipartFormData) :
    (fields.map ofField ++ files.map ofFile).foldl (Entry.join limits) f =
      { f with
        fields := f.fields ++ fields
        files := f.files ++ files.map (fun c => ⟨c.name, c.filename, c.contentType, c.content,
          decide (c.content.length > limits.maxMemoryBuffer)⟩) } := by
  rw [foldl_append]
  have hfields (f : MultipartFormData) : (fields.map ofField).foldl (Entry.join limits) f =
      { f with fields := f.fields ++ fields } := by
    induction fields generalizing f with
    | nil => simp only [map_nil, foldl_nil, append_nil]
    | cons x fields ih =>
        rw [map_cons, foldl_cons, ih]
        simp only [ofField, Entry.join, append_assoc, singleton_append]
  have hfiles (f : MultipartFormData) : (files.map ofFile).foldl (Entry.join limits) f =
      { f with files := f.files ++ files.map (fun c => ⟨c.name, c.filename, c.contentType, c.content,
          decide (c.content.length > limits.maxMemoryBuffer)⟩) } := by
    induction files generalizing f with
    | nil => simp only [map_nil, foldl_nil, append_nil]
    | cons x files ih =>
        rw [map_cons, foldl_cons, ih]
        simp only [ofFile, Entry.join, map_cons, append_assoc, singleton_append]
  rw [hfields, hfiles]

/-- The calls build the lists of fields and files. -/
theorem build_eq (entries : List Entry) (he : ∀ e ∈ entries, e.WellFormed boundary limits) :
    (build entries).fields = fieldsOf entries ∧ (build entries).clientFiles = filesOf entries := by
  have hfold (f : MultipartFormData) :
      (entries.foldl addEntry f).fields = f.fields ++ fieldsOf entries ∧
        (entries.foldl addEntry f).clientFiles = f.clientFiles ++ filesOf entries := by
    induction entries generalizing f with
    | nil => exact ⟨(append_nil _).symm, (append_nil _).symm⟩
    | cons e entries ih =>
        obtain ⟨hfields, hfiles⟩ := ih (fun e' he' => he e' (mem_cons_of_mem _ he'))
          (addEntry f e)
        rw [foldl_cons, hfields, hfiles]
        cases e with
        | field name value =>
            exact ⟨by rw [addEntry, MultipartFormData.addField, append_assoc]; rfl, rfl⟩
        | file name filename content contentType =>
            have hct := (he _ mem_cons_self).2.2.1.ne_nil
            refine ⟨rfl, ?_⟩
            rw [addEntry, MultipartFormData.addFile, if_neg hct, append_assoc]
            rfl
  exact hfold {}

/-- The entries in the order of `compose`. -/
def sorted (entries : List Entry) : List Entry :=
  (fieldsOf entries).map ofField ++ (filesOf entries).map ofFile

theorem sorted_mem {entries : List Entry} (h : e ∈ sorted entries) : e ∈ entries := by
  rcases mem_append.mp h with hfield | hfile
  · obtain ⟨x, hx, rfl⟩ := mem_map.mp hfield
    obtain ⟨e', he', heq⟩ := mem_filterMap.mp hx
    cases e' with
    | field name value =>
        cases heq
        exact he'
    | file name filename content contentType => cases heq
  · obtain ⟨x, hx, rfl⟩ := mem_map.mp hfile
    obtain ⟨e', he', heq⟩ := mem_filterMap.mp hx
    cases e' with
    | field name value => cases heq
    | file name filename content contentType =>
        cases heq
        exact he'

theorem sorted_length (entries : List Entry) :
    (sorted entries).length = entries.length ∧
      ((sorted entries).filter Entry.isFile).length = (entries.filter Entry.isFile).length := by
  have hcount : (fieldsOf entries).length + (filesOf entries).length = entries.length ∧
      (filesOf entries).length = (entries.filter Entry.isFile).length := by
    induction entries with
    | nil => exact ⟨rfl, rfl⟩
    | cons e entries ih =>
        obtain ⟨hall, hfiles⟩ := ih
        cases e with
        | field name value =>
            refine ⟨?_, hfiles⟩
            show (fieldsOf entries).length + 1 + (filesOf entries).length = entries.length + 1
            omega
        | file name filename content contentType =>
            refine ⟨?_, congrArg (· + 1) hfiles⟩
            show (fieldsOf entries).length + ((filesOf entries).length + 1) = entries.length + 1
            omega
  have hnone : ((fieldsOf entries).map ofField).filter Entry.isFile = [] := by
    rw [filter_eq_nil_iff]
    intro e he
    obtain ⟨x, -, rfl⟩ := mem_map.mp he
    exact Bool.false_ne_true
  have hsome : ((filesOf entries).map ofFile).filter Entry.isFile = (filesOf entries).map ofFile := by
    rw [filter_eq_self]
    intro e he
    obtain ⟨x, -, rfl⟩ := mem_map.mp he
    rfl
  constructor
  · rw [sorted, length_append, length_map, length_map, hcount.1]
  · rw [sorted, filter_append, hnone, hsome, nil_append, length_map, hcount.2]

/-- What `compose` makes of a list of calls. -/
theorem compose_entries (entries : List Entry) (fresh : Bytes) (hb : Boundary boundary)
    (he : ∀ e ∈ entries, e.WellFormed boundary limits) :
    ((build entries).compose fresh boundary).2 =
        delimiter boundary ++ afterDelimiter boundary (sorted entries) ∧
      ((build entries).compose fresh boundary).1.contentTypeHeader fresh =
        text "multipart/form-data; boundary=" ++ boundary := by
  obtain ⟨hfields, hclient⟩ := build_eq entries he
  have hsorted : composed (build entries) = sorted entries := by
    rw [composed, hfields, hclient, sorted]
  rw [compose_body _ fresh hb, hsorted]
  refine ⟨rfl, ?_⟩
  rw [MultipartFormData.contentTypeHeader]
  simp only [if_neg hb.ne_nil]

/-- **Round trip**: parsing a composed form within the limits is valid and gives the same
    fields and the same files in order. -/
theorem parse_compose (entries : List Entry) (boundary fresh : Bytes) (limits : MultipartLimits)
    (hb : Boundary boundary) (he : ∀ e ∈ entries, e.WellFormed boundary limits)
    (hparts : entries.length ≤ limits.maxParts)
    (hfiles : (entries.filter Entry.isFile).length ≤ limits.maxFiles)
    (htotal : ((build entries).compose fresh boundary).2.length ≤ limits.maxTotalSize) :
    let form := (build entries).compose fresh boundary
    let parsed := parse form.2 (form.1.contentTypeHeader fresh) limits
    parsed.valid = true ∧ parsed.fields = fieldsOf entries ∧
      parsed.files.map (fun u => ⟨u.name, u.filename, u.contentType, u.content⟩) =
        filesOf entries := by
  obtain ⟨hlength, hlengthFiles⟩ := sorted_length entries
  obtain ⟨hbody, hheader⟩ := compose_entries entries fresh hb he
  dsimp only
  rw [hbody] at htotal
  rw [hbody, hheader]
  have hfirst : findFrom (delimiter boundary)
      (delimiter boundary ++ afterDelimiter boundary (sorted entries)) 0 = some 0 := by
    rw [findFrom, drop_zero, findText_front]
    rfl
  have hrounds : (sorted entries).length <
      (delimiter boundary ++ afterDelimiter boundary (sorted entries)).length := by
    have hmany (es : List Entry) : es.length < (afterDelimiter boundary es).length := by
      induction es with
      | nil => exact Nat.succ_pos 3
      | cons e es ih =>
          rw [afterDelimiter, length_append, length_append, delimiter_cons]
          simp only [length_cons]
          omega
    rw [length_append]
    exact Nat.lt_of_lt_of_le (hmany _) (Nat.le_add_left _ _)
  have hloop := partLoop_entries hb (sorted entries) (fun e hmem => he e (sorted_mem hmem)) rfl
    (Nat.lt_of_le_of_lt htotal limits.fits) { boundary }
    ⟨by simp only [length_nil]; omega, by simp only [length_nil]; omega⟩ hrounds
  have hparse : parse (delimiter boundary ++ afterDelimiter boundary (sorted entries))
      (text "multipart/form-data; boundary=" ++ boundary) limits =
        (sorted entries).foldl (Entry.join limits) { boundary } := by
    rw [parse, if_neg (Nat.not_lt.mpr htotal), extractBoundary_header hb]
    simp only [if_neg hb.ne_nil]
    rw [show text "--" ++ boundary = delimiter boundary by rfl, hfirst]
    simp only [Nat.zero_add]
    exact hloop
  rw [hparse, sorted, join_composed]
  refine ⟨rfl, rfl, ?_⟩
  simp only [nil_append, map_map, Function.comp_def, map_id']

/-- A field whose value looks like a header, and an empty file. -/
theorem parse_compose_example :
    let form := (build [.field (text "a") (text "\r\n\r\nb: c\r\n"),
      .file (text "f") (text "x.bin") [] (text "image/png")]).compose [] (text "b0")
    (parse form.2 (form.1.contentTypeHeader []) {}).valid = true ∧
      (parse form.2 (form.1.contentTypeHeader []) {}).fields =
        [⟨text "a", text "\r\n\r\nb: c\r\n"⟩] := by
  have hplain : ∀ s ∈ [text "a", text "f", text "x.bin"], s ≠ [] ∧ quote ∉ s ∧ cr ∉ s ∧ lf ∉ s ∧
      equals ∉ s := by decide
  have hboundary : Boundary (text "b0") := ⟨by decide, by decide +kernel⟩
  have hall : ∀ e ∈ [Entry.field (text "a") (text "\r\n\r\nb: c\r\n"),
      .file (text "f") (text "x.bin") [] (text "image/png")], e.WellFormed (text "b0") {} := by
    intro e he
    rcases mem_cons.mp he with rfl | he
    · obtain ⟨h1, h2, h3, h4, h5⟩ := hplain (text "a") (by decide)
      exact ⟨⟨h1, h2, h3, h4, h5⟩, by decide⟩
    · rw [mem_singleton.mp he]
      obtain ⟨h1, h2, h3, h4, h5⟩ := hplain (text "f") (by decide)
      obtain ⟨h6, h7, h8, h9, h10⟩ := hplain (text "x.bin") (by decide)
      exact ⟨⟨h1, h2, h3, h4, h5⟩, ⟨h6, h7, h8, h9, h10⟩, ⟨by decide, by decide,
        by decide, by decide⟩, by decide, Nat.zero_le _⟩
  have h := parse_compose _ (text "b0") [] {} hboundary hall (by decide) (by decide)
    (by decide +kernel)
  exact ⟨h.1, h.2.1⟩

end MultipartRoundTrip
