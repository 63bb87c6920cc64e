import WaveX.Http1RequestArrival
import WaveX.Http1RoundTrip

/-! # The framing of HTTP/1 requests

    Where a request ends is decided from its headers: `extract_body` takes the first
    `Transfer-Encoding` and the first `Content-Length`, looks for "chunked" anywhere in the
    one and for a number at the start of the other, and `extract_chunked_body` reads sizes
    in the same way.  A reader that goes by the whole text of the headers and of the size
    lines, as `parse_content_length` of the HTTP/3 codec does, decides otherwise about
    many requests that `parse_request` accepts.  Here it is said which of them both read
    in the same way. -/

namespace Http1Framing

open QuicVarInt HttpText Http1Codec Http1ChunkProgress Http1RequestArrival Http1RoundTrip List

/-! ## Headers -/

def comma : UInt8 := 0x2c

/-- The values of all headers with a name. -/
def values (headers : List Header) (name : String) : List Bytes :=
  (headers.filter fun h => isEqual h.1 (text name)).map Prod.snd

/-- The codings in a `Transfer-Encoding`. -/
def codings (te : Bytes) : List Bytes := ((te.splitOn comma).map stripOws).filter (· ≠ [])

/-- The last coding, in all `Transfer-Encoding` headers together. -/
def lastCoding (headers : List Header) : Option Bytes :=
  ((values headers "Transfer-Encoding").flatMap codings).getLast?

/-- The last coding is chunked, in any letter case. -/
def EndsChunked (headers : List Header) : Prop :=
  (lastCoding headers).map lower = some (text "chunked")

instance (headers : List Header) : Decidable (EndsChunked headers) :=
  inferInstanceAs (Decidable (_ = _))

/-! ## Size lines -/

/-- An extension of a size line. -/
def Extension (ext : Bytes) : Prop :=
  (ext = [] ∨ ext.head? = some semicolon) ∧ cr ∉ ext ∧ lf ∉ ext

/-- Hexadecimal digits. -/
def HexDigits (digits : Bytes) : Prop := digits ≠ [] ∧ ∀ b ∈ digits, isHexDigit b = true

/-- A size line of hexadecimal digits and an extension. -/
def StrictSize (line : Bytes) : Prop :=
  ∃ digits ext, line = digits ++ ext ∧ HexDigits digits ∧ Extension ext

/-- A line break at the cursor. -/
def BreakAt (buffer : Bytes) (c : Nat) : Prop :=
  buffer[c]? = some lf ∨ buffer[c]? = some cr ∧ buffer[c + 1]? = some lf

/-- The size line at the cursor is strict, and a line break follows the data of its chunk. -/
structure StrictAt (buffer : Bytes) (c : Nat) : Prop where
  line : ∀ line next, findNextLine buffer c = some (line, next) → StrictSize line
  data : ∀ size next, SizeLine buffer c size next → size ≠ 0 → BreakAt buffer (next + size)

/-! ## What is asked of a request -/

/-- A request whose end is the same for every reader; its body starts at the cursor. -/
structure Unambiguous (p : Bytes) (start : Nat) (req : Request) : Prop where
  single : ¬ (values req.headers "Transfer-Encoding" ≠ [] ∧ values req.headers "Content-Length" ≠ [])
  lengths : ∀ v ∈ values req.headers "Content-Length",
    v ≠ [] ∧ (∀ b ∈ v, isDigit b = true) ∧ digitsValue v = req.body.length ∧
      ∀ v' ∈ values req.headers "Content-Length", v' = v
  coding : isChunked req.headers = true ↔ EndsChunked req.headers
  chunks : isChunked req.headers = true → ∀ c, Reaches p start c → StrictAt p c

/-- A line break. -/
def LineBreak (b : Bytes) : Prop := b = [lf] ∨ b = crlf

/-- A body in chunks, by its grammar, and what follows its last size line. -/
inductive ChunkedBody : Bytes → Prop where
  | last {digits ext b rest : Bytes} (hdigits : HexDigits digits) (hext : Extension ext)
      (hzero : hexDigitsValue digits = 0) (hbreak : LineBreak b) :
      ChunkedBody (digits ++ ext ++ b ++ rest)
  | chunk {digits ext b data b' rest : Bytes} (hdigits : HexDigits digits) (hext : Extension ext)
      (hsize : hexDigitsValue digits = data.length) (hdata : data ≠ []) (hbreak : LineBreak b)
      (hbreak' : LineBreak b') (hrest : ChunkedBody rest) :
      ChunkedBody (digits ++ ext ++ b ++ (data ++ (b' ++ rest)))

/-- The framing of a request, by its headers and the text behind them: none; a length that
    `parse_content_length` accepts, as often as it is given; chunks by their grammar under a
    last coding that `extract_body` finds; or other codings, in which it finds none. -/
inductive Framing (headers : List Header) (body : Bytes) : Prop where
  | unframed (hte : values headers "Transfer-Encoding" = [])
      (hcl : values headers "Content-Length" = [])
  | sized {v : Bytes} {more : List Bytes} (hte : values headers "Transfer-Encoding" = [])
      (hcl : values headers "Content-Length" = v :: more) (hv : (parseContentLength v).isSome)
      (hmore : ∀ v' ∈ more, v' = v)
  | chunked {te : Bytes} {more : List Bytes} (hcl : values headers "Content-Length" = [])
      (hte : values headers "Transfer-Encoding" = te :: more)
      (hfound : (findText (text "chunked") te).isSome) (hlast : EndsChunked headers)
      (hbody : ChunkedBody body)
  | other {te : Bytes} {more : List Bytes} (hcl : values headers "Content-Length" = [])
      (hte : values headers "Transfer-Encoding" = te :: more)
      (hfound : findText (text "chunked") te = none) (hlast : ¬ EndsChunked headers)

/-! ## Headers that decide -/

variable {p : Bytes} {start c next n : Nat} {headers : List Header} {req : Request}

/-- The parser looks at the first value. -/
theorem getHeader_eq_head (headers : List Header) (name : String) :
    getHeader headers name = (values headers name).head? := by
  rw [getHeader, values, head?_map, head?_filter]

theorem isChunked_eq (headers : List Header) :
    isChunked headers = match values headers "Transfer-Encoding" with
      | [] => false
      | te :: _ => (findText (text "chunked") te).isSome := by
  rw [isChunked, getHeader_eq_head]
  cases values headers "Transfer-Encoding" with
  | nil => rfl
  | cons te more => rfl

theorem not_endsChunked (hte : values headers "Transfer-Encoding" = []) : ¬ EndsChunked headers := by
  rw [EndsChunked, lastCoding, hte]
  exact nofun

/-- The body has the length that the first header gives. -/
theorem extractBody_length {v : Bytes} {more : List Bytes} {body : Bytes}
    (hplain : isChunked headers = false) (hcl : values headers "Content-Length" = v :: more)
    (h : extractBody p start headers true = some (.success body n)) :
    ∃ digits, fromChars v = some (body.length, digits) := by
  have hget : getHeader headers "Content-Length" = some v := by
    rw [getHeader_eq_head, hcl]
    rfl
  rw [extractBody, hplain, if_neg Bool.false_ne_true, contentLength, hget] at h
  dsimp only at h
  split at h
  · cases h
  · rename_i len hlen
    obtain ⟨⟨value, digits⟩, hread, rfl⟩ := Option.map_eq_some_iff.mp hlen
    split at h
    · cases h
    · rename_i hroom
      obtain ⟨rfl, -⟩ := Outcome.success.inj (Option.some.inj h)
      refine ⟨digits, ?_⟩
      rw [length_take_of_le (by rw [length_drop]; exact Nat.not_lt.mp hroom)]
      exact hread

/-! ## Chunks by their grammar -/

variable {digits ext b b' rest line data : Bytes} {size : Nat}

theorem cr_not_mem_line (hdigits : HexDigits digits) (hext : Extension ext) :
    cr ∉ digits ++ ext ∧ lf ∉ digits ++ ext := by
  have hclean : isHexDigit cr = false ∧ isHexDigit lf = false := by decide
  constructor
  · intro hmem
    obtain hmem | hmem := mem_append.mp hmem
    · exact absurd (hdigits.2 cr hmem) (by rw [hclean.1]; exact Bool.false_ne_true)
    · exact hext.2.1 hmem
  · intro hmem
    obtain hmem | hmem := mem_append.mp hmem
    · exact absurd (hdigits.2 lf hmem) (by rw [hclean.2]; exact Bool.false_ne_true)
    · exact hext.2.2 hmem

/-- A strict line is found as it is written. -/
theorem findNextLine_strict (hdigits : HexDigits digits) (hext : Extension ext)
    (hbreak : LineBreak b) (hdrop : p.drop c = digits ++ ext ++ b ++ rest) :
    findNextLine p c = some (digits ++ ext, c + (digits ++ ext ++ b).length) := by
  obtain ⟨hcr, hlf⟩ := cr_not_mem_line hdigits hext
  obtain rfl | rfl := hbreak
  · have hstrip : stripCr (digits ++ ext) = digits ++ ext := by
      rw [stripCr, if_neg]
      exact fun hlast => hcr (mem_of_getLast? hlast)
    refine findNextLine_eq_some.mpr ⟨digits ++ ext, rest, ?_, hlf, hstrip.symm, ?_⟩
    · rw [hdrop, append_assoc _ [lf]]
      rfl
    · rw [length_append]
      rfl
  · exact findNextLine_crlf hdrop hlf

/-- Its size is the number that its digits spell. -/
theorem sizeLine_strict (hdigits : HexDigits digits) (hext : Extension ext) (hbreak : LineBreak b)
    (hvalue : hexDigitsValue digits = size) (hsize : size < 2 ^ 64)
    (hdrop : p.drop c = digits ++ ext ++ b ++ rest) :
    SizeLine p c size (c + (digits ++ ext ++ b).length) := by
  subst hvalue
  refine ⟨digits ++ ext, digits.length, findNextLine_strict hdigits hext hbreak hdrop, ?_⟩
  rw [sizeText_digits hdigits.2 hext.1]
  exact fromCharsHex_digits hdigits.1 hdigits.2 hsize

theorem SizeLine.unique {size' next' : Nat} (h : SizeLine p c size next)
    (h' : SizeLine p c size' next') : size = size' ∧ next = next' := by
  obtain ⟨line, digits, hfind, hread⟩ := h
  obtain ⟨line', digits', hfind', hread'⟩ := h'
  obtain ⟨rfl, rfl⟩ := Prod.mk.inj (Option.some.inj (hfind.symm.trans hfind'))
  exact ⟨(Prod.mk.inj (Option.some.inj (hread.symm.trans hread'))).1, rfl⟩

/-- A line break that is there is skipped. -/
theorem skipLineBreak_lineBreak (hbreak : LineBreak b) (hdrop : p.drop c = b ++ rest) :
    BreakAt p c ∧ skipLineBreak p c = c + b.length := by
  obtain rfl | rfl := hbreak
  · have hfirst : p[c]? = some lf := by
      rw [← head?_drop, hdrop]
      rfl
    have hother : ¬ p[c]? = some cr := by
      rw [hfirst]
      decide
    refine ⟨.inl hfirst, ?_⟩
    rw [skipLineBreak, if_neg hother, if_pos hfirst]
    rfl
  · have hfirst : p[c]? = some cr := by
      rw [← head?_drop, hdrop]
      rfl
    have hsecond : p[c + 1]? = some lf := by
      rw [← head?_drop, ← drop_drop, hdrop]
      rfl
    refine ⟨.inr ⟨hfirst, hsecond⟩, ?_⟩
    rw [skipLineBreak, if_pos hfirst, if_pos hsecond]
    rfl

/-- The line break at the cursor, and what follows it. -/
theorem BreakAt.lineBreak (h : BreakAt p c) :
    ∃ b, LineBreak b ∧ p.drop c = b ++ p.drop (skipLineBreak p c) := by
  obtain hlf | ⟨hcr, hlf⟩ := h
  · obtain ⟨hc, hget⟩ := List.getElem?_eq_some_iff.mp hlf
    have hdrop : p.drop c = [lf] ++ p.drop (c + 1) := by
      rw [drop_eq_getElem_cons hc, hget]
      rfl
    refine ⟨[lf], .inl rfl, ?_⟩
    rw [(skipLineBreak_lineBreak (.inl rfl) hdrop).2]
    exact hdrop
  · obtain ⟨hc, hget⟩ := List.getElem?_eq_some_iff.mp hcr
    obtain ⟨hc', hget'⟩ := List.getElem?_eq_some_iff.mp hlf
    have hdrop : p.drop c = crlf ++ p.drop (c + 2) := by
      rw [drop_eq_getElem_cons hc, drop_eq_getElem_cons hc', hget, hget']
      rfl
    refine ⟨crlf, .inr rfl, ?_⟩
    rw [(skipLineBreak_lineBreak (.inr rfl) hdrop).2]
    exact hdrop

/-- A line ends with a line break. -/
theorem findNextLine_lineBreak (h : findNextLine p c = some (line, next)) :
    ∃ b, LineBreak b ∧ p.drop c = line ++ b ++ p.drop next := by
  obtain ⟨raw, rest, hdrop, -, rfl, rfl⟩ := findNextLine_eq_some.mp h
  have hrest : p.drop (c + raw.length + 1) = rest := by
    rw [Nat.add_assoc, ← drop_drop, hdrop, append_cons]
    exact drop_left' (by rw [length_append]; rfl)
  rw [hrest, hdrop, stripCr]
  split
  · rename_i hlast
    refine ⟨crlf, .inr rfl, ?_⟩
    rw [← dropLast_append_getLast? cr hlast]
    simp only [dropLast_concat, crlf, append_assoc, cons_append, nil_append]
  · exact ⟨[lf], .inl rfl, by rw [append_assoc]; rfl⟩

/-- The digits of a strict line spell its size. -/
theorem sizeLine_digits (hdigits : HexDigits digits) (hext : Extension ext)
    (hfind : findNextLine p c = some (digits ++ ext, next)) (h : SizeLine p c size n) :
    hexDigitsValue digits = size ∧ next = n := by
  obtain ⟨line, count, hfind', hread⟩ := h
  obtain ⟨rfl, rfl⟩ := Prod.mk.inj (Option.some.inj (hfind.symm.trans hfind'))
  have hall : digits.takeWhile isHexDigit = digits := takeWhile_eq_self_iff.mpr hdigits.2
  rw [sizeText_digits hdigits.2 hext.1, fromCharsHex, hall] at hread
  split at hread
  · cases hread
  · exact ⟨(Prod.mk.inj (Option.some.inj hread)).1, rfl⟩

/-- Where every size line is strict up to the last one, the body follows the grammar. -/
theorem chunkedBody_of_strict (hsize : p.length < 2 ^ 64) (hlast : LastChunk p start c next)
    (hstrict : ∀ c, Reaches p start c → StrictAt p c) : ChunkedBody (p.drop start) := by
  obtain ⟨hreach, -, hturn⟩ := hlast
  induction hreach using Relation.ReflTransGen.head_induction_on with
  | refl =>
    obtain ⟨line, count, hfind, hread⟩ := chunkTurn_eq_last.mp hturn
    obtain ⟨digits, ext, rfl, hdigits, hext⟩ := (hstrict c .refl).line line next hfind
    obtain ⟨b, hbreak, hdrop⟩ := findNextLine_lineBreak hfind
    rw [hdrop]
    exact .last hdigits hext (sizeLine_digits hdigits hext hfind ⟨_, count, hfind, hread⟩).1 hbreak
  | @head c₀ c₁ hiter hrest ih =>
    have hmore := ih fun d hd => hstrict d (.head hiter hd)
    have hhere := hstrict c₀ .refl
    obtain hblank | ⟨data, hchunk⟩ := next?_eq_some hiter.2
    · -- a line that is skipped has no digits
      obtain ⟨line, hfind, hempty⟩ := chunkTurn_eq_blank.mp hblank
      obtain ⟨digits, ext, rfl, hdigits, hext⟩ := hhere.line line c₁ hfind
      rw [sizeText_digits hdigits.2 hext.1] at hempty
      exact absurd hempty hdigits.1
    · obtain ⟨size, next, hline, hne, -, -, hend⟩ := chunkTurn_eq_chunk.mp hchunk
      have hbreakAt := hhere.data size next hline hne
      obtain ⟨line, count, hfind, hread⟩ := hline
      obtain ⟨digits, ext, rfl, hdigits, hext⟩ := hhere.line line next hfind
      obtain ⟨b, hbreak, hdrop⟩ := findNextLine_lineBreak hfind
      obtain ⟨b', hbreak', hdrop'⟩ := hbreakAt.lineBreak
      have hbound : next + size < p.length := by
        obtain hlf | ⟨hcr, -⟩ := hbreakAt
        · exact (List.getElem?_eq_some_iff.mp hlf).1
        · exact (List.getElem?_eq_some_iff.mp hcr).1
      have hfits : chunkEnd next size = next + size := Nat.mod_eq_of_lt (by omega)
      have hdata : ((p.drop next).take size).length = size :=
        length_take_of_le (by rw [length_drop]; omega)
      have hparts : p.drop next = (p.drop next).take size ++ (b' ++ p.drop c₁) := by
        rw [hend, hfits, ← hdrop', ← drop_drop, take_append_drop]
      rw [hdrop, hparts]
      refine .chunk hdigits hext ?_ ?_ hbreak hbreak' hmore
      · rw [hdata]
        exact (sizeLine_digits hdigits hext hfind ⟨_, count, hfind, hread⟩).1
      · intro hnil
        rw [hnil, length_nil] at hdata
        exact hne hdata.symm

theorem strictAt_of_sizeLine (hdigits : HexDigits digits) (hext : Extension ext)
    (hfind : findNextLine p c = some (digits ++ ext, next)) (hline : SizeLine p c size next)
    (hbreak : size ≠ 0 → BreakAt p (next + size)) : StrictAt p c where
  line line' next' hfind' := by
    obtain ⟨rfl, -⟩ := Prod.mk.inj (Option.some.inj (hfind.symm.trans hfind'))
    exact ⟨digits, ext, rfl, hdigits, hext⟩
  data size' next' hline' hne := by
    obtain ⟨rfl, rfl⟩ := SizeLine.unique hline hline'
    exact hbreak hne

/-- Where the body follows the grammar, every size line the parser comes to is strict. -/
theorem strict_of_chunkedBody {body : Bytes} (hsize : p.length < 2 ^ 64) (h : ChunkedBody body)
    (hdrop : p.drop start = body) : ∀ c, Reaches p start c → StrictAt p c := by
  induction h generalizing start with
  | last hdigits hext hzero hbreak =>
    intro c hreach
    have hfind := findNextLine_strict hdigits hext hbreak hdrop
    have hline := sizeLine_strict hdigits hext hbreak hzero (Nat.two_pow_pos 64) hdrop
    obtain rfl | ⟨c', hiter, -⟩ := Relation.ReflTransGen.cases_head hreach
    · exact strictAt_of_sizeLine hdigits hext hfind hline fun hne => absurd rfl hne
    · have hnext := hiter.2
      rw [chunkTurn_eq_last.mpr hline] at hnext
      cases hnext
  | @chunk digits ext b data b' rest hdigits hext hvalue hdata hbreak hbreak' hrest ih =>
    intro c hreach
    have hlength : p.length - start =
        (digits ++ ext ++ b).length + (data.length + (b'.length + rest.length)) := by
      rw [← length_drop, hdrop]
      simp only [length_append]
    have hfind := findNextLine_strict hdigits hext hbreak hdrop
    have hline := sizeLine_strict hdigits hext hbreak hvalue (by omega) hdrop
    have hdata' := drop_of_append hdrop
    have hbehind := drop_of_append hdata'
    have hrest' := drop_of_append hbehind
    obtain ⟨hbreakAt, hskip⟩ := skipLineBreak_lineBreak hbreak' hbehind
    have hne : data.length ≠ 0 := fun hzero => hdata (eq_nil_of_length_eq_zero hzero)
    have hroom : start + (digits ++ ext ++ b).length + data.length ≤ p.length := by omega
    have hend : chunkEnd (start + (digits ++ ext ++ b).length) data.length =
        start + (digits ++ ext ++ b).length + data.length := Nat.mod_eq_of_lt (by omega)
    have hturn := chunkTurn_eq_chunk.mpr
      ⟨data.length, _, hline, hne, hend.trans_le hroom, rfl, rfl⟩
    rw [hend, hskip] at hturn
    obtain rfl | ⟨c', hiter, hmore⟩ := Relation.ReflTransGen.cases_head hreach
    · exact strictAt_of_sizeLine hdigits hext hfind hline fun _ => hbreakAt
    · have hnext := hiter.2
      rw [hturn] at hnext
      obtain rfl := Option.some.inj hnext
      exact ih hrest' c hmore

/-! ## Requests that are read in one way -/

/-- The framing of a request that every reader ends in the same place. -/
theorem Unambiguous.framing (hsize : p.length < 2 ^ 64)
    (hbody : extractBody p start req.headers true = some (.success req.body n))
    (h : Unambiguous p start req) : Framing req.headers (p.drop start) := by
  have hchunkedEq := isChunked_eq req.headers
  cases hte : values req.headers "Transfer-Encoding" with
  | nil =>
    rw [hte] at hchunkedEq
    cases hcl : values req.headers "Content-Length" with
    | nil => exact .unframed hte hcl
    | cons v more =>
      have hlengths := h.lengths
      rw [hcl] at hlengths
      obtain ⟨hne, hdigits, hvalue, hsame⟩ := hlengths v mem_cons_self
      obtain ⟨count, hread⟩ := extractBody_length hchunkedEq hcl hbody
      have hsmall : req.body.length < 2 ^ 64 := fromChars_lt hread
      have haccepted := parseContentLength_eq_some.mpr ⟨hne, hdigits, hvalue, hsmall⟩
      exact .sized hte hcl (by rw [haccepted]; rfl)
        fun v' hv' => hsame v' (mem_cons_of_mem v hv')
  | cons te more =>
    rw [hte] at hchunkedEq
    have hcl : values req.headers "Content-Length" = [] := by
      by_contra hne
      exact h.single ⟨by rw [hte]; exact cons_ne_nil te more, hne⟩
    by_cases hfound : (findText (text "chunked") te).isSome = true
    · have hchunked : isChunked req.headers = true := hchunkedEq.trans hfound
      rw [extractBody_chunked hchunked] at hbody
      obtain ⟨c, last, hlast⟩ := extract_lastChunk hbody
      exact .chunked hcl hte hfound (h.coding.mp hchunked)
        (chunkedBody_of_strict hsize hlast (h.chunks hchunked))
    · refine .other hcl hte (Option.not_isSome_iff_eq_none.mp hfound) fun hlast => hfound ?_
      exact hchunkedEq.symm.trans (h.coding.mpr hlast)

/-- A request with such a framing is one that every reader ends in the same place. -/
theorem Framing.unambiguous (hsize : p.length < 2 ^ 64)
    (hbody : extractBody p start req.headers true = some (.success req.body n))
    (h : Framing req.headers (p.drop start)) : Unambiguous p start req := by
  have hchunkedEq := isChunked_eq req.headers
  cases h with
  | unframed hte hcl =>
    rw [hte] at hchunkedEq
    refine ⟨fun hboth => hboth.1 hte, fun v hv => ?_, ?_, fun hchunked => ?_⟩
    · rw [hcl] at hv
      cases hv
    · exact iff_of_false (by rw [hchunkedEq]; exact Bool.false_ne_true) (not_endsChunked hte)
    · exact absurd (hchunkedEq.symm.trans hchunked) Bool.false_ne_true
  | @sized v more hte hcl hv hmore =>
    rw [hte] at hchunkedEq
    obtain ⟨value, haccepted⟩ := Option.isSome_iff_exists.mp hv
    obtain ⟨hne, hdigits, rfl, -⟩ := parseContentLength_eq_some.mp haccepted
    have hvalue : digitsValue v = req.body.length := by
      obtain ⟨count, hread⟩ := extractBody_length hchunkedEq hcl hbody
      rw [parseContentLength, hread] at haccepted
      dsimp only at haccepted
      split at haccepted
      · exact (Option.some.inj haccepted).symm
      · cases haccepted
    have hall : ∀ v' ∈ values req.headers "Content-Length", v' = v := by
      rw [hcl]
      exact forall_mem_cons.mpr ⟨rfl, hmore⟩
    refine ⟨fun hboth => hboth.1 hte, fun v' hv' => ?_, ?_, fun hchunked => ?_⟩
    · rw [hall v' hv']
      exact ⟨hne, hdigits, hvalue, hall⟩
    · exact iff_of_false (by rw [hchunkedEq]; exact Bool.false_ne_true) (not_endsChunked hte)
    · exact absurd (hchunkedEq.symm.trans hchunked) Bool.false_ne_true
  | @chunked te more hcl hte hfound hlast hgrammar =>
    rw [hte] at hchunkedEq
    refine ⟨fun hboth => hboth.2 hcl, fun v hv => ?_, ?_, fun _ => ?_⟩
    · rw [hcl] at hv
      cases hv
    · exact iff_of_true (hchunkedEq.trans hfound) hlast
    · exact strict_of_chunkedBody hsize hgrammar rfl
  | @other te more hcl hte hfound hlast =>
    rw [hte] at hchunkedEq
    have hplain : isChunked req.headers = false := by
      rw [hchunkedEq]
      dsimp only
      rw [hfound]
      rfl
    refine ⟨fun hboth => hboth.2 hcl, fun v hv => ?_, ?_, fun hchunked => ?_⟩
    · rw [hcl] at hv
      cases hv
    · exact iff_of_false (by rw [hplain]; exact Bool.false_ne_true) hlast
    · exact absurd (hplain.symm.trans hchunked) Bool.false_ne_true

/-- **Unambiguous framing.**  A request that `parse_request` accepts, with its body at
    `start`, is one that every reader ends in the same place exactly when it has no framing
    headers, one length that the strict reading accepts, or codings alone, in which both
    readings find chunks by the grammar or no chunks. -/
theorem framing_unambiguous_iff {rl : Bytes} (hsize : p.length < 2 ^ 64)
    (h : parseRequest p = some (.success req n)) (hfind : findNextLine p 0 = some (rl, next))
    (hheaders : HeadersAt p next req.headers start) :
    Unambiguous p start req ↔ Framing req.headers (p.drop start) := by
  obtain ⟨rl', next', start', hfind', -, hheaders', hbody⟩ := parseRequest_eq_success.mp h
  obtain ⟨rfl, rfl⟩ := Prod.mk.inj (Option.some.inj (hfind.symm.trans hfind'))
  obtain ⟨-, rfl⟩ := hheaders.unique hheaders'
  exact ⟨fun hone => hone.framing hsize hbody, fun hframing => hframing.unambiguous hsize hbody⟩

/-- A request in chunks under two codings, with an extension. -/
def gzipChunked : Bytes :=
  text "PUT / HTTP/1.1\r\nTransfer-Encoding: gzip, chunked\r\n\r\n2;a=b\r\nhi\r\n0\r\n\r\n"

theorem gzipChunked_body :
    ChunkedBody (text "2" ++ text ";a=b" ++ crlf ++
      (text "hi" ++ (crlf ++ (text "0" ++ [] ++ crlf ++ crlf)))) := by
  have hzero : ChunkedBody (text "0" ++ [] ++ crlf ++ crlf) := by
    refine .last ⟨by decide, by decide +kernel⟩ ⟨.inl rfl, nofun, nofun⟩ ?_ (.inr rfl)
    decide
  refine .chunk ⟨by decide, by decide +kernel⟩ ⟨.inr rfl, ?_, ?_⟩ ?_ ?_ (.inr rfl) (.inr rfl)
    hzero
  · decide
  · decide
  · decide
  · decide

theorem framing_unambiguous_gzipChunked :
    Unambiguous gzipChunked 52
      { method := .put, target := text "/"
        headers := [(text "Transfer-Encoding", text "gzip, chunked")]
        body := text "2;a=b\r\nhi\r\n0\r\n\r\n" } := by
  have hparse : parseRequest gzipChunked = some (.success
      { method := .put, target := text "/"
        headers := [(text "Transfer-Encoding", text "gzip, chunked")]
        body := text "2;a=b\r\nhi\r\n0\r\n\r\n" } 68) := by decide
  have hline : findNextLine gzipChunked 0 = some (text "PUT / HTTP/1.1", 16) := by decide
  have hheaders : parseHeaders gzipChunked 16 =
      .success [(text "Transfer-Encoding", text "gzip, chunked")] 52 := by decide
  have hte : values [(text "Transfer-Encoding", text "gzip, chunked")] "Transfer-Encoding" =
      [text "gzip, chunked"] := by decide
  have hcl : values [(text "Transfer-Encoding", text "gzip, chunked")] "Content-Length" = [] := by
    decide
  exact (framing_unambiguous_iff (by decide) hparse hline
    (parseHeaders_eq_success.mp hheaders)).mpr
    (.chunked hcl hte (by decide) (by decide) gzipChunked_body)

/-- Requests that are accepted although another reader ends them elsewhere: with both
    headers, with a length that has a suffix, and with a coding in capital letters. -/
theorem ambiguous_requests_accepted :
    (∃ req n, parseRequest (text "PUT / HTTP/1.1\r\nContent-Length: 3\r\n" ++
          text "Transfer-Encoding: chunked\r\n\r\n0\r\n\r\n") = some (.success req n) ∧
        ∀ p start, ¬ Unambiguous p start req) ∧
      (∃ req n, parseRequest (text "PUT / HTTP/1.1\r\nContent-Length: 5x\r\n\r\nhello") =
          some (.success req n) ∧ ∀ p start, ¬ Unambiguous p start req) ∧
      ∃ req n, parseRequest (text "PUT / HTTP/1.1\r\nTransfer-Encoding: Chunked\r\n\r\n") =
          some (.success req n) ∧ ∀ p start, ¬ Unambiguous p start req := by
  refine ⟨⟨{ method := .put, target := text "/", headers := [(text "Content-Length", text "3"),
      (text "Transfer-Encoding", text "chunked")], body := text "0\r\n\r\n" }, 70,
      by decide, fun p start h => h.single (by decide)⟩,
    ⟨{ method := .put, target := text "/", headers := [(text "Content-Length", text "5x")]
       body := text "hello" }, 43, by decide, fun p start h => ?_⟩,
    ⟨{ method := .put, target := text "/"
       headers := [(text "Transfer-Encoding", text "Chunked")] }, 46, by decide,
      fun p start h => ?_⟩⟩
  · obtain ⟨-, hdigits, -⟩ := h.lengths (text "5x") (by decide)
    exact absurd hdigits (by decide +kernel)
  · exact absurd (h.coding.mpr (by decide)) (by decide)

end Http1Framing
