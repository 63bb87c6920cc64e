import WaveX.HeaderStrings

/-! # HPACK round trip

    The encoder of `http2::hpack` (`include/wavex/protos/http/http2codec.hpp`) and its
    meaning: whatever the dynamic table of the reader, a block decodes to the
    pseudo-headers and then the regular headers.  The encoder writes three of the
    representations only: indexed fields of the static table, and literals without
    indexing with a static or a new name.  None of them touches the dynamic table. -/

namespace HpackRoundTrip

open QuicVarInt HttpText Hpack HeaderStrings List

/-! ## The encoder -/

/-- `find_static`: index 0 when no entry has the name. -/
def findStatic (name value : Bytes) : Nat × Bool :=
  searchStatic 0 name value 1 0 (staticTable.drop 1)

/-- An indexed field: `1xxxxxxx`. -/
def encodeIndexed (idx : Nat) : Bytes := encodeInteger idx 7 0x80

/-- A literal without indexing, with an indexed name: `0000xxxx`. -/
def encodeNamed (idx : Nat) (value : Bytes) : Bytes :=
  encodeInteger idx 4 0x00 ++ encodeString value

/-- A literal without indexing, with a literal name. -/
def encodeLiteral (name value : Bytes) : Bytes :=
  encodeInteger 0 4 0x00 ++ encodeString name ++ encodeString value

/-- A field in the shortest representation there is for it. -/
def encodeField (name value : Bytes) : Bytes :=
  match findStatic name value with
  | (idx, true) => encodeIndexed idx
  | (idx, false) => if idx > 0 then encodeNamed idx value else encodeLiteral name value

/-- A field whose name the static table has at `nameIdx`. -/
def encodeKnown (name : Bytes) (nameIdx : Nat) (value : Bytes) : Bytes :=
  match findStatic name value with
  | (idx, true) => encodeIndexed idx
  | (_, false) => encodeNamed nameIdx value

/-- The `:path` field. -/
def encodePath (path : Bytes) : Bytes :=
  if path = text "/" then encodeIndexed 4
  else if path = text "/index.html" then encodeIndexed 5
  else encodeNamed 4 path

/-- The regular headers of a list. -/
def encodeHeaders (headers : List Field) : Bytes :=
  headers.flatMap fun h => if isPseudo h.1 then [] else encodeField (lower h.1) h.2

/-- `encode_request_headers`. -/
def encodeRequestHeaders (m : Method) (target scheme authority : Bytes) (headers : List Field) :
    Bytes :=
  encodeField (text ":method") m.name ++
    encodeKnown (text ":scheme") 6 (orDefault scheme "https") ++
    encodePath (orDefault target "/") ++
    (if authority = [] then [] else encodeNamed 1 authority) ++
    encodeHeaders headers

/-- `encode_response_headers`. -/
def encodeResponseHeaders (statusCode : Nat) (headers : List Field) : Bytes :=
  encodeKnown (text ":status") 8 (decimal statusCode) ++ encodeHeaders headers

/-! ## What a block stands for -/

/-- The fields of a request. -/
def requestFields (m : Method) (target scheme authority : Bytes) (headers : List Field) :
    List Field :=
  [(text ":method", m.name), (text ":scheme", orDefault scheme "https"),
    (text ":path", orDefault target "/")] ++
    (if authority = [] then [] else [(text ":authority", authority)]) ++ regularFields headers

/-- The fields of a response. -/
def responseFields (statusCode : Nat) (headers : List Field) : List Field :=
  (text ":status", decimal statusCode) :: regularFields headers

/-- Bytes that one round of the decoder reads as a field, wherever they stand and
    whatever the dynamic table, which they leave as it is. -/
structure Represents (rep : Bytes) (f : Field) : Prop where
  nonempty : rep ≠ []
  decodes : ∀ (input : Bytes) (c : Nat) (t : DynamicTable) (rest : Bytes),
    input.length < 2 ^ 64 → At input c (rep ++ rest) →
      ∃ b tail, input.drop c = b :: tail ∧
        decodeRound input c t b.toNat = some ⟨some f, t, c + rep.length⟩

/-- Bytes that the decoder reads as a list of fields. -/
def Spells (block : Bytes) (fields : List Field) : Prop :=
  ∃ reps, block = reps.flatten ∧ List.Forall₂ Represents reps fields

theorem Spells.nil : Spells [] [] := ⟨[], rfl, .nil⟩

theorem Represents.spells {rep : Bytes} {f : Field} (h : Represents rep f) : Spells rep [f] :=
  ⟨[rep], (append_nil rep).symm, .cons h .nil⟩

/-- Blocks in a row spell their fields in a row. -/
theorem Spells.append {a b : Bytes} {fs gs : List Field} (ha : Spells a fs) (hb : Spells b gs) :
    Spells (a ++ b) (fs ++ gs) := by
  obtain ⟨reps, rfl, hreps⟩ := ha
  obtain ⟨reps', rfl, hreps'⟩ := hb
  exact ⟨reps ++ reps', flatten_append.symm, rel_append hreps hreps'⟩

/-! ## The loop of the decoder -/

theorem overLimit_zero (headers : List Field) : overLimit 0 headers = false := by
  simp [overLimit]

variable {cap : Nat}

/-- A list within the cap has every part of it within the cap. -/
theorem overLimit_append {a b : List Field} (h : overLimit cap (a ++ b) = false) :
    overLimit cap a = false := by
  rw [overLimit, decide_eq_false_iff_not] at h ⊢
  rw [map_append, sum_append] at h
  intro hover
  exact h ⟨hover.1, by omega⟩

variable {t : DynamicTable}

variable {fields : List Field}

/-- The loop reads representations in a row. -/
theorem decodeLoop_represents {input : Bytes} (hsize : input.length < 2 ^ 64) {reps : List Bytes}
    (h : List.Forall₂ Represents reps fields) {c fuel : Nat} {headers : List Field}
    (hat : At input c reps.flatten) (hfuel : reps.length < fuel)
    (hlimit : overLimit cap (headers ++ fields) = false) :
    decodeLoop cap input fuel c t headers = some ⟨true, false, headers ++ fields, t⟩ := by
  have hunder := overLimit_append hlimit
  induction h generalizing c fuel headers with
  | nil =>
    obtain ⟨fuel, rfl⟩ := Nat.exists_eq_add_of_lt hfuel
    rw [length_nil, Nat.zero_add, decodeLoop, hat.drop, append_nil]
    simp only [flatten_nil, hunder, Bool.not_false]
  | @cons rep f reps fields hrep _ ih =>
    obtain ⟨fuel, rfl⟩ := Nat.exists_eq_add_of_lt hfuel
    rw [length_cons] at hfuel ⊢
    rw [flatten_cons] at hat
    rw [← singleton_append, ← append_assoc] at hlimit ⊢
    obtain ⟨b, tail, hdrop, hround⟩ := hrep.decodes input c t _ hsize hat
    rw [decodeLoop, hdrop]
    simp only [hunder, hround, Bool.false_eq_true, if_false, Option.toList_some]
    exact ih hat.advance (by omega) hlimit (overLimit_append hlimit)

/-- A block that spells a list of fields within the cap decodes to it. -/
theorem Spells.decodeHeaderBlock {block : Bytes} (h : Spells block fields)
    (hsize : block.length < 2 ^ 64) (t : DynamicTable) (hlimit : overLimit cap fields = false) :
    decodeHeaderBlock cap block t = ⟨true, false, fields, t⟩ := by
  obtain ⟨reps, rfl, hreps⟩ := h
  have hfuel : reps.length < roundLimit cap reps.flatten := by
    have hle := length_le_flatten Represents.nonempty hreps
    have hone : 1 * (reps.flatten.length + 1) ≤ (cap / 32 + 2) * (reps.flatten.length + 1) :=
      Nat.mul_le_mul_right _ (by omega)
    rw [roundLimit]
    omega
  rw [Hpack.decodeHeaderBlock, decodeLoop_represents hsize hreps (At.start _) hfuel hlimit,
    nil_append]
  rfl

/-! ## Blocks that are refused -/

/-- The decoder stops with a failure: at the cap, or at bytes it cannot read. -/
def Fails (run : Option Decoded) : Prop := ∃ d, run = some d ∧ d.ok = false

/-- After representations it can read, the decoder fails beyond the cap. -/
theorem decodeLoop_overLimit {input : Bytes} (hsize : input.length < 2 ^ 64) {reps : List Bytes}
    (h : List.Forall₂ Represents reps fields) {c fuel : Nat} {headers : List Field}
    (hat : At input c reps.flatten) (hfuel : reps.length < fuel)
    (hlimit : overLimit cap (headers ++ fields) = true) :
    Fails (decodeLoop cap input fuel c t headers) := by
  induction h generalizing c fuel headers with
  | nil =>
    obtain ⟨fuel, rfl⟩ := Nat.exists_eq_add_of_lt hfuel
    rw [append_nil] at hlimit
    rw [length_nil, Nat.zero_add, decodeLoop, hat.drop]
    exact ⟨_, rfl, by rw [hlimit]; rfl⟩
  | @cons rep f reps fields hrep _ ih =>
    obtain ⟨fuel, rfl⟩ := Nat.exists_eq_add_of_lt hfuel
    rw [length_cons] at hfuel ⊢
    rw [flatten_cons] at hat
    rw [← singleton_append, ← append_assoc] at hlimit
    obtain ⟨b, tail, hdrop, hround⟩ := hrep.decodes input c t _ hsize hat
    rw [decodeLoop, hdrop]
    dsimp only
    split
    · exact ⟨_, rfl, rfl⟩
    · simp only [hround, Option.toList_some]
      exact ih hat.advance (by omega) hlimit

/-- After representations it can read, the decoder fails at bytes it cannot. -/
theorem decodeLoop_refused {input : Bytes} (hsize : input.length < 2 ^ 64) {reps : List Bytes}
    (h : List.Forall₂ Represents reps fields) {part : Bytes} (hpart : part ≠ [])
    (hrefused : ∀ c b tail, At input c part → input.drop c = b :: tail →
      decodeRound input c t b.toNat = none) {c fuel : Nat} {headers : List Field}
    (hat : At input c (reps.flatten ++ part)) (hfuel : reps.length < fuel) :
    Fails (decodeLoop cap input fuel c t headers) := by
  induction h generalizing c fuel headers with
  | nil =>
    obtain ⟨fuel, rfl⟩ := Nat.exists_eq_add_of_lt hfuel
    rw [flatten_nil, nil_append] at hat
    obtain ⟨b, tail, rfl⟩ := exists_cons_of_ne_nil hpart
    rw [length_nil, Nat.zero_add, decodeLoop, hat.drop]
    dsimp only
    split
    · exact ⟨_, rfl, rfl⟩
    · rw [hrefused c b tail hat hat.drop]
      exact ⟨_, rfl, rfl⟩
  | @cons rep f reps fields hrep _ ih =>
    obtain ⟨fuel, rfl⟩ := Nat.exists_eq_add_of_lt hfuel
    rw [length_cons] at hfuel ⊢
    rw [flatten_cons, append_assoc] at hat
    obtain ⟨b, tail, hdrop, hround⟩ := hrep.decodes input c t _ hsize hat
    rw [decodeLoop, hdrop]
    dsimp only
    split
    · exact ⟨_, rfl, rfl⟩
    · simp only [hround, Option.toList_some]
      exact ih hat.advance (by omega)

theorem Fails.decodeHeaderBlock {block : Bytes}
    (h : Fails (decodeLoop cap block (roundLimit cap block) 0 t [])) :
    (decodeHeaderBlock cap block t).ok = false := by
  obtain ⟨d, hd, hok⟩ := h
  rw [Hpack.decodeHeaderBlock, hd]
  exact hok

/-- A literal field that breaks off is refused. -/
theorem decodeRound_cut {input part name value : Bytes} {c : Nat}
    (hcut : Cut part (encodeLiteral name value))
    (hsize : c + (encodeLiteral name value).length < 2 ^ 64) (hat : At input c part) {b : UInt8}
    {tail : Bytes} (hdrop : input.drop c = b :: tail) :
    decodeRound input c t b.toNat = none := by
  have hfits : PrefixFits 4 0 := by decide
  rw [encodeLiteral, append_assoc] at hcut hsize
  have hflag := first_of_cut hfits hat hcut hdrop
  have hinput : input.length < 2 ^ 64 := by
    have hshort := hcut.2
    have hlength := hat.length
    omega
  have hliteral : Hpack.decodeLiteral input c 4 t = none := by
    rw [length_append, length_append] at hsize
    rw [Hpack.decodeLiteral]
    obtain hinteger | ⟨part', rfl, hrest⟩ := hcut.append
    · rw [decodeInteger_cut hfits hinteger hat.drop]
      rfl
    rw [decodeInteger_encode hfits (by decide) hat]
    simp only [Option.bind_eq_bind, Option.bind_some, if_true]
    obtain hname | ⟨part'', rfl, hvalue⟩ := hrest.append
    · rw [decodeString_cut hat.advance hname (by omega)]
      rfl
    rw [decodeString_encode hinput hat.advance]
    simp only [Option.bind_some]
    rw [decodeString_cut hat.advance.advance hvalue (by omega)]
    rfl
  rw [decodeRound, hflag 0x80 (by decide), hflag 0x40 (by decide), hflag 0x20 (by decide),
    if_neg (by decide), if_neg (by decide), if_neg (by decide), hliteral]
  rfl

/-! ## The representations -/

/-- Names of the static table are in lower case, and not empty. -/
theorem staticTable_names :
    ∀ e ∈ staticTable.drop 1, lower (text e.1) = text e.1 ∧ text e.1 ≠ [] := by
  decide

variable {e : String × String}

theorem lookupIndex_static {idx : Nat} (hidx : 1 ≤ idx) (he : staticTable[idx]? = some e)
    (t : DynamicTable) :
    lookupIndex t idx = (text e.1, text e.2) ∧ lower (text e.1) = text e.1 ∧ text e.1 ≠ [] := by
  have hmem : e ∈ staticTable.drop 1 := by
    have hdrop : (staticTable.drop 1)[idx - 1]? = some e := by
      rw [getElem?_drop, Nat.add_sub_cancel' hidx]
      exact he
    exact mem_of_getElem? hdrop
  rw [lookupIndex, if_neg (by omega), he]
  exact ⟨rfl, staticTable_names e hmem⟩

theorem static_lt {idx : Nat} (he : staticTable[idx]? = some e) :
    idx < 2 ^ 64 := by
  have hlt := (List.getElem?_eq_some_iff.mp he).1
  exact Nat.lt_trans hlt (by decide)

theorem encodeIndexed_represents {idx : Nat} (hidx : 1 ≤ idx) (he : staticTable[idx]? = some e) :
    Represents (encodeIndexed idx) (text e.1, text e.2) := by
  have hfits : PrefixFits 7 0x80 := by decide
  constructor
  · obtain ⟨tail, hfirst⟩ := encodeInteger_first idx 7 0x80
    rw [encodeIndexed, hfirst]
    exact cons_ne_nil _ _
  · intro input c t rest _ hat
    obtain ⟨b, tail, hdrop, hflag⟩ := hat.first hfits
    obtain ⟨hlookup, -, hname⟩ := lookupIndex_static hidx he t
    refine ⟨b, tail, hdrop, ?_⟩
    rw [decodeRound, hflag 0x80 (by decide), if_pos (by decide),
      decodeInteger_encode hfits (static_lt he) hat]
    simp only [Option.bind_eq_bind, Option.bind_some, hlookup, if_neg hname]
    rfl

/-- A literal without indexing is read by its fourth branch. -/
theorem decodeRound_literal {input : Bytes} {c cursor : Nat} {f : Field} {b : UInt8}
    (hflag : ∀ k, k % 2 ^ 4 = 0 → b.toNat &&& k = 0 &&& k)
    (hliteral : Hpack.decodeLiteral input c 4 t = some (f, cursor)) :
    decodeRound input c t b.toNat = some ⟨some f, t, cursor⟩ := by
  rw [decodeRound, hflag 0x80 (by decide), hflag 0x40 (by decide), hflag 0x20 (by decide),
    if_neg (by decide), if_neg (by decide), if_neg (by decide), hliteral]
  rfl

theorem encodeNamed_represents {idx : Nat} (hidx : 1 ≤ idx) (he : staticTable[idx]? = some e)
    (value : Bytes) :
    Represents (encodeNamed idx value) (text e.1, value) := by
  have hfits : PrefixFits 4 0 := by decide
  constructor
  · obtain ⟨tail, hfirst⟩ := encodeInteger_first idx 4 0
    rw [encodeNamed, hfirst]
    exact cons_ne_nil _ _
  · intro input c t rest hsize hat
    rw [encodeNamed, append_assoc] at hat
    obtain ⟨b, tail, hdrop, hflag⟩ := hat.first hfits
    obtain ⟨hlookup, -, hname⟩ := lookupIndex_static hidx he t
    refine ⟨b, tail, hdrop, decodeRound_literal hflag ?_⟩
    rw [Hpack.decodeLiteral, decodeInteger_encode hfits (static_lt he) hat]
    simp only [Option.bind_eq_bind, Option.bind_some, hlookup, if_neg hname,
      if_neg (Nat.ne_of_gt hidx), decodeString_encode hsize hat.advance]
    rw [encodeNamed, length_append, Nat.add_assoc]

theorem encodeLiteral_represents (name value : Bytes) :
    Represents (encodeLiteral name value) (name, value) := by
  have hfits : PrefixFits 4 0 := by decide
  constructor
  · obtain ⟨tail, hfirst⟩ := encodeInteger_first 0 4 0
    rw [encodeLiteral, hfirst]
    exact cons_ne_nil _ _
  · intro input c t rest hsize hat
    rw [encodeLiteral, append_assoc, append_assoc] at hat
    obtain ⟨b, tail, hdrop, hflag⟩ := hat.first hfits
    refine ⟨b, tail, hdrop, decodeRound_literal hflag ?_⟩
    rw [Hpack.decodeLiteral, decodeInteger_encode hfits (by decide) hat]
    simp only [Option.bind_eq_bind, Option.bind_some, if_true,
      decodeString_encode hsize hat.advance, decodeString_encode hsize hat.advance.advance]
    rw [encodeLiteral, length_append, length_append, Nat.add_assoc, Nat.add_assoc,
      Nat.add_assoc]

/-! ## Fields -/

/-- The search gives a full match, a match of the name, or none. -/
theorem findStatic_spec (name value : Bytes) :
    (∃ idx e, findStatic name value = (idx, true) ∧ 1 ≤ idx ∧ staticTable[idx]? = some e ∧
        isEqual (text e.1) name = true ∧ text e.2 = value) ∨
      ∃ idx, findStatic name value = (idx, false) ∧
        (idx = 0 ∨ Found staticTable 1 idx name) :=
  searchStatic_spec name value _ rfl (Nat.le_refl 1) (.inl rfl)

/-- A static entry has a name up to case, so exactly when the name is in lower case. -/
theorem static_name {idx : Nat} {name : Bytes} (hidx : 1 ≤ idx) (he : staticTable[idx]? = some e)
    (hequal : isEqual (text e.1) name = true) (hlower : lower name = name) : text e.1 = name := by
  obtain ⟨-, hname, -⟩ := lookupIndex_static hidx he {}
  rw [isEqual_iff, hname, hlower] at hequal
  exact hequal

/-- A field is represented, however much of it the static table has. -/
theorem encodeField_represents {name : Bytes} (hlower : lower name = name) (value : Bytes) :
    Represents (encodeField name value) (name, value) := by
  rw [encodeField]
  obtain ⟨idx, e, hfind, hidx, he, hequal, rfl⟩ | ⟨idx, hfind, hname⟩ :=
    findStatic_spec name value
  · rw [hfind, ← static_name hidx he hequal hlower]
    exact encodeIndexed_represents hidx he
  · rw [hfind]
    dsimp only
    split
    · rename_i hpos
      obtain hzero | ⟨hidx, e, he, hequal⟩ := hname
      · omega
      · rw [← static_name hidx he hequal hlower]
        exact encodeNamed_represents hidx he value
    · exact encodeLiteral_represents name value

theorem encodeKnown_represents {nameIdx : Nat} (hidx : 1 ≤ nameIdx)
    (he : staticTable[nameIdx]? = some e) (value : Bytes) :
    Represents (encodeKnown (text e.1) nameIdx value) (text e.1, value) := by
  rw [encodeKnown]
  obtain ⟨-, hlower, -⟩ := lookupIndex_static hidx he {}
  obtain ⟨idx, e', hfind, hidx', he', hequal, rfl⟩ | ⟨idx, hfind, -⟩ :=
    findStatic_spec (text e.1) value
  · rw [hfind, ← static_name hidx' he' hequal hlower]
    exact encodeIndexed_represents hidx' he'
  · rw [hfind]
    exact encodeNamed_represents hidx he value

theorem encodePath_represents (path : Bytes) :
    Represents (encodePath path) (text ":path", path) := by
  have hroot : staticTable[4]? = some (":path", "/") := rfl
  have hindex : staticTable[5]? = some (":path", "/index.html") := rfl
  rw [encodePath]
  split
  · rename_i hpath
    rw [hpath]
    exact encodeIndexed_represents (by decide) hroot
  · split
    · rename_i hpath
      rw [hpath]
      exact encodeIndexed_represents (by decide) hindex
    · exact encodeNamed_represents (by decide) hroot path

/-- The regular fields are spelled in their order. -/
theorem encodeHeaders_spells (headers : List Field) :
    Spells (encodeHeaders headers) (regularFields headers) := by
  induction headers with
  | nil => exact Spells.nil
  | cons h headers ih =>
    rw [encodeHeaders, flatMap_cons, regularFields]
    by_cases hpseudo : isPseudo h.1 = true
    · rw [if_pos hpseudo, filter_cons_of_neg (by rw [hpseudo]; decide)]
      exact ih
    · rw [if_neg hpseudo, filter_cons_of_pos (by simpa using hpseudo), map_cons]
      exact (encodeField_represents (lower_idem h.1) h.2).spells.append ih

/-- The block of a request spells its fields. -/
theorem encodeRequestHeaders_spells (m : Method) (target scheme authority : Bytes)
    (headers : List Field) :
    Spells (encodeRequestHeaders m target scheme authority headers)
      (requestFields m target scheme authority headers) := by
  have hmethod : Represents (encodeField (text ":method") m.name) (text ":method", m.name) :=
    encodeField_represents (by decide) m.name
  have hentry : staticTable[6]? = some (":scheme", "http") := rfl
  have hscheme := encodeKnown_represents (by decide) hentry (orDefault scheme "https")
  have hpath := encodePath_represents (orDefault target "/")
  have hauthority : Spells (if authority = [] then [] else encodeNamed 1 authority)
      (if authority = [] then [] else [(text ":authority", authority)]) := by
    split
    · exact Spells.nil
    · have hname : staticTable[1]? = some (":authority", "") := rfl
      exact (encodeNamed_represents (by decide) hname authority).spells
  have hfirst := (hmethod.spells.append hscheme.spells).append hpath.spells
  exact (hfirst.append hauthority).append (encodeHeaders_spells headers)

/-- The block of a response spells its fields. -/
theorem encodeResponseHeaders_spells (statusCode : Nat) (headers : List Field) :
    Spells (encodeResponseHeaders statusCode headers) (responseFields statusCode headers) := by
  have hentry : staticTable[8]? = some (":status", "200") := rfl
  have hstatus := encodeKnown_represents (by decide) hentry (decimal statusCode)
  exact hstatus.spells.append (encodeHeaders_spells headers)

/-! ## The round trip -/

/-- **HPACK round trip.**  Against any dynamic table and without a cap on the list, what
    the encoder writes for a request or a response decodes to its fields and leaves the
    table as it was. -/
theorem hpack_round_trip (t : DynamicTable) (m : Method) (target scheme authority : Bytes)
    (statusCode : Nat) (headers : List Field) :
    ((encodeRequestHeaders m target scheme authority headers).length < 2 ^ 64 →
        decodeHeaderBlock 0 (encodeRequestHeaders m target scheme authority headers) t =
          ⟨true, false, requestFields m target scheme authority headers, t⟩) ∧
      ((encodeResponseHeaders statusCode headers).length < 2 ^ 64 →
        decodeHeaderBlock 0 (encodeResponseHeaders statusCode headers) t =
          ⟨true, false, responseFields statusCode headers, t⟩) := by
  constructor
  · intro hsize
    exact (encodeRequestHeaders_spells m target scheme authority headers).decodeHeaderBlock hsize t
      (overLimit_zero _)
  · intro hsize
    exact (encodeResponseHeaders_spells statusCode headers).decodeHeaderBlock hsize t
      (overLimit_zero _)

/-- A request with an indexed, a named and a new field and a pseudo-header that is dropped,
    and a response whose status is not in the table. -/
theorem hpack_round_trip_mixed :
    decodeHeaderBlock 0 (encodeRequestHeaders .query (text "/index.html") [] (text "a.example")
        [(text "Accept-Encoding", text "gzip, deflate"), (text "Cookie", text "k=v"),
          (text "X-Trace", text "1"), (text ":path", text "/other")]) {} =
      ⟨true, false,
        [(text ":method", text "QUERY"), (text ":scheme", text "https"),
          (text ":path", text "/index.html"), (text ":authority", text "a.example"),
          (text "accept-encoding", text "gzip, deflate"), (text "cookie", text "k=v"),
          (text "x-trace", text "1")], {}⟩ ∧
      decodeHeaderBlock 0 (encodeResponseHeaders 418 []) {} =
        ⟨true, false, [(text ":status", text "418")], {}⟩ := by
  obtain ⟨hrequest, hresponse⟩ := hpack_round_trip {} .query (text "/index.html") []
    (text "a.example") 418
    [(text "Accept-Encoding", text "gzip, deflate"), (text "Cookie", text "k=v"),
      (text "X-Trace", text "1"), (text ":path", text "/other")]
  constructor
  · rw [hrequest (by decide)]
    decide
  · rw [(hpack_round_trip {} .get [] [] [] 418 []).2 (by decide)]
    decide

end HpackRoundTrip
