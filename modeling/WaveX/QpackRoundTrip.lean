import WaveX.QpackLines

/-! # QPACK round trip

    The section encoder of `qpack::encoder` (`src/protos/http/http3codec.cpp`) and its
    meaning.  References to the dynamic table are relative to a base, the insert count of
    the table, and the highest of them fixes the Required Insert Count, which is sent
    modulo twice the number of entries the capacity allows.  On the table of the encoder
    the count comes back exactly, because an entry that is still there lags behind the
    insert count by less than that number. -/

namespace QpackRoundTrip

open QuicVarInt HttpText Qpack HeaderStrings QpackTable QpackLines List
open Hpack (Field decodeInteger)

/-! ## The encoder -/

/-- `find_static`: the size of the table when no entry has the name. -/
def findStatic (name value : Bytes) : Nat × Bool :=
  searchStatic staticTable.length name value 0 staticTable.length staticTable

/-- `encode_prefix`. -/
def encodePrefix (ric base maxTableCapacity : Nat) : Bytes :=
  let maxEntries := maxTableCapacity / 32
  let encInsertCount :=
    if ric > 0 ∧ maxEntries > 0 then ric % (2 * maxEntries) + 1 else 0
  encodeInteger encInsertCount 8 0x00 ++
    (if base ≥ ric then encodeInteger (base - ric) 7 0x00
      else encodeInteger (ric - base - 1) 7 0x80)

/-- A literal with the name the static search found, or with a new name. -/
def encodeLiteral (idx : Nat) (name value : Bytes) : Bytes :=
  if idx < staticTable.length then encodeLiteralWithNameRef idx true value
  else encodeLiteralNewName name value

/-- The body of the loop over the general headers: the line, and the absolute index it
    refers to when it is one of the dynamic table. -/
def encodeHeader (dt : Option DynamicTable) (name value : Bytes) : Bytes × Option Nat :=
  match findStatic name value with
  | (idx, true) => (encodeIndexedStatic idx, none)
  | (idx, false) =>
      match dt with
      | none => (encodeLiteral idx name value, none)
      | some t =>
          if t.entries = [] then (encodeLiteral idx name value, none)
          else
            match find t name value with
            | (dynAbs, true, _) =>
                (encodeIndexedDynamic (t.totalInserts - 1 - dynAbs), some dynAbs)
            | (dynAbs, false, dynFound) =>
                if dynFound ∧ idx ≥ staticTable.length then
                  (encodeLiteralWithNameRef (t.totalInserts - 1 - dynAbs) false value, some dynAbs)
                else (encodeLiteral idx name value, none)

/-- `max_used_abs`, `none` while `used_dynamic` is false, after a line. -/
def noteUsed : Option Nat → Option Nat → Option Nat
  | used, none => used
  | none, some dynAbs => some dynAbs
  | some maxUsedAbs, some dynAbs => some (if dynAbs > maxUsedAbs then dynAbs else maxUsedAbs)

/-- The loop over the general headers. -/
def encodeHeaders (dt : Option DynamicTable) :
    List Field → Bytes → Option Nat → Bytes × Option Nat
  | [], fields, used => (fields, used)
  | (rawName, value) :: rest, fields, used =>
      if isPseudo rawName then encodeHeaders dt rest fields used
      else
        let (line, dynAbs) := encodeHeader dt (lower rawName) value
        encodeHeaders dt rest (fields ++ line) (noteUsed used dynAbs)

/-- The `:method` field, or any other without a dynamic table. -/
def encodeStatic (name value : Bytes) : Bytes :=
  match findStatic name value with
  | (idx, true) => encodeIndexedStatic idx
  | (idx, false) => encodeLiteral idx name value

/-- A field whose name the static table has at `nameIdx`. -/
def encodeKnown (name : Bytes) (nameIdx : Nat) (value : Bytes) : Bytes :=
  match findStatic name value with
  | (idx, true) => encodeIndexedStatic idx
  | (_, false) => encodeLiteralWithNameRef nameIdx true value

/-- The `:path` field. -/
def encodePath (path : Bytes) : Bytes :=
  if path = text "/" then encodeIndexedStatic 1 else encodeLiteralWithNameRef 1 true path

/-- A pseudo-header other than those a request has of its own. -/
def isExtension (name : Bytes) : Bool :=
  isPseudo name && name != text ":method" && name != text ":scheme" && name != text ":path" &&
    name != text ":authority"

/-- The pseudo-headers of a request. -/
def encodePseudo (m : Method) (target scheme authority : Bytes) (headers : List Field) : Bytes :=
  encodeStatic (text ":method") m.name ++
    encodeKnown (text ":scheme") 23 (orDefault scheme "https") ++
    encodePath (orDefault target "/") ++
    (if authority = [] then [] else encodeLiteralWithNameRef 0 true authority) ++
    headers.flatMap fun h => if isExtension h.1 then encodeLiteralNewName h.1 h.2 else []

/-- `encode_request_headers`. -/
def encodeRequestHeaders (m : Method) (target scheme authority : Bytes) (headers : List Field)
    (dt : Option DynamicTable) : Bytes :=
  match encodeHeaders dt headers (encodePseudo m target scheme authority headers) none with
  | (fields, some maxUsedAbs) =>
      let ric := maxUsedAbs + 1
      encodePrefix ric ((dt.map DynamicTable.totalInserts).getD ric)
        ((dt.map DynamicTable.maxCapacity).getD 4096) ++ fields
  | (fields, none) => encodePrefix 0 0 4096 ++ fields

/-- `encode_response_headers`, which does not use its table. -/
def encodeResponseHeaders (statusCode : Nat) (headers : List Field) : Bytes :=
  [0x00, 0x00] ++ encodeKnown (text ":status") 25 (decimal statusCode) ++
    headers.flatMap fun h => if isPseudo h.1 then [] else encodeStatic (lower h.1) h.2

/-! ## What a section stands for -/

/-- The fields of a request. -/
def requestFields (m : Method) (target scheme authority : Bytes) (headers : List Field) :
    List Field :=
  [(text ":method", m.name), (text ":scheme", orDefault scheme "https"),
    (text ":path", orDefault target "/")] ++
    (if authority = [] then [] else [(text ":authority", authority)]) ++
    headers.filter (fun h => isExtension h.1) ++ regularFields headers

/-- The fields of a response. -/
def responseFields (statusCode : Nat) (headers : List Field) : List Field :=
  (text ":status", decimal statusCode) :: regularFields headers

variable {t : DynamicTable}

/-- Bytes of lines that stand for fields whatever the base is, unless a dynamic reference
    has been used: then the base is the insert count. -/
def Writes (t : DynamicTable) (used : Option Nat) (bytes : Bytes) (fields : List Field) : Prop :=
  ∃ lines, Spells bytes lines ∧
    ∀ base, (used ≠ none → base = t.totalInserts) → Means t base lines fields

variable {used : Option Nat}

/-- Lines in a row write their fields in a row. -/
theorem Writes.append {a b : Bytes} {fs gs : List Field} (ha : Writes t used a fs)
    (hb : Writes t used b gs) : Writes t used (a ++ b) (fs ++ gs) := by
  obtain ⟨ls, hls, hfs⟩ := ha
  obtain ⟨ks, hks, hgs⟩ := hb
  exact ⟨ls ++ ks, hls.append hks, fun base hbase =>
    rel_append (hfs base hbase) (hgs base hbase)⟩

theorem Writes.nil : Writes t used [] [] :=
  ⟨[], Spells.nil, fun _ _ => .nil⟩

/-- One line. -/
theorem Writes.line {rep : Bytes} {line : Line} {f : Field} (h : Represents rep line)
    (hfield : ∀ base, (used ≠ none → base = t.totalInserts) → line.field t base = some f) :
    Writes t used rep [f] :=
  ⟨[line], h.spells, fun base hbase => .cons (hfield base hbase) .nil⟩

/-- A base fixed later is one of those allowed before. -/
theorem Writes.mono {used used' : Option Nat} {bytes : Bytes} {fields : List Field}
    (h : Writes t used bytes fields) (hused : used ≠ none → used' ≠ none) :
    Writes t used' bytes fields := by
  obtain ⟨lines, hspells, hmeans⟩ := h
  exact ⟨lines, hspells, fun base hbase => hmeans base fun hne => hbase (hused hne)⟩

/-! ## Static fields -/

theorem staticTable_names : ∀ e ∈ staticTable, lower (text e.1) = text e.1 := by
  decide

variable {e : String × String}

theorem static_name {idx : Nat} {name : Bytes} (he : staticTable[idx]? = some e)
    (hequal : isEqual (text e.1) name = true) (hlower : lower name = name) : text e.1 = name := by
  rw [isEqual_iff, staticTable_names e (mem_of_getElem? he), hlower] at hequal
  exact hequal

theorem static_lt {idx : Nat} (he : staticTable[idx]? = some e) :
    idx < 2 ^ 64 :=
  Nat.lt_trans (List.getElem?_eq_some_iff.mp he).1 (by decide)

theorem writes_indexedStatic {idx : Nat} (he : staticTable[idx]? = some e) :
    Writes t used (encodeIndexedStatic idx) [(text e.1, text e.2)] := by
  refine Writes.line (encodeIndexedStatic_represents (static_lt he)) fun base _ => ?_
  rw [Line.field, Ref.lookup, getStatic, he]
  rfl

theorem writes_namedStatic {idx : Nat} (he : staticTable[idx]? = some e) (value : Bytes) :
    Writes t used (encodeLiteralWithNameRef idx true value) [(text e.1, value)] := by
  refine Writes.line (encodeLiteralWithNameRef_represents (static_lt he) true value)
    fun base _ => ?_
  rw [if_pos rfl, Line.field, Ref.lookup, getStatic, he]
  rfl

theorem writes_newName (name value : Bytes) :
    Writes t used (encodeLiteralNewName name value) [(name, value)] :=
  Writes.line (encodeLiteralNewName_represents name value) fun _ _ => rfl

/-- The search gives a full match, a match of the name, or none. -/
theorem findStatic_spec (name value : Bytes) :
    (∃ idx e, findStatic name value = (idx, true) ∧ 0 ≤ idx ∧ staticTable[idx]? = some e ∧
        isEqual (text e.1) name = true ∧ text e.2 = value) ∨
      ∃ idx, findStatic name value = (idx, false) ∧
        (idx = staticTable.length ∨ Found staticTable 0 idx name) :=
  searchStatic_spec name value _ rfl (Nat.le_refl 0) (.inl rfl)

theorem writes_literal {idx : Nat} {name : Bytes} (hlower : lower name = name)
    (hidx : idx = staticTable.length ∨ Found staticTable 0 idx name) (value : Bytes) :
    Writes t used (encodeLiteral idx name value) [(name, value)] := by
  rw [encodeLiteral]
  split
  · rename_i hlt
    obtain hnone | ⟨-, e, he, hequal⟩ := hidx
    · omega
    · rw [← static_name he hequal hlower]
      exact writes_namedStatic he value
  · exact writes_newName name value

theorem writes_static {name : Bytes} (hlower : lower name = name) (value : Bytes) :
    Writes t used (encodeStatic name value) [(name, value)] := by
  rw [encodeStatic]
  obtain ⟨idx, e, hfind, -, he, hequal, rfl⟩ | ⟨idx, hfind, hidx⟩ := findStatic_spec name value
  · rw [hfind, ← static_name he hequal hlower]
    exact writes_indexedStatic he
  · rw [hfind]
    exact writes_literal hlower hidx value

theorem writes_known {nameIdx : Nat} (he : staticTable[nameIdx]? = some e) (value : Bytes) :
    Writes t used (encodeKnown (text e.1) nameIdx value) [(text e.1, value)] := by
  have hlower := staticTable_names e (mem_of_getElem? he)
  rw [encodeKnown]
  obtain ⟨idx, e', hfind, -, he', hequal, rfl⟩ | ⟨idx, hfind, -⟩ :=
    findStatic_spec (text e.1) value
  · rw [hfind, ← static_name he' hequal hlower]
    exact writes_indexedStatic he'
  · rw [hfind]
    exact writes_namedStatic he value

/-- The path is written. -/
theorem writes_path (path : Bytes) :
    Writes t used (encodePath path) [(text ":path", path)] := by
  have hroot : staticTable[1]? = some (":path", "/") := rfl
  rw [encodePath]
  split
  · rename_i hpath
    rw [hpath]
    exact writes_indexedStatic hroot
  · exact writes_namedStatic hroot path

theorem writes_extensions (headers : List Field) :
    Writes t used
      (headers.flatMap fun h => if isExtension h.1 then encodeLiteralNewName h.1 h.2 else [])
      (headers.filter fun h => isExtension h.1) := by
  induction headers with
  | nil => exact Writes.nil
  | cons h headers ih =>
    rw [flatMap_cons]
    by_cases hext : isExtension h.1 = true
    · rw [if_pos hext, filter_cons, if_pos hext]
      exact (writes_newName h.1 h.2).append ih
    · rw [if_neg hext, filter_cons, if_neg hext]
      exact ih

theorem writes_regular (headers : List Field) :
    Writes t used
      (headers.flatMap fun h => if isPseudo h.1 then [] else encodeStatic (lower h.1) h.2)
      (regularFields headers) := by
  induction headers with
  | nil => exact Writes.nil
  | cons h headers ih =>
    rw [flatMap_cons, regularFields, filter_cons]
    by_cases hpseudo : isPseudo h.1 = true
    · rw [if_pos hpseudo, if_neg (by simpa using hpseudo)]
      exact ih
    · rw [if_neg hpseudo, if_pos (by simpa using hpseudo), map_cons]
      exact (writes_static (lower_idem h.1) h.2).append ih

/-- The pseudo headers are written in their order. -/
theorem writes_pseudo (m : Method) (target scheme authority : Bytes) (headers : List Field) :
    Writes t used (encodePseudo m target scheme authority headers)
      ([(text ":method", m.name), (text ":scheme", orDefault scheme "https"),
        (text ":path", orDefault target "/")] ++
        (if authority = [] then [] else [(text ":authority", authority)]) ++
        headers.filter (fun h => isExtension h.1)) := by
  have hmethod : Writes t used (encodeStatic (text ":method") m.name) [(text ":method", m.name)] :=
    writes_static (by decide) m.name
  have hentry : staticTable[23]? = some (":scheme", "https") := rfl
  have hscheme : Writes t used _ _ := writes_known hentry (orDefault scheme "https")
  have hpath : Writes t used _ _ := writes_path (orDefault target "/")
  have hauthority : Writes t used
      (if authority = [] then [] else encodeLiteralWithNameRef 0 true authority)
      (if authority = [] then [] else [(text ":authority", authority)]) := by
    split
    · exact Writes.nil
    · have hname : staticTable[0]? = some (":authority", "") := rfl
      exact writes_namedStatic hname authority
  exact (((hmethod.append hscheme).append hpath).append hauthority).append
    (writes_extensions headers)

/-! ## Dynamic fields -/

/-- An index counted back from the insert count finds the entry it was computed from. -/
theorem getRelative_entry (hvalid : Valid t) {e : Entry} (he : e ∈ t.entries) :
    t.getRelative t.totalInserts (t.totalInserts - 1 - e.absoluteIndex) = some e.field := by
  obtain ⟨hlt, -⟩ := hvalid.entry_bounds he
  have hback : t.totalInserts - 1 - (t.totalInserts - 1 - e.absoluteIndex) = e.absoluteIndex := by
    omega
  rw [DynamicTable.getRelative, if_neg (by omega), hback]
  exact hvalid.get_iff.mpr he

/-- The highest index used is that of an entry of the table given. -/
def UsesEntry (dt : Option DynamicTable) (used : Option Nat) : Prop :=
  ∀ abs ∈ used, ∃ x ∈ dt, ∃ e ∈ x.entries, e.absoluteIndex = abs

theorem noteUsed_ne_none {used dynAbs : Option Nat} (h : used ≠ none ∨ dynAbs ≠ none) :
    noteUsed used dynAbs ≠ none := by
  cases used <;> cases dynAbs
  · obtain h | h := h <;> exact absurd rfl h
  all_goals exact Option.some_ne_none _

variable {dt : Option DynamicTable}

theorem UsesEntry.noteUsed {used dynAbs : Option Nat} (h : UsesEntry dt used)
    (hdyn : UsesEntry dt dynAbs) :
    UsesEntry dt (noteUsed used dynAbs) := by
  cases dynAbs with
  | none => exact h
  | some abs =>
    cases used with
    | none => exact hdyn
    | some maxUsed =>
      intro abs' habs'
      obtain rfl := Option.some.inj habs'
      split
      · exact hdyn abs rfl
      · exact h maxUsed rfl

theorem usesEntry_none : UsesEntry dt none := by
  intro abs habs
  cases habs

theorem usesEntry_some {e : Entry} (he : e ∈ t.entries) :
    UsesEntry (some t) (some e.absoluteIndex) := by
  intro abs habs
  obtain rfl := Option.some.inj habs
  exact ⟨t, rfl, e, he, rfl⟩

/-- A line written for a regular header. -/
theorem writes_header (hvalid : Valid t) (hnames : ∀ e ∈ t.entries, lower e.field.1 = e.field.1)
    (htotal : t.totalInserts < 2 ^ 64) (hdt : ∀ x ∈ dt, x = t) {name : Bytes}
    (hlower : lower name = name) (value : Bytes) :
    Writes t (encodeHeader dt name value).2 (encodeHeader dt name value).1 [(name, value)] ∧
      UsesEntry dt (encodeHeader dt name value).2 := by
  have hname : ∀ e ∈ t.entries, isEqual e.field.1 name = true → e.field.1 = name := by
    intro e he hequal
    rw [isEqual_iff, hnames e he, hlower] at hequal
    exact hequal
  rw [encodeHeader]
  obtain ⟨idx, e, hfind, -, he, hequal, rfl⟩ | ⟨idx, hfind, hidx⟩ := findStatic_spec name value
  · rw [hfind, ← static_name he hequal hlower]
    exact ⟨writes_indexedStatic he, usesEntry_none⟩
  rw [hfind]
  cases dt with
  | none => exact ⟨writes_literal hlower hidx value, usesEntry_none⟩
  | some x =>
    obtain rfl := hdt x rfl
    dsimp only
    split
    · exact ⟨writes_literal hlower hidx value, usesEntry_none⟩
    obtain ⟨e, he, hequal, rfl, hsearch⟩ | ⟨abs, ⟨e, he, rfl, hequal⟩, hsearch⟩ | hsearch :=
      find_spec x name value
    · rw [hsearch]
      refine ⟨Writes.line (encodeIndexedDynamic_represents (by omega)) fun base hbase => ?_,
        usesEntry_some he⟩
      rw [hbase (Option.some_ne_none _), Line.field, Ref.lookup, getRelative_entry hvalid he,
        ← hname e he hequal]
    · rw [hsearch]
      dsimp only
      split
      · refine ⟨Writes.line (encodeLiteralWithNameRef_represents (by omega) false value)
          fun base hbase => ?_, usesEntry_some he⟩
        rw [hbase (Option.some_ne_none _), if_neg Bool.false_ne_true, Line.field, Ref.lookup,
          getRelative_entry hvalid he, ← hname e he hequal]
        rfl
      · exact ⟨writes_literal hlower hidx value, usesEntry_none⟩
    · rw [hsearch]
      dsimp only
      rw [if_neg fun h => Bool.false_ne_true h.1]
      exact ⟨writes_literal hlower hidx value, usesEntry_none⟩

/-- The loop over the general headers. -/
theorem writes_headers (hvalid : Valid t) (hnames : ∀ e ∈ t.entries, lower e.field.1 = e.field.1)
    (htotal : t.totalInserts < 2 ^ 64) (hdt : ∀ x ∈ dt, x = t) (headers : List Field)
    {bytes : Bytes} {fields : List Field} (hwrites : Writes t used bytes fields)
    (hused : UsesEntry dt used) :
    Writes t (encodeHeaders dt headers bytes used).2 (encodeHeaders dt headers bytes used).1
        (fields ++ regularFields headers) ∧
      UsesEntry dt (encodeHeaders dt headers bytes used).2 := by
  induction headers generalizing bytes used fields with
  | nil =>
    rw [encodeHeaders, regularFields, filter_nil, map_nil, append_nil]
    exact ⟨hwrites, hused⟩
  | cons h headers ih =>
    obtain ⟨rawName, value⟩ := h
    rw [encodeHeaders]
    by_cases hpseudo : isPseudo rawName = true
    · rw [if_pos hpseudo, regularFields, filter_cons_of_neg (by simpa using hpseudo)]
      exact ih hwrites hused
    · rw [if_neg hpseudo, regularFields, filter_cons_of_pos (by simpa using hpseudo),
        map_cons, ← singleton_append, ← append_assoc]
      obtain ⟨hline, hentry⟩ := writes_header hvalid hnames htotal hdt (lower_idem rawName) value
      generalize encodeHeader dt (lower rawName) value = encoded at hline hentry ⊢
      obtain ⟨line, dynAbs⟩ := encoded
      have hbefore : Writes t (noteUsed used dynAbs) bytes fields :=
        hwrites.mono fun hne => noteUsed_ne_none (.inl hne)
      have hafter : Writes t (noteUsed used dynAbs) line [(lower rawName, value)] :=
        hline.mono fun hne => noteUsed_ne_none (.inr hne)
      exact ih (hbefore.append hafter) (hused.noteUsed hentry)

/-! ## The prefix -/

/-- The Required Insert Count comes back from its residue: it is at most the insert count,
    and behind it by less than the table has room for. -/
theorem requiredInsertCount_encode {ric : Nat} (hpos : 0 < ric) (hle : ric ≤ t.totalInserts)
    (hlag : t.totalInserts < ric + t.maxCapacity / 32) :
    requiredInsertCount t (ric % (2 * (t.maxCapacity / 32)) + 1) = some ric := by
  rw [requiredInsertCount]
  generalize t.maxCapacity / 32 = maxEntries at hlag ⊢
  generalize t.totalInserts = total at hle hlag ⊢
  have hentries : 0 < maxEntries := by omega
  have hresidue : ric % (2 * maxEntries) < 2 * maxEntries := Nat.mod_lt _ (by omega)
  have hric := Nat.div_add_mod ric (2 * maxEntries)
  have hmax := Nat.div_add_mod (total + maxEntries) (2 * maxEntries)
  have hbelow := Nat.mod_lt (total + maxEntries) (show 2 * maxEntries > 0 by omega)
  have hquot : ric / (2 * maxEntries) ≤ (total + maxEntries) / (2 * maxEntries) :=
    Nat.div_le_div_right (by omega)
  rw [if_neg (Nat.succ_ne_zero _), if_neg (by omega)]
  dsimp only
  rw [Nat.mul_comm ((total + maxEntries) / (2 * maxEntries))]
  -- the count lies in the last full range that ends at the highest possible count, so its
  -- quotient is that of the highest, or one less
  obtain hsame | hless : ric / (2 * maxEntries) = (total + maxEntries) / (2 * maxEntries) ∨
      ric / (2 * maxEntries) + 1 = (total + maxEntries) / (2 * maxEntries) := by
    obtain heq | hlt := Nat.eq_or_lt_of_le hquot
    · exact .inl heq
    · refine .inr (Nat.le_antisymm hlt ?_)
      rw [← Nat.add_div_right ric (by omega)]
      exact Nat.div_le_div_right (by omega)
  · rw [← hsame] at hmax ⊢
    rw [if_neg (by omega), if_neg (by omega)]
    exact congrArg some (by omega)
  · rw [← hless, Nat.mul_add, Nat.mul_one] at hmax ⊢
    rw [if_pos (by omega), if_neg (by omega)]
    exact congrArg some (by omega)

theorem encInsertCount_lt {ric cap : Nat} (hcap : cap < 2 ^ 64) :
    (if ric > 0 ∧ cap / 32 > 0 then ric % (2 * (cap / 32)) + 1 else 0) < 2 ^ 64 := by
  split
  · rename_i h
    have hresidue : ric % (2 * (cap / 32)) < 2 * (cap / 32) := Nat.mod_lt _ (by omega)
    omega
  · decide

/-- The prefix of a section that starts the block reads back as its count and base. -/
theorem decodePrefix_encode {ric base cap : Nat} {block rest : Bytes} (hric : ric ≤ base)
    (hbase : base < 2 ^ 64) (hcap : cap < 2 ^ 64) (htotal : ric ≤ t.totalInserts)
    (hblock : block = encodePrefix ric base cap ++ rest)
    (hcount : requiredInsertCount t
      (if ric > 0 ∧ cap / 32 > 0 then ric % (2 * (cap / 32)) + 1 else 0) = some ric) :
    decodePrefix block t = .lines base (encodePrefix ric base cap).length := by
  have hpre : encodePrefix ric base cap = encodeInteger
      (if ric > 0 ∧ cap / 32 > 0 then ric % (2 * (cap / 32)) + 1 else 0) 8 0 ++
        encodeInteger (base - ric) 7 0 := by
    rw [encodePrefix, if_pos hric]
  have hstart := At.of_eq hblock
  rw [hpre, append_assoc] at hstart
  have hcountFits : PrefixFits 8 0 := by decide
  have hdeltaFits : PrefixFits 7 0 := by decide
  have hfirst := decodeInteger_encode hcountFits (encInsertCount_lt hcap) hstart
  have hsecond := decodeInteger_encode hdeltaFits (by omega) hstart.advance
  obtain ⟨b, tail, hdrop, hflag⟩ := hstart.advance.first hdeltaFits
  have hsign : (b.toNat &&& 0x80 != 0) = false := by
    rw [hflag 0x80 (by decide)]
    rfl
  have hready : t.isBlocked ric = false := decide_eq_false (Nat.not_lt.mpr htotal)
  have hsum : Hpack.wrap (ric + (base - ric)) = base := by
    rw [Nat.add_sub_cancel' hric]
    exact wrap_of_lt hbase
  rw [decodePrefix, hfirst]
  dsimp only
  rw [hcount, hdrop]
  dsimp only
  rw [hsecond]
  dsimp only
  rw [hready, hsign, if_neg Bool.false_ne_true, sectionBase, if_neg Bool.false_ne_true, hsum,
    hpre, length_append, Nat.zero_add]

/-! ## The round trip -/

/-- A section whose prefix decodes and whose lines stand for fields. -/
theorem decodeHeaderBlock_writes {block start bytes : Bytes} {base : Nat} {fields : List Field}
    (hsize : block.length < 2 ^ 64) (hblock : block = start ++ bytes)
    (hpre : decodePrefix block t = .lines base start.length) (hwrites : Writes t used bytes fields)
    (hbase : used ≠ none → base = t.totalInserts) {fuel : Nat} (hfuel : block.length < fuel) :
    decodeHeaderBlock 0 block t fuel = some { ok := true, headers := fields } := by
  obtain ⟨lines, hspells, hmeans⟩ := hwrites
  have hat := (At.of_eq hblock).advance
  rw [Nat.zero_add] at hat
  rw [decodeHeaderBlock, hpre]
  exact hspells.decodeLines (hmeans base hbase) hsize hat hfuel

/-- A prefix without dynamic references is read back. -/
theorem decodePrefix_static {block rest : Bytes} (hblock : block = encodePrefix 0 0 4096 ++ rest) :
    decodePrefix block t = .lines 0 (encodePrefix 0 0 4096).length :=
  decodePrefix_encode (Nat.le_refl 0) (by decide) (by decide) (Nat.zero_le _) hblock rfl

/-- The section of a request is read back. -/
theorem decodeHeaderBlock_request (hvalid : Valid t) (hcap : t.maxCapacity < 2 ^ 64)
    (hnames : ∀ e ∈ t.entries, lower e.field.1 = e.field.1) (htotal : t.totalInserts < 2 ^ 64)
    (hdt : ∀ x ∈ dt, x = t) (m : Method) (target scheme authority : Bytes) (headers : List Field)
    (hsize : (encodeRequestHeaders m target scheme authority headers dt).length < 2 ^ 64)
    {fuel : Nat}
    (hfuel : (encodeRequestHeaders m target scheme authority headers dt).length < fuel) :
    decodeHeaderBlock 0 (encodeRequestHeaders m target scheme authority headers dt) t fuel =
      some { ok := true, headers := requestFields m target scheme authority headers } := by
  obtain ⟨hwrites, hused⟩ := writes_headers hvalid hnames htotal hdt headers
    (writes_pseudo m target scheme authority headers) usesEntry_none
  rw [encodeRequestHeaders] at hsize hfuel ⊢
  revert hwrites hused hsize hfuel
  generalize hencode : encodeHeaders dt headers
    (encodePseudo m target scheme authority headers) none = encoded
  obtain ⟨bytes, used⟩ := encoded
  intro hsize hfuel hwrites hused
  cases used with
  | none =>
    exact decodeHeaderBlock_writes hsize rfl (decodePrefix_static rfl) hwrites
      (fun hne => absurd rfl hne) hfuel
  | some maxUsedAbs =>
    obtain ⟨x, hx, e, he, rfl⟩ := hused maxUsedAbs rfl
    obtain rfl := hdt x hx
    obtain rfl : dt = some x := hx
    obtain ⟨hlt, hlag⟩ := hvalid.entry_bounds he
    have hcount : requiredInsertCount x (if e.absoluteIndex + 1 > 0 ∧ x.maxCapacity / 32 > 0 then
        (e.absoluteIndex + 1) % (2 * (x.maxCapacity / 32)) + 1 else 0) =
          some (e.absoluteIndex + 1) := by
      rw [if_pos (by omega)]
      exact requiredInsertCount_encode (by omega) hlt (by omega)
    exact decodeHeaderBlock_writes hsize rfl
      (decodePrefix_encode hlt htotal hcap hlt rfl hcount) hwrites (fun _ => rfl) hfuel

/-- The section of a response is read back. -/
theorem decodeHeaderBlock_response (t : DynamicTable) (statusCode : Nat) (headers : List Field)
    (hsize : (encodeResponseHeaders statusCode headers).length < 2 ^ 64) {fuel : Nat}
    (hfuel : (encodeResponseHeaders statusCode headers).length < fuel) :
    decodeHeaderBlock 0 (encodeResponseHeaders statusCode headers) t fuel =
      some { ok := true, headers := responseFields statusCode headers } := by
  have hentry : staticTable[25]? = some (":status", "200") := rfl
  have hstatus : Writes t none _ _ := writes_known hentry (decimal statusCode)
  have hblock : encodeResponseHeaders statusCode headers = encodePrefix 0 0 4096 ++
      (encodeKnown (text ":status") 25 (decimal statusCode) ++
        headers.flatMap fun h => if isPseudo h.1 then [] else encodeStatic (lower h.1) h.2) := by
    rw [encodeResponseHeaders, append_assoc]
    rfl
  exact decodeHeaderBlock_writes hsize hblock (decodePrefix_static hblock)
    (hstatus.append (writes_regular headers)) (fun hne => absurd rfl hne) hfuel

/-- Every field inserted has a name in lower case. -/
def LowercaseName (f : Field) : Prop := lower f.1 = f.1

instance LowercaseName.decidable (f : Field) : Decidable (LowercaseName f) :=
  inferInstanceAs (Decidable (lower f.1 = f.1))

/-- **QPACK round trip.**  On every table that insertions of lowercase names, capacity
    changes and evictions lead to, a request encoded against the table decodes to its
    fields without blocking, and so does a response. -/
theorem qpack_round_trip {t : DynamicTable} (ht : Reachable LowercaseName t)
    (htotal : t.totalInserts < 2 ^ 64) (m : Method) (target scheme authority : Bytes)
    (statusCode : Nat) (headers : List Field) :
    (∀ dt, (∀ x ∈ dt, x = t) →
      (encodeRequestHeaders m target scheme authority headers dt).length < 2 ^ 64 →
        ∀ fuel, (encodeRequestHeaders m target scheme authority headers dt).length < fuel →
          decodeHeaderBlock 0 (encodeRequestHeaders m target scheme authority headers dt) t fuel =
            some { ok := true, isBlocked := false,
                   headers := requestFields m target scheme authority headers }) ∧
      ((encodeResponseHeaders statusCode headers).length < 2 ^ 64 →
        ∀ fuel, (encodeResponseHeaders statusCode headers).length < fuel →
          decodeHeaderBlock 0 (encodeResponseHeaders statusCode headers) t fuel =
            some { ok := true, isBlocked := false,
                   headers := responseFields statusCode headers }) := by
  obtain ⟨hwithin, hlimit⟩ := ht.capacity
  constructor
  · intro dt hdt hsize fuel hfuel
    exact decodeHeaderBlock_request ht.valid (Nat.lt_of_le_of_lt hwithin hlimit) ht.fields htotal
      hdt m target scheme authority headers hsize hfuel
  · intro hsize fuel hfuel
    exact decodeHeaderBlock_response t statusCode headers hsize hfuel

/-- A table with room for one of the two entries inserted. -/
def crowdedTable : DynamicTable :=
  ((⟨[], 0, 70, 4096⟩ : DynamicTable).insert (text "x-a", text "1")).insert (text "x-b", text "2")

theorem crowdedTable_reachable : Reachable LowercaseName crowdedTable := by
  have hnew : Reachable LowercaseName ⟨[], 0, 70, 4096⟩ :=
    @Reachable.new _ 70 4096 (by decide) (by decide)
  have hfirst : LowercaseName (text "x-a", text "1") := by decide
  have hsecond : LowercaseName (text "x-b", text "2") := by decide
  exact (hnew.insert hfirst).insert hsecond

/-- A field of the table, the name of one with another value, one that has been evicted and
    an extension pseudo-header. -/
theorem qpack_round_trip_dynamic :
    decodeHeaderBlock 0 (encodeRequestHeaders .get [] [] []
        [(text "X-B", text "2"), (text "X-B", text "3"), (text "X-A", text "1"),
          (text ":protocol", text "websocket")] (some crowdedTable)) crowdedTable 100 =
      some { ok := true, isBlocked := false, headers :=
        [(text ":method", text "GET"), (text ":scheme", text "https"), (text ":path", text "/"),
          (text ":protocol", text "websocket"), (text "x-b", text "2"), (text "x-b", text "3"),
          (text "x-a", text "1")] } ∧
      decodeHeaderBlock 0 (encodeResponseHeaders 200 [(text "X-B", text "2")]) crowdedTable 100 =
        some { ok := true, isBlocked := false, headers :=
          [(text ":status", text "200"), (text "x-b", text "2")] } := by
  have htotal : crowdedTable.totalInserts < 2 ^ 64 := by decide
  constructor
  · rw [(qpack_round_trip crowdedTable_reachable htotal .get [] [] [] 200
        [(text "X-B", text "2"), (text "X-B", text "3"), (text "X-A", text "1"),
          (text ":protocol", text "websocket")]).1 (some crowdedTable)
      (fun x hx => (Option.some.inj hx).symm) (by decide) 100 (by decide)]
    decide
  · rw [(qpack_round_trip crowdedTable_reachable htotal .get [] [] [] 200
        [(text "X-B", text "2")]).2 (by decide) 100 (by decide)]
    decide

end QpackRoundTrip
