import WaveX.Http1Response

/-! # The headers of a response object

    `HttpResponse` of `include/wavex/protos/http/HttpResponse.hpp` keeps its headers three
    times: the names and values it owns, a list of views, and a map that finds a name in any
    letter case.  `parse` fills the views and the map; `set_impl` and `remove_header_impl`
    make both of them anew from what is owned, so headers that have been parsed are gone.

    The object is generic in its codec.  How long the bytes behind a view live is not kept
    here: a view is the bytes that are read through it. -/

namespace ResponseHeaders

open QuicVarInt HttpText List
open Http1Codec (Header getHeader)
open Http1Response (setHeader)

/-! ## The object -/

/-- What `parse` reads of a message of the codec; `streamId` where the codec has one. -/
structure Parsed where
  statusCode : Nat
  statusText : Bytes
  streamId : Option Nat := none
  headers : List Header
  body : Bytes
  deriving DecidableEq, Repr

/-- A codec: `parse_response` when it succeeds, `dechunk` and `status_text_for`. -/
structure Codec where
  parseResponse : Bytes → Option Parsed
  dechunk : Bytes → Bytes
  statusTextFor : Nat → Bytes

/-- `HttpResponse`: `header_store_`, `headers_views_` and `headers_` are `store`, `views` and
    `map`. -/
structure HttpResponse where
  statusCode : Nat := 200
  statusText : Bytes := text "OK"
  streamId : Option Nat := none
  versionMajor : Nat := 1
  versionMinor : Nat := 1
  body : Bytes := []
  bodyView : Bytes := []
  store : List Header := []
  views : List Header := []
  map : List Header := []
  deriving DecidableEq, Repr

/-- `FlatMap::insert_or_assign_ci`: a key that is there keeps its place and its spelling. -/
def insertOrAssignCi (map : List Header) (h : Header) : List Header := setHeader h.1 h.2 map

/-- `FlatMap::find_ci`. -/
def findCi (map : List Header) (name : Bytes) : Option Bytes :=
  (map.find? fun h => isEqual h.1 name).map Prod.snd

/-- The map made from a list of headers. -/
def rebuilt (headers : List Header) : List Header := headers.foldl insertOrAssignCi []

/-- `parse`; the result is whether it has succeeded. -/
def parse (codec : Codec) (buffer : Bytes) (res : HttpResponse) : Bool × HttpResponse :=
  match codec.parseResponse buffer with
  | none => (false, { res with views := [] })
  | some p =>
      let chunked := (getHeader p.headers "Transfer-Encoding").any fun te =>
        (findText (text "chunked") te).isSome
      let body := if chunked then codec.dechunk p.body else p.body
      (true, { res with
        statusCode := p.statusCode
        statusText := p.statusText
        streamId := p.streamId.or res.streamId
        body
        bodyView := body
        store := []
        views := p.headers
        map := rebuilt p.headers })

/-- The views when the value of a name that is owned changes; `key` is its spelling. -/
def setView (name key value : Bytes) (views : List Header) : List Header :=
  if views.any fun h => isEqual h.1 name then setHeader name value views
  else views ++ [(key, value)]

/-- `set_impl`. -/
def set (name value : Bytes) (res : HttpResponse) : HttpResponse :=
  match res.store.find? fun h => isEqual h.1 name with
  | some h =>
      { res with
        store := setHeader name value res.store
        views := setView name h.1 value res.views
        map := insertOrAssignCi res.map (h.1, value) }
  | none =>
      let store := res.store ++ [(name, value)]
      { res with store, views := store, map := rebuilt store }

/-- `remove_header_impl`. -/
def removeHeader (name : Bytes) (res : HttpResponse) : HttpResponse :=
  let store := res.store.eraseP fun h => isEqual h.1 name
  { res with store, views := store, map := rebuilt store }

/-- `header`. -/
def header (res : HttpResponse) (name : Bytes) : Option Bytes :=
  (findCi res.map name).or (findCi res.views name)

/-- The message that `serialize_into` hands to the encoder. -/
def message (codec : Codec) (res : HttpResponse) : Http1Codec.Response :=
  { statusCode := res.statusCode
    statusText := if res.statusText = [] ∨ res.statusText = text "OK" ∧ res.statusCode ≠ 200 then
      codec.statusTextFor res.statusCode else res.statusText
    versionMajor := res.versionMajor
    versionMinor := res.versionMinor
    headers := if res.map ≠ [] then res.map else res.views
    body := if res.bodyView = [] then res.body else res.bodyView }

/-- The calls that change the headers. -/
inductive Call where
  | parse (buffer : Bytes)
  | set (name value : Bytes)
  | removeHeader (name : Bytes)
  deriving DecidableEq, Repr

def call (codec : Codec) (res : HttpResponse) : Call → HttpResponse
  | .parse buffer => (parse codec buffer res).2
  | .set name value => set name value res
  | .removeHeader name => removeHeader name res

/-- A response behind some calls. -/
def made (codec : Codec) (calls : List Call) : HttpResponse := calls.foldl (call codec) {}

/-! ## Local edits -/

/-- `set` changes the header it names, in any letter case, and no other. -/
structure SetLocal (res : HttpResponse) (name value : Bytes) : Prop where
  named : ∀ n, isEqual n name = true → header (set name value res) n = some value
  other : ∀ n, isEqual n name = false → header (set name value res) n = header res n

/-- `remove_header` removes the header it names, in any letter case, and no other. -/
structure RemoveLocal (res : HttpResponse) (name : Bytes) : Prop where
  named : ∀ n, isEqual n name = true → header (removeHeader name res) n = none
  other : ∀ n, isEqual n name = false → header (removeHeader name res) n = header res n

/-- No two headers have one name. -/
def Distinct (headers : List Header) : Prop :=
  headers.Pairwise fun f g => isEqual f.1 g.1 = false

/-- What is serialized is the map: one entry for each name, with the value of `header`. -/
structure Written (codec : Codec) (res : HttpResponse) : Prop where
  map : (message codec res).headers = res.map
  once : Distinct res.map
  values : ∀ n, findCi (message codec res).headers n = header res n

/-- There is nothing in the map but what is owned, or what the name is of. -/
def Owned (res : HttpResponse) (name : Bytes) : Prop :=
  res.store = [] → ∀ h ∈ res.map, isEqual h.1 name = true

/-! ## Names in any letter case -/

variable {headers store : List Header} {name n value : Bytes} {h : Header}

theorem isEqual_symm {a b : Bytes} (h : isEqual a b = true) : isEqual b a = true :=
  isEqual_iff.mpr (isEqual_iff.mp h).symm

theorem isEqual_congr {a b : Bytes} (h : isEqual a b = true) (c : Bytes) :
    isEqual a c = isEqual b c := by
  rw [isEqual, isEqual, isEqual_iff.mp h]

theorem isEqual_congr_right {a b : Bytes} (h : isEqual a b = true) (c : Bytes) :
    isEqual c a = isEqual c b := by
  rw [isEqual, isEqual, isEqual_iff.mp h]

theorem isEqual_comm (a b : Bytes) : isEqual a b = isEqual b a := by
  rw [Bool.eq_iff_iff]
  exact ⟨isEqual_symm, isEqual_symm⟩

theorem findCi_nil (n : Bytes) : findCi [] n = none := rfl

theorem findCi_cons (h : Header) (headers : List Header) (n : Bytes) :
    findCi (h :: headers) n = if isEqual h.1 n then some h.2 else findCi headers n := by
  rw [findCi, find?_cons]
  cases isEqual h.1 n with
  | true => rfl
  | false => rfl

/-- Names that differ in case only find the same. -/
theorem findCi_congr (hn : isEqual n name = true) (headers : List Header) :
    findCi headers n = findCi headers name := by
  induction headers with
  | nil => rfl
  | cons h headers ih => rw [findCi_cons, findCi_cons, isEqual_congr_right hn, ih]

theorem findCi_isSome : (findCi headers n).isSome = true ↔ ∃ h ∈ headers, isEqual h.1 n = true := by
  rw [findCi, Option.isSome_map, find?_isSome]

/-- A value that is set is found under its name, and the others stay. -/
theorem findCi_setHeader (name value : Bytes) (headers : List Header) (n : Bytes) :
    findCi (setHeader name value headers) n =
      if isEqual name n then some value else findCi headers n := by
  induction headers with
  | nil => rw [setHeader, findCi_cons]
  | cons h headers ih =>
    rw [setHeader]
    split
    · rename_i heq
      rw [findCi_cons, findCi_cons, isEqual_congr heq]
      split
      · rfl
      · rfl
    · rename_i hne
      rw [findCi_cons, findCi_cons, ih]
      by_cases hn : isEqual name n = true
      · have hother : ¬ isEqual h.1 n = true := fun h' =>
          hne ((isEqual_congr_right hn h.1).trans h')
        rw [if_neg hother, if_pos hn, if_pos hn]
      · rw [if_neg hn, if_neg hn]

theorem setHeader_names (h : Header) (headers : List Header) :
    ∀ f ∈ setHeader h.1 h.2 headers, f.1 = h.1 ∨ ∃ g ∈ headers, f.1 = g.1 := by
  induction headers with
  | nil =>
    intro f hf
    rw [setHeader, mem_singleton] at hf
    exact .inl (congrArg Prod.fst hf)
  | cons g headers ih =>
    intro f hf
    rw [setHeader] at hf
    split at hf
    · obtain rfl | hf := mem_cons.mp hf
      · exact .inr ⟨g, mem_cons_self, rfl⟩
      · exact .inr ⟨f, mem_cons_of_mem _ hf, rfl⟩
    · obtain rfl | hf := mem_cons.mp hf
      · exact .inr ⟨f, mem_cons_self, rfl⟩
      · obtain hname | ⟨g', hg', hname⟩ := ih f hf
        · exact .inl hname
        · exact .inr ⟨g', mem_cons_of_mem _ hg', hname⟩

/-- Setting a value makes no name twice. -/
theorem distinct_setHeader (h : Header) (hd : Distinct headers) :
    Distinct (setHeader h.1 h.2 headers) := by
  induction headers with
  | nil => exact pairwise_singleton _ _
  | cons g headers ih =>
    obtain ⟨hfirst, hrest⟩ := pairwise_cons.mp hd
    rw [setHeader]
    split
    · exact pairwise_cons.mpr ⟨hfirst, hrest⟩
    · rename_i hne
      refine pairwise_cons.mpr ⟨fun f hf => ?_, ih hrest⟩
      obtain hname | ⟨g', hg', hname⟩ := setHeader_names h headers f hf
      · rw [hname]
        exact Bool.eq_false_iff.mpr hne
      · rw [hname]
        exact hfirst g' hg'

/-- A new name goes to the end. -/
theorem setHeader_new (hnone : ∀ g ∈ headers, isEqual g.1 name = false) (value : Bytes) :
    setHeader name value headers = headers ++ [(name, value)] := by
  induction headers with
  | nil => rfl
  | cons g headers ih =>
    obtain ⟨hfirst, hrest⟩ := forall_mem_cons.mp hnone
    rw [setHeader, if_neg (Bool.eq_false_iff.mp hfirst), ih hrest]
    rfl

/-- A map made anew has one entry for each name, and headers without a name twice are the
    map made from them. -/
theorem rebuilt_distinct (headers : List Header) : Distinct (rebuilt headers) := by
  have hkeep : ∀ map, Distinct map → Distinct (headers.foldl insertOrAssignCi map) := by
    induction headers with
    | nil => exact fun map h => h
    | cons h headers ih => exact fun map hmap => ih _ (distinct_setHeader h hmap)
  exact hkeep [] .nil

/-- A list without a name twice is rebuilt as it is. -/
theorem rebuilt_eq (hd : Distinct headers) : rebuilt headers = headers := by
  have happend : ∀ map, Distinct (map ++ headers) →
      headers.foldl insertOrAssignCi map = map ++ headers := by
    clear hd
    induction headers with
    | nil => exact fun map _ => (append_nil map).symm
    | cons h headers ih =>
      intro map hmap
      have hnew : ∀ g ∈ map, isEqual g.1 h.1 = false := fun g hg =>
        (pairwise_append.mp hmap).2.2 g hg h mem_cons_self
      rw [append_cons] at hmap ⊢
      rw [foldl_cons, insertOrAssignCi, setHeader_new hnew]
      exact ih _ hmap
  exact happend [] hd

theorem rebuilt_isSome (headers : List Header) :
    ∀ h ∈ headers, (findCi (rebuilt headers) h.1).isSome = true := by
  have hkeep : ∀ map n, (findCi map n).isSome = true ∨ (∃ h ∈ headers, h.1 = n) →
      (findCi (headers.foldl insertOrAssignCi map) n).isSome = true := by
    induction headers with
    | nil =>
      rintro map n (hmap | ⟨h, hh, -⟩)
      · exact hmap
      · cases hh
    | cons h headers ih =>
      intro map n hor
      refine ih _ n ?_
      rw [insertOrAssignCi, findCi_setHeader]
      split
      · exact .inl rfl
      · rename_i hne
        obtain hmap | ⟨g, hg, rfl⟩ := hor
        · exact .inl hmap
        · obtain rfl | hg := mem_cons.mp hg
          · exact absurd (isEqual_iff.mpr rfl) hne
          · exact .inr ⟨g, hg, rfl⟩
  exact fun h hh => hkeep [] h.1 (.inr ⟨h, hh, rfl⟩)

/-- A name that is removed is not found any more, and the others stay. -/
theorem findCi_eraseP (hd : Distinct headers) (name n : Bytes) :
    findCi (headers.eraseP fun h => isEqual h.1 name) n =
      if isEqual name n then none else findCi headers n := by
  induction headers with
  | nil => rw [eraseP_nil, findCi_nil, ite_self]
  | cons h headers ih =>
    obtain ⟨hfirst, hrest⟩ := pairwise_cons.mp hd
    by_cases hname : isEqual h.1 name = true
    · rw [eraseP_cons, hname, cond_true, findCi_cons, isEqual_congr hname]
      split
      · rename_i hn
        rw [← Option.not_isSome_iff_eq_none, findCi_isSome]
        rintro ⟨g, hg, heq⟩
        have hsame : isEqual h.1 g.1 = true := by
          rw [isEqual_congr hname, isEqual_congr hn]
          exact isEqual_symm heq
        exact Bool.false_ne_true ((hfirst g hg).symm.trans hsame)
      · rfl
    · rw [eraseP_cons, Bool.eq_false_iff.mpr hname, cond_false, findCi_cons, findCi_cons,
        ih hrest]
      by_cases hn : isEqual name n = true
      · have hother : ¬ isEqual h.1 n = true := fun h' =>
          hname ((isEqual_congr_right hn h.1).trans h')
        rw [if_neg hother, if_pos hn, if_pos hn]
      · rw [if_neg hn, if_neg hn]

/-! ## What holds behind any calls -/

/-- The containers in step: the map is what is owned, if anything is, and every view is of a
    name in the map. -/
structure Sound (res : HttpResponse) : Prop where
  store : Distinct res.store
  map : Distinct res.map
  owned : res.store ≠ [] → res.map = res.store
  views : ∀ h ∈ res.views, (findCi res.map h.1).isSome = true

variable {res : HttpResponse}

/-- The map alone decides what `header` gives. -/
theorem Sound.header_eq (hs : Sound res) (n : Bytes) : header res n = findCi res.map n := by
  rw [header]
  cases hmap : findCi res.map n with
  | some v => rfl
  | none =>
    rw [Option.none_or, ← Option.not_isSome_iff_eq_none, findCi_isSome]
    rintro ⟨h, hh, heq⟩
    have hsome := hs.views h hh
    rw [findCi_congr heq, hmap] at hsome
    cases hsome

/-- The state that `set` and `remove_header` build anew. -/
theorem sound_rebuilt (res : HttpResponse) (hd : Distinct store) :
    Sound { res with store, views := store, map := rebuilt store } := by
  refine ⟨hd, rebuilt_distinct store, fun _ => rebuilt_eq hd, rebuilt_isSome store⟩

/-- A name that is owned keeps its place in all three containers. -/
theorem set_owned (hs : Sound res) (hfound : res.store.find? (fun h => isEqual h.1 name) = some h)
    (value : Bytes) : (set name value res).map = setHeader name value res.store ∧
      (set name value res).store = setHeader name value res.store := by
  have hmem := mem_of_find?_eq_some hfound
  have hname := find?_some hfound
  have hsame : ∀ l : List Header, h ∈ l → setHeader h.1 value l = setHeader name value l := by
    intro l
    induction l with
    | nil => exact fun hl => absurd hl not_mem_nil
    | cons g l ih =>
      intro hl
      rw [setHeader, setHeader, isEqual_congr_right hname]
      split
      · rfl
      · rename_i hne
        obtain rfl | hl := mem_cons.mp hl
        · exact absurd hname hne
        · rw [ih hl]
  rw [set, hfound]
  refine ⟨?_, rfl⟩
  show insertOrAssignCi res.map (h.1, value) = _
  rw [insertOrAssignCi, hs.owned (ne_nil_of_mem hmem)]
  exact hsame res.store hmem

/-- A name that is not owned is owned, and nothing else is left that was not. -/
theorem set_new (hs : Sound res) (hnone : res.store.find? (fun h => isEqual h.1 name) = none)
    (value : Bytes) : Distinct (res.store ++ [(name, value)]) ∧
      set name value res = { res with
        store := res.store ++ [(name, value)]
        views := res.store ++ [(name, value)]
        map := rebuilt (res.store ++ [(name, value)]) } := by
  refine ⟨pairwise_append.mpr ⟨hs.store, pairwise_singleton _ _, ?_⟩, ?_⟩
  · intro g hg f hf
    rw [mem_singleton.mp hf]
    exact Bool.eq_false_iff.mpr (find?_eq_none.mp hnone g hg)
  · rw [set, hnone]

/-- What `header` gives behind `set`. -/
theorem findCi_set (hs : Sound res) (name value n : Bytes) :
    findCi (set name value res).map n =
      if isEqual name n then some value else findCi res.store n := by
  cases hfound : res.store.find? fun h => isEqual h.1 name with
  | some h =>
    rw [(set_owned hs hfound value).1, findCi_setHeader]
  | none =>
    obtain ⟨hd, hset⟩ := set_new hs hfound value
    have hnone : ∀ g ∈ res.store, isEqual g.1 name = false := fun g hg =>
      Bool.eq_false_iff.mpr (find?_eq_none.mp hfound g hg)
    rw [hset]
    dsimp only
    rw [rebuilt_eq hd, ← setHeader_new hnone, findCi_setHeader]

/-- `set` keeps the containers in step. -/
theorem sound_set (hs : Sound res) (name value : Bytes) : Sound (set name value res) := by
  cases hfound : res.store.find? fun h => isEqual h.1 name with
  | none =>
    obtain ⟨hd, hset⟩ := set_new hs hfound value
    rw [hset]
    exact sound_rebuilt res hd
  | some h =>
    obtain ⟨hmap, hstore⟩ := set_owned hs hfound value
    have hd := distinct_setHeader (name, value) hs.store
    refine ⟨hstore ▸ hd, hmap ▸ hd, fun _ => hmap.trans hstore.symm, ?_⟩
    have hviews : (set name value res).views = setView name h.1 value res.views := by
      rw [set, hfound]
    have hown : (findCi res.store h.1).isSome = true :=
      findCi_isSome.mpr ⟨h, mem_of_find?_eq_some hfound, isEqual_iff.mpr rfl⟩
    have hkeep : ∀ n, (findCi res.store n).isSome = true →
        (findCi (setHeader name value res.store) n).isSome = true := by
      intro n hn
      rw [findCi_setHeader]
      split
      · rfl
      · exact hn
    have hold : ∀ g ∈ res.views, (findCi res.store g.1).isSome = true := by
      intro g hg
      rw [← hs.owned (ne_nil_of_mem (mem_of_find?_eq_some hfound))]
      exact hs.views g hg
    rw [hviews, hmap]
    intro f hf
    rw [setView] at hf
    split at hf
    · obtain hname | ⟨g, hg, hname⟩ := setHeader_names (name, value) res.views f hf
      · rw [hname, findCi_setHeader, if_pos (isEqual_iff.mpr rfl)]
        rfl
      · rw [hname]
        exact hkeep _ (hold g hg)
    · obtain hf | hf := mem_append.mp hf
      · exact hkeep _ (hold f hf)
      · rw [mem_singleton.mp hf]
        exact hkeep _ hown

theorem distinct_eraseP (hd : Distinct store) (name : Bytes) :
    Distinct (store.eraseP fun h => isEqual h.1 name) :=
  List.Pairwise.sublist eraseP_sublist hd

/-- **Any call** keeps the containers in step. -/
theorem sound_call (codec : Codec) (hs : Sound res) (c : Call) : Sound (call codec res c) := by
  cases c with
  | parse buffer =>
    rw [call, parse]
    cases codec.parseResponse buffer with
    | none => exact ⟨hs.store, hs.map, hs.owned, fun h hh => absurd hh not_mem_nil⟩
    | some p =>
      exact ⟨.nil, rebuilt_distinct p.headers, fun hne => absurd rfl hne,
        rebuilt_isSome p.headers⟩
  | set name value => exact sound_set hs name value
  | removeHeader name => exact sound_rebuilt res (distinct_eraseP hs.store name)

/-- They are in step after any calls. -/
theorem sound_made (codec : Codec) (calls : List Call) : Sound (made codec calls) := by
  have hrun : ∀ res, Sound res → Sound (calls.foldl (call codec) res) := by
    induction calls with
    | nil => exact fun res hs => hs
    | cons c calls ih => exact fun res hs => ih _ (sound_call codec hs c)
  exact hrun {} ⟨.nil, .nil, fun hne => absurd rfl hne, fun h hh => absurd hh not_mem_nil⟩

/-! ## Edits -/

/-- What is not owned and not named is what an edit loses. -/
theorem owned_iff (hs : Sound res) (name : Bytes) :
    Owned res name ↔ ∀ n, isEqual n name = false → findCi res.store n = findCi res.map n := by
  by_cases hstore : res.store = []
  · rw [Owned, hstore]
    constructor
    · intro h n hn
      symm
      rw [findCi_nil, ← Option.not_isSome_iff_eq_none, findCi_isSome]
      rintro ⟨f, hf, heq⟩
      rw [← isEqual_congr heq, h rfl f hf] at hn
      cases hn
    · intro h _ f hf
      by_contra hne
      have hsome : (findCi res.map f.1).isSome = true :=
        findCi_isSome.mpr ⟨f, hf, isEqual_iff.mpr rfl⟩
      rw [← h f.1 (Bool.eq_false_iff.mpr hne)] at hsome
      cases hsome
  · exact iff_of_true (fun hnil => absurd hnil hstore) fun n _ => by rw [hs.owned hstore]

/-- `set` is local to its name exactly when nothing else in the map is lost by it. -/
theorem setLocal_iff (hs : Sound res) (name value : Bytes) :
    SetLocal res name value ↔ Owned res name := by
  have hset : ∀ n, header (set name value res) n =
      if isEqual name n then some value else findCi res.store n := fun n => by
    rw [(sound_set hs name value).header_eq, findCi_set hs]
  rw [owned_iff hs]
  constructor
  · intro h n hn
    have hother := h.other n hn
    rw [hset, isEqual_comm, hn, if_neg Bool.false_ne_true, hs.header_eq] at hother
    exact hother
  · intro h
    constructor
    · intro n hn
      rw [hset, isEqual_comm, if_pos hn]
    · intro n hn
      rw [hset, isEqual_comm, hn, if_neg Bool.false_ne_true, hs.header_eq]
      exact h n hn

/-- So is `remove`. -/
theorem removeLocal_iff (hs : Sound res) (name : Bytes) :
    RemoveLocal res name ↔ Owned res name := by
  have hd := distinct_eraseP hs.store name
  have hremove : ∀ n, header (removeHeader name res) n =
      if isEqual name n then none else findCi res.store n := fun n => by
    rw [removeHeader, (sound_rebuilt res hd).header_eq]
    dsimp only
    rw [rebuilt_eq hd, findCi_eraseP hs.store]
  rw [owned_iff hs]
  constructor
  · intro h n hn
    have hother := h.other n hn
    rw [hremove, isEqual_comm, hn, if_neg Bool.false_ne_true, hs.header_eq] at hother
    exact hother
  · intro h
    constructor
    · intro n hn
      rw [hremove, isEqual_comm, if_pos hn]
    · intro n hn
      rw [hremove, isEqual_comm, hn, if_neg Bool.false_ne_true, hs.header_eq]
      exact h n hn

/-- Every header is written once, with the value that `header` gives. -/
theorem written_of_sound (codec : Codec) (hs : Sound res) : Written codec res := by
  have hmap : (message codec res).headers = res.map := by
    show (if res.map ≠ [] then res.map else res.views) = res.map
    split
    · rfl
    · rename_i hempty
      rw [not_not] at hempty
      rw [hempty]
      refine eq_nil_iff_forall_not_mem.mpr fun h hh => ?_
      have hsome := hs.views h hh
      rw [hempty] at hsome
      cases hsome
  refine ⟨hmap, hs.map, fun n => ?_⟩
  rw [hmap, hs.header_eq]

theorem set_whole (hs : Sound res) (hown : res.map = res.store) (h : Header) :
    (set h.1 h.2 res).map = setHeader h.1 h.2 res.map ∧
      (set h.1 h.2 res).map = (set h.1 h.2 res).store := by
  cases hfound : res.store.find? fun g => isEqual g.1 h.1 with
  | some g =>
    obtain ⟨hmap, hstore⟩ := set_owned hs hfound h.2
    rw [hmap, hstore, hown]
    exact ⟨rfl, rfl⟩
  | none =>
    obtain ⟨hd, hset⟩ := set_new hs hfound h.2
    have hnone : ∀ g ∈ res.store, isEqual g.1 h.1 = false := fun g hg =>
      Bool.eq_false_iff.mpr (find?_eq_none.mp hfound g hg)
    rw [hset, hown]
    dsimp only
    rw [rebuilt_eq hd, setHeader_new hnone]
    exact ⟨rfl, rfl⟩

/-- As long as nothing is parsed or removed, the three containers are the one list that
    `Http1Response` keeps. -/
theorem made_sets (codec : Codec) (sets : List Header) :
    (made codec (sets.map fun h => .set h.1 h.2)).map =
      (sets.foldl (fun r h => r.set h.1 h.2) ({} : Http1Response.HttpResponse)).headers := by
  have hrun : ∀ (res : HttpResponse) (r : Http1Response.HttpResponse), Sound res →
      res.map = res.store → res.map = r.headers →
        ((sets.map fun h => Call.set h.1 h.2).foldl (call codec) res).map =
          (sets.foldl (fun r h => r.set h.1 h.2) r).headers := by
    induction sets with
    | nil => exact fun res r _ _ hsame => hsame
    | cons h sets ih =>
      intro res r hs hown hsame
      obtain ⟨hmap, hstore⟩ := set_whole hs hown h
      exact ih _ _ (sound_set hs h.1 h.2) hstore (hmap.trans (by rw [hsame]; rfl))
  exact hrun {} {} (sound_made codec []) rfl rfl

/-- **Edits are local** behind any calls exactly when the map has nothing that is not owned
    but what is edited; and what is serialized is the map in any case. -/
theorem edits_local_iff (codec : Codec) (calls : List Call) :
    (∀ name value, SetLocal (made codec calls) name value ↔ Owned (made codec calls) name) ∧
      (∀ name, RemoveLocal (made codec calls) name ↔ Owned (made codec calls) name) ∧
      Written codec (made codec calls) := by
  have hs := sound_made codec calls
  exact ⟨setLocal_iff hs, removeLocal_iff hs, written_of_sound codec hs⟩

/-- The object with the HTTP/1 codec. -/
def http1 : Codec where
  parseResponse buffer :=
    match Http1Codec.parseResponse buffer with
    | some (.success m _) =>
        some { statusCode := m.statusCode, statusText := m.statusText, headers := m.headers
               body := m.body }
    | _ => none
  dechunk body := (Http1Codec.dechunk body).getD []
  statusTextFor := Http1Response.statusTextFor

/-- A header that has been parsed is lost when another one is set. -/
theorem parsed_header_lost :
    ¬ ∀ codec calls name value, SetLocal (made codec calls) name value := by
  intro h
  have hlocal := (h http1 [.parse (text "HTTP/1.1 200 OK\r\nA: 1\r\n\r\n")] (text "B")
    (text "2")).other (text "A") (by decide)
  exact absurd hlocal (by decide)

end ResponseHeaders
