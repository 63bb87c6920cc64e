import WaveX.HttpText

/-! # Request targets

    `uri::encode` and `uri::decode` of `src/Base/Uri.cpp`, the target that
    `HttpClient::send` builds for a request (`src/Client/HttpClient.cpp`), and
    `HttpRequest::extract_path_query`, which takes it apart on the server
    (`include/wavex/protos/http/HttpRequest.hpp`).

    A target is in absolute form for the server when "://" stands anywhere in it.  So the
    query of a target in origin form can decide which path is routed, and a path with
    "://" in it is not the path that is routed. -/

namespace RequestTarget

open QuicVarInt HttpText List

/-! ## Percent-encoding -/

def percent : UInt8 := 0x25

def ampersand : UInt8 := 0x26

def plus : UInt8 := 0x2b

def slash : UInt8 := 0x2f

def equals : UInt8 := 0x3d

def question : UInt8 := 0x3f

/-- `is_unreserved`. -/
def isUnreserved (c : UInt8) : Bool :=
  decide (0x30 ≤ c ∧ c ≤ 0x39 ∨ 0x41 ≤ c ∧ c ≤ 0x5a ∨ 0x61 ≤ c ∧ c ≤ 0x7a ∨
    c = 0x2d ∨ c = 0x5f ∨ c = 0x2e ∨ c = 0x7e)

/-- `hex_digit`. -/
def hexDigit (nibble : Nat) : UInt8 :=
  if nibble < 10 then UInt8.ofNat (0x30 + nibble) else UInt8.ofNat (0x41 + (nibble - 10))

/-- A character of the output of `encode`. -/
def encodeChar (c : UInt8) : Bytes :=
  if isUnreserved c then [c] else [percent, hexDigit (c.toNat / 16), hexDigit (c.toNat % 16)]

/-- `encode`. -/
def encode (raw : Bytes) : Bytes := raw.flatMap encodeChar

/-- A character that is not an escape: '+' stands for a space. -/
def plainChar (c : UInt8) : UInt8 := if c = plus then 0x20 else c

/-- `decode_to`, and `decode`: an escape that is not complete passes through. -/
def decode : Bytes → Bytes
  | c :: hi :: lo :: rest =>
      if c = percent then
        match hexValue hi, hexValue lo with
        | some h, some l => UInt8.ofNat (h * 16 + l) :: decode rest
        | _, _ => percent :: decode (hi :: lo :: rest)
      else plainChar c :: decode (hi :: lo :: rest)
  | c :: rest => plainChar c :: decode rest
  | [] => []

theorem decode_plain {c : UInt8} (hpercent : c ≠ percent) (hplus : c ≠ plus) (rest : Bytes) :
    decode (c :: rest) = c :: decode rest := by
  have hplain : plainChar c = c := if_neg hplus
  match rest with
  | [] => rw [decode, hplain]; exact nofun
  | [_] => rw [decode, hplain]; exact nofun
  | _ :: _ :: _ => rw [decode, if_neg hpercent, hplain]

theorem decode_escape (c : UInt8) (rest : Bytes) :
    decode (percent :: hexDigit (c.toNat / 16) :: hexDigit (c.toNat % 16) :: rest) =
      c :: decode rest := by
  have hdigits : ∀ n < 16, hexValue (hexDigit n) = some n := by decide
  have hlt := c.toNat_lt
  rw [decode, if_pos rfl, hdigits _ (by omega), hdigits _ (by omega)]
  dsimp only
  rw [Nat.div_add_mod', UInt8.ofNat_toNat]

theorem decode_encode_append (s rest : Bytes) : decode (encode s ++ rest) = s ++ decode rest := by
  have hplain : ∀ c, isUnreserved c = true → c ≠ percent ∧ c ≠ plus := by decide +kernel
  induction s with
  | nil => rfl
  | cons c s ih =>
    rw [encode, flatMap_cons, append_assoc, encodeChar]
    split
    · rename_i hunreserved
      obtain ⟨hpercent, hplus⟩ := hplain c hunreserved
      rw [singleton_append, decode_plain hpercent hplus]
      exact congrArg _ ih
    · rw [cons_append, cons_append, cons_append, nil_append, decode_escape]
      exact congrArg _ ih

/-- Decoding undoes the encoding of any text. -/
theorem decode_encode (s : Bytes) : decode (encode s) = s := by
  have h := decode_encode_append s []
  rw [append_nil] at h
  exact h.trans (append_nil s)

/-- What an encoded text is made of. -/
theorem encode_clean {s : Bytes} {c : UInt8} (h : c ∈ encode s) :
    isUnreserved c = true ∨ c = percent := by
  obtain ⟨b, -, hc⟩ := mem_flatMap.mp h
  have hdigits : ∀ n < 16, isUnreserved (hexDigit n) = true := by decide
  have hlt := b.toNat_lt
  rw [encodeChar] at hc
  split at hc
  · rename_i hunreserved
    rw [mem_singleton.mp hc]
    exact .inl hunreserved
  · simp only [mem_cons, not_mem_nil, or_false] at hc
    obtain rfl | rfl | rfl := hc
    · exact .inr rfl
    · exact .inl (hdigits _ (by omega))
    · exact .inl (hdigits _ (by omega))

/-! ## The server: taking a target apart -/

/-- A key and its value. -/
abbrev Param := Bytes × Bytes

/-- `kMaxQueryParams`. -/
def maxQueryParams : Nat := 64

/-- `insert_or_assign` of a `FlatMap`: a key that is there keeps its place. -/
def insertOrAssign (map : List Param) (p : Param) : List Param :=
  if map.any fun e => e.1 == p.1 then map.map fun e => if e.1 = p.1 then p else e
  else map ++ [p]

/-- A pair between two ampersands; an empty one counts for nothing. -/
def parsePair (pair : Bytes) : List Param :=
  if pair = [] then []
  else
    match splitFirst equals pair with
    | none => [(decode pair, [])]
    | some (key, value) => [(decode key, decode value)]

/-- The loop over the pairs of a query, with its rounds counted down; every round takes
    at least one character. -/
def queryLoop : Nat → Bytes → List Param → List Param
  | 0, _, params => params
  | fuel + 1, remaining, params =>
      if remaining = [] ∨ params.length ≥ maxQueryParams then params
      else
        match splitFirst ampersand remaining with
        | none => params ++ parsePair remaining
        | some (pair, rest) => queryLoop fuel rest (params ++ parsePair pair)

/-- What `extract_path_query` sets. -/
structure Routed where
  target : Bytes
  path : Bytes
  query : List Param := []
  queryParamOverflow : Bool := false
  deriving DecidableEq, Repr

/-- The target without scheme and authority, when "://" stands in it. -/
def pathAndQuery (fullTarget : Bytes) : Bytes :=
  match findText (text "://") fullTarget with
  | none => fullTarget
  | some schemePos =>
      match splitFirst slash (fullTarget.drop (schemePos + 3)) with
      | some (authority, _) => fullTarget.drop (schemePos + 3 + authority.length)
      | none => text "/"

/-- `extract_path_query`. -/
def extractPathQuery (fullTarget : Bytes) : Routed :=
  let target := pathAndQuery fullTarget
  match splitFirst question target with
  | none => { target, path := target }
  | some (path, qs) =>
      let params := queryLoop (qs.length + 1) qs []
      { target, path
        query := params.foldl insertOrAssign []
        queryParamOverflow := decide (params.length ≥ maxQueryParams ∧ qs ≠ []) }

/-! ## The path of a target -/

variable {t path : Bytes}

theorem extractPathQuery_target (t : Bytes) : (extractPathQuery t).target = pathAndQuery t := by
  rw [extractPathQuery]
  dsimp only
  split
  · rfl
  · rfl

/-- The path is what stands before the first '?'. -/
theorem extractPathQuery_path (t : Bytes) :
    (extractPathQuery t).path = (pathAndQuery t).takeWhile (· != question) := by
  rw [extractPathQuery]
  dsimp only
  split
  · rename_i hnone
    have hall : ∀ c ∈ pathAndQuery t, (c != question) = true := by
      intro c hc
      rw [bne_iff_ne]
      rintro rfl
      exact splitFirst_eq_none.mp hnone hc
    exact (takeWhile_eq_self_iff.mpr hall).symm
  · rename_i path qs hsplit
    obtain ⟨ht, hnot⟩ := splitFirst_eq_some.mp hsplit
    have hall : ∀ c ∈ path, (c != question) = true := by
      intro c hc
      rw [bne_iff_ne]
      rintro rfl
      exact hnot hc
    rw [ht, takeWhile_append_of_pos hall]
    simp

/-- A target without `://` is kept. -/
theorem pathAndQuery_of_not (h : ¬ text "://" <:+: t) : pathAndQuery t = t := by
  have hnone : findText (text "://") t = none := by
    rw [← Option.not_isSome_iff_eq_none, findText_isSome]
    exact h
  rw [pathAndQuery, hnone]

/-- With "://" in it a target is cut, or gone. -/
theorem pathAndQuery_of_infix (h : text "://" <:+: t) :
    (∃ k, 0 < k ∧ k ≤ t.length ∧ pathAndQuery t = t.drop k) ∨ pathAndQuery t = text "/" := by
  obtain ⟨pos, hpos⟩ := Option.isSome_iff_exists.mp (findText_isSome.mpr h)
  rw [pathAndQuery, hpos]
  dsimp only
  split
  · rename_i authority rest hsplit
    have hlength := congrArg List.length (splitFirst_eq_some.mp hsplit).1
    rw [length_drop, length_append, length_cons] at hlength
    exact .inl ⟨pos + 3 + authority.length, by omega, by omega, rfl⟩
  · exact .inr rfl

/-- A target with `://` is cut. -/
theorem pathAndQuery_ne (h : text "://" <:+: t) : pathAndQuery t ≠ t := by
  obtain ⟨k, hpos, hle, hcut⟩ | hgone := pathAndQuery_of_infix h
  · intro heq
    have hlength := congrArg List.length (hcut.symm.trans heq)
    rw [length_drop] at hlength
    omega
  · intro heq
    have hlength : (text "://").length ≤ (text "/").length := by
      rw [← hgone, heq]
      exact h.length_le
    exact absurd hlength (by decide)

/-- **The routed path.**  The path is the part of the target before the first '?' and the
    target keeps its text exactly when "://" does not stand in it. -/
theorem routed_path_iff (t : Bytes) :
    ((extractPathQuery t).path = t.takeWhile (· != question) ∧ (extractPathQuery t).target = t) ↔
      ¬ text "://" <:+: t := by
  rw [extractPathQuery_target, extractPathQuery_path]
  constructor
  · rintro ⟨-, htarget⟩ hinfix
    exact pathAndQuery_ne hinfix htarget
  · intro hnot
    rw [pathAndQuery_of_not hnot]
    exact ⟨rfl, rfl⟩

/-- A redirect parameter decides which path is routed. -/
theorem query_routes_request :
    extractPathQuery (text "/login?next=https://example.com/admin") =
      { target := text "/admin", path := text "/admin" } := by
  decide

/-! ## The client: building a target -/

/-- A pair of the query that the client builds. -/
def pairText (p : Param) : Bytes := encode p.1 ++ equals :: encode p.2

/-- The query of `send`: that of the URL and the parameters of the request. -/
def fullQuery (urlQuery : Bytes) (queries : List Param) : Bytes :=
  queries.foldl (fun query p => (if query = [] then [] else query ++ [ampersand]) ++ pairText p)
    urlQuery

/-- The target of `send` for a URL with this path and query. -/
def pathTarget (urlPath urlQuery : Bytes) (queries : List Param) : Bytes :=
  (if urlPath = [] then text "/" else urlPath) ++
    if fullQuery urlQuery queries = [] then [] else question :: fullQuery urlQuery queries

variable {p : Param} {queries : List Param}

theorem fullQuery_append {query : Bytes} (h : query ≠ []) (queries : List Param) :
    fullQuery query queries = query ++ queries.flatMap fun p => ampersand :: pairText p := by
  induction queries generalizing query with
  | nil => exact (append_nil query).symm
  | cons p queries ih =>
    have hmore : query ++ [ampersand] ++ pairText p ≠ [] := by simp [h]
    rw [fullQuery, foldl_cons, if_neg h, flatMap_cons]
    refine (ih hmore).trans ?_
    simp only [append_assoc, cons_append, nil_append]

theorem pairText_ne_nil (p : Param) : pairText p ≠ [] := by simp [pairText]

theorem fullQuery_cons (p : Param) (queries : List Param) :
    fullQuery [] (p :: queries) =
      pairText p ++ queries.flatMap fun p => ampersand :: pairText p := by
  rw [← fullQuery_append (pairText_ne_nil p)]
  rfl

/-- What a query is made of. -/
theorem fullQuery_clean {c : UInt8} (h : c ∈ fullQuery [] queries) :
    isUnreserved c = true ∨ c = percent ∨ c = equals ∨ c = ampersand := by
  have hpair : ∀ p, c ∈ pairText p → isUnreserved c = true ∨ c = percent ∨ c = equals := by
    intro p hc
    rw [pairText, mem_append, mem_cons] at hc
    obtain hkey | rfl | hvalue := hc
    · exact (encode_clean hkey).imp_right .inl
    · exact .inr (.inr rfl)
    · exact (encode_clean hvalue).imp_right .inl
  have hweak : ∀ p, c ∈ pairText p →
      isUnreserved c = true ∨ c = percent ∨ c = equals ∨ c = ampersand := fun p hc =>
    (hpair p hc).imp_right fun hc => hc.imp_right .inl
  cases queries with
  | nil => cases h
  | cons p queries =>
    rw [fullQuery_cons, mem_append, mem_flatMap] at h
    obtain hfirst | ⟨p', -, hc⟩ := h
    · exact hweak p hfirst
    · obtain rfl | hc := mem_cons.mp hc
      · exact .inr (.inr (.inr rfl))
      · exact hweak p' hc

/-- None of the characters that structure a target is in a query. -/
theorem fullQuery_not_mem (queries : List Param) :
    0x3a ∉ fullQuery [] queries ∧ slash ∉ fullQuery [] queries ∧
      question ∉ fullQuery [] queries := by
  have hnone : ∀ c ∈ [0x3a, slash, question],
      ¬ (isUnreserved c = true ∨ c = percent ∨ c = equals ∨ c = ampersand) := by decide +kernel
  refine ⟨fun h => ?_, fun h => ?_, fun h => ?_⟩
  · exact hnone _ (by decide) (fullQuery_clean h)
  · exact hnone _ (by decide) (fullQuery_clean h)
  · exact hnone _ (by decide) (fullQuery_clean h)

/-! ## Client and server -/

/-- A pair is read back. -/
theorem parsePair_pairText (p : Param) : parsePair (pairText p) = [p] := by
  have hequals : equals ∉ encode p.1 := by
    intro h
    exact absurd (encode_clean h) (by decide)
  rw [parsePair, if_neg (pairText_ne_nil p), pairText, splitFirst_append hequals]
  dsimp only
  rw [decode_encode, decode_encode]

theorem ampersand_not_mem (p : Param) : ampersand ∉ pairText p := by
  rw [pairText, mem_append, mem_cons]
  rintro (hkey | heq | hvalue)
  · exact absurd (encode_clean hkey) (by decide)
  · exact absurd heq (by decide)
  · exact absurd (encode_clean hvalue) (by decide)

/-- The loop reads the pairs back, as long as there are not too many. -/
theorem queryLoop_pairs {fuel : Nat} {params : List Param} (hfuel : queries.length < fuel)
    (hcap : params.length + queries.length < maxQueryParams) :
    queryLoop fuel (pairText p ++ queries.flatMap fun p => ampersand :: pairText p) params =
      params ++ p :: queries := by
  induction queries generalizing p fuel params with
  | nil =>
    obtain ⟨fuel, rfl⟩ := Nat.exists_eq_succ_of_ne_zero (Nat.ne_of_gt hfuel)
    rw [flatMap_nil, append_nil, queryLoop, if_neg,
      splitFirst_eq_none.mpr (ampersand_not_mem p)]
    · exact congrArg _ (parsePair_pairText p)
    · rintro (hnil | hfull)
      · exact pairText_ne_nil p hnil
      · omega
  | cons p' queries ih =>
    obtain ⟨fuel, rfl⟩ := Nat.exists_eq_succ_of_ne_zero
      (Nat.ne_of_gt (Nat.lt_of_le_of_lt (Nat.zero_le _) hfuel))
    rw [length_cons] at hfuel hcap
    rw [flatMap_cons, cons_append, queryLoop, if_neg,
      splitFirst_append (ampersand_not_mem p)]
    · dsimp only
      rw [parsePair_pairText, ih (by omega) (by rw [length_append, length_singleton]; omega),
        append_assoc, singleton_append]
    · rintro (hnil | hfull)
      · exact pairText_ne_nil p (append_eq_nil_iff.mp hnil).1
      · omega

theorem insertOrAssign_fresh {map : List Param} (h : p.1 ∉ map.map Prod.fst) :
    insertOrAssign map p = map ++ [p] := by
  rw [insertOrAssign, if_neg]
  intro hany
  obtain ⟨e, he, heq⟩ := any_eq_true.mp hany
  exact h (beq_iff_eq.mp heq ▸ mem_map_of_mem he)

/-- Distinct keys make the map they are listed in. -/
theorem insertOrAssign_distinct (map : List Param)
    (h : ((map ++ queries).map Prod.fst).Nodup) :
    queries.foldl insertOrAssign map = map ++ queries := by
  induction queries generalizing map with
  | nil => exact (append_nil map).symm
  | cons p queries ih =>
    have hfresh : p.1 ∉ map.map Prod.fst := by
      rw [map_append, nodup_append] at h
      intro hmem
      exact h.2.2 _ hmem _ mem_cons_self rfl
    rw [append_cons] at h
    rw [foldl_cons, insertOrAssign_fresh hfresh, ih _ h, ← append_cons]

/-- A text none of whose characters is in the second part stands in the first. -/
theorem infix_of_append {pattern a b : Bytes} (hne : pattern ≠ []) (hb : ∀ c ∈ pattern, c ∉ b)
    (h : pattern <:+: a ++ b) : pattern <:+: a := by
  obtain ⟨l, r, hlr⟩ := h
  obtain ⟨x, ha, -⟩ | ⟨x, hx, hxr⟩ := append_eq_append_iff.mp hlr
  · exact ⟨l, x, ha.symm⟩
  · -- the pattern ends in the second part, or where that starts
    cases x using List.reverseRecOn with
    | nil =>
      rw [append_nil] at hx
      rw [← hx]
      exact (suffix_append l pattern).isInfix
    | append_singleton x c =>
      have hlast : pattern.getLast hne = c := by
        have hgetLast := congrArg List.getLast? hx
        rw [getLast?_append, getLast?_append, getLast?_append,
          getLast?_eq_some_getLast hne] at hgetLast
        exact Option.some.inj hgetLast
      refine absurd ?_ (hb c (hlast ▸ getLast_mem hne))
      rw [hxr]
      exact mem_append_left _ (mem_append_right _ (mem_singleton_self c))

/-- What follows the path in the target. -/
def queryPart (queries : List Param) : Bytes :=
  if fullQuery [] queries = [] then [] else question :: fullQuery [] queries

theorem queryPart_not_mem (queries : List Param) :
    0x3a ∉ queryPart queries ∧ slash ∉ queryPart queries := by
  obtain ⟨hcolon, hslash, -⟩ := fullQuery_not_mem queries
  rw [queryPart]
  split
  · exact ⟨not_mem_nil, not_mem_nil⟩
  · constructor
    · rw [mem_cons]
      rintro (heq | hmem)
      · exact absurd heq (by decide)
      · exact hcolon hmem
    · rw [mem_cons]
      rintro (heq | hmem)
      · exact absurd heq (by decide)
      · exact hslash hmem

theorem infix_target {queries : List Param} (h : text "://" <:+: path ++ queryPart queries) :
    text "://" <:+: path := by
  obtain ⟨hcolon, hslash⟩ := queryPart_not_mem queries
  refine infix_of_append (by decide) ?_ h
  intro c hc
  have hchars : ∀ c ∈ text "://", c = 0x3a ∨ c = slash := by decide +kernel
  obtain rfl | rfl := hchars c hc
  · exact hcolon
  · exact hslash

/-- A target that is taken whole gives the path and the parameters back. -/
theorem extractPathQuery_whole (hpath : question ∉ path)
    (hnot : ¬ text "://" <:+: path) (hcount : queries.length < maxQueryParams)
    (hkeys : (queries.map Prod.fst).Nodup) :
    extractPathQuery (path ++ queryPart queries) =
      { target := path ++ queryPart queries, path, query := queries } := by
  rw [extractPathQuery, pathAndQuery_of_not fun h => hnot (infix_target h)]
  dsimp only
  cases queries with
  | nil =>
    rw [show queryPart [] = [] from rfl, append_nil, splitFirst_eq_none.mpr hpath]
  | cons p queries =>
    have hne : fullQuery [] (p :: queries) ≠ [] := by
      rw [fullQuery_cons]
      exact fun hnil => pairText_ne_nil p (append_eq_nil_iff.mp hnil).1
    rw [length_cons] at hcount
    have hloop : queryLoop ((fullQuery [] (p :: queries)).length + 1)
        (fullQuery [] (p :: queries)) [] = p :: queries := by
      rw [fullQuery_cons]
      refine queryLoop_pairs ?_ (by rw [length_nil]; omega)
      have hpairs : queries.length ≤
          (queries.flatMap fun p => ampersand :: pairText p).length := by
        have hone := length_le_sum_of_one_le
          (queries.map fun p => (ampersand :: pairText p).length) fun n hn => by
            obtain ⟨p, -, rfl⟩ := mem_map.mp hn
            exact Nat.le_add_left 1 _
        rw [length_map] at hone
        rw [length_flatMap]
        exact hone
      rw [length_append]
      omega
    rw [queryPart, if_neg hne, splitFirst_append hpath]
    dsimp only
    rw [hloop, insertOrAssign_distinct [] hkeys, nil_append,
      decide_eq_false (fun h => absurd h.1 (by rw [length_cons]; omega))]

/-- A path with "://" in it is not the path that is routed. -/
theorem extractPathQuery_cut (hpath : question ∉ path) (h : text "://" <:+: path)
    (queries : List Param) : (extractPathQuery (path ++ queryPart queries)).path ≠ path := by
  obtain ⟨hcolon, -⟩ := queryPart_not_mem queries
  have hin : 0x3a ∈ path := h.subset (by decide)
  rw [extractPathQuery_path]
  intro heq
  obtain ⟨k, hpos, -, hcut⟩ | hgone :=
    pathAndQuery_of_infix (h.trans (prefix_append path (queryPart queries)).isInfix)
  · rw [hcut] at heq
    by_cases hk : k ≤ path.length
    · have hall : ∀ c ∈ path.drop k, (c != question) = true := by
        intro c hc
        rw [bne_iff_ne]
        rintro rfl
        exact hpath (mem_of_mem_drop hc)
      have hstop : (queryPart queries).takeWhile (· != question) = [] := by
        rw [queryPart]
        split
        · rfl
        · rfl
      rw [drop_append_of_le_length hk, takeWhile_append_of_pos hall, hstop,
        append_nil] at heq
      have hlength := congrArg List.length heq
      rw [length_drop] at hlength
      omega
    · rw [drop_append, drop_of_length_le (by omega), nil_append] at heq
      rw [← heq] at hin
      exact hcolon (mem_of_mem_drop (takeWhile_subset _ hin))
  · rw [hgone] at heq
    have hsingle : (text "/").takeWhile (· != question) = text "/" := by decide
    rw [hsingle] at heq
    rw [← heq] at hin
    exact absurd hin (by decide)

/-- **Client and server agree on query parameters**, and on the path, for every list of
    fewer than 64 parameters with distinct keys, exactly when "://" does not stand in the
    path of the URL; decoding undoes encoding in any case. -/
theorem query_agreement_iff (urlPath : Bytes) (queries : List (Bytes × Bytes))
    (hquestion : question ∉ urlPath) (hcount : queries.length < maxQueryParams)
    (hkeys : (queries.map Prod.fst).Nodup) :
    (∀ s, decode (encode s) = s) ∧
      (((extractPathQuery (pathTarget urlPath [] queries)).path =
            (if urlPath = [] then text "/" else urlPath) ∧
          (extractPathQuery (pathTarget urlPath [] queries)).query = queries) ↔
        ¬ text "://" <:+: urlPath) := by
  refine ⟨decode_encode, ?_⟩
  have htarget : pathTarget urlPath [] queries =
      (if urlPath = [] then text "/" else urlPath) ++ queryPart queries := rfl
  rw [htarget]
  by_cases hnil : urlPath = []
  · rw [if_pos hnil, extractPathQuery_whole (by decide) (by decide) hcount hkeys,
      hnil]
    exact iff_of_true ⟨rfl, rfl⟩ (by decide)
  · rw [if_neg hnil]
    constructor
    · rintro ⟨hpath, -⟩ hinfix
      exact extractPathQuery_cut hquestion hinfix queries hpath
    · intro hnot
      rw [extractPathQuery_whole hquestion hnot hcount hkeys]
      exact ⟨rfl, rfl⟩

/-- Parameters with the characters that structure a query, in a target and back. -/
theorem query_agreement_escaped :
    (extractPathQuery (pathTarget (text "/a b") []
        [(text "k&=", text "?%+ "), (text "", text ""), (text "u", [0xff, 0x00])])).query =
      [(text "k&=", text "?%+ "), (text "", text ""), (text "u", [0xff, 0x00])] :=
  ((query_agreement_iff (text "/a b")
    [(text "k&=", text "?%+ "), (text "", text ""), (text "u", [0xff, 0x00])]
    (by decide) (by decide) (by decide)).2.mpr (by decide)).2

/-- With "://" in the path, the path that is routed is another and the parameters are
    lost. -/
theorem path_with_scheme_lost :
    pathTarget (text "/proxy/http://b") [] [(text "k", text "v")] =
        text "/proxy/http://b?k=v" ∧
      extractPathQuery (text "/proxy/http://b?k=v") = { target := text "/", path := text "/" } := by
  decide

end RequestTarget
