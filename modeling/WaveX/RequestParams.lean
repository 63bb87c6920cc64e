import WaveX.FlatMap
import WaveX.RequestTarget

/-! # Query and route parameters

    `HttpRequest::extract_path_query`, `set_params` and `set_param` of
    `include/wavex/protos/http/HttpRequest.hpp`, with the buffers they decode into.  The
    parameters are views into a buffer that is filled by the same loop, so a view has to
    stay what it was while more is written behind it.

    The query is taken apart by a loop that stops at 64 parameters, and the flag for more
    than that is set for 64 as well.  Route parameters are decoded when they have a '%' in
    them, and what is decoded then is not only the '%'. -/

namespace RequestParams

open QuicVarInt (Bytes text)
open HttpText RequestTarget List

/-! ## Views into a buffer -/

/-- A view of `len` bytes of a buffer. -/
def view (base : Bytes) (start len : Nat) : Bytes := (base.drop start).take len

theorem view_append {base : Bytes} {start len : Nat} (h : start + len ≤ base.length)
    (more : Bytes) : view (base ++ more) start len = view base start len := by
  rw [view, view, drop_append_of_le_length (by omega),
    take_append_of_le_length (by rw [length_drop]; omega)]

theorem view_written (base written : Bytes) :
    view (base ++ written) base.length written.length = written := by
  rw [view, drop_left, take_length]

/-- Decoding makes nothing longer. -/
theorem decode_length_le (s : Bytes) : (decode s).length ≤ s.length := by
  fun_induction decode s with
  | case1 hi lo rest h hh l hl ih =>
    rw [length_cons, length_cons, length_cons, length_cons]
    omega
  | case2 hi lo rest hdigits ih =>
    rw [length_cons, length_cons]
    omega
  | case3 c hi lo rest hc ih =>
    rw [length_cons, length_cons]
    omega
  | case4 c rest hshort ih =>
    rw [length_cons, length_cons]
    omega
  | case5 => exact Nat.le_refl _

/-! ## The query -/

/-- `QuerySlice`. -/
structure QuerySlice where
  kStart : Nat
  kLen : Nat
  vStart : Nat
  vLen : Nat
  hasVal : Bool
  deriving DecidableEq, Repr

/-- A pair that is not empty: its key and its value, decoded behind what is in the buffer. -/
def decodePair (buf pair : Bytes) : Bytes × QuerySlice :=
  match splitFirst equals pair with
  | none =>
      let key := decode pair
      (buf ++ key, ⟨buf.length, key.length, (buf ++ key).length, 0, false⟩)
  | some (rawK, rawV) =>
      let key := decode rawK
      let val := decode rawV
      (buf ++ key ++ val, ⟨buf.length, key.length, (buf ++ key).length, val.length, true⟩)

/-- A pair between two ampersands. -/
def addPair (pair buf : Bytes) (slices : List QuerySlice) : Bytes × List QuerySlice :=
  if pair = [] then (buf, slices)
  else ((decodePair buf pair).1, slices ++ [(decodePair buf pair).2])

/-- The loop over the query, with its rounds counted down: the buffer up to `buf_offset`,
    and the slices. -/
def sliceLoop : Nat → Bytes → Bytes → List QuerySlice → Bytes × List QuerySlice
  | 0, _, buf, slices => (buf, slices)
  | fuel + 1, remaining, buf, slices =>
      if remaining = [] ∨ slices.length ≥ maxQueryParams then (buf, slices)
      else
        match splitFirst ampersand remaining with
        | none => addPair remaining buf slices
        | some (pair, rest) =>
            sliceLoop fuel rest (addPair pair buf slices).1 (addPair pair buf slices).2

/-- The key and the value of a slice. -/
def readSlice (base : Bytes) (sl : QuerySlice) : Param :=
  (view base sl.kStart sl.kLen, if sl.hasVal then view base sl.vStart sl.vLen else [])

/-- `extract_path_query`, with `query_decoded_buf_`. -/
def extractQuery (fullTarget : Bytes) : Routed × Bytes :=
  let target := pathAndQuery fullTarget
  match splitFirst question target with
  | none => ({ target, path := target }, [])
  | some (path, qs) =>
      let r := sliceLoop (qs.length + 1) qs [] []
      ({ target, path
         query := (r.2.map (readSlice r.1)).foldl insertOrAssign []
         queryParamOverflow := decide (r.2.length ≥ maxQueryParams ∧ qs ≠ []) }, r.1)

/-! ## What a query says -/

/-- The part of the target behind the first '?'. -/
def queryString (fullTarget : Bytes) : Bytes :=
  match splitFirst question (pathAndQuery fullTarget) with
  | none => []
  | some (_, qs) => qs

/-- The pairs of a query: what stands between the ampersands and is not empty. -/
def pairs (qs : Bytes) : List Bytes := (qs.splitOn ampersand).filter (· ≠ [])

/-- The key and the value of a pair; without '=' the value is empty. -/
def pairParam (pair : Bytes) : Param :=
  match splitFirst equals pair with
  | none => (decode pair, [])
  | some (key, value) => (decode key, decode value)

/-- The parameters of a query: of the first 64 pairs. -/
def firstParams (qs : Bytes) : List Param := ((pairs qs).take maxQueryParams).map pairParam

/-- The query is taken apart as it should be: each key has the value it was last given, the
    buffer is large enough, and more than 64 pairs are noticed. -/
structure Parsed (r : Routed) (buffer qs : Bytes) : Prop where
  keys : (r.query.map Prod.fst).Nodup
  values : ∀ key, FlatMap.lookup r.query key = FlatMap.lookup (firstParams qs).reverse key
  fits : buffer.length ≤ qs.length
  overflow : r.queryParamOverflow = true ↔ (pairs qs).length > maxQueryParams

/-! ## The loop -/

/-- A slice that lies within the buffer. -/
def Within (buf : Bytes) (sl : QuerySlice) : Prop :=
  sl.kStart + sl.kLen ≤ buf.length ∧ sl.vStart + sl.vLen ≤ buf.length

variable {buf remaining pair qs : Bytes} {slices : List QuerySlice} {params : List Param}

theorem readSlice_append {sl : QuerySlice} (h : Within buf sl) (more : Bytes) :
    Within (buf ++ more) sl ∧ readSlice (buf ++ more) sl = readSlice buf sl := by
  obtain ⟨hkey, hval⟩ := h
  refine ⟨⟨?_, ?_⟩, ?_⟩
  · rw [length_append]
    omega
  · rw [length_append]
    omega
  · rw [readSlice, readSlice, view_append hkey, view_append hval]

/-- A pair goes behind what is in the buffer, and its slice reads it. -/
theorem decodePair_reads (buf pair : Bytes) :
    ∃ more, (decodePair buf pair).1 = buf ++ more ∧ more.length ≤ pair.length ∧
      Within (buf ++ more) (decodePair buf pair).2 ∧
      readSlice (buf ++ more) (decodePair buf pair).2 = pairParam pair := by
  rw [decodePair, pairParam]
  cases hsplit : splitFirst equals pair with
  | none =>
    dsimp only
    refine ⟨decode pair, rfl, decode_length_le pair, ⟨?_, ?_⟩, ?_⟩
    · rw [length_append]
    · exact Nat.le_refl _
    · rw [readSlice]
      exact Prod.ext (view_written buf _) rfl
  | some p =>
    obtain ⟨rawK, rawV⟩ := p
    dsimp only
    obtain ⟨hpair, -⟩ := splitFirst_eq_some.mp hsplit
    have hkey := decode_length_le rawK
    have hval := decode_length_le rawV
    refine ⟨decode rawK ++ decode rawV, append_assoc _ _ _, ?_, ⟨?_, ?_⟩, ?_⟩
    · rw [hpair, length_append, length_append, length_cons]
      omega
    · show buf.length + (decode rawK).length ≤ (buf ++ (decode rawK ++ decode rawV)).length
      rw [length_append, length_append]
      omega
    · rw [← append_assoc]
      exact Nat.le_of_eq length_append.symm
    · rw [← append_assoc]
      refine Prod.ext ?_ (view_written _ _)
      show view (buf ++ decode rawK ++ decode rawV) buf.length _ = _
      rw [view_append (by rw [length_append])]
      exact view_written buf _

/-- Slices that lie within the buffer and read these parameters. -/
structure Reads (buf : Bytes) (slices : List QuerySlice) (params : List Param) : Prop where
  within : ∀ sl ∈ slices, Within buf sl
  params : slices.map (readSlice buf) = params

theorem parsePair_eq (hne : pair ≠ []) : parsePair pair = [pairParam pair] := by
  rw [parsePair, if_neg hne, pairParam]
  cases splitFirst equals pair with
  | none => rfl
  | some p => rfl

theorem addPair_reads (h : Reads buf slices params) (pair : Bytes) :
    Reads (addPair pair buf slices).1 (addPair pair buf slices).2 (params ++ parsePair pair) ∧
      (addPair pair buf slices).1.length ≤ buf.length + pair.length := by
  by_cases hne : pair = []
  · rw [addPair, if_pos hne, parsePair, if_pos hne, append_nil]
    exact ⟨h, Nat.le_add_right _ _⟩
  · obtain ⟨more, hbuf, hlength, hwithin, hread⟩ := decodePair_reads buf pair
    rw [addPair, if_neg hne, parsePair_eq hne, hbuf]
    refine ⟨⟨?_, ?_⟩, ?_⟩
    · intro sl hsl
      obtain hold | hnew := mem_append.mp hsl
      · exact (readSlice_append (h.within sl hold) more).1
      · rw [mem_singleton.mp hnew]
        exact hwithin
    · have hold : slices.map (readSlice (buf ++ more)) = params := by
        rw [← h.params]
        exact map_congr_left fun sl hsl => (readSlice_append (h.within sl hsl) more).2
      rw [map_append, hold, map_singleton, hread]
    · rw [length_append]
      omega

/-- The slices stay readable, and read what the loop without a buffer finds. -/
theorem sliceLoop_reads {fuel : Nat} (h : Reads buf slices params) :
    Reads (sliceLoop fuel remaining buf slices).1 (sliceLoop fuel remaining buf slices).2
        (queryLoop fuel remaining params) ∧
      (sliceLoop fuel remaining buf slices).1.length ≤ buf.length + remaining.length := by
  induction fuel generalizing remaining buf slices params with
  | zero => exact ⟨h, Nat.le_add_right _ _⟩
  | succ fuel ih =>
    have hcount : slices.length = params.length := by rw [← h.params, length_map]
    rw [sliceLoop, queryLoop, hcount]
    split
    · exact ⟨h, Nat.le_add_right _ _⟩
    · cases hsplit : splitFirst ampersand remaining with
      | none => exact addPair_reads h remaining
      | some p =>
        obtain ⟨pair, rest⟩ := p
        obtain ⟨hadd, hlength⟩ := addPair_reads h pair
        obtain ⟨hreads, hfits⟩ : Reads (sliceLoop fuel rest _ _).1 _ _ ∧ _ := ih hadd
        refine ⟨hreads, hfits.trans ?_⟩
        rw [(splitFirst_eq_some.mp hsplit).1, length_append, length_cons]
        omega

theorem sliceLoop_query (qs : Bytes) :
    Reads (sliceLoop (qs.length + 1) qs [] []).1 (sliceLoop (qs.length + 1) qs [] []).2
        (queryLoop (qs.length + 1) qs []) ∧
      (sliceLoop (qs.length + 1) qs [] []).1.length ≤ qs.length := by
  have hstart : Reads [] [] [] := ⟨fun sl hsl => absurd hsl not_mem_nil, rfl⟩
  obtain ⟨hreads, hfits⟩ : Reads (sliceLoop (qs.length + 1) qs [] []).1 _ _ ∧ _ :=
    sliceLoop_reads hstart
  rw [length_nil, Nat.zero_add] at hfits
  exact ⟨hreads, hfits⟩

/-- The parameters read from the buffer are those of `extractPathQuery`. -/
theorem extractQuery_eq (t : Bytes) : (extractQuery t).1 = extractPathQuery t := by
  rw [extractQuery, extractPathQuery]
  dsimp only
  cases splitFirst question (pathAndQuery t) with
  | none => rfl
  | some p =>
    obtain ⟨path, qs⟩ := p
    obtain ⟨⟨-, hparams⟩, -⟩ := sliceLoop_query qs
    have hcount := congrArg List.length hparams
    rw [length_map] at hcount
    dsimp only
    rw [hparams, hcount]

theorem pairs_nil : pairs [] = [] := by
  rw [pairs, splitOn_nil]
  rfl

theorem pairs_single (h : ampersand ∉ remaining) :
    pairs remaining = if remaining = [] then [] else [remaining] := by
  rw [pairs, splitOn_eq_singleton h]
  split
  · rename_i hnil
    rw [hnil]
    rfl
  · rename_i hne
    exact filter_cons_of_pos (decide_eq_true hne)

theorem pairs_append {rest : Bytes} (h : ampersand ∉ pair) :
    pairs (pair ++ ampersand :: rest) = (if pair = [] then [] else [pair]) ++ pairs rest := by
  rw [pairs, splitOn_append_cons_self_of_not_mem h]
  split
  · rename_i hnil
    rw [hnil]
    rfl
  · rename_i hne
    exact filter_cons_of_pos (decide_eq_true hne)

/-- The loop finds the first pairs, up to 64 of them. -/
theorem queryLoop_pairs_eq {fuel : Nat} (hfuel : remaining.length < fuel)
    (hcap : params.length ≤ maxQueryParams) :
    queryLoop fuel remaining params =
      params ++ ((pairs remaining).take (maxQueryParams - params.length)).map pairParam := by
  induction fuel generalizing remaining params with
  | zero => exact absurd hfuel (Nat.not_lt_zero _)
  | succ fuel ih =>
    rw [queryLoop]
    split
    · rename_i hstop
      obtain hnil | hfull := hstop
      · rw [hnil, pairs_nil, take_nil]
        exact (append_nil _).symm
      · rw [Nat.sub_eq_zero_of_le hfull, take_zero]
        exact (append_nil _).symm
    · rename_i hgoes
      rw [not_or, Nat.not_le] at hgoes
      obtain ⟨hne, hroom⟩ := hgoes
      obtain ⟨k, hk⟩ := Nat.exists_eq_succ_of_ne_zero (Nat.sub_ne_zero_of_lt hroom)
      cases hsplit : splitFirst ampersand remaining with
      | none =>
        dsimp only
        rw [pairs_single (splitFirst_eq_none.mp hsplit), if_neg hne, parsePair_eq hne, hk,
          take_succ_cons, take_nil]
        rfl
      | some p =>
        obtain ⟨pair, rest⟩ := p
        obtain ⟨rfl, hnot⟩ := splitFirst_eq_some.mp hsplit
        rw [length_append, length_cons] at hfuel
        dsimp only
        rw [pairs_append hnot]
        by_cases hempty : pair = []
        · rw [parsePair, if_pos hempty, if_pos hempty, append_nil, nil_append]
          exact ih (by omega) hcap
        · have hleft : maxQueryParams - (params ++ [pairParam pair]).length = k := by
            rw [length_append, length_singleton]
            omega
          rw [parsePair_eq hempty, if_neg hempty, ih (by omega) (by
            rw [length_append, length_singleton]
            omega), hleft, hk, singleton_append, take_succ_cons, map_cons,
            append_assoc]
          rfl

/-! ## The map -/

/-- The map of `RequestTarget` is the flat map. -/
theorem insertOrAssign_entries (map : FlatMap.Map Bytes Bytes) (p : Param) :
    insertOrAssign map.entries p = (FlatMap.insertOrAssign map p.1 p.2).entries := by
  have hany : (map.entries.any fun e => e.1 == p.1) = true ↔ p.1 ∈ map.entries.map Prod.fst := by
    rw [any_eq_true, mem_map]
    constructor
    · rintro ⟨e, he, heq⟩
      exact ⟨e, he, beq_iff_eq.mp heq⟩
    · rintro ⟨e, he, heq⟩
      exact ⟨e, he, beq_iff_eq.mpr heq⟩
  rw [insertOrAssign, FlatMap.insertOrAssign]
  by_cases h : p.1 ∈ map.entries.map Prod.fst
  · rw [if_pos (hany.mpr h), dif_pos h]
    rfl
  · rw [if_neg (fun hp => h (hany.mp hp)), dif_neg h]

theorem foldl_entries (params : List Param) (map : FlatMap.Map Bytes Bytes) :
    params.foldl insertOrAssign map.entries =
      (params.foldl (fun map e => FlatMap.insertOrAssign map e.1 e.2) map).entries := by
  induction params generalizing map with
  | nil => rfl
  | cons p params ih =>
    rw [foldl_cons, foldl_cons, insertOrAssign_entries]
    exact ih _

/-- Parameters inserted one after the other: no key twice, each with its last value. -/
theorem foldl_insert (params : List Param) :
    ((params.foldl insertOrAssign []).map Prod.fst).Nodup ∧
      ∀ key, FlatMap.lookup (params.foldl insertOrAssign []) key =
        FlatMap.lookup params.reverse key := by
  have hentries : params.foldl insertOrAssign [] = (FlatMap.insertAll params).entries :=
    foldl_entries params FlatMap.empty
  rw [hentries]
  exact ⟨(FlatMap.insertAll params).keys_nodup, FlatMap.find_insertAll params⟩

/-- **The query of a request** is taken apart as it should be, for every target, exactly
    when it does not have 64 pairs. -/
theorem query_parsed_iff (t : Bytes) :
    Parsed (extractQuery t).1 (extractQuery t).2 (queryString t) ↔
      (pairs (queryString t)).length ≠ maxQueryParams := by
  have hall : ((extractQuery t).1.query.map Prod.fst).Nodup ∧
      (∀ key, FlatMap.lookup (extractQuery t).1.query key =
        FlatMap.lookup (firstParams (queryString t)).reverse key) ∧
      (extractQuery t).2.length ≤ (queryString t).length ∧
      ((extractQuery t).1.queryParamOverflow = true ↔
        maxQueryParams ≤ (pairs (queryString t)).length) := by
    rw [extractQuery, queryString]
    dsimp only
    cases splitFirst question (pathAndQuery t) with
    | none =>
      dsimp only
      rw [firstParams, pairs_nil, take_nil]
      exact ⟨nodup_nil, fun _ => rfl, Nat.le_refl _, by decide⟩
    | some p =>
      obtain ⟨path, qs⟩ := p
      obtain ⟨⟨-, hparams⟩, hfits⟩ := sliceLoop_query qs
      have hfirst : queryLoop (qs.length + 1) qs [] = firstParams qs :=
        queryLoop_pairs_eq (Nat.lt_succ_self _) (Nat.zero_le _)
      rw [hfirst] at hparams
      have hcount := congrArg List.length hparams
      rw [length_map, firstParams, length_map, length_take] at hcount
      obtain ⟨hkeys, hvalues⟩ := foldl_insert (firstParams qs)
      dsimp only
      rw [hparams]
      refine ⟨hkeys, hvalues, hfits, ?_⟩
      rw [decide_eq_true_iff, hcount]
      constructor
      · rintro ⟨hfull, -⟩
        omega
      · intro hfull
        refine ⟨by omega, ?_⟩
        rintro rfl
        rw [pairs_nil] at hfull
        exact absurd hfull (by decide)
  obtain ⟨hkeys, hvalues, hfits, hflag⟩ := hall
  constructor
  · intro h heq
    have hmore := h.overflow.mp (hflag.mpr (Nat.le_of_eq heq.symm))
    omega
  · intro hne
    refine ⟨hkeys, hvalues, hfits, hflag.trans ?_⟩
    omega

/-- Sixty-four pairs are not too many, but are taken for too many. -/
theorem sixty_four_pairs :
    ¬ ∀ t, Parsed (extractQuery t).1 (extractQuery t).2 (queryString t) := by
  intro h
  have hflag := (h (text "/?" ++ (List.replicate 64 (text "a&")).flatten)).overflow
  have hcount : (pairs (queryString
      (text "/?" ++ (List.replicate 64 (text "a&")).flatten))).length = 64 := by decide +kernel
  rw [hcount] at hflag
  exact absurd (hflag.mp (by decide +kernel)) (by decide)

/-! ## Route parameters -/

/-- `ParamSlice`. -/
structure ParamSlice where
  key : Bytes
  valStart : Nat := 0
  valLen : Nat := 0
  isDecoded : Bool := false
  rawVal : Bytes := []
  deriving DecidableEq, Repr

/-- The value has a '%' in it. -/
def isEncoded (v : Bytes) : Bool := v.contains percent

/-- One round of the loop over the route parameters: what is in the buffer, and the
    slices. -/
def addParam (r : Bytes × List ParamSlice) (p : Param) : Bytes × List ParamSlice :=
  if isEncoded p.2 then
    (r.1 ++ decode p.2, r.2 ++
      [{ key := p.1, valStart := r.1.length, valLen := (decode p.2).length, isDecoded := true }])
  else (r.1, r.2 ++ [{ key := p.1, rawVal := p.2 }])

/-- The key and the value of a slice. -/
def readParam (base : Bytes) (sl : ParamSlice) : Param :=
  (sl.key, if sl.isDecoded then view base sl.valStart sl.valLen else sl.rawVal)

/-- `set_params`: what `params` becomes. -/
def setParams (routeParams : List Param) : List Param :=
  if ¬ routeParams.any (fun p => isEncoded p.2) then routeParams.foldl insertOrAssign []
  else
    let r := routeParams.foldl addParam ([], [])
    (r.2.map (readParam r.1)).foldl insertOrAssign []

/-- `set_param`: what `params_decoded_buf_` and `params` become.  The views into the buffer
    are rebased when it moves, and stay what they were. -/
def setParam (st : Bytes × List Param) (p : Param) : Bytes × List Param :=
  if isEncoded p.2 then
    let buf := st.1 ++ decode p.2
    (buf, insertOrAssign st.2 (p.1, view buf st.1.length (decode p.2).length))
  else (st.1, insertOrAssign st.2 p)

/-- What is stored of a value. -/
def storedValue (v : Bytes) : Bytes := if isEncoded v then decode v else v

/-- What is stored of a parameter. -/
def stored (p : Param) : Param := (p.1, storedValue p.2)

/-- Route parameters are decoded alike: each key has the decoded value it was last given. -/
def Uniform (routeParams : List Param) : Prop :=
  ∀ key, FlatMap.lookup (setParams routeParams) key =
    (FlatMap.lookup routeParams.reverse key).map decode

variable {v : Bytes} {routeParams : List Param}

theorem isEncoded_iff : isEncoded v = true ↔ percent ∈ v := contains_iff_mem

/-- The slices read what is stored of the parameters, and the buffer is large enough. -/
theorem foldl_addParam (routeParams : List Param) (buf : Bytes) (slices : List ParamSlice)
    (params : List Param) (hwithin : ∀ sl ∈ slices, sl.valStart + sl.valLen ≤ buf.length)
    (hparams : slices.map (readParam buf) = params) :
    (routeParams.foldl addParam (buf, slices)).2.map
        (readParam (routeParams.foldl addParam (buf, slices)).1) =
        params ++ routeParams.map stored ∧
      (routeParams.foldl addParam (buf, slices)).1.length ≤
        buf.length + (routeParams.map fun p => p.2.length).sum := by
  induction routeParams generalizing buf slices params with
  | nil =>
    rw [map_nil, append_nil]
    exact ⟨hparams, Nat.le_add_right _ _⟩
  | cons p routeParams ih =>
    rw [foldl_cons, map_cons, append_cons, map_cons, sum_cons, addParam]
    by_cases hp : isEncoded p.2 = true
    · have hlength := decode_length_le p.2
      have hold : slices.map (readParam (buf ++ decode p.2)) = params := by
        rw [← hparams]
        refine map_congr_left fun sl hsl => ?_
        rw [readParam, readParam, view_append (hwithin sl hsl)]
      rw [if_pos hp]
      generalize hsl : ({ key := p.1, valStart := buf.length, valLen := (decode p.2).length
                          isDecoded := true } : ParamSlice) = sl
      have hwithin' : ∀ sl' ∈ slices ++ [sl],
          sl'.valStart + sl'.valLen ≤ (buf ++ decode p.2).length := by
        rw [length_append]
        refine forall_mem_append.mpr
          ⟨fun sl' hmem => (hwithin sl' hmem).trans (Nat.le_add_right _ _),
            forall_mem_singleton.mpr ?_⟩
        rw [← hsl]
      have hparams' : (slices ++ [sl]).map (readParam (buf ++ decode p.2)) =
          params ++ [stored p] := by
        rw [map_append, hold, map_singleton, stored, storedValue, if_pos hp, ← hsl,
          readParam, if_pos rfl, view_written]
      obtain ⟨hread, hfits⟩ := ih (buf ++ decode p.2) _ _ hwithin' hparams'
      refine ⟨hread, hfits.trans ?_⟩
      rw [length_append]
      omega
    · rw [if_neg hp]
      have hwithin' : ∀ sl ∈ slices ++ [({ key := p.1, rawVal := p.2 } : ParamSlice)],
          sl.valStart + sl.valLen ≤ buf.length :=
        forall_mem_append.mpr ⟨hwithin, forall_mem_singleton.mpr (Nat.zero_le _)⟩
      have hparams' : (slices ++ [({ key := p.1, rawVal := p.2 } : ParamSlice)]).map
          (readParam buf) = params ++ [stored p] := by
        rw [map_append, hparams, map_singleton, stored, storedValue, if_neg hp]
        rfl
      obtain ⟨hread, hfits⟩ := ih buf _ _ hwithin' hparams'
      exact ⟨hread, hfits.trans (by omega)⟩

/-- Both paths store the same of a parameter, whatever the others are. -/
theorem setParams_eq (routeParams : List Param) :
    setParams routeParams = (routeParams.map stored).foldl insertOrAssign [] := by
  rw [setParams]
  split
  · rename_i hnone
    have hsame : routeParams.map stored = routeParams := by
      refine (map_congr_left fun p hp => ?_).trans (map_id _)
      have hraw : ¬ isEncoded p.2 = true := fun h => hnone (any_eq_true.mpr ⟨p, hp, h⟩)
      rw [stored, storedValue, if_neg hraw]
      rfl
    rw [hsame]
  · obtain ⟨hread, -⟩ := foldl_addParam routeParams [] [] []
      (fun sl hsl => absurd hsl not_mem_nil) rfl
    dsimp only
    rw [hread, nil_append]

/-- `set_param` for each of the parameters stores the same as `set_params`. -/
theorem setParam_foldl (routeParams : List Param) :
    (routeParams.foldl setParam ([], [])).2 = setParams routeParams := by
  rw [setParams_eq]
  have hrun : ∀ st : Bytes × List Param, (routeParams.foldl setParam st).2 =
      (routeParams.map stored).foldl insertOrAssign st.2 := by
    induction routeParams with
    | nil => exact fun st => rfl
    | cons p routeParams ih =>
      intro st
      rw [foldl_cons, map_cons, foldl_cons, ih, setParam, stored, storedValue]
      split
      · dsimp only
        rw [view_written]
      · rfl
  exact hrun ([], [])

/-- Without a '%' only a '+' is decoded. -/
theorem decode_raw (h : percent ∉ v) : decode v = v ↔ plus ∉ v := by
  induction v with
  | nil => exact ⟨fun _ => not_mem_nil, fun _ => rfl⟩
  | cons c v ih =>
    rw [mem_cons, not_or] at h
    have hcons : decode (c :: v) = plainChar c :: decode v := by
      cases v with
      | nil =>
        rw [decode]
        intro _ _ _ hrest
        cases hrest
      | cons d v =>
        cases v with
        | nil =>
          rw [decode]
          intro _ _ _ hrest
          cases hrest
        | cons e v => rw [decode, if_neg (Ne.symm h.1)]
    rw [hcons, List.cons.injEq, ih h.2, mem_cons, not_or, plainChar]
    refine and_congr_left fun _ => ?_
    by_cases hc : c = plus
    · rw [if_pos hc, hc]
      exact iff_of_false (by decide) (fun hne => hne rfl)
    · rw [if_neg hc]
      exact iff_of_true rfl (Ne.symm hc)

theorem lookup_map (f : Bytes → Bytes) (params : List Param) (key : Bytes) :
    FlatMap.lookup (params.map fun p => (p.1, f p.2)) key =
      (FlatMap.lookup params key).map f := by
  induction params with
  | nil => rfl
  | cons p params ih =>
    rw [map_cons, FlatMap.lookup, FlatMap.lookup, ih]
    split
    · rfl
    · rfl

/-- Each key has what is stored of the value it was last given. -/
theorem setParams_lookup (routeParams : List Param) (key : Bytes) :
    FlatMap.lookup (setParams routeParams) key =
      (FlatMap.lookup routeParams.reverse key).map storedValue := by
  rw [setParams_eq, (foldl_insert _).2 key, ← map_reverse]
  exact lookup_map storedValue routeParams.reverse key

/-- **Route parameters are decoded alike** exactly when there is no '+' in a value without
    a '%'. -/
theorem uniform_iff (routeParams : List (Bytes × Bytes)) :
    Uniform routeParams ↔ ∀ key v,
      FlatMap.lookup routeParams.reverse key = some v → plus ∈ v → percent ∈ v := by
  constructor
  · intro h key v hv hplus
    have hkey := h key
    rw [setParams_lookup, hv, Option.map_some, Option.map_some, storedValue] at hkey
    by_contra hraw
    rw [if_neg (fun he => hraw (isEncoded_iff.mp he))] at hkey
    exact (decode_raw hraw).mp (Option.some.inj hkey).symm hplus
  · intro h key
    rw [setParams_lookup]
    cases hv : FlatMap.lookup routeParams.reverse key with
    | none => rfl
    | some v =>
      rw [Option.map_some, Option.map_some, storedValue]
      split
      · rfl
      · rename_i hraw
        have hraw' : percent ∉ v := fun hmem => hraw (isEncoded_iff.mpr hmem)
        rw [(decode_raw hraw').mpr fun hplus => hraw' (h key v hv hplus)]

/-- A '+' is kept, unless there is a '%' in the same value. -/
theorem plus_kept : ¬ ∀ routeParams, Uniform routeParams := by
  intro h
  exact absurd (h [(text "q", text "a+b")] (text "q")) (by decide)

end RequestParams
