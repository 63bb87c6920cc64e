import WaveX.RouterLeftovers

/-! # Where the parameters of a match live

    A `string_view` is a buffer, an offset and a length.  `resolve` takes the path of its
    caller and has a string of its own, `scratch`, for a path that has to be normalised; the
    segments and the wildcard slices are cut from the one or the other.  The search is the
    one of the tree over such views, and its answers are those of the tree. -/

namespace RouterViews

open QuicVarInt RouterPaths RouterTree RouterTable RouterSearch RouterCompleteness RouterParams
  RouterLeftovers List

/-! ## Views -/

/-- What a `string_view` can point to: the caller's path, the string that is local to
    `resolve`, the literal `"/"`, or nothing. -/
inductive Buffer where
  | path
  | scratch
  | literal
  | null
  deriving DecidableEq, Repr

/-- A `string_view`. -/
structure StringView where
  buffer : Buffer
  offset : Nat
  length : Nat
  deriving DecidableEq, Repr

/-- What the buffers hold during a call. -/
structure Memory where
  path : Bytes
  scratch : Bytes

def Memory.bytes (mem : Memory) : Buffer → Bytes
  | .path => mem.path
  | .scratch => mem.scratch
  | .literal => [slash]
  | .null => []

/-- The text of a view. -/
def StringView.read (mem : Memory) (v : StringView) : Bytes :=
  ((mem.bytes v.buffer).drop v.offset).take v.length

/-- `string_view::substr`. -/
def StringView.substr (v : StringView) (pos count : Nat) : StringView :=
  ⟨v.buffer, v.offset + pos, min count (v.length - pos)⟩

/-- `normalize_path_view`, with what it leaves in `scratch`. -/
def normalizeView (path : Bytes) : StringView × Bytes :=
  if path = [] ∨ path = [slash] then (⟨.literal, 0, 1⟩, [])
  else
    let needsFront := path.head? ≠ some slash
    let needsTrim := 1 < path.length ∧ path.getLast? = some slash
    if ¬ needsFront ∧ ¬ needsTrim then (⟨.path, 0, path.length⟩, [])
    else
      let front := if needsFront then slash :: path else path
      let scratch :=
        if needsTrim ∧ 1 < front.length ∧ front.getLast? = some slash then front.dropLast
        else front
      (⟨.scratch, 0, scratch.length⟩, scratch)

/-- The segments of `split_path_into`, each cut from the normalised path by `substr`. -/
def segmentViews (mem : Memory) (normalized : StringView) : List StringView :=
  (splitPathInto inlineSegments (normalized.read mem)).map fun v =>
    normalized.substr v.offset v.text.length

/-- `compute_wildcard_slice`: from where the first segment begins to where the last ends. -/
def wildcardView (segments : List StringView) : StringView :=
  match segments with
  | [] => ⟨.null, 0, 0⟩
  | first :: rest =>
      let last := (first :: rest).getLast (cons_ne_nil first rest)
      ⟨first.buffer, first.offset, last.offset + last.length - first.offset⟩

/-! ## The search over views -/

variable {M H W : Type*}

/-- The parameters of a match, as views. -/
abbrev ParamViews := FlatMap.Map Bytes StringView

/-- The loop over the dynamic children. -/
def tryParamViews (fullMatch : Bytes → Bytes → Bool) (mem : Memory)
    (search : Node M H W → ParamViews → Option (Node M H W) × ParamViews)
    (segment : StringView) :
    List (Node M H W) → ParamViews → Option (Node M H W) × ParamViews
  | [], params => (none, params)
  | child :: rest, params =>
      if admits fullMatch child.edge (segment.read mem) then
        let name := bindingName child.edge
        match search child (FlatMap.insertOrAssign params name segment) with
        | (some found, params') => (some found, params')
        | (none, params') =>
            tryParamViews fullMatch mem search segment rest (FlatMap.without params' name)
      else tryParamViews fullMatch mem search segment rest params

/-- The wildcard child. -/
def tryWildcardView (segments : List StringView) (params : ParamViews) :
    Option (Node M H W) → Option (Node M H W) × ParamViews
  | none => (none, params)
  | some child =>
      (if child.handlers.isEmpty then none else some child,
        FlatMap.insertOrAssign params (bindingName child.edge) (wildcardView segments))

/-- The first search that finds a node. -/
def orElseView (found : Option (Node M H W) × ParamViews)
    (next : ParamViews → Option (Node M H W) × ParamViews) : Option (Node M H W) × ParamViews :=
  match found with
  | (some node, params) => (some node, params)
  | (none, params) => next params

/-- `resolve_node`. -/
def resolveViews (fullMatch : Bytes → Bytes → Bool) (mem : Memory) :
    List StringView → Node M H W → ParamViews → Option (Node M H W) × ParamViews
  | [], node, params => (if node.handlers.isEmpty then none else some node, params)
  | segment :: rest, node, params =>
      orElseView
        (match node.staticChild (segment.read mem) with
          | some child => resolveViews fullMatch mem rest child params
          | none => (none, params))
        fun params =>
          orElseView
            (tryParamViews fullMatch mem (resolveViews fullMatch mem rest) segment
              node.paramChildren params)
            fun params => tryWildcardView (segment :: rest) params node.wildcardChild

/-- A `RouteMatch` with its views. -/
structure ViewMatch (H W : Type*) where
  handler : H
  middlewares : List W
  params : ParamViews

/-- The match at the node that the search found. -/
def matchViewsAt [DecidableEq M] (m : M) :
    Option (Node M H W) × ParamViews → Option (ViewMatch H W)
  | (none, _) => none
  | (some node, params) =>
      match FlatMap.lookup node.handlers m with
      | none => none
      | some handler =>
          some ⟨handler, (FlatMap.lookup node.compiledMiddlewares m).getD [], params⟩

/-- `Router::resolve`, with the views that it returns. -/
def resolveView [DecidableEq M] (fullMatch : Bytes → Bytes → Bool) (router : Router M H W)
    (m : M) (path : Bytes) : Option (ViewMatch H W) :=
  let router := if router.frozen then router else router.freeze
  let normalized := (normalizeView path).1
  let mem : Memory := ⟨path, (normalizeView path).2⟩
  matchViewsAt m (resolveViews fullMatch mem (segmentViews mem normalized) router.root
    FlatMap.empty)

/-- The contract: every value is a slice of the caller's path. -/
def InCallerBuffer [DecidableEq M] (fullMatch : Bytes → Bytes → Bool)
    (calls : List (Call M H W)) (m : M) (path : Bytes) : Prop :=
  ∀ found, resolveView fullMatch (run fullMatch calls) m path = some found →
    ∀ e ∈ found.params.entries, e.2.buffer = .path ∧ e.2.offset + e.2.length ≤ path.length

/-- `normalize_path_view` copies a path that does not begin with a slash, and one that ends
    with a slash. -/
def Copied (path : Bytes) : Prop :=
  ¬ (path = [] ∨ path = [slash]) ∧
    (path.head? ≠ some slash ∨ (1 < path.length ∧ path.getLast? = some slash))

/-- A pattern without parameters and wildcards. -/
def AllStatic (p : List Segment) : Prop := ∀ e ∈ p, kindOf e = .static

/-! ## Slices -/

/-- A slice reads what the text has at its place. -/
def Within (text : Bytes) (v : View) : Prop :=
  (text.drop v.offset).take v.text.length = v.text ∧ v.stop ≤ text.length

/-- The view of a slice, in a buffer. -/
def located (b : Buffer) (v : View) : StringView := ⟨b, v.offset, v.text.length⟩

theorem located_read {mem : Memory} {b : Buffer} {v : View} (h : Within (mem.bytes b) v) :
    (located b v).read mem = v.text := h.1

theorem within_segment {text rest segment : Bytes} {start : Nat}
    (h : text.drop start = segment ++ rest) (hstart : start ≤ text.length) :
    Within text ⟨start, segment⟩ := by
  have hlen := congrArg List.length h
  rw [length_drop, length_append] at hlen
  refine ⟨?_, ?_⟩
  · show (text.drop start).take segment.length = segment
    rw [h, take_left]
  · show start + segment.length ≤ text.length
    omega

/-- The segments are slices of the path. -/
theorem splitLoop_within {text : Bytes} (fuel : Nat) {start : Nat} (hstart : start ≤ text.length) :
    ∀ v ∈ splitLoop fuel start (text.drop start), Within text v := by
  induction fuel generalizing start with
  | zero => intro v hv; exact absurd hv not_mem_nil
  | succ fuel ih =>
    intro v hv
    rw [splitLoop] at hv
    cases hsplit : HttpText.splitFirst slash (text.drop start) with
    | none =>
      rw [hsplit] at hv
      dsimp only at hv
      split at hv
      · exact absurd hv not_mem_nil
      · obtain rfl := mem_singleton.mp hv
        exact within_segment (append_nil _).symm hstart
    | some parts =>
      obtain ⟨segment, rest⟩ := parts
      obtain ⟨htext, -⟩ := HttpText.splitFirst_eq_some.mp hsplit
      rw [hsplit] at hv
      have hlen := congrArg List.length htext
      rw [length_drop, length_append, length_cons] at hlen
      -- what is left begins behind the slash
      have hrest : rest = text.drop (start + segment.length + 1) := by
        rw [Nat.add_assoc, ← drop_drop, htext]
        simp
      rcases mem_append.mp hv with hv | hv
      · split at hv
        · exact absurd hv not_mem_nil
        · obtain rfl := mem_singleton.mp hv
          exact within_segment htext hstart
      · rw [hrest] at hv
        exact ih (by omega) v hv

theorem splitPathView_within (text : Bytes) : ∀ v ∈ splitPathView text, Within text v := by
  intro v hv
  rw [splitPathView] at hv
  split at hv
  · exact absurd hv not_mem_nil
  · next h =>
    have hpos : 1 ≤ text.length := length_pos_iff.mpr fun hnil => h (.inl hnil)
    exact splitLoop_within _ hpos v hv

variable {segments : List View}

theorem wildcardSlice_within {text : Bytes} (hne : segments ≠ [])
    (h : ∀ v ∈ segments, Within text v) : Within text (computeWildcardSlice text segments) := by
  cases segments with
  | nil => exact absurd rfl hne
  | cons first rest =>
    have hlast := (h _ (getLast_mem (cons_ne_nil first rest))).2
    have hfirst := (h first mem_cons_self).2
    rw [View.stop] at hfirst
    have hle : first.offset ≤ text.length := by omega
    rw [computeWildcardSlice]
    generalize ((first :: rest).getLast (cons_ne_nil first rest)).stop = stop at hlast ⊢
    refine ⟨?_, ?_⟩
    · dsimp only
      rw [length_take, length_drop, Nat.min_eq_left (by omega)]
    · show first.offset + (List.take _ _).length ≤ _
      rw [length_take, length_drop]
      omega

theorem wildcardView_located {b : Buffer} {text : Bytes} (hne : segments ≠ [])
    (h : ∀ v ∈ segments, Within text v) :
    wildcardView (segments.map (located b)) = located b (computeWildcardSlice text segments) := by
  cases segments with
  | nil => exact absurd rfl hne
  | cons first rest =>
    have hlast := (h _ (getLast_mem (cons_ne_nil first rest))).2
    have hend : ((first :: rest).map (located b)).getLast (cons_ne_nil _ _) =
        located b ((first :: rest).getLast (cons_ne_nil first rest)) := getLast_map ..
    have hview : wildcardView ((first :: rest).map (located b)) =
        ⟨b, first.offset, (((first :: rest).map (located b)).getLast
            (cons_ne_nil _ _)).offset + (((first :: rest).map (located b)).getLast
            (cons_ne_nil _ _)).length - first.offset⟩ := rfl
    rw [hview, hend, computeWildcardSlice]
    generalize (first :: rest).getLast (cons_ne_nil first rest) = last at hlast ⊢
    show StringView.mk b first.offset (last.stop - first.offset) = ⟨b, first.offset,
      ((text.drop first.offset).take (last.stop - first.offset)).length⟩
    rw [length_take, length_drop, Nat.min_eq_left (by omega)]

/-! ## The search over views is the search over slices -/

/-- An answer with its parameters as views. -/
def viewed (b : Buffer) (r : Option (Node M H W) × Params) : Option (Node M H W) × ParamViews :=
  (r.1, FlatMap.mapValues (located b) r.2)

theorem orElseView_viewed (b : Buffer) (found : Option (Node M H W) × Params)
    {next : Params → Option (Node M H W) × Params}
    {next' : ParamViews → Option (Node M H W) × ParamViews}
    (h : ∀ params, next' (FlatMap.mapValues (located b) params) = viewed b (next params)) :
    orElseView (viewed b found) next' = viewed b (orElse found next) := by
  obtain ⟨_ | node, params⟩ := found
  · exact h params
  · rfl

theorem tryParamViews_viewed (fullMatch : Bytes → Bytes → Bool) {mem : Memory} {b : Buffer}
    {segment : View} (hseg : Within (mem.bytes b) segment)
    {search : Node M H W → Params → Option (Node M H W) × Params}
    {search' : Node M H W → ParamViews → Option (Node M H W) × ParamViews}
    (h : ∀ child params,
      search' child (FlatMap.mapValues (located b) params) = viewed b (search child params))
    (children : List (Node M H W)) (params : Params) :
    tryParamViews fullMatch mem search' (located b segment) children
        (FlatMap.mapValues (located b) params) =
      viewed b (tryParams fullMatch search segment children params) := by
  induction children generalizing params with
  | nil => rfl
  | cons child rest ih =>
    rw [tryParamViews, tryParams, located_read hseg]
    by_cases hadmits : admits fullMatch child.edge segment.text = true
    · rw [if_pos hadmits, if_pos hadmits]
      dsimp only
      rw [← FlatMap.mapValues_insertOrAssign, h]
      rcases search child (FlatMap.insertOrAssign params (bindingName child.edge) segment) with
        ⟨_ | found, params'⟩
      · show tryParamViews fullMatch mem search' _ rest
          (FlatMap.without (FlatMap.mapValues (located b) params') (bindingName child.edge)) = _
        rw [← FlatMap.mapValues_without]
        exact ih _
      · rfl
    · rw [if_neg hadmits, if_neg hadmits]
      exact ih params

theorem tryWildcardView_viewed {b : Buffer} {text : Bytes} (hne : segments ≠ [])
    (h : ∀ v ∈ segments, Within text v) (params : Params) (child : Option (Node M H W)) :
    tryWildcardView (segments.map (located b)) (FlatMap.mapValues (located b) params) child =
      viewed b (tryWildcard text segments params child) := by
  cases child with
  | none => rfl
  | some child =>
    rw [tryWildcardView, tryWildcard, wildcardView_located hne h,
      ← FlatMap.mapValues_insertOrAssign]
    rfl

/-- Over slices of one buffer the search does the same, and its parameters are slices of that
    buffer. -/
theorem resolveViews_viewed (fullMatch : Bytes → Bytes → Bool) {mem : Memory} {b : Buffer}
    (segments : List View) (h : ∀ v ∈ segments, Within (mem.bytes b) v) (node : Node M H W)
    (params : Params) :
    resolveViews fullMatch mem (segments.map (located b)) node
        (FlatMap.mapValues (located b) params) =
      viewed b (resolveNode fullMatch (mem.bytes b) segments node params) := by
  induction segments generalizing node params with
  | nil => rfl
  | cons segment rest ih =>
    have hseg := h segment mem_cons_self
    have ih' := ih fun v hv => h v (mem_cons_of_mem _ hv)
    rw [map_cons, resolveViews, resolveNode, located_read hseg, ← map_cons]
    have hstatic : (match node.staticChild segment.text with
        | some child => resolveViews fullMatch mem (rest.map (located b)) child
            (FlatMap.mapValues (located b) params)
        | none => (none, FlatMap.mapValues (located b) params)) =
        viewed b (match node.staticChild segment.text with
          | some child => resolveNode fullMatch (mem.bytes b) rest child params
          | none => (none, params)) := by
      cases node.staticChild segment.text with
      | none => rfl
      | some child => exact ih' child params
    rw [hstatic]
    refine orElseView_viewed b _ ?_
    intro params
    rw [tryParamViews_viewed fullMatch hseg ih']
    refine orElseView_viewed b _ ?_
    intro params
    exact tryWildcardView_viewed (cons_ne_nil _ _) h params node.wildcardChild

/-- The view that normalisation returns: all of a buffer, and the text that is resolved. -/
theorem normalizeView_spec (path : Bytes) :
    ∃ b, (normalizeView path).1 = ⟨b, 0, (normalizePathView path).length⟩ ∧
      Memory.bytes ⟨path, (normalizeView path).2⟩ b = normalizePathView path ∧
      (Copied path → b = .scratch) ∧
      (¬ Copied path → (b = .path ∧ normalizePathView path = path) ∨
        normalizePathView path = [slash]) := by
  rw [normalizeView, normalizePathView, Copied]
  by_cases hroot : path = [] ∨ path = [slash]
  · rw [if_pos hroot, if_pos hroot]
    exact ⟨.literal, rfl, rfl, fun h => absurd hroot h.1, fun _ => .inr rfl⟩
  · rw [if_neg hroot, if_neg hroot]
    dsimp only
    by_cases hcopy : ¬ path.head? ≠ some slash ∧
        ¬ (1 < path.length ∧ path.getLast? = some slash)
    · rw [if_pos hcopy, if_pos hcopy]
      exact ⟨.path, rfl, rfl, fun h => absurd h.2 (not_or.mpr hcopy), fun _ => .inl ⟨rfl, rfl⟩⟩
    · rw [if_neg hcopy, if_neg hcopy]
      exact ⟨.scratch, rfl, rfl, fun _ => rfl,
        fun h => absurd ⟨hroot, not_and_or.mp hcopy |>.imp not_not.mp not_not.mp⟩ h⟩

/-! ## What the search binds -/

theorem tryParams_within {fullMatch : Bytes → Bytes → Bool} {text : Bytes}
    {search : Node M H W → Params → Option (Node M H W) × Params} {segment : View}
    (hseg : Within text segment)
    (hsearch : ∀ child params, FlatMap.AllValues (Within text) params →
      FlatMap.AllValues (Within text) (search child params).2)
    (children : List (Node M H W)) {params : Params}
    (h : FlatMap.AllValues (Within text) params) :
    FlatMap.AllValues (Within text) (tryParams fullMatch search segment children params).2 := by
  induction children generalizing params with
  | nil => exact h
  | cons child rest ih =>
    rw [tryParams]
    split
    · dsimp only
      have hchild := hsearch child _ (h.insertOrAssign (bindingName child.edge) hseg)
      rcases hs : search child (FlatMap.insertOrAssign params (bindingName child.edge) segment)
        with ⟨_ | found, params'⟩
      · rw [hs] at hchild
        exact ih (hchild.without _)
      · rw [hs] at hchild
        exact hchild
    · exact ih h

/-- What the search binds are slices of the path. -/
theorem resolveNode_within {fullMatch : Bytes → Bytes → Bool} {text : Bytes}
    (hsegs : ∀ v ∈ segments, Within text v) (node : Node M H W) {params : Params}
    (h : FlatMap.AllValues (Within text) params) :
    FlatMap.AllValues (Within text) (resolveNode fullMatch text segments node params).2 := by
  induction segments generalizing node params with
  | nil => exact h
  | cons segment rest ih =>
    have hseg := hsegs segment mem_cons_self
    have ih' : ∀ (node : Node M H W) {params : Params}, FlatMap.AllValues (Within text) params →
        FlatMap.AllValues (Within text) (resolveNode fullMatch text rest node params).2 :=
      fun node _ => ih (fun v hv => hsegs v (mem_cons_of_mem _ hv)) node
    have helse : ∀ {found : Option (Node M H W) × Params}
        {next : Params → Option (Node M H W) × Params},
        FlatMap.AllValues (Within text) found.2 →
        (∀ params, FlatMap.AllValues (Within text) params →
          FlatMap.AllValues (Within text) (next params).2) →
        FlatMap.AllValues (Within text) (orElse found next).2 := by
      rintro ⟨_ | node, params⟩ next hfound hnext
      · exact hnext params hfound
      · exact hfound
    rw [resolveNode]
    refine helse ?_ fun params hparams => helse (tryParams_within hseg (fun c p => ih' c) _ hparams)
      fun params hparams => ?_
    · cases node.staticChild segment.text with
      | none => exact h
      | some child => exact ih' child h
    · cases node.wildcardChild with
      | none => exact hparams
      | some child =>
        exact hparams.insertOrAssign _ (wildcardSlice_within (cons_ne_nil _ _) hsegs)

theorem segmentsOf_within (path : Bytes) :
    ∀ v ∈ segmentsOf path, Within (normalizePathView path) v :=
  splitPathView_within _

/-! ## Matches without parameters -/

section

variable [DecidableEq M]

theorem not_allStatic_cons {e : Segment} {p : List Segment} (he : kindOf e ≠ .static) :
    ¬ AllStatic (e :: p) :=
  fun h => he (h e mem_cons_self)

/-- The search of a static pattern binds nothing; another one leaves some binding. -/
theorem resolveNode_reached {fullMatch : Bytes → Bytes → Bool} {rows : Rows M H W}
    {segs : List Bytes} {node n : Node M H W} {p : List Segment}
    (h : Reached fullMatch rows segs node p n) (hrep : Represents node rows) (normalized : Bytes)
    (hsegs : segments.map View.text = segs) (params : Params) :
    ∃ params', resolveNode fullMatch normalized segments node params = (some n, params') ∧
      (AllStatic p → params' = params) ∧ (¬ AllStatic p → params'.entries ≠ []) := by
  induction h generalizing segments params with
  | @here rows node handlers =>
    obtain rfl := map_eq_nil_iff.mp hsegs
    exact ⟨params, by rw [resolveNode, if_neg (by simpa using handlers)], fun _ => rfl,
      fun h => absurd (fun e he => absurd he not_mem_nil) h⟩
  | @static rows s rest node child n p found deeper ih =>
    obtain ⟨segment, views, rfl, rfl, rfl⟩ := map_eq_cons_iff.mp hsegs
    obtain ⟨hchild, hedge⟩ := staticChild_some found
    obtain ⟨params', hres, hsame, hbound⟩ := ih (hrep.child hchild) rfl params
    have hiff : AllStatic (child.edge :: p) ↔ AllStatic p := by
      rw [AllStatic, forall_mem_cons, hedge]
      exact and_iff_right rfl
    have hstatic : staticSearch fullMatch normalized segment views node params =
        (some n, params') := by
      rw [staticSearch, found]
      exact hres
    refine ⟨params', ?_, fun h => hsame (hiff.mp h), fun h => hbound fun h' => h (hiff.mpr h')⟩
    rw [resolveNode_cons]
    exact orElse_some (orElse_some hstatic _) _
  | @param rows s rest node child n p front back noStatic children admitted earlier deeper ih =>
    obtain ⟨segment, views, rfl, rfl, rfl⟩ := map_eq_cons_iff.mp hsegs
    have hchild : child ∈ kids node .param := by
      rw [kids, children]
      exact mem_append_right _ mem_cons_self
    have hkind := kids_kind hrep.edges_eq hchild
    -- the children that were tried before have failed
    obtain ⟨hnone, -⟩ := branches_failed hrep children (unmatched_of_noStatic noStatic)
      earlier (fun k c hc hbelow params => resolveNode_failed normalized views (hrep.child hc)
        hbelow params) params
    rcases hs : staticSearch fullMatch normalized segment views node params with
      ⟨_ | found, params₀⟩
    · rw [hs] at hnone
      obtain ⟨params', hres, hsame, hbound⟩ := ih (hrep.child hchild) rfl
        (FlatMap.insertOrAssign (tryParams fullMatch (resolveNode fullMatch normalized views)
          segment front params₀).2 (bindingName child.edge) segment)
      refine ⟨params', ?_, fun h => absurd h (not_allStatic_cons (by rw [hkind]; rintro ⟨⟩)),
        fun _ => ?_⟩
      · have hloop : tryParams fullMatch (resolveNode fullMatch normalized views) segment
            node.paramChildren params₀ = (some n, params') := by
          rw [children, tryParams_append front (child :: back) hnone, tryParams,
            admits_eq_takes hkind, if_pos admitted]
          dsimp only
          rw [hres]
        rw [resolveNode_cons, hs]
        exact orElse_some hloop _
      · -- bound here; what is below adds to it or leaves it
        by_cases hp : AllStatic p
        · rw [hsame hp]
          exact FlatMap.entries_insertOrAssign_ne_nil _ _ _
        · exact hbound hp
    · rw [hs] at hnone
      cases hnone
  | @wildcard rows s rest node child noStatic noParam child_eq handlers =>
    obtain ⟨segment, views, rfl, rfl, rfl⟩ := map_eq_cons_iff.mp hsegs
    have hkind : kindOf child.edge = .wildcard :=
      kids_kind hrep.edges_eq (k := .wildcard)
        (by rw [kids, child_eq]; exact mem_singleton.mpr rfl)
    -- all others have failed
    obtain ⟨hnone, -⟩ := branches_failed hrep (append_nil node.paramChildren).symm
      (unmatched_of_noStatic noStatic) noParam
      (fun k c hc hbelow params => resolveNode_failed normalized views (hrep.child hc)
        hbelow params) params
    have hres := resolveNode_cons fullMatch normalized segment views node params
    rw [orElse_none hnone, child_eq, tryWildcard, if_neg (by simpa using handlers)] at hres
    exact ⟨_, hres, fun h => absurd h (not_allStatic_cons (by rw [hkind]; rintro ⟨⟩)),
      fun _ => FlatMap.entries_insertOrAssign_ne_nil _ _ _⟩

omit [DecidableEq M] in
theorem allStatic_congr {p q : List Segment} (h : SamePath p q) : AllStatic p ↔ AllStatic q := by
  induction h with
  | nil => exact Iff.rfl
  | @cons a b p q hab _ ih =>
    rw [AllStatic, AllStatic, forall_mem_cons, forall_mem_cons, hab.kind]
    exact and_congr_right fun _ => ih

/-- `resolve` with its views is `resolve` with each parameter in the buffer that was
    normalised into. -/
theorem resolveView_eq (fullMatch : Bytes → Bytes → Bool) (router : Router M H W) (m : M)
    (path : Bytes) {b : Buffer}
    (hview : (normalizeView path).1 = ⟨b, 0, (normalizePathView path).length⟩)
    (htext : Memory.bytes ⟨path, (normalizeView path).2⟩ b = normalizePathView path) :
    resolveView fullMatch router m path =
      (router.resolve fullMatch m path).2.map fun found =>
        ⟨found.handler, found.middlewares, FlatMap.mapValues (located b) found.params⟩ := by
  have hread : (normalizeView path).1.read ⟨path, (normalizeView path).2⟩ =
      normalizePathView path := by
    rw [hview, StringView.read, htext]
    exact take_length ..
  have hwithin : ∀ v ∈ splitPathInto inlineSegments (normalizePathView path),
      Within (normalizePathView path) v := by
    rw [splitPathInto_eq]
    exact splitPathView_within _
  have hsegments : segmentViews ⟨path, (normalizeView path).2⟩ (normalizeView path).1 =
      (splitPathInto inlineSegments (normalizePathView path)).map (located b) := by
    rw [segmentViews, hread, hview]
    refine map_congr_left ?_
    intro v hv
    have hstop := (hwithin v hv).2
    rw [View.stop] at hstop
    have hlen : v.text.length ≤ (normalizePathView path).length - v.offset := by omega
    show StringView.mk b (0 + v.offset)
      (min v.text.length ((normalizePathView path).length - v.offset)) = _
    rw [Nat.zero_add, Nat.min_eq_left hlen]
    rfl
  rw [resolveView, Router.resolve]
  dsimp only
  rw [hsegments, ← FlatMap.mapValues_empty (located b),
    resolveViews_viewed fullMatch _ (by rw [htext]; exact hwithin), htext]
  rcases resolveNode fullMatch (normalizePathView path)
      (splitPathInto inlineSegments (normalizePathView path))
      (if router.frozen then router else router.freeze).root FlatMap.empty with
    ⟨_ | node, params⟩
  · rfl
  · rw [viewed, matchViewsAt, matchAt]
    dsimp only
    cases FlatMap.lookup node.handlers m with
    | none => rfl
    | some handler => rfl

end

/-- Whatever was registered: the values of a match are slices of the caller's path exactly
    if the path is not copied, or the pattern that answers binds nothing. -/
theorem params_in_caller_buffer_iff [DecidableEq M] (fullMatch : Bytes → Bytes → Bool)
    (calls : List (Call M H W)) (m : M) (path : Bytes) :
    InCallerBuffer fullMatch calls m path ↔
      (Copied path → ∀ r, Selected fullMatch (tableOf calls).routes m path r →
        AllStatic r.path) := by
  obtain ⟨b, hview, htext, hcopied, hkept⟩ := normalizeView_spec path
  have hanswer := resolveView_eq fullMatch (run fullMatch calls) m path hview htext
  rcases resolve_cases (run_tracks fullMatch calls) fullMatch m path with
    ⟨hnone, hres⟩ | ⟨root, n, p, params, hrep, hfound, hres, hmatch⟩
  · refine iff_of_true ?_ ?_
    · intro found hsome
      rw [hanswer, hres] at hsome
      cases hsome
    · intro _ r hr
      exact absurd hr.candidate (not_candidate hnone r)
  · obtain ⟨params', hres', hsame, hbound⟩ := resolveNode_reached hfound.reached hrep
      (normalizePathView path) (rfl : (segmentsOf path).map View.text = textsOf path)
      FlatMap.empty
    obtain rfl : params = params' := (Prod.mk.inj (hres.symm.trans hres')).2
    rw [hmatch] at hanswer
    constructor
    · intro h hcopy r hr
      have hlast := (selected_iff hrep hfound).mp hr
      have hpath := (mem_leaf_rowsOf.mp (lastOf_mem hlast).1).2
      rw [allStatic_congr hpath]
      by_contra hdynamic
      -- some value was bound, and it is in the copy
      obtain ⟨e, he⟩ := exists_mem_of_ne_nil _ (hbound hdynamic)
      rw [matchOf, hlast] at hanswer
      have hbuffer := (h _ hanswer (e.1, located b e.2) (mem_map_of_mem he)).1
      rw [located, hcopied hcopy] at hbuffer
      cases hbuffer
    · intro h found hsome e he
      rw [hanswer, matchOf] at hsome
      cases hlast : lastOf m (leaf p (rowsOf (tableOf calls).routes)) with
      | none => rw [hlast] at hsome; cases hsome
      | some r =>
        rw [hlast] at hsome
        obtain rfl := Option.some.inj hsome
        obtain ⟨⟨name, v⟩, hv, rfl⟩ := mem_map.mp he
        have hdynamic : ¬ AllStatic p := by
          intro hp
          rw [hsame hp] at hv
          exact not_mem_nil hv
        have hpath := (mem_leaf_rowsOf.mp (lastOf_mem hlast).1).2
        have hnot : ¬ Copied path := by
          intro hcopy
          exact hdynamic ((allStatic_congr hpath).mp
            (h hcopy r ((selected_iff hrep hfound).mpr hlast)))
        rcases hkept hnot with ⟨hbuffer, hself⟩ | hroot
        · have hwithin : FlatMap.AllValues (Within (normalizePathView path)) (resolveNode fullMatch
              (normalizePathView path) (segmentsOf path) root FlatMap.empty).2 :=
            resolveNode_within (segmentsOf_within path) root (FlatMap.allValues_empty _)
          rw [hres] at hwithin
          have hstop := (hwithin _ hv).2
          rw [hself] at hstop
          exact ⟨hbuffer, hstop⟩
        · refine absurd ?_ hdynamic
          have hmatched := hfound.matched
          rw [textsOf, segmentsOf, hroot] at hmatched
          cases p with
          | nil => exact fun e he => absurd he not_mem_nil
          | cons a p => exact absurd hmatched Bool.false_ne_true

/-- The path ends with a slash: the user's number is a slice of the copy, which is gone when
    `resolve` returns. -/
theorem trailing_slash_dangles :
    ¬ InCallerBuffer (fun _ _ => true)
      [.route HttpText.Method.get (text "/users/:id") ([] : List Nat) 1] HttpText.Method.get
      (text "/users/42/") := by
  intro h
  have hview := h ⟨1, [], FlatMap.insertOrAssign FlatMap.empty (text "id") ⟨.scratch, 7, 2⟩⟩ rfl
    (text "id", ⟨.scratch, 7, 2⟩) (by decide)
  exact absurd hview.1 (by decide)

end RouterViews
