import WaveX.RouterCompleteness

/-! # The parameters of a match

    The search writes a binding before it knows whether a branch succeeds, and takes it back
    by name when it does not.  What a branch that failed does to a name is one of three
    things: nothing, the binding is gone, or a binding is left, which is what the wildcard
    of a node without handlers does.  The last branch that touches the name decides.

    The parameters of a match are those of the route's pattern exactly when no name is left
    over from an abandoned branch and the pattern's wildcard has the name that the node got
    from the first route that came there. -/

namespace RouterParams

open QuicVarInt RouterPaths RouterTree RouterTable RouterSearch RouterCompleteness List

variable {M H W : Type*}

/-! ## What becomes of a name -/

/-- What a search that failed did to a name. -/
inductive Fate where
  | kept
  | removed
  | left
  deriving DecidableEq, Repr

/-- One search after another. -/
def Fate.andThen (first second : Fate) : Fate := if second = .kept then first else second

/-- Searches one after another. -/
def fateOf (fates : List Fate) : Fate := fates.foldl Fate.andThen .kept

/-- A name had this value before and has that one after. -/
def Fate.Holds : Fate → Option View → Option View → Prop
  | .kept, before, after => after = before
  | .removed, _, after => after = none
  | .left, _, after => after.isSome = true

theorem Fate.Holds.andThen {f g : Fate} {a b c : Option View} (hf : f.Holds a b)
    (hg : g.Holds b c) : (f.andThen g).Holds a c := by
  cases g with
  | kept =>
    obtain rfl : c = b := hg
    exact hf
  | removed => exact hg
  | left => exact hg

theorem fateOf_append (fates : List Fate) (f : Fate) :
    fateOf (fates ++ [f]) = (fateOf fates).andThen f := by
  rw [fateOf, foldl_append]
  rfl

theorem Fate.andThen_assoc (f g h : Fate) : (f.andThen g).andThen h = f.andThen (g.andThen h) := by
  cases h with
  | kept => rfl
  | removed => rfl
  | left => rfl

/-- The searches of one group and then those of another. -/
theorem fateOf_append_list (fates more : List Fate) :
    fateOf (fates ++ more) = (fateOf fates).andThen (fateOf more) := by
  induction more using List.reverseRecOn with
  | nil => rw [append_nil]; rfl
  | append_singleton more f ih =>
    rw [← append_assoc, fateOf_append, ih, fateOf_append, Fate.andThen_assoc]

/-- A name is left untouched when every search does. -/
theorem fateOf_eq_kept {fates : List Fate} : fateOf fates = .kept ↔ ∀ f ∈ fates, f = .kept := by
  induction fates using List.reverseRecOn with
  | nil => exact iff_of_true rfl fun f h => absurd h not_mem_nil
  | append_singleton fates f ih =>
    rw [fateOf_append, Fate.andThen]
    by_cases hf : f = .kept
    · rw [if_pos hf, ih]
      constructor
      · intro h g hg
        rcases mem_append.mp hg with hg | hg
        · exact h g hg
        · rw [mem_singleton.mp hg, hf]
      · intro h g hg
        exact h g (mem_append_left _ hg)
    · rw [if_neg hf]
      refine iff_of_false hf ?_
      intro h
      exact hf (h f (mem_append_right _ (mem_singleton.mpr rfl)))

/-! ## Names along the search -/

/-- The children of the routes that the search tries for a segment, in its order. -/
def branches (fullMatch : Bytes → Bytes → Bool) (rows : Rows M H W) (s : Bytes) :
    List Segment :=
  (edges .static rows ++ edges .param rows).filter fun e => takes fullMatch e s

/-- A dynamic segment binds the name. -/
def bindsName (name : Bytes) (e : Segment) : Prop := kindOf e = .param ∧ bindingName e = name

instance (name : Bytes) (e : Segment) : Decidable (bindsName name e) :=
  inferInstanceAs (Decidable (_ ∧ _))

/-- What a search that fails does to a name, by the routes alone. -/
def fate (fullMatch : Bytes → Bytes → Bool) (name : Bytes) : List Bytes → Rows M H W → Fate
  | [], _ => .kept
  | s :: rest, rows =>
      (fateOf ((branches fullMatch rows s).map fun e =>
        if bindsName name e then .removed else fate fullMatch name rest (below e rows))).andThen
        (if .wildcard name ∈ edges .wildcard rows then .left else .kept)

/-- What the search did to a name before it came to `p`, the bindings of `p` apart. -/
def fateBefore (fullMatch : Bytes → Bytes → Bool) (name : Bytes) :
    List Bytes → Rows M H W → List Segment → Fate
  | s :: rest, rows, e :: p =>
      (fateOf (((branches fullMatch rows s).takeWhile fun b => decide (b ≠ e)).map fun e =>
        if bindsName name e then .removed else fate fullMatch name rest (below e rows))).andThen
        (fateBefore fullMatch name rest (below e rows) p)
  | _, _, _ => .kept

/-- The names that a pattern binds. -/
def namesOf (p : List Segment) : List Bytes :=
  (p.filter fun e => decide (kindOf e ≠ .static)).map bindingName

/-- What a pattern binds on a path. -/
def bindings (normalized : Bytes) : List Segment → List View → List (Bytes × View)
  | .static _ :: p, _ :: rest => bindings normalized p rest
  | .wildcard name :: _, segments => [(name, computeWildcardSlice normalized segments)]
  | e :: p, s :: rest => (bindingName e, s) :: bindings normalized p rest
  | _, _ => []

/-! ## The search and the names -/

/-- What a failed search of the branch `e` does to a name. -/
def branchFate (fullMatch : Bytes → Bytes → Bool) (name : Bytes) (rest : List Bytes)
    (rows : Rows M H W) (e : Segment) : Fate :=
  if bindsName name e then .removed else fate fullMatch name rest (below e rows)

theorem fate_cons (fullMatch : Bytes → Bytes → Bool) (name s : Bytes) (rest : List Bytes)
    (rows : Rows M H W) :
    fate fullMatch name (s :: rest) rows =
      (fateOf ((branches fullMatch rows s).map (branchFate fullMatch name rest rows))).andThen
        (if .wildcard name ∈ edges .wildcard rows then .left else .kept) := by
  rw [fate]
  rfl

theorem fateBefore_cons (fullMatch : Bytes → Bytes → Bool) (name s : Bytes) (rest : List Bytes)
    (rows : Rows M H W) (e : Segment) (p : List Segment) :
    fateBefore fullMatch name (s :: rest) rows (e :: p) =
      (fateOf (((branches fullMatch rows s).takeWhile fun b => decide (b ≠ e)).map
        (branchFate fullMatch name rest rows))).andThen
        (fateBefore fullMatch name rest (below e rows) p) := by
  rw [fateBefore]
  rfl

/-- A search failed, and did to each name what `f` says. -/
def Failed (f : Bytes → Fate) (params : Params) (result : Option (Node M H W) × Params) : Prop :=
  result.1 = none ∧ ∀ name, (f name).Holds (FlatMap.find params name) (FlatMap.find result.2 name)

variable {fullMatch : Bytes → Bytes → Bool} {segment : View}

variable {search : Node M H W → Params → Option (Node M H W) × Params}

theorem tryParams_append (front back : List (Node M H W)) {params : Params}
    (h : (tryParams fullMatch search segment front params).1 = none) :
    tryParams fullMatch search segment (front ++ back) params =
      tryParams fullMatch search segment back
        (tryParams fullMatch search segment front params).2 := by
  induction front generalizing params with
  | nil => rfl
  | cons c front ih =>
    rw [cons_append]
    rw [tryParams] at h ⊢
    rw [tryParams]
    by_cases ha : admits fullMatch c.edge segment.text = true
    · rw [if_pos ha] at h ⊢
      rw [if_pos ha]
      dsimp only at h ⊢
      rcases hs : search c (FlatMap.insertOrAssign params (bindingName c.edge) segment) with
        ⟨found, params'⟩
      rw [hs] at h
      cases found with
      | none => exact ih h
      | some n => cases h
    · rw [if_neg ha] at h ⊢
      rw [if_neg ha]
      exact ih h

variable {rows : Rows M H W}

/-- The loop over dynamic children that all fail. -/
theorem tryParams_failed {rest : List Bytes} (children : List (Node M H W)) (params : Params)
    (hkind : ∀ c ∈ children, kindOf c.edge = .param)
    (hsearch : ∀ c ∈ children, takes fullMatch c.edge segment.text = true → ∀ params,
      Failed (fun name => fate fullMatch name rest (below c.edge rows)) params
        (search c params)) :
    Failed
      (fun name => fateOf (((children.map Node.edge).filter fun e =>
        takes fullMatch e segment.text).map (branchFate fullMatch name rest rows)))
      params (tryParams fullMatch search segment children params) := by
  induction children generalizing params with
  | nil => exact ⟨rfl, fun name => rfl⟩
  | cons c cs ih =>
    have ih' := fun params => ih params (fun c' h => hkind c' (mem_cons_of_mem _ h))
      fun c' h => hsearch c' (mem_cons_of_mem _ h)
    have hk := hkind c mem_cons_self
    rw [tryParams, admits_eq_takes hk]
    by_cases ht : takes fullMatch c.edge segment.text = true
    · rw [if_pos ht]
      have hc := hsearch c mem_cons_self ht
        (FlatMap.insertOrAssign params (bindingName c.edge) segment)
      dsimp only
      rcases hs : search c (FlatMap.insertOrAssign params (bindingName c.edge) segment) with
        ⟨found, params'⟩
      rw [hs] at hc
      obtain ⟨hnone, hc⟩ := hc
      obtain rfl : found = none := hnone
      obtain ⟨hres, hrest⟩ := ih' (FlatMap.without params' (bindingName c.edge))
      refine ⟨hres, ?_⟩
      intro name
      have hfilter : (((c :: cs).map Node.edge).filter fun e =>
          takes fullMatch e segment.text) =
          [c.edge] ++ (cs.map Node.edge).filter fun e => takes fullMatch e segment.text :=
        filter_cons_of_pos ht
      dsimp only
      rw [hfilter, map_append, fateOf_append_list]
      refine Fate.Holds.andThen ?_ (hrest name)
      -- this child: bound, searched, and the binding taken back
      show (Fate.andThen .kept (branchFate fullMatch name rest rows c.edge)).Holds _ _
      rw [FlatMap.find_without]
      by_cases hname : name = bindingName c.edge
      · rw [if_pos hname, branchFate, if_pos ⟨hk, hname.symm⟩]
        rfl
      · have hfate := hc name
        rw [FlatMap.find_insertOrAssign, if_neg hname] at hfate
        rw [if_neg hname, branchFate, if_neg fun h => hname h.2.symm]
        exact Fate.Holds.andThen (f := .kept) rfl hfate
    · have hfilter : (((c :: cs).map Node.edge).filter fun e =>
          takes fullMatch e segment.text) =
          (cs.map Node.edge).filter fun e => takes fullMatch e segment.text :=
        filter_cons_of_neg ht
      rw [if_neg ht, hfilter]
      exact ih' params

variable [DecidableEq M]

variable {node : Node M H W}

/-- The static child is the one branch of its kind. -/
theorem static_branches (h : Represents node rows) (fullMatch : Bytes → Bytes → Bool) (s : Bytes) :
    ((edges .static rows).filter fun e => takes fullMatch e s) =
      (node.staticChild s).toList.map Node.edge := by
  have hfilter : ((edges .static rows).filter fun e => takes fullMatch e s) =
      (edges .static rows).filter fun e => decide (e = .static s) := by
    refine filter_congr ?_
    intro e he
    obtain ⟨hk, -⟩ := of_mem_edges he
    cases e with
    | static label => simp [takes]
    | param name => cases hk
    | regexParam name pattern => cases hk
    | wildcard name => cases hk
  have hnodup : (edges .static rows).Nodup :=
    (edges_pairwise .static rows).imp fun hab heq => hab (.inl heq)
  rw [hfilter]
  cases hs : node.staticChild s with
  | none =>
    refine filter_eq_nil_iff.mpr ?_
    intro e he
    rw [← h.edges_eq] at he
    obtain ⟨child, hchild, rfl⟩ := mem_map.mp he
    exact find?_eq_none.mp hs child hchild
  | some child =>
    obtain ⟨hchild, hedge⟩ := staticChild_some hs
    have hmem : Segment.static s ∈ edges .static rows := by
      rw [← h.edges_eq, ← hedge]
      exact mem_map_of_mem hchild
    rw [filter_eq, count_eq_one_of_mem hnodup hmem, Option.toList_some, map_cons,
      hedge]
    rfl

variable {p : List Segment}

/-- A node that a search finds holds a route that matches. -/
theorem not_unmatched_of_found {node n : Node M H W} {segs : List Bytes} (h : Represents node rows)
    (hfound : Found fullMatch rows segs node p n) : ¬ Unmatched fullMatch rows segs := by
  intro hnone
  refine hfound.handlers ?_
  rw [(hfound.reached.walk.represents h).1, handlersOf_eq_nil]
  refine eq_nil_iff_forall_not_mem.mpr ?_
  intro r hr
  obtain ⟨q, hmem, hsame⟩ := mem_leaf.mp hr
  have hno := hnone _ hmem
  rw [matchesPath_congr hsame, hfound.matched] at hno
  exact absurd hno Bool.noConfusion

theorem resolveNode_none {segments : List View} (h : Represents node rows)
    (hnone : Unmatched fullMatch rows (segments.map View.text)) (normalized : Bytes)
    (params : Params) : (resolveNode fullMatch normalized segments node params).1 = none := by
  have hsearch := resolveNode_searched fullMatch normalized segments h params
  cases hr : (resolveNode fullMatch normalized segments node params).1 with
  | none => rfl
  | some n =>
    rw [hr] at hsearch
    obtain ⟨p, hfound⟩ := hsearch
    exact absurd hnone (not_unmatched_of_found h hfound)

variable {e : Segment}

omit [DecidableEq M] in
/-- A row below a segment that takes this one goes on from a row with that segment. -/
theorem of_mem_below {y : List Segment × Registration M H W} (hy : y ∈ below e rows) :
    ∃ a, SameEdge a e ∧ (a :: y.1, y.2) ∈ rows := by
  obtain ⟨⟨path, r⟩, hx, hstep⟩ := mem_filterMap.mp hy
  rw [stepRow] at hstep
  cases path with
  | nil => cases hstep
  | cons a q =>
    dsimp only at hstep
    split at hstep
    · next hsame =>
      obtain rfl := Option.some.inj hstep
      exact ⟨a, hsame, hx⟩
    · cases hstep

omit [DecidableEq M] in
theorem unmatched_below {s : Bytes} {rest : List Bytes} (h : Unmatched fullMatch rows (s :: rest))
    (he : takes fullMatch e s = true) : Unmatched fullMatch (below e rows) rest := by
  intro y hy
  obtain ⟨a, hsame, hmem⟩ := of_mem_below hy
  have hno := h _ hmem
  simp only [matchesPath, takes_congr hsame, he, Bool.true_and, Bool.or_eq_false_iff] at hno
  exact hno.2

omit [DecidableEq M] in
theorem unmatched_of_noStatic {s : Bytes} {rest : List Bytes} (h : NoStatic fullMatch rows s rest) :
    Unmatched fullMatch (below (.static s) rows) rest := by
  intro y hy
  obtain ⟨a, hsame, hmem⟩ := of_mem_below hy
  have ha := hsame.symm.eq_of_kind (by rintro ⟨⟩)
  exact h _ hmem y.1 (by rw [ha])

/-- The search of the static child. -/
def staticSearch (fullMatch : Bytes → Bytes → Bool) (normalized : Bytes) (segment : View)
    (rest : List View) (node : Node M H W) (params : Params) : Option (Node M H W) × Params :=
  match node.staticChild segment.text with
  | some child => resolveNode fullMatch normalized rest child params
  | none => (none, params)

variable {normalized : Bytes}

variable {rest : List View}

/-- What the static child did, when its routes do not match. -/
theorem staticSearch_failed (h : Represents node rows)
    (hsearch : ∀ child, node.staticChild segment.text = some child → ∀ params,
      Failed (fun name => fate fullMatch name (rest.map View.text) (below child.edge rows))
        params (resolveNode fullMatch normalized rest child params)) (params : Params) :
    Failed
      (fun name => fateOf (((edges .static rows).filter fun e =>
        takes fullMatch e segment.text).map (branchFate fullMatch name (rest.map View.text) rows)))
      params (staticSearch fullMatch normalized segment rest node params) := by
  rw [static_branches h, staticSearch]
  cases hs : node.staticChild segment.text with
  | none => exact ⟨rfl, fun name => rfl⟩
  | some child =>
    obtain ⟨hnone, hfate⟩ := hsearch child hs params
    refine ⟨hnone, ?_⟩
    intro name
    have hstatic : ¬ bindsName name child.edge := by
      rw [(staticChild_some hs).2]
      rintro ⟨hk, -⟩
      cases hk
    show (Fate.andThen .kept (branchFate fullMatch name (rest.map View.text) rows
      child.edge)).Holds _ _
    rw [branchFate, if_neg hstatic]
    exact Fate.Holds.andThen (f := .kept) rfl (hfate name)

/-- The static child and dynamic children after it that all fail. -/
theorem branches_failed (h : Represents node rows) {front back : List (Node M H W)}
    (hlist : node.paramChildren = front ++ back)
    (hstatic : Unmatched fullMatch (below (.static segment.text) rows) (rest.map View.text))
    (hfront : ∀ c ∈ front, takes fullMatch c.edge segment.text = true →
      Unmatched fullMatch (below c.edge rows) (rest.map View.text))
    (hsearch : ∀ k, ∀ child ∈ kids node k,
      Unmatched fullMatch (below child.edge rows) (rest.map View.text) → ∀ params,
        Failed (fun name => fate fullMatch name (rest.map View.text) (below child.edge rows))
          params (resolveNode fullMatch normalized rest child params)) (params : Params) :
    Failed
      (fun name => fateOf (((edges .static rows ++ front.map Node.edge).filter fun e =>
        takes fullMatch e segment.text).map (branchFate fullMatch name (rest.map View.text) rows)))
      params
      (orElse (staticSearch fullMatch normalized segment rest node params) fun params =>
        tryParams fullMatch (resolveNode fullMatch normalized rest) segment front params) := by
  have hmem : ∀ c ∈ front, c ∈ kids node .param := by
    intro c hc
    rw [kids, hlist]
    exact mem_append_left _ hc
  obtain ⟨hnone, hfirst⟩ := staticSearch_failed h (fun child hs => hsearch .static child
    (staticChild_some hs).1 (by rw [(staticChild_some hs).2]; exact hstatic)) params
  obtain ⟨hnone', hparams⟩ := tryParams_failed front
    (staticSearch fullMatch normalized segment rest node params).2
    (fun c hc => kids_kind h.edges_eq (hmem c hc))
    (fun c hc htakes => hsearch .param c (hmem c hc) (hfront c hc htakes))
  rcases hs : staticSearch fullMatch normalized segment rest node params with ⟨found, params'⟩
  rw [hs] at hnone hfirst hnone' hparams
  obtain rfl : found = none := hnone
  refine ⟨hnone', ?_⟩
  intro name
  dsimp only
  rw [filter_append, map_append, fateOf_append_list]
  exact (hfirst name).andThen (hparams name)

/-- All the branches of a node. -/
theorem all_branches (h : Represents node rows) (fullMatch : Bytes → Bytes → Bool) (s : Bytes) :
    ((edges .static rows ++ node.paramChildren.map Node.edge).filter fun e =>
      takes fullMatch e s) = branches fullMatch rows s := by
  have hedges : node.paramChildren.map Node.edge = edges .param rows := h.edges_eq .param
  rw [hedges, branches]

omit [DecidableEq M] in
theorem orElse_assoc (found : Option (Node M H W) × Params)
    (next last : Params → Option (Node M H W) × Params) :
    orElse found (fun params => orElse (next params) last) = orElse (orElse found next) last := by
  obtain ⟨_ | node, params⟩ := found <;> rfl

omit [DecidableEq M] in
/-- The three parts of `resolve_node`, from the left. -/
theorem resolveNode_cons (fullMatch : Bytes → Bytes → Bool) (normalized : Bytes)
    (segment : View) (rest : List View) (node : Node M H W) (params : Params) :
    resolveNode fullMatch normalized (segment :: rest) node params =
      orElse
        (orElse (staticSearch fullMatch normalized segment rest node params) fun params =>
          tryParams fullMatch (resolveNode fullMatch normalized rest) segment
            node.paramChildren params)
        fun params => tryWildcard normalized (segment :: rest) params node.wildcardChild := by
  rw [resolveNode, ← orElse_assoc]
  rfl

/-- What the wildcard child does to a name. -/
theorem tryWildcard_find (h : Represents node rows) (normalized : Bytes) (segments : List View)
    (params : Params) (name : Bytes) :
    FlatMap.find (tryWildcard normalized segments params node.wildcardChild).2 name =
      if .wildcard name ∈ edges .wildcard rows then
        some (computeWildcardSlice normalized segments)
      else FlatMap.find params name := by
  have hedges := h.edges_eq .wildcard
  rw [kids] at hedges
  rw [← hedges]
  cases hc : node.wildcardChild with
  | none => rfl
  | some child =>
    rw [hc] at hedges
    have hkind : kindOf child.edge = .wildcard :=
      kids_kind h.edges_eq (k := .wildcard) (by rw [kids, hc]; exact mem_singleton.mpr rfl)
    rw [tryWildcard, FlatMap.find_insertOrAssign]
    have hiff : name = bindingName child.edge ↔
        Segment.wildcard name ∈ (some child).toList.map Node.edge := by
      rw [Option.toList_some, map_cons, map_nil, mem_singleton]
      cases he : child.edge with
      | static label => rw [he] at hkind; cases hkind
      | param n => rw [he] at hkind; cases hkind
      | regexParam n pattern => rw [he] at hkind; cases hkind
      | wildcard n => exact ⟨fun hn => congrArg _ hn, fun hn => Segment.wildcard.inj hn⟩
    simp only [hiff]

/-- A search that fails does to each name what the routes say. -/
theorem resolveNode_failed (normalized : Bytes) (segments : List View) (h : Represents node rows)
    (hnone : Unmatched fullMatch rows (segments.map View.text)) (params : Params) :
    Failed (fun name => fate fullMatch name (segments.map View.text) rows) params
      (resolveNode fullMatch normalized segments node params) := by
  refine ⟨resolveNode_none h hnone normalized params, ?_⟩
  induction segments generalizing node rows params with
  | nil => intro name; rfl
  | cons segment rest ih =>
    have hfailed := branches_failed h (append_nil node.paramChildren).symm
      (unmatched_below hnone (decide_eq_true rfl)) (fun c _ => unmatched_below hnone)
      (fun k child hchild hbelow params =>
        ⟨resolveNode_none (h.child hchild) hbelow normalized params,
          ih (h.child hchild) hbelow params⟩) params
    rw [all_branches h] at hfailed
    obtain ⟨hfirst, hfate⟩ := hfailed
    intro name
    dsimp only
    rw [map_cons, fate_cons, resolveNode_cons]
    rcases hs : orElse (staticSearch fullMatch normalized segment rest node params)
      fun params => tryParams fullMatch (resolveNode fullMatch normalized rest) segment
        node.paramChildren params with ⟨found, params'⟩
    rw [hs] at hfirst hfate
    obtain rfl : found = none := hfirst
    refine (hfate name).andThen ?_
    show Fate.Holds _ _ (FlatMap.find (tryWildcard normalized (segment :: rest) params'
      node.wildcardChild).2 name)
    rw [tryWildcard_find h]
    by_cases hw : Segment.wildcard name ∈ edges .wildcard rows
    · rw [if_pos hw, if_pos hw]
      rfl
    · rw [if_neg hw, if_neg hw]
      rfl

/-! ## Where the search ends -/

omit [DecidableEq M] in
theorem namesOf_cons (e : Segment) (p : List Segment) :
    namesOf (e :: p) = if kindOf e = .static then namesOf p else bindingName e :: namesOf p := by
  rw [namesOf]
  by_cases h : kindOf e = .static
  · rw [if_pos h, filter_cons_of_neg (by simp [h]), namesOf]
  · rw [if_neg h, filter_cons_of_pos (by simp [h]), map_cons, namesOf]

omit [DecidableEq M] in
theorem namesOf_static (he : kindOf e = .static) (p : List Segment) :
    namesOf (e :: p) = namesOf p := by
  rw [namesOf_cons, if_pos he]

/-- No pattern of these routes binds the name. -/
def Absent (name : Bytes) (rows : Rows M H W) : Prop := ∀ x ∈ rows, name ∉ namesOf x.1

/-- The names of each pattern are distinct. -/
def Distinct (rows : Rows M H W) : Prop := ∀ x ∈ rows, (namesOf x.1).Nodup

variable {name : Bytes}

omit [DecidableEq M] in
theorem mem_namesOf_cons (h : name ∈ namesOf p) :
    name ∈ namesOf (e :: p) := by
  rw [namesOf_cons]
  split
  · exact h
  · exact mem_cons_of_mem _ h

omit [DecidableEq M] in
theorem Absent.below (h : Absent name rows) (e : Segment) :
    Absent name (below e rows) := by
  intro y hy hname
  obtain ⟨a, -, hmem⟩ := of_mem_below hy
  exact h _ hmem (mem_namesOf_cons hname)

omit [DecidableEq M] in
theorem Distinct.below (h : Distinct rows) (e : Segment) :
    Distinct (below e rows) := by
  intro y hy
  obtain ⟨a, -, hmem⟩ := of_mem_below hy
  have hn := h _ hmem
  rw [namesOf_cons] at hn
  split at hn
  · exact hn
  · exact (nodup_cons.mp hn).2

omit [DecidableEq M] in
/-- Below a parameter its name does not occur again. -/
theorem Distinct.absent (h : Distinct rows) (he : kindOf e = .param) :
    Absent (bindingName e) (RouterTable.below e rows) := by
  intro y hy
  obtain ⟨a, hsame, hmem⟩ := of_mem_below hy
  have hn := h _ hmem
  obtain rfl := hsame.symm.eq_of_kind (by rw [he]; rintro ⟨⟩)
  rw [namesOf_cons, he, if_neg (by rintro ⟨⟩)] at hn
  exact (nodup_cons.mp hn).1

omit [DecidableEq M] in
/-- A name that the next segment binds occurs. -/
theorem not_absent_of_edge {k : Kind} (he : e ∈ edges k rows) (hk : k ≠ .static)
    (hname : bindingName e = name) :
    ¬ Absent name rows := by
  intro habsent
  obtain ⟨hkind, x, hx, hhead⟩ := of_mem_edges he
  cases hp : x.1 with
  | nil => rw [hp] at hhead; cases hhead
  | cons a q =>
    rw [hp] at hhead
    obtain rfl := Option.some.inj hhead
    refine habsent x hx ?_
    rw [hp, namesOf_cons, hkind, if_neg hk, hname]
    exact mem_cons_self

omit [DecidableEq M] in
theorem branchFate_absent {name s : Bytes} {rest : List Bytes} (h : Absent name rows)
    (hrest : ∀ e, fate fullMatch name rest (below e rows) = .kept)
    (he : e ∈ branches fullMatch rows s) : branchFate fullMatch name rest rows e = .kept := by
  obtain ⟨he, -⟩ := mem_filter.mp he
  rw [branchFate, if_neg, hrest]
  rintro ⟨hk, hname⟩
  rcases mem_append.mp he with he | he
  · rw [(of_mem_edges he).1] at hk
    cases hk
  · exact not_absent_of_edge he (by rintro ⟨⟩) hname h

omit [DecidableEq M] in
/-- A name that no pattern binds is not touched. -/
theorem fate_absent (segs : List Bytes) (h : Absent name rows) :
    fate fullMatch name segs rows = .kept := by
  induction segs generalizing rows with
  | nil => rfl
  | cons s rest ih =>
    have hw : Segment.wildcard name ∉ edges .wildcard rows :=
      fun hmem => not_absent_of_edge hmem (by rintro ⟨⟩) rfl h
    rw [fate_cons, if_neg hw]
    show fateOf _ = _
    rw [fateOf_eq_kept]
    intro f hf
    obtain ⟨e, he, rfl⟩ := mem_map.mp hf
    exact branchFate_absent h (fun e => ih (h.below e)) he

omit [DecidableEq M] in
theorem fateBefore_absent (segs : List Bytes) (h : Absent name rows) (p : List Segment) :
    fateBefore fullMatch name segs rows p = .kept := by
  induction p generalizing segs rows with
  | nil => cases segs <;> rfl
  | cons e p ih =>
    cases segs with
    | nil => rfl
    | cons s rest =>
      rw [fateBefore_cons, ih rest (h.below e)]
      show fateOf _ = _
      rw [fateOf_eq_kept]
      intro f hf
      obtain ⟨b, hb, rfl⟩ := mem_map.mp hf
      exact branchFate_absent h (fun e => fate_absent rest (h.below e))
        (takeWhile_subset _ hb)

/-- The names of the way that the search took occur in the patterns. -/
theorem reached_not_absent {segs : List Bytes} {node n : Node M H W}
    (h : Reached fullMatch rows segs node p n) (hrep : Represents node rows)
    (hname : name ∈ namesOf p) : ¬ Absent name rows := by
  induction h with
  | here handlers => exact absurd hname not_mem_nil
  | @static rows s rest node child n p found deeper ih =>
    obtain ⟨hchild, hedge⟩ := staticChild_some found
    rw [namesOf_static (congrArg kindOf hedge)] at hname
    intro habsent
    exact ih (hrep.child hchild) hname (habsent.below _)
  | @param rows s rest node child n p front back noStatic children admitted earlier deeper ih =>
    have hchild : child ∈ kids node .param := by
      rw [kids, children]
      exact mem_append_right _ mem_cons_self
    have hkind := kids_kind hrep.edges_eq hchild
    rw [namesOf_cons, hkind, if_neg (by rintro ⟨⟩)] at hname
    rcases mem_cons.mp hname with rfl | hname
    · refine not_absent_of_edge (k := .param) ?_ (by rintro ⟨⟩) rfl
      rw [← hrep.edges_eq]
      exact mem_map_of_mem hchild
    · intro habsent
      exact ih (hrep.child hchild) hname (habsent.below _)
  | @wildcard rows s rest node child noStatic noParam child_eq handlers =>
    have hchild : child ∈ kids node .wildcard := by
      rw [kids, child_eq]
      exact mem_singleton.mpr rfl
    rw [namesOf_cons, kids_kind hrep.edges_eq hchild, if_neg (by rintro ⟨⟩)] at hname
    obtain rfl := mem_singleton.mp hname
    refine not_absent_of_edge (k := .wildcard) ?_ (by rintro ⟨⟩) rfl
    rw [← hrep.edges_eq]
    exact mem_map_of_mem hchild

omit [DecidableEq M] in
theorem bindings_param (he : kindOf e = .param) (normalized : Bytes) (p : List Segment) (s : View)
    (rest : List View) :
    bindings normalized (e :: p) (s :: rest) =
      (bindingName e, s) :: bindings normalized p rest := by
  cases e with
  | static label => cases he
  | param name => rfl
  | regexParam name pattern => rfl
  | wildcard name => cases he

omit [DecidableEq M] in
theorem bindings_wildcard (he : kindOf e = .wildcard) (normalized : Bytes) (p : List Segment)
    (segments : List View) :
    bindings normalized (e :: p) segments =
      [(bindingName e, computeWildcardSlice normalized segments)] := by
  cases e with
  | static label => cases he
  | param name => cases he
  | regexParam name pattern => cases he
  | wildcard name => cases segments <;> rfl

omit [DecidableEq M] in
theorem takeWhile_front {front back : List Segment} (h : e ∉ front) :
    ((front ++ e :: back).takeWhile fun b => decide (b ≠ e)) = front := by
  rw [takeWhile_append_of_pos]
  · rw [takeWhile_cons_of_neg (by simp), append_nil]
  · intro b hb
    exact decide_eq_true fun hbe => h (hbe ▸ hb)

/-- What the search leaves of each name when it comes to `p`: the binding of `p`, or what
    happened to it before. -/
def Bound (fullMatch : Bytes → Bytes → Bool) (rows : Rows M H W) (normalized : Bytes)
    (segments : List View) (p : List Segment) (params params' : Params) : Prop :=
  ∀ name,
    (name ∈ namesOf p →
      FlatMap.find params' name = FlatMap.lookup (bindings normalized p segments) name) ∧
    (name ∉ namesOf p →
      (fateBefore fullMatch name (segments.map View.text) rows p).Holds
        (FlatMap.find params name) (FlatMap.find params' name))

/-- The search ended in the static child. -/
theorem bound_static {node child : Node M H W} {params params' : Params}
    (hrep : Represents node rows) (hs : node.staticChild segment.text = some child)
    (h : Bound fullMatch (below child.edge rows) normalized rest p params params') :
    Bound fullMatch rows normalized (segment :: rest) (child.edge :: p) params params' := by
  have hedge := (staticChild_some hs).2
  have hbindings : bindings normalized (child.edge :: p) (segment :: rest) =
      bindings normalized p rest := by
    rw [hedge]
    rfl
  have hbranches : branches fullMatch rows segment.text =
      [] ++ child.edge :: ((edges .param rows).filter fun e => takes fullMatch e segment.text) := by
    rw [branches, filter_append, static_branches hrep, hs]
    rfl
  intro name
  rw [namesOf_static (congrArg kindOf hedge), map_cons, fateBefore_cons, hbranches,
    takeWhile_front not_mem_nil, hbindings]
  exact ⟨(h name).1, fun hname => Fate.Holds.andThen (f := .kept) rfl ((h name).2 hname)⟩

/-- The search ended below a dynamic child. -/
theorem bound_param {node child : Node M H W} {front back : List (Node M H W)}
    {params params₁ params' : Params} (hrep : Represents node rows) (hdistinct : Distinct rows)
    (hlist : node.paramChildren = front ++ child :: back)
    (htakes : takes fullMatch child.edge segment.text = true)
    (hp : ∀ name ∈ namesOf p, ¬ Absent name (below child.edge rows))
    (hfirst : ∀ name, (fateOf (((edges .static rows ++ front.map Node.edge).filter fun e =>
      takes fullMatch e segment.text).map
        (branchFate fullMatch name (rest.map View.text) rows))).Holds
      (FlatMap.find params name) (FlatMap.find params₁ name))
    (h : Bound fullMatch (below child.edge rows) normalized rest p
      (FlatMap.insertOrAssign params₁ (bindingName child.edge) segment) params') :
    Bound fullMatch rows normalized (segment :: rest) (child.edge :: p) params params' := by
  have hchild : child ∈ kids node .param := by
    rw [kids, hlist]
    exact mem_append_right _ mem_cons_self
  have hkind := kids_kind hrep.edges_eq hchild
  have hedges : edges .param rows = front.map Node.edge ++ child.edge :: back.map Node.edge := by
    rw [← hrep.edges_eq, kids, hlist, map_append, map_cons]
  have hnot : child.edge ∉ (edges .static rows ++ front.map Node.edge).filter fun e =>
      takes fullMatch e segment.text := by
    intro hmem
    rcases mem_append.mp (mem_filter.mp hmem).1 with hmem | hmem
    · rw [(of_mem_edges hmem).1] at hkind
      cases hkind
    · have happart := edges_pairwise .param rows
      rw [hedges, pairwise_append] at happart
      exact happart.2.2 _ hmem _ mem_cons_self (SameEdge.refl _)
  have hbranches : branches fullMatch rows segment.text =
      ((edges .static rows ++ front.map Node.edge).filter fun e =>
        takes fullMatch e segment.text) ++
      child.edge :: ((back.map Node.edge).filter fun e => takes fullMatch e segment.text) := by
    rw [branches, hedges, ← append_assoc, filter_append]
    exact congrArg _ (filter_cons_of_pos htakes)
  have habsent := hdistinct.absent hkind
  intro name
  rw [namesOf_cons, hkind, if_neg (by rintro ⟨⟩), bindings_param hkind, map_cons,
    fateBefore_cons, hbranches, takeWhile_front hnot]
  by_cases hname : name = bindingName child.edge
  · -- the binding of this segment: nothing below touches it
    refine ⟨fun _ => ?_, fun h => absurd (hname ▸ mem_cons_self) h⟩
    have hkept := (h name).2 fun hmem => hp name hmem (hname ▸ habsent)
    rw [fateBefore_absent _ (hname ▸ habsent)] at hkept
    rw [hkept, FlatMap.find_insertOrAssign, if_pos hname, FlatMap.lookup, if_pos hname.symm]
  · obtain ⟨hbound, hfate⟩ := h name
    refine ⟨?_, ?_⟩
    · intro hmem
      rw [FlatMap.lookup, if_neg fun h => hname h.symm]
      rcases mem_cons.mp hmem with hmem | hmem
      · exact absurd hmem hname
      · exact hbound hmem
    · intro hmem
      have hrest := hfate fun h => hmem (mem_cons_of_mem _ h)
      rw [FlatMap.find_insertOrAssign, if_neg hname] at hrest
      exact (hfirst name).andThen hrest

/-- The search ended at the wildcard child. -/
theorem bound_wildcard {node child : Node M H W} {params params₁ : Params}
    (hrep : Represents node rows) (hchild : node.wildcardChild = some child)
    (hfirst : ∀ name, (fateOf ((branches fullMatch rows segment.text).map
        (branchFate fullMatch name (rest.map View.text) rows))).Holds
      (FlatMap.find params name) (FlatMap.find params₁ name)) :
    Bound fullMatch rows normalized (segment :: rest) [child.edge] params
      (tryWildcard normalized (segment :: rest) params₁ node.wildcardChild).2 := by
  have hkind : kindOf child.edge = .wildcard :=
    kids_kind hrep.edges_eq (k := .wildcard)
      (by rw [kids, hchild]; exact mem_singleton.mpr rfl)
  have hall : ((branches fullMatch rows segment.text).takeWhile fun b =>
      decide (b ≠ child.edge)) = branches fullMatch rows segment.text := by
    refine takeWhile_eq_self_iff.mpr ?_
    intro b hb
    refine decide_eq_true ?_
    rintro rfl
    rcases mem_append.mp (mem_filter.mp hb).1 with hb | hb
    · rw [(of_mem_edges hb).1] at hkind
      cases hkind
    · rw [(of_mem_edges hb).1] at hkind
      cases hkind
  intro name
  rw [namesOf_cons, hkind, if_neg (by rintro ⟨⟩), bindings_wildcard hkind, map_cons,
    fateBefore_cons, hall, hchild, tryWildcard, FlatMap.find_insertOrAssign]
  by_cases hname : name = bindingName child.edge
  · rw [if_pos hname, FlatMap.lookup, if_pos hname.symm]
    exact ⟨fun _ => rfl, fun h => absurd (hname ▸ mem_cons_self) h⟩
  · rw [if_neg hname]
    refine ⟨fun h => absurd (mem_singleton.mp h) hname, fun _ => ?_⟩
    cases hrest : rest.map View.text with
    | nil => rw [hrest] at hfirst; exact hfirst name
    | cons s more => rw [hrest] at hfirst; exact hfirst name

omit [DecidableEq M] in
theorem orElse_none {found : Option (Node M H W) × Params} (h : found.1 = none)
    (next : Params → Option (Node M H W) × Params) : orElse found next = next found.2 := by
  obtain ⟨_ | node, params⟩ := found
  · rfl
  · cases h

omit [DecidableEq M] in
theorem orElse_some {found : Option (Node M H W) × Params} {n : Node M H W} {params : Params}
    (h : found = (some n, params)) (next : Params → Option (Node M H W) × Params) :
    orElse found next = (some n, params) := by
  rw [h]
  rfl

/-- When the search comes to `p`, every name has the binding of `p` or what the abandoned
    branches made of it. -/
theorem resolveNode_bound {segs : List Bytes} {node n : Node M H W}
    (h : Reached fullMatch rows segs node p n) (hrep : Represents node rows)
    (hdistinct : Distinct rows) (normalized : Bytes) {segments : List View}
    (hsegs : segments.map View.text = segs) (params : Params) :
    ∃ params', resolveNode fullMatch normalized segments node params = (some n, params') ∧
      Bound fullMatch rows normalized segments p params params' := by
  induction h generalizing segments params with
  | @here rows node handlers =>
    obtain rfl := map_eq_nil_iff.mp hsegs
    refine ⟨params, by rw [resolveNode, if_neg (by simpa using handlers)], ?_⟩
    intro name
    exact ⟨fun h => absurd h not_mem_nil, fun _ => rfl⟩
  | @static rows s rest node child n p found deeper ih =>
    obtain ⟨segment, views, rfl, rfl, rfl⟩ := map_eq_cons_iff.mp hsegs
    obtain ⟨params', hres, hbound⟩ := ih (hrep.child (staticChild_some found).1)
      (hdistinct.below _) rfl params
    refine ⟨params', ?_, bound_static hrep found hbound⟩
    have hstatic : staticSearch fullMatch normalized segment views node params =
        (some n, params') := by
      rw [staticSearch, found]
      exact hres
    rw [resolveNode_cons]
    exact orElse_some (orElse_some hstatic _) _
  | @param rows s rest node child n p front back noStatic children admitted earlier deeper ih =>
    obtain ⟨segment, views, rfl, rfl, rfl⟩ := map_eq_cons_iff.mp hsegs
    have hchild : child ∈ kids node .param := by
      rw [kids, children]
      exact mem_append_right _ mem_cons_self
    obtain ⟨hnone, hfirst⟩ := branches_failed hrep children (unmatched_of_noStatic noStatic)
      earlier (fun k c hc hbelow params => resolveNode_failed normalized views (hrep.child hc)
        hbelow params) params
    rcases hs : staticSearch fullMatch normalized segment views node params with
      ⟨_ | found, params₀⟩
    · rw [hs] at hnone hfirst
      obtain ⟨params', hres, hbound⟩ := ih (hrep.child hchild) (hdistinct.below _) rfl
        (FlatMap.insertOrAssign (tryParams fullMatch (resolveNode fullMatch normalized views)
          segment front params₀).2 (bindingName child.edge) segment)
      refine ⟨params', ?_, bound_param hrep hdistinct children admitted
        (fun name hname => reached_not_absent deeper (hrep.child hchild) hname) hfirst hbound⟩
      have hloop : tryParams fullMatch (resolveNode fullMatch normalized views) segment
          node.paramChildren params₀ = (some n, params') := by
        rw [children, tryParams_append front (child :: back) hnone, tryParams,
          admits_eq_takes (kids_kind hrep.edges_eq hchild), if_pos admitted]
        dsimp only
        rw [hres]
      rw [resolveNode_cons, hs]
      exact orElse_some hloop _
    · rw [hs] at hnone
      cases hnone
  | @wildcard rows s rest node child noStatic noParam child_eq handlers =>
    obtain ⟨segment, views, rfl, rfl, rfl⟩ := map_eq_cons_iff.mp hsegs
    have hfailed := branches_failed hrep (append_nil node.paramChildren).symm
      (unmatched_of_noStatic noStatic) noParam
      (fun k c hc hbelow params => resolveNode_failed normalized views (hrep.child hc)
        hbelow params) params
    rw [all_branches hrep] at hfailed
    obtain ⟨hnone, hfirst⟩ := hfailed
    refine ⟨_, ?_, bound_wildcard hrep child_eq hfirst⟩
    rw [resolveNode_cons, orElse_none hnone, child_eq, tryWildcard,
      if_neg (by simpa using handlers)]

end RouterParams
