import WaveX.RouterTable

/-! # What the search finds

    `resolve_node` is a search in depth, by kind of segment and among the parameters of a
    node in the order in which they were first registered.  That is an order on patterns,
    and the node it finds is the first of all patterns that match, of whatever method: the
    method is looked up only afterwards. -/

namespace RouterSearch

open QuicVarInt RouterPaths RouterTree RouterTable List

variable {M H W : Type*}

/-! ## Patterns and paths -/

/-- Whether a segment of a pattern stands for this one segment of a path. -/
def takes (fullMatch : Bytes → Bytes → Bool) : Segment → Bytes → Bool
  | .static label, s => decide (label = s)
  | .param _, _ => true
  | .regexParam _ pattern, s => fullMatch pattern s
  | .wildcard _, _ => false

/-- Whether a pattern matches the segments of a path: one by one, and a wildcard at its end
    the rest, which is not empty. -/
def matchesPath (fullMatch : Bytes → Bytes → Bool) : List Segment → List Bytes → Bool
  | [], [] => true
  | a :: p, s :: rest =>
      (decide (kindOf a = .wildcard) && p.isEmpty) ||
        (takes fullMatch a s && matchesPath fullMatch p rest)
  | _, _ => false

/-- The same pattern up to the names of its wildcards. -/
def SamePath (p q : List Segment) : Prop := List.Forall₂ SameEdge p q

theorem SamePath.symm {p q : List Segment} (h : SamePath p q) : SamePath q p :=
  h.flip.imp fun _ _ hab => SameEdge.symm hab

theorem SamePath.trans {p q r : List Segment} (h : SamePath p q) (h' : SamePath q r) :
    SamePath p r := by
  induction h generalizing r with
  | nil => exact h'
  | cons hab _ ih =>
    cases h' with
    | cons hbc hrest => exact .cons (hab.trans hbc) (ih hrest)

/-- Segments of one edge take the same texts. -/
theorem takes_congr {a b : Segment} (h : SameEdge a b) (fullMatch : Bytes → Bytes → Bool)
    (s : Bytes) : takes fullMatch a s = takes fullMatch b s := by
  rcases h with rfl | ⟨ha, hb⟩
  · rfl
  · cases a <;> cases ha
    cases b <;> cases hb
    rfl

/-- Paths along the same edges match the same texts. -/
theorem matchesPath_congr {p q : List Segment} (h : SamePath p q)
    (fullMatch : Bytes → Bytes → Bool) (segs : List Bytes) :
    matchesPath fullMatch p segs = matchesPath fullMatch q segs := by
  induction h generalizing segs with
  | nil => rfl
  | @cons a b p q hab hpq ih =>
    cases segs with
    | nil => rfl
    | cons s rest =>
      have hempty : p.isEmpty = q.isEmpty := by cases hpq <;> rfl
      simp only [matchesPath, hab.kind, takes_congr hab, ih, hempty]

/-! ## The order of the search -/

/-- The next segment of a row shares the child of `a`. -/
def heads (a : Segment) (x : List Segment × Registration M H W) : Bool :=
  match x.1 with
  | [] => false
  | b :: _ => decide (SameEdge b a)

/-- The first route that passes through the child of `a`. -/
def firstSeen (rows : Rows M H W) (a : Segment) : Nat := rows.findIdx (heads a)

/-- The search comes to `p` before it comes to `q`: where they part, it turns to static
    segments, then to parameters, then to the wildcard, and to what was registered first. -/
def precedes (rows : Rows M H W) : List Segment → List Segment → Bool
  | a :: p, b :: q =>
      if SameEdge a b then precedes (below a rows) p q
      else decide ((kindOf a).rank < (kindOf b).rank) ||
        (decide (kindOf a = kindOf b) && decide (firstSeen rows a < firstSeen rows b))
  | _, _ => false

/-- They have the same precedence. -/
theorem precedes_congr_left {p q : List Segment} (h : SamePath p q) (rows : Rows M H W)
    (x : List Segment) : precedes rows p x = precedes rows q x := by
  induction h generalizing rows x with
  | nil => rfl
  | @cons a b p q hab hpq ih =>
    cases x with
    | nil => rfl
    | cons c x =>
      have hiff : SameEdge a c ↔ SameEdge b c :=
        ⟨fun h => hab.symm.trans h, fun h => hab.trans h⟩
      have hseen : firstSeen rows a = firstSeen rows b := by
        refine congrArg rows.findIdx ?_
        funext y
        rw [heads, heads]
        cases y.1 with
        | nil => rfl
        | cons d z =>
          have : SameEdge d a ↔ SameEdge d b :=
            ⟨fun h => h.trans hab, fun h => h.trans hab.symm⟩
          simp only [this]
      simp only [precedes, hiff, hseen, hab.kind, below_congr hab, ih]

/-- A pattern does not come before itself. -/
theorem precedes_same {p q : List Segment} (h : SamePath p q) (rows : Rows M H W) :
    precedes rows p q = false := by
  induction h generalizing rows with
  | nil => rfl
  | cons hab _ ih => rw [precedes, if_pos hab, ih]

variable {rows : Rows M H W}

/-- Of two patterns at most one comes before the other. -/
theorem precedes_asymm {p q : List Segment} (h : precedes rows p q = true) :
    precedes rows q p = false := by
  induction p generalizing q rows with
  | nil => cases q <;> exact absurd h Bool.false_ne_true
  | cons a p ih =>
    cases q with
    | nil => rfl
    | cons b q =>
      rw [precedes] at h ⊢
      by_cases hab : SameEdge a b
      · rw [if_pos hab] at h
        rw [if_pos hab.symm, ← below_congr hab]
        exact ih h
      · rw [if_neg hab] at h
        rw [if_neg fun hba => hab hba.symm]
        simp only [Bool.or_eq_true, decide_eq_true_eq, Bool.and_eq_true] at h
        simp only [Bool.or_eq_false_iff, decide_eq_false_iff_not, Bool.and_eq_false_iff]
        rcases h with h | ⟨hk, h⟩
        · refine ⟨by omega, .inl ?_⟩
          intro hk
          rw [hk] at h
          exact lt_irrefl _ h
        · rw [hk]
          exact ⟨lt_irrefl _, .inr (by omega)⟩

/-- A new row does not move an edge that was there. -/
theorem firstSeen_append_of_lt {a : Segment} (h : firstSeen rows a < rows.length)
    (x : List Segment × Registration M H W) :
    firstSeen (rows ++ [x]) a = firstSeen rows a := by
  rw [firstSeen, findIdx_append]
  exact if_pos h

theorem firstSeen_lt_length {a : Segment} {k : Kind} (h : a ∈ edges k rows) :
    firstSeen rows a < rows.length := by
  obtain ⟨-, x, hx, hhead⟩ := of_mem_edges h
  refine findIdx_lt_length_of_exists ⟨x, hx, ?_⟩
  rw [heads]
  cases hp : x.1 with
  | nil => rw [hp] at hhead; cases hhead
  | cons b p =>
    rw [hp] at hhead
    obtain rfl := Option.some.inj hhead
    exact decide_eq_true (SameEdge.refl b)

/-- The children of a kind stand in the order in which they were first seen. -/
theorem edges_sorted (k : Kind) (rows : Rows M H W) :
    (edges k rows).Pairwise fun a b => firstSeen rows a < firstSeen rows b := by
  induction rows using List.reverseRecOn with
  | nil => exact List.Pairwise.nil
  | append_singleton rows x ih =>
    -- those that were there keep their place
    have hold : (edges k rows).Pairwise fun a b =>
        firstSeen (rows ++ [x]) a < firstSeen (rows ++ [x]) b := by
      refine ih.imp_of_mem ?_
      intro a b ha hb hab
      rwa [firstSeen_append_of_lt (firstSeen_lt_length ha),
        firstSeen_append_of_lt (firstSeen_lt_length hb)]
    rw [edges_append, addEdge]
    cases hx : x.1 with
    | nil => exact hold
    | cons c q =>
      dsimp only
      split
      · next hnew =>
        refine pairwise_append.mpr ⟨hold, pairwise_singleton _ _, ?_⟩
        intro a ha b hb
        rw [mem_singleton.mp hb]
        have hlast : rows.length ≤ firstSeen (rows ++ [x]) c := by
          have hnone : firstSeen rows c = rows.length := by
            refine findIdx_eq_length.mpr ?_
            intro y hy
            rw [heads]
            cases hp : y.1 with
            | nil => rfl
            | cons d p =>
              refine decide_eq_false ?_
              intro hdc
              obtain ⟨e, he, hed⟩ := mem_edges_of_mem hy hp
              have hk : kindOf d = k := hdc.kind.trans hnew.1
              exact hnew.2 e (hk ▸ he) (hed.trans hdc)
          rw [firstSeen, findIdx_append]
          split
          · next hlt => rw [firstSeen] at hnone; omega
          · omega
        rw [firstSeen_append_of_lt (firstSeen_lt_length ha)]
        exact lt_of_lt_of_le (firstSeen_lt_length ha) hlast
      · exact hold

/-! ## The search -/

/-- The way from a node down to another, by the segments of the nodes on it. -/
inductive Walk : Node M H W → List Segment → Node M H W → Prop
  | here (node : Node M H W) : Walk node [] node
  | step {node child n : Node M H W} {k : Kind} {p : List Segment}
      (mem : child ∈ kids node k) (rest : Walk child p n) : Walk node (child.edge :: p) n

/-- None of the routes matches. -/
def Unmatched (fullMatch : Bytes → Bytes → Bool) (rows : Rows M H W) (segs : List Bytes) :
    Prop :=
  ∀ x ∈ rows, matchesPath fullMatch x.1 segs = false

/-- No route goes on with this static segment and matches. -/
def NoStatic (fullMatch : Bytes → Bytes → Bool) (rows : Rows M H W) (s : Bytes)
    (rest : List Bytes) : Prop :=
  ∀ x ∈ rows, ∀ q, x.1 = .static s :: q → matchesPath fullMatch q rest = false

/-- The way of the search to a node with handlers: at each node the children that it turns to
    earlier have nothing that matches. -/
inductive Reached (fullMatch : Bytes → Bytes → Bool) :
    Rows M H W → List Bytes → Node M H W → List Segment → Node M H W → Prop
  | here {rows : Rows M H W} {node : Node M H W} (handlers : node.handlers ≠ []) :
      Reached fullMatch rows [] node [] node
  | static {rows : Rows M H W} {s : Bytes} {rest : List Bytes} {node child n : Node M H W}
      {p : List Segment} (found : node.staticChild s = some child)
      (deeper : Reached fullMatch (below child.edge rows) rest child p n) :
      Reached fullMatch rows (s :: rest) node (child.edge :: p) n
  | param {rows : Rows M H W} {s : Bytes} {rest : List Bytes} {node child n : Node M H W}
      {p : List Segment} {front back : List (Node M H W)}
      (noStatic : NoStatic fullMatch rows s rest)
      (children : node.paramChildren = front ++ child :: back)
      (admitted : takes fullMatch child.edge s = true)
      (earlier : ∀ c ∈ front, takes fullMatch c.edge s = true →
        Unmatched fullMatch (below c.edge rows) rest)
      (deeper : Reached fullMatch (below child.edge rows) rest child p n) :
      Reached fullMatch rows (s :: rest) node (child.edge :: p) n
  | wildcard {rows : Rows M H W} {s : Bytes} {rest : List Bytes} {node child : Node M H W}
      (noStatic : NoStatic fullMatch rows s rest)
      (noParam : ∀ c ∈ node.paramChildren, takes fullMatch c.edge s = true →
        Unmatched fullMatch (below c.edge rows) rest)
      (child_eq : node.wildcardChild = some child) (handlers : child.handlers ≠ []) :
      Reached fullMatch rows (s :: rest) node [child.edge] child

/-- The search came to a node with handlers, by a way that matches and that no other
    matching route precedes. -/
structure Found (fullMatch : Bytes → Bytes → Bool) (rows : Rows M H W) (segs : List Bytes)
    (node : Node M H W) (p : List Segment) (n : Node M H W) : Prop where
  reached : Reached fullMatch rows segs node p n
  matched : matchesPath fullMatch p segs = true
  handlers : n.handlers ≠ []
  first : ∀ x ∈ rows, matchesPath fullMatch x.1 segs = true →
    SamePath x.1 p ∨ precedes rows p x.1 = true

/-- What a search from a node says about its routes. -/
def Searched (fullMatch : Bytes → Bytes → Bool) (rows : Rows M H W) (segs : List Bytes)
    (node : Node M H W) : Option (Node M H W) → Prop
  | none => Unmatched fullMatch rows segs
  | some n => ∃ p, Found fullMatch rows segs node p n

variable {p : List Segment} {x : List Segment × Registration M H W}

theorem mem_below (hx : x ∈ rows) {a e : Segment} (hp : x.1 = a :: p) (hae : SameEdge a e) :
    (p, x.2) ∈ below e rows := by
  refine mem_filterMap.mpr ⟨x, hx, ?_⟩
  rw [stepRow, hp]
  exact if_pos hae

theorem here_eq_nil : here rows = [] ↔ ∀ x ∈ rows, x.1 ≠ [] := by
  rw [here, map_eq_nil_iff, filter_eq_nil_iff]
  simp only [List.isEmpty_iff]

/-- What the loop over the dynamic children found: nothing in those it tried, or a node
    below one of them. -/
def SearchedParams (fullMatch : Bytes → Bytes → Bool) (rows : Rows M H W) (s : Bytes)
    (rest : List Bytes) (children : List (Node M H W)) : Option (Node M H W) → Prop
  | none => ∀ c ∈ children, takes fullMatch c.edge s = true →
      Unmatched fullMatch (below c.edge rows) rest
  | some n => ∃ front c back, children = front ++ c :: back ∧ takes fullMatch c.edge s = true ∧
      (∃ p, Found fullMatch (below c.edge rows) rest c p n) ∧
      ∀ c' ∈ front, takes fullMatch c'.edge s = true →
        Unmatched fullMatch (below c'.edge rows) rest

theorem admits_eq_takes {e : Segment} (h : kindOf e = .param)
    (fullMatch : Bytes → Bytes → Bool) (s : Bytes) : admits fullMatch e s = takes fullMatch e s := by
  cases e with
  | static label => cases h
  | param name => rfl
  | regexParam name pattern => rfl
  | wildcard name => cases h

variable {fullMatch : Bytes → Bytes → Bool} {rest : List Bytes}

variable {search : Node M H W → Params → Option (Node M H W) × Params}

/-- The parameter children are searched in their order. -/
theorem tryParams_searched (segment : View) (children : List (Node M H W)) (params : Params)
    (hkind : ∀ c ∈ children, kindOf c.edge = .param) (hsearch : ∀ c ∈ children, ∀ params,
      Searched fullMatch (below c.edge rows) rest c (search c params).1) :
    SearchedParams fullMatch rows segment.text rest children
      (tryParams fullMatch search segment children params).1 := by
  induction children generalizing params with
  | nil => intro c hc; exact absurd hc not_mem_nil
  | cons c cs ih =>
    have ih' := fun params => ih params (fun c' h => hkind c' (mem_cons_of_mem _ h))
      fun c' h => hsearch c' (mem_cons_of_mem _ h)
    -- what the children after this one give, once this one has nothing
    have hnext : ∀ params, (takes fullMatch c.edge segment.text = true →
          Unmatched fullMatch (below c.edge rows) rest) →
        SearchedParams fullMatch rows segment.text rest (c :: cs)
          (tryParams fullMatch search segment cs params).1 := by
      intro params hc
      have hcs := ih' params
      cases hr : (tryParams fullMatch search segment cs params).1 with
      | none =>
        rw [hr] at hcs
        intro c' hc'
        rcases mem_cons.mp hc' with rfl | hc'
        · exact hc
        · exact hcs c' hc'
      | some n =>
        rw [hr] at hcs
        obtain ⟨front, d, back, rfl, htakes, hfound, hfront⟩ := hcs
        refine ⟨c :: front, d, back, rfl, htakes, hfound, ?_⟩
        intro c' hc'
        rcases mem_cons.mp hc' with rfl | hc'
        · exact hc
        · exact hfront c' hc'
    rw [tryParams, admits_eq_takes (hkind c mem_cons_self)]
    by_cases ht : takes fullMatch c.edge segment.text = true
    · rw [if_pos ht]
      have hc := hsearch c mem_cons_self
        (FlatMap.insertOrAssign params (bindingName c.edge) segment)
      dsimp only
      generalize search c (FlatMap.insertOrAssign params (bindingName c.edge) segment) = res at hc
      obtain ⟨found, params'⟩ := res
      cases found with
      | none => exact hnext _ fun _ => hc
      | some n =>
        exact ⟨[], c, cs, rfl, ht, hc, fun c' h => absurd h not_mem_nil⟩
    · rw [if_neg ht]
      exact hnext params fun h => absurd h ht

variable {s : Bytes}

/-- What a row has to be for the path to go on with `s`. -/
theorem matchesPath_cons {path : List Segment} (h : matchesPath fullMatch path (s :: rest) = true) :
    ∃ a p, path = a :: p ∧ ((kindOf a = .wildcard ∧ p = []) ∨
      (takes fullMatch a s = true ∧ matchesPath fullMatch p rest = true)) := by
  cases path with
  | nil => exact absurd h Bool.false_ne_true
  | cons a p =>
    refine ⟨a, p, rfl, ?_⟩
    simpa [matchesPath] using h

theorem takes_kind {a : Segment} (h : takes fullMatch a s = true) :
    a = .static s ∨ kindOf a = .param := by
  cases a with
  | static label => exact .inl (congrArg _ (of_decide_eq_true h))
  | param name => exact .inr rfl
  | regexParam name pattern => exact .inr rfl
  | wildcard name => exact absurd h Bool.false_ne_true

/-- The static child of a segment is the one for it. -/
theorem staticChild_some {node child : Node M H W} (h : node.staticChild s = some child) :
    child ∈ kids node .static ∧ child.edge = .static s := by
  have hedge := find?_some h
  exact ⟨mem_of_find?_eq_some h, by simpa using hedge⟩

/-- A node found below a child, when nothing that the search turns to earlier matches. -/
theorem found_below {node child n : Node M H W} (htakes : takes fullMatch child.edge s = true)
    (hreached : Reached fullMatch rows (s :: rest) node (child.edge :: p) n)
    (hfound : Found fullMatch (below child.edge rows) rest child p n)
    (hother : ∀ x ∈ rows, matchesPath fullMatch x.1 (s :: rest) = true → ∀ a q, x.1 = a :: q →
      ¬ SameEdge a child.edge → precedes rows (child.edge :: p) x.1 = true) :
    Found fullMatch rows (s :: rest) node (child.edge :: p) n := by
  refine ⟨hreached, ?_, hfound.handlers, ?_⟩
  · simp [matchesPath, htakes, hfound.matched]
  · intro x hx hmatch
    obtain ⟨a, q, hp, hcase⟩ := matchesPath_cons hmatch
    by_cases hsame : SameEdge a child.edge
    · have hq : matchesPath fullMatch q rest = true := by
        rcases hcase with ⟨hw, -⟩ | ⟨-, hq⟩
        · -- a wildcard does not share the child of a segment that takes one
          rw [hsame.kind] at hw
          rcases takes_kind htakes with he | he
          · rw [he] at hw; cases hw
          · rw [he] at hw; cases hw
        · exact hq
      rw [hp]
      rcases hfound.first (q, x.2) (mem_below hx hp hsame) hq with hsp | hpre
      · exact .inl (.cons hsame hsp)
      · right
        rw [precedes, if_pos hsame.symm]
        exact hpre
    · exact .inr (hother x hx hmatch a q hp hsame)

/-- The second search counts only when the first finds nothing. -/
theorem orElse_fst (found : Option (Node M H W) × Params)
    (next : Params → Option (Node M H W) × Params) :
    (orElse found next).1 = found.1.or (next found.2).1 := by
  obtain ⟨_ | node, params⟩ := found <;> rfl

/-- A kind of lower rank goes first. -/
theorem precedes_of_rank {a b : Segment} {p q : List Segment}
    (h : (kindOf a).rank < (kindOf b).rank) : precedes rows (a :: p) (b :: q) = true := by
  have hab : ¬ SameEdge a b := by
    intro hab
    rw [hab.kind] at h
    exact lt_irrefl _ h
  rw [precedes, if_neg hab, decide_eq_true h, Bool.true_or]

/-- A route that matches goes on with a parameter or ends in a wildcard. -/
theorem dynamic_of_noStatic (hstatic : NoStatic fullMatch rows s rest) (hx : x ∈ rows)
    (hmatch : matchesPath fullMatch x.1 (s :: rest) = true) {a : Segment} {q : List Segment}
    (hp : x.1 = a :: q) :
    (kindOf a = .wildcard ∧ q = []) ∨
      (kindOf a = .param ∧ takes fullMatch a s = true ∧ matchesPath fullMatch q rest = true) := by
  obtain ⟨b, t, hb, hcase⟩ := matchesPath_cons hmatch
  obtain ⟨rfl, rfl⟩ : a = b ∧ q = t := List.cons.inj (hp.symm.trans hb)
  rcases hcase with hw | ⟨htakes, hq⟩
  · exact .inl hw
  · rcases takes_kind htakes with rfl | hk
    · rw [hstatic x hx q hp] at hq
      exact absurd hq Bool.false_ne_true
    · exact .inr ⟨hk, htakes, hq⟩

variable [DecidableEq M]

variable {node : Node M H W}

/-- The child for the next segment of a row. -/
theorem exists_child (h : Represents node rows) (hx : x ∈ rows) {a : Segment} (hp : x.1 = a :: p) :
    ∃ child ∈ kids node (kindOf a), SameEdge child.edge a := by
  obtain ⟨b, hb, hba⟩ := mem_edges_of_mem hx hp
  rw [← h.edges_eq] at hb
  obtain ⟨child, hchild, rfl⟩ := mem_map.mp hb
  exact ⟨child, hchild, hba⟩

theorem put_ne_nil {β : Type*} (entries : List (M × β)) (m : M) (value : β) :
    put entries m value ≠ [] := by
  intro h
  exact absurd (append_eq_nil_iff.mp h).2 (cons_ne_nil _ _)

variable {routes : List (Registration M H W)}

/-- A node has a handler when a route ends there. -/
theorem handlersOf_eq_nil :
    handlersOf routes = [] ↔ routes = [] := by
  induction routes using List.reverseRecOn with
  | nil => exact iff_of_true rfl rfl
  | append_singleton routes r _ =>
    rw [handlersOf, foldl_append]
    refine iff_of_false (put_ne_nil _ _ _) ?_
    intro h
    exact absurd (append_eq_nil_iff.mp h).2 (cons_ne_nil _ _)

/-- The end of the path: the node itself. -/
theorem searched_nil (fullMatch : Bytes → Bytes → Bool) (h : Represents node rows) :
    Searched fullMatch rows [] node (if node.handlers.isEmpty then none else some node) := by
  have hhandlers := h.handlers_eq
  by_cases hempty : node.handlers = []
  · rw [hempty]
    intro x hx
    rw [hhandlers, handlersOf_eq_nil, here_eq_nil] at hempty
    cases hp : x.1 with
    | nil => exact absurd hp (hempty x hx)
    | cons a p => rfl
  · rw [if_neg (by simpa using hempty)]
    refine ⟨[], .here hempty, rfl, hempty, ?_⟩
    intro x _ hmatch
    cases hp : x.1 with
    | nil => exact .inl .nil
    | cons a p => rw [hp] at hmatch; exact absurd hmatch Bool.false_ne_true

/-- The wildcard child, when nothing else matches. -/
theorem tryWildcard_searched (h : Represents node rows) (hstatic : NoStatic fullMatch rows s rest)
    (hparams : ∀ c ∈ node.paramChildren, takes fullMatch c.edge s = true →
      Unmatched fullMatch (below c.edge rows) rest) (normalized : Bytes) (segments : List View)
    (params : Params) :
    Searched fullMatch rows (s :: rest) node
      (tryWildcard normalized segments params node.wildcardChild).1 := by
  -- a route that matches ends in a wildcard here
  have hends : ∀ x ∈ rows, matchesPath fullMatch x.1 (s :: rest) = true →
      ∃ a, x.1 = [a] ∧ kindOf a = .wildcard := by
    intro x hx hmatch
    obtain ⟨a, q, hp, -⟩ := matchesPath_cons hmatch
    rcases dynamic_of_noStatic hstatic hx hmatch hp with ⟨hw, hq⟩ | ⟨hk, ha, hq⟩
    · exact ⟨a, by rw [hp, hq], hw⟩
    · obtain ⟨d, hd, hsame⟩ := exists_child h hx hp
      obtain rfl := hsame.symm.eq_of_kind (by rw [hk]; rintro ⟨⟩)
      rw [hk] at hd
      rw [hparams d hd ha _ (mem_below hx hp (SameEdge.refl _))] at hq
      exact absurd hq Bool.false_ne_true
  cases hc : node.wildcardChild with
  | none =>
    intro x hx
    by_contra hmatch
    obtain ⟨a, hp, hw⟩ := hends x hx (by simpa using hmatch)
    obtain ⟨child, hchild, -⟩ := exists_child h hx hp
    rw [hw, kids, hc] at hchild
    exact absurd hchild not_mem_nil
  | some child =>
    have hchild : child ∈ kids node .wildcard := by
      rw [kids, hc]
      exact mem_singleton.mpr rfl
    have hkind : kindOf child.edge = .wildcard := kids_kind h.edges_eq hchild
    have hrep := h.child hchild
    rw [tryWildcard]
    by_cases hempty : child.handlers = []
    · rw [hempty]
      intro x hx
      by_contra hmatch
      obtain ⟨a, hp, hw⟩ := hends x hx (by simpa using hmatch)
      have hmem := mem_below hx hp (.inr ⟨hw, hkind⟩)
      rw [hrep.handlers_eq, handlersOf_eq_nil, here_eq_nil] at hempty
      exact hempty _ hmem rfl
    · rw [if_neg (by simpa using hempty)]
      refine ⟨[child.edge], .wildcard hstatic hparams hc hempty, ?_, hempty, ?_⟩
      · simp [matchesPath, hkind]
      · intro x hx hmatch
        obtain ⟨a, hp, hw⟩ := hends x hx hmatch
        rw [hp]
        exact .inl (.cons (.inr ⟨hw, hkind⟩) .nil)

/-- The dynamic children and then the wildcard child, when nothing static matches. -/
theorem dynamic_searched {segment : View} (h : Represents node rows)
    (hstatic : NoStatic fullMatch rows segment.text rest)
    (hsearch : ∀ c ∈ kids node .param, ∀ params,
      Searched fullMatch (below c.edge rows) rest c (search c params).1) (normalized : Bytes)
    (segments : List View) (params : Params) :
    Searched fullMatch rows (segment.text :: rest) node
      (orElse (tryParams fullMatch search segment node.paramChildren params)
        fun params => tryWildcard normalized segments params node.wildcardChild).1 := by
  have hkind : ∀ c ∈ kids node .param, kindOf c.edge = .param :=
    fun c hc => kids_kind h.edges_eq hc
  have hparams := tryParams_searched segment node.paramChildren params hkind hsearch
  rw [orElse_fst]
  cases hr : (tryParams fullMatch search segment node.paramChildren params).1 with
  | some n =>
    rw [hr] at hparams
    obtain ⟨front, c, back, hlist, htakes, ⟨p, hfound⟩, hfront⟩ := hparams
    have hc : c ∈ kids node .param := by
      rw [kids, hlist]
      exact mem_append_right _ mem_cons_self
    refine ⟨c.edge :: p, found_below htakes
      (.param hstatic hlist htakes hfront hfound.reached) hfound ?_⟩
    intro x hx hmatch a q hp hne
    rw [hp]
    rcases dynamic_of_noStatic hstatic hx hmatch hp with ⟨hw, -⟩ | ⟨hk, ha, hq⟩
    · refine precedes_of_rank ?_
      rw [hkind c hc, hw]
      decide
    · -- its child is tried later: those before this one have nothing
      obtain ⟨d, hd, hsame⟩ := exists_child h hx hp
      obtain rfl := hsame.symm.eq_of_kind (by rw [hk]; rintro ⟨⟩)
      rw [hk] at hd
      have hsorted := edges_sorted .param rows
      rw [← h.edges_eq, kids, hlist, map_append, map_cons, pairwise_append,
        pairwise_cons] at hsorted
      rw [kids, hlist] at hd
      rcases mem_append.mp hd with hd | hd
      · rw [hfront d hd ha _ (mem_below hx hp (SameEdge.refl _))] at hq
        exact absurd hq Bool.false_ne_true
      · rcases mem_cons.mp hd with rfl | hd
        · exact absurd (SameEdge.refl _) hne
        · have hlt := hsorted.2.1.1 _ (mem_map_of_mem hd)
          rw [precedes, if_neg fun hsame => hne hsame.symm, hkind c hc, hk]
          simp [hlt]
  | none =>
    rw [hr] at hparams
    exact tryWildcard_searched h hstatic hparams normalized segments _

/-- The search from a node finds the first route that matches, or there is none. -/
theorem resolveNode_searched (fullMatch : Bytes → Bytes → Bool) (normalized : Bytes)
    (segments : List View) (h : Represents node rows) (params : Params) :
    Searched fullMatch rows (segments.map View.text) node
      (resolveNode fullMatch normalized segments node params).1 := by
  induction segments generalizing node rows params with
  | nil => exact searched_nil fullMatch h
  | cons segment rest ih =>
    have hrest := fun params (hstatic : NoStatic fullMatch rows segment.text
        (rest.map View.text)) =>
      dynamic_searched h hstatic (fun c hc => ih (h.child hc)) normalized (segment :: rest) params
    rw [resolveNode, orElse_fst, map_cons]
    cases hs : node.staticChild segment.text with
    | none =>
      refine hrest params ?_
      intro x hx q hp
      obtain ⟨child, hchild, hsame⟩ := exists_child h hx hp
      have hedge := hsame.symm.eq_of_kind (by rintro ⟨⟩)
      exact absurd hedge.symm (by simpa using find?_eq_none.mp hs child hchild)
    | some child =>
      obtain ⟨hchild, hedge⟩ := staticChild_some hs
      have hfirst := ih (h.child hchild) params
      dsimp only
      cases hr : (resolveNode fullMatch normalized rest child params).1 with
      | none =>
        rw [hr] at hfirst
        refine hrest _ ?_
        intro x hx q hp
        exact hfirst _ (mem_below hx hp (.inl hedge.symm))
      | some n =>
        rw [hr] at hfirst
        obtain ⟨p, hfound⟩ := hfirst
        refine ⟨child.edge :: p, found_below ?_ (.static hs hfound.reached) hfound ?_⟩
        · rw [hedge]
          exact decide_eq_true rfl
        · intro x hx hmatch a q hp hne
          rw [hp]
          -- every other segment that takes this one is dynamic
          refine precedes_of_rank ?_
          obtain ⟨b, t, hb, hcase⟩ := matchesPath_cons hmatch
          obtain ⟨rfl, rfl⟩ : a = b ∧ q = t := List.cons.inj (hp.symm.trans hb)
          have hk : kindOf a = .wildcard ∨ kindOf a = .param := by
            rcases hcase with ⟨hw, -⟩ | ⟨htakes, -⟩
            · exact .inl hw
            · rcases takes_kind htakes with rfl | hk
              · exact absurd (.inl hedge.symm) hne
              · exact .inr hk
          rw [hedge]
          show Kind.static.rank < _
          rcases hk with hk | hk
          · rw [hk]
            decide
          · rw [hk]
            decide

/-! ## The routes at a node -/

/-- The routes that end where a way leads. -/
def leaf : List Segment → Rows M H W → List (Registration M H W)
  | [], rows => here rows
  | e :: p, rows => leaf p (below e rows)

omit [DecidableEq M] in
/-- A leaf holds the rows that end along its path. -/
theorem mem_leaf {r : Registration M H W} :
    r ∈ leaf p rows ↔ ∃ q, (q, r) ∈ rows ∧ SamePath q p := by
  induction p generalizing rows with
  | nil =>
    rw [leaf, here]
    constructor
    · intro h
      obtain ⟨x, hx, rfl⟩ := mem_map.mp h
      obtain ⟨hmem, hempty⟩ := mem_filter.mp hx
      exact ⟨[], List.isEmpty_iff.mp hempty ▸ hmem, .nil⟩
    · rintro ⟨q, hmem, hq⟩
      cases hq
      exact mem_map.mpr ⟨([], r), mem_filter.mpr ⟨hmem, rfl⟩, rfl⟩
  | cons e p ih =>
    rw [leaf, ih]
    constructor
    · rintro ⟨q, hmem, hq⟩
      obtain ⟨⟨path, r'⟩, hx, hstep⟩ := mem_filterMap.mp hmem
      rw [stepRow] at hstep
      cases path with
      | nil => cases hstep
      | cons a t =>
        dsimp only at hstep
        split at hstep
        · next hsame =>
          obtain ⟨rfl, rfl⟩ := Prod.mk.inj (Option.some.inj hstep)
          exact ⟨a :: t, hx, .cons hsame hq⟩
        · cases hstep
    · rintro ⟨q, hmem, hq⟩
      cases hq with
      | cons hsame hrest => exact ⟨_, mem_below hmem rfl hsame, hrest⟩

omit [DecidableEq M] in
/-- The way of the search is a way down the tree. -/
theorem Reached.walk {segs : List Bytes} {node n : Node M H W}
    (h : Reached fullMatch rows segs node p n) :
    Walk node p n := by
  induction h with
  | here handlers => exact .here _
  | static found deeper ih => exact .step (staticChild_some found).1 ih
  | @param rows s rest node child n p front back noStatic children admitted earlier deeper ih =>
    have hmem : child ∈ kids node .param := by
      rw [kids, children]
      exact mem_append_right _ mem_cons_self
    exact .step hmem ih
  | @wildcard rows s rest node child noStatic noParam child_eq handlers =>
    have hmem : child ∈ kids node .wildcard := by
      rw [kids, child_eq]
      exact mem_singleton.mpr rfl
    exact .step hmem (.here child)

/-- What a way leads to holds what the routes that end there left. -/
theorem Walk.represents {node n : Node M H W} (w : Walk node p n) (h : Represents node rows) :
    n.handlers = handlersOf (leaf p rows) ∧
      n.routeMiddlewares = routeMiddlewaresOf (leaf p rows) := by
  induction w generalizing rows with
  | here node => exact ⟨h.handlers_eq, h.routeMiddlewares_eq⟩
  | step mem _ ih => exact ih (h.child mem)

omit [DecidableEq M] in
theorem mem_leaf_rowsOf {r : Registration M H W} :
    r ∈ leaf p (rowsOf routes) ↔ r ∈ routes ∧ SamePath r.path p := by
  rw [mem_leaf]
  constructor
  · rintro ⟨q, hmem, hq⟩
    obtain ⟨r', hr', heq⟩ := mem_map.mp hmem
    obtain ⟨rfl, rfl⟩ := Prod.mk.inj heq
    exact ⟨hr', hq⟩
  · rintro ⟨hr, hq⟩
    exact ⟨r.path, mem_map_of_mem hr, hq⟩

theorem lookup_put {β : Type*} (entries : List (M × β)) (m m' : M) (value : β) :
    FlatMap.lookup (put entries m value) m' =
      if m' = m then some value else FlatMap.lookup entries m' := by
  rw [put, FlatMap.lookup_append, FlatMap.lookup_filter_ne]
  by_cases h : m' = m
  · simp [h, FlatMap.lookup]
  · have h' : ¬ m = m' := fun he => h he.symm
    simp [h, h', FlatMap.lookup]

/-- The last registration of a method. -/
def lastOf (m : M) (routes : List (Registration M H W)) : Option (Registration M H W) :=
  (routes.filter fun r => decide (r.method = m)).getLast?

/-- The last registration of a method wins. -/
theorem lastOf_append (m : M) (routes : List (Registration M H W)) (r : Registration M H W) :
    lastOf m (routes ++ [r]) = if r.method = m then some r else lastOf m routes := by
  rw [lastOf, lastOf, filter_append]
  by_cases h : r.method = m
  · simp [h]
  · simp [h]

theorem lastOf_mem {m : M} {r : Registration M H W} (h : lastOf m routes = some r) :
    r ∈ routes ∧ r.method = m := by
  obtain ⟨hmem, hm⟩ := mem_filter.mp (mem_of_getLast? h)
  exact ⟨hmem, of_decide_eq_true hm⟩

theorem lastOf_eq_none {m : M} :
    lastOf m routes = none ↔ ∀ r ∈ routes, r.method ≠ m := by
  rw [lastOf, getLast?_eq_none_iff, filter_eq_nil_iff]
  simp only [decide_eq_true_eq]

/-- A node answers a method with the handler that was registered last. -/
theorem lookup_handlersOf (routes : List (Registration M H W)) (m : M) :
    FlatMap.lookup (handlersOf routes) m = (lastOf m routes).map Registration.handler := by
  induction routes using List.reverseRecOn with
  | nil => rfl
  | append_singleton routes r ih =>
    rw [handlersOf, foldl_append, lastOf_append]
    show FlatMap.lookup (put (handlersOf routes) r.method r.handler) m = _
    rw [lookup_put, ih]
    by_cases h : m = r.method
    · rw [if_pos h, if_pos h.symm]
      rfl
    · rw [if_neg h, if_neg fun he => h he.symm]

/-! ## What resolve answers -/

/-- The segments of a path, as texts. -/
def textsOf (path : Bytes) : List Bytes := (segmentsOf path).map View.text

/-- The path that `freeze_node` puts together along a way. -/
def pathText (p : List Segment) : Bytes := p.flatMap edgeText

/-- The chains are right wherever a way leads. -/
theorem Walk.compiled {middlewares : List (Bytes × W)} {node n : Node M H W} (w : Walk node p n)
    {path : Bytes} (h : Compiled middlewares node path) :
    Compiled middlewares n (path ++ pathText p) := by
  induction w generalizing path with
  | here node => rwa [pathText, flatMap_nil, append_nil]
  | @step node child n k p mem _ ih =>
    obtain ⟨-, hkids⟩ := h
    rw [pathText, flatMap_cons, ← append_assoc]
    exact ih (hkids k child mem)

theorem lookup_map {β γ : Type*} (entries : List (M × β)) (f : M → γ) (m : M) :
    FlatMap.lookup (entries.map fun e => (e.1, f e.1)) m =
      (FlatMap.lookup entries m).map fun _ => f m := by
  induction entries with
  | nil => rfl
  | cons e rest ih =>
    rw [map_cons, FlatMap.lookup, FlatMap.lookup]
    by_cases h : e.1 = m
    · simp [h]
    · simpa [h] using ih

/-- The match of the route that a way leads to. -/
def matchOf (table : Table M H W) (m : M) (p : List Segment) (params : Params) :
    Option (RouteMatch H W) :=
  (lastOf m (leaf p (rowsOf table.routes))).map fun r =>
    ⟨r.handler, chainOf (stored table.uses) (pathText p)
      (routeMiddlewaresOf (leaf p (rowsOf table.routes))) m, params⟩

/-- A match is the last registration of its method at the leaf. -/
theorem matchOf_some {table : Table M H W} {m : M} {params : Params} {found : RouteMatch H W}
    (h : matchOf table m p params = some found) :
    ∃ r, lastOf m (leaf p (rowsOf table.routes)) = some r ∧
      found = ⟨r.handler, chainOf (stored table.uses) (pathText p)
        (routeMiddlewaresOf (leaf p (rowsOf table.routes))) m, params⟩ := by
  obtain ⟨r, hlast, heq⟩ := Option.map_eq_some_iff.mp h
  exact ⟨r, hlast, heq.symm⟩

/-- What the compiled node gives is what the table gives. -/
theorem matchAt_found {table : Table M H W} {root n : Node M H W}
    (hrep : Represents root (rowsOf table.routes))
    (hcompiled : Compiled (stored table.uses) root []) (hwalk : Walk root p n)
    (hne : n.handlers ≠ []) (m : M) (params : Params) :
    matchAt m (some n, params) = matchOf table m p params := by
  obtain ⟨hhandlers, hmws⟩ := hwalk.represents hrep
  obtain ⟨hchains, -⟩ := hwalk.compiled hcompiled
  have hchain := hchains hne
  rw [nil_append] at hchain
  rw [matchAt, matchOf, hchain, lookup_map, hmws, hhandlers, lookup_handlersOf]
  cases lastOf m (leaf p (rowsOf table.routes)) with
  | none => rfl
  | some r => rfl

/-- `resolve`: no route matches, or the search comes to the first one that does, and the
    answer is what was registered there last for the method. -/
theorem resolve_cases {router : Router M H W} {table : Table M H W} (h : Tracks router table)
    (fullMatch : Bytes → Bytes → Bool) (m : M) (path : Bytes) :
    (Unmatched fullMatch (rowsOf table.routes) (textsOf path) ∧
        (router.resolve fullMatch m path).2 = none) ∨
      ∃ root n p params, Represents root (rowsOf table.routes) ∧
        Found fullMatch (rowsOf table.routes) (textsOf path) root p n ∧
        resolveNode fullMatch (normalizePathView path) (segmentsOf path) root FlatMap.empty =
          (some n, params) ∧
        (router.resolve fullMatch m path).2 = matchOf table m p params := by
  obtain ⟨htracks, hfrozen⟩ := h.thaw
  have hsearch := resolveNode_searched fullMatch (normalizePathView path) (segmentsOf path)
    htracks.root FlatMap.empty
  have hcompiled := htracks.chains hfrozen
  rw [htracks.middlewares] at hcompiled
  have hanswer : (router.resolve fullMatch m path).2 = matchAt m (resolveNode fullMatch
      (normalizePathView path) (segmentsOf path)
      (if router.frozen then router else router.freeze).root FlatMap.empty) := by
    rw [Router.resolve]
    dsimp only
    rw [splitPathInto_eq]
    rfl
  rcases hres : resolveNode fullMatch (normalizePathView path) (segmentsOf path)
    (if router.frozen then router else router.freeze).root FlatMap.empty with ⟨found, params⟩
  rw [hres] at hsearch hanswer
  cases found with
  | none => exact .inl ⟨hsearch, hanswer⟩
  | some n =>
    obtain ⟨p, hfound⟩ := hsearch
    refine .inr ⟨_, n, p, params, htracks.root, hfound, hres, hanswer.trans ?_⟩
    exact matchAt_found htracks.root hcompiled hfound.reached.walk hfound.handlers m
      params

end RouterSearch
