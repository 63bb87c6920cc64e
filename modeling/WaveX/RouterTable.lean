import WaveX.RouterTree

/-! # The routes a router stands for

    What the tree is for: a list of the routes in the order in which they were registered.
    A node stands for the routes whose patterns pass through it, each with what is left of
    its pattern there; its children are the next segments of those patterns, in the order in
    which they were first seen.  Every call keeps the router in step with such a table. -/

namespace RouterTable

open QuicVarInt RouterPaths RouterTree List

variable {M H W : Type*}

/-! ## Segments -/

/-- The containers of a node's children. -/
inductive Kind where
  | static
  | param
  | wildcard
  deriving DecidableEq, Repr

/-- The order in which the search turns to them. -/
def Kind.rank : Kind → Nat
  | .static => 0
  | .param => 1
  | .wildcard => 2

def kindOf : Segment → Kind
  | .static _ => .static
  | .param _ | .regexParam _ _ => .param
  | .wildcard _ => .wildcard

/-- Two segments share a child: equal ones do, and all wildcards. -/
def SameEdge (a b : Segment) : Prop :=
  a = b ∨ (kindOf a = .wildcard ∧ kindOf b = .wildcard)

instance (a b : Segment) : Decidable (SameEdge a b) := inferInstanceAs (Decidable (_ ∨ _))

theorem SameEdge.refl (a : Segment) : SameEdge a a := .inl rfl

theorem SameEdge.symm {a b : Segment} (h : SameEdge a b) : SameEdge b a := by
  rcases h with rfl | ⟨ha, hb⟩
  · exact .inl rfl
  · exact .inr ⟨hb, ha⟩

theorem SameEdge.trans {a b c : Segment} (h : SameEdge a b) (h' : SameEdge b c) :
    SameEdge a c := by
  rcases h with rfl | ⟨ha, hb⟩
  · exact h'
  · rcases h' with rfl | ⟨-, hc⟩
    · exact .inr ⟨ha, hb⟩
    · exact .inr ⟨ha, hc⟩

theorem SameEdge.kind {a b : Segment} (h : SameEdge a b) : kindOf a = kindOf b := by
  rcases h with rfl | ⟨ha, hb⟩
  · rfl
  · rw [ha, hb]

theorem SameEdge.eq_of_kind {a b : Segment} (h : SameEdge a b) (hk : kindOf a ≠ .wildcard) :
    a = b := by
  rcases h with rfl | ⟨ha, -⟩
  · rfl
  · exact absurd ha hk

/-! ## Routes -/

/-- A registered route. -/
structure Registration (M H W : Type*) where
  method : M
  pattern : Bytes
  middlewares : List W
  handler : H

/-- The pattern of a route, parsed. -/
def Registration.path (r : Registration M H W) : List Segment := parsePattern r.pattern

/-- Routes with what is left of their patterns at a node. -/
abbrev Rows (M H W : Type*) := List (List Segment × Registration M H W)

/-- The routes of a table at the root. -/
def rowsOf (routes : List (Registration M H W)) : Rows M H W := routes.map fun r => (r.path, r)

/-- The routes that end at the node. -/
def here (rows : Rows M H W) : List (Registration M H W) :=
  (rows.filter fun x => x.1.isEmpty).map Prod.snd

/-- A row at the child for a segment, when it goes there. -/
def stepRow (e : Segment) (x : List Segment × Registration M H W) :
    Option (List Segment × Registration M H W) :=
  match x.1 with
  | [] => none
  | a :: p => if SameEdge a e then some (p, x.2) else none

/-- The rows at the child for a segment. -/
def below (e : Segment) (rows : Rows M H W) : Rows M H W := rows.filterMap (stepRow e)

/-- The next segment of a row is added to those seen, unless its child is there. -/
def addEdge (k : Kind) (seen : List Segment) (x : List Segment × Registration M H W) :
    List Segment :=
  match x.1 with
  | [] => seen
  | a :: _ => if kindOf a = k ∧ ∀ b ∈ seen, ¬ SameEdge b a then seen ++ [a] else seen

/-- The next segments of a kind, in the order in which they are first seen. -/
def edges (k : Kind) (rows : Rows M H W) : List Segment := rows.foldl (addEdge k) []

/-! ## Rows and edges -/

theorem below_append (e : Segment) (rows : Rows M H W) (x : List Segment × Registration M H W) :
    below e (rows ++ [x]) = below e rows ++ (stepRow e x).toList := by
  rw [below, below, filterMap_append]
  cases h : stepRow e x <;> simp [h]

/-- A new row adds at most one edge. -/
theorem edges_append (k : Kind) (rows : Rows M H W) (x : List Segment × Registration M H W) :
    edges k (rows ++ [x]) = addEdge k (edges k rows) x := by
  rw [edges, edges, foldl_append]
  rfl

/-- Segments of one edge lead to the same rows. -/
theorem below_congr {a b : Segment} (h : SameEdge a b) (rows : Rows M H W) :
    below a rows = below b rows := by
  refine congrArg (fun f => rows.filterMap f) ?_
  funext x
  rw [stepRow, stepRow]
  cases x.1 with
  | nil => rfl
  | cons c p =>
    have hiff : SameEdge c a ↔ SameEdge c b :=
      ⟨fun hc => hc.trans h, fun hc => hc.trans h.symm⟩
    simp only [hiff]

/-- A segment is among the edges of its kind up to what shares its child. -/
theorem mem_edges_of_mem {rows : Rows M H W} {x : List Segment × Registration M H W}
    (hx : x ∈ rows) {a : Segment} {p : List Segment} (hp : x.1 = a :: p) :
    ∃ b ∈ edges (kindOf a) rows, SameEdge b a := by
  induction rows using List.reverseRecOn with
  | nil => exact absurd hx not_mem_nil
  | append_singleton rows y ih =>
    rw [edges_append, addEdge]
    rcases mem_append.mp hx with hx | hx
    · obtain ⟨b, hb, hba⟩ := ih hx
      cases y.1 with
      | nil => exact ⟨b, hb, hba⟩
      | cons c q =>
        dsimp only
        split
        · exact ⟨b, mem_append_left _ hb, hba⟩
        · exact ⟨b, hb, hba⟩
    · obtain rfl := mem_singleton.mp hx
      rw [hp]
      dsimp only
      split
      · exact ⟨a, mem_append_right _ (mem_singleton.mpr rfl), SameEdge.refl a⟩
      · next h =>
        by_contra hnone
        exact h ⟨rfl, fun b hb hba => hnone ⟨b, hb, hba⟩⟩

/-- The edges of a kind are next segments of that kind. -/
theorem of_mem_edges {k : Kind} {rows : Rows M H W} {a : Segment} (ha : a ∈ edges k rows) :
    kindOf a = k ∧ ∃ x ∈ rows, x.1.head? = some a := by
  induction rows using List.reverseRecOn with
  | nil => exact absurd ha not_mem_nil
  | append_singleton rows y ih =>
    have hold : a ∈ edges k rows → kindOf a = k ∧ ∃ x ∈ rows ++ [y], x.1.head? = some a := by
      intro h
      obtain ⟨hk, x, hx, hhead⟩ := ih h
      exact ⟨hk, x, mem_append_left _ hx, hhead⟩
    rw [edges_append, addEdge] at ha
    cases hy : y.1 with
    | nil => rw [hy] at ha; exact hold ha
    | cons c q =>
      rw [hy] at ha
      dsimp only at ha
      split at ha
      · next hnew =>
        rcases mem_append.mp ha with ha | ha
        · exact hold ha
        · obtain rfl := mem_singleton.mp ha
          exact ⟨hnew.1, y, mem_append_right _ (mem_singleton.mpr rfl), by rw [hy]; rfl⟩
      · exact hold ha

/-- No two edges of a kind share a child. -/
theorem edges_pairwise (k : Kind) (rows : Rows M H W) :
    (edges k rows).Pairwise fun a b => ¬ SameEdge a b := by
  induction rows using List.reverseRecOn with
  | nil => exact List.Pairwise.nil
  | append_singleton rows y ih =>
    rw [edges_append, addEdge]
    cases y.1 with
    | nil => exact ih
    | cons c q =>
      dsimp only
      split
      · next hnew =>
        refine pairwise_append.mpr ⟨ih, pairwise_singleton _ _, ?_⟩
        intro a ha b hb
        obtain rfl := mem_singleton.mp hb
        exact hnew.2 a ha
      · exact ih

/-! ## Children -/

/-- The children of a node, by kind. -/
def kids (node : Node M H W) : Kind → List (Node M H W)
  | .static => node.children
  | .param => node.paramChildren
  | .wildcard => node.wildcardChild.toList

theorem kids_kind {node : Node M H W} {rows : Rows M H W}
    (hedges : ∀ k, (kids node k).map Node.edge = edges k rows) {k : Kind} {child : Node M H W}
    (h : child ∈ kids node k) : kindOf child.edge = k := by
  have hmem : child.edge ∈ edges k rows := hedges k ▸ mem_map_of_mem h
  exact (of_mem_edges hmem).1

variable {f : Node M H W → Node M H W}

/-- Insertion below a node keeps its edge. -/
theorem insertPath_edge (hf : ∀ n, (f n).edge = n.edge) (path : List Segment) (node : Node M H W) :
    (insertPath f path node).edge = node.edge := by
  cases path with
  | nil => exact hf node
  | cons e rest => cases e <;> rfl

/-- The child of an edge is updated where it is, or there is none yet. -/
theorem updateChild_cases (e : Segment) (f : Node M H W → Node M H W) (l : List (Node M H W)) :
    (∃ front child back, l = front ++ child :: back ∧ child.edge = e ∧
        updateChild e f l = front ++ f child :: back) ∨
      ((∀ child ∈ l, child.edge ≠ e) ∧ updateChild e f l = l ++ [f (Node.fresh e)]) := by
  induction l with
  | nil => exact .inr ⟨fun _ h => absurd h not_mem_nil, rfl⟩
  | cons c rest ih =>
    by_cases hc : c.edge = e
    · exact .inl ⟨[], c, rest, rfl, hc, by rw [updateChild, if_pos hc, nil_append]⟩
    · rw [updateChild, if_neg hc]
      rcases ih with ⟨front, child, back, rfl, hchild, h⟩ | ⟨hnone, h⟩
      · exact .inl ⟨c :: front, child, back, rfl, hchild, by rw [h, cons_append]⟩
      · refine .inr ⟨?_, by rw [h, cons_append]⟩
        intro child hmem
        rcases mem_cons.mp hmem with rfl | hmem
        · exact hc
        · exact hnone child hmem

/-- The children of the segment's kind after `insert_segment`: the child for the segment is
    changed in its place, or there was none and a new one comes last. -/
def Inserted (e : Segment) (f : Node M H W → Node M H W) (old new : List (Node M H W)) : Prop :=
  (∃ front child back, old = front ++ child :: back ∧ SameEdge child.edge e ∧
      new = front ++ f child :: back) ∨
    ((∀ child ∈ old, ¬ SameEdge child.edge e) ∧ new = old ++ [f (Node.fresh e)])

theorem updateChild_inserted {e : Segment} (he : kindOf e ≠ .wildcard)
    (f : Node M H W → Node M H W) (l : List (Node M H W)) :
    Inserted e f l (updateChild e f l) := by
  rcases updateChild_cases e f l with ⟨front, child, back, hl, hchild, h⟩ | ⟨hnone, h⟩
  · exact .inl ⟨front, child, back, hl, .inl hchild, h⟩
  · exact .inr ⟨fun child hmem hsame => hnone child hmem
      (hsame.symm.eq_of_kind he).symm, h⟩

/-- The children of the segment's kind get the new edge or an updated child. -/
theorem insertSegment_kids (e : Segment) (f : Node M H W → Node M H W) {node : Node M H W}
    (hw : ∀ child ∈ kids node .wildcard, kindOf child.edge = .wildcard) :
    Inserted e f (kids node (kindOf e)) (kids (insertSegment e f node) (kindOf e)) := by
  cases e with
  | static label => exact updateChild_inserted (by rintro ⟨⟩) f node.children
  | param name => exact updateChild_inserted (by rintro ⟨⟩) f node.paramChildren
  | regexParam name pattern => exact updateChild_inserted (by rintro ⟨⟩) f node.paramChildren
  | wildcard name =>
    show Inserted _ f node.wildcardChild.toList
      [f (node.wildcardChild.getD (Node.fresh (.wildcard name)))]
    cases hc : node.wildcardChild with
    | none => exact .inr ⟨fun _ h => absurd h not_mem_nil, rfl⟩
    | some child =>
      have hkind := hw child (by rw [kids, hc]; exact mem_singleton.mpr rfl)
      exact .inl ⟨[], child, [], rfl, .inr ⟨hkind, rfl⟩, rfl⟩

/-- The children of other kinds stay. -/
theorem insertSegment_kids_other (e : Segment) (f : Node M H W → Node M H W) (node : Node M H W)
    {k : Kind} (hk : k ≠ kindOf e) : kids (insertSegment e f node) k = kids node k := by
  cases e <;> cases k <;> first | rfl | exact absurd rfl hk

/-- What `insert_segment` leaves as it is. -/
theorem insertSegment_leaf (e : Segment) (f : Node M H W → Node M H W) (node : Node M H W) :
    (insertSegment e f node).handlers = node.handlers ∧
      (insertSegment e f node).routeMiddlewares = node.routeMiddlewares := by
  cases e <;> exact ⟨rfl, rfl⟩

/-- The edges of the children follow those of the rows. -/
theorem inserted_edges {e : Segment} {rest : List Segment} (hf : ∀ n, (f n).edge = n.edge)
    {old new : List (Node M H W)} {rows : Rows M H W} (r : Registration M H W)
    (h : Inserted e f old new) (hold : old.map Node.edge = edges (kindOf e) rows) :
    new.map Node.edge = edges (kindOf e) (rows ++ [(e :: rest, r)]) := by
  rw [edges_append, addEdge]
  dsimp only
  rcases h with ⟨front, child, back, rfl, hsame, rfl⟩ | ⟨hnone, rfl⟩
  · have hmem : child.edge ∈ edges (kindOf e) rows := by
      rw [← hold, map_append, map_cons]
      exact mem_append_right _ mem_cons_self
    rw [if_neg (fun hnew => hnew.2 _ hmem hsame), ← hold]
    simp only [map_append, map_cons, hf]
  · have hnew : ∀ b ∈ edges (kindOf e) rows, ¬ SameEdge b e := by
      intro b hb
      rw [← hold] at hb
      obtain ⟨child, hchild, rfl⟩ := mem_map.mp hb
      exact hnone child hchild
    rw [if_pos ⟨rfl, hnew⟩, ← hold, map_append]
    show _ ++ [(f (Node.fresh e)).edge] = _
    rw [hf]
    rfl

/-- A row of another segment changes nothing below a child. -/
theorem below_append_other {a e : Segment} (h : ¬ SameEdge e a) (rows : Rows M H W)
    (rest : List Segment) (r : Registration M H W) :
    below a (rows ++ [(e :: rest, r)]) = below a rows := by
  rw [below_append, stepRow]
  simp [h]

theorem below_append_same {a e : Segment} (h : SameEdge e a) (rows : Rows M H W)
    (rest : List Segment) (r : Registration M H W) :
    below a (rows ++ [(e :: rest, r)]) = below a rows ++ [(rest, r)] := by
  rw [below_append, stepRow]
  simp [h]

/-- Without the edge there is no row below it. -/
theorem below_eq_nil {e : Segment} {rows : Rows M H W}
    (h : ∀ b ∈ edges (kindOf e) rows, ¬ SameEdge b e) : below e rows = [] := by
  refine filterMap_eq_nil_iff.mpr ?_
  intro x hx
  rw [stepRow]
  cases hp : x.1 with
  | nil => rfl
  | cons a p =>
    dsimp only
    rw [if_neg]
    intro hsame
    obtain ⟨b, hb, hba⟩ := mem_edges_of_mem hx hp
    exact h b (hsame.kind ▸ hb) (hba.trans hsame)

theorem here_append_cons (rows : Rows M H W) (e : Segment) (rest : List Segment)
    (r : Registration M H W) : here (rows ++ [(e :: rest, r)]) = here rows := by
  simp [here]

theorem here_append_nil (rows : Rows M H W) (r : Registration M H W) :
    here (rows ++ [([], r)]) = here rows ++ [r] := by
  simp [here]

/-! ## Nodes and what they stand for -/

variable [DecidableEq M]

/-- What the registrations at a node leave in its handlers. -/
def handlersOf (routes : List (Registration M H W)) : List (M × H) :=
  routes.foldl (fun handlers r => put handlers r.method r.handler) []

/-- What they leave in its route middlewares. -/
def routeMiddlewaresOf (routes : List (Registration M H W)) : List (M × List W) :=
  routes.foldl
    (fun stored r => if r.middlewares.isEmpty then stored else put stored r.method r.middlewares)
    []

/-- A node stands for these routes. -/
inductive Represents : Node M H W → Rows M H W → Prop
  | intro {node : Node M H W} {rows : Rows M H W}
      (handlers : node.handlers = handlersOf (here rows))
      (routeMiddlewares : node.routeMiddlewares = routeMiddlewaresOf (here rows))
      (edges : ∀ k, (kids node k).map Node.edge = edges k rows)
      (kids : ∀ k, ∀ child ∈ kids node k, Represents child (below child.edge rows)) :
      Represents node rows

section

variable {node : Node M H W} {rows : Rows M H W}

/-- The handlers of a node are those of the rows that end there. -/
theorem Represents.handlers_eq (h : Represents node rows) :
    node.handlers = handlersOf (here rows) := by
  obtain ⟨hhandlers, -, -, -⟩ := h
  exact hhandlers

/-- So are its middlewares. -/
theorem Represents.routeMiddlewares_eq (h : Represents node rows) :
    node.routeMiddlewares = routeMiddlewaresOf (here rows) := by
  obtain ⟨-, hmws, -, -⟩ := h
  exact hmws

/-- Its children are the edges of the rows. -/
theorem Represents.edges_eq (h : Represents node rows) (k : Kind) :
    (kids node k).map Node.edge = edges k rows := by
  obtain ⟨-, -, hedges, -⟩ := h
  exact hedges k

/-- A child represents the rows below its edge. -/
theorem Represents.child (h : Represents node rows) {k : Kind} {child : Node M H W}
    (hchild : child ∈ kids node k) : Represents child (RouterTable.below child.edge rows) := by
  obtain ⟨-, -, -, hkids⟩ := h
  exact hkids k child hchild

end

/-- Nothing is registered at a new node. -/
theorem represents_fresh (e : Segment) : Represents (Node.fresh e : Node M H W) [] := by
  refine .intro rfl rfl ?_ ?_
  · intro k
    cases k <;> rfl
  · intro k child hchild
    cases k <;> exact absurd hchild not_mem_nil

/-- Every child of the node with the new route stands for the rows below its edge. -/
theorem inserted_represents {e : Segment} {rest : List Segment} {r : Registration M H W}
    (hf : ∀ n, (f n).edge = n.edge) (hstep : ∀ (child : Node M H W) rows, Represents child rows →
      Represents (f child) (rows ++ [(rest, r)])) {old new : List (Node M H W)} {rows : Rows M H W}
    (h : Inserted e f old new) (hold : old.map Node.edge = edges (kindOf e) rows)
    (hkids : ∀ child ∈ old, Represents child (below child.edge rows)) :
    ∀ child ∈ new, Represents child (below child.edge (rows ++ [(e :: rest, r)])) := by
  have hapart := edges_pairwise (kindOf e) rows
  rw [← hold] at hapart
  -- a child of another segment has the rows it had
  have hkeep : ∀ child ∈ old, ¬ SameEdge child.edge e →
      Represents child (below child.edge (rows ++ [(e :: rest, r)])) := by
    intro child hchild hne
    rw [below_append_other (fun h => hne h.symm)]
    exact hkids child hchild
  intro child hchild
  rcases h with ⟨front, c, back, rfl, hsame, rfl⟩ | ⟨hnone, rfl⟩
  · rw [map_append, map_cons, pairwise_append, pairwise_cons] at hapart
    rcases mem_append.mp hchild with hmem | hmem
    · refine hkeep child (mem_append_left _ hmem) ?_
      intro hce
      exact hapart.2.2 _ (mem_map_of_mem hmem) _ mem_cons_self (hce.trans hsame.symm)
    · rcases mem_cons.mp hmem with rfl | hmem
      · rw [hf, below_append_same hsame.symm]
        exact hstep c _ (hkids c (mem_append_right _ mem_cons_self))
      · refine hkeep child (mem_append_right _ (mem_cons_of_mem _ hmem)) ?_
        intro hce
        exact hapart.2.1.1 _ (mem_map_of_mem hmem) (hsame.trans hce.symm)
  · rcases mem_append.mp hchild with hmem | hmem
    · exact hkeep child hmem (hnone child hmem)
    · obtain rfl := mem_singleton.mp hmem
      have hnil : below e rows = [] := by
        refine below_eq_nil ?_
        intro b hb
        rw [← hold] at hb
        obtain ⟨c, hc, rfl⟩ := mem_map.mp hb
        exact hnone c hc
      rw [hf]
      show Represents _ (below e _)
      rw [below_append_same (SameEdge.refl e), hnil]
      exact hstep _ _ (represents_fresh e)

/-- A route registered at its leaf is one row more. -/
theorem register_represents {node : Node M H W} {rows : Rows M H W} (h : Represents node rows)
    (r : Registration M H W) :
    Represents (node.register r.method r.middlewares r.handler) (rows ++ [([], r)]) := by
  obtain ⟨hhandlers, hmws, hedges, hkids⟩ := h
  refine .intro ?_ ?_ ?_ ?_
  · rw [here_append_nil, handlersOf, foldl_append]
    show put node.handlers r.method r.handler = _
    rw [hhandlers]
    rfl
  · rw [here_append_nil, routeMiddlewaresOf, foldl_append]
    show (if _ then node.routeMiddlewares else put node.routeMiddlewares _ _) = _
    rw [hmws]
    rfl
  · intro k
    rw [edges_append]
    exact hedges k
  · intro k child hchild
    rw [below_append]
    show Represents child (_ ++ [])
    rw [append_nil]
    exact hkids k child hchild

/-- `route` adds a row. -/
theorem insertPath_represents (r : Registration M H W) (path : List Segment)
    {node : Node M H W} {rows : Rows M H W} (h : Represents node rows) :
    Represents (insertPath (Node.register r.method r.middlewares r.handler) path node)
      (rows ++ [(path, r)]) := by
  induction path generalizing node rows with
  | nil => exact register_represents h r
  | cons e rest ih =>
    obtain ⟨hhandlers, hmws, hedges, hkids⟩ := h
    have hf := insertPath_edge (f := Node.register r.method r.middlewares r.handler)
      (fun _ => rfl) rest
    have hins := insertSegment_kids e
      (insertPath (Node.register r.method r.middlewares r.handler) rest)
      fun child hchild => kids_kind hedges hchild
    refine .intro ?_ ?_ ?_ ?_
    · rw [here_append_cons, ← hhandlers]
      exact (insertSegment_leaf e _ node).1
    · rw [here_append_cons, ← hmws]
      exact (insertSegment_leaf e _ node).2
    · intro k
      by_cases hk : k = kindOf e
      · subst hk
        exact inserted_edges hf r hins (hedges _)
      · rw [insertPath, insertSegment_kids_other e _ node hk, hedges, edges_append, addEdge]
        dsimp only
        rw [if_neg (fun hnew => hk hnew.1.symm)]
    · intro k
      by_cases hk : k = kindOf e
      · subst hk
        exact inserted_represents hf (fun child rows => ih) hins (hedges _) (hkids _)
      · intro child hchild
        rw [insertPath, insertSegment_kids_other e _ node hk] at hchild
        have hne : ¬ SameEdge e child.edge := by
          intro hsame
          exact hk ((kids_kind hedges hchild).symm.trans hsame.kind.symm)
        rw [below_append_other hne]
        exact hkids k child hchild

/-! ## Compiled chains -/

/-- The chains of a node and of all nodes below it are those of the registered middlewares,
    at the path of each. -/
inductive Compiled (middlewares : List (Bytes × W)) : Node M H W → Bytes → Prop
  | intro {node : Node M H W} {path : Bytes}
      (chains : node.handlers ≠ [] → node.compiledMiddlewares =
        node.handlers.map fun e => (e.1, chainOf middlewares path node.routeMiddlewares e.1))
      (kids : ∀ k, ∀ child ∈ kids node k,
        Compiled middlewares child (path ++ edgeText child.edge)) :
      Compiled middlewares node path

theorem freezeChildren_eq (middlewares : List (Bytes × W))
    (children : List (Node M H W)) (path : Bytes) :
    freezeChildren middlewares children path =
      children.map fun child => freezeNode middlewares child (path ++ edgeText child.edge) := by
  induction children with
  | nil => rfl
  | cons child rest ih => rw [freezeChildren, ih, map_cons]

/-- The children of a frozen node are its children, each frozen at its own path. -/
theorem freezeNode_kids (middlewares : List (Bytes × W)) (node : Node M H W) (path : Bytes)
    (k : Kind) :
    kids (freezeNode middlewares node path) k =
      (kids node k).map fun child =>
        freezeNode middlewares child (path ++ edgeText child.edge) := by
  obtain ⟨edge, handlers, routeMws, compiled, children, params, wildcard⟩ := node
  rw [freezeNode]
  cases k with
  | static => exact freezeChildren_eq middlewares children path
  | param => exact freezeChildren_eq middlewares params path
  | wildcard => cases wildcard <;> rfl

/-- Freezing leaves the edge of a node, its handlers and its middlewares. -/
theorem freezeNode_fields (middlewares : List (Bytes × W)) (node : Node M H W) (path : Bytes) :
    (freezeNode middlewares node path).edge = node.edge ∧
      (freezeNode middlewares node path).handlers = node.handlers ∧
      (freezeNode middlewares node path).routeMiddlewares = node.routeMiddlewares := by
  obtain ⟨edge, handlers, routeMws, compiled, children, params, wildcard⟩ := node
  rw [freezeNode]
  exact ⟨rfl, rfl, rfl⟩

/-- Freezing changes nothing but the chains. -/
theorem freezeNode_represents {node : Node M H W} {rows : Rows M H W}
    (h : Represents node rows) (middlewares : List (Bytes × W)) (path : Bytes) :
    Represents (freezeNode middlewares node path) rows := by
  induction h generalizing path with
  | @intro node rows hhandlers hmws hedges hkids ih =>
    obtain ⟨-, hh, hm⟩ := freezeNode_fields middlewares node path
    refine .intro (hh.trans hhandlers) (hm.trans hmws) ?_ ?_
    · intro k
      rw [freezeNode_kids, ← hedges k, map_map]
      refine map_congr_left ?_
      intro child _
      exact (freezeNode_fields middlewares child _).1
    · intro k child hchild
      rw [freezeNode_kids] at hchild
      obtain ⟨c, hc, rfl⟩ := mem_map.mp hchild
      rw [(freezeNode_fields middlewares c _).1]
      exact ih k c hc _

/-- Freezing compiles the chains of the whole tree. -/
theorem freezeNode_compiled {node : Node M H W} {rows : Rows M H W}
    (h : Represents node rows) (middlewares : List (Bytes × W)) (path : Bytes) :
    Compiled middlewares (freezeNode middlewares node path) path := by
  induction h generalizing path with
  | @intro node rows hhandlers hmws hedges hkids ih =>
    refine .intro ?_ ?_
    · intro hne
      obtain ⟨edge, handlers, routeMws, compiled, children, params, wildcard⟩ := node
      rw [freezeNode] at hne ⊢
      have hne' : ¬ handlers.isEmpty = true := fun he => hne (List.isEmpty_iff.mp he)
      simp only [if_neg hne']
    · intro k child hchild
      rw [freezeNode_kids] at hchild
      obtain ⟨c, hc, rfl⟩ := mem_map.mp hchild
      rw [(freezeNode_fields middlewares c _).1]
      exact ih k c hc _

theorem compiled_fresh (middlewares : List (Bytes × W)) (e : Segment) (path : Bytes) :
    Compiled middlewares (Node.fresh e : Node M H W) path := by
  refine .intro ?_ ?_
  · intro hne
    exact absurd rfl hne
  · intro k child hchild
    cases k <;> exact absurd hchild not_mem_nil

/-! ## The table of a router -/

/-- What was registered since the last `clear`: the middlewares with their scopes as they
    were given, and the routes. -/
structure Table (M H W : Type*) where
  uses : List (Bytes × W)
  routes : List (Registration M H W)

/-- The abstract effect of a call. -/
def Table.call (table : Table M H W) : Call M H W → Table M H W
  | .route m pattern mws h => { table with routes := table.routes ++ [⟨m, pattern, mws, h⟩] }
  | .use scope mw => { table with uses := table.uses ++ [(scope, mw)] }
  | .clear => ⟨[], []⟩
  | .freeze | .resolve _ _ => table

/-- The table after these calls. -/
def tableOf (calls : List (Call M H W)) : Table M H W := calls.foldl Table.call ⟨[], []⟩

/-- The prefix that `use` stores for a scope. -/
def storedScope (scope : Bytes) : Bytes := if scope.isEmpty then [] else normalizePath scope

/-- The middlewares as the router stores them. -/
def stored (uses : List (Bytes × W)) : List (Bytes × W) :=
  uses.map fun u => (storedScope u.1, u.2)

/-- The router is in step with the table; its chains are too, once it is frozen. -/
structure Tracks (router : Router M H W) (table : Table M H W) : Prop where
  middlewares : router.middlewares = stored table.uses
  root : Represents router.root (rowsOf table.routes)
  chains : router.frozen = true → Compiled router.middlewares router.root []

/-- A new router has no routes. -/
theorem tracks_initial : Tracks (Router.initial : Router M H W) ⟨[], []⟩ where
  middlewares := rfl
  root := represents_fresh _
  chains := fun h => absurd h Bool.false_ne_true

/-- Freezing keeps the routes. -/
theorem Tracks.freeze {router : Router M H W} {table : Table M H W} (h : Tracks router table) :
    Tracks router.freeze table where
  middlewares := h.middlewares
  root := freezeNode_represents h.root _ _
  chains := fun _ => freezeNode_compiled h.root _ _

/-- The router that `resolve` searches: frozen, and for the same table. -/
theorem Tracks.thaw {router : Router M H W} {table : Table M H W} (h : Tracks router table) :
    Tracks (if router.frozen then router else router.freeze) table ∧
      (if router.frozen then router else router.freeze).frozen = true := by
  cases hf : router.frozen with
  | true => exact ⟨h, hf⟩
  | false => exact ⟨h.freeze, rfl⟩

/-- One call keeps them in step. -/
theorem Tracks.call {router : Router M H W} {table : Table M H W} (h : Tracks router table)
    (fullMatch : Bytes → Bytes → Bool) (c : Call M H W) :
    Tracks (router.call fullMatch c) (table.call c) := by
  cases c with
  | route m pattern mws handler =>
    refine ⟨h.middlewares, ?_, fun hf => absurd hf Bool.false_ne_true⟩
    show Represents _ (rowsOf (table.routes ++ [⟨m, pattern, mws, handler⟩]))
    rw [rowsOf, map_append]
    exact insertPath_represents ⟨m, pattern, mws, handler⟩ _ h.root
  | use scope mw =>
    refine ⟨?_, h.root, fun hf => absurd hf Bool.false_ne_true⟩
    show router.middlewares ++ _ = stored (table.uses ++ [(scope, mw)])
    rw [h.middlewares, stored, stored, map_append]
    rfl
  | clear => exact ⟨rfl, represents_fresh _, fun _ => compiled_fresh _ _ _⟩
  | freeze => exact h.freeze
  | resolve m path => exact h.thaw.1

/-- After any calls the router is in step with its table. -/
theorem run_tracks (fullMatch : Bytes → Bytes → Bool) (calls : List (Call M H W)) :
    Tracks (run fullMatch calls) (tableOf calls) := by
  induction calls using List.reverseRecOn with
  | nil => exact tracks_initial
  | append_singleton calls c ih =>
    rw [run, tableOf, foldl_append, foldl_append]
    exact ih.call fullMatch c

end RouterTable
