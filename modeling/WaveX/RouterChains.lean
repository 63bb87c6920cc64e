import WaveX.RouterLeftovers

/-! # The middleware chain of a match

    `freeze_node` compiles for each route the middlewares that apply to it.  It runs through
    the registered middlewares once, in the order of their registration, and compares the
    stored prefixes as texts with the path that it puts together from the tree.  What the
    chain should be is said here by segments: the global middlewares, the ones whose scope
    is a prefix of the pattern's segments, and the route's own. -/

namespace RouterChains

open QuicVarInt RouterPaths RouterTree RouterTable RouterSearch RouterCompleteness RouterLeftovers
  List

/-! ## Two parts of a list -/

/-- What satisfies one or the other is the one part and then the other, when the list has
    it in that order. -/
theorem filter_or_eq_append {α : Type*} {p q : α → Bool} {l : List α}
    (hdisjoint : ∀ a ∈ l, p a = true → q a = false)
    (h : l.Pairwise fun a b => ¬ (q a = true ∧ p b = true)) :
    (l.filter fun a => p a || q a) = l.filter p ++ l.filter q := by
  induction l with
  | nil => rfl
  | cons a l ih =>
    rw [pairwise_cons] at h
    have ih' := ih (fun b hb => hdisjoint b (mem_cons_of_mem _ hb)) h.2
    cases hp : p a with
    | true =>
      have hq := hdisjoint a mem_cons_self hp
      simp [hp, hq, ih']
    | false =>
      cases hq : q a with
      | true =>
        -- nothing of the first part comes after it
        have hnone : l.filter p = [] := by
          refine filter_eq_nil_iff.mpr ?_
          intro b hb hpb
          exact h.1 b hb ⟨hq, hpb⟩
        rw [hnone, nil_append] at ih'
        simp [hp, hq, ih', hnone]
      | false => simp [hp, hq, ih']

/-- Lists of elements that a function tells apart are told apart by it. -/
theorem map_inj_of_nodup {α β : Type*} {f : α → β} {l : List α} (h : (l.map f).Nodup)
    {l₁ l₂ : List α} (h₁ : ∀ a ∈ l₁, a ∈ l) (h₂ : ∀ a ∈ l₂, a ∈ l)
    (heq : l₁.map f = l₂.map f) : l₁ = l₂ := by
  induction l₁ generalizing l₂ with
  | nil =>
    rw [map_nil, eq_comm, map_eq_nil_iff] at heq
    exact heq.symm
  | cons a l₁ ih =>
    cases l₂ with
    | nil => cases heq
    | cons b l₂ =>
      rw [map_cons, map_cons, List.cons.injEq] at heq
      obtain rfl := inj_on_of_nodup_map h (h₁ a mem_cons_self)
        (h₂ b mem_cons_self) heq.1
      rw [ih (fun x hx => h₁ x (mem_cons_of_mem _ hx))
        (fun x hx => h₂ x (mem_cons_of_mem _ hx)) heq.2]

/-- Where two lists are put together from elements of two disjoint kinds, their parts are
    equal. -/
theorem append_split {α : Type*} {P : α → Prop} {x y s t : List α} (hx : ∀ a ∈ x, P a)
    (hy : ∀ a ∈ y, P a) (hs : ∀ a ∈ s, ¬ P a) (ht : ∀ a ∈ t, ¬ P a) (h : x ++ s = y ++ t) :
    x = y ∧ s = t := by
  induction x generalizing y with
  | nil =>
    cases y with
    | nil => exact ⟨rfl, h⟩
    | cons b y =>
      rw [nil_append] at h
      exact absurd (hy b mem_cons_self) (hs b (h ▸ mem_cons_self))
  | cons a x ih =>
    cases y with
    | nil =>
      rw [nil_append] at h
      exact absurd (hx a mem_cons_self) (ht a (h ▸ mem_cons_self))
    | cons b y =>
      rw [cons_append, cons_append, List.cons.injEq] at h
      obtain ⟨hxy, hst⟩ := ih (fun a ha => hx a (mem_cons_of_mem _ ha))
        (fun a ha => hy a (mem_cons_of_mem _ ha)) h.2
      exact ⟨by rw [h.1, hxy], hst⟩

/-! ## The chain as it should be -/

variable {M H W : Type*} [DecidableEq M]

/-- The segments of a scope. -/
def scopeWords (scope : Bytes) : List Bytes :=
  (splitPathView (normalizePath scope)).map View.text

/-- A global middleware. -/
def isGlobal (u : Bytes × W) : Bool := u.1.isEmpty

/-- A scoped middleware whose scope is a prefix of the pattern, segment by segment. -/
def covers (pattern : Bytes) (u : Bytes × W) : Bool :=
  !u.1.isEmpty && (scopeWords u.1).isPrefixOf (textsOf pattern)

/-- The chain of a route: global, scoped, own. -/
def expectedChain (uses : List (Bytes × W)) (r : Registration M H W) : List W :=
  ((uses.filter isGlobal).map Prod.snd ++ (uses.filter (covers r.pattern)).map Prod.snd) ++
    r.middlewares

/-- The contract: a match comes with the chain of its route. -/
def ExactChain (fullMatch : Bytes → Bytes → Bool) (calls : List (Call M H W)) (m : M)
    (path : Bytes) : Prop :=
  ∀ found, ((run fullMatch calls).resolve fullMatch m path).2 = some found →
    ∃ r, Selected fullMatch (tableOf calls).routes m path r ∧ found.handler = r.handler ∧
      found.middlewares = expectedChain (tableOf calls).uses r

/-- The path under which `freeze_node` finds a route. -/
def routeText (routes : List (Registration M H W)) (r : Registration M H W) : Bytes :=
  pathText (storedPath (rowsOf routes) r.path)

/-- Whether a middleware applies by the texts. -/
def applies (path : Bytes) (u : Bytes × W) : Bool :=
  (storedScope u.1).isEmpty || (storedScope u.1).isPrefixOf path

/-- No global middleware was registered after a scoped one that covers the route; every
    scope is a prefix of the route's text exactly when it covers the route; and the route
    has middlewares of its own, or no earlier registration of it had any. -/
structure ChainKept (table : Table M H W) (m : M) (r : Registration M H W) : Prop where
  ordered : table.uses.Pairwise fun a b => ¬ (covers r.pattern a = true ∧ isGlobal b = true)
  scopes : ∀ u ∈ table.uses, isGlobal u = false →
    ((storedScope u.1).isPrefixOf (routeText table.routes r) = true ↔
      covers r.pattern u = true)
  own : r.middlewares = [] → ∀ r' ∈ leaf r.path (rowsOf table.routes), r'.method = m →
    r'.middlewares = []

/-- All the middlewares that were registered, with the routes' own. -/
def registered (table : Table M H W) : List W :=
  table.uses.map Prod.snd ++ table.routes.flatMap Registration.middlewares

/-! ## What the router stores -/

/-- The last middlewares that a registration of the method brought. -/
def lastOwn (m : M) (routes : List (Registration M H W)) : List W :=
  (FlatMap.lookup (routeMiddlewaresOf routes) m).getD []

theorem lastOwn_append (m : M) (routes : List (Registration M H W)) (r : Registration M H W) :
    lastOwn m (routes ++ [r]) =
      if r.method = m ∧ r.middlewares ≠ [] then r.middlewares else lastOwn m routes := by
  rw [lastOwn, routeMiddlewaresOf, foldl_append]
  show (FlatMap.lookup (if r.middlewares.isEmpty then routeMiddlewaresOf routes else
    put (routeMiddlewaresOf routes) r.method r.middlewares) m).getD [] = _
  by_cases hempty : r.middlewares = []
  · rw [if_pos (List.isEmpty_iff.mpr hempty), if_neg fun h => h.2 hempty, lastOwn]
  · rw [if_neg (fun h => hempty (List.isEmpty_iff.mp h)), lookup_put]
    by_cases hm : m = r.method
    · rw [if_pos hm, if_pos ⟨hm.symm, hempty⟩, Option.getD_some]
    · rw [if_neg hm, if_neg fun h => hm h.1.symm, lastOwn]

variable {routes : List (Registration M H W)}

/-- What is stored for a method comes from its registrations. -/
theorem mem_lastOwn {m : M} {w : W} (h : w ∈ lastOwn m routes) :
    ∃ r ∈ routes, w ∈ r.middlewares := by
  induction routes using List.reverseRecOn with
  | nil => exact absurd h not_mem_nil
  | append_singleton routes r ih =>
    rw [lastOwn_append] at h
    split at h
    · exact ⟨r, mem_append_right _ (mem_singleton.mpr rfl), h⟩
    · obtain ⟨r', hr', hw⟩ := ih h
      exact ⟨r', mem_append_left _ hr', hw⟩

theorem lastOwn_eq_nil {m : M} :
    lastOwn m routes = [] ↔ ∀ r ∈ routes, r.method = m → r.middlewares = [] := by
  induction routes using List.reverseRecOn with
  | nil => exact iff_of_true rfl fun r h => absurd h not_mem_nil
  | append_singleton routes r ih =>
    rw [lastOwn_append]
    constructor
    · intro h r' hr' hm
      split at h
      · next hr => exact absurd h hr.2
      · next hr =>
        rcases mem_append.mp hr' with hr' | hr'
        · exact ih.mp h r' hr' hm
        · obtain rfl := mem_singleton.mp hr'
          by_contra hne
          exact hr ⟨hm, hne⟩
    · intro h
      rw [if_neg fun hr => hr.2
        (h r (mem_append_right _ (mem_singleton.mpr rfl)) hr.1)]
      exact ih.mpr fun r' hr' => h r' (mem_append_left _ hr')

variable {r : Registration M H W}

/-- The last registration's own middlewares are stored, if it has some. -/
theorem lastOwn_of_last {m : M} (h : lastOf m routes = some r) (hne : r.middlewares ≠ []) :
    lastOwn m routes = r.middlewares := by
  induction routes using List.reverseRecOn with
  | nil => cases h
  | append_singleton routes r' ih =>
    rw [lastOf_append] at h
    rw [lastOwn_append]
    by_cases hm : r'.method = m
    · rw [if_pos hm] at h
      obtain rfl := Option.some.inj h
      rw [if_pos ⟨hm, hne⟩]
    · rw [if_neg hm] at h
      rw [if_neg fun h => hm h.1]
      exact ih h

omit [DecidableEq M] in
/-- The stored prefixes filter like the scopes as they were given. -/
theorem applicable_stored (uses : List (Bytes × W)) (path : Bytes) :
    applicable (stored uses) path = (uses.filter (applies path)).map Prod.snd := by
  rw [applicable, stored, filter_map, map_map]
  rfl

omit [DecidableEq M] in
theorem storedScope_isEmpty (u : Bytes × W) : (storedScope u.1).isEmpty = isGlobal u := by
  rw [storedScope, isGlobal]
  cases h : u.1.isEmpty with
  | true => rfl
  | false =>
    rw [if_neg Bool.false_ne_true]
    exact isEmpty_eq_false_iff.mpr (normalizePath_ne_nil _)

/-- The chain of the selected route, as it is stored. -/
def storedChain (table : Table M H W) (m : M) (r : Registration M H W) : List W :=
  (table.uses.filter (applies (routeText table.routes r))).map Prod.snd ++
    lastOwn m (leaf r.path (rowsOf table.routes))

omit [DecidableEq M] in
/-- A scoped middleware is not a global one. -/
theorem covers_of_global {pattern : Bytes} {u : Bytes × W} (h : isGlobal u = true) :
    covers pattern u = false := by
  rw [isGlobal] at h
  rw [covers, h, Bool.not_true, Bool.false_and]

/-- The stored chain is the expected one when the conditions hold. -/
theorem storedChain_of_kept {table : Table M H W} {m : M}
    (hlast : lastOf m (leaf r.path (rowsOf table.routes)) = some r) (h : ChainKept table m r) :
    storedChain table m r = expectedChain table.uses r := by
  have happlies : table.uses.filter (applies (routeText table.routes r)) =
      table.uses.filter fun u => isGlobal u || covers r.pattern u := by
    refine filter_congr ?_
    intro u hu
    rw [applies, storedScope_isEmpty]
    cases hg : isGlobal u with
    | true => rfl
    | false => exact Bool.eq_iff_iff.mpr (h.scopes u hu hg)
  have hown : lastOwn m (leaf r.path (rowsOf table.routes)) = r.middlewares := by
    by_cases hempty : r.middlewares = []
    · rw [hempty]
      exact lastOwn_eq_nil.mpr (h.own hempty)
    · exact lastOwn_of_last hlast hempty
  rw [storedChain, expectedChain, happlies, hown,
    filter_or_eq_append (fun u _ => covers_of_global) h.ordered, map_append]

/-- Where every middleware is registered once, the stored chain is the expected one under
    these conditions only. -/
theorem kept_of_storedChain {table : Table M H W} {m : M} (hr : r ∈ table.routes)
    (hdistinct : (registered table).Nodup)
    (h : storedChain table m r = expectedChain table.uses r) : ChainKept table m r := by
  obtain ⟨huses, -, hapart⟩ := nodup_append.mp hdistinct
  -- the middlewares of the routes are none of those of `use`
  have hroutes : ∀ r' ∈ table.routes, ∀ w ∈ r'.middlewares, ¬ w ∈ table.uses.map Prod.snd := by
    intro r' hr' w hw hu
    exact hapart w hu w (mem_flatMap.mpr ⟨r', hr', hw⟩) rfl
  have hpart : ∀ (p : Bytes × W → Bool), ∀ w ∈ (table.uses.filter p).map Prod.snd,
      w ∈ table.uses.map Prod.snd := by
    intro p w hw
    exact (filter_sublist.map _).subset hw
  obtain ⟨hfirst, hown⟩ := append_split (P := fun w => w ∈ table.uses.map Prod.snd)
    (hpart _)
    (by
      intro w hw
      rcases mem_append.mp hw with hw | hw
      · exact hpart _ w hw
      · exact hpart _ w hw)
    (by
      intro w hw
      obtain ⟨r', hr', hw'⟩ := mem_lastOwn hw
      exact hroutes r' (mem_leaf_rowsOf.mp hr').1 w hw')
    (hroutes r hr) h
  rw [← map_append] at hfirst
  have hsub : ∀ a ∈ table.uses.filter isGlobal ++ table.uses.filter (covers r.pattern),
      a ∈ table.uses := by
    intro a ha
    rcases mem_append.mp ha with ha | ha
    · exact mem_of_mem_filter ha
    · exact mem_of_mem_filter ha
  have hlists := map_inj_of_nodup huses (fun a ha => mem_of_mem_filter ha) hsub hfirst
  have happlies : ∀ u ∈ table.uses, applies (routeText table.routes r) u =
      (isGlobal u || covers r.pattern u) := by
    intro u hu
    refine Bool.eq_iff_iff.mpr ?_
    have hmem : u ∈ table.uses.filter (applies (routeText table.routes r)) ↔
        u ∈ table.uses.filter isGlobal ++ table.uses.filter (covers r.pattern) := by rw [hlists]
    simpa [mem_filter, hu] using hmem
  refine ⟨?_, ?_, ?_⟩
  · have hcongr := filter_congr happlies
    have hord : (table.uses.filter isGlobal ++ table.uses.filter (covers r.pattern)).Pairwise
        fun a b => ¬ (covers r.pattern a = true ∧ isGlobal b = true) := by
      refine pairwise_append.mpr ⟨?_, ?_, ?_⟩
      · refine pairwise_of_forall_mem_list ?_
        rintro a ha b - ⟨hc, -⟩
        rw [covers_of_global (mem_filter.mp ha).2] at hc
        exact Bool.false_ne_true hc
      · refine pairwise_of_forall_mem_list ?_
        rintro a - b hb ⟨-, hg⟩
        have hc := (mem_filter.mp hb).2
        rw [covers_of_global hg] at hc
        exact Bool.false_ne_true hc
      · rintro a ha b - ⟨hc, -⟩
        rw [covers_of_global (mem_filter.mp ha).2] at hc
        exact Bool.false_ne_true hc
    rw [← hlists, hcongr, pairwise_filter] at hord
    refine hord.imp ?_
    rintro a b hab ⟨hc, hg⟩
    exact hab (by rw [hc, Bool.or_true]) (by rw [hg, Bool.true_or]) ⟨hc, hg⟩
  · intro u hu hg
    have hu' := happlies u hu
    rw [applies, storedScope_isEmpty, hg, Bool.false_or, Bool.false_or] at hu'
    rw [hu']
  · intro hempty
    rw [hempty] at hown
    exact lastOwn_eq_nil.mp hown

/-- The match of the route where the search ends has the stored chain. -/
theorem matchOf_chain {table : Table M H W} {root n : Node M H W} {p : List Segment} {m : M}
    (hrep : Represents root (rowsOf table.routes)) (hwalk : Walk root p n)
    (hlast : lastOf m (leaf p (rowsOf table.routes)) = some r) (params : Params) :
    matchOf table m p params = some ⟨r.handler, storedChain table m r, params⟩ ∧
      lastOf m (leaf r.path (rowsOf table.routes)) = some r := by
  have hsame := (mem_leaf_rowsOf.mp (lastOf_mem hlast).1).2
  have hstored := storedPath_eq hwalk hrep hsame
  rw [storedChain, routeText, hstored, leaf_congr hsame]
  refine ⟨?_, hlast⟩
  rw [matchOf, hlast, Option.map_some, chainOf, applicable_stored, lastOwn]

/-- Whatever was registered: a match has the chain of its route under these conditions; and
    only then, where every middleware is registered once. -/
theorem exactChain_iff (fullMatch : Bytes → Bytes → Bool) (calls : List (Call M H W)) (m : M)
    (path : Bytes) :
    ((∀ r, Selected fullMatch (tableOf calls).routes m path r →
        ChainKept (tableOf calls) m r) → ExactChain fullMatch calls m path) ∧
      ((registered (tableOf calls)).Nodup → ExactChain fullMatch calls m path →
        ∀ r, Selected fullMatch (tableOf calls).routes m path r →
          ChainKept (tableOf calls) m r) := by
  rcases resolve_cases (run_tracks fullMatch calls) fullMatch m path with
    ⟨hnone, hanswer⟩ | ⟨root, n, p, params, hrep, hfound, -, hanswer⟩
  · constructor
    · intro _ found hsome
      rw [hanswer] at hsome
      cases hsome
    · intro _ _ r hr
      exact absurd hr.candidate (not_candidate hnone r)
  · constructor
    · intro h found hsome
      rw [hanswer] at hsome
      obtain ⟨r, hlast, -⟩ := matchOf_some hsome
      obtain ⟨hmatch, hlast'⟩ := matchOf_chain hrep hfound.reached.walk hlast params
      rw [hmatch] at hsome
      obtain rfl := Option.some.inj hsome
      have hr := (selected_iff hrep hfound).mpr hlast
      exact ⟨r, hr, rfl, storedChain_of_kept hlast' (h r hr)⟩
    · intro hdistinct h r hr
      have hlast := (selected_iff hrep hfound).mp hr
      obtain ⟨hmatch, -⟩ := matchOf_chain hrep hfound.reached.walk hlast params
      obtain ⟨r', hr', -, hchain⟩ := h _ (hanswer.trans hmatch)
      rw [(selected_iff hrep hfound).mp hr'] at hlast
      obtain rfl := Option.some.inj hlast
      exact kept_of_storedChain (mem_candidates.mp hr.candidate).1 hdistinct hchain

/-- A scope in the words of the pattern: the tree spells `{id}` as `:id`, and the guard of
    `/users/{id}` is not in the chain of that very route. -/
theorem respelled_scope_missed :
    ¬ ExactChain (fun _ _ => true)
      [.use (text "/users/{id}") 7, .route HttpText.Method.get (text "/users/{id}") [] 1]
      HttpText.Method.get (text "/users/42") := by
  intro h
  obtain ⟨found, hfound⟩ := Option.isSome_iff_exists.mp
    (by decide : ((run (fun _ _ => true)
      [.use (text "/users/{id}") 7, .route HttpText.Method.get (text "/users/{id}") [] 1]).resolve
      (fun _ _ => true) HttpText.Method.get (text "/users/42")).2.isSome = true)
  have hmws : ((run (fun _ _ => true)
      [.use (text "/users/{id}") 7, .route HttpText.Method.get (text "/users/{id}") [] 1]).resolve
      (fun _ _ => true) HttpText.Method.get (text "/users/42")).2.map
        (fun f => f.middlewares) = some [] := by decide
  rw [hfound] at hmws
  obtain ⟨r, hr, -, hchain⟩ := h found hfound
  obtain rfl := mem_singleton.mp (mem_candidates.mp hr.candidate).1
  have hempty : found.middlewares = [] := Option.some.inj hmws
  rw [hempty] at hchain
  exact absurd hchain (by decide)

/-! ## The last registration as a whole -/

/-- The contract: handler and own middlewares are those of one registration, the last one,
    behind the middlewares of `use` that apply, with nothing of an earlier chain. -/
def LastWins (fullMatch : Bytes → Bytes → Bool) (calls : List (Call M H W)) (m : M)
    (path : Bytes) : Prop :=
  ∀ found, ((run fullMatch calls).resolve fullMatch m path).2 = some found →
    ∃ r, Selected fullMatch (tableOf calls).routes m path r ∧ found.handler = r.handler ∧
      found.middlewares = ((tableOf calls).uses.filter
        (applies (routeText (tableOf calls).routes r))).map Prod.snd ++ r.middlewares

/-- No registration before `r` with its method and pattern brought middlewares. -/
def NeverOwn (routes : List (Registration M H W)) (m : M) (r : Registration M H W) : Prop :=
  ∀ r' ∈ leaf r.path (rowsOf routes), r'.method = m → r'.middlewares = []

/-- What is stored beside the last registration is its own, unless it has none and an
    earlier one had some. -/
theorem lastOwn_eq_iff {m : M} (h : lastOf m (leaf r.path (rowsOf routes)) = some r) :
    lastOwn m (leaf r.path (rowsOf routes)) = r.middlewares ↔
      (r.middlewares = [] → NeverOwn routes m r) := by
  by_cases hempty : r.middlewares = []
  · rw [hempty, lastOwn_eq_nil]
    exact ⟨fun hnone _ => hnone, fun hnone => hnone rfl⟩
  · exact iff_of_true (lastOwn_of_last h hempty) fun hnil => absurd hnil hempty

/-- Whatever was registered, cleared and resolved before: a match is of the last registration
    as a whole exactly if that one has middlewares or none before it had any. -/
theorem last_route_wins_iff (fullMatch : Bytes → Bytes → Bool) (calls : List (Call M H W))
    (m : M) (path : Bytes) :
    LastWins fullMatch calls m path ↔
      ∀ r, Selected fullMatch (tableOf calls).routes m path r → r.middlewares = [] →
        NeverOwn (tableOf calls).routes m r := by
  rcases resolve_cases (run_tracks fullMatch calls) fullMatch m path with
    ⟨hnone, hanswer⟩ | ⟨root, n, p, params, hrep, hfound, -, hanswer⟩
  · -- nothing matches: there is no answer and no route to select
    refine iff_of_true ?_ ?_
    · intro found hsome
      rw [hanswer] at hsome
      cases hsome
    · intro r hr
      exact absurd hr.candidate (not_candidate hnone r)
  · have hselected := fun r => selected_iff (m := m) hrep hfound (r := r)
    constructor
    · intro h r hr
      obtain ⟨hmatch, hlast⟩ :=
        matchOf_chain hrep hfound.reached.walk ((hselected r).mp hr) params
      obtain ⟨r', hr', -, hchain⟩ := h _ (hanswer.trans hmatch)
      -- only one route is selected
      have hsame := ((hselected r).mp hr).symm.trans ((hselected r').mp hr')
      obtain rfl := Option.some.inj hsame
      exact (lastOwn_eq_iff hlast).mp (append_cancel_left hchain)
    · intro h found hsome
      rw [hanswer] at hsome
      obtain ⟨r, hlast, -⟩ := matchOf_some hsome
      obtain ⟨hmatch, hlast'⟩ := matchOf_chain hrep hfound.reached.walk hlast params
      rw [hmatch] at hsome
      obtain rfl := Option.some.inj hsome
      have hr := (hselected r).mpr hlast
      refine ⟨r, hr, rfl, ?_⟩
      show storedChain (tableOf calls) m r = _
      rw [storedChain, (lastOwn_eq_iff hlast').mpr (h r hr)]

/-- The second registration has no middlewares: its handler answers behind the guard of the
    first one. -/
theorem old_middlewares_kept :
    ¬ LastWins (fun _ _ => true)
      [.route HttpText.Method.get (text "/a") [7] 1, .route HttpText.Method.get (text "/a") [] 2]
      HttpText.Method.get (text "/a") := by
  intro h
  obtain ⟨r, hr, hhandler, hchain⟩ := h ⟨2, [7], FlatMap.empty⟩ rfl
  have huses : (tableOf [.route HttpText.Method.get (text "/a") [7] 1,
      .route HttpText.Method.get (text "/a") [] 2]).uses = [] := rfl
  rw [huses, filter_nil, map_nil, nil_append] at hchain
  -- the handler is the second one, the middlewares are the first one's
  rcases mem_cons.mp (mem_candidates.mp hr.candidate).1 with rfl | hr'
  · exact absurd hhandler (by decide)
  · obtain rfl := mem_singleton.mp hr'
    exact absurd hchain (by decide)

end RouterChains
