import WaveX.RouterSearch

/-! # Which routes the router answers

    A request should be answered when a route of its method matches, by the one that is
    static where another is dynamic.  The tree is one for all methods, so the search may end
    at a route of another method; and it goes down into the parameter that was registered
    first before it has seen what the others would match. -/

namespace RouterCompleteness

open QuicVarInt RouterPaths RouterTree RouterTable RouterSearch

variable {M H W : Type*} [DecidableEq M]

/-- The routes of a method that match a path. -/
def candidates (fullMatch : Bytes → Bytes → Bool) (routes : List (Registration M H W)) (m : M)
    (path : Bytes) : List (Registration M H W) :=
  routes.filter fun r => decide (r.method = m) && matchesPath fullMatch r.path (textsOf path)

/-- A pattern is preferred to another: where their kinds of segment first differ it has the
    static one, or a parameter against a wildcard. -/
def preferred : List Segment → List Segment → Bool
  | a :: p, b :: q =>
      decide ((kindOf a).rank < (kindOf b).rank) ||
        (decide (kindOf a = kindOf b) && preferred p q)
  | _, _ => false

/-- The contract: a request is answered exactly when a route of its method matches, with the
    handler of one to which no other is preferred. -/
def Complete (fullMatch : Bytes → Bytes → Bool) (calls : List (Call M H W)) (m : M)
    (path : Bytes) : Prop :=
  let answer := ((run fullMatch calls).resolve fullMatch m path).2
  let matching := candidates fullMatch (tableOf calls).routes m path
  (answer.isSome = true ↔ matching ≠ []) ∧
    ∀ found, answer = some found → ∃ r ∈ matching, found.handler = r.handler ∧
      ∀ r' ∈ matching, preferred r'.path r.path = false

/-- No route of the method matches; or one does that comes first in the order of the search
    among the matching routes of all methods, and none of its own method is preferred to
    it. -/
def Unhidden (fullMatch : Bytes → Bytes → Bool) (routes : List (Registration M H W)) (m : M)
    (path : Bytes) : Prop :=
  candidates fullMatch routes m path = [] ∨
    ∃ r ∈ candidates fullMatch routes m path,
      (∀ r' ∈ routes, matchesPath fullMatch r'.path (textsOf path) = true →
        precedes (rowsOf routes) r'.path r.path = false) ∧
      ∀ r' ∈ candidates fullMatch routes m path, preferred r'.path r.path = false

theorem preferred_congr {p q : List Segment} (h : SamePath p q) (x : List Segment) :
    preferred x p = preferred x q := by
  induction h generalizing x with
  | nil => rfl
  | cons hab _ ih =>
    cases x with
    | nil => rfl
    | cons c x => simp only [preferred, hab.kind, ih]

variable {fullMatch : Bytes → Bytes → Bool} {routes : List (Registration M H W)}
  {r : Registration M H W}

variable {path : Bytes}

theorem mem_candidates {m : M} :
    r ∈ candidates fullMatch routes m path ↔
      r ∈ routes ∧ r.method = m ∧ matchesPath fullMatch r.path (textsOf path) = true := by
  rw [candidates, List.mem_filter, Bool.and_eq_true, decide_eq_true_eq]

/-- Where nothing matches there is no candidate. -/
theorem not_candidate {m : M} (hnone : Unmatched fullMatch (rowsOf routes) (textsOf path))
    (r : Registration M H W) :
    r ∉ candidates fullMatch routes m path := by
  intro hr
  obtain ⟨hroute, -, hmatch⟩ := mem_candidates.mp hr
  have hno := hnone _ (List.mem_map_of_mem hroute : (r.path, r) ∈ rowsOf _)
  rw [hmatch] at hno
  exact absurd hno Bool.noConfusion

variable {root n : Node M H W}

variable {p : List Segment}

/-- The last registration where the search ends is a candidate. -/
theorem lastOf_candidate (hfound : Found fullMatch (rowsOf routes) (textsOf path) root p n) {m : M}
    (h : lastOf m (leaf p (rowsOf routes)) = some r) :
    r ∈ candidates fullMatch routes m path ∧ SamePath r.path p := by
  obtain ⟨hmem, hm⟩ := lastOf_mem h
  obtain ⟨hroute, hsame⟩ := mem_leaf_rowsOf.mp hmem
  refine ⟨mem_candidates.mpr ⟨hroute, hm, ?_⟩, hsame⟩
  rw [matchesPath_congr hsame]
  exact hfound.matched

omit [DecidableEq M] in
/-- No route that matches comes before the one where the search ends. -/
theorem not_precedes_found {segs : List Bytes}
    (hfound : Found fullMatch (rowsOf routes) segs root p n) (hsame : SamePath r.path p)
    {r' : Registration M H W} (hr' : r' ∈ routes)
    (hmatch : matchesPath fullMatch r'.path segs = true) :
    precedes (rowsOf routes) r'.path r.path = false := by
  have hmem : (r'.path, r') ∈ rowsOf routes := List.mem_map_of_mem hr'
  rcases hfound.first _ hmem hmatch with hp | hp
  · exact precedes_same (hp.trans hsame.symm) _
  · refine precedes_asymm ?_
    rwa [precedes_congr_left hsame]

/-- A route of the search's first pattern: every way the search found holds one. -/
theorem found_route {segs : List Bytes} (hrep : Represents root (rowsOf routes))
    (hfound : Found fullMatch (rowsOf routes) segs root p n) :
    ∃ r ∈ routes, SamePath r.path p := by
  have hne : leaf p (rowsOf routes) ≠ [] := by
    intro hnil
    refine hfound.handlers ?_
    rw [(hfound.reached.walk.represents hrep).1, hnil]
    rfl
  obtain ⟨r, hr⟩ := List.exists_mem_of_ne_nil _ hne
  exact ⟨r, mem_leaf_rowsOf.mp hr⟩

/-- The search ends at the route that comes first. -/
theorem samePath_of_first {segs : List Bytes} (hrep : Represents root (rowsOf routes))
    (hfound : Found fullMatch (rowsOf routes) segs root p n) (hr : r ∈ routes)
    (hmatch : matchesPath fullMatch r.path segs = true)
    (hfirst : ∀ r' ∈ routes, matchesPath fullMatch r'.path segs = true →
      precedes (rowsOf routes) r'.path r.path = false) : SamePath r.path p := by
  have hmem : (r.path, r) ∈ rowsOf routes := List.mem_map_of_mem hr
  rcases hfound.first _ hmem hmatch with hsame | hpre
  · exact hsame
  · obtain ⟨r₁, hr₁, hsame⟩ := found_route hrep hfound
    have hmatch₁ : matchesPath fullMatch r₁.path segs = true := by
      rw [matchesPath_congr hsame]
      exact hfound.matched
    have hnot := hfirst r₁ hr₁ hmatch₁
    rw [precedes_congr_left hsame, hpre] at hnot
    exact absurd hnot Bool.noConfusion

theorem complete_of_unhidden {calls : List (Call M H W)} {m : M}
    (h : Unhidden fullMatch (tableOf calls).routes m path) :
    Complete fullMatch calls m path := by
  rcases resolve_cases (run_tracks fullMatch calls) fullMatch m path with
    ⟨hnone, hanswer⟩ | ⟨root, n, p, params, hrep, hfound, -, hanswer⟩
  · have hempty : candidates fullMatch (tableOf calls).routes m path = [] :=
      List.eq_nil_iff_forall_not_mem.mpr (not_candidate hnone)
    rw [Complete, hanswer, hempty]
    refine ⟨iff_of_false Bool.false_ne_true (fun h => h rfl), ?_⟩
    intro found hfound
    cases hfound
  · rw [Complete, hanswer, matchOf]
    cases hlast : lastOf m (leaf p (rowsOf (tableOf calls).routes)) with
    | none =>
      rcases h with hempty | ⟨r, hr, hfirst, -⟩
      · rw [hempty]
        refine ⟨iff_of_false Bool.false_ne_true (fun h => h rfl), ?_⟩
        intro found hfound
        cases hfound
      · obtain ⟨hroute, hm, hmatch⟩ := mem_candidates.mp hr
        have hsame := samePath_of_first hrep hfound hroute hmatch hfirst
        exact absurd hm (lastOf_eq_none.mp hlast r (mem_leaf_rowsOf.mpr ⟨hroute, hsame⟩))
    | some r₀ =>
      obtain ⟨hcand, hsame₀⟩ := lastOf_candidate hfound hlast
      refine ⟨iff_of_true rfl (List.ne_nil_of_mem hcand), ?_⟩
      intro found hfound'
      obtain rfl := Option.some.inj hfound'
      refine ⟨r₀, hcand, rfl, ?_⟩
      rcases h with hempty | ⟨r, hr, hfirst, hpref⟩
      · rw [hempty] at hcand
        exact absurd hcand List.not_mem_nil
      · obtain ⟨hroute, -, hmatch⟩ := mem_candidates.mp hr
        have hsame := samePath_of_first hrep hfound hroute hmatch hfirst
        intro r' hr'
        rw [preferred_congr (hsame₀.trans hsame.symm)]
        exact hpref r' hr'

theorem unhidden_of_complete {calls : List (Call M H W)} {m : M}
    (hdistinct : ((tableOf calls).routes.map Registration.handler).Nodup)
    (h : Complete fullMatch calls m path) : Unhidden fullMatch (tableOf calls).routes m path := by
  by_cases hempty : candidates fullMatch (tableOf calls).routes m path = []
  · exact .inl hempty
  · obtain ⟨hsome, hhandler⟩ := h
    have hanswered := hsome.mpr hempty
    rcases resolve_cases (run_tracks fullMatch calls) fullMatch m path with
      ⟨-, hanswer⟩ | ⟨root, n, p, params, hrep, hfound, -, hanswer⟩
    · rw [hanswer] at hanswered
      exact absurd hanswered Bool.false_ne_true
    · rw [hanswer, matchOf] at hanswered hhandler
      cases hlast : lastOf m (leaf p (rowsOf (tableOf calls).routes)) with
      | none => rw [hlast] at hanswered; exact absurd hanswered Bool.false_ne_true
      | some r₀ =>
        rw [hlast] at hhandler
        obtain ⟨hcand, hsame⟩ := lastOf_candidate hfound hlast
        obtain ⟨r, hr, heq, hpref⟩ := hhandler _ rfl
        -- the handler belongs to one registration only
        obtain rfl : r₀ = r := List.inj_on_of_nodup_map hdistinct
          (mem_candidates.mp hcand).1 (mem_candidates.mp hr).1 heq
        exact .inr ⟨r₀, hcand, fun r' hr' => not_precedes_found hfound hsame hr', hpref⟩

/-- Whatever was registered, and for every method and path: the contract is met when nothing
    hides the routes of the method; and only then, where each route has a handler of its
    own. -/
theorem complete_iff (fullMatch : Bytes → Bytes → Bool) (calls : List (Call M H W)) (m : M)
    (path : Bytes) :
    (Unhidden fullMatch (tableOf calls).routes m path → Complete fullMatch calls m path) ∧
      (((tableOf calls).routes.map Registration.handler).Nodup →
        Complete fullMatch calls m path → Unhidden fullMatch (tableOf calls).routes m path) :=
  ⟨complete_of_unhidden, unhidden_of_complete⟩

/-- `GET /users/:id` and `POST /users/me`: a GET of `/users/me` ends at the route of POST,
    and is not answered. -/
theorem other_method_hides :
    ¬ Complete (fun _ _ => true)
      [.route HttpText.Method.get (text "/users/:id") [] 1,
        .route HttpText.Method.post (text "/users/me") ([] : List Nat) 2]
      HttpText.Method.get (text "/users/me") := by
  rintro ⟨hanswered, -⟩
  exact absurd (hanswered.mpr (by decide)) (by decide)

/-! ## The route of a match -/

/-- The route that answers: of the method, matching, first in the order of the search, and
    the last one registered with its pattern. -/
structure Selected (fullMatch : Bytes → Bytes → Bool) (routes : List (Registration M H W))
    (m : M) (path : Bytes) (r : Registration M H W) : Prop where
  candidate : r ∈ candidates fullMatch routes m path
  first : ∀ r' ∈ routes, matchesPath fullMatch r'.path (textsOf path) = true →
    precedes (rowsOf routes) r'.path r.path = false
  last : lastOf m (leaf r.path (rowsOf routes)) = some r

omit [DecidableEq M] in
theorem leaf_congr {p q : List Segment} (h : SamePath p q) (rows : Rows M H W) :
    leaf p rows = leaf q rows := by
  induction h generalizing rows with
  | nil => rfl
  | cons hab _ ih => rw [leaf, leaf, below_congr hab, ih]

/-- The selected route is the last one where the search ends. -/
theorem selected_iff {m : M} (hrep : Represents root (rowsOf routes))
    (hfound : Found fullMatch (rowsOf routes) (textsOf path) root p n) :
    Selected fullMatch routes m path r ↔ lastOf m (leaf p (rowsOf routes)) = some r := by
  constructor
  · rintro ⟨hcand, hfirst, hlast⟩
    obtain ⟨hroute, -, hmatch⟩ := mem_candidates.mp hcand
    rw [← leaf_congr (samePath_of_first hrep hfound hroute hmatch hfirst)]
    exact hlast
  · intro hlast
    obtain ⟨hcand, hsame⟩ := lastOf_candidate hfound hlast
    refine ⟨hcand, fun r' hr' => not_precedes_found hfound hsame hr', ?_⟩
    rw [leaf_congr hsame]
    exact hlast

end RouterCompleteness
