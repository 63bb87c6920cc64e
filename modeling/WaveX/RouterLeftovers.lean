import WaveX.RouterParams

/-! # Exact parameters

    What is left of an abandoned branch, said by the routes and their order alone: a node
    whose wildcard has no handler leaves its binding, and a parameter of the same name that
    is tried and given up later takes it away again.  With that, the parameters of a match
    are those of its route in exactly the cases stated here. -/

namespace RouterLeftovers

open QuicVarInt RouterPaths RouterTree RouterTable RouterSearch RouterCompleteness RouterParams List

/-! ## One search after another -/

/-- Searches in order, each with places that leave a name and places that remove it, and the
    order `R` of all places: the name is left when some place leaves it that no removal
    follows. -/
theorem fateOf_spec {ι π : Type*} {bs : List ι} {F : ι → Fate} {leaves removes : ι → π → Prop}
    {R : ι → π → ι → π → Prop}
    (hord : bs.Pairwise fun a b => (∀ x y, R a x b y) ∧ ∀ x y, ¬ R b x a y)
    (hleft : ∀ b ∈ bs, F b = .left ↔ ∃ u, leaves b u ∧ ∀ q, removes b q → ¬ R b u b q)
    (hkept : ∀ b ∈ bs, F b = .kept ↔ (∀ u, ¬ leaves b u) ∧ ∀ q, ¬ removes b q) :
    (fateOf (bs.map F) = .left ↔
        ∃ b ∈ bs, ∃ u, leaves b u ∧ ∀ b' ∈ bs, ∀ q, removes b' q → ¬ R b u b' q) ∧
      (fateOf (bs.map F) = .kept ↔ ∀ b ∈ bs, (∀ u, ¬ leaves b u) ∧ ∀ q, ¬ removes b q) := by
  refine ⟨?_, ?_⟩
  · induction bs using List.reverseRecOn with
    | nil =>
      refine iff_of_false (by rintro ⟨⟩) ?_
      rintro ⟨b, hb, -⟩
      exact absurd hb not_mem_nil
    | append_singleton bs b ih =>
      rw [pairwise_append] at hord
      have hlast : ∀ a ∈ bs, (∀ x y, R a x b y) ∧ ∀ x y, ¬ R b x a y :=
        fun a ha => hord.2.2 a ha b (mem_singleton.mpr rfl)
      have hmem : b ∈ bs ++ [b] := mem_append_right _ (mem_singleton.mpr rfl)
      rw [map_append, map_cons, map_nil, fateOf_append, Fate.andThen]
      cases hF : F b with
      | kept =>
        -- nothing happens in the last one
        obtain ⟨hnoleave, hnoremove⟩ := (hkept b hmem).mp hF
        rw [if_pos rfl, ih hord.1 (fun a ha => hleft a (mem_append_left _ ha))
          fun a ha => hkept a (mem_append_left _ ha)]
        constructor
        · rintro ⟨a, ha, u, hu, hall⟩
          refine ⟨a, mem_append_left _ ha, u, hu, ?_⟩
          intro b' hb' q hq
          rcases mem_append.mp hb' with hb' | hb'
          · exact hall b' hb' q hq
          · obtain rfl := mem_singleton.mp hb'
            exact absurd hq (hnoremove q)
        · rintro ⟨a, ha, u, hu, hall⟩
          rcases mem_append.mp ha with ha | ha
          · exact ⟨a, ha, u, hu, fun b' hb' => hall b' (mem_append_left _ hb')⟩
          · obtain rfl := mem_singleton.mp ha
            exact absurd hu (hnoleave u)
      | left =>
        obtain ⟨u, hu, hall⟩ := (hleft b hmem).mp hF
        refine iff_of_true rfl ⟨b, hmem, u, hu, ?_⟩
        intro b' hb' q hq
        rcases mem_append.mp hb' with hb' | hb'
        · exact (hlast b' hb').2 u q
        · obtain rfl := mem_singleton.mp hb'
          exact hall q hq
      | removed =>
        refine iff_of_false (by rintro ⟨⟩) ?_
        rintro ⟨a, ha, u, hu, hall⟩
        -- it removes somewhere, and that is behind every place before it
        have hremoves : ∃ q, removes b q := by
          by_contra hnone
          have hnone' : ∀ q, ¬ removes b q := fun q hq => hnone ⟨q, hq⟩
          have hleaves : ∃ u, leaves b u := by
            by_contra hno
            have hk := (hkept b hmem).mpr ⟨fun u hu => hno ⟨u, hu⟩, hnone'⟩
            rw [hF] at hk
            cases hk
          obtain ⟨u', hu'⟩ := hleaves
          have hl := (hleft b hmem).mpr ⟨u', hu', fun q hq => absurd hq (hnone' q)⟩
          rw [hF] at hl
          cases hl
        rcases mem_append.mp ha with ha | ha
        · obtain ⟨q, hq⟩ := hremoves
          exact hall b hmem q hq ((hlast a ha).1 u q)
        · obtain rfl := mem_singleton.mp ha
          have hl := (hleft a hmem).mpr ⟨u, hu, hall a hmem⟩
          rw [hF] at hl
          cases hl
  · rw [fateOf_eq_kept]
    constructor
    · intro h b hb
      exact (hkept b hb).mp (h _ (mem_map_of_mem hb))
    · intro h f hf
      obtain ⟨b, hb, rfl⟩ := mem_map.mp hf
      exact (hkept b hb).mpr (h b hb)

/-! ## Places of the search -/

variable {M H W : Type*}

/-- Segments of a pattern that take the first segments of a path, one by one. -/
def passes (fullMatch : Bytes → Bytes → Bool) : List Segment → List Bytes → Bool
  | [], _ => true
  | e :: u, s :: rest => takes fullMatch e s && passes fullMatch u rest
  | _ :: _, [] => false

/-- The routes that go on from a way. -/
def belowAll : List Segment → Rows M H W → Rows M H W
  | [], rows => rows
  | e :: u, rows => belowAll u (below e rows)

/-- The way `u` leads to a node where the path goes on and whose wildcard has the name. -/
def Leaves (fullMatch : Bytes → Bytes → Bool) (rows : Rows M H W) (segs : List Bytes)
    (name : Bytes) (u : List Segment) : Prop :=
  passes fullMatch u segs = true ∧ u.length < segs.length ∧
    .wildcard name ∈ edges .wildcard (belowAll u rows)

/-- The way `q` of a route leads to a parameter of that name. -/
def Removes (fullMatch : Bytes → Bytes → Bool) (rows : Rows M H W) (segs : List Bytes)
    (name : Bytes) (q : List Segment) : Prop :=
  passes fullMatch q segs = true ∧ belowAll q rows ≠ [] ∧
    ∃ e, q.getLast? = some e ∧ bindsName name e

theorem belowAll_nil (u : List Segment) : belowAll u ([] : Rows M H W) = [] := by
  induction u with
  | nil => rfl
  | cons e u ih => exact ih

variable {rows : Rows M H W}

/-- A segment that takes this one and with which a route goes on is a branch. -/
theorem mem_branches {fullMatch : Bytes → Bytes → Bool} {s : Bytes} {e : Segment} :
    e ∈ branches fullMatch rows s ↔ takes fullMatch e s = true ∧ below e rows ≠ [] := by
  rw [branches, mem_filter]
  constructor
  · rintro ⟨hmem, htakes⟩
    refine ⟨htakes, ?_⟩
    have hedge : ∃ k, e ∈ edges k rows := by
      rcases mem_append.mp hmem with h | h
      · exact ⟨_, h⟩
      · exact ⟨_, h⟩
    obtain ⟨k, hk⟩ := hedge
    obtain ⟨-, x, hx, hhead⟩ := of_mem_edges hk
    cases hp : x.1 with
    | nil => rw [hp] at hhead; cases hhead
    | cons a q =>
      rw [hp] at hhead
      obtain rfl := Option.some.inj hhead
      exact ne_nil_of_mem (mem_below hx hp (SameEdge.refl a))
  · rintro ⟨htakes, hne⟩
    refine ⟨?_, htakes⟩
    obtain ⟨y, hy⟩ := exists_mem_of_ne_nil _ hne
    obtain ⟨a, hsame, hmem⟩ := of_mem_below hy
    have hkind : kindOf e = .static ∨ kindOf e = .param := by
      rcases takes_kind htakes with rfl | hk
      · exact .inl rfl
      · exact .inr hk
    have hw : kindOf e ≠ .wildcard := by
      rcases hkind with hk | hk <;> rw [hk] <;> rintro ⟨⟩
    obtain ⟨b, hb, hba⟩ := mem_edges_of_mem hmem rfl
    obtain rfl := (hba.trans hsame).symm.eq_of_kind hw
    rcases hkind with hk | hk
    · rw [hsame.kind, hk] at hb
      exact mem_append_left _ hb
    · rw [hsame.kind, hk] at hb
      exact mem_append_right _ hb

variable {name : Bytes} {rest : List Bytes}

theorem leaves_cons {fullMatch : Bytes → Bytes → Bool} {s : Bytes} {u : List Segment} :
    Leaves fullMatch rows (s :: rest) name u ↔
      (u = [] ∧ .wildcard name ∈ edges .wildcard rows) ∨
        ∃ e u', u = e :: u' ∧ e ∈ branches fullMatch rows s ∧
          Leaves fullMatch (below e rows) rest name u' := by
  cases u with
  | nil =>
    constructor
    · rintro ⟨-, -, h⟩
      exact .inl ⟨rfl, h⟩
    · rintro (⟨-, h⟩ | ⟨e, u', h, -⟩)
      · exact ⟨rfl, Nat.succ_pos _, h⟩
      · cases h
  | cons e u =>
    constructor
    · rintro ⟨hpass, hlen, hw⟩
      obtain ⟨htakes, hpass'⟩ := (Bool.and_eq_true _ _).mp hpass
      refine .inr ⟨e, u, rfl, mem_branches.mpr ⟨htakes, ?_⟩, hpass', Nat.lt_of_succ_lt_succ hlen,
        hw⟩
      intro hnil
      rw [belowAll, hnil, belowAll_nil] at hw
      exact absurd hw not_mem_nil
    · rintro (⟨h, -⟩ | ⟨e', u', h, hbranch, hpass, hlen, hw⟩)
      · cases h
      · obtain ⟨rfl, rfl⟩ := List.cons.inj h
        exact ⟨(Bool.and_eq_true _ _).mpr ⟨(mem_branches.mp hbranch).1, hpass⟩,
          Nat.succ_lt_succ hlen, hw⟩

theorem removes_cons {fullMatch : Bytes → Bytes → Bool} {s : Bytes} {q : List Segment} :
    Removes fullMatch rows (s :: rest) name q ↔
      ∃ e q', q = e :: q' ∧ e ∈ branches fullMatch rows s ∧
        ((q' = [] ∧ bindsName name e) ∨ Removes fullMatch (below e rows) rest name q') := by
  cases q with
  | nil =>
    constructor
    · rintro ⟨-, -, e, h, -⟩
      cases h
    · rintro ⟨e, q', h, -⟩
      cases h
  | cons e q =>
    constructor
    · rintro ⟨hpass, hne, e', hlast, hbinds⟩
      obtain ⟨htakes, hpass'⟩ := (Bool.and_eq_true _ _).mp hpass
      have hbelow : below e rows ≠ [] := by
        intro hnil
        rw [belowAll, hnil, belowAll_nil] at hne
        exact hne rfl
      refine ⟨e, q, rfl, mem_branches.mpr ⟨htakes, hbelow⟩, ?_⟩
      cases q with
      | nil =>
        obtain rfl := Option.some.inj hlast
        exact .inl ⟨rfl, hbinds⟩
      | cons a q => exact .inr ⟨hpass', hne, e', hlast, hbinds⟩
    · rintro ⟨e', q', h, hbranch, hcase⟩
      obtain ⟨rfl, rfl⟩ := List.cons.inj h
      obtain ⟨htakes, hbelow⟩ := mem_branches.mp hbranch
      rcases hcase with ⟨rfl, hbinds⟩ | ⟨hpass, hne, e', hlast, hbinds⟩
      · refine ⟨?_, hbelow, e, rfl, hbinds⟩
        rw [passes, htakes]
        cases rest <;> rfl
      · refine ⟨(Bool.and_eq_true _ _).mpr ⟨htakes, hpass⟩, hne, e', ?_, hbinds⟩
        cases q with
        | nil => cases hlast
        | cons a q => exact hlast

variable {segs : List Bytes}

/-- A name that is left occurs in a pattern. -/
theorem not_absent_of_leaves {fullMatch : Bytes → Bytes → Bool} {u : List Segment}
    (h : Leaves fullMatch rows segs name u) : ¬ Absent name rows := by
  obtain ⟨-, -, hw⟩ := h
  intro habsent
  induction u generalizing rows with
  | nil => exact not_absent_of_edge hw (by rintro ⟨⟩) rfl habsent
  | cons e u ih => exact ih hw (habsent.below e)

/-- The branches in the order of the search. -/
theorem branches_ordered (fullMatch : Bytes → Bytes → Bool) (rows : Rows M H W) (s : Bytes) :
    (branches fullMatch rows s).Pairwise fun a b =>
      ∀ x y, precedes rows (a :: x) (b :: y) = true := by
  have hkind : ∀ k, (edges k rows).Pairwise fun a b =>
      ∀ x y, precedes rows (a :: x) (b :: y) = true := by
    intro k
    refine ((edges_pairwise k rows).and (edges_sorted k rows)).imp_of_mem ?_
    rintro a b ha hb ⟨hne, hlt⟩ x y
    rw [precedes, if_neg hne, (of_mem_edges ha).1, (of_mem_edges hb).1]
    simp [hlt]
  refine List.Pairwise.sublist filter_sublist
    (pairwise_append.mpr ⟨hkind .static, hkind .param, ?_⟩)
  intro a ha b hb x y
  refine precedes_of_rank ?_
  rw [(of_mem_edges ha).1, (of_mem_edges hb).1]
  decide

theorem precedes_cons_self (rows : Rows M H W) (e : Segment) (p q : List Segment) :
    precedes rows (e :: p) (e :: q) = precedes (below e rows) p q := by
  rw [precedes, if_pos (SameEdge.refl e)]

/-! ## What a failed search leaves -/

/-- Below the branch `e` a place removes the name, or `e` itself does. -/
def RemovesIn (fullMatch : Bytes → Bytes → Bool) (rows : Rows M H W) (rest : List Bytes)
    (name : Bytes) (e : Segment) (q : List Segment) : Prop :=
  (q = [] ∧ bindsName name e) ∨ Removes fullMatch (below e rows) rest name q

/-- What a failed search did to a name, by its places. -/
def FateSpec (fullMatch : Bytes → Bytes → Bool) (rows : Rows M H W) (segs : List Bytes)
    (name : Bytes) (f : Fate) : Prop :=
  (f = .left ↔ ∃ u, Leaves fullMatch rows segs name u ∧
      ∀ q, Removes fullMatch rows segs name q → ¬ precedes rows u q = true) ∧
    (f = .kept ↔ (∀ u, ¬ Leaves fullMatch rows segs name u) ∧
      ∀ q, ¬ Removes fullMatch rows segs name q)

theorem branchFate_spec {fullMatch : Bytes → Bytes → Bool} (hdistinct : Distinct rows) {e : Segment}
    (h : FateSpec fullMatch (below e rows) rest name
      (fate fullMatch name rest (below e rows))) :
    (branchFate fullMatch name rest rows e = .left ↔
        ∃ u, Leaves fullMatch (below e rows) rest name u ∧
          ∀ q, RemovesIn fullMatch rows rest name e q →
            ¬ precedes rows (e :: u) (e :: q) = true) ∧
      (branchFate fullMatch name rest rows e = .kept ↔
        (∀ u, ¬ Leaves fullMatch (below e rows) rest name u) ∧
          ∀ q, ¬ RemovesIn fullMatch rows rest name e q) := by
  rw [branchFate]
  by_cases hbinds : bindsName name e
  · -- nothing below can leave the name of the parameter itself
    rw [if_pos hbinds]
    have habsent : Absent name (below e rows) := hbinds.2 ▸ hdistinct.absent hbinds.1
    refine ⟨iff_of_false (by rintro ⟨⟩) ?_, iff_of_false (by rintro ⟨⟩) ?_⟩
    · rintro ⟨u, hu, -⟩
      exact not_absent_of_leaves hu habsent
    · rintro ⟨-, hnone⟩
      exact hnone [] (.inl ⟨rfl, hbinds⟩)
  · rw [if_neg hbinds]
    have hiff : ∀ q, RemovesIn fullMatch rows rest name e q ↔
        Removes fullMatch (below e rows) rest name q := by
      intro q
      exact ⟨fun h => h.resolve_left fun h => hbinds h.2, fun h => .inr h⟩
    simp only [hiff, precedes_cons_self]
    exact h

/-- The branches of a node with the order of their places. -/
theorem branches_disjoint (fullMatch : Bytes → Bytes → Bool) (rows : Rows M H W) (s : Bytes) :
    (branches fullMatch rows s).Pairwise fun a b =>
      (∀ x y, precedes rows (a :: x) (b :: y) = true) ∧
        ∀ x y, ¬ precedes rows (b :: x) (a :: y) = true := by
  refine (branches_ordered fullMatch rows s).imp ?_
  intro a b hab
  refine ⟨hab, ?_⟩
  intro x y
  rw [precedes_asymm (hab y x)]
  exact Bool.false_ne_true

/-- The fate of a name is told by the places that leave and remove it. -/
theorem fate_spec {fullMatch : Bytes → Bytes → Bool} (hdistinct : Distinct rows) (segs : List Bytes)
    (name : Bytes) :
    FateSpec fullMatch rows segs name (fate fullMatch name segs rows) := by
  induction segs generalizing rows with
  | nil =>
    refine ⟨iff_of_false (by rintro ⟨⟩) ?_, iff_of_true rfl ⟨?_, ?_⟩⟩
    · rintro ⟨u, ⟨-, hlen, -⟩, -⟩
      exact absurd hlen (Nat.not_lt_zero _)
    · rintro u ⟨-, hlen, -⟩
      exact absurd hlen (Nat.not_lt_zero _)
    · rintro q ⟨hpass, -, e, hlast, -⟩
      cases q with
      | nil => cases hlast
      | cons a q => exact absurd hpass Bool.false_ne_true
  | cons s rest ih =>
    have hbranch := fun e => branchFate_spec hdistinct (ih (hdistinct.below e))
    obtain ⟨hleft, hkept⟩ := fateOf_spec (branches_disjoint fullMatch rows s)
      (fun e _ => (hbranch e).1) (fun e _ => (hbranch e).2)
    rw [fate_cons]
    by_cases hw : Segment.wildcard name ∈ edges .wildcard rows
    · -- the wildcard of the node itself comes last
      have hroot : Leaves fullMatch rows (s :: rest) name [] := leaves_cons.mpr (.inl ⟨rfl, hw⟩)
      rw [if_pos hw]
      refine ⟨iff_of_true rfl ⟨[], hroot, fun q _ => by cases q <;> exact Bool.false_ne_true⟩,
        iff_of_false (by rintro ⟨⟩) fun h => h.1 [] hroot⟩
    · rw [if_neg hw]
      have hleaves : ∀ u, Leaves fullMatch rows (s :: rest) name u ↔
          ∃ e u', u = e :: u' ∧ e ∈ branches fullMatch rows s ∧
            Leaves fullMatch (below e rows) rest name u' := by
        intro u
        rw [leaves_cons]
        exact ⟨fun h => h.resolve_left fun h => hw h.2, fun h => .inr h⟩
      refine ⟨?_, ?_⟩
      · show fateOf _ = _ ↔ _
        rw [hleft]
        constructor
        · rintro ⟨e, he, u, hu, hall⟩
          refine ⟨e :: u, (hleaves _).mpr ⟨e, u, rfl, he, hu⟩, ?_⟩
          intro q hq
          obtain ⟨e', q', rfl, he', hcase⟩ := removes_cons.mp hq
          exact hall e' he' q' hcase
        · rintro ⟨u, hu, hall⟩
          obtain ⟨e, u', rfl, he, hu'⟩ := (hleaves u).mp hu
          refine ⟨e, he, u', hu', ?_⟩
          intro e' he' q' hq'
          exact hall (e' :: q') (removes_cons.mpr ⟨e', q', rfl, he', hq'⟩)
      · show fateOf _ = _ ↔ _
        rw [hkept]
        constructor
        · intro h
          refine ⟨?_, ?_⟩
          · intro u hu
            obtain ⟨e, u', rfl, he, hu'⟩ := (hleaves u).mp hu
            exact (h e he).1 u' hu'
          · intro q hq
            obtain ⟨e, q', rfl, he, hcase⟩ := removes_cons.mp hq
            exact (h e he).2 q' hcase
        · rintro ⟨hnoleave, hnoremove⟩ e he
          exact ⟨fun u hu => hnoleave (e :: u) ((hleaves _).mpr ⟨e, u, rfl, he, hu⟩),
            fun q hq => hnoremove (e :: q) (removes_cons.mpr ⟨e, q, rfl, he, hq⟩)⟩

/-! ## What is left where the search ends -/

/-- What the search did to a name before it came to `p`, by the places before `p`. -/
def BeforeSpec (fullMatch : Bytes → Bytes → Bool) (rows : Rows M H W) (segs : List Bytes)
    (name : Bytes) (p : List Segment) (f : Fate) : Prop :=
  (f = .left ↔ ∃ u, (Leaves fullMatch rows segs name u ∧ precedes rows u p = true) ∧
      ∀ q, Removes fullMatch rows segs name q ∧ precedes rows q p = true →
        ¬ precedes rows u q = true) ∧
    (f = .kept ↔ (∀ u, ¬ (Leaves fullMatch rows segs name u ∧ precedes rows u p = true)) ∧
      ∀ q, ¬ (Removes fullMatch rows segs name q ∧ precedes rows q p = true))

/-- The search goes on with `e`: a branch, or the wildcard at the end of the way. -/
def GoesOn (fullMatch : Bytes → Bytes → Bool) (rows : Rows M H W) (s : Bytes) (e : Segment)
    (p : List Segment) : Prop :=
  e ∈ branches fullMatch rows s ∨ (kindOf e = .wildcard ∧ p = [])

/-- The branches before `e` come before it, and those after it do not. -/
theorem branches_before {fullMatch : Bytes → Bytes → Bool} {s : Bytes} {e : Segment}
    {p : List Segment} (h : GoesOn fullMatch rows s e p) :
    ∃ front back, branches fullMatch rows s = front ++ back ∧ e ∉ front ∧
      ((branches fullMatch rows s).takeWhile fun b => decide (b ≠ e)) = front ∧
      (∀ b ∈ front, ∀ x y, precedes rows (b :: x) (e :: y) = true) ∧
      ∀ b ∈ back, b = e ∨ ∀ x y, ¬ precedes rows (b :: x) (e :: y) = true := by
  have hord := branches_disjoint fullMatch rows s
  by_cases he : e ∈ branches fullMatch rows s
  · obtain ⟨front, back, hsplit, hnot⟩ := eq_append_cons_of_mem he
    rw [hsplit, pairwise_append, pairwise_cons] at hord
    refine ⟨front, e :: back, hsplit, hnot, by rw [hsplit, takeWhile_front hnot], ?_, ?_⟩
    · intro b hb
      exact (hord.2.2 b hb e mem_cons_self).1
    · intro b hb
      rcases mem_cons.mp hb with rfl | hb
      · exact .inl rfl
      · exact .inr (hord.2.1.1 b hb).2
  · have hw : kindOf e = .wildcard := (h.resolve_left he).1
    refine ⟨branches fullMatch rows s, [], (append_nil _).symm, he, ?_, ?_,
      fun b hb => absurd hb not_mem_nil⟩
    · refine takeWhile_eq_self_iff.mpr ?_
      intro b hb
      exact decide_eq_true fun hbe => he (hbe ▸ hb)
    · intro b hb x y
      refine precedes_of_rank ?_
      rcases takes_kind (mem_branches.mp hb).1 with rfl | hk
      · rw [hw]
        show Kind.static.rank < _
        decide
      · rw [hw, hk]
        decide

/-- What the search did below the branch `b` before it came to `path`. -/
def ItemSpec (fullMatch : Bytes → Bytes → Bool) (rows : Rows M H W) (rest : List Bytes)
    (name : Bytes) (path : List Segment) (b : Segment) (f : Fate) : Prop :=
  (f = .left ↔ ∃ u,
      (Leaves fullMatch (below b rows) rest name u ∧ precedes rows (b :: u) path = true) ∧
      ∀ q, RemovesIn fullMatch rows rest name b q ∧ precedes rows (b :: q) path = true →
        ¬ precedes rows (b :: u) (b :: q) = true) ∧
    (f = .kept ↔
      (∀ u, ¬ (Leaves fullMatch (below b rows) rest name u ∧
        precedes rows (b :: u) path = true)) ∧
      ∀ q, ¬ (RemovesIn fullMatch rows rest name b q ∧ precedes rows (b :: q) path = true))

theorem itemSpec_last {fullMatch : Bytes → Bytes → Bool} {e : Segment} {p : List Segment} {f : Fate}
    (h : BeforeSpec fullMatch (below e rows) rest name p f) :
    ItemSpec fullMatch rows rest name (e :: p) e f := by
  have hiff : ∀ q, RemovesIn fullMatch rows rest name e q ∧ precedes (below e rows) q p = true ↔
      Removes fullMatch (below e rows) rest name q ∧ precedes (below e rows) q p = true := by
    intro q
    constructor
    · rintro ⟨⟨rfl, -⟩ | hq, hpre⟩
      · cases p <;> exact absurd hpre Bool.false_ne_true
      · exact ⟨hq, hpre⟩
    · rintro ⟨hq, hpre⟩
      exact ⟨.inr hq, hpre⟩
  simp only [ItemSpec, precedes_cons_self, hiff]
  exact h

theorem itemSpec_front {fullMatch : Bytes → Bytes → Bool} {b : Segment} {path : List Segment}
    (hdistinct : Distinct rows) (hbefore : ∀ x, precedes rows (b :: x) path = true) :
    ItemSpec fullMatch rows rest name path b (branchFate fullMatch name rest rows b) := by
  simp only [ItemSpec, hbefore, and_true]
  exact branchFate_spec hdistinct (fate_spec (hdistinct.below b) rest name)

/-- One step of the way: the branches before it, and then what happens below it. -/
theorem before_step {fullMatch : Bytes → Bytes → Bool} {s : Bytes} {e : Segment} {p : List Segment}
    (hdistinct : Distinct rows) (hgoes : GoesOn fullMatch rows s e p)
    (ih : BeforeSpec fullMatch (below e rows) rest name p
      (fateBefore fullMatch name rest (below e rows) p)) :
    BeforeSpec fullMatch rows (s :: rest) name (e :: p)
      (fateBefore fullMatch name (s :: rest) rows (e :: p)) := by
  obtain ⟨front, back, hsplit, hnot, htake, hfront, hback⟩ := branches_before hgoes
  -- the branches that the search enters, the last one only as far as `p`
  have hlist : fateBefore fullMatch name (s :: rest) rows (e :: p) =
      fateOf ((front ++ [e]).map fun b => if b = e then
        fateBefore fullMatch name rest (below e rows) p
        else branchFate fullMatch name rest rows b) := by
    rw [fateBefore_cons, htake, map_append, map_cons, map_nil, if_pos rfl,
      fateOf_append]
    refine congrArg (fun l => (fateOf l).andThen _) (map_congr_left ?_)
    intro b hb
    have hbe : b ≠ e := fun hbe => hnot (hbe ▸ hb)
    rw [if_neg hbe]
  have hord : (front ++ [e]).Pairwise fun a b =>
      (∀ x y, precedes rows (a :: x) (b :: y) = true) ∧
        ∀ x y, ¬ precedes rows (b :: x) (a :: y) = true := by
    have hall := branches_disjoint fullMatch rows s
    rw [hsplit] at hall
    refine pairwise_append.mpr
      ⟨(pairwise_append.mp hall).1, pairwise_singleton _ _, ?_⟩
    intro a ha b hb
    obtain rfl := mem_singleton.mp hb
    refine ⟨hfront a ha, ?_⟩
    intro x y
    rw [precedes_asymm (hfront a ha y x)]
    exact Bool.false_ne_true
  have hitem : ∀ b ∈ front ++ [e], ItemSpec fullMatch rows rest name (e :: p) b (if b = e then
      fateBefore fullMatch name rest (below e rows) p
      else branchFate fullMatch name rest rows b) := by
    intro b hb
    by_cases hbe : b = e
    · subst hbe
      rw [if_pos rfl]
      exact itemSpec_last ih
    · rw [if_neg hbe]
      rcases mem_append.mp hb with hb | hb
      · exact itemSpec_front hdistinct fun x => hfront b hb x p
      · exact absurd (mem_singleton.mp hb) hbe
  obtain ⟨hleft, hkept⟩ := fateOf_spec hord (fun b hb => (hitem b hb).1)
    fun b hb => (hitem b hb).2
  -- a place before the way is below one of these branches
  have hplace : ∀ b x, precedes rows (b :: x) (e :: p) = true →
      (b ∈ branches fullMatch rows s ↔ b ∈ front ++ [e]) := by
    intro b x hpre
    constructor
    · intro hb
      rw [hsplit] at hb
      rcases mem_append.mp hb with hb | hb
      · exact mem_append_left _ hb
      · rcases hback b hb with rfl | hno
        · exact mem_append_right _ (mem_singleton.mpr rfl)
        · exact absurd hpre (hno x p)
    · intro hb
      rcases mem_append.mp hb with hb | hb
      · rw [hsplit]
        exact mem_append_left _ hb
      · obtain rfl := mem_singleton.mp hb
        rcases hgoes with hb | ⟨-, rfl⟩
        · exact hb
        · rw [precedes_cons_self] at hpre
          cases x <;> exact absurd hpre Bool.false_ne_true
  rw [hlist]
  refine ⟨hleft.trans ⟨?_, ?_⟩, hkept.trans ⟨?_, ?_⟩⟩
  · rintro ⟨b, hb, u, ⟨hu, hpre⟩, hall⟩
    refine ⟨b :: u, ⟨leaves_cons.mpr (.inr ⟨b, u, rfl, (hplace b u hpre).mpr hb, hu⟩), hpre⟩, ?_⟩
    rintro q ⟨hq, hqpre⟩
    obtain ⟨b', q', rfl, hb', hcase⟩ := removes_cons.mp hq
    exact hall b' ((hplace b' q' hqpre).mp hb') q' ⟨hcase, hqpre⟩
  · rintro ⟨u, ⟨hu, hpre⟩, hall⟩
    rcases leaves_cons.mp hu with ⟨rfl, -⟩ | ⟨b, u', rfl, hb, hu'⟩
    · exact absurd hpre Bool.false_ne_true
    · refine ⟨b, (hplace b u' hpre).mp hb, u', ⟨hu', hpre⟩, ?_⟩
      rintro b' hb' q' ⟨hq', hqpre⟩
      exact hall (b' :: q')
        ⟨removes_cons.mpr ⟨b', q', rfl, (hplace b' q' hqpre).mpr hb', hq'⟩, hqpre⟩
  · intro h
    refine ⟨?_, ?_⟩
    · rintro u ⟨hu, hpre⟩
      rcases leaves_cons.mp hu with ⟨rfl, -⟩ | ⟨b, u', rfl, hb, hu'⟩
      · exact absurd hpre Bool.false_ne_true
      · exact (h b ((hplace b u' hpre).mp hb)).1 u' ⟨hu', hpre⟩
    · rintro q ⟨hq, hpre⟩
      obtain ⟨b, q', rfl, hb, hcase⟩ := removes_cons.mp hq
      exact (h b ((hplace b q' hpre).mp hb)).2 q' ⟨hcase, hpre⟩
  · rintro ⟨hnoleave, hnoremove⟩ b hb
    refine ⟨?_, ?_⟩
    · rintro u ⟨hu, hpre⟩
      exact hnoleave (b :: u)
        ⟨leaves_cons.mpr (.inr ⟨b, u, rfl, (hplace b u hpre).mpr hb, hu⟩), hpre⟩
    · rintro q ⟨hq, hpre⟩
      exact hnoremove (b :: q)
        ⟨removes_cons.mpr ⟨b, q, rfl, (hplace b q hpre).mpr hb, hq⟩, hpre⟩

theorem beforeSpec_nil (fullMatch : Bytes → Bytes → Bool) (rows : Rows M H W)
    (segs : List Bytes) (name : Bytes) :
    BeforeSpec fullMatch rows segs name [] (fateBefore fullMatch name segs rows []) := by
  have hnot : ∀ u, ¬ precedes rows u [] = true := by
    intro u
    cases u <;> exact Bool.false_ne_true
  have hkept : fateBefore fullMatch name segs rows [] = .kept := by cases segs <;> rfl
  rw [hkept]
  refine ⟨iff_of_false (by rintro ⟨⟩) ?_, iff_of_true rfl ⟨?_, ?_⟩⟩
  · rintro ⟨u, ⟨-, hpre⟩, -⟩
    exact hnot u hpre
  · rintro u ⟨-, hpre⟩
    exact hnot u hpre
  · rintro q ⟨-, hpre⟩
    exact hnot q hpre

/-- What happened to a name before the search came to its end. -/
theorem fateBefore_spec [DecidableEq M] {fullMatch : Bytes → Bytes → Bool} {node n : Node M H W}
    {p : List Segment} (h : Reached fullMatch rows segs node p n) (hrep : Represents node rows)
    (hdistinct : Distinct rows) (name : Bytes) :
    BeforeSpec fullMatch rows segs name p (fateBefore fullMatch name segs rows p) := by
  induction h with
  | @here rows node handlers => exact beforeSpec_nil fullMatch rows [] name
  | @static rows s rest node child n p found deeper ih =>
    obtain ⟨hchild, hedge⟩ := staticChild_some found
    refine before_step hdistinct (.inl ?_) (ih (hrep.child hchild) (hdistinct.below _))
    refine mem_filter.mpr ⟨mem_append_left _ ?_, ?_⟩
    · rw [← hrep.edges_eq]
      exact mem_map_of_mem hchild
    · rw [hedge]
      exact decide_eq_true rfl
  | @param rows s rest node child n p front back noStatic children admitted earlier deeper ih =>
    have hchild : child ∈ kids node .param := by
      rw [kids, children]
      exact mem_append_right _ mem_cons_self
    refine before_step hdistinct (.inl ?_) (ih (hrep.child hchild) (hdistinct.below _))
    refine mem_filter.mpr ⟨mem_append_right _ ?_, admitted⟩
    rw [← hrep.edges_eq]
    exact mem_map_of_mem hchild
  | @wildcard rows s rest node child noStatic noParam child_eq handlers =>
    have hkind : kindOf child.edge = .wildcard :=
      kids_kind hrep.edges_eq (k := .wildcard)
        (by rw [kids, child_eq]; exact mem_singleton.mpr rfl)
    exact before_step hdistinct (.inr ⟨hkind, rfl⟩) (beforeSpec_nil fullMatch _ rest name)


/-! ## Exact parameters -/

/-- A segment as the first route with its child wrote it. -/
def storedEdge (rows : Rows M H W) (e : Segment) : Segment :=
  ((edges (kindOf e) rows).find? fun b => decide (SameEdge b e)).getD e

/-- A pattern as the tree has it. -/
def storedPath : Rows M H W → List Segment → List Segment
  | _, [] => []
  | rows, e :: p => storedEdge rows e :: storedPath (below e rows) p

theorem storedEdge_eq {a e : Segment} (h : e ∈ edges (kindOf e) rows) (hsame : SameEdge a e) :
    storedEdge rows a = e := by
  rw [storedEdge, hsame.kind]
  cases hf : (edges (kindOf e) rows).find? fun b => decide (SameEdge b a) with
  | none =>
    have hno := find?_eq_none.mp hf e h
    exact absurd (decide_eq_true hsame.symm) hno
  | some b =>
    have hmem := mem_of_find?_eq_some hf
    have hb : SameEdge b a := by simpa using find?_some hf
    by_contra hne
    have hsymm : Std.Symm fun x y : Segment => ¬ SameEdge x y :=
      ⟨fun _ _ hxy hyx => hxy hyx.symm⟩
    exact (edges_pairwise _ rows).forall hmem h hne (hb.trans hsame)

/-- A way down the tree is the pattern of its routes as the tree has it. -/
theorem storedPath_eq [DecidableEq M] {node n : Node M H W} {p q : List Segment} (w : Walk node p n)
    (h : Represents node rows) (hsame : SamePath q p) :
    storedPath rows q = p := by
  induction w generalizing rows q with
  | here node =>
    cases hsame
    rfl
  | @step node child n k p mem rest ih =>
    cases hsame with
    | @cons a _ q' _ hab hrest =>
      have hedge : child.edge ∈ edges (kindOf child.edge) rows := by
        rw [kids_kind h.edges_eq mem, ← h.edges_eq]
        exact mem_map_of_mem mem
      rw [storedPath, storedEdge_eq hedge hab, below_congr hab, ih (h.child mem) hrest]

/-- The contract: a match has the bindings of its route's own pattern, and no other. -/
def ExactParams [DecidableEq M] (fullMatch : Bytes → Bytes → Bool) (calls : List (Call M H W))
    (m : M) (path : Bytes) : Prop :=
  ∀ found, ((run fullMatch calls).resolve fullMatch m path).2 = some found →
    ∃ r, Selected fullMatch (tableOf calls).routes m path r ∧ found.handler = r.handler ∧
      found.params.entries.Perm (bindings (normalizePathView path) r.path (segmentsOf path))

/-- The wildcard of the pattern has the name that the first route with it gave it; and a
    name that the pattern does not bind, but a wildcard on an abandoned branch left, is the
    name of a parameter that was tried and given up after that. -/
def ParamsKept (fullMatch : Bytes → Bytes → Bool) (routes : List (Registration M H W))
    (path : Bytes) (r : Registration M H W) : Prop :=
  storedPath (rowsOf routes) r.path = r.path ∧
    ∀ name ∉ namesOf r.path, ∀ u,
      Leaves fullMatch (rowsOf routes) (textsOf path) name u →
      precedes (rowsOf routes) u r.path = true →
      ∃ q, Removes fullMatch (rowsOf routes) (textsOf path) name q ∧
        precedes (rowsOf routes) q r.path = true ∧ precedes (rowsOf routes) u q = true

/-- The pattern of a match binds its names. -/
theorem bindings_keys {fullMatch : Bytes → Bytes → Bool} (normalized : Bytes)
    {p : List Segment} {segments : List View}
    (h : matchesPath fullMatch p (segments.map View.text) = true) :
    (bindings normalized p segments).map Prod.fst = namesOf p := by
  induction p generalizing segments with
  | nil => cases segments <;> rfl
  | cons e p ih =>
    cases segments with
    | nil => exact absurd h Bool.false_ne_true
    | cons s rest =>
      obtain ⟨a, q, hp, hcase⟩ := matchesPath_cons h
      obtain ⟨rfl, rfl⟩ := List.cons.inj hp
      rcases hcase with ⟨hw, rfl⟩ | ⟨htakes, hmatch⟩
      · rw [bindings_wildcard hw, namesOf_cons, hw, if_neg (by rintro ⟨⟩)]
        rfl
      · rcases takes_kind htakes with rfl | hk
        · rw [namesOf_static rfl]
          exact ih hmatch
        · rw [bindings_param hk, namesOf_cons, hk, if_neg (by rintro ⟨⟩), map_cons, ih hmatch]

theorem reached_nodup [DecidableEq M] {fullMatch : Bytes → Bytes → Bool} {node n : Node M H W}
    {p : List Segment} (h : Reached fullMatch rows segs node p n) (hrep : Represents node rows)
    (hdistinct : Distinct rows) : (namesOf p).Nodup := by
  induction h with
  | here handlers => exact nodup_nil
  | @static rows s rest node child n p found deeper ih =>
    obtain ⟨hchild, hedge⟩ := staticChild_some found
    rw [namesOf_static (congrArg kindOf hedge)]
    exact ih (hrep.child hchild) (hdistinct.below _)
  | @param rows s rest node child n p front back noStatic children admitted earlier deeper ih =>
    have hchild : child ∈ kids node .param := by
      rw [kids, children]
      exact mem_append_right _ mem_cons_self
    have hkind := kids_kind hrep.edges_eq hchild
    rw [namesOf_cons, hkind, if_neg (by rintro ⟨⟩), nodup_cons]
    refine ⟨?_, ih (hrep.child hchild) (hdistinct.below _)⟩
    intro hmem
    exact reached_not_absent deeper (hrep.child hchild) hmem (hdistinct.absent hkind)
  | @wildcard rows s rest node child noStatic noParam child_eq handlers =>
    rw [namesOf_cons]
    split
    · exact nodup_nil
    · exact nodup_singleton _

/-- Two spellings of a matching pattern are one when the names of the one are among those of
    the other. -/
theorem samePath_eq {fullMatch : Bytes → Bytes → Bool} {p q : List Segment} (h : SamePath q p)
    (hmatch : matchesPath fullMatch p segs = true) (hnodup : (namesOf p).Nodup)
    (hsub : ∀ name ∈ namesOf p, name ∈ namesOf q) : q = p := by
  induction h generalizing segs with
  | nil => rfl
  | @cons a b q p hab hrest ih =>
    cases segs with
    | nil => exact absurd hmatch Bool.false_ne_true
    | cons s rest =>
      obtain ⟨e, t, hp, hcase⟩ := matchesPath_cons hmatch
      obtain ⟨rfl, rfl⟩ := List.cons.inj hp
      rcases hcase with ⟨hw, rfl⟩ | ⟨htakes, hmatch'⟩
      · -- two wildcards: the name decides
        cases hrest
        have hmem := hsub (bindingName b) (by
          rw [namesOf_cons, hw, if_neg (by rintro ⟨⟩)]
          exact mem_cons_self)
        rw [namesOf_cons, hab.kind, hw, if_neg (by rintro ⟨⟩)] at hmem
        have hname := mem_singleton.mp hmem
        have ha := hab.kind.trans hw
        cases a <;> cases ha
        cases b <;> cases hw
        exact congrArg (fun n => [Segment.wildcard n]) hname.symm
      · have hb : kindOf b ≠ .wildcard := by
          rcases takes_kind htakes with rfl | hk
          · rintro ⟨⟩
          · rw [hk]
            rintro ⟨⟩
        obtain rfl := hab.symm.eq_of_kind hb
        refine congrArg _ (ih hmatch' ?_ ?_)
        · rw [namesOf_cons] at hnodup
          split at hnodup
          · exact hnodup
          · exact (nodup_cons.mp hnodup).2
        · intro name hname
          have hmem := hsub name (mem_namesOf_cons hname)
          rw [namesOf_cons] at hmem hnodup
          split at hmem
          · exact hmem
          · next hk =>
            rw [if_neg hk] at hnodup
            rcases mem_cons.mp hmem with rfl | hmem
            · exact absurd hname (nodup_cons.mp hnodup).1
            · exact hmem

section

variable [DecidableEq M] {fullMatch : Bytes → Bytes → Bool} {routes : List (Registration M H W)}
  {path : Bytes} {root n : Node M H W} {p : List Segment} {params : Params}

/-- The parameters that the search started without have the bindings of `p`, or what the
    abandoned branches left. -/
theorem bound_of_found (hrep : Represents root (rowsOf routes))
    (hdistinct : Distinct (rowsOf routes))
    (hfound : Found fullMatch (rowsOf routes) (textsOf path) root p n)
    (hres : resolveNode fullMatch (normalizePathView path) (segmentsOf path) root FlatMap.empty =
      (some n, params)) :
    Bound fullMatch (rowsOf routes) (normalizePathView path) (segmentsOf path) p FlatMap.empty
      params := by
  obtain ⟨params', hres', hbound⟩ := resolveNode_bound hfound.reached hrep hdistinct
    (normalizePathView path) (rfl : (segmentsOf path).map View.text = textsOf path) FlatMap.empty
  rw [hres] at hres'
  obtain rfl := (Prod.mk.inj hres').2
  exact hbound

/-- A name that `p` does not bind is absent from the parameters unless it is left over. -/
theorem find_eq_none_iff (hrep : Represents root (rowsOf routes))
    (hdistinct : Distinct (rowsOf routes))
    (hfound : Found fullMatch (rowsOf routes) (textsOf path) root p n)
    (hbound : Bound fullMatch (rowsOf routes) (normalizePathView path) (segmentsOf path) p
      FlatMap.empty params) (hname : name ∉ namesOf p) :
    FlatMap.find params name = none ↔
      ∀ u, Leaves fullMatch (rowsOf routes) (textsOf path) name u →
        precedes (rowsOf routes) u p = true →
        ∃ q, Removes fullMatch (rowsOf routes) (textsOf path) name q ∧
          precedes (rowsOf routes) q p = true ∧ precedes (rowsOf routes) u q = true := by
  have hfate := (hbound name).2 hname
  have hspec := (fateBefore_spec hfound.reached hrep hdistinct name).1
  have hnone : FlatMap.find params name = none ↔
      fateBefore fullMatch name (textsOf path) (rowsOf routes) p ≠ .left := by
    show _ ↔ fateBefore fullMatch name ((segmentsOf path).map View.text) _ _ ≠ _
    cases hf : fateBefore fullMatch name ((segmentsOf path).map View.text) (rowsOf routes) p with
    | kept =>
      rw [hf] at hfate
      exact iff_of_true hfate (by rintro ⟨⟩)
    | removed =>
      rw [hf] at hfate
      exact iff_of_true hfate (by rintro ⟨⟩)
    | left =>
      rw [hf] at hfate
      refine iff_of_false ?_ (fun h => h rfl)
      intro hnone
      have hsome : (FlatMap.find params name).isSome = true := hfate
      rw [hnone] at hsome
      exact absurd hsome Bool.false_ne_true
  rw [hnone, Ne, hspec]
  constructor
  · intro h u hu hpre
    by_contra hno
    exact h ⟨u, ⟨hu, hpre⟩, fun q hq hup => hno ⟨q, hq.1, hq.2, hup⟩⟩
  · rintro h ⟨u, ⟨hu, hpre⟩, hall⟩
    obtain ⟨q, hq, hqpre, hup⟩ := h u hu hpre
    exact hall q ⟨hq, hqpre⟩ hup

/-- The parameters at the end of the search, against the pattern of a route there. -/
theorem params_perm_iff (hrep : Represents root (rowsOf routes))
    (hdistinct : Distinct (rowsOf routes))
    (hfound : Found fullMatch (rowsOf routes) (textsOf path) root p n)
    (hres : resolveNode fullMatch (normalizePathView path) (segmentsOf path) root FlatMap.empty =
      (some n, params)) {r : Registration M H W} (hr : r ∈ routes) (hsame : SamePath r.path p) :
    params.entries.Perm (bindings (normalizePathView path) r.path (segmentsOf path)) ↔
      ParamsKept fullMatch routes path r := by
  have hbound := bound_of_found hrep hdistinct hfound hres
  have hmatch : matchesPath fullMatch r.path ((segmentsOf path).map View.text) = true := by
    rw [matchesPath_congr hsame]
    exact hfound.matched
  have hkeys := bindings_keys (normalizePathView path) hmatch
  have hpkeys := bindings_keys (normalizePathView path) hfound.matched
  have hnodup : (namesOf r.path).Nodup := hdistinct _ (mem_map_of_mem hr)
  have hstored := storedPath_eq hfound.reached.walk hrep hsame
  rw [FlatMap.entries_perm_iff params (hkeys ▸ hnodup), ParamsKept, hstored]
  constructor
  · intro hall
    have hsub : ∀ name ∈ namesOf p, name ∈ namesOf r.path := by
      intro name hname
      rw [← hkeys]
      by_contra hno
      have hnone := hall name
      rw [(FlatMap.lookup_eq_none_iff _ _).mpr hno, (hbound name).1 hname,
        FlatMap.lookup_eq_none_iff, hpkeys] at hnone
      exact hnone hname
    obtain rfl := samePath_eq hsame hfound.matched (reached_nodup hfound.reached hrep hdistinct)
      hsub
    refine ⟨rfl, ?_⟩
    intro name hname
    refine (find_eq_none_iff hrep hdistinct hfound hbound hname).mp ?_
    rw [hall name, FlatMap.lookup_eq_none_iff, hkeys]
    exact hname
  · rintro ⟨rfl, hkept⟩ name
    by_cases hname : name ∈ namesOf r.path
    · exact (hbound name).1 hname
    · rw [(find_eq_none_iff hrep hdistinct hfound hbound hname).mpr (hkept name hname), eq_comm,
        FlatMap.lookup_eq_none_iff, hkeys]
      exact hname

end

/-- Whatever was registered, as long as each pattern has distinct names: the parameters of a
    match are exactly those of its route when that route's wildcard has kept its name and
    nothing is left over, and only then. -/
theorem exactParams_iff [DecidableEq M] (fullMatch : Bytes → Bytes → Bool)
    (calls : List (Call M H W)) (m : M) (path : Bytes)
    (hdistinct : ∀ r ∈ (tableOf calls).routes, (namesOf r.path).Nodup) :
    ExactParams fullMatch calls m path ↔
      ∀ r, Selected fullMatch (tableOf calls).routes m path r →
        ParamsKept fullMatch (tableOf calls).routes path r := by
  have hrows : Distinct (rowsOf (tableOf calls).routes) := by
    intro x hx
    obtain ⟨r, hr, rfl⟩ := mem_map.mp hx
    exact hdistinct r hr
  rcases resolve_cases (run_tracks fullMatch calls) fullMatch m path with
    ⟨hnone, hanswer⟩ | ⟨root, n, p, params, hrep, hfound, hres, hanswer⟩
  · refine iff_of_true ?_ ?_
    · intro found hsome
      rw [hanswer] at hsome
      cases hsome
    · intro r hr
      exact absurd hr.candidate (not_candidate hnone r)
  · have hperm := fun {r : Registration M H W}
        (hlast : lastOf m (leaf p (rowsOf (tableOf calls).routes)) = some r) =>
      params_perm_iff hrep hrows hfound hres
        (mem_leaf_rowsOf.mp (lastOf_mem hlast).1).1 (mem_leaf_rowsOf.mp (lastOf_mem hlast).1).2
    constructor
    · intro h r hr
      have hlast := (selected_iff hrep hfound).mp hr
      obtain ⟨r', hr', -, hexact⟩ := h _ (by rw [hanswer, matchOf, hlast]; rfl)
      rw [(selected_iff hrep hfound).mp hr'] at hlast
      obtain rfl := Option.some.inj hlast
      exact (hperm ((selected_iff hrep hfound).mp hr')).mp hexact
    · intro h found hsome
      rw [hanswer] at hsome
      obtain ⟨r, hlast, rfl⟩ := matchOf_some hsome
      have hr := (selected_iff hrep hfound).mpr hlast
      exact ⟨r, hr, rfl, (hperm hlast).mpr (h r hr)⟩

/-- A user's file: one parameter and the rest of the path. -/
theorem exactParams_file :
    ExactParams (fun _ _ => true)
        [.route HttpText.Method.get (text "/users/:id/*file") ([] : List Nat) 1]
        HttpText.Method.get (text "/users/7/a/b") ↔
      ∀ r, Selected (fun _ _ => true) (tableOf
          [.route HttpText.Method.get (text "/users/:id/*file") ([] : List Nat) 1]).routes
          HttpText.Method.get (text "/users/7/a/b") r →
        ParamsKept (fun _ _ => true) (tableOf
          [.route HttpText.Method.get (text "/users/:id/*file") ([] : List Nat) 1]).routes
          (text "/users/7/a/b") r :=
  exactParams_iff _ _ _ _ (by decide)

/-- `GET /files/*path` and `POST /files/*rest` share a node: the POST of `/files/x` finds its
    wildcard under the name of the other route. -/
theorem shared_wildcard_renamed :
    ¬ ExactParams (fun _ _ => true)
      [.route HttpText.Method.get (text "/files/*path") [] 1,
        .route HttpText.Method.post (text "/files/*rest") ([] : List Nat) 2]
      HttpText.Method.post (text "/files/x") := by
  intro h
  obtain ⟨found, hfound⟩ := Option.isSome_iff_exists.mp
    (by decide : ((run (fun _ _ => true)
      [.route HttpText.Method.get (text "/files/*path") [] 1,
        .route HttpText.Method.post (text "/files/*rest") ([] : List Nat) 2]).resolve
      (fun _ _ => true) HttpText.Method.post (text "/files/x")).2.isSome = true)
  have hkeys : ((run (fun _ _ => true)
      [.route HttpText.Method.get (text "/files/*path") [] 1,
        .route HttpText.Method.post (text "/files/*rest") ([] : List Nat) 2]).resolve
      (fun _ _ => true) HttpText.Method.post (text "/files/x")).2.map
        (fun f => f.params.entries.map Prod.fst) = some [text "path"] := by decide
  rw [hfound] at hkeys
  obtain ⟨r, hr, -, hperm⟩ := h found hfound
  obtain ⟨hroute, hm, -⟩ := mem_candidates.mp hr.candidate
  have hmem := (hperm.map Prod.fst).subset (Option.some.inj hkeys ▸ mem_singleton.mpr rfl)
  rcases mem_cons.mp hroute with rfl | hroute
  · cases hm
  · obtain rfl := mem_singleton.mp hroute
    exact absurd hmem (by decide)

end RouterLeftovers
