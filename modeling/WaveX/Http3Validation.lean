import WaveX.Http3Parser

/-! # What HTTP/3 takes for a request

    `validate` of `Http3Parser` goes through a field section once and remembers what it has
    seen.  What it accepts can be said of the section as a whole: which names and values
    its fields may have, in which order they come and how often, and which of them there
    have to be. -/

namespace Http3Validation

open QuicVarInt HttpText Http3Parser List
open Hpack (Field)

/-! ## A field section -/

/-- The pseudo-headers of a request. -/
def pseudoNames : List Bytes :=
  [":method", ":path", ":scheme", ":authority", ":protocol"].map text

/-- The value of the first field of a name. -/
def valueOf (name : String) (headers : List Field) : Option Bytes :=
  (headers.find? fun f => f.1 == text name).map Prod.snd

/-- What a field may be, by itself. -/
structure Proper (f : Field) : Prop where
  name : isValidFieldName f.1 = true
  value : isValidFieldValue f.2 = true
  known : isPseudo f.1 = true → f.1 ∈ pseudoNames
  protocol : f.1 = text ":protocol" → f.2 ≠ []
  connection : f.1 ∉ connectionFields
  te : f.1 = text "te" → f.2 = text "trailers"
  length : f.1 = text "content-length" → (parseContentLength f.2).isSome = true

/-- What two fields may be, the first of them before the second. -/
structure Ordered (f g : Field) : Prop where
  pseudo : isPseudo g.1 = true → isPseudo f.1 = true
  once : isPseudo g.1 = true → f.1 ≠ g.1
  length : f.1 = text "content-length" → g.1 = text "content-length" →
    parseContentLength f.2 = parseContentLength g.2

/-- The rules for the fields of a section. -/
structure Lawful (headers : List Field) : Prop where
  proper : ∀ f ∈ headers, Proper f
  ordered : headers.Pairwise Ordered

/-- What the loop over a section has found at its end. -/
def collect (headers : List Field) : Fields where
  method := (valueOf ":method" headers).map Method.ofName
  path := valueOf ":path" headers
  scheme := valueOf ":scheme" headers
  authority := valueOf ":authority" headers
  protocol := valueOf ":protocol" headers
  headers := headers.filter fun f => !isPseudo f.1
  contentLength := (valueOf "content-length" headers).bind parseContentLength
  seenRegularHeader := headers.any fun f => !isPseudo f.1

/-! ## One more field -/

variable {headers l : List Field} {f : Field} {s : Fields} {name : String}

theorem valueOf_concat (name : String) (l : List Field) (f : Field) :
    valueOf name (l ++ [f]) = (valueOf name l).or (if f.1 = text name then some f.2 else none) := by
  rw [valueOf, valueOf, find?_append, find?_singleton]
  cases l.find? fun f => f.1 == text name with
  | some g => rfl
  | none =>
    by_cases hname : f.1 = text name
    · simp [hname]
    · simp [hname]

theorem valueOf_other (hname : f.1 ≠ text name) : valueOf name (l ++ [f]) = valueOf name l := by
  rw [valueOf_concat, if_neg hname, Option.or_none]

theorem valueOf_new (hname : f.1 = text name) (hnone : valueOf name l = none) :
    valueOf name (l ++ [f]) = some f.2 := by
  rw [valueOf_concat, if_pos hname, hnone, Option.none_or]

theorem valueOf_eq_none : valueOf name l = none ↔ ∀ g ∈ l, g.1 ≠ text name := by
  rw [valueOf, Option.map_eq_none_iff, find?_eq_none]
  simp

theorem lawful_concat :
    Lawful (l ++ [f]) ↔ Lawful l ∧ Proper f ∧ ∀ g ∈ l, Ordered g f := by
  constructor
  · rintro ⟨hproper, hordered⟩
    obtain ⟨hl, -, hf⟩ := pairwise_append.mp hordered
    exact ⟨⟨fun g hg => hproper g (mem_append_left _ hg), hl⟩,
      hproper f (mem_append_right _ (mem_singleton_self f)),
      fun g hg => hf g hg f (mem_singleton_self f)⟩
  · rintro ⟨⟨hproper, hordered⟩, hf, hbefore⟩
    refine ⟨fun g hg => ?_, pairwise_append.mpr ⟨hordered, pairwise_singleton _ _, ?_⟩⟩
    · rcases mem_append.mp hg with hl | hlast
      · exact hproper g hl
      · rw [mem_singleton.mp hlast]
        exact hf
    · intro g hg f' hf'
      rw [mem_singleton.mp hf']
      exact hbefore g hg

theorem regular_names : isPseudo (text "te") = false ∧ isPseudo (text "content-length") = false ∧
    ∀ n ∈ connectionFields, isPseudo n = false := by decide

theorem isPseudo_ne {a b : Bytes} (ha : isPseudo a = true) (hb : isPseudo b = false) : a ≠ b := by
  rintro rfl
  exact Bool.false_ne_true (hb.symm.trans ha)

/-- A pseudo-header changes nothing of what regular fields are for. -/
theorem collect_pseudo (hp : isPseudo f.1 = true) :
    collect (l ++ [f]) = { collect l with
      method := (valueOf ":method" (l ++ [f])).map Method.ofName
      path := valueOf ":path" (l ++ [f])
      scheme := valueOf ":scheme" (l ++ [f])
      authority := valueOf ":authority" (l ++ [f])
      protocol := valueOf ":protocol" (l ++ [f]) } := by
  have hlength : valueOf "content-length" (l ++ [f]) = valueOf "content-length" l :=
    valueOf_other (isPseudo_ne hp regular_names.2.1)
  rw [collect, collect, hlength, filter_append, any_append]
  simp [hp]

/-- A regular field changes nothing of what pseudo-headers are for. -/
theorem collect_regular (hp : isPseudo f.1 = false) :
    collect (l ++ [f]) = { collect l with
      headers := (collect l).headers ++ [f]
      contentLength := (valueOf "content-length" (l ++ [f])).bind parseContentLength
      seenRegularHeader := true } := by
  have hother : ∀ name, isPseudo (text name) = true →
      valueOf name (l ++ [f]) = valueOf name l := fun name hname =>
    valueOf_other (Ne.symm (isPseudo_ne hname hp))
  rw [collect, collect, hother _ (by decide), hother _ (by decide),
    hother _ (by decide), hother _ (by decide), hother _ (by decide),
    filter_append, any_append]
  simp [hp]

/-- Behind pseudo-headers only, a pseudo-header has to be new. -/
theorem ordered_pseudo (hp : isPseudo f.1 = true) (hall : ∀ g ∈ l, isPseudo g.1 = true)
    (hname : f.1 = text name) : (∀ g ∈ l, Ordered g f) ↔ valueOf name l = none := by
  rw [valueOf_eq_none]
  constructor
  · intro h g hg heq
    exact (h g hg).once hp (heq.trans hname.symm)
  · intro h g hg
    refine ⟨fun _ => hall g hg, fun _ heq => h g hg (heq.trans hname), fun _ hlength => ?_⟩
    exact absurd hlength (isPseudo_ne hp regular_names.2.1)

/-- What is asked of a pseudo-header by itself. -/
theorem proper_pseudo (hp : isPseudo f.1 = true) :
    Proper f ↔ isValidFieldName f.1 = true ∧ isValidFieldValue f.2 = true ∧ f.1 ∈ pseudoNames ∧
      (f.1 = text ":protocol" → f.2 ≠ []) := by
  constructor
  · rintro ⟨hname, hvalue, hknown, hprotocol, -, -, -⟩
    exact ⟨hname, hvalue, hknown hp, hprotocol⟩
  · rintro ⟨hname, hvalue, hknown, hprotocol⟩
    refine ⟨hname, hvalue, fun _ => hknown, hprotocol, fun hmem => ?_, fun hte => ?_, fun hlength => ?_⟩
    · exact isPseudo_ne hp (regular_names.2.2 _ hmem) rfl
    · exact absurd hte (isPseudo_ne hp regular_names.1)
    · exact absurd hlength (isPseudo_ne hp regular_names.2.1)

/-- What is asked of a regular field by itself. -/
theorem proper_regular (hp : isPseudo f.1 = false) :
    Proper f ↔ isValidFieldName f.1 = true ∧ isValidFieldValue f.2 = true ∧ f.1 ∉ connectionFields ∧
      (f.1 = text "te" → f.2 = text "trailers") ∧
      (f.1 = text "content-length" → (parseContentLength f.2).isSome = true) := by
  constructor
  · rintro ⟨hname, hvalue, -, -, hconnection, hte, hlength⟩
    exact ⟨hname, hvalue, hconnection, hte, hlength⟩
  · rintro ⟨hname, hvalue, hconnection, hte, hlength⟩
    refine ⟨hname, hvalue, fun hp' => ?_, fun hprotocol => ?_, hconnection, hte, hlength⟩
    · exact absurd (hp.symm.trans hp') Bool.false_ne_true
    · exact absurd hprotocol (Ne.symm (isPseudo_ne (by decide) hp))

theorem collect_noLength (h : ∀ g ∈ l, g.1 ≠ text "content-length") :
    (collect l).contentLength = none := by
  show (valueOf "content-length" l).bind parseContentLength = none
  rw [valueOf_eq_none.mpr h]
  rfl

/-- Every content length of a lawful section is the one that is remembered. -/
theorem collect_length (hl : Lawful l) {g : Field} (hg : g ∈ l)
    (hname : g.1 = text "content-length") :
    (collect l).contentLength = parseContentLength g.2 := by
  have hall : ∀ x ∈ l, ∀ y ∈ l, x.1 = text "content-length" → y.1 = text "content-length" →
      parseContentLength x.2 = parseContentLength y.2 := by
    have hsymm : Std.Symm fun x y : Field => x.1 = text "content-length" →
        y.1 = text "content-length" → parseContentLength x.2 = parseContentLength y.2 :=
      ⟨fun _ _ h hy hx => (h hx hy).symm⟩
    intro x hx y hy
    have hpairs := hl.ordered.imp fun h => h.length
    exact hpairs.forall_of_forall (fun _ _ _ _ => rfl) hx hy
  cases hfirst : l.find? fun g => g.1 == text "content-length" with
  | none =>
    have hnot := find?_eq_none.mp hfirst g hg
    exact absurd (beq_iff_eq.mpr hname) hnot
  | some x =>
    have hx := find?_some hfirst
    rw [beq_iff_eq] at hx
    show (valueOf "content-length" l).bind parseContentLength = _
    rw [valueOf, hfirst]
    exact hall x (mem_of_find?_eq_some hfirst) g hg hx hname

/-- A regular field has to agree with the content length before it. -/
theorem ordered_regular (hp : isPseudo f.1 = false) (hl : Lawful l) :
    (∀ g ∈ l, Ordered g f) ↔ (f.1 = text "content-length" →
      (collect l).contentLength = none ∨ (collect l).contentLength = parseContentLength f.2) := by
  have hnone : isPseudo f.1 = true → False := fun hp' => Bool.false_ne_true (hp.symm.trans hp')
  constructor
  · intro h hlength
    by_cases hbefore : ∃ g ∈ l, g.1 = text "content-length"
    · obtain ⟨g, hg, hname⟩ := hbefore
      right
      rw [collect_length hl hg hname]
      exact (h g hg).length hname hlength
    · left
      exact collect_noLength fun g hg hname => hbefore ⟨g, hg, hname⟩
  · intro h g hg
    refine ⟨fun hp' => (hnone hp').elim, fun hp' => (hnone hp').elim, fun hname hlength => ?_⟩
    have hsome := (hl.proper g hg).length hname
    have heq := h hlength
    rw [collect_length hl hg hname] at heq
    rcases heq with hzero | hsame
    · rw [hzero] at hsome
      exact absurd hsome Bool.false_ne_true
    · exact hsame

/-! ## The loop -/

theorem pseudoNames_nodup : pseudoNames.Nodup := by decide

/-- A member that is set once. -/
theorem set_once {old : Option Bytes} {t t' : Fields} {P : Prop} (hP : P)
    (ht : old = none → t = t') :
    (if old.isSome = true then none else some t) = some s ↔ (P ∧ old = none) ∧ s = t' := by
  cases old with
  | some v =>
    rw [Option.isSome_some, if_pos rfl]
    constructor
    · rintro ⟨⟩
    · rintro ⟨⟨-, ⟨⟩⟩, -⟩
  | none =>
    rw [Option.isSome_none, if_neg Bool.false_ne_true, ht rfl]
    exact ⟨fun h => ⟨⟨hP, rfl⟩, (Option.some.inj h).symm⟩, fun h => congrArg some h.2.symm⟩

/-- A pseudo-header that is not there yet. -/
theorem onPseudoHeader_collect (hp : isPseudo f.1 = true)
    (hall : ∀ g ∈ l, isPseudo g.1 = true) (hknown : f.1 ∈ pseudoNames) :
    onPseudoHeader (collect l) f.1 f.2 = some s ↔
      ((f.1 = text ":protocol" → f.2 ≠ []) ∧ ∀ g ∈ l, Ordered g f) ∧ s = collect (l ++ [f]) := by
  have hdistinct := pseudoNames_nodup
  simp only [pseudoNames, map_cons, map_nil, nodup_cons, mem_cons,
    not_mem_nil, or_false, not_or] at hdistinct hknown
  obtain ⟨⟨hmp, hms, hma, hmr⟩, ⟨hps, hpa, hpr⟩, ⟨hsa, hsr⟩, har, -⟩ := hdistinct
  have hother : ∀ n, f.1 ≠ text n → valueOf n (l ++ [f]) = valueOf n l := fun _ => valueOf_other
  rw [collect_pseudo hp]
  rcases hknown with hname | hname | hname | hname | hname
  · have hfree : (collect l).method.isSome = (valueOf ":method" l).isSome := Option.isSome_map
    rw [ordered_pseudo hp hall hname, onPseudoHeader, if_pos hname, hfree]
    refine set_once (fun hprotocol => absurd (hname.symm.trans hprotocol) hmr) fun hnone => ?_
    rw [valueOf_new hname hnone, hother _ (hname ▸ hmp), hother _ (hname ▸ hms),
      hother _ (hname ▸ hma), hother _ (hname ▸ hmr)]
    rfl
  · rw [ordered_pseudo hp hall hname, onPseudoHeader, if_neg (hname ▸ Ne.symm hmp), if_pos hname]
    refine set_once (fun hprotocol => absurd (hname.symm.trans hprotocol) hpr) fun hnone => ?_
    rw [valueOf_new hname hnone, hother _ (hname ▸ Ne.symm hmp), hother _ (hname ▸ hps),
      hother _ (hname ▸ hpa), hother _ (hname ▸ hpr)]
    rfl
  · rw [ordered_pseudo hp hall hname, onPseudoHeader, if_neg (hname ▸ Ne.symm hms),
      if_neg (hname ▸ Ne.symm hps), if_pos hname]
    refine set_once (fun hprotocol => absurd (hname.symm.trans hprotocol) hsr) fun hnone => ?_
    rw [valueOf_new hname hnone, hother _ (hname ▸ Ne.symm hms), hother _ (hname ▸ Ne.symm hps),
      hother _ (hname ▸ hsa), hother _ (hname ▸ hsr)]
    rfl
  · rw [ordered_pseudo hp hall hname, onPseudoHeader, if_neg (hname ▸ Ne.symm hma),
      if_neg (hname ▸ Ne.symm hpa), if_neg (hname ▸ Ne.symm hsa), if_pos hname]
    refine set_once (fun hprotocol => absurd (hname.symm.trans hprotocol) har) fun hnone => ?_
    rw [valueOf_new hname hnone, hother _ (hname ▸ Ne.symm hma), hother _ (hname ▸ Ne.symm hpa),
      hother _ (hname ▸ Ne.symm hsa), hother _ (hname ▸ har)]
    rfl
  · rw [ordered_pseudo hp hall hname, onPseudoHeader, if_neg (hname ▸ Ne.symm hmr),
      if_neg (hname ▸ Ne.symm hpr), if_neg (hname ▸ Ne.symm hsr), if_neg (hname ▸ Ne.symm har),
      if_pos hname]
    by_cases hempty : f.2 = []
    · rw [if_pos (.inr hempty)]
      refine ⟨fun h => ?_, fun h => absurd hempty (h.1.1 hname)⟩
      cases h
    · have hcond : ((collect l).protocol.isSome = true ∨ f.2 = []) ↔
          (valueOf ":protocol" l).isSome = true := or_iff_left hempty
      rw [if_congr hcond rfl rfl]
      refine set_once (fun _ => hempty) fun hnone => ?_
      rw [valueOf_new hname hnone, hother _ (hname ▸ Ne.symm hmr), hother _ (hname ▸ Ne.symm hpr),
        hother _ (hname ▸ Ne.symm hsr), hother _ (hname ▸ Ne.symm har)]
      rfl

/-- A content length that agrees with the one before it is remembered. -/
theorem length_concat {n : Nat} (hl : Lawful l) (hlength : f.1 = text "content-length")
    (hagree : (collect l).contentLength = none ∨ (collect l).contentLength = some n)
    (hparse : parseContentLength f.2 = some n) :
    (valueOf "content-length" (l ++ [f])).bind parseContentLength = some n := by
  by_cases hbefore : ∃ g ∈ l, g.1 = text "content-length"
  · obtain ⟨g, hg, hname⟩ := hbefore
    have hsome := (hl.proper g hg).length hname
    rw [← collect_length hl hg hname] at hsome
    have hsame : (collect l).contentLength = some n := by
      rcases hagree with hnone | hsame
      · rw [hnone] at hsome
        exact absurd hsome Bool.false_ne_true
      · exact hsame
    cases hv : valueOf "content-length" l with
    | none => exact absurd hname (valueOf_eq_none.mp hv g hg)
    | some v =>
      rw [collect, hv] at hsame
      rw [valueOf_concat, hv]
      exact hsame
  · have hnone : valueOf "content-length" l = none :=
      valueOf_eq_none.mpr fun g hg hname => hbefore ⟨g, hg, hname⟩
    rw [valueOf_new hlength hnone]
    exact hparse

/-- A regular field, and the content length before it. -/
theorem onRegularHeader_collect (hp : isPseudo f.1 = false) (hl : Lawful l) :
    onRegularHeader { collect l with seenRegularHeader := true } f.1 f.2 = some s ↔
      ((f.1 ∉ connectionFields ∧ (f.1 = text "te" → f.2 = text "trailers") ∧
        (f.1 = text "content-length" → (parseContentLength f.2).isSome = true)) ∧
          ∀ g ∈ l, Ordered g f) ∧ s = collect (l ++ [f]) := by
  rw [ordered_regular hp hl, collect_regular hp, onRegularHeader]
  split
  · rename_i hconnection
    refine ⟨fun h => ?_, fun h => absurd hconnection h.1.1.1⟩
    cases h
  · rename_i hconnection
    split
    · rename_i hte
      refine ⟨fun h => ?_, fun h => absurd (h.1.1.2.1 hte.1) hte.2⟩
      cases h
    · rename_i hte
      have hte' : f.1 = text "te" → f.2 = text "trailers" := fun hname =>
        Decidable.byContradiction fun hne => hte ⟨hname, hne⟩
      by_cases hlength : f.1 = text "content-length"
      · rw [if_pos hlength]
        cases hparse : parseContentLength f.2 with
        | none =>
          constructor
          · rintro ⟨⟩
          · rintro ⟨⟨⟨-, -, hsome⟩, -⟩, -⟩
            exact absurd (hsome hlength) Bool.false_ne_true
        | some n =>
          dsimp only
          split
          · rename_i hother
            constructor
            · rintro ⟨⟩
            · rintro ⟨⟨-, hagree⟩, -⟩
              rcases hagree hlength with hnone | hsame
              · rw [hnone] at hother
                exact absurd hother.1 Bool.false_ne_true
              · exact absurd hsame hother.2
          · rename_i hagree
            have hagree' : (collect l).contentLength = none ∨ (collect l).contentLength = some n := by
              cases hc : (collect l).contentLength with
              | none => exact .inl rfl
              | some m =>
                rw [hc] at hagree
                exact .inr (Decidable.byContradiction fun hne => hagree ⟨rfl, hne⟩)
            rw [length_concat hl hlength hagree' hparse]
            constructor
            · intro h
              exact ⟨⟨⟨hconnection, hte', fun _ => rfl⟩, fun _ => hagree'⟩, (Option.some.inj h).symm⟩
            · exact fun h => congrArg some h.2.symm
      · rw [if_neg hlength, valueOf_other hlength]
        constructor
        · intro h
          exact ⟨⟨⟨hconnection, hte', fun heq => absurd heq hlength⟩, fun heq => absurd heq hlength⟩,
            (Option.some.inj h).symm⟩
        · exact fun h => congrArg some h.2.symm

/-- One round of the loop. -/
theorem onField_collect (hl : Lawful l) :
    onField (collect l) f = some s ↔
      (Proper f ∧ ∀ g ∈ l, Ordered g f) ∧ s = collect (l ++ [f]) := by
  rw [onField]
  split
  · rename_i hbad
    constructor
    · rintro ⟨⟩
    · rintro ⟨⟨hproper, -⟩, -⟩
      rcases hbad with hname | hvalue
      · exact absurd hproper.name hname
      · exact absurd hproper.value hvalue
  · rename_i hgood
    rw [not_or, not_not, not_not] at hgood
    split
    · rename_i hp
      split
      · rename_i hseen
        obtain ⟨g, hg, hregular⟩ := any_eq_true.mp hseen
        rw [Bool.not_eq_true'] at hregular
        constructor
        · rintro ⟨⟩
        · rintro ⟨⟨-, hordered⟩, -⟩
          exact absurd ((hordered g hg).pseudo hp) (Bool.eq_false_iff.mp hregular)
      · rename_i hseen
        have hall : ∀ g ∈ l, isPseudo g.1 = true := by
          intro g hg
          refine Decidable.byContradiction fun hnot => hseen ?_
          exact any_eq_true.mpr ⟨g, hg, by rw [Bool.eq_false_iff.mpr hnot, Bool.not_false]⟩
        by_cases hknown : f.1 ∈ pseudoNames
        · rw [onPseudoHeader_collect hp hall hknown, proper_pseudo hp]
          refine and_congr_left fun _ => and_congr_left fun _ => ?_
          exact ⟨fun h => ⟨hgood.1, hgood.2, hknown, h⟩, fun h => h.2.2.2⟩
        · have hnone : onPseudoHeader (collect l) f.1 f.2 = none := by
            simp only [pseudoNames, map_cons, map_nil, mem_cons, not_mem_nil,
              or_false, not_or] at hknown
            obtain ⟨hm, hpath, hs, ha, hr⟩ := hknown
            rw [onPseudoHeader, if_neg hm, if_neg hpath, if_neg hs, if_neg ha, if_neg hr]
          rw [hnone]
          constructor
          · rintro ⟨⟩
          · rintro ⟨⟨hproper, -⟩, -⟩
            exact absurd (hproper.known hp) hknown
    · rename_i hp
      have hp' : isPseudo f.1 = false := Bool.eq_false_iff.mpr hp
      rw [onRegularHeader_collect hp' hl, proper_regular hp']
      refine and_congr_left fun _ => and_congr_left fun _ => ?_
      exact ⟨fun h => ⟨hgood.1, hgood.2, h⟩, fun h => h.2.2⟩

/-- The loop accepts the lawful sections, and remembers what is in them. -/
theorem foldlM_onField :
    headers.foldlM onField {} = some s ↔ Lawful headers ∧ s = collect headers := by
  induction headers using List.reverseRecOn generalizing s with
  | nil =>
    constructor
    · intro h
      exact ⟨⟨fun f hf => absurd hf not_mem_nil, .nil⟩, (Option.some.inj h).symm⟩
    · rintro ⟨-, rfl⟩
      rfl
  | append_singleton l f ih =>
    rw [foldlM_append, lawful_concat]
    constructor
    · intro h
      obtain ⟨s₁, hs₁, hf⟩ := Option.bind_eq_some_iff.mp h
      obtain ⟨hl, rfl⟩ := ih.mp hs₁
      rw [foldlM_cons] at hf
      obtain ⟨s₂, hs₂, heq⟩ := Option.bind_eq_some_iff.mp hf
      obtain ⟨hlast, hcollect⟩ := (onField_collect hl).mp hs₂
      exact ⟨⟨hl, hlast⟩, (Option.some.inj heq).symm.trans hcollect⟩
    · rintro ⟨⟨hl, hlast⟩, rfl⟩
      refine Option.bind_eq_some_iff.mpr ⟨collect l, ih.mpr ⟨hl, rfl⟩, ?_⟩
      rw [foldlM_cons, (onField_collect hl).mpr ⟨hlast, rfl⟩]
      rfl

/-- `validate` accepts the lawful sections with the fields that there have to be. -/
theorem validate_iff :
    validate headers = some s ↔
      Lawful headers ∧ hasRequired (collect headers) = true ∧ s = collect headers := by
  rw [validate]
  constructor
  · intro h
    obtain ⟨s₁, hs₁, h⟩ := Option.bind_eq_some_iff.mp h
    obtain ⟨hl, rfl⟩ := foldlM_onField.mp hs₁
    obtain ⟨hrequired, heq⟩ := Option.ite_none_right_eq_some.mp h
    exact ⟨hl, hrequired, (Option.some.inj heq).symm⟩
  · rintro ⟨hl, hrequired, rfl⟩
    refine Option.bind_eq_some_iff.mpr ⟨collect headers, foldlM_onField.mpr ⟨hl, rfl⟩, ?_⟩
    rw [if_pos hrequired]

/-! ## The fields that there have to be -/

/-- The request is a CONNECT. -/
def Connects (headers : List Field) : Prop := (text ":method", text "CONNECT") ∈ headers

instance (headers : List Field) : Decidable (Connects headers) :=
  inferInstanceAs (Decidable (_ ∈ headers))

/-- A field of this name is there. -/
def Has (name : String) (headers : List Field) : Prop := ∃ v, (text name, v) ∈ headers

variable {v : Bytes}

theorem has_iff : Has name headers ↔ (valueOf name headers).isSome = true := by
  constructor
  · rintro ⟨v, hv⟩
    cases hvalue : valueOf name headers with
    | none => exact absurd rfl (valueOf_eq_none.mp hvalue _ hv)
    | some w => rfl
  · intro h
    obtain ⟨v, hv⟩ := Option.isSome_iff_exists.mp h
    obtain ⟨f, hf, rfl⟩ := Option.map_eq_some_iff.mp hv
    have hname := find?_some hf
    rw [beq_iff_eq] at hname
    exact ⟨f.2, hname ▸ mem_of_find?_eq_some hf⟩

/-- In a lawful section a pseudo-header has one value. -/
theorem valueOf_pseudo (hl : Lawful headers) (hp : isPseudo (text name) = true) :
    valueOf name headers = some v ↔ (text name, v) ∈ headers := by
  have hfound : ∀ w, valueOf name headers = some w → (text name, w) ∈ headers := by
    intro w hw
    obtain ⟨f, hf, rfl⟩ := Option.map_eq_some_iff.mp hw
    have hname := find?_some hf
    rw [beq_iff_eq] at hname
    exact hname ▸ mem_of_find?_eq_some hf
  refine ⟨hfound v, fun hv => ?_⟩
  obtain ⟨w, hw⟩ := Option.isSome_iff_exists.mp (has_iff.mp ⟨v, hv⟩)
  have hsymm : Std.Symm fun f g : Field => isPseudo f.1 = true → f.1 = g.1 → f = g :=
    ⟨fun _ _ h hp heq => (h (heq ▸ hp) heq.symm).symm⟩
  have hpairs : headers.Pairwise fun f g : Field => isPseudo f.1 = true → f.1 = g.1 → f = g :=
    hl.ordered.imp fun h hp heq => absurd heq (h.once (heq ▸ hp))
  have heq := hpairs.forall_of_forall (fun _ _ _ _ => rfl) (hfound w hw) hv hp rfl
  rw [hw, (Prod.mk.inj heq).2]

theorem method_connect (hl : Lawful headers) :
    (collect headers).method = some .connect ↔ Connects headers := by
  rw [Connects, ← valueOf_pseudo hl (by decide)]
  show (valueOf ":method" headers).map Method.ofName = _ ↔ _
  cases valueOf ":method" headers with
  | none =>
    constructor
    · rintro ⟨⟩
    · rintro ⟨⟩
  | some v =>
    rw [Option.map_some, Option.some.injEq, Option.some.injEq]
    exact Method.ofName_connect

theorem protocol_isNone_iff :
    (collect headers).protocol.isNone = true ↔ ¬ Has ":protocol" headers := by
  rw [has_iff, Option.isNone_iff_eq_none, Option.not_isSome_iff_eq_none]
  exact Iff.rfl

/-- There is a path, and it is not empty. -/
theorem path_iff (hl : Lawful headers) :
    (collect headers).path.isSome = true ∧ (collect headers).path ≠ some [] ↔
      ∃ v, v ≠ [] ∧ (text ":path", v) ∈ headers := by
  have hvalue : ∀ v, (collect headers).path = some v ↔ (text ":path", v) ∈ headers :=
    fun _ => valueOf_pseudo hl (by decide)
  constructor
  · rintro ⟨hsome, hne⟩
    obtain ⟨v, hv⟩ := Option.isSome_iff_exists.mp hsome
    exact ⟨v, fun hempty => hne (hempty ▸ hv), (hvalue v).mp hv⟩
  · rintro ⟨v, hne, hv⟩
    have hv := (hvalue v).mpr hv
    rw [hv]
    exact ⟨rfl, fun hempty => hne (Option.some.inj hempty)⟩

/-- `hasRequired` says which fields there have to be. -/
theorem hasRequired_iff (hl : Lawful headers) :
    hasRequired (collect headers) = true ↔ Has ":method" headers ∧
      (Connects headers ∨ (∃ v, v ≠ [] ∧ (text ":path", v) ∈ headers) ∧ Has ":scheme" headers) ∧
      (Has ":protocol" headers →
        Connects headers ∧ Has ":scheme" headers ∧ Has ":path" headers ∧
          Has ":authority" headers) := by
  have hconnect : ((collect headers).method == some .connect) = decide (Connects headers) := by
    rw [Bool.eq_iff_iff, beq_iff_eq, decide_eq_true_iff]
    exact method_connect hl
  have hmethod : (collect headers).method.isSome = true ↔ Has ":method" headers := by
    rw [has_iff]
    show (Option.map _ _).isSome = true ↔ _
    rw [Option.isSome_map]
  have hpath : (collect headers).path.isSome = true ↔ Has ":path" headers := has_iff.symm
  have hscheme : (collect headers).scheme.isSome = true ↔ Has ":scheme" headers := has_iff.symm
  have hauthority : (collect headers).authority.isSome = true ↔ Has ":authority" headers :=
    has_iff.symm
  have htarget := path_iff hl
  rw [hasRequired, hconnect]
  simp only [Bool.and_eq_true, Bool.or_eq_true, decide_eq_true_iff, hmethod, hpath, hscheme,
    hauthority, protocol_isNone_iff, bne_iff_ne]
  rw [← htarget, hpath]
  clear hconnect hmethod hpath hscheme hauthority htarget
  generalize ((collect headers).path ≠ some []) = nonempty
  generalize Connects headers = connects
  generalize Has ":method" headers = method
  generalize Has ":path" headers = path
  generalize Has ":scheme" headers = scheme
  generalize Has ":authority" headers = authority
  generalize Has ":protocol" headers = protocol
  tauto

end Http3Validation
