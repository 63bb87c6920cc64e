import WaveX.MultipartRounds
import WaveX.MultipartRoundTrip

/-! # The parameters of Content-Disposition

    `extract_parameter` searches the header for the name and `=`, wherever that stands: at
    the end of a longer name, or inside a value.  A disposition is a type with parameters
    whose values are quoted, and what is read is the value of the parameter only if its name
    stands nowhere before. -/

namespace MultipartDisposition

open QuicVarInt HttpText Multipart MultipartRoundTrip List

/-! ## Dispositions -/

def tab : UInt8 := 0x09

/-- A token has none of the bytes that separate. -/
structure Token (s : Bytes) : Prop where
  ne_nil : s ≠ []
  noSpace : space ∉ s
  noTab : tab ∉ s
  noQuote : quote ∉ s
  noSemicolon : semicolon ∉ s
  noEquals : equals ∉ s

/-- A parameter with the blanks around its semicolon. -/
structure Parameter where
  before : Bytes
  after : Bytes
  attr : Bytes
  value : Bytes
  blanks : ∀ c ∈ before ++ after, c = space ∨ c = tab
  token : Token attr
  noQuote : quote ∉ value
  noBreak : cr ∉ value ∧ lf ∉ value

/-- The text of a parameter up to its `=`. -/
def Parameter.lead (p : Parameter) : Bytes := p.before ++ semicolon :: (p.after ++ p.attr)

/-- The text of a parameter. -/
def Parameter.render (p : Parameter) : Bytes :=
  p.lead ++ equals :: (quote :: (p.value ++ [quote]))

/-- A disposition type with parameters. -/
structure ContentDisposition where
  type : Bytes
  params : List Parameter
  token : Token type

/-- The value of the header. -/
def ContentDisposition.header (d : ContentDisposition) : Bytes :=
  d.type ++ d.params.flatMap Parameter.render

/-! ## The contract -/

/-- The value of the parameter of a name, empty when there is none. -/
def valueOf (key : Bytes) : List Parameter → Bytes
  | [] => []
  | p :: rest => if p.attr = key then p.value else valueOf key rest

/-- The contract: what is extracted for `name` and for `filename` is the value of the
    parameter of that name. -/
def ReadByName (d : ContentDisposition) : Prop :=
  ∀ key ∈ [text "name", text "filename"], extractParameter d.header key = valueOf key d.params

/-- The text behind the first place of a pattern. -/
def behind (pattern s : Bytes) : Option Bytes :=
  (findText pattern s).map fun n => s.drop (n + pattern.length)

/-- The name and `=` stand in the parameter: at the end of its own name, or in its value. -/
def Mentions (key : Bytes) (p : Parameter) : Prop :=
  key <:+ p.attr ∨ key ++ [equals] <:+: p.value

/-- What stands behind the name in another parameter happens to be the expected text: the
    value of the other parameter, what lies between its closing quote and the next opening
    one, or what its value goes on with up to a semicolon. -/
def Coincides (key expected : Bytes) (q : Parameter) (post : List Parameter) : Prop :=
  key <:+ q.attr ∧ q.value = expected ∨
    ¬ key <:+ q.attr ∧ ∃ w, behind (key ++ [equals]) q.value = some w ∧
      (w = [] ∧ post = [] ∧ expected = [] ∨
        w = [] ∧ (∃ n rest, post = n :: rest ∧ expected = n.lead ++ [equals]) ∨
        semicolon ∉ expected ∧ ∃ t, w = expected ++ semicolon :: t)

/-- The first parameter in which the name stands is another one, and does not happen to have
    the expected text there. -/
def Misread (key : Bytes) (params : List Parameter) : Prop :=
  ∃ pre q post, params = pre ++ q :: post ∧ (∀ p ∈ pre, ¬ Mentions key p) ∧ Mentions key q ∧
    q.attr ≠ key ∧ ¬ Coincides key (valueOf key params) q post

/-! ## Searching -/

/-- What `extract_parameter` makes of the text behind the name. -/
def readAfter (val : Bytes) : Bytes :=
  if val.head? = some quote then upTo quote (val.drop 1) else upTo semicolon val

theorem extractParameter_eq (header key : Bytes) :
    extractParameter header key = ((behind (key ++ [equals]) header).map readAfter).getD [] := by
  rw [extractParameter, behind]
  dsimp only
  rw [show key ++ text "=" = key ++ [equals] from rfl]
  cases findText (key ++ [equals]) header with
  | none => rfl
  | some pos => rfl

/-- What is not found in front is found behind. -/
theorem behind_skip {pattern before s : Bytes}
    (h : findText pattern (before ++ s) = (findText pattern s).map (before.length + ·)) :
    behind pattern (before ++ s) = behind pattern s := by
  rw [behind, behind, h, Option.map_map]
  congr 1
  funext n
  show (before ++ s).drop (before.length + n + pattern.length) = s.drop (n + pattern.length)
  rw [Nat.add_assoc, ← drop_drop, drop_left]

/-- What is found stays where it is when text follows. -/
theorem behind_append {pattern s w : Bytes} (h : behind pattern s = some w) (rest : Bytes) :
    behind pattern (s ++ rest) = some (w ++ rest) := by
  obtain ⟨n, hn, hw⟩ := Option.map_eq_some_iff.mp h
  obtain ⟨hat, hle, hbefore⟩ := MultipartRounds.findText_some hn
  obtain ⟨w', hw'⟩ := hat
  have hrest : w' = w := by
    rw [← hw, ← drop_drop, ← hw', drop_left]
  have hs : s = s.take n ++ (pattern ++ w) := by
    rw [← hrest, hw', take_append_drop]
  have hlen : (s.take n).length = n := by
    rw [length_take]
    omega
  have hfind : findText pattern (s.take n ++ (pattern ++ (w ++ rest))) =
      some (s.take n).length := findText_append (by
    intro i hi hp
    rw [hlen] at hi
    refine hbefore i hi (prefix_of_prefix_length_le hp ?_ ?_)
    · rw [← append_assoc pattern, ← append_assoc, ← hs,
        drop_append_of_le_length (by omega)]
      exact prefix_append _ _
    · have htotal := congrArg List.length hs
      rw [length_append, length_append, hlen] at htotal
      rw [length_drop]
      omega)
  have hjoin : s ++ rest = s.take n ++ (pattern ++ (w ++ rest)) := by
    rw [← append_assoc pattern, ← append_assoc, ← hs]
  rw [behind, hjoin, hfind, Option.map_some, ← drop_drop, drop_left, drop_left]

theorem behind_isSome {pattern s : Bytes} :
    (behind pattern s).isSome = true ↔ pattern <:+: s := by
  rw [behind, Option.isSome_map, findText_isSome]

/-! ## A parameter -/

section

variable {key : Bytes}

/-- A text without a separator ends a longer one only behind its last separator. -/
theorem suffix_separated {c : UInt8} {x y : Bytes} (hc : c ∉ key) :
    key <:+ x ++ c :: y ↔ key <:+ y := by
  constructor
  · intro h
    rcases suffix_or_suffix_of_suffix h (suffix_append x (c :: y)) with hin | hout
    · rcases suffix_cons_iff.mp hin with heq | hy
      · exact absurd (heq ▸ mem_cons_self) hc
      · exact hy
    · exact absurd (hout.subset mem_cons_self) hc
  · intro h
    exact h.trans ((suffix_cons c y).trans (suffix_append x (c :: y)))

/-- A token ends the text of a parameter up to its `=` only if it ends its name. -/
theorem suffix_lead (hkey : Token key) (x : Bytes) (p : Parameter) :
    key <:+ x ++ p.lead ↔ key <:+ p.attr := by
  have hblanks : ∀ blanks : Bytes, (∀ c ∈ blanks, c = space ∨ c = tab) →
      (key <:+ blanks ++ p.attr ↔ key <:+ p.attr) := by
    intro blanks
    induction blanks with
    | nil => exact fun _ => Iff.rfl
    | cons c blanks ih =>
      intro h
      have hc : c ∉ key := by
        rcases h c mem_cons_self with rfl | rfl
        · exact hkey.noSpace
        · exact hkey.noTab
      rw [cons_append, ← ih fun d hd => h d (mem_cons_of_mem c hd)]
      exact suffix_separated (x := []) hc
  rw [Parameter.lead, ← append_assoc, suffix_separated hkey.noSemicolon]
  exact hblanks p.after fun c hc => p.blanks c (mem_append_right _ hc)

theorem lead_noEquals (p : Parameter) : equals ∉ p.lead := by
  have hblank : ∀ c ∈ p.before ++ p.after, c ≠ equals := by
    intro c hc
    rcases p.blanks c hc with rfl | rfl
    · exact by decide
    · exact by decide
  intro h
  rcases mem_append.mp h with hbefore | h
  · exact hblank _ (mem_append_left _ hbefore) rfl
  · rcases mem_cons.mp h with heq | h
    · exact absurd heq (by decide)
    · rcases mem_append.mp h with hafter | hattr
      · exact hblank _ (mem_append_right _ hafter) rfl
      · exact p.token.noEquals hattr

theorem lead_noQuote (p : Parameter) : quote ∉ p.lead ++ [equals] := by
  have hblank : ∀ c ∈ p.before ++ p.after, c ≠ quote := by
    intro c hc
    rcases p.blanks c hc with rfl | rfl
    · exact by decide
    · exact by decide
  intro h
  rcases mem_append.mp h with h | hlast
  · rcases mem_append.mp h with hbefore | h
    · exact hblank _ (mem_append_left _ hbefore) rfl
    · rcases mem_cons.mp h with heq | h
      · exact absurd heq (by decide)
      · rcases mem_append.mp h with hafter | hattr
        · exact hblank _ (mem_append_right _ hafter) rfl
        · exact p.token.noQuote hattr
  · exact absurd (mem_singleton.mp hlast) (by decide)

theorem needle_noQuote (hkey : Token key) : quote ∉ key ++ [equals] := by
  intro h
  rcases mem_append.mp h with hmem | hlast
  · exact hkey.noQuote hmem
  · exact absurd (mem_singleton.mp hlast) (by decide)

/-- The text of a parameter with the text that follows it. -/
theorem render_append (p : Parameter) (rest : Bytes) :
    p.render ++ rest = p.lead ++ equals :: (quote :: (p.value ++ quote :: rest)) := by
  rw [Parameter.render, append_assoc, cons_append, cons_append, append_assoc,
    singleton_append]

/-- A parameter whose name ends in the token is found, with its value. -/
theorem behind_name (hkey : Token key) {p : Parameter} (h : key <:+ p.attr) (x rest : Bytes)
    (hx : equals ∉ x) :
    behind (key ++ [equals]) (x ++ (p.render ++ rest)) =
      some (quote :: (p.value ++ quote :: rest)) := by
  obtain ⟨front, hfront⟩ := (suffix_lead hkey x p).mpr h
  have hsplit : x ++ (p.render ++ rest) =
      front ++ (key ++ [equals] ++ (quote :: (p.value ++ quote :: rest))) := by
    rw [render_append, ← append_assoc x, ← hfront, append_assoc key,
      singleton_append, ← append_assoc front]
  have hequals : equals ∉ front ++ key := by
    rw [hfront, mem_append, not_or]
    exact ⟨hx, lead_noEquals p⟩
  rw [behind, hsplit, findText_sentinel hequals, Option.map_some, ← drop_drop, drop_left,
    drop_left]

/-- Otherwise the search goes on in its value. -/
theorem behind_value (hkey : Token key) {p : Parameter} (h : ¬ key <:+ p.attr) (x rest : Bytes)
    (hx : equals ∉ x) :
    behind (key ++ [equals]) (x ++ (p.render ++ rest)) =
      behind (key ++ [equals]) (p.value ++ quote :: rest) := by
  have hlead : equals ∉ x ++ p.lead := by
    rw [mem_append, not_or]
    exact ⟨hx, lead_noEquals p⟩
  have hne : key ++ [equals] ≠ [] := append_ne_nil_of_right_ne_nil _ (cons_ne_nil _ _)
  have hequals : findText (key ++ [equals])
      (x ++ p.lead ++ equals :: quote :: (p.value ++ quote :: rest)) = _ := findText_sentinel_skip
    hkey.noEquals hlead (fun hs => h ((suffix_lead hkey x p).mp hs))
  have hquote : findText (key ++ [equals]) ([] ++ quote :: (p.value ++ quote :: rest)) = _ :=
    findText_separated (needle_noQuote hkey) hne (fun hin => hne (infix_nil.mp hin))
  have houter : behind (key ++ [equals])
      ((x ++ p.lead ++ [equals]) ++ quote :: (p.value ++ quote :: rest)) =
        behind (key ++ [equals]) (quote :: (p.value ++ quote :: rest)) := by
    refine behind_skip ?_
    have hlen : (x ++ p.lead ++ [equals]).length = (x ++ p.lead).length + 1 := length_append
    rw [append_assoc, singleton_append, hequals, hlen]
  have hinner : behind (key ++ [equals]) ([quote] ++ (p.value ++ quote :: rest)) =
      behind (key ++ [equals]) (p.value ++ quote :: rest) := by
    refine behind_skip ?_
    rw [singleton_append]
    exact hquote
  rw [render_append, ← append_assoc x, ← hinner]
  rw [append_assoc, singleton_append] at houter
  exact houter

/-- A parameter in which the name does not stand is passed over. -/
theorem behind_other (hkey : Token key) {p : Parameter} (h : ¬ Mentions key p) (x rest : Bytes)
    (hx : equals ∉ x) :
    behind (key ++ [equals]) (x ++ (p.render ++ rest)) = behind (key ++ [equals]) rest := by
  rw [Mentions, not_or] at h
  have hne : key ++ [equals] ≠ [] := append_ne_nil_of_right_ne_nil _ (cons_ne_nil _ _)
  have hquote : findText (key ++ [equals]) (p.value ++ quote :: rest) = _ :=
    findText_separated (needle_noQuote hkey) hne h.2
  have hskip : behind (key ++ [equals]) ((p.value ++ [quote]) ++ rest) =
      behind (key ++ [equals]) rest := by
    refine behind_skip ?_
    rw [append_assoc, singleton_append, hquote, length_append,
      length_singleton]
  rw [behind_value hkey h.1 x rest hx, ← hskip, append_assoc, singleton_append]

/-- The search in the parameters: it ends in the first one in which the name stands. -/
theorem behind_params (hkey : Token key) {x : Bytes} (hx : equals ∉ x) {pre : List Parameter}
    (hpre : ∀ p ∈ pre, ¬ Mentions key p) (rest : Bytes) :
    behind (key ++ [equals]) (x ++ (pre.flatMap Parameter.render ++ rest)) =
      if pre = [] then behind (key ++ [equals]) (x ++ rest) else behind (key ++ [equals]) rest := by
  induction pre generalizing x with
  | nil => rfl
  | cons p pre ih =>
    have hrest := ih not_mem_nil fun q hq => hpre q (mem_cons_of_mem p hq)
    rw [nil_append, nil_append, ite_self] at hrest
    rw [if_neg (cons_ne_nil p pre), flatMap_cons, append_assoc,
      behind_other hkey (hpre p mem_cons_self) x _ hx, hrest]

theorem mentions_name (p : Parameter) : Mentions p.attr p := .inl (suffix_refl _)

/-- No parameter in which the name does not stand has that name. -/
theorem valueOf_skip {pre : List Parameter} (hpre : ∀ p ∈ pre, ¬ Mentions key p)
    (post : List Parameter) : valueOf key (pre ++ post) = valueOf key post := by
  induction pre with
  | nil => rfl
  | cons p pre ih =>
    have hname : p.attr ≠ key := by
      rintro rfl
      exact hpre p mem_cons_self (mentions_name p)
    rw [cons_append, valueOf, if_neg hname]
    exact ih fun q hq => hpre q (mem_cons_of_mem p hq)

theorem valueOf_noQuote (params : List Parameter) : quote ∉ valueOf key params := by
  induction params with
  | nil => exact not_mem_nil
  | cons p params ih =>
    rw [valueOf]
    split
    · exact p.noQuote
    · exact ih

/-- The parameters in which the name stands, from the first one on. -/
theorem mentions_cases (key : Bytes) (params : List Parameter) :
    (∀ p ∈ params, ¬ Mentions key p) ∨
      ∃ pre q post, params = pre ++ q :: post ∧ (∀ p ∈ pre, ¬ Mentions key p) ∧ Mentions key q := by
  induction params with
  | nil => exact .inl fun p hp => absurd hp not_mem_nil
  | cons p params ih =>
    by_cases hp : Mentions key p
    · exact .inr ⟨[], p, params, rfl, fun q hq => absurd hq not_mem_nil, hp⟩
    · rcases ih with hnone | ⟨pre, q, post, rfl, hpre, hq⟩
      · exact .inl (forall_mem_cons.mpr ⟨hp, hnone⟩)
      · exact .inr ⟨p :: pre, q, post, rfl, forall_mem_cons.mpr ⟨hp, hpre⟩, hq⟩

/-- The first of them is one. -/
theorem mentions_unique {pre pre' post post' : List Parameter} {q q' : Parameter}
    (heq : pre ++ q :: post = pre' ++ q' :: post') (hpre : ∀ p ∈ pre, ¬ Mentions key p)
    (hpre' : ∀ p ∈ pre', ¬ Mentions key p) (hq : Mentions key q) (hq' : Mentions key q') :
    pre = pre' ∧ q = q' ∧ post = post' := by
  rcases append_eq_append_iff.mp heq with ⟨more, rfl, hmore⟩ | ⟨more, rfl, hmore⟩
  · cases more with
    | nil =>
      obtain ⟨rfl, rfl⟩ := List.cons.inj hmore
      exact ⟨(append_nil pre).symm, rfl, rfl⟩
    | cons p more =>
      obtain ⟨rfl, -⟩ := List.cons.inj hmore
      exact absurd hq (hpre' q (mem_append_right _ mem_cons_self))
  · cases more with
    | nil =>
      obtain ⟨rfl, rfl⟩ := List.cons.inj hmore
      exact ⟨append_nil pre', rfl, rfl⟩
    | cons p more =>
      obtain ⟨rfl, -⟩ := List.cons.inj hmore
      exact absurd hq' (hpre q' (mem_append_right _ mem_cons_self))

/-! ## What is read -/

theorem readAfter_quoted {value : Bytes} (h : quote ∉ value) (rest : Bytes) :
    readAfter (quote :: (value ++ quote :: rest)) = value := by
  rw [readAfter, head?_cons, if_pos rfl]
  exact upTo_append h rest

/-- Behind the opening quote of the next parameter, if there is one. -/
theorem readAfter_between (post : List Parameter) :
    readAfter (quote :: post.flatMap Parameter.render) =
      match post with
      | [] => []
      | n :: _ => n.lead ++ [equals] := by
  rw [readAfter, head?_cons, if_pos rfl]
  cases post with
  | nil => rfl
  | cons n post =>
    have hsplit : (n :: post).flatMap Parameter.render = (n.lead ++ [equals]) ++
        quote :: (n.value ++ quote :: post.flatMap Parameter.render) := by
      rw [flatMap_cons, render_append, append_assoc, singleton_append]
    rw [drop_one, tail_cons, hsplit]
    exact upTo_append (lead_noQuote n) _

/-- The text up to the first `c` begins with what has none. -/
theorem upTo_through {c : UInt8} {before : Bytes} (h : c ∉ before) (s : Bytes) :
    upTo c (before ++ s) = before ++ upTo c s := by
  rw [upTo, upTo]
  cases hs : splitFirst c s with
  | none =>
    have hnone : c ∉ before ++ s := by
      rw [mem_append, not_or]
      exact ⟨h, splitFirst_eq_none.mp hs⟩
    rw [splitFirst_eq_none.mpr hnone]
  | some found =>
    obtain ⟨front, t⟩ := found
    obtain ⟨rfl, hfront⟩ := splitFirst_eq_some.mp hs
    have hsplit : c ∉ before ++ front := by
      rw [mem_append, not_or]
      exact ⟨h, hfront⟩
    rw [← append_assoc, splitFirst_append hsplit]

/-- Inside a value that goes on: up to a semicolon, which may stand behind the quote. -/
theorem readAfter_inside {w expected : Bytes} (hw : quote ∉ w) (hne : w ≠ [])
    (he : quote ∉ expected) (rest : Bytes) :
    readAfter (w ++ quote :: rest) = expected ↔
      semicolon ∉ expected ∧ ∃ t, w = expected ++ semicolon :: t := by
  have hhead : (w ++ quote :: rest).head? ≠ some quote := by
    cases w with
    | nil => exact absurd rfl hne
    | cons c w =>
      rw [cons_append, head?_cons]
      intro h
      exact hw (Option.some.inj h ▸ mem_cons_self)
  rw [readAfter, if_neg hhead]
  by_cases hsemi : semicolon ∈ w
  · obtain ⟨front, t, rfl, hfront⟩ := eq_append_cons_of_mem hsemi
    rw [append_assoc, cons_append, upTo_append hfront]
    constructor
    · rintro rfl
      exact ⟨hfront, t, rfl⟩
    · rintro ⟨hexpected, t', heq⟩
      have hsplit := splitFirst_append hfront t
      rw [heq, splitFirst_append hexpected] at hsplit
      exact (Prod.mk.inj (Option.some.inj hsplit)).1.symm
  · have hquote : upTo semicolon (quote :: rest) = quote :: upTo semicolon rest :=
      upTo_through (by decide : semicolon ∉ [quote]) rest
    rw [upTo_through hsemi, hquote]
    constructor
    · rintro rfl
      exact absurd (mem_append_right w mem_cons_self) he
    · rintro ⟨-, t, rfl⟩
      exact absurd (mem_append_right expected mem_cons_self) hsemi

/-- What is read from another parameter is the expected text exactly if the two coincide. -/
theorem read_iff (hkey : Token key) {q : Parameter} (hq : Mentions key q) {expected : Bytes}
    (he : quote ∉ expected) (x : Bytes) (hx : equals ∉ x) (post : List Parameter) :
    ((behind (key ++ [equals]) (x ++ (q.render ++ post.flatMap Parameter.render))).map
        readAfter).getD [] = expected ↔ Coincides key expected q post := by
  by_cases hname : key <:+ q.attr
  · rw [behind_name hkey hname x _ hx, Option.map_some, Option.getD_some,
      readAfter_quoted q.noQuote]
    constructor
    · intro h
      exact .inl ⟨hname, h⟩
    · rintro (⟨-, h⟩ | ⟨hnot, -⟩)
      · exact h
      · exact absurd hname hnot
  · obtain ⟨w, hw⟩ := Option.isSome_iff_exists.mp (behind_isSome.mpr (hq.resolve_left hname))
    have hquote : quote ∉ w := by
      obtain ⟨n, -, rfl⟩ := Option.map_eq_some_iff.mp hw
      exact fun hmem => q.noQuote (mem_of_mem_drop hmem)
    have hread : Coincides key expected q post ↔
        (w = [] ∧ post = [] ∧ expected = [] ∨
          w = [] ∧ (∃ n rest, post = n :: rest ∧ expected = n.lead ++ [equals]) ∨
          semicolon ∉ expected ∧ ∃ t, w = expected ++ semicolon :: t) := by
      constructor
      · rintro (⟨hyes, -⟩ | ⟨-, w', hw', h⟩)
        · exact absurd hyes hname
        · obtain rfl := Option.some.inj (hw.symm.trans hw')
          exact h
      · intro h
        exact .inr ⟨hname, w, hw, h⟩
    rw [behind_value hkey hname x _ hx, behind_append hw, Option.map_some, Option.getD_some, hread]
    by_cases hne : w = []
    · subst hne
      rw [nil_append, readAfter_between]
      cases post with
      | nil =>
        constructor
        · intro h
          exact .inl ⟨rfl, rfl, h.symm⟩
        · rintro (⟨-, -, h⟩ | ⟨-, n, rest, hpost, -⟩ | ⟨-, t, ht⟩)
          · exact h.symm
          · cases hpost
          · exact absurd ht.symm (append_ne_nil_of_right_ne_nil _ (cons_ne_nil _ _))
      | cons n post =>
        constructor
        · intro h
          exact .inr (.inl ⟨rfl, n, post, rfl, h.symm⟩)
        · rintro (⟨-, hpost, -⟩ | ⟨-, n', rest, hpost, h⟩ | ⟨-, t, ht⟩)
          · cases hpost
          · obtain ⟨rfl, rfl⟩ := List.cons.inj hpost
            exact h.symm
          · exact absurd ht.symm (append_ne_nil_of_right_ne_nil _ (cons_ne_nil _ _))
    · rw [readAfter_inside hquote hne he]
      constructor
      · intro h
        exact .inr (.inr h)
      · rintro (⟨hnil, -⟩ | ⟨hnil, -⟩ | h)
        · exact absurd hnil hne
        · exact absurd hnil hne
        · exact h

/-- A name is read as it should be exactly if it is not misread. -/
theorem extractParameter_iff (hkey : Token key) (d : ContentDisposition) :
    extractParameter d.header key = valueOf key d.params ↔ ¬ Misread key d.params := by
  have hskip : ∀ {pre : List Parameter}, (∀ p ∈ pre, ¬ Mentions key p) → ∀ rest,
      ∃ x, equals ∉ x ∧ behind (key ++ [equals]) (d.type ++ (pre.flatMap Parameter.render ++ rest)) =
        behind (key ++ [equals]) (x ++ rest) := by
    intro pre hpre rest
    have h := behind_params hkey d.token.noEquals hpre rest
    split at h
    · exact ⟨d.type, d.token.noEquals, h⟩
    · exact ⟨[], not_mem_nil, h⟩
  rw [extractParameter_eq, ContentDisposition.header]
  rcases mentions_cases key d.params with hnone | ⟨pre, q, post, hparams, hpre, hq⟩
  · have hvalue := valueOf_skip hnone []
    rw [append_nil] at hvalue
    obtain ⟨x, hx, hbehind⟩ := hskip hnone []
    have hempty : behind (key ++ [equals]) (x ++ []) = none := by
      rw [← Option.not_isSome_iff_eq_none, behind_isSome, append_nil]
      intro hin
      exact hx (hin.subset (mem_append_right _ mem_cons_self))
    rw [append_nil, hempty] at hbehind
    rw [hbehind, hvalue]
    refine iff_of_true rfl ?_
    rintro ⟨pre, q, post, hparams, -, hq, -⟩
    exact hnone q (hparams ▸ mem_append_right _ mem_cons_self) hq
  · obtain ⟨x, hx, hbehind⟩ := hskip hpre (q.render ++ post.flatMap Parameter.render)
    have hbody : d.params.flatMap Parameter.render =
        pre.flatMap Parameter.render ++ (q.render ++ post.flatMap Parameter.render) := by
      rw [hparams, flatMap_append, flatMap_cons]
    rw [hbody, hbehind]
    by_cases hname : q.attr = key
    · -- the first place is the name of the parameter itself
      have hvalue : valueOf key d.params = q.value := by
        rw [hparams, valueOf_skip hpre, valueOf, if_pos hname]
      rw [behind_name hkey (hname ▸ suffix_refl _) x _ hx, Option.map_some, Option.getD_some,
        readAfter_quoted q.noQuote, hvalue]
      refine iff_of_true rfl ?_
      rintro ⟨pre', q', post', hparams', hpre', hq', hother, -⟩
      obtain ⟨-, rfl, -⟩ := mentions_unique (hparams.symm.trans hparams') hpre hpre' hq hq'
      exact hother hname
    · rw [read_iff hkey hq (valueOf_noQuote d.params) x hx post]
      constructor
      · rintro hsame ⟨pre', q', post', hparams', hpre', hq', -, hother⟩
        obtain ⟨-, rfl, rfl⟩ := mentions_unique (hparams.symm.trans hparams') hpre hpre' hq hq'
        exact hother hsame
      · intro hnot
        by_contra hother
        exact hnot ⟨pre, q, post, hparams, hpre, hq, hname, hother⟩

end

theorem token_name : Token (text "name") := by
  constructor <;> decide

theorem token_filename : Token (text "filename") := by
  constructor <;> decide

/-- **Parameters by name**: the values of `name` and `filename` are extracted exactly if
    neither name stands first in another parameter, with another text there. -/
theorem read_by_name_iff (d : ContentDisposition) :
    ReadByName d ↔ ¬ Misread (text "name") d.params ∧ ¬ Misread (text "filename") d.params := by
  rw [ReadByName, forall_mem_cons, forall_mem_singleton,
    extractParameter_iff token_name, extractParameter_iff token_filename]

/-- `form-data; filename="a"; name="b"`. -/
def filenameFirst : ContentDisposition where
  type := text "form-data"
  params := [
    { before := [], after := [space], attr := text "filename", value := text "a"
      blanks := fun _ h => .inl (mem_singleton.mp h)
      token := token_filename, noQuote := by decide, noBreak := by decide },
    { before := [], after := [space], attr := text "name", value := text "b"
      blanks := fun _ h => .inl (mem_singleton.mp h)
      token := token_name, noQuote := by decide, noBreak := by decide }]
  token := by constructor <;> decide

/-- The search for `name=` ends in the filename. -/
theorem filename_first : ¬ ReadByName filenameFirst := by
  intro h
  exact absurd (h (text "name") mem_cons_self) (by decide)

end MultipartDisposition
