import WaveX.MultipartRounds

/-! # Delimiter lines

    A delimiter of a multipart body is a line.  The loop of `parse` looks for its text
    anywhere, and for the end of the headers anywhere behind it.  What the body has to be
    like for the loop to stop at delimiter lines only, with each part's own headers, is
    said here without the loop: where the text may stand, and where the delimiter lines
    may. -/

namespace MultipartLines

open QuicVarInt HttpText Multipart MultipartRounds List

/-! ## Lines -/

def tab : UInt8 := 0x09

/-- A line begins here. -/
def LineStart (body : Bytes) (i : Nat) : Prop :=
  i = 0 ∨ (2 ≤ i ∧ substr body (i - 2) 2 = crlf)

/-- The delimiter here is the closing one. -/
def Closing (delimiter body : Bytes) (i : Nat) : Prop :=
  Occurs (text "--") body (i + delimiter.length)

/-- A delimiter line begins here: a line with the delimiter, and then `--`, or blanks up to
    its end. -/
structure Line (delimiter body : Bytes) (i : Nat) : Prop where
  unbroken : lf ∉ delimiter
  start : LineStart body i
  stands : Occurs delimiter body i
  tail : Closing delimiter body i ∨ ∃ blanks : Bytes, (∀ c ∈ blanks, c = space ∨ c = tab) ∧
    Occurs (blanks ++ crlf) body (i + delimiter.length)

/-- A delimiter line with no closing one up to it. -/
structure Live (delimiter body : Bytes) (l : Nat) : Prop where
  line : Line delimiter body l
  opened : ∀ m ≤ l, Line delimiter body m → ¬ Closing delimiter body m

/-- The headers behind a delimiter end at the first blank line, and no delimiter line comes
    before that. -/
structure OwnHeaders (delimiter body : Bytes) (pos j : Nat) : Prop where
  blank : ∀ i, pos ≤ i → Occurs (crlf ++ crlf) body i → j ≤ i
  lines : ∀ m, pos ≤ m → m < j → ¬ Line delimiter body m

/-- The contract of a round: it takes its own headers, ends at a delimiter line, and returns
    what stands before the line break of that line intact, which is nothing if that line
    follows the blank line at once. -/
structure AtLines (delimiter body : Bytes) (r : Round) : Prop where
  headers : OwnHeaders delimiter body r.pos r.headerEnd
  line : Line delimiter body r.nextBoundary
  content : r.bodyStart < r.nextBoundary → r.bodyStart + 2 ≤ r.nextBoundary
  intact : (r.part body delimiter).content =
    substr body r.bodyStart (r.nextBoundary - 2 - r.bodyStart)

/-- The contract: the body is split at delimiter lines only. -/
structure SplitsAtLines (body contentTypeHeader : Bytes) (limits : MultipartLimits) : Prop where
  opening : body.length ≤ limits.maxTotalSize → extractBoundary contentTypeHeader ≠ [] →
    ∀ i, findFrom (delimiterOf contentTypeHeader) body 0 = some i →
      Line (delimiterOf contentTypeHeader) body i
  rounds : ∀ r ∈ roundsOf body contentTypeHeader limits,
    AtLines (delimiterOf contentTypeHeader) body r

/-- The delimiter's text stands nowhere before the first delimiter line.  Behind a delimiter
    line that is reached, and behind the end of the headers, it does not stand at once, and
    nowhere before the next delimiter line; and if it stands there at all, these headers are
    the part's own. -/
structure Clean (delimiter body : Bytes) : Prop where
  opening : ∀ i, Occurs delimiter body i → (∀ m < i, ¬ Line delimiter body m) →
    Line delimiter body i
  content : ∀ l, Live delimiter body l → ∀ j s,
    headerEnd body (skipLineBreak body (l + delimiter.length)) = some (j, s) →
    ∀ i, s ≤ i → Occurs delimiter body i → (∀ m, s ≤ m → m < i → ¬ Line delimiter body m) →
      Line delimiter body i
  headers : ∀ l, Live delimiter body l → ∀ j s,
    headerEnd body (skipLineBreak body (l + delimiter.length)) = some (j, s) →
    ∀ i, s ≤ i → Occurs delimiter body i → OwnHeaders delimiter body (l + delimiter.length) j
  filled : ∀ l, Live delimiter body l → ∀ j s,
    headerEnd body (skipLineBreak body (l + delimiter.length)) = some (j, s) →
    ¬ Occurs delimiter body s

/-! ## Where texts stand -/

theorem delimiterOf_length (contentTypeHeader : Bytes) :
    2 ≤ (delimiterOf contentTypeHeader).length := by
  rw [delimiterOf, length_append]
  exact Nat.le_add_right 2 _

/-- A delimiter begins with a dash. -/
def Dashed (delimiter : Bytes) : Prop := 2 ≤ delimiter.length ∧ delimiter[0]? = some 0x2d

theorem delimiterOf_dashed (contentTypeHeader : Bytes) : Dashed (delimiterOf contentTypeHeader) :=
  ⟨delimiterOf_length _, rfl⟩

variable {delimiter body : Bytes}

theorem Line.before {m : Nat} (h : Line delimiter body m) (hm : 0 < m) :
    2 ≤ m ∧ body[m - 2]? = some cr ∧ body[m - 1]? = some lf := by
  rcases h.start with rfl | ⟨htwo, hcrlf⟩
  · exact absurd hm (Nat.lt_irrefl 0)
  · have hocc : Occurs crlf body (m - 2) := by
      rw [Occurs, ← hcrlf]
      exact List.take_prefix _ _
    have hsecond := hocc.byte (show 1 < crlf.length by decide)
    rw [show m - 2 + 1 = m - 1 by omega] at hsecond
    exact ⟨htwo, hocc.byte (show 0 < crlf.length by decide), hsecond⟩

/-- No delimiter line begins inside a delimiter. -/
theorem Line.beyond {l m : Nat} (h : Line delimiter body m) (hl : Occurs delimiter body l)
    (hlt : l < m) : l + delimiter.length ≤ m := by
  by_contra hinside
  obtain ⟨-, -, hlf⟩ := h.before (by omega)
  have hbyte := hl.byte (show m - 1 - l < delimiter.length by omega)
  rw [show l + (m - 1 - l) = m - 1 by omega, hlf] at hbyte
  exact h.unbroken (mem_of_getElem? hbyte.symm)

/-- No delimiter stands on a blank line. -/
theorem not_occurs_blank (hd : Dashed delimiter) {pos j s m : Nat}
    (h : headerEnd body pos = some (j, s)) (hpos : pos ≤ body.length) (hj : j ≤ m) (hs : m < s) :
    ¬ Occurs delimiter body m := by
  intro hm
  have hdash := hm.byte (show 0 < delimiter.length from Nat.lt_of_lt_of_le Nat.two_pos hd.1)
  rw [hd.2, Nat.add_zero] at hdash
  -- every byte of the blank line is one of a line break
  have hblank : ∀ {blank : Bytes}, Occurs blank body j → (0x2d : UInt8) ∉ blank →
      s = j + blank.length → False := by
    intro blank hat hbytes heq
    have hbyte := hat.byte (show m - j < blank.length by omega)
    rw [show j + (m - j) = m by omega, hdash] at hbyte
    exact hbytes (mem_of_getElem? hbyte.symm)
  rw [headerEnd] at h
  cases hcrlf : findFrom (crlf ++ crlf) body pos with
  | some n =>
    rw [hcrlf] at h
    obtain ⟨rfl, rfl⟩ := Prod.mk.inj (Option.some.inj h)
    exact hblank (findFrom_some hcrlf hpos).2.2.1 (by decide) rfl
  | none =>
    rw [hcrlf] at h
    obtain ⟨n, hn, heq⟩ := Option.map_eq_some_iff.mp h
    obtain ⟨rfl, rfl⟩ := Prod.mk.inj heq
    exact hblank (findFrom_some hn hpos).2.2.1 (by decide) rfl

/-- From further back the headers end no later. -/
theorem headerEnd_mono {body : Bytes} {a b j s : Nat} (hab : a ≤ b) (hb : b ≤ body.length)
    (h : headerEnd body b = some (j, s)) :
    ∃ j₀ s₀, headerEnd body a = some (j₀, s₀) ∧ s₀ ≤ s := by
  have hfirst : ∀ {pattern : Bytes} {n i : Nat}, findFrom pattern body a = some n →
      Occurs pattern body i → a ≤ i → n ≤ i := by
    intro pattern n i hn hi hai
    by_contra hlt
    exact (findFrom_some hn (hab.trans hb)).2.2.2 i hai (by omega) hi
  rw [headerEnd] at h
  cases hcrlf : findFrom (crlf ++ crlf) body b with
  | some n =>
    rw [hcrlf] at h
    obtain ⟨rfl, rfl⟩ := Prod.mk.inj (Option.some.inj h)
    obtain ⟨hbn, -, hat, -⟩ := findFrom_some hcrlf hb
    obtain ⟨m, hm⟩ := findFrom_of_occurs hat (hab.trans hbn)
    have hle := hfirst hm hat (hab.trans hbn)
    exact ⟨m, m + 4, by rw [headerEnd, hm], by omega⟩
  | none =>
    rw [hcrlf] at h
    obtain ⟨n, hn, heq⟩ := Option.map_eq_some_iff.mp h
    obtain ⟨rfl, rfl⟩ := Prod.mk.inj heq
    obtain ⟨hbn, -, hat, -⟩ := findFrom_some hn hb
    cases hm : findFrom (crlf ++ crlf) body a with
    | some m =>
      obtain ⟨-, -, hmat, -⟩ := findFrom_some hm (hab.trans hb)
      have hmb : m < b := by
        by_contra hge
        exact findFrom_none hcrlf (Nat.not_lt.mp hge) hmat
      -- the two line feeds do not begin in the middle of it
      have hne : n ≠ m + 1 := by
        rintro rfl
        have hcr := hmat.byte (show 2 < (crlf ++ crlf).length by decide)
        have hlf := hat.byte (show 1 < [lf, lf].length by decide)
        rw [Nat.add_assoc] at hlf
        exact absurd (hcr.symm.trans hlf) (by decide)
      exact ⟨m, m + 4, by rw [headerEnd, hm], by omega⟩
    | none =>
      obtain ⟨m, hmn⟩ := findFrom_of_occurs hat (hab.trans hbn)
      have hle := hfirst hmn hat (hab.trans hbn)
      exact ⟨m, m + 2, by rw [headerEnd, hm, hmn]; rfl, by omega⟩

/-! ## A round at delimiter lines -/

variable {r : Round}

/-- In front of a delimiter line the content is cut at the line break. -/
theorem Line.intact {pos : Nat} (hn : Line delimiter body r.nextBoundary)
    (hsize : body.length < 2 ^ 64) (hpos : pos ≤ body.length)
    (h : searches body delimiter pos = some r) (hlt : r.bodyStart < r.nextBoundary) :
    r.bodyStart + 2 ≤ r.nextBoundary ∧ (r.part body delimiter).content =
      substr body r.bodyStart (r.nextBoundary - 2 - r.bodyStart) := by
  obtain ⟨-, -, hblank, -, hinside, -, hlf, -⟩ := searches_some h hpos
  obtain ⟨htwo, hcr, -⟩ := hn.before (by omega)
  have hlong : r.bodyStart + 2 ≤ r.nextBoundary := by
    by_contra hshort
    rw [show r.nextBoundary - 2 = r.bodyStart - 1 by omega, hlf] at hcr
    exact absurd hcr (by decide)
  have hbreak : substr body (r.nextBoundary - 2) 2 = crlf := by
    rcases hn.start with hzero | ⟨-, hbreak⟩
    · omega
    · exact hbreak
  have hend : partEnd body r.nextBoundary = r.nextBoundary - 2 := by
    rw [partEnd, if_pos]
    rw [Bool.and_eq_true, decide_eq_true_eq, decide_eq_true_eq]
    exact ⟨htwo, hbreak⟩
  refine ⟨hlong, ?_⟩
  show substr body r.bodyStart (sizeDiff (partEnd body r.nextBoundary) r.bodyStart) = _
  rw [hend, sizeDiff]
  congr 1
  omega

/-- Between a delimiter line and the end of the next round there is no other delimiter
    line, when the round takes its own headers. -/
theorem no_line_between {l m : Nat} (hd : Dashed delimiter) (hl : Line delimiter body l)
    (h : searches body delimiter (l + delimiter.length) = some r)
    (hown : OwnHeaders delimiter body r.pos r.headerEnd) (hlm : l < m) (hm : m < r.nextBoundary) :
    ¬ Line delimiter body m := by
  intro hline
  have hpos := hl.stands.inside (ne_nil_of_length_pos (Nat.lt_of_lt_of_le Nat.two_pos hd.1))
  obtain ⟨hr, -, -, -, -, hend, -, -, hbefore⟩ := searches_some h hpos
  obtain ⟨-, -, hskip⟩ := skipLineBreak_le body (l + delimiter.length)
  have hbeyond := hline.beyond hl.stands hlm
  have hheaders : r.headerEnd ≤ m := by
    by_contra hlt
    exact hown.lines m (hr ▸ hbeyond) (Nat.not_le.mp hlt) hline
  have hbody : r.bodyStart ≤ m := by
    by_contra hlt
    exact not_occurs_blank hd hend (hskip hpos) hheaders (Nat.not_le.mp hlt) hline.stands
  exact hbefore m hbody hm hline.stands

/-- A live delimiter line stays one at the end of its round. -/
theorem Live.next {l : Nat} (hd : Dashed delimiter) (hl : Live delimiter body l)
    (h : searches body delimiter (l + delimiter.length) = some r) (hr : AtLines delimiter body r)
    {m : Nat} (hm : m < r.nextBoundary) (hline : Line delimiter body m) :
    ¬ Closing delimiter body m := by
  by_cases hle : m ≤ l
  · exact hl.opened m hle hline
  · exact absurd hline (no_line_between hd hl.line h hr.headers (Nat.not_le.mp hle) hm)

/-- A round from a live delimiter line of a clean body ends at the next one. -/
theorem Clean.atLines {l : Nat} (h : Clean delimiter body) (hsize : body.length < 2 ^ 64)
    (hl : Live delimiter body l) (hpos : l + delimiter.length ≤ body.length)
    (hr : searches body delimiter (l + delimiter.length) = some r) : AtLines delimiter body r := by
  obtain ⟨hat, -, -, hstart, -, hend, -, hstands, hbefore⟩ := searches_some hr hpos
  have hline : Line delimiter body r.nextBoundary := by
    refine h.content l hl _ _ hend _ hstart hstands ?_
    intro m hm hlt hmline
    exact hbefore m hm hlt hmline.stands
  have hfilled : r.bodyStart < r.nextBoundary := by
    refine Nat.lt_of_le_of_ne hstart fun hempty => ?_
    rw [← hempty] at hstands
    exact h.filled l hl _ _ hend hstands
  obtain ⟨hlong, hintact⟩ := hline.intact hsize hpos hr hfilled
  refine ⟨?_, hline, fun _ => hlong, hintact⟩
  rw [hat]
  exact h.headers l hl _ _ hend _ hstart hstands

variable {σ : Type*} {join : σ → Part → Option σ}

/-- Every round of a loop over a clean body is at delimiter lines. -/
theorem Clean.rounds (h : Clean delimiter body) (hd : Dashed delimiter)
    (hsize : body.length < 2 ^ 64) {fuel l : Nat} {f : σ} (hl : Line delimiter body l)
    (hopened : ∀ m < l, Line delimiter body m → ¬ Closing delimiter body m) :
    ∀ r ∈ rounds join body delimiter fuel (l + delimiter.length) f, AtLines delimiter body r := by
  induction fuel generalizing l f with
  | zero => exact fun r hr => absurd hr not_mem_nil
  | succ fuel ih =>
    intro r hr
    rw [MultipartRounds.rounds] at hr
    split at hr
    · next hgoes =>
      obtain ⟨hpos, hclosing⟩ := goesOn_iff.mp hgoes
      have hlive : Live delimiter body l := by
        refine ⟨hl, fun m hm hline => ?_⟩
        rcases Nat.lt_or_eq_of_le hm with hlt | rfl
        · exact hopened m hlt hline
        · exact hclosing
      split at hr
      · exact absurd hr not_mem_nil
      · next r' hsearch =>
        have hlines := h.atLines hsize hlive hpos.le hsearch
        rcases mem_cons.mp hr with rfl | hr
        · exact hlines
        · split at hr
          · exact absurd hr not_mem_nil
          · exact ih hlines.line (fun m hm => hlive.next hd hsearch hlines hm) r hr
    · exact absurd hr not_mem_nil

/-! ## Which lines are reached -/

/-- Limits that a body of this size cannot exceed. -/
def generous (body : Bytes) (hsize : body.length < 2 ^ 64) : MultipartLimits where
  maxFileSize := body.length
  maxTotalSize := body.length
  maxFiles := body.length
  maxParts := body.length
  fits := hsize

/-- The forms that hold so many parts less than the limits allow. -/
def Room (body : Bytes) (n : Nat) (f : MultipartFormData) : Prop :=
  f.files.length + f.fields.length + n ≤ body.length

/-- Where there is room, a part joins the form. -/
theorem addPart_generous {body : Bytes} (delimiter : Bytes) (hsize : body.length < 2 ^ 64)
    {n : Nat} {f : MultipartFormData} (hroom : Room body (n + 1) f) (r : Round) :
    ∃ f', addPart (generous body hsize) f (r.part body delimiter) = some f' ∧
      Room body n f' := by
  have hcontent : (r.part body delimiter).content.length ≤ body.length := by
    show (substr body _ _).length ≤ body.length
    rw [substr, length_take, length_drop]
    omega
  rw [Room] at hroom
  rw [addPart]
  split
  · exact ⟨f, rfl, by rw [Room]; omega⟩
  · rw [if_neg (show ¬ f.files.length + f.fields.length ≥ (generous body hsize).maxParts from
      Nat.not_le.mpr (show _ < body.length by omega))]
    split
    · refine ⟨_, rfl, ?_⟩
      rw [Room, length_append, length_singleton]
      show f.files.length + (f.fields.length + 1) + n ≤ body.length
      omega
    · rw [if_neg (show ¬ f.files.length ≥ (generous body hsize).maxFiles from
          Nat.not_le.mpr (show _ < body.length by omega)),
        if_neg (show ¬ (r.part body delimiter).content.length > (generous body hsize).maxFileSize
          from Nat.not_lt.mpr hcontent)]
      refine ⟨_, rfl, ?_⟩
      rw [Room, length_append, length_singleton]
      show f.files.length + 1 + f.fields.length + n ≤ body.length
      omega

/-- From an earlier line the searches of a round succeed too, and end no later than the
    first delimiter behind the later line. -/
theorem searches_earlier {c l : Nat} (hd : Dashed delimiter) (hcl : c + delimiter.length ≤ l)
    (hpos : l + delimiter.length ≤ body.length)
    (hr : searches body delimiter (l + delimiter.length) = some r) :
    ∃ r', searches body delimiter (c + delimiter.length) = some r' := by
  obtain ⟨-, -, -, hstart, -, hend, -, hstands, -⟩ := searches_some hr hpos
  obtain ⟨-, hskip, -⟩ := skipLineBreak_le body (c + delimiter.length)
  obtain ⟨hback, -, hinside⟩ := skipLineBreak_le body (l + delimiter.length)
  have htwo := hd.1
  obtain ⟨j, s, hend', hle⟩ := headerEnd_mono
    (show skipLineBreak body (c + delimiter.length) ≤ _ by omega) (hinside hpos) hend
  obtain ⟨n, hn⟩ := findFrom_of_occurs hstands (hle.trans hstart)
  refine ⟨⟨c + delimiter.length, j, s, n⟩, ?_⟩
  rw [searches, hend']
  dsimp only
  rw [hn]
  rfl

/-- A loop whose rounds are all at delimiter lines comes to every live one. -/
theorem rounds_visit {l : Nat} (hd : Dashed delimiter) (hsize : body.length < 2 ^ 64)
    (hl : Live delimiter body l) (hr : searches body delimiter (l + delimiter.length) = some r)
    {fuel c : Nat} {f : MultipartFormData} (hfuel : body.length ≤ fuel + (c + delimiter.length))
    (hroom : Room body fuel f) (hc : Line delimiter body c) (hcl : c ≤ l)
    (hall : ∀ r' ∈ rounds (addPart (generous body hsize)) body delimiter fuel
      (c + delimiter.length) f, AtLines delimiter body r') :
    r ∈ rounds (addPart (generous body hsize)) body delimiter fuel (c + delimiter.length) f := by
  have hne : delimiter ≠ [] :=
    ne_nil_of_length_pos (Nat.lt_of_lt_of_le Nat.two_pos hd.1)
  have hpos := hl.line.stands.inside hne
  obtain ⟨-, hheaders, hblank, hstart, hnext, -, -, -, -⟩ := searches_some hr hpos
  induction fuel generalizing c f with
  | zero => omega
  | succ fuel ih =>
    have hgoes : goesOn body (c + delimiter.length) = true :=
      goesOn_iff.mpr ⟨by omega, hl.opened c hcl hc⟩
    rcases Nat.lt_or_eq_of_le hcl with hlt | rfl
    · have hbeyond := hl.line.beyond hc.stands hlt
      obtain ⟨r', hr'⟩ := searches_earlier hd hbeyond hpos hr
      obtain ⟨f', hjoin, hroom'⟩ := addPart_generous delimiter hsize hroom r'
      rw [rounds, if_pos hgoes, hr'] at hall ⊢
      dsimp only at hall ⊢
      rw [hjoin] at hall ⊢
      dsimp only at hall ⊢
      have hlines := hall r' (mem_cons_self ..)
      obtain ⟨hat, hforth, hlong, hafter, -⟩ := searches_some hr' (by omega)
      -- the later line does not stand before the end of this round
      have hreach : r'.nextBoundary ≤ l := by
        by_contra hover
        exact no_line_between hd hc hr' hlines.headers hlt (Nat.not_le.mp hover) hl.line
      exact mem_cons_of_mem _ (ih (by omega) hroom' hlines.line hreach
        (fun r'' h'' => hall r'' (mem_cons_of_mem _ h'')))
    · rw [rounds, if_pos hgoes, hr]
      exact mem_cons_self ..

/-- The rounds of `parse` begin behind the first delimiter. -/
theorem roundsOf_generous {body contentTypeHeader : Bytes} {hsize : body.length < 2 ^ 64}
    (hb : extractBoundary contentTypeHeader ≠ []) {i : Nat}
    (hi : findFrom (delimiterOf contentTypeHeader) body 0 = some i) :
    roundsOf body contentTypeHeader (generous body hsize) =
      rounds (addPart (generous body hsize)) body (delimiterOf contentTypeHeader) body.length
        (i + (delimiterOf contentTypeHeader).length)
        { boundary := extractBoundary contentTypeHeader } := by
  rw [delimiterOf] at hi
  rw [roundsOf, if_neg (show ¬ body.length > (generous body hsize).maxTotalSize from
    Nat.lt_irrefl _)]
  dsimp only
  rw [if_neg hb, hi]
  rfl

/-! ## Splitting at delimiter lines -/

/-- A body that is split at delimiter lines under every limits is clean. -/
theorem clean_of_splits {body contentTypeHeader : Bytes} (hsize : body.length < 2 ^ 64)
    (hb : extractBoundary contentTypeHeader ≠ [])
    (h : SplitsAtLines body contentTypeHeader (generous body hsize)) :
    Clean (delimiterOf contentTypeHeader) body := by
  have hd := delimiterOf_dashed contentTypeHeader
  have hne : delimiterOf contentTypeHeader ≠ [] := cons_ne_nil _ _
  -- the first delimiter is a line, and a live line has its round among those of the loop
  have hfirst : ∀ {i : Nat}, Occurs (delimiterOf contentTypeHeader) body i →
      ∃ c ≤ i, findFrom (delimiterOf contentTypeHeader) body 0 = some c ∧
        Line (delimiterOf contentTypeHeader) body c := by
    intro i hi
    obtain ⟨c, hc⟩ := findFrom_of_occurs hi (Nat.zero_le i)
    refine ⟨c, ?_, hc, h.opening (Nat.le_refl _) hb c hc⟩
    by_contra hlt
    exact (findFrom_some hc (Nat.zero_le _)).2.2.2 i (Nat.zero_le i) (Nat.not_le.mp hlt) hi
  have hround : ∀ {l j s i : Nat}, Live (delimiterOf contentTypeHeader) body l →
      headerEnd body (skipLineBreak body (l + (delimiterOf contentTypeHeader).length)) =
        some (j, s) →
      s ≤ i → Occurs (delimiterOf contentTypeHeader) body i →
      ∃ n, s ≤ n ∧ n ≤ i ∧ AtLines (delimiterOf contentTypeHeader) body
        ⟨l + (delimiterOf contentTypeHeader).length, j, s, n⟩ := by
    intro l j s i hl hend hsi hi
    obtain ⟨n, hn⟩ := findFrom_of_occurs hi hsi
    have hsearch : searches body (delimiterOf contentTypeHeader)
        (l + (delimiterOf contentTypeHeader).length) =
          some ⟨l + (delimiterOf contentTypeHeader).length, j, s, n⟩ := by
      rw [searches, hend]
      dsimp only
      rw [hn]
      rfl
    obtain ⟨-, -, -, hstart, -, -, -, -, hbefore⟩ :=
      searches_some hsearch (hl.line.stands.inside hne)
    obtain ⟨c, hcl, hc, hcline⟩ := hfirst hl.line.stands
    have hmem := rounds_visit (f := { boundary := extractBoundary contentTypeHeader }) hd hsize
      hl hsearch (Nat.le_add_right _ _) (by simp [Room]) hcline hcl
      (fun r hr => h.rounds r (by rw [roundsOf_generous hb hc]; exact hr))
    refine ⟨n, hstart, ?_, h.rounds _ (by rw [roundsOf_generous hb hc]; exact hmem)⟩
    by_contra hlt
    exact hbefore i hsi (Nat.not_le.mp hlt) hi
  refine ⟨?_, ?_, ?_, ?_⟩
  · intro i hi hnone
    obtain ⟨c, hci, -, hline⟩ := hfirst hi
    rcases Nat.lt_or_eq_of_le hci with hlt | rfl
    · exact absurd hline (hnone c hlt)
    · exact hline
  · intro l hl j s hend i hsi hi hnone
    obtain ⟨n, hsn, hni, hlines⟩ := hround hl hend hsi hi
    rcases Nat.lt_or_eq_of_le hni with hlt | rfl
    · exact absurd hlines.line (hnone n hsn hlt)
    · exact hlines.line
  · intro l hl j s hend i hsi hi
    obtain ⟨n, -, -, hlines⟩ := hround hl hend hsi hi
    exact hlines.headers
  · -- the content of an empty part would be all the rest of the body
    intro l hl j s hend hi
    obtain ⟨n, hsn, hns, hlines⟩ := hround hl hend (Nat.le_refl s) hi
    obtain rfl : n = s := Nat.le_antisymm hns hsn
    obtain ⟨-, -, hinside⟩ := skipLineBreak_le body (l + (delimiterOf contentTypeHeader).length)
    obtain ⟨-, hjs, hlong, -, hlf⟩ := headerEnd_some hend (hinside (hl.line.stands.inside hne))
    have hcontent : (Round.part body (delimiterOf contentTypeHeader)
        ⟨l + (delimiterOf contentTypeHeader).length, j, n, n⟩).content = body.drop n :=
      empty_part_content hsize hlf (Nat.le_trans (Nat.le_add_left 2 j) hjs) rfl
    have hintact := hlines.intact
    rw [hcontent] at hintact
    have hlength := congrArg List.length hintact
    have hstands := hi.inside hne
    have hd := hd.1
    rw [length_drop, substr, length_take] at hlength
    dsimp only at hlength hstands
    omega

/-- A clean body is split at delimiter lines under every limits. -/
theorem splits_of_clean {body contentTypeHeader : Bytes} {limits : MultipartLimits}
    (h : extractBoundary contentTypeHeader ≠ [] → Clean (delimiterOf contentTypeHeader) body) :
    SplitsAtLines body contentTypeHeader limits := by
  have hopening : extractBoundary contentTypeHeader ≠ [] → ∀ {i},
      findFrom (delimiterOf contentTypeHeader) body 0 = some i →
      Line (delimiterOf contentTypeHeader) body i ∧
        ∀ m < i, ¬ Line (delimiterOf contentTypeHeader) body m := by
    intro hb i hi
    obtain ⟨-, -, hstands, hbefore⟩ := findFrom_some hi (Nat.zero_le _)
    have hnone : ∀ m < i, ¬ Line (delimiterOf contentTypeHeader) body m :=
      fun m hm hline => hbefore m (Nat.zero_le m) hm hline.stands
    exact ⟨(h hb).opening i hstands hnone, hnone⟩
  refine ⟨fun _ hb i hi => (hopening hb hi).1, ?_⟩
  intro r hr
  obtain ⟨hsize, -, -⟩ := roundsOf_searches hr
  rw [roundsOf] at hr
  split at hr
  · exact absurd hr not_mem_nil
  · dsimp only at hr
    split at hr
    · exact absurd hr not_mem_nil
    · next hb =>
      split at hr
      · exact absurd hr not_mem_nil
      · next i hi =>
        obtain ⟨hline, hnone⟩ := hopening hb hi
        exact (h hb).rounds (delimiterOf_dashed contentTypeHeader) hsize hline
          (fun m hm hmline => absurd hmline (hnone m hm)) r hr

/-- **Only delimiter lines separate parts**: for every body and content type the body is split
    at delimiter lines only, under all limits, exactly if it is clean. -/
theorem splits_at_lines_iff (body contentTypeHeader : Bytes) (hsize : body.length < 2 ^ 64) :
    (∀ limits, SplitsAtLines body contentTypeHeader limits) ↔
      (extractBoundary contentTypeHeader ≠ [] → Clean (delimiterOf contentTypeHeader) body) := by
  constructor
  · intro h hb
    exact clean_of_splits hsize hb (h _)
  · intro h limits
    exact splits_of_clean h

/-- A body with one part. -/
theorem splits_at_lines_iff_one :
    (text "--b\r\nA: b\r\n\r\nx\r\n--b--").length < 2 ^ 64 ∧
    ((∀ limits, SplitsAtLines (text "--b\r\nA: b\r\n\r\nx\r\n--b--") (text "boundary=b") limits) ↔
      (extractBoundary (text "boundary=b") ≠ [] →
        Clean (delimiterOf (text "boundary=b")) (text "--b\r\nA: b\r\n\r\nx\r\n--b--"))) :=
  ⟨by decide, splits_at_lines_iff _ _ (by decide)⟩

/-- A content with the text of the delimiter in the middle of a line: the part ends there. -/
theorem delimiter_text_splits :
    ¬ SplitsAtLines
      (text "--b\r\nContent-Disposition: form-data; name=\"a\"\r\n\r\nx--by\r\n--b--\r\n")
      (text "multipart/form-data; boundary=b") {} := by
  intro h
  have hlines := h.rounds ⟨3, 45, 49, 50⟩ (by decide)
  have hbefore := hlines.line.before (by decide)
  exact absurd hbefore.2.2 (by decide)

end MultipartLines
