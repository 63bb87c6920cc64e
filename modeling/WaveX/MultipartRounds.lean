import WaveX.Multipart

/-! # The rounds of the part loop

    A round of the loop of `MultipartFormData::parse` looks for the end of the headers, for
    the delimiter that follows, and cuts the content out between them with 64-bit
    differences.  `parse_async` runs the same loop and leaves the writing of large files to
    tasks; the rounds of both are the ones that are listed here. -/

namespace MultipartRounds

open QuicVarInt HttpText Multipart List

/-! ## Rounds -/

/-- The variables of a round: where it begins, behind a delimiter, `header_end`,
    `body_start` and `next_boundary`. -/
structure Round where
  pos : Nat
  headerEnd : Nat
  bodyStart : Nat
  nextBoundary : Nat
  deriving DecidableEq, Repr

/-- The searches of a round, `none` when one of them fails. -/
def searches (body delimiter : Bytes) (pos : Nat) : Option Round :=
  match headerEnd body (skipLineBreak body pos) with
  | none => none
  | some (headerEnd, bodyStart) =>
      (findFrom delimiter body bodyStart).map fun nextBoundary =>
        ⟨pos, headerEnd, bodyStart, nextBoundary⟩

/-- What the round cuts out. -/
def Round.part (body delimiter : Bytes) (r : Round) : Part where
  headers := substr body (skipLineBreak body r.pos) (r.headerEnd - skipLineBreak body r.pos)
  content := substr body r.bodyStart (sizeDiff (partEnd body r.nextBoundary) r.bodyStart)
  next := r.nextBoundary + delimiter.length

theorem nextPart_eq (body delimiter : Bytes) (pos : Nat) :
    nextPart body delimiter pos =
      (searches body delimiter pos).map (Round.part body delimiter) := by
  rw [nextPart, searches]
  cases headerEnd body (skipLineBreak body pos) with
  | none => rfl
  | some found =>
    obtain ⟨headerEnd, bodyStart⟩ := found
    dsimp only
    cases findFrom delimiter body bodyStart with
    | none => rfl
    | some nextBoundary => rfl

/-- Whether the loop makes a round: it is not at the end, nor at a closing delimiter. -/
def goesOn (body : Bytes) (pos : Nat) : Bool :=
  decide (pos < body.length) && !(pos + 2 ≤ body.length && substr body pos 2 = text "--")

/-- The two checks at the head of the loop. -/
theorem goesOn_ite {α : Type*} (body : Bytes) (pos : Nat) (x y : α) :
    (if body.length ≤ pos then y
      else if pos + 2 ≤ body.length && substr body pos 2 = text "--" then y else x) =
    if goesOn body pos then x else y := by
  rw [goesOn]
  by_cases hend : body.length ≤ pos
  · rw [if_pos hend, decide_eq_false (Nat.not_lt.mpr hend)]
    rfl
  · rw [if_neg hend, decide_eq_true (Nat.not_le.mp hend)]
    cases (decide (pos + 2 ≤ body.length) && decide (substr body pos 2 = text "--")) <;> rfl

variable {σ : Type*}

/-- The rounds of a loop that does `join` with each part, until that fails. -/
def rounds (join : σ → Part → Option σ) (body delimiter : Bytes) : Nat → Nat → σ → List Round
  | 0, _, _ => []
  | fuel + 1, pos, f =>
      if goesOn body pos then
        match searches body delimiter pos with
        | none => []
        | some r =>
            r :: match join f (r.part body delimiter) with
              | none => []
              | some f => rounds join body delimiter fuel (r.nextBoundary + delimiter.length) f
      else []

/-- The parts join the form one by one. -/
def joinAll (limits : MultipartLimits) : MultipartFormData → List Part → MultipartFormData
  | f, [] => f
  | f, p :: rest =>
      match addPart limits f p with
      | none => { f with valid := false }
      | some f => joinAll limits f rest

/-- The form that the loop returns is made of the parts of its rounds. -/
theorem partLoop_eq (limits : MultipartLimits) (body delimiter : Bytes) (fuel pos : Nat)
    (f : MultipartFormData) :
    partLoop limits body delimiter fuel pos f = joinAll limits f
      ((rounds (addPart limits) body delimiter fuel pos f).map (Round.part body delimiter)) := by
  induction fuel generalizing pos f with
  | zero => rfl
  | succ fuel ih =>
    rw [partLoop, goesOn_ite, rounds, nextPart_eq]
    cases goesOn body pos with
    | false => rfl
    | true =>
      cases searches body delimiter pos with
      | none => rfl
      | some r =>
        rw [if_pos rfl, if_pos rfl, Option.map_some]
        dsimp only
        rw [map_cons, joinAll]
        cases addPart limits f (r.part body delimiter) with
        | none => rfl
        | some f => exact ih _ f

/-- The rounds of `parse`. -/
def roundsOf (body contentTypeHeader : Bytes) (limits : MultipartLimits) : List Round :=
  if body.length > limits.maxTotalSize then []
  else
    let boundary := extractBoundary contentTypeHeader
    if boundary = [] then []
    else
      let delimiter := text "--" ++ boundary
      match findFrom delimiter body 0 with
      | none => []
      | some pos =>
          rounds (addPart limits) body delimiter body.length (pos + delimiter.length) { boundary }

/-- The delimiter that a content type asks for. -/
def delimiterOf (contentTypeHeader : Bytes) : Bytes :=
  text "--" ++ extractBoundary contentTypeHeader

/-! ## The asynchronous loop -/

/-- The form of `parse_async` with its tasks: the place of a file, and what is to be
    written there. -/
structure Spooling where
  form : MultipartFormData
  tasks : List (Nat × Bytes) := []

/-- A part joins the form of `parse_async`; a large file is left to a task. -/
def addPartAsync (limits : MultipartLimits) (s : Spooling) (p : Part) : Option Spooling :=
  let disposition := extractHeaderValue p.headers (text "Content-Disposition")
  let contentType := extractHeaderValue p.headers (text "Content-Type")
  let name := extractParameter disposition (text "name")
  let filename := extractParameter disposition (text "filename")
  if name = [] then some s
  else if s.form.files.length + s.form.fields.length ≥ limits.maxParts then none
  else if filename = [] then
    some { s with form := { s.form with fields := s.form.fields ++ [⟨name, p.content⟩] } }
  else if s.form.files.length ≥ limits.maxFiles then none
  else if p.content.length > limits.maxFileSize then none
  else
    let large := p.content.length > limits.maxMemoryBuffer
    some {
      form := { s.form with
        files := s.form.files ++ [{
          name, filename
          contentType :=
            if contentType = [] then text "application/octet-stream" else contentType
          content := if large then [] else p.content
          onDisk := large }] }
      tasks := if large then s.tasks ++ [(s.form.files.length, p.content)] else s.tasks }

/-- The rounds of `parse_async`. -/
def roundsOfAsync (body contentTypeHeader : Bytes) (limits : MultipartLimits) : List Round :=
  if body.length > limits.maxTotalSize then []
  else
    let boundary := extractBoundary contentTypeHeader
    if boundary = [] then []
    else
      let delimiter := text "--" ++ boundary
      match findFrom delimiter body 0 with
      | none => []
      | some pos =>
          rounds (addPartAsync limits) body delimiter body.length (pos + delimiter.length)
            { form := { boundary } }

/-- The two forms have as many files and fields. -/
def SameCounts (f : MultipartFormData) (s : Spooling) : Prop :=
  s.form.files.length = f.files.length ∧ s.form.fields.length = f.fields.length

/-- A part joins both forms or neither. -/
theorem addPartAsync_counts (limits : MultipartLimits) {f : MultipartFormData} {s : Spooling}
    (h : SameCounts f s) (p : Part) :
    (addPart limits f p = none ∧ addPartAsync limits s p = none) ∨
      ∃ f' s', addPart limits f p = some f' ∧ addPartAsync limits s p = some s' ∧
        SameCounts f' s' := by
  obtain ⟨hfiles, hfields⟩ := h
  rw [addPart, addPartAsync]
  dsimp only
  rw [hfiles, hfields]
  split
  · exact .inr ⟨f, s, rfl, rfl, hfiles, hfields⟩
  · split
    · exact .inl ⟨rfl, rfl⟩
    · split
      · refine .inr ⟨_, _, rfl, rfl, hfiles, ?_⟩
        rw [length_append, length_append, hfields]
      · split
        · exact .inl ⟨rfl, rfl⟩
        · split
          · exact .inl ⟨rfl, rfl⟩
          · refine .inr ⟨_, _, rfl, rfl, ?_, hfields⟩
            rw [length_append, length_append, hfiles]
            rfl

theorem rounds_async (limits : MultipartLimits) (body delimiter : Bytes) (fuel pos : Nat)
    {f : MultipartFormData} {s : Spooling} (h : SameCounts f s) :
    rounds (addPartAsync limits) body delimiter fuel pos s =
      rounds (addPart limits) body delimiter fuel pos f := by
  induction fuel generalizing pos f s with
  | zero => rfl
  | succ fuel ih =>
    rw [rounds, rounds]
    cases goesOn body pos with
    | false => rfl
    | true =>
      cases searches body delimiter pos with
      | none => rfl
      | some r =>
        dsimp only
        rcases addPartAsync_counts limits h (r.part body delimiter) with
          ⟨hf, hs⟩ | ⟨f', s', hf, hs, h'⟩
        · rw [hf, hs]
        · rw [hf, hs]
          dsimp only
          rw [ih _ h']

/-- Both loops make the same rounds. -/
theorem roundsOfAsync_eq (body contentTypeHeader : Bytes) (limits : MultipartLimits) :
    roundsOfAsync body contentTypeHeader limits = roundsOf body contentTypeHeader limits := by
  rw [roundsOfAsync, roundsOf]
  dsimp only
  split
  · rfl
  · split
    · rfl
    · cases findFrom (text "--" ++ extractBoundary contentTypeHeader) body 0 with
      | none => rfl
      | some pos => exact rounds_async limits body _ _ _ ⟨rfl, rfl⟩

/-! ## What the searches find -/

/-- A text is found where it stands, and nowhere before. -/
theorem findText_some {pattern s : Bytes} {n : Nat} (h : findText pattern s = some n) :
    pattern <+: s.drop n ∧ n ≤ s.length ∧ ∀ i < n, ¬ pattern <+: s.drop i := by
  induction s generalizing n with
  | nil =>
    rw [findText] at h
    split at h
    · next hnil =>
      obtain rfl := Option.some.inj h
      rw [hnil]
      exact ⟨List.nil_prefix, Nat.le_refl _, fun i hi => absurd hi (Nat.not_lt_zero i)⟩
    · cases h
  | cons b s ih =>
    rw [findText] at h
    split at h
    · next hstart =>
      obtain rfl := Option.some.inj h
      exact ⟨List.isPrefixOf_iff_prefix.mp hstart, Nat.zero_le _,
        fun i hi => absurd hi (Nat.not_lt_zero i)⟩
    · next hstart =>
      obtain ⟨m, hm, rfl⟩ := Option.map_eq_some_iff.mp h
      obtain ⟨hat, hle, hbefore⟩ := ih hm
      refine ⟨hat, Nat.succ_le_succ hle, ?_⟩
      intro i hi
      cases i with
      | zero => exact fun hp => hstart (List.isPrefixOf_iff_prefix.mpr hp)
      | succ i => exact hbefore i (Nat.lt_of_succ_lt_succ hi)

/-- The text stands at a position of the body. -/
def Occurs (pattern body : Bytes) (i : Nat) : Prop := pattern <+: body.drop i

variable {pattern body : Bytes}

/-- The bytes of a text where it stands. -/
theorem Occurs.byte {i k : Nat} (h : Occurs pattern body i) (hk : k < pattern.length) :
    body[i + k]? = pattern[k]? := by
  obtain ⟨rest, hrest⟩ := h
  rw [← getElem?_drop, ← hrest, getElem?_append_left hk]

theorem Occurs.inside {i : Nat} (h : Occurs pattern body i) (hne : pattern ≠ []) :
    i + pattern.length ≤ body.length := by
  obtain ⟨rest, hrest⟩ := h
  have hlen := congrArg List.length hrest
  have hpos := length_pos_iff.mpr hne
  rw [length_append, length_drop] at hlen
  omega

/-- The loop goes on behind a delimiter that neither closes nor ends the body. -/
theorem goesOn_iff {body : Bytes} {pos : Nat} :
    goesOn body pos = true ↔ pos < body.length ∧ ¬ Occurs (text "--") body pos := by
  have hclosing : Occurs (text "--") body pos ↔
      (decide (pos + 2 ≤ body.length) && decide (substr body pos 2 = text "--")) = true := by
    rw [Bool.and_eq_true, decide_eq_true_eq, decide_eq_true_eq, substr]
    constructor
    · intro h
      exact ⟨h.inside (cons_ne_nil _ _), (prefix_iff_eq_take.mp h).symm⟩
    · rintro ⟨-, h⟩
      exact prefix_iff_eq_take.mpr h.symm
  rw [goesOn, Bool.and_eq_true, decide_eq_true_eq, Bool.not_eq_true', hclosing, Bool.not_eq_true]

theorem findFrom_some {pos n : Nat} (h : findFrom pattern body pos = some n)
    (hpos : pos ≤ body.length) :
    pos ≤ n ∧ n ≤ body.length ∧ Occurs pattern body n ∧
      ∀ i, pos ≤ i → i < n → ¬ Occurs pattern body i := by
  obtain ⟨m, hm, rfl⟩ := Option.map_eq_some_iff.mp h
  obtain ⟨hat, hle, hbefore⟩ := findText_some hm
  rw [length_drop] at hle
  rw [drop_drop] at hat
  refine ⟨Nat.le_add_right _ _, by omega, hat, ?_⟩
  intro i hi hlt hp
  refine hbefore (i - pos) (by omega) ?_
  rw [drop_drop, Nat.add_sub_cancel' hi]
  exact hp

theorem findFrom_none {pos : Nat} (h : findFrom pattern body pos = none) {i : Nat} (hi : pos ≤ i) :
    ¬ Occurs pattern body i := by
  intro hp
  have hnone : findText pattern (body.drop pos) = none := Option.map_eq_none_iff.mp h
  have hsome := findText_isSome.mpr (show pattern <:+: body.drop pos from ?_)
  · rw [hnone] at hsome
    cases hsome
  · have hdrop : body.drop i = (body.drop pos).drop (i - pos) := by
      rw [drop_drop, Nat.add_sub_cancel' hi]
    rw [Occurs, hdrop] at hp
    exact hp.isInfix.trans (drop_suffix _ _).isInfix

/-- A text that stands behind `pos` is found. -/
theorem findFrom_of_occurs {pos i : Nat} (h : Occurs pattern body i) (hi : pos ≤ i) :
    ∃ n, findFrom pattern body pos = some n := by
  cases hn : findFrom pattern body pos with
  | none => exact absurd h (findFrom_none hn hi)
  | some n => exact ⟨n, rfl⟩

theorem skipLineBreak_le (body : Bytes) (pos : Nat) :
    pos ≤ skipLineBreak body pos ∧ skipLineBreak body pos ≤ pos + 2 ∧
      (pos ≤ body.length → skipLineBreak body pos ≤ body.length) := by
  have hinside : ∀ {i : Nat} {c : UInt8}, body[i]? = some c → i < body.length :=
    fun h => (List.getElem?_eq_some_iff.mp h).1
  rw [skipLineBreak]
  by_cases hcr : body[pos]? = some cr
  · have hfirst := hinside hcr
    rw [if_pos hcr]
    by_cases hlf : body[pos + 1]? = some lf
    · have hsecond := hinside hlf
      rw [if_pos hlf]
      omega
    · rw [if_neg hlf]
      omega
  · rw [if_neg hcr]
    by_cases hlf : body[pos]? = some lf
    · have hfirst := hinside hlf
      rw [if_pos hlf]
      omega
    · rw [if_neg hlf]
      omega

/-- Where the headers end: at a blank line, whose last byte is a line feed. -/
theorem headerEnd_some {body : Bytes} {pos j s : Nat} (h : headerEnd body pos = some (j, s))
    (hpos : pos ≤ body.length) :
    pos ≤ j ∧ j + 2 ≤ s ∧ s ≤ j + 4 ∧ s ≤ body.length ∧ body[s - 1]? = some lf := by
  rw [headerEnd] at h
  cases hcrlf : findFrom (crlf ++ crlf) body pos with
  | some n =>
    rw [hcrlf] at h
    obtain ⟨rfl, rfl⟩ := Prod.mk.inj (Option.some.inj h)
    obtain ⟨hle, hlen, hat, -⟩ := findFrom_some hcrlf hpos
    have hfit : n + 4 ≤ body.length := hat.inside (cons_ne_nil _ _)
    exact ⟨hle, by omega, by omega, hfit, hat.byte (show 3 < (crlf ++ crlf).length by decide)⟩
  | none =>
    rw [hcrlf] at h
    obtain ⟨n, hn, heq⟩ := Option.map_eq_some_iff.mp h
    obtain ⟨rfl, rfl⟩ := Prod.mk.inj heq
    obtain ⟨hle, hlen, hat, -⟩ := findFrom_some hn hpos
    have hfit : n + 2 ≤ body.length := hat.inside (cons_ne_nil _ _)
    exact ⟨hle, by omega, by omega, hfit, hat.byte (show 1 < [lf, lf].length by decide)⟩

/-- The positions of a round: forward, and inside the body. -/
theorem searches_some {body delimiter : Bytes} {pos : Nat} {r : Round}
    (h : searches body delimiter pos = some r) (hpos : pos ≤ body.length) :
    r.pos = pos ∧ pos ≤ r.headerEnd ∧ r.headerEnd < r.bodyStart ∧
      r.bodyStart ≤ r.nextBoundary ∧ r.nextBoundary ≤ body.length ∧
      headerEnd body (skipLineBreak body pos) = some (r.headerEnd, r.bodyStart) ∧
      body[r.bodyStart - 1]? = some lf ∧
      Occurs delimiter body r.nextBoundary ∧
      ∀ i, r.bodyStart ≤ i → i < r.nextBoundary → ¬ Occurs delimiter body i := by
  obtain ⟨hskip, -, hinside⟩ := skipLineBreak_le body pos
  rw [searches] at h
  split at h
  · cases h
  · next j s hend =>
    obtain ⟨n, hn, rfl⟩ := Option.map_eq_some_iff.mp h
    obtain ⟨hle, hlong, -, hfit, hlf⟩ := headerEnd_some hend (hinside hpos)
    obtain ⟨hstart, hnext, hat, hbefore⟩ := findFrom_some hn hfit
    exact ⟨rfl, by dsimp only; omega, by dsimp only; omega, hstart, hnext, hend, hlf, hat, hbefore⟩

/-! ## The bounds of a part -/

/-- The contract of a round: the content lies between the blank line and the delimiter, and
    the next round begins further on. -/
structure InBounds (body delimiter : Bytes) (r : Round) : Prop where
  startsBefore : r.bodyStart ≤ partEnd body r.nextBoundary
  endsBefore : partEnd body r.nextBoundary ≤ r.nextBoundary
  content : (r.part body delimiter).content =
    substr body r.bodyStart (partEnd body r.nextBoundary - r.bodyStart)
  advances : r.pos < (r.part body delimiter).next

/-- The delimiter stands right behind the blank line that ends the headers. -/
def EmptyPart (body delimiter : Bytes) (pos : Nat) : Prop :=
  ∃ j s, headerEnd body (skipLineBreak body pos) = some (j, s) ∧ Occurs delimiter body s

theorem partEnd_le (body : Bytes) (n : Nat) : partEnd body n ≤ n ∧ n ≤ partEnd body n + 2 := by
  rw [partEnd]
  split
  · next h =>
    rw [Bool.and_eq_true, decide_eq_true_eq] at h
    omega
  · split
    · next h =>
      rw [Bool.and_eq_true, decide_eq_true_eq] at h
      omega
    · omega

/-- A line feed in front of the delimiter is not part of the content. -/
theorem partEnd_lf {body : Bytes} {n : Nat} (hn : 0 < n) (h : body[n - 1]? = some lf) :
    partEnd body n < n := by
  rw [partEnd]
  split
  · next hcrlf =>
    rw [Bool.and_eq_true, decide_eq_true_eq] at hcrlf
    omega
  · rw [h, decide_eq_true (show n ≥ 1 from hn)]
    show n - 1 < n
    omega

/-- A carriage return that is trimmed stands behind the blank line. -/
theorem le_partEnd {body : Bytes} {s n : Nat} (hs : body[s - 1]? = some lf) (hpos : 0 < s)
    (hlt : s < n) : s ≤ partEnd body n := by
  rw [partEnd]
  split
  · next hcrlf =>
    rw [Bool.and_eq_true, decide_eq_true_eq, decide_eq_true_eq] at hcrlf
    obtain ⟨-, hbreak⟩ := hcrlf
    by_contra hshort
    obtain rfl : n = s + 1 := by omega
    -- the byte before the content is a line feed
    have hhead := congrArg (fun l : Bytes => l[0]?) hbreak
    have hbyte : (substr body (s + 1 - 2) 2)[0]? = body[s - 1]? := by
      rw [substr, getElem?_take_of_lt (by omega), getElem?_drop, Nat.add_zero]
      rfl
    rw [hbyte, hs] at hhead
    exact absurd hhead (by decide)
  · split <;> omega

/-- The content of an empty part is all the rest of the body: the difference wraps. -/
theorem empty_part_content {body delimiter : Bytes} {r : Round} (hsize : body.length < 2 ^ 64)
    (hs : body[r.bodyStart - 1]? = some lf) (hpos : 2 ≤ r.bodyStart)
    (hempty : r.nextBoundary = r.bodyStart) :
    (r.part body delimiter).content = body.drop r.bodyStart := by
  have hlt := partEnd_lf (by omega) hs
  have hle := partEnd_le body r.bodyStart
  have hdiff : body.length - r.bodyStart ≤ sizeDiff (partEnd body r.bodyStart) r.bodyStart := by
    rw [sizeDiff]
    omega
  rw [Round.part]
  dsimp only
  rw [hempty, substr, take_of_length_le]
  rw [length_drop]
  exact hdiff

/-- A round keeps its bounds unless its part is empty. -/
theorem inBounds_iff {body delimiter : Bytes} {pos : Nat} {r : Round}
    (hsize : body.length < 2 ^ 64) (hpos : pos ≤ body.length)
    (h : searches body delimiter pos = some r) :
    InBounds body delimiter r ↔ ¬ EmptyPart body delimiter r.pos := by
  obtain ⟨hr, hstart, hblank, hcontent, hnext, hend, hlf, hat, hbefore⟩ := searches_some h hpos
  have hempty : EmptyPart body delimiter r.pos ↔ r.nextBoundary = r.bodyStart := by
    rw [EmptyPart, hr]
    constructor
    · rintro ⟨j, s, hend', hs⟩
      obtain ⟨-, rfl⟩ := Prod.mk.inj (Option.some.inj (hend'.symm.trans hend))
      by_contra hne
      exact hbefore _ (Nat.le_refl _) (by omega) hs
    · intro heq
      exact ⟨_, _, hend, heq ▸ hat⟩
  rw [hempty]
  constructor
  · intro hbounds heq
    have hlt := partEnd_lf (by omega) hlf
    have hle := hbounds.startsBefore
    rw [heq] at hle
    omega
  · intro hne
    have hle := le_partEnd hlf (by omega) (show r.bodyStart < r.nextBoundary by omega)
    obtain ⟨hend, -⟩ := partEnd_le body r.nextBoundary
    refine ⟨hle, hend, ?_, ?_⟩
    · rw [Round.part, sizeDiff]
      dsimp only
      congr 1
      omega
    · show r.pos < r.nextBoundary + delimiter.length
      omega

variable {join : σ → Part → Option σ}

/-- Every round of a loop found what it looked for. -/
theorem rounds_searches {body delimiter : Bytes} {fuel pos : Nat} {f : σ} {r : Round}
    (h : r ∈ rounds join body delimiter fuel pos f) :
    r.pos ≤ body.length ∧ searches body delimiter r.pos = some r := by
  induction fuel generalizing pos f with
  | zero => exact absurd h not_mem_nil
  | succ fuel ih =>
    rw [rounds] at h
    split at h
    · next hgoes =>
      have hpos : pos < body.length := (goesOn_iff.mp hgoes).1
      split at h
      · exact absurd h not_mem_nil
      · next r' hr' =>
        rcases mem_cons.mp h with rfl | h
        · obtain ⟨hr, -⟩ := searches_some hr' hpos.le
          rw [hr]
          exact ⟨hpos.le, hr'⟩
        · split at h
          · exact absurd h not_mem_nil
          · exact ih h
    · exact absurd h not_mem_nil

/-- The rounds of `parse` are rounds of its loop, over a body whose size is a number of 64
    bits. -/
theorem roundsOf_searches {body contentTypeHeader : Bytes} {limits : MultipartLimits} {r : Round}
    (h : r ∈ roundsOf body contentTypeHeader limits) :
    body.length < 2 ^ 64 ∧ r.pos ≤ body.length ∧
      searches body (delimiterOf contentTypeHeader) r.pos = some r := by
  rw [roundsOf] at h
  split at h
  · exact absurd h not_mem_nil
  · next hsize =>
    have hfits := limits.fits
    dsimp only at h
    split at h
    · exact absurd h not_mem_nil
    · split at h
      · exact absurd h not_mem_nil
      · exact ⟨by omega, rounds_searches h⟩

/-- **The bounds of parts**: for every body, content type and limits the rounds of `parse`
    and of `parse_async` keep their bounds exactly if none comes to a part whose delimiter
    stands right behind the blank line. -/
theorem part_bounds_iff (body contentTypeHeader : Bytes) (limits : MultipartLimits) :
    ((∀ r ∈ roundsOf body contentTypeHeader limits,
        InBounds body (delimiterOf contentTypeHeader) r) ∧
      ∀ r ∈ roundsOfAsync body contentTypeHeader limits,
        InBounds body (delimiterOf contentTypeHeader) r) ↔
      ∀ r ∈ roundsOf body contentTypeHeader limits,
        ¬ EmptyPart body (delimiterOf contentTypeHeader) r.pos := by
  rw [roundsOfAsync_eq, and_self]
  refine forall₂_congr fun r hr => ?_
  obtain ⟨hsize, hpos, hsearches⟩ := roundsOf_searches hr
  exact inBounds_iff hsize hpos hsearches

/-- An empty field, whose delimiter follows the blank line: the content that is cut out
    begins behind the blank line and has no end. -/
theorem empty_part_out_of_bounds :
    ¬ ∀ r ∈ roundsOf (text "--b\r\nContent-Disposition: form-data; name=\"a\"\r\n\r\n--b--\r\n")
        (text "multipart/form-data; boundary=b") {},
      InBounds (text "--b\r\nContent-Disposition: form-data; name=\"a\"\r\n\r\n--b--\r\n")
        (delimiterOf (text "multipart/form-data; boundary=b")) r := by
  intro h
  have hbounds := h ⟨3, 45, 49, 49⟩ (by decide)
  exact absurd hbounds.startsBefore (by decide)

end MultipartRounds
