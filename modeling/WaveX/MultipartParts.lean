import WaveX.MultipartRounds

/-! # The parts of a body

    What the searches of the part loop find in a body does not depend on the limits: a chain
    of complete parts, from behind the first delimiter to where the loop stops.  Whether a
    part exceeds a limit depends on how many named parts and files come before it, and the
    first one that does ends the loop. -/

namespace MultipartParts

open QuicVarInt HttpText Multipart MultipartRounds List

/-! ## The chain of parts -/

/-- Complete parts follow each other from one position to another, each with its headers, a
    blank line, a content and a delimiter. -/
inductive Chain (body delimiter : Bytes) : Nat → List Round → Nat → Prop
  | nil (pos : Nat) : Chain body delimiter pos [] pos
  | cons {pos stop : Nat} {r : Round} {rest : List Round} :
      goesOn body pos = true → searches body delimiter pos = some r →
        Chain body delimiter (r.nextBoundary + delimiter.length) rest stop →
          Chain body delimiter pos (r :: rest) stop

/-- The loop makes no round at a position. -/
def Stops (body delimiter : Bytes) (pos : Nat) : Prop :=
  goesOn body pos = false ∨ searches body delimiter pos = none

/-- The rounds of the loop without limits, for at most so many, and where it stops. -/
def walk (body delimiter : Bytes) : Nat → Nat → List Round × Nat
  | 0, pos => ([], pos)
  | rounds + 1, pos =>
      if goesOn body pos then
        match searches body delimiter pos with
        | none => ([], pos)
        | some r =>
            let (rest, stop) := walk body delimiter rounds (r.nextBoundary + delimiter.length)
            (r :: rest, stop)
      else ([], pos)

variable {body delimiter : Bytes}

theorem walk_chain (body delimiter : Bytes) (rounds pos : Nat) :
    Chain body delimiter pos (walk body delimiter rounds pos).1
      (walk body delimiter rounds pos).2 := by
  induction rounds generalizing pos with
  | zero => exact .nil pos
  | succ rounds ih =>
    rw [walk]
    cases hgoes : goesOn body pos with
    | false => exact .nil pos
    | true =>
      rw [if_pos rfl]
      cases hsearches : searches body delimiter pos with
      | none => exact .nil pos
      | some r => exact .cons hgoes hsearches (ih _)

/-- With a round for every byte the walk ends where the loop stops. -/
theorem walk_stops {rounds pos : Nat} (hd : delimiter ≠ []) (h : body.length ≤ pos + rounds) :
    Stops body delimiter (walk body delimiter rounds pos).2 := by
  induction rounds generalizing pos with
  | zero =>
    refine .inl ?_
    rw [walk, goesOn, decide_eq_false (by omega)]
    rfl
  | succ rounds ih =>
    rw [walk]
    cases hgoes : goesOn body pos with
    | false => exact .inl hgoes
    | true =>
      rw [if_pos rfl]
      cases hsearches : searches body delimiter pos with
      | none => exact .inr hsearches
      | some r =>
        have hpos : pos < body.length := (goesOn_iff.mp hgoes).1
        obtain ⟨-, hle, hlt, hstart, -⟩ := searches_some hsearches hpos.le
        have hlen := length_pos_iff.mpr hd
        exact ih (by omega)

/-- From a position there is one chain to where the loop stops. -/
theorem Chain.unique {pos stop stop' : Nat} {rs rs' : List Round}
    (h : Chain body delimiter pos rs stop) (h' : Chain body delimiter pos rs' stop')
    (hs : Stops body delimiter stop) (hs' : Stops body delimiter stop') :
    rs = rs' ∧ stop = stop' := by
  induction h generalizing rs' with
  | nil pos =>
    cases h' with
    | nil => exact ⟨rfl, rfl⟩
    | cons hgoes hsearches _ =>
      rcases hs with hs | hs
      · exact absurd (hgoes.symm.trans hs) (by decide)
      · exact absurd (hsearches.symm.trans hs) (by exact fun h => nomatch h)
  | cons hgoes hsearches _ ih =>
    cases h' with
    | nil =>
      rcases hs' with hs' | hs'
      · exact absurd (hgoes.symm.trans hs') (by decide)
      · exact absurd (hsearches.symm.trans hs') (by exact fun h => nomatch h)
    | cons _ hsearches' hrest' =>
      obtain rfl := Option.some.inj (hsearches.symm.trans hsearches')
      obtain ⟨rfl, rfl⟩ := ih hrest' hs
      exact ⟨rfl, rfl⟩

/-- The form that the loop returns is made of the parts of the walk. -/
theorem partLoop_walk (limits : MultipartLimits) (body delimiter : Bytes) (fuel pos : Nat)
    (f : MultipartFormData) :
    partLoop limits body delimiter fuel pos f =
      joinAll limits f ((walk body delimiter fuel pos).1.map (Round.part body delimiter)) := by
  induction fuel generalizing pos f with
  | zero => rfl
  | succ fuel ih =>
    rw [partLoop_eq, rounds, walk]
    cases goesOn body pos with
    | false => rfl
    | true =>
      cases searches body delimiter pos with
      | none => rfl
      | some r =>
        rw [if_pos rfl, if_pos rfl]
        dsimp only
        rw [map_cons, map_cons, joinAll, joinAll]
        cases addPart limits f (r.part body delimiter) with
        | none => rfl
        | some f =>
          dsimp only
          rw [← partLoop_eq]
          exact ih _ f

/-- The rounds of `parse` without limits, and where they end. -/
def walkOf (body contentTypeHeader : Bytes) (start : Nat) : List Round × Nat :=
  walk body (delimiterOf contentTypeHeader) body.length
    (start + (delimiterOf contentTypeHeader).length)

/-- `parse`, by the parts of the body. -/
theorem parse_eq {body contentTypeHeader : Bytes} {limits : MultipartLimits} {start : Nat}
    (hsize : body.length ≤ limits.maxTotalSize) (hboundary : extractBoundary contentTypeHeader ≠ [])
    (hstart : findFrom (delimiterOf contentTypeHeader) body 0 = some start) :
    parse body contentTypeHeader limits =
      joinAll limits { boundary := extractBoundary contentTypeHeader }
        ((walkOf body contentTypeHeader start).1.map
          (Round.part body (delimiterOf contentTypeHeader))) := by
  rw [delimiterOf] at hstart
  rw [parse, if_neg (Nat.not_lt.mpr hsize), if_neg hboundary]
  dsimp only
  rw [hstart]
  exact partLoop_walk _ _ _ _ _ _

/-- Where `parse` does not come to its loop, the form is invalid. -/
theorem parse_valid_start {body contentTypeHeader : Bytes} {limits : MultipartLimits}
    (h : (parse body contentTypeHeader limits).valid = true) :
    body.length ≤ limits.maxTotalSize ∧ extractBoundary contentTypeHeader ≠ [] ∧
      ∃ start, findFrom (delimiterOf contentTypeHeader) body 0 = some start := by
  rw [parse] at h
  split at h
  · cases h
  · next hsize =>
    dsimp only at h
    split at h
    · cases h
    · next hboundary =>
      split at h
      · cases h
      · next start hstart => exact ⟨Nat.not_lt.mp hsize, hboundary, start, hstart⟩

/-! ## Limits -/

/-- The part has a name. -/
def isNamed (p : Part) : Bool :=
  extractParameter (extractHeaderValue p.headers (text "Content-Disposition")) (text "name") ≠ []

/-- The part is a file: it has a filename too. -/
def isFile (p : Part) : Bool :=
  isNamed p &&
    extractParameter (extractHeaderValue p.headers (text "Content-Disposition"))
      (text "filename") ≠ []

/-- A part exceeds a limit behind these parts. -/
def exceeds (limits : MultipartLimits) (before : List Part) (p : Part) : Bool :=
  isNamed p && (limits.maxParts ≤ before.countP isNamed ||
    isFile p && (limits.maxFiles ≤ before.countP isFile || limits.maxFileSize < p.content.length))

/-- The file of a part. -/
def fileOf (limits : MultipartLimits) (p : Part) : UploadedFile :=
  let disposition := extractHeaderValue p.headers (text "Content-Disposition")
  let contentType := extractHeaderValue p.headers (text "Content-Type")
  { name := extractParameter disposition (text "name")
    filename := extractParameter disposition (text "filename")
    contentType := if contentType = [] then text "application/octet-stream" else contentType
    content := p.content
    onDisk := p.content.length > limits.maxMemoryBuffer }

/-- The form has a field or a file for each named part. -/
structure Counted (f : MultipartFormData) (before : List Part) : Prop where
  parts : f.files.length + f.fields.length = before.countP isNamed
  files : f.files.length = before.countP isFile

/-- The counts of a form with a part more, of which it takes a field or a file. -/
theorem Counted.snoc {f f' : MultipartFormData} {before : List Part} {p : Part}
    (h : Counted f before)
    (hparts : f'.files.length + f'.fields.length =
      f.files.length + f.fields.length + if isNamed p then 1 else 0)
    (hfiles : f'.files.length = f.files.length + if isFile p then 1 else 0) :
    Counted f' (before ++ [p]) := by
  have hone : ∀ q : Part → Bool, [p].countP q = if q p then 1 else 0 := fun q => by
    rw [countP_cons, countP_nil, Nat.zero_add]
  refine ⟨?_, ?_⟩
  · rw [hparts, countP_append, hone, h.parts]
  · rw [hfiles, countP_append, hone, h.files]

/-- A part exceeds a limit, or joins the form. -/
theorem addPart_cases (limits : MultipartLimits) {f : MultipartFormData} {before : List Part}
    (h : Counted f before) (p : Part) :
    (exceeds limits before p = true ∧ addPart limits f p = none) ∨
      (exceeds limits before p = false ∧ ∃ f', addPart limits f p = some f' ∧
        Counted f' (before ++ [p]) ∧ f'.valid = f.valid ∧
        f'.files = f.files ++ if isFile p then [fileOf limits p] else []) := by
  rw [addPart, exceeds, h.parts, h.files]
  by_cases hname : extractParameter (extractHeaderValue p.headers (text "Content-Disposition"))
      (text "name") = []
  · have hnamed : isNamed p = false := decide_eq_false (not_not.mpr hname)
    have hfile : isFile p = false := by rw [isFile, hnamed, Bool.false_and]
    rw [if_pos hname, hnamed, hfile]
    refine .inr ⟨rfl, f, rfl, h.snoc ?_ ?_, rfl, (append_nil _).symm⟩
    · rw [hnamed, if_neg Bool.false_ne_true, Nat.add_zero]
    · rw [hfile, if_neg Bool.false_ne_true, Nat.add_zero]
  · have hnamed : isNamed p = true := decide_eq_true hname
    rw [if_neg hname, hnamed, Bool.true_and]
    by_cases hparts : before.countP isNamed ≥ limits.maxParts
    · rw [if_pos hparts, decide_eq_true hparts]
      exact .inl ⟨rfl, rfl⟩
    · rw [if_neg hparts, decide_eq_false hparts, Bool.false_or]
      by_cases hfilename : extractParameter (extractHeaderValue p.headers
          (text "Content-Disposition")) (text "filename") = []
      · have hfile : isFile p = false := by
          rw [isFile, decide_eq_false (not_not.mpr hfilename), Bool.and_false]
        rw [if_pos hfilename, hfile]
        refine .inr ⟨rfl, _, rfl, h.snoc ?_ ?_, rfl, (append_nil _).symm⟩
        · rw [hnamed, if_pos rfl, length_append]
          rfl
        · rw [hfile, if_neg Bool.false_ne_true, Nat.add_zero]
      · have hfile : isFile p = true := by
          rw [isFile, hnamed, decide_eq_true hfilename]
          rfl
        rw [if_neg hfilename, hfile, Bool.true_and]
        by_cases hfiles : before.countP isFile ≥ limits.maxFiles
        · rw [if_pos hfiles, decide_eq_true hfiles]
          exact .inl ⟨rfl, rfl⟩
        · rw [if_neg hfiles, decide_eq_false hfiles, Bool.false_or]
          by_cases hsize : p.content.length > limits.maxFileSize
          · rw [if_pos hsize, decide_eq_true hsize]
            exact .inl ⟨rfl, rfl⟩
          · rw [if_neg hsize, decide_eq_false hsize]
            refine .inr ⟨rfl, _, rfl, h.snoc ?_ ?_, rfl, rfl⟩
            · rw [hnamed, if_pos rfl, length_append]
              exact Nat.add_right_comm _ _ _
            · rw [hfile, if_pos rfl, length_append]
              rfl

/-- A part exceeds a limit behind those before it. -/
def LimitHit (limits : MultipartLimits) (before parts : List Part) : Prop :=
  ∃ done p rest, parts = done ++ p :: rest ∧ exceeds limits (before ++ done) p = true

theorem limitHit_cons {limits : MultipartLimits} {before parts : List Part} {p : Part} :
    LimitHit limits before (p :: parts) ↔
      exceeds limits before p = true ∨ LimitHit limits (before ++ [p]) parts := by
  constructor
  · rintro ⟨done, q, rest, heq, hexceeds⟩
    cases done with
    | nil =>
      obtain ⟨rfl, rfl⟩ := List.cons.inj heq
      rw [append_nil] at hexceeds
      exact .inl hexceeds
    | cons x done =>
      obtain ⟨rfl, rfl⟩ := List.cons.inj heq
      exact .inr ⟨done, q, rest, rfl, by rwa [append_assoc]⟩
  · rintro (hexceeds | ⟨done, q, rest, rfl, hexceeds⟩)
    · exact ⟨[], p, parts, rfl, by rwa [append_nil]⟩
    · exact ⟨p :: done, q, rest, rfl, by rwa [append_assoc] at hexceeds⟩

/-- The parts leave a valid form exactly if none exceeds a limit. -/
theorem joinAll_valid (limits : MultipartLimits) {f : MultipartFormData} {before : List Part}
    (h : Counted f before) (hvalid : f.valid = true) (parts : List Part) :
    (joinAll limits f parts).valid = true ↔ ¬ LimitHit limits before parts := by
  induction parts generalizing f before with
  | nil =>
    refine iff_of_true hvalid ?_
    rintro ⟨done, p, rest, heq, -⟩
    exact append_ne_nil_of_right_ne_nil done (cons_ne_nil p rest) heq.symm
  | cons p parts ih =>
    rw [joinAll, limitHit_cons]
    rcases addPart_cases limits h p with ⟨hexceeds, hnone⟩ | ⟨hexceeds, f', hsome, hf', hsame, -⟩
    · rw [hnone]
      exact iff_of_false Bool.false_ne_true fun hnot => hnot (.inl hexceeds)
    · rw [hsome, hexceeds]
      dsimp only
      rw [ih hf' (hsame.trans hvalid)]
      exact not_congr (or_iff_right Bool.false_ne_true).symm

theorem counted_empty (boundary : Bytes) : Counted { boundary } [] := ⟨rfl, rfl⟩

end MultipartParts
