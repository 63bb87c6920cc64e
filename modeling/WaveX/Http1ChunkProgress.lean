import WaveX.Http1Codec

/-! # Progress through chunked bodies

    The loops of `extract_chunked_body` and `dechunk` add the size of a chunk, an arbitrary
    number of 64 bits, to the cursor before they compare the sum with the size of the
    buffer.  The sum may wrap around, and then the cursor goes back.  A round that does not
    go back makes progress; so the loops end unless they come to a size line that sends
    them back to itself or before it, and the smallest such line sends them round for
    ever. -/

namespace Http1ChunkProgress

open QuicVarInt HttpText Http1Codec

variable {buffer line : Bytes} {c c' next fuel k : Nat}

/-! ## Loops that end -/

/-- From this cursor the loops end after so many iterations. -/
def EndsIn (buffer : Bytes) : Nat → Nat → Prop
  | 0, c => ∀ c', ¬ Iterates buffer c c'
  | k + 1, c => ∃ c', Iterates buffer c c' ∧ EndsIn buffer k c'

theorem EndsIn.unique {j : Nat} (hk : EndsIn buffer k c) (hj : EndsIn buffer j c) : k = j := by
  induction k generalizing c j with
  | zero =>
    cases j with
    | zero => rfl
    | succ j =>
      obtain ⟨c', hiter, -⟩ := hj
      exact absurd hiter (hk c')
  | succ k ih =>
    obtain ⟨c', hiter, hrest⟩ := hk
    cases j with
    | zero => exact absurd hiter (hj c')
    | succ j =>
      obtain ⟨c'', hiter', hrest'⟩ := hj
      obtain rfl := hiter.deterministic hiter'
      rw [ih hrest hrest']

/-- The cursors that a loop visits before it ends are different, since it has different
    numbers of iterations to go from them. -/
theorem EndsIn.visited (h : EndsIn buffer k c) :
    ∃ visited : List Nat, visited.Nodup ∧ visited.length = k ∧
      ∀ x ∈ visited, x < buffer.length ∧ ∃ j ≤ k, 0 < j ∧ EndsIn buffer j x := by
  induction k generalizing c with
  | zero => exact ⟨[], List.nodup_nil, rfl, fun _ hx => absurd hx List.not_mem_nil⟩
  | succ k ih =>
    obtain ⟨c', hiter, hrest⟩ := h
    obtain ⟨visited, hnodup, hlength, hvisited⟩ := ih hrest
    have hfresh : c ∉ visited := by
      intro hmem
      obtain ⟨-, j, hj, -, hends⟩ := hvisited c hmem
      have heq : k + 1 = j := EndsIn.unique (c := c) ⟨c', hiter, hrest⟩ hends
      omega
    refine ⟨c :: visited, List.nodup_cons.mpr ⟨hfresh, hnodup⟩, congrArg _ hlength, ?_⟩
    intro x hx
    obtain rfl | hx := List.mem_cons.mp hx
    · exact ⟨hiter.1, k + 1, Nat.le_refl _, Nat.succ_pos k, c', hiter, hrest⟩
    · obtain ⟨hlt, j, hj, hpos, hends⟩ := hvisited x hx
      exact ⟨hlt, j, Nat.le_succ_of_le hj, hpos, hends⟩

/-- A loop that ends has at most as many iterations as the buffer has bytes. -/
theorem EndsIn.le_length (h : EndsIn buffer k c) : k ≤ buffer.length := by
  obtain ⟨visited, hnodup, rfl, hvisited⟩ := h.visited
  have hsub : visited ⊆ List.range buffer.length :=
    fun x hx => List.mem_range.mpr (hvisited x hx).1
  have hle := (List.subperm_of_subset hnodup hsub).length_le
  rw [List.length_range] at hle
  exact hle

theorem EndsIn.loops (h : EndsIn buffer k c) (hfuel : k < fuel) :
    (∃ o, chunkLoop buffer fuel c = some o) ∧
      ∀ unchunked, ∃ body, dechunkLoop buffer fuel c unchunked = some body := by
  induction k generalizing c fuel with
  | zero =>
    obtain ⟨fuel, rfl⟩ := Nat.exists_eq_succ_of_ne_zero (Nat.ne_of_gt hfuel)
    exact loops_end h fuel
  | succ k ih =>
    obtain ⟨fuel, rfl⟩ := Nat.exists_eq_succ_of_ne_zero (Nat.ne_of_gt (Nat.zero_lt_of_lt hfuel))
    obtain ⟨c', hiter, hrest⟩ := h
    obtain ⟨hextract, hdechunk⟩ := ih hrest (Nat.lt_of_succ_lt_succ hfuel)
    constructor
    · rw [hiter.chunkLoop]
      exact hextract
    · intro unchunked
      obtain ⟨more, hmore⟩ := hiter.dechunkLoop fuel unchunked
      rw [hmore]
      exact hdechunk _

theorem chunkLoop_endsIn {o : Outcome Unit} (h : chunkLoop buffer fuel c = some o) :
    ∃ k, EndsIn buffer k c := by
  induction fuel generalizing c with
  | zero => cases h
  | succ fuel ih =>
    by_cases hnext : ∃ c', Iterates buffer c c'
    · obtain ⟨c', hiter⟩ := hnext
      rw [hiter.chunkLoop] at h
      obtain ⟨k, hk⟩ := ih h
      exact ⟨k + 1, c', hiter, hk⟩
    · exact ⟨0, not_exists.mp hnext⟩

theorem chunkLoop_mono {o : Outcome Unit} {more : Nat} (h : chunkLoop buffer fuel c = some o)
    (hle : fuel ≤ more) : chunkLoop buffer more c = some o := by
  induction fuel generalizing c more with
  | zero => cases h
  | succ fuel ih =>
    obtain ⟨more, rfl⟩ := Nat.exists_eq_succ_of_ne_zero (show more ≠ 0 by omega)
    by_cases hnext : ∃ c', Iterates buffer c c'
    · obtain ⟨c', hiter⟩ := hnext
      rw [hiter.chunkLoop] at h ⊢
      exact ih h (Nat.le_of_succ_le_succ hle)
    · -- the last round does not look at the rounds that are left
      rw [chunkLoop] at h ⊢
      by_cases hc : c < buffer.length
      · rw [if_pos hc] at h ⊢
        cases hturn : chunkTurn buffer c with
        | blank next => exact absurd ⟨next, hc, by rw [hturn]; rfl⟩ hnext
        | chunk data next => exact absurd ⟨next, hc, by rw [hturn]; rfl⟩ hnext
        | _ =>
          rw [hturn] at h
          exact h
      · rw [if_neg hc] at h ⊢
        exact h

/-- **The rounds of the model are enough**: a loop that ends at all ends within them. -/
theorem chunkLoop_enough {o : Outcome Unit} (h : chunkLoop buffer fuel c = some o) :
    chunkLoop buffer (buffer.length + 1) c = some o := by
  obtain ⟨k, hk⟩ := chunkLoop_endsIn h
  obtain ⟨o', ho'⟩ := (hk.loops (Nat.lt_succ_of_le hk.le_length)).1
  have hsame := chunkLoop_mono ho' (Nat.le_add_left _ fuel)
  rw [chunkLoop_mono h (Nat.le_add_right fuel _)] at hsame
  rw [ho', hsame]

/-- A chunk of size zero that the loop comes to ends it with success. -/
theorem chunkLoop_of_reaches (hreach : Reaches buffer c c') (hc : c' < buffer.length)
    (hlast : chunkTurn buffer c' = .last next) :
    chunkLoop buffer (buffer.length + 1) c = some (.success () (afterLast buffer next)) := by
  have hsome : ∃ fuel, chunkLoop buffer fuel c = some (.success () (afterLast buffer next)) := by
    induction hreach using Relation.ReflTransGen.head_induction_on with
    | refl => exact ⟨1, by rw [chunkLoop, if_pos hc, hlast]⟩
    | head hiter _ ih =>
      obtain ⟨fuel, hfuel⟩ := ih
      exact ⟨fuel + 1, by rw [hiter.chunkLoop, hfuel]⟩
  obtain ⟨fuel, hfuel⟩ := hsome
  exact chunkLoop_enough hfuel

/-! ## Sizes that turn back -/

/-- The size line at the cursor has a size so close to `2 ^ 64` that the cursor behind the
    chunk wraps around, to this line or before it. -/
def turnsBack (buffer : Bytes) (c : Nat) : Bool :=
  match findNextLine buffer c with
  | some (line, next) =>
      match fromCharsHex (sizeText line) with
      | some (size, _) => decide (2 ^ 64 ≤ next + size ∧ next + size ≤ 2 ^ 64 + c)
      | none => false
  | none => false

theorem turnsBack_iff :
    turnsBack buffer c = true ↔
      ∃ line next size digits, findNextLine buffer c = some (line, next) ∧
        fromCharsHex (sizeText line) = some (size, digits) ∧
        2 ^ 64 ≤ next + size ∧ next + size ≤ 2 ^ 64 + c := by
  rw [turnsBack]
  constructor
  · intro h
    split at h
    · rename_i line next hfind
      split at h
      · rename_i size digits hread
        exact ⟨line, next, size, digits, hfind, hread, of_decide_eq_true h⟩
      · cases h
    · cases h
  · rintro ⟨line, next, size, digits, hfind, hread, hback⟩
    rw [hfind]
    dsimp only
    rw [hread]
    exact decide_eq_true hback

theorem skipLineBreak_bounds (buffer : Bytes) (c : Nat) :
    c ≤ skipLineBreak buffer c ∧ skipLineBreak buffer c ≤ c + 2 := by
  rw [skipLineBreak]
  split
  · split
    · omega
    · omega
  · split
    · omega
    · omega

/-- A line break is skipped only where it is. -/
theorem skipLineBreak_le (h : c ≤ buffer.length) : skipLineBreak buffer c ≤ buffer.length := by
  have hget : ∀ {i b}, buffer[i]? = some b → i + 1 ≤ buffer.length := fun hb =>
    (List.getElem?_eq_some_iff.mp hb).1
  rw [skipLineBreak]
  split
  · rename_i hcr
    split
    · rename_i hlf
      exact hget hlf
    · exact hget hcr
  · split
    · rename_i hlf
      exact hget hlf
    · exact h

/-- It does not pass a byte that is no line break. -/
theorem skipLineBreak_stops {b : UInt8} (hb : buffer[c']? = some b) (hcr : b ≠ cr) (hlf : b ≠ lf)
    (hle : c ≤ c') : skipLineBreak buffer c ≤ c' := by
  have hstop : ∀ {i x}, buffer[i]? = some x → x = cr ∨ x = lf → i ≤ c' → i + 1 ≤ c' := by
    intro i x hx hbreak hi
    refine Nat.lt_of_le_of_ne hi ?_
    rintro rfl
    obtain rfl := Option.some.inj (hx.symm.trans hb)
    exact hbreak.elim hcr hlf
  rw [skipLineBreak]
  split
  · rename_i hfirst
    have hnext := hstop hfirst (.inl rfl) hle
    split
    · rename_i hsecond
      exact hstop hsecond (.inr rfl) hnext
    · exact hnext
  · split
    · rename_i hsecond
      exact hstop hsecond (.inr rfl) hle
    · exact hle

/-- A size line does not start with a line break. -/
theorem sizeLine_head {size : Nat × Nat} (hfind : findNextLine buffer c = some (line, next))
    (hsize : fromCharsHex (sizeText line) = some size) :
    ∃ b, buffer[c]? = some b ∧ b ≠ cr ∧ b ≠ lf := by
  obtain ⟨raw, rest, hdrop, hraw, rfl, -⟩ := findNextLine_eq_some.mp hfind
  have hblank : fromCharsHex (sizeText []) = none := by decide
  cases raw with
  | nil => cases hblank.symm.trans hsize
  | cons b raw =>
    refine ⟨b, ?_, ?_, fun hb => hraw (hb ▸ List.mem_cons_self)⟩
    · rw [← Nat.add_zero c, ← List.getElem?_drop, hdrop]
      rfl
    · -- a CR that is not stripped is in front of the digits
      rintro rfl
      have hfirst : ∀ s, sizeText (cr :: s) = [] ∨ ∃ s', sizeText (cr :: s) = cr :: s' := by
        intro s
        have hkeep : (cr :: s).takeWhile (· != semicolon) = cr :: s.takeWhile (· != semicolon) := rfl
        have hdropped : (cr :: s.takeWhile (· != semicolon)).dropWhile isOws =
            cr :: s.takeWhile (· != semicolon) := rfl
        rw [sizeText, stripOws, hkeep, hdropped]
        obtain hnil | ⟨s', hs', -⟩ := List.prefix_cons_iff.mp (List.rdropWhile_prefix isOws _)
        · exact .inl hnil
        · exact .inr ⟨s', hs'⟩
      have hnone : ∀ s, fromCharsHex (sizeText (cr :: s)) = none := by
        intro s
        obtain hnil | ⟨s', hs'⟩ := hfirst s
        · rw [hnil]
          rfl
        · rw [hs']
          rfl
      rw [stripCr] at hsize
      split at hsize
      · cases raw with
        | nil => cases hblank.symm.trans hsize
        | cons b raw =>
          rw [List.dropLast_cons_cons, hnone] at hsize
          cases hsize
      · rw [hnone] at hsize
        cases hsize

/-- An iteration stays within the buffer, and goes forward unless the size turns back. -/
theorem iterates_forward (hsize : buffer.length < 2 ^ 64) (h : Iterates buffer c c') :
    c' ≤ buffer.length ∧ (turnsBack buffer c = false → c < c') := by
  obtain hturn | ⟨data, hturn⟩ := next?_eq_some h.2
  · obtain ⟨line, hfind, -⟩ := chunkTurn_eq_blank.mp hturn
    obtain ⟨hlt, hle⟩ := findNextLine_bounds hfind
    exact ⟨hle, fun _ => hlt⟩
  · obtain ⟨size, next, hline, -, hroom, -, rfl⟩ := chunkTurn_eq_chunk.mp hturn
    refine ⟨skipLineBreak_le hroom, fun hforward => ?_⟩
    obtain ⟨hlt, hle, hdigits⟩ := hline.bounds
    obtain ⟨line, digits, hfind, hread⟩ := hline
    have hskip := (skipLineBreak_bounds buffer (chunkEnd next size)).1
    have hbig : ¬ (2 ^ 64 ≤ next + size ∧ next + size ≤ 2 ^ 64 + c) :=
      fun hback => Bool.eq_false_iff.mp hforward
        (turnsBack_iff.mpr ⟨line, next, size, digits, hfind, hread, hback⟩)
    rw [chunkEnd] at hskip hroom ⊢
    omega

/-- A size that turns back is one the loops do follow. -/
theorem turnsBack_iterates (hsize : buffer.length < 2 ^ 64) (h : turnsBack buffer c = true) :
    ∃ c', Iterates buffer c c' ∧ c' ≤ c := by
  obtain ⟨line, next, size, digits, hfind, hread, hwraps, hback⟩ := turnsBack_iff.mp h
  obtain ⟨hlt, hle⟩ := findNextLine_bounds hfind
  obtain ⟨b, hb, hcr, hlf⟩ := sizeLine_head hfind hread
  have hend : chunkEnd next size ≤ c := by
    have hdigits := fromCharsHex_lt hread
    rw [chunkEnd]
    omega
  have hturn := chunkTurn_eq_chunk.mpr ⟨size, next, ⟨line, digits, hfind, hread⟩, by omega,
    by omega, rfl, rfl⟩
  exact ⟨skipLineBreak buffer (chunkEnd next size), ⟨by omega, by rw [hturn]; rfl⟩,
    skipLineBreak_stops hb hcr hlf hend⟩

/-! ## Progress -/

/-- Every iteration from `start` on takes the cursor forward, within the buffer. -/
def Advances (buffer : Bytes) (start : Nat) : Prop :=
  ∀ c c', Reaches buffer start c → Iterates buffer c c' → c < c' ∧ c' ≤ buffer.length

/-- `extract_chunked_body` makes progress and returns, and consumes what has been received
    at most. -/
structure ExtractProgresses (buffer : Bytes) (bodyStart : Nat) : Prop where
  advances : Advances buffer bodyStart
  returns : extractChunkedBody buffer bodyStart ≠ none
  received : ∀ body n, extractChunkedBody buffer bodyStart = some (.success body n) →
    n ≤ buffer.length

/-- `dechunk` makes progress and returns. -/
structure DechunkProgresses (chunkedRaw : Bytes) : Prop where
  advances : Advances chunkedRaw 0
  returns : dechunk chunkedRaw ≠ none

variable {start : Nat}

theorem advances_iff (hsize : buffer.length < 2 ^ 64) :
    Advances buffer start ↔ ∀ c, Reaches buffer start c → turnsBack buffer c = false := by
  constructor
  · intro h c hreach
    rw [Bool.eq_false_iff]
    intro hback
    obtain ⟨c', hiter, hle⟩ := turnsBack_iterates hsize hback
    exact absurd (h c c' hreach hiter).1 (Nat.not_lt.mpr hle)
  · intro h c c' hreach hiter
    obtain ⟨hle, hforward⟩ := iterates_forward hsize hiter
    exact ⟨hforward (h c hreach), hle⟩

/-- Cursors that go forward within the buffer come to an end. -/
theorem Advances.endsIn (h : Advances buffer start) (hreach : Reaches buffer start c) :
    ∃ k, EndsIn buffer k c := by
  induction hleft : buffer.length - c using Nat.strongRecOn generalizing c with
  | ind left ih =>
    by_cases hnext : ∃ c', Iterates buffer c c'
    · obtain ⟨c', hiter⟩ := hnext
      obtain ⟨hlt, hle⟩ := h c c' hreach hiter
      obtain ⟨k, hk⟩ := ih (buffer.length - c') (by omega) (hreach.tail hiter) rfl
      exact ⟨k + 1, c', hiter, hk⟩
    · exact ⟨0, not_exists.mp hnext⟩

theorem Advances.loops (h : Advances buffer start) :
    (∃ o, chunkLoop buffer (buffer.length + 1) start = some o) ∧
      ∀ unchunked, ∃ body, dechunkLoop buffer (buffer.length + 1) start unchunked = some body := by
  obtain ⟨k, hk⟩ := h.endsIn .refl
  exact hk.loops (Nat.lt_succ_of_le hk.le_length)

theorem afterLast_le (h : c ≤ buffer.length) : afterLast buffer c ≤ buffer.length := by
  rw [afterLast]
  cases hfind : findNextLine buffer c with
  | none => exact h
  | some p => exact (findNextLine_bounds hfind).2

theorem le_afterLast (buffer : Bytes) (c : Nat) : c ≤ afterLast buffer c := by
  rw [afterLast]
  cases hfind : findNextLine buffer c with
  | none => exact Nat.le_refl c
  | some p => exact Nat.le_of_lt (findNextLine_bounds hfind).1

theorem extractChunkedBody_success {body : Bytes} {n : Nat}
    (h : extractChunkedBody buffer start = some (.success body n)) :
    chunkLoop buffer (buffer.length + 1) start = some (.success () n) ∧
      body = (buffer.drop start).take ((n + 2 ^ 64 - start) % 2 ^ 64) := by
  rw [extractChunkedBody, Option.map_eq_some_iff] at h
  obtain ⟨o, hloop, ho⟩ := h
  cases o with
  | success u cursor =>
    obtain ⟨rfl, rfl⟩ := Outcome.success.inj ho
    exact ⟨hloop, rfl⟩
  | incomplete => cases ho
  | error => cases ho

theorem chunkTurn_last_le (h : chunkTurn buffer c = .last next) : next ≤ buffer.length :=
  (chunkTurn_eq_last.mp h).bounds.2.1

/-- **Progress through chunked bodies.**  Each of the two loops goes forward in every
    iteration, returns and consumes only what was received exactly when none of the size
    lines that it comes to turns back. -/
theorem chunk_progress_iff (hsize : buffer.length < 2 ^ 64) :
    (∀ bodyStart, ExtractProgresses buffer bodyStart ↔
        ∀ c, Reaches buffer bodyStart c → turnsBack buffer c = false) ∧
      (DechunkProgresses buffer ↔ ∀ c, Reaches buffer 0 c → turnsBack buffer c = false) := by
  constructor
  · intro bodyStart
    rw [← advances_iff hsize]
    refine ⟨fun h => h.advances, fun h => ⟨h, ?_, ?_⟩⟩
    · obtain ⟨o, ho⟩ := h.loops.1
      rw [extractChunkedBody, ho]
      exact nofun
    · intro body n hsuccess
      obtain ⟨c, next, -, -, hlast, rfl⟩ :=
        chunkLoop_success (extractChunkedBody_success hsuccess).1
      exact afterLast_le (chunkTurn_last_le hlast)
  · rw [← advances_iff hsize]
    refine ⟨fun h => h.advances, fun h => ⟨h, ?_⟩⟩
    obtain ⟨body, hbody⟩ := h.loops.2 []
    rw [dechunk, hbody]
    exact nofun

/-- Within the buffer the loops stay within it. -/
theorem Reaches.le_length (hsize : buffer.length < 2 ^ 64) (h : Reaches buffer start c)
    (hstart : start ≤ buffer.length) : c ≤ buffer.length := by
  induction h with
  | refl => exact hstart
  | tail _ hiter _ => exact (iterates_forward hsize hiter).1

/-- Two chunks, one of them with a size that wraps around and yet goes forward. -/
theorem chunk_progress_wrapped :
    DechunkProgresses (text "2\r\nhi\r\nffffffffffffffff\r\n0\r\n\r\n") := by
  refine (chunk_progress_iff (by decide)).2.mpr fun c hreach => ?_
  have hle := Reaches.le_length (by decide) hreach (Nat.zero_le _)
  have hall : ∀ c < 33, turnsBack (text "2\r\nhi\r\nffffffffffffffff\r\n0\r\n\r\n") c = false := by
    decide
  exact hall c (Nat.lt_of_le_of_lt hle (by decide))

/-- A size line of eighteen bytes whose size is `2 ^ 64 - 18`. -/
def spinning : Bytes := text "ffffffffffffffee\r\n"

/-- Both loops come back to the line for ever, and so does the parser of a request with
    this body. -/
theorem spinning_never_ends :
    (∀ fuel, chunkLoop spinning fuel 0 = none) ∧ (∀ fuel, dechunkLoop spinning fuel 0 [] = none) ∧
      ¬ ExtractProgresses spinning 0 ∧ ¬ DechunkProgresses spinning ∧
      parseRequest (text "POST / HTTP/1.1\r\nTransfer-Encoding: chunked\r\n\r\n" ++ spinning) =
        none := by
  have hturn : chunkTurn spinning 0 = .chunk [] 0 := by decide
  have hstays : Iterates spinning 0 0 := ⟨by decide, by rw [hturn]; rfl⟩
  have hstuck : ¬ Advances spinning 0 := fun h => Nat.lt_irrefl 0 (h 0 0 .refl hstays).1
  refine ⟨fun fuel => ?_, fun fuel => ?_, fun h => hstuck h.advances, fun h => hstuck h.advances,
    by decide⟩
  · induction fuel with
    | zero => rfl
    | succ fuel ih => rw [hstays.chunkLoop, ih]
  · induction fuel with
    | zero => rfl
    | succ fuel ih =>
      rw [dechunkLoop, if_pos hstays.1, hturn]
      exact ih

end Http1ChunkProgress
