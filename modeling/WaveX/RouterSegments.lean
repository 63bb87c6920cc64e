import WaveX.RouterPaths

/-! # Segments at registration and at lookup

    Registration cuts a path with `normalize_path` and `split_path_view`, lookup with
    `normalize_path_view` and `split_path_into`, whose loop leaves the inline buffer for a
    vector when the buffer is full.  Both loops run over positions of the path here. -/

namespace RouterSegments

open QuicVarInt HttpText RouterPaths List

/-! ## The two loops -/

/-- `find('/', start)`. -/
def findSlash (path : Bytes) (start : Nat) : Option Nat :=
  (splitFirst slash (path.drop start)).map fun (before, _) => start + before.length

/-- A slice between two positions. -/
def sliceOf (path : Bytes) (start stop : Nat) : View :=
  ⟨start, (path.drop start).take (stop - start)⟩

/-- The loop of `split_path_view`, for at most so many rounds. -/
def viewLoop (path : Bytes) : Nat → Nat → List View → List View
  | 0, _, segments => segments
  | rounds + 1, start, segments =>
      if start < path.length then
        let stop := (findSlash path start).getD path.length
        viewLoop path rounds (stop + 1)
          (if stop ≠ start then segments ++ [sliceOf path start stop] else segments)
      else segments

/-- `split_path_view`; a round takes a byte or more. -/
def splitView (path : Bytes) : List View :=
  if path = [] ∨ path = [slash] then [] else viewLoop path path.length 1 []

/-- `seg_buf`, `seg_count` and `seg_overflow`. -/
structure Buffers where
  segBuf : List View
  segCount : Nat
  segOverflow : List View

/-- A segment goes to the buffer while it has room, and else to the vector, which takes over
    what the buffer holds. -/
def Buffers.put (b : Buffers) (v : View) : Buffers :=
  if b.segCount < b.segBuf.length then
    { b with segBuf := b.segBuf.set b.segCount v, segCount := b.segCount + 1 }
  else
    let segOverflow := if b.segOverflow.isEmpty then b.segBuf.take b.segCount else b.segOverflow
    { b with segOverflow := segOverflow ++ [v] }

/-- The loop of `split_path_into`, for at most so many rounds. -/
def intoLoop (path : Bytes) : Nat → Nat → Buffers → Buffers
  | 0, _, b => b
  | rounds + 1, start, b =>
      if start < path.length then
        let found := findSlash path start
        let stop := found.getD path.length
        let b := if stop ≠ start then b.put (sliceOf path start stop) else b
        if found = none then b else intoLoop path rounds (stop + 1) b
      else b

/-- `split_path_into`, with whatever the caller's buffer and vector hold. -/
def splitInto (segBuf : List View) (normalized : Bytes) : List View :=
  let b : Buffers := ⟨segBuf, 0, []⟩
  let b :=
    if normalized = [] ∨ normalized = [slash] then b
    else intoLoop normalized normalized.length 1 b
  if b.segOverflow.isEmpty then b.segBuf.take b.segCount else b.segOverflow

/-! ## A round -/

/-- Where a round finds no slash, the rest of the path is the last segment. -/
theorem round_last {path : Bytes} {start : Nat}
    (h : splitFirst slash (path.drop start) = none) :
    findSlash path start = none ∧ sliceOf path start path.length = ⟨start, path.drop start⟩ := by
  refine ⟨by rw [findSlash, h]; rfl, ?_⟩
  rw [sliceOf, take_of_length_le (by rw [length_drop])]

/-- Where it finds one, the next round begins behind it. -/
theorem round_next {path segment rest : Bytes} {start : Nat}
    (h : splitFirst slash (path.drop start) = some (segment, rest)) :
    findSlash path start = some (start + segment.length) ∧
      sliceOf path start (start + segment.length) = ⟨start, segment⟩ ∧
      path.drop (start + segment.length + 1) = rest ∧
      (start + segment.length ≠ start ↔ segment ≠ []) := by
  obtain ⟨htext, -⟩ := splitFirst_eq_some.mp h
  refine ⟨by rw [findSlash, h]; rfl, ?_, ?_, ?_⟩
  · rw [sliceOf, htext, Nat.add_sub_cancel_left, take_left]
  · rw [Nat.add_assoc, ← drop_drop, htext, ← drop_drop, drop_left]
    rfl
  · rw [← length_pos_iff]
    omega

theorem drop_ne_nil {path : Bytes} {start : Nat} (h : start < path.length) :
    path.drop start ≠ [] := by
  intro hnil
  have hlen := drop_eq_nil_iff.mp hnil
  omega

/-- Behind the end of the path nothing is cut. -/
theorem splitLoop_nil (rounds start : Nat) : splitLoop rounds start [] = [] := by
  cases rounds with
  | zero => rfl
  | succ rounds => rfl

theorem viewLoop_end {path : Bytes} {start : Nat} (h : path.length ≤ start) (rounds : Nat)
    (segments : List View) : viewLoop path rounds start segments = segments := by
  cases rounds with
  | zero => rfl
  | succ rounds => rw [viewLoop, if_neg (Nat.not_lt.mpr h)]

/-- The loop of `split_path_view` cuts what is left of the path. -/
theorem viewLoop_eq (path : Bytes) (rounds start : Nat) (segments : List View) :
    viewLoop path rounds start segments = segments ++ splitLoop rounds start (path.drop start) := by
  induction rounds generalizing start segments with
  | zero => exact (append_nil _).symm
  | succ rounds ih =>
    rw [viewLoop]
    by_cases hin : start < path.length
    · rw [if_pos hin, splitLoop]
      cases hfind : splitFirst slash (path.drop start) with
      | none =>
        obtain ⟨hnone, hslice⟩ := round_last hfind
        rw [hnone, Option.getD_none]
        dsimp only
        rw [hslice, if_pos (by omega), if_neg (drop_ne_nil hin)]
        exact viewLoop_end (Nat.le_succ _) rounds _
      | some parts =>
        obtain ⟨segment, rest⟩ := parts
        obtain ⟨hsome, hslice, hrest, hempty⟩ := round_next hfind
        rw [hsome, Option.getD_some]
        dsimp only
        rw [hslice, ih, hrest]
        by_cases hsegment : segment = []
        · rw [if_pos hsegment, if_neg (fun h => hempty.mp h hsegment), nil_append]
        · rw [if_neg hsegment, if_pos (hempty.mpr hsegment), append_assoc]
    · rw [if_neg hin, drop_of_length_le (Nat.not_lt.mp hin), splitLoop_nil, append_nil]

/-- What the buffers hold. -/
def Buffers.held (b : Buffers) : List View :=
  if b.segOverflow.isEmpty then b.segBuf.take b.segCount else b.segOverflow

/-- The vector is in use only when the buffer is full. -/
structure Buffers.Filled (b : Buffers) : Prop where
  count : b.segCount ≤ b.segBuf.length
  room : b.segCount < b.segBuf.length → b.segOverflow = []

theorem Buffers.Filled.put {b : Buffers} (h : b.Filled) (v : View) :
    (b.put v).Filled ∧ (b.put v).held = b.held ++ [v] := by
  rw [Buffers.put]
  by_cases hroom : b.segCount < b.segBuf.length
  · have hempty := h.room hroom
    rw [if_pos hroom]
    refine ⟨⟨?_, fun _ => hempty⟩, ?_⟩
    · rw [length_set]
      exact hroom
    · rw [Buffers.held, Buffers.held, hempty, isEmpty_nil, if_pos rfl, if_pos rfl,
        take_add_one, take_set_of_le (Nat.le_refl _), getElem?_set_self hroom]
      rfl
  · rw [if_neg hroom]
    refine ⟨⟨h.count, fun hlt => absurd hlt hroom⟩, ?_⟩
    have hne : ∀ l : List View, (l ++ [v]).isEmpty = false := fun l => by
      rw [isEmpty_eq_false_iff]
      exact append_ne_nil_of_right_ne_nil _ (cons_ne_nil _ _)
    rw [Buffers.held, hne, if_neg Bool.false_ne_true, Buffers.held]

/-- The loop of `split_path_into` holds what it held and what is left of the path. -/
theorem intoLoop_held (path : Bytes) (rounds start : Nat) {b : Buffers} (h : b.Filled) :
    (intoLoop path rounds start b).held = b.held ++ splitLoop rounds start (path.drop start) := by
  induction rounds generalizing start b with
  | zero => exact (append_nil _).symm
  | succ rounds ih =>
    rw [intoLoop]
    by_cases hin : start < path.length
    · rw [if_pos hin, splitLoop]
      cases hfind : splitFirst slash (path.drop start) with
      | none =>
        obtain ⟨hnone, hslice⟩ := round_last hfind
        rw [hnone, if_pos rfl, Option.getD_none, hslice, if_pos (by omega),
          if_neg (drop_ne_nil hin)]
        exact (h.put _).2
      | some parts =>
        obtain ⟨segment, rest⟩ := parts
        obtain ⟨hsome, hslice, hrest, hempty⟩ := round_next hfind
        rw [hsome, if_neg (Option.some_ne_none _), Option.getD_some, hslice]
        dsimp only
        by_cases hsegment : segment = []
        · rw [if_pos hsegment, if_neg (fun h => hempty.mp h hsegment), ih _ h, hrest,
            nil_append]
        · obtain ⟨hput, hheld⟩ := h.put ⟨start, segment⟩
          rw [if_neg hsegment, if_pos (hempty.mpr hsegment), ih _ hput, hheld, hrest,
            append_assoc]
    · rw [if_neg hin, drop_of_length_le (Nat.not_lt.mp hin), splitLoop_nil, append_nil]

/-! ## Both give the segments -/

/-- The segments of the router's model are those of `split_path_view`. -/
theorem splitView_eq (path : Bytes) : splitView path = splitPathView path := by
  rw [splitView, splitPathView]
  split
  · rfl
  · rw [viewLoop_eq, nil_append]

theorem splitInto_eq (segBuf : List View) (normalized : Bytes) :
    splitInto segBuf normalized = splitPathView normalized := by
  have hfilled : (⟨segBuf, 0, []⟩ : Buffers).Filled := ⟨Nat.zero_le _, fun _ => rfl⟩
  have hheld : (⟨segBuf, 0, []⟩ : Buffers).held = [] := rfl
  rw [splitInto, splitPathView]
  split
  · rfl
  · exact (intoLoop_held normalized _ _ hfilled).trans (by rw [hheld, nil_append])

/-- Both normalisations give the same text: where a slash is put in front, there is one to
    trim in the path with it exactly if there is one in the path. -/
theorem normalizePathView_eq (path : Bytes) : normalizePathView path = normalizePath path := by
  rw [normalizePathView, normalizePath]
  by_cases hroot : path = [] ∨ path = [slash]
  · rw [if_pos hroot, if_pos hroot]
  · rw [if_neg hroot, if_neg hroot]
    dsimp only
    by_cases hfront : path.head? ≠ some slash
    · have hlast : (slash :: path).getLast? = path.getLast? :=
        getLast?_cons_of_ne_nil fun hnil => hroot (.inl hnil)
      have hpos := length_pos_iff.mpr fun hnil => hroot (.inl hnil)
      -- a path of one byte that is a slash has it in front
      have htrim : (1 < path.length ∧ path.getLast? = some slash) ↔
          (1 < (slash :: path).length ∧ path.getLast? = some slash) := by
        constructor
        · rintro ⟨hlong, hslash⟩
          exact ⟨Nat.succ_lt_succ hpos, hslash⟩
        · rintro ⟨-, hslash⟩
          refine ⟨?_, hslash⟩
          by_contra hshort
          obtain ⟨c, rfl⟩ := length_eq_one_iff.mp (show path.length = 1 by omega)
          exact hfront hslash
      rw [if_neg fun h => h.1 hfront, if_pos hfront, hlast]
      by_cases h : 1 < (slash :: path).length ∧ path.getLast? = some slash
      · rw [if_pos h, if_pos ⟨htrim.mpr h, h⟩]
      · rw [if_neg h, if_neg fun hboth => h hboth.2]
    · rw [if_neg hfront]
      by_cases h : 1 < path.length ∧ path.getLast? = some slash
      · rw [if_neg fun hnone => hnone.2 h, if_pos ⟨h, h⟩, if_pos h]
      · rw [if_pos ⟨hfront, h⟩, if_neg h]

/-- **Registration and lookup see the same segments**: for every path both normalisations
    give the same text, and for every text, normalised or not, both ways to cut it give the
    same segments, whatever the caller's buffer holds and however large it is. -/
theorem path_helpers_agree (path normalized : Bytes) (segBuf : List View) :
    normalizePathView path = normalizePath path ∧
      splitInto segBuf normalized = splitView normalized :=
  ⟨normalizePathView_eq path, by rw [splitInto_eq, splitView_eq]⟩

end RouterSegments
