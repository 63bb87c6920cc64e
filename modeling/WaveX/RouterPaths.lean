import WaveX.HttpText

/-! # Paths and patterns of the router

    The helpers of `Router.cpp`: how a path is normalised and cut into segments, and how a
    segment of a pattern is read.  A `string_view` into the normalised path is where it
    begins and what it reads. -/

namespace RouterPaths

open QuicVarInt HttpText

def slash : UInt8 := 0x2f
def colon : UInt8 := 0x3a
def asterisk : UInt8 := 0x2a
def openBrace : UInt8 := 0x7b
def closeBrace : UInt8 := 0x7d

/-- `normalize_path`: a slash in front, and one slash less at the end. -/
def normalizePath (path : Bytes) : Bytes :=
  if path = [] ∨ path = [slash] then [slash]
  else
    let p := if path.head? ≠ some slash then slash :: path else path
    if 1 < p.length ∧ p.getLast? = some slash then p.dropLast else p

theorem normalizePath_ne_nil (path : Bytes) : normalizePath path ≠ [] := by
  rw [normalizePath]
  split
  · exact List.cons_ne_nil _ _
  · next h =>
    have hp : (if path.head? ≠ some slash then slash :: path else path) ≠ [] := by
      split
      · exact List.cons_ne_nil _ _
      · exact fun hnil => h (.inl hnil)
    dsimp only
    generalize (if path.head? ≠ some slash then slash :: path else path) = p at hp ⊢
    split
    · next hlong =>
      intro hnil
      have hlen := congrArg List.length hnil
      rw [List.length_dropLast, List.length_nil] at hlen
      omega
    · exact hp

/-- `normalize_path_view`: the path itself where nothing is to be done, else a copy. -/
def normalizePathView (path : Bytes) : Bytes :=
  if path = [] ∨ path = [slash] then [slash]
  else
    let needsFront := path.head? ≠ some slash
    let needsTrim := 1 < path.length ∧ path.getLast? = some slash
    if ¬ needsFront ∧ ¬ needsTrim then path
    else
      let scratch := if needsFront then slash :: path else path
      if needsTrim ∧ 1 < scratch.length ∧ scratch.getLast? = some slash then scratch.dropLast
      else scratch

/-- A slice of the normalised path. -/
structure View where
  offset : Nat
  text : Bytes
  deriving DecidableEq, Repr

/-- Where a slice ends. -/
def View.stop (v : View) : Nat := v.offset + v.text.length

/-- The loop of `split_path_view` from `start` on, over what is left of the path; each turn
    takes a byte or more. -/
def splitLoop : Nat → Nat → Bytes → List View
  | 0, _, _ => []
  | fuel + 1, start, text =>
      match splitFirst slash text with
      | none => if text = [] then [] else [⟨start, text⟩]
      | some (segment, rest) =>
          (if segment = [] then [] else [⟨start, segment⟩]) ++
            splitLoop fuel (start + segment.length + 1) rest

/-- `split_path_view`: the segments between the slashes, without the empty ones. -/
def splitPathView (path : Bytes) : List View :=
  if path = [] ∨ path = [slash] then [] else splitLoop path.length 1 (path.drop 1)

/-- The inline array of `split_path_into` with the overflow vector. -/
structure SegmentBuffer where
  inline : List View
  overflow : List View

/-- A segment goes to the array while there is room; the first one after that takes the
    whole array to the overflow vector. -/
def SegmentBuffer.store (capacity : Nat) (buf : SegmentBuffer) (v : View) : SegmentBuffer :=
  if buf.inline.length < capacity then { buf with inline := buf.inline ++ [v] }
  else if buf.overflow.isEmpty then { buf with overflow := buf.inline ++ [v] }
  else { buf with overflow := buf.overflow ++ [v] }

/-- The loop of `split_path_into`. -/
def splitIntoLoop (capacity : Nat) : Nat → Nat → Bytes → SegmentBuffer → SegmentBuffer
  | 0, _, _, buf => buf
  | fuel + 1, start, text, buf =>
      match splitFirst slash text with
      | none => if text = [] then buf else buf.store capacity ⟨start, text⟩
      | some (segment, rest) =>
          splitIntoLoop capacity fuel (start + segment.length + 1) rest
            (if segment = [] then buf else buf.store capacity ⟨start, segment⟩)

/-- `split_path_into`, with an array of that capacity. -/
def splitPathInto (capacity : Nat) (normalized : Bytes) : List View :=
  let buf :=
    if normalized = [] ∨ normalized = [slash] then ⟨[], []⟩
    else splitIntoLoop capacity normalized.length 1 (normalized.drop 1) ⟨[], []⟩
  if buf.overflow.isEmpty then buf.inline else buf.overflow

/-- What the buffer holds. -/
def SegmentBuffer.held (buf : SegmentBuffer) : List View :=
  if buf.overflow.isEmpty then buf.inline else buf.overflow

theorem SegmentBuffer.held_store {capacity : Nat} {buf : SegmentBuffer}
    (hroom : buf.inline.length < capacity → buf.overflow = []) (v : View) :
    (buf.store capacity v).held = buf.held ++ [v] ∧
      ((buf.store capacity v).inline.length < capacity → (buf.store capacity v).overflow = []) := by
  rw [SegmentBuffer.store]
  by_cases hlt : buf.inline.length < capacity
  · rw [if_pos hlt]
    have hempty := hroom hlt
    simp [SegmentBuffer.held, hempty]
  · rw [if_neg hlt]
    by_cases hempty : buf.overflow = []
    · simp [SegmentBuffer.held, hempty, hlt]
    · simp [SegmentBuffer.held, hempty, hlt]

theorem splitIntoLoop_held (capacity fuel start : Nat) (text : Bytes) (buf : SegmentBuffer)
    (hroom : buf.inline.length < capacity → buf.overflow = []) :
    (splitIntoLoop capacity fuel start text buf).held = buf.held ++ splitLoop fuel start text := by
  induction fuel generalizing start text buf with
  | zero => simp [splitIntoLoop, splitLoop]
  | succ fuel ih =>
    rw [splitIntoLoop, splitLoop]
    cases splitFirst slash text with
    | none =>
      by_cases ht : text = []
      · simp [ht]
      · simpa [ht] using (SegmentBuffer.held_store hroom ⟨start, text⟩).1
    | some parts =>
      obtain ⟨segment, rest⟩ := parts
      by_cases hs : segment = []
      · simpa [hs] using ih _ rest buf hroom
      · obtain ⟨hheld, hroom'⟩ := SegmentBuffer.held_store hroom ⟨start, segment⟩
        simp only [if_neg hs]
        rw [ih _ rest _ hroom', hheld, List.append_assoc]

/-- The array and the overflow vector make no difference to the segments. -/
theorem splitPathInto_eq (capacity : Nat) (normalized : Bytes) :
    splitPathInto capacity normalized = splitPathView normalized := by
  rw [splitPathInto, splitPathView]
  by_cases h : normalized = [] ∨ normalized = [slash]
  · simp [h]
  · simp only [if_neg h]
    exact (splitIntoLoop_held capacity _ _ _ ⟨[], []⟩ fun _ => rfl).trans (List.nil_append _)

/-- The segments of a path that is yet to be normalised. -/
def segmentsOf (path : Bytes) : List View := splitPathView (normalizePathView path)

/-- `compute_wildcard_slice`: from the first of these segments to the end of the last. -/
def computeWildcardSlice (normalized : Bytes) (segments : List View) : View :=
  match segments with
  | [] => ⟨0, []⟩
  | first :: rest =>
      let stop := ((first :: rest).getLast (List.cons_ne_nil first rest)).stop
      ⟨first.offset, (normalized.drop first.offset).take (stop - first.offset)⟩

/-- `ParsedSegment`. -/
inductive Segment where
  | static (label : Bytes)
  | param (name : Bytes)
  | regexParam (name pattern : Bytes)
  | wildcard (name : Bytes)
  deriving DecidableEq, Repr

/-- `parse_segment`. -/
def parseSegment (segment : Bytes) : Segment :=
  if segment.head? = some colon then .param (segment.drop 1)
  else if 2 ≤ segment.length ∧ segment.head? = some openBrace ∧
      segment.getLast? = some closeBrace then
    let inner := (segment.drop 1).take (segment.length - 2)
    match splitFirst colon inner with
    | some (name, pattern) => .regexParam name pattern
    | none => .param inner
  else if segment.head? = some asterisk then
    .wildcard (if 1 < segment.length then segment.drop 1 else [asterisk])
  else .static segment

/-- The segments of a pattern as it is registered. -/
def parsePattern (pattern : Bytes) : List Segment :=
  (segmentsOf pattern).map fun v => parseSegment v.text

end RouterPaths
