import Mathlib.Data.List.Flatten

/-! # Pieces cut into chunks

    A small library for senders that cut what they are handed into chunks of a size they
    find out as they go.  A piece is a content with a mark; its chunks carry the content
    in order, and the mark is on the last of them only.

    `Cuts` relates the pieces handed over so far to the chunks that went out.  A sender
    in the middle of its work is `Ready` between two pieces and `Midway` inside one, and
    the lemmas below are its moves. -/

namespace Chunks

variable {α : Type*}

/-- The chunks of one piece: all but the last are unmarked. -/
def Cut (piece : List α × Bool) (chunks : List (List α × Bool)) : Prop :=
  ∃ (init : List (List α)) (last : List α),
    chunks = init.map (·, false) ++ [(last, piece.2)] ∧
      init.flatten ++ last = piece.1

/-- The chunks of a sequence of pieces. -/
inductive Cuts : List (List α × Bool) → List (List α × Bool) → Prop where
  | nil : Cuts [] []
  | snoc {pieces chunks piece more} (h : Cuts pieces chunks) (hcut : Cut piece more) :
      Cuts (pieces ++ [piece]) (chunks ++ more)

/-- The pieces but those in `todo` are out. -/
def Ready (pieces todo chunks : List (List α × Bool)) : Prop :=
  ∃ done, pieces = done ++ todo ∧ Cuts done chunks

/-- All but `todo` and one piece are out, and of this piece all but `rest`. -/
def Midway (pieces todo : List (List α × Bool)) (rest : List α) (mark : Bool)
    (chunks : List (List α × Bool)) : Prop :=
  ∃ (done before : List (List α × Bool)) (init : List (List α)),
    pieces = done ++ (init.flatten ++ rest, mark) :: todo ∧
      Cuts done before ∧ chunks = before ++ init.map (·, false)

variable {pieces todo chunks : List (List α × Bool)} {rest : List α} {mark : Bool}

theorem Cut.content {piece : List α × Bool} (h : Cut piece chunks) :
    chunks.flatMap Prod.fst = piece.1 := by
  obtain ⟨init, last, rfl, hcontent⟩ := h
  rw [List.flatMap_append, List.flatMap_map, ← hcontent]
  simp [List.flatMap_id']

/-- New pieces are handed over. -/
theorem Cuts.start (h : Cuts pieces chunks) (new : List (List α × Bool)) :
    Ready (pieces ++ new) new chunks := ⟨pieces, rfl, h⟩

/-- The next piece is taken up. -/
theorem Ready.take (h : Ready pieces ((rest, mark) :: todo) chunks) :
    Midway pieces todo rest mark chunks := by
  obtain ⟨done, rfl, hcuts⟩ := h
  exact ⟨done, chunks, [], rfl, hcuts, (List.append_nil _).symm⟩

/-- A chunk goes out that is not the last of its piece. -/
theorem Midway.chunk (h : Midway pieces todo rest mark chunks) (n : Nat) :
    Midway pieces todo (rest.drop n) mark (chunks ++ [(rest.take n, false)]) := by
  obtain ⟨done, before, init, hpieces, hcuts, hchunks⟩ := h
  refine ⟨done, before, init ++ [rest.take n], ?_, hcuts, ?_⟩
  · rw [List.flatten_append, List.flatten_singleton, List.append_assoc, List.take_append_drop]
    exact hpieces
  · rw [hchunks, List.map_append, List.append_assoc]
    rfl

/-- The last chunk of a piece goes out. -/
theorem Midway.last (h : Midway pieces todo rest mark chunks) :
    Ready pieces todo (chunks ++ [(rest, mark)]) := by
  obtain ⟨done, before, init, hpieces, hcuts, hchunks⟩ := h
  refine ⟨done ++ [(init.flatten ++ rest, mark)], ?_, ?_⟩
  · rw [hpieces, List.append_assoc]
    rfl
  · rw [hchunks, List.append_assoc]
    exact hcuts.snoc ⟨init, rest, rfl, rfl⟩

/-- Everything handed over is out. -/
theorem Ready.done (h : Ready pieces [] chunks) : Cuts pieces chunks := by
  obtain ⟨done, rfl, hcuts⟩ := h
  rw [List.append_nil]
  exact hcuts

end Chunks
