import Mathlib.Algebra.GroupWithZero.Nat
import Mathlib.Data.List.Basic

/-! # Reassembly of a sequence from its pieces

    Pieces of a sequence arrive in any order, each with the position where it begins.  What
    is contiguous from the front is put out; the rest waits, sorted by position.  The pieces
    are read as the set of the positions that they cover. -/

namespace Reassembly

open List

variable {α : Type*}

/-- A piece with the position where it begins. -/
abbrev Piece (α : Type*) := Nat × List α

/-- A position inside a piece. -/
def inside (c : Piece α) (i : Nat) : Prop := c.1 ≤ i ∧ i < c.1 + c.2.length

/-- A position inside one of the pieces. -/
def Covered (pieces : List (Piece α)) (i : Nat) : Prop := ∃ c ∈ pieces, inside c i

/-- The pieces cover the first `n` positions and not the next one. -/
def Frontier (pieces : List (Piece α)) (n : Nat) : Prop :=
  (∀ i < n, Covered pieces i) ∧ ¬ Covered pieces n

/-- A piece of `S`. -/
def PieceOf (S : List α) (c : Piece α) : Prop :=
  c.1 + c.2.length ≤ S.length ∧ c.2 = (S.drop c.1).take c.2.length

/-- Sorted by position, no position twice. -/
def Sorted (pieces : List (Piece α)) : Prop := pieces.Pairwise fun a b => a.1 < b.1

/-- The size of all pieces together. -/
def totalSize (pieces : List (Piece α)) : Nat := (pieces.map fun c => c.2.length).sum

/-- Puts out the waiting pieces that have become contiguous, without what is already there:
    the position reached, the sequence put out and the pieces that wait on. -/
def drain : Nat → List α → List (Piece α) → Nat × List α × List (Piece α)
  | pos, out, [] => (pos, out, [])
  | pos, out, c :: rest =>
      if c.1 > pos then (pos, out, c :: rest)
      else if c.1 + c.2.length > pos then
        drain (c.1 + c.2.length) (out ++ c.2.drop (pos - c.1)) rest
      else drain pos out rest

@[simp] theorem not_covered_nil (i : Nat) : ¬ Covered ([] : List (Piece α)) i := by
  rintro ⟨c, hc, -⟩
  exact absurd hc not_mem_nil

theorem covered_cons (c : Piece α) (pieces : List (Piece α)) (i : Nat) :
    Covered (c :: pieces) i ↔ inside c i ∨ Covered pieces i := by
  constructor
  · rintro ⟨d, hd, hi⟩
    rcases mem_cons.mp hd with rfl | hd
    · exact .inl hi
    · exact .inr ⟨d, hd, hi⟩
  · rintro (hi | ⟨d, hd, hi⟩)
    · exact ⟨c, mem_cons_self, hi⟩
    · exact ⟨d, mem_cons_of_mem _ hd, hi⟩

theorem covered_concat (pieces : List (Piece α)) (c : Piece α) (i : Nat) :
    Covered (pieces ++ [c]) i ↔ Covered pieces i ∨ inside c i := by
  constructor
  · rintro ⟨d, hd, hi⟩
    rcases mem_append.mp hd with hd | hd
    · exact .inl ⟨d, hd, hi⟩
    · rw [mem_singleton.mp hd] at hi
      exact .inr hi
  · rintro (⟨d, hd, hi⟩ | hi)
    · exact ⟨d, mem_append_left _ hd, hi⟩
    · exact ⟨c, mem_append_right _ (mem_singleton.mpr rfl), hi⟩

/-- What is put out is the frontier, when all that waits lies ahead of it. -/
theorem frontier_of_covered {pos : Nat} {pending pieces : List (Piece α)}
    (hcovered : ∀ i, (i < pos ∨ Covered pending i) ↔ Covered pieces i)
    (hahead : ∀ c ∈ pending, pos < c.1) : Frontier pieces pos := by
  constructor
  · intro i hi
    exact (hcovered i).mp (.inl hi)
  · intro hcov
    rcases (hcovered pos).mpr hcov with hi | ⟨c, hc, hlo, -⟩
    · exact absurd hi (Nat.lt_irrefl _)
    · exact absurd (hahead c hc) (Nat.not_lt.mpr hlo)

/-- A piece of a sequence is a piece of a longer one. -/
theorem PieceOf.mono {S S' : List α} {c : Piece α} (h : PieceOf S c) (hpre : S <+: S') :
    PieceOf S' c := by
  obtain ⟨rest, rfl⟩ := hpre
  obtain ⟨hlen, hdata⟩ := h
  refine ⟨?_, ?_⟩
  · rw [length_append]
    omega
  · have hlo : c.1 ≤ S.length := by omega
    rw [drop_append_of_le_length hlo, take_append_of_le_length]
    · exact hdata
    · rw [length_drop]
      omega

/-- The end of a piece, from a position inside it on. -/
theorem PieceOf.drop {S : List α} {c : Piece α} (h : PieceOf S c) {pos : Nat} (hlo : c.1 ≤ pos) :
    c.2.drop (pos - c.1) = (S.drop pos).take (c.1 + c.2.length - pos) := by
  rw [h.2, drop_take, drop_drop]
  have hpos : c.1 + (pos - c.1) = pos := by omega
  have hlen : ((S.drop c.1).take c.2.length).length = c.2.length := by rw [← h.2]
  rw [hpos, hlen]
  congr 1
  omega

/-- A piece that begins at or before what is put out and ends behind it extends it. -/
theorem PieceOf.extend {S : List α} {c : Piece α} (h : PieceOf S c) {pos : Nat}
    (hlo : c.1 ≤ pos) (hhi : pos ≤ c.1 + c.2.length) :
    S.take pos ++ c.2.drop (pos - c.1) = S.take (c.1 + c.2.length) := by
  rw [h.drop hlo]
  have hsplit : c.1 + c.2.length = pos + (c.1 + c.2.length - pos) := by omega
  conv_rhs => rw [hsplit]
  rw [take_add]

/-- What one pass over the waiting pieces does. -/
structure Drained (S : List α) (pos : Nat) (pending : List (Piece α))
    (result : Nat × List α × List (Piece α)) : Prop where
  out : result.2.1 = S.take result.1
  forward : pos ≤ result.1
  bounded : result.1 ≤ max pos S.length
  suffix : result.2.2 <:+ pending
  beyond : ∀ c ∈ result.2.2, result.1 < c.1
  covered : ∀ i, (i < result.1 ∨ Covered result.2.2 i) ↔ (i < pos ∨ Covered pending i)

theorem drain_spec {S : List α} (pos : Nat) {pending : List (Piece α)} (hsorted : Sorted pending)
    (hpieces : ∀ c ∈ pending, PieceOf S c) :
    Drained S pos pending (drain pos (S.take pos) pending) := by
  induction pending generalizing pos with
  | nil =>
    exact ⟨rfl, Nat.le_refl _, Nat.le_max_left _ _, suffix_rfl,
      fun c h => absurd h not_mem_nil, fun i => Iff.rfl⟩
  | cons c rest ih =>
    obtain ⟨hfirst, hrest⟩ := pairwise_cons.mp hsorted
    have ih' := fun pos => ih pos hrest fun d hd => hpieces d (mem_cons_of_mem _ hd)
    have hc := hpieces c mem_cons_self
    rw [drain]
    by_cases hgap : c.1 > pos
    · rw [if_pos hgap]
      refine ⟨rfl, Nat.le_refl _, Nat.le_max_left _ _, suffix_rfl, ?_, fun i => Iff.rfl⟩
      intro d hd
      rcases mem_cons.mp hd with rfl | hd
      · exact hgap
      · exact Nat.lt_trans hgap (hfirst d hd)
    · rw [if_neg hgap]
      by_cases hnew : c.1 + c.2.length > pos
      · rw [if_pos hnew, hc.extend (by omega) (by omega)]
        obtain ⟨hout, hforward, hbounded, hsuffix, hbeyond, hcovered⟩ :=
          ih' (c.1 + c.2.length)
        refine ⟨hout, by omega, ?_, hsuffix.trans (suffix_cons c rest), hbeyond, ?_⟩
        · have hend := hc.1
          omega
        · intro i
          rw [hcovered, covered_cons, inside]
          constructor
          · rintro (hi | hi)
            · by_cases hlo : c.1 ≤ i
              · exact .inr (.inl ⟨hlo, hi⟩)
              · exact .inl (by omega)
            · exact .inr (.inr hi)
          · rintro (hi | hi | hi)
            · exact .inl (by omega)
            · exact .inl hi.2
            · exact .inr hi
      · rw [if_neg hnew]
        obtain ⟨hout, hforward, hbounded, hsuffix, hbeyond, hcovered⟩ := ih' pos
        refine ⟨hout, hforward, hbounded, hsuffix.trans (suffix_cons c rest), hbeyond, ?_⟩
        intro i
        rw [hcovered, covered_cons, inside]
        constructor
        · rintro (hi | hi)
          · exact .inl hi
          · exact .inr (.inr hi)
        · rintro (hi | hi | hi)
          · exact .inl hi
          · exact .inl (by omega)
          · exact .inr hi

/-- The pieces that wait on are the last ones that waited. -/
theorem drain_suffix (pos : Nat) (out : List α) (pending : List (Piece α)) :
    (drain pos out pending).2.2 <:+ pending := by
  induction pending generalizing pos out with
  | nil => exact suffix_rfl
  | cons c rest ih =>
    rw [drain]
    split
    · exact suffix_rfl
    · split
      · exact (ih _ _).trans (suffix_cons c rest)
      · exact (ih _ _).trans (suffix_cons c rest)

/-- A pass only adds to what was put out before. -/
theorem drain_out (pos : Nat) (out : List α) (pending : List (Piece α)) :
    drain pos out pending =
      ((drain pos [] pending).1, out ++ (drain pos [] pending).2.1, (drain pos [] pending).2.2) := by
  induction pending generalizing pos out with
  | nil =>
    rw [drain, drain, append_nil]
  | cons c rest ih =>
    rw [drain, drain]
    split
    · rw [append_nil]
    · split
      · rw [ih, nil_append, ih _ (c.2.drop (pos - c.1)), append_assoc]
      · rw [ih]

/-- A pass does not go beyond the ends of the pieces; an empty one puts out nothing. -/
theorem drain_le {pos limit : Nat} (hpos : pos ≤ limit) (out : List α)
    {pending : List (Piece α)}
    (hends : ∀ c ∈ pending, c.2 ≠ [] → c.1 + c.2.length ≤ limit) :
    (drain pos out pending).1 ≤ limit := by
  induction pending generalizing pos out with
  | nil => exact hpos
  | cons c rest ih =>
    have hrest := fun d hd => hends d (mem_cons_of_mem c hd)
    rw [drain]
    split
    · exact hpos
    · next hgap =>
      split
      · next hnew =>
        have hne : c.2 ≠ [] := by
          intro hnil
          rw [hnil, length_nil] at hnew
          omega
        exact ih (hends c mem_cons_self hne) _ hrest
      · exact ih hpos _ hrest

end Reassembly
