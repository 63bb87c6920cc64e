import Mathlib.Data.List.Basic

/-! # Sets of numbers as lists of intervals

    A set of numbers kept as a list of closed intervals, in order, each apart from the next:
    at least one number lies between two of them.  A number is added by extending or merging
    the intervals that it touches, or by a new interval of its own. -/

namespace IntervalList

open List

/-- A closed interval. -/
abbrev Interval := Nat × Nat

/-- `p` ends before `q` and at least one number lies between them. -/
def Apart (p q : Interval) : Prop := p.2 + 1 < q.1

/-- The number lies in one of the intervals. -/
def Holds (intervals : List Interval) (n : Nat) : Prop :=
  ∃ p ∈ intervals, p.1 ≤ n ∧ n ≤ p.2

/-- No interval is empty, and each ends apart from all that follow. -/
structure Ordered (intervals : List Interval) : Prop where
  proper : ∀ p ∈ intervals, p.1 ≤ p.2
  apart : intervals.Pairwise Apart

/-- Adds a number. -/
def add (n : Nat) : List Interval → List Interval
  | [] => [(n, n)]
  | p :: rest =>
      if p.2 + 1 < n then p :: add n rest
      else if n + 1 < p.1 then (n, n) :: p :: rest
      else if n + 1 = p.1 then (n, p.2) :: rest
      else if n ≤ p.2 then p :: rest
      else
        match rest with
        | [] => [(p.1, n)]
        | q :: after => if n + 1 = q.1 then (p.1, q.2) :: after else (p.1, n) :: q :: after

/-! ## Membership -/

@[simp] theorem holds_nil (n : Nat) : ¬ Holds [] n := by
  rintro ⟨p, hp, -⟩
  exact absurd hp not_mem_nil

@[simp] theorem holds_cons (p : Interval) (rest : List Interval) (n : Nat) :
    Holds (p :: rest) n ↔ (p.1 ≤ n ∧ n ≤ p.2) ∨ Holds rest n := by
  constructor
  · rintro ⟨q, hq, hn⟩
    rcases mem_cons.mp hq with rfl | hq
    · exact .inl hn
    · exact .inr ⟨q, hq, hn⟩
  · rintro (hn | ⟨q, hq, hn⟩)
    · exact ⟨p, mem_cons_self, hn⟩
    · exact ⟨q, mem_cons_of_mem _ hq, hn⟩

variable {p : Interval}

theorem Ordered.tail {rest : List Interval} (h : Ordered (p :: rest)) :
    Ordered rest :=
  ⟨fun q hq => h.proper q (mem_cons_of_mem _ hq), h.apart.tail⟩

theorem Ordered.cons {rest : List Interval} (h : Ordered rest) (hp : p.1 ≤ p.2)
    (hapart : ∀ q ∈ rest, Apart p q) : Ordered (p :: rest) := by
  refine ⟨?_, pairwise_cons.mpr ⟨hapart, h.apart⟩⟩
  intro q hq
  rcases mem_cons.mp hq with rfl | hq
  · exact hp
  · exact h.proper q hq

theorem Ordered.sublist {intervals sub : List Interval} (h : Ordered intervals)
    (hsub : sub.Sublist intervals) : Ordered sub :=
  ⟨fun p hp => h.proper p (hsub.subset hp), h.apart.sublist hsub⟩

/-- Every interval of an ordered list lies at or behind the first one. -/
theorem Ordered.head_le {rest : List Interval} (h : Ordered (p :: rest)) :
    ∀ q ∈ p :: rest, p.1 ≤ q.1 := by
  intro q hq
  rcases mem_cons.mp hq with rfl | hq
  · exact Nat.le_refl _
  · have hapart : p.2 + 1 < q.1 := rel_of_pairwise_cons h.apart hq
    have hp := h.proper p mem_cons_self
    omega

/-! ## Adding a number -/

/-- The list holds what it held, and the number. -/
theorem holds_add {intervals : List Interval} (h : Ordered intervals) (n m : Nat) :
    Holds (add n intervals) m ↔ m = n ∨ Holds intervals m := by
  induction intervals with
  | nil =>
    simp only [add, holds_cons, holds_nil, or_false]
    omega
  | cons p rest ih =>
    have hp := h.proper p mem_cons_self
    rw [add.eq_def]
    dsimp only
    split
    · rw [holds_cons, holds_cons, ih h.tail, or_left_comm]
    · split
      · simp only [holds_cons]
        refine or_congr_left ?_
        omega
      · split
        · simp only [holds_cons, ← or_assoc]
          refine or_congr_left ?_
          omega
        · split
          · simp only [holds_cons, ← or_assoc]
            refine or_congr_left ?_
            omega
          · cases rest with
            | nil =>
              simp only [holds_cons, holds_nil, or_false]
              omega
            | cons q after =>
              have hq := h.proper q (mem_cons_of_mem _ mem_cons_self)
              dsimp only
              split
              · simp only [holds_cons, ← or_assoc]
                refine or_congr_left ?_
                omega
              · simp only [holds_cons, ← or_assoc]
                refine or_congr_left (or_congr_left ?_)
                omega

/-- An interval that lies below the list and apart from a number lies apart from the list
    with that number. -/
theorem apart_add {n : Nat} {intervals : List Interval} (hn : p.2 + 1 < n)
    (h : ∀ q ∈ intervals, Apart p q) : ∀ q ∈ add n intervals, Apart p q := by
  induction intervals with
  | nil =>
    intro q hq
    rw [mem_singleton.mp hq]
    exact hn
  | cons r rest ih =>
    obtain ⟨hr, hrest⟩ := forall_mem_cons.mp h
    rw [add.eq_def]
    dsimp only
    split
    · exact forall_mem_cons.mpr ⟨hr, ih hrest⟩
    · split
      · exact forall_mem_cons.mpr ⟨hn, h⟩
      · split
        · exact forall_mem_cons.mpr ⟨hn, hrest⟩
        · split
          · exact h
          · cases rest with
            | nil => exact forall_mem_cons.mpr ⟨hr, hrest⟩
            | cons q after =>
              dsimp only
              split
              · exact forall_mem_cons.mpr ⟨hr, (forall_mem_cons.mp hrest).2⟩
              · exact forall_mem_cons.mpr ⟨hr, hrest⟩

theorem add_ordered {intervals : List Interval} (h : Ordered intervals) (n : Nat) :
    Ordered (add n intervals) := by
  induction intervals with
  | nil =>
    refine Ordered.cons h (Nat.le_refl n) ?_
    intro q hq
    exact absurd hq not_mem_nil
  | cons p rest ih =>
    have hp := h.proper p mem_cons_self
    have hfirst : ∀ q ∈ rest, Apart p q := fun q hq => rel_of_pairwise_cons h.apart hq
    rw [add.eq_def]
    dsimp only
    split
    · next hbelow => exact (ih h.tail).cons hp (apart_add hbelow hfirst)
    · split
      · next habove =>
        refine h.cons (Nat.le_refl n) ?_
        intro q hq
        exact Nat.lt_of_lt_of_le habove (h.head_le q hq)
      · split
        · next htouch => exact h.tail.cons (by dsimp only; omega) hfirst
        · split
          · exact h
          · cases rest with
            | nil =>
              refine h.tail.cons (by dsimp only; omega) ?_
              intro q hq
              exact absurd hq not_mem_nil
            | cons q after =>
              have hq := h.tail.proper q mem_cons_self
              have hgap : p.2 + 1 < q.1 := hfirst q mem_cons_self
              have hnext : ∀ r ∈ after, Apart q r :=
                fun r hr => rel_of_pairwise_cons h.tail.apart hr
              dsimp only
              split
              · exact h.tail.tail.cons (by dsimp only; omega) hnext
              · refine h.tail.cons (by dsimp only; omega) ?_
                intro r hr
                have hle := h.tail.head_le r hr
                show n + 1 < r.1
                omega

/-- At most one interval is new. -/
theorem add_length (n : Nat) (intervals : List Interval) :
    (add n intervals).length ≤ intervals.length + 1 := by
  induction intervals with
  | nil => exact Nat.le_refl _
  | cons p rest ih =>
    rw [add.eq_def]
    dsimp only
    split
    · rw [length_cons, length_cons]
      omega
    · split
      · exact Nat.le_refl _
      · split
        · exact Nat.le_succ _
        · split
          · exact Nat.le_succ _
          · cases rest with
            | nil => exact Nat.le_succ _
            | cons q after =>
              dsimp only
              split
              · exact Nat.le_succ_of_le (Nat.le_succ _)
              · exact Nat.le_succ _

/-- A number further above belongs behind the interval. -/
theorem add_behind {n : Nat} (hfar : p.2 + 1 < n) (rest : List Interval) :
    add n (p :: rest) = p :: add n rest := by
  rw [add.eq_def]
  dsimp only
  rw [if_pos hfar]

/-- Intervals that end too far below the number stay as they are. -/
theorem add_append {n : Nat} {below : List Interval} (h : ∀ p ∈ below, p.2 + 1 < n)
    (rest : List Interval) : add n (below ++ rest) = below ++ add n rest := by
  induction below with
  | nil => rfl
  | cons p below ih =>
    obtain ⟨hp, hbelow⟩ := forall_mem_cons.mp h
    rw [cons_append, add_behind hp, ih hbelow, cons_append]

/-- A number that ends no lower than the first interval. -/
theorem add_found {n : Nat} (hle : n ≤ p.2) (rest : List Interval) :
    add n (p :: rest) =
      if p.1 ≤ n then p :: rest
      else if n + 1 = p.1 then (n, p.2) :: rest
      else (n, n) :: p :: rest := by
  rw [add.eq_def]
  dsimp only
  rw [if_neg (by omega)]
  by_cases hin : p.1 ≤ n
  · rw [if_neg (by omega), if_neg (by omega), if_pos hle, if_pos hin]
  · rw [if_neg hin]
    by_cases htouch : n + 1 = p.1
    · rw [if_neg (by omega), if_pos htouch, if_pos htouch]
    · rw [if_pos (by omega), if_neg htouch]

/-- A number just above the last interval extends it. -/
theorem add_extend_last {n : Nat} (hp : p.1 ≤ p.2) (htouch : p.2 + 1 = n) :
    add n [p] = [(p.1, n)] := by
  rw [add.eq_def]
  dsimp only
  rw [if_neg (by omega), if_neg (by omega), if_neg (by omega), if_neg (by omega)]

/-- A number just above an interval extends it, and closes the gap to the next one when that
    begins just above the number. -/
theorem add_extend {n : Nat} (hp : p.1 ≤ p.2) (htouch : p.2 + 1 = n) (q : Interval)
    (after : List Interval) :
    add n (p :: q :: after) =
      if n + 1 = q.1 then (p.1, q.2) :: after else (p.1, n) :: q :: after := by
  rw [add.eq_def]
  dsimp only
  rw [if_neg (by omega), if_neg (by omega), if_neg (by omega), if_neg (by omega)]

end IntervalList
