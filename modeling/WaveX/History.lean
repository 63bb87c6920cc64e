import Mathlib.Logic.Relation

/-! # Histories and transition systems

    A small library for systems that keep a history of what they have done.

    A history is a list of events, newest first.  `Always P` says that every event
    of it stands in the relation `P` to the events before it, so a property of
    whole runs is a predicate on the final history, and a condition on the steps of
    a run is one too.

    A `System` is a set of initial states with a step relation.  The rules below
    are the ones a safety proof needs: an inductive invariant holds in every
    reachable state, also when the steps are only good as long as a condition on
    the history holds (`invariant_while`), and it carries over from an abstract
    system to one that refines it (`Refines.reachable`). -/

namespace History

open List

variable {ε : Type*} {P : ε → List ε → Prop}

/-- Every event of a history stands in the relation `P` to the events before it. -/
def Always (P : ε → List ε → Prop) : List ε → Prop
  | [] => True
  | e :: past => P e past ∧ Always P past

@[simp]
theorem always_nil : Always P [] := trivial

@[simp]
theorem always_cons {e : ε} {past : List ε} :
    Always P (e :: past) ↔ P e past ∧ Always P past := Iff.rfl

instance Always.decidable [∀ e past, Decidable (P e past)] :
    (events : List ε) → Decidable (Always P events)
  | [] => .isTrue trivial
  | e :: past =>
      have := Always.decidable past
      inferInstanceAs (Decidable (P e past ∧ Always P past))

/-- What always holds along a history held along its past. -/
theorem Always.past {later events : List ε} (h : Always P (later ++ events)) :
    Always P events := by
  induction later with
  | nil => exact h
  | cons e later ih => exact ih h.2

/-- A history with later events: these stand in the relation to what precedes them, the
    history included. -/
theorem always_append {later events : List ε} :
    Always P (later ++ events) ↔
      Always (fun e past => P e (past ++ events)) later ∧ Always P events := by
  induction later with
  | nil => simp only [nil_append, always_nil, true_and]
  | cons e later ih => rw [cons_append, always_cons, always_cons, ih, and_assoc]

variable {later past : List ε}

/-- The relation at an event in the middle of a history. -/
theorem Always.split {e : ε} (h : Always P (later ++ e :: past)) :
    P e past := h.past.1

/-- The relation at some occurrence of an event that happened. -/
theorem Always.of_mem {events : List ε} {e : ε} (h : Always P events) (he : e ∈ events) :
    ∃ past, P e past ∧ past.length < events.length ∧ past <:+ events := by
  obtain ⟨later, past, rfl⟩ := append_of_mem he
  refine ⟨past, h.split, ?_, ?_⟩
  · simp only [length_append, length_cons]
    omega
  · exact ⟨later ++ [e], by simp⟩

/-- An event that fails a test all events pass did not happen. -/
theorem not_mem_of_all {p : ε → Bool} {events : List ε} {e : ε}
    (h : events.all p = true) (he : p e = false) : e ∉ events := by
  intro hmem
  rw [all_eq_true.mp h e hmem] at he
  exact nomatch he

/-- The sum of a quantity over the events of a history. -/
def total (f : ε → Nat) : List ε → Nat
  | [] => 0
  | e :: past => total f past + f e

/-- Events that contribute nothing do not change the total. -/
theorem total_append_of_zero {f : ε → Nat} (h : ∀ e ∈ later, f e = 0) :
    total f (later ++ past) = total f past := by
  induction later with
  | nil => rfl
  | cons e later ih =>
      rw [cons_append, total, ih (fun e' he' => h e' (mem_cons_of_mem _ he')),
        h e mem_cons_self, Nat.add_zero]

/-- A total is zero exactly when no event contributes. -/
theorem total_eq_zero_iff {f : ε → Nat} {events : List ε} :
    total f events = 0 ↔ ∀ e ∈ events, f e = 0 := by
  induction events with
  | nil => simp [total]
  | cons e past ih =>
      rw [total, Nat.add_eq_zero_iff, ih]
      simp only [mem_cons, forall_eq_or_imp]
      exact and_comm

/-- The largest value that some of the events of a history carry, at least
    `initial`. -/
def largest (f : ε → Option Nat) (initial : Nat) : List ε → Nat
  | [] => initial
  | e :: past =>
      match f e with
      | none => largest f initial past
      | some v => max (largest f initial past) v

/-- Events that carry no value do not change the largest one. -/
theorem largest_append_of_none {f : ε → Option Nat} {initial : Nat} (h : ∀ e ∈ later, f e = none) :
    largest f initial (later ++ past) = largest f initial past := by
  induction later with
  | nil => rfl
  | cons e later ih =>
      rw [cons_append, largest, h e mem_cons_self]
      exact ih (fun e' he' => h e' (mem_cons_of_mem _ he'))

/-- The largest value only grows. -/
theorem largest_le_append {f : ε → Option Nat} {initial : Nat} :
    largest f initial past ≤ largest f initial (later ++ past) := by
  induction later with
  | nil => exact Nat.le_refl _
  | cons e later ih =>
      rw [cons_append, largest]
      cases f e with
      | none => exact ih
      | some v => exact Nat.le_trans ih (Nat.le_max_left _ _)

end History

/-- A transition system: initial states and a step relation. -/
structure System (σ : Type*) where
  init : σ → Prop
  next : σ → σ → Prop

namespace System

variable {σ τ : Type*}

/-- The states a system can get to. -/
def Reachable (sys : System σ) (s : σ) : Prop :=
  ∃ s₀, sys.init s₀ ∧ Relation.ReflTransGen sys.next s₀ s

variable {sys : System σ} {s : σ}

/-- An inductive invariant holds in every reachable state. -/
theorem Reachable.invariant {I : σ → Prop} (h : sys.Reachable s)
    (hinit : ∀ s, sys.init s → I s) (hnext : ∀ s s', sys.next s s' → I s → I s') : I s := by
  obtain ⟨s₀, h₀, hrun⟩ := h
  induction hrun with
  | refl => exact hinit s₀ h₀
  | tail _ hstep ih => exact hnext _ _ hstep ih

/-- An invariant that a step keeps as long as `G` holds after it; `G` is a
    condition that cannot become true again once it has failed. -/
theorem Reachable.invariant_while {G I : σ → Prop} (h : sys.Reachable s)
    (hgood : ∀ s s', sys.next s s' → G s' → G s) (hinit : ∀ s, sys.init s → I s)
    (hnext : ∀ s s', sys.next s s' → G s' → I s → I s') (hs : G s) : I s := by
  have hI : G s → I s := by
    refine h.invariant (I := fun s => G s → I s) (fun s h₀ _ => hinit s h₀) ?_
    intro s s' hstep ih hg
    exact hnext s s' hstep hg (ih (hgood s s' hstep hg))
  exact hI hs

/-- `conc` refines `abs` along `view`: initial states are reachable above, and a
    step is a run above. -/
structure Refines (conc : System σ) (abs : System τ) (view : σ → τ) : Prop where
  init : ∀ s, conc.init s → abs.Reachable (view s)
  next : ∀ s s', conc.next s s' → Relation.ReflTransGen abs.next (view s) (view s')

/-- The view of a reachable state is reachable. -/
theorem Refines.reachable {conc : System σ} {abs : System τ} {view : σ → τ} {s : σ}
    (h : Refines conc abs view) (hs : conc.Reachable s) : abs.Reachable (view s) := by
  refine hs.invariant (I := fun s => abs.Reachable (view s)) h.init ?_
  intro s s' hstep ih
  obtain ⟨a₀, h₀, hrun⟩ := ih
  exact ⟨a₀, h₀, hrun.trans (h.next s s' hstep)⟩

end System
