import Mathlib.Algebra.GroupWithZero.Nat
import Mathlib.Data.List.Count
import WaveX.History

/-! # Runs of labelled steps

    A small library for systems whose step is a partial function of an action: the action is
    not possible in a state when the step has no result.  A list of actions is a schedule.

    What one step keeps, a run keeps (`run_invariant`).  A measure that every step of a kind
    takes down and no other step raises bounds how often a run takes steps of that kind
    (`countP_add_le`). -/

namespace Labelled

open List

variable {σ α : Type*} (step : σ → α → Option σ)

/-- The state after a schedule. -/
def run : σ → List α → Option σ
  | s, [] => some s
  | s, a :: rest => (step s a).bind fun s => run s rest

variable {step} {s s' : σ} {a : α} {as bs : List α}

@[simp]
theorem run_nil : run step s [] = some s := rfl

theorem run_cons : run step s (a :: as) = some s' ↔
    ∃ s₁, step s a = some s₁ ∧ run step s₁ as = some s' := by
  rw [run, Option.bind_eq_some_iff]

theorem run_append : run step s (as ++ bs) = some s' ↔
    ∃ s₁, run step s as = some s₁ ∧ run step s₁ bs = some s' := by
  induction as generalizing s with
  | nil =>
    constructor
    · intro h
      exact ⟨s, rfl, h⟩
    · rintro ⟨s₁, hs, h⟩
      cases hs
      exact h
  | cons a as ih =>
    rw [cons_append, run_cons]
    constructor
    · rintro ⟨s₁, ha, h⟩
      obtain ⟨s₂, hs₂, h⟩ := ih.mp h
      exact ⟨s₂, run_cons.mpr ⟨s₁, ha, hs₂⟩, h⟩
    · rintro ⟨s₂, hs₂, h⟩
      obtain ⟨s₁, ha, hs₂⟩ := run_cons.mp hs₂
      exact ⟨s₁, ha, ih.mpr ⟨s₂, hs₂, h⟩⟩

/-- What every step keeps, a run keeps. -/
theorem run_invariant {I : σ → Prop} (hkeep : ∀ {s s' a}, step s a = some s' → I s → I s')
    (h : run step s as = some s') (hs : I s) : I s' := by
  induction as generalizing s with
  | nil =>
    cases h
    exact hs
  | cons a as ih =>
    obtain ⟨s₁, ha, h⟩ := run_cons.mp h
    exact ih h (hkeep ha hs)

/-- Every step of a schedule meets a condition on its action and the state before it. -/
def Along (step : σ → α → Option σ) (G : σ → α → Prop) : σ → List α → Prop
  | _, [] => True
  | s, a :: rest => G s a ∧ ∀ s₁, step s a = some s₁ → Along step G s₁ rest

theorem along_cons {G : σ → α → Prop} {t : σ} (hgood : G s a) (ha : step s a = some t)
    (hrest : Along step G t as) : Along step G s (a :: as) := by
  refine ⟨hgood, fun t' ht' => ?_⟩
  cases ha.symm.trans ht'
  exact hrest

/-- What every step keeps that meets a condition, a run keeps whose steps all meet it. -/
theorem run_invariant_along {G : σ → α → Prop} {I : σ → Prop}
    (hkeep : ∀ {s s' a}, G s a → step s a = some s' → I s → I s')
    (hgood : Along step G s as) (h : run step s as = some s') (hs : I s) : I s' := by
  induction as generalizing s with
  | nil =>
    cases h
    exact hs
  | cons a as ih =>
    obtain ⟨s₁, ha, h⟩ := run_cons.mp h
    exact ih (hgood.2 s₁ ha) h (hkeep hgood.1 ha hs)

/-- What holds of the schedule so far and the state behind it is kept by a run whose steps all
    meet a condition, if every such step keeps it. -/
theorem run_history_along {G : σ → α → Prop} {I : List α → σ → Prop} {s₀ : σ} {front : List α}
    (hkeep : ∀ {front s a s'}, run step s₀ front = some s → G s a → step s a = some s' →
      I front s → I (front ++ [a]) s')
    (hfront : run step s₀ front = some s) (hgood : Along step G s as)
    (h : run step s as = some s') (hs : I front s) : I (front ++ as) s' := by
  induction as generalizing s front with
  | nil =>
    cases h
    rwa [append_nil]
  | cons a as ih =>
    obtain ⟨s₁, ha, h⟩ := run_cons.mp h
    have hnext : run step s₀ (front ++ [a]) = some s₁ :=
      run_append.mpr ⟨s, hfront, run_cons.mpr ⟨s₁, ha, rfl⟩⟩
    have hrest := ih hnext (hgood.2 s₁ ha) h (hkeep hfront hgood.1 ha hs)
    rwa [append_assoc] at hrest

/-! ## Measures -/

variable {I : σ → Prop} {p : α → Bool} {μ : σ → Nat}

/-- A run takes no more steps of a kind than the measure allows. -/
theorem countP_add_le (hkeep : ∀ {s s' a}, step s a = some s' → I s → I s')
    (hdown : ∀ {s s' a}, step s a = some s' → I s → p a = true → μ s' < μ s)
    (hother : ∀ {s s' a}, step s a = some s' → I s → p a = false → μ s' ≤ μ s)
    (h : run step s as = some s') (hs : I s) : as.countP p + μ s' ≤ μ s := by
  induction as generalizing s with
  | nil =>
    cases h
    exact Nat.le_of_eq (Nat.zero_add _)
  | cons a as ih =>
    obtain ⟨s₁, ha, h⟩ := run_cons.mp h
    have hrest := ih h (hkeep ha hs)
    cases hp : p a with
    | true =>
      have hlt := hdown ha hs hp
      rw [countP_cons_of_pos hp]
      omega
    | false =>
      have hle := hother ha hs hp
      rw [countP_cons_of_neg (by rw [hp]; exact Bool.false_ne_true)]
      omega

/-! ## As a transition system -/

/-- The transition system of the steps. -/
def system (step : σ → α → Option σ) (init : σ → Prop) : System σ where
  init := init
  next s s' := ∃ a, step s a = some s'

theorem reflTransGen_of_run {init : σ → Prop} (h : run step s as = some s') :
    Relation.ReflTransGen (system step init).next s s' := by
  induction as generalizing s with
  | nil =>
    cases h
    exact .refl
  | cons a as ih =>
    obtain ⟨s₁, ha, h⟩ := run_cons.mp h
    exact .head ⟨a, ha⟩ (ih h)

/-- The reachable states are those after the schedules. -/
theorem reachable_iff {init : σ → Prop} :
    (system step init).Reachable s' ↔ ∃ s as, init s ∧ run step s as = some s' := by
  constructor
  · rintro ⟨s₀, h₀, hrun⟩
    induction hrun with
    | refl => exact ⟨s₀, [], h₀, rfl⟩
    | tail _ hnext ih =>
      obtain ⟨s, as, hs, h⟩ := ih
      obtain ⟨a, ha⟩ := hnext
      exact ⟨s, as ++ [a], hs, run_append.mpr ⟨_, h, run_cons.mpr ⟨_, ha, rfl⟩⟩⟩
  · rintro ⟨s, as, hs, h⟩
    exact ⟨s, hs, reflTransGen_of_run h⟩

/-! ## Parties -/

/-- One party of a list, and what stands there when it has moved. -/
theorem exists_split {β : Type*} {parties : List β} {i : Nat} {b : β}
    (h : parties[i]? = some b) :
    ∃ front back, parties = front ++ b :: back ∧ front.length = i ∧
      ∀ b', parties.set i b' = front ++ b' :: back := by
  obtain ⟨hi, hb⟩ := List.getElem?_eq_some_iff.mp h
  refine ⟨parties.take i, parties.drop (i + 1), ?_, length_take_of_le (Nat.le_of_lt hi), ?_⟩
  · rw [← hb, getElem_cons_drop hi, take_append_drop]
  · intro b'
    rw [set_eq_take_append_cons_drop, if_pos hi]

section

variable {β γ : Type*} {parties : List β} {i : Nat} {b : β} (h : parties[i]? = some b)

include h

theorem countP_set_add (f : β → Bool) (b' : β) :
    (parties.set i b').countP f + (if f b = true then 1 else 0) =
      parties.countP f + if f b' = true then 1 else 0 := by
  obtain ⟨front, back, hsplit, -, hset⟩ := exists_split h
  rw [hset, hsplit, countP_append, countP_append, countP_cons, countP_cons]
  omega

theorem sum_map_set_add (f : β → Nat) (b' : β) :
    ((parties.set i b').map f).sum + f b = (parties.map f).sum + f b' := by
  obtain ⟨front, back, hsplit, -, hset⟩ := exists_split h
  rw [hset, hsplit, map_append, map_append, map_cons, map_cons,
    sum_append, sum_append, sum_cons, sum_cons]
  omega

theorem filterMap_set_perm (g : β → Option γ) (b' : β) :
    ((parties.set i b').filterMap g ++ (g b).toList).Perm
      (parties.filterMap g ++ (g b').toList) := by
  obtain ⟨front, back, hsplit, -, hset⟩ := exists_split h
  have hcons (c : β) : (c :: back).filterMap g = (g c).toList ++ back.filterMap g := by
    rw [filterMap_cons]
    cases g c <;> rfl
  rw [hset, hsplit, filterMap_append, filterMap_append, hcons, hcons,
    append_assoc, append_assoc, append_assoc]
  refine List.Perm.append_left _ ?_
  refine perm_append_comm.trans ?_
  exact perm_append_comm.append_right _

theorem any_of_set {f : β → Bool} {b' : β} (hany : (parties.set i b').any f = true) :
    f b' = true ∨ parties.any f = true := by
  obtain ⟨front, back, hsplit, -, hset⟩ := exists_split h
  rw [hset, any_append, any_cons] at hany
  rw [hsplit, any_append, any_cons]
  simp only [Bool.or_eq_true] at hany ⊢
  rcases hany with hfront | hb' | hback
  · exact .inr (.inl hfront)
  · exact .inl hb'
  · exact .inr (.inr (.inr hback))

end

end Labelled
