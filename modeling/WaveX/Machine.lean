import Mathlib.Data.List.Basic

/-! # Machines that answer operations

    A small library for components that take operations one after the other and answer
    each.  A step may fail: it has left the memory that the component owns.  A component
    `Simulates` an abstract one, which never fails, when no step fails on related states,
    the answers are the same and the states are related again; so it is for whole runs. -/

namespace Machine

variable {σ τ ο ρ : Type*}

/-- A run of a component that may fail: its last state and its answers. -/
def run (step : σ → ο → Option (σ × ρ)) : σ → List ο → Option (σ × List ρ)
  | s, [] => some (s, [])
  | s, o :: rest =>
      match step s o with
      | none => none
      | some (s, r) => (run step s rest).map fun (s, rs) => (s, r :: rs)

/-- A run of a component that cannot fail. -/
def reference (step : τ → ο → τ × ρ) : τ → List ο → τ × List ρ
  | t, [] => (t, [])
  | t, o :: rest =>
      let (t, r) := step t o
      let (t, rs) := reference step t rest
      (t, r :: rs)

/-- From related states a step does not fail, gives the answer of the reference and leads
    to related states. -/
def Simulates (R : σ → τ → Prop) (step : σ → ο → Option (σ × ρ)) (ref : τ → ο → τ × ρ) : Prop :=
  ∀ {s t}, R s t → ∀ o, ∃ s', step s o = some (s', (ref t o).2) ∧ R s' (ref t o).1

variable {R : σ → τ → Prop} {step : σ → ο → Option (σ × ρ)} {ref : τ → ο → τ × ρ}

/-- A simulation of steps is one of runs. -/
theorem Simulates.run (h : Simulates R step ref) {s : σ} {t : τ} (hs : R s t) (ops : List ο) :
    ∃ s', Machine.run step s ops = some (s', (reference ref t ops).2) ∧
      R s' (reference ref t ops).1 := by
  induction ops generalizing s t with
  | nil => exact ⟨s, rfl, hs⟩
  | cons o rest ih =>
    obtain ⟨s₁, hstep, hs₁⟩ := h hs o
    obtain ⟨s', hrest, hs'⟩ := ih hs₁
    refine ⟨s', ?_, hs'⟩
    rw [Machine.run, hstep]
    dsimp only
    rw [hrest]
    rfl

end Machine
