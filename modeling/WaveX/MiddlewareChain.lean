import Mathlib.Data.List.Basic

/-! # The middleware chain of a request

    `Server::run_chain` of `ServerConnection.ipp`, and the middleware that `Router::use`
    makes of a `StaticChain`.  The state is the request with its response, of any type; a
    middleware takes it to another one and may have called `next`, which only sets a flag
    for the loop.

    The loop stops at a middleware that did not call `next`, but what follows the loop
    asks only whether a response was sent. -/

namespace MiddlewareChain

variable {σ : Type*}

/-- A middleware: the state it leaves, and whether it called `next`. -/
abbrev Middleware (σ : Type*) := σ → σ × Bool

/-- What the chain runs. -/
inductive Event where
  | middleware (i : Nat)
  | handler
  deriving DecidableEq, Repr

/-- The loop of `run_chain` from the middleware `idx` on: the state it ends in and the
    middlewares it ran. -/
def chainLoop (isSent : σ → Bool) : Nat → List (Middleware σ) → σ → σ × List Event
  | _, [], s => (s, [])
  | idx, mw :: rest, s =>
      if isSent s then (s, [])
      else
        let (s', nextCalled) := mw s
        if !nextCalled || isSent s' then (s', [.middleware idx])
        else
          let (s'', ran) := chainLoop isSent (idx + 1) rest s'
          (s'', .middleware idx :: ran)

/-- `Server::run_chain`: the final state and what ran, in order. -/
def runChain (isSent : σ → Bool) (mws : List (Middleware σ)) (handler : σ → σ) (s : σ) :
    σ × List Event :=
  let (s', ran) := chainLoop isSent 0 mws s
  if isSent s' then (s', ran) else (handler s', ran ++ [.handler])

/-- `StaticChain::process_all_async`: the handlers in order, up to one that returns
    false. -/
def processAll : List (σ → σ × Bool) → σ → σ × Bool
  | [], s => (s, true)
  | h :: rest, s =>
      let (s', ok) := h s
      if ok then processAll rest s' else (s', false)

/-- The middleware that `use(StaticChain)` registers: it calls `next` when every handler
    returned true. -/
def staticChain (handlers : List (σ → σ × Bool)) : Middleware σ := processAll handlers

/-! ## What the chain is for -/

/-- The state in which the middleware `i` runs when all before it have run. -/
def stateAt (mws : List (Middleware σ)) (s : σ) (i : Nat) : σ :=
  (mws.take i).foldl (fun s mw => (mw s).1) s

/-- Whether the middleware `j` calls `next` there. -/
def callsNext (mws : List (Middleware σ)) (s : σ) (j : Nat) : Bool :=
  match mws[j]? with
  | some mw => (mw (stateAt mws s j)).2
  | none => false

/-- The first `i` middlewares all called `next`, and no response has been sent. -/
def Passed (isSent : σ → Bool) (mws : List (Middleware σ)) (s : σ) (i : Nat) : Prop :=
  isSent s = false ∧
    ∀ j < i, callsNext mws s j = true ∧ isSent (stateAt mws s (j + 1)) = false

/-- The contract: a middleware runs only behind middlewares that let the request through,
    and the handler runs exactly when all of them did. -/
def ShortCircuits (isSent : σ → Bool) (mws : List (Middleware σ)) (handler : σ → σ) (s : σ) :
    Prop :=
  (∀ i, .middleware (i + 1) ∈ (runChain isSent mws handler s).2 → Passed isSent mws s (i + 1)) ∧
    (.handler ∈ (runChain isSent mws handler s).2 ↔ Passed isSent mws s mws.length)

/-- Every middleware that gets the request calls `next` or leaves a response that was
    sent. -/
def Answers (isSent : σ → Bool) : List (Middleware σ) → σ → Prop
  | [], _ => True
  | mw :: rest, s =>
      isSent s = true ∨ isSent (mw s).1 = true ∨ ((mw s).2 = true ∧ Answers isSent rest (mw s).1)

/-! ## Passing along the list -/

variable {isSent : σ → Bool} {mw : Middleware σ} {rest mws : List (Middleware σ)} {handler : σ → σ}
  {s : σ}

@[simp] theorem stateAt_zero (mws : List (Middleware σ)) (s : σ) : stateAt mws s 0 = s := rfl

@[simp] theorem stateAt_cons (mw : Middleware σ) (rest : List (Middleware σ)) (s : σ) (i : Nat) :
    stateAt (mw :: rest) s (i + 1) = stateAt rest (mw s).1 i := rfl

@[simp] theorem callsNext_zero (mw : Middleware σ) (rest : List (Middleware σ)) (s : σ) :
    callsNext (mw :: rest) s 0 = (mw s).2 := rfl

@[simp] theorem callsNext_cons (mw : Middleware σ) (rest : List (Middleware σ)) (s : σ) (j : Nat) :
    callsNext (mw :: rest) s (j + 1) = callsNext rest (mw s).1 j := rfl

theorem passed_zero : Passed isSent mws s 0 ↔ isSent s = false :=
  ⟨fun h => h.1, fun h => ⟨h, fun j hj => absurd hj (Nat.not_lt_zero j)⟩⟩

theorem passed_cons {i : Nat} :
    Passed isSent (mw :: rest) s (i + 1) ↔
      isSent s = false ∧ (mw s).2 = true ∧ Passed isSent rest (mw s).1 i := by
  constructor
  · rintro ⟨hopen, hall⟩
    obtain ⟨hnext, hsent⟩ := hall 0 (Nat.succ_pos i)
    refine ⟨hopen, hnext, hsent, ?_⟩
    intro j hj
    exact hall (j + 1) (Nat.succ_lt_succ hj)
  · rintro ⟨hopen, hnext, hsent, hall⟩
    refine ⟨hopen, ?_⟩
    intro j hj
    cases j with
    | zero => exact ⟨hnext, hsent⟩
    | succ j => exact hall j (Nat.lt_of_succ_lt_succ hj)

/-- A request gets through the whole chain only if it gets through all of its
    beginning. -/
theorem passed_answers (h : Passed isSent mws s mws.length) : Answers isSent mws s := by
  induction mws generalizing s with
  | nil => exact trivial
  | cons mw rest ih =>
      obtain ⟨-, hnext, hrest⟩ := passed_cons.mp h
      exact .inr (.inr ⟨hnext, ih hrest⟩)

/-! ## The loop -/

/-- A round of the loop. -/
theorem chainLoop_cons (idx : Nat) (hopen : isSent s = false) :
    chainLoop isSent idx (mw :: rest) s =
      if (mw s).2 = true ∧ isSent (mw s).1 = false then
        ((chainLoop isSent (idx + 1) rest (mw s).1).1,
          .middleware idx :: (chainLoop isSent (idx + 1) rest (mw s).1).2)
      else ((mw s).1, [.middleware idx]) := by
  rw [chainLoop, hopen, if_neg Bool.false_ne_true]
  cases hnext : (mw s).2 <;> cases hsent : isSent (mw s).1 <;> simp [hnext, hsent]

theorem chainLoop_sent (idx : Nat) (hsent : isSent s = true) :
    chainLoop isSent idx mws s = (s, []) := by
  cases mws with
  | nil => rfl
  | cons mw rest => rw [chainLoop, if_pos hsent]

/-- The loop runs the middleware `idx + i` only when the `i` before it let the request
    through. -/
theorem chainLoop_ran {idx i : Nat}
    (h : .middleware (idx + i) ∈ (chainLoop isSent idx mws s).2) : Passed isSent mws s i := by
  induction mws generalizing idx i s with
  | nil => cases h
  | cons mw rest ih =>
      cases hopen : isSent s with
      | true =>
          rw [chainLoop_sent idx hopen] at h
          cases h
      | false =>
          obtain _ | i := i
          · exact passed_zero.mpr hopen
          · rw [chainLoop_cons idx hopen] at h
            split at h
            · next hpassed =>
                rcases List.mem_cons.mp h with heq | hlater
                · have hi := Event.middleware.inj heq
                  omega
                · rw [show idx + (i + 1) = idx + 1 + i by omega] at hlater
                  exact passed_cons.mpr ⟨hopen, hpassed.1, ih hlater⟩
            · have hi := Event.middleware.inj (List.mem_singleton.mp h)
              omega

theorem handler_not_mem_chainLoop (idx : Nat) (mws : List (Middleware σ)) (s : σ) :
    .handler ∉ (chainLoop isSent idx mws s).2 := by
  induction mws generalizing idx s with
  | nil => exact List.not_mem_nil
  | cons mw rest ih =>
      cases hopen : isSent s with
      | true =>
          rw [chainLoop_sent idx hopen]
          exact List.not_mem_nil
      | false =>
          rw [chainLoop_cons idx hopen]
          split
          · intro h
            rcases List.mem_cons.mp h with heq | hlater
            · cases heq
            · exact ih _ _ hlater
          · intro h
            cases List.mem_singleton.mp h

/-- The handler runs when the loop ends without a response. -/
theorem handler_mem_runChain :
    .handler ∈ (runChain isSent mws handler s).2 ↔
      isSent (chainLoop isSent 0 mws s).1 = false := by
  rw [runChain]
  cases hsent : isSent (chainLoop isSent 0 mws s).1 with
  | true =>
      simp only [hsent, if_true]
      exact ⟨fun h => absurd h (handler_not_mem_chainLoop 0 mws s), fun h => by cases h⟩
  | false =>
      simp only [hsent, Bool.false_eq_true, if_false]
      exact ⟨fun _ => trivial, fun _ => List.mem_append_right _ (List.mem_singleton.mpr rfl)⟩

theorem middleware_mem_runChain {i : Nat} :
    .middleware i ∈ (runChain isSent mws handler s).2 ↔
      .middleware i ∈ (chainLoop isSent 0 mws s).2 := by
  rw [runChain]
  simp only
  split
  · exact Iff.rfl
  · rw [List.mem_append, or_iff_left]
    intro h
    cases List.mem_singleton.mp h

/-- The loop ends without a response when the request got through, or when a middleware
    stopped it without an answer. -/
theorem chainLoop_unsent (idx : Nat) :
    isSent (chainLoop isSent idx mws s).1 = false ↔
      Passed isSent mws s mws.length ∨ ¬ Answers isSent mws s := by
  induction mws generalizing idx s with
  | nil =>
      rw [List.length_nil, passed_zero]
      exact ⟨.inl, fun h => h.resolve_right (fun hnot => hnot trivial)⟩
  | cons mw rest ih =>
      rw [List.length_cons, passed_cons, Answers]
      cases hopen : isSent s with
      | true =>
          rw [chainLoop_sent idx hopen]
          simp [hopen]
      | false =>
          rw [chainLoop_cons idx hopen]
          split
          · next hpassed =>
              obtain ⟨hnext, hsent⟩ := hpassed
              rw [ih (idx + 1)]
              simp [hnext, hsent]
          · next hstopped =>
              have hpassed : Passed isSent rest (mw s).1 rest.length → isSent (mw s).1 = false :=
                fun h => h.1
              cases hnext : (mw s).2 <;> cases hsent : isSent (mw s).1 <;> simp_all

/-! ## The contract -/

/-- **Short-circuit**: a middleware always runs behind ones that let the request through,
    and the whole contract holds exactly when every middleware that gets the request
    calls `next` or answers. -/
theorem shortCircuits_iff (isSent : σ → Bool) (mws : List (Middleware σ)) (handler : σ → σ)
    (s : σ) : ShortCircuits isSent mws handler s ↔ Answers isSent mws s := by
  have hran : ∀ i, .middleware (i + 1) ∈ (runChain isSent mws handler s).2 →
      Passed isSent mws s (i + 1) := by
    intro i h
    have hloop := middleware_mem_runChain.mp h
    rw [← Nat.zero_add (i + 1)] at hloop
    exact chainLoop_ran hloop
  rw [ShortCircuits, handler_mem_runChain, chainLoop_unsent]
  constructor
  · rintro ⟨-, hhandler⟩
    by_contra hnot
    exact hnot (passed_answers (hhandler.mp (.inr hnot)))
  · intro hanswers
    exact ⟨hran, or_iff_left (not_not.mpr hanswers)⟩

/-- An authentication guard made of a static chain that turns the request down without a
    response: the state is whether a response was sent and whether the protected handler
    ran. -/
theorem guard_runs_handler :
    ¬ ShortCircuits Prod.fst [staticChain [fun s : Bool × Bool => (s, false)]]
      (fun s => (s.1, true)) (false, false) := by
  rintro ⟨-, hhandler⟩
  have hpassed := hhandler.mp (by decide)
  exact absurd (hpassed.2 0 (by decide)).1 (by decide)

end MiddlewareChain
