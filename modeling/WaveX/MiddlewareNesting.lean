import WaveX.MiddlewareChain

/-! # Middlewares in a line

    The middleware pipeline is linear: in `run_chain` calling `next` only sets a flag, so a
    middleware goes on to its end first, and what is registered behind it runs afterwards,
    the handler last.  The usage comment of the middleware type reads as if middlewares
    were nested, with the code behind `co_await next()` run when the rest has.

    A middleware that calls `next` once at most is a segment of code in front of the call,
    and maybe one behind it.  `run_chain` is compared with the linear and with the nested
    way to run a list of them on the segments that run, in order, and on the state at the
    end. -/

namespace MiddlewareNesting

open MiddlewareChain List

variable {σ : Type*}

/-! ## Middlewares that call `next` once -/

/-- How the first segment of a middleware ends: it returns, or it calls `next` with the
    code behind the call, if there is any. -/
inductive Stage (σ : Type*) where
  | returned (s : σ)
  | called (s : σ) (after : Option (σ → σ))

/-- A middleware that calls `next` at most once. -/
abbrev Staged (σ : Type*) := σ → Stage σ

/-- The segments of a run. -/
inductive Segment where
  | before (i : Nat)
  | after (i : Nat)
  | handler
  deriving DecidableEq, Repr

/-- The state, and the segments that have run. -/
abbrev Traced (σ : Type*) := σ × List Segment

/-- The middleware as `run_chain` calls it: `next` sets the flag and returns. -/
def flagged (i : Nat) (mw : Staged σ) : Middleware (Traced σ) := fun p =>
  match mw p.1 with
  | .returned s => ((s, p.2 ++ [.before i]), false)
  | .called s none => ((s, p.2 ++ [.before i]), true)
  | .called s (some after) => ((after s, p.2 ++ [.before i, .after i]), true)

/-- The middlewares of a chain, the first of them with the number `i`. -/
def flaggedFrom : Nat → List (Staged σ) → List (Middleware (Traced σ))
  | _, [] => []
  | i, mw :: rest => flagged i mw :: flaggedFrom (i + 1) rest

/-- The handler, traced. -/
def traced (handler : σ → σ) (p : Traced σ) : Traced σ := (handler p.1, p.2 ++ [.handler])

/-- `res.is_sent()`. -/
def sentIn (isSent : σ → Bool) (p : Traced σ) : Bool := isSent p.1

/-- `Server::run_chain` with its trace. -/
def runFlat (isSent : σ → Bool) (i : Nat) (mws : List (Staged σ)) (handler : σ → σ)
    (p : Traced σ) : Traced σ :=
  (runChain (sentIn isSent) (flaggedFrom i mws) (traced handler) p).1

/-- The linear meaning: a middleware runs to its end, and then the rest of the chain and the
    handler do if it called `next`.  A response that was sent ends the chain. -/
def runLinear (isSent : σ → Bool) : Nat → List (Staged σ) → (σ → σ) → Traced σ → Traced σ
  | _, [], handler, p => if isSent p.1 then p else traced handler p
  | i, mw :: rest, handler, p =>
      if isSent p.1 then p
      else
        match mw p.1 with
        | .returned s => (s, p.2 ++ [.before i])
        | .called s none => runLinear isSent (i + 1) rest handler (s, p.2 ++ [.before i])
        | .called s (some after) =>
            runLinear isSent (i + 1) rest handler (after s, p.2 ++ [.before i, .after i])

/-- The nested meaning: `next` runs the rest of the chain and the handler, and then returns.
    A response that was sent ends the chain here, too. -/
def runNested (isSent : σ → Bool) : Nat → List (Staged σ) → (σ → σ) → Traced σ → Traced σ
  | _, [], handler, p => if isSent p.1 then p else traced handler p
  | i, mw :: rest, handler, p =>
      if isSent p.1 then p
      else
        match mw p.1 with
        | .returned s => (s, p.2 ++ [.before i])
        | .called s none => runNested isSent (i + 1) rest handler (s, p.2 ++ [.before i])
        | .called s (some after) =>
            let q := runNested isSent (i + 1) rest handler (s, p.2 ++ [.before i])
            (after q.1, q.2 ++ [.after i])

/-- No middleware that gets the request returns without a response or a call of `next`, and
    none has code behind the call, unless a response was sent before the call and is
    still sent behind that code. -/
def Straight (isSent : σ → Bool) : List (Staged σ) → σ → Prop
  | [], _ => True
  | mw :: rest, s =>
      isSent s = true ∨
        match mw s with
        | .returned s => isSent s = true
        | .called s none => Straight isSent rest s
        | .called s (some after) => isSent s = true ∧ isSent (after s) = true

/-- No middleware that gets the request returns without a response or a call of `next`. -/
def Answered (isSent : σ → Bool) : List (Staged σ) → σ → Prop
  | [], _ => True
  | mw :: rest, s =>
      isSent s = true ∨
        match mw s with
        | .returned s => isSent s = true
        | .called s none => Answered isSent rest s
        | .called s (some after) => Answered isSent rest (after s)

/-! ## The flat run -/

variable {isSent : σ → Bool} {i : Nat} {mw : Staged σ} {mws rest : List (Staged σ)}
  {handler : σ → σ} {s : σ} {p : Traced σ}

/-- Where the loop starts to count does not matter for the state. -/
theorem chainLoop_state {τ : Type*} {sent : τ → Bool} (idx : Nat) (mws : List (Middleware τ))
    (t : τ) : (chainLoop sent idx mws t).1 = (chainLoop sent 0 mws t).1 := by
  induction mws generalizing idx t with
  | nil => rfl
  | cons mw rest ih =>
    cases hopen : sent t with
    | true => rw [chainLoop_sent idx hopen, chainLoop_sent 0 hopen]
    | false =>
      rw [chainLoop_cons idx hopen, chainLoop_cons 0 hopen]
      split
      · dsimp only
        rw [ih (idx + 1), ih (0 + 1)]
      · rfl

theorem runChain_state {τ : Type*} {sent : τ → Bool} {h : τ → τ} (mws : List (Middleware τ))
    (t : τ) : (runChain sent mws h t).1 =
      if sent (chainLoop sent 0 mws t).1 then (chainLoop sent 0 mws t).1
      else h (chainLoop sent 0 mws t).1 := by
  rw [runChain]
  dsimp only
  split <;> rfl

/-- Once the response is sent, nothing runs. -/
theorem runFlat_sent (h : isSent p.1 = true) : runFlat isSent i mws handler p = p := by
  have hsent : sentIn isSent p = true := h
  rw [runFlat, runChain_state, chainLoop_sent 0 hsent, if_pos hsent]

/-- Behind the last middleware runs the handler. -/
theorem runFlat_nil (h : isSent p.1 = false) :
    runFlat isSent i [] handler p = traced handler p := by
  rw [runFlat, runChain_state]
  exact if_neg (Bool.eq_false_iff.mp h)

/-- A round of the flat run. -/
theorem runFlat_cons (h : isSent p.1 = false) : runFlat isSent i (mw :: rest) handler p =
    let q := flagged i mw p
    if q.2 = true then runFlat isSent (i + 1) rest handler q.1
    else if isSent q.1.1 then q.1 else traced handler q.1 := by
  have hopen : sentIn isSent p = false := h
  dsimp only
  rw [runFlat, runChain_state, flaggedFrom, chainLoop_cons 0 hopen]
  by_cases hnext : (flagged i mw p).2 = true
  · rw [if_pos hnext]
    cases hsent : sentIn isSent (flagged i mw p).1 with
    | true =>
      have hstop : ¬ ((flagged i mw p).2 = true ∧ true = false) := fun hc =>
        Bool.false_ne_true hc.2.symm
      rw [if_neg hstop, if_pos hsent, runFlat_sent hsent]
    | false =>
      rw [if_pos (show (flagged i mw p).2 = true ∧ false = false from ⟨hnext, rfl⟩)]
      dsimp only
      rw [chainLoop_state, runFlat, runChain_state]
  · have hstop : ¬ ((flagged i mw p).2 = true ∧ sentIn isSent (flagged i mw p).1 = false) :=
      fun hc => hnext hc.1
    rw [if_neg hnext, if_neg hstop]
    rfl

/-- The trace only grows. -/
theorem runFlat_trace : p.2 <+: (runFlat isSent i mws handler p).2 := by
  have hhandler : ∀ {p : Traced σ} (q : Traced σ), p.2 <+: q.2 → p.2 <+: (traced handler q).2 :=
    fun q hq => hq.trans (prefix_append _ _)
  have hround : ∀ (i : Nat) (mw : Staged σ) (p : Traced σ), p.2 <+: (flagged i mw p).1.2 := by
    intro i mw p
    rw [flagged]
    split <;> exact prefix_append _ _
  induction mws generalizing i p with
  | nil =>
    cases hopen : isSent p.1 with
    | true =>
      exact ⟨[], by rw [runFlat_sent hopen, append_nil]⟩
    | false =>
      rw [runFlat_nil hopen]
      exact hhandler p (prefix_refl _)
  | cons mw rest ih =>
    cases hopen : isSent p.1 with
    | true =>
      exact ⟨[], by rw [runFlat_sent hopen, append_nil]⟩
    | false =>
      rw [runFlat_cons hopen]
      dsimp only
      have hfirst := hround i mw p
      split
      · exact hfirst.trans ih
      · split
        · exact hfirst
        · exact hhandler _ hfirst

/-- A run that goes on adds to its trace. -/
theorem runFlat_grows (h : isSent p.1 = false) :
    p.2.length < (runFlat isSent i mws handler p).2.length := by
  cases mws with
  | nil =>
    rw [runFlat_nil h, traced, length_append, length_singleton]
    exact Nat.lt_succ_self _
  | cons mw rest =>
    have hround : p.2.length < (flagged i mw p).1.2.length := by
      rw [flagged]
      split
      all_goals
        simp only [length_append, length_cons, length_nil]
        omega
    rw [runFlat_cons h]
    dsimp only
    split
    · exact Nat.lt_of_lt_of_le hround runFlat_trace.length_le
    · split
      · exact hround
      · rw [traced, length_append]
        exact Nat.lt_add_right _ hround

/-! ## The nested run -/

theorem runNested_sent (h : isSent p.1 = true) : runNested isSent i mws handler p = p := by
  cases mws with
  | nil => rw [runNested, if_pos h]
  | cons mw rest => rw [runNested, if_pos h]

/-- What runs behind a call of `next` begins with a segment that is not yet behind one. -/
theorem runNested_trace (h : isSent p.1 = false) : ∃ seg, (∀ j < i, seg ≠ .after j) ∧
    p.2 ++ [seg] <+: (runNested isSent i mws handler p).2 := by
  induction mws generalizing i p with
  | nil =>
    rw [runNested, if_neg (Bool.eq_false_iff.mp h)]
    exact ⟨.handler, fun _ _ => nofun, prefix_refl _⟩
  | cons mw rest ih =>
    refine ⟨.before i, fun _ _ => nofun, ?_⟩
    have hrest : ∀ s, p.2 ++ [.before i] <+:
        (runNested isSent (i + 1) rest handler (s, p.2 ++ [.before i])).2 := by
      intro s
      cases hopen : isSent s with
      | true =>
        have hsame : runNested isSent (i + 1) rest handler (s, p.2 ++ [.before i]) =
            (s, p.2 ++ [.before i]) := runNested_sent hopen
        exact ⟨[], by rw [hsame, append_nil]⟩
      | false =>
        obtain ⟨seg, -, hseg⟩ := ih (i := i + 1) (p := (s, p.2 ++ [.before i])) hopen
        exact (prefix_append _ _).trans hseg
    rw [runNested, if_neg (Bool.eq_false_iff.mp h)]
    split
    · exact prefix_refl _
    · exact hrest _
    · exact (hrest _).trans (prefix_append _ _)

/-! ## When the two agree -/

/-- Code behind `next`: in the flat run it comes right behind the code before it, in the
    nested one something of the rest comes first. -/
theorem trace_ne_after (hsent : isSent s = false) (trace : List Segment) (t : σ) :
    (runFlat isSent (i + 1) rest handler (t, trace ++ [.before i, .after i])).2 ≠
      (runNested isSent (i + 1) rest handler (s, trace ++ [.before i])).2 ++ [.after i] := by
  intro htrace
  obtain ⟨seg, hseg, hnested⟩ : ∃ seg, (∀ j < i + 1, seg ≠ Segment.after j) ∧
      (trace ++ [.before i]) ++ [seg] <+:
        (runNested isSent (i + 1) rest handler (s, trace ++ [.before i])).2 :=
    runNested_trace (p := (s, trace ++ [.before i])) hsent
  have hflat : trace ++ [Segment.before i, .after i] <+:
      (runFlat isSent (i + 1) rest handler (t, trace ++ [.before i, .after i])).2 :=
    runFlat_trace (p := (t, trace ++ [.before i, .after i]))
  -- both begin with the first segment, and differ in the next one
  rw [htrace] at hflat
  have hboth := prefix_of_prefix_length_le hflat
    (hnested.trans (prefix_append _ _)) (by
      simp only [length_append, length_cons, length_nil]
      omega)
  have hsame := hboth.eq_of_length (by
    simp only [length_append, length_cons, length_nil])
  rw [append_assoc] at hsame
  obtain ⟨rfl⟩ := List.cons.inj (List.cons.inj (append_cancel_left hsame)).2
  exact hseg i (Nat.lt_succ_self i) rfl

/-- **Flat and nested runs** agree just on the requests whose middlewares are straight. -/
theorem runFlat_eq_runNested_iff (p : Traced σ) :
    runFlat isSent i mws handler p = runNested isSent i mws handler p ↔
      Straight isSent mws p.1 := by
  induction mws generalizing i p with
  | nil =>
    refine iff_of_true ?_ trivial
    cases hopen : isSent p.1 with
    | true => rw [runFlat_sent hopen, runNested_sent hopen]
    | false => rw [runFlat_nil hopen, runNested, if_neg (Bool.eq_false_iff.mp hopen)]
  | cons mw rest ih =>
    rw [Straight]
    cases hopen : isSent p.1 with
    | true =>
      rw [runFlat_sent hopen, runNested_sent hopen]
      exact iff_of_true rfl (.inl rfl)
    | false =>
      rw [runFlat_cons hopen, runNested, if_neg (Bool.eq_false_iff.mp hopen),
        or_iff_right Bool.false_ne_true, flagged]
      cases mw p.1 with
      | returned s =>
        dsimp only
        rw [if_neg Bool.false_ne_true]
        cases hsent : isSent s with
        | true => exact iff_of_true (if_pos rfl) rfl
        | false =>
          rw [if_neg Bool.false_ne_true]
          -- the flat run goes on behind a middleware that did not call next
          refine iff_of_false (fun heq => ?_) Bool.false_ne_true
          have hlength := congrArg (fun q : Traced σ => q.2.length) heq
          simp only [traced, length_append, length_singleton] at hlength
          omega
      | called s after =>
        cases after with
        | none => exact ih (s, p.2 ++ [.before i])
        | some after =>
          dsimp only
          rw [if_pos rfl]
          cases hsent : isSent s with
          | true =>
            rw [runNested_sent (show isSent (s, p.2 ++ [Segment.before i]).1 = true from hsent),
              and_iff_right rfl]
            dsimp only
            rw [append_assoc]
            cases hstill : isSent (after s) with
            | true =>
              rw [runFlat_sent
                (show isSent (after s, p.2 ++ [Segment.before i, .after i]).1 = true from hstill)]
              exact iff_of_true rfl rfl
            | false =>
              refine iff_of_false (fun heq => ?_) Bool.false_ne_true
              have hlength := congrArg (fun q : Traced σ => q.2.length) heq
              have hgrows : (p.2 ++ [Segment.before i, .after i]).length <
                  (runFlat isSent (i + 1) rest handler
                    (after s, p.2 ++ [.before i, .after i])).2.length :=
                runFlat_grows (p := (after s, p.2 ++ [.before i, .after i])) hstill
              dsimp only at hlength
              rw [hlength] at hgrows
              exact Nat.lt_irrefl _ hgrows
          | false =>
            refine iff_of_false (fun heq => ?_) (fun h => Bool.false_ne_true h.1)
            -- nested, the code behind the call comes last
            exact trace_ne_after hsent p.2 _ (congrArg Prod.snd heq)

/-- **Flat and linear runs** agree just on the requests whose middlewares answer or call
    `next`. -/
theorem runFlat_eq_runLinear_iff (p : Traced σ) :
    runFlat isSent i mws handler p = runLinear isSent i mws handler p ↔
      Answered isSent mws p.1 := by
  induction mws generalizing i p with
  | nil =>
    refine iff_of_true ?_ trivial
    cases hopen : isSent p.1 with
    | true => rw [runFlat_sent hopen, runLinear, if_pos hopen]
    | false => rw [runFlat_nil hopen, runLinear, if_neg (Bool.eq_false_iff.mp hopen)]
  | cons mw rest ih =>
    rw [Answered]
    cases hopen : isSent p.1 with
    | true =>
      rw [runFlat_sent hopen, runLinear, if_pos hopen]
      exact iff_of_true rfl (.inl rfl)
    | false =>
      rw [runFlat_cons hopen, runLinear, if_neg (Bool.eq_false_iff.mp hopen),
        or_iff_right Bool.false_ne_true, flagged]
      cases mw p.1 with
      | returned s =>
        -- the handler runs if nothing was sent
        dsimp only
        rw [if_neg Bool.false_ne_true]
        cases hsent : isSent s with
        | true => exact iff_of_true (if_pos rfl) rfl
        | false =>
          rw [if_neg Bool.false_ne_true]
          refine iff_of_false (fun heq => ?_) Bool.false_ne_true
          have hlength := congrArg (fun q : Traced σ => q.2.length) heq
          simp only [traced, length_append, length_singleton] at hlength
          omega
      | called s after =>
        cases after with
        | none => exact ih (s, p.2 ++ [.before i])
        | some after => exact ih (after s, p.2 ++ [.before i, .after i])

/-! ## The order of the segments -/

/-- Middlewares that call `next`, with code behind the call. -/
def Wraps (mws : List (Staged σ)) : Prop :=
  ∀ mw ∈ mws, ∀ s, ∃ s' after, mw s = .called s' (some after)

/-- The numbers of a chain from `i` on. -/
def numbers (i : Nat) (mws : List (Staged σ)) : List Nat := List.range' i mws.length

/-- The linear order: each middleware to its end, and the handler last. -/
def linearOrder (i : Nat) (mws : List (Staged σ)) : List Segment :=
  ((numbers i mws).flatMap fun j => [.before j, .after j]) ++ [.handler]

theorem linearOrder_cons : linearOrder i (mw :: rest) =
    [.before i, .after i] ++ linearOrder (i + 1) rest := by
  rw [linearOrder, linearOrder, numbers, numbers, length_cons, range'_succ,
    flatMap_cons, append_assoc]

/-- The handler comes last in every order. -/
theorem handler_sublist : ([.handler] : List Segment).Sublist (linearOrder i mws) :=
  sublist_append_right _ _

/-- **The order of `run_chain`**: whatever runs, runs in the linear order. -/
theorem runFlat_sublist (p : Traced σ) : ∃ ran, ran.Sublist (linearOrder i mws) ∧
    (runFlat isSent i mws handler p).2 = p.2 ++ ran := by
  induction mws generalizing i p with
  | nil =>
    cases hopen : isSent p.1 with
    | true => exact ⟨[], nil_sublist _, by rw [runFlat_sent hopen, append_nil]⟩
    | false =>
      rw [runFlat_nil hopen]
      exact ⟨[.handler], handler_sublist, rfl⟩
  | cons mw rest ih =>
    cases hopen : isSent p.1 with
    | true => exact ⟨[], nil_sublist _, by rw [runFlat_sent hopen, append_nil]⟩
    | false =>
      rw [runFlat_cons hopen, linearOrder_cons]
      -- the segments of this middleware, and whether it called `next`
      obtain ⟨own, hown, htrace⟩ : ∃ own : List Segment, own.Sublist [.before i, .after i] ∧
          (flagged i mw p).1.2 = p.2 ++ own := by
        rw [flagged]
        split
        · exact ⟨[.before i], .cons_cons _ (nil_sublist _), rfl⟩
        · exact ⟨[.before i], .cons_cons _ (nil_sublist _), rfl⟩
        · exact ⟨[.before i, .after i], List.Sublist.refl _, rfl⟩
      dsimp only
      split
      · obtain ⟨ran, hran, hrest⟩ := ih (i := i + 1) (flagged i mw p).1
        exact ⟨own ++ ran, hown.append hran, by rw [hrest, htrace, append_assoc]⟩
      · split
        · exact ⟨own ++ [], hown.append (nil_sublist _), by rw [htrace, append_nil]⟩
        · refine ⟨own ++ [.handler], hown.append handler_sublist, ?_⟩
          rw [traced, htrace, append_assoc]

/-- **The nested order**: the code behind `next` runs behind the handler, the last
    registered middleware first. -/
theorem runNested_order (hmws : Wraps mws) (hopen : ∀ s, isSent s = false) (p : Traced σ) :
    (runNested isSent i mws handler p).2 =
      p.2 ++ (numbers i mws).map .before ++ [.handler] ++ (numbers i mws).reverse.map .after := by
  induction mws generalizing i p with
  | nil =>
    rw [runNested, if_neg (Bool.eq_false_iff.mp (hopen _)), numbers]
    simp only [traced, length_nil, range'_zero, map_nil, reverse_nil,
      append_nil]
  | cons mw rest ih =>
    obtain ⟨hmw, hrest⟩ := forall_mem_cons.mp hmws
    obtain ⟨s', after, hcalled⟩ := hmw p.1
    rw [runNested, if_neg (Bool.eq_false_iff.mp (hopen _)), hcalled]
    dsimp only
    rw [ih hrest, numbers, numbers, length_cons, range'_succ]
    simp only [map_cons, reverse_cons, map_append, map_nil, append_assoc,
      cons_append, nil_append]

/-- With code behind every call of `next`, and no response before the handler, `run_chain`
    runs all of the linear order. -/
theorem runFlat_order (hmws : Wraps mws) (hopen : ∀ s, isSent s = false) (p : Traced σ) :
    (runFlat isSent i mws handler p).2 =
      p.2 ++ ((numbers i mws).flatMap fun j => [.before j, .after j]) ++ [.handler] := by
  induction mws generalizing i p with
  | nil =>
    rw [runFlat_nil (hopen _), numbers]
    simp only [traced, length_nil, range'_zero, flatMap_nil, append_nil]
  | cons mw rest ih =>
    obtain ⟨hmw, hrest⟩ := forall_mem_cons.mp hmws
    obtain ⟨s', after, hcalled⟩ := hmw p.1
    have hround : flagged i mw p = ((after s', p.2 ++ [.before i, .after i]), true) := by
      rw [flagged, hcalled]
    rw [runFlat_cons (hopen _), hround]
    dsimp only
    rw [if_pos rfl, ih hrest, numbers, numbers, length_cons, range'_succ]
    simp only [flatMap_cons, append_assoc]

/-! ## The documentation and the code -/

/-- `run_chain` does what the usage comment says just for the requests whose middlewares are
    straight. -/
theorem run_chain_nested_iff (isSent : σ → Bool) (mws : List (Staged σ)) (handler : σ → σ) (s : σ) :
    runFlat isSent 0 mws handler (s, []) = runNested isSent 0 mws handler (s, []) ↔
      Straight isSent mws s :=
  runFlat_eq_runNested_iff (s, [])

/-- **A linear pipeline.**  What runs, runs in the linear order.  If no middleware that gets
    the request returns without a response or a call of `next`, it is the linear run; and it
    is the nested one just where no code behind `next` tells the two apart. -/
theorem run_chain_linear (isSent : σ → Bool) (mws : List (Staged σ)) (handler : σ → σ) (s : σ) :
    (runFlat isSent 0 mws handler (s, [])).2.Sublist (linearOrder 0 mws) ∧
      (Answered isSent mws s →
        runFlat isSent 0 mws handler (s, []) = runLinear isSent 0 mws handler (s, [])) ∧
      (runFlat isSent 0 mws handler (s, []) = runNested isSent 0 mws handler (s, []) ↔
        Straight isSent mws s) := by
  have hlinear : ∃ ran, ran.Sublist (linearOrder 0 mws) ∧
      (runFlat isSent 0 mws handler (s, [])).2 = ran := runFlat_sublist (s, [])
  obtain ⟨ran, hran, htrace⟩ := hlinear
  refine ⟨?_, (runFlat_eq_runLinear_iff (s, [])).mpr, run_chain_nested_iff isSent mws handler s⟩
  rw [htrace]
  exact hran

/-- Two middlewares that log in front of and behind `next`. -/
example : (runFlat (fun _ => false) 0
    [fun s => .called (s ++ ["A:before"]) (some (· ++ ["A:after"])),
      fun s => .called (s ++ ["B:before"]) (some (· ++ ["B:after"]))] id ([], [])).1 =
    ["A:before", "A:after", "B:before", "B:after"] := by decide

/-- The logger of the documentation: the state is whether the response was sent, and the
    line behind `next` comes before the handler. -/
theorem logger_before_handler :
    ¬ ∀ (mws : List (Staged Bool)) (handler : Bool → Bool) (s : Bool),
      runFlat id 0 mws handler (s, []) = runNested id 0 mws handler (s, []) := by
  intro h
  have hlogger := h [fun s => .called s (some id)] (fun _ => true) false
  exact absurd hlogger (by decide)

end MiddlewareNesting
