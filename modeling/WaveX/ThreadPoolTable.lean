import WaveX.ThreadPool

/-! # The table of workers

    `start_pool`, `stop_pool` and `check_and_scale` called one after the other.  The workers
    in `workers_` are published in `worker_table_`, which has 128 slots; `worker_count_` is
    to say how many slots are used.

    `add_worker_unlocked` checks its slot before it stores the count.  `check_and_scale`
    checks the slot for the pointer and stores the count without a check, so with more
    workers than slots it publishes a count that the table does not have. -/

namespace ThreadPoolTable

open ThreadPool List

/-! ## Calls -/

/-- A call runs until the monitor has nothing left to do, for at most so many accesses. -/
def finish : Nat → Pool → Pool
  | 0, s => s
  | accesses + 1, s =>
      if s.monitor = .idle then s else finish accesses (s.advance s.monitor)

/-- `start_pool`, without its thread. -/
def startPool (cfg : Config) (s : Pool) : Pool :=
  finish (2 * cfg.minWorkers + 1) { s with monitor := .adding cfg.minWorkers }

/-- `stop_pool`: all threads are joined, so retired nodes go too. -/
def stopPool (s : Pool) : Pool :=
  { s with
    workerCount := 0
    table := fun idx => if idx < kMaxWorkerSlots then none else s.table idx
    workers := []
    retired := []
    destroyed := s.destroyed ++ s.workers ++ s.retired }

/-- `check_and_scale` as a whole. -/
def scale (cfg : Config) (load : Nat) (s : Pool) : Pool :=
  finish (2 * cfg.maxWorkers + 8) (s.checkAndScale cfg load)

/-- The pool, and whether `monitor_thread_` is joinable. -/
structure State where
  pool : Pool := {}
  running : Bool := false

/-- The calls.  In between, the threads of the pool bring about any load, any live
    coroutines and any number of thieves. -/
inductive Op where
  | start
  | stop
  | check (load : Nat) (live : NodeId → Nat) (activeThieves : Nat)

/-- One call; `none` when it ends the process: a joinable thread is assigned to. -/
def call (cfg : Config) (s : State) : Op → Option State
  | .start => if s.running then none else some ⟨startPool cfg s.pool, true⟩
  | .stop => some ⟨stopPool s.pool, false⟩
  | .check load live activeThieves =>
      some { s with pool := scale cfg load { s.pool with live, activeThieves } }

/-- A relation between each call that returns, the state before it and the state after. -/
def Along (cfg : Config) (P : State → Op → State → Prop) : State → List Op → Prop
  | _, [] => True
  | s, op :: ops =>
      match call cfg s op with
      | none => True
      | some s' => P s op s' ∧ Along cfg P s' ops

/-! ## What is to hold -/

/-- The table and its count are those of the workers, as far as there are slots. -/
structure Published (s : Pool) : Prop where
  count : s.workerCount = min s.workers.length kMaxWorkerSlots
  table : ∀ i, s.slot i = if i < s.workerCount then s.workers[i]? else none

/-- The invariant after a call. -/
structure TableInv (cfg : Config) (s : State) : Prop where
  limits : if s.running then
      cfg.minWorkers ≤ s.pool.workers.length ∧ s.pool.workers.length ≤ cfg.maxWorkers
    else s.pool.workers = []
  published : Published s.pool
  stealing : ∀ start i, 1 < s.pool.workerCount →
    (start + i) % s.pool.workerCount < kMaxWorkerSlots

/-- The call does not scale down with too many workers: 130 of them, or 129 when the last
    one is put back. -/
def Fits (cfg : Config) (s : State) : Op → Prop
  | .check load live _ =>
      decision cfg s.pool.workers.length s.pool.cooldown load = .shrink →
        ∀ w ∈ s.pool.workers.getLast?,
          s.pool.workers.length ≤ if live w = 0 then kMaxWorkerSlots + 1 else kMaxWorkerSlots
  | _ => True

/-! ## A call to its end -/

variable {cfg : Config} {s s' : Pool} {n accesses load : Nat} {w : NodeId}

theorem finish_idle (h : s.monitor = .idle) (accesses : Nat) : finish accesses s = s := by
  cases accesses with
  | zero => rfl
  | succ accesses => rw [finish, if_pos h]

theorem finish_advance {m : Monitor} (hm : s.monitor = m) (hbusy : m ≠ .idle) :
    finish (accesses + 1) s = finish accesses (s.advance m) := by
  rw [finish, hm, if_neg hbusy]

/-- The end of a call: retired workers go, if there are no thieves. -/
theorem finish_reclaiming (hm : s.monitor = .reclaiming) (haccesses : 2 ≤ accesses) :
    ∃ retired destroyed,
      finish accesses s = { s with retired, destroyed, monitor := .idle } := by
  obtain ⟨accesses, rfl⟩ := Nat.exists_eq_add_of_le' haccesses
  rw [finish_advance hm nofun, Pool.advance]
  by_cases hclear : s.retired ≠ [] ∧ s.activeThieves = 0
  · rw [if_pos hclear, finish_advance (m := .clearing) rfl nofun, Pool.advance, finish_idle rfl]
    exact ⟨[], _, rfl⟩
  · rw [if_neg hclear, finish_idle rfl]
    exact ⟨s.retired, s.destroyed, rfl⟩

theorem slot_store (s : Pool) (idx i : Nat) (v : Option NodeId) :
    (s.store idx v).slot i = if i = idx ∧ idx < kMaxWorkerSlots then v else s.slot i := by
  rw [Pool.store]
  by_cases hidx : idx < kMaxWorkerSlots
  · rw [if_pos hidx]
    by_cases hi : i = idx
    · rw [if_pos ⟨hi, hidx⟩, hi, Pool.slot, if_pos hidx]
      exact Function.update_self idx v s.table
    · rw [if_neg (fun h => hi h.1), Pool.slot, Pool.slot]
      show (if i < kMaxWorkerSlots then Function.update s.table idx v i else none) = _
      rw [Function.update_of_ne hi]
  · rw [if_neg hidx, if_neg (fun h => hidx h.2)]

/-- A worker that is added is published if there is a slot for it. -/
theorem published_add (h : Published s) (hroom : s.workers.length < kMaxWorkerSlots)
    (hslot : ∀ i, s'.slot i = (s.store s.workers.length (some w)).slot i)
    (hcount : s'.workerCount = s.workers.length + 1) (hworkers : s'.workers = s.workers ++ [w]) :
    Published s' := by
  have hbefore := h.count
  constructor
  · rw [hcount, hworkers, length_append, length_singleton]
    omega
  · intro i
    rw [hslot, slot_store, hcount, hworkers]
    by_cases hlast : i = s.workers.length
    · rw [if_pos ⟨hlast, hroom⟩, if_pos (by omega), hlast, getElem?_concat_length]
    · rw [if_neg fun hc => hlast hc.1, h.table, hbefore]
      by_cases hi : i < s.workers.length
      · rw [if_pos (by omega), if_pos (by omega), getElem?_append_left hi]
      · rw [if_neg (by omega), if_neg (by omega)]

theorem published_hidden (h : Published s) (hfull : ¬ s.workers.length < kMaxWorkerSlots)
    (hslot : ∀ i, s'.slot i = s.slot i) (hcount : s'.workerCount = s.workerCount)
    (hworkers : s'.workers = s.workers ++ [w]) : Published s' := by
  have hbefore := h.count
  constructor
  · rw [hcount, hbefore, hworkers, length_append, length_singleton]
    omega
  · intro i
    rw [hslot, hcount, hworkers, h.table]
    split
    · rw [getElem?_append_left (by omega)]
    · rfl

/-- **Workers that are added.** -/
theorem finish_adding (h : Published s) (hm : s.monitor = .adding n)
    (haccesses : 2 * n < accesses) : Published (finish accesses s) ∧
      (finish accesses s).monitor = .idle ∧
        (finish accesses s).workers.length = s.workers.length + n := by
  induction n generalizing s accesses with
  | zero =>
    obtain ⟨accesses, rfl⟩ := Nat.exists_eq_add_of_le' haccesses
    rw [finish_advance hm nofun, Pool.advance, finish_idle rfl]
    exact ⟨⟨h.count, h.table⟩, rfl, rfl⟩
  | succ n ih =>
    obtain ⟨accesses, rfl⟩ := Nat.exists_eq_add_of_le' (show 2 ≤ accesses by omega)
    rw [finish_advance hm nofun, Pool.advance]
    by_cases hroom : s.workers.length < kMaxWorkerSlots
    · rw [if_pos hroom, finish_advance (m := .publishing s.fresh n) rfl nofun, Pool.advance]
      have hstore : s.store s.workers.length (some s.fresh) = { s with
          table := Function.update s.table s.workers.length (some s.fresh) } := by
        rw [Pool.store, if_pos hroom]
      rw [hstore]
      obtain ⟨hpublished, hidle, hlength⟩ := ih (s := { s with
          table := Function.update s.table s.workers.length (some s.fresh)
          fresh := s.fresh + 1
          workerCount := s.workers.length + 1
          workers := s.workers ++ [s.fresh]
          monitor := .adding n })
        (published_add h hroom (fun i => by rw [hstore]; rfl) rfl rfl) rfl
        (show 2 * n < accesses by omega)
      refine ⟨hpublished, hidle, hlength.trans ?_⟩
      rw [length_append, length_singleton]
      omega
    · rw [if_neg hroom]
      obtain ⟨hpublished, hidle, hlength⟩ := ih (s := { s with
          fresh := s.fresh + 1
          workers := s.workers ++ [s.fresh]
          monitor := .adding n })
        (published_hidden h hroom (fun _ => rfl) rfl rfl) rfl
        (show 2 * n < accesses + 1 by omega)
      refine ⟨hpublished, hidle, hlength.trans ?_⟩
      rw [length_append, length_singleton]
      omega

/-! ## Scaling down -/

/-- What a scale-down leaves, with the count it stores without a check. -/
structure Shrunk (s s' : Pool) (kept : List NodeId) : Prop where
  idle : s'.monitor = .idle
  workers : s'.workers = kept
  count : s'.workerCount = kept.length
  slot : ∀ i, s'.slot i = if i < kept.length then s.slot i else none

/-- A scale-down up to its look at the live coroutines. -/
theorem finish_unpublishing (hm : s.monitor = .unpublishing) (accesses : Nat) :
    finish (accesses + 2) s = finish accesses { s with
      table := (s.store (s.workers.length - 1) none).table
      workerCount := s.workers.length - 1
      monitor := .looking } := by
  rw [finish_advance hm nofun, Pool.advance, Pool.store_same,
    finish_advance (m := .counting) rfl nofun, Pool.advance]

/-- The last worker retires. -/
theorem shrunk_retired (hpublished : Published s) (hm : s.monitor = .unpublishing)
    (hlast : s.workers.getLast? = some w) (hlive : s.live w = 0) (haccesses : 6 ≤ accesses) :
    Shrunk s (finish accesses s) s.workers.dropLast := by
  obtain ⟨accesses, rfl⟩ := Nat.exists_eq_add_of_le' haccesses
  obtain ⟨retired, destroyed, hreclaim⟩ := finish_reclaiming
    (s := { s with
      table := (s.store (s.workers.length - 1) none).table
      workerCount := s.workers.length - 1
      workers := s.workers.dropLast
      isRetiring := Function.update s.isRetiring w true
      retired := s.retired ++ [w]
      monitor := .reclaiming }) rfl (show 2 ≤ accesses + 2 by omega)
  rw [finish_unpublishing hm (accesses + 4), finish_advance (m := .looking) rfl nofun,
    Pool.advance]
  dsimp only
  rw [hlast]
  dsimp only
  rw [if_neg (not_not.mpr hlive), finish_advance (m := .decommissioning w) rfl nofun,
    Pool.advance, hreclaim]
  refine ⟨rfl, rfl, length_dropLast.symm, ?_⟩
  intro i
  show (s.store (s.workers.length - 1) none).slot i = _
  have hcount := hpublished.count
  rw [slot_store, length_dropLast, hpublished.table]
  by_cases hi : i < s.workers.length - 1
  · rw [if_neg (by omega), if_pos hi]
  · rw [if_neg hi]
    split
    · rfl
    · rename_i hother
      rw [if_neg (by omega)]

/-- The last worker is put back. -/
theorem shrunk_restored (hpublished : Published s) (hm : s.monitor = .unpublishing)
    (hlast : s.workers.getLast? = some w) (hlive : s.live w ≠ 0) (haccesses : 7 ≤ accesses) :
    Shrunk s (finish accesses s) s.workers := by
  have hne : s.workers ≠ [] := by
    intro hnil
    rw [hnil] at hlast
    cases hlast
  have hlength := length_pos_iff.mpr hne
  obtain ⟨accesses, rfl⟩ := Nat.exists_eq_add_of_le' haccesses
  let u : Pool := { s with
    table := (s.store (s.workers.length - 1) none).table
    workerCount := s.workers.length - 1
    monitor := .restoring }
  obtain ⟨retired, destroyed, hreclaim⟩ := finish_reclaiming
    (s := { u with
      table := (u.store (s.workers.length - 1) (some w)).table
      workerCount := s.workers.length - 1 + 1
      monitor := .reclaiming }) rfl (show 2 ≤ accesses + 2 by omega)
  rw [finish_unpublishing hm (accesses + 5), finish_advance (m := .looking) rfl nofun,
    Pool.advance]
  dsimp only
  rw [hlast]
  dsimp only
  rw [if_pos hlive, finish_advance (m := .restoring) rfl nofun, Pool.advance]
  show Shrunk s (finish (accesses + 3) { u.store (s.workers.length - 1) s.workers.getLast? with
    monitor := .recounting }) s.workers
  rw [hlast, Pool.store_same, finish_advance (m := .recounting) rfl nofun, Pool.advance]
  show Shrunk s (finish (accesses + 2) { u with
      table := (u.store (s.workers.length - 1) (some w)).table
      workerCount := s.workers.length - 1 + 1
      monitor := .reclaiming }) s.workers
  rw [hreclaim]
  refine ⟨rfl, rfl, Nat.sub_add_cancel hlength, ?_⟩
  intro i
  show (u.store (s.workers.length - 1) (some w)).slot i = _
  have hu : u.slot i = (s.store (s.workers.length - 1) none).slot i := rfl
  have hcount := hpublished.count
  rw [slot_store, hu, slot_store]
  by_cases hi : i = s.workers.length - 1 ∧ s.workers.length - 1 < kMaxWorkerSlots
  · have hsame : s.workers[i]? = some w := by
      rw [hi.1, ← getLast?_eq_getElem?, hlast]
    rw [if_pos hi, if_pos (by omega), hpublished.table, if_pos (by omega), hsame]
  · rw [if_neg hi, if_neg hi, hpublished.table]
    split
    · rw [if_pos (by omega)]
    · rw [ite_self]

/-- A scale-down leaves the table right, unless it counts more slots than there are. -/
theorem Shrunk.published_iff {kept : List NodeId} (h : Shrunk s s' kept)
    (hbefore : Published s) (hkept : kept <+: s.workers) :
    Published s' ↔ kept.length ≤ kMaxWorkerSlots := by
  have hcount := hbefore.count
  constructor
  · intro hpublished
    have hafter := hpublished.count
    rw [h.count, h.workers] at hafter
    omega
  · intro hroom
    have hle := hkept.length_le
    constructor
    · rw [h.count, h.workers]
      omega
    · intro i
      rw [h.slot, h.count, h.workers, hbefore.table]
      split
      · rename_i hi
        obtain ⟨rest, hrest⟩ := hkept
        rw [if_pos (by omega), ← hrest, getElem?_append_left hi]
      · rfl

/-! ## The calls -/

/-- A pool between two calls, with its table right. -/
structure Settled (cfg : Config) (s : State) : Prop where
  idle : s.pool.monitor = .idle
  inv : TableInv cfg s

theorem published_stealing (h : Published s) (start i : Nat) (hmore : 1 < s.workerCount) :
    (start + i) % s.workerCount < kMaxWorkerSlots := by
  have hcount := h.count
  have hmod := Nat.mod_lt (start + i) (show 0 < s.workerCount by omega)
  omega

theorem decision_grow {current cooldown toAdd : Nat}
    (h : decision cfg current cooldown load = .grow toAdd) : current + toAdd ≤ cfg.maxWorkers := by
  rw [decision] at h
  split at h
  · rename_i hroom
    cases h
    omega
  · split at h
    · split at h
      · split at h
        · cases h
        · cases h
      · cases h
    · cases h

theorem decision_shrink {current cooldown : Nat}
    (h : decision cfg current cooldown load = .shrink) : cfg.minWorkers < current := by
  rw [decision] at h
  split at h
  · cases h
  · split at h
    · rename_i hmore
      exact hmore
    · cases h

/-- What `check_and_scale` leaves: the limits are kept, and the table is right just when the
    call fits. -/
theorem scale_settled {workers : Nat} (hmin : 1 ≤ cfg.minWorkers) (hpublished : Published s)
    (hworkers : s.workers.length = workers)
    (hlow : cfg.minWorkers ≤ workers) (hhigh : workers ≤ cfg.maxWorkers) :
    (scale cfg load s).monitor = .idle ∧
      (cfg.minWorkers ≤ (scale cfg load s).workers.length ∧
        (scale cfg load s).workers.length ≤ cfg.maxWorkers) ∧
      (Published (scale cfg load s) ↔
        (decision cfg s.workers.length s.cooldown load = .shrink → ∀ w ∈ s.workers.getLast?,
          s.workers.length ≤ if s.live w = 0 then kMaxWorkerSlots + 1 else kMaxWorkerSlots)) := by
  have hne : s.workers ≠ [] := ne_nil_of_length_pos (by omega)
  rw [scale, Pool.checkAndScale, if_neg hne]
  cases hdecision : decision cfg s.workers.length s.cooldown load with
  | grow toAdd =>
    have hroom := decision_grow hdecision
    obtain ⟨hafter, hmonitor, hlength⟩ := finish_adding (n := toAdd)
      (s := { s with cooldown := 0, monitor := .adding toAdd }) ⟨hpublished.count, hpublished.table⟩
      rfl (show 2 * toAdd < 2 * cfg.maxWorkers + 8 by omega)
    dsimp only at hafter hmonitor hlength ⊢
    refine ⟨hmonitor, ⟨by omega, by omega⟩, fun _ => nofun, fun _ => hafter⟩
  | shrink =>
    have hmore := decision_shrink hdecision
    obtain ⟨w, hlast⟩ : ∃ w, s.workers.getLast? = some w :=
      ⟨_, getLast?_eq_some_getLast hne⟩
    rw [hlast]
    dsimp only
    simp only [Option.mem_def, Option.some.injEq, forall_eq', true_implies]
    by_cases hlive : s.live w = 0
    · have hshrunk := shrunk_retired (s := { s with cooldown := 0, monitor := .unpublishing })
        ⟨hpublished.count, hpublished.table⟩ rfl hlast hlive
        (show 6 ≤ 2 * cfg.maxWorkers + 8 by omega)
      have hiff := hshrunk.published_iff ⟨hpublished.count, hpublished.table⟩
        (List.dropLast_prefix _)
      have hkept := congrArg List.length hshrunk.workers
      rw [length_dropLast] at hkept hiff
      dsimp only at hkept hiff
      rw [if_pos hlive]
      refine ⟨hshrunk.idle, ⟨by omega, by omega⟩, hiff.trans ?_⟩
      omega
    · have hshrunk := shrunk_restored (s := { s with cooldown := 0, monitor := .unpublishing })
        ⟨hpublished.count, hpublished.table⟩ rfl hlast hlive
        (show 7 ≤ 2 * cfg.maxWorkers + 8 by omega)
      have hiff := hshrunk.published_iff ⟨hpublished.count, hpublished.table⟩ (prefix_refl _)
      have hkept := congrArg List.length hshrunk.workers
      dsimp only at hkept hiff
      rw [if_neg hlive]
      exact ⟨hshrunk.idle, ⟨by omega, by omega⟩, hiff⟩
  | stay cooldown =>
    obtain ⟨retired, destroyed, hreclaim⟩ := finish_reclaiming
      (s := { s with cooldown, monitor := .reclaiming }) rfl
      (show 2 ≤ 2 * cfg.maxWorkers + 8 by omega)
    dsimp only
    rw [hreclaim]
    exact ⟨rfl, ⟨by rw [hworkers]; exact hlow, by rw [hworkers]; exact hhigh⟩, fun _ => nofun,
      fun _ => ⟨hpublished.count, hpublished.table⟩⟩

/-- **One call** keeps the invariant just when it fits. -/
theorem call_settled (hmin : 1 ≤ cfg.minWorkers) (hle : cfg.minWorkers ≤ cfg.maxWorkers)
    {s s' : State} {op : Op} (h : Settled cfg s) (hcall : call cfg s op = some s') :
    (TableInv cfg s' ↔ Fits cfg s op) ∧ (TableInv cfg s' → Settled cfg s') := by
  obtain ⟨hidle, hlimits, hpublished, -⟩ := h
  have hinv : ∀ t : State, (if t.running then cfg.minWorkers ≤ t.pool.workers.length ∧
      t.pool.workers.length ≤ cfg.maxWorkers else t.pool.workers = []) →
        (TableInv cfg t ↔ Published t.pool) := fun t ht =>
    ⟨TableInv.published, fun hpub => ⟨ht, hpub, fun start i => published_stealing hpub start i⟩⟩
  cases op with
  | start =>
    rw [call] at hcall
    split at hcall
    · cases hcall
    · rename_i hstopped
      cases hcall
      rw [if_neg hstopped] at hlimits
      obtain ⟨hafter, hmonitor, hlength⟩ := finish_adding (n := cfg.minWorkers)
        (s := { s.pool with monitor := .adding cfg.minWorkers })
        ⟨hpublished.count, hpublished.table⟩ rfl (Nat.lt_succ_self _)
      have hcount : (startPool cfg s.pool).workers.length = s.pool.workers.length + cfg.minWorkers :=
        hlength
      rw [hlimits, length_nil, Nat.zero_add] at hcount
      have hlimits' : cfg.minWorkers ≤ (startPool cfg s.pool).workers.length ∧
          (startPool cfg s.pool).workers.length ≤ cfg.maxWorkers := by
        rw [hcount]
        exact ⟨Nat.le_refl _, hle⟩
      have htable : TableInv cfg ⟨startPool cfg s.pool, true⟩ :=
        (hinv ⟨startPool cfg s.pool, true⟩ hlimits').mpr hafter
      exact ⟨⟨fun _ => trivial, fun _ => htable⟩, fun _ => ⟨hmonitor, htable⟩⟩
  | stop =>
    cases hcall
    have hstopped : Published (stopPool s.pool) := by
      refine ⟨rfl, fun i => ?_⟩
      show (if _ then (if _ then none else _) else none) = if i < 0 then _ else none
      rw [if_neg (Nat.not_lt_zero i)]
      split
      · rfl
      · rfl
    have htable : TableInv cfg ⟨stopPool s.pool, false⟩ :=
      (hinv ⟨stopPool s.pool, false⟩ rfl).mpr hstopped
    exact ⟨⟨fun _ => trivial, fun _ => htable⟩, fun _ => ⟨hidle, htable⟩⟩
  | check load live activeThieves =>
    cases hcall
    by_cases hrunning : s.running = true
    · rw [if_pos hrunning] at hlimits
      obtain ⟨hmonitor, hlimits', hiff⟩ := @scale_settled cfg
        { s.pool with live, activeThieves } load _ hmin
        ⟨hpublished.count, hpublished.table⟩ rfl hlimits.1 hlimits.2
      have htable := hinv { s with pool := scale cfg load { s.pool with live, activeThieves } }
        (by rw [if_pos hrunning]; exact hlimits')
      exact ⟨htable.trans hiff, fun h => ⟨hmonitor, h⟩⟩
    · rw [if_neg hrunning] at hlimits
      have hnothing : scale cfg load { s.pool with live, activeThieves } =
          { s.pool with live, activeThieves } := by
        rw [scale, Pool.checkAndScale, if_pos hlimits]
        exact finish_idle (s := { s.pool with live, activeThieves }) hidle _
      rw [hnothing]
      have htable : TableInv cfg { s with pool := { s.pool with live, activeThieves } } :=
        (hinv _ (by rw [if_neg hrunning]; exact hlimits)).mpr ⟨hpublished.count, hpublished.table⟩
      refine ⟨⟨fun _ _ w hw => ?_, fun _ => htable⟩, fun h => ⟨hidle, h⟩⟩
      rw [hlimits] at hw
      cases hw

theorem settled_initial (cfg : Config) : Settled cfg {} := by
  refine ⟨rfl, rfl, ⟨rfl, fun i => ?_⟩, fun _ _ h => absurd h (by decide)⟩
  show (if _ then none else none) = if i < 0 then _ else none
  rw [ite_self, if_neg (Nat.not_lt_zero i)]

/-- With no more workers than slots, every call fits. -/
theorem fits_within_slots (hmin : 1 ≤ cfg.minWorkers) (hle : cfg.minWorkers ≤ cfg.maxWorkers)
    (hmax : cfg.maxWorkers ≤ kMaxWorkerSlots) (ops : List Op) {s : State} (hs : Settled cfg s) :
    Along cfg (fun s op _ => Fits cfg s op) s ops := by
  induction ops generalizing s with
  | nil => exact trivial
  | cons op ops ih =>
    have hworkers : s.pool.workers.length ≤ kMaxWorkerSlots := by
      have hlimits := hs.inv.limits
      split at hlimits
      · omega
      · rw [hlimits]
        exact Nat.zero_le _
    have hfits : Fits cfg s op := by
      cases op with
      | start => exact trivial
      | stop => exact trivial
      | check load live activeThieves =>
        intro _ w _
        split
        · omega
        · exact hworkers
    rw [Along]
    cases hcall : call cfg s op with
    | none => exact trivial
    | some s' =>
      obtain ⟨hone, hsettled⟩ := call_settled hmin hle hs hcall
      exact ⟨hfits, ih (hsettled (hone.mpr hfits))⟩

/-- **The worker table.**  In a run of calls the invariant holds after every call just when
    every call fits. -/
theorem worker_table_iff (cfg : Config) (hmin : 1 ≤ cfg.minWorkers)
    (hle : cfg.minWorkers ≤ cfg.maxWorkers) (ops : List Op) :
    Along cfg (fun _ _ s' => TableInv cfg s') {} ops ↔
      Along cfg (fun s op _ => Fits cfg s op) {} ops := by
  have hrun : ∀ s, Settled cfg s → (Along cfg (fun _ _ s' => TableInv cfg s') s ops ↔
      Along cfg (fun s op _ => Fits cfg s op) s ops) := by
    induction ops with
    | nil => exact fun _ _ => Iff.rfl
    | cons op ops ih =>
      intro s hs
      rw [Along, Along]
      cases hcall : call cfg s op with
      | none => exact Iff.rfl
      | some s' =>
        obtain ⟨hone, hsettled⟩ := call_settled hmin hle hs hcall
        dsimp only
        constructor
        · rintro ⟨hinv, hrest⟩
          exact ⟨hone.mp hinv, (ih s' (hsettled hinv)).mp hrest⟩
        · rintro ⟨hfits, hrest⟩
          have hinv := hone.mpr hfits
          exact ⟨hinv, (ih s' (hsettled hinv)).mpr hrest⟩
  exact hrun {} (settled_initial cfg)

/-- A pool of one or two workers. -/
def pair : Config where
  minWorkers := 1
  maxWorkers := 2
  upperThresholds := [50]
  lowerThresholds := [10]
  scaleDownCooldownCycles := 1

/-- It grows, keeps a worker that is live, shrinks, stops and starts again. -/
theorem worker_table_iff_pair : Along pair (fun _ _ s' => TableInv pair s') {}
    [.start, .check 60 (fun _ => 0) 0, .check 0 (fun _ => 1) 0, .check 0 (fun _ => 0) 1, .stop,
      .start] :=
  (worker_table_iff pair (by decide) (by decide) _).mpr
    (fits_within_slots (by decide) (by decide) (by decide) _ (settled_initial pair))

/-- A pool of 128 workers, or one more. -/
def crowd : Config where
  minWorkers := 128
  maxWorkers := 129
  upperThresholds := List.replicate 128 50
  lowerThresholds := List.replicate 128 10
  scaleDownCooldownCycles := 1

/-- The worker without a slot is put back, and counted. -/
theorem count_beyond_table : ¬ ∀ cfg : Config, 1 ≤ cfg.minWorkers → cfg.minWorkers ≤ cfg.maxWorkers →
    ∀ ops, Along cfg (fun _ _ s' => TableInv cfg s') {} ops := by
  intro h
  obtain ⟨-, -, hinv, -⟩ := h crowd (by decide) (by decide)
    [.start, .check 60 (fun _ => 0) 0, .check 0 (fun _ => 1) 0]
  exact absurd hinv.published.count (by decide +kernel)

end ThreadPoolTable
