import Mathlib.Algebra.GroupWithZero.Nat
import Mathlib.Logic.Function.Basic
import WaveX.History

/-! # Leases and retirement of workers

    `lease_worker`, `check_and_scale` and `reclaim_retired` of `ThreadPool` in
    `include/wavex/Server/ThreadPool.hpp`, with the steal loop as far as it has to do with
    `active_thieves_`.  Any number of threads lease and steal while the monitor adds, retires
    and destroys workers; each atomic access is one step, and so is each of the monitor's
    changes of `workers_` and `retired_`, with the access before it.

    A worker node is a number.  A number is not given again after its node is destroyed, so
    what refers to the node can be told from what refers to a later one. -/

namespace ThreadPool

open History

/-! ## When to scale -/

/-- What `check_and_scale` reads of `ThreadPoolConfig`. -/
structure Config where
  minWorkers : Nat
  maxWorkers : Nat
  upperThresholds : List Nat
  lowerThresholds : List Nat
  scaleUpDivider : Nat := 2
  scaleDownCooldownCycles : Nat := 3
  deriving DecidableEq, Repr

/-- The loop for the number of workers to have, from `k` on with the rounds counted down. -/
def targetWorkers (cfg : Config) (load : Nat) : Nat → Nat → Nat → Nat
  | 0, _, target => target
  | rounds + 1, k, target =>
      if load > cfg.upperThresholds.getD (k - 1) (50 * (k - 1)) then
        targetWorkers cfg load rounds (k + 1) k
      else target

/-- What `check_and_scale` decides: workers to add, a worker to retire, or nothing, with the
    cooldown counter it leaves. -/
inductive Decision where
  | grow (toAdd : Nat)
  | shrink
  | stay (cooldown : Nat)
  deriving DecidableEq, Repr

/-- The decision, from the number of workers, the cooldown counter and the load. -/
def decision (cfg : Config) (current cooldown load : Nat) : Decision :=
  if current < cfg.maxWorkers ∧ load > cfg.upperThresholds.getD (current - 1) 50 then
    let target := targetWorkers cfg load (cfg.maxWorkers - current) (current + 1) (current + 1)
    let needed := if target > current then target - current else 1
    let divider := if cfg.scaleUpDivider > 0 then cfg.scaleUpDivider else 1
    .grow (min (max 1 (needed / divider)) (cfg.maxWorkers - current))
  else if current > cfg.minWorkers then
    -- 64 bits: with one worker the index is far outside the list
    if load < cfg.lowerThresholds.getD ((current + 2 ^ 64 - 2) % 2 ^ 64) 5 then
      if cooldown + 1 ≥ cfg.scaleDownCooldownCycles then .shrink else .stay (cooldown + 1)
    else .stay 0
  else .stay 0

/-! ## The pool -/

abbrev NodeId := Nat

/-- `kMaxWorkerSlots`. -/
def kMaxWorkerSlots : Nat := 128

/-- Where a call of `lease_worker` stands: what it has read, and which access is next. -/
inductive Call where
  | idle
  | attempt (attempt : Nat)
  | counted (attempt count : Nat)
  | picked (attempt idx : Nat)
  | loaded (attempt idx : Nat) (w : NodeId)
  | registered (attempt idx : Nat) (w : NodeId)
  | backingOut (attempt : Nat) (w : NodeId)
  deriving DecidableEq, Repr

/-- Where a steal loop stands: not in a `ThiefScope`, in one, or with the pointer of a peer. -/
inductive Thief where
  | outside
  | inside
  | probing (w : NodeId)
  deriving DecidableEq, Repr

/-- Where `check_and_scale` stands, `adding` and `publishing` in `add_worker_unlocked`. -/
inductive Monitor where
  | idle
  | adding (left : Nat)
  | publishing (w : NodeId) (left : Nat)
  | unpublishing
  | counting
  | looking
  | restoring
  | recounting
  | decommissioning (w : NodeId)
  | reclaiming
  | clearing
  deriving DecidableEq, Repr

/-- The pool with what runs on it, one call and one steal loop for each thread.  `live` is
    `live_coroutines` of each node, `leases` what the leases and the coroutines that were
    spawned with one refer to, `destroyed` the nodes that are gone, `fresh` the next node. -/
structure Pool where
  table : Nat → Option NodeId := fun _ => none
  workerCount : Nat := 0
  nextWorkerIdx : Nat := 0
  activeThieves : Nat := 0
  live : NodeId → Nat := fun _ => 0
  isRetiring : NodeId → Bool := fun _ => false
  workers : List NodeId := []
  retired : List NodeId := []
  destroyed : List NodeId := []
  fresh : NodeId := 0
  cooldown : Nat := 0
  monitor : Monitor := .idle
  calls : List Call := []
  thieves : List Thief := []
  leases : List NodeId := []

namespace Pool

/-- A slot of `worker_table_`, none outside it. -/
def slot (s : Pool) (idx : Nat) : Option NodeId :=
  if idx < kMaxWorkerSlots then s.table idx else none

/-- A store in a slot, none outside the table. -/
def store (s : Pool) (idx : Nat) (w : Option NodeId) : Pool :=
  if idx < kMaxWorkerSlots then { s with table := Function.update s.table idx w } else s

/-- What a store leaves alone. -/
theorem store_same (s : Pool) (idx : Nat) (w : Option NodeId) :
    s.store idx w = { s with table := (s.store idx w).table } := by
  rw [store]
  split <;> rfl

def setCall (s : Pool) (t : Nat) (c : Call) : Pool := { s with calls := s.calls.set t c }

def setThief (s : Pool) (t : Nat) (th : Thief) : Pool := { s with thieves := s.thieves.set t th }

/-! ## `lease_worker` -/

/-- The next round of the loop, or the empty lease after four. -/
def nextAttempt (attempt : Nat) : Call :=
  if attempt + 1 < 4 then .attempt (attempt + 1) else .idle

/-- One access of a call. -/
def leaseWorker (s : Pool) (t : Nat) : Call → Pool
  | .idle => s.setCall t (.attempt 0)
  | .attempt k => s.setCall t (if s.workerCount = 0 then .idle else .counted k s.workerCount)
  | .counted k count =>
      { s with nextWorkerIdx := (s.nextWorkerIdx + 1) % 2 ^ 64 }.setCall t
        (.picked k (s.nextWorkerIdx % count))
  | .picked k idx =>
      match s.slot idx with
      | none => s.setCall t (nextAttempt k)
      | some w => s.setCall t (.loaded k idx w)
  | .loaded k idx w =>
      { s with live := Function.update s.live w (s.live w + 1) }.setCall t (.registered k idx w)
  | .registered k idx w =>
      if s.slot idx = some w then { s with leases := w :: s.leases }.setCall t .idle
      else s.setCall t (.backingOut k w)
  | .backingOut k w =>
      { s with live := Function.update s.live w (s.live w - 1) }.setCall t (nextAttempt k)

/-! ## The monitor -/

/-- `check_and_scale` up to its decision. -/
def checkAndScale (cfg : Config) (s : Pool) (load : Nat) : Pool :=
  if s.workers = [] then s
  else
    match decision cfg s.workers.length s.cooldown load with
    | .grow toAdd => { s with cooldown := 0, monitor := .adding toAdd }
    | .shrink => { s with cooldown := 0, monitor := .unpublishing }
    | .stay cooldown => { s with cooldown, monitor := .reclaiming }

/-- One access of the monitor. -/
def advance (s : Pool) : Monitor → Pool
  | .idle => s
  | .adding 0 => { s with monitor := .idle }
  | .adding (left + 1) =>
      if s.workers.length < kMaxWorkerSlots then
        { s.store s.workers.length (some s.fresh) with
          fresh := s.fresh + 1, monitor := .publishing s.fresh left }
      else
        { s with fresh := s.fresh + 1, workers := s.workers ++ [s.fresh], monitor := .adding left }
  | .publishing w left =>
      { s with
        workerCount := s.workers.length + 1
        workers := s.workers ++ [w]
        monitor := .adding left }
  | .unpublishing => { s.store (s.workers.length - 1) none with monitor := .counting }
  | .counting => { s with workerCount := s.workers.length - 1, monitor := .looking }
  | .looking =>
      match s.workers.getLast? with
      | none => s
      | some w =>
          -- something is live, or just became so: the worker is put back
          if s.live w ≠ 0 then { s with monitor := .restoring }
          else { s with workers := s.workers.dropLast, monitor := .decommissioning w }
  | .restoring => { s.store (s.workers.length - 1) s.workers.getLast? with monitor := .recounting }
  | .recounting => { s with workerCount := s.workers.length - 1 + 1, monitor := .reclaiming }
  | .decommissioning w =>
      { s with
        isRetiring := Function.update s.isRetiring w true
        retired := s.retired ++ [w]
        monitor := .reclaiming }
  | .reclaiming =>
      { s with monitor := if s.retired ≠ [] ∧ s.activeThieves = 0 then .clearing else .idle }
  | .clearing => { s with destroyed := s.destroyed ++ s.retired, retired := [], monitor := .idle }

end Pool

/-! ## Steps -/

/-- The steps: an access of the call of a thread, the end of a lease or of the coroutine it
    was spawned with, a thread entering its `ThiefScope`, looking at a slot, probing the peer
    it found there and leaving, `check_and_scale` called with some load, and an access of the
    monitor. -/
inductive Action where
  | lease (t : Nat)
  | release (w : NodeId)
  | enter (t : Nat)
  | look (t idx : Nat)
  | probe (t : Nat)
  | leave (t : Nat)
  | check (load : Nat)
  | monitor
  deriving DecidableEq, Repr

/-- One step, `none` when it is not possible. -/
def step (cfg : Config) (s : Pool) : Action → Option Pool
  | .lease t => s.calls[t]?.map (s.leaseWorker t)
  | .release w =>
      if w ∈ s.leases then
        some { s with live := Function.update s.live w (s.live w - 1), leases := s.leases.erase w }
      else none
  | .enter t =>
      if s.thieves[t]? = some .outside then
        some ({ s with activeThieves := s.activeThieves + 1 }.setThief t .inside)
      else none
  | .look t idx =>
      if s.thieves[t]? = some .inside then
        match s.slot idx with
        | none => some s
        | some w => some (s.setThief t (.probing w))
      else none
  | .probe t =>
      match s.thieves[t]? with
      | some (.probing _) => some (s.setThief t .inside)
      | _ => none
  | .leave t =>
      if s.thieves[t]? = some .inside then
        some ({ s with activeThieves := s.activeThieves - 1 }.setThief t .outside)
      else none
  | .check load => if s.monitor = .idle then some (s.checkAndScale cfg load) else none
  | .monitor => if s.monitor = .idle then none else some (s.advance s.monitor)

/-- The pool of a number of threads, as `start_pool` has it: the first workers are added. -/
def initial (cfg : Config) (threads : Nat) : Pool where
  monitor := .adding cfg.minWorkers
  calls := List.replicate threads .idle
  thieves := List.replicate threads .outside

/-- The state after a list of actions. -/
def run (cfg : Config) : Pool → List Action → Option Pool
  | s, [] => some s
  | s, a :: rest => (step cfg s a).bind (run cfg · rest)

/-- The worker of the lease that a step returns. -/
def returned (s : Pool) : Action → Option NodeId
  | .lease t =>
      match s.calls[t]? with
      | some (.registered _ idx w) => if s.slot idx = some w then some w else none
      | _ => none
  | _ => none

/-- The node that a step reads or writes through a raw pointer: `io_ctx` and
    `live_coroutines` for a lease, the queue of a peer for a thief. -/
def accessed (s : Pool) : Action → Option NodeId
  | .lease t =>
      match s.calls[t]? with
      | some (.loaded _ _ w) => some w
      | some (.registered _ idx w) => if s.slot idx = some w then some w else none
      | some (.backingOut _ w) => some w
      | _ => none
  | .probe t =>
      match s.thieves[t]? with
      | some (.probing w) => some w
      | _ => none
  | _ => none

end ThreadPool
