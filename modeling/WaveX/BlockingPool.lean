import Mathlib.Data.List.Count
import WaveX.Labelled
import WaveX.RingQueue

/-! # The pool for blocking tasks

    `BlockingThreadPool` of `include/wavex/Server/BlockingPool.hpp`: workers that take tasks
    from one queue under one mutex, more of them while all are busy and fewer after a time of
    rest.

    A step is what one thread does between taking the mutex and giving it up, in a wait or at
    the end of the block; the steps of all threads interleave in any order.  A wait may end
    without a notification, and one with a time-out may report it at any time.  A task runs
    between two steps of its worker. -/

namespace BlockingPool

open RingQueue

/-! ## The pool -/

/-- `BlockingTask`: the callable, unless it is empty. -/
abbrev Task (τ : Type*) := Option τ

/-- Where a worker stands in `worker_loop`: about to take the mutex at its head, in a wait,
    out of the wait but without the mutex, or in a task.  `timed` tells `wait_for` from
    `wait`. -/
inductive Worker (τ : Type*) where
  | entering
  | asleep (timed : Bool)
  | woken (timed : Bool)
  | running (task : τ)
  | exited

/-- Where `shutdown` stands: not called, before `notify_all`, before the `join` of a thread,
    or done. -/
inductive Shutdown where
  | open
  | notifying
  | joining (next : Nat)
  | closed

/-- `BlockingThreadPool`.  `accepted`, `taken` and `finished` record the tasks that a
    `dispatch` queued, those that a worker took, and those whose run has ended, in order. -/
structure Pool (τ : Type*) where
  minThreads : Nat
  maxThreads : Nat
  totalCount : Nat
  idleCount : Nat
  tasks : Queue (Task τ)
  threads : List (Worker τ)
  stopping : Bool
  shutdown : Shutdown
  accepted : List (Task τ)
  taken : List (Task τ)
  finished : List τ

variable {τ : Type*} (mem : Memory)

/-- `spawn_worker_unlocked`. -/
def Pool.spawnWorker (p : Pool τ) : Pool τ :=
  { p with totalCount := p.totalCount + 1, threads := p.threads ++ [.entering] }

/-- The constructor. -/
def Pool.new (minThreads maxThreads : Nat) : Option (Pool τ) :=
  let min := max 1 minThreads
  (Queue.ofCapacity mem 256).map fun tasks =>
    Nat.iterate Pool.spawnWorker min
      { minThreads := min, maxThreads := max min maxThreads, totalCount := 0, idleCount := 0,
        tasks, threads := [], stopping := false, shutdown := .open, accepted := [], taken := [],
        finished := [] }

def Worker.isAsleep : Worker τ → Bool
  | .asleep _ => true
  | _ => false

/-- What a notification, a time-out or a spurious wake-up does. -/
def Worker.wake : Worker τ → Worker τ
  | .asleep timed => .woken timed
  | w => w

/-- `cv_.notify_one`: one of the sleeping workers wakes up, if there is one. -/
def Pool.notifyOne (p : Pool τ) : Option Nat → Option (Pool τ)
  | none => if p.threads.any Worker.isAsleep then none else some p
  | some i =>
      match p.threads[i]? with
      | some (.asleep timed) => some { p with threads := p.threads.set i (.woken timed) }
      | _ => none

/-- `dispatch`; the second argument is the worker that the notification wakes up.  When `push`
    throws, so does `dispatch`. -/
def Pool.dispatch (p : Pool τ) (task : Task τ) (woken : Option Nat) : Option (Pool τ) :=
  if p.stopping then some p
  else
    match p.tasks.push mem task with
    | none => none
    | some (_, false) => some p
    | some (tasks, true) =>
        let p := { p with tasks, accepted := p.accepted ++ [task] }
        let p := if p.idleCount = 0 ∧ p.totalCount < p.maxThreads then p.spawnWorker else p
        p.notifyOne woken

/-- The end of a worker. -/
def Pool.exit (p : Pool τ) (i : Nat) : Pool τ :=
  { p with totalCount := p.totalCount - 1, threads := p.threads.set i .exited }

/-- The head of the inner loop, and what follows it: the worker goes to sleep, leaves, or takes
    a task. -/
def Pool.settle (p : Pool τ) (i : Nat) : Option (Pool τ) :=
  if !p.stopping && p.tasks.empty then
    some { p with threads := p.threads.set i (.asleep (p.minThreads < p.totalCount)) }
  else
    let p := { p with idleCount := p.idleCount - 1 }
    if p.stopping && p.tasks.empty then some (p.exit i)
    else
      p.tasks.pop.map fun (task, tasks) =>
        { p with
          tasks
          taken := p.taken ++ [task]
          threads := p.threads.set i (task.elim .entering .running) }

/-- A worker takes the mutex after a wait, with what `wait_for` reports. -/
def Pool.resume (p : Pool τ) (i : Nat) (timedOut : Bool) : Option (Pool τ) :=
  if timedOut && (p.tasks.empty && p.minThreads < p.totalCount) then
    some (Pool.exit { p with idleCount := p.idleCount - 1 } i)
  else p.settle i

/-- What a thread does. -/
inductive Action (τ : Type*) where
  | dispatch (task : Task τ) (woken : Option Nat)
  | enter (i : Nat)
  | wake (i : Nat)
  | resume (i : Nat) (timedOut : Bool)
  | finish (i : Nat)
  | stop
  | notifyAll
  | join
  | close

/-- A step; it is not possible when a worker is not where the action needs it, or when a
    worker would leave its buffer. -/
def step (p : Pool τ) : Action τ → Option (Pool τ)
  | .dispatch task woken => p.dispatch mem task woken
  | .enter i =>
      match p.threads[i]? with
      | some .entering => Pool.settle { p with idleCount := p.idleCount + 1 } i
      | _ => none
  | .wake i =>
      match p.threads[i]? with
      | some (.asleep timed) => some { p with threads := p.threads.set i (.woken timed) }
      | _ => none
  | .resume i timedOut =>
      match p.threads[i]? with
      | some (.woken timed) => if timedOut && !timed then none else p.resume i timedOut
      | _ => none
  | .finish i =>
      match p.threads[i]? with
      | some (.running task) =>
          some { p with threads := p.threads.set i .entering, finished := p.finished ++ [task] }
      | _ => none
  | .stop =>
      if p.stopping then some p else some { p with stopping := true, shutdown := .notifying }
  | .notifyAll =>
      match p.shutdown with
      | .notifying => some { p with shutdown := .joining 0, threads := p.threads.map Worker.wake }
      | _ => none
  | .join =>
      match p.shutdown with
      | .joining k =>
          match p.threads[k]? with
          | some .exited => some { p with shutdown := .joining (k + 1) }
          | _ => none
      | _ => none
  | .close =>
      match p.shutdown with
      | .joining k =>
          if k = p.threads.length then
            some { p with
              shutdown := .closed
              threads := []
              tasks := p.tasks.clear
              totalCount := 0
              idleCount := 0 }
          else none
      | _ => none

/-- The runs of the pool from its construction on. -/
def pools (minThreads maxThreads : Nat) : System (Pool τ) :=
  Labelled.system (step mem) fun p => Pool.new mem minThreads maxThreads = some p

end BlockingPool
