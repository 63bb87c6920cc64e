import WaveX.Labelled
import WaveX.WorkStealingQueue

/-! # The tasks of the thread pool

    Every task goes through `InjectorQueue` of `include/wavex/Server/WorkStealingQueue.hpp`, a
    vector behind a mutex that is read from `head_` on and cleared when all of it was taken.
    The workers of `include/wavex/Server/ThreadPool.hpp` look into their own ring, into those
    of the others and into the injector; a worker that retires gives it the rest of its ring.

    No ring ever gets a task, for only `steal_half` pushes to one: `dispatched_split`.  So the
    operations of a ring, which would race, are one step here. -/

namespace PoolTasks

open WorkStealingQueue List

variable {τ : Type*}

/-! ## The injector -/

/-- `InjectorQueue`.  A task that was moved out stays in the list and is not read again. -/
structure Injector (τ : Type*) where
  queue : List τ := []
  size : Nat := 0
  head : Nat := 0

/-- The number of values of `std::size_t`. -/
def sizeMod : Nat := 2 ^ 64

def Injector.push (q : Injector τ) (task : τ) : Injector τ :=
  { q with queue := q.queue ++ [task], size := (q.size + 1) % sizeMod }

def Injector.pop (q : Injector τ) : Injector τ × Option τ :=
  match q.queue[q.head]? with
  | none => (if q.queue.isEmpty then q else {}, none)
  | some task =>
      if q.queue.length ≤ q.head + 1 then ({}, some task)
      else ({ q with head := q.head + 1, size := (q.size + sizeMod - 1) % sizeMod }, some task)

/-- The tasks that were not taken. -/
def Injector.waiting (q : Injector τ) : List τ := q.queue.drop q.head

theorem Injector.waiting_mk (queue : List τ) (size head : Nat) :
    (⟨queue, size, head⟩ : Injector τ).waiting = queue.drop head := rfl

/-- The index is in the vector, and the counter is right. -/
def Injector.Sound (q : Injector τ) : Prop :=
  q.head ≤ q.queue.length ∧ q.size = q.waiting.length % sizeMod

theorem Injector.cleared_sound : ({} : Injector τ).Sound :=
  ⟨Nat.le_refl 0, (Nat.zero_mod sizeMod).symm⟩

theorem Injector.push_sound {q : Injector τ} (h : q.Sound) (task : τ) :
    (q.push task).waiting = q.waiting ++ [task] ∧ (q.push task).Sound := by
  have hwaiting : (q.push task).waiting = q.waiting ++ [task] :=
    drop_append_of_le_length h.1
  refine ⟨hwaiting, ?_, ?_⟩
  · rw [push, length_append]
    exact Nat.le_add_right_of_le h.1
  · rw [hwaiting, length_append, length_singleton, push, h.2, Nat.mod_add_mod]

theorem taken_mod (n : Nat) :
    ((n + 1) % sizeMod + sizeMod - 1) % sizeMod = n % sizeMod := by
  rw [sizeMod]
  omega

theorem Injector.taken_sound {q : Injector τ} (h : q.Sound) (hlt : q.head < q.queue.length) :
    (⟨q.queue, (q.size + sizeMod - 1) % sizeMod, q.head + 1⟩ : Injector τ).Sound := by
  have hsize := h.2
  rw [waiting, drop_eq_getElem_cons hlt, length_cons] at hsize
  refine ⟨hlt, ?_⟩
  dsimp only
  rw [hsize, waiting]
  exact taken_mod _

/-- `pop` takes the first task, if there is one. -/
theorem Injector.pop_sound {q : Injector τ} (h : q.Sound) :
    q.waiting = q.pop.2.toList ++ q.pop.1.waiting ∧ q.pop.2 = q.waiting.head? ∧ q.pop.1.Sound := by
  have hhead : q.waiting.head? = q.queue[q.head]? := head?_drop
  rw [hhead]
  cases hget : q.queue[q.head]? with
  | none =>
    have hempty : q.waiting = [] := drop_eq_nil_iff.mpr (List.getElem?_eq_none_iff.mp hget)
    by_cases hnil : q.queue.isEmpty = true
    · have hpop : q.pop = (q, none) := by rw [pop, hget, if_pos hnil]
      rw [hpop]
      exact ⟨rfl, rfl, h⟩
    · have hpop : q.pop = ({}, none) := by rw [pop, hget, if_neg hnil]
      rw [hpop]
      exact ⟨hempty, rfl, cleared_sound⟩
  | some task =>
    obtain ⟨hlt, rfl⟩ := List.getElem?_eq_some_iff.mp hget
    have hcons : q.waiting = q.queue[q.head] :: q.queue.drop (q.head + 1) :=
      drop_eq_getElem_cons hlt
    by_cases hlast : q.queue.length ≤ q.head + 1
    · have hpop : q.pop = ({}, some q.queue[q.head]) := by
        rw [pop, hget]
        exact if_pos hlast
      rw [hpop, hcons, drop_eq_nil_of_le hlast]
      exact ⟨rfl, rfl, cleared_sound⟩
    · have hpop : q.pop =
          (⟨q.queue, (q.size + sizeMod - 1) % sizeMod, q.head + 1⟩, some q.queue[q.head]) := by
        rw [pop, hget]
        exact if_neg hlast
      rw [hpop]
      refine ⟨?_, rfl, taken_sound h hlt⟩
      dsimp only
      rw [hcons, waiting_mk, Option.toList_some, singleton_append]

/-! ## The rings -/

/-- `LocalQueue::pop`. -/
def pop (q : LocalQueue τ) : LocalQueue τ × Option τ :=
  if q.bottom ≤ q.top then (q, none)
  else if q.bottom = q.top + 1 then ({ q.put q.top none with top := q.bottom }, q.at q.top)
  else ({ q.put (q.bottom - 1) none with bottom := q.bottom - 1 }, q.at (q.bottom - 1))

/-- The loop of `steal_half`; what does not fit is dropped. -/
def moveInto : LocalQueue τ → LocalQueue τ → List Nat → LocalQueue τ × LocalQueue τ
  | q, dest, [] => (q, dest)
  | q, dest, i :: rest =>
      if isFull dest.bottom dest.top then (q.put i none, dest)
      else moveInto (q.put i none)
        { dest.put dest.bottom (q.at i) with bottom := dest.bottom + 1 } rest

/-- `LocalQueue::steal_half`. -/
def stealHalf (q dest : LocalQueue τ) : (LocalQueue τ × LocalQueue τ) × Option τ :=
  if q.bottom ≤ q.top then ((q, dest), none)
  else
    let count := (q.bottom - q.top + 1) / 2
    (moveInto { q.put q.top none with top := q.top + count } dest
      (List.range' (q.top + 1) (count - 1)), q.at q.top)

/-- `drain_all`, with fuel. -/
def drainAll : Nat → LocalQueue τ → List τ
  | 0, _ => []
  | fuel + 1, q =>
      match pop q with
      | (_, none) => []
      | (q, some task) => task :: drainAll fuel q

/-- A ring that nobody pushed to. -/
def Fresh (q : LocalQueue τ) : Prop := q.top = 0 ∧ q.bottom = 0

section

variable {q : LocalQueue τ} (h : Fresh q)

include h

theorem Fresh.bottom_le : q.bottom ≤ q.top := by rw [h.1, h.2]

theorem Fresh.pop : pop q = (q, none) := if_pos h.bottom_le

theorem Fresh.stealHalf (dest : LocalQueue τ) : stealHalf q dest = ((q, dest), none) :=
  if_pos h.bottom_le

theorem Fresh.drainAll : ∀ fuel, drainAll fuel q = []
  | 0 => rfl
  | fuel + 1 => by rw [PoolTasks.drainAll, h.pop]

end

/-! ## The workers -/

/-- The injector and the rings of the workers, `none` for one that has ended, with the tasks in
    the order of their dispatch and in that in which the workers took them.  A worker runs a
    task after it took it and holds no lock then, so tasks may begin in another order. -/
structure Pool (τ : Type*) where
  injector : Injector τ := {}
  workers : List (Option (LocalQueue τ)) := []
  dispatched : List τ := []
  taken : List τ := []

inductive Action (τ : Type*) where
  | dispatch (task : τ)
  | addWorker
  | pop (i : Nat)
  | steal (i j : Nat)
  | take (i : Nat)
  | retire (i : Nat)

def Pool.ring (s : Pool τ) (i : Nat) : Option (LocalQueue τ) := s.workers[i]?.join

/-- A worker has taken a task, when it found one, for its `run_task`. -/
def Pool.hand (s : Pool τ) (task : Option τ) : Pool τ :=
  { s with taken := s.taken ++ task.toList }

def step (s : Pool τ) : Action τ → Option (Pool τ)
  | .dispatch task =>
      some { s with injector := s.injector.push task, dispatched := s.dispatched ++ [task] }
  | .addWorker => some { s with workers := s.workers ++ [some {}] }
  | .pop i => (s.ring i).map fun q =>
      { s with workers := s.workers.set i (some (pop q).1) }.hand (pop q).2
  | .steal i j =>
      if i = j then none
      else (s.ring i).bind fun dest => (s.ring j).map fun q =>
        let ((q, dest), task) := stealHalf q dest
        { s with workers := (s.workers.set j (some q)).set i (some dest) }.hand task
  | .take i => (s.ring i).map fun _ =>
      { s with injector := s.injector.pop.1 }.hand s.injector.pop.2
  | .retire i => (s.ring i).map fun q =>
      { s with workers := s.workers.set i none,
               injector := (drainAll (q.bottom + 1) q).foldl .push s.injector }

def pools (τ : Type*) : System (Pool τ) := Labelled.system step (· = {})

/-- What holds in every reachable state. -/
structure Inv (s : Pool τ) : Prop where
  sound : s.injector.Sound
  order : s.dispatched = s.taken ++ s.injector.waiting
  fresh : ∀ q, some q ∈ s.workers → Fresh q

variable {s s' : Pool τ}

theorem Inv.ring (hinv : Inv s) {i : Nat} {q : LocalQueue τ} (h : s.ring i = some q) : Fresh q :=
  hinv.fresh q (mem_of_getElem? (Option.join_eq_some_iff.mp h))

theorem Inv.set (hinv : Inv s) (i : Nat) {w : Option (LocalQueue τ)}
    (h : ∀ q, w = some q → Fresh q) : Inv { s with workers := s.workers.set i w } where
  sound := hinv.sound
  order := hinv.order
  fresh q hq := by
    rcases mem_or_eq_of_mem_set hq with hold | rfl
    · exact hinv.fresh q hold
    · exact h q rfl

theorem Inv.hand_none (hinv : Inv s) : Inv (s.hand none) := by
  rw [Pool.hand, Option.toList_none, append_nil]
  exact hinv

theorem Inv.step {a : Action τ} (hstep : step s a = some s') (hinv : Inv s) : Inv s' := by
  cases a with
  | dispatch task =>
    cases hstep
    obtain ⟨hwaiting, hsound⟩ := Injector.push_sound hinv.sound task
    exact ⟨hsound, by rw [hwaiting, hinv.order, append_assoc], hinv.fresh⟩
  | addWorker =>
    cases hstep
    refine ⟨hinv.sound, hinv.order, fun q hq => ?_⟩
    rcases mem_append.mp hq with hold | hnew
    · exact hinv.fresh q hold
    · cases mem_singleton.mp hnew
      exact ⟨rfl, rfl⟩
  | pop i =>
    obtain ⟨q, hq, rfl⟩ := Option.map_eq_some_iff.mp hstep
    have hfresh := hinv.ring hq
    rw [hfresh.pop]
    exact (hinv.set i fun q' h => Option.some.inj h ▸ hfresh).hand_none
  | steal i j =>
    rw [PoolTasks.step] at hstep
    split at hstep
    · cases hstep
    · obtain ⟨dest, hdest, hstep⟩ := Option.bind_eq_some_iff.mp hstep
      obtain ⟨q, hq, rfl⟩ := Option.map_eq_some_iff.mp hstep
      have hfresh := hinv.ring hq
      rw [hfresh.stealHalf]
      exact ((hinv.set j fun q' h => Option.some.inj h ▸ hfresh).set i
        fun q' h => Option.some.inj h ▸ hinv.ring hdest).hand_none
  | take i =>
    obtain ⟨q, -, rfl⟩ := Option.map_eq_some_iff.mp hstep
    obtain ⟨hsplit, -, hsound⟩ := Injector.pop_sound hinv.sound
    refine ⟨hsound, ?_, hinv.fresh⟩
    rw [Pool.hand, append_assoc, ← hsplit]
    exact hinv.order
  | retire i =>
    obtain ⟨q, hq, rfl⟩ := Option.map_eq_some_iff.mp hstep
    rw [(hinv.ring hq).drainAll]
    exact hinv.set i fun q' h => nomatch h

/-- In every run tasks are taken in the order of their dispatch, each once, and the others wait
    in the injector, of which the counter tells the number and a worker gets the first; every ring
    is empty, so stealing finds nothing and retirement loses nothing. -/
theorem dispatched_split (h : (pools τ).Reachable s) :
    s.dispatched = s.taken ++ s.injector.waiting ∧
      s.injector.size = s.injector.waiting.length % sizeMod ∧
      s.injector.pop.2 = s.injector.waiting.head? ∧
      ∀ q, some q ∈ s.workers → q.top = 0 ∧ q.bottom = 0 := by
  obtain ⟨s₀, as, rfl, hrun⟩ := Labelled.reachable_iff.mp h
  have hinv : Inv s := Labelled.run_invariant (fun hstep hinv => Inv.step hstep hinv) hrun
    ⟨Injector.cleared_sound, rfl, fun _ h => absurd h not_mem_nil⟩
  exact ⟨hinv.order, hinv.sound.2, (Injector.pop_sound hinv.sound).2.1, hinv.fresh⟩

/-- Two tasks, and a worker that has taken the first. -/
def halfway : Pool Nat :=
  { injector := { queue := [7, 8], size := 1, head := 1 }, workers := [some {}],
    dispatched := [7, 8], taken := [7] }

theorem dispatched_split_two :
    halfway.dispatched = halfway.taken ++ halfway.injector.waiting ∧
      halfway.injector.size = halfway.injector.waiting.length % sizeMod ∧
      halfway.injector.pop.2 = halfway.injector.waiting.head? ∧
      ∀ q, some q ∈ halfway.workers → q.top = 0 ∧ q.bottom = 0 :=
  dispatched_split (Labelled.reachable_iff.mpr
    ⟨{}, [.addWorker, .dispatch 7, .dispatch 8, .take 0], rfl, rfl⟩)

end PoolTasks
