import Mathlib.Data.List.Perm.Basic
import Mathlib.Data.List.ReduceOption
import WaveX.BlockingPool

/-! # Runs of the pool for blocking tasks

    What holds whatever the threads do: the counters are right and keep their bounds, tasks
    leave the queue in the order of their dispatch, and as long as a worker sleeps there are as
    many workers on their way to the queue as tasks in it.  A shutdown ends, and then every
    accepted task has run. -/

namespace BlockingPool

open RingQueue List

variable {τ : Type*} {mem : Memory}

/-! ## The invariant -/

/-- The worker counts in `total_count_`. -/
def Worker.live : Worker τ → Bool
  | .exited => false
  | _ => true

/-- The worker counts in `idle_count_`. -/
def Worker.idle : Worker τ → Bool
  | .asleep _ | .woken _ => true
  | _ => false

/-- The worker is going to look at the queue. -/
def Worker.free : Worker τ → Bool
  | .entering | .woken _ => true
  | _ => false

/-- The task that the worker runs. -/
def Worker.task? : Worker τ → Option τ
  | .running task => some task
  | _ => none

/-- What the stage of `shutdown` says about the rest. -/
def Stage (p : Pool τ) : Shutdown → Prop
  | .open => p.stopping = false
  | .notifying => p.stopping = true
  | .joining k =>
      p.stopping = true ∧ p.threads.any Worker.isAsleep = false ∧ k ≤ p.threads.length ∧
        (p.threads.take k).any Worker.live = false
  | .closed => p.stopping = true ∧ p.threads = []

/-- The invariant, with the tasks in the queue and what may be missing in workers on their way
    to it. -/
structure Inv (mem : Memory) (lo hi missing : Nat) (p : Pool τ) (queued : List (Task τ)) :
    Prop where
  holds : Holds mem p.tasks { items := queued, room := p.tasks.capacity }
  bounds : 1 ≤ lo ∧ lo ≤ hi ∧ p.minThreads = lo ∧ p.maxThreads = hi
  total : p.totalCount = p.threads.countP Worker.live
  idle : p.idleCount = p.threads.countP Worker.idle
  atMost : p.totalCount ≤ hi
  atLeast : p.stopping = false → lo ≤ p.totalCount
  order : p.accepted = p.taken ++ queued
  ran : p.taken.reduceOption ~ p.finished ++ p.threads.filterMap Worker.task?
  awake : p.threads.any Worker.isAsleep = true →
    queued.length ≤ p.threads.countP Worker.free + missing
  drained : p.totalCount = 0 → queued = []
  stage : Stage p p.shutdown

variable {lo hi missing : Nat} {p p' : Pool τ} {queued : List (Task τ)}

variable {i : Nat}

/-- Nothing of a stage but the first `k` threads and the sleepers depends on the threads. -/
theorem Stage.set {stage : Shutdown} (h : Stage p stage) {w : Worker τ}
    (hi : p.threads[i]? = some w) (hlive : w.live = true) (w' : Worker τ)
    (hsleep : w'.isAsleep = true → p.stopping = false) :
    Stage { p with threads := p.threads.set i w' } stage := by
  obtain ⟨front, back, hsplit, hlen, hset⟩ := Labelled.exists_split hi
  cases stage with
  | «open» => exact h
  | notifying => exact h
  | joining k =>
    obtain ⟨hstop, hasleep, hk, hexited⟩ := h
    have hki : k ≤ i := by
      by_contra hlt
      have hmem : w ∈ p.threads.take k := by
        rw [mem_take_iff_getElem]
        obtain ⟨hbound, hw⟩ := List.getElem?_eq_some_iff.mp hi
        exact ⟨i, by omega, hw⟩
      rw [any_eq_false] at hexited
      exact hexited w hmem hlive
    refine ⟨hstop, ?_, ?_, ?_⟩
    · dsimp only
      rw [hset, any_append, any_cons]
      rw [hsplit, any_append, any_cons] at hasleep
      simp only [Bool.or_eq_false_iff] at hasleep ⊢
      refine ⟨hasleep.1, ?_, hasleep.2.2⟩
      rw [← Bool.not_eq_true]
      intro hw'
      rw [hsleep hw'] at hstop
      exact Bool.false_ne_true hstop
    · rw [length_set]
      exact hk
    · dsimp only
      rw [take_set_of_le hki]
      exact hexited
  | closed =>
    rw [h.2] at hi
    exact nomatch hi

/-- A pool that is not stopping is in no stage of its shutdown. -/
theorem Stage.shutdown_open {stage : Shutdown} (h : Stage p stage) (hopen : p.stopping = false) :
    stage = .open := by
  cases stage with
  | «open» => rfl
  | notifying => exact absurd (hopen.symm.trans h) Bool.false_ne_true
  | joining k => exact absurd (hopen.symm.trans h.1) Bool.false_ne_true
  | closed => exact absurd (hopen.symm.trans h.1) Bool.false_ne_true

/-- A worker in its loop does something.  It alone changes, and what it counts for is taken
    over to the counter and to the tasks that have run. -/
theorem Inv.move (h : Inv mem lo hi missing p queued) {w w' : Worker τ}
    (hi' : p.threads[i]? = some w) (hlive : w.live = true) (hlive' : w'.live = true)
    (hsleep : w'.isAsleep = true → p.stopping = false) {idleCount missing' : Nat}
    {finished : List τ}
    (hidle : idleCount + (if w.idle = true then 1 else 0) =
      p.idleCount + if w'.idle = true then 1 else 0)
    (hran : finished ++ w'.task?.toList ~ p.finished ++ w.task?.toList)
    (hawake : (p.threads.set i w').any Worker.isAsleep = true →
      queued.length ≤ (p.threads.set i w').countP Worker.free + missing') :
    Inv mem lo hi missing' { p with idleCount, finished, threads := p.threads.set i w' }
      queued where
  holds := h.holds
  bounds := h.bounds
  total := by
    have hcount := Labelled.countP_set_add hi' Worker.live w'
    have htotal := h.total
    rw [hlive, hlive'] at hcount
    dsimp only
    omega
  idle := by
    have hcount := Labelled.countP_set_add hi' Worker.idle w'
    have hbefore := h.idle
    dsimp only
    omega
  atMost := h.atMost
  atLeast := h.atLeast
  order := h.order
  ran := by
    have htasks := (Labelled.filterMap_set_perm hi' Worker.task? w').append_left finished
    have hmoved := (hran.append_right (p.threads.filterMap Worker.task?)).symm
    have hswap (l : List τ) (o : Option τ) :
        l ++ o.toList ++ p.threads.filterMap Worker.task? ~
          l ++ p.threads.filterMap Worker.task? ++ o.toList := by
      rw [append_assoc, append_assoc]
      exact perm_append_comm.append_left l
    rw [← append_assoc, ← append_assoc] at htasks
    have hall := (hswap _ _).symm.trans (hmoved.trans ((hswap _ _).trans htasks.symm))
    exact h.ran.trans ((perm_append_right_iff _).mp hall)
  awake := hawake
  drained := h.drained
  stage := h.stage.set hi' hlive w' hsleep

/-- A worker that does not go to sleep and stays on its way leaves enough of them awake. -/
theorem Inv.awake_set (h : Inv mem lo hi missing p queued) {w w' : Worker τ}
    (hi' : p.threads[i]? = some w) (hfree : w.free = true → w'.free = true)
    (hasleep : w'.isAsleep = false) (hany : (p.threads.set i w').any Worker.isAsleep = true) :
    queued.length ≤ (p.threads.set i w').countP Worker.free + missing := by
  have hcount := Labelled.countP_set_add hi' Worker.free w'
  rcases Labelled.any_of_set hi' hany with hw | hbefore
  · exact absurd (hasleep.symm.trans hw) Bool.false_ne_true
  · have hle := h.awake hbefore
    split_ifs at hcount with hw hw' hw'
    · omega
    · exact absurd (hfree hw) hw'
    · omega
    · omega

/-! ## Dispatch -/

/-- A task behind the others: one worker more should be on its way. -/
theorem Inv.push (h : Inv mem lo hi 0 p queued) (hopen : p.stopping = false) (task : Task τ)
    {tasks : Queue (Task τ)}
    (htasks : Holds mem tasks { items := queued ++ [task], room := tasks.capacity }) :
    Inv mem lo hi 1 { p with tasks := tasks, accepted := p.accepted ++ [task] }
      (queued ++ [task]) where
  holds := htasks
  bounds := h.bounds
  total := h.total
  idle := h.idle
  atMost := h.atMost
  atLeast := h.atLeast
  order := by
    dsimp only
    rw [h.order, append_assoc]
  ran := h.ran
  awake hasleep := by
    have hle := h.awake hasleep
    rw [length_append, length_singleton]
    exact Nat.succ_le_succ hle
  drained hzero := by
    have hpos := h.atLeast hopen
    have hlo := h.bounds.1
    dsimp only at hzero
    omega
  stage := by
    dsimp only
    rw [h.stage.shutdown_open hopen]
    exact hopen

/-- A worker more is no reason to wait for anything. -/
theorem Inv.spawn (h : Inv mem lo hi missing p queued) (hopen : p.stopping = false)
    (hroom : p.totalCount < p.maxThreads) : Inv mem lo hi missing p.spawnWorker queued where
  holds := h.holds
  bounds := h.bounds
  total := by
    simp only [Pool.spawnWorker, countP_append, countP_singleton, Worker.live,
      if_true, h.total]
  idle := by
    simp only [Pool.spawnWorker, countP_append, countP_singleton, Worker.idle,
      Bool.false_eq_true, if_false, Nat.add_zero, h.idle]
  atMost := by
    have hmax := h.bounds.2.2.2
    simp only [Pool.spawnWorker]
    omega
  atLeast _ := by
    have hmin := h.atLeast hopen
    simp only [Pool.spawnWorker]
    omega
  order := h.order
  ran := by
    simp only [Pool.spawnWorker, filterMap_append]
    exact (append_nil (p.threads.filterMap Worker.task?)).symm ▸ h.ran
  awake hasleep := by
    have hbefore : p.threads.any Worker.isAsleep = true := by
      simpa [Pool.spawnWorker, Worker.isAsleep] using hasleep
    have hle := h.awake hbefore
    simp only [Pool.spawnWorker, countP_append]
    omega
  drained hzero := by
    simp only [Pool.spawnWorker] at hzero
    omega
  stage := by
    simp only [Pool.spawnWorker]
    rw [h.stage.shutdown_open hopen]
    exact hopen

variable {timed : Bool}

/-- A worker that wakes up is on its way to the queue. -/
theorem Inv.wake (h : Inv mem lo hi missing p queued) (hi' : p.threads[i]? = some (.asleep timed)) :
    Inv mem lo hi (missing - 1) { p with threads := p.threads.set i (.woken timed) } queued := by
  have hasleep : p.threads.any Worker.isAsleep = true :=
    any_eq_true.mpr ⟨_, mem_of_getElem? hi', rfl⟩
  have hle := h.awake hasleep
  have hfree := Labelled.countP_set_add hi' Worker.free (.woken timed)
  simp only [Worker.free, Bool.false_eq_true, if_true, if_false] at hfree
  exact h.move hi' rfl rfl (fun hw => by cases hw) rfl (.refl _) fun _ => by omega

/-- A notification makes up for a task. -/
theorem Inv.notifyOne (h : Inv mem lo hi 1 p queued) {woken : Option Nat}
    (hstep : p.notifyOne woken = some p') : Inv mem lo hi 0 p' queued := by
  cases woken with
  | none =>
    rw [Pool.notifyOne] at hstep
    split at hstep
    next => exact nomatch hstep
    next hnone =>
      cases hstep
      exact { h with awake := fun hasleep => absurd hasleep hnone }
  | some i =>
    simp only [Pool.notifyOne] at hstep
    split at hstep
    next timed hi' =>
      cases hstep
      exact h.wake hi'
    next => exact nomatch hstep

/-! ## Workers -/

/-- A worker takes the mutex at the head of its loop. -/
theorem Inv.enter (h : Inv mem lo hi 0 p queued) (hi' : p.threads[i]? = some .entering) :
    Inv mem lo hi 0
      { p with idleCount := p.idleCount + 1, threads := p.threads.set i (.woken false) }
      queued :=
  h.move hi' rfl rfl (fun hw => by cases hw) rfl (.refl _) (h.awake_set hi' (fun _ => rfl) rfl)

/-- A worker goes to sleep when there is nothing to do. -/
theorem Inv.sleep (h : Inv mem lo hi 0 p []) (hi' : p.threads[i]? = some (.woken timed))
    (hopen : p.stopping = false) (timed' : Bool) :
    Inv mem lo hi 0 { p with threads := p.threads.set i (.asleep timed') } [] :=
  h.move hi' rfl rfl (fun _ => hopen) rfl (.refl _) fun _ => Nat.zero_le _

/-- A worker leaves when there is nothing to do and more workers than needed are there, or
    the pool is stopping. -/
theorem Inv.exit (h : Inv mem lo hi 0 p []) (hi' : p.threads[i]? = some (.woken timed))
    (hmore : p.stopping = true ∨ p.minThreads < p.totalCount) :
    Inv mem lo hi 0 (Pool.exit { p with idleCount := p.idleCount - 1 } i) [] := by
  have hlive := Labelled.countP_set_add hi' Worker.live .exited
  have hidle := Labelled.countP_set_add hi' Worker.idle .exited
  simp only [Worker.live, Worker.idle, Bool.false_eq_true, if_true, if_false] at hlive hidle
  have htotal := h.total
  have hatMost := h.atMost
  refine
    { holds := h.holds, bounds := h.bounds, total := ?_, idle := ?_, atMost := ?_,
      atLeast := ?_, order := h.order, ran := ?_, awake := fun _ => Nat.zero_le _,
      drained := fun _ => rfl, stage := h.stage.set hi' rfl _ (fun hw => nomatch hw) }
  · simp only [Pool.exit]
    omega
  · have hcount := h.idle
    simp only [Pool.exit]
    omega
  · simp only [Pool.exit]
    omega
  · intro hopen
    have hmin := h.bounds.2.2.1
    rcases hmore with hstop | hmore
    · exact absurd (hopen.symm.trans hstop) Bool.false_ne_true
    · simp only [Pool.exit]
      omega
  · have htasks := Labelled.filterMap_set_perm hi' Worker.task? .exited
    simp only [Worker.task?, Option.toList_none, append_nil] at htasks
    exact h.ran.trans (htasks.symm.append_left _)

theorem reduceOption_concat_toList (l : List (Task τ)) (task : Task τ) :
    (l ++ [task]).reduceOption = l.reduceOption ++ task.toList := by
  rw [reduceOption_append]
  cases task <;> rfl

/-- A worker takes the first task. -/
theorem Inv.take {task : Task τ} {rest : List (Task τ)} (h : Inv mem lo hi 0 p (task :: rest))
    (hi' : p.threads[i]? = some (.woken timed)) {tasks : Queue (Task τ)}
    (htasks : Holds mem tasks { items := rest, room := tasks.capacity }) :
    Inv mem lo hi 0
      { p with
        idleCount := p.idleCount - 1
        tasks
        taken := p.taken ++ [task]
        threads := p.threads.set i (task.elim .entering .running) } rest := by
  have hlive := Labelled.countP_set_add hi' Worker.live (task.elim .entering .running)
  have hidle := Labelled.countP_set_add hi' Worker.idle (task.elim .entering .running)
  have hfree := Labelled.countP_set_add hi' Worker.free (task.elim .entering .running)
  have hrun := Labelled.filterMap_set_perm hi' Worker.task? (task.elim .entering .running)
  have hmoved : (task.elim Worker.entering .running).live = true ∧
      (task.elim Worker.entering .running).idle = false ∧
      (task.elim Worker.entering .running).isAsleep = false ∧
      (task.elim Worker.entering .running).task? = task := by
    cases task <;> exact ⟨rfl, rfl, rfl, rfl⟩
  obtain ⟨hmlive, hmidle, hmasleep, hmtask⟩ := hmoved
  rw [hmlive] at hlive
  rw [hmidle] at hidle
  rw [hmtask] at hrun
  simp only [Worker.live, Worker.idle, Worker.free, Bool.false_eq_true, if_true, if_false]
    at hlive hidle hfree
  simp only [Worker.task?, Option.toList_none, append_nil] at hrun
  have htotal := h.total
  refine
    { holds := htasks, bounds := h.bounds, total := ?_, idle := ?_, atMost := h.atMost,
      atLeast := h.atLeast, order := ?_, ran := ?_, awake := ?_, drained := ?_,
      stage := h.stage.set hi' rfl _ (fun hw => by rw [hmasleep] at hw; exact nomatch hw) }
  · dsimp only
    omega
  · have hcount := h.idle
    dsimp only
    omega
  · dsimp only
    rw [h.order, append_assoc]
    rfl
  · dsimp only
    rw [reduceOption_concat_toList]
    refine (h.ran.append_right _).trans ?_
    rw [append_assoc]
    exact hrun.symm.append_left _
  · intro hasleep
    rcases Labelled.any_of_set hi' hasleep with hw | hbefore
    · rw [hmasleep] at hw
      exact nomatch hw
    · have hle := h.awake hbefore
      rw [length_cons] at hle
      dsimp only
      omega
  · intro hzero
    exact nomatch h.drained hzero

/-- A worker is done with its task and comes back to the head of its loop. -/
theorem Inv.finish (h : Inv mem lo hi 0 p queued) {task : τ}
    (hi' : p.threads[i]? = some (.running task)) :
    Inv mem lo hi 0
      { p with threads := p.threads.set i .entering, finished := p.finished ++ [task] }
      queued :=
  h.move hi' rfl rfl (fun hw => by cases hw) rfl (.of_eq (append_nil _))
    (h.awake_set hi' (fun _ => rfl) rfl)

/-! ## One step -/

/-- `dispatch` leaves as many workers on their way as it leaves tasks. -/
theorem Inv.dispatch (h : Inv mem lo hi 0 p queued) {task : Task τ} {woken : Option Nat}
    (hstep : p.dispatch mem task woken = some p') :
    ∃ queued', Inv mem lo hi 0 p' queued' := by
  rw [Pool.dispatch] at hstep
  split at hstep
  next =>
    cases hstep
    exact ⟨queued, h⟩
  next hopen =>
    have hopen : p.stopping = false := Bool.eq_false_iff.mpr hopen
    rcases h.holds.push task with ⟨tasks, hpush, -, htasks⟩ | ⟨hthrown, -⟩
    · rw [hpush] at hstep
      dsimp only at hstep
      have hpushed := h.push hopen task htasks
      refine ⟨queued ++ [task], ?_⟩
      split at hstep
      next hspawn => exact (hpushed.spawn hopen hspawn.2).notifyOne hstep
      next => exact hpushed.notifyOne hstep
    · rw [hthrown] at hstep
      cases hstep
      exact ⟨queued, h⟩

/-- What a worker does next does not depend on its own entry. -/
theorem Pool.settle_set (p : Pool τ) (i : Nat) (w : Worker τ) :
    Pool.settle { p with threads := p.threads.set i w } i = p.settle i := by
  simp only [Pool.settle, Pool.exit, set_set]

/-- What a worker does that holds the mutex: it goes to sleep, leaves or takes the first
    task. -/
theorem Inv.settle_cases (h : Inv mem lo hi missing p queued) (i : Nat) :
    (queued = [] ∧ p.stopping = false ∧
      p.settle i =
        some { p with threads := p.threads.set i (.asleep (p.minThreads < p.totalCount)) }) ∨
    (queued = [] ∧ p.stopping = true ∧
      p.settle i = some (Pool.exit { p with idleCount := p.idleCount - 1 } i)) ∨
    ∃ task rest tasks, queued = task :: rest ∧
      Holds mem tasks { items := rest, room := tasks.capacity } ∧
      p.settle i = some
        { p with
          idleCount := p.idleCount - 1
          tasks
          taken := p.taken ++ [task]
          threads := p.threads.set i (task.elim .entering .running) } := by
  simp only [Pool.settle]
  cases hqueue : queued with
  | nil =>
    rw [hqueue] at h
    have hempty : p.tasks.empty = true := h.holds.empty_iff.mpr rfl
    rcases Bool.eq_false_or_eq_true p.stopping with hstop | hopen
    · rw [if_neg (by rw [hstop]; exact Bool.false_ne_true), if_pos (by rw [hstop, hempty]; rfl)]
      exact .inr (.inl ⟨rfl, hstop, rfl⟩)
    · rw [if_pos (by rw [hopen, hempty]; rfl)]
      exact .inl ⟨rfl, hopen, rfl⟩
  | cons task rest =>
    rw [hqueue] at h
    have hsome : p.tasks.empty = false := by
      rw [Bool.eq_false_iff, ne_eq, h.holds.empty_iff]
      exact cons_ne_nil task rest
    obtain ⟨tasks, hpop, hrest⟩ := h.holds.pop rfl
    have htasks : Holds mem tasks { items := rest, room := tasks.capacity } := by
      rw [← hrest.room]
      exact hrest
    rw [hsome, hpop, Bool.and_false, Bool.and_false]
    exact .inr (.inr ⟨task, rest, tasks, rfl, htasks, rfl⟩)

/-- A worker that holds the mutex keeps the invariant. -/
theorem Inv.settle (h : Inv mem lo hi 0 p queued) (hi' : p.threads[i]? = some (.woken timed)) :
    ∃ p', p.settle i = some p' ∧ ∃ queued', Inv mem lo hi 0 p' queued' := by
  rcases h.settle_cases i with ⟨rfl, hopen, hp'⟩ | ⟨rfl, hstop, hp'⟩ |
    ⟨task, rest, tasks, rfl, htasks, hp'⟩
  · exact ⟨_, hp', [], h.sleep hi' hopen _⟩
  · exact ⟨_, hp', [], h.exit hi' (.inl hstop)⟩
  · exact ⟨_, hp', rest, h.take hi' htasks⟩

/-- So does one that comes out of its wait, by a notification or a timeout. -/
theorem Inv.resume (h : Inv mem lo hi 0 p queued) (hi' : p.threads[i]? = some (.woken timed))
    (timedOut : Bool) :
    ∃ p', p.resume i timedOut = some p' ∧ ∃ queued', Inv mem lo hi 0 p' queued' := by
  rw [Pool.resume]
  split
  next hretire =>
    simp only [Bool.and_eq_true, decide_eq_true_eq] at hretire
    obtain ⟨-, hempty, hmore⟩ := hretire
    obtain rfl : queued = [] := h.holds.empty_iff.mp hempty
    exact ⟨_, rfl, [], h.exit hi' (.inr hmore)⟩
  next => exact h.settle hi'

/-- A worker that takes the mutex at the head of its loop does what one does that comes out
    of a wait. -/
theorem enter_settle (p : Pool τ) (i : Nat) :
    Pool.settle { p with idleCount := p.idleCount + 1 } i =
      Pool.settle { p with idleCount := p.idleCount + 1,
                           threads := p.threads.set i (.woken false) } i :=
  (Pool.settle_set { p with idleCount := p.idleCount + 1 } i _).symm

/-- The flag alone ends nothing. -/
theorem Inv.stop (h : Inv mem lo hi 0 p queued) :
    Inv mem lo hi 0 { p with stopping := true, shutdown := .notifying } queued :=
  { h with atLeast := fun hstop => (nomatch hstop), stage := rfl }

/-- Nobody sleeps after `notify_all`. -/
theorem Inv.notifyAll (h : Inv mem lo hi 0 p queued) (hshut : p.shutdown = .notifying) :
    Inv mem lo hi 0 { p with shutdown := .joining 0, threads := p.threads.map Worker.wake }
      queued := by
  have hstage := h.stage
  rw [hshut] at hstage
  have hstop : p.stopping = true := hstage
  have hasleep : (p.threads.map Worker.wake).any Worker.isAsleep = false := by
    rw [any_map, any_eq_false]
    intro w _
    cases w <;> exact Bool.false_ne_true
  refine
    { holds := h.holds, bounds := h.bounds, total := ?_, idle := ?_, atMost := h.atMost,
      atLeast := h.atLeast, order := h.order, ran := ?_, awake := ?_, drained := h.drained,
      stage := ⟨hstop, hasleep, Nat.zero_le _, rfl⟩ }
  · dsimp only
    rw [h.total, countP_map]
    refine countP_congr fun w _ => ?_
    cases w <;> rfl
  · dsimp only
    rw [h.idle, countP_map]
    refine countP_congr fun w _ => ?_
    cases w <;> rfl
  · dsimp only
    rw [filterMap_map]
    have hsame : (Worker.task? ∘ Worker.wake : Worker τ → Option τ) = Worker.task? := by
      funext w
      cases w <;> rfl
    rw [hsame]
    exact h.ran
  · intro hany
    exact absurd (hasleep.symm.trans hany) Bool.false_ne_true

/-- The threads that were joined have ended. -/
theorem Inv.join (h : Inv mem lo hi 0 p queued) {k : Nat} (hshut : p.shutdown = .joining k)
    (hk : p.threads[k]? = some .exited) :
    Inv mem lo hi 0 { p with shutdown := .joining (k + 1) } queued := by
  have hstage := h.stage
  rw [hshut] at hstage
  obtain ⟨hstop, hasleep, -, hexited⟩ := hstage
  obtain ⟨hlt, hw⟩ := List.getElem?_eq_some_iff.mp hk
  refine { h with stage := ⟨hstop, hasleep, hlt, ?_⟩ }
  dsimp only
  rw [take_succ_eq_append_getElem hlt, hw, any_append, hexited]
  rfl

/-- When all threads have been joined nothing is queued. -/
theorem Inv.close (h : Inv mem lo hi 0 p queued) (hshut : p.shutdown = .joining p.threads.length) :
    queued = [] ∧ Inv mem lo hi 0
      { p with
        shutdown := .closed
        threads := []
        tasks := p.tasks.clear
        totalCount := 0
        idleCount := 0 } [] := by
  have hstage := h.stage
  rw [hshut] at hstage
  obtain ⟨hstop, hasleep, -, hexited⟩ := hstage
  rw [take_length] at hexited
  have hzero : p.totalCount = 0 := by
    rw [h.total, countP_eq_zero]
    exact any_eq_false.mp hexited
  obtain rfl := h.drained hzero
  refine ⟨rfl,
    { holds := p.tasks.clear_holds, bounds := h.bounds, total := rfl, idle := rfl,
      atMost := Nat.zero_le _, atLeast := fun hopen => ?_, order := h.order, ran := ?_,
      awake := fun hany => (nomatch hany), drained := fun _ => rfl, stage := ⟨hstop, rfl⟩ }⟩
  · exact absurd (hopen.symm.trans hstop) Bool.false_ne_true
  · have hnone : p.threads.filterMap Worker.task? = [] := by
      rw [filterMap_eq_nil_iff]
      intro w hw
      have hlive := any_eq_false.mp hexited w hw
      cases w with
      | exited => rfl
      | _ => exact absurd rfl hlive
    have hran := h.ran
    rw [hnone] at hran
    exact hran

/-- Every step keeps the invariant. -/
theorem Inv.step {a : Action τ} (hstep : step mem p a = some p')
    (h : ∃ queued, Inv mem lo hi 0 p queued) : ∃ queued, Inv mem lo hi 0 p' queued := by
  obtain ⟨queued, h⟩ := h
  cases a with
  | dispatch task woken => exact h.dispatch hstep
  | enter i =>
    simp only [BlockingPool.step] at hstep
    split at hstep
    next hi' =>
      rw [enter_settle] at hstep
      have hset : (p.threads.set i (.woken false))[i]? = some (.woken false) :=
        getElem?_set_self (List.getElem?_eq_some_iff.mp hi').1
      obtain ⟨p₁, hp₁, hinv⟩ := (h.enter hi').settle hset
      cases hstep.symm.trans hp₁
      exact hinv
    next => exact nomatch hstep
  | wake i =>
    simp only [BlockingPool.step] at hstep
    split at hstep
    next timed hi' =>
      cases hstep
      exact ⟨queued, h.wake hi'⟩
    next => exact nomatch hstep
  | resume i timedOut =>
    simp only [BlockingPool.step] at hstep
    split at hstep
    next timed hi' =>
      split at hstep
      next => exact nomatch hstep
      next =>
        obtain ⟨p₁, hp₁, hinv⟩ := h.resume hi' timedOut
        cases hstep.symm.trans hp₁
        exact hinv
    next => exact nomatch hstep
  | finish i =>
    simp only [BlockingPool.step] at hstep
    split at hstep
    next task hi' =>
      cases hstep
      exact ⟨queued, h.finish hi'⟩
    next => exact nomatch hstep
  | stop =>
    simp only [BlockingPool.step] at hstep
    split at hstep
    next =>
      cases hstep
      exact ⟨queued, h⟩
    next =>
      cases hstep
      exact ⟨queued, h.stop⟩
  | notifyAll =>
    simp only [BlockingPool.step] at hstep
    split at hstep
    next hshut =>
      cases hstep
      exact ⟨queued, h.notifyAll hshut⟩
    next => exact nomatch hstep
  | join =>
    simp only [BlockingPool.step] at hstep
    split at hstep
    next k hshut =>
      split at hstep
      next hk =>
        cases hstep
        exact ⟨queued, h.join hshut hk⟩
      next => exact nomatch hstep
    next => exact nomatch hstep
  | close =>
    simp only [BlockingPool.step] at hstep
    split at hstep
    next k hshut =>
      split at hstep
      next hk =>
        cases hstep
        exact ⟨[], (h.close (hk ▸ hshut)).2⟩
      next => exact nomatch hstep
    next => exact nomatch hstep

/-! ## Runs -/

/-- What the constructor's loop leaves. -/
theorem iterate_spawnWorker (p : Pool τ) (n : Nat) :
    Nat.iterate Pool.spawnWorker n p =
      { p with totalCount := p.totalCount + n,
               threads := p.threads ++ List.replicate n .entering } := by
  induction n generalizing p with
  | zero => simp
  | succ n ih =>
    rw [Function.iterate_succ_apply, ih]
    simp only [Pool.spawnWorker, append_assoc, replicate_succ, singleton_append,
      Pool.mk.injEq, true_and, and_true]
    omega

/-- A new pool has its least number of workers, all about to look at the queue. -/
theorem Inv.new {minThreads maxThreads : Nat} (h : Pool.new mem minThreads maxThreads = some p) :
    Inv mem (max 1 minThreads) (max (max 1 minThreads) maxThreads) 0 p [] := by
  have hroom : initialRoom 256 = 256 := by
    rw [initialRoom, if_neg (by omega), show 256 = 2 ^ 8 from rfl, Nat.clog_pow 2 8 (by omega)]
  obtain ⟨tasks, htasks, hholds⟩ :=
    ofCapacity_holds (T := Task τ) (n := 256) (by decide) (hroom ▸ mem.large)
  simp only [Pool.new, htasks, iterate_spawnWorker] at h
  cases h
  refine
    { holds := ?_, bounds := ⟨by omega, by omega, rfl, rfl⟩, total := ?_, idle := ?_,
      atMost := ?_, atLeast := ?_, order := rfl, ran := ?_, awake := fun _ => Nat.zero_le _,
      drained := fun _ => rfl, stage := rfl }
  · dsimp only
    rw [← hholds.room]
    exact hholds
  · dsimp only
    rw [nil_append, countP_replicate, Nat.zero_add]
    rfl
  · dsimp only
    rw [nil_append, countP_replicate]
    rfl
  · dsimp only
    omega
  · intro _
    dsimp only
    omega
  · simp [Worker.task?]

variable {minThreads maxThreads : Nat}

/-- The invariant holds in every reachable state. -/
theorem reachable_inv (h : (pools mem minThreads maxThreads).Reachable p) :
    ∃ queued, Inv mem (max 1 minThreads) (max (max 1 minThreads) maxThreads) 0 p queued := by
  obtain ⟨p₀, as, h₀, hrun⟩ := Labelled.reachable_iff.mp h
  exact Labelled.run_invariant
    (I := fun p => ∃ queued, Inv mem (max 1 minThreads) (max (max 1 minThreads) maxThreads) 0 p queued)
    (fun hstep hinv => Inv.step hstep hinv) hrun ⟨[], Inv.new h₀⟩

theorem reachable_of_run {as : List (Action τ)} {p₀ : Pool τ}
    (hnew : Pool.new mem minThreads maxThreads = some p₀)
    (hrun : Labelled.run (step mem) p₀ as = some p) : (pools mem minThreads maxThreads).Reachable p :=
  Labelled.reachable_iff.mpr ⟨p₀, as, hnew, hrun⟩

/-- Vectors of up to a thousand slots. -/
def sampleMem : Memory := ⟨1000, by decide, by decide⟩

/-- Three workers, and tasks that are numbers: the first worker runs 7, the second has been
    notified of 8, the third sleeps. -/
def serving (stopping : Bool) : Pool Nat :=
  { minThreads := 3, maxThreads := 3, totalCount := 3, idleCount := 2,
    tasks := { buffer := (((List.replicate 256 none).set 0 (some 7)).set 0 none).set 1 (some 8),
               capacity := 256, mask := 255, head := 1, tail := 2, count := 1 },
    threads := [.running 7, .woken false, .asleep false], stopping,
    shutdown := if stopping then .notifying else .open, accepted := [some 7, some 8],
    taken := [some 7], finished := [] }

/-- The same pool when both tasks have run and its shutdown is done. -/
def drained : Pool Nat :=
  { minThreads := 3, maxThreads := 3, totalCount := 0, idleCount := 0,
    tasks := { buffer := List.replicate 256 none, capacity := 256, mask := 255, head := 0,
               tail := 0, count := 0 },
    threads := [], stopping := true, shutdown := .closed, accepted := [some 7, some 8],
    taken := [some 7, some 8], finished := [7, 8] }

/-- The pool when it is new. -/
def fresh : Pool Nat :=
  { minThreads := 3, maxThreads := 3, totalCount := 3, idleCount := 0,
    tasks := { buffer := List.replicate 256 none, capacity := 256, mask := 255, head := 0,
               tail := 0, count := 0 },
    threads := [.entering, .entering, .entering], stopping := false, shutdown := .open,
    accepted := [], taken := [], finished := [] }

set_option maxRecDepth 4000 in
/-- How the pool comes there: two tasks are dispatched, and the first one is taken. -/
theorem serving_reachable (stopping : Bool) : (pools sampleMem 3 3).Reachable (serving stopping) := by
  have hstart : Pool.new sampleMem 3 3 = some fresh := rfl
  have hserve : Labelled.run (step sampleMem) fresh
      [.enter 0, .enter 1, .enter 2, .dispatch (some 7) (some 0), .resume 0 false,
        .dispatch (some 8) (some 1)] = some (serving false) := rfl
  cases stopping with
  | false => exact reachable_of_run hstart hserve
  | true =>
    have hstop : Labelled.run (step sampleMem) (serving false) [.stop] = some (serving true) := rfl
    exact reachable_of_run hstart (Labelled.run_append.mpr ⟨_, hserve, hstop⟩)

/-- The counters are the numbers of workers, and keep their bounds until a shutdown. -/
theorem counters_exact (h : (pools mem minThreads maxThreads).Reachable p) :
    p.totalCount = p.threads.countP Worker.live ∧
      p.idleCount = p.threads.countP Worker.idle ∧
      p.totalCount ≤ max (max 1 minThreads) maxThreads ∧
      (p.stopping = false → max 1 minThreads ≤ p.totalCount) := by
  obtain ⟨queued, hinv⟩ := reachable_inv h
  exact ⟨hinv.total, hinv.idle, hinv.atMost, hinv.atLeast⟩

/-- One worker runs a task and two are idle. -/
theorem counters_exact_serving :
    (serving false).totalCount = (serving false).threads.countP Worker.live ∧
      (serving false).idleCount = (serving false).threads.countP Worker.idle ∧
      (serving false).totalCount ≤ max (max 1 3) 3 ∧
      ((serving false).stopping = false → max 1 3 ≤ (serving false).totalCount) :=
  counters_exact (serving_reachable false)

/-- Workers take the tasks in the order of their dispatch, each once, and run those that are
    not empty; the queue holds the rest, in that order. -/
theorem taken_in_order (h : (pools mem minThreads maxThreads).Reachable p) :
    ∃ queued, p.accepted = p.taken ++ queued ∧
      Holds mem p.tasks { items := queued, room := p.tasks.capacity } ∧
      p.tasks.count = queued.length ∧
      p.taken.reduceOption ~ p.finished ++ p.threads.filterMap Worker.task? := by
  obtain ⟨queued, hinv⟩ := reachable_inv h
  exact ⟨queued, hinv.order, hinv.holds, hinv.holds.count, hinv.ran⟩

/-- 7 was taken and runs, 8 is in the queue. -/
theorem taken_in_order_serving :
    ∃ queued, (serving false).accepted = (serving false).taken ++ queued ∧
      Holds sampleMem (serving false).tasks { items := queued, room := 256 } ∧
      (serving false).tasks.count = queued.length ∧
      (serving false).taken.reduceOption ~
        (serving false).finished ++ (serving false).threads.filterMap Worker.task? :=
  taken_in_order (serving_reachable false)

/-- No notification is lost: while a worker sleeps, every queued task has a worker of its own
    on the way to the queue. -/
theorem queued_le_free (h : (pools mem minThreads maxThreads).Reachable p)
    (hasleep : p.threads.any Worker.isAsleep = true) :
    p.tasks.count ≤ p.threads.countP Worker.free := by
  obtain ⟨queued, hinv⟩ := reachable_inv h
  rw [hinv.holds.count]
  exact hinv.awake hasleep

/-- While the third worker sleeps, the second is on its way to 8. -/
theorem queued_le_free_serving :
    (serving false).tasks.count ≤ (serving false).threads.countP Worker.free :=
  queued_le_free (serving_reachable false) rfl

/-! ## The end of a shutdown -/

/-- How many steps a worker still takes by itself. -/
def Worker.steps : Worker τ → Nat
  | .entering | .woken _ => 1
  | .asleep _ | .running _ => 2
  | .exited => 0

/-- How many steps `shutdown` still takes. -/
def Shutdown.steps (threads : Nat) : Shutdown → Nat
  | .open | .closed => 0
  | .notifying => threads + 2
  | .joining k => threads - k + 1

/-- A bound of the steps until a shutdown is done. -/
def work (p : Pool τ) : Nat :=
  2 * p.tasks.count + (p.threads.map Worker.steps).sum + p.shutdown.steps p.threads.length

/-- The steps of workers and of `shutdown`. -/
def Action.progress : Action τ → Bool
  | .dispatch _ _ | .stop => false
  | _ => true

/-- A worker of a stopping pool takes a task or leaves. -/
theorem work_settle (h : Inv mem lo hi missing p queued) (hstop : p.stopping = true) {w : Worker τ}
    (hi' : p.threads[i]? = some w) (hw : w.free = true) (hstep : p.settle i = some p') :
    work p' < work p ∧ p'.stopping = true := by
  have hsteps : w.steps = 1 := by
    cases w with
    | entering | woken timed => rfl
    | _ => exact nomatch hw
  rcases h.settle_cases i with ⟨-, hopen, -⟩ | ⟨-, -, hp'⟩ | ⟨task, rest, tasks, rfl, htasks, hp'⟩
  · exact absurd (hopen.symm.trans hstop) Bool.false_ne_true
  · cases hstep.symm.trans hp'
    have hsum := Labelled.sum_map_set_add hi' Worker.steps .exited
    refine ⟨?_, hstop⟩
    simp only [work, Pool.exit, length_set]
    rw [hsteps] at hsum
    simp only [Worker.steps] at hsum
    omega
  · cases hstep.symm.trans hp'
    have hsum := Labelled.sum_map_set_add hi' Worker.steps (task.elim .entering .running)
    have hmoved : (task.elim Worker.entering .running).steps ≤ 2 := by
      cases task with
      | none => exact Nat.le_succ 1
      | some task => exact Nat.le_refl 2
    have hbefore := h.holds.count
    have hafter := htasks.count
    simp only [length_cons] at hbefore hafter
    refine ⟨?_, hstop⟩
    simp only [work, length_set]
    omega

/-- Waking the sleepers is progress. -/
theorem sum_steps_wake (threads : List (Worker τ)) :
    ((threads.map Worker.wake).map Worker.steps).sum ≤ (threads.map Worker.steps).sum := by
  induction threads with
  | nil => exact Nat.le_refl 0
  | cons w threads ih =>
    have hw : w.wake.steps ≤ w.steps := by
      cases w with
      | asleep timed => exact Nat.le_succ 1
      | _ => exact Nat.le_refl _
    rw [map_cons, map_cons, map_cons, sum_cons, sum_cons]
    exact Nat.add_le_add hw ih

/-- Once a pool is stopping its own steps come nearer to the end, and the others change
    nothing. -/
theorem work_step (h : Inv mem lo hi 0 p queued) (hstop : p.stopping = true) {a : Action τ}
    (hstep : step mem p a = some p') :
    (a.progress = true → work p' < work p) ∧ (a.progress = false → p' = p) ∧
      p'.stopping = true := by
  cases a with
  | dispatch task woken =>
    simp only [step, Pool.dispatch, hstop, if_true] at hstep
    cases hstep
    exact ⟨fun hp => (nomatch hp), fun _ => rfl, hstop⟩
  | stop =>
    simp only [step, hstop, if_true] at hstep
    cases hstep
    exact ⟨fun hp => (nomatch hp), fun _ => rfl, hstop⟩
  | enter i =>
    simp only [step] at hstep
    split at hstep
    next hi' =>
      rw [enter_settle] at hstep
      -- a worker that enters goes on as one that was woken
      have hset : (p.threads.set i (.woken false))[i]? = some (.woken false) :=
        getElem?_set_self (List.getElem?_eq_some_iff.mp hi').1
      obtain ⟨hlt, hstop'⟩ := work_settle (h.enter hi') hstop hset rfl hstep
      have hsum := Labelled.sum_map_set_add hi' Worker.steps (.woken false)
      refine ⟨fun _ => ?_, fun hp => (nomatch hp), hstop'⟩
      simp only [work, length_set, Worker.steps] at hlt hsum ⊢
      omega
    next => exact nomatch hstep
  | wake i =>
    simp only [step] at hstep
    split at hstep
    next timed hi' =>
      cases hstep
      have hsum := Labelled.sum_map_set_add hi' Worker.steps (.woken timed)
      refine ⟨fun _ => ?_, fun hp => (nomatch hp), hstop⟩
      simp only [work, length_set, Worker.steps] at hsum ⊢
      omega
    next => exact nomatch hstep
  | resume i timedOut =>
    simp only [step] at hstep
    split at hstep
    next timed hi' =>
      split at hstep
      next => exact nomatch hstep
      next =>
        rw [Pool.resume] at hstep
        split at hstep
        next =>
          cases hstep
          have hsum := Labelled.sum_map_set_add hi' Worker.steps .exited
          refine ⟨fun _ => ?_, fun hp => (nomatch hp), hstop⟩
          simp only [work, Pool.exit, length_set, Worker.steps] at hsum ⊢
          omega
        next =>
          obtain ⟨hlt, hstop'⟩ := work_settle h hstop hi' rfl hstep
          exact ⟨fun _ => hlt, fun hp => (nomatch hp), hstop'⟩
    next => exact nomatch hstep
  | finish i =>
    simp only [step] at hstep
    split at hstep
    next task hi' =>
      cases hstep
      have hsum := Labelled.sum_map_set_add hi' Worker.steps .entering
      refine ⟨fun _ => ?_, fun hp => (nomatch hp), hstop⟩
      simp only [work, length_set, Worker.steps] at hsum ⊢
      omega
    next => exact nomatch hstep
  | notifyAll =>
    simp only [step] at hstep
    split at hstep
    next hshut =>
      cases hstep
      -- the sleepers are woken, and the stage of the shutdown is passed
      have hsum := sum_steps_wake p.threads
      refine ⟨fun _ => ?_, fun hp => (nomatch hp), hstop⟩
      simp only [work, hshut, Shutdown.steps, length_map] at hsum ⊢
      omega
    next => exact nomatch hstep
  | join =>
    simp only [step] at hstep
    split at hstep
    next k hshut =>
      split at hstep
      next hk =>
        cases hstep
        have hlt := (List.getElem?_eq_some_iff.mp hk).1
        refine ⟨fun _ => ?_, fun hp => (nomatch hp), hstop⟩
        simp only [work, hshut, Shutdown.steps]
        omega
      next => exact nomatch hstep
    next => exact nomatch hstep
  | close =>
    simp only [step] at hstep
    split at hstep
    next k hshut =>
      split at hstep
      next hk =>
        cases hstep
        refine ⟨fun _ => ?_, fun hp => (nomatch hp), hstop⟩
        simp only [work, hshut, Shutdown.steps, Queue.clear, map_nil, sum_nil]
        omega
      next => exact nomatch hstep
    next => exact nomatch hstep

/-- As long as a shutdown is not done, a worker or `shutdown` itself can take a step. -/
theorem Inv.progress (h : Inv mem lo hi 0 p queued) (hstop : p.stopping = true)
    (hstuck : ∀ a : Action τ, a.progress = true → BlockingPool.step mem p a = none) :
    p.shutdown = .closed := by
  have hstage := h.stage
  cases hshut : p.shutdown with
  | «open» =>
    rw [hshut] at hstage
    exact absurd (hstage.symm.trans hstop) Bool.false_ne_true
  | notifying =>
    have hnone := hstuck .notifyAll rfl
    simp only [BlockingPool.step, hshut] at hnone
    exact nomatch hnone
  | closed => rfl
  | joining k =>
    rw [hshut] at hstage
    obtain ⟨-, hasleep, hle, -⟩ := hstage
    rcases Nat.lt_or_eq_of_le hle with hlt | heq
    · -- the thread that is to be joined can go on, or has exited
      have hk : p.threads[k]? = some p.threads[k] := getElem?_eq_getElem hlt
      cases hw : p.threads[k] with
      | entering =>
        rw [hw] at hk
        have hset : (p.threads.set k (.woken false))[k]? = some (.woken false) :=
          getElem?_set_self hlt
        obtain ⟨p₁, hp₁, -⟩ := (h.enter hk).settle hset
        have hnone := hstuck (.enter k) rfl
        simp only [BlockingPool.step, hk] at hnone
        rw [enter_settle, hp₁] at hnone
        exact nomatch hnone
      | asleep timed =>
        have hno := any_eq_false.mp hasleep _ (getElem_mem hlt)
        rw [hw] at hno
        exact absurd rfl hno
      | woken timed =>
        rw [hw] at hk
        obtain ⟨p₁, hp₁, -⟩ := h.resume hk false
        have hnone := hstuck (.resume k false) rfl
        simp only [BlockingPool.step, hk, Bool.false_and, Bool.false_eq_true, if_false] at hnone
        rw [hp₁] at hnone
        exact nomatch hnone
      | running task =>
        rw [hw] at hk
        have hnone := hstuck (.finish k) rfl
        simp only [BlockingPool.step, hk] at hnone
        exact nomatch hnone
      | exited =>
        rw [hw] at hk
        have hnone := hstuck .join rfl
        simp only [BlockingPool.step, hshut, hk] at hnone
        exact nomatch hnone
    · have hnone := hstuck .close rfl
      simp only [BlockingPool.step, hshut, heq, if_true] at hnone
      exact nomatch hnone

/-- When a shutdown is done, no worker is left and every accepted task has run. -/
theorem closed_drained (h : (pools mem minThreads maxThreads).Reachable p)
    (hclosed : p.shutdown = .closed) :
    p.threads = [] ∧ p.taken = p.accepted ∧ p.finished ~ p.accepted.reduceOption := by
  obtain ⟨queued, hinv⟩ := reachable_inv h
  have hstage := hinv.stage
  rw [hclosed] at hstage
  have hnone : p.threads = [] := hstage.2
  have hzero : p.totalCount = 0 := by rw [hinv.total, hnone, countP_nil]
  have horder := hinv.order
  rw [hinv.drained hzero, append_nil] at horder
  have hran := hinv.ran
  rw [hnone, filterMap_nil, append_nil, ← horder] at hran
  exact ⟨hnone, horder.symm, hran.symm⟩

/-- A shutdown ends, whatever the schedule: the workers and `shutdown` can take only so many
    steps, they can take one until it is done, and then every accepted task has run and no
    worker is left. -/
theorem shutdown_ends (h : (pools mem minThreads maxThreads).Reachable p)
    (hstop : p.stopping = true) {as : List (Action τ)}
    (hrun : Labelled.run (step mem) p as = some p') :
    as.countP Action.progress ≤ work p ∧
      ((∀ a : Action τ, a.progress = true → step mem p' a = none) →
        p'.shutdown = .closed ∧ p'.threads = [] ∧ p'.taken = p'.accepted ∧
          p'.finished ~ p'.accepted.reduceOption) := by
  have hkeep : ∀ {s s' : Pool τ} {a : Action τ}, step mem s a = some s' →
      ((∃ queued, Inv mem (max 1 minThreads) (max (max 1 minThreads) maxThreads) 0 s queued) ∧
        s.stopping = true) →
      (∃ queued, Inv mem (max 1 minThreads) (max (max 1 minThreads) maxThreads) 0 s' queued) ∧
        s'.stopping = true := by
    rintro s s' a hstep ⟨⟨queued, hinv⟩, hs⟩
    exact ⟨Inv.step hstep ⟨queued, hinv⟩, (work_step hinv hs hstep).2.2⟩
  have hstart := And.intro (reachable_inv h) hstop
  constructor
  · have hcount := Labelled.countP_add_le (μ := work) (p := Action.progress) hkeep
      (by
        rintro s s' a hstep ⟨⟨queued, hinv⟩, hs⟩ ha
        exact (work_step hinv hs hstep).1 ha)
      (by
        rintro s s' a hstep ⟨⟨queued, hinv⟩, hs⟩ ha
        rw [(work_step hinv hs hstep).2.1 ha])
      hrun hstart
    omega
  · intro hstuck
    obtain ⟨⟨queued, hinv⟩, hs⟩ := Labelled.run_invariant hkeep hrun hstart
    have hclosed := hinv.progress hs hstuck
    obtain ⟨p₀, as₀, h₀, hrun₀⟩ := Labelled.reachable_iff.mp h
    have hreach : (pools mem minThreads maxThreads).Reachable p' :=
      Labelled.reachable_iff.mpr ⟨p₀, as₀ ++ as, h₀, Labelled.run_append.mpr ⟨p, hrun₀, hrun⟩⟩
    exact ⟨hclosed, closed_drained hreach hclosed⟩

/-- Nothing is left to do in a pool whose shutdown is done. -/
theorem drained_stuck (a : Action Nat) (ha : a.progress = true) : step sampleMem drained a = none := by
  cases a with
  | dispatch task woken => cases ha
  | stop => cases ha
  | _ => rfl

set_option maxRecDepth 4000 in
/-- The shutdown of that pool, step by step, until nothing can step. -/
theorem shutdown_ends_serving :
    (([.notifyAll, .finish 0, .resume 1 false, .finish 1, .resume 2 false, .enter 0, .enter 1,
        .join, .join, .join, .close] : List (Action Nat)).countP Action.progress ≤
      work (serving true)) ∧
      drained.shutdown = .closed ∧ drained.threads = [] ∧ drained.taken = drained.accepted ∧
        drained.finished ~ drained.accepted.reduceOption := by
  have hrun : Labelled.run (step sampleMem) (serving true)
      [.notifyAll, .finish 0, .resume 1 false, .finish 1, .resume 2 false, .enter 0, .enter 1,
        .join, .join, .join, .close] = some drained := rfl
  have hends := shutdown_ends (serving_reachable true) rfl hrun
  exact ⟨hends.1, hends.2 drained_stuck⟩

end BlockingPool
