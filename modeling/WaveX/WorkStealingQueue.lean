import Mathlib.Data.List.FinRange
import Mathlib.Logic.Function.Basic

/-! # The work-stealing queue

    `LocalQueue` of `include/wavex/Server/WorkStealingQueue.hpp`: a ring of 256 slots with an
    owner, who pushes and pops at the bottom, and any number of thieves, who steal one task or
    half of them at the top.  A step is one access to an atomic or one move of a slot, and the
    steps of all threads interleave in any order.

    The two indices count pushes and steals and do not wrap around here.  Each thief moves what
    it steals by halves into a queue of its own that nobody else touches, so that one is the
    list of what it holds. -/

namespace WorkStealingQueue

/-! ## The queue -/

/-- `CAPACITY`. -/
def capacity : Nat := 256

/-- The slot of an index, `i & MASK`. -/
def slotOf (i : Nat) : Fin capacity := ⟨i % capacity, Nat.mod_lt i (by decide)⟩

/-- `LocalQueue`; a slot whose task has been moved out is empty. -/
structure LocalQueue (τ : Type*) where
  top : Nat := 0
  bottom : Nat := 0
  slots : Fin capacity → Option τ := fun _ => none

variable {τ : Type*}

/-- The task that a move takes out of a slot, if there is one. -/
def LocalQueue.at (q : LocalQueue τ) (i : Nat) : Option τ := q.slots (slotOf i)

/-- A move into a slot, or out of it. -/
def LocalQueue.put (q : LocalQueue τ) (i : Nat) (task : Option τ) : LocalQueue τ :=
  { q with slots := Function.update q.slots (slotOf i) task }

/-- `b - t >= CAPACITY - 1`: a bottom below the top is far above it. -/
def isFull (b t : Nat) : Bool := b < t || capacity - 1 ≤ b - t

/-! ## The owner -/

/-- Where the owner stands in `push` or `pop`, named by the access that is next. -/
inductive OwnerPc (τ : Type*) where
  | idle
  | pushCheck (task : τ) (b : Nat)
  | pushWrite (task : τ) (b : Nat)
  | pushPublish (task : τ) (b : Nat)
  | popStore (b : Nat)
  | popCheck (b : Nat)
  | popCas (b : Nat)
  | popRaise (b : Nat)
  | popMove (b : Nat)
  | popRestore (b : Nat)

/-- The owner, with the tasks whose `push` returned true and those that `pop` returned. -/
structure Owner (τ : Type*) where
  pc : OwnerPc τ := .idle
  accepted : List τ := []
  returned : List τ := []

/-- The call of `push`: `bottom_` is loaded. -/
def Owner.push (q : LocalQueue τ) (o : Owner τ) (task : τ) : Owner τ :=
  { o with pc := .pushCheck task q.bottom }

/-- The call of `pop`: `bottom_` is loaded. -/
def Owner.pop (q : LocalQueue τ) (o : Owner τ) : Owner τ :=
  if q.bottom = 0 then o else { o with pc := .popStore (q.bottom - 1) }

/-- The next access of the owner. -/
def Owner.step (q : LocalQueue τ) (o : Owner τ) : LocalQueue τ × Owner τ :=
  match o.pc with
  | .idle => (q, o)
  | .pushCheck task b =>
      (q, { o with pc := if isFull b q.top then .idle else .pushWrite task b })
  | .pushWrite task b => (q.put b (some task), { o with pc := .pushPublish task b })
  | .pushPublish task b =>
      ({ q with bottom := b + 1 }, { o with pc := .idle, accepted := o.accepted ++ [task] })
  | .popStore b => ({ q with bottom := b }, { o with pc := .popCheck b })
  | .popCheck b =>
      (q, { o with
        pc := if q.top < b then .popMove b else if q.top = b then .popCas b else .popRestore b })
  | .popCas b =>
      if q.top = b then ({ q with top := b + 1 }, { o with pc := .popRaise b })
      else (q, { o with pc := .popRestore b })
  | .popRaise b => ({ q with bottom := b + 1 }, { o with pc := .popMove b })
  | .popMove b =>
      (q.put b none, { o with pc := .idle, returned := o.returned ++ (q.at b).toList })
  | .popRestore b => ({ q with bottom := b + 1 }, { o with pc := .idle })

/-! ## Thieves -/

/-- Where a thief stands in `steal` or `steal_half`, named by the access that is next.  The
    loop of `steal_half` has `i` next and keeps `first_task` and `remaining_task`. -/
inductive ThiefPc (τ : Type*) where
  | idle
  | stealLoad (t : Nat)
  | stealCas (t : Nat)
  | stealMove (t : Nat)
  | halfLoad (t : Nat)
  | halfCas (t stealCount : Nat)
  | halfFirst (t stealCount : Nat)
  | halfNext (t stealCount i : Nat) (first : Option τ)
  | halfPush (t stealCount i : Nat) (first remaining : Option τ)

/-- A thief, with its own queue and the tasks that its calls returned. -/
structure Thief (τ : Type*) where
  pc : ThiefPc τ := .idle
  queue : List (Option τ) := []
  returned : List τ := []

/-- The call of `steal`: `top_` is loaded. -/
def Thief.steal (q : LocalQueue τ) (th : Thief τ) : Thief τ := { th with pc := .stealLoad q.top }

/-- The call of `steal_half`: `top_` is loaded. -/
def Thief.stealHalf (q : LocalQueue τ) (th : Thief τ) : Thief τ :=
  { th with pc := .halfLoad q.top }

/-- A `pop` of the thief's own queue. -/
def Thief.work (th : Thief τ) : Thief τ :=
  { th with
    queue := th.queue.dropLast
    returned := th.returned ++ (th.queue.getLast?.join).toList }

/-- The next access of a thief. -/
def Thief.step (q : LocalQueue τ) (th : Thief τ) : LocalQueue τ × Thief τ :=
  match th.pc with
  | .idle => (q, th)
  | .stealLoad t => (q, { th with pc := if q.bottom ≤ t then .idle else .stealCas t })
  | .stealCas t =>
      if q.top = t then ({ q with top := t + 1 }, { th with pc := .stealMove t })
      else (q, { th with pc := .idle })
  | .stealMove t =>
      (q.put t none, { th with pc := .idle, returned := th.returned ++ (q.at t).toList })
  | .halfLoad t =>
      (q, { th with
        pc := if q.bottom ≤ t then .idle else .halfCas t ((q.bottom - t + 1) / 2) })
  | .halfCas t stealCount =>
      if q.top = t then ({ q with top := t + stealCount }, { th with pc := .halfFirst t stealCount })
      else (q, { th with pc := .idle })
  | .halfFirst t stealCount => (q.put t none, { th with pc := .halfNext t stealCount 1 (q.at t) })
  | .halfNext t stealCount i first =>
      if i < stealCount then
        (q.put (t + i) none, { th with pc := .halfPush t stealCount i first (q.at (t + i)) })
      else (q, { th with pc := .idle, returned := th.returned ++ first.toList })
  | .halfPush t stealCount i first remaining =>
      -- a full queue ends the loop, and the task in hand is dropped
      if capacity - 1 ≤ th.queue.length then
        (q, { th with pc := .idle, returned := th.returned ++ first.toList })
      else
        (q, { th with
          pc := .halfNext t stealCount (i + 1) first, queue := th.queue ++ [remaining] })

/-! ## Runs -/

/-- The queue, its owner and the thieves. -/
structure State (τ : Type*) where
  queue : LocalQueue τ := {}
  owner : Owner τ := {}
  thieves : List (Thief τ) := []

/-- A call, or the next access of a thread. -/
inductive Action (τ : Type*) where
  | push (task : τ)
  | pop
  | owner
  | steal (n : Nat)
  | stealHalf (n : Nat)
  | work (n : Nat)
  | thief (n : Nat)

def OwnerPc.isIdle : OwnerPc τ → Bool
  | .idle => true
  | _ => false

def ThiefPc.isIdle : ThiefPc τ → Bool
  | .idle => true
  | _ => false

/-- A call of a thief that is not in one. -/
def State.call (s : State τ) (n : Nat) (f : Thief τ → Thief τ) : Option (State τ) :=
  match s.thieves[n]? with
  | none => none
  | some th => if th.pc.isIdle then some { s with thieves := s.thieves.set n (f th) } else none

/-- One step, `none` when it is not possible. -/
def step (s : State τ) : Action τ → Option (State τ)
  | .push task =>
      if s.owner.pc.isIdle then some { s with owner := s.owner.push s.queue task } else none
  | .pop => if s.owner.pc.isIdle then some { s with owner := s.owner.pop s.queue } else none
  | .owner =>
      let (queue, owner) := s.owner.step s.queue
      some { s with queue, owner }
  | .steal n => s.call n (Thief.steal s.queue)
  | .stealHalf n => s.call n (Thief.stealHalf s.queue)
  | .work n => s.call n Thief.work
  | .thief n =>
      match s.thieves[n]? with
      | none => none
      | some th =>
          let (queue, th) := th.step s.queue
          some { s with queue, thieves := s.thieves.set n th }

/-- An empty queue with so many thieves. -/
def initial (τ : Type*) (thieves : Nat) : State τ := { thieves := List.replicate thieves {} }

/-- The state after a list of actions. -/
def run : State τ → List (Action τ) → Option (State τ)
  | s, [] => some s
  | s, a :: rest => (step s a).bind (run · rest)

end WorkStealingQueue
