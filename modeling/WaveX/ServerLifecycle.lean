import Mathlib.Data.Finset.Max
import WaveX.Labelled

/-! # The life of the server

    `ConnectionTracker.cpp`, the guard and the keep-alive loop of `ServerConnection.ipp`, and
    `exit`, `stop`, `start_graceful_shutdown` and `finish_shutdown` of `ServerLifecycle.ipp`,
    from the moment at which `run` has set the state.

    The coroutines of the connections run on the workers, the shutdown on the reactor, `exit`
    and `stop` in any thread.  A step is one access to an atomic or what is done under the lock
    of one stripe of the tracker; the steps interleave in any order.  What a walk over the
    stripes has collected is called afterwards, without a lock. -/

namespace ServerLifecycle

/-- `ServerState`. -/
inductive ServerState where
  | stopped
  | running
  | shuttingDown
  deriving DecidableEq

/-- Where the coroutine of a connection stands.  In the loop: it has read a state other than
    `Stopped` (`looked`), with an empty buffer another one than `ShuttingDown` (`settled`), and
    this once more (`entering`); it waits for a request as an idle connection (`waiting`), its
    read has returned (`woken`), it serves requests (`serving`).  In the guard at its end:
    `leaving`, `unregistered`, and `last` when the counter was one. -/
inductive Phase where
  | claimed
  | registered
  | working
  | looked
  | settled
  | entering
  | waiting
  | woken
  | serving
  | leaving
  | unregistered
  | last
  | gone
  deriving DecidableEq

/-- `kStripes`. -/
def stripes : Nat := 16

/-- The ids in one stripe. -/
def stripe (k : Nat) (ids : Finset Nat) : Finset Nat := ids.filter fun id => id % stripes = k

/-- A walk over the stripes: the next stripe and what was collected, then the calls that are
    left. -/
inductive Walk where
  | stripes (next : Nat) (got : Finset Nat)
  | calls (got : Finset Nat)
  deriving DecidableEq

def Walk.got : Walk → Finset Nat
  | .stripes _ got | .calls got => got

/-- How many stripes are done. -/
def Walk.past : Walk → Nat
  | .stripes next _ => next
  | .calls _ => ServerLifecycle.stripes

/-- Where the reactor stands: between two handlers, in `cancel_all_idle` or `force_close_all`,
    before the check of `finish_after_forced_close`, or behind the exchange of
    `finish_shutdown`. -/
inductive Reactor where
  | idle
  | cancelling (walk : Walk)
  | closing (walk : Walk)
  | forced
  | finishing
  deriving DecidableEq

/-- Where the one `stop` stands that got past its exchange. -/
inductive Stopper where
  | none
  | begun
  | closing (walk : Walk)
  | draining
  | done
  deriving DecidableEq

/-- `shutdown_timer_`: with the deadline of the requests in flight, or with the next look at the
    counter after the forced close. -/
inductive Timer where
  | off
  | deadline
  | polling
  deriving DecidableEq

/-- `Server` with its `ConnectionTracker`.  A connection's id is its place in `conns`, and as the
    ids begin with 1 the place 0 is taken.  `exiting` is an `exit` that has yet to post,
    `graceful` and `finishes` count the handlers posted to the reactor.  `cancels` and `closes`
    record which callbacks were called, `teardowns` how often the pool was torn down, and
    `between` the connections that were about to mark themselves idle at the `exit`. -/
structure Server where
  state : ServerState := .running
  isStopped : Bool := false
  reactorOn : Bool := true
  allSockets : Finset Nat := ∅
  idleSockets : Finset Nat := ∅
  conns : List Phase := [.gone]
  active : Nat := 0
  exiting : Bool := false
  graceful : Nat := 0
  finishes : Nat := 0
  reactor : Reactor := .idle
  timer : Timer := .off
  stopper : Stopper := .none
  cancels : List Nat := []
  closes : List Nat := []
  between : List Nat := []
  teardowns : Nat := 0

/-! ## A connection -/

/-- What the coroutine of a connection does next.  `drop` is an exception, or the end of a
    handshake that failed. -/
inductive Move where
  | emplace
  | count
  | look
  | check (empty : Bool)
  | recheck
  | markIdle
  | returned
  | markActive (ok : Bool)
  | serve (keep : Bool)
  | drop
  | unregister
  | uncount
  | readState
  deriving DecidableEq

/-- A connection goes on. -/
def Server.goes (s : Server) (id : Nat) (p : Phase) : Server :=
  { s with conns := s.conns.set id p }

/-- The step of a connection that stands here. -/
def Server.move (s : Server) (id : Nat) : Phase → Move → Option Server
  | .claimed, .emplace =>
      some { s.goes id .registered with allSockets := insert id s.allSockets }
  | .registered, .count => some { s.goes id .working with active := s.active + 1 }
  | .working, .look => some (s.goes id (if s.state = .stopped then .leaving else .looked))
  | .looked, .check empty =>
      some (s.goes id
        (if s.state = .shuttingDown ∧ empty then .leaving
          else if empty then .settled else .serving))
  | .settled, .recheck =>
      some (s.goes id (if s.state = .shuttingDown then .leaving else .entering))
  | .entering, .markIdle =>
      some { s.goes id .waiting with
        idleSockets :=
          if id ∈ s.allSockets then insert id s.idleSockets else s.idleSockets }
  | .waiting, .returned => some (s.goes id .woken)
  | .woken, .markActive ok =>
      some { s.goes id (if ok then .serving else .leaving) with
        idleSockets := s.idleSockets.erase id }
  | .serving, .serve keep => some (s.goes id (if keep then .working else .leaving))
  | .working, .drop | .serving, .drop => some (s.goes id .leaving)
  | .leaving, .unregister =>
      some { s.goes id .unregistered with
        allSockets := s.allSockets.erase id
        idleSockets := s.idleSockets.erase id }
  | .unregistered, .uncount =>
      some { s.goes id (if s.active = 1 then .last else .gone) with active := s.active - 1 }
  | .last, .readState =>
      some { s.goes id .gone with
        finishes := if s.state = .shuttingDown then s.finishes + 1 else s.finishes }
  | _, _ => none

/-! ## The walks -/

/-- `cancel_all_idle` under the lock of one stripe. -/
def Server.cancelStripe (s : Server) : Walk → Server × Walk
  | .stripes k got =>
      if k < stripes then
        ({ s with idleSockets := s.idleSockets \ stripe k s.idleSockets },
          .stripes (k + 1) (got ∪ stripe k s.idleSockets ∩ s.allSockets))
      else (s, .calls got)
  | .calls got => (s, .calls got)

/-- `force_close_all` under the lock of one stripe. -/
def Server.closeStripe (s : Server) : Walk → Server × Walk
  | .stripes k got =>
      if k < stripes then
        ({ s with
            allSockets := s.allSockets \ stripe k s.allSockets
            idleSockets := s.idleSockets \ stripe k s.idleSockets },
          .stripes (k + 1) (got ∪ stripe k s.allSockets))
      else (s, .calls got)
  | .calls got => (s, .calls got)

/-- The callback of one of the connections that were collected is called. -/
def Walk.call : Walk → Nat → Option Walk
  | .calls got, id => if id ∈ got then some (.calls (got.erase id)) else none
  | .stripes _ _, _ => none

/-! ## The threads -/

/-- `finish_shutdown` up to its exchange; it cancels the timer. -/
def Server.finishShutdown (s : Server) : Server :=
  if s.isStopped then { s with reactor := .idle }
  else { s with isStopped := true, timer := .off, reactor := .finishing }

/-- What a thread does. -/
inductive Action where
  | accept
  | conn (id : Nat) (m : Move)
  | exit
  | post
  | startGraceful
  | cancelStripe
  | cancel (id : Nat)
  | checkActive
  | timeout
  | poll
  | closeStripe
  | close (id : Nat)
  | checkForced (expired : Bool)
  | runFinish
  | finish
  | stop
  | storeStopped
  | stopStripe
  | stopClose (id : Nat)
  | drained
  | stopReactor
  deriving DecidableEq

/-- A step; it is not possible when a thread is not where the action needs it. -/
def step (s : Server) : Action → Option Server
  | .accept => some { s with conns := s.conns ++ [.claimed] }
  | .conn id m => s.conns[id]?.bind fun p => s.move id p m
  | .exit =>
      if s.state = .running then
        some { s with
          state := .shuttingDown
          exiting := true
          between := (List.range s.conns.length).filter fun id => s.conns[id]? = some .entering }
      else some s
  | .post =>
      if s.exiting then some { s with exiting := false, graceful := s.graceful + 1 } else none
  | .startGraceful =>
      if s.reactor = .idle ∧ s.reactorOn ∧ 0 < s.graceful then
        some { s with graceful := s.graceful - 1, reactor := .cancelling (.stripes 0 ∅) }
      else none
  | .cancelStripe =>
      match s.reactor with
      | .cancelling walk =>
          let (s, walk) := s.cancelStripe walk
          some { s with reactor := .cancelling walk }
      | _ => none
  | .cancel id =>
      match s.reactor with
      | .cancelling walk =>
          (walk.call id).map fun walk =>
            { s with reactor := .cancelling walk, cancels := s.cancels ++ [id] }
      | _ => none
  | .checkActive =>
      if s.reactor = .cancelling (.calls ∅) then
        if s.active = 0 then some s.finishShutdown
        else some { s with reactor := .idle, timer := .deadline }
      else none
  | .timeout =>
      if s.reactor = .idle ∧ s.reactorOn ∧ s.timer = .deadline then
        some { s with reactor := .closing (.stripes 0 ∅) }
      else none
  | .poll =>
      if s.reactor = .idle ∧ s.reactorOn ∧ s.timer = .polling then
        some { s with reactor := .forced }
      else none
  | .closeStripe =>
      match s.reactor with
      | .closing walk =>
          let (s, walk) := s.closeStripe walk
          some { s with reactor := .closing walk }
      | _ => none
  | .close id =>
      match s.reactor with
      | .closing walk =>
          (walk.call id).map fun walk =>
            { s with reactor := .closing walk, closes := s.closes ++ [id] }
      | _ => none
  | .checkForced expired =>
      if s.reactor = .closing (.calls ∅) ∨ s.reactor = .forced then
        if s.active = 0 ∨ expired then some s.finishShutdown
        else some { s with reactor := .idle, timer := .polling }
      else none
  | .runFinish =>
      if s.reactor = .idle ∧ s.reactorOn ∧ 0 < s.finishes then
        some { s with finishes := s.finishes - 1 }.finishShutdown
      else none
  | .finish =>
      if s.reactor = .finishing then
        some { s with
          reactor := .idle
          reactorOn := false
          state := .stopped
          teardowns := s.teardowns + 1 }
      else none
  | .stop =>
      if s.isStopped then some s else some { s with isStopped := true, stopper := .begun }
  | .storeStopped =>
      if s.stopper = .begun then
        some { s with state := .stopped, stopper := .closing (.stripes 0 ∅) }
      else none
  | .stopStripe =>
      match s.stopper with
      | .closing walk =>
          let (s, walk) := s.closeStripe walk
          some { s with stopper := .closing walk }
      | _ => none
  | .stopClose id =>
      match s.stopper with
      | .closing walk =>
          (walk.call id).map fun walk =>
            { s with stopper := .closing walk, closes := s.closes ++ [id] }
      | _ => none
  | .drained =>
      -- the timer is cancelled, and the wait for the connections is bounded
      if s.stopper = .closing (.calls ∅) then
        some { s with stopper := .draining, timer := .off }
      else none
  | .stopReactor =>
      if s.stopper = .draining then
        some { s with stopper := .done, reactorOn := false, teardowns := s.teardowns + 1 }
      else none

/-- The runs of a server. -/
def lifecycle : System Server := Labelled.system step fun s => s = {}

end ServerLifecycle
