import WaveX.ServerLifecycle

/-! # Runs of the server's life

    In every run each connection is cancelled and closed at most once, and the pool is torn
    down at most once (`called_once`).  When `stop` has walked the tracker, every connection
    that still reads or serves was closed (`stop_closes_all`).  The walk of a graceful shutdown
    reaches every idle connection but those that were about to mark themselves idle at the
    `exit` (`graceful_cancels_idle`), and the end of the last connection is never overlooked
    (`finish_posted`). -/

namespace ServerLifecycle

open Labelled List

variable {s s' : Server}

/-! ## Phases and collections -/

/-- The connection is in the tracker, unless a walk has taken it out. -/
@[grind] def Phase.tracked : Phase → Bool
  | .claimed | .unregistered | .last | .gone => false
  | _ => true

/-- The connection is counted in `active_connections_`. -/
def Phase.counted : Phase → Bool
  | .claimed | .registered | .last | .gone => false
  | _ => true

/-- The connection is in its loop, past the check for `Stopped`. -/
@[grind] def Phase.inLoop : Phase → Bool
  | .looked | .settled | .entering | .waiting | .woken | .serving => true
  | _ => false

/-- What the reactor will cancel. -/
@[grind] def Reactor.toCancel : Reactor → Finset Nat
  | .cancelling walk => walk.got
  | _ => ∅

/-- What the reactor will close. -/
@[grind] def Reactor.toClose : Reactor → Finset Nat
  | .closing walk => walk.got
  | _ => ∅

/-- What `stop` will close. -/
@[grind] def Stopper.toClose : Stopper → Finset Nat
  | .closing walk => walk.got
  | _ => ∅

/-- Cancelled, or collected to be. -/
@[grind] def Server.Cancelled (s : Server) (id : Nat) : Prop :=
  id ∈ s.cancels ∨ id ∈ s.reactor.toCancel

/-- Closed, or collected to be. -/
@[grind] def Server.Closed (s : Server) (id : Nat) : Prop :=
  id ∈ s.closes ∨ id ∈ s.reactor.toClose ∨ id ∈ s.stopper.toClose

/-- How many stripes `stop` has done. -/
@[grind] def Stopper.past : Stopper → Nat
  | .none | .begun => 0
  | .closing walk => walk.past
  | .draining | .done => stripes

/-- How many stripes the graceful shutdown has done. -/
@[grind] def Server.cancelPast (s : Server) : Nat :=
  if s.exiting ∨ 0 < s.graceful then 0
  else
    match s.reactor with
    | .cancelling walk => walk.past
    | _ => stripes

/-- No idle connection has been cancelled yet. -/
def Server.early (s : Server) : Prop :=
  s.state = .running ∨ s.exiting = true ∨ 0 < s.graceful ∨
    ∃ k got, s.reactor = .cancelling (.stripes k got)

/-- The reactor closes what is left after the deadline. -/
def Reactor.forces : Reactor → Bool
  | .closing _ | .forced => true
  | _ => false

/-- The shutdown has found connections and waits for them. -/
def Server.waits (s : Server) : Bool := s.reactor.forces || s.timer != .off

/-! ## The threads -/

/-- `stop` is past its store. -/
def Stopper.walks : Stopper → Bool
  | .closing _ | .draining | .done => true
  | _ => false

/-- The pool will be torn down by this `stop`. -/
def Stopper.tears : Stopper → Nat
  | .begun | .closing _ | .draining => 1
  | _ => 0

def Reactor.tears : Reactor → Nat
  | .finishing => 1
  | _ => 0

/-- The reactor may come to `finish_shutdown` now. -/
@[grind] def Reactor.ends : Reactor → Bool
  | .idle | .forced => true
  | .cancelling (.calls got) | .closing (.calls got) => got = ∅
  | _ => false

/-- A reactor whose call ends has collected nothing. -/
theorem Reactor.collected_of_ends {r : Reactor} (h : r.ends = true) :
    r.toCancel = ∅ ∧ r.toClose = ∅ := by
  unfold Reactor.ends at h
  split at h
  · exact ⟨rfl, rfl⟩
  · exact ⟨rfl, rfl⟩
  · exact ⟨of_decide_eq_true h, rfl⟩
  · exact ⟨rfl, of_decide_eq_true h⟩
  · exact nomatch h

/-- When the call of the reactor ends, all stripes are behind `cancel_all_idle` or none. -/
theorem cancelPast_of_ends (h : s.reactor.ends = true) :
    s.cancelPast = if s.exiting ∨ 0 < s.graceful then 0 else stripes := by
  unfold Server.cancelPast
  unfold Reactor.ends at h
  split at h <;> simp_all [Walk.past]

/-- A call of the reactor that ends tears nothing down. -/
theorem Reactor.tears_of_ends {r : Reactor} (h : r.ends = true) : r.tears = 0 := by
  cases r <;> first | rfl | exact nomatch h

def Reactor.cancels : Reactor → Nat
  | .cancelling _ => 1
  | _ => 0

/-- A graceful shutdown that is not through with its walk. -/
def Server.starting (s : Server) : Nat := s.exiting.toNat + s.graceful + s.reactor.cancels

/-- How far the threads are, seen together. -/
structure Threads (s : Server) : Prop where
  stored : s.stopper.walks = true → s.state = .stopped
  opened : s.isStopped = false → s.state ≠ .stopped
  before : s.state = .running → s.starting = 0 ∧ s.waits = false
  single : s.starting ≤ 1
  torn : s.teardowns + s.reactor.tears + s.stopper.tears = s.isStopped.toNat

attribute [grind] Walk.got Walk.past

/-! ## What a step can do -/

/-- A step on a connection, on the tracker or on what was collected, with what it needs. -/
inductive Deed (s : Server) : Server → Prop
  | accept : Deed s { s with conns := s.conns ++ [.claimed] }
  | move {id : Nat} {p : Phase} {m : Move} {s' : Server} (hp : s.conns[id]? = some p)
      (hm : s.move id p m = some s') : Deed s s'
  | exit (hstate : s.state = .running) : Deed s { s with
      state := .shuttingDown
      exiting := true
      between := (List.range s.conns.length).filter fun id => s.conns[id]? = some .entering }
  | cancelStripe {k : Nat} {got : Finset Nat} (hr : s.reactor = .cancelling (.stripes k got)) :
      Deed s { s with
        idleSockets := s.idleSockets \ stripe k s.idleSockets
        reactor :=
          .cancelling (.stripes (k + 1) (got ∪ stripe k s.idleSockets ∩ s.allSockets)) }
  | cancel {got : Finset Nat} {id : Nat} (hr : s.reactor = .cancelling (.calls got))
      (hid : id ∈ got) :
      Deed s { s with reactor := .cancelling (.calls (got.erase id)), cancels := s.cancels ++ [id] }
  | closeStripe {k : Nat} {got : Finset Nat} (hr : s.reactor = .closing (.stripes k got)) :
      Deed s { s with
        allSockets := s.allSockets \ stripe k s.allSockets
        idleSockets := s.idleSockets \ stripe k s.idleSockets
        reactor := .closing (.stripes (k + 1) (got ∪ stripe k s.allSockets)) }
  | close {got : Finset Nat} {id : Nat} (hr : s.reactor = .closing (.calls got))
      (hid : id ∈ got) :
      Deed s { s with reactor := .closing (.calls (got.erase id)), closes := s.closes ++ [id] }
  | stopStripe {k : Nat} {got : Finset Nat} (hs : s.stopper = .closing (.stripes k got)) :
      Deed s { s with
        allSockets := s.allSockets \ stripe k s.allSockets
        idleSockets := s.idleSockets \ stripe k s.idleSockets
        stopper := .closing (.stripes (k + 1) (got ∪ stripe k s.allSockets)) }
  | stopClose {got : Finset Nat} {id : Nat} (hs : s.stopper = .closing (.calls got))
      (hid : id ∈ got) :
      Deed s { s with stopper := .closing (.calls (got.erase id)), closes := s.closes ++ [id] }

/-- A step by which only a thread gets further. -/
inductive Turn (s : Server) : Server → Prop
  | stay : Turn s s
  | post (hexit : s.exiting = true) :
      Turn s { s with exiting := false, graceful := s.graceful + 1 }
  | startGraceful (hr : s.reactor = .idle) (hposted : 0 < s.graceful) :
      Turn s { s with graceful := s.graceful - 1, reactor := .cancelling (.stripes 0 ∅) }
  | cancelCalls {k : Nat} {got : Finset Nat} (hr : s.reactor = .cancelling (.stripes k got))
      (hk : stripes ≤ k) : Turn s { s with reactor := .cancelling (.calls got) }
  | await (hr : s.reactor = .cancelling (.calls ∅)) (hactive : s.active ≠ 0) :
      Turn s { s with reactor := .idle, timer := .deadline }
  | timeout (hr : s.reactor = .idle) (htimer : s.timer ≠ .off) :
      Turn s { s with reactor := .closing (.stripes 0 ∅) }
  | poll (hr : s.reactor = .idle) (htimer : s.timer ≠ .off) : Turn s { s with reactor := .forced }
  | closeCalls {k : Nat} {got : Finset Nat} (hr : s.reactor = .closing (.stripes k got)) :
      Turn s { s with reactor := .closing (.calls got) }
  | again (hr : s.reactor = .closing (.calls ∅) ∨ s.reactor = .forced) (hactive : s.active ≠ 0) :
      Turn s { s with reactor := .idle, timer := .polling }
  | finishLate {n : Nat} (hr : s.reactor.ends = true) (hstopped : s.isStopped = true) :
      Turn s { s with finishes := n, reactor := .idle }
  | finishFirst {n : Nat} (hr : s.reactor.ends = true) (hstopped : s.isStopped = false) :
      Turn s { s with finishes := n, isStopped := true, timer := .off, reactor := .finishing }
  | finish (hr : s.reactor = .finishing) : Turn s { s with
      reactor := .idle
      reactorOn := false
      state := .stopped
      teardowns := s.teardowns + 1 }
  | stop (hstopped : s.isStopped = false) :
      Turn s { s with isStopped := true, stopper := .begun }
  | storeStopped (hs : s.stopper = .begun) :
      Turn s { s with state := .stopped, stopper := .closing (.stripes 0 ∅) }
  | stopCalls {k : Nat} {got : Finset Nat} (hs : s.stopper = .closing (.stripes k got))
      (hk : stripes ≤ k) : Turn s { s with stopper := .closing (.calls got) }
  | drained (hs : s.stopper = .closing (.calls ∅)) :
      Turn s { s with stopper := .draining, timer := .off }
  | stopReactor (hs : s.stopper = .draining) :
      Turn s { s with stopper := .done, reactorOn := false, teardowns := s.teardowns + 1 }

/-- `finish_shutdown`, when nothing is left of a walk. -/
theorem finishShutdown_step {n : Nat} (hr : s.reactor.ends = true) :
    Turn s { s with finishes := n }.finishShutdown := by
  unfold Server.finishShutdown
  split
  next hstopped => exact .finishLate hr hstopped
  next hstopped => exact .finishFirst hr (Bool.eq_false_iff.mpr hstopped)

/-- Every step is a deed or a turn. -/
theorem step_cases {a : Action} (h : step s a = some s') : Deed s s' ∨ Turn s s' := by
  cases a with
  | accept =>
    cases h
    exact .inl .accept
  | conn id m =>
    obtain ⟨p, hp, hm⟩ := Option.bind_eq_some_iff.mp h
    exact .inl (.move hp hm)
  | cancelStripe | closeStripe | stopStripe =>
    rw [step] at h
    split at h
    next walk hw =>
      -- a walk collects stripe by stripe, then calls what it collected
      cases walk with
      | stripes k got =>
        by_cases hk : k < stripes
        · simp only [Server.cancelStripe, Server.closeStripe, if_pos hk] at h
          cases h
          first
          | exact .inl (.cancelStripe hw)
          | exact .inl (.closeStripe hw)
          | exact .inl (.stopStripe hw)
        · simp only [Server.cancelStripe, Server.closeStripe, if_neg hk] at h
          cases h
          first
          | exact .inr (.cancelCalls hw (Nat.le_of_not_lt hk))
          | exact .inr (.closeCalls hw)
          | exact .inr (.stopCalls hw (Nat.le_of_not_lt hk))
      | calls got =>
        simp only [Server.cancelStripe, Server.closeStripe, ← hw] at h
        cases h
        exact .inr .stay
    · cases h
  | cancel id | close id | stopClose id =>
    rw [step] at h
    split at h
    next walk hw =>
      obtain ⟨walk', hcall, rfl⟩ := Option.map_eq_some_iff.mp h
      cases walk with
      | stripes k got => cases hcall
      | calls got =>
        rw [Walk.call] at hcall
        split at hcall
        next hid =>
          cases hcall
          first
          | exact .inl (.cancel hw hid)
          | exact .inl (.close hw hid)
          | exact .inl (.stopClose hw hid)
        · cases hcall
    · cases h
  | checkActive =>
    rw [step] at h
    split at h
    next hr =>
      split at h
      · cases h
        exact .inr (finishShutdown_step (by rw [hr]; rfl))
      next hactive =>
        cases h
        exact .inr (.await hr hactive)
    · cases h
  | checkForced expired =>
    rw [step] at h
    split at h
    next hr =>
      split at h
      · cases h
        rcases hr with hr | hr <;>
          exact .inr (finishShutdown_step (by rw [hr]; rfl))
      next hactive =>
        cases h
        exact .inr (.again hr fun h0 => hactive (.inl h0))
    · cases h
  | exit =>
    rw [step] at h
    split at h
    next hstate =>
      cases h
      exact .inl (.exit hstate)
    · cases h
      exact .inr .stay
  | stop =>
    rw [step] at h
    split at h
    · cases h
      exact .inr .stay
    next hstopped =>
      cases h
      exact .inr (.stop (Bool.eq_false_iff.mpr hstopped))
  | runFinish =>
    rw [step] at h
    split at h
    next hc =>
      cases h
      exact .inr (finishShutdown_step (by rw [hc.1]; rfl))
    · cases h
  | timeout | poll =>
    rw [step] at h
    split at h
    next hc =>
      cases h
      -- a timer that is off does not fire
      have htimer : s.timer ≠ .off := by
        rw [hc.2.2]
        decide
      first
      | exact .inr (.timeout hc.1 htimer)
      | exact .inr (.poll hc.1 htimer)
    · cases h
  | post | startGraceful | finish | storeStopped | drained | stopReactor =>
    rw [step] at h
    split at h
    next hc =>
      cases h
      first
      | exact .inr (.post hc)
      | exact .inr (.startGraceful hc.1 hc.2.2)
      | exact .inr (.finish hc)
      | exact .inr (.storeStopped hc)
      | exact .inr (.drained hc)
      | exact .inr (.stopReactor hc)
    · cases h

/-- A connection's step leaves the threads and the other connections alone. -/
theorem move_frame {i : Nat} {q : Phase} {m : Move} (h : s.move i q m = some s') :
    ∃ r all idle active finishes,
      s' = { s with
        conns := s.conns.set i r
        allSockets := all
        idleSockets := idle
        active := active
        finishes := finishes } ∧
      ∀ id, id ≠ i → (id ∈ all ↔ id ∈ s.allSockets) ∧ (id ∈ idle ↔ id ∈ s.idleSockets) := by
  unfold Server.move at h
  split at h <;> cases h <;> refine ⟨_, _, _, _, _, rfl, fun id hne => ⟨?_, ?_⟩⟩ <;>
    first
    | exact Iff.rfl
    | (rw [Finset.mem_insert]; exact or_iff_right hne)
    | (rw [Finset.mem_erase]; exact and_iff_right hne)
    | skip
  split
  · rw [Finset.mem_insert]
    exact or_iff_right hne
  · exact Iff.rfl

/-- A connection does not touch the state of the other threads. -/
theorem Threads.deed (h : Deed s s') (ht : Threads s) : Threads s' := by
  obtain ⟨hstored, hopened, hbefore, hsingle, htorn⟩ := ht
  cases h with
  | accept => exact ⟨hstored, hopened, hbefore, hsingle, htorn⟩
  | move hp hm =>
    obtain ⟨q, all, idle, active, finishes, rfl, -⟩ := move_frame hm
    exact ⟨hstored, hopened, hbefore, hsingle, htorn⟩
  | exit hstate =>
    obtain ⟨hnone, -⟩ := hbefore hstate
    rw [Server.starting] at hnone
    refine ⟨fun hw => ?_, fun _ => nofun, nofun, ?_, htorn⟩
    · exact nomatch hstate.symm.trans (hstored hw)
    · rw [Server.starting, Bool.toNat_true]
      simp only
      omega
  | cancelStripe hr | cancel hr | closeStripe hr | close hr =>
    simp only [Server.starting, Server.waits, hr] at hbefore hsingle htorn
    exact ⟨hstored, hopened, hbefore, hsingle, htorn⟩
  | stopStripe hs | stopClose hs =>
    rw [hs] at hstored htorn
    exact ⟨hstored, hopened, hbefore, hsingle, htorn⟩

/-- The threads take their turns in the order of the code. -/
theorem Threads.turn (h : Turn s s') (ht : Threads s) : Threads s' := by
  obtain ⟨hstored, hopened, hbefore, hsingle, htorn⟩ := ht
  have hwalks (hopen : s.isStopped = false) : s.reactor.tears = 0 ∧ s.stopper.tears = 0 := by
    rw [hopen, Bool.toNat_false] at htorn
    omega
  cases h with
  | stay => exact ⟨hstored, hopened, hbefore, hsingle, htorn⟩
  | post hexit =>
    refine ⟨hstored, hopened, fun hrun => ?_, ?_, htorn⟩
    · have hnone := (hbefore hrun).1
      rw [Server.starting, hexit, Bool.toNat_true] at hnone
      omega
    · rw [Server.starting, hexit, Bool.toNat_true] at hsingle
      rw [Server.starting, Bool.toNat_false]
      simp only
      omega
  | startGraceful hr hposted =>
    refine ⟨hstored, hopened, fun hrun => ?_, ?_, ?_⟩
    · have hnone := (hbefore hrun).1
      rw [Server.starting] at hnone
      omega
    · simp only [Server.starting, hr, Reactor.cancels] at hsingle ⊢
      omega
    · rw [hr] at htorn
      exact htorn
  | cancelCalls hr hk | await hr hactive | timeout hr htimer | poll hr htimer | closeCalls hr =>
    refine ⟨hstored, hopened, fun hrun => ?_, ?_, ?_⟩ <;>
      simp_all [Server.starting, Server.waits, Reactor.cancels, Reactor.forces, Reactor.tears]
  | again hr hactive =>
    rcases hr with hr | hr <;> refine ⟨hstored, hopened, fun hrun => ?_, ?_, ?_⟩ <;>
      simp_all [Server.starting, Server.waits, Reactor.cancels, Reactor.forces, Reactor.tears]
  | finishLate hr hstopped =>
    refine ⟨hstored, hopened, fun hrun => ?_, ?_, ?_⟩
    · obtain ⟨hnone, hquiet⟩ := hbefore hrun
      simp only [Server.starting, Server.waits, Bool.or_eq_false_iff] at hnone hquiet ⊢
      exact ⟨by simp only [Reactor.cancels]; omega, rfl, hquiet.2⟩
    · simp only [Server.starting, Reactor.cancels] at hsingle ⊢
      omega
    · rw [Reactor.tears_of_ends hr] at htorn
      exact htorn
  | finishFirst hr hstopped =>
    obtain ⟨-, hnone⟩ := hwalks hstopped
    refine ⟨hstored, nofun, fun hrun => ?_, ?_, ?_⟩
    · obtain ⟨hnone, -⟩ := hbefore hrun
      simp only [Server.starting, Reactor.cancels] at hnone ⊢
      exact ⟨by omega, rfl⟩
    · simp only [Server.starting, Reactor.cancels] at hsingle ⊢
      omega
    · simp only [hnone, hstopped, Reactor.tears, Bool.toNat_false, Bool.toNat_true] at htorn ⊢
      omega
  | finish hr =>
    refine ⟨fun _ => rfl, fun hopen => ?_, nofun, ?_, ?_⟩
    · simp_all [Reactor.tears]
    · simp_all [Server.starting, Reactor.cancels]
    · simp only [hr, Reactor.tears] at htorn ⊢
      omega
  | stop hstopped =>
    have hnone := hwalks hstopped
    refine ⟨nofun, nofun, hbefore, hsingle, ?_⟩
    simp_all [Stopper.tears]
  | storeStopped hs =>
    refine ⟨fun _ => rfl, fun hopen => ?_, nofun, hsingle, ?_⟩
    · simp_all [Stopper.tears]
    · simp_all [Stopper.tears]
  | stopCalls hs =>
    refine ⟨fun _ => hstored (by rw [hs]; rfl), hopened, hbefore, hsingle, ?_⟩
    simp_all [Stopper.tears]
  | drained hs =>
    refine ⟨fun _ => hstored (by rw [hs]; rfl), hopened, fun hrun => ?_, hsingle, ?_⟩
    · simp_all [Server.waits, Stopper.walks]
    · simp_all [Stopper.tears]
  | stopReactor hs =>
    refine ⟨fun _ => hstored (by rw [hs]; rfl), hopened, hbefore, hsingle, ?_⟩
    simp only [hs, Stopper.tears] at htorn ⊢
    omega

/-- No `stop` has begun. -/
theorem Threads.toClose_of_open (ht : Threads s) (hopen : s.isStopped = false) :
    s.stopper.toClose = ∅ := by
  have htorn := ht.torn
  rw [hopen, Bool.toNat_false] at htorn
  cases hs : s.stopper with
  | closing walk =>
    rw [hs, Stopper.tears] at htorn
    omega
  | _ => rfl

/-- Once `stop` is behind a stripe, the server is stopped. -/
theorem Threads.stopped_of_past (ht : Threads s) {n : Nat} (hn : n < s.stopper.past) :
    s.state = .stopped := by
  refine ht.stored ?_
  cases hs : s.stopper with
  | none | begun =>
    rw [hs] at hn
    exact absurd hn (Nat.not_lt_zero n)
  | _ => rfl

/-- Nothing happens to the connections, to the tracker and to what was collected. -/
structure Quiet (s s' : Server) : Prop where
  conns : s'.conns = s.conns
  active : s'.active = s.active
  table : s'.allSockets = s.allSockets
  marks : s'.idleSockets = s.idleSockets
  closes : s'.closes = s.closes
  cancels : s'.cancels = s.cancels
  between : s'.between = s.between
  toClose : s'.reactor.toClose = s.reactor.toClose
  stopClose : s'.stopper.toClose = s.stopper.toClose
  toCancel : s'.reactor.toCancel = s.reactor.toCancel
  state : s'.state = .shuttingDown → s.state = .shuttingDown
  past : s'.stopper.past ≤ s.stopper.past
  cancelPast : s'.state = .shuttingDown → s'.cancelPast ≤ s.cancelPast
  early : s'.early → s.early

/-- A turn of a thread leaves the connections where they are. -/
theorem Turn.quiet (h : Turn s s') (ht : Threads s) : Quiet s s' := by
  cases h with
  | stop hstopped =>
    have hnone := ht.toClose_of_open hstopped
    constructor <;> first | rfl | exact fun h => h | grind
  | finishLate hr | finishFirst hr =>
    obtain ⟨hcancel, hclose⟩ := Reactor.collected_of_ends hr
    have hpast := cancelPast_of_ends hr
    constructor <;> first | rfl | exact fun h => h | grind [Server.early]
  | again hr =>
    rcases hr with hr | hr <;> constructor <;>
      first | rfl | exact fun h => h | grind [Server.early]
  | _ => constructor <;> first | rfl | exact fun h => h | grind [Server.early]

/-- A quiet turn closes no connection. -/
theorem Quiet.closed_iff (hq : Quiet s s') (id : Nat) : s'.Closed id ↔ s.Closed id := by
  rw [Server.Closed, Server.Closed, hq.closes, hq.toClose, hq.stopClose]

/-- A quiet turn cancels no connection. -/
theorem Quiet.cancelled_iff (hq : Quiet s s') (id : Nat) : s'.Cancelled id ↔ s.Cancelled id := by
  rw [Server.Cancelled, Server.Cancelled, hq.cancels, hq.toCancel]

/-! ## The tracker -/

@[grind =]
theorem mem_stripe {k id : Nat} {ids : Finset Nat} :
    id ∈ stripe k ids ↔ id ∈ ids ∧ id % stripes = k := Finset.mem_filter

/-- What holds of a connection that stands here. -/
structure Local (s : Server) (id : Nat) (p : Phase) : Prop where
  entry : id ∈ s.allSockets → p.tracked = true ∧ ¬s.Closed id
  kept : p.tracked = true → id ∈ s.allSockets ∨ s.Closed id
  claimed : p = .claimed → ¬s.Closed id
  waiting : p = .waiting → id ∈ s.idleSockets ∨ s.Cancelled id ∨ s.Closed id
  reached : p.inLoop = true → id % stripes < s.stopper.past → s.Closed id
  between : s.state = .shuttingDown → p = .entering → id ∈ s.between
  missed : s.state = .shuttingDown → p = .waiting → id % stripes < s.cancelPast →
    s.Cancelled id ∨ s.Closed id ∨ id ∈ s.between

/-- The tracker, and what the walks have taken from it. -/
structure Tracker (s : Server) : Prop where
  idle : s.idleSockets ⊆ s.allSockets
  known : ∀ id, id ∈ s.allSockets ∨ s.Closed id → id < s.conns.length
  conns : ∀ id p, s.conns[id]? = some p → Local s id p

/-- What a thread may do to a connection: take its entry out to close it, take its mark to
    cancel it, and have it behind itself when it has done so. -/
theorem Local.follow {id : Nat} {p : Phase} (hl : Local s id p)
    (hall : id ∈ s'.allSockets → id ∈ s.allSockets)
    (hclosed : s'.Closed id ↔ s.Closed id ∨ id ∈ s.allSockets ∧ id ∉ s'.allSockets)
    (hidle : id ∈ s.idleSockets → id ∈ s'.idleSockets ∨ s'.Cancelled id ∨ s'.Closed id)
    (hcancel : s.Cancelled id → s'.Cancelled id)
    (hstate : s'.state = .shuttingDown → s.state = .shuttingDown)
    (hbetween : s'.between = s.between)
    (hstop : id % stripes < s'.stopper.past → id % stripes < s.stopper.past ∨ id ∉ s'.allSockets)
    (hmiss : s'.state = .shuttingDown → id % stripes < s'.cancelPast →
      id % stripes < s.cancelPast ∨ id ∉ s'.idleSockets) : Local s' id p where
  entry hin := by
    obtain ⟨htracked, hopen⟩ := hl.entry (hall hin)
    refine ⟨htracked, fun hc => ?_⟩
    rcases hclosed.mp hc with hc | ⟨-, hout⟩
    · exact hopen hc
    · exact hout hin
  kept htracked := by
    rcases hl.kept htracked with hin | hc
    · by_cases hin' : id ∈ s'.allSockets
      · exact .inl hin'
      · exact .inr (hclosed.mpr (.inr ⟨hin, hin'⟩))
    · exact .inr (hclosed.mpr (.inl hc))
  claimed hp hc := by
    rcases hclosed.mp hc with hc | ⟨hin, -⟩
    · exact hl.claimed hp hc
    · have htracked := (hl.entry hin).1
      rw [hp] at htracked
      exact nomatch htracked
  waiting hp := by
    rcases hl.waiting hp with hin | hx | hc
    · exact hidle hin
    · exact .inr (.inl (hcancel hx))
    · exact .inr (.inr (hclosed.mpr (.inl hc)))
  reached hp hpast := by
    rcases hstop hpast with hold | hout
    · exact hclosed.mpr (.inl (hl.reached hp hold))
    · rcases hl.kept (by cases p <;> first | rfl | exact nomatch hp) with hin | hc
      · exact hclosed.mpr (.inr ⟨hin, hout⟩)
      · exact hclosed.mpr (.inl hc)
  between hs hp := hbetween ▸ hl.between (hstate hs) hp
  missed hs hp hpast := by
    rw [hbetween]
    rcases hmiss hs hpast with hold | hout
    · rcases hl.missed (hstate hs) hp hold with hx | hc | hb
      · exact .inl (hcancel hx)
      · exact .inr (.inl (hclosed.mpr (.inl hc)))
      · exact .inr (.inr hb)
    · rcases hl.waiting hp with hin | hx | hc
      · rcases hidle hin with hin' | hx | hc
        · exact absurd hin' hout
        · exact .inl hx
        · exact .inr (.inl hc)
      · exact .inl (hcancel hx)
      · exact .inr (.inl (hclosed.mpr (.inl hc)))

/-- What is known of a connection stays through a quiet turn. -/
theorem Local.quiet {id : Nat} {p : Phase} (hl : Local s id p) (hq : Quiet s s') :
    Local s' id p := by
  have htable : id ∈ s'.allSockets ↔ id ∈ s.allSockets := by rw [hq.table]
  refine hl.follow htable.mp ?_ (fun hin => .inl (hq.marks ▸ hin)) (hq.cancelled_iff id).mpr
    hq.state hq.between (fun h => .inl (Nat.lt_of_lt_of_le h hq.past))
    (fun hs h => .inl (Nat.lt_of_lt_of_le h (hq.cancelPast hs)))
  rw [hq.closed_iff]
  exact (or_iff_left fun h => h.2 (htable.mpr h.1)).symm

/-- A connection's step seen from another connection. -/
theorem Local.other {i id : Nat} {q p : Phase} {m : Move} (hm : s.move i q m = some s')
    (hne : id ≠ i) (hl : Local s id p) : Local s' id p := by
  obtain ⟨r, all, idle, active, finishes, rfl, hother⟩ := move_frame hm
  obtain ⟨hall, hmark⟩ := hother id hne
  refine hl.follow hall.mp ?_ (fun hin => .inl (hmark.mpr hin)) (fun h => h) (fun h => h) rfl .inl
    (fun _ => .inl)
  exact (or_iff_left fun h => h.2 (hall.mpr h.1)).symm

/-- A connection's step that leaves its entry alone, to a place where it does not wait. -/
theorem Local.next {i : Nat} {q r : Phase} (hl : Local s i q) (conns : List Phase)
    (idle : Finset Nat) (active finishes : Nat) (htracked : r.tracked = q.tracked)
    (hnew : r ≠ .claimed) (hwaits : r ≠ .waiting)
    (hloop : r.inLoop = true → q.inLoop = true ∨ s.stopper.past = 0)
    (hentering : r = .entering → s.state ≠ .shuttingDown) :
    Local { s with conns, idleSockets := idle, active, finishes } i r where
  entry hin := htracked ▸ hl.entry hin
  kept ht := hl.kept (htracked ▸ ht)
  claimed hr := absurd hr hnew
  waiting hr := absurd hr hwaits
  reached hr hpast := by
    rcases hloop hr with hq | hnone
    · exact hl.reached hq hpast
    · exact absurd (hnone ▸ hpast) (Nat.not_lt_zero _)
  between hs hr := absurd hs (hentering hr)
  missed _ hr := absurd hr hwaits

/-- A connection's step seen from itself. -/
theorem Local.self {i : Nat} {q : Phase} {m : Move} (hm : s.move i q m = some s')
    (ht : Threads s) (hl : Local s i q) : ∃ r, s'.conns = s.conns.set i r ∧ Local s' i r := by
  have hlook : s.state ≠ .stopped → s.stopper.past = 0 := by
    intro hstate
    by_contra hpast
    exact hstate (ht.stopped_of_past (Nat.pos_of_ne_zero hpast))
  unfold Server.move at hm
  split at hm <;> cases hm <;> refine ⟨_, rfl, ?_⟩
  · -- the entry is made
    constructor
    case entry => exact fun _ => ⟨rfl, hl.claimed rfl⟩
    case kept => exact fun _ => .inl (Finset.mem_insert_self i _)
    all_goals exact nofun
  · exact hl.next _ _ _ _ rfl nofun nofun nofun nofun
  · split
    · exact hl.next _ _ _ _ rfl nofun nofun nofun nofun
    next hstate => exact hl.next _ _ _ _ rfl nofun nofun (fun _ => .inr (hlook hstate)) nofun
  · split
    · exact hl.next _ _ _ _ rfl nofun nofun nofun nofun
    · split <;> exact hl.next _ _ _ _ rfl nofun nofun (fun _ => .inl rfl) nofun
  · split
    · exact hl.next _ _ _ _ rfl nofun nofun nofun nofun
    next hstate => exact hl.next _ _ _ _ rfl nofun nofun (fun _ => .inl rfl) (fun _ => hstate)
  · -- the mark is made where the entry still is
    refine ⟨hl.entry, hl.kept, nofun, fun _ => ?_, fun _ => hl.reached rfl, nofun,
      fun hs _ _ => .inr (.inr (hl.between hs rfl))⟩
    rcases hl.kept rfl with hin | hc
    · refine .inl ?_
      simp only [if_pos hin]
      exact Finset.mem_insert_self i _
    · exact .inr (.inr hc)
  · exact hl.next _ _ _ _ rfl nofun nofun (fun _ => .inl rfl) nofun
  · split
    · exact hl.next _ _ _ _ rfl nofun nofun (fun _ => .inl rfl) nofun
    · exact hl.next _ _ _ _ rfl nofun nofun nofun nofun
  · split <;> exact hl.next _ _ _ _ rfl nofun nofun nofun nofun
  · exact hl.next _ _ _ _ rfl nofun nofun nofun nofun
  · exact hl.next _ _ _ _ rfl nofun nofun nofun nofun
  · -- the entry is gone
    constructor
    case entry => exact fun hin => absurd hin (Finset.notMem_erase i _)
    all_goals exact nofun
  · split <;> exact hl.next _ _ _ _ rfl nofun nofun nofun nofun
  · exact hl.next _ _ _ _ rfl nofun nofun nofun nofun

/-- What is known of a connection stays, or changes with its own deed. -/
theorem Local.deed (h : Deed s s') (ht : Threads s) (hk : Tracker s) {id : Nat} {p : Phase}
    (hp : s'.conns[id]? = some p) : Local s' id p := by
  have hidle := hk.idle
  cases h with
  | accept =>
    by_cases hlt : id < s.conns.length
    · rw [getElem?_append_left hlt] at hp
      exact { hk.conns id p hp with }
    · -- a new id is in no table yet
      have hnew : p = .claimed := by
        rw [getElem?_append_right (Nat.le_of_not_lt hlt), getElem?_singleton] at hp
        split at hp
        · exact (Option.some.inj hp).symm
        · exact nomatch hp
      have hout : id ∉ s.allSockets ∧ ¬s.Closed id :=
        not_or.mp fun h => hlt (hk.known id h)
      subst hnew
      constructor
      case entry => exact fun hin => absurd hin hout.1
      case claimed => exact fun _ => hout.2
      all_goals exact nofun
  | move hi hm =>
    rename_i i q m
    by_cases hne : id = i
    · subst hne
      obtain ⟨r, hconns, hl⟩ := (hk.conns id q hi).self hm ht
      rw [hconns, getElem?_set_self (List.getElem?_eq_some_iff.mp hi).1] at hp
      cases hp
      exact hl
    · obtain ⟨r, all, idle, active, finishes, heq, -⟩ := move_frame hm
      rw [heq, getElem?_set_ne (Ne.symm hne)] at hp
      exact (hk.conns id p hp).other hm hne
  | exit hstate =>
    have hl := hk.conns id p hp
    refine { hl with between := fun _ hentering => ?_, missed := fun _ _ hpast => ?_ }
    · rw [mem_filter, mem_range]
      rw [hentering] at hp
      exact ⟨(List.getElem?_eq_some_iff.mp hp).1, decide_eq_true hp⟩
    · exact absurd hpast (Nat.not_lt_zero _)
  | cancelStripe | closeStripe | stopStripe | cancel | close | stopClose =>
    have hl := hk.conns id p hp
    apply hl.follow <;> first | rfl | exact fun h => h | grind

/-- A connection's step keeps the marks in the table and knows its id. -/
theorem Tracker.move (hk : Tracker s) {i : Nat} {q : Phase} {m : Move}
    (hi : s.conns[i]? = some q) (hm : s.move i q m = some s') :
    s'.idleSockets ⊆ s'.allSockets ∧ s'.conns.length = s.conns.length ∧
      ∀ id ∈ s'.allSockets, id ∈ s.allSockets ∨ id = i := by
  have hidle := hk.idle
  unfold Server.move at hm
  split at hm <;> cases hm <;> refine ⟨?_, length_set, ?_⟩ <;> grind [Server.goes]

/-- The tracker's sets fit the phases of the connections after a deed. -/
theorem Tracker.deed (h : Deed s s') (ht : Threads s) (hk : Tracker s) : Tracker s' := by
  refine ⟨?_, ?_, fun id p hp => Local.deed h ht hk hp⟩
  · have hidle := hk.idle
    cases h with
    | move hi hm => exact (hk.move hi hm).1
    | closeStripe | stopStripe | cancelStripe => grind
    | _ => exact hidle
  · have hknown := hk.known
    cases h with
    | move hi hm =>
      obtain ⟨-, hlength, hall⟩ := hk.move hi hm
      obtain ⟨r, all, idle, active, finishes, rfl, -⟩ := move_frame hm
      intro id hid
      rw [hlength]
      rcases hid with hin | hc
      · rcases hall id hin with hold | rfl
        · exact hknown id (.inl hold)
        · exact (List.getElem?_eq_some_iff.mp hi).1
      · exact hknown id (.inr hc)
    | exit => exact hknown
    | _ => grind

/-- They fit them after a quiet turn. -/
theorem Tracker.quiet (hq : Quiet s s') (hk : Tracker s) : Tracker s' where
  idle := by
    rw [hq.marks, hq.table]
    exact hk.idle
  known id hid := by
    rw [hq.table, hq.closed_iff] at hid
    rw [hq.conns]
    exact hk.known id hid
  conns id p hp := by
    rw [hq.conns] at hp
    exact (hk.conns id p hp).quiet hq

/-! ## What was called -/

/-- A callback is called once, and not again when it is collected once more. -/
structure Called (s : Server) : Prop where
  closes : s.closes.Nodup
  closing : ∀ id ∈ s.closes, id ∉ s.reactor.toClose ∧ id ∉ s.stopper.toClose
  apart : ∀ id ∈ s.reactor.toClose, id ∉ s.stopper.toClose
  cancels : s.cancels.Nodup
  cancelling : ∀ id ∈ s.cancels, id ∉ s.reactor.toCancel
  early : s.early → s.cancels = []

/-- A deed calls nothing twice. -/
theorem Called.deed (h : Deed s s') (ht : Threads s) (hk : Tracker s) (hc : Called s) :
    Called s' := by
  have hopen : ∀ id ∈ s.allSockets, ¬s.Closed id := by
    intro id hin
    have hlt := hk.known id (.inl hin)
    exact ((hk.conns id _ (getElem?_eq_getElem hlt)).entry hin).2
  cases h with
  | accept => exact { hc with }
  | move hi hm =>
    obtain ⟨r, all, idle, active, finishes, rfl, -⟩ := move_frame hm
    exact { hc with }
  | exit hstate => exact { hc with early := fun _ => hc.early (.inl hstate) }
  | cancelStripe hr =>
    have hnone : s.cancels = [] := hc.early (.inr (.inr (.inr ⟨_, _, hr⟩)))
    refine { hc with apart := ?_, closing := ?_, cancelling := ?_, early := fun _ => hnone }
    · exact fun id hid => ⟨Finset.notMem_empty id, (hc.closing id hid).2⟩
    · exact fun id hid => absurd hid (Finset.notMem_empty id)
    · rw [hnone]
      exact nofun
  | cancel hr hid =>
    -- the one graceful shutdown is this one
    have hsingle := ht.single
    rw [Server.starting, hr, Reactor.cancels] at hsingle
    have hrun : s.state ≠ .running := by
      intro hrun
      have hnone := (ht.before hrun).1
      rw [Server.starting, hr, Reactor.cancels] at hnone
      omega
    have hexit : s.exiting = false := by
      cases he : s.exiting with
      | false => rfl
      | true =>
        rw [he, Bool.toNat_true] at hsingle
        omega
    obtain ⟨hcloses, hclosing, hapart, hcancels, hcancelling, hearly⟩ := hc
    constructor <;> grind [Server.early]
  | closeStripe hr | stopStripe hr | close hr | stopClose hr =>
    obtain ⟨hcloses, hclosing, hapart, hcancels, hcancelling, hearly⟩ := hc
    constructor <;> first | exact hcloses | exact hcancels | grind [Server.early]

/-- Neither does a quiet turn. -/
theorem Called.quiet (hq : Quiet s s') (hc : Called s) : Called s' := by
  refine ⟨?_, ?_, ?_, ?_, ?_, fun he => ?_⟩
  · rw [hq.closes]
    exact hc.closes
  · rw [hq.closes, hq.toClose, hq.stopClose]
    exact hc.closing
  · rw [hq.toClose, hq.stopClose]
    exact hc.apart
  · rw [hq.cancels]
    exact hc.cancels
  · rw [hq.cancels, hq.toCancel]
    exact hc.cancelling
  · rw [hq.cancels]
    exact hc.early (hq.early he)

/-! ## The counter -/

/-- The counter is the number of connections between its two changes, and when the shutdown
    waits for none of them its end is posted, or about to be. -/
structure Counter (s : Server) : Prop where
  count : s.active = s.conns.countP Phase.counted
  posted : s.waits = true → s.isStopped = false → s.active = 0 →
    0 < s.finishes ∨ ∃ id : Nat, s.conns[id]? = some .last

/-- A connection's step changes the counter as it changes what is counted. -/
theorem move_count {i : Nat} {q : Phase} {m : Move} (hi : s.conns[i]? = some q)
    (hm : s.move i q m = some s') (hcount : s.active = s.conns.countP Phase.counted) :
    s'.active = s'.conns.countP Phase.counted := by
  have hset := countP_set_add hi Phase.counted
  unfold Server.move at hm
  split at hm <;> cases hm <;> simp only [Server.goes] <;> grind [Phase.counted]

/-- The connection that takes the counter to zero is the last one, and the last one posts. -/
theorem move_posted {i : Nat} {q : Phase} {m : Move} (hi : s.conns[i]? = some q)
    (hm : s.move i q m = some s') (hstate : s.state = .shuttingDown)
    (hposted : s.active = 0 → 0 < s.finishes ∨ ∃ id : Nat, s.conns[id]? = some .last)
    (h0 : s'.active = 0) : 0 < s'.finishes ∨ ∃ id : Nat, s'.conns[id]? = some .last := by
  by_cases hzero : s.active = 0
  · rcases hposted hzero with hf | ⟨j, hj⟩
    · left
      unfold Server.move at hm
      split at hm <;> cases hm <;> grind [Server.goes]
    · by_cases hji : j = i
      · -- the last one reads the state
        subst hji
        cases hi.symm.trans hj
        cases m with
        | readState =>
          cases hm
          exact .inl (by simp [hstate])
        | _ => exact nomatch hm
      · obtain ⟨r, all, idle, active, finishes, rfl, -⟩ := move_frame hm
        exact .inr ⟨j, (getElem?_set_ne (Ne.symm hji)).trans hj⟩
  · right
    refine ⟨i, ?_⟩
    unfold Server.move at hm
    split at hm <;> cases hm <;> grind [Server.goes]

/-- `active_connections_` counts the connections after a deed. -/
theorem Counter.deed (h : Deed s s') (ht : Threads s) (hc : Counter s) : Counter s' := by
  obtain ⟨hcount, hposted⟩ := hc
  cases h with
  | accept =>
    refine ⟨?_, fun hw hopen h0 => ?_⟩
    · rw [countP_append, ← hcount]
      rfl
    · refine (hposted hw hopen h0).imp_right fun ⟨id, hid⟩ => ⟨id, ?_⟩
      exact getElem?_append_left (List.getElem?_eq_some_iff.mp hid).1 ▸ hid
  | move hi hm =>
    refine ⟨move_count hi hm hcount, fun hw hopen h0 => ?_⟩
    obtain ⟨r, all, idle, active, finishes, heq, -⟩ := move_frame hm
    have hwait : s.waits = true := by
      rw [heq] at hw
      exact hw
    have hopen' : s.isStopped = false := by
      rw [heq] at hopen
      exact hopen
    have hstate : s.state = .shuttingDown := by
      cases hs : s.state with
      | stopped => exact absurd hs (ht.opened hopen')
      | running => exact nomatch (ht.before hs).2.symm.trans hwait
      | shuttingDown => rfl
    exact move_posted hi hm hstate (hposted hwait hopen') h0
  | _ =>
    refine ⟨hcount, ?_⟩
    grind [Server.waits, Reactor.forces]

/-- It counts them after a turn, and the end of the shutdown is not forgotten. -/
theorem Counter.turn (h : Turn s s') (ht : Threads s) (hc : Counter s) : Counter s' := by
  have hq := h.quiet ht
  refine ⟨?_, ?_⟩
  · rw [hq.active, hq.conns]
    exact hc.count
  · have hposted := hc.posted
    cases h <;> grind [Server.waits, Reactor.forces]

/-! ## Runs -/

/-- All of it together. -/
structure Inv (s : Server) : Prop where
  threads : Threads s
  tracker : Tracker s
  called : Called s
  counter : Counter s

/-- A new server has no connections. -/
theorem init_inv : Inv {} where
  threads := ⟨nofun, nofun, fun _ => ⟨rfl, rfl⟩, Nat.zero_le _, rfl⟩
  tracker := by
    refine ⟨fun _ h => h, fun id hid => ?_, fun id p hp => ?_⟩
    · rcases hid with hin | hc | hc | hc
      · exact absurd hin (Finset.notMem_empty id)
      · exact absurd hc not_mem_nil
      · exact absurd hc (Finset.notMem_empty id)
      · exact absurd hc (Finset.notMem_empty id)
    · have hgone : p = .gone := mem_singleton.mp (mem_of_getElem? hp)
      subst hgone
      constructor
      case entry => exact fun hin => absurd hin (Finset.notMem_empty id)
      all_goals exact nofun
  called := by
    refine ⟨nodup_nil, nofun, fun id hid => ?_, nodup_nil, nofun, fun _ => rfl⟩
    exact absurd hid (Finset.notMem_empty id)
  counter := ⟨rfl, nofun⟩

/-- All of it holds in every reachable state. -/
theorem inv_of_reachable (h : lifecycle.Reachable s) : Inv s := by
  refine h.invariant ?_ ?_
  · rintro s rfl
    exact init_inv
  · rintro s s' ⟨a, ha⟩ hs
    rcases step_cases ha with hd | hturn
    · exact ⟨hs.threads.deed hd, hs.tracker.deed hd hs.threads,
        hs.called.deed hd hs.threads hs.tracker, hs.counter.deed hd hs.threads⟩
    · have hq := hturn.quiet hs.threads
      exact ⟨hs.threads.turn hturn, hs.tracker.quiet hq, hs.called.quiet hq,
        hs.counter.turn hturn hs.threads⟩

/-- In every run each connection is cancelled at most once and closed at most once, and the
    pool is torn down at most once, by `stop` or by the end of a graceful shutdown. -/
theorem called_once (h : lifecycle.Reachable s) :
    s.cancels.Nodup ∧ s.closes.Nodup ∧ s.teardowns ≤ 1 := by
  have hs := inv_of_reachable h
  refine ⟨hs.called.cancels, hs.called.closes, ?_⟩
  have htorn := hs.threads.torn
  have hle := Bool.toNat_le s.isStopped
  omega

/-- When `stop` has made its calls, every connection in its loop was closed, or is about to be
    by the reactor. -/
theorem stop_closes_all (h : lifecycle.Reachable s)
    (hstop : s.stopper = .draining ∨ s.stopper = .done) {id : Nat} {p : Phase}
    (hp : s.conns[id]? = some p) (hloop : p.inLoop = true) :
    id ∈ s.closes ∨ id ∈ s.reactor.toClose := by
  have hlocal := (inv_of_reachable h).tracker.conns id p hp
  have hpast : id % stripes < s.stopper.past := by
    have hlt := Nat.mod_lt id (show 0 < stripes by decide)
    rcases hstop with hs | hs <;> rw [hs] <;> exact hlt
  rcases hlocal.reached hloop hpast with hc | hc | hc
  · exact .inl hc
  · exact .inr hc
  · rcases hstop with hs | hs <;> rw [hs] at hc <;> exact absurd hc (Finset.notMem_empty id)

/-- When `cancel_all_idle` is over, it is behind all stripes and has cancelled what it collected. -/
theorem cancelPast_of_over (hposted : s.exiting = false ∧ s.graceful = 0)
    (hover : s.reactor.cancels = 0 ∨ s.reactor = .cancelling (.calls ∅)) :
    s.cancelPast = stripes ∧ s.reactor.toCancel = ∅ := by
  rw [Server.cancelPast, hposted.1, hposted.2, if_neg (by simp)]
  rcases hover with hr | hr
  · cases h : s.reactor with
    | cancelling walk =>
      rw [h] at hr
      exact absurd hr Nat.one_ne_zero
    | _ => exact ⟨rfl, rfl⟩
  · rw [hr]
    exact ⟨rfl, rfl⟩

/-- When the walk of a graceful shutdown is over, every connection that waits for a request was
    cancelled, or closed after the deadline, unless it was about to mark itself idle at the
    `exit`: it had read the state before. -/
theorem graceful_cancels_idle (h : lifecycle.Reachable s) (hstate : s.state = .shuttingDown)
    (hposted : s.exiting = false ∧ s.graceful = 0)
    (hover : s.reactor.cancels = 0 ∨ s.reactor = .cancelling (.calls ∅)) {id : Nat}
    (hp : s.conns[id]? = some .waiting) :
    id ∈ s.cancels ∨ s.Closed id ∨ id ∈ s.between := by
  have hlocal := (inv_of_reachable h).tracker.conns id _ hp
  obtain ⟨hall, hdone⟩ := cancelPast_of_over hposted hover
  have hpast : id % stripes < s.cancelPast := by
    rw [hall]
    exact Nat.mod_lt id (by decide)
  rcases hlocal.missed hstate rfl hpast with (hx | hx) | hc | hb
  · exact .inl hx
  · rw [hdone] at hx
    exact absurd hx (Finset.notMem_empty id)
  · exact .inr (.inl hc)
  · exact .inr (.inr hb)

/-- While the shutdown waits for connections that are all gone, `finish_shutdown` is posted, or
    the last of them has yet to read the state. -/
theorem finish_posted (h : lifecycle.Reachable s) (hwaits : s.waits = true)
    (hopen : s.isStopped = false) (hgone : ∀ p ∈ s.conns, p.counted = false) :
    0 < s.finishes ∨ ∃ id : Nat, s.conns[id]? = some .last := by
  have hcounter := (inv_of_reachable h).counter
  refine hcounter.posted hwaits hopen ?_
  rw [hcounter.count, countP_eq_zero]
  intro p hp
  rw [hgone p hp]
  exact Bool.false_ne_true

/-- In every run the counter is the number of connections between its two changes, every entry
    of the tracker belongs to a connection that was not closed and is between `register_socket`
    and `unregister_socket`, and is marked only while it is there. -/
theorem tracker_live (h : lifecycle.Reachable s) :
    s.active = s.conns.countP Phase.counted ∧ s.idleSockets ⊆ s.allSockets ∧
      ∀ id ∈ s.allSockets, ¬s.Closed id ∧ ∃ p, s.conns[id]? = some p ∧ p.tracked = true := by
  have hs := inv_of_reachable h
  refine ⟨hs.counter.count, hs.tracker.idle, fun id hin => ?_⟩
  have hget := getElem?_eq_getElem (hs.tracker.known id (.inl hin))
  obtain ⟨htracked, hopen⟩ := (hs.tracker.conns id _ hget).entry hin
  exact ⟨hopen, _, hget, htracked⟩

/-! ## A run -/

/-- The state after a schedule. -/
def after (as : List Action) : Server := (run step {} as).getD {}

theorem after_reachable {as : List Action} (h : (run step {} as).isSome = true) :
    lifecycle.Reachable (after as) := by
  refine reachable_iff.mpr ⟨{}, as, rfl, ?_⟩
  unfold after
  cases hrun : run step {} as with
  | none =>
    rw [hrun] at h
    exact nomatch h
  | some s => rfl

/-- One connection, up to its wait for a request. -/
def toWait : List Action :=
  [.accept, .conn 1 .emplace, .conn 1 .count, .conn 1 .look, .conn 1 (.check true),
    .conn 1 .recheck, .conn 1 .markIdle]

/-- A graceful shutdown that finds the connection waiting. -/
def toDeadline : List Action :=
  toWait ++ [.exit, .post, .startGraceful] ++ List.replicate 17 .cancelStripe
    ++ [.cancel 1, .checkActive]

/-- The connection ends. -/
def toLast : List Action :=
  toDeadline ++ [.conn 1 .returned, .conn 1 (.markActive false), .conn 1 .unregister,
    .conn 1 .uncount]

/-- A `stop` that finds the connection waiting. -/
def toDrained : List Action :=
  toWait ++ [.stop, .storeStopped] ++ List.replicate 17 .stopStripe ++ [.stopClose 1, .drained]

/-- `stop` and the deadline have both run. -/
theorem called_once_stop :
    (after toDrained).cancels.Nodup ∧ (after toDrained).closes.Nodup ∧
      (after toDrained).teardowns ≤ 1 :=
  called_once (after_reachable (by decide))

/-- The connection that waits for a request is closed. -/
theorem stop_closes_all_waiting :
    1 ∈ (after toDrained).closes ∨ 1 ∈ (after toDrained).reactor.toClose :=
  stop_closes_all (after_reachable (by decide)) (.inl (by decide)) (p := .waiting) (by decide) rfl

/-- The connection that waits for a request is cancelled. -/
theorem graceful_cancels_idle_waiting :
    1 ∈ (after toDeadline).cancels ∨ (after toDeadline).Closed 1 ∨
      1 ∈ (after toDeadline).between :=
  graceful_cancels_idle (after_reachable (by decide)) (by decide) (by decide) (.inl (by decide))
    (by decide)

/-- The last connection is gone and yet to look at the state. -/
theorem finish_posted_last :
    0 < (after toLast).finishes ∨ ∃ id : Nat, (after toLast).conns[id]? = some .last :=
  finish_posted (after_reachable (by decide)) (by decide) (by decide) (by decide)

/-- A connection that waits is in both sets. -/
theorem tracker_live_waiting :
    (after toWait).active = (after toWait).conns.countP Phase.counted ∧
      (after toWait).idleSockets ⊆ (after toWait).allSockets ∧
      ∀ id ∈ (after toWait).allSockets, ¬(after toWait).Closed id ∧
        ∃ p, (after toWait).conns[id]? = some p ∧ p.tracked = true :=
  tracker_live (after_reachable (by decide))

end ServerLifecycle
