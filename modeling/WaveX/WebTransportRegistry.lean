import Mathlib.Data.List.Perm.Basic
import Mathlib.Data.List.Range
import WaveX.History

/-! # Routing of WebTransport streams

    `session_registry::add`, `remove` and `dispatch_stream` and `session::deliver_stream`
    of `src/protos/webtransport/WebTransport.cpp`.  The registry maps session ids to weak
    references; a stream that names a session which is not there yet is parked in
    `pending_` until the session registers.

    A call is one step.  The session objects change between the calls: they close, their
    channels fill up, and their last owner lets go of them, after which the weak
    reference no longer locks. -/

namespace WebTransportRegistry

open List

/-! ## The registry -/

/-- What the registry sees of a session object. -/
structure SessionObject where
  id : Nat
  closed : Bool := false
  alive : Bool := true
  roomBidi : Bool := true
  roomUni : Bool := true
  deriving DecidableEq, Repr

/-- `pending_stream`; streams are numbered in the order in which they are dispatched. -/
structure PendingStream where
  stream : Nat
  sessionId : Nat
  bidirectional : Bool
  deriving DecidableEq, Repr

/-- A stream handed to a session object, which queued it for the application or closed
    it. -/
structure Delivery where
  stream : Nat
  object : Nat
  queued : Bool
  deriving DecidableEq, Repr

/-- The registry of a connection and what became of the streams: `dispatched` holds the
    session id that each stream named, `removed` the ids of sessions that were removed. -/
structure Registry where
  objects : List SessionObject := []
  sessions : List (Nat × Nat) := []
  pending : List PendingStream := []
  dispatched : List Nat := []
  delivered : List Delivery := []
  refused : List Nat := []
  removed : List Nat := []
  deriving DecidableEq, Repr

/-- `kMaxPendingStreams`. -/
def kMaxPendingStreams : Nat := 32

/-- `is_valid_session_id`. -/
def isValidSessionId (id : Nat) : Bool := id &&& 0x03 = 0x00

/-- `session::deliver_stream`: a closed session, or one whose channel takes nothing more,
    closes the stream. -/
def deliverStream (s : Registry) (object stream : Nat) (bidirectional : Bool) : Delivery :=
  match s.objects[object]? with
  | none => ⟨stream, object, false⟩
  | some o =>
      if o.closed then ⟨stream, object, false⟩
      else ⟨stream, object, if bidirectional then o.roomBidi else o.roomUni⟩

/-- `session_registry::add`. -/
def add (s : Registry) (object id : Nat) : Registry :=
  let ready := s.pending.filter (fun p => p.sessionId = id)
  { s with
    sessions := (id, object) :: s.sessions.filter (fun e => e.1 ≠ id)
    pending := s.pending.filter (fun p => ¬ p.sessionId = id)
    delivered := s.delivered ++
      ready.map (fun p => deliverStream s object p.stream p.bidirectional) }

/-- `session_registry::remove`: the streams parked for the session are dropped. -/
def remove (s : Registry) (id : Nat) : Registry :=
  let orphaned := s.pending.filter (fun p => p.sessionId = id)
  { s with
    sessions := s.sessions.filter (fun e => e.1 ≠ id)
    pending := s.pending.filter (fun p => ¬ p.sessionId = id)
    refused := s.refused ++ orphaned.map PendingStream.stream
    removed := if (s.sessions.lookup id).isSome then id :: s.removed else s.removed }

/-- The session that a registered reference locks. -/
def target (s : Registry) (id : Nat) : Option Nat :=
  (s.sessions.lookup id).bind fun k =>
    (s.objects[k]?).bind fun o => if o.alive then some k else none

/-- `session_registry::dispatch_stream`. -/
def dispatchStream (s : Registry) (id : Nat) (bidirectional : Bool) : Registry :=
  let stream := s.dispatched.length
  let s := { s with dispatched := s.dispatched ++ [id] }
  if !isValidSessionId id then { s with refused := s.refused ++ [stream] }
  else
    match target s id with
    | some k => { s with delivered := s.delivered ++ [deliverStream s k stream bidirectional] }
    | none =>
        -- the stream may have overtaken the CONNECT
        if s.pending.length < kMaxPendingStreams then
          { s with pending := s.pending ++ [⟨stream, id, bidirectional⟩] }
        else { s with refused := s.refused ++ [stream] }

/-! ## Runs -/

/-- The calls, and what happens to the session objects between them. -/
inductive Action where
  | create (id : Nat)
  | close (object : Nat)
  | expire (object : Nat)
  | room (object : Nat) (bidi uni : Bool)
  | add (object : Nat)
  | remove (id : Nat)
  | dispatch (id : Nat) (bidirectional : Bool)
  deriving DecidableEq, Repr

/-- A change of one object, which keeps its id. -/
def changeObject (s : Registry) (object : Nat) (f : SessionObject → SessionObject) : Registry :=
  { s with objects := s.objects.modify object (fun o => { f o with id := o.id }) }

/-- One step, `none` when it is not possible: only a live object can be added. -/
def step (s : Registry) : Action → Option Registry
  | .create id => some { s with objects := s.objects ++ [{ id }] }
  | .close k => some (changeObject s k fun o => { o with closed := true })
  | .expire k => some (changeObject s k fun o => { o with alive := false })
  | .room k bidi uni => some (changeObject s k fun o => { o with roomBidi := bidi, roomUni := uni })
  | .add k =>
      match s.objects[k]? with
      | some o => if o.alive then some (add s k o.id) else none
      | none => none
  | .remove id => some (remove s id)
  | .dispatch id bidirectional => some (dispatchStream s id bidirectional)

/-- The runs in which every step meets a condition. -/
def guarded (G : Registry → Action → Prop) : System Registry where
  init s := s = {}
  next s s' := ∃ a, G s a ∧ step s a = some s'

/-! ## What is claimed -/

/-- The streams by what became of them. -/
def Registry.placed (s : Registry) : List Nat :=
  s.delivered.map Delivery.stream ++ s.refused ++ s.pending.map PendingStream.stream

/-- Every dispatched stream is delivered, refused or pending, and only one of these and
    only once; a delivery goes to a session with the id the stream named; and the streams
    that are pending are few. -/
structure Routed (s : Registry) : Prop where
  once : s.placed.Perm (List.range s.dispatched.length)
  own : ∀ d ∈ s.delivered, (s.objects[d.object]?).map SessionObject.id = s.dispatched[d.stream]?
  bounded : s.pending.length ≤ kMaxPendingStreams

/-- No stream is pending for a session that is registered or has been removed. -/
def Fresh (s : Registry) : Prop :=
  ∀ p ∈ s.pending, s.sessions.lookup p.sessionId = none ∧ p.sessionId ∉ s.removed

/-- A call of `dispatch_stream` that finds no live session for a valid id, while there is
    room in `pending_`. -/
def Parks (s : Registry) (id : Nat) : Prop :=
  isValidSessionId id = true ∧ target s id = none ∧ s.pending.length < kMaxPendingStreams

/-- The condition on a step: a stream that would be parked names a session that has not
    been registered. -/
def Overtakes (s : Registry) : Action → Prop
  | .dispatch id _ => Parks s id → s.sessions.lookup id = none ∧ id ∉ s.removed
  | _ => True

/-! ## The invariant -/

/-- `Routed`, with what keeps it: a pending stream has the id it was dispatched with, and
    an entry refers to an object with its id. -/
structure Sound (s : Registry) : Prop extends Routed s where
  named : ∀ p ∈ s.pending, s.dispatched[p.stream]? = some p.sessionId
  keyed : ∀ e ∈ s.sessions, (s.objects[e.2]?).map SessionObject.id = some e.1

variable {s s' : Registry} {a : Action}

theorem initial_sound : Sound {} where
  once := .refl _
  own d hd := by cases hd
  bounded := Nat.zero_le _
  named p hp := by cases hp
  keyed e he := by cases he

@[simp] theorem deliverStream_stream (s : Registry) (k n : Nat) (b : Bool) :
    (deliverStream s k n b).stream = n := by
  rw [deliverStream]
  repeat' split
  all_goals rfl

@[simp] theorem deliverStream_object (s : Registry) (k n : Nat) (b : Bool) :
    (deliverStream s k n b).object = k := by
  rw [deliverStream]
  repeat' split
  all_goals rfl

/-- Objects may come and change as long as every object keeps its id. -/
theorem Sound.objects (hs : Sound s) {objects : List SessionObject}
    (hid : ∀ k id : Nat, (s.objects[k]?).map SessionObject.id = some id →
      (objects[k]?).map SessionObject.id = some id) :
    Sound { s with objects } where
  once := hs.once
  own d hd := by
    have hown := hs.own d hd
    -- a delivered stream was dispatched, so its object exists
    have hlt : d.stream < s.dispatched.length := by
      rw [← mem_range]
      refine hs.once.mem_iff.mp (mem_append_left _ (mem_append_left _ ?_))
      exact mem_map_of_mem hd
    rw [getElem?_eq_getElem hlt] at hown ⊢
    exact hid _ _ hown
  bounded := hs.bounded
  named := hs.named
  keyed e he := hid _ _ (hs.keyed e he)

theorem create_sound (hs : Sound s) (id : Nat) :
    Sound { s with objects := s.objects ++ [{ id }] } := by
  refine hs.objects ?_
  intro k id' h
  obtain ⟨o, ho, hoid⟩ := Option.map_eq_some_iff.mp h
  rw [getElem?_append_left (List.getElem?_eq_some_iff.mp ho).1, ho]
  exact congrArg some hoid

theorem changeObject_sound (hs : Sound s) (k : Nat) (f : SessionObject → SessionObject) :
    Sound (changeObject s k f) := by
  refine hs.objects ?_
  intro j id h
  rw [getElem?_modify, Option.map_eq_map, Option.map_map, ← h]
  congr 1
  funext o
  simp only [Function.comp]
  split <;> rfl

/-- Streams move from `pending_` to where they are delivered or dropped. -/
theorem placed_move {α : Type*} (f : α → Nat) (q : α → Bool) (delivered refused : List Nat)
    (pending : List α) :
    (delivered ++ (pending.filter q).map f ++ refused ++
        (pending.filter (fun p => !q p)).map f).Perm (delivered ++ refused ++ pending.map f) ∧
      (delivered ++ (refused ++ (pending.filter q).map f) ++
        (pending.filter (fun p => !q p)).map f).Perm (delivered ++ refused ++ pending.map f) := by
  have hsplit : ((pending.filter q).map f ++ (pending.filter (fun p => !q p)).map f).Perm
      (pending.map f) := by
    rw [← map_append]
    exact (filter_append_perm q pending).map f
  constructor
  · rw [append_assoc delivered, append_assoc, append_assoc delivered]
    refine List.Perm.append_left _ ?_
    refine (List.Perm.append_right _ perm_append_comm).trans ?_
    rw [append_assoc]
    exact hsplit.append_left _
  · rw [← append_assoc, append_assoc (delivered ++ refused)]
    exact hsplit.append_left _

variable {sessions : List (Nat × Nat)}

theorem mem_filter_ne {id : Nat} {e : Nat × Nat} (h : e ∈ sessions.filter (fun e => e.1 ≠ id)) :
    e ∈ sessions := (mem_filter.mp h).1

theorem add_sound (hs : Sound s) {k : Nat} {o : SessionObject} (ho : s.objects[k]? = some o) :
    Sound (add s k o.id) where
  once := by
    have hmove := (placed_move PendingStream.stream (fun p => decide (p.sessionId = o.id))
      (s.delivered.map Delivery.stream) s.refused s.pending).1
    refine List.Perm.trans ?_ (hmove.trans hs.once)
    rw [Registry.placed, add]
    simp only [map_append, map_map, Function.comp_def, deliverStream_stream, decide_not]
    exact .refl _
  own d hd := by
    rcases mem_append.mp hd with hold | hnew
    · exact hs.own d hold
    · obtain ⟨p, hp, rfl⟩ := mem_map.mp hnew
      obtain ⟨hpending, hid⟩ := mem_filter.mp hp
      rw [deliverStream_stream, deliverStream_object]
      show (s.objects[k]?).map SessionObject.id = s.dispatched[p.stream]?
      rw [hs.named p hpending, ho, of_decide_eq_true hid]
      rfl
  bounded := Nat.le_trans (length_filter_le _ _) hs.bounded
  named p hp := hs.named p (mem_filter.mp hp).1
  keyed e he := by
    rcases mem_cons.mp he with rfl | hold
    · show (s.objects[k]?).map SessionObject.id = some o.id
      rw [ho]
      rfl
    · exact hs.keyed e (mem_filter_ne hold)

theorem remove_sound (hs : Sound s) (id : Nat) : Sound (remove s id) where
  once := by
    have hmove := (placed_move PendingStream.stream (fun p => decide (p.sessionId = id))
      (s.delivered.map Delivery.stream) s.refused s.pending).2
    refine List.Perm.trans ?_ (hmove.trans hs.once)
    rw [Registry.placed, remove]
    simp only [decide_not]
    exact .refl _
  own := hs.own
  bounded := Nat.le_trans (length_filter_le _ _) hs.bounded
  named p hp := hs.named p (mem_filter.mp hp).1
  keyed e he := hs.keyed e (mem_filter_ne he)

/-- What `dispatch_stream` can do with the stream. -/
theorem dispatchStream_cases (s : Registry) (id : Nat) (b : Bool) :
    (∃ k, target s id = some k ∧
      dispatchStream s id b = { s with
        dispatched := s.dispatched ++ [id]
        delivered := s.delivered ++ [deliverStream s k s.dispatched.length b] }) ∨
    (Parks s id ∧
      dispatchStream s id b = { s with
        dispatched := s.dispatched ++ [id]
        pending := s.pending ++ [⟨s.dispatched.length, id, b⟩] }) ∨
    (¬ Parks s id ∧
      dispatchStream s id b = { s with
        dispatched := s.dispatched ++ [id], refused := s.refused ++ [s.dispatched.length] }) := by
  rw [dispatchStream]
  simp only
  cases hvalid : isValidSessionId id with
  | false =>
      refine .inr (.inr ⟨?_, rfl⟩)
      rintro ⟨h, -⟩
      rw [hvalid] at h
      cases h
  | true =>
      rw [Bool.not_true, if_neg Bool.false_ne_true]
      have hsame : target { s with dispatched := s.dispatched ++ [id] } id = target s id := rfl
      rw [hsame]
      cases htarget : target s id with
      | some k => exact .inl ⟨k, rfl, rfl⟩
      | none =>
          simp only
          split
          · next hroom => exact .inr (.inl ⟨⟨hvalid, htarget, hroom⟩, rfl⟩)
          · next hroom =>
              refine .inr (.inr ⟨?_, rfl⟩)
              rintro ⟨-, -, h⟩
              exact hroom h

theorem mem_of_lookup {id k : Nat} (h : sessions.lookup id = some k) : (id, k) ∈ sessions := by
  obtain ⟨l₁, l₂, hsplit, -⟩ := lookup_eq_some_iff.mp h
  rw [hsplit]
  exact mem_append_right _ mem_cons_self

/-- The session found for an id has that id. -/
theorem target_id (hs : Sound s) {id k : Nat} (h : target s id = some k) :
    (s.objects[k]?).map SessionObject.id = some id := by
  rw [target] at h
  obtain ⟨k', hlookup, hobject⟩ := Option.bind_eq_some_iff.mp h
  obtain ⟨o, ho, halive⟩ := Option.bind_eq_some_iff.mp hobject
  split at halive
  · rw [← Option.some.inj halive]
    exact hs.keyed (id, k') (mem_of_lookup hlookup)
  · cases halive

/-- The number of a new stream joins those of the others. -/
theorem placed_new {old placed : List Nat} {n : Nat} (hold : old.Perm (List.range n))
    (hnew : placed.Perm (old ++ [n])) : placed.Perm (List.range (n + 1)) := by
  rw [range_succ]
  exact hnew.trans (hold.append_right _)

theorem dispatchStream_sound (hs : Sound s) (id : Nat) (b : Bool) :
    Sound (dispatchStream s id b) := by
  have hkeep (d : Delivery) (hd : d ∈ s.delivered) :
      (s.objects[d.object]?).map SessionObject.id = (s.dispatched ++ [id])[d.stream]? := by
    have hlt : d.stream < s.dispatched.length := by
      rw [← mem_range]
      refine hs.once.mem_iff.mp (mem_append_left _ (mem_append_left _ ?_))
      exact mem_map_of_mem hd
    rw [getElem?_append_left hlt]
    exact hs.own d hd
  have hnamed (p : PendingStream) (hp : p ∈ s.pending) :
      (s.dispatched ++ [id])[p.stream]? = some p.sessionId := by
    have hget := hs.named p hp
    rw [getElem?_append_left (List.getElem?_eq_some_iff.mp hget).1]
    exact hget
  have hlength : (s.dispatched ++ [id]).length = s.dispatched.length + 1 := by
    rw [length_append, length_singleton]
  rcases dispatchStream_cases s id b with ⟨k, htarget, hstep⟩ | ⟨hparks, hstep⟩ | ⟨-, hstep⟩
  · rw [hstep]
    refine ⟨⟨?_, ?_, hs.bounded⟩, hnamed, hs.keyed⟩
    · simp only [Registry.placed, hlength]
      refine placed_new hs.once ?_
      rw [map_append, map_singleton, deliverStream_stream, Registry.placed]
      rw [append_assoc, append_assoc, append_assoc, append_assoc]
      refine List.Perm.append_left _ ?_
      rw [← append_assoc s.refused]
      exact perm_append_comm
    · intro d hd
      rcases mem_append.mp hd with hold | hnew
      · exact hkeep d hold
      · rw [mem_singleton.mp hnew, deliverStream_stream, deliverStream_object]
        rw [getElem?_concat_length]
        exact target_id hs htarget
  · rw [hstep]
    refine ⟨⟨?_, hkeep, ?_⟩, ?_, hs.keyed⟩
    · simp only [Registry.placed, hlength]
      refine placed_new hs.once ?_
      rw [map_append, ← append_assoc]
      exact .refl _
    · rw [length_append]
      exact hparks.2.2
    · intro p hp
      rcases mem_append.mp hp with hold | hnew
      · exact hnamed p hold
      · rw [mem_singleton.mp hnew]
        exact getElem?_concat_length
  · rw [hstep]
    refine ⟨⟨?_, hkeep, hs.bounded⟩, hnamed, hs.keyed⟩
    simp only [Registry.placed, hlength]
    refine placed_new hs.once ?_
    rw [Registry.placed, ← append_assoc, append_assoc (_ ++ s.refused),
      append_assoc (_ ++ s.refused)]
    exact perm_append_comm.append_left _

theorem step_sound (hs : Sound s) (h : step s a = some s') : Sound s' := by
  cases a with
  | create id =>
      rw [← Option.some.inj h]
      exact create_sound hs id
  | close k =>
      rw [← Option.some.inj h]
      exact changeObject_sound hs k _
  | expire k =>
      rw [← Option.some.inj h]
      exact changeObject_sound hs k _
  | room k bidi uni =>
      rw [← Option.some.inj h]
      exact changeObject_sound hs k _
  | add k =>
      rw [step] at h
      cases ho : s.objects[k]? with
      | none =>
          rw [ho] at h
          cases h
      | some o =>
          simp only [ho] at h
          split at h
          · rw [← Option.some.inj h]
            exact add_sound hs ho
          · cases h
  | remove id =>
      rw [← Option.some.inj h]
      exact remove_sound hs id
  | dispatch id b =>
      rw [← Option.some.inj h]
      exact dispatchStream_sound hs id b

theorem reachable_sound {G : Registry → Action → Prop} (h : (guarded G).Reachable s) : Sound s := by
  refine h.invariant (I := Sound) ?_ ?_
  · rintro s rfl
    exact initial_sound
  · rintro s s' ⟨a, -, hstep⟩ hs
    exact step_sound hs hstep

/-! ## Streams for sessions that are gone -/

theorem lookup_filter_none {id id' : Nat} (h : sessions.lookup id = none) :
    (sessions.filter (fun e => e.1 ≠ id')).lookup id = none :=
  filter_sublist.lookup_eq_none h

theorem add_fresh (hf : Fresh s) (k id : Nat) : Fresh (add s k id) := by
  intro p hp
  obtain ⟨hpending, hne⟩ := mem_filter.mp hp
  obtain ⟨hlookup, hremoved⟩ := hf p hpending
  refine ⟨?_, hremoved⟩
  show ((id, k) :: s.sessions.filter (fun e => e.1 ≠ id)).lookup p.sessionId = none
  rw [lookup_cons, show (p.sessionId == id) = false by simpa using hne]
  exact lookup_filter_none hlookup

theorem remove_fresh (hf : Fresh s) (id : Nat) : Fresh (remove s id) := by
  intro p hp
  obtain ⟨hpending, hne⟩ := mem_filter.mp hp
  obtain ⟨hlookup, hremoved⟩ := hf p hpending
  refine ⟨lookup_filter_none hlookup, ?_⟩
  show p.sessionId ∉ if (s.sessions.lookup id).isSome then id :: s.removed else s.removed
  split
  · intro hmem
    rcases mem_cons.mp hmem with heq | hold
    · exact of_decide_eq_true hne heq
    · exact hremoved hold
  · exact hremoved

/-- A dispatched stream leaves `pending_` fresh exactly when it may be parked. -/
theorem dispatchStream_fresh (hf : Fresh s) (id : Nat) (b : Bool) :
    Fresh (dispatchStream s id b) ↔
      (Parks s id → s.sessions.lookup id = none ∧ id ∉ s.removed) := by
  rcases dispatchStream_cases s id b with ⟨k, htarget, hstep⟩ | ⟨hparks, hstep⟩ | ⟨hnot, hstep⟩
  · rw [hstep]
    refine ⟨fun _ hparks => ?_, fun _ => hf⟩
    rw [hparks.2.1] at htarget
    cases htarget
  · rw [hstep]
    constructor
    · intro hfresh _
      exact hfresh ⟨s.dispatched.length, id, b⟩
        (mem_append_right _ (mem_singleton.mpr rfl))
    · intro hok p hp
      rcases mem_append.mp hp with hold | hnew
      · exact hf p hold
      · rw [mem_singleton.mp hnew]
        exact hok hparks
  · rw [hstep]
    exact ⟨fun _ hparks => absurd hparks hnot, fun _ => hf⟩

/-- The condition on a step is exact. -/
theorem step_fresh (hf : Fresh s) (h : step s a = some s') : Fresh s' ↔ Overtakes s a := by
  cases a with
  | create id =>
      rw [← Option.some.inj h]
      exact ⟨fun _ => trivial, fun _ => hf⟩
  | close k =>
      rw [← Option.some.inj h]
      exact ⟨fun _ => trivial, fun _ => hf⟩
  | expire k =>
      rw [← Option.some.inj h]
      exact ⟨fun _ => trivial, fun _ => hf⟩
  | room k bidi uni =>
      rw [← Option.some.inj h]
      exact ⟨fun _ => trivial, fun _ => hf⟩
  | add k =>
      rw [step] at h
      cases ho : s.objects[k]? with
      | none =>
          rw [ho] at h
          cases h
      | some o =>
          simp only [ho] at h
          split at h
          · rw [← Option.some.inj h]
            exact ⟨fun _ => trivial, fun _ => add_fresh hf k o.id⟩
          · cases h
  | remove id =>
      rw [← Option.some.inj h]
      exact ⟨fun _ => trivial, fun _ => remove_fresh hf id⟩
  | dispatch id b =>
      rw [← Option.some.inj h]
      exact dispatchStream_fresh hf id b

theorem reachable_fresh (h : (guarded Overtakes).Reachable s) : Fresh s := by
  refine h.invariant (I := Fresh) ?_ ?_
  · rintro s rfl p hp
    cases hp
  · rintro s s' ⟨a, hguard, hstep⟩ hf
    exact (step_fresh hf hstep).mpr hguard

/-- Adding a session delivers every stream that was pending for it. -/
theorem add_delivers {k : Nat} {o : SessionObject} (ho : s.objects[k]? = some o)
    (h : step s (.add k) = some s') (p : PendingStream) (hp : p ∈ s.pending)
    (hid : p.sessionId = o.id) :
    (∃ d ∈ s'.delivered, d.stream = p.stream ∧ d.object = k) ∧ p ∉ s'.pending := by
  rw [step, ho] at h
  simp only at h
  split at h
  · rw [← Option.some.inj h]
    constructor
    · refine ⟨deliverStream s k p.stream p.bidirectional, mem_append_right _ ?_,
        deliverStream_stream .., deliverStream_object ..⟩
      refine mem_map.mpr ⟨p, mem_filter.mpr ⟨hp, decide_eq_true hid⟩, rfl⟩
    · intro hstill
      exact of_decide_eq_true (mem_filter.mp hstill).2 hid
  · cases h

/-- **Routing**: in every run of calls that park only streams which overtook their
    session, the streams are delivered, refused or pending, each in one way and once, few
    are pending, and none of them for a session that is or was registered; adding a
    session delivers what was pending for it.  A call that parks another stream breaks
    this at once. -/
theorem streams_routed (s : Registry) (h : (guarded Overtakes).Reachable s) :
    Routed s ∧ Fresh s ∧
      (∀ k o s', s.objects[k]? = some o → step s (.add k) = some s' → ∀ p ∈ s.pending,
        p.sessionId = o.id →
        (∃ d ∈ s'.delivered, d.stream = p.stream ∧ d.object = k) ∧ p ∉ s'.pending) ∧
      ∀ a s', step s a = some s' → (Fresh s' ↔ Overtakes s a) :=
  ⟨(reachable_sound h).toRouted, reachable_fresh h, fun _ _ _ ho hstep => add_delivers ho hstep,
    fun _ _ => step_fresh (reachable_fresh h)⟩

/-- A stream came before the session it names, which now exists. -/
def earlyStream : Registry where
  objects := [{ id := 0 }]
  pending := [⟨0, 0, true⟩]
  dispatched := [0]

/-- The session registers and gets that stream and another one. -/
theorem streams_routed_early :
    ∃ s, (guarded Overtakes).Reachable s ∧ Routed s ∧
      s.delivered = [⟨0, 0, true⟩, ⟨1, 0, true⟩] := by
  have hfirst : Overtakes {} (.dispatch 0 true) := fun _ => ⟨rfl, not_mem_nil⟩
  have hlast : Overtakes (add earlyStream 0 0) (.dispatch 0 false) := by
    rintro ⟨-, h, -⟩
    cases h
  have hreach : (guarded Overtakes).Reachable
      (dispatchStream (add earlyStream 0 0) 0 false) := by
    refine ⟨{}, rfl, ?_⟩
    exact (((Relation.ReflTransGen.refl.tail ⟨.dispatch 0 true, hfirst, rfl⟩).tail
      ⟨.create 0, trivial, rfl⟩).tail ⟨.add 0, trivial, rfl⟩).tail ⟨.dispatch 0 false, hlast, rfl⟩
  exact ⟨_, hreach, (streams_routed _ hreach).1, by decide⟩

/-- A stream dispatched for a session that has ended is parked for it. -/
theorem removed_session_parks :
    ∃ s, (guarded fun _ _ => True).Reachable s ∧ ¬ Fresh s := by
  refine ⟨dispatchStream (remove (add { objects := [{ id := 0 }] } 0 0) 0) 0 true,
    ⟨{}, rfl, ?_⟩, ?_⟩
  · exact (((Relation.ReflTransGen.refl.tail ⟨.create 0, trivial, rfl⟩).tail
      ⟨.add 0, trivial, rfl⟩).tail ⟨.remove 0, trivial, rfl⟩).tail
        ⟨.dispatch 0 true, trivial, rfl⟩
  · intro hfresh
    exact (hfresh ⟨0, 0, true⟩ (by decide)).2 (by decide)

end WebTransportRegistry
