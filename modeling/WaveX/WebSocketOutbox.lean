import WaveX.History
import WaveX.WebSocketCodec

/-! # The outbox of a WebSocket connection

    `connection::enqueue`, `connection::drain` and `connection::abort` of
    `src/protos/websocket/WebSocket.cpp`.  Senders on any thread append frames to
    `outbox_` under `write_mtx_`, and the one that finds no writer spawns `drain`, which
    swaps the outbox with `writing_` and writes that.

    A critical section is one step, and so is a completed transport write.  Spawning the
    writer happens after the lock is released, so it is a step of its own, and the model
    counts the drains that run instead of assuming that there is one. -/

namespace WebSocketOutbox

open QuicVarInt WebSocketCodec List

/-! ## The write side of a connection -/

/-- `role`. -/
inductive Role where
  | server
  | client
  deriving DecidableEq, Repr

/-- What sending reads of the role and the options of a connection. -/
structure Config where
  role : Role
  maxBufferedAmount : Nat
  deriving DecidableEq, Repr

/-- The fields that `write_mtx_` guards, with `writing_` and `close_sent_`. -/
structure Outbox where
  outbox : Bytes := []
  writing : Bytes := []
  buffered : Nat := 0
  writerActive : Bool := false
  writeFailed : Bool := false
  closeSent : Bool := false
  deriving DecidableEq, Repr

/-- The masking key of a frame: only a client masks, with a random key. -/
def maskFor (cfg : Config) (key : UInt32) : Option UInt32 :=
  if cfg.role = .client then some key else none

/-- `kEncodeUnderLock`. -/
def kEncodeUnderLock : Nat := 16 * 1024

/-- `connection::enqueue` up to the end of its critical section: `none` when it returns
    false, else the fields it leaves and whether this call has to start the writer. -/
def enqueue (cfg : Config) (op : Opcode) (payload : Bytes) (isClose : Bool) (key : UInt32)
    (o : Outbox) : Option (Outbox × Bool) :=
  let mask := maskFor cfg key
  let wireSize := frameSize payload.length mask.isSome
  let large :=
    if payload.length > kEncodeUnderLock then encodeFrame [] op payload true mask else []
  -- nothing may follow our close frame
  if o.writeFailed || o.closeSent then none
  else if !op.isControl && o.buffered + wireSize > cfg.maxBufferedAmount then none
  else
    some ({ o with
      closeSent := if isClose then true else o.closeSent
      buffered := o.buffered + wireSize
      outbox :=
        if large.isEmpty then encodeFrame o.outbox op payload true mask else o.outbox ++ large
      writerActive := true }, !o.writerActive)

/-- The calls that queue a frame.  `read` queues its pongs and closes through the last
    two. -/
inductive Call where
  | sendText (data : Bytes)
  | sendBinary (data : Bytes)
  | ping (payload : Bytes)
  | pong (payload : Bytes)
  | close (code : Nat) (reason : Bytes)
  deriving DecidableEq, Repr

/-- The frame a call queues, `none` when it returns false before `enqueue`. -/
def Call.frame : Call → Option (Opcode × Bytes)
  | .sendText data => some (.text, data)
  | .sendBinary data => some (.binary, data)
  | .ping payload => if payload.length > 125 then none else some (.ping, payload)
  | .pong payload => if payload.length > 125 then none else some (.pong, payload)
  | .close code reason =>
      if !isValidCloseCode code && code != noStatus then none
      else some (.close, closePayload code reason)

/-- Whether a call passes `is_close` to `enqueue`. -/
def Call.isClose : Call → Bool
  | .close _ _ => true
  | _ => false

/-! ## Threads and the writer -/

/-- Where a `drain` stands: before the critical section that takes the outbox, in
    `stream_.write`, or before the critical section that follows the write. -/
inductive Drain where
  | lock
  | write
  | settle (failed : Bool)
  deriving DecidableEq, Repr

/-- A connection with what runs on it: senders that still have to spawn a writer and
    the writers, the frames of the calls that returned true and the bytes the transport
    took. -/
structure Session where
  out : Outbox := {}
  spawning : Nat := 0
  drains : List Drain := []
  accepted : List (Opcode × Bytes) := []
  handed : Bytes := []
  deriving DecidableEq, Repr

/-- `connection::enqueue` with the threads: a call that has to start the writer spawns it
    after the lock. -/
def Session.enqueue (cfg : Config) (s : Session) (op : Opcode) (payload : Bytes) (isClose : Bool)
    (key : UInt32) : Session × Bool :=
  match WebSocketOutbox.enqueue cfg op payload isClose key s.out with
  | none => (s, false)
  | some (out, startWriter) =>
      ({ s with
        out
        spawning := if startWriter then s.spawning + 1 else s.spawning
        accepted := s.accepted ++ [(op, encodeFrame [] op payload true (maskFor cfg key))] }, true)

/-- A call with what it returned. -/
def Session.call (cfg : Config) (s : Session) (c : Call) (key : UInt32) : Session × Bool :=
  match c.frame with
  | none => (s, false)
  | some (op, payload) => s.enqueue cfg op payload c.isClose key

/-- The first critical section of `drain`. -/
def takeOutbox (s : Session) (i : Nat) : Session :=
  if s.out.outbox.isEmpty then
    { s with out := { s.out with writerActive := false }, drains := s.drains.eraseIdx i }
  else
    { s with
      out := { s.out with writing := s.out.outbox, outbox := s.out.writing }
      drains := s.drains.set i .write }

/-- The second critical section of `drain`, after a write. -/
def settleWrite (s : Session) (i : Nat) (failed : Bool) : Session :=
  let o := { s.out with
    buffered := s.out.buffered - min s.out.buffered s.out.writing.length, writing := [] }
  if failed then
    { s with
      out := { o with writeFailed := true, outbox := [], buffered := 0, writerActive := false }
      drains := s.drains.eraseIdx i }
  else { s with out := o, drains := s.drains.set i .lock }

/-- The steps: a call on some thread with the key it drew, the spawn of a writer, the
    critical sections of the `i`-th drain, its write completing (a failed write has taken
    the first `taken` bytes), and `abort`. -/
inductive Action where
  | call (c : Call) (key : UInt32)
  | spawn
  | take (i : Nat)
  | written (i : Nat) (failed : Bool) (taken : Nat)
  | settle (i : Nat)
  | abort
  deriving DecidableEq, Repr

/-- One step, `none` when it is not possible. -/
def step (cfg : Config) (s : Session) : Action → Option Session
  | .call c key => some (s.call cfg c key).1
  | .spawn =>
      if s.spawning = 0 then none
      else some { s with spawning := s.spawning - 1, drains := s.drains ++ [.lock] }
  | .take i => if s.drains[i]? = some .lock then some (takeOutbox s i) else none
  | .written i failed taken =>
      if s.drains[i]? = some .write then
        some { s with
          handed := s.handed ++ if failed then s.out.writing.take taken else s.out.writing
          drains := s.drains.set i (.settle failed) }
      else none
  | .settle i =>
      match s.drains[i]? with
      | some (.settle failed) => some (settleWrite s i failed)
      | _ => none
  | .abort => some { s with
      out := { s.out with writeFailed := true, outbox := [], buffered := 0 } }

/-- The runs of a connection. -/
def sessions (cfg : Config) : System Session where
  init s := s = {}
  next s s' := ∃ a, step cfg s a = some s'

/-- The state after a list of actions. -/
def run (cfg : Config) : Session → List Action → Option Session
  | s, [] => some s
  | s, a :: rest => (step cfg s a).bind (run cfg · rest)

/-! ## What one step does -/

variable {cfg : Config} {s s' : Session} {a : Action}

/-- The bytes of a frame as a connection sends it. -/
def wire (cfg : Config) (op : Opcode) (payload : Bytes) (key : UInt32) : Bytes :=
  encodeFrame [] op payload true (maskFor cfg key)

theorem wire_length (cfg : Config) (op : Opcode) (payload : Bytes) (key : UInt32) :
    (wire cfg op payload key).length = frameSize payload.length (maskFor cfg key).isSome := by
  rw [wire, encodeFrame_length, length_nil, Nat.zero_add]

/-- An accepted frame is appended to the outbox and counted with the size it has there,
    on whichever side of the lock it was encoded. -/
theorem enqueue_accepts {op : Opcode} {payload : Bytes} {isClose startWriter : Bool} {key : UInt32}
    {o out : Outbox} (h : enqueue cfg op payload isClose key o = some (out, startWriter)) :
    o.writeFailed = false ∧ o.closeSent = false ∧ startWriter = !o.writerActive ∧
      out = { o with
        closeSent := isClose
        buffered := o.buffered + (wire cfg op payload key).length
        outbox := o.outbox ++ wire cfg op payload key
        writerActive := true } := by
  have happend : (if (if payload.length > kEncodeUnderLock
        then encodeFrame [] op payload true (maskFor cfg key) else []).isEmpty
      then encodeFrame o.outbox op payload true (maskFor cfg key)
      else o.outbox ++ (if payload.length > kEncodeUnderLock
        then encodeFrame [] op payload true (maskFor cfg key) else [])) =
      o.outbox ++ wire cfg op payload key := by
    rw [wire, encodeFrame_out o.outbox]
    by_cases hlarge : payload.length > kEncodeUnderLock
    · rw [if_pos hlarge]
      split <;> rfl
    · rw [if_neg hlarge]
      rfl
  rw [enqueue] at h
  simp only [happend] at h
  split at h
  · cases h
  · next hopen =>
      rw [Bool.or_eq_true, not_or, Bool.not_eq_true, Bool.not_eq_true] at hopen
      split at h
      · cases h
      · rw [Option.some.injEq, Prod.mk.injEq] at h
        refine ⟨hopen.1, hopen.2, h.2.symm, ?_⟩
        rw [← h.1, wire_length, hopen.2]
        cases isClose <;> rfl

/-- The session after `enqueue`: unchanged when it returns false. -/
theorem enqueue_session (cfg : Config) (s : Session) (op : Opcode) (payload : Bytes) (isClose : Bool)
    (key : UInt32) :
    s.enqueue cfg op payload isClose key = (s, false) ∨
      (s.out.writeFailed = false ∧ s.out.closeSent = false ∧
        s.enqueue cfg op payload isClose key =
          ({ s with
            out := { s.out with
              closeSent := isClose
              buffered := s.out.buffered + (wire cfg op payload key).length
              outbox := s.out.outbox ++ wire cfg op payload key
              writerActive := true }
            spawning := if s.out.writerActive then s.spawning else s.spawning + 1
            accepted := s.accepted ++ [(op, wire cfg op payload key)] }, true)) := by
  cases hq : enqueue cfg op payload isClose key s.out with
  | none =>
      refine .inl ?_
      rw [Session.enqueue, hq]
  | some r =>
      obtain ⟨out, startWriter⟩ := r
      obtain ⟨hfailed, hclose, hstart, hout⟩ := enqueue_accepts hq
      refine .inr ⟨hfailed, hclose, ?_⟩
      rw [Session.enqueue, hq, hout, hstart, wire]
      cases s.out.writerActive <;> rfl

/-- A control frame is accepted as long as no close was sent and no write has failed. -/
theorem enqueue_control (cfg : Config) {s : Session} {op : Opcode} (hop : op.isControl = true)
    (hfailed : s.out.writeFailed = false) (hclose : s.out.closeSent = false) (payload : Bytes)
    (isClose : Bool) (key : UInt32) :
    (s.enqueue cfg op payload isClose key).2 = true := by
  rw [Session.enqueue, enqueue]
  simp only [hfailed, hclose, hop]
  rfl

/-- What a step can do.  The drain that moves is in the list of drains. -/
theorem step_cases (h : step cfg s a = some s') :
    s' = s ∨
    (∃ op payload isClose key, (isClose = false → op ≠ .close) ∧
      s.out.writeFailed = false ∧ s.out.closeSent = false ∧
      s' = { s with
        out := { s.out with
          closeSent := isClose
          buffered := s.out.buffered + (wire cfg op payload key).length
          outbox := s.out.outbox ++ wire cfg op payload key
          writerActive := true }
        spawning := if s.out.writerActive then s.spawning else s.spawning + 1
        accepted := s.accepted ++ [(op, wire cfg op payload key)] }) ∨
    (s.spawning ≠ 0 ∧
      s' = { s with spawning := s.spawning - 1, drains := s.drains ++ [.lock] }) ∨
    (∃ i, s.drains[i]? = some .lock ∧ s' = takeOutbox s i) ∨
    (∃ i failed taken, s.drains[i]? = some .write ∧
      s' = { s with
        handed := s.handed ++ if failed then s.out.writing.take taken else s.out.writing
        drains := s.drains.set i (.settle failed) }) ∨
    (∃ i failed, s.drains[i]? = some (.settle failed) ∧ s' = settleWrite s i failed) ∨
    s' = { s with out := { s.out with writeFailed := true, outbox := [], buffered := 0 } } := by
  cases a with
  | call c key =>
      rw [step, Option.some.injEq] at h
      rw [← h, Session.call]
      cases hframe : c.frame with
      | none => exact .inl rfl
      | some f =>
          obtain ⟨op, payload⟩ := f
          simp only
          rcases enqueue_session cfg s op payload c.isClose key with hsame | ⟨hfailed, hclose, haccept⟩
          · exact .inl (congrArg Prod.fst hsame)
          · refine .inr (.inl ⟨op, payload, c.isClose, key, ?_, hfailed, hclose, ?_⟩)
            · intro hnot hop
              rw [hop] at hframe
              cases c with
              | close code reason => cases hnot
              | sendText data => cases hframe
              | sendBinary data => cases hframe
              | ping p =>
                  rw [Call.frame] at hframe
                  split at hframe <;> cases hframe
              | pong p =>
                  rw [Call.frame] at hframe
                  split at hframe <;> cases hframe
            · exact congrArg Prod.fst haccept
  | spawn =>
      rw [step] at h
      split at h
      · cases h
      · next hspawn => exact .inr (.inr (.inl ⟨hspawn, (Option.some.inj h).symm⟩))
  | take i =>
      rw [step] at h
      split at h
      · next hi => exact .inr (.inr (.inr (.inl ⟨i, hi, (Option.some.inj h).symm⟩)))
      · cases h
  | written i failed taken =>
      rw [step] at h
      split at h
      · next hi =>
          exact .inr (.inr (.inr (.inr (.inl ⟨i, failed, taken, hi, (Option.some.inj h).symm⟩))))
      · cases h
  | settle i =>
      rw [step] at h
      split at h
      · next failed hi =>
          exact .inr (.inr (.inr (.inr (.inr (.inl ⟨i, failed, hi, (Option.some.inj h).symm⟩)))))
      · cases h
  | abort => exact .inr (.inr (.inr (.inr (.inr (.inr (Option.some.inj h).symm)))))

/-! ## The invariant -/

/-- The frames of the calls that returned true, one after the other. -/
def Session.frames (s : Session) : Bytes := (s.accepted.map Prod.snd).flatten

/-- The bytes of a write that has not completed. -/
def Session.beingWritten (s : Session) : Bytes :=
  if s.drains = [.write] then s.out.writing else []

/-- The invariant.  While nothing failed, what was handed over, what is being written and
    the outbox are together all accepted frames. -/
structure Sound (s : Session) : Prop where
  writers : s.drains.length + s.spawning = if s.out.writerActive then 1 else 0
  served : s.out.outbox ≠ [] → s.out.writerActive = true
  swapped : s.drains = [] ∨ s.drains = [.lock] → s.out.writing = []
  counted : s.out.writeFailed = false →
    s.out.buffered = s.out.outbox.length + s.out.writing.length
  cleared : s.out.writeFailed = true → s.out.outbox = []
  ordered : s.handed ++ s.beingWritten <+: s.frames
  whole : s.out.writeFailed = false → s.drains ≠ [.settle true] →
    s.handed ++ s.beingWritten ++ s.out.outbox = s.frames
  unclosed : s.out.closeSent = false → ∀ f ∈ s.accepted, f.1 ≠ .close
  closed : ∀ f ∈ s.accepted.dropLast, f.1 ≠ .close

/-- Nothing is queued at first. -/
theorem initial_sound : Sound {} := by
  constructor <;> simp [Session.beingWritten, Session.frames]

namespace Sound

variable (hs : Sound s)

include hs

/-- The drain that moves is the only one. -/
theorem only {i : Nat} {d : Drain} (hi : s.drains[i]? = some d) :
    i = 0 ∧ s.drains = [d] ∧ s.spawning = 0 ∧ s.out.writerActive = true := by
  have hwriters := hs.writers
  obtain ⟨hlt, hget⟩ := List.getElem?_eq_some_iff.mp hi
  have hactive : s.out.writerActive = true := by
    by_contra hidle
    rw [if_neg hidle] at hwriters
    omega
  rw [if_pos hactive] at hwriters
  obtain ⟨e, he⟩ := length_eq_one_iff.mp (show s.drains.length = 1 by omega)
  obtain rfl : i = 0 := by omega
  rw [he] at hi
  refine ⟨rfl, ?_, by omega, hactive⟩
  rw [he, Option.some.inj hi]

/-- A frame is accepted. -/
theorem accept (op : Opcode) (bytes : Bytes) (isClose : Bool) (hop : isClose = false → op ≠ .close)
    (hfailed : s.out.writeFailed = false) (hclose : s.out.closeSent = false) :
    Sound { s with
      out := { s.out with
        closeSent := isClose
        buffered := s.out.buffered + bytes.length
        outbox := s.out.outbox ++ bytes
        writerActive := true }
      spawning := if s.out.writerActive then s.spawning else s.spawning + 1
      accepted := s.accepted ++ [(op, bytes)] } := by
  have hframes : ((s.accepted ++ [(op, bytes)]).map Prod.snd).flatten = s.frames ++ bytes := by
    rw [map_append, flatten_append, Session.frames]
    simp
  constructor
  case writers =>
    have hwriters := hs.writers
    cases hactive : s.out.writerActive with
    | false =>
        rw [hactive] at hwriters
        simp only [Bool.false_eq_true, if_false, if_true] at hwriters ⊢
        omega
    | true =>
        rw [hactive] at hwriters
        simpa using hwriters
  case served => exact fun _ => rfl
  case swapped => exact hs.swapped
  case counted =>
    intro _
    have hcounted := hs.counted hfailed
    simp only [length_append]
    omega
  case cleared =>
    intro h
    rw [show s.out.writeFailed = true from h] at hfailed
    cases hfailed
  case ordered =>
    rw [Session.frames, hframes]
    exact hs.ordered.trans (prefix_append _ _)
  case whole =>
    intro _ hdrains
    rw [Session.frames, hframes, ← hs.whole hfailed hdrains, append_assoc _ s.out.outbox]
    rfl
  case unclosed =>
    intro hopen f hf
    rcases mem_append.mp hf with hold | hnew
    · exact hs.unclosed hclose f hold
    · rw [mem_singleton.mp hnew]
      exact hop hopen
  case closed =>
    simp only [dropLast_concat]
    exact hs.unclosed hclose

/-- A writer is spawned. -/
theorem spawn (hspawn : s.spawning ≠ 0) :
    Sound { s with spawning := s.spawning - 1, drains := s.drains ++ [.lock] } := by
  have hwriters := hs.writers
  -- the writer counts as active since its sender left the lock, so no other drain runs
  have hone : s.spawning = 1 ∧ s.drains = [] ∧ s.out.writerActive = true := by
    cases hactive : s.out.writerActive with
    | false =>
        rw [hactive] at hwriters
        simp at hwriters
        omega
    | true =>
        rw [hactive, if_pos rfl] at hwriters
        exact ⟨by omega, length_eq_zero_iff.mp (by omega), rfl⟩
  obtain ⟨hspawning, hdrains, hactive⟩ := hone
  have hwhole := hs.whole
  have hordered := hs.ordered
  simp only [Session.beingWritten, hdrains] at hwhole hordered
  constructor
  case writers => simp [hspawning, hdrains, hactive]
  case served => exact hs.served
  case swapped => exact fun _ => hs.swapped (.inl hdrains)
  case counted => exact hs.counted
  case cleared => exact hs.cleared
  case ordered => simpa [Session.beingWritten, Session.frames, hdrains] using hordered
  case whole =>
    intro hfailed _
    simpa [Session.beingWritten, Session.frames, hdrains] using hwhole hfailed (by simp)
  case unclosed => exact hs.unclosed
  case closed => exact hs.closed

/-- A drain takes the outbox, or stops when there is nothing to write. -/
theorem take {i : Nat} (hi : s.drains[i]? = some .lock) : Sound (takeOutbox s i) := by
  obtain ⟨rfl, hdrains, hspawning, hactive⟩ := hs.only hi
  have hwriting : s.out.writing = [] := hs.swapped (.inr hdrains)
  have hordered := hs.ordered
  have hwhole := hs.whole
  simp only [Session.beingWritten, hdrains] at hordered hwhole
  rw [takeOutbox]
  split
  · next hempty =>
      have hout : s.out.outbox = [] := List.isEmpty_iff.mp hempty
      constructor
      case writers => simp [hdrains, hspawning]
      case served => exact fun h => absurd hout h
      case swapped => exact fun _ => hwriting
      case counted => exact hs.counted
      case cleared => exact hs.cleared
      case ordered => simpa [Session.beingWritten, Session.frames, hdrains] using hordered
      case whole =>
        intro hfailed _
        simpa [Session.beingWritten, Session.frames, hdrains] using hwhole hfailed (by simp)
      case unclosed => exact hs.unclosed
      case closed => exact hs.closed
  · next hfull =>
      have hfull' : s.out.outbox ≠ [] := fun h => hfull (List.isEmpty_iff.mpr h)
      have hfine : s.out.writeFailed = false := by
        by_contra hfailed
        exact hfull' (hs.cleared (Bool.not_eq_false _ ▸ hfailed))
      have hall : s.handed ++ s.out.outbox = s.frames := by
        simpa using hwhole hfine (by simp)
      constructor
      case writers => simpa [hdrains, hspawning] using hactive
      case served => exact fun h => absurd hwriting h
      case swapped => simp [hdrains]
      case counted =>
        intro _
        have hcounted := hs.counted hfine
        simp only
        omega
      case cleared =>
        intro h
        rw [show s.out.writeFailed = true from h] at hfine
        cases hfine
      case ordered =>
        simp only [Session.beingWritten, hdrains, set_cons_zero, if_true]
        rw [hall]
        exact prefix_refl _
      case whole =>
        intro _ _
        simp only [Session.beingWritten, hdrains, set_cons_zero, if_true, hwriting,
          append_nil]
        exact hall
      case unclosed => exact hs.unclosed
      case closed => exact hs.closed

/-- A write completes; a failed one may have taken less than it was given. -/
theorem written {i : Nat} (failed : Bool) (taken : Nat) (hi : s.drains[i]? = some .write) :
    Sound { s with
      handed := s.handed ++ if failed then s.out.writing.take taken else s.out.writing
      drains := s.drains.set i (.settle failed) } := by
  obtain ⟨rfl, hdrains, hspawning, hactive⟩ := hs.only hi
  have hordered := hs.ordered
  have hwhole := hs.whole
  simp only [Session.beingWritten, hdrains, if_true] at hordered hwhole
  constructor
  case writers => simpa [hdrains, hspawning] using hactive
  case served => exact hs.served
  case swapped => simp [hdrains]
  case counted => exact hs.counted
  case cleared => exact hs.cleared
  case ordered =>
    simp only [Session.beingWritten, hdrains, set_cons_zero]
    refine List.IsPrefix.trans ?_ hordered
    cases failed with
    | false => simp
    | true =>
        simp only [if_true]
        simpa using prefix_append_right_inj s.handed |>.mpr (List.take_prefix taken s.out.writing)
  case whole =>
    intro hfailed hok
    simp only [hdrains, set_cons_zero] at hok
    cases failed with
    | true => exact absurd rfl hok
    | false =>
        simpa [Session.beingWritten, Session.frames, hdrains] using hwhole hfailed (by simp)
  case unclosed => exact hs.unclosed
  case closed => exact hs.closed

/-- A drain goes on after a write, or gives up when the write failed. -/
theorem settle {i : Nat} {failed : Bool} (hi : s.drains[i]? = some (.settle failed)) :
    Sound (settleWrite s i failed) := by
  obtain ⟨rfl, hdrains, hspawning, hactive⟩ := hs.only hi
  have hordered := hs.ordered
  have hwhole := hs.whole
  simp only [Session.beingWritten, hdrains] at hordered hwhole
  cases failed with
  | true =>
      rw [settleWrite, if_pos rfl]
      constructor
      case writers => simp [hdrains, hspawning]
      case served => exact fun h => absurd rfl h
      case swapped => exact fun _ => rfl
      case counted => exact fun h => absurd h (by simp)
      case cleared => exact fun _ => rfl
      case ordered => simpa [Session.beingWritten, Session.frames, hdrains] using hordered
      case whole => exact fun h => absurd h (by simp)
      case unclosed => exact hs.unclosed
      case closed => exact hs.closed
  | false =>
      rw [settleWrite, if_neg Bool.false_ne_true]
      constructor
      case writers => simpa [hdrains, hspawning] using hactive
      case served => exact hs.served
      case swapped => exact fun _ => rfl
      case counted =>
        intro hfailed
        have hcounted := hs.counted hfailed
        simp only [length_nil]
        omega
      case cleared => exact hs.cleared
      case ordered => simpa [Session.beingWritten, Session.frames, hdrains] using hordered
      case whole =>
        intro hfailed _
        simpa [Session.beingWritten, Session.frames, hdrains] using hwhole hfailed (by simp)
      case unclosed => exact hs.unclosed
      case closed => exact hs.closed

/-- `abort` drops what is queued. -/
theorem abort : Sound { s with
    out := { s.out with writeFailed := true, outbox := [], buffered := 0 } } where
  writers := hs.writers
  served h := absurd rfl h
  swapped := hs.swapped
  counted h := absurd h (by simp)
  cleared _ := rfl
  ordered := hs.ordered
  whole h := absurd h (by simp)
  unclosed := hs.unclosed
  closed := hs.closed

end Sound

/-- Every step keeps the outbox sound. -/
theorem step_sound (hs : Sound s) (h : step cfg s a = some s') : Sound s' := by
  rcases step_cases h with rfl | ⟨op, payload, isClose, key, hop, hfailed, hclose, rfl⟩ |
    ⟨hspawn, rfl⟩ | ⟨i, hi, rfl⟩ | ⟨i, failed, taken, hi, rfl⟩ | ⟨i, failed, hi, rfl⟩ | rfl
  · exact hs
  · exact hs.accept op _ isClose hop hfailed hclose
  · exact hs.spawn hspawn
  · exact hs.take hi
  · exact hs.written failed taken hi
  · exact hs.settle hi
  · exact hs.abort

/-- It is sound in every reachable state. -/
theorem reachable_sound (h : (sessions cfg).Reachable s) : Sound s := by
  refine h.invariant (I := Sound) ?_ ?_
  · rintro s rfl
    exact initial_sound
  · rintro s s' ⟨a, hstep⟩ hs
    exact step_sound hs hstep

/-- What never goes back: the flags that end sending, and the accepted frames. -/
structure Later (s s' : Session) : Prop where
  closeSent : s'.out.closeSent = false → s.out.closeSent = false
  writeFailed : s'.out.writeFailed = false → s.out.writeFailed = false
  accepted : ∃ more, s'.accepted = s.accepted ++ more

theorem Later.refl (s : Session) : Later s s := ⟨id, id, [], (append_nil _).symm⟩

theorem Later.trans {s₁ s₂ s₃ : Session} (h₁ : Later s₁ s₂) (h₂ : Later s₂ s₃) : Later s₁ s₃ := by
  obtain ⟨a, ha⟩ := h₁.accepted
  obtain ⟨b, hb⟩ := h₂.accepted
  exact ⟨h₁.closeSent ∘ h₂.closeSent, h₁.writeFailed ∘ h₂.writeFailed, a ++ b,
    by rw [hb, ha, append_assoc]⟩

theorem enqueue_later (s : Session) (op : Opcode) (payload : Bytes) (isClose : Bool)
    (key : UInt32) : Later s (s.enqueue cfg op payload isClose key).1 := by
  rcases enqueue_session cfg s op payload isClose key with hsame | ⟨hfailed, hclose, haccept⟩
  · rw [hsame]
    exact .refl s
  · rw [haccept]
    exact ⟨fun _ => hclose, fun _ => hfailed, _, rfl⟩

theorem step_later (h : step cfg s a = some s') : Later s s' := by
  rcases step_cases h with rfl | ⟨op, payload, isClose, key, -, hfailed, hclose, rfl⟩ |
    ⟨-, rfl⟩ | ⟨i, -, rfl⟩ | ⟨i, failed, taken, -, rfl⟩ | ⟨i, failed, -, rfl⟩ | rfl
  · exact .refl s'
  · exact ⟨fun _ => hclose, fun _ => hfailed, _, rfl⟩
  · exact ⟨id, id, [], (append_nil _).symm⟩
  · rw [takeOutbox]
    split <;> exact ⟨id, id, [], (append_nil _).symm⟩
  · exact ⟨id, id, [], (append_nil _).symm⟩
  · rw [settleWrite]
    cases failed with
    | false => exact ⟨id, id, [], (append_nil _).symm⟩
    | true => exact ⟨id, fun h => (by cases h), [], (append_nil _).symm⟩
  · exact ⟨id, fun h => (by cases h), [], (append_nil _).symm⟩

theorem run_reachable {actions : List Action} (h : (sessions cfg).Reachable s)
    (hrun : run cfg s actions = some s') : (sessions cfg).Reachable s' := by
  induction actions generalizing s with
  | nil => rwa [← Option.some.inj hrun]
  | cons a rest ih =>
      obtain ⟨t, ht, hrest⟩ := Option.bind_eq_some_iff.mp hrun
      obtain ⟨s₀, h₀, hsteps⟩ := h
      exact ih ⟨s₀, h₀, hsteps.tail ⟨a, ht⟩⟩ hrest

/-- **The outbox**: in every interleaving the bytes handed over and those being written
    are a prefix of the accepted frames, and until a failure or `abort` these with the
    outbox are all of them; a close frame is the last of them, one drain runs at most, a
    filled outbox has its writer, and `buffered_` is exact until a failure or `abort`. -/
theorem sessions_ordered (cfg : Config) (s : Session) (h : (sessions cfg).Reachable s) :
    s.handed ++ s.beingWritten <+: (s.accepted.map Prod.snd).flatten ∧
      (s.out.writeFailed = false → s.drains ≠ [.settle true] →
        s.handed ++ s.beingWritten ++ s.out.outbox = (s.accepted.map Prod.snd).flatten) ∧
      s.accepted.countP (fun f => f.1 = .close) ≤ 1 ∧
      (∀ before f after, s.accepted = before ++ f :: after → f.1 = .close → after = []) ∧
      s.drains.length ≤ 1 ∧
      (s.out.outbox ≠ [] → s.out.writerActive = true) ∧
      (s.out.writeFailed = false →
        s.out.buffered = s.out.outbox.length + s.out.writing.length) := by
  have hs := reachable_sound h
  refine ⟨hs.ordered, hs.whole, ?_, ?_, ?_, hs.served, hs.counted⟩
  · rcases eq_nil_or_concat s.accepted with hnil | ⟨before, f, hlast⟩
    · simp [hnil]
    · have hbefore : before.countP (fun f => f.1 = .close) = 0 := by
        rw [countP_eq_zero]
        intro g hg
        have hclosed := hs.closed
        rw [hlast, concat_eq_append, dropLast_concat] at hclosed
        simpa using hclosed g hg
      rw [hlast, concat_eq_append, countP_append, hbefore, Nat.zero_add]
      exact countP_le_length
  · intro before f after hsplit hclose
    by_contra hafter
    refine hs.closed f ?_ hclose
    rw [hsplit, dropLast_append_of_ne_nil (cons_ne_nil _ _),
      dropLast_cons_of_ne_nil hafter]
    simp
  · have hwriters := hs.writers
    split at hwriters <;> omega

/-- Two calls, the first of them handed to the transport, and a write under way. -/
def busyActions : List Action :=
  [.call (.sendText (text "a")) 0, .spawn, .take 0, .call (.close 1000 []) 0,
    .written 0 false 0, .settle 0, .take 0]

theorem sessions_ordered_busy :
    ∃ s, run ⟨.server, 100⟩ {} busyActions = some s ∧
      s.handed ++ s.beingWritten ++ s.out.outbox = (s.accepted.map Prod.snd).flatten ∧
      s.handed = wire ⟨.server, 100⟩ .text (text "a") 0 ∧
      s.accepted.length = 2 ∧ s.drains = [.write] := by
  obtain ⟨s, hrun⟩ : ∃ s, run ⟨.server, 100⟩ {} busyActions = some s :=
    Option.isSome_iff_exists.mp (by decide)
  have hshape : (run ⟨.server, 100⟩ {} busyActions).all (fun s => s.out.writeFailed = false ∧
      s.handed = wire ⟨.server, 100⟩ .text (text "a") 0 ∧
      s.accepted.length = 2 ∧ s.drains = [.write]) = true := by decide
  rw [hrun] at hshape
  have hreach : (sessions ⟨.server, 100⟩).Reachable s := run_reachable ⟨{}, rfl, .refl⟩ hrun
  obtain ⟨hfailed, hhanded, hlength, hdrains⟩ := of_decide_eq_true hshape
  have hwhole := (sessions_ordered _ s hreach).2.1 hfailed (by rw [hdrains]; decide)
  exact ⟨s, hrun, hwhole, hhanded, hlength, hdrains⟩

end WebSocketOutbox
