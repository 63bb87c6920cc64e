import WaveX.WebSocketRead

/-! # The backlog of a WebSocket connection

    What `buffered_` can come to while a peer sends frames and takes none: the loop of
    `read` answers each ping through `enqueue`, whose limit is for data frames only.  A
    connection is the read side, what the last turn of the loop still has to queue, and the
    session of the write side; the application calls `send_text`, `send_binary`, `close` and
    `read`. -/

namespace WebSocketBacklog

open QuicVarInt WebSocketCodec WebSocketOutbox WebSocketRead History List

/-! ## A connection and its peer -/

/-- A connection. -/
structure Connection where
  reader : Reader := {}
  sending : List Send := []
  session : Session := {}

/-- The calls of the application that queue a frame. -/
def isSend : Call → Bool
  | .sendText _ | .sendBinary _ | .close _ _ => true
  | .ping _ | .pong _ => false

/-- Whether an action is a call. -/
def isCall : Action → Bool
  | .call _ _ => true
  | _ => false

/-- The steps: a call of the application, a turn of the loop of `read`, the next frame that
    this turn queues, a `read_some` that completes, and a step of the writer or `abort`. -/
inductive Event where
  | app (c : Call) (key : UInt32)
  | round
  | queue (key : UInt32)
  | fill (a : Arrival)
  | writer (a : Action)

/-- The reader after a `read_some`. -/
def arrived (r : Reader) (a : Arrival) : Reader :=
  match a.error with
  | none => fillBuffer r a.bytes
  | some _ => transportFailed (fillBuffer r a.bytes)

/-- One step, `none` when it is not possible. -/
def step (opts : Options) (cfg : Config) (c : Connection) : Event → Option Connection
  | .app call key =>
      if isSend call then some { c with session := (c.session.call cfg call key).1 } else none
  | .round =>
      if c.sending ≠ [] then none
      else
        match readRound opts c.reader with
        | .returned _ r sends => some { c with reader := r, sending := sends }
        | .again r sends => some { c with reader := r, sending := sends }
        | .fill => none
  | .queue key =>
      match c.sending with
      | [] => none
      | x :: rest =>
          some { c with sending := rest, session := (perform cfg key c.session x).1 }
  | .fill a =>
      if c.sending ≠ [] ∨ readRound opts c.reader ≠ .fill then none
      else some { c with reader := arrived c.reader a }
  | .writer a =>
      if isCall a then none
      else (WebSocketOutbox.step cfg c.session a).map fun session => { c with session }

/-- The runs of a connection, from what is left of the handshake. -/
def connections (opts : Options) (cfg : Config) : System Connection where
  init c := ∃ leftover, c = { reader := { rbuf := leftover } }
  next c c' := ∃ e, step opts cfg c e = some c'

/-- The connection after these steps. -/
def run (opts : Options) (cfg : Config) : Connection → List Event → Option Connection
  | c, [] => some c
  | c, e :: rest => (step opts cfg c e).bind (run opts cfg · rest)

/-- The size of the largest control frame. -/
def maxControlFrame (cfg : Config) : Nat := frameSize 125 (maskFor cfg 0).isSome

/-- The bound: one pong frame and one close frame over the limit. -/
def PeerBounded (opts : Options) (cfg : Config) : Prop :=
  ∀ c, (connections opts cfg).Reachable c →
    c.session.out.buffered ≤
      cfg.maxBufferedAmount + maxControlFrame cfg + maxControlFrame cfg

/-! ## Frames -/

/-- The bytes of frames. -/
def bytesOf (frames : List (Opcode × Bytes)) : Bytes := (frames.map Prod.snd).flatten

/-- The frames of one opcode. -/
def ofKind (op : Opcode) (frames : List (Opcode × Bytes)) : List (Opcode × Bytes) :=
  frames.filter fun f => decide (f.1 = op)

/-- The data frames. -/
def dataOf (frames : List (Opcode × Bytes)) : List (Opcode × Bytes) :=
  frames.filter fun f => !f.1.isControl

@[simp] theorem bytesOf_nil : bytesOf [] = [] := rfl

@[simp] theorem bytesOf_cons (f : Opcode × Bytes) (frames : List (Opcode × Bytes)) :
    bytesOf (f :: frames) = f.2 ++ bytesOf frames := rfl

@[simp] theorem bytesOf_append (front back : List (Opcode × Bytes)) :
    bytesOf (front ++ back) = bytesOf front ++ bytesOf back := by
  rw [bytesOf, map_append, flatten_append]
  rfl

theorem dataOf_append (front back : List (Opcode × Bytes)) :
    dataOf (front ++ back) = dataOf front ++ dataOf back := filter_append ..

theorem bytesOf_filter_le (p : Opcode × Bytes → Bool) (frames : List (Opcode × Bytes)) :
    (bytesOf (frames.filter p)).length ≤ (bytesOf frames).length := by
  induction frames with
  | nil => exact Nat.le_refl _
  | cons f frames ih =>
    rw [bytesOf_cons, length_append]
    cases hf : p f with
    | false =>
      rw [filter_cons_of_neg (by rw [hf]; exact Bool.false_ne_true)]
      omega
    | true =>
      rw [filter_cons_of_pos hf, bytesOf_cons, length_append]
      omega

/-- What these connections send: data, pongs of at most 125 bytes of payload, and closes. -/
def Sendable (cfg : Config) (f : Opcode × Bytes) : Prop :=
  (f.1.isControl = true → f.1 = .pong ∨ f.1 = .close) ∧
    (f.1 = .pong → f.2.length ≤ maxControlFrame cfg)

variable {cfg : Config}

/-- The bytes of such frames are the data, the pongs and the closes. -/
theorem bytesOf_kinds {frames : List (Opcode × Bytes)} (h : ∀ f ∈ frames, Sendable cfg f) :
    (bytesOf frames).length = (bytesOf (dataOf frames)).length +
      (bytesOf (ofKind .pong frames)).length + (bytesOf (ofKind .close frames)).length := by
  induction frames with
  | nil => rfl
  | cons f frames ih =>
    have ih' := ih fun g hg => h g (mem_cons_of_mem _ hg)
    obtain ⟨op, bytes⟩ := f
    have hop := (h (op, bytes) mem_cons_self).1
    rw [bytesOf_cons, length_append, ih']
    cases op with
    | continuation => simp [dataOf, ofKind, Opcode.isControl, Opcode.toNibble]; omega
    | text => simp [dataOf, ofKind, Opcode.isControl, Opcode.toNibble]; omega
    | binary => simp [dataOf, ofKind, Opcode.isControl, Opcode.toNibble]; omega
    | close => simp [dataOf, ofKind, Opcode.isControl, Opcode.toNibble]; omega
    | ping =>
      rcases hop (by decide : Opcode.ping.isControl = true) with h | h
      · cases h
      · cases h
    | pong => simp [dataOf, ofKind, Opcode.isControl, Opcode.toNibble]; omega

/-! ## What is queued -/

/-- The frames that are queued: those of a write that has not been settled, and those of the
    outbox.  The data among them is within the limit. -/
structure Backlog (cfg : Config) (s : Session) : Prop where
  failed : s.out.writeFailed = true → s.out.buffered = 0
  held : s.out.writeFailed = false → ∃ written inWriting inOutbox,
    s.accepted = written ++ inWriting ++ inOutbox ∧ bytesOf inWriting = s.out.writing ∧
      bytesOf inOutbox = s.out.outbox ∧
      (bytesOf (dataOf (inWriting ++ inOutbox))).length ≤ cfg.maxBufferedAmount

theorem initial_backlog (cfg : Config) : Backlog cfg {} where
  failed _ := rfl
  held _ := ⟨[], [], [], rfl, rfl, rfl, Nat.zero_le _⟩

/-- A data frame is accepted within the limit. -/
theorem enqueue_limit {op : Opcode} {payload : Bytes} {isClose startWriter : Bool} {key : UInt32}
    {o out : Outbox} (h : enqueue cfg op payload isClose key o = some (out, startWriter))
    (hop : op.isControl = false) :
    o.buffered + (wire cfg op payload key).length ≤ cfg.maxBufferedAmount := by
  rw [wire_length]
  rw [enqueue] at h
  split at h
  · cases h
  · split at h
    · cases h
    · next hlimit =>
      rw [hop] at hlimit
      simpa using hlimit

/-- A frame that is accepted keeps the data within the limit. -/
theorem enqueue_backlog {s : Session} (hs : Sound s) (hb : Backlog cfg s) {op : Opcode}
    (payload : Bytes) {isClose : Bool} (key : UInt32) (hop : isClose = false → op ≠ .close) :
    Sound (s.enqueue cfg op payload isClose key).1 ∧
      Backlog cfg (s.enqueue cfg op payload isClose key).1 ∧
      ((s.enqueue cfg op payload isClose key).1.accepted = s.accepted ∨
        (s.enqueue cfg op payload isClose key).1.accepted =
          s.accepted ++ [(op, wire cfg op payload key)]) := by
  rcases enqueue_session cfg s op payload isClose key with hsame | ⟨hfailed, hclose, haccept⟩
  · rw [hsame]
    exact ⟨hs, hb, .inl rfl⟩
  · have hlimit : op.isControl = false →
        s.out.buffered + (wire cfg op payload key).length ≤ cfg.maxBufferedAmount := by
      intro hdata
      cases hq : enqueue cfg op payload isClose key s.out with
      | none =>
        rw [Session.enqueue, hq] at haccept
        cases (Prod.mk.inj haccept).2
      | some r => exact enqueue_limit hq hdata
    rw [haccept]
    refine ⟨hs.accept op _ isClose hop hfailed hclose, ⟨?_, ?_⟩, .inr rfl⟩
    · intro h
      rw [show s.out.writeFailed = true from h] at hfailed
      cases hfailed
    · intro _
      obtain ⟨written, inWriting, inOutbox, haccepted, hwriting, houtbox, hdata⟩ := hb.held hfailed
      refine ⟨written, inWriting, inOutbox ++ [(op, wire cfg op payload key)], ?_, hwriting, ?_, ?_⟩
      · dsimp only
        rw [haccepted, append_assoc _ inOutbox]
      · dsimp only
        rw [bytesOf_append, houtbox, bytesOf_cons, bytesOf_nil, append_nil]
      · rw [← append_assoc, dataOf_append, bytesOf_append, length_append]
        cases hcontrol : op.isControl with
        | true =>
          have hnone : dataOf [(op, wire cfg op payload key)] = [] := by simp [dataOf, hcontrol]
          rw [hnone]
          exact hdata
        | false =>
          -- all that was queued and the new frame are within the limit
          have hsome : dataOf [(op, wire cfg op payload key)] = [(op, wire cfg op payload key)] := by
            simp [dataOf, hcontrol]
          have hle := bytesOf_filter_le (fun f => !f.1.isControl) (inWriting ++ inOutbox)
          have hcounted := hs.counted hfailed
          have hnew := hlimit hcontrol
          rw [bytesOf_append, hwriting, houtbox, length_append] at hle
          rw [hsome, bytesOf_cons, bytesOf_nil, append_nil]
          show (bytesOf (dataOf (inWriting ++ inOutbox))).length +
            (wire cfg op payload key).length ≤ _
          rw [dataOf]
          omega

/-- The writer and `abort` queue nothing. -/
theorem writer_backlog {s s' : Session} {a : Action} (hs : Sound s) (hb : Backlog cfg s)
    (ha : isCall a = false) (h : WebSocketOutbox.step cfg s a = some s') :
    Backlog cfg s' ∧ s'.accepted = s.accepted := by
  cases a with
  | call c key => cases ha
  | spawn =>
    rw [WebSocketOutbox.step] at h
    split at h
    · cases h
    · obtain rfl := Option.some.inj h
      exact ⟨⟨hb.failed, hb.held⟩, rfl⟩
  | take i =>
    rw [WebSocketOutbox.step] at h
    split at h
    · next hi =>
      obtain rfl := Option.some.inj h
      obtain ⟨-, hdrains, -, -⟩ := hs.only hi
      have hwriting := hs.swapped (.inr hdrains)
      rw [takeOutbox]
      split
      · exact ⟨⟨hb.failed, hb.held⟩, rfl⟩
      · refine ⟨⟨hb.failed, ?_⟩, rfl⟩
        -- the outbox is what is written now
        intro hfine
        obtain ⟨written, inWriting, inOutbox, haccepted, -, houtbox, hdata⟩ := hb.held hfine
        refine ⟨written ++ inWriting, inOutbox, [], ?_, houtbox, ?_, ?_⟩
        · rw [append_nil]
          exact haccepted
        · exact hwriting.symm
        · rw [dataOf_append, bytesOf_append, length_append] at hdata
          rw [append_nil]
          omega
    · cases h
  | written i failed taken =>
    rw [WebSocketOutbox.step] at h
    split at h
    · obtain rfl := Option.some.inj h
      exact ⟨⟨hb.failed, hb.held⟩, rfl⟩
    · cases h
  | settle i =>
    rw [WebSocketOutbox.step] at h
    split at h
    · next failed hi =>
      obtain rfl := Option.some.inj h
      rw [settleWrite]
      cases failed with
      | true => exact ⟨⟨fun _ => rfl, fun h => by cases h⟩, rfl⟩
      | false =>
        refine ⟨⟨?_, ?_⟩, rfl⟩
        · intro hfailed
          show s.out.buffered - _ = 0
          rw [hb.failed hfailed, Nat.zero_sub]
        · intro hfine
          obtain ⟨written, inWriting, inOutbox, haccepted, -, houtbox, hdata⟩ := hb.held hfine
          refine ⟨written ++ inWriting, [], inOutbox, ?_, rfl, houtbox, ?_⟩
          · rw [append_nil]
            exact haccepted
          · rw [dataOf_append, bytesOf_append, length_append] at hdata
            rw [nil_append]
            omega
    · cases h
  | abort =>
    obtain rfl := Option.some.inj h
    exact ⟨⟨fun _ => rfl, fun h => by cases h⟩, rfl⟩

/-! ## What read sends -/

/-- A pong of `read` has the payload of a control frame. -/
def Answer : Send → Prop
  | .pong payload => payload.length ≤ 125
  | .close _ => True

/-- What a turn of the loop queues. -/
def sendsOf : Round → List Send
  | .returned _ _ sends => sends
  | .again _ sends => sends
  | .fill => []

theorem fail_answers (r : Reader) (code : Nat) (err : ReadError) :
    ∀ x ∈ sendsOf (fail r code err), Answer x := by
  intro x hx
  rw [mem_singleton.mp hx]
  trivial

theorem onData_answers (opts : Options) (r : Reader) (h : FrameHeader) (payload : Bytes) :
    ∀ x ∈ sendsOf (onData opts r h payload), Answer x := by
  rw [onData]
  dsimp only
  split
  · split
    · exact fail_answers _ _ _
    · exact fun x hx => absurd hx not_mem_nil
  · exact fun x hx => absurd hx not_mem_nil

theorem onFrame_answers (opts : Options) (r : Reader) (h : FrameHeader) {payload : Bytes}
    (hlong : h.op = .ping → payload.length ≤ 125) :
    ∀ x ∈ sendsOf (onFrame opts r h payload), Answer x := by
  rw [onFrame]
  cases hop : h.op with
  | ping =>
    intro x hx
    rw [mem_singleton.mp hx]
    exact hlong hop
  | pong => exact fun x hx => absurd hx not_mem_nil
  | close =>
    show ∀ x ∈ sendsOf (onClose opts r payload), Answer x
    rw [onClose]
    split
    · exact fail_answers _ _ _
    · split
      · exact fail_answers _ _ _
      · intro x hx
        rw [mem_singleton.mp hx]
        trivial
  | continuation => exact onData_answers opts r h payload
  | text => exact onData_answers opts r h payload
  | binary => exact onData_answers opts r h payload

/-- Every pong answers a ping that has passed the checks of its header. -/
theorem round_answers (opts : Options) (r : Reader) :
    ∀ x ∈ sendsOf (readRound opts r), Answer x := by
  rw [readRound]
  split
  · exact fun x hx => absurd hx not_mem_nil
  · split
    · exact fail_answers _ _ _
    · exact fun x hx => absurd hx not_mem_nil
    · next h _ =>
      split
      · exact fail_answers _ _ _
      · next hviolates =>
        split
        · exact fail_answers _ _ _
        · split
          · next hthere =>
            refine onFrame_answers opts _ h ?_
            intro hping
            rw [payloadOf_length hthere]
            by_contra hlong
            refine hviolates ?_
            have hcontrol : Opcode.ping.isControl = true := by decide
            have hover : 125 < h.payloadLength := by omega
            simp [violates, hping, hcontrol, hover]
          · exact fun x hx => absurd hx not_mem_nil

/-! ## Runs -/

/-- What every step keeps. -/
structure Bounded (cfg : Config) (c : Connection) : Prop where
  sound : Sound c.session
  backlog : Backlog cfg c.session
  sending : ∀ x ∈ c.sending, Answer x
  sendable : ∀ f ∈ c.session.accepted, Sendable cfg f

theorem pong_sendable {payload : Bytes} (h : payload.length ≤ 125) (key : UInt32) :
    Sendable cfg (.pong, wire cfg .pong payload key) := by
  refine ⟨fun _ => .inl rfl, fun _ => ?_⟩
  have hmask : (maskFor cfg key).isSome = (maskFor cfg 0).isSome := by
    rw [maskFor, maskFor]
    split <;> rfl
  show (wire cfg .pong payload key).length ≤ _
  have hshort : payload.length < 126 := by omega
  have hmost : 125 < 126 := by omega
  rw [wire_length, maxControlFrame, hmask, frameSize, frameSize, if_pos hshort, if_pos hmost]
  omega

/-- A frame of this kind is queued. -/
theorem Bounded.enqueue {c : Connection} (h : Bounded cfg c) {op : Opcode} (payload : Bytes)
    {isClose : Bool} (key : UInt32) (hop : isClose = false → op ≠ .close)
    (hsend : Sendable cfg (op, wire cfg op payload key)) {sending : List Send}
    (hsending : ∀ x ∈ sending, Answer x) :
    Bounded cfg { c with
      sending := sending, session := (c.session.enqueue cfg op payload isClose key).1 } := by
  obtain ⟨hsound, hbacklog, haccepted⟩ := enqueue_backlog h.sound h.backlog payload key hop
  refine ⟨hsound, hbacklog, hsending, ?_⟩
  intro f hf
  rcases haccepted with hsame | hmore
  · exact h.sendable f (hsame ▸ hf)
  · rcases mem_append.mp (hmore ▸ hf) with hf | hf
    · exact h.sendable f hf
    · rw [mem_singleton.mp hf]
      exact hsend

/-- A call of the application. -/
theorem Bounded.call {c : Connection} (h : Bounded cfg c) {call : Call} (hcall : isSend call = true)
    (key : UInt32) {sending : List Send} (hsending : ∀ x ∈ sending, Answer x) :
    Bounded cfg { c with
      sending := sending, session := (c.session.call cfg call key).1 } := by
  have hdata : ∀ {op : Opcode} {bytes : Bytes}, op = .text ∨ op = .binary →
      Sendable cfg (op, bytes) := by
    rintro op bytes (rfl | rfl)
    · exact ⟨fun hcontrol => absurd hcontrol (by decide : ¬ Opcode.text.isControl = true),
        fun hpong => by cases hpong⟩
    · exact ⟨fun hcontrol => absurd hcontrol (by decide : ¬ Opcode.binary.isControl = true),
        fun hpong => by cases hpong⟩
  cases call with
  | sendText data => exact h.enqueue data key (fun _ => by rintro ⟨⟩) (hdata (.inl rfl)) hsending
  | sendBinary data => exact h.enqueue data key (fun _ => by rintro ⟨⟩) (hdata (.inr rfl)) hsending
  | ping payload => cases hcall
  | pong payload => cases hcall
  | close code reason =>
    rw [Session.call, Call.frame]
    split
    · next hframe =>
      exact ⟨h.sound, h.backlog, hsending, h.sendable⟩
    · next op payload hframe =>
      split at hframe
      · cases hframe
      · obtain ⟨rfl, rfl⟩ := Prod.mk.inj (Option.some.inj hframe)
        exact h.enqueue _ key (fun hnot => by cases hnot)
          ⟨fun _ => .inr rfl, fun hpong => by cases hpong⟩ hsending

theorem step_bounded {opts : Options} {c c' : Connection} {e : Event} (h : Bounded cfg c)
    (hstep : step opts cfg c e = some c') : Bounded cfg c' := by
  cases e with
  | app call key =>
    rw [step] at hstep
    split at hstep
    · next hcall =>
      obtain rfl := Option.some.inj hstep
      exact h.call hcall key h.sending
    · cases hstep
  | round =>
    have hanswers := round_answers opts c.reader
    rw [step] at hstep
    split at hstep
    · cases hstep
    · split at hstep
      · next hround =>
        rw [hround] at hanswers
        obtain rfl := Option.some.inj hstep
        exact ⟨h.sound, h.backlog, hanswers, h.sendable⟩
      · next hround =>
        rw [hround] at hanswers
        obtain rfl := Option.some.inj hstep
        exact ⟨h.sound, h.backlog, hanswers, h.sendable⟩
      · cases hstep
  | queue key =>
    rw [step] at hstep
    split at hstep
    · cases hstep
    · next x rest hsending =>
      obtain rfl := Option.some.inj hstep
      have hanswers := h.sending
      rw [hsending] at hanswers
      have hrest : ∀ x ∈ rest, Answer x := fun x hx => hanswers x (mem_cons_of_mem _ hx)
      have hx := hanswers x mem_cons_self
      cases x with
      | pong payload =>
        rw [perform]
        split
        · exact ⟨h.sound, h.backlog, hrest, h.sendable⟩
        · exact h.enqueue payload key (fun _ => by rintro ⟨⟩) (pong_sendable hx key) hrest
      | close code => exact h.call rfl key hrest
  | fill a =>
    rw [step] at hstep
    split at hstep
    · cases hstep
    · obtain rfl := Option.some.inj hstep
      exact ⟨h.sound, h.backlog, h.sending, h.sendable⟩
  | writer a =>
    rw [step] at hstep
    split at hstep
    · cases hstep
    · next ha =>
      obtain ⟨session, hsession, rfl⟩ := Option.map_eq_some_iff.mp hstep
      obtain ⟨hbacklog, haccepted⟩ :=
        writer_backlog h.sound h.backlog (Bool.not_eq_true _ ▸ ha) hsession
      exact ⟨step_sound h.sound hsession, hbacklog, h.sending, haccepted ▸ h.sendable⟩

theorem reachable_bounded {opts : Options} {c : Connection}
    (h : (connections opts cfg).Reachable c) : Bounded cfg c := by
  refine h.invariant (I := Bounded cfg) ?_ ?_
  · rintro c ⟨leftover, rfl⟩
    exact ⟨initial_sound, initial_backlog cfg, fun x hx => absurd hx not_mem_nil,
      fun f hf => absurd hf not_mem_nil⟩
  · rintro c c' ⟨e, hstep⟩ hc
    exact step_bounded hc hstep

theorem run_reachable {opts : Options} {c c' : Connection} {events : List Event}
    (h : (connections opts cfg).Reachable c) (hrun : run opts cfg c events = some c') :
    (connections opts cfg).Reachable c' := by
  induction events generalizing c with
  | nil => rwa [← Option.some.inj hrun]
  | cons e rest ih =>
    obtain ⟨d, hd, hrest⟩ := Option.bind_eq_some_iff.mp hrun
    obtain ⟨c₀, h₀, hsteps⟩ := h
    exact ih ⟨c₀, h₀, hsteps.tail ⟨e, hd⟩⟩ hrest

/-- At most one of the frames that were accepted is a close. -/
theorem closes_le_one {frames : List (Opcode × Bytes)} (h : ∀ f ∈ frames.dropLast, f.1 ≠ .close) :
    (ofKind .close frames).length ≤ 1 := by
  rcases eq_nil_or_concat frames with rfl | ⟨front, last, rfl⟩
  · exact Nat.zero_le _
  · rw [concat_eq_append, dropLast_concat] at h
    have hfront : ofKind .close front = [] := by
      refine filter_eq_nil_iff.mpr ?_
      intro f hf
      simpa using h f hf
    rw [concat_eq_append, ofKind, filter_append]
    show (ofKind .close front ++ _).length ≤ 1
    rw [hfront, nil_append]
    exact length_filter_le _ [last]

/-- **The backlog**: in every run `buffered_` is the size of the frames that are queued, and
    exceeds the limit by the pongs and the one close frame among them at most. -/
theorem buffered_bounded (opts : Options) (cfg : Config) (c : Connection)
    (h : (connections opts cfg).Reachable c) :
    ∃ written queued, c.session.accepted = written ++ queued ∧
      c.session.out.buffered = (bytesOf queued).length ∧
      c.session.out.buffered ≤ cfg.maxBufferedAmount + (bytesOf (ofKind .pong queued)).length +
        (bytesOf (ofKind .close queued)).length ∧
      (∀ f ∈ ofKind .pong queued, f.2.length ≤ maxControlFrame cfg) ∧
      (ofKind .close queued).length ≤ 1 := by
  obtain ⟨hsound, hbacklog, -, hsendable⟩ := reachable_bounded h
  cases hfailed : c.session.out.writeFailed with
  | true =>
    have hzero := hbacklog.failed hfailed
    refine ⟨c.session.accepted, [], (append_nil _).symm, hzero, ?_,
      fun f hf => absurd hf not_mem_nil, Nat.zero_le _⟩
    rw [hzero]
    exact Nat.zero_le _
  | false =>
    obtain ⟨written, inWriting, inOutbox, haccepted, hwriting, houtbox, hdata⟩ :=
      hbacklog.held hfailed
    rw [append_assoc] at haccepted
    have hbuffered : c.session.out.buffered = (bytesOf (inWriting ++ inOutbox)).length := by
      rw [hsound.counted hfailed, bytesOf_append, length_append, hwriting, houtbox]
      omega
    have hqueued : ∀ f ∈ inWriting ++ inOutbox, Sendable cfg f := by
      intro f hf
      exact hsendable f (haccepted ▸ mem_append_right _ hf)
    have hkinds := bytesOf_kinds hqueued
    refine ⟨written, inWriting ++ inOutbox, haccepted, hbuffered, by omega, ?_, ?_⟩
    · intro f hf
      obtain ⟨hmem, hop⟩ := mem_filter.mp hf
      exact (hqueued f hmem).2 (of_decide_eq_true hop)
    · have hone := closes_le_one hsound.closed
      rw [haccepted, ofKind, filter_append, length_append] at hone
      rw [ofKind]
      omega

/-- A masked ping of the peer, with a payload of that length. -/
def pingFrame (n : Nat) : Bytes := encodeFrame [] .ping (List.replicate n 0) true (some 0)

/-- Three pings of 125 bytes, and a transport that takes nothing. -/
theorem reachable_pings : ∃ c, (connections ⟨.server, 1024, true⟩ ⟨.server, 64⟩).Reachable c ∧
    c.session.out.buffered = 381 := by
  have hrun : (run ⟨.server, 1024, true⟩ ⟨.server, 64⟩
      { reader := { rbuf := pingFrame 125 ++ pingFrame 125 ++ pingFrame 125 } }
      [.round, .queue 0, .round, .queue 0, .round, .queue 0]).map
        (fun c => c.session.out.buffered) = some 381 := by decide +kernel
  obtain ⟨c, hc, hbuffered⟩ := Option.map_eq_some_iff.mp hrun
  exact ⟨c, run_reachable ⟨_, ⟨_, rfl⟩, .refl⟩ hc, hbuffered⟩

/-- Their pongs are over the bound, with any pong and any close counted on top. -/
theorem pings_exceed_bound : ¬ PeerBounded ⟨.server, 1024, true⟩ ⟨.server, 64⟩ := by
  intro h
  obtain ⟨c, hc, hbuffered⟩ := reachable_pings
  have hbound := h c hc
  rw [hbuffered] at hbound
  exact absurd hbound (by decide)

/-- The same connection: what is over the limit are its pongs. -/
theorem buffered_bounded_pings :
    ∃ c : Connection, c.session.out.buffered = 381 ∧
      ∃ written queued, c.session.accepted = written ++ queued ∧
        c.session.out.buffered = (bytesOf queued).length ∧
        c.session.out.buffered ≤ 64 + (bytesOf (ofKind .pong queued)).length +
          (bytesOf (ofKind .close queued)).length ∧
        (∀ f ∈ ofKind .pong queued, f.2.length ≤ maxControlFrame ⟨.server, 64⟩) ∧
        (ofKind .close queued).length ≤ 1 := by
  obtain ⟨c, hc, hbuffered⟩ := reachable_pings
  exact ⟨c, hbuffered, buffered_bounded ⟨.server, 1024, true⟩ ⟨.server, 64⟩ c hc⟩

end WebSocketBacklog
