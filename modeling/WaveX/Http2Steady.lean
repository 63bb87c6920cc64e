import WaveX.Http2Tasks

/-! # What the windows do not notice

    The receive windows and the send windows change in few places.  `Steady A R S` says that
    a part of the session leaves them alone: under `R` the receive accounts, under `S` the
    send windows, which may only shrink.  Every action is steady in both senses but the
    four that move a window.

    Three more things hold all along: a stream is taken for a tunnel before its end only
    when it is a CONNECT (`Apt`), a header block that is being collected for a stream with
    headers ends it (`Trailing`), and a connection error stops the session (`Halts`). -/

namespace Http2Steady

open QuicVarInt Hpack Http2Frames Http2Session Http2Session.Session Http2Effects Http2Tasks History
  List

/-! ## One stream -/

/-- What a stream is taken for: its list is within the cap, it gets a task before its end
    only when it is rejected or a CONNECT, and tunnel data only as a CONNECT. -/
structure Apt (x : StreamState) : Prop where
  list : overLimit defaultMaxHeaderListSize x.headers = false
  early : x.dispatched = true →
    x.endStreamReceived = true ∨ x.rejected = true ∨ isConnect x.headers = true
  tunnel : x.tunnel = true → x.dispatched = true
  fed : x.tunnelIn ≠ [] → x.dispatched = true ∧ isConnect x.headers = true

/-- How a stream may change: flags are not taken back, and it leaves `streams_` only with a
    reason. -/
structure Still (R S : Prop) (dead' : Bool) (x y : StreamState) : Prop where
  id : y.id = x.id
  unacked : R → y.recvUnacked = x.recvUnacked
  input : R → y.tunnelIn = x.tunnelIn
  window : S → y.sendWindow ≤ x.sendWindow
  reset : x.reset = true → y.reset = true
  ended : x.endStreamReceived = true → y.endStreamReceived = true
  rejected : x.rejected = true → y.rejected = true
  held : y.held = true → x.held = true
  release : y.held = false →
    x.held = false ∨ y.reset = true ∨ y.endStreamReceived = true ∨ dead' = true
  kept : x.dispatched = true → y.dispatched = true
  apt : Apt x → Apt y

variable {A R S : Prop} {s s' s'' : Session} {sid cap : Nat} {st x y z : StreamState}
  {g : StreamState → StreamState} {f : Frame} {d d' : Bool}

theorem Still.refl (d : Bool) (x : StreamState) : Still R S d x x where
  id := rfl
  unacked _ := rfl
  input _ := rfl
  window _ := Int.le_refl _
  reset h := h
  ended h := h
  rejected h := h
  held h := h
  release h := .inl h
  kept h := h
  apt h := h

theorem Still.trans (h : Still R S d x y) (h' : Still R S d' y z)
    (hdead : d = true → d' = true) : Still R S d' x z where
  id := h'.id.trans h.id
  unacked hR := (h'.unacked hR).trans (h.unacked hR)
  input hR := (h'.input hR).trans (h.input hR)
  window hS := Int.le_trans (h'.window hS) (h.window hS)
  reset hx := h'.reset (h.reset hx)
  ended hx := h'.ended (h.ended hx)
  rejected hx := h'.rejected (h.rejected hx)
  held hz := h.held (h'.held hz)
  release hz := by
    rcases h'.release hz with hy | hreason
    · rcases h.release hy with hx | hreset | hended | hgone
      · exact .inl hx
      · exact .inr (.inl (h'.reset hreset))
      · exact .inr (.inr (.inl (h'.ended hended)))
      · exact .inr (.inr (.inr (hdead hgone)))
    · exact .inr hreason
  kept hx := h'.kept (h.kept hx)
  apt hx := h'.apt (h.apt hx)

/-- The same fields as far as anything is said about a stream. -/
theorem Still.same (hid : y.id = x.id) (hunacked : y.recvUnacked = x.recvUnacked)
    (hin : y.tunnelIn = x.tunnelIn) (hwindow : y.sendWindow = x.sendWindow)
    (hflags : y.reset = x.reset ∧ y.endStreamReceived = x.endStreamReceived ∧
      y.rejected = x.rejected ∧ y.held = x.held)
    (htask : y.dispatched = x.dispatched ∧ y.tunnel = x.tunnel ∧ y.headers = x.headers) :
    Still R S d x y := by
  obtain ⟨hreset, hended, hrejected, hheld⟩ := hflags
  obtain ⟨hdispatched, htunnel, hheaders⟩ := htask
  refine ⟨hid, fun _ => hunacked, fun _ => hin, fun _ => Int.le_of_eq hwindow, fun h => hreset ▸ h,
    fun h => hended ▸ h, fun h => hrejected ▸ h, fun h => hheld ▸ h, fun h => .inl (hheld ▸ h),
    fun h => hdispatched ▸ h, ?_⟩
  rintro ⟨hlist, hearly, htun, hfed⟩
  constructor
  · rw [hheaders]
    exact hlist
  · rw [hdispatched, hended, hrejected, hheaders]
    exact hearly
  · rw [htunnel, hdispatched]
    exact htun
  · rw [hin, hdispatched, hheaders]
    exact hfed

/-- A stream is reset, and may leave `streams_`. -/
theorem Still.reset_mark (p h' : Bool) (hheld : h' = true → x.held = true) :
    Still R S d x { x with reset := true, parked := p, held := h' } :=
  { Still.refl d x with
    reset := fun _ => rfl
    held := hheld
    release := fun _ => .inr (.inl rfl)
    apt := fun h => ⟨h.list, h.early, h.tunnel, h.fed⟩ }

/-! ## The session -/

/-- Events that say nothing about the receive windows: no DATA comes in, no credit goes
    out. -/
def silent : Event → Bool
  | .received f => f.type != .data
  | .enqueued f => f.type != .windowUpdate
  | _ => true

/-- A connection error is in the history. -/
def Erred (s : Session) : Prop := ∃ err, Event.connectionError err ∈ s.log

/-- A connection error ends the loop of `run` and resets what is in `streams_`. -/
def Halts (s : Session) : Prop :=
  Erred s → s.stopped = true ∧ ∀ x ∈ s.streams, x.held = true → x.reset = true

/-- A block that is collected for a stream with headers are its trailers, and end it. -/
def Trailing (s : Session) : Prop :=
  s.continuationSid ≠ 0 → ∀ x ∈ s.streams, x.id = s.continuationSid →
    x.headersDone = true → x.endStreamReceived = true

/-- `RST_STREAM` with FLOW_CONTROL_ERROR answers an increment of the send window, whose
    entry is the one before it. -/
def AnswersIncrement (sid : Nat) (e : Event) (past : List Event) : Prop :=
  e = .enqueued (rstStreamFrame sid .flowControlError) → ∃ inc rest, past = .credited sid inc :: rest

/-- The windows are left alone, as far as `A`, `R` and `S` go. -/
structure Steady (A R S : Prop) (s s' : Session) : Prop where
  dead : s.dead = true → s'.dead = true
  last : s'.lastPeerStreamId = s.lastPeerStreamId
  unacked : R → s'.connRecvUnacked = s.connRecvUnacked
  window : S → s'.connSendWindow ≤ s.connSendWindow
  initial : S → s'.peerInitialWindow = s.peerInitialWindow
  log : ∃ new, s'.log = new ++ s.log ∧ (R → ∀ e ∈ new, silent e = true)
  streams : ∃ g, s'.streams = s.streams.map g ∧ ∀ x ∈ s.streams, Still R S s'.dead x (g x)
  halts : Halts s → Halts s'
  trailing : Trailing s → Trailing s'
  answers : A → ∀ sid, Always (AnswersIncrement sid) s.log → Always (AnswersIncrement sid) s'.log

theorem Steady.refl : Steady A R S s s where
  dead h := h
  last := rfl
  unacked _ := rfl
  window _ := Int.le_refl _
  initial _ := rfl
  log := ⟨[], rfl, fun _ _ he => absurd he not_mem_nil⟩
  streams := ⟨id, (map_id _).symm, fun x _ => .refl _ x⟩
  halts h := h
  trailing h := h
  answers _ _ h := h

theorem Steady.trans (h : Steady A R S s s') (h' : Steady A R S s' s'') : Steady A R S s s'' where
  dead hs := h'.dead (h.dead hs)
  last := h'.last.trans h.last
  unacked hR := (h'.unacked hR).trans (h.unacked hR)
  window hS := Int.le_trans (h'.window hS) (h.window hS)
  initial hS := (h'.initial hS).trans (h.initial hS)
  log := by
    obtain ⟨new, hnew, hsilent⟩ := h.log
    obtain ⟨new', hnew', hsilent'⟩ := h'.log
    refine ⟨new' ++ new, by rw [hnew', hnew, append_assoc], fun hR e he => ?_⟩
    exact (mem_append.mp he).elim (hsilent' hR e) (hsilent hR e)
  streams := by
    obtain ⟨g, hg, hstill⟩ := h.streams
    obtain ⟨g', hg', hstill'⟩ := h'.streams
    refine ⟨g' ∘ g, by rw [hg', hg, map_map], fun x hx => ?_⟩
    exact (hstill x hx).trans (hstill' (g x) (hg ▸ mem_map_of_mem hx)) h'.dead
  halts hs := h'.halts (h.halts hs)
  trailing hs := h'.trailing (h.trailing hs)
  answers hA sid hs := h'.answers hA sid (h.answers hA sid hs)

/-- Errors stay in the history. -/
theorem Steady.erred (hs : Steady A R S s s') (h : Erred s) : Erred s' := by
  obtain ⟨err, herr⟩ := h
  obtain ⟨new, hnew, -⟩ := hs.log
  exact ⟨err, hnew ▸ mem_append_right new herr⟩

/-- A change that is steady in more ways than asked for. -/
theorem Steady.weaken {A' R' S' : Prop} (h : Steady A' R' S' s s') (hA : A → A') (hR : R → R')
    (hS : S → S') : Steady A R S s s' where
  dead := h.dead
  last := h.last
  unacked hr := h.unacked (hR hr)
  window hs := h.window (hS hs)
  initial hs := h.initial (hS hs)
  log := by
    obtain ⟨new, hnew, hsilent⟩ := h.log
    exact ⟨new, hnew, fun hr => hsilent (hR hr)⟩
  streams := by
    obtain ⟨g, hg, hstill⟩ := h.streams
    refine ⟨g, hg, fun x hx => ?_⟩
    obtain ⟨hid, hunacked, hin, hwindow, hreset, hended, hrejected, hheld, hrelease, hkept, hapt⟩ :=
      hstill x hx
    exact ⟨hid, fun hr => hunacked (hR hr), fun hr => hin (hR hr), fun hs => hwindow (hS hs),
      hreset, hended, hrejected, hheld, hrelease, hkept, hapt⟩
  halts := h.halts
  trailing := h.trailing
  answers ha := h.answers (hA ha)

/-- What stops a session with an error stops it for good. -/
theorem Halts.mono (h : Halts s) (herred : Erred s' → Erred s)
    (hstopped : s.stopped = true → s'.stopped = true)
    (hstreams : s'.streams = s.streams.map g)
    (hg : ∀ x ∈ s.streams, Still R S d x (g x)) : Halts s' := by
  intro herr
  obtain ⟨hstop, hreset⟩ := h (herred herr)
  refine ⟨hstopped hstop, fun y hy hheld => ?_⟩
  rw [hstreams] at hy
  obtain ⟨x, hx, rfl⟩ := mem_map.mp hy
  exact (hg x hx).reset (hreset x hx ((hg x hx).held hheld))

/-- No stream gets its headers done while their block is being collected. -/
theorem Trailing.mono (h : Trailing s)
    (hsid : s'.continuationSid = s.continuationSid ∨ s'.continuationSid = 0)
    (hstreams : s'.streams = s.streams.map g)
    (hg : ∀ x ∈ s.streams, Still R S d x (g x) ∧ ((g x).headersDone = true →
      x.headersDone = true ∨ s.continuationSid = 0)) : Trailing s' := by
  intro hopen y hy hid hdone
  have heq := hsid.resolve_right hopen
  rw [hstreams] at hy
  obtain ⟨x, hx, rfl⟩ := mem_map.mp hy
  obtain ⟨hstill, hbefore⟩ := hg x hx
  rw [heq] at hopen hid
  rw [hstill.id] at hid
  exact hstill.ended (h hopen x hx hid ((hbefore hdone).resolve_right hopen))

/-- A change of members of the session that are not windows. -/
theorem Steady.same (hdead : s.dead = true → s'.dead = true)
    (hlast : s'.lastPeerStreamId = s.lastPeerStreamId)
    (hrecv : s'.connRecvUnacked = s.connRecvUnacked)
    (hsend : s'.connSendWindow = s.connSendWindow ∧ s'.peerInitialWindow = s.peerInitialWindow)
    (hlog : s'.log = s.log) (hstreams : s'.streams = s.streams)
    (hstopped : s.stopped = true → s'.stopped = true)
    (hsid : s'.continuationSid = s.continuationSid ∨ s'.continuationSid = 0) : Steady A R S s s' := by
  have hmap : s'.streams = s.streams.map id := hstreams.trans (map_id _).symm
  have hstill : ∀ x ∈ s.streams, Still R S s'.dead x (id x) := fun x _ => .refl _ x
  refine ⟨hdead, hlast, fun _ => hrecv, fun _ => Int.le_of_eq hsend.1, fun _ => hsend.2,
    ⟨[], hlog, fun _ _ he => absurd he not_mem_nil⟩, ⟨id, hmap, hstill⟩, ?_, ?_, ?_⟩
  · exact fun h => h.mono (fun ⟨err, herr⟩ => ⟨err, hlog ▸ herr⟩) hstopped hmap hstill
  · exact fun h => h.mono hsid hmap fun x hx => ⟨hstill x hx, .inl⟩
  · intro _ sid h
    rw [hlog]
    exact h

/-- A change of streams. -/
theorem Steady.map (hg : ∀ x ∈ s.streams, Still R S s.dead x (g x) ∧
    ((g x).headersDone = true → x.headersDone = true ∨ s.continuationSid = 0)) :
    Steady A R S s { s with streams := s.streams.map g } := by
  have hstill : ∀ x ∈ s.streams, Still R S s.dead x (g x) := fun x hx => (hg x hx).1
  refine ⟨fun h => h, rfl, fun _ => rfl, fun _ => Int.le_refl _, fun _ => rfl,
    ⟨[], rfl, fun _ _ he => absurd he not_mem_nil⟩, ⟨g, rfl, hstill⟩, ?_, ?_, fun _ _ h => h⟩
  · exact fun h => h.mono (fun herr => herr) (fun hs => hs) rfl hstill
  · exact fun h => h.mono (.inl rfl) rfl hg

/-- A change of one stream. -/
theorem Steady.modify (hg : ∀ x ∈ s.streams, x.id = sid → Still R S s.dead x (g x) ∧
    ((g x).headersDone = true → x.headersDone = true ∨ s.continuationSid = 0)) :
    Steady A R S s (s.modify sid g) := by
  refine .map fun x hx => ?_
  split
  · rename_i hid
    exact hg x hx hid
  · exact ⟨.refl _ x, .inl⟩

theorem Steady.record {e : Event} (hsilent : R → silent e = true)
    (hcalm : ∀ err, e ≠ .connectionError err)
    (hanswers : A → ∀ sid, AnswersIncrement sid e s.log) : Steady A R S s (s.record e) := by
  have hmap : (s.record e).streams = s.streams.map id := (map_id _).symm
  have hstill : ∀ x ∈ s.streams, Still R S s.dead x (id x) := fun x _ => .refl _ x
  refine ⟨fun h => h, rfl, fun _ => rfl, fun _ => Int.le_refl _, fun _ => rfl,
    ⟨[e], rfl, fun hR e' he' => mem_singleton.mp he' ▸ hsilent hR⟩, ⟨id, hmap, hstill⟩,
    ?_, fun h => h, fun hA sid h => ⟨hanswers hA sid, h⟩⟩
  intro h
  refine h.mono ?_ (fun hs => hs) hmap hstill
  rintro ⟨err, herr⟩
  exact ⟨err, (mem_cons.mp herr).resolve_left fun heq => hcalm err heq.symm⟩

/-- A frame goes out that is no credit and, unless an increment has just been added to a
    send window, no reset for flow control. -/
theorem Steady.enqueue (hcredit : R → f.type ≠ .windowUpdate)
    (hanswers : A → ∀ sid, AnswersIncrement sid (.enqueued f) s.log) :
    Steady A R S s (s.enqueue f) := by
  rw [Session.enqueue]
  split
  · exact .refl
  · have hbytes : Steady A R S s { s with outboxBytes := s.outboxBytes + f.wireSize } :=
      .same (fun h => h) rfl rfl ⟨rfl, rfl⟩ rfl rfl (fun h => h) (.inl rfl)
    refine hbytes.trans (.record (e := .enqueued f) (fun hR => ?_) (fun _ heq => ?_) hanswers)
    · exact bne_iff_ne.mpr (hcredit hR)
    · cases heq

theorem answers_of_type (hf : f.type ≠ .rstStream) (sid : Nat) (past : List Event) :
    AnswersIncrement sid (.enqueued f) past := by
  intro heq
  exact absurd (congrArg Frame.type (Event.enqueued.inj heq)) hf

theorem answers_of_code {err : ErrorCode} (herr : err ≠ .flowControlError) (k sid : Nat)
    (past : List Event) : AnswersIncrement sid (.enqueued (rstStreamFrame k err)) past := by
  intro heq
  have hcode : u32 err.value = u32 ErrorCode.flowControlError.value :=
    congrArg Frame.payload (Event.enqueued.inj heq)
  exfalso
  cases err with
  | flowControlError => exact herr rfl
  | _ => exact absurd hcode (by decide)

theorem Steady.send (f : Frame) : Steady A R S s (s.send f) := by
  rw [Session.send]
  split
  · exact .refl
  · have hbytes : Steady A R S s { s with outboxBytes := s.outboxBytes + f.wireSize } :=
      .same (fun h => h) rfl rfl ⟨rfl, rfl⟩ rfl rfl (fun h => h) (.inl rfl)
    refine hbytes.trans (.record (e := .sent f) (fun _ => rfl) (fun _ heq => ?_) fun _ _ heq => ?_)
    · cases heq
    · cases heq

theorem Steady.sendAll (fs : List Frame) : Steady A R S s (s.sendAll fs) := by
  induction fs generalizing s with
  | nil => exact .refl
  | cons f rest ih => exact (Steady.send f).trans ih

/-! ## Errors and resets -/

theorem Steady.sendGoaway (err : ErrorCode) : Steady A R S s (sendGoaway s err) := by
  rw [Http2Session.sendGoaway]
  split
  · exact .refl
  · have hflag : Steady A R S s { s with goawaySent := true } :=
      .same (fun h => h) rfl rfl ⟨rfl, rfl⟩ rfl rfl (fun h => h) (.inl rfl)
    refine hflag.trans (.enqueue (fun _ heq => ?_) fun _ sid => answers_of_type (fun heq => ?_) sid _)
    · cases heq
    · cases heq

theorem Steady.markDeadAfterFlush : Steady A R S s (markDeadAfterFlush s) := by
  refine .map fun x _ => ?_
  split
  · rename_i hheld
    exact ⟨.reset_mark false x.held fun h => h, .inl⟩
  · exact ⟨.refl _ x, .inl⟩

theorem Steady.markDead : Steady A R S s (markDead s) := by
  rw [Http2Session.markDead]
  split
  · exact .refl
  · have hflag : Steady A R S s { s with dead := true } :=
      .same (fun _ => rfl) rfl rfl ⟨rfl, rfl⟩ rfl rfl (fun h => h) (.inl rfl)
    refine hflag.trans (.map fun x _ => ?_)
    split
    · exact ⟨.same rfl rfl rfl rfl ⟨rfl, rfl, rfl, rfl⟩ ⟨rfl, rfl, rfl⟩, .inl⟩
    · exact ⟨.refl _ x, .inl⟩

theorem Steady.stop : Steady A R S s { s with stopped := true } :=
  .same (fun h => h) rfl rfl ⟨rfl, rfl⟩ rfl rfl (fun _ => rfl) (.inl rfl)

/-- The error goes on record once the session is stopped and its streams are reset. -/
theorem connectionError_eq (s : Session) (err : ErrorCode) :
    connectionError s err = sendGoaway
      (({ markDeadAfterFlush s with stopped := true }).record (.connectionError err)) err := by
  cases hsent : s.goawaySent with
  | true => simp [connectionError, sendGoaway, markDeadAfterFlush, Session.record, hsent]
  | false =>
    cases hdead : s.dead with
    | true =>
      simp [connectionError, sendGoaway, markDeadAfterFlush, Session.record, Session.enqueue,
        hsent, hdead]
    | false =>
      simp [connectionError, sendGoaway, markDeadAfterFlush, Session.record, Session.enqueue,
        hsent, hdead]

theorem Steady.connectionError (err : ErrorCode) : Steady A R S s (connectionError s err) := by
  have hstop : Steady A R S s { Http2Session.markDeadAfterFlush s with stopped := true } :=
    Steady.markDeadAfterFlush.trans .stop
  have hnote : ∀ t : Session, t.stopped = true → (∀ x ∈ t.streams, x.held = true → x.reset = true) →
      Steady A R S t (t.record (.connectionError err)) := by
    intro t hstopped hreset
    refine ⟨fun h => h, rfl, fun _ => rfl, fun _ => Int.le_refl _, fun _ => rfl,
      ⟨[.connectionError err], rfl, fun _ e he => ?_⟩,
      ⟨id, (map_id _).symm, fun x _ => .refl _ x⟩, fun _ _ => ⟨hstopped, hreset⟩,
      fun h => h, fun _ sid h => ⟨fun heq => ?_, h⟩⟩
    · rw [mem_singleton.mp he]
      rfl
    · cases heq
  rw [connectionError_eq]
  refine (hstop.trans (hnote _ rfl ?_)).trans (.sendGoaway _)
  intro y hy hheld
  obtain ⟨x, -, rfl⟩ := mem_map.mp hy
  split at hheld
  · rw [if_pos (by assumption)]
  · rename_i hnot
    exact absurd hheld hnot

/-- What holds of the object of a stream after a change of it. -/
theorem modified_all {P : StreamState → Prop} (h : ∀ x ∈ s.streams, x.id = sid → P (g x)) :
    ∀ y ∈ (s.modify sid g).streams, y.id = sid → P y := by
  intro y hy hyid
  obtain ⟨x, hx, rfl⟩ := mem_map.mp hy
  by_cases hxid : x.id = sid
  · rw [if_pos hxid]
    exact h x hx hxid
  · rw [if_neg hxid] at hyid
    exact absurd hyid hxid

/-- `reset_stream`; a reset for flow control has to answer an increment. -/
theorem Steady.resetStream {err : ErrorCode}
    (hanswers : A → ∀ sid, AnswersIncrement sid (.enqueued (rstStreamFrame st.id err)) s.log) :
    Steady A R S s (resetStream s st err) := by
  rw [Http2Session.resetStream]
  have hrst : Steady A R S s (if st.reset then s else s.enqueue (rstStreamFrame st.id err)) := by
    split
    · exact .refl
    · refine .enqueue (fun _ heq => ?_) hanswers
      cases heq
  split
  · exact hrst.trans (.modify fun x _ _ => ⟨.reset_mark false x.held fun h => h, .inl⟩)
  · rw [erase, modify_modify]
    · refine hrst.trans (.modify fun x _ _ => ⟨?_, .inl⟩)
      exact .reset_mark false false fun h => absurd h Bool.false_ne_true
    · exact fun _ => rfl

theorem resetStream_reset (err : ErrorCode) :
    ∀ y ∈ (resetStream s st err).streams, y.id = st.id → y.reset = true := by
  rw [Http2Session.resetStream]
  split
  · exact modified_all fun _ _ _ => rfl
  · rw [erase, modify_modify]
    · exact modified_all fun _ _ _ => rfl
    · exact fun _ => rfl

theorem connectionError_erred (s : Session) (err : ErrorCode) : Erred (connectionError s err) := by
  have hgoaway : ∀ t : Session, Steady True True True t (Http2Session.sendGoaway t err) :=
    fun _ => .sendGoaway err
  rw [connectionError_eq]
  exact (hgoaway _).erred ⟨err, mem_cons_self⟩

/-! ## Tasks -/

theorem Steady.spawn : Steady A R S s (spawn s sid) := by
  have htask : ∀ (n : Nat) (l : List Nat), Steady A R S s { s with activeTasks := n, tasks := l } :=
    fun _ _ => .same (fun h => h) rfl rfl ⟨rfl, rfl⟩ rfl rfl (fun h => h) (.inl rfl)
  have hlost : ∀ n : Nat, Steady A R S s { s with activeTasks := n, stopped := true } :=
    fun _ => .same (fun h => h) rfl rfl ⟨rfl, rfl⟩ rfl rfl (fun _ => rfl) (.inl rfl)
  rw [Http2Session.spawn]
  split
  · refine (htask _ _).trans (.record (e := .task sid) (fun _ => rfl) (fun _ heq => ?_)
      fun _ _ heq => ?_)
    · cases heq
    · cases heq
  · refine (hlost _).trans (.record (e := .lostTask sid) (fun _ => rfl) (fun _ heq => ?_)
      fun _ _ heq => ?_)
    · cases heq
    · cases heq

/-- A task is there from now on for a stream that is at its end, rejected or a CONNECT. -/
theorem Steady.dispatch (h : ∀ x ∈ s.streams, x.id = sid →
    x.endStreamReceived = true ∨ x.rejected = true ∨ isConnect x.headers = true) :
    Steady A R S s (dispatch s sid) := by
  have hmark : Steady A R S s (s.modify sid fun x => { x with dispatched := true }) := by
    refine .modify fun x hx hid => ⟨?_, .inl⟩
    exact { Still.refl s.dead x with
      kept := fun _ => rfl
      apt := fun hx' => ⟨hx'.list, fun _ => h x hx hid, fun _ => rfl,
        fun hin => ⟨rfl, (hx'.fed hin).2⟩⟩ }
  exact hmark.trans .spawn

theorem Steady.answerError : Steady A R S s (answerError s st) := by
  rw [Http2Session.answerError]
  split
  · exact .refl
  · have hmark : Steady A R S s
        (s.modify st.id fun x => { x with dispatched := true, rejected := true }) := by
      refine .modify fun x _ _ => ⟨?_, .inl⟩
      exact { Still.refl s.dead x with
        rejected := fun _ => rfl
        kept := fun _ => rfl
        apt := fun hx' => ⟨hx'.list, fun _ => .inr (.inl rfl), fun _ => rfl,
          fun hin => ⟨rfl, (hx'.fed hin).2⟩⟩ }
    exact hmark.trans .spawn

/-! ## Header blocks -/

/-- A list that is decoded without an error is within the cap. -/
theorem decodeLoop_list {fuel c : Nat} {block : Bytes} {t : DynamicTable} {headers : List Field}
    {dec : Decoded} (h : decodeLoop cap block fuel c t headers = some dec) (hok : dec.ok = true) :
    overLimit cap dec.headers = false := by
  induction fuel generalizing c t headers with
  | zero => cases h
  | succ fuel ih =>
    rw [decodeLoop] at h
    split at h
    · obtain rfl := Option.some.inj h
      exact (Bool.not_eq_true' _).mp hok
    · split at h
      · obtain rfl := Option.some.inj h
        exact absurd hok Bool.false_ne_true
      · split at h
        · obtain rfl := Option.some.inj h
          exact absurd hok Bool.false_ne_true
        · exact ih h

theorem decodeHeaderBlock_list {block : Bytes} {t : DynamicTable}
    (hok : (decodeHeaderBlock cap block t).ok = true) :
    overLimit cap (decodeHeaderBlock cap block t).headers = false := by
  rw [decodeHeaderBlock] at hok ⊢
  cases hloop : decodeLoop cap block (roundLimit cap block) 0 t [] with
  | none =>
    rw [hloop] at hok
    exact absurd hok Bool.false_ne_true
  | some dec =>
    rw [hloop] at hok
    exact decodeLoop_list hloop hok

/-- The object of a stream is as its handler takes it to be: a request has no task yet, and
    trailers end the stream. -/
structure Fits (s : Session) (st : StreamState) : Prop where
  ended : st.endStreamReceived = true → ∀ x ∈ s.streams, x.id = st.id → x.endStreamReceived = true
  trailers : st.headersDone = true → ∀ x ∈ s.streams, x.id = st.id → x.endStreamReceived = true
  fresh : st.headersDone = false → ∀ x ∈ s.streams, x.id = st.id → x.dispatched = false

/-- A change of the object that neither ends it nor starts a task. -/
theorem Fits.modify (h : Fits s st)
    (hg : ∀ x, (g x).endStreamReceived = x.endStreamReceived ∧ (g x).dispatched = x.dispatched) :
    Fits (s.modify st.id g) st := by
  constructor
  · intro hend
    refine modified_all fun x hx hid => ?_
    rw [(hg x).1]
    exact h.ended hend x hx hid
  · intro hdone
    refine modified_all fun x hx hid => ?_
    rw [(hg x).1]
    exact h.trailers hdone x hx hid
  · intro hfresh
    refine modified_all fun x hx hid => ?_
    rw [(hg x).2]
    exact h.fresh hfresh x hx hid

/-- What becomes of a stream whose block has been decoded. -/
theorem Steady.actOnBlock {dec : Decoded} (hsid : s.continuationSid = 0) (hfits : Fits s st)
    (hlist : dec.ok = true → overLimit defaultMaxHeaderListSize dec.headers = false) :
    Steady A R S s (actOnBlock s st dec) := by
  rw [Http2Session.actOnBlock]
  split
  · exact .connectionError _
  · split
    · rename_i htrailers
      split
      · exact .dispatch fun x hx hid => .inl (hfits.trailers htrailers x hx hid)
      · exact .refl
    · rename_i hrequest
      have hnew := hfits.fresh (Bool.eq_false_iff.mpr hrequest)
      have hdone : Steady A R S s (s.modify st.id fun x => { x with headersDone := true }) :=
        .modify fun x _ _ =>
          ⟨.same rfl rfl rfl rfl ⟨rfl, rfl, rfl, rfl⟩ ⟨rfl, rfl, rfl⟩, fun _ => .inr hsid⟩
      have hfits1 : Fits (s.modify st.id fun x => { x with headersDone := true }) st :=
        hfits.modify fun _ => ⟨rfl, rfl⟩
      dsimp only
      split
      · exact hdone.trans (Steady.answerError.trans (.sendGoaway _))
      · rename_i hok
        rw [Bool.not_eq_true', Bool.not_eq_false] at hok
        split
        · exact hdone.trans (.resetStream fun _ sid => answers_of_code (by decide) _ sid _)
        · have hheaders : Steady A R S (s.modify st.id fun x => { x with headersDone := true })
              ((s.modify st.id fun x => { x with headersDone := true }).modify st.id
                fun x => { x with headers := dec.headers }) := by
            refine .modify fun x hx hid => ⟨?_, .inl⟩
            have hidle := hfits1.fresh (Bool.eq_false_iff.mpr hrequest) x hx hid
            exact { Still.refl s.dead x with
              apt := fun hx' => ⟨hlist hok,
                fun htask => absurd (htask.symm.trans hidle) Bool.false_ne_true.symm,
                hx'.tunnel,
                fun hin => absurd ((hx'.fed hin).1.symm.trans hidle) Bool.false_ne_true.symm⟩ }
          split
          · rename_i hstart
            refine (hdone.trans hheaders).trans (.dispatch ?_)
            refine modified_all fun x hx hid => ?_
            rcases Bool.or_eq_true_iff.mp hstart with hend | hconnect
            · exact .inl (hfits1.ended hend x hx hid)
            · exact .inr (.inr hconnect)
          · exact hdone.trans hheaders

theorem Steady.finishHeaderBlock (hfits : Fits s st) : Steady A R S s (finishHeaderBlock s st) := by
  rw [Http2Session.finishHeaderBlock]
  generalize hdec : decodeHeaderBlock defaultMaxHeaderListSize st.headerBlock s.decodeTable = dec
  have hlist : dec.ok = true → overLimit defaultMaxHeaderListSize dec.headers = false :=
    hdec ▸ decodeHeaderBlock_list
  have hnote : Steady A R S s (s.record (.headerBlock st.id st.headersDone st.headerBlock
      s.decodeTable s.streamCount)) := by
    refine .record (fun _ => rfl) (fun _ heq => ?_) fun _ _ heq => ?_
    · cases heq
    · cases heq
  have htable : ∀ t : Session, Steady A R S t { t with continuationSid := 0, decodeTable := dec.table } :=
    fun _ => .same (fun h => h) rfl rfl ⟨rfl, rfl⟩ rfl rfl (fun h => h) (.inr rfl)
  have hblock : ∀ t : Session, Steady A R S t (t.modify st.id fun x => { x with headerBlock := [] }) :=
    fun _ => .modify fun x _ _ =>
      ⟨.same rfl rfl rfl rfl ⟨rfl, rfl, rfl, rfl⟩ ⟨rfl, rfl, rfl⟩, .inl⟩
  have hkeep : Steady A R S s (keepTable s st dec) := (hnote.trans (htable _)).trans (hblock _)
  refine hkeep.trans (.actOnBlock rfl ?_ hlist)
  have hsame : Fits { s.record (.headerBlock st.id st.headersDone st.headerBlock s.decodeTable
      s.streamCount) with continuationSid := 0, decodeTable := dec.table } st :=
    ⟨hfits.ended, hfits.trailers, hfits.fresh⟩
  exact hsame.modify fun _ => ⟨rfl, rfl⟩

/-- A fragment goes to a stream: `st` is its object up to the block, and its trailers end
    it. -/
theorem Steady.takeFragment {fragment : Bytes}
    (hst : ∀ x ∈ s.streams, x.id = st.id → x.endStreamReceived = st.endStreamReceived ∧
      x.headersDone = st.headersDone ∧ x.dispatched = st.dispatched)
    (hstarted : st.dispatched = true → st.headersDone = true)
    (htrailers : st.headersDone = true → f.hasFlag flagEndStream = true) :
    Steady A R S s (takeFragment s st f fragment) := by
  have hadd : Steady A R S s (s.modify st.id fun x => { x with
      headerBlock := st.headerBlock ++ fragment
      endStreamReceived := x.endStreamReceived || f.hasFlag flagEndStream }) := by
    refine .modify fun x _ _ => ⟨?_, .inl⟩
    exact { Still.refl s.dead x with
      ended := fun h => Bool.or_eq_true_iff.mpr (.inl h)
      release := fun h => .inl h
      apt := fun h => ⟨h.list,
        fun htask => (h.early htask).imp_left fun hend => Bool.or_eq_true_iff.mpr (.inl hend),
        h.tunnel, h.fed⟩ }
  have hends : st.headersDone = true → ∀ y ∈ (s.modify st.id fun x => { x with
      headerBlock := st.headerBlock ++ fragment
      endStreamReceived := x.endStreamReceived || f.hasFlag flagEndStream }).streams,
      y.id = st.id → y.endStreamReceived = true :=
    fun hdone => modified_all fun x hx hid => Bool.or_eq_true_iff.mpr (.inr (htrailers hdone))
  rw [Http2Session.takeFragment]
  dsimp only
  split
  · refine hadd.trans (.finishHeaderBlock ⟨fun hend => ?_, hends, fun hfresh => ?_⟩)
    · refine modified_all fun x hx hid => ?_
      rw [(hst x hx hid).1]
      exact hend
    · refine modified_all fun x hx hid => ?_
      rw [(hst x hx hid).2.2]
      cases htask : st.dispatched with
      | false => rfl
      | true => exact absurd ((hstarted htask).symm.trans hfresh) Bool.false_ne_true.symm
  · -- the block is to be continued: with headers done, it is the trailers
    refine hadd.trans ⟨fun h => h, rfl, fun _ => rfl, fun _ => Int.le_refl _, fun _ => rfl,
      ⟨[], rfl, fun _ _ he => absurd he not_mem_nil⟩,
      ⟨id, (map_id _).symm, fun x _ => .refl _ x⟩, fun h => h, ?_, fun _ _ h => h⟩
    intro _ _ y hy hid hdone
    have hbefore : ∀ y ∈ (s.modify st.id fun x => { x with
        headerBlock := st.headerBlock ++ fragment
        endStreamReceived := x.endStreamReceived || f.hasFlag flagEndStream }).streams,
        y.id = st.id → y.headersDone = st.headersDone :=
      modified_all fun x hx hid => (hst x hx hid).2.1
    exact hends ((hbefore y hy hid).symm.trans hdone) y hy hid

/-- A new stream for a fragment, and what is done with it. -/
def Opens (A R S : Prop) (s s' : Session) : Prop :=
  ∃ sid, s.lastPeerStreamId < sid ∧
    Steady A R S (openStream s { id := sid, sendWindow := s.peerInitialWindow }) s'

theorem onHeaders_steady (hsound : Sound (tableOf s)) :
    Steady A R S s (onHeaders s f) ∨ Opens A R S s (onHeaders s f) := by
  rw [onHeaders]
  dsimp only
  split
  · exact .inl (.connectionError _)
  · split
    · exact .inl (.connectionError _)
    · split
      · rename_i st hfind
        obtain ⟨hmem, -, -⟩ := find_some hfind
        split
        · exact .inl (.connectionError _)
        · rename_i htrailers
          rw [Bool.or_eq_true, not_or, Bool.not_eq_true', Bool.not_eq_false] at htrailers
          refine .inl (.takeFragment (fun x hx hid => ?_) ?_ fun _ => htrailers.2)
          · rw [hsound.unique_stream hx hmem hid]
            exact ⟨rfl, rfl, rfl⟩
          · exact hsound.started_session st hmem
      · split
        · exact .inl (.connectionError _)
        · rename_i hnew
          refine .inr ⟨f.streamId, Nat.not_le.mp hnew, .takeFragment (fun x hx hid => ?_) ?_ ?_⟩
          · rcases mem_append.mp hx with hold | hnewest
            · have hknown := hsound.known_stream hold
              rw [show x.id = f.streamId from hid] at hknown
              exact absurd hknown hnew
            · rw [mem_singleton.mp hnewest]
              exact ⟨rfl, rfl, rfl⟩
          · exact fun h => absurd h Bool.false_ne_true
          · exact fun h => absurd h Bool.false_ne_true

theorem Steady.onContinuation (hsound : Sound (tableOf s)) (htrailing : Trailing s) :
    Steady A R S s (onContinuation s f) := by
  rw [Http2Session.onContinuation]
  split
  · exact .connectionError _
  · rename_i hopen
    rw [not_or, not_not] at hopen
    split
    · exact .connectionError _
    · rename_i st hfind
      obtain ⟨hmem, hid, -⟩ := find_some hfind
      have hadd : Steady A R S s (s.modify st.id fun x =>
          { x with headerBlock := st.headerBlock ++ f.payload }) :=
        .modify fun x _ _ =>
          ⟨.same rfl rfl rfl rfl ⟨rfl, rfl, rfl, rfl⟩ ⟨rfl, rfl, rfl⟩, .inl⟩
      have hfits : Fits s st := by
        have hst : ∀ x ∈ s.streams, x.id = st.id → x = st :=
          fun x hx hxid => hsound.unique_stream hx hmem hxid
        refine ⟨fun hend x hx hxid => hst x hx hxid ▸ hend, fun hdone x hx hxid => ?_,
          fun hfresh x hx hxid => ?_⟩
        · rw [hst x hx hxid]
          exact htrailing hopen.1 st hmem (hid.trans hopen.2) hdone
        · rw [hst x hx hxid]
          cases htask : st.dispatched with
          | false => rfl
          | true =>
            have hdone := hsound.started_session st hmem htask
            exact absurd (hdone.symm.trans hfresh) Bool.false_ne_true.symm
      have hclosed : ∀ t : Session, Steady A R S t { t with continuationSid := 0 } :=
        fun _ => .same (fun h => h) rfl rfl ⟨rfl, rfl⟩ rfl rfl (fun h => h) (.inr rfl)
      dsimp only
      split
      · exact hadd.trans (.connectionError _)
      · split
        · refine (hadd.trans (hclosed _)).trans (.finishHeaderBlock ?_)
          have hfits1 : Fits (s.modify st.id fun x =>
              { x with headerBlock := st.headerBlock ++ f.payload }) st :=
            hfits.modify fun _ => ⟨rfl, rfl⟩
          exact ⟨hfits1.ended, hfits1.trailers, hfits1.fresh⟩
        · exact hadd

/-! ## Data -/

theorem Steady.endData : Steady A R S s (endData s st f) := by
  have hwake : ∀ t : Session, Steady A R S t (t.modify st.id fun x => { x with parked := false }) :=
    fun _ => .modify fun x _ _ =>
      ⟨.same rfl rfl rfl rfl ⟨rfl, rfl, rfl, rfl⟩ ⟨rfl, rfl, rfl⟩, .inl⟩
  rw [Http2Session.endData]
  refine Steady.trans ?_ (hwake _)
  split
  · have hend : Steady A R S s (s.modify st.id fun x => { x with endStreamReceived := true }) := by
      refine .modify fun x _ _ => ⟨?_, .inl⟩
      exact { Still.refl s.dead x with
        ended := fun _ => rfl
        release := fun h => .inl h
        apt := fun h => ⟨h.list, fun _ => .inl rfl, h.tunnel, h.fed⟩ }
    dsimp only
    split
    · exact hend
    · exact hend.trans (.dispatch (modified_all fun _ _ _ => .inl rfl))
  · exact .refl

theorem windowUpdate_type {n : Nat} : (windowUpdateFrame sid n).type ≠ .rstStream :=
  fun heq => FrameType.noConfusion heq

/-- Credit for the connection. -/
theorem Steady.creditConnection (n : Nat) : Steady A False S s (creditConnection s n) := by
  have hcount : ∀ k, Steady A False S s { s with connRecvUnacked := k } := by
    intro k
    refine ⟨fun h => h, rfl, False.elim, fun _ => Int.le_refl _, fun _ => rfl,
      ⟨[], rfl, fun _ _ he => absurd he not_mem_nil⟩,
      ⟨id, (map_id _).symm, fun x _ => .refl _ x⟩, fun h => h, fun h => h, fun _ _ h => h⟩
  rw [Http2Session.creditConnection]
  split
  · exact (hcount 0).trans (.enqueue False.elim fun _ sid => answers_of_type windowUpdate_type sid _)
  · exact hcount _

/-- A change of the receive accounts of a stream that leaves its tunnel data alone. -/
theorem Steady.modify_unacked (k : StreamState → Nat) :
    Steady A False S s (s.modify sid fun x => { x with recvUnacked := k x }) := by
  refine .modify fun x _ _ => ⟨?_, .inl⟩
  exact { Still.refl (R := False) (S := S) s.dead x with
    unacked := False.elim
    apt := fun h => ⟨h.list, h.early, h.tunnel, h.fed⟩ }

theorem Steady.creditStream (n : Nat) : Steady A False S s (creditStream s st n) := by
  rw [Http2Session.creditStream]
  split
  · exact (Steady.modify_unacked fun _ => 0).trans
      (.enqueue False.elim fun _ sid => answers_of_type windowUpdate_type sid _)
  · exact .modify_unacked _

/-- Data go to a tunnel only when the stream is a CONNECT. -/
theorem Steady.takeData {data : Bytes} (hst : ∀ x ∈ s.streams, x.id = st.id → x = st)
    (hopen : st.endStreamReceived = false ∧ st.rejected = false)
    (hroom : A → (st.tunnelIn ++ data).length ≤ initialStreamWindow) :
    Steady A False S s (takeData cap s st f data) := by
  rw [Http2Session.takeData]
  split
  · rename_i htunnel
    have hin : Steady A False S s (s.modify st.id fun x => { x with tunnelIn := st.tunnelIn ++ data }) := by
      refine .modify fun x hx hid => ⟨?_, .inl⟩
      obtain rfl := hst x hx hid
      exact { Still.refl (R := False) (S := S) s.dead x with
        input := False.elim
        apt := fun h => by
          have htask : x.dispatched = true := (Bool.or_eq_true_iff.mp htunnel).elim h.tunnel fun h => h
          refine ⟨h.list, h.early, h.tunnel, fun _ => ⟨htask, ?_⟩⟩
          rcases h.early htask with hend | hrejected | hconnect
          · exact absurd (hend.symm.trans hopen.1) Bool.false_ne_true.symm
          · exact absurd (hrejected.symm.trans hopen.2) Bool.false_ne_true.symm
          · exact hconnect }
    dsimp only
    split
    · rename_i hfull
      exact hin.trans (.resetStream fun hA => absurd (hroom hA) (Nat.not_le.mpr hfull))
    · exact (hin.trans (.modify_unacked _)).trans .endData
  · have hbody : Steady A False S s (s.modify st.id fun x => { x with body := st.body ++ data }) :=
      .modify fun x _ _ =>
        ⟨.same rfl rfl rfl rfl ⟨rfl, rfl, rfl, rfl⟩ ⟨rfl, rfl, rfl⟩, .inl⟩
    have hreject : ∀ t : Session, Steady A False S t (t.modify st.id fun x =>
        { x with rejected := true }) := by
      refine fun t => .modify fun x _ _ => ⟨?_, .inl⟩
      exact { Still.refl (R := False) (S := S) t.dead x with
        rejected := fun _ => rfl
        apt := fun h => ⟨h.list, fun htask => (h.early htask).imp_right fun _ => .inl rfl,
          h.tunnel, h.fed⟩ }
    have hcredit := hbody.trans
      (Steady.creditStream f.payload.length : Steady A False S _ (Http2Session.creditStream _ st _))
    dsimp only
    split
    · exact hcredit.trans ((hreject _).trans .answerError)
    · exact hcredit.trans .endData

/-- The tunnel that a DATA frame is for keeps its data. -/
def RoomInTunnel (s : Session) (f : Frame) : Prop :=
  ∀ st data, s.find f.streamId = some st → dataPayload f = some data →
    st.endStreamReceived = false → st.reset = false → st.rejected = false →
    (st.tunnelIn ++ data).length ≤ initialStreamWindow

/-- `on_data` moves no send window. -/
theorem Steady.onData (hsound : Sound (tableOf s)) (hroom : A → RoomInTunnel s f) :
    Steady A False S s (onData cap s f) := by
  rw [Http2Session.onData]
  split
  · exact .connectionError _
  · split
    · exact .connectionError _
    · rename_i data hdata
      have hcredit : Steady A False S s (Http2Session.creditConnection s f.payload.length) :=
        .creditConnection _
      have hstreams : (Http2Session.creditConnection s f.payload.length).streams = s.streams := by
        rw [Http2Session.creditConnection]
        split
        · rw [Session.enqueue]
          split
          · rfl
          · rfl
        · rfl
      dsimp only
      split
      · split
        · exact hcredit.trans (.connectionError _)
        · exact hcredit
      · rename_i st hfind
        obtain ⟨hmem, -, -⟩ := find_some hfind
        split
        · exact hcredit.trans (.connectionError _)
        · rename_i hopen
          split
          · exact hcredit
          · rename_i hlive
            simp only [Bool.or_eq_true, not_or, Bool.not_eq_true] at hopen hlive
            rw [hstreams] at hmem
            have hfind' : s.find f.streamId = some st := by
              rw [Session.find, ← hstreams]
              exact hfind
            refine hcredit.trans (.takeData (fun x hx hid => ?_) ⟨hopen.2, hlive.2⟩ fun hA => ?_)
            · exact hsound.unique_stream (hstreams ▸ hx) hmem hid
            · exact hroom hA st data hfind' hdata hopen.2 hlive.1 hlive.2

/-! ## Settings and windows -/

theorem Steady.setInitialWindow (value : Nat) : Steady A R False s (setInitialWindow s value) := by
  have hwindow : ∀ x : StreamState, ∀ w : Int, Still R False s.dead x { x with sendWindow := w } :=
    fun x w => { Still.refl (R := R) (S := False) s.dead x with
      window := False.elim
      apt := fun h => ⟨h.list, h.early, h.tunnel, h.fed⟩ }
  have hstreams : Steady A R False s { s with streams := s.streams.map fun st =>
      if st.held then { st with sendWindow := st.sendWindow + (value - s.peerInitialWindow) }
      else st } := by
    refine .map fun x _ => ?_
    split
    · exact ⟨hwindow x _, .inl⟩
    · exact ⟨.refl _ x, .inl⟩
  refine hstreams.trans ⟨fun h => h, rfl, fun _ => rfl, False.elim, False.elim,
    ⟨[], rfl, fun _ _ he => absurd he not_mem_nil⟩,
    ⟨id, (map_id _).symm, fun x _ => .refl _ x⟩, fun h => h, fun h => h, fun _ _ h => h⟩

/-- `on_settings` moves no receive window. -/
theorem Steady.onSettings : Steady A R False s (onSettings s f) := by
  refine onSettings_ind (fun _ => .refl) (fun _ err => .connectionError err) ?_ ?_ ?_ s f
  · intro s s' value h
    exact (Steady.setInitialWindow value).trans h
  · intro s s' value _ h
    have hsize : Steady A R False s { s with peerMaxFrameSize := value } :=
      .same (fun h => h) rfl rfl ⟨rfl, rfl⟩ rfl rfl (fun h => h) (.inl rfl)
    exact hsize.trans h
  · intro s s' h
    refine h.trans (.enqueue (fun _ heq => ?_) fun _ sid => answers_of_type (fun heq => ?_) sid _)
    · cases heq
    · cases heq

/-- `on_window_update` moves no receive window. -/
theorem Steady.onWindowUpdate : Steady A R False s (onWindowUpdate s f) := by
  have hnote : ∀ (t : Session) (sid inc : Nat), Steady A R False t (t.record (.credited sid inc)) := by
    refine fun t sid inc => .record (fun _ => rfl) (fun _ heq => ?_) fun _ _ heq => ?_
    · cases heq
    · cases heq
  rcases onWindowUpdate_cases s f with
    ⟨err, heq, -⟩ | heq | ⟨-, -, hcases⟩ | ⟨st, -, -, hcases⟩
  · rw [heq]
    exact .connectionError err
  · rw [heq]
    exact .refl
  · have hconn : Steady A R False s
        { s with connSendWindow := s.connSendWindow + windowIncrement f.payload } :=
      ⟨fun h => h, rfl, fun _ => rfl, False.elim, fun _ => rfl,
        ⟨[], rfl, fun _ _ he => absurd he not_mem_nil⟩,
        ⟨id, (map_id _).symm, fun x _ => .refl _ x⟩, fun h => h, fun h => h, fun _ _ h => h⟩
    rcases hcases with heq | ⟨-, heq⟩
    · rw [heq]
      exact (hconn.trans (hnote _ _ _)).trans (.connectionError _)
    · rw [heq]
      exact hconn.trans (hnote _ _ _)
  · have hstream : Steady A R False s (s.modify st.id fun x =>
        { x with sendWindow := x.sendWindow + windowIncrement f.payload }) := by
      refine .modify fun x _ _ => ⟨?_, .inl⟩
      exact { Still.refl (R := R) (S := False) s.dead x with
        window := False.elim
        apt := fun h => ⟨h.list, h.early, h.tunnel, h.fed⟩ }
    rcases hcases with heq | heq | ⟨-, heq⟩
    · rw [heq]
      exact .resetStream fun _ sid => answers_of_code (by decide) _ sid _
    · rw [heq]
      refine (hstream.trans (hnote _ _ _)).trans (.resetStream fun _ sid hreset => ?_)
      obtain rfl : st.id = sid := congrArg Frame.streamId (Event.enqueued.inj hreset)
      exact ⟨_, _, rfl⟩
    · rw [heq]
      exact hstream.trans (hnote _ _ _)

/-! ## The reader -/

theorem Steady.onRstStream : Steady A R S s (onRstStream s f) := by
  rcases onRstStream_cases s f with ⟨err, heq, -⟩ | heq | ⟨st, -, hcases⟩
  · rw [heq]
    exact .connectionError err
  · rw [heq]
    exact .refl
  · rcases hcases with ⟨-, heq⟩ | ⟨-, heq⟩
    · rw [heq]
      exact .modify fun x _ _ => ⟨.reset_mark false x.held fun h => h, .inl⟩
    · rw [heq, erase, modify_modify]
      · refine .modify fun x _ _ => ⟨?_, .inl⟩
        exact .reset_mark false false fun h => absurd h Bool.false_ne_true
      · exact fun _ => rfl

theorem Steady.onPing : Steady A R S s (onPing s f) := by
  rcases onPing_cases s f with ⟨err, heq⟩ | heq | heq
  · rw [heq]
    exact .connectionError err
  · rw [heq]
    exact .refl
  · rw [heq]
    refine .enqueue (fun _ htype => ?_) fun _ sid => answers_of_type (fun htype => ?_) sid _
    · cases htype
    · cases htype

/-- What one step does to a session: it is steady, or steady up to a new stream. -/
def Move (A R S : Prop) (s s' : Session) : Prop :=
  Steady A R S s s' ∨ ∃ s1, Steady A R S s s1 ∧ s1.stopped = false ∧ Opens A R S s1 s'

/-- The frames and reads that move a receive window. -/
def MovesReceive : Action → Prop
  | .frame f => f.type = .data
  | .tunnelRead _ _ => True
  | _ => False

/-- The frames that move a send window up. -/
def MovesSend : Action → Prop
  | .frame f => f.type = .settings ∨ f.type = .windowUpdate
  | _ => False

theorem processFrame_move (hanswers : A → f.type = .data → RoomInTunnel s f)
    (hreceive : R → f.type ≠ .data) (hsend : S → f.type ≠ .settings ∧ f.type ≠ .windowUpdate) (hsound : Sound (tableOf s))
    (htrailing : Trailing s) (hrun : s.stopped = false) : Move A R S s (processFrame cap s f) := by
  have hnote : Steady A R S s (s.record (.received f)) := by
    refine .record (fun hR => bne_iff_ne.mpr (hreceive hR)) (fun _ heq => ?_) fun _ _ heq => ?_
    · cases heq
    · cases heq
  rw [processFrame]
  split
  · exact .inl (hnote.trans (.connectionError _))
  · rw [handleFrame]
    split
    · exact .inl (hnote.trans (.connectionError _))
    · have heffect : Effect anyKind s (s.record (.received f)) := .receive s f trivial
      have hsound' : Sound (tableOf (s.record (.received f))) := effect_sound heffect hsound
      cases htype : f.type with
      | headers =>
        rcases onHeaders_steady (R := R) (S := S) (f := f) hsound' with hsteady | hopens
        · exact .inl (hnote.trans hsteady)
        · exact .inr ⟨_, hnote, hrun, hopens⟩
      | continuation => exact .inl (hnote.trans (.onContinuation hsound' htrailing))
      | data =>
        have hdata : Steady A False S _ (onData cap (s.record (.received f)) f) :=
          .onData hsound' fun hA => hanswers hA htype
        exact .inl (hnote.trans (hdata.weaken (fun hA => hA) (fun hR => hreceive hR htype)
          fun hS => hS))
      | settings =>
        have hsettings : Steady A R False _ (onSettings (s.record (.received f)) f) := .onSettings
        exact .inl (hnote.trans (hsettings.weaken (fun hA => hA) (fun hR => hR)
          fun hS => (hsend hS).1 htype))
      | windowUpdate =>
        have hupdate : Steady A R False _ (onWindowUpdate (s.record (.received f)) f) :=
          .onWindowUpdate
        exact .inl (hnote.trans (hupdate.weaken (fun hA => hA) (fun hR => hR)
          fun hS => (hsend hS).2 htype))
      | ping => exact .inl (hnote.trans .onPing)
      | rstStream => exact .inl (hnote.trans .onRstStream)
      | goaway =>
        exact .inl (hnote.trans (.same (fun h => h) rfl rfl ⟨rfl, rfl⟩ rfl rfl (fun h => h) (.inl rfl)))
      | pushPromise => exact .inl (hnote.trans (.connectionError _))
      | priority => exact .inl hnote
      | extension b => exact .inl hnote

/-! ## Tasks and tunnels -/

theorem Steady.modify_same (sid : Nat) (hg : ∀ x, Still R S s.dead x (g x) ∧
    (g x).headersDone = x.headersDone) : Steady A R S s (s.modify sid g) :=
  .modify fun x _ _ => ⟨(hg x).1, fun h => .inl ((hg x).2 ▸ h)⟩

theorem Steady.endSend (ok : Bool) : Steady A R S s (endSend s sid ok) := by
  have hsend : Steady A R S s (s.modify sid fun x => { x with sending := none }) :=
    .modify_same sid fun x => ⟨.same rfl rfl rfl rfl ⟨rfl, rfl, rfl, rfl⟩ ⟨rfl, rfl, rfl⟩, rfl⟩
  refine hsend.trans (.record (e := .sendEnded sid ok) (fun _ => rfl) (fun _ heq => ?_)
    fun _ _ heq => ?_)
  · cases heq
  · cases heq

theorem Steady.startSend (bytes : Bytes) : Steady A R S s (startSend s sid bytes) := by
  have hsend : Steady A R S s
      (s.modify sid fun x => { x with sending := some { todo := wireFrames bytes } }) :=
    .modify_same sid fun x => ⟨.same rfl rfl rfl rfl ⟨rfl, rfl, rfl, rfl⟩ ⟨rfl, rfl, rfl⟩, rfl⟩
  refine hsend.trans (.record (e := .sendStarted sid bytes) (fun _ => rfl) (fun _ heq => ?_)
    fun _ _ heq => ?_)
  · cases heq
  · cases heq

theorem Steady.sendFrame (todo : List Frame) : Steady A R S s (sendFrame s st f todo) := by
  have hclosed : ∀ (t : Session) (b : Bool), Steady A R S t (t.modify st.id fun x => { x with
      localClosed := x.localClosed || b, sending := some { todo } }) := fun _ _ =>
    .modify_same st.id fun x => ⟨.same rfl rfl rfl rfl ⟨rfl, rfl, rfl, rfl⟩ ⟨rfl, rfl, rfl⟩, rfl⟩
  rw [Http2Session.sendFrame]
  split
  · exact .modify_same st.id fun x =>
      ⟨.same rfl rfl rfl rfl ⟨rfl, rfl, rfl, rfl⟩ ⟨rfl, rfl, rfl⟩, rfl⟩
  · exact (Steady.sendAll _).trans (hclosed _ _)
  · exact (Steady.send _).trans (hclosed _ _)

/-- A chunk only shrinks the send windows. -/
theorem Steady.sendChunk (rest : Bytes) (endStream : Bool) (todo : List Frame) :
    Steady A R S s (sendChunk s st rest endStream todo) := by
  have hconn : ∀ (t : Session) (n : Nat),
      Steady A R S t { t with connSendWindow := t.connSendWindow - n } := by
    intro t n
    have hle : t.connSendWindow - n ≤ t.connSendWindow := by omega
    exact ⟨fun h => h, rfl, fun _ => rfl, fun _ => hle, fun _ => rfl,
      ⟨[], rfl, fun _ _ he => absurd he not_mem_nil⟩,
      ⟨id, (map_id _).symm, fun x _ => .refl _ x⟩, fun h => h, fun h => h, fun _ _ h => h⟩
  have hpiece : ∀ (t : Session) (n : Nat) (b : Bool) (snd : Option Send), Steady A R S t
      (t.modify st.id fun x => { x with
        sendWindow := x.sendWindow - n, localClosed := x.localClosed || b, sending := snd }) := by
    refine fun t n b snd => .modify_same st.id fun x => ⟨?_, rfl⟩
    have hle : x.sendWindow - n ≤ x.sendWindow := by omega
    exact { Still.refl (R := R) (S := S) t.dead x with
      window := fun _ => hle
      apt := fun h => ⟨h.list, h.early, h.tunnel, h.fed⟩ }
  exact (Steady.send _).trans ((hconn _ _).trans (hpiece _ _ _ _))

theorem Steady.resumeSend {snd : Send} (h : resumeSend s st snd = some s') : Steady A R S s s' := by
  obtain ⟨ok, -, rfl⟩ | ⟨f, todo, -, rfl⟩ | ⟨rest, endStream, todo, -, -, -, rfl⟩ :=
    resumeSend_cases h
  · exact .endSend ok
  · exact .sendFrame todo
  · exact .sendChunk rest endStream todo

theorem Steady.timeoutSend {snd : Send} (h : timeoutSend s st snd = some s') :
    Steady A R S s s' := by
  obtain rfl := timeoutSend_some h
  exact .endSend false

theorem Steady.endStream : Steady A R S s (endStream s st) := by
  have hclosed : ∀ t : Session, Steady A R S t
      (t.modify st.id fun x => { x with localClosed := true }) := fun _ =>
    .modify_same st.id fun x => ⟨.same rfl rfl rfl rfl ⟨rfl, rfl, rfl, rfl⟩ ⟨rfl, rfl, rfl⟩, rfl⟩
  refine Steady.trans (.enqueue (fun _ heq => ?_) fun _ sid => answers_of_type (fun heq => ?_) sid _)
    (hclosed _)
  · cases heq
  · cases heq

/-- `tunnel_read` moves no send window. -/
theorem Steady.tunnelRead (hsound : Sound (tableOf s)) (hobj : s.object st.id = some st)
    (size : Nat) : Steady A False S s (tunnelRead s st size) := by
  obtain ⟨hmem, -⟩ := object_some hobj
  rw [Http2Session.tunnelRead]
  split
  · rename_i hdata
    have hread : Steady A False S s (s.modify st.id fun x => { x with
        tunnelIn := st.tunnelIn.drop (min size st.tunnelIn.length) }) := by
      refine .modify fun x hx hid => ⟨?_, .inl⟩
      obtain rfl := hsound.unique_stream hx hmem hid
      exact { Still.refl (R := False) (S := S) s.dead x with
        input := False.elim
        apt := fun h => ⟨h.list, h.early, h.tunnel, fun _ => h.fed hdata⟩ }
    dsimp only
    split
    · have hcredit : ∀ (t : Session) (f : Frame), f.type = .windowUpdate →
          Steady A False S t (t.enqueue f) := fun _ _ htype =>
        .enqueue False.elim fun _ sid => answers_of_type (htype ▸ FrameType.noConfusion) sid _
      exact hread.trans ((hcredit _ _ rfl).trans (.modify_unacked fun _ => 0))
    · exact hread.trans (.modify_unacked _)
  · split
    · exact .modify_same st.id fun x =>
        ⟨.same rfl rfl rfl rfl ⟨rfl, rfl, rfl, rfl⟩ ⟨rfl, rfl, rfl⟩, rfl⟩
    · split
      · exact .refl
      · exact .modify_same st.id fun x =>
          ⟨.same rfl rfl rfl rfl ⟨rfl, rfl, rfl, rfl⟩ ⟨rfl, rfl, rfl⟩, rfl⟩

/-- A task ends when its stream is at its end or reset. -/
theorem Steady.finishTask (hsound : Sound (tableOf s)) (hobj : s.object st.id = some st) :
    Steady A R S s (finishTask s st) := by
  obtain ⟨hmem, -⟩ := object_some hobj
  have hcount : ∀ (t : Session) (n : Nat) (l : List Nat),
      Steady A R S t { t with activeTasks := n, tasks := l } :=
    fun _ _ _ => .same (fun h => h) rfl rfl ⟨rfl, rfl⟩ rfl rfl (fun h => h) (.inl rfl)
  rw [Http2Session.finishTask]
  split
  · rename_i hreason
    rw [Bool.or_eq_true] at hreason
    have herase : Steady A R S s (s.erase st.id) := by
      refine .modify fun x hx hid => ⟨?_, .inl⟩
      obtain rfl := hsound.unique_stream hx hmem hid
      exact { Still.refl s.dead x with
        held := fun h => absurd h Bool.false_ne_true
        release := fun _ => .inr (hreason.elim (fun hend => .inr (.inl hend)) .inl)
        apt := fun h => ⟨h.list, h.early, h.tunnel, h.fed⟩ }
    exact herase.trans (hcount _ _ _)
  · have hreset : ∀ t : Session, Steady A R S t
        ((t.modify st.id fun x => { x with reset := true }).erase st.id) := by
      intro t
      rw [erase, modify_modify]
      · refine .modify fun x _ _ => ⟨?_, .inl⟩
        exact .reset_mark x.parked false fun h => absurd h Bool.false_ne_true
      · exact fun _ => rfl
    refine Steady.trans ?_ ((hreset _).trans (hcount _ _ _))
    refine .enqueue (fun _ heq => ?_) fun _ sid => answers_of_code (by decide) _ sid _
    cases heq

/-- A step of a task or a tunnel. -/
theorem taskStep_steady {a : Action} (hreceive : R → ¬ MovesReceive a) (hsound : Sound (tableOf s))
    (hobj : s.object a.sid = some st) (hstep : taskStep s st a = some s') : Steady A R S s s' := by
  obtain ⟨hmem, hid⟩ := object_some hobj
  cases a with
  | startSend sid bytes =>
    obtain ⟨-, hstep⟩ := Option.ite_none_right_eq_some.mp hstep
    obtain rfl := Option.some.inj hstep
    exact .startSend bytes
  | tunnelWrite sid data =>
    obtain ⟨-, hstep⟩ := Option.ite_none_right_eq_some.mp hstep
    obtain rfl := Option.some.inj hstep
    split
    · exact .refl
    · exact .startSend _
  | resume sid =>
    obtain ⟨snd, -, hstep⟩ := Option.bind_eq_some_iff.mp hstep
    exact .resumeSend hstep
  | timeout sid =>
    obtain ⟨snd, -, hstep⟩ := Option.bind_eq_some_iff.mp hstep
    exact .timeoutSend hstep
  | startTunnel sid =>
    obtain ⟨⟨htask, -⟩, hstep⟩ := Option.ite_none_right_eq_some.mp hstep
    obtain rfl := Option.some.inj hstep
    refine .modify fun x hx hxid => ⟨?_, .inl⟩
    obtain rfl := hsound.unique_stream hx hmem (hxid.trans hid.symm)
    exact { Still.refl s.dead x with
      apt := fun h => ⟨h.list, h.early, fun _ => htask, h.fed⟩ }
  | endResponse sid =>
    obtain ⟨-, hstep⟩ := Option.ite_none_right_eq_some.mp hstep
    obtain rfl := Option.some.inj hstep
    exact .endStream
  | shutdownSend sid =>
    obtain ⟨-, hstep⟩ := Option.ite_none_right_eq_some.mp hstep
    obtain rfl := Option.some.inj hstep
    exact .endStream
  | tunnelRead sid size =>
    obtain ⟨-, hstep⟩ := Option.ite_none_right_eq_some.mp hstep
    obtain rfl := Option.some.inj hstep
    exact (Steady.tunnelRead hsound (hid ▸ hobj) size).weaken (fun hA => hA)
      (fun hR => hreceive hR trivial) fun hS => hS
  | tunnelCancel sid =>
    obtain ⟨-, hstep⟩ := Option.ite_none_right_eq_some.mp hstep
    obtain rfl := Option.some.inj hstep
    exact .modify_same sid fun x =>
      ⟨.same rfl rfl rfl rfl ⟨rfl, rfl, rfl, rfl⟩ ⟨rfl, rfl, rfl⟩, rfl⟩
  | tunnelClose sid =>
    obtain ⟨-, hstep⟩ := Option.ite_none_right_eq_some.mp hstep
    obtain rfl := Option.some.inj hstep
    have hreset : ∀ t : Session, Steady A R S t
        (t.modify sid fun x => { x with reset := true, parked := false }) :=
      fun _ => .modify fun x _ _ => ⟨.reset_mark false x.held fun h => h, .inl⟩
    refine Steady.trans (.enqueue (fun _ heq => ?_) fun _ k => answers_of_code (by decide) _ k _)
      (hreset _)
    cases heq
  | finishTask sid =>
    obtain ⟨-, hstep⟩ := Option.ite_none_right_eq_some.mp hstep
    obtain rfl := Option.some.inj hstep
    exact .finishTask hsound (hid ▸ hobj)
  | _ => cases hstep

/-! ## Runs -/

/-- Every step but the ones that move a window leaves it alone. -/
theorem step_move {a : Action} (hanswers : A → ∀ f, a = .frame f → f.type = .data → RoomInTunnel s f)
    (hreceive : R → ¬ MovesReceive a) (hsend : S → ¬ MovesSend a)
    (hsound : Sound (tableOf s)) (htrailing : Trailing s) (hstep : step cap s a = some s') :
    Move A R S s s' := by
  have htask : ((s.object a.sid).bind fun st => taskStep s st a) = some s' → Move A R S s s' := by
    intro hstep
    obtain ⟨st, hobj, hstep⟩ := Option.bind_eq_some_iff.mp hstep
    exact .inl (taskStep_steady hreceive hsound hobj hstep)
  cases a with
  | frame f =>
    obtain ⟨hrun, hstep⟩ := Option.ite_none_left_eq_some.mp hstep
    obtain rfl := Option.some.inj hstep
    rw [Bool.or_eq_true, not_or, Bool.not_eq_true] at hrun
    exact processFrame_move (fun hA => hanswers hA f rfl) hreceive
      (fun hS => not_or.mp (hsend hS)) hsound htrailing hrun.1
  | notAccepting =>
    obtain ⟨-, hstep⟩ := Option.ite_none_left_eq_some.mp hstep
    obtain rfl := Option.some.inj hstep
    exact .inl (.sendGoaway _)
  | idleTimeout =>
    obtain ⟨-, hstep⟩ := Option.ite_none_left_eq_some.mp hstep
    obtain rfl := Option.some.inj hstep
    exact .inl ((Steady.sendGoaway _).trans .stop)
  | drained =>
    obtain ⟨-, hstep⟩ := Option.ite_none_left_eq_some.mp hstep
    obtain rfl := Option.some.inj hstep
    exact .inl .stop
  | readError =>
    obtain ⟨-, hstep⟩ := Option.ite_none_left_eq_some.mp hstep
    obtain rfl := Option.some.inj hstep
    exact .inl (Steady.markDead.trans .stop)
  | shutdown =>
    obtain ⟨-, hstep⟩ := Option.ite_none_right_eq_some.mp hstep
    obtain rfl := Option.some.inj hstep
    exact .inl .markDeadAfterFlush
  | markDead =>
    obtain rfl := Option.some.inj hstep
    exact .inl .markDead
  | clear =>
    obtain ⟨⟨-, hdead, -⟩, hstep⟩ := Option.ite_none_right_eq_some.mp hstep
    obtain rfl := Option.some.inj hstep
    refine .inl (.map fun x _ => ⟨?_, .inl⟩)
    exact { Still.refl s.dead x with
      held := fun h => absurd h Bool.false_ne_true
      release := fun _ => .inr (.inr (.inr hdead))
      apt := fun h => ⟨h.list, h.early, h.tunnel, h.fed⟩ }
  | written n =>
    obtain rfl := Option.some.inj hstep
    exact .inl (.same (fun h => h) rfl rfl ⟨rfl, rfl⟩ rfl rfl (fun h => h) (.inl rfl))
  | _ => exact htask hstep

/-- What holds in every reachable session: streams are apt, errors halt, trailers end. -/
structure Sane (s : Session) : Prop where
  apt : ∀ x ∈ s.streams, Apt x
  released : ∀ x ∈ s.streams, x.held = false →
    x.reset = true ∨ x.endStreamReceived = true ∨ s.dead = true
  halts : Halts s
  trailing : Trailing s

theorem Sane.steady (h : Sane s) (hs : Steady A R S s s') : Sane s' := by
  obtain ⟨g, hg, hstill⟩ := hs.streams
  refine ⟨?_, ?_, hs.halts h.halts, hs.trailing h.trailing⟩
  · rw [hg]
    intro y hy
    obtain ⟨x, hx, rfl⟩ := mem_map.mp hy
    exact (hstill x hx).apt (h.apt x hx)
  · rw [hg]
    intro y hy hheld
    obtain ⟨x, hx, rfl⟩ := mem_map.mp hy
    rcases (hstill x hx).release hheld with hbefore | hreason
    · rcases h.released x hx hbefore with hreset | hended | hdead
      · exact .inl ((hstill x hx).reset hreset)
      · exact .inr (.inl ((hstill x hx).ended hended))
      · exact .inr (.inr (hs.dead hdead))
    · exact hreason

theorem Sane.openStream (h : Sane s) (hrun : s.stopped = false) (w : Int) :
    Sane (openStream s { id := sid, sendWindow := w }) := by
  constructor
  · intro x hx
    rcases mem_append.mp hx with hold | hnew
    · exact h.apt x hold
    · rw [mem_singleton.mp hnew]
      exact ⟨rfl, fun htask => absurd htask Bool.false_ne_true,
        fun htunnel => absurd htunnel Bool.false_ne_true, fun hin => absurd rfl hin⟩
  · intro x hx hheld
    rcases mem_append.mp hx with hold | hnew
    · exact h.released x hold hheld
    · rw [mem_singleton.mp hnew] at hheld
      exact absurd hheld.symm Bool.false_ne_true
  · rintro ⟨err, herr⟩
    have hbefore : Event.connectionError err ∈ s.log := by
      rcases mem_cons.mp herr with heq | hlog
      · cases heq
      · exact hlog
    exact absurd ((h.halts ⟨err, hbefore⟩).1.symm.trans hrun) Bool.false_ne_true.symm
  · intro hopen x hx hid hdone
    rcases mem_append.mp hx with hold | hnew
    · exact h.trailing hopen x hold hid hdone
    · rw [mem_singleton.mp hnew] at hdone
      exact absurd hdone Bool.false_ne_true

theorem Sane.move (h : Sane s) (hmove : Move A R S s s') : Sane s' := by
  rcases hmove with hsteady | ⟨s1, hbefore, hrun, sid, -, hafter⟩
  · exact h.steady hsteady
  · exact ((h.steady hbefore).openStream hrun _).steady hafter

theorem initial_log : initial.log = sessionPreamble.reverse.map .enqueued := rfl

theorem initial_sane : Sane initial := by
  refine ⟨fun x hx => ?_, fun x hx => ?_, ?_, ?_⟩
  · exact absurd hx not_mem_nil
  · exact absurd hx not_mem_nil
  · rintro ⟨err, herr⟩
    rw [initial_log] at herr
    obtain ⟨f, -, heq⟩ := mem_map.mp herr
    cases heq
  · exact fun hopen => absurd rfl hopen

theorem reachable_sane (h : (sessions cap).Reachable s) : Sane s := by
  refine (h.invariant (I := fun s => (sessions cap).Reachable s ∧ Sane s) ?_ ?_).2
  · intro s h₀
    exact ⟨⟨s, h₀, .refl⟩, h₀ ▸ initial_sane⟩
  · rintro s s' ⟨a, hstep⟩ ⟨hreach, hsane⟩
    have hmove : Move False False False s s' :=
      step_move False.elim False.elim False.elim (reachable_sound hreach) hsane.trailing hstep
    obtain ⟨s₀, h₀, hrun⟩ := hreach
    exact ⟨⟨s₀, h₀, hrun.tail ⟨a, hstep⟩⟩, hsane.move hmove⟩

end Http2Steady
