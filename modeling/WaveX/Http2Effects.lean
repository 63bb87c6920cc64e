import WaveX.Http2Session

/-! # What a session can do

    The handlers of the reader and the steps of the tasks are compositions of a few
    changes to the session.  `Effect` lists these changes with the facts that hold when
    they happen, and every action of a session is a sequence of effects
    (`step_effects`).  The invariants of the following files are proved for effects. -/

namespace Http2Effects

open QuicVarInt Hpack Http2Frames Http2Session Http2Session.Session List

/-- A change of stream objects that touches neither their place in `streams_`, nor their
    window, nor what has been started or ended for them. -/
def Quiet (g : StreamState → StreamState) : Prop :=
  ∀ x, (g x).id = x.id ∧ (g x).held = x.held ∧ (g x).sendWindow = x.sendWindow ∧
    (g x).headersDone = x.headersDone ∧ (g x).dispatched = x.dispatched ∧
    (g x).sending = x.sending ∧ (g x).tunnel = x.tunnel ∧ (g x).localClosed = x.localClosed

/-- Events that come with no other change. -/
def quietEvent : Event → Bool
  | .connectionError _ | .headerBlock _ _ _ _ _ => true
  | .enqueued f => f.type != .data && f.type != .headers
  | _ => false

/-- Changes that only some actions make. -/
inductive Kind where
  /-- The reader takes up a frame. -/
  | receive
  /-- A `send_frames` goes on. -/
  | send
  /-- A stream is ended by an empty DATA frame. -/
  | close
  /-- A tunnel writes. -/
  | write (data : Bytes)

/-- The block of a new stream, just completed, has a list beyond the cap. -/
def OverCap (s : Session) : Prop :=
  ∃ sid block table past, s.log = .headerBlock sid false block table s.streamCount :: past ∧
    (decodeHeaderBlock defaultMaxHeaderListSize block table).limitExceeded = true

/-- A change to the session of a kind that `may` happen, with what is known then. -/
inductive Effect (may : Kind → Prop) : Session → Session → Prop where
  /-- Members that count no stream and no window. -/
  | scalars (s : Session) (outboxBytes connRecvUnacked continuationSid : Nat)
      (decodeTable : DynamicTable) (dead goawaySent goawayReceived stopped : Bool) :
      Effect may s { s with
        outboxBytes, connRecvUnacked, continuationSid, decodeTable, dead, goawaySent,
        goawayReceived, stopped }
  | receive (s : Session) (f : Frame) (h : may .receive) : Effect may s (s.record (.received f))
  | note (s : Session) (e : Event) (he : quietEvent e = true) : Effect may s (s.record e)
  | touch (s : Session) (g : StreamState → StreamState) (hg : Quiet g) :
      Effect may s { s with streams := s.streams.map g }
  | openStream (s : Session) (sid : Nat) (h : s.lastPeerStreamId < sid) :
      Effect may s (openStream s { id := sid, sendWindow := s.peerInitialWindow })
  /-- The headers of a stream are done: there is room for it, or its list was beyond the
      cap. -/
  | accept (s : Session) (sid : Nat) (h : s.streamCount ≤ maxConcurrentStreams ∨ OverCap s) :
      Effect may s (s.modify sid fun x => { x with headersDone := true })
  | refuse (s : Session) (sid : Nat) (x : StreamState) (hfind : s.find sid = some x)
      (hd : x.dispatched = false) :
      Effect may s (s.modify sid fun x =>
        { x with headersDone := true, reset := true, parked := false, held := false })
  | spawn (s : Session) (sid : Nat) (x : StreamState) (hfind : s.find sid = some x)
      (hd : x.dispatched = false) (hh : x.headersDone = true) :
      Effect may s (({ s.modify sid fun x => { x with dispatched := true } with
        activeTasks := s.activeTasks + 1, tasks := sid :: s.tasks }).record (.task sid))
  /-- A stream without a task leaves `streams_`. -/
  | drop (s : Session) (sid : Nat) (x : StreamState) (hfind : s.find sid = some x)
      (hd : x.dispatched = false) : Effect may s (s.erase sid)
  | finish (s : Session) (sid : Nat) (h : sid ∈ s.tasks) :
      Effect may s { s.erase sid with
        activeTasks := s.activeTasks - 1, tasks := s.tasks.erase sid }
  | clear (s : Session) (h : s.activeTasks = 0) :
      Effect may s { s with streams := s.streams.map fun st => { st with held := false } }
  | creditConnection (s : Session) (inc : Nat) (f : Frame) (past : List Event)
      (hlog : s.log = .received f :: past) (hinc : increment 0 f = inc) :
      Effect may s (({ s with connSendWindow := s.connSendWindow + inc }).record (.credited 0 inc))
  | creditStream (s : Session) (sid inc : Nat) (x : StreamState) (f : Frame) (past : List Event)
      (hfind : s.find sid = some x) (hlog : s.log = .received f :: past)
      (hinc : increment sid f = inc) :
      Effect may s ((s.modify sid fun x => { x with sendWindow := x.sendWindow + inc }).record
        (.credited sid inc))
  | initialWindow (s : Session) (value : Nat) : Effect may s (setInitialWindow s value)
  | frameSize (s : Session) (value : Nat) (h : 16384 ≤ value) :
      Effect may s { s with peerMaxFrameSize := value }
  | startTunnel (s : Session) (sid : Nat) (st : StreamState) (hobj : s.object sid = some st)
      (hsend : st.sending = none) :
      Effect may s (s.modify sid fun x => { x with tunnel := true })
  | endStream (s : Session) (st : StreamState) (h : may .close) (hobj : s.object st.id = some st)
      (hopen : st.localClosed = false) : Effect may s (endStream s st)
  /-- A tunnel sends one DATA frame at a time, as long as it is open. -/
  | startSend (s : Session) (sid : Nat) (bytes : Bytes) (st : StreamState)
      (hobj : s.object sid = some st) (hsend : st.sending = none)
      (htunnel : st.tunnel = true → st.localClosed = false ∧
        ∃ data, may (.write data) ∧ bytes = encodeFrame (dataFrame sid data false)) :
      Effect may s (startSend s sid bytes)
  | endSend (s : Session) (sid : Nat) (ok : Bool) (st : StreamState) (snd : Send)
      (hobj : s.object sid = some st) (hsend : st.sending = some snd)
      (hok : ok = true → snd = { todo := [] }) : Effect may s (endSend s sid ok)
  | sendFrame (s : Session) (st : StreamState) (f : Frame) (todo : List Frame) (h : may .send)
      (hobj : s.object st.id = some st) (hsend : st.sending = some { todo := f :: todo }) :
      Effect may s (sendFrame s st f todo)
  | sendChunk (s : Session) (st : StreamState) (rest : Bytes) (endStream : Bool)
      (todo : List Frame) (h : may .send) (hobj : s.object st.id = some st)
      (hsend : st.sending = some { todo, piece := some (rest, endStream) })
      (hdead : s.dead = false)
      (hopen : rest ≠ [] → 0 < st.sendWindow ∧ 0 < s.connSendWindow) :
      Effect may s (sendChunk s st rest endStream todo)

/-- A sequence of effects. -/
abbrev Effects (may : Kind → Prop) : Session → Session → Prop :=
  Relation.ReflTransGen (Effect may)

/-- Any kind of change may happen. -/
abbrev anyKind : Kind → Prop := fun _ => True

/-! ## Looking up streams -/

variable {may : Kind → Prop} {s s' : Session} {sid : Nat} {x st : StreamState}
  {g : StreamState → StreamState} {block : Bytes} {table : DynamicTable}

theorem find_some (h : s.find sid = some x) : x ∈ s.streams ∧ x.id = sid ∧ x.held = true := by
  have hp := find?_some h
  rw [Bool.and_eq_true, beq_iff_eq] at hp
  exact ⟨mem_of_find?_eq_some h, hp.1, hp.2⟩

theorem object_some (h : s.object sid = some x) : x ∈ s.streams ∧ x.id = sid := by
  have hp := find?_some h
  rw [beq_iff_eq] at hp
  exact ⟨mem_of_find?_eq_some h, hp⟩

/-- A change that keeps ids and places keeps lookups, up to the change. -/
theorem find_map (hg : ∀ x, (g x).id = x.id ∧ (g x).held = x.held) :
    ({ s with streams := s.streams.map g }).find sid = (s.find sid).map g := by
  rw [find, find, find?_map]
  congr 2
  funext st
  rw [Function.comp, (hg st).1, (hg st).2]

theorem find_modify (hg : ∀ x, (g x).id = x.id ∧ (g x).held = x.held) (h : s.find sid = some x) :
    (s.modify sid g).find sid = some (g x) := by
  rw [Session.modify, find_map, h, Option.map_some, if_pos (find_some h).2.1]
  intro st
  split
  · exact hg st
  · exact ⟨rfl, rfl⟩

theorem Quiet.find_modify (hg : Quiet g) (h : s.find sid = some x) :
    (s.modify sid g).find sid = some (g x) :=
  Http2Effects.find_modify (fun x => ⟨(hg x).1, (hg x).2.1⟩) h

theorem modify_modify {h : StreamState → StreamState} (hg : ∀ x, (g x).id = x.id) :
    (s.modify sid g).modify sid h = s.modify sid fun x => h (g x) := by
  rw [Session.modify, Session.modify, Session.modify]
  simp only [map_map]
  congr 2
  funext st
  rw [Function.comp]
  by_cases hst : st.id = sid
  · rw [if_pos hst, if_pos ((hg st).trans hst), if_pos hst]
  · rw [if_neg hst, if_neg hst, if_neg hst]

theorem modify_enqueue (f : Frame) : (s.modify sid g).enqueue f = (s.enqueue f).modify sid g := by
  rw [enqueue, enqueue]
  show (if s.dead = true then _ else _) = _
  split
  · rfl
  · rfl

theorem find_enqueue (f : Frame) : (s.enqueue f).find sid = s.find sid := by
  rw [enqueue]
  split
  · rfl
  · rfl

theorem streamCount_modify (hg : Quiet g) : (s.modify sid g).streamCount = s.streamCount := by
  rw [streamCount, streamCount, Session.modify]
  simp only [countP_map]
  congr 1
  funext st
  rw [Function.comp]
  split
  · rw [(hg st).2.1]
  · rfl

/-! ## What a handler comes to -/

/-- A `send_frames` that goes on returns, takes up its next frame or sends of its piece. -/
theorem resumeSend_cases {snd : Send} (h : resumeSend s st snd = some s') :
    (∃ ok, (ok = true → snd = { todo := [] }) ∧ s' = endSend s st.id ok) ∨
      (∃ f todo, snd = { todo := f :: todo } ∧ s' = sendFrame s st f todo) ∨
      ∃ rest endStream todo, snd = { todo, piece := some (rest, endStream) } ∧
        failed s st = false ∧ (rest = [] ∨ windowsOpen s st = true) ∧
        s' = sendChunk s st rest endStream todo := by
  rw [resumeSend.eq_def] at h
  split at h
  · exact .inl ⟨true, fun _ => rfl, (Option.some.inj h).symm⟩
  · split at h
    · exact .inl ⟨false, nofun, (Option.some.inj h).symm⟩
    · split at h
      · exact .inr (.inl ⟨_, _, rfl, (Option.some.inj h).symm⟩)
      · cases h
  · split at h
    · exact .inl ⟨false, nofun, (Option.some.inj h).symm⟩
    · rename_i hfailed
      split at h
      · rename_i hwait
        exact .inr (.inr ⟨_, _, _, rfl, Bool.eq_false_iff.mpr hfailed, hwait,
          (Option.some.inj h).symm⟩)
      · cases h

theorem timeoutSend_some {snd : Send} (h : timeoutSend s st snd = some s') :
    s' = endSend s st.id false := by
  rw [timeoutSend] at h
  split at h
  · cases h
  · exact (Option.some.inj h).symm

/-- `on_settings`: the parameters one by one, and then the acknowledgment, or an error. -/
theorem onSettings_ind {P : Session → Session → Prop} (hrefl : ∀ s, P s s)
    (herror : ∀ s err, P s (connectionError s err))
    (hwindow : ∀ {s s'} value, P (setInitialWindow s value) s' → P s s')
    (hsize : ∀ {s s' : Session} value, 16384 ≤ value →
      P { s with peerMaxFrameSize := value } s' → P s s')
    (hack : ∀ {s s'}, P s s' → P s (s'.enqueue settingsAckFrame)) (s : Session) (f : Frame) :
    P s (onSettings s f) := by
  have happly : ∀ (params : List (Nat × Nat)) (s : Session), P s (applySettings s params).1 := by
    intro params
    induction params with
    | nil => exact hrefl
    | cons p rest ih =>
      intro s
      obtain ⟨id, value⟩ := p
      rw [applySettings]
      split
      · split
        · exact herror s _
        · exact hwindow value (ih _)
      · split
        · split
          · exact herror s _
          · rename_i hrange
            rw [not_or, Nat.not_lt] at hrange
            exact hsize value hrange.1 (ih _)
        · split
          · exact herror s _
          · exact ih s
  rw [onSettings]
  split
  · exact herror s _
  · split
    · split
      · exact hrefl s
      · exact herror s _
    · split
      · exact herror s _
      · have hparams := happly (settingsOf f.payload) s
        split
        · rename_i hres
          rw [hres] at hparams
          exact hparams
        · rename_i hres
          rw [hres] at hparams
          exact hack hparams

theorem onPing_cases (s : Session) (f : Frame) :
    (∃ err, onPing s f = connectionError s err) ∨ onPing s f = s ∨
      onPing s f = s.enqueue
        { type := .ping, flags := flagAck, streamId := 0, payload := f.payload } := by
  rw [onPing]
  split
  · exact .inl ⟨_, rfl⟩
  · split
    · exact .inl ⟨_, rfl⟩
    · split
      · exact .inr (.inl rfl)
      · exact .inr (.inr rfl)

/-- The stream that a RST_STREAM names is reset, and leaves `streams_` unless it has a task. -/
theorem onRstStream_cases (s : Session) (f : Frame) :
    (∃ err, onRstStream s f = connectionError s err ∧
        (f.payload.length ≠ 4 ∨ f.streamId = 0)) ∨
      onRstStream s f = s ∨
      ∃ st, s.find f.streamId = some st ∧
        ((st.dispatched = true ∧ onRstStream s f =
            s.modify st.id fun x => { x with reset := true, parked := false }) ∨
          (st.dispatched = false ∧ onRstStream s f =
            (s.modify st.id fun x => { x with reset := true, parked := false }).erase st.id)) := by
  rw [onRstStream]
  split
  · rename_i hzero
    exact .inl ⟨_, rfl, .inr hzero⟩
  · split
    · rename_i hlen
      exact .inl ⟨_, rfl, .inl hlen⟩
    · split
      · exact .inr (.inl rfl)
      · rename_i st hfind
        refine .inr (.inr ⟨st, hfind, ?_⟩)
        dsimp only
        split
        · rename_i hdispatched
          exact .inl ⟨hdispatched, rfl⟩
        · rename_i hnot
          exact .inr ⟨Bool.eq_false_iff.mpr hnot, rfl⟩

/-- The connection's send window with an increment. -/
abbrev creditedConnection (s : Session) (inc : Nat) : Session :=
  ({ s with connSendWindow := s.connSendWindow + inc }).record (.credited 0 inc)

/-- A stream's send window with an increment. -/
abbrev creditedStream (s : Session) (sid inc : Nat) : Session :=
  (s.modify sid fun x => { x with sendWindow := x.sendWindow + inc }).record (.credited sid inc)

/-- An increment is added, and a window beyond the bound answered. -/
theorem onWindowUpdate_cases (s : Session) (f : Frame) :
    (∃ err, onWindowUpdate s f = connectionError s err ∧
        (f.payload.length ≠ 4 ∨ f.streamId = 0)) ∨
      onWindowUpdate s f = s ∨
      (f.payload.length = 4 ∧ f.streamId = 0 ∧
        (onWindowUpdate s f = connectionError
            (creditedConnection s (windowIncrement f.payload)) .flowControlError ∨
          (s.connSendWindow + windowIncrement f.payload ≤ maxWindow ∧
            onWindowUpdate s f = creditedConnection s (windowIncrement f.payload)))) ∨
      ∃ st, f.payload.length = 4 ∧ s.find f.streamId = some st ∧
        (onWindowUpdate s f = resetStream s st .protocolError ∨
          onWindowUpdate s f = resetStream
            (creditedStream s st.id (windowIncrement f.payload)) st .flowControlError ∨
          (st.sendWindow + windowIncrement f.payload ≤ maxWindow ∧
            onWindowUpdate s f = creditedStream s st.id (windowIncrement f.payload))) := by
  rw [onWindowUpdate]
  split
  · rename_i hlen
    exact .inl ⟨_, rfl, .inl hlen⟩
  · rename_i hlen
    rw [not_not] at hlen
    dsimp only
    split
    · rename_i hzero
      split
      · exact .inl ⟨_, rfl, .inr hzero⟩
      · split
        · exact .inr (.inr (.inl ⟨hlen, hzero, .inl rfl⟩))
        · rename_i hfits
          exact .inr (.inr (.inl ⟨hlen, hzero, .inr ⟨Int.not_lt.mp hfits, rfl⟩⟩))
    · split
      · exact .inr (.inl rfl)
      · rename_i st hfind
        refine .inr (.inr (.inr ⟨st, hlen, hfind, ?_⟩))
        split
        · exact .inl rfl
        · split
          · exact .inr (.inl rfl)
          · rename_i hfits
            exact .inr (.inr ⟨Int.not_lt.mp hfits, rfl⟩)

/-! ## Building blocks -/

theorem quiet_at (hg : Quiet g) : Quiet fun st => if st.id = sid then g st else st := by
  intro st
  dsimp only
  split
  · exact hg st
  · exact ⟨rfl, rfl, rfl, rfl, rfl, rfl, rfl, rfl⟩

theorem modify_effects (hg : Quiet g) : Effects may s (s.modify sid g) :=
  .single (.touch s _ (quiet_at hg))

theorem record_effects {e : Event} (he : quietEvent e = true) : Effects may s (s.record e) :=
  .single (.note s e he)

variable {f : Frame}

theorem enqueue_effects (hf : quietEvent (.enqueued f) = true) :
    Effects may s (s.enqueue f) := by
  rw [enqueue]
  split
  · exact .refl
  · exact (Relation.ReflTransGen.single (.scalars s _ _ _ _ _ _ _ _)).tail (.note _ _ hf)

theorem continuationSid_effects (k : Nat) : Effects may s { s with continuationSid := k } :=
  .single (.scalars s _ _ k _ _ _ _ _)

theorem sendGoaway_effects (err : ErrorCode) : Effects may s (sendGoaway s err) := by
  rw [sendGoaway]
  split
  · exact .refl
  · exact (Relation.ReflTransGen.single (.scalars s _ _ _ _ _ _ _ _)).trans
      (enqueue_effects rfl)

theorem markDeadAfterFlush_effects : Effects may s (markDeadAfterFlush s) := by
  refine .single (.touch s _ ?_)
  intro st
  dsimp only
  split
  · exact ⟨rfl, rfl, rfl, rfl, rfl, rfl, rfl, rfl⟩
  · exact ⟨rfl, rfl, rfl, rfl, rfl, rfl, rfl, rfl⟩

theorem markDead_effects : Effects may s (markDead s) := by
  rw [markDead]
  split
  · exact .refl
  · refine (Relation.ReflTransGen.single (.touch s _ ?_)).tail (.scalars _ _ _ _ _ _ _ _ _)
    intro st
    dsimp only
    split
    · exact ⟨rfl, rfl, rfl, rfl, rfl, rfl, rfl, rfl⟩
    · exact ⟨rfl, rfl, rfl, rfl, rfl, rfl, rfl, rfl⟩

theorem connectionError_effects (err : ErrorCode) : Effects may s (connectionError s err) := by
  rw [connectionError]
  have hnote : Effects may s (s.record (.connectionError err)) := record_effects rfl
  have h := hnote.trans ((sendGoaway_effects err).trans markDeadAfterFlush_effects)
  exact h.tail (.scalars _ _ _ _ _ _ _ _ _)

/-- `reset_stream` of a stream in `streams_`. -/
theorem resetStream_effects (err : ErrorCode) (hfind : s.find st.id = some x)
    (hd : x.dispatched = st.dispatched) : Effects may s (resetStream s st err) := by
  have hquiet : Quiet fun x : StreamState => { x with reset := true, parked := false } :=
    fun _ => ⟨rfl, rfl, rfl, rfl, rfl, rfl, rfl, rfl⟩
  -- the RST_STREAM frame, unless it has been sent before
  obtain ⟨s1, hs1, hfind1, heq⟩ : ∃ s1, Effects may s s1 ∧ s1.find st.id = some x ∧
      s1 = if st.reset then s else s.enqueue (rstStreamFrame st.id err) := by
    split
    · exact ⟨s, .refl, hfind, rfl⟩
    · exact ⟨_, enqueue_effects rfl, (find_enqueue _).trans hfind, rfl⟩
  rw [resetStream, ← heq]
  have hs2 : Effects may s (s1.modify st.id _) := hs1.trans (modify_effects hquiet)
  split
  · exact hs2
  · rename_i hnot
    refine hs2.tail (.drop _ _ _ (hquiet.find_modify hfind1) ?_)
    exact hd.trans (Bool.eq_false_iff.mpr hnot)

/-- `dispatch` of a stream in `streams_` whose headers are done. -/
theorem dispatch_effects (hfind : s.find sid = some x) (hd : x.dispatched = false)
    (hh : x.headersDone = true) : Effects may s (dispatch s sid) := by
  have hfound : (s.modify sid fun x => { x with dispatched := true }).find sid =
      some { x with dispatched := true } :=
    find_modify (g := fun x => { x with dispatched := true }) (fun _ => ⟨rfl, rfl⟩) hfind
  rw [dispatch, spawn]
  dsimp only
  rw [if_pos]
  · exact .single (.spawn s sid x hfind hd hh)
  · exact Option.isSome_of_mem hfound

theorem answerError_effects (hfind : s.find st.id = some x)
    (hd : x.dispatched = st.dispatched) (hh : x.headersDone = true) :
    Effects may s (answerError s st) := by
  rw [answerError]
  split
  · exact .refl
  · rename_i hnot
    have hquiet : Quiet fun x : StreamState => { x with rejected := true } :=
      fun _ => ⟨rfl, rfl, rfl, rfl, rfl, rfl, rfl, rfl⟩
    have hsplit : (s.modify st.id fun x => { x with dispatched := true, rejected := true }) =
        (s.modify st.id fun x => { x with rejected := true }).modify st.id
          fun x => { x with dispatched := true } := by
      rw [modify_modify]
      exact fun _ => rfl
    rw [hsplit]
    exact (modify_effects hquiet).trans (dispatch_effects (hquiet.find_modify hfind)
      (hd.trans (Bool.eq_false_iff.mpr hnot)) hh)

/-! ## The reader -/

/-- Refusing a stream: its headers are done, it is reset and it leaves `streams_`. -/
theorem refuse_effects (err : ErrorCode) (hfind : s.find st.id = some x)
    (hd : x.dispatched = st.dispatched) (hnot : st.dispatched = false) :
    Effects may s (resetStream (s.modify st.id fun x => { x with headersDone := true }) st err) := by
  obtain ⟨s1, hs1, hfind1, heq⟩ : ∃ s1, Effects may s s1 ∧ s1.find st.id = some x ∧
      (if st.reset then s.modify st.id fun x => { x with headersDone := true }
        else (s.modify st.id fun x => { x with headersDone := true }).enqueue
          (rstStreamFrame st.id err)) =
      s1.modify st.id fun x => { x with headersDone := true } := by
    split
    · exact ⟨s, .refl, hfind, rfl⟩
    · exact ⟨_, enqueue_effects rfl, (find_enqueue _).trans hfind, modify_enqueue _⟩
  have hrefuse : ((s1.modify st.id fun x => { x with headersDone := true }).modify st.id
      fun x => { x with reset := true, parked := false }).erase st.id =
      s1.modify st.id fun x =>
        { x with headersDone := true, reset := true, parked := false, held := false } := by
    rw [erase, modify_modify, modify_modify]
    · exact fun _ => rfl
    · exact fun _ => rfl
  rw [resetStream, heq, hnot, if_neg Bool.false_ne_true, hrefuse]
  exact hs1.tail (.refuse s1 st.id x hfind1 (hd.trans hnot))

theorem streamCount_headersDone :
    (s.modify sid fun x => { x with headersDone := true }).streamCount = s.streamCount := by
  rw [streamCount, streamCount, Session.modify]
  simp only [countP_map]
  congr 1
  funext st
  rw [Function.comp]
  split
  · rfl
  · rfl

/-- What becomes of a stream in `streams_` whose block has just been noted. -/
theorem actOnBlock_effects {d : Decoded} {past : List Event} (hfind : s.find st.id = some x)
    (hd : x.dispatched = st.dispatched) (hh : x.headersDone = st.headersDone)
    (hstarted : st.dispatched = true → st.headersDone = true)
    (hdec : decodeHeaderBlock defaultMaxHeaderListSize block table = d)
    (hlog : s.log = .headerBlock st.id st.headersDone block table s.streamCount :: past) :
    Effects may s (actOnBlock s st d) := by
  rw [actOnBlock]
  split
  · exact connectionError_effects _
  · rename_i hok
    cases hfirst : st.headersDone with
    | true =>
      rw [if_pos rfl]
      split
      · rename_i hfresh
        rw [Bool.and_eq_true, Bool.not_eq_true', Bool.not_eq_true'] at hfresh
        exact dispatch_effects hfind (hd.trans hfresh.1) (hh.trans hfirst)
      · exact .refl
    | false =>
      rw [if_neg Bool.false_ne_true]
      have hnot : st.dispatched = false := by
        cases hdisp : st.dispatched with
        | false => rfl
        | true => exact absurd (hstarted hdisp) (by rw [hfirst]; exact Bool.false_ne_true)
      have hfind' : (s.modify st.id fun x => { x with headersDone := true }).find st.id =
          some { x with headersDone := true } :=
        find_modify (g := fun x => { x with headersDone := true }) (fun _ => ⟨rfl, rfl⟩) hfind
      dsimp only
      split
      · rename_i hcap
        have hover : OverCap s := by
          rw [hfirst] at hlog
          refine ⟨_, _, _, _, hlog, ?_⟩
          rw [hdec]
          rw [hcap, Bool.true_and, Bool.not_eq_true', Bool.not_eq_false] at hok
          exact hok
        have haccept : Effects may s _ := .single (.accept s st.id (.inr hover))
        exact haccept.trans ((answerError_effects hfind' hd rfl).trans (sendGoaway_effects _))
      · split
        · exact refuse_effects _ hfind hd hnot
        · rename_i hroom
          rw [Bool.or_eq_true, not_or, decide_eq_true_eq, Nat.not_lt,
            streamCount_headersDone] at hroom
          have haccept : Effects may s _ := .single (.accept s st.id (.inl hroom.2))
          have hquiet : Quiet fun x : StreamState => { x with headers := d.headers } :=
            fun _ => ⟨rfl, rfl, rfl, rfl, rfl, rfl, rfl, rfl⟩
          have hheaders : Effects may s ((s.modify st.id _).modify st.id _) :=
            haccept.trans (modify_effects hquiet)
          split
          · exact hheaders.trans
              (dispatch_effects (hquiet.find_modify hfind') (hd.trans hnot) rfl)
          · exact hheaders

theorem keepTable_find {d : Decoded} (hfind : s.find st.id = some x) :
    (keepTable s st d).find st.id = some { x with headerBlock := [] } :=
  find_modify (s := { s.record _ with continuationSid := 0, decodeTable := _ })
    (g := fun x => { x with headerBlock := [] }) (fun _ => ⟨rfl, rfl⟩) hfind

/-- `finish_header_block` of a stream in `streams_`. -/
theorem finishHeaderBlock_effects (hfind : s.find st.id = some x)
    (hd : x.dispatched = st.dispatched) (hh : x.headersDone = st.headersDone)
    (hstarted : st.dispatched = true → st.headersDone = true) :
    Effects may s (finishHeaderBlock s st) := by
  have hquiet : Quiet fun x : StreamState => { x with headerBlock := [] } :=
    fun _ => ⟨rfl, rfl, rfl, rfl, rfl, rfl, rfl, rfl⟩
  rw [finishHeaderBlock]
  generalize hdec : decodeHeaderBlock defaultMaxHeaderListSize st.headerBlock s.decodeTable = d
  have hkeep : Effects may s (keepTable s st d) :=
    ((record_effects rfl).tail (.scalars _ _ _ _ _ _ _ _ _)).trans (modify_effects hquiet)
  have hfind' : (keepTable s st d).find st.id = some { x with headerBlock := [] } :=
    keepTable_find hfind
  have hlog : (keepTable s st d).log = .headerBlock st.id st.headersDone st.headerBlock
      s.decodeTable (keepTable s st d).streamCount :: s.log := by
    rw [keepTable, streamCount_modify hquiet]
    rfl
  exact hkeep.trans (actOnBlock_effects hfind' hd hh hstarted hdec hlog)

theorem takeFragment_effects {fragment : Bytes} (hfind : s.find st.id = some x)
    (hd : x.dispatched = st.dispatched) (hh : x.headersDone = st.headersDone)
    (hstarted : st.dispatched = true → st.headersDone = true) :
    Effects may s (takeFragment s st f fragment) := by
  have hquiet : Quiet fun x : StreamState => { x with
      headerBlock := st.headerBlock ++ fragment
      endStreamReceived := x.endStreamReceived || f.hasFlag flagEndStream } :=
    fun _ => ⟨rfl, rfl, rfl, rfl, rfl, rfl, rfl, rfl⟩
  have hadd : Effects may s (s.modify st.id _) := modify_effects hquiet
  rw [takeFragment]
  dsimp only
  split
  · exact hadd.trans (finishHeaderBlock_effects (hquiet.find_modify hfind) hd hh hstarted)
  · exact hadd.tail (.scalars _ _ _ _ _ _ _ _ _)

/-- Every stream with a task has its headers. -/
def Started (s : Session) : Prop := ∀ x ∈ s.streams, x.dispatched = true → x.headersDone = true

theorem Started.of_find (h : Started s) (hfind : s.find sid = some x) :
    x.dispatched = true → x.headersDone = true := h x (find_some hfind).1

theorem openStream_find (hnone : s.find sid = none) (w : Int) :
    (openStream s { id := sid, sendWindow := w }).find sid =
      some { id := sid, sendWindow := w } := by
  show List.find? _ (s.streams ++ [_]) = _
  rw [find] at hnone
  rw [find?_append, hnone, Option.none_or]
  simp

theorem onHeaders_effects (hstarted : Started s) : Effects may s (onHeaders s f) := by
  rw [onHeaders]
  dsimp only
  split
  · exact connectionError_effects _
  · split
    · exact connectionError_effects _
    · split
      · rename_i st hfind
        obtain ⟨-, hid, -⟩ := find_some hfind
        rw [← hid] at hfind
        have hst := hstarted.of_find hfind
        split
        · exact connectionError_effects _
        · refine takeFragment_effects (x := st) ?_ rfl rfl hst
          exact hfind
      · rename_i hnone
        split
        · exact connectionError_effects _
        · rename_i hnew
          refine (Relation.ReflTransGen.single (.openStream s _ (Nat.not_le.mp hnew))).trans ?_
          refine takeFragment_effects ?_ rfl rfl fun h => absurd h Bool.false_ne_true
          exact openStream_find hnone _

theorem onContinuation_effects (hstarted : Started s) :
    Effects may s (onContinuation s f) := by
  rw [onContinuation]
  split
  · exact connectionError_effects _
  · split
    · exact connectionError_effects _
    · rename_i st hfind
      obtain ⟨-, hid, -⟩ := find_some hfind
      rw [← hid] at hfind
      have hst := hstarted.of_find hfind
      have hquiet : Quiet fun x : StreamState =>
          { x with headerBlock := st.headerBlock ++ f.payload } :=
        fun _ => ⟨rfl, rfl, rfl, rfl, rfl, rfl, rfl, rfl⟩
      have hadd : Effects may s (s.modify st.id _) := modify_effects hquiet
      dsimp only
      split
      · exact hadd.trans (connectionError_effects _)
      · split
        · refine hadd.trans ((continuationSid_effects 0).trans ?_)
          refine finishHeaderBlock_effects ?_ rfl rfl hst
          exact hquiet.find_modify hfind
        · exact hadd

theorem creditConnection_effects (n : Nat) : Effects may s (creditConnection s n) := by
  rw [creditConnection]
  split
  · exact (Relation.ReflTransGen.single (.scalars s _ _ _ _ _ _ _ _)).trans (enqueue_effects rfl)
  · exact .single (.scalars s _ _ _ _ _ _ _ _)

/-- `credit_stream` touches one counter of its stream. -/
theorem creditStream_effects (n : Nat) (hfind : s.find st.id = some x) :
    Effects may s (creditStream s st n) ∧
      ∃ y, (creditStream s st n).find st.id = some y ∧ y.dispatched = x.dispatched ∧
        y.headersDone = x.headersDone := by
  have hquiet : ∀ k, Quiet fun x : StreamState => { x with recvUnacked := k } :=
    fun _ _ => ⟨rfl, rfl, rfl, rfl, rfl, rfl, rfl, rfl⟩
  rw [creditStream]
  split
  · refine ⟨(modify_effects (hquiet 0)).trans (enqueue_effects rfl),
      { x with recvUnacked := 0 }, ?_, rfl, rfl⟩
    rw [find_enqueue]
    exact (hquiet 0).find_modify hfind
  · exact ⟨modify_effects (hquiet _), _, (hquiet _).find_modify hfind, rfl, rfl⟩

theorem endData_effects (hfind : s.find st.id = some x) (hd : x.dispatched = st.dispatched)
    (hh : x.headersDone = true) :
    Effects may s (endData s st f) := by
  have hwake : Quiet fun x : StreamState => { x with parked := false } :=
    fun _ => ⟨rfl, rfl, rfl, rfl, rfl, rfl, rfl, rfl⟩
  have hend : Quiet fun x : StreamState => { x with endStreamReceived := true } :=
    fun _ => ⟨rfl, rfl, rfl, rfl, rfl, rfl, rfl, rfl⟩
  rw [endData]
  dsimp only
  refine Relation.ReflTransGen.trans ?_ (modify_effects hwake)
  split
  · have hmark : Effects may s (s.modify st.id _) := modify_effects hend
    split
    · exact hmark
    · rename_i hnot
      exact hmark.trans (dispatch_effects (hend.find_modify hfind)
        (hd.trans (Bool.eq_false_iff.mpr hnot)) hh)
  · exact .refl

theorem takeData_effects {cap : Nat} {data : Bytes} (hfind : s.find st.id = some x)
    (hd : x.dispatched = st.dispatched) (hh : x.headersDone = true) :
    Effects may s (takeData cap s st f data) := by
  rw [takeData]
  split
  · have hin : Quiet fun x : StreamState => { x with tunnelIn := st.tunnelIn ++ data } :=
      fun _ => ⟨rfl, rfl, rfl, rfl, rfl, rfl, rfl, rfl⟩
    have hpad : Quiet fun x : StreamState => { x with
        recvUnacked := x.recvUnacked + (f.payload.length - data.length) } :=
      fun _ => ⟨rfl, rfl, rfl, rfl, rfl, rfl, rfl, rfl⟩
    have hkept : Effects may s (s.modify st.id _) := modify_effects hin
    have hfind1 := hin.find_modify hfind
    dsimp only
    split
    · exact hkept.trans (resetStream_effects _ hfind1 hd)
    · exact hkept.trans ((modify_effects hpad).trans
        (endData_effects (hpad.find_modify hfind1) hd hh))
  · have hbody : Quiet fun x : StreamState => { x with body := st.body ++ data } :=
      fun _ => ⟨rfl, rfl, rfl, rfl, rfl, rfl, rfl, rfl⟩
    have hreject : Quiet fun x : StreamState => { x with rejected := true } :=
      fun _ => ⟨rfl, rfl, rfl, rfl, rfl, rfl, rfl, rfl⟩
    have hkept : Effects may s (s.modify st.id _) := modify_effects hbody
    obtain ⟨hcred, y, hy, hyd, hyh⟩ :=
      creditStream_effects f.payload.length (hbody.find_modify hfind)
    dsimp only
    split
    · exact hkept.trans (hcred.trans ((modify_effects hreject).trans
        (answerError_effects (hreject.find_modify hy) (hyd.trans hd) (hyh.trans hh))))
    · exact hkept.trans (hcred.trans (endData_effects hy (hyd.trans hd) (hyh.trans hh)))

theorem onData_effects {cap : Nat} : Effects may s (onData cap s f) := by
  rw [onData]
  split
  · exact connectionError_effects _
  · split
    · exact connectionError_effects _
    · have hcredit : Effects may s (creditConnection s f.payload.length) :=
        creditConnection_effects _
      dsimp only
      split
      · split
        · exact hcredit.trans (connectionError_effects _)
        · exact hcredit
      · rename_i st hfind
        obtain ⟨-, hid, -⟩ := find_some hfind
        rw [← hid] at hfind
        split
        · exact hcredit.trans (connectionError_effects _)
        · rename_i hdone
          rw [Bool.or_eq_true, not_or, Bool.not_eq_true', Bool.not_eq_false] at hdone
          split
          · exact hcredit
          · exact hcredit.trans (takeData_effects hfind rfl hdone.1)

theorem onSettings_effects : Effects may s (onSettings s f) := by
  refine onSettings_ind (fun _ => .refl) (fun _ err => connectionError_effects err) ?_ ?_ ?_ s f
  · intro s s' value h
    exact (Relation.ReflTransGen.single (.initialWindow s value)).trans h
  · intro s s' value hvalue h
    exact (Relation.ReflTransGen.single (.frameSize s value hvalue)).trans h
  · intro s s' h
    exact h.trans (enqueue_effects rfl)

theorem onWindowUpdate_effects {past : List Event} (hlog : s.log = .received f :: past)
    (htype : f.type = .windowUpdate) :
    Effects may s (onWindowUpdate s f) := by
  have hinc : f.payload.length = 4 → increment f.streamId f = windowIncrement f.payload :=
    fun hlen => if_pos ⟨htype, rfl, hlen⟩
  rcases onWindowUpdate_cases s f with
    ⟨err, heq, -⟩ | heq | ⟨hlen, hzero, hcases⟩ | ⟨st, hlen, hfind, hcases⟩
  · rw [heq]
    exact connectionError_effects err
  · rw [heq]
  · have hcredit : Effects may s (creditedConnection s (windowIncrement f.payload)) :=
      .single (.creditConnection s _ f past hlog (hzero ▸ hinc hlen))
    rcases hcases with heq | ⟨-, heq⟩
    · rw [heq]
      exact hcredit.trans (connectionError_effects _)
    · rw [heq]
      exact hcredit
  · obtain ⟨-, hid, -⟩ := find_some hfind
    have hinc := hinc hlen
    rw [← hid] at hfind hinc
    have hcredit : Effects may s (creditedStream s st.id (windowIncrement f.payload)) :=
      .single (.creditStream s st.id _ st f past hfind hlog hinc)
    rcases hcases with heq | heq | ⟨-, heq⟩
    · rw [heq]
      exact resetStream_effects _ hfind rfl
    · have hfind' := find_modify (s := s) (g := fun x =>
        { x with sendWindow := x.sendWindow + windowIncrement f.payload })
        (fun _ => ⟨rfl, rfl⟩) hfind
      rw [heq]
      exact hcredit.trans (resetStream_effects _ hfind' rfl)
    · rw [heq]
      exact hcredit

theorem onRstStream_effects : Effects may s (onRstStream s f) := by
  rcases onRstStream_cases s f with ⟨err, heq, -⟩ | heq | ⟨st, hfind, hcases⟩
  · rw [heq]
    exact connectionError_effects err
  · rw [heq]
  · obtain ⟨-, hid, -⟩ := find_some hfind
    rw [← hid] at hfind
    have hquiet : Quiet fun x : StreamState => { x with reset := true, parked := false } :=
      fun _ => ⟨rfl, rfl, rfl, rfl, rfl, rfl, rfl, rfl⟩
    have hreset : Effects may s (s.modify st.id _) := modify_effects hquiet
    rcases hcases with ⟨-, heq⟩ | ⟨hnot, heq⟩
    · rw [heq]
      exact hreset
    · rw [heq]
      exact hreset.tail (.drop _ _ _ (hquiet.find_modify hfind) hnot)

theorem onPing_effects : Effects may s (onPing s f) := by
  rcases onPing_cases s f with ⟨err, heq⟩ | heq | heq
  · rw [heq]
    exact connectionError_effects err
  · rw [heq]
  · rw [heq]
    exact enqueue_effects rfl

/-- `handle_frame` is a sequence of effects. -/
theorem handleFrame_effects {cap : Nat} {past : List Event} (hstarted : Started s)
    (hlog : s.log = .received f :: past) : Effects may s (handleFrame cap s f) := by
  rw [handleFrame]
  split
  · exact connectionError_effects _
  · split
    · exact onHeaders_effects hstarted
    · exact onContinuation_effects hstarted
    · exact onData_effects
    · exact onSettings_effects
    · rename_i htype
      exact onWindowUpdate_effects hlog htype
    · exact onPing_effects
    · exact onRstStream_effects
    · exact .single (.scalars s _ _ _ _ _ _ _ _)
    · exact connectionError_effects _
    · exact .refl
    · exact .refl

theorem processFrame_effects {cap : Nat} (hmay : may .receive) (hstarted : Started s) :
    Effects may s (processFrame cap s f) := by
  rw [processFrame]
  have hnote : Effects may s (s.record (.received f)) := .single (.receive s f hmay)
  split
  · exact hnote.trans (connectionError_effects _)
  · exact hnote.trans (handleFrame_effects hstarted rfl)

/-! ## Tasks and tunnels -/

/-- A `send_frames` goes on by one effect. -/
theorem resumeSend_effect {snd : Send} (hmay : may .send) (hobj : s.object st.id = some st)
    (hsend : st.sending = some snd) (h : resumeSend s st snd = some s') : Effect may s s' := by
  obtain ⟨ok, hok, rfl⟩ | ⟨f, todo, rfl, rfl⟩ | ⟨rest, endStream, todo, rfl, hopen, hwait, rfl⟩ :=
    resumeSend_cases h
  · exact .endSend s st.id ok st snd hobj hsend hok
  · exact .sendFrame s st f todo hmay hobj hsend
  · rw [failed, Bool.or_eq_false_iff] at hopen
    refine .sendChunk s st rest endStream todo hmay hobj hsend hopen.1 ?_
    intro hne
    have hwindows := hwait.resolve_left hne
    rw [windowsOpen, Bool.and_eq_true, decide_eq_true_eq, decide_eq_true_eq] at hwindows
    exact hwindows

theorem timeoutSend_effects {snd : Send} (hobj : s.object st.id = some st)
    (hsend : st.sending = some snd) (h : timeoutSend s st snd = some s') : Effects may s s' := by
  obtain rfl := timeoutSend_some h
  exact .single (.endSend s st.id false st _ hobj hsend nofun)

theorem tunnelRead_effects {size : Nat} : Effects may s (tunnelRead s st size) := by
  rw [tunnelRead]
  split
  · have hread : Effects may s (s.modify st.id fun x => { x with
        tunnelIn := st.tunnelIn.drop (min size st.tunnelIn.length) }) :=
      modify_effects fun _ => ⟨rfl, rfl, rfl, rfl, rfl, rfl, rfl, rfl⟩
    dsimp only
    split
    · exact hread.trans ((enqueue_effects rfl).trans
        (modify_effects fun _ => ⟨rfl, rfl, rfl, rfl, rfl, rfl, rfl, rfl⟩))
    · exact hread.trans (modify_effects fun _ => ⟨rfl, rfl, rfl, rfl, rfl, rfl, rfl, rfl⟩)
  · split
    · exact modify_effects fun _ => ⟨rfl, rfl, rfl, rfl, rfl, rfl, rfl, rfl⟩
    · split
      · exact .refl
      · exact modify_effects fun _ => ⟨rfl, rfl, rfl, rfl, rfl, rfl, rfl, rfl⟩

theorem enqueue_tasks (f : Frame) : (s.enqueue f).tasks = s.tasks := by
  rw [enqueue]
  split <;> rfl

theorem finishTask_effects (h : st.id ∈ s.tasks) : Effects may s (finishTask s st) := by
  rw [finishTask]
  split
  · exact .single (.finish s st.id h)
  · have hreset : Quiet fun x : StreamState => { x with reset := true } :=
      fun _ => ⟨rfl, rfl, rfl, rfl, rfl, rfl, rfl, rfl⟩
    refine ((enqueue_effects rfl).trans (modify_effects hreset)).tail (.finish _ st.id ?_)
    show st.id ∈ (s.enqueue _).tasks
    rw [enqueue_tasks]
    exact h

/-- The kind of change an action is there for. -/
def kindOf : Action → Option Kind
  | .frame _ => some .receive
  | .resume _ => some .send
  | .endResponse _ | .shutdownSend _ => some .close
  | .tunnelWrite _ data => some (.write data)
  | _ => none

/-- An action of a task or a tunnel is a sequence of effects. -/
theorem taskStep_effects {a : Action} (hmay : ∀ k, kindOf a = some k → may k)
    (hobj : s.object a.sid = some st) (h : taskStep s st a = some s') : Effects may s s' := by
  obtain ⟨-, hid⟩ := object_some hobj
  cases a with
  | startSend sid bytes =>
    obtain ⟨⟨-, hplain, hsend⟩, h⟩ := Option.ite_none_right_eq_some.mp h
    obtain rfl := Option.some.inj h
    exact .single (.startSend s sid bytes st hobj hsend fun htunnel => absurd htunnel hplain)
  | tunnelWrite sid data =>
    obtain ⟨⟨-, hsend⟩, h⟩ := Option.ite_none_right_eq_some.mp h
    obtain rfl := Option.some.inj h
    split
    · exact .refl
    · rename_i hopen
      refine .single (.startSend s sid _ st hobj hsend fun _ => ⟨?_, data, hmay (.write data) rfl, rfl⟩)
      exact Bool.eq_false_iff.mpr hopen
  | resume sid =>
    obtain ⟨snd, hsend, h⟩ := Option.bind_eq_some_iff.mp h
    exact .single (resumeSend_effect (hmay .send rfl) (hid ▸ hobj) hsend h)
  | timeout sid =>
    obtain ⟨snd, hsend, h⟩ := Option.bind_eq_some_iff.mp h
    exact timeoutSend_effects (hid ▸ hobj) hsend h
  | startTunnel sid =>
    obtain ⟨⟨-, hsend, -⟩, h⟩ := Option.ite_none_right_eq_some.mp h
    obtain rfl := Option.some.inj h
    exact .single (.startTunnel s sid st hobj hsend)
  | endResponse sid =>
    obtain ⟨⟨-, hopen, -⟩, h⟩ := Option.ite_none_right_eq_some.mp h
    obtain rfl := Option.some.inj h
    exact .single (.endStream s st (hmay .close rfl) (hid ▸ hobj) (Bool.eq_false_iff.mpr hopen))
  | shutdownSend sid =>
    obtain ⟨⟨-, hopen, -⟩, h⟩ := Option.ite_none_right_eq_some.mp h
    obtain rfl := Option.some.inj h
    exact .single (.endStream s st (hmay .close rfl) (hid ▸ hobj) (Bool.eq_false_iff.mpr hopen))
  | tunnelRead sid size =>
    obtain ⟨-, h⟩ := Option.ite_none_right_eq_some.mp h
    obtain rfl := Option.some.inj h
    exact tunnelRead_effects
  | tunnelCancel sid =>
    obtain ⟨-, h⟩ := Option.ite_none_right_eq_some.mp h
    obtain rfl := Option.some.inj h
    exact modify_effects fun _ => ⟨rfl, rfl, rfl, rfl, rfl, rfl, rfl, rfl⟩
  | tunnelClose sid =>
    obtain ⟨-, h⟩ := Option.ite_none_right_eq_some.mp h
    obtain rfl := Option.some.inj h
    exact (enqueue_effects rfl).trans (modify_effects fun _ => ⟨rfl, rfl, rfl, rfl, rfl, rfl, rfl, rfl⟩)
  | finishTask sid =>
    obtain ⟨hmem, h⟩ := Option.ite_none_right_eq_some.mp h
    obtain rfl := Option.some.inj h
    exact finishTask_effects (hid.symm ▸ hmem)
  | _ => cases h

/-! ## Runs -/

/-- Every action is a sequence of effects. -/
theorem step_effects {cap : Nat} {a : Action} (hmay : ∀ k, kindOf a = some k → may k)
    (hstarted : Started s) (h : step cap s a = some s') : Effects may s s' := by
  have htask : ((s.object a.sid).bind fun st => taskStep s st a) = some s' →
      Effects may s s' := by
    intro h
    obtain ⟨st, hobj, h⟩ := Option.bind_eq_some_iff.mp h
    exact taskStep_effects hmay hobj h
  cases a with
  | frame f =>
    obtain ⟨-, h⟩ := Option.ite_none_left_eq_some.mp h
    obtain rfl := Option.some.inj h
    exact processFrame_effects (hmay .receive rfl) hstarted
  | notAccepting =>
    obtain ⟨-, h⟩ := Option.ite_none_left_eq_some.mp h
    obtain rfl := Option.some.inj h
    exact sendGoaway_effects _
  | idleTimeout =>
    obtain ⟨-, h⟩ := Option.ite_none_left_eq_some.mp h
    obtain rfl := Option.some.inj h
    exact (sendGoaway_effects _).tail (.scalars _ _ _ _ _ _ _ _ _)
  | drained =>
    obtain ⟨-, h⟩ := Option.ite_none_left_eq_some.mp h
    obtain rfl := Option.some.inj h
    exact .single (.scalars s _ _ _ _ _ _ _ _)
  | readError =>
    obtain ⟨-, h⟩ := Option.ite_none_left_eq_some.mp h
    obtain rfl := Option.some.inj h
    exact markDead_effects.tail (.scalars _ _ _ _ _ _ _ _ _)
  | shutdown =>
    obtain ⟨-, h⟩ := Option.ite_none_right_eq_some.mp h
    obtain rfl := Option.some.inj h
    exact markDeadAfterFlush_effects
  | markDead =>
    obtain rfl := Option.some.inj h
    exact markDead_effects
  | clear =>
    obtain ⟨hidle, h⟩ := Option.ite_none_right_eq_some.mp h
    obtain rfl := Option.some.inj h
    exact .single (.clear s hidle.2.2)
  | written n =>
    obtain rfl := Option.some.inj h
    exact .single (.scalars s _ _ _ _ _ _ _ _)
  | _ => exact htask h

theorem initial_effects : Effects may {} initial := by
  have hall : ∀ (fs : List Frame) (s : Session),
      (∀ f ∈ fs, quietEvent (.enqueued f) = true) → Effects may s (fs.foldl enqueue s) := by
    intro fs
    induction fs with
    | nil => exact fun s _ => .refl
    | cons f rest ih =>
      intro s h
      exact (enqueue_effects (h f mem_cons_self)).trans
        (ih _ fun g hg => h g (mem_cons_of_mem f hg))
  exact hall sessionPreamble {} (by decide)

/-- What holds of a new session and is kept by every effect holds after any sequence of
    effects. -/
theorem Effects.invariant {I : Session → Prop} (h : Effects may {} s) (h₀ : I {})
    (hstep : ∀ s s', Effect may s s' → I s → I s') : I s := by
  induction h with
  | refl => exact h₀
  | tail _ he ih => exact hstep _ _ he ih

/-! ## Histories grow -/

theorem send_log_suffix (f : Frame) : s.log <:+ (s.send f).log := by
  rw [send]
  split
  · exact suffix_rfl
  · exact suffix_cons _ _

theorem sendAll_log_suffix (fs : List Frame) : s.log <:+ (s.sendAll fs).log := by
  induction fs generalizing s with
  | nil => exact suffix_rfl
  | cons f rest ih => exact (send_log_suffix f).trans ih

/-- No effect takes back what has happened. -/
theorem Effect.log_suffix (h : Effect may s s') : s.log <:+ s'.log := by
  cases h with
  | receive f => exact suffix_cons _ _
  | note e => exact suffix_cons _ _
  | openStream sid => exact suffix_cons _ _
  | spawn sid => exact suffix_cons _ _
  | creditConnection inc => exact suffix_cons _ _
  | creditStream sid inc => exact suffix_cons _ _
  | startSend sid bytes => exact suffix_cons _ _
  | endSend sid ok => exact suffix_cons _ _
  | endStream st =>
    show s.log <:+ (s.enqueue _).log
    rw [enqueue]
    split
    · exact suffix_rfl
    · exact suffix_cons _ _
  | sendFrame st f todo =>
    rw [Http2Session.sendFrame]
    split
    · exact suffix_rfl
    · exact sendAll_log_suffix _
    · exact send_log_suffix _
  | sendChunk st rest endStream todo => exact send_log_suffix _
  | _ => exact suffix_rfl

theorem sendAll_received (fs : List Frame) : received (s.sendAll fs).log = received s.log := by
  induction fs generalizing s with
  | nil => rfl
  | cons f rest ih =>
    refine ih.trans ?_
    rw [send]
    split
    · rfl
    · rfl

/-- Only the reader takes up frames. -/
theorem Effect.received (h : Effect may s s') (hmay : ¬ may .receive) :
    received s'.log = received s.log := by
  cases h with
  | receive f hreceive => exact absurd hreceive hmay
  | note e he =>
    cases e with
    | received f => exact absurd he Bool.false_ne_true
    | _ => rfl
  | endStream st =>
    show Http2Session.received (s.enqueue _).log = _
    rw [enqueue]
    split
    · rfl
    · rfl
  | sendFrame st f todo =>
    rw [Http2Session.sendFrame]
    split
    · rfl
    · exact sendAll_received _
    · exact sendAll_received [{ f with streamId := st.id }]
  | sendChunk st rest endStream todo => exact sendAll_received [_]
  | _ => rfl

theorem Effects.received (h : Effects may s s') (hmay : ¬ may .receive) :
    received s'.log = received s.log := by
  induction h with
  | refl => rfl
  | tail _ he ih => exact (he.received hmay).trans ih

theorem Effects.log_suffix (h : Effects may s s') : s.log <:+ s'.log := by
  induction h with
  | refl => exact suffix_rfl
  | tail _ he ih => exact ih.trans he.log_suffix

/-- `handle_frame` takes up no further frame. -/
theorem processFrame_received (cap : Nat) (f : Frame) (hstarted : Started s) :
    received (processFrame cap s f).log = f :: received s.log ∧
      .received f :: s.log <:+ (processFrame cap s f).log := by
  have heffects : Effects (fun _ => False) (s.record (.received f)) (processFrame cap s f) := by
    rw [processFrame]
    split
    · exact connectionError_effects _
    · exact handleFrame_effects hstarted rfl
  exact ⟨heffects.received fun h => h, heffects.log_suffix⟩

end Http2Effects
