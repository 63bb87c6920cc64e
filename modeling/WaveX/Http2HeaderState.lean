import WaveX.Http2Tasks

/-! # What the handlers leave alone

    `decode_table_`, the header block being collected and the two flags the reader goes
    by (`headers_done`, `end_stream_received`) change in few places.  `Keeps` says that a
    part of the session leaves them alone; every action does, except for frames that
    carry headers, and a frame that does not is a connection error. -/

namespace Http2HeaderState

open QuicVarInt Hpack Http2Frames Http2Session Http2Session.Session Http2Effects Http2Tasks

/-! ## The header state -/

/-- How a stream may change: it can leave `streams_` but not come back, its header block
    stays, and only streams in `E` end and only streams in `D` get their headers done. -/
structure Kept (E D : Nat → Prop) (x y : StreamState) : Prop where
  id : y.id = x.id
  held : y.held = true → x.held = true
  block : y.headerBlock = x.headerBlock
  ended : y.endStreamReceived = x.endStreamReceived ∨ (E x.id ∧ y.endStreamReceived = true)
  done : y.headersDone = x.headersDone ∨ (D x.id ∧ y.headersDone = true)

/-- Events that say nothing about headers. -/
def silent : Event → Bool
  | .received _ | .connectionError _ | .headerBlock _ _ _ _ _ => false
  | _ => true

/-- The header state is kept. -/
structure Keeps (E D : Nat → Prop) (s s' : Session) : Prop where
  table : s'.decodeTable = s.decodeTable
  sid : s'.continuationSid = s.continuationSid
  last : s'.lastPeerStreamId = s.lastPeerStreamId
  goaway : s.goawaySent = true → s'.goawaySent = true
  stopped : s.stopped = true → s'.stopped = true
  log : ∃ new, s'.log = new ++ s.log ∧ ∀ e ∈ new, silent e = true
  streams : ∃ g, s'.streams = s.streams.map g ∧ ∀ x, Kept E D x (g x)

variable {E D : Nat → Prop} {s s' s'' : Session} {sid : Nat} {st x y z : StreamState}
  {g : StreamState → StreamState}

theorem Kept.refl : Kept E D x x := ⟨rfl, fun h => h, rfl, .inl rfl, .inl rfl⟩

theorem Kept.trans (h : Kept E D x y) (h' : Kept E D y z) : Kept E D x z where
  id := h'.id.trans h.id
  held hz := h.held (h'.held hz)
  block := h'.block.trans h.block
  ended := by
    rcases h'.ended with heq | ⟨hE, htrue⟩
    · rw [heq]
      exact h.ended
    · rw [h.id] at hE
      exact .inr ⟨hE, htrue⟩
  done := by
    rcases h'.done with heq | ⟨hD, htrue⟩
    · rw [heq]
      exact h.done
    · rw [h.id] at hD
      exact .inr ⟨hD, htrue⟩

theorem Keeps.refl : Keeps E D s s :=
  ⟨rfl, rfl, rfl, fun h => h, fun h => h, ⟨[], rfl, fun _ he => absurd he List.not_mem_nil⟩,
    ⟨id, (List.map_id _).symm, fun _ => .refl⟩⟩

theorem Keeps.trans (h : Keeps E D s s') (h' : Keeps E D s' s'') : Keeps E D s s'' where
  table := h'.table.trans h.table
  sid := h'.sid.trans h.sid
  last := h'.last.trans h.last
  goaway hs := h'.goaway (h.goaway hs)
  stopped hs := h'.stopped (h.stopped hs)
  log := by
    obtain ⟨new, hnew, hsilent⟩ := h.log
    obtain ⟨new', hnew', hsilent'⟩ := h'.log
    refine ⟨new' ++ new, by rw [hnew', hnew, List.append_assoc], fun e he => ?_⟩
    exact (List.mem_append.mp he).elim (hsilent' e) (hsilent e)
  streams := by
    obtain ⟨g, hg, hkept⟩ := h.streams
    obtain ⟨g', hg', hkept'⟩ := h'.streams
    refine ⟨g' ∘ g, by rw [hg', hg, List.map_map], fun x => ?_⟩
    exact (hkept x).trans (hkept' (g x))

theorem Keeps.map (hg : ∀ x, Kept E D x (g x)) :
    Keeps E D s { s with streams := s.streams.map g } :=
  ⟨rfl, rfl, rfl, fun h => h, fun h => h, ⟨[], rfl, fun _ he => absurd he List.not_mem_nil⟩, ⟨g, rfl, hg⟩⟩

theorem Keeps.modify (hg : ∀ x, x.id = sid → Kept E D x (g x)) : Keeps E D s (s.modify sid g) := by
  refine .map fun x => ?_
  split
  · rename_i hid
    exact hg x hid
  · exact .refl

/-- A change of members of a stream that say nothing about headers. -/
theorem Keeps.modify_same (sid : Nat) (hg : ∀ x, (g x).id = x.id ∧ (g x).held = x.held ∧
    (g x).headerBlock = x.headerBlock ∧ (g x).endStreamReceived = x.endStreamReceived ∧
    (g x).headersDone = x.headersDone) : Keeps E D s (s.modify sid g) := by
  refine .modify fun x _ => ?_
  obtain ⟨hid, hheld, hblock, hended, hdone⟩ := hg x
  exact ⟨hid, fun h => hheld ▸ h, hblock, .inl hended, .inl hdone⟩

theorem Keeps.record {e : Event} (he : silent e = true) : Keeps E D s (s.record e) :=
  ⟨rfl, rfl, rfl, fun h => h, fun h => h, ⟨[e], rfl, fun _ he' => List.mem_singleton.mp he' ▸ he⟩,
    ⟨id, (List.map_id _).symm, fun _ => .refl⟩⟩

/-- A change of members that say nothing about headers. -/
theorem Keeps.same (htable : s'.decodeTable = s.decodeTable)
    (hsid : s'.continuationSid = s.continuationSid)
    (hlast : s'.lastPeerStreamId = s.lastPeerStreamId)
    (hgoaway : s.goawaySent = true → s'.goawaySent = true)
    (hstopped : s.stopped = true → s'.stopped = true) (hlog : s'.log = s.log)
    (hstreams : s'.streams = s.streams) : Keeps E D s s' :=
  ⟨htable, hsid, hlast, hgoaway, hstopped, ⟨[], hlog, fun _ he => absurd he List.not_mem_nil⟩,
    ⟨id, hstreams.trans (List.map_id _).symm, fun _ => .refl⟩⟩

theorem Keeps.enqueue (f : Frame) : Keeps E D s (s.enqueue f) := by
  rw [Session.enqueue]
  have hbytes : Keeps E D s { s with outboxBytes := s.outboxBytes + f.wireSize } :=
    .same rfl rfl rfl (fun h => h) (fun h => h) rfl rfl
  split
  · exact .refl
  · exact hbytes.trans (.record (e := .enqueued f) rfl)

theorem Keeps.send (f : Frame) : Keeps E D s (s.send f) := by
  rw [Session.send]
  have hbytes : Keeps E D s { s with outboxBytes := s.outboxBytes + f.wireSize } :=
    .same rfl rfl rfl (fun h => h) (fun h => h) rfl rfl
  split
  · exact .refl
  · exact hbytes.trans (.record (e := .sent f) rfl)

theorem Keeps.sendAll (fs : List Frame) : Keeps E D s (s.sendAll fs) := by
  induction fs generalizing s with
  | nil => exact .refl
  | cons f rest ih => exact (Keeps.send f).trans ih

theorem Keeps.sendGoaway (err : ErrorCode) : Keeps E D s (sendGoaway s err) := by
  rw [Http2Session.sendGoaway]
  split
  · exact .refl
  · have hflag : Keeps E D s { s with goawaySent := true } :=
      .same rfl rfl rfl (fun _ => rfl) (fun h => h) rfl rfl
    exact hflag.trans (.enqueue _)

theorem Keeps.markDeadAfterFlush : Keeps E D s (markDeadAfterFlush s) := by
  refine .map fun x => ?_
  split
  · exact ⟨rfl, fun h => h, rfl, .inl rfl, .inl rfl⟩
  · exact .refl

theorem Keeps.markDead : Keeps E D s (markDead s) := by
  rw [Http2Session.markDead]
  split
  · exact .refl
  · have hflag : Keeps E D s { s with dead := true } := .same rfl rfl rfl (fun h => h) (fun h => h) rfl rfl
    refine hflag.trans (.map fun x => ?_)
    split
    · exact ⟨rfl, fun h => h, rfl, .inl rfl, .inl rfl⟩
    · exact .refl

theorem Keeps.erase : Keeps E D s (s.erase sid) :=
  .modify fun _ _ => ⟨rfl, fun h => absurd h Bool.false_ne_true, rfl, .inl rfl, .inl rfl⟩

theorem Keeps.resetStream (err : ErrorCode) : Keeps E D s (resetStream s st err) := by
  rw [Http2Session.resetStream]
  have hrst : Keeps E D s (if st.reset then s else s.enqueue (rstStreamFrame st.id err)) := by
    split
    · exact .refl
    · exact .enqueue _
  have hmark := hrst.trans (.modify_same st.id
    (g := fun x => { x with reset := true, parked := false })
    fun _ => ⟨rfl, rfl, rfl, rfl, rfl⟩)
  split
  · exact hmark
  · exact hmark.trans .erase

theorem Keeps.spawn : Keeps E D s (spawn s sid) := by
  rw [Http2Session.spawn]
  have htask : Keeps E D s
      { s with activeTasks := s.activeTasks + 1, tasks := sid :: s.tasks } :=
    .same rfl rfl rfl (fun h => h) (fun h => h) rfl rfl
  have hlost : Keeps E D s { s with activeTasks := s.activeTasks + 1, stopped := true } :=
    .same rfl rfl rfl (fun h => h) (fun _ => rfl) rfl rfl
  split
  · exact htask.trans (.record (e := .task sid) rfl)
  · exact hlost.trans (.record (e := .lostTask sid) rfl)

theorem Keeps.dispatch : Keeps E D s (dispatch s sid) := by
  refine Keeps.trans (.modify_same sid (g := fun x => { x with dispatched := true }) ?_) .spawn
  exact fun _ => ⟨rfl, rfl, rfl, rfl, rfl⟩

theorem Keeps.answerError : Keeps E D s (answerError s st) := by
  rw [Http2Session.answerError]
  split
  · exact .refl
  · refine Keeps.trans (.modify_same st.id
      (g := fun x => { x with dispatched := true, rejected := true }) ?_) .spawn
    exact fun _ => ⟨rfl, rfl, rfl, rfl, rfl⟩

theorem Keeps.creditConnection (n : Nat) : Keeps E D s (creditConnection s n) := by
  rw [Http2Session.creditConnection]
  have hcount : ∀ k, Keeps E D s { s with connRecvUnacked := k } :=
    fun _ => .same rfl rfl rfl (fun h => h) (fun h => h) rfl rfl
  split
  · exact (hcount 0).trans (.enqueue _)
  · exact hcount _

theorem Keeps.creditStream (n : Nat) : Keeps E D s (creditStream s st n) := by
  have hcount : ∀ k, Keeps E D s (s.modify st.id fun x => { x with recvUnacked := k }) :=
    fun _ => .modify_same st.id fun _ => ⟨rfl, rfl, rfl, rfl, rfl⟩
  rw [Http2Session.creditStream]
  split
  · exact (hcount 0).trans (.enqueue _)
  · exact hcount _

/-- The stream a frame ends. -/
def endedBy (f : Frame) (sid : Nat) : Prop :=
  f.streamId = sid ∧ f.hasFlag flagEndStream = true ∧ (f.type = .data ∨ f.type = .headers)

theorem Keeps.endData {f : Frame} (hE : f.hasFlag flagEndStream = true → E st.id) :
    Keeps E D s (endData s st f) := by
  rw [Http2Session.endData]
  refine Keeps.trans ?_ (.modify_same st.id fun _ => ⟨rfl, rfl, rfl, rfl, rfl⟩)
  split
  · rename_i hend
    have hmark : Keeps E D s (s.modify st.id fun x => { x with endStreamReceived := true }) :=
      .modify fun x hx => ⟨rfl, fun h => h, rfl, .inr ⟨hx ▸ hE hend, rfl⟩, .inl rfl⟩
    dsimp only
    split
    · exact hmark
    · exact hmark.trans .dispatch
  · exact .refl

theorem Keeps.takeData {cap : Nat} {f : Frame} {data : Bytes}
    (hE : f.hasFlag flagEndStream = true → E st.id) : Keeps E D s (takeData cap s st f data) := by
  rw [Http2Session.takeData]
  split
  · have hin : Keeps E D s (s.modify st.id fun x => { x with tunnelIn := st.tunnelIn ++ data }) :=
      .modify_same st.id fun _ => ⟨rfl, rfl, rfl, rfl, rfl⟩
    dsimp only
    split
    · exact hin.trans (.resetStream _)
    · refine hin.trans (Keeps.trans (.modify_same st.id ?_) (.endData hE))
      exact fun _ => ⟨rfl, rfl, rfl, rfl, rfl⟩
  · have hbody : Keeps E D s (s.modify st.id fun x => { x with body := st.body ++ data }) :=
      .modify_same st.id fun _ => ⟨rfl, rfl, rfl, rfl, rfl⟩
    have hcredit : Keeps E D s (Http2Session.creditStream _ st f.payload.length) :=
      hbody.trans (.creditStream _)
    dsimp only
    split
    · refine hcredit.trans (Keeps.trans (.modify_same st.id ?_) .answerError)
      exact fun _ => ⟨rfl, rfl, rfl, rfl, rfl⟩
    · exact hcredit.trans (.endData hE)

/-! ## Frames without headers -/

/-- A connection error has happened: the client is told so and the reader has stopped. -/
structure Fails (s : Session) : Prop where
  error : ∃ err, .connectionError err ∈ s.log
  goaway : s.goawaySent = true
  stopped : s.stopped = true

theorem Keeps.mem_log {e : Event} (h : Keeps E D s s') (he : e ∈ s.log) : e ∈ s'.log := by
  obtain ⟨new, hnew, -⟩ := h.log
  rw [hnew]
  exact List.mem_append_right new he

theorem Fails.keeps (h : Fails s) (hk : Keeps E D s s') : Fails s' := by
  obtain ⟨⟨err, herr⟩, hgoaway, hstopped⟩ := h
  exact ⟨⟨err, hk.mem_log herr⟩, hk.goaway hgoaway, hk.stopped hstopped⟩

theorem sendGoaway_goawaySent (err : ErrorCode) : (sendGoaway s err).goawaySent = true := by
  rw [sendGoaway]
  split
  · assumption
  · rw [Session.enqueue]
    split <;> rfl

theorem connectionError_fails (err : ErrorCode) : Fails (connectionError s err) := by
  have hgoaway : Keeps (fun _ => False) (fun _ => False) (s.record (.connectionError err))
      (markDeadAfterFlush (sendGoaway (s.record (.connectionError err)) err)) :=
    (Keeps.sendGoaway err).trans .markDeadAfterFlush
  exact ⟨⟨err, hgoaway.mem_log List.mem_cons_self⟩, sendGoaway_goawaySent err, rfl⟩

/-- What `on_data` takes for a connection error. -/
def DataError (s : Session) (f : Frame) : Prop :=
  f.streamId = 0 ∨ dataPayload f = none ∨
    match s.find f.streamId with
    | none => s.lastPeerStreamId < f.streamId
    | some st => st.headersDone = false ∨ st.endStreamReceived = true

theorem creditConnection_find (n sid : Nat) : (creditConnection s n).find sid = s.find sid := by
  rw [Http2Session.creditConnection]
  split
  · exact find_enqueue _
  · rfl

theorem onData_keeps (cap : Nat) {f : Frame} (htype : f.type = .data) :
    Keeps (endedBy f) D s (onData cap s f) ∨ (Fails (onData cap s f) ∧ DataError s f) := by
  rw [onData, DataError]
  split
  · rename_i hzero
    exact .inr ⟨connectionError_fails _, .inl hzero⟩
  · split
    · rename_i hnone
      exact .inr ⟨connectionError_fails _, .inr (.inl hnone)⟩
    · have hcredit : Keeps (endedBy f) D s (creditConnection s f.payload.length) :=
        .creditConnection _
      dsimp only
      rw [creditConnection_find, hcredit.last]
      cases hfind : s.find f.streamId with
      | none =>
        dsimp only
        split
        · rename_i hnew
          exact .inr ⟨connectionError_fails _, .inr (.inr hnew)⟩
        · exact .inl hcredit
      | some st =>
        obtain ⟨-, hid, -⟩ := find_some hfind
        dsimp only
        split
        · rename_i hclosed
          rw [Bool.or_eq_true, Bool.not_eq_true'] at hclosed
          exact .inr ⟨connectionError_fails _, .inr (.inr hclosed)⟩
        · split
          · exact .inl hcredit
          · exact .inl (hcredit.trans (.takeData fun hend => ⟨hid.symm, hend, .inl htype⟩))

theorem Keeps.setInitialWindow (value : Nat) : Keeps E D s (setInitialWindow s value) := by
  have hvalue : Keeps E D s { s with peerInitialWindow := value } :=
    .same rfl rfl rfl (fun h => h) (fun h => h) rfl rfl
  refine hvalue.trans (.map fun x => ?_)
  split
  · exact ⟨rfl, fun h => h, rfl, .inl rfl, .inl rfl⟩
  · exact .refl

theorem onSettings_keeps (f : Frame) :
    Keeps E D s (onSettings s f) ∨ Fails (onSettings s f) := by
  refine onSettings_ind (P := fun s s' => Keeps E D s s' ∨ Fails s') (fun _ => .inl .refl)
    (fun _ err => .inr (connectionError_fails err)) ?_ ?_ ?_ s f
  · intro s s' value h
    exact h.imp_left (Keeps.setInitialWindow value).trans
  · intro s s' value _ h
    have hsize : Keeps E D s { s with peerMaxFrameSize := value } :=
      .same rfl rfl rfl (fun h => h) (fun h => h) rfl rfl
    exact h.imp_left hsize.trans
  · intro s s' h
    exact h.imp (fun hk => hk.trans (.enqueue _))
      fun hf => hf.keeps (Keeps.enqueue (E := E) (D := D) _)

theorem onWindowUpdate_keeps (f : Frame) :
    Keeps E D s (onWindowUpdate s f) ∨
      (Fails (onWindowUpdate s f) ∧ (f.payload.length ≠ 4 ∨ f.streamId = 0)) := by
  rcases onWindowUpdate_cases s f with
    ⟨err, heq, hbad⟩ | heq | ⟨-, hzero, hcases⟩ | ⟨st, -, -, hcases⟩
  · exact .inr ⟨heq ▸ connectionError_fails err, hbad⟩
  · rw [heq]
    exact .inl .refl
  · rcases hcases with heq | ⟨-, heq⟩
    · exact .inr ⟨heq ▸ connectionError_fails _, .inr hzero⟩
    · have hwindow : Keeps E D s { s with
          connSendWindow := s.connSendWindow + windowIncrement f.payload } :=
        .same rfl rfl rfl (fun h => h) (fun h => h) rfl rfl
      exact .inl (heq ▸ hwindow.trans (.record rfl))
  · left
    have hwindow : Keeps E D s (s.modify st.id fun x =>
        { x with sendWindow := x.sendWindow + windowIncrement f.payload }) :=
      .modify_same st.id fun _ => ⟨rfl, rfl, rfl, rfl, rfl⟩
    have hcredit : Keeps E D s (creditedStream s st.id (windowIncrement f.payload)) :=
      hwindow.trans (.record (e := .credited st.id (windowIncrement f.payload)) rfl)
    rcases hcases with heq | heq | ⟨-, heq⟩
    · exact heq ▸ .resetStream _
    · exact heq ▸ hcredit.trans (.resetStream _)
    · exact heq ▸ hcredit

theorem onRstStream_keeps (f : Frame) :
    Keeps E D s (onRstStream s f) ∨
      (Fails (onRstStream s f) ∧ (f.payload.length ≠ 4 ∨ f.streamId = 0)) := by
  rcases onRstStream_cases s f with ⟨err, heq, hbad⟩ | heq | ⟨st, -, hcases⟩
  · exact .inr ⟨heq ▸ connectionError_fails err, hbad⟩
  · rw [heq]
    exact .inl .refl
  · left
    have hreset : Keeps E D s (s.modify st.id fun x =>
        { x with reset := true, parked := false }) :=
      .modify_same st.id fun _ => ⟨rfl, rfl, rfl, rfl, rfl⟩
    rcases hcases with ⟨-, heq⟩ | ⟨-, heq⟩
    · exact heq ▸ hreset
    · exact heq ▸ hreset.trans .erase

theorem onPing_keeps (f : Frame) : Keeps E D s (onPing s f) ∨ Fails (onPing s f) := by
  rcases onPing_cases s f with ⟨err, heq⟩ | heq | heq
  · exact .inr (heq ▸ connectionError_fails err)
  · rw [heq]
    exact .inl .refl
  · exact .inl (heq ▸ .enqueue _)

/-- What `handle_frame` takes for a connection error in a frame without headers. -/
def FrameError (s : Session) (f : Frame) : Prop :=
  s.continuationSid ≠ 0 ∨
    match f.type with
    | .data => DataError s f
    | .windowUpdate | .rstStream => f.payload.length ≠ 4 ∨ f.streamId = 0
    | .settings | .ping | .pushPromise => True
    | _ => False

/-- A frame without headers keeps the header state, or it is a connection error. -/
theorem handleFrame_keeps {cap : Nat} {f : Frame} (hheaders : f.type ≠ .headers)
    (hcontinuation : f.type ≠ .continuation) :
    Keeps (endedBy f) D s (handleFrame cap s f) ∨
      (Fails (handleFrame cap s f) ∧ FrameError s f) := by
  rw [handleFrame, FrameError]
  split
  · rename_i hopen
    exact .inr ⟨connectionError_fails _, .inl hopen.1⟩
  · cases htype : f.type with
    | headers => exact absurd htype hheaders
    | continuation => exact absurd htype hcontinuation
    | data => exact (onData_keeps cap htype).imp_right fun h => ⟨h.1, .inr h.2⟩
    | settings => exact (onSettings_keeps f).imp_right fun h => ⟨h, .inr trivial⟩
    | windowUpdate => exact (onWindowUpdate_keeps f).imp_right fun h => ⟨h.1, .inr h.2⟩
    | ping => exact (onPing_keeps f).imp_right fun h => ⟨h, .inr trivial⟩
    | rstStream => exact (onRstStream_keeps f).imp_right fun h => ⟨h.1, .inr h.2⟩
    | goaway => exact .inl (.same rfl rfl rfl (fun h => h) (fun h => h) rfl rfl)
    | pushPromise => exact .inr ⟨connectionError_fails _, .inr trivial⟩
    | priority => exact .inl .refl
    | extension b => exact .inl .refl

/-! ## Tasks and tunnels -/

theorem Keeps.endSend (ok : Bool) : Keeps E D s (endSend s sid ok) := by
  refine Keeps.trans (.modify_same sid (g := fun x => { x with sending := none }) ?_)
    (.record (e := .sendEnded sid ok) rfl)
  exact fun _ => ⟨rfl, rfl, rfl, rfl, rfl⟩

theorem Keeps.sendFrame (f : Frame) (todo : List Frame) :
    Keeps E D s (sendFrame s st f todo) := by
  rw [Http2Session.sendFrame]
  split
  · exact .modify_same st.id fun _ => ⟨rfl, rfl, rfl, rfl, rfl⟩
  · exact (Keeps.sendAll _).trans (.modify_same st.id fun _ => ⟨rfl, rfl, rfl, rfl, rfl⟩)
  · exact (Keeps.send _).trans (.modify_same st.id fun _ => ⟨rfl, rfl, rfl, rfl, rfl⟩)

theorem Keeps.sendChunk (rest : Bytes) (endStream : Bool) (todo : List Frame) :
    Keeps E D s (sendChunk s st rest endStream todo) := by
  have hwindow : ∀ s1 : Session, ∀ n, Keeps E D s1 { s1 with connSendWindow := n } :=
    fun _ _ => .same rfl rfl rfl (fun h => h) (fun h => h) rfl rfl
  exact (Keeps.send _).trans ((hwindow _ _).trans
    (.modify_same st.id fun _ => ⟨rfl, rfl, rfl, rfl, rfl⟩))

theorem resumeSend_keeps {snd : Send} (h : resumeSend s st snd = some s') : Keeps E D s s' := by
  obtain ⟨ok, -, rfl⟩ | ⟨f, todo, -, rfl⟩ | ⟨rest, endStream, todo, -, -, -, rfl⟩ :=
    resumeSend_cases h
  · exact .endSend ok
  · exact .sendFrame f todo
  · exact .sendChunk rest endStream todo

theorem timeoutSend_keeps {snd : Send} (h : timeoutSend s st snd = some s') : Keeps E D s s' := by
  obtain rfl := timeoutSend_some h
  exact .endSend false

theorem Keeps.startSend (bytes : Bytes) : Keeps E D s (startSend s sid bytes) := by
  refine Keeps.trans (.modify_same sid
    (g := fun x => { x with sending := some { todo := wireFrames bytes } }) ?_)
    (.record (e := .sendStarted sid bytes) rfl)
  exact fun _ => ⟨rfl, rfl, rfl, rfl, rfl⟩

theorem Keeps.endStream : Keeps E D s (endStream s st) :=
  (Keeps.enqueue _).trans (.modify_same st.id fun _ => ⟨rfl, rfl, rfl, rfl, rfl⟩)

theorem Keeps.tunnelRead (size : Nat) : Keeps E D s (tunnelRead s st size) := by
  rw [Http2Session.tunnelRead]
  split
  · have hread : Keeps E D s (s.modify st.id fun x => { x with
        tunnelIn := st.tunnelIn.drop (min size st.tunnelIn.length) }) :=
      .modify_same st.id fun _ => ⟨rfl, rfl, rfl, rfl, rfl⟩
    dsimp only
    split
    · exact hread.trans ((Keeps.enqueue _).trans
        (.modify_same st.id fun _ => ⟨rfl, rfl, rfl, rfl, rfl⟩))
    · exact hread.trans (.modify_same st.id fun _ => ⟨rfl, rfl, rfl, rfl, rfl⟩)
  · split
    · exact .modify_same st.id fun _ => ⟨rfl, rfl, rfl, rfl, rfl⟩
    · split
      · exact .refl
      · exact .modify_same st.id fun _ => ⟨rfl, rfl, rfl, rfl, rfl⟩

theorem Keeps.finishTask : Keeps E D s (finishTask s st) := by
  rw [Http2Session.finishTask]
  have hrst : Keeps E D s (if st.endStreamReceived || st.reset then s
      else (s.enqueue (rstStreamFrame st.id .noError)).modify st.id
        fun x => { x with reset := true }) := by
    split
    · exact .refl
    · exact (Keeps.enqueue _).trans (.modify_same st.id fun _ => ⟨rfl, rfl, rfl, rfl, rfl⟩)
  exact (hrst.trans (.erase)).trans (.same rfl rfl rfl (fun h => h) (fun h => h) rfl rfl)

theorem taskStep_keeps {a : Action} (h : taskStep s st a = some s') : Keeps E D s s' := by
  cases a with
  | startSend sid bytes =>
    obtain ⟨-, h⟩ := Option.ite_none_right_eq_some.mp h
    obtain rfl := Option.some.inj h
    exact .startSend bytes
  | tunnelWrite sid data =>
    obtain ⟨-, h⟩ := Option.ite_none_right_eq_some.mp h
    obtain rfl := Option.some.inj h
    split
    · exact .refl
    · exact .startSend _
  | resume sid =>
    obtain ⟨snd, -, h⟩ := Option.bind_eq_some_iff.mp h
    exact resumeSend_keeps h
  | timeout sid =>
    obtain ⟨snd, -, h⟩ := Option.bind_eq_some_iff.mp h
    exact timeoutSend_keeps h
  | startTunnel sid =>
    obtain ⟨-, h⟩ := Option.ite_none_right_eq_some.mp h
    obtain rfl := Option.some.inj h
    exact .modify_same sid fun _ => ⟨rfl, rfl, rfl, rfl, rfl⟩
  | endResponse sid =>
    obtain ⟨-, h⟩ := Option.ite_none_right_eq_some.mp h
    obtain rfl := Option.some.inj h
    exact .endStream
  | shutdownSend sid =>
    obtain ⟨-, h⟩ := Option.ite_none_right_eq_some.mp h
    obtain rfl := Option.some.inj h
    exact .endStream
  | tunnelRead sid size =>
    obtain ⟨-, h⟩ := Option.ite_none_right_eq_some.mp h
    obtain rfl := Option.some.inj h
    exact .tunnelRead size
  | tunnelCancel sid =>
    obtain ⟨-, h⟩ := Option.ite_none_right_eq_some.mp h
    obtain rfl := Option.some.inj h
    exact .modify_same sid fun _ => ⟨rfl, rfl, rfl, rfl, rfl⟩
  | tunnelClose sid =>
    obtain ⟨-, h⟩ := Option.ite_none_right_eq_some.mp h
    obtain rfl := Option.some.inj h
    exact (Keeps.enqueue _).trans (.modify_same sid fun _ => ⟨rfl, rfl, rfl, rfl, rfl⟩)
  | finishTask sid =>
    obtain ⟨-, h⟩ := Option.ite_none_right_eq_some.mp h
    obtain rfl := Option.some.inj h
    exact .finishTask
  | _ => cases h

/-- Every action but a frame keeps the header state. -/
theorem step_keeps {cap : Nat} {a : Action} (ha : ∀ f, a ≠ .frame f)
    (h : step cap s a = some s') : Keeps E D s s' := by
  have htask : ∀ a, ((s.object a.sid).bind fun st => taskStep s st a) = some s' →
      Keeps E D s s' := by
    intro a h
    obtain ⟨st, -, h⟩ := Option.bind_eq_some_iff.mp h
    exact taskStep_keeps h
  cases a with
  | frame f => exact absurd rfl (ha f)
  | notAccepting =>
    obtain ⟨-, h⟩ := Option.ite_none_left_eq_some.mp h
    obtain rfl := Option.some.inj h
    exact .sendGoaway _
  | idleTimeout =>
    obtain ⟨-, h⟩ := Option.ite_none_left_eq_some.mp h
    obtain rfl := Option.some.inj h
    exact (Keeps.sendGoaway _).trans (.same rfl rfl rfl (fun h => h) (fun _ => rfl) rfl rfl)
  | drained =>
    obtain ⟨-, h⟩ := Option.ite_none_left_eq_some.mp h
    obtain rfl := Option.some.inj h
    exact .same rfl rfl rfl (fun h => h) (fun _ => rfl) rfl rfl
  | readError =>
    obtain ⟨-, h⟩ := Option.ite_none_left_eq_some.mp h
    obtain rfl := Option.some.inj h
    exact Keeps.markDead.trans (.same rfl rfl rfl (fun h => h) (fun _ => rfl) rfl rfl)
  | shutdown =>
    obtain ⟨-, h⟩ := Option.ite_none_right_eq_some.mp h
    obtain rfl := Option.some.inj h
    exact .markDeadAfterFlush
  | markDead =>
    obtain rfl := Option.some.inj h
    exact .markDead
  | clear =>
    obtain ⟨-, h⟩ := Option.ite_none_right_eq_some.mp h
    obtain rfl := Option.some.inj h
    exact .map fun _ => ⟨rfl, fun h => absurd h Bool.false_ne_true, rfl, .inl rfl, .inl rfl⟩
  | written n =>
    obtain rfl := Option.some.inj h
    exact .same rfl rfl rfl (fun h => h) (fun h => h) rfl rfl
  | _ => exact htask _ h

end Http2HeaderState
