import WaveX.Http2Tasks
import WaveX.Chunks

/-! # Sending under flow control

    `send_frames` of every stream draws on two windows, its stream's and the
    connection's, while the reader moves both: WINDOW_UPDATE adds to one of them and
    SETTINGS shifts the windows of all streams, below zero if it has to.  The accounts of
    this file balance after every effect: a window and what has been sent under it make
    up what the peer has granted.

    The second half follows the bytes: the DATA frames of a stream are the pieces handed
    to `send_frames`, cut into chunks, with END_STREAM on the last chunk only. -/

namespace Http2FlowControl

open QuicVarInt Hpack Http2Frames Http2Session Http2Session.Session Http2Effects Http2Tasks History
  Chunks List

/-! ## Accounts -/

/-- The DATA payload that goes into the outbox. -/
def dataBytes : Event → Nat
  | .sent f | .enqueued f => if f.type = .data then f.payload.length else 0
  | _ => 0

/-- The DATA payload that goes into the outbox for a stream. -/
def dataOn (sid : Nat) : Event → Nat
  | .sent f | .enqueued f =>
      if f.type = .data ∧ f.streamId = sid then f.payload.length else 0
  | _ => 0

/-- The increments of the WINDOW_UPDATE frames received for a stream; 0 is the
    connection. -/
def granted (sid : Nat) : Event → Nat
  | .received f => increment sid f
  | _ => 0

/-- The increments that have been added to a window. -/
def credits (sid : Nat) : Event → Nat
  | .credited k inc => if k = sid then inc else 0
  | _ => 0

/-- A frame as a piece of data with its END_STREAM flag. -/
def dataPiece (f : Frame) : Option (Bytes × Bool) :=
  if f.type = .data then some (f.payload, f.hasFlag flagEndStream) else none

/-- The data in the bytes handed to `send_frames` for a stream. -/
def handed (sid : Nat) : List Event → List (Bytes × Bool)
  | [] => []
  | .sendStarted k bytes :: past =>
      if k = sid then handed sid past ++ (wireFrames bytes).filterMap dataPiece
      else handed sid past
  | _ :: past => handed sid past

/-- The DATA frames that `send_frames` has queued for a stream. -/
def sentData (sid : Nat) : List Event → List (Bytes × Bool)
  | [] => []
  | .sent f :: past =>
      if f.streamId = sid then sentData sid past ++ (dataPiece f).toList else sentData sid past
  | _ :: past => sentData sid past

/-! ## What effects mean for the accounts -/

/-- Events that no account is about. -/
def neutral : Event → Bool
  | .credited _ _ | .sendStarted _ _ | .sendEnded _ _ => false
  | .sent f => f.type != .data
  | .enqueued f => f.type != .data || f.payload.isEmpty
  | _ => true

/-- The accounts stay as they are: only neutral events happen, no window moves and no
    `send_frames` goes on. -/
structure Still (s s' : Session) : Prop where
  conn : s'.connSendWindow = s.connSendWindow
  window : s'.peerInitialWindow = s.peerInitialWindow
  last : s'.lastPeerStreamId = s.lastPeerStreamId
  log : ∃ new, s'.log = new ++ s.log ∧ ∀ e ∈ new, neutral e = true
  streams : ∃ g, s'.streams = s.streams.map g ∧ ∀ x, (g x).id = x.id ∧
    (g x).sendWindow = x.sendWindow ∧ (g x).sending = x.sending ∧
    ((g x).held = true → x.held = true)

/-- What an effect does to the accounts. -/
inductive FlowStep (Sends : Prop) : Session → Session → Prop where
  | still {s s' : Session} (h : Still s s') : FlowStep Sends s s'
  | openStream (s : Session) (sid : Nat) (h : s.lastPeerStreamId < sid) :
      FlowStep Sends s (openStream s { id := sid, sendWindow := s.peerInitialWindow })
  | creditConnection (s : Session) (inc : Nat) (f : Frame) (past : List Event)
      (hlog : s.log = .received f :: past) (hinc : increment 0 f = inc) :
      FlowStep Sends s
        (({ s with connSendWindow := s.connSendWindow + inc }).record (.credited 0 inc))
  | creditStream (s : Session) (sid inc : Nat) (x : StreamState) (f : Frame) (past : List Event)
      (hfind : s.find sid = some x) (hlog : s.log = .received f :: past)
      (hinc : increment sid f = inc) :
      FlowStep Sends s ((s.modify sid fun x => { x with sendWindow := x.sendWindow + inc }).record
        (.credited sid inc))
  | initialWindow (s : Session) (value : Nat) : FlowStep Sends s (setInitialWindow s value)
  | startSend (s : Session) (sid : Nat) (bytes : Bytes) (st : StreamState)
      (hobj : s.object sid = some st) (hsend : st.sending = none) :
      FlowStep Sends s (startSend s sid bytes)
  | endSend (s : Session) (sid : Nat) (ok : Bool) (st : StreamState) (snd : Send)
      (hobj : s.object sid = some st) (hsend : st.sending = some snd)
      (hok : ok = true → snd = { todo := [] }) : FlowStep Sends s (endSend s sid ok)
  /-- `send_frames` takes up its next frame; other frames than DATA are out at once. -/
  | takeUp {s s' : Session} (s1 : Session) (st : StreamState) (f : Frame) (todo : List Frame)
      (h : Sends) (hobj : s.object st.id = some st)
      (hsend : st.sending = some { todo := f :: todo }) (hstill : Still s s1)
      (hs' : s' = s1.modify st.id fun x =>
        { x with sending := some { todo, piece := dataPiece f } }) : FlowStep Sends s s'
  | sendChunk (s : Session) (st : StreamState) (rest : Bytes) (endStream : Bool)
      (todo : List Frame) (h : Sends) (hobj : s.object st.id = some st)
      (hsend : st.sending = some { todo, piece := some (rest, endStream) })
      (hdead : s.dead = false)
      (hopen : rest ≠ [] → 0 < st.sendWindow ∧ 0 < s.connSendWindow) :
      FlowStep Sends s (sendChunk s st rest endStream todo)

variable {Sends : Prop} {may : Kind → Prop} {s s' s'' : Session} {sid : Nat} {x st : StreamState}
  {g : StreamState → StreamState}

theorem Still.refl : Still s s :=
  ⟨rfl, rfl, rfl, ⟨[], rfl, fun _ he => absurd he not_mem_nil⟩,
    ⟨id, (map_id _).symm, fun _ => ⟨rfl, rfl, rfl, fun h => h⟩⟩⟩

theorem Still.trans (h : Still s s') (h' : Still s' s'') : Still s s'' where
  conn := h'.conn.trans h.conn
  window := h'.window.trans h.window
  last := h'.last.trans h.last
  log := by
    obtain ⟨new, hnew, hneutral⟩ := h.log
    obtain ⟨new', hnew', hneutral'⟩ := h'.log
    refine ⟨new' ++ new, by rw [hnew', hnew, append_assoc], fun e he => ?_⟩
    exact (mem_append.mp he).elim (hneutral' e) (hneutral e)
  streams := by
    obtain ⟨g, hg, hsame⟩ := h.streams
    obtain ⟨g', hg', hsame'⟩ := h'.streams
    refine ⟨g' ∘ g, by rw [hg', hg, map_map], fun x => ?_⟩
    obtain ⟨hid, hwin, hsend, hheld⟩ := hsame x
    obtain ⟨hid', hwin', hsend', hheld'⟩ := hsame' (g x)
    exact ⟨hid'.trans hid, hwin'.trans hwin, hsend'.trans hsend, fun h => hheld (hheld' h)⟩

variable {e : Event}

theorem Still.record (he : neutral e = true) : Still s (s.record e) :=
  ⟨rfl, rfl, rfl, ⟨[e], rfl, fun _ he' => mem_singleton.mp he' ▸ he⟩,
    ⟨id, (map_id _).symm, fun _ => ⟨rfl, rfl, rfl, fun h => h⟩⟩⟩

theorem Still.map (hg : ∀ x, (g x).id = x.id ∧ (g x).sendWindow = x.sendWindow ∧
    (g x).sending = x.sending ∧ ((g x).held = true → x.held = true)) :
    Still s { s with streams := s.streams.map g } :=
  ⟨rfl, rfl, rfl, ⟨[], rfl, fun _ he => absurd he not_mem_nil⟩, ⟨g, rfl, hg⟩⟩

theorem Still.modify (sid : Nat) (hg : ∀ x, (g x).id = x.id ∧ (g x).sendWindow = x.sendWindow ∧
    (g x).sending = x.sending ∧ ((g x).held = true → x.held = true)) :
    Still s (s.modify sid g) := by
  refine .map fun x => ?_
  split
  · exact hg x
  · exact ⟨rfl, rfl, rfl, fun h => h⟩

/-- A change of members that no account is about. -/
theorem Still.same (hconn : s'.connSendWindow = s.connSendWindow)
    (hwindow : s'.peerInitialWindow = s.peerInitialWindow)
    (hlast : s'.lastPeerStreamId = s.lastPeerStreamId) (hlog : s'.log = s.log)
    (hstreams : s'.streams = s.streams) : Still s s' :=
  ⟨hconn, hwindow, hlast, ⟨[], hlog, fun _ he => absurd he not_mem_nil⟩,
    ⟨id, hstreams.trans (map_id _).symm, fun _ => ⟨rfl, rfl, rfl, fun h => h⟩⟩⟩

variable {f : Frame}

theorem Still.send (hf : f.type ≠ .data) : Still s (s.send f) := by
  rw [Session.send]
  have hbytes : Still s { s with outboxBytes := s.outboxBytes + f.wireSize } :=
    .same rfl rfl rfl rfl rfl
  split
  · exact .refl
  · exact hbytes.trans (.record (e := .sent f) (bne_iff_ne.mpr hf))

/-- The session itself queues only DATA frames without content. -/
theorem Still.enqueue (hf : f.type ≠ .data ∨ f.payload = []) :
    Still s (s.enqueue f) := by
  rw [Session.enqueue]
  have hbytes : Still s { s with outboxBytes := s.outboxBytes + f.wireSize } :=
    .same rfl rfl rfl rfl rfl
  split
  · exact .refl
  · refine hbytes.trans (.record (e := .enqueued f) ?_)
    rw [neutral, Bool.or_eq_true, bne_iff_ne, List.isEmpty_iff]
    exact hf

theorem Still.sendAll {fs : List Frame} (hfs : ∀ f ∈ fs, f.type ≠ .data) :
    Still s (s.sendAll fs) := by
  induction fs generalizing s with
  | nil => exact .refl
  | cons f rest ih =>
    exact (Still.send (hfs f mem_cons_self)).trans
      (ih fun f' hf' => hfs f' (mem_cons_of_mem f hf'))

theorem continuationFrames_type {sid size fuel : Nat} {block : Bytes}
    (h : f ∈ continuationFrames sid size fuel block) : f.type = .continuation := by
  induction fuel generalizing block with
  | zero => exact absurd h not_mem_nil
  | succ fuel ih =>
    rw [continuationFrames] at h
    split at h
    · exact absurd h not_mem_nil
    · rcases mem_cons.mp h with rfl | hrest
      · rfl
      · exact ih hrest

variable {endStream : Bool}

theorem encodeHeaderFrames_type {sid size : Nat} {block : Bytes}
    (h : f ∈ encodeHeaderFrames sid block endStream size) : f.type ≠ .data := by
  rw [encodeHeaderFrames] at h
  split at h
  · rw [mem_singleton.mp h]
    exact nofun
  · rcases mem_cons.mp h with rfl | hrest
    · exact nofun
    · rw [continuationFrames_type hrest]
      exact nofun

/-- The next frame of a write is a step of the flow of octets. -/
theorem sendFrame_flow (f : Frame) (todo : List Frame) (h : Sends)
    (hobj : s.object st.id = some st) (hsend : st.sending = some { todo := f :: todo }) :
    FlowStep Sends s (sendFrame s st f todo) := by
  have hclosed : ∀ s1 : Session, ∀ b : Bool, s1.modify st.id (fun x => { x with
      localClosed := x.localClosed || b, sending := some { todo } }) =
      (s1.modify st.id fun x => { x with localClosed := x.localClosed || b }).modify st.id
        fun x => { x with sending := some { todo } } := by
    intro s1 b
    rw [modify_modify]
    exact fun _ => rfl
  have hlocal : ∀ s1 : Session, ∀ b : Bool,
      Still s1 (s1.modify st.id fun x => { x with localClosed := x.localClosed || b }) :=
    fun _ _ => .modify st.id fun _ => ⟨rfl, rfl, rfl, fun h => h⟩
  rw [Http2Session.sendFrame]
  split
  · rename_i htype
    refine .takeUp s st f todo h hobj hsend .refl ?_
    rw [dataPiece, if_pos htype]
  · rename_i htype
    have hout : Still s
        (s.sendAll (encodeHeaderFrames st.id f.payload (f.hasFlag flagEndStream)
          s.peerMaxFrameSize)) := .sendAll fun _ hf => encodeHeaderFrames_type hf
    refine .takeUp _ st f todo h hobj hsend (hout.trans (hlocal _ (f.hasFlag flagEndStream))) ?_
    rw [dataPiece, if_neg (by rw [htype]; decide)]
    exact hclosed _ _
  · rename_i hdata _
    have hout : Still s (s.send { f with streamId := st.id }) := .send hdata
    refine .takeUp _ st f todo h hobj hsend (hout.trans (hlocal _ (f.hasFlag flagEndStream))) ?_
    rw [dataPiece, if_neg hdata]
    exact hclosed _ _

/-- Every effect is a step of the accounts. -/
theorem effect_flow (h : Effect may s s') : FlowStep (may .send) s s' := by
  cases h with
  | openStream sid hnew => exact .openStream s sid hnew
  | creditConnection inc f past hlog hinc => exact .creditConnection s inc f past hlog hinc
  | creditStream sid inc x f past hfind hlog hinc =>
    exact .creditStream s sid inc x f past hfind hlog hinc
  | initialWindow value => exact .initialWindow s value
  | startSend sid bytes st hobj hsend _ => exact .startSend s sid bytes st hobj hsend
  | endSend sid ok st snd hobj hsend hok => exact .endSend s sid ok st snd hobj hsend hok
  | sendFrame st f todo hs hobj hsend => exact sendFrame_flow f todo hs hobj hsend
  | sendChunk st rest endStream todo hs hobj hsend hdead hopen =>
    exact .sendChunk s st rest endStream todo hs hobj hsend hdead hopen
  | scalars outboxBytes connRecvUnacked continuationSid decodeTable dead goawaySent =>
    exact .still (.same rfl rfl rfl rfl rfl)
  | frameSize value => exact .still (.same rfl rfl rfl rfl rfl)
  | receive f => exact .still (.record rfl)
  | startTunnel sid => exact .still (.modify sid fun _ => ⟨rfl, rfl, rfl, fun h => h⟩)
  | endStream st =>
    exact .still ((Still.enqueue (Or.inr rfl)).trans
      (.modify st.id fun _ => ⟨rfl, rfl, rfl, fun h => h⟩))
  | note e he =>
    refine .still (.record ?_)
    cases e with
    | enqueued f =>
      rw [quietEvent, Bool.and_eq_true] at he
      rw [neutral, he.1, Bool.true_or]
    | connectionError err => rfl
    | headerBlock sid trailers block table count => rfl
    | _ => exact absurd he Bool.false_ne_true
  | touch g hg =>
    refine .still (.map fun x => ?_)
    obtain ⟨hid, hheld, hwin, -, -, hsend, -, -⟩ := hg x
    exact ⟨hid, hwin, hsend, fun h => hheld ▸ h⟩
  | accept sid => exact .still (.modify sid fun _ => ⟨rfl, rfl, rfl, fun h => h⟩)
  | refuse sid =>
    exact .still (.modify sid fun _ => ⟨rfl, rfl, rfl, fun h => absurd h Bool.false_ne_true⟩)
  | spawn sid =>
    have hmark : Still s (s.modify sid fun x => { x with dispatched := true }) :=
      .modify sid fun _ => ⟨rfl, rfl, rfl, fun h => h⟩
    have hcount : ∀ (s1 : Session) (n : Nat) (l : List Nat),
        Still s1 { s1 with activeTasks := n, tasks := l } := fun _ _ _ => .same rfl rfl rfl rfl rfl
    exact .still ((hmark.trans (hcount _ _ _)).trans (.record (e := .task sid) rfl))
  | drop sid =>
    exact .still (.modify sid fun _ => ⟨rfl, rfl, rfl, fun h => absurd h Bool.false_ne_true⟩)
  | finish sid =>
    have herase : Still s (s.erase sid) :=
      .modify sid fun _ => ⟨rfl, rfl, rfl, fun h => absurd h Bool.false_ne_true⟩
    exact .still (herase.trans (.same rfl rfl rfl rfl rfl))
  | clear =>
    exact .still (.map fun _ => ⟨rfl, rfl, rfl, fun h => absurd h Bool.false_ne_true⟩)

/-! ## Neutral events -/

theorem neutral_dataOn (h : neutral e = true) (sid : Nat) : dataOn sid e = 0 := by
  cases e with
  | sent f => exact if_neg fun hf => bne_iff_ne.mp h hf.1
  | enqueued f =>
    rw [dataOn]
    split
    · rename_i hf
      rw [neutral, hf.1] at h
      exact length_eq_zero_iff.mpr (List.isEmpty_iff.mp h)
    · rfl
  | _ => rfl

theorem neutral_dataBytes (h : neutral e = true) : dataBytes e = 0 := by
  cases e with
  | sent f => exact if_neg (bne_iff_ne.mp h)
  | enqueued f =>
    rw [dataBytes]
    split
    · rename_i hf
      rw [neutral, hf] at h
      exact length_eq_zero_iff.mpr (List.isEmpty_iff.mp h)
    · rfl
  | _ => rfl

theorem neutral_credits (h : neutral e = true) (sid : Nat) : credits sid e = 0 := by
  cases e with
  | credited k inc => exact absurd h Bool.false_ne_true
  | _ => rfl

theorem neutral_handed {new : List Event} (h : ∀ e ∈ new, neutral e = true) (past : List Event)
    (sid : Nat) :
    handed sid (new ++ past) = handed sid past ∧ sentData sid (new ++ past) = sentData sid past := by
  induction new with
  | nil => exact ⟨rfl, rfl⟩
  | cons e rest ih =>
    obtain ⟨hhanded, hsent⟩ := ih fun e' he' => h e' (mem_cons_of_mem e he')
    have he := h e mem_cons_self
    cases e with
    | sendStarted k bytes => exact absurd he Bool.false_ne_true
    | sent f =>
      refine ⟨hhanded, ?_⟩
      rw [cons_append, sentData, dataPiece, if_neg (bne_iff_ne.mp he), Option.toList_none,
        append_nil, ite_self]
      exact hsent
    | _ => exact ⟨hhanded, hsent⟩

/-! ## One chunk -/

/-- A chunk fits what is left and the peer's frame size. -/
theorem chunkSize_le (s : Session) (st : StreamState) (left : Nat) :
    chunkSize s st left ≤ left ∧ chunkSize s st left ≤ s.peerMaxFrameSize := by
  rw [chunkSize]
  omega

variable {rest : Bytes}

/-- A chunk fits into both windows: a piece that is not empty waits until they are open. -/
theorem chunkSize_le_windows (hopen : rest ≠ [] → 0 < st.sendWindow ∧ 0 < s.connSendWindow) :
    (chunkSize s st rest.length = 0 ∨ (chunkSize s st rest.length : Int) ≤ st.sendWindow) ∧
      (chunkSize s st rest.length = 0 ∨ (chunkSize s st rest.length : Int) ≤ s.connSendWindow) := by
  by_cases hrest : rest = []
  · have hzero : chunkSize s st rest.length = 0 := by
      have hle := (chunkSize_le s st rest.length).1
      rw [hrest, length_nil] at hle ⊢
      omega
    exact ⟨.inl hzero, .inl hzero⟩
  · obtain ⟨hstream, hconn⟩ := hopen hrest
    rw [chunkSize]
    omega

variable {todo : List Frame}

/-- A chunk goes out as one DATA frame. -/
theorem sendChunk_log (hdead : s.dead = false) :
    (sendChunk s st rest endStream todo).log =
      .sent (dataFrame st.id (rest.take (chunkSize s st rest.length))
        (chunkSize s st rest.length == rest.length && endStream)) :: s.log := by
  rw [Http2Session.sendChunk, Session.send, hdead]
  rfl

/-- The stream has sent a chunk more, and no other stream has. -/
theorem sendChunk_dataOn (hdead : s.dead = false) (sid : Nat) :
    total (dataOn sid) (sendChunk s st rest endStream todo).log =
      total (dataOn sid) s.log + if st.id = sid then chunkSize s st rest.length else 0 := by
  have hlen : (rest.take (chunkSize s st rest.length)).length = chunkSize s st rest.length := by
    rw [length_take, Nat.min_eq_left (chunkSize_le s st rest.length).1]
  rw [sendChunk_log hdead, total, dataOn]
  by_cases hid : st.id = sid
  · rw [if_pos ⟨rfl, hid⟩, if_pos hid]
    exact congrArg _ hlen
  · rw [if_neg (fun h => hid h.2), if_neg hid]

theorem sendChunk_dataBytes (hdead : s.dead = false) :
    total dataBytes (sendChunk s st rest endStream todo).log =
      total dataBytes s.log + chunkSize s st rest.length := by
  have hlen : (rest.take (chunkSize s st rest.length)).length = chunkSize s st rest.length := by
    rw [length_take, Nat.min_eq_left (chunkSize_le s st rest.length).1]
  rw [sendChunk_log hdead, total]
  exact congrArg _ hlen

theorem sendChunk_credits (hdead : s.dead = false) (sid : Nat) :
    total (credits sid) (sendChunk s st rest endStream todo).log = total (credits sid) s.log := by
  rw [sendChunk_log hdead, total]
  rfl

theorem sendChunk_fields (s : Session) (st : StreamState) (rest : Bytes) (endStream : Bool)
    (todo : List Frame) :
    (sendChunk s st rest endStream todo).connSendWindow =
        s.connSendWindow - chunkSize s st rest.length ∧
      (sendChunk s st rest endStream todo).peerInitialWindow = s.peerInitialWindow ∧
      (sendChunk s st rest endStream todo).lastPeerStreamId = s.lastPeerStreamId ∧
      (sendChunk s st rest endStream todo).peerMaxFrameSize = s.peerMaxFrameSize := by
  rw [Http2Session.sendChunk, Session.send]
  split
  · exact ⟨rfl, rfl, rfl, rfl⟩
  · exact ⟨rfl, rfl, rfl, rfl⟩

theorem sendChunk_streams (s : Session) (st : StreamState) (rest : Bytes) (endStream : Bool)
    (todo : List Frame) :
    ∃ g, (sendChunk s st rest endStream todo).streams = s.streams.map g ∧
      (∀ x, (g x).id = x.id ∧ (g x).held = x.held) ∧ (∀ x, x.id ≠ st.id → g x = x) ∧
      ∀ x, x.id = st.id → (g x).sendWindow = x.sendWindow - chunkSize s st rest.length ∧
        (g x).sending = some ⟨todo, if chunkSize s st rest.length == rest.length then none
          else some (rest.drop (chunkSize s st rest.length), endStream)⟩ := by
  have hstreams : ∀ f, (s.send f).streams = s.streams := by
    intro f
    rw [Session.send]
    split
    · rfl
    · rfl
  refine ⟨_, congrArg (List.map _) (hstreams _), fun x => ?_, fun x hne => if_neg hne, ?_⟩
  · split
    · exact ⟨rfl, rfl⟩
    · exact ⟨rfl, rfl⟩
  · intro x hid
    rw [if_pos hid]
    exact ⟨rfl, rfl⟩

/-! ## Balances -/

/-- The accounts balance: a window and what has been sent under it make up what has been
    granted; nothing has happened to streams that are still to come. -/
structure Balanced (s : Session) : Prop where
  conn : s.connSendWindow + total dataBytes s.log = 65535 + total (credits 0) s.log
  nonneg : 0 ≤ s.connSendWindow
  stream : ∀ x ∈ s.streams, x.held = true →
    x.sendWindow + total (dataOn x.id) s.log = s.peerInitialWindow + total (credits x.id) s.log
  positive : ∀ x ∈ s.streams, x.id ≠ 0
  fresh : ∀ sid, s.lastPeerStreamId < sid →
    total (dataOn sid) s.log = 0 ∧ total (credits sid) s.log = 0

/-- What moves no window keeps them balanced. -/
theorem Balanced.still (h : Balanced s) (hstill : Still s s') : Balanced s' := by
  obtain ⟨hconn, hwindow, hlast, ⟨new, hlog, hneutral⟩, g, hg, hsame⟩ := hstill
  have hbytes : total dataBytes s'.log = total dataBytes s.log := by
    rw [hlog]
    exact total_append_of_zero fun e he => neutral_dataBytes (hneutral e he)
  have hdata : ∀ sid, total (dataOn sid) s'.log = total (dataOn sid) s.log := by
    intro sid
    rw [hlog]
    exact total_append_of_zero fun e he => neutral_dataOn (hneutral e he) sid
  have hcredits : ∀ sid, total (credits sid) s'.log = total (credits sid) s.log := by
    intro sid
    rw [hlog]
    exact total_append_of_zero fun e he => neutral_credits (hneutral e he) sid
  constructor
  · rw [hconn, hbytes, hcredits]
    exact h.conn
  · rw [hconn]
    exact h.nonneg
  · rw [hg]
    intro y hy hheld
    obtain ⟨x, hx, rfl⟩ := mem_map.mp hy
    obtain ⟨hid, hwin, -, hkeep⟩ := hsame x
    rw [hid, hwin, hdata, hcredits, hwindow]
    exact h.stream x hx (hkeep hheld)
  · rw [hg]
    intro y hy
    obtain ⟨x, hx, rfl⟩ := mem_map.mp hy
    rw [(hsame x).1]
    exact h.positive x hx
  · rw [hlast]
    intro sid hnew
    rw [hdata, hcredits]
    exact h.fresh sid hnew

/-- A new stream has sent nothing. -/
theorem Balanced.openStream (h : Balanced s) (hnew : s.lastPeerStreamId < sid) :
    Balanced (Http2Session.openStream s { id := sid, sendWindow := s.peerInitialWindow }) := by
  obtain ⟨hdata, hcredits⟩ := h.fresh sid hnew
  refine ⟨h.conn, h.nonneg, ?_, ?_, ?_⟩
  · intro x hx hheld
    rcases mem_append.mp hx with hold | hnewest
    · exact h.stream x hold hheld
    · rw [mem_singleton.mp hnewest]
      show s.peerInitialWindow + ((total (dataOn sid) s.log : Nat) : Int) =
        s.peerInitialWindow + ((total (credits sid) s.log : Nat) : Int)
      rw [hdata, hcredits]
  · intro x hx
    rcases mem_append.mp hx with hold | hnewest
    · exact h.positive x hold
    · rw [mem_singleton.mp hnewest]
      exact Nat.ne_of_gt (Nat.lt_of_le_of_lt (Nat.zero_le _) hnew)
  · intro k hk
    exact h.fresh k (Nat.lt_trans hnew hk)

/-- An increment of the connection counts for its window. -/
theorem Balanced.creditConnection (h : Balanced s) (inc : Nat) :
    Balanced (({ s with connSendWindow := s.connSendWindow + inc }).record (.credited 0 inc)) := by
  have hcredits : ∀ k, k ≠ 0 → total (credits k) (.credited 0 inc :: s.log) =
      total (credits k) s.log := fun k hk => by rw [total, credits, if_neg hk.symm, Nat.add_zero]
  refine ⟨?_, ?_, ?_, h.positive, ?_⟩
  · have hconn := h.conn
    show s.connSendWindow + inc + ((total dataBytes s.log : Nat) : Int) =
      65535 + ((total (credits 0) s.log + inc : Nat) : Int)
    omega
  · have hnonneg := h.nonneg
    show 0 ≤ s.connSendWindow + (inc : Int)
    omega
  · intro x hx hheld
    show x.sendWindow + ((total (dataOn x.id) s.log : Nat) : Int) =
      s.peerInitialWindow + ((total (credits x.id) (.credited 0 inc :: s.log) : Nat) : Int)
    rw [hcredits x.id (h.positive x hx)]
    exact h.stream x hx hheld
  · intro k hk
    have hpos : k ≠ 0 := Nat.ne_of_gt (Nat.lt_of_le_of_lt (Nat.zero_le _) hk)
    show total (dataOn k) s.log = 0 ∧ total (credits k) (.credited 0 inc :: s.log) = 0
    rw [hcredits k hpos]
    exact h.fresh k hk

/-- An increment of a stream counts for its window. -/
theorem Balanced.creditStream (h : Balanced s) (hsound : Sound (tableOf s))
    (hfind : s.find sid = some x) (inc : Nat) :
    Balanced ((s.modify sid fun x => { x with sendWindow := x.sendWindow + inc }).record
      (.credited sid inc)) := by
  obtain ⟨hmem, hid, -⟩ := find_some hfind
  have hsid : sid ≠ 0 := hid ▸ h.positive x hmem
  have hknown : sid ≤ s.lastPeerStreamId := hid ▸ hsound.known_stream hmem
  have hcredits : ∀ k, total (credits k) (.credited sid inc :: s.log) =
      total (credits k) s.log + if sid = k then inc else 0 := fun _ => rfl
  refine ⟨?_, h.nonneg, ?_, ?_, ?_⟩
  · show s.connSendWindow + ((total dataBytes s.log : Nat) : Int) =
      65535 + ((total (credits 0) (.credited sid inc :: s.log) : Nat) : Int)
    rw [hcredits, if_neg hsid, Nat.add_zero]
    exact h.conn
  · intro y hy hheld
    obtain ⟨z, hz, rfl⟩ := mem_map.mp hy
    show _ + ((total (dataOn _) s.log : Nat) : Int) =
      s.peerInitialWindow + ((total (credits _) (.credited sid inc :: s.log) : Nat) : Int)
    rw [hcredits]
    by_cases hzid : z.id = sid
    · rw [if_pos hzid] at hheld ⊢
      have hz' := h.stream z hz hheld
      show z.sendWindow + inc + ((total (dataOn z.id) s.log : Nat) : Int) = s.peerInitialWindow +
        ((total (credits z.id) s.log + (if sid = z.id then inc else 0) : Nat) : Int)
      rw [if_pos hzid.symm]
      omega
    · rw [if_neg hzid] at hheld ⊢
      rw [if_neg (Ne.symm hzid), Nat.add_zero]
      exact h.stream z hz hheld
  · intro y hy
    obtain ⟨z, hz, rfl⟩ := mem_map.mp hy
    split
    · exact h.positive z hz
    · exact h.positive z hz
  · intro k hk
    have hlt : s.lastPeerStreamId < k := hk
    show total (dataOn k) s.log = 0 ∧ total (credits k) (.credited sid inc :: s.log) = 0
    rw [hcredits, if_neg (by omega), Nat.add_zero]
    exact h.fresh k hlt

/-- A new initial window moves the windows of all streams. -/
theorem Balanced.initialWindow (h : Balanced s) (value : Nat) :
    Balanced (setInitialWindow s value) := by
  refine ⟨h.conn, h.nonneg, ?_, ?_, h.fresh⟩
  · intro y hy hheld
    obtain ⟨x, hx, rfl⟩ := mem_map.mp hy
    cases hx' : x.held with
    | false =>
      rw [hx', if_neg Bool.false_ne_true] at hheld
      exact absurd (hx'.symm.trans hheld) Bool.false_ne_true
    | true =>
      have hstream := h.stream x hx hx'
      rw [if_pos rfl]
      show x.sendWindow + (value - s.peerInitialWindow) +
        ((total (dataOn x.id) s.log : Nat) : Int) =
        (value : Int) + ((total (credits x.id) s.log : Nat) : Int)
      omega
  · intro y hy
    obtain ⟨x, hx, rfl⟩ := mem_map.mp hy
    split
    · exact h.positive x hx
    · exact h.positive x hx

/-- A `send_frames` starts, ends or takes up a frame: no window moves. -/
theorem Balanced.modify (h : Balanced s) (sid : Nat) (hg : ∀ x, (g x).id = x.id ∧
    (g x).held = x.held ∧ (g x).sendWindow = x.sendWindow) : Balanced (s.modify sid g) := by
  have hsame : ∀ x : StreamState, (if x.id = sid then g x else x).id = x.id ∧
      (if x.id = sid then g x else x).held = x.held ∧
      (if x.id = sid then g x else x).sendWindow = x.sendWindow := by
    intro x
    split
    · exact hg x
    · exact ⟨rfl, rfl, rfl⟩
  refine ⟨h.conn, h.nonneg, ?_, ?_, h.fresh⟩
  · intro y hy hheld
    obtain ⟨x, hx, rfl⟩ := mem_map.mp hy
    obtain ⟨hid, hheld', hwin⟩ := hsame x
    rw [hid, hwin]
    exact h.stream x hx (hheld' ▸ hheld)
  · intro y hy
    obtain ⟨x, hx, rfl⟩ := mem_map.mp hy
    rw [(hsame x).1]
    exact h.positive x hx

theorem Balanced.record (h : Balanced s)
    (he : dataBytes e = 0 ∧ (∀ sid, dataOn sid e = 0) ∧ ∀ sid, credits sid e = 0) :
    Balanced (s.record e) := by
  obtain ⟨hbytes, hdata, hcredits⟩ := he
  have hzero : ∀ {k : Event → Nat}, k e = 0 → total k (e :: s.log) = total k s.log := by
    intro k hk
    rw [total, hk, Nat.add_zero]
  refine ⟨?_, h.nonneg, ?_, h.positive, ?_⟩
  · show s.connSendWindow + ((total dataBytes (e :: s.log) : Nat) : Int) =
      65535 + ((total (credits 0) (e :: s.log) : Nat) : Int)
    rw [hzero hbytes, hzero (hcredits 0)]
    exact h.conn
  · intro x hx hheld
    show x.sendWindow + ((total (dataOn x.id) (e :: s.log) : Nat) : Int) =
      s.peerInitialWindow + ((total (credits x.id) (e :: s.log) : Nat) : Int)
    rw [hzero (hdata x.id), hzero (hcredits x.id)]
    exact h.stream x hx hheld
  · intro k hk
    show total (dataOn k) (e :: s.log) = 0 ∧ total (credits k) (e :: s.log) = 0
    rw [hzero (hdata k), hzero (hcredits k)]
    exact h.fresh k hk

/-- A chunk is taken off both windows. -/
theorem Balanced.sendChunk (h : Balanced s) (hsound : Sound (tableOf s))
    (hobj : s.object st.id = some st) (hdead : s.dead = false)
    (hopen : rest ≠ [] → 0 < st.sendWindow ∧ 0 < s.connSendWindow) :
    Balanced (sendChunk s st rest endStream todo) := by
  obtain ⟨hmem, -⟩ := object_some hobj
  have hknown := hsound.known_stream hmem
  obtain ⟨hconn, hwindow, hlast, -⟩ := sendChunk_fields s st rest endStream todo
  obtain ⟨g, hg, hsame, hother, hown⟩ := sendChunk_streams s st rest endStream todo
  have hfits := (chunkSize_le_windows hopen).2
  constructor
  · have hbefore := h.conn
    rw [hconn, sendChunk_dataBytes hdead, sendChunk_credits hdead]
    omega
  · have hnonneg := h.nonneg
    rw [hconn]
    omega
  · rw [hg]
    intro y hy hheld
    obtain ⟨x, hx, rfl⟩ := mem_map.mp hy
    obtain ⟨hid, hheld'⟩ := hsame x
    rw [hheld'] at hheld
    have hbefore := h.stream x hx hheld
    rw [hid, sendChunk_dataOn hdead, sendChunk_credits hdead, hwindow]
    by_cases hxid : x.id = st.id
    · rw [(hown x hxid).1, if_pos hxid.symm]
      omega
    · rw [hother x hxid, if_neg (Ne.symm hxid)]
      exact hbefore
  · rw [hg]
    intro y hy
    obtain ⟨x, hx, rfl⟩ := mem_map.mp hy
    rw [(hsame x).1]
    exact h.positive x hx
  · rw [hlast]
    intro k hk
    rw [sendChunk_dataOn hdead, sendChunk_credits hdead, if_neg (by omega), Nat.add_zero]
    exact h.fresh k hk

/-- Every step keeps the windows balanced. -/
theorem Balanced.step (h : Balanced s) (hsound : Sound (tableOf s)) (hstep : FlowStep Sends s s') :
    Balanced s' := by
  cases hstep with
  | still hstill => exact h.still hstill
  | openStream sid hnew => exact h.openStream hnew
  | creditConnection inc => exact h.creditConnection inc
  | creditStream sid inc x f past hfind => exact h.creditStream hsound hfind inc
  | initialWindow value => exact h.initialWindow value
  | startSend sid bytes =>
    have hsending : Balanced (s.modify sid fun x =>
        { x with sending := some { todo := wireFrames bytes } }) :=
      h.modify sid fun _ => ⟨rfl, rfl, rfl⟩
    exact hsending.record (e := .sendStarted sid bytes) ⟨rfl, fun _ => rfl, fun _ => rfl⟩
  | endSend sid ok =>
    have hsending : Balanced (s.modify sid fun x => { x with sending := none }) :=
      h.modify sid fun _ => ⟨rfl, rfl, rfl⟩
    exact hsending.record (e := .sendEnded sid ok) ⟨rfl, fun _ => rfl, fun _ => rfl⟩
  | takeUp s1 st f todo _ _ _ hstill hs' =>
    rw [hs']
    exact (h.still hstill).modify st.id fun _ => ⟨rfl, rfl, rfl⟩
  | sendChunk st rest endStream todo _ hobj _ hdead hopen => exact h.sendChunk hsound hobj hdead hopen

theorem effects_balanced (h : Effects anyKind {} s) : Balanced s := by
  refine (h.invariant (I := fun s => Sound (tableOf s) ∧ Balanced s) ⟨new_sound, ?_⟩ ?_).2
  · exact ⟨rfl, by decide, fun _ hx => absurd hx not_mem_nil,
      fun _ hx => absurd hx not_mem_nil, fun _ _ => ⟨rfl, rfl⟩⟩
  · rintro s s' he ⟨hsound, hbalanced⟩
    exact ⟨effect_sound he hsound, hbalanced.step hsound (effect_flow he)⟩

/-! ## Credits come from the peer -/

/-- The increment of a WINDOW_UPDATE frame that has just been taken up. -/
def spare (sid : Nat) : List Event → Nat
  | .received f :: _ => increment sid f
  | _ => 0

/-- No more is added to a window than the peer has sent increments for. -/
def Backed (log : List Event) : Prop :=
  ∀ sid, total (credits sid) log + spare sid log ≤ total (granted sid) log

theorem Backed.cons {past : List Event} (h : Backed past) (he : ∀ sid, credits sid e = 0) :
    Backed (e :: past) := by
  intro sid
  have hpast := h sid
  rw [total, total, he sid]
  cases e with
  | received f =>
    show _ + increment sid f ≤ _ + increment sid f
    omega
  | _ =>
    show _ + 0 ≤ _ + 0
    omega

theorem Backed.append {new past : List Event} (h : Backed past)
    (hnew : ∀ e ∈ new, neutral e = true) : Backed (new ++ past) := by
  induction new with
  | nil => exact h
  | cons e rest ih =>
    refine (ih fun e' he' => hnew e' (mem_cons_of_mem e he')).cons fun sid => ?_
    exact neutral_credits (hnew e mem_cons_self) sid

/-- The increment of the frame just taken up is added to its window. -/
theorem Backed.credit {past : List Event} {inc : Nat} (h : Backed (.received f :: past))
    (hinc : increment sid f = inc) :
    Backed (.credited sid inc :: .received f :: past) := by
  intro k
  have hk := h k
  show total (credits k) (.received f :: past) + (if sid = k then inc else 0) + 0 ≤
    total (granted k) (.received f :: past) + 0
  split
  · rename_i hsid
    subst hsid
    have hspare : spare sid (.received f :: past) = inc := hinc
    omega
  · omega

/-- No step adds more to a window than increments came for. -/
theorem Backed.step (h : Backed s.log) (hstep : FlowStep Sends s s') : Backed s'.log := by
  cases hstep with
  | still hstill =>
    obtain ⟨new, hlog, hneutral⟩ := hstill.log
    rw [hlog]
    exact h.append hneutral
  | openStream sid => exact h.cons fun _ => rfl
  | creditConnection inc f past hlog hinc =>
    rw [hlog] at h
    show Backed (.credited 0 inc :: s.log)
    rw [hlog]
    exact h.credit hinc
  | creditStream sid inc x f past hfind hlog hinc =>
    rw [hlog] at h
    show Backed (.credited sid inc :: s.log)
    rw [hlog]
    exact h.credit hinc
  | initialWindow value => exact h
  | startSend sid bytes => exact h.cons fun _ => rfl
  | endSend sid ok => exact h.cons fun _ => rfl
  | takeUp s1 st f todo _ _ _ hstill hs' =>
    obtain ⟨new, hlog, hneutral⟩ := hstill.log
    rw [hs']
    show Backed s1.log
    rw [hlog]
    exact h.append hneutral
  | sendChunk st rest endStream todo _ hobj _ hdead =>
    rw [sendChunk_log hdead]
    exact h.cons fun _ => rfl

theorem effects_backed (h : Effects anyKind {} s) : Backed s.log := by
  refine h.invariant (I := fun s => Backed s.log) (fun _ => Nat.le_refl 0) ?_
  intro s s' he hbacked
  exact hbacked.step (effect_flow he)

/-! ## The bytes of a stream -/

/-- Where a `send_frames` stands: what has been handed over against what is out. -/
def Tracks (pieces chunks : List (Bytes × Bool)) : Option Send → Prop
  | none => Cuts pieces chunks
  | some { todo, piece := none } => Ready pieces (todo.filterMap dataPiece) chunks
  | some { todo, piece := some (rest, endStream) } =>
      Midway pieces (todo.filterMap dataPiece) rest endStream chunks

/-- No `send_frames` of the stream has failed. -/
def Unbroken (sid : Nat) (log : List Event) : Prop := .sendEnded sid false ∉ log

/-- Every stream whose sends have not failed is where its `send_frames` says, and nothing
    has been sent for an id without a stream. -/
structure Tracked (s : Session) : Prop where
  stream : ∀ x ∈ s.streams, Unbroken x.id s.log →
    Tracks (handed x.id s.log) (sentData x.id s.log) x.sending
  absent : ∀ sid, (∀ x ∈ s.streams, x.id ≠ sid) → handed sid s.log = [] ∧ sentData sid s.log = []

theorem Unbroken.past {past : List Event} (h : Unbroken sid (e :: past)) :
    Unbroken sid past := fun hmem => h (mem_cons_of_mem e hmem)

theorem Tracked.still (h : Tracked s) (hstill : Still s s') : Tracked s' := by
  obtain ⟨-, -, -, ⟨new, hlog, hneutral⟩, g, hg, hsame⟩ := hstill
  constructor
  · rw [hg, hlog]
    intro y hy hunbroken
    obtain ⟨x, hx, rfl⟩ := mem_map.mp hy
    obtain ⟨hid, -, hsend, -⟩ := hsame x
    rw [hid] at hunbroken ⊢
    obtain ⟨hhanded, hsent⟩ := neutral_handed hneutral s.log x.id
    rw [hhanded, hsent, hsend]
    exact h.stream x hx fun hmem => hunbroken (mem_append_right new hmem)
  · rw [hg, hlog]
    intro sid habsent
    obtain ⟨hhanded, hsent⟩ := neutral_handed hneutral s.log sid
    rw [hhanded, hsent]
    refine h.absent sid fun x hx => ?_
    rw [← (hsame x).1]
    exact habsent (g x) (mem_map_of_mem hx)

theorem Tracked.openStream (h : Tracked s) (hsound : Sound (tableOf s))
    (hnew : s.lastPeerStreamId < sid) (w : Int) :
    Tracked (openStream s { id := sid, sendWindow := w }) := by
  constructor
  · intro x hx hunbroken
    rcases mem_append.mp hx with hold | hnewest
    · exact h.stream x hold hunbroken.past
    · rw [mem_singleton.mp hnewest]
      have habsent : ∀ x ∈ s.streams, x.id ≠ sid := by
        intro x hx
        have hknown := hsound.known_stream hx
        omega
      obtain ⟨hhanded, hsent⟩ := h.absent sid habsent
      show Cuts (handed sid s.log) (sentData sid s.log)
      rw [hhanded, hsent]
      exact .nil
  · intro k habsent
    exact h.absent k fun x hx => habsent x (mem_append_left _ hx)

/-- An event that is neither handed nor sent, together with a change of objects that keeps
    every `send_frames` but those of one stream. -/
theorem Tracked.modify (h : Tracked s) (hid : ∀ x, (g x).id = x.id)
    (he : ∀ k, handed k (e :: s.log) = handed k s.log ∧ sentData k (e :: s.log) = sentData k s.log)
    (hown : ∀ x ∈ s.streams, x.id = sid → Unbroken sid (e :: s.log) →
      Tracks (handed sid s.log) (sentData sid s.log) x.sending →
      Tracks (handed sid s.log) (sentData sid s.log) (g x).sending) :
    Tracked ((s.modify sid g).record e) := by
  have hids : ∀ x : StreamState, (if x.id = sid then g x else x).id = x.id := by
    intro x
    split
    · exact hid x
    · rfl
  constructor
  · intro y hy hunbroken
    obtain ⟨x, hx, rfl⟩ := mem_map.mp hy
    rw [hids] at hunbroken ⊢
    obtain ⟨hhanded, hsent⟩ := he x.id
    show Tracks (handed x.id (e :: s.log)) (sentData x.id (e :: s.log)) _
    rw [hhanded, hsent]
    have hx' := h.stream x hx hunbroken.past
    by_cases hxid : x.id = sid
    · rw [if_pos hxid]
      rw [hxid] at hx' hunbroken ⊢
      exact hown x hx hxid hunbroken hx'
    · rw [if_neg hxid]
      exact hx'
  · intro k habsent
    obtain ⟨hhanded, hsent⟩ := he k
    show handed k (e :: s.log) = [] ∧ sentData k (e :: s.log) = []
    rw [hhanded, hsent]
    refine h.absent k fun x hx => ?_
    rw [← hids x]
    exact habsent _ (mem_map_of_mem hx)

theorem Tracked.map (h : Tracked s) (hg : ∀ x, (g x).id = x.id ∧ (g x).sending = x.sending) :
    Tracked { s with streams := s.streams.map g } := by
  constructor
  · intro y hy hunbroken
    obtain ⟨x, hx, rfl⟩ := mem_map.mp hy
    obtain ⟨hid, hsend⟩ := hg x
    rw [hid] at hunbroken ⊢
    rw [hsend]
    exact h.stream x hx hunbroken
  · intro k habsent
    refine h.absent k fun x hx => ?_
    rw [← (hg x).1]
    exact habsent (g x) (mem_map_of_mem hx)

theorem Tracked.record (h : Tracked s) (he : ∀ k, handed k (e :: s.log) = handed k s.log ∧
      sentData k (e :: s.log) = sentData k s.log) : Tracked (s.record e) := by
  constructor
  · intro x hx hunbroken
    obtain ⟨hhanded, hsent⟩ := he x.id
    show Tracks (handed x.id (e :: s.log)) (sentData x.id (e :: s.log)) _
    rw [hhanded, hsent]
    exact h.stream x hx hunbroken.past
  · intro k habsent
    obtain ⟨hhanded, hsent⟩ := he k
    show handed k (e :: s.log) = [] ∧ sentData k (e :: s.log) = []
    rw [hhanded, hsent]
    exact h.absent k habsent

/-- A new write is all to be sent. -/
theorem Tracked.startSend (h : Tracked s) (hsound : Sound (tableOf s)) (bytes : Bytes)
    (hobj : s.object sid = some st) (hsend : st.sending = none) :
    Tracked (startSend s sid bytes) := by
  obtain ⟨hmem, hid⟩ := object_some hobj
  have hhanded : ∀ k, handed k (.sendStarted sid bytes :: s.log) =
      if sid = k then handed k s.log ++ (wireFrames bytes).filterMap dataPiece
      else handed k s.log := fun _ => rfl
  constructor
  · intro y hy hunbroken
    obtain ⟨x, hx, rfl⟩ := mem_map.mp hy
    by_cases hxid : x.id = sid
    · rw [if_pos hxid] at hunbroken ⊢
      have hx' := h.stream x hx hunbroken.past
      rw [hsound.unique_stream hx hmem (hxid.trans hid.symm), hsend] at hx'
      show Ready (handed x.id (.sendStarted sid bytes :: s.log)) _ (sentData x.id s.log)
      rw [hhanded, if_pos hxid.symm, hxid, ← hid]
      exact Cuts.start hx' _
    · rw [if_neg hxid] at hunbroken ⊢
      show Tracks (handed x.id (.sendStarted sid bytes :: s.log)) (sentData x.id s.log) _
      rw [hhanded, if_neg (Ne.symm hxid)]
      exact h.stream x hx hunbroken.past
  · intro k habsent
    have hids : ∀ x ∈ s.streams, x.id ≠ k := by
      intro x hx
      have hne := habsent _ (mem_map_of_mem hx)
      split at hne
      · exact hne
      · exact hne
    show handed k (.sendStarted sid bytes :: s.log) = [] ∧ sentData k s.log = []
    rw [hhanded, if_neg fun hsid => hids st hmem (hid.trans hsid)]
    exact h.absent k hids

theorem Tracks.next {pieces chunks : List (Bytes × Bool)}
    (h : Tracks pieces chunks (some { todo := f :: todo })) :
    Tracks pieces chunks (some { todo, piece := dataPiece f }) := by
  have hready : Ready pieces ((f :: todo).filterMap dataPiece) chunks := h
  cases hpiece : dataPiece f with
  | none =>
    rw [filterMap_cons_none hpiece] at hready
    exact hready
  | some p =>
    rw [filterMap_cons_some hpiece] at hready
    exact hready.take

theorem Tracked.takeUp (h : Tracked s) (hsound : Sound (tableOf s))
    (hobj : s.object st.id = some st) (hsend : st.sending = some { todo := f :: todo })
    (hstill : Still s s') :
    Tracked (s'.modify st.id fun x => { x with sending := some { todo, piece := dataPiece f } }) := by
  obtain ⟨hmem, -⟩ := object_some hobj
  have hnext := h.still hstill
  obtain ⟨g, hg, hsame⟩ := hstill.streams
  constructor
  · intro z hz hunbroken
    obtain ⟨y, hy, rfl⟩ := mem_map.mp hz
    have hy' := hg ▸ hy
    obtain ⟨x, hx, rfl⟩ := mem_map.mp hy'
    obtain ⟨hid, -, hkeeps, -⟩ := hsame x
    by_cases hxid : (g x).id = st.id
    · rw [if_pos hxid] at hunbroken ⊢
      have htracks := hnext.stream (g x) hy hunbroken
      have hsending : (g x).sending = some { todo := f :: todo } := by
        rw [hkeeps, hsound.unique_stream hx hmem (hid.symm.trans hxid), hsend]
      rw [hsending] at htracks
      exact htracks.next
    · rw [if_neg hxid] at hunbroken ⊢
      exact hnext.stream (g x) hy hunbroken
  · intro k habsent
    refine hnext.absent k fun y hy => ?_
    have hne := habsent _ (mem_map_of_mem hy)
    split at hne
    · exact hne
    · exact hne

/-- A chunk is out: the piece is done with it, or goes on with the rest. -/
theorem Tracks.chunk {pieces chunks : List (Bytes × Bool)} (n : Nat)
    (h : Tracks pieces chunks (some { todo, piece := some (rest, endStream) })) :
    Tracks pieces (chunks ++ [(rest.take n, n == rest.length && endStream)])
      (some ⟨todo, if n == rest.length then none else some (rest.drop n, endStream)⟩) := by
  have hmidway : Midway pieces (todo.filterMap dataPiece) rest endStream chunks := h
  cases hlast : n == rest.length with
  | true =>
    rw [beq_iff_eq.mp hlast, take_length, Bool.true_and, if_pos rfl]
    exact hmidway.last
  | false =>
    rw [Bool.false_and, if_neg Bool.false_ne_true]
    exact hmidway.chunk n

theorem dataFrame_piece (sid : Nat) (payload : Bytes) (endStream : Bool) :
    dataPiece (dataFrame sid payload endStream) = some (payload, endStream) := by
  have hflag : (dataFrame sid payload endStream).hasFlag flagEndStream = endStream := by
    cases endStream with
    | true => exact (by decide : (1 &&& 1 == 1) = true)
    | false => exact (by decide : (0 &&& 1 == 1) = false)
  rw [dataPiece, hflag]
  rfl

/-- A chunk is the next piece of its write. -/
theorem Tracked.sendChunk (h : Tracked s) (hsound : Sound (tableOf s))
    (hobj : s.object st.id = some st)
    (hsend : st.sending = some { todo, piece := some (rest, endStream) }) (hdead : s.dead = false) :
    Tracked (sendChunk s st rest endStream todo) := by
  obtain ⟨hmem, -⟩ := object_some hobj
  obtain ⟨g, hg, hsame, hother, hown⟩ := sendChunk_streams s st rest endStream todo
  have hsent : ∀ k, sentData k (Http2Session.sendChunk s st rest endStream todo).log =
      if st.id = k then sentData k s.log ++ [(rest.take (chunkSize s st rest.length),
        chunkSize s st rest.length == rest.length && endStream)]
      else sentData k s.log := by
    intro k
    rw [sendChunk_log hdead, sentData, dataFrame_piece]
    rfl
  have hhanded : ∀ k, handed k (Http2Session.sendChunk s st rest endStream todo).log =
      handed k s.log := by
    intro k
    rw [sendChunk_log hdead]
    rfl
  have hpast : ∀ k, Unbroken k (Http2Session.sendChunk s st rest endStream todo).log →
      Unbroken k s.log := by
    intro k hunbroken
    rw [sendChunk_log hdead] at hunbroken
    exact hunbroken.past
  constructor
  · rw [hg]
    intro y hy hunbroken
    obtain ⟨x, hx, rfl⟩ := mem_map.mp hy
    rw [(hsame x).1] at hunbroken ⊢
    have hx' := h.stream x hx (hpast _ hunbroken)
    rw [hhanded, hsent]
    by_cases hxid : x.id = st.id
    · rw [if_pos hxid.symm, (hown x hxid).2]
      rw [hsound.unique_stream hx hmem hxid, hsend] at hx'
      rw [hxid]
      exact hx'.chunk _
    · rw [if_neg (Ne.symm hxid), hother x hxid]
      exact hx'
  · rw [hg]
    intro k habsent
    have hids : ∀ x ∈ s.streams, x.id ≠ k := by
      intro x hx
      rw [← (hsame x).1]
      exact habsent _ (mem_map_of_mem hx)
    rw [hhanded, hsent, if_neg (hids st hmem)]
    exact h.absent k hids

/-- Every step keeps the writes in order. -/
theorem Tracked.step (h : Tracked s) (hsound : Sound (tableOf s)) (hstep : FlowStep Sends s s') :
    Tracked s' := by
  cases hstep with
  | still hstill => exact h.still hstill
  | openStream sid hnew => exact h.openStream hsound hnew _
  | creditConnection inc =>
    have hconn : Tracked { s with connSendWindow := s.connSendWindow + inc } := ⟨h.stream, h.absent⟩
    exact hconn.record fun _ => ⟨rfl, rfl⟩
  | creditStream sid inc =>
    exact h.modify (fun _ => rfl) (fun _ => ⟨rfl, rfl⟩) fun _ _ _ _ htracks => htracks
  | initialWindow value =>
    have hvalue : Tracked { s with peerInitialWindow := value } := ⟨h.stream, h.absent⟩
    refine hvalue.map fun x => ?_
    split
    · exact ⟨rfl, rfl⟩
    · exact ⟨rfl, rfl⟩
  | startSend sid bytes st hobj hsend => exact h.startSend hsound bytes hobj hsend
  | endSend sid ok st snd hobj hsend hok =>
    obtain ⟨hmem, hid⟩ := object_some hobj
    refine h.modify (fun _ => rfl) (fun _ => ⟨rfl, rfl⟩) fun x hx hxid hunbroken htracks => ?_
    cases ok with
    | false => exact absurd mem_cons_self hunbroken
    | true =>
      rw [hsound.unique_stream hx hmem (hxid.trans hid.symm), hsend, hok rfl] at htracks
      exact Ready.done htracks
  | takeUp s1 st f todo _ hobj hsend hstill hs' =>
    rw [hs']
    exact h.takeUp hsound hobj hsend hstill
  | sendChunk st rest endStream todo _ hobj hsend hdead => exact h.sendChunk hsound hobj hsend hdead

theorem effects_tracked (h : Effects anyKind {} s) : Tracked s := by
  refine (h.invariant (I := fun s => Sound (tableOf s) ∧ Tracked s) ⟨new_sound, ?_⟩ ?_).2
  · exact ⟨fun _ hx => absurd hx not_mem_nil, fun _ _ => ⟨rfl, rfl⟩⟩
  · rintro s s' he ⟨hsound, htracked⟩
    exact ⟨effect_sound he hsound, htracked.step hsound (effect_flow he)⟩

/-! ## Runs -/

/-- The DATA frame `f` goes into the outbox between `s` and `s'`. -/
def Queues (s s' : Session) (f : Frame) : Prop :=
  f.type = .data ∧ ∃ new, s'.log = new ++ s.log ∧ (.sent f ∈ new ∨ .enqueued f ∈ new)

/-- One chunk of a `send_frames` goes out. -/
def SendsChunk (s s' : Session) : Prop :=
  ∃ st rest endStream todo, s.object st.id = some st ∧ s.dead = false ∧
    (rest ≠ [] → 0 < st.sendWindow ∧ 0 < s.connSendWindow) ∧
    s' = sendChunk s st rest endStream todo

/-- No data goes out. -/
def NoData (s s' : Session) : Prop :=
  ∃ new, s'.log = new ++ s.log ∧ ∀ e ∈ new, dataBytes e = 0

theorem NoData.trans (h : NoData s s') (h' : NoData s' s'') : NoData s s'' := by
  obtain ⟨new, hnew, hzero⟩ := h
  obtain ⟨new', hnew', hzero'⟩ := h'
  refine ⟨new' ++ new, by rw [hnew', hnew, append_assoc], fun e he => ?_⟩
  exact (mem_append.mp he).elim (hzero' e) (hzero e)

theorem Still.noData (h : Still s s') : NoData s s' := by
  obtain ⟨new, hlog, hneutral⟩ := h.log
  exact ⟨new, hlog, fun e he => neutral_dataBytes (hneutral e he)⟩

theorem noData_cons (hlog : s'.log = e :: s.log) (he : dataBytes e = 0) : NoData s s' :=
  ⟨[e], hlog, fun _ he' => mem_singleton.mp he' ▸ he⟩

/-- Only a chunk brings DATA. -/
theorem FlowStep.noData (h : FlowStep Sends s s') : NoData s s' ∨ (Sends ∧ SendsChunk s s') := by
  cases h with
  | still hstill => exact .inl hstill.noData
  | openStream sid => exact .inl (noData_cons rfl rfl)
  | creditConnection inc => exact .inl (noData_cons rfl rfl)
  | creditStream sid inc => exact .inl (noData_cons rfl rfl)
  | initialWindow value => exact .inl ⟨[], rfl, fun _ he => absurd he not_mem_nil⟩
  | startSend sid bytes => exact .inl (noData_cons rfl rfl)
  | endSend sid ok => exact .inl (noData_cons rfl rfl)
  | takeUp s1 st f todo _ _ _ hstill hs' =>
    rw [hs']
    exact .inl hstill.noData
  | sendChunk st rest endStream todo hsends hobj _ hdead hopen =>
    exact .inr ⟨hsends, st, rest, endStream, todo, hobj, hdead, hopen, rfl⟩

theorem effects_noData (h : Effects may s s') (hmay : ¬ may .send) : NoData s s' := by
  induction h with
  | refl => exact ⟨[], rfl, fun _ he => absurd he not_mem_nil⟩
  | tail _ he ih => exact ih.trans ((effect_flow he).noData.resolve_right fun h => hmay h.1)

/-- Data goes out only when a `send_frames` goes on, one chunk at a time. -/
theorem step_noData {cap : Nat} {a : Action} (hstarted : Started s)
    (hstep : step cap s a = some s') : NoData s s' ∨ SendsChunk s s' := by
  by_cases ha : ∃ sid, a = .resume sid
  · obtain ⟨sid, rfl⟩ := ha
    obtain ⟨st, hobj, htask⟩ := Option.bind_eq_some_iff.mp hstep
    obtain ⟨snd, hsend, hresume⟩ := Option.bind_eq_some_iff.mp htask
    obtain ⟨-, hid⟩ := object_some hobj
    have heffect : Effect anyKind s s' := resumeSend_effect trivial (hid ▸ hobj) hsend hresume
    exact (effect_flow heffect).noData.imp_right fun h => h.2
  · have heffects : Effects (fun k => kindOf a = some k) s s' :=
      step_effects (fun _ hk => hk) hstarted hstep
    refine .inl (effects_noData heffects fun hkind => ?_)
    cases a with
    | resume sid => exact ha ⟨sid, rfl⟩
    | _ => cases hkind

theorem Queues.empty (h : Queues s s' f) (hno : NoData s s') : f.payload = [] := by
  obtain ⟨htype, new, hnew, hf⟩ := h
  obtain ⟨new', hnew', hzero⟩ := hno
  rw [append_cancel_right (hnew.symm.trans hnew')] at hf
  have hlen : f.payload.length = 0 := by
    rcases hf with hsent | henqueued
    · exact (if_pos htype).symm.trans (hzero _ hsent)
    · exact (if_pos htype).symm.trans (hzero _ henqueued)
  exact length_eq_zero_iff.mp hlen

theorem Queues.chunk (hdead : s.dead = false)
    (h : Queues s (sendChunk s st rest endStream todo) f) :
    f = dataFrame st.id (rest.take (chunkSize s st rest.length))
      (chunkSize s st rest.length == rest.length && endStream) := by
  obtain ⟨-, new, hnew, hf⟩ := h
  rw [sendChunk_log hdead] at hnew
  have hone : [Event.sent _] = new := append_cancel_right hnew
  rw [← hone] at hf
  rcases hf with hsent | henqueued
  · exact Event.sent.inj (mem_singleton.mp hsent)
  · exact nomatch mem_singleton.mp henqueued

/-- A DATA frame with content keeps to the window of its stream as it is when the frame
    goes out. -/
theorem chunk_within_window (hbalanced : Balanced s) (hsound : Sound (tableOf s))
    (hbacked : Backed s.log) (hobj : s.object st.id = some st) (hdead : s.dead = false)
    (hopen : rest ≠ [] → 0 < st.sendWindow ∧ 0 < s.connSendWindow)
    (hne : rest.take (chunkSize s st rest.length) ≠ []) (hheld : (s.find st.id).isSome = true) :
    (total (dataOn st.id) (sendChunk s st rest endStream todo).log : Int) ≤
      (sendChunk s st rest endStream todo).peerInitialWindow +
        total (granted st.id) (sendChunk s st rest endStream todo).log := by
  obtain ⟨hmem, -⟩ := object_some hobj
  obtain ⟨x, hfind⟩ := Option.isSome_iff_exists.mp hheld
  obtain ⟨hx, hid, hxheld⟩ := find_some hfind
  rw [hsound.unique_stream hx hmem hid] at hxheld
  have hstream := hbalanced.stream st hmem hxheld
  have hgranted := hbacked st.id
  obtain ⟨-, hwindow, -, -⟩ := sendChunk_fields s st rest endStream todo
  have hpos : chunkSize s st rest.length ≠ 0 := by
    intro hzero
    rw [hzero, take_zero] at hne
    exact hne rfl
  have hfits := (chunkSize_le_windows hopen).1.resolve_left hpos
  have hsame : total (granted st.id) (sendChunk s st rest endStream todo).log =
      total (granted st.id) s.log := by
    rw [sendChunk_log hdead]
    rfl
  rw [hwindow, hsame, sendChunk_dataOn hdead, if_pos rfl]
  omega

/-- Flow control: in every reachable session the DATA payload queued is within what the
    peer has granted to the connection and the window left is not negative; every DATA
    frame is at most the peer's frame size, and one with content keeps its stream within
    the peer's current initial window and the stream's increments, as long as the stream
    is in `streams_`; and once the sends of a stream have ended without error its DATA
    frames are the data handed over, cut into chunks. -/
theorem send_flow_control (cap : Nat) (s : Session) (h : (sessions cap).Reachable s) :
    (total dataBytes s.log ≤ 65535 + total (granted 0) s.log ∧ 0 ≤ s.connSendWindow) ∧
      (∀ a s' f, step cap s a = some s' → Queues s s' f →
        f.payload.length ≤ s'.peerMaxFrameSize ∧
        (f.payload ≠ [] → (s.find f.streamId).isSome = true →
          (total (dataOn f.streamId) s'.log : Int) ≤
            s'.peerInitialWindow + total (granted f.streamId) s'.log)) ∧
      (∀ sid, Unbroken sid s.log → (∀ x ∈ s.streams, x.id = sid → x.sending = none) →
        Cuts (handed sid s.log) (sentData sid s.log)) := by
  have heffects := reachable_effects h
  have hsound := effects_sound heffects
  have hbalanced := effects_balanced heffects
  have hbacked := effects_backed heffects
  have htracked := effects_tracked heffects
  refine ⟨⟨?_, hbalanced.nonneg⟩, ?_, ?_⟩
  · have hconn := hbalanced.conn
    have hnonneg := hbalanced.nonneg
    have hgranted := hbacked 0
    omega
  · intro a s' f hstep hqueues
    rcases step_noData hsound.started_session hstep with hno | hchunk
    · rw [hqueues.empty hno]
      exact ⟨Nat.zero_le _, fun hne => absurd rfl hne⟩
    · obtain ⟨st, rest, endStream, todo, hobj, hdead, hopen, rfl⟩ := hchunk
      rw [hqueues.chunk hdead]
      refine ⟨?_, fun hne hheld => ?_⟩
      · rw [(sendChunk_fields s st rest endStream todo).2.2.2]
        exact (length_take_le _ _).trans (chunkSize_le s st rest.length).2
      · exact chunk_within_window hbalanced hsound hbacked hobj hdead hopen hne hheld
  · intro sid hunbroken hidle
    by_cases hstream : ∃ x ∈ s.streams, x.id = sid
    · obtain ⟨x, hx, rfl⟩ := hstream
      have htracks := htracked.stream x hx hunbroken
      rw [hidle x hx rfl] at htracks
      exact htracks
    · have habsent : ∀ x ∈ s.streams, x.id ≠ sid := fun x hx hid => hstream ⟨x, hx, hid⟩
      obtain ⟨hhanded, hsent⟩ := htracked.absent sid habsent
      rw [hhanded, hsent]
      exact .nil

/-- A response of ten bytes on stream 1. -/
def responseActions : List Action :=
  [.frame (headersFrame 1 5 [0x82]),
    .startSend 1 (encodeFrame (dataFrame 1 [1, 2, 3, 4, 5, 6, 7, 8, 9, 10] false)),
    .resume 1, .resume 1, .resume 1]

def responseSession : Session := (run 0 initial responseActions).getD initial

theorem send_flow_control_response :
    sentData 1 responseSession.log = [([1, 2, 3, 4, 5, 6, 7, 8, 9, 10], false)] ∧
      Cuts (handed 1 responseSession.log) (sentData 1 responseSession.log) ∧
      total dataBytes responseSession.log ≤ 65535 + total (granted 0) responseSession.log := by
  have hrun : run 0 initial responseActions = some responseSession := by decide
  have hflow := send_flow_control 0 responseSession (run_reachable initial_reachable hrun)
  have hunbroken : Unbroken 1 responseSession.log := by
    rw [Unbroken]
    decide
  exact ⟨by decide, hflow.2.2 1 hunbroken (by decide), hflow.1.1⟩

/-- The same response, an initial window of 0 from the peer, and an empty DATA frame that
    ends the stream. -/
def loweredActions : List Action :=
  responseActions ++
    [.frame { type := .settings, streamId := 0, payload := settingsPayload [(4, 0)] },
      .startSend 1 (encodeFrame (dataFrame 1 [] true)), .resume 1, .resume 1]

/-- SETTINGS can lower the window of a stream below what has been sent on it, and an empty
    DATA frame is then sent all the same. -/
theorem lowered_window_exceeded :
    ∃ s past, run 0 initial loweredActions = some s ∧
      s.log = .sent (dataFrame 1 [] true) :: past ∧
      s.peerInitialWindow + total (granted 1) s.log < (total (dataOn 1) s.log : Int) :=
  ⟨(run 0 initial loweredActions).getD initial,
    ((run 0 initial loweredActions).getD initial).log.tail,
    by decide, by decide, by decide⟩

end Http2FlowControl
