import WaveX.Http2Tasks

/-! # Waking the reader of a tunnel

    A `tunnel_read` without data waits on the event of its stream.  Whoever gives it a
    reason to return has to cancel the event: data, the end of the stream, a reset, a
    cancellation, the end of the connection.  `Wakes` says so of a part of the session: a
    reader that still waits has got no reason.  Two places do not keep to it, trailers
    and the end of the task; without them no wake-up is lost. -/

namespace Http2TunnelWake

open QuicVarInt Hpack Http2Frames Http2Session Http2Session.Session Http2Effects Http2Tasks List

/-! ## Reasons to return -/

/-- How a stream may change: a reader that waits has waited before and has got no reason to
    return, unless the stream is `free`.  A reset or an end is not taken back, and a stream
    leaves `streams_` only with a reason. -/
structure Wake (free : Prop) (dead dead' : Bool) (x y : StreamState) : Prop where
  id : y.id = x.id
  parked : y.parked = true → free ∨ (x.parked = true ∧ y.tunnelIn = x.tunnelIn ∧
    y.endStreamReceived = x.endStreamReceived ∧ y.reset = x.reset ∧
    y.readCancelled = x.readCancelled ∧ y.held = x.held ∧ dead' = dead)
  reset : x.reset = true → y.reset = true
  ended : x.endStreamReceived = true → y.endStreamReceived = true
  release : y.held = false →
    x.held = false ∨ y.reset = true ∨ y.endStreamReceived = true ∨ dead' = true

/-- Every stream outside `free` is woken when it has to be. -/
structure Wakes (free : Nat → Prop) (s s' : Session) : Prop where
  dead : s.dead = true → s'.dead = true
  streams : ∃ g, s'.streams = s.streams.map g ∧
    ∀ x ∈ s.streams, Wake (free x.id) s.dead s'.dead x (g x)

/-- A reader that waits has no reason to return, and a stream that is gone has one. -/
structure Alert (s : Session) : Prop where
  parked : ∀ x ∈ s.streams, x.parked = true → x.tunnelIn = [] ∧
    x.endStreamReceived = false ∧ x.reset = false ∧ x.readCancelled = false ∧
    x.held = true ∧ s.dead = false
  released : ∀ x ∈ s.streams, x.held = false →
    x.reset = true ∨ x.endStreamReceived = true ∨ s.dead = true

/-- Every stream has to be woken. -/
abbrev noStream : Nat → Prop := fun _ => False

variable {free : Nat → Prop} {cap : Nat} {s s' s'' : Session} {x y z st : StreamState} {sid : Nat}
  {g : StreamState → StreamState} {f : Frame}

theorem Wake.refl {p : Prop} {b : Bool} : Wake p b b x x :=
  ⟨rfl, fun h => .inr ⟨h, rfl, rfl, rfl, rfl, rfl, rfl⟩, fun h => h, fun h => h, .inl⟩

theorem Wake.trans {p : Prop} {b b' b'' : Bool} (h : Wake p b b' x y) (h' : Wake p b' b'' y z)
    (hdead : b' = true → b'' = true) : Wake p b b'' x z where
  id := h'.id.trans h.id
  parked hz := by
    rcases h'.parked hz with hfree | ⟨hy, hin', hend', hreset', hcancel', hheld', hdead'⟩
    · exact .inl hfree
    · rcases h.parked hy with hfree | ⟨hx, hin, hend, hreset, hcancel, hheld, hdead⟩
      · exact .inl hfree
      · exact .inr ⟨hx, hin'.trans hin, hend'.trans hend, hreset'.trans hreset,
          hcancel'.trans hcancel, hheld'.trans hheld, hdead'.trans hdead⟩
  reset hx := h'.reset (h.reset hx)
  ended hx := h'.ended (h.ended hx)
  release hz := by
    rcases h'.release hz with hy | hreason
    · rcases h.release hy with hx | hreset | hended | hgone
      · exact .inl hx
      · exact .inr (.inl (h'.reset hreset))
      · exact .inr (.inr (.inl (h'.ended hended)))
      · exact .inr (.inr (.inr (hdead hgone)))
    · exact .inr hreason

theorem Wakes.refl : Wakes free s s :=
  ⟨fun h => h, id, (map_id _).symm, fun _ _ => .refl⟩

theorem Wakes.trans (h : Wakes free s s') (h' : Wakes free s' s'') : Wakes free s s'' := by
  obtain ⟨hdead, g, hg, hwake⟩ := h
  obtain ⟨hdead', g', hg', hwake'⟩ := h'
  refine ⟨fun hs => hdead' (hdead hs), g' ∘ g, by rw [hg', hg, map_map], fun x hx => ?_⟩
  have hmem : g x ∈ s'.streams := hg ▸ mem_map_of_mem hx
  have hlater := hwake' (g x) hmem
  rw [(hwake x hx).id] at hlater
  exact (hwake x hx).trans hlater hdead'

theorem Alert.wakes (h : Alert s) (hw : Wakes noStream s s') : Alert s' := by
  obtain ⟨hdead, g, hg, hwake⟩ := hw
  constructor
  · intro y hy hparked
    rw [hg] at hy
    obtain ⟨x, hx, rfl⟩ := mem_map.mp hy
    obtain ⟨hx', hin, hend, hreset, hcancel, hheld, hdead'⟩ :=
      ((hwake x hx).parked hparked).resolve_left fun hfree => hfree
    rw [hin, hend, hreset, hcancel, hheld, hdead']
    exact h.parked x hx hx'
  · intro y hy hheld
    rw [hg] at hy
    obtain ⟨x, hx, rfl⟩ := mem_map.mp hy
    rcases (hwake x hx).release hheld with hbefore | hreason
    · rcases h.released x hx hbefore with hreset | hended | hgone
      · exact .inl ((hwake x hx).reset hreset)
      · exact .inr (.inl ((hwake x hx).ended hended))
      · exact .inr (.inr (hdead hgone))
    · exact hreason

/-- A change of members that are no reason to return. -/
theorem Wakes.same (hdead : s'.dead = s.dead) (hstreams : s'.streams = s.streams) :
    Wakes free s s' := by
  refine ⟨fun h => hdead.trans h, id, hstreams.trans (map_id _).symm, fun _ _ => ?_⟩
  rw [hdead]
  exact .refl

theorem Wakes.modify (hg : ∀ x ∈ s.streams, x.id = sid → Wake (free x.id) s.dead s.dead x (g x)) :
    Wakes free s (s.modify sid g) := by
  refine ⟨fun h => h, _, rfl, fun x hx => ?_⟩
  split
  · rename_i hid
    exact hg x hx hid
  · exact .refl

/-- A change of a stream together with members of the session that are no reason to
    return. -/
theorem Wakes.modified (hdead : s'.dead = s.dead)
    (hstreams : s'.streams = (s.modify sid g).streams) (hw : Wakes free s (s.modify sid g)) :
    Wakes free s s' := hw.trans (.same hdead hstreams)

/-- A change of members of a stream that are no reason to return. -/
theorem Wakes.modify_same (sid : Nat) (hg : ∀ x, (g x).id = x.id ∧ (g x).parked = x.parked ∧
    (g x).tunnelIn = x.tunnelIn ∧ (g x).endStreamReceived = x.endStreamReceived ∧
    (g x).reset = x.reset ∧ (g x).readCancelled = x.readCancelled ∧ (g x).held = x.held) :
    Wakes free s (s.modify sid g) := by
  refine .modify fun x _ _ => ?_
  obtain ⟨hid, hparked, hin, hend, hreset, hcancel, hheld⟩ := hg x
  exact ⟨hid, fun h => .inr ⟨hparked ▸ h, hin, hend, hreset, hcancel, hheld, rfl⟩,
    fun h => hreset ▸ h, fun h => hend ▸ h, fun h => .inl (hheld ▸ h)⟩

/-- Nobody waits on the stream. -/
def Unparked (s : Session) (sid : Nat) : Prop :=
  ∀ x ∈ s.streams, x.id = sid → x.parked = false

theorem modify_unparked (hg : ∀ x, (g x).id = x.id ∧ (g x).parked = false) :
    Unparked (s.modify sid g) sid := by
  intro y hy hid
  obtain ⟨x, -, rfl⟩ := mem_map.mp hy
  by_cases hx : x.id = sid
  · rw [if_pos hx]
    exact (hg x).2
  · rw [if_neg hx] at hid
    exact absurd hid hx

/-- Changes that were free to ignore the reader of a stream, with nobody left waiting. -/
theorem Wakes.settled (hw : Wakes (fun k => k = sid) s s') (h : Unparked s' sid) :
    Wakes noStream s s' := by
  obtain ⟨hdead, g, hg, hwake⟩ := hw
  refine ⟨hdead, g, hg, fun x hx => ?_⟩
  obtain ⟨hid, hparked, hreset, hended, hrelease⟩ := hwake x hx
  refine ⟨hid, fun hy => .inr ((hparked hy).resolve_left fun hfree => ?_), hreset, hended, hrelease⟩
  have hidle := h (g x) (hg ▸ mem_map_of_mem hx) (hid.trans hfree)
  exact absurd (hy.symm.trans hidle) Bool.false_ne_true.symm

theorem Wakes.record (e : Event) : Wakes free s (s.record e) := .same rfl rfl

theorem Wakes.enqueue (f : Frame) : Wakes free s (s.enqueue f) := by
  rw [Session.enqueue]
  split
  · exact .refl
  · exact .same rfl rfl

theorem Wakes.send (f : Frame) : Wakes free s (s.send f) := by
  rw [Session.send]
  split
  · exact .refl
  · exact .same rfl rfl

theorem Wakes.sendAll (fs : List Frame) : Wakes free s (s.sendAll fs) := by
  induction fs generalizing s with
  | nil => exact .refl
  | cons f rest ih => exact (Wakes.send f).trans ih

/-! ## Errors and resets -/

theorem Wakes.sendGoaway (err : ErrorCode) : Wakes free s (sendGoaway s err) := by
  rw [Http2Session.sendGoaway]
  split
  · exact .refl
  · have hflag : Wakes free s { s with goawaySent := true } := .same rfl rfl
    exact hflag.trans (.enqueue _)

theorem Wakes.markDeadAfterFlush : Wakes free s (markDeadAfterFlush s) := by
  refine ⟨fun h => h, _, rfl, fun x _ => ?_⟩
  split
  · exact ⟨rfl, fun h => absurd h Bool.false_ne_true, fun _ => rfl, fun h => h, .inl⟩
  · exact .refl

theorem Wakes.connectionError (err : ErrorCode) : Wakes free s (connectionError s err) := by
  rw [Http2Session.connectionError]
  exact ((Wakes.record _).trans ((Wakes.sendGoaway err).trans .markDeadAfterFlush)).trans
    (.same rfl rfl)

/-- `mark_dead` wakes what is in `streams_`; nobody waits elsewhere. -/
theorem Wakes.markDead (h : Alert s) : Wakes free s (markDead s) := by
  rw [Http2Session.markDead]
  split
  · exact .refl
  · refine ⟨fun _ => rfl, _, rfl, fun x hx => ?_⟩
    split
    · exact ⟨rfl, fun h => absurd h Bool.false_ne_true, fun h => h, fun h => h, .inl⟩
    · rename_i hgone
      refine ⟨rfl, fun hparked => ?_, fun h => h, fun h => h, .inl⟩
      exact absurd (h.parked x hx hparked).2.2.2.2.1 hgone

theorem Wakes.resetStream (err : ErrorCode) : Wakes free s (resetStream s st err) := by
  rw [Http2Session.resetStream]
  have hrst : Wakes free s (if st.reset then s else s.enqueue (rstStreamFrame st.id err)) := by
    split
    · exact .refl
    · exact .enqueue _
  have hmark : ∀ s1 : Session, Wakes free s1
      (s1.modify st.id fun x => { x with reset := true, parked := false }) :=
    fun _ => .modify fun _ _ _ => ⟨rfl, fun h => absurd h Bool.false_ne_true, fun _ => rfl, fun h => h, .inl⟩
  have hgone : ∀ s1 : Session, Wakes free s1
      (s1.modify st.id fun x => { x with reset := true, parked := false, held := false }) :=
    fun _ => .modify fun _ _ _ =>
      ⟨rfl, fun h => absurd h Bool.false_ne_true, fun _ => rfl, fun h => h, fun _ => .inr (.inl rfl)⟩
  split
  · exact hrst.trans (hmark _)
  · rw [erase, modify_modify]
    · exact hrst.trans (hgone _)
    · exact fun _ => rfl

theorem Wakes.spawn : Wakes free s (spawn s sid) := by
  rw [Http2Session.spawn]
  split
  · exact .same rfl rfl
  · exact .same rfl rfl

theorem Wakes.dispatch : Wakes free s (dispatch s sid) := by
  refine Wakes.trans ?_ .spawn
  exact .modify_same sid fun _ => ⟨rfl, rfl, rfl, rfl, rfl, rfl, rfl⟩

theorem Wakes.answerError : Wakes free s (answerError s st) := by
  rw [Http2Session.answerError]
  split
  · exact .refl
  · refine Wakes.trans ?_ .spawn
    exact .modify_same st.id fun _ => ⟨rfl, rfl, rfl, rfl, rfl, rfl, rfl⟩

/-! ## The reader -/

theorem Wakes.actOnBlock {d : Decoded} : Wakes free s (actOnBlock s st d) := by
  rw [Http2Session.actOnBlock]
  split
  · exact .connectionError _
  · split
    · split
      · exact .dispatch
      · exact .refl
    · have hdone : Wakes free s (s.modify st.id fun x => { x with headersDone := true }) :=
        .modify_same st.id fun _ => ⟨rfl, rfl, rfl, rfl, rfl, rfl, rfl⟩
      dsimp only
      split
      · exact hdone.trans (Wakes.answerError.trans (.sendGoaway _))
      · split
        · exact hdone.trans (.resetStream _)
        · have hheaders : Wakes free (s.modify st.id fun x => { x with headersDone := true })
              ((s.modify st.id fun x => { x with headersDone := true }).modify st.id
                fun x => { x with headers := d.headers }) :=
            .modify_same st.id fun _ => ⟨rfl, rfl, rfl, rfl, rfl, rfl, rfl⟩
          split
          · exact hdone.trans (hheaders.trans .dispatch)
          · exact hdone.trans hheaders

theorem Wakes.finishHeaderBlock : Wakes free s (finishHeaderBlock s st) := by
  refine Wakes.trans ?_ .actOnBlock
  refine .modified rfl rfl ?_
  exact .modify_same st.id fun _ => ⟨rfl, rfl, rfl, rfl, rfl, rfl, rfl⟩

/-- The end of a stream that comes with its headers wakes nobody. -/
theorem Wakes.takeFragment {fragment : Bytes} (h : Unparked s st.id) :
    Wakes free s (takeFragment s st f fragment) := by
  have hadd : Wakes free s (s.modify st.id fun x => { x with
      headerBlock := st.headerBlock ++ fragment
      endStreamReceived := x.endStreamReceived || f.hasFlag flagEndStream }) := by
    refine .modify fun x hx hid => ⟨rfl, fun hparked => ?_, fun h => h, fun hend => ?_, .inl⟩
    · exact absurd (hparked.symm.trans (h x hx hid)) Bool.false_ne_true.symm
    · exact Bool.or_eq_true_iff.mpr (.inl hend)
  rw [Http2Session.takeFragment]
  dsimp only
  split
  · exact hadd.trans .finishHeaderBlock
  · exact hadd.trans (.same rfl rfl)

/-- A new stream has no reader. -/
theorem Alert.openStream (h : Alert s) (w : Int) :
    Alert (openStream s { id := sid, sendWindow := w }) := by
  constructor
  · intro x hx hparked
    rcases mem_append.mp hx with hold | hnew
    · exact h.parked x hold hparked
    · rw [mem_singleton.mp hnew] at hparked
      exact absurd hparked Bool.false_ne_true
  · intro x hx hheld
    rcases mem_append.mp hx with hold | hnew
    · exact h.released x hold hheld
    · rw [mem_singleton.mp hnew] at hheld
      exact absurd hheld Bool.false_ne_true.symm

/-- Trailers end the stream, so nobody may wait on it. -/
theorem onHeaders_alert (h : Alert s) (hsound : Sound (tableOf s))
    (hidle : f.hasFlag flagEndStream = true → Unparked s f.streamId) :
    Alert (onHeaders s f) := by
  rw [onHeaders]
  dsimp only
  split
  · exact h.wakes (.connectionError _)
  · split
    · exact h.wakes (.connectionError _)
    · split
      · rename_i st hfind
        obtain ⟨-, hid, -⟩ := find_some hfind
        split
        · exact h.wakes (.connectionError _)
        · rename_i htrailers
          rw [Bool.or_eq_true, not_or, Bool.not_eq_true', Bool.not_eq_false] at htrailers
          refine h.wakes (.takeFragment ?_)
          rw [hid]
          exact hidle htrailers.2
      · split
        · exact h.wakes (.connectionError _)
        · rename_i hnew
          refine (h.openStream _).wakes (.takeFragment fun x hx hid => ?_)
          rcases mem_append.mp hx with hold | hnewest
          · have hknown := hsound.known_stream hold
            rw [show x.id = f.streamId from hid] at hknown
            exact absurd hknown hnew
          · rw [mem_singleton.mp hnewest]

theorem Wakes.onContinuation : Wakes free s (onContinuation s f) := by
  rw [Http2Session.onContinuation]
  split
  · exact .connectionError _
  · split
    · exact .connectionError _
    · rename_i st _
      have hadd : Wakes free s (s.modify st.id fun x =>
          { x with headerBlock := st.headerBlock ++ f.payload }) :=
        .modify_same st.id fun _ => ⟨rfl, rfl, rfl, rfl, rfl, rfl, rfl⟩
      dsimp only
      split
      · exact hadd.trans (.connectionError _)
      · split
        · have hclosed : Wakes free s { s.modify st.id fun x =>
              { x with headerBlock := st.headerBlock ++ f.payload } with continuationSid := 0 } :=
            hadd.trans (.same rfl rfl)
          exact hclosed.trans .finishHeaderBlock
        · exact hadd

theorem resetStream_unparked (err : ErrorCode) : Unparked (resetStream s st err) st.id := by
  rw [Http2Session.resetStream]
  split
  · exact modify_unparked fun _ => ⟨rfl, rfl⟩
  · rw [erase, modify_modify]
    · exact modify_unparked fun _ => ⟨rfl, rfl⟩
    · exact fun _ => rfl

/-! ## Data -/

theorem Wakes.creditConnection (n : Nat) : Wakes free s (creditConnection s n) := by
  have hcount : ∀ k, Wakes free s { s with connRecvUnacked := k } := fun _ => .same rfl rfl
  rw [Http2Session.creditConnection]
  split
  · exact (hcount 0).trans (.enqueue _)
  · exact hcount _

theorem Wakes.creditStream (n : Nat) : Wakes free s (creditStream s st n) := by
  have hcount : ∀ k, Wakes free s (s.modify st.id fun x => { x with recvUnacked := k }) :=
    fun _ => .modify_same st.id fun _ => ⟨rfl, rfl, rfl, rfl, rfl, rfl, rfl⟩
  rw [Http2Session.creditStream]
  split
  · exact (hcount 0).trans (.enqueue _)
  · exact hcount _

/-- The end of `on_data` cancels the event. -/
theorem Wakes.endData :
    Wakes (fun k => k = st.id) s (endData s st f) ∧ Unparked (endData s st f) st.id := by
  rw [Http2Session.endData]
  refine ⟨Wakes.trans ?_ (.modify fun _ _ hid => ⟨rfl, fun h => absurd h Bool.false_ne_true, fun h => h, fun h => h, .inl⟩),
    modify_unparked fun _ => ⟨rfl, rfl⟩⟩
  split
  · have hend : Wakes (fun k => k = st.id) s
        (s.modify st.id fun x => { x with endStreamReceived := true }) :=
      .modify fun _ _ hid => ⟨rfl, fun _ => .inl hid, fun h => h, fun _ => rfl, .inl⟩
    dsimp only
    split
    · exact hend
    · exact hend.trans .dispatch
  · exact .refl

theorem Wakes.takeData {data : Bytes} : Wakes noStream s (takeData cap s st f data) := by
  rw [Http2Session.takeData]
  split
  · have hin : Wakes (fun k => k = st.id) s
        (s.modify st.id fun x => { x with tunnelIn := st.tunnelIn ++ data }) :=
      .modify fun _ _ hid => ⟨rfl, fun _ => .inl hid, fun h => h, fun h => h, .inl⟩
    dsimp only
    split
    · exact (hin.trans (.resetStream _)).settled (resetStream_unparked _)
    · have hpad : ∀ s1 : Session, Wakes (fun k => k = st.id) s1 (s1.modify st.id fun x => { x with
          recvUnacked := x.recvUnacked + (f.payload.length - data.length) }) :=
        fun _ => .modify_same st.id fun _ => ⟨rfl, rfl, rfl, rfl, rfl, rfl, rfl⟩
      exact (hin.trans ((hpad _).trans Wakes.endData.1)).settled Wakes.endData.2
  · have hbody : ∀ free, Wakes free s (s.modify st.id fun x => { x with body := st.body ++ data }) :=
      fun _ => .modify_same st.id fun _ => ⟨rfl, rfl, rfl, rfl, rfl, rfl, rfl⟩
    have hreject : ∀ s1 : Session, Wakes noStream s1 (s1.modify st.id fun x =>
        { x with rejected := true }) :=
      fun _ => .modify_same st.id fun _ => ⟨rfl, rfl, rfl, rfl, rfl, rfl, rfl⟩
    dsimp only
    split
    · exact (hbody noStream).trans ((Wakes.creditStream _).trans ((hreject _).trans .answerError))
    · exact ((hbody _).trans ((Wakes.creditStream _).trans Wakes.endData.1)).settled
        Wakes.endData.2

theorem Wakes.onData : Wakes noStream s (onData cap s f) := by
  rw [Http2Session.onData]
  split
  · exact .connectionError _
  · split
    · exact .connectionError _
    · have hcredit : Wakes noStream s (Http2Session.creditConnection s f.payload.length) :=
        .creditConnection _
      dsimp only
      split
      · split
        · exact hcredit.trans (.connectionError _)
        · exact hcredit
      · split
        · exact hcredit.trans (.connectionError _)
        · split
          · exact hcredit
          · exact hcredit.trans .takeData

/-! ## Settings and windows -/

theorem Wakes.setInitialWindow (value : Nat) : Wakes free s (setInitialWindow s value) := by
  refine ⟨fun h => h, _, rfl, fun x _ => ?_⟩
  split
  · exact ⟨rfl, fun h => .inr ⟨h, rfl, rfl, rfl, rfl, rfl, rfl⟩, fun h => h, fun h => h, .inl⟩
  · exact .refl

theorem Wakes.onSettings : Wakes free s (onSettings s f) := by
  refine onSettings_ind (fun _ => .refl) (fun _ err => .connectionError err) ?_ ?_ ?_ s f
  · intro s s' value h
    exact (Wakes.setInitialWindow value).trans h
  · intro s s' value _ h
    have hsize : Wakes free s { s with peerMaxFrameSize := value } := .same rfl rfl
    exact hsize.trans h
  · intro s s' h
    exact h.trans (.enqueue _)

theorem Wakes.onWindowUpdate : Wakes free s (onWindowUpdate s f) := by
  rcases onWindowUpdate_cases s f with
    ⟨err, heq, -⟩ | heq | ⟨-, -, hcases⟩ | ⟨st, -, -, hcases⟩
  · rw [heq]
    exact .connectionError err
  · rw [heq]
    exact .refl
  · have hconn : Wakes free s (creditedConnection s (windowIncrement f.payload)) := .same rfl rfl
    rcases hcases with heq | ⟨-, heq⟩
    · rw [heq]
      exact hconn.trans (.connectionError _)
    · rw [heq]
      exact hconn
  · have hstream : Wakes free s (creditedStream s st.id (windowIncrement f.payload)) := by
      refine .modified rfl rfl ?_
      exact .modify_same st.id fun _ => ⟨rfl, rfl, rfl, rfl, rfl, rfl, rfl⟩
    rcases hcases with heq | heq | ⟨-, heq⟩
    · rw [heq]
      exact .resetStream _
    · rw [heq]
      exact hstream.trans (.resetStream _)
    · rw [heq]
      exact hstream

theorem Wakes.onRstStream : Wakes free s (onRstStream s f) := by
  rcases onRstStream_cases s f with ⟨err, heq, -⟩ | heq | ⟨st, -, hcases⟩
  · rw [heq]
    exact .connectionError err
  · rw [heq]
    exact .refl
  · rcases hcases with ⟨-, heq⟩ | ⟨-, heq⟩
    · rw [heq]
      exact .modify fun _ _ _ =>
        ⟨rfl, fun h => absurd h Bool.false_ne_true, fun _ => rfl, fun h => h, .inl⟩
    · rw [heq, erase, modify_modify]
      · exact .modify fun _ _ _ => ⟨rfl, fun h => absurd h Bool.false_ne_true, fun _ => rfl,
          fun h => h, fun _ => .inr (.inl rfl)⟩
      · exact fun _ => rfl

theorem Wakes.onPing : Wakes free s (onPing s f) := by
  rcases onPing_cases s f with ⟨err, heq⟩ | heq | heq
  · rw [heq]
    exact .connectionError err
  · rw [heq]
    exact .refl
  · rw [heq]
    exact .enqueue _

/-- A frame that does not end a stream with its headers wakes the readers it has to. -/
theorem processFrame_alert (h : Alert s) (hsound : Sound (tableOf s))
    (hidle : f.type = .headers → f.hasFlag flagEndStream = true → Unparked s f.streamId) :
    Alert (processFrame cap s f) := by
  have hnote : Alert (s.record (.received f)) := h.wakes (.record _)
  rw [processFrame]
  split
  · exact hnote.wakes (.connectionError _)
  · rw [handleFrame]
    split
    · exact hnote.wakes (.connectionError _)
    · cases htype : f.type with
      | headers => exact onHeaders_alert hnote hsound (hidle htype)
      | continuation => exact hnote.wakes .onContinuation
      | data => exact hnote.wakes .onData
      | settings => exact hnote.wakes .onSettings
      | windowUpdate => exact hnote.wakes .onWindowUpdate
      | ping => exact hnote.wakes .onPing
      | rstStream => exact hnote.wakes .onRstStream
      | goaway => exact hnote.wakes (.same rfl rfl)
      | pushPromise => exact hnote.wakes (.connectionError _)
      | priority => exact hnote
      | extension b => exact hnote

/-! ## Tasks and tunnels -/

theorem Wakes.endSend (ok : Bool) : Wakes free s (endSend s sid ok) :=
  .modified rfl rfl (.modify_same sid fun _ => ⟨rfl, rfl, rfl, rfl, rfl, rfl, rfl⟩)

theorem Wakes.startSend (bytes : Bytes) : Wakes free s (startSend s sid bytes) :=
  .modified rfl rfl (.modify_same sid fun _ => ⟨rfl, rfl, rfl, rfl, rfl, rfl, rfl⟩)

theorem Wakes.sendFrame (todo : List Frame) : Wakes free s (sendFrame s st f todo) := by
  have hclosed : ∀ (s1 : Session) (b : Bool), Wakes free s1 (s1.modify st.id fun x => { x with
      localClosed := x.localClosed || b, sending := some { todo } }) :=
    fun _ _ => .modify_same st.id fun _ => ⟨rfl, rfl, rfl, rfl, rfl, rfl, rfl⟩
  rw [Http2Session.sendFrame]
  split
  · exact .modify_same st.id fun _ => ⟨rfl, rfl, rfl, rfl, rfl, rfl, rfl⟩
  · exact (Wakes.sendAll _).trans (hclosed _ _)
  · exact (Wakes.send _).trans (hclosed _ _)

theorem Wakes.sendChunk (rest : Bytes) (endStream : Bool) (todo : List Frame) :
    Wakes free s (sendChunk s st rest endStream todo) := by
  have hwindow : ∀ (s1 : Session) n, Wakes free s1 { s1 with connSendWindow := n } :=
    fun _ _ => .same rfl rfl
  have hpiece : ∀ (s1 : Session) (n : Int) (b : Bool) (snd : Option Send), Wakes free s1
      (s1.modify st.id fun x => { x with
        sendWindow := x.sendWindow - n, localClosed := x.localClosed || b, sending := snd }) :=
    fun _ _ _ _ => .modify_same st.id fun _ => ⟨rfl, rfl, rfl, rfl, rfl, rfl, rfl⟩
  exact (Wakes.send _).trans ((hwindow _ _).trans (hpiece _ _ _ _))

theorem Wakes.resumeSend {snd : Send} (h : resumeSend s st snd = some s') : Wakes free s s' := by
  obtain ⟨ok, -, rfl⟩ | ⟨f, todo, -, rfl⟩ | ⟨rest, endStream, todo, -, -, -, rfl⟩ :=
    resumeSend_cases h
  · exact .endSend ok
  · exact .sendFrame todo
  · exact .sendChunk rest endStream todo

theorem Wakes.timeoutSend {snd : Send} (h : timeoutSend s st snd = some s') : Wakes free s s' := by
  obtain rfl := timeoutSend_some h
  exact .endSend false

theorem Wakes.endStream : Wakes free s (endStream s st) := by
  have hclosed : ∀ s1 : Session, Wakes free s1
      (s1.modify st.id fun x => { x with localClosed := true }) :=
    fun _ => .modify_same st.id fun _ => ⟨rfl, rfl, rfl, rfl, rfl, rfl, rfl⟩
  exact (Wakes.enqueue _).trans (hclosed _)

/-- A change of a stream that nobody waits on, which takes no reason back. -/
theorem Wakes.modify_unparked (h : Unparked s sid)
    (hg : ∀ x, (g x).id = x.id ∧ (g x).parked = x.parked ∧ (g x).held = x.held ∧
      (g x).reset = x.reset ∧ (g x).endStreamReceived = x.endStreamReceived) :
    Wakes free s (s.modify sid g) := by
  refine .modify fun x hx hid => ?_
  obtain ⟨hgid, hparked, hheld, hreset, hend⟩ := hg x
  refine ⟨hgid, fun hy => ?_, fun h => hreset ▸ h, fun h => hend ▸ h, fun h => .inl (hheld ▸ h)⟩
  exact absurd ((hparked ▸ hy).symm.trans (h x hx hid)) Bool.false_ne_true.symm

/-- `tunnel_read` returns, or it has no reason to and waits. -/
theorem tunnelRead_alert (h : Alert s) (hsound : Sound (tableOf s))
    (hobj : s.object st.id = some st) (hawake : st.parked = false) (size : Nat) :
    Alert (tunnelRead s st size) := by
  obtain ⟨hmem, -⟩ := object_some hobj
  have hidle : Unparked s st.id := by
    intro x hx hid
    rw [hsound.unique_stream hx hmem hid]
    exact hawake
  rw [tunnelRead]
  split
  · have hread : Wakes noStream s (s.modify st.id fun x => { x with
        tunnelIn := st.tunnelIn.drop (min size st.tunnelIn.length) }) :=
      .modify_unparked hidle fun _ => ⟨rfl, rfl, rfl, rfl, rfl⟩
    have hcount : ∀ (s1 : Session) k, Wakes noStream s1
        (s1.modify st.id fun x => { x with recvUnacked := k }) :=
      fun _ _ => .modify_same st.id fun _ => ⟨rfl, rfl, rfl, rfl, rfl, rfl, rfl⟩
    dsimp only
    split
    · exact h.wakes (hread.trans ((Wakes.enqueue _).trans (hcount _ _)))
    · exact h.wakes (hread.trans (hcount _ _))
  · rename_i hempty
    rw [not_not] at hempty
    split
    · exact h.wakes (.modify_unparked hidle fun _ => ⟨rfl, rfl, rfl, rfl, rfl⟩)
    · rename_i hcancel
      split
      · exact h
      · rename_i hreason
        simp only [Bool.or_eq_true, not_or, Bool.not_eq_true] at hreason hcancel
        obtain ⟨⟨hend, hreset⟩, hdead⟩ := hreason
        -- nothing to read and no reason to return: only now the reader waits
        have hheld : st.held = true := by
          by_contra hgone
          rcases h.released st hmem (Bool.not_eq_true _ ▸ hgone) with hr | he | hd
          · exact absurd (hr.symm.trans hreset) Bool.false_ne_true.symm
          · exact absurd (he.symm.trans hend) Bool.false_ne_true.symm
          · exact absurd (hd.symm.trans hdead) Bool.false_ne_true.symm
        constructor
        · intro y hy hparked
          obtain ⟨x, hx, rfl⟩ := mem_map.mp hy
          by_cases hid : x.id = st.id
          · rw [hsound.unique_stream hx hmem hid, if_pos rfl]
            exact ⟨hempty, hend, hreset, hcancel, hheld, hdead⟩
          · rw [if_neg hid] at hparked ⊢
            exact h.parked x hx hparked
        · intro y hy hgone
          obtain ⟨x, hx, rfl⟩ := mem_map.mp hy
          split at hgone
          · rw [if_pos (by assumption)]
            exact h.released x hx hgone
          · rw [if_neg (by assumption)]
            exact h.released x hx hgone

/-- The end of a task resets the stream without waking anybody. -/
theorem Wakes.finishTask (hsound : Sound (tableOf s)) (hobj : s.object st.id = some st)
    (hawake : st.parked = false) : Wakes noStream s (finishTask s st) := by
  obtain ⟨hmem, -⟩ := object_some hobj
  have hst : ∀ x ∈ s.streams, x.id = st.id → x = st :=
    fun x hx hid => hsound.unique_stream hx hmem hid
  have hcount : ∀ (s1 : Session) (n : Nat) (l : List Nat),
      Wakes noStream s1 { s1 with activeTasks := n, tasks := l } := fun _ _ _ => .same rfl rfl
  rw [Http2Session.finishTask]
  split
  · rename_i hreason
    rw [Bool.or_eq_true] at hreason
    have herase : Wakes noStream s (s.erase st.id) := by
      refine .modify fun x hx hid => ?_
      rw [hst x hx hid]
      refine ⟨rfl, fun hparked => ?_, fun h => h, fun h => h, fun _ => ?_⟩
      · exact absurd (hparked.symm.trans hawake) Bool.false_ne_true.symm
      · exact .inr (hreason.elim (fun hend => .inr (.inl hend)) .inl)
    exact herase.trans (hcount _ _ _)
  · have hsame : (s.enqueue (rstStreamFrame st.id .noError)).streams = s.streams := by
      rw [Session.enqueue]
      split
      · rfl
      · rfl
    have hreset : Wakes noStream (s.enqueue (rstStreamFrame st.id .noError))
        (((s.enqueue (rstStreamFrame st.id .noError)).modify st.id
          fun x => { x with reset := true }).erase st.id) := by
      rw [erase, modify_modify]
      · refine .modify fun x hx hid => ?_
        rw [hst x (hsame ▸ hx) hid]
        refine ⟨rfl, fun hparked => ?_, fun _ => rfl, fun h => h, fun _ => .inr (.inl rfl)⟩
        exact absurd (hparked.symm.trans hawake) Bool.false_ne_true.symm
      · exact fun _ => rfl
    exact (Wakes.enqueue _).trans (hreset.trans (hcount _ _ _))

/-! ## Runs -/

/-- No reader waits when the trailers of its stream are taken up or its task ends. -/
def Attentive (s : Session) : Action → Prop
  | .frame f => f.type = .headers → f.hasFlag flagEndStream = true →
      ∀ st ∈ s.object f.streamId, st.parked = false
  | .finishTask sid => ∀ st ∈ s.object sid, st.parked = false
  | _ => True

instance Attentive.decidable (s : Session) : (a : Action) → Decidable (Attentive s a)
  | .frame f => inferInstanceAs (Decidable (f.type = .headers →
      f.hasFlag flagEndStream = true → ∀ st ∈ s.object f.streamId, st.parked = false))
  | .finishTask sid => inferInstanceAs (Decidable (∀ st ∈ s.object sid, st.parked = false))
  | .notAccepting | .idleTimeout | .drained | .readError | .shutdown | .markDead | .clear
  | .written _ | .startSend _ _ | .tunnelWrite _ _ | .resume _ | .timeout _ | .startTunnel _
  | .endResponse _ | .shutdownSend _ | .tunnelRead _ _ | .tunnelCancel _ | .tunnelClose _ =>
      .isTrue trivial

theorem object_of_mem (hsound : Sound (tableOf s)) (hx : x ∈ s.streams) (hid : x.id = sid) :
    s.object sid = some x := by
  cases hobj : s.object sid with
  | none =>
    have hnone := find?_eq_none.mp hobj x hx
    exact absurd (beq_iff_eq.mpr hid) hnone
  | some st =>
    obtain ⟨hmem, hst⟩ := object_some hobj
    rw [hsound.unique_stream hx hmem (hid.trans hst.symm)]

theorem taskStep_alert {a : Action} (h : Alert s) (hsound : Sound (tableOf s))
    (hattentive : Attentive s a) (hobj : s.object a.sid = some st)
    (hstep : taskStep s st a = some s') : Alert s' := by
  obtain ⟨-, hid⟩ := object_some hobj
  cases a with
  | startSend sid bytes =>
    obtain ⟨-, hstep⟩ := Option.ite_none_right_eq_some.mp hstep
    obtain rfl := Option.some.inj hstep
    exact h.wakes (.startSend bytes)
  | tunnelWrite sid data =>
    obtain ⟨-, hstep⟩ := Option.ite_none_right_eq_some.mp hstep
    obtain rfl := Option.some.inj hstep
    split
    · exact h
    · exact h.wakes (.startSend _)
  | resume sid =>
    obtain ⟨snd, -, hstep⟩ := Option.bind_eq_some_iff.mp hstep
    exact h.wakes (.resumeSend hstep)
  | timeout sid =>
    obtain ⟨snd, -, hstep⟩ := Option.bind_eq_some_iff.mp hstep
    exact h.wakes (.timeoutSend hstep)
  | startTunnel sid =>
    obtain ⟨-, hstep⟩ := Option.ite_none_right_eq_some.mp hstep
    obtain rfl := Option.some.inj hstep
    exact h.wakes (.modify_same sid fun _ => ⟨rfl, rfl, rfl, rfl, rfl, rfl, rfl⟩)
  | endResponse sid =>
    obtain ⟨-, hstep⟩ := Option.ite_none_right_eq_some.mp hstep
    obtain rfl := Option.some.inj hstep
    exact h.wakes .endStream
  | shutdownSend sid =>
    obtain ⟨-, hstep⟩ := Option.ite_none_right_eq_some.mp hstep
    obtain rfl := Option.some.inj hstep
    exact h.wakes .endStream
  | tunnelRead sid size =>
    obtain ⟨⟨-, hawake⟩, hstep⟩ := Option.ite_none_right_eq_some.mp hstep
    obtain rfl := Option.some.inj hstep
    exact tunnelRead_alert h hsound (hid ▸ hobj) (Bool.eq_false_iff.mpr hawake) size
  | tunnelCancel sid =>
    obtain ⟨-, hstep⟩ := Option.ite_none_right_eq_some.mp hstep
    obtain rfl := Option.some.inj hstep
    exact h.wakes (.modify fun _ _ _ => ⟨rfl, nofun, fun h => h, fun h => h, .inl⟩)
  | tunnelClose sid =>
    obtain ⟨-, hstep⟩ := Option.ite_none_right_eq_some.mp hstep
    obtain rfl := Option.some.inj hstep
    have hreset : ∀ s1 : Session, Wakes noStream s1
        (s1.modify sid fun x => { x with reset := true, parked := false }) :=
      fun _ => .modify fun _ _ _ => ⟨rfl, nofun, fun _ => rfl, fun h => h, .inl⟩
    exact h.wakes ((Wakes.enqueue _).trans (hreset _))
  | finishTask sid =>
    obtain ⟨-, hstep⟩ := Option.ite_none_right_eq_some.mp hstep
    obtain rfl := Option.some.inj hstep
    exact h.wakes (.finishTask hsound (hid ▸ hobj) (hattentive st hobj))
  | _ => cases hstep

/-- What every attentive step preserves. -/
theorem step_alert {a : Action} (h : Alert s) (hsound : Sound (tableOf s))
    (hattentive : Attentive s a) (hstep : step cap s a = some s') : Alert s' := by
  have htask : ((s.object a.sid).bind fun st => taskStep s st a) = some s' → Alert s' := by
    intro hstep
    obtain ⟨st, hobj, hstep⟩ := Option.bind_eq_some_iff.mp hstep
    exact taskStep_alert h hsound hattentive hobj hstep
  cases a with
  | frame f =>
    obtain ⟨-, hstep⟩ := Option.ite_none_left_eq_some.mp hstep
    obtain rfl := Option.some.inj hstep
    refine processFrame_alert h hsound fun htype hend x hx hid => ?_
    exact hattentive htype hend x (object_of_mem hsound hx hid)
  | notAccepting =>
    obtain ⟨-, hstep⟩ := Option.ite_none_left_eq_some.mp hstep
    obtain rfl := Option.some.inj hstep
    exact h.wakes (.sendGoaway _)
  | idleTimeout =>
    obtain ⟨-, hstep⟩ := Option.ite_none_left_eq_some.mp hstep
    obtain rfl := Option.some.inj hstep
    exact h.wakes ((Wakes.sendGoaway _).trans (.same rfl rfl))
  | drained =>
    obtain ⟨-, hstep⟩ := Option.ite_none_left_eq_some.mp hstep
    obtain rfl := Option.some.inj hstep
    exact h.wakes (.same rfl rfl)
  | readError =>
    obtain ⟨-, hstep⟩ := Option.ite_none_left_eq_some.mp hstep
    obtain rfl := Option.some.inj hstep
    exact h.wakes ((Wakes.markDead h).trans (.same rfl rfl))
  | shutdown =>
    obtain ⟨-, hstep⟩ := Option.ite_none_right_eq_some.mp hstep
    obtain rfl := Option.some.inj hstep
    exact h.wakes .markDeadAfterFlush
  | markDead =>
    obtain rfl := Option.some.inj hstep
    exact h.wakes (.markDead h)
  | clear =>
    obtain ⟨⟨-, hdead, -⟩, hstep⟩ := Option.ite_none_right_eq_some.mp hstep
    obtain rfl := Option.some.inj hstep
    refine h.wakes ⟨fun h => h, _, rfl, fun x hx => ?_⟩
    refine ⟨rfl, fun hparked => ?_, fun h => h, fun h => h, fun _ => .inr (.inr (.inr hdead))⟩
    exact absurd (hdead.symm.trans (h.parked x hx hparked).2.2.2.2.2) Bool.false_ne_true.symm
  | written n =>
    obtain rfl := Option.some.inj hstep
    exact h.wakes (.same rfl rfl)
  | _ => exact htask hstep

theorem initial_alert : Alert initial := by
  have hnew : Alert {} :=
    ⟨fun _ hx => absurd hx not_mem_nil, fun _ hx => absurd hx not_mem_nil⟩
  have hall : ∀ (fs : List Frame) (s : Session), Wakes noStream s (fs.foldl enqueue s) := by
    intro fs
    induction fs with
    | nil => exact fun s => .refl
    | cons f rest ih => exact fun s => (Wakes.enqueue f).trans (ih _)
  exact hnew.wakes (hall sessionPreamble {})

/-- No wake-up is lost: in every run of attentive steps, a reader that waits has nothing to
    read and no reason to return. -/
theorem parked_without_reason (cap : Nat) (s : Session)
    (h : (guarded Attentive cap).Reachable s) (x : StreamState) (hx : x ∈ s.streams)
    (hparked : x.parked = true) :
    x.tunnelIn = [] ∧ x.endStreamReceived = false ∧ x.reset = false ∧
      x.readCancelled = false ∧ s.dead = false := by
  have halert := guarded_invariant h initial_alert fun _ _ _ hreach halert hattentive hstep =>
    step_alert halert (reachable_sound hreach) hattentive hstep
  obtain ⟨hin, hend, hreset, hcancel, -, hdead⟩ := halert.2.parked x hx hparked
  exact ⟨hin, hend, hreset, hcancel, hdead⟩

/-! ## Two runs -/

/-- A CONNECT request on stream 1 that becomes a tunnel, and a reader of it. -/
def readerActions : List Action :=
  [.frame (headersFrame 1 4 [0x02, 7, 67, 79, 78, 78, 69, 67, 84]), .startTunnel 1,
    .tunnelRead 1 16]

/-- Data for the reader, which then waits again. -/
def servedActions : List Action :=
  readerActions ++ [.frame (dataFrame 1 [7, 8] false), .tunnelRead 1 16, .tunnelRead 1 16]

/-- Trailers while the reader waits. -/
def trailersActions : List Action :=
  readerActions ++ [.frame (headersFrame 1 5 [0, 1, 97, 1, 98])]

def servedSession : Session := (guardedRun Attentive 0 initial servedActions).getD initial

def trailersSession : Session := (run 0 initial trailersActions).getD initial

/-- The reader has taken its data and waits again. -/
theorem parked_without_reason_served :
    ∃ x ∈ servedSession.streams, x.parked = true ∧ x.tunnelIn = [] ∧
      x.endStreamReceived = false ∧ x.reset = false ∧ x.readCancelled = false ∧
      servedSession.dead = false := by
  have hrun : guardedRun Attentive 0 initial servedActions = some servedSession := by
    decide
  obtain ⟨x, hx, hparked⟩ : ∃ x ∈ servedSession.streams, x.parked = true := by decide
  exact ⟨x, hx, hparked, parked_without_reason 0 servedSession
    ⟨initial, rfl, guardedRun_steps hrun⟩ x hx hparked⟩

/-- Trailers tell the reader nothing: it goes on waiting at the end of the stream. -/
theorem trailers_lose_wakeup :
    (sessions 0).Reachable trailersSession ∧ ∃ x ∈ trailersSession.streams,
      x.parked = true ∧ x.endStreamReceived = true := by
  have hrun : run 0 initial trailersActions = some trailersSession := by decide
  exact ⟨run_reachable initial_reachable hrun, by decide⟩

end Http2TunnelWake
