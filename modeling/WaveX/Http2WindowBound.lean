import WaveX.Http2Steady

/-! # The bound on send windows

    A send window is at most 2^31-1.  `on_window_update` compares with the bound after
    every increment: it resets the stream or ends the connection.  `on_settings` compares
    the new initial window with it, but not the windows it shifts: a change by which the
    window of a stream goes beyond the bound is acknowledged like any other.  In runs
    without such a change the bound holds. -/

namespace Http2WindowBound

open QuicVarInt Hpack Http2Frames Http2Session Http2Session.Session Http2Effects Http2Tasks
  History Http2Steady

/-! ## Settings that fit -/

/-- The parameters that `on_settings` answers with a connection error. -/
def Refused (id value : Nat) : Prop :=
  (id = 4 ∧ value > maxWindow) ∨ (id = 5 ∧ (value < 16384 ∨ value > 16777215)) ∨
    (id = 2 ∧ value > 1)

instance : DecidablePred fun p : Nat × Nat => Refused p.1 p.2 :=
  fun p => inferInstanceAs (Decidable ((p.1 = 4 ∧ p.2 > maxWindow) ∨
    (p.1 = 5 ∧ (p.2 < 16384 ∨ p.2 > 16777215)) ∨ (p.1 = 2 ∧ p.2 > 1)))

/-- An initial window by which no stream goes beyond the bound. -/
def RoomFor (s : Session) (value : Nat) : Prop :=
  ∀ x ∈ s.streams, x.held = true → x.reset = false →
    x.sendWindow + ((value : Int) - s.peerInitialWindow) ≤ maxWindow

instance (s : Session) (value : Nat) : Decidable (RoomFor s value) :=
  inferInstanceAs (Decidable (∀ x ∈ s.streams, x.held = true → x.reset = false →
    x.sendWindow + ((value : Int) - s.peerInitialWindow) ≤ maxWindow))

/-- The initial windows of a frame, up to a parameter that ends the connection, leave every
    stream within the bound. -/
def ChangesFit (s : Session) : List (Nat × Nat) → Prop
  | [] => True
  | p :: rest => Refused p.1 p.2 ∨ ((p.1 = 4 → RoomFor s p.2) ∧ ChangesFit s rest)

instance ChangesFit.decidable (s : Session) : (params : List (Nat × Nat)) →
    Decidable (ChangesFit s params)
  | [] => .isTrue trivial
  | p :: rest =>
      have := ChangesFit.decidable s rest
      inferInstanceAs (Decidable (Refused p.1 p.2 ∨ ((p.1 = 4 → RoomFor s p.2) ∧ ChangesFit s rest)))

/-- A SETTINGS frame whose parameters are looked at. -/
structure Applied (s : Session) (f : Frame) : Prop where
  type : f.type = .settings
  size : f.payload.length ≤ maxFrameSize
  idle : s.continuationSid = 0
  connection : f.streamId = 0
  request : f.hasFlag flagAck = false
  whole : f.payload.length % 6 = 0

instance (s : Session) (f : Frame) : Decidable (Applied s f) :=
  decidable_of_iff (f.type = .settings ∧ f.payload.length ≤ maxFrameSize ∧ s.continuationSid = 0 ∧
      f.streamId = 0 ∧ f.hasFlag flagAck = false ∧ f.payload.length % 6 = 0)
    ⟨fun ⟨h1, h2, h3, h4, h5, h6⟩ => ⟨h1, h2, h3, h4, h5, h6⟩,
      fun ⟨h1, h2, h3, h4, h5, h6⟩ => ⟨h1, h2, h3, h4, h5, h6⟩⟩

/-- No SETTINGS frame takes the window of a stream beyond the bound. -/
def Modest (s : Session) : Action → Prop
  | .frame f => Applied s f → ChangesFit s (settingsOf f.payload)
  | _ => True

instance Modest.decidable (s : Session) : (a : Action) → Decidable (Modest s a)
  | .frame f => inferInstanceAs (Decidable (Applied s f → ChangesFit s (settingsOf f.payload)))
  | .notAccepting | .idleTimeout | .drained | .readError | .shutdown | .markDead | .clear
  | .written _ | .startSend _ _ | .tunnelWrite _ _ | .resume _ | .timeout _ | .startTunnel _
  | .endResponse _ | .shutdownSend _ | .tunnelRead _ _ | .tunnelCancel _ | .tunnelClose _
  | .finishTask _ => .isTrue trivial

/-! ## The bound -/

variable {A R : Prop} {cap : Nat} {s s' : Session} {st x : StreamState} {f : Frame}

/-- The windows of the streams in `streams_` that are not reset, as far as `P` goes. -/
def Within (P : Nat → Prop) (s : Session) : Prop :=
  ∀ x ∈ s.streams, P x.id → x.held = true → x.reset = false → x.sendWindow ≤ maxWindow

/-- The windows are within the bound: the connection's until an error, a stream's while it
    is in `streams_` and not reset. -/
structure Bounded (s : Session) : Prop where
  conn : Erred s ∨ s.connSendWindow ≤ maxWindow
  initial : s.peerInitialWindow ≤ maxWindow
  stream : Within (fun _ => True) s

theorem Within.steady {P : Nat → Prop} (h : Within P s) (hs : Steady A R True s s') :
    Within P s' := by
  obtain ⟨g, hg, hstill⟩ := hs.streams
  rw [Within, hg]
  intro y hy hP hheld hopen
  obtain ⟨x, hx, rfl⟩ := List.mem_map.mp hy
  have hbefore : x.reset = false := by
    cases hreset : x.reset with
    | false => rfl
    | true => exact absurd (((hstill x hx).reset hreset).symm.trans hopen) Bool.false_ne_true.symm
  rw [(hstill x hx).id] at hP
  exact Int.le_trans ((hstill x hx).window trivial)
    (h x hx hP ((hstill x hx).held hheld) hbefore)

theorem Bounded.steady (h : Bounded s) (hs : Steady A R True s s') : Bounded s' := by
  refine ⟨?_, hs.initial trivial ▸ h.initial, h.stream.steady hs⟩
  exact h.conn.imp hs.erred fun hconn => Int.le_trans (hs.window trivial) hconn

theorem Bounded.openStream (h : Bounded s) (sid : Nat) :
    Bounded (openStream s { id := sid, sendWindow := s.peerInitialWindow }) := by
  refine ⟨h.conn.imp_left fun ⟨err, herr⟩ => ⟨err, List.mem_cons_of_mem _ herr⟩, h.initial, ?_⟩
  intro x hx hP hheld hreset
  rcases List.mem_append.mp hx with hold | hnew
  · exact h.stream x hold hP hheld hreset
  · rw [List.mem_singleton.mp hnew]
    exact h.initial

theorem Bounded.move (h : Bounded s) (hmove : Move A R True s s') : Bounded s' := by
  rcases hmove with hsteady | ⟨s1, hbefore, -, sid, -, hafter⟩
  · exact h.steady hsteady
  · exact ((h.steady hbefore).openStream sid).steady hafter

/-! ## Window updates -/

/-- A connection error takes the connection's window out of account. -/
theorem Bounded.connectionError (hinitial : s.peerInitialWindow ≤ maxWindow)
    (hstream : Within (fun _ => True) s) (err : ErrorCode) : Bounded (connectionError s err) := by
  have hs : Steady True True True s (Http2Session.connectionError s err) := .connectionError err
  exact ⟨.inl (connectionError_erred s err), hs.initial trivial ▸ hinitial, hstream.steady hs⟩

/-- A reset takes the one stream that may be beyond the bound out of account. -/
theorem Bounded.resetStream (hconn : Erred s ∨ s.connSendWindow ≤ maxWindow)
    (hinitial : s.peerInitialWindow ≤ maxWindow) (hothers : Within (· ≠ st.id) s)
    (err : ErrorCode) : Bounded (resetStream s st err) := by
  have hs : Steady False False True s (Http2Session.resetStream s st err) := .resetStream False.elim
  refine ⟨hconn.imp hs.erred fun h => Int.le_trans (hs.window trivial) h,
    hs.initial trivial ▸ hinitial, fun y hy _ hheld hopen => ?_⟩
  have hother : y.id ≠ st.id := fun hid =>
    absurd ((resetStream_reset err y hy hid).symm.trans hopen) Bool.false_ne_true.symm
  exact hothers.steady hs y hy hother hheld hopen

/-- After an increment either the window is within the bound, or its stream is reset or
    the connection has failed. -/
theorem onWindowUpdate_bounded (h : Bounded s) (hsound : Sound (tableOf s)) :
    Bounded (onWindowUpdate s f) := by
  rcases onWindowUpdate_cases s f with
    ⟨err, heq, -⟩ | heq | ⟨-, -, hcases⟩ | ⟨st, -, hfind, hcases⟩
  · rw [heq]
    exact .connectionError h.initial h.stream err
  · rw [heq]
    exact h
  · rcases hcases with heq | ⟨hfits, heq⟩
    · rw [heq]
      refine Bounded.connectionError ?_ ?_ _
      · exact h.initial
      · exact h.stream
    · rw [heq]
      exact ⟨.inr hfits, h.initial, h.stream⟩
  · obtain ⟨hmem, -, -⟩ := find_some hfind
    generalize hs1 : creditedStream s st.id (windowIncrement f.payload) = s1 at hcases
    have hothers : Within (· ≠ st.id) s1 := by
      rw [← hs1]
      intro y hy hother hheld hopen
      obtain ⟨x, hx, rfl⟩ := List.mem_map.mp hy
      by_cases hid : x.id = st.id
      · rw [if_pos hid] at hother
        exact absurd hid hother
      · rw [if_neg hid] at hheld hopen ⊢
        exact h.stream x hx trivial hheld hopen
    have hconn : Erred s1 ∨ s1.connSendWindow ≤ maxWindow := by
      rw [← hs1]
      exact h.conn.imp_left fun herr => herr.imp fun _ => List.mem_cons_of_mem _
    have hinitial : s1.peerInitialWindow ≤ maxWindow := by
      rw [← hs1]
      exact h.initial
    rcases hcases with heq | heq | ⟨hfits, heq⟩
    · rw [heq]
      exact h.steady (A := True) (R := True)
        (.resetStream fun _ sid => answers_of_code (by decide) _ sid _)
    · rw [heq]
      exact .resetStream hconn hinitial hothers _
    · rw [heq]
      refine ⟨hconn, hinitial, fun y hy _ hheld hopen => ?_⟩
      by_cases hid : y.id = st.id
      · have hwindow : y.sendWindow = st.sendWindow + windowIncrement f.payload := by
          rw [← hs1] at hy
          refine modified_all (P := fun y => y.sendWindow = _) (fun x hx hxid => ?_) y hy hid
          rw [hsound.unique_stream hx hmem hxid]
        rw [hwindow]
        exact hfits
      · exact hothers y hy hid hheld hopen

/-! ## Settings -/

/-- A change of the initial window with room for it keeps the bound. -/
theorem setInitialWindow_bounded (h : Bounded s) {value : Nat} (hvalue : ¬ value > maxWindow)
    (hroom : RoomFor s value) : Bounded (setInitialWindow s value) := by
  refine ⟨h.conn, ?_, ?_⟩
  · show (value : Int) ≤ maxWindow
    exact Int.ofNat_le.mpr (Nat.not_lt.mp hvalue)
  · intro y hy _ hheld hopen
    obtain ⟨x, hx, rfl⟩ := List.mem_map.mp hy
    split at hheld
    · rename_i hx'
      rw [if_pos hx'] at hopen ⊢
      exact hroom x hx hx' hopen
    · rename_i hx'
      exact absurd hheld hx'

/-- What has room before a change of the initial window has room after it: the windows move
    with it. -/
theorem RoomFor.shift {value : Nat} (h : RoomFor s value) (v : Nat) :
    RoomFor (setInitialWindow s v) value := by
  intro y hy hheld hopen
  obtain ⟨x, hx, rfl⟩ := List.mem_map.mp hy
  split at hheld
  · rename_i hx'
    rw [if_pos hx'] at hopen ⊢
    have hroom := h x hx hx' hopen
    show x.sendWindow + ((v : Int) - s.peerInitialWindow) + ((value : Int) - v) ≤ maxWindow
    omega
  · rename_i hx'
    exact absurd hheld hx'

variable {params : List (Nat × Nat)}

theorem ChangesFit.shift (h : ChangesFit s params) (v : Nat) :
    ChangesFit (setInitialWindow s v) params := by
  induction params with
  | nil => trivial
  | cons p rest ih => exact h.imp_right fun h => ⟨fun hid => (h.1 hid).shift v, ih h.2⟩

theorem ChangesFit.same (h : ChangesFit s params) (hstreams : s'.streams = s.streams)
    (hinitial : s'.peerInitialWindow = s.peerInitialWindow) :
    ChangesFit s' params := by
  induction params with
  | nil => trivial
  | cons p rest ih =>
    refine h.imp_right fun h => ⟨fun hid => ?_, ih h.2⟩
    rw [RoomFor, hstreams, hinitial]
    exact h.1 hid

/-- Settings that fit keep the bound, parameter by parameter. -/
theorem applySettings_bounded (h : Bounded s) (hfit : ChangesFit s params) :
    Bounded (applySettings s params).1 := by
  induction params generalizing s with
  | nil => exact h
  | cons p rest ih =>
    obtain ⟨id, value⟩ := p
    rw [applySettings]
    split
    · rename_i hid
      split
      · exact .connectionError h.initial h.stream _
      · rename_i hvalue
        have hgoes : ¬ Refused id value := by
          rintro (⟨-, hbig⟩ | ⟨hfive, -⟩ | ⟨htwo, -⟩)
          · exact hvalue hbig
          · omega
          · omega
        obtain ⟨hroom, hrest⟩ := hfit.resolve_left hgoes
        exact ih (setInitialWindow_bounded h hvalue (hroom hid)) (hrest.shift value)
    · rename_i hfour
      split
      · rename_i hid
        split
        · exact .connectionError h.initial h.stream _
        · rename_i hvalue
          have hgoes : ¬ Refused id value := by
            rintro (⟨hid', -⟩ | ⟨-, hbad⟩ | ⟨htwo, -⟩)
            · exact hfour hid'
            · exact hvalue hbad
            · omega
          have hframe : Bounded { s with peerMaxFrameSize := value } :=
            ⟨h.conn, h.initial, h.stream⟩
          exact ih hframe ((hfit.resolve_left hgoes).2.same rfl rfl)
      · rename_i hfive
        split
        · exact .connectionError h.initial h.stream _
        · rename_i hvalue
          have hgoes : ¬ Refused id value := by
            rintro (⟨hid', -⟩ | ⟨hid', -⟩ | hbad)
            · exact hfour hid'
            · exact hfive hid'
            · exact hvalue hbad
          exact ih h (hfit.resolve_left hgoes).2

/-- What one step preserves. -/
theorem step_bounded {a : Action} (h : Bounded s) (hsane : Sane s) (hsound : Sound (tableOf s))
    (hmodest : Modest s a) (hstep : step cap s a = some s') : Bounded s' := by
  by_cases hmoves : MovesSend a
  · cases a with
    | frame f =>
      obtain ⟨-, hstep⟩ := Option.ite_none_left_eq_some.mp hstep
      obtain rfl := Option.some.inj hstep
      have hnote : Bounded (s.record (.received f)) :=
        ⟨h.conn.imp_left fun ⟨err, herr⟩ => ⟨err, List.mem_cons_of_mem _ herr⟩, h.initial, h.stream⟩
      rw [processFrame]
      split
      · exact .connectionError hnote.initial hnote.stream _
      · rename_i hsize
        rw [handleFrame]
        split
        · exact .connectionError hnote.initial hnote.stream _
        · rename_i hidle
          rcases hmoves with htype | htype
          · simp only [htype] at hidle ⊢
            have hclosed : s.continuationSid = 0 := by
              by_contra hopen
              exact hidle ⟨hopen, .inl (by decide)⟩
            rw [onSettings]
            split
            · exact .connectionError hnote.initial hnote.stream _
            · rename_i hconn
              split
              · split
                · exact hnote
                · exact .connectionError hnote.initial hnote.stream _
              · rename_i hack
                split
                · exact .connectionError hnote.initial hnote.stream _
                · rename_i hwhole
                  have hfit := hmodest ⟨htype, Nat.not_lt.mp hsize, hclosed, not_not.mp hconn,
                    Bool.eq_false_iff.mpr hack, not_not.mp hwhole⟩
                  have happly := applySettings_bounded hnote (hfit.same rfl rfl)
                  split
                  · rename_i hres
                    rw [hres] at happly
                    exact happly
                  · rename_i hres
                    rw [hres] at happly
                    refine happly.steady (A := False) (R := False) (.enqueue False.elim False.elim)
          · simp only [htype]
            have heffect : Effect anyKind s (s.record (.received f)) := .receive s f trivial
            exact onWindowUpdate_bounded hnote (effect_sound heffect hsound)
    | _ => exact hmoves.elim
  · have hmove : Move False False True s s' :=
      step_move False.elim False.elim (fun _ => hmoves) hsound hsane.trailing hstep
    exact h.move hmove

theorem initial_bounded : Bounded initial := by
  refine ⟨.inr (by decide), by decide, fun x hx => ?_⟩
  exact absurd hx List.not_mem_nil

/-! ## What SETTINGS frames are answered with -/

/-- Parameters that are all in range are applied without a word. -/
theorem applySettings_log (h : ∀ p ∈ params, ¬ Refused p.1 p.2) :
    (applySettings s params).1.log = s.log ∧ (applySettings s params).1.dead = s.dead ∧
      (applySettings s params).2 = true := by
  induction params generalizing s with
  | nil => exact ⟨rfl, rfl, rfl⟩
  | cons p rest ih =>
    obtain ⟨id, value⟩ := p
    have hgoes : ¬ Refused id value := h (id, value) List.mem_cons_self
    have hrest := fun p hp => h p (List.mem_cons_of_mem (id, value) hp)
    rw [applySettings]
    split
    · rename_i hid
      rw [if_neg fun hbig => hgoes (.inl ⟨hid, hbig⟩)]
      exact ih hrest
    · split
      · rename_i hid
        rw [if_neg fun hbad => hgoes (.inr (.inl ⟨hid, hbad⟩))]
        exact ih hrest
      · rw [if_neg fun hbad => hgoes (.inr (.inr hbad))]
        exact ih hrest

/-- A SETTINGS frame with all parameters in range is acknowledged, whatever it makes of the
    windows. -/
theorem settings_acknowledged (hstep : step cap s (.frame f) = some s') (happlied : Applied s f)
    (hrange : ∀ p ∈ settingsOf f.payload, ¬ Refused p.1 p.2) :
    s'.log = .enqueued settingsAckFrame :: .received f :: s.log := by
  obtain ⟨hrun, hstep⟩ := Option.ite_none_left_eq_some.mp hstep
  obtain rfl := Option.some.inj hstep
  rw [Bool.or_eq_true, not_or, Bool.not_eq_true, Bool.not_eq_true] at hrun
  obtain ⟨htype, hsize, hidle, hconn, hrequest, hwhole⟩ := happlied
  have hguard : ¬ ((s.record (.received f)).continuationSid ≠ 0 ∧
      (f.type ≠ .continuation ∨ f.streamId ≠ (s.record (.received f)).continuationSid)) :=
    fun hopen => hopen.1 hidle
  obtain ⟨hlog, hdead, hok⟩ := applySettings_log (s := s.record (.received f)) hrange
  rw [processFrame, if_neg (Nat.not_lt.mpr hsize), handleFrame, if_neg hguard]
  simp only [htype]
  rw [onSettings, if_neg (not_not.mpr hconn), hrequest, if_neg Bool.false_ne_true,
    if_neg (not_not.mpr hwhole)]
  cases hres : applySettings (s.record (.received f)) (settingsOf f.payload) with
  | mk t ok =>
    rw [hres] at hlog hdead hok
    dsimp only at hlog hdead hok ⊢
    subst hok
    show (t.enqueue settingsAckFrame).log = _
    have halive : ¬ t.dead = true := by
      rw [hdead]
      exact Bool.eq_false_iff.mp hrun.2
    rw [Session.enqueue, if_neg halive]
    show .enqueued settingsAckFrame :: t.log = _
    rw [hlog]
    rfl

/-! ## Runs -/

/-- The bound holds in every run whose SETTINGS frames leave the windows within it; and a
    SETTINGS frame is acknowledged whether they do or not. -/
theorem windows_within_bound (cap : Nat) (s : Session) (h : (guarded Modest cap).Reachable s) :
    ((∀ err, .connectionError err ∉ s.log) → s.connSendWindow ≤ maxWindow) ∧
      (∀ x ∈ s.streams, x.held = true → x.reset = false → x.sendWindow ≤ maxWindow) ∧
      ∀ f s', step cap s (.frame f) = some s' → Applied s f →
        (∀ p ∈ settingsOf f.payload, ¬ Refused p.1 p.2) →
        s'.log = .enqueued settingsAckFrame :: .received f :: s.log := by
  have hbounded := guarded_invariant h initial_bounded fun _ _ _ hreach hbounded hmodest hstep =>
    step_bounded hbounded (reachable_sane hreach) (reachable_sound hreach) hmodest hstep
  obtain ⟨-, hconn, -, hstream⟩ := hbounded
  refine ⟨fun hnone => ?_, fun x hx hheld hopen => hstream x hx trivial hheld hopen,
    fun f s' hstep happlied hrange => settings_acknowledged hstep happlied hrange⟩
  rcases hconn with ⟨err, herr⟩ | hle
  · exact absurd herr (hnone err)
  · exact hle

/-- A request without END_STREAM on stream 1 whose window the client then opens. -/
def openedActions (inc : Nat) : List Action :=
  [.frame { type := .headers, flags := flagEndHeaders, streamId := 1, payload := [0x82] },
    .frame (windowUpdateFrame 1 inc)]

/-- A new initial window. -/
def initialWindowFrame (value : Nat) : Frame :=
  { type := .settings, streamId := 0, payload := settingsPayload [(4, value)] }

/-- The window of the stream is opened halfway and the initial window doubled. -/
def modestActions : List Action := openedActions (2 ^ 30) ++ [.frame (initialWindowFrame 131070)]

def modestSession : Session := (guardedRun Modest 0 initial modestActions).getD initial

theorem windows_within_bound_modest :
    ∃ x ∈ modestSession.streams, x.sendWindow = 2 ^ 30 + 131070 ∧ x.sendWindow ≤ maxWindow := by
  have hrun : guardedRun Modest 0 initial modestActions = some modestSession := by decide
  obtain ⟨x, hx, hheld, hopen, hwindow⟩ : ∃ x ∈ modestSession.streams, x.held = true ∧
      x.reset = false ∧ x.sendWindow = 2 ^ 30 + 131070 := by decide
  exact ⟨x, hx, hwindow, (windows_within_bound 0 modestSession
    ⟨initial, rfl, guardedRun_steps hrun⟩).2.1 x hx hheld hopen⟩

def isError : Event → Bool
  | .connectionError _ => true
  | _ => false

/-- The window of stream 1 is opened to 2^31-1, and then the initial window raised by 1. -/
def raisedActions : List Action :=
  openedActions (maxWindow - 65535) ++ [.frame (initialWindowFrame 65536)]

/-- The window of a stream is beyond the bound, and the SETTINGS frame acknowledged. -/
theorem settings_exceed_bound :
    ∃ s past, run 0 initial raisedActions = some s ∧
      s.log = .enqueued settingsAckFrame :: past ∧ (∀ err, .connectionError err ∉ s.log) ∧
      ∃ x ∈ s.streams, x.held = true ∧ x.reset = false ∧ (maxWindow : Int) < x.sendWindow := by
  have hnone : ∀ err, Event.connectionError err ∉
      ((run 0 initial raisedActions).getD initial).log := by
    intro err
    exact not_mem_of_all (p := fun e => !isError e) (by decide) rfl
  exact ⟨(run 0 initial raisedActions).getD initial,
    ((run 0 initial raisedActions).getD initial).log.tail, by decide, by decide,
    hnone, by decide⟩

end Http2WindowBound
