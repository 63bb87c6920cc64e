import WaveX.Http2HeaderSync

/-! # Frames that race with the end of a stream

    The client goes on sending on a stream until it learns that the server has reset or
    finished it.  `Net` puts a client in front of the session: its frames wait in order
    until the reader takes them up, and what the server queues reaches it later.
    `Permitted` says what RFC 9113 lets the client send, judged by what it has sent so
    far.  No frame on a stream is then a connection error, as long as header frames find
    their stream in `streams_` and header blocks keep to the limits of the session. -/

namespace Http2StreamRaces

open QuicVarInt Hpack Http2Frames Http2Session Http2Session.Session Http2Effects Http2Tasks
  Http2HeaderState Http2HeaderSync History List

/-! ## The client -/

/-- A HEADERS frame of the history is for the stream. -/
def Opened (sid : Nat) (past : List Frame) : Prop :=
  ∃ f ∈ past, f.type = .headers ∧ f.streamId = sid

/-- The client has opened the stream and has neither ended nor reset it. -/
def OpenFor (sid : Nat) (past : List Frame) : Prop :=
  Opened sid past ∧ ¬ Ended sid past ∧ ∀ f ∈ past, f.type = .rstStream → f.streamId ≠ sid

instance OpenFor.decidable (sid : Nat) (past : List Frame) : Decidable (OpenFor sid past) :=
  inferInstanceAs (Decidable ((∃ f ∈ past, f.type = .headers ∧ f.streamId = sid) ∧
    (¬ ∃ f ∈ past, f.streamId = sid ∧ f.hasFlag flagEndStream = true ∧
      (f.type = .data ∨ f.type = .headers)) ∧
    ∀ f ∈ past, f.type = .rstStream → f.streamId ≠ sid))

/-- The header blocks of the history can be decoded one after another. -/
def Decodable (frames : List Frame) : Prop :=
  ∃ t, TableAfter (headerBlocks frames).complete t

/-- A HEADERS frame opens a new stream, or carries the trailers of an open one. -/
def HeadersPermitted (f : Frame) (past : List Frame) : Prop :=
  f.streamId % 2 = 1 ∧ (headersFragment f).isSome = true ∧ Decodable (f :: past) ∧
    (lastOpened past < f.streamId ∨
      (OpenFor f.streamId past ∧ f.hasFlag flagEndStream = true))

/-- What a client may send when no header block is in progress. -/
def Begins (f : Frame) (past : List Frame) : Prop :=
  match f.type with
  | .headers => HeadersPermitted f past
  | .data => f.streamId ≠ 0 ∧ (dataPayload f).isSome = true ∧ OpenFor f.streamId past
  | .windowUpdate => f.payload.length = 4
  | .rstStream => f.payload.length = 4 ∧ f.streamId ≠ 0
  | .settings | .ping | .goaway => f.streamId = 0
  | .continuation | .pushPromise => False
  | .priority | .extension _ => True

/-- What a client may send after the frames it has sent, newest first: a header block in
    progress is continued before anything else. -/
def Permitted (f : Frame) (past : List Frame) : Prop :=
  f.payload.length ≤ maxFrameSize ∧
    if (headerBlocks past).openSid ≠ 0 then
      f.type = .continuation ∧ f.streamId = (headerBlocks past).openSid ∧ Decodable (f :: past)
    else Begins f past

/-- A client in front of a session: the frames it has sent and the frames of the server
    that it has seen, newest first. -/
structure Net where
  sent : List Frame
  seen : List Frame
  session : Session

/-- The client has seen that the server has reset the stream. -/
def Learned (sid : Nat) (seen : List Frame) : Prop :=
  ∃ f ∈ seen, f.type = .rstStream ∧ f.streamId = sid

/-- A step of the client, the network or the server; `Meets` restricts the frames that the
    reader takes up. -/
inductive NetStep (Meets : Session → Frame → Prop) (cap : Nat) : Net → Net → Prop where
  | send (n : Net) (f : Frame) (h : Permitted f n.sent)
      (hunseen : f.streamId ≠ 0 → ¬ Learned f.streamId n.seen) :
      NetStep Meets cap n { n with sent := f :: n.sent }
  | see (n : Net) (f : Frame) (h : f :: n.seen <:+ queued n.session.log) :
      NetStep Meets cap n { n with seen := f :: n.seen }
  | deliver (n : Net) (f : Frame) (s : Session) (h : f :: received n.session.log <:+ n.sent)
      (hmeets : Meets n.session f) (hstep : step cap n.session (.frame f) = some s) :
      NetStep Meets cap n { n with session := s }
  | act (n : Net) (a : Action) (s : Session) (ha : ∀ f, a ≠ .frame f)
      (hstep : step cap n.session a = some s) : NetStep Meets cap n { n with session := s }

/-- A client and a session that start together. -/
def races (Meets : Session → Frame → Prop) (cap : Nat) : System Net where
  init n := n = ⟨[], [], initial⟩
  next := NetStep Meets cap

/-- A frame with headers finds its stream where it needs one, and its header block keeps
    to the limits of the session. -/
structure Meets (s : Session) (f : Frame) : Prop where
  held : f.type = .continuation ∨ (f.type = .headers ∧ f.streamId ≤ s.lastPeerStreamId) →
    (s.find f.streamId).isSome = true
  short : f.type = .continuation →
    ((headerBlocks (received s.log)).pending ++ f.payload).length ≤ maxHeaderBlock
  fits : f.type = .headers ∨ f.type = .continuation →
    ∀ block past, (headerBlocks (f :: received s.log)).complete = block :: past →
      (decodeHeaderBlock defaultMaxHeaderListSize block s.decodeTable).limitExceeded = false

/-! ## Frames that fit -/

variable {E D : Nat → Prop} {cap : Nat} {s s' s'' : Session} {st : StreamState} {f : Frame}
  {past : List Frame}

/-- Nothing is added to the history but events that fit. -/
def Calm (s s' : Session) : Prop := ∃ new, s'.log = new ++ s.log ∧ ∀ e ∈ new, fits e

theorem Calm.trans (h : Calm s s') (h' : Calm s' s'') : Calm s s'' := by
  obtain ⟨new, hnew, hfits⟩ := h
  obtain ⟨new', hnew', hfits'⟩ := h'
  refine ⟨new' ++ new, by rw [hnew', hnew, append_assoc], fun e he => ?_⟩
  exact (mem_append.mp he).elim (hfits' e) (hfits e)

theorem Calm.same (h : s'.log = s.log) : Calm s s' :=
  ⟨[], h, fun _ he => absurd he not_mem_nil⟩

theorem Calm.cons {e : Event} (h : s'.log = e :: s.log) (he : fits e) : Calm s s' :=
  ⟨[e], h, fun _ he' => mem_singleton.mp he' ▸ he⟩

/-- What keeps the header state adds only events that fit. -/
theorem keeps_calm (h : Keeps E D s s') : Calm s s' := by
  obtain ⟨new, hnew, hsilent⟩ := h.log
  refine ⟨new, hnew, fun e he => ?_⟩
  have hquiet := hsilent e he
  cases e with
  | connectionError err => exact absurd hquiet Bool.false_ne_true
  | headerBlock sid trailers block table count => exact absurd hquiet Bool.false_ne_true
  | _ => trivial

/-- A block that can be decoded and keeps to the cap. -/
theorem finishHeaderBlock_calm {t : DynamicTable} (st : StreamState)
    (hblock : Complete s.decodeTable st.headerBlock t)
    (hlimit : (decodeHeaderBlock defaultMaxHeaderListSize st.headerBlock
      s.decodeTable).limitExceeded = false) : Calm s (finishHeaderBlock s st) := by
  have hok := hblock.decodes (by decide) hlimit
  rw [finishHeaderBlock]
  generalize hdec : decodeHeaderBlock defaultMaxHeaderListSize st.headerBlock s.decodeTable = d
    at hok hlimit ⊢
  have hkeeps : Keeps (fun _ => False) (fun _ => False) (markDone (keepTable s st d) st)
      (actOnBlock (keepTable s st d) st d) := actOnBlock_keeps (.inl hok)
  have hnote : Calm s (markDone (keepTable s st d) st) := by
    refine .cons markDone_log.1 ?_
    rw [fits, hdec]
    exact hlimit
  exact hnote.trans (keeps_calm hkeeps)

/-- The block that a frame completes can be decoded against the table of the session. -/
theorem Decodable.complete {block : Bytes} {t : DynamicTable} (h : Decodable (f :: past))
    (htable : TableAfter (headerBlocks past).complete t)
    (hblock : (headerBlocks (f :: past)).complete = block :: (headerBlocks past).complete) :
    ∃ t', Complete t block t' := by
  obtain ⟨t', h⟩ := h
  rw [hblock] at h
  obtain ⟨t₀, hpast, hcomplete⟩ := h
  rw [hpast.unique htable] at hcomplete
  exact ⟨t', hcomplete⟩

/-- Every block that `f` completes keeps to the cap. -/
def BlockFits (s : Session) (f : Frame) (past : List Frame) : Prop :=
  ∀ block rest, (headerBlocks (f :: past)).complete = block :: rest →
    (decodeHeaderBlock defaultMaxHeaderListSize block s.decodeTable).limitExceeded = false

/-- A permitted fragment of a header block is no error. -/
theorem takeFragment_calm {fragment : Bytes} (hempty : st.headerBlock = [])
    (htype : f.type = .headers) (hfragment : headersFragment f = some fragment)
    (htable : TableAfter (headerBlocks past).complete s.decodeTable)
    (hdecodable : Decodable (f :: past)) (hfits : BlockFits s f past) :
    Calm s (takeFragment s st f fragment) := by
  rw [takeFragment]
  dsimp only
  split
  · rename_i hend
    have hblock : (headerBlocks (f :: past)).complete = fragment :: (headerBlocks past).complete := by
      rw [headerBlocks]
      simp only [htype, hfragment, if_pos hend, Option.getD_some]
    obtain ⟨t, ht⟩ := hdecodable.complete htable hblock
    refine finishHeaderBlock_calm (s := s.modify st.id _) (t := t) _ ?_ ?_
    · rw [hempty, nil_append]
      exact ht
    · rw [hempty, nil_append]
      exact hfits _ _ hblock
  · exact .same rfl

/-! ## What a client may send is never an error -/

theorem le_lastOpened {sid : Nat} (h : Opened sid past) : sid ≤ lastOpened past := by
  obtain ⟨f, hf, htype, rfl⟩ := h
  induction past with
  | nil => exact absurd hf not_mem_nil
  | cons g past ih =>
    rw [lastOpened]
    rcases mem_cons.mp hf with rfl | hpast
    · rw [if_pos htype]
      exact Nat.le_max_left _ _
    · split
      · exact Nat.le_trans (ih hpast) (Nat.le_max_right _ _)
      · exact ih hpast

/-- Permitted HEADERS are no error. -/
theorem onHeaders_calm (h : InStep s) (hsound : Sound (tableOf s)) (hidle : s.continuationSid = 0)
    (htype : f.type = .headers) (hmeets : Meets s f)
    (hpermitted : HeadersPermitted f (received s.log)) :
    Calm (s.record (.received f)) (onHeaders (s.record (.received f)) f) := by
  obtain ⟨hodd, hfragment, hdecodable, hstream⟩ := hpermitted
  obtain ⟨fragment, hfragment⟩ := Option.isSome_iff_exists.mp hfragment
  have hfits : BlockFits s f (received s.log) := hmeets.fits (.inl htype)
  have hsid : ¬ (f.streamId = 0 ∨ f.streamId % 2 = 0) := by omega
  rw [onHeaders]
  dsimp only
  rw [if_neg hsid, hfragment]
  dsimp only
  cases hfind : (s.record (.received f)).find f.streamId with
  | some st =>
    obtain ⟨hmem, hid, hheld⟩ := find_some hfind
    -- an id in use is not new, so these are trailers of an open stream
    have hknown := hsound.known_stream hmem
    rw [h.last, hid] at hknown
    obtain ⟨hopen, hend⟩ := hstream.resolve_left (Nat.not_lt.mpr hknown)
    have hlate : ¬ (!st.headersDone || st.endStreamReceived || !f.hasFlag flagEndStream) = true := by
      rw [h.headersDone hidle hmem hheld, hend]
      intro hended
      rw [Bool.not_true, Bool.false_or, Bool.or_false] at hended
      exact hopen.2.1 (hid ▸ h.ended st hmem hheld hended)
    dsimp only
    rw [if_neg hlate]
    exact takeFragment_calm rfl htype hfragment h.table hdecodable hfits
  | none =>
    dsimp only
    split
    · rename_i hold
      have hheld := hmeets.held (.inr ⟨htype, hold⟩)
      rw [show s.find f.streamId = none from hfind] at hheld
      exact absurd hheld Bool.false_ne_true
    · have hopened : Calm (s.record (.received f)) (openStream (s.record (.received f))
          { id := f.streamId, sendWindow := (s.record (.received f)).peerInitialWindow }) :=
        .cons rfl trivial
      exact hopened.trans (takeFragment_calm rfl htype hfragment h.table hdecodable hfits)

/-- A permitted CONTINUATION is no error. -/
theorem onContinuation_calm (h : InStep s) (htype : f.type = .continuation)
    (hmeets : Meets s f) (hopen : (headerBlocks (received s.log)).openSid ≠ 0)
    (hsid : f.streamId = (headerBlocks (received s.log)).openSid)
    (hdecodable : Decodable (f :: received s.log)) :
    Calm (s.record (.received f)) (onContinuation (s.record (.received f)) f) := by
  have hguard : ¬ ((s.record (.received f)).continuationSid = 0 ∨
      f.streamId ≠ (s.record (.received f)).continuationSid) := by
    show ¬ (s.continuationSid = 0 ∨ f.streamId ≠ s.continuationSid)
    rw [h.sid, not_or, not_not]
    exact ⟨hopen, hsid⟩
  obtain ⟨st, hfind⟩ := Option.isSome_iff_exists.mp (hmeets.held (.inl htype))
  obtain ⟨hmem, hid, hheld⟩ := find_some hfind
  have hpending : st.headerBlock = (headerBlocks (received s.log)).pending := by
    refine h.block st hmem hheld ?_ ?_
    · rw [h.sid]
      exact hopen
    · rw [hid, h.sid]
      exact hsid
  have hshort := hmeets.short htype
  rw [← hpending] at hshort
  rw [onContinuation, if_neg hguard, show (s.record (.received f)).find f.streamId = some st from hfind]
  dsimp only
  rw [if_neg (Nat.not_lt.mpr hshort)]
  split
  · rename_i hend
    have hblock : (headerBlocks (f :: received s.log)).complete =
        (st.headerBlock ++ f.payload) :: (headerBlocks (received s.log)).complete := by
      rw [headerBlocks, hpending]
      simp only [htype, if_pos hend]
    obtain ⟨t, ht⟩ := hdecodable.complete h.table hblock
    have hlimit := hmeets.fits (.inr htype) _ _ hblock
    have hfinish : Calm { (s.record (.received f)).modify st.id fun x =>
        { x with headerBlock := st.headerBlock ++ f.payload } with continuationSid := 0 } _ :=
      finishHeaderBlock_calm { st with headerBlock := st.headerBlock ++ f.payload } ht hlimit
    exact hfinish
  · exact .same rfl

/-- A frame that may begin here is no frame error. -/
theorem begins_not_error (h : InStep s) (hidle : s.continuationSid = 0)
    (hstream : f.streamId ≠ 0) (hheaders : f.type ≠ .headers)
    (hbegins : Begins f (received s.log)) : ¬ FrameError (s.record (.received f)) f := by
  rw [Begins] at hbegins
  rintro (hsid | herror)
  · exact hsid hidle
  · cases htype : f.type with
    | headers => exact hheaders htype
    | data =>
      rw [htype] at hbegins herror
      obtain ⟨-, hpayload, hopened, hended, -⟩ := hbegins
      rcases herror with hzero | hnone | herror
      · exact hstream hzero
      · rw [hnone] at hpayload
        exact Bool.false_ne_true hpayload
      · cases hfind : (s.record (.received f)).find f.streamId with
        | none =>
          rw [hfind] at herror
          have hknown := le_lastOpened hopened
          rw [← h.last] at hknown
          exact absurd hknown (Nat.not_le.mpr herror)
        | some st =>
          obtain ⟨hmem, hid, hheld⟩ := find_some hfind
          rw [hfind] at herror
          rcases herror with hfresh | hend
          · rw [h.headersDone hidle hmem hheld] at hfresh
            exact Bool.false_ne_true hfresh.symm
          · exact hended (hid ▸ h.ended st hmem hheld hend)
    | windowUpdate =>
      rw [htype] at hbegins herror
      exact herror.elim (fun hlen => hlen hbegins) hstream
    | rstStream =>
      rw [htype] at hbegins herror
      exact herror.elim (fun hlen => hlen hbegins.1) hstream
    | settings =>
      rw [htype] at hbegins
      exact hstream hbegins
    | ping =>
      rw [htype] at hbegins
      exact hstream hbegins
    | pushPromise =>
      rw [htype] at hbegins
      exact hbegins
    | continuation =>
      rw [htype] at hbegins
      exact hbegins
    | goaway =>
      rw [htype] at herror
      exact herror
    | priority =>
      rw [htype] at herror
      exact herror
    | extension b =>
      rw [htype] at herror
      exact herror

/-- No frame on a stream is taken for a connection error. -/
theorem processFrame_calm (cap : Nat) (h : InStep s) (hsound : Sound (tableOf s))
    (hmeets : Meets s f)
    (hpermitted : Permitted f (received s.log)) (hstream : f.streamId ≠ 0) :
    Calm s (processFrame cap s f) := by
  have hnote : Calm s (s.record (.received f)) := .cons rfl trivial
  obtain ⟨hsize, hrule⟩ := hpermitted
  rw [processFrame, if_neg (Nat.not_lt.mpr hsize)]
  refine hnote.trans ?_
  split at hrule
  · rename_i hopen
    obtain ⟨htype, hsid, hdecodable⟩ := hrule
    have hguard : ¬ ((s.record (.received f)).continuationSid ≠ 0 ∧ (f.type ≠ .continuation ∨
        f.streamId ≠ (s.record (.received f)).continuationSid)) := by
      show ¬ (s.continuationSid ≠ 0 ∧ (f.type ≠ .continuation ∨ f.streamId ≠ s.continuationSid))
      rw [h.sid, htype, hsid]
      simp
    rw [handleFrame, if_neg hguard, htype]
    exact onContinuation_calm h htype hmeets hopen hsid hdecodable
  · rename_i hidle
    rw [not_not, ← h.sid] at hidle
    by_cases htype : f.type = .headers
    · rw [Begins, htype] at hrule
      rw [handleFrame, if_neg fun hguard => hguard.1 hidle, htype]
      exact onHeaders_calm h hsound hidle htype hmeets hrule
    · have hcontinuation : f.type ≠ .continuation := by
        intro hcont
        rw [Begins, hcont] at hrule
        exact hrule
      rcases handleFrame_keeps (D := fun _ => False) htype hcontinuation with hkeeps | ⟨-, herror⟩
      · exact keeps_calm hkeeps
      · exact absurd herror (begins_not_error h hidle hstream htype hrule)

/-! ## Runs -/

/-- An event among older ones. -/
theorem suffix_past {e : Event} {new older past : List Event} (h : e :: past <:+ new ++ older)
    (he : e ∉ new) : e :: past <:+ older := by
  induction new with
  | nil => exact h
  | cons e' new ih =>
    rcases suffix_cons_iff.mp h with heq | hlater
    · exact absurd (head_eq_of_cons_eq heq ▸ mem_cons_self) he
    · exact ih hlater fun hmem => he (mem_cons_of_mem e' hmem)

/-- The frame that the reader has taken up last is for the connection. -/
def OnConnection (past : List Event) : Prop :=
  ∃ f, (received past).head? = some f ∧ f.streamId = 0

/-- Every connection error comes from a frame for the connection. -/
def Blameless (log : List Event) : Prop :=
  ∀ err past, .connectionError err :: past <:+ log → OnConnection past

theorem Calm.blameless (h : Calm s s') (hblame : Blameless s.log) : Blameless s'.log := by
  obtain ⟨new, hnew, hfits⟩ := h
  intro err past herr
  rw [hnew] at herr
  exact hblame err past (suffix_past herr fun hmem => hfits _ hmem)

theorem Calm.fits (h : Calm s s') (hfits : ∀ e ∈ s.log, fits e) : ∀ e ∈ s'.log, fits e := by
  obtain ⟨new, hnew, hnewfits⟩ := h
  intro e he
  rw [hnew] at he
  exact (mem_append.mp he).elim (hnewfits e) (hfits e)

/-- A frame for the connection takes the blame for the errors it leads to. -/
theorem processFrame_blameless (hsound : Sound (tableOf s)) (hblame : Blameless s.log)
    (hconn : f.streamId = 0) : Blameless (processFrame cap s f).log := by
  intro err past herr
  obtain ⟨hreceived, hsuffix⟩ := processFrame_received cap f hsound.started_session
  rcases suffix_or_suffix_of_suffix herr hsuffix with hold | hlater
  · rcases suffix_cons_iff.mp hold with heq | hold
    · exact nomatch head_eq_of_cons_eq heq
    · exact hblame err past hold
  · rcases suffix_cons_iff.mp hlater with heq | hlater
    · exact nomatch head_eq_of_cons_eq heq
    · have hfrom : f :: received s.log <:+ received past := hlater.filterMap receivedFrame
      have hto : received past <:+ f :: received s.log := by
        rw [← hreceived]
        exact ((suffix_cons _ _).trans herr).filterMap receivedFrame
      have heq : received past = f :: received s.log :=
        hto.eq_of_length (Nat.le_antisymm hto.length_le hfrom.length_le)
      exact ⟨f, by rw [heq]; rfl, hconn⟩

/-- A permitted frame of stream 0 is no error, or stops the session. -/
theorem processFrame_connection (hconn : f.streamId = 0)
    (hpermitted : Permitted f (received s.log)) :
    Calm s (processFrame cap s f) ∨ (processFrame cap s f).stopped = true := by
  have hnote : Calm s (s.record (.received f)) := .cons rfl trivial
  obtain ⟨hsize, hrule⟩ := hpermitted
  have hplain : f.type ≠ .headers ∧ f.type ≠ .continuation := by
    split at hrule
    · rename_i hopen
      exact absurd (hrule.2.1.symm.trans hconn) hopen
    · constructor
      · intro htype
        rw [Begins, htype] at hrule
        obtain ⟨hodd, -⟩ := hrule
        rw [hconn] at hodd
        exact absurd hodd Nat.zero_ne_one
      · intro htype
        rw [Begins, htype] at hrule
        exact hrule
  rw [processFrame, if_neg (Nat.not_lt.mpr hsize)]
  exact (handleFrame_keeps (D := fun _ => False) hplain.1 hplain.2).imp
    (fun hkeeps => hnote.trans (keeps_calm hkeeps)) fun hfails => hfails.1.stopped

/-- The client obeys the rules, the frames arrive in order, and as long as the reader goes
    on nothing has gone wrong. -/
structure Lawful (cap : Nat) (n : Net) : Prop where
  reach : (sessions cap).Reachable n.session
  order : received n.session.log <:+ n.sent
  client : Always Permitted n.sent
  calm : n.session.stopped = false → ∀ e ∈ n.session.log, fits e
  blame : Blameless n.session.log

/-- The delivery of a permitted frame keeps the run lawful. -/
theorem Lawful.deliver {n : Net} (h : Lawful cap n) (hsuffix : f :: received n.session.log <:+ n.sent)
    (hmeets : Meets n.session f) (hstep : step cap n.session (.frame f) = some s) :
    Lawful cap { n with session := s } := by
  obtain ⟨s₀, h₀, hrun⟩ := h.reach
  have hsound := reachable_sound h.reach
  obtain ⟨hgoing, heq⟩ := Option.ite_none_left_eq_some.mp hstep
  obtain rfl := Option.some.inj heq
  rw [Bool.or_eq_true, not_or, Bool.not_eq_true] at hgoing
  have hfits := h.calm hgoing.1
  have hinstep := reachable_inStep h.reach hfits
  have hpermitted : Permitted f (received n.session.log) := by
    obtain ⟨later, hlater⟩ := hsuffix
    have hclient := h.client
    rw [← hlater] at hclient
    exact hclient.split
  have horder : received (processFrame cap n.session f).log <:+ n.sent := by
    rw [(processFrame_received cap f hsound.started_session).1]
    exact hsuffix
  have hreach : (sessions cap).Reachable (processFrame cap n.session f) :=
    ⟨s₀, h₀, hrun.tail ⟨_, hstep⟩⟩
  by_cases hstream : f.streamId = 0
  · refine ⟨hreach, horder, h.client, fun hgoing' => ?_, ?_⟩
    · rcases processFrame_connection hstream hpermitted with hcalm | hstopped
      · exact hcalm.fits hfits
      · rw [hstopped] at hgoing'
        exact absurd hgoing'.symm Bool.false_ne_true
    · exact processFrame_blameless hsound h.blame hstream
  · have hcalm := processFrame_calm cap hinstep hsound hmeets hpermitted hstream
    exact ⟨hreach, horder, h.client, fun _ => hcalm.fits hfits, hcalm.blameless h.blame⟩

/-- So does any other action of the session. -/
theorem Lawful.act {n : Net} {a : Action} (h : Lawful cap n) (ha : ∀ f, a ≠ .frame f)
    (hstep : step cap n.session a = some s) : Lawful cap { n with session := s } := by
  obtain ⟨s₀, h₀, hrun⟩ := h.reach
  have hkeeps : Keeps (fun _ => False) (fun _ => False) n.session s := step_keeps ha hstep
  have hcalm := keeps_calm hkeeps
  have horder : received s.log <:+ n.sent := by
    rw [keeps_received hkeeps]
    exact h.order
  refine ⟨⟨s₀, h₀, hrun.tail ⟨a, hstep⟩⟩, horder, h.client, fun hgoing => ?_,
    hcalm.blameless h.blame⟩
  refine hcalm.fits (h.calm ?_)
  cases hstopped : n.session.stopped with
  | false => rfl
  | true =>
    rw [hkeeps.stopped hstopped] at hgoing
    exact absurd hgoing.symm Bool.false_ne_true

/-- Nothing has been sent at first. -/
theorem initial_lawful : Lawful cap ⟨[], [], initial⟩ := by
  have hkeeps : Keeps (fun _ => False) (fun _ => False) {} initial := initial_keeps
  have hcalm := keeps_calm hkeeps
  refine ⟨initial_reachable, ?_, trivial, fun _ => ?_, ?_⟩
  · rw [keeps_received hkeeps]
    exact suffix_rfl
  · exact hcalm.fits fun _ he => absurd he not_mem_nil
  · refine hcalm.blameless fun err past herr => ?_
    exact absurd (suffix_nil.mp herr) (cons_ne_nil _ _)

/-- In every run of a client and a session in which header frames find their stream and
    keep to the limits, a frame on a stream never leads to a connection error. -/
theorem stream_frames_tolerated (cap : Nat) (n : Net) (h : (races Meets cap).Reachable n)
    (err : ErrorCode) (past : List Event) (f : Frame)
    (herr : .connectionError err :: past <:+ n.session.log)
    (hf : (received past).head? = some f) : f.streamId = 0 := by
  have hlawful : Lawful cap n := by
    refine h.invariant (fun n h₀ => ?_) ?_
    · rw [h₀]
      exact initial_lawful
    · intro n n' hstep hn
      cases hstep with
      | send f hpermitted _ =>
        exact ⟨hn.reach, hn.order.trans (suffix_cons _ _), ⟨hpermitted, hn.client⟩, hn.calm,
          hn.blame⟩
      | see f _ => exact ⟨hn.reach, hn.order, hn.client, hn.calm, hn.blame⟩
      | deliver f s hsuffix hmeets hstep => exact hn.deliver hsuffix hmeets hstep
      | act a s ha hstep => exact hn.act ha hstep
  obtain ⟨g, hg, hconn⟩ := hlawful.blame err past herr
  rw [hf] at hg
  rw [Option.some.inj hg]
  exact hconn

/-! ## Two runs -/

variable {M : Session → Frame → Prop} {sent : List Frame}

/-- A client may send its frames before the server says anything. -/
theorem sends_reachable (h : Always Permitted sent) :
    (races M cap).Reachable ⟨sent, [], initial⟩ := by
  induction sent with
  | nil => exact ⟨_, rfl, .refl⟩
  | cons f rest ih =>
    obtain ⟨n, h₀, hrun⟩ := ih h.2
    exact ⟨n, h₀, hrun.tail (.send _ f h.1 fun _ ⟨_, hg, _⟩ => absurd hg not_mem_nil)⟩

theorem deliver_reachable (s' : Session) (h : (races M cap).Reachable ⟨sent, [], s⟩)
    (hf : f :: received s.log <:+ sent) (hmeets : M s f)
    (hstep : step cap s (.frame f) = some s') : (races M cap).Reachable ⟨sent, [], s'⟩ := by
  obtain ⟨n, h₀, hrun⟩ := h
  exact ⟨n, h₀, hrun.tail (.deliver _ f s' hf hmeets hstep)⟩

theorem act_reachable {a : Action} (h : (races M cap).Reachable ⟨sent, [], s⟩)
    (ha : ∀ f, a ≠ .frame f) (hstep : step cap s a = some s') :
    (races M cap).Reachable ⟨sent, [], s'⟩ := by
  obtain ⟨n, h₀, hrun⟩ := h
  exact ⟨n, h₀, hrun.tail (.act _ a s' ha hstep)⟩

/-- A POST request that stays open. -/
def upload : Frame := headersFrame 1 4 [0x83]

/-- Two bytes of its body. -/
def uploadData : Frame := dataFrame 1 [1, 2] false

/-- Its trailers. -/
def uploadTrailers : Frame := headersFrame 1 5 [0, 1, 97, 1, 98]

/-- A PING frame without its eight bytes. -/
def shortPing : Frame := { type := .ping, streamId := 0, payload := [] }

/-- The body is beyond the limit of one byte: the server answers 413 and is done with the
    stream. -/
def cutActions : List Action := [.frame upload, .frame uploadData, .finishTask 1]

/-- The session after `k` of these actions. -/
def cutSession (k : Nat) : Session := (run 1 initial (cutActions.take k)).getD initial

theorem upload_permitted : Always Permitted [uploadData, upload] := by
  refine ⟨⟨by decide, ?_⟩, ⟨by decide, ?_⟩, trivial⟩
  · rw [if_neg (by decide)]
    exact ⟨by decide, by decide, by decide⟩
  · rw [if_neg (by decide)]
    exact ⟨by decide, by decide, ⟨_, {}, rfl, 2, _, rfl, rfl, rfl⟩, .inl (by decide)⟩

theorem cut_reachable {later : List Frame}
    (hsent : Always Permitted (later ++ [uploadData, upload]))
    (hfirst : M initial upload) (hsecond : M (cutSession 1) uploadData) :
    (races M 1).Reachable ⟨later ++ [uploadData, upload], [], cutSession 3⟩ := by
  have hstart : (races M 1).Reachable ⟨later ++ [uploadData, upload], [], initial⟩ :=
    sends_reachable hsent
  have hopened := deliver_reachable (cutSession 1) hstart ?_ hfirst (by decide)
  · have hcut := deliver_reachable (cutSession 2) hopened ?_ hsecond (by decide)
    · exact act_reachable (a := .finishTask 1) hcut (fun _ => nofun) (by decide)
    · have hreceived : received (cutSession 1).log = [upload] := by decide
      rw [hreceived]
      exact suffix_append later _
  · have hreceived : received initial.log = [] := by decide
    rw [hreceived]
    exact ⟨later ++ [uploadData], by simp⟩

theorem uploadTrailers_permitted : Permitted uploadTrailers [uploadData, upload] := by
  refine ⟨by decide, ?_⟩
  rw [if_neg (by decide)]
  refine ⟨by decide, by decide, ?_, .inr ⟨by decide, by decide⟩⟩
  exact ⟨_, {}, ⟨{}, rfl, 2, _, rfl, rfl, rfl⟩, 2, _, rfl, rfl, rfl⟩

/-- Trailers that cross with the end of their stream cost the connection. -/
theorem trailers_cost_connection :
    ∃ n past, (races (fun _ _ => True) 1).Reachable n ∧
      .connectionError .streamClosed :: past <:+ n.session.log ∧
      (received past).head? = some uploadTrailers ∧ uploadTrailers.streamId = 1 ∧
      n.sent = [uploadTrailers, uploadData, upload] ∧ n.seen = [] := by
  have hcut : (races (fun _ _ => True) 1).Reachable
      ⟨[uploadTrailers] ++ [uploadData, upload], [], cutSession 3⟩ :=
    cut_reachable ⟨uploadTrailers_permitted, upload_permitted⟩ trivial trivial
  have hreceived : received (cutSession 3).log = [uploadData, upload] := by decide
  have hlast := deliver_reachable (f := uploadTrailers)
    (processFrame 1 (cutSession 3) uploadTrailers) hcut
    (by rw [hreceived]; exact suffix_rfl) trivial (by decide)
  exact ⟨_, .received uploadTrailers :: (cutSession 3).log, hlast, by decide, rfl, rfl,
    rfl, rfl⟩

/-- A frame without headers meets the condition. -/
theorem Meets.plain (hheaders : f.type ≠ .headers) (hcontinuation : f.type ≠ .continuation) :
    Meets s f :=
  ⟨fun h => (h.elim hcontinuation fun h => hheaders h.1).elim, fun h => absurd h hcontinuation,
    fun h => (h.elim hheaders hcontinuation).elim⟩

theorem upload_meets : Meets initial upload := by
  refine ⟨fun h => ?_, nofun, fun _ block past hblock => ?_⟩
  · rcases h with htype | ⟨-, hold⟩
    · exact nomatch htype
    · exact absurd hold (by decide)
  · have hone : (headerBlocks (upload :: received initial.log)).complete = [[0x83]] := by
      decide
    rw [hone] at hblock
    rw [← head_eq_of_cons_eq hblock]
    decide

/-- More data for the stream that is gone, then a PING without its eight bytes. -/
def lateFrames : List Frame := [shortPing, uploadData]

theorem lateFrames_permitted : Always Permitted (lateFrames ++ [uploadData, upload]) := by
  refine ⟨⟨by decide, ?_⟩, ⟨by decide, ?_⟩, upload_permitted⟩
  · rw [if_neg (by decide)]
    exact rfl
  · rw [if_neg (by decide)]
    exact ⟨by decide, by decide, by decide⟩

/-- The late data are tolerated; the PING frame is what ends the connection. -/
theorem stream_frames_tolerated_late :
    ∃ n past, (races Meets 1).Reachable n ∧
      .connectionError .frameSizeError :: past <:+ n.session.log ∧
      received past = [shortPing, uploadData, uploadData, upload] ∧ shortPing.streamId = 0 := by
  have hcut : (races Meets 1).Reachable ⟨lateFrames ++ [uploadData, upload], [], cutSession 3⟩ :=
    cut_reachable lateFrames_permitted upload_meets (.plain nofun nofun)
  have hlate := deliver_reachable (f := uploadData)
    (processFrame 1 (cutSession 3) uploadData) hcut (by decide)
    (.plain nofun nofun) (by decide)
  have hlast := deliver_reachable (f := shortPing)
    (processFrame 1 (processFrame 1 (cutSession 3) uploadData) shortPing) hlate
    (by decide) (.plain nofun nofun) (by decide)
  have herr : Event.connectionError .frameSizeError :: .received shortPing ::
      (processFrame 1 (cutSession 3) uploadData).log <:+
      (processFrame 1 (processFrame 1 (cutSession 3) uploadData) shortPing).log := by
    decide
  refine ⟨_, _, hlast, herr, by decide, ?_⟩
  exact stream_frames_tolerated 1 _ hlast _ _ shortPing herr rfl

end Http2StreamRaces
