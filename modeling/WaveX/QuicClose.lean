import WaveX.QuicReceiveSimulation

/-! # Closed is terminal

    What a connection may do after `terminate` has closed it (`Terminal`): nothing
    but append the one CONNECTION_CLOSE.

    `terminate` is called from inside the loops over frames, packets and buffered
    packets and from inside the TLS engine, and these go on after it.  The law holds
    as long as nothing is left to do at the close (`closed_is_terminal`): no
    acknowledgement due, no DATAGRAM waiting, no new stream still to hand over, and
    no frame after the close that opens a stream, carries a DATAGRAM or acknowledges.
    A STREAM frame behind the CONNECTION_CLOSE of the same packet still opens its
    stream (`stream_created_after_close`). -/

namespace QuicClose

open History
open QuicVarInt QuicFrames QuicPacket QuicState QuicReceive QuicRuns QuicLedger QuicSimulation

/-- The law of a closed connection: it is closed only once, no stream is created or
    handed over, no DATAGRAM is delivered, and no packet is appended but one
    CONNECTION_CLOSE. -/
def Terminal : Event → List Event → Prop
  | .streamCreated _ _, past | .streamHanded _, past | .datagramDelivered _, past
  | .appended false, past | .closed _ _, past => NeverClosed past
  | .appended true, past => Event.appended true ∉ past ∧ ¬NeverClosed past
  | _, _ => True

/-- Nothing is left to do when the connection is closed (`callback` says whether new
    streams go to a stream callback), and nothing risky happens afterwards. -/
def Undisturbed (callback : Bool) : Event → List Event → Prop
  | .closed due waiting, past =>
      due = false ∧ waiting = false ∧ (callback = true → newStreams past = false)
  | e, past => risky e = true → NeverClosed past

instance : (e : Event) → (past : List Event) → Decidable (Terminal e past)
  | .streamCreated .., past | .streamHanded .., past | .datagramDelivered .., past
  | .appended false, past | .closed .., past => inferInstanceAs (Decidable (NeverClosed past))
  | .appended true, past =>
      inferInstanceAs (Decidable (Event.appended true ∉ past ∧ ¬NeverClosed past))
  | .called .., _ | .received .., _ | .replayed .., _ | .returned .., _
  | .sealed .., _ | .transmitted .., _ | .packetized .., _ | .acked .., _ | .newlyAcked .., _
  | .lost .., _ | .accepted .., _
  | .streamSent .., _ | .sendStateDropped .., _ | .creditData .., _
  | .creditStream .., _ | .frameSeen .., _ | .handshakeResumed, _ =>
      inferInstanceAs (Decidable True)

instance (callback : Bool) :
    (e : Event) → (past : List Event) → Decidable (Undisturbed callback e past)
  | .closed .., _ => inferInstanceAs (Decidable (_ ∧ _ ∧ (_ → _)))
  | .called .., _ | .received .., _ | .replayed .., _ | .returned .., _
  | .sealed .., _ | .transmitted .., _ | .packetized .., _ | .acked .., _ | .newlyAcked .., _
  | .lost .., _ | .accepted .., _
  | .streamSent .., _ | .sendStateDropped .., _ | .creditData .., _
  | .creditStream .., _ | .frameSeen .., _ | .streamCreated .., _
  | .streamHanded .., _ | .datagramDelivered .., _ | .handshakeResumed, _
  | .appended .., _ =>
      inferInstanceAs (Decidable (_ → _))

/-! ## The invariant -/

/-- A connection is closed exactly when its close is in the history; then nothing is
    left to do.  The history has obeyed the law. -/
structure Terminated (config : Config) (l : Ledger) : Prop where
  config_eq : l.config = config
  closed_iff : l.state = .closed ↔ ¬NeverClosed l.trace
  noAckDue : l.state = .closed → l.ackDue = false
  noDatagrams : l.state = .closed → l.datagrams = []
  unexposed : l.state = .closed → exposed l.trace = false
  noNewStreams : l.state = .closed → config.onStreamCreated = true → newStreams l.trace = false
  law : Always Terminal l.trace

variable {faulty : Prop} {config : Config} {l l' : Ledger}

/-- The condition holds of every run that it holds of later. -/
theorem undisturbed_before {callback : Bool} (h : (machine faulty config).next l l')
    (hg : Always (Undisturbed callback) l'.trace) : Always (Undisturbed callback) l.trace := by
  obtain ⟨later, htr⟩ := next_trace h
  rw [htr] at hg
  exact hg.past

/-- What is open has never been closed. -/
theorem Terminated.neverClosed (h : Terminated config l) (hopen : l.Open) :
    NeverClosed l.trace := by
  by_contra hn
  have hclosed := h.closed_iff.mpr hn
  rcases hopen with hs | hx
  · exact hs hclosed
  · exact absurd ((h.unexposed hclosed).symm.trans hx) Bool.false_ne_true

/-! ## Open connections -/

/-- Before the first close every event is lawful. -/
theorem always_terminal_of_neverClosed {events : List Event} (hn : NeverClosed events)
    (happ : Event.appended true ∉ events) : Always Terminal events := by
  induction events with
  | nil => trivial
  | cons e past ih =>
      have hn' : NeverClosed past := hn.tail
      refine ⟨?_, ih hn' (fun h => happ (List.mem_cons_of_mem _ h))⟩
      cases e with
      | appended close =>
          cases close with
          | true => exact absurd List.mem_cons_self happ
          | false => exact hn'
      | streamCreated _ _ => exact hn'
      | streamHanded _ => exact hn'
      | datagramDelivered _ => exact hn'
      | closed _ _ => exact hn'
      | _ => trivial

/-- Before the first close no CONNECTION_CLOSE was appended. -/
theorem not_appended_true {events : List Event} (hlaw : Always Terminal events)
    (hn : NeverClosed events) : Event.appended true ∉ events := by
  intro hmem
  obtain ⟨past, ⟨_, hpast⟩, _, hsuffix⟩ := hlaw.of_mem hmem
  exact hpast (fun e he => hn e (hsuffix.subset he))

/-- A connection that was never closed is in order. -/
theorem Terminated.of_neverClosed (hconfig : l.config = config) (hstate : l.state ≠ .closed)
    (hn : NeverClosed l.trace) (happ : Event.appended true ∉ l.trace) : Terminated config l where
  config_eq := hconfig
  closed_iff := ⟨fun hc => absurd hc hstate, fun hc => absurd hn hc⟩
  noAckDue := fun hc => absurd hc hstate
  noDatagrams := fun hc => absurd hc hstate
  unexposed := fun hc => absurd hc hstate
  noNewStreams := fun hc => absurd hc hstate
  law := always_terminal_of_neverClosed hn happ

/-- A step appends a CONNECTION_CLOSE only after a close. -/
theorem appended_true_of_step (h : Step faulty l l') (hn : NeverClosed l.trace)
    (happ : Event.appended true ∈ l'.trace) : Event.appended true ∈ l.trace := by
  cases h with
  | appendClose slot gen pn due waiting past htr =>
      rw [htr] at hn
      exact absurd hn.tail not_neverClosed
  | lose sp lost _ _ =>
      refine (List.mem_append.mp happ).resolve_left (fun hmem => ?_)
      obtain ⟨pn, bytes, heq⟩ := mem_lostEvents hmem
      exact nomatch heq
  | deliver =>
      refine (List.mem_append.mp happ).resolve_left (fun hmem => ?_)
      obtain ⟨d, _, heq⟩ := mem_deliveredEvents hmem
      exact nomatch heq
  | _ => first
    | exact happ
    | exact (List.mem_cons.mp happ).resolve_left nofun

/-- A step of a connection that was never closed. -/
theorem Terminated.step_open (h : Step faulty l l') (ht : Terminated config l)
    (hn : NeverClosed l.trace) : Terminated config l' := by
  obtain ⟨later, htr, hlater⟩ := h.trace_eq
  refine .of_neverClosed (h.config_eq.trans ht.config_eq) ?_ ?_ ?_
  · exact h.not_closed (fun hc => ht.closed_iff.mp hc hn)
  · rw [htr]
    intro e he
    rcases List.mem_append.mp he with he | he
    · exact (hlater e he).1
    · exact hn e he
  · exact fun happ => not_appended_true ht.law hn (appended_true_of_step h hn happ)

/-! ## Closed connections -/

/-- An event that is lawful after a close and leaves nothing to do. -/
def harmless : Event → Bool
  | .closed _ _ | .called _ | .streamCreated _ _ | .streamHanded _ | .datagramDelivered _
  | .appended _ => false
  | e => !risky e

/-- Harmless events are lawful and change nothing a closed connection looks at. -/
theorem harmless_append {later past : List Event} (hl : ∀ e ∈ later, harmless e = true)
    (hlaw : Always Terminal past) :
    exposed (later ++ past) = exposed past ∧ newStreams (later ++ past) = newStreams past
      ∧ Always Terminal (later ++ past) := by
  induction later with
  | nil => exact ⟨rfl, rfl, hlaw⟩
  | cons e later ih =>
      obtain ⟨hexp, hnew, hlaw⟩ := ih (fun e' he' => hl e' (List.mem_cons_of_mem _ he'))
      have he := hl e List.mem_cons_self
      rw [List.cons_append, ← hexp, ← hnew]
      cases e with
      | frameSeen f =>
          cases f <;> first | exact ⟨rfl, rfl, trivial, hlaw⟩ | exact nomatch he
      | _ => first | exact ⟨rfl, rfl, trivial, hlaw⟩ | exact nomatch he

/-- Harmless events on a closed connection. -/
theorem Terminated.aside (ht : Terminated config l) (later : List Event)
    (hc : l.state = .closed) (hl : ∀ e ∈ later, harmless e = true) (hconfig : l'.config = l.config)
    (hstate : l'.state = l.state) (hdue : l'.ackDue = l.ackDue)
    (hdata : l'.datagrams = l.datagrams) (htr : l'.trace = later ++ l.trace) :
    Terminated config l' := by
  have hnot : ¬NeverClosed l'.trace := by
    rw [htr]
    exact fun hn => ht.closed_iff.mp hc hn.past
  obtain ⟨hexp, hnew, hlaw⟩ := harmless_append hl ht.law
  rw [← htr] at hexp hnew hlaw
  exact ⟨hconfig.trans ht.config_eq, ⟨fun _ => hnot, fun _ => hstate.trans hc⟩,
    fun _ => hdue.trans (ht.noAckDue hc), fun _ => hdata.trans (ht.noDatagrams hc),
    fun _ => hexp.trans (ht.unexposed hc), fun _ hcb => hnew.trans (ht.noNewStreams hc hcb),
    hlaw⟩

/-- The one CONNECTION_CLOSE is appended right after the close. -/
theorem Terminated.appendClose {slot : KeySlot} {gen pn : Nat} {due waiting : Bool}
    {past : List Event} (ht : Terminated config l) (hc : l.state = .closed)
    (htr : l.trace = .sealed slot gen pn :: .closed due waiting :: past) :
    Terminated config (l.log (.appended true)) := by
  have hnot : ¬NeverClosed l.trace := ht.closed_iff.mp hc
  have hfresh : Event.appended true ∉ l.trace := by
    -- the close is the first one, so nothing before it is a CONNECTION_CLOSE
    have hlaw := ht.law
    rw [htr] at hlaw ⊢
    have hpast := not_appended_true hlaw.2.2 hlaw.2.1
    simpa using hpast
  exact ⟨ht.config_eq, ⟨fun _ hn => hnot hn.tail, fun _ => hc⟩,
    ht.noAckDue, ht.noDatagrams, ht.unexposed, ht.noNewStreams, ⟨hfresh, hnot⟩, ht.law⟩

/-- A step of a closed connection after which nothing risky has happened. -/
theorem Terminated.step_closed {callback : Bool} (h : Step faulty l l')
    (hg : Always (Undisturbed callback) l'.trace) (ht : Terminated config l)
    (hc : l.state = .closed) : Terminated config l' := by
  have hnot : ¬NeverClosed l.trace := ht.closed_iff.mp hc
  have hopen : ¬l.Open := fun hopen => hnot (ht.neverClosed hopen)
  cases h with
  | append hdue =>
      rcases hdue with h | h
      · exact absurd h hopen
      · exact absurd ((ht.noAckDue hc).symm.trans h) Bool.false_ne_true
  | appendClose slot gen pn due waiting past htr => exact ht.appendClose hc htr
  | setAckDue due hdue =>
      have hfalse : due = false := by
        by_contra hne
        rcases hdue (Bool.of_not_eq_false hne) with h | h
        · exact absurd ((ht.noAckDue hc).symm.trans h) Bool.false_ne_true
        · exact hopen h
      exact ⟨ht.config_eq, ht.closed_iff, fun _ => hfalse, ht.noDatagrams, ht.unexposed,
        ht.noNewStreams, ht.law⟩
  | lose sp lost _ _ =>
      exact ht.aside _ hc (forall_lostEvents (fun _ _ => rfl)) rfl rfl rfl rfl rfl
  | accept sid data fin hstate => exact absurd hc hstate
  | packetize sid len fin hstate _ => exact absurd hc hstate
  | frame f =>
      have hharmless : harmless (.frameSeen f) = true := by
        have hquiet : risky (.frameSeen f) = false := by
          by_contra hr
          exact hnot (hg.1 (Bool.of_not_eq_false hr))
        simp [harmless, hquiet]
      exact ht.aside [_] hc (by simpa using hharmless) rfl rfl rfl rfl rfl
  | resume => exact absurd (hg.1 rfl) hnot
  | dispatch sid unseen mark h _ => exact absurd h hopen
  | create sid h => exact absurd h hopen
  | hand sid h =>
      rcases h with h | ⟨hcb, hnew⟩
      · exact absurd h hopen
      · rw [ht.config_eq] at hcb
        exact absurd ((ht.noNewStreams hc hcb).symm.trans hnew) Bool.false_ne_true
  | keepDatagram data h => exact absurd h hopen
  | deliver =>
      have hnone : deliveredEvents l = [] := by
        simp [deliveredEvents, ht.noDatagrams hc]
      exact ht.aside (deliveredEvents l) hc (by simp [hnone]) rfl rfl rfl
        (ht.noDatagrams hc).symm rfl
  | connect h => exact absurd h hopen
  | _ => first
    | exact ht.aside [] hc (by simp) rfl rfl rfl rfl rfl
    | exact ht.aside [_] hc (by simp [harmless, risky]) rfl rfl rfl rfl rfl

/-! ## Runs -/

/-- The close itself, when nothing is left to do. -/
theorem Terminated.close (h : Closing l l')
    (hg : Always (Undisturbed config.onStreamCreated) l'.trace) (ht : Terminated config l) :
    Terminated config l' := by
  cases h with
  | close hstate =>
      obtain ⟨hdue, hwaiting, hnew⟩ := hg.1
      have hn : NeverClosed l.trace := by
        by_contra hn
        exact hstate (ht.closed_iff.mpr hn)
      refine ⟨ht.config_eq, ⟨fun _ => not_neverClosed, fun _ => rfl⟩, fun _ => hdue, ?_,
        fun _ => rfl, fun _ => hnew, hn, ht.law⟩
      intro _
      simpa using hwaiting

/-- A call from outside or a received datagram. -/
theorem Terminated.call (h : Call l l')
    (hg : Always (Undisturbed config.onStreamCreated) l'.trace) (ht : Terminated config l) :
    Terminated config l' := by
  by_cases hc : l.state = .closed
  · cases h with
    | call hands =>
        have hquiet : hands = false := by
          by_contra hr
          exact ht.closed_iff.mp hc (hg.1 (Bool.of_not_eq_false hr))
        have hnot : ¬NeverClosed l.trace := ht.closed_iff.mp hc
        refine ⟨ht.config_eq, ⟨fun _ hn => hnot hn.tail, fun _ => hc⟩,
          ht.noAckDue, ht.noDatagrams, fun _ => ?_, fun _ _ => rfl, trivial, ht.law⟩
        show (risky (.called hands) || exposed l.trace) = false
        rw [ht.unexposed hc, hquiet]
        rfl
    | receive n => exact ht.aside [_] hc (by simp [harmless, risky]) rfl rfl rfl rfl rfl
  · have hn : NeverClosed l.trace := by
      by_contra hn
      exact hc (ht.closed_iff.mpr hn)
    have happ := not_appended_true ht.law hn
    cases h <;>
      exact .of_neverClosed ht.config_eq hc (hn.cons rfl)
        (fun h => happ ((List.mem_cons.mp h).resolve_left nofun))

/-- Every reachable ledger of an undisturbed run is in order. -/
theorem terminated_of_reachable (h : (machine faulty config).Reachable l)
    (hg : Always (Undisturbed config.onStreamCreated) l.trace) : Terminated config l := by
  refine h.invariant_while (G := fun l => Always (Undisturbed config.onStreamCreated) l.trace)
    (fun l l' hn => undisturbed_before hn) ?_ ?_ hg
  · rintro _ ⟨r, rfl⟩
    exact .of_neverClosed rfl nofun nofun List.not_mem_nil
  · rintro l l' ((hstep | hclose) | hcall) hg ht
    · by_cases hc : l.state = .closed
      · exact ht.step_closed hstep hg hc
      · refine ht.step_open hstep ?_
        by_contra hn
        exact hc (ht.closed_iff.mpr hn)
    · exact ht.close hclose hg
    · exact ht.call hcall hg

/-- In every run that leaves nothing to do at the close and does nothing risky after
    it, a closed connection stays closed and does nothing but append one
    CONNECTION_CLOSE. -/
theorem closed_is_terminal {K : Type} {env : Env K} {start : Start} {s : QuicConnection K}
    (h : Reachable env start s)
    (hg : Always (Undisturbed start.settings.onStreamCreated) s.trace) :
    (¬NeverClosed s.trace → s.state = .closed) ∧ Always Terminal s.trace := by
  have ht := terminated_of_reachable (reachable_view env h) hg
  exact ⟨ht.closed_iff.mpr, ht.law⟩

/-- The server closes after the handshake; a STREAM frame of the client comes late. -/
theorem closed_is_terminal_late_stream :
    let s := (sampleServer true).after (sampleEnv sampleTls) (sampleHandshake ++
      [.close 0 [], .handleDatagram (samplePacket .oneRtt 0
        (serializeFrame (.stream ⟨[97], 0, 0, true, false, true⟩)))])
    Event.appended true ∈ s.trace ∧ s.state = .closed ∧ Always Terminal s.trace := by
  have hterminal := closed_is_terminal (Start.after_reachable (sampleEnv sampleTls)
    (sampleServer true) (sampleHandshake ++ [.close 0 [], .handleDatagram
      (samplePacket .oneRtt 0 (serializeFrame (.stream ⟨[97], 0, 0, true, false, true⟩)))]))
    (by decide)
  exact ⟨by decide, hterminal.1 (by decide), hterminal.2⟩

/-- A STREAM frame behind the CONNECTION_CLOSE of the same packet: its stream is
    created on the closed connection. -/
theorem stream_created_after_close :
    let s := (sampleServer true).after (sampleEnv sampleTls) (sampleHandshake ++
      [.handleDatagram (samplePacket .oneRtt 0 (serializeFrame (.connectionClose ⟨[], 0, 0, false⟩)
        ++ serializeFrame (.stream ⟨[97], 0, 0, true, false, true⟩)))])
    s.state = .closed ∧ Event.streamCreated 0 true ∈ s.trace ∧ ¬Always Terminal s.trace := by
  decide

end QuicClose
