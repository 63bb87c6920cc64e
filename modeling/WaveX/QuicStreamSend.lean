import WaveX.QuicReceiveSimulation

/-! # Send-side stream integrity

    What a stream accepts (`queue_stream_data`) and what is packetized for it
    (`flush_stream_send_queues`), read off the history.  `SendLaw` is the law of a
    stream: its frames continue where the last one ended, carry the accepted bytes
    in order, and end with one FIN.

    The code keeps offset, queue and FIN flag in maps that it erases once a closed
    stream has drained, and it does not remember a FIN that was sent.  So the law
    holds as long as nothing more is queued on a stream whose FIN was sent or whose
    state was erased (`sendLaw_of_timely`), and `close_stream` itself breaks it: it
    flushes and erases first and queues the FIN afterwards
    (`closeStream_restarts_offset`). -/

namespace QuicStreamSend

open History
open QuicVarInt QuicFrames QuicPacket QuicState QuicSend QuicRuns QuicLedger QuicSimulation

/-! ## Reading a stream off the history -/

/-- The bytes a stream has accepted, in order. -/
def acceptedBytes (sid : Nat) : List Event → Bytes
  | [] => []
  | .accepted sid' data _ :: past =>
      if sid' = sid then acceptedBytes sid past ++ data else acceptedBytes sid past
  | _ :: past => acceptedBytes sid past

/-- The bytes packetized for a stream, in the order of its frames. -/
def sentBytes (sid : Nat) : List Event → Bytes
  | [] => []
  | .streamSent sid' _ data _ :: past =>
      if sid' = sid then sentBytes sid past ++ data else sentBytes sid past
  | _ :: past => sentBytes sid past

/-- A FIN has been packetized for a stream. -/
def finSent (sid : Nat) : List Event → Bool
  | [] => false
  | .streamSent sid' _ _ fin :: past => (sid' == sid && fin) || finSent sid past
  | _ :: past => finSent sid past

/-- The send state of a stream has been erased at a non-zero offset. -/
def erased (sid : Nat) : List Event → Bool
  | [] => false
  | .sendStateDropped sid' offset :: past => (sid' == sid && offset != 0) || erased sid past
  | _ :: past => erased sid past

/-- The law of a STREAM frame sent for the first time: no FIN went before, it starts
    where the bytes sent so far end, together with them it is a prefix of the
    accepted bytes, and with FIN all of them. -/
def SendLaw : Event → List Event → Prop
  | .streamSent sid offset data fin, past =>
      finSent sid past = false ∧ offset = (sentBytes sid past).length
        ∧ sentBytes sid past ++ data <+: acceptedBytes sid past
        ∧ (fin = true → sentBytes sid past ++ data = acceptedBytes sid past)
  | _, _ => True

/-- A byte or a FIN is queued on a stream only before its FIN was sent and before
    its send state was erased. -/
def Timely : Event → List Event → Prop
  | .accepted sid data fin, past =>
      (data = [] ∧ fin = false) ∨ (finSent sid past = false ∧ erased sid past = false)
  | _, _ => True

instance : (e : Event) → (past : List Event) → Decidable (SendLaw e past)
  | .streamSent _ _ _ _, _ => inferInstanceAs (Decidable (_ ∧ _ ∧ _ ∧ (_ → _)))
  | .called .., _ | .received .., _ | .replayed .., _ | .returned .., _
  | .sealed .., _ | .transmitted .., _ | .packetized .., _ | .acked .., _ | .newlyAcked .., _
  | .lost .., _ | .accepted .., _
  | .sendStateDropped .., _ | .creditData .., _ | .creditStream .., _
  | .frameSeen .., _ | .streamCreated .., _ | .streamHanded .., _
  | .datagramDelivered .., _ | .handshakeResumed, _ | .appended .., _
  | .closed .., _ =>
      inferInstanceAs (Decidable True)

instance : (e : Event) → (past : List Event) → Decidable (Timely e past)
  | .accepted _ _ _, _ => inferInstanceAs (Decidable ((_ ∧ _) ∨ (_ ∧ _)))
  | .called .., _ | .received .., _ | .replayed .., _ | .returned .., _
  | .sealed .., _ | .transmitted .., _ | .packetized .., _ | .acked .., _ | .newlyAcked .., _
  | .lost .., _
  | .streamSent .., _ | .sendStateDropped .., _ | .creditData .., _
  | .creditStream .., _ | .frameSeen .., _ | .streamCreated .., _
  | .streamHanded .., _ | .datagramDelivered .., _ | .handshakeResumed, _
  | .appended .., _ | .closed .., _ =>
      inferInstanceAs (Decidable True)

/-! ## Queue, offset and counter -/

/-- A stream's queue is what it accepted and has not sent, its offset is what it has
    sent, and so is its flow-control counter. -/
structure Ordered (d : SendSide) (events : List Event) (sid : Nat) : Prop where
  bytes : sentBytes sid events ++ d.streamSendQueues sid = acceptedBytes sid events
  offset : erased sid events = false → d.streamSendOffsets sid = (sentBytes sid events).length
  counter : d.streamDataSent sid = d.streamSendOffsets sid

/-- The streams of a connection that was never closed are in order; a closed
    connection has its close in the history. -/
structure Queued (l : Ledger) : Prop where
  ordered : NeverClosed l.trace → ∀ sid, Ordered l.send l.trace sid
  closed : l.state = .closed → ¬NeverClosed l.trace

variable {faulty : Prop} {config : Config} {l l' : Ledger}

/-- Events that are not about streams: accepted, sent or erased. -/
def unrelated : Event → Bool
  | .accepted _ _ _ | .streamSent _ _ _ _ | .sendStateDropped _ _ => false
  | _ => true

/-- Events that are not about streams change nothing about them. -/
theorem unrelated_append {later : List Event} (past : List Event) (sid : Nat)
    (hl : ∀ e ∈ later, unrelated e = true) :
    acceptedBytes sid (later ++ past) = acceptedBytes sid past
      ∧ sentBytes sid (later ++ past) = sentBytes sid past
      ∧ finSent sid (later ++ past) = finSent sid past
      ∧ erased sid (later ++ past) = erased sid past := by
  induction later with
  | nil => exact ⟨rfl, rfl, rfl, rfl⟩
  | cons e later ih =>
      have ih := ih (fun e' he' => hl e' (List.mem_cons_of_mem _ he'))
      have he := hl e List.mem_cons_self
      cases e with
      | accepted _ _ _ => exact nomatch he
      | streamSent _ _ _ _ => exact nomatch he
      | sendStateDropped _ _ => exact nomatch he
      | _ => exact ih

variable {d : SendSide}

/-- Order is kept by events that are not about streams. -/
theorem Ordered.aside {later past : List Event} {sid : Nat} (h : Ordered d past sid)
    (hl : ∀ e ∈ later, unrelated e = true) :
    Ordered d (later ++ past) sid := by
  obtain ⟨ha, hs, _, he⟩ := unrelated_append past sid hl
  refine ⟨?_, ?_, h.counter⟩
  · rw [hs, ha]
    exact h.bytes
  · rw [he, hs]
    exact h.offset

variable {past : List Event}

variable {fin : Bool}

/-- Accepted data goes to the end of the queue. -/
theorem Ordered.accept {sid : Nat} {data : Bytes} (h : ∀ sid, Ordered d past sid) (sid' : Nat) :
    Ordered (enqueue d sid data fin) (.accepted sid data fin :: past) sid' := by
  have hs := h sid'
  refine ⟨?_, hs.offset, hs.counter⟩
  by_cases heq : sid = sid'
  · subst heq
    simp only [enqueue, Function.update_self, acceptedBytes, ↓reduceIte, sentBytes]
    rw [← hs.bytes, List.append_assoc]
  · have hne : sid' ≠ sid := fun h => heq h.symm
    simp only [enqueue, Function.update_of_ne hne, acceptedBytes, heq, ↓reduceIte, sentBytes]
    exact hs.bytes

/-- Packetized data leaves the front of the queue. -/
theorem Ordered.packetize {sid len : Nat} (h : ∀ sid, Ordered d past sid)
    (hmay : MayPacketize d sid len fin) (sid' : Nat) :
    Ordered (packetize d sid len fin)
      (.streamSent sid (d.streamSendOffsets sid) ((d.streamSendQueues sid).take len) fin
        :: past) sid' := by
  have hs := h sid'
  by_cases heq : sid = sid'
  · subst heq
    refine ⟨?_, ?_, ?_⟩
    · simp only [QuicLedger.packetize, Function.update_self, sentBytes, ↓reduceIte, acceptedBytes]
      rw [List.append_assoc, List.take_append_drop, hs.bytes]
    · intro he
      simp only [QuicLedger.packetize, Function.update_self, sentBytes, ↓reduceIte,
        List.length_append, List.length_take, hs.offset he]
      have := hmay.queued
      omega
    · simp only [QuicLedger.packetize, Function.update_self, hs.counter]
  · have hne : sid' ≠ sid := fun h => heq h.symm
    refine ⟨?_, ?_, ?_⟩
    · simp only [QuicLedger.packetize, Function.update_of_ne hne, sentBytes, heq, ↓reduceIte,
        acceptedBytes]
      exact hs.bytes
    · simp only [QuicLedger.packetize, Function.update_of_ne hne, sentBytes, heq, ↓reduceIte, erased]
      exact hs.offset
    · simp only [QuicLedger.packetize, Function.update_of_ne hne, hs.counter]

/-- Erasing a drained stream. -/
theorem Ordered.drop {sid : Nat} (h : ∀ sid, Ordered d past sid) (hq : d.streamSendQueues sid = [])
    (sid' : Nat) :
    Ordered (erase d sid) (.sendStateDropped sid (d.streamSendOffsets sid) :: past) sid' := by
  have hs := h sid'
  by_cases heq : sid = sid'
  · subst heq
    refine ⟨?_, ?_, ?_⟩
    · simp only [erase, Function.update_self, sentBytes, acceptedBytes]
      rw [← hq]
      exact hs.bytes
    · intro he
      -- not erased: the offset was zero, and nothing had been sent
      simp only [erased, beq_self_eq_true, Bool.true_and, Bool.or_eq_false_iff, bne_eq_false_iff_eq]
        at he
      simp only [erase, Function.update_self, sentBytes]
      rw [← hs.offset he.2, he.1]
    · simp only [erase, Function.update_self]
  · have hne : sid' ≠ sid := fun h => heq h.symm
    have hbeq : (sid == sid') = false := by simpa using heq
    refine ⟨?_, ?_, ?_⟩
    · simp only [erase, Function.update_of_ne hne, sentBytes, acceptedBytes]
      exact hs.bytes
    · simp only [erase, Function.update_of_ne hne, sentBytes, erased, hbeq, Bool.false_and,
        Bool.false_or]
      exact hs.offset
    · simp only [erase, Function.update_of_ne hne, hs.counter]

/-- A step that adds events which are not about streams. -/
theorem Queued.aside (h : Queued l) (later : List Event) (hsend : l'.send = l.send)
    (htr : l'.trace = later ++ l.trace) (hl : ∀ e ∈ later, unrelated e = true)
    (hstate : l'.state = .closed → l.state = .closed) : Queued l' := by
  refine ⟨?_, ?_⟩
  · intro hn sid
    rw [htr] at hn
    rw [hsend, htr]
    exact (h.ordered hn.past sid).aside hl
  · intro hclosed hn
    rw [htr] at hn
    exact h.closed (hstate hclosed) hn.past

/-- A step that touches the streams, with its one event. -/
theorem Queued.touch {e : Event} (h : Queued l) (htr : l'.trace = e :: l.trace)
    (hstate : l'.state = l.state)
    (hord : (∀ sid, Ordered l.send l.trace sid) → ∀ sid, Ordered l'.send (e :: l.trace) sid) :
    Queued l' := by
  refine ⟨?_, ?_⟩
  · intro hn
    rw [htr] at hn ⊢
    exact hord (h.ordered hn.tail)
  · intro hclosed hn
    rw [htr] at hn
    exact h.closed (hstate ▸ hclosed) hn.tail

/-- Every step keeps the streams in order. -/
theorem Queued.step (h : Step faulty l l') (hl : Queued l) : Queued l' := by
  cases h with
  | accept sid data fin _ => exact hl.touch rfl rfl Ordered.accept
  | packetize sid len fin _ hmay =>
      exact hl.touch rfl rfl (fun hord => Ordered.packetize hord hmay)
  | drop sid hq _ => exact hl.touch rfl rfl (fun hord => Ordered.drop hord hq)
  | acceptClosed sid data fin hclosed =>
      exact ⟨fun hn => absurd hn (hl.closed hclosed), hl.closed⟩
  | clear hclosed => exact ⟨fun hn => absurd hn (hl.closed hclosed), hl.closed⟩
  | creditData v =>
      refine hl.touch rfl rfl (fun hord sid => ?_)
      exact ⟨(hord sid).bytes, (hord sid).offset, (hord sid).counter⟩
  | creditStream sid v =>
      refine hl.touch rfl rfl (fun hord sid => ?_)
      exact ⟨(hord sid).bytes, (hord sid).offset, (hord sid).counter⟩
  | lose sp lost _ _ => exact hl.aside _ rfl rfl (forall_lostEvents (fun _ _ => rfl)) id
  | deliver => exact hl.aside _ rfl rfl (forall_deliveredEvents (fun _ => rfl)) id
  | connect _ => exact ⟨hl.ordered, nofun⟩
  | _ => first
    | exact ⟨hl.ordered, hl.closed⟩
    | exact hl.aside [_] rfl rfl (by simp [unrelated]) id

/-- Whatever the machine does keeps the streams in order. -/
theorem Queued.next (h : (machine faulty config).next l l') (hl : Queued l) : Queued l' := by
  rcases h with (hstep | hclose) | hcall
  · exact hl.step hstep
  · cases hclose
    exact ⟨fun hn => absurd hn not_neverClosed, fun _ => not_neverClosed⟩
  · cases hcall <;> exact hl.aside [_] rfl rfl (by simp [unrelated]) id

/-- At first nothing is queued. -/
theorem queued_init (h : (machine faulty config).init l) : Queued l := by
  obtain ⟨r, rfl⟩ := h
  exact ⟨fun _ sid => ⟨rfl, fun _ => rfl, rfl⟩, nofun⟩

/-! ## Streams that have ended -/

/-- Once the FIN of a stream was sent or its state erased, nothing is queued. -/
def Ended (d : SendSide) (events : List Event) (sid : Nat) : Prop :=
  finSent sid events = true ∨ erased sid events = true →
    d.streamSendQueues sid = [] ∧ d.streamSendFin sid = false

/-- The run so far: writes were timely and the connection was not closed. -/
def Good (l : Ledger) : Prop := Always Timely l.trace ∧ NeverClosed l.trace

/-- A good run was good before. -/
theorem Good.before (h : (machine faulty config).next l l') (hg : Good l') : Good l := by
  obtain ⟨later, htr⟩ := next_trace h
  rw [Good, htr] at hg
  exact ⟨hg.1.past, hg.2.past⟩

/-- A timely write is not on a stream that has ended. -/
theorem Ended.accept {sid : Nat} {data : Bytes} (h : ∀ sid, Ended d past sid)
    (ht : Timely (.accepted sid data fin) past) (sid' : Nat) :
    Ended (enqueue d sid data fin) (.accepted sid data fin :: past) sid' := by
  intro hdone
  have hq := h sid' hdone
  by_cases heq : sid = sid'
  · subst heq
    rcases ht with ⟨rfl, rfl⟩ | ⟨hf, he⟩
    · simp [enqueue, hq]
    · rcases hdone with hdone | hdone
      · exact absurd (hf.symm.trans hdone) Bool.false_ne_true
      · exact absurd (he.symm.trans hdone) Bool.false_ne_true
  · have hne : sid' ≠ sid := fun h => heq h.symm
    simp only [enqueue, Function.update_of_ne hne]
    exact hq

/-- A stream that may be packetized has not ended. -/
theorem Ended.not_done {sid len : Nat} (h : Ended d past sid) (hmay : MayPacketize d sid len fin) :
    finSent sid past = false ∧ erased sid past = false := by
  by_contra hnot
  have hdone : finSent sid past = true ∨ erased sid past = true := by
    rcases Bool.eq_false_or_eq_true (finSent sid past) with hf | hf
    · exact Or.inl hf
    · rcases Bool.eq_false_or_eq_true (erased sid past) with he | he
      · exact Or.inr he
      · exact absurd ⟨hf, he⟩ hnot
  obtain ⟨hq, hfin⟩ := h hdone
  have hlen : len = 0 := by
    have := hmay.queued
    rw [hq] at this
    exact Nat.le_zero.mp this
  have hprogress := hmay.progress hlen
  rw [hmay.fin_eq, hfin, Bool.and_false] at hprogress
  exact Bool.false_ne_true hprogress

/-- The frame that carries the FIN empties the queue. -/
theorem Ended.packetize {sid len : Nat} (h : ∀ sid, Ended d past sid)
    (hmay : MayPacketize d sid len fin) (sid' : Nat) :
    Ended (packetize d sid len fin)
      (.streamSent sid (d.streamSendOffsets sid) ((d.streamSendQueues sid).take len) fin
        :: past) sid' := by
  intro hdone
  by_cases heq : sid = sid'
  · subst heq
    obtain ⟨hf, he⟩ := (h sid).not_done hmay
    have hfin : fin = true := by
      simpa [finSent, erased, hf, he] using hdone
    have hboth := hmay.fin_eq
    rw [hfin] at hboth
    have hlen : len = (d.streamSendQueues sid).length := by
      simpa using (Bool.and_eq_true_iff.mp hboth.symm).1
    simp [QuicLedger.packetize, hlen, hfin]
  · have hne : sid' ≠ sid := fun h => heq h.symm
    have hbeq : (sid == sid') = false := by simpa using heq
    simp only [finSent, hbeq, Bool.false_and, Bool.false_or, erased] at hdone
    simp only [QuicLedger.packetize, Function.update_of_ne hne]
    exact h sid' hdone

/-- An erased stream has nothing queued. -/
theorem Ended.drop {sid : Nat} (h : ∀ sid, Ended d past sid) (sid' : Nat) :
    Ended (erase d sid) (.sendStateDropped sid (d.streamSendOffsets sid) :: past) sid' := by
  intro hdone
  by_cases heq : sid = sid'
  · subst heq
    simp [erase]
  · have hne : sid' ≠ sid := fun h => heq h.symm
    have hbeq : (sid == sid') = false := by simpa using heq
    simp only [finSent, erased, hbeq, Bool.false_and, Bool.false_or] at hdone
    simp only [erase, Function.update_of_ne hne]
    exact h sid' hdone

/-! ## Runs -/

/-- The streams are in order, have obeyed the law, and the ended ones are empty. -/
structure Lawful (l : Ledger) : Prop where
  queued : Queued l
  ended : ∀ sid, Ended l.send l.trace sid
  law : Always SendLaw l.trace

/-- A packetized frame obeys the law. -/
theorem sendLaw_packetize {sid len : Nat} (ho : Ordered d past sid) (he : Ended d past sid)
    (hmay : MayPacketize d sid len fin) :
    SendLaw (.streamSent sid (d.streamSendOffsets sid) ((d.streamSendQueues sid).take len) fin)
      past := by
  obtain ⟨hf, hn⟩ := he.not_done hmay
  refine ⟨hf, ho.offset hn, ?_, ?_⟩
  · rw [← ho.bytes]
    exact (List.prefix_append_right_inj _).mpr (List.take_prefix _ _)
  · intro hfin
    rw [hmay.fin_eq] at hfin
    have hlen : len = (d.streamSendQueues sid).length := by
      simpa using (Bool.and_eq_true_iff.mp hfin).1
    rw [hlen, List.take_length, ho.bytes]

/-- A move that adds events which are not about streams. -/
theorem Lawful.aside (h : Lawful l) (later : List Event) (hq : Queued l')
    (hsend : l'.send = l.send) (htr : l'.trace = later ++ l.trace)
    (hl : ∀ e ∈ later, unrelated e = true) : Lawful l' := by
  refine ⟨hq, ?_, ?_⟩
  · intro sid
    obtain ⟨_, _, hf, he⟩ := unrelated_append l.trace sid hl
    rw [hsend, htr, Ended, hf, he]
    exact h.ended sid
  · rw [htr]
    clear htr hq
    induction later with
    | nil => exact h.law
    | cons e later ih =>
        refine ⟨?_, ih (fun e' he' => hl e' (List.mem_cons_of_mem _ he'))⟩
        have he := hl e List.mem_cons_self
        cases e with
        | streamSent _ _ _ _ => exact nomatch he
        | _ => trivial

/-- A step of a good run is lawful. -/
theorem Lawful.step (h : Step faulty l l') (hg : Good l') (hl : Lawful l) : Lawful l' := by
  have hq : Queued l' := hl.queued.step h
  cases h with
  | accept sid data fin _ =>
      exact ⟨hq, Ended.accept hl.ended hg.1.1, trivial, hl.law⟩
  | packetize sid len fin _ hmay =>
      have hord := hl.queued.ordered hg.2.tail sid
      exact ⟨hq, Ended.packetize hl.ended hmay, sendLaw_packetize hord (hl.ended sid) hmay, hl.law⟩
  | drop sid _ _ => exact ⟨hq, Ended.drop hl.ended, trivial, hl.law⟩
  | acceptClosed sid data fin hclosed => exact absurd hg.2 (hl.queued.closed hclosed)
  | clear hclosed => exact absurd hg.2 (hl.queued.closed hclosed)
  | creditData v => exact ⟨hq, hl.ended, trivial, hl.law⟩
  | creditStream sid v => exact ⟨hq, hl.ended, trivial, hl.law⟩
  | lose sp lost _ _ => exact hl.aside _ hq rfl rfl (forall_lostEvents (fun _ _ => rfl))
  | deliver => exact hl.aside _ hq rfl rfl (forall_deliveredEvents (fun _ => rfl))
  | _ => first
    | exact ⟨hq, hl.ended, hl.law⟩
    | exact hl.aside [_] hq rfl rfl (by simp [unrelated])

/-- Every reachable ledger of a good run is lawful. -/
theorem lawful_of_reachable (h : (machine faulty config).Reachable l) (hg : Good l) :
    Lawful l := by
  refine h.invariant_while (G := Good) (fun l l' hn => Good.before hn) ?_ ?_ hg
  · intro l hinit
    refine ⟨queued_init hinit, ?_, ?_⟩
    all_goals obtain ⟨r, rfl⟩ := hinit
    · rintro sid (h | h) <;> exact nomatch h
    · trivial
  · intro l l' hn hg hl
    have hq : Queued l' := hl.queued.next hn
    rcases hn with (hstep | hclose) | hcall
    · exact hl.step hstep hg
    · cases hclose
      exact absurd hg.2 not_neverClosed
    · cases hcall <;> exact hl.aside [_] hq rfl rfl (by simp [unrelated])

/-- On an open connection, as long as nothing is queued on a stream whose FIN was
    sent or whose send state was erased, the STREAM frames of every stream are
    contiguous from offset 0, carry the accepted bytes in order and end with at most
    one FIN. -/
theorem sendLaw_of_timely {K : Type} {env : Env K} {start : Start} {s : QuicConnection K}
    (h : Reachable env start s) (hopen : NeverClosed s.trace)
    (ht : Always Timely s.trace) : Always SendLaw s.trace :=
  (lawful_of_reachable (reachable_view env h) ⟨ht, hopen⟩).law

/-- Two writes on a stream, then its shutdown. -/
theorem sendLaw_of_timely_shutdown :
    let s := (sampleServer false).after (sampleEnv fun _ => {})
      [.createStream true, .writeOutbound 0 [97, 98] false, .writeOutbound 0 [99] false,
        .streamShutdown 0 true false]
    Event.streamSent 1 3 [] true ∈ s.trace ∧ Always SendLaw s.trace := by
  refine ⟨by decide, ?_⟩
  refine sendLaw_of_timely
    (Start.after_reachable (sampleEnv fun _ => {}) (sampleServer false) _) ?_ ?_
  · decide
  · decide

/-- `close_stream` after a write of three bytes: the send state is erased first, and
    the FIN then goes out at offset 0. -/
theorem closeStream_restarts_offset :
    let s := (sampleServer false).after (sampleEnv fun _ => {})
      [.createStream true, .writeOutbound 0 [97, 98, 99] false, .closeStream 1]
    NeverClosed s.trace ∧ Event.streamSent 1 0 [97, 98, 99] false ∈ s.trace
      ∧ Event.streamSent 1 0 [] true ∈ s.trace ∧ ¬Always SendLaw s.trace := by
  decide

end QuicStreamSend
