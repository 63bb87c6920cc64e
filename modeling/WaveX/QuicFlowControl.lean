import WaveX.QuicStreamSend

/-! # Send flow control

    The credit the peer has granted, read off the history: MAX_DATA for the
    connection, MAX_STREAM_DATA for the stream it names.

    The code keeps one `max_stream_data_` for all streams and erases the counter
    of a stream with its send state.  The connection's limit is kept on every run.
    A stream's own limit is kept as long as its frames are packetized while the
    shared limit is the stream's own and its counter was not erased, or while all
    it accepted fits its own limit (`sent_le_credit`); credit for one stream is
    otherwise spent on another (`credit_of_other_stream_spent`). -/

namespace QuicFlowControl

open History List
open QuicVarInt QuicFrames QuicPacket QuicCrypto QuicState QuicSend QuicReceive QuicRuns
open QuicLedger QuicSimulation QuicStreamSend

/-! ## Credit -/

/-- The STREAM bytes an event packetizes for the first time. -/
def streamBytes : Event → Nat
  | .streamSent _ _ data _ => data.length
  | _ => 0

/-- The credit of a MAX_DATA frame. -/
def dataGrant : Event → Option Nat
  | .creditData v => some v
  | _ => none

/-- The credit of a MAX_STREAM_DATA frame for one of the streams named. -/
def streamGrant (named : Nat → Bool) : Event → Option Nat
  | .creditStream sid v => if named sid then some v else none
  | _ => none

/-- What the peer lets the connection send: 1 MB or the largest MAX_DATA. -/
def connectionCredit (events : List Event) : Nat := largest dataGrant (1024 * 1024) events

/-- What the peer lets a stream send: 256 KB or the largest MAX_STREAM_DATA that
    names it. -/
def streamCredit (sid : Nat) (events : List Event) : Nat :=
  largest (streamGrant (· == sid)) (256 * 1024) events

/-- The largest MAX_STREAM_DATA of any stream. -/
def sharedCredit (events : List Event) : Nat :=
  largest (streamGrant fun _ => true) (256 * 1024) events

/-- A STREAM frame is packetized on a connection that was never closed, and either
    all the stream has accepted fits its own credit, or no other stream has been
    granted more and its counter was not erased. -/
def Covered : Event → List Event → Prop
  | .streamSent sid _ _ _, past =>
      NeverClosed past ∧ ((acceptedBytes sid past).length ≤ streamCredit sid past
        ∨ (sharedCredit past ≤ streamCredit sid past ∧ erased sid past = false))
  | _, _ => True

instance : (e : Event) → (past : List Event) → Decidable (Covered e past)
  | .streamSent _ _ _ _, _ => inferInstanceAs (Decidable (_ ∧ (_ ∨ (_ ∧ _))))
  | .called .., _ | .received .., _ | .replayed .., _ | .returned .., _
  | .sealed .., _ | .transmitted .., _ | .packetized .., _ | .acked .., _ | .newlyAcked .., _
  | .lost .., _ | .accepted .., _
  | .sendStateDropped .., _ | .creditData .., _ | .creditStream .., _
  | .frameSeen .., _ | .streamCreated .., _ | .streamHanded .., _
  | .datagramDelivered .., _ | .handshakeResumed, _ | .appended .., _
  | .closed .., _ =>
      inferInstanceAs (Decidable True)

/-! ## The connection's limit -/

/-- The counters and limits of the code are those of the history, and the
    connection's limit is kept. -/
structure Credited (l : Ledger) : Prop where
  dataSent : l.send.dataSent = total streamBytes l.trace
  maxData : l.send.maxData = connectionCredit l.trace
  maxStreamData : l.send.maxStreamData = sharedCredit l.trace
  within : l.send.dataSent ≤ l.send.maxData

variable {faulty : Prop} {config : Config} {l l' : Ledger}

/-- An event that neither packetizes nor grants anything. -/
def neutral (e : Event) : Prop :=
  streamBytes e = 0 ∧ dataGrant e = none ∧ ∀ named, streamGrant named e = none

/-- Neutral events change no counter and no limit. -/
theorem Credited.aside {later : List Event} (h : Credited l)
    (hsend : l'.send = l.send) (htr : l'.trace = later ++ l.trace)
    (hl : ∀ e ∈ later, neutral e) : Credited l' := by
  refine ⟨?_, ?_, ?_, ?_⟩
  · rw [hsend, htr, total_append_of_zero (fun e he => (hl e he).1)]
    exact h.dataSent
  · rw [hsend, htr, connectionCredit, largest_append_of_none (fun e he => (hl e he).2.1)]
    exact h.maxData
  · rw [hsend, htr, sharedCredit, largest_append_of_none (fun e he => (hl e he).2.2 _)]
    exact h.maxStreamData
  · rw [hsend]
    exact h.within

/-- Every step keeps the counters. -/
theorem Credited.step (h : Step faulty l l') (hc : Credited l) : Credited l' := by
  cases h with
  | packetize sid len fin _ hmay =>
      have hlen : ((l.send.streamSendQueues sid).take len).length = len := by
        rw [length_take]
        exact Nat.min_eq_left hmay.queued
      refine ⟨?_, hc.maxData, hc.maxStreamData, ?_⟩
      · simp only [packetize, total, streamBytes, hlen, hc.dataSent]
      · have hdata := hmay.data
        have hwithin := hc.within
        simp only [packetize]
        omega
  | creditData v =>
      refine ⟨hc.dataSent, ?_, hc.maxStreamData, ?_⟩
      · exact congrArg (max · v) hc.maxData
      · exact Nat.le_trans hc.within (Nat.le_max_left _ _)
  | creditStream sid v =>
      exact ⟨hc.dataSent, hc.maxData, congrArg (max · v) hc.maxStreamData, hc.within⟩
  | lose sp lost _ _ =>
      exact hc.aside rfl rfl (forall_lostEvents (fun _ _ => ⟨rfl, rfl, fun _ => rfl⟩))
  | deliver =>
      exact hc.aside rfl rfl (forall_deliveredEvents (fun _ => ⟨rfl, rfl, fun _ => rfl⟩))
  | _ => exact ⟨hc.dataSent, hc.maxData, hc.maxStreamData, hc.within⟩

/-- Whatever the machine does keeps the counters. -/
theorem Credited.next (h : (machine faulty config).next l l') (hc : Credited l) :
    Credited l' := by
  rcases h with (hstep | hclose) | hcall
  · exact hc.step hstep
  · cases hclose
    exact ⟨hc.dataSent, hc.maxData, hc.maxStreamData, hc.within⟩
  · cases hcall <;> exact ⟨hc.dataSent, hc.maxData, hc.maxStreamData, hc.within⟩

/-- At first nothing is sent. -/
theorem credited_init (h : (machine faulty config).init l) : Credited l := by
  obtain ⟨r, rfl⟩ := h
  exact ⟨rfl, rfl, rfl, Nat.zero_le _⟩

/-- The counters of every reachable ledger are right. -/
theorem credited_of_reachable (h : (machine faulty config).Reachable l) : Credited l :=
  h.invariant (fun _ => credited_init) (fun _ _ hn => Credited.next hn)

/-! ## The limit of a stream -/

/-- Every stream is within its own credit. -/
def StreamsWithin (events : List Event) : Prop :=
  ∀ sid, (sentBytes sid events).length ≤ streamCredit sid events

/-- Events that packetize nothing keep the streams within their credit. -/
theorem StreamsWithin.append {past : List Event} (h : StreamsWithin past)
    (later : List Event) (hl : ∀ e ∈ later, streamBytes e = 0) : StreamsWithin (later ++ past) := by
  intro sid
  have hsame : sentBytes sid (later ++ past) = sentBytes sid past := by
    induction later with
    | nil => rfl
    | cons e later ih =>
        have ih := ih (fun e' he' => hl e' (mem_cons_of_mem _ he'))
        have he := hl e mem_cons_self
        cases e with
        | streamSent sid' _ data _ =>
            have hempty : data = [] := length_eq_zero_iff.mp he
            simp only [cons_append, sentBytes, hempty, append_nil, ite_self]
            exact ih
        | _ => exact ih
  rw [hsame]
  exact Nat.le_trans (h sid) largest_le_append

/-- A covered frame keeps its stream within its credit. -/
theorem StreamsWithin.packetize {sid len : Nat} {fin : Bool} (h : StreamsWithin l.trace)
    (hq : Queued l) (hc : Credited l) (hmay : MayPacketize l.send sid len fin)
    (hcov : Covered (.streamSent sid (l.send.streamSendOffsets sid)
      ((l.send.streamSendQueues sid).take len) fin) l.trace) :
    StreamsWithin (.streamSent sid (l.send.streamSendOffsets sid)
      ((l.send.streamSendQueues sid).take len) fin :: l.trace) := by
  intro sid'
  by_cases heq : sid = sid'
  · subst heq
    have hord := hq.ordered hcov.1 sid
    have hbefore := h sid
    have hqueued := hmay.queued
    have hlen := congrArg List.length hord.bytes
    rw [length_append] at hlen
    show (sentBytes sid (_ :: l.trace)).length ≤ streamCredit sid l.trace
    simp only [sentBytes, ↓reduceIte, length_append, length_take]
    rcases hcov.2 with hfits | ⟨hshared, hkept⟩
    · -- what was accepted fits: so does the part of it that is sent
      omega
    · -- the code's limit is the stream's own, and its counter what was sent
      have hstream := hmay.streamData
      rw [hc.maxStreamData, hord.counter, hord.offset hkept] at hstream
      omega
  · show (sentBytes sid' (_ :: l.trace)).length ≤ streamCredit sid' l.trace
    rw [sentBytes, if_neg heq]
    exact h sid'

/-- Streams in order, counters right, every stream within its credit. -/
structure Within (l : Ledger) : Prop where
  queued : Queued l
  credited : Credited l
  streams : StreamsWithin l.trace

/-- A step whose frames are covered keeps every stream within its credit. -/
theorem StreamsWithin.step (h : Step faulty l l') (hg : Always Covered l'.trace)
    (hw : Within l) : StreamsWithin l'.trace := by
  cases h with
  | packetize sid len fin _ hmay =>
      exact hw.streams.packetize hw.queued hw.credited hmay hg.1
  | lose sp lost _ _ => exact hw.streams.append _ (forall_lostEvents (fun _ _ => rfl))
  | deliver => exact hw.streams.append _ (forall_deliveredEvents (fun _ => rfl))
  | _ => first
    | exact hw.streams
    | exact hw.streams.append [_] (by simp [streamBytes])

/-- Every reachable ledger of a covered run is within its credit. -/
theorem within_of_reachable (h : (machine faulty config).Reachable l)
    (hg : Always Covered l.trace) : Within l := by
  refine h.invariant_while (G := fun l => Always Covered l.trace) ?_ ?_ ?_ hg
  · intro l l' hn hg
    obtain ⟨later, htr⟩ := next_trace hn
    rw [htr] at hg
    exact hg.past
  · intro l hinit
    refine ⟨queued_init hinit, credited_init hinit, ?_⟩
    obtain ⟨r, rfl⟩ := hinit
    exact fun sid => Nat.zero_le _
  · intro l l' hn hg hw
    refine ⟨hw.queued.next hn, hw.credited.next hn, ?_⟩
    rcases hn with (hstep | hclose) | hcall
    · exact StreamsWithin.step hstep hg hw
    · cases hclose
      exact hw.streams.append [_] (by simp [streamBytes])
    · cases hcall <;> exact hw.streams.append [_] (by simp [streamBytes])

/-- In every run the connection stays within its credit, and in every run whose
    STREAM frames are covered so does every stream. -/
theorem sent_le_credit {K : Type} {env : Env K} {start : Start} {s : QuicConnection K}
    (h : Reachable env start s) :
    (Always Covered s.trace →
        ∀ sid, (sentBytes sid s.trace).length ≤ streamCredit sid s.trace)
      ∧ total streamBytes s.trace ≤ connectionCredit s.trace := by
  have hreach := reachable_view env h
  have hc := credited_of_reachable hreach
  refine ⟨fun hg => (within_of_reachable hreach hg).streams, ?_⟩
  have hwithin := hc.within
  rw [hc.dataSent, hc.maxData] at hwithin
  exact hwithin

/-- Writes on two streams of the server, with credit for one of them. -/
theorem sent_le_credit_two_streams :
    let s := (sampleServer false).after (sampleEnv fun _ => {})
      [.createStream true, .createStream true, .writeOutbound 0 [97, 98] false,
        .handleDatagram (samplePacket .oneRtt 0 (serializeFrame (.maxStreamData 1 300000))),
        .writeOutbound 1 [99] true]
    total streamBytes s.trace = 3 ∧ (sentBytes 5 s.trace).length ≤ streamCredit 5 s.trace := by
  refine ⟨by decide, ?_⟩
  refine (sent_le_credit
    (Start.after_reachable (sampleEnv fun _ => {}) (sampleServer false) _)).1 ?_ 5
  decide

/-! ## A write within the limits is sent at once -/

/-- Between two histories exactly `data` was sent on a stream, and no credit came. -/
def Carries (sid : Nat) (data : Bytes) (past events : List Event) : Prop :=
  sentBytes sid events = sentBytes sid past ++ data
    ∧ ∀ sid', streamCredit sid' events = streamCredit sid' past

variable {sid : Nat}

theorem Carries.trans {data data' : Bytes} {past mid events : List Event}
    (h : Carries sid data past mid) (h' : Carries sid data' mid events) :
    Carries sid (data ++ data') past events := by
  refine ⟨?_, fun sid' => (h'.2 sid').trans (h.2 sid')⟩
  rw [h'.1, h.1, append_assoc]

/-- Other events carry nothing. -/
theorem Carries.aside {past : List Event} (later : List Event)
    (h : ∀ e ∈ later, unrelated e = true ∧ neutral e) : Carries sid [] past (later ++ past) := by
  refine ⟨?_, fun sid' => ?_⟩
  · rw [append_nil]
    exact (unrelated_append _ sid (fun e he => (h e he).1)).2.1
  · exact largest_append_of_none (fun e he => (h e he).2.2.2 _)

/-- A frame carries its data. -/
theorem advanceStream_carries {K : Type} (s : QuicConnection K) (sf : StreamFrame) :
    Carries sf.streamId sf.data s.trace (advanceStream s sf).trace := by
  refine ⟨?_, fun _ => rfl⟩
  show sentBytes sf.streamId (_ :: s.trace) = _
  rw [sentBytes, if_pos rfl]

/-- Polling carries nothing. -/
theorem notifyOutbound_carries {K : Type} (env : Env K) (s : QuicConnection K) (sid : Nat) :
    Carries sid [] s.trace (notifyOutbound env s).trace := by
  obtain ⟨calls, pending, held, sent, returned, heq⟩ := notifyOutbound_spec env s
  rw [heq]
  refine Carries.aside (returned.map .returned) ?_
  simp [unrelated, neutral, streamBytes, dataGrant, streamGrant]

section Drain

variable {K : Type} {env : Env K} (hseal : ∀ k n a p, env.encrypt k n a p ≠ none)
include hseal

/-- When the cipher does not fail a packet is sent, and that carries nothing by
    itself. -/
theorem sendTracked_sent {s : QuicConnection K} {slot : KeySlot} (hdr : PacketHeader)
    (payload : Bytes) (frames : List Frame) (hv : (s.localKeys slot).valid = true) (sid : Nat) :
    (sendTracked env s slot hdr payload frames).2 = true
      ∧ Carries sid [] s.trace (sendTracked env s slot hdr payload frames).1.trace := by
  unfold sendTracked sealPacket
  cases hp : protectPacket env.toCryptoOps (s.localKeys slot) hdr payload with
  | none =>
      obtain ⟨k, n, a, p, henc⟩ := protectPacket_none env hp hv
      exact absurd henc (hseal k n a p)
  | some packet =>
      refine ⟨rfl, Carries.aside [.transmitted (spaceIndex hdr.type) hdr.packetNumber,
        .appended false,
        .packetized (spaceIndex hdr.type) hdr.packetNumber frames,
        .sealed slot (s.generation slot) hdr.packetNumber] ?_⟩
      simp [unrelated, neutral, streamBytes, dataGrant, streamGrant]

/-- One round of the inner loop that is not blocked: the next frame is sent. -/
theorem flushStreamLoop_round {slot : KeySlot} (fuel : Nat) (s : QuicConnection K)
    (hv : (s.localKeys slot).valid = true)
    (hsome : ¬((s.streamSendQueues sid).isEmpty && !s.streamSendFin sid) = true)
    (hcredit : ¬(decide (chunkLen s sid = 0) && !(s.streamSendQueues sid).isEmpty) = true) :
    ∃ s', flushStreamLoop env slot (fuel + 1) s sid
          = (if (nextStreamFrame s sid).data.length = 0 && (nextStreamFrame s sid).fin then s'
            else flushStreamLoop env slot fuel s' sid)
      ∧ Carries sid (nextStreamFrame s sid).data s.trace s'.trace
      ∧ s'.toSendSide = packetize s.toSendSide sid (nextStreamFrame s sid).data.length
          (nextStreamFrame s sid).fin
      ∧ s'.toKeys = s.toKeys := by
  obtain ⟨hok, hcarry⟩ := sendTracked_sent hseal (s := (s.allocateNextPn .oneRtt).2)
    (shortHeader (s.allocateNextPn .oneRtt).2 (s.allocateNextPn .oneRtt).1)
    (serializeFrame (.stream (nextStreamFrame s sid))) [.stream (nextStreamFrame s sid)] hv sid
  obtain ⟨⟨_, hkeys⟩, hside⟩ := sendTracked_frame env (s.allocateNextPn .oneRtt).2 slot
    (shortHeader (s.allocateNextPn .oneRtt).2 (s.allocateNextPn .oneRtt).1)
    (serializeFrame (.stream (nextStreamFrame s sid))) [.stream (nextStreamFrame s sid)]
  rcases hres : sendTracked env (s.allocateNextPn .oneRtt).2 slot
    (shortHeader (s.allocateNextPn .oneRtt).2 (s.allocateNextPn .oneRtt).1)
    (serializeFrame (.stream (nextStreamFrame s sid)))
    [.stream (nextStreamFrame s sid)] with ⟨s', ok⟩
  rw [hres] at hok hcarry hkeys hside
  simp only at hok
  subst hok
  refine ⟨advanceStream s' (nextStreamFrame s sid), ?_,
    hcarry.trans (advanceStream_carries s' (nextStreamFrame s sid)), ?_, hkeys⟩
  · rw [flushStreamLoop]
    simp only
    rw [if_neg hsome, if_neg hcredit, hres]
  · show packetize s'.toSendSide sid _ _ = _
    rw [hside]
    rfl

omit hseal in
/-- The next frame of a queue that fits both limits takes as much as a frame holds. -/
theorem nextStreamFrame_of_fits {s : QuicConnection K}
    (hdata : s.dataSent + (s.streamSendQueues sid).length ≤ s.maxData)
    (hstream : s.streamDataSent sid + (s.streamSendQueues sid).length ≤ s.maxStreamData) :
    chunkLen s sid = min (s.streamSendQueues sid).length 1150
      ∧ (nextStreamFrame s sid).data
        = (s.streamSendQueues sid).take (nextStreamFrame s sid).data.length
      ∧ (nextStreamFrame s sid).data.length = min (s.streamSendQueues sid).length 1150 := by
  have hchunk : chunkLen s sid = min (s.streamSendQueues sid).length 1150 := by
    unfold chunkLen kMaxStreamFramePayload
    omega
  have hlen : (nextStreamFrame s sid).data.length = min (s.streamSendQueues sid).length 1150 := by
    rw [nextStreamFrame, length_take, hchunk]
    omega
  refine ⟨hchunk, ?_, hlen⟩
  rw [hlen, nextStreamFrame, hchunk]

/-- The inner loop sends the whole queue when it fits both limits. -/
theorem flushStreamLoop_drains {slot : KeySlot} (fuel : Nat) (s : QuicConnection K)
    (hv : (s.localKeys slot).valid = true) (hfuel : (s.streamSendQueues sid).length < fuel)
    (hdata : s.dataSent + (s.streamSendQueues sid).length ≤ s.maxData)
    (hstream : s.streamDataSent sid + (s.streamSendQueues sid).length ≤ s.maxStreamData) :
    Carries sid (s.streamSendQueues sid) s.trace (flushStreamLoop env slot fuel s sid).trace := by
  induction fuel generalizing s with
  | zero => exact absurd hfuel (Nat.not_lt_zero _)
  | succ fuel ih =>
      by_cases hsome : ((s.streamSendQueues sid).isEmpty && !s.streamSendFin sid) = true
      · have hempty : s.streamSendQueues sid = [] :=
          List.isEmpty_iff.mp (Bool.and_eq_true_iff.mp hsome).1
        rw [flushStreamLoop]
        simp only
        rw [if_pos hsome, hempty]
        exact Carries.aside [] (by simp)
      · obtain ⟨hchunk, htake, hlen⟩ := nextStreamFrame_of_fits hdata hstream
        have hcredit :
            ¬(decide (chunkLen s sid = 0) && !(s.streamSendQueues sid).isEmpty) = true := by
          -- a queue within the limits is not blocked
          simp only [hchunk, Bool.and_eq_true, decide_eq_true_eq, Bool.not_eq_true',
            isEmpty_eq_false_iff, ← length_pos_iff]
          omega
        obtain ⟨s', heq, hcarry, hside, hkeys⟩ :=
          flushStreamLoop_round hseal fuel s hv hsome hcredit
        rw [heq]
        by_cases hlast : (decide ((nextStreamFrame s sid).data.length = 0)
            && (nextStreamFrame s sid).fin) = true
        · -- a lone FIN: the queue is empty
          rw [if_pos hlast]
          have hzero : (nextStreamFrame s sid).data.length = 0 := by
            simpa using (Bool.and_eq_true_iff.mp hlast).1
          have hempty : s.streamSendQueues sid = [] := length_eq_zero_iff.mp (by omega)
          rw [length_eq_zero_iff.mp hzero] at hcarry
          rw [hempty]
          exact hcarry
        · rw [if_neg hlast]
          have hpos : 0 < (nextStreamFrame s sid).data.length := by
            refine Nat.pos_of_ne_zero (fun hzero => hlast ?_)
            simpa [hzero] using (nextStreamFrame_may s sid hsome hcredit).progress hzero
          have hqueue : s'.streamSendQueues sid
              = (s.streamSendQueues sid).drop (nextStreamFrame s sid).data.length := by
            simp only [hside, packetize, Function.update_self]
          have hrest := ih s' ?_ ?_ ?_ ?_
          · have hall := hcarry.trans hrest
            rw [hqueue, htake, length_take, Nat.min_eq_left (by omega),
              take_append_drop] at hall
            exact hall
          · rw [← hv]
            cases slot <;> simp only [QuicConnection.localKeys, hkeys]
          · rw [hqueue, length_drop]
            omega
          · rw [hqueue, length_drop]
            simp only [hside, packetize]
            omega
          · rw [hqueue, length_drop]
            simp only [hside, packetize, Function.update_self]
            omega

/-- `queue_stream_data` sends its data at once when nothing else is queued and the
    data fits both limits. -/
theorem queueStreamData_drains {s : QuicConnection K} {slot : KeySlot} {data : Bytes}
    (hk : s.oneRttSendKeys = some slot) (hopen : s.state ≠ .closed)
    (hv : (s.localKeys slot).valid = true) (hids : s.sendQueueIds = [])
    (hempty : s.streamSendQueues sid = []) (hdata : s.dataSent + data.length ≤ s.maxData)
    (hstream : s.streamDataSent sid + data.length ≤ s.maxStreamData) :
    Carries sid data s.trace (queueStreamData env s sid data false).trace := by
  have haccept : enqueueStreamData s sid data false = QuicConnection.log { s with
      sendQueueIds := [sid]
      streamSendQueues := Function.update s.streamSendQueues sid data
      streamSendFin := Function.update s.streamSendFin sid (s.streamSendFin sid) }
        (.accepted sid data false) := by
    rw [enqueueStreamData, if_neg hopen, hids, hempty]
    simp
  have horder : env.iterationOrder [sid] = [sid] :=
    perm_singleton.mp (env.iterationOrder_perm [sid])
  rw [queueStreamData, haccept]
  generalize hs₁ : QuicConnection.log _ _ = s₁
  have hq : s₁.streamSendQueues sid = data := by
    rw [← hs₁]
    exact Function.update_self ..
  have hloop : Carries sid (s₁.streamSendQueues sid) s₁.trace
      (flushStreamLoop env slot (data.length + 1) s₁ sid).trace :=
    flushStreamLoop_drains hseal (data.length + 1) s₁ (by subst hs₁; exact hv) (by rw [hq]; omega)
      (by rw [hq]; subst hs₁; exact hdata) (by rw [hq]; subst hs₁; exact hstream)
  rw [hq] at hloop
  have hflush : Carries sid data s₁.trace (flushStreamSendQueues env s₁).trace := by
    have hk₁ : s₁.oneRttSendKeys = some slot := by subst hs₁; exact hk
    have hids₁ : s₁.sendQueueIds = [sid] := by subst hs₁; rfl
    rw [flushStreamSendQueues, if_neg (by subst hs₁; exact hopen), hk₁, hids₁]
    simp only
    rw [horder, foldl_cons, foldl_nil, flushStream, hq]
    split_ifs
    · exact hloop
    · exact hloop
  have hlogged : Carries sid [] s.trace s₁.trace := by
    subst hs₁
    exact ⟨(append_nil _).symm, fun _ => rfl⟩
  have hall := (hlogged.trans hflush).trans (notifyOutbound_carries env _ sid)
  rw [nil_append, append_nil] at hall
  exact hall

end Drain

/-- A stream of the server, and a MAX_STREAM_DATA of 300000 for a stream of the
    client. -/
def otherStreamCredit : List Op :=
  [.createStream true,
    .handleDatagram (samplePacket .oneRtt 0 (serializeFrame (.maxStreamData 0 300000)))]

/-- Whatever the server then writes on its stream is sent at once, up to 300000
    bytes. -/
theorem write_after_otherStreamCredit (data : Bytes) (h : data.length ≤ 300000) :
    let s := (sampleServer false).after (sampleEnv fun _ => {}) otherStreamCredit
    Carries 1 data s.trace ((sampleServer false).after (sampleEnv fun _ => {})
      (otherStreamCredit ++ [.writeOutbound 0 data false])).trace := by
  intro s
  have hwrite : (sampleServer false).after (sampleEnv fun _ => {})
      (otherStreamCredit ++ [.writeOutbound 0 data false])
      = queueStreamData (sampleEnv fun _ => {}) (s.log (.called false)) 1 data false := by
    have hhandle : 0 < (s.log (.called false)).nextHandle := by decide
    have hstream : ((s.log (.called false)).objects 0).streamId = 1 := by decide
    rw [Start.after_concat]
    show perform _ (s.log (.called false)) _ = _
    rw [perform, if_pos hhandle, writeOutbound, hstream]
    rfl
  have hkeys : (s.log (.called false)).oneRttSendKeys = some .initial := by decide
  rw [hwrite]
  show Carries 1 data (s.log (.called false)).trace _
  refine queueStreamData_drains (sampleEnv_encrypt _) hkeys (by decide) (by decide)
    (by decide) (by decide) ?_ ?_
  · have hlimits : (s.log (.called false)).dataSent = 0
        ∧ (s.log (.called false)).maxData = 1048576 := by decide
    rw [hlimits.1, hlimits.2]
    omega
  · have hlimits : (s.log (.called false)).streamDataSent 1 = 0
        ∧ (s.log (.called false)).maxStreamData = 300000 := by decide
    rw [hlimits.1, hlimits.2]
    omega

/-- After MAX_STREAM_DATA for stream 0, a write of 262145 bytes on stream 1 is sent
    whole, one byte over the initial 256 KB of that stream. -/
theorem credit_of_other_stream_spent :
    let s := (sampleServer false).after (sampleEnv fun _ => {})
      (otherStreamCredit ++ [.writeOutbound 0 (List.replicate 262145 0) false])
    ¬(sentBytes 1 s.trace).length ≤ streamCredit 1 s.trace := by
  intro s
  obtain ⟨hsent, hcredit⟩ := write_after_otherStreamCredit
    (List.replicate 262145 0) (by rw [length_replicate]; omega)
  have hbefore : (sentBytes 1 ((sampleServer false).after (sampleEnv fun _ => {})
      otherStreamCredit).trace).length = 0 := by decide
  have hown : streamCredit 1 ((sampleServer false).after (sampleEnv fun _ => {})
      otherStreamCredit).trace = 262144 := by decide
  have hlen : (sentBytes 1 s.trace).length = 0 + 262145 := by
    rw [hsent, length_append, length_replicate, hbefore]
  rw [hcredit, hown, hlen]
  omega

end QuicFlowControl
