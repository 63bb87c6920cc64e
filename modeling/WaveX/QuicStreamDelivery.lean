import WaveX.QuicRetransmission
import WaveX.QuicStreamFrames
import WaveX.QuicStreamReassembly
import WaveX.QuicStreamSend

/-! # From the queue of one end to the buffer of the other

    The bytes that an application queues on a stream, cut into STREAM frames by
    `flush_stream_send_queues`, sent again by `retransmit_frame` as often as
    `detect_lost_packets` or a probe timeout say, and put together by `push_inbound` at the
    peer.  The network may lose, repeat and reorder the packets: what the peer's stream has
    put together is always a prefix of what was queued, and its end is the end
    (`arrived_prefix`); once no packet holds a frame of the stream any more, everything that
    was sent is there (`acked_arrived`).

    The rules on the sending side are those of `sendLaw_of_timely`: the connection was not
    closed, and nothing is queued behind the FIN or on an erased stream. -/

namespace QuicStreamDelivery

open History Reassembly List
open QuicVarInt QuicFrames QuicPacket QuicState QuicRuns QuicLedger QuicSimulation
open QuicStreamSend QuicStreamFrames QuicStreamReassembly QuicReceiveState QuicRetransmission

/-! ## What was sent, in the history -/

section Sent

variable {sid : Nat} {e : Event} {events past : List Event}

/-- The bytes sent only grow. -/
theorem sentBytes_grows (sid : Nat) (e : Event) (past : List Event) :
    sentBytes sid past <+: sentBytes sid (e :: past) := by
  cases e with
  | streamSent sid' offset data fin =>
    rw [sentBytes]
    split
    · exact prefix_append _ _
    · exact prefix_rfl
  | _ => exact prefix_rfl

/-- The bytes accepted only grow. -/
theorem acceptedBytes_grows (sid : Nat) (e : Event) (past : List Event) :
    acceptedBytes sid past <+: acceptedBytes sid (e :: past) := by
  cases e with
  | accepted sid' data fin =>
    rw [acceptedBytes]
    split
    · exact prefix_append _ _
    · exact prefix_rfl
  | _ => exact prefix_rfl

/-- What was sent was accepted before. -/
theorem sent_prefix_accepted (hlaw : Always SendLaw events) (sid : Nat) :
    sentBytes sid events <+: acceptedBytes sid events := by
  induction events with
  | nil => exact prefix_rfl
  | cons e past ih =>
    have hold := (ih hlaw.2).trans (acceptedBytes_grows sid e past)
    cases e with
    | streamSent sid' offset data fin =>
      rw [sentBytes]
      split
      next heq =>
        subst heq
        exact hlaw.1.2.2.1
      · exact ih hlaw.2
    | _ => exact hold

/-- Each frame carries the bytes of its place. -/
theorem sent_piece (hlaw : Always SendLaw events) {offset : Nat} {data : Bytes} {fin : Bool}
    (hs : .streamSent sid offset data fin ∈ events) :
    PieceOf (sentBytes sid events) (offset, data) := by
  induction events with
  | nil => exact absurd hs not_mem_nil
  | cons e past ih =>
    rcases mem_cons.mp hs with rfl | hold
    · obtain ⟨-, hoffset, -, -⟩ := hlaw.1
      rw [sentBytes, if_pos rfl]
      refine ⟨?_, ?_⟩
      · rw [length_append, hoffset]
      · rw [hoffset, drop_left, take_length]
    · exact (ih hlaw.2 hold).mono (sentBytes_grows sid e past)

/-- Each byte that was sent is in a frame. -/
theorem sent_covers (hlaw : Always SendLaw events) {i : Nat}
    (hi : i < (sentBytes sid events).length) :
    ∃ offset data fin, .streamSent sid offset data fin ∈ events ∧ inside (offset, data) i := by
  induction events with
  | nil => exact absurd hi (Nat.not_lt_zero i)
  | cons e past ih =>
    by_cases hold : i < (sentBytes sid past).length
    · obtain ⟨offset, data, fin, hs, hin⟩ := ih hlaw.2 hold
      exact ⟨offset, data, fin, mem_cons_of_mem _ hs, hin⟩
    · cases e with
      | streamSent sid' offset data fin =>
        rw [sentBytes] at hi
        split at hi
        next heq =>
          subst heq
          obtain ⟨-, hoffset, -, -⟩ := hlaw.1
          refine ⟨offset, data, fin, mem_cons_self, ?_⟩
          rw [length_append] at hi
          exact ⟨by rw [hoffset]; omega, by rw [hoffset]; exact hi⟩
        · exact absurd hi hold
      | _ => exact absurd hi hold

theorem finSent_of_mem {offset : Nat} {data : Bytes}
    (hs : .streamSent sid offset data true ∈ events) : finSent sid events = true := by
  induction events with
  | nil => exact absurd hs not_mem_nil
  | cons e past ih =>
    rcases mem_cons.mp hs with rfl | hold
    · simp [finSent]
    · have hpast := ih hold
      cases e with
      | streamSent sid' offset' data' fin' =>
        rw [finSent, hpast, Bool.or_true]
      | _ => exact hpast

theorem mem_of_finSent (hfin : finSent sid events = true) :
    ∃ offset data, .streamSent sid offset data true ∈ events := by
  induction events with
  | nil => exact absurd hfin Bool.false_ne_true
  | cons e past ih =>
    have hold (hpast : finSent sid past = true) :
        ∃ offset data, .streamSent sid offset data true ∈ e :: past := by
      obtain ⟨offset, data, hs⟩ := ih hpast
      exact ⟨offset, data, mem_cons_of_mem _ hs⟩
    cases e with
    | streamSent sid' offset data fin =>
      rw [finSent, Bool.or_eq_true, Bool.and_eq_true] at hfin
      rcases hfin with ⟨hsid, rfl⟩ | hpast
      · rw [eq_of_beq hsid]
        exact ⟨offset, data, mem_cons_self⟩
      · exact hold hpast
    | _ => exact hold hfin

/-- With the FIN everything that is ever accepted was sent. -/
theorem sent_all_of_fin (hlaw : Always SendLaw events) (htime : Always Timely events)
    (hfin : finSent sid events = true) : sentBytes sid events = acceptedBytes sid events := by
  induction events with
  | nil => exact absurd hfin Bool.false_ne_true
  | cons e past ih =>
    cases e with
    | streamSent sid' offset data fin =>
      rw [sentBytes]
      rw [finSent] at hfin
      split
      next heq =>
        subst heq
        obtain ⟨hnew, -, -, hall⟩ := hlaw.1
        rw [hnew, beq_self_eq_true, Bool.true_and, Bool.or_false] at hfin
        exact hall hfin
      next hne =>
        rw [beq_eq_false_iff_ne.mpr hne, Bool.false_and, Bool.false_or] at hfin
        exact ih hlaw.2 htime.2 hfin
    | accepted sid' data fin =>
      have hpast := ih hlaw.2 htime.2 hfin
      rw [acceptedBytes]
      split
      next heq =>
        subst heq
        rcases htime.1 with ⟨rfl, -⟩ | ⟨hnone, -⟩
        · rw [append_nil]
          exact hpast
        · exact absurd (hnone.symm.trans hfin) Bool.false_ne_true
      · exact hpast
    | _ => exact ih hlaw.2 htime.2 hfin

/-- The FIN is at the end of what was sent. -/
theorem sent_end (hlaw : Always SendLaw events) {offset : Nat} {data : Bytes}
    (hs : .streamSent sid offset data true ∈ events) :
    offset + data.length = (sentBytes sid events).length := by
  induction events with
  | nil => exact absurd hs not_mem_nil
  | cons e past ih =>
    rcases mem_cons.mp hs with rfl | hold
    · obtain ⟨-, hoffset, -, -⟩ := hlaw.1
      rw [sentBytes, if_pos rfl, length_append, hoffset]
    · have hpast := ih hlaw.2 hold
      cases e with
      | streamSent sid' offset' data' fin' =>
        rw [sentBytes]
        split
        next heq =>
          -- nothing is sent behind a FIN
          subst heq
          exact absurd (hlaw.1.1.symm.trans (finSent_of_mem hold)) Bool.false_ne_true
        · exact hpast
      | _ => exact hpast

end Sent

/-! ## What arrives -/

/-- A STREAM frame as `push_inbound` gets it. -/
def arriving (sf : StreamFrame) : InFrame := ⟨sf.offset, sf.data, sf.fin⟩

/-- The peer's stream after these frames. -/
def arrivedStream (sid : Nat) (arrived : List StreamFrame) : QuicStream :=
  received (fresh sid) (arrived.map arriving)

section Arrived

variable {K : Type} {env : Env K} {start : Start} {s : QuicConnection K} {sid : Nat}
  {arrived : List StreamFrame}

/-- A packet's STREAM frame is a frame of what was sent, and its FIN is the end of what was
    accepted. -/
theorem frame_of_packetized (h : Original s) (hlaw : Always SendLaw s.trace)
    {sf : StreamFrame} (hsf : Packetized s.trace sf)
    (hsid : sf.streamId = sid) : FrameOf (sentBytes sid s.trace) (arriving sf) := by
  obtain ⟨sp, pn, frames, hbuilt, hf⟩ := hsf
  have hfirst : .streamSent sf.streamId sf.offset sf.data sf.fin ∈ s.trace :=
    h.built sp pn frames hbuilt _ hf
  rw [hsid] at hfirst
  have hpiece := sent_piece hlaw hfirst
  refine ⟨hpiece, ?_⟩
  intro hfin
  rw [show sf.fin = true from hfin] at hfirst
  exact sent_end hlaw hfirst

/-- What the peer's stream has put together. -/
theorem arrived_assembled (h : Reachable env start s) (hopen : NeverClosed s.trace)
    (htime : Always Timely s.trace)
    (hsent : ∀ sf ∈ arrived, Packetized s.trace sf ∧ sf.streamId = sid)
    (hfit : AllFit (fresh sid) (arrived.map arriving)) :
    Assembled (sentBytes sid s.trace) (arrived.map arriving) (arrivedStream sid arrived) := by
  have hlaw := (lawful_of_reachable (reachable_view env h) ⟨htime, hopen⟩).law
  have hall : ∀ f ∈ arrived.map arriving, FrameOf (sentBytes sid s.trace) f := by
    intro f hf
    obtain ⟨sf, hsf, rfl⟩ := mem_map.mp hf
    obtain ⟨hpkt, hsid⟩ := hsent sf hsf
    exact frame_of_packetized (original_of_reachable h) hlaw hpkt hsid
  exact received_assembled (fresh_assembled _ sid) hall hfit

/-- An end that was seen was sent. -/
theorem arrived_fin (h : Original s)
    (hsent : ∀ sf ∈ arrived, Packetized s.trace sf ∧ sf.streamId = sid)
    (hfin : ∃ f ∈ arrived.map arriving, f.fin = true) : finSent sid s.trace = true := by
  obtain ⟨f, hf, hend⟩ := hfin
  obtain ⟨sf, hsf, rfl⟩ := mem_map.mp hf
  obtain ⟨⟨sp, pn, frames, hbuilt, hin⟩, hsid⟩ := hsent sf hsf
  have hfirst : .streamSent sf.streamId sf.offset sf.data sf.fin ∈ s.trace :=
    h.built sp pn frames hbuilt _ hin
  rw [hsid, show sf.fin = true from hend] at hfirst
  exact finSent_of_mem hfirst

/-- Frames that arrive in any order, as often as the network likes and not all of them: the
    peer's stream holds a prefix of what was queued on the stream, and when it has seen the
    end it holds all of it. -/
theorem arrived_prefix (h : Reachable env start s) (hopen : NeverClosed s.trace)
    (htime : Always Timely s.trace)
    (hsent : ∀ sf ∈ arrived, Packetized s.trace sf ∧ sf.streamId = sid)
    (hfit : AllFit (fresh sid) (arrived.map arriving)) :
    (arrivedStream sid arrived).inBuffer <+: sentBytes sid s.trace ∧
      sentBytes sid s.trace <+: acceptedBytes sid s.trace ∧
      ((arrivedStream sid arrived).finReceived = true →
        finSent sid s.trace = true ∧
          (arrivedStream sid arrived).inBuffer = acceptedBytes sid s.trace) := by
  have hlaw := (lawful_of_reachable (reachable_view env h) ⟨htime, hopen⟩).law
  have hst := arrived_assembled h hopen htime hsent hfit
  refine ⟨?_, sent_prefix_accepted hlaw sid, ?_⟩
  · rw [hst.buffer]
    exact take_prefix _ _
  · intro hfin
    obtain ⟨hend, hall⟩ := hst.fin.mp hfin
    have hdone := arrived_fin (original_of_reachable h) hsent hend
    refine ⟨hdone, ?_⟩
    rw [hst.buffer, hall, take_length]
    exact sent_all_of_fin hlaw htime hdone

/-- Without a frame held for the stream, each frame sent for the first time was
    acknowledged in some packet. -/
theorem sent_acked (hseal : ∀ k n a p, env.encrypt k n a p ≠ none) (h : Reachable env start s)
    (hnone : ∀ sf, sf.streamId = sid → ¬ Held s.sentPackets (.stream sf)) {offset : Nat}
    {data : Bytes} {fin : Bool} (hs : .streamSent sid offset data fin ∈ s.trace) :
    ∃ sf, sf.streamId = sid ∧ arriving sf = ⟨offset, data, fin⟩ ∧
      Acked s.trace (.stream sf) := by
  have hok : ¬Faulty env := by
    rintro ⟨k, n, a, p, henc⟩
    exact hseal k n a p henc
  obtain ⟨sf, ⟨sp, pn, frames, hbuilt, hin⟩, hfirst⟩ :=
    (original_of_reachable h).sent sid offset data fin hs
  rw [firstOf, Event.streamSent.injEq] at hfirst
  obtain ⟨hsid, hoffset, hdata, hfin⟩ := hfirst
  refine ⟨sf, hsid, by rw [arriving, hoffset, hdata, hfin], ?_⟩
  rcases (conserved_of_reachable hok (reachable_view env h)).covered sp pn frames _ hbuilt hin rfl
    with hacked | hheld | ⟨type, hhand⟩
  · exact hacked
  · exact absurd hheld (hnone sf hsid)
  · exact absurd hhand not_mem_nil

/-- Once the peer has read what it acknowledged and no packet holds a frame of the stream,
    everything that was sent is there, and everything that was queued when the queue is
    empty. -/
theorem acked_arrived (hseal : ∀ k n a p, env.encrypt k n a p ≠ none)
    (h : Reachable env start s) (hopen : NeverClosed s.trace) (htime : Always Timely s.trace)
    (hsent : ∀ sf ∈ arrived, Packetized s.trace sf ∧ sf.streamId = sid)
    (hfit : AllFit (fresh sid) (arrived.map arriving))
    (hread : ∀ sf, sf.streamId = sid → Acked s.trace (.stream sf) → sf ∈ arrived)
    (hnone : ∀ sf, sf.streamId = sid → ¬ Held s.sentPackets (.stream sf)) :
    (arrivedStream sid arrived).inBuffer = sentBytes sid s.trace ∧
      (arrivedStream sid arrived).finReceived = finSent sid s.trace ∧
      (s.streamSendQueues sid = [] →
        (arrivedStream sid arrived).inBuffer = acceptedBytes sid s.trace) := by
  have hlawful := lawful_of_reachable (reachable_view env h) ⟨htime, hopen⟩
  have hst := arrived_assembled h hopen htime hsent hfit
  have hin {offset : Nat} {data : Bytes} {fin : Bool}
      (hs : .streamSent sid offset data fin ∈ s.trace) :
      (⟨offset, data, fin⟩ : InFrame) ∈ arrived.map arriving := by
    obtain ⟨sf, hsid, heq, hacked⟩ := sent_acked hseal h hnone hs
    exact heq ▸ mem_map_of_mem (hread sf hsid hacked)
  -- the frames cover all of it, so the stream has come to the end of it
  have hend : (arrivedStream sid arrived).recvOffset = (sentBytes sid s.trace).length := by
    refine Nat.le_antisymm hst.bounded (Nat.le_of_not_lt fun hlt => ?_)
    obtain ⟨offset, data, fin, hs, hinside⟩ := sent_covers hlawful.law hlt
    refine (frontier_of_covered hst.covered hst.ahead).2 ⟨(offset, data), ?_, hinside⟩
    exact mem_map_of_mem (f := fun f : InFrame => (f.offset, f.data)) (hin hs)
  have hbuffer : (arrivedStream sid arrived).inBuffer = sentBytes sid s.trace := by
    rw [hst.buffer, hend, take_length]
  refine ⟨hbuffer, ?_, ?_⟩
  · rw [Bool.eq_iff_iff, hst.fin]
    constructor
    · rintro ⟨hseen, -⟩
      exact arrived_fin (original_of_reachable h) hsent hseen
    · intro hfin
      obtain ⟨offset, data, hs⟩ := mem_of_finSent hfin
      exact ⟨⟨_, hin hs, rfl⟩, hend⟩
  · intro hempty
    have hbytes := (hlawful.queued.ordered hopen sid).bytes
    rw [show (view s).send.streamSendQueues sid = [] from hempty, append_nil] at hbytes
    exact hbuffer.trans hbytes

end Arrived

/-! ## A run -/

/-- Two writes on a stream, then its shutdown. -/
def sampleShutdown : List Op :=
  [.createStream true, .writeOutbound 0 [97, 98] false, .writeOutbound 0 [99] false,
    .streamShutdown 0 true false]

/-- The peer acknowledges all three packets. -/
def sampleAckAll : Op :=
  .handleDatagram (samplePacket .oneRtt 0 (serializeFrame (.ack ⟨[⟨0, 2⟩], 2, 0, false⟩)))

/-- The sender after these calls. -/
def sampleSent (ops : List Op) : QuicConnection Unit :=
  (sampleServer false).after (sampleEnv fun _ => {}) ops

/-- The frames of the three packets, the last first and the second twice. -/
def sampleArrived : List StreamFrame :=
  [⟨[], 1, 3, true, true, true⟩, ⟨[99], 1, 2, false, true, true⟩,
    ⟨[97, 98], 1, 0, false, false, true⟩, ⟨[99], 1, 2, false, true, true⟩]

/-- The last frame arrives first, the second one not at all. -/
theorem arrived_prefix_reordered :
    (arrivedStream 1 [⟨[], 1, 3, true, true, true⟩, ⟨[97, 98], 1, 0, false, false, true⟩]).inBuffer
        <+: sentBytes 1 (sampleSent sampleShutdown).trace ∧
      sentBytes 1 (sampleSent sampleShutdown).trace <+:
        acceptedBytes 1 (sampleSent sampleShutdown).trace := by
  have hsent : ∀ sf ∈ [(⟨[], 1, 3, true, true, true⟩ : StreamFrame),
      ⟨[97, 98], 1, 0, false, false, true⟩],
      sf ∈ packetizedStreams (sampleSent sampleShutdown).trace ∧ sf.streamId = 1 := by decide
  obtain ⟨hbuffer, haccepted, -⟩ := arrived_prefix
    (Start.after_reachable (sampleEnv fun _ => {}) (sampleServer false) sampleShutdown)
    (by decide) (by decide)
    (fun sf hsf => ⟨mem_packetizedStreams.mp (hsent sf hsf).1, (hsent sf hsf).2⟩)
    ⟨.inr (by decide), .inl (by decide), trivial⟩
  exact ⟨hbuffer, haccepted⟩

/-- All three frames arrive and are acknowledged. -/
theorem acked_arrived_shutdown :
    (arrivedStream 1 sampleArrived).inBuffer =
        acceptedBytes 1 (sampleSent (sampleShutdown ++ [sampleAckAll])).trace ∧
      (arrivedStream 1 sampleArrived).finReceived =
        finSent 1 (sampleSent (sampleShutdown ++ [sampleAckAll])).trace := by
  have hsent : ∀ sf ∈ sampleArrived,
      sf ∈ packetizedStreams (sampleSent (sampleShutdown ++ [sampleAckAll])).trace ∧
        sf.streamId = 1 := by decide
  have hread : ∀ sf ∈ packetizedStreams (sampleSent (sampleShutdown ++ [sampleAckAll])).trace,
      sf ∈ sampleArrived := by decide
  have hnone : ∀ sp, (sampleSent (sampleShutdown ++ [sampleAckAll])).sentPackets sp = [] := by
    intro sp
    cases sp <;> decide
  obtain ⟨-, hfin, hall⟩ := acked_arrived (sampleEnv_encrypt _)
    (Start.after_reachable (sampleEnv fun _ => {}) (sampleServer false)
      (sampleShutdown ++ [sampleAckAll]))
    (by decide) (by decide)
    (fun sf hsf => ⟨mem_packetizedStreams.mp (hsent sf hsf).1, (hsent sf hsf).2⟩)
    ⟨.inr (by decide), .inr (by decide), .inl (by decide), .inl (by decide), trivial⟩
    (by
      rintro sf - ⟨sp, pn, frames, ranges, hbuilt, hf, -⟩
      exact hread sf (mem_packetizedStreams.mpr ⟨sp, pn, frames, hbuilt, hf⟩))
    (by
      rintro sf - ⟨sp, p, hp, -⟩
      have hp' : p ∈ (sampleSent (sampleShutdown ++ [sampleAckAll])).sentPackets sp := hp
      rw [hnone sp] at hp'
      exact absurd hp' not_mem_nil)
  exact ⟨hall (by decide), hfin⟩

end QuicStreamDelivery
