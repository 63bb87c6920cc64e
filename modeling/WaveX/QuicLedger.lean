import WaveX.History
import WaveX.QuicReceive

/-! # The ledger: what a connection may do

    An abstract machine for `QuicConnection`.  Its state keeps only what the
    safety properties speak about: packets in flight, packet numbers, the send
    side of the streams, the peer's stream ids, the amplification budget, the
    pending acknowledgements and payloads, and the history.  Keys, buffers, TLS
    and the wire format are gone.

    A step says what one action does and when it may happen.  The conditions are
    the ones the code checks; everything the properties need of the code is in
    them, so every invariant is an induction over these steps.  That the code's
    model only takes such steps is proved in `QuicSendSimulation` and
    `QuicReceiveSimulation`.

    `inHand` holds the frames that loss detection or a probe timeout has taken out
    of `sent_packets_` and not yet sent again; it is empty between calls. -/

namespace QuicLedger

open QuicVarInt QuicFrames QuicPacket CongestionControl QuicState QuicSend QuicReceive List

/-- The state of the abstract machine. -/
structure Ledger where
  config : Config
  /-- Whether `retransmit_frame` has the keys to send a frame of a packet type
      again. -/
  resends : Frame → PacketType → Bool
  bytesInFlight : Nat := 0
  sentPackets : PnSpace → List SentPacket := fun _ => []
  inHand : List (Frame × PacketType) := []
  nextPacketNumber : PnSpace → Nat := fun _ => 0
  /-- The largest number acknowledged in a space, once there is one. -/
  largestAcked : PnSpace → Option Nat := fun _ => none
  send : SendSide := {}
  unseen : List Nat := []
  mark : Bool → Nat := fun _ => 0
  received : Nat := 0
  sent : Nat := 0
  validated : Bool := false
  ackDue : Bool := false
  datagrams : List Bytes := []
  state : ConnectionState := .initial
  trace : List Event := []

/-- Add an event to the history. -/
def Ledger.log (l : Ledger) (e : Event) : Ledger := { l with trace := e :: l.trace }

/-- Use up the next packet number of a space. -/
def Ledger.bump (l : Ledger) (sp : PnSpace) : Ledger :=
  { l with
    nextPacketNumber := Function.update l.nextPacketNumber sp (l.nextPacketNumber sp + 1) }

/-! ## What the history says about a closed connection -/

/-- Events after which a closed connection may still act: a STREAM, DATAGRAM or
    ACK frame reached, the handshake going on, a call that hands out a stream. -/
def risky : Event → Bool
  | .frameSeen (.stream _) | .frameSeen (.datagram _) | .frameSeen (.ack _) => true
  | .handshakeResumed => true
  | .called hands => hands
  | _ => false

/-- `terminate` has run. -/
def isClosed : Event → Bool
  | .closed _ _ => true
  | _ => false

/-- The connection was never closed. -/
def NeverClosed (events : List Event) : Prop := ∀ e ∈ events, isClosed e = false

instance (events : List Event) : Decidable (NeverClosed events) :=
  inferInstanceAs (Decidable (∀ e ∈ events, isClosed e = false))

theorem NeverClosed.past {later events : List Event} (h : NeverClosed (later ++ events)) :
    NeverClosed events :=
  fun e he => h e (mem_append_right _ he)

theorem NeverClosed.tail {e : Event} {events : List Event} (h : NeverClosed (e :: events)) :
    NeverClosed events :=
  fun e' he => h e' (mem_cons_of_mem _ he)

theorem NeverClosed.cons {e : Event} {events : List Event} (h : NeverClosed events)
    (he : isClosed e = false) : NeverClosed (e :: events) :=
  forall_mem_cons.mpr ⟨he, h⟩

theorem not_neverClosed {due waiting : Bool} {past : List Event} :
    ¬NeverClosed (.closed due waiting :: past) :=
  fun h => nomatch h _ mem_cons_self

/-- A risky event since the connection was last closed. -/
def exposed : List Event → Bool
  | [] => false
  | e :: past => if isClosed e then false else risky e || exposed past

/-- A peer stream has been created since the call in progress began. -/
def newStreams : List Event → Bool
  | [] => false
  | .called _ :: _ => false
  | .streamCreated _ true :: _ => true
  | _ :: past => newStreams past

/-- The connection is not closed, or a risky event came after the close. -/
def Ledger.Open (l : Ledger) : Prop := l.state ≠ .closed ∨ exposed l.trace = true

/-! ## The send side -/

/-- A frame that has to reach the peer: CRYPTO, STREAM or HANDSHAKE_DONE. -/
def mustArrive : Frame → Bool
  | .crypto _ | .stream _ | .handshakeDone => true
  | _ => false

/-- The bytes of a list of packets. -/
def sumBytes (pkts : List SentPacket) : Nat := (pkts.map SentPacket.bytesSent).sum

/-- The send side after `len` bytes of a stream have been packetized. -/
def packetize (d : SendSide) (sid len : Nat) (fin : Bool) : SendSide :=
  { d with
    streamSendOffsets :=
      Function.update d.streamSendOffsets sid (d.streamSendOffsets sid + len)
    dataSent := d.dataSent + len
    streamDataSent := Function.update d.streamDataSent sid (d.streamDataSent sid + len)
    streamSendQueues :=
      Function.update d.streamSendQueues sid ((d.streamSendQueues sid).drop len)
    streamSendFin := Function.update d.streamSendFin sid (d.streamSendFin sid && !fin) }

/-- When `len` bytes of a stream may be packetized: within the queue and both
    credits, FIN exactly with the end of the queue, never an empty frame without
    FIN. -/
structure MayPacketize (d : SendSide) (sid len : Nat) (fin : Bool) : Prop where
  queued : len ≤ (d.streamSendQueues sid).length
  data : len ≤ d.maxData - d.dataSent
  streamData : len ≤ d.maxStreamData - d.streamDataSent sid
  fin_eq : fin = (decide (len = (d.streamSendQueues sid).length) && d.streamSendFin sid)
  progress : len = 0 → fin = true

/-- The send side after data and FIN have been queued. -/
def enqueue (d : SendSide) (sid : Nat) (data : Bytes) (fin : Bool) : SendSide :=
  { d with
    sendQueueIds := if sid ∈ d.sendQueueIds then d.sendQueueIds else d.sendQueueIds ++ [sid]
    streamSendQueues :=
      Function.update d.streamSendQueues sid (d.streamSendQueues sid ++ data)
    streamSendFin := Function.update d.streamSendFin sid (d.streamSendFin sid || fin) }

/-- The send side after the state of one stream has been erased. -/
def erase (d : SendSide) (sid : Nat) : SendSide :=
  { d with
    streamSendFin := Function.update d.streamSendFin sid false
    streamSendOffsets := Function.update d.streamSendOffsets sid 0
    streamDataSent := Function.update d.streamDataSent sid 0
    streamSendQueues := Function.update d.streamSendQueues sid []
    sendQueueIds := d.sendQueueIds.filter (· ≠ sid) }

/-- The send side after `terminate` has cleared it. -/
def clear (d : SendSide) : SendSide :=
  { d with
    streamSendOffsets := fun _ => 0
    streamDataSent := fun _ => 0
    sendQueueIds := []
    streamSendQueues := fun _ => []
    streamSendFin := fun _ => false }

/-! ## Peer streams -/

/-- The configured stream limit of a direction. -/
def peerStreamLimit (c : Config) (bidi : Bool) : Nat :=
  if bidi then c.maxPeerBidiStreams else c.maxPeerUniStreams

/-- When a peer stream may be created, and the unseen ids and mark afterwards:
    it was implicitly opened and not seen, or it lies at or above the mark. -/
def MayDispatch (l : Ledger) (sid : Nat) (unseen : List Nat) (mark : Nat) : Prop :=
  peerInitiated l.config.isServer sid = true ∧
    ((sid >>> 2 < l.mark (isBidi sid) ∧ sid ∈ l.unseen
        ∧ unseen = l.unseen.filter (· ≠ sid) ∧ mark = l.mark (isBidi sid))
      ∨ (l.mark (isBidi sid) ≤ sid >>> 2 ∧ sid >>> 2 < peerStreamLimit l.config (isBidi sid)
        ∧ unseen = l.unseen ++ implicitIds sid (l.mark (isBidi sid)) ∧ mark = sid >>> 2 + 1))

/-! ## Acknowledgements -/

/-- An ACK frame that acknowledged `largest` and newly acknowledged a packet. -/
def AckedUpTo (events : List Event) (sp : PnSpace) (largest : Nat) : Prop :=
  Event.newlyAcked sp largest ∈ events
    ∧ ∃ ranges, Event.acked sp ranges ∈ events ∧ isAcked ranges largest = true

/-- The largest number acknowledged after one more ACK frame. -/
def raiseLargest (largest : Nat) : Option Nat → Nat
  | none => largest
  | some m => max m largest

/-! ## Several events at once -/

/-- The events of packets declared lost, newest first. -/
def lostEvents (sp : PnSpace) (pkts : List SentPacket) : List Event :=
  (pkts.map (fun p => Event.lost sp p.packetNumber p.bytesSent)).reverse

/-- The events of payloads given to the datagram callback, newest first. -/
def deliveredEvents (l : Ledger) : List Event :=
  (if l.config.onDatagram then l.datagrams.map Event.datagramDelivered else []).reverse

theorem mem_lostEvents {sp : PnSpace} {pkts : List SentPacket} {e : Event}
    (h : e ∈ lostEvents sp pkts) : ∃ pn bytes, e = .lost sp pn bytes := by
  obtain ⟨p, _, rfl⟩ := mem_map.mp (mem_reverse.mp h)
  exact ⟨_, _, rfl⟩

theorem mem_deliveredEvents {l : Ledger} {e : Event} (h : e ∈ deliveredEvents l) :
    ∃ d ∈ l.datagrams, e = .datagramDelivered d := by
  rw [deliveredEvents, mem_reverse] at h
  split_ifs at h
  · obtain ⟨d, hd, rfl⟩ := mem_map.mp h
    exact ⟨d, hd, rfl⟩
  · exact absurd h not_mem_nil

/-- What holds of every loss holds of a batch of them. -/
theorem forall_lostEvents {P : Event → Prop} {sp : PnSpace} {pkts : List SentPacket}
    (h : ∀ pn bytes, P (.lost sp pn bytes)) : ∀ e ∈ lostEvents sp pkts, P e := by
  intro e he
  obtain ⟨pn, bytes, rfl⟩ := mem_lostEvents he
  exact h pn bytes

/-- What holds of every delivery holds of the delivery of all kept payloads. -/
theorem forall_deliveredEvents {P : Event → Prop} {l : Ledger}
    (h : ∀ d, P (.datagramDelivered d)) : ∀ e ∈ deliveredEvents l, P e := by
  intro e he
  obtain ⟨d, _, rfl⟩ := mem_deliveredEvents he
  exact h d

/-! ## Steps -/

/-- The steps of a connection other than closing.  `faulty` says whether sealing a
    packet can fail. -/
inductive Step (faulty : Prop) : Ledger → Ledger → Prop where
  /-- Send keys are installed; they are never taken away. -/
  | install (l : Ledger) (r : Frame → PacketType → Bool) :
      (∀ f t, l.resends f t = true → r f t = true) → Step faulty l { l with resends := r }
  /-- A packet number is allocated and not used. -/
  | skip (l : Ledger) (sp : PnSpace) : Step faulty l (l.bump sp)
  /-- A packet is sealed under the next packet number. -/
  | sealNext (l : Ledger) (sp : PnSpace) (slot : KeySlot) (gen : Nat) :
      (l.config.tlsInitialized = true → slot = KeySlot.ofSpace sp) →
      Step faulty l ((l.bump sp).log (.sealed slot gen (l.nextPacketNumber sp)))
  /-- A sealed packet enters `sent_packets_`. -/
  | track (l : Ledger) (type : PacketType) (pn bytes : Nat) (frames : List Frame) (now : Int) :
      0 < bytes → (∀ f ∈ frames, mustArrive f = true → l.resends f type = true) →
      Step faulty l { l with
        sentPackets := Function.update l.sentPackets (spaceIndex type)
          (l.sentPackets (spaceIndex type) ++ [SentPacket.ofFrames pn bytes type frames now])
        bytesInFlight := l.bytesInFlight + bytes
        trace := .packetized (spaceIndex type) pn frames :: l.trace }
  /-- A sealed packet has been given to the socket's queue. -/
  | transmit (l : Ledger) (sp : PnSpace) (pn : Nat) : pn < l.nextPacketNumber sp →
      Step faulty l (l.log (.transmitted sp pn))
  /-- A packet is queued for sending. -/
  | append (l : Ledger) : l.Open ∨ l.ackDue = true → Step faulty l (l.log (.appended false))
  /-- The CONNECTION_CLOSE of `terminate` is queued, right after it was sealed. -/
  | appendClose (l : Ledger) (slot : KeySlot) (gen pn : Nat) (due waiting : Bool)
      (past : List Event) : l.trace = .sealed slot gen pn :: .closed due waiting :: past →
      Step faulty l (l.log (.appended true))
  /-- An acknowledgement is sent, or an ack-eliciting packet recorded. -/
  | setAckDue (l : Ledger) (due : Bool) : (due = true → l.ackDue = true ∨ l.Open) →
      Step faulty l { l with ackDue := due }
  /-- A buffered packet is counted again. -/
  | replay (l : Ledger) (n : Nat) :
      Step faulty l { l with
        received := l.received + n
        trace := .replayed n :: l.trace }
  /-- Datagrams are released to the socket. -/
  | poll (l : Ledger) (n : Nat) :
      (l.config.isServer = true → l.config.tlsInitialized = true → l.validated = false →
        l.sent + n ≤ max l.sent (3 * l.received)) →
      Step faulty l { l with
        sent := l.sent + n
        trace := .returned n :: l.trace }
  /-- The peer's address is validated. -/
  | validate (l : Ledger) : Step faulty l { l with validated := true }
  /-- An ACK frame removes the packets it acknowledges. -/
  | ack (l : Ledger) (sp : PnSpace) (ranges : List (Nat × Nat)) :
      Step faulty l { l with
        bytesInFlight := l.bytesInFlight
          - sumBytes ((l.sentPackets sp).filter (fun p => isAcked ranges p.packetNumber))
        sentPackets := Function.update l.sentPackets sp
          ((l.sentPackets sp).filter (fun p => !isAcked ranges p.packetNumber))
        trace := .acked sp ranges :: l.trace }
  /-- An ACK frame that has newly acknowledged a packet raises the largest number. -/
  | noteLargest (l : Ledger) (sp : PnSpace) (largest : Nat) (ranges : List (Nat × Nat)) :
      Event.acked sp ranges ∈ l.trace → isAcked ranges largest = true →
      Step faulty l { l with
        largestAcked := Function.update l.largestAcked sp
          (some (raiseLargest largest (l.largestAcked sp)))
        trace := .newlyAcked sp largest :: l.trace }
  /-- Loss detection takes packets out and holds their frames: packets below the
      largest number of an ACK frame that has newly acknowledged one. -/
  | lose (l : Ledger) (sp : PnSpace) (lost : SentPacket → Bool) : l.inHand = [] →
      (∀ p ∈ l.sentPackets sp, lost p = true →
        ∃ largest, p.packetNumber < largest ∧ AckedUpTo l.trace sp largest) →
      Step faulty l { l with
        sentPackets := Function.update l.sentPackets sp
          ((l.sentPackets sp).filter (fun p => !lost p))
        inHand := framesOf ((l.sentPackets sp).filter lost)
        trace := lostEvents sp ((l.sentPackets sp).filter lost) ++ l.trace }
  /-- A probe timeout takes the frames of one packet. -/
  | probe (l : Ledger) (sp : PnSpace) : l.inHand = [] →
      Step faulty l { l with
        sentPackets := Function.update l.sentPackets sp (takeFirstFrames (l.sentPackets sp)).2
        inHand := (takeFirstFrames (l.sentPackets sp)).1 }
  /-- A frame in hand has been sent again, or is given up. -/
  | settle (l : Ledger) (f : Frame) (type : PacketType) (rest : List (Frame × PacketType)) :
      l.inHand = (f, type) :: rest →
      (mustArrive f = true → l.resends f type = true →
        (∃ sp, ∃ p ∈ l.sentPackets sp, f ∈ p.retransmittableFrames) ∨ faulty) →
      Step faulty l { l with inHand := rest }
  /-- Stream data and FIN are accepted on an open connection. -/
  | accept (l : Ledger) (sid : Nat) (data : Bytes) (fin : Bool) : l.state ≠ .closed →
      Step faulty l { l with
        send := enqueue l.send sid data fin
        trace := .accepted sid data fin :: l.trace }
  /-- Stream data and FIN reach a closed connection. -/
  | acceptClosed (l : Ledger) (sid : Nat) (data : Bytes) (fin : Bool) : l.state = .closed →
      Step faulty l { l with send := enqueue l.send sid data fin }
  /-- A STREAM frame is packetized for the first time. -/
  | packetize (l : Ledger) (sid len : Nat) (fin : Bool) :
      l.state ≠ .closed → MayPacketize l.send sid len fin →
      Step faulty l { l with
        send := packetize l.send sid len fin
        trace := .streamSent sid (l.send.streamSendOffsets sid)
          ((l.send.streamSendQueues sid).take len) fin :: l.trace }
  /-- The send state of a drained stream is erased. -/
  | drop (l : Ledger) (sid : Nat) :
      l.send.streamSendQueues sid = [] → l.send.streamSendFin sid = false →
      Step faulty l { l with
        send := erase l.send sid
        trace := .sendStateDropped sid (l.send.streamSendOffsets sid) :: l.trace }
  /-- `terminate` clears the send side. -/
  | clear (l : Ledger) : l.state = .closed → Step faulty l { l with send := clear l.send }
  /-- MAX_DATA. -/
  | creditData (l : Ledger) (v : Nat) :
      Step faulty l { l with
        send := { l.send with maxData := max l.send.maxData v }
        trace := .creditData v :: l.trace }
  /-- MAX_STREAM_DATA. -/
  | creditStream (l : Ledger) (sid v : Nat) :
      Step faulty l { l with
        send := { l.send with maxStreamData := max l.send.maxStreamData v }
        trace := .creditStream sid v :: l.trace }
  /-- `process_frames` arrives at a frame. -/
  | frame (l : Ledger) (f : Frame) : Step faulty l (l.log (.frameSeen f))
  /-- The handshake goes on after the drain. -/
  | resume (l : Ledger) : Step faulty l (l.log .handshakeResumed)
  /-- A peer stream is created and dispatched. -/
  | dispatch (l : Ledger) (sid : Nat) (unseen : List Nat) (mark : Nat) :
      l.Open → MayDispatch l sid unseen mark →
      Step faulty l { l with
        unseen := unseen
        mark := Function.update l.mark (isBidi sid) mark
        trace := .streamCreated sid true :: l.trace }
  /-- A stream is created locally. -/
  | create (l : Ledger) (sid : Nat) : l.Open → Step faulty l (l.log (.streamCreated sid false))
  /-- A stream is handed to its acceptor or to the stream callback. -/
  | hand (l : Ledger) (sid : Nat) :
      l.Open ∨ (l.config.onStreamCreated = true ∧ newStreams l.trace = true) →
      Step faulty l (l.log (.streamHanded sid))
  /-- A DATAGRAM payload is kept for delivery. -/
  | keepDatagram (l : Ledger) (data : Bytes) : l.Open →
      Step faulty l { l with datagrams := l.datagrams ++ [data] }
  /-- The kept payloads go to the datagram callback. -/
  | deliver (l : Ledger) :
      Step faulty l { l with
        datagrams := []
        trace := deliveredEvents l ++ l.trace }
  /-- The connection becomes connected. -/
  | connect (l : Ledger) : l.Open → Step faulty l { l with state := .connected }

/-- `terminate` sets `Closed`. -/
inductive Closing : Ledger → Ledger → Prop where
  | close (l : Ledger) : l.state ≠ .closed →
      Closing l { l with
        state := .closed
        trace := .closed l.ackDue (!l.datagrams.isEmpty) :: l.trace }

/-- A call from outside begins, or a datagram comes in. -/
inductive Call : Ledger → Ledger → Prop where
  | call (l : Ledger) (hands : Bool) : Call l (l.log (.called hands))
  | receive (l : Ledger) (n : Nat) :
      Call l { l with
        received := l.received + n
        trace := .received n :: l.trace }

/-- What a connection may do within a call. -/
inductive Move (faulty : Prop) : Ledger → Ledger → Prop where
  | step {l l' : Ledger} : Step faulty l l' → Move faulty l l'
  | closing {l l' : Ledger} : Closing l l' → Move faulty l l'

/-- The abstract machine of a connection with the given configuration. -/
def machine (faulty : Prop) (config : Config) : System Ledger where
  init l := ∃ r, l = { config := config, resends := r }
  next l l' := Move faulty l l' ∨ Call l l'

/-! ## What every step has in common -/

variable {faulty : Prop} {l l' : Ledger}

/-- A call begins. -/
def isCalled : Event → Bool
  | .called _ => true
  | _ => false

/-- A step only adds events to the history; none of them closes the connection or
    begins a call. -/
theorem Step.trace_eq (h : Step faulty l l') :
    ∃ later, l'.trace = later ++ l.trace
      ∧ ∀ e ∈ later, isClosed e = false ∧ isCalled e = false := by
  cases h with
  | lose sp lost _ _ => exact ⟨_, rfl, forall_lostEvents (fun _ _ => ⟨rfl, rfl⟩)⟩
  | deliver => exact ⟨_, rfl, forall_deliveredEvents (fun _ => ⟨rfl, rfl⟩)⟩
  | _ => first
    | exact ⟨[], rfl, by simp⟩
    | exact ⟨[_], rfl, by simp [isClosed, isCalled]⟩

/-- A step does not close the connection. -/
theorem Step.not_closed (h : Step faulty l l') (hl : l.state ≠ .closed) :
    l'.state ≠ .closed := by
  cases h with
  | connect _ => exact ConnectionState.noConfusion
  | _ => exact hl

/-- What a risky event opened stays open until the connection closes. -/
theorem exposed_append {later past : List Event} (hp : exposed past = true)
    (hl : ∀ e ∈ later, isClosed e = false) : exposed (later ++ past) = true := by
  induction later with
  | nil => exact hp
  | cons e later ih =>
      rw [cons_append, exposed, hl e mem_cons_self]
      simp only [Bool.false_eq_true, ↓reduceIte, Bool.or_eq_true]
      exact Or.inr (ih (fun e' he' => hl e' (mem_cons_of_mem _ he')))

/-- A step keeps a connection open that was open. -/
theorem Step.isOpen (h : Step faulty l l') (hl : l.Open) : l'.Open := by
  rcases hl with hs | hx
  · exact Or.inl (h.not_closed hs)
  · obtain ⟨later, htr, hnot⟩ := h.trace_eq
    refine Or.inr ?_
    rw [htr]
    exact exposed_append hx (fun e he => (hnot e he).1)

/-- The configuration is fixed. -/
theorem Step.config_eq (h : Step faulty l l') : l'.config = l.config := by
  cases h <;> rfl

/-- A new stream stays new for the rest of the call. -/
theorem newStreams_append {later past : List Event} (hp : newStreams past = true)
    (hl : ∀ e ∈ later, isCalled e = false) : newStreams (later ++ past) = true := by
  induction later with
  | nil => exact hp
  | cons e later ih =>
      have ih := ih (fun e' he' => hl e' (mem_cons_of_mem _ he'))
      have he := hl e mem_cons_self
      rw [cons_append]
      cases e with
      | called _ => exact nomatch he
      | streamCreated sid dispatched =>
          cases dispatched with
          | true => rfl
          | false => exact ih
      | _ => exact ih

/-- A move only adds events to the history, and none of them begins a call. -/
theorem Move.trace_eq (h : Move faulty l l') :
    ∃ later, l'.trace = later ++ l.trace ∧ ∀ e ∈ later, isCalled e = false := by
  cases h with
  | step h =>
      obtain ⟨later, htr, hnot⟩ := h.trace_eq
      exact ⟨later, htr, fun e he => (hnot e he).2⟩
  | closing h =>
      cases h
      exact ⟨[_], rfl, by simp [isCalled]⟩

/-- The configuration is fixed. -/
theorem Move.config_eq (h : Move faulty l l') : l'.config = l.config := by
  cases h with
  | step h => exact h.config_eq
  | closing h => cases h; rfl

/-- Whatever the machine does, the history only grows. -/
theorem next_trace {config : Config} (h : (machine faulty config).next l l') :
    ∃ later, l'.trace = later ++ l.trace := by
  rcases h with h | h
  · obtain ⟨later, htr, _⟩ := h.trace_eq
    exact ⟨later, htr⟩
  · cases h <;> exact ⟨[_], rfl⟩

/-- The configuration of every reachable ledger is the initial one. -/
theorem reachable_config {config : Config} (h : (machine faulty config).Reachable l) :
    l.config = config := by
  refine h.invariant (I := fun l => l.config = config) ?_ ?_
  · rintro _ ⟨r, rfl⟩
    rfl
  · intro l l' hn ih
    rcases hn with h | h
    · rw [h.config_eq, ih]
    · cases h <;> exact ih

end QuicLedger
