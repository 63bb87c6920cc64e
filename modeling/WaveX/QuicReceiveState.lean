import WaveX.QuicFrames

/-! # Receive-side bookkeeping

    `ReceivedPacketTracker` and `CryptoStreamReassembler` of `QuicConnection`, and
    the receive half of `QuicStream` (`push_inbound`). -/

namespace QuicReceiveState

open QuicVarInt QuicFrames

/-! ## ReceivedPacketTracker -/

/-- `ReceivedPacketTracker`: received packet numbers as ranges, oldest first. -/
structure ReceivedPacketTracker where
  intervals : List (Nat × Nat) := []
  largestPn : Nat := 0
  evictedBelow : Nat := 0
  hasPackets : Bool := false
  ackElicitingPending : Bool := false
  deriving DecidableEq, Repr

namespace ReceivedPacketTracker

/-- Cap on the number of ranges: the oldest one is dropped and remembered in
    `evicted_below`. -/
def capIntervals (t : ReceivedPacketTracker) : ReceivedPacketTracker :=
  if t.intervals.length > 64 then
    { t with
      evictedBelow := max t.evictedBelow ((t.intervals.headD (0, 0)).2 + 1)
      intervals := t.intervals.drop 1 }
  else t

/-- `add_packet`.  `before` are the ranges that end below `pn`, `rest` the
    others; `before.getLast?` is `std::prev(it)`. -/
def addPacket (t : ReceivedPacketTracker) (pn : Nat) (ackEliciting : Bool) :
    ReceivedPacketTracker :=
  let t := { t with
    hasPackets := true
    ackElicitingPending := t.ackElicitingPending || ackEliciting }
  if t.intervals.isEmpty then { t with intervals := [(pn, pn)], largestPn := pn }
  else
    let t := { t with largestPn := max t.largestPn pn }
    let before := t.intervals.takeWhile (fun p => p.2 < pn)
    let rest := t.intervals.dropWhile (fun p => p.2 < pn)
    match rest with
    | it :: after =>
        if it.1 ≤ pn ∧ pn ≤ it.2 then t
        else if pn + 1 = it.1 then
          match before.getLast? with
          | some prev =>
              if prev.2 + 1 = pn then
                { t with intervals := before.dropLast ++ (prev.1, it.2) :: after }
              else { t with intervals := before ++ (pn, it.2) :: after }
          | none => { t with intervals := (pn, it.2) :: after }
        else
          match before.getLast? with
          | some prev =>
              if prev.2 + 1 = pn then
                { t with intervals := before.dropLast ++ (prev.1, pn) :: it :: after }
              else capIntervals { t with intervals := before ++ (pn, pn) :: it :: after }
          | none => capIntervals { t with intervals := (pn, pn) :: it :: after }
    | [] =>
        match before.getLast? with
        | some prev =>
            if prev.2 + 1 = pn then
              { t with intervals := before.dropLast ++ [(prev.1, pn)] }
            else capIntervals { t with intervals := before ++ [(pn, pn)] }
        | none => capIntervals { t with intervals := [(pn, pn)] }

/-- The ranges after the first one of an ACK frame, from the newest interval
    down. -/
def ackRangesBelow : Nat × Nat → List (Nat × Nat) → List AckRange
  | _, [] => []
  | prev, curr :: older =>
      ⟨if prev.1 > curr.2 + 2 then prev.1 - curr.2 - 2 else 0, curr.2 - curr.1⟩
        :: ackRangesBelow curr older

/-- `build_ack_frame`. -/
def buildAckFrame (t : ReceivedPacketTracker) (ackDelay : Nat) : AckFrame :=
  match t.intervals.reverse with
  | [] => ⟨[⟨0, 0⟩], t.largestPn, ackDelay, false⟩
  | newest :: older =>
      ⟨⟨0, newest.2 - newest.1⟩ :: ackRangesBelow newest older, newest.2, ackDelay, false⟩

/-- `mark_ack_sent`. -/
def markAckSent (t : ReceivedPacketTracker) : ReceivedPacketTracker :=
  { t with ackElicitingPending := false }

/-- `needs_ack`. -/
def needsAck (t : ReceivedPacketTracker) : Bool := t.hasPackets && t.ackElicitingPending

/-- `contains`: already received, or older than the oldest range still kept. -/
def contains (t : ReceivedPacketTracker) (pn : Nat) : Bool :=
  t.hasPackets &&
    ((decide (t.evictedBelow > 0) && decide (pn < t.evictedBelow)) ||
      t.intervals.any (fun p => decide (pn ≥ p.1 ∧ pn ≤ p.2)))

end ReceivedPacketTracker

/-! ## CryptoStreamReassembler -/

/-- `kMaxCryptoBufferSize`. -/
def kMaxCryptoBufferSize : Nat := 65536

/-- `CryptoStreamReassembler`; `pending` is the `std::map`, sorted by offset. -/
structure CryptoStreamReassembler where
  pending : List (Nat × Bytes) := []
  ready : Bytes := []
  nextOffset : Nat := 0
  readyConsumed : Nat := 0
  pendingBytes : Nat := 0
  deriving DecidableEq, Repr

namespace CryptoStreamReassembler

/-- `std::map::emplace`: an existing key keeps its value. -/
def emplace (offset : Nat) (data : Bytes) : List (Nat × Bytes) → List (Nat × Bytes)
  | [] => [(offset, data)]
  | (o, d) :: rest =>
      if offset < o then (offset, data) :: (o, d) :: rest
      else if offset = o then (o, d) :: rest
      else (o, d) :: emplace offset data rest

/-- The drain loop of `insert`: chunks that start at or below `next_offset` are
    moved to `ready`, without the bytes already there. -/
def drainPending (r : CryptoStreamReassembler) : List (Nat × Bytes) → CryptoStreamReassembler
  | [] => { r with pending := [] }
  | (o, d) :: rest =>
      if o > r.nextOffset then { r with pending := (o, d) :: rest }
      else
        let r :=
          if o + d.length > r.nextOffset then
            { r with
              ready := r.ready ++ d.drop (r.nextOffset - o)
              nextOffset := o + d.length }
          else r
        drainPending { r with pendingBytes := r.pendingBytes - d.length } rest

/-- `insert`: `none` when it returns false. -/
def insert (r : CryptoStreamReassembler) (offset : Nat) (data : Bytes) :
    Option CryptoStreamReassembler :=
  if data.isEmpty then some r
  else if offset + data.length ≤ r.nextOffset then some r
  else if offset > r.nextOffset + kMaxCryptoBufferSize then none
  else if r.pendingBytes + data.length > kMaxCryptoBufferSize then none
  else
    some (drainPending { r with pendingBytes := r.pendingBytes + data.length }
      (emplace offset data r.pending))

/-- `available`. -/
def available (r : CryptoStreamReassembler) : Bytes := r.ready.drop r.readyConsumed

/-- `consume`. -/
def consume (r : CryptoStreamReassembler) (bytes : Nat) : CryptoStreamReassembler :=
  let consumed := r.readyConsumed + bytes
  if consumed ≥ r.ready.length then { r with ready := [], readyConsumed := 0 }
  else if consumed > 65536 then
    { r with ready := r.ready.drop consumed, readyConsumed := 0 }
  else { r with readyConsumed := consumed }

end CryptoStreamReassembler

/-! ## QuicStream -/

/-- `QuicStream`: the receive buffer is the list of its unread bytes; a parked
    read is only woken and changes nothing here. -/
structure QuicStream where
  streamId : Nat := 0
  recvOffset : Nat := 0
  inBuffer : Bytes := []
  pendingInbound : List (Nat × Bytes) := []
  finalSize : Option Nat := none
  isOpen : Bool := true
  finReceived : Bool := false
  finSent : Bool := false
  finalSizeError : Bool := false
  deriving DecidableEq, Repr

namespace QuicStream

/-- `is_finished`. -/
def isFinished (st : QuicStream) : Bool :=
  (st.finSent || !st.isOpen) && (st.finReceived || !st.isOpen)

/-- `append_bytes`. -/
def appendBytes (st : QuicStream) (chunk : Bytes) : QuicStream :=
  { st with inBuffer := st.inBuffer ++ chunk, recvOffset := st.recvOffset + chunk.length }

/-- The loop over `pending_inbound_` that appends what has become contiguous. -/
def drainInbound (st : QuicStream) : List (Nat × Bytes) → QuicStream
  | [] => { st with pendingInbound := [] }
  | (o, d) :: rest =>
      if o > st.recvOffset then { st with pendingInbound := (o, d) :: rest }
      else
        drainInbound
          (if o + d.length > st.recvOffset then
            st.appendBytes (d.drop (st.recvOffset - o)) else st) rest

/-- Insert a chunk by offset; of two chunks at one offset the longer is kept. -/
def insertChunk (offset : Nat) (data : Bytes) : List (Nat × Bytes) → List (Nat × Bytes)
  | [] => [(offset, data)]
  | (o, d) :: rest =>
      if o < offset then (o, d) :: insertChunk offset data rest
      else if o = offset then (o, if d.length ≥ data.length then d else data) :: rest
      else (offset, data) :: (o, d) :: rest

/-- The final-size checks of `push_inbound`; `none` is the error return. -/
def checkFinalSize (st : QuicStream) (offset len : Nat) (fin : Bool) : Option QuicStream :=
  match st.finalSize, fin with
  | some size, true => if size ≠ offset + len then none else some st
  | none, true =>
      if offset + len < st.recvOffset then none
      else some { st with finalSize := some (offset + len) }
  | some size, false => if offset + len > size then none else some st
  | none, false => some st

/-- All bytes up to the final size have arrived. -/
def reachedFinalSize (st : QuicStream) : Bool :=
  match st.finalSize with
  | some size => decide (st.recvOffset ≥ size)
  | none => false

/-- `push_inbound(offset, data, fin)` up to `notify_finished_if_needed`, with the
    flag that says whether that call is reached (it is not after a final-size
    error). -/
def pushInbound (st : QuicStream) (offset : Nat) (data : Bytes) (fin : Bool) :
    QuicStream × Bool :=
  match st.checkFinalSize offset data.length fin with
  | none => ({ st with finalSizeError := true }, false)
  | some st =>
      if offset + data.length ≤ st.recvOffset then
        ({ st with finReceived := st.finReceived || st.reachedFinalSize }, true)
      else
        let data := data.drop (st.recvOffset - offset)
        let offset := max offset st.recvOffset
        if offset = st.recvOffset then
          let st := (st.appendBytes data).drainInbound st.pendingInbound
          ({ st with finReceived := st.finReceived || st.reachedFinalSize }, true)
        else if (st.pendingInbound.map (fun c => c.2.length)).sum + data.length
            ≤ 16 * 1024 * 1024 then
          ({ st with pendingInbound := insertChunk offset data st.pendingInbound }, true)
        else (st, true)

end QuicStream

end QuicReceiveState
