import WaveX.Http3Tunnel
import WaveX.WebSocketClose

/-! # Capsules of a WebTransport session

    The capsules of `src/protos/webtransport/WebTransport.cpp`, and the reader that takes
    them from the tunnel behind the CONNECT request.  A capsule, a DATA frame and a read end
    at places of their own: the reader keeps what it has in a buffer, handles the capsules
    that are there in full, and asks for more.

    What is left to handle does not depend on these places: the buffer and the bytes still
    to come are the capsules that have not been handled (`drainLoop_pending`). -/

namespace WebTransportCapsules

open QuicVarInt HttpText Http3RequestArrival Http3Tunnel WebSocketClose List

/-! ## Capsules -/

/-- `kCapsuleCloseSession`. -/
def kCapsuleCloseSession : Nat := 0x2843

/-- `kCapsuleDrainSession`. -/
def kCapsuleDrainSession : Nat := 0x78ae

/-- `kMaxCloseReasonBytes`. -/
def kMaxCloseReasonBytes : Nat := 1024

/-- `utf8_prefix`, the same function as in `WebSocket.cpp`. -/
def utf8Prefix (s : Bytes) (max : Nat) : Bytes := WebSocketCodec.utf8Head s max

/-- What `capsule::parse` reads. -/
structure Parsed where
  type : Nat
  payload : Bytes
  consumed : Nat
  deriving DecidableEq, Repr

/-- `capsule::parse`: `none` when the capsule is incomplete. -/
def parse (input : Bytes) : Option Parsed :=
  match decode input with
  | none => none
  | some (type, rest) =>
      match decode rest with
      | none => none
      | some (length, rest) =>
          if length > rest.length then none
          else some ⟨type, rest.take length, input.length - rest.length + length⟩

/-- `capsule::encode`. -/
def encodeCapsule (type : Nat) (payload : Bytes) : Bytes :=
  encode type ++ encode payload.length ++ payload

/-- The payload of `capsule::encode_close_session`. -/
def closePayload (code : UInt32) (reason : Bytes) : Bytes :=
  [byteAt code.toNat 3, byteAt code.toNat 2, byteAt code.toNat 1, byteAt code.toNat 0] ++
    utf8Prefix reason kMaxCloseReasonBytes

/-- `capsule::encode_close_session`. -/
def encodeCloseSession (code : UInt32) (reason : Bytes) : Bytes :=
  encodeCapsule kCapsuleCloseSession (closePayload code reason)

/-- `capsule::decode_close_session`. -/
def decodeCloseSession : Bytes → Option (UInt32 × Bytes)
  | b3 :: b2 :: b1 :: b0 :: reason =>
      if reason.length > kMaxCloseReasonBytes then none
      else
        some (.ofNat (b3.toNat <<< 24 ||| b2.toNat <<< 16 ||| b1.toNat <<< 8 ||| b0.toNat), reason)
  | _ => none

/-! ## The session -/

/-- The fields of a session that its end and the reader touch, and what has been written to
    the CONNECT stream. -/
structure Session where
  closed : Bool := false
  closeCode : UInt32 := 0
  closeReason : Bytes := []
  drainRequested : Bool := false
  sent : Bytes := []
  finished : Bool := false
  deriving DecidableEq, Repr

/-- `session::terminate`: only the first call has an effect. -/
def Session.terminate (s : Session) (code : UInt32) (reason : Bytes) (notifyPeer : Bool) :
    Session :=
  if s.closed then s
  else
    { s with
      closed := true
      closeCode := code
      closeReason := utf8Prefix reason kMaxCloseReasonBytes
      sent := if notifyPeer then s.sent ++ encodeTunnelDataFrame (encodeCloseSession code reason)
        else s.sent
      finished := true }

/-- A capsule in `run_capsule_reader`; unknown types are ignored. -/
def Session.onCapsule (s : Session) (type : Nat) (payload : Bytes) : Session :=
  if type = kCapsuleCloseSession then
    match decodeCloseSession payload with
    | some (code, reason) => s.terminate code reason false
    | none => s.terminate 0 [] false
  else if type = kCapsuleDrainSession then { s with drainRequested := true }
  else s

/-! ## The reader -/

/-- `kMaxBufferedCapsuleBytes`. -/
def kMaxBufferedCapsuleBytes : Nat := 1024 * 1024

/-- The reader: its buffer, the session, and the capsules it has handled. -/
structure Reader where
  buf : Bytes := []
  session : Session := {}
  handled : List (Nat × Bytes) := []

/-- The inner loop: the capsules in the buffer, for at most so many rounds.  It returns
    from the reader at a CLOSE capsule. -/
def drainLoop : Nat → Reader → Bool × Reader
  | 0, r => (false, r)
  | rounds + 1, r =>
      match parse r.buf with
      | none => (false, r)
      | some c =>
          let r := { r with
            session := r.session.onCapsule c.type c.payload
            handled := r.handled ++ [(c.type, c.payload)] }
          if c.type = kCapsuleCloseSession then (true, r)
          else drainLoop rounds { r with buf := r.buf.drop c.consumed }

/-- How a part of the outer loop ends: the reader returns, or goes on. -/
inductive Turn where
  | returned (r : Reader)
  | next (r : Reader)

/-- The outer loop up to its read. -/
def beforeRead (r : Reader) : Turn :=
  match drainLoop (r.buf.length + 1) r with
  | (true, r) => .returned r
  | (false, r) =>
      if r.session.closed then .returned r
      else if r.buf.length > kMaxBufferedCapsuleBytes then
        .returned { r with session := r.session.terminate 0 (text "capsule too large") true }
      else .next r

/-- The outer loop behind its read; a FIN or an error ends the session with code 0. -/
def afterRead (r : Reader) (result : ReadResult) : Turn :=
  let r := { r with buf := r.buf ++ result.bytes }
  if result.error.isSome || result.bytes.isEmpty then
    .returned { r with session := r.session.terminate 0 [] false }
  else .next r

/-- `run_capsule_reader` over the tunnel, for at most so many reads. -/
def runCapsuleReader : Nat → TunnelState → Reader → Option Reader
  | 0, _, _ => none
  | reads + 1, st, r =>
      match beforeRead r with
      | .returned r => some r
      | .next r =>
          (tunnelReadSome st 4096).bind fun read =>
            match afterRead r read.1 with
            | .returned r => some r
            | .next r => runCapsuleReader reads read.2 r

/-! ## Capsules that are sent -/

/-- A capsule that `encode` or `encode_close_session` writes. -/
inductive Capsule where
  | plain (type : Nat) (payload : Bytes)
  | close (code : UInt32) (reason : Bytes)

def Capsule.type : Capsule → Nat
  | .plain type _ => type
  | .close _ _ => kCapsuleCloseSession

def Capsule.payload : Capsule → Bytes
  | .plain _ payload => payload
  | .close code reason => closePayload code reason

def Capsule.bytes : Capsule → Bytes
  | .plain type payload => encodeCapsule type payload
  | .close code reason => encodeCloseSession code reason

/-- A capsule of at most 1 MB, with a type that a variable-length integer can hold. -/
structure Capsule.Legal (c : Capsule) : Prop where
  type : c.type < 2 ^ 62
  size : c.bytes.length ≤ 1024 * 1024

/-- The bytes of capsules in their order. -/
def wireOf (cs : List Capsule) : Bytes := cs.flatMap Capsule.bytes

/-- The capsules up to the first CLOSE_WEBTRANSPORT_SESSION, with it. -/
def upToClose : List Capsule → List Capsule
  | [] => []
  | c :: cs => if c.type = kCapsuleCloseSession then [c] else c :: upToClose cs

variable {c : Capsule} {cs : List Capsule} {buf rest : Bytes} {p : Parsed} {r r' : Reader}

theorem Capsule.bytes_eq (c : Capsule) : c.bytes = encodeCapsule c.type c.payload := by
  cases c <;> rfl

theorem Capsule.Legal.payload (h : c.Legal) : c.payload.length < 2 ^ 62 := by
  have hsize := h.size
  rw [Capsule.bytes_eq, encodeCapsule, length_append] at hsize
  omega

theorem encode_length_pos (v : Nat) : 0 < (encode v).length := by
  rw [encode_length, encodedSize]
  repeat' split
  all_goals decide

/-- What is read in front stays when more bytes arrive. -/
theorem parse_append (h : parse buf = some p) (rest : Bytes) :
    parse (buf ++ rest) = some p ∧ p.consumed ≤ buf.length := by
  rw [parse] at h
  cases htype : decode buf with
  | none =>
    rw [htype] at h
    cases h
  | some first =>
    obtain ⟨type, tail⟩ := first
    rw [htype] at h
    dsimp only at h
    cases hlength : decode tail with
    | none =>
      rw [hlength] at h
      cases h
    | some second =>
      obtain ⟨length, tail'⟩ := second
      rw [hlength] at h
      dsimp only at h
      have hlt := decode_length_lt htype
      have hlt' := decode_length_lt hlength
      split at h
      · cases h
      · rename_i hfits
        cases h
        refine ⟨?_, ?_⟩
        · rw [parse, decode_append htype]
          dsimp only
          rw [decode_append hlength]
          dsimp only
          rw [length_append, length_append, if_neg (by omega),
            take_append_of_le_length (Nat.not_lt.mp hfits), Nat.add_sub_add_right]
        · dsimp only
          omega

/-- A capsule is read in front of any bytes. -/
theorem parse_bytes (h : c.Legal) (rest : Bytes) :
    parse (c.bytes ++ rest) = some ⟨c.type, c.payload, c.bytes.length⟩ := by
  rw [Capsule.bytes_eq, encodeCapsule, append_assoc, append_assoc, parse,
    decode_encode h.type]
  dsimp only
  rw [decode_encode h.payload]
  dsimp only
  simp only [length_append]
  rw [if_neg (by omega), take_left]
  have hconsumed : ∀ a b p r : Nat, a + (b + (p + r)) - (p + r) + p = a + b + p := by
    intro a b p r
    omega
  rw [hconsumed]

/-- A buffer with the front of a sequence of capsules: the first of them is there in full,
    or nothing is read. -/
theorem parse_front (h : ∀ c ∈ cs, c.Legal) (hbuf : buf ++ rest = wireOf cs) :
    (parse buf = none ∧ ∀ c ∈ cs.head?, buf.length < c.bytes.length) ∨
      ∃ c cs' tail, cs = c :: cs' ∧ parse buf = some ⟨c.type, c.payload, c.bytes.length⟩ ∧
        buf.drop c.bytes.length = tail ∧ buf.length = c.bytes.length + tail.length ∧
        tail ++ rest = wireOf cs' := by
  cases cs with
  | nil =>
    obtain rfl := (append_eq_nil_iff.mp hbuf).1
    exact .inl ⟨rfl, nofun⟩
  | cons c cs =>
    have hwhole : buf ++ rest = c.bytes ++ wireOf cs := hbuf
    have hparsed := parse_bytes (h c mem_cons_self) (wireOf cs)
    rw [← hwhole] at hparsed
    by_cases hlong : c.bytes.length ≤ buf.length
    · right
      obtain ⟨tail, rfl⟩ : ∃ tail, buf = c.bytes ++ tail := by
        have hprefix := prefix_of_prefix_length_le ⟨_, hwhole.symm⟩ (prefix_append buf rest)
          hlong
        obtain ⟨tail, htail⟩ := hprefix
        exact ⟨tail, htail.symm⟩
      refine ⟨c, cs, tail, rfl, parse_bytes (h c mem_cons_self) tail, drop_left, ?_, ?_⟩
      · rw [length_append]
      · rw [append_assoc] at hwhole
        exact append_cancel_left hwhole
    · left
      refine ⟨?_, ?_⟩
      · cases hfront : parse buf with
        | none => rfl
        | some q =>
          obtain ⟨hmore, hle⟩ := parse_append hfront rest
          rw [hparsed] at hmore
          cases hmore
          exact absurd hle hlong
      · intro c' hc'
        cases hc'
        exact Nat.not_le.mp hlong

/-! ## What is left to handle -/

/-- The session and the handled capsules when the rest of the capsules has been taken. -/
def settle (s : Session) (handled : List (Nat × Bytes)) :
    List Capsule → Session × List (Nat × Bytes)
  | [] => (s.terminate 0 [] false, handled)
  | c :: cs =>
      if c.type = kCapsuleCloseSession then
        (s.onCapsule c.type c.payload, handled ++ [(c.type, c.payload)])
      else settle (s.onCapsule c.type c.payload) (handled ++ [(c.type, c.payload)]) cs

/-- The buffer and the bytes still to come are capsules, and the reader is to end with
    the session and the history of `goal`. -/
structure Pending (rest : Bytes) (goal : Session × List (Nat × Bytes)) (cs : List Capsule)
    (r : Reader) : Prop where
  legal : ∀ c ∈ cs, c.Legal
  bytes : r.buf ++ rest = wireOf cs
  goal : settle r.session r.handled cs = goal
  ongoing : r.session.closed = false

variable {goal : Session × List (Nat × Bytes)}

theorem onCapsule_open {s : Session} {type : Nat} {payload : Bytes}
    (htype : type ≠ kCapsuleCloseSession) (h : s.closed = false) :
    (s.onCapsule type payload).closed = false := by
  rw [Session.onCapsule, if_neg htype]
  split
  · exact h
  · exact h

/-- **The inner loop** takes what is there: it returns at the first CLOSE, or leaves less
    than a capsule in the buffer. -/
theorem drainLoop_pending {rounds : Nat} (hrounds : r.buf.length < rounds)
    (h : Pending rest goal cs r) :
    (∃ r', drainLoop rounds r = (true, r') ∧ (r'.session, r'.handled) = goal) ∨
      ∃ r' cs', drainLoop rounds r = (false, r') ∧ Pending rest goal cs' r' ∧
        ∀ c ∈ cs'.head?, r'.buf.length < c.bytes.length := by
  induction rounds generalizing r cs with
  | zero => exact absurd hrounds (Nat.not_lt_zero _)
  | succ rounds ih =>
    obtain ⟨hlegal, hbytes, hgoal, hongoing⟩ := h
    rw [drainLoop]
    obtain ⟨hnone, hshort⟩ | ⟨c, cs, tail, rfl, hparsed, hdrop, hlength, htail⟩ :=
      parse_front hlegal hbytes
    · rw [hnone]
      exact .inr ⟨r, cs, rfl, ⟨hlegal, hbytes, hgoal, hongoing⟩, hshort⟩
    · have hpos : 0 < c.bytes.length := by
        rw [Capsule.bytes_eq, encodeCapsule, append_assoc, length_append]
        have hfirst := encode_length_pos c.type
        omega
      rw [hparsed]
      dsimp only
      rw [settle] at hgoal
      by_cases htype : c.type = kCapsuleCloseSession
      · rw [if_pos htype] at hgoal ⊢
        exact .inl ⟨_, rfl, hgoal⟩
      · rw [if_neg htype] at hgoal ⊢
        refine ih ?_ ⟨fun c' hc' => hlegal c' (mem_cons_of_mem c hc'), ?_, hgoal,
          onCapsule_open htype hongoing⟩
        · dsimp only
          rw [hdrop]
          omega
        · dsimp only
          rw [hdrop, htail]

/-- The outer loop up to its read: the guard does not trip on a capsule that is legal. -/
theorem beforeRead_pending (h : Pending rest goal cs r) :
    (∃ r', beforeRead r = .returned r' ∧ (r'.session, r'.handled) = goal) ∨
      ∃ r' cs', beforeRead r = .next r' ∧ Pending rest goal cs' r' ∧
        (rest = [] → (r'.session.terminate 0 [] false, r'.handled) = goal) := by
  rw [beforeRead]
  obtain ⟨r', hloop, hdone⟩ | ⟨r', cs', hloop, hpending, hshort⟩ :=
    drainLoop_pending (Nat.lt_succ_self _) h
  · rw [hloop]
    exact .inl ⟨r', rfl, hdone⟩
  · rw [hloop]
    dsimp only
    have hsmall : r'.buf.length ≤ kMaxBufferedCapsuleBytes := by
      cases cs' with
      | nil =>
        rw [(append_eq_nil_iff.mp hpending.bytes).1]
        exact Nat.zero_le _
      | cons c cs' =>
        have hlt := hshort c rfl
        have hsize := (hpending.legal c mem_cons_self).size
        rw [kMaxBufferedCapsuleBytes]
        omega
    rw [if_neg (Bool.eq_false_iff.mp hpending.ongoing), if_neg (Nat.not_lt.mpr hsmall)]
    refine .inr ⟨r', cs', rfl, hpending, ?_⟩
    rintro rfl
    -- nothing comes any more, so the buffer holds all of the capsules
    cases cs' with
    | nil => exact hpending.goal
    | cons c cs' =>
      have hlt := hshort c rfl
      have hall := congrArg List.length hpending.bytes
      rw [append_nil, wireOf, flatMap_cons, length_append] at hall
      omega

/-- **The reader** over a tunnel that holds the capsules. -/
theorem runCapsuleReader_pending {reads : Nat} {st : TunnelState} {last : ReadError}
    (hreads : rest.length < reads) (hst : Holds st rest last) (h : Pending rest goal cs r) :
    ∃ r', runCapsuleReader reads st r = some r' ∧ (r'.session, r'.handled) = goal := by
  induction reads generalizing st r rest cs with
  | zero => exact absurd hreads (Nat.not_lt_zero _)
  | succ reads ih =>
    rw [runCapsuleReader]
    obtain ⟨r', hbefore, hdone⟩ | ⟨r', cs', hbefore, hpending, hended⟩ := beforeRead_pending h
    · rw [hbefore]
      exact ⟨r', rfl, hdone⟩
    · have hroom : 0 < 4096 := by decide
      obtain ⟨result, st', hread, hserves⟩ := readLoop_serves hroom hst (Nat.lt_succ_self _)
      rw [hbefore]
      dsimp only
      rw [tunnelReadSome, if_neg (Nat.ne_of_gt hroom), hread, Option.bind_some]
      obtain ⟨more, herror, hne, -, rfl, hmore⟩ | ⟨hempty, rfl, -⟩ := hserves
      · have hnext : afterRead r' result = .next { r' with buf := r'.buf ++ result.bytes } := by
          rw [afterRead, herror, isEmpty_eq_false_iff.mpr hne]
          rfl
        dsimp only
        rw [hnext]
        have hpos := length_pos_iff.mpr hne
        rw [length_append] at hreads
        refine ih (show more.length < reads by omega) hmore
          ⟨hpending.legal, ?_, hpending.goal, hpending.ongoing⟩
        rw [append_assoc]
        exact hpending.bytes
      · exact ⟨_, rfl, hended hempty⟩

/-! ## How a session ends -/

/-- The code of a CLOSE capsule in its four bytes. -/
theorem code_bytes (n : Nat) : (byteAt n 3).toNat <<< 24 ||| (byteAt n 2).toNat <<< 16 |||
    (byteAt n 1).toNat <<< 8 ||| (byteAt n 0).toNat = n % 2 ^ 32 := by
  have hshift : ∀ x y k : Nat, y < 2 ^ k → x <<< k ||| y = x * 2 ^ k + y := by
    intro x y k hy
    rw [← Nat.shiftLeft_add_eq_or_of_lt hy, Nat.shiftLeft_eq]
  have hbyte : ∀ i, (byteAt n i).toNat < 2 ^ 8 := fun i => (byteAt n i).toNat_lt
  have hfirst := hbyte 0
  have hsecond := hbyte 1
  have hthird := hbyte 2
  rw [Nat.or_assoc, Nat.or_assoc, hshift _ _ 8 hfirst, hshift _ _ 16 (by omega),
    hshift _ _ 24 (by omega)]
  simp only [byteAt_toNat]
  omega

theorem utf8Prefix_longest (s : Bytes) (max : Nat) : LongestWhole max s (utf8Prefix s max) :=
  utf8Head_longest s max

theorem utf8Prefix_idem (s : Bytes) (max : Nat) :
    utf8Prefix (utf8Prefix s max) max = utf8Prefix s max := by
  have hshort := (utf8Prefix_longest s max).bounded
  show WebSocketCodec.utf8Head (utf8Prefix s max) max = _
  rw [WebSocketCodec.utf8Head, if_pos hshort]

/-- `decode_close_session` reads back what `encode_close_session` wrote. -/
theorem decodeCloseSession_closePayload (code : UInt32) (reason : Bytes) :
    decodeCloseSession (closePayload code reason) =
      some (code, utf8Prefix reason kMaxCloseReasonBytes) := by
  have hshort := (utf8Prefix_longest reason kMaxCloseReasonBytes).bounded
  show (if (utf8Prefix reason kMaxCloseReasonBytes).length > kMaxCloseReasonBytes then none else _) =
    _
  rw [if_neg (Nat.not_lt.mpr hshort), code_bytes, Nat.mod_eq_of_lt code.toNat_lt,
    UInt32.ofNat_toNat]
  rfl

theorem settle_handled (s : Session) (handled : List (Nat × Bytes)) (cs : List Capsule) :
    (settle s handled cs).2 = handled ++ (upToClose cs).map fun c => (c.type, c.payload) := by
  induction cs generalizing s handled with
  | nil => exact (append_nil handled).symm
  | cons c cs ih =>
    rw [settle, upToClose]
    split
    · rfl
    · rw [ih, map_cons, append_assoc]
      rfl

theorem terminate_drain (s : Session) (code : UInt32) (reason : Bytes) (notifyPeer : Bool) :
    (s.terminate code reason notifyPeer).drainRequested = s.drainRequested := by
  rw [Session.terminate]
  split <;> rfl

/-- Only a DRAIN asks for a drain. -/
theorem onCapsule_drain (s : Session) (type : Nat) (payload : Bytes) :
    (s.onCapsule type payload).drainRequested =
      (s.drainRequested || decide (type = kCapsuleDrainSession)) := by
  rw [Session.onCapsule]
  split
  · next hclose =>
    rw [hclose, decide_eq_false (by decide), Bool.or_false]
    split
    · exact terminate_drain _ _ _ _
    · exact terminate_drain _ _ _ _
  · split
    · next hdrain => rw [decide_eq_true hdrain, Bool.or_true]
    · next hdrain => rw [decide_eq_false hdrain, Bool.or_false]

/-- A drain is requested when a DRAIN comes before the end of the session. -/
theorem settle_drain (s : Session) (handled : List (Nat × Bytes)) (cs : List Capsule) :
    (settle s handled cs).1.drainRequested =
      (s.drainRequested || (upToClose cs).any fun c => c.type = kCapsuleDrainSession) := by
  induction cs generalizing s handled with
  | nil => exact (terminate_drain s 0 [] false).trans (Bool.or_false _).symm
  | cons c cs ih =>
    rw [settle, upToClose]
    split
    · rw [any_cons, any_nil, Bool.or_false]
      exact onCapsule_drain s c.type c.payload
    · rw [ih, onCapsule_drain, any_cons, Bool.or_assoc]

/-- Capsules that do not close leave the session open and its end undecided. -/
theorem settle_append {s : Session} {before : List Capsule}
    (hbefore : ∀ c ∈ before, c.type ≠ kCapsuleCloseSession) (h : s.closed = false)
    (handled : List (Nat × Bytes)) (cs : List Capsule) : ∃ s' handled',
      settle s handled (before ++ cs) = settle s' handled' cs ∧ s'.closed = false := by
  induction before generalizing s handled with
  | nil => exact ⟨s, handled, rfl, h⟩
  | cons c before ih =>
    obtain ⟨hfirst, hrest⟩ := forall_mem_cons.mp hbefore
    rw [cons_append, settle, if_neg hfirst]
    exact ih hrest (onCapsule_open hfirst h) _

theorem terminate_open {s : Session} (h : s.closed = false) (code : UInt32) (reason : Bytes)
    (notifyPeer : Bool) :
    (s.terminate code reason notifyPeer).closed = true ∧
      (s.terminate code reason notifyPeer).closeCode = code ∧
      (s.terminate code reason notifyPeer).closeReason =
        utf8Prefix reason kMaxCloseReasonBytes := by
  rw [Session.terminate, if_neg (Bool.eq_false_iff.mp h)]
  exact ⟨rfl, rfl, rfl⟩

/-- A close that a peer has written. -/
theorem settle_close {s : Session} (h : s.closed = false) (handled : List (Nat × Bytes))
    (code : UInt32) (reason : Bytes) (after : List Capsule) :
    (settle s handled (.close code reason :: after)).1.closed = true ∧
      (settle s handled (.close code reason :: after)).1.closeCode = code ∧
      (settle s handled (.close code reason :: after)).1.closeReason =
        utf8Prefix reason kMaxCloseReasonBytes := by
  have hclose : (settle s handled (.close code reason :: after)).1 =
      s.terminate code (utf8Prefix reason kMaxCloseReasonBytes) false := by
    show s.onCapsule kCapsuleCloseSession (closePayload code reason) = _
    rw [Session.onCapsule, if_pos rfl, decodeCloseSession_closePayload]
  rw [hclose]
  obtain ⟨hclosed, hcode, hreason⟩ :=
    terminate_open h code (utf8Prefix reason kMaxCloseReasonBytes) false
  exact ⟨hclosed, hcode, hreason.trans (utf8Prefix_idem _ _)⟩

/-- **Capsule streams.**  However the capsules are packed into DATA frames and however these
    arrive, the reader ends, and it has handled the capsules up to the first CLOSE and no
    others; a DRAIN among them asks for a drain, and nothing else does; a CLOSE that
    `encode_close_session` wrote ends the session with its code and with the longest prefix of
    its reason that is short enough and splits no sequence, and without a CLOSE the session
    ends with code 0. -/
theorem capsules_handled (cs : List Capsule) (payloads : List Bytes) (leftover : Bytes)
    (inner : Inner) (s : Session) (reads : Nat) (hlegal : ∀ c ∈ cs, c.Legal)
    (hpayloads : ∀ p ∈ payloads, p.length < 2 ^ 62) (hpacked : payloads.flatten = wireOf cs)
    (harrives : leftover ++ inner.bytes = payloads.flatMap encodeTunnelDataFrame)
    (hopen : s.closed = false) (hreads : (wireOf cs).length < reads) :
    ∃ r, runCapsuleReader reads (makeDataTunnel inner leftover) { session := s } = some r ∧
      r.handled = (upToClose cs).map (fun c => (c.type, c.payload)) ∧
      r.session.drainRequested =
        (s.drainRequested || (upToClose cs).any fun c => c.type = kCapsuleDrainSession) ∧
      (∀ before code reason after, cs = before ++ .close code reason :: after →
        (∀ c ∈ before, c.type ≠ kCapsuleCloseSession) →
          r.session.closed = true ∧ r.session.closeCode = code ∧
            LongestWhole kMaxCloseReasonBytes reason r.session.closeReason ∧
            (WebSocketUtf8.ValidUtf8 reason →
              LongestText kMaxCloseReasonBytes reason r.session.closeReason)) ∧
      ((∀ c ∈ cs, c.type ≠ kCapsuleCloseSession) →
        r.session.closed = true ∧ r.session.closeCode = 0 ∧ r.session.closeReason = []) := by
  have hframes := written_frames hpayloads inner.ending
  rw [tunnelWrite_all, hpacked, ← harrives] at hframes
  have hholds : Holds (makeDataTunnel inner leftover) (wireOf cs) (inner.ending.getD .eof) :=
    ⟨Nat.zero_le _, .between rfl rfl rfl hframes⟩
  obtain ⟨r, hrun, hgoal⟩ := runCapsuleReader_pending (r := { session := s }) hreads hholds
    ⟨hlegal, rfl, rfl, hopen⟩
  have hsession : r.session = (settle s [] cs).1 := congrArg Prod.fst hgoal
  have hhandled : r.handled = (settle s [] cs).2 := congrArg Prod.snd hgoal
  refine ⟨r, hrun, ?_, ?_, ?_, ?_⟩
  · rw [hhandled, settle_handled, nil_append]
  · rw [hsession, settle_drain]
  · rintro before code reason after rfl hbefore
    obtain ⟨s', handled', hsame, hopen'⟩ :=
      settle_append hbefore hopen [] (.close code reason :: after)
    rw [hsession, hsame]
    obtain ⟨hclosed, hcode, hreason⟩ := settle_close hopen' handled' code reason after
    rw [hreason]
    have hlongest := utf8Prefix_longest reason kMaxCloseReasonBytes
    exact ⟨hclosed, hcode, hlongest, hlongest.text⟩
  · intro hnone
    obtain ⟨s', handled', hsame, hopen'⟩ := settle_append hnone hopen [] []
    rw [append_nil] at hsame
    rw [hsession, hsame]
    exact terminate_open hopen' 0 [] false

/-- A DRAIN, a CLOSE and a capsule behind it. -/
def farewell : List Capsule :=
  [.plain kCapsuleDrainSession [], .close 7 (text "bye"), .plain 0x21 (text "x")]

/-- The two DATA frames that they are packed into. -/
def farewellFrames : Bytes :=
  [(wireOf farewell).take 7, (wireOf farewell).drop 7].flatMap encodeTunnelDataFrame

/-- They arrive in pieces that cut frames and capsules. -/
theorem capsules_handled_farewell : ∃ r,
    runCapsuleReader 21 (makeDataTunnel ⟨[⟨(farewellFrames.drop 1).take 6, none, by decide⟩,
        ⟨farewellFrames.drop 7, none, by decide⟩], some .eof⟩ (farewellFrames.take 1)) {} =
      some r ∧
      r.handled = [(kCapsuleDrainSession, []), (kCapsuleCloseSession, closePayload 7 (text "bye"))] ∧
      r.session.drainRequested = true ∧ r.session.closeCode = 7 := by
  have hlegal : ∀ c ∈ farewell, c.Legal := by
    simp only [farewell, forall_mem_cons]
    exact ⟨⟨by decide, by decide⟩, ⟨by decide, by decide⟩, ⟨by decide, by decide⟩, nofun⟩
  obtain ⟨r, hrun, hhandled, hdrain, hclose, -⟩ := capsules_handled farewell
    [(wireOf farewell).take 7, (wireOf farewell).drop 7] (farewellFrames.take 1)
    ⟨[⟨(farewellFrames.drop 1).take 6, none, by decide⟩,
      ⟨farewellFrames.drop 7, none, by decide⟩], some .eof⟩ {} 21 hlegal (by decide) (by decide)
    (by decide) rfl (by decide)
  obtain ⟨-, hcode, -⟩ := hclose [.plain kCapsuleDrainSession []] 7 (text "bye")
    [.plain 0x21 (text "x")] rfl (by decide)
  exact ⟨r, hrun, hhandled, hdrain.trans (by decide), hcode⟩

end WebTransportCapsules
