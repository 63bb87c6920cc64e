import WaveX.WebSocketRead

/-! # Messages over a WebSocket connection

    What a peer sends is a list of messages, each cut into a first frame and any number
    of continuation frames, with pings and pongs in between.  However the bytes are cut
    into arrivals, successive calls of `read` return the messages, and every ping is
    answered. -/

namespace WebSocketMessages

open QuicVarInt WebSocketCodec WebSocketUtf8 WebSocketOutbox WebSocketRead List

/-! ## What the peer sends -/

/-- A ping or a pong. -/
structure Control where
  ping : Bool
  payload : Bytes
  key : UInt32
  short : payload.length ≤ 125

/-- A part of a message, and the control frames sent just before it. -/
structure Fragment where
  before : List Control
  payload : Bytes
  key : UInt32
  fits : payload.length < 2 ^ 63

/-- The type of a message. -/
inductive DataType where
  | text
  | binary
  deriving DecidableEq, Repr

def DataType.opcode : DataType → Opcode
  | .text => .text
  | .binary => .binary

/-- A message as it is sent: its first frame and the continuation frames. -/
structure Sent where
  type : DataType
  first : Fragment
  more : List Fragment

def Sent.fragments (m : Sent) : List Fragment := m.first :: m.more

def Sent.data (m : Sent) : Bytes := m.fragments.flatMap Fragment.payload

/-- The message that `read` is to return. -/
def Sent.message (m : Sent) : Message := ⟨m.data, m.type.opcode⟩

/-- The mask that a receiver of this role requires. -/
def maskOf (role : Role) (key : UInt32) : Option UInt32 :=
  if role = .server then some key else none

/-- A frame masked as the role of its receiver requires. -/
def received (role : Role) (op : Opcode) (payload : Bytes) (fin : Bool) (key : UInt32) : Bytes :=
  encodeFrame [] op payload fin (maskOf role key)

def Control.bytes (role : Role) (c : Control) : Bytes :=
  received role (if c.ping then .ping else .pong) c.payload true c.key

def controlBytes (role : Role) (cs : List Control) : Bytes := cs.flatMap (Control.bytes role)

/-- The frames of a message from the one with opcode `op` on; the last one has the fin
    bit. -/
def fragmentBytes (role : Role) : Opcode → List Fragment → Bytes
  | _, [] => []
  | op, f :: more =>
      controlBytes role f.before ++ (received role op f.payload more.isEmpty f.key ++
        fragmentBytes role .continuation more)

def Sent.bytes (role : Role) (m : Sent) : Bytes := fragmentBytes role m.type.opcode m.fragments

/-- The payloads of the pings among control frames. -/
def pings (cs : List Control) : List Bytes := (cs.filter Control.ping).map Control.payload

def Sent.pings (m : Sent) : List Bytes :=
  m.fragments.flatMap (fun f => WebSocketMessages.pings f.before)

/-! ## Where a reader stands -/

/-- A reader that is open, with the message it has started to assemble. -/
structure Standing (r : Reader) (started : Option (Opcode × Bytes)) : Prop where
  reading : r.readClosed = false
  buffered : r.rbufConsumed ≤ r.rbuf.length
  inMessage : r.inMessage = started.isSome
  message : r.message = (started.map Prod.snd).getD []
  messageType : ∀ t acc, started = some (t, acc) → r.messageType = t

/-- The bytes that are there and those still to arrive. -/
def stream (r : Reader) (arrivals : List Arrival) : Bytes :=
  r.avail ++ arrivals.flatMap Arrival.bytes

/-- Successful reads of the transport, each with some bytes. -/
def Successful (arrivals : List Arrival) : Prop := ∀ a ∈ arrivals, a.error = none

variable {opts : Options} {r : Reader} {started : Option (Opcode × Bytes)}
  {arrivals : List Arrival} {op : Opcode} {payload rest : Bytes} {fin : Bool} {key : UInt32}

theorem fillBuffer_standing (hs : Standing r started) (bytes : Bytes) :
    Standing (fillBuffer r bytes) started := by
  have hbuffered : (fillBuffer r bytes).rbufConsumed ≤ (fillBuffer r bytes).rbuf.length := by
    rw [fillBuffer]
    split
    · exact Nat.zero_le _
    · split
      · exact Nat.zero_le _
      · rw [length_append]
        exact Nat.le_trans hs.buffered (Nat.le_add_right _ _)
  have hsame : (fillBuffer r bytes).readClosed = r.readClosed ∧
      (fillBuffer r bytes).inMessage = r.inMessage ∧ (fillBuffer r bytes).message = r.message ∧
      (fillBuffer r bytes).messageType = r.messageType := by
    rw [fillBuffer]
    repeat' split
    all_goals exact ⟨rfl, rfl, rfl, rfl⟩
  obtain ⟨hclosed, hin, hmessage, htype⟩ := hsame
  exact ⟨hclosed.trans hs.reading, hbuffered, hin.trans hs.inMessage, hmessage.trans hs.message,
    fun t acc h => htype.trans (hs.messageType t acc h)⟩

/-- A frame that a standing reader does not refuse from its header. -/
structure Legal (opts : Options) (started : Option (Opcode × Bytes)) (op : Opcode) (fin : Bool)
    (len : Nat) : Prop where
  control : op.isControl = true → fin = true ∧ len ≤ 125
  continues : op.isControl = false → (op = .continuation ↔ started.isSome = true)
  size : op.isControl = false →
    ((started.map Prod.snd).getD []).length + len ≤ opts.maxMessageSize

theorem violates_legal {len : Nat} (hs : Standing r started) (hl : Legal opts started op fin len) :
    violates opts r (headerOf op len fin (maskOf opts.role key)) = false := by
  have hmask : ((headerOf op len fin (maskOf opts.role key)).masked !=
      decide (opts.role = .server)) = false := by
    rw [headerOf, maskOf]
    by_cases hrole : opts.role = .server
    · simp [hrole]
    · simp [hrole]
  rw [violates]
  simp only [hmask, hs.inMessage]
  simp only [headerOf, Bool.or_self, Bool.false_or]
  cases hcontrol : op.isControl with
  | true =>
      obtain ⟨hfin, hlen⟩ := hl.control hcontrol
      simp [hfin, hlen]
  | false =>
      have hcontinues := hl.continues hcontrol
      cases hstarted : started.isSome with
      | true => simp [hcontinues.mpr hstarted]
      | false =>
          have hne : op ≠ .continuation := by
            intro heq
            rw [hcontinues.mp heq] at hstarted
            cases hstarted
          simp [hne]

/-! ## One frame -/

/-- The size of a header as the parser reports it. -/
theorem received_length (role : Role) (op : Opcode) (payload : Bytes) (fin : Bool) (key : UInt32) :
    (received role op payload fin key).length =
      (headerOf op payload.length fin (maskOf role key)).headerSize + payload.length := by
  rw [received, encodeFrame_header, length_append, applyMask_length]
  rfl

/-- A round on a reader whose next header is there. -/
theorem round_header {tail : Bytes} (hs : Standing r started)
    (hl : Legal opts started op fin payload.length) (hfits : payload.length < 2 ^ 63)
    (havail : r.avail = headerBytes op payload.length fin (maskOf opts.role key) ++ tail) :
    readRound opts r =
      if r.avail.length ≥ (headerOf op payload.length fin (maskOf opts.role key)).headerSize +
          payload.length then
        onFrame opts (r.consume (headerOf op payload.length fin (maskOf opts.role key)))
          (headerOf op payload.length fin (maskOf opts.role key))
          (r.payloadOf (headerOf op payload.length fin (maskOf opts.role key)))
      else .fill := by
  have hparse : parseHeader r.avail =
      .complete (headerOf op payload.length fin (maskOf opts.role key)) := by
    rw [havail]
    exact parseHeader_headerBytes hfits tail
  have hsmall : ((!op.isControl) && decide (r.message.length + payload.length >
      opts.maxMessageSize)) = false := by
    cases hcontrol : op.isControl with
    | true => rfl
    | false =>
        have hsize := hl.size hcontrol
        rw [← hs.message] at hsize
        simp only [Bool.not_false, Bool.true_and, decide_eq_false_iff_not]
        omega
  rw [readRound, hs.reading, if_neg Bool.false_ne_true, hparse]
  simp only
  rw [violates_legal hs hl, if_neg Bool.false_ne_true]
  exact if_neg (Bool.eq_false_iff.mp hsmall)

/-- A round on part of a frame waits for more. -/
theorem round_part {n : Nat} (hs : Standing r started)
    (hl : Legal opts started op fin payload.length) (hfits : payload.length < 2 ^ 63)
    (hn : n < (received opts.role op payload fin key).length)
    (havail : r.avail = (received opts.role op payload fin key).take n) :
    readRound opts r = .fill := by
  have hlength : r.avail.length = n := by
    rw [havail, length_take_of_le hn.le]
  by_cases hheader : n < (headerBytes op payload.length fin (maskOf opts.role key)).length
  · have hparse : parseHeader r.avail = .incomplete := by
      rw [havail, received, encodeFrame_header, take_append_of_le_length hheader.le]
      exact parseHeader_headerBytes_short hfits hheader
    rw [readRound, hs.reading, if_neg Bool.false_ne_true, hparse]
  · have hsplit : r.avail = headerBytes op payload.length fin (maskOf opts.role key) ++
        (applyMask ((maskOf opts.role key).getD 0) 0 payload).take
          (n - (headerBytes op payload.length fin (maskOf opts.role key)).length) := by
      rw [havail, received, encodeFrame_header, take_append,
        take_of_length_le (Nat.not_lt.mp hheader)]
    rw [received_length] at hn
    rw [round_header hs hl hfits hsplit, if_neg (by omega)]

/-- A round on a whole frame: its payload is unmasked and the bytes after it are left. -/
theorem round_whole {tail : Bytes} (hs : Standing r started)
    (hl : Legal opts started op fin payload.length) (hfits : payload.length < 2 ^ 63)
    (havail : r.avail = received opts.role op payload fin key ++ tail) :
    ∃ r₁, Standing r₁ started ∧ r₁.avail = tail ∧
      readRound opts r =
        onFrame opts r₁ (headerOf op payload.length fin (maskOf opts.role key)) payload := by
  have hlength := received_length opts.role op payload fin key
  have hlong : (headerOf op payload.length fin (maskOf opts.role key)).headerSize +
      (headerOf op payload.length fin (maskOf opts.role key)).payloadLength ≤ r.avail.length := by
    rw [havail, length_append, hlength]
    exact Nat.le_add_right _ _
  have hsplit : r.avail = headerBytes op payload.length fin (maskOf opts.role key) ++
      (applyMask ((maskOf opts.role key).getD 0) 0 payload ++ tail) := by
    rw [havail, received, encodeFrame_header, append_assoc]
  have hraw : (r.avail.drop (headerOf op payload.length fin (maskOf opts.role key)).headerSize).take
      payload.length = applyMask ((maskOf opts.role key).getD 0) 0 payload := by
    rw [hsplit, headerOf, drop_left, take_left' (applyMask_length _ _ _)]
  have hpayload : r.payloadOf (headerOf op payload.length fin (maskOf opts.role key)) =
      payload := by
    rw [payloadOf_eq]
    simp only [show (headerOf op payload.length fin (maskOf opts.role key)).payloadLength =
      payload.length by rfl, hraw]
    simp only [headerOf]
    cases hmask : maskOf opts.role key with
    | none => exact applyMask_zero 0 payload
    | some k => exact applyMask_applyMask k 0 payload
  refine ⟨r.consume (headerOf op payload.length fin (maskOf opts.role key)), ?_, ?_, ?_⟩
  · refine ⟨hs.reading, ?_, hs.inMessage, hs.message, hs.messageType⟩
    have hsize := payloadOf_length hlong
    rw [Reader.avail, length_drop] at hlong
    have hbuffered := hs.buffered
    simp only [Reader.consume, length_append, length_take, hsize]
    omega
  · rw [consume_avail hlong, havail]
    exact drop_left' hlength
  · rw [round_header hs hl hfits hsplit, hpayload]
    exact if_pos hlong

/-- **One frame**: however it arrives, the call comes to the round that has all of it, and
    the bytes after the frame are left. -/
theorem read_frame (hs : Standing r started) (ha : Successful arrivals)
    (hl : Legal opts started op fin payload.length) (hfits : payload.length < 2 ^ 63)
    (hstream : stream r arrivals = received opts.role op payload fin key ++ rest) :
    ∃ r₀ r₁ arrivals₁, read opts r arrivals = read opts r₀ arrivals₁ ∧
      readRound opts r₀ =
        onFrame opts r₁ (headerOf op payload.length fin (maskOf opts.role key)) payload ∧
      Standing r₁ started ∧ Successful arrivals₁ ∧ stream r₁ arrivals₁ = rest := by
  induction arrivals generalizing r with
  | nil =>
      rw [stream, flatMap_nil, append_nil] at hstream
      obtain ⟨r₁, hs₁, havail, hround⟩ := round_whole hs hl hfits hstream
      refine ⟨r, r₁, [], rfl, hround, hs₁, ha, ?_⟩
      rw [stream, havail, flatMap_nil, append_nil]
  | cons a arrivals ih =>
      rcases append_eq_append_iff.mp hstream with ⟨more, hframe, hrest⟩ | ⟨tail, havail, hrest⟩
      · by_cases hmore : more = []
        · -- the buffer ends with the frame
          rw [hmore, append_nil] at hframe
          rw [hmore, nil_append] at hrest
          obtain ⟨r₁, hs₁, havail, hround⟩ :=
            round_whole hs hl hfits (show r.avail = _ ++ [] by rw [append_nil, hframe])
          refine ⟨r, r₁, a :: arrivals, rfl, hround, hs₁, ha, ?_⟩
          rw [stream, havail, hrest, nil_append]
        · have hn : r.avail.length < (received opts.role op payload fin key).length := by
            rw [hframe, length_append]
            have := length_pos_iff.mpr hmore
            omega
          have hpart : r.avail = (received opts.role op payload fin key).take r.avail.length := by
            rw [hframe, take_left]
          have hround := round_part hs hl hfits hn hpart
          have herror : a.error = none := ha a mem_cons_self
          have hnext : stream (fillBuffer r a.bytes) arrivals =
              received opts.role op payload fin key ++ rest := by
            rw [stream, fillBuffer_avail hs.buffered, ← hstream, stream, flatMap_cons,
              append_assoc]
          obtain ⟨r₀, r₁, arrivals₁, hread, hframe⟩ := ih (fillBuffer_standing hs a.bytes)
            (fun b hb => ha b (mem_cons_of_mem _ hb)) hnext
          refine ⟨r₀, r₁, arrivals₁, ?_, hframe⟩
          rw [read_eq, hround]
          simp only [herror]
          exact hread
      · obtain ⟨r₁, hs₁, havail₁, hround⟩ := round_whole hs hl hfits havail
        refine ⟨r, r₁, a :: arrivals, rfl, hround, hs₁, ha, ?_⟩
        rw [stream, havail₁, hrest]

/-! ## Control frames -/

@[simp] theorem after_nil (c : Read) : c.after [] = c := rfl

theorem after_after (a b : List Send) (c : Read) : (c.after b).after a = c.after (a ++ b) := by
  rw [Read.after, Read.after, Read.after, append_assoc]

/-- Control frames leave the message alone, and the pings among them are answered. -/
theorem read_controls (cs : List Control) (hs : Standing r started) (ha : Successful arrivals)
    (hstream : stream r arrivals = controlBytes opts.role cs ++ rest) :
    ∃ r₁ arrivals₁, Standing r₁ started ∧ Successful arrivals₁ ∧ stream r₁ arrivals₁ = rest ∧
      read opts r arrivals = (read opts r₁ arrivals₁).after ((pings cs).map .pong) := by
  induction cs generalizing r arrivals with
  | nil => exact ⟨r, arrivals, hs, ha, hstream, rfl⟩
  | cons c cs ih =>
      rw [controlBytes, flatMap_cons, append_assoc, Control.bytes] at hstream
      have hfits : c.payload.length < 2 ^ 63 := Nat.lt_of_le_of_lt c.short (by decide)
      cases hping : c.ping with
      | true =>
          rw [hping, if_pos rfl] at hstream
          have hl : Legal opts started .ping true c.payload.length :=
            ⟨fun _ => ⟨rfl, c.short⟩, fun h => (by cases h), fun h => (by cases h)⟩
          obtain ⟨r₀, r₁, arrivals₁, hread, hround, hs₁, ha₁, hstream₁⟩ :=
            read_frame hs ha hl hfits hstream
          obtain ⟨r₂, arrivals₂, hs₂, ha₂, hstream₂, hread₂⟩ := ih hs₁ ha₁ hstream₁
          refine ⟨r₂, arrivals₂, hs₂, ha₂, hstream₂, ?_⟩
          rw [hread, read_eq, hround, pings, filter_cons_of_pos hping]
          show (read opts r₁ arrivals₁).after [.pong c.payload] = _
          rw [hread₂, after_after]
          rfl
      | false =>
          rw [hping, if_neg Bool.false_ne_true] at hstream
          have hl : Legal opts started .pong true c.payload.length :=
            ⟨fun _ => ⟨rfl, c.short⟩, fun h => (by cases h), fun h => (by cases h)⟩
          obtain ⟨r₀, r₁, arrivals₁, hread, hround, hs₁, ha₁, hstream₁⟩ :=
            read_frame hs ha hl hfits hstream
          obtain ⟨r₂, arrivals₂, hs₂, ha₂, hstream₂, hread₂⟩ := ih hs₁ ha₁ hstream₁
          refine ⟨r₂, arrivals₂, hs₂, ha₂, hstream₂, ?_⟩
          rw [hread, read_eq, hround, pings, filter_cons_of_neg (by simp [hping])]
          exact hread₂

/-! ## Messages -/

/-- The opcode of the next fragment of a message of type `t` that has `acc` so far: its
    type when nothing has started, `continuation` after that. -/
def Joins (op : Opcode) (started : Option (Opcode × Bytes)) (t : DataType) (acc : Bytes) : Prop :=
  (op = t.opcode ∧ started = none ∧ acc = []) ∨
    (op = .continuation ∧ started = some (t.opcode, acc))

variable {t : DataType} {acc : Bytes}

theorem opcode_data (t : DataType) : t.opcode.isControl = false ∧ t.opcode ≠ .continuation := by
  cases t <;> decide

theorem Joins.legal (hj : Joins op started t acc) (fin : Bool) {len : Nat}
    (hsize : acc.length + len ≤ opts.maxMessageSize) : Legal opts started op fin len := by
  obtain ⟨hdata, hne⟩ := opcode_data t
  rcases hj with ⟨rfl, rfl, rfl⟩ | ⟨rfl, rfl⟩
  · refine ⟨fun h => ?_, fun _ => ?_, fun _ => hsize⟩
    · rw [hdata] at h
      cases h
    · exact ⟨fun h => absurd h hne, fun h => absurd h Bool.false_ne_true⟩
  · exact ⟨fun h => absurd h Bool.false_ne_true, fun _ => ⟨fun _ => rfl, fun _ => rfl⟩,
      fun _ => hsize⟩

theorem Joins.onFrame (hj : Joins op started t acc) (r : Reader) (len : Nat) (fin : Bool)
    (mask : Option UInt32) (payload : Bytes) :
    WebSocketRead.onFrame opts r (headerOf op len fin mask) payload =
      onData opts r (headerOf op len fin mask) payload := by
  rcases hj with ⟨rfl, -, -⟩ | ⟨rfl, -⟩
  · cases t <;> rfl
  · rfl

/-- The fragment is added to the message. -/
theorem Joins.assemble (hj : Joins op started t acc) (hs : Standing r started) (len : Nat)
    (fin : Bool) (mask : Option UInt32) (payload : Bytes) :
    Standing (r.assemble (headerOf op len fin mask) payload)
      (some (t.opcode, acc ++ payload)) := by
  rcases hj with ⟨rfl, -, rfl⟩ | ⟨rfl, rfl⟩
  · have hstart : r.assemble (headerOf t.opcode len fin mask) payload =
        { r with inMessage := true, messageType := t.opcode, message := payload } := by
      cases t <;> rfl
    rw [hstart]
    refine ⟨hs.reading, hs.buffered, rfl, rfl, ?_⟩
    intro t' acc' h
    exact congrArg Prod.fst (Option.some.inj h)
  · have hmessage : r.message = acc := hs.message
    have hgo : r.assemble (headerOf .continuation len fin mask) payload =
        { r with message := acc ++ payload } := by
      rw [Reader.assemble]
      simp only [headerOf, ne_eq, not_true, if_false, hmessage]
    rw [hgo]
    refine ⟨hs.reading, hs.buffered, hs.inMessage, rfl, ?_⟩
    intro t' acc' h
    cases h
    exact hs.messageType t.opcode acc rfl

/-- A fragment without the fin bit is kept. -/
theorem onData_more (hj : Joins op started t acc) (hs : Standing r started) (len : Nat)
    (mask : Option UInt32) (payload : Bytes) :
    ∃ r₁, Standing r₁ (some (t.opcode, acc ++ payload)) ∧ r₁.avail = r.avail ∧
      onData opts r (headerOf op len false mask) payload = .again r₁ [] :=
  ⟨_, hj.assemble hs len false mask payload, assemble_avail _ _ _, rfl⟩

/-- The fragment with the fin bit ends the message, which is returned. -/
theorem onData_last (hj : Joins op started t acc) (hs : Standing r started) (len : Nat)
    (mask : Option UInt32) (payload : Bytes) (htext : t = .text → ValidUtf8 (acc ++ payload)) :
    ∃ r₁, Standing r₁ none ∧ r₁.avail = r.avail ∧
      onData opts r (headerOf op len true mask) payload =
        .returned (.ok ⟨acc ++ payload, t.opcode⟩) r₁ [] := by
  have hs₁ := hj.assemble hs len true mask payload
  have havail := assemble_avail r (headerOf op len true mask) payload
  generalize hr₁ : r.assemble (headerOf op len true mask) payload = r₁ at hs₁ havail
  have hmessage : r₁.message = acc ++ payload := hs₁.message
  have htype : r₁.messageType = t.opcode := hs₁.messageType _ _ rfl
  refine ⟨{ r₁ with inMessage := false, message := [] },
    ⟨hs₁.reading, hs₁.buffered, rfl, rfl, fun t acc h => by cases h⟩, havail, ?_⟩
  have hvalid : ¬ (decide (t.opcode = .text) && opts.validateUtf8 &&
      !isValidUtf8 (acc ++ payload)) = true := by
    intro hbad
    rw [Bool.and_eq_true, Bool.and_eq_true, decide_eq_true_eq] at hbad
    have ht : t = .text := by
      cases t with
      | text => rfl
      | binary => cases hbad.1.1
    rw [(isValidUtf8_iff _).mpr (htext ht)] at hbad
    cases hbad.2
  rw [onData, hr₁]
  simp only [hmessage, htype]
  rw [if_neg hvalid]
  rfl

/-- The fragments that are left, up to the one with the fin bit: the call returns the
    message, and the pings on the way are answered. -/
theorem read_fragments (f : Fragment) (more : List Fragment) (hs : Standing r started)
    (ha : Successful arrivals) (hj : Joins op started t acc)
    (hsize : (acc ++ (f :: more).flatMap Fragment.payload).length ≤ opts.maxMessageSize)
    (htext : t = .text → ValidUtf8 (acc ++ (f :: more).flatMap Fragment.payload))
    (hstream : stream r arrivals = fragmentBytes opts.role op (f :: more) ++ rest) :
    ∃ r₁ arrivals₁, Standing r₁ none ∧ Successful arrivals₁ ∧ stream r₁ arrivals₁ = rest ∧
      read opts r arrivals =
        ⟨some (.ok ⟨acc ++ (f :: more).flatMap Fragment.payload, t.opcode⟩), r₁, arrivals₁,
          ((f :: more).flatMap (fun f => pings f.before)).map .pong⟩ := by
  induction more generalizing f r arrivals op started acc with
  | nil =>
      rw [fragmentBytes, fragmentBytes, append_nil, append_assoc] at hstream
      simp only [flatMap_cons, flatMap_nil, append_nil] at hsize htext ⊢
      rw [length_append] at hsize
      obtain ⟨r₁, arrivals₁, hs₁, ha₁, hstream₁, hread₁⟩ := read_controls f.before hs ha hstream
      obtain ⟨r₂, r₃, arrivals₃, hread₃, hround, hs₃, ha₃, hstream₃⟩ :=
        read_frame hs₁ ha₁ (hj.legal true hsize) f.fits hstream₁
      obtain ⟨r₄, hs₄, havail, hdata⟩ := onData_last hj hs₃ f.payload.length
        (maskOf opts.role f.key) f.payload htext
      refine ⟨r₄, arrivals₃, hs₄, ha₃, ?_, ?_⟩
      · rw [← hstream₃, stream, stream, havail]
      · rw [hread₁, hread₃, read_eq, hround, hj.onFrame, hdata]
        simp only [Read.after, append_nil]
  | cons g more ih =>
      rw [fragmentBytes, append_assoc, append_assoc] at hstream
      rw [flatMap_cons, ← append_assoc] at hsize htext
      have hsmall : acc.length + f.payload.length ≤ opts.maxMessageSize := by
        rw [length_append, length_append] at hsize
        omega
      obtain ⟨r₁, arrivals₁, hs₁, ha₁, hstream₁, hread₁⟩ := read_controls f.before hs ha hstream
      obtain ⟨r₂, r₃, arrivals₃, hread₃, hround, hs₃, ha₃, hstream₃⟩ :=
        read_frame hs₁ ha₁ (hj.legal false hsmall) f.fits hstream₁
      obtain ⟨r₄, hs₄, havail, hdata⟩ := onData_more hj hs₃ f.payload.length
        (maskOf opts.role f.key) f.payload
      obtain ⟨r₅, arrivals₅, hs₅, ha₅, hstream₅, hread₅⟩ := ih g hs₄ ha₃ (.inr ⟨rfl, rfl⟩) hsize
        htext (show stream r₄ arrivals₃ = _ by rw [← hstream₃, stream, stream, havail])
      refine ⟨r₅, arrivals₅, hs₅, ha₅, hstream₅, ?_⟩
      rw [hread₁, hread₃, read_eq, hround, hj.onFrame, hdata]
      simp only [after_nil]
      rw [hread₅]
      simp only [Read.after, flatMap_cons, map_append, append_assoc]

/-! ## A whole conversation -/

/-- What a peer sends: messages, and control frames after the last of them. -/
def conversation (role : Role) (ms : List Sent) (last : List Control) : Bytes :=
  ms.flatMap (Sent.bytes role) ++ controlBytes role last

/-- The payloads of all pings of a conversation. -/
def allPings (ms : List Sent) (last : List Control) : List Bytes :=
  ms.flatMap Sent.pings ++ pings last

/-- A message that the receiver is ready to take. -/
def Acceptable (opts : Options) (m : Sent) : Prop :=
  m.data.length ≤ opts.maxMessageSize ∧ (m.type = .text → ValidUtf8 m.data)

/-- Successive calls return the messages; the calls after them start where these end. -/
theorem reads_messages (ms : List Sent) (hs : Standing r none) (ha : Successful arrivals)
    (hms : ∀ m ∈ ms, Acceptable opts m)
    (hstream : stream r arrivals = ms.flatMap (Sent.bytes opts.role) ++ rest) :
    ∃ r₁ arrivals₁, Standing r₁ none ∧ Successful arrivals₁ ∧ stream r₁ arrivals₁ = rest ∧
      ∀ k, reads opts (ms.length + k) r arrivals =
        (ms.map (fun m => .ok m.message) ++ (reads opts k r₁ arrivals₁).1,
          (reads opts k r₁ arrivals₁).2.1, (reads opts k r₁ arrivals₁).2.2.1,
          (ms.flatMap Sent.pings).map .pong ++ (reads opts k r₁ arrivals₁).2.2.2) := by
  induction ms generalizing r arrivals with
  | nil =>
      refine ⟨r, arrivals, hs, ha, hstream, ?_⟩
      intro k
      rw [length_nil, Nat.zero_add]
      rfl
  | cons m ms ih =>
      obtain ⟨hsize, htext⟩ := hms m mem_cons_self
      rw [flatMap_cons, append_assoc] at hstream
      obtain ⟨r₁, arrivals₁, hs₁, ha₁, hstream₁, hread⟩ :=
        read_fragments m.first m.more hs ha (.inl ⟨rfl, rfl, rfl⟩) hsize htext hstream
      obtain ⟨r₂, arrivals₂, hs₂, ha₂, hstream₂, hreads⟩ := ih hs₁ ha₁
        (fun m' hm' => hms m' (mem_cons_of_mem _ hm')) hstream₁
      refine ⟨r₂, arrivals₂, hs₂, ha₂, hstream₂, ?_⟩
      intro k
      have hpings : ((m :: ms).flatMap Sent.pings).map Send.pong =
          m.pings.map .pong ++ (ms.flatMap Sent.pings).map .pong := by
        rw [flatMap_cons, map_append]
      rw [show (m :: ms).length + k = ms.length + k + 1 by rw [length_cons]; omega, reads,
        hread, hpings, append_assoc]
      simp only
      rw [hreads k]
      rfl

/-- With nothing left to arrive, the next call answers the last pings and waits. -/
theorem read_waits (last : List Control) (hs : Standing r none) (ha : Successful arrivals)
    (hstream : stream r arrivals = controlBytes opts.role last) :
    ∃ r₁, Standing r₁ none ∧ r₁.avail = [] ∧
      read opts r arrivals = ⟨none, r₁, [], (pings last).map .pong⟩ := by
  rw [← append_nil (controlBytes opts.role last)] at hstream
  obtain ⟨r₁, arrivals₁, hs₁, ha₁, hstream₁, hread⟩ := read_controls last hs ha hstream
  obtain ⟨havail, hbytes⟩ := append_eq_nil_iff.mp hstream₁
  have hnone : arrivals₁ = [] := by
    cases arrivals₁ with
    | nil => rfl
    | cons a more =>
        have herror := ha₁ a mem_cons_self
        rw [flatMap_cons, append_eq_nil_iff] at hbytes
        rw [Arrival.error, hbytes.1] at herror
        split at herror
        · cases herror
        · split at herror <;> cases herror
  refine ⟨r₁, hs₁, havail, ?_⟩
  have hround : readRound opts r₁ = .fill := by
    rw [readRound, hs₁.reading, if_neg Bool.false_ne_true, havail]
    rfl
  rw [hread, hnone, read_eq, hround]
  simp only [Read.after, append_nil]

/-- The close frame of the peer, also in the middle of a message. -/
theorem read_close {code : Nat} {reason : Bytes} (hs : Standing r started)
    (ha : Successful arrivals) (hshort : payload.length ≤ 125)
    (hpayload : parseClosePayload payload = some (code, reason)) (hreason : ValidUtf8 reason)
    (hstream : stream r arrivals = received opts.role .close payload true key ++ rest) :
    ∃ r₁ arrivals₁, r₁.readClosed = true ∧ r₁.closeCode = code ∧ r₁.closeReason = reason ∧
      read opts r arrivals = ⟨some (.error .closed), r₁, arrivals₁, [.close code]⟩ := by
  have hl : Legal opts started .close true payload.length :=
    ⟨fun _ => ⟨rfl, hshort⟩, fun h => absurd h.symm Bool.false_ne_true,
      fun h => absurd h.symm Bool.false_ne_true⟩
  obtain ⟨r₂, r₃, arrivals₃, hread₃, hround, -⟩ :=
    read_frame hs ha hl (Nat.lt_of_le_of_lt hshort (by decide)) hstream
  have hclose : onFrame opts r₃ (headerOf .close payload.length true (maskOf opts.role key))
      payload = .returned (.error .closed)
        { r₃ with
          closeReason := reason, closeCode := code, closeReceived := true, readClosed := true }
        [.close code] := by
    show onClose opts r₃ payload = _
    rw [onClose, hpayload]
    simp only [(isValidUtf8_iff reason).mpr hreason, Bool.not_true, Bool.and_false]
    rfl
  refine ⟨{ r₃ with
    closeReason := reason, closeCode := code, closeReceived := true, readClosed := true },
    arrivals₃, rfl, rfl, rfl, ?_⟩
  rw [hread₃, read_eq, hround, hclose]

/-- The close frame of the peer, behind control frames. -/
theorem read_peerClose {code : Nat} {reason : Bytes} (last : List Control) (hs : Standing r none)
    (ha : Successful arrivals) (hshort : payload.length ≤ 125)
    (hpayload : parseClosePayload payload = some (code, reason)) (hreason : ValidUtf8 reason)
    (hstream : stream r arrivals =
      controlBytes opts.role last ++ (received opts.role .close payload true key ++ rest)) :
    ∃ r₁ arrivals₁, r₁.readClosed = true ∧ r₁.closeCode = code ∧ r₁.closeReason = reason ∧
      read opts r arrivals =
        ⟨some (.error .closed), r₁, arrivals₁, (pings last).map .pong ++ [.close code]⟩ := by
  obtain ⟨r₁, arrivals₁, hs₁, ha₁, hstream₁, hread₁⟩ := read_controls last hs ha hstream
  obtain ⟨r₂, arrivals₂, hclosed, hcode, hkept, hread₂⟩ :=
    read_close hs₁ ha₁ hshort hpayload hreason hstream₁
  refine ⟨r₂, arrivals₂, hclosed, hcode, hkept, ?_⟩
  rw [hread₁, hread₂]
  rfl

/-! ## The pongs in the outbox -/

/-- The sends of `read` in their order, with the steps of the other users of the
    connection in between. -/
inductive Interleaved (cfg : Config) : List Send → Session → Session → Prop
  | done (s : Session) : Interleaved cfg [] s s
  | other {s s₁ s₂ : Session} {sends : List Send} {a : Action} (hstep : step cfg s a = some s₁)
      (hrest : Interleaved cfg sends s₁ s₂) : Interleaved cfg sends s s₂
  | send {s s₂ : Session} {x : Send} {sends : List Send} (key : UInt32)
      (hrest : Interleaved cfg sends (perform cfg key s x).1 s₂) : Interleaved cfg (x :: sends) s s₂

variable {cfg : Config} {s s' : Session} {sends : List Send}

theorem perform_later (cfg : Config) (key : UInt32) (s : Session) (x : Send) :
    Later s (perform cfg key s x).1 := by
  cases x with
  | pong payload =>
      rw [perform]
      split
      · exact .refl s
      · exact enqueue_later s .pong payload false key
  | close code =>
      rw [perform, Session.call]
      split
      · exact .refl s
      · exact enqueue_later s _ _ _ key

theorem Interleaved.later (h : Interleaved cfg sends s s') : Later s s' := by
  induction h with
  | done s => exact .refl s
  | other hstep _ ih => exact (step_later hstep).trans ih
  | send key _ ih => exact (perform_later cfg key _ _).trans ih

/-- While no close was sent and no write has failed, every pong is accepted, in order and
    with the payload of its ping, whatever the others send in between. -/
theorem interleaved_pongs {payloads : List Bytes}
    (h : Interleaved cfg (payloads.map .pong) s s') (hclose : s'.out.closeSent = false)
    (hfailed : s'.out.writeFailed = false) :
    ∃ keys later, keys.length = payloads.length ∧ s'.accepted = s.accepted ++ later ∧
      List.Sublist (List.zipWith (fun p key => (.pong, wire cfg .pong p key)) payloads keys)
        later := by
  generalize hsends : payloads.map Send.pong = sends at h
  induction h generalizing payloads with
  | done s =>
      obtain rfl : payloads = [] := map_eq_nil_iff.mp hsends
      exact ⟨[], [], rfl, (append_nil _).symm, .slnil⟩
  | other hstep hrest ih =>
      obtain ⟨keys, later, hkeys, haccepted, hsub⟩ := ih hclose hfailed hsends
      obtain ⟨more, hmore⟩ := (step_later hstep).accepted
      refine ⟨keys, more ++ later, hkeys, ?_, hsub.trans (sublist_append_right _ _)⟩
      rw [haccepted, hmore, append_assoc]
  | @send s s₂ x sends key hrest ih =>
      cases payloads with
      | nil => cases hsends
      | cons p payloads =>
          obtain ⟨rfl, htail⟩ := List.cons.inj hsends
          obtain ⟨keys, later, hkeys, haccepted, hsub⟩ := ih hclose hfailed htail
          have hlater := (perform_later cfg key s (.pong p)).trans hrest.later
          have hopen : s.out.closeSent = false := hlater.closeSent hclose
          have hfine : s.out.writeFailed = false := hlater.writeFailed hfailed
          have hperform : (perform cfg key s (.pong p)).1.accepted =
              s.accepted ++ [(.pong, wire cfg .pong p key)] := by
            rw [perform, hopen, if_neg Bool.false_ne_true]
            have hok : (s.enqueue cfg .pong p false key).2 = true :=
              enqueue_control cfg rfl hfine hopen p false key
            rcases enqueue_session cfg s .pong p false key with hsame | ⟨-, -, haccept⟩
            · rw [hsame] at hok
              cases hok
            · rw [haccept]
          refine ⟨key :: keys, (.pong, wire cfg .pong p key) :: later, ?_, ?_, ?_⟩
          · rw [length_cons, length_cons, hkeys]
          · rw [haccepted, hperform, append_assoc]
            rfl
          · rw [zipWith_cons_cons]
            exact hsub.cons_cons _

/-! ## The contract of `read` -/

/-- **Reading**: the messages of a conversation are returned in order, however they are
    fragmented, mixed with control frames and cut into arrivals, and the next call
    answers the remaining pings and waits; behind a close frame every call fails with
    `closed`, and its code and reason are kept; the answers to the pings are enqueued in
    order while no close was sent and no write has failed; and whatever arrives, a
    message returned is within the bounds and an error is final. -/
theorem read_contract (opts : Options) (cfg : Config) :
    (∀ ms last leftover arrivals, Successful arrivals → (∀ m ∈ ms, Acceptable opts m) →
      leftover ++ arrivals.flatMap Arrival.bytes = conversation opts.role ms last →
      ∃ r, reads opts (ms.length + 1) { rbuf := leftover } arrivals =
        (ms.map (fun m => .ok m.message), r, [], (allPings ms last).map .pong)) ∧
    (∀ ms last leftover arrivals payload key code reason after, Successful arrivals →
      (∀ m ∈ ms, Acceptable opts m) → payload.length ≤ 125 →
      parseClosePayload payload = some (code, reason) → ValidUtf8 reason →
      leftover ++ arrivals.flatMap Arrival.bytes =
        conversation opts.role ms last ++ received opts.role .close payload true key ++ after →
      ∃ r arrivals', r.closeCode = code ∧ r.closeReason = reason ∧
        ∀ k, reads opts (ms.length + (k + 1)) { rbuf := leftover } arrivals =
          (ms.map (fun m => .ok m.message) ++ List.replicate (k + 1) (.error .closed), r,
            arrivals', (allPings ms last).map .pong ++ [.close code])) ∧
    (∀ payloads s s', Interleaved cfg (payloads.map .pong) s s' → s'.out.closeSent = false →
      s'.out.writeFailed = false →
      ∃ keys later, keys.length = payloads.length ∧ s'.accepted = s.accepted ++ later ∧
        List.Sublist (List.zipWith (fun p key => (.pong, wire cfg .pong p key)) payloads keys)
          later) ∧
    ∀ n r arrivals,
      (∀ m, .ok m ∈ (reads opts n r arrivals).1 → m.data.length ≤ opts.maxMessageSize ∧
        (m.type = .text → opts.validateUtf8 = true → ValidUtf8 m.data)) ∧
      ∀ before err after, (reads opts n r arrivals).1 = before ++ .error err :: after →
        ∀ result ∈ after, result = .error .closed := by
  have hstart (leftover : Bytes) : Standing { rbuf := leftover } none :=
    ⟨rfl, Nat.zero_le _, rfl, rfl, fun t acc h => by cases h⟩
  refine ⟨?_, ?_, fun payloads s s' h => interleaved_pongs h, reads_bounded opts⟩
  · intro ms last leftover arrivals ha hms hstream
    obtain ⟨r₁, arrivals₁, hs₁, ha₁, hstream₁, hreads⟩ :=
      reads_messages ms (hstart leftover) ha hms hstream
    obtain ⟨r₂, -, -, hread⟩ := read_waits last hs₁ ha₁ hstream₁
    refine ⟨r₂, ?_⟩
    rw [hreads 1, reads, hread]
    simp only [append_nil, allPings, map_append]
  · intro ms last leftover arrivals payload key code reason after ha hms hshort hpayload hreason
      hstream
    rw [conversation, append_assoc, append_assoc] at hstream
    obtain ⟨r₁, arrivals₁, hs₁, ha₁, hstream₁, hreads⟩ :=
      reads_messages ms (hstart leftover) ha hms hstream
    obtain ⟨r₂, arrivals₂, hclosed, hcode, hkept, hread⟩ :=
      read_peerClose last hs₁ ha₁ hshort hpayload hreason hstream₁
    refine ⟨r₂, arrivals₂, hcode, hkept, ?_⟩
    intro k
    rw [hreads (k + 1), reads, hread]
    simp only [reads_closed hclosed, append_nil, allPings, map_append,
      replicate_succ, append_assoc]

/-- A text in two fragments with a ping between them. -/
def greeting : Sent :=
  ⟨.text, ⟨[], text "H", 1, by decide⟩, [⟨[⟨true, text "p", 2, by decide⟩], text "i", 3, by decide⟩]⟩

/-- The greeting and a close frame, cut inside of the first header. -/
theorem read_contract_greeting :
    ∃ r arrivals', r.closeCode = 1000 ∧
      reads ⟨.server, 10, true⟩ 2
        { rbuf := (conversation .server [greeting] [] ++
          received .server .close [0x03, 0xE8] true 4 ++ []).take 3 }
        [⟨(conversation .server [greeting] [] ++
          received .server .close [0x03, 0xE8] true 4 ++ []).drop 3, false, 0⟩] =
      ([.ok ⟨text "Hi", .text⟩, .error .closed], r, arrivals',
        [.pong (text "p"), .close 1000]) := by
  have harrivals : Successful [⟨(conversation .server [greeting] [] ++
      received .server .close [0x03, 0xE8] true 4 ++ []).drop 3, false, 0⟩] := by
    intro a ha
    rw [mem_singleton.mp ha]
    decide
  have hgreeting : ∀ m ∈ [greeting], Acceptable ⟨.server, 10, true⟩ m := by
    intro m hm
    rw [mem_singleton.mp hm]
    exact ⟨by decide, fun _ => ⟨['H', 'i'], by decide⟩⟩
  obtain ⟨r, arrivals', hcode, -, hreads⟩ :=
    (read_contract ⟨.server, 10, true⟩ ⟨.server, 100⟩).2.1 [greeting] [] _ _ [0x03, 0xE8] 4 1000 []
      [] harrivals hgreeting (by decide) (by decide) ⟨[], rfl⟩
      (by rw [flatMap_singleton, take_append_drop])
  exact ⟨r, arrivals', hcode, hreads 0⟩

end WebSocketMessages
