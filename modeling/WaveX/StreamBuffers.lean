import WaveX.Machine
import WaveX.VarInt

/-! # The stream buffer

    `StreamBuffer` of `Utils/StreamBuffer.hpp`: a string whose first `read_offset_` bytes
    are read already.  They are dropped now and then, and `prepend` writes over them.  For
    its user the buffer is a queue of bytes that takes bytes back.

    A step fails when it reads or writes outside the string. -/

namespace StreamBuffers

open QuicVarInt List

/-! ## The buffer -/

/-- `StreamBuffer`. -/
structure StreamBuffer where
  buffer : Bytes := []
  readOffset : Nat := 0
  deriving DecidableEq, Repr

/-- The bytes `[pos, pos + n)` of a string. -/
def slice (s : Bytes) (pos n : Nat) : Option Bytes :=
  if pos + n ≤ s.length then some ((s.drop pos).take n) else none

/-- `memcpy` into a string. -/
def overwrite (s : Bytes) (pos : Nat) (chunk : Bytes) : Option Bytes :=
  if pos + chunk.length ≤ s.length then some (s.take pos ++ chunk ++ s.drop (pos + chunk.length))
  else none

namespace StreamBuffer

/-- `size`; the offset is never behind the end of the string. -/
def size (b : StreamBuffer) : Nat := b.buffer.length - b.readOffset

/-- `empty`. -/
def empty (b : StreamBuffer) : Bool := b.readOffset ≥ b.buffer.length

/-- The rule by which `append` and `consume` drop what is read. -/
def compact (b : StreamBuffer) : StreamBuffer :=
  if b.readOffset ≥ b.buffer.length then {}
  else if b.readOffset ≥ 16384 && b.readOffset ≥ b.buffer.length / 2 then
    { buffer := b.buffer.drop b.readOffset, readOffset := 0 }
  else b

/-- `append`. -/
def append (b : StreamBuffer) (chunk : Bytes) : StreamBuffer :=
  if chunk = [] then b
  else
    let b := b.compact
    { b with buffer := b.buffer ++ chunk }

/-- `peek`. -/
def peek (b : StreamBuffer) (maxBytes : Nat) : Option Bytes :=
  if b.empty then some [] else slice b.buffer b.readOffset (min maxBytes b.size)

/-- `prepend`. -/
def prepend (b : StreamBuffer) (chunk : Bytes) : Option StreamBuffer :=
  if chunk = [] then some b
  else if b.readOffset ≥ chunk.length && b.readOffset ≤ b.buffer.length then
    let readOffset := b.readOffset - chunk.length
    (overwrite b.buffer readOffset chunk).map fun buffer => { buffer, readOffset }
  else
    some {
      buffer := chunk ++ b.buffer.drop (min b.readOffset b.buffer.length)
      readOffset := 0 }

/-- `consume`. -/
def consume (b : StreamBuffer) (bytes : Nat) : StreamBuffer :=
  if bytes = 0 then b
  else { b with readOffset := b.readOffset + min bytes b.size }.compact

/-- `read`: the buffer, and the bytes that were copied; `dest` is whether there is a place
    to copy them to. -/
def read (b : StreamBuffer) (dest : Bool) (maxBytes : Nat) : Option (StreamBuffer × Bytes) :=
  if !dest || maxBytes = 0 || b.empty then some (b, [])
  else
    let toCopy := min maxBytes b.size
    (slice b.buffer b.readOffset toCopy).map fun bytes =>
      let readOffset := b.readOffset + toCopy
      (if readOffset ≥ b.buffer.length then {} else { b with readOffset }, bytes)

/-- `clear`. -/
def clear : StreamBuffer := {}

end StreamBuffer

/-! ## Operations -/

/-- The operations of a buffer. -/
inductive Op where
  | append (chunk : Bytes)
  | prepend (chunk : Bytes)
  | consume (bytes : Nat)
  | read (dest : Bool) (maxBytes : Nat)
  | peek (maxBytes : Nat)
  | clear
  deriving DecidableEq, Repr

/-- An operation on the buffer, with the bytes that it gives. -/
def step (b : StreamBuffer) : Op → Option (StreamBuffer × Bytes)
  | .append chunk => some (b.append chunk, [])
  | .prepend chunk => (b.prepend chunk).map (·, [])
  | .consume bytes => some (b.consume bytes, [])
  | .read dest maxBytes => b.read dest maxBytes
  | .peek maxBytes => (b.peek maxBytes).map (b, ·)
  | .clear => some (StreamBuffer.clear, [])

/-- The same operation on a queue of bytes; `read` without a place takes nothing. -/
def queueStep (q : Bytes) : Op → Bytes × Bytes
  | .append chunk => (q ++ chunk, [])
  | .prepend chunk => (chunk ++ q, [])
  | .consume bytes => (q.drop (min bytes q.length), [])
  | .read dest maxBytes =>
      if dest then (q.drop (min maxBytes q.length), q.take (min maxBytes q.length)) else (q, [])
  | .peek maxBytes => (q, q.take (min maxBytes q.length))
  | .clear => ([], [])

/-! ## The queue behind the buffer -/

/-- The bytes that are not read yet. -/
def StreamBuffer.unread (b : StreamBuffer) : Bytes := b.buffer.drop b.readOffset

/-- The buffer holds a queue. -/
structure Holds (b : StreamBuffer) (q : Bytes) : Prop where
  inside : b.readOffset ≤ b.buffer.length
  unread : b.unread = q

namespace Holds

variable {b : StreamBuffer} {q : Bytes}

theorem size_eq (h : Holds b q) : b.size = q.length := by
  rw [← h.unread, StreamBuffer.unread, length_drop, StreamBuffer.size]

theorem empty_iff (h : Holds b q) : b.empty = true ↔ q = [] := by
  rw [← h.unread, StreamBuffer.unread, drop_eq_nil_iff, StreamBuffer.empty,
    decide_eq_true_eq]

/-- What is dropped is read already. -/
theorem compact (h : Holds b q) : Holds b.compact q := by
  have hinside := h.inside
  have hunread := h.unread
  rw [StreamBuffer.unread] at hunread
  rw [StreamBuffer.compact]
  split
  · next hend =>
    refine ⟨Nat.le_refl _, ?_⟩
    rw [← hunread, drop_of_length_le hend]
    rfl
  · split
    · exact ⟨Nat.zero_le _, hunread⟩
    · exact h

theorem append (h : Holds b q) (chunk : Bytes) : Holds (b.append chunk) (q ++ chunk) := by
  rw [StreamBuffer.append]
  split
  · next hnil =>
    rw [hnil, append_nil]
    exact h
  · obtain ⟨hinside, hunread⟩ := h.compact
    refine ⟨?_, ?_⟩
    · show b.compact.readOffset ≤ (b.compact.buffer ++ chunk).length
      rw [length_append]
      omega
    · show (b.compact.buffer ++ chunk).drop b.compact.readOffset = q ++ chunk
      rw [drop_append_of_le_length hinside, ← hunread]
      rfl

/-- Bytes of the queue are taken from its front. -/
theorem advance (h : Holds b q) {n : Nat} (hn : n ≤ q.length) :
    Holds { b with readOffset := b.readOffset + n } (q.drop n) := by
  have hinside := h.inside
  have hunread := h.unread
  rw [StreamBuffer.unread] at hunread
  have hlen := congrArg List.length hunread
  rw [length_drop] at hlen
  refine ⟨show b.readOffset + n ≤ b.buffer.length by omega, ?_⟩
  show b.buffer.drop (b.readOffset + n) = q.drop n
  rw [← hunread, drop_drop]

theorem consume (h : Holds b q) (n : Nat) :
    Holds (b.consume n) (q.drop (min n q.length)) := by
  rw [StreamBuffer.consume]
  split
  · next hn =>
    rw [hn, Nat.zero_min, drop_zero]
    exact h
  · rw [h.size_eq]
    exact (h.advance (Nat.min_le_right _ _)).compact

/-- The bytes that are looked at are in the string. -/
theorem slice_front (h : Holds b q) {n : Nat} (hn : n ≤ q.length) :
    slice b.buffer b.readOffset n = some (q.take n) := by
  have hinside := h.inside
  have hsize := h.size_eq
  rw [StreamBuffer.size] at hsize
  rw [slice, if_pos (by omega), ← h.unread]
  rfl

theorem peek (h : Holds b q) (n : Nat) : b.peek n = some (q.take (min n q.length)) := by
  rw [StreamBuffer.peek]
  split
  · next hempty =>
    rw [h.empty_iff.mp hempty, take_nil]
  · rw [h.size_eq]
    exact h.slice_front (Nat.min_le_right _ _)

theorem read (h : Holds b q) (n : Nat) :
    ∃ b', b.read true n = some (b', q.take (min n q.length)) ∧
      Holds b' (q.drop (min n q.length)) := by
  rw [StreamBuffer.read]
  split
  · next hnothing =>
    have hzero : min n q.length = 0 := by
      rw [Bool.or_eq_true, Bool.or_eq_true, h.empty_iff, decide_eq_true_eq] at hnothing
      rcases hnothing with (hdest | hn) | hq
      · cases hdest
      · rw [hn, Nat.zero_min]
      · rw [hq, length_nil, Nat.min_zero]
    rw [hzero]
    exact ⟨b, rfl, h⟩
  · dsimp only
    rw [h.size_eq, h.slice_front (Nat.min_le_right _ _)]
    refine ⟨_, rfl, ?_⟩
    obtain ⟨hinside, hunread⟩ := h.advance (Nat.min_le_right n q.length)
    split
    · next hend =>
      -- the last byte is read: the string is cleared
      refine ⟨Nat.le_refl _, ?_⟩
      rw [← hunread]
      exact (drop_of_length_le hend).symm
    · exact ⟨hinside, hunread⟩

/-- A chunk fits in front of the unread bytes, or the string is built anew. -/
theorem prepend (h : Holds b q) (chunk : Bytes) :
    ∃ b', b.prepend chunk = some b' ∧ Holds b' (chunk ++ q) := by
  have hinside := h.inside
  have hunread := h.unread
  rw [StreamBuffer.unread] at hunread
  rw [StreamBuffer.prepend]
  split
  · next hnil =>
    rw [hnil]
    exact ⟨b, rfl, h⟩
  · split
    · next hfits =>
      rw [Bool.and_eq_true, decide_eq_true_eq, decide_eq_true_eq] at hfits
      obtain ⟨hroom, -⟩ := hfits
      have hend : b.readOffset - chunk.length + chunk.length = b.readOffset :=
        Nat.sub_add_cancel hroom
      have htake : (b.buffer.take (b.readOffset - chunk.length)).length =
          b.readOffset - chunk.length := length_take_of_le (by omega)
      dsimp only
      rw [overwrite, hend, if_pos hinside, hunread]
      refine ⟨_, rfl, ?_, ?_⟩
      · show b.readOffset - chunk.length ≤ List.length (_ ++ chunk ++ q)
        rw [length_append, length_append, htake]
        omega
      · show List.drop (b.readOffset - chunk.length) (_ ++ chunk ++ q) = chunk ++ q
        rw [append_assoc, drop_append_of_le_length (by rw [htake]),
          drop_of_length_le (by rw [htake]), nil_append]
    · rw [Nat.min_eq_left hinside, hunread]
      exact ⟨_, rfl, Nat.zero_le _, rfl⟩

end Holds

/-- Every operation is that of the queue. -/
theorem step_simulates : Machine.Simulates Holds step queueStep := by
  intro b q h op
  cases op with
  | append chunk => exact ⟨_, rfl, h.append chunk⟩
  | prepend chunk =>
    obtain ⟨b', hprepend, hb'⟩ := h.prepend chunk
    exact ⟨b', by rw [step, hprepend]; rfl, hb'⟩
  | consume bytes => exact ⟨_, rfl, h.consume bytes⟩
  | read dest maxBytes =>
    cases dest with
    | false => exact ⟨b, rfl, h⟩
    | true => exact h.read maxBytes
  | peek maxBytes => exact ⟨b, by rw [step, h.peek]; rfl, h⟩
  | clear => exact ⟨_, rfl, Nat.le_refl _, rfl⟩

/-! ## Streams -/

/-- What `read_some` looks at in a `QuicStream`. -/
structure QuicStream where
  inBuffer : StreamBuffer := {}
  finReceived : Bool := false
  isOpen : Bool := true

/-- The error code of a read. -/
inductive ErrorCode where
  | none
  | eof
  deriving DecidableEq, Repr

/-- `QuicStream::read_some`: the stream, the error code and the bytes that were copied. -/
def QuicStream.readSome (s : QuicStream) (dest : Bool) (n : Nat) :
    Option (QuicStream × ErrorCode × Bytes) :=
  if s.inBuffer.empty then
    some (s, if s.finReceived || !s.isOpen then .eof else .none, [])
  else (s.inBuffer.read dest n).map fun (inBuffer, bytes) => ({ s with inBuffer }, .none, bytes)

/-- `QuicStream::unread`. -/
def QuicStream.unread (s : QuicStream) (data : Bytes) : Option QuicStream :=
  (s.inBuffer.prepend data).map fun inBuffer => { s with inBuffer }

/-- Bytes that are read and put back leave the stream as it was. -/
theorem readSome_unread {s : QuicStream} {q : Bytes} (h : Holds s.inBuffer q) (dest : Bool)
    (n : Nat) :
    ∃ s₁ code bytes s₂, s.readSome dest n = some (s₁, code, bytes) ∧
      bytes = (queueStep q (.read dest n)).2 ∧ s₁.unread bytes = some s₂ ∧
      Holds s₂.inBuffer q ∧ s₂ = { s with inBuffer := s₂.inBuffer } := by
  rw [QuicStream.readSome]
  split
  · next hempty =>
    obtain rfl := h.empty_iff.mp hempty
    refine ⟨s, _, [], s, rfl, ?_, rfl, h, rfl⟩
    cases dest with
    | false => rfl
    | true => exact take_nil.symm
  · obtain ⟨b₁, hread, hb₁⟩ := step_simulates h (.read dest n)
    rw [step] at hread
    obtain ⟨b₂, hprepend, hb₂⟩ := hb₁.prepend (queueStep q (.read dest n)).2
    refine ⟨{ s with inBuffer := b₁ }, .none, (queueStep q (.read dest n)).2,
      { s with inBuffer := b₂ }, ?_, rfl, ?_, ?_, rfl⟩
    · rw [hread]
      rfl
    · rw [QuicStream.unread, hprepend]
      rfl
    · have hback : (queueStep q (.read dest n)).2 ++ (queueStep q (.read dest n)).1 = q := by
        cases dest with
        | false => rfl
        | true => exact take_append_drop _ q
      rw [← hback]
      exact hb₂

/-- **The stream buffer is a queue of bytes**: for every sequence of operations no access is
    outside the string, the bytes that `read` and `peek` give are those of the queue, the
    offset stays inside and the unread bytes are the queue.  A stream with such a buffer is
    what it was after its first bytes are read and put back. -/
theorem stream_buffer_refines (ops : List Op) :
    ∃ b, Machine.run step {} ops = some (b, (Machine.reference queueStep [] ops).2) ∧
      b.readOffset ≤ b.buffer.length ∧
      b.unread = (Machine.reference queueStep [] ops).1 ∧
      ∀ (finReceived isOpen dest : Bool) (n : Nat),
        ∃ s₁ code bytes s₂,
          QuicStream.readSome ⟨b, finReceived, isOpen⟩ dest n = some (s₁, code, bytes) ∧
            bytes = (queueStep b.unread (.read dest n)).2 ∧
            s₁.unread bytes = some s₂ ∧ s₂.inBuffer.unread = b.unread ∧
            s₂.inBuffer.readOffset ≤ s₂.inBuffer.buffer.length ∧
            s₂.finReceived = finReceived ∧ s₂.isOpen = isOpen := by
  have hempty : Holds {} [] := ⟨Nat.le_refl _, rfl⟩
  obtain ⟨b, hrun, hb⟩ := step_simulates.run hempty ops
  refine ⟨b, hrun, hb.inside, hb.unread, ?_⟩
  intro finReceived isOpen dest n
  obtain ⟨s₁, code, bytes, s₂, hread, hbytes, hunread, hs₂, hsame⟩ :=
    readSome_unread (s := ⟨b, finReceived, isOpen⟩) hb dest n
  rw [hb.unread]
  refine ⟨s₁, code, bytes, s₂, hread, hbytes, hunread, hs₂.unread, hs₂.inside, ?_, ?_⟩
  · rw [hsame]
  · rw [hsame]

end StreamBuffers
