import WaveX.Http2Frames

/-! # Frames on the wire

    `unpack_frame_header` reads back what `encode_frame` writes, and the frames at the
    start of a buffer are those that were put there.  The length has 24 bits and the
    stream id 31, so a frame has to be `Encodable`. -/

namespace Http2FrameCodec

open QuicVarInt Http2Frames

/-! ## Big-endian numbers -/

/-- A digit below a shifted number. -/
theorem shift_or {a b k : Nat} (hb : b < 2 ^ k) : a <<< k ||| b = a * 2 ^ k + b := by
  rw [← Nat.shiftLeft_add_eq_or_of_lt hb, Nat.shiftLeft_eq]

theorem byteAt_lt (n i : Nat) : (byteAt n i).toNat < 2 ^ 8 := (byteAt n i).toNat_lt

/-- The three bytes of a length. -/
theorem read_u24 (n : Nat) :
    (byteAt n 2).toNat <<< 16 ||| (byteAt n 1).toNat <<< 8 ||| (byteAt n 0).toNat = n % 2 ^ 24 := by
  have hlow : (byteAt n 1).toNat <<< 8 ||| (byteAt n 0).toNat = n % 2 ^ 16 := by
    rw [shift_or (byteAt_lt n 0), byteAt_toNat, byteAt_toNat]
    omega
  rw [Nat.or_assoc, hlow, shift_or (Nat.mod_lt _ (by decide)), byteAt_toNat]
  omega

/-- The four bytes of a stream id; the highest bit is reserved. -/
theorem read_u31 (n : Nat) :
    ((byteAt n 3).toNat &&& 0x7f) <<< 24 ||| (byteAt n 2).toNat <<< 16 |||
      (byteAt n 1).toNat <<< 8 ||| (byteAt n 0).toNat = n % 2 ^ 31 := by
  have hlow : (byteAt n 2).toNat <<< 16 ||| ((byteAt n 1).toNat <<< 8 ||| (byteAt n 0).toNat) =
      n % 2 ^ 24 := by
    rw [← Nat.or_assoc]
    exact read_u24 n
  have hmask : (byteAt n 3).toNat &&& 0x7f = (byteAt n 3).toNat % 2 ^ 7 :=
    Nat.and_two_pow_sub_one_eq_mod _ 7
  rw [Nat.or_assoc, Nat.or_assoc, hlow, hmask, shift_or (Nat.mod_lt _ (by decide)), byteAt_toNat]
  omega

/-! ## One frame -/

/-- A frame whose header fits into nine bytes. -/
structure Encodable (f : Frame) : Prop where
  length : f.payload.length < 2 ^ 24
  type : FrameType.ofByte (UInt8.ofNat f.type.toByte).toNat = f.type
  flags : f.flags < 2 ^ 8

/-- The header of a frame, with the 31 bits of its stream id that fit. -/
def headerOf (f : Frame) : FrameHeader :=
  { length := f.payload.length, type := f.type, flags := f.flags
    streamId := f.streamId % 2 ^ 31 }

variable {f : Frame} {fs : List Frame}

@[simp] theorem headerOf_length (f : Frame) : (headerOf f).length = f.payload.length := rfl

theorem encodeFrame_length (f : Frame) : (encodeFrame f).length = headerSize + f.payload.length := by
  rw [encodeFrame, u32]
  simp only [List.length_append, List.length_cons, List.length_nil]
  rfl

/-- The header that `unpack_frame_header` reads is the one that was written. -/
theorem unpackFrameHeader_encodeFrame (h : Encodable f) (rest : Bytes) :
    unpackFrameHeader (encodeFrame f ++ rest) = some (headerOf f) := by
  have hlength : f.payload.length % 2 ^ 24 = f.payload.length := Nat.mod_eq_of_lt h.length
  have hflags : (UInt8.ofNat f.flags).toNat = f.flags := by
    rw [UInt8.toNat_ofNat']
    exact Nat.mod_eq_of_lt h.flags
  have hsid : (f.streamId &&& 0x7fffffff) % 2 ^ 31 = f.streamId % 2 ^ 31 := by
    rw [show 0x7fffffff = 2 ^ 31 - 1 by rfl, Nat.and_two_pow_sub_one_eq_mod, Nat.mod_mod]
  have hread : unpackFrameHeader (encodeFrame f ++ rest) = some {
      length := (byteAt f.payload.length 2).toNat <<< 16 |||
        (byteAt f.payload.length 1).toNat <<< 8 ||| (byteAt f.payload.length 0).toNat
      type := .ofByte (UInt8.ofNat f.type.toByte).toNat
      flags := (UInt8.ofNat f.flags).toNat
      streamId := ((byteAt (f.streamId &&& 0x7fffffff) 3).toNat &&& 0x7f) <<< 24 |||
        (byteAt (f.streamId &&& 0x7fffffff) 2).toNat <<< 16 |||
        (byteAt (f.streamId &&& 0x7fffffff) 1).toNat <<< 8 |||
        (byteAt (f.streamId &&& 0x7fffffff) 0).toNat } := rfl
  rw [hread, read_u24, read_u31, hlength, h.type, hflags, hsid]
  rfl

/-- The header is in the first nine bytes. -/
theorem unpackFrameHeader_append {bytes : Bytes} (h : ¬ bytes.length < headerSize)
    (more : Bytes) : unpackFrameHeader (bytes ++ more) = unpackFrameHeader bytes := by
  match bytes with
  | _ :: _ :: _ :: _ :: _ :: _ :: _ :: _ :: _ :: _ => rfl
  | [] | [_] | [_, _] | [_, _, _] | [_, _, _, _] | [_, _, _, _, _] | [_, _, _, _, _, _]
  | [_, _, _, _, _, _, _] | [_, _, _, _, _, _, _, _] => exact absurd (by simp [headerSize]) h

/-- A frame whose stream id fits too comes back whole. -/
theorem header_frame (hsid : f.streamId < 2 ^ 31) (payload : Bytes) :
    (⟨(headerOf f).type, (headerOf f).flags, (headerOf f).streamId, payload⟩ : Frame) =
      { f with payload } := by
  rw [headerOf, Nat.mod_eq_of_lt hsid]

theorem encodeFrame_drop (f : Frame) (rest : Bytes) :
    (encodeFrame f ++ rest).drop headerSize = f.payload ++ rest := rfl

theorem encodeFrame_drop_all (f : Frame) (rest : Bytes) :
    (encodeFrame f ++ rest).drop (headerSize + f.payload.length) = rest := by
  rw [← List.drop_drop, encodeFrame_drop, List.drop_left]

/-! ## Frames in a row -/

/-- The frames at the start of a buffer are those that were put there. -/
theorem wireFramesUpTo_encodeFrame (h : ∀ f ∈ fs, Encodable f) {fuel : Nat}
    (hfuel : (fs.flatMap encodeFrame).length ≤ fuel) :
    wireFramesUpTo fuel (fs.flatMap encodeFrame) =
      fs.map fun f => { f with streamId := f.streamId % 2 ^ 31 } := by
  induction fs generalizing fuel with
  | nil => cases fuel <;> rfl
  | cons f rest ih =>
    rw [List.flatMap_cons] at hfuel ⊢
    rw [List.length_append, encodeFrame_length] at hfuel
    cases fuel with
    | zero => exact absurd hfuel (by rw [headerSize, Nat.not_le]; omega)
    | succ fuel =>
      have hroom : ¬ headerSize + (headerOf f).length >
          (encodeFrame f ++ rest.flatMap encodeFrame).length := by
        rw [List.length_append, encodeFrame_length]
        exact Nat.not_lt.mpr (Nat.le_add_right _ _)
      rw [wireFramesUpTo, unpackFrameHeader_encodeFrame (h f List.mem_cons_self)]
      dsimp only
      rw [if_neg hroom, encodeFrame_drop]
      show _ :: wireFramesUpTo fuel ((encodeFrame f ++ _).drop (headerSize + f.payload.length)) = _
      have hfewer : (rest.flatMap encodeFrame).length ≤ fuel := by
        have hsize : headerSize = 9 := rfl
        omega
      have hpayload : (f.payload ++ rest.flatMap encodeFrame).take (headerOf f).length =
          f.payload := List.take_left
      rw [encodeFrame_drop_all, ih (fun g hg => h g (List.mem_cons_of_mem f hg)) hfewer, hpayload]
      rfl

theorem wireFrames_encodeFrame (h : ∀ f ∈ fs, Encodable f) :
    wireFrames (fs.flatMap encodeFrame) =
      fs.map fun f => { f with streamId := f.streamId % 2 ^ 31 } :=
  wireFramesUpTo_encodeFrame h (Nat.le_refl _)

end Http2FrameCodec
