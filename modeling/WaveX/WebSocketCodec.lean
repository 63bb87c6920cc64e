import WaveX.VarInt

/-! # WebSocket frames

    `codec::parse_header`, `codec::encode_frame`, `codec::apply_mask` and
    `codec::frame_size` of `src/protos/websocket/WebSocket.cpp` and its header.  The
    parser reads back what the encoder wrote, whatever follows it, and asks for more
    bytes on every shorter prefix of a header. -/

namespace WebSocketCodec

open QuicVarInt List

/-! ## Opcodes -/

/-- `opcode`. -/
inductive Opcode where
  | continuation
  | text
  | binary
  | close
  | ping
  | pong
  deriving DecidableEq, Repr

/-- The nibble of an opcode. -/
def Opcode.toNibble : Opcode → Nat
  | .continuation => 0x0
  | .text => 0x1
  | .binary => 0x2
  | .close => 0x8
  | .ping => 0x9
  | .pong => 0xA

/-- `static_cast<opcode>` of a nibble; 0x3-0x7 and 0xB-0xF are reserved. -/
def Opcode.ofNibble : Nat → Option Opcode
  | 0x0 => some .continuation
  | 0x1 => some .text
  | 0x2 => some .binary
  | 0x8 => some .close
  | 0x9 => some .ping
  | 0xA => some .pong
  | _ => none

/-- `is_control`. -/
def Opcode.isControl (op : Opcode) : Bool := op.toNibble &&& 0x08 != 0

/-! ## Headers -/

/-- `frame_header`. -/
structure FrameHeader where
  payloadLength : Nat
  maskingKey : UInt32
  headerSize : Nat
  op : Opcode
  fin : Bool
  rsv1 : Bool
  rsv2 : Bool
  rsv3 : Bool
  masked : Bool
  deriving DecidableEq, Repr

/-- `parse_result`; the header is meaningful only with `complete`. -/
inductive ParseResult where
  | complete (h : FrameHeader)
  | incomplete
  | error
  deriving DecidableEq, Repr

/-- `kMaxPayloadLength`. -/
def kMaxPayloadLength : Nat := 2 ^ 63 - 1

/-- A number read byte by byte, most significant first. -/
def bigEndian (bs : Bytes) : Nat := bs.foldl (fun v b => (v <<< 8) ||| b.toNat) 0

/-- The end of `parse_header`: the masking key at `pos`, where `rest` starts. -/
def parseMask (b0 b1 : Nat) (op : Opcode) (len pos : Nat) (rest : Bytes) : ParseResult :=
  let h : FrameHeader := {
    payloadLength := len, maskingKey := 0, headerSize := pos, op, fin := b0 &&& 0x80 != 0
    rsv1 := b0 &&& 0x40 != 0, rsv2 := b0 &&& 0x20 != 0, rsv3 := b0 &&& 0x10 != 0
    masked := b1 &&& 0x80 != 0 }
  if h.masked then
    if rest.length < 4 then .incomplete
    else .complete { h with
      maskingKey := UInt32.ofNat (bigEndian (rest.take 4)), headerSize := pos + 4 }
  else .complete h

/-- `codec::parse_header`. -/
def parseHeader : Bytes → ParseResult
  | first :: second :: rest =>
      let b0 := first.toNat
      let b1 := second.toNat
      match Opcode.ofNibble (b0 &&& 0x0F) with
      | none => .error
      | some op =>
          let len := b1 &&& 0x7F
          if len = 126 then
            if rest.length < 2 then .incomplete
            else parseMask b0 b1 op (bigEndian (rest.take 2)) 4 (rest.drop 2)
          else if len = 127 then
            if rest.length < 8 then .incomplete
            -- the most significant bit must be 0
            else if bigEndian (rest.take 8) > kMaxPayloadLength then .error
            else parseMask b0 b1 op (bigEndian (rest.take 8)) 10 (rest.drop 8)
          else parseMask b0 b1 op len 2 rest
  | _ => .incomplete

/-! ## Masking and encoding -/

/-- The `i`-th byte of a masking key on the wire. -/
def keyByte (key : UInt32) (i : Nat) : UInt8 := byteAt key.toNat (3 - i)

/-- `codec::apply_mask`, with the number of bytes already masked. -/
def applyMask (key : UInt32) : Nat → Bytes → Bytes
  | _, [] => []
  | offset, b :: rest => (b ^^^ keyByte key (offset &&& 3)) :: applyMask key (offset + 1) rest

/-- `codec::frame_size`. -/
def frameSize (payload : Nat) (masked : Bool) : Nat :=
  2 + (if payload < 126 then 0 else if payload ≤ 0xFFFF then 2 else 8) +
    (if masked then 4 else 0) + payload

/-- The length field with the mask bit, as `encode_frame` writes it. -/
def encodeLength (maskBit len : Nat) : Bytes :=
  if len < 126 then [UInt8.ofNat (maskBit ||| len)]
  else if len ≤ 0xFFFF then [UInt8.ofNat (maskBit ||| 126), byteAt len 1, byteAt len 0]
  else [UInt8.ofNat (maskBit ||| 127), byteAt len 7, byteAt len 6, byteAt len 5, byteAt len 4,
    byteAt len 3, byteAt len 2, byteAt len 1, byteAt len 0]

/-- The masking key and the payload, as `encode_frame` writes them. -/
def encodePayload (payload : Bytes) : Option UInt32 → Bytes
  | some key =>
      [byteAt key.toNat 3, byteAt key.toNat 2, byteAt key.toNat 1, byteAt key.toNat 0] ++
        applyMask key 0 payload
  | none => payload

/-- `codec::encode_frame`, which appends to `out`. -/
def encodeFrame (out : Bytes) (op : Opcode) (payload : Bytes) (fin : Bool)
    (mask : Option UInt32) : Bytes :=
  out ++ UInt8.ofNat ((if fin then 0x80 else 0x00) ||| op.toNibble) ::
    encodeLength (if mask.isSome then 0x80 else 0x00) payload.length ++ encodePayload payload mask

/-! ## Close payloads -/

/-- `close_code::no_status`. -/
def noStatus : Nat := 1005

/-- `close_code::abnormal`. -/
def abnormal : Nat := 1006

/-- `codec::is_valid_close_code`. -/
def isValidCloseCode (code : Nat) : Bool :=
  (1000 ≤ code && code ≤ 1003) || (1007 ≤ code && code ≤ 1014) || (3000 ≤ code && code ≤ 4999)

/-- The loop of `utf8_prefix`: a cut in front of a continuation byte moves back. -/
def utf8Cut (s : Bytes) : Nat → Nat
  | 0 => 0
  | cut + 1 => if (s.getD (cut + 1) 0).toNat &&& 0xC0 = 0x80 then utf8Cut s cut else cut + 1

/-- The largest prefix of `s`, at most `max` bytes, that does not split a UTF-8
    sequence: `utf8_prefix`. -/
def utf8Head (s : Bytes) (max : Nat) : Bytes :=
  if s.length ≤ max then s else s.take (utf8Cut s max)

/-- `codec::close_payload`; 1005 and 1006 are never on the wire. -/
def closePayload (code : Nat) (reason : Bytes) : Bytes :=
  if code = noStatus || code = abnormal then []
  else byteAt code 1 :: byteAt code 0 :: utf8Head reason 123

/-- `codec::parse_close_payload`: the code and the reason, `none` when the payload is
    malformed. -/
def parseClosePayload : Bytes → Option (Nat × Bytes)
  | [] => some (noStatus, [])
  | [_] => none
  | hi :: lo :: reason =>
      let code := (hi.toNat <<< 8) ||| lo.toNat
      if isValidCloseCode code then some (code, reason) else none

/-! ## Masking -/

@[simp] theorem applyMask_length (key : UInt32) (offset : Nat) (data : Bytes) :
    (applyMask key offset data).length = data.length := by
  induction data generalizing offset with
  | nil => rfl
  | cons b rest ih => rw [applyMask, length_cons, length_cons, ih]

/-- A payload may be masked in pieces. -/
theorem applyMask_append (key : UInt32) (offset : Nat) (a b : Bytes) :
    applyMask key offset (a ++ b) = applyMask key offset a ++ applyMask key (offset + a.length) b := by
  induction a generalizing offset with
  | nil => rfl
  | cons x rest ih =>
      have hoffset : offset + 1 + rest.length = offset + (x :: rest).length := by
        rw [length_cons]
        omega
      rw [cons_append, applyMask, applyMask, ih, hoffset, cons_append]

/-- Masking twice with one key gives the data back. -/
theorem applyMask_applyMask (key : UInt32) (offset : Nat) (data : Bytes) :
    applyMask key offset (applyMask key offset data) = data := by
  induction data generalizing offset with
  | nil => rfl
  | cons b rest ih =>
      rw [applyMask, applyMask, ih, UInt8.xor_assoc, UInt8.xor_self, UInt8.xor_zero]

/-- The key 0, which `parse_header` reports for an unmasked frame, changes nothing. -/
theorem applyMask_zero (offset : Nat) (data : Bytes) : applyMask 0 offset data = data := by
  have hbyte (i : Nat) : keyByte 0 i = 0 := by
    apply UInt8.toNat_inj.mp
    rw [keyByte, byteAt_toNat]
    simp
  induction data generalizing offset with
  | nil => rfl
  | cons b rest ih => rw [applyMask, ih, hbyte, UInt8.xor_zero]

/-! ## The length on the wire -/

theorem encodeLength_length (maskBit len : Nat) :
    (encodeLength maskBit len).length =
      1 + (if len < 126 then 0 else if len ≤ 0xFFFF then 2 else 8) := by
  rw [encodeLength]
  repeat' split
  all_goals rfl

theorem encodePayload_length (payload : Bytes) (mask : Option UInt32) :
    (encodePayload payload mask).length = (if mask.isSome then 4 else 0) + payload.length := by
  cases mask with
  | none => simp [encodePayload]
  | some key =>
      simp [encodePayload]
      omega

/-- `frame_size` is the number of bytes that `encode_frame` appends. -/
theorem encodeFrame_length (out : Bytes) (op : Opcode) (payload : Bytes) (fin : Bool)
    (mask : Option UInt32) :
    (encodeFrame out op payload fin mask).length =
      out.length + frameSize payload.length mask.isSome := by
  rw [encodeFrame, length_append, length_append, length_cons, encodeLength_length,
    encodePayload_length, frameSize]
  omega

theorem encodeFrame_out (out : Bytes) (op : Opcode) (payload : Bytes) (fin : Bool)
    (mask : Option UInt32) :
    encodeFrame out op payload fin mask = out ++ encodeFrame [] op payload fin mask := by
  rw [encodeFrame, encodeFrame, nil_append, append_assoc]

/-! ## The parser on an encoded header -/

/-- The first byte of a frame: the opcode, the fin bit and no reserved bit. -/
theorem firstByte (op : Opcode) (fin : Bool) :
    let b := (UInt8.ofNat ((if fin then 0x80 else 0x00) ||| op.toNibble)).toNat
    Opcode.ofNibble (b &&& 0x0F) = some op ∧ (b &&& 0x80 != 0) = fin ∧
      (b &&& 0x40 != 0) = false ∧ (b &&& 0x20 != 0) = false ∧ (b &&& 0x10 != 0) = false := by
  cases op <;> cases fin <;> decide

/-- The second byte of a frame: the mask bit above seven bits of length. -/
theorem secondByte (masked : Bool) {v : Nat} (hv : v < 128) :
    (UInt8.ofNat ((if masked then 0x80 else 0x00) ||| v)).toNat &&& 0x7F = v ∧
      ((UInt8.ofNat ((if masked then 0x80 else 0x00) ||| v)).toNat &&& 0x80 != 0) = masked := by
  have hall : ∀ m : Bool, ∀ v < 128,
      (UInt8.ofNat ((if m then 0x80 else 0x00) ||| v)).toNat &&& 0x7F = v ∧
        ((UInt8.ofNat ((if m then 0x80 else 0x00) ||| v)).toNat &&& 0x80 != 0) = m := by
    decide
  exact hall masked v hv

theorem bigEndian_two (n : Nat) : bigEndian [byteAt n 1, byteAt n 0] = n % 2 ^ 16 := by
  simp only [bigEndian, List.foldl, shift_or_byte]
  simp only [byteAt_toNat]
  omega

theorem bigEndian_four (n : Nat) :
    bigEndian [byteAt n 3, byteAt n 2, byteAt n 1, byteAt n 0] = n % 2 ^ 32 := by
  simp only [bigEndian, List.foldl, shift_or_byte]
  simp only [byteAt_toNat]
  omega

theorem bigEndian_eight (n : Nat) :
    bigEndian [byteAt n 7, byteAt n 6, byteAt n 5, byteAt n 4, byteAt n 3, byteAt n 2,
      byteAt n 1, byteAt n 0] = n % 2 ^ 64 := by
  simp only [bigEndian, List.foldl, shift_or_byte]
  simp only [byteAt_toNat]
  omega

/-- The masking key on the wire. -/
def maskBytes : Option UInt32 → Bytes
  | some key => [byteAt key.toNat 3, byteAt key.toNat 2, byteAt key.toNat 1, byteAt key.toNat 0]
  | none => []

/-- The header that `encode_frame` writes. -/
def headerBytes (op : Opcode) (len : Nat) (fin : Bool) (mask : Option UInt32) : Bytes :=
  UInt8.ofNat ((if fin then 0x80 else 0x00) ||| op.toNibble) ::
    encodeLength (if mask.isSome then 0x80 else 0x00) len ++ maskBytes mask

/-- The header that `parse_header` is to report for it. -/
def headerOf (op : Opcode) (len : Nat) (fin : Bool) (mask : Option UInt32) : FrameHeader :=
  { payloadLength := len, maskingKey := mask.getD 0
    headerSize := (headerBytes op len fin mask).length, op, fin
    rsv1 := false, rsv2 := false, rsv3 := false, masked := mask.isSome }

theorem encodeFrame_header (op : Opcode) (payload : Bytes) (fin : Bool) (mask : Option UInt32) :
    encodeFrame [] op payload fin mask =
      headerBytes op payload.length fin mask ++ applyMask (mask.getD 0) 0 payload := by
  cases mask with
  | none =>
      rw [Option.getD_none, applyMask_zero, encodeFrame, headerBytes, encodePayload, maskBytes,
        nil_append, append_nil]
  | some key =>
      rw [Option.getD_some, encodeFrame, headerBytes, encodePayload, maskBytes, nil_append,
        ← append_assoc]

section Parse

variable {b0 b1 : Nat} {op : Opcode} {len pos : Nat} {mask : Option UInt32}

theorem parseMask_maskBytes (hmasked : (b1 &&& 0x80 != 0) = mask.isSome) (rest : Bytes) :
    parseMask b0 b1 op len pos (maskBytes mask ++ rest) = .complete {
      payloadLength := len, maskingKey := mask.getD 0
      headerSize := pos + (maskBytes mask).length, op, fin := b0 &&& 0x80 != 0
      rsv1 := b0 &&& 0x40 != 0, rsv2 := b0 &&& 0x20 != 0, rsv3 := b0 &&& 0x10 != 0
      masked := mask.isSome } := by
  cases mask with
  | none =>
      rw [parseMask]
      simp only [hmasked, Option.isSome_none, Bool.false_eq_true, if_false]
      rfl
  | some key =>
      have hkey : UInt32.ofNat (bigEndian [byteAt key.toNat 3, byteAt key.toNat 2,
          byteAt key.toNat 1, byteAt key.toNat 0]) = key := by
        rw [bigEndian_four, Nat.mod_eq_of_lt key.toNat_lt, UInt32.ofNat_toNat]
      have htake : (maskBytes (some key) ++ rest).take 4 =
          [byteAt key.toNat 3, byteAt key.toNat 2, byteAt key.toNat 1, byteAt key.toNat 0] := rfl
      have hlong : ¬ (maskBytes (some key) ++ rest).length < 4 := by
        rw [maskBytes, length_append]
        simp
      rw [parseMask]
      simp only [hmasked, Option.isSome_some, if_true]
      rw [if_neg hlong, htake, hkey]
      rfl

theorem parseMask_short (hmasked : (b1 &&& 0x80 != 0) = mask.isSome) {n : Nat}
    (hn : n < (maskBytes mask).length) :
    parseMask b0 b1 op len pos ((maskBytes mask).take n) = .incomplete := by
  cases mask with
  | none => exact absurd hn (Nat.not_lt_zero n)
  | some key =>
      have hshort : ((maskBytes (some key)).take n).length < 4 := by
        rw [length_take]
        exact lt_of_le_of_lt (Nat.min_le_left _ _) hn
      rw [parseMask]
      simp only [hmasked, Option.isSome_some, if_true]
      rw [if_pos hshort]

theorem parseMask_headerSize {rest : Bytes} {h : FrameHeader}
    (hparse : parseMask b0 b1 op len pos rest = .complete h) : pos ≤ h.headerSize := by
  rw [parseMask] at hparse
  simp only at hparse
  split at hparse
  · split at hparse
    · cases hparse
    · rw [← ParseResult.complete.inj hparse]
      exact Nat.le_add_right pos 4
  · rw [← ParseResult.complete.inj hparse]

/-- A header has two bytes at least. -/
theorem parseHeader_headerSize {input : Bytes} {h : FrameHeader}
    (hparse : parseHeader input = .complete h) : 2 ≤ h.headerSize := by
  rw [parseHeader.eq_def] at hparse
  split at hparse
  · simp only at hparse
    split at hparse
    · cases hparse
    · repeat' split at hparse
      · cases hparse
      · exact Nat.le_trans (by decide) (parseMask_headerSize hparse)
      · cases hparse
      · cases hparse
      · exact Nat.le_trans (by decide) (parseMask_headerSize hparse)
      · exact parseMask_headerSize hparse
  · cases hparse

/-- The seven bits of a length, the bytes that extend them and the length they stand
    for. -/
inductive LengthField : Nat → Bytes → Nat → Prop
  | short {len : Nat} (h : len < 126) : LengthField len [] len
  | medium {ext : Bytes} (h : ext.length = 2) : LengthField 126 ext (bigEndian ext)
  | long {ext : Bytes} (h : ext.length = 8) (hmax : bigEndian ext ≤ kMaxPayloadLength) :
      LengthField 127 ext (bigEndian ext)

theorem encodeLength_field (maskBit : Nat) (hlen : len < 2 ^ 63) :
    ∃ len7 ext, encodeLength maskBit len = UInt8.ofNat (maskBit ||| len7) :: ext ∧ len7 < 128 ∧
      LengthField len7 ext len := by
  by_cases hsmall : len < 126
  · refine ⟨len, [], ?_, by omega, .short hsmall⟩
    rw [encodeLength, if_pos hsmall]
  · by_cases hmid : len ≤ 0xFFFF
    · have hread : bigEndian [byteAt len 1, byteAt len 0] = len := by
        rw [bigEndian_two, Nat.mod_eq_of_lt (by omega)]
      refine ⟨126, [byteAt len 1, byteAt len 0], ?_, by decide, ?_⟩
      · rw [encodeLength, if_neg hsmall, if_pos hmid]
      · have hfield := LengthField.medium (show [byteAt len 1, byteAt len 0].length = 2 by rfl)
        rwa [hread] at hfield
    · have hread : bigEndian [byteAt len 7, byteAt len 6, byteAt len 5, byteAt len 4,
          byteAt len 3, byteAt len 2, byteAt len 1, byteAt len 0] = len := by
        rw [bigEndian_eight, Nat.mod_eq_of_lt (by omega)]
      refine ⟨127, [byteAt len 7, byteAt len 6, byteAt len 5, byteAt len 4,
        byteAt len 3, byteAt len 2, byteAt len 1, byteAt len 0], ?_, by decide, ?_⟩
      · rw [encodeLength, if_neg hsmall, if_neg hmid]
      · have hmax : bigEndian [byteAt len 7, byteAt len 6, byteAt len 5, byteAt len 4,
            byteAt len 3, byteAt len 2, byteAt len 1, byteAt len 0] ≤ kMaxPayloadLength := by
          rw [hread, kMaxPayloadLength]
          omega
        have hfield := LengthField.long (by rfl) hmax
        rwa [hread] at hfield

variable {first second : UInt8} {len7 : Nat} {ext : Bytes}

/-- A whole length field leads to the masking key. -/
theorem parseHeader_lengthField (hop : Opcode.ofNibble (first.toNat &&& 0x0F) = some op)
    (hlow : second.toNat &&& 0x7F = len7) (hfield : LengthField len7 ext len) (rest : Bytes) :
    parseHeader (first :: second :: (ext ++ rest)) =
      parseMask first.toNat second.toNat op len (2 + ext.length) rest := by
  rw [parseHeader]
  simp only [hop, hlow]
  cases hfield with
  | short h =>
      rw [if_neg (by omega), if_neg (by omega)]
      rfl
  | medium h =>
      have hlong : ¬ (ext ++ rest).length < 2 := by
        rw [length_append]
        omega
      rw [if_pos rfl, if_neg hlong, take_left' h, drop_left' h, h]
  | long h hmax =>
      have hlong : ¬ (ext ++ rest).length < 8 := by
        rw [length_append]
        omega
      rw [if_neg (by decide), if_pos rfl, if_neg hlong, take_left' h, drop_left' h,
        if_neg (Nat.not_lt.mpr hmax), h]

/-- Part of a length field is not enough. -/
theorem parseHeader_lengthField_short (hop : Opcode.ofNibble (first.toNat &&& 0x0F) = some op)
    (hlow : second.toNat &&& 0x7F = len7) (hfield : LengthField len7 ext len) {n : Nat}
    (hn : n < ext.length) : parseHeader (first :: second :: ext.take n) = .incomplete := by
  have htake : (ext.take n).length = n := length_take_of_le hn.le
  rw [parseHeader]
  simp only [hop, hlow]
  cases hfield with
  | short h => exact absurd hn (Nat.not_lt_zero n)
  | medium h => rw [if_pos rfl, if_pos (by omega)]
  | long h hmax => rw [if_neg (by decide), if_pos rfl, if_pos (by omega)]

end Parse

/-! ## The round trip -/

variable {op : Opcode} {len : Nat} {fin : Bool} {mask : Option UInt32}

/-- The header is read back in front of any bytes. -/
theorem parseHeader_headerBytes (hlen : len < 2 ^ 63) (rest : Bytes) :
    parseHeader (headerBytes op len fin mask ++ rest) = .complete (headerOf op len fin mask) := by
  obtain ⟨hop, hfin, h1, h2, h3⟩ := firstByte op fin
  obtain ⟨len7, ext, hwritten, h7, hfield⟩ :=
    encodeLength_field (if mask.isSome then 0x80 else 0x00) hlen
  obtain ⟨hlow, hmasked⟩ := secondByte mask.isSome h7
  have hsize : (headerBytes op len fin mask).length = 2 + ext.length + (maskBytes mask).length := by
    rw [headerBytes, hwritten, length_append, length_cons, length_cons]
    omega
  rw [headerOf, hsize, headerBytes, hwritten, cons_append, cons_append, cons_append,
    cons_append, append_assoc, parseHeader_lengthField hop hlow hfield,
    parseMask_maskBytes hmasked, hfin, h1, h2, h3]

/-- A shorter prefix of the header asks for more. -/
theorem parseHeader_headerBytes_short (hlen : len < 2 ^ 63) {n : Nat}
    (hn : n < (headerBytes op len fin mask).length) :
    parseHeader ((headerBytes op len fin mask).take n) = .incomplete := by
  obtain ⟨hop, -⟩ := firstByte op fin
  obtain ⟨len7, ext, hwritten, h7, hfield⟩ :=
    encodeLength_field (if mask.isSome then 0x80 else 0x00) hlen
  obtain ⟨hlow, hmasked⟩ := secondByte mask.isSome h7
  rw [headerBytes, hwritten] at hn ⊢
  obtain _ | _ | k := n
  · rfl
  · rfl
  · simp only [cons_append, length_cons, length_append] at hn
    rw [cons_append, cons_append, take_succ_cons, take_succ_cons,
      take_append]
    by_cases hk : k < ext.length
    · rw [Nat.sub_eq_zero_of_le hk.le, take_zero, append_nil]
      exact parseHeader_lengthField_short hop hlow hfield hk
    · rw [take_of_length_le (Nat.not_lt.mp hk), parseHeader_lengthField hop hlow hfield]
      exact parseMask_short hmasked (by omega)

/-- **Round trip**: in front of any bytes the parser reports the fields that the frame
    was encoded from, unmasking the bytes after the header gives the payload, the frame
    has the announced size, a shorter prefix of the header is incomplete, and a payload
    may be masked in two pieces at any point. -/
theorem encodeFrame_roundTrip (op : Opcode) (fin : Bool) (payload : Bytes)
    (hlen : payload.length < 2 ^ 63) (mask : Option UInt32) (r : Bytes) :
    ∃ h, parseHeader (encodeFrame [] op payload fin mask ++ r) = .complete h ∧
      h.op = op ∧ h.fin = fin ∧ h.rsv1 = false ∧ h.rsv2 = false ∧ h.rsv3 = false ∧
      h.masked = mask.isSome ∧ h.maskingKey = mask.getD 0 ∧ h.payloadLength = payload.length ∧
      applyMask h.maskingKey 0
        (((encodeFrame [] op payload fin mask ++ r).drop h.headerSize).take h.payloadLength) =
        payload ∧
      (encodeFrame [] op payload fin mask).length = frameSize payload.length mask.isSome ∧
      (∀ n < h.headerSize,
        parseHeader ((encodeFrame [] op payload fin mask ++ r).take n) = .incomplete) ∧
      ∀ key offset a b, payload = a ++ b →
        applyMask key offset payload =
          applyMask key offset a ++ applyMask key (offset + a.length) b := by
  have hbytes : encodeFrame [] op payload fin mask ++ r =
      headerBytes op payload.length fin mask ++ (applyMask (mask.getD 0) 0 payload ++ r) := by
    rw [encodeFrame_header, append_assoc]
  refine ⟨headerOf op payload.length fin mask, ?_, rfl, rfl, rfl, rfl, rfl, rfl, rfl, rfl, ?_, ?_,
    ?_, ?_⟩
  · rw [hbytes, parseHeader_headerBytes hlen]
  · rw [hbytes, headerOf, drop_left, take_left' (applyMask_length _ _ _),
      applyMask_applyMask]
  · rw [encodeFrame_length, length_nil, Nat.zero_add]
  · intro n hn
    rw [hbytes, take_append_of_le_length (Nat.le_of_lt hn)]
    exact parseHeader_headerBytes_short hlen hn
  · rintro key offset a b rfl
    exact applyMask_append key offset a b

/-- The round trip of a masked text frame. -/
theorem encodeFrame_roundTrip_text :
    (text "Hello").length < 2 ^ 63 ∧
      ∃ h, parseHeader (encodeFrame [] .text (text "Hello") true (some 0x37FA213D) ++ [0x81]) =
          .complete h ∧ h.maskingKey = 0x37FA213D ∧ h.payloadLength = 5 := by
  refine ⟨by decide, ?_⟩
  obtain ⟨h, hparse, -, -, -, -, -, -, hkey, hlength, -⟩ :=
    encodeFrame_roundTrip .text true (text "Hello") (by decide) (some 0x37FA213D) [0x81]
  exact ⟨h, hparse, hkey, hlength⟩

end WebSocketCodec
