import WaveX.QpackLines

/-! # The encoder stream of QPACK

    The instructions `qpack::encoder` writes, the table they lead to on the side of the
    encoder (the mirror), and the loop of `handle_unidirectional_stream`
    (`include/wavex/protos/http/http3codec.hpp`) that applies them to the table of the
    decoder.  The loop starts every instruction anew when more bytes have arrived, so an
    instruction that has not arrived in full must have no effect; it gives the stream up
    when more than `kMaxBufferedBytes` wait for the end of one. -/

namespace QpackEncoderStream

open QuicVarInt Qpack HeaderStrings QpackLines List
open Hpack (Field decodeInteger decodeString takeString)

/-! ## Instructions -/

/-- An instruction of the encoder stream. -/
inductive Instruction where
  | setCapacity (capacity : Nat)
  | insertWithNameRef (nameIdx : Nat) (isStatic : Bool) (val : Bytes)
  | insertWithLiteralName (name val : Bytes)
  | duplicate (index : Nat)
  deriving DecidableEq, Repr

/-- `encode_set_capacity`. -/
def encodeSetCapacity (capacity : Nat) : Bytes := encodeInteger capacity 5 0x20

/-- `encode_insert_with_name_ref`. -/
def encodeInsertWithNameRef (nameIdx : Nat) (isStatic : Bool) (val : Bytes) : Bytes :=
  encodeInteger nameIdx 6 (if isStatic then 0xc0 else 0x80) ++ encodeString val

/-- `encode_insert_with_literal_name`. -/
def encodeInsertWithLiteralName (name val : Bytes) : Bytes :=
  encodeInteger name.length 5 0x40 ++ (name ++ encodeString val)

/-- `encode_duplicate`. -/
def encodeDuplicate (index : Nat) : Bytes := encodeInteger index 5 0x00

def Instruction.encode : Instruction → Bytes
  | .setCapacity capacity => encodeSetCapacity capacity
  | .insertWithNameRef nameIdx isStatic val => encodeInsertWithNameRef nameIdx isStatic val
  | .insertWithLiteralName name val => encodeInsertWithLiteralName name val
  | .duplicate index => encodeDuplicate index

/-- The bytes of a sequence of instructions. -/
def encodeAll (instructions : List Instruction) : Bytes := instructions.flatMap Instruction.encode

/-- What an instruction does to the mirror: `none` when it names an entry that is not
    there or a capacity beyond the limit. -/
def Instruction.apply (t : DynamicTable) : Instruction → Option DynamicTable
  | .setCapacity capacity => t.setMaxCapacity capacity
  | .insertWithNameRef nameIdx isStatic val =>
      ((if isStatic then getStatic else t.getRelative t.totalInserts) nameIdx).map
        fun f => t.insert (f.1, val)
  | .insertWithLiteralName name val => some (t.insert (name, val))
  | .duplicate index => (t.getRelative t.totalInserts index).map t.insert

/-- The mirror after a sequence of instructions. -/
def applyAll : DynamicTable → List Instruction → Option DynamicTable
  | t, [] => some t
  | t, i :: rest => (i.apply t).bind fun t => applyAll t rest

/-- Capacities and indices are of the type `uint64_t`. -/
def Instruction.Fits : Instruction → Prop
  | .setCapacity capacity => capacity < 2 ^ 64
  | .insertWithNameRef nameIdx _ _ => nameIdx < 2 ^ 64
  | .insertWithLiteralName _ _ => True
  | .duplicate index => index < 2 ^ 64

/-! ## The loop -/

/-- `kMaxBufferedBytes`. -/
def kMaxBufferedBytes : Nat := 64 * 1024

/-- The state of the loop on an encoder stream: the table of the decoder, the bytes that
    have not been applied, and whether the loop has been left. -/
structure StreamReader where
  table : DynamicTable
  streamBuf : Bytes := []
  left : Bool := false
  deriving DecidableEq, Repr

/-- A read of the loop and the pass over the buffer that follows it, with at most `fuel`
    instructions; `none` when these do not suffice. -/
def onRead (fuel : Nat) (s : StreamReader) (bytes : Bytes) : Option StreamReader :=
  if s.left then some s
  else do
    let streamBuf := s.streamBuf ++ bytes
    let (table, cursor) ← instructionLoop streamBuf fuel 0 s.table
    let streamBuf := streamBuf.drop cursor
    some ⟨table, streamBuf, decide (streamBuf.length > kMaxBufferedBytes)⟩

/-- A sequence of reads. -/
def readAll (fuel : Nat) : StreamReader → List Bytes → Option StreamReader
  | s, [] => some s
  | s, bytes :: reads => (onRead fuel s bytes).bind fun s => readAll fuel s reads

theorem readAll_append (fuel : Nat) (s : StreamReader) (a b : List Bytes) :
    readAll fuel s (a ++ b) = (readAll fuel s a).bind fun s => readAll fuel s b := by
  induction a generalizing s with
  | nil => rfl
  | cons bytes a ih =>
    rw [cons_append, readAll, readAll]
    cases onRead fuel s bytes with
    | none => rfl
    | some s' => exact ih s'

/-- Nothing is read once the loop has been left. -/
theorem readAll_left (fuel : Nat) {s : StreamReader} (h : s.left = true) (reads : List Bytes) :
    readAll fuel s reads = some s := by
  induction reads with
  | nil => rfl
  | cons bytes reads ih =>
    rw [readAll, onRead, if_pos h]
    exact ih

/-! ## Applying is scanning and the mirror's step -/

/-- The instruction at the cursor, whose first byte is `b`, and the cursor after it. -/
def scanInstruction (input : Bytes) (cursor b : Nat) : Option (Instruction × Nat) :=
  if b &&& 0xe0 = 0x20 then do
    let (capacity, cursor) ← decodeInteger input cursor 5
    some (.setCapacity capacity, cursor)
  else if b &&& 0x80 ≠ 0 then do
    let (nameIdx, cursor) ← decodeInteger input cursor 6
    let (val, cursor) ← decodeString input cursor
    some (.insertWithNameRef nameIdx (b &&& 0x40 != 0) val, cursor)
  else if b &&& 0xc0 = 0x40 then do
    let (f, cursor) ← decodeNameValue input cursor 5 (b &&& 0x20 != 0)
    some (.insertWithLiteralName f.1 f.2, cursor)
  else if b &&& 0xe0 = 0x00 then do
    let (index, cursor) ← decodeInteger input cursor 5
    some (.duplicate index, cursor)
  else none

variable {input rest : Bytes} {c : Nat} {t : DynamicTable}

/-- The decoder does to its table what the mirror does. -/
theorem applyEncoderInstruction_eq {b : UInt8} {tail : Bytes} (hdrop : input.drop c = b :: tail) :
    applyEncoderInstruction input c t =
      (scanInstruction input c b.toNat).bind fun p => (p.1.apply t).map fun t => (t, p.2) := by
  rw [applyEncoderInstruction, hdrop, scanInstruction]
  dsimp only
  by_cases hcapacity : b.toNat &&& 0xe0 = 0x20
  · rw [if_pos hcapacity, if_pos hcapacity]
    cases decodeInteger input c 5 with
    | none => rfl
    | some p =>
      simp only [Option.bind_eq_bind, Option.bind_some, Instruction.apply]
      cases t.setMaxCapacity p.1 <;> rfl
  rw [if_neg hcapacity, if_neg hcapacity]
  by_cases href : b.toNat &&& 0x80 ≠ 0
  · rw [if_pos href, if_pos href, decodeRefValue]
    cases decodeInteger input c 6 with
    | none => rfl
    | some p =>
      have hstatic : (b.toNat &&& 0x40 != 0) = decide (b.toNat &&& 0x40 ≠ 0) := by
        rw [Bool.eq_iff_iff, bne_iff_ne, decide_eq_true_eq]
      simp only [Option.bind_eq_bind, Option.bind_some, hstatic]
      cases hfound : (if b.toNat &&& 0x40 ≠ 0 then getStatic
          else t.getRelative t.totalInserts) p.1 with
      | none =>
        cases decodeString input p.2 with
        | none => rfl
        | some q =>
          simp only [Option.bind_none, Option.bind_some, Instruction.apply, decide_eq_true_eq,
            hfound, Option.map_none]
      | some f =>
        cases decodeString input p.2 with
        | none => rfl
        | some q =>
          simp only [Option.bind_some, Instruction.apply, decide_eq_true_eq, hfound,
            Option.map_some]
  rw [if_neg href, if_neg href]
  by_cases hliteral : b.toNat &&& 0xc0 = 0x40
  · rw [if_pos hliteral, if_pos hliteral]
    cases decodeNameValue input c 5 (b.toNat &&& 0x20 != 0) <;> rfl
  rw [if_neg hliteral, if_neg hliteral]
  by_cases hduplicate : b.toNat &&& 0xe0 = 0x00
  · rw [if_pos hduplicate, if_pos hduplicate]
    cases decodeInteger input c 5 with
    | none => rfl
    | some p =>
      simp only [Option.bind_eq_bind, Option.bind_some, Instruction.apply]
      cases t.getRelative t.totalInserts p.1 <;> rfl
  · rw [if_neg hduplicate, if_neg hduplicate]
    rfl

/-! ## Whole and broken instructions -/

/-- What scanning finds where an instruction stands whole, and where it breaks off. -/
structure Scans (i : Instruction) : Prop where
  whole : ∀ (input : Bytes) (c : Nat) (rest : Bytes),
    input.length < 2 ^ 64 → At input c (i.encode ++ rest) →
      ∃ b tail, input.drop c = b :: tail ∧
        scanInstruction input c b.toNat = some (i, c + i.encode.length)
  broken : ∀ (input : Bytes) (c : Nat) (part : Bytes) (b : UInt8) (tail : Bytes),
    c + i.encode.length < 2 ^ 64 → At input c part → Cut part i.encode →
      input.drop c = b :: tail → scanInstruction input c b.toNat = none

theorem scans_setCapacity {capacity : Nat} (h : capacity < 2 ^ 64) :
    Scans (.setCapacity capacity) := by
  have hfits : PrefixFits 5 0x20 := by decide
  constructor
  · intro input c rest hsize hat
    obtain ⟨b, tail, hdrop, hflag⟩ := hat.first hfits
    refine ⟨b, tail, hdrop, ?_⟩
    rw [scanInstruction, hflag 0xe0 (by decide), if_pos (by decide),
      decodeInteger_encode hfits h hat]
    rfl
  · intro input c part b tail hsize hat hcut hdrop
    have halone : Cut part (encodeInteger capacity 5 0x20 ++ []) := by
      rw [append_nil]
      exact hcut
    have hflag := first_of_cut hfits hat halone hdrop
    rw [scanInstruction, hflag 0xe0 (by decide), if_pos (by decide),
      decodeInteger_cut hfits hcut hat.drop]
    rfl

theorem scans_duplicate {index : Nat} (h : index < 2 ^ 64) : Scans (.duplicate index) := by
  have hfits : PrefixFits 5 0x00 := by decide
  constructor
  · intro input c rest hsize hat
    obtain ⟨b, tail, hdrop, hflag⟩ := hat.first hfits
    refine ⟨b, tail, hdrop, ?_⟩
    rw [scanInstruction, hflag 0xe0 (by decide), hflag 0x80 (by decide), hflag 0xc0 (by decide),
      if_neg (by decide), if_neg (by decide), if_neg (by decide), if_pos (by decide),
      decodeInteger_encode hfits h hat]
    rfl
  · intro input c part b tail hsize hat hcut hdrop
    have halone : Cut part (encodeInteger index 5 0x00 ++ []) := by
      rw [append_nil]
      exact hcut
    have hflag := first_of_cut hfits hat halone hdrop
    rw [scanInstruction, hflag 0xe0 (by decide), hflag 0x80 (by decide), hflag 0xc0 (by decide),
      if_neg (by decide), if_neg (by decide), if_neg (by decide), if_pos (by decide),
      decodeInteger_cut hfits hcut hat.drop]
    rfl

theorem scans_insertWithNameRef {nameIdx : Nat} (h : nameIdx < 2 ^ 64) (isStatic : Bool)
    (val : Bytes) : Scans (.insertWithNameRef nameIdx isStatic val) := by
  have hfits : PrefixFits 6 (if isStatic then 0xc0 else 0x80) := by
    cases isStatic <;> decide
  have hbranch : ∀ b : UInt8,
      (∀ k, k % 2 ^ 6 = 0 → b.toNat &&& k = (if isStatic then 0xc0 else 0x80) &&& k) →
        ∀ (input : Bytes) (c : Nat), scanInstruction input c b.toNat = (do
          let (nameIdx, cursor) ← decodeInteger input c 6
          let (val, cursor) ← decodeString input cursor
          some (.insertWithNameRef nameIdx isStatic val, cursor)) := by
    intro b hflag input c
    -- 0xe0 is no mask of a six-bit prefix: the top bit alone rules the capacity out
    have htop : b.toNat &&& 0x80 = 0x80 := by
      rw [hflag 0x80 (by decide)]
      cases isStatic <;> rfl
    have hcapacity : b.toNat &&& 0xe0 ≠ 0x20 := by
      intro hcontra
      have hmask : b.toNat &&& 0xe0 &&& 0x80 = 0x80 := by
        rw [Nat.and_assoc]
        exact htop
      rw [hcontra] at hmask
      exact absurd hmask (by decide)
    have hstatic : (b.toNat &&& 0x40 != 0) = isStatic := by
      rw [hflag 0x40 (by decide)]
      cases isStatic <;> rfl
    rw [scanInstruction, if_neg hcapacity, htop, if_pos (by decide), hstatic]
  constructor
  · intro input c rest hsize hat
    rw [Instruction.encode, encodeInsertWithNameRef, append_assoc] at hat
    obtain ⟨b, tail, hdrop, hflag⟩ := hat.first hfits
    refine ⟨b, tail, hdrop, ?_⟩
    rw [hbranch b hflag, decodeInteger_encode hfits h hat]
    simp only [Option.bind_eq_bind, Option.bind_some, decodeString_encode hsize hat.advance]
    rw [Instruction.encode, encodeInsertWithNameRef, length_append, Nat.add_assoc]
  · intro input c part b tail hsize hat hcut hdrop
    rw [Instruction.encode, encodeInsertWithNameRef] at hsize hcut
    rw [hbranch b (first_of_cut hfits hat hcut hdrop)]
    rw [length_append] at hsize
    obtain hinteger | ⟨part', rfl, hvalue⟩ := hcut.append
    · rw [decodeInteger_cut hfits hinteger hat.drop]
      rfl
    · rw [decodeInteger_encode hfits h hat]
      simp only [Option.bind_eq_bind, Option.bind_some]
      rw [decodeString_cut hat.advance hvalue (by omega)]
      rfl

theorem decodeNameValue_cut {bits mask : Nat} {name value part : Bytes}
    (hfits : PrefixFits bits mask) (hat : At input c part)
    (hcut : Cut part (encodeInteger name.length bits mask ++ (name ++ encodeString value)))
    (hsize : c + (encodeInteger name.length bits mask ++
      (name ++ encodeString value)).length < 2 ^ 64) :
    decodeNameValue input c bits false = none := by
  rw [length_append, length_append] at hsize
  rw [decodeNameValue, decodeName]
  obtain hinteger | ⟨part', rfl, hrest⟩ := hcut.append
  · rw [decodeInteger_cut hfits hinteger hat.drop]
    rfl
  rw [decodeInteger_encode hfits (by omega) hat]
  simp only [Option.bind_eq_bind, Option.bind_some]
  obtain hname | ⟨part'', rfl, hvalue⟩ := hrest.append
  · rw [takeString_cut hat.advance hname.2 (by omega)]
    rfl
  rw [takeString_at hat.advance (by omega)]
  simp only [Option.bind_some]
  rw [decodeString_cut hat.advance.advance hvalue (by omega)]
  rfl

theorem scans_insertWithLiteralName (name val : Bytes) :
    Scans (.insertWithLiteralName name val) := by
  have hfits : PrefixFits 5 0x40 := by decide
  have hbranch : ∀ b : UInt8, (∀ k, k % 2 ^ 5 = 0 → b.toNat &&& k = 0x40 &&& k) →
      ∀ (input : Bytes) (c : Nat), scanInstruction input c b.toNat = (do
        let (f, cursor) ← decodeNameValue input c 5 false
        some (.insertWithLiteralName f.1 f.2, cursor)) := by
    intro b hflag input c
    have hplain : (b.toNat &&& 0x20 != 0) = false := by
      rw [hflag 0x20 (by decide)]
      rfl
    rw [scanInstruction, hplain, hflag 0xe0 (by decide), hflag 0x80 (by decide),
      hflag 0xc0 (by decide), if_neg (by decide), if_neg (by decide), if_pos (by decide)]
  constructor
  · intro input c rest hsize hat
    rw [Instruction.encode, encodeInsertWithLiteralName, append_assoc,
      append_assoc] at hat
    obtain ⟨b, tail, hdrop, hflag⟩ := hat.first hfits
    refine ⟨b, tail, hdrop, ?_⟩
    rw [hbranch b hflag, decodeNameValue_encode hfits hsize hat, append_assoc]
    rfl
  · intro input c part b tail hsize hat hcut hdrop
    rw [hbranch b (first_of_cut hfits hat hcut hdrop), decodeNameValue_cut hfits hat hcut hsize]
    rfl

/-- Every instruction that fits is scanned to its end and no sooner. -/
theorem Instruction.Fits.scans {i : Instruction} (h : i.Fits) : Scans i := by
  cases i with
  | setCapacity capacity => exact scans_setCapacity h
  | insertWithNameRef nameIdx isStatic val => exact scans_insertWithNameRef h isStatic val
  | insertWithLiteralName name val => exact scans_insertWithLiteralName name val
  | duplicate index => exact scans_duplicate h

theorem Instruction.encode_pos (i : Instruction) : 0 < i.encode.length := by
  have hne : ∀ value bits mask rest, 0 < (encodeInteger value bits mask ++ rest).length :=
    fun value bits mask rest => length_pos_iff.mpr (encodeInteger_ne_nil value bits mask rest)
  cases i with
  | setCapacity capacity =>
    have hpos := hne capacity 5 0x20 []
    rwa [append_nil] at hpos
  | insertWithNameRef nameIdx isStatic val => exact hne _ _ _ _
  | insertWithLiteralName name val => exact hne _ _ _ _
  | duplicate index =>
    have hpos := hne index 5 0x00 []
    rwa [append_nil] at hpos

/-- A whole instruction is applied and consumed. -/
theorem applyEncoderInstruction_whole {i : Instruction} (hi : i.Fits)
    (hsize : input.length < 2 ^ 64) (hat : At input c (i.encode ++ rest)) :
    applyEncoderInstruction input c t = (i.apply t).map fun t => (t, c + i.encode.length) := by
  obtain ⟨b, tail, hdrop, hscan⟩ := hi.scans.whole input c rest hsize hat
  rw [applyEncoderInstruction_eq hdrop, hscan, Option.bind_some]

/-- An instruction that breaks off is refused, whatever the table. -/
theorem applyEncoderInstruction_broken {i : Instruction} (hi : i.Fits) {part : Bytes}
    (hsize : c + i.encode.length < 2 ^ 64) (hat : At input c part) (hcut : Cut part i.encode) :
    applyEncoderInstruction input c t = none := by
  cases hdrop : input.drop c with
  | nil => rw [applyEncoderInstruction, hdrop]
  | cons b tail =>
    rw [applyEncoderInstruction_eq hdrop, hi.scans.broken input c part b tail hsize hat hcut hdrop]
    rfl

/-! ## The pass over a buffer -/

/-- What is left in the buffer is a part of the next instruction that is not the whole. -/
def Pending (buf : Bytes) : List Instruction → Prop
  | [] => buf = []
  | i :: _ => Cut buf i.encode

/-- The pass applies the instructions that have arrived in full and stops before the one
    that has not. -/
theorem instructionLoop_pass {instructions : List Instruction}
    (hfits : ∀ i ∈ instructions, i.Fits)
    (hshort : ∀ i ∈ instructions, i.encode.length ≤ kMaxBufferedBytes + 1)
    (hsize : input.length < 2 ^ 63 + kMaxBufferedBytes) {bytes : Bytes} (hat : At input c bytes)
    (hpre : bytes <+: encodeAll instructions) {t' : DynamicTable}
    (hmirror : applyAll t instructions = some t') {fuel : Nat} (hfuel : bytes.length < fuel) :
    ∃ applied waiting table buf, instructions = applied ++ waiting ∧
      applyAll t applied = some table ∧ bytes = encodeAll applied ++ buf ∧ Pending buf waiting ∧
      instructionLoop input fuel c t = some (table, c + (encodeAll applied).length) := by
  have hcap : kMaxBufferedBytes = 65536 := rfl
  obtain ⟨fuel, rfl⟩ := Nat.exists_eq_add_of_lt hfuel
  have hlength := hat.length
  induction instructions generalizing c bytes t fuel with
  | nil =>
    obtain rfl := prefix_nil.mp hpre
    refine ⟨[], [], t, [], rfl, rfl, rfl, rfl, ?_⟩
    rw [length_nil, Nat.add_zero] at hlength
    rw [instructionLoop, if_pos (Nat.le_of_eq hlength)]
    rfl
  | cons i instructions ih =>
    have hi := hfits i mem_cons_self
    have hlen := hshort i mem_cons_self
    by_cases hpart : bytes.length < i.encode.length
    · have hcut : Cut bytes i.encode :=
        ⟨prefix_of_prefix_length_le hpre (prefix_append _ _) (Nat.le_of_lt hpart),
          hpart⟩
      refine ⟨[], i :: instructions, t, bytes, rfl, rfl, rfl, hcut, ?_⟩
      rw [instructionLoop]
      split
      · rfl
      · rw [applyEncoderInstruction_broken hi (by omega) hat hcut]
        rfl
    · obtain ⟨later, rfl⟩ := prefix_of_prefix_length_le (prefix_append _ _) hpre
        (Nat.not_lt.mp hpart)
      have hpos := i.encode_pos
      obtain ⟨t1, ht1, hrest⟩ := Option.bind_eq_some_iff.mp hmirror
      have hlater : later <+: encodeAll instructions :=
        (prefix_append_right_inj _).mp hpre
      rw [length_append] at hfuel hlength ⊢
      obtain ⟨more, hmore⟩ : ∃ more, i.encode.length + later.length + fuel =
          later.length + more + 1 := ⟨i.encode.length + fuel - 1, by omega⟩
      obtain ⟨applied, waiting, table, buf, rfl, happlied, hbytes, hpending, hloop⟩ :=
        ih (fun j hj => hfits j (mem_cons_of_mem _ hj))
          (fun j hj => hshort j (mem_cons_of_mem _ hj)) hat.advance hlater hrest more
          (by omega) hat.advance.length
      refine ⟨i :: applied, waiting, table, buf, rfl, ?_, ?_, hpending, ?_⟩
      · rw [applyAll, ht1]
        exact happlied
      · rw [hbytes, encodeAll, encodeAll, flatMap_cons, append_assoc]
      · rw [instructionLoop, if_neg (by omega), applyEncoderInstruction_whole hi (by omega) hat,
          ht1]
        dsimp only [Option.map_some]
        rw [hmore, hloop, encodeAll, encodeAll, flatMap_cons, length_append,
          Nat.add_assoc]

/-! ## Runs -/

theorem encodeAll_append (a b : List Instruction) :
    encodeAll (a ++ b) = encodeAll a ++ encodeAll b := flatMap_append

theorem applyAll_append (t : DynamicTable) (a b : List Instruction) :
    applyAll t (a ++ b) = (applyAll t a).bind fun t => applyAll t b := by
  induction a generalizing t with
  | nil => rfl
  | cons i a ih =>
    rw [cons_append, applyAll, applyAll]
    cases i.apply t with
    | none => rfl
    | some t' => exact ih t'

/-- After the bytes that have arrived the table is that of the mirror after the
    instructions that arrived in full, and the rest is buffered. -/
def Synced (start : DynamicTable) (instructions : List Instruction) (arrived : Bytes)
    (s : StreamReader) : Prop :=
  ∃ applied waiting, instructions = applied ++ waiting ∧
    applyAll start applied = some s.table ∧ arrived = encodeAll applied ++ s.streamBuf ∧
    Pending s.streamBuf waiting ∧ s.left = false

theorem Pending.length_le {buf : Bytes} {waiting : List Instruction} (h : Pending buf waiting)
    (hshort : ∀ i ∈ waiting, i.encode.length ≤ kMaxBufferedBytes + 1) :
    buf.length ≤ kMaxBufferedBytes := by
  cases waiting with
  | nil =>
    rw [show buf = [] from h]
    exact Nat.zero_le _
  | cons i waiting => exact Nat.le_of_lt_succ (Nat.lt_of_lt_of_le h.2 (hshort i mem_cons_self))

section Runs

variable {start final : DynamicTable} {instructions : List Instruction} {fuel : Nat}
  (hfits : ∀ i ∈ instructions, i.Fits)
  (hshort : ∀ i ∈ instructions, i.encode.length ≤ kMaxBufferedBytes + 1)
  (hmirror : applyAll start instructions = some final)
  (hfuel : (encodeAll instructions).length < fuel)

include hfits hshort hmirror hfuel

/-- One read keeps the tables in step. -/
theorem onRead_synced {arrived bytes : Bytes} {s : StreamReader}
    (h : Synced start instructions arrived s) (hread : bytes.length < 2 ^ 63)
    (hpre : arrived ++ bytes <+: encodeAll instructions) :
    ∃ s', onRead fuel s bytes = some s' ∧
      Synced start instructions (arrived ++ bytes) s' := by
  obtain ⟨applied, waiting, rfl, happlied, rfl, hpending, hopen⟩ := h
  have hwaiting : ∀ i ∈ waiting, i ∈ applied ++ waiting := fun i hi =>
    mem_append_right applied hi
  rw [applyAll_append, happlied, Option.bind_some] at hmirror
  rw [encodeAll_append, append_assoc] at hpre
  have hnext := (prefix_append_right_inj _).mp hpre
  have hbuffered := hpending.length_le fun i hi => hshort i (hwaiting i hi)
  have hbytes : (s.streamBuf ++ bytes).length < fuel := by
    have hle := hnext.length_le
    rw [encodeAll_append, length_append] at hfuel
    omega
  obtain ⟨applied', waiting', table, buf, rfl, happlied', heq, hpending', hloop⟩ :=
    instructionLoop_pass (fun i hi => hfits i (hwaiting i hi)) (fun i hi => hshort i (hwaiting i hi))
      (by rw [length_append]; omega) (At.start (s.streamBuf ++ bytes)) hnext hmirror hbytes
  have hrest : (s.streamBuf ++ bytes).drop (0 + (encodeAll applied').length) = buf := by
    rw [heq, Nat.zero_add, drop_left]
  have hshort' : buf.length ≤ kMaxBufferedBytes := by
    refine hpending'.length_le fun i hi => hshort i (hwaiting i ?_)
    exact mem_append_right applied' hi
  refine ⟨⟨table, buf, false⟩, ?_, applied ++ applied', waiting', ?_, ?_, ?_, hpending', rfl⟩
  · rw [onRead, hopen, if_neg Bool.false_ne_true]
    simp only [hloop, Option.bind_eq_bind, Option.bind_some, hrest]
    rw [decide_eq_false (Nat.not_lt.mpr hshort')]
  · rw [append_assoc]
  · rw [applyAll_append, happlied, Option.bind_some, happlied']
  · rw [append_assoc, heq, encodeAll_append, append_assoc]

/-- A run of reads keeps the tables in step. -/
theorem readAll_synced {arrived : Bytes} {s : StreamReader}
    (h : Synced start instructions arrived s) {reads : List Bytes}
    (hreads : ∀ bytes ∈ reads, bytes.length < 2 ^ 63)
    (hpre : arrived ++ reads.flatten <+: encodeAll instructions) :
    ∃ s', readAll fuel s reads = some s' ∧
      Synced start instructions (arrived ++ reads.flatten) s' := by
  induction reads generalizing arrived s with
  | nil =>
    rw [flatten_nil, append_nil]
    exact ⟨s, rfl, h⟩
  | cons bytes reads ih =>
    rw [flatten_cons, ← append_assoc] at hpre ⊢
    have hfirst : arrived ++ bytes <+: encodeAll instructions :=
      (prefix_append _ _).trans hpre
    obtain ⟨s1, hread, hsynced⟩ := onRead_synced hfits hshort hmirror hfuel h
      (hreads bytes mem_cons_self) hfirst
    rw [readAll, hread, Option.bind_some]
    exact ih hsynced (fun b hb => hreads b (mem_cons_of_mem _ hb)) hpre

end Runs

/-- Nothing waits at first. -/
theorem synced_start (start : DynamicTable) (instructions : List Instruction) :
    Synced start instructions [] { table := start } := by
  refine ⟨[], instructions, rfl, rfl, rfl, ?_, rfl⟩
  cases instructions with
  | nil => exact rfl
  | cons i instructions => exact ⟨List.nil_prefix, i.encode_pos⟩

/-- When everything has arrived nothing waits. -/
theorem Synced.complete {start final : DynamicTable} {instructions : List Instruction}
    {s : StreamReader} (h : Synced start instructions (encodeAll instructions) s)
    (hmirror : applyAll start instructions = some final) : s = { table := final } := by
  obtain ⟨applied, waiting, rfl, happlied, harrived, hpending, hopen⟩ := h
  rw [encodeAll_append] at harrived
  have hbuf := append_cancel_left harrived
  obtain ⟨table, buf, left⟩ := s
  cases waiting with
  | nil =>
    rw [append_nil, happlied] at hmirror
    obtain rfl := Option.some.inj hmirror
    obtain rfl : left = false := hopen
    obtain rfl : buf = [] := hpending
    rfl
  | cons i waiting =>
    have hlength : (encodeAll (i :: waiting)).length = buf.length := congrArg List.length hbuf
    have hcut : buf.length < i.encode.length := hpending.2
    rw [encodeAll, flatMap_cons, length_append] at hlength
    omega

/-- **Encoder-stream synchronisation.**  While the bytes of a sequence of instructions
    arrive in any reads, the table of the decoder is the mirror after the instructions that
    have arrived in full; when all bytes have arrived it is the mirror.  No instruction is
    longer than what the loop is willing to buffer. -/
theorem encoder_stream_synchronised {start final : DynamicTable}
    {instructions : List Instruction} (hfits : ∀ i ∈ instructions, i.Fits)
    (hmirror : applyAll start instructions = some final)
    (hshort : ∀ i ∈ instructions, i.encode.length ≤ kMaxBufferedBytes + 1)
    {reads : List Bytes} (hreads : ∀ bytes ∈ reads, bytes.length < 2 ^ 63) {fuel : Nat}
    (hfuel : (encodeAll instructions).length < fuel) :
    (reads.flatten <+: encodeAll instructions →
        ∃ applied waiting s, readAll fuel { table := start } reads = some s ∧
          instructions = applied ++ waiting ∧ applyAll start applied = some s.table ∧
          reads.flatten = encodeAll applied ++ s.streamBuf ∧ Pending s.streamBuf waiting ∧
          s.left = false) ∧
      (reads.flatten = encodeAll instructions →
        readAll fuel { table := start } reads = some { table := final }) := by
  have hrun : reads.flatten <+: encodeAll instructions →
      ∃ s, readAll fuel { table := start } reads = some s ∧
        Synced start instructions reads.flatten s := by
    intro hpre
    have hsynced := readAll_synced hfits hshort hmirror hfuel
      (synced_start start instructions) hreads hpre
    rwa [nil_append] at hsynced
  constructor
  · intro hpre
    obtain ⟨s, hread, applied, waiting, hsplit, happlied, harrived, hpending, hopen⟩ :=
      hrun hpre
    exact ⟨applied, waiting, s, hread, hsplit, happlied, harrived, hpending, hopen⟩
  · intro hall
    obtain ⟨s, hread, hsynced⟩ := hrun (hall ▸ prefix_refl _)
    rw [hall] at hsynced
    rw [hread, hsynced.complete hmirror]

/-- Five instructions against a small table: the last insertion evicts the first, and
    the reads cut the literal name and the value. -/
theorem encoder_stream_synchronised_small :
    readAll 100 { table := ⟨[], 0, 220, 220⟩ }
        [[0x3f], [0x59, 0x41, 0x61], [0x01, 0x62, 0xc5], [0x01], [0x63, 0x80, 0x00, 0x01]] =
      some { table := ⟨[⟨(text "cookie", text "c"), 1⟩, ⟨(text "cookie", []), 2⟩,
        ⟨(text "cookie", text "c"), 3⟩], 4, 120, 220⟩ } := by
  have hfits : ∀ i ∈ [Instruction.setCapacity 120, .insertWithLiteralName (text "a") (text "b"),
      .insertWithNameRef 5 true (text "c"), .insertWithNameRef 0 false [], .duplicate 1],
      i.Fits := by
    intro i hi
    simp only [mem_cons, not_mem_nil, or_false] at hi
    obtain rfl | rfl | rfl | rfl | rfl := hi
    · exact show 120 < 2 ^ 64 by decide
    · trivial
    · exact show 5 < 2 ^ 64 by decide
    · exact show 0 < 2 ^ 64 by decide
    · exact show 1 < 2 ^ 64 by decide
  exact (encoder_stream_synchronised hfits (by decide) (by decide)
    (by decide) (by decide)).2 (by decide)

/-! ## An instruction the loop does not wait for -/

/-- When more than `kMaxBufferedBytes` of an instruction have arrived and its end has not,
    the loop is left and the table stays as it was. -/
theorem readAll_gives_up {i : Instruction} (hi : i.Fits) (hsize : i.encode.length < 2 ^ 64)
    {fuel : Nat} (hfuel : 0 < fuel) {buf : Bytes} {reads : List Bytes}
    (hcut : Cut (buf ++ reads.flatten) i.encode) (hbuf : buf.length ≤ kMaxBufferedBytes)
    (hlong : kMaxBufferedBytes < (buf ++ reads.flatten).length) :
    ∃ s, readAll fuel { table := t, streamBuf := buf } reads = some s ∧ s.table = t ∧
      s.left = true := by
  induction reads generalizing buf with
  | nil =>
    rw [flatten_nil, append_nil] at hlong
    omega
  | cons bytes reads ih =>
    rw [flatten_cons, ← append_assoc] at hcut hlong
    have hpart : Cut (buf ++ bytes) i.encode := by
      refine ⟨(prefix_append _ _).trans hcut.1, ?_⟩
      have hlt := hcut.2
      rw [length_append] at hlt
      omega
    have hloop : instructionLoop (buf ++ bytes) fuel 0 t = some (t, 0) := by
      obtain ⟨fuel, rfl⟩ := Nat.exists_eq_add_of_lt hfuel
      rw [Nat.zero_add, instructionLoop]
      split
      · rfl
      · rw [applyEncoderInstruction_broken hi (by omega) (At.start _) hpart]
    have hread : onRead fuel { table := t, streamBuf := buf } bytes =
        some ⟨t, buf ++ bytes, decide ((buf ++ bytes).length > kMaxBufferedBytes)⟩ := by
      rw [onRead, if_neg Bool.false_ne_true]
      simp only [hloop, Option.bind_eq_bind, Option.bind_some, drop_zero]
    rw [readAll, hread, Option.bind_some]
    by_cases hover : (buf ++ bytes).length > kMaxBufferedBytes
    · rw [decide_eq_true hover]
      exact ⟨_, readAll_left fuel rfl reads, rfl, rfl⟩
    · rw [decide_eq_false hover]
      exact ih hcut (Nat.not_lt.mp hover) hlong

/-- An insertion of 70000 octets. -/
def longInsert : Instruction :=
  .insertWithLiteralName (text "a") (List.replicate 70000 0x61)

/-- The bytes before its value. -/
def longInsertStart : Bytes := encodeInteger 1 5 0x40 ++ (text "a" ++ encodeInteger 70000 7 0)

/-- The reads it arrives in. -/
def longReads : List Bytes := longInsertStart :: List.replicate 70 (List.replicate 1000 0x61)

theorem longInsert_encode : longInsert.encode = longInsertStart ++ List.replicate 70000 0x61 := by
  have hname : (text "a").length = 1 := by decide
  rw [longInsert, Instruction.encode, encodeInsertWithLiteralName, encodeString, hname,
    length_replicate, longInsertStart, append_assoc, append_assoc]

theorem longReads_flatten : longReads.flatten = encodeAll [longInsert] := by
  rw [longReads, flatten_cons, flatten_replicate_replicate, encodeAll,
    flatMap_singleton, longInsert_encode]

/-- The mirror counts the insertion; the decoder, which has received every byte of it, does
    not. -/
theorem long_insert_lost :
    longReads.flatten = encodeAll [longInsert] ∧ (∀ bytes ∈ longReads, bytes.length ≤ 1024) ∧
      applyAll {} [longInsert] = some { totalInserts := 1 } ∧
      ∀ fuel, (encodeAll [longInsert]).length < fuel →
        ∃ s, readAll fuel { table := {} } longReads = some s ∧ s.table.totalInserts = 0 := by
  refine ⟨longReads_flatten, ?_, ?_, ?_⟩
  · intro bytes hbytes
    obtain rfl | hmem := mem_cons.mp hbytes
    · decide
    · rw [eq_of_mem_replicate hmem, length_replicate]
      decide
  · -- of any value, so that the long one is not evaluated
    have hsize : ∀ value : Bytes, 4096 < value.length →
        Hpack.fieldSize (text "a", value) > 4096 := by
      intro value hvalue
      rw [Hpack.fieldSize]
      dsimp only
      omega
    have hlarge := hsize (List.replicate 70000 0x61) (by rw [length_replicate]; decide)
    rw [longInsert, applyAll, Instruction.apply, DynamicTable.insert, if_pos hlarge]
    rfl
  · intro fuel hfuel
    have hsplit : longReads = (longInsertStart :: List.replicate 66 (List.replicate 1000 0x61)) ++
        List.replicate 4 (List.replicate 1000 0x61) := by
      rw [cons_append, replicate_append_replicate]
      rfl
    have hstart : longInsertStart.length = 6 := by decide
    have hbytes : (longInsertStart :: List.replicate 66 (List.replicate 1000 0x61)).flatten =
        longInsertStart ++ List.replicate 66000 0x61 := by
      rw [flatten_cons, flatten_replicate_replicate]
    have hwhole : longInsert.encode = longInsertStart ++ List.replicate 66000 0x61 ++
        List.replicate 4000 0x61 := by
      rw [longInsert_encode, append_assoc, replicate_append_replicate]
    have hlength : longInsert.encode.length = 70006 := by
      rw [longInsert_encode, length_append, hstart, length_replicate]
    have hcut : Cut ([] ++ (longInsertStart ::
        List.replicate 66 (List.replicate 1000 0x61)).flatten) longInsert.encode := by
      rw [nil_append, hbytes]
      constructor
      · exact ⟨_, hwhole.symm⟩
      · rw [hlength, length_append, hstart, length_replicate]
        decide
    have hlong : kMaxBufferedBytes < ([] ++ (longInsertStart ::
        List.replicate 66 (List.replicate 1000 0x61)).flatten).length := by
      rw [nil_append, hbytes, length_append, hstart, length_replicate]
      decide
    obtain ⟨s, hread, htable, hleft⟩ := readAll_gives_up (t := {}) (i := longInsert) trivial
      (by rw [hlength]; decide) (Nat.zero_lt_of_lt hfuel) hcut (Nat.zero_le _) hlong
    refine ⟨s, ?_, by rw [htable]⟩
    rw [hsplit, readAll_append, hread]
    exact readAll_left fuel hleft _

end QpackEncoderStream
