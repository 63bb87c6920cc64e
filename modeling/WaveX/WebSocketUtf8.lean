import WaveX.VarInt

/-! # UTF-8 validation

    `is_valid_utf8` of `src/protos/websocket/WebSocket.cpp`, which checks text messages
    and close reasons.  A round of its loop accepts exactly the encoding of one character
    at the front of the string, so the whole loop accepts exactly the encodings of texts. -/

namespace WebSocketUtf8

open QuicVarInt List

/-! ## The loop -/

/-- The lead byte of a sequence of several bytes: how many follow and the bits of the
    code point it holds. -/
def utf8Lead (c : Nat) : Option (Nat × Nat) :=
  if c &&& 0xE0 = 0xC0 then
    if c < 0xC2 then none else some (1, c &&& 0x1F)
  else if c &&& 0xF0 = 0xE0 then some (2, c &&& 0x0F)
  else if c &&& 0xF8 = 0xF0 then
    if c > 0xF4 then none else some (3, c &&& 0x07)
  else none

/-- The inner loop: continuation bytes add six bits each. -/
def utf8Tail : Nat → Bytes → Option Nat
  | cp, [] => some cp
  | cp, b :: rest =>
      if b.toNat &&& 0xC0 ≠ 0x80 then none
      else utf8Tail ((cp <<< 6) ||| (b.toNat &&& 0x3F)) rest

/-- A code point of `n + 1` bytes that is overlong, out of range or a surrogate. -/
def utf8Refused (n cp : Nat) : Bool :=
  (n = 2 && cp < 0x800) || (n = 3 && cp < 0x10000) || cp > 0x10FFFF ||
    (0xD800 ≤ cp && cp ≤ 0xDFFF)

/-- One round of `is_valid_utf8`: the bytes after the sequence at the front. -/
def utf8Round : Bytes → Option Bytes
  | [] => none
  | c :: rest =>
      if c.toNat < 0x80 then some rest
      else
        match utf8Lead c.toNat with
        | none => none
        | some (n, bits) =>
            if rest.length < n then none
            else
              match utf8Tail bits (rest.take n) with
              | none => none
              | some cp => if utf8Refused n cp then none else some (rest.drop n)

/-- The loop of `is_valid_utf8`, for at most so many rounds. -/
def utf8Loop : Nat → Bytes → Bool
  | _, [] => true
  | 0, _ => false
  | rounds + 1, s =>
      match utf8Round s with
      | none => false
      | some rest => utf8Loop rounds rest

/-- `is_valid_utf8`. -/
def isValidUtf8 (s : Bytes) : Bool := utf8Loop s.length s

/-! ## What it decides -/

/-- The UTF-8 encoding of some text. -/
def ValidUtf8 (s : Bytes) : Prop := ∃ cs : List Char, s = cs.flatMap String.utf8EncodeChar

/-- The masks of the loop as arithmetic. -/
theorem byte_masks {c : Nat} (hc : c < 256) :
    (c &&& 0xE0 = 0xC0 ↔ c / 32 = 6) ∧ (c &&& 0xF0 = 0xE0 ↔ c / 16 = 14) ∧
      (c &&& 0xF8 = 0xF0 ↔ c / 8 = 30) ∧ (c &&& 0xC0 = 0x80 ↔ c / 64 = 2) ∧
      c &&& 0x1F = c % 32 ∧ c &&& 0x0F = c % 16 ∧ c &&& 0x07 = c % 8 ∧ c &&& 0x3F = c % 64 := by
  have hall : ∀ c < 256, (c &&& 0xE0 = 0xC0 ↔ c / 32 = 6) ∧ (c &&& 0xF0 = 0xE0 ↔ c / 16 = 14) ∧
      (c &&& 0xF8 = 0xF0 ↔ c / 8 = 30) ∧ (c &&& 0xC0 = 0x80 ↔ c / 64 = 2) ∧
      c &&& 0x1F = c % 32 ∧ c &&& 0x0F = c % 16 ∧ c &&& 0x07 = c % 8 ∧ c &&& 0x3F = c % 64 := by
    decide +kernel
  exact hall c hc

/-- A lead byte announces one, two or three continuation bytes. -/
theorem utf8Lead_eq_some {c n bits : Nat} (hc : c < 256) :
    utf8Lead c = some (n, bits) ↔
      (n = 1 ∧ 0xC2 ≤ c ∧ c < 0xE0 ∧ bits = c % 32) ∨
      (n = 2 ∧ 0xE0 ≤ c ∧ c < 0xF0 ∧ bits = c % 16) ∨
      (n = 3 ∧ 0xF0 ≤ c ∧ c ≤ 0xF4 ∧ bits = c % 8) := by
  obtain ⟨h2, h3, h4, -, h5, h6, h7, -⟩ := byte_masks hc
  rw [utf8Lead]
  simp only [h2, h3, h4, h5, h6, h7]
  split
  · split
    · constructor
      · intro h
        cases h
      · omega
    · rw [Option.some.injEq, Prod.mk.injEq]
      omega
  · split
    · rw [Option.some.injEq, Prod.mk.injEq]
      omega
    · split
      · split
        · constructor
          · intro h
            cases h
          · omega
        · rw [Option.some.injEq, Prod.mk.injEq]
          omega
      · constructor
        · intro h
          cases h
        · omega

/-- One continuation byte. -/
theorem utf8Tail_cons {cp v : Nat} {b : UInt8} {rest : Bytes} :
    utf8Tail cp (b :: rest) = some v ↔
      b.toNat / 64 = 2 ∧ utf8Tail (cp * 64 + b.toNat % 64) rest = some v := by
  obtain ⟨-, -, -, hmark, -, -, -, hlow⟩ := byte_masks b.toNat_lt
  have hbits : (cp <<< 6) ||| (b.toNat % 64) = cp * 64 + b.toNat % 64 := by
    rw [← Nat.shiftLeft_add_eq_or_of_lt (show b.toNat % 64 < 2 ^ 6 by omega), Nat.shiftLeft_eq]
  rw [utf8Tail, hlow, hbits]
  by_cases h : b.toNat / 64 = 2
  · rw [if_neg (not_not.mpr (hmark.mpr h)), and_iff_right h]
  · rw [if_pos (fun heq => h (hmark.mp heq))]
    constructor
    · intro hnone
      cases hnone
    · intro hsome
      exact absurd hsome.1 h

theorem utf8Tail_nil {cp v : Nat} : utf8Tail cp [] = some v ↔ v = cp := by
  rw [utf8Tail, Option.some.injEq]
  exact eq_comm

/-- A round on a lead byte below 0x80 or above it. -/
theorem utf8Round_cons {c : UInt8} {tail rest : Bytes} :
    utf8Round (c :: tail) = some rest ↔
      (c.toNat < 0x80 ∧ tail = rest) ∨
      (0x80 ≤ c.toNat ∧ ∃ n bits cp, utf8Lead c.toNat = some (n, bits) ∧ n ≤ tail.length ∧
        utf8Tail bits (tail.take n) = some cp ∧ utf8Refused n cp = false ∧ tail.drop n = rest) := by
  rw [utf8Round]
  by_cases hascii : c.toNat < 0x80
  · rw [if_pos hascii, Option.some.injEq]
    constructor
    · exact fun h => .inl ⟨hascii, h⟩
    · rintro (⟨-, h⟩ | ⟨hhigh, -⟩)
      · exact h
      · omega
  · rw [if_neg hascii]
    constructor
    · intro h
      refine .inr ⟨by omega, ?_⟩
      cases hlead : utf8Lead c.toNat with
      | none =>
          rw [hlead] at h
          cases h
      | some l =>
          obtain ⟨n, bits⟩ := l
          simp only [hlead] at h
          split at h
          · cases h
          · next hlong =>
              cases htail : utf8Tail bits (tail.take n) with
              | none =>
                  rw [htail] at h
                  cases h
              | some cp =>
                  simp only [htail] at h
                  split at h
                  · cases h
                  · next hfine =>
                      exact ⟨n, bits, cp, rfl, by omega, htail, Bool.not_eq_true _ ▸ hfine,
                        Option.some.inj h⟩
    · rintro (⟨hlow, -⟩ | ⟨-, n, bits, cp, hlead, hlong, htail, hfine, hrest⟩)
      · omega
      · simp only [hlead, htail, hfine]
        rw [if_neg (by omega), if_neg Bool.false_ne_true, hrest]

theorem utf8Refused_eq_false {n cp : Nat} :
    utf8Refused n cp = false ↔
      (n = 2 → 0x800 ≤ cp) ∧ (n = 3 → 0x10000 ≤ cp) ∧ cp ≤ 0x10FFFF ∧
        (cp < 0xD800 ∨ 0xDFFF < cp) := by
  simp only [utf8Refused, Bool.or_eq_false_iff, Bool.and_eq_false_iff, decide_eq_false_iff_not]
  omega

/-- The encoding of a code point. -/
theorem utf8EncodeChar_ofNat {v : Nat} (hv : v < 0xD800 ∨ (0xDFFF < v ∧ v < 0x110000)) :
    ∃ c : Char, c.val.toNat = v := by
  refine ⟨Char.ofNat v, ?_⟩
  have hval : (Char.ofNat v).toNat = v := by
    rw [Char.ofNat, dif_pos (show v.isValidChar from hv)]
    rfl
  exact hval

theorem ofNat_eq {v : Nat} {b : UInt8} (h : v = b.toNat) : UInt8.ofNat v = b := by
  rw [h, UInt8.ofNat_toNat]

/-- A round accepts one encoded character. -/
theorem utf8Round_sound {s rest : Bytes} (h : utf8Round s = some rest) :
    ∃ c : Char, s = String.utf8EncodeChar c ++ rest := by
  cases s with
  | nil => cases h
  | cons c tail =>
      rcases utf8Round_cons.mp h with ⟨hlow, rfl⟩ | ⟨-, n, bits, cp, hlead, hlong, htail, hfine, hrest⟩
      -- one byte
      · obtain ⟨ch, hch⟩ := utf8EncodeChar_ofNat (show c.toNat < 0xD800 ∨ _ by omega)
        refine ⟨ch, ?_⟩
        rw [String.utf8EncodeChar, hch]
        simp only [if_pos (show c.toNat ≤ 0x7f by omega)]
        rw [ofNat_eq rfl]
        rfl
      · have hc := c.toNat_lt
        obtain ⟨hshort, hlarge, hmax, hsurrogate⟩ := utf8Refused_eq_false.mp hfine
        rcases (utf8Lead_eq_some hc).mp hlead with ⟨rfl, h1, h2, rfl⟩ | ⟨rfl, h1, h2, rfl⟩ |
          ⟨rfl, h1, h2, rfl⟩
        · obtain _ | ⟨b1, tail⟩ := tail
          · simp at hlong
          · obtain ⟨hb1, hcp⟩ := utf8Tail_cons.mp htail
            rw [take_zero, utf8Tail_nil] at hcp
            obtain ⟨ch, hch⟩ := utf8EncodeChar_ofNat (show cp < 0xD800 ∨ _ by omega)
            refine ⟨ch, ?_⟩
            rw [String.utf8EncodeChar, hch, ← hrest]
            simp only [if_neg (show ¬ cp ≤ 0x7f by omega), if_pos (show cp ≤ 0x7ff by omega)]
            rw [ofNat_eq (b := c) (by omega), ofNat_eq (b := b1) (by omega)]
            rfl
        · obtain _ | ⟨b1, _ | ⟨b2, tail⟩⟩ := tail
          · simp at hlong
          · simp at hlong
          · obtain ⟨hb1, htail⟩ := utf8Tail_cons.mp htail
            obtain ⟨hb2, hcp⟩ := utf8Tail_cons.mp htail
            rw [take_zero, utf8Tail_nil] at hcp
            -- three bytes are neither overlong nor a surrogate
            have hbound := hshort rfl
            obtain ⟨ch, hch⟩ := utf8EncodeChar_ofNat
              (show cp < 0xD800 ∨ (0xDFFF < cp ∧ cp < 0x110000) by omega)
            refine ⟨ch, ?_⟩
            rw [String.utf8EncodeChar, hch, ← hrest]
            simp only [if_neg (show ¬ cp ≤ 0x7f by omega), if_neg (show ¬ cp ≤ 0x7ff by omega),
              if_pos (show cp ≤ 0xffff by omega)]
            rw [ofNat_eq (b := c) (by omega), ofNat_eq (b := b1) (by omega),
              ofNat_eq (b := b2) (by omega)]
            rfl
        · obtain _ | ⟨b1, _ | ⟨b2, _ | ⟨b3, tail⟩⟩⟩ := tail
          · simp at hlong
          · simp at hlong
          · simp at hlong
          · obtain ⟨hb1, htail⟩ := utf8Tail_cons.mp htail
            obtain ⟨hb2, htail⟩ := utf8Tail_cons.mp htail
            obtain ⟨hb3, hcp⟩ := utf8Tail_cons.mp htail
            rw [take_zero, utf8Tail_nil] at hcp
            -- four bytes are not overlong and stay below the last code point
            have hbound := hlarge rfl
            obtain ⟨ch, hch⟩ := utf8EncodeChar_ofNat
              (show cp < 0xD800 ∨ (0xDFFF < cp ∧ cp < 0x110000) by omega)
            refine ⟨ch, ?_⟩
            rw [String.utf8EncodeChar, hch, ← hrest]
            simp only [if_neg (show ¬ cp ≤ 0x7f by omega), if_neg (show ¬ cp ≤ 0x7ff by omega),
              if_neg (show ¬ cp ≤ 0xffff by omega)]
            rw [ofNat_eq (b := c) (by omega), ofNat_eq (b := b1) (by omega),
              ofNat_eq (b := b2) (by omega), ofNat_eq (b := b3) (by omega)]
            rfl

/-- The byte of a number below 256. -/
theorem ofNat_toNat_lt {v : Nat} (hv : v < 256) : (UInt8.ofNat v).toNat = v := by
  rw [UInt8.toNat_ofNat']
  exact Nat.mod_eq_of_lt hv

/-- A round accepts every encoded character. -/
theorem utf8Round_complete (c : Char) (rest : Bytes) :
    utf8Round (String.utf8EncodeChar c ++ rest) = some rest := by
  have hvalid : c.val.toNat < 0xD800 ∨ (0xDFFF < c.val.toNat ∧ c.val.toNat < 0x110000) := c.valid
  rw [String.utf8EncodeChar]
  generalize c.val.toNat = v at hvalid
  split
  · rw [cons_append, utf8Round_cons, ofNat_toNat_lt (by omega)]
    exact .inl ⟨by omega, rfl⟩
  · split
    · rw [cons_append, utf8Round_cons, ofNat_toNat_lt (by omega)]
      refine .inr ⟨by omega, 1, v / 64 % 32, v, ?_, by simp, ?_, ?_, rfl⟩
      · rw [utf8Lead_eq_some (by omega)]
        omega
      · rw [cons_append, take_succ_cons, utf8Tail_cons, ofNat_toNat_lt (by omega),
          take_zero, utf8Tail_nil]
        omega
      · rw [utf8Refused_eq_false]
        omega
    · split
      · rw [cons_append, utf8Round_cons, ofNat_toNat_lt (by omega)]
        refine .inr ⟨by omega, 2, v / 4096 % 16, v, ?_, by simp, ?_, ?_, rfl⟩
        · rw [utf8Lead_eq_some (by omega)]
          omega
        · rw [cons_append, take_succ_cons, utf8Tail_cons, ofNat_toNat_lt (by omega),
            cons_append, take_succ_cons, utf8Tail_cons, ofNat_toNat_lt (by omega),
            take_zero, utf8Tail_nil]
          omega
        · rw [utf8Refused_eq_false]
          omega
      · rw [cons_append, utf8Round_cons, ofNat_toNat_lt (by omega)]
        refine .inr ⟨by omega, 3, v / 262144 % 8, v, ?_, by simp, ?_, ?_, rfl⟩
        · rw [utf8Lead_eq_some (by omega)]
          omega
        · rw [cons_append, take_succ_cons, utf8Tail_cons, ofNat_toNat_lt (by omega),
            cons_append, take_succ_cons, utf8Tail_cons, ofNat_toNat_lt (by omega),
            cons_append, take_succ_cons, utf8Tail_cons, ofNat_toNat_lt (by omega),
            take_zero, utf8Tail_nil]
          omega
        · rw [utf8Refused_eq_false]
          omega

theorem utf8EncodeChar_ne_nil (c : Char) : String.utf8EncodeChar c ≠ [] := by
  rw [String.utf8EncodeChar]
  repeat' split
  all_goals exact cons_ne_nil _ _

/-- The loop, with a round for every byte at least. -/
theorem utf8Loop_iff {s : Bytes} {rounds : Nat} (h : s.length ≤ rounds) :
    utf8Loop rounds s = true ↔ ValidUtf8 s := by
  induction rounds generalizing s with
  | zero =>
      obtain rfl : s = [] := length_eq_zero_iff.mp (Nat.le_zero.mp h)
      exact ⟨fun _ => ⟨[], rfl⟩, fun _ => by rw [utf8Loop]⟩
  | succ rounds ih =>
      cases s with
      | nil => exact ⟨fun _ => ⟨[], rfl⟩, fun _ => by rw [utf8Loop]⟩
      | cons b tail =>
          rw [utf8Loop]
          · constructor
            · intro hloop
              cases hround : utf8Round (b :: tail) with
              | none =>
                  rw [hround] at hloop
                  cases hloop
              | some rest =>
                  rw [hround] at hloop
                  obtain ⟨c, hc⟩ := utf8Round_sound hround
                  have hlt : rest.length ≤ rounds := by
                    have hlength := congrArg List.length hc
                    have hpos := length_pos_iff.mpr (utf8EncodeChar_ne_nil c)
                    rw [length_append] at hlength
                    omega
                  obtain ⟨cs, hcs⟩ := (ih hlt).mp hloop
                  exact ⟨c :: cs, by rw [hc, hcs, flatMap_cons]⟩
            · rintro ⟨cs, hcs⟩
              cases cs with
              | nil => cases hcs
              | cons c cs =>
                  rw [flatMap_cons] at hcs
                  have hlt : (cs.flatMap String.utf8EncodeChar).length ≤ rounds := by
                    have hlength := congrArg List.length hcs
                    have hpos := length_pos_iff.mpr (utf8EncodeChar_ne_nil c)
                    rw [length_append] at hlength
                    omega
                  rw [hcs, utf8Round_complete]
                  exact (ih hlt).mpr ⟨cs, rfl⟩
          · intro hnil
            cases hnil

/-- `is_valid_utf8` decides whether a string is the encoding of a text. -/
theorem isValidUtf8_iff (s : Bytes) : isValidUtf8 s = true ↔ ValidUtf8 s :=
  utf8Loop_iff (Nat.le_refl _)

/-! ## The bytes that are read -/

/-- Why the loop stops before its end: it refuses the string, or it reads outside. -/
inductive Stop where
  | refused
  | outside
  deriving DecidableEq, Repr

/-- `*p`, with the pointer as an index into the string. -/
def byteOf (s : Bytes) (p : Nat) : Except Stop UInt8 :=
  match s[p]? with
  | some b => .ok b
  | none => .error .outside

/-- The inner loop over memory: `n` bytes from `p` on. -/
def tailAt (s : Bytes) : Nat → Nat → Nat → Except Stop Nat
  | _, 0, cp => .ok cp
  | p, n + 1, cp => do
      let b ← byteOf s p
      if b.toNat &&& 0xC0 ≠ 0x80 then .error .refused
      else tailAt s (p + 1) n ((cp <<< 6) ||| (b.toNat &&& 0x3F))

/-- One round over memory: where the next one begins. -/
def roundAt (s : Bytes) (p : Nat) : Except Stop Nat := do
  let c ← byteOf s p
  if c.toNat < 0x80 then .ok (p + 1)
  else
    match utf8Lead c.toNat with
    | none => .error .refused
    | some (n, bits) =>
        if s.length - p < n + 1 then .error .refused
        else do
          let cp ← tailAt s (p + 1) n bits
          if utf8Refused n cp then .error .refused else .ok (p + n + 1)

/-- The loop over memory, for at most so many rounds. -/
def loopAt (s : Bytes) : Nat → Nat → Except Stop Unit
  | rounds, p =>
      if p < s.length then
        match rounds with
        | 0 => .error .refused
        | rounds + 1 => do
            let p ← roundAt s p
            loopAt s rounds p
      else .ok ()

/-- `is_valid_utf8` over memory, with the reads it makes. -/
def validateUtf8 (s : Bytes) : Except Stop Unit := loopAt s s.length 0

/-- A result or a refusal. -/
def orRefused {α : Type} : Option α → Except Stop α
  | some a => .ok a
  | none => .error .refused

theorem byteOf_lt {s : Bytes} {p : Nat} (h : p < s.length) : byteOf s p = .ok s[p] := by
  rw [byteOf, getElem?_eq_getElem h]

/-- Bytes that are there are read in place. -/
theorem tailAt_eq {s : Bytes} {n p : Nat} (h : p + n ≤ s.length) (cp : Nat) :
    tailAt s p n cp = orRefused (utf8Tail cp ((s.drop p).take n)) := by
  induction n generalizing p cp with
  | zero => rw [tailAt, take_zero, utf8Tail, orRefused]
  | succ n ih =>
      have hp : p < s.length := by omega
      rw [tailAt, byteOf_lt hp, drop_eq_getElem_cons hp, take_succ_cons, utf8Tail]
      show (if s[p].toNat &&& 0xC0 ≠ 0x80 then Except.error Stop.refused
        else tailAt s (p + 1) n ((cp <<< 6) ||| (s[p].toNat &&& 0x3F))) = _
      split
      · rfl
      · exact ih (by omega) _

/-- A round over memory is the round over the bytes from its place on. -/
theorem roundAt_eq {s : Bytes} {p : Nat} (h : p < s.length) :
    roundAt s p = orRefused ((utf8Round (s.drop p)).map fun rest => s.length - rest.length) := by
  have hnext : ∀ n, p + n + 1 ≤ s.length →
      s.length - ((s.drop (p + 1)).drop n).length = p + n + 1 := by
    intro n hn
    rw [length_drop, length_drop]
    omega
  rw [roundAt, byteOf_lt h, drop_eq_getElem_cons h, utf8Round]
  show (if s[p].toNat < 0x80 then Except.ok (p + 1) else _) = _
  by_cases hascii : s[p].toNat < 0x80
  · rw [if_pos hascii, if_pos hascii]
    exact congrArg Except.ok (hnext 0 h).symm
  · rw [if_neg hascii, if_neg hascii]
    cases utf8Lead s[p].toNat with
    | none => rfl
    | some l =>
        obtain ⟨n, bits⟩ := l
        dsimp only
        rw [length_drop]
        by_cases hshort : s.length - p < n + 1
        · rw [if_pos hshort, if_pos (by omega)]
          rfl
        · rw [if_neg hshort, if_neg (by omega), tailAt_eq (by omega)]
          cases utf8Tail bits ((s.drop (p + 1)).take n) with
          | none => rfl
          | some cp =>
              show (if utf8Refused n cp = true then Except.error Stop.refused
                else Except.ok (p + n + 1)) = _
              dsimp only
              split
              · rfl
              · exact congrArg Except.ok (hnext n (by omega)).symm

/-- A round leaves a tail of its bytes. -/
theorem utf8Round_suffix {s rest : Bytes} (h : utf8Round s = some rest) : rest <:+ s := by
  obtain ⟨c, hc⟩ := utf8Round_sound h
  exact ⟨String.utf8EncodeChar c, hc.symm⟩

theorem loopAt_eq {s : Bytes} {rounds p : Nat} (h : p ≤ s.length) :
    loopAt s rounds p = if utf8Loop rounds (s.drop p) then .ok () else .error .refused := by
  induction rounds generalizing p with
  | zero =>
      rw [loopAt]
      by_cases hp : p < s.length
      · rw [if_pos hp, drop_eq_getElem_cons hp]
        rfl
      · rw [if_neg hp, drop_of_length_le (Nat.not_lt.mp hp)]
        rfl
  | succ rounds ih =>
      rw [loopAt]
      by_cases hp : p < s.length
      · rw [if_pos hp, roundAt_eq hp]
        have hround : utf8Loop (rounds + 1) (s.drop p) =
            match utf8Round (s.drop p) with
            | none => false
            | some rest => utf8Loop rounds rest := by
          rw [drop_eq_getElem_cons hp]
          rfl
        rw [hround]
        cases hnext : utf8Round (s.drop p) with
        | none => rfl
        | some rest =>
            obtain ⟨front, hfront⟩ := (utf8Round_suffix hnext).trans (drop_suffix p s)
            have hplace : s.drop (s.length - rest.length) = rest := by
              rw [← hfront, length_append, Nat.add_sub_cancel]
              exact drop_left
            show loopAt s rounds (s.length - rest.length) = _
            rw [ih (Nat.sub_le _ _), hplace]
      · rw [if_neg hp, drop_of_length_le (Nat.not_lt.mp hp)]
        rfl

/-- **UTF-8 validation is exact**: the loop ends on every string without a read beyond its
    end, and accepts the encodings of texts and nothing else. -/
theorem validateUtf8_exact (s : Bytes) :
    validateUtf8 s ≠ .error .outside ∧ (validateUtf8 s = .ok () ↔ isValidUtf8 s = true) ∧
      (isValidUtf8 s = true ↔ ∃ cs : List Char, s = cs.flatMap String.utf8EncodeChar) := by
  have hloop : validateUtf8 s = if isValidUtf8 s then .ok () else .error .refused :=
    loopAt_eq (Nat.zero_le _)
  refine ⟨?_, ?_, isValidUtf8_iff s⟩
  · rw [hloop]
    split <;> exact nofun
  · rw [hloop]
    cases isValidUtf8 s with
    | true => exact ⟨fun _ => rfl, fun _ => rfl⟩
    | false => exact ⟨nofun, nofun⟩

end WebSocketUtf8
