import WaveX.HeaderStrings
import WaveX.QpackTable

/-! # The field lines of a QPACK section

    A line of a field section says which entry it refers to, or spells a name out.  What
    it says does not depend on the dynamic table: `scanLine` reads it off the bytes, and
    `decodeLine` is the scan followed by the lookup.  The encoders of
    `qpack::encoder` write lines that scan as intended, wherever they stand. -/

namespace QpackLines

open QuicVarInt Qpack HeaderStrings List
open Hpack (Field decodeInteger decodeString takeString)

/-! ## Lines -/

/-- An index of the static table, one counted back from the base, or one counted on from
    it. -/
inductive Ref where
  | static (idx : Nat)
  | relative (idx : Nat)
  | postBase (idx : Nat)
  deriving DecidableEq, Repr

/-- A field line: an entry, the name of an entry with a value, or a name and a value. -/
inductive Line where
  | indexed (ref : Ref)
  | named (ref : Ref) (value : Bytes)
  | literal (name value : Bytes)
  deriving DecidableEq, Repr

/-- The entry a reference stands for. -/
def Ref.lookup (t : DynamicTable) (base : Nat) : Ref → Option Field
  | .static idx => getStatic idx
  | .relative idx => t.getRelative base idx
  | .postBase idx => t.getPostBase base idx

/-- The field a line stands for. -/
def Line.field (t : DynamicTable) (base : Nat) : Line → Option Field
  | .indexed ref => ref.lookup t base
  | .named ref value => (ref.lookup t base).map fun f => (f.1, value)
  | .literal name value => some (name, value)

def scanIndexed (block : Bytes) (cursor prefixBits : Nat) (ref : Nat → Ref) :
    Option (Line × Nat) := do
  let (idx, cursor) ← decodeInteger block cursor prefixBits
  some (.indexed (ref idx), cursor)

def scanNamed (block : Bytes) (cursor prefixBits : Nat) (ref : Nat → Ref) :
    Option (Line × Nat) := do
  let (idx, cursor) ← decodeInteger block cursor prefixBits
  let (value, cursor) ← decodeString block cursor
  some (.named (ref idx) value, cursor)

def scanLiteral (block : Bytes) (cursor prefixBits : Nat) (isHuffman : Bool) :
    Option (Line × Nat) := do
  let (f, cursor) ← decodeNameValue block cursor prefixBits isHuffman
  some (.literal f.1 f.2, cursor)

/-- The line at the cursor, whose first byte is `b`, and the cursor after it. -/
def scanLine (block : Bytes) (cursor b : Nat) : Option (Line × Nat) :=
  if b &&& 0x80 ≠ 0 then
    scanIndexed block cursor 6 (if b &&& 0x40 ≠ 0 then .static else .relative)
  else if b &&& 0x40 ≠ 0 then
    scanNamed block cursor 4 (if b &&& 0x10 ≠ 0 then .static else .relative)
  else if b &&& 0x20 ≠ 0 then scanLiteral block cursor 3 (b &&& 0x08 != 0)
  else if b &&& 0xf0 = 0x10 then scanIndexed block cursor 4 .postBase
  else if b &&& 0xf0 = 0x00 then scanNamed block cursor 3 .postBase
  else none

/-- A scanned line with the field the table gives it. -/
def resolve (t : DynamicTable) (base : Nat) (scanned : Line × Nat) : Option (Field × Nat) :=
  (scanned.1.field t base).map fun f => (f, scanned.2)

/-! ## Decoding is scanning and looking up -/

variable {block : Bytes} {t : DynamicTable} {base : Nat}

theorem scanIndexed_resolve (c prefixBits : Nat) (ref : Nat → Ref) (lookup : Nat → Option Field)
    (hlookup : ∀ idx, (ref idx).lookup t base = lookup idx) :
    (do let (index, cursor) ← decodeInteger block c prefixBits
        let f ← lookup index
        some (f, cursor)) =
      (scanIndexed block c prefixBits ref).bind (resolve t base) := by
  rw [scanIndexed]
  cases decodeInteger block c prefixBits with
  | none => rfl
  | some p =>
    simp only [Option.bind_eq_bind, Option.bind_some, resolve, Line.field, hlookup]
    cases lookup p.1 <;> rfl

theorem scanNamed_resolve (c prefixBits : Nat) (ref : Nat → Ref) (lookup : Nat → Option Field)
    (hlookup : ∀ idx, (ref idx).lookup t base = lookup idx) :
    decodeRefValue block c prefixBits lookup =
      (scanNamed block c prefixBits ref).bind (resolve t base) := by
  rw [decodeRefValue, scanNamed]
  cases decodeInteger block c prefixBits with
  | none => rfl
  | some p =>
    simp only [Option.bind_eq_bind, Option.bind_some]
    cases hfound : lookup p.1 with
    | none =>
      cases decodeString block p.2 with
      | none => rfl
      | some q => simp only [Option.bind_some, Option.bind_none, resolve, Line.field, hlookup,
          hfound, Option.map_none]
    | some f =>
      cases decodeString block p.2 with
      | none => rfl
      | some q => simp only [Option.bind_some, resolve, Line.field, hlookup, hfound,
          Option.map_some]

theorem scanLiteral_resolve (c prefixBits : Nat) (isHuffman : Bool) :
    decodeNameValue block c prefixBits isHuffman =
      (scanLiteral block c prefixBits isHuffman).bind (resolve t base) := by
  rw [scanLiteral]
  cases decodeNameValue block c prefixBits isHuffman <;> rfl

/-- What a line stands for is what its scan refers to. -/
theorem decodeLine_eq (block : Bytes) (c : Nat) (t : DynamicTable) (base b : Nat) :
    decodeLine block c t base b = (scanLine block c b).bind (resolve t base) := by
  have hstatic : ∀ idx, (Ref.static idx).lookup t base = getStatic idx := fun _ => rfl
  have hrelative : ∀ idx, (Ref.relative idx).lookup t base = t.getRelative base idx := fun _ => rfl
  have hpost : ∀ idx, (Ref.postBase idx).lookup t base = t.getPostBase base idx := fun _ => rfl
  rw [decodeLine, scanLine]
  by_cases h80 : b &&& 0x80 ≠ 0
  · rw [if_pos h80, if_pos h80]
    by_cases h40 : b &&& 0x40 ≠ 0
    · rw [if_pos h40, if_pos h40]
      exact scanIndexed_resolve c 6 _ _ hstatic
    · rw [if_neg h40, if_neg h40]
      exact scanIndexed_resolve c 6 _ _ hrelative
  rw [if_neg h80, if_neg h80]
  by_cases h40 : b &&& 0x40 ≠ 0
  · rw [if_pos h40, if_pos h40]
    by_cases h10 : b &&& 0x10 ≠ 0
    · rw [if_pos h10, if_pos h10]
      exact scanNamed_resolve c 4 _ _ hstatic
    · rw [if_neg h10, if_neg h10]
      exact scanNamed_resolve c 4 _ _ hrelative
  rw [if_neg h40, if_neg h40]
  by_cases h20 : b &&& 0x20 ≠ 0
  · rw [if_pos h20, if_pos h20]
    exact scanLiteral_resolve c 3 _
  rw [if_neg h20, if_neg h20]
  by_cases hindexed : b &&& 0xf0 = 0x10
  · rw [if_pos hindexed, if_pos hindexed]
    exact scanIndexed_resolve c 4 _ _ hpost
  rw [if_neg hindexed, if_neg hindexed]
  by_cases hnamed : b &&& 0xf0 = 0x00
  · rw [if_pos hnamed, if_pos hnamed]
    exact scanNamed_resolve c 3 _ _ hpost
  · rw [if_neg hnamed, if_neg hnamed]
    rfl

/-! ## The encoders of lines -/

/-- `encode_indexed_static`. -/
def encodeIndexedStatic (idx : Nat) : Bytes := encodeInteger idx 6 0xc0

/-- `encode_indexed_dynamic`. -/
def encodeIndexedDynamic (relIdx : Nat) : Bytes := encodeInteger relIdx 6 0x80

/-- `encode_literal_with_name_ref`. -/
def encodeLiteralWithNameRef (idx : Nat) (isStatic : Bool) (val : Bytes) : Bytes :=
  encodeInteger idx 4 (if isStatic then 0x50 else 0x40) ++ encodeString val

/-- `encode_literal_new_name`. -/
def encodeLiteralNewName (name val : Bytes) : Bytes :=
  encodeInteger name.length 3 0x20 ++ name ++ encodeString val

/-- Bytes that scan as a line, wherever they stand. -/
structure Represents (rep : Bytes) (line : Line) : Prop where
  nonempty : rep ≠ []
  scans : ∀ (input : Bytes) (c : Nat) (rest : Bytes),
    input.length < 2 ^ 64 → At input c (rep ++ rest) →
      ∃ b tail, input.drop c = b :: tail ∧
        scanLine input c b.toNat = some (line, c + rep.length)

theorem encodeInteger_ne_nil (value bits mask : Nat) (rest : Bytes) :
    encodeInteger value bits mask ++ rest ≠ [] := by
  obtain ⟨tail, hfirst⟩ := encodeInteger_first value bits mask
  rw [hfirst]
  exact cons_ne_nil _ _

theorem scanIndexed_encode {input rest : Bytes} {c idx bits mask : Nat} {ref : Nat → Ref}
    (hfits : PrefixFits bits mask) (hidx : idx < 2 ^ 64)
    (hat : At input c (encodeInteger idx bits mask ++ rest)) :
    scanIndexed input c bits ref =
      some (.indexed (ref idx), c + (encodeInteger idx bits mask).length) := by
  rw [scanIndexed, decodeInteger_encode hfits hidx hat]
  rfl

theorem scanNamed_encode {input rest value : Bytes} {c idx bits mask : Nat} {ref : Nat → Ref}
    (hfits : PrefixFits bits mask) (hidx : idx < 2 ^ 64) (hsize : input.length < 2 ^ 64)
    (hat : At input c (encodeInteger idx bits mask ++ (encodeString value ++ rest))) :
    scanNamed input c bits ref = some (.named (ref idx) value,
      c + (encodeInteger idx bits mask ++ encodeString value).length) := by
  rw [scanNamed, decodeInteger_encode hfits hidx hat]
  simp only [Option.bind_eq_bind, Option.bind_some, decodeString_encode hsize hat.advance]
  rw [length_append, Nat.add_assoc]

/-- A name in place, with its length before it and a value after it. -/
theorem decodeNameValue_encode {input rest name value : Bytes} {c bits mask : Nat}
    (hfits : PrefixFits bits mask) (hsize : input.length < 2 ^ 64)
    (hat : At input c (encodeInteger name.length bits mask ++ (name ++
      (encodeString value ++ rest)))) :
    decodeNameValue input c bits false = some ((name, value),
      c + (encodeInteger name.length bits mask ++ name ++ encodeString value).length) := by
  have hname := hat.advance
  have hlength := hname.length
  rw [length_append] at hlength
  have hinteger := decodeInteger_encode hfits (by omega) hat
  rw [decodeNameValue, decodeName, hinteger]
  simp only [Option.bind_eq_bind, Option.bind_some, takeString_at hname (by omega),
    decodeString_encode hsize hname.advance]
  rw [length_append, length_append, Nat.add_assoc, Nat.add_assoc, Nat.add_assoc]

theorem encodeIndexedStatic_represents {idx : Nat} (hidx : idx < 2 ^ 64) :
    Represents (encodeIndexedStatic idx) (.indexed (.static idx)) := by
  have hfits : PrefixFits 6 0xc0 := by decide
  constructor
  · have hne := encodeInteger_ne_nil idx 6 0xc0 []
    rwa [append_nil] at hne
  · intro input c rest hsize hat
    obtain ⟨b, tail, hdrop, hflag⟩ := hat.first hfits
    refine ⟨b, tail, hdrop, ?_⟩
    rw [scanLine, hflag 0x80 (by decide), hflag 0x40 (by decide), if_pos (by decide),
      if_pos (by decide)]
    exact scanIndexed_encode hfits hidx hat

theorem encodeIndexedDynamic_represents {relIdx : Nat} (hidx : relIdx < 2 ^ 64) :
    Represents (encodeIndexedDynamic relIdx) (.indexed (.relative relIdx)) := by
  have hfits : PrefixFits 6 0x80 := by decide
  constructor
  · have hne := encodeInteger_ne_nil relIdx 6 0x80 []
    rwa [append_nil] at hne
  · intro input c rest hsize hat
    obtain ⟨b, tail, hdrop, hflag⟩ := hat.first hfits
    refine ⟨b, tail, hdrop, ?_⟩
    rw [scanLine, hflag 0x80 (by decide), hflag 0x40 (by decide), if_pos (by decide),
      if_neg (by decide)]
    exact scanIndexed_encode hfits hidx hat

theorem encodeLiteralWithNameRef_represents {idx : Nat} (hidx : idx < 2 ^ 64) (isStatic : Bool)
    (val : Bytes) : Represents (encodeLiteralWithNameRef idx isStatic val)
      (.named (if isStatic then .static idx else .relative idx) val) := by
  constructor
  · exact encodeInteger_ne_nil _ _ _ _
  · intro input c rest hsize hat
    rw [encodeLiteralWithNameRef, append_assoc] at hat
    cases isStatic with
    | true =>
      have hfits : PrefixFits 4 0x50 := by decide
      obtain ⟨b, tail, hdrop, hflag⟩ := hat.first hfits
      refine ⟨b, tail, hdrop, ?_⟩
      rw [scanLine, hflag 0x80 (by decide), hflag 0x40 (by decide), hflag 0x10 (by decide),
        if_neg (by decide), if_pos (by decide), if_pos (by decide)]
      exact scanNamed_encode hfits hidx hsize hat
    | false =>
      have hfits : PrefixFits 4 0x40 := by decide
      obtain ⟨b, tail, hdrop, hflag⟩ := hat.first hfits
      refine ⟨b, tail, hdrop, ?_⟩
      rw [scanLine, hflag 0x80 (by decide), hflag 0x40 (by decide), hflag 0x10 (by decide),
        if_neg (by decide), if_pos (by decide), if_neg (by decide)]
      exact scanNamed_encode hfits hidx hsize hat

theorem encodeLiteralNewName_represents (name val : Bytes) :
    Represents (encodeLiteralNewName name val) (.literal name val) := by
  have hfits : PrefixFits 3 0x20 := by decide
  constructor
  · rw [encodeLiteralNewName, append_assoc]
    exact encodeInteger_ne_nil _ _ _ _
  · intro input c rest hsize hat
    rw [encodeLiteralNewName, append_assoc, append_assoc] at hat
    obtain ⟨b, tail, hdrop, hflag⟩ := hat.first hfits
    have hplain : (b.toNat &&& 0x08 != 0) = false := by
      rw [hflag 0x08 (by decide)]
      rfl
    refine ⟨b, tail, hdrop, ?_⟩
    rw [scanLine, hplain, hflag 0x80 (by decide), hflag 0x40 (by decide), hflag 0x20 (by decide),
      if_neg (by decide), if_neg (by decide), if_pos (by decide), scanLiteral,
      decodeNameValue_encode hfits hsize hat]
    rfl

/-! ## The loop of the decoder -/

/-- Bytes that scan as a list of lines. -/
def Spells (bytes : Bytes) (lines : List Line) : Prop :=
  ∃ reps, bytes = reps.flatten ∧ List.Forall₂ Represents reps lines

theorem Spells.nil : Spells [] [] := ⟨[], rfl, .nil⟩

theorem Represents.spells {rep : Bytes} {line : Line} (h : Represents rep line) :
    Spells rep [line] := ⟨[rep], (append_nil rep).symm, .cons h .nil⟩

theorem Spells.append {a b : Bytes} {ls ks : List Line} (ha : Spells a ls) (hb : Spells b ks) :
    Spells (a ++ b) (ls ++ ks) := by
  obtain ⟨reps, rfl, hreps⟩ := ha
  obtain ⟨reps', rfl, hreps'⟩ := hb
  exact ⟨reps ++ reps', flatten_append.symm, rel_append hreps hreps'⟩

/-- Lines that stand for fields. -/
def Means (t : DynamicTable) (base : Nat) (lines : List Line) (fields : List Field) : Prop :=
  List.Forall₂ (fun line f => line.field t base = some f) lines fields

theorem addHeader_zero (headers : List Field) (f : Field) :
    addHeader 0 headers f = some (headers ++ [f]) := by
  rw [addHeader, if_neg fun h => Nat.lt_irrefl 0 h.1]

theorem decodeLines_represents {input : Bytes} (hsize : input.length < 2 ^ 64)
    {reps : List Bytes} {lines : List Line} (h : List.Forall₂ Represents reps lines)
    {fields : List Field} (hmeans : Means t base lines fields) {c fuel : Nat}
    {headers : List Field} (hat : At input c reps.flatten) (hfuel : reps.length < fuel) :
    decodeLines 0 input t base fuel c headers =
      some { ok := true, headers := headers ++ fields } := by
  induction h generalizing fields c fuel headers with
  | nil =>
    obtain ⟨fuel, rfl⟩ := Nat.exists_eq_add_of_lt hfuel
    cases hmeans
    rw [length_nil, Nat.zero_add, decodeLines, hat.drop, append_nil]
    rfl
  | @cons rep line reps lines hrep _ ih =>
    obtain ⟨fuel, rfl⟩ := Nat.exists_eq_add_of_lt hfuel
    obtain _ | ⟨hfield, hmeans⟩ := hmeans
    rename_i f fields
    rw [length_cons] at hfuel ⊢
    rw [flatten_cons] at hat
    obtain ⟨b, tail, hdrop, hscan⟩ := hrep.scans input c _ hsize hat
    have hline : decodeLine input c t base b.toNat = some (f, c + rep.length) := by
      rw [decodeLine_eq, hscan, Option.bind_some, resolve, hfield, Option.map_some]
    rw [decodeLines, hdrop]
    simp only [hline, addHeader_zero]
    rw [ih hmeans hat.advance (by omega), append_assoc, singleton_append]

/-- Lines that are spelled after a cursor decode to the fields they stand for. -/
theorem Spells.decodeLines {input bytes : Bytes} {lines : List Line} {fields : List Field}
    (h : Spells bytes lines) (hmeans : Means t base lines fields)
    (hsize : input.length < 2 ^ 64) {c fuel : Nat} (hat : At input c bytes)
    (hfuel : input.length < fuel) :
    decodeLines 0 input t base fuel c [] = some { ok := true, headers := fields } := by
  obtain ⟨reps, rfl, hreps⟩ := h
  have hlength := hat.length
  have hcount := length_le_flatten Represents.nonempty hreps
  rw [decodeLines_represents hsize hreps hmeans hat (by omega), nil_append]

end QpackLines
