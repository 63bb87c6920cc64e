import WaveX.Hpack
import WaveX.PrefixCode

/-! # The Huffman code of HPACK

    `huffman::decode` against the code of the standard.  The standard's code has its own
    table here; `TABLE` of the source is `Hpack.huffmanTable`, and from byte 134 on most of
    its entries are others.  Both tables are read by one reader of bits, which holds as many
    bits as it likes.  `huffman::decode` is that reader with the source's table as long as
    its 32-bit buffer suffices, and the reader with the standard's table reads exactly the
    encodings.  So `huffman::decode` is right where the two tables find the same symbols
    (`huffmanDecode_exact`).  Which texts these are is said last, by their bytes and the
    places where a byte of the input ends (`Legible`, `huffmanDecode_legible`). -/

namespace HpackHuffman

open QuicVarInt Hpack PrefixCode List

/-! ## The code of the standard -/

/-- Code and length of each byte in RFC 7541, Appendix B. -/
def standardTable : List (Nat × Nat) :=
  [(0x1ff8, 13), (0x7fffd8, 23), (0xfffffe2, 28), (0xfffffe3, 28), (0xfffffe4, 28),
   (0xfffffe5, 28), (0xfffffe6, 28), (0xfffffe7, 28), (0xfffffe8, 28), (0xffffea, 24),
   (0x3ffffffc, 30), (0xfffffe9, 28), (0xfffffea, 28), (0x3ffffffd, 30), (0xfffffeb, 28),
   (0xfffffec, 28), (0xfffffed, 28), (0xfffffee, 28), (0xfffffef, 28), (0xffffff0, 28),
   (0xffffff1, 28), (0xffffff2, 28), (0x3ffffffe, 30), (0xffffff3, 28), (0xffffff4, 28),
   (0xffffff5, 28), (0xffffff6, 28), (0xffffff7, 28), (0xffffff8, 28), (0xffffff9, 28),
   (0xffffffa, 28), (0xffffffb, 28), (0x14, 6), (0x3f8, 10), (0x3f9, 10), (0xffa, 12),
   (0x1ff9, 13), (0x15, 6), (0xf8, 8), (0x7fa, 11), (0x3fa, 10), (0x3fb, 10), (0xf9, 8),
   (0x7fb, 11), (0xfa, 8), (0x16, 6), (0x17, 6), (0x18, 6), (0x0, 5), (0x1, 5), (0x2, 5),
   (0x19, 6), (0x1a, 6), (0x1b, 6), (0x1c, 6), (0x1d, 6), (0x1e, 6), (0x1f, 6), (0x5c, 7),
   (0xfb, 8), (0x7ffc, 15), (0x20, 6), (0xffb, 12), (0x3fc, 10), (0x1ffa, 13), (0x21, 6),
   (0x5d, 7), (0x5e, 7), (0x5f, 7), (0x60, 7), (0x61, 7), (0x62, 7), (0x63, 7), (0x64, 7),
   (0x65, 7), (0x66, 7), (0x67, 7), (0x68, 7), (0x69, 7), (0x6a, 7), (0x6b, 7), (0x6c, 7),
   (0x6d, 7), (0x6e, 7), (0x6f, 7), (0x70, 7), (0x71, 7), (0x72, 7), (0xfc, 8), (0x73, 7),
   (0xfd, 8), (0x1ffb, 13), (0x7fff0, 19), (0x1ffc, 13), (0x3ffc, 14), (0x22, 6), (0x7ffd, 15),
   (0x3, 5), (0x23, 6), (0x4, 5), (0x24, 6), (0x5, 5), (0x25, 6), (0x26, 6), (0x27, 6), (0x6, 5),
   (0x74, 7), (0x75, 7), (0x28, 6), (0x29, 6), (0x2a, 6), (0x7, 5), (0x2b, 6), (0x76, 7),
   (0x2c, 6), (0x8, 5), (0x9, 5), (0x2d, 6), (0x77, 7), (0x78, 7), (0x79, 7), (0x7a, 7),
   (0x7b, 7), (0x7ffe, 15), (0x7fc, 11), (0x3ffd, 14), (0x1ffd, 13), (0xffffffc, 28),
   (0xfffe6, 20), (0x3fffd2, 22), (0xfffe7, 20), (0xfffe8, 20), (0x3fffd3, 22), (0x3fffd4, 22),
   (0x3fffd5, 22), (0x7fffd9, 23), (0x3fffd6, 22), (0x7fffda, 23), (0x7fffdb, 23),
   (0x7fffdc, 23), (0x7fffdd, 23), (0x7fffde, 23), (0xffffeb, 24), (0x7fffdf, 23),
   (0xffffec, 24), (0xffffed, 24), (0x3fffd7, 22), (0x7fffe0, 23), (0xffffee, 24),
   (0x7fffe1, 23), (0x7fffe2, 23), (0x7fffe3, 23), (0x7fffe4, 23), (0x1fffdc, 21),
   (0x3fffd8, 22), (0x7fffe5, 23), (0x3fffd9, 22), (0x7fffe6, 23), (0x7fffe7, 23),
   (0xffffef, 24), (0x3fffda, 22), (0x1fffdd, 21), (0xfffe9, 20), (0x3fffdb, 22), (0x3fffdc, 22),
   (0x7fffe8, 23), (0x7fffe9, 23), (0x1fffde, 21), (0x7fffea, 23), (0x3fffdd, 22),
   (0x3fffde, 22), (0xfffff0, 24), (0x1fffdf, 21), (0x3fffdf, 22), (0x7fffeb, 23),
   (0x7fffec, 23), (0x1fffe0, 21), (0x1fffe1, 21), (0x3fffe0, 22), (0x1fffe2, 21),
   (0x7fffed, 23), (0x3fffe1, 22), (0x7fffee, 23), (0x7fffef, 23), (0xfffea, 20), (0x3fffe2, 22),
   (0x3fffe3, 22), (0x3fffe4, 22), (0x7ffff0, 23), (0x3fffe5, 22), (0x3fffe6, 22),
   (0x7ffff1, 23), (0x3ffffe0, 26), (0x3ffffe1, 26), (0xfffeb, 20), (0x7fff1, 19),
   (0x3fffe7, 22), (0x7ffff2, 23), (0x3fffe8, 22), (0x1ffffec, 25), (0x3ffffe2, 26),
   (0x3ffffe3, 26), (0x3ffffe4, 26), (0x7ffffde, 27), (0x7ffffdf, 27), (0x3ffffe5, 26),
   (0xfffff1, 24), (0x1ffffed, 25), (0x7fff2, 19), (0x1fffe3, 21), (0x3ffffe6, 26),
   (0x7ffffe0, 27), (0x7ffffe1, 27), (0x3ffffe7, 26), (0x7ffffe2, 27), (0xfffff2, 24),
   (0x1fffe4, 21), (0x1fffe5, 21), (0x3ffffe8, 26), (0x3ffffe9, 26), (0xffffffd, 28),
   (0x7ffffe3, 27), (0x7ffffe4, 27), (0x7ffffe5, 27), (0xfffec, 20), (0xfffff3, 24),
   (0xfffed, 20), (0x1fffe6, 21), (0x3fffe9, 22), (0x1fffe7, 21), (0x1fffe8, 21), (0x7ffff3, 23),
   (0x3fffea, 22), (0x3fffeb, 22), (0x1ffffee, 25), (0x1ffffef, 25), (0xfffff4, 24),
   (0xfffff5, 24), (0x3ffffea, 26), (0x7ffff4, 23), (0x3ffffeb, 26), (0x7ffffe6, 27),
   (0x3ffffec, 26), (0x3ffffed, 26), (0x7ffffe7, 27), (0x7ffffe8, 27), (0x7ffffe9, 27),
   (0x7ffffea, 27), (0x7ffffeb, 27), (0xffffffe, 28), (0x7ffffec, 27), (0x7ffffed, 27),
   (0x7ffffee, 27), (0x7ffffef, 27), (0x7fffff0, 27), (0x3ffffee, 26)]

/-- The word a table has for a byte. -/
def wordOf (table : List (Nat × Nat)) (b : UInt8) : List Bool :=
  match table[b.toNat]? with
  | none => []
  | some (code, codeBits) => word codeBits code

/-- The bits of a byte string. -/
def bitsOf (x : Bytes) : List Bool := x.flatMap fun c => word 8 c.toNat

/-- `x` is the concatenation of the standard's codes of the bytes of `s`, padded with up to
    seven one-bits. -/
def Encodes (x s : Bytes) : Prop :=
  ∃ pad : List Bool, pad.length ≤ 7 ∧ (∀ b ∈ pad, b = true) ∧
    bitsOf x = encode (wordOf standardTable) s ++ pad

/-! ## A reader of bits -/

/-- The code of an entry begins the bits held. -/
def Begins (e : Nat × Nat) (w : List Bool) : Prop := e.2 ≤ w.length ∧ value (w.take e.2) = e.1

instance (e : Nat × Nat) (w : List Bool) : Decidable (Begins e w) :=
  inferInstanceAs (Decidable (_ ∧ _))

/-- The first symbol from `sym` on whose code begins the bits held, and its length. -/
def search (w : List Bool) : Nat → List (Nat × Nat) → Option (Nat × Nat)
  | _, [] => none
  | sym, e :: rest => if Begins e w then some (sym, e.2) else search w (sym + 1) rest

/-- The symbols that are taken from the bits held, and the bits that stay. -/
def takeCodes (table : List (Nat × Nat)) : Nat → List Bool → Bytes × List Bool
  | 0, w => ([], w)
  | fuel + 1, w =>
      match search w 0 table with
      | none => ([], w)
      | some (sym, codeBits) =>
          let r := takeCodes table fuel (w.drop codeBits)
          (UInt8.ofNat sym :: r.1, r.2)

/-- Bytes come, and with each the symbols are taken that it completes. -/
def readBits (table : List (Nat × Nat)) : List Bool → Bytes → Bytes × List Bool
  | w, [] => ([], w)
  | w, c :: rest =>
      let r := takeCodes table (w.length + 8) (w ++ word 8 c.toNat)
      let q := readBits table r.2 rest
      (r.1 ++ q.1, q.2)

/-- No more than seven bits stay at the end, and they are ones. -/
def padded (r : Bytes × List Bool) : Option Bytes :=
  if r.2.length ≤ 7 ∧ ∀ b ∈ r.2, b = true then some r.1 else none

/-- The 32-bit buffer suffices: no more than 24 bits are held when a byte comes. -/
def fits : List Bool → Bytes → Bool
  | _, [] => true
  | w, c :: rest => decide (w.length ≤ 24) &&
      fits (takeCodes huffmanTable (w.length + 8) (w ++ word 8 c.toNat)).2 rest

/-! ## Where the tables agree -/

/-- While the standard's symbols are taken from the bits held, the source's table finds
    what the standard's finds. -/
def agreeing : Nat → List Bool → Bool
  | 0, _ => true
  | fuel + 1, w => decide (search w 0 huffmanTable = search w 0 standardTable) &&
      match search w 0 standardTable with
      | none => true
      | some (_, codeBits) => agreeing fuel (w.drop codeBits)

/-- The input can be read with the source's table and buffer: in the standard's reading of
    it no more than 24 bits are held when a byte comes, and whenever a symbol is looked for
    both tables find the same one or none. -/
def clean : List Bool → Bytes → Bool
  | _, [] => true
  | w, c :: rest => decide (w.length ≤ 24) && agreeing (w.length + 8) (w ++ word 8 c.toNat) &&
      clean (takeCodes standardTable (w.length + 8) (w ++ word 8 c.toNat)).2 rest

/-! ## The tables -/

/-- Neither code begins the other. -/
def Apart (e f : Nat × Nat) : Prop := e.1 >>> (e.2 - f.2) ≠ f.1 >>> (f.2 - e.2)

instance (e f : Nat × Nat) : Decidable (Apart e f) := inferInstanceAs (Decidable (_ ≠ _))

theorem standardTable_length : standardTable.length = 256 := by decide +kernel

theorem huffmanTable_length : huffmanTable.length = 256 := by decide +kernel

theorem standardTable_entries :
    ∀ e ∈ standardTable, 5 ≤ e.2 ∧ e.2 ≤ 30 ∧ e.1 < 2 ^ e.2 := by decide +kernel

theorem huffmanTable_entries : ∀ e ∈ huffmanTable, 5 ≤ e.2 ∧ e.2 ≤ 30 := by decide +kernel

/-- The words of the standard in a tree, each with the number of its byte. -/
def standardTree : CodeTree Nat :=
  standardTable.zipIdx.foldl (fun t p => t.insert p.2 (word p.1.2 p.1.1)) .empty

theorem standardTree_lookup :
    ∀ p ∈ standardTable.zipIdx, standardTree.lookup (word p.1.2 p.1.1) = some p.2 := by
  decide +kernel

/-- Padding is no symbol, in either table. -/
theorem tables_ones :
    ∀ e ∈ standardTable ++ huffmanTable, e.2 ≤ 7 → e.1 ≠ 2 ^ e.2 - 1 := by decide +kernel

/-- Where the source has another code for a byte, it is one that the standard's does not
    begin and that does not begin the standard's. -/
theorem tables_apart : ∀ p ∈ huffmanTable.zip standardTable,
    p.1 = p.2 ∨ Apart (p.1.1 % 2 ^ p.1.2, p.1.2) p.2 := by decide +kernel

variable {table : List (Nat × Nat)} {v w pad : List Bool} {x s t rest : Bytes}
  {fuel sym codeBits : Nat} {e f : Nat × Nat} {b : UInt8}

theorem Apart.symm (h : Apart e f) : Apart f e := Ne.symm h

/-- The word of one entry does not begin that of the other. -/
theorem Apart.not_prefix (h : Apart e f) (he : e.1 < 2 ^ e.2) (hf : f.1 < 2 ^ f.2) :
    ¬ word e.2 e.1 <+: word f.2 f.1 := by
  intro hstarts
  obtain ⟨hle, heq⟩ := word_prefix_word hstarts he hf
  refine h ?_
  rw [Nat.sub_eq_zero_of_le hle, Nat.shiftRight_zero]
  exact heq.symm

theorem exists_entry (h : table.length = 256) (b : UInt8) :
    ∃ e ∈ table, table[b.toNat]? = some e ∧ wordOf table b = word e.2 e.1 := by
  have hb : b.toNat < table.length := h ▸ b.toNat_lt
  have hget := getElem?_eq_getElem hb
  refine ⟨table[b.toNat], getElem_mem hb, hget, ?_⟩
  rw [wordOf, hget]

/-- The standard's code is a prefix code. -/
theorem standard_prefixFree : PrefixFree (wordOf standardTable) := by
  have hlookup : ∀ b, standardTree.lookup (wordOf standardTable b) = some b.toNat := by
    intro b
    obtain ⟨e, -, hget, hword⟩ := exists_entry standardTable_length b
    rw [hword]
    exact standardTree_lookup (e, b.toNat) (mk_mem_zipIdx_iff_getElem?.mpr hget)
  exact .of_tree (fun _ _ => UInt8.toNat_inj.mp) hlookup

/-! ## What a search finds -/

/-- The search fails when no code begins the register. -/
theorem search_eq_none : search w sym table = none ↔ ∀ e ∈ table, ¬ Begins e w := by
  induction table generalizing sym with
  | nil =>
    constructor
    · intro _ e he
      cases he
    · intro _
      rfl
  | cons e rest ih =>
    rw [search, forall_mem_cons]
    split
    · rename_i hbegins
      constructor
      · rintro ⟨⟩
      · intro h
        exact absurd hbegins h.1
    · rename_i hbegins
      rw [ih]
      exact ⟨fun h => ⟨hbegins, h⟩, fun h => h.2⟩

/-- What is found is the first entry that begins the bits. -/
theorem search_eq_some {i : Nat} (h : search w sym table = some (i, codeBits)) :
    ∃ k code, i = sym + k ∧ table[k]? = some (code, codeBits) ∧ Begins (code, codeBits) w := by
  induction table generalizing sym with
  | nil => cases h
  | cons e rest ih =>
    rw [search] at h
    split at h
    · rename_i hbegins
      cases h
      exact ⟨0, e.1, rfl, rfl, hbegins⟩
    · obtain ⟨k, code, rfl, hget, hbegins⟩ := ih h
      exact ⟨k + 1, code, by omega, hget, hbegins⟩

/-- No symbol is shorter than five bits. -/
theorem search_nil (hentries : ∀ e ∈ table, 5 ≤ e.2) : search [] 0 table = none := by
  rw [search_eq_none]
  intro e he hbegins
  have hle : e.2 ≤ 0 := hbegins.1
  have hlow := hentries e he
  omega

theorem Begins.word_eq (h : Begins e w) : word e.2 e.1 = w.take e.2 := by
  have hlen : (w.take e.2).length = e.2 := by rw [length_take, Nat.min_eq_left h.1]
  calc word e.2 e.1 = word (w.take e.2).length (value (w.take e.2)) := by rw [hlen, h.2]
    _ = w.take e.2 := word_value

/-- What is found is the word of its symbol. -/
theorem wordOf_of_search (hsize : table.length = 256)
    (h : search w 0 table = some (sym, codeBits)) :
    ∃ code, table[sym]? = some (code, codeBits) ∧ Begins (code, codeBits) w ∧
      (UInt8.ofNat sym).toNat = sym ∧ wordOf table (UInt8.ofNat sym) = w.take codeBits := by
  obtain ⟨k, code, hk, hget, hbegins⟩ := search_eq_some h
  obtain rfl : sym = k := hk.trans (Nat.zero_add k)
  have hsym : sym < 256 := hsize ▸ (List.getElem?_eq_some_iff.mp hget).1
  have hback : (UInt8.ofNat sym).toNat = sym := UInt8.toNat_ofNat_of_lt hsym
  refine ⟨code, hget, hbegins, hback, ?_⟩
  rw [wordOf, hback, hget]
  exact hbegins.word_eq

/-! ## What the reader reads -/

/-- The symbols taken stand in front of the bits that stay. -/
theorem takeCodes_spec (hsize : table.length = 256) (fuel : Nat) (w : List Bool) :
    w = encode (wordOf table) (takeCodes table fuel w).1 ++ (takeCodes table fuel w).2 := by
  induction fuel generalizing w with
  | zero => rfl
  | succ fuel ih =>
    rw [takeCodes]
    cases hfound : search w 0 table with
    | none => rfl
    | some found =>
      obtain ⟨sym, codeBits⟩ := found
      obtain ⟨-, -, -, -, hword⟩ := wordOf_of_search hsize hfound
      show w = wordOf table (UInt8.ofNat sym) ++ encode _ _ ++ _
      rw [hword, append_assoc, ← ih, take_append_drop]

theorem takeCodes_length (hsize : table.length = 256) (fuel : Nat) (w : List Bool) :
    (takeCodes table fuel w).2.length ≤ w.length := by
  have hlength := congrArg List.length (takeCodes_spec hsize fuel w)
  rw [length_append] at hlength
  omega

/-- Nothing can be taken from the bits that stay. -/
theorem takeCodes_stuck (hentries : ∀ e ∈ table, 5 ≤ e.2) (hfuel : w.length ≤ fuel) :
    search (takeCodes table fuel w).2 0 table = none := by
  induction fuel generalizing w with
  | zero =>
    obtain rfl : w = [] := length_eq_zero_iff.mp (Nat.le_zero.mp hfuel)
    exact search_nil hentries
  | succ fuel ih =>
    rw [takeCodes]
    cases hfound : search w 0 table with
    | none => exact hfound
    | some found =>
      obtain ⟨sym, codeBits⟩ := found
      obtain ⟨k, code, -, hget, hbegins⟩ := search_eq_some hfound
      have hbits := hentries _ (mem_of_getElem? hget)
      have hle : codeBits ≤ w.length := hbegins.1
      refine ih ?_
      rw [length_drop]
      omega

/-- The codes taken and the bits left are what was read. -/
theorem readBits_spec (hsize : table.length = 256) (w : List Bool) (x : Bytes) :
    w ++ bitsOf x = encode (wordOf table) (readBits table w x).1 ++ (readBits table w x).2 := by
  induction x generalizing w with
  | nil => exact append_nil w
  | cons c rest ih =>
    rw [readBits, encode_append, append_assoc, ← ih, ← append_assoc,
      ← takeCodes_spec hsize, append_assoc]
    rfl

/-- What is left begins no code. -/
theorem readBits_stuck (hentries : ∀ e ∈ table, 5 ≤ e.2) (h : search w 0 table = none)
    (x : Bytes) : search (readBits table w x).2 0 table = none := by
  induction x generalizing w with
  | nil => exact h
  | cons c rest ih =>
    refine ih (takeCodes_stuck hentries ?_)
    rw [length_append, word_length]

/-! ## The reader with the standard's table -/

/-- No code of the standard's table is found: none is at the front. -/
theorem standard_stuck (h : search w 0 standardTable = none) :
    Stuck (wordOf standardTable) w := by
  intro b hstarts
  obtain ⟨e, he, -, hword⟩ := exists_entry standardTable_length b
  rw [hword] at hstarts
  exact search_eq_none.mp h e he
    ((prefix_word_iff (standardTable_entries e he).2.2).mp hstarts)

theorem standard_found (h : Stuck (wordOf standardTable) w) :
    search w 0 standardTable = none := by
  cases hfound : search w 0 standardTable with
  | none => rfl
  | some found =>
    obtain ⟨sym, codeBits⟩ := found
    obtain ⟨-, -, -, -, hword⟩ := wordOf_of_search standardTable_length hfound
    exact absurd (hword ▸ take_prefix codeBits w) (h (UInt8.ofNat sym))

/-- No entry begins what padding begins with. -/
theorem not_begins_padding (he : e ∈ standardTable ++ huffmanTable) (hlen : pad.length ≤ 7)
    (hones : ∀ b ∈ pad, b = true) (hw : w <+: pad) : ¬ Begins e w := by
  rintro ⟨hle, hvalue⟩
  have htake : (w.take e.2).length = e.2 := by rw [length_take, Nat.min_eq_left hle]
  have hmem : ∀ b ∈ w.take e.2, b = true := fun b hb =>
    hones b (hw.subset (mem_of_mem_take hb))
  have hwlen := hw.length_le
  refine tables_ones e he (by omega) ?_
  rw [← hvalue, value_ones.mpr hmem, htake]

/-- Padding begins no code. -/
theorem padding_stuck (hlen : pad.length ≤ 7) (hones : ∀ b ∈ pad, b = true) :
    Stuck (wordOf standardTable) pad :=
  standard_stuck (search_eq_none.mpr fun _ he =>
    not_begins_padding (mem_append_left _ he) hlen hones prefix_rfl)

/-- The reader with the standard's table reads the encodings and nothing else. -/
theorem readBits_standard : padded (readBits standardTable [] x) = some s ↔ Encodes x s := by
  have hspec := readBits_spec standardTable_length [] x
  have hentries : ∀ e ∈ standardTable, 5 ≤ e.2 := fun e he => (standardTable_entries e he).1
  have hstuck := standard_stuck (readBits_stuck hentries (search_nil hentries) x)
  rw [nil_append] at hspec
  rw [padded]
  constructor
  · intro h
    split at h
    · rename_i hpad
      cases h
      exact ⟨_, hpad.1, hpad.2, hspec⟩
    · cases h
  · rintro ⟨pad, hlen, hones, heq⟩
    obtain ⟨hs, hpad⟩ := standard_prefixFree.encode_inj (padding_stuck hlen hones) hstuck
      (heq.symm.trans hspec)
    rw [← hs, ← hpad, if_pos ⟨hlen, hones⟩]

/-! ## The decoder is the reader with the source's table -/

/-- In the buffer the search of the source finds what the reader's finds. -/
theorem matchSymbol_eq (hentries : ∀ e ∈ table, 5 ≤ e.2 ∧ e.2 ≤ 30) (hw : w.length ≤ 32)
    (sym : Nat) : matchSymbol (value w) w.length sym table = search w sym table := by
  induction table generalizing sym with
  | nil => rfl
  | cons e rest ih =>
    obtain ⟨⟨hlow, hhigh⟩, hrest⟩ := forall_mem_cons.mp hentries
    have hpart : e.2 ≤ w.length →
        codePart (value w) w.length e.2 = value (w.take e.2) := by
      intro hle
      have htake : (w.take e.2).length = e.2 := by rw [length_take, Nat.min_eq_left hle]
      have hlt := value_lt (w.take e.2)
      rw [htake] at hlt
      rw [codePart, Nat.mod_eq_of_lt (by omega : w.length - e.2 < 32),
        Nat.mod_eq_of_lt (by omega : e.2 < 32), Nat.shiftRight_eq_div_pow, ← value_take,
        Nat.one_shiftLeft, Nat.and_two_pow_sub_one_eq_mod, Nat.mod_eq_of_lt hlt]
    have hsame : (e.2 ≤ w.length ∧ codePart (value w) w.length e.2 = e.1) ↔ Begins e w := by
      constructor
      · rintro ⟨hle, heq⟩
        exact ⟨hle, (hpart hle).symm.trans heq⟩
      · rintro ⟨hle, heq⟩
        exact ⟨hle, (hpart hle).trans heq⟩
    rw [matchSymbol, search, ih hrest (sym + 1)]
    by_cases hbegins : Begins e w
    · rw [if_pos hbegins, if_pos (hsame.mpr hbegins)]
    · rw [if_neg hbegins, if_neg (mt hsame.mp hbegins)]

/-- The inner loop takes the codes of the source's table. -/
theorem takeSymbols_eq (hw : w.length ≤ 32) (out : Bytes) :
    takeSymbols fuel (value w) w.length out =
      (value (takeCodes huffmanTable fuel w).2, (takeCodes huffmanTable fuel w).2.length,
        out ++ (takeCodes huffmanTable fuel w).1) := by
  induction fuel generalizing w out with
  | zero => rw [takeSymbols, takeCodes, append_nil]
  | succ fuel ih =>
    rw [takeSymbols, takeCodes, matchSymbol_eq huffmanTable_entries hw]
    cases hfound : search w 0 huffmanTable with
    | none =>
      rw [append_nil]
      split
      · rfl
      · rfl
    | some found =>
      obtain ⟨sym, codeBits⟩ := found
      obtain ⟨k, code, -, hget, hbegins⟩ := search_eq_some hfound
      obtain ⟨hlow, hhigh⟩ := huffmanTable_entries _ (mem_of_getElem? hget)
      have hle : codeBits ≤ w.length := hbegins.1
      have hlow : 5 ≤ codeBits := hlow
      have hcurrent : (if w.length - codeBits = 0 then 0
          else value w &&& (1 <<< ((w.length - codeBits) % 32) - 1)) =
          value (w.drop codeBits) := by
        rw [value_drop]
        split
        · rename_i hzero
          rw [hzero, Nat.pow_zero, Nat.mod_one]
        · rw [Nat.mod_eq_of_lt (by omega : w.length - codeBits < 32), Nat.one_shiftLeft,
            Nat.and_two_pow_sub_one_eq_mod]
      rw [if_neg (by omega)]
      show takeSymbols fuel (if w.length - codeBits = 0 then 0 else _) (w.length - codeBits) _ = _
      rw [hcurrent, ← length_drop, ih (by rw [length_drop]; omega),
        append_assoc]
      rfl

/-- A byte that comes. -/
theorem shift_byte (hw : w.length ≤ 24) (c : UInt8) :
    (value w <<< 8 ||| c.toNat) % 2 ^ 32 = value (w ++ word 8 c.toNat) := by
  have hc := c.toNat_lt
  have hlt := value_lt w
  have hpow : 2 ^ w.length ≤ 2 ^ 24 := Nat.pow_le_pow_right (by decide) hw
  have hvalue : value (w ++ word 8 c.toNat) = value w * 2 ^ 8 + c.toNat := by
    rw [value_append, word_length, value_word, Nat.mod_eq_of_lt hc]
  rw [← Nat.shiftLeft_add_eq_or_of_lt hc, Nat.shiftLeft_eq, hvalue, Nat.mod_eq_of_lt]
  omega

/-- The outer loop does so byte by byte, as long as no bit is lost. -/
theorem huffmanLoop_eq (hw : fits w x = true) (hlen : w.length ≤ 32) (out : Bytes) :
    huffmanLoop (value w) w.length out x =
      (padded (readBits huffmanTable w x)).map (out ++ ·) := by
  induction x generalizing w out with
  | nil =>
    have hones : value w &&& (1 <<< w.length - 1) = 1 <<< w.length - 1 ↔ ∀ b ∈ w, b = true := by
      rw [Nat.one_shiftLeft, Nat.and_two_pow_sub_one_eq_mod, Nat.mod_eq_of_lt (value_lt w)]
      exact value_ones
    rw [huffmanLoop, readBits, padded]
    by_cases hseven : w.length ≤ 7
    · rw [if_neg (by omega)]
      by_cases hall : ∀ b ∈ w, b = true
      · rw [if_neg (fun h => h.2 (hones.mpr hall)), if_pos ⟨hseven, hall⟩, Option.map_some,
          append_nil]
      · have hpos : w.length > 0 := by
          refine length_pos_of_ne_nil fun hnil => hall ?_
          rw [hnil]
          exact fun b hb => absurd hb not_mem_nil
        rw [if_pos ⟨hpos, mt hones.mp hall⟩, if_neg (fun h => hall h.2), Option.map_none]
    · rw [if_pos (by omega), if_neg (fun h => hseven h.1), Option.map_none]
  | cons c rest ih =>
    rw [fits, Bool.and_eq_true, decide_eq_true_iff] at hw
    obtain ⟨hlen, hrest⟩ := hw
    have hlength : (w ++ word 8 c.toNat).length = w.length + 8 := by
      rw [length_append, word_length]
    have hstay := takeCodes_length huffmanTable_length (w.length + 8) (w ++ word 8 c.toNat)
    rw [huffmanLoop]
    dsimp only
    rw [shift_byte hlen, Nat.mod_eq_of_lt (by omega : w.length + 8 < 256), ← hlength,
      takeSymbols_eq (by omega), hlength]
    dsimp only
    rw [ih hrest (by omega), readBits, padded, padded]
    dsimp only
    split
    · rw [Option.map_some, Option.map_some, append_assoc]
    · rfl

/-- While 32 bits suffice, `huffman::decode` is the reader with its own table. -/
theorem huffmanDecode_eq (h : fits [] x = true) :
    huffmanDecode x = padded (readBits huffmanTable [] x) := by
  have hloop := huffmanLoop_eq h (by decide) []
  rw [show value [] = 0 from rfl] at hloop
  rw [huffmanDecode]
  refine hloop.trans ?_
  cases padded (readBits huffmanTable [] x) with
  | none => rfl
  | some s => rfl

/-! ## Where the decoder is right -/

/-- Where the searches agree, the tables give the same codes. -/
theorem takeCodes_agreeing (h : agreeing fuel w = true) :
    takeCodes huffmanTable fuel w = takeCodes standardTable fuel w := by
  induction fuel generalizing w with
  | zero => rfl
  | succ fuel ih =>
    rw [agreeing, Bool.and_eq_true, decide_eq_true_iff] at h
    obtain ⟨hsame, hrest⟩ := h
    rw [takeCodes, takeCodes, hsame]
    cases hfound : search w 0 standardTable with
    | none => rfl
    | some found =>
      rw [hfound] at hrest
      dsimp only
      rw [ih hrest]

/-- A clean input is read alike with both tables, in the buffer. -/
theorem clean_readBits (h : clean w x = true) :
    readBits huffmanTable w x = readBits standardTable w x ∧ fits w x = true := by
  induction x generalizing w with
  | nil => exact ⟨rfl, rfl⟩
  | cons c rest ih =>
    rw [clean, Bool.and_eq_true, Bool.and_eq_true] at h
    obtain ⟨⟨hlen, hagree⟩, hrest⟩ := h
    have htake := takeCodes_agreeing hagree
    obtain ⟨hread, hfits⟩ := ih hrest
    rw [readBits, readBits, fits, htake]
    exact ⟨by rw [hread], Bool.and_eq_true_iff.mpr ⟨hlen, hfits⟩⟩

/-- A text whose reading is clean is decoded by the standard's table. -/
theorem huffmanDecode_clean (h : clean [] x = true) :
    huffmanDecode x = some s ↔ Encodes x s := by
  obtain ⟨hread, hfits⟩ := clean_readBits h
  rw [huffmanDecode_eq hfits, hread, readBits_standard]

/-! ## Where it is wrong -/

theorem word_mod (n c : Nat) : word n (c % 2 ^ n) = word n c :=
  value_inj (by rw [word_length, word_length]) (by rw [value_word, value_word, Nat.mod_mod])

/-- A byte that both tables have the beginning of the same bits for has one entry. -/
theorem entries_eq {u : List Bool} (hsource : wordOf huffmanTable b <+: u)
    (hstandard : wordOf standardTable b <+: u) :
    ∃ e, huffmanTable[b.toNat]? = some e ∧ standardTable[b.toNat]? = some e := by
  obtain ⟨e, -, hget, hword⟩ := exists_entry huffmanTable_length b
  obtain ⟨f, hf, hfget, hfword⟩ := exists_entry standardTable_length b
  have hmem : (e, f) ∈ huffmanTable.zip standardTable := by
    refine mem_of_getElem? (i := b.toNat) ?_
    rw [getElem?_zip_eq_some]
    exact ⟨hget, hfget⟩
  rcases tables_apart (e, f) hmem with heq | hapart
  · exact ⟨e, hget, (show e = f from heq) ▸ hfget⟩
  · have hlt : e.1 % 2 ^ e.2 < 2 ^ e.2 := Nat.mod_lt _ (Nat.two_pow_pos _)
    have hle := (standardTable_entries f hf).2.2
    rw [hword, ← word_mod] at hsource
    rw [hfword] at hstandard
    rcases prefix_or_prefix_of_prefix hsource hstandard with h | h
    · exact absurd h (Apart.not_prefix hapart hlt hle)
    · exact absurd h (Apart.not_prefix hapart.symm hle hlt)

/-- Bits are held, others come.  Where the source's table reads from both the text that the
    standard's reads, the two find the same symbol in the bits held. -/
theorem search_agree {u p : List Bool} (hpad : Stuck (wordOf standardTable) pad)
    (hstandard : v ++ u = encode (wordOf standardTable) t ++ pad)
    (hsource : v ++ u = encode (wordOf huffmanTable) t ++ p)
    (hnext : ∀ found, search v 0 huffmanTable = some found →
      t.head? = some (UInt8.ofNat found.1)) :
    search v 0 huffmanTable = search v 0 standardTable := by
  have hv : v <+: v ++ u := prefix_append v u
  cases t with
  | nil =>
    cases hfound : search v 0 huffmanTable with
    | some found => cases hnext found hfound
    | none =>
      rw [hstandard] at hv
      exact (standard_found (hpad.of_prefix hv)).symm
  | cons b t =>
    have hb : wordOf standardTable b <+: v ++ u := by
      rw [hstandard, encode_cons, append_assoc]
      exact prefix_append _ _
    have hb' : wordOf huffmanTable b <+: v ++ u := by
      rw [hsource, encode_cons, append_assoc]
      exact prefix_append _ _
    obtain ⟨e, hget, hget'⟩ := entries_eq hb' hb
    -- what the standard's table finds in the bits held is the next byte
    have hfirst : ∀ sym codeBits, search v 0 standardTable = some (sym, codeBits) →
        sym = b.toNat ∧ codeBits = e.2 ∧ Begins e v := by
      intro sym codeBits hfound
      obtain ⟨code, hentry, hbegins, hback, hword⟩ :=
        wordOf_of_search standardTable_length hfound
      have hstarts : wordOf standardTable (UInt8.ofNat sym) <+: v ++ u := by
        rw [hword]
        exact (List.take_prefix _ _).trans hv
      have hsym : UInt8.ofNat sym = b := standard_prefixFree.unique hstarts hb
      obtain rfl : sym = b.toNat := by rw [← hsym, hback]
      obtain rfl : e = (code, codeBits) := Option.some.inj (hget'.symm.trans hentry)
      exact ⟨rfl, rfl, hbegins⟩
    have hmem : e ∈ standardTable := mem_of_getElem? hget'
    have hmem' : e ∈ huffmanTable := mem_of_getElem? hget
    cases hfound : search v 0 huffmanTable with
    | none =>
      cases hother : search v 0 standardTable with
      | none => rfl
      | some found =>
        obtain ⟨-, -, hbegins⟩ := hfirst _ _ hother
        exact absurd hbegins (search_eq_none.mp hfound e hmem')
    | some found =>
      obtain ⟨sym, codeBits⟩ := found
      obtain ⟨code, hentry, hbegins, hback, -⟩ := wordOf_of_search huffmanTable_length hfound
      have hsym : b = UInt8.ofNat sym := Option.some.inj (hnext _ hfound)
      obtain rfl : sym = b.toNat := by rw [hsym, hback]
      obtain rfl : e = (code, codeBits) := Option.some.inj (hget.symm.trans hentry)
      cases hother : search v 0 standardTable with
      | none => exact absurd hbegins (search_eq_none.mp hother _ hmem)
      | some found =>
        obtain ⟨hsame, hbits, -⟩ := hfirst _ _ hother
        rw [← Prod.mk.eta (p := found), hsame, hbits]

/-- Symbols are taken: if the source's table takes those of the standard's text, both agree
    on every one. -/
theorem agreeing_of_taken {u p : List Bool} (hpad : Stuck (wordOf standardTable) pad)
    (hstandard : v ++ u =
      encode (wordOf standardTable) ((takeCodes huffmanTable fuel v).1 ++ t) ++ pad)
    (hrest : (takeCodes huffmanTable fuel v).2 ++ u = encode (wordOf huffmanTable) t ++ p) :
    agreeing fuel v = true := by
  induction fuel generalizing v with
  | zero => rfl
  | succ fuel ih =>
    have hsource : v ++ u =
        encode (wordOf huffmanTable) ((takeCodes huffmanTable (fuel + 1) v).1 ++ t) ++ p := by
      rw [encode_append, append_assoc, ← hrest, ← append_assoc,
        ← takeCodes_spec huffmanTable_length]
    have hsame := search_agree hpad hstandard hsource fun found hfound => by
      rw [takeCodes, hfound]
      rfl
    rw [agreeing, decide_eq_true hsame, Bool.true_and]
    cases hfound : search v 0 standardTable with
    | none => rfl
    | some found =>
      obtain ⟨sym, codeBits⟩ := found
      obtain ⟨-, -, -, -, hword⟩ := wordOf_of_search standardTable_length hfound
      rw [takeCodes, hsame, hfound] at hstandard hrest
      refine ih ?_ hrest
      refine (append_right_inj (v.take codeBits)).mp ?_
      rw [← append_assoc, take_append_drop, hstandard, cons_append, encode_cons,
        hword, append_assoc]

/-- An encoding that the reader with the source's table reads right is clean. -/
theorem clean_of_read (hpad : Stuck (wordOf standardTable) pad) (hfits : fits w x = true)
    (hstandard : w ++ bitsOf x =
      encode (wordOf standardTable) (readBits huffmanTable w x).1 ++ pad) :
    clean w x = true := by
  induction x generalizing w with
  | nil => rfl
  | cons c rest ih =>
    rw [fits, Bool.and_eq_true] at hfits
    have hspec := readBits_spec huffmanTable_length
      (takeCodes huffmanTable (w.length + 8) (w ++ word 8 c.toNat)).2 rest
    have hbits : w ++ bitsOf (c :: rest) = (w ++ word 8 c.toNat) ++ bitsOf rest :=
      (append_assoc _ _ _).symm
    rw [hbits, readBits] at hstandard
    have hagree := agreeing_of_taken hpad hstandard hspec
    have htake := takeCodes_agreeing hagree
    have hread := takeCodes_spec standardTable_length (w.length + 8) (w ++ word 8 c.toNat)
    rw [clean, hfits.1, hagree, ← htake, Bool.true_and, Bool.true_and]
    refine ih hfits.2 ((append_right_inj (encode (wordOf standardTable)
      (takeCodes huffmanTable (w.length + 8) (w ++ word 8 c.toNat)).1)).mp ?_)
    rw [← htake] at hread
    rw [← append_assoc, ← hread, hstandard, encode_append, append_assoc]

/-- `huffman::decode` accepts the encodings, each for its text, and nothing else, on the
    inputs that are clean.  Of the encodings that its buffer suffices for it reads right
    only these. -/
theorem huffmanDecode_exact (x : Bytes) :
    (clean [] x = true → ∀ s, huffmanDecode x = some s ↔ Encodes x s) ∧
      (fits [] x = true → ∀ s, Encodes x s →
        (huffmanDecode x = some s ↔ clean [] x = true)) := by
  refine ⟨fun h s => huffmanDecode_clean h, fun hfits s hs => ⟨fun hdecode => ?_,
    fun h => (huffmanDecode_clean h).mpr hs⟩⟩
  obtain ⟨pad, hlen, hones, heq⟩ := hs
  rw [huffmanDecode_eq hfits, padded] at hdecode
  split at hdecode
  · cases hdecode
    exact clean_of_read (padding_stuck hlen hones) hfits heq
  · cases hdecode

/-! ## The texts that are read right -/

/-- Bits that stand from the `n`-th on.  Wherever a byte of the input ends inside them, the
    buffer has room for the next one and the source's table finds nothing in what is held. -/
def Quiet (n : Nat) (w : List Bool) : Prop :=
  ∀ h < w.length, (n + h) % 8 = 0 →
    h ≤ 24 ∧ ∀ e ∈ huffmanTable, ¬ Begins e (w.take h)

instance (n : Nat) (w : List Bool) : Decidable (Quiet n w) :=
  inferInstanceAs (Decidable (∀ h < w.length, _ → _ ∧ _))

/-- A text whose standard codes stand from the `n`-th bit on: each byte has its standard
    code in the source's table too, and is quiet up to the end of it. -/
def Legible : Nat → Bytes → Prop
  | _, [] => True
  | n, b :: s => huffmanTable[b.toNat]? = standardTable[b.toNat]? ∧
      Quiet n (wordOf standardTable b) ∧ Legible (n + (wordOf standardTable b).length) s

/-- Decided along the text. -/
def decideLegible : (n : Nat) → (s : Bytes) → Decidable (Legible n s)
  | _, [] => .isTrue trivial
  | n, b :: s =>
      have := decideLegible (n + (wordOf standardTable b).length) s
      inferInstanceAs (Decidable (_ ∧ _ ∧ Legible _ s))

instance (n : Nat) (s : Bytes) : Decidable (Legible n s) := decideLegible n s

/-- In the bits behind a text, which no code of the standard begins, the source's table
    finds nothing either. -/
def Silent (n : Nat) (r : List Bool) : Prop := Quiet n r ∧ ∀ e ∈ huffmanTable, ¬ Begins e r

/-- Where the source has the standard's code for a byte, no entry before it begins that code
    or is begun by it. -/
theorem tables_unshadowed : ∀ k < 256, huffmanTable[k]? = standardTable[k]? →
    ∀ e ∈ huffmanTable.take k, ∀ f ∈ standardTable[k]?,
      Apart (e.1 % 2 ^ e.2, e.2) f := by decide +kernel

/-- An entry is found when it begins the bits and none before it does. -/
theorem search_first {k : Nat} (hget : table[k]? = some e) (hbegins : Begins e w)
    (hfirst : ∀ f ∈ table.take k, ¬ Begins f w) : search w sym table = some (sym + k, e.2) := by
  induction table generalizing sym k with
  | nil => cases hget
  | cons f rest ih =>
    rw [search]
    cases k with
    | zero =>
      obtain rfl : f = e := Option.some.inj hget
      rw [if_pos hbegins]
      rfl
    | succ k =>
      rw [take_succ_cons, forall_mem_cons] at hfirst
      rw [if_neg hfirst.1, ih hget hfirst.2, Nat.add_assoc, Nat.add_comm 1 k]

/-- What a search finds first in bits that a standard code begins, if the source has it. -/
theorem search_code (hsame : huffmanTable[b.toNat]? = standardTable[b.toNat]?)
    (hstarts : wordOf standardTable b <+: w) :
    search w 0 huffmanTable = some (b.toNat, (wordOf standardTable b).length) := by
  obtain ⟨f, hf, hget, hword⟩ := exists_entry standardTable_length b
  have hlt := (standardTable_entries f hf).2.2
  rw [hword] at hstarts
  have hbegins : Begins f w := (prefix_word_iff hlt).mp hstarts
  have hfirst : ∀ e ∈ huffmanTable.take b.toNat, ¬ Begins e w := by
    intro e he hother
    have hapart := tables_unshadowed b.toNat b.toNat_lt hsame e he f hget
    have hmod : e.1 % 2 ^ e.2 < 2 ^ e.2 := Nat.mod_lt _ (Nat.two_pow_pos _)
    have hstarts' : word e.2 (e.1 % 2 ^ e.2) <+: w := by
      rw [word_mod, hother.word_eq]
      exact take_prefix _ _
    rcases prefix_or_prefix_of_prefix hstarts' hstarts with h | h
    · exact hapart.not_prefix hmod hlt h
    · exact hapart.symm.not_prefix hlt hmod h
  rw [search_first (hsame.trans hget) hbegins hfirst, hword, word_length, Nat.zero_add]

/-- A standard code that begins the bits is what a search with the standard's table finds. -/
theorem standard_code (hstarts : wordOf standardTable b <+: w) :
    search w 0 standardTable = some (b.toNat, (wordOf standardTable b).length) := by
  cases hfound : search w 0 standardTable with
  | none => exact absurd hstarts (standard_stuck hfound b)
  | some found =>
    obtain ⟨sym, codeBits⟩ := found
    obtain ⟨code, hget, hbegins, hback, hword⟩ := wordOf_of_search standardTable_length hfound
    have hsym : UInt8.ofNat sym = b :=
      standard_prefixFree.unique (hword ▸ take_prefix codeBits w) hstarts
    have hlen : (w.take codeBits).length = codeBits := by
      rw [length_take, Nat.min_eq_left hbegins.1]
    rw [← hsym, hback, hword, hlen]

/-- Bits are held up to the end of a byte, others come; from both a text is to be read that
    is legible, and behind it bits that are silent. -/
structure Readable (n : Nat) (v u : List Bool) (t : Bytes) (r : List Bool) : Prop where
  split : v ++ u = encode (wordOf standardTable) t ++ r
  aligned : (n + v.length) % 8 = 0
  legible : Legible n t
  silent : Silent (n + (encode (wordOf standardTable) t).length) r
  stuck : Stuck (wordOf standardTable) r

variable {n : Nat} {u r : List Bool}

/-- The first of two parts of the same bits, when it is no longer. -/
theorem eq_take_of_append {p q : List Bool} (h : v ++ u = p ++ q) (hle : v.length ≤ p.length) :
    v = p.take v.length :=
  prefix_iff_eq_take.mp
    (prefix_of_prefix_length_le ⟨u, h⟩ (prefix_append p q) hle)

/-- The beginning of a code is not found by the standard's table. -/
theorem standard_short (hstarts : v <+: wordOf standardTable b)
    (hlt : v.length < (wordOf standardTable b).length) : search v 0 standardTable = none := by
  refine standard_found fun a ha => ?_
  obtain rfl := standard_prefixFree a b (ha.trans hstarts)
  have hle := ha.length_le
  omega

/-- A code that the bits held are too short for is not found by either table. -/
theorem Readable.search_short (h : Readable n v u (b :: t) r)
    (hlt : v.length < (wordOf standardTable b).length) :
    search v 0 huffmanTable = none ∧ search v 0 standardTable = none := by
  have hsplit := h.split
  rw [encode_cons, append_assoc] at hsplit
  have hv := eq_take_of_append hsplit (Nat.le_of_lt hlt)
  have hquiet := (h.legible.2.1 v.length hlt h.aligned).2
  rw [← hv] at hquiet
  exact ⟨search_eq_none.mpr hquiet, standard_short (hv ▸ take_prefix _ _) hlt⟩

/-- Both tables find the same in the bits held. -/
theorem Readable.search_eq (h : Readable n v u t r) :
    search v 0 huffmanTable = search v 0 standardTable := by
  cases t with
  | nil =>
    have hsplit : v ++ u = r := h.split
    have hstarts : v <+: r := ⟨u, hsplit⟩
    rw [standard_found (h.stuck.of_prefix hstarts), search_eq_none]
    rcases Nat.lt_or_ge v.length r.length with hlt | hge
    · have hquiet := (h.silent.1 v.length hlt h.aligned).2
      rwa [← prefix_iff_eq_take.mp hstarts] at hquiet
    · rw [hstarts.eq_of_length_le hge]
      exact h.silent.2
  | cons b t =>
    rcases Nat.lt_or_ge v.length (wordOf standardTable b).length with hlt | hge
    · obtain ⟨hsource, hstandard⟩ := h.search_short hlt
      rw [hsource, hstandard]
    · have hsplit := h.split
      rw [encode_cons, append_assoc] at hsplit
      have hstarts : wordOf standardTable b <+: v :=
        prefix_of_prefix_length_le ⟨_, rfl⟩ ⟨u, hsplit⟩ hge
      rw [search_code h.legible.1 hstarts, standard_code hstarts]

/-- A code is taken from the bits held. -/
theorem Readable.drop (h : Readable n v u t r)
    (hfound : search v 0 standardTable = some (sym, codeBits)) :
    ∃ s, Readable (n + codeBits) (v.drop codeBits) u s r := by
  obtain ⟨code, -, hbegins, -, hword⟩ := wordOf_of_search standardTable_length hfound
  have hle : codeBits ≤ v.length := hbegins.1
  have hstarts : wordOf standardTable (UInt8.ofNat sym) <+: v := hword ▸ take_prefix _ _
  cases t with
  | nil => exact absurd (hstarts.trans ⟨u, h.split⟩) (h.stuck _)
  | cons b t =>
    have hsplit := h.split
    rw [encode_cons, append_assoc] at hsplit
    obtain rfl : UInt8.ofNat sym = b :=
      standard_prefixFree.unique (hstarts.trans ⟨u, rfl⟩) ⟨_, hsplit.symm⟩
    have hlen : (wordOf standardTable (UInt8.ofNat sym)).length = codeBits := by
      rw [hword, length_take, Nat.min_eq_left hle]
    have hsilent := h.silent
    have haligned := h.aligned
    rw [encode_cons, length_append, hlen, ← Nat.add_assoc] at hsilent
    refine ⟨t, ?_, ?_, hlen ▸ h.legible.2.2, hsilent, h.stuck⟩
    · refine (append_right_inj (v.take codeBits)).mp ?_
      rw [← append_assoc, take_append_drop, hsplit, hword]
    · rw [length_drop]
      omega

/-- Taking what can be taken, the tables agree, and what is left is readable again. -/
theorem Readable.taken (h : Readable n v u t r) (fuel : Nat) :
    agreeing fuel v = true ∧
      ∃ m s, Readable m (takeCodes standardTable fuel v).2 u s r := by
  induction fuel generalizing n v t with
  | zero => exact ⟨rfl, n, t, h⟩
  | succ fuel ih =>
    rw [agreeing, takeCodes, decide_eq_true h.search_eq, Bool.true_and]
    cases hfound : search v 0 standardTable with
    | none => exact ⟨rfl, n, t, h⟩
    | some found =>
      obtain ⟨s, hs⟩ := h.drop hfound
      exact ih hs

/-- The buffer has room for the byte that comes. -/
theorem Readable.room (h : Readable n v u t r) (hstuck : Stuck (wordOf standardTable) v)
    (hu : u ≠ []) : v.length ≤ 24 := by
  cases t with
  | nil =>
    have hsplit : v ++ u = r := h.split
    refine (h.silent.1 v.length ?_ h.aligned).1
    rw [← hsplit, length_append]
    have hpos := length_pos_of_ne_nil hu
    omega
  | cons b t =>
    refine (h.legible.2.1 v.length ?_ h.aligned).1
    have hsplit := h.split
    rw [encode_cons, append_assoc] at hsplit
    by_contra hge
    exact hstuck b (prefix_of_prefix_length_le ⟨_, rfl⟩ ⟨u, hsplit⟩ (by omega))

/-- A readable input is clean. -/
theorem clean_of_readable (h : Readable n w (bitsOf x) t r)
    (hstuck : Stuck (wordOf standardTable) w) : clean w x = true := by
  induction x generalizing n w t with
  | nil => rfl
  | cons c rest ih =>
    have hbits : bitsOf (c :: rest) = word 8 c.toNat ++ bitsOf rest := rfl
    have hroom := h.room hstuck (by
      rw [hbits]
      exact append_ne_nil_of_left_ne_nil (by simp [word]) _)
    have haligned := h.aligned
    have hnext : Readable n (w ++ word 8 c.toNat) (bitsOf rest) t r := by
      refine ⟨?_, ?_, h.legible, h.silent, h.stuck⟩
      · rw [append_assoc, ← hbits, h.split]
      · rw [length_append, word_length]
        omega
    obtain ⟨hagree, m, s, hs⟩ := hnext.taken (w.length + 8)
    have hstay := takeCodes_stuck (fun e he => (standardTable_entries e he).1)
      (Nat.le_of_eq (by rw [length_append, word_length]) :
        (w ++ word 8 c.toNat).length ≤ w.length + 8)
    rw [clean, decide_eq_true hroom, hagree, ih hs (standard_stuck hstay)]
    rfl

/-- Padding is silent. -/
theorem silent_padding (hlen : pad.length ≤ 7) (hones : ∀ b ∈ pad, b = true) (n : Nat) :
    Silent n pad := by
  have hnone : ∀ v, v <+: pad → ∀ e ∈ huffmanTable, ¬ Begins e v := fun v hv e he =>
    not_begins_padding (mem_append_right _ he) hlen hones hv
  exact ⟨fun h hlt _ => ⟨by omega, hnone _ (List.take_prefix h pad)⟩,
    hnone pad prefix_rfl⟩

/-- An input is clean when its text is legible and its rest silent. -/
theorem clean_of_legible (hread : bitsOf x = encode (wordOf standardTable) t ++ r)
    (hstuck : Stuck (wordOf standardTable) r) (hlegible : Legible 0 t)
    (hsilent : Silent (encode (wordOf standardTable) t).length r) : clean [] x = true := by
  have hnone := search_nil fun e he => (standardTable_entries e he).1
  refine clean_of_readable ⟨hread, rfl, hlegible, ?_, hstuck⟩ (standard_stuck hnone)
  rwa [Nat.zero_add]

/-! ## Only these are read right -/

/-- Legible, when the first `k` bits of the first code have come already. -/
def LegibleFrom (k n : Nat) : Bytes → Prop
  | [] => True
  | b :: s => huffmanTable[b.toNat]? = standardTable[b.toNat]? ∧
      (∀ h < (wordOf standardTable b).length, k ≤ h → (n + h) % 8 = 0 →
        h ≤ 24 ∧ ∀ e ∈ huffmanTable, ¬ Begins e ((wordOf standardTable b).take h)) ∧
      Legible (n + (wordOf standardTable b).length) s

/-- With fewer than eight bits held, no byte ended inside them. -/
theorem LegibleFrom.legible {k : Nat} (h : LegibleFrom k n t) (hk : k < 8)
    (haligned : (n + k) % 8 = 0) : Legible n t := by
  cases t with
  | nil => trivial
  | cons b s =>
    obtain ⟨hsame, hquiet, hrest⟩ := h
    exact ⟨hsame, fun m hm hend => hquiet m hm (by omega) hend, hrest⟩

/-- Where both tables find the same in bits that a standard code begins, they have the same
    entry for its byte. -/
theorem entry_of_search_eq (hsame : search w 0 huffmanTable = search w 0 standardTable)
    (hstarts : wordOf standardTable b <+: w) :
    huffmanTable[b.toNat]? = standardTable[b.toNat]? := by
  obtain ⟨f, hf, hget, hword⟩ := exists_entry standardTable_length b
  rw [standard_code hstarts, hword, word_length] at hsame
  obtain ⟨code, hentry, hbegins, -, -⟩ := wordOf_of_search huffmanTable_length hsame
  rw [hword] at hstarts
  have hstandard := (prefix_word_iff (standardTable_entries f hf).2.2).mp hstarts
  have hcode : code = f.1 := hbegins.2.symm.trans hstandard.2
  rw [hentry, hget, hcode]

/-- The symbols taken out of the last byte are legible where they stand. -/
theorem legible_taken (hv : v.length ≤ 8) (haligned : (n + v.length) % 8 = 0)
    (hagree : agreeing fuel v = true)
    (hrest : Legible
      (n + (encode (wordOf standardTable) (takeCodes standardTable fuel v).1).length) t) :
    Legible n ((takeCodes standardTable fuel v).1 ++ t) := by
  induction fuel generalizing n v with
  | zero => exact hrest
  | succ fuel ih =>
    rw [agreeing, Bool.and_eq_true, decide_eq_true_iff] at hagree
    obtain ⟨hsame, hagree⟩ := hagree
    rw [takeCodes] at hrest ⊢
    cases hfound : search v 0 standardTable with
    | none =>
      rw [hfound] at hrest
      exact hrest
    | some found =>
      obtain ⟨sym, codeBits⟩ := found
      rw [hfound] at hrest hagree
      obtain ⟨code, -, hbegins, -, hword⟩ := wordOf_of_search standardTable_length hfound
      have hle : codeBits ≤ v.length := hbegins.1
      have hlen : (wordOf standardTable (UInt8.ofNat sym)).length = codeBits := by
        rw [hword, length_take, Nat.min_eq_left hle]
      refine ⟨entry_of_search_eq hsame (hword ▸ take_prefix _ _), ?_, ?_⟩
      · intro h hlt hend
        rw [hlen] at hlt
        -- a byte can end here only before the first bit
        obtain rfl : h = 0 := by omega
        exact ⟨Nat.zero_le _, search_eq_none.mp
          (search_nil fun e he => (huffmanTable_entries e he).1)⟩
      · rw [hlen]
        dsimp only at hrest
        rw [encode_cons, length_append, hlen, ← Nat.add_assoc] at hrest
        have hdrop : (v.drop codeBits).length = v.length - codeBits := length_drop
        exact ih (by omega) (by omega) hagree hrest

/-- A code is completed.  It is legible, and so is what is taken behind it, when the text
    behind that is. -/
theorem legible_completed (fuel : Nat) (hstarts : wordOf standardTable b <+: v)
    (hv : v.length < (wordOf standardTable b).length + 8)
    (haligned : (n + v.length) % 8 = 0) (hagree : agreeing (fuel + 1) v = true)
    (hsplit : v ++ u = encode (wordOf standardTable) (b :: s) ++ r)
    (hr : Stuck (wordOf standardTable) r)
    (hrest : ∀ m t, (takeCodes standardTable (fuel + 1) v).2 ++ u =
        encode (wordOf standardTable) t ++ r →
      (m + (takeCodes standardTable (fuel + 1) v).2.length) % 8 = 0 →
      (takeCodes standardTable (fuel + 1) v).2.length < 8 → Legible m t) :
    huffmanTable[b.toNat]? = standardTable[b.toNat]? ∧
      Legible (n + (wordOf standardTable b).length) s := by
  have hfound := standard_code hstarts
  have hlen : v.take (wordOf standardTable b).length = wordOf standardTable b :=
    (prefix_iff_eq_take.mp hstarts).symm
  have hdrop : (v.drop (wordOf standardTable b).length).length =
      v.length - (wordOf standardTable b).length := length_drop
  have hspec := takeCodes_spec standardTable_length fuel
    (v.drop (wordOf standardTable b).length)
  have hsum := congrArg List.length hspec
  have hle := hstarts.length_le
  rw [agreeing, Bool.and_eq_true, decide_eq_true_iff, hfound] at hagree
  rw [takeCodes, hfound] at hrest
  dsimp only at hrest
  rw [length_append, hdrop] at hsum
  rw [← take_append_drop (wordOf standardTable b).length v, hlen, append_assoc,
    encode_cons, append_assoc, append_cancel_left_eq, hspec, append_assoc]
    at hsplit
  obtain ⟨t, rfl, ht⟩ := standard_prefixFree.encode_split hr hsplit
  refine ⟨entry_of_search_eq (hagree.1.trans hfound.symm) hstarts,
    legible_taken (by omega) (by omega) hagree.2 ?_⟩
  exact hrest _ t ht (by omega) (by omega)

/-- What a clean reading reads is legible. -/
theorem legible_of_clean (hclean : clean w x = true)
    (hsplit : w ++ bitsOf x = encode (wordOf standardTable) t ++ r)
    (haligned : (n + w.length) % 8 = 0) (hr : Stuck (wordOf standardTable) r)
    (hstuck : Stuck (wordOf standardTable) w) (hnone : search w 0 huffmanTable = none) :
    LegibleFrom w.length n t := by
  induction x generalizing n w t with
  | nil =>
    cases t with
    | nil => trivial
    | cons b s =>
      rw [encode_cons, append_assoc, show bitsOf [] = [] from rfl, append_nil]
        at hsplit
      exact absurd ⟨_, hsplit.symm⟩ (hstuck b)
  | cons c rest ih =>
    cases t with
    | nil => trivial
    | cons b s =>
      rw [clean, Bool.and_eq_true, Bool.and_eq_true, decide_eq_true_iff] at hclean
      obtain ⟨⟨hroom, hagree⟩, hclean⟩ := hclean
      have hvlen : (w ++ word 8 c.toNat).length = w.length + 8 := by
        rw [length_append, word_length]
      have hfuel := Nat.le_of_eq hvlen
      have halign : (n + (w ++ word 8 c.toNat).length) % 8 = 0 := by omega
      have hnext : (w ++ word 8 c.toNat) ++ bitsOf rest =
          encode (wordOf standardTable) (b :: s) ++ r := by
        rw [append_assoc]
        exact hsplit
      rw [encode_cons, append_assoc] at hsplit
      -- the code of the first byte is longer than what was held
      have hwlt : w.length < (wordOf standardTable b).length := by
        by_contra hge
        exact hstuck b (prefix_of_prefix_length_le ⟨_, rfl⟩ ⟨_, hsplit⟩ (by omega))
      have hheld : ∀ e ∈ huffmanTable, ¬ Begins e ((wordOf standardTable b).take w.length) := by
        rw [← eq_take_of_append hsplit (Nat.le_of_lt hwlt)]
        exact search_eq_none.mp hnone
      have htake := takeCodes_agreeing hagree
      have hstay := takeCodes_stuck (fun e he => (standardTable_entries e he).1) hfuel
      have hstay' := takeCodes_stuck (fun e he => (huffmanTable_entries e he).1) hfuel
      rw [htake] at hstay'
      rcases Nat.lt_or_ge (w.length + 8) (wordOf standardTable b).length with hlt | hge
      · -- the byte that came does not complete the code
        have hv := eq_take_of_append (hnext.trans (append_assoc _ _ _)) (by omega)
        have hfound : search (w ++ word 8 c.toNat) 0 standardTable = none :=
          standard_short (hv ▸ take_prefix _ _) (by omega)
        have htaken : takeCodes standardTable (w.length + 8) (w ++ word 8 c.toNat) =
            ([], w ++ word 8 c.toNat) := by
          rw [takeCodes, hfound]
        rw [htaken] at hclean hstay'
        dsimp only at hclean hstay'
        obtain ⟨hsame, hquiet, hrest⟩ :=
          ih hclean hnext halign (standard_stuck hfound) hstay'
        refine ⟨hsame, fun h hh hle hend => ?_, hrest⟩
        rcases Nat.lt_or_ge h (w.length + 8) with hbefore | hbehind
        · obtain rfl : h = w.length := by omega
          exact ⟨hroom, hheld⟩
        · exact hquiet h hh (by omega) hend
      · -- it does: the code is taken, and others behind it in the same byte
        have hstarts : wordOf standardTable b <+: w ++ word 8 c.toNat :=
          prefix_of_prefix_length_le ⟨_, (append_assoc _ _ _).symm⟩ ⟨_, hnext⟩
            (by omega)
        obtain ⟨hsame, hrest⟩ := legible_completed (w.length + 7) hstarts
          (by omega) halign hagree hnext hr fun m t ht hm hshort =>
            (ih hclean ht hm (standard_stuck hstay) hstay').legible hshort hm
        refine ⟨hsame, fun h hh hle hend => ?_, hrest⟩
        obtain rfl : h = w.length := by omega
        exact ⟨hroom, hheld⟩

/-- Behind a text that is read, with a silent rest, clean says that the text is legible. -/
theorem legible_iff_clean (hread : bitsOf x = encode (wordOf standardTable) t ++ r)
    (hr : Stuck (wordOf standardTable) r)
    (hsilent : Silent (encode (wordOf standardTable) t).length r) :
    Legible 0 t ↔ clean [] x = true := by
  refine ⟨fun h => clean_of_legible hread hr h hsilent, fun h => ?_⟩
  have hstandard := search_nil fun e he => (standardTable_entries e he).1
  have hsource := search_nil fun e he => (huffmanTable_entries e he).1
  exact (legible_of_clean h hread rfl hr (standard_stuck hstandard) hsource).legible
    (by decide) rfl

/-- `huffman::decode` returns the text of an encoding when that is legible, and of the
    encodings that its buffer suffices for only then.  It accepts the encodings and nothing
    else where what the standard's code reads is legible and what stays is silent. -/
theorem huffmanDecode_legible (x : Bytes) :
    (∀ s, Encodes x s → (Legible 0 s → huffmanDecode x = some s) ∧
      (fits [] x = true → huffmanDecode x = some s → Legible 0 s)) ∧
    ∀ t r, bitsOf x = encode (wordOf standardTable) t ++ r → Stuck (wordOf standardTable) r →
      Legible 0 t → Silent (encode (wordOf standardTable) t).length r →
        ∀ s, huffmanDecode x = some s ↔ Encodes x s := by
  obtain ⟨hright, hexact⟩ := huffmanDecode_exact x
  constructor
  · intro s hs
    have ⟨pad, hlen, hones, heq⟩ := hs
    have hiff := legible_iff_clean heq (padding_stuck hlen hones) (silent_padding hlen hones _)
    exact ⟨fun h => (hright (hiff.mp h) s).mpr hs,
      fun hfits h => hiff.mpr ((hexact hfits s hs).mp h)⟩
  · intro t r heq hr h hsilent
    exact hright ((legible_iff_clean heq hr hsilent).mp h)

/-- A status code, and a byte that encodes nothing. -/
theorem huffmanDecode_legible_status :
    huffmanDecode [0x64, 0x02] = some (text "302") ∧ ∀ s, ¬ Encodes [0x00] s := by
  refine ⟨((huffmanDecode_legible _).1 _ ⟨[], by decide +kernel⟩).1 (by decide +kernel),
    fun s hs => ?_⟩
  have hdecode := ((huffmanDecode_legible [0x00]).2 (text "0") [false, false, false]
    (by decide +kernel) (standard_stuck (by decide +kernel)) (by decide +kernel)
    ⟨by decide +kernel, by decide +kernel⟩ s).mpr hs
  have hnone : huffmanDecode [0x00] = none := by decide +kernel
  rw [hnone] at hdecode
  cases hdecode

/-- The source has the standard's codes for the printable characters, and no entry of its
    table is shorter than one of them and begins it. -/
theorem tables_printable : ∀ k < 127, 32 ≤ k → huffmanTable[k]? = standardTable[k]? ∧
    ∀ f ∈ standardTable[k]?, f.2 ≤ 24 ∧
      ∀ e ∈ huffmanTable, e.2 < f.2 → f.1 >>> (f.2 - e.2) ≠ e.1 := by decide +kernel

/-- Text of printable characters is legible wherever it stands. -/
theorem legible_printable (h : ∀ b ∈ s, 32 ≤ b.toNat ∧ b.toNat ≤ 126) (n : Nat) :
    Legible n s := by
  induction s generalizing n with
  | nil => trivial
  | cons b s ih =>
    obtain ⟨⟨hlow, hhigh⟩, hrest⟩ := forall_mem_cons.mp h
    obtain ⟨f, hf, hget, hword⟩ := exists_entry standardTable_length b
    obtain ⟨hsame, hentry⟩ := tables_printable b.toNat (by omega) hlow
    obtain ⟨hshort, hbefore⟩ := hentry f hget
    refine ⟨hsame, ?_, ih hrest _⟩
    rw [hword]
    intro m hm _
    rw [word_length] at hm
    refine ⟨by omega, fun e he hbegins => ?_⟩
    have hle : e.2 ≤ m := by
      have hle := hbegins.1
      rw [length_take] at hle
      omega
    refine hbefore e he (by omega) ?_
    rw [← hbegins.2, take_take, Nat.min_eq_left hle, value_take, word_length, value_word,
      Nat.mod_eq_of_lt (standardTable_entries f hf).2.2, Nat.shiftRight_eq_div_pow]

/-- An encoding of printable characters is read right. -/
theorem huffmanDecode_printable (hs : Encodes x s)
    (h : ∀ b ∈ s, 32 ≤ b.toNat ∧ b.toNat ≤ 126) : huffmanDecode x = some s := by
  have ⟨pad, hlen, hones, heq⟩ := hs
  exact (huffmanDecode_clean (clean_of_legible heq (padding_stuck hlen hones)
    (legible_printable h 0) (silent_padding hlen hones _))).mpr hs

/-- The code of byte 134 is read as byte 136, and 32 bytes of ones, which no text is
    encoded as, as the empty string: the bit count of 8 bits is 0 behind them. -/
theorem huffmanDecode_misread :
    (Encodes [0xff, 0xff, 0x57] [134] ∧ huffmanDecode [0xff, 0xff, 0x57] = some [136]) ∧
      (∀ s, ¬ Encodes (List.replicate 32 0xff) s) ∧
        huffmanDecode (List.replicate 32 0xff) = some [] := by
  refine ⟨⟨⟨[true, true], ?_⟩, ?_⟩, fun s hs => ?_, ?_⟩
  · decide +kernel
  · decide +kernel
  · have hnone : padded (readBits standardTable [] (List.replicate 32 0xff)) = none := by
      decide +kernel
    rw [readBits_standard.mpr hs] at hnone
    cases hnone
  · decide +kernel

end HpackHuffman
