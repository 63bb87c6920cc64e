import WaveX.VarInt

/-! # HPACK header compression

    The decoding half of `http2::hpack` in `include/wavex/protos/http/http2codec.hpp`:
    integers, strings with the Huffman code, the static and the dynamic table and the
    header-block decoder.  HTTP/3 shares the integers, the strings and the Huffman code.

    Unlike in the QUIC parsers a cursor here is an index into the whole input, because
    it can move backwards: the length of a string is added to it in a 64-bit `size_t`,
    and the sum wraps.  `wrap` marks every such addition.  Other counters (list sizes,
    table sizes) are naturals: they count bytes held in memory. -/

namespace Hpack

open QuicVarInt

/-- A sum in a 64-bit `std::size_t` or `uint64_t`. -/
def wrap (n : Nat) : Nat := n % 2 ^ 64

/-! ## Integers -/

/-- The continuation bytes of `decode_integer`: `rest` are the bytes from the cursor on,
    `m` the shift of the next seven bits. -/
def decodeContinuation (result m cursor : Nat) : Bytes → Option (Nat × Nat)
  | [] => none
  | b :: rest =>
      let result := wrap (result + (b.toNat &&& 0x7f) <<< m)
      if b.toNat &&& 0x80 = 0 then some (result, cursor + 1)
      -- overflow protection: no shift beyond 63
      else if m + 7 > 63 then none
      else decodeContinuation result (m + 7) (cursor + 1) rest

/-- `decode_integer`: the value and the cursor after it, `none` when it returns false. -/
def decodeInteger (input : Bytes) (cursor prefixBits : Nat) : Option (Nat × Nat) :=
  match input.drop cursor with
  | [] => none
  | first :: rest =>
      let maxPrefix := 2 ^ prefixBits - 1
      let result := first.toNat &&& maxPrefix
      if result < maxPrefix then some (result, cursor + 1)
      else decodeContinuation result 0 (cursor + 1) rest

/-! ## The Huffman code -/

/-- `huffman::TABLE`: code and length of each symbol, as the source lists them; the
    decoder searches the first 256 entries. -/
def huffmanTable : List (Nat × Nat) :=
  [(0x1ff8, 13), (0x7fffd8, 23), (0xfffffe2, 28), (0xfffffe3, 28), (0xfffffe4, 28),
   (0xfffffe5, 28), (0xfffffe6, 28), (0xfffffe7, 28), (0xfffffe8, 28), (0xffffea, 24),
   (0x3ffffffc, 30), (0xfffffe9, 28), (0xfffffea, 28), (0x3ffffffd, 30), (0xfffffeb, 28),
   (0xfffffec, 28), (0xfffffed, 28), (0xfffffee, 28), (0xfffffef, 28), (0xffffff0, 28),
   (0xffffff1, 28), (0xffffff2, 28), (0x3ffffffe, 30), (0xffffff3, 28), (0xffffff4, 28),
   (0xffffff5, 28), (0xffffff6, 28), (0xffffff7, 28), (0xffffff8, 28), (0xffffff9, 28),
   (0xffffffa, 28), (0xffffffb, 28), (0x14, 6), (0x3f8, 10), (0x3f9, 10), (0xffa, 12),
   (0x1ff9, 13), (0x15, 6), (0xf8, 8), (0x7fa, 11), (0x3fa, 10), (0x3fb, 10), (0xf9, 8),
   (0x7fb, 11), (0xfa, 8), (0x16, 6), (0x17, 6), (0x18, 6), (0x0, 5), (0x1, 5), (0x2, 5),
   (0x19, 6), (0x1a, 6), (0x1b, 6), (0x1c, 6), (0x1d, 6), (0x1e, 6), (0x1f, 6), (0x5c, 7),
   (0xfb, 8), (0x7ffc, 15), (0x20, 6), (0xffb, 12), (0x3fc, 10), (0x1ffa, 13), (0x21, 6),
   (0x5d, 7), (0x5e, 7), (0x5f, 7), (0x60, 7), (0x61, 7), (0x62, 7), (0x63, 7), (0x64, 7),
   (0x65, 7), (0x66, 7), (0x67, 7), (0x68, 7), (0x69, 7), (0x6a, 7), (0x6b, 7), (0x6c, 7),
   (0x6d, 7), (0x6e, 7), (0x6f, 7), (0x70, 7), (0x71, 7), (0x72, 7), (0xfc, 8), (0x73, 7),
   (0xfd, 8), (0x1ffb, 13), (0x7fff0, 19), (0x1ffc, 13), (0x3ffc, 14), (0x22, 6), (0x7ffd, 15),
   (0x3, 5), (0x23, 6), (0x4, 5), (0x24, 6), (0x5, 5), (0x25, 6), (0x26, 6), (0x27, 6), (0x6, 5),
   (0x74, 7), (0x75, 7), (0x28, 6), (0x29, 6), (0x2a, 6), (0x7, 5), (0x2b, 6), (0x76, 7),
   (0x2c, 6), (0x8, 5), (0x9, 5), (0x2d, 6), (0x77, 7), (0x78, 7), (0x79, 7), (0x7a, 7),
   (0x7b, 7), (0x7ffe, 15), (0x7fc, 11), (0x3ffd, 14), (0x1ffd, 13), (0xffffffc, 28),
   (0xfffe6, 20), (0x3fffd2, 22), (0xfffe7, 20), (0xfffe8, 20), (0x3fffd3, 22), (0x3fffd4, 22),
   (0xffffffd, 28), (0x7fffd9, 23), (0x3fffd5, 22), (0x7fffda, 23), (0x7fffdb, 23),
   (0x7fffdc, 23), (0x7fffdd, 23), (0x7fffde, 23), (0xffffeb, 24), (0x7fffdf, 23),
   (0xffffec, 24), (0xffffed, 24), (0x3fffd6, 22), (0x7fffe0, 23), (0x1fffdc, 21),
   (0x3fffd7, 22), (0x7fffe1, 23), (0x7fffe2, 23), (0x7fffe3, 23), (0x7fffe4, 23),
   (0x1fffdd, 21), (0x7fffe5, 23), (0x7fffe6, 23), (0x7fffe7, 23), (0x7fffe8, 23),
   (0x7ffffff, 30), (0x3fffe, 18), (0x7fffe9, 23), (0xfffe9, 20), (0x3fffd8, 22), (0x7fffea, 23),
   (0x3fffd9, 22), (0x3fffda, 22), (0x7fffeb, 23), (0x7fffec, 23), (0x7fffed, 23),
   (0x7fffee, 23), (0x7fffef, 23), (0x7ffff0, 23), (0x3fffdb, 22), (0x3fffdc, 22),
   (0x7ffff1, 23), (0x7ffff2, 23), (0x1fffde, 21), (0x7ffff3, 23), (0x7ffff4, 23),
   (0x7ffff5, 23), (0x7ffff6, 23), (0x7ffff7, 23), (0x7ffff8, 23), (0x7ffff9, 23),
   (0x7ffffa, 23), (0x7ffffb, 23), (0x1fffdf, 21), (0x7ffffc, 23), (0xfffea, 20), (0x3fffdd, 22),
   (0x1fffe0, 21), (0x1fffe1, 21), (0x3fffde, 22), (0x7ffffd, 23), (0x3fffdf, 22),
   (0x7ffffe, 23), (0xffffff0, 24), (0xffffff1, 24), (0x3fffe0, 22), (0x1fffe2, 21),
   (0x1fffe3, 21), (0x3fffe1, 22), (0x1fffe4, 21), (0x7ffea, 19), (0x3fffe2, 22), (0x3fffe3, 22),
   (0x3fffe4, 22), (0x7ffeb, 19), (0x7ffec, 19), (0x3fffe5, 22), (0x3fffe6, 22), (0x3fffe7, 22),
   (0x3fffe8, 22), (0x3fffe9, 22), (0x3fffea, 22), (0x3fffeb, 22), (0x1fffe5, 21),
   (0x3fffec, 22), (0x3fffed, 22), (0x3fffee, 22), (0x3fffef, 22), (0x3ffff0, 22),
   (0x3ffff1, 22), (0x3ffff2, 22), (0x3ffff3, 22), (0x1fffe6, 21), (0x3ffff4, 22),
   (0x3ffff5, 22), (0x3ffff6, 22), (0x3ffff7, 22), (0x3ffff8, 22), (0x3ffff9, 22),
   (0x3ffffa, 22), (0x3ffffb, 22), (0x1fffe7, 21), (0x1fffe8, 21), (0x3ffffc, 22),
   (0x3ffffd, 22), (0x1fffe9, 21), (0x1fffea, 21), (0x1fffeb, 21), (0x1fffec, 21),
   (0x1fffed, 21), (0x1fffee, 21), (0x1fffef, 21), (0xfffeeb, 24), (0xfffeec, 24),
   (0xfffeed, 24), (0xfffeee, 24), (0x7fffec, 24), (0x7fffed, 24), (0x7fffee, 24),
   (0x7ffff0, 24), (0x7ffff1, 24), (0x3fffffe, 30)]

/-- `(current >> (bits - e_bits)) & ((1U << e_bits) - 1U)`.  C++ leaves a shift by 32 or
    more undefined; it is taken modulo 32, as x86 does. -/
def codePart (current bits codeBits : Nat) : Nat :=
  (current >>> ((bits - codeBits) % 32)) &&& (1 <<< (codeBits % 32) - 1)

/-- The search for a symbol: the first one whose code is the top of the bits held. -/
def matchSymbol (current bits : Nat) : Nat → List (Nat × Nat) → Option (Nat × Nat)
  | _, [] => none
  | sym, (code, codeBits) :: rest =>
      if codeBits ≤ bits ∧ codePart current bits codeBits = code then some (sym, codeBits)
      else matchSymbol current bits (sym + 1) rest

/-- The inner loop of `huffman::decode`: symbols are taken while at least five bits are
    held.  A symbol takes at least one bit, so `bits` rounds are enough. -/
def takeSymbols : Nat → Nat → Nat → Bytes → Nat × Nat × Bytes
  | 0, current, bits, out => (current, bits, out)
  | fuel + 1, current, bits, out =>
      if bits < 5 then (current, bits, out)
      else
        match matchSymbol current bits 0 huffmanTable with
        | none => (current, bits, out)
        | some (sym, codeBits) =>
            let bits := bits - codeBits
            let current := if bits = 0 then 0 else current &&& (1 <<< (bits % 32) - 1)
            takeSymbols fuel current bits (out ++ [UInt8.ofNat sym])

/-- The outer loop of `huffman::decode`; `current` is a `uint32_t` and `bits` a
    `uint8_t`.  What is left at the end has to be padding: fewer than eight ones. -/
def huffmanLoop (current bits : Nat) (out : Bytes) : Bytes → Option Bytes
  | [] =>
      if bits > 7 then none
      else if bits > 0 ∧ current &&& (1 <<< bits - 1) ≠ 1 <<< bits - 1 then none
      else some out
  | c :: rest =>
      let current := (current <<< 8 ||| c.toNat) % 2 ^ 32
      let bits := (bits + 8) % 256
      let (current, bits, out) := takeSymbols bits current bits out
      huffmanLoop current bits out rest

/-- `huffman::decode`: `none` when it returns false. -/
def huffmanDecode (input : Bytes) : Option Bytes := huffmanLoop 0 0 [] input

/-! ## Strings -/

/-- The `len` bytes at the cursor of a string whose length has been read: refused when
    the 64-bit sum exceeds the input.  `substr` cuts them at the end of the input. -/
def takeString (input : Bytes) (cursor len : Nat) (isHuffman : Bool) : Option (Bytes × Nat) :=
  if wrap (cursor + len) > input.length then none
  else
    let raw := (input.drop cursor).take len
    if isHuffman then (huffmanDecode raw).map fun out => (out, wrap (cursor + len))
    else some (raw, wrap (cursor + len))

/-- `decode_string`: the string and the cursor after it, `none` when it returns false. -/
def decodeString (input : Bytes) (cursor : Nat) : Option (Bytes × Nat) :=
  match input.drop cursor with
  | [] => none
  | first :: _ => do
      let (len, cursor) ← decodeInteger input cursor 7
      takeString input cursor len (first.toNat &&& 0x80 != 0)

/-! ## Tables -/

/-- A header field or a table entry: name and value. -/
abbrev Field := Bytes × Bytes

/-- `entry::size`: name, value and 32 octets of overhead. -/
def fieldSize (f : Field) : Nat := f.1.length + f.2.length + 32

/-- `STATIC_TABLE`; index 0 is unused. -/
def staticTable : List (String × String) :=
  [("", ""), (":authority", ""), (":method", "GET"), (":method", "POST"), (":path", "/"),
   (":path", "/index.html"), (":scheme", "http"), (":scheme", "https"), (":status", "200"),
   (":status", "204"), (":status", "206"), (":status", "304"), (":status", "400"),
   (":status", "404"), (":status", "500"), ("accept-charset", ""),
   ("accept-encoding", "gzip, deflate"), ("accept-language", ""), ("accept-ranges", ""),
   ("accept", ""), ("access-control-allow-origin", ""), ("age", ""), ("allow", ""),
   ("authorization", ""), ("cache-control", ""), ("content-disposition", ""),
   ("content-encoding", ""), ("content-language", ""), ("content-length", ""),
   ("content-location", ""), ("content-range", ""), ("content-type", ""), ("cookie", ""),
   ("date", ""), ("etag", ""), ("expect", ""), ("expires", ""), ("from", ""), ("host", ""),
   ("if-match", ""), ("if-modified-since", ""), ("if-none-match", ""), ("if-range", ""),
   ("if-unmodified-since", ""), ("last-modified", ""), ("link", ""), ("location", ""),
   ("max-forwards", ""), ("proxy-authenticate", ""), ("proxy-authorization", ""), ("range", ""),
   ("referer", ""), ("refresh", ""), ("retry-after", ""), ("server", ""), ("set-cookie", ""),
   ("strict-transport-security", ""), ("transfer-encoding", ""), ("user-agent", ""),
   ("vary", ""), ("via", ""), ("www-authenticate", "")]

/-- `dynamic_table`: the entries, newest first; `current_size_` is their total size. -/
structure DynamicTable where
  entries : List Field := []
  maxCapacity : Nat := 4096
  deriving DecidableEq, Repr

namespace DynamicTable

/-- `current_size_`. -/
def currentSize (entries : List Field) : Nat := (entries.map fieldSize).sum

/-- Entries, oldest first, without the oldest ones until the rest fits. -/
def dropOldest (maxCapacity : Nat) : List Field → List Field
  | [] => []
  | e :: rest =>
      if currentSize (e :: rest) > maxCapacity then dropOldest maxCapacity rest else e :: rest

/-- `evict_to_fit`: the oldest entries, at the back, go until the rest fits. -/
def evictToFit (maxCapacity : Nat) (entries : List Field) : List Field :=
  (dropOldest maxCapacity entries.reverse).reverse

/-- `set_max_capacity`. -/
def setMaxCapacity (t : DynamicTable) (newCap : Nat) : DynamicTable :=
  { maxCapacity := newCap, entries := evictToFit newCap t.entries }

/-- `insert`: an entry larger than the table empties it. -/
def insert (t : DynamicTable) (f : Field) : DynamicTable :=
  if fieldSize f > t.maxCapacity then { t with entries := [] }
  else { t with entries := evictToFit t.maxCapacity (f :: t.entries) }

/-- `get`. -/
def get (t : DynamicTable) (dynamicIndex : Nat) : Option Field := t.entries[dynamicIndex]?

end DynamicTable

/-- `lookup_index`: the empty pair for an index outside both tables. -/
def lookupIndex (t : DynamicTable) (idx : Nat) : Field :=
  if idx = 0 then ([], [])
  else
    match staticTable[idx]? with
    | some (n, v) => (text n, text v)
    | none => (t.get (idx - staticTable.length)).getD ([], [])

/-! ## The header-block decoder -/

/-- What one representation of a header block does: the field it adds to the list, the
    table and the cursor after it. -/
structure Round where
  field : Option Field
  table : DynamicTable
  cursor : Nat

/-- A literal: an indexed or a literal name, then the value. -/
def decodeLiteral (block : Bytes) (cursor prefixBits : Nat) (t : DynamicTable) :
    Option (Field × Nat) := do
  let (nameIdx, cursor) ← decodeInteger block cursor prefixBits
  let (name, cursor) ← (if nameIdx = 0 then decodeString block cursor
    else if (lookupIndex t nameIdx).1 = [] then none
    else some ((lookupIndex t nameIdx).1, cursor))
  let (val, cursor) ← decodeString block cursor
  some ((name, val), cursor)

/-- The body of the loop of `decode_header_block` at the byte `b`: an indexed field, a
    literal with incremental indexing, a table size update, or a literal without
    indexing. -/
def decodeRound (block : Bytes) (cursor : Nat) (t : DynamicTable) (b : Nat) : Option Round :=
  if b &&& 0x80 ≠ 0 then do
    let (index, cursor) ← decodeInteger block cursor 7
    if (lookupIndex t index).1 = [] then none
    else some ⟨some (lookupIndex t index), t, cursor⟩
  else if b &&& 0x40 ≠ 0 then do
    let (f, cursor) ← decodeLiteral block cursor 6 t
    some ⟨some f, t.insert f, cursor⟩
  else if b &&& 0x20 ≠ 0 then do
    let (newMaxSize, cursor) ← decodeInteger block cursor 5
    some ⟨none, t.setMaxCapacity newMaxSize, cursor⟩
  else do
    let (f, cursor) ← decodeLiteral block cursor 4 t
    some ⟨some f, t, cursor⟩

/-- What `decode_header_block` leaves behind: its result, `limit_exceeded_`, the fields
    added and the table, which keeps what was inserted before a failure. -/
structure Decoded where
  ok : Bool
  limitExceeded : Bool
  headers : List Field
  table : DynamicTable
  deriving DecidableEq, Repr

/-- `within_limit` fails: the list of the fields decoded so far exceeds the cap. -/
def overLimit (maxListSize : Nat) (headers : List Field) : Bool :=
  decide (maxListSize ≠ 0 ∧ (headers.map fieldSize).sum > maxListSize)

/-- The loop of `decode_header_block` with its rounds counted down; `none` when they
    are used up. -/
def decodeLoop (maxListSize : Nat) (block : Bytes) :
    Nat → Nat → DynamicTable → List Field → Option Decoded
  | 0, _, _, _ => none
  | fuel + 1, cursor, t, headers =>
      match block.drop cursor with
      | [] => some ⟨!overLimit maxListSize headers, overLimit maxListSize headers, headers, t⟩
      | b :: _ =>
          if overLimit maxListSize headers then some ⟨false, true, headers, t⟩
          else
            match decodeRound block cursor t b.toNat with
            | none => some ⟨false, false, headers, t⟩
            | some r => decodeLoop maxListSize block fuel r.cursor r.table
                (headers ++ r.field.toList)

/-- Rounds enough for a list under a cap: a round adds a field, of at least 32 octets, or
    moves the cursor forward. -/
def roundLimit (maxListSize : Nat) (block : Bytes) : Nat :=
  (maxListSize / 32 + 2) * (block.length + 1)

/-- `decode_header_block` with a cap on the list, on an empty list of headers. -/
def decodeHeaderBlock (maxListSize : Nat) (block : Bytes) (t : DynamicTable) : Decoded :=
  (decodeLoop maxListSize block (roundLimit maxListSize block) 0 t []).getD ⟨false, false, [], t⟩

/-- More rounds do not change what the loop has returned. -/
theorem decodeLoop_more {cap fuel c : Nat} {block : Bytes} {t : DynamicTable}
    {headers : List Field} {d : Decoded} (h : decodeLoop cap block fuel c t headers = some d)
    (k : Nat) :
    decodeLoop cap block (fuel + k) c t headers = some d := by
  induction fuel generalizing c t headers with
  | zero => cases h
  | succ fuel ih =>
    rw [Nat.succ_add_eq_add_succ, Nat.add_succ, decodeLoop]
    rw [decodeLoop] at h
    cases hdrop : block.drop c with
    | nil =>
      simp only [hdrop] at h ⊢
      exact h
    | cons b rest =>
      simp only [hdrop] at h ⊢
      split at h
      · rename_i hover
        rw [if_pos hover]
        exact h
      · rename_i hover
        rw [if_neg hover]
        cases hround : decodeRound block c t b.toNat with
        | none =>
          simp only [hround] at h ⊢
          exact h
        | some r =>
          simp only [hround] at h ⊢
          exact ih h

end Hpack
