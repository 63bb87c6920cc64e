import WaveX.Hpack

/-! # QPACK header compression

    The decoding half of `http3::qpack` (`src/protos/http/http3codec.cpp`): the dynamic
    table with absolute indices, the instructions of the encoder stream and the decoder
    of a field section, and the loop of `handle_unidirectional_stream` that applies the
    instructions of a buffer.  Integers, strings and the Huffman code are those of
    HPACK.  `decode_header_block` reads the table and never changes it. -/

namespace Qpack

open QuicVarInt Hpack

/-! ## Tables -/

/-- `qpack::STATIC_TABLE`. -/
def staticTable : List (String × String) :=
  [(":authority", ""), (":path", "/"), ("age", "0"), ("content-disposition", ""),
   ("content-length", "0"), ("cookie", ""), ("date", ""), ("etag", ""),
   ("if-modified-since", ""), ("if-none-match", ""), ("last-modified", ""), ("link", ""),
   ("location", ""), ("referer", ""), ("set-cookie", ""), (":method", "CONNECT"),
   (":method", "DELETE"), (":method", "GET"), (":method", "HEAD"), (":method", "OPTIONS"),
   (":method", "POST"), (":method", "PUT"), (":scheme", "http"), (":scheme", "https"),
   (":status", "103"), (":status", "200"), (":status", "304"), (":status", "404"),
   (":status", "503"), ("accept", "*/*"), ("accept", "application/dns-message"),
   ("accept-encoding", "gzip, deflate, br"), ("accept-ranges", "bytes"),
   ("access-control-allow-headers", "cache-control"),
   ("access-control-allow-headers", "content-type"), ("access-control-allow-origin", "*"),
   ("cache-control", "max-age=0"), ("cache-control", "max-age=2592000"),
   ("cache-control", "max-age=604800"), ("cache-control", "no-cache"),
   ("cache-control", "no-store"), ("cache-control", "public, max-age=31536000"),
   ("content-encoding", "br"), ("content-encoding", "gzip"),
   ("content-type", "application/dns-message"), ("content-type", "application/javascript"),
   ("content-type", "application/json"), ("content-type", "application/x-www-form-urlencoded"),
   ("content-type", "image/gif"), ("content-type", "image/jpeg"), ("content-type", "image/png"),
   ("content-type", "text/css"), ("content-type", "text/html; charset=utf-8"),
   ("content-type", "text/plain"), ("content-type", "text/plain;charset=utf-8"),
   ("range", "bytes=0-"), ("strict-transport-security", "max-age=31536000"),
   ("strict-transport-security", "max-age=31536000; includesubdomains"),
   ("strict-transport-security", "max-age=31536000; includesubdomains; preload"),
   ("vary", "accept-encoding"), ("vary", "origin"), ("x-content-type-options", "nosniff"),
   ("x-xss-protection", "1; mode=block"), (":status", "100"), (":status", "204"),
   (":status", "206"), (":status", "302"), (":status", "400"), (":status", "403"),
   (":status", "421"), (":status", "425"), (":status", "500"), ("accept-language", ""),
   ("access-control-allow-credentials", "FALSE"), ("access-control-allow-credentials", "TRUE"),
   ("access-control-allow-headers", "*"), ("access-control-allow-methods", "get"),
   ("access-control-allow-methods", "get, post, options"),
   ("access-control-allow-methods", "options"),
   ("access-control-expose-headers", "content-length"),
   ("access-control-request-headers", "content-type"), ("access-control-request-method", "get"),
   ("access-control-request-method", "post"), ("alt-svc", "clear"), ("authorization", ""),
   ("content-security-policy", "script-src 'none'; object-src 'none'; base-uri 'none';"),
   ("early-data", "1"), ("expect-ct", ""), ("forwarded", ""), ("if-range", ""), ("origin", ""),
   ("purpose", "prefetch"), ("server", ""), ("timing-allow-origin", "*"),
   ("upgrade-insecure-requests", "1"), ("user-agent", ""), ("x-forwarded-for", ""),
   ("x-frame-options", "deny"), ("x-frame-options", "sameorigin")]

/-- The static entry at an index, `none` beyond the table. -/
def getStatic (idx : Nat) : Option Field :=
  staticTable[idx]?.map fun e => (text e.1, text e.2)

/-- `dynamic_table::entry`. -/
structure Entry where
  field : Field
  absoluteIndex : Nat
  deriving DecidableEq, Repr

/-- `dynamic_table`: the entries, oldest first; `current_size_` is their total size. -/
structure DynamicTable where
  entries : List Entry := []
  totalInserts : Nat := 0
  maxCapacity : Nat := 4096
  maxCapacityLimit : Nat := 4096
  deriving DecidableEq, Repr

namespace DynamicTable

/-- `current_size_`. -/
def currentSize (entries : List Entry) : Nat := (entries.map fun e => fieldSize e.field).sum

/-- `evict`: the oldest entries, at the front, go until the rest fits. -/
def evict (maxCapacity : Nat) : List Entry → List Entry
  | [] => []
  | e :: rest =>
      if currentSize (e :: rest) > maxCapacity then evict maxCapacity rest else e :: rest

/-- `set_max_capacity`: `none` beyond the limit. -/
def setMaxCapacity (t : DynamicTable) (cap : Nat) : Option DynamicTable :=
  if cap > t.maxCapacityLimit then none
  else some { t with maxCapacity := cap, entries := evict cap t.entries }

/-- `insert`: an entry larger than the table empties it and is counted all the same. -/
def insert (t : DynamicTable) (f : Field) : DynamicTable :=
  if fieldSize f > t.maxCapacity then
    { t with entries := [], totalInserts := t.totalInserts + 1 }
  else
    { t with
      entries := evict t.maxCapacity (t.entries ++ [⟨f, t.totalInserts⟩])
      totalInserts := t.totalInserts + 1 }

/-- `get_by_absolute_index`. -/
def getByAbsoluteIndex (t : DynamicTable) (absIdx : Nat) : Option Field :=
  match t.entries.head?, t.entries.getLast? with
  | some oldest, some newest =>
      if absIdx < oldest.absoluteIndex ∨ absIdx > newest.absoluteIndex then none
      else (t.entries[absIdx - oldest.absoluteIndex]?).map Entry.field
  | _, _ => none

/-- `get_relative`. -/
def getRelative (t : DynamicTable) (base relativeIdx : Nat) : Option Field :=
  if base = 0 ∨ relativeIdx ≥ base then none
  else t.getByAbsoluteIndex (base - 1 - relativeIdx)

/-- `get_post_base`: refused when the 64-bit sum would wrap. -/
def getPostBase (t : DynamicTable) (base postBaseIdx : Nat) : Option Field :=
  if postBaseIdx > 2 ^ 64 - 1 - base then none
  else t.getByAbsoluteIndex (base + postBaseIdx)

/-- `is_blocked`. -/
def isBlocked (t : DynamicTable) (requiredInsertCount : Nat) : Bool :=
  decide (t.totalInserts < requiredInsertCount)

end DynamicTable

/-! ## Instructions of the encoder stream -/

/-- A literal name in place: its length with a `prefixBits`-bit prefix, then its bytes. -/
def decodeName (input : Bytes) (cursor prefixBits : Nat) (isHuffman : Bool) :
    Option (Bytes × Nat) := do
  let (nameLen, cursor) ← decodeInteger input cursor prefixBits
  takeString input cursor nameLen isHuffman

/-- A literal name in place and the value that follows it. -/
def decodeNameValue (input : Bytes) (cursor prefixBits : Nat) (isHuffman : Bool) :
    Option (Field × Nat) := do
  let (name, cursor) ← decodeName input cursor prefixBits isHuffman
  let (val, cursor) ← decodeString input cursor
  some ((name, val), cursor)

/-- An index that is looked up for a name, and the value that follows it. -/
def decodeRefValue (input : Bytes) (cursor prefixBits : Nat) (lookup : Nat → Option Field) :
    Option (Field × Nat) := do
  let (nameIdx, cursor) ← decodeInteger input cursor prefixBits
  let named ← lookup nameIdx
  let (val, cursor) ← decodeString input cursor
  some ((named.1, val), cursor)

/-- `apply_encoder_instruction`: the table and the cursor after the instruction at the
    cursor, `none` when it returns false.  A refused instruction leaves the table as it
    was: every insertion is the last thing its branch does. -/
def applyEncoderInstruction (input : Bytes) (cursor : Nat) (t : DynamicTable) :
    Option (DynamicTable × Nat) :=
  match input.drop cursor with
  | [] => none
  | first :: _ =>
      let b := first.toNat
      -- Set Dynamic Table Capacity: 001xxxxx
      if b &&& 0xe0 = 0x20 then do
        let (capacity, cursor) ← decodeInteger input cursor 5
        let t ← t.setMaxCapacity capacity
        some (t, cursor)
      -- Insert with Name Reference: 1Txxxxxx
      else if b &&& 0x80 ≠ 0 then do
        let (f, cursor) ← decodeRefValue input cursor 6
          (if b &&& 0x40 ≠ 0 then getStatic else t.getRelative t.totalInserts)
        some (t.insert f, cursor)
      -- Insert with Literal Name: 01Hxxxxx
      else if b &&& 0xc0 = 0x40 then do
        let (f, cursor) ← decodeNameValue input cursor 5 (b &&& 0x20 != 0)
        some (t.insert f, cursor)
      -- Duplicate: 000xxxxx
      else if b &&& 0xe0 = 0x00 then do
        let (index, cursor) ← decodeInteger input cursor 5
        let f ← t.getRelative t.totalInserts index
        some (t.insert f, cursor)
      else none

/-- The inner loop of `handle_unidirectional_stream` on an encoder stream, with its
    rounds counted down: instructions are applied until one is refused, which leaves the
    cursor where that one began.  `none` when the rounds are used up. -/
def instructionLoop (input : Bytes) : Nat → Nat → DynamicTable → Option (DynamicTable × Nat)
  | 0, _, _ => none
  | fuel + 1, cursor, t =>
      if input.length ≤ cursor then some (t, cursor)
      else
        match applyEncoderInstruction input cursor t with
        | none => some (t, cursor)
        | some (t, cursor) => instructionLoop input fuel cursor t

/-! ## Field sections -/

/-- The Required Insert Count that an encoded count stands for (RFC 9204 §4.5.1.1). -/
def requiredInsertCount (t : DynamicTable) (encInsertCount : Nat) : Option Nat :=
  if encInsertCount = 0 then some 0
  else
    let maxEntries := t.maxCapacity / 32
    let fullRange := 2 * maxEntries
    if maxEntries = 0 ∨ encInsertCount > fullRange then none
    else
      let maxValue := t.totalInserts + maxEntries
      let maxWrapped := maxValue / fullRange * fullRange
      let req := maxWrapped + encInsertCount - 1
      if req > maxValue then
        if req ≤ fullRange ∨ req - fullRange = 0 then none else some (req - fullRange)
      else if req = 0 then none
      else some req

/-- What the prefix of a field section says: it is malformed, it waits for insertions
    still to come, or the lines start at a cursor and count from a base. -/
inductive SectionStart where
  | malformed
  | blocked
  | lines (base cursor : Nat)
  deriving DecidableEq, Repr

/-- `Base` from the sign and the delta; the sum is a `uint64_t`. -/
def sectionBase (sign : Bool) (req deltaBase cursor : Nat) : SectionStart :=
  if sign then
    if deltaBase ≥ req then .malformed else .lines (req - deltaBase - 1) cursor
  else .lines (wrap (req + deltaBase)) cursor

/-- The Encoded Field Section Prefix of `decode_header_block`. -/
def decodePrefix (block : Bytes) (t : DynamicTable) : SectionStart :=
  match decodeInteger block 0 8 with
  | none => .malformed
  | some (encInsertCount, cursor) =>
      match requiredInsertCount t encInsertCount, block.drop cursor with
      | some req, first :: _ =>
          match decodeInteger block cursor 7 with
          | none => .malformed
          | some (deltaBase, cursor) =>
              if t.isBlocked req then .blocked
              else sectionBase (first.toNat &&& 0x80 != 0) req deltaBase cursor
      | _, _ => .malformed

/-- The body of the loop of `decode_header_block` at the byte `b`: the field of one line
    and the cursor after it. -/
def decodeLine (block : Bytes) (cursor : Nat) (t : DynamicTable) (base b : Nat) :
    Option (Field × Nat) :=
  -- Indexed Header Field: 1Txxxxxx
  if b &&& 0x80 ≠ 0 then do
    let (index, cursor) ← decodeInteger block cursor 6
    let f ← (if b &&& 0x40 ≠ 0 then getStatic else t.getRelative base) index
    some (f, cursor)
  -- Literal Header with Name Reference: 01NTxxxx
  else if b &&& 0x40 ≠ 0 then
    decodeRefValue block cursor 4
      (if b &&& 0x10 ≠ 0 then getStatic else t.getRelative base)
  -- Literal Header with Literal Name: 001NHxxx
  else if b &&& 0x20 ≠ 0 then
    decodeNameValue block cursor 3 (b &&& 0x08 != 0)
  -- Indexed Header Field with Post-Base Index: 0001xxxx
  else if b &&& 0xf0 = 0x10 then do
    let (index, cursor) ← decodeInteger block cursor 4
    let f ← t.getPostBase base index
    some (f, cursor)
  -- Literal Header with Post-Base Name Reference: 0000Nxxx
  else if b &&& 0xf0 = 0x00 then
    decodeRefValue block cursor 3 (t.getPostBase base)
  else none

/-- `add_header`: refused when the section grows beyond the cap; 0 means no cap. -/
def addHeader (maxFieldSectionSize : Nat) (headers : List Field) (f : Field) :
    Option (List Field) :=
  if 0 < maxFieldSectionSize ∧
      (headers.map fieldSize).sum + fieldSize f > maxFieldSectionSize then none
  else some (headers ++ [f])

/-- What `decode_header_block` leaves behind: its result, `is_blocked` and the fields
    added. -/
structure Section where
  ok : Bool
  isBlocked : Bool := false
  headers : List Field := []
  deriving DecidableEq, Repr

/-- The loop of `decode_header_block` with its rounds counted down; `none` when they
    are used up. -/
def decodeLines (maxFieldSectionSize : Nat) (block : Bytes) (t : DynamicTable) (base : Nat) :
    Nat → Nat → List Field → Option Section
  | 0, _, _ => none
  | fuel + 1, cursor, headers =>
      match block.drop cursor with
      | [] => some { ok := true, headers }
      | b :: _ =>
          match decodeLine block cursor t base b.toNat with
          | none => some { ok := false, headers }
          | some (f, cursor) =>
              match addHeader maxFieldSectionSize headers f with
              | none => some { ok := false, headers }
              | some headers => decodeLines maxFieldSectionSize block t base fuel cursor headers

/-- `decode_header_block` with at most `fuel` rounds of its loop. -/
def decodeHeaderBlock (maxFieldSectionSize : Nat) (block : Bytes) (t : DynamicTable)
    (fuel : Nat) : Option Section :=
  match decodePrefix block t with
  | .malformed => some { ok := false }
  | .blocked => some { ok := false, isBlocked := true }
  | .lines base cursor => decodeLines maxFieldSectionSize block t base fuel cursor []

end Qpack
