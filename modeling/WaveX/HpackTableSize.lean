import WaveX.Hpack
import WaveX.EvictingQueue

/-! # The size of the HPACK dynamic table

    `dynamic_table` of `http2::hpack` counts its size in `current_size_`, entry by entry.
    `CountedTable` is the table with that counter.  A header block changes the table by
    insertions and size updates only, so what holds in every state between two of them
    holds after any sequence of blocks: the counter is the size of the entries and within
    the capacity.  The capacity is whatever a size update says. -/

namespace HpackTableSize

open QuicVarInt Hpack EvictingQueue

/-! ## The table with its counter -/

/-- `dynamic_table`: the entries, newest first, with `current_size_`. -/
structure CountedTable where
  entries : List Field := []
  currentSize : Nat := 0
  maxCapacity : Nat := 4096
  deriving DecidableEq, Repr

namespace CountedTable

/-- `evict_to_fit`: entries leave at the back. -/
def evictToFit (t : CountedTable) : CountedTable :=
  let r := evictCounted fieldSize t.maxCapacity t.currentSize t.entries.reverse
  { t with entries := r.2.reverse, currentSize := r.1 }

/-- `set_max_capacity`. -/
def setMaxCapacity (t : CountedTable) (newCap : Nat) : CountedTable :=
  { t with maxCapacity := newCap }.evictToFit

/-- `insert`. -/
def insert (t : CountedTable) (f : Field) : CountedTable :=
  if fieldSize f > t.maxCapacity then { t with entries := [], currentSize := 0 }
  else
    { t with entries := f :: t.entries, currentSize := t.currentSize + fieldSize f }.evictToFit

/-- The table without its counter. -/
def view (t : CountedTable) : DynamicTable := ⟨t.entries, t.maxCapacity⟩

/-- The counter is the size of the entries and within the capacity. -/
structure Sized (t : CountedTable) : Prop where
  counted : t.currentSize = DynamicTable.currentSize t.entries
  fits : t.currentSize ≤ t.maxCapacity

end CountedTable

/-! ## What a block does to the table -/

/-- What a representation does to the table. -/
inductive TableOp where
  | insert (f : Field)
  | setMaxCapacity (n : Nat)
  deriving DecidableEq, Repr

def TableOp.apply (t : DynamicTable) : TableOp → DynamicTable
  | .insert f => t.insert f
  | .setMaxCapacity n => t.setMaxCapacity n

def CountedTable.apply (t : CountedTable) : TableOp → CountedTable
  | .insert f => t.insert f
  | .setMaxCapacity n => t.setMaxCapacity n

def CountedTable.run (t : CountedTable) (ops : List TableOp) : CountedTable :=
  ops.foldl CountedTable.apply t

/-- The operation of one round of `decode_header_block`: a literal with incremental indexing
    is inserted, a Dynamic Table Size Update sets the capacity. -/
def roundOp (block : Bytes) (cursor : Nat) (t : DynamicTable) (b : Nat) : Option TableOp :=
  if b &&& 0x80 ≠ 0 then none
  else if b &&& 0x40 ≠ 0 then (decodeLiteral block cursor 6 t).map fun r => .insert r.1
  else if b &&& 0x20 ≠ 0 then
    (decodeInteger block cursor 5).map fun r => .setMaxCapacity r.1
  else none

/-- The operations of the loop of `decode_header_block` in its first `fuel` rounds. -/
def loopOps (maxListSize : Nat) (block : Bytes) :
    Nat → Nat → DynamicTable → List Field → List TableOp
  | 0, _, _, _ => []
  | fuel + 1, cursor, t, headers =>
      match block.drop cursor with
      | [] => []
      | b :: _ =>
          if overLimit maxListSize headers then []
          else
            match decodeRound block cursor t b.toNat with
            | none => []
            | some r => (roundOp block cursor t b.toNat).toList ++
                loopOps maxListSize block fuel r.cursor r.table (headers ++ r.field.toList)

/-- A header block that comes: the cap on its list, the rounds of its decoding and its
    bytes. -/
structure Block where
  maxListSize : Nat
  rounds : Nat
  bytes : Bytes

/-- What header blocks that come one after the other do to a table. -/
def blockOps : CountedTable → List Block → List TableOp
  | _, [] => []
  | t, b :: rest =>
      let ops := loopOps b.maxListSize b.bytes b.rounds 0 t.view []
      ops ++ blockOps (t.run ops) rest

variable {t : CountedTable} {table : DynamicTable} {block : Bytes} {headers : List Field}
  {ops : List TableOp} {r : Round} {d : Decoded} {cursor fuel maxListSize b : Nat}

/-- A round changes the table by its operation. -/
theorem decodeRound_table (h : decodeRound block cursor table b = some r) :
    r.table = (roundOp block cursor table b).toList.foldl TableOp.apply table := by
  rw [decodeRound] at h
  rw [roundOp]
  split at h
  · rename_i hbit
    rw [if_pos hbit]
    obtain ⟨⟨index, c⟩, -, h⟩ := Option.bind_eq_some_iff.mp h
    dsimp only at h
    split at h
    · cases h
    · cases h
      rfl
  · rename_i hbit
    rw [if_neg hbit]
    split at h
    · rename_i hbit
      rw [if_pos hbit]
      obtain ⟨⟨f, c⟩, hliteral, h⟩ := Option.bind_eq_some_iff.mp h
      cases h
      rw [hliteral]
      rfl
    · rename_i hbit
      rw [if_neg hbit]
      split at h
      · rename_i hbit
        rw [if_pos hbit]
        obtain ⟨⟨n, c⟩, hinteger, h⟩ := Option.bind_eq_some_iff.mp h
        cases h
        rw [hinteger]
        rfl
      · rename_i hbit
        rw [if_neg hbit]
        obtain ⟨⟨f, c⟩, -, h⟩ := Option.bind_eq_some_iff.mp h
        cases h
        rfl

/-- The table behind a block, whether it was decoded or refused. -/
theorem decodeLoop_table (h : decodeLoop maxListSize block fuel cursor table headers = some d) :
    d.table = (loopOps maxListSize block fuel cursor table headers).foldl TableOp.apply table := by
  induction fuel generalizing cursor table headers with
  | zero => cases h
  | succ fuel ih =>
    rw [decodeLoop] at h
    rw [loopOps]
    cases hdrop : block.drop cursor with
    | nil =>
      rw [hdrop] at h
      cases h
      rfl
    | cons b rest =>
      rw [hdrop] at h
      dsimp only at h ⊢
      split at h
      · rename_i hover
        rw [if_pos hover]
        cases h
        rfl
      · rename_i hover
        rw [if_neg hover]
        cases hround : decodeRound block cursor table b.toNat with
        | none =>
          rw [hround] at h
          cases h
          rfl
        | some r =>
          rw [hround] at h
          dsimp only at h ⊢
          rw [List.foldl_append, ← decodeRound_table hround]
          exact ih h

/-! ## The counter -/

theorem currentSize_eq (entries : List Field) :
    DynamicTable.currentSize entries = total fieldSize entries := rfl

theorem dropOldest_eq (cap : Nat) (entries : List Field) :
    DynamicTable.dropOldest cap entries = evict fieldSize cap entries := by
  induction entries with
  | nil => rfl
  | cons e rest ih =>
    rw [DynamicTable.dropOldest, evict, ih]
    rfl

/-- With a right counter, an eviction leaves what the sizes say. -/
theorem evictToFit_eq (h : t.currentSize = DynamicTable.currentSize t.entries) :
    t.evictToFit.view = ⟨DynamicTable.evictToFit t.maxCapacity t.entries, t.maxCapacity⟩ ∧
      t.evictToFit.Sized := by
  have hcount : t.currentSize = total fieldSize t.entries.reverse := by
    rw [h, currentSize_eq, total_reverse]
  have hevict : t.evictToFit =
      { t with
        entries := (evict fieldSize t.maxCapacity t.entries.reverse).reverse
        currentSize := total fieldSize (evict fieldSize t.maxCapacity t.entries.reverse) } := by
    rw [CountedTable.evictToFit, hcount, evictCounted_eq]
  rw [hevict]
  refine ⟨?_, ?_, evict_total⟩
  · rw [CountedTable.view, DynamicTable.evictToFit, dropOldest_eq]
  · rw [currentSize_eq, total_reverse]

/-- The table with the counter is the table without it, and its counter stays right. -/
theorem apply_sized (h : t.Sized) (op : TableOp) :
    (t.apply op).view = op.apply t.view ∧ (t.apply op).Sized := by
  cases op with
  | insert f =>
    show (t.insert f).view = t.view.insert f ∧ (t.insert f).Sized
    rw [CountedTable.insert, DynamicTable.insert]
    show _ = (if fieldSize f > t.maxCapacity then _ else _) ∧ _
    split
    · exact ⟨rfl, rfl, Nat.zero_le _⟩
    · refine evictToFit_eq ?_
      show t.currentSize + fieldSize f = DynamicTable.currentSize (f :: t.entries)
      rw [currentSize_eq, total_cons, h.counted, currentSize_eq, Nat.add_comm]
  | setMaxCapacity n => exact evictToFit_eq h.counted

theorem run_sized (h : t.Sized) (ops : List TableOp) :
    (t.run ops).view = ops.foldl TableOp.apply t.view ∧ (t.run ops).Sized := by
  induction ops generalizing t with
  | nil => exact ⟨rfl, h⟩
  | cons op rest ih =>
    obtain ⟨hview, hsized⟩ := apply_sized h op
    obtain ⟨hrest, hend⟩ := ih hsized
    rw [hview] at hrest
    exact ⟨hrest, hend⟩

/-- The decoder leaves the table that its operations lead to. -/
theorem run_loopOps (h : t.Sized)
    (hloop : decodeLoop maxListSize block fuel cursor t.view headers = some d) :
    (t.run (loopOps maxListSize block fuel cursor t.view headers)).view = d.table := by
  rw [(run_sized h _).1, decodeLoop_table hloop]

/-! ## The capacity -/

theorem apply_maxCapacity (t : CountedTable) (op : TableOp) :
    (t.apply op).maxCapacity = match op with
      | .insert _ => t.maxCapacity
      | .setMaxCapacity n => n := by
  cases op with
  | insert f =>
    show (t.insert f).maxCapacity = _
    rw [CountedTable.insert]
    split
    · rfl
    · rfl
  | setMaxCapacity n => rfl

/-- The capacity stays within a bound exactly when no size update exceeds it. -/
theorem run_maxCapacity {cap : Nat} (h : t.maxCapacity ≤ cap) :
    (∀ pre, pre <+: ops → (t.run pre).maxCapacity ≤ cap) ↔
      ∀ n, TableOp.setMaxCapacity n ∈ ops → n ≤ cap := by
  induction ops generalizing t with
  | nil =>
    constructor
    · intro _ n hn
      cases hn
    · intro _ pre hpre
      rw [List.prefix_nil.mp hpre]
      exact h
  | cons op rest ih =>
    have hop := apply_maxCapacity t op
    constructor
    · intro hall n hn
      have hfirst : (t.apply op).maxCapacity ≤ cap := hall [op] ⟨rest, rfl⟩
      rcases List.mem_cons.mp hn with heq | hmem
      · subst heq
        exact hfirst
      · refine (ih hfirst).mp (fun pre hpre => ?_) n hmem
        exact hall (op :: pre) (List.cons_prefix_cons.mpr ⟨rfl, hpre⟩)
    · intro hall pre hpre
      have hfirst : (t.apply op).maxCapacity ≤ cap := by
        rw [hop]
        cases op with
        | insert f => exact h
        | setMaxCapacity n => exact hall n List.mem_cons_self
      cases pre with
      | nil => exact h
      | cons op' pre =>
        obtain ⟨rfl, htail⟩ := List.cons_prefix_cons.mp hpre
        exact (ih hfirst).mpr (fun n hn => hall n (List.mem_cons_of_mem _ hn)) pre htail

/-- After every step of every sequence of header blocks the counter is the size of the
    entries and within the capacity.  The capacity stays within the 4096 octets that the
    server has advertised exactly when no size update is larger. -/
theorem table_size_discipline (blocks : List Block) :
    (∀ pre, pre <+: blockOps {} blocks → (CountedTable.run {} pre).Sized) ∧
      ((∀ pre, pre <+: blockOps {} blocks → (CountedTable.run {} pre).maxCapacity ≤ 4096) ↔
        ∀ n, TableOp.setMaxCapacity n ∈ blockOps {} blocks → n ≤ 4096) :=
  ⟨fun pre _ => (run_sized ⟨rfl, Nat.zero_le _⟩ pre).2, run_maxCapacity (Nat.le_refl _)⟩

/-- A block with a size update to 65536 octets. -/
def enlarging : Block := ⟨65536, 2, [0x3f, 0xe1, 0xff, 0x03]⟩

/-- It is decoded, and the capacity is what it says. -/
theorem capacity_raised :
    decodeHeaderBlock enlarging.maxListSize enlarging.bytes {} =
      ⟨true, false, [], { maxCapacity := 65536 }⟩ ∧
    (CountedTable.run {} (blockOps {} [enlarging])).maxCapacity = 65536 := by
  constructor
  · decide +kernel
  · decide +kernel

end HpackTableSize
