import WaveX.QpackTable
import WaveX.EvictingQueue

/-! # What the QPACK dynamic table holds

    `qpack::dynamic_table` with the counter `current_size_`, under any sequence of its
    operations.  The table holds the newest of all the fields that have been inserted, each
    under the number of its insertion; an entry that is too large for the table is counted,
    and leaves it empty.  How many these are is said by the operations alone: a field is
    retained as long as the fields from it on fit the capacity together (`Retained`).  So
    the lookups find the field with an absolute index exactly while it is retained. -/

namespace QpackTableHistory

open Qpack EvictingQueue QpackTable List
open Hpack (Field fieldSize)

/-! ## The table with its counter -/

/-- `entry::size`. -/
def entrySize (e : Entry) : Nat := fieldSize e.field

/-- `dynamic_table`: the entries, oldest first, with `current_size_`. -/
structure CountedTable where
  entries : List Entry := []
  totalInserts : Nat := 0
  currentSize : Nat := 0
  maxCapacity : Nat := 4096
  maxCapacityLimit : Nat := 4096
  deriving DecidableEq, Repr

namespace CountedTable

/-- The constructor. -/
def new (maxCap maxCapLimit : Nat) : CountedTable :=
  { maxCapacity := maxCap, maxCapacityLimit := max maxCap maxCapLimit }

/-- `evict`: entries leave at the front. -/
def evict (t : CountedTable) : CountedTable :=
  let r := evictCounted entrySize t.maxCapacity t.currentSize t.entries
  { t with entries := r.2, currentSize := r.1 }

/-- `set_max_capacity`: refused beyond the limit. -/
def setMaxCapacity (t : CountedTable) (cap : Nat) : CountedTable :=
  if cap > t.maxCapacityLimit then t else { t with maxCapacity := cap }.evict

/-- `set_max_capacity_limit`. -/
def setMaxCapacityLimit (t : CountedTable) (limit : Nat) : CountedTable :=
  if t.maxCapacity > limit then
    { t with maxCapacityLimit := limit, maxCapacity := limit }.evict
  else { t with maxCapacityLimit := limit }

/-- `insert`. -/
def insert (t : CountedTable) (f : Field) : CountedTable :=
  let e : Entry := ⟨f, t.totalInserts⟩
  if entrySize e > t.maxCapacity then
    { t with totalInserts := t.totalInserts + 1, entries := [], currentSize := 0 }
  else
    { t with
      totalInserts := t.totalInserts + 1
      entries := t.entries ++ [e]
      currentSize := t.currentSize + entrySize e }.evict

/-- The table without its counter, on which the lookups are defined. -/
def view (t : CountedTable) : DynamicTable :=
  ⟨t.entries, t.totalInserts, t.maxCapacity, t.maxCapacityLimit⟩

end CountedTable

/-! ## Runs -/

/-- An operation on a table. -/
inductive TableOp where
  | insert (f : Field)
  | setMaxCapacity (cap : Nat)
  | setMaxCapacityLimit (limit : Nat)

def CountedTable.apply (t : CountedTable) : TableOp → CountedTable
  | .insert f => t.insert f
  | .setMaxCapacity cap => t.setMaxCapacity cap
  | .setMaxCapacityLimit limit => t.setMaxCapacityLimit limit

def CountedTable.run (t : CountedTable) (ops : List TableOp) : CountedTable :=
  ops.foldl CountedTable.apply t

/-- The fields that operations insert; the place in this list is the absolute index. -/
def insertions (ops : List TableOp) : List Field :=
  ops.filterMap fun op => match op with
    | .insert f => some f
    | _ => none

/-- The fields with their absolute indices. -/
def indexed (log : List Field) : List Entry := log.mapIdx fun i f => ⟨f, i⟩

/-- The capacity and its limit after an operation. -/
def setCapacities (c : Nat × Nat) : TableOp → Nat × Nat
  | .insert _ => c
  | .setMaxCapacity cap => if cap > c.2 then c else (cap, c.2)
  | .setMaxCapacityLimit limit => (min c.1 limit, limit)

/-- The capacity and its limit behind operations on a new table. -/
def capacities (maxCap maxCapLimit : Nat) (ops : List TableOp) : Nat × Nat :=
  ops.foldl setCapacities (maxCap, max maxCap maxCapLimit)

/-- The field with an absolute index has not been evicted: behind each operation since its
    insertion, it and the fields inserted after it fit the capacity. -/
def Retained (maxCap maxCapLimit : Nat) (ops : List TableOp) (a : Nat) : Prop :=
  ∀ n ≤ ops.length, a < (insertions (ops.take n)).length →
    total fieldSize ((insertions (ops.take n)).drop a) ≤
      (capacities maxCap maxCapLimit (ops.take n)).1

instance (maxCap maxCapLimit : Nat) (ops : List TableOp) (a : Nat) :
    Decidable (Retained maxCap maxCapLimit ops a) :=
  inferInstanceAs (Decidable (∀ n ≤ ops.length, _ < _ → _ ≤ _))

/-- The field inserted under an absolute index, unless it was evicted or is not there yet. -/
def present (maxCap maxCapLimit : Nat) (ops : List TableOp) (a : Nat) : Option Field :=
  if Retained maxCap maxCapLimit ops a then (insertions ops)[a]? else none

/-! ## The invariant -/

/-- `t` is the table behind the insertions of `log`. -/
structure Holds (log : List Field) (t : CountedTable) : Prop where
  inserts : t.totalInserts = log.length
  newest : t.entries <:+ indexed log
  counted : t.currentSize = total entrySize t.entries
  fits : t.currentSize ≤ t.maxCapacity
  limited : t.maxCapacity ≤ t.maxCapacityLimit

variable {t : CountedTable} {log : List Field} {f : Field} {op : TableOp} {a cap limit : Nat}

theorem indexed_concat (log : List Field) (f : Field) :
    indexed (log ++ [f]) = indexed log ++ [⟨f, log.length⟩] := by
  rw [indexed, indexed, mapIdx_append, mapIdx_cons, mapIdx_nil, Nat.zero_add]

theorem indexed_get : (indexed log)[a]? = (log[a]?).map fun f => ⟨f, a⟩ := getElem?_mapIdx

/-- With a right counter an eviction leaves the newest entries that fit. -/
theorem evict_eq (h : t.currentSize = total entrySize t.entries) :
    t.evict =
      { t with
        entries := EvictingQueue.evict entrySize t.maxCapacity t.entries
        currentSize := total entrySize
          (EvictingQueue.evict entrySize t.maxCapacity t.entries) } := by
  rw [CountedTable.evict, h, evictCounted_eq]

/-- A new table is empty. -/
theorem Holds.new (maxCap maxCapLimit : Nat) : Holds [] (.new maxCap maxCapLimit) where
  inserts := rfl
  newest := suffix_refl _
  counted := rfl
  fits := Nat.zero_le _
  limited := Nat.le_max_left _ _

/-- An eviction, whatever the capacity has become. -/
theorem Holds.evict (hinserts : t.totalInserts = log.length) (hnewest : t.entries <:+ indexed log)
    (hcounted : t.currentSize = total entrySize t.entries)
    (hlimited : t.maxCapacity ≤ t.maxCapacityLimit) : Holds log t.evict := by
  rw [evict_eq hcounted]
  exact ⟨hinserts, evict_suffix.trans hnewest, rfl, evict_total, hlimited⟩

/-- The entries with a new one behind them. -/
theorem Holds.newest_push (h : Holds log t) (f : Field) :
    t.entries ++ [⟨f, t.totalInserts⟩] <:+ indexed (log ++ [f]) := by
  obtain ⟨gone, hgone⟩ := h.newest
  rw [indexed_concat, ← hgone, h.inserts, append_assoc]
  exact suffix_append _ _

theorem Holds.counted_push (h : Holds log t) (f : Field) :
    t.currentSize + entrySize ⟨f, t.totalInserts⟩ =
      total entrySize (t.entries ++ [⟨f, t.totalInserts⟩]) := by
  rw [total_append, total_cons, h.counted]
  rfl

/-- An insertion evicts first what does not fit with it. -/
theorem Holds.insert (h : Holds log t) (f : Field) : Holds (log ++ [f]) (t.insert f) := by
  have hlength : t.totalInserts + 1 = (log ++ [f]).length := by
    rw [h.inserts, length_append, length_singleton]
  rw [CountedTable.insert]
  split
  · exact ⟨hlength, nil_suffix, rfl, Nat.zero_le _, h.limited⟩
  · exact Holds.evict hlength (h.newest_push f) (h.counted_push f) h.limited

/-! ## The table of the other modules -/

theorem evict_entries (cap : Nat) (entries : List Entry) :
    DynamicTable.evict cap entries = EvictingQueue.evict entrySize cap entries := by
  induction entries with
  | nil => rfl
  | cons e rest ih =>
    rw [DynamicTable.evict, EvictingQueue.evict, ih]
    rfl

/-- With a right counter the operations do to the entries what they do without it. -/
theorem Holds.view_insert (h : Holds log t) (f : Field) :
    (t.insert f).view = t.view.insert f := by
  rw [CountedTable.insert, DynamicTable.insert]
  show _ = (if fieldSize f > t.maxCapacity then _ else _)
  split
  · have hlarge : fieldSize f > t.maxCapacity := ‹_›
    rw [if_pos hlarge]
    rfl
  · have hlarge : ¬ fieldSize f > t.maxCapacity := ‹_›
    rw [if_neg hlarge, evict_eq (h.counted_push f), evict_entries]
    rfl

theorem Holds.view_setMaxCapacity (h : Holds log t) (cap : Nat) :
    t.view.setMaxCapacity cap =
      if cap > t.maxCapacityLimit then none else some (t.setMaxCapacity cap).view := by
  rw [CountedTable.setMaxCapacity, DynamicTable.setMaxCapacity]
  show (if cap > t.maxCapacityLimit then _ else _) = _
  split
  · rfl
  · have hcount : ({ t with maxCapacity := cap } : CountedTable).currentSize =
        total entrySize ({ t with maxCapacity := cap } : CountedTable).entries := h.counted
    rw [evict_eq hcount, evict_entries]
    rfl

theorem Holds.view_setMaxCapacityLimit (h : Holds log t) (limit : Nat) :
    (t.setMaxCapacityLimit limit).view = QpackTable.setMaxCapacityLimit t.view limit := by
  rw [CountedTable.setMaxCapacityLimit, QpackTable.setMaxCapacityLimit]
  show _ = (if t.maxCapacity > limit then _ else _)
  split
  · have hcount :
        ({ t with maxCapacityLimit := limit, maxCapacity := limit } : CountedTable).currentSize =
          total entrySize t.entries := h.counted
    rw [evict_eq hcount, evict_entries]
    rfl
  · rfl

/-! ## What is retained -/

variable {maxCap maxCapLimit : Nat} {ops : List TableOp}

theorem insertions_concat (ops : List TableOp) (op : TableOp) :
    insertions (ops ++ [op]) = insertions ops ++ insertions [op] := filterMap_append

/-- One more operation: what was retained has to fit once more. -/
theorem retained_concat : Retained maxCap maxCapLimit (ops ++ [op]) a ↔
    Retained maxCap maxCapLimit ops a ∧ (a < (insertions (ops ++ [op])).length →
      total fieldSize ((insertions (ops ++ [op])).drop a) ≤
        (capacities maxCap maxCapLimit (ops ++ [op])).1) := by
  have hlength : (ops ++ [op]).length = ops.length + 1 := length_append
  constructor
  · intro h
    constructor
    · intro n hn
      have hbefore := h n (by omega)
      rwa [take_append_of_le_length hn] at hbefore
    · have hlast := h (ops.length + 1) (by omega)
      rwa [← hlength, take_length] at hlast
  · rintro ⟨hbefore, hlast⟩ n hn
    rcases Nat.lt_or_ge ops.length n with hlt | hge
    · rw [take_of_length_le (by omega)]
      exact hlast
    · rw [take_append_of_le_length hge]
      exact hbefore n hge

/-- What is retained fits now. -/
theorem Retained.fits (h : Retained maxCap maxCapLimit ops a) :
    total fieldSize ((insertions ops).drop a) ≤ (capacities maxCap maxCapLimit ops).1 := by
  rcases Nat.lt_or_ge a (insertions ops).length with hlt | hge
  · have hnow := h ops.length (Nat.le_refl _)
    rw [take_length] at hnow
    exact hnow hlt
  · rw [drop_eq_nil_of_le hge]
    exact Nat.zero_le _

/-- An operation that inserts nothing and keeps the capacity evicts nothing. -/
theorem retained_concat_same (hinsert : insertions (ops ++ [op]) = insertions ops)
    (hcap : (capacities maxCap maxCapLimit (ops ++ [op])).1 =
      (capacities maxCap maxCapLimit ops).1) :
    Retained maxCap maxCapLimit (ops ++ [op]) a ↔ Retained maxCap maxCapLimit ops a := by
  rw [retained_concat, hinsert, hcap]
  exact ⟨fun h => h.1, fun h => ⟨h, fun _ => h.fits⟩⟩

/-- The indices weigh nothing. -/
theorem total_indexed (log : List Field) (a : Nat) :
    total entrySize ((indexed log).drop a) = total fieldSize (log.drop a) := by
  have hmap : (indexed log).map entrySize = log.map fieldSize := by
    refine ext_getElem? fun i => ?_
    rw [getElem?_map, indexed_get, getElem?_map, Option.map_map]
    rfl
  rw [total, total, map_drop, map_drop, hmap]

/-- An eviction: the entries left are those that were there and that fit from there on. -/
theorem evict_retained {entries : List Entry} (hnewest : entries <:+ indexed log) (cap a : Nat) :
    log.length ≤ a + (EvictingQueue.evict entrySize cap entries).length ↔
      log.length ≤ a + entries.length ∧ total fieldSize (log.drop a) ≤ cap := by
  obtain ⟨gone, hgone⟩ := hnewest
  have hlength := congrArg List.length hgone
  rw [length_append, indexed, length_mapIdx] at hlength
  have hshort : (EvictingQueue.evict entrySize cap entries).length ≤ entries.length :=
    evict_length_le
  rw [← total_indexed, ← hgone]
  rcases Nat.lt_or_ge a gone.length with hlt | hge
  · exact ⟨fun h => by omega, fun h => by omega⟩
  · have hdrop : (gone ++ entries).drop a = entries.drop (a - gone.length) := by
      rw [drop_append, drop_eq_nil_of_le hge, nil_append]
    rw [hdrop]
    rcases Nat.lt_or_ge entries.length (a - gone.length) with hbehind | hamong
    · rw [drop_eq_nil_of_le (Nat.le_of_lt hbehind)]
      exact ⟨fun _ => ⟨by omega, Nat.zero_le _⟩, fun _ => by omega⟩
    · have hkeeps : _ ↔ total entrySize (entries.drop (a - gone.length)) ≤ cap :=
        evict_keeps hamong
      constructor
      · intro h
        exact ⟨by omega, hkeeps.mp (by omega)⟩
      · intro h
        have hleft := hkeeps.mpr h.2
        omega

/-- `t` is the table behind the operations: the capacities are those that were set, and
    among the entries are the fields retained. -/
structure Tracks (maxCap maxCapLimit : Nat) (ops : List TableOp) (t : CountedTable) : Prop where
  holds : Holds (insertions ops) t
  bounds : (t.maxCapacity, t.maxCapacityLimit) = capacities maxCap maxCapLimit ops
  retained : ∀ a, (insertions ops).length ≤ a + t.entries.length ↔
    Retained maxCap maxCapLimit ops a

theorem capacities_concat (maxCap maxCapLimit : Nat) (ops : List TableOp) (op : TableOp) :
    capacities maxCap maxCapLimit (ops ++ [op]) =
      setCapacities (capacities maxCap maxCapLimit ops) op := by
  rw [capacities, foldl_append]
  rfl

theorem Tracks.new (maxCap maxCapLimit : Nat) :
    Tracks maxCap maxCapLimit [] (.new maxCap maxCapLimit) where
  holds := .new maxCap maxCapLimit
  bounds := rfl
  retained a := by
    refine ⟨fun _ n hn ha => ?_, fun _ => Nat.zero_le _⟩
    rw [take_nil] at ha
    exact absurd ha (Nat.not_lt_zero a)

/-- An operation that evicts with what has become the capacity. -/
theorem Tracks.evict (h : Tracks maxCap maxCapLimit ops t)
    (hinsert : insertions (ops ++ [op]) = insertions ops) {cap limit : Nat}
    (hcap : capacities maxCap maxCapLimit (ops ++ [op]) = (cap, limit))
    (hlimit : cap ≤ limit) :
    Tracks maxCap maxCapLimit (ops ++ [op])
      { t with maxCapacity := cap, maxCapacityLimit := limit }.evict := by
  have hcounted : ({ t with maxCapacity := cap, maxCapacityLimit := limit } :
      CountedTable).currentSize = total entrySize t.entries := h.holds.counted
  refine ⟨?_, ?_, fun a => ?_⟩
  · rw [hinsert]
    exact Holds.evict h.holds.inserts h.holds.newest h.holds.counted hlimit
  · rw [evict_eq hcounted, hcap]
  · rw [evict_eq hcounted, retained_concat, hinsert, hcap, ← h.retained,
      evict_retained h.holds.newest]
    refine and_congr_right fun _ => ⟨fun hfits _ => hfits, fun hfits => ?_⟩
    rcases Nat.lt_or_ge a (insertions ops).length with hlt | hge
    · exact hfits hlt
    · rw [drop_eq_nil_of_le hge]
      exact Nat.zero_le _

/-- An operation that leaves entries and capacity as they are. -/
theorem Tracks.keep (h : Tracks maxCap maxCapLimit ops t)
    (hinsert : insertions (ops ++ [op]) = insertions ops) {limit : Nat}
    (hcap : capacities maxCap maxCapLimit (ops ++ [op]) =
      (t.maxCapacity, limit)) (hlimit : t.maxCapacity ≤ limit) :
    Tracks maxCap maxCapLimit (ops ++ [op]) { t with maxCapacityLimit := limit } := by
  have hsame := congrArg Prod.fst h.bounds
  refine ⟨?_, hcap.symm, fun a => ?_⟩
  · rw [hinsert]
    exact ⟨h.holds.inserts, h.holds.newest, h.holds.counted, h.holds.fits, hlimit⟩
  · rw [retained_concat_same hinsert (by rw [hcap, ← hsame]), hinsert]
    exact h.retained a

/-- An insertion keeps what still fits with the new field. -/
theorem Tracks.insert (h : Tracks maxCap maxCapLimit ops t) (f : Field) :
    Tracks maxCap maxCapLimit (ops ++ [.insert f]) (t.insert f) := by
  have hlog : insertions (ops ++ [.insert f]) = insertions ops ++ [f] := insertions_concat _ _
  have hcap : capacities maxCap maxCapLimit (ops ++ [.insert f]) =
      (t.maxCapacity, t.maxCapacityLimit) := (capacities_concat _ _ _ _).trans h.bounds.symm
  have hinsert := h.holds.insert f
  have hlength : (insertions ops ++ [f]).length = (insertions ops).length + 1 :=
    length_append
  rw [← hlog] at hinsert
  refine ⟨hinsert, ?_, fun a => ?_⟩
  · rw [hcap, CountedTable.insert]
    split
    · rfl
    · rw [CountedTable.evict]
  · rw [retained_concat, hcap, ← h.retained, hlog, hlength, CountedTable.insert]
    split
    · -- too large for the table, which is emptied
      rename_i hlarge
      have hlarge : fieldSize f > t.maxCapacity := hlarge
      show (insertions ops).length + 1 ≤ a + 0 ↔ _
      refine ⟨fun h => ⟨by omega, fun hlt => by omega⟩, fun ⟨_, hfits⟩ => ?_⟩
      by_contra hlt
      have hfits := hfits (by omega)
      rw [drop_append_of_le_length (by omega), total_append, total_cons] at hfits
      dsimp only at hfits
      omega
    · rw [evict_eq (h.holds.counted_push f), ← hlength,
        evict_retained (h.holds.newest_push f), hlength]
      show _ + 1 ≤ a + (t.entries ++ [_]).length ∧ _ ↔ _
      rw [length_append, length_singleton]
      refine ⟨fun h => ⟨by omega, fun _ => h.2⟩, fun h => ⟨by omega, ?_⟩⟩
      rcases Nat.lt_or_ge a ((insertions ops).length + 1) with hlt | hge
      · exact h.2 hlt
      · rw [drop_eq_nil_of_le (by omega)]
        exact Nat.zero_le _

/-- A capacity above the limit is refused; another one keeps what fits into it. -/
theorem Tracks.setMaxCapacity (h : Tracks maxCap maxCapLimit ops t) (cap : Nat) :
    Tracks maxCap maxCapLimit (ops ++ [.setMaxCapacity cap]) (t.setMaxCapacity cap) := by
  have hinsert : insertions (ops ++ [.setMaxCapacity cap]) = insertions ops :=
    (insertions_concat _ _).trans (append_nil _)
  have hcap := capacities_concat maxCap maxCapLimit ops (.setMaxCapacity cap)
  rw [← h.bounds, setCapacities] at hcap
  dsimp only at hcap
  rw [CountedTable.setMaxCapacity]
  split
  · rw [if_pos ‹_›] at hcap
    exact h.keep hinsert hcap h.holds.limited
  · rw [if_neg ‹_›] at hcap
    exact h.evict hinsert hcap (Nat.not_lt.mp ‹_›)

/-- A limit below the capacity is a smaller capacity. -/
theorem Tracks.setMaxCapacityLimit (h : Tracks maxCap maxCapLimit ops t) (limit : Nat) :
    Tracks maxCap maxCapLimit (ops ++ [.setMaxCapacityLimit limit])
      (t.setMaxCapacityLimit limit) := by
  have hinsert : insertions (ops ++ [.setMaxCapacityLimit limit]) = insertions ops :=
    (insertions_concat _ _).trans (append_nil _)
  have hcap := capacities_concat maxCap maxCapLimit ops (.setMaxCapacityLimit limit)
  rw [← h.bounds, setCapacities] at hcap
  rw [CountedTable.setMaxCapacityLimit]
  split
  · rename_i hover
    rw [Nat.min_eq_right (Nat.le_of_lt hover)] at hcap
    exact h.evict hinsert hcap (Nat.le_refl _)
  · rename_i hwithin
    rw [Nat.min_eq_left (Nat.not_lt.mp hwithin)] at hcap
    exact h.keep hinsert hcap (Nat.not_lt.mp hwithin)

/-- Any operations on a new table. -/
theorem Tracks.run (maxCap maxCapLimit : Nat) (ops : List TableOp) :
    Tracks maxCap maxCapLimit ops ((CountedTable.new maxCap maxCapLimit).run ops) := by
  induction ops using List.reverseRecOn with
  | nil => exact .new maxCap maxCapLimit
  | append_singleton ops op ih =>
    rw [CountedTable.run, foldl_append]
    cases op with
    | insert f => exact ih.insert f
    | setMaxCapacity cap => exact ih.setMaxCapacity cap
    | setMaxCapacityLimit limit => exact ih.setMaxCapacityLimit limit

/-! ## Lookups -/

/-- Indices are consecutive and end at the last insertion. -/
theorem Holds.consecutive (h : Holds log t) {i : Nat} {e : Entry} (he : t.entries[i]? = some e) :
    e.absoluteIndex + t.entries.length = t.totalInserts + i ∧
      log[e.absoluteIndex]? = some e.field := by
  obtain ⟨gone, hgone⟩ := h.newest
  have hlength := congrArg List.length hgone
  rw [length_append, indexed, length_mapIdx] at hlength
  have hget : (indexed log)[gone.length + i]? = some e := by
    rw [← hgone, getElem?_append_right (Nat.le_add_right _ _), Nat.add_sub_cancel_left, he]
  rw [indexed_get] at hget
  obtain ⟨f, hf, rfl⟩ := Option.map_eq_some_iff.mp hget
  rw [h.inserts]
  exact ⟨by dsimp only; omega, hf⟩

/-- The absolute indices of the entries follow one another. -/
theorem Holds.valid (h : Holds log t) : Valid t.view where
  indexed _ _ he := (h.consecutive he).1
  fits := Nat.le_trans (Nat.le_of_eq h.counted.symm) h.fits

/-- `get_by_absolute_index` finds the field inserted under the index while it is there. -/
theorem Holds.getByAbsoluteIndex (h : Holds log t) (a : Nat) :
    t.view.getByAbsoluteIndex a =
      if log.length ≤ a + t.entries.length then log[a]? else none := by
  have hsuffix := h.newest.length_le
  rw [indexed, length_mapIdx] at hsuffix
  refine Option.ext fun f => ?_
  rw [h.valid.get_iff]
  constructor
  · intro hmem
    obtain ⟨i, hi⟩ := mem_iff_getElem?.mp hmem
    obtain ⟨hindex, hlog⟩ := h.consecutive hi
    rw [h.inserts] at hindex
    have hindex : a + t.entries.length = log.length + i := hindex
    rw [if_pos (by omega)]
    exact hlog
  · intro hpresent
    split at hpresent
    · rename_i hle
      obtain ⟨hlt, -⟩ := List.getElem?_eq_some_iff.mp hpresent
      have hi : a + t.entries.length - log.length < t.entries.length := by omega
      have hget := getElem?_eq_getElem hi
      obtain ⟨hindex, hlog⟩ := h.consecutive hget
      rw [h.inserts] at hindex
      generalize t.entries[a + t.entries.length - log.length] = e at hget hindex hlog
      have ha : e.absoluteIndex = a := by omega
      rw [ha, hpresent] at hlog
      have hentry : e = ⟨f, a⟩ := by rw [Option.some.inj hlog, ← ha]
      exact hentry ▸ mem_of_getElem? hget
    · cases hpresent

/-- It finds the fields that the operations retain. -/
theorem Tracks.getByAbsoluteIndex (h : Tracks maxCap maxCapLimit ops t) (a : Nat) :
    t.view.getByAbsoluteIndex a = present maxCap maxCapLimit ops a := by
  rw [h.holds.getByAbsoluteIndex, present]
  by_cases hkept : Retained maxCap maxCapLimit ops a
  · rw [if_pos hkept, if_pos ((h.retained a).mpr hkept)]
  · rw [if_neg hkept, if_neg (mt (h.retained a).mp hkept)]

/-- After any operations on a new table: the absolute indices of the entries are consecutive
    and end before `total_inserts_`, the counter is the size of the entries, the capacity
    holds it and is within its limit, and the lookups find the field that was inserted under
    an absolute index exactly as long as it has not been evicted. -/
theorem dynamic_table_represents (maxCap maxCapLimit : Nat) (ops : List TableOp) :
    let t := (CountedTable.new maxCap maxCapLimit).run ops
    let found := present maxCap maxCapLimit ops
    t.totalInserts = (insertions ops).length ∧
      (∀ i e, t.entries[i]? = some e → e.absoluteIndex + t.entries.length = t.totalInserts + i) ∧
      t.currentSize = (t.entries.map entrySize).sum ∧
      t.currentSize ≤ t.maxCapacity ∧ t.maxCapacity ≤ t.maxCapacityLimit ∧
      (t.maxCapacity, t.maxCapacityLimit) = capacities maxCap maxCapLimit ops ∧
      (∀ a, t.view.getByAbsoluteIndex a = found a) ∧
      (∀ base i, t.view.getRelative base i =
        if i < base then found (base - 1 - i) else none) ∧
      ∀ base i, base < 2 ^ 64 → t.view.getPostBase base i =
        if base + i < 2 ^ 64 then found (base + i) else none := by
  intro t found
  have htracks : Tracks maxCap maxCapLimit ops t := .run maxCap maxCapLimit ops
  have h := htracks.holds
  refine ⟨h.inserts, fun i e he => (h.consecutive he).1, h.counted, h.fits, h.limited,
    htracks.bounds, htracks.getByAbsoluteIndex, fun base i => ?_, fun base i hbase => ?_⟩
  · rw [DynamicTable.getRelative, htracks.getByAbsoluteIndex]
    by_cases hlt : i < base
    · rw [if_pos hlt, if_neg (by omega)]
    · rw [if_neg hlt, if_pos (by omega)]
  · rw [DynamicTable.getPostBase, htracks.getByAbsoluteIndex]
    by_cases hlt : base + i < 2 ^ 64
    · rw [if_pos hlt, if_neg (by omega)]
    · rw [if_neg hlt, if_pos (by omega)]

/-- Of three fields of 34 octets the first leaves a table of 80. -/
example :
    let f : Field := ([97], [98])
    let found := present 80 80 [.insert f, .insert f, .insert f]
    found 0 = none ∧ found 1 = some f ∧ found 3 = none := by decide

end QpackTableHistory
