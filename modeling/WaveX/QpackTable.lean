import WaveX.HttpText
import WaveX.Qpack

/-! # The dynamic table of QPACK

    What holds of every table that insertions, capacity changes and evictions lead to:
    its entries have consecutive absolute indices that end at the insert count, and they
    fit the capacity, so there are at most `max_capacity / 32` of them.  Together these
    bound how far the entries lag behind the insert count, which is what the modulus of
    the Required Insert Count relies on. -/

namespace QpackTable

open QuicVarInt HttpText Qpack Qpack.DynamicTable List
open Hpack (Field fieldSize)

/-! ## Operations -/

/-- `set_max_capacity_limit`. -/
def setMaxCapacityLimit (t : DynamicTable) (limit : Nat) : DynamicTable :=
  if t.maxCapacity > limit then
    { t with maxCapacityLimit := limit, maxCapacity := limit, entries := evict limit t.entries }
  else { t with maxCapacityLimit := limit }

/-- The loop of `find` over the entries, newest first; `nameAbs` is the first of them with
    the name. -/
def searchEntries (name value : Bytes) : Option Nat → List Entry → Nat × Bool × Bool
  | none, [] => (0, false, false)
  | some abs, [] => (abs, false, true)
  | nameAbs, e :: rest =>
      if isEqual e.field.1 name then
        if e.field.2 = value then (e.absoluteIndex, true, true)
        else searchEntries name value (nameAbs <|> some e.absoluteIndex) rest
      else searchEntries name value nameAbs rest

/-- `find`: the absolute index of an entry, whether its value matches and whether there is
    one. -/
def find (t : DynamicTable) (name value : Bytes) : Nat × Bool × Bool :=
  searchEntries name value none t.entries.reverse

/-- Tables that the operations lead to from a new one, when every field inserted is one
    that `P` holds of.  Capacities are of the type `std::size_t`. -/
inductive Reachable (P : Field → Prop) : DynamicTable → Prop where
  | new {maxCap maxCapLimit : Nat} (hcap : maxCap < 2 ^ 64) (hlimit : maxCapLimit < 2 ^ 64) :
      Reachable P { maxCapacity := maxCap, maxCapacityLimit := max maxCap maxCapLimit }
  | insert {t : DynamicTable} {f : Field} (h : Reachable P t) (hf : P f) :
      Reachable P (t.insert f)
  | setMaxCapacity {t t' : DynamicTable} {cap : Nat} (h : Reachable P t)
      (hset : t.setMaxCapacity cap = some t') : Reachable P t'
  | setMaxCapacityLimit {t : DynamicTable} {limit : Nat} (h : Reachable P t)
      (hlimit : limit < 2 ^ 64) : Reachable P (setMaxCapacityLimit t limit)

/-! ## Eviction -/

/-- What is left of the entries is a suffix of them. -/
theorem evict_suffix (cap : Nat) (entries : List Entry) : evict cap entries <:+ entries := by
  induction entries with
  | nil => exact suffix_refl []
  | cons e rest ih =>
    rw [evict]
    split
    · exact ih.trans (suffix_cons e rest)
    · exact suffix_refl _

theorem evict_fits (cap : Nat) (entries : List Entry) :
    currentSize (evict cap entries) ≤ cap := by
  induction entries with
  | nil => exact Nat.zero_le cap
  | cons e rest ih =>
    rw [evict]
    split
    · exact ih
    · exact Nat.not_lt.mp ‹_›

/-- An entry takes 32 octets at least. -/
theorem length_le_currentSize (entries : List Entry) :
    entries.length * 32 ≤ currentSize entries := by
  induction entries with
  | nil => exact Nat.le_refl 0
  | cons e rest ih =>
    rw [currentSize, map_cons, sum_cons, length_cons, fieldSize]
    rw [currentSize] at ih
    omega

/-! ## The invariant -/

/-- Absolute indices are consecutive, and the newest is the last insertion. -/
def Indexed (totalInserts : Nat) (entries : List Entry) : Prop :=
  ∀ i e, entries[i]? = some e → e.absoluteIndex + entries.length = totalInserts + i

/-- The invariant of a table. -/
structure Valid (t : DynamicTable) : Prop where
  indexed : Indexed t.totalInserts t.entries
  fits : currentSize t.entries ≤ t.maxCapacity

variable {t : DynamicTable}

theorem Indexed.suffix {total : Nat} {old new : List Entry} (h : Indexed total old)
    (hsuffix : new <:+ old) : Indexed total new := by
  obtain ⟨evicted, rfl⟩ := hsuffix
  intro i e he
  have hold : (evicted ++ new)[evicted.length + i]? = some e := by
    rw [getElem?_append_right (Nat.le_add_right _ _), Nat.add_sub_cancel_left]
    exact he
  have hindex := h _ e hold
  rw [length_append] at hindex
  omega

theorem Indexed.push {total : Nat} {entries : List Entry} (h : Indexed total entries)
    (f : Field) : Indexed (total + 1) (entries ++ [⟨f, total⟩]) := by
  intro i e he
  rw [length_append, length_singleton]
  by_cases hlt : i < entries.length
  · rw [getElem?_append_left hlt] at he
    have hindex := h i e he
    omega
  · rw [getElem?_append_right (Nat.not_lt.mp hlt)] at he
    obtain ⟨hzero, hentry⟩ := List.getElem?_eq_some_iff.mp he
    rw [length_singleton] at hzero
    have hlast : i - entries.length = 0 := by omega
    simp only [hlast, getElem_cons_zero] at hentry
    subst hentry
    show total + (entries.length + 1) = total + 1 + i
    omega

theorem Valid.empty {total cap limit : Nat} : Valid ⟨[], total, cap, limit⟩ := by
  constructor
  · intro i e he
    rw [getElem?_nil] at he
    cases he
  · exact Nat.zero_le cap

theorem Valid.insert (h : Valid t) (f : Field) : Valid (t.insert f) := by
  rw [DynamicTable.insert]
  split
  · exact Valid.empty
  · exact ⟨(h.indexed.push f).suffix (evict_suffix _ _), evict_fits _ _⟩

theorem Valid.evict (h : Valid t) (cap limit : Nat) :
    Valid ⟨evict cap t.entries, t.totalInserts, cap, limit⟩ :=
  ⟨h.indexed.suffix (evict_suffix _ _), evict_fits _ _⟩

theorem Valid.setMaxCapacity {t' : DynamicTable} {cap : Nat} (h : Valid t)
    (hset : t.setMaxCapacity cap = some t') : Valid t' := by
  rw [DynamicTable.setMaxCapacity] at hset
  split at hset
  · cases hset
  · obtain rfl := Option.some.inj hset
    exact h.evict cap t.maxCapacityLimit

theorem Valid.setMaxCapacityLimit (h : Valid t) (limit : Nat) :
    Valid (setMaxCapacityLimit t limit) := by
  rw [QpackTable.setMaxCapacityLimit]
  split
  · exact h.evict limit limit
  · exact ⟨h.indexed, h.fits⟩

theorem Reachable.valid {P : Field → Prop} (h : Reachable P t) : Valid t := by
  induction h with
  | new _ _ => exact Valid.empty
  | insert _ _ ih => exact ih.insert _
  | setMaxCapacity _ hset ih => exact ih.setMaxCapacity hset
  | setMaxCapacityLimit _ _ ih => exact ih.setMaxCapacityLimit _

/-- The entries after an operation are among those before it and the one inserted. -/
theorem insert_entries (t : DynamicTable) (f : Field) :
    (t.insert f).entries <:+ t.entries ++ [⟨f, t.totalInserts⟩] := by
  rw [DynamicTable.insert]
  split
  · exact nil_suffix
  · exact evict_suffix _ _

theorem setMaxCapacity_entries {t' : DynamicTable} {cap : Nat}
    (hset : t.setMaxCapacity cap = some t') : t'.entries <:+ t.entries := by
  rw [DynamicTable.setMaxCapacity] at hset
  split at hset
  · cases hset
  · obtain rfl := Option.some.inj hset
    exact evict_suffix _ _

theorem setMaxCapacityLimit_entries (t : DynamicTable) (limit : Nat) :
    (setMaxCapacityLimit t limit).entries <:+ t.entries := by
  rw [setMaxCapacityLimit]
  split
  · exact evict_suffix _ _
  · exact suffix_refl _

/-- What holds of every field inserted holds of every entry. -/
theorem Reachable.fields {P : Field → Prop} (h : Reachable P t) :
    ∀ e ∈ t.entries, P e.field := by
  induction h with
  | new _ _ =>
    intro e he
    cases he
  | @insert t f _ hf ih =>
    intro e he
    have hmem := (insert_entries t f).subset he
    obtain hold | hnew := mem_append.mp hmem
    · exact ih e hold
    · obtain rfl := mem_singleton.mp hnew
      exact hf
  | setMaxCapacity _ hset ih =>
    intro e he
    exact ih e ((setMaxCapacity_entries hset).subset he)
  | setMaxCapacityLimit _ _ ih =>
    intro e he
    exact ih e ((setMaxCapacityLimit_entries _ _).subset he)

/-- The capacity stays within its limit, a `std::size_t`. -/
theorem Reachable.capacity {P : Field → Prop} (h : Reachable P t) :
    t.maxCapacity ≤ t.maxCapacityLimit ∧ t.maxCapacityLimit < 2 ^ 64 := by
  induction h with
  | new hcap hlimit => exact ⟨Nat.le_max_left _ _, Nat.max_lt.mpr ⟨hcap, hlimit⟩⟩
  | insert _ _ ih =>
    rw [DynamicTable.insert]
    split <;> exact ih
  | setMaxCapacity _ hset ih =>
    rw [DynamicTable.setMaxCapacity] at hset
    split at hset
    · cases hset
    · obtain rfl := Option.some.inj hset
      exact ⟨Nat.not_lt.mp ‹_›, ih.2⟩
  | setMaxCapacityLimit _ hlimit ih =>
    rw [QpackTable.setMaxCapacityLimit]
    split
    · exact ⟨Nat.le_refl _, hlimit⟩
    · exact ⟨Nat.not_lt.mp ‹_›, hlimit⟩

/-! ## Entries by absolute index -/

/-- Entries lag behind the insert count by less than the capacity allows. -/
theorem Valid.entry_bounds (h : Valid t) {e : Entry} (he : e ∈ t.entries) :
    e.absoluteIndex < t.totalInserts ∧
      t.totalInserts ≤ e.absoluteIndex + t.maxCapacity / 32 := by
  obtain ⟨i, hi, hentry⟩ := mem_iff_getElem.mp he
  have hindex := h.indexed i e (List.getElem?_eq_some_iff.mpr ⟨hi, hentry⟩)
  have hcount : t.entries.length ≤ t.maxCapacity / 32 := by
    rw [Nat.le_div_iff_mul_le (by decide)]
    exact Nat.le_trans (length_le_currentSize t.entries) h.fits
  omega

/-- `get_by_absolute_index` finds the entry with the index. -/
theorem Valid.get_iff (h : Valid t) {absIdx : Nat} {f : Field} :
    t.getByAbsoluteIndex absIdx = some f ↔ ⟨f, absIdx⟩ ∈ t.entries := by
  have hindexed := h.indexed
  rw [getByAbsoluteIndex]
  cases hentries : t.entries with
  | nil =>
    constructor
    · intro hget
      cases hget
    · intro hmem
      cases hmem
  | cons oldest rest =>
    rw [hentries] at hindexed
    have holdest := hindexed 0 oldest rfl
    obtain ⟨newest, hnewest⟩ : ∃ newest, (oldest :: rest).getLast? = some newest :=
      ⟨_, getLast?_eq_some_getLast (cons_ne_nil _ _)⟩
    have hlast := hindexed _ newest (by rw [← getLast?_eq_getElem?]; exact hnewest)
    rw [length_cons] at holdest hlast
    rw [head?_cons, hnewest]
    dsimp only
    constructor
    · intro hget
      split at hget
      · cases hget
      · rename_i hbounds
        obtain ⟨e, he, rfl⟩ := Option.map_eq_some_iff.mp hget
        have hindex := hindexed _ e he
        rw [length_cons] at hindex
        have habs : e.absoluteIndex = absIdx := by omega
        rw [← habs]
        exact mem_of_getElem? he
    · intro hmem
      obtain ⟨i, hi⟩ := mem_iff_getElem?.mp hmem
      have hindex := hindexed i _ hi
      have hlt := (List.getElem?_eq_some_iff.mp hi).1
      rw [length_cons] at hindex hlt
      dsimp only at hindex
      have hoffset : absIdx - oldest.absoluteIndex = i := by omega
      rw [if_neg (by omega), hoffset, hi]
      rfl

/-! ## Search -/

/-- An entry has the absolute index and, up to case, the name. -/
def Named (t : DynamicTable) (name : Bytes) (abs : Nat) : Prop :=
  ∃ e ∈ t.entries, e.absoluteIndex = abs ∧ isEqual e.field.1 name = true

theorem searchEntries_spec (name value : Bytes) {entries : List Entry} {nameAbs : Option Nat}
    (hsub : ∀ e ∈ entries, e ∈ t.entries) (hname : ∀ abs ∈ nameAbs, Named t name abs) :
    (∃ e ∈ t.entries, isEqual e.field.1 name = true ∧ e.field.2 = value ∧
        searchEntries name value nameAbs entries = (e.absoluteIndex, true, true)) ∨
      (∃ abs, Named t name abs ∧
        searchEntries name value nameAbs entries = (abs, false, true)) ∨
      searchEntries name value nameAbs entries = (0, false, false) := by
  induction entries generalizing nameAbs with
  | nil =>
    cases nameAbs with
    | none => exact .inr (.inr rfl)
    | some abs => exact .inr (.inl ⟨abs, hname abs rfl, rfl⟩)
  | cons e rest ih =>
    have hrest : ∀ e' ∈ rest, e' ∈ t.entries := fun e' he' => hsub e' (mem_cons_of_mem _ he')
    have hmem := hsub e mem_cons_self
    rw [searchEntries]
    split
    · rename_i hequal
      split
      · rename_i hvalue
        exact .inl ⟨e, hmem, hequal, hvalue, rfl⟩
      · refine ih hrest ?_
        intro abs habs
        cases nameAbs with
        | none =>
          obtain rfl := Option.some.inj habs
          exact ⟨e, hmem, rfl, hequal⟩
        | some abs' => exact hname abs habs
    · exact ih hrest hname

/-- `find` returns an entry with the name and the value, or one with the name, or none. -/
theorem find_spec (t : DynamicTable) (name value : Bytes) :
    (∃ e ∈ t.entries, isEqual e.field.1 name = true ∧ e.field.2 = value ∧
        find t name value = (e.absoluteIndex, true, true)) ∨
      (∃ abs, Named t name abs ∧ find t name value = (abs, false, true)) ∨
      find t name value = (0, false, false) := by
  apply searchEntries_spec
  · intro e he
    exact mem_reverse.mp he
  · intro abs habs
    cases habs

end QpackTable
