import Mathlib.Data.List.Nodup
import Mathlib.Data.List.Perm.Basic

/-! # The flat map

    `FlatMap<K, V>` of `FlatMap.hpp`: pairs in the order in which their keys came, searched
    from the front.  The inline array and the overflow vector are one list here.  No key
    occurs twice, so what a map holds is settled by what `find` gives for each key. -/

namespace FlatMap

open List

variable {κ β : Type*} [DecidableEq κ]

/-- The pairs of a map; `insert_or_assign` is the only way in. -/
@[ext] structure Map (κ β : Type*) where
  entries : List (κ × β)
  keys_nodup : (entries.map Prod.fst).Nodup

/-- `FlatMap::find`, over the pairs. -/
def lookup : List (κ × β) → κ → Option β
  | [], _ => none
  | e :: rest, key => if e.1 = key then some e.2 else lookup rest key

/-- `FlatMap::find`. -/
def find (map : Map κ β) (key : κ) : Option β := lookup map.entries key

/-- Update in place, of the pair with that key. -/
def assign (entries : List (κ × β)) (key : κ) (value : β) : List (κ × β) :=
  entries.map fun e => if e.1 = key then (key, value) else e

theorem assign_keys (entries : List (κ × β)) (key : κ) (value : β) :
    (assign entries key value).map Prod.fst = entries.map Prod.fst := by
  rw [assign, map_map]
  refine map_congr_left ?_
  intro e _
  show (if e.1 = key then (key, value) else e).1 = e.1
  split
  · next h => exact h.symm
  · rfl

/-- `FlatMap::insert_or_assign`: a key that is there keeps its place. -/
def insertOrAssign (map : Map κ β) (key : κ) (value : β) : Map κ β :=
  if h : key ∈ map.entries.map Prod.fst then
    ⟨assign map.entries key value, by rw [assign_keys]; exact map.keys_nodup⟩
  else
    ⟨map.entries ++ [(key, value)], by
      rw [map_append]
      exact map.keys_nodup.append (nodup_singleton _)
        (disjoint_singleton.mpr h)⟩

/-- The empty map. -/
def empty : Map κ β := ⟨[], nodup_nil⟩

/-- The pairs inserted one after the other. -/
def insertAll (entries : List (κ × β)) : Map κ β :=
  entries.foldl (fun map e => insertOrAssign map e.1 e.2) empty

/-- A map rebuilt without a key, as `backtrack_param` does. -/
def without (map : Map κ β) (key : κ) : Map κ β :=
  insertAll (map.entries.filter fun e => decide (e.1 ≠ key))

/-! ## Values -/

section

variable {γ : Type*} (f : β → γ)

/-- A map with other values under its keys. -/
def mapValues (map : Map κ β) : Map κ γ :=
  ⟨map.entries.map fun e => (e.1, f e.2), by
    rw [map_map]
    exact map.keys_nodup⟩

omit [DecidableEq κ] in
@[simp] theorem mapValues_empty : mapValues f (empty : Map κ β) = empty := rfl

theorem mapValues_insertOrAssign (map : Map κ β) (key : κ) (value : β) :
    mapValues f (insertOrAssign map key value) =
      insertOrAssign (mapValues f map) key (f value) := by
  have hkeys : (mapValues f map).entries.map Prod.fst = map.entries.map Prod.fst := by
    rw [mapValues, map_map]
    rfl
  refine Map.ext ?_
  rw [mapValues, insertOrAssign, insertOrAssign]
  by_cases h : key ∈ map.entries.map Prod.fst
  · rw [dif_pos h, dif_pos (hkeys ▸ h)]
    dsimp only
    rw [assign, assign, mapValues, map_map, map_map]
    refine map_congr_left ?_
    intro e _
    show ((if e.1 = key then (key, value) else e).1, _) = if e.1 = key then _ else _
    by_cases he : e.1 = key
    · simp [he]
    · simp [he]
  · rw [dif_neg h, dif_neg (hkeys ▸ h)]
    dsimp only
    rw [mapValues, map_append]
    rfl

theorem mapValues_without (map : Map κ β) (key : κ) :
    mapValues f (without map key) = without (mapValues f map) key := by
  have hfold : ∀ (entries : List (κ × β)) (start : Map κ β),
      mapValues f (entries.foldl (fun m e => insertOrAssign m e.1 e.2) start) =
        (entries.map fun e => (e.1, f e.2)).foldl (fun m e => insertOrAssign m e.1 e.2)
          (mapValues f start) := by
    intro entries
    induction entries with
    | nil => intro start; rfl
    | cons e rest ih =>
      intro start
      rw [foldl_cons, ih, mapValues_insertOrAssign, map_cons, foldl_cons]
  rw [without, insertAll, hfold, without, insertAll, mapValues_empty]
  congr 1
  rw [mapValues, filter_map]
  rfl

end

/-- A map that was inserted into is not empty. -/
theorem entries_insertOrAssign_ne_nil (map : Map κ β) (key : κ) (value : β) :
    (insertOrAssign map key value).entries ≠ [] := by
  rw [insertOrAssign]
  split
  · next h =>
    intro hnil
    rw [map_eq_nil_iff.mp hnil] at h
    exact not_mem_nil h
  · exact append_ne_nil_of_right_ne_nil _ (cons_ne_nil _ _)

/-- Every value of a map has the property. -/
def AllValues (P : β → Prop) (map : Map κ β) : Prop := ∀ e ∈ map.entries, P e.2

omit [DecidableEq κ] in
theorem allValues_empty (P : β → Prop) : AllValues P (empty : Map κ β) :=
  fun _ he => absurd he not_mem_nil

theorem AllValues.insertOrAssign {P : β → Prop} {map : Map κ β} (h : AllValues P map) (key : κ)
    {value : β} (hvalue : P value) : AllValues P (insertOrAssign map key value) := by
  intro e he
  rw [FlatMap.insertOrAssign] at he
  split at he
  · obtain ⟨x, hx, rfl⟩ := mem_map.mp he
    show P (if x.1 = key then (key, value) else x).2
    split
    · exact hvalue
    · exact h x hx
  · rcases mem_append.mp he with he | he
    · exact h e he
    · rw [mem_singleton.mp he]
      exact hvalue

theorem AllValues.without {P : β → Prop} {map : Map κ β} (h : AllValues P map) (key : κ) :
    AllValues P (without map key) := by
  have hfold : ∀ (entries : List (κ × β)) (start : Map κ β), AllValues P start →
      (∀ e ∈ entries, P e.2) →
      AllValues P (entries.foldl (fun m e => FlatMap.insertOrAssign m e.1 e.2) start) := by
    intro entries
    induction entries with
    | nil => intro start hstart _; exact hstart
    | cons e rest ih =>
      intro start hstart hall
      exact ih _ (hstart.insertOrAssign e.1 (hall e mem_cons_self))
        fun x hx => hall x (mem_cons_of_mem _ hx)
  exact hfold _ _ (allValues_empty P) fun e he => h e (mem_of_mem_filter he)

/-! ## What find gives -/

theorem lookup_eq_none_iff (entries : List (κ × β)) (key : κ) :
    lookup entries key = none ↔ key ∉ entries.map Prod.fst := by
  induction entries with
  | nil => simp [lookup]
  | cons e rest ih =>
    by_cases h : e.1 = key
    · simp [lookup, h]
    · have h' : ¬ key = e.1 := fun he => h he.symm
      simp only [lookup, if_neg h, ih, map_cons, mem_cons, h', false_or]

theorem lookup_append (front back : List (κ × β)) (key : κ) :
    lookup (front ++ back) key = (lookup front key).or (lookup back key) := by
  induction front with
  | nil => rfl
  | cons e rest ih =>
    by_cases h : e.1 = key
    · simp [lookup, h]
    · simpa [lookup, h] using ih

theorem lookup_assign (entries : List (κ × β)) (key : κ) (value : β)
    (h : key ∈ entries.map Prod.fst) (key' : κ) :
    lookup (assign entries key value) key' =
      if key' = key then some value else lookup entries key' := by
  induction entries with
  | nil => exact absurd h not_mem_nil
  | cons e rest ih =>
    by_cases he : e.1 = key
    · by_cases hk : key' = key
      · simp [assign, lookup, he, hk]
      · have hk' : ¬ key = key' := fun h => hk h.symm
        -- the rest keeps what it gives for every other key
        have hrest : lookup (assign rest key value) key' = lookup rest key' := by
          by_cases hr : key ∈ rest.map Prod.fst
          · rw [ih hr, if_neg hk]
          · have hsame : assign rest key value = rest := by
              rw [assign]
              refine (map_congr_left ?_).trans (map_id _)
              intro x hx
              have hne : x.1 ≠ key := fun hxk => hr (hxk ▸ mem_map_of_mem hx)
              rw [if_neg hne, id]
            rw [hsame]
        simpa [assign, lookup, he, hk, hk'] using hrest
    · have hr : key ∈ rest.map Prod.fst := by
        rcases mem_cons.mp (map_cons ▸ h) with h | h
        · exact absurd h.symm he
        · exact h
      by_cases hk : e.1 = key'
      · have hkk : ¬ key' = key := fun h => he (hk.trans h)
        simp [assign, lookup, hk, hkk]
      · simpa [assign, lookup, he, hk] using ih hr

/-- A pair inserted is found, and every other key gives what it gave. -/
@[simp] theorem find_insertOrAssign (map : Map κ β) (key : κ) (value : β) (key' : κ) :
    find (insertOrAssign map key value) key' =
      if key' = key then some value else find map key' := by
  rw [insertOrAssign]
  split
  · next h => exact lookup_assign map.entries key value h key'
  · next h =>
    show lookup (map.entries ++ [(key, value)]) key' = _
    rw [lookup_append]
    by_cases hk : key' = key
    · subst hk
      rw [(lookup_eq_none_iff _ _).mpr h]
      simp [lookup]
    · have hk' : ¬ key = key' := fun h => hk h.symm
      simp [lookup, hk, hk', find]

@[simp] theorem find_empty (key : κ) : find (empty : Map κ β) key = none := rfl

theorem find_foldl_insert (entries : List (κ × β)) (map : Map κ β) (key : κ)
    (hn : (entries.map Prod.fst).Nodup) :
    find (entries.foldl (fun map e => insertOrAssign map e.1 e.2) map) key =
      (lookup entries key).or (find map key) := by
  induction entries generalizing map with
  | nil => rfl
  | cons e rest ih =>
    rw [map_cons, nodup_cons] at hn
    rw [foldl_cons, ih _ hn.2, find_insertOrAssign]
    by_cases h : e.1 = key
    · subst h
      rw [(lookup_eq_none_iff _ _).mpr hn.1]
      simp [lookup]
    · have h' : ¬ key = e.1 := fun he => h he.symm
      simp [lookup, h, h']

/-- The pairs inserted last are found. -/
theorem find_foldl_last (entries : List (κ × β)) (map : Map κ β) (key : κ) :
    find (entries.foldl (fun map e => insertOrAssign map e.1 e.2) map) key =
      (lookup entries.reverse key).or (find map key) := by
  induction entries generalizing map with
  | nil => rfl
  | cons e rest ih =>
    rw [foldl_cons, ih, find_insertOrAssign, reverse_cons, lookup_append]
    by_cases h : e.1 = key
    · simp [lookup, h]
    · have h' : ¬ key = e.1 := fun he => h he.symm
      simp [lookup, h, h']

theorem find_insertAll (entries : List (κ × β)) (key : κ) :
    find (insertAll entries) key = lookup entries.reverse key := by
  rw [insertAll, find_foldl_last, find_empty, Option.or_none]

theorem lookup_filter_ne (entries : List (κ × β)) (key key' : κ) :
    lookup (entries.filter fun e => decide (e.1 ≠ key)) key' =
      if key' = key then none else lookup entries key' := by
  induction entries with
  | nil => simp [lookup]
  | cons e rest ih =>
    by_cases he : e.1 = key
    · rw [filter_cons_of_neg (by simp [he]), ih]
      by_cases hk : key' = key
      · rw [if_pos hk, if_pos hk]
      · have hek : ¬ e.1 = key' := fun h => hk (h.symm.trans he)
        simp [lookup, hk, hek]
    · rw [filter_cons_of_pos (by simp [he])]
      by_cases hk : e.1 = key'
      · have hkk : ¬ key' = key := fun h => he (hk.trans h)
        simp [lookup, hk, hkk]
      · simpa [lookup, hk] using ih

/-- The map rebuilt without a key has lost that key only. -/
@[simp] theorem find_without (map : Map κ β) (key key' : κ) :
    find (without map key) key' = if key' = key then none else find map key' := by
  have hn : ((map.entries.filter fun e => decide (e.1 ≠ key)).map Prod.fst).Nodup :=
    map.keys_nodup.sublist (filter_sublist.map _)
  rw [without, insertAll, find_foldl_insert _ _ _ hn, lookup_filter_ne, find_empty, Option.or_none,
    find]

theorem mem_iff_lookup {entries : List (κ × β)} (hn : (entries.map Prod.fst).Nodup) (e : κ × β) :
    e ∈ entries ↔ lookup entries e.1 = some e.2 := by
  induction entries with
  | nil => simp [lookup]
  | cons f rest ih =>
    rw [map_cons, nodup_cons] at hn
    by_cases h : f.1 = e.1
    · have hrest : e ∉ rest := fun he => hn.1 (h ▸ mem_map_of_mem he)
      simp only [mem_cons, hrest, or_false, lookup, if_pos h, Option.some.injEq]
      exact ⟨fun he => by rw [he], fun he => Prod.ext h.symm he.symm⟩
    · have hne : ¬ e = f := fun he => h (by rw [he])
      simp only [mem_cons, hne, false_or, lookup, if_neg h, ih hn.2]

/-- A map holds exactly the pairs of a list without repeated keys when both give the same
    for every key. -/
theorem entries_perm_iff (map : Map κ β) {entries : List (κ × β)}
    (hn : (entries.map Prod.fst).Nodup) :
    map.entries.Perm entries ↔ ∀ key, find map key = lookup entries key := by
  have hmap : map.entries.Nodup := map.keys_nodup.of_map _
  have hentries : entries.Nodup := hn.of_map _
  rw [perm_ext_iff_of_nodup hmap hentries]
  constructor
  · intro h key
    -- a value found on one side is an entry there, hence one of the other side
    refine Option.ext ?_
    intro value
    show lookup map.entries key = some value ↔ _
    have hm := mem_iff_lookup map.keys_nodup (key, value)
    have he := mem_iff_lookup hn (key, value)
    exact hm.symm.trans ((h _).trans he)
  · intro h e
    exact (mem_iff_lookup map.keys_nodup e).trans
      ((by rw [← h e.1]; rfl : _ ↔ _).trans (mem_iff_lookup hn e).symm)

end FlatMap
