import WaveX.FlatMap
import WaveX.HttpText
import WaveX.Machine

/-! # The storage of the flat map

    `FlatMap<K, V, InlineCap>` of `FlatMap.hpp` with its inline array and its overflow
    vector.  For its user the map is a list of pairs: a key that is there keeps its place,
    a new one goes to the end, and what is erased leaves the others in their order.

    An access outside the array or the vector fails.  What a moved-from pair is left with is
    not known; it is a parameter. -/

namespace FlatStorage

open QuicVarInt HttpText

/-- A key type, with its views: `std::string_view(key)` and `K(key)`. -/
class Key (κ : Type) where
  view : κ → Bytes
  ofView : Bytes → κ
  view_ofView : ∀ s, view (ofView s) = s

instance : Key Bytes := ⟨id, id, fun _ => rfl⟩

variable {κ β : Type} {cap : Nat}

/-! ## The representation -/

/-- `FlatMap`: the array has `InlineCap` pairs. -/
structure FlatMap (κ β : Type) (cap : Nat) where
  inline : List (κ × β)
  overflow : List (κ × β)
  size : Nat
  full : inline.length = cap

/-- `tolower`, in the C locale. -/
def tolower (c : UInt8) : UInt8 := if 0x41 ≤ c ∧ c ≤ 0x5a then c + 0x20 else c

/-- The comparison of `find_ci`. -/
def sameCi (k key : Bytes) : Bool :=
  k.length = key.length && (k.zip key).all fun (x, y) => tolower x = tolower y

namespace FlatMap

/-- A map as it is constructed. -/
def fresh [Inhabited κ] [Inhabited β] : FlatMap κ β cap :=
  ⟨List.replicate cap default, [], 0, List.length_replicate⟩

/-- `pair_at`. -/
def pairAt (m : FlatMap κ β cap) (idx : Nat) : Option (κ × β) :=
  if idx < cap then m.inline[idx]? else m.overflow[idx - cap]?

/-- An assignment to `mutable_pair_at`. -/
def setPair (m : FlatMap κ β cap) (idx : Nat) (e : κ × β) : Option (FlatMap κ β cap) :=
  if idx < cap then
    some { m with inline := m.inline.set idx e, full := by rw [List.length_set]; exact m.full }
  else if idx - cap < m.overflow.length then
    some { m with overflow := m.overflow.set (idx - cap) e }
  else none

/-- The loop of `find` and `find_ci`, for so many rounds: the index of the iterator. -/
def findLoop (m : FlatMap κ β cap) (same : κ → Bool) : Nat → Nat → Option Nat
  | 0, _ => some m.size
  | rounds + 1, i =>
      match m.pairAt i with
      | none => none
      | some e => if same e.1 then some i else findLoop m same rounds (i + 1)

section

variable [Key κ]

/-- `find`. -/
def find (m : FlatMap κ β cap) (key : Bytes) : Option Nat :=
  m.findLoop (fun k => Key.view k = key) m.size 0

/-- `find_ci`. -/
def findCi (m : FlatMap κ β cap) (key : Bytes) : Option Nat :=
  m.findLoop (fun k => sameCi (Key.view k) key) m.size 0

/-- `contains`. -/
def contains (m : FlatMap κ β cap) (key : Bytes) : Option Bool :=
  (m.find key).map fun it => it ≠ m.size

/-- `get`. -/
def get [Inhabited β] (m : FlatMap κ β cap) (key : Bytes) : Option β := do
  let it ← m.find key
  if it ≠ m.size then return (← m.pairAt it).2 else return default

/-- `at`; the inner `none` is the exception. -/
def at' (m : FlatMap κ β cap) (key : Bytes) : Option (Option β) := do
  let it ← m.find key
  if it = m.size then return none else return some (← m.pairAt it).2

/-- The value at an iterator is replaced, or a pair is appended at the end. -/
def assignOrAppend (m : FlatMap κ β cap) (it : Nat) (key : κ) (value : β) :
    Option (FlatMap κ β cap) := do
  if it ≠ m.size then
    let e ← m.pairAt it
    m.setPair it (e.1, value)
  else if m.size < cap then
    let m ← m.setPair m.size (key, value)
    return { m with size := m.size + 1 }
  else return { m with overflow := m.overflow ++ [(key, value)], size := m.size + 1 }

/-- `insert_or_assign`. -/
def insertOrAssign (m : FlatMap κ β cap) (key : κ) (value : β) : Option (FlatMap κ β cap) := do
  m.assignOrAppend (← m.find (Key.view key)) key value

/-- `insert_or_assign_ci`. -/
def insertOrAssignCi (m : FlatMap κ β cap) (key : κ) (value : β) : Option (FlatMap κ β cap) := do
  m.assignOrAppend (← m.findCi (Key.view key)) key value

/-- `operator[]`: the map, and the index of the pair whose value is referred to. -/
def subscript [Inhabited β] (m : FlatMap κ β cap) (key : Bytes) :
    Option (FlatMap κ β cap × Nat) := do
  let it ← m.find key
  if it ≠ m.size then return (m, it)
  else
    let m ← m.insertOrAssign (Key.ofView key) default
    return (m, m.size - 1)

end

/-- The loop of `erase_at`, for so many rounds. -/
def shift (moved : κ × β → κ × β) : Nat → Nat → FlatMap κ β cap → Option (FlatMap κ β cap)
  | 0, _, m => some m
  | rounds + 1, i, m => do
      let e ← m.pairAt (i + 1)
      let m ← m.setPair i e
      let m ← m.setPair (i + 1) (moved e)
      shift moved rounds (i + 1) m

/-- `erase_at`. -/
def eraseAt (moved : κ × β → κ × β) (m : FlatMap κ β cap) (idx : Nat) :
    Option (FlatMap κ β cap) :=
  if idx ≥ m.size then some m
  else do
    let m ← shift moved (m.size - 1 - idx) idx m
    return { m with
      size := m.size - 1
      overflow := if m.overflow = [] then [] else m.overflow.dropLast }

/-- `erase` and `erase_ci`, behind their search. -/
def eraseFound (moved : κ × β → κ × β) (m : FlatMap κ β cap) (it : Nat) :
    Option (FlatMap κ β cap × Bool) :=
  if it = m.size then some (m, false) else (m.eraseAt moved it).map (·, true)

/-- `clear`. -/
def clear (m : FlatMap κ β cap) : FlatMap κ β cap := { m with size := 0, overflow := [] }

/-- The pairs from `begin` to `end`, for so many rounds. -/
def iterateFrom (m : FlatMap κ β cap) : Nat → Nat → Option (List (κ × β))
  | 0, _ => some []
  | rounds + 1, i => do return (← m.pairAt i) :: (← iterateFrom m rounds (i + 1))

/-- The pairs from `begin` to `end`. -/
def iterate (m : FlatMap κ β cap) : Option (List (κ × β)) := m.iterateFrom m.size 0

end FlatMap

/-! ## The reference -/

/-- The operations of a map; the reference of `operator[]` may be assigned to. -/
inductive Op (κ β : Type) where
  | insertOrAssign (key : κ) (value : β)
  | insertOrAssignCi (key : κ) (value : β)
  | subscript (key : Bytes) (assigned : Option β)
  | erase (key : Bytes)
  | eraseCi (key : Bytes)
  | eraseAt (idx : Nat)
  | clear
  | find (key : Bytes)
  | findCi (key : Bytes)
  | get (key : Bytes)
  | contains (key : Bytes)
  | at' (key : Bytes)
  | iterate

/-- What an operation gives back: nothing, an iterator with its pair, and so on. -/
inductive Answer (κ β : Type) where
  | nothing
  | bool (b : Bool)
  | value (v : β)
  | valueOrThrow (v : Option β)
  | iterator (idx : Nat) (e : Option (κ × β))
  | pairs (l : List (κ × β))

section

variable [Key κ] [Inhabited β]

/-- The key is this one. -/
def isKey (key : Bytes) (e : κ × β) : Bool := Key.view e.1 = key

/-- The key is this one, up to the case of letters. -/
def isKeyCi (key : Bytes) (e : κ × β) : Bool := isEqual (Key.view e.1) key

omit [Key κ] [Inhabited β] in
/-- The first match gets the value; without one the pair goes to the end. -/
def put (p : κ × β → Bool) (key : κ) (value : β) : List (κ × β) → List (κ × β)
  | [] => [(key, value)]
  | e :: rest => if p e then (e.1, value) :: rest else e :: put p key value rest

/-- The same operation on a list of pairs. -/
def listStep (l : List (κ × β)) : Op κ β → List (κ × β) × Answer κ β
  | .insertOrAssign key value => (put (isKey (Key.view key)) key value l, .nothing)
  | .insertOrAssignCi key value => (put (isKeyCi (Key.view key)) key value l, .nothing)
  | .subscript key assigned =>
      let l' := if l.any (isKey key) then l else l ++ [(Key.ofView key, default)]
      (match assigned with
        | none => l'
        | some value => put (isKey key) (Key.ofView key) value l',
        .value (((l.find? (isKey key)).map Prod.snd).getD default))
  | .erase key => (l.eraseP (isKey key), .bool (l.any (isKey key)))
  | .eraseCi key => (l.eraseP (isKeyCi key), .bool (l.any (isKeyCi key)))
  | .eraseAt idx => (l.eraseIdx idx, .nothing)
  | .clear => ([], .nothing)
  | .find key => (l, .iterator (l.findIdx (isKey key)) (l.find? (isKey key)))
  | .findCi key => (l, .iterator (l.findIdx (isKeyCi key)) (l.find? (isKeyCi key)))
  | .get key => (l, .value (((l.find? (isKey key)).map Prod.snd).getD default))
  | .contains key => (l, .bool (l.any (isKey key)))
  | .at' key => (l, .valueOrThrow ((l.find? (isKey key)).map Prod.snd))
  | .iterate => (l, .pairs l)

/-- An iterator with the pair that it points to, none at the end. -/
def deref (m : FlatMap κ β cap) (it : Nat) : Option (Answer κ β) :=
  if it = m.size then some (.iterator it none)
  else (m.pairAt it).map fun e => .iterator it (some e)

/-- An operation on the map. -/
def step (moved : κ × β → κ × β) (m : FlatMap κ β cap) :
    Op κ β → Option (FlatMap κ β cap × Answer κ β)
  | .insertOrAssign key value => (m.insertOrAssign key value).map (·, .nothing)
  | .insertOrAssignCi key value => (m.insertOrAssignCi key value).map (·, .nothing)
  | .subscript key assigned => do
      let (m, i) ← m.subscript key
      let e ← m.pairAt i
      match assigned with
      | none => return (m, .value e.2)
      | some value => return (← m.setPair i (e.1, value), .value e.2)
  | .erase key => do return (← m.eraseFound moved (← m.find key)).map id .bool
  | .eraseCi key => do return (← m.eraseFound moved (← m.findCi key)).map id .bool
  | .eraseAt idx => (m.eraseAt moved idx).map (·, .nothing)
  | .clear => some (m.clear, .nothing)
  | .find key => do return (m, ← deref m (← m.find key))
  | .findCi key => do return (m, ← deref m (← m.findCi key))
  | .get key => (m.get key).map (m, .value ·)
  | .contains key => (m.contains key).map (m, .bool ·)
  | .at' key => (m.at' key).map (m, .valueOrThrow ·)
  | .iterate => m.iterate.map (m, .pairs ·)

end

/-! ## The cells -/

/-- The array and the vector, one behind the other. -/
def FlatMap.cells (m : FlatMap κ β cap) : List (κ × β) := m.inline ++ m.overflow

/-- The map holds a list: the vector has what the array has no room for. -/
structure Holds (m : FlatMap κ β cap) (l : List (κ × β)) : Prop where
  size : m.size = l.length
  overflow : m.overflow.length = m.size - cap
  cells : m.cells.take m.size = l

theorem pairAt_eq (m : FlatMap κ β cap) (i : Nat) : m.pairAt i = m.cells[i]? := by
  have hfull := m.full
  rw [FlatMap.pairAt, FlatMap.cells]
  split
  · rw [List.getElem?_append_left (by omega)]
  · rw [List.getElem?_append_right (by omega), hfull]

/-- An assignment to a cell changes that cell only. -/
theorem setPair_spec {m : FlatMap κ β cap} {i : Nat} (hi : i < m.cells.length) (e : κ × β) :
    ∃ m', m.setPair i e = some m' ∧ m'.cells = m.cells.set i e ∧ m'.size = m.size ∧
      m'.overflow.length = m.overflow.length := by
  have hfull := m.full
  rw [FlatMap.cells, List.length_append] at hi
  rw [FlatMap.setPair]
  split
  · next hin =>
    refine ⟨_, rfl, ?_, rfl, rfl⟩
    rw [FlatMap.cells, FlatMap.cells, List.set_append_left _ _ (by omega)]
  · next hout =>
    rw [if_pos (by omega)]
    refine ⟨_, rfl, ?_, rfl, List.length_set⟩
    rw [FlatMap.cells, FlatMap.cells, List.set_append_right _ _ (by omega), hfull]

namespace Holds

variable {m : FlatMap κ β cap} {l : List (κ × β)}

theorem cells_length (h : Holds m l) : m.cells.length = cap + (m.size - cap) := by
  rw [FlatMap.cells, List.length_append, m.full, h.overflow]

theorem pairAt (h : Holds m l) {i : Nat} (hi : i < l.length) : m.pairAt i = l[i]? := by
  have hsize := h.size
  rw [pairAt_eq, ← h.cells, List.getElem?_take_of_lt (by omega)]

/-- A pair of the list is replaced. -/
theorem setPair (h : Holds m l) {i : Nat} (hi : i < l.length) (e : κ × β) :
    ∃ m', m.setPair i e = some m' ∧ Holds m' (l.set i e) := by
  have hsize := h.size
  have hcells := h.cells_length
  obtain ⟨m', hset, hcells', hsize', hoverflow⟩ :=
    setPair_spec (show i < m.cells.length by omega) e
  refine ⟨m', hset, ?_, ?_, ?_⟩
  · rw [hsize', hsize, List.length_set]
  · rw [hoverflow, hsize', h.overflow]
  · rw [hcells', hsize', List.take_set, h.cells]

/-- The loop of a search gives the index of the first match. -/
theorem findLoop (h : Holds m l) (same : κ → Bool) {rounds i : Nat} (hi : i + rounds = l.length) :
    m.findLoop same rounds i = some (i + (l.drop i).findIdx fun e => same e.1) := by
  induction rounds generalizing i with
  | zero => rw [FlatMap.findLoop, List.drop_of_length_le (by omega), h.size, ← hi]; rfl
  | succ rounds ih =>
    have hlt : i < l.length := by omega
    rw [FlatMap.findLoop, h.pairAt hlt, List.getElem?_eq_getElem hlt,
      List.drop_eq_getElem_cons hlt, List.findIdx_cons]
    dsimp only
    cases same l[i].1 with
    | true => rfl
    | false =>
      rw [if_neg Bool.false_ne_true, ih (by omega), cond_false, Nat.add_assoc, Nat.add_comm 1]

theorem search (h : Holds m l) (same : κ → Bool) :
    m.findLoop same m.size 0 = some (l.findIdx fun e => same e.1) := by
  rw [h.findLoop same (by rw [Nat.zero_add, h.size]), Nat.zero_add, List.drop_zero]

/-- A pair at the end of the list goes to the next free cell, or to a new one. -/
theorem append (h : Holds m l) (key : κ) (value : β) :
    ∃ m', m.assignOrAppend l.length key value = some m' ∧ Holds m' (l ++ [(key, value)]) := by
  have hsize := h.size
  have hcells := h.cells_length
  have hoverflow := h.overflow
  rw [FlatMap.assignOrAppend, if_neg (by rw [hsize]; exact fun hne => hne rfl)]
  split
  · next hroom =>
    obtain ⟨m', hset, hcells', hsize', hoverflow'⟩ :=
      setPair_spec (show m.size < m.cells.length by omega) (key, value)
    refine ⟨{ m' with size := m'.size + 1 }, by rw [hset]; rfl, ?_, ?_, ?_⟩
    · show m'.size + 1 = _
      rw [hsize', hsize, List.length_append]
      rfl
    · show m'.overflow.length = m'.size + 1 - cap
      omega
    · show m'.cells.take (m'.size + 1) = _
      rw [hcells', hsize', List.take_add_one, List.take_set_of_le (Nat.le_refl _), h.cells,
        List.getElem?_set_self (by omega)]
      rfl
  · next hfull =>
    refine ⟨_, rfl, ?_, ?_, ?_⟩
    · show m.size + 1 = _
      rw [hsize, List.length_append]
      rfl
    · show (m.overflow ++ [(key, value)]).length = m.size + 1 - cap
      rw [List.length_append, hoverflow]
      show m.size - cap + 1 = m.size + 1 - cap
      omega
    · have hall : m.cells = l := by
        rw [← h.cells, List.take_of_length_le (by omega)]
      show (m.inline ++ (m.overflow ++ [(key, value)])).take (m.size + 1) = _
      rw [← List.append_assoc]
      change (m.cells ++ [(key, value)]).take (m.size + 1) = _
      rw [hall, hsize, List.take_of_length_le]
      rw [List.length_append]
      exact Nat.le_refl _

end Holds

section

variable {p : κ × β → Bool} {key : κ} {value : β} {l : List (κ × β)}

/-- Without a match the pair goes to the end. -/
theorem put_absent (h : l.findIdx p = l.length) : put p key value l = l ++ [(key, value)] := by
  have hnone := List.findIdx_eq_length.mp h
  induction l with
  | nil => rfl
  | cons e rest ih =>
    have hrest : ∀ x ∈ rest, p x = false := fun x hx => hnone x (List.mem_cons_of_mem _ hx)
    rw [put, hnone e List.mem_cons_self, if_neg Bool.false_ne_true,
      ih (List.findIdx_eq_length.mpr hrest) hrest, List.cons_append]

/-- The first match keeps its key and its place. -/
theorem put_present {e : κ × β} (h : l[l.findIdx p]? = some e) :
    put p key value l = l.set (l.findIdx p) (e.1, value) := by
  induction l with
  | nil => cases h
  | cons x rest ih =>
    rw [List.findIdx_cons] at h ⊢
    rw [put]
    cases hx : p x with
    | true =>
      rw [hx] at h
      obtain rfl := Option.some.inj h
      rfl
    | false =>
      rw [hx, cond_false, List.getElem?_cons_succ] at h
      rw [if_neg Bool.false_ne_true, ih h]
      rfl

theorem eraseP_eq : l.eraseP p = l.eraseIdx (l.findIdx p) := by
  induction l with
  | nil => rfl
  | cons e rest ih =>
    rw [List.eraseP_cons, List.findIdx_cons]
    cases p e with
    | true => rfl
    | false =>
      rw [cond_false, cond_false, ih]
      rfl

theorem any_iff : l.any p = decide (l.findIdx p ≠ l.length) := by
  by_cases h : l.findIdx p = l.length
  · rw [decide_eq_false (fun hne => hne h), List.any_eq_false]
    exact fun x hx => by rw [List.findIdx_eq_length.mp h x hx]; exact Bool.false_ne_true
  · rw [decide_eq_true h, List.any_eq_true]
    exact List.findIdx_lt_length.mp (Nat.lt_of_le_of_ne List.findIdx_le_length h)

end

/-- A cell that got what the next one has, which then goes. -/
theorem set_eraseIdx {α : Type} {l : List α} {i : Nat} (hi : i + 1 < l.length) :
    (l.set i l[i + 1]).eraseIdx (i + 1) = l.eraseIdx i := by
  refine List.ext_getElem? fun j => ?_
  rw [List.getElem?_eraseIdx, List.getElem?_eraseIdx]
  rcases Nat.lt_trichotomy j i with hlt | rfl | hgt
  · rw [if_pos (by omega), if_pos hlt, List.getElem?_set_ne (by omega)]
  · rw [if_pos (Nat.lt_succ_self j), if_neg (Nat.lt_irrefl j), List.getElem?_set_self (by omega),
      List.getElem?_eq_getElem hi]
  · rw [if_neg (by omega), if_neg (by omega), List.getElem?_set_ne (by omega)]

/-- A front without a cell is that of the list without it. -/
theorem take_eraseIdx {α : Type} {l : List α} {i n : Nat} (hi : i ≤ n) :
    (l.eraseIdx i).take n = (l.take (n + 1)).eraseIdx i := by
  refine List.ext_getElem? fun j => ?_
  rw [List.getElem?_take, List.getElem?_eraseIdx, List.getElem?_eraseIdx, List.getElem?_take,
    List.getElem?_take]
  by_cases hlt : j < i
  · rw [if_pos (by omega), if_pos hlt, if_pos hlt, if_pos (by omega)]
  · rw [if_neg hlt, if_neg hlt]
    by_cases hn : j < n
    · rw [if_pos hn, if_pos (by omega)]
    · rw [if_neg hn, if_neg (by omega)]

namespace Holds

variable {m : FlatMap κ β cap} {l : List (κ × β)}

/-- What `insert_or_assign` does behind its search. -/
theorem assignOrAppend (h : Holds m l) (p : κ × β → Bool) (key : κ) (value : β) :
    ∃ m', m.assignOrAppend (l.findIdx p) key value = some m' ∧ Holds m' (put p key value l) := by
  by_cases hend : l.findIdx p = l.length
  · rw [hend, put_absent hend]
    exact h.append key value
  · have hlt : l.findIdx p < l.length := Nat.lt_of_le_of_ne List.findIdx_le_length hend
    have hget := List.getElem?_eq_getElem hlt
    obtain ⟨m', hset, hm'⟩ := h.setPair hlt (l[l.findIdx p].1, value)
    refine ⟨m', ?_, put_present hget ▸ hm'⟩
    rw [FlatMap.assignOrAppend, if_pos (by rwa [h.size]), h.pairAt hlt, hget]
    exact hset

/-- The loop of `erase_at`: the pairs behind the place move up by one. -/
theorem shift (moved : κ × β → κ × β) (rounds i : Nat) (m : FlatMap κ β cap)
    (hi : i + rounds < m.cells.length) :
    ∃ m', FlatMap.shift moved rounds i m = some m' ∧
      m'.cells.take (i + rounds) = (m.cells.eraseIdx i).take (i + rounds) ∧
      m'.size = m.size ∧ m'.overflow.length = m.overflow.length := by
  induction rounds generalizing i m with
  | zero =>
    refine ⟨m, rfl, ?_, rfl, rfl⟩
    rw [Nat.add_zero, List.eraseIdx_eq_take_drop_succ,
      List.take_append_of_le_length (by rw [List.length_take]; omega), List.take_take, Nat.min_self]
  | succ rounds ih =>
    have hget := List.getElem?_eq_getElem (show i + 1 < m.cells.length by omega)
    obtain ⟨m₁, hset₁, hcells₁, hsize₁, hoverflow₁⟩ :=
      setPair_spec (show i < m.cells.length by omega) m.cells[i + 1]
    obtain ⟨m₂, hset₂, hcells₂, hsize₂, hoverflow₂⟩ :=
      setPair_spec (m := m₁) (i := i + 1) (by rw [hcells₁, List.length_set]; omega)
        (moved m.cells[i + 1])
    obtain ⟨m', hrest, htake, hsize', hoverflow'⟩ := ih (i + 1) m₂ (by
      rw [hcells₂, hcells₁, List.length_set, List.length_set]
      omega)
    refine ⟨m', ?_, ?_, by rw [hsize', hsize₂, hsize₁], by rw [hoverflow', hoverflow₂, hoverflow₁]⟩
    · rw [FlatMap.shift, pairAt_eq, hget]
      show (m.setPair i _).bind _ = _
      rw [hset₁]
      show (m₁.setPair (i + 1) _).bind _ = _
      rw [hset₂]
      exact hrest
    · -- the cell that is left behind is the one that goes in the next round
      have hshift := set_eraseIdx (show i + 1 < m.cells.length by omega)
      rw [show i + (rounds + 1) = i + 1 + rounds by omega, htake, hcells₂, List.eraseIdx_set_eq,
        hcells₁, hshift]

/-- `erase_at` takes one pair out of the list. -/
theorem eraseAt (h : Holds m l) (moved : κ × β → κ × β) (idx : Nat) :
    ∃ m', m.eraseAt moved idx = some m' ∧ Holds m' (l.eraseIdx idx) := by
  have hsize := h.size
  have hlength := h.cells_length
  rw [FlatMap.eraseAt]
  split
  · next hout =>
    rw [List.eraseIdx_of_length_le (by omega)]
    exact ⟨m, rfl, h⟩
  · next hin =>
    obtain ⟨m₁, hshift, htake, hsize₁, hoverflow₁⟩ :=
      shift moved (m.size - 1 - idx) idx m (by omega)
    rw [show idx + (m.size - 1 - idx) = m.size - 1 by omega] at htake
    have hlength₁ : m₁.cells.length = m.cells.length := by
      rw [FlatMap.cells, FlatMap.cells, List.length_append, List.length_append, m.full, m₁.full,
        hoverflow₁]
    refine ⟨_, by rw [hshift]; rfl, ?_, ?_, ?_⟩
    · show m₁.size - 1 = _
      rw [List.length_eraseIdx_of_lt (by omega), hsize₁, hsize]
    · show (if m₁.overflow = [] then [] else m₁.overflow.dropLast).length = m₁.size - 1 - cap
      have hoverflow := h.overflow
      split
      · next hnil =>
        rw [hnil] at hoverflow₁
        show 0 = _
        have hzero : m.overflow.length = 0 := hoverflow₁.symm
        omega
      · rw [List.length_dropLast]
        omega
    · -- the last cell is gone, or the array keeps it behind the end
      have hcells : (m₁.inline ++ if m₁.overflow = [] then [] else m₁.overflow.dropLast).take
          (m.size - 1) = m₁.cells.take (m.size - 1) := by
        split
        · next hnil => rw [FlatMap.cells, hnil]
        · next hne =>
          have hoverflow := h.overflow
          have hpos := List.length_pos_iff.mpr hne
          rw [← List.dropLast_append_of_ne_nil hne, List.dropLast_eq_take, List.take_take]
          change m₁.cells.take (min (m.size - 1) (m₁.cells.length - 1)) = _
          rw [Nat.min_eq_left (by omega)]
      show List.take (m₁.size - 1) (m₁.inline ++ _) = _
      rw [hsize₁, hcells, htake, ← h.cells, take_eraseIdx (by omega),
        Nat.sub_add_cancel (by omega)]

/-- The pairs from `begin` to `end` are the list. -/
theorem iterateFrom (h : Holds m l) {rounds i : Nat} (hi : i + rounds = l.length) :
    m.iterateFrom rounds i = some (l.drop i) := by
  induction rounds generalizing i with
  | zero =>
    rw [FlatMap.iterateFrom, List.drop_of_length_le (by omega)]
  | succ rounds ih =>
    have hlt : i < l.length := by omega
    rw [FlatMap.iterateFrom, h.pairAt hlt, List.getElem?_eq_getElem hlt, ih (by omega),
      List.drop_eq_getElem_cons hlt]
    rfl

end Holds

theorem tolower_eq : ∀ c, tolower c = asciiLower c := by decide +kernel

/-- The comparison of `find_ci` is the one of `is_equal`. -/
theorem sameCi_eq (k key : Bytes) : sameCi k key = isEqual k key := by
  rw [Bool.eq_iff_iff, isEqual_iff, sameCi, Bool.and_eq_true, decide_eq_true_eq]
  induction k generalizing key with
  | nil =>
    cases key with
    | nil => exact ⟨fun _ => rfl, fun _ => ⟨rfl, rfl⟩⟩
    | cons c key => exact ⟨fun h => absurd h.1 (Nat.succ_ne_zero _).symm, fun h => nomatch h⟩
  | cons b k ih =>
    cases key with
    | nil => exact ⟨fun h => absurd h.1 (Nat.succ_ne_zero _), fun h => nomatch h⟩
    | cons c key =>
      rw [lower, lower, List.map_cons, List.map_cons, List.cons_eq_cons, List.zip_cons_cons,
        List.all_cons, Bool.and_eq_true, decide_eq_true_eq, tolower_eq, tolower_eq, List.length_cons,
        List.length_cons, Nat.add_right_cancel_iff]
      have hrest := ih key
      rw [lower, lower] at hrest
      rw [← hrest]
      tauto

section

variable [Key κ]

namespace Holds

variable {m : FlatMap κ β cap} {l : List (κ × β)}

theorem find (h : Holds m l) (key : Bytes) : m.find key = some (l.findIdx (isKey key)) := h.search _

theorem findCi (h : Holds m l) (key : Bytes) :
    m.findCi key = some (l.findIdx (isKeyCi key)) := by
  have hsame : (fun e : κ × β => sameCi (Key.view e.1) key) = isKeyCi key :=
    funext fun e => sameCi_eq _ key
  rw [FlatMap.findCi, h.search, hsame]

omit [Key κ] in
/-- An iterator that a search gives points to what the search of the list gives. -/
theorem deref (h : Holds m l) (p : κ × β → Bool) :
    FlatStorage.deref m (l.findIdx p) = some (.iterator (l.findIdx p) (l.find? p)) := by
  rw [FlatStorage.deref, h.size, List.find?_eq_getElem?_findIdx]
  split
  · next hend => rw [List.getElem?_eq_none (by omega)]
  · next hin =>
    have hlt := Nat.lt_of_le_of_ne List.findIdx_le_length hin
    rw [h.pairAt hlt, List.getElem?_eq_getElem hlt]
    rfl

omit [Key κ] in
/-- The value behind an iterator that a search gives. -/
theorem valueAt (h : Holds m l) {p : κ × β → Bool} (hin : l.findIdx p ≠ l.length) :
    ∃ e, m.pairAt (l.findIdx p) = some e ∧ l.find? p = some e := by
  have hlt := Nat.lt_of_le_of_ne List.findIdx_le_length hin
  rw [List.find?_eq_getElem?_findIdx, h.pairAt hlt, List.getElem?_eq_getElem hlt]
  exact ⟨_, rfl, rfl⟩

end Holds

variable [Inhabited β]

namespace Holds

variable {m : FlatMap κ β cap} {l : List (κ × β)}

omit [Inhabited β] in
theorem contains (h : Holds m l) (key : Bytes) : m.contains key = some (l.any (isKey key)) := by
  rw [FlatMap.contains, h.find, any_iff, h.size]
  rfl

theorem get (h : Holds m l) (key : Bytes) :
    m.get key = some (((l.find? (isKey key)).map Prod.snd).getD default) := by
  rw [FlatMap.get, h.find]
  simp only [Option.bind_eq_bind, Option.bind_some, h.size]
  split
  · next hin =>
    obtain ⟨e, hpair, hfind⟩ := h.valueAt hin
    rw [hpair, hfind]
    rfl
  · next hend =>
    rw [List.find?_eq_none.mpr fun e he => by
      rw [List.findIdx_eq_length.mp (not_not.mp hend) e he]; exact Bool.false_ne_true]
    rfl

omit [Inhabited β] in
theorem at' (h : Holds m l) (key : Bytes) :
    m.at' key = some ((l.find? (isKey key)).map Prod.snd) := by
  rw [FlatMap.at', h.find]
  simp only [Option.bind_eq_bind, Option.bind_some, h.size]
  split
  · next hend =>
    rw [List.find?_eq_none.mpr fun e he => by
      rw [List.findIdx_eq_length.mp hend e he]; exact Bool.false_ne_true]
    rfl
  · next hin =>
    obtain ⟨e, hpair, hfind⟩ := h.valueAt hin
    rw [hpair, hfind]
    rfl

omit [Key κ] [Inhabited β] in
/-- What `erase` and `erase_ci` do behind their search. -/
theorem eraseFound (h : Holds m l) (moved : κ × β → κ × β) (p : κ × β → Bool) :
    ∃ m', m.eraseFound moved (l.findIdx p) = some (m', l.any p) ∧ Holds m' (l.eraseP p) := by
  rw [FlatMap.eraseFound, any_iff, eraseP_eq, h.size]
  split
  · next hend =>
    rw [decide_eq_false (fun hne => hne hend), hend, List.eraseIdx_of_length_le (Nat.le_refl _)]
    exact ⟨m, rfl, h⟩
  · next hin =>
    obtain ⟨m', herase, hm'⟩ := h.eraseAt moved (l.findIdx p)
    rw [decide_eq_true hin, herase]
    exact ⟨m', rfl, hm'⟩

/-- `operator[]` refers to the first match, of which there is one in the end. -/
theorem subscript (h : Holds m l) (key : Bytes) :
    ∃ m' l', m.subscript key = some (m', l'.findIdx (isKey key)) ∧ Holds m' l' ∧
      l' = (if l.any (isKey key) then l else l ++ [(Key.ofView key, default)]) ∧
      ∃ e, l'[l'.findIdx (isKey key)]? = some e ∧
        e.2 = ((l.find? (isKey key)).map Prod.snd).getD default := by
  rw [FlatMap.subscript, h.find, any_iff]
  simp only [Option.bind_eq_bind, Option.bind_some, h.size]
  by_cases hend : l.findIdx (isKey key) = l.length
  · rw [if_neg (not_not.mpr hend), decide_eq_false (not_not.mpr hend), if_neg Bool.false_ne_true]
    have hview : Key.view (Key.ofView key : κ) = key := Key.view_ofView key
    obtain ⟨m', hassign, hm'⟩ := h.assignOrAppend (isKey key) (Key.ofView key) default
    rw [put_absent hend] at hm'
    -- the new pair is the first match
    have hkey : isKey key ((Key.ofView key : κ), (default : β)) = true := by
      rw [isKey, Key.view_ofView]
      exact decide_eq_true rfl
    have hidx : (l ++ [((Key.ofView key : κ), (default : β))]).findIdx (isKey key) = l.length := by
      rw [List.findIdx_append, if_neg (by omega), List.findIdx_cons, hkey]
      exact Nat.zero_add _
    have hnone : l.find? (isKey key) = none := List.find?_eq_none.mpr fun e he => by
      rw [List.findIdx_eq_length.mp hend e he]
      exact Bool.false_ne_true
    refine ⟨m', _, ?_, hm', rfl, _, by rw [hidx, List.getElem?_concat_length], by rw [hnone]; rfl⟩
    rw [FlatMap.insertOrAssign, h.find, hview]
    show (m.assignOrAppend _ _ _).bind _ = _
    rw [hassign, hidx]
    show some (m', m'.size - 1) = _
    rw [hm'.size, List.length_append]
    rfl
  · rw [if_pos hend, decide_eq_true hend, if_pos rfl]
    obtain ⟨e, hpair, hfind⟩ := h.valueAt hend
    rw [List.find?_eq_getElem?_findIdx] at hfind ⊢
    exact ⟨m, l, rfl, h, rfl, e, hfind, by rw [hfind]; rfl⟩

end Holds

/-- Every operation is that of the list. -/
theorem step_simulates (moved : κ × β → κ × β) :
    Machine.Simulates (Holds : FlatMap κ β cap → List (κ × β) → Prop) (step moved) listStep := by
  intro m l h op
  cases op with
  | insertOrAssign key value =>
    obtain ⟨m', hassign, hm'⟩ := h.assignOrAppend (isKey (Key.view key)) key value
    refine ⟨m', ?_, hm'⟩
    rw [step, FlatMap.insertOrAssign, h.find]
    show Option.map _ (m.assignOrAppend _ key value) = _
    rw [hassign]
    rfl
  | insertOrAssignCi key value =>
    obtain ⟨m', hassign, hm'⟩ := h.assignOrAppend (isKeyCi (Key.view key)) key value
    refine ⟨m', ?_, hm'⟩
    rw [step, FlatMap.insertOrAssignCi, h.findCi]
    show Option.map _ (m.assignOrAppend _ key value) = _
    rw [hassign]
    rfl
  | subscript key assigned =>
    obtain ⟨m₁, l₁, hsubscript, hm₁, hl₁, e, hget, hvalue⟩ := h.subscript key
    -- the pair that `operator[]` finds or makes is read, and then assigned
    obtain ⟨hlt, -⟩ := List.getElem?_eq_some_iff.mp hget
    rw [step, hsubscript]
    simp only [Option.bind_eq_bind, Option.bind_some, hm₁.pairAt hlt, hget]
    cases assigned with
    | none =>
      have hlist : listStep l (.subscript key none) = (l₁, .value e.2) := by
        rw [hl₁, hvalue]
        rfl
      rw [hlist]
      exact ⟨m₁, rfl, hm₁⟩
    | some value =>
      have hlist : listStep l (.subscript key (some value)) =
          (put (isKey key) (Key.ofView key) value l₁, .value e.2) := by
        rw [hl₁, hvalue]
        rfl
      obtain ⟨m₂, hset, hm₂⟩ := hm₁.setPair hlt (e.1, value)
      rw [hlist]
      refine ⟨m₂, ?_, put_present hget ▸ hm₂⟩
      show (m₁.setPair _ _).bind _ = _
      rw [hset]
      rfl
  | erase key =>
    obtain ⟨m', herase, hm'⟩ := h.eraseFound moved (isKey key)
    refine ⟨m', ?_, hm'⟩
    rw [step, h.find]
    show (m.eraseFound moved _).bind _ = _
    rw [herase]
    rfl
  | eraseCi key =>
    obtain ⟨m', herase, hm'⟩ := h.eraseFound moved (isKeyCi key)
    refine ⟨m', ?_, hm'⟩
    rw [step, h.findCi]
    show (m.eraseFound moved _).bind _ = _
    rw [herase]
    rfl
  | eraseAt idx =>
    obtain ⟨m', herase, hm'⟩ := h.eraseAt moved idx
    exact ⟨m', by rw [step, herase]; rfl, hm'⟩
  | clear =>
    refine ⟨m.clear, rfl, rfl, ?_, List.take_zero⟩
    show 0 = 0 - cap
    rw [Nat.zero_sub]
  | find key =>
    refine ⟨m, ?_, h⟩
    rw [step, h.find]
    show (FlatStorage.deref m _).bind _ = _
    rw [h.deref]
    rfl
  | findCi key =>
    refine ⟨m, ?_, h⟩
    rw [step, h.findCi]
    show (FlatStorage.deref m _).bind _ = _
    rw [h.deref]
    rfl
  | get key => exact ⟨m, by rw [step, h.get]; rfl, h⟩
  | contains key => exact ⟨m, by rw [step, h.contains]; rfl, h⟩
  | at' key => exact ⟨m, by rw [step, h.at']; rfl, h⟩
  | iterate =>
    refine ⟨m, ?_, h⟩
    rw [step, FlatMap.iterate, h.iterateFrom (by rw [Nat.zero_add, h.size]), List.drop_zero]
    rfl

/-- **The flat map is a list of pairs**: for every sequence of operations and every capacity
    of the array no access is outside the array or the vector, every answer is that of the
    list, which is what an iteration gives, and the vector holds what the array has no room
    for. -/
theorem flat_map_refines (moved : κ × β → κ × β) (ops : List (Op κ β)) [Inhabited κ] :
    ∃ m : FlatMap κ β cap,
      Machine.run (step moved) FlatMap.fresh ops =
          some (m, (Machine.reference listStep [] ops).2) ∧
        m.iterate = some (Machine.reference listStep [] ops).1 ∧
        m.size = (Machine.reference (listStep (κ := κ) (β := β)) [] ops).1.length ∧
        m.overflow.length = m.size - cap := by
  have hfresh : Holds (FlatMap.fresh : FlatMap κ β cap) [] := by
    refine ⟨rfl, ?_, List.take_zero⟩
    show 0 = 0 - cap
    rw [Nat.zero_sub]
  obtain ⟨m, hrun, hm⟩ := Machine.Simulates.run (step_simulates moved) hfresh ops
  refine ⟨m, hrun, ?_, hm.size, hm.overflow⟩
  rw [FlatMap.iterate, hm.iterateFrom (by rw [Nat.zero_add, hm.size]), List.drop_zero]

end

end FlatStorage

/-! ## The map of the router -/

namespace FlatMap

variable {κ β : Type} [DecidableEq κ]

/-- Without repeated keys an update in place is one of all pairs with that key. -/
theorem put_assign {l : List (κ × β)} (hn : (l.map Prod.fst).Nodup) {key : κ} (value : β)
    (hkey : key ∈ l.map Prod.fst) :
    FlatStorage.put (fun e => decide (e.1 = key)) key value l = assign l key value := by
  induction l with
  | nil => exact absurd hkey List.not_mem_nil
  | cons e rest ih =>
    rw [List.map_cons, List.nodup_cons] at hn
    rw [FlatStorage.put, assign, List.map_cons]
    by_cases he : e.1 = key
    · have hrest : ∀ x ∈ rest, (if x.1 = key then (key, value) else x) = x := by
        intro x hx
        refine if_neg ?_
        intro hxk
        have hmem := List.mem_map_of_mem (f := Prod.fst) hx
        rw [hxk, ← he] at hmem
        exact hn.1 hmem
      rw [if_pos (decide_eq_true he), if_pos he, he, List.map_congr_left hrest, List.map_id']
    · have hmem : key ∈ rest.map Prod.fst := by
        rcases List.mem_cons.mp hkey with h | h
        · exact absurd h.symm he
        · exact h
      rw [if_neg (by rw [decide_eq_false he]; exact Bool.false_ne_true), if_neg he, ih hn.2 hmem,
        assign]

/-- The map that the router works with is the list of the storage. -/
theorem insertOrAssign_put (map : Map κ β) (key : κ) (value : β) :
    FlatStorage.put (fun e => decide (e.1 = key)) key value map.entries =
      (insertOrAssign map key value).entries := by
  rw [insertOrAssign]
  split
  · next h => exact put_assign map.keys_nodup value h
  · next h =>
    refine FlatStorage.put_absent (List.findIdx_eq_length.mpr ?_)
    intro e he
    exact decide_eq_false fun heq => h (heq ▸ List.mem_map_of_mem he)

end FlatMap
