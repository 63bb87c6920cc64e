import Mathlib.Algebra.GroupWithZero.Nat
import Mathlib.Data.List.Basic
import Mathlib.Data.Int.ModEq
import Mathlib.Data.Nat.Log
import Mathlib.Data.Nat.Size
import WaveX.Machine

/-! # The ring queue

    `RingQueue` of `include/wavex/Server/BlockingPool.hpp`: a circular buffer whose capacity
    is a power of two and doubles when it is full.  Positions run on in 64-bit counters that
    wrap around, and a mask takes them into the buffer.

    Against it stands the plain queue: a list with a room that doubles.  The ring gives the
    answers of the list in every run. -/

namespace RingQueue

open List

/-! ## The buffer -/

/-- The values of `std::size_t`. -/
def sizeMod : Nat := 2 ^ 64

/-- `std::vector::max_size`: at most `PTRDIFF_MAX`, and it lets a vector of 256 slots be. -/
structure Memory where
  maxSize : Nat
  small : maxSize < 2 ^ 63
  large : 256 ≤ maxSize

/-- `RingQueue`; a slot whose item has been moved out holds the default value. -/
structure Queue (T : Type*) where
  buffer : List T
  capacity : Nat
  mask : Nat
  head : Nat
  tail : Nat
  count : Nat

/-- `round_up_pow2`: the bits of one less are spread downwards. -/
def roundUpPow2 (v : Nat) : Nat :=
  let v := (v + (sizeMod - 1)) % sizeMod
  let v := [1, 2, 4, 8, 16, 32].foldl (fun v w => v ||| v >>> w) v
  (v + 1) % sizeMod

variable {T : Type*} [Inhabited T] (mem : Memory)

/-- `buffer_.resize` of an empty buffer; it throws when no vector is that long. -/
def resize (n : Nat) : Option (List T) :=
  if mem.maxSize < n then none else some (List.replicate n default)

/-- The constructor; it may throw. -/
def Queue.ofCapacity (initialCapacity : Nat) : Option (Queue T) :=
  let capacity := max 16 (roundUpPow2 initialCapacity)
  (resize mem capacity).map fun buffer =>
    { buffer, capacity, mask := capacity - 1, head := 0, tail := 0, count := 0 }

/-- `std::move(buffer_[i])`, for a slot of the buffer. -/
def moveOut (buffer : List T) (i : Nat) : Option (T × List T) :=
  buffer[i]?.map fun item => (item, buffer.set i default)

/-- A move into a slot of the buffer. -/
def moveIn (buffer : List T) (i : Nat) (item : T) : Option (List T) :=
  if i < buffer.length then some (buffer.set i item) else none

/-- The slot of the `i`-th item. -/
def Queue.slot (q : Queue T) (i : Nat) : Nat := (q.head + i) % sizeMod &&& q.mask

/-- The loop of `grow`, with `left` items to move from the `i`-th on. -/
def Queue.moveAll (q : Queue T) : Nat → Nat → List T → List T → Option (List T)
  | 0, _, _, newBuffer => some newBuffer
  | left + 1, i, buffer, newBuffer =>
      match moveOut buffer (q.slot i) with
      | none => none
      | some (item, buffer) =>
          match moveIn newBuffer i item with
          | none => none
          | some newBuffer => q.moveAll left (i + 1) buffer newBuffer

/-- `grow`; it answers whether it returned, and has changed nothing when it threw. -/
def Queue.grow (q : Queue T) : Option (Queue T × Bool) :=
  let newCapacity := q.capacity * 2 % sizeMod
  match resize mem newCapacity with
  | none => some (q, false)
  | some newBuffer =>
      (q.moveAll q.count 0 q.buffer newBuffer).map fun newBuffer =>
        ({ buffer := newBuffer, capacity := newCapacity, mask := newCapacity - 1, head := 0,
           tail := q.count, count := q.count }, true)

/-- `push` from the move on. -/
def Queue.append (q : Queue T) (item : T) : Option (Queue T) :=
  (moveIn q.buffer (q.tail &&& q.mask) item).map fun buffer =>
    { q with buffer, tail := (q.tail + 1) % sizeMod, count := q.count + 1 }

/-- `push`; it answers whether it returned. -/
def Queue.push (q : Queue T) (item : T) : Option (Queue T × Bool) :=
  if q.count = q.capacity then
    match q.grow mem with
    | none => none
    | some (q, false) => some (q, false)
    | some (q, true) => (q.append item).map fun q => (q, true)
  else (q.append item).map fun q => (q, true)

/-- `pop`, for a queue that is not empty. -/
def Queue.pop (q : Queue T) : Option (T × Queue T) :=
  (moveOut q.buffer (q.head &&& q.mask)).map fun (item, buffer) =>
    (item, { q with buffer, head := (q.head + 1) % sizeMod, count := q.count - 1 })

/-- `empty`. -/
def Queue.empty (q : Queue T) : Bool := q.count = 0

/-- `clear`: the capacity is 256 again. -/
def Queue.clear (_ : Queue T) : Queue T :=
  { buffer := List.replicate 256 default, capacity := 256, mask := 255, head := 0, tail := 0,
    count := 0 }

/-! ## Operations -/

/-- What is done to a queue; `take` is a `pop` unless the queue is empty. -/
inductive Op (T : Type*) where
  | push (item : T)
  | take
  | size
  | clear

/-- The answers; `thrown` is the exception of a `push` that found no room. -/
inductive Answer (T : Type*) where
  | done
  | thrown
  | item (item : Option T)
  | size (n : Nat)

/-- An operation of the ring queue; no result when it leaves the buffer. -/
def step (q : Queue T) : Op T → Option (Queue T × Answer T)
  | .push item =>
      (q.push mem item).map fun (q, ok) => (q, if ok then .done else .thrown)
  | .take =>
      if q.empty then some (q, .item none)
      else q.pop.map fun (item, q) => (q, .item (some item))
  | .size => some (q, .size q.count)
  | .clear => some (q.clear, .done)

/-- The plain queue. -/
structure Plain (T : Type*) where
  items : List T
  room : Nat

/-- An operation of the plain queue: the first in is the first out. -/
def plainStep (p : Plain T) : Op T → Plain T × Answer T
  | .push item =>
      if p.items.length = p.room then
        if mem.maxSize < p.room * 2 then (p, .thrown)
        else ({ items := p.items ++ [item], room := p.room * 2 }, .done)
      else ({ p with items := p.items ++ [item] }, .done)
  | .take => ({ p with items := p.items.tail }, .item p.items.head?)
  | .size => (p, .size p.items.length)
  | .clear => ({ items := [], room := 256 }, .done)

/-! ## The rounding -/

/-- A bit of a number spread over the `w` places below it. -/
theorem testBit_spread {v u w : Nat} (h : ∀ i, v.testBit i = true ↔ ∃ j < w, u.testBit (i + j) = true)
    (i : Nat) : (v ||| v >>> w).testBit i = true ↔ ∃ j < w + w, u.testBit (i + j) = true := by
  rw [Nat.testBit_or, Bool.or_eq_true, Nat.testBit_shiftRight, h, h]
  constructor
  · rintro (⟨j, hj, hbit⟩ | ⟨j, hj, hbit⟩)
    · exact ⟨j, by omega, hbit⟩
    · exact ⟨w + j, by omega, by rw [show i + (w + j) = w + i + j by omega]; exact hbit⟩
  · rintro ⟨j, hj, hbit⟩
    by_cases hlow : j < w
    · exact .inl ⟨j, hlow, hbit⟩
    · exact .inr ⟨j - w, by omega, by rw [show w + i + (j - w) = i + j by omega]; exact hbit⟩

/-- After the six shifts all bits below the highest one are set. -/
theorem spread_eq {u : Nat} (hu : u < 2 ^ 64) {v : Nat}
    (h : ∀ i, v.testBit i = true ↔ ∃ j < 64, u.testBit (i + j) = true) :
    v = 2 ^ u.size - 1 := by
  refine Nat.eq_of_testBit_eq fun i => ?_
  rw [Nat.testBit_two_pow_sub_one, Bool.eq_iff_iff, h, decide_eq_true_iff, Nat.lt_size]
  constructor
  · rintro ⟨j, -, hbit⟩
    by_contra hlt
    have hsmall : u < 2 ^ (i + j) :=
      (Nat.not_le.mp hlt).trans_le (Nat.pow_le_pow_right (by omega) (by omega))
    rw [Nat.testBit_lt_two_pow hsmall] at hbit
    exact Bool.false_ne_true hbit
  · intro hle
    obtain ⟨j, hj, hbit⟩ := Nat.exists_ge_and_testBit_of_ge_two_pow hle
    have hj64 : j < 64 := by
      by_contra hge
      rw [Nat.testBit_lt_two_pow (hu.trans_le (Nat.pow_le_pow_right (by omega) (by omega)))] at hbit
      exact Bool.false_ne_true hbit
    exact ⟨j - i, by omega, by rw [show i + (j - i) = j by omega]; exact hbit⟩

theorem spread_steps {u : Nat} (hu : u < 2 ^ 64) :
    [1, 2, 4, 8, 16, 32].foldl (fun v w => v ||| v >>> w) u = 2 ^ u.size - 1 :=
  spread_eq hu (testBit_spread (testBit_spread (testBit_spread (testBit_spread
    (testBit_spread (testBit_spread (w := 1) fun i => by simp))))))

theorem roundUpPow2_size (n : Nat) :
    roundUpPow2 n = 2 ^ ((n + (sizeMod - 1)) % sizeMod).size % sizeMod := by
  have hpred : (n + (sizeMod - 1)) % sizeMod < 2 ^ 64 := by
    rw [sizeMod]
    exact Nat.mod_lt _ (Nat.two_pow_pos 64)
  rw [roundUpPow2]
  rw [spread_steps hpred, Nat.sub_add_cancel Nat.one_le_two_pow]

/-- Up to `2 ^ 63` it is the least power of two from the number on; it is zero for zero and
    for larger numbers. -/
theorem roundUpPow2_eq {n : Nat} (hn : n < sizeMod) :
    roundUpPow2 n = if n = 0 ∨ 2 ^ 63 < n then 0 else 2 ^ Nat.clog 2 n := by
  rw [roundUpPow2_size]
  split
  next hout =>
    -- one less is from `2 ^ 63` on, so the power is `2 ^ 64`
    have hlarge : 2 ^ 63 ≤ (n + (sizeMod - 1)) % sizeMod := by
      rw [sizeMod] at hn ⊢
      omega
    have hpred : (n + (sizeMod - 1)) % sizeMod < 2 ^ 64 := by
      rw [sizeMod]
      exact Nat.mod_lt _ (Nat.two_pow_pos 64)
    have hsize : ((n + (sizeMod - 1)) % sizeMod).size = 64 :=
      Nat.le_antisymm (Nat.size_le.mpr hpred) (Nat.lt_size.mpr hlarge)
    rw [hsize, sizeMod, Nat.mod_self]
  next hin =>
    have hmod : (n + (sizeMod - 1)) % sizeMod = n - 1 := by
      rw [sizeMod] at hn ⊢
      omega
    have hsize : (n - 1).size = Nat.clog 2 n := by
      refine eq_of_forall_ge_iff fun k => ?_
      rw [Nat.size_le, Nat.clog_le_iff_le_pow (by omega)]
      omega
    have hle : (n - 1).size ≤ 63 := Nat.size_le.mpr (by omega)
    have hlt : 2 ^ (n - 1).size < sizeMod := by
      rw [sizeMod]
      exact Nat.pow_lt_pow_right (by omega) (by omega)
    rw [hmod, Nat.mod_eq_of_lt hlt, hsize]

/-! ## The ring holds the list -/

/-- The ring holds the items of the plain queue, from its head on. -/
structure Holds (q : Queue T) (p : Plain T) : Prop where
  power : ∃ k ≤ 62, q.capacity = 2 ^ k
  fits : q.capacity ≤ mem.maxSize
  room : p.room = q.capacity
  mask : q.mask = q.capacity - 1
  length : q.buffer.length = q.capacity
  count : q.count = p.items.length
  le : p.items.length ≤ q.capacity
  tail : q.tail = (q.head + q.count) % sizeMod
  items : ∀ i < p.items.length, q.buffer[q.slot i]? = p.items[i]?

variable {mem} {q : Queue T} {p : Plain T}

theorem mod_mask {k : Nat} (hk : k ≤ 62) (n : Nat) :
    n % sizeMod &&& 2 ^ k - 1 = n % 2 ^ k := by
  rw [Nat.and_two_pow_sub_one_eq_mod, sizeMod, Nat.mod_mod_of_dvd]
  exact Nat.pow_dvd_pow 2 (by omega)

section

omit [Inhabited T]

theorem Holds.slot_eq (h : Holds mem q p) (i : Nat) : q.slot i = (q.head + i) % q.capacity := by
  obtain ⟨k, hk, hcap⟩ := h.power
  rw [Queue.slot, h.mask, hcap]
  exact mod_mask hk _

theorem Holds.capacity_pos (h : Holds mem q p) : 0 < q.capacity := by
  obtain ⟨k, -, hcap⟩ := h.power
  rw [hcap]
  exact Nat.two_pow_pos k

theorem Holds.slot_lt (h : Holds mem q p) (i : Nat) : q.slot i < q.buffer.length := by
  rw [h.slot_eq, h.length]
  exact Nat.mod_lt _ h.capacity_pos

/-- Two positions less than the capacity apart have different slots. -/
theorem Holds.slot_inj (h : Holds mem q p) {i j : Nat} (hi : i < q.capacity)
    (hj : j < q.capacity) (heq : q.slot i = q.slot j) : i = j := by
  rw [h.slot_eq, h.slot_eq] at heq
  have hmod : i ≡ j [MOD q.capacity] := Nat.ModEq.add_left_cancel' q.head heq
  exact Nat.ModEq.eq_of_lt_of_lt hmod hi hj

/-- The tail is the slot behind the last item. -/
theorem Holds.tail_slot (h : Holds mem q p) : q.tail &&& q.mask = q.slot p.items.length := by
  rw [h.tail, h.count]
  rfl

/-- A mask takes a counter that has wrapped around to the same slot. -/
theorem slot_succ (q : Queue T) (i : Nat) {buffer : List T} {tail count : Nat} :
    ({ q with buffer := buffer, head := (q.head + 1) % sizeMod, tail := tail,
              count := count } : Queue T).slot i = q.slot (i + 1) := by
  simp only [Queue.slot]
  rw [Nat.mod_add_mod, Nat.add_assoc, Nat.add_comm 1 i]

theorem Holds.append (h : Holds mem q p) (hroom : p.items.length < q.capacity) (item : T) :
    ∃ q', q.append item = some q' ∧ q'.capacity = q.capacity ∧
      Holds mem q' { p with items := p.items ++ [item] } := by
  refine ⟨{ q with buffer := q.buffer.set (q.slot p.items.length) item,
                   tail := (q.tail + 1) % sizeMod, count := q.count + 1 }, ?_, rfl, ?_⟩
  · rw [Queue.append, h.tail_slot, moveIn, if_pos (h.slot_lt _)]
    rfl
  · have hlen : (p.items ++ [item]).length = p.items.length + 1 := length_append
    refine
      { power := h.power, fits := h.fits, room := h.room, mask := h.mask,
        length := length_set.trans h.length, count := ?_, le := ?_, tail := ?_, items := ?_ }
    · rw [hlen, ← h.count]
    · rw [hlen]
      exact hroom
    · dsimp only
      rw [h.tail, Nat.mod_add_mod, Nat.add_assoc]
    · intro i hi
      rw [hlen] at hi
      change (q.buffer.set (q.slot p.items.length) item)[q.slot i]? = (p.items ++ [item])[i]?
      by_cases hlast : i = p.items.length
      · rw [hlast, getElem?_set_self (h.slot_lt _), getElem?_concat_length]
      · have hlt : i < p.items.length := by omega
        have hne : q.slot p.items.length ≠ q.slot i := by
          intro heq
          exact hlast (h.slot_inj hroom (hlt.trans hroom) heq).symm
        rw [getElem?_set_ne hne, h.items i hlt, getElem?_append_left hlt]

theorem Holds.empty_iff (h : Holds mem q p) : q.empty = true ↔ p.items = [] := by
  rw [Queue.empty, h.count, decide_eq_true_iff, length_eq_zero_iff]

end

/-- The loop of `grow` moves the items that are left to the front of the new buffer. -/
theorem Holds.moveAll (h : Holds mem q p) {left i : Nat} {buffer newBuffer : List T}
    (hi : i + left = p.items.length) (hbuffer : buffer.length = q.capacity)
    (hitems : ∀ j, i ≤ j → j < p.items.length → buffer[q.slot j]? = p.items[j]?)
    (hnew : p.items.length ≤ newBuffer.length) (hdone : ∀ j < i, newBuffer[j]? = p.items[j]?) :
    ∃ result, q.moveAll left i buffer newBuffer = some result ∧
      result.length = newBuffer.length ∧
      ∀ j < p.items.length, result[j]? = p.items[j]? := by
  induction left generalizing i buffer newBuffer with
  | zero =>
    refine ⟨newBuffer, rfl, rfl, ?_⟩
    intro j hj
    exact hdone j (by omega)
  | succ left ih =>
    have hlt : i < p.items.length := by omega
    have hout : moveOut buffer (q.slot i) =
        some (p.items[i], buffer.set (q.slot i) default) := by
      rw [moveOut, hitems i (Nat.le_refl i) hlt, getElem?_eq_getElem hlt]
      rfl
    have hin : moveIn newBuffer i p.items[i] = some (newBuffer.set i p.items[i]) := by
      rw [moveIn, if_pos (by omega)]
    rw [Queue.moveAll, hout]
    dsimp only
    rw [hin]
    dsimp only
    have hrest (j : Nat) (hij : i + 1 ≤ j) (hj : j < p.items.length) :
        (buffer.set (q.slot i) default)[q.slot j]? = p.items[j]? := by
      have hne : q.slot i ≠ q.slot j := by
        intro heq
        have := h.slot_inj (hlt.trans_le h.le) (hj.trans_le h.le) heq
        omega
      rw [getElem?_set_ne hne, hitems j (by omega) hj]
    have hmoved (j : Nat) (hj : j < i + 1) :
        (newBuffer.set i p.items[i])[j]? = p.items[j]? := by
      by_cases heq : j = i
      · rw [heq, getElem?_set_self (by omega), getElem?_eq_getElem hlt]
      · rw [getElem?_set_ne (Ne.symm heq), hdone j (by omega)]
    obtain ⟨result, hresult, hlen, hall⟩ := ih (by omega) (length_set.trans hbuffer) hrest
      (by rw [length_set]; exact hnew) hmoved
    exact ⟨result, hresult, hlen.trans length_set, hall⟩

/-- `grow` doubles the room, or throws and changes nothing. -/
theorem Holds.grow (h : Holds mem q p) :
    if mem.maxSize < q.capacity * 2 then q.grow mem = some (q, false)
    else ∃ q', q.grow mem = some (q', true) ∧ q'.capacity = q.capacity * 2 ∧
      Holds mem q' { p with room := p.room * 2 } := by
  obtain ⟨k, hk, hcap⟩ := h.power
  have hmod : q.capacity * 2 % sizeMod = q.capacity * 2 := by
    have hfits := h.fits
    have hsmall := mem.small
    rw [sizeMod]
    omega
  split
  next hlarge =>
    simp only [Queue.grow, hmod]
    rw [resize, if_pos hlarge]
  next hfit =>
    have hle := h.le
    have hnew : p.items.length ≤ (List.replicate (q.capacity * 2) (default : T)).length := by
      rw [length_replicate]
      omega
    obtain ⟨result, hresult, hlen, hall⟩ :=
      h.moveAll ((Nat.zero_add q.count).trans h.count) h.length (fun j _ hj => h.items j hj)
        hnew (fun j hj => absurd hj (Nat.not_lt_zero j))
    have hpow : q.capacity * 2 = 2 ^ (k + 1) := by rw [hcap, Nat.pow_succ]
    -- the doubled capacity is still a power of two that fits
    have hexp : k + 1 ≤ 62 := by
      by_contra hgt
      have hge : 2 ^ 63 ≤ 2 ^ (k + 1) := Nat.pow_le_pow_right (by omega) (by omega)
      have hsmall := mem.small
      omega
    have hnew : Holds mem
        { buffer := result, capacity := q.capacity * 2, mask := q.capacity * 2 - 1, head := 0,
          tail := q.count, count := q.count } { p with room := p.room * 2 } := by
      refine
        { power := ⟨k + 1, hexp, hpow⟩, fits := Nat.not_lt.mp hfit, room := ?_, mask := rfl,
          length := hlen.trans length_replicate, count := h.count, le := ?_, tail := ?_,
          items := ?_ }
      · dsimp only
        rw [h.room]
      · dsimp only
        omega
      · have hcount := h.count
        have hfits := h.fits
        have hsmall := mem.small
        dsimp only
        rw [Nat.zero_add, Nat.mod_eq_of_lt]
        rw [sizeMod]
        omega
      · intro i hi
        have hslot : Queue.slot (T := T)
            { buffer := result, capacity := q.capacity * 2, mask := q.capacity * 2 - 1,
              head := 0, tail := q.count, count := q.count } i = i := by
          rw [Queue.slot]
          dsimp only
          rw [hpow, mod_mask hexp, Nat.zero_add, Nat.mod_eq_of_lt]
          exact hi.trans_le (hle.trans (by omega))
        rw [hslot]
        exact hall i hi
    refine ⟨_, ?_, rfl, hnew⟩
    simp only [Queue.grow, hmod]
    rw [resize, if_neg hfit]
    dsimp only
    rw [hresult]
    rfl

/-- `push` puts the item behind the others, or throws and changes nothing. -/
theorem Holds.push (h : Holds mem q p) (item : T) :
    (∃ q', q.push mem item = some (q', true) ∧
        plainStep mem p (.push item) = ({ items := p.items ++ [item], room := q'.capacity }, .done) ∧
        Holds mem q' { items := p.items ++ [item], room := q'.capacity }) ∨
      (q.push mem item = some (q, false) ∧ plainStep mem p (.push item) = (p, .thrown)) := by
  by_cases hfull : p.items.length = p.room
  · have hcount : q.count = q.capacity := by rw [h.count, hfull, h.room]
    have hgrow := h.grow
    by_cases hlarge : mem.maxSize < q.capacity * 2
    · rw [if_pos hlarge] at hgrow
      refine .inr ⟨?_, ?_⟩
      · rw [Queue.push, if_pos hcount, hgrow]
      · rw [plainStep, if_pos hfull, h.room, if_pos hlarge]
    · rw [if_neg hlarge] at hgrow
      obtain ⟨q₁, hq₁, hcap, h₁⟩ := hgrow
      have hroom : p.items.length < q₁.capacity := by
        have hpos := h.capacity_pos
        have hroom := h.room
        omega
      obtain ⟨q', hq', hcap', h'⟩ := h₁.append hroom item
      have hdouble : p.room * 2 = q'.capacity := by rw [hcap', hcap, h.room]
      refine .inl ⟨q', ?_, ?_, ?_⟩
      · rw [Queue.push, if_pos hcount, hq₁]
        dsimp only
        rw [hq']
        rfl
      · rw [plainStep, if_pos hfull, if_neg (h.room ▸ hlarge), hdouble]
      · rw [← hdouble]
        exact h'
  · have hcount : q.count ≠ q.capacity := by
      rw [h.count, ← h.room]
      exact hfull
    have hle := h.le
    obtain ⟨q', hq', hcap, h'⟩ := h.append (by have := h.room; omega) item
    have hroom : p.room = q'.capacity := by rw [hcap, h.room]
    refine .inl ⟨q', ?_, ?_, ?_⟩
    · rw [Queue.push, if_neg hcount, hq']
      rfl
    · rw [plainStep, if_neg hfull, hroom]
    · rw [← hroom]
      exact h'

/-- A queue that is not empty gives its first item. -/
theorem Holds.pop (h : Holds mem q p) {item : T} {rest : List T} (hp : p.items = item :: rest) :
    ∃ q', q.pop = some (item, q') ∧ Holds mem q' { p with items := rest } := by
  have hlen : p.items.length = rest.length + 1 := by rw [hp, length_cons]
  have hslot : q.head &&& q.mask = q.slot 0 := by
    obtain ⟨k, hk, hcap⟩ := h.power
    rw [h.slot_eq, h.mask, hcap, Nat.and_two_pow_sub_one_eq_mod, Nat.add_zero]
  have hfirst : q.buffer[q.slot 0]? = some item := by
    rw [h.items 0 (by omega), hp, getElem?_cons_zero]
  refine ⟨{ q with buffer := q.buffer.set (q.slot 0) default, head := (q.head + 1) % sizeMod,
                   count := q.count - 1 }, ?_, ?_⟩
  · rw [Queue.pop, hslot, moveOut, hfirst]
    rfl
  · have hcount := h.count
    have hle := h.le
    refine
      { power := h.power, fits := h.fits, room := h.room, mask := h.mask,
        length := length_set.trans h.length, count := ?_, le := ?_, tail := ?_, items := ?_ }
    · dsimp only
      omega
    · dsimp only
      omega
    · dsimp only
      rw [Nat.mod_add_mod, h.tail, show q.head + 1 + (q.count - 1) = q.head + q.count by omega]
    · intro i hi
      rw [slot_succ]
      have hi : i + 1 < p.items.length := by
        rw [hlen]
        exact Nat.succ_lt_succ hi
      have hne : q.slot 0 ≠ q.slot (i + 1) := by
        intro heq
        have := h.slot_inj h.capacity_pos (hi.trans_le hle) heq
        omega
      dsimp only
      rw [getElem?_set_ne hne, h.items (i + 1) hi, hp, getElem?_cons_succ]

/-- An empty ring of a power of two. -/
theorem holds_empty {k : Nat} (hk : k ≤ 62) (hfits : 2 ^ k ≤ mem.maxSize) :
    Holds (T := T) mem
      { buffer := List.replicate (2 ^ k) default, capacity := 2 ^ k, mask := 2 ^ k - 1, head := 0,
        tail := 0, count := 0 } { items := [], room := 2 ^ k } where
  power := ⟨k, hk, rfl⟩
  fits := hfits
  room := rfl
  mask := rfl
  length := length_replicate
  count := rfl
  le := Nat.zero_le _
  tail := by
    dsimp only
    rw [Nat.add_zero, Nat.zero_mod]
  items i hi := absurd hi (Nat.not_lt_zero i)

theorem Queue.clear_holds (q : Queue T) : Holds mem q.clear { items := [], room := 256 } :=
  holds_empty (k := 8) (by omega) mem.large

/-- The ring queue simulates the plain one. -/
theorem simulates : Machine.Simulates (Holds (T := T) mem) (step mem) (plainStep mem) := by
  intro q p h op
  cases op with
  | push item =>
    rcases h.push item with ⟨q', hq', hplain, h'⟩ | ⟨hq, hplain⟩
    · refine ⟨q', ?_, ?_⟩
      · rw [step, hq', hplain]
        rfl
      · rw [hplain]
        exact h'
    · refine ⟨q, ?_, ?_⟩
      · rw [step, hq, hplain]
        rfl
      · rw [hplain]
        exact h
  | take =>
    cases hp : p.items with
    | nil =>
      refine ⟨q, ?_, ?_⟩
      · rw [step, if_pos (h.empty_iff.mpr hp), plainStep, hp]
        rfl
      · rw [plainStep, hp]
        have hsame : p = { p with items := [] } := by rw [← hp]
        rw [tail_nil, ← hsame]
        exact h
    | cons item rest =>
      have hsome : ¬ q.empty = true := by
        rw [h.empty_iff, hp]
        exact cons_ne_nil item rest
      obtain ⟨q', hq', h'⟩ := h.pop hp
      refine ⟨q', ?_, ?_⟩
      · rw [step, if_neg hsome, hq', plainStep, hp]
        rfl
      · rw [plainStep, hp]
        exact h'
  | size =>
    refine ⟨q, ?_, h⟩
    rw [step, plainStep, h.count]
  | clear => exact ⟨q.clear, rfl, q.clear_holds⟩

/-! ## Runs -/

/-- The room of a new queue. -/
def initialRoom (n : Nat) : Nat :=
  if n ≤ 16 ∨ 2 ^ 63 < n then 16 else 2 ^ Nat.clog 2 n

/-- The room is a power of two, and it is what was asked for up to `2 ^ 63`. -/
theorem initialRoom_power (n : Nat) :
    (∃ k ≤ 63, initialRoom n = 2 ^ k) ∧ (n ≤ 2 ^ 63 → n ≤ initialRoom n) := by
  rw [initialRoom]
  split
  next hout =>
    refine ⟨⟨4, by omega, rfl⟩, ?_⟩
    omega
  next hin =>
    refine ⟨⟨Nat.clog 2 n, ?_, rfl⟩, ?_⟩
    · rw [Nat.clog_le_iff_le_pow (by omega)]
      omega
    · intro _
      exact Nat.le_pow_clog (by omega) n

theorem max_roundUpPow2 {n : Nat} (hn : n < sizeMod) : max 16 (roundUpPow2 n) = initialRoom n := by
  rw [roundUpPow2_eq hn]
  by_cases hlarge : 2 ^ 63 < n
  · rw [if_pos (.inr hlarge), initialRoom, if_pos (.inr hlarge)]
    rfl
  · by_cases hsmall : n ≤ 16
    · have hroom : initialRoom n = 16 := if_pos (.inl hsmall)
      rw [hroom]
      split
      next => rfl
      next =>
        have hclog : Nat.clog 2 n ≤ 4 := (Nat.clog_le_iff_le_pow (by omega)).mpr (by omega)
        have hpow : 2 ^ Nat.clog 2 n ≤ 2 ^ 4 := Nat.pow_le_pow_right (by omega) hclog
        omega
    · rw [if_neg (by omega), initialRoom, if_neg (by omega)]
      have hclog := Nat.le_pow_clog (b := 2) (by omega) n
      omega

/-- A queue that can be built is empty and has its room. -/
theorem ofCapacity_holds {n : Nat} (hn : n < sizeMod) (hfits : initialRoom n ≤ mem.maxSize) :
    ∃ q : Queue T, Queue.ofCapacity mem n = some q ∧
      Holds mem q { items := [], room := initialRoom n } := by
  obtain ⟨⟨k, hk, hpow⟩, -⟩ := initialRoom_power n
  have hk : k ≤ 62 := by
    by_contra hgt
    have hge : 2 ^ 63 ≤ 2 ^ k := Nat.pow_le_pow_right (by omega) (by omega)
    have hsmall := mem.small
    omega
  rw [hpow]
  refine ⟨_, ?_, holds_empty hk (hpow ▸ hfits)⟩
  simp only [Queue.ofCapacity]
  rw [max_roundUpPow2 hn, resize, if_neg (Nat.not_lt.mpr hfits), hpow]
  rfl

/-- A queue that could be built gives, in every run of operations, the answers of the plain
    queue of its room: what is pushed comes out once and in order, through every wrap-around
    and doubling, and a `push` that throws has changed nothing. -/
theorem run_plain (n : Nat) (hn : n < sizeMod) (hfits : initialRoom n ≤ mem.maxSize)
    (ops : List (Op T)) :
    ∃ q q', Queue.ofCapacity mem n = some q ∧
      Machine.run (step mem) q ops =
        some (q', (Machine.reference (plainStep mem) ⟨[], initialRoom n⟩ ops).2) := by
  obtain ⟨q, hq, hholds⟩ := ofCapacity_holds (T := T) hn hfits
  obtain ⟨q', hrun, -⟩ := simulates.run hholds ops
  exact ⟨q, q', hq, hrun⟩

/-- Twelve items go through, and twenty more, of which the last stand in front of the first
    until the buffer is full and doubles. -/
def wrapping : List (Op Nat) :=
  (List.range 12).map .push ++ List.replicate 12 .take ++ (List.range 20).map .push ++ [.size] ++
    List.replicate 20 .take

theorem run_plain_wrapping :
    ∃ q q', Queue.ofCapacity (T := Nat) ⟨1000, by decide, by decide⟩ 2 = some q ∧
      Machine.run (step ⟨1000, by decide, by decide⟩) q wrapping =
        some (q', List.replicate 12 .done ++ (List.range 12).map (fun i => .item (some i)) ++
          List.replicate 20 .done ++ [.size 20] ++ (List.range 20).map fun i => .item (some i)) :=
  run_plain 2 (by decide) (by decide) wrapping

end RingQueue
