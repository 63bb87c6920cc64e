import Mathlib.Data.List.Infix
import Mathlib.Data.Nat.Bitwise
import Mathlib.Tactic.Ring

/-! # Prefix codes

    A code gives each symbol a word.  When no word begins another, a text can be read off
    the words of its symbols in one way only, and so can a text with a rest behind it that
    no word begins.  The words here are over any alphabet; the last section has words of
    bits as the digits of a number, most significant first. -/

namespace PrefixCode

open List

section Words

variable {σ α : Type*} {code : σ → List α} {a b : σ} {s t : List σ} {p q w : List α}

/-- No word begins the word of another symbol. -/
def PrefixFree (code : σ → List α) : Prop := ∀ a b, code a <+: code b → a = b

/-- The words of a text, one behind the other. -/
def encode (code : σ → List α) (s : List σ) : List α := s.flatMap code

/-- No word begins `w`. -/
def Stuck (code : σ → List α) (w : List α) : Prop := ∀ a, ¬ code a <+: w

theorem Stuck.of_prefix (h : Stuck code w) (hp : p <+: w) : Stuck code p :=
  fun a ha => h a (ha.trans hp)

@[simp] theorem encode_nil : encode code [] = [] := rfl

@[simp] theorem encode_cons : encode code (a :: s) = code a ++ encode code s := rfl

@[simp] theorem encode_append : encode code (s ++ t) = encode code s ++ encode code t :=
  flatMap_append

theorem PrefixFree.unique (h : PrefixFree code) (ha : code a <+: w) (hb : code b <+: w) :
    a = b := by
  rcases prefix_or_prefix_of_prefix ha hb with hab | hba
  · exact h a b hab
  · exact (h b a hba).symm

/-- What has been read of a text is a part of it, and the rest of it is still there. -/
theorem PrefixFree.encode_split (h : PrefixFree code) (hp : Stuck code p)
    (heq : encode code s ++ w = encode code t ++ p) :
    ∃ r, t = s ++ r ∧ w = encode code r ++ p := by
  induction s generalizing t with
  | nil => exact ⟨t, rfl, heq⟩
  | cons a s ih =>
    rw [encode_cons, append_assoc] at heq
    have ha : code a <+: encode code t ++ p := ⟨_, heq⟩
    cases t with
    | nil => exact absurd ha (hp a)
    | cons b t =>
      rw [encode_cons, append_assoc] at heq ha
      have hab : a = b := h.unique ha ⟨_, rfl⟩
      subst hab
      obtain ⟨r, rfl, hw⟩ := ih (append_cancel_left heq)
      exact ⟨r, rfl, hw⟩

/-- A text and what is stuck behind it can be told apart in one way. -/
theorem PrefixFree.encode_inj (h : PrefixFree code) (hp : Stuck code p) (hq : Stuck code q)
    (heq : encode code s ++ p = encode code t ++ q) : s = t ∧ p = q := by
  obtain ⟨r, rfl, hr⟩ := h.encode_split hq heq
  cases r with
  | nil => exact ⟨(append_nil s).symm, hr⟩
  | cons a r =>
    rw [encode_cons, append_assoc] at hr
    exact absurd ⟨_, hr.symm⟩ (hp a)

end Words

/-! ## Reading by a tree -/

section Trees

/-- A tree with a symbol at the end of the way its word leads. -/
inductive CodeTree (τ : Type*) where
  | empty
  | leaf (a : τ)
  | node (zero one : CodeTree τ)

variable {σ τ : Type*} {code : σ → List Bool} {t : CodeTree τ} {a : τ} {w : List Bool}

/-- The symbol on the way, if there is one. -/
def CodeTree.lookup : CodeTree τ → List Bool → Option τ
  | .leaf a, _ => some a
  | .node _ one, true :: w => one.lookup w
  | .node zero _, false :: w => zero.lookup w
  | _, _ => none

/-- Put a symbol at the end of a way. -/
def CodeTree.insert (a : τ) : List Bool → CodeTree τ → CodeTree τ
  | [], _ => .leaf a
  | true :: w, .node zero one => .node zero (insert a w one)
  | false :: w, .node zero one => .node (insert a w zero) one
  | true :: w, _ => .node .empty (insert a w .empty)
  | false :: w, _ => .node (insert a w .empty) .empty

theorem CodeTree.lookup_append (h : t.lookup w = some a) (v : List Bool) :
    t.lookup (w ++ v) = some a := by
  induction t generalizing w with
  | empty => cases w <;> cases h
  | leaf b => exact h
  | node zero one ihzero ihone =>
    cases w with
    | nil => cases h
    | cons b w =>
      cases b with
      | false => exact ihzero h
      | true => exact ihone h

/-- A code that a tree tells apart is a prefix code. -/
theorem PrefixFree.of_tree {symbol : σ → τ} (hinj : Function.Injective symbol)
    (h : ∀ b, t.lookup (code b) = some (symbol b)) : PrefixFree code := by
  rintro b c ⟨v, hv⟩
  have hb := CodeTree.lookup_append (h b) v
  rw [hv, h c] at hb
  exact hinj (Option.some.inj hb).symm

end Trees

/-! ## Words of bits -/

section Bits

variable {v w : List Bool} {l n c d : Nat}

/-- The number that bits are the digits of. -/
def value : List Bool → Nat
  | [] => 0
  | b :: w => b.toNat * 2 ^ w.length + value w

/-- The `n` lowest digits of a number. -/
def word : Nat → Nat → List Bool
  | 0, _ => []
  | n + 1, c => c.testBit n :: word n c

@[simp] theorem word_length (n c : Nat) : (word n c).length = n := by
  induction n with
  | zero => rfl
  | succ n ih => rw [word, length_cons, ih]

theorem value_lt (w : List Bool) : value w < 2 ^ w.length := by
  induction w with
  | nil => exact Nat.one_pos
  | cons b w ih =>
    have hb : b.toNat * 2 ^ w.length ≤ 1 * 2 ^ w.length :=
      Nat.mul_le_mul_right _ (Bool.toNat_le b)
    rw [value, length_cons, Nat.pow_succ]
    omega

theorem value_append (v w : List Bool) : value (v ++ w) = value v * 2 ^ w.length + value w := by
  induction v with
  | nil => rw [nil_append, value, Nat.zero_mul, Nat.zero_add]
  | cons b v ih =>
    rw [cons_append, value, value, ih, length_append, Nat.pow_add]
    ring

theorem value_word (n c : Nat) : value (word n c) = c % 2 ^ n := by
  induction n with
  | zero => rw [word, value, Nat.pow_zero, Nat.mod_one]
  | succ n ih =>
    rw [word, value, word_length, ih, Nat.mod_pow_succ, Nat.testBit_eq_decide_div_mod_eq]
    rcases Nat.mod_two_eq_zero_or_one (c / 2 ^ n) with h | h
    · rw [h, decide_eq_false (by decide), Bool.toNat_false]
      ring
    · rw [h, decide_eq_true rfl, Bool.toNat_true]
      ring

/-- Bits are the digits of their number. -/
theorem value_inj (hlen : v.length = w.length) (heq : value v = value w) : v = w := by
  induction v generalizing w with
  | nil => exact (length_eq_zero_iff.mp hlen.symm).symm
  | cons a v ih =>
    cases w with
    | nil => cases hlen
    | cons b w =>
      have htail : v.length = w.length := Nat.succ.inj hlen
      have hv := value_lt v
      have hw := value_lt w
      rw [value, value, htail] at heq
      rw [htail] at hv
      have hab : a = b := by
        cases a <;> cases b <;> simp only [Bool.toNat_true, Bool.toNat_false] at heq ⊢ <;> omega
      subst hab
      rw [ih htail (by omega)]

theorem word_value : word w.length (value w) = w :=
  value_inj (word_length _ _) (by rw [value_word, Nat.mod_eq_of_lt (value_lt w)])

theorem value_take : value (w.take l) = value w / 2 ^ (w.length - l) := by
  have hvalue := value_append (w.take l) (w.drop l)
  have hlt := value_lt (w.drop l)
  rw [take_append_drop, length_drop] at hvalue
  rw [length_drop] at hlt
  rw [hvalue, Nat.mul_comm, Nat.mul_add_div (Nat.two_pow_pos _), Nat.div_eq_of_lt hlt,
    Nat.add_zero]

theorem value_drop : value (w.drop l) = value w % 2 ^ (w.length - l) := by
  have hvalue := value_append (w.take l) (w.drop l)
  have hlt := value_lt (w.drop l)
  rw [take_append_drop, length_drop] at hvalue
  rw [length_drop] at hlt
  rw [hvalue, Nat.mul_comm, Nat.mul_add_mod, Nat.mod_eq_of_lt hlt]

/-- The word of a number begins some bits when the first of them spell that number. -/
theorem prefix_word_iff (hc : c < 2 ^ l) :
    word l c <+: w ↔ l ≤ w.length ∧ value (w.take l) = c := by
  constructor
  · rintro ⟨u, rfl⟩
    refine ⟨by rw [length_append, word_length]; omega, ?_⟩
    rw [take_append_of_le_length (Nat.le_of_eq (word_length l c).symm),
      take_of_length_le (Nat.le_of_eq (word_length l c)), value_word, Nat.mod_eq_of_lt hc]
  · rintro ⟨hl, heq⟩
    have htake : word l c = w.take l := by
      refine value_inj ?_ ?_
      · rw [word_length, length_take, Nat.min_eq_left hl]
      · rw [value_word, heq, Nat.mod_eq_of_lt hc]
    rw [htake]
    exact take_prefix l w

/-- The word of one number begins the word of another: the first digits of the second are
    those of the first. -/
theorem word_prefix_word (h : word l c <+: word n d) (hc : c < 2 ^ l) (hd : d < 2 ^ n) :
    l ≤ n ∧ d >>> (n - l) = c := by
  obtain ⟨hl, heq⟩ := (prefix_word_iff hc).mp h
  rw [word_length] at hl
  rw [value_take, word_length, value_word,
    Nat.mod_eq_of_lt hd] at heq
  exact ⟨hl, (Nat.shiftRight_eq_div_pow _ _).trans heq⟩

theorem value_replicate (n : Nat) : value (List.replicate n true) = 2 ^ n - 1 := by
  induction n with
  | zero => rfl
  | succ n ih =>
    have hpos := Nat.two_pow_pos n
    rw [replicate_succ, value, length_replicate, ih, Nat.pow_succ, Bool.toNat_true]
    omega

/-- All ones. -/
theorem value_ones : value w = 2 ^ w.length - 1 ↔ ∀ b ∈ w, b = true := by
  constructor
  · intro h
    have heq : w = List.replicate w.length true :=
      value_inj length_replicate.symm (by rw [value_replicate, h])
    intro b hb
    rw [heq] at hb
    exact eq_of_mem_replicate hb
  · intro h
    have heq := eq_replicate_of_mem h
    rw [heq, value_replicate, length_replicate]

end Bits

end PrefixCode
