import Mathlib.Algebra.GroupWithZero.Nat
import Mathlib.Data.List.Infix

/-! # Queues that evict

    Items with a weight wait in a queue, oldest first, and a counter beside the queue says
    what they weigh together.  New items come in at the back; while the counter exceeds a
    capacity, the item at the front leaves and its weight is taken off.  A counter that is
    right stays right, and what is left is the newest part of what has come in. -/

namespace EvictingQueue

open List

variable {α : Type*} {weight : α → Nat} {cap : Nat} {items log : List α} {a : α}

/-- What items weigh together. -/
def total (weight : α → Nat) (items : List α) : Nat := (items.map weight).sum

/-- The loop of an eviction: the counter and the items after it. -/
def evictCounted (weight : α → Nat) (cap : Nat) : Nat → List α → Nat × List α
  | size, [] => (size, [])
  | size, e :: rest =>
      if size > cap then evictCounted weight cap (size - weight e) rest else (size, e :: rest)

/-- The items that are left, by their weights alone. -/
def evict (weight : α → Nat) (cap : Nat) : List α → List α
  | [] => []
  | e :: rest => if total weight (e :: rest) > cap then evict weight cap rest else e :: rest

theorem total_cons : total weight (a :: items) = weight a + total weight items := by
  rw [total, total, map_cons, sum_cons]

theorem total_append (items new : List α) :
    total weight (items ++ new) = total weight items + total weight new := by
  rw [total, total, total, map_append, sum_append]

theorem total_reverse (items : List α) : total weight items.reverse = total weight items := by
  rw [total, total, map_reverse, sum_reverse]

/-- A counter that is right before an eviction is right behind it. -/
theorem evictCounted_eq :
    evictCounted weight cap (total weight items) items =
      (total weight (evict weight cap items), evict weight cap items) := by
  induction items with
  | nil => rfl
  | cons e rest ih =>
    rw [evictCounted, evict]
    split
    · have hsub : total weight (e :: rest) - weight e = total weight rest := by
        rw [total_cons, Nat.add_sub_cancel_left]
      rw [hsub]
      exact ih
    · rfl

/-- The newest items are left. -/
theorem evict_suffix : evict weight cap items <:+ items := by
  induction items with
  | nil => exact suffix_refl []
  | cons e rest ih =>
    rw [evict]
    split
    · exact ih.trans (suffix_cons e rest)
    · exact suffix_refl _

/-- What is left fits the capacity. -/
theorem evict_total : total weight (evict weight cap items) ≤ cap := by
  induction items with
  | nil => exact Nat.zero_le cap
  | cons e rest ih =>
    rw [evict]
    split
    · exact ih
    · exact Nat.not_lt.mp ‹_›

theorem evict_length_le : (evict weight cap items).length ≤ items.length :=
  evict_suffix.length_le

theorem total_drop_le (i : Nat) : total weight (items.drop i) ≤ total weight items := by
  have hsplit : total weight (items.take i ++ items.drop i) = _ := total_append _ _
  rw [take_append_drop] at hsplit
  omega

/-- An item is left exactly when the items from it on fit the capacity together. -/
theorem evict_keeps {i : Nat} (hi : i ≤ items.length) :
    items.length ≤ i + (evict weight cap items).length ↔ total weight (items.drop i) ≤ cap := by
  induction items generalizing i with
  | nil =>
    rw [drop_nil]
    exact ⟨fun _ => Nat.zero_le _, fun _ => Nat.zero_le _⟩
  | cons e rest ih =>
    rw [evict]
    have hshort : (evict weight cap rest).length ≤ rest.length := evict_length_le
    split
    · rename_i hlarge
      cases i with
      | zero =>
        rw [drop_zero, length_cons]
        exact ⟨fun h => by omega, fun h => by omega⟩
      | succ i =>
        rw [length_cons] at hi ⊢
        rw [drop_succ_cons, ← ih (by omega)]
        omega
    · rename_i hfits
      have hdrop : total weight ((e :: rest).drop i) ≤ total weight (e :: rest) := total_drop_le i
      exact ⟨fun _ => by omega, fun _ => Nat.le_add_left _ _⟩

end EvictingQueue
