import Mathlib.Order.Lattice

/-!
# Searching a sorted list

Where a value would be inserted into an ascending list: before or behind the entries that are
equal to it.
-/

namespace SortedSearch

variable {α : Type} [LinearOrder α]

/-- On which side of equal entries a value is inserted. -/
inductive Side where
  | left
  | right
  deriving DecidableEq, Repr

/-- Where a value would be inserted. -/
def searchsorted (xs : List α) (v : α) : Side → Nat
  | .left => (xs.takeWhile fun x => decide (x < v)).length
  | .right => (xs.takeWhile fun x => decide (x ≤ v)).length

section TakeWhile

variable {β : Type} {p : β → Bool} {y : β} {i : Nat}

/-- An entry of the longest front that satisfies a test does. -/
theorem of_lt_length_takeWhile {xs : List β} (hi : xs[i]? = some y)
    (hlt : i < (xs.takeWhile p).length) : p y = true := by
  induction xs generalizing i with
  | nil => cases hi
  | cons x xs ih =>
    by_cases hx : p x = true
    · rw [List.takeWhile_cons_of_pos hx, List.length_cons] at hlt
      cases i with
      | zero =>
        obtain rfl : x = y := by simpa using hi
        exact hx
      | succ i => exact ih hi (Nat.lt_of_succ_lt_succ hlt)
    · rw [List.takeWhile_cons_of_neg hx] at hlt
      cases hlt

/-- The entry behind the longest front that satisfies a test does not. -/
theorem of_eq_length_takeWhile {xs : List β} (hi : xs[(xs.takeWhile p).length]? = some y) :
    ¬ p y = true := by
  induction xs with
  | nil => cases hi
  | cons x xs ih =>
    by_cases hx : p x = true
    · rw [List.takeWhile_cons_of_pos hx, List.length_cons, List.getElem?_cons_succ] at hi
      exact ih hi
    · rw [List.takeWhile_cons_of_neg hx] at hi
      obtain rfl : x = y := by simpa using hi
      exact hx

end TakeWhile

variable {xs : List α} {v x : α} {i : Nat}

theorem searchsorted_le_length (xs : List α) (v : α) (side : Side) :
    searchsorted xs v side ≤ xs.length := by
  cases side <;> exact (List.takeWhile_prefix _).length_le

/-- What is left of the insertion on the left is less. -/
theorem lt_of_lt_left (hi : xs[i]? = some x) (hlt : i < searchsorted xs v .left) : x < v := by
  have htest := of_lt_length_takeWhile hi hlt
  rwa [decide_eq_true_eq] at htest

/-- What the insertion on the left pushes back is not less. -/
theorem le_of_eq_left (hi : xs[searchsorted xs v .left]? = some x) : v ≤ x := by
  have hnot := of_eq_length_takeWhile hi
  rwa [decide_eq_true_eq, not_lt] at hnot

/-- What is left of the insertion on the right is not greater. -/
theorem le_of_lt_right (hi : xs[i]? = some x) (hlt : i < searchsorted xs v .right) : x ≤ v := by
  have htest := of_lt_length_takeWhile hi hlt
  rwa [decide_eq_true_eq] at htest

/-- What the insertion on the right pushes back is greater. -/
theorem lt_of_eq_right (hi : xs[searchsorted xs v .right]? = some x) : v < x := by
  have hnot := of_eq_length_takeWhile hi
  rwa [decide_eq_true_eq, not_le] at hnot

end SortedSearch
