import Mathlib.Order.OrderDual
import Mathlib.Order.Lattice
import Mathlib.Data.List.Basic

/-!
# The first maximum

The first index at which a function on a range has its maximum, and, in the dual order, its
minimum.
-/

namespace FirstMax

variable {α : Type} [LinearOrder α] {n : Nat} {f : Nat → α}

/-- The first index below `n` with the greatest value. -/
def firstMax (n : Nat) (f : Nat → α) : Nat :=
  (List.range n).foldl (fun best i => if f best < f i then i else best) 0

/-- The first index below `n` with the least value. -/
def firstMin (n : Nat) (f : Nat → α) : Nat := firstMax n fun i => OrderDual.toDual (f i)

/-- One more index. -/
theorem firstMax_succ (n : Nat) (f : Nat → α) :
    firstMax (n + 1) f = if f (firstMax n f) < f n then n else firstMax n f := by
  unfold firstMax
  rw [List.range_succ, List.foldl_append]
  rfl

/-- The index is in the range. -/
theorem firstMax_lt (hn : 0 < n) : firstMax n f < n := by
  induction n with
  | zero => exact absurd hn (Nat.lt_irrefl 0)
  | succ n ih =>
    rw [firstMax_succ]
    split
    · exact Nat.lt_succ_self n
    · rcases Nat.eq_zero_or_pos n with rfl | hpos
      · exact Nat.one_pos
      · exact Nat.lt_succ_of_lt (ih hpos)

/-- No value is greater. -/
theorem le_firstMax {i : Nat} (hi : i < n) : f i ≤ f (firstMax n f) := by
  induction n with
  | zero => exact absurd hi (Nat.not_lt_zero i)
  | succ n ih =>
    rw [firstMax_succ]
    rcases Nat.lt_succ_iff_lt_or_eq.mp hi with hlt | rfl
    · split
      next hmore => exact (ih hlt).trans hmore.le
      next => exact ih hlt
    · split
      next => exact le_rfl
      next hless => exact not_lt.mp hless

/-- The index is in the range. -/
theorem firstMin_lt (hn : 0 < n) : firstMin n f < n := firstMax_lt hn

/-- No value is less. -/
theorem firstMin_le {i : Nat} (hi : i < n) : f (firstMin n f) ≤ f i :=
  OrderDual.toDual_le_toDual.mp (le_firstMax (f := fun i => OrderDual.toDual (f i)) hi)

end FirstMax
