import Mathlib.Algebra.BigOperators.Group.List.Basic
import Mathlib.Algebra.BigOperators.Group.List.Lemmas
import Mathlib.Data.List.TakeDrop
import Mathlib.Algebra.GroupWithZero.Nat

/-!
# Flattened blocks

Blocks of given lengths lie one behind the other in one list. A position is told by its
block and by its index in the block.
-/

namespace Blocks

/-- Where a block starts. -/
def offset (lengths : List Nat) (k : Nat) : Nat := (lengths.take k).sum

variable {lengths : List Nat} {k k' i i' : Nat}

@[simp] theorem offset_zero (lengths : List Nat) : offset lengths 0 = 0 := by
  simp [offset]

@[simp] theorem offset_cons_succ (n : Nat) (lengths : List Nat) (k : Nat) :
    offset (n :: lengths) (k + 1) = n + offset lengths k := by
  simp [offset]

/-- A block ends before every later one starts. -/
theorem offset_add_le {n : Nat} (hk : lengths[k]? = some n) (hlt : k < k') :
    offset lengths k + n ≤ offset lengths k' := by
  induction lengths generalizing k k' with
  | nil => simp at hk
  | cons m lengths ih =>
    obtain ⟨k', rfl⟩ : ∃ j, k' = j + 1 := ⟨k' - 1, by omega⟩
    cases k with
    | zero =>
      obtain rfl : m = n := by simpa using hk
      simp
    | succ k =>
      have hrest := ih (show lengths[k]? = some n by simpa using hk) (show k < k' by omega)
      simp only [offset_cons_succ]
      omega

/-- A position belongs to one block, at one index. -/
theorem offset_add_inj {n n' : Nat} (hk : lengths[k]? = some n) (hk' : lengths[k']? = some n')
    (hi : i < n) (hi' : i' < n') (h : offset lengths k + i = offset lengths k' + i') :
    k = k' ∧ i = i' := by
  rcases Nat.lt_trichotomy k k' with hlt | rfl | hlt
  · have := offset_add_le hk hlt
    omega
  · exact ⟨rfl, by omega⟩
  · have := offset_add_le hk' hlt
    omega

/-- What a concatenation of blocks holds at a position. -/
theorem getElem?_flatMap {α β : Type} {l : List α} (f : α → List β) (length : α → Nat)
    (hlength : ∀ a ∈ l, (f a).length = length a) {a : α} (hk : l[k]? = some a)
    (hi : i < length a) : (l.flatMap f)[offset (l.map length) k + i]? = (f a)[i]? := by
  induction l generalizing k with
  | nil => simp at hk
  | cons b l ih =>
    have hb := hlength b List.mem_cons_self
    have hrest (a : α) (ha : a ∈ l) := hlength a (List.mem_cons_of_mem _ ha)
    cases k with
    | zero =>
      obtain rfl : b = a := by simpa using hk
      rw [List.flatMap_cons, offset_zero, Nat.zero_add, List.getElem?_append_left (by omega)]
    | succ k =>
      rw [List.flatMap_cons, List.map_cons, offset_cons_succ, Nat.add_assoc,
        List.getElem?_append_right (by omega), hb, Nat.add_sub_cancel_left]
      exact ih hrest (by simpa using hk)

/-! ## The positions of blocks -/

/-- The positions of each block, where the first one starts at a position. -/
def positions (start : Nat) : List Nat → List (List Nat)
  | [] => []
  | n :: lengths => List.range' start n :: positions (start + n) lengths

/-- The positions of the blocks are all positions in order. -/
theorem flatten_positions (start : Nat) (lengths : List Nat) :
    (positions start lengths).flatten = List.range' start lengths.sum := by
  induction lengths generalizing start with
  | nil => rfl
  | cons n lengths ih =>
    rw [positions, List.flatten_cons, ih, List.sum_cons, List.range'_append_1]

@[simp] theorem map_length_positions (start : Nat) (lengths : List Nat) :
    (positions start lengths).map List.length = lengths := by
  induction lengths generalizing start with
  | nil => rfl
  | cons n lengths ih => rw [positions, List.map_cons, List.length_range', ih]

@[simp] theorem length_positions (start : Nat) (lengths : List Nat) :
    (positions start lengths).length = lengths.length := by
  rw [← List.length_map (f := List.length), map_length_positions]

/-- The positions of one block. -/
theorem getElem?_positions (start : Nat) {n : Nat} (hk : lengths[k]? = some n) :
    (positions start lengths)[k]? = some (List.range' (start + offset lengths k) n) := by
  induction lengths generalizing start k with
  | nil => simp at hk
  | cons m lengths ih =>
    cases k with
    | zero =>
      obtain rfl : m = n := by simpa using hk
      simp [positions]
    | succ k =>
      rw [offset_cons_succ, ← Nat.add_assoc]
      exact ih (start + m) (by simpa using hk)

/-- A block is what stands between where it starts and where the next one does. -/
theorem slice_flatten {α : Type} {blocks : List (List α)} {block : List α}
    (hk : blocks[k]? = some block) :
    (blocks.flatten.take (offset (blocks.map List.length) (k + 1))).drop
      (offset (blocks.map List.length) k) = block := by
  obtain ⟨hlt, rfl⟩ := List.getElem?_eq_some_iff.mp hk
  exact List.drop_take_succ_flatten_eq_getElem blocks k hlt

/-- Where the next block starts. -/
theorem offset_succ {n : Nat} (hk : lengths[k]? = some n) :
    offset lengths (k + 1) = offset lengths k + n := by
  obtain ⟨hlt, rfl⟩ := List.getElem?_eq_some_iff.mp hk
  unfold offset
  rw [List.take_succ_eq_append_getElem hlt, List.sum_append_nat, List.sum_singleton]

end Blocks
