import Mathlib.Algebra.Order.Ring.Rat
import Mathlib.Data.List.Perm.Lattice
import Mathlib.Data.List.Sort
import Mathlib.Data.Nat.Cast.Order.Ring

/-!
# Indices in the order of their keys

Where the key of an index is the index itself, or a value above all indices for those that are not
available, the available indices come first and in their order.
-/

namespace Argsort

/-- The indices below `n` in the order of their keys, where equal keys may come in any order. -/
structure Sorts (n : Nat) (key : Nat → ℚ) (indices : List Nat) : Prop where
  perm : indices.Perm (List.range n)
  sorted : (indices.map key).Pairwise (· ≤ ·)

variable {n large : Nat} {available : Nat → Bool}

/-- The priority of an index. -/
def priority (large : Nat) (available : Nat → Bool) (i : Nat) : ℚ :=
  if available i then (i : ℚ) else large

/-- The priority of an index below all that are not available tells the index. -/
theorem eq_of_priority {i j : Nat} (hj : available j = true) (hlt : j < large)
    (h : priority large available i = priority large available j) : i = j := by
  unfold priority at h
  rw [if_pos hj] at h
  split at h
  next => exact Nat.cast_injective h
  next => exact absurd (Nat.cast_injective h) hlt.ne'

/-- The available indices come first. -/
theorem Sorts.take_eq_filter {indices : List Nat} (h : Sorts n (priority large available) indices)
    (hlarge : n ≤ large) :
    indices.take ((List.range n).filter available).length = (List.range n).filter available := by
  obtain ⟨first, hfirst⟩ : ∃ first, (List.range n).filter available = first := ⟨_, rfl⟩
  obtain ⟨rest, hrest⟩ : ∃ rest, (List.range n).filter (fun i => !available i) = rest := ⟨_, rfl⟩
  have hmem : ∀ i ∈ first, i < n ∧ available i = true := by
    intro i hi
    rw [← hfirst] at hi
    exact ⟨List.mem_range.mp (List.mem_filter.mp hi).1, (List.mem_filter.mp hi).2⟩
  have hnot : ∀ i ∈ rest, priority large available i = large := by
    intro i hi
    rw [← hrest] at hi
    have := (List.mem_filter.mp hi).2
    rw [priority, if_neg (by simpa using this)]
  have hperm : indices.Perm (first ++ rest) := by
    rw [← hfirst, ← hrest]
    exact h.perm.trans (List.filter_append_perm _ _).symm
  -- Both lists of keys are sorted.
  have hsorted : ((first ++ rest).map (priority large available)).Pairwise (· ≤ ·) := by
    rw [List.map_append, List.pairwise_append]
    refine ⟨?_, ?_, ?_⟩
    · rw [List.pairwise_map]
      have hlt : first.Pairwise (· < ·) := by
        rw [← hfirst]
        exact List.pairwise_lt_range.filter _
      refine hlt.imp_of_mem fun {i j} hi hj hij => ?_
      rw [priority, if_pos (hmem i hi).2, priority, if_pos (hmem j hj).2]
      exact Nat.cast_le.mpr hij.le
    · rw [List.pairwise_map]
      refine List.pairwise_of_forall_mem_list fun i hi j hj => ?_
      rw [hnot i hi, hnot j hj]
    · intro k hk k' hk'
      obtain ⟨i, hi, rfl⟩ := List.mem_map.mp hk
      obtain ⟨j, hj, rfl⟩ := List.mem_map.mp hk'
      rw [hnot j hj, priority, if_pos (hmem i hi).2]
      exact Nat.cast_le.mpr ((hmem i hi).1.le.trans hlarge)
  have hkeys : indices.map (priority large available) =
      (first ++ rest).map (priority large available) :=
    (hperm.map _).eq_of_pairwise (fun _ _ _ _ => le_antisymm) h.sorted hsorted
  have htake : (indices.take first.length).map (priority large available) =
      first.map (priority large available) := by
    rw [List.map_take, hkeys, List.map_append, List.take_left' (List.length_map _)]
  rw [hfirst]
  -- Keys of available indices tell the indices.
  have hinj : ∀ l l' : List Nat, (∀ i ∈ l', i < n ∧ available i = true) →
      l.map (priority large available) = l'.map (priority large available) → l = l' := by
    intro l l' hl' hmap
    induction l generalizing l' with
    | nil => exact (List.map_eq_nil_iff.mp hmap.symm).symm
    | cons i l ih =>
      cases l' with
      | nil => cases hmap
      | cons j l' =>
        rw [List.map_cons, List.map_cons, List.cons.injEq] at hmap
        obtain ⟨hj, havailable⟩ := hl' j List.mem_cons_self
        rw [eq_of_priority havailable (hj.trans_le hlarge) hmap.1,
          ih l' (fun k hk => hl' k (List.mem_cons_of_mem _ hk)) hmap.2]
  exact hinj _ _ hmem htake

/-- Sorting by comparing the keys. -/
theorem sorts_mergeSort (n : Nat) (key : Nat → ℚ) :
    Sorts n key ((List.range n).mergeSort fun i j => decide (key i ≤ key j)) := by
  refine ⟨List.mergeSort_perm _ _, ?_⟩
  rw [List.pairwise_map]
  have hsorted : ((List.range n).mergeSort fun i j => decide (key i ≤ key j)).Pairwise
      fun i j => decide (key i ≤ key j) = true :=
    List.pairwise_mergeSort
      (fun i j k hij hjk => decide_eq_true ((of_decide_eq_true hij).trans (of_decide_eq_true hjk)))
      (fun i j => by
        rw [Bool.or_eq_true, decide_eq_true_iff, decide_eq_true_iff]
        exact le_total _ _) _
  exact hsorted.imp fun h => of_decide_eq_true h

end Argsort
