import Mathlib.Data.List.Nodup
import Mathlib.Data.List.Sublists

/-!
# The first element of a stable sort

A stable sort puts first a least element, and of the elements that compare as equal the one that
comes first in the list.
-/

namespace StableSort

variable {α : Type} {l : List α}

/-- An element and a later one stand in this order. -/
theorem pair_sublist {i j : Nat} {x y : α} (hx : l[i]? = some x) (hy : l[j]? = some y)
    (hij : i < j) : [x, y].Sublist l := by
  obtain ⟨hj, rfl⟩ := List.getElem?_eq_some_iff.mp hy
  have hbefore : x ∈ l.take j := by
    apply List.mem_of_getElem? (i := i)
    rw [List.getElem?_take_of_lt hij]
    exact hx
  have hsplit : l.take j ++ l[j] :: l.drop (j + 1) = l := by
    rw [← List.drop_eq_getElem_cons hj]
    exact List.take_append_drop j l
  have hpair : ([x] ++ [l[j]]).Sublist (l.take j ++ l[j] :: l.drop (j + 1)) :=
    (List.singleton_sublist.mpr hbefore).append
      (List.singleton_sublist.mpr List.mem_cons_self)
  rw [hsplit] at hpair
  exact hpair

/-- No element is smaller than the first one of the sorted list, and none before it is as small. -/
theorem head_mergeSort {le : α → α → Bool} (htrans : ∀ a b c, le a b → le b c → le a c)
    (htotal : ∀ a b, le a b || le b a) (hnodup : l.Nodup) {best : α} {rest : List α}
    (hsort : l.mergeSort le = best :: rest) :
    best ∈ l ∧ (∀ other ∈ l, le best other) ∧
      ∀ other, [other, best].Sublist l → ¬ le other best := by
  have hmem : ∀ a, a ∈ best :: rest ↔ a ∈ l := by
    intro a
    rw [← hsort]
    exact List.mem_mergeSort
  have hsorted : (best :: rest).Pairwise fun a b => le a b := by
    rw [← hsort]
    exact List.pairwise_mergeSort htrans htotal l
  have hunique : (best :: rest).Nodup := by
    rw [← hsort]
    exact (List.mergeSort_perm l le).nodup_iff.mpr hnodup
  refine ⟨(hmem best).mp List.mem_cons_self, fun other hother => ?_, fun other hsub hle => ?_⟩
  · rcases List.mem_cons.mp ((hmem other).mpr hother) with rfl | hrest
    · simpa using htotal other other
    · exact (List.pairwise_cons.mp hsorted).1 other hrest
  · have hpair : [other, best].Sublist (best :: rest) := by
      rw [← hsort]
      exact List.pair_sublist_mergeSort htrans htotal hle hsub
    have hlater : best ∈ rest := by
      cases hpair with
      | cons _ hpair => exact hpair.subset (by simp)
      | cons_cons _ hpair => exact hpair.subset (by simp)
    exact (List.nodup_cons.mp hunique).1 hlater

end StableSort
