import Mathlib.Data.List.Perm.Basic

/-!
# Binary heaps in a list

The heap operations of an array-based priority queue: the children of position `i` are at
`2 * i + 1` and `2 * i + 2`. Nothing is asked of the order, so the entries may be compared by
keys that have changed since they were put in; every operation keeps the entries it does not
add or take.
-/

namespace BinaryHeap

variable {α : Type} (lt : α → α → Bool)

/-- The list with two entries exchanged. -/
def swapAt (heap : List α) (i j : Nat) : List α := (heap.toArray.swapIfInBounds i j).toList

/-- Whether the entry at one position is less than that at another. -/
def ltAt (heap : List α) (i j : Nat) : Bool :=
  match heap[i]?, heap[j]? with
  | some a, some b => lt a b
  | _, _ => false

/-- Move the entry at a position up to where its parent is not greater. The position bounds the
number of steps. -/
def siftdown (startPos : Nat) : Nat → List α → Nat → List α
  | 0, heap, _ => heap
  | fuel + 1, heap, pos =>
    if startPos < pos ∧ ltAt lt heap pos ((pos - 1) / 2) then
      siftdown startPos fuel (swapAt heap pos ((pos - 1) / 2)) ((pos - 1) / 2)
    else heap

/-- Move the entry at a position down to a leaf, past the smaller children. The size bounds the
number of steps. -/
def bubbleToLeaf : Nat → List α → Nat → List α × Nat
  | 0, heap, pos => (heap, pos)
  | fuel + 1, heap, pos =>
    if 2 * pos + 1 < heap.length then
      let child :=
        if 2 * pos + 2 < heap.length ∧ !ltAt lt heap (2 * pos + 1) (2 * pos + 2) then 2 * pos + 2
        else 2 * pos + 1
      bubbleToLeaf fuel (swapAt heap pos child) child
    else (heap, pos)

/-- Move the entry at a position down to where its children are not less. -/
def siftup (heap : List α) (pos : Nat) : List α :=
  let (heap, leaf) := bubbleToLeaf lt heap.length heap pos
  siftdown lt pos leaf heap leaf

/-- Put an entry in. -/
def heappush (heap : List α) (a : α) : List α :=
  siftdown lt 0 heap.length (heap ++ [a]) heap.length

/-- Take the first entry out. -/
def heappop : List α → Option (α × List α)
  | [] => none
  | a :: heap =>
    match heap.getLast? with
    | none => some (a, [])
    | some last => some (a, siftup lt (last :: heap.dropLast) 0)

/-- Restore the heap order of a list. -/
def heapify (heap : List α) : List α :=
  (List.range (heap.length / 2)).reverse.foldl (fun heap pos => siftup lt heap pos) heap

/-- The entries in the order in which they are taken out. -/
def drain : Nat → List α → List α
  | 0, _ => []
  | fuel + 1, heap =>
    match heappop lt heap with
    | none => []
    | some (a, heap) => a :: drain fuel heap

/-! ## Entries -/

/-- An exchange keeps the entries. -/
theorem swapAt_perm (heap : List α) (i j : Nat) : (swapAt heap i j).Perm heap := by
  unfold swapAt Array.swapIfInBounds
  split
  · split
    · exact Array.perm_iff_toList_perm.mp (Array.swap_perm ‹_› ‹_›)
    · exact List.Perm.refl _
  · exact List.Perm.refl _

/-- Moving an entry up keeps the entries. -/
theorem siftdown_perm (startPos fuel : Nat) (heap : List α) (pos : Nat) :
    (siftdown lt startPos fuel heap pos).Perm heap := by
  induction fuel generalizing heap pos with
  | zero => exact List.Perm.refl _
  | succ fuel ih =>
    rw [siftdown]
    split
    · exact (ih _ _).trans (swapAt_perm _ _ _)
    · exact List.Perm.refl _

/-- Moving an entry to a leaf keeps the entries. -/
theorem bubbleToLeaf_perm (fuel : Nat) (heap : List α) (pos : Nat) :
    (bubbleToLeaf lt fuel heap pos).1.Perm heap := by
  induction fuel generalizing heap pos with
  | zero => exact List.Perm.refl _
  | succ fuel ih =>
    rw [bubbleToLeaf]
    split
    · exact (ih _ _).trans (swapAt_perm _ _ _)
    · exact List.Perm.refl _

/-- Moving an entry down keeps the entries. -/
theorem siftup_perm (heap : List α) (pos : Nat) : (siftup lt heap pos).Perm heap :=
  (siftdown_perm lt _ _ _ _).trans (bubbleToLeaf_perm lt _ _ _)

/-- Putting an entry in adds this entry. -/
theorem heappush_perm (heap : List α) (a : α) : (heappush lt heap a).Perm (a :: heap) :=
  (siftdown_perm lt _ _ _ _).trans (List.perm_append_singleton a heap)

/-- The entry taken out is the first one, and the others stay. -/
theorem heappop_eq_some {heap rest : List α} {a : α} (h : heappop lt heap = some (a, rest)) :
    heap.head? = some a ∧ heap.Perm (a :: rest) := by
  cases heap with
  | nil => cases h
  | cons b heap =>
    simp only [heappop] at h
    cases hlast : heap.getLast? with
    | none =>
      simp only [hlast, Option.some.injEq, Prod.mk.injEq] at h
      obtain ⟨rfl, rfl⟩ := h
      rw [List.getLast?_eq_none_iff.mp hlast]
      exact ⟨rfl, List.Perm.refl _⟩
    | some last =>
      simp only [hlast, Option.some.injEq, Prod.mk.injEq] at h
      obtain ⟨rfl, rfl⟩ := h
      refine ⟨rfl, List.Perm.cons _ ?_⟩
      have happend : heap = heap.dropLast ++ [last] := by
        obtain ⟨init, rfl⟩ := List.getLast?_eq_some_iff.mp hlast
        simp
      have hperm : heap.Perm (last :: heap.dropLast) := by
        conv_lhs => rw [happend]
        exact List.perm_append_singleton last _
      exact hperm.trans (siftup_perm lt _ _).symm

/-- Only the empty heap has no entry to take out. -/
theorem heappop_eq_none {heap : List α} (h : heappop lt heap = none) : heap = [] := by
  cases heap with
  | nil => rfl
  | cons a heap =>
    simp only [heappop] at h
    cases hlast : heap.getLast? <;> simp [hlast] at h

/-- Restoring the order keeps the entries. -/
theorem heapify_perm (heap : List α) : (heapify lt heap).Perm heap := by
  unfold heapify
  generalize (List.range (heap.length / 2)).reverse = positions
  induction positions generalizing heap with
  | nil => exact List.Perm.refl _
  | cons pos positions ih => exact (ih _).trans (siftup_perm lt heap pos)

/-- Taking entries out one after another gives all of them. -/
theorem drain_perm {fuel : Nat} {heap : List α} (hfuel : heap.length ≤ fuel) :
    (drain lt fuel heap).Perm heap := by
  induction fuel generalizing heap with
  | zero =>
    rw [List.length_eq_zero_iff.mp (Nat.le_zero.mp hfuel)]
    exact List.Perm.refl _
  | succ fuel ih =>
    rw [drain]
    cases hpop : heappop lt heap with
    | none =>
      rw [heappop_eq_none lt hpop]
    | some e =>
      obtain ⟨a, rest⟩ := e
      obtain ⟨-, hperm⟩ := heappop_eq_some lt hpop
      have hlength := hperm.length_eq
      rw [List.length_cons] at hlength
      exact (List.Perm.cons a (ih (by omega))).trans hperm.symm

end BinaryHeap
