import Mathlib.Data.List.Sort
import Mathlib.Data.List.Dedup
import Mathlib.Data.List.GetD
import Mathlib.Data.List.Forall2

/-!
# Sorted distinct keys

The distinct values of a list, in the order of their first appearance or ascending, each
with the first of the rows that carry it, and the lookup of a value by its rank.
-/

namespace SortedKeys

/-- The distinct values of a list, in ascending order. -/
def unique (l : List Int) : List Int := l.dedup.insertionSort (· ≤ ·)

/-- The distinct keys of some rows in ascending order, each with the first of its rows. -/
def firstRows (rows : List Nat) (key : Nat → Int) : List (Int × Nat) :=
  (unique (rows.map key)).map fun e => (e, rows.getD ((rows.map key).idxOf e) 0)

/-- The position in an ascending list before which a value would be inserted. -/
def searchsorted (l : List Int) (e : Int) : Nat := (l.takeWhile (· < e)).length

/-- The values of a list, each at its first appearance. -/
def firsts {α : Type} [DecidableEq α] : List α → List α
  | [] => []
  | a :: l => a :: (firsts l).filter (· ≠ a)

@[simp] theorem mem_firsts {α : Type} [DecidableEq α] {l : List α} {a : α} :
    a ∈ firsts l ↔ a ∈ l := by
  induction l with
  | nil => rfl
  | cons b l ih =>
    by_cases h : a = b <;> simp [firsts, ih, h]

theorem nodup_firsts {α : Type} [DecidableEq α] (l : List α) : (firsts l).Nodup := by
  induction l with
  | nil => exact List.nodup_nil
  | cons a l ih => exact List.nodup_cons.mpr ⟨by simp, ih.filter _⟩

@[simp] theorem mem_unique {l : List Int} {e : Int} : e ∈ unique l ↔ e ∈ l := by
  simp [unique]

/-- The distinct values ascend strictly. -/
theorem pairwise_unique (l : List Int) : (unique l).Pairwise (· < ·) := by
  have hle : (unique l).Pairwise (· ≤ ·) := List.pairwise_insertionSort _ _
  have hne : (unique l).Nodup := (List.perm_insertionSort _ _).nodup_iff.mpr l.nodup_dedup
  exact hle.imp₂ (fun a b hab hne => lt_of_le_of_ne hab hne) hne

/-- Strictly ascending lists with the same elements are equal. -/
theorem eq_of_mem_iff {l m : List Int} (hl : l.Pairwise (· < ·)) (hm : m.Pairwise (· < ·))
    (h : ∀ e, e ∈ l ↔ e ∈ m) : l = m :=
  List.Pairwise.eq_of_mem_iff hl hm (fun e => h e)

variable {rows : List Nat} {key : Nat → Int}

theorem map_fst_firstRows (rows : List Nat) (key : Nat → Int) :
    (firstRows rows key).map Prod.fst = unique (rows.map key) := by
  simp [firstRows, Function.comp_def]

/-- A row that is kept is one of the rows and carries its key. -/
theorem mem_firstRows {e : Int} {row : Nat} (h : (e, row) ∈ firstRows rows key) :
    row ∈ rows ∧ key row = e := by
  obtain ⟨e', he', heq⟩ := List.mem_map.mp h
  obtain ⟨rfl, rfl⟩ := Prod.mk.inj heq
  have hidx := List.idxOf_lt_length_of_mem (mem_unique.mp he')
  have hlen : (rows.map key).idxOf e' < rows.length := by simpa using hidx
  rw [List.getD_eq_getElem rows 0 hlen]
  refine ⟨List.getElem_mem hlen, ?_⟩
  have hget : (rows.map key)[(rows.map key).idxOf e'] = e' := List.getElem_idxOf hidx
  rwa [List.getElem_map] at hget

/-- Every key of a row is kept. -/
theorem exists_mem_firstRows {row : Nat} (h : row ∈ rows) :
    ∃ row', (key row, row') ∈ firstRows rows key :=
  ⟨_, List.mem_map.mpr ⟨key row, mem_unique.mpr (List.mem_map_of_mem h), rfl⟩⟩

/-- Sorting distinct keys by key changes nothing. -/
theorem insertionSort_firstRows (rows : List Nat) (key : Nat → Int) :
    (firstRows rows key).insertionSort (fun a b => a.1 ≤ b.1) = firstRows rows key := by
  refine List.Pairwise.insertionSort_eq ?_
  have hpairs : ((firstRows rows key).map Prod.fst).Pairwise (· ≤ ·) := by
    rw [map_fst_firstRows]
    exact (pairwise_unique _).imp fun h => le_of_lt h
  exact List.pairwise_map.mp hpairs

/-- Lists of pairs with the same keys are related as the pairs with one key are. -/
theorem forall₂_of_map_fst {α β γ : Type} {R : α × β → α × γ → Prop} {l : List (α × β)}
    {m : List (α × γ)} (h : l.map Prod.fst = m.map Prod.fst)
    (hR : ∀ a ∈ l, ∀ b ∈ m, a.1 = b.1 → R a b) : List.Forall₂ R l m := by
  induction l generalizing m with
  | nil =>
    obtain rfl := List.map_eq_nil_iff.mp h.symm
    exact .nil
  | cons a l ih =>
    cases m with
    | nil => cases h
    | cons b m =>
      obtain ⟨hab, hrest⟩ := List.cons.inj h
      exact .cons (hR a List.mem_cons_self b List.mem_cons_self hab) (ih hrest
        fun a ha b hb => hR a (List.mem_cons_of_mem _ ha) b (List.mem_cons_of_mem _ hb))

/-- The pairs that a condition on the key keeps carry the keys that it keeps. -/
theorem map_fst_filter {α β : Type} (l : List (α × β)) (p : α → Bool) :
    (l.filter fun a => p a.1).map Prod.fst = (l.map Prod.fst).filter p := by
  rw [List.filter_map]
  rfl

/-- In a strictly ascending list a value is found at its position. -/
theorem getElem?_searchsorted {l : List Int} (hl : l.Pairwise (· < ·)) {e : Int} (he : e ∈ l) :
    l[searchsorted l e]? = some e := by
  induction l with
  | nil => cases he
  | cons a l ih =>
    rw [List.pairwise_cons] at hl
    by_cases hlt : a < e
    · have hne : e ≠ a := by omega
      have hmem := (List.mem_cons.mp he).resolve_left hne
      simpa [searchsorted, List.takeWhile_cons, hlt] using ih hl.2 hmem
    · rcases List.mem_cons.mp he with rfl | hmem
      · simp [searchsorted]
      · exact absurd (hl.1 e hmem) hlt

end SortedKeys
