import Mathlib.Data.List.Basic
import Mathlib.Data.List.TakeDrop

/-!
# Occurrences of one list in another

Searching for a list from an offset, and the occurrences that end behind a position. What is
found in a prefix of a text is what is found in the text and ends in the prefix.
-/

namespace Occurrence

variable {α : Type}

/-- A list occurs in a text at an index. -/
def Occurs (s text : List α) (i : Nat) : Prop := s <+: text.drop i

instance [DecidableEq α] (s text : List α) (i : Nat) : Decidable (Occurs s text i) :=
  inferInstanceAs (Decidable (s <+: text.drop i))

/-- The least index at or above a bound where a list occurs in a text. -/
def searchFrom [DecidableEq α] (text s : List α) (start : Nat) : Option Nat :=
  (List.range (text.length + 1)).find? fun i => decide (start ≤ i ∧ Occurs s text i)

variable {s text : List α} {i n : Nat}

/-- An occurrence ends in the text. -/
theorem Occurs.end_le (h : Occurs s text i) (hs : s ≠ []) : i + s.length ≤ text.length := by
  have hlen := h.length_le
  have hpos := List.length_pos_iff.mpr hs
  rw [List.length_drop] at hlen
  omega

/-- The elements of the text where a list occurs. -/
theorem Occurs.getElem?_add (h : Occurs s text i) {j : Nat} (hj : j < s.length) :
    text[i + j]? = s[j]? := by
  obtain ⟨rest, hrest⟩ := h
  rw [← List.getElem?_drop, ← hrest, List.getElem?_append_left hj]

/-- The occurrences in a prefix of a text are those that end in it. -/
theorem occurs_take_iff (hs : s ≠ []) :
    Occurs s (text.take n) i ↔ Occurs s text i ∧ i + s.length ≤ n := by
  have hpos := List.length_pos_iff.mpr hs
  unfold Occurs
  rw [List.drop_take, List.prefix_take_iff]
  refine and_congr_right fun _ => ?_
  omega

/-- A search finds the first occurrence. -/
theorem searchFrom_eq_some_iff [DecidableEq α] (hs : s ≠ []) {start : Nat} :
    searchFrom text s start = some i ↔
      start ≤ i ∧ Occurs s text i ∧ ∀ j, start ≤ j → Occurs s text j → i ≤ j := by
  have hpos := List.length_pos_iff.mpr hs
  unfold searchFrom
  rw [List.find?_range_eq_some]
  simp only [decide_eq_true_eq, List.mem_range, Bool.not_eq_true', decide_eq_false_iff_not]
  constructor
  · rintro ⟨⟨hstart, hocc⟩, -, hleast⟩
    refine ⟨hstart, hocc, fun j hj hoccj => ?_⟩
    by_contra hlt
    exact hleast j (by omega) ⟨hj, hoccj⟩
  · rintro ⟨hstart, hocc, hleast⟩
    have hend := hocc.end_le hs
    refine ⟨⟨hstart, hocc⟩, by omega, fun j hj hfound => ?_⟩
    have := hleast j hfound.1 hfound.2
    omega

/-- A search fails when there is no occurrence. -/
theorem searchFrom_eq_none_iff [DecidableEq α] (hs : s ≠ []) {start : Nat} :
    searchFrom text s start = none ↔ ∀ i, start ≤ i → ¬ Occurs s text i := by
  have hpos := List.length_pos_iff.mpr hs
  unfold searchFrom
  rw [List.find?_eq_none]
  simp only [List.mem_range, decide_eq_true_eq, not_and]
  refine ⟨fun h i hstart hocc => ?_, fun h i _ => h i⟩
  have hend := hocc.end_le hs
  exact h i (by omega) hstart hocc

/-- A search may start later where nothing occurs before. -/
theorem searchFrom_congr [DecidableEq α] (hs : s ≠ []) {start start' : Nat} (hle : start ≤ start')
    (hnone : ∀ i, start ≤ i → i < start' → ¬ Occurs s text i) :
    searchFrom text s start = searchFrom text s start' := by
  have hlater : ∀ i, start ≤ i → Occurs s text i → start' ≤ i := by
    intro i hi hocc
    by_contra hlt
    exact hnone i hi (by omega) hocc
  cases hsearch : searchFrom text s start' with
  | none =>
    rw [searchFrom_eq_none_iff hs] at hsearch ⊢
    intro i hi hocc
    exact hsearch i (hlater i hi hocc) hocc
  | some j =>
    rw [searchFrom_eq_some_iff hs] at hsearch ⊢
    obtain ⟨hj, hocc, hleast⟩ := hsearch
    exact ⟨by omega, hocc, fun i hi hocci => hleast i (hlater i hi hocci) hocci⟩

end Occurrence
