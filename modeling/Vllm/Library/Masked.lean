import Mathlib.Data.List.Forall2
import Mathlib.Data.List.Count

/-!
# Masked lists

A list is masked by another of the same length that agrees with it except where it
has a fixed filler. Fillers never add occurrences of other elements, in the whole
list or behind any position.
-/

namespace Masked

variable {α : Type} {z : α}

/-- The second list is the first with some entries replaced by the filler. -/
def Masks (z : α) (l l' : List α) : Prop := List.Forall₂ (fun a a' => a' = a ∨ a' = z) l l'

theorem Masks.refl (l : List α) : Masks z l l :=
  List.forall₂_same.mpr fun _ _ => Or.inl rfl

theorem Masks.length_eq {l l' : List α} (h : Masks z l l') : l.length = l'.length :=
  List.Forall₂.length_eq h

theorem Masks.trans {l l' l'' : List α} (h : Masks z l l') (h' : Masks z l' l'') :
    Masks z l l'' := by
  unfold Masks at *
  induction h generalizing l'' with
  | nil => exact h'
  | cons hab _ ih =>
    cases h' with
    | cons hbc htail =>
      refine .cons ?_ (ih htail)
      rcases hbc with rfl | rfl
      · exact hab
      · exact Or.inr rfl

/-- Writing the filler at one position masks a list. -/
theorem masks_set (l : List α) (i : Nat) : Masks z l (l.set i z) := by
  induction l generalizing i with
  | nil => exact .nil
  | cons a l ih =>
    cases i with
    | zero => exact .cons (Or.inr rfl) (Masks.refl l)
    | succ i => exact .cons (Or.inl rfl) (ih i)

/-- Behind every position the masked list is masked. -/
theorem Masks.drop {l l' : List α} (h : Masks z l l') (n : Nat) :
    Masks z (l.drop n) (l'.drop n) :=
  List.forall₂_drop n h

variable [DecidableEq α]

/-- Masking adds no occurrence of an element other than the filler. -/
theorem Masks.count_le {l l' : List α} (h : Masks z l l') {a : α} (hz : a ≠ z) :
    l'.count a ≤ l.count a := by
  unfold Masks at h
  induction h with
  | nil => exact Nat.le_refl _
  | cons hab _ ih =>
    rename_i b b' l l' _
    rcases hab with rfl | rfl
    · simp only [List.count_cons]
      omega
    · rw [List.count_cons_of_ne (Ne.symm hz)]
      exact Nat.le_trans ih List.count_le_count_cons

/-- Writing the filler at one position loses the entry that was there. -/
theorem count_set_add {l : List α} {i : Nat} {b : α} (hi : l[i]? = some b) {a : α} (hz : a ≠ z) :
    (l.set i z).count a + [b].count a = l.count a := by
  induction l generalizing i with
  | nil => simp at hi
  | cons c l ih =>
    cases i with
    | zero =>
      obtain rfl : c = b := by simpa using hi
      rw [List.set_cons_zero, List.count_cons_of_ne (Ne.symm hz), List.count_cons (l := l),
        List.count_singleton, Nat.add_comm]
    | succ i =>
      have hrec := ih (i := i) (by simpa using hi)
      simp only [List.set_cons_succ, List.count_cons] at hrec ⊢
      omega

end Masked
