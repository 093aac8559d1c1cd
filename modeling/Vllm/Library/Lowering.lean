import Mathlib.Order.Nat

/-!
# Passes that lower a number

A pass hands a number from one participant to the next, and each keeps it or lowers it.
The pass keeps a number exactly when every participant keeps it. The stages of a pass
say what number each participant was handed.
-/

namespace Lowering

variable {ι : Type} {f : ι → Nat → Nat} {l : List ι} {n : Nat}

/-- The number after all participants. -/
def lowered (f : ι → Nat → Nat) : List ι → Nat → Nat
  | [], n => n
  | i :: l, n => lowered f l (f i n)

/-- Every participant with the number it is handed. -/
def stages (f : ι → Nat → Nat) : List ι → Nat → List (ι × Nat)
  | [], _ => []
  | i :: l, n => (i, n) :: stages f l (f i n)

/-- A pass does not raise the number. -/
theorem lowered_le (h : ∀ i ∈ l, ∀ m ≤ n, f i m ≤ m) : lowered f l n ≤ n := by
  induction l generalizing n with
  | nil => exact Nat.le_refl _
  | cons i l ih =>
    have hi := h i List.mem_cons_self n (Nat.le_refl _)
    exact (ih fun j hj m hm => h j (List.mem_cons_of_mem _ hj) m (hm.trans hi)).trans hi

/-- What holds of the number handed in and of all results holds of the final number. -/
theorem lowered_induction {P : Nat → Prop} (h : ∀ i ∈ l, ∀ m ≤ n, f i m ≤ m) (hn : P n)
    (hP : ∀ i ∈ l, ∀ m ≤ n, P (f i m)) : P (lowered f l n) := by
  induction l generalizing n with
  | nil => exact hn
  | cons i l ih =>
    have hi := h i List.mem_cons_self n (Nat.le_refl _)
    exact ih (fun j hj m hm => h j (List.mem_cons_of_mem _ hj) m (hm.trans hi))
      (hP i List.mem_cons_self n (Nat.le_refl _))
      fun j hj m hm => hP j (List.mem_cons_of_mem _ hj) m (hm.trans hi)

/-- A number that every participant keeps is kept. -/
theorem lowered_eq (h : ∀ i ∈ l, f i n = n) : lowered f l n = n := by
  induction l with
  | nil => rfl
  | cons i l ih =>
    rw [lowered, h i List.mem_cons_self]
    exact ih fun j hj => h j (List.mem_cons_of_mem _ hj)

/-- A number that the pass does not lower is kept by every participant. -/
theorem eq_of_le_lowered (h : ∀ i ∈ l, ∀ m ≤ n, f i m ≤ m) (hn : n ≤ lowered f l n) :
    ∀ i ∈ l, f i n = n := by
  induction l with
  | nil => simp
  | cons i l ih =>
    have hi := h i List.mem_cons_self n (Nat.le_refl _)
    have hl := lowered_le fun j hj m hm => h j (List.mem_cons_of_mem _ hj) m (hm.trans hi)
    have heq : f i n = n := by
      rw [lowered] at hn
      omega
    rw [lowered, heq] at hn
    intro j hj
    rcases List.mem_cons.mp hj with rfl | hj
    · exact heq
    · exact ih (fun k hk => h k (List.mem_cons_of_mem _ hk)) hn j hj

/-- Where every participant keeps the number, each is handed it. -/
theorem mem_stages_of_eq (h : ∀ i ∈ l, f i n = n) {i : ι} (hi : i ∈ l) :
    (i, n) ∈ stages f l n := by
  induction l with
  | nil => cases hi
  | cons j l ih =>
    rw [stages, h j List.mem_cons_self]
    rcases List.mem_cons.mp hi with rfl | hi
    · exact List.mem_cons_self
    · exact List.mem_cons_of_mem _ (ih (fun k hk => h k (List.mem_cons_of_mem _ hk)) hi)

/-- Stages belong to participants. -/
theorem mem_of_mem_stages {e : ι × Nat} (h : e ∈ stages f l n) : e.1 ∈ l := by
  induction l generalizing n with
  | nil => cases h
  | cons i l ih =>
    rcases List.mem_cons.mp h with rfl | h
    · exact List.mem_cons_self
    · exact List.mem_cons_of_mem _ (ih h)

/-- A stage lies between the number handed in and the result. -/
theorem le_of_mem_stages (h : ∀ i ∈ l, ∀ m ≤ n, f i m ≤ m) {e : ι × Nat}
    (he : e ∈ stages f l n) : e.2 ≤ n ∧ lowered f l n ≤ f e.1 e.2 := by
  induction l generalizing n with
  | nil => cases he
  | cons i l ih =>
    have hi := h i List.mem_cons_self n (Nat.le_refl _)
    have hrest : ∀ k ∈ l, ∀ m ≤ f i n, f k m ≤ m :=
      fun k hk m hm => h k (List.mem_cons_of_mem _ hk) m (hm.trans hi)
    rcases List.mem_cons.mp he with rfl | he
    · exact ⟨Nat.le_refl _, lowered_le hrest⟩
    · exact ⟨(ih hrest he).1.trans hi, (ih hrest he).2⟩

/-- Every participant has a stage. -/
theorem exists_stage (f : ι → Nat → Nat) (n : Nat) {i : ι} (hi : i ∈ l) :
    ∃ m, (i, m) ∈ stages f l n := by
  induction l generalizing n with
  | nil => cases hi
  | cons j l ih =>
    rcases List.mem_cons.mp hi with rfl | hi
    · exact ⟨n, List.mem_cons_self⟩
    · obtain ⟨m, hm⟩ := ih (f j n) hi
      exact ⟨m, List.mem_cons_of_mem _ hm⟩

end Lowering
