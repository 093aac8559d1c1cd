import Mathlib.Algebra.BigOperators.Ring.Finset
import Mathlib.Data.Real.Basic

/-!
# Draws in sequence

Values below a bound are drawn one after the other, each from a law that may look at
the values drawn before. The expected value of a function of the whole sequence is a
nested sum. A function that asks for a given prefix and reads the next value factors
into the weight of the prefix and a sum over that value.
-/

namespace Draws

open Finset

variable (size : ℕ) (law : List ℕ → ℕ → ℝ)

/-- The expected value of a function of the next `n` draws after a context. -/
noncomputable def expect : ℕ → List ℕ → (List ℕ → ℝ) → ℝ
  | 0, _, f => f []
  | n + 1, context, f =>
    ∑ v ∈ range size, law context v * expect n (context ++ [v]) fun draws => f (v :: draws)

/-- The weight of a sequence of draws after a context. -/
noncomputable def weight : List ℕ → List ℕ → ℝ
  | _, [] => 1
  | context, v :: draws =>
    if v < size then law context v * weight (context ++ [v]) draws else 0

variable {size law}

/-- The expected value of a constant. -/
theorem expect_const (hlaw : ∀ context, ∑ v ∈ range size, law context v = 1) (n : ℕ)
    (context : List ℕ) (a : ℝ) : expect size law n context (fun _ => a) = a := by
  induction n generalizing context with
  | zero => rfl
  | succ n ih =>
    simp only [expect, ih, ← sum_mul, hlaw, one_mul]

/-- Nothing is expected of the zero function. -/
theorem expect_zero (n : ℕ) (context : List ℕ) : expect size law n context (fun _ => 0) = 0 := by
  induction n generalizing context with
  | zero => rfl
  | succ n ih => simp only [expect, ih, mul_zero, sum_const_zero]

/-- A function of the next draw alone. -/
theorem expect_head (hlaw : ∀ context, ∑ v ∈ range size, law context v = 1) (n : ℕ)
    (context : List ℕ) (h : ℕ → ℝ) :
    expect size law (n + 1) context (fun draws => h (draws.getD 0 0)) =
      ∑ v ∈ range size, law context v * h v := by
  simp only [expect, List.getD_cons_zero, expect_const hlaw]

/-- A function that asks for a prefix and reads the draw behind it. -/
theorem expect_prefix (hlaw : ∀ context, ∑ v ∈ range size, law context v = 1) {n : ℕ}
    {context pre : List ℕ} (hn : pre.length < n) (h : ℕ → ℝ) :
    expect size law n context
        (fun draws => if draws.take pre.length = pre then h (draws.getD pre.length 0) else 0) =
      weight size law context pre * ∑ v ∈ range size, law (context ++ pre) v * h v := by
  induction pre generalizing n context with
  | nil =>
    obtain ⟨n, rfl⟩ := Nat.exists_eq_add_of_lt hn
    simpa [weight] using expect_head hlaw n context h
  | cons w pre ih =>
    obtain ⟨n, rfl⟩ : ∃ m, n = m + 1 := ⟨n - 1, by omega⟩
    have hterm (v : ℕ) : expect size law n (context ++ [v])
        (fun draws => if (v :: draws).take (w :: pre).length = w :: pre then
          h ((v :: draws).getD (w :: pre).length 0) else 0) =
        if v = w then weight size law (context ++ [w]) pre *
          ∑ x ∈ range size, law (context ++ w :: pre) x * h x else 0 := by
      by_cases hv : v = w
      · subst hv
        simpa using @ih n (context ++ [v]) (by simpa using hn)
      · simpa [hv] using expect_zero n (context ++ [v])
    rw [expect]
    simp only [hterm, mul_ite, mul_zero, sum_ite_eq', mem_range, weight, ite_mul, zero_mul,
      mul_assoc]

end Draws
