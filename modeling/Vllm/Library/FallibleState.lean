import Mathlib.Init

/-!
# Computations with a state that may fail

Programs that update a shared state and stop at the first error, with the updates made
before the error kept. The rules run such a program one operation at a time.
-/

namespace FallibleState

variable {ε α β σ : Type}

/-- A sequence goes on in the state that its first part leaves, or stops there. -/
theorem run_bind (first : ExceptT ε (StateM σ) α) (next : α → ExceptT ε (StateM σ) β) (s : σ) :
    (first >>= next).run s = match first.run s with
      | (.ok a, s') => (next a).run s'
      | (.error e, s') => (.error e, s') := by
  rw [ExceptT.run_bind]
  change (match (first.run s).1 with
    | .ok a => (next a).run
    | .error e => pure (.error e)) (first.run s).2 = _
  rcases first.run s with ⟨e | a, s'⟩ <;> rfl

theorem run_pure (a : α) (s : σ) : (pure a : ExceptT ε (StateM σ) α).run s = (.ok a, s) := (rfl)

theorem run_get (s : σ) : (get : ExceptT ε (StateM σ) σ).run s = (.ok s, s) := (rfl)

theorem run_modify (f : σ → σ) (s : σ) :
    (modify f : ExceptT ε (StateM σ) PUnit).run s = (.ok ⟨⟩, f s) := (rfl)

theorem run_liftM (x : Except ε α) (s : σ) :
    (liftM x : ExceptT ε (StateM σ) α).run s = (x, s) := (rfl)

theorem run_throw (e : ε) (s : σ) :
    (throw e : ExceptT ε (StateM σ) α).run s = (.error e, s) := (rfl)

/-- A pass of checks that leave the state alone. -/
theorem run_forM_iff {check : α → ExceptT ε (StateM σ) PUnit} {s : σ}
    (h : ∀ a, ((check a).run s).2 = s) (l : List α) :
    (forM l check).run s = (.ok ⟨⟩, s) ↔ ∀ a ∈ l, ((check a).run s).1 = .ok ⟨⟩ := by
  induction l with
  | nil => simpa using run_pure _ s
  | cons a l ih =>
    rw [List.forM_cons, run_bind, List.forall_mem_cons, ← ih]
    have hsnd := h a
    rcases hrun : (check a).run s with ⟨e | u, s'⟩
    · constructor
      · intro heq
        cases heq
      · rintro ⟨heq, _⟩
        cases heq
    · rw [hrun] at hsnd
      obtain rfl : s' = s := hsnd
      exact (and_iff_right rfl).symm

end FallibleState
