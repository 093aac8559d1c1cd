/-!
# Runs of total steps

A program whose steps always end in a state runs by folding the step over the
actions. A condition may hold throughout a run, and what every step under the
condition preserves then holds at the end.
-/

namespace TotalRun

variable {σ α : Type}

/-- A condition on state and action holds at every action of a run. -/
def Throughout (f : σ → α → σ) (C : σ → α → Prop) : σ → List α → Prop
  | _, [] => True
  | s, a :: l => C s a ∧ Throughout f C (f s a) l

/-- Whether a condition holds throughout a run can be computed with it. -/
instance decidableThroughout {f : σ → α → σ} {C : σ → α → Prop} [∀ s a, Decidable (C s a)] :
    ∀ s l, Decidable (Throughout f C s l)
  | _, [] => .isTrue trivial
  | s, a :: l =>
    have := decidableThroughout (C := C) (f := f) (f s a) l
    inferInstanceAs (Decidable (C s a ∧ Throughout f C (f s a) l))

/-- What every step under the condition preserves holds at the end of the run. -/
theorem invariant {f : σ → α → σ} {C : σ → α → Prop} {I : σ → Prop}
    (hstep : ∀ s a, I s → C s a → I (f s a)) {s : σ} {l : List α} (h : I s)
    (hl : Throughout f C s l) : I (l.foldl f s) := by
  induction l generalizing s with
  | nil => exact h
  | cons a l ih => exact ih (hstep s a h hl.1) hl.2

/-- A condition on the actions alone holds throughout every run of such actions. -/
theorem throughout_of_mem {f : σ → α → σ} {P : α → Prop} {l : List α} (h : ∀ a ∈ l, P a)
    (s : σ) : Throughout f (fun _ a => P a) s l := by
  induction l generalizing s with
  | nil => trivial
  | cons a l ih =>
    exact ⟨h a (by simp), ih (fun a' ha' => h a' (List.mem_cons_of_mem _ ha')) _⟩

/-- Two conditions that hold throughout a run hold together. -/
theorem Throughout.and {f : σ → α → σ} {C D : σ → α → Prop} {s : σ} {l : List α}
    (h : Throughout f C s l) (h' : Throughout f D s l) :
    Throughout f (fun s a => C s a ∧ D s a) s l := by
  induction l generalizing s with
  | nil => trivial
  | cons a l ih => exact ⟨⟨h.1, h'.1⟩, ih h.2 h'.2⟩

end TotalRun
