import Mathlib.Algebra.BigOperators.Group.List.Basic
import Mathlib.Data.Fin.Tuple.Basic

/-!
# Checked computations

Programs that stop at the first failed check, as values of `Except`, and passes of
such a program over a list that thread a state. The rules take a successful run
apart and carry an invariant through a pass whose elements share a budget: the
invariant speaks about the sum of the elements' weights, and each step may trade
its own weight against the state while the others keep theirs.
-/

namespace Checked

variable {ε α β σ : Type}

/-- Stop with the given error unless the condition holds. -/
def ensure (p : Prop) [Decidable p] (e : ε) : Except ε Unit :=
  if p then .ok () else .error e

/-- A check succeeds exactly when its condition holds. -/
@[simp] theorem ensure_eq_ok {p : Prop} [Decidable p] {e : ε} {u : Unit} :
    ensure p e = .ok u ↔ p := by
  unfold ensure
  split <;> simp_all

/-- A check fails with its own error only. -/
theorem ensure_eq_error {p : Prop} [Decidable p] {e e' : ε} :
    ensure p e = .error e' ↔ ¬ p ∧ e = e' := by
  unfold ensure
  split <;> simp_all

/-- A sequence succeeds exactly when both parts do. -/
theorem bind_ok_iff {first : Except ε α} {next : α → Except ε β} {b : β} :
    first >>= next = .ok b ↔ ∃ a, first = .ok a ∧ next a = .ok b := by
  rcases first with e | a <;> simp [bind, Except.bind]

/-- A sequence fails in its first part or, after that succeeded, in its second. -/
theorem bind_error_iff {first : Except ε α} {next : α → Except ε β} {e : ε} :
    first >>= next = .error e ↔
      first = .error e ∨ ∃ a, first = .ok a ∧ next a = .error e := by
  rcases first with e' | a <;> simp [bind, Except.bind]

/-- Returning a value succeeds with that value. -/
@[simp] theorem pure_ok_iff {a b : α} : (pure a : Except ε α) = .ok b ↔ a = b := by
  simp [pure, Except.pure]

/-- Renaming errors does not touch successes. -/
@[simp] theorem mapError_ok_iff {ε' : Type} {f : ε → ε'} {x : Except ε α} {a : α} :
    x.mapError f = .ok a ↔ x = .ok a := by
  rcases x with e | b <;> simp [Except.mapError]

variable {l : List α}

/-- A pass of steps with known results. -/
theorem mapM_eq_ok_map {f : α → Except ε β} {g : α → β} (h : ∀ a ∈ l, f a = .ok (g a)) :
    l.mapM f = .ok (l.map g) := by
  induction l with
  | nil => rfl
  | cons a l ih =>
    rw [List.mapM_cons, h a List.mem_cons_self, ih fun b hb => h b (List.mem_cons_of_mem _ hb)]
    rfl

/-- Where a step succeeds for every element, a pass lists results of the elements. -/
theorem exists_mapM_eq_ok [Nonempty β] {f : α → Except ε β} {P : α → β → Prop}
    (h : ∀ a ∈ l, ∃ b, f a = .ok b ∧ P a b) :
    ∃ g : α → β, l.mapM f = .ok (l.map g) ∧ ∀ a ∈ l, P a (g a) := by
  have hall : ∀ a, ∃ b, a ∈ l → f a = .ok b ∧ P a b := by
    intro a
    by_cases ha : a ∈ l
    · obtain ⟨b, hb⟩ := h a ha
      exact ⟨b, fun _ => hb⟩
    · exact ⟨Classical.choice inferInstance, fun ha' => absurd ha' ha⟩
  obtain ⟨g, hg⟩ := Classical.skolem.mp hall
  exact ⟨g, mapM_eq_ok_map fun a ha => (hg a ha).1, fun a ha => (hg a ha).2⟩

/-- One pass over a list: every element is updated and the state is handed on. -/
def mapAccum (f : σ → α → Except ε (σ × β)) : σ → List α → Except ε (σ × List β)
  | s, [] => .ok (s, [])
  | s, a :: l => do
    let (s, b) ← f s a
    let (s, l) ← mapAccum f s l
    pure (s, b :: l)

@[simp] theorem mapAccum_nil (f : σ → α → Except ε (σ × β)) (s : σ) :
    mapAccum f s [] = .ok (s, []) := rfl

/-- A successful pass is a successful first step and a successful pass over the rest. -/
theorem mapAccum_cons_eq_ok {f : σ → α → Except ε (σ × β)} {s t : σ} {a : α} {l' : List β} :
    mapAccum f s (a :: l) = .ok (t, l') ↔
      ∃ s' b m, f s a = .ok (s', b) ∧ mapAccum f s' l = .ok (t, m) ∧ l' = b :: m := by
  simp only [mapAccum, bind_ok_iff, Prod.exists, pure_ok_iff, Prod.mk.injEq]
  constructor
  · rintro ⟨s', b, h, t', m, hm, rfl, rfl⟩
    exact ⟨s', b, m, h, hm, rfl⟩
  · rintro ⟨s', b, m, h, hm, rfl⟩
    exact ⟨s', b, h, t, m, hm, rfl, rfl⟩

/-- A pass keeps an invariant of the state and of the total weight, and makes a local
property of the elements into one of the results, when every step does, whatever the
weight of the other elements. -/
theorem mapAccum_invariant {W : Type} [AddCommMonoid W] {f : σ → α → Except ε (σ × β)} {w : α → W}
    {w' : β → W} {L : α → Prop} {L' : β → Prop} {I : σ → W → Prop}
    (hstep : ∀ s a x s' b, L a → I s (w a + x) → f s a = .ok (s', b) →
      L' b ∧ I s' (w' b + x)) {s s' : σ} {l' : List β} {x : W} (hl : ∀ a ∈ l, L a)
    (h : I s ((l.map w).sum + x)) (hrun : mapAccum f s l = .ok (s', l')) :
    (∀ b ∈ l', L' b) ∧ I s' ((l'.map w').sum + x) := by
  induction l generalizing s l' x with
  | nil =>
    obtain ⟨rfl, rfl⟩ : s = s' ∧ [] = l' := by simpa using hrun
    exact ⟨by simp, h⟩
  | cons a l ih =>
    obtain ⟨s₁, b, m, hb, hm, rfl⟩ := mapAccum_cons_eq_ok.mp hrun
    rw [List.map_cons, List.sum_cons, add_assoc] at h
    obtain ⟨hlb, hs⟩ := hstep _ _ _ _ _ (hl a (by simp)) h hb
    rw [add_left_comm] at hs
    obtain ⟨hlm, hrest⟩ := ih (fun a ha => hl a (by simp [ha])) hs hm
    refine ⟨by simpa using ⟨hlb, hlm⟩, ?_⟩
    rwa [List.map_cons, List.sum_cons, add_assoc, add_left_comm]

/-- What every step does to its element holds of all elements after the pass. -/
theorem mapAccum_forall₂ {f : σ → α → Except ε (σ × β)} {R : α → β → Prop} {s s' : σ} {l' : List β}
    (hstep : ∀ s a s' b, a ∈ l → f s a = .ok (s', b) → R a b)
    (hrun : mapAccum f s l = .ok (s', l')) : List.Forall₂ R l l' := by
  induction l generalizing s l' with
  | nil =>
    obtain ⟨_, rfl⟩ : s = s' ∧ [] = l' := by simpa using hrun
    exact .nil
  | cons a l ih =>
    obtain ⟨s₁, b, m, hb, hm, rfl⟩ := mapAccum_cons_eq_ok.mp hrun
    exact .cons (hstep _ _ _ _ (by simp) hb)
      (ih (fun s a s' b ha => hstep s a s' b (by simp [ha])) hm)

/-- An element of a related list comes from one of the first list. -/
theorem exists_of_forall₂ {R : α → β → Prop} {l' : List β} (h : List.Forall₂ R l l') {b : β}
    (hb : b ∈ l') : ∃ a ∈ l, R a b := by
  induction h with
  | nil => cases hb
  | @cons a b' l l' hab _ ih =>
    rcases List.mem_cons.mp hb with rfl | hb
    · exact ⟨a, List.mem_cons_self, hab⟩
    · obtain ⟨a', ha', hab'⟩ := ih hb
      exact ⟨a', List.mem_cons_of_mem _ ha', hab'⟩

/-- Relations along three lists compose. -/
theorem forall₂_trans {γ : Type} {R : α → β → Prop} {R' : β → γ → Prop} {R'' : α → γ → Prop}
    (htrans : ∀ a b c, R a b → R' b c → R'' a c) {m : List β} {n : List γ} (h : List.Forall₂ R l m)
    (h' : List.Forall₂ R' m n) : List.Forall₂ R'' l n := by
  induction h generalizing n with
  | nil =>
    cases h'
    exact .nil
  | cons hab _ ih =>
    cases h' with
    | cons hbc hrest => exact .cons (htrans _ _ _ hab hbc) (ih hrest)

/-- What every step makes of its element holds of all results of the pass. -/
theorem mapAccum_forall {f : σ → α → Except ε (σ × β)} {Q : β → Prop} {s s' : σ} {l' : List β}
    (hstep : ∀ s a s' b, a ∈ l → f s a = .ok (s', b) → Q b) (hrun : mapAccum f s l = .ok (s', l')) :
    ∀ b ∈ l', Q b := by
  have hall := mapAccum_forall₂ (R := fun _ b => Q b) hstep hrun
  clear hstep hrun
  induction hall with
  | nil => simp
  | cons hq _ ih => simpa using ⟨hq, ih⟩

variable {f : σ → α → Except ε σ}

/-- A property of the state and of the elements that are still to come, which every step
hands on, holds behind a pass. -/
theorem foldlM_rule {I : σ → List α → Prop}
    (hstep : ∀ s a l s', I s (a :: l) → f s a = .ok s' → I s' l) {s s' : σ} (h : I s l)
    (hrun : l.foldlM f s = .ok s') : I s' [] := by
  induction l generalizing s with
  | nil =>
    obtain rfl := pure_ok_iff.mp hrun
    exact h
  | cons a l ih =>
    rw [List.foldlM_cons, bind_ok_iff] at hrun
    obtain ⟨s₁, ha, hrest⟩ := hrun
    exact ih (hstep s a l s₁ h ha) hrest

/-- A pass over entries with distinct keys, in which a step touches only what belongs to its own
key, touches what belongs to a key in one step at most. -/
theorem foldlM_once {κ ν : Type} {f : σ → κ × β → Except ε σ} (view : σ → κ → ν)
    (hstep : ∀ s e s', f s e = .ok s' → ∀ r, r ≠ e.1 → view s' r = view s r) {s s' : σ}
    {l : List (κ × β)} (hnodup : (l.map Prod.fst).Nodup) (hrun : l.foldlM f s = .ok s') (r : κ) :
    (r ∉ l.map Prod.fst ∧ view s' r = view s r) ∨
      ∃ e ∈ l, e.1 = r ∧ ∃ s₁ s₂, f s₁ e = .ok s₂ ∧ view s₁ r = view s r ∧
        view s' r = view s₂ r := by
  induction l generalizing s with
  | nil =>
    obtain rfl := pure_ok_iff.mp hrun
    exact .inl ⟨List.not_mem_nil, rfl⟩
  | cons e l ih =>
    rw [List.foldlM_cons, bind_ok_iff] at hrun
    obtain ⟨s₁, he, hrest⟩ := hrun
    obtain ⟨hnew, hnodup⟩ := List.nodup_cons.mp hnodup
    by_cases her : r = e.1
    · rcases ih hnodup hrest with ⟨-, hview⟩ | ⟨e', he', hkey, -⟩
      · exact .inr ⟨e, List.mem_cons_self, her.symm, s, s₁, he, rfl, hview⟩
      · exact absurd (List.mem_map.mpr ⟨e', he', hkey.trans her⟩) hnew
    · have hsame := hstep s e s₁ he r her
      rcases ih hnodup hrest with ⟨hnot, hview⟩ | ⟨e', he', hkey, s₂, s₃, hf, hbefore, hafter⟩
      · refine .inl ⟨fun hmem => ?_, hview.trans hsame⟩
        exact (List.mem_cons.mp hmem).elim her hnot
      · exact .inr ⟨e', List.mem_cons_of_mem _ he', hkey, s₂, s₃, hf, hbefore.trans hsame, hafter⟩

/-- Run one computation for each index, in order, and gather the results. -/
def collect : {n : Nat} → (Fin n → Except ε α) → Except ε (Fin n → α)
  | 0, _ => .ok Fin.elim0
  | _ + 1, f => do
    let a ← f 0
    let g ← collect fun i => f i.succ
    pure (Fin.cons a g)

/-- Gathering succeeds exactly when every computation does. -/
theorem collect_eq_ok {n : Nat} {f : Fin n → Except ε α} {g : Fin n → α} :
    collect f = .ok g ↔ ∀ i, f i = .ok (g i) := by
  induction n with
  | zero =>
    have hg : g = Fin.elim0 := funext fun i => Fin.elim0 i
    exact iff_of_true (by rw [hg, collect]) fun i => Fin.elim0 i
  | succ n ih =>
    simp only [collect, bind_ok_iff, pure_ok_iff, ih]
    constructor
    · rintro ⟨a, ha, g', hg', rfl⟩
      exact Fin.cases ha hg'
    · intro h
      exact ⟨g 0, h 0, fun i => g i.succ, fun i => h i.succ, Fin.cons_self_tail g⟩

/-! ## Which errors are possible -/

/-- A computation fails, if at all, with an error of the given kind. -/
def FailsOnly (E : ε → Prop) (x : Except ε α) : Prop := ∀ e, x = .error e → E e

section FailsOnly

variable {E : ε → Prop}

theorem failsOnly_ok (a : α) : FailsOnly E (.ok a : Except ε α) := fun _ h => nomatch h

theorem failsOnly_pure (a : α) : FailsOnly E (pure a : Except ε α) := fun _ h => nomatch h

theorem failsOnly_error {e : ε} (h : E e) : FailsOnly E (.error e : Except ε α) :=
  fun _ he => Except.error.inj he ▸ h

theorem failsOnly_ensure {p : Prop} [Decidable p] {e : ε} (h : ¬ p → E e) :
    FailsOnly E (ensure p e) := by
  intro e' he
  obtain ⟨hp, rfl⟩ := ensure_eq_error.mp he
  exact h hp

theorem FailsOnly.bind {x : Except ε α} {f : α → Except ε β} (h : FailsOnly E x)
    (hf : ∀ a, x = .ok a → FailsOnly E (f a)) : FailsOnly E (x >>= f) := by
  intro e he
  rcases bind_error_iff.mp he with he | ⟨a, ha, he⟩
  · exact h e he
  · exact hf a ha e he

theorem FailsOnly.ite {p : Prop} [Decidable p] {x y : Except ε α} (hx : p → FailsOnly E x)
    (hy : ¬ p → FailsOnly E y) : FailsOnly E (if p then x else y) := by
  split
  · exact hx ‹_›
  · exact hy ‹_›

theorem failsOnly_mapM {f : α → Except ε β} (h : ∀ a ∈ l, FailsOnly E (f a)) :
    FailsOnly E (l.mapM f) := by
  induction l with
  | nil => exact failsOnly_pure []
  | cons a l ih =>
    rw [List.mapM_cons]
    exact (h a (by simp)).bind fun b _ => (ih fun a ha => h a (by simp [ha])).bind fun m _ =>
      failsOnly_pure (b :: m)

/-- A pass of steps that fail so from every state. -/
theorem failsOnly_mapAccum {f : σ → α → Except ε (σ × β)} (h : ∀ s a, FailsOnly E (f s a))
    (s : σ) (l : List α) : FailsOnly E (mapAccum f s l) := by
  induction l generalizing s with
  | nil => exact failsOnly_ok _
  | cons a l ih =>
    exact (h s a).bind fun ⟨s', b⟩ _ => (ih s').bind fun ⟨_, _⟩ _ => failsOnly_pure _

/-- A pass fails as its steps do from states with the invariant. -/
theorem failsOnly_mapAccum_of_invariant {W : Type} [AddCommMonoid W] {f : σ → α → Except ε (σ × β)}
    {w : α → W} {v : β → W} {L : α → Prop} {I : σ → W → Prop}
    (hstep : ∀ s a x s' b, L a → I s (w a + x) → f s a = .ok (s', b) → I s' (v b + x))
    (hfail : ∀ s a x, L a → I s (w a + x) → FailsOnly E (f s a)) {s : σ} {x : W} (hl : ∀ a ∈ l, L a)
    (h : I s ((l.map w).sum + x)) : FailsOnly E (mapAccum f s l) := by
  induction l generalizing s x with
  | nil => exact failsOnly_ok _
  | cons a l ih =>
    rw [List.map_cons, List.sum_cons, add_assoc] at h
    refine (hfail s a _ (hl a (by simp)) h).bind fun ⟨s', b⟩ hb => ?_
    have hs := hstep _ _ _ _ _ (hl a (by simp)) h hb
    rw [add_left_comm] at hs
    exact (ih (fun a ha => hl a (by simp [ha])) hs).bind fun ⟨_, _⟩ _ => failsOnly_pure _

end FailsOnly

/-! ## Runs -/

/-- One action after the other. -/
def run (f : σ → α → Except ε σ) : σ → List α → Except ε σ
  | s, [] => .ok s
  | s, a :: l => do
    let s ← f s a
    run f s l

/-- A condition on state and action holds at every action of a run. -/
def Along (f : σ → α → Except ε σ) (C : σ → α → Prop) : σ → List α → Prop
  | _, [] => True
  | s, a :: l => C s a ∧ ∀ s', f s a = .ok s' → Along f C s' l

/-- Whether a condition holds along a run can be computed with it. -/
instance decidableAlong {f : σ → α → Except ε σ} {C : σ → α → Prop} [∀ s a, Decidable (C s a)] :
    ∀ s l, Decidable (Along f C s l)
  | _, [] => .isTrue trivial
  | s, a :: l =>
    match hs : f s a with
    | .ok s' =>
      have := decidableAlong (C := C) (f := f) s' l
      decidable_of_iff (C s a ∧ Along f C s' l) (by simp [Along, hs])
    | .error _ => decidable_of_iff (C s a) (by simp [Along, hs])

/-- What every action meeting the condition preserves holds at the end of a run along
which the condition holds. -/
theorem run_invariant {C : σ → α → Prop} {I : σ → Prop}
    (hstep : ∀ s a s', I s → C s a → f s a = .ok s' → I s') {s s' : σ} (h : I s)
    (hl : Along f C s l) (hrun : run f s l = .ok s') : I s' := by
  induction l generalizing s with
  | nil =>
    obtain rfl := Except.ok.inj hrun
    exact h
  | cons a l ih =>
    obtain ⟨s₁, ha, hm⟩ := bind_ok_iff.mp hrun
    exact ih (hstep s a s₁ h hl.1 ha) (hl.2 s₁ ha) hm

/-- A condition that always holds does so along every run. -/
theorem along_of_forall {C : σ → α → Prop} (h : ∀ s a, C s a) (s : σ) (l : List α) :
    Along f C s l := by
  induction l generalizing s with
  | nil => trivial
  | cons a l ih => exact ⟨h s a, fun s' _ => ih s'⟩

/-- A condition on the actions alone holds along every run of such actions. -/
theorem along_of_mem {P : α → Prop} (h : ∀ a ∈ l, P a) (s : σ) : Along f (fun _ a => P a) s l := by
  induction l generalizing s with
  | nil => trivial
  | cons a l ih =>
    exact ⟨h a (by simp), fun s' _ => ih (fun a' ha' => h a' (List.mem_cons_of_mem _ ha')) s'⟩

/-- Two conditions that hold along a run hold together. -/
theorem Along.and {C D : σ → α → Prop} {s : σ} (h : Along f C s l) (h' : Along f D s l) :
    Along f (fun s a => C s a ∧ D s a) s l := by
  induction l generalizing s with
  | nil => trivial
  | cons a l ih => exact ⟨⟨h.1, h'.1⟩, fun s' ha => ih (h.2 s' ha) (h'.2 s' ha)⟩

/-- A weaker condition holds along a run, too. -/
theorem Along.imp {C D : σ → α → Prop} (hCD : ∀ s a, C s a → D s a) {s : σ} (h : Along f C s l) :
    Along f D s l := by
  induction l generalizing s with
  | nil => trivial
  | cons a l ih => exact ⟨hCD s a h.1, fun s' ha => ih (h.2 s' ha)⟩

/-- A run of two lists of actions is two runs. -/
theorem run_append_eq_ok {s s' : σ} {l l' : List α} :
    run f s (l ++ l') = .ok s' ↔ ∃ m, run f s l = .ok m ∧ run f m l' = .ok s' := by
  induction l generalizing s with
  | nil => simp [run]
  | cons a l ih =>
    simp only [List.cons_append, run, bind_ok_iff, ih]
    constructor
    · rintro ⟨s₁, ha, m, hm, hm'⟩
      exact ⟨m, ⟨s₁, ha, hm⟩, hm'⟩
    · rintro ⟨m, ⟨s₁, ha, hm⟩, hm'⟩
      exact ⟨s₁, ha, m, hm, hm'⟩

/-- A condition along both runs. -/
theorem along_append {C : σ → α → Prop} {s : σ} {l l' : List α} :
    Along f C s (l ++ l') ↔ Along f C s l ∧ ∀ m, run f s l = .ok m → Along f C m l' := by
  induction l generalizing s with
  | nil => simp [run, Along]
  | cons a l ih =>
    simp only [List.cons_append, Along, run, bind_ok_iff, ih]
    constructor
    · rintro ⟨ha, hrest⟩
      exact ⟨⟨ha, fun s' hs' => (hrest s' hs').1⟩,
        fun m ⟨s₁, hs₁, hm⟩ => (hrest s₁ hs₁).2 m hm⟩
    · rintro ⟨⟨ha, hrest⟩, hlast⟩
      exact ⟨ha, fun s' hs' => ⟨hrest s' hs', fun m hm => hlast m ⟨s', hs', hm⟩⟩⟩

/-- A run along which a condition keeps an invariant meets at every action whatever follows
from the two. -/
theorem along_of_invariant {C D : σ → α → Prop} {I : σ → Prop}
    (hstep : ∀ s a s', I s → C s a → f s a = .ok s' → I s') (hD : ∀ s a, I s → C s a → D s a)
    {s : σ} (h : I s) (hl : Along f C s l) : Along f D s l := by
  induction l generalizing s with
  | nil => trivial
  | cons a l ih =>
    exact ⟨hD s a h hl.1, fun s' ha => ih (hstep s a s' h hl.1 ha) (hl.2 s' ha)⟩

/-- What every action preserves holds at the end of every run. -/
theorem run_keeps {I : σ → Prop} (hstep : ∀ s a s', I s → f s a = .ok s' → I s') {s s' : σ}
    (h : I s) (hrun : run f s l = .ok s') : I s' :=
  run_invariant (C := fun _ _ => True) (fun s a s' h _ ha => hstep s a s' h ha) h
    (along_of_forall (fun _ _ => trivial) s l) hrun

/-- A run ends with the invariant if every action meeting the condition returns with it. -/
theorem run_total {C : σ → α → Prop} {I : σ → Prop}
    (hstep : ∀ s a, I s → C s a → ∃ s', f s a = .ok s' ∧ I s') {s : σ} (h : I s)
    (hl : Along f C s l) : ∃ s', run f s l = .ok s' ∧ I s' := by
  induction l generalizing s with
  | nil => exact ⟨s, rfl, h⟩
  | cons a l ih =>
    obtain ⟨s₁, ha, h₁⟩ := hstep s a h hl.1
    obtain ⟨s', hrun, h'⟩ := ih h₁ (hl.2 s₁ ha)
    exact ⟨s', bind_ok_iff.mpr ⟨s₁, ha, hrun⟩, h'⟩

/-- A run fails as its actions do from states with the invariant. -/
theorem failsOnly_run {C : σ → α → Prop} {I : σ → Prop} {E : ε → Prop}
    (hstep : ∀ s a s', I s → C s a → f s a = .ok s' → I s')
    (hfail : ∀ s a, I s → C s a → FailsOnly E (f s a)) {s : σ} (h : I s) (hl : Along f C s l) :
    FailsOnly E (run f s l) := by
  induction l generalizing s with
  | nil => exact failsOnly_ok s
  | cons a l ih =>
    exact (hfail s a h hl.1).bind fun s' ha => ih (hstep s a s' h hl.1 ha) (hl.2 s' ha)

end Checked
