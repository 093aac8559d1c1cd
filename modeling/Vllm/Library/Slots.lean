import Mathlib.Logic.Function.Basic
import Mathlib.Data.List.Basic
import Mathlib.Data.List.Count

/-!
# Tables of slots under a batch of changes

A table has a value in every slot, `empty` where nothing is stored. A step writes values to
slots, clears slots, and slides or swaps what slots hold. Replayed as a batch, with the writes
first, the clears next and the moves last, the changes have the same effect as with the clears
last, provided that no move touches a cleared slot.
-/

namespace Slots

variable {V : Type}

/-- What happens between two slots: one is emptied into the other, or they are swapped. -/
inductive Move where
  | slide (src dst : Nat)
  | swap (i j : Nat)
  deriving DecidableEq, Repr

/-- A move does not touch any of some slots. -/
def Move.Avoids (slots : List Nat) : Move → Prop
  | .slide src dst => src ∉ slots ∧ dst ∉ slots
  | .swap i j => i ∉ slots ∧ j ∉ slots

/-- A move avoids fewer slots. -/
theorem Move.Avoids.mono {m : Move} {l l' : List Nat} (h : m.Avoids l)
    (hl : ∀ i, i ∈ l' → i ∈ l) : m.Avoids l' := by
  cases m with
  | slide src dst => exact ⟨fun hi => h.1 (hl _ hi), fun hi => h.2 (hl _ hi)⟩
  | swap i j => exact ⟨fun hi => h.1 (hl _ hi), fun hi => h.2 (hl _ hi)⟩

/-- The table behind a move. -/
def Move.apply (empty : V) (f : Nat → V) : Move → Nat → V
  | .slide src dst => Function.update (Function.update f dst (f src)) src empty
  | .swap i j => Function.update (Function.update f i (f j)) j (f i)

/-- The table behind some writes. -/
def writes (f : Nat → V) (l : List (Nat × V)) : Nat → V :=
  l.foldl (fun f e => Function.update f e.1 e.2) f

/-- The table without some slots. -/
def clear (empty : V) (f : Nat → V) (slots : List Nat) : Nat → V := fun i =>
  if i ∈ slots then empty else f i

/-- The table behind some moves. -/
def moves (empty : V) (f : Nat → V) (l : List Move) : Nat → V := l.foldl (Move.apply empty) f

/-- The changes of a step as a batch. -/
def replay (empty : V) (f : Nat → V) (written : List (Nat × V)) (cleared : List Nat)
    (moved : List Move) : Nat → V :=
  moves empty (clear empty (writes f written) cleared) moved

variable {empty : V}

theorem Move.slide_apply (f : Nat → V) (src dst k : Nat) : (slide src dst).apply empty f k =
    if k = src then empty else if k = dst then f src else f k := by
  simp only [apply, Function.update_apply]

theorem Move.swap_apply (f : Nat → V) (i j k : Nat) : (swap i j).apply empty f k =
    if k = j then f i else if k = i then f j else f k := by
  simp only [apply, Function.update_apply]

theorem writes_append (f : Nat → V) (l l' : List (Nat × V)) :
    writes f (l ++ l') = writes (writes f l) l' := List.foldl_append

theorem moves_append (f : Nat → V) (l l' : List Move) :
    moves empty f (l ++ l') = moves empty (moves empty f l) l' := List.foldl_append

/-- Clearing slots that a move avoids may come first or last. -/
theorem Move.apply_clear {m : Move} {slots : List Nat} (h : m.Avoids slots) (f : Nat → V) :
    m.apply empty (clear empty f slots) = clear empty (m.apply empty f) slots := by
  funext k
  cases m with
  | slide src dst =>
    obtain ⟨hsrc, hdst⟩ := h
    simp only [slide_apply, clear, if_neg hsrc]
    by_cases hk : k = src
    · simp [hk]
    · by_cases hk' : k = dst
      · simp [hk', hdst]
      · simp [hk, hk']
  | swap i j =>
    obtain ⟨hi, hj⟩ := h
    simp only [swap_apply, clear, if_neg hi, if_neg hj]
    by_cases hk : k = j
    · simp [hk, hj]
    · by_cases hk' : k = i
      · simp [hk', hi]
      · simp [hk, hk']

private theorem moves_clear {l : List Move} {slots : List Nat} (h : ∀ m ∈ l, m.Avoids slots)
    (f : Nat → V) : moves empty (clear empty f slots) l = clear empty (moves empty f l) slots := by
  induction l generalizing f with
  | nil => rfl
  | cons m l ih =>
    show moves empty (m.apply empty (clear empty f slots)) l = _
    rw [m.apply_clear (h m (by simp)), ih fun m' hm' => h m' (List.mem_cons_of_mem _ hm')]
    rfl

/-- The batch has the effect of the changes with the clears last. -/
theorem replay_eq {moved : List Move} {cleared : List Nat} (h : ∀ m ∈ moved, m.Avoids cleared)
    (f : Nat → V) (written : List (Nat × V)) : replay empty f written cleared moved =
      clear empty (moves empty (writes f written) moved) cleared :=
  moves_clear h _

/-- Nothing happens to an empty table. -/
theorem moves_clear_empty (cleared : List Nat) (l : List Move) :
    moves empty (clear empty (fun _ => empty) cleared) l = fun _ => empty := by
  have hclear : clear empty (fun _ => empty) cleared = fun _ => empty := by
    funext k
    exact ite_self _
  rw [hclear]
  induction l with
  | nil => rfl
  | cons m l ih =>
    have hmove : m.apply empty (fun _ => empty) = fun _ => empty := by
      funext k
      cases m <;> simp only [Move.slide_apply, Move.swap_apply, ite_self]
    show moves empty (m.apply empty fun _ => empty) l = _
    rw [hmove, ih]

/-! ## Counting -/

variable [DecidableEq V]

/-- The number of the first `n` slots that are not empty. -/
def used (empty : V) (f : Nat → V) (n : Nat) : Int :=
  ((List.range n).countP fun i => decide (f i ≠ empty) : Nat)

/-- What a slot counts for. -/
def weight (empty v : V) : Int := if v = empty then 0 else 1

/-- The count changes by what one slot changes. -/
theorem used_update {i n : Nat} (hi : i < n) (f : Nat → V) (v : V) :
    used empty (Function.update f i v) n =
      used empty f n - weight empty (f i) + weight empty v := by
  have hsucc (f : Nat → V) (n : Nat) :
      used empty f (n + 1) = used empty f n + weight empty (f n) := by
    simp only [used, List.range_succ, List.countP_append, List.countP_singleton, weight]
    split <;> simp_all
  have hout (f : Nat → V) (n : Nat) (hn : n ≤ i) : used empty (Function.update f i v) n =
      used empty f n := by
    unfold used
    congr 1
    refine List.countP_congr fun k hk => ?_
    rw [Function.update_of_ne (by have := List.mem_range.mp hk; omega)]
  induction n with
  | zero => omega
  | succ n ih =>
    rw [hsucc, hsucc]
    by_cases h : i = n
    · subst h
      rw [hout f i (Nat.le_refl i), Function.update_self]
      omega
    · rw [ih (by omega), Function.update_of_ne (Ne.symm h)]
      omega

/-- A slide drops what its target had. -/
theorem used_slide {src dst n : Nat} (hsrc : src < n) (hdst : dst < n) (hne : src ≠ dst)
    (f : Nat → V) : used empty ((Move.slide src dst).apply empty f) n =
      used empty f n - weight empty (f dst) := by
  have hempty : weight empty empty = 0 := if_pos rfl
  rw [Move.apply, used_update hsrc, used_update hdst, Function.update_of_ne hne, hempty]
  omega

/-- A swap drops nothing. -/
theorem used_swap {i j n : Nat} (hi : i < n) (hj : j < n) (f : Nat → V) :
    used empty ((Move.swap i j).apply empty f) n = used empty f n := by
  rw [Move.apply, used_update hj, used_update hi]
  by_cases hij : j = i
  · subst hij
    rw [Function.update_self]
    omega
  · rw [Function.update_of_ne hij]
    omega

theorem used_nonneg (empty : V) (f : Nat → V) (n : Nat) : 0 ≤ used empty f n :=
  Int.natCast_nonneg _

/-- Nothing is counted when every slot is empty, and conversely. -/
theorem used_eq_zero_iff {f : Nat → V} {n : Nat} :
    used empty f n = 0 ↔ ∀ i < n, f i = empty := by
  simp [used, List.countP_eq_zero]

end Slots
