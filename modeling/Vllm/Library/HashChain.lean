import Mathlib.Data.List.Induction
import Mathlib.Data.List.Nodup

/-!
# Hash chains

A chain digests a list of inputs from a seed: entry `i` is the fold of a step
function over the first `i + 1` inputs. When the step is injective in both
arguments and never produces the seed, an entry determines its own position and
every input before it, so two chains share an entry exactly where they share
the whole prefix.
-/

namespace HashChain

variable {α β : Type*}

/-- The digest of a whole list of inputs. -/
def digest (step : β → α → β) (seed : β) (l : List α) : β := l.foldl step seed

/-- All the digests met while folding, one for each input. -/
def chain (step : β → α → β) (seed : β) : List α → List β
  | [] => []
  | a :: l => step seed a :: chain step (step seed a) l

/-- A step that loses no information and never returns to the seed. -/
structure Separating (step : β → α → β) (seed : β) : Prop where
  /-- The step determines both its arguments. -/
  injective : ∀ {h h' : β} {a a' : α}, step h a = step h' a' → h = h' ∧ a = a'
  /-- The seed is not the image of any step. -/
  ne_seed : ∀ (h : β) (a : α), step h a ≠ seed

@[simp] theorem digest_nil (step : β → α → β) (seed : β) : digest step seed [] = seed := rfl

@[simp] theorem digest_cons (step : β → α → β) (seed : β) (a : α) (l : List α) :
    digest step seed (a :: l) = digest step (step seed a) l := rfl

@[simp] theorem digest_concat (step : β → α → β) (seed : β) (a : α) (l : List α) :
    digest step seed (l ++ [a]) = step (digest step seed l) a := by
  simp [digest]

@[simp] theorem chain_nil (step : β → α → β) (seed : β) : chain step seed [] = [] := rfl

@[simp] theorem length_chain (step : β → α → β) (seed : β) (l : List α) :
    (chain step seed l).length = l.length := by
  induction l generalizing seed with
  | nil => rfl
  | cons a l ih => simp [chain, ih]

/-- Entry `i` of a chain digests exactly the first `i + 1` inputs. -/
theorem getElem?_chain (step : β → α → β) (seed : β) (l : List α) {i : Nat}
    (hi : i < l.length) : (chain step seed l)[i]? = some (digest step seed (l.take (i + 1))) := by
  induction l generalizing seed i with
  | nil => simp at hi
  | cons a l ih =>
    cases i with
    | zero => simp [chain]
    | succ i =>
      have hi' : i < l.length := by simpa using hi
      simp [chain, ih (step seed a) hi']

/-- An entry of a chain names a position inside the inputs. -/
theorem lt_of_getElem?_chain {step : β → α → β} {seed : β} {l : List α} {i : Nat} {h : β}
    (he : (chain step seed l)[i]? = some h) : i < l.length := by
  simpa using (List.getElem?_eq_some_iff.mp he).1

/-- A chain over an appended list continues from the digest of the first part. -/
theorem chain_append (step : β → α → β) (seed : β) (l l' : List α) :
    chain step seed (l ++ l') = chain step seed l ++ chain step (digest step seed l) l' := by
  induction l generalizing seed with
  | nil => rfl
  | cons a l ih => simp [chain, ih]

/-- The first entries of a chain are the chain over the first inputs. -/
theorem take_chain (step : β → α → β) (seed : β) (l : List α) (n : Nat) :
    (chain step seed l).take n = chain step seed (l.take n) := by
  induction l generalizing seed n with
  | nil => simp
  | cons a l ih => cases n <;> simp [chain, ih]

/-- The last entry of a nonempty chain digests the whole list. -/
theorem getLast?_chain (step : β → α → β) (seed : β) {l : List α} (hl : l ≠ []) :
    (chain step seed l).getLast? = some (digest step seed l) := by
  have hpos : 0 < l.length := List.length_pos_iff.mpr hl
  rw [List.getLast?_eq_getElem?, length_chain, getElem?_chain step seed l (by omega)]
  rw [Nat.sub_add_cancel hpos, List.take_length]

/-- The value a chain continues from: its last entry, or the seed. -/
theorem getLast?_chain_getD (step : β → α → β) (seed : β) (l : List α) :
    (chain step seed l).getLast?.getD seed = digest step seed l := by
  by_cases hl : l = []
  · simp [hl]
  · simp [getLast?_chain step seed hl]

section Separating

variable {step : β → α → β} {seed : β}

/-- A separating chain identifies the digested list. -/
theorem digest_injective (hs : Separating step seed) :
    ∀ {l l' : List α}, digest step seed l = digest step seed l' → l = l' := by
  intro l
  induction l using List.reverseRecOn with
  | nil =>
    intro l' h
    induction l' using List.reverseRecOn with
    | nil => rfl
    | append_singleton l' a _ =>
      rw [digest_concat] at h
      exact absurd h.symm (hs.ne_seed _ _)
  | append_singleton l a ih =>
    intro l' h
    induction l' using List.reverseRecOn with
    | nil =>
      rw [digest_concat] at h
      exact absurd h (hs.ne_seed _ _)
    | append_singleton l' a' _ =>
      rw [digest_concat, digest_concat] at h
      obtain ⟨hd, rfl⟩ := hs.injective h
      rw [ih hd]

/-- Equal entries of two chains sit at one position and follow one prefix. -/
theorem eq_take_of_getElem? (hs : Separating step seed) {l l' : List α} {i j : Nat} {h : β}
    (hl : (chain step seed l)[i]? = some h) (hl' : (chain step seed l')[j]? = some h) :
    i = j ∧ l.take (i + 1) = l'.take (j + 1) := by
  have hi := lt_of_getElem?_chain hl
  have hj := lt_of_getElem?_chain hl'
  rw [getElem?_chain step seed l hi, Option.some.injEq] at hl
  rw [getElem?_chain step seed l' hj, Option.some.injEq] at hl'
  have ht := digest_injective hs (hl.trans hl'.symm)
  have hlen := congrArg List.length ht
  rw [List.length_take_of_le hi, List.length_take_of_le hj] at hlen
  exact ⟨by omega, ht⟩

/-- A separating chain identifies its inputs. -/
theorem chain_injective (hs : Separating step seed) {l l' : List α}
    (h : chain step seed l = chain step seed l') : l = l' := by
  have hlen := congrArg List.length h
  rw [length_chain, length_chain] at hlen
  cases l using List.reverseRecOn with
  | nil => exact (List.length_eq_zero_iff.mp hlen.symm).symm
  | append_singleton l a =>
    have hlast := getLast?_chain step seed (l := l ++ [a]) (by simp)
    rw [h, getLast?_chain step seed (by rintro rfl; simp at hlen), Option.some.injEq] at hlast
    exact (digest_injective hs hlast).symm

end Separating

end HashChain
