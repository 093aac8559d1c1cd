import Mathlib.Data.List.Basic
import Vllm.Library.Occurrence

/-!
# Borders

A border of a prefix of a list is a beginning of the list that also ends the prefix and is
shorter than it. Borders of borders are borders, so the borders of a prefix are found one
after the other by falling back to the longest border of the last one. Read from behind, the
borders of the prefixes are the earlier occurrences of the ends of a list.
-/

namespace Borders

open Occurrence

variable {α : Type} {l : List α} {u v w p cap : Nat}

/-- The first `v` elements of a list are the last ones among its first `p`, which are more. -/
structure IsBorder (l : List α) (v p : Nat) : Prop where
  lt : v < p
  le : p ≤ l.length
  agree : ∀ j < v, l[j]? = l[p - v + j]?

/-- The empty border. -/
theorem isBorder_zero (hp : 0 < p) (hle : p ≤ l.length) : IsBorder l 0 p :=
  ⟨hp, hle, fun j hj => absurd hj (Nat.not_lt_zero j)⟩

/-- A border of a border. -/
theorem IsBorder.trans (huv : IsBorder l u v) (hvp : IsBorder l v p) : IsBorder l u p := by
  have hu := huv.lt
  have hv := hvp.lt
  refine ⟨Nat.lt_trans hu hv, hvp.le, fun j hj => ?_⟩
  rw [huv.agree j hj, hvp.agree (v - u + j) (by omega)]
  exact congrArg (l[·]?) (by omega)

/-- The shorter one of two borders is a border of the other. -/
theorem IsBorder.of_lt (hup : IsBorder l u p) (hvp : IsBorder l v p) (huv : u < v) :
    IsBorder l u v := by
  have hv := hvp.lt
  refine ⟨huv, Nat.le_trans (Nat.le_of_lt hv) hvp.le, fun j hj => ?_⟩
  rw [hup.agree j hj, hvp.agree (v - u + j) (by omega)]
  exact congrArg (l[·]?) (by omega)

/-- A border that is not empty extends a border by an element. -/
theorem isBorder_succ_iff :
    IsBorder l (v + 1) (p + 1) ↔ IsBorder l v p ∧ p < l.length ∧ l[v]? = l[p]? := by
  constructor
  · intro h
    have hlt := h.lt
    have hle := h.le
    refine ⟨⟨by omega, by omega, fun j hj => ?_⟩, hle, ?_⟩
    · rw [h.agree j (by omega)]
      exact congrArg (l[·]?) (by omega)
    · rw [h.agree v (by omega)]
      exact congrArg (l[·]?) (by omega)
  · rintro ⟨h, hlt, hlast⟩
    have hvp := h.lt
    refine ⟨by omega, hlt, fun j hj => ?_⟩
    rcases Nat.lt_succ_iff_lt_or_eq.mp hj with hj | rfl
    · rw [h.agree j hj]
      exact congrArg (l[·]?) (by omega)
    · rw [hlast]
      exact congrArg (l[·]?) (by omega)

/-- No border is longer. -/
structure IsLongest (l : List α) (v p : Nat) : Prop where
  border : IsBorder l v p
  longest : ∀ u, IsBorder l u p → u ≤ v

/-- A border below a cap that the next element may extend: longer ones below the cap are not
extended by it. -/
structure Candidate (l : List α) (cap v p : Nat) : Prop where
  border : IsBorder l v p
  lt_cap : v < cap
  others : ∀ u, IsBorder l u p → v < u → u < cap → l[u]? ≠ l[p]?

/-- The first prefix has the empty border only. -/
theorem candidate_one (hcap : 0 < cap) (hl : 0 < l.length) : Candidate l cap 0 1 :=
  ⟨isBorder_zero Nat.one_pos hl, hcap, fun u hu hpos _ => by
    have := hu.lt
    omega⟩

/-- Where the element does not extend a candidate, its longest border is the next candidate. -/
theorem Candidate.fallBack (h : Candidate l cap v p) (hne : l[v]? ≠ l[p]?)
    (hw : IsLongest l w v) : Candidate l cap w p := by
  have hlt := hw.border.lt
  have hcap := h.lt_cap
  refine ⟨hw.border.trans h.border, by omega, fun u hu hwu hucap => ?_⟩
  rcases Nat.lt_trichotomy u v with huv | rfl | huv
  · have := hw.longest u (hu.of_lt h.border huv)
    omega
  · exact hne
  · exact h.others u hu huv hucap

/-- A candidate that is extended is the longest border of the next prefix up to the cap. -/
theorem Candidate.extended (h : Candidate l cap v p) (hp : p < l.length) (heq : l[v]? = l[p]?) :
    IsBorder l (v + 1) (p + 1) ∧ ∀ u ≤ cap, IsBorder l u (p + 1) → u ≤ v + 1 := by
  refine ⟨isBorder_succ_iff.mpr ⟨h.border, hp, heq⟩, fun u hcap hu => ?_⟩
  cases u with
  | zero => exact Nat.zero_le _
  | succ u =>
    obtain ⟨hborder, -, hlast⟩ := isBorder_succ_iff.mp hu
    by_contra hlt
    exact h.others u hborder (by omega) (by omega) hlast

/-- Where the empty border is not extended, the next prefix has no other border up to the cap. -/
theorem Candidate.exhausted (h : Candidate l cap 0 p) (hne : l[0]? ≠ l[p]?) :
    ∀ u ≤ cap, IsBorder l u (p + 1) → u = 0 := by
  intro u hcap hu
  cases u with
  | zero => rfl
  | succ u =>
    obtain ⟨hborder, -, hlast⟩ := isBorder_succ_iff.mp hu
    cases u with
    | zero => exact absurd hlast hne
    | succ u => exact absurd hlast (h.others (u + 1) hborder (by omega) (by omega))

/-- The longest border below the cap is a candidate. -/
theorem candidate_of_longest (hv : IsBorder l v p) (hcap : v < cap)
    (hlongest : ∀ u ≤ cap, IsBorder l u p → u ≤ v) : Candidate l cap v p := by
  refine ⟨hv, hcap, fun u hu hvu hucap => ?_⟩
  have := hlongest u (Nat.le_of_lt hucap) hu
  omega

/-- Behind a border as long as the cap, its own longest border is a candidate. -/
theorem candidate_of_cap (hcap : IsBorder l cap p) (hw : IsLongest l w cap) :
    Candidate l cap w p := by
  have hlt := hw.border.lt
  refine ⟨hw.border.trans hcap, hlt, fun u hu hwu hucap => ?_⟩
  have := hw.longest u (hu.of_lt hcap hucap)
  omega

/-- The end of a list occurs earlier in it where it is a border of a prefix of the list read from
behind. -/
theorem occurs_drop_iff {start n : Nat} (h : start + n < l.length) :
    Occurs (l.drop (l.length - n)) l start ↔ IsBorder l.reverse n (l.length - start) := by
  have hlen : (l.drop (l.length - n)).length = n := by
    rw [List.length_drop]
    omega
  have hindex : Occurs (l.drop (l.length - n)) l start ↔
      ∀ j < n, l[start + j]? = l[l.length - n + j]? := by
    unfold Occurs
    rw [List.prefix_iff_getElem?]
    have hat : ∀ (j : Nat) (hj : j < (l.drop (l.length - n)).length),
        (l.drop start)[j]? = some (l.drop (l.length - n))[j] ↔
          l[start + j]? = l[l.length - n + j]? := by
      intro j hj
      rw [List.getElem?_drop, ← List.getElem?_eq_getElem hj, List.getElem?_drop]
    exact ⟨fun hocc j hj => (hat j (by omega)).mp (hocc j (by omega)),
      fun hocc j hj => (hat j hj).mpr (hocc j (by omega))⟩
  rw [hindex]
  constructor
  · intro hocc
    refine ⟨by omega, by rw [List.length_reverse]; omega, fun j hj => ?_⟩
    have hat := hocc (n - 1 - j) (by omega)
    rw [List.getElem?_reverse (by omega), List.getElem?_reverse (by omega)]
    rw [show l.length - 1 - j = l.length - n + (n - 1 - j) by omega, ← hat]
    exact congrArg (l[·]?) (by omega)
  · intro hborder j hj
    have hat := hborder.agree (n - 1 - j) (by omega)
    rw [List.getElem?_reverse (by omega), List.getElem?_reverse (by omega)] at hat
    rw [show l.length - n + j = l.length - 1 - (n - 1 - j) by omega, hat]
    exact congrArg (l[·]?) (by omega)

end Borders
