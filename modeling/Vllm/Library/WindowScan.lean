import Mathlib.Order.Bounds.Basic

/-!
# Scanning for the last full window

Positions are marked or not. An end `n` fits when it is allowed and the `width`
positions before it, or all positions when there are fewer, are marked. A scan from
right to left that counts a run of marked positions, and starts a run only below an
allowed end, finds the largest end that fits: what it has passed is described by a
frontier, and every move of the scan keeps it.
-/

namespace WindowScan

variable {marked allowed : Nat → Prop} {width bound n c : Nat}

/-- The last `width` positions before `n`, or all of them, are marked. -/
def WindowMarked (marked : Nat → Prop) (width n : Nat) : Prop :=
  ∀ i, n - width ≤ i → i < n → marked i

/-- An end up to the bound that is allowed and has its window marked. -/
structure Fits (marked allowed : Nat → Prop) (width bound n : Nat) : Prop where
  le_bound : n ≤ bound
  is_allowed : allowed n
  window : WindowMarked marked width n

/-- The scan has looked at everything from `n` on and counts a run of `c` positions. -/
structure Frontier (marked allowed : Nat → Prop) (width bound n c : Nat) : Prop where
  short : c < width
  le_bound : n + c ≤ bound
  run : ∀ i, n ≤ i → i < n + c → marked i
  run_allowed : 0 < c → allowed (n + c)
  no_longer : ∀ m, Fits marked allowed width bound m → m ≤ n + c

/-- Before the scan nothing is counted. -/
theorem Frontier.start (hw : 0 < width) : Frontier marked allowed width bound bound 0 where
  short := hw
  le_bound := Nat.le_refl _
  run i hn hi := by omega
  run_allowed h := absurd h (Nat.lt_irrefl 0)
  no_longer m hm := hm.le_bound

/-- An unmarked position ends the run. -/
theorem Frontier.miss (h : Frontier marked allowed width bound (n + 1) c) (hn : ¬ marked n) :
    Frontier marked allowed width bound n 0 where
  short := by
    have := h.short
    omega
  le_bound := by
    have := h.le_bound
    omega
  run i hi hlt := by omega
  run_allowed h := absurd h (Nat.lt_irrefl 0)
  no_longer m hm := by
    by_contra hlong
    have hle := h.no_longer m hm
    have hshort := h.short
    exact hn (hm.window n (by omega) (by omega))

/-- A run does not start below an end that is not allowed. -/
theorem Frontier.skip (h : Frontier marked allowed width bound (n + 1) 0)
    (hn : ¬ allowed (n + 1)) : Frontier marked allowed width bound n 0 where
  short := h.short
  le_bound := by
    have := h.le_bound
    omega
  run i hi hlt := by omega
  run_allowed h := absurd h (Nat.lt_irrefl 0)
  no_longer m hm := by
    have hle := h.no_longer m hm
    have hne : m ≠ n + 1 := by
      rintro rfl
      exact hn hm.is_allowed
    omega

/-- Counting a marked position keeps the run marked and below an allowed end. -/
theorem Frontier.count (h : Frontier marked allowed width bound (n + 1) c) (hn : marked n)
    (hc : c = 0 → allowed (n + 1)) :
    (∀ i, n ≤ i → i < n + (c + 1) → marked i) ∧ allowed (n + (c + 1)) := by
  constructor
  · intro i hi hlt
    rcases Nat.eq_or_lt_of_le hi with rfl | hi
    · exact hn
    · exact h.run i hi (by omega)
  · have hsum : n + (c + 1) = n + 1 + c := by omega
    rw [hsum]
    rcases Nat.eq_zero_or_pos c with rfl | hpos
    · exact hc rfl
    · exact h.run_allowed hpos

/-- A marked position extends a run that stays short. -/
theorem Frontier.extend (h : Frontier marked allowed width bound (n + 1) c) (hn : marked n)
    (hc : c = 0 → allowed (n + 1)) (hw : c + 1 < width) :
    Frontier marked allowed width bound n (c + 1) where
  short := hw
  le_bound := by
    have := h.le_bound
    omega
  run := (h.count hn hc).1
  run_allowed _ := (h.count hn hc).2
  no_longer m hm := by
    have := h.no_longer m hm
    omega

/-- A run that has become long enough ends at the largest end that fits. -/
theorem Frontier.found (h : Frontier marked allowed width bound (n + 1) c) (hn : marked n)
    (hc : c = 0 → allowed (n + 1)) (hw : width ≤ c + 1) :
    IsGreatest {m | Fits marked allowed width bound m} (n + (c + 1)) := by
  obtain ⟨hrun, hallowed⟩ := h.count hn hc
  constructor
  · refine ⟨?_, hallowed, fun i hi hlt => hrun i (by omega) hlt⟩
    have := h.le_bound
    omega
  · intro m hm
    have := h.no_longer m hm
    omega

/-- A run down to the first position is a window, even if it is short. -/
theorem Frontier.exhausted (h : Frontier marked allowed width bound 0 c) (h0 : allowed 0) :
    IsGreatest {m | Fits marked allowed width bound m} c := by
  have hle := h.le_bound
  constructor
  · refine ⟨by omega, ?_, fun i _ hlt => h.run i (Nat.zero_le i) (by omega)⟩
    rcases Nat.eq_zero_or_pos c with rfl | hpos
    · exact h0
    · simpa using h.run_allowed hpos
  · intro m hm
    simpa using h.no_longer m hm

end WindowScan
