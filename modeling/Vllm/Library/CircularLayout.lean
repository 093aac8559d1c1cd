import Mathlib.Algebra.Order.Group.Int
import Mathlib.Algebra.Ring.Int.Defs
import Mathlib.Data.List.Nodup
import Mathlib.Data.List.Range
import Mathlib.Data.Nat.ModEq

/-!
# Intervals laid out around a circle

Intervals of an unbounded line that follow each other, none of which runs past a multiple of
the circumference. As long as they span at most one turn, their images on the circle do not
meet. The numbers of consecutive elements of a counter that wraps around.
-/

namespace CircularLayout

/-! ## Intervals -/

/-- An interval of the line. -/
structure Interval where
  /-- Where the interval begins. -/
  lo : Int
  /-- How long it is. -/
  len : Int
  deriving Repr, DecidableEq

/-- The interval moved along the line. -/
def Interval.shift (c : Interval) (d : Int) : Interval := ⟨c.lo + d, c.len⟩

/-- The intervals follow each other between two positions, possibly with gaps; none is empty
and none runs past a multiple of the circumference. -/
def Chain (S : Int) : Int → List Interval → Int → Prop
  | pos, [], fin => pos ≤ fin
  | pos, c :: l, fin =>
    pos ≤ c.lo ∧ 0 < c.len ∧ c.lo % S + c.len ≤ S ∧ Chain S (c.lo + c.len) l fin

/-- Two intervals have disjoint images on the circle. -/
def DisjointMod (S : Int) (c d : Interval) : Prop :=
  c.lo % S + c.len ≤ d.lo % S ∨ d.lo % S + d.len ≤ c.lo % S

variable {S pos fin : Int} {l : List Interval} {c : Interval}

theorem Chain.le (h : Chain S pos l fin) : pos ≤ fin := by
  induction l generalizing pos with
  | nil => exact h
  | cons c l ih =>
    have hrest := ih h.2.2.2
    have hlo := h.1
    have hlen := h.2.1
    omega

/-- One more interval after the last one. -/
theorem Chain.append (h : Chain S pos l fin) (hlo : fin ≤ c.lo) (hlen : 0 < c.len)
    (hfit : c.lo % S + c.len ≤ S) : Chain S pos (l ++ [c]) (c.lo + c.len) := by
  induction l generalizing pos with
  | nil => exact ⟨le_trans h hlo, hlen, hfit, le_rfl⟩
  | cons d l ih => exact ⟨h.1, h.2.1, h.2.2.1, ih h.2.2.2⟩

/-- Every interval of a chain lies between its ends. -/
theorem Chain.mem (h : Chain S pos l fin) (hc : c ∈ l) :
    pos ≤ c.lo ∧ c.lo + c.len ≤ fin ∧ 0 < c.len ∧ c.lo % S + c.len ≤ S := by
  induction l generalizing pos with
  | nil => cases hc
  | cons d l ih =>
    obtain ⟨hlo, hlen, hfit, hrest⟩ := h
    rcases List.mem_cons.mp hc with rfl | hc
    · exact ⟨hlo, hrest.le, hlen, hfit⟩
    · obtain ⟨hlo', hrest'⟩ := ih hrest hc
      exact ⟨by omega, hrest'⟩

/-- A chain moved by a whole turn. -/
theorem Chain.shift (h : Chain S pos l fin) :
    Chain S (pos - S) (l.map (·.shift (-S))) (fin - S) := by
  induction l generalizing pos with
  | nil => exact Int.sub_le_sub_right h S
  | cons c l ih =>
    obtain ⟨hlo, hlen, hfit, hrest⟩ := h
    refine ⟨?_, hlen, ?_, ?_⟩
    · simp only [Interval.shift]
      omega
    · simpa only [Interval.shift, ← Int.sub_eq_add_neg, Int.sub_emod_right] using hfit
    · have hnext := ih hrest
      rwa [show c.lo + c.len - S = (c.shift (-S)).lo + (c.shift (-S)).len by
        simp only [Interval.shift]; omega] at hnext

/-- Intervals of one turn, one after the other, are disjoint on the circle. -/
theorem disjointMod_of_le {d : Interval} (hS : 0 < S) (hc : 0 < c.len) (hle : c.lo + c.len ≤ d.lo)
    (hd : 0 < d.len) (hturn : d.lo + d.len ≤ c.lo + S) : DisjointMod S c d := by
  have hmod : d.lo % S = (c.lo % S + (d.lo - c.lo)) % S := by
    rw [Int.emod_add_emod]
    congr 1
    omega
  have hnonneg := Int.emod_nonneg c.lo hS.ne'
  have hlt := Int.emod_lt_of_pos c.lo hS
  rw [DisjointMod]
  by_cases hwrap : c.lo % S + (d.lo - c.lo) < S
  · rw [Int.emod_eq_of_lt (by omega) hwrap] at hmod
    exact .inl (by omega)
  · have hwrapped : (c.lo % S + (d.lo - c.lo)) % S = c.lo % S + (d.lo - c.lo) - S := by
      rw [← Int.sub_emod_right, Int.emod_eq_of_lt (by omega) (by omega)]
    exact .inr (by omega)

/-- The intervals of a chain of at most one turn are disjoint on the circle. -/
theorem Chain.pairwise_disjointMod (h : Chain S pos l fin) (hS : 0 < S)
    (hturn : fin ≤ pos + S) : l.Pairwise (DisjointMod S) := by
  induction l generalizing pos with
  | nil => exact .nil
  | cons c l ih =>
    obtain ⟨hlo, hlen, _, hrest⟩ := h
    refine .cons (fun d hd => ?_) (ih hrest (by omega))
    obtain ⟨hle, hfin, hdlen, _⟩ := hrest.mem hd
    exact disjointMod_of_le hS hlen hle hdlen (by omega)

/-- Intervals of some minimal length take up their number times it. -/
theorem Chain.length_mul_le {k : Int} (h : Chain S pos l fin) (hk : ∀ c ∈ l, k ≤ c.len) :
    l.length * k ≤ fin - pos := by
  induction l generalizing pos with
  | nil =>
    have hle : pos ≤ fin := h
    simp only [List.length_nil, Int.natCast_zero, Int.zero_mul]
    omega
  | cons c l ih =>
    obtain ⟨hlo, hlen, _, hrest⟩ := h
    have hl := ih hrest fun d hd => hk d (List.mem_cons_of_mem _ hd)
    have hc := hk c List.mem_cons_self
    rw [List.length_cons, Int.natCast_add, Int.add_mul]
    omega

/-! ## Numbers that wrap around -/

/-- Consecutive numbers of a counter with `m` values. -/
def countFrom (m start n : Nat) : List Nat := (List.range n).map fun i => (start + i) % m

variable {m start n : Nat}

@[simp] theorem length_countFrom (m start n : Nat) : (countFrom m start n).length = n := by
  simp [countFrom]

/-- The next number follows at the end. -/
theorem countFrom_succ (m start n : Nat) :
    countFrom m start (n + 1) = countFrom m start n ++ [(start + n) % m] := by
  simp [countFrom, List.range_succ]

/-- The first number, and those counted from the one after it. -/
theorem countFrom_succ' (hstart : start < m) (n : Nat) :
    countFrom m start (n + 1) = start :: countFrom m ((start + 1) % m) n := by
  simp only [countFrom, List.range_succ_eq_map, List.map_cons, List.map_map, Nat.add_zero,
    Nat.mod_eq_of_lt hstart, Function.comp_def, Nat.mod_add_mod, Nat.succ_eq_add_one]
  simp only [Nat.add_assoc, Nat.add_comm 1]

/-- Fewer numbers than the counter has are distinct from the next one. -/
theorem not_mem_countFrom (hn : n < m) : (start + n) % m ∉ countFrom m start n := by
  simp only [countFrom, List.mem_map, List.mem_range, not_exists, not_and]
  intro i hi heq
  have hmod : i % m = n % m := Nat.ModEq.add_left_cancel' start heq
  rw [Nat.mod_eq_of_lt (by omega), Nat.mod_eq_of_lt hn] at hmod
  omega

/-- The first numbers, and those counted from where they end. -/
theorem countFrom_add (m start n k : Nat) :
    countFrom m start (n + k) = countFrom m start n ++ countFrom m ((start + n) % m) k := by
  simp only [countFrom, List.range_add, List.map_append, List.map_map, Function.comp_def,
    Nat.mod_add_mod, Nat.add_assoc]

/-- Numbers counted without reaching the end of the counter. -/
theorem countFrom_eq_range' (h : start + n ≤ m) :
    countFrom m start n = List.range' start n := by
  rw [countFrom, List.range'_eq_map_range]
  refine List.map_congr_left fun i hi => ?_
  have hi' := List.mem_range.mp hi
  exact Nat.mod_eq_of_lt (by omega)

end CircularLayout
