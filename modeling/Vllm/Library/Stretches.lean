import Mathlib.Data.List.Dedup
import Mathlib.Data.List.TakeWhile

/-!
# Counting what a list of names stands for

A nondecreasing list of numbers is read through a naming function, so that a number may be
read several times in a row. The names alone do not tell how many numbers were read: they do
exactly when every stretch of equal names stands for as many numbers in both lists.
-/

namespace Stretches

variable {α : Type*}

/-- A stretch of equal entries ends before position `p`. -/
def EndsAt (t : List α) (p : Nat) : Prop := 0 < p ∧ p ≤ t.length ∧ t[p]? ≠ t[p - 1]?

/-- A list begins with a whole stretch of its first entry. -/
private theorem exists_first_stretch [DecidableEq α] (a : α) (t : List α) :
    ∃ n u, a :: t = List.replicate (n + 1) a ++ u ∧ u.head? ≠ some a := by
  refine ⟨(t.takeWhile (· = a)).length, t.dropWhile (· = a), ?_, ?_⟩
  · have hall : t.takeWhile (· = a) = List.replicate (t.takeWhile (· = a)).length a :=
      List.eq_replicate_iff.mpr ⟨rfl, fun x hx => by simpa using List.mem_takeWhile_imp hx⟩
    rw [List.replicate_succ, List.cons_append, ← hall, List.takeWhile_append_dropWhile]
  · intro hhead
    have hne := List.head?_dropWhile_not (· = a) t
    rw [hhead] at hne
    simp at hne

/-- The ends of stretches behind a whole first stretch. -/
private theorem endsAt_replicate_append (a : α) {n : Nat} {u : List α} (hu : u.head? ≠ some a)
    (p : Nat) : EndsAt (List.replicate (n + 1) a ++ u) p ↔
      p = n + 1 ∨ ∃ q, p = n + 1 + q ∧ EndsAt u q := by
  have hfirst {p : Nat} (hp : p < n + 1) : (List.replicate (n + 1) a ++ u)[p]? = some a := by
    rw [List.getElem?_append_left (by simpa using hp), List.getElem?_replicate_of_lt hp]
  have hrest (q : Nat) : (List.replicate (n + 1) a ++ u)[n + 1 + q]? = u[q]? := by
    rw [List.getElem?_append_right (by simp), List.length_replicate, Nat.add_sub_cancel_left]
  rw [List.head?_eq_getElem?] at hu
  constructor
  · rintro ⟨hpos, hle, hne⟩
    rcases Nat.lt_trichotomy p (n + 1) with hlt | heq | hgt
    · rw [hfirst hlt, hfirst (by omega)] at hne
      exact absurd rfl hne
    · exact Or.inl heq
    · obtain ⟨q, rfl⟩ := Nat.exists_eq_add_of_lt hgt
      rw [Nat.add_sub_cancel, Nat.add_assoc (n + 1), hrest, hrest] at hne
      simp only [List.length_append, List.length_replicate] at hle
      exact Or.inr ⟨q + 1, rfl, Nat.succ_pos q, by omega, hne⟩
  · rintro (rfl | ⟨q, rfl, hpos, hle, hne⟩)
    · refine ⟨Nat.succ_pos n, by simp, ?_⟩
      rw [Nat.add_sub_cancel, hfirst (Nat.lt_succ_self n), ← Nat.add_zero (n + 1), hrest]
      exact hu
    · obtain ⟨k, rfl⟩ := Nat.exists_eq_succ_of_ne_zero hpos.ne'
      refine ⟨by omega, by simpa using hle, ?_⟩
      rw [hrest, Nat.succ_eq_add_one, ← Nat.add_assoc (n + 1), Nat.add_sub_cancel, hrest]
      exact hne

/-- Lists that begin with stretches of one entry are equal when both parts are. -/
private theorem replicate_append_inj {a : α} {m m' : Nat} {u u' : List α}
    (hu : u.head? ≠ some a) (hu' : u'.head? ≠ some a) :
    List.replicate m a ++ u = List.replicate m' a ++ u' ↔ m = m' ∧ u = u' := by
  refine ⟨fun h => ?_, fun ⟨hm, h⟩ => hm ▸ h ▸ rfl⟩
  induction m generalizing m' with
  | zero =>
    cases m' with
    | zero => exact ⟨rfl, h⟩
    | succ m' => exact absurd (by rw [show u = _ from h]; rfl) hu
  | succ m ih =>
    cases m' with
    | zero => exact absurd (by rw [show u' = _ from h.symm]; rfl) hu'
    | succ m' =>
      obtain ⟨hm, h⟩ := ih (List.cons.inj h).2
      exact ⟨congrArg Nat.succ hm, h⟩

/-- Without repetitions a nondecreasing list begins as before. -/
private theorem head?_dedup {l : List Nat} (hl : l.Pairwise (· ≤ ·)) : l.dedup.head? = l.head? := by
  cases l with
  | nil => rfl
  | cons x l =>
    have hmem : x ∈ (x :: l).dedup := List.mem_dedup.mpr List.mem_cons_self
    cases hd : (x :: l).dedup with
    | nil => rw [hd] at hmem; cases hmem
    | cons y d =>
      have hy : y ∈ x :: l := List.mem_dedup.mp (hd ▸ List.mem_cons_self)
      have hle : x ≤ y := by
        obtain rfl | hy := List.mem_cons.mp hy
        · exact Nat.le_refl _
        · exact (List.pairwise_cons.mp hl).1 y hy
      have hge : y ≤ x := by
        rw [hd] at hmem
        obtain rfl | hx := List.mem_cons.mp hmem
        · exact Nat.le_refl _
        · exact (List.pairwise_cons.mp (hd ▸ hl.sublist (List.dedup_sublist _))).1 x hx
      rw [List.head?_cons, List.head?_cons, Nat.le_antisymm hge hle]

/-- The part of a list that is named by a first stretch. -/
private theorem split_first_stretch {l : List Nat} (hl : l.Pairwise (· ≤ ·)) {f : Nat → α} {a : α}
    {n : Nat} {u : List α} (h : l.map f = List.replicate n a ++ u) (hu : u.head? ≠ some a) :
    ∃ l₁ l₂, l = l₁ ++ l₂ ∧ l₁.length = n ∧ (∀ k ∈ l₁, f k = a) ∧ l₂.map f = u ∧
      l₂.Pairwise (· ≤ ·) ∧ l₁.Disjoint l₂ := by
  obtain ⟨l₁, l₂, rfl, h₁, h₂⟩ := List.map_eq_append_iff.mp h
  obtain ⟨-, hl₂, hle⟩ := List.pairwise_append.mp hl
  have hname : ∀ k ∈ l₁, f k = a := fun k hk =>
    List.eq_of_mem_replicate (h₁ ▸ List.mem_map_of_mem hk)
  refine ⟨l₁, l₂, rfl, by simpa using congrArg List.length h₁, hname, h₂, hl₂, ?_⟩
  intro k hk hk'
  cases l₂ with
  | nil => cases hk'
  | cons x l₂ =>
    have hx : x = k := by
      apply Nat.le_antisymm _ (hle k hk x List.mem_cons_self)
      obtain rfl | hk' := List.mem_cons.mp hk'
      · exact Nat.le_refl _
      · exact (List.pairwise_cons.mp hl₂).1 k hk'
    apply hu
    rw [← h₂, hx, List.map_cons, List.head?_cons, hname k hk]

/-- Two lists read as the same names stand for the same named numbers exactly when they stand
for equally many at the end of every stretch of equal names. -/
theorem dedup_map_eq_iff [DecidableEq α] {l l' : List Nat} {f f' : Nat → α}
    (hl : l.Pairwise (· ≤ ·)) (hl' : l'.Pairwise (· ≤ ·)) (h : l.map f = l'.map f') :
    l.dedup.map f = l'.dedup.map f' ↔
      ∀ p, EndsAt (l.map f) p → (l.take p).dedup.length = (l'.take p).dedup.length := by
  induction hk : l.length using Nat.strongRecOn generalizing l l' with
  | ind k ih =>
    cases hnames : l.map f with
    | nil =>
      obtain rfl := List.map_eq_nil_iff.mp hnames
      obtain rfl := List.map_eq_nil_iff.mp (h.symm.trans hnames)
      simp
    | cons a t =>
      -- Both lists split where the first stretch ends, and the rest is shorter.
      obtain ⟨n, u, ht, hu⟩ := exists_first_stretch a t
      obtain ⟨l₁, l₂, rfl, hn, hname, h₂, hl₂, hd⟩ :=
        split_first_stretch hl (hnames.trans ht) hu
      obtain ⟨l₁', l₂', rfl, hn', hname', h₂', hl₂', hd'⟩ :=
        split_first_stretch hl' ((h.symm.trans hnames).trans ht) hu
      have hstretch {f : Nat → α} {m : List Nat} (hm : ∀ k ∈ m, f k = a) :
          m.dedup.map f = List.replicate m.dedup.length a := by
        refine List.eq_replicate_iff.mpr ⟨List.length_map _, fun x hx => ?_⟩
        obtain ⟨k, hk, rfl⟩ := List.mem_map.mp hx
        exact hm k (List.mem_dedup.mp hk)
      have hhead {f : Nat → α} {m : List Nat} (hm : m.Pairwise (· ≤ ·)) (hu' : m.map f = u) :
          (m.dedup.map f).head? ≠ some a := by
        rw [List.head?_map, head?_dedup hm, ← List.head?_map, hu']
        exact hu
      have htake {m m' : List Nat} (hm : m.length = n + 1) (hmd : m.Disjoint m') (q : Nat) :
          ((m ++ m').take (n + 1 + q)).dedup.length =
            m.dedup.length + (m'.take q).dedup.length := by
        rw [← hm, List.take_length_add_append, List.Disjoint.dedup_append
          (List.disjoint_of_subset_right (List.take_subset q m') hmd), List.length_append]
      have hrest := ih l₂.length (by simp only [← hk, List.length_append]; omega) hl₂ hl₂'
        (h₂.trans h₂'.symm) rfl
      rw [h₂] at hrest
      rw [hd.dedup_append, hd'.dedup_append, List.map_append, List.map_append, hstretch hname,
        hstretch hname', replicate_append_inj (hhead hl₂ h₂) (hhead hl₂' h₂'), hrest, ht]
      simp only [endsAt_replicate_append a hu]
      constructor
      · rintro ⟨hfirst, hq⟩ p (rfl | ⟨q, rfl, hend⟩)
        · have h0 := htake hn hd 0
          have h0' := htake hn' hd' 0
          simp only [Nat.add_zero, List.take_zero, List.dedup_nil, List.length_nil] at h0 h0'
          rw [h0, h0', hfirst]
        · rw [htake hn hd, htake hn' hd', hfirst, hq q hend]
      · intro hp
        have h0 := htake hn hd 0
        have h0' := htake hn' hd' 0
        simp only [Nat.add_zero, List.take_zero, List.dedup_nil, List.length_nil] at h0 h0'
        have hfirst : l₁.dedup.length = l₁'.dedup.length := by
          rw [← h0, ← h0', hp _ (Or.inl rfl)]
        refine ⟨hfirst, fun q hend => ?_⟩
        have hq := hp _ (Or.inr ⟨q, rfl, hend⟩)
        rw [htake hn hd, htake hn' hd', hfirst] at hq
        exact Nat.add_left_cancel hq

end Stretches
