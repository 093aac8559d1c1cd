import Mathlib.Algebra.GroupWithZero.Nat
import Mathlib.Data.List.Sort

/-!
# Dealing out positions in units

Positions are dealt out to a number of ranks, a unit of consecutive positions to each in turn.
Every position has one owner and an index among the positions of its owner; a rank and an index
give the position back. Of the positions below a length, a rank owns a prefix of its own ones.
-/

namespace Interleave

/-- The rank that owns a position. -/
def owner (ranks size p : Nat) : Nat := p / size % ranks

/-- The index of a position among those of its owner. -/
def localIndex (ranks size p : Nat) : Nat := p / (ranks * size) * size + p % size

/-- The position at an index of a rank. -/
def globalIndex (ranks size rank i : Nat) : Nat :=
  i / size * (ranks * size) + rank * size + i % size

/-- How many positions below a length a rank owns. -/
def localCount (ranks size rank length : Nat) : Nat :=
  length / size / ranks * size + min (length - length / size / ranks * size * ranks - rank * size)
    size

variable {ranks size rank p p' i i' : Nat}

theorem owner_lt (hranks : 0 < ranks) (size p : Nat) : owner ranks size p < ranks :=
  Nat.mod_lt _ hranks

/-- A position is made of its round, its owner and its place in the unit. -/
theorem round_owner_place (ranks size p : Nat) :
    p / (ranks * size) * (ranks * size) + owner ranks size p * size + p % size = p := by
  have hunit := Nat.div_add_mod p size
  have hround := Nat.div_add_mod (p / size) ranks
  rw [owner, Nat.mul_comm ranks size, ← Nat.div_div_eq_div_mul]
  calc p / size / ranks * (size * ranks) + p / size % ranks * size + p % size
      = size * (ranks * (p / size / ranks) + p / size % ranks) + p % size := by
        rw [Nat.mul_add, Nat.mul_comm size (p / size % ranks), Nat.mul_comm ranks,
          Nat.mul_left_comm size, Nat.mul_comm size ranks, Nat.mul_comm ranks size]
    _ = p := by rw [hround, hunit]

/-- The place in a round. -/
theorem rank_place_lt (hrank : rank < ranks) (hi : i < size) :
    rank * size + i < ranks * size := by
  have hle : (rank + 1) * size ≤ ranks * size := Nat.mul_le_mul_right size hrank
  rw [Nat.succ_mul] at hle
  omega

/-- The position at an index is in the round of its unit. -/
theorem globalIndex_div (hsize : 0 < size) (hrank : rank < ranks) (i : Nat) :
    globalIndex ranks size rank i / (ranks * size) = i / size := by
  have hlt := rank_place_lt hrank (Nat.mod_lt i hsize)
  rw [globalIndex, Nat.add_assoc, Nat.mul_comm (i / size), Nat.mul_add_div (by omega),
    Nat.div_eq_of_lt hlt, Nat.add_zero]

private theorem globalIndex_mod (ranks size rank i : Nat) :
    globalIndex ranks size rank i % size = i % size := by
  rw [globalIndex, ← Nat.mul_assoc, ← Nat.add_mul, Nat.mul_comm _ size, Nat.mul_add_mod,
    Nat.mod_mod]

/-- The position at an index of a rank is the rank's. -/
theorem owner_globalIndex (hsize : 0 < size) (hrank : rank < ranks) (i : Nat) :
    owner ranks size (globalIndex ranks size rank i) = rank := by
  rw [owner, globalIndex, ← Nat.mul_assoc, ← Nat.add_mul, Nat.mul_comm _ size,
    Nat.mul_add_div hsize, Nat.div_eq_of_lt (Nat.mod_lt i hsize), Nat.add_zero,
    Nat.mul_comm _ ranks, Nat.mul_add_mod, Nat.mod_eq_of_lt hrank]

/-- It has that index. -/
theorem localIndex_globalIndex (hsize : 0 < size) (hrank : rank < ranks) (i : Nat) :
    localIndex ranks size (globalIndex ranks size rank i) = i := by
  rw [localIndex, globalIndex_div hsize hrank, globalIndex_mod, Nat.mul_comm]
  exact Nat.div_add_mod i size

private theorem localIndex_div (hsize : 0 < size) (ranks p : Nat) :
    localIndex ranks size p / size = p / (ranks * size) := by
  rw [localIndex, Nat.mul_comm, Nat.mul_add_div hsize,
    Nat.div_eq_of_lt (Nat.mod_lt p hsize), Nat.add_zero]

private theorem localIndex_mod (ranks size p : Nat) :
    localIndex ranks size p % size = p % size := by
  rw [localIndex, Nat.mul_comm, Nat.mul_add_mod, Nat.mod_mod]

/-- The owner and the index give the position back. -/
theorem globalIndex_localIndex (hsize : 0 < size) (ranks p : Nat) :
    globalIndex ranks size (owner ranks size p) (localIndex ranks size p) = p := by
  rw [globalIndex, localIndex_div hsize, localIndex_mod]
  exact round_owner_place ranks size p

/-- Positions come in the order of their indexes. -/
theorem globalIndex_lt (hsize : 0 < size) (hrank : rank < ranks) (h : i < i') :
    globalIndex ranks size rank i < globalIndex ranks size rank i' := by
  have hi := Nat.div_add_mod i size
  have hi' := Nat.div_add_mod i' size
  have hmod := Nat.mod_lt i hsize
  have hmod' := Nat.mod_lt i' hsize
  unfold globalIndex
  rcases Nat.lt_or_ge (i / size) (i' / size) with hlt | hge
  · have hle : (i / size + 1) * (ranks * size) ≤ i' / size * (ranks * size) :=
      Nat.mul_le_mul_right _ hlt
    have hplace := rank_place_lt hrank hmod
    rw [Nat.succ_mul] at hle
    omega
  · have heq : i' / size = i / size :=
      le_antisymm hge (Nat.div_le_div_right h.le)
    rw [heq] at hi' ⊢
    omega

/-- Whole rounds of a rank's own positions, then what the last round has of it. -/
theorem globalIndex_lt_iff (hsize : 0 < size) (hrank : rank < ranks) (i length : Nat) :
    globalIndex ranks size rank i < length ↔ i < localCount ranks size rank length := by
  have hi := Nat.div_add_mod i size
  have hmod := Nat.mod_lt i hsize
  have hplace := rank_place_lt hrank hmod
  have hpos : 0 < ranks * size := by omega
  obtain ⟨rounds, hrounds⟩ : ∃ rounds, rounds = length / size / ranks := ⟨_, rfl⟩
  have hlength : rounds * (ranks * size) ≤ length ∧ length < (rounds + 1) * (ranks * size) := by
    have hdiv : rounds = length / (ranks * size) := by
      rw [hrounds, Nat.div_div_eq_div_mul, Nat.mul_comm size]
    have hadd := Nat.div_add_mod length (ranks * size)
    have hlt := Nat.mod_lt length hpos
    rw [← hdiv, Nat.mul_comm] at hadd
    rw [Nat.succ_mul]
    omega
  have hbase : rounds * size * ranks = rounds * (ranks * size) := by
    rw [Nat.mul_assoc, Nat.mul_comm size]
  unfold globalIndex localCount
  rw [← hrounds, hbase]
  rw [Nat.succ_mul] at hlength
  rcases Nat.lt_trichotomy (i / size) rounds with hlt | heq | hgt
  · have hle : (i / size + 1) * (ranks * size) ≤ rounds * (ranks * size) :=
      Nat.mul_le_mul_right _ hlt
    have hle' : (i / size + 1) * size ≤ rounds * size := Nat.mul_le_mul_right _ hlt
    rw [Nat.succ_mul] at hle hle'
    rw [Nat.mul_comm] at hi
    constructor <;> omega
  · rw [heq, Nat.mul_comm] at hi
    rw [heq]
    omega
  · have hle : (rounds + 1) * (ranks * size) ≤ i / size * (ranks * size) :=
      Nat.mul_le_mul_right _ hgt
    have hle' : (rounds + 1) * size ≤ i / size * size := Nat.mul_le_mul_right _ hgt
    rw [Nat.succ_mul] at hle hle'
    rw [Nat.mul_comm] at hi
    constructor <;> omega

/-- The positions below a length that a rank owns are the first ones of its own. -/
theorem filter_owner (hsize : 0 < size) (hrank : rank < ranks) (length : Nat) :
    (List.range length).filter (fun p => owner ranks size p = rank)
      = (List.range (localCount ranks size rank length)).map (globalIndex ranks size rank) := by
  refine List.Perm.eq_of_pairwise' (r := (· < ·)) ?_ ?_ ?_
  · exact List.pairwise_lt_range.filter _
  · exact List.pairwise_map.mpr
      (List.pairwise_lt_range.imp fun h => globalIndex_lt hsize hrank h)
  · refine (List.perm_ext_iff_of_nodup (List.nodup_range.filter _) ?_).mpr fun p => ?_
    · refine List.nodup_range.map fun i i' heq => ?_
      rw [← localIndex_globalIndex hsize hrank i, heq, localIndex_globalIndex hsize hrank]
    · simp only [List.mem_filter, List.mem_range, decide_eq_true_eq, List.mem_map]
      constructor
      · rintro ⟨hp, rfl⟩
        have hglobal := globalIndex_localIndex hsize ranks p
        exact ⟨localIndex ranks size p,
          (globalIndex_lt_iff hsize hrank _ _).mp (hglobal.symm ▸ hp), hglobal⟩
      · rintro ⟨i, hi, rfl⟩
        exact ⟨(globalIndex_lt_iff hsize hrank _ _).mpr hi, owner_globalIndex hsize hrank i⟩

/-! ## Whole rounds -/

section Rounds

variable {n k : Nat}

/-- A window of whole rounds: the owner is told from the place in the window. -/
theorem owner_mod (hsize : 0 < size) (hk : size ∣ k) (ranks p : Nat) :
    owner ranks size (p % (k * ranks)) = owner ranks size p := by
  obtain ⟨a, rfl⟩ := hk
  have hp := Nat.div_add_mod p (size * a * ranks)
  conv_rhs => rw [← hp]
  rw [owner, owner, Nat.mul_assoc, Nat.mul_assoc, Nat.mul_add_div hsize, Nat.mul_comm a ranks,
    Nat.mul_assoc ranks, Nat.mul_add_mod]

/-- The indexes of a rank run on from window to window. -/
theorem localIndex_window (hsize : 0 < size) (hranks : 0 < ranks) (hk : size ∣ k) (p : Nat) :
    localIndex ranks size p
      = p / (k * ranks) * k + localIndex ranks size (p % (k * ranks)) := by
  obtain ⟨a, rfl⟩ := hk
  have hp := Nat.div_add_mod p (size * a * ranks)
  obtain ⟨v, hv⟩ : ∃ v, v = p / (size * a * ranks) := ⟨_, rfl⟩
  obtain ⟨off, hoff⟩ : ∃ off, off = p % (size * a * ranks) := ⟨_, rfl⟩
  rw [← hv, ← hoff] at hp ⊢
  have hrounds : size * a * ranks * v = ranks * size * (a * v) := by
    rw [Nat.mul_assoc, Nat.mul_comm ranks size, Nat.mul_assoc, Nat.mul_assoc,
      Nat.mul_left_comm a ranks]
  have hunits : size * a * ranks * v = size * (a * ranks * v) := by
    rw [Nat.mul_assoc, Nat.mul_assoc, Nat.mul_assoc]
  have hdiv : p / (ranks * size) = a * v + off / (ranks * size) := by
    rw [← hp, hrounds, Nat.mul_add_div (Nat.mul_pos hranks hsize)]
  have hmod : p % size = off % size := by rw [← hp, hunits, Nat.mul_add_mod]
  rw [localIndex, localIndex, hdiv, hmod, Nat.add_mul, Nat.add_assoc]
  congr 1
  rw [Nat.mul_comm a v, Nat.mul_assoc, Nat.mul_comm size]

/-- A window of a rank has as many indexes as its share. -/
theorem localIndex_lt (hsize : 0 < size) (hk : size ∣ k)
    (hp : p < k * ranks) : localIndex ranks size p < k := by
  obtain ⟨a, rfl⟩ := hk
  have hlt : p / (ranks * size) < a := by
    refine Nat.div_lt_of_lt_mul ?_
    rwa [Nat.mul_assoc, Nat.mul_comm a, Nat.mul_left_comm, ← Nat.mul_assoc] at hp
  have hle : (p / (ranks * size) + 1) * size ≤ a * size := Nat.mul_le_mul_right _ hlt
  have hmod := Nat.mod_lt p hsize
  rw [Nat.succ_mul] at hle
  rw [localIndex, Nat.mul_comm size]
  omega

/-- The window of an index is that of the position. -/
theorem localIndex_div_window (hsize : 0 < size) (hranks : 0 < ranks) (hk : size ∣ k)
    (hpos : 0 < k) (p : Nat) : localIndex ranks size p / k = p / (k * ranks) := by
  have hlt := localIndex_lt hsize hk (Nat.mod_lt p (Nat.mul_pos hpos hranks))
  rw [localIndex_window hsize hranks hk, Nat.mul_comm _ k, Nat.mul_add_div hpos,
    Nat.div_eq_of_lt hlt, Nat.add_zero]

/-- The index in its window is told from the place in the window. -/
theorem localIndex_mod_window (hsize : 0 < size) (hranks : 0 < ranks) (hk : size ∣ k)
    (hpos : 0 < k) (p : Nat) :
    localIndex ranks size p % k = localIndex ranks size (p % (k * ranks)) := by
  have hlt := localIndex_lt hsize hk (Nat.mod_lt p (Nat.mul_pos hpos hranks))
  rw [localIndex_window hsize hranks hk, Nat.mul_comm _ k, Nat.mul_add_mod,
    Nat.mod_eq_of_lt hlt]

/-- Two positions of one rank with the same place of their indexes have the same place. -/
theorem mod_window_inj (hsize : 0 < size) (hranks : 0 < ranks) (hk : size ∣ k) (hpos : 0 < k)
    (howner : owner ranks size p = owner ranks size p')
    (h : localIndex ranks size p % k = localIndex ranks size p' % k) :
    p % (k * ranks) = p' % (k * ranks) := by
  rw [localIndex_mod_window hsize hranks hk hpos, localIndex_mod_window hsize hranks hk hpos] at h
  rw [← globalIndex_localIndex hsize ranks (p % (k * ranks)), h, owner_mod hsize hk, howner,
    ← owner_mod hsize hk, globalIndex_localIndex hsize]

end Rounds

/-- One rank owns everything. -/
theorem localIndex_one (size p : Nat) : localIndex 1 size p = p := by
  rw [localIndex, Nat.one_mul, Nat.mul_comm]
  exact Nat.div_add_mod p size

end Interleave
