import Mathlib.Data.List.Nodup
import Mathlib.Data.List.TakeDrop

/-!
# Fair shares

A list is dealt out to a number of servers: each gets a block of equal length, and the
elements that remain go one each to the first servers. The share of a server and the
server of a position are computed independently and agree.
-/

namespace FairShare

variable {α : Type}

/-- The share of the `i`-th of `servers`: its block, then one of the elements that remain. -/
def share (servers : Nat) (l : List α) (i : Nat) : List α :=
  (l.drop (i * (l.length / servers))).take (l.length / servers) ++
    l[servers * (l.length / servers) + i]?.toList

/-- The server of a position in a list of the given length. -/
def server (servers length position : Nat) : Nat :=
  if position < servers * (length / servers) then position / (length / servers)
  else position - servers * (length / servers)

variable {servers i j : Nat} {l : List α}

/-- Every position has a server. -/
theorem server_lt (hservers : 0 < servers) {length : Nat} (hj : j < length) :
    server servers length j < servers := by
  unfold server
  split
  · next hlt => exact Nat.div_lt_of_lt_mul (by rwa [Nat.mul_comm])
  · have hmod := Nat.div_add_mod length servers
    have hlt := Nat.mod_lt length hservers
    omega

/-- A position lies in the block of a server exactly when division gives the server. -/
theorem mem_block_iff {n : Nat} : i * n ≤ j ∧ j < i * n + n ↔ 0 < n ∧ j / n = i := by
  constructor
  · rintro ⟨hle, hlt⟩
    have hn : 0 < n := by omega
    refine ⟨hn, Nat.div_eq_of_lt_le hle ?_⟩
    rwa [Nat.succ_mul]
  · rintro ⟨hn, rfl⟩
    have hdiv := Nat.div_add_mod j n
    have hlt := Nat.mod_lt j hn
    rw [Nat.mul_comm] at hdiv
    omega

variable [DecidableEq α]

/-- An element of a list without repetition lies in a window when its index does. -/
theorem mem_window_iff (hl : l.Nodup) {b n : Nat} {a : α} :
    a ∈ (l.drop b).take n ↔ a ∈ l ∧ b ≤ l.idxOf a ∧ l.idxOf a < b + n := by
  constructor
  · intro ha
    obtain ⟨k, hk, rfl⟩ := List.mem_iff_getElem.mp ha
    have hlen : k < n ∧ b + k < l.length := by
      rw [List.length_take, List.length_drop] at hk
      omega
    rw [List.getElem_take, List.getElem_drop, hl.idxOf_getElem]
    exact ⟨List.getElem_mem _, by omega, by omega⟩
  · rintro ⟨ha, hle, hlt⟩
    have hidx := List.idxOf_lt_length_of_mem ha
    have hk : l.idxOf a - b < ((l.drop b).take n).length := by
      rw [List.length_take, List.length_drop]
      omega
    refine List.mem_iff_getElem.mpr ⟨l.idxOf a - b, hk, ?_⟩
    rw [List.getElem_take, List.getElem_drop]
    have hsum : b + (l.idxOf a - b) = l.idxOf a := by omega
    simp only [hsum, List.getElem_idxOf]

/-- An element is in the share of the server of its position, and of no other. -/
theorem mem_share_iff (hl : l.Nodup) (hi : i < servers) {a : α} :
    a ∈ share servers l i ↔ a ∈ l ∧ server servers l.length (l.idxOf a) = i := by
  have hrest : a ∈ l[servers * (l.length / servers) + i]?.toList ↔
      a ∈ l ∧ l.idxOf a = servers * (l.length / servers) + i := by
    rw [Option.mem_toList, List.getElem?_eq_some_iff]
    constructor
    · rintro ⟨hlt, rfl⟩
      exact ⟨List.getElem_mem _, hl.idxOf_getElem _ hlt⟩
    · rintro ⟨ha, hidx⟩
      exact ⟨hidx ▸ List.idxOf_lt_length_of_mem ha, by simp only [← hidx, List.getElem_idxOf]⟩
  rw [share, List.mem_append, mem_window_iff hl, hrest, mem_block_iff, server, ← and_or_left]
  refine and_congr_right fun _ => ?_
  split
  · next hlt =>
    have hpos : 0 < l.length / servers := by
      rcases Nat.eq_zero_or_pos (l.length / servers) with hz | hpos
      · rw [hz] at hlt
        omega
      · exact hpos
    constructor
    · rintro (⟨_, h⟩ | h)
      · exact h
      · omega
    · exact fun h => Or.inl ⟨hpos, h⟩
  · next hge =>
    constructor
    · rintro (⟨hpos, h⟩ | h)
      · have hdiv := (mem_block_iff (i := i)).mpr ⟨hpos, h⟩
        have hblock : (i + 1) * (l.length / servers) ≤ servers * (l.length / servers) :=
          Nat.mul_le_mul_right _ hi
        rw [Nat.succ_mul] at hblock
        omega
      · omega
    · intro h
      exact Or.inr (by omega)

/-- A share has no repetition. -/
theorem nodup_share (hl : l.Nodup) (hi : i < servers) : (share servers l i).Nodup := by
  have hblock : (i + 1) * (l.length / servers) ≤ servers * (l.length / servers) :=
    Nat.mul_le_mul_right _ hi
  rw [Nat.succ_mul] at hblock
  have hwindow := (hl.sublist (List.drop_sublist (i * (l.length / servers)) l)).sublist
    (List.take_sublist (l.length / servers) _)
  refine hwindow.append ?_ fun a ha ha' => ?_
  · cases l[servers * (l.length / servers) + i]? <;> simp
  · obtain ⟨_, _, hlt⟩ := (mem_window_iff hl).mp ha
    rw [Option.mem_toList, List.getElem?_eq_some_iff] at ha'
    obtain ⟨hlen, rfl⟩ := ha'
    rw [hl.idxOf_getElem] at hlt
    omega

end FairShare
