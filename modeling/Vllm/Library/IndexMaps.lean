import Mathlib.Data.Finset.Card
import Mathlib.Data.Finset.Range
import Mathlib.Logic.Function.Basic

/-!
# Maps of indices

Writing a value for each entry of a list at the index of the entry, maps that permute the indices
below a bound, and their inverses as such writes.
-/

namespace IndexMaps

variable {ι κ α : Type} [DecidableEq ι]

/-- Write the value of each entry at its index. -/
def scatter (entries : List κ) (index : κ → ι) (value : κ → α) (init : ι → α) : ι → α :=
  entries.foldl (fun target k => Function.update target (index k) (value k)) init

variable {entries : List κ} {index : κ → ι} {value : κ → α} {init : ι → α}

/-- What no entry has as its index is not written. -/
theorem scatter_of_forall_ne {i : ι} (h : ∀ k ∈ entries, index k ≠ i) :
    scatter entries index value init i = init i := by
  induction entries generalizing init with
  | nil => rfl
  | cons k entries ih =>
    calc scatter entries index value (Function.update init (index k) (value k)) i
        = Function.update init (index k) (value k) i :=
          ih fun k' hk' => h k' (List.mem_cons_of_mem _ hk')
      _ = init i := Function.update_of_ne (h k List.mem_cons_self).symm _ _

/-- Where the indices are different, each entry finds its value. -/
theorem scatter_index
    (hinj : ∀ k ∈ entries, ∀ k' ∈ entries, index k = index k' → k = k') {k : κ}
    (hk : k ∈ entries) : scatter entries index value init (index k) = value k := by
  induction entries generalizing init with
  | nil => cases hk
  | cons k' entries ih =>
    have hinj' : ∀ k ∈ entries, ∀ k' ∈ entries, index k = index k' → k = k' :=
      fun a ha b hb => hinj a (List.mem_cons_of_mem _ ha) b (List.mem_cons_of_mem _ hb)
    by_cases hlater : k ∈ entries
    · exact ih hinj' hlater
    · obtain rfl := (List.mem_cons.mp hk).resolve_right hlater
      have hrest : scatter entries index value (Function.update init (index k) (value k))
          (index k) = Function.update init (index k) (value k) (index k) := by
        refine scatter_of_forall_ne fun b hb heq => hlater ?_
        rwa [← hinj b (List.mem_cons_of_mem _ hb) k List.mem_cons_self heq]
      rw [Function.update_self] at hrest
      exact hrest

/-- A map permutes the indices below a bound. -/
structure PermOn (n : Nat) (f : Nat → Nat) : Prop where
  lt : ∀ i < n, f i < n
  inj : ∀ i < n, ∀ j < n, f i = f j → i = j

variable {n : Nat} {f g : Nat → Nat}

theorem permOn_id : PermOn n id := ⟨fun _ h => h, fun _ _ _ _ h => h⟩

/-- Every index is one that is mapped to. -/
theorem PermOn.surj (h : PermOn n f) {i : Nat} (hi : i < n) : ∃ j < n, f j = i := by
  have himage : (Finset.range n).image f = Finset.range n := by
    refine Finset.eq_of_subset_of_card_le ?_ ?_
    · intro i hi
      obtain ⟨j, hj, rfl⟩ := Finset.mem_image.mp hi
      exact Finset.mem_range.mpr (h.lt j (Finset.mem_range.mp hj))
    · rw [Finset.card_image_of_injOn]
      intro i hi j hj
      exact h.inj i (Finset.mem_range.mp hi) j (Finset.mem_range.mp hj)
  have hmem : i ∈ (Finset.range n).image f := by
    rw [himage]
    exact Finset.mem_range.mpr hi
  obtain ⟨j, hj, rfl⟩ := Finset.mem_image.mp hmem
  exact ⟨j, Finset.mem_range.mp hj, rfl⟩

/-- Permuting lists the same indices. -/
theorem PermOn.map_range (h : PermOn n f) : ((List.range n).map f).Perm (List.range n) := by
  have hnodup : ((List.range n).map f).Nodup :=
    (List.nodup_map_iff_inj_on List.nodup_range).mpr fun i hi j hj =>
      h.inj i (List.mem_range.mp hi) j (List.mem_range.mp hj)
  refine (List.perm_ext_iff_of_nodup hnodup List.nodup_range).mpr fun i => ?_
  rw [List.mem_map, List.mem_range]
  constructor
  · rintro ⟨j, hj, rfl⟩
    exact h.lt j (List.mem_range.mp hj)
  · intro hi
    obtain ⟨j, hj, rfl⟩ := h.surj hi
    exact ⟨j, List.mem_range.mpr hj, rfl⟩

/-! ## Blocks -/

section

variable {a b : Nat}

/-- The block of an index, and its place there. -/
theorem block_div {q r : Nat} (hr : r < b) : (q * b + r) / b = q := by
  rw [Nat.mul_comm, Nat.mul_add_div (Nat.zero_lt_of_lt hr), Nat.div_eq_of_lt hr, Nat.add_zero]

theorem block_mod {q r : Nat} (hr : r < b) : (q * b + r) % b = r := by
  rw [Nat.mul_comm, Nat.mul_add_mod, Nat.mod_eq_of_lt hr]

theorem block_lt {q r : Nat} (hq : q < a) (hr : r < b) : q * b + r < a * b := by
  have := Nat.mul_le_mul_right b hq
  rw [Nat.succ_mul] at this
  omega

theorem div_lt_blocks {i : Nat} (hi : i < a * b) : i / b < a ∧ i % b < b := by
  have hb : 0 < b := by
    rcases Nat.eq_zero_or_pos b with rfl | hb
    · exact absurd hi (Nat.not_lt_zero i)
    · exact hb
  exact ⟨(Nat.div_lt_iff_lt_mul hb).mpr hi, Nat.mod_lt i hb⟩

/-- Blocks are permuted, and so are the indices in each block. -/
theorem PermOn.blocks {f : Nat → Nat} {g : Nat → Nat → Nat} (hf : PermOn a f)
    (hg : ∀ q < a, PermOn b (g q)) :
    PermOn (a * b) fun i => f (i / b) * b + g (i / b) (i % b) := by
  refine ⟨fun i hi => ?_, fun i hi j hj heq => ?_⟩
  · obtain ⟨hq, hr⟩ := div_lt_blocks hi
    exact block_lt (hf.lt _ hq) ((hg _ hq).lt _ hr)
  · obtain ⟨hq, hr⟩ := div_lt_blocks hi
    obtain ⟨hq', hr'⟩ := div_lt_blocks hj
    have hblock : i / b = j / b := by
      refine hf.inj _ hq _ hq' ?_
      have hdiv := congrArg (· / b) heq
      rwa [block_div ((hg _ hq).lt _ hr), block_div ((hg _ hq').lt _ hr')] at hdiv
    have hplace : i % b = j % b := by
      refine (hg _ hq).inj _ hr _ hr' ?_
      have hmod := congrArg (· % b) heq
      rwa [block_mod ((hg _ hq).lt _ hr), block_mod ((hg _ hq').lt _ hr'), ← hblock] at hmod
    rw [← Nat.div_add_mod i b, ← Nat.div_add_mod j b, hblock, hplace]

end

/-- The inverse of a permutation of the indices below `n`. -/
def inverse (n : Nat) (perm : Nat → Nat) : Nat → Nat :=
  scatter (List.range n) perm id fun _ => 0

/-- The inverse undoes the permutation. -/
theorem PermOn.inverse_apply (h : PermOn n f) {i : Nat} (hi : i < n) : inverse n f (f i) = i :=
  scatter_index (fun i hi j hj => h.inj i (List.mem_range.mp hi) j (List.mem_range.mp hj))
    (List.mem_range.mpr hi)

theorem PermOn.apply_inverse (h : PermOn n f) {i : Nat} (hi : i < n) : f (inverse n f i) = i := by
  obtain ⟨j, hj, rfl⟩ := h.surj hi
  rw [h.inverse_apply hj]

/-- The inverse is a permutation. -/
theorem PermOn.inverse (h : PermOn n f) : PermOn n (inverse n f) := by
  refine ⟨fun i hi => ?_, fun i hi j hj heq => ?_⟩
  · obtain ⟨k, hk, rfl⟩ := h.surj hi
    rwa [h.inverse_apply hk]
  · rw [← h.apply_inverse hi, ← h.apply_inverse hj, heq]

end IndexMaps
