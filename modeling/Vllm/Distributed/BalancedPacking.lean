import Mathlib.Algebra.Order.Monoid.Unbundled.WithTop
import Vllm.Distributed.ReplicateExperts

/-!
# The packing of objects

Objects are packed in the order of their weights, each into the lightest pack that is not full. Of
the sorting it only matters that every object is listed once: every pack then has the same number
of objects, at different ranks.
-/

namespace Vllm.Distributed

open Checked FirstMax Finset

/-- What stops the rebalancing. -/
inductive RebalanceError where
  | eplb (e : EplbError)
  | zeroDivision
  /-- An array of no values is not reshaped to a size that is not known. -/
  | reshape
  | index
  deriving DecidableEq, Repr

/-- The pack of each object and its rank in the pack. -/
structure Packing where
  packIndex : Nat → Nat
  rankInPack : Nat → Nat

/-- The loop of `balanced_packing`. A full pack has an infinite weight. -/
structure PackingState extends Packing where
  packWeights : Nat → WithTop ℚ
  packItems : Nat → Nat

/-- The empty packs. All objects are packed, so that their places at the start do not matter. -/
def PackingState.empty : PackingState where
  packIndex := fun _ => 0
  rankInPack := fun _ => 0
  packWeights := fun _ => 0
  packItems := fun _ => 0

/-- One turn: an object goes to the lightest pack. -/
def PackingState.pack (numPacks groupsPerPack : Nat) (weight : Nat → ℚ) (s : PackingState)
    (group : Nat) : PackingState :=
  let pack := firstMin numPacks s.packWeights
  let packItems := Function.update s.packItems pack (s.packItems pack + 1)
  let packWeights :=
    Function.update s.packWeights pack (s.packWeights pack + (weight group : WithTop ℚ))
  { packIndex := Function.update s.packIndex group pack
    rankInPack := Function.update s.rankInPack group (s.packItems pack)
    packWeights := if packItems pack = groupsPerPack then Function.update packWeights pack ⊤
      else packWeights
    packItems }

/-- `balanced_packing` for one layer, with the sorting of `numpy`. -/
def balancedPacking (argsort : Nat → (Nat → ℚ) → List Nat) (numGroups : Nat) (weight : Nat → ℚ)
    (numPacks : Nat) : Except RebalanceError Packing := do
  ensure (numPacks ≠ 0) .zeroDivision
  ensure (numGroups % numPacks = 0) (.eplb .assertion)
  let groupsPerPack := numGroups / numPacks
  if groupsPerPack = 1 then pure { packIndex := id, rankInPack := fun _ => 0 }
  else
    let indices := argsort numGroups fun g => -weight g
    pure (indices.foldl (PackingState.pack numPacks groupsPerPack weight)
      PackingState.empty).toPacking

section

variable {numPacks groupsPerPack group : Nat} {weight : Nat → ℚ} {packed : List Nat}
  {s : PackingState}

/-- What holds when several objects are packed. -/
structure PackedSoFar (numPacks groupsPerPack : Nat) (packed : List Nat) (s : PackingState) :
    Prop where
  items_le : ∀ p < numPacks, s.packItems p ≤ groupsPerPack
  full_iff : ∀ p < numPacks, s.packWeights p = ⊤ ↔ s.packItems p = groupsPerPack
  sum_eq : ∑ p ∈ range numPacks, s.packItems p = packed.length
  index_lt : ∀ g ∈ packed, s.packIndex g < numPacks
  rank_lt : ∀ g ∈ packed, s.rankInPack g < s.packItems (s.packIndex g)
  inj : ∀ g ∈ packed, ∀ g' ∈ packed, s.packIndex g = s.packIndex g' →
    s.rankInPack g = s.rankInPack g' → g = g'

private theorem packedSoFar_empty (hpos : 0 < groupsPerPack) :
    PackedSoFar numPacks groupsPerPack [] PackingState.empty where
  items_le _ _ := Nat.zero_le _
  full_iff p _ := by
    refine iff_of_false ?_ hpos.ne
    exact WithTop.coe_ne_top (a := (0 : ℚ))
  sum_eq := sum_eq_zero fun _ _ => rfl
  index_lt _ h := by cases h
  rank_lt _ h := by cases h
  inj _ h := by cases h

/-- One more object. -/
theorem PackedSoFar.pack (h : PackedSoFar numPacks groupsPerPack packed s)
    (hnew : group ∉ packed) (hroom : packed.length < numPacks * groupsPerPack) :
    PackedSoFar numPacks groupsPerPack (packed ++ [group])
      (s.pack numPacks groupsPerPack weight group) := by
  -- Some pack is not full.
  obtain ⟨free, hfree, hless⟩ : ∃ p < numPacks, s.packItems p < groupsPerPack := by
    by_contra hnone
    have hall : ∑ p ∈ range numPacks, groupsPerPack ≤ ∑ p ∈ range numPacks, s.packItems p := by
      refine sum_le_sum fun p hp => not_lt.mp fun hlt => hnone ⟨p, mem_range.mp hp, hlt⟩
    rw [sum_const_nat fun _ _ => rfl, card_range, h.sum_eq] at hall
    omega
  have hpos : 0 < numPacks := Nat.zero_lt_of_lt hfree
  obtain ⟨p, hp⟩ : ∃ p, firstMin numPacks s.packWeights = p := ⟨_, rfl⟩
  have hlt : p < numPacks := hp ▸ firstMin_lt hpos
  have hfinite : s.packWeights p ≠ ⊤ := by
    intro htop
    have hle : s.packWeights p ≤ s.packWeights free := hp ▸ firstMin_le hfree
    rw [htop, top_le_iff, h.full_iff free hfree] at hle
    omega
  have hitems : s.packItems p < groupsPerPack :=
    lt_of_le_of_ne (h.items_le p hlt) fun heq => hfinite ((h.full_iff p hlt).mpr heq)
  have hs : s.pack numPacks groupsPerPack weight group =
      { packIndex := Function.update s.packIndex group p
        rankInPack := Function.update s.rankInPack group (s.packItems p)
        packWeights := if s.packItems p + 1 = groupsPerPack then
            Function.update (Function.update s.packWeights p
              (s.packWeights p + (weight group : WithTop ℚ))) p ⊤
          else Function.update s.packWeights p (s.packWeights p + (weight group : WithTop ℚ))
        packItems := Function.update s.packItems p (s.packItems p + 1) } := by
    rw [PackingState.pack, hp, Function.update_self]
  have hne : ∀ g ∈ packed, g ≠ group := by
    rintro g hg rfl
    exact hnew hg
  rw [hs]
  refine ⟨fun q hq => ?_, fun q hq => ?_, ?_, fun g hg => ?_, fun g hg => ?_,
    fun g hg g' hg' hpack hrank => ?_⟩
  · show Function.update s.packItems p (s.packItems p + 1) q ≤ groupsPerPack
    by_cases hqp : q = p
    · subst hqp
      rw [Function.update_self]
      exact hitems
    · rw [Function.update_of_ne hqp]
      exact h.items_le q hq
  · dsimp only
    by_cases hqp : q = p
    · subst hqp
      rw [Function.update_self]
      split
      next hfull => rw [Function.update_self]; exact iff_of_true rfl hfull
      next hnot =>
        rw [Function.update_self]
        exact iff_of_false (WithTop.add_ne_top.mpr ⟨hfinite, WithTop.coe_ne_top⟩) hnot
    · rw [Function.update_of_ne hqp, ← h.full_iff q hq]
      split
      next => rw [Function.update_of_ne hqp, Function.update_of_ne hqp]
      next => rw [Function.update_of_ne hqp]
  · show ∑ q ∈ range numPacks, Function.update s.packItems p (s.packItems p + 1) q = _
    rw [sum_update_of_mem (mem_range.mpr hlt), List.length_append, List.length_singleton,
      ← h.sum_eq, ← add_sum_erase _ _ (mem_range.mpr hlt), sdiff_singleton_eq_erase]
    omega
  · dsimp only
    rcases List.mem_append.mp hg with hold | hone
    · rw [Function.update_of_ne (hne g hold)]
      exact h.index_lt g hold
    · rw [List.mem_singleton.mp hone, Function.update_self]
      exact hlt
  · dsimp only
    rcases List.mem_append.mp hg with hold | hone
    · rw [Function.update_of_ne (hne g hold), Function.update_of_ne (hne g hold)]
      have := h.rank_lt g hold
      by_cases hpack : s.packIndex g = p
      · rw [hpack, Function.update_self]
        rw [hpack] at this
        omega
      · rwa [Function.update_of_ne hpack]
    · rw [List.mem_singleton.mp hone, Function.update_self, Function.update_self,
        Function.update_self]
      exact Nat.lt_succ_self _
  · dsimp only at hpack hrank
    -- The rank of the new object is one that no object in its pack has.
    have hfresh : ∀ g ∈ packed, p = s.packIndex g → s.packItems p = s.rankInPack g → False := by
      rintro g hg rfl hrank
      have := h.rank_lt g hg
      omega
    rcases List.mem_append.mp hg with hold | hone
    · rw [Function.update_of_ne (hne g hold)] at hpack hrank
      rcases List.mem_append.mp hg' with hold' | hone'
      · rw [Function.update_of_ne (hne g' hold')] at hpack hrank
        exact h.inj g hold g' hold' hpack hrank
      · rw [List.mem_singleton.mp hone', Function.update_self] at hpack hrank
        exact (hfresh g hold hpack.symm hrank.symm).elim
    · rw [List.mem_singleton.mp hone, Function.update_self] at hpack hrank
      rcases List.mem_append.mp hg' with hold' | hone'
      · rw [Function.update_of_ne (hne g' hold')] at hpack hrank
        exact (hfresh g' hold' hpack hrank).elim
      · rw [List.mem_singleton.mp hone, List.mem_singleton.mp hone']

/-- The loop. -/
theorem PackedSoFar.run {groups : List Nat} (h : PackedSoFar numPacks groupsPerPack packed s)
    (hnodup : (packed ++ groups).Nodup)
    (hlength : (packed ++ groups).length ≤ numPacks * groupsPerPack) :
    PackedSoFar numPacks groupsPerPack (packed ++ groups)
      (groups.foldl (PackingState.pack numPacks groupsPerPack weight) s) := by
  induction groups generalizing packed s with
  | nil => rwa [List.append_nil]
  | cons group groups ih =>
    rw [List.append_cons] at hnodup hlength ⊢
    rw [List.foldl_cons]
    refine ih (h.pack ?_ ?_) hnodup hlength
    · have hpacked := (List.nodup_append.mp hnodup).1
      intro hmem
      exact (List.nodup_append.mp hpacked).2.2 _ hmem _ (List.mem_singleton_self group) rfl
    · rw [List.length_append, List.length_append, List.length_singleton] at hlength
      omega

end

/-- Every pack has as many objects, at different ranks. -/
structure Packs (numGroups numPacks : Nat) (p : Packing) : Prop where
  index_lt : ∀ g < numGroups, p.packIndex g < numPacks
  rank_lt : ∀ g < numGroups, p.rankInPack g < numGroups / numPacks
  inj : ∀ g < numGroups, ∀ g' < numGroups, p.packIndex g = p.packIndex g' →
    p.rankInPack g = p.rankInPack g' → g = g'

/-- Packing succeeds where the packs can be made equal. -/
theorem balancedPacking_packs {argsort : Nat → (Nat → ℚ) → List Nat}
    (hargsort : ∀ n key, (argsort n key).Perm (List.range n)) {numGroups numPacks : Nat}
    (weight : Nat → ℚ) (hpos : 0 < numPacks) (hdvd : numGroups % numPacks = 0) :
    ∃ p, balancedPacking argsort numGroups weight numPacks = .ok p ∧
      Packs numGroups numPacks p := by
  have hmul : numPacks * (numGroups / numPacks) = numGroups :=
    Nat.mul_div_cancel' (Nat.dvd_of_mod_eq_zero hdvd)
  unfold balancedPacking
  by_cases hone : numGroups / numPacks = 1
  · refine ⟨_, bind_ok_iff.mpr ⟨(), ensure_eq_ok.mpr hpos.ne',
      bind_ok_iff.mpr ⟨(), ensure_eq_ok.mpr hdvd, if_pos hone⟩⟩, ?_⟩
    rw [hone, Nat.mul_one] at hmul
    refine ⟨fun g hg => hmul ▸ hg, fun g hg => ?_, fun g _ g' _ hpack _ => hpack⟩
    rw [hone]
    exact Nat.one_pos
  · refine ⟨_, bind_ok_iff.mpr ⟨(), ensure_eq_ok.mpr hpos.ne',
      bind_ok_iff.mpr ⟨(), ensure_eq_ok.mpr hdvd, if_neg hone⟩⟩, ?_⟩
    rcases Nat.eq_zero_or_pos numGroups with rfl | hgroups
    · exact ⟨fun g hg => absurd hg (Nat.not_lt_zero g), fun g hg => absurd hg (Nat.not_lt_zero g),
        fun g hg => absurd hg (Nat.not_lt_zero g)⟩
    · have hquot : 0 < numGroups / numPacks := by
        rcases Nat.eq_zero_or_pos (numGroups / numPacks) with hzero | hquot
        · rw [hzero, Nat.mul_zero] at hmul
          omega
        · exact hquot
      have hperm := hargsort numGroups fun g => -weight g
      obtain ⟨indices, hindices⟩ : ∃ indices, argsort numGroups (fun g => -weight g) = indices :=
        ⟨_, rfl⟩
      rw [hindices] at hperm ⊢
      have hrun : PackedSoFar numPacks (numGroups / numPacks) ([] ++ indices)
          (indices.foldl (PackingState.pack numPacks (numGroups / numPacks) weight)
            PackingState.empty) :=
        (packedSoFar_empty hquot).run (by
          rw [List.nil_append]
          exact hperm.nodup_iff.mpr List.nodup_range) (by
          rw [List.nil_append, hperm.length_eq, List.length_range, hmul])
      rw [List.nil_append] at hrun
      have hmem : ∀ g < numGroups, g ∈ indices := fun g hg =>
        hperm.mem_iff.mpr (List.mem_range.mpr hg)
      exact ⟨fun g hg => hrun.index_lt g (hmem g hg),
        fun g hg => (hrun.rank_lt g (hmem g hg)).trans_le
          (hrun.items_le _ (hrun.index_lt g (hmem g hg))),
        fun g hg g' hg' => hrun.inj g (hmem g hg) g' (hmem g' hg')⟩

end Vllm.Distributed
