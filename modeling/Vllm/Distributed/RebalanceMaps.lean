import Vllm.Distributed.ExpertMaps

/-!
# Rebalancing

For every layer the maps are complete and inverse to each other, the replicas of the experts of a
group lie on one node under the hierarchical policy, and keeping slots only moves replicas within
the ranks.
-/

namespace Vllm.Distributed

open Checked IndexMaps Finset

/-- The sizes pass all checks. -/
structure RebalanceAccepts (numLog numReplicas numGroups numNodes numRanks : Nat) : Prop where
  experts_pos : 0 < numLog
  experts_le : numLog ≤ numReplicas
  nodes_pos : 0 < numNodes
  ranks_pos : 0 < numRanks
  slots_dvd : numReplicas % numRanks = 0
  hierarchical : numGroups % numNodes = 0 →
    0 < numGroups ∧ numLog % numGroups = 0 ∧ numRanks % numNodes = 0

/-- What the maps of a layer are, without and with the old map. -/
structure LayerSound (numLog numReplicas numGroups numNodes numRanks : Nat) (old : Nat → Int)
    (plain kept : ExpertMaps) : Prop where
  plain_inverse : plain.Inverse numLog numReplicas
  kept_inverse : kept.Inverse numLog numReplicas
  /-- The replicas of the experts of one group lie on one node. -/
  one_node : numGroups % numNodes = 0 → ∀ maps, maps = plain ∨ maps = kept →
    ∀ p < numReplicas, ∀ q < numReplicas,
      maps.phy2log p / (numLog / numGroups) = maps.phy2log q / (numLog / numGroups) →
        p / (numReplicas / numNodes) = q / (numReplicas / numNodes)
  /-- The slots of a rank have the same experts. -/
  same_experts : ∀ g < numRanks,
    ((List.range (numReplicas / numRanks)).map fun t =>
      kept.phy2log (g * (numReplicas / numRanks) + t)).Perm
    ((List.range (numReplicas / numRanks)).map fun t =>
      plain.phy2log (g * (numReplicas / numRanks) + t))
  /-- A slot keeps its expert where the rank has more copies of it than slots before that had it. -/
  keeps : ∀ g < numRanks, ∀ t < numReplicas / numRanks,
    ((range t).filter fun u => old (g * (numReplicas / numRanks) + u) =
        old (g * (numReplicas / numRanks) + t)).card <
      ((range (numReplicas / numRanks)).filter fun j =>
        (plain.phy2log (g * (numReplicas / numRanks) + j) : Int) =
          old (g * (numReplicas / numRanks) + t)).card →
    (kept.phy2log (g * (numReplicas / numRanks) + t) : Int) =
      old (g * (numReplicas / numRanks) + t)

section

variable {argsort : Nat → (Nat → ℚ) → List Nat}
  {numLog numReplicas numGroups numNodes numRanks : Nat} {weight : Nat → ℚ}

/-- The policy that is used. -/
theorem RebalanceAccepts.policy (hargsort : ∀ n key, Argsort.Sorts n key (argsort n key))
    (h : RebalanceAccepts numLog numReplicas numGroups numNodes numRanks)
    (hweight : ∀ e < numLog, 0 ≤ weight e) :
    ∃ r, rebalancePolicy argsort numLog weight numReplicas numGroups numNodes numRanks = .ok r ∧
      Numbered numLog numReplicas r ∧
      (numGroups % numNodes = 0 → OnNodes numLog numReplicas numGroups numNodes r) := by
  have hslots := Nat.dvd_of_mod_eq_zero h.slots_dvd
  by_cases hhier : numGroups % numNodes = 0
  · obtain ⟨hgroups, hlog, hranks⟩ := h.hierarchical hhier
    obtain ⟨r, hr, honNodes⟩ := rebalanceExpertsHierarchical_onNodes hargsort
      ⟨h.experts_pos, h.experts_le, hgroups, h.nodes_pos, h.ranks_pos,
        Nat.dvd_of_mod_eq_zero hlog, Nat.dvd_of_mod_eq_zero hhier, Nat.dvd_of_mod_eq_zero hranks,
        hslots⟩ hweight
    exact ⟨r, (if_pos hhier).trans hr, honNodes.numbered, fun _ => honNodes⟩
  · obtain ⟨r, hr, honNodes⟩ := rebalanceExpertsHierarchical_onNodes hargsort
      ⟨h.experts_pos, h.experts_le, Nat.one_pos, Nat.one_pos, h.ranks_pos, Nat.one_dvd _,
        Nat.one_dvd _, Nat.one_dvd _, hslots⟩ hweight
    exact ⟨r, (if_neg hhier).trans hr, honNodes.numbered, fun hnot => absurd hnot hhier⟩

/-- The maps of the slots that are left by the old map, or kept. -/
theorem rebalanceLayer_ok {r : Replicas} (hnodes : 0 < numNodes)
    (hr : rebalancePolicy argsort numLog weight numReplicas numGroups numNodes numRanks = .ok r)
    (old : Option (Nat → Int))
    (hnumbered : Numbered numLog numReplicas (match old with
      | some old => preserveIntragpuSlots argsort r numReplicas numRanks old
      | none => r)) :
    ∃ maps, rebalanceLayer argsort numLog weight numReplicas numGroups numNodes numRanks old =
        .ok maps ∧ maps.Inverse numLog numReplicas ∧ maps.phy2log = (match old with
          | some old => preserveIntragpuSlots argsort r numReplicas numRanks old
          | none => r).phy2log := by
  refine ⟨_, bind_ok_iff.mpr ⟨(), ensure_eq_ok.mpr hnodes.ne', bind_ok_iff.mpr ⟨r, hr,
    bind_ok_iff.mpr ⟨(), ensure_eq_ok.mpr fun p hp => ⟨hnumbered.phy2log_lt p hp, ?_⟩, rfl⟩⟩⟩,
    hnumbered.inverse, rfl⟩
  exact (hnumbered.idx_lt p hp).trans_le (hnumbered.logcnt_le (hnumbered.phy2log_lt p hp))

/-- One layer. -/
theorem rebalanceLayer_sound (hargsort : ∀ n key, Argsort.Sorts n key (argsort n key))
    (h : RebalanceAccepts numLog numReplicas numGroups numNodes numRanks)
    (hweight : ∀ e < numLog, 0 ≤ weight e) (old : Nat → Int) :
    ∃ plain kept,
      rebalanceLayer argsort numLog weight numReplicas numGroups numNodes numRanks none =
        .ok plain ∧
      rebalanceLayer argsort numLog weight numReplicas numGroups numNodes numRanks (some old) =
        .ok kept ∧
      LayerSound numLog numReplicas numGroups numNodes numRanks old plain kept := by
  obtain ⟨r, hr, hnumbered, honNodes⟩ := h.policy hargsort hweight
  obtain ⟨slots, hslots⟩ := Nat.dvd_of_mod_eq_zero h.slots_dvd
  have hper : numReplicas / numRanks = slots := by
    rw [hslots, Nat.mul_div_cancel_left _ h.ranks_pos]
  obtain ⟨σ, hσ, hcnt, hmoved⟩ := preserveIntragpuSlots_spec hargsort r h.ranks_pos slots old
  rw [← hslots] at hcnt hmoved
  obtain ⟨r', hr'⟩ : ∃ r', preserveIntragpuSlots argsort r numReplicas numRanks old = r' :=
    ⟨_, rfl⟩
  rw [hr'] at hcnt hmoved
  -- The slots are permuted within the ranks.
  have hplace : ∀ p < numReplicas, ∃ g < numRanks, ∃ t < slots, p = g * slots + t := by
    intro p hp
    rw [hslots] at hp
    obtain ⟨hg, ht⟩ := div_lt_blocks hp
    exact ⟨p / slots, hg, p % slots, ht, by rw [Nat.mul_comm, Nat.div_add_mod]⟩
  have hnumbered' : Numbered numLog numReplicas r' := by
    have hperm := permOn_id.blocks hσ
    rw [← hslots] at hperm
    refine hnumbered.reindex hperm (fun p hp => ?_) (fun p hp => ?_) hcnt
    · obtain ⟨g, hg, t, ht, rfl⟩ := hplace p hp
      rw [block_div ht, block_mod ht]
      exact (hmoved g hg t ht).1
    · obtain ⟨g, hg, t, ht, rfl⟩ := hplace p hp
      rw [block_div ht, block_mod ht]
      exact (hmoved g hg t ht).2.1
  obtain ⟨plain, hplain, hplainInverse, hplainEq⟩ :=
    rebalanceLayer_ok h.nodes_pos hr none hnumbered
  obtain ⟨kept, hkept, hkeptInverse, hkeptEq⟩ := rebalanceLayer_ok h.nodes_pos hr (some old) (by
    dsimp only
    rw [hr']
    exact hnumbered')
  dsimp only at hplainEq hkeptEq
  rw [hr'] at hkeptEq
  refine ⟨plain, kept, hplain, hkept, hplainInverse, hkeptInverse, fun hhier maps hmaps => ?_,
    fun g hg => ?_, fun g hg t ht hless => ?_⟩
  · have hone := (honNodes hhier).one_node
    rcases hmaps with rfl | rfl
    · rw [hplainEq]
      exact hone
    · obtain ⟨-, -, hranks⟩ := h.hierarchical hhier
      obtain ⟨ranksPerNode, hrpn⟩ := Nat.dvd_of_mod_eq_zero hranks
      have hphyPer : numReplicas / numNodes = slots * ranksPerNode := by
        rw [hslots, hrpn, Nat.mul_assoc, Nat.mul_div_cancel_left _ h.nodes_pos, Nat.mul_comm]
      intro p hp q hq hgroup
      obtain ⟨g, hg, t, ht, rfl⟩ := hplace p hp
      obtain ⟨g', hg', t', ht', rfl⟩ := hplace q hq
      rw [hkeptEq, (hmoved g hg t ht).1, (hmoved g' hg' t' ht').1] at hgroup
      have hlt := block_lt hg ((hσ g hg).lt t ht)
      have hlt' := block_lt hg' ((hσ g' hg').lt t' ht')
      rw [← hslots] at hlt hlt'
      have hnode := hone _ hlt _ hlt' hgroup
      rw [hphyPer, ← Nat.div_div_eq_div_mul, ← Nat.div_div_eq_div_mul,
        block_div ((hσ g hg).lt t ht), block_div ((hσ g' hg').lt t' ht')] at hnode
      rw [hphyPer, ← Nat.div_div_eq_div_mul, ← Nat.div_div_eq_div_mul, block_div ht,
        block_div ht', hnode]
  · rw [hper, hplainEq, hkeptEq]
    have hmap : (List.range slots).map (fun t => r'.phy2log (g * slots + t)) =
        ((List.range slots).map (σ g)).map fun t => r.phy2log (g * slots + t) := by
      rw [List.map_map]
      exact List.map_congr_left fun t ht => (hmoved g hg t (List.mem_range.mp ht)).1
    rw [hmap]
    exact (hσ g hg).map_range.map _
  · rw [hper] at ht hless ⊢
    rw [hplainEq] at hless
    rw [hkeptEq, (hmoved g hg t ht).1]
    exact (hmoved g hg t ht).2.2 hless

/-- Rebalancing gives maps for every layer, without and with an old map. -/
theorem rebalanceExperts_sound (hargsort : ∀ n key, Argsort.Sorts n key (argsort n key))
    {numLayers : Nat} {weight : Nat → Nat → ℚ} (hlayers : 0 < numLayers)
    (h : RebalanceAccepts numLog numReplicas numGroups numNodes numRanks)
    (hweight : ∀ layer < numLayers, ∀ e < numLog, 0 ≤ weight layer e) (old : Nat → Nat → Int) :
    ∃ plain kept : Nat → ExpertMaps,
      rebalanceExperts argsort numLayers numLog weight numReplicas numGroups numNodes numRanks
        none = .ok ((List.range numLayers).map plain) ∧
      rebalanceExperts argsort numLayers numLog weight numReplicas numGroups numNodes numRanks
        (some old) = .ok ((List.range numLayers).map kept) ∧
      ∀ layer < numLayers, LayerSound numLog numReplicas numGroups numNodes numRanks (old layer)
        (plain layer) (kept layer) := by
  have hall : ∀ layer, ∃ maps : ExpertMaps × ExpertMaps, layer < numLayers →
      rebalanceLayer argsort numLog (weight layer) numReplicas numGroups numNodes numRanks none =
        .ok maps.1 ∧
      rebalanceLayer argsort numLog (weight layer) numReplicas numGroups numNodes numRanks
        (some (old layer)) = .ok maps.2 ∧
      LayerSound numLog numReplicas numGroups numNodes numRanks (old layer) maps.1 maps.2 := by
    intro layer
    by_cases hlayer : layer < numLayers
    · obtain ⟨plain, kept, hboth⟩ := rebalanceLayer_sound hargsort h (hweight layer hlayer)
        (old layer)
      exact ⟨(plain, kept), fun _ => hboth⟩
    · exact ⟨⟨⟨id, fun _ _ => 0, id⟩, ⟨id, fun _ _ => 0, id⟩⟩, fun hlt => absurd hlt hlayer⟩
  obtain ⟨maps, hmaps⟩ := Classical.skolem.mp hall
  refine ⟨fun layer => (maps layer).1, fun layer => (maps layer).2, ?_, ?_,
    fun layer hlayer => (hmaps layer hlayer).2.2⟩
  · exact bind_ok_iff.mpr ⟨(), ensure_eq_ok.mpr hlayers.ne',
      mapM_eq_ok_map fun layer hlayer => (hmaps layer (List.mem_range.mp hlayer)).1⟩
  · exact bind_ok_iff.mpr ⟨(), ensure_eq_ok.mpr hlayers.ne',
      mapM_eq_ok_map fun layer hlayer => (hmaps layer (List.mem_range.mp hlayer)).2.1⟩

end

/-- Four experts in two groups on six slots of two nodes. -/
theorem fourExperts_sound :
    ∃ plain kept : Nat → ExpertMaps,
      rebalanceExperts (fun n key => (List.range n).mergeSort fun i j => decide (key i ≤ key j))
        1 4 (fun _ e => (e : ℚ)) 6 2 2 2 none = .ok ((List.range 1).map plain) ∧
      rebalanceExperts (fun n key => (List.range n).mergeSort fun i j => decide (key i ≤ key j))
        1 4 (fun _ e => (e : ℚ)) 6 2 2 2 (some fun _ p => (p : Int) % 4) =
          .ok ((List.range 1).map kept) ∧
      ∀ layer < 1, LayerSound 4 6 2 2 2 (fun p => (p : Int) % 4) (plain layer) (kept layer) :=
  rebalanceExperts_sound Argsort.sorts_mergeSort Nat.one_pos
    ⟨by decide, by decide, by decide, by decide, by decide, by decide⟩
    (fun _ _ e _ => Nat.cast_nonneg e) fun _ p => (p : Int) % 4

end Vllm.Distributed
