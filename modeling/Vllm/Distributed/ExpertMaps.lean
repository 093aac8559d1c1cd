import Vllm.Distributed.RebalanceExperts

/-!
# The maps of the experts

In every layer the slots are numbered replicas of the experts: a slot is told by its expert and
the number of its replica. Packing replicas, putting nodes side by side, naming the experts anew
and moving replicas between the slots of a rank keep that.
-/

namespace Vllm.Distributed

open Checked IndexMaps Finset

variable {numLog numPhy : Nat} {r : Replicas}

/-- A slot is told by its expert and the number of its replica. -/
structure Numbered (numLog numPhy : Nat) (r : Replicas) : Prop where
  pos : ∀ e < numLog, 1 ≤ r.logcnt e
  phy2log_lt : ∀ p < numPhy, r.phy2log p < numLog
  idx_lt : ∀ p < numPhy, r.replicaIdx p < r.logcnt (r.phy2log p)
  inj : ∀ p < numPhy, ∀ q < numPhy, r.phy2log p = r.phy2log q → r.replicaIdx p = r.replicaIdx q →
    p = q
  surj : ∀ e < numLog, ∀ k < r.logcnt e, ∃ p < numPhy, r.phy2log p = e ∧ r.replicaIdx p = k

/-- Replication numbers the replicas. -/
theorem Replicated.toNumbered {weight : Nat → ℚ} (h : Replicated numLog weight numPhy r) :
    Numbered numLog numPhy r := by
  have hmem : ∀ p < numPhy, p ∈ (List.range numPhy).filter fun q => r.phy2log q = r.phy2log p :=
    fun p hp => List.mem_filter.mpr ⟨List.mem_range.mpr hp, decide_eq_true rfl⟩
  refine ⟨h.pos, h.phy2log_lt, fun p hp => ?_, fun p hp q hq hlog hidx => ?_, fun e he k hk => ?_⟩
  · rw [← List.mem_range, ← h.numbered _ (h.phy2log_lt p hp)]
    exact List.mem_map_of_mem (hmem p hp)
  · have hnodup := List.nodup_range (n := r.logcnt (r.phy2log p))
    rw [← h.numbered _ (h.phy2log_lt p hp)] at hnodup
    exact List.inj_on_of_nodup_map hnodup (hmem p hp) (hlog ▸ hmem q hq) hidx
  · rw [← List.mem_range, ← h.numbered e he] at hk
    obtain ⟨p, hp, rfl⟩ := List.mem_map.mp hk
    obtain ⟨hp, hlog⟩ := List.mem_filter.mp hp
    exact ⟨p, List.mem_range.mp hp, of_decide_eq_true hlog, rfl⟩

/-- The slots are permuted. -/
theorem Numbered.reindex (h : Numbered numLog numPhy r) {σ : Nat → Nat} (hσ : PermOn numPhy σ)
    {r' : Replicas} (hlog : ∀ p < numPhy, r'.phy2log p = r.phy2log (σ p))
    (hidx : ∀ p < numPhy, r'.replicaIdx p = r.replicaIdx (σ p))
    (hcnt : r'.logcnt = r.logcnt) : Numbered numLog numPhy r' := by
  refine ⟨fun e he => hcnt ▸ h.pos e he, fun p hp => ?_, fun p hp => ?_,
    fun p hp q hq hpq hpq' => ?_, fun e he k hk => ?_⟩
  · rw [hlog p hp]
    exact h.phy2log_lt _ (hσ.lt p hp)
  · rw [hcnt, hlog p hp, hidx p hp]
    exact h.idx_lt _ (hσ.lt p hp)
  · rw [hlog p hp, hlog q hq] at hpq
    rw [hidx p hp, hidx q hq] at hpq'
    exact hσ.inj p hp q hq (h.inj _ (hσ.lt p hp) _ (hσ.lt q hq) hpq hpq')
  · rw [hcnt] at hk
    obtain ⟨p, hp, rfl, rfl⟩ := h.surj e he k hk
    obtain ⟨q, hq, rfl⟩ := hσ.surj hp
    exact ⟨q, hq, hlog q hq, hidx q hq⟩

/-- The experts are named anew. -/
theorem Numbered.rename (h : Numbered numLog numPhy r) {π : Nat → Nat} (hπ : PermOn numLog π)
    {r' : Replicas} (hlog : ∀ p < numPhy, r'.phy2log p = inverse numLog π (r.phy2log p))
    (hidx : ∀ p < numPhy, r'.replicaIdx p = r.replicaIdx p)
    (hcnt : ∀ e < numLog, r'.logcnt e = r.logcnt (π e)) : Numbered numLog numPhy r' := by
  have hname : ∀ p < numPhy, π (r'.phy2log p) = r.phy2log p := fun p hp => by
    rw [hlog p hp, hπ.apply_inverse (h.phy2log_lt p hp)]
  have hlt : ∀ p < numPhy, r'.phy2log p < numLog := fun p hp => by
    rw [hlog p hp]
    exact hπ.inverse.lt _ (h.phy2log_lt p hp)
  refine ⟨fun e he => ?_, hlt, fun p hp => ?_, fun p hp q hq hpq hpq' => ?_, fun e he k hk => ?_⟩
  · rw [hcnt e he]
    exact h.pos _ (hπ.lt e he)
  · rw [hcnt _ (hlt p hp), hname p hp, hidx p hp]
    exact h.idx_lt p hp
  · rw [hidx p hp, hidx q hq] at hpq'
    refine h.inj p hp q hq ?_ hpq'
    rw [← hname p hp, ← hname q hq, hpq]
  · rw [hcnt e he] at hk
    obtain ⟨p, hp, hpe, hpk⟩ := h.surj _ (hπ.lt e he) k hk
    refine ⟨p, hp, ?_, (hidx p hp).trans hpk⟩
    rw [hlog p hp, hpe, hπ.inverse_apply he]

/-- Nodes are put side by side. -/
theorem numbered_nodes {nodes logPerNode phyPerNode : Nat} {atNode : Nat → Replicas}
    (h : ∀ node < nodes, Numbered logPerNode phyPerNode (atNode node)) :
    Numbered (nodes * logPerNode) (nodes * phyPerNode)
      { phy2log := fun q =>
          q / phyPerNode * logPerNode + (atNode (q / phyPerNode)).phy2log (q % phyPerNode)
        replicaIdx := fun q => (atNode (q / phyPerNode)).replicaIdx (q % phyPerNode)
        logcnt := fun m => (atNode (m / logPerNode)).logcnt (m % logPerNode) } := by
  refine ⟨fun e he => ?_, fun p hp => ?_, fun p hp => ?_, fun p hp q hq hlog hidx => ?_,
    fun e he k hk => ?_⟩
  · obtain ⟨hnode, hplace⟩ := div_lt_blocks he
    exact (h _ hnode).pos _ hplace
  · obtain ⟨hnode, hplace⟩ := div_lt_blocks hp
    exact block_lt hnode ((h _ hnode).phy2log_lt _ hplace)
  · obtain ⟨hnode, hplace⟩ := div_lt_blocks hp
    have hlt := (h _ hnode).phy2log_lt _ hplace
    dsimp only
    rw [block_div hlt, block_mod hlt]
    exact (h _ hnode).idx_lt _ hplace
  · obtain ⟨hnode, hplace⟩ := div_lt_blocks hp
    obtain ⟨hnode', hplace'⟩ := div_lt_blocks hq
    have hlt := (h _ hnode).phy2log_lt _ hplace
    have hlt' := (h _ hnode').phy2log_lt _ hplace'
    dsimp only at hlog hidx
    have hsame : p / phyPerNode = q / phyPerNode := by
      have hdiv := congrArg (· / logPerNode) hlog
      rwa [block_div hlt, block_div hlt'] at hdiv
    have hexpert := congrArg (· % logPerNode) hlog
    rw [block_mod hlt, block_mod hlt', ← hsame] at hexpert
    rw [← hsame] at hidx
    have hmod := (h _ hnode).inj _ hplace _ hplace' hexpert hidx
    rw [← Nat.div_add_mod p phyPerNode, ← Nat.div_add_mod q phyPerNode, hsame, hmod]
  · obtain ⟨hnode, hplace⟩ := div_lt_blocks he
    obtain ⟨p, hp, hpe, hpk⟩ := (h _ hnode).surj _ hplace k hk
    refine ⟨e / logPerNode * phyPerNode + p, block_lt hnode hp, ?_, ?_⟩
    · dsimp only
      rw [block_div hp, block_mod hp, hpe, Nat.mul_comm, Nat.div_add_mod]
    · dsimp only
      rw [block_div hp, block_mod hp, hpk]

/-! ## The hierarchical policy -/

/-- The places in equal packs are all places. -/
theorem Packs.permOn {n m : Nat} {p : Packing} (h : Packs n m p) (hdvd : n % m = 0) :
    PermOn n fun g => p.packIndex g * (n / m) + p.rankInPack g := by
  have hmul : m * (n / m) = n := Nat.mul_div_cancel' (Nat.dvd_of_mod_eq_zero hdvd)
  refine ⟨fun g hg => ?_, fun g hg g' hg' heq => ?_⟩
  · have hlt := block_lt (h.index_lt g hg) (h.rank_lt g hg)
    rwa [hmul] at hlt
  · have hpack := congrArg (· / (n / m)) heq
    have hrank := congrArg (· % (n / m)) heq
    rw [block_div (h.rank_lt g hg), block_div (h.rank_lt g' hg')] at hpack
    rw [block_mod (h.rank_lt g hg), block_mod (h.rank_lt g' hg')] at hrank
    exact h.inj g hg g' hg' hpack hrank

section

variable {argsort : Nat → (Nat → ℚ) → List Nat}

/-- The steps within one node. -/
theorem rebalanceNode_numbered (hargsort : ∀ n key, Argsort.Sorts n key (argsort n key))
    {numGpus phyExpertsPerGpu : Nat} {weight : Nat → ℚ} (hexperts : 0 < numLog)
    (hle : numLog ≤ numPhy) (hgpus : 0 < numGpus) (hdvd : numPhy % numGpus = 0)
    (hper : phyExpertsPerGpu = numPhy / numGpus) (hweight : ∀ e < numLog, 0 ≤ weight e) :
    ∃ r, rebalanceNode argsort numLog numPhy numGpus phyExpertsPerGpu weight = .ok r ∧
      Numbered numLog numPhy r := by
  obtain ⟨r, hr, hreplicated⟩ := replicateExperts_replicated hle (fun _ => hexperts) hweight
  obtain ⟨packing, hpacking, hpacks⟩ := balancedPacking_packs (fun n key => (hargsort n key).perm)
    (fun p => weight (r.phy2log p) / r.logcnt (r.phy2log p)) hgpus hdvd
  have hperm := (hpacks.permOn hdvd).inverse
  rw [← hper] at hperm
  exact ⟨_, bind_ok_iff.mpr ⟨r, mapError_ok_iff.mpr hr,
    bind_ok_iff.mpr ⟨packing, hpacking, rfl⟩⟩,
    hreplicated.toNumbered.reindex hperm (fun _ _ => rfl) (fun _ _ => rfl) rfl⟩

/-- What the hierarchical policy needs. -/
structure Divides (numLog numPhy numGroups numNodes numGpus : Nat) : Prop where
  experts_pos : 0 < numLog
  experts_le : numLog ≤ numPhy
  groups_pos : 0 < numGroups
  nodes_pos : 0 < numNodes
  gpus_pos : 0 < numGpus
  groups_dvd : numGroups ∣ numLog
  nodes_dvd : numNodes ∣ numGroups
  gpus_dvd : numNodes ∣ numGpus
  slots_dvd : numGpus ∣ numPhy

/-- The replicas are numbered, and those of the experts of one group lie on one node. -/
structure OnNodes (numLog numPhy numGroups numNodes : Nat) (r : Replicas) : Prop where
  numbered : Numbered numLog numPhy r
  one_node : ∀ p < numPhy, ∀ q < numPhy,
    r.phy2log p / (numLog / numGroups) = r.phy2log q / (numLog / numGroups) →
      p / (numPhy / numNodes) = q / (numPhy / numNodes)

/-- What the hierarchical policy divides into. -/
theorem Divides.exists_factors {numGroups numNodes numGpus : Nat}
    (h : Divides numLog numPhy numGroups numNodes numGpus) :
    ∃ groupSize groupsPerNode gpusPerNode slots : Nat,
      numLog = numGroups * groupSize ∧ numGroups = numNodes * groupsPerNode ∧
      numGpus = numNodes * gpusPerNode ∧ numPhy = numGpus * slots ∧
      0 < groupsPerNode * groupSize ∧ groupsPerNode * groupSize ≤ gpusPerNode * slots ∧
      0 < gpusPerNode := by
  obtain ⟨groupSize, hgroupSize⟩ := h.groups_dvd
  obtain ⟨groupsPerNode, hpnode⟩ := h.nodes_dvd
  obtain ⟨gpusPerNode, hpgpu⟩ := h.gpus_dvd
  obtain ⟨slots, hslots⟩ := h.slots_dvd
  refine ⟨groupSize, groupsPerNode, gpusPerNode, slots, hgroupSize, hpnode, hpgpu, hslots, ?_, ?_,
    Nat.pos_of_mul_pos_left (hpgpu ▸ h.gpus_pos)⟩
  · have hpos := h.experts_pos
    rw [hgroupSize, hpnode, Nat.mul_assoc] at hpos
    exact Nat.pos_of_mul_pos_left hpos
  · have hle := h.experts_le
    rw [hgroupSize, hpnode, hslots, hpgpu, Nat.mul_assoc, Nat.mul_assoc] at hle
    exact Nat.le_of_mul_le_mul_left hle h.nodes_pos

/-- Every node numbers the replicas of its experts. -/
theorem exists_nodes (hargsort : ∀ n key, Argsort.Sorts n key (argsort n key))
    {numNodes logPerNode gpusPerNode slots : Nat} {weight : Nat → ℚ} (hexperts : 0 < logPerNode)
    (hle : logPerNode ≤ gpusPerNode * slots) (hgpus : 0 < gpusPerNode)
    (hweight : ∀ m < numNodes * logPerNode, 0 ≤ weight m) :
    ∃ atNode : Nat → Replicas, (List.range numNodes).mapM (fun node =>
        rebalanceNode argsort logPerNode (gpusPerNode * slots) gpusPerNode slots
          fun m => weight (node * logPerNode + m)) = .ok ((List.range numNodes).map atNode) ∧
      (∀ node < numNodes, Numbered logPerNode (gpusPerNode * slots) (atNode node)) ∧
      ∀ node < numNodes,
        ((List.range numNodes).map atNode).getD node Replicas.single = atNode node := by
  have : Nonempty Replicas := ⟨Replicas.single⟩
  obtain ⟨atNode, hmapM, hatNode⟩ := exists_mapM_eq_ok (f := fun node =>
      rebalanceNode argsort logPerNode (gpusPerNode * slots) gpusPerNode slots
        fun m => weight (node * logPerNode + m))
    (P := fun _ r => Numbered logPerNode (gpusPerNode * slots) r) (l := List.range numNodes) (by
      intro node hnode
      exact rebalanceNode_numbered hargsort hexperts hle hgpus (Nat.mul_mod_right _ _)
        (Nat.mul_div_cancel_left _ hgpus).symm fun m hm => hweight _
          (block_lt (List.mem_range.mp hnode) hm))
  refine ⟨atNode, hmapM, fun node hnode => hatNode node (List.mem_range.mpr hnode),
    fun node hnode => ?_⟩
  rw [List.getD_eq_getElem?_getD, List.getElem?_map, List.getElem?_range hnode, Option.map_some,
    Option.getD_some]

/-- An expert is placed on the node to which its group is packed. -/
theorem Packs.div_place {numGroups numNodes groupsPerNode groupSize : Nat} {groups : Packing}
    (h : Packs numGroups numNodes groups) (hper : numGroups / numNodes = groupsPerNode) {e : Nat}
    (he : e < numGroups * groupSize) :
    ((groups.packIndex (e / groupSize) * groupsPerNode + groups.rankInPack (e / groupSize)) *
      groupSize + e % groupSize) / (groupsPerNode * groupSize) =
        groups.packIndex (e / groupSize) := by
  obtain ⟨hgroup, hrest⟩ := div_lt_blocks he
  have hrank := h.rank_lt _ hgroup
  rw [hper] at hrank
  rw [Nat.mul_comm groupsPerNode groupSize, ← Nat.div_div_eq_div_mul, block_div hrest,
    block_div hrank]

/-- The hierarchical policy. -/
theorem rebalanceExpertsHierarchical_onNodes
    (hargsort : ∀ n key, Argsort.Sorts n key (argsort n key))
    {numGroups numNodes numGpus : Nat} {weight : Nat → ℚ}
    (h : Divides numLog numPhy numGroups numNodes numGpus)
    (hweight : ∀ e < numLog, 0 ≤ weight e) :
    ∃ r, rebalanceExpertsHierarchical argsort numLog weight numPhy numGroups numNodes numGpus =
        .ok r ∧ OnNodes numLog numPhy numGroups numNodes r := by
  obtain ⟨groupSize, groupsPerNode, gpusPerNode, slots, hgroupSize, hpnode, hpgpu, hslots, hlogPos,
    hlogLe, hgpusPos⟩ := h.exists_factors
  have hsize : numLog / numGroups = groupSize := by
    rw [hgroupSize, Nat.mul_div_cancel_left _ h.groups_pos]
  have hper : numGroups / numNodes = groupsPerNode := by
    rw [hpnode, Nat.mul_div_cancel_left _ h.nodes_pos]
  have hgpusPer : numGpus / numNodes = gpusPerNode := by
    rw [hpgpu, Nat.mul_div_cancel_left _ h.nodes_pos]
  have hslotsPer : numPhy / numGpus = slots := by
    rw [hslots, Nat.mul_div_cancel_left _ h.gpus_pos]
  have hlogMul : numLog = numNodes * (groupsPerNode * groupSize) := by
    rw [hgroupSize, hpnode, Nat.mul_assoc]
  have hphyMul : numPhy = numNodes * (gpusPerNode * slots) := by
    rw [hslots, hpgpu, Nat.mul_assoc]
  have hlogPer : numLog / numNodes = groupsPerNode * groupSize := by
    rw [hlogMul, Nat.mul_div_cancel_left _ h.nodes_pos]
  have hphyPer : numPhy / numNodes = gpusPerNode * slots := by
    rw [hphyMul, Nat.mul_div_cancel_left _ h.nodes_pos]
  -- Groups are packed to nodes.
  obtain ⟨groups, hpacking, hpacks⟩ := balancedPacking_packs
    (fun n key => (hargsort n key).perm)
    (fun g => ((List.range groupSize).map fun i => weight (g * groupSize + i)).sum) h.nodes_pos
    (Nat.mod_eq_zero_of_dvd h.nodes_dvd)
  have hgroupPerm := hpacks.permOn (Nat.mod_eq_zero_of_dvd h.nodes_dvd)
  rw [hper] at hgroupPerm
  obtain ⟨log2mlog, hlog2mlog⟩ : ∃ log2mlog : Nat → Nat, (fun e =>
    (groups.packIndex (e / groupSize) * groupsPerNode + groups.rankInPack (e / groupSize)) *
      groupSize + e % groupSize) = log2mlog := ⟨_, rfl⟩
  have hlogPerm : PermOn numLog log2mlog := by
    have hblocks := hgroupPerm.blocks (g := fun _ i => i) (b := groupSize) fun _ _ => permOn_id
    rw [← hgroupSize] at hblocks
    rwa [← hlog2mlog]
  obtain ⟨atNode, hmapM, hatNode, hget⟩ := exists_nodes hargsort hlogPos hlogLe hgpusPos
    (show ∀ m < numNodes * (groupsPerNode * groupSize), 0 ≤ weight (inverse numLog log2mlog m)
      from fun m hm => hweight _ (hlogPerm.inverse.lt _ (hlogMul ▸ hm)))
  have hnumbered := numbered_nodes hatNode
  rw [← hlogMul, ← hphyMul] at hnumbered
  have hlt : ∀ p < numPhy, p / (gpusPerNode * slots) < numNodes ∧
      p % (gpusPerNode * slots) < gpusPerNode * slots := by
    intro p hp
    rw [hphyMul] at hp
    exact div_lt_blocks hp
  have hplace : ∀ m < numLog, m / (groupsPerNode * groupSize) < numNodes := by
    intro m hm
    rw [hlogMul] at hm
    exact (div_lt_blocks hm).1
  obtain ⟨r, hr⟩ : ∃ r : Replicas, r =
      { phy2log := fun q => inverse numLog log2mlog
          ((((List.range numNodes).map atNode).getD (q / (gpusPerNode * slots))
            Replicas.single).phy2log (q % (gpusPerNode * slots)) +
              q / (gpusPerNode * slots) * (groupsPerNode * groupSize))
        replicaIdx := fun q => (((List.range numNodes).map atNode).getD
          (q / (gpusPerNode * slots)) Replicas.single).replicaIdx (q % (gpusPerNode * slots))
        logcnt := fun e => (((List.range numNodes).map atNode).getD
          (log2mlog e / (groupsPerNode * groupSize)) Replicas.single).logcnt
            (log2mlog e % (groupsPerNode * groupSize)) } := ⟨_, rfl⟩
  have hlog : ∀ p < numPhy, r.phy2log p = inverse numLog log2mlog
      (p / (gpusPerNode * slots) * (groupsPerNode * groupSize) +
        (atNode (p / (gpusPerNode * slots))).phy2log (p % (gpusPerNode * slots))) := by
    intro p hp
    rw [hr]
    dsimp only
    rw [hget _ (hlt p hp).1, Nat.add_comm]
  refine ⟨r, ?_, ?_, fun p hp q hq hgroup => ?_⟩
  · rw [hr]
    subst hlog2mlog
    unfold rebalanceExpertsHierarchical
    rw [hsize, hper, hgpusPer, hslotsPer, hlogPer, hphyPer]
    exact bind_ok_iff.mpr ⟨(), ensure_eq_ok.mpr h.groups_pos.ne',
      bind_ok_iff.mpr ⟨(), ensure_eq_ok.mpr (Nat.mod_eq_zero_of_dvd h.groups_dvd),
      bind_ok_iff.mpr ⟨(), ensure_eq_ok.mpr h.nodes_pos.ne',
      bind_ok_iff.mpr ⟨(), ensure_eq_ok.mpr (Nat.mod_eq_zero_of_dvd h.nodes_dvd),
      bind_ok_iff.mpr ⟨(), ensure_eq_ok.mpr (Nat.mod_eq_zero_of_dvd h.gpus_dvd),
      bind_ok_iff.mpr ⟨(), ensure_eq_ok.mpr h.gpus_pos.ne',
      bind_ok_iff.mpr ⟨(), ensure_eq_ok.mpr (Nat.mod_eq_zero_of_dvd h.slots_dvd),
      bind_ok_iff.mpr ⟨groups, hpacking,
      bind_ok_iff.mpr ⟨(), ensure_eq_ok.mpr hlogPos.ne',
      bind_ok_iff.mpr ⟨_, hmapM, rfl⟩⟩⟩⟩⟩⟩⟩⟩⟩⟩
  · refine hnumbered.rename hlogPerm hlog (fun p hp => ?_) fun e he => ?_
    · rw [hr]
      dsimp only
      rw [hget _ (hlt p hp).1]
    · rw [hr]
      dsimp only
      rw [hget _ (hplace _ (hlogPerm.lt e he))]
  · -- The node of a replica is the node to which the group of its expert was packed.
    have hnode : ∀ p < numPhy, p / (numPhy / numNodes) =
        groups.packIndex (r.phy2log p / (numLog / numGroups)) := by
      intro p hp
      have hphyLt := hnumbered.phy2log_lt p hp
      have hexpert : log2mlog (r.phy2log p) =
          p / (gpusPerNode * slots) * (groupsPerNode * groupSize) +
            (atNode (p / (gpusPerNode * slots))).phy2log (p % (gpusPerNode * slots)) := by
        rw [hlog p hp]
        exact hlogPerm.apply_inverse hphyLt
      have hlogLt : r.phy2log p < numGroups * groupSize := by
        rw [← hgroupSize, hlog p hp]
        exact hlogPerm.inverse.lt _ hphyLt
      have hlocal := (hatNode _ (hlt p hp).1).phy2log_lt _ (hlt p hp).2
      rw [hphyPer, hsize, ← hpacks.div_place hper hlogLt, congrFun hlog2mlog, hexpert,
        block_div hlocal]
    rw [hnode p hp, hnode q hq, hgroup]

end

/-! ## Keeping the slots -/

section

variable {slots : Nat} {oldLocal : Nat → Int} {newLocal newRidx : Nat → Nat} {s : SlotState}

/-- What holds of the slots of a rank when several were visited: a slot that is kept holds its
replica, which no other slot does, of the expert that it had. -/
structure Keeping (slots : Nat) (oldLocal : Nat → Int) (newLocal newRidx : Nat → Nat) (i : Nat)
    (s : SlotState) (σ : Nat → Nat) : Prop where
  lt : ∀ t, s.preserved t = true → t < i ∧ σ t < slots ∧ s.used (σ t) = true
  filled : ∀ t, s.preserved t = true →
    s.phy2log t = newLocal (σ t) ∧ s.replicaIdx t = newRidx (σ t)
  same : ∀ t, s.preserved t = true → (newLocal (σ t) : Int) = oldLocal t
  inj : ∀ t t', s.preserved t = true → s.preserved t' = true → σ t = σ t' → t = t'
  used : ∀ j, s.used j = true → ∃ t, s.preserved t = true ∧ σ t = j
  /-- A copy is left when fewer slots before had the expert than there are copies. -/
  kept : ∀ t < i, ((range t).filter fun u => oldLocal u = oldLocal t).card <
    ((range slots).filter fun j => (newLocal j : Int) = oldLocal t).card → s.preserved t = true

private theorem keeping_start : Keeping slots oldLocal newLocal newRidx 0
    ⟨newLocal, newRidx, fun _ => false, fun _ => false⟩ id where
  lt _ h := by cases h
  filled _ h := by cases h
  same _ h := by cases h
  inj _ _ h := by cases h
  used _ h := by cases h
  kept t h := absurd h (Nat.not_lt_zero t)

/-- One more slot. -/
theorem Keeping.preserve {i : Nat} {σ : Nat → Nat}
    (h : Keeping slots oldLocal newLocal newRidx i s σ) :
    ∃ σ', Keeping slots oldLocal newLocal newRidx (i + 1)
      (s.preserve slots oldLocal newLocal newRidx i) σ' := by
  unfold SlotState.preserve
  cases hfind : (List.range slots).find? fun j => (newLocal j : Int) = oldLocal i ∧ ¬ s.used j with
  | none =>
    refine ⟨σ, fun t ht => ?_, h.filled, h.same, h.inj, h.used, fun t ht hless => ?_⟩
    · exact ⟨Nat.lt_succ_of_lt (h.lt t ht).1, (h.lt t ht).2⟩
    · rcases Nat.lt_succ_iff_lt_or_eq.mp ht with hlt | rfl
      · exact h.kept t hlt hless
      · -- All copies are used by slots before that had the expert.
        have hsub : (range slots).filter (fun j => (newLocal j : Int) = oldLocal t) ⊆
            ((range t).filter fun u => oldLocal u = oldLocal t).image σ := by
          intro j hj
          obtain ⟨hj, hcopy⟩ := mem_filter.mp hj
          have hused : s.used j = true := by
            have hnot := List.find?_eq_none.mp hfind j (List.mem_range.mpr (mem_range.mp hj))
            simpa [hcopy] using hnot
          obtain ⟨u, hu, rfl⟩ := h.used j hused
          refine mem_image.mpr ⟨u, mem_filter.mpr ⟨mem_range.mpr (h.lt u hu).1, ?_⟩, rfl⟩
          rw [← h.same u hu, hcopy]
        exact absurd hless (not_lt.mpr ((card_le_card hsub).trans card_image_le))
  | some j =>
    have hj := List.mem_range.mp (List.mem_of_find?_eq_some hfind)
    have hfound := List.find?_some hfind
    obtain ⟨hcopy, hunused⟩ := of_decide_eq_true hfound
    have hold : ∀ t, s.preserved t = true → t ≠ i := fun t ht => (h.lt t ht).1.ne
    have hnew : ∀ t, Function.update s.preserved i true t = true →
        t = i ∨ t ≠ i ∧ s.preserved t = true := by
      intro t ht
      by_cases hti : t = i
      · exact .inl hti
      · rw [Function.update_of_ne hti] at ht
        exact .inr ⟨hti, ht⟩
    refine ⟨Function.update σ i j, fun t ht => ?_, fun t ht => ?_, fun t ht => ?_,
      fun t t' ht ht' heq => ?_, fun j' hj' => ?_, fun t ht hless => ?_⟩
    · rcases hnew t ht with rfl | ⟨hti, hpres⟩
      · rw [Function.update_self]
        exact ⟨Nat.lt_succ_self t, hj, Function.update_self _ _ _⟩
      · rw [Function.update_of_ne hti]
        obtain ⟨hlt, hslot, hused⟩ := h.lt t hpres
        refine ⟨Nat.lt_succ_of_lt hlt, hslot, ?_⟩
        have hne : σ t ≠ j := by
          rintro rfl
          exact hunused hused
        show Function.update s.used j true (σ t) = true
        rw [Function.update_of_ne hne, hused]
    · rcases hnew t ht with rfl | ⟨hti, hpres⟩
      · exact ⟨by simp only [Function.update_self], by simp only [Function.update_self]⟩
      · simp only [Function.update_of_ne hti]
        exact h.filled t hpres
    · rcases hnew t ht with rfl | ⟨hti, hpres⟩
      · rw [Function.update_self]
        exact hcopy
      · rw [Function.update_of_ne hti]
        exact h.same t hpres
    · have hfresh : ∀ u, s.preserved u = true → σ u ≠ j := by
        rintro u hu rfl
        exact hunused (h.lt u hu).2.2
      rcases hnew t ht with rfl | ⟨hti, hpres⟩
      · rcases hnew t' ht' with rfl | ⟨hti', hpres'⟩
        · rfl
        · rw [Function.update_self, Function.update_of_ne hti'] at heq
          exact absurd heq.symm (hfresh t' hpres')
      · rcases hnew t' ht' with rfl | ⟨hti', hpres'⟩
        · rw [Function.update_self, Function.update_of_ne hti] at heq
          exact absurd heq (hfresh t hpres)
        · rw [Function.update_of_ne hti, Function.update_of_ne hti'] at heq
          exact h.inj t t' hpres hpres' heq
    · by_cases hjj : j' = j
      · exact ⟨i, Function.update_self _ _ _, by rw [Function.update_self, hjj]⟩
      · have hj'' : Function.update s.used j true j' = true := hj'
        rw [Function.update_of_ne hjj] at hj''
        obtain ⟨t, ht, rfl⟩ := h.used j' hj''
        refine ⟨t, ?_, Function.update_of_ne (hold t ht) _ _⟩
        show Function.update s.preserved i true t = true
        rw [Function.update_of_ne (hold t ht), ht]
    · show Function.update s.preserved i true t = true
      rcases Nat.lt_succ_iff_lt_or_eq.mp ht with hlt | rfl
      · rw [Function.update_of_ne hlt.ne]
        exact h.kept t hlt hless
      · rw [Function.update_self]

/-- The first pass. -/
theorem keeping_range (slots : Nat) (oldLocal : Nat → Int) (newLocal newRidx : Nat → Nat)
    (i : Nat) :
    ∃ σ, Keeping slots oldLocal newLocal newRidx i
    ((List.range i).foldl (SlotState.preserve slots oldLocal newLocal newRidx)
      ⟨newLocal, newRidx, fun _ => false, fun _ => false⟩) σ := by
  induction i with
  | zero => exact ⟨id, keeping_start⟩
  | succ i ih =>
    obtain ⟨σ, hσ⟩ := ih
    rw [List.range_succ, List.foldl_append]
    exact hσ.preserve

/-- The second pass writes one replica for each pair. -/
theorem foldl_fill (pairs : List (Nat × Nat)) (s : SlotState) :
    pairs.foldl (SlotState.fill newLocal newRidx) s =
      { s with
        phy2log := scatter pairs Prod.fst (fun pair => newLocal pair.2) s.phy2log
        replicaIdx := scatter pairs Prod.fst (fun pair => newRidx pair.2) s.replicaIdx } := by
  induction pairs generalizing s with
  | nil => rfl
  | cons pair pairs ih => exact ih (s.fill newLocal newRidx pair)

/-- The slots that are not kept. -/
def SlotState.free (slots : Nat) (s : SlotState) : List Nat :=
  (List.range slots).filter fun t => !s.preserved t

/-- The replicas that are left for them. -/
def SlotState.left (slots : Nat) (s : SlotState) : List Nat :=
  (List.range slots).filter fun j => !s.used j

theorem SlotState.mem_free {t : Nat} : t ∈ s.free slots ↔ t < slots ∧ s.preserved t = false := by
  rw [free, List.mem_filter, List.mem_range, Bool.not_eq_true']

theorem SlotState.mem_left {j : Nat} : j ∈ s.left slots ↔ j < slots ∧ s.used j = false := by
  rw [left, List.mem_filter, List.mem_range, Bool.not_eq_true']

/-- As many replicas are left as slots. -/
theorem Keeping.count_eq {σ : Nat → Nat} (h : Keeping slots oldLocal newLocal newRidx slots s σ) :
    (s.left slots).length = (s.free slots).length := by
  have hperm : (((List.range slots).filter s.preserved).map σ).Perm
      ((List.range slots).filter s.used) := by
    have hnodup : (((List.range slots).filter s.preserved).map σ).Nodup :=
      (List.nodup_map_iff_inj_on (List.nodup_range.filter _)).mpr fun t ht t' ht' =>
        h.inj t t' (List.mem_filter.mp ht).2 (List.mem_filter.mp ht').2
    refine (List.perm_ext_iff_of_nodup hnodup (List.nodup_range.filter _)).mpr fun j => ?_
    rw [List.mem_map, List.mem_filter]
    constructor
    · rintro ⟨t, ht, rfl⟩
      obtain ⟨-, hlt, hused⟩ := h.lt t (List.mem_filter.mp ht).2
      exact ⟨List.mem_range.mpr hlt, hused⟩
    · rintro ⟨-, hused⟩
      obtain ⟨t, ht, rfl⟩ := h.used j hused
      exact ⟨t, List.mem_filter.mpr ⟨List.mem_range.mpr (h.lt t ht).1, ht⟩, rfl⟩
  have hlength := hperm.length_eq
  rw [List.length_map] at hlength
  unfold SlotState.left SlotState.free
  have hused := List.length_eq_length_filter_add (l := List.range slots) s.used
  have hpreserved := List.length_eq_length_filter_add (l := List.range slots) s.preserved
  omega

/-- The second pass leaves a slot alone that is kept. -/
theorem SlotState.scatter_of_preserved {α : Type} (value : Nat × Nat → α) (init : Nat → α) {t : Nat}
    (ht : s.preserved t = true) :
    scatter ((s.free slots).zip (s.left slots)) Prod.fst value init t = init t := by
  refine scatter_of_forall_ne fun pair hpair heq => ?_
  have hmem := mem_free.mp (List.of_mem_zip hpair).1
  rw [heq, ht] at hmem
  cases hmem.2

/-- The second pass gives every other slot a replica. -/
theorem Keeping.exists_given {σ : Nat → Nat}
    (h : Keeping slots oldLocal newLocal newRidx slots s σ) {t : Nat} (ht : t < slots)
    (hpres : s.preserved t = false) : ∃ j, (t, j) ∈ (s.free slots).zip (s.left slots) ∧
      ∀ {α : Type} (value : Nat × Nat → α) (init : Nat → α),
        scatter ((s.free slots).zip (s.left slots)) Prod.fst value init t = value (t, j) := by
  have hfst : ((s.free slots).zip (s.left slots)).map Prod.fst = s.free slots :=
    List.map_fst_zip h.count_eq.ge
  have hnodup : (((s.free slots).zip (s.left slots)).map Prod.fst).Nodup := by
    rw [hfst]
    exact List.nodup_range.filter _
  have hmem : t ∈ ((s.free slots).zip (s.left slots)).map Prod.fst := by
    rw [hfst]
    exact SlotState.mem_free.mpr ⟨ht, hpres⟩
  obtain ⟨⟨t', j⟩, hpair, rfl⟩ := List.mem_map.mp hmem
  exact ⟨j, hpair, fun value init => scatter_index
    (fun _ h _ h' => List.inj_on_of_nodup_map hnodup h h') hpair⟩

/-- Each replica goes to one slot. -/
theorem Keeping.permOn_scatter {σ : Nat → Nat}
    (h : Keeping slots oldLocal newLocal newRidx slots s σ) :
    PermOn slots (scatter ((s.free slots).zip (s.left slots)) Prod.fst Prod.snd σ) := by
  have hunused : ∀ {t j}, (t, j) ∈ (s.free slots).zip (s.left slots) →
      j < slots ∧ s.used j = false :=
    fun hpair => SlotState.mem_left.mp (List.of_mem_zip hpair).2
  have hapart : ∀ u t j, s.preserved u = true → (t, j) ∈ (s.free slots).zip (s.left slots) →
      σ u ≠ j := by
    rintro u t j hu hpair rfl
    exact Bool.false_ne_true ((hunused hpair).2.symm.trans (h.lt u hu).2.2)
  refine ⟨fun t ht => ?_, fun t ht t' ht' heq => ?_⟩
  · cases hpres : s.preserved t with
    | true =>
      rw [SlotState.scatter_of_preserved _ _ hpres]
      exact (h.lt t hpres).2.1
    | false =>
      obtain ⟨j, hpair, hscatter⟩ := h.exists_given ht hpres
      rw [hscatter]
      exact (hunused hpair).1
  · cases hpres : s.preserved t with
    | true =>
      rw [SlotState.scatter_of_preserved _ _ hpres] at heq
      cases hpres' : s.preserved t' with
      | true =>
        rw [SlotState.scatter_of_preserved _ _ hpres'] at heq
        exact h.inj t t' hpres hpres' heq
      | false =>
        obtain ⟨j, hpair, hscatter⟩ := h.exists_given ht' hpres'
        rw [hscatter] at heq
        exact absurd heq (hapart t t' j hpres hpair)
    | false =>
      obtain ⟨j, hpair, hscatter⟩ := h.exists_given ht hpres
      rw [hscatter] at heq
      cases hpres' : s.preserved t' with
      | true =>
        rw [SlotState.scatter_of_preserved _ _ hpres'] at heq
        exact absurd heq.symm (hapart t' t j hpres' hpair)
      | false =>
        obtain ⟨j', hpair', hscatter'⟩ := h.exists_given ht' hpres'
        rw [hscatter'] at heq
        have hnodup : (((s.free slots).zip (s.left slots)).map Prod.snd).Nodup := by
          rw [List.map_snd_zip h.count_eq.le]
          exact List.nodup_range.filter _
        exact congrArg Prod.fst (List.inj_on_of_nodup_map hnodup hpair hpair' heq)

/-- The replicas of a rank are moved between its slots, and an expert is kept in a slot where a
copy is left. -/
theorem preserveGpu_spec {argsort : Nat → (Nat → ℚ) → List Nat}
    (hargsort : ∀ n key, Argsort.Sorts n key (argsort n key)) (slots : Nat)
    (oldLocal : Nat → Int) (newLocal newRidx : Nat → Nat) :
    ∃ σ, PermOn slots σ ∧ ∀ t < slots,
      (preserveGpu argsort slots oldLocal newLocal newRidx).phy2log t = newLocal (σ t) ∧
      (preserveGpu argsort slots oldLocal newLocal newRidx).replicaIdx t = newRidx (σ t) ∧
      (((range t).filter fun u => oldLocal u = oldLocal t).card <
          ((range slots).filter fun j => (newLocal j : Int) = oldLocal t).card →
        (newLocal (σ t) : Int) = oldLocal t) := by
  obtain ⟨σ, hσ⟩ := keeping_range slots oldLocal newLocal newRidx slots
  unfold preserveGpu
  generalize (List.range slots).foldl (SlotState.preserve slots oldLocal newLocal newRidx)
    ⟨newLocal, newRidx, fun _ => false, fun _ => false⟩ = s at hσ ⊢
  -- The pairs are those of the slots that are not kept and the replicas that are left.
  have hpairs : ((argsort slots (Argsort.priority (slots + 1) fun t => !s.preserved t)).take
      (min ((List.range slots).countP fun j => !s.used j)
        ((List.range slots).countP fun t => !s.preserved t))).zip
      ((argsort slots (Argsort.priority (slots + 1) fun j => !s.used j)).take
        (min ((List.range slots).countP fun j => !s.used j)
          ((List.range slots).countP fun t => !s.preserved t))) =
      (s.free slots).zip (s.left slots) := by
    have hfill : _ = s.free slots := (hargsort slots (Argsort.priority (slots + 1) fun t =>
      !s.preserved t)).take_eq_filter (Nat.le_succ slots)
    have hremain : _ = s.left slots := (hargsort slots (Argsort.priority (slots + 1) fun j =>
      !s.used j)).take_eq_filter (Nat.le_succ slots)
    have hlength : ((List.range slots).filter fun j => !s.used j).length =
      ((List.range slots).filter fun t => !s.preserved t).length := hσ.count_eq
    rw [List.countP_eq_length_filter, List.countP_eq_length_filter, hlength, Nat.min_self, hfill,
      ← hlength, hremain]
  dsimp only
  rw [hpairs, foldl_fill]
  refine ⟨_, hσ.permOn_scatter, fun t ht => ?_⟩
  cases hpres : s.preserved t with
  | true =>
    dsimp only
    simp only [SlotState.scatter_of_preserved _ _ hpres]
    exact ⟨(hσ.filled t hpres).1, (hσ.filled t hpres).2, fun _ => hσ.same t hpres⟩
  | false =>
    obtain ⟨j, -, hscatter⟩ := hσ.exists_given ht hpres
    dsimp only
    rw [hscatter, hscatter, hscatter]
    refine ⟨rfl, rfl, fun hless => ?_⟩
    rw [hσ.kept t ht hless] at hpres
    cases hpres

/-- The replicas of every rank are moved between its slots. -/
theorem preserveIntragpuSlots_spec {argsort : Nat → (Nat → ℚ) → List Nat}
    (hargsort : ∀ n key, Argsort.Sorts n key (argsort n key)) (r : Replicas) {numRanks : Nat}
    (hranks : 0 < numRanks) (slots : Nat) (old : Nat → Int) :
    ∃ σ : Nat → Nat → Nat, (∀ g < numRanks, PermOn slots (σ g)) ∧
      (preserveIntragpuSlots argsort r (numRanks * slots) numRanks old).logcnt = r.logcnt ∧
      ∀ g < numRanks, ∀ t < slots,
        (preserveIntragpuSlots argsort r (numRanks * slots) numRanks old).phy2log (g * slots + t) =
          r.phy2log (g * slots + σ g t) ∧
        (preserveIntragpuSlots argsort r (numRanks * slots) numRanks old).replicaIdx
          (g * slots + t) = r.replicaIdx (g * slots + σ g t) ∧
        (((range t).filter fun u => old (g * slots + u) = old (g * slots + t)).card <
            ((range slots).filter fun j =>
              (r.phy2log (g * slots + j) : Int) = old (g * slots + t)).card →
          (r.phy2log (g * slots + σ g t) : Int) = old (g * slots + t)) := by
  have hspec := fun g => preserveGpu_spec hargsort slots (fun s => old (g * slots + s))
    (fun s => r.phy2log (g * slots + s)) fun s => r.replicaIdx (g * slots + s)
  obtain ⟨σ, hσ⟩ := Classical.skolem.mp hspec
  have hguard : ¬ (numRanks = 0 ∨ numRanks * slots % numRanks ≠ 0) := by
    rw [Nat.mul_mod_right]
    omega
  have hslots : numRanks * slots / numRanks = slots := Nat.mul_div_cancel_left _ hranks
  refine ⟨σ, fun g _ => (hσ g).1, ?_, fun g _ t ht => ?_⟩
  · rw [preserveIntragpuSlots, if_neg hguard]
  · rw [preserveIntragpuSlots, if_neg hguard]
    dsimp only
    rw [hslots, block_div ht, block_mod ht]
    exact (hσ g).2 t ht

end

/-! ## The maps -/

/-- The maps of a layer are complete and inverse to each other. -/
structure ExpertMaps.Inverse (numLog numReplicas : Nat) (maps : ExpertMaps) : Prop where
  pos : ∀ e < numLog, 1 ≤ maps.logcnt e
  logcnt_le : ∀ e < numLog, maps.logcnt e ≤ numReplicas - numLog + 1
  phy2log_lt : ∀ p < numReplicas, maps.phy2log p < numLog
  count_eq : ∀ e < numLog,
    ((range numReplicas).filter fun p => maps.phy2log p = e).card = maps.logcnt e
  nodup : ∀ e < numLog, ((List.range (maps.logcnt e)).map (maps.log2phy e)).Nodup
  mem_iff : ∀ e < numLog, ∀ x, x ∈ (List.range (maps.logcnt e)).map (maps.log2phy e) ↔
    ∃ p < numReplicas, maps.phy2log p = e ∧ x = (p : Int)
  rest : ∀ e < numLog, ∀ k, maps.logcnt e ≤ k → maps.log2phy e k = -1

/-- As many slots have an expert as it has replicas. -/
theorem Numbered.count_eq (h : Numbered numLog numPhy r) {e : Nat} (he : e < numLog) :
    ((range numPhy).filter fun p => r.phy2log p = e).card = r.logcnt e := by
  rw [← card_range (r.logcnt e)]
  refine card_bij (fun p _ => r.replicaIdx p) (fun p hp => ?_) (fun p hp q hq => ?_) fun k hk => ?_
  · obtain ⟨hlt, rfl⟩ := mem_filter.mp hp
    exact mem_range.mpr (h.idx_lt p (mem_range.mp hlt))
  · obtain ⟨hp, hpe⟩ := mem_filter.mp hp
    obtain ⟨hq, hqe⟩ := mem_filter.mp hq
    exact h.inj p (mem_range.mp hp) q (mem_range.mp hq) (hpe.trans hqe.symm)
  · obtain ⟨p, hp, hpe, hpk⟩ := h.surj e he k (mem_range.mp hk)
    exact ⟨p, mem_filter.mpr ⟨mem_range.mpr hp, hpe⟩, hpk⟩

/-- An expert has at most the replicas that the others leave. -/
theorem Numbered.logcnt_le (h : Numbered numLog numPhy r) {e : Nat} (he : e < numLog) :
    r.logcnt e ≤ numPhy - numLog + 1 := by
  have hsum : ∑ f ∈ range numLog, r.logcnt f = numPhy := by
    have hcard := card_eq_sum_card_fiberwise (s := range numPhy) (t := range numLog)
      (f := r.phy2log) fun p hp => mem_range.mpr (h.phy2log_lt p (mem_range.mp hp))
    rw [card_range] at hcard
    rw [hcard]
    exact (sum_congr rfl fun f hf => h.count_eq (mem_range.mp hf)).symm
  have hothers : numLog - 1 ≤ ∑ f ∈ (range numLog).erase e, r.logcnt f := by
    calc numLog - 1 = ∑ f ∈ (range numLog).erase e, 1 := by
          rw [← card_eq_sum_ones, card_erase_of_mem (mem_range.mpr he), card_range]
      _ ≤ ∑ f ∈ (range numLog).erase e, r.logcnt f := sum_le_sum fun f hf =>
          h.pos f (mem_range.mp (mem_of_mem_erase hf))
  have hsplit := add_sum_erase (range numLog) r.logcnt (mem_range.mpr he)
  omega

/-- The map from the experts to the slots is written at the numbers of the replicas. -/
theorem Numbered.inverse (h : Numbered numLog numPhy r) :
    ExpertMaps.Inverse numLog numPhy
      { phy2log := r.phy2log
        log2phy := fun e k => scatter (List.range numPhy) (fun p => (r.phy2log p, r.replicaIdx p))
          (fun p => (p : Int)) (fun _ => -1) (e, k)
        logcnt := r.logcnt } := by
  have hwritten : ∀ p < numPhy, scatter (List.range numPhy)
      (fun p => (r.phy2log p, r.replicaIdx p)) (fun p => (p : Int)) (fun _ => -1)
        (r.phy2log p, r.replicaIdx p) = p := by
    intro p hp
    have hinj : ∀ p ∈ List.range numPhy, ∀ q ∈ List.range numPhy,
        (r.phy2log p, r.replicaIdx p) = (r.phy2log q, r.replicaIdx q) → p = q :=
      fun p hp q hq heq => h.inj p (List.mem_range.mp hp) q (List.mem_range.mp hq)
        (congrArg Prod.fst heq) (congrArg Prod.snd heq)
    exact scatter_index hinj (List.mem_range.mpr hp)
  refine ⟨h.pos, fun e he => h.logcnt_le he, h.phy2log_lt, fun e he => h.count_eq he,
    fun e he => ?_, fun e he x => ?_, fun e he k hk => ?_⟩
  · refine (List.nodup_map_iff_inj_on List.nodup_range).mpr fun k hk k' hk' heq => ?_
    obtain ⟨p, hp, rfl, rfl⟩ := h.surj e he k (List.mem_range.mp hk)
    obtain ⟨q, hq, hqe, rfl⟩ := h.surj _ he k' (List.mem_range.mp hk')
    dsimp only at heq
    rw [hwritten p hp, ← hqe, hwritten q hq] at heq
    rw [Int.natCast_inj.mp heq]
  · rw [List.mem_map]
    constructor
    · rintro ⟨k, hk, rfl⟩
      obtain ⟨p, hp, rfl, rfl⟩ := h.surj e he k (List.mem_range.mp hk)
      exact ⟨p, hp, rfl, hwritten p hp⟩
    · rintro ⟨p, hp, rfl, rfl⟩
      exact ⟨r.replicaIdx p, List.mem_range.mpr (h.idx_lt p hp), hwritten p hp⟩
  · refine scatter_of_forall_ne fun p hp heq => ?_
    have hlt := h.idx_lt p (List.mem_range.mp hp)
    have hpe : r.phy2log p = e := congrArg Prod.fst heq
    have hpk : r.replicaIdx p = k := congrArg Prod.snd heq
    rw [hpe, hpk] at hlt
    exact absurd hlt (not_lt.mpr hk)

end Vllm.Distributed
