import Vllm.Distributed.BalancedPacking
import Vllm.Library.Argsort
import Vllm.Library.IndexMaps

/-!
# The rebalancing of experts

Groups of experts are packed to nodes, experts are replicated within the nodes, and the replicas
are packed to the ranks of the node; then each rank keeps experts in the slots in which they were.
The layers of a model are treated apart, and so are the nodes of a layer and the ranks.
-/

namespace Vllm.Distributed

open Checked IndexMaps

section

variable (argsort : Nat → (Nat → ℚ) → List Nat)

/-- The steps within one node: its experts are replicated and the replicas are packed to its ranks.
The slots are in the order of the ranks, and the experts are those of the node. -/
def rebalanceNode (numLog numPhy numGpus phyExpertsPerGpu : Nat) (weight : Nat → ℚ) :
    Except RebalanceError Replicas := do
  let replicas ← (replicateExperts numLog numPhy weight).mapError .eplb
  let tokensPerPhy := fun p =>
    weight (replicas.phy2log p) / replicas.logcnt (replicas.phy2log p)
  let packing ← balancedPacking argsort numPhy tokensPerPhy numGpus
  let pphy2phy :=
    inverse numPhy fun p => packing.packIndex p * phyExpertsPerGpu + packing.rankInPack p
  pure
    { phy2log := fun q => replicas.phy2log (pphy2phy q)
      replicaIdx := fun q => replicas.replicaIdx (pphy2phy q)
      logcnt := replicas.logcnt }

/-- `rebalance_experts_hierarchical` for one layer. -/
def rebalanceExpertsHierarchical (numLogicalExperts : Nat) (weight : Nat → ℚ)
    (numPhysicalExperts numGroups numNodes numGpus : Nat) : Except RebalanceError Replicas := do
  ensure (numGroups ≠ 0) .zeroDivision
  ensure (numLogicalExperts % numGroups = 0) (.eplb .assertion)
  let groupSize := numLogicalExperts / numGroups
  ensure (numNodes ≠ 0) .zeroDivision
  ensure (numGroups % numNodes = 0) (.eplb .assertion)
  let groupsPerNode := numGroups / numNodes
  ensure (numGpus % numNodes = 0) (.eplb .assertion)
  ensure (numGpus ≠ 0) .zeroDivision
  ensure (numPhysicalExperts % numGpus = 0) (.eplb .assertion)
  let phyExpertsPerGpu := numPhysicalExperts / numGpus
  let tokensPerGroup := fun g =>
    ((List.range groupSize).map fun i => weight (g * groupSize + i)).sum
  let groups ← balancedPacking argsort numGroups tokensPerGroup numNodes
  let log2mlog := fun e =>
    (groups.packIndex (e / groupSize) * groupsPerNode + groups.rankInPack (e / groupSize)) *
      groupSize + e % groupSize
  let mlog2log := inverse numLogicalExperts log2mlog
  let logPerNode := numLogicalExperts / numNodes
  let phyPerNode := numPhysicalExperts / numNodes
  ensure (logPerNode ≠ 0) .reshape
  let nodes ← (List.range numNodes).mapM fun node =>
    rebalanceNode argsort logPerNode phyPerNode (numGpus / numNodes) phyExpertsPerGpu
      fun m => weight (mlog2log (node * logPerNode + m))
  let atNode := fun node => nodes.getD node Replicas.single
  pure
    { phy2log := fun q =>
        mlog2log ((atNode (q / phyPerNode)).phy2log (q % phyPerNode) + q / phyPerNode * logPerNode)
      replicaIdx := fun q => (atNode (q / phyPerNode)).replicaIdx (q % phyPerNode)
      logcnt := fun e => (atNode (log2mlog e / logPerNode)).logcnt (log2mlog e % logPerNode) }

end

/-- The slots of one rank while experts are kept in theirs. -/
structure SlotState where
  phy2log : Nat → Nat
  replicaIdx : Nat → Nat
  used : Nat → Bool
  preserved : Nat → Bool

/-- The first pass: a slot gets the first copy that is not used of the expert that it had. -/
def SlotState.preserve (slots : Nat) (oldLocal : Nat → Int) (newLocal newRidx : Nat → Nat)
    (s : SlotState) (slot : Nat) : SlotState :=
  match (List.range slots).find? fun j => (newLocal j : Int) = oldLocal slot ∧ ¬ s.used j with
  | some j =>
    { phy2log := Function.update s.phy2log slot (newLocal j)
      replicaIdx := Function.update s.replicaIdx slot (newRidx j)
      used := Function.update s.used j true
      preserved := Function.update s.preserved slot true }
  | none => s

/-- The second pass: a slot gets a copy that is left. -/
def SlotState.fill (newLocal newRidx : Nat → Nat) (s : SlotState) (pair : Nat × Nat) : SlotState :=
  { s with
    phy2log := Function.update s.phy2log pair.1 (newLocal pair.2)
    replicaIdx := Function.update s.replicaIdx pair.1 (newRidx pair.2) }

section

variable (argsort : Nat → (Nat → ℚ) → List Nat)

/-- The slots of one rank. -/
def preserveGpu (slots : Nat) (oldLocal : Nat → Int) (newLocal newRidx : Nat → Nat) : SlotState :=
  let s := (List.range slots).foldl (SlotState.preserve slots oldLocal newLocal newRidx)
    ⟨newLocal, newRidx, fun _ => false, fun _ => false⟩
  let remaining := fun j => !s.used j
  let unfilled := fun slot => !s.preserved slot
  let remainingIndices := argsort slots (Argsort.priority (slots + 1) remaining)
  let fillIndices := argsort slots (Argsort.priority (slots + 1) unfilled)
  let k := min ((List.range slots).countP remaining) ((List.range slots).countP unfilled)
  ((fillIndices.take k).zip (remainingIndices.take k)).foldl (SlotState.fill newLocal newRidx) s

/-- `preserve_intragpu_slots` for one layer. -/
def preserveIntragpuSlots (r : Replicas) (numPhyExperts numRanks : Nat) (oldPhy2log : Nat → Int) :
    Replicas :=
  if numRanks = 0 ∨ numPhyExperts % numRanks ≠ 0 then r
  else
    let slotsPerGpu := numPhyExperts / numRanks
    let gpu := fun g => preserveGpu argsort slotsPerGpu (fun s => oldPhy2log (g * slotsPerGpu + s))
      (fun s => r.phy2log (g * slotsPerGpu + s)) fun s => r.replicaIdx (g * slotsPerGpu + s)
    { phy2log := fun q => (gpu (q / slotsPerGpu)).phy2log (q % slotsPerGpu)
      replicaIdx := fun q => (gpu (q / slotsPerGpu)).replicaIdx (q % slotsPerGpu)
      logcnt := r.logcnt }

/-- The maps of one layer: the expert of each slot, the slot of each replica of each expert, and
the numbers of the replicas. -/
structure ExpertMaps where
  phy2log : Nat → Nat
  log2phy : Nat → Nat → Int
  logcnt : Nat → Nat

/-- The policy of `rebalance_experts`. -/
def rebalancePolicy (numLogicalExperts : Nat) (weight : Nat → ℚ)
    (numReplicas numGroups numNodes numRanks : Nat) : Except RebalanceError Replicas :=
  if numGroups % numNodes = 0 then
    rebalanceExpertsHierarchical argsort numLogicalExperts weight numReplicas numGroups numNodes
      numRanks
  else
    -- the global policy
    rebalanceExpertsHierarchical argsort numLogicalExperts weight numReplicas 1 1 numRanks

/-- `rebalance_experts` for one layer. -/
def rebalanceLayer (numLogicalExperts : Nat) (weight : Nat → ℚ)
    (numReplicas numGroups numNodes numRanks : Nat) (old : Option (Nat → Int)) :
    Except RebalanceError ExpertMaps := do
  ensure (numNodes ≠ 0) .zeroDivision
  let r ← rebalancePolicy argsort numLogicalExperts weight numReplicas numGroups numNodes numRanks
  let r := match old with
    | some old => preserveIntragpuSlots argsort r numReplicas numRanks old
    | none => r
  let maxlogcnt := numReplicas - numLogicalExperts + 1
  ensure (∀ p < numReplicas, r.phy2log p < numLogicalExperts ∧ r.replicaIdx p < maxlogcnt) .index
  let log2phy := scatter (List.range numReplicas) (fun p => (r.phy2log p, r.replicaIdx p))
    (fun p => (p : Int)) fun _ => -1
  pure { phy2log := r.phy2log, log2phy := fun e k => log2phy (e, k), logcnt := r.logcnt }

/-- `rebalance_experts`. -/
def rebalanceExperts (numLayers numLogicalExperts : Nat) (weight : Nat → Nat → ℚ)
    (numReplicas numGroups numNodes numRanks : Nat) (old : Option (Nat → Nat → Int)) :
    Except RebalanceError (List ExpertMaps) := do
  ensure (numLayers ≠ 0) .reshape
  (List.range numLayers).mapM fun layer =>
    rebalanceLayer argsort numLogicalExperts (weight layer) numReplicas numGroups numNodes numRanks
      (old.map fun old => old layer)

end

end Vllm.Distributed
