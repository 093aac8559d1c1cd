import Mathlib.Algebra.BigOperators.Intervals
import Mathlib.Algebra.Order.BigOperators.Group.Finset
import Mathlib.Algebra.Order.Field.Rat
import Mathlib.Algebra.Order.Field.Basic
import Mathlib.Order.WithBot
import Vllm.Library.Checked
import Vllm.Library.FirstMax

/-!
# The replication of experts

Each redundant slot goes to the expert whose replicas have the greatest load. No other way to
count the replicas has a smaller greatest load, and the replicas of an expert are numbered in the
order of their slots. Loads are exact; the layers of a model are treated apart.
-/

namespace Vllm.Distributed

open Checked FirstMax Finset

/-- What stops the balancer. -/
inductive EplbError where
  | assertion
  /-- `argmax` of no values. -/
  | emptyArgmax
  deriving DecidableEq, Repr

/-- The mapping of the slots, the numbers of the replicas in them, and how many replicas each
expert has. -/
structure Replicas where
  phy2log : Nat → Nat
  replicaIdx : Nat → Nat
  logcnt : Nat → Nat

/-- One replica of each expert. -/
def Replicas.single : Replicas where
  phy2log := id
  replicaIdx := fun _ => 0
  logcnt := fun _ => 1

/-- One turn of the loop: slot `i` goes to the expert with the greatest load for each replica. -/
def Replicas.addReplica (numLog : Nat) (weight : Nat → ℚ) (r : Replicas) (i : Nat) : Replicas :=
  let redundant := firstMax numLog fun e => weight e / r.logcnt e
  { phy2log := Function.update r.phy2log i redundant
    replicaIdx := Function.update r.replicaIdx i (r.logcnt redundant)
    logcnt := Function.update r.logcnt redundant (r.logcnt redundant + 1) }

/-- `replicate_experts` for one layer. -/
def replicateExperts (numLog numPhy : Nat) (weight : Nat → ℚ) : Except EplbError Replicas := do
  ensure (numLog ≤ numPhy) .assertion
  -- the first turn takes the maximum of all experts
  ensure (numLog < numPhy → 0 < numLog) .emptyArgmax
  pure ((List.range' numLog (numPhy - numLog)).foldl
    (Replicas.addReplica numLog weight) Replicas.single)

/-- The greatest load of a replica. -/
def maxLoad (numLog : Nat) (weight : Nat → ℚ) (logcnt : Nat → Nat) : WithBot ℚ :=
  (range numLog).sup fun e => ((weight e / logcnt e : ℚ) : WithBot ℚ)

/-! ## The loop -/

section

variable {numLog i : Nat} {weight : Nat → ℚ} {r : Replicas}

/-- What holds when `i` slots are mapped. -/
structure Replicated (numLog : Nat) (weight : Nat → ℚ) (i : Nat) (r : Replicas) : Prop where
  pos : ∀ e < numLog, 1 ≤ r.logcnt e
  sum_eq : ∑ e ∈ range numLog, r.logcnt e = i
  phy2log_lt : ∀ p < i, r.phy2log p < numLog
  /-- The replicas of an expert are numbered in the order of their slots. -/
  numbered : ∀ e < numLog,
    ((List.range i).filter fun p => r.phy2log p = e).map r.replicaIdx = List.range (r.logcnt e)
  /-- Before its last replica an expert had the greatest load. -/
  greedy : ∀ e < numLog, ∀ f < numLog, 1 < r.logcnt e →
    weight f / r.logcnt f ≤ weight e / (r.logcnt e - 1 : Nat)

/-- One replica of each expert. -/
theorem replicated_single : Replicated numLog weight numLog Replicas.single where
  pos e _ := le_rfl
  sum_eq := by
    show ∑ _e ∈ range numLog, 1 = numLog
    rw [← card_eq_sum_ones, card_range]
  phy2log_lt p hp := hp
  numbered e he := by
    have hfilter : (List.range numLog).filter (fun p => Replicas.single.phy2log p = e) = [e] := by
      show (List.range numLog).filter (fun p => p = e) = [e]
      rw [List.filter_eq, List.count_eq_one_of_mem List.nodup_range (List.mem_range.mpr he)]
      rfl
    rw [hfilter]
    rfl
  greedy e _ f _ h := absurd h (lt_irrefl 1)

/-- Where the loads are not negative, one more slot keeps what holds. -/
theorem Replicated.addReplica (h : Replicated numLog weight i r) (hpos : 0 < numLog)
    (hweight : ∀ e < numLog, 0 ≤ weight e) :
    Replicated numLog weight (i + 1) (r.addReplica numLog weight i) := by
  obtain ⟨g, hg⟩ : ∃ g, firstMax numLog (fun e => weight e / r.logcnt e) = g := ⟨_, rfl⟩
  have hlt : g < numLog := hg ▸ firstMax_lt hpos
  have hmost : ∀ f < numLog, weight f / r.logcnt f ≤ weight g / r.logcnt g := by
    intro f hf
    rw [← hg]
    exact le_firstMax (f := fun e => weight e / (r.logcnt e : ℚ)) hf
  have hr : r.addReplica numLog weight i =
      { phy2log := Function.update r.phy2log i g
        replicaIdx := Function.update r.replicaIdx i (r.logcnt g)
        logcnt := Function.update r.logcnt g (r.logcnt g + 1) } := by
    rw [Replicas.addReplica, hg]
  rw [hr]
  -- A replica more makes the load of each replica smaller.
  have hsmaller : ∀ f < numLog, weight f / (Function.update r.logcnt g (r.logcnt g + 1) f : ℕ) ≤
      weight f / r.logcnt f := by
    intro f hf
    by_cases hfg : f = g
    · subst hfg
      rw [Function.update_self]
      refine div_le_div_of_nonneg_left (hweight f hf) ?_ ?_
      · exact Nat.cast_pos.mpr (h.pos f hf)
      · exact Nat.cast_le.mpr (Nat.le_succ _)
    · rw [Function.update_of_ne hfg]
  refine ⟨fun e he => ?_, ?_, fun p hp => ?_, fun e he => ?_, fun e he f hf hmore => ?_⟩
  · by_cases heg : e = g
    · subst heg
      show 1 ≤ Function.update r.logcnt e (r.logcnt e + 1) e
      rw [Function.update_self]
      omega
    · show 1 ≤ Function.update r.logcnt g (r.logcnt g + 1) e
      rw [Function.update_of_ne heg]
      exact h.pos e he
  · show ∑ e ∈ range numLog, Function.update r.logcnt g (r.logcnt g + 1) e = i + 1
    rw [sum_update_of_mem (mem_range.mpr hlt), ← h.sum_eq,
      ← add_sum_erase _ _ (mem_range.mpr hlt), sdiff_singleton_eq_erase]
    omega
  · show Function.update r.phy2log i g p < numLog
    rcases Nat.lt_succ_iff_lt_or_eq.mp hp with hp | rfl
    · rw [Function.update_of_ne hp.ne]
      exact h.phy2log_lt p hp
    · rwa [Function.update_self]
  · have hbefore : ((List.range i).filter fun p => Function.update r.phy2log i g p = e).map
        (Function.update r.replicaIdx i (r.logcnt g)) = List.range (r.logcnt e) := by
      rw [← h.numbered e he]
      have hfilter : (List.range i).filter (fun p => Function.update r.phy2log i g p = e) =
          (List.range i).filter fun p => r.phy2log p = e :=
        List.filter_congr fun p hp => by
          rw [Function.update_of_ne (List.mem_range.mp hp).ne]
      rw [hfilter]
      refine List.map_congr_left fun p hp => ?_
      rw [Function.update_of_ne (List.mem_range.mp (List.mem_of_mem_filter hp)).ne]
    show ((List.range (i + 1)).filter fun p => Function.update r.phy2log i g p = e).map
      (Function.update r.replicaIdx i (r.logcnt g)) =
        List.range (Function.update r.logcnt g (r.logcnt g + 1) e)
    rw [List.range_succ, List.filter_append, List.map_append, hbefore]
    by_cases heg : e = g
    · subst heg
      rw [Function.update_self, List.range_succ, List.filter_singleton, Function.update_self,
        decide_eq_true rfl, cond_true, List.map_singleton, Function.update_self]
    · rw [Function.update_of_ne heg, List.filter_singleton, Function.update_self,
        decide_eq_false (Ne.symm heg), cond_false, List.map_nil, List.append_nil]
  · refine (hsmaller f hf).trans ?_
    by_cases heg : e = g
    · subst heg
      show weight f / r.logcnt f ≤
        weight e / (Function.update r.logcnt e (r.logcnt e + 1) e - 1 : ℕ)
      rw [Function.update_self, Nat.add_sub_cancel]
      exact hmost f hf
    · show weight f / r.logcnt f ≤
        weight e / (Function.update r.logcnt g (r.logcnt g + 1) e - 1 : ℕ)
      have hmore' : 1 < Function.update r.logcnt g (r.logcnt g + 1) e := hmore
      rw [Function.update_of_ne heg] at hmore' ⊢
      exact h.greedy e he f hf hmore'

/-- The loop. -/
theorem Replicated.run (h : Replicated numLog weight i r) (hpos : 0 < numLog)
    (hweight : ∀ e < numLog, 0 ≤ weight e) (count : Nat) :
    Replicated numLog weight (i + count)
      ((List.range' i count).foldl (Replicas.addReplica numLog weight) r) := by
  induction count generalizing i r with
  | zero => exact h
  | succ count ih =>
    rw [List.range'_succ, List.foldl_cons, ← Nat.add_assoc, Nat.add_right_comm]
    exact ih (h.addReplica hpos hweight)

/-! ## Optimality -/

/-- No other counts of as many replicas have a smaller greatest load: an expert that has more
replicas in them takes one from an expert that needed all of its replicas. -/
theorem Replicated.maxLoad_le (h : Replicated numLog weight i r)
    (hweight : ∀ e < numLog, 0 ≤ weight e) {counts : Nat → Nat}
    (hcounts : ∀ e < numLog, 1 ≤ counts e) (hsum : ∑ e ∈ range numLog, counts e = i) :
    maxLoad numLog weight r.logcnt ≤ maxLoad numLog weight counts := by
  refine Finset.sup_le fun e he => ?_
  have hlt := mem_range.mp he
  -- The load of each expert is at most that of some expert in the other counts.
  suffices hother : ∃ f < numLog, weight e / r.logcnt e ≤ weight f / counts f by
    obtain ⟨f, hf, hle⟩ := hother
    exact (WithBot.coe_le_coe.mpr hle).trans
      (le_sup (f := fun e => ((weight e / counts e : ℚ) : WithBot ℚ)) (mem_range.mpr hf))
  by_cases hmore : counts e ≤ r.logcnt e
  · refine ⟨e, hlt, div_le_div_of_nonneg_left (hweight e hlt) ?_ (Nat.cast_le.mpr hmore)⟩
    exact Nat.cast_pos.mpr (hcounts e hlt)
  · obtain ⟨f, hf, hless⟩ : ∃ f ∈ range numLog, counts f < r.logcnt f := by
      by_contra hnone
      have hle : ∀ f ∈ range numLog, r.logcnt f ≤ counts f := fun f hf =>
        not_lt.mp fun hfew => hnone ⟨f, hf, hfew⟩
      have := sum_lt_sum hle ⟨e, he, not_le.mp hmore⟩
      rw [hsum, h.sum_eq] at this
      exact lt_irrefl i this
    have hf' := mem_range.mp hf
    have hone := hcounts f hf'
    refine ⟨f, hf', (h.greedy f hf' e hlt (by omega)).trans ?_⟩
    refine div_le_div_of_nonneg_left (hweight f hf') (Nat.cast_pos.mpr hone) ?_
    exact Nat.cast_le.mpr (by omega)

end

/-- What replication gives. -/
theorem replicateExperts_replicated {numLog numPhy : Nat} (hle : numLog ≤ numPhy)
    (hexperts : numLog < numPhy → 0 < numLog) {weight : Nat → ℚ}
    (hweight : ∀ e < numLog, 0 ≤ weight e) :
    ∃ r, replicateExperts numLog numPhy weight = .ok r ∧ Replicated numLog weight numPhy r := by
  refine ⟨_, bind_ok_iff.mpr ⟨(), ensure_eq_ok.mpr hle,
    bind_ok_iff.mpr ⟨(), ensure_eq_ok.mpr hexperts, rfl⟩⟩, ?_⟩
  rcases hle.eq_or_lt with rfl | hlt
  · rw [Nat.sub_self]
    exact replicated_single
  · have hrun := replicated_single.run (hexperts hlt) hweight (numPhy - numLog)
    rwa [Nat.add_sub_cancel' hle] at hrun

/-- Replication minimises the greatest load of a replica and numbers the replicas. Without experts
there is nothing to replicate. -/
theorem replicateExperts_minimises {numLog numPhy : Nat} (hle : numLog ≤ numPhy)
    {weight : Nat → ℚ} (hweight : ∀ e < numLog, 0 ≤ weight e) :
    (∃ r, replicateExperts numLog numPhy weight = .ok r ∧ (∀ e < numLog, 1 ≤ r.logcnt e) ∧
      ∑ e ∈ range numLog, r.logcnt e = numPhy ∧
      (∀ counts : Nat → Nat, (∀ e < numLog, 1 ≤ counts e) →
        ∑ e ∈ range numLog, counts e = numPhy →
          maxLoad numLog weight r.logcnt ≤ maxLoad numLog weight counts) ∧
      (∀ p < numPhy, r.phy2log p < numLog) ∧
      ∀ e < numLog, ((List.range numPhy).filter fun p => r.phy2log p = e).map r.replicaIdx =
        List.range (r.logcnt e)) ∨
    numLog = 0 ∧ 0 < numPhy ∧
      replicateExperts numLog numPhy weight = .error .emptyArgmax := by
  by_cases hempty : numLog < numPhy → 0 < numLog
  · obtain ⟨r, hr, h⟩ := replicateExperts_replicated hle hempty hweight
    exact .inl ⟨r, hr, h.pos, h.sum_eq,
      fun counts hcounts hsum => h.maxLoad_le hweight hcounts hsum, h.phy2log_lt, h.numbered⟩
  · have hmore : 0 < numPhy := by omega
    refine .inr ⟨by omega, hmore, ?_⟩
    unfold replicateExperts
    rw [ensure, if_pos hle, ensure, if_neg hempty]
    rfl

/-- Two experts on four slots. -/
theorem twoExperts_minimise :
    ∃ r, replicateExperts 2 4 (fun e => if e = 0 then 5 else 1) = .ok r ∧
      (∀ e < 2, 1 ≤ r.logcnt e) ∧ ∑ e ∈ range 2, r.logcnt e = 4 ∧
      (∀ counts : Nat → Nat, (∀ e < 2, 1 ≤ counts e) → ∑ e ∈ range 2, counts e = 4 →
        maxLoad 2 (fun e => if e = 0 then 5 else 1) r.logcnt ≤
          maxLoad 2 (fun e => if e = 0 then 5 else 1) counts) ∧
      (∀ p < 4, r.phy2log p < 2) ∧
      ∀ e < 2, ((List.range 4).filter fun p => r.phy2log p = e).map r.replicaIdx =
        List.range (r.logcnt e) := by
  have hweight : ∀ e < 2, (0 : ℚ) ≤ if e = 0 then 5 else 1 := fun e _ => by
    split
    · exact (by decide : (0 : ℚ) ≤ 5)
    · exact (by decide : (0 : ℚ) ≤ 1)
  rcases replicateExperts_minimises (by omega : 2 ≤ 4) hweight with h | ⟨hempty, -⟩
  · exact h
  · exact absurd hempty (by decide)

end Vllm.Distributed
