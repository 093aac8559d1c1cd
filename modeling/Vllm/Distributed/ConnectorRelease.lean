import Vllm.Distributed.ConnectorCounts
import Mathlib.Tactic.FinCases

/-!
# Every request is released once

A worker tells of a sent request at the last report of the sub-connectors that save it, and
the aggregator at the last worker. What both hold behind a list of steps is told by its
history, so a step releases the requests that become complete in it.
-/

namespace Vllm.Distributed

open Checked Countdown

variable {P : Type} {n c : Nat}

/-! ## The invariant of a run -/

/-- What the connectors and the aggregator hold behind the steps so far. -/
structure ReleaseInvariant (s : TransferSystem n) (past : List (TransferStep P n c)) : Prop where
  shipped : ∀ r, s.scheduler.extraAsyncSaves.get? r = none
  workers : ∀ w, Owes (savers past) (sentTotal past w) (s.workers w).extraAsyncSaves
  expected : s.aggregator.expectedFinishedCount = n
  sending : Remaining n (completeWorkers past) s.aggregator.sendRemainingCount
  recving : Remaining n (fun r => ∑ w, received past w r) s.aggregator.recvRemainingCount
  sentLe : ∀ w i r, sentBy past w i r ≤ saves past i r
  receivedLe : ∀ w r, received past w r ≤ loadsOf past r
  loadsLe : ∀ w r, loadsOf past r ≤ received past w r + 1

private theorem releaseInvariant_init :
    ReleaseInvariant (TransferSystem.init n) ([] : List (TransferStep P n c)) := by
  have hsavers : savers ([] : List (TransferStep P n c)) = fun _ => 0 := by
    funext r
    simp [savers, saves]
  have hcomplete : completeWorkers ([] : List (TransferStep P n c)) = fun _ => 0 := by
    funext r
    simp [completeWorkers, Complete, hsavers]
  refine ⟨fun r => Dict.get?_empty r, fun w => ?_, ?_, ?_, ?_, fun w i r => ?_, fun w r => ?_,
    fun w r => ?_⟩
  · have hsent : sentTotal ([] : List (TransferStep P n c)) w = fun _ => 0 := by
      funext r
      simp [sentTotal, sentBy]
    rw [hsavers, hsent]
    exact owes_empty
  · simp [TransferSystem.init, KVOutputAggregator.fromConnector]
  · rw [hcomplete]
    exact remaining_empty n
  · have hreceived : (fun r => ∑ w, received ([] : List (TransferStep P n c)) w r) =
        fun _ => 0 := by
      funext r
      simp [received]
    rw [hreceived]
    exact remaining_empty n
  · simp [sentBy]
  · simp [received]
  · simp [loadsOf]

section Step

variable {past : List (TransferStep P n c)} {a : TransferStep P n c} {s : TransferSystem n}

/-- The number of sub-connectors that answer `True`, as a sum over them. -/
private theorem asyncSaves_ofFn (f : Fin c → SaveOutcome P) :
    asyncSaves (List.ofFn f) = ∑ i, if (f i).asyncSave then 1 else 0 := by
  induction c with
  | zero => simp [asyncSaves]
  | succ c ih =>
    have hrest := ih fun i => f i.succ
    rw [asyncSaves] at hrest ⊢
    rw [List.ofFn_succ, List.countP_cons, Fin.sum_univ_succ, hrest, Nat.add_comm]

private theorem savesIn_cons (f : RequestId × (Fin c → SaveOutcome P))
    (l : List (RequestId × (Fin c → SaveOutcome P))) (r : RequestId) :
    ∑ i, savesIn (f :: l) i r =
      (if f.1 = r then asyncSaves (List.ofFn f.2) else 0) + ∑ i, savesIn l i r := by
  simp only [savesIn, List.countP_cons, Finset.sum_add_distrib]
  rw [Nat.add_comm]
  congr 1
  split
  · next h => simp [h, asyncSaves_ofFn]
  · next h => simp [h]

/-- The extra counts of the scheduler behind the requests that finish in a step. -/
theorem get?_foldlM_finishRequest {l : List (RequestId × (Fin c → SaveOutcome P))}
    {m m' : MultiConnectorScheduler} (hl : (l.map Prod.fst).Nodup)
    (h : l.foldlM TransferSystem.finishRequest m = .ok m') (r : RequestId) :
    m'.extraAsyncSaves.get? r = if 1 < ∑ i, savesIn l i r then some (∑ i, savesIn l i r - 1)
      else m.extraAsyncSaves.get? r := by
  induction l generalizing m with
  | nil =>
    obtain rfl := pure_ok_iff.mp h
    simp [savesIn]
  | cons f l ih =>
    rw [List.map_cons, List.nodup_cons] at hl
    rw [List.foldlM_cons, bind_ok_iff] at h
    obtain ⟨m₁, hfirst, hrest⟩ := h
    obtain ⟨⟨m₁', result⟩, hfinish, heq⟩ := bind_ok_iff.mp hfirst
    obtain rfl := pure_ok_iff.mp heq
    obtain ⟨-, hget⟩ := MultiConnectorScheduler.requestFinished_ok hfinish
    rw [ih hl.2 hrest, savesIn_cons]
    by_cases hr : f.1 = r
    · have hzero : ∑ i, savesIn l i r = 0 := by
        refine Finset.sum_eq_zero fun i _ => Nat.eq_zero_of_le_zero ?_
        have hcount : (l.map Prod.fst).count r = 0 := List.count_eq_zero.mpr (hr ▸ hl.1)
        exact hcount ▸ savesIn_le i r l
      simp [hzero, hr, hget r]
    · simp [hr, hget r, Ne.symm hr]

/-- A request that some sub-connector begins to save finished only now. -/
theorem savers_eq_zero_of_finished (hrules : StepRules past a) {r : RequestId}
    (hpos : 0 < ∑ i, savesIn a.finished i r) : savers past r = 0 := by
  have hle := hrules.finishes r
  rw [finishes_snoc] at hle
  obtain ⟨i, -, hi⟩ := Finset.exists_ne_zero_of_sum_ne_zero (Nat.ne_of_gt hpos)
  have hcount := savesIn_le i r a.finished
  refine Finset.sum_eq_zero fun j _ => ?_
  have hsaves := saves_le_finishes past j r
  omega

private theorem nodup_finished (hrules : StepRules past a) : (a.finished.map Prod.fst).Nodup := by
  refine List.nodup_iff_count_le_one.mpr fun r => ?_
  have hle := hrules.finishes r
  rw [finishes_snoc] at hle
  omega

theorem ReleaseInvariant.sentTotal_le (h : ReleaseInvariant s past) (w : Fin n) (r : RequestId) :
    sentTotal past w r ≤ savers past r :=
  Finset.sum_le_sum fun i _ => h.sentLe w i r

/-- Behind the metadata of a step a worker owes what the step added. -/
theorem ReleaseInvariant.owes_bind (h : ReleaseInvariant s past) (hrules : StepRules past a)
    {scheduler : MultiConnectorScheduler}
    (hscheduler : a.finished.foldlM TransferSystem.finishRequest s.scheduler = .ok scheduler)
    (w : Fin n) : Owes (savers (past ++ [a])) (sentTotal past w)
      ((s.workers w).bindConnectorMetadata scheduler.buildConnectorMeta.2).extraAsyncSaves := by
  intro r
  have hle := h.sentTotal_le w r
  have hzero := savers_eq_zero_of_finished hrules (r := r)
  rw [MultiConnectorWorker.get?_bindConnectorMetadata, scheduler.buildConnectorMeta_eq.2,
    get?_foldlM_finishRequest (nodup_finished hrules) hscheduler, h.shipped, h.workers w r,
    savers_snoc]
  by_cases hpos : 0 < ∑ i, savesIn a.finished i r
  · have hz := hzero hpos
    have hm : sentTotal past w r = 0 := by omega
    simp [hz, hm]
  · have hk : ∑ i, savesIn a.finished i r = 0 := by omega
    simp [hk]

/-- A worker that becomes complete in a step adds one to the number of complete ones. -/
theorem ReleaseInvariant.complete_snoc (h : ReleaseInvariant s past) (hrules : StepRules past a)
    (w : Fin n) (r : RequestId) : (if Complete (past ++ [a]) w r then 1 else 0) =
      (if Complete past w r then 1 else 0) +
        if sentTotal past w r < savers (past ++ [a]) r ∧
          sentTotal (past ++ [a]) w r = savers (past ++ [a]) r then 1 else 0 := by
  have hle := h.sentTotal_le w r
  have hle' : sentTotal (past ++ [a]) w r ≤ savers (past ++ [a]) r :=
    Finset.sum_le_sum fun i _ => hrules.sending w i r
  have hzero := savers_eq_zero_of_finished hrules (r := r)
  have hsavers := savers_snoc past a r
  have hsent := sentTotal_snoc past a w r
  split_ifs <;> omega

private theorem completeWorkers_le (past : List (TransferStep P n c)) (r : RequestId) :
    completeWorkers past r ≤ n := by
  have hle : completeWorkers past r ≤ ∑ _w : Fin n, 1 :=
    Finset.sum_le_sum fun w _ => by split <;> omega
  simpa using hle

private theorem completeWorkers_eq_iff (past : List (TransferStep P n c)) (r : RequestId) :
    completeWorkers past r = n ↔ ∀ w, Complete past w r := by
  have hone : ∑ _w : Fin n, 1 = n := by simp
  conv_lhs => rhs; rw [← hone]
  rw [completeWorkers, Finset.sum_eq_sum_iff_of_le fun w _ => by split <;> omega]
  simp

/-- No complete worker becomes incomplete. -/
theorem ReleaseInvariant.completeWorkers_le_snoc (h : ReleaseInvariant s past)
    (hrules : StepRules past a) (r : RequestId) :
    completeWorkers past r ≤ completeWorkers (past ++ [a]) r :=
  Finset.sum_le_sum fun w _ => by rw [h.complete_snoc hrules w r]; omega

/-- A worker reports a request as received at most once in a step. -/
theorem ReleaseInvariant.received_snoc (h : ReleaseInvariant s past) (hrules : StepRules past a)
    (w : Fin n) (r : RequestId) : received (past ++ [a]) w r = received past w r +
      if ∃ p ∈ List.ofFn (a.reports w), r ∈ p.recving.getD [] then 1 else 0 := by
  have hsnoc := Distributed.received_snoc past a w r
  have hle := hrules.recving w r
  rw [loadsOf_snoc] at hle
  have hlow := h.loadsLe w r
  have hload : a.loads.count r = 0 ∨ a.loads.count r = 1 ∧ received past w r = loadsOf past r := by
    by_cases hr : r ∈ a.loads
    · exact Or.inr ⟨(hrules.loads r hr).1, (hrules.loads r hr).2 w⟩
    · exact Or.inl (List.count_eq_zero.mpr hr)
  split
  · next hex =>
    obtain ⟨p, hp, hr⟩ := hex
    obtain ⟨i, rfl⟩ := List.mem_ofFn.mp hp
    have hone : 1 ≤ ((a.reports w i).recving.getD []).count r := List.count_pos_iff.mpr hr
    have hsum : ((a.reports w i).recving.getD []).count r ≤
        ∑ i, ((a.reports w i).recving.getD []).count r :=
      Finset.single_le_sum (f := fun i => ((a.reports w i).recving.getD []).count r)
        (fun _ _ => Nat.zero_le _) (Finset.mem_univ i)
    omega
  · next hnone =>
    have hzero : ∑ i, ((a.reports w i).recving.getD []).count r = 0 := by
      refine Finset.sum_eq_zero fun i _ => List.count_eq_zero.mpr fun hr => hnone ?_
      exact ⟨a.reports w i, List.mem_ofFn.mpr ⟨i, rfl⟩, hr⟩
    omega

/-- Loads are still outstanding by at most one behind a step. -/
theorem ReleaseInvariant.loadsOf_snoc_le (h : ReleaseInvariant s past) (hrules : StepRules past a)
    (w : Fin n) (r : RequestId) : loadsOf (past ++ [a]) r ≤ received past w r + 1 := by
  rw [loadsOf_snoc]
  by_cases hr : r ∈ a.loads
  · obtain ⟨hone, hreceived⟩ := hrules.loads r hr
    rw [hone, hreceived w]
  · rw [List.count_eq_zero.mpr hr]
    exact h.loadsLe w r

/-- Between two counts in one round, the number of whole rounds grows exactly when the second
completes the round. -/
theorem div_lt_div_iff_of_round {N L x y : Nat} (hn : 0 < N) (hlow : N * L ≤ x + N) (hxy : x ≤ y)
    (hy : y ≤ N * L) : x / N < y / N ↔ y = N * L ∧ x < N * L := by
  have hyL : y / N ≤ L := by
    have := Nat.div_le_div_right (c := N) hy
    rwa [Nat.mul_div_cancel_left L hn] at this
  have hxL : L ≤ x / N + 1 := by
    have := Nat.div_le_div_right (c := N) hlow
    rwa [Nat.mul_div_cancel_left L hn, Nat.add_div_right x hn] at this
  constructor
  · intro hlt
    have hy' : y / N = L := by omega
    have hx' : x / N < L := by omega
    have hmul := Nat.mul_div_le y N
    rw [hy'] at hmul
    exact ⟨by omega, by rw [Nat.mul_comm]; exact (Nat.div_lt_iff_lt_mul hn).mp hx'⟩
  · rintro ⟨rfl, hx⟩
    rw [Nat.mul_div_cancel_left L hn]
    exact (Nat.div_lt_iff_lt_mul hn).mpr (by rwa [Nat.mul_comm] at hx)

private theorem sum_received_le (past : List (TransferStep P n c)) (a : TransferStep P n c)
    (r : RequestId) : ∑ w, received past w r ≤ ∑ w, received (past ++ [a]) w r :=
  Finset.sum_le_sum fun w _ => by rw [Distributed.received_snoc]; omega

/-- The workers together report at most one load more in a step. -/
theorem ReleaseInvariant.sum_received_le_add (h : ReleaseInvariant s past)
    (hrules : StepRules past a) (r : RequestId) :
    ∑ w, received (past ++ [a]) w r ≤ ∑ w, received past w r + n := by
  calc ∑ w, received (past ++ [a]) w r
    _ ≤ ∑ w, (received past w r + 1) := Finset.sum_le_sum fun w _ =>
        (hrules.recving w r).trans (h.loadsOf_snoc_le hrules w r)
    _ = ∑ w, received past w r + n := by simp [Finset.sum_add_distrib]

/-- The round of a load is complete exactly when its last worker reports it. -/
theorem ReleaseInvariant.recvCompletes_iff (h : ReleaseInvariant s past)
    (hrules : StepRules past a) (hn : 0 < n) (r : RequestId) :
    (∑ w, received past w r) / n < (∑ w, received (past ++ [a]) w r) / n ↔
      RecvCompletes past a r := by
  have hconst (k : Nat) : ∑ _w : Fin n, k = n * k := by simp
  have hle' : ∑ w, received (past ++ [a]) w r ≤ n * loadsOf (past ++ [a]) r := by
    rw [← hconst]
    exact Finset.sum_le_sum fun w _ => hrules.recving w r
  have hlow : n * loadsOf (past ++ [a]) r ≤ ∑ w, received past w r + n := by
    calc n * loadsOf (past ++ [a]) r
      _ = ∑ _w : Fin n, loadsOf (past ++ [a]) r := (hconst _).symm
      _ ≤ ∑ w, (received past w r + 1) := Finset.sum_le_sum fun w _ => h.loadsOf_snoc_le hrules w r
      _ = ∑ w, received past w r + n := by rw [Finset.sum_add_distrib, hconst, Nat.mul_one]
  have hall : ∑ w, received (past ++ [a]) w r = n * loadsOf (past ++ [a]) r ↔
      ∀ w, received (past ++ [a]) w r = loadsOf (past ++ [a]) r := by
    rw [← hconst, Finset.sum_eq_sum_iff_of_le fun w _ => hrules.recving w r]
    simp
  rw [div_lt_div_iff_of_round hn hlow (sum_received_le past a r) hle', hall, RecvCompletes]
  refine and_congr_right fun hnew => ?_
  rw [← hconst]
  constructor
  · intro hlt
    obtain ⟨w, -, hw⟩ := Finset.exists_lt_of_sum_lt hlt
    rw [← hnew w, h.received_snoc hrules w r] at hw
    split at hw
    · next hex =>
      obtain ⟨p, hp, hr⟩ := hex
      obtain ⟨i, rfl⟩ := List.mem_ofFn.mp hp
      exact ⟨w, i, hr⟩
    · omega
  · rintro ⟨w, i, hr⟩
    refine Finset.sum_lt_sum (fun w _ => ?_) ⟨w, Finset.mem_univ w, ?_⟩
    · rw [← hnew w, Distributed.received_snoc]
      omega
    · rw [← hnew w, h.received_snoc hrules w r,
        if_pos ⟨a.reports w i, List.mem_ofFn.mpr ⟨i, rfl⟩, hr⟩]
      omega

/-- The last worker becomes complete exactly when the last sub-connector reports. -/
theorem ReleaseInvariant.sendCompletes_iff (h : ReleaseInvariant s past)
    (hrules : StepRules past a) (hn : 0 < n) (r : RequestId) :
    completeWorkers past r / n < completeWorkers (past ++ [a]) r / n ↔ SendCompletes past a r := by
  have hround := div_lt_div_iff_of_round (L := 1) hn (by omega)
    (h.completeWorkers_le_snoc hrules r) (by simpa using completeWorkers_le (past ++ [a]) r)
  rw [Nat.mul_one] at hround
  have hsaves (i : Fin c) : saves (past ++ [a]) i r ≤ 1 :=
    (saves_le_finishes _ i r).trans (hrules.finishes r)
  have hcomplete (w : Fin n) : sentTotal (past ++ [a]) w r = savers (past ++ [a]) r ↔
      ∀ i, 0 < saves (past ++ [a]) i r → 0 < sentBy (past ++ [a]) w i r := by
    rw [sentTotal, savers, Finset.sum_eq_sum_iff_of_le fun i _ => hrules.sending w i r]
    refine ⟨fun heq i hi => ?_, fun hpos i _ => ?_⟩
    · have := heq i (Finset.mem_univ i)
      omega
    · have h₁ := hrules.sending w i r
      have h₂ := hpos i
      have h₃ := hsaves i
      omega
  rw [hround, completeWorkers_eq_iff, SendCompletes]
  constructor
  · rintro ⟨hall, hlt⟩
    refine ⟨(hall ⟨0, hn⟩).1, fun w => (hcomplete w).mp (hall w).2, ?_⟩
    by_contra hnone
    simp only [not_exists] at hnone
    -- Without a report the sums stay, so every worker was complete before.
    have hsent (w : Fin n) : sentTotal (past ++ [a]) w r = sentTotal past w r := by
      rw [sentTotal_snoc, Finset.sum_eq_zero fun i _ => List.count_eq_zero.mpr (hnone w i),
        Nat.add_zero]
    refine Nat.ne_of_lt hlt ((completeWorkers_eq_iff past r).mpr fun w => ?_)
    obtain ⟨hpos, heq⟩ := hall w
    have hle := h.sentTotal_le w r
    have hzero := savers_eq_zero_of_finished hrules (r := r)
    have hsavers := savers_snoc past a r
    rw [hsent] at heq
    refine ⟨?_, ?_⟩ <;> omega
  · rintro ⟨hpos, hall, w, i, hr⟩
    refine ⟨fun w => ⟨hpos, (hcomplete w).mpr (hall w)⟩,
      Nat.lt_of_le_of_ne (completeWorkers_le past r) fun heq => ?_⟩
    -- A worker that was complete has no report left.
    have hold := (completeWorkers_eq_iff past r).mp heq w
    have heq' := (hcomplete w).mpr (hall w)
    have hzero := savers_eq_zero_of_finished hrules (r := r)
    have hsavers := savers_snoc past a r
    have hsnoc := sentTotal_snoc past a w r
    have hone : 1 ≤ ((a.reports w i).sending.getD []).count r := List.count_pos_iff.mpr hr
    have hsum : ((a.reports w i).sending.getD []).count r ≤
        ∑ i, ((a.reports w i).sending.getD []).count r :=
      Finset.single_le_sum (f := fun i => ((a.reports w i).sending.getD []).count r)
        (fun _ _ => Nat.zero_le _) (Finset.mem_univ i)
    have hold₁ := hold.1
    have hold₂ := hold.2
    omega

/-- One step of a worker, and which requests it reports. -/
theorem ReleaseInvariant.workerStep_ok (h : ReleaseInvariant s past) (hrules : StepRules past a)
    {scheduler : MultiConnectorScheduler}
    (hscheduler : a.finished.foldlM TransferSystem.finishRequest s.scheduler = .ok scheduler)
    (w : Fin n) : ∃ result, TransferSystem.workerStep (s.workers w)
        scheduler.buildConnectorMeta.2 (a.reports w) = .ok result ∧
      Owes (savers (past ++ [a])) (sentTotal (past ++ [a]) w) result.1.extraAsyncSaves ∧
      result.2.expectedFinishedCount = 0 ∧
      (∀ r, (if Complete (past ++ [a]) w r then 1 else 0) =
        (if Complete past w r then 1 else 0) + (result.2.finishedSending.getD []).count r) ∧
      ∀ r, received (past ++ [a]) w r =
        received past w r + (result.2.finishedRecving.getD []).count r := by
  have hsum (r : RequestId) : sentTotal past w r +
      ((List.ofFn (a.reports w)).map fun p => (p.sending.getD []).count r).sum =
        sentTotal (past ++ [a]) w r := by
    rw [sentTotal_snoc, List.map_ofFn, List.sum_ofFn]
    rfl
  have hle (r : RequestId) : sentTotal (past ++ [a]) w r ≤ savers (past ++ [a]) r :=
    Finset.sum_le_sum fun i _ => hrules.sending w i r
  have hreports (r : RequestId) : sentTotal past w r +
      ((List.ofFn (a.reports w)).map fun p => (p.sending.getD []).count r).sum ≤
        savers (past ++ [a]) r :=
    (hsum r).trans_le (hle r)
  obtain ⟨w', report, hrun, howes, hsend, hrecv⟩ :=
    MultiConnectorWorker.getFinished_ok (h.owes_bind hrules hscheduler w) hreports
  simp only [hsum] at howes hsend
  refine ⟨(w', ⟨report.sending, report.recving, 0⟩), ?_, howes, rfl, fun r => ?_, fun r => ?_⟩
  · simp only [TransferSystem.workerStep, hrun, bind, Except.bind]
    rfl
  · rw [h.complete_snoc hrules, hsend]
  · rw [h.received_snoc hrules, hrecv]

/-- One step, behind a scheduler that took its finished requests: the invariant is kept, and
the requests that are released are those that become complete. -/
theorem ReleaseInvariant.step_ok (h : ReleaseInvariant s past) (hrules : StepRules past a)
    {outputRank : Nat} (hrank : outputRank < n) {scheduler : MultiConnectorScheduler}
    (hscheduler : a.finished.foldlM TransferSystem.finishRequest s.scheduler = .ok scheduler) :
    ∃ s' output, s.step outputRank a = .ok (s', some output) ∧
      ReleaseInvariant s' (past ++ [a]) ∧
      (∀ r, r ∈ output.finishedSending.getD [] ↔
        completeWorkers past r / n < completeWorkers (past ++ [a]) r / n) ∧
      ∀ r, r ∈ output.finishedRecving.getD [] ↔
        (∑ w, received past w r) / n < (∑ w, received (past ++ [a]) w r) / n := by
  have hn : 0 < n := by omega
  choose results hresults howes hexpected hsend hrecv using h.workerStep_ok hrules hscheduler
  have houtputs : (List.ofFn fun w => some (some (results w).2)) =
      (List.ofFn fun w => (results w).2).map fun o => some (some o) := by
    rw [List.map_ofFn]
    rfl
  have hsent (r : RequestId) : completeWorkers past r + ((List.ofFn fun w => (results w).2).map
      fun o => (o.finishedSending.getD []).count r).sum = completeWorkers (past ++ [a]) r := by
    rw [List.map_ofFn, List.sum_ofFn, completeWorkers, completeWorkers, ← Finset.sum_add_distrib]
    exact Finset.sum_congr rfl fun w _ => (hsend w r).symm
  have hreceived (r : RequestId) : ∑ w, received past w r +
      ((List.ofFn fun w => (results w).2).map fun o => (o.finishedRecving.getD []).count r).sum =
        ∑ w, received (past ++ [a]) w r := by
    rw [List.map_ofFn, List.sum_ofFn, ← Finset.sum_add_distrib]
    exact Finset.sum_congr rfl fun w _ => (hrecv w r).symm
  have hzero : ∀ o ∈ List.ofFn fun w => (results w).2, o.expectedFinishedCount = 0 := by
    intro o ho
    obtain ⟨w, rfl⟩ := List.mem_ofFn.mp ho
    exact hexpected w
  have hlength : outputRank < (List.ofFn fun w => (results w).2).length := by simpa using hrank
  have hexp := h.expected
  have hsending : Remaining s.aggregator.expectedFinishedCount (completeWorkers past)
      s.aggregator.sendRemainingCount := by
    rw [hexp]
    exact h.sending
  have hrecving : Remaining s.aggregator.expectedFinishedCount (fun r => ∑ w, received past w r)
      s.aggregator.recvRemainingCount := by
    rw [hexp]
    exact h.recving
  obtain ⟨g', output, hagg, hexp', hsend', hrecv', hmem, hmem'⟩ :=
    KVOutputAggregator.aggregate_ok hzero hlength (hexp.trans_gt hn) hsending hrecving
  simp only [hexp, hsent, hreceived] at hexp' hsend' hrecv' hmem hmem'
  have hrun : s.step outputRank a = .ok (⟨scheduler.buildConnectorMeta.1,
      fun w => (results w).1, g'⟩, some output) := by
    have hcollect := collect_eq_ok.mpr hresults
    simp only [TransferSystem.step, hscheduler, hcollect, houtputs, hagg, bind, Except.bind]
    rfl
  refine ⟨_, output, hrun, ⟨scheduler.buildConnectorMeta_eq.1, howes, hexp', hsend', hrecv',
    hrules.sending, hrules.recving, fun w r => ?_⟩, hmem, hmem'⟩
  rw [Distributed.received_snoc]
  have := h.loadsOf_snoc_le hrules w r
  omega

/-- A step stops only where two sub-connectors produce parameters. -/
theorem ReleaseInvariant.failsOnly_step (h : ReleaseInvariant s past) (hrules : StepRules past a)
    {outputRank : Nat} (hrank : outputRank < n) :
    FailsOnly (· = TransferError.severalTransferParams) (s.step outputRank a) := by
  have hone (m : MultiConnectorScheduler) (f : RequestId × (Fin c → SaveOutcome P)) :
      FailsOnly (· = TransferError.severalTransferParams) (TransferSystem.finishRequest m f) :=
    (m.failsOnly_requestFinished _ _).bind fun _ _ => failsOnly_pure _
  have hall (l : List (RequestId × (Fin c → SaveOutcome P))) (m : MultiConnectorScheduler) :
      FailsOnly (· = TransferError.severalTransferParams)
        (l.foldlM TransferSystem.finishRequest m) := by
    induction l generalizing m with
    | nil => exact failsOnly_pure _
    | cons f l ih =>
      rw [List.foldlM_cons]
      exact (hone m f).bind fun m' _ => ih m'
  cases hscheduler : a.finished.foldlM TransferSystem.finishRequest s.scheduler with
  | error e =>
    intro e' he'
    simp only [TransferSystem.step, hscheduler, bind, Except.bind] at he'
    exact Except.error.inj he' ▸ hall _ _ e hscheduler
  | ok scheduler =>
    obtain ⟨s', output, hrun, -⟩ := h.step_ok hrules hrank hscheduler
    rw [hrun]
    exact failsOnly_ok _

end Step

/-! ## Runs -/

/-- The requests that an aggregated output releases. -/
def sendingOf (output : Option KVConnectorOutput) : List RequestId :=
  (output.bind KVConnectorOutput.finishedSending).getD []

/-- The requests that an aggregated output reports as loaded. -/
def recvingOf (output : Option KVConnectorOutput) : List RequestId :=
  (output.bind KVConnectorOutput.finishedRecving).getD []

/-- The rules hold at every step of a list. -/
def Promised (past steps : List (TransferStep P n c)) : Prop :=
  ∀ k (hk : k < steps.length), StepRules (past ++ steps.take k) steps[k]

theorem Promised.tail {past steps : List (TransferStep P n c)} {a : TransferStep P n c}
    (h : Promised past (a :: steps)) : Promised (past ++ [a]) steps := by
  intro k hk
  have hrule := h (k + 1) (by simpa using hk)
  rw [List.getElem_cons_succ, List.take_succ_cons] at hrule
  rwa [List.append_assoc, List.singleton_append]

/-- A request finishes once in the whole list. -/
theorem Promised.finishes_le {steps : List (TransferStep P n c)} (h : Promised [] steps)
    (r : RequestId) : finishes steps r ≤ 1 := by
  rcases steps.eq_nil_or_concat with rfl | ⟨steps, a, rfl⟩
  · simp [finishes]
  · have hlast := (h steps.length (by simp)).finishes r
    simpa using hlast

/-- The number of whole rounds grows by the one that is complete. -/
theorem add_div_of_lt_iff {N x y : Nat} (hN : 0 < N) (hxy : x ≤ y) (hy : y ≤ x + N) {p : Bool}
    (hp : p = true ↔ x / N < y / N) : (if p = true then 1 else 0) + x / N = y / N := by
  have hle := Nat.div_le_div_right (c := N) hxy
  have hle' := Nat.div_le_div_right (c := N) hy
  rw [Nat.add_div_right x hN] at hle'
  split
  · next hlt =>
    have := hp.mp hlt
    omega
  · next hlt =>
    have := mt hp.mpr hlt
    omega

/-- A run keeps the invariant; a step releases what becomes complete in it, and each request
is released once for each round of all workers. -/
theorem ReleaseInvariant.run_ok {past steps : List (TransferStep P n c)} {s s' : TransferSystem n}
    {outputRank : Nat} {outputs : List (Option KVConnectorOutput)} (h : ReleaseInvariant s past)
    (hrank : outputRank < n) (hrules : Promised past steps)
    (hrun : s.run outputRank steps = .ok (s', outputs)) :
    ReleaseInvariant s' (past ++ steps) ∧ outputs.length = steps.length ∧
      (∀ k (hk : k < steps.length) (hk' : k < outputs.length) r,
        (r ∈ sendingOf outputs[k] ↔ SendCompletes (past ++ steps.take k) steps[k] r) ∧
        (r ∈ recvingOf outputs[k] ↔ RecvCompletes (past ++ steps.take k) steps[k] r)) ∧
      ∀ r, (outputs.countP fun o => r ∈ sendingOf o) + completeWorkers past r / n =
          completeWorkers (past ++ steps) r / n ∧
        (outputs.countP fun o => r ∈ recvingOf o) + (∑ w, received past w r) / n =
          (∑ w, received (past ++ steps) w r) / n := by
  have hn : 0 < n := by omega
  induction steps generalizing past s outputs with
  | nil =>
    obtain ⟨rfl, rfl⟩ := Prod.mk.inj (Except.ok.inj hrun)
    exact ⟨by simpa using h, rfl, by simp, by simp⟩
  | cons a steps ih =>
    obtain ⟨s₁, output, outputs, hstep, hrest, rfl⟩ := mapAccum_cons_eq_ok.mp hrun
    have ha := hrules 0 (by simp)
    rw [List.getElem_cons_zero, List.take_zero, List.append_nil] at ha
    obtain ⟨scheduler, hscheduler, -⟩ := bind_ok_iff.mp hstep
    obtain ⟨s₁', output', hstep', hinv, hsend, hrecv⟩ := h.step_ok ha hrank hscheduler
    obtain ⟨rfl, rfl⟩ := Prod.mk.inj (Except.ok.inj (hstep.symm.trans hstep'))
    obtain ⟨hinv', hlength, hmem, hcount⟩ := ih hinv hrules.tail hrest
    rw [List.append_assoc, List.singleton_append] at hinv' hcount
    refine ⟨hinv', by simp [hlength], fun k hk hk' r => ?_, fun r => ?_⟩
    · cases k with
      | zero =>
        rw [List.take_zero, List.append_nil]
        exact ⟨(hsend r).trans (h.sendCompletes_iff ha hn r),
          (hrecv r).trans (h.recvCompletes_iff ha hn r)⟩
      | succ k =>
        have := hmem k (by simpa using hk) (by simpa using hk') r
        rwa [List.append_assoc, List.singleton_append] at this
    · obtain ⟨hcount₁, hcount₂⟩ := hcount r
      have hle : completeWorkers (past ++ [a]) r ≤ completeWorkers past r + n :=
        (completeWorkers_le _ r).trans (Nat.le_add_left ..)
      have hone := add_div_of_lt_iff (p := decide (r ∈ sendingOf (some output'))) hn
        (h.completeWorkers_le_snoc ha r) hle (decide_eq_true_iff.trans (hsend r))
      have hone' := add_div_of_lt_iff (p := decide (r ∈ recvingOf (some output'))) hn
        (sum_received_le past a r) (h.sum_received_le_add ha r) (decide_eq_true_iff.trans (hrecv r))
      rw [List.countP_cons, List.countP_cons]
      omega

/-- A run stops only where two sub-connectors produce parameters. -/
theorem ReleaseInvariant.failsOnly_run {past steps : List (TransferStep P n c)}
    {s : TransferSystem n} {outputRank : Nat} (h : ReleaseInvariant s past)
    (hrank : outputRank < n) (hrules : Promised past steps) :
    FailsOnly (· = TransferError.severalTransferParams) (s.run outputRank steps) := by
  induction steps generalizing past s with
  | nil => exact failsOnly_ok _
  | cons a steps ih =>
    have ha := hrules 0 (by simp)
    rw [List.getElem_cons_zero, List.take_zero, List.append_nil] at ha
    refine (h.failsOnly_step ha hrank).bind fun result hstep => ?_
    obtain ⟨scheduler, hscheduler, -⟩ := bind_ok_iff.mp hstep
    obtain ⟨s', output, hstep', hinv, -⟩ := h.step_ok ha hrank hscheduler
    obtain rfl := Except.ok.inj (hstep.symm.trans hstep')
    exact (ih hinv hrules.tail).bind fun _ _ => failsOnly_pure _

/-- `request_finished` returned `True` for a request: some sub-connector saves it. -/
def Saved (steps : List (TransferStep P n c)) (r : RequestId) : Prop :=
  ∃ a ∈ steps, ∃ f ∈ a.finished, f.1 = r ∧ 0 < asyncSaves (List.ofFn f.2)

private theorem savers_pos_iff (steps : List (TransferStep P n c)) (r : RequestId) :
    0 < savers steps r ↔ Saved steps r := by
  simp only [Nat.pos_iff_ne_zero, Ne, savers, saves, savesIn, Finset.sum_eq_zero_iff,
    List.sum_eq_zero_iff, List.countP_eq_zero, Saved, asyncSaves, List.mem_map, List.mem_ofFn,
    Finset.mem_univ, forall_const]
  constructor
  · intro h
    by_contra hnone
    refine h fun i k hk => ?_
    obtain ⟨a, ha, rfl⟩ := hk
    refine List.countP_eq_zero.mpr fun f hf hfi => hnone ⟨a, ha, f, hf, ?_⟩
    obtain ⟨heq, hsave⟩ := of_decide_eq_true hfi
    exact ⟨heq, fun hzero => hzero (f.2 i) ⟨i, rfl⟩ hsave⟩
  · rintro ⟨a, ha, f, hf, rfl, hsave⟩ hzero
    refine hsave fun o ho hasync => ?_
    obtain ⟨i, rfl⟩ := ho
    exact List.countP_eq_zero.mp (hzero i _ ⟨a, ha, rfl⟩) f hf (decide_eq_true ⟨rfl, hasync⟩)

/-- What the aggregated outputs of a run tell, and what is left behind it. -/
structure ReleasedOnce (steps : List (TransferStep P n c)) (s : TransferSystem n)
    (outputs : List (Option KVConnectorOutput)) : Prop where
  length_eq : outputs.length = steps.length
  /-- A step releases the requests whose last pair of worker and sub-connector reports in it. -/
  sending : ∀ k (hk : k < steps.length) (hk' : k < outputs.length) r,
    r ∈ sendingOf outputs[k] ↔ SendCompletes (steps.take k) steps[k] r
  /-- A step reports the loads whose last worker reports in it. -/
  recving : ∀ k (hk : k < steps.length) (hk' : k < outputs.length) r,
    r ∈ recvingOf outputs[k] ↔ RecvCompletes (steps.take k) steps[k] r
  /-- A request that all pairs reported was released exactly once. -/
  sentOnce : ∀ r, Saved steps r → (∀ w i, 0 < saves steps i r → 0 < sentBy steps w i r) →
    (outputs.countP fun o => r ∈ sendingOf o) = 1
  /-- No other request is released, and none twice. -/
  sentOnly : ∀ r, (outputs.countP fun o => r ∈ sendingOf o) ≤ 1 ∧
    (¬ Saved steps r → (outputs.countP fun o => r ∈ sendingOf o) = 0)
  /-- The loads that all workers reported were told exactly once each. -/
  receivedOnce : ∀ r, (∀ w, received steps w r = loadsOf steps r) →
    (outputs.countP fun o => r ∈ recvingOf o) = loadsOf steps r
  receivedOnly : ∀ r, (outputs.countP fun o => r ∈ recvingOf o) ≤ loadsOf steps r
  /-- Once everything is reported no count is left. -/
  emptied : (∀ w i r, 0 < saves steps i r → 0 < sentBy steps w i r) →
    (∀ w r, received steps w r = loadsOf steps r) →
    s.scheduler.extraAsyncSaves.entries = [] ∧ (∀ w, (s.workers w).extraAsyncSaves.entries = []) ∧
      s.aggregator.sendRemainingCount.entries = [] ∧ s.aggregator.recvRemainingCount.entries = []

/-- Sub-connectors that all reported have reported as often as they save. -/
private theorem sentTotal_eq_savers {steps : List (TransferStep P n c)} {w : Fin n} {r : RequestId}
    (hle : ∀ i, sentBy steps w i r ≤ saves steps i r) (hone : finishes steps r ≤ 1)
    (hall : ∀ i, 0 < saves steps i r → 0 < sentBy steps w i r) :
    sentTotal steps w r = savers steps r := by
  refine Finset.sum_congr rfl fun i _ => ?_
  have h₁ := hle i
  have h₂ := hall i
  have h₃ := (saves_le_finishes steps i r).trans hone
  omega

/-- Several connectors and workers release a request exactly once: a run stops at no assertion,
and its outputs tell of each request at the last report and once. -/
theorem TransferSystem.released_once {outputRank : Nat} (hrank : outputRank < n)
    (steps : List (TransferStep P n c)) (hrules : Promised [] steps) :
    FailsOnly (· = TransferError.severalTransferParams)
      ((TransferSystem.init n).run outputRank steps) ∧
    ∀ s outputs, (TransferSystem.init n).run outputRank steps = .ok (s, outputs) →
      ReleasedOnce steps s outputs := by
  have hn : 0 < n := by omega
  refine ⟨?_, fun s outputs hrun => ?_⟩
  · exact releaseInvariant_init.failsOnly_run hrank hrules
  obtain ⟨hinv, hlength, hmem, hcount⟩ := releaseInvariant_init.run_ok hrank hrules hrun
  rw [List.nil_append] at hinv hcount
  have hzero (r : RequestId) :
      completeWorkers ([] : List (TransferStep P n c)) r / n = 0 ∧
        (∑ w, received ([] : List (TransferStep P n c)) w r) / n = 0 := by
    simp [completeWorkers, Complete, savers, saves, received]
  have hsent (r : RequestId) :
      (outputs.countP fun o => r ∈ sendingOf o) = completeWorkers steps r / n := by
    have := (hcount r).1
    rwa [(hzero r).1, Nat.add_zero] at this
  have hreceived (r : RequestId) :
      (outputs.countP fun o => r ∈ recvingOf o) = (∑ w, received steps w r) / n := by
    have := (hcount r).2
    rwa [(hzero r).2, Nat.add_zero] at this
  have hcomplete {r : RequestId} (hall : ∀ w i, 0 < saves steps i r → 0 < sentBy steps w i r)
      (w : Fin n) : sentTotal steps w r = savers steps r :=
    sentTotal_eq_savers (fun i => hinv.sentLe w i r) (hrules.finishes_le r) (hall w)
  refine ⟨hlength, fun k hk hk' r => (hmem k hk hk' r).1, fun k hk hk' r => (hmem k hk hk' r).2,
    fun r hsaved hall => ?_, fun r => ⟨?_, fun hnot => ?_⟩, fun r hall => ?_, fun r => ?_,
    fun hall hall' => ?_⟩
  · rw [hsent, (completeWorkers_eq_iff steps r).mpr fun w =>
      ⟨(savers_pos_iff steps r).mpr hsaved, hcomplete hall w⟩, Nat.div_self hn]
  · rw [hsent]
    exact (Nat.div_le_div_right (completeWorkers_le steps r)).trans (Nat.div_self hn).le
  · have hnone : completeWorkers steps r = 0 := by
      refine Finset.sum_eq_zero fun w _ => if_neg fun h => hnot ?_
      exact (savers_pos_iff steps r).mp h.1
    rw [hsent, hnone, Nat.zero_div]
  · rw [hreceived, Finset.sum_congr rfl fun w _ => hall w]
    simp [Nat.mul_div_cancel_left _ hn]
  · rw [hreceived]
    refine Nat.div_le_of_le_mul ?_
    calc ∑ w, received steps w r
      _ ≤ ∑ _w : Fin n, loadsOf steps r := Finset.sum_le_sum fun w _ => hinv.receivedLe w r
      _ = n * loadsOf steps r := by simp
  · refine ⟨?_, fun w => ?_, ?_, ?_⟩ <;> refine (Dict.entries_eq_nil_iff _).mpr fun r => ?_
    · exact hinv.shipped r
    · rw [hinv.workers w r, hcomplete (fun w i => hall w i r) w, if_neg (by omega)]
    · rw [hinv.sending r, if_pos]
      by_cases hpos : 0 < savers steps r
      · rw [(completeWorkers_eq_iff steps r).mpr fun w =>
          ⟨hpos, hcomplete (fun w i => hall w i r) w⟩, Nat.mod_self]
      · have hnone : completeWorkers steps r = 0 :=
          Finset.sum_eq_zero fun w _ => if_neg fun h => hpos h.1
        rw [hnone, Nat.zero_mod]
    · rw [hinv.recving r, if_pos]
      show (∑ w, received steps w r) % n = 0
      rw [Finset.sum_congr rfl fun w _ => hall' w r]
      simp

/-- A request that both sub-connectors save finishes, and a load starts; one sub-connector of the
first worker reports both at once. -/
def firstReport : TransferStep Unit 2 2 where
  finished := [(7, fun _ => { asyncSave := true })]
  loads := [9]
  reports := fun w i => if w = 0 ∧ i = 0 then { sending := some [7], recving := some [9] } else {}

/-- The other three pairs report the request, and the second worker the load. -/
def lastReports : TransferStep Unit 2 2 where
  reports := fun w i => if w = 0 ∧ i = 0 then {} else
    { sending := some [7], recving := if w = 1 ∧ i = 0 then some [9] else none }

/-- The two steps speak about two requests only. -/
theorem count_of_ne {r : RequestId} (h7 : r ≠ 7) (h9 : r ≠ 9) (w i : Fin 2) :
    ((firstReport.reports w i).sending.getD []).count r = 0 ∧
      ((firstReport.reports w i).recving.getD []).count r = 0 ∧
      ((lastReports.reports w i).sending.getD []).count r = 0 ∧
      ((lastReports.reports w i).recving.getD []).count r = 0 := by
  fin_cases w <;> fin_cases i <;> simp [firstReport, lastReports, Ne.symm h7, Ne.symm h9]

private theorem firstReport_rules : StepRules [] firstReport where
  finishes := fun r => by
    by_cases h7 : r = 7
    · subst h7
      decide
    · simp [finishes, firstReport, Ne.symm h7]
  sending := fun w i r => by
    by_cases h7 : r = 7
    · subst h7
      revert w i
      decide
    · by_cases h9 : r = 9
      · subst h9
        revert w i
        decide
      · simp [sentBy, count_of_ne h7 h9]
  loads := fun r hr => by
    obtain rfl : r = 9 := by simpa [firstReport] using hr
    decide
  recving := fun w r => by
    by_cases h7 : r = 7
    · subst h7
      revert w
      decide
    · by_cases h9 : r = 9
      · subst h9
        revert w
        decide
      · simp [received, count_of_ne h7 h9]

private theorem lastReports_rules : StepRules [firstReport] lastReports where
  finishes := fun r => by
    by_cases h7 : r = 7
    · subst h7
      decide
    · simp [finishes, firstReport, lastReports, Ne.symm h7]
  sending := fun w i r => by
    by_cases h7 : r = 7
    · subst h7
      revert w i
      decide
    · by_cases h9 : r = 9
      · subst h9
        revert w i
        decide
      · simp [sentBy, count_of_ne h7 h9]
  loads := fun r hr => absurd hr (by simp [lastReports])
  recving := fun w r => by
    by_cases h7 : r = 7
    · subst h7
      revert w
      decide
    · by_cases h9 : r = 9
      · subst h9
        revert w
        decide
      · simp [received, count_of_ne h7 h9]

private theorem twoSteps_promised : Promised [] [firstReport, lastReports] := by
  intro k hk
  have hcases : k = 0 ∨ k = 1 := by simp at hk; omega
  rcases hcases with rfl | rfl
  · exact firstReport_rules
  · exact lastReports_rules

/-- The request and the load are released in the second step only. -/
theorem twoSteps_released :
    ((TransferSystem.init 2).run 0 [firstReport, lastReports]).map
        (fun result => result.2.map fun o => (sendingOf o, recvingOf o)) =
      .ok [([], []), ([7], [9])] ∧
    FailsOnly (· = TransferError.severalTransferParams)
      ((TransferSystem.init 2).run 0 [firstReport, lastReports]) ∧
    ∀ s outputs, (TransferSystem.init 2).run 0 [firstReport, lastReports] = .ok (s, outputs) →
      ReleasedOnce [firstReport, lastReports] s outputs :=
  ⟨by decide, TransferSystem.released_once (by decide) _ twoSteps_promised⟩

end Vllm.Distributed
