import Vllm.Distributed.MultiConnector
import Vllm.Library.Countdown
import Mathlib.Algebra.BigOperators.Fin
import Mathlib.Algebra.Order.BigOperators.Group.Finset
import Mathlib.Data.List.FinRange

/-!
# What connectors and aggregator count

The history of a run is told by how often each request finished, was saved, loaded and
reported. The loops of the scheduler, the workers and the aggregator count down, so what one
call does to them is told by the counts it adds.
-/

namespace Vllm.Distributed

open Checked Countdown

variable {P : Type} {n c : Nat}

/-! ## What happened so far -/

/-- How often the requests of a list finished. -/
def finishes (steps : List (TransferStep P n c)) (r : RequestId) : Nat :=
  (steps.map fun a => (a.finished.map Prod.fst).count r).sum

/-- How often a sub-connector's `request_finished` returned `True` for a request of a list. -/
def savesIn (finished : List (RequestId × (Fin c → SaveOutcome P))) (i : Fin c) (r : RequestId) :
    Nat :=
  finished.countP fun f => f.1 = r ∧ (f.2 i).asyncSave = true

/-- How often a sub-connector's `request_finished` returned `True` for a request. -/
def saves (steps : List (TransferStep P n c)) (i : Fin c) (r : RequestId) : Nat :=
  (steps.map fun a => savesIn a.finished i r).sum

/-- The number of sub-connectors that save a request. -/
def savers (steps : List (TransferStep P n c)) (r : RequestId) : Nat := ∑ i, saves steps i r

/-- How often a worker's sub-connector reported a request as sent. -/
def sentBy (steps : List (TransferStep P n c)) (w : Fin n) (i : Fin c) (r : RequestId) : Nat :=
  (steps.map fun a => ((a.reports w i).sending.getD []).count r).sum

/-- How often a worker's sub-connectors reported a request as sent. -/
def sentTotal (steps : List (TransferStep P n c)) (w : Fin n) (r : RequestId) : Nat :=
  ∑ i, sentBy steps w i r

/-- How often a worker's sub-connectors reported a request as received. -/
def received (steps : List (TransferStep P n c)) (w : Fin n) (r : RequestId) : Nat :=
  (steps.map fun a => ∑ i, ((a.reports w i).recving.getD []).count r).sum

/-- How many asynchronous loads of a request started. -/
def loadsOf (steps : List (TransferStep P n c)) (r : RequestId) : Nat :=
  (steps.map fun a => a.loads.count r).sum

/-- All sub-connectors of a worker that save a request reported it. -/
abbrev Complete (steps : List (TransferStep P n c)) (w : Fin n) (r : RequestId) : Prop :=
  0 < savers steps r ∧ sentTotal steps w r = savers steps r

/-- The number of workers that are complete. -/
def completeWorkers (steps : List (TransferStep P n c)) (r : RequestId) : Nat :=
  ∑ w, if Complete steps w r then 1 else 0

/-- What the sub-connectors and the scheduler promise of a step behind others. -/
structure StepRules (past : List (TransferStep P n c)) (a : TransferStep P n c) : Prop where
  /-- A request finishes once. -/
  finishes : ∀ r, finishes (past ++ [a]) r ≤ 1
  /-- A sub-connector reports a request as sent at most once, if its `request_finished` returned
  `True` for it, and never else or before. -/
  sending : ∀ w i r, sentBy (past ++ [a]) w i r ≤ saves (past ++ [a]) i r
  /-- A load starts once every worker reported the one before. -/
  loads : ∀ r ∈ a.loads, a.loads.count r = 1 ∧ ∀ w, received past w r = loadsOf past r
  /-- A worker reports each load at most once. -/
  recving : ∀ w r, received (past ++ [a]) w r ≤ loadsOf (past ++ [a]) r

/-- The last pair of a worker and a sub-connector that saves the request reports it. -/
def SendCompletes (past : List (TransferStep P n c)) (a : TransferStep P n c) (r : RequestId) :
    Prop :=
  0 < savers (past ++ [a]) r ∧
    (∀ w i, 0 < saves (past ++ [a]) i r → 0 < sentBy (past ++ [a]) w i r) ∧
    ∃ w i, r ∈ (a.reports w i).sending.getD []

/-- The last worker reports the load of the request. -/
def RecvCompletes (past : List (TransferStep P n c)) (a : TransferStep P n c) (r : RequestId) :
    Prop :=
  (∀ w, received (past ++ [a]) w r = loadsOf (past ++ [a]) r) ∧
    ∃ w i, r ∈ (a.reports w i).recving.getD []

section Counts

variable (past : List (TransferStep P n c)) (a : TransferStep P n c) (w : Fin n) (i : Fin c)
  (r : RequestId)

theorem finishes_snoc :
    finishes (past ++ [a]) r = finishes past r + (a.finished.map Prod.fst).count r := by
  simp [finishes]

private theorem saves_snoc : saves (past ++ [a]) i r = saves past i r + savesIn a.finished i r := by
  simp [saves]

theorem savers_snoc :
    savers (past ++ [a]) r = savers past r + ∑ i, savesIn a.finished i r := by
  simp [savers, saves_snoc, Finset.sum_add_distrib]

private theorem sentBy_snoc : sentBy (past ++ [a]) w i r =
    sentBy past w i r + ((a.reports w i).sending.getD []).count r := by
  simp [sentBy]

theorem sentTotal_snoc : sentTotal (past ++ [a]) w r =
    sentTotal past w r + ∑ i, ((a.reports w i).sending.getD []).count r := by
  simp [sentTotal, sentBy_snoc, Finset.sum_add_distrib]

theorem received_snoc : received (past ++ [a]) w r =
    received past w r + ∑ i, ((a.reports w i).recving.getD []).count r := by
  simp [received]

theorem loadsOf_snoc : loadsOf (past ++ [a]) r = loadsOf past r + a.loads.count r := by
  simp [loadsOf]

/-- Only a request that finished is saved. -/
theorem savesIn_le (l : List (RequestId × (Fin c → SaveOutcome P))) :
    savesIn l i r ≤ (l.map Prod.fst).count r := by
  rw [savesIn, List.count, List.countP_map]
  refine List.countP_mono_left fun f _ hf => ?_
  obtain ⟨heq, _⟩ := of_decide_eq_true hf
  simp [heq]

theorem saves_le_finishes : saves past i r ≤ finishes past r := by
  refine List.sum_le_sum fun a _ => savesIn_le i r a.finished

end Counts

/-! ## The scheduler -/

/-- The number of sub-connectors that answer `True`. -/
def asyncSaves (outcomes : List (SaveOutcome P)) : Nat := outcomes.countP (·.asyncSave)

namespace MultiConnectorScheduler

/-- The loop of `request_finished` counts the sub-connectors that answer `True`. -/
private theorem foldlM_addOutcome {outcomes : List (SaveOutcome P)} {acc acc' : Nat × Option P}
    (h : outcomes.foldlM addOutcome acc = .ok acc') : acc'.1 = acc.1 + asyncSaves outcomes := by
  induction outcomes generalizing acc with
  | nil =>
    obtain rfl := pure_ok_iff.mp h
    simp [asyncSaves]
  | cons outcome outcomes ih =>
    rw [List.foldlM_cons, bind_ok_iff] at h
    obtain ⟨acc₁, hfirst, hrest⟩ := h
    have hone : acc₁.1 = if outcome.asyncSave then acc.1 + 1 else acc.1 := by
      obtain ⟨_, -, heq⟩ := bind_ok_iff.mp hfirst
      exact (congrArg Prod.fst (pure_ok_iff.mp heq)).symm
    rw [ih hrest, hone, asyncSaves, asyncSaves, List.countP_cons]
    split <;> omega

/-- `request_finished` returns whether some sub-connector saves, and notes the number of those
beyond the first. -/
theorem requestFinished_ok {s s' : MultiConnectorScheduler} {requestId : RequestId}
    {outcomes : List (SaveOutcome P)} {result : Bool × Option P}
    (h : s.requestFinished requestId outcomes = .ok (s', result)) :
    (result.1 = true ↔ 0 < asyncSaves outcomes) ∧ ∀ r, s'.extraAsyncSaves.get? r =
      if r = requestId ∧ 1 < asyncSaves outcomes then some (asyncSaves outcomes - 1)
      else s.extraAsyncSaves.get? r := by
  obtain ⟨acc, hacc, heq⟩ := bind_ok_iff.mp h
  have hcount := foldlM_addOutcome hacc
  rw [Nat.zero_add] at hcount
  obtain ⟨rfl, rfl⟩ := Prod.mk.inj (pure_ok_iff.mp heq)
  rw [← hcount]
  refine ⟨by simp, fun r => ?_⟩
  by_cases hlt : 1 < acc.1 <;> by_cases hr : r = requestId <;> simp [hlt, hr]

/-- Only two sets of parameters stop `request_finished`. -/
theorem failsOnly_requestFinished (s : MultiConnectorScheduler) (requestId : RequestId)
    (outcomes : List (SaveOutcome P)) :
    FailsOnly (· = TransferError.severalTransferParams) (s.requestFinished requestId outcomes) := by
  have hone (acc : Nat × Option P) (outcome : SaveOutcome P) :
      FailsOnly (· = TransferError.severalTransferParams) (addOutcome acc outcome) := by
    refine FailsOnly.bind ?_ fun _ _ => failsOnly_pure _
    unfold addParams
    split
    · exact failsOnly_ok _
    · refine FailsOnly.bind ?_ fun _ _ => failsOnly_pure _
      exact failsOnly_ensure fun _ => rfl
  have hall (l : List (SaveOutcome P)) (acc : Nat × Option P) :
      FailsOnly (· = TransferError.severalTransferParams) (l.foldlM addOutcome acc) := by
    induction l generalizing acc with
    | nil => exact failsOnly_pure _
    | cons outcome l ih =>
      rw [List.foldlM_cons]
      exact (hone acc outcome).bind fun acc' _ => ih acc'
  exact (hall outcomes _).bind fun _ _ => failsOnly_pure _

/-- The metadata takes all extra counts along. -/
theorem buildConnectorMeta_eq (s : MultiConnectorScheduler) :
    (∀ r, s.buildConnectorMeta.1.extraAsyncSaves.get? r = none) ∧
      ∀ r, (s.buildConnectorMeta.2.extraAsyncSaves.bind fun d => d.get? r) =
        s.extraAsyncSaves.get? r := by
  unfold buildConnectorMeta
  split
  · next h =>
    have hnone := (s.extraAsyncSaves.entries_eq_nil_iff).mp h
    exact ⟨hnone, fun r => by simp [hnone r]⟩
  · exact ⟨fun r => Dict.get?_empty r, fun r => rfl⟩

end MultiConnectorScheduler

/-! ## The workers -/

@[simp] theorem getD_orNone (l : List RequestId) : (orNone l).getD [] = l := by
  unfold orNone
  split
  · next h => rw [h, Option.getD_none]
  · rfl

namespace MultiConnectorWorker

/-- The extra counts behind `bind_connector_metadata`. -/
theorem get?_bindConnectorMetadata (w : MultiConnectorWorker)
    (connectorMetadata : MultiKVConnectorMetadata) (r : RequestId) :
    (w.bindConnectorMetadata connectorMetadata).extraAsyncSaves.get? r =
      (connectorMetadata.extraAsyncSaves.bind fun d => d.get? r).or (w.extraAsyncSaves.get? r) := by
  unfold bindConnectorMetadata
  split
  · next h => simp [h]
  · next extra h =>
    rw [h, Option.bind_some]
    split
    · next hnil => rw [extra.entries_eq_nil_iff.mp hnil r, Option.none_or]
    · exact Dict.get?_update ..

/-- The loop of `get_finished` over the sub-connectors is one over all requests they report. -/
theorem foldlM_addReport (reports : List FinishedReport)
    (acc : MultiConnectorWorker × List RequestId × List RequestId) :
    reports.foldlM addReport acc = (do
      let sent ← (reports.flatMap fun report => report.sending.getD []).foldlM addSending
        (acc.1, acc.2.1)
      pure (sent.1, sent.2,
        reports.foldl (fun l report => report.recving.getD [] ∪ l) acc.2.2)) := by
  induction reports generalizing acc with
  | nil => rfl
  | cons report reports ih =>
    simp only [List.foldlM_cons, List.flatMap_cons, List.foldlM_append, List.foldl_cons, addReport,
      bind_assoc, pure_bind, ih]

/-- The requests that a worker's sub-connectors report as received. -/
theorem mem_foldl_union (reports : List FinishedReport) (l : List RequestId) (r : RequestId) :
    (r ∈ reports.foldl (fun l report => report.recving.getD [] ∪ l) l ↔
      r ∈ l ∨ ∃ report ∈ reports, r ∈ report.recving.getD []) ∧
    (l.Nodup → (reports.foldl (fun l report => report.recving.getD [] ∪ l) l).Nodup) := by
  induction reports generalizing l with
  | nil => simp
  | cons report reports ih =>
    obtain ⟨hmem, hnodup⟩ := ih (report.recving.getD [] ∪ l)
    rw [List.foldl_cons, hmem, List.mem_union_iff]
    refine ⟨?_, fun hl => hnodup (hl.union _)⟩
    simp only [List.mem_cons, exists_eq_or_imp]
    tauto

/-- Reports of sent requests, none beyond those that are owed: a request counts as finished at
its last report. -/
theorem foldlM_addSending {need m : RequestId → Nat} {l : List RequestId}
    {acc : MultiConnectorWorker × List RequestId} (h : Owes need m acc.1.extraAsyncSaves)
    (hle : ∀ r, m r + l.count r ≤ need r) :
    ∃ acc', l.foldlM addSending acc = .ok acc' ∧
      Owes need (fun r => m r + l.count r) acc'.1.extraAsyncSaves ∧
      (∀ r, r ∈ acc'.2 ↔ r ∈ acc.2 ∨ m r < need r ∧ m r + l.count r = need r) ∧
      (acc.2.Nodup → acc'.2.Nodup) := by
  induction l generalizing m acc with
  | nil => exact ⟨acc, rfl, by simpa using h, fun r => by simp; omega, id⟩
  | cons a l ih =>
    have hcount := tick_add_count m a l
    have hrest (r : RequestId) : tick m a r + l.count r ≤ need r := by
      rw [congrFun hcount r]
      exact hle r
    have ha := hrest a
    rw [tick_self] at ha
    -- One report: the extra count of the request is drained, or the request is finished.
    have hone : ∃ acc₁, addSending acc a = .ok acc₁ ∧ Owes need (tick m a) acc₁.1.extraAsyncSaves ∧
        (∀ r, r ∈ acc₁.2 ↔ r ∈ acc.2 ∨ r = a ∧ need a ≤ m a + 1) ∧
        (acc.2.Nodup → acc₁.2.Nodup) := by
      unfold addSending
      cases hget : acc.1.extraAsyncSaves.get? a with
      | none =>
        have hlast := h.get?_eq_none_iff.mp hget
        exact ⟨_, rfl, h.tick_of_none hget, fun r => by simp [hlast, or_comm],
          fun hl => hl.insert⟩
      | some k =>
        have hearly : ¬ need a ≤ m a + 1 := by
          rw [← h.get?_eq_none_iff, hget]
          exact Option.some_ne_none k
        have hpos : ensure (0 < k) TransferError.noExtraPending = .ok () :=
          ensure_eq_ok.mpr (h.pos hget)
        simp only [hpos, bind, Except.bind]
        split
        · next hk =>
          subst hk
          exact ⟨_, rfl, h.tick_of_one hget, fun r => by simp [hearly], id⟩
        · next hk => exact ⟨_, rfl, h.tick_of_some hget hk, fun r => by simp [hearly], id⟩
    obtain ⟨acc₁, hfirst, howes, hmem₁, hnodup₁⟩ := hone
    obtain ⟨acc', hrun, howes', hmem', hnodup'⟩ := ih howes hrest
    refine ⟨acc', ?_, hcount ▸ howes', fun r => ?_, fun hl => hnodup' (hnodup₁ hl)⟩
    · rw [List.foldlM_cons, hfirst]
      exact hrun
    · have hr := congrFun hcount r
      rw [hmem', hmem₁, ← hr]
      by_cases heq : r = a
      · subst heq
        rw [tick_self]
        simp only [true_and, or_assoc]
        refine or_congr_right ?_
        omega
      · rw [tick_of_ne m heq]
        simp [heq]

/-- What `get_finished` returns, when no more reports come than are owed. -/
theorem getFinished_ok {need m : RequestId → Nat} {w : MultiConnectorWorker}
    {reports : List FinishedReport} (h : Owes need m w.extraAsyncSaves)
    (hle : ∀ r, m r + (reports.map fun p => (p.sending.getD []).count r).sum ≤ need r) :
    ∃ w' report, w.getFinished reports = .ok (w', report) ∧
      Owes need (fun r => m r + (reports.map fun p => (p.sending.getD []).count r).sum)
        w'.extraAsyncSaves ∧
      (∀ r, (report.sending.getD []).count r = if m r < need r ∧
        m r + (reports.map fun p => (p.sending.getD []).count r).sum = need r then 1 else 0) ∧
      ∀ r, (report.recving.getD []).count r =
        if ∃ p ∈ reports, r ∈ p.recving.getD [] then 1 else 0 := by
  have hsum (r : RequestId) : (reports.flatMap fun p => p.sending.getD []).count r =
      (reports.map fun p => (p.sending.getD []).count r).sum := List.count_flatMap
  simp only [← hsum] at hle ⊢
  obtain ⟨acc, hacc, howes, hmem, hnodup⟩ :=
    foldlM_addSending (show Owes need m (w, ([] : List RequestId)).1.extraAsyncSaves from h) hle
  have hrun : w.getFinished reports = .ok (acc.1, ⟨orNone acc.2,
      orNone (reports.foldl (fun l p => p.recving.getD [] ∪ l) [])⟩) := by
    unfold getFinished
    rw [foldlM_addReport, hacc]
    rfl
  refine ⟨acc.1, _, hrun, howes, fun r => ?_, fun r => ?_⟩
  · rw [getD_orNone, (hnodup List.nodup_nil).count]
    simp [hmem]
  · obtain ⟨hmem', hnodup'⟩ := mem_foldl_union reports [] r
    rw [getD_orNone, (hnodup' List.nodup_nil).count]
    simp [hmem']

end MultiConnectorWorker

/-! ## The aggregator -/

namespace KVOutputAggregator

/-- The loop of `aggregate` over outputs that leave the expected count as it is. -/
theorem foldlM_addOutput {outputs : List KVConnectorOutput}
    (h : ∀ o ∈ outputs, o.expectedFinishedCount = 0)
    (acc : KVOutputAggregator × List RequestId × List RequestId) :
    (outputs.map fun o => some (some o)).foldlM addOutput acc = .ok
      (⟨((outputs.flatMap fun o => o.finishedRecving.getD []).foldl
          (arrive acc.1.expectedFinishedCount) (acc.1.recvRemainingCount, acc.2.2)).1,
        ((outputs.flatMap fun o => o.finishedSending.getD []).foldl
          (arrive acc.1.expectedFinishedCount) (acc.1.sendRemainingCount, acc.2.1)).1,
        acc.1.expectedFinishedCount⟩,
       ((outputs.flatMap fun o => o.finishedSending.getD []).foldl
          (arrive acc.1.expectedFinishedCount) (acc.1.sendRemainingCount, acc.2.1)).2,
       ((outputs.flatMap fun o => o.finishedRecving.getD []).foldl
          (arrive acc.1.expectedFinishedCount) (acc.1.recvRemainingCount, acc.2.2)).2) := by
  induction outputs generalizing acc with
  | nil => rfl
  | cons o outputs ih =>
    have hzero : ¬ 0 < o.expectedFinishedCount := by rw [h o List.mem_cons_self]; omega
    have hone : addOutput acc (some (some o)) = .ok
        (⟨(updateFinishedSet acc.1.expectedFinishedCount o.finishedRecving
            (acc.1.recvRemainingCount, acc.2.2)).1,
          (updateFinishedSet acc.1.expectedFinishedCount o.finishedSending
            (acc.1.sendRemainingCount, acc.2.1)).1, acc.1.expectedFinishedCount⟩,
          (updateFinishedSet acc.1.expectedFinishedCount o.finishedSending
            (acc.1.sendRemainingCount, acc.2.1)).2,
          (updateFinishedSet acc.1.expectedFinishedCount o.finishedRecving
            (acc.1.recvRemainingCount, acc.2.2)).2) := by
      simp only [addOutput, hzero, if_false]
    rw [List.map_cons, List.foldlM_cons, hone]
    simp only [List.flatMap_cons, List.foldl_append]
    exact ih (fun o ho => h o (List.mem_cons_of_mem _ ho)) _

/-- What `aggregate` does to the counts, and which requests it returns. -/
theorem aggregate_ok {g : KVOutputAggregator} {outputs : List KVConnectorOutput} {outputRank : Nat}
    {sent received : RequestId → Nat} (h : ∀ o ∈ outputs, o.expectedFinishedCount = 0)
    (hrank : outputRank < outputs.length) (hpos : 0 < g.expectedFinishedCount)
    (hsent : Remaining g.expectedFinishedCount sent g.sendRemainingCount)
    (hreceived : Remaining g.expectedFinishedCount received g.recvRemainingCount) :
    ∃ g' output, g.aggregate (outputs.map fun o => some (some o)) outputRank =
        .ok (g', some output) ∧
      g'.expectedFinishedCount = g.expectedFinishedCount ∧
      Remaining g.expectedFinishedCount (fun r => sent r +
        (outputs.map fun o => (o.finishedSending.getD []).count r).sum) g'.sendRemainingCount ∧
      Remaining g.expectedFinishedCount (fun r => received r +
        (outputs.map fun o => (o.finishedRecving.getD []).count r).sum) g'.recvRemainingCount ∧
      (∀ r, r ∈ output.finishedSending.getD [] ↔
        sent r / g.expectedFinishedCount < (sent r +
          (outputs.map fun o => (o.finishedSending.getD []).count r).sum) /
            g.expectedFinishedCount) ∧
      ∀ r, r ∈ output.finishedRecving.getD [] ↔
        received r / g.expectedFinishedCount < (received r +
          (outputs.map fun o => (o.finishedRecving.getD []).count r).sum) /
            g.expectedFinishedCount := by
  obtain ⟨hcounts, hmem⟩ := hsent.foldl_arrive hpos []
    (outputs.flatMap fun o => o.finishedSending.getD [])
  obtain ⟨hcounts', hmem'⟩ := hreceived.foldl_arrive hpos []
    (outputs.flatMap fun o => o.finishedRecving.getD [])
  have hfold := foldlM_addOutput h (g, [], [])
  simp only [List.count_flatMap, Function.comp_def] at hcounts hmem hcounts' hmem'
  obtain ⟨s, hs⟩ : ∃ s, s = (outputs.flatMap fun o => o.finishedSending.getD []).foldl
    (arrive g.expectedFinishedCount) (g.sendRemainingCount, []) := ⟨_, rfl⟩
  obtain ⟨t, ht⟩ : ∃ t, t = (outputs.flatMap fun o => o.finishedRecving.getD []).foldl
    (arrive g.expectedFinishedCount) (g.recvRemainingCount, []) := ⟨_, rfl⟩
  rw [← hs] at hcounts hmem
  rw [← ht] at hcounts' hmem'
  simp only [← hs, ← ht] at hfold
  have hget : (outputs.map fun o => some (some o))[outputRank]? =
      some (some (some (outputs.get ⟨outputRank, hrank⟩))) := by
    simp [List.getElem?_eq_getElem hrank]
  have hrun : g.aggregate (outputs.map fun o => some (some o)) outputRank =
      .ok (⟨t.1, s.1, g.expectedFinishedCount⟩,
        some ⟨orNone s.2, orNone t.2, g.expectedFinishedCount⟩) := by
    unfold aggregate
    rw [hget]
    simp only [hfold, bind, Except.bind]
    rfl
  refine ⟨_, _, hrun, rfl, hcounts, hcounts', fun r => ?_, fun r => ?_⟩
  · rw [getD_orNone, hmem]
    simp
  · rw [getD_orNone, hmem']
    simp

end KVOutputAggregator

end Vllm.Distributed
