import Mathlib.Order.Defs.LinearOrder
import Mathlib.Order.Lattice
import Vllm.Library.WeakestMode
import Vllm.Worker.DataParallelBatch
import Vllm.Worker.DispatchKeys

/-!
# Data parallel ranks agree on how to run a step

Every rank first finds a mode and a size for its own batch. The ranks agree on the weakest
mode and, where they pad, on the largest size. A graph of that mode and size was captured for
the batch of every rank, so that the second dispatch finds it.
-/

namespace Vllm.Worker

open Checked AllReduce CudagraphDispatcher

/-- What the ranks of a step agree on, and what each of them keeps of its own batch. -/
structure Agreed (c : RunnerConfig) (batches : List LocalBatch) (results : List BatchExecution) :
    Prop where
  ranks : results.length = batches.length
  sameMode : ∀ r ∈ results, ∀ r' ∈ results, r.cudagraphMode = r'.cudagraphMode
  sameUbatch : ∀ r ∈ results, ∀ r' ∈ results, r.shouldUbatch = r'.shouldUbatch
  covers : ∀ e ∈ batches.zip results, e.1.numTokens ≤ e.2.batchDescriptor.numTokens
  /-- With other ranks, every rank holds the final counts of all of them. -/
  counts : 1 < batches.length → ∀ r ∈ results,
    r.numTokensAcrossDp = some (results.map (·.batchDescriptor.numTokens))
  padded : ∀ r ∈ results, r.cudagraphMode ≠ .none ∨ r.shouldUbatch = true →
    ∀ r' ∈ results, r'.batchDescriptor.numTokens = r.batchDescriptor.numTokens
  excluded : ∀ e ∈ batches.zip results, e.1.disableFull c = true → e.2.cudagraphMode ≠ .full

/-! ## Modes -/

theorem RuntimeMode.value_injective : Function.Injective RuntimeMode.value := by
  intro m m' h
  cases m <;> cases m' <;> first | rfl | cases h

/-- Modes are ordered as their values are. -/
instance : LinearOrder RuntimeMode :=
  LinearOrder.lift' RuntimeMode.value RuntimeMode.value_injective

theorem RuntimeMode.le_iff {m m' : RuntimeMode} : m ≤ m' ↔ m.value ≤ m'.value := Iff.rfl

theorem RuntimeMode.ofValue_value (m : RuntimeMode) : RuntimeMode.ofValue m.value = some m := by
  cases m <;> rfl

/-- Batches can exchange modes and sizes. -/
theorem runs_exchangeable (d : CudagraphDispatcher) (sizes : List Nat)
    (uniform hasLora : LocalBatch → Bool) (k : LocalBatch → Nat) :
    WeakestMode.Exchangeable fun b => Runs d sizes (uniform b) (hasLora b) (k b) where
  weaken {b b' m m' p p'} h h' hle := by
    cases m with
    | none => trivial
    | piecewise =>
      cases m' with
      | none => exact absurd (RuntimeMode.le_iff.mp hle) (by decide)
      | piecewise => exact h'
      | full => exact ⟨⟨h.1.1, h'.1⟩, h'.mem_sizes (by decide)⟩
    | full =>
      cases m' with
      | none => exact absurd (RuntimeMode.le_iff.mp hle) (by decide)
      | piecewise => exact absurd (RuntimeMode.le_iff.mp hle) (by decide)
      | full => exact h'
  resize {b b' m p p'} h h' := by
    cases m with
    | none => trivial
    | piecewise => exact ⟨h.1, h'.2⟩
    | full =>
      refine ⟨h.1, ?_⟩
      rcases h.2 with ⟨hmode, -⟩ | ⟨hmode, huniform, -⟩
      · exact .inl ⟨hmode, h'.mem_sizes (by decide)⟩
      · rcases h'.2 with ⟨hfull, -⟩ | ⟨-, -, hp'⟩
        · cases hd : d.cudagraphMode <;> simp_all [CUDAGraphMode.mixedMode,
            CUDAGraphMode.separateRoutine]
        · exact .inr ⟨hmode, huniform, hp'⟩

/-! ## The first dispatch -/

/-- A batch that a rank can be given: it has tokens, and active adapters only where adapters are
configured. -/
structure LocalBatch.Valid (d : CudagraphDispatcher) (b : LocalBatch) : Prop where
  tokens : 1 ≤ b.numTokens
  lora : b.hasLora = true → 0 < b.numActiveLoras → d.config.loraConfig ≠ none

/-- What the first dispatch of a rank picks. -/
structure LocalChoice (c : RunnerConfig) (d : CudagraphDispatcher) (sizes : List Nat)
    (k : Nat) (b : LocalBatch) (picked : RuntimeMode × BatchDescriptor) : Prop where
  covers : b.numTokens ≤ picked.2.numTokens
  runs : Runs d sizes (b.uniformDecode d.config.uniformDecodeQueryLen) b.hasLora k picked.1
    picked.2.numTokens
  excluded : b.disableFull c = true → picked.1 ≠ .full
  eager : b.forceEager = true → picked.1 = .none

/-- The modes that the first dispatch allows. -/
private theorem mem_allowedModes_local (eager exclude : Bool) :
    .none ∈ allowedModes (if eager then [.none] else []) (if exclude then [.full] else []) ∧
      ∀ m ∈ allowedModes (if eager then [.none] else []) (if exclude then [.full] else []),
        (exclude = true → m ≠ .full) ∧ (eager = true → m = .none) := by
  cases eager <;> cases exclude <;> decide

/-- The first dispatch of a rank succeeds. -/
theorem dispatchLocally_eq_ok {c : RunnerConfig} {d : CudagraphDispatcher} {sizes : List Nat}
    (hsp : c.enableSp = false) (hd : Started sizes d) {b : LocalBatch} (hb : b.Valid d) {k : Nat}
    (hk : d.effectiveNumActiveLoras b.hasLora b.numActiveLoras = .ok k) :
    ∃ picked, dispatchLocally c d b = .ok picked ∧ LocalChoice c d sizes k b picked := by
  have hpad : padForSequenceParallelism c b.numTokens = b.numTokens := by
    rw [padForSequenceParallelism, hsp, if_neg (by simp)]
  obtain ⟨hnone, hmodes⟩ := mem_allowedModes_local b.forceEager (b.disableFull c)
  obtain ⟨m, desc, hdispatch, hm, hcovers, hruns⟩ := hd.dispatch_local hb.tokens hk hnone
  refine ⟨(m, desc), ?_, hcovers, hruns, (hmodes m hm).1, (hmodes m hm).2⟩
  rw [dispatchLocally, hpad, dispatchCudagraph, hdispatch]
  simp only [Except.mapError, hsp, Bool.false_eq_true, false_implies, ensure, if_true]
  rfl

/-! ## The agreement -/

section Sync

variable {c : RunnerConfig} {d : CudagraphDispatcher} {sizes : List Nat}

/-- Every row of the tensor lists the entries of all ranks. -/
theorem reduceRow_eq (entries : List SyncEntry) (value : SyncEntry → Nat) :
    reduceRow entries value = entries.map value := by
  have hlength : entries.length = (entries.map value).length := (List.length_map ..).symm
  rw [reduceRow, hlength, allReduce_contributions]

private theorem runAr_cudagraphMode (entries : List SyncEntry) :
    (runAr entries).cudagraphMode = entries.map fun e => e.cudagraphMode.value :=
  reduceRow_eq entries _

private theorem runAr_paddedNumTokens (entries : List SyncEntry) :
    (runAr entries).paddedNumTokens = entries.map SyncEntry.paddedNumTokens :=
  reduceRow_eq entries _

/-- The agreed mode is the weakest. -/
theorem exists_weakest {entries : List SyncEntry} (hne : entries ≠ []) : ∃ w ∈ entries,
    (runAr entries).postProcessCudagraphMode = w.cudagraphMode.value ∧
      ∀ e ∈ entries, w.cudagraphMode ≤ e.cudagraphMode := by
  obtain ⟨w, hw, hmin, hle⟩ := WeakestMode.exists_min? hne fun e => e.cudagraphMode.value
  refine ⟨w, hw, ?_, hle⟩
  rw [SyncTensor.postProcessCudagraphMode, runAr_cudagraphMode, hmin, Option.getD_some]

/-- With padding, every rank has the largest count, and otherwise its own. -/
theorem exists_count {entries : List SyncEntry} (hne : entries ≠ []) (shouldDpPad : Bool) :
    ∃ count : SyncEntry → Nat,
      (runAr entries).postProcessDpPadding shouldDpPad = entries.map count ∧
      (∀ e ∈ entries, e.paddedNumTokens ≤ count e) ∧
      if shouldDpPad then ∃ chosen ∈ entries, ∀ e, count e = chosen.paddedNumTokens
      else ∀ e, count e = e.paddedNumTokens := by
  cases shouldDpPad with
  | false =>
    refine ⟨SyncEntry.paddedNumTokens, ?_, fun e _ => le_rfl, fun e => rfl⟩
    exact runAr_paddedNumTokens entries
  | true =>
    obtain ⟨chosen, hchosen, hmax, hle⟩ := WeakestMode.exists_max? hne SyncEntry.paddedNumTokens
    refine ⟨fun _ => chosen.paddedNumTokens, ?_, hle, chosen, hchosen, fun e => rfl⟩
    rw [SyncTensor.postProcessDpPadding, if_pos rfl, runAr_paddedNumTokens, hmax,
      Option.getD_some, List.length_map, List.map_const']

/-- The second dispatch of a rank succeeds with the agreed mode, at the rank's count. -/
theorem redispatch_eq_ok (hd : Started sizes d) {b : LocalBatch} {k : Nat}
    (hk : d.effectiveNumActiveLoras b.hasLora b.numActiveLoras = .ok k) {agreed : Coordination}
    {dpRank n : Nat} {m : RuntimeMode} (hcount : agreed.numTokensAfterPadding[dpRank]? = some n)
    (hm : agreed.syncedCudagraphMode = m.value) (heager : b.forceEager = true → m = .none)
    (hruns : Runs d sizes (b.uniformDecode d.config.uniformDecodeQueryLen) b.hasLora k m n) :
    ∃ result, redispatch d agreed b dpRank = .ok result ∧ result.cudagraphMode = m ∧
      result.batchDescriptor.numTokens = n ∧ result.shouldUbatch = agreed.shouldUbatch ∧
      result.numTokensAcrossDp = some agreed.numTokensAfterPadding := by
  have hvalid : (if b.forceEager then [RuntimeMode.none] else [m]) = [m] := by
    split
    · rename_i h
      rw [heager h]
    · rfl
  obtain ⟨desc, hdispatch, hdesc⟩ := hd.dispatch_synced hk hruns
  refine ⟨⟨m, desc, agreed.shouldUbatch, some agreed.numTokensAfterPadding⟩, ?_, rfl, hdesc, rfl,
    rfl⟩
  have hsecond : dispatchCudagraph d b n false [m] = .ok (m, desc) := by
    simp only [dispatchCudagraph, hvalid, Bool.false_eq_true, if_false, hdispatch, Except.mapError]
  simp only [redispatch, hcount, hm, RuntimeMode.ofValue_value, hsecond, ensure, hdesc, if_true,
    bind, Except.bind, pure, Except.pure]

/-- The entry of a rank in the tensor. -/
def entryOf (c : RunnerConfig) (d : CudagraphDispatcher) (b : LocalBatch)
    (picked : RuntimeMode × BatchDescriptor) : SyncEntry where
  origNumTokens := b.numTokens
  paddedNumTokens := picked.2.numTokens
  shouldUbatch := b.allowMicrobatching && checkUbatchThresholds c b.numTokens
    (b.uniformDecode d.config.uniformDecodeQueryLen)
  cudagraphMode := picked.1

/-- What the ranks agree on, from what each of them picked: the weakest mode, and a count for
each rank at which it runs in that mode. -/
theorem exists_agreement {batches : List LocalBatch} (hne : batches ≠ [])
    {picked : LocalBatch → RuntimeMode × BatchDescriptor} {k : LocalBatch → Nat}
    (hpicked : ∀ b ∈ batches, LocalChoice c d sizes (k b) b (picked b)) :
    ∃ (m : RuntimeMode) (ubatch : Bool) (count : LocalBatch → Nat),
      synchronizeDpRanks c (runAr (batches.map fun b => entryOf c d b (picked b))) =
        ⟨ubatch, batches.map count, m.value⟩ ∧
      (∀ b ∈ batches, m ≤ (picked b).1) ∧ (∀ b ∈ batches, b.numTokens ≤ count b) ∧
      (∀ b ∈ batches, Runs d sizes (b.uniformDecode d.config.uniformDecodeQueryLen) b.hasLora
        (k b) m (count b)) ∧
      (m ≠ .none ∨ ubatch = true → ∀ b b', count b = count b') := by
  have hentries : (batches.map fun b => entryOf c d b (picked b)) ≠ [] := by simpa using hne
  obtain ⟨w, hw, hmode, hle⟩ := exists_weakest hentries
  obtain ⟨weakest, hweakest, rfl⟩ := List.mem_map.mp hw
  have hleast : ∀ b ∈ batches, (picked weakest).1 ≤ (picked b).1 := fun b hb =>
    hle _ (List.mem_map_of_mem hb)
  generalize hshould : (runAr (batches.map fun b => entryOf c d b (picked b))).postProcessUbatch
    c.numUbatches = ubatch
  obtain ⟨count, hcounts, hcovers, hchosen⟩ :=
    exists_count hentries (decide ((picked weakest).1.value ≠ 0) || ubatch)
  have hcovered : ∀ b ∈ batches, b.numTokens ≤ count (entryOf c d b (picked b)) := fun b hb =>
    (hpicked b hb).covers.trans (hcovers _ (List.mem_map_of_mem hb))
  refine ⟨(picked weakest).1, ubatch, fun b => count (entryOf c d b (picked b)), ?_, hleast,
    hcovered, fun b hb => ?_, fun hagreed b b' => ?_⟩
  · rw [synchronizeDpRanks, hshould, hmode]
    congr 1
    refine hcounts.trans ?_
    rw [List.map_map]
    rfl
  · split at hchosen
    · obtain ⟨e, he, hcount⟩ := hchosen
      obtain ⟨chosen, hmem, rfl⟩ := List.mem_map.mp he
      simp only [hcount]
      exact (runs_exchangeable d sizes _ LocalBatch.hasLora k).agreed
        (fun b hb => (hpicked b hb).runs) hweakest hleast hmem hb
    · rename_i hpad
      have hnone : (picked weakest).1 = .none := by
        cases hm : (picked weakest).1 <;> simp_all [RuntimeMode.value]
      rw [hnone]
      trivial
  · have hpad : (decide ((picked weakest).1.value ≠ 0) || ubatch) = true := by
      rcases hagreed with hm | hu
      · cases hm' : (picked weakest).1 <;> simp_all [RuntimeMode.value]
      · rw [hu, Bool.or_true]
    rw [if_pos hpad] at hchosen
    obtain ⟨e, -, hcount⟩ := hchosen
    simp only [hcount]

/-- A rank whose padded count covers its tokens sends its entry. -/
theorem syncEntry_eq_ok {b : LocalBatch} {picked : RuntimeMode × BatchDescriptor}
    (h : b.numTokens ≤ picked.2.numTokens) :
    syncEntry c d b picked = .ok (entryOf c d b picked) := by
  simp only [syncEntry, ensure, if_pos h]
  rfl

/-- A mode that is not stronger than the one that a rank picked is not one that it excluded. -/
theorem LocalChoice.excluded_of_le {k : Nat} {b : LocalBatch}
    {picked : RuntimeMode × BatchDescriptor} (h : LocalChoice c d sizes k b picked)
    {m : RuntimeMode} (hle : m ≤ picked.1) :
    (b.disableFull c = true → m ≠ .full) ∧ (b.forceEager = true → m = .none) := by
  have hvalue := RuntimeMode.le_iff.mp hle
  refine ⟨fun hexcluded hfull => ?_, fun heager => ?_⟩
  · have hpicked := h.excluded hexcluded
    rw [hfull] at hvalue
    cases hp : picked.1 with
    | none => exact absurd hvalue (by rw [hp]; decide)
    | piecewise => exact absurd hvalue (by rw [hp]; decide)
    | full => exact hpicked hp
  · rw [h.eager heager] at hvalue
    cases m with
    | none => rfl
    | piecewise => exact absurd hvalue (by decide)
    | full => exact absurd hvalue (by decide)

/-- Results that all carry the agreed mode and the counts of all ranks. -/
theorem agreed_of_results {batches : List LocalBatch} {result : LocalBatch × Nat → BatchExecution}
    {m : RuntimeMode} {ubatch : Bool} {count : LocalBatch → Nat}
    (hresult : ∀ e ∈ batches.zipIdx, (result e).cudagraphMode = m ∧
      (result e).batchDescriptor.numTokens = count e.1 ∧ (result e).shouldUbatch = ubatch ∧
      (result e).numTokensAcrossDp = some (batches.map count))
    (hcovers : ∀ b ∈ batches, b.numTokens ≤ count b)
    (hsame : m ≠ .none ∨ ubatch = true → ∀ b b', count b = count b')
    (hexcluded : ∀ b ∈ batches, b.disableFull c = true → m ≠ .full) :
    Agreed c batches (batches.zipIdx.map result) := by
  have hall : ∀ r ∈ batches.zipIdx.map result, ∃ b, r.cudagraphMode = m ∧
      r.batchDescriptor.numTokens = count b ∧ r.shouldUbatch = ubatch ∧
      r.numTokensAcrossDp = some (batches.map count) := by
    intro r hr
    obtain ⟨e, he, rfl⟩ := List.mem_map.mp hr
    exact ⟨e.1, hresult e he⟩
  have hzip : batches.zip (batches.zipIdx.map result) =
      batches.zipIdx.map fun e => (e.1, result e) := by
    calc batches.zip (batches.zipIdx.map result)
        = (batches.zipIdx.map Prod.fst).zip (batches.zipIdx.map result) := by
          rw [List.zipIdx_map_fst]
      _ = batches.zipIdx.map fun e => (e.1, result e) := List.zip_map'
  have hpair : ∀ e ∈ batches.zip (batches.zipIdx.map result), e.1 ∈ batches ∧
      e.2.cudagraphMode = m ∧ e.2.batchDescriptor.numTokens = count e.1 := by
    intro e he
    rw [hzip] at he
    obtain ⟨e', he', rfl⟩ := List.mem_map.mp he
    exact ⟨List.fst_mem_of_mem_zipIdx he', (hresult e' he').1, (hresult e' he').2.1⟩
  constructor
  · simp
  · intro r hr r' hr'
    obtain ⟨-, hm, -⟩ := hall r hr
    obtain ⟨-, hm', -⟩ := hall r' hr'
    rw [hm, hm']
  · intro r hr r' hr'
    obtain ⟨-, -, -, hu, -⟩ := hall r hr
    obtain ⟨-, -, -, hu', -⟩ := hall r' hr'
    rw [hu, hu']
  · intro e he
    obtain ⟨hb, -, hcount⟩ := hpair e he
    exact (hcovers e.1 hb).trans hcount.ge
  · intro _ r hr
    obtain ⟨-, -, -, -, hacross⟩ := hall r hr
    rw [hacross, List.map_map]
    conv_lhs => rw [← List.zipIdx_map_fst 0 batches]
    rw [List.map_map]
    exact congrArg some (List.map_congr_left fun e he => (hresult e he).2.1.symm)
  · intro r hr hagreed r' hr'
    obtain ⟨b, hm, hn, hu, -⟩ := hall r hr
    obtain ⟨b', -, hn', -, -⟩ := hall r' hr'
    rw [hm, hu] at hagreed
    rw [hn, hn', hsame hagreed b' b]
  · intro e he hdisable
    obtain ⟨hb, hm, -⟩ := hpair e he
    rw [hm]
    exact hexcluded e.1 hb hdisable

/-- The dispatcher of a runner, before and after its keys are initialized. -/
private theorem started_of_initialized {dc : DispatchConfig} {mode : CUDAGraphMode}
    (hsizes : mode ≠ .none → CaptureSizes dc sizes)
    (hmultiple : mode.separateRoutine = true → ∀ bs ∈ sizes, bs % dc.uniformDecodeQueryLen = 0)
    (hd : d = new dc ∨ (new dc).initializeCudagraphKeys mode dc.uniformDecodeQueryLen = .ok d) :
    Started sizes d := by
  rcases hd with rfl | hd
  · exact .inl rfl
  · by_cases henabled : mode = .none
    · rw [initializeCudagraphKeys, if_pos henabled] at hd
      obtain rfl := Except.ok.inj hd
      exact .inl henabled
    · exact .inr (initializeCudagraphKeys_ready (hsizes henabled) hmultiple henabled hd).2

/-- The ranks of one step agree on the mode, on microbatching and on all token counts, and no
rank fails. -/
theorem determineBatchExecutionAndPadding_agreed {dc : DispatchConfig} {mode : CUDAGraphMode}
    (hsp : c.enableSp = false)
    (hsizes : mode ≠ .none → CaptureSizes dc sizes)
    (hmultiple : mode.separateRoutine = true → ∀ bs ∈ sizes, bs % dc.uniformDecodeQueryLen = 0)
    (hd : d = new dc ∨ (new dc).initializeCudagraphKeys mode dc.uniformDecodeQueryLen = .ok d)
    {batches : List LocalBatch} (hbatches : ∀ b ∈ batches, b.Valid d) :
    ∃ results, determineBatchExecutionAndPadding c d batches = .ok results ∧
      Agreed c batches results := by
  have hstarted : Started sizes d := started_of_initialized hsizes hmultiple hd
  have hlora : ∀ b : LocalBatch, ∃ k, b.Valid d →
      d.effectiveNumActiveLoras b.hasLora b.numActiveLoras = .ok k := by
    intro b
    by_cases hb : b.Valid d
    · obtain ⟨k, hk⟩ := d.effectiveNumActiveLoras_ok hb.lora
      exact ⟨k, fun _ => hk⟩
    · exact ⟨0, fun hb' => absurd hb' hb⟩
  obtain ⟨k, hk⟩ := Classical.skolem.mp hlora
  have : Nonempty (RuntimeMode × BatchDescriptor) := ⟨(.none, ⟨0, none, false, false, 0⟩)⟩
  have : Nonempty BatchExecution := ⟨⟨.none, ⟨0, none, false, false, 0⟩, false, none⟩⟩
  obtain ⟨picked, hlocal, hpicked⟩ := exists_mapM_eq_ok fun b hb =>
    dispatchLocally_eq_ok hsp hstarted (hbatches b hb) (hk b (hbatches b hb))
  by_cases hranks : 1 < batches.length
  · have hne : batches ≠ [] := List.ne_nil_of_length_pos (by omega)
    obtain ⟨m, ubatch, count, hsync, hweakest, hcovers, hruns, hsame⟩ :=
      exists_agreement hne hpicked
    have hkeeps : ∀ b ∈ batches, (b.disableFull c = true → m ≠ .full) ∧
        (b.forceEager = true → m = .none) := fun b hb =>
      (hpicked b hb).excluded_of_le (hweakest b hb)
    have hentries : (batches.zip (batches.map picked)).mapM (fun e => syncEntry c d e.1 e.2) =
        .ok (batches.map fun b => entryOf c d b (picked b)) := by
      rw [← List.map_prod_left_eq_zip, List.mapM_map]
      exact mapM_eq_ok_map fun b hb => syncEntry_eq_ok (hpicked b hb).covers
    have hsecond : ∀ e ∈ batches.zipIdx, ∃ result,
        redispatch d ⟨ubatch, batches.map count, m.value⟩ e.1 e.2 = .ok result ∧
          result.cudagraphMode = m ∧ result.batchDescriptor.numTokens = count e.1 ∧
          result.shouldUbatch = ubatch ∧
          result.numTokensAcrossDp = some (batches.map count) := by
      rintro ⟨b, i⟩ he
      have hi : batches[i]? = some b := List.mk_mem_zipIdx_iff_getElem?.mp he
      have hb : b ∈ batches := List.mem_of_getElem? hi
      refine redispatch_eq_ok hstarted (hk b (hbatches b hb)) ?_ rfl (hkeeps b hb).2 (hruns b hb)
      rw [List.getElem?_map, hi, Option.map_some]
    obtain ⟨result, hresults, hresult⟩ := exists_mapM_eq_ok hsecond
    refine ⟨batches.zipIdx.map result, ?_,
      agreed_of_results hresult hcovers hsame fun b hb => (hkeeps b hb).1⟩
    simp only [determineBatchExecutionAndPadding, hlocal, if_pos hranks, hentries, hsync,
      hresults, bind, Except.bind]
  · -- a single rank keeps what it picked
    refine ⟨(batches.map picked).map fun e => ⟨e.1, e.2, false, none⟩, ?_, ?_⟩
    · simp only [determineBatchExecutionAndPadding, hlocal, if_neg hranks, bind, Except.bind]
      rfl
    · rcases batches with _ | ⟨b, _ | ⟨b', rest⟩⟩
      · constructor <;> simp
      · have hb := hpicked b List.mem_cons_self
        constructor <;> simp [hb.covers]
        exact hb.excluded
      · exact absurd (by simp) hranks

end Sync

/-- Three capture sizes, with graphs of their own for decodes. -/
def smallDispatch : DispatchConfig where
  cudagraphCaptureSizes := some [1, 2, 4]
  maxCudagraphCaptureSize := 4
  compileSizes := []
  cudagraphSpecializeLora := false
  loraConfig := none
  maxNumSeqs := 4
  numSpeculativeTokens := 0

def smallRunner : RunnerConfig where
  isEncoderDecoder := false
  enableDbo := false
  ubatchSize := 0
  dboDecodeTokenThreshold := 32
  dboPrefillTokenThreshold := 512
  enableSp := false
  tensorParallelSize := 1

/-- A decode that would run in a full graph, beside a prefill with cascade attention. -/
def decodeAndPrefill : List LocalBatch :=
  [{ numTokens := 2, numReqs := 2, maxNumScheduledTokens := 1 },
    { numTokens := 3, numReqs := 1, maxNumScheduledTokens := 3, useCascadeAttn := true }]

theorem determineBatchExecutionAndPadding_agreed_decodeAndPrefill : ∃ d results,
    (new smallDispatch).initializeCudagraphKeys .fullAndPiecewise 1 = .ok d ∧
      determineBatchExecutionAndPadding smallRunner d decodeAndPrefill = .ok results ∧
      Agreed smallRunner decodeAndPrefill results ∧
      results.map (fun r => (r.cudagraphMode, r.batchDescriptor.numTokens)) =
        [(.piecewise, 4), (.piecewise, 4)] := by
  have hsizes : CaptureSizes smallDispatch [1, 2, 4] := ⟨rfl, by decide, rfl⟩
  obtain ⟨d, hd, hconfig, hmodes⟩ : ∃ d,
      (new smallDispatch).initializeCudagraphKeys .fullAndPiecewise 1 = .ok d ∧
        d.config.loraConfig = none ∧
        (determineBatchExecutionAndPadding smallRunner d decodeAndPrefill).map
            (fun results => results.map fun r =>
              (r.cudagraphMode, r.batchDescriptor.numTokens)) =
          .ok [(.piecewise, 4), (.piecewise, 4)] := ⟨_, rfl, rfl, rfl⟩
  have hbatches : ∀ b ∈ decodeAndPrefill, b.Valid d := by
    intro b hb
    rcases List.mem_cons.mp hb with rfl | hb
    · exact ⟨by decide, fun h => absurd h (by decide)⟩
    · obtain rfl := List.mem_singleton.mp hb
      exact ⟨by decide, fun h => absurd h (by decide)⟩
  obtain ⟨results, hrun, hagreed⟩ := determineBatchExecutionAndPadding_agreed
    (c := smallRunner) rfl (fun _ => hsizes)
    (fun _ => by decide) (.inr hd) hbatches
  refine ⟨d, results, hd, hrun, hagreed, ?_⟩
  rw [hrun] at hmodes
  exact Except.ok.inj hmodes

end Vllm.Worker
