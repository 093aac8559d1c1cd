import Vllm.Core.KVCacheMemory

/-!
# Fitting the maximum length to the memory

With `original_max_model_len = -1` the maximum length is reduced to the largest one that
every worker has the memory for, found by a search on the shared configuration that is
restored after each worker. The memory check that follows then passes for every worker, and
would not for any greater length.
-/

namespace Vllm.Sizing

open Checked Bisection FallibleState

/-- Computations that may overwrite the shared configuration and may raise. -/
abbrev SizingM := ExceptT SizingError (StateM VllmConfig)

/-- Whether a request of the given length fits, with the length left in the configuration. -/
def fits (kvCacheGroups : List KVCacheGroupSpec) (availableMemory : Int) (modelLen : Int) :
    SizingM Bool := do
  modify fun config => config.withMaxModelLen modelLen
  let needed ← maxMemoryUsageBytesFromGroups (← get) kvCacheGroups
  pure (decide (needed ≤ availableMemory))

/-- `try … finally`, which puts back the maximum length found on entry. -/
def restoringMaxModelLen {α : Type} (body : SizingM α) : SizingM α := fun config =>
  ((body.run config).1, (body.run config).2.withMaxModelLen config.maxModelLen)

/-- `_estimate_max_model_len_from_groups`. -/
def estimateMaxModelLenFromGroups (kvCacheGroups : List KVCacheGroupSpec)
    (availableMemory : Int) : SizingM Int := restoringMaxModelLen do
  let originalMax := (← get).maxModelLen
  if ← fits kvCacheGroups availableMemory 1 then
    searchM (fits kvCacheGroups availableMemory) 1 originalMax 1
  else
    pure 0

/-- The smaller of the length found so far and what one worker has the memory for. -/
def fitWorker (autoFitMax : Int) (worker : List KVCacheGroupSpec × Int) : SizingM Int :=
  if worker.1 = [] then
    pure autoFitMax
  else do
    let workerMax ← estimateMaxModelLenFromGroups worker.1 worker.2
    pure (if workerMax < autoFitMax then workerMax else autoFitMax)

/-- `_auto_fit_max_model_len`. -/
def autoFitMaxModelLen (groupsPerWorker : List (List KVCacheGroupSpec))
    (availableMemory : List Int) : SizingM Unit := do
  let originalMax := (← get).maxModelLen
  if ∀ groups ∈ groupsPerWorker, groups = [] then
    pure ()
  else if availableMemory = [] then
    throw .indexError
  else do
    let autoFitMax ← (groupsPerWorker.zip availableMemory).foldlM fitWorker originalMax
    if autoFitMax ≤ 0 then
      throw .cannotAutoFit
    else if originalMax ≤ autoFitMax then
      pure ()
    else
      modify fun config => config.withMaxModelLen autoFitMax

/-- `_check_enough_kv_cache_memory`. -/
def checkEnoughKVCacheMemory (availableMemory : Int) (kvCacheGroups : List KVCacheGroupSpec) :
    SizingM Unit :=
  if availableMemory ≤ 0 then
    throw .noAvailableMemory
  else do
    let needed ← maxMemoryUsageBytesFromGroups (← get) kvCacheGroups
    if availableMemory < needed then do
      let estimated ← estimateMaxModelLenFromGroups kvCacheGroups availableMemory
      throw (.notEnoughMemory (← get).maxModelLen needed availableMemory estimated)
    else
      pure ()

/-- The memory check of one worker; a worker without groups is passed over. -/
def checkWorker (worker : List KVCacheGroupSpec × Int) : SizingM Unit :=
  if worker.1 = [] then pure () else checkEnoughKVCacheMemory worker.2 worker.1

/-- The memory check of `get_kv_cache_configs`, worker by worker. -/
def checkWorkers (groupsPerWorker : List (List KVCacheGroupSpec))
    (availableMemory : List Int) : SizingM Unit :=
  forM (groupsPerWorker.zip availableMemory) checkWorker

/-- `group_spec.kv_cache_specs[layer_name]`. -/
def layerSpec (kvCacheSpecs : List (String × KVCacheSpec)) (layerName : String) :
    Except SizingError (String × KVCacheSpec) :=
  match kvCacheSpecs.lookup layerName with
  | some spec => .ok (layerName, spec)
  | none => .error (.keyError layerName)

/-- A group with only the layers of one worker. -/
def projectGroup (workerSpec : List (String × KVCacheSpec)) (group : KVCacheGroupSpec) :
    Except SizingError KVCacheGroupSpec :=
  let workerLayerNames := group.layerNames.filter fun name => name ∈ workerSpec.map Prod.fst
  match group.kvCacheSpec with
  | .uniformType kvCacheSpecs =>
    if workerLayerNames = [] then
      .ok ⟨workerLayerNames, .uniformType kvCacheSpecs⟩
    else do
      let entries ← workerLayerNames.eraseDups.mapM (layerSpec kvCacheSpecs)
      .ok ⟨workerLayerNames, .uniformType entries⟩
  | .layer spec => .ok ⟨workerLayerNames, .layer spec⟩

/-- `_project_kv_cache_groups_to_worker`. -/
def projectKVCacheGroupsToWorker (globalKVCacheGroups : List KVCacheGroupSpec)
    (workerSpec : List (String × KVCacheSpec)) : Except SizingError (List KVCacheGroupSpec) :=
  globalKVCacheGroups.mapM (projectGroup workerSpec)

/-- The projected groups of every worker. -/
def projectWorkers (globalKVCacheGroups : List KVCacheGroupSpec)
    (kvCacheSpecs : List (List (String × KVCacheSpec))) :
    Except SizingError (List (List KVCacheGroupSpec)) :=
  kvCacheSpecs.mapM (projectKVCacheGroupsToWorker globalKVCacheGroups)

/-- The projection, the auto-fit and the memory check of `get_kv_cache_configs`. -/
def fitAndCheck (globalKVCacheGroups : List KVCacheGroupSpec)
    (kvCacheSpecs : List (List (String × KVCacheSpec))) (availableMemory : List Int) :
    SizingM Unit := do
  let groupsPerWorker ← projectWorkers globalKVCacheGroups kvCacheSpecs
  if (← get).originalMaxModelLen = -1 then
    autoFitMaxModelLen groupsPerWorker availableMemory
  checkWorkers groupsPerWorker availableMemory

/-! ## The search for one worker -/

/-- The worker's memory suffices for a request of the given length. -/
def Affordable (config : VllmConfig) (worker : List KVCacheGroupSpec × Int) (l : Int) : Prop :=
  ∃ n, maxMemoryUsageBytesFromGroups (config.withMaxModelLen l) worker.1 = .ok n ∧ n ≤ worker.2

variable {config : VllmConfig} {worker : List KVCacheGroupSpec × Int}

/-- What suffices for a length suffices for every shorter one. -/
theorem Affordable.anti {l l' : Int} (h : Affordable config worker l') (hl : l ≤ l') :
    Affordable config worker l := by
  obtain ⟨n, hn, hle⟩ := h
  rcases grows_maxMemoryUsageBytesFromGroups config worker.1 with ⟨e, he⟩ | ⟨g, hg, hok⟩
  · exact absurd (hn.symm.trans (he l')) (by simp)
  · have hgn : g l' = n := Except.ok.inj ((hok l').symm.trans hn)
    exact ⟨g l, hok l, (hg hl).trans (hgn.trans_le hle)⟩

/-- Each test of the search reads the memory for its length, which it leaves in the
configuration. -/
theorem run_fits (groups : List KVCacheGroupSpec) (availableMemory l : Int) (s : VllmConfig) :
    (fits groups availableMemory l).run s =
      ((maxMemoryUsageBytesFromGroups (s.withMaxModelLen l) groups).map
        fun n => decide (n ≤ availableMemory), s.withMaxModelLen l) := by
  simp only [fits, run_bind, run_modify, run_get, run_liftM]
  cases maxMemoryUsageBytesFromGroups (s.withMaxModelLen l) groups <;> rfl

/-- The estimation restores the configuration. It fails only as the memory computation
does at every length; otherwise its result is the greatest length up to the configured one
that the worker's memory suffices for, or 0 if there is none. -/
def EstimatesLargest (config : VllmConfig) (worker : List KVCacheGroupSpec × Int) : Prop :=
  match (estimateMaxModelLenFromGroups worker.1 worker.2).run config with
  | (.ok n, config') => config' = config ∧
      (IsGreatest {l | (1 ≤ l ∧ l ≤ config.maxModelLen) ∧ Affordable config worker l} n ∨
        n = 0 ∧ ∀ l, 1 ≤ l ∧ l ≤ config.maxModelLen → ¬ Affordable config worker l)
  | (.error e, config') => config' = config ∧
      ∀ l, maxMemoryUsageBytesFromGroups (config.withMaxModelLen l) worker.1 = .error e

/-- The estimation returns the largest length for every worker. -/
theorem estimatesLargest (hlen : 1 ≤ config.maxModelLen)
    (worker : List KVCacheGroupSpec × Int) : EstimatesLargest config worker := by
  have hrun : (estimateMaxModelLenFromGroups worker.1 worker.2).run config =
      restoringMaxModelLen (do
        if ← fits worker.1 worker.2 1 then
          searchM (fits worker.1 worker.2) 1 config.maxModelLen 1
        else
          pure 0) config := rfl
  rw [EstimatesLargest, hrun]
  simp only [restoringMaxModelLen, run_bind, run_fits]
  rcases grows_maxMemoryUsageBytesFromGroups config worker.1 with ⟨e, he⟩ | ⟨g, hg, hok⟩
  · have he' : ∀ l, maxMemoryUsageBytesFromGroups (config.withMaxModelLen l) worker.1
        = .error e := he
    simp only [he', Except.map]
    exact ⟨rfl, fun _ => trivial⟩
  have hok' : ∀ l, maxMemoryUsageBytesFromGroups (config.withMaxModelLen l) worker.1
      = .ok (g l) := hok
  have haff : ∀ l, Affordable config worker l ↔ g l ≤ worker.2 := by
    intro l
    simp [Affordable, hok']
  have hfits : ∀ l s, (∃ l, s = config.withMaxModelLen l) → ∃ s',
      (fits worker.1 worker.2 l).run s = (.ok (decide (g l ≤ worker.2)), s') ∧
        ∃ l, s' = config.withMaxModelLen l := by
    rintro l _ ⟨l', rfl⟩
    refine ⟨config.withMaxModelLen l, ?_, l, rfl⟩
    rw [run_fits, VllmConfig.withMaxModelLen_withMaxModelLen, hok']
    rfl
  simp only [hok', Except.map]
  by_cases hone : g 1 ≤ worker.2
  · obtain ⟨s', hsearch, l, rfl⟩ := run_searchM hfits 1 config.maxModelLen 1
      ⟨1, rfl⟩
    simp only [hone, decide_true, if_true, hsearch]
    refine ⟨rfl, .inl ?_⟩
    simp only [haff]
    have hgreatest : IsGreatest
        {l | (1 ≤ l ∧ l ≤ config.maxModelLen) ∧ decide (g l ≤ worker.2) = true}
        (search (fun l => decide (g l ≤ worker.2)) 1 config.maxModelLen 1) := by
      refine search_isGreatest (fun l l' hl hpass => ?_) ⟨le_rfl, hlen⟩ (decide_eq_true hone)
        le_rfl (by omega) le_rfl fun l hl _ => hl
      exact decide_eq_true ((hg hl).trans (of_decide_eq_true hpass))
    simpa only [decide_eq_true_eq] using hgreatest
  · simp only [hone, decide_false]
    refine ⟨rfl, .inr ⟨rfl, fun l hl hpass => hone ?_⟩⟩
    exact (hg hl.1).trans ((haff l).mp hpass)

/-! ## All workers -/

/-- One worker's step keeps the configuration; the length it hands on serves this worker
and those before it, and no greater one does. -/
private theorem run_fitWorker {best : Int} (hlen : 1 ≤ config.maxModelLen)
    (hbest : best ≤ config.maxModelLen) (worker : List KVCacheGroupSpec × Int) :
    (∃ e, (fitWorker best worker).run config = (.error e, config)) ∨
      ∃ best', (fitWorker best worker).run config = (.ok best', config) ∧ best' ≤ best ∧
        ∀ l, 1 ≤ l → l ≤ config.maxModelLen →
          (l ≤ best' ↔ l ≤ best ∧ (worker.1 ≠ [] → Affordable config worker l)) := by
  by_cases hempty : worker.1 = []
  · refine .inr ⟨best, ?_, le_rfl, fun l _ _ => by simp [hempty]⟩
    rw [fitWorker, if_pos hempty]
    rfl
  have hlargest := estimatesLargest hlen worker
  rw [EstimatesLargest] at hlargest
  simp only [fitWorker, if_neg hempty, run_bind]
  rcases hrun : (estimateMaxModelLenFromGroups worker.1 worker.2).run config with ⟨e | n, s⟩
  · rw [hrun] at hlargest
    exact .inl ⟨e, by simp only [hlargest.1]⟩
  · rw [hrun] at hlargest
    obtain ⟨rfl, hn⟩ := hlargest
    have hiff : ∀ l, 1 ≤ l → l ≤ s.maxModelLen → (l ≤ n ↔ Affordable s worker l) := by
      intro l h1 hl
      rcases hn with ⟨⟨_, hn⟩, hub⟩ | ⟨rfl, hnone⟩
      · exact ⟨hn.anti, fun ha => hub ⟨⟨h1, hl⟩, ha⟩⟩
      · exact ⟨fun h0 => by omega, fun ha => absurd ha (hnone l ⟨h1, hl⟩)⟩
    refine .inr ⟨if n < best then n else best, rfl, by split <;> omega, fun l h1 hl => ?_⟩
    rw [← hiff l h1 hl]
    simp only [ne_eq, hempty, not_false_eq_true, true_implies]
    split <;> omega

/-- The pass over the workers finds the largest length that serves them all. -/
theorem run_fitWorkers (hlen : 1 ≤ config.maxModelLen)
    (workers : List (List KVCacheGroupSpec × Int)) {best : Int}
    (hbest : best ≤ config.maxModelLen) :
    (∃ e, (workers.foldlM fitWorker best).run config = (.error e, config)) ∨
      ∃ best', (workers.foldlM fitWorker best).run config = (.ok best', config) ∧
        best' ≤ best ∧ ∀ l, 1 ≤ l → l ≤ config.maxModelLen → (l ≤ best' ↔
          l ≤ best ∧ ∀ worker ∈ workers, worker.1 ≠ [] → Affordable config worker l) := by
  induction workers generalizing best with
  | nil => exact .inr ⟨best, rfl, le_rfl, fun l _ _ => by simp⟩
  | cons worker workers ih =>
    rw [List.foldlM_cons, run_bind]
    rcases run_fitWorker hlen hbest worker with ⟨e, hrun⟩ | ⟨best₁, hrun, hle, hiff⟩
    · exact .inl ⟨e, by rw [hrun]⟩
    rw [hrun]
    rcases ih (hle.trans hbest) with ⟨e, hrest⟩ | ⟨best', hrest, hle', hiff'⟩
    · exact .inl ⟨e, hrest⟩
    refine .inr ⟨best', hrest, hle'.trans hle, fun l h1 hl => ?_⟩
    rw [hiff' l h1 hl, hiff l h1 hl, List.forall_mem_cons, and_assoc]

/-- The estimation restores the configuration, also when it fails. -/
private theorem run_estimateMaxModelLenFromGroups_snd (hlen : 1 ≤ config.maxModelLen)
    (groups : List KVCacheGroupSpec) (availableMemory : Int) :
    ((estimateMaxModelLenFromGroups groups availableMemory).run config).2 = config := by
  have hlargest := estimatesLargest hlen (groups, availableMemory)
  rw [EstimatesLargest] at hlargest
  split at hlargest
  · next hrun => exact (congrArg Prod.snd hrun).trans hlargest.1
  · next hrun => exact (congrArg Prod.snd hrun).trans hlargest.1

/-- The memory check of a worker leaves the configuration alone, and passes exactly when
the worker has the memory for the configured length. -/
theorem run_checkWorker (hlen : 1 ≤ config.maxModelLen)
    (worker : List KVCacheGroupSpec × Int) : ((checkWorker worker).run config).2 = config ∧
      (0 < worker.2 → (((checkWorker worker).run config).1 = .ok () ↔
        (worker.1 ≠ [] → Affordable config worker config.maxModelLen))) := by
  by_cases hempty : worker.1 = []
  · rw [checkWorker, if_pos hempty]
    exact ⟨rfl, fun _ => ⟨fun _ hne => absurd hempty hne, fun _ => rfl⟩⟩
  rw [checkWorker, if_neg hempty, checkEnoughKVCacheMemory]
  by_cases hpos : worker.2 ≤ 0
  · rw [if_pos hpos]
    exact ⟨rfl, fun h => by omega⟩
  simp only [if_neg hpos, run_bind, run_get, run_liftM, Affordable, ne_eq, hempty,
    not_false_eq_true, true_implies, VllmConfig.withMaxModelLen_self]
  rcases maxMemoryUsageBytesFromGroups config worker.1 with e | needed
  · exact ⟨rfl, fun _ => by simp⟩
  by_cases hmore : worker.2 < needed
  · have hsnd := run_estimateMaxModelLenFromGroups_snd hlen worker.1 worker.2
    simp only [if_pos hmore, run_bind, run_get]
    rcases hrun : (estimateMaxModelLenFromGroups worker.1 worker.2).run config with ⟨e | n, s⟩
    · rw [hrun] at hsnd
      refine ⟨hsnd, fun _ => ?_⟩
      simp only [reduceCtorEq, Except.ok.injEq, exists_eq_left', false_iff]
      omega
    · rw [hrun] at hsnd
      refine ⟨hsnd, fun _ => ?_⟩
      simp only [run_throw, reduceCtorEq, Except.ok.injEq, exists_eq_left', false_iff]
      omega
  · simp only [if_neg hmore]
    refine ⟨rfl, fun _ => ?_⟩
    simp only [run_pure, Except.ok.injEq, exists_eq_left', true_iff]
    omega

/-- The memory check passes for the workers exactly when each of them has the memory for
the configured length. -/
private theorem run_checkWorkers (hlen : 1 ≤ config.maxModelLen)
    {groupsPerWorker : List (List KVCacheGroupSpec)} {availableMemory : List Int}
    (hpos : ∀ memory ∈ availableMemory, 0 < memory) :
    (checkWorkers groupsPerWorker availableMemory).run config = (.ok (), config) ↔
      ∀ worker ∈ groupsPerWorker.zip availableMemory, worker.1 ≠ [] →
        Affordable config worker config.maxModelLen := by
  rw [checkWorkers, run_forM_iff fun worker => (run_checkWorker hlen worker).1]
  refine forall₂_congr fun worker hworker => ?_
  exact (run_checkWorker hlen worker).2 (hpos _ (List.of_mem_zip hworker).2)

/-- The memory check passes for all workers with the given maximum length. -/
def ChecksPass (config : VllmConfig) (groupsPerWorker : List (List KVCacheGroupSpec))
    (availableMemory : List Int) (l : Int) : Prop :=
  (checkWorkers groupsPerWorker availableMemory).run (config.withMaxModelLen l)
    = (.ok (), config.withMaxModelLen l)

/-- The lengths up to the configured one with which the memory check passes. -/
def servedLengths (config : VllmConfig) (groupsPerWorker : List (List KVCacheGroupSpec))
    (availableMemory : List Int) : Set Int :=
  {l | (1 ≤ l ∧ l ≤ config.maxModelLen) ∧ ChecksPass config groupsPerWorker availableMemory l}

/-- Either the auto-fit raises, or it sets the largest length up to the configured one for
which the memory check passes for all workers. -/
theorem run_autoFitMaxModelLen (hlen : 1 ≤ config.maxModelLen)
    {groupsPerWorker : List (List KVCacheGroupSpec)} {availableMemory : List Int}
    (hpos : ∀ memory ∈ availableMemory, 0 < memory) :
    (∃ e, (autoFitMaxModelLen groupsPerWorker availableMemory).run config
      = (.error e, config)) ∨
    ∃ l, (autoFitMaxModelLen groupsPerWorker availableMemory).run config
        = (.ok (), config.withMaxModelLen l) ∧
      IsGreatest (servedLengths config groupsPerWorker availableMemory) l := by
  have hchecks : ∀ l, 1 ≤ l → (ChecksPass config groupsPerWorker availableMemory l ↔
      ∀ worker ∈ groupsPerWorker.zip availableMemory, worker.1 ≠ [] →
        Affordable config worker l) := by
    intro l h1
    have hlen' : 1 ≤ (config.withMaxModelLen l).maxModelLen := h1
    exact run_checkWorkers hlen' hpos
  simp only [autoFitMaxModelLen, run_bind, run_get]
  by_cases hempty : ∀ groups ∈ groupsPerWorker, groups = []
  · refine .inr ⟨config.maxModelLen, by rw [if_pos hempty]; rfl, ⟨⟨hlen, le_rfl⟩, ?_⟩,
      fun l hl => hl.1.2⟩
    refine (hchecks _ hlen).mpr fun worker hworker hne => ?_
    exact absurd (hempty _ (List.of_mem_zip hworker).1) hne
  rw [if_neg hempty]
  by_cases hnone : availableMemory = []
  · exact .inl ⟨.indexError, by rw [if_pos hnone]; rfl⟩
  simp only [if_neg hnone, run_bind]
  rcases run_fitWorkers hlen (groupsPerWorker.zip availableMemory) (le_refl config.maxModelLen)
    with ⟨e, hrun⟩ | ⟨best, hrun, hle, hiff⟩
  · exact .inl ⟨e, by simp only [hrun]⟩
  simp only [hrun]
  by_cases hfail : best ≤ 0
  · exact .inl ⟨.cannotAutoFit, by rw [if_pos hfail]; rfl⟩
  refine .inr ⟨best, ?_, ⟨⟨by omega, hle⟩, ?_⟩, fun l ⟨⟨h1, hl⟩, hpass⟩ => ?_⟩
  · rw [if_neg hfail]
    split
    · next hfull =>
      obtain rfl : best = config.maxModelLen := by omega
      rfl
    · rfl
  · exact (hchecks best (by omega)).mpr ((hiff best (by omega) hle).mp le_rfl).2
  · exact (hiff l h1 hl).mpr ⟨hl, (hchecks l h1).mp hpass⟩

/-- A configuration of at most 64 tokens, without context parallelism. -/
def shortConfig : VllmConfig where
  maxModelLen := 64
  originalMaxModelLen := -1
  decodeContextParallelSize := 1
  prefillContextParallelSize := 1
  maxNumBatchedTokens := 64
  maxNumEncoderInputTokens := 0
  mambaCacheMode := .none

/-- A layer with pages of 512 bytes for 16 tokens. -/
def smallLayer : KVCacheSpec :=
  .fullAttention ⟨16, 1, 8, 2, none⟩ 8

/-- One group of two such layers. -/
def twoLayers : List KVCacheGroupSpec := [⟨["0", "1"], .layer smallLayer⟩]

end Vllm.Sizing
