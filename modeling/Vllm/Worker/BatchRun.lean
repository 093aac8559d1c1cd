import Vllm.Worker.PersistentBatch

/-!
# Runs of the persistent batch

The calls of a step and what the runner remembers of its requests. Between the steps of a run
the requests fill the first indices, and every row is that of its request, as long as no call
meets one of four defects: a mask or embeddings left behind at an index, two rows of the mask
assigned to each other, or a flag of a pooling request that does not move.
-/

namespace Vllm.Worker

open Checked InputBatch

variable {F : Type} [SinglePrecision F]

/-- The batch, the requests that the model runner has added to it, and the numbers of accepted
tokens that were last set for them. -/
structure BatchRun (F : Type) where
  batch : InputBatch F
  requests : RequestId → Option (CachedRequestState F)
  accepted : RequestId → Nat := fun _ => 1

/-- A call on the batch. -/
inductive BatchCall (F : Type) where
  | removeRequest (reqId : RequestId)
  | addRequest (request : CachedRequestState F)
  | updateReqSpecTokenIds (reqId : RequestId) (specTokenIds : List TokenId)
  | condense
  | swapStates (i j : Nat)
  | refreshMetadata
  | setNumAcceptedTokens (i numTokens : Nat)
  deriving DecidableEq, Repr

/-- What a step does to the batch: removals, drafts of requests that stay, additions with their
drafts, swaps behind `condense`, and numbers of accepted tokens behind the model. -/
structure BatchStep (F : Type) where
  removed : List RequestId := []
  specs : List (RequestId × List TokenId) := []
  added : List (CachedRequestState F × List TokenId) := []
  swaps : List (Nat × Nat) := []
  accepted : List (Nat × Nat) := []
  deriving DecidableEq, Repr

namespace BatchStep

variable (step : BatchStep F)

omit [SinglePrecision F]

/-- The calls before `condense`. -/
def earlyCalls : List (BatchCall F) :=
  step.removed.map .removeRequest ++
    step.specs.map (fun e => .updateReqSpecTokenIds e.1 e.2) ++
    step.added.flatMap fun e => [.addRequest e.1, .updateReqSpecTokenIds e.1.reqId e.2]

/-- The calls that change the batch. -/
def changes : List (BatchCall F) :=
  step.earlyCalls ++ [.condense] ++ step.swaps.map fun e => .swapStates e.1 e.2

/-- The calls of a step. -/
def calls : List (BatchCall F) :=
  step.changes ++ [.refreshMetadata] ++
    step.accepted.map fun e => .setNumAcceptedTokens e.1 e.2

end BatchStep

/-- The calls before `condense`. -/
def BatchCall.Early : BatchCall F → Prop
  | .removeRequest _ | .addRequest _ | .updateReqSpecTokenIds _ _ => True
  | .condense | .swapStates _ _ | .refreshMetadata | .setNumAcceptedTokens _ _ => False

omit [SinglePrecision F] in
theorem BatchStep.early_of_mem {step : BatchStep F} {call : BatchCall F}
    (h : call ∈ step.earlyCalls) : call.Early := by
  simp only [BatchStep.earlyCalls, List.mem_append, List.mem_map, List.mem_flatMap, List.mem_cons,
    List.not_mem_nil, or_false] at h
  rcases h with (⟨_, _, rfl⟩ | ⟨_, _, rfl⟩) | ⟨_, _, rfl | rfl⟩ <;> trivial

namespace BatchRun

variable (cfg : BatchConfig)

/-- Before the first step. -/
def init (sampling : SamplingRows F) : BatchRun F where
  batch := InputBatch.init cfg sampling
  requests := fun _ => none

/-- A call. -/
def apply (s : BatchRun F) : BatchCall F → Except BatchError (BatchRun F)
  | .removeRequest reqId => do
    let batch ← s.batch.removeRequest cfg reqId
    pure { s with batch }
  | .addRequest request => do
    let batch ← s.batch.addRequest cfg request
    pure {
      batch
      requests := Function.update s.requests request.reqId (some request)
      accepted := Function.update s.accepted request.reqId 1 }
  | .updateReqSpecTokenIds reqId specTokenIds => do
    let batch ← s.batch.updateReqSpecTokenIds reqId specTokenIds
    pure { s with batch }
  | .condense => do
    let batch ← s.batch.condense cfg
    pure { s with batch }
  | .swapStates i j => do
    let batch ← s.batch.swapStates cfg i j
    pure { s with batch }
  | .refreshMetadata => .ok { s with batch := (s.batch.refreshMetadata cfg).2 }
  | .setNumAcceptedTokens i numTokens =>
    match s.batch.reqIds[i]? with
    | some (some reqId) => .ok { s with
        batch := s.batch.setNumAcceptedTokens i numTokens
        accepted := Function.update s.accepted reqId numTokens }
    | _ => .error .noRequest

/-- A step. -/
def step (s : BatchRun F) (st : BatchStep F) : Except BatchError (BatchRun F) :=
  run (apply cfg) s st.calls

/-- The requests that are added are not in the batch, and of the kind of the model. A pooling model
samples no tokens, of which some might be accepted. -/
def Proper (s : BatchRun F) : BatchCall F → Prop
  | .addRequest request => s.batch.reqIdToIndex.get? request.reqId = none ∧
      request.samplingParams.isSome = !cfg.isPoolingModel
  | .setNumAcceptedTokens _ numTokens => cfg.isPoolingModel = true → numTokens = 1
  | _ => True

/-- What a call must find: where a request without prompt embeddings is added, no stored
embeddings, and where one that allows every token is added, a row of the mask that is all
`False`; no stored embeddings at the index that `condense` gives to a request without any; equal
rows of the mask at two indices that are swapped; and at the indices of a move or a swap the same
need of token ids. -/
def Clean (s : BatchRun F) : BatchCall F → Prop
  | .addRequest request =>
    (request.promptEmbeds = none → s.batch.reqPromptEmbeds.get? s.batch.nextIndex = none) ∧
    ∀ params ∈ request.samplingParams, params.allowedTokenIds = [] →
      ∀ token < cfg.vocabSize, maskAt s.batch.allowedTokenIdsMask s.batch.nextIndex token = false
  | .condense => CondenseClean cfg s.batch
  | .swapStates i j =>
    (cfg.isPoolingModel = false → ∀ token < cfg.vocabSize,
      maskAt s.batch.allowedTokenIdsMask i token = maskAt s.batch.allowedTokenIdsMask j token) ∧
    s.batch.logitsProcessingNeedsTokenIds i = s.batch.logitsProcessingNeedsTokenIds j
  | _ => True

/-- The rows belong to their requests: ids and indices are inverse to each other, the indices
are those below the number of requests, and what the batch holds at an index is what the
request there asks for, with the number of accepted tokens that was set for it. -/
structure RowsBelong (s : BatchRun F) : Prop where
  inverse : ∀ i id, s.batch.reqIds[i]? = some (some id) ↔ s.batch.reqIdToIndex.get? id = some i
  length_eq : s.batch.reqIds.length = s.batch.numReqs
  row : ∀ i < s.batch.numReqs, ∃ id r, s.batch.reqIds[i]? = some (some id) ∧
    s.requests id = some r ∧ r.reqId = id ∧ s.batch.rowAt cfg i = r.row cfg (s.accepted id)

/-- The batch between two steps. -/
structure Settled (s : BatchRun F) : Prop where
  packed : s.batch.Packed
  owned : Owned cfg s.requests s.accepted s.batch
  new : s.batch.batchUpdateBuilder = {}

instance (s : BatchRun F) : ∀ call, Decidable (Proper cfg s call)
  | .addRequest _ => inferInstanceAs (Decidable (_ ∧ _))
  | .setNumAcceptedTokens _ _ => inferInstanceAs (Decidable (_ → _))
  | .removeRequest _ | .updateReqSpecTokenIds _ _ | .condense | .swapStates _ _
  | .refreshMetadata => .isTrue trivial

instance (s : BatchRun F) : ∀ call, Decidable (Clean cfg s call)
  | .addRequest _ => inferInstanceAs (Decidable (_ ∧ _))
  | .condense => inferInstanceAs (Decidable (_ = true))
  | .swapStates _ _ => inferInstanceAs (Decidable (_ ∧ _))
  | .removeRequest _ | .updateReqSpecTokenIds _ _ | .refreshMetadata
  | .setNumAcceptedTokens _ _ => .isTrue trivial

variable {cfg} {s s' : BatchRun F}

/-- A batch between two steps has its rows. -/
theorem Settled.rowsBelong (h : Settled cfg s) : RowsBelong cfg s := by
  refine ⟨h.packed.indexed, h.packed.length_eq, fun i hi => ?_⟩
  rw [← h.packed.length_eq] at hi
  cases hid : s.batch.reqIds[i] with
  | none => exact absurd (by rw [List.getElem?_eq_getElem hi, hid]) (h.packed.filled i)
  | some id =>
    have hget : s.batch.reqIds[i]? = some (some id) := by rw [List.getElem?_eq_getElem hi, hid]
    obtain ⟨r, hr, hrid, hrow⟩ := h.owned.rows i id hget
    exact ⟨id, r, hget, hr, hrid, hrow⟩

/-- A call before `condense` keeps the layout. -/
theorem layout_early {call : BatchCall F} (hb : s.batch.Layout) (hearly : call.Early)
    (hproper : Proper cfg s call) (h : apply cfg s call = .ok s') : s'.batch.Layout := by
  cases call with
  | removeRequest reqId =>
    obtain ⟨batch, hbatch, hs'⟩ := bind_ok_iff.mp h
    cases hs'
    rcases removed_of_removeRequest hbatch with ⟨-, rfl⟩ | ⟨i, hi, hremoved⟩
    · exact hb
    · exact hremoved.layout hb hi
  | addRequest r =>
    obtain ⟨batch, hbatch, hs'⟩ := bind_ok_iff.mp h
    cases hs'
    exact (added_of_addRequest hbatch).layout hb hproper.1
  | updateReqSpecTokenIds reqId specTokenIds =>
    obtain ⟨batch, hbatch, hs'⟩ := bind_ok_iff.mp h
    cases hs'
    obtain ⟨tokens, lists, rfl, -⟩ := eq_of_updateReqSpecTokenIds cfg hbatch
    exact ⟨hb.indexed, hb.hole, hb.descending, hb.outputs⟩
  | condense => exact hearly.elim
  | swapStates i j => exact hearly.elim
  | refreshMetadata => exact hearly.elim
  | setNumAcceptedTokens i n => exact hearly.elim

/-- A call before `condense` keeps the rows. -/
theorem owned_early {call : BatchCall F} (hb : s.batch.Layout)
    (ho : Owned cfg s.requests s.accepted s.batch) (hearly : call.Early) (hproper : Proper cfg s call)
    (hclean : Clean cfg s call) (h : apply cfg s call = .ok s') :
    Owned cfg s'.requests s'.accepted s'.batch := by
  cases call with
  | removeRequest reqId =>
    obtain ⟨batch, hbatch, hs'⟩ := bind_ok_iff.mp h
    cases hs'
    rcases removed_of_removeRequest hbatch with ⟨-, rfl⟩ | ⟨i, hi, hremoved⟩
    · exact ho
    · exact hremoved.owned ho
  | addRequest r =>
    obtain ⟨batch, hbatch, hs'⟩ := bind_ok_iff.mp h
    cases hs'
    exact (added_of_addRequest hbatch).owned hb ho hproper.1 hproper.2 hclean.1 hclean.2
  | updateReqSpecTokenIds reqId specTokenIds =>
    obtain ⟨batch, hbatch, hs'⟩ := bind_ok_iff.mp h
    cases hs'
    obtain ⟨tokens, lists, rfl, hrow⟩ := eq_of_updateReqSpecTokenIds cfg hbatch
    refine ⟨fun i id hid => ?_, ho.accepted, ho.needs, ho.sizes, ho.stale⟩
    obtain ⟨r, hr, hrid, hsame⟩ := ho.rows i id hid
    exact ⟨r, hr, hrid, (hrow i).trans hsame⟩
  | condense => exact hearly.elim
  | swapStates i j => exact hearly.elim
  | refreshMetadata => exact hearly.elim
  | setNumAcceptedTokens i n => exact hearly.elim

/-- A swap keeps the batch packed and the rows. -/
theorem apply_swap {i j : Nat} (hb : s.batch.Packed) (ho : Owned cfg s.requests s.accepted s.batch)
    (hclean : Clean cfg s (.swapStates i j)) (h : apply cfg s (.swapStates i j) = .ok s') :
    s'.batch.Packed ∧ Owned cfg s'.requests s'.accepted s'.batch := by
  obtain ⟨batch, hbatch, hs'⟩ := bind_ok_iff.mp h
  cases hs'
  have hswapped := swapped_of_swapStates hbatch
  exact ⟨hswapped.packed hb, hswapped.owned hb ho hclean.1 hclean.2⟩

omit [SinglePrecision F] in
/-- Refreshing leaves a new builder. -/
theorem refreshMetadata_snd (b : InputBatch F) :
    (b.refreshMetadata cfg).2 = { b with batchUpdateBuilder := {} } := by
  unfold refreshMetadata
  split
  · rfl
  · unfold BatchUpdateBuilder.getAndReset
    split
    · rename_i hnone
      obtain ⟨hremoved, hmoved, hadded⟩ := hnone
      simp [hremoved, hmoved, hadded]
    · rfl

/-- The number of accepted tokens is set for the request at the index and for no other. -/
theorem Settled.setNumAcceptedTokens {i n : Nat} (h : Settled cfg s)
    (hproper : Proper cfg s (.setNumAcceptedTokens i n))
    (happly : apply cfg s (.setNumAcceptedTokens i n) = .ok s') : Settled cfg s' := by
  simp only [apply] at happly
  split at happly
  · rename_i reqId hreqId
    cases happly
    refine ⟨⟨h.packed.indexed, h.packed.filled, h.packed.outputs⟩,
      ⟨fun k id hid => ?_, fun hpool k => ?_, h.owned.needs, h.owned.sizes, h.owned.stale⟩, h.new⟩
    · obtain ⟨r, hr, hrid, hrow⟩ := h.owned.rows k id hid
      refine ⟨r, hr, hrid, ?_⟩
      have hset : (s.batch.setNumAcceptedTokens i n).rowAt cfg k = { s.batch.rowAt cfg k with
          numAcceptedTokens := Function.update s.batch.numAcceptedTokensCpu i n k } := rfl
      show _ = r.row cfg (Function.update s.accepted reqId n id)
      rw [hset]
      by_cases hk : k = i
      · obtain rfl : reqId = id := Option.some.inj (Option.some.inj (hreqId.symm.trans (hk ▸ hid)))
        rw [hrow, hk, Function.update_self, Function.update_self]
        rfl
      · have hne : id ≠ reqId := by
          rintro rfl
          exact hk (Option.some.inj
            (((h.packed.indexed _ _).mp hid).symm.trans ((h.packed.indexed _ _).mp hreqId)))
        rw [Function.update_of_ne hk, Function.update_of_ne hne]
        exact hrow
    · show Function.update s.batch.numAcceptedTokensCpu i n k = 1
      rw [Function.update_apply, hproper hpool, h.owned.accepted hpool]
      exact ite_self _
  · cases happly

/-- A step keeps the rows. -/
theorem Settled.step {st : BatchStep F} (h : Settled cfg s)
    (hproper : Along (apply cfg) (Proper cfg) s st.calls)
    (hclean : Along (apply cfg) (Clean cfg) s st.calls) (hstep : step cfg s st = .ok s') :
    Settled cfg s' := by
  unfold BatchRun.step at hstep
  have hboth := hproper.and hclean
  simp only [BatchStep.calls, BatchStep.changes, run_append_eq_ok, along_append] at hstep hboth
  obtain ⟨s₄, ⟨s₃, ⟨s₂, ⟨s₁, hearly, hcondense⟩, hswaps⟩, hrefresh⟩, haccepted⟩ := hstep
  obtain ⟨⟨⟨⟨hearlyOk, hcondenseOk⟩, hswapsOk⟩, -⟩, hacceptedOk⟩ := hboth
  -- up to `condense`
  have h₁ : s₁.batch.Layout ∧ Owned cfg s₁.requests s₁.accepted s₁.batch := by
    refine run_invariant (I := fun s : BatchRun F =>
        s.batch.Layout ∧ Owned cfg s.requests s.accepted s.batch)
      (fun s call s' hs hcall hcall' => ?_) ⟨h.packed.layout h.new, h.owned⟩
      (hearlyOk.and (along_of_mem (fun call hcall => st.early_of_mem hcall) s)) hearly
    exact ⟨layout_early hs.1 hcall.2 hcall.1.1 hcall',
      owned_early hs.1 hs.2 hcall.2 hcall.1.1 hcall.1.2 hcall'⟩
  -- `condense`
  have h₂ : s₂.batch.Packed ∧ Owned cfg s₂.requests s₂.accepted s₂.batch := by
    obtain ⟨s₂', happly, hs₂⟩ := bind_ok_iff.mp hcondense
    cases hs₂
    obtain ⟨batch, hbatch, hs₂⟩ := bind_ok_iff.mp happly
    cases hs₂
    exact h₁.1.condense h₁.2 (hcondenseOk s₁ hearly).1.2 hbatch
  -- the swaps
  have h₃ : s₃.batch.Packed ∧ Owned cfg s₃.requests s₃.accepted s₃.batch := by
    have hswapCalls : ∀ call ∈ st.swaps.map (fun e => BatchCall.swapStates (F := F) e.1 e.2),
        ∃ i j, call = .swapStates i j := by
      intro call hcall
      obtain ⟨e, -, rfl⟩ := List.mem_map.mp hcall
      exact ⟨e.1, e.2, rfl⟩
    refine run_invariant (I := fun s : BatchRun F =>
        s.batch.Packed ∧ Owned cfg s.requests s.accepted s.batch)
      (fun s call s' hs hcall hcall' => ?_) h₂
      ((hswapsOk s₂ ⟨s₁, hearly, hcondense⟩).and
        (along_of_mem hswapCalls s₂)) hswaps
    obtain ⟨i, j, rfl⟩ := hcall.2
    exact apply_swap hs.1 hs.2 hcall.1.2 hcall'
  -- the refresh
  have h₄ : Settled cfg s₄ := by
    obtain ⟨s₄', happly, hs₄⟩ := bind_ok_iff.mp hrefresh
    cases hs₄
    cases happly
    refine ⟨?_, ?_, ?_⟩
    · rw [refreshMetadata_snd]
      exact ⟨h₃.1.indexed, h₃.1.filled, h₃.1.outputs⟩
    · rw [refreshMetadata_snd]
      exact ⟨h₃.2.rows, h₃.2.accepted, h₃.2.needs, h₃.2.sizes, h₃.2.stale⟩
    · rw [refreshMetadata_snd]
  -- the numbers of accepted tokens
  have hcalls : ∀ call ∈ st.accepted.map
      (fun e => BatchCall.setNumAcceptedTokens (F := F) e.1 e.2),
      ∃ i n, call = .setNumAcceptedTokens i n := by
    intro call hcall
    obtain ⟨e, -, rfl⟩ := List.mem_map.mp hcall
    exact ⟨e.1, e.2, rfl⟩
  refine run_invariant (fun s call s' hs hcall hcall' => ?_) h₄
    ((hacceptedOk s₄ ⟨s₃, ⟨s₂, ⟨s₁, hearly, hcondense⟩, hswaps⟩, hrefresh⟩).and
      (along_of_mem hcalls s₄)) haccepted
  obtain ⟨i, n, rfl⟩ := hcall.2
  exact hs.setNumAcceptedTokens hcall.1.1 hcall'

/-- Before the first step. -/
theorem settled_init (cfg : BatchConfig) (sampling : SamplingRows F) :
    Settled cfg (init cfg sampling) where
  packed :=
    ⟨fun i id => ⟨fun h => (by cases h), fun h => (by cases h)⟩, fun i h => (by cases h), rfl⟩
  owned := by
    refine ⟨fun i id h => (by cases h), fun _ i => rfl, fun _ i => rfl, ?_, fun _ i _ => ⟨rfl, rfl⟩⟩
    simp [init, InputBatch.init, Function.comp_def]
  new := rfl

/-- An index whose row is not that of its request. -/
theorem not_rowsBelong {i : Nat} {id : RequestId} (hid : s.batch.reqIds[i]? = some (some id))
    (hrow : (s.requests id).map (·.row cfg (s.accepted id)) ≠ some (s.batch.rowAt cfg i)) :
    ¬ RowsBelong cfg s := by
  intro h
  have hlt : i < s.batch.numReqs := h.length_eq ▸ (List.getElem?_eq_some_iff.mp hid).1
  obtain ⟨id', r, hid', hr, -, hsame⟩ := h.row i hlt
  obtain rfl : id = id' := Option.some.inj (Option.some.inj (hid.symm.trans hid'))
  exact hrow (by rw [hr, hsame]; rfl)

end BatchRun

/-! ## Rows left behind -/

/-- Values of a parameter as multiples of half the smallest positive number of single precision:
as long as they are small, the even ones are there, and the others are rounded to even. -/
instance : SinglePrecision Nat where
  single n := 2 * ((n + n / 2 % 2) / 2)
  single_zero := rfl

/-- Four tokens and one KV cache group. -/
def smallBatch : BatchConfig where
  isPoolingModel := false
  maxNumReqs := 4
  vocabSize := 4
  blocksPerKvBlock := [1]

/-- Arrays of parameters that are not initialized. -/
def noParams : SamplingRows Nat :=
  ⟨fun _ => 0, fun _ => 0, fun _ => 0, fun _ => 0, fun _ => 0, fun _ => 0⟩

/-- A request with its own temperature and prompt. -/
def plainRequest (reqId : RequestId) : CachedRequestState Nat where
  reqId
  promptTokenIds := some [reqId, 1]
  blockIds := [[reqId]]
  samplingParams := some {
    greedy := false, temperature := reqId, topP := 1, topK := 0, frequencyPenalty := 0,
    presencePenalty := 0, repetitionPenalty := 1, minP := 0 }

/-- The same with an allowed token. -/
def maskedRequest (reqId : RequestId) (allowed : TokenId) : CachedRequestState Nat :=
  { plainRequest reqId with
    samplingParams := (plainRequest reqId).samplingParams.map
      fun params => { params with allowedTokenIds := [allowed] } }

/-- A request with prompt embeddings. -/
def embedsRequest (reqId : RequestId) : CachedRequestState Nat :=
  { plainRequest reqId with promptEmbeds := some [[7], [8]] }

/-- A restricted request is moved down from index 1; then another one comes there. -/
def maskLeftBehind : List (BatchStep Nat) := [
  { added := [(plainRequest 1, []), (maskedRequest 2 3, [])] },
  { removed := [1] },
  { added := [(plainRequest 3, [])] }]

/-- Two requests with different masks are swapped. -/
def maskRowsSwapped : List (BatchStep Nat) := [
  { added := [(maskedRequest 1 2, []), (maskedRequest 2 3, [])], swaps := [(0, 1)] }]

/-- A request with prompt embeddings is followed by one without. -/
def embedsLeftBehind : List (BatchStep Nat) := [
  { added := [(embedsRequest 1, [])] },
  { removed := [1], added := [(plainRequest 2, [])] }]

/-- The same for a pooling model. -/
def smallPoolingBatch : BatchConfig := { smallBatch with isPoolingModel := true }

/-- A request for pooling. -/
def poolingRequest (reqId : RequestId) (requiresTokenIds : Bool) : CachedRequestState Nat :=
  { plainRequest reqId with samplingParams := none, poolingParams := some ⟨requiresTokenIds⟩ }

/-- A request that needs token ids is moved down to where one was that does not. -/
def needLeftBehind : List (BatchStep Nat) := [
  { added := [(poolingRequest 1 false, []), (poolingRequest 2 true, [])] },
  { removed := [1] }]

/-- The run ends, and some row does not belong to its request. -/
def Misplaces (cfg : BatchConfig) (steps : List (BatchStep Nat)) : Prop :=
  ∃ s, run (BatchRun.step cfg) (BatchRun.init cfg noParams) steps = .ok s ∧
    ¬ BatchRun.RowsBelong cfg s

/-- Rows that move with their requests: a restricted request with two accepted tokens slides down,
another one comes where it was, a request with embeddings takes the place of another, and two
plain requests with different numbers of accepted tokens are swapped. -/
def rowsMoved : List (BatchStep Nat) := [
  { added := [(embedsRequest 1, []), (plainRequest 2, [2]), (maskedRequest 3 1, [])] },
  { removed := [1], added := [(embedsRequest 4, [])], accepted := [(1, 3), (2, 2)] },
  { removed := [2] },
  { removed := [3], added := [(plainRequest 5, [])], accepted := [(0, 3)] },
  { added := [(maskedRequest 6 2, [])], swaps := [(0, 1)] }]

end Vllm.Worker
