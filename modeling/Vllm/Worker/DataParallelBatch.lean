import Vllm.Library.AllReduce
import Vllm.Worker.CudagraphDispatcher

/-!
# Batches of data parallel ranks

Every rank dispatches its own batch first. With more than one rank, an all-reduce then tells
all ranks the token counts, modes and wishes to microbatch of all of them, and every rank
dispatches again with the agreed mode and count. Statistics are left out.
-/

namespace Vllm.Worker

open Checked AllReduce

namespace RuntimeMode

/-- `CUDAGraphMode(value)`, for the values of runtime modes. -/
def ofValue : Nat → Option RuntimeMode
  | 0 => some none
  | 1 => some piecewise
  | 2 => some full
  | _ => Option.none

end RuntimeMode

/-- What the runner reads of its configuration. -/
structure RunnerConfig where
  isEncoderDecoder : Bool
  enableDbo : Bool
  ubatchSize : Nat
  dboDecodeTokenThreshold : Int
  dboPrefillTokenThreshold : Int
  /-- `pass_config.enable_sp`. -/
  enableSp : Bool
  tensorParallelSize : Nat

namespace RunnerConfig

def useUbatching (c : RunnerConfig) : Bool := c.enableDbo || decide (1 < c.ubatchSize)

def numUbatches (c : RunnerConfig) : Nat := if c.enableDbo then 2 else c.ubatchSize

end RunnerConfig

/-- The arguments of a rank's batch. -/
structure LocalBatch where
  numTokens : Nat
  numReqs : Nat
  maxNumScheduledTokens : Nat
  useCascadeAttn : Bool := false
  allowMicrobatching : Bool := true
  forceEager : Bool := false
  forceUniformDecode : Option Bool := none
  forceHasLora : Option Bool := none
  forceNumActiveLoras : Option Nat := none
  numEncoderReqs : Nat := 0
  /-- The adapters of the input batch. -/
  numInputLoras : Nat := 0

namespace LocalBatch

/-- `_is_uniform_decode`. -/
def uniformDecode (b : LocalBatch) (uniformDecodeQueryLen : Nat) : Bool :=
  b.forceUniformDecode.getD (b.maxNumScheduledTokens = uniformDecodeQueryLen ∧
    b.numTokens = b.maxNumScheduledTokens * b.numReqs)

def numActiveLoras (b : LocalBatch) : Nat := b.forceNumActiveLoras.getD b.numInputLoras

def hasLora (b : LocalBatch) : Bool := b.forceHasLora.getD (0 < b.numActiveLoras)

/-- Whether a rank keeps its batch out of full graphs. -/
def disableFull (b : LocalBatch) (c : RunnerConfig) : Bool :=
  b.useCascadeAttn || (c.isEncoderDecoder && decide (0 < b.numEncoderReqs))

end LocalBatch

/-- What stops a rank. -/
inductive ExecutionError where
  | dispatch (e : DispatchError)
  | notMultipleOfTensorParallelSize
  | paddedBelowUnpadded
  | indexOutOfRange
  | invalidCudagraphMode (value : Nat)
  | tokenCountMismatch
  deriving DecidableEq, Repr

/-- What a rank tells the others. -/
structure SyncEntry where
  origNumTokens : Nat
  paddedNumTokens : Nat
  shouldUbatch : Bool
  cudagraphMode : RuntimeMode

/-- The tensor after the all-reduce, with an entry for each rank in every row. -/
structure SyncTensor where
  origNumTokens : List Nat
  paddedNumTokens : List Nat
  shouldUbatch : List Nat
  cudagraphMode : List Nat

/-- One row of the tensor: every rank adds a row that is zero but at its own entry. -/
def reduceRow (entries : List SyncEntry) (value : SyncEntry → Nat) : List Nat :=
  allReduce entries.length (contributions (entries.map value))

/-- `_run_ar`, for all ranks. -/
def runAr (entries : List SyncEntry) : SyncTensor where
  origNumTokens := reduceRow entries SyncEntry.origNumTokens
  paddedNumTokens := reduceRow entries SyncEntry.paddedNumTokens
  shouldUbatch := reduceRow entries fun e => if e.shouldUbatch then 1 else 0
  cudagraphMode := reduceRow entries fun e => e.cudagraphMode.value

/-- `is_last_ubatch_empty`. -/
def isLastUbatchEmpty (origNumTokens paddedNumTokens numUbatches : Nat) : Bool :=
  origNumTokens ≤ paddedNumTokens / numUbatches * (numUbatches - 1)

/-- `check_ubatch_thresholds`. -/
def checkUbatchThresholds (c : RunnerConfig) (numTokens : Nat) (uniformDecode : Bool) : Bool :=
  if ¬ c.useUbatching then false
  else if uniformDecode then c.dboDecodeTokenThreshold ≤ numTokens
  else c.dboPrefillTokenThreshold ≤ numTokens

namespace SyncTensor

/-- `_post_process_ubatch`. -/
def postProcessUbatch (t : SyncTensor) (numUbatches : Nat) : Bool :=
  t.shouldUbatch.all (· = 1) &&
    !isLastUbatchEmpty (t.origNumTokens.min?.getD 0) (t.paddedNumTokens.max?.getD 0) numUbatches

/-- `_post_process_dp_padding`. -/
def postProcessDpPadding (t : SyncTensor) (shouldDpPad : Bool) : List Nat :=
  if shouldDpPad then List.replicate t.paddedNumTokens.length (t.paddedNumTokens.max?.getD 0)
  else t.paddedNumTokens

/-- `_post_process_cudagraph_mode`. -/
def postProcessCudagraphMode (t : SyncTensor) : Nat := t.cudagraphMode.min?.getD 0

end SyncTensor

/-- What the ranks agree on. -/
structure Coordination where
  shouldUbatch : Bool
  numTokensAfterPadding : List Nat
  syncedCudagraphMode : Nat

/-- `_synchronize_dp_ranks`, after the all-reduce. -/
def synchronizeDpRanks (c : RunnerConfig) (t : SyncTensor) : Coordination :=
  let syncedCudagraphMode := t.postProcessCudagraphMode
  let shouldUbatch := t.postProcessUbatch c.numUbatches
  { shouldUbatch, syncedCudagraphMode
    numTokensAfterPadding :=
      t.postProcessDpPadding (decide (syncedCudagraphMode ≠ 0) || shouldUbatch) }

/-- What `_determine_batch_execution_and_padding` returns on one rank. -/
structure BatchExecution where
  cudagraphMode : RuntimeMode
  batchDescriptor : BatchDescriptor
  shouldUbatch : Bool
  numTokensAcrossDp : Option (List Nat)
  deriving DecidableEq, Repr

/-- `_pad_for_sequence_parallelism`. -/
def padForSequenceParallelism (c : RunnerConfig) (numTokens : Nat) : Nat :=
  if c.enableSp ∧ 1 < c.tensorParallelSize then
    (numTokens + c.tensorParallelSize - 1) / c.tensorParallelSize * c.tensorParallelSize
  else numTokens

/-- `dispatch_cudagraph`, of one rank. -/
def dispatchCudagraph (d : CudagraphDispatcher) (b : LocalBatch) (numTokens : Nat)
    (disableFull : Bool) (validModes : List RuntimeMode) :
    Except ExecutionError (RuntimeMode × BatchDescriptor) :=
  (d.dispatch numTokens (b.uniformDecode d.config.uniformDecodeQueryLen) b.hasLora
    b.numActiveLoras (if b.forceEager then [.none] else validModes)
    (if disableFull then [.full] else [])).mapError .dispatch

/-- The first dispatch of a rank. -/
def dispatchLocally (c : RunnerConfig) (d : CudagraphDispatcher) (b : LocalBatch) :
    Except ExecutionError (RuntimeMode × BatchDescriptor) := do
  let dispatched ← dispatchCudagraph d b (padForSequenceParallelism c b.numTokens)
    (b.disableFull c) []
  ensure (c.enableSp = true → dispatched.2.numTokens % c.tensorParallelSize = 0)
    .notMultipleOfTensorParallelSize
  pure dispatched

/-- What a rank tells the others of its first dispatch. -/
def syncEntry (c : RunnerConfig) (d : CudagraphDispatcher) (b : LocalBatch)
    (dispatched : RuntimeMode × BatchDescriptor) : Except ExecutionError SyncEntry := do
  ensure (b.numTokens ≤ dispatched.2.numTokens) .paddedBelowUnpadded
  pure
    { origNumTokens := b.numTokens
      paddedNumTokens := dispatched.2.numTokens
      shouldUbatch := b.allowMicrobatching && checkUbatchThresholds c b.numTokens
        (b.uniformDecode d.config.uniformDecodeQueryLen)
      cudagraphMode := dispatched.1 }

/-- The second dispatch of a rank, with what the ranks agreed on. -/
def redispatch (d : CudagraphDispatcher) (agreed : Coordination) (b : LocalBatch) (dpRank : Nat) :
    Except ExecutionError BatchExecution :=
  match agreed.numTokensAfterPadding[dpRank]?, RuntimeMode.ofValue agreed.syncedCudagraphMode with
  | none, _ => .error .indexOutOfRange
  | some _, none => .error (.invalidCudagraphMode agreed.syncedCudagraphMode)
  | some numTokensPadded, some mode => do
    let dispatched ← dispatchCudagraph d b numTokensPadded false [mode]
    ensure (dispatched.2.numTokens = numTokensPadded) .tokenCountMismatch
    pure
      { cudagraphMode := dispatched.1
        batchDescriptor := dispatched.2
        shouldUbatch := agreed.shouldUbatch
        numTokensAcrossDp := some agreed.numTokensAfterPadding }

/-- `_determine_batch_execution_and_padding` on all ranks of one step, with the batch of every
rank. All ranks have built the same dispatcher, as they share their configuration. -/
def determineBatchExecutionAndPadding (c : RunnerConfig) (d : CudagraphDispatcher)
    (batches : List LocalBatch) : Except ExecutionError (List BatchExecution) := do
  let dispatched ← batches.mapM (dispatchLocally c d)
  if 1 < batches.length then do
    let entries ← (batches.zip dispatched).mapM fun e => syncEntry c d e.1 e.2
    let agreed := synchronizeDpRanks c (runAr entries)
    batches.zipIdx.mapM fun e => redispatch d agreed e.1 e.2
  else
    pure (dispatched.map fun e =>
      { cudagraphMode := e.1, batchDescriptor := e.2, shouldUbatch := false
        numTokensAcrossDp := none })

end Vllm.Worker
