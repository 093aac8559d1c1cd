import Vllm.Library.Checked

/-!
# The dispatcher of CUDA graphs

The dispatcher holds the keys of the captured graphs, one set for piecewise and one for
full graphs. A batch is padded to the next capture size, and dispatched to a full graph,
to a piecewise graph or to none, the first that is allowed and captured. The check of the
compilation mode in the constructor and the list of descriptors to capture are left out.
-/

namespace Vllm.Worker

open Checked

/-- The modes of `CUDAGraphMode` that a batch can run in. -/
inductive RuntimeMode where
  | none
  | piecewise
  | full
  deriving DecidableEq, Repr

namespace RuntimeMode

def value : RuntimeMode → Nat
  | none => 0
  | piecewise => 1
  | full => 2

/-- `valid_runtime_modes`. -/
def validRuntimeModes : List RuntimeMode := [none, piecewise, full]

end RuntimeMode

/-- The modes that can be configured: one for all batches, or one for decodes and one for the
others. -/
inductive CUDAGraphMode where
  | none
  | piecewise
  | full
  | fullDecodeOnly
  | fullAndPiecewise
  deriving DecidableEq, Repr

namespace CUDAGraphMode

def decodeMode : CUDAGraphMode → RuntimeMode
  | none => .none
  | piecewise => .piecewise
  | full | fullDecodeOnly | fullAndPiecewise => .full

def mixedMode : CUDAGraphMode → RuntimeMode
  | none | fullDecodeOnly => .none
  | piecewise | fullAndPiecewise => .piecewise
  | full => .full

def separateRoutine : CUDAGraphMode → Bool
  | fullDecodeOnly | fullAndPiecewise => true
  | none | piecewise | full => false

def hasMode (m : CUDAGraphMode) (mode : RuntimeMode) : Bool :=
  mode = m.decodeMode ∨ mode = m.mixedMode

end CUDAGraphMode

structure BatchDescriptor where
  numTokens : Nat
  /-- `none` for piecewise graphs, which take any number of requests. -/
  numReqs : Option Nat := none
  uniform : Bool := false
  hasLora : Bool := false
  numActiveLoras : Nat := 0
  deriving DecidableEq, Repr

structure LoRAConfig where
  maxLoras : Nat
  specializeActiveLora : Bool

/-- What the dispatcher reads of the configuration. -/
structure DispatchConfig where
  cudagraphCaptureSizes : Option (List Nat)
  maxCudagraphCaptureSize : Nat
  compileSizes : List Nat
  cudagraphSpecializeLora : Bool
  loraConfig : Option LoRAConfig
  maxNumSeqs : Nat
  /-- Zero without a speculative configuration. -/
  numSpeculativeTokens : Nat

/-- `uniform_decode_query_len`, of the dispatcher and of the runner. -/
def DispatchConfig.uniformDecodeQueryLen (c : DispatchConfig) : Nat := 1 + c.numSpeculativeTokens

/-- What stops the dispatcher. -/
inductive DispatchError where
  | captureSizesNotSet
  | indexOutOfRange
  | compileSizePadded (size padded : Nat)
  | notMultipleOfQueryLen
  | invalidRuntimeMode
  | noAllowedModes
  | loraConfigNotSet
  | noMatchingCudagraph
  deriving DecidableEq, Repr

structure CudagraphDispatcher where
  config : DispatchConfig
  cudagraphMode : CUDAGraphMode := .none
  keysInitialized : Bool := false
  /-- `_bs_to_padded_graph_size`. -/
  bsToPaddedGraphSize : List Nat := []
  capturedLoraCounts : List Nat := []
  piecewiseKeys : List BatchDescriptor := []
  fullKeys : List BatchDescriptor := []

/-- `get_captured_lora_counts`. -/
def getCapturedLoraCounts (maxLoras : Nat) (specialize : Bool) : List Nat :=
  if specialize then
    (List.range' 1 (maxLoras + 1)).filter fun n => n &&& (n - 1) = 0 ∨ n = maxLoras + 1
  else [maxLoras + 1]

/-- Write one entry of a table. -/
def writeEntry (table : List Nat) (i value : Nat) : Except DispatchError (List Nat) :=
  if i < table.length then .ok (table.set i value) else .error .indexOutOfRange

/-- The entries from one capture size to before the next: a batch of the first size keeps it, the
larger ones are padded to the next. -/
def writeSegment (table : List Nat) (start stop : Nat) : Except DispatchError (List Nat) :=
  (List.range' start (stop - start)).foldlM
    (fun table bs => writeEntry table bs (if bs = start then start else stop)) table

namespace CudagraphDispatcher

/-- A dispatcher before its keys are initialized. -/
def new (config : DispatchConfig) : CudagraphDispatcher := { config }

/-- `specialize_lora_count`. -/
def specializeLoraCount (d : CudagraphDispatcher) : Bool :=
  match d.config.loraConfig with
  | some lora => lora.specializeActiveLora
  | none => false

/-- The check that a compile size is not changed by padding. -/
def checkCompileSize (maxSize : Nat) (table : List Nat) (size : Nat) : Except DispatchError Unit :=
  if size ≤ maxSize then
    match table[size]? with
    | none => .error .indexOutOfRange
    | some padded => ensure (padded = size) (.compileSizePadded size padded)
  else .ok ()

/-- `_compute_bs_to_padded_graph_size`. -/
def computeBsToPaddedGraphSize (d : CudagraphDispatcher) :
    Except DispatchError CudagraphDispatcher :=
  match d.config.cudagraphCaptureSizes with
  | none => .error .captureSizesNotSet
  | some captureSizes => do
    let maxSize := d.config.maxCudagraphCaptureSize
    let table ← ((captureSizes ++ [maxSize + 1]).zip (0 :: captureSizes)).foldlM
      (fun table segment => writeSegment table segment.2 segment.1)
      (List.replicate (maxSize + 1) 0)
    (if d.cudagraphMode = .none then [] else d.config.compileSizes).forM
      (checkCompileSize maxSize table)
    pure { d with bsToPaddedGraphSize := table }

/-- `_get_lora_cases`. -/
def getLoraCases (d : CudagraphDispatcher) : List Nat :=
  match d.config.loraConfig with
  | none => [0]
  | some lora =>
    if d.config.cudagraphSpecializeLora then
      0 :: getCapturedLoraCounts lora.maxLoras d.specializeLoraCount
    else [lora.maxLoras + 1]

/-- `_create_padded_batch_descriptor`. -/
def createPaddedBatchDescriptor (d : CudagraphDispatcher) (numTokens : Nat)
    (uniformDecode hasLora : Bool) (numActiveLoras : Nat) :
    Except DispatchError BatchDescriptor :=
  match d.bsToPaddedGraphSize[numTokens]? with
  | none => .error .indexOutOfRange
  | some numTokensPadded =>
    if uniformDecode ∧ d.cudagraphMode.hasMode .full then do
      ensure (numTokensPadded % d.config.uniformDecodeQueryLen = 0) .notMultipleOfQueryLen
      pure
        { numTokens := numTokensPadded
          numReqs := some (min (numTokensPadded / d.config.uniformDecodeQueryLen)
            d.config.maxNumSeqs)
          uniform := true, hasLora, numActiveLoras }
    else .ok
      { numTokens := numTokensPadded
        numReqs := some (min numTokensPadded d.config.maxNumSeqs)
        uniform := false, hasLora, numActiveLoras }

/-- `add_cudagraph_key`. -/
def addCudagraphKey (d : CudagraphDispatcher) (runtimeMode : RuntimeMode)
    (batchDescriptor : BatchDescriptor) : Except DispatchError CudagraphDispatcher :=
  match runtimeMode with
  | .none => .error .invalidRuntimeMode
  | .piecewise => .ok { d with piecewiseKeys := batchDescriptor :: d.piecewiseKeys }
  | .full => .ok { d with fullKeys := batchDescriptor :: d.fullKeys }

/-- The keys of mixed batches. Piecewise graphs take any number of requests. -/
def addMixedKey (d : CudagraphDispatcher) (bs numActiveLoras : Nat) :
    Except DispatchError CudagraphDispatcher := do
  let desc ← d.createPaddedBatchDescriptor bs false (0 < numActiveLoras) numActiveLoras
  d.addCudagraphKey d.cudagraphMode.mixedMode
    (if d.cudagraphMode.mixedMode = .piecewise then { desc with numReqs := none, uniform := false }
      else desc)

/-- The keys of uniform decodes. -/
def addDecodeKey (d : CudagraphDispatcher) (bs numActiveLoras : Nat) :
    Except DispatchError CudagraphDispatcher := do
  let desc ← d.createPaddedBatchDescriptor bs true (0 < numActiveLoras) numActiveLoras
  d.addCudagraphKey .full desc

/-- The capture sizes of uniform decodes. -/
def decodeCaptureSizes (d : CudagraphDispatcher) (uniformDecodeQueryLen : Nat)
    (captureSizes : List Nat) : List Nat :=
  captureSizes.filter fun x =>
    x ≤ uniformDecodeQueryLen * d.config.maxNumSeqs ∧ uniformDecodeQueryLen ≤ x

/-- Add a key for every size and every LoRA case. -/
def addKeys (add : CudagraphDispatcher → Nat → Nat → Except DispatchError CudagraphDispatcher)
    (d : CudagraphDispatcher) (sizes cases : List Nat) :
    Except DispatchError CudagraphDispatcher :=
  (sizes.product cases).foldlM (fun d key => add d key.1 key.2) d

/-- Add the keys of mixed batches, if they run in graphs. -/
def addMixedKeys (d : CudagraphDispatcher) (captureSizes : List Nat) :
    Except DispatchError CudagraphDispatcher :=
  if d.cudagraphMode.mixedMode = .none then .ok d
  else addKeys addMixedKey d captureSizes d.getLoraCases

/-- Add the keys of uniform decodes, if they have graphs of their own. -/
def addDecodeKeys (d : CudagraphDispatcher) (uniformDecodeQueryLen : Nat)
    (captureSizes : List Nat) : Except DispatchError CudagraphDispatcher :=
  if d.cudagraphMode.decodeMode = .full ∧ d.cudagraphMode.separateRoutine then
    addKeys addDecodeKey d (d.decodeCaptureSizes uniformDecodeQueryLen captureSizes) d.getLoraCases
  else .ok d

/-- `initialize_cudagraph_keys`. -/
def initializeCudagraphKeys (d : CudagraphDispatcher) (cudagraphMode : CUDAGraphMode)
    (uniformDecodeQueryLen : Nat) : Except DispatchError CudagraphDispatcher :=
  if cudagraphMode = .none then .ok { d with cudagraphMode, keysInitialized := true }
  else do
    let d ← computeBsToPaddedGraphSize { d with cudagraphMode }
    let d := { d with capturedLoraCounts := d.getLoraCases.filter (· ≠ 0) }
    let captureSizes := d.config.cudagraphCaptureSizes.getD []
    let d ← d.addMixedKeys captureSizes
    let d ← d.addDecodeKeys uniformDecodeQueryLen captureSizes
    pure { d with keysInitialized := true }

/-- The number of active adapters in the key of a batch. -/
def effectiveNumActiveLoras (d : CudagraphDispatcher) (hasLora : Bool) (numActiveLoras : Nat) :
    Except DispatchError Nat :=
  if hasLora ∧ 0 < numActiveLoras then
    if d.specializeLoraCount then
      -- `bisect_left`: the first captured count that is not smaller
      .ok ((d.capturedLoraCounts.find? (numActiveLoras ≤ ·)).getD numActiveLoras)
    else
      match d.config.loraConfig with
      | none => .error .loraConfigNotSet
      | some lora => .ok (lora.maxLoras + 1)
  else .ok numActiveLoras

/-- The modes that are allowed. No valid modes stand for all of them. -/
def allowedModes (validModes invalidModes : List RuntimeMode) : List RuntimeMode :=
  (if validModes = [] then RuntimeMode.validRuntimeModes else validModes).filter
    (· ∉ invalidModes)

/-- `dispatch`. -/
def dispatch (d : CudagraphDispatcher) (numTokens : Nat) (uniformDecode hasLora : Bool)
    (numActiveLoras : Nat) (validModes invalidModes : List RuntimeMode) :
    Except DispatchError (RuntimeMode × BatchDescriptor) :=
  let allowed := allowedModes validModes invalidModes
  if allowed = [] then .error .noAllowedModes
  else if ¬ d.keysInitialized ∨ d.cudagraphMode = .none ∨
      d.config.maxCudagraphCaptureSize < numTokens ∨ ∀ m ∈ allowed, m = .none then
    .ok (.none, { numTokens })
  else do
    let effective ← d.effectiveNumActiveLoras hasLora numActiveLoras
    let desc ← d.createPaddedBatchDescriptor numTokens
      (uniformDecode && d.cudagraphMode.separateRoutine) hasLora effective
    let relaxed := { desc with numReqs := none, uniform := false }
    if .full ∈ allowed ∧ desc ∈ d.fullKeys then pure (.full, desc)
    else if .piecewise ∈ allowed ∧ relaxed ∈ d.piecewiseKeys then pure (.piecewise, relaxed)
    else if .none ∈ allowed then pure (.none, { numTokens })
    else throw .noMatchingCudagraph

end CudagraphDispatcher

end Vllm.Worker
