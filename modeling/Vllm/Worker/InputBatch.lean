import Vllm.Core.Request
import Vllm.Library.Checked
import Vllm.Library.Dict
import Mathlib.Data.List.Sort
import Mathlib.Algebra.GroupWithZero.Nat

/-!
# The persistent batch

The worker keeps one row for each request of its batch: an index into some twenty parallel
arrays and dictionaries. Requests leave, others are written into the holes or behind the end,
`condense` slides the last ones into the holes that remain, and rows may be swapped. An array
is a function of the index; a float is a value of some type `F`, which an array keeps in single
precision.
-/

namespace Vllm.Worker

open Checked

variable {F V : Type}

/-- Errors of the batch. -/
inductive BatchError where
  /-- `assert new_req_index < self.max_num_reqs`. -/
  | batchFull
  /-- `removed_append` after the removed indices were read. -/
  | removedAfterRead
  /-- An `assert` on the request at an index. -/
  | noRequest
  | keyError
  | indexError
  /-- A `ValueError` about the prompt. -/
  | promptLength
  /-- "Unrecognized request type". -/
  | unrecognizedRequest
  deriving DecidableEq, Repr

/-- A type of floats with the conversion that an array of single precision makes. -/
class SinglePrecision (F : Type) extends Zero F where
  single : F → F
  single_zero : single 0 = 0

export SinglePrecision (single single_zero)

/-! ## Requests -/

/-- The sampling parameters that a row holds. For the lists of tokens, `None` and the empty list
are alike. -/
structure SamplingParams (F : Type) where
  /-- `sampling_type` is `GREEDY`. -/
  greedy : Bool
  temperature : F
  topP : F
  topK : Int
  frequencyPenalty : F
  presencePenalty : F
  repetitionPenalty : F
  minP : F
  allowedTokenIds : List TokenId := []
  badWordsTokenIds : List (List TokenId) := []
  deriving DecidableEq, Repr

/-- `PoolingParams`. -/
structure PoolingParams where
  requiresTokenIds : Bool
  deriving DecidableEq, Repr

/-- `CachedRequestState`; a generator is told by its number. -/
structure CachedRequestState (F : Type) where
  reqId : RequestId
  promptTokenIds : Option (List TokenId)
  promptEmbeds : Option (List EmbedRow) := none
  outputTokenIds : List TokenId := []
  numComputedTokens : Nat := 0
  blockIds : List (List Nat)
  samplingParams : Option (SamplingParams F)
  generator : Option Nat := none
  poolingParams : Option PoolingParams := none
  loraRequest : Option LoRARequest := none
  deriving DecidableEq, Repr

/-- `length_from_prompt_token_ids_or_embeds`. -/
def lengthFromPromptTokenIdsOrEmbeds (promptTokenIds : Option (List TokenId))
    (promptEmbeds : Option (List EmbedRow)) : Except BatchError Nat :=
  match promptTokenIds, promptEmbeds with
  | none, none => .error .promptLength
  | none, some embeds => .ok embeds.length
  | some tokens, none => .ok tokens.length
  | some tokens, some embeds => do
    ensure (embeds.length = tokens.length) .promptLength
    pure tokens.length

/-! ## The builder of batch updates -/

/-- `MoveDirectionality`. -/
inductive MoveDirectionality where
  | unidirectional
  | swap
  deriving DecidableEq, Repr

/-- An added request. -/
structure AddedRequest (F : Type) where
  index : Nat
  params : SamplingParams F
  promptTokIds : Option (List TokenId)
  outputTokIds : List TokenId
  deriving DecidableEq, Repr

/-- A move, or swap, between two indices. -/
structure MovedRequest where
  adx : Nat
  bdx : Nat
  direct : MoveDirectionality
  deriving DecidableEq, Repr

/-- `BatchUpdateBuilder`. -/
structure BatchUpdateBuilder (F : Type) where
  removedIndices : List Nat := []
  isRemovedSorted : Bool := false
  added : List (AddedRequest F) := []
  moved : List MovedRequest := []
  batchChanged : Bool := false
  deriving DecidableEq, Repr

/-- What the logits processors are told about a step. -/
structure BatchUpdate (F : Type) where
  batchSize : Nat
  removed : List Nat
  added : List (AddedRequest F)
  moved : List MovedRequest
  deriving DecidableEq, Repr

namespace BatchUpdateBuilder

variable (u : BatchUpdateBuilder F)

/-- `_ensure_removed_sorted`, in descending order. -/
def ensureRemovedSorted : BatchUpdateBuilder F :=
  if u.isRemovedSorted then u
  else { u with
    removedIndices := u.removedIndices.insertionSort (· ≥ ·)
    isRemovedSorted := true }

/-- `removed_append`. -/
def removedAppend (index : Nat) : Except BatchError (BatchUpdateBuilder F) := do
  ensure (u.isRemovedSorted = false) .removedAfterRead
  pure { u with removedIndices := u.removedIndices ++ [index], batchChanged := true }

/-- `peek_removed`. -/
def peekRemoved : Option Nat × BatchUpdateBuilder F :=
  if u.removedIndices = [] then (none, u)
  else
    let u := u.ensureRemovedSorted
    (u.removedIndices.getLast?, u)

/-- `pop_removed`. -/
def popRemoved : Option Nat × BatchUpdateBuilder F :=
  if u.removedIndices = [] then (none, u)
  else
    let u := u.ensureRemovedSorted
    (u.removedIndices.getLast?, { u with removedIndices := u.removedIndices.dropLast })

/-- `get_and_reset`. -/
def getAndReset (batchSize : Nat) : Option (BatchUpdate F) × BatchUpdateBuilder F :=
  if u.removedIndices = [] ∧ u.moved = [] ∧ u.added = [] then
    (none, { u with isRemovedSorted := false, batchChanged := false })
  else
    (some ⟨batchSize, u.removedIndices, u.added, u.moved⟩, {})

end BatchUpdateBuilder

/-! ## Arrays and rows -/

/-- Assign a slice of a row. -/
def writeSlice (row : Nat → V) (start : Nat) (values : List V) : Nat → V := fun p =>
  if start ≤ p then values[p - start]?.getD (row p) else row p

/-- Exchange two entries of an array. -/
def swapEntries (a : Nat → V) (i j : Nat) : Nat → V :=
  Function.update (Function.update a i (a j)) j (a i)

/-- Exchange two entries of a list. -/
def swapAt (l : List V) (i j : Nat) : List V :=
  match l[i]?, l[j]? with
  | some x, some y => (l.set i y).set j x
  | _, _ => l

/-- Write an entry of a list, or append it behind the end. -/
def placeAt (l : List V) (i : Nat) (x : V) : List V :=
  if i = l.length then l ++ [x] else l.set i x

/-- `swap_dict_values`. -/
def swapDictValues (d : Dict Nat V) (i j : Nat) : Dict Nat V :=
  let v₁ := d.get? i
  let v₂ := d.get? j
  let d := match v₁ with
    | some v => d.insert j v
    | none => d.erase j
  match v₂ with
    | some v => d.insert i v
    | none => d.erase i

/-- A value of a dictionary goes to another index, if there is one. -/
def moveDictValue (d : Dict Nat V) (src dst : Nat) : Dict Nat V :=
  match d.get? src with
  | some v => (d.erase src).insert dst v
  | none => d

/-- The arrays of token ids and of counts. -/
structure TokenRows where
  tokenIdsCpu : Nat → Nat → TokenId
  isTokenIds : Nat → Nat → Bool
  numTokensNoSpec : Nat → Nat
  numPromptTokens : Nat → Nat
  numComputedTokensCpu : Nat → Nat

namespace TokenRows

/-- The writes of `add_request`. -/
def add (t : TokenRows) (i : Nat) (request : CachedRequestState F) (numPromptTokens : Nat) :
    TokenRows :=
  let tokens := match request.promptTokenIds with
    | some prompt => writeSlice (t.tokenIdsCpu i) 0 prompt
    | none => t.tokenIdsCpu i
  let isToken := writeSlice (t.isTokenIds i) 0
    (List.replicate numPromptTokens request.promptTokenIds.isSome)
  { tokenIdsCpu := Function.update t.tokenIdsCpu i
      (writeSlice tokens numPromptTokens request.outputTokenIds)
    isTokenIds := Function.update t.isTokenIds i (writeSlice isToken numPromptTokens
      (List.replicate request.outputTokenIds.length true))
    numTokensNoSpec := Function.update t.numTokensNoSpec i
      (numPromptTokens + request.outputTokenIds.length)
    numPromptTokens := Function.update t.numPromptTokens i numPromptTokens
    numComputedTokensCpu := Function.update t.numComputedTokensCpu i request.numComputedTokens }

/-- Draft tokens, written behind the tokens of a row. -/
def addSpec (t : TokenRows) (i : Nat) (specTokenIds : List TokenId) : TokenRows :=
  { t with
    tokenIdsCpu := Function.update t.tokenIdsCpu i
      (writeSlice (t.tokenIdsCpu i) (t.numTokensNoSpec i) specTokenIds) }

/-- The writes of `condense`: the first tokens of a row and its counts. -/
def move (t : TokenRows) (src dst numTokens : Nat) : TokenRows where
  tokenIdsCpu := Function.update t.tokenIdsCpu dst
    (writeSlice (t.tokenIdsCpu dst) 0 ((List.range numTokens).map (t.tokenIdsCpu src)))
  isTokenIds := Function.update t.isTokenIds dst
    (writeSlice (t.isTokenIds dst) 0 ((List.range numTokens).map (t.isTokenIds src)))
  numTokensNoSpec := Function.update t.numTokensNoSpec dst (t.numTokensNoSpec src)
  numPromptTokens := Function.update t.numPromptTokens dst (t.numPromptTokens src)
  numComputedTokensCpu := Function.update t.numComputedTokensCpu dst (t.numComputedTokensCpu src)

/-- The writes of `swap_states`. -/
def swap (t : TokenRows) (i j : Nat) : TokenRows where
  tokenIdsCpu := swapEntries t.tokenIdsCpu i j
  isTokenIds := swapEntries t.isTokenIds i j
  numTokensNoSpec := swapEntries t.numTokensNoSpec i j
  numPromptTokens := swapEntries t.numPromptTokens i j
  numComputedTokensCpu := swapEntries t.numComputedTokensCpu i j

end TokenRows

/-- The block table of one KV cache group. -/
structure BlockTable where
  blocksPerKvBlock : Nat
  table : Nat → Nat → Nat
  numBlocksPerRow : Nat → Nat

/-- `map_to_kernel_blocks`. -/
def mapToKernelBlocks (blockIds : List Nat) (blocksPerKvBlock : Nat) : List Nat :=
  if blocksPerKvBlock = 1 then blockIds
  else blockIds.flatMap fun block =>
    (List.range blocksPerKvBlock).map fun k => block * blocksPerKvBlock + k

namespace BlockTable

/-- `append_row`. -/
def appendRow (t : BlockTable) (blockIds : List Nat) (i : Nat) : BlockTable :=
  if blockIds = [] then t
  else
    let blocks := mapToKernelBlocks blockIds t.blocksPerKvBlock
    let start := t.numBlocksPerRow i
    { t with
      numBlocksPerRow := Function.update t.numBlocksPerRow i (start + blocks.length)
      table := Function.update t.table i (writeSlice (t.table i) start blocks) }

/-- `add_row`. -/
def addRow (t : BlockTable) (blockIds : List Nat) (i : Nat) : BlockTable :=
  appendRow { t with numBlocksPerRow := Function.update t.numBlocksPerRow i 0 } blockIds i

/-- `move_row`. -/
def moveRow (t : BlockTable) (src dst : Nat) : BlockTable :=
  let numBlocks := t.numBlocksPerRow src
  { t with
    table := Function.update t.table dst
      (writeSlice (t.table dst) 0 ((List.range numBlocks).map (t.table src)))
    numBlocksPerRow := Function.update t.numBlocksPerRow dst numBlocks }

/-- `swap_row`. -/
def swapRow (t : BlockTable) (i j : Nat) : BlockTable :=
  { t with
    numBlocksPerRow := swapEntries t.numBlocksPerRow i j
    table := swapEntries t.table i j }

end BlockTable

/-- `MultiGroupBlockTable.add_row`. -/
def addRows (i : Nat) : List BlockTable → List (List Nat) → Except BatchError (List BlockTable)
  | [], _ => .ok []
  | _ :: _, [] => .error .indexError
  | t :: tables, blockIds :: rest => do
    let tables ← addRows i tables rest
    pure (t.addRow blockIds i :: tables)

/-- The arrays of sampling parameters. -/
structure SamplingRows (F : Type) where
  temperatureCpu : Nat → F
  topPCpu : Nat → F
  topKCpu : Nat → Int
  frequencyPenaltiesCpu : Nat → F
  presencePenaltiesCpu : Nat → F
  repetitionPenaltiesCpu : Nat → F

namespace SamplingRows

/-- The writes of `add_request`; a greedy request has temperature zero. -/
def add [SinglePrecision F] (s : SamplingRows F) (i : Nat) (params : SamplingParams F)
    (vocabSize : Nat) : SamplingRows F where
  temperatureCpu :=
    Function.update s.temperatureCpu i (if params.greedy then 0 else single params.temperature)
  topPCpu := Function.update s.topPCpu i (single params.topP)
  topKCpu := Function.update s.topKCpu i
    (if 0 < params.topK ∧ params.topK < vocabSize then params.topK else vocabSize)
  frequencyPenaltiesCpu :=
    Function.update s.frequencyPenaltiesCpu i (single params.frequencyPenalty)
  presencePenaltiesCpu := Function.update s.presencePenaltiesCpu i (single params.presencePenalty)
  repetitionPenaltiesCpu :=
    Function.update s.repetitionPenaltiesCpu i (single params.repetitionPenalty)

/-- The writes of `condense`. -/
def move (s : SamplingRows F) (src dst : Nat) : SamplingRows F where
  temperatureCpu := Function.update s.temperatureCpu dst (s.temperatureCpu src)
  topPCpu := Function.update s.topPCpu dst (s.topPCpu src)
  topKCpu := Function.update s.topKCpu dst (s.topKCpu src)
  frequencyPenaltiesCpu := Function.update s.frequencyPenaltiesCpu dst (s.frequencyPenaltiesCpu src)
  presencePenaltiesCpu := Function.update s.presencePenaltiesCpu dst (s.presencePenaltiesCpu src)
  repetitionPenaltiesCpu :=
    Function.update s.repetitionPenaltiesCpu dst (s.repetitionPenaltiesCpu src)

/-- The writes of `swap_states`. -/
def swap (s : SamplingRows F) (i j : Nat) : SamplingRows F where
  temperatureCpu := swapEntries s.temperatureCpu i j
  topPCpu := swapEntries s.topPCpu i j
  topKCpu := swapEntries s.topKCpu i j
  frequencyPenaltiesCpu := swapEntries s.frequencyPenaltiesCpu i j
  presencePenaltiesCpu := swapEntries s.presencePenaltiesCpu i j
  repetitionPenaltiesCpu := swapEntries s.repetitionPenaltiesCpu i j

end SamplingRows

/-! ## The batch -/

/-- The settings of a batch. -/
structure BatchConfig where
  isPoolingModel : Bool
  maxNumReqs : Nat
  vocabSize : Nat
  /-- The number of kernel blocks in a block, for each KV cache group. -/
  blocksPerKvBlock : List Nat
  deriving DecidableEq, Repr

/-- `InputBatch`. -/
structure InputBatch (F : Type) where
  reqIds : List (Option RequestId)
  reqIdToIndex : Dict RequestId Nat
  reqOutputTokenIds : List (Option (List TokenId))
  specTokenIds : List (List TokenId)
  tokens : TokenRows
  reqPromptEmbeds : Dict Nat (List EmbedRow)
  blockTables : List BlockTable
  sampling : SamplingRows F
  numAcceptedTokensCpu : Nat → Nat
  requestLoraMapping : Nat → Nat
  loraIdToRequestIds : Dict Nat (List RequestId)
  loraIdToLoraRequest : Dict Nat LoRARequest
  generators : Dict Nat Nat
  /-- The mask, once a request restricted its tokens; `True` where a token is not allowed. -/
  allowedTokenIdsMask : Option (Nat → TokenId → Bool)
  badWordsTokenIds : Dict Nat (List (List TokenId))
  logitsProcessingNeedsTokenIds : Nat → Bool
  batchUpdateBuilder : BatchUpdateBuilder F

namespace InputBatch

/-- An empty batch. The arrays of parameters are not initialized. -/
def init (cfg : BatchConfig) (sampling : SamplingRows F) : InputBatch F where
  reqIds := []
  reqIdToIndex := .empty
  reqOutputTokenIds := []
  specTokenIds := List.replicate cfg.maxNumReqs []
  tokens := ⟨fun _ _ => 0, fun _ _ => false, fun _ => 0, fun _ => 0, fun _ => 0⟩
  reqPromptEmbeds := .empty
  blockTables := cfg.blocksPerKvBlock.map fun k => ⟨k, fun _ _ => 0, fun _ => 0⟩
  sampling
  numAcceptedTokensCpu := fun _ => 1
  requestLoraMapping := fun _ => 0
  loraIdToRequestIds := .empty
  loraIdToLoraRequest := .empty
  generators := .empty
  allowedTokenIdsMask := none
  badWordsTokenIds := .empty
  logitsProcessingNeedsTokenIds := fun _ => false
  batchUpdateBuilder := {}

variable (cfg : BatchConfig) (b : InputBatch F)

/-- `num_reqs`. -/
def numReqs : Nat := b.reqIdToIndex.entries.length

/-! ### Adding a request -/

/-- `_register_add_request`. -/
def registerAddRequest (request : CachedRequestState F) :
    Except BatchError (Nat × InputBatch F) := do
  let popped := b.batchUpdateBuilder.popRemoved
  let newReqIndex := popped.1.getD b.numReqs
  ensure (newReqIndex < cfg.maxNumReqs) .batchFull
  let added := match request.samplingParams with
    | some params => popped.2.added ++
      [⟨newReqIndex, params, request.promptTokenIds, request.outputTokenIds⟩]
    | none => popped.2.added
  pure (newReqIndex, { b with
    batchUpdateBuilder := { popped.2 with added, batchChanged := true } })

/-- The entries that tell which request an index has. -/
def placeRequest (i : Nat) (request : CachedRequestState F) : InputBatch F :=
  { b with
    reqIds := placeAt b.reqIds i (some request.reqId)
    reqOutputTokenIds := placeAt b.reqOutputTokenIds i (some request.outputTokenIds)
    specTokenIds :=
      if i = b.reqIds.length then b.specTokenIds ++ [[]] else b.specTokenIds.set i []
    reqIdToIndex := b.reqIdToIndex.insert request.reqId i }

/-- The row of the mask that `add_request` writes; the tensor is allocated when it is needed. -/
def addAllowedTokenIds (mask : Option (Nat → TokenId → Bool)) (i : Nat)
    (allowedTokenIds : List TokenId) : Option (Nat → TokenId → Bool) :=
  if allowedTokenIds = [] then mask
  else some (Function.update (mask.getD fun _ _ => false) i fun token =>
    decide (token ∉ allowedTokenIds))

/-- The part of `add_request` about the parameters of the request. -/
def addParams [SinglePrecision F] (i : Nat) (request : CachedRequestState F) :
    Except BatchError (InputBatch F) :=
  match request.samplingParams with
  | some params => do
    ensure (∀ token ∈ params.allowedTokenIds, token < cfg.vocabSize) .indexError
    pure { b with
      sampling := b.sampling.add i params cfg.vocabSize
      generators := match request.generator with
        | some generator => b.generators.insert i generator
        | none => b.generators
      allowedTokenIdsMask := addAllowedTokenIds b.allowedTokenIdsMask i params.allowedTokenIds
      badWordsTokenIds :=
        if params.badWordsTokenIds = [] then b.badWordsTokenIds
        else b.badWordsTokenIds.insert i params.badWordsTokenIds }
  | none =>
    match request.poolingParams with
    | some params => .ok { b with
        logitsProcessingNeedsTokenIds :=
          Function.update b.logitsProcessingNeedsTokenIds i params.requiresTokenIds }
    | none => .error .unrecognizedRequest

/-- The part of `add_request` about the adapter. -/
def addLora (i : Nat) (request : CachedRequestState F) : InputBatch F :=
  match request.loraRequest with
  | some lora =>
    let reqIds := (b.loraIdToRequestIds.get? lora.loraIntId).getD []
    { b with
      requestLoraMapping := Function.update b.requestLoraMapping i lora.loraIntId
      loraIdToRequestIds := b.loraIdToRequestIds.insert lora.loraIntId
        (if request.reqId ∈ reqIds then reqIds else reqIds ++ [request.reqId])
      loraIdToLoraRequest := b.loraIdToLoraRequest.insert lora.loraIntId lora }
  | none => { b with requestLoraMapping := Function.update b.requestLoraMapping i 0 }

/-- `add_request`. -/
def addRequest [SinglePrecision F] (request : CachedRequestState F) :
    Except BatchError (InputBatch F) := do
  let (i, b) ← b.registerAddRequest cfg request
  let b := b.placeRequest i request
  let numPromptTokens ←
    lengthFromPromptTokenIdsOrEmbeds request.promptTokenIds request.promptEmbeds
  let blockTables ← addRows i b.blockTables request.blockIds
  let b := { b with
    tokens := b.tokens.add i request numPromptTokens
    reqPromptEmbeds := match request.promptEmbeds with
      | some embeds => b.reqPromptEmbeds.insert i embeds
      | none => b.reqPromptEmbeds
    blockTables }
  let b ← b.addParams cfg i request
  let b := { b with numAcceptedTokensCpu := Function.update b.numAcceptedTokensCpu i 1 }
  pure (b.addLora i request)

/-- `update_req_spec_token_ids`. -/
def updateReqSpecTokenIds (reqId : RequestId) (specTokenIds : List TokenId) :
    Except BatchError (InputBatch F) :=
  match b.reqIdToIndex.get? reqId with
  | none => .error .keyError
  | some i => .ok { b with
      tokens := if specTokenIds = [] then b.tokens else b.tokens.addSpec i specTokenIds
      specTokenIds := b.specTokenIds.set i specTokenIds }

/-! ### Removing a request -/

/-- The part of `remove_request` about the adapter. -/
def removeLora (reqId : RequestId) (i : Nat) : Except BatchError (InputBatch F) :=
  let loraId := b.requestLoraMapping i
  if loraId = 0 then .ok b
  else
    match b.loraIdToRequestIds.get? loraId with
    | none => .error .keyError
    | some reqIds =>
      let left := reqIds.filter (· ≠ reqId)
      .ok { b with
        loraIdToRequestIds :=
          if left = [] then b.loraIdToRequestIds.erase loraId
          else b.loraIdToRequestIds.insert loraId left
        loraIdToLoraRequest :=
          if left = [] then b.loraIdToLoraRequest.erase loraId else b.loraIdToLoraRequest
        requestLoraMapping := Function.update b.requestLoraMapping i 0 }

/-- The part of `remove_request` about the parameters. -/
def removeParams (i : Nat) : InputBatch F :=
  { b with
    generators := b.generators.erase i
    allowedTokenIdsMask := b.allowedTokenIdsMask.map fun mask =>
      Function.update mask i fun _ => false
    badWordsTokenIds := b.badWordsTokenIds.erase i }

/-- `remove_request`. -/
def removeRequest (reqId : RequestId) : Except BatchError (InputBatch F) :=
  match b.reqIdToIndex.get? reqId with
  | none => .ok b
  | some i => do
    let batchUpdateBuilder ← b.batchUpdateBuilder.removedAppend i
    let b ← removeLora { b with
      reqIdToIndex := b.reqIdToIndex.erase reqId
      batchUpdateBuilder
      reqIds := b.reqIds.set i none
      reqOutputTokenIds := b.reqOutputTokenIds.set i none
      specTokenIds := b.specTokenIds.set i [] } reqId i
    pure (if cfg.isPoolingModel then b else b.removeParams i)

/-! ### Swapping rows -/

/-- The mask under the assignment of two rows to each other: both sides are views, and the
second assignment reads the row that the first one wrote. -/
def swapMaskRows (mask : Nat → TokenId → Bool) (i j : Nat) : Nat → TokenId → Bool :=
  let mask := Function.update mask i (mask j)
  Function.update mask j (mask i)

/-- The part of `swap_states` that pooling models leave out. -/
def swapParams (i j : Nat) : InputBatch F :=
  { b with
    batchUpdateBuilder := { b.batchUpdateBuilder with
      moved := b.batchUpdateBuilder.moved ++ [⟨i, j, .swap⟩] }
    sampling := b.sampling.swap i j
    numAcceptedTokensCpu := swapEntries b.numAcceptedTokensCpu i j
    generators := swapDictValues b.generators i j
    badWordsTokenIds := swapDictValues b.badWordsTokenIds i j
    allowedTokenIdsMask := b.allowedTokenIdsMask.map fun mask => swapMaskRows mask i j }

/-- `swap_states`. -/
def swapStates (i j : Nat) : Except BatchError (InputBatch F) :=
  match b.reqIds[i]?, b.reqIds[j]? with
  | some (some oldIdI), some (some oldIdJ) =>
    match b.reqIdToIndex.get? oldIdI, b.reqIdToIndex.get? oldIdJ with
    | some indexI, some indexJ =>
      let b := { b with
        reqIds := swapAt b.reqIds i j
        reqOutputTokenIds := swapAt b.reqOutputTokenIds i j
        specTokenIds := swapAt b.specTokenIds i j
        reqIdToIndex := (b.reqIdToIndex.insert oldIdI indexJ).insert oldIdJ indexI
        tokens := b.tokens.swap i j
        reqPromptEmbeds := swapDictValues b.reqPromptEmbeds i j
        blockTables := b.blockTables.map (·.swapRow i j)
        requestLoraMapping := swapEntries b.requestLoraMapping i j }
      .ok (if cfg.isPoolingModel then b else b.swapParams i j)
    | _, _ => .error .keyError
  | some _, some _ => .error .noRequest
  | _, _ => .error .indexError

/-- What the runner writes for the request at an index once it knows how many of the tokens of the
step are accepted. -/
def setNumAcceptedTokens (i numTokens : Nat) : InputBatch F :=
  { b with numAcceptedTokensCpu := Function.update b.numAcceptedTokensCpu i numTokens }

/-! ### Condensing -/

/-- The part of a move that pooling models leave out. -/
def moveParams (src dst : Nat) : InputBatch F :=
  { b with
    batchUpdateBuilder := { b.batchUpdateBuilder with
      moved := b.batchUpdateBuilder.moved ++ [⟨src, dst, .unidirectional⟩] }
    sampling := b.sampling.move src dst
    numAcceptedTokensCpu :=
      Function.update b.numAcceptedTokensCpu dst (b.numAcceptedTokensCpu src)
    generators := moveDictValue b.generators src dst
    allowedTokenIdsMask := b.allowedTokenIdsMask.map fun mask =>
      Function.update mask dst (mask src)
    badWordsTokenIds := moveDictValue b.badWordsTokenIds src dst }

/-- The body of the loop of `condense`: the request at `src` slides down to `dst`. -/
def moveRequest (src dst : Nat) : Except BatchError (InputBatch F) :=
  match b.reqIds[src]? with
  | some (some reqId) =>
    let numTokens := b.tokens.numTokensNoSpec src + (b.specTokenIds[src]?.getD []).length
    let b := { b with
      batchUpdateBuilder := b.batchUpdateBuilder.popRemoved.2
      reqIds := (b.reqIds.set dst (some reqId)).set src none
      reqOutputTokenIds :=
        (b.reqOutputTokenIds.set dst (b.reqOutputTokenIds[src]?.getD none)).set src none
      reqIdToIndex := b.reqIdToIndex.insert reqId dst
      specTokenIds := (b.specTokenIds.set dst (b.specTokenIds[src]?.getD [])).set src []
      tokens := b.tokens.move src dst numTokens
      reqPromptEmbeds := moveDictValue b.reqPromptEmbeds src dst
      blockTables := b.blockTables.map (·.moveRow src dst)
      requestLoraMapping :=
        Function.update b.requestLoraMapping dst (b.requestLoraMapping src) }
    .ok (if cfg.isPoolingModel then b else b.moveParams src dst)
  | _ => .error .noRequest

/-- The largest index up to `last` that is not empty. -/
def lastNonEmpty (removed : List Nat) : Nat → Nat
  | 0 => 0
  | last + 1 => if last + 1 ∈ removed then lastNonEmpty removed last else last + 1

/-- The move that the loop of `condense` makes next, if it goes on. -/
def nextMove (last : Nat) : Option (Nat × Nat) :=
  let src := lastNonEmpty b.batchUpdateBuilder.removedIndices last
  match b.batchUpdateBuilder.peekRemoved.1 with
  | none => none
  | some dst => if src ≤ dst then none else some (src, dst)

/-- The loop of `condense`; a round takes one of the `empties`. -/
def condenseLoop : Nat → InputBatch F → Nat → Except BatchError (InputBatch F)
  | 0, b, _ => .ok b
  | empties + 1, b, last =>
    match b.nextMove last with
    | none => .ok b
    | some (src, dst) => do
      let b ← b.moveRequest cfg src dst
      condenseLoop empties b (src - 1)

/-- `condense`. -/
def condense : Except BatchError (InputBatch F) :=
  let numReqs := b.numReqs
  let b := { b with batchUpdateBuilder := b.batchUpdateBuilder.ensureRemovedSorted }
  let empties := b.batchUpdateBuilder.removedIndices.length
  if empties = 0 then .ok b
  else if numReqs = 0 then
    .ok { b with reqIds := [], reqOutputTokenIds := [], specTokenIds := [] }
  else do
    let b ← condenseLoop cfg empties b (numReqs + empties - 1)
    pure { b with
      reqIds := b.reqIds.take numReqs
      reqOutputTokenIds := b.reqOutputTokenIds.take numReqs
      specTokenIds := b.specTokenIds.take numReqs }

/-- `refresh_metadata`: the update for the logits processors, and the batch with a new builder. -/
def refreshMetadata : Option (BatchUpdate F) × InputBatch F :=
  if cfg.isPoolingModel then (none, { b with batchUpdateBuilder := {} })
  else
    let update := b.batchUpdateBuilder.getAndReset b.numReqs
    (update.1, { b with batchUpdateBuilder := update.2 })

end InputBatch

end Vllm.Worker
