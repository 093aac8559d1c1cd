import Mathlib.Data.List.Basic
import Mathlib.Order.Basic
import Mathlib.Algebra.Order.Group.Nat

/-!
# Requests

The data of one request, as the block hasher, the KV cache manager and the
scheduler read and write it. Token positions are natural numbers; the counters
the source may drive below zero are integers. Timestamps are only ever compared,
so an arrival time is a natural number.
-/

namespace Vllm

/-- Token ids of the vocabulary. -/
abbrev TokenId := Nat

/-- Request ids. The source uses strings; only equality and order are read. -/
abbrev RequestId := Nat

/-- A row of a prompt-embedding tensor, as its raw words. -/
abbrev EmbedRow := List Nat

/-- Where a multimodal item sits in the prompt. -/
structure PlaceholderRange where
  /-- First prompt position of the placeholder. -/
  offset : Nat
  /-- Number of placeholder tokens. -/
  length : Nat
  /-- Which placeholder positions receive an embedding; all of them when `none`. -/
  isEmbed : Option (List Bool) := none
  deriving DecidableEq, Repr

/-- One multimodal item of a request. -/
structure MultiModalFeatureSpec where
  /-- The hash under which encoder outputs are cached. -/
  identifier : String
  /-- The placeholder of the item. -/
  mmPosition : PlaceholderRange
  deriving DecidableEq, Repr

/-- The position just past an item's placeholder. -/
def MultiModalFeatureSpec.stop (f : MultiModalFeatureSpec) : Nat :=
  f.mmPosition.offset + f.mmPosition.length

/-- The adapter a request runs under. -/
structure LoRARequest where
  /-- Adapter name, part of the block hash. -/
  loraName : String
  /-- Adapter id, counted against the adapter limit of a step. -/
  loraIntId : Nat
  deriving DecidableEq, Repr

/-- Parameters of the repeated-pattern stop test. -/
structure RepetitionDetectionParams where
  maxPatternSize : Int
  minPatternSize : Int
  minCount : Int
  deriving DecidableEq, Repr

/-- The sampling parameters the scheduler reads. -/
structure SamplingParams where
  minTokens : Nat := 0
  eosTokenId : Option TokenId := none
  stopTokenIds : List TokenId := []
  repetitionDetection : Option RepetitionDetectionParams := none
  deriving DecidableEq, Repr

/-- The life cycle of a request, in the order of the source enumeration. -/
inductive RequestStatus where
  | waiting
  | waitingForFsm
  | waitingForRemoteKvs
  | waitingForStreamingReq
  | running
  | preempted
  | finishedStopped
  | finishedLengthCapped
  | finishedAborted
  | finishedIgnored
  | finishedError
  | finishedRepetition
  deriving DecidableEq, Repr

/-- Every status after `preempted` is a finished one. -/
def RequestStatus.isFinished : RequestStatus → Bool
  | .waiting | .waitingForFsm | .waitingForRemoteKvs | .waitingForStreamingReq
  | .running | .preempted => false
  | _ => true

/-- The next input chunk of a streaming session. -/
structure StreamingUpdate where
  mmFeatures : List MultiModalFeatureSpec := []
  promptTokenIds : List TokenId := []
  maxTokens : Nat := 0
  arrivalTime : Nat := 0
  samplingParams : SamplingParams := {}
  deriving DecidableEq, Repr

/-- A request; `H` is the type of block hashes. -/
structure Request (H : Type) where
  requestId : RequestId
  priority : Int := 0
  arrivalTime : Nat := 0
  /-- True for pooling requests, which carry no sampling parameters. -/
  pooling : Bool := false
  samplingParams : SamplingParams := {}
  maxTokens : Nat := 0
  loraRequest : Option LoRARequest := none
  useStructuredOutput : Bool := false
  status : RequestStatus := .waiting
  promptTokenIds : Option (List TokenId) := none
  promptEmbeds : Option (List EmbedRow) := none
  numPromptTokens : Nat := 0
  outputTokenIds : List TokenId := []
  allTokenIds : List TokenId := []
  numOutputPlaceholders : Int := 0
  discardLatestAsyncTokens : Bool := false
  specTokenIds : List TokenId := []
  numComputedTokens : Int := 0
  cacheSalt : Option String := none
  mmFeatures : List MultiModalFeatureSpec := []
  isPrefillChunk : Bool := false
  numPreemptions : Nat := 0
  numCachedTokens : Int := -1
  blockHashes : List H := []
  skipReadingPrefixCache : Bool := false
  resumable : Bool := false
  /-- Queued session chunks; a `none` entry ends the session. -/
  streamingQueue : Option (List (Option StreamingUpdate)) := none
  deriving DecidableEq, Repr

variable {H : Type}

/-- The tokens a request starts with; a prompt given by embeddings counts as zeros. -/
def initialTokenIds (promptTokenIds : Option (List TokenId))
    (promptEmbeds : Option (List EmbedRow)) : List TokenId :=
  match promptTokenIds with
  | some tokens => tokens
  | none => List.replicate (promptEmbeds.getD []).length 0

/-- Number of known tokens, prompt and output. -/
def Request.numTokens (r : Request H) : Nat := r.allTokenIds.length

/-- Number of known tokens and draft tokens. -/
def Request.numTokensWithSpec (r : Request H) : Nat := r.allTokenIds.length + r.specTokenIds.length

/-- Number of generated tokens. -/
def Request.numOutputTokens (r : Request H) : Nat := r.outputTokenIds.length

/-- Whether the request has multimodal items. -/
def Request.hasEncoderInputs (r : Request H) : Bool := !r.mmFeatures.isEmpty

end Vllm
