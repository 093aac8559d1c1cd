import Vllm.Core.Request
import Vllm.Library.Blocks
import Mathlib.Algebra.GroupWithZero.Nat

/-!
# Constraints on the logits

The sampler, and the rejection sampler with its rows for draft tokens, force the logits of
some tokens to minus infinity and penalise the tokens of a history. A row of logits is told
by the tokens that are forced and by what the penalties were given; a penalty leaves a forced
token forced. Rows are a function of the index, a float is a value of some type `F`.
-/

namespace Vllm.Sample

variable {F : Type}

/-- The tokens of a bad word. `update_from_tokenizer` looks at the first one. -/
abbrev BadWord := {ids : List TokenId // ids ≠ []}

/-- What the constraints on a request depend on. For the allowed tokens, `None` and the empty
list are alike. -/
structure ConstrainedRequest (F : Type) where
  promptTokenIds : List TokenId := []
  outputTokenIds : List TokenId := []
  specTokenIds : List TokenId := []
  presencePenalty : F
  frequencyPenalty : F
  repetitionPenalty : F
  allowedTokenIds : List TokenId := []
  badWordsTokenIds : List BadWord := []
  minTokens : Nat := 0
  allStopTokenIds : List TokenId := []

/-! ## Rows of logits -/

/-- The arguments of `apply_penalties` for a row. -/
structure PenaltyInputs (F : Type) where
  promptTokenIds : List TokenId
  presencePenalty : F
  frequencyPenalty : F
  repetitionPenalty : F
  outputTokenIds : List TokenId

/-- A row of logits. -/
@[ext]
structure LogitsRow (F : Type) where
  /-- The tokens whose logit is minus infinity. -/
  forced : TokenId → Bool := fun _ => false
  penalized : Option (PenaltyInputs F) := none

/-- The rows of a tensor of logits. -/
abbrev Logits (F : Type) := Nat → LogitsRow F

namespace LogitsRow

variable (row : LogitsRow F)

/-- Force the tokens of a mask. -/
def fill (mask : TokenId → Bool) : LogitsRow F :=
  { row with forced := fun t => row.forced t || mask t }

/-- Force one token. -/
def force (token : TokenId) : LogitsRow F := row.fill fun t => t = token

end LogitsRow

namespace Logits

variable (logits : Logits F)

/-- `masked_fill_` with minus infinity. -/
def maskedFill (mask : Nat → TokenId → Bool) : Logits F := fun j => (logits j).fill (mask j)

/-- `index_put_` of minus infinity at pairs of a row and a token. -/
def indexPut (slice : List (Nat × TokenId)) : Logits F :=
  logits.maskedFill fun j t => (j, t) ∈ slice

end Logits

/-! ## The metadata of a batch -/

/-- An entry of `min_toks`. -/
structure MinToks where
  minTokens : Nat
  outputTokIds : List TokenId
  stopTokIds : List TokenId

/-- `MinTokensLogitsProcessor`. -/
structure MinTokensLogitsProcessor where
  minToks : List (Nat × MinToks)

/-- A logits processor that may change the outcome of a greedy choice. -/
inductive LogitsProcessor where
  | minTokens (processor : MinTokensLogitsProcessor)
  /-- `LogitBiasLogitsProcessor`, whose biases are finite. -/
  | logitBias

/-- `SamplingMetadata`, as far as the constraints go. -/
structure SamplingMetadata (F : Type) where
  noPenalties : Bool
  promptTokenIds : List (List TokenId)
  presencePenalties : List F
  frequencyPenalties : List F
  repetitionPenalties : List F
  outputTokenIds : List (List TokenId)
  specTokenIds : Option (List (List TokenId))
  allowedTokenIdsMask : Option (List (TokenId → Bool))
  badWordsTokenIds : List (Nat × List BadWord)
  nonArgmaxInvariant : List LogitsProcessor

namespace ConstrainedRequest

/-- A request whose penalties are all off is in none of the sets of penalised requests. -/
def hasPenalties [Zero F] [One F] [DecidableEq F] (r : ConstrainedRequest F) : Bool :=
  r.frequencyPenalty ≠ 0 || r.presencePenalty ≠ 0 || r.repetitionPenalty ≠ 1

/-- The row of a request in the mask of allowed tokens. -/
def allowedMask (r : ConstrainedRequest F) (t : TokenId) : Bool :=
  r.allowedTokenIds ≠ [] && t ∉ r.allowedTokenIds

/-- `MinTokensLogitsProcessor.add_request`, or what `update_state` leaves of it. -/
def minToks (r : ConstrainedRequest F) : Option MinToks :=
  if r.minTokens = 0 ∨ r.minTokens ≤ r.outputTokenIds.length then none
  else some ⟨r.minTokens, r.outputTokenIds, r.allStopTokenIds⟩

end ConstrainedRequest

/-- The entries of a dictionary by the index of the batch. -/
def entriesOf {V : Type} (reqs : List (ConstrainedRequest F))
    (entry : ConstrainedRequest F → Option V) : List (Nat × V) :=
  reqs.zipIdx.filterMap fun e => (entry e.1).map fun v => (e.2, v)

/-- `_make_sampling_metadata` for the requests of a batch. -/
def makeSamplingMetadata [Zero F] [One F] [DecidableEq F] (reqs : List (ConstrainedRequest F)) :
    SamplingMetadata F :=
  let noPenalties := reqs.all fun r => !r.hasPenalties
  let badWordsTokenIds := entriesOf reqs fun r =>
    if r.badWordsTokenIds = [] then none else some r.badWordsTokenIds
  { noPenalties
    promptTokenIds := reqs.map (·.promptTokenIds)
    presencePenalties := reqs.map (·.presencePenalty)
    frequencyPenalties := reqs.map (·.frequencyPenalty)
    repetitionPenalties := reqs.map (·.repetitionPenalty)
    outputTokenIds := reqs.map (·.outputTokenIds)
    specTokenIds := some (reqs.map (·.specTokenIds))
    allowedTokenIdsMask :=
      if reqs.all fun r => r.allowedTokenIds = [] then none
      else some (reqs.map (·.allowedMask))
    badWordsTokenIds
    nonArgmaxInvariant := [.minTokens ⟨entriesOf reqs (·.minToks)⟩, .logitBias] }

/-! ## Bad words -/

/-- `past_tokens_ids[-prefix_length:]`, or nothing for an empty prefix. -/
def actualPrefix (pastTokensIds : List TokenId) (prefixLength : Nat) : List TokenId :=
  if prefixLength > 0 then pastTokensIds.drop (pastTokensIds.length - prefixLength) else []

/-- `_apply_bad_words_single_batch`. -/
def applyBadWordsSingleBatch (row : LogitsRow F) (badWordsTokenIds : List BadWord)
    (pastTokensIds : List TokenId) : LogitsRow F :=
  badWordsTokenIds.foldl (fun row badWord =>
    if badWord.1.length > pastTokensIds.length + 1 then row
    else
      let prefixLength := badWord.1.length - 1
      let lastTokenId := badWord.1.getLast badWord.2
      let expectedPrefix := badWord.1.take prefixLength
      if actualPrefix pastTokensIds prefixLength = expectedPrefix then row.force lastTokenId
      else row) row

/-- A bad word would be completed behind a history. -/
def completes (badWord : BadWord) (past : List TokenId) : Bool :=
  badWord.1.length ≤ past.length + 1 &&
    actualPrefix past (badWord.1.length - 1) = badWord.1.take (badWord.1.length - 1)

/-- The tokens that complete a bad word behind a history. -/
def badMask (badWords : List BadWord) (past : List TokenId) (t : TokenId) : Bool :=
  badWords.any fun w => completes w past && t = w.1.getLast w.2

@[simp] theorem badMask_nil (past : List TokenId) : badMask [] past = fun _ => false := rfl

/-- `apply_bad_words`. -/
def applyBadWords (logits : Logits F) (badWordsTokenIds : List (Nat × List BadWord))
    (pastTokensIds : List (List TokenId)) : Logits F :=
  badWordsTokenIds.foldl (fun logits e => Function.update logits e.1
    (applyBadWordsSingleBatch (logits e.1) e.2 (pastTokensIds.getD e.1 []))) logits

/-- The inner loop of `apply_bad_words_with_drafts`. -/
def applyBadWordsRows (logits : Logits F) (badWordsIds : List BadWord)
    (pastTokensIds : List (List TokenId)) (draftIdxs : List Nat) : Logits F :=
  draftIdxs.foldl (fun logits draftIdx => Function.update logits draftIdx
    (applyBadWordsSingleBatch (logits draftIdx) badWordsIds (pastTokensIds.getD draftIdx [])))
    logits

/-- The loop of `apply_bad_words_with_drafts`, at a request. -/
def badWordsLoop (badWordsTokenIds : List (Nat × List BadWord))
    (pastTokensIds : List (List TokenId)) :
    List Nat → Nat → Nat → Nat → Logits F → Logits F
  | [], _, _, _, logits => logits
  | n :: rest, i, startIdx, remaining, logits =>
    match badWordsTokenIds.lookup i with
    | some badWordsIds =>
      let logits := applyBadWordsRows logits badWordsIds pastTokensIds (List.range' startIdx n)
      if remaining - 1 = 0 then logits
      else badWordsLoop badWordsTokenIds pastTokensIds rest (i + 1) (startIdx + n)
        (remaining - 1) logits
    | none =>
      badWordsLoop badWordsTokenIds pastTokensIds rest (i + 1) (startIdx + n) remaining logits

/-- `apply_bad_words_with_drafts`. -/
def applyBadWordsWithDrafts (logits : Logits F) (badWordsTokenIds : List (Nat × List BadWord))
    (pastTokensIds : List (List TokenId)) (numDraftTokens : List Nat) : Logits F :=
  badWordsLoop badWordsTokenIds pastTokensIds numDraftTokens 0 0 badWordsTokenIds.length logits

/-! ## The minimal number of tokens -/

namespace MinTokensLogitsProcessor

variable (p : MinTokensLogitsProcessor)

/-- `logits_slice`. -/
def logitsSlice : List (Nat × TokenId) :=
  p.minToks.flatMap fun e => e.2.stopTokIds.map fun t => (e.1, t)

/-- `apply`. -/
def apply (logits : Logits F) : Logits F :=
  if p.minToks = [] then logits else logits.indexPut p.logitsSlice

/-- The rows and tokens that `apply_with_spec_decode` masks for an entry: the row indices are
repeated for each stop token, the stop tokens tiled for each row. -/
def draftSlice (numDraftTokens : List Nat) (e : Nat × MinToks) : List (Nat × TokenId) :=
  let remaining := e.2.minTokens - e.2.outputTokIds.length
  let nMask := min remaining (numDraftTokens.getD e.1 0)
  let rowIndices := List.range' (Blocks.offset numDraftTokens e.1) nMask
  let nStop := e.2.stopTokIds.length
  (rowIndices.flatMap (List.replicate nStop)).zip (List.replicate nMask e.2.stopTokIds).flatten

/-- `apply_with_spec_decode`. -/
def applyWithSpecDecode (logits : Logits F) (numDraftTokens : List Nat) : Logits F :=
  let entries := p.minToks.filter fun e => e.2.stopTokIds ≠ []
  if entries = [] then logits
  else logits.indexPut (entries.flatMap (draftSlice numDraftTokens))

end MinTokensLogitsProcessor

/-! ## Penalties -/

/-- `apply_all_penalties`. -/
def applyAllPenalties [Zero F] (logits : Logits F) (promptTokenIds : List (List TokenId))
    (presencePenalties frequencyPenalties repetitionPenalties : List F)
    (outputTokenIds : List (List TokenId)) : Logits F :=
  fun j => { logits j with
    penalized := some
      { promptTokenIds := promptTokenIds.getD j []
        presencePenalty := presencePenalties.getD j 0
        frequencyPenalty := frequencyPenalties.getD j 0
        repetitionPenalty := repetitionPenalties.getD j 0
        outputTokenIds := outputTokenIds.getD j [] } }

/-! ## The sampler -/

namespace Sampler

/-- `Sampler._combine_outputs_with_spec_tokens`. -/
def combineOutputsWithSpecTokens (outputTokenIds : List (List TokenId)) :
    Option (List (List TokenId)) → List (List TokenId)
  | none => outputTokenIds
  | some specTokenIds =>
    (outputTokenIds.zip specTokenIds).map fun e => if e.2 = [] then e.1 else e.1 ++ e.2

variable [Zero F]

/-- `Sampler.apply_penalties`. -/
def applyPenalties (logits : Logits F) (md : SamplingMetadata F)
    (outputTokenIds : List (List TokenId)) : Logits F :=
  if md.noPenalties then logits
  else applyAllPenalties logits md.promptTokenIds md.presencePenalties md.frequencyPenalties
    md.repetitionPenalties outputTokenIds

/-- A processor of `non_argmax_invariant` in the sampler. -/
def applyProcessor (logits : Logits F) : LogitsProcessor → Logits F
  | .minTokens processor => processor.apply logits
  | .logitBias => logits

/-- `Sampler.apply_logits_processors`. -/
def applyLogitsProcessors (logits : Logits F) (md : SamplingMetadata F)
    (predictBonusToken : Bool) : Logits F :=
  let anyPenaltiesOrBadWords := md.badWordsTokenIds ≠ [] || !md.noPenalties
  let outputTokenIds :=
    if predictBonusToken && anyPenaltiesOrBadWords then
      combineOutputsWithSpecTokens md.outputTokenIds md.specTokenIds
    else md.outputTokenIds
  let logits := match md.allowedTokenIdsMask with
    | some mask => logits.maskedFill fun j => mask.getD j fun _ => false
    | none => logits
  let logits :=
    if md.badWordsTokenIds ≠ [] then applyBadWords logits md.badWordsTokenIds outputTokenIds
    else logits
  let logits := md.nonArgmaxInvariant.foldl applyProcessor logits
  applyPenalties logits md outputTokenIds

end Sampler

/-! ## The rejection sampler -/

namespace RejectionSampler

/-- One request in `RejectionSampler._combine_outputs_with_spec_tokens`: each row extends the
last one. -/
def combineRequest (result : List (List TokenId)) (e : List TokenId × List TokenId) :
    List (List TokenId) :=
  if e.2.length = 0 then result
  else (List.range (e.2.length - 1)).foldl
    (fun result i => result ++ [result.getLast?.getD [] ++ [e.2.getD i 0]]) (result ++ [e.1])

/-- `RejectionSampler._combine_outputs_with_spec_tokens`. -/
def combineOutputsWithSpecTokens (outputTokenIds : List (List TokenId)) :
    Option (List (List TokenId)) → List (List TokenId)
  | none => outputTokenIds
  | some specTokenIds => (outputTokenIds.zip specTokenIds).foldl combineRequest []

/-- `repeat_indices`. -/
def repeatIndices (numDraftTokens : List Nat) : List Nat :=
  numDraftTokens.zipIdx.flatMap fun e => List.replicate e.1 e.2

variable [Zero F]

/-- `RejectionSampler.apply_penalties`. -/
def applyPenalties (logits : Logits F) (md : SamplingMetadata F) (repeatIndices : List Nat)
    (outputTokenIds : List (List TokenId)) : Logits F :=
  if md.noPenalties then logits
  else applyAllPenalties logits (repeatIndices.map fun i => md.promptTokenIds.getD i [])
    (repeatIndices.map fun i => md.presencePenalties.getD i 0)
    (repeatIndices.map fun i => md.frequencyPenalties.getD i 0)
    (repeatIndices.map fun i => md.repetitionPenalties.getD i 0) outputTokenIds

/-- A processor of `non_argmax_invariant` in the rejection sampler. -/
def applyProcessor (numDraftTokens : List Nat) (logits : Logits F) : LogitsProcessor → Logits F
  | .minTokens processor => processor.applyWithSpecDecode logits numDraftTokens
  | .logitBias => logits

/-- The first block of `RejectionSampler.apply_logits_processors`: the penalties and the allowed
tokens, by the request of each row. -/
def applyPerRequest (logits : Logits F) (md : SamplingMetadata F) (numDraftTokens : List Nat)
    (outputTokenIds : List (List TokenId)) : Logits F :=
  if md.allowedTokenIdsMask.isSome || !md.noPenalties then
    let repeatIndices := repeatIndices numDraftTokens
    let logits := applyPenalties logits md repeatIndices outputTokenIds
    match md.allowedTokenIdsMask with
    | some mask => logits.maskedFill fun j => mask.getD (repeatIndices.getD j 0) fun _ => false
    | none => logits
  else logits

/-- `RejectionSampler.apply_logits_processors`. -/
def applyLogitsProcessors (logits : Logits F) (md : SamplingMetadata F)
    (numDraftTokens : List Nat) : Logits F :=
  let anyPenaltiesOrBadWords := md.badWordsTokenIds ≠ [] || !md.noPenalties
  let outputTokenIds :=
    if anyPenaltiesOrBadWords then
      combineOutputsWithSpecTokens md.outputTokenIds md.specTokenIds
    else md.outputTokenIds
  let logits := applyPerRequest logits md numDraftTokens outputTokenIds
  let logits :=
    if md.badWordsTokenIds ≠ [] then
      applyBadWordsWithDrafts logits md.badWordsTokenIds outputTokenIds numDraftTokens
    else logits
  md.nonArgmaxInvariant.foldl (applyProcessor numDraftTokens) logits

end RejectionSampler

end Vllm.Sample
