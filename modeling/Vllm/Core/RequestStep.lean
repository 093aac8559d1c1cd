import Vllm.Core.BlockHasher

/-!
# One request in a scheduler step

What `schedule` and `update_from_output` do with the counters and tokens of a request: how
many tokens it gets, which draft tokens go along, what a rejection rolls back, and when the
sampled tokens stop it.
-/

namespace Vllm

variable {H : Type}

/-! ## Tokens of a step -/

/-- The cap of `long_prefill_token_threshold` on the tokens of one request. -/
def capLongPrefill (threshold : Nat) (numNewTokens : Int) : Int :=
  if 0 < threshold ∧ threshold < numNewTokens then threshold else numNewTokens

namespace Request

/-- The tokens of a running request in a step, before encoder inputs are looked at. -/
def numNewTokens (threshold maxModelLen : Nat) (tokenBudget : Int) (r : Request H) : Int :=
  let numNewTokens := r.numTokensWithSpec + r.numOutputPlaceholders - r.numComputedTokens
  min (min (capLongPrefill threshold numNewTokens) tokenBudget)
    (maxModelLen - 1 - r.numComputedTokens)

/-- The draft tokens that go along with `numNewTokens` tokens. -/
def scheduledSpecTokenIds (numNewTokens : Int) (r : Request H) : List TokenId :=
  r.specTokenIds.take
    (numNewTokens + r.numComputedTokens - r.numTokens - r.numOutputPlaceholders).toNat

/-- `_update_after_schedule` on one request. -/
def advance (numScheduledTokens : Int) (r : Request H) : Request H :=
  { r with
    numComputedTokens := r.numComputedTokens + numScheduledTokens
    isPrefillChunk := r.numComputedTokens + numScheduledTokens <
      r.numTokens + r.numOutputPlaceholders }

/-- The counters behind a step with draft tokens, of which all but the accepted ones are taken
back; the last generated token is none of them. -/
def rejectDrafts (numDraftTokens numGenerated : Nat) (r : Request H) : Request H :=
  let numAccepted : Int := numGenerated - 1
  let numRejected := numDraftTokens - numAccepted
  { r with
    numComputedTokens :=
      if 0 < r.numComputedTokens then r.numComputedTokens - numRejected else r.numComputedTokens
    numOutputPlaceholders :=
      if 0 < r.numOutputPlaceholders then r.numOutputPlaceholders - numRejected
      else r.numOutputPlaceholders }

/-- `update_draft_token_ids` on one request. -/
def setDraftTokenIds (specTokenIds : List TokenId) (r : Request H) : Request H :=
  if r.status.isFinished then r
  else if r.isPrefillChunk then { r with specTokenIds := [] }
  else { r with specTokenIds }

end Request

/-! ## Finish reasons -/

/-- What a client is told about the end of a request. -/
inductive FinishReason where
  | stop
  | length
  | abort
  | error
  | repetition
  deriving DecidableEq, Repr

/-- `RequestStatus.get_finished_reason`. -/
def RequestStatus.getFinishedReason : RequestStatus → Option FinishReason
  | .finishedStopped => some .stop
  | .finishedLengthCapped => some .length
  | .finishedAborted => some .abort
  | .finishedIgnored => some .length
  | .finishedError => some .error
  | .waitingForStreamingReq => some .stop
  | .finishedRepetition => some .repetition
  | _ => none

/-- The token or the phrase that goes with a finish reason. -/
inductive StopReason where
  | token (tokenId : TokenId)
  | repetitionDetected
  deriving DecidableEq, Repr

/-! ## Repetition -/

/-- `_has_repeating_pattern`: the last tokens are compared with those of the repetitions
before, counted from the end of the list. -/
def hasRepeatingPattern (tokenIds : List TokenId) (patternLen repetitionMinCount : Nat) : Bool :=
  (List.range patternLen).all fun k => (List.range' 1 (repetitionMinCount - 1)).all fun m =>
    tokenIds[tokenIds.length - (patternLen * m + (k + 1))]? =
      tokenIds[tokenIds.length - (k + 1)]?

/-- The loop of `check_sequence_repetition` over the pattern lengths. It gives up at the first
length that does not fit into the tokens. -/
def patternLoop (tokenIds : List TokenId) (minCount : Nat) : List Nat → Bool
  | [] => false
  | patternLen :: rest =>
    if patternLen * minCount > tokenIds.length then false
    else if hasRepeatingPattern tokenIds patternLen minCount then true
    else patternLoop tokenIds minCount rest

/-- `check_sequence_repetition`. -/
def checkSequenceRepetition (tokenIds : List TokenId) (params : RepetitionDetectionParams) :
    Bool :=
  let minPatternSize := if params.minPatternSize ≤ 0 then 1 else params.minPatternSize
  if params.maxPatternSize ≤ 0 ∨ params.minCount < 2 ∨ minPatternSize > params.maxPatternSize then
    false
  else
    patternLoop tokenIds params.minCount.toNat
      (List.range' minPatternSize.toNat (params.maxPatternSize + 1 - minPatternSize).toNat)

/-! ## The stop test -/

/-- `check_stop`: the finished status and the stop reason, or `none` when the request goes on.
It is called behind an append, so that there is a last token. -/
def Request.checkStop (maxModelLen : Nat) (r : Request H) :
    Option (RequestStatus × Option StopReason) :=
  if r.numOutputTokens < r.samplingParams.minTokens then none
  else
    match r.outputTokenIds.getLast? with
    | none => none
    | some lastTokenId =>
      if some lastTokenId = r.samplingParams.eosTokenId then some (.finishedStopped, none)
      else if lastTokenId ∈ r.samplingParams.stopTokenIds then
        some (.finishedStopped, some (.token lastTokenId))
      else if r.numTokens ≥ maxModelLen ∨ r.numOutputTokens ≥ r.maxTokens then
        some (.finishedLengthCapped, none)
      else
        match r.samplingParams.repetitionDetection with
        | none => none
        | some params =>
          if checkSequenceRepetition r.outputTokenIds params then
            some (.finishedRepetition, some .repetitionDetected)
          else none

/-- `_update_request_with_output`: the request behind the appended tokens, the tokens that are
kept, and whether it stopped, with the stop reason. -/
def Request.updateWithOutput (env : HashEnv H) (blockSize maxModelLen : Nat) (r : Request H) :
    List TokenId → Request H × List TokenId × Option (Option StopReason)
  | [] => (r, [], none)
  | outputTokenId :: rest =>
    let r := r.appendOutputTokenIds env blockSize [outputTokenId]
    match r.checkStop maxModelLen with
    | some (status, stopReason) => ({ r with status }, [outputTokenId], some stopReason)
    | none =>
      let (r, kept, stopped) := r.updateWithOutput env blockSize maxModelLen rest
      (r, outputTokenId :: kept, stopped)

/-- Output tokens appended one by one. -/
def Request.appendEach (env : HashEnv H) (blockSize : Nat) (r : Request H)
    (tokenIds : List TokenId) : Request H :=
  tokenIds.foldl (fun r tokenId => r.appendOutputTokenIds env blockSize [tokenId]) r

namespace Request

variable (env : HashEnv H) (blockSize : Nat) (r : Request H)

/-- Appending touches the output, all tokens and the block hashes. -/
theorem appendEach_eq (tokenIds : List TokenId) : ∃ blockHashes,
    r.appendEach env blockSize tokenIds = { r with
      outputTokenIds := r.outputTokenIds ++ tokenIds
      allTokenIds := r.allTokenIds ++ tokenIds
      blockHashes } := by
  induction tokenIds generalizing r with
  | nil => exact ⟨r.blockHashes, by simp [appendEach]⟩
  | cons tokenId rest ih =>
    obtain ⟨blockHashes, heq⟩ := ih (r.appendOutputTokenIds env blockSize [tokenId])
    refine ⟨blockHashes, ?_⟩
    rw [appendEach, List.foldl_cons]
    refine heq.trans ?_
    simp [appendOutputTokenIds, updateBlockHashes]

/-- The stop test reads the sampling limits and the output, and counts all tokens. -/
theorem checkStop_congr {r r' : Request H} {maxModelLen : Nat}
    (hparams : r.samplingParams = r'.samplingParams) (hmax : r.maxTokens = r'.maxTokens)
    (houtput : r.outputTokenIds = r'.outputTokenIds) (hnum : r.numTokens = r'.numTokens) :
    r.checkStop maxModelLen = r'.checkStop maxModelLen := by
  simp only [checkStop, numOutputTokens, hparams, hmax, houtput, hnum]
  rfl

/-- The stop test only finishes requests. -/
theorem isFinished_of_checkStop {r : Request H} {maxModelLen : Nat} {status : RequestStatus}
    {stopReason : Option StopReason} (h : r.checkStop maxModelLen = some (status, stopReason)) :
    status.isFinished := by
  unfold checkStop at h
  split at h
  · cases h
  · split at h
    · cases h
    · repeat' split at h
      all_goals cases h
      all_goals rfl

/-- Either no appended token stops the request and all of them are kept, or one does and those
behind it are trimmed. -/
theorem updateWithOutput_cases (maxModelLen : Nat) (tokenIds : List TokenId) :
    ((∀ j, 0 < j → j ≤ tokenIds.length →
        (r.appendEach env blockSize (tokenIds.take j)).checkStop maxModelLen = none) ∧
      r.updateWithOutput env blockSize maxModelLen tokenIds =
        (r.appendEach env blockSize tokenIds, tokenIds, none)) ∨
    ∃ m status stopReason, 0 < m ∧ m ≤ tokenIds.length ∧
      (∀ j, 0 < j → j < m →
        (r.appendEach env blockSize (tokenIds.take j)).checkStop maxModelLen = none) ∧
      (r.appendEach env blockSize (tokenIds.take m)).checkStop maxModelLen =
        some (status, stopReason) ∧
      r.updateWithOutput env blockSize maxModelLen tokenIds =
        ({ r.appendEach env blockSize (tokenIds.take m) with status }, tokenIds.take m,
          some stopReason) := by
  induction tokenIds generalizing r with
  | nil => exact Or.inl ⟨fun j hj hle => absurd hle (by simpa using hj.ne'), rfl⟩
  | cons tokenId rest ih =>
    have hcons (tokens : List TokenId) : r.appendEach env blockSize (tokenId :: tokens) =
      (r.appendOutputTokenIds env blockSize [tokenId]).appendEach env blockSize tokens := rfl
    cases hstop : (r.appendOutputTokenIds env blockSize [tokenId]).checkStop maxModelLen with
    | some outcome =>
      obtain ⟨status, stopReason⟩ := outcome
      refine Or.inr ⟨1, status, stopReason, Nat.one_pos, by simp, fun j hj hlt => by omega, ?_, ?_⟩
      · simpa [hcons, appendEach] using hstop
      · simp [updateWithOutput, hstop, appendEach]
    | none =>
      have hbefore {n : Nat} (hrest : ∀ j, 0 < j → j < n →
          ((r.appendOutputTokenIds env blockSize [tokenId]).appendEach env blockSize
            (rest.take j)).checkStop maxModelLen = none) (j : Nat) (hj : 0 < j) (hlt : j < n + 1) :
          (r.appendEach env blockSize ((tokenId :: rest).take j)).checkStop maxModelLen = none := by
        obtain ⟨k, rfl⟩ := Nat.exists_eq_succ_of_ne_zero hj.ne'
        rw [List.take_succ_cons, hcons]
        cases k with
        | zero => exact hstop
        | succ k => exact hrest (k + 1) (by omega) (by omega)
      rcases ih (r.appendOutputTokenIds env blockSize [tokenId]) with
        ⟨hnone, heq⟩ | ⟨m, status, stopReason, hpos, hle, hnone, hsome, heq⟩
      · refine Or.inl ⟨fun j hj hlt => hbefore (n := rest.length + 1)
          (fun j hj hlt => hnone j hj (by omega)) j hj (by simpa using Nat.lt_succ_of_le hlt), ?_⟩
        simp only [updateWithOutput, hstop, heq, hcons]
      · refine Or.inr ⟨m + 1, status, stopReason, by omega, by simpa using hle,
          fun j hj hlt => hbefore hnone j hj hlt, ?_, ?_⟩
        · rw [List.take_succ_cons, hcons]
          exact hsome
        · simp only [updateWithOutput, hstop, heq, hcons, List.take_succ_cons]

end Request

end Vllm
