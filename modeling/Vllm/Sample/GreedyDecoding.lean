import Vllm.Core.RequestStep
import Vllm.Sample.RejectionSampler

/-!
# Greedy decoding with draft tokens

The loop of scheduler, model runner and sampler around one greedy request: the request is
admitted with the tokens that the prefix cache knows, and then stepped with whatever draft
tokens come along. The model is a function from a context to its most likely token; the
context of a position is what the cache holds up to it, written by this step or before.
Generated tokens and finish reason do not depend on the draft tokens.
-/

namespace Vllm

variable {H : Type}

/-! ## The loop -/

/-- The limits of the loop. -/
structure DecodeConfig where
  maxModelLen : Nat
  longPrefillTokenThreshold : Nat
  vocabSize : Nat

/-- What a step brings to the request. -/
structure StepPlan where
  /-- The tokens that budget, encoder inputs and block alignment leave to it. -/
  tokenBudget : Nat
  /-- The most draft tokens of another request of the batch. -/
  otherSpecLen : Nat
  /-- Whether the other requests are greedy too. -/
  allGreedy : Bool
  /-- The draft tokens proposed behind the step. -/
  drafts : List TokenId
  tokenBudget_pos : 0 < tokenBudget

/-- A step of plain decoding. -/
def StepPlan.plain : StepPlan where
  tokenBudget := 1
  otherSpecLen := 0
  allGreedy := true
  drafts := []
  tokenBudget_pos := Nat.one_pos

/-- The request and what model runner and client hold of it. -/
structure DecodeState (H : Type) where
  request : Request H
  /-- The tokens behind the keys and values in the cache, by position. -/
  kv : List TokenId
  /-- The new tokens of all outputs so far. -/
  newTokenIds : List TokenId
  stopReason : Option StopReason

/-- What a client sees. -/
structure DecodeResult where
  outputTokenIds : List TokenId
  newTokenIds : List TokenId
  finishReason : Option FinishReason
  stopReason : Option StopReason
  deriving DecidableEq, Repr

def DecodeState.result (s : DecodeState H) : DecodeResult where
  outputTokenIds := s.request.outputTokenIds
  newTokenIds := s.newTokenIds
  finishReason := s.request.status.getFinishedReason
  stopReason := s.stopReason

/-- Tokens are written to the slots from a position on. -/
def writeSlots (kv : List TokenId) (start : Nat) (tokens : List TokenId) : List TokenId :=
  kv.take start ++ tokens ++ kv.drop (start + tokens.length)

section Loop

variable (env : HashEnv H) (blockSize : Nat) (c : DecodeConfig) (target : List TokenId → TokenId)

/-- The most likely token behind a position. -/
def argmaxAt (kv : List TokenId) (pos : Nat) : TokenId := target (kv.take (pos + 1))

/-- The slice of `_calc_spec_decode_metadata` for a request whose tokens end at `stop`: logits
are taken at the last positions, one for each draft token and one for the bonus token. -/
def greedyInputs (kv : List TokenId) (stop numDraftTokens : Nat) : GreedyInputs where
  numDraftTokens
  draftTokenIds pos := kv.getD (stop - (numDraftTokens + 1) + pos + 1) 0
  targetArgmax pos := argmaxAt target kv (stop - (numDraftTokens + 1) + pos)
  bonusTokenId := argmaxAt target kv (stop - 1)

/-- The sampled tokens of the request. Without any draft tokens in the batch there is no
rejection sampling; the tokens of a partial prefill are discarded. -/
def sampledTokenIds (plan : StepPlan) (kv : List TokenId) (stop numDraftTokens : Nat)
    (discard : Bool) : List TokenId :=
  let maxSpecLen := max numDraftTokens plan.otherSpecLen
  if maxSpecLen = 0 then if discard then [] else [argmaxAt target kv (stop - 1)]
  else
    parseOutput c.vocabSize
      (rejectionGreedySampleKernel (greedyInputs target kv stop numDraftTokens)
        (if plan.allGreedy then none else some true)
        (List.replicate (maxSpecLen + 1) PLACEHOLDER_TOKEN_ID)) discard

/-- Generated tokens go to the request and the client, and new draft tokens come in. -/
def takeOutput (drafts generatedTokenIds : List TokenId) (s : DecodeState H) : DecodeState H :=
  let (r, newTokenIds, stopped) :=
    s.request.updateWithOutput env blockSize c.maxModelLen generatedTokenIds
  { s with
    request := r.setDraftTokenIds drafts
    newTokenIds := s.newTokenIds ++ newTokenIds
    stopReason := stopped.getD s.stopReason }

/-- The rest of a step in which the request has got tokens and draft tokens. -/
def executeStep (plan : StepPlan) (numNewTokens : Nat) (specTokenIds : List TokenId)
    (s : DecodeState H) : DecodeState H :=
  let start := s.request.numComputedTokens.toNat
  let stop := start + numNewTokens
  let inputIds := ((s.request.allTokenIds ++ specTokenIds).drop start).take numNewTokens
  let kv := writeSlots s.kv start inputIds
  let generatedTokenIds := sampledTokenIds c target plan kv stop specTokenIds.length
    (stop < s.request.numTokens)
  let r := s.request.advance numNewTokens
  let r := if specTokenIds ≠ [] ∧ generatedTokenIds ≠ [] then
    r.rejectDrafts specTokenIds.length generatedTokenIds.length else r
  takeOutput env blockSize c plan.drafts generatedTokenIds { s with request := r, kv }

/-- A waiting request is admitted with the tokens found in the prefix cache, which never hold
its last token. -/
def takeUp (plan : StepPlan) (numHits : Nat) (r : Request H) : DecodeState H :=
  let numComputedTokens := min numHits (r.numTokens - 1)
  let numNewTokens := min (capLongPrefill c.longPrefillTokenThreshold
    (r.numTokens - numComputedTokens)) plan.tokenBudget
  executeStep env blockSize c target plan numNewTokens.toNat []
    { request := { r with status := .running, numComputedTokens }
      kv := r.allTokenIds.take numComputedTokens
      newTokenIds := []
      stopReason := none }

/-- A running request is scheduled. -/
def decodeStep (s : DecodeState H) (plan : StepPlan) : DecodeState H :=
  if s.request.status = .running then
    let numNewTokens := s.request.numNewTokens c.longPrefillTokenThreshold c.maxModelLen
      plan.tokenBudget
    if numNewTokens = 0 then s
    else
      executeStep env blockSize c target plan numNewTokens.toNat
        (s.request.scheduledSpecTokenIds numNewTokens)
        { s with request := { s.request with specTokenIds := [] } }
  else s

/-- A new request is admitted and stepped. -/
def decode (args : Request H) (admission : StepPlan) (numHits : Nat) (plans : List StepPlan) :
    DecodeState H :=
  plans.foldl (decodeStep env blockSize c target)
    (takeUp env blockSize c target admission numHits (Request.init env blockSize args))

/-! ## What a step samples -/

/-- The next `n` tokens of the model. -/
def generate (context : List TokenId) : Nat → List TokenId
  | 0 => []
  | n + 1 => generate context n ++ [target (context ++ generate context n)]

variable {target}

/-- As many tokens as asked for. -/
@[simp] theorem length_generate (context : List TokenId) (n : Nat) :
    (generate target context n).length = n := by
  induction n with
  | zero => rfl
  | succ n ih => simp [generate, ih]

/-- Fewer tokens are a prefix of more tokens. -/
theorem take_generate (context : List TokenId) {m n : Nat} (h : m ≤ n) :
    (generate target context n).take m = generate target context m := by
  induction n with
  | zero =>
    obtain rfl : m = 0 := by omega
    rfl
  | succ n ih =>
    rcases Nat.le_succ_iff.mp h with hle | rfl
    · rw [generate, List.take_append_of_le_length (by simpa using hle), ih hle]
    · exact List.take_of_length_le (by simp)

/-- Generating goes on from what is already generated. -/
theorem generate_add (context : List TokenId) (m n : Nat) :
    generate target context (m + n) =
      generate target context m ++ generate target (context ++ generate target context m) n := by
  induction n with
  | zero => simp [generate]
  | succ n ih => rw [← Nat.add_assoc, generate, generate, ih, List.append_assoc, List.append_assoc]

/-- Draft tokens that all pass the greedy test are those the model generates. -/
private theorem take_eq_generate {context drafts : List TokenId} {n : Nat} (hn : n ≤ drafts.length)
    (h : ∀ i (hi : i < n), drafts[i] = target (context ++ drafts.take i)) :
    drafts.take n = generate target context n := by
  induction n with
  | zero => rfl
  | succ n ih =>
    have htake := ih (by omega) fun i hi => h i (by omega)
    rw [List.take_succ_eq_append_getElem (by omega), h n (by omega), htake, generate]

/-- Each generated token is the most likely one behind the tokens before it. -/
theorem getElem?_generate (context : List TokenId) {n i : Nat} (h : i < n) :
    (generate target context n)[i]? = some (target (context ++ generate target context i)) := by
  have htake : (generate target context n).take (i + 1) = generate target context i ++
    [target (context ++ generate target context i)] := take_generate context h
  rw [← List.getElem?_take_of_lt (Nat.lt_succ_self i), htake, List.getElem?_append_right (by simp)]
  simp

/-- The greedy kernel stores the next tokens of the model: one more than draft tokens are
accepted. -/
theorem rejectionGreedySampleKernel_generate {x : GreedyInputs} {isGreedy : Option Bool}
    {context drafts : List TokenId} {vocabSize maxSpecLen : Nat}
    (htarget : ∀ context, target context < vocabSize) (hgreedy : isGreedy.getD true)
    (hnum : x.numDraftTokens = drafts.length)
    (hdraft : ∀ i (hi : i < drafts.length), x.draftTokenIds i = drafts[i])
    (hargmax : ∀ i < drafts.length, x.targetArgmax i = target (context ++ drafts.take i))
    (hbonus : x.bonusTokenId = target (context ++ drafts)) (hmax : drafts.length ≤ maxSpecLen) :
    ∃ numAccepted ≤ drafts.length,
      drafts.take numAccepted = generate target context numAccepted ∧
      parseOutput vocabSize (rejectionGreedySampleKernel x isGreedy
        (List.replicate (maxSpecLen + 1) PLACEHOLDER_TOKEN_ID)) false =
          generate target context (numAccepted + 1) := by
  obtain ⟨numAccepted, hle, haccepted, hrejected⟩ := exists_numAccepted
    (fun pos => decide (x.draftTokenIds pos = x.targetArgmax pos)) drafts.length
  have hprefix : drafts.take numAccepted = generate target context numAccepted := by
    refine take_eq_generate hle fun i hi => ?_
    have htest := of_decide_eq_true (haccepted i hi)
    rwa [hdraft i (by omega), hargmax i (by omega)] at htest
  have hbefore {i : Nat} (hi : i ≤ numAccepted) : drafts.take i = generate target context i := by
    rw [← take_generate context hi, ← hprefix, List.take_take, Nat.min_eq_left hi]
  have htokens : (List.range (numAccepted + 1)).map (fun pos =>
      if pos < drafts.length then (x.targetArgmax pos : Int) else x.bonusTokenId) =
        (generate target context (numAccepted + 1)).map fun t : Nat => (t : Int) := by
    refine List.ext_getElem? fun i => ?_
    rw [List.getElem?_map, List.getElem?_map]
    rcases Nat.lt_or_ge i (numAccepted + 1) with hi | hi
    · rw [List.getElem?_range hi, getElem?_generate context hi, ← hbefore (Nat.le_of_lt_succ hi),
        Option.map_some, Option.map_some]
      split
      · rename_i hlt
        rw [hargmax i hlt]
      · rename_i hge
        rw [hbonus, List.take_of_length_le (by omega)]
    · rw [List.getElem?_eq_none (by simpa using hi), List.getElem?_eq_none (by simpa using hi)]
      rfl
  have hvocab : ∀ t ∈ generate target context (numAccepted + 1), t < vocabSize := by
    intro t ht
    obtain ⟨i, hi⟩ := List.mem_iff_getElem?.mp ht
    have hlt := (List.getElem?_eq_some_iff.mp hi).1
    rw [getElem?_generate context (by simpa using hlt), Option.some.injEq] at hi
    exact hi ▸ htarget _
  refine ⟨numAccepted, hle, hprefix, ?_⟩
  rw [rejectionGreedySampleKernel, if_pos hgreedy, hnum,
    verify_replicate hle hmax haccepted hrejected, htokens]
  exact parseOutput_append_replicate _ hvocab

/-- Behind a context and draft tokens, a step samples the next tokens of the model: one more
than draft tokens are accepted. -/
theorem sampledTokenIds_eq {c : DecodeConfig} (htarget : ∀ context, target context < c.vocabSize)
    (plan : StepPlan) {kv context drafts : List TokenId} (hcontext : 0 < context.length)
    (hkv : kv.take (context.length + drafts.length) = context ++ drafts) :
    ∃ numAccepted ≤ drafts.length,
      drafts.take numAccepted = generate target context numAccepted ∧
      sampledTokenIds c target plan kv (context.length + drafts.length) drafts.length false =
        generate target context (numAccepted + 1) := by
  have htake (i : Nat) (hi : i ≤ drafts.length) :
      kv.take (context.length + i) = context ++ drafts.take i := by
    rw [← Nat.min_eq_left (Nat.add_le_add_left hi context.length), ← List.take_take, hkv,
      List.take_length_add_append]
  have hargmax (i : Nat) (hi : i ≤ drafts.length) :
      argmaxAt target kv (context.length + drafts.length - (drafts.length + 1) + i) =
        target (context ++ drafts.take i) := by
    rw [argmaxAt, ← htake i hi]
    congr 2
    omega
  have hbonus : argmaxAt target kv (context.length + drafts.length - 1) =
      target (context ++ drafts) := by
    rw [argmaxAt, Nat.sub_add_cancel (by omega), hkv]
  have hdraft (i : Nat) (hi : i < drafts.length) :
      kv.getD (context.length + drafts.length - (drafts.length + 1) + i + 1) 0 = drafts[i] := by
    have hget : (kv.take (context.length + drafts.length))[context.length + i]? =
        some drafts[i] := by
      rw [hkv, List.getElem?_append_right (by omega)]
      simp [hi]
    rw [List.getElem?_take_of_lt (by omega)] at hget
    rw [show context.length + drafts.length - (drafts.length + 1) + i + 1 = context.length + i by
      omega, List.getD_eq_getElem?_getD, hget, Option.getD_some]
  unfold sampledTokenIds
  simp only
  split
  · obtain rfl : drafts = [] := List.length_eq_zero_iff.mp (by omega)
    refine ⟨0, le_rfl, rfl, ?_⟩
    rw [if_neg (by simp), hbonus]
    simp [generate]
  · refine rejectionGreedySampleKernel_generate htarget ?_ rfl hdraft
      (fun i hi => hargmax i (by omega)) hbonus (le_max_left _ _)
    cases plan.allGreedy <;> rfl

/-! ## Requests grown by the model -/

/-- A request that has grown from another by output tokens of the model. -/
structure Decoded (target : List TokenId → TokenId) (r₀ r : Request H) : Prop where
  output_eq : r.outputTokenIds = generate target r₀.allTokenIds r.numOutputTokens
  all_eq : r.allTokenIds = r₀.allTokenIds ++ r.outputTokenIds
  params_eq : r.samplingParams = r₀.samplingParams
  maxTokens_eq : r.maxTokens = r₀.maxTokens

variable {env blockSize c} {r₀ r : Request H} {s : DecodeState H}

variable (env blockSize) in
/-- Appending the next tokens of the model goes on from the same request. -/
theorem Decoded.append (h : Decoded target r₀ r) (n : Nat) :
    Decoded target r₀ (r.appendEach env blockSize (generate target r.allTokenIds n)) ∧
      (r.appendEach env blockSize (generate target r.allTokenIds n)).numOutputTokens =
        r.numOutputTokens + n := by
  obtain ⟨blockHashes, heq⟩ := r.appendEach_eq env blockSize (generate target r.allTokenIds n)
  have hnum : (r.appendEach env blockSize (generate target r.allTokenIds n)).numOutputTokens =
      r.numOutputTokens + n := by
    simp [heq, Request.numOutputTokens]
  refine ⟨⟨?_, ?_, ?_, ?_⟩, hnum⟩
  · rw [hnum, generate_add, ← h.output_eq, ← h.all_eq, heq]
  · rw [heq]
    simp only [← List.append_assoc, ← h.all_eq]
  · rw [heq]
    exact h.params_eq
  · rw [heq]
    exact h.maxTokens_eq

variable (env blockSize c target) in
/-- The stop test behind a number of output tokens. -/
def stopAt (r₀ : Request H) (n : Nat) : Option (RequestStatus × Option StopReason) :=
  (r₀.appendEach env blockSize (generate target r₀.allTokenIds n)).checkStop c.maxModelLen

variable (env blockSize) in
/-- The stop test of a decoded request only depends on its number of output tokens. -/
theorem Decoded.checkStop_eq (h : Decoded target r₀ r) (hempty : r₀.outputTokenIds = []) :
    r.checkStop c.maxModelLen = stopAt env blockSize c target r₀ r.numOutputTokens := by
  obtain ⟨blockHashes, heq⟩ :=
    r₀.appendEach_eq env blockSize (generate target r₀.allTokenIds r.numOutputTokens)
  rw [stopAt, heq]
  refine Request.checkStop_congr h.params_eq h.maxTokens_eq ?_ ?_
  · simp only [hempty, List.nil_append]
    exact h.output_eq
  · simp only [Request.numTokens, h.all_eq, ← h.output_eq]

variable (env blockSize c target) in
/-- A state whose output is that of the model up to the first stop. -/
structure Follows (r₀ : Request H) (s : DecodeState H) : Prop where
  decoded : Decoded target r₀ s.request
  goes_on : ∀ j, 0 < j → j < s.request.numOutputTokens →
    stopAt env blockSize c target r₀ j = none
  new_eq : s.newTokenIds = s.request.outputTokenIds
  outcome : (s.request.status = .running ∧ s.stopReason = none ∧ (0 < s.request.numOutputTokens →
      stopAt env blockSize c target r₀ s.request.numOutputTokens = none)) ∨
    (0 < s.request.numOutputTokens ∧
      stopAt env blockSize c target r₀ s.request.numOutputTokens =
        some (s.request.status, s.stopReason))
  fits : s.request.numTokens ≤ c.maxModelLen

/-- A running request between two steps: the cache holds the computed tokens, and once there
is output, all tokens but the last one are computed. -/
structure Ready (s : DecodeState H) (numComputedTokens : Nat) : Prop where
  status_eq : s.request.status = .running
  computed_eq : s.request.numComputedTokens = numComputedTokens
  computed_lt : numComputedTokens < s.request.numTokens
  kv_eq : s.kv.take numComputedTokens = s.request.allTokenIds.take numComputedTokens
  placeholders_eq : s.request.numOutputPlaceholders = 0
  sampled : 0 < s.request.numOutputTokens → numComputedTokens + 1 = s.request.numTokens

/-- What two finished or exhausted states have generated is the same. -/
theorem Follows.result_eq {s' : DecodeState H} (h : Follows env blockSize c target r₀ s)
    (h' : Follows env blockSize c target r₀ s')
    (hdone : s.request.status.isFinished ∨ c.maxModelLen ≤ s.request.numTokens)
    (hdone' : s'.request.status.isFinished ∨ c.maxModelLen ≤ s'.request.numTokens) :
    s.result = s'.result := by
  have hshort {s s' : DecodeState H} (h : Follows env blockSize c target r₀ s)
      (h' : Follows env blockSize c target r₀ s')
      (hdone : s.request.status.isFinished ∨ c.maxModelLen ≤ s.request.numTokens) :
      ¬s.request.numOutputTokens < s'.request.numOutputTokens := by
    intro hlt
    rcases hdone with hfinished | hfull
    · rcases h.outcome with ⟨hrunning, -⟩ | ⟨hpos, hstop⟩
      · rw [hrunning] at hfinished
        cases hfinished
      · rw [h'.goes_on _ hpos hlt] at hstop
        cases hstop
    · have hfits := h'.fits
      simp only [Request.numTokens, h.decoded.all_eq, h'.decoded.all_eq, List.length_append]
        at hfull hfits
      simp only [Request.numOutputTokens] at hlt
      omega
  have hnum : s.request.numOutputTokens = s'.request.numOutputTokens :=
    le_antisymm (not_lt.mp (hshort h' h hdone')) (not_lt.mp (hshort h h' hdone))
  have houtput : s.request.outputTokenIds = s'.request.outputTokenIds := by
    rw [h.decoded.output_eq, h'.decoded.output_eq, hnum]
  have hreason : s.request.status.getFinishedReason = s'.request.status.getFinishedReason ∧
      s.stopReason = s'.stopReason := by
    rcases h.outcome with ⟨hrunning, hnone, hgoes⟩ | ⟨hpos, hstop⟩ <;>
      rcases h'.outcome with ⟨hrunning', hnone', hgoes'⟩ | ⟨hpos', hstop'⟩
    · exact ⟨by rw [hrunning, hrunning'], by rw [hnone, hnone']⟩
    · rw [← hnum, hgoes (hnum ▸ hpos')] at hstop'
      cases hstop'
    · rw [hnum, hgoes' (hnum ▸ hpos)] at hstop
      cases hstop
    · rw [hnum, hstop', Option.some.injEq, Prod.mk.injEq] at hstop
      exact ⟨by rw [hstop.1], hstop.2.symm⟩
  simp only [DecodeState.result, houtput, h.new_eq, h'.new_eq, hreason.1, hreason.2]

/-! ## Steps -/

/-- New draft tokens leave the rest of a request alone. -/
theorem setDraftTokenIds_eq (drafts : List TokenId) (r : Request H) :
    ∃ specTokenIds, r.setDraftTokenIds drafts = { r with specTokenIds } := by
  unfold Request.setDraftTokenIds
  split
  · exact ⟨r.specTokenIds, rfl⟩
  · split
    · exact ⟨[], rfl⟩
    · exact ⟨drafts, rfl⟩

/-- Following the model is a matter of the tokens and the status. -/
theorem Follows.congr (h : Follows env blockSize c target r₀ s) {s' : DecodeState H}
    {numComputedTokens numOutputPlaceholders : Int} {isPrefillChunk : Bool}
    {specTokenIds : List TokenId}
    (hrequest : s'.request = { s.request with
      numComputedTokens, numOutputPlaceholders, isPrefillChunk, specTokenIds })
    (hnew : s'.newTokenIds = s.newTokenIds) (hreason : s'.stopReason = s.stopReason) :
    Follows env blockSize c target r₀ s' := by
  obtain ⟨⟨houtput, hall, hparams, hmax⟩, hgoes, hnew_eq, houtcome, hfits⟩ := h
  refine ⟨⟨?_, ?_, ?_, ?_⟩, ?_, ?_, ?_, ?_⟩ <;> rw [hrequest]
  · exact houtput
  · exact hall
  · exact hparams
  · exact hmax
  · exact hgoes
  · exact hnew.trans hnew_eq
  · rw [hreason]
    exact houtcome
  · exact hfits

/-- The next tokens of the model are appended up to the first stop. -/
theorem follows_takeOutput (h : Follows env blockSize c target r₀ s)
    (hempty : r₀.outputTokenIds = []) (hrunning : s.request.status = .running) {n : Nat}
    (hfits : s.request.numTokens + n ≤ c.maxModelLen) (drafts : List TokenId) {s' : DecodeState H}
    (hs' : takeOutput env blockSize c drafts (generate target s.request.allTokenIds n) s = s') :
    Follows env blockSize c target r₀ s' ∧ (s'.request.status.isFinished ∨ ∃ specTokenIds,
      s' = { s with
        request := { s.request.appendEach env blockSize (generate target s.request.allTokenIds n)
          with specTokenIds }
        newTokenIds := s.newTokenIds ++ generate target s.request.allTokenIds n }) := by
  obtain ⟨hnone, hgoes⟩ : s.stopReason = none ∧ (0 < s.request.numOutputTokens →
      stopAt env blockSize c target r₀ s.request.numOutputTokens = none) := by
    rcases h.outcome with ⟨-, hrest⟩ | ⟨-, hstop⟩
    · exact hrest
    · have hfinished := Request.isFinished_of_checkStop hstop
      rw [hrunning] at hfinished
      cases hfinished
  have happend (m : Nat) := h.decoded.append env blockSize m
  have hstop (m : Nat) : (s.request.appendEach env blockSize
      (generate target s.request.allTokenIds m)).checkStop c.maxModelLen =
        stopAt env blockSize c target r₀ (s.request.numOutputTokens + m) := by
    rw [(happend m).1.checkStop_eq env blockSize hempty, (happend m).2]
  -- no number of tokens before the first stop of this step is a stop
  have hbefore {m : Nat} (hm : ∀ j, 0 < j → j < m →
      stopAt env blockSize c target r₀ (s.request.numOutputTokens + j) = none) (j : Nat)
      (hj : 0 < j) (hlt : j < s.request.numOutputTokens + m) :
      stopAt env blockSize c target r₀ j = none := by
    rcases Nat.lt_trichotomy j s.request.numOutputTokens with hless | rfl | hmore
    · exact h.goes_on j hj hless
    · exact hgoes hj
    · obtain ⟨i, rfl⟩ := Nat.exists_eq_add_of_le hmore.le
      exact hm i (by omega) (by omega)
  have hgrown (m : Nat) : ∃ blockHashes, s.request.appendEach env blockSize
      (generate target s.request.allTokenIds m) = { s.request with
        outputTokenIds := s.request.outputTokenIds ++ generate target s.request.allTokenIds m
        allTokenIds := s.request.allTokenIds ++ generate target s.request.allTokenIds m
        blockHashes } := s.request.appendEach_eq env blockSize _
  have hlength (m : Nat) (hm : m ≤ n) : (s.request.appendEach env blockSize
      (generate target s.request.allTokenIds m)).numTokens ≤ c.maxModelLen := by
    obtain ⟨blockHashes, heq⟩ := hgrown m
    rw [heq]
    simp only [Request.numTokens, List.length_append, length_generate] at hfits ⊢
    omega
  rcases s.request.updateWithOutput_cases env blockSize c.maxModelLen
    (generate target s.request.allTokenIds n) with
    ⟨hgo, heq⟩ | ⟨m, status, stopReason, hpos, hm, hgo, hsome, heq⟩
  · have hgo (j : Nat) (hj : 0 < j) (hjn : j ≤ n) :
        stopAt env blockSize c target r₀ (s.request.numOutputTokens + j) = none := by
      rw [← hstop, ← take_generate _ hjn]
      exact hgo j hj (by simpa using hjn)
    obtain ⟨specTokenIds, hspec⟩ := setDraftTokenIds_eq drafts
      (s.request.appendEach env blockSize (generate target s.request.allTokenIds n))
    simp only [takeOutput, heq, hspec, Option.getD_none] at hs'
    subst hs'
    refine ⟨⟨?_, ?_, ?_, ?_, hlength n le_rfl⟩, Or.inr ⟨specTokenIds, rfl⟩⟩
    · exact ⟨(happend n).1.output_eq, (happend n).1.all_eq, (happend n).1.params_eq,
        (happend n).1.maxTokens_eq⟩
    · intro j hj hlt
      exact hbefore (fun i hi hin => hgo i hi hin.le) j hj (hlt.trans_eq (happend n).2)
    · obtain ⟨blockHashes, hgrown⟩ := hgrown n
      simp only [hgrown, h.new_eq]
    · refine Or.inl ⟨?_, hnone, fun hpos => ?_⟩
      · obtain ⟨blockHashes, hgrown⟩ := hgrown n
        rw [hgrown]
        exact hrunning
      · refine (congrArg _ (happend n).2).trans ?_
        rcases Nat.eq_zero_or_pos n with rfl | hn
        · exact hgoes ((happend 0).2 ▸ hpos)
        · exact hgo n hn le_rfl
  · rw [length_generate] at hm
    rw [take_generate _ hm] at hsome heq
    have hgo (j : Nat) (hj : 0 < j) (hjm : j < m) :
        stopAt env blockSize c target r₀ (s.request.numOutputTokens + j) = none := by
      rw [← hstop, ← take_generate _ (hjm.le.trans hm)]
      exact hgo j hj hjm
    have hfinished := Request.isFinished_of_checkStop hsome
    rw [hstop, ← (happend m).2] at hsome
    simp only [takeOutput, heq, Request.setDraftTokenIds, hfinished, if_true,
      Option.getD_some] at hs'
    subst hs'
    refine ⟨⟨?_, ?_, ?_, Or.inr ⟨?_, hsome⟩, hlength m hm⟩, Or.inl hfinished⟩
    · exact ⟨(happend m).1.output_eq, (happend m).1.all_eq, (happend m).1.params_eq,
        (happend m).1.maxTokens_eq⟩
    · intro j hj hlt
      exact hbefore hgo j hj (hlt.trans_eq (happend m).2)
    · obtain ⟨blockHashes, hgrown⟩ := hgrown m
      simp only [hgrown, h.new_eq]
    · have hnum := (happend m).2
      simp only [Request.numOutputTokens] at hnum ⊢
      omega

/-- Slots that are written hold the tokens behind what was there. -/
theorem take_writeSlots {kv tokens : List TokenId} {start : Nat} (h : start ≤ kv.length) :
    (writeSlots kv start tokens).take (start + tokens.length) = kv.take start ++ tokens := by
  have hlength : (kv.take start ++ tokens).length = start + tokens.length := by simp [h]
  rw [writeSlots, ← hlength, List.take_left]

/-- A running request is ready for the next step behind appended tokens. -/
theorem ready_takenIn {start : Nat} {tokens specTokenIds : List TokenId}
    (hstatus : s.request.status = .running) (hcomputed : s.request.numComputedTokens = start)
    (hlt : start < s.request.numTokens + tokens.length)
    (hkv : s.kv.take start = (s.request.allTokenIds ++ tokens).take start)
    (hplaceholders : s.request.numOutputPlaceholders = 0)
    (hsampled : 0 < s.request.numOutputTokens + tokens.length →
      start + 1 = s.request.numTokens + tokens.length) :
    Ready { s with
      request := { s.request.appendEach env blockSize tokens with specTokenIds }
      newTokenIds := s.newTokenIds ++ tokens } start := by
  obtain ⟨blockHashes, heq⟩ := s.request.appendEach_eq env blockSize tokens
  rw [heq]
  refine ⟨hstatus, hcomputed, ?_, hkv, hplaceholders, ?_⟩
  · simpa [Request.numTokens] using hlt
  · simpa [Request.numTokens, Request.numOutputTokens] using hsampled

/-- Behind the model and the rollback, the next tokens of the model are taken in. -/
theorem Follows.deliver (h : Follows env blockSize c target r₀ s)
    (hempty : r₀.outputTokenIds = []) (hrunning : s.request.status = .running) {start n : Nat}
    {isPrefillChunk : Bool} {specTokenIds : List TokenId} (hr : r = { s.request with
      numComputedTokens := start, numOutputPlaceholders := 0, isPrefillChunk, specTokenIds })
    (hfits : s.request.numTokens + n ≤ c.maxModelLen) (hlt : start < s.request.numTokens + n)
    {kv : List TokenId} (hkv : kv.take start =
      (s.request.allTokenIds ++ generate target s.request.allTokenIds n).take start)
    (hsampled : 0 < s.request.numOutputTokens + n → start + 1 = s.request.numTokens + n)
    {drafts : List TokenId} {s' : DecodeState H}
    (hs' : takeOutput env blockSize c drafts (generate target s.request.allTokenIds n)
      { s with request := r, kv } = s') :
    Follows env blockSize c target r₀ s' ∧
      (s'.request.status.isFinished ∨ Ready s' start) := by
  have h₁ : Follows env blockSize c target r₀ { s with request := r, kv } := h.congr hr rfl rfl
  have hall : r.allTokenIds = s.request.allTokenIds := by rw [hr]
  have hstatus : r.status = .running := by
    rw [hr]
    exact hrunning
  have hnum : r.numTokens = s.request.numTokens := by rw [hr]; rfl
  have hout : r.numOutputTokens = s.request.numOutputTokens := by rw [hr]; rfl
  rw [← hall] at hs' hkv
  rw [← hnum] at hfits hlt hsampled
  rw [← hout] at hsampled
  obtain ⟨hfollows, hfinished | ⟨specTokenIds', rfl⟩⟩ :=
    follows_takeOutput h₁ hempty hstatus hfits drafts hs'
  · exact ⟨hfollows, Or.inl hfinished⟩
  · refine ⟨hfollows, Or.inr
      (ready_takenIn (s := { s with request := r, kv }) hstatus ?_ ?_ hkv ?_ ?_)⟩
    · rw [hr]
    · simpa using hlt
    · rw [hr]
    · simpa using hsampled

/-- A step of a request that gets tokens computes more of them, or finishes it. -/
theorem follows_executeStep (htarget : ∀ context, target context < c.vocabSize)
    (h : Follows env blockSize c target r₀ s) (hempty : r₀.outputTokenIds = []) {start : Nat}
    (hready : Ready s start) (plan : StepPlan) {n : Nat} (hn : 0 < n)
    {specTokenIds : List TokenId}
    (hspec : specTokenIds.length = start + n - s.request.numTokens)
    (hfit : start + n < c.maxModelLen) {s' : DecodeState H}
    (hs' : executeStep env blockSize c target plan n specTokenIds s = s') :
    Follows env blockSize c target r₀ s' ∧
      (s'.request.status.isFinished ∨ ∃ start', start < start' ∧ Ready s' start') := by
  have hstart : s.request.numComputedTokens.toNat = start := by
    rw [hready.computed_eq, Int.toNat_natCast]
  have hlt := hready.computed_lt
  have hkvlen : start ≤ s.kv.length := by
    have hlen := congrArg List.length hready.kv_eq
    simp only [List.length_take, Request.numTokens] at hlen hlt
    omega
  obtain ⟨inputIds, hinput⟩ : ∃ inputIds, inputIds =
    ((s.request.allTokenIds ++ specTokenIds).drop start).take n := ⟨_, rfl⟩
  have hinputlen : inputIds.length = n := by
    rw [hinput]
    simp only [List.length_take, List.length_drop, List.length_append, Request.numTokens]
      at hspec hlt ⊢
    omega
  obtain ⟨kv, hkv⟩ : ∃ kv, kv = writeSlots s.kv start inputIds := ⟨_, rfl⟩
  have htake : kv.take (start + n) =
      (s.request.allTokenIds ++ specTokenIds).take (start + n) := by
    rw [hkv, ← hinputlen, take_writeSlots hkvlen, hready.kv_eq, hinputlen, List.take_add, ← hinput,
      List.take_append_of_le_length hlt.le]
  simp only [executeStep, hstart, ← hinput, ← hkv] at hs'
  have hadvance : s.request.advance n = { s.request with
      numComputedTokens := (start + n : Nat)
      numOutputPlaceholders := 0
      isPrefillChunk := (s.request.advance n).isPrefillChunk } := by
    simp only [Request.advance, hready.computed_eq, hready.placeholders_eq, Nat.cast_add]
  rcases Nat.lt_or_ge (start + n) s.request.numTokens with hpartial | hfull
  · -- a partial prefill returns no token
    obtain rfl : specTokenIds = [] := List.length_eq_zero_iff.mp (by omega)
    have hnone : sampledTokenIds c target plan kv (start + n) 0 true = [] := by
      simp [sampledTokenIds, parseOutput]
    simp only [List.length_nil, hpartial, decide_true, hnone, ne_eq, not_true_eq_false,
      false_and, if_false] at hs'
    have hprefill (hpos : 0 < s.request.numOutputTokens) :
        start + n + 1 = s.request.numTokens := by
      have := hready.sampled hpos
      omega
    obtain ⟨hfollows, hrest⟩ := h.deliver (n := 0) hempty hready.status_eq hadvance h.fits hpartial
      htake hprefill hs'
    exact ⟨hfollows, hrest.imp_right fun hnext => ⟨_, by omega, hnext⟩⟩
  · have hstop : start + n = s.request.allTokenIds.length + specTokenIds.length := by
      rw [hspec]
      simp only [Request.numTokens] at hfull ⊢
      omega
    have hcontext : 0 < s.request.allTokenIds.length := Nat.zero_lt_of_lt hlt
    have hkvtake : kv.take (s.request.allTokenIds.length + specTokenIds.length) =
        s.request.allTokenIds ++ specTokenIds := by
      rw [← hstop, htake, List.take_of_length_le (by rw [List.length_append, hstop])]
    obtain ⟨numAccepted, hle, hprefix, hsampled⟩ :=
      sampledTokenIds_eq htarget plan hcontext hkvtake
    rw [hstop, decide_eq_false (by simp only [Request.numTokens]; omega), hsampled,
      length_generate] at hs'
    have hroll : (if specTokenIds ≠ [] ∧ generate target s.request.allTokenIds (numAccepted + 1) ≠
        [] then (s.request.advance n).rejectDrafts specTokenIds.length (numAccepted + 1)
        else s.request.advance n) = { s.request with
          numComputedTokens := (s.request.numTokens + numAccepted : Nat)
          numOutputPlaceholders := 0
          isPrefillChunk := (s.request.advance n).isPrefillChunk } := by
      have hnum : s.request.numTokens + specTokenIds.length = start + n := hstop.symm
      rw [hadvance]
      split
      · simp only [Request.rejectDrafts, lt_irrefl, if_false, Request.mk.injEq, true_and, and_true]
        split <;> omega
      · rename_i hnospec
        obtain rfl : specTokenIds = [] := by
          by_contra hne
          refine hnospec ⟨hne, fun hnil => ?_⟩
          have := congrArg List.length hnil
          rw [length_generate] at this
          cases this
        obtain rfl : numAccepted = 0 := Nat.le_zero.mp hle
        simp only [← hnum, List.length_nil]
    rw [hroll] at hs'
    have hbefore : kv.take (s.request.numTokens + numAccepted) =
        (s.request.allTokenIds ++ generate target s.request.allTokenIds (numAccepted + 1)).take
          (s.request.numTokens + numAccepted) := by
      have hmin : s.request.numTokens + numAccepted =
          min (s.request.numTokens + numAccepted)
            (s.request.allTokenIds.length + specTokenIds.length) := by
        simp only [Request.numTokens]
        omega
      rw [hmin, ← List.take_take, hkvtake, ← hmin, Request.numTokens, List.take_length_add_append,
        List.take_length_add_append, hprefix, take_generate _ (Nat.le_succ _)]
    have hfits : s.request.numTokens + (numAccepted + 1) ≤ c.maxModelLen := by
      simp only [Request.numTokens] at hstop ⊢
      omega
    obtain ⟨hfollows, hrest⟩ := h.deliver hempty hready.status_eq rfl hfits (by omega) hbefore
      (fun _ => by omega) hs'
    exact ⟨hfollows, hrest.imp_right fun hnext => ⟨_, by omega, hnext⟩⟩

/-! ## Runs -/

variable (env blockSize c target) in
/-- The request is finished, has reached the length limit, or has a number of tokens computed. -/
def Advanced (r₀ : Request H) (s : DecodeState H) (k : Nat) : Prop :=
  Follows env blockSize c target r₀ s ∧ (s.request.status.isFinished ∨
    ∃ start, Ready s start ∧ (k ≤ start ∨ c.maxModelLen ≤ s.request.numTokens))

/-- The cap leaves a positive number of tokens positive, and adds none. -/
theorem capLongPrefill_pos {threshold : Nat} {n : Int} (hn : 0 < n) :
    0 < capLongPrefill threshold n ∧ capLongPrefill threshold n ≤ n := by
  unfold capLongPrefill
  split <;> omega

/-- Each step computes more tokens, until the request is finished or at the length limit. -/
theorem Advanced.step (htarget : ∀ context, target context < c.vocabSize)
    (hempty : r₀.outputTokenIds = []) (hprompt : r₀.numTokens < c.maxModelLen) {k : Nat}
    (h : Advanced env blockSize c target r₀ s k) (plan : StepPlan) :
    Advanced env blockSize c target r₀ (decodeStep env blockSize c target s plan) (k + 1) := by
  obtain ⟨hfollows, hfinished | ⟨start, hready, hk⟩⟩ := h
  · have hne : s.request.status ≠ .running := by
      intro hrunning
      rw [hrunning] at hfinished
      cases hfinished
    rw [decodeStep, if_neg hne]
    exact ⟨hfollows, Or.inl hfinished⟩
  have hlt := hready.computed_lt
  have hfits := hfollows.fits
  have hspecs : s.request.numTokensWithSpec =
      s.request.numTokens + s.request.specTokenIds.length := rfl
  obtain ⟨hpos, hle⟩ := @capLongPrefill_pos c.longPrefillTokenThreshold
    (s.request.numTokensWithSpec + s.request.numOutputPlaceholders - s.request.numComputedTokens)
    (by rw [hready.computed_eq, hready.placeholders_eq]; omega)
  have hbudget := plan.tokenBudget_pos
  rw [decodeStep, if_pos hready.status_eq]
  obtain ⟨n, hn⟩ : ∃ n, n = s.request.numNewTokens c.longPrefillTokenThreshold c.maxModelLen
    plan.tokenBudget := ⟨_, rfl⟩
  simp only [← hn]
  rw [Request.numNewTokens, hready.computed_eq] at hn
  rw [hready.computed_eq] at hpos hle
  by_cases hfull : c.maxModelLen ≤ s.request.numTokens
  · -- at the length limit nothing is scheduled any more
    have hsampled : start + 1 = s.request.numTokens := by
      refine hready.sampled ?_
      simp only [Request.numTokens, hfollows.decoded.all_eq, List.length_append] at hfull hprompt
      simp only [Request.numOutputTokens]
      omega
    rw [if_pos (by omega)]
    exact ⟨hfollows, Or.inr ⟨start, hready, Or.inr hfull⟩⟩
  · rw [if_neg (by omega)]
    have hdrafts : (s.request.scheduledSpecTokenIds n).length =
        start + n.toNat - s.request.numTokens := by
      rw [Request.scheduledSpecTokenIds, List.length_take, hready.computed_eq,
        hready.placeholders_eq]
      rw [hready.placeholders_eq] at hn hle
      omega
    have hfollows' : Follows env blockSize c target r₀
        { s with request := { s.request with specTokenIds := [] } } := hfollows.congr rfl rfl rfl
    have hready' : Ready { s with request := { s.request with specTokenIds := [] } } start :=
      ⟨hready.status_eq, hready.computed_eq, hlt, hready.kv_eq, hready.placeholders_eq,
        hready.sampled⟩
    obtain ⟨hnext, hrest⟩ := follows_executeStep htarget hfollows' hempty hready' plan
      (n := n.toNat) (by omega) hdrafts (by omega) rfl
    refine ⟨hnext, hrest.imp_right ?_⟩
    rintro ⟨start', hlt', hready'⟩
    exact ⟨start', hready', Or.inl (by omega)⟩

/-- A prompt that `_validate_prompt_len` lets through to a generating model. -/
structure ValidPrompt (maxModelLen : Nat) (args : Request H) : Prop where
  pos : 0 < (initialTokenIds args.promptTokenIds args.promptEmbeds).length
  lt : (initialTokenIds args.promptTokenIds args.promptEmbeds).length < maxModelLen

variable (env blockSize) in
/-- Admitting a new request is a first step. -/
theorem advanced_takeUp (htarget : ∀ context, target context < c.vocabSize) {args : Request H}
    (hargs : ValidPrompt c.maxModelLen args) (plan : StepPlan) (numHits : Nat) :
    Advanced env blockSize c target (Request.init env blockSize args)
      (takeUp env blockSize c target plan numHits (Request.init env blockSize args)) 0 := by
  obtain ⟨r₀, hr₀⟩ : ∃ r₀, r₀ = Request.init env blockSize args := ⟨_, rfl⟩
  have hempty : r₀.outputTokenIds = [] := by rw [hr₀]; rfl
  have hplaceholders : r₀.numOutputPlaceholders = 0 := by rw [hr₀]; rfl
  have hpos : 0 < r₀.numTokens := by rw [hr₀]; exact hargs.pos
  have hprompt : r₀.numTokens < c.maxModelLen := by rw [hr₀]; exact hargs.lt
  rw [← hr₀, takeUp]
  obtain ⟨start, hstart⟩ : ∃ start, start = min numHits (r₀.numTokens - 1) := ⟨_, rfl⟩
  obtain ⟨hcap, hle⟩ := @capLongPrefill_pos c.longPrefillTokenThreshold (r₀.numTokens - start)
    (by omega)
  have hbudget := plan.tokenBudget_pos
  rw [← hstart]
  have hfollows : Follows env blockSize c target r₀
      { request := { r₀ with status := .running, numComputedTokens := start }
        kv := r₀.allTokenIds.take start
        newTokenIds := []
        stopReason := none } := by
    refine ⟨⟨?_, ?_, rfl, rfl⟩, ?_, ?_, Or.inl ⟨rfl, rfl, ?_⟩, hprompt.le⟩
    · simp [Request.numOutputTokens, hempty, generate]
    · simp [hempty]
    · simp [Request.numOutputTokens, hempty]
    · exact hempty.symm
    · simp [Request.numOutputTokens, hempty]
  have hready : Ready
      { request := { r₀ with status := .running, numComputedTokens := start }
        kv := r₀.allTokenIds.take start
        newTokenIds := []
        stopReason := none } start := by
    refine ⟨rfl, rfl, ?_, ?_, hplaceholders, ?_⟩
    · change start < r₀.numTokens
      omega
    · change (r₀.allTokenIds.take start).take start = r₀.allTokenIds.take start
      rw [List.take_take, Nat.min_self]
    · simp [Request.numOutputTokens, hempty]
  obtain ⟨n, hn⟩ : ∃ n, n = (min (capLongPrefill c.longPrefillTokenThreshold
    (r₀.numTokens - start)) plan.tokenBudget).toNat := ⟨_, rfl⟩
  have hnodraft : ([] : List TokenId).length = start + n - r₀.numTokens := by
    change 0 = _
    omega
  rw [← hn]
  obtain ⟨hnext, hrest⟩ := follows_executeStep htarget hfollows hempty hready plan
    (n := n) (by omega) hnodraft (by omega) rfl
  refine ⟨hnext, hrest.imp_right ?_⟩
  rintro ⟨start', -, hready'⟩
  exact ⟨start', hready', Or.inl (Nat.zero_le _)⟩

variable (env blockSize) in
/-- After as many steps as the model has positions, the output is that of the model up to the
first stop. -/
theorem follows_decode (htarget : ∀ context, target context < c.vocabSize) {args : Request H}
    (hargs : ValidPrompt c.maxModelLen args) (admission : StepPlan) (numHits : Nat)
    {plans : List StepPlan} (hplans : c.maxModelLen ≤ plans.length) {s : DecodeState H}
    (hs : decode env blockSize c target args admission numHits plans = s) :
    Follows env blockSize c target (Request.init env blockSize args) s ∧
      (s.request.status.isFinished ∨ c.maxModelLen ≤ s.request.numTokens) := by
  have hempty : (Request.init env blockSize args).outputTokenIds = [] := rfl
  have hrun (plans : List StepPlan) {s : DecodeState H} {k : Nat}
      (h : Advanced env blockSize c target (Request.init env blockSize args) s k) :
      Advanced env blockSize c target (Request.init env blockSize args)
        (plans.foldl (decodeStep env blockSize c target) s) (k + plans.length) := by
    induction plans generalizing s k with
    | nil => exact h
    | cons plan plans ih =>
      rw [List.length_cons, Nat.add_comm plans.length, ← Nat.add_assoc]
      exact ih (h.step htarget hempty hargs.lt plan)
  subst hs
  obtain ⟨hfollows, hdone⟩ :=
    hrun plans (advanced_takeUp env blockSize htarget hargs admission numHits)
  refine ⟨hfollows, hdone.imp_right ?_⟩
  rintro ⟨start, hready, hstart | hfull⟩
  · have hlt := hready.computed_lt
    have hfits := hfollows.fits
    omega
  · exact hfull

/-- Draft tokens change neither the output nor the finish reason: whatever is drafted in each
step, the request ends as in plain decoding. -/
theorem decode_result_eq_plain (htarget : ∀ context, target context < c.vocabSize)
    {args : Request H} (hargs : ValidPrompt c.maxModelLen args) (admission admission' : StepPlan)
    (numHits numHits' : Nat) {plans : List StepPlan} (hplans : c.maxModelLen ≤ plans.length)
    {n : Nat} (hn : c.maxModelLen ≤ n) :
    (decode env blockSize c target args admission numHits plans).result =
      (decode env blockSize c target args admission' numHits'
        (List.replicate n StepPlan.plain)).result := by
  obtain ⟨hfollows, hdone⟩ :=
    follows_decode env blockSize htarget hargs admission numHits hplans rfl
  have hlength : c.maxModelLen ≤ (List.replicate n StepPlan.plain).length := by simpa using hn
  obtain ⟨hfollows', hdone'⟩ :=
    follows_decode env blockSize htarget hargs admission' numHits' hlength rfl
  exact hfollows.result_eq hfollows' hdone hdone'

end Loop

/-! ## A counting model -/

/-- A model that counts on, up to six. -/
def countOn (context : List TokenId) : TokenId := (context.getLastD 0 + 1) % 7

/-- Limits that leave room for seven output tokens behind a prompt of two. -/
def shortModel : DecodeConfig where
  maxModelLen := 9
  longPrefillTokenThreshold := 0
  vocabSize := 7

/-- A request that stops at six. -/
def upToSix : Request FreeDigest where
  requestId := 0
  samplingParams := { stopTokenIds := [6] }
  maxTokens := 7
  promptTokenIds := some [1, 2]

/-- A step that always drafts the same tokens. -/
def sameDrafts : StepPlan where
  tokenBudget := 4
  otherSpecLen := 1
  allGreedy := false
  drafts := [4, 5, 0]
  tokenBudget_pos := by decide

/-- The first two drafts are accepted, and the token in place of the third one stops the
request. -/
theorem upToSix_result_eq_plain :
    (decode freeEnv 2 shortModel countOn upToSix sameDrafts 0
      (List.replicate 9 sameDrafts)).result =
        (decode freeEnv 2 shortModel countOn upToSix StepPlan.plain 1
          (List.replicate 9 StepPlan.plain)).result ∧
    (decode freeEnv 2 shortModel countOn upToSix sameDrafts 0
      (List.replicate 9 sameDrafts)).result = {
        outputTokenIds := [3, 4, 5, 6]
        newTokenIds := [3, 4, 5, 6]
        finishReason := some .stop
        stopReason := some (.token 6) } := by
  have htarget (context : List TokenId) : countOn context < shortModel.vocabSize :=
    Nat.mod_lt _ (by decide)
  have hargs : ValidPrompt shortModel.maxModelLen upToSix := ⟨by decide, by decide⟩
  have hlength : shortModel.maxModelLen ≤ (List.replicate 9 sameDrafts).length := by decide
  exact ⟨decode_result_eq_plain htarget hargs sameDrafts StepPlan.plain 0 1 hlength le_rfl,
    by decide⟩

end Vllm
