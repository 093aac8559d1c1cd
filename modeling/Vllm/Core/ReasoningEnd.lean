import Vllm.Core.StructuredOutput
import Vllm.Core.UpdateRules

/-!
# The end of the reasoning

With a reasoner the grammar of a request starts behind the reasoning section. Whether
that section has ended is decided once for all tokens of a step, and the step in which it ends
does not advance the grammar. With drafts a step delivers several tokens: those behind the
marker are answer tokens that the grammar never sees, and only the last token of the step
is looked at, so that a marker before it goes unnoticed.
-/

namespace Vllm

open Checked StructuredOutputManager

variable {H G Row : Type}

/-- A structured request with its grammar. -/
structure StructuredRun (H G : Type) where
  request : Request H
  structured : StructuredOutputRequest G
  deriving DecidableEq

/-- What the engine does with a structured request. -/
inductive StructuredCall where
  /-- The request is taken from a waiting queue, with the given prefix hits. -/
  | enter (numComputedTokens : Int)
  /-- The request is part of a step. -/
  | schedule (numScheduledTokens : Int) (numSpecTokens : Nat)
  /-- `get_grammar_bitmask` of a step with the request. -/
  | getGrammarBitmask
  | preempt
  /-- The preemption of `reset_prefix_cache`. -/
  | forcePreempt
  | updateDraftTokenIds (specTokenIds : List TokenId)
  | updateDraftTokenIdsInOutput (specTokenIds : List TokenId)
  | updateFromOutput (numDraftTokens : Nat) (generated : List TokenId)

/-- What a run is parameterised by. -/
structure StructuredEnv (H G Row : Type) where
  hashEnv : HashEnv H
  blockSize : Nat
  maxModelLen : Nat
  asyncScheduling : Bool
  numSpecTokens : Nat
  manager : StructuredOutputManager
  backend : GrammarBackend G Row

namespace StructuredRun

variable (env : StructuredEnv H G Row)

/-- `_update_after_schedule` of the scheduler in use. -/
def scheduled (numScheduledTokens : Int) (numSpecTokens : Nat) (r : Request H) : Request H :=
  let r := r.advance numScheduledTokens
  if env.asyncScheduling ∧ !r.isPrefillChunk then
    { r with
      numOutputPlaceholders := r.numOutputPlaceholders + (1 + numSpecTokens)
      specTokenIds := List.replicate env.numSpecTokens 0 }
  else r

/-- The request behind a preemption. -/
def preempted (r : Request H) : Request H :=
  { r with
    status := .preempted
    numComputedTokens := 0
    specTokenIds := []
    numPreemptions := r.numPreemptions + 1 }

/-- The grammar's cut of draft tokens, if the grammar is in charge already. -/
def validateDrafts (s : StructuredRun H G) (specTokenIds : List TokenId) :
    List TokenId × StructuredOutputRequest G :=
  match env.manager.shouldAdvance s.request s.structured with
  | (true, structured) =>
    let (specTokenIds, grammar) := env.backend.validateTokens structured.grammar specTokenIds
    (specTokenIds, { structured with grammar })
  | (false, structured) => (specTokenIds, structured)

/-- The tokens of a step that are kept, with the request behind them. -/
def taken (s : StructuredRun H G) (numDraftTokens : Nat) (generated : List TokenId) :
    Request H × List TokenId × Bool :=
  s.request.takeOutput env.hashEnv env.blockSize env.maxModelLen env.asyncScheduling
    numDraftTokens generated false

/-- The effect of a call on the request and its grammar. -/
def apply (s : StructuredRun H G) : StructuredCall → Except SchedulerError (StructuredRun H G)
  | .enter numComputedTokens =>
    .ok { s with request := { s.request with status := .running, numComputedTokens } }
  | .schedule numScheduledTokens numSpecTokens =>
    .ok { s with request := scheduled env numScheduledTokens numSpecTokens s.request }
  | .getGrammarBitmask =>
    if s.request.useStructuredOutput && !s.request.isPrefillChunk then
      .ok { s with structured := (env.manager.shouldFillBitmask s.request s.structured).2 }
    else .ok s
  | .preempt => .ok { s with request := preempted s.request }
  | .forcePreempt =>
    .ok { s with request := { preempted s.request with
      numOutputPlaceholders := 0
      discardLatestAsyncTokens := true } }
  | .updateDraftTokenIds specTokenIds =>
    if s.request.status.isFinished || s.request.isPrefillChunk then
      .ok { s with request := s.request.setDraftTokenIds specTokenIds }
    else
      let (specTokenIds, structured) := s.validateDrafts env specTokenIds
      .ok { request := s.request.setDraftTokenIds specTokenIds, structured }
  | .updateDraftTokenIdsInOutput specTokenIds =>
    if s.request.status.isFinished then .ok s
    else .ok { s with structured := (s.validateDrafts env specTokenIds).2 }
  | .updateFromOutput numDraftTokens generated =>
    if s.request.status.isFinished then .ok s
    else do
      let (request, newTokenIds, stopped) := s.taken env numDraftTokens generated
      ensure (env.asyncScheduling = true → 0 ≤ request.numOutputPlaceholders)
        .negativeOutputPlaceholders
      let request :=
        -- a session that stops waits for its next chunk
        if stopped && request.resumable then { request with status := .waitingForStreamingReq }
        else request
      pure {
        request
        structured := env.manager.advanceGrammar env.backend request newTokenIds s.structured }

/-! ## What the grammar should have seen -/

/-- The output behind the reasoning section: all of it if the section ended in the prompt,
else the tokens behind the first marker. -/
def answerTokens (endTokenId : TokenId) (endedInPrompt : Bool) (outputTokenIds : List TokenId) :
    List TokenId :=
  if endedInPrompt then outputTokenIds
  else (outputTokenIds.dropWhile (· ≠ endTokenId)).drop 1

/-- The marker is found among the tokens that `should_advance` looks at. -/
def SeesMarker (endTokenId : TokenId) (r : Request H) : Prop :=
  endTokenId ∈ r.allTokenIds.drop (deltaStart r)

instance (endTokenId : TokenId) (r : Request H) : Decidable (SeesMarker endTokenId r) :=
  inferInstanceAs (Decidable (endTokenId ∈ r.allTokenIds.drop (deltaStart r)))

/-- What a step has to be like for the grammar to follow the answer: its mask was built, the
marker, if the reasoning goes on, comes last in the step and is seen exactly then, and later
tokens are ones that the grammar takes. -/
def DeliversInPhase (history : G → List TokenId) (endTokenId : TokenId) (s : StructuredRun H G)
    (result : Request H × List TokenId × Bool) : Prop :=
  result.2.1 ≠ [] →
    s.structured.reasoningEnded ≠ none ∧
    (s.structured.reasoningEnded = some false → endTokenId ∉ result.2.1.dropLast ∧
      (SeesMarker endTokenId result.1 ↔ endTokenId ∈ result.2.1)) ∧
    (s.structured.reasoningEnded = some true →
      history (env.backend.acceptTokens s.structured.grammar result.2.1).2 =
        history s.structured.grammar ++ result.2.1)

/-- The condition on a call: drafts are not taken for the end of the reasoning, and outputs
are delivered in phase. -/
def InPhase (history : G → List TokenId) (endTokenId : TokenId) (s : StructuredRun H G) :
    StructuredCall → Prop
  | .updateDraftTokenIds _ => s.request.status.isFinished = false →
      s.request.isPrefillChunk = false → s.structured.reasoningEnded ≠ some true →
        ¬SeesMarker endTokenId s.request
  | .updateDraftTokenIdsInOutput _ => s.request.status.isFinished = false →
      s.structured.reasoningEnded ≠ some true → ¬SeesMarker endTokenId s.request
  | .updateFromOutput numDraftTokens generated => s.request.status.isFinished = false →
      s.DeliversInPhase env history endTokenId (s.taken env numDraftTokens generated)
  | _ => True

instance (history : G → List TokenId) (endTokenId : TokenId) (s : StructuredRun H G)
    (result : Request H × List TokenId × Bool) :
    Decidable (s.DeliversInPhase env history endTokenId result) := by
  unfold DeliversInPhase
  infer_instance

instance (history : G → List TokenId) (endTokenId : TokenId) (s : StructuredRun H G) :
    ∀ call, Decidable (s.InPhase env history endTokenId call)
  | .updateDraftTokenIds _ => inferInstanceAs (Decidable (s.request.status.isFinished = false →
      s.request.isPrefillChunk = false → s.structured.reasoningEnded ≠ some true →
        ¬SeesMarker endTokenId s.request))
  | .updateDraftTokenIdsInOutput _ =>
    inferInstanceAs (Decidable (s.request.status.isFinished = false →
      s.structured.reasoningEnded ≠ some true → ¬SeesMarker endTokenId s.request))
  | .updateFromOutput numDraftTokens generated =>
    inferInstanceAs (Decidable (s.request.status.isFinished = false →
      s.DeliversInPhase env history endTokenId (s.taken env numDraftTokens generated)))
  | .enter _ | .schedule _ _ | .getGrammarBitmask | .preempt | .forcePreempt => isTrue trivial

/-! ## Steps -/

/-- A scan for the marker skips tokens among which it is not. -/
theorem dropWhile_append_of_unmarked {endTokenId : TokenId} {front : List TokenId}
    (h : endTokenId ∉ front) (rest : List TokenId) :
    (front ++ rest).dropWhile (· ≠ endTokenId) = rest.dropWhile (· ≠ endTokenId) := by
  refine List.dropWhile_append_of_pos fun token htoken => ?_
  have hne : token ≠ endTokenId := fun he => h (he ▸ htoken)
  simpa using hne

/-- Tokens behind a marker in a section that went on: none if the marker comes last. -/
theorem answerTokens_append_of_reasoning {endTokenId : TokenId} {outputTokenIds tokens :
    List TokenId} (houtput : endTokenId ∉ outputTokenIds) (hlast : endTokenId ∉ tokens.dropLast) :
    answerTokens endTokenId false (outputTokenIds ++ tokens) = [] := by
  rw [answerTokens, if_neg Bool.false_ne_true, dropWhile_append_of_unmarked houtput]
  rcases List.eq_nil_or_concat tokens with rfl | ⟨front, last, rfl⟩
  · rfl
  · rw [List.concat_eq_append, List.dropLast_concat] at hlast
    rw [List.concat_eq_append, dropWhile_append_of_unmarked hlast]
    by_cases he : last = endTokenId <;> simp [he]

/-- Behind the section every token belongs to the answer. -/
theorem answerTokens_append_of_ended {endTokenId : TokenId} {endedInPrompt : Bool}
    {outputTokenIds : List TokenId} (h : endedInPrompt = true ∨ endTokenId ∈ outputTokenIds)
    (tokens : List TokenId) : answerTokens endTokenId endedInPrompt (outputTokenIds ++ tokens) =
      answerTokens endTokenId endedInPrompt outputTokenIds ++ tokens := by
  unfold answerTokens
  cases endedInPrompt with
  | true => rfl
  | false =>
    have hmem := h.resolve_left Bool.false_ne_true
    obtain ⟨front, rest, rfl, hfront⟩ := List.eq_append_cons_of_mem hmem
    simp only [Bool.false_eq_true, if_false, List.append_assoc,
      dropWhile_append_of_unmarked hfront]
    simp

/-- What an output appends to a request: the tokens that are kept. -/
structure Appends (r : Request H) (result : Request H × List TokenId × Bool) : Prop where
  output : result.1.outputTokenIds = r.outputTokenIds ++ result.2.1
  structured : result.1.useStructuredOutput = r.useStructuredOutput
  prompt : result.1.promptTokenIds = r.promptTokenIds

/-- Sampled tokens are appended as far as they are kept. -/
theorem appends_fillOutput (hashEnv : HashEnv H) (blockSize maxModelLen : Nat)
    (asyncScheduling : Bool) (tokenIds : List TokenId) (r : Request H) :
    Appends r (r.fillOutput hashEnv blockSize maxModelLen asyncScheduling tokenIds) := by
  unfold Request.fillOutput
  split
  · exact ⟨(List.append_nil _).symm, rfl, rfl⟩
  · have happend (tokens : List TokenId) := Request.appendEach_eq hashEnv blockSize r tokens
    rcases Request.updateWithOutput_cases hashEnv blockSize r maxModelLen tokenIds with
      ⟨-, heq⟩ | ⟨m, status, stopReason, -, -, -, -, heq⟩
    · obtain ⟨blockHashes, hr⟩ := happend tokenIds
      rw [heq, hr]
      exact ⟨rfl, rfl, rfl⟩
    · obtain ⟨blockHashes, hr⟩ := happend (tokenIds.take m)
      rw [heq, hr]
      exact ⟨rfl, rfl, rfl⟩

/-- The output of a step appends the tokens that are kept. -/
theorem appends_taken (env : StructuredEnv H G Row) (s : StructuredRun H G) (numDraftTokens : Nat)
    (generated : List TokenId) : Appends s.request (s.taken env numDraftTokens generated) := by
  unfold taken Request.takeOutput
  by_cases hsome : generated ≠ []
  · simp only [if_pos hsome]
    split
    · have hfill := appends_fillOutput env.hashEnv env.blockSize env.maxModelLen
        env.asyncScheduling generated (s.request.rejectDrafts numDraftTokens generated.length)
      exact ⟨hfill.output, hfill.structured, hfill.prompt⟩
    · exact appends_fillOutput _ _ _ _ _ _
  · obtain rfl : generated = [] := by simpa using hsome
    refine ⟨?_, ?_, ?_⟩ <;> simp

variable {env : StructuredEnv H G Row} {history : G → List TokenId} {endTokenId : TokenId}
  {endedInPrompt : Bool} {reasoner : Reasoner} {s s' : StructuredRun H G}

/-- The grammar has seen the answer, and the flag tells whether the answer has begun. -/
structure Follows (reasoner : Reasoner) (history : G → List TokenId) (endTokenId : TokenId)
    (endedInPrompt : Bool) (s : StructuredRun H G) : Prop where
  structured : s.request.useStructuredOutput = true
  pending : s.structured.reasoningEnded = none → s.request.outputTokenIds = [] ∧
    endedInPrompt = reasoner.isReasoningEnd (s.request.promptTokenIds.getD [])
  decided : ∀ ended, s.structured.reasoningEnded = some ended →
    (ended = true ↔ endedInPrompt = true ∨ endTokenId ∈ s.request.outputTokenIds)
  seen : history s.structured.grammar =
    answerTokens endTokenId endedInPrompt s.request.outputTokenIds

/-- The manager has the reasoner, whose marker is looked for in the last tokens only, and
does not constrain the reasoning. -/
structure Reasons (env : StructuredEnv H G Row) (reasoner : Reasoner) (endTokenId : TokenId) :
    Prop where
  reasoner_eq : env.manager.reasoner = some reasoner
  outside : env.manager.enableInReasoning = false
  marker : ∀ inputIds deltaIds,
    reasoner.isReasoningEndStreaming inputIds deltaIds = true ↔ endTokenId ∈ deltaIds

/-- The decision of `should_advance`, for a structured request. -/
theorem Reasons.shouldAdvance (h : Reasons env reasoner endTokenId) {r : Request H}
    (hstructured : r.useStructuredOutput = true) (structured : StructuredOutputRequest G) :
    env.manager.shouldAdvance r structured =
      if structured.reasoningEnded = some true then (true, structured)
      else if SeesMarker endTokenId r then
        (false, { structured with reasoningEnded := some true })
      else (false, structured) := by
  have hsees : reasoner.isReasoningEndStreaming r.allTokenIds
      (r.allTokenIds.drop (deltaStart r)) = true ↔ SeesMarker endTokenId r := h.marker _ _
  simp [StructuredOutputManager.shouldAdvance, hstructured, h.reasoner_eq, h.outside, hsees]

/-- A call that touches neither the output nor the structured part. -/
theorem Follows.frame (h : s.Follows reasoner history endTokenId endedInPrompt) {r : Request H}
    (houtput : r.outputTokenIds = s.request.outputTokenIds)
    (hstructured : r.useStructuredOutput = s.request.useStructuredOutput)
    (hprompt : r.promptTokenIds = s.request.promptTokenIds) :
    Follows reasoner history endTokenId endedInPrompt { s with request := r } :=
  ⟨hstructured.trans h.structured, by simpa only [houtput, hprompt] using h.pending,
    by simpa only [houtput] using h.decided, by simpa only [houtput] using h.seen⟩

/-- Building a mask settles whether the reasoning ended in the prompt. -/
theorem Follows.getGrammarBitmask (h : s.Follows reasoner history endTokenId endedInPrompt)
    (henv : Reasons env reasoner endTokenId) :
    Follows reasoner history endTokenId endedInPrompt
      { s with structured := (env.manager.shouldFillBitmask s.request s.structured).2 } := by
  simp only [StructuredOutputManager.shouldFillBitmask, henv.reasoner_eq, henv.outside,
    Bool.false_eq_true, if_false]
  cases hended : s.structured.reasoningEnded with
  | some ended => exact h
  | none =>
    obtain ⟨houtput, hprompt⟩ := h.pending hended
    refine ⟨h.structured, fun hnone => by simp at hnone, fun ended he => ?_, h.seen⟩
    obtain rfl := Option.some.inj he
    simp [houtput, hprompt]

/-- A cut of drafts leaves grammar and flag as they are. -/
theorem Follows.validateDrafts (h : s.Follows reasoner history endTokenId endedInPrompt)
    (henv : Reasons env reasoner endTokenId)
    (hvalidate : ∀ g tokens, history (env.backend.validateTokens g tokens).2 = history g)
    (hsees : s.structured.reasoningEnded ≠ some true → ¬SeesMarker endTokenId s.request)
    (specTokenIds : List TokenId) :
    Follows reasoner history endTokenId endedInPrompt
      { s with structured := (s.validateDrafts env specTokenIds).2 } := by
  unfold StructuredRun.validateDrafts
  rw [henv.shouldAdvance h.structured]
  by_cases hended : s.structured.reasoningEnded = some true
  · rw [if_pos hended]
    exact ⟨h.structured, h.pending, h.decided, (hvalidate _ _).trans h.seen⟩
  · rw [if_neg hended, if_neg (hsees hended)]
    exact h

/-- An output that is delivered in phase. -/
theorem Follows.advanceGrammar (h : s.Follows reasoner history endTokenId endedInPrompt)
    (henv : Reasons env reasoner endTokenId) {result : Request H × List TokenId × Bool}
    (happends : Appends s.request result)
    (hphase : s.DeliversInPhase env history endTokenId result) :
    Follows reasoner history endTokenId endedInPrompt
      { request := result.1
        structured :=
          env.manager.advanceGrammar env.backend result.1 result.2.1 s.structured } := by
  have hstructured : result.1.useStructuredOutput = true :=
    happends.structured.trans h.structured
  unfold StructuredOutputManager.advanceGrammar
  by_cases hnew : result.2.1 = []
  · rw [if_pos hnew]
    exact h.frame (by rw [happends.output, hnew, List.append_nil]) happends.structured
      happends.prompt
  · obtain ⟨hmask, hreasoning, hanswer⟩ := hphase hnew
    obtain ⟨ended, hended⟩ := Option.ne_none_iff_exists'.mp hmask
    have hdecided := h.decided ended hended
    rw [if_neg hnew, henv.shouldAdvance hstructured]
    cases ended with
    | true =>
      -- the answer has begun: all tokens go to the grammar
      have hbegun := hdecided.mp rfl
      rw [if_pos hended]
      refine ⟨hstructured, fun hnone => absurd hnone hmask, fun e he => ?_, ?_⟩
      · obtain rfl : true = e := Option.some.inj (hended.symm.trans he)
        rw [happends.output, List.mem_append]
        exact ⟨fun _ => hbegun.imp_right Or.inl, fun _ => rfl⟩
      · rw [happends.output, answerTokens_append_of_ended hbegun, ← h.seen]
        exact hanswer hended
    | false =>
      have hgoes : ¬(endedInPrompt = true ∨ endTokenId ∈ s.request.outputTokenIds) :=
        fun hb => Bool.false_ne_true (hdecided.mpr hb)
      obtain ⟨hprompt, houtput⟩ := not_or.mp hgoes
      obtain rfl : endedInPrompt = false := by simpa using hprompt
      obtain ⟨hlast, hsees⟩ := hreasoning hended
      have hseen : history s.structured.grammar =
          answerTokens endTokenId false result.1.outputTokenIds := by
        have hbefore : answerTokens endTokenId false (s.request.outputTokenIds ++ []) = [] :=
          answerTokens_append_of_reasoning houtput List.not_mem_nil
        rw [List.append_nil] at hbefore
        rw [happends.output, answerTokens_append_of_reasoning houtput hlast, h.seen, hbefore]
      have hmem : endTokenId ∈ result.1.outputTokenIds ↔ endTokenId ∈ result.2.1 := by
        rw [happends.output, List.mem_append, or_iff_right houtput]
      rw [if_neg (by simp [hended])]
      by_cases hmarker : SeesMarker endTokenId result.1
      · rw [if_pos hmarker]
        refine ⟨hstructured, fun hnone => by simp at hnone, fun e he => ?_, hseen⟩
        obtain rfl : true = e := Option.some.inj he
        simpa [hmem] using hsees.mp hmarker
      · rw [if_neg hmarker]
        refine ⟨hstructured, fun hnone => absurd hnone hmask, fun e he => ?_, hseen⟩
        obtain rfl : false = e := Option.some.inj (hended.symm.trans he)
        simpa [hmem] using fun hm => hmarker (hsees.mpr hm)

/-- Every call in phase keeps the grammar with the answer. -/
theorem Follows.apply (h : s.Follows reasoner history endTokenId endedInPrompt)
    (henv : Reasons env reasoner endTokenId)
    (hvalidate : ∀ g tokens, history (env.backend.validateTokens g tokens).2 = history g)
    {call : StructuredCall} (hphase : s.InPhase env history endTokenId call)
    (hrun : s.apply env call = .ok s') :
    s'.Follows reasoner history endTokenId endedInPrompt := by
  cases call with
  | enter numComputedTokens =>
    obtain rfl := Except.ok.inj hrun
    exact h.frame rfl rfl rfl
  | schedule numScheduledTokens numSpecTokens =>
    obtain rfl := Except.ok.inj hrun
    have hframe : (scheduled env numScheduledTokens numSpecTokens s.request).outputTokenIds =
        s.request.outputTokenIds ∧
        (scheduled env numScheduledTokens numSpecTokens s.request).useStructuredOutput =
          s.request.useStructuredOutput ∧
        (scheduled env numScheduledTokens numSpecTokens s.request).promptTokenIds =
          s.request.promptTokenIds := by
      simp only [scheduled]
      split <;> exact ⟨rfl, rfl, rfl⟩
    exact h.frame hframe.1 hframe.2.1 hframe.2.2
  | getGrammarBitmask =>
    simp only [StructuredRun.apply] at hrun
    split at hrun
    · obtain rfl := Except.ok.inj hrun
      exact h.getGrammarBitmask henv
    · obtain rfl := Except.ok.inj hrun
      exact h
  | preempt =>
    obtain rfl := Except.ok.inj hrun
    exact h.frame rfl rfl rfl
  | forcePreempt =>
    obtain rfl := Except.ok.inj hrun
    exact h.frame rfl rfl rfl
  | updateDraftTokenIds specTokenIds =>
    have hset (tokens : List TokenId) {t : StructuredRun H G}
        (ht : t.Follows reasoner history endTokenId endedInPrompt) :
        Follows reasoner history endTokenId endedInPrompt
          { t with request := t.request.setDraftTokenIds tokens } := by
      unfold Request.setDraftTokenIds
      split
      · exact ht
      · split <;> exact ht.frame rfl rfl rfl
    simp only [StructuredRun.apply] at hrun
    split at hrun
    · obtain rfl := Except.ok.inj hrun
      exact hset specTokenIds h
    · rename_i hactive
      obtain rfl := Except.ok.inj hrun
      simp only [Bool.or_eq_true, not_or, Bool.not_eq_true] at hactive
      exact hset _ (h.validateDrafts henv hvalidate (hphase hactive.1 hactive.2) specTokenIds)
  | updateDraftTokenIdsInOutput specTokenIds =>
    simp only [StructuredRun.apply] at hrun
    split at hrun
    · obtain rfl := Except.ok.inj hrun
      exact h
    · rename_i hactive
      obtain rfl := Except.ok.inj hrun
      exact h.validateDrafts henv hvalidate (hphase (by simpa using hactive)) specTokenIds
  | updateFromOutput numDraftTokens generated =>
    simp only [StructuredRun.apply] at hrun
    split at hrun
    · obtain rfl := Except.ok.inj hrun
      exact h
    · rename_i hactive
      obtain ⟨_, -, hresult⟩ := bind_ok_iff.mp hrun
      obtain rfl := pure_ok_iff.mp hresult
      have hadvanced := h.advanceGrammar henv (appends_taken env s numDraftTokens generated)
        (hphase (by simpa using hactive))
      split
      · exact hadvanced.frame rfl rfl rfl
      · exact hadvanced

/-! ## Runs -/

/-- Along a run in phase the grammar of a new request has seen exactly the answer. -/
theorem seen_of_inPhase (henv : Reasons env reasoner endTokenId)
    (hvalidate : ∀ g tokens, history (env.backend.validateTokens g tokens).2 = history g)
    (hstructured : s.request.useStructuredOutput = true) (houtput : s.request.outputTokenIds = [])
    (hnew : history s.structured.grammar = []) {calls : List StructuredCall}
    (hphase : Along (apply env) (InPhase env history endTokenId) s calls)
    (hrun : run (apply env) s calls = .ok s') :
    history s'.structured.grammar = answerTokens endTokenId
      (s.structured.reasoningEnded.getD
        (reasoner.isReasoningEnd (s.request.promptTokenIds.getD [])))
      s'.request.outputTokenIds := by
  have hstart : s.Follows reasoner history endTokenId (s.structured.reasoningEnded.getD
      (reasoner.isReasoningEnd (s.request.promptTokenIds.getD []))) := by
    refine ⟨hstructured, fun hnone => ?_, fun ended hended => ?_, ?_⟩
    · simp [houtput, hnone]
    · simp [houtput, hended]
    · rw [hnew, houtput]
      simp [answerTokens]
  exact (run_invariant (fun _ _ _ h hc ha => h.apply henv hvalidate hc ha) hstart hphase
    hrun).seen

end StructuredRun

/-! ## A marker inside a step -/

/-- A matcher that takes every token. -/
def anyMatcher : TokenMatcher Unit where
  acceptToken _ _ := true
  isTerminated _ := false
  nextTokenBitmask _ := ()

/-- Synchronous scheduling with two drafts and a reasoner whose end marker is token 9. -/
def draftingEnv : StructuredEnv FreeDigest XgrammarGrammar Unit where
  hashEnv := freeEnv
  blockSize := 16
  maxModelLen := 100
  asyncScheduling := false
  numSpecTokens := 2
  manager := { reasoner := some (thinkingReasoner 8 9), enableInReasoning := false }
  backend := XgrammarGrammar.backend anyMatcher

/-- A structured request with a prompt of two tokens. -/
def reasoningRequest : StructuredRun FreeDigest XgrammarGrammar where
  request := Request.init freeEnv 16 {
    requestId := 1
    useStructuredOutput := true
    promptTokenIds := some [1, 2]
    maxTokens := 50 }
  structured := { grammar := {} }

/-- The prompt yields a token; then both drafts are accepted, the first being the marker. -/
def markerInside : List StructuredCall := [
  .enter 0, .schedule 2 0, .getGrammarBitmask, .updateFromOutput 0 [7],
  .updateDraftTokenIds [9, 5],
  .schedule 3 2, .getGrammarBitmask, .updateFromOutput 2 [9, 5, 6]]

/-- The grammar has seen nothing of the answer. -/
theorem markerInside_not_seen :
    ∃ s, run (StructuredRun.apply draftingEnv) reasoningRequest markerInside = .ok s ∧
      s.structured.grammar.matcher = [] ∧
      StructuredRun.answerTokens 9 false s.request.outputTokenIds = [5, 6] := by
  have heval : (do
      let s ← run (StructuredRun.apply draftingEnv) reasoningRequest markerInside
      pure (s.structured.grammar.matcher,
        StructuredRun.answerTokens 9 false s.request.outputTokenIds)) =
      .ok (([] : List TokenId), [5, 6]) := by decide
  simp only [bind_ok_iff, pure_ok_iff, Prod.mk.injEq] at heval
  exact heval

/-- The same with the marker last in its step, and two tokens of the answer after it. -/
def markerLast : List StructuredCall := [
  .enter 0, .schedule 2 0, .getGrammarBitmask, .updateFromOutput 0 [7],
  .updateDraftTokenIds [9, 5],
  .schedule 3 2, .getGrammarBitmask, .updateFromOutput 2 [9],
  .updateDraftTokenIds [5, 6],
  .schedule 3 2, .getGrammarBitmask, .updateFromOutput 2 [5, 6]]

/-- Here the grammar has seen the answer. -/
theorem markerLast_seen :
    ∃ s, run (StructuredRun.apply draftingEnv) reasoningRequest markerLast = .ok s ∧
      s.structured.grammar.matcher =
        StructuredRun.answerTokens 9 false s.request.outputTokenIds := by
  have heval : (do
      let s ← run (StructuredRun.apply draftingEnv) reasoningRequest markerLast
      ensure (Along (StructuredRun.apply draftingEnv)
        (StructuredRun.InPhase draftingEnv (·.matcher) 9) reasoningRequest markerLast) .indexError
      pure s.structured.grammar.matcher) = .ok [5, 6] := by decide
  simp only [bind_ok_iff, ensure_eq_ok, pure_ok_iff] at heval
  obtain ⟨s, hrun, _, hphase, -⟩ := heval
  have henv : StructuredRun.Reasons draftingEnv (thinkingReasoner 8 9) 9 :=
    ⟨rfl, rfl, fun _ _ => List.contains_iff_mem⟩
  exact ⟨s, hrun, StructuredRun.seen_of_inPhase henv
    (XgrammarGrammar.matcher_validateTokens anyMatcher) rfl rfl rfl hphase hrun⟩

end Vllm
