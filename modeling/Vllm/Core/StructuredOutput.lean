import Vllm.Core.SchedulerUpdate

/-!
# Structured output

The grammar of a request, the reasoner that tells where its answer begins, and the two
decisions of the manager: whether a mask constrains the request, and whether the tokens of
a step advance its grammar. Two of the grammar backends are given over the matcher or the
guide that they wrap.
-/

namespace Vllm

/-! ## Grammars -/

/-- `StructuredOutputGrammar` on states `G`, with rows of a bitmask of type `Row`. -/
structure GrammarBackend (G Row : Type) where
  acceptTokens : G → List TokenId → Bool × G
  validateTokens : G → List TokenId → List TokenId × G
  rollback : G → Nat → G
  /-- The row that `fill_bitmask` writes. -/
  fillBitmask : G → Row
  isTerminated : G → Bool × G

/-- The compiled grammar behind a backend, as functions of the tokens taken so far. -/
structure TokenMatcher (Row : Type) where
  acceptToken : List TokenId → TokenId → Bool
  isTerminated : List TokenId → Bool
  nextTokenBitmask : List TokenId → Row

/-- `XgrammarGrammar`; the state of the matcher is the list of tokens it has taken. -/
structure XgrammarGrammar where
  matcher : List TokenId := []
  numProcessedTokens : Int := 0
  terminated : Bool := false
  deriving DecidableEq, Repr

namespace XgrammarGrammar

variable {Row : Type} (m : TokenMatcher Row)

/-- The loop of `accept_tokens`. -/
def acceptLoop : List TokenId → XgrammarGrammar → Bool × XgrammarGrammar
  | [], g => (true, { g with terminated := m.isTerminated g.matcher })
  | token :: tokens, g =>
    if m.acceptToken g.matcher token then
      acceptLoop tokens { g with
        matcher := g.matcher ++ [token]
        numProcessedTokens := g.numProcessedTokens + 1 }
    else (false, g)

/-- The loop of `validate_tokens`: the accepted tokens, and the matcher behind them. -/
def validateLoop : List TokenId → List TokenId → List TokenId × List TokenId
  | [], matcher => ([], matcher)
  | token :: tokens, matcher =>
    if m.acceptToken matcher token then
      let (accepted, matcher) := validateLoop tokens (matcher ++ [token])
      (token :: accepted, matcher)
    else ([], matcher)

/-- The matcher without its last tokens. -/
def rollbackMatcher (matcher : List TokenId) (numTokens : Nat) : List TokenId :=
  matcher.take (matcher.length - numTokens)

/-- The backend of `backend_xgrammar`. -/
def backend : GrammarBackend XgrammarGrammar Row where
  acceptTokens g tokens := if g.terminated then (false, g) else acceptLoop m tokens g
  validateTokens g tokens :=
    let (accepted, matcher) := validateLoop m tokens g.matcher
    (accepted, { g with
      matcher :=
        if 0 < accepted.length then rollbackMatcher matcher accepted.length else matcher })
  rollback g numTokens :=
    { matcher := rollbackMatcher g.matcher numTokens
      numProcessedTokens := g.numProcessedTokens - numTokens
      terminated := m.isTerminated (rollbackMatcher g.matcher numTokens) }
  fillBitmask g := m.nextTokenBitmask g.matcher
  isTerminated g := (g.terminated, g)

/-- Validating moves the matcher by the accepted tokens. -/
private theorem validateLoop_snd (tokens matcher : List TokenId) :
    (validateLoop m tokens matcher).2 = matcher ++ (validateLoop m tokens matcher).1 := by
  induction tokens generalizing matcher with
  | nil => exact (List.append_nil _).symm
  | cons token tokens ih =>
    unfold validateLoop
    split
    · simp [ih (matcher ++ [token])]
    · exact (List.append_nil _).symm

/-- A matcher is rolled back over what it took. -/
theorem rollbackMatcher_append (matcher tokens : List TokenId) :
    rollbackMatcher (matcher ++ tokens) tokens.length = matcher := by
  simp [rollbackMatcher]

/-- Validating drafts does not advance the grammar. -/
theorem matcher_validateTokens (g : XgrammarGrammar) (tokens : List TokenId) :
    ((backend m).validateTokens g tokens).2.matcher = g.matcher := by
  simp only [backend, validateLoop_snd]
  split
  · exact rollbackMatcher_append _ _
  · rename_i hnone
    have hnil : (validateLoop m tokens g.matcher).1 = [] := by simpa using hnone
    rw [hnil, List.append_nil]

end XgrammarGrammar

/-- The automaton behind a grammar of outlines, as functions of the tokens taken so far. -/
structure Guide (Row : Type) where
  acceptsTokens : List TokenId → List TokenId → Bool
  isFinished : List TokenId → Bool
  mask : List TokenId → Row

/-- `OutlinesGrammar`; the state of the guide is the list of tokens it has taken. -/
structure OutlinesGrammar where
  guide : List TokenId := []
  numProcessedTokens : Int := 0
  prevFinished : Bool := false
  deriving DecidableEq, Repr

namespace OutlinesGrammar

variable {Row : Type} (guide : Guide Row)

/-- The loop of `validate_tokens`. -/
def validateLoop (taken : List TokenId) : List TokenId → List TokenId → List TokenId
  | accepted, [] => accepted
  | accepted, token :: tokens =>
    if guide.acceptsTokens taken (accepted ++ [token]) then
      validateLoop taken (accepted ++ [token]) tokens
    else accepted

/-- The backend of `backend_outlines`: the end is reported one question late. -/
def backend : GrammarBackend OutlinesGrammar Row where
  acceptTokens g tokens :=
    if guide.acceptsTokens g.guide tokens then
      (true, { g with
        guide := g.guide ++ tokens
        numProcessedTokens := g.numProcessedTokens + tokens.length })
    else (false, g)
  validateTokens g tokens := (validateLoop guide g.guide [] tokens, g)
  rollback g numTokens :=
    { g with
      guide := g.guide.take (g.guide.length - numTokens)
      numProcessedTokens := g.numProcessedTokens - numTokens }
  fillBitmask g := guide.mask g.guide
  isTerminated g := (g.prevFinished, { g with prevFinished := guide.isFinished g.guide })

end OutlinesGrammar

/-! ## Reasoners -/

/-- What the manager asks a reasoning parser. -/
structure Reasoner where
  isReasoningEnd : List TokenId → Bool
  isReasoningEndStreaming : List TokenId → List TokenId → Bool

/-- The scan of `BaseThinkingReasoningParser.is_reasoning_end`, from the last token on. -/
def lastMarkerEnds (startTokenId endTokenId : TokenId) : List TokenId → Bool
  | [] => false
  | token :: rest =>
    if token = startTokenId then false
    else if token = endTokenId then true
    else lastMarkerEnds startTokenId endTokenId rest

/-- `BaseThinkingReasoningParser`. -/
def thinkingReasoner (startTokenId endTokenId : TokenId) : Reasoner where
  isReasoningEnd inputIds := lastMarkerEnds startTokenId endTokenId inputIds.reverse
  isReasoningEndStreaming _ deltaIds := deltaIds.contains endTokenId

/-! ## The manager -/

/-- `StructuredOutputRequest`, once its grammar is compiled. -/
structure StructuredOutputRequest (G : Type) where
  grammar : G
  reasoningEnded : Option Bool := none
  deriving DecidableEq, Repr

/-- The settings of `StructuredOutputManager` that its decisions read. -/
structure StructuredOutputManager where
  reasoner : Option Reasoner
  enableInReasoning : Bool

namespace StructuredOutputManager

variable {H G : Type} (manager : StructuredOutputManager)

/-- `should_fill_bitmask`, which looks for the end of the reasoning in the prompt first. -/
def shouldFillBitmask (request : Request H) (structured : StructuredOutputRequest G) :
    Bool × StructuredOutputRequest G :=
  match manager.reasoner with
  | none => (true, structured)
  | some reasoner =>
    if manager.enableInReasoning then (true, structured)
    else
      match structured.reasoningEnded with
      | some ended => (ended, structured)
      | none =>
        let ended := reasoner.isReasoningEnd (request.promptTokenIds.getD [])
        (ended, { structured with reasoningEnded := some ended })

/-- Where `should_advance` takes the tokens of the step to begin. -/
def deltaStart (request : Request H) : Nat :=
  let deltaFrom := request.numComputedTokens - request.numOutputPlaceholders
  if 0 ≤ deltaFrom then deltaFrom.toNat
  else (max (request.allTokenIds.length + deltaFrom) 0).toNat

/-- `should_advance`. -/
def shouldAdvance (request : Request H) (structured : StructuredOutputRequest G) :
    Bool × StructuredOutputRequest G :=
  if !request.useStructuredOutput then (false, structured)
  else
    match manager.reasoner with
    | none => (true, structured)
    | some reasoner =>
      if manager.enableInReasoning then (true, structured)
      else if structured.reasoningEnded = some true then (true, structured)
      else if reasoner.isReasoningEndStreaming request.allTokenIds
          (request.allTokenIds.drop (deltaStart request)) then
        -- reasoning just ended, the grammar advances from the next pass on
        (false, { structured with reasoningEnded := some true })
      else (false, structured)

/-- The advance of the grammar in `update_from_output`; a rejection is only logged. -/
def advanceGrammar {Row : Type} (backend : GrammarBackend G Row) (request : Request H)
    (newTokenIds : List TokenId) (structured : StructuredOutputRequest G) :
    StructuredOutputRequest G :=
  if newTokenIds = [] then structured
  else
    match manager.shouldAdvance request structured with
    | (true, structured) =>
      { structured with grammar := (backend.acceptTokens structured.grammar newTokenIds).2 }
    | (false, structured) => structured

end StructuredOutputManager

end Vllm
