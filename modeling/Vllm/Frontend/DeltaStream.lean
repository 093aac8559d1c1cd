import Mathlib.Logic.Function.Basic
import Vllm.Frontend.OutputProcessor
import Vllm.Frontend.Detokenizer

/-!
# Streamed deltas

A request whose output kind is `DELTA` sends the tokens, the text and the logprobs that are new with
each output. The collector merges the outputs that the consumer has not taken yet. A request for
several completions is a parent with one child for each, and its children share the collector.
-/

namespace Vllm.Frontend

open Checked

/-- `IncrementalDetokenizer.from_new_request`: without a tokenizer there is no text. -/
def incrementalDetokenizer (tokenizer : Option Decoder) (params : StopParams) :
    Detokenizer IncrementalDetokenizer where
  fromNewRequest _ := {}
  update st newTokenIds stopTerminated :=
    match tokenizer with
    | none => ({ st with tokenIds := st.tokenIds ++ newTokenIds }, none)
    | some decodeNext =>
      let updated := st.update decodeNext params newTokenIds stopTerminated
      (updated.1, updated.2.map String.ofList)
  getNextOutputText st finished delta :=
    match tokenizer with
    | none => (st, "")
    | some _ =>
      let next := st.getNextOutputText params finished delta
      (next.1, String.ofList next.2)
  outputTokenIds st := st.tokenIds
  numOutputTokens st := st.tokenIds.length

/-- What a streamed request is served with. -/
structure DeltaConfig where
  tokenizer : Option Decoder
  stopParams : StopParams
  /-- `SamplingParams` refuses an empty stop string. -/
  stop_ne_nil : ∀ s ∈ stopParams.stop, s ≠ []
  streamInterval : Nat
  /-- Logprobs are requested. -/
  logprobs : Bool
  requestId : ReqId
  externalReqId : ExternalId
  prompt : Option String
  promptTokenIds : List TokenId
  /-- The number of completions. -/
  n : Nat

/-- The sampling parameters of the request. -/
def DeltaConfig.samplingParams (cfg : DeltaConfig) : SamplingParams := ⟨cfg.n, .delta⟩

/-- The settings of the output processor. -/
def DeltaConfig.processor (cfg : DeltaConfig) : ProcessorConfig IncrementalDetokenizer where
  detokenizer := incrementalDetokenizer cfg.tokenizer cfg.stopParams
  streamInterval := cfg.streamInterval

section

variable (L : Type)

/-- `CompletionOutput`, with the logprobs. -/
structure LoggedCompletion extends CompletionOutput where
  logprobs : Option (List L)
  deriving DecidableEq, Repr

/-- `RequestOutput`, whose completions have logprobs. -/
structure LoggedRequestOutput where
  requestId : ExternalId
  prompt : Option String
  promptTokenIds : List TokenId
  outputs : List (LoggedCompletion L)
  finished : Bool
  numCachedTokens : Nat
  deriving DecidableEq, Repr

/-- `RequestState`, with the list of its `LogprobsProcessor`. -/
structure DeltaRequest where
  state : RequestState IncrementalDetokenizer
  logprobs : Option (List L)

/-- A completion of the request: its state is made when it is added, and popped when it ends. -/
inductive Completion where
  | waiting
  | running (r : DeltaRequest L)
  | ended (r : DeltaRequest L)

/-- What the front end and the consumer hold. -/
structure DeltaStream where
  completions : Nat → Completion L
  /-- A request for one completion has none. -/
  parentReq : Option ParentRequest
  /-- `RequestOutputCollector.output`. -/
  collector : Option (LoggedRequestOutput L)
  /-- What the consumer has got. -/
  obtained : List (LoggedRequestOutput L)

/-- What happens to the request. -/
inductive DeltaEvent where
  /-- A completion is added. -/
  | add (index : Nat)
  /-- The engine returns tokens of a completion, with one logprob entry each. -/
  | output (index : Nat) (tokens : List (TokenId × L)) (finishReason : Option FinishReason)
    (stopReason : Option OutputStopReason) (numCachedTokens : Nat)
  | abort (index : Nat)
  /-- `get` or `get_nowait`. -/
  | get

end

variable {L : Type}

/-! ## Merging -/

/-- A later completion with the same index is appended to this one. -/
def LoggedCompletion.append (c next : LoggedCompletion L) :
    Except ProcessorError (LoggedCompletion L) :=
  match next.logprobs with
  | some (entry :: entries) =>
    match c.logprobs with
    | some logprobs =>
      .ok ⟨c.toCompletionOutput.extend next.toCompletionOutput,
        some (logprobs ++ entry :: entries)⟩
    | none => .error .assertionError
  | _ => .ok ⟨c.toCompletionOutput.extend next.toCompletionOutput, c.logprobs⟩

/-- Where a completion goes in `RequestOutput.add` when outputs are aggregated. -/
def mergeLogged : List (LoggedCompletion L) → LoggedCompletion L →
    Except ProcessorError (List (LoggedCompletion L))
  | [], next => .ok [next]
  | c :: rest, next =>
    if c.index = next.index then do
      let c ← c.append next
      pure (c :: rest)
    else do
      let rest ← mergeLogged rest next
      pure (c :: rest)

/-- `RequestOutput.add`. -/
def LoggedRequestOutput.add (o next : LoggedRequestOutput L) :
    Except ProcessorError (LoggedRequestOutput L) := do
  let outputs ← next.outputs.foldlM mergeLogged o.outputs
  pure { o with outputs, finished := o.finished || next.finished }

/-- `RequestOutputCollector.put`. -/
def putOutput (collector : Option (LoggedRequestOutput L)) (output : LoggedRequestOutput L) :
    Except ProcessorError (Option (LoggedRequestOutput L)) :=
  match collector with
  | none => .ok (some output)
  | some old => do
    let merged ← old.add output
    pure (some merged)

/-! ## The request -/

namespace DeltaRequest

/-- `from_new_request`. -/
def fromNewRequest (cfg : DeltaConfig) (requestId : ReqId) (parentReq : Option ReqId)
    (index : Nat) : DeltaRequest L where
  state := .fromNewRequest cfg.processor
    { requestId, externalReqId := cfg.externalReqId, promptTokenIds := cfg.promptTokenIds,
      samplingParams := some cfg.samplingParams }
    cfg.prompt parentReq index (some cfg.requestId)
  logprobs := if cfg.logprobs then some [] else none

variable (cfg : DeltaConfig) (r : DeltaRequest L)

/-- `logprobs[-n:]`, which is the whole list for 0. -/
def lastEntries (logprobs : List L) (n : Nat) : List L :=
  if n = 0 then logprobs else logprobs.drop (logprobs.length - n)

/-- `_new_completion_output`. -/
def newCompletionOutput (tokenIds : List TokenId) (finishReason : Option FinishReason)
    (stopReason : Option OutputStopReason) :
    Except ProcessorError (LoggedCompletion L × DeltaRequest L) := do
  let completion ← r.state.newCompletionOutput cfg.processor tokenIds finishReason stopReason
  let logprobs :=
    if r.state.outputKind = .delta then
      r.logprobs.map fun entries => lastEntries entries completion.1.tokenIds.length
    else r.logprobs
  pure (⟨completion.1, logprobs⟩, { r with state := completion.2 })

/-- `_new_request_output`. -/
def newRequestOutput (externalReqId : ExternalId) (outputs : List (LoggedCompletion L))
    (finished : Bool) : LoggedRequestOutput L where
  requestId := externalReqId
  prompt := r.state.prompt
  promptTokenIds := r.state.promptTokenIds
  outputs
  finished
  numCachedTokens := r.state.numCachedTokens

/-- The end of `make_request_output`. A parent hands on the completion of a child, or nothing. -/
def completionOutputs (parentReq : Option ParentRequest) (completion : LoggedCompletion L)
    (finished : Bool) :
    Except ProcessorError (Option (LoggedRequestOutput L) × Option ParentRequest) :=
  match parentReq with
  | none => .ok (some (r.newRequestOutput r.state.externalReqId [completion] finished), none)
  | some p => do
    let result ← p.getOutputs r.state.requestId completion.toCompletionOutput
    pure (if result.1.1 = [] then none
      else some (r.newRequestOutput result.2.externalReqId [completion] result.1.2), some result.2)

/-- `make_request_output`. -/
def makeRequestOutput (parentReq : Option ParentRequest) (newTokenIds : List TokenId)
    (finishReason : Option FinishReason) (stopReason : Option OutputStopReason) :
    Except ProcessorError
      (Option (LoggedRequestOutput L) × DeltaRequest L × Option ParentRequest) := do
  let sent ← r.state.streamed cfg.processor newTokenIds finishReason.isSome
  match sent.1 with
  | none => pure (none, { r with state := sent.2 }, parentReq)
  | some newTokenIds => do
    let r := { r with state := sent.2 }
    let made ← r.newCompletionOutput cfg newTokenIds finishReason stopReason
    let outputs ← made.2.completionOutputs parentReq made.1 finishReason.isSome
    pure (outputs.1, made.2, outputs.2)

/-- `LogprobsProcessor.update_from_output`. -/
def updateFromOutput (newLogprobs : Option (List L)) : Except ProcessorError (DeltaRequest L) :=
  match newLogprobs with
  | none => .ok r
  | some entries =>
    match r.logprobs with
    | none => .error .assertionError
    | some logprobs => .ok { r with logprobs := some (logprobs ++ entries) }

end DeltaRequest

/-! ## The stream -/

namespace DeltaStream

variable (cfg : DeltaConfig) (s : DeltaStream L)

/-- Before the first completion is added. -/
def init : DeltaStream L where
  completions _ := .waiting
  parentReq :=
    if cfg.n = 1 then none
    else some (ParentRequest.new cfg.requestId cfg.externalReqId cfg.samplingParams)
  collector := none
  obtained := []

/-- `add_request` for a completion. -/
def add (index : Nat) : DeltaStream L :=
  match s.completions index with
  | .waiting =>
    match s.parentReq with
    | none => { s with
        completions := Function.update s.completions index
          (.running (.fromNewRequest cfg cfg.requestId none index)) }
    | some p =>
      let child := p.getChildInfo index
      { s with
        completions := Function.update s.completions index
          (.running (.fromNewRequest cfg child.1 (some p.requestId) index))
        parentReq := some child.2 }
  | _ => s

/-- An output is made and put into the collector; a completion that is finished ends. -/
def emit (index : Nat) (r : DeltaRequest L) (newTokenIds : List TokenId)
    (finishReason : Option FinishReason) (stopReason : Option OutputStopReason) :
    Except ProcessorError (DeltaStream L) := do
  let made ← r.makeRequestOutput cfg s.parentReq newTokenIds finishReason stopReason
  let collector ← match made.1 with
    | none => pure s.collector
    | some output => putOutput s.collector output
  pure { s with
    completions := Function.update s.completions index
      (if finishReason.isSome then .ended made.2.1 else .running made.2.1)
    parentReq := made.2.2
    collector }

/-- `process_outputs` for one output of the engine. -/
def processOutput (index : Nat) (tokens : List (TokenId × L)) (finishReason : Option FinishReason)
    (stopReason : Option OutputStopReason) (numCachedTokens : Nat) :
    Except ProcessorError (DeltaStream L) :=
  match s.completions index with
  | .running r => do
    let newTokenIds := tokens.map Prod.fst
    let state := { r.state with numCachedTokens }
    let checked ← state.detokenize cfg.processor
      { requestId := state.requestId, newTokenIds, finishReason, stopReason }
    let r ← { r with state := checked.state }.updateFromOutput
      (if cfg.logprobs then some (tokens.map Prod.snd) else none)
    s.emit cfg index r newTokenIds checked.finishReason checked.stopReason
  -- The output of a request that is not there any more is ignored.
  | _ => .ok s

/-- `abort_requests` for a completion. -/
def abort (index : Nat) : Except ProcessorError (DeltaStream L) :=
  match s.completions index with
  | .running r => s.emit cfg index r [] (some .abort) none
  | _ => .ok s

/-- The consumer takes what the collector has. -/
def get : DeltaStream L :=
  { s with collector := none, obtained := s.obtained ++ s.collector.toList }

/-- One event. -/
def step : DeltaEvent L → Except ProcessorError (DeltaStream L)
  | .add index => .ok (s.add cfg index)
  | .output index tokens finishReason stopReason numCachedTokens =>
    s.processOutput cfg index tokens finishReason stopReason numCachedTokens
  | .abort index => s.abort cfg index
  | .get => .ok s.get

/-- The events of a request in turn. -/
def run (events : List (DeltaEvent L)) : Except ProcessorError (DeltaStream L) :=
  events.foldlM (step cfg) (init cfg)

end DeltaStream

end Vllm.Frontend
