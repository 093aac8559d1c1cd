import Vllm.Core.RequestStep
import Vllm.Library.GroupIndex
import Vllm.Library.Checked

/-!
# The output processor

The front end keeps a state for each request that it has handed to the engine, turns what the
engine returns into outputs for the client, and frees the requests that are finished or aborted.
A request for several completions is fanned out into children with a common parent. Objects that
several parts share, the parents and the collectors, are looked up by their ids.
-/

namespace Vllm.Frontend

open Checked

/-- The id that a client gives to its request. -/
abbrev ExternalId := Nat

/-- The internal id of a request; a child has that of its parent behind its index. -/
inductive ReqId where
  | request (name : Nat)
  | child (index : Nat) (requestId : ReqId)
  deriving DecidableEq, Repr

/-- `RequestOutputKind`. -/
inductive RequestOutputKind where
  | cumulative
  | delta
  | finalOnly
  deriving DecidableEq, Repr

/-- Exceptions of the output processor. -/
inductive ProcessorError where
  /-- `list.remove` of an id that is not listed. -/
  | valueError
  /-- A state that is popped is not there. -/
  | keyError
  | assertionError
  | indexError
  /-- The index of a completion that is `None`. -/
  | attributeError
  | recursionError
  deriving DecidableEq, Repr

/-- Why a completion ended, next to its finish reason. -/
inductive OutputStopReason where
  | engine (reason : StopReason)
  | string (stop : String)
  deriving DecidableEq, Repr

/-! ## Outputs -/

/-- `CompletionOutput`. -/
structure CompletionOutput where
  index : Nat
  text : String
  tokenIds : List TokenId
  finishReason : Option FinishReason
  stopReason : Option OutputStopReason
  deriving DecidableEq, Repr

/-- `CompletionOutput.finished`. -/
def CompletionOutput.finished (c : CompletionOutput) : Bool := c.finishReason.isSome

/-- The outputs of a request: completions, some of which may be `None`, or pooled data. -/
inductive Outputs where
  | completions (outputs : List (Option CompletionOutput))
  | pooling (data : Nat)
  deriving DecidableEq, Repr

/-- `RequestOutput` and `PoolingRequestOutput`. -/
structure RequestOutput where
  /-- `STREAM_FINISHED` has none. -/
  requestId : Option ExternalId
  prompt : Option String
  promptTokenIds : List TokenId
  outputs : Outputs
  finished : Bool
  numCachedTokens : Nat
  deriving DecidableEq, Repr

/-- `STREAM_FINISHED`. -/
def streamFinished : RequestOutput := ⟨none, none, [], .completions [], true, 0⟩

/-- A later completion with the same index is appended to this one. -/
def CompletionOutput.extend (c next : CompletionOutput) : CompletionOutput where
  index := c.index
  text := c.text ++ next.text
  tokenIds := c.tokenIds ++ next.tokenIds
  finishReason := next.finishReason
  stopReason := next.stopReason

/-- Where a completion goes in `RequestOutput.add`: to the first one with its index, or behind
the others. -/
def mergeCompletion (aggregate : Bool) :
    List (Option CompletionOutput) → Option CompletionOutput →
      Except ProcessorError (List (Option CompletionOutput))
  | [], next => .ok [next]
  | some c :: rest, some next =>
    if c.index = next.index then .ok (some (if aggregate then c.extend next else next) :: rest)
    else do
      let rest ← mergeCompletion aggregate rest (some next)
      pure (some c :: rest)
  | _ :: _, _ => .error .attributeError

/-- `RequestOutput.add`. -/
def RequestOutput.add (o next : RequestOutput) (aggregate : Bool) :
    Except ProcessorError RequestOutput :=
  match o.outputs, next.outputs with
  | .completions outputs, .completions nextOutputs => do
    let outputs ← nextOutputs.foldlM (mergeCompletion aggregate) outputs
    pure { o with outputs := .completions outputs, finished := o.finished || next.finished }
  | _, _ => .ok o

/-- `RequestOutputCollector`. -/
structure RequestOutputCollector where
  aggregate : Bool
  output : Option RequestOutput := none
  deriving DecidableEq, Repr

/-- `RequestOutputCollector.put`. -/
def RequestOutputCollector.put (q : RequestOutputCollector) (output : RequestOutput) :
    Except ProcessorError RequestOutputCollector :=
  match q.output with
  | none => .ok { q with output := some output }
  | some old =>
    match old.outputs, output.outputs with
    | .completions _, .completions _ => do
      let merged ← old.add output q.aggregate
      pure { q with output := some merged }
    | .pooling _, .pooling _ => .ok { q with output := some output }
    | _, _ => .ok q

/-! ## Requests -/

/-- `SamplingParams`, as far as the front end reads them. -/
structure SamplingParams where
  n : Nat
  outputKind : RequestOutputKind
  deriving DecidableEq, Repr

/-- `EngineCoreRequest`. -/
structure EngineCoreRequest where
  requestId : ReqId
  externalReqId : ExternalId
  promptTokenIds : List TokenId
  /-- Pooling requests have none. -/
  samplingParams : Option SamplingParams
  poolingOutputKind : RequestOutputKind := .finalOnly
  resumable : Bool := false
  deriving DecidableEq, Repr

/-- `EngineCoreOutput`. -/
structure EngineCoreOutput where
  requestId : ReqId
  newTokenIds : List TokenId
  poolingOutput : Option Nat := none
  finishReason : Option FinishReason := none
  stopReason : Option OutputStopReason := none
  numCachedTokens : Nat := 0
  deriving DecidableEq, Repr

/-- `IncrementalDetokenizer`, whose states are some type. `update` takes the new tokens and
whether the engine stopped the request, and returns a stop string that was found. -/
structure Detokenizer (X : Type) where
  fromNewRequest : EngineCoreRequest → X
  update : X → List TokenId → Bool → X × Option String
  getNextOutputText : X → Bool → Bool → X × String
  outputTokenIds : X → List TokenId
  numOutputTokens : X → Nat

/-- `IncrementalDetokenizer` itself, which serves where there is no tokenizer. -/
def plainDetokenizer : Detokenizer (List TokenId) where
  fromNewRequest _ := []
  update tokenIds newTokenIds _ := (tokenIds ++ newTokenIds, none)
  getNextOutputText tokenIds _ _ := (tokenIds, "")
  outputTokenIds tokenIds := tokenIds
  numOutputTokens tokenIds := tokenIds.length

/-- `ParentRequest`. -/
structure ParentRequest where
  requestId : ReqId
  externalReqId : ExternalId
  samplingParams : SamplingParams
  childRequests : List ReqId
  outputAggregator : List (Option CompletionOutput)
  deriving DecidableEq, Repr

namespace ParentRequest

/-- A new parent. -/
def new (requestId : ReqId) (externalReqId : ExternalId) (params : SamplingParams) :
    ParentRequest where
  requestId
  externalReqId
  samplingParams := params
  childRequests := []
  outputAggregator := if params.outputKind = .finalOnly then List.replicate params.n none else []

variable (p : ParentRequest)

/-- `get_child_info`: the id of a child, which is outstanding from now on. -/
def getChildInfo (index : Nat) : ReqId × ParentRequest :=
  let childReqId := .child index p.requestId
  (childReqId, { p with
    childRequests :=
      if childReqId ∈ p.childRequests then p.childRequests else p.childRequests ++ [childReqId] })

/-- `get_outputs`: what goes to the client with the output of a child, and whether it is the
last. -/
def getOutputs (childRequestId : ReqId) (output : CompletionOutput) :
    Except ProcessorError ((List (Option CompletionOutput) × Bool) × ParentRequest) :=
  let alreadyFinishedAndReturned := output.finished && decide (childRequestId ∉ p.childRequests)
  let childRequests :=
    if output.finished then p.childRequests.filter (· ≠ childRequestId) else p.childRequests
  let finished := decide (childRequests = [])
  if p.samplingParams.outputKind = .finalOnly then do
    ensure (output.index < p.outputAggregator.length) .indexError
    let outputAggregator := p.outputAggregator.set output.index (some output)
    pure ((if finished then outputAggregator else [], finished),
      { p with childRequests, outputAggregator })
  else .ok ((if alreadyFinishedAndReturned then [] else [some output], finished),
    { p with childRequests })

end ParentRequest

/-- `StreamingUpdate`. -/
structure StreamingUpdate where
  prompt : Option String
  promptTokenIds : List TokenId
  final : Bool := false
  deriving DecidableEq, Repr

/-- `RequestState`. -/
structure RequestState (X : Type) where
  requestId : ReqId
  externalReqId : ExternalId
  /-- The id of the parent. -/
  parentReq : Option ReqId
  requestIndex : Nat
  outputKind : RequestOutputKind
  prompt : Option String
  promptTokenIds : List TokenId
  /-- Pooling requests have none. -/
  detokenizer : Option X
  /-- The id of the collector; the synchronous engine has none. -/
  queue : Option ReqId
  numCachedTokens : Nat := 0
  sentTokensOffset : Nat := 0
  streamingInput : Bool
  inputChunkQueue : Option (List StreamingUpdate)
  deriving DecidableEq, Repr

/-- What `make_request_output` returns, with what it changes. -/
structure MadeOutput (X : Type) where
  output : Option RequestOutput
  state : RequestState X
  parents : ReqId → ParentRequest

/-- A state behind the stop checks, and why the request has finished, if it has. -/
structure CheckedState (X : Type) where
  state : RequestState X
  finishReason : Option FinishReason
  stopReason : Option OutputStopReason

/-- The settings of an output processor. -/
structure ProcessorConfig (X : Type) where
  detokenizer : Detokenizer X
  streamInterval : Nat

namespace RequestState

variable {X : Type} (cfg : ProcessorConfig X) (st : RequestState X)

/-- `from_new_request`. -/
def fromNewRequest (request : EngineCoreRequest) (prompt : Option String)
    (parentReq : Option ReqId) (requestIndex : Nat) (queue : Option ReqId) : RequestState X where
  requestId := request.requestId
  externalReqId := request.externalReqId
  parentReq
  requestIndex
  outputKind := match request.samplingParams with
    | some params => params.outputKind
    | none => request.poolingOutputKind
  prompt
  promptTokenIds := request.promptTokenIds
  detokenizer := request.samplingParams.map fun _ => cfg.detokenizer.fromNewRequest request
  queue
  streamingInput := request.resumable
  inputChunkQueue := if request.resumable then some [] else none

/-- The prompt of a streaming input grows. -/
def appendPrompt (prompt update : Option String) : Option String :=
  match prompt, update with
  | some prompt, some update => some (prompt ++ update)
  | none, update => update
  | prompt, none => prompt

/-- `apply_streaming_update`. -/
def applyStreamingUpdate (update : StreamingUpdate) : RequestState X :=
  { st with
    streamingInput := !update.final
    prompt := appendPrompt st.prompt update.prompt
    promptTokenIds := st.promptTokenIds ++ update.promptTokenIds }

/-- The stream interval: whether an output is sent now, and the tokens that go with it. -/
def streamed (newTokenIds : List TokenId) (finished : Bool) :
    Except ProcessorError (Option (List TokenId) × RequestState X) :=
  if cfg.streamInterval ≤ 1 then .ok (some newTokenIds, st)
  else
    match st.detokenizer with
    | none => .error .assertionError
    | some x =>
      let numOutputTokens := cfg.detokenizer.numOutputTokens x
      if finished = true ∨ st.sentTokensOffset = 0 ∨
          st.sentTokensOffset + cfg.streamInterval ≤ numOutputTokens then
        if st.outputKind = .delta then
          .ok (some ((cfg.detokenizer.outputTokenIds x).drop st.sentTokensOffset),
            { st with sentTokensOffset := numOutputTokens })
        else .ok (some newTokenIds, st)
      else .ok (none, st)

/-- `_new_completion_output`. -/
def newCompletionOutput (tokenIds : List TokenId) (finishReason : Option FinishReason)
    (stopReason : Option OutputStopReason) :
    Except ProcessorError (CompletionOutput × RequestState X) :=
  match st.detokenizer with
  | none => .error .assertionError
  | some x =>
    let finished := finishReason.isSome
    let delta := decide (st.outputKind = .delta)
    let next := cfg.detokenizer.getNextOutputText x finished delta
    .ok ({
      index := st.requestIndex
      text := next.2
      tokenIds := if delta then tokenIds else cfg.detokenizer.outputTokenIds next.1
      finishReason
      stopReason := if finished then stopReason else none },
      { st with detokenizer := some next.1 })

/-- `_new_request_output`. -/
def newRequestOutput (externalReqId : ExternalId) (outputs : Outputs) (finished : Bool) :
    RequestOutput where
  requestId := some externalReqId
  prompt := st.prompt
  promptTokenIds := st.promptTokenIds
  outputs
  finished
  numCachedTokens := st.numCachedTokens

/-- The end of `make_request_output`: a child hands its completion to its parent. -/
def completionOutputs (parents : ReqId → ParentRequest) (output : CompletionOutput)
    (finished : Bool) : Except ProcessorError (Option RequestOutput × (ReqId → ParentRequest)) :=
  match st.parentReq with
  | none => .ok (some (st.newRequestOutput st.externalReqId (.completions [some output]) finished),
    parents)
  | some p => do
    let result ← (parents p).getOutputs st.requestId output
    pure (if result.1.1 = [] then none
      else some (st.newRequestOutput result.2.externalReqId (.completions result.1.1) result.1.2),
      Function.update parents p result.2)

/-- `make_request_output`: the output, if one is made, with the state and the parents. -/
def makeRequestOutput (parents : ReqId → ParentRequest) (newTokenIds : List TokenId)
    (poolingOutput : Option Nat) (finishReason : Option FinishReason)
    (stopReason : Option OutputStopReason) : Except ProcessorError (MadeOutput X) :=
  let finished := finishReason.isSome
  if finished = false ∧ st.outputKind = .finalOnly then .ok ⟨none, st, parents⟩
  else do
    let sent ← st.streamed cfg newTokenIds finished
    match sent.1 with
    | none => pure ⟨none, sent.2, parents⟩
    | some newTokenIds =>
      match poolingOutput with
      | some data =>
        pure ⟨some (sent.2.newRequestOutput st.externalReqId (.pooling data) finished), sent.2,
          parents⟩
      | none => do
        let completion ← sent.2.newCompletionOutput cfg newTokenIds finishReason stopReason
        let made ← completion.2.completionOutputs parents completion.1 finished
        pure ⟨made.1, completion.2, made.2⟩

/-- The stop checks of `process_outputs`. -/
def detokenize (output : EngineCoreOutput) : Except ProcessorError (CheckedState X) :=
  match output.poolingOutput with
  | some _ => .ok ⟨st, output.finishReason, output.stopReason⟩
  | none =>
    match st.detokenizer with
    | none => .error .assertionError
    | some x =>
      let updated := cfg.detokenizer.update x output.newTokenIds
        (decide (output.finishReason = some .stop))
      let st := { st with detokenizer := some updated.1 }
      match updated.2 with
      | some stop => .ok ⟨st, some .stop, some (.string stop)⟩
      | none => .ok ⟨st, output.finishReason, output.stopReason⟩

end RequestState

/-! ## The processor -/

/-- `OutputProcessor`, with the parents and the collectors that exist. -/
structure OutputProcessor (X : Type) where
  requestStates : Dict ReqId (RequestState X)
  /-- The ids of the parents. -/
  parentRequests : List ReqId
  externalReqIds : Dict ExternalId (List ReqId)
  parents : ReqId → ParentRequest
  collectors : ReqId → RequestOutputCollector

namespace OutputProcessor

variable {X : Type} (cfg : ProcessorConfig X) (s : OutputProcessor X)

/-- Before the first request. -/
def init : OutputProcessor X where
  requestStates := .empty
  parentRequests := []
  externalReqIds := .empty
  parents := fun id => .new id 0 ⟨0, .cumulative⟩
  collectors := fun _ => { aggregate := false }

/-- An output is put into a collector. -/
def put (queue : ReqId) (output : RequestOutput) : Except ProcessorError (OutputProcessor X) := do
  let collector ← (s.collectors queue).put output
  pure { s with collectors := Function.update s.collectors queue collector }

/-- An id is removed from the list of its external id. -/
def unlist (externalReqId : ExternalId) (requestId : ReqId) :
    Except ProcessorError (OutputProcessor X) := do
  ensure (requestId ∈ GroupIndex.members s.externalReqIds externalReqId) .valueError
  pure { s with externalReqIds := GroupIndex.remove s.externalReqIds externalReqId requestId }

/-- `_finish_request`. -/
def finishRequest (st : RequestState X) : Except ProcessorError (OutputProcessor X) := do
  ensure ((s.requestStates.get? st.requestId).isSome) .keyError
  let s ← unlist { s with requestStates := s.requestStates.erase st.requestId }
    st.externalReqId st.requestId
  pure (match st.parentReq with
    | some p =>
      if (s.parents p).childRequests = [] then
        { s with parentRequests := s.parentRequests.filter (· ≠ p) }
      else s
    | none => s)

/-! ### Adding requests -/

/-- The last update of a streaming input is the final one. -/
def markFinal : List StreamingUpdate → List StreamingUpdate
  | [] => []
  | [update] => [{ update with final := true }]
  | update :: updates => update :: markFinal updates

/-- `_update_streaming_request_state`. -/
def updateStreamingRequestState (st : RequestState X) (request : EngineCoreRequest)
    (prompt : Option String) : Except ProcessorError (OutputProcessor X) :=
  let write (st : RequestState X) : OutputProcessor X :=
    { s with requestStates := s.requestStates.insert st.requestId st }
  if request.resumable = false then
    match st.inputChunkQueue with
    | none => do
      let s ← s.finishRequest st
      match st.queue with
      | some queue => s.put queue streamFinished
      | none => pure s
    | some [] => .ok (write { st with streamingInput := false })
    | some updates => .ok (write { st with inputChunkQueue := some (markFinal updates) })
  else
    let update : StreamingUpdate := { prompt, promptTokenIds := request.promptTokenIds }
    match st.inputChunkQueue with
    | none => .ok (write { st.applyStreamingUpdate update with inputChunkQueue := some [] })
    | some updates => .ok (write { st with inputChunkQueue := some (updates ++ [update]) })

/-- `add_request`. -/
def addRequest (request : EngineCoreRequest) (prompt : Option String) (parentReq : Option ReqId)
    (requestIndex : Nat) (queue : Option ReqId) : Except ProcessorError (OutputProcessor X) :=
  match s.requestStates.get? request.requestId with
  | some st => s.updateStreamingRequestState st request prompt
  | none => .ok { s with
    requestStates := s.requestStates.insert request.requestId
      (.fromNewRequest cfg request prompt parentReq requestIndex queue)
    parentRequests := match parentReq with
      | some p => if p ∈ s.parentRequests then s.parentRequests else s.parentRequests ++ [p]
      | none => s.parentRequests
    externalReqIds :=
      GroupIndex.append s.externalReqIds request.externalReqId request.requestId }

/-! ### Processing outputs -/

/-- An output goes to the collector of its request, or is returned. -/
def deliver (st : RequestState X) :
    Option RequestOutput → Except ProcessorError (OutputProcessor X × List RequestOutput)
  | none => .ok (s, [])
  | some output =>
    let output := { output with finished := output.finished && !st.streamingInput }
    match st.queue with
    | some queue => do
      let s ← s.put queue output
      pure (s, [])
    | none => .ok (s, [output])

/-- `OutputProcessorOutput`. -/
structure ProcessedOutputs where
  requestOutputs : List RequestOutput := []
  reqsToAbort : List ReqId := []
  deriving DecidableEq, Repr

/-- A finished request of a streaming input goes on with its next update, or waits for one. -/
def resume (st : RequestState X) : RequestState X :=
  match st.inputChunkQueue with
  | some (update :: rest) => { st with inputChunkQueue := some rest }.applyStreamingUpdate update
  | some [] | none => { st with inputChunkQueue := none }

/-- The body of the loop of `process_outputs`. -/
def processOutput (output : EngineCoreOutput) :
    Except ProcessorError (OutputProcessor X × ProcessedOutputs) :=
  match s.requestStates.get? output.requestId with
  | none => .ok (s, {})
  | some st => do
    let checked ← { st with numCachedTokens := output.numCachedTokens }.detokenize cfg output
    let made ← checked.state.makeRequestOutput cfg s.parents output.newTokenIds
      output.poolingOutput checked.finishReason checked.stopReason
    let delivered ← { s with
      requestStates := s.requestStates.insert output.requestId made.state
      parents := made.parents }.deliver made.state made.output
    if checked.finishReason = none then pure (delivered.1, { requestOutputs := delivered.2 })
    else if made.state.streamingInput then
      pure ({ delivered.1 with
        requestStates := delivered.1.requestStates.insert output.requestId (resume made.state) },
        { requestOutputs := delivered.2 })
    else do
      let s ← delivered.1.finishRequest made.state
      pure (s, {
        requestOutputs := delivered.2
        reqsToAbort := if output.finishReason = none then [output.requestId] else [] })

/-- `process_outputs`. -/
def processOutputs : OutputProcessor X → List EngineCoreOutput →
    Except ProcessorError (OutputProcessor X × ProcessedOutputs)
  | s, [] => .ok (s, {})
  | s, output :: outputs => do
    let first ← s.processOutput cfg output
    let rest ← processOutputs first.1 outputs
    pure (rest.1, {
      requestOutputs := first.2.requestOutputs ++ rest.2.requestOutputs
      reqsToAbort := first.2.reqsToAbort ++ rest.2.reqsToAbort })

/-! ### Aborting requests -/

/-- The first loop of `abort_requests` on an internal id: it leaves the external ids. -/
def unlistInternal (requestId : ReqId) : Except ProcessorError (OutputProcessor X) :=
  match s.requestStates.get? requestId with
  | some st => s.unlist st.externalReqId requestId
  | none => .ok s

/-- The first loop of `abort_requests` on external ids. -/
def popExternal : OutputProcessor X → List ExternalId → List ReqId × OutputProcessor X
  | s, [] => ([], s)
  | s, id :: ids =>
    let rest := popExternal { s with externalReqIds := s.externalReqIds.erase id } ids
    (GroupIndex.members s.externalReqIds id ++ rest.1, rest.2)

/-- The final output of a request that is aborted. -/
def abortState (st : RequestState X) : Except ProcessorError (OutputProcessor X) :=
  match st.queue with
  | none => .ok s
  | some queue => do
    let made ← st.makeRequestOutput cfg s.parents []
      (if st.detokenizer.isNone then some 0 else none) (some .abort) none
    match made.output with
    | some output => put { s with parents := made.parents } queue output
    | none => pure { s with parents := made.parents }

/-- The children of a parent are aborted, if there are any. -/
def abortParent (abortChildren : OutputProcessor X → List ReqId →
    Except ProcessorError (OutputProcessor X × List ReqId)) (requestId : ReqId) :
    Except ProcessorError (OutputProcessor X × List ReqId) :=
  if (s.parents requestId).childRequests = [] then .ok (s, [])
  else abortChildren s (s.parents requestId).childRequests

/-- The body of the second loop of `abort_requests`. -/
def abortOne (abortChildren : OutputProcessor X → List ReqId →
    Except ProcessorError (OutputProcessor X × List ReqId)) (requestId : ReqId) :
    Except ProcessorError (OutputProcessor X × List ReqId) :=
  match s.requestStates.get? requestId with
  | some st => do
    let s ← abortState cfg { s with requestStates := s.requestStates.erase requestId } st
    pure (s, [requestId])
  | none =>
    if requestId ∈ s.parentRequests then do
      let aborted ← s.abortParent abortChildren requestId
      pure ({ aborted.1 with
        parentRequests := aborted.1.parentRequests.filter (· ≠ requestId) }, aborted.2)
    else .ok (s, [])

/-- The second loop of `abort_requests`. -/
def abortEach (abortChildren : OutputProcessor X → List ReqId →
    Except ProcessorError (OutputProcessor X × List ReqId)) :
    OutputProcessor X → List ReqId → Except ProcessorError (OutputProcessor X × List ReqId)
  | s, [] => .ok (s, [])
  | s, id :: ids => do
    let first ← abortOne cfg s abortChildren id
    let rest ← abortEach abortChildren first.1 ids
    pure (rest.1, first.2 ++ rest.2)

/-- `abort_requests` on internal ids, with so many calls left on the stack. -/
def abortInternal : Nat → OutputProcessor X → List ReqId →
    Except ProcessorError (OutputProcessor X × List ReqId)
  | 0, _, _ => .error .recursionError
  | depth + 1, s, ids => do
    let s ← run unlistInternal s ids
    abortEach cfg (abortInternal depth) s ids

/-- The recursion limit of the interpreter. -/
def recursionLimit : Nat := 1000

/-- `abort_requests` on external ids. -/
def abortExternal (ids : List ExternalId) :
    Except ProcessorError (OutputProcessor X × List ReqId) :=
  let popped := popExternal s ids
  abortEach cfg (abortInternal cfg recursionLimit) popped.2 popped.1

end OutputProcessor

end Vllm.Frontend
