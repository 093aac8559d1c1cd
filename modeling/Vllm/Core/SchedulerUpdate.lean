import Vllm.Core.Scheduler
import Vllm.Core.StreamingSession

/-!
# The scheduler between its steps

What reaches the scheduler beside `schedule`: the outputs of the workers, new requests and
chunks of sessions, requests that are finished from outside, and a reset of the prefix cache;
and the engine, which keeps the outputs of several steps in flight and applies the workers'
results in order. Stop reasons, log probabilities and statistics are left out.
-/

namespace Vllm

open Checked

variable {H : Type}

/-- The update that a request for a known id carries, `StreamingUpdate.from_request`; a request
that is not resumable ends the session. -/
def StreamingUpdate.fromRequest (r : Request H) : Option StreamingUpdate :=
  if r.resumable then
    some {
      mmFeatures := r.mmFeatures
      promptTokenIds := r.promptTokenIds.getD []
      maxTokens := r.maxTokens
      arrivalTime := r.arrivalTime
      samplingParams := r.samplingParams }
  else none

/-- What the workers return of a step. -/
structure ModelRunnerOutput where
  /-- The sampled tokens of each request; empty for a prefill that goes on. -/
  sampledTokenIds : RequestId → List TokenId := fun _ => []
  /-- A pooling request has its output. -/
  poolerOutput : RequestId → Bool := fun _ => false

/-- `EngineCoreOutput`. -/
structure EngineCoreOutput where
  requestId : RequestId
  newTokenIds : List TokenId
  finishReason : Option FinishReason
  deriving DecidableEq, Repr

/-- `remove_all`: a single item is removed once, several items wherever they are. -/
def removeAll (requests : List RequestId) : List RequestId → List RequestId
  | [] => requests
  | [item] => requests.erase item
  | items => requests.filter (· ∉ items)

/-! ## Outputs of one request -/

namespace Request

/-- The tokens that are known to be computed, without those in flight. -/
def numFinalTokens (r : Request H) : Int := r.numComputedTokens - r.numOutputPlaceholders

/-- `_update_request_with_output` on the request: the tokens that are kept, and whether it
stops. The asynchronous scheduler drops the tokens of a step that a forced preemption overtook,
and otherwise fills placeholders. -/
def fillOutput (env : HashEnv H) (blockSize maxModelLen : Nat) (asyncScheduling : Bool)
    (tokenIds : List TokenId) (r : Request H) : Request H × List TokenId × Bool :=
  if asyncScheduling ∧ r.discardLatestAsyncTokens then
    ({ r with discardLatestAsyncTokens := false }, [], false)
  else
    let (updated, newTokenIds, stopped) := r.updateWithOutput env blockSize maxModelLen tokenIds
    ({ updated with
        numOutputPlaceholders :=
          if asyncScheduling then updated.numOutputPlaceholders - newTokenIds.length
          else updated.numOutputPlaceholders }, newTokenIds, stopped.isSome)

/-- The counters, tokens and status of a request behind its output in a step. -/
def takeOutput (env : HashEnv H) (blockSize maxModelLen : Nat) (asyncScheduling : Bool)
    (numDraftTokens : Nat) (generated : List TokenId) (poolerOutput : Bool) (r : Request H) :
    Request H × List TokenId × Bool :=
  let r :=
    if numDraftTokens ≠ 0 ∧ generated ≠ [] then r.rejectDrafts numDraftTokens generated.length
    else r
  if generated ≠ [] then r.fillOutput env blockSize maxModelLen asyncScheduling generated
  else if r.pooling ∧ poolerOutput then ({ r with status := .finishedStopped }, [], true)
  else (r, [], false)

end Request

namespace Scheduler

variable (s : Scheduler H)

/-! ## Queues -/

/-- `_enqueue_waiting_request`. -/
def enqueueWaitingRequest (requestId : RequestId) : Scheduler H :=
  let q : WaitingQueue :=
    if (s.request requestId).status.isBlockedWaiting then .skippedWaiting else .waiting
  s.setQueue (RequestQueue.addRequest s.config.policy s.lt (s.queue q) requestId) q

/-- Remove requests from one of the waiting queues. -/
def removeWaiting (requests : List RequestId) (q : WaitingQueue) : Scheduler H :=
  s.setQueue (RequestQueue.removeRequests s.config.policy s.lt (s.queue q) requests) q

/-- The tokens of a block that is hashed. -/
def hashBlockSize : Nat := s.kvCacheManager.config.hashBlockSize

/-! ## Sessions -/

/-- `_update_request_as_session`. -/
def updateRequestAsSession (env : HashEnv H) (requestId : RequestId) (update : StreamingUpdate) :
    Except SchedulerError (Scheduler H) :=
  match (s.request requestId).updateAsSession env s.hashBlockSize update with
  | none => .error .noPromptTokenIds
  | some session =>
    .ok { s.modify requestId (fun _ => session) with
      numWaitingForStreamingInput :=
        if (s.request requestId).status = .waitingForStreamingReq then
          s.numWaitingForStreamingInput - 1
        else s.numWaitingForStreamingInput }

/-- `_handle_stopped_request`: whether the request is finished. -/
def handleStoppedRequest (env : HashEnv H) (requestId : RequestId) :
    Except SchedulerError (Bool × Scheduler H) :=
  let request := s.request requestId
  if !request.resumable then .ok (true, s)
  else
    match request.streamingQueue.getD [] with
    | none :: rest =>
      .ok (true, s.modify requestId fun r => { r with streamingQueue := some rest })
    | some update :: rest => do
      let s := s.modify requestId fun r => { r with streamingQueue := some rest }
      let s ← s.updateRequestAsSession env requestId update
      pure (false, s.enqueueWaitingRequest requestId)
    | [] =>
      let s := s.modify requestId fun r => { r with status := .waitingForStreamingReq }
      let s := { s with numWaitingForStreamingInput := s.numWaitingForStreamingInput + 1 }
      .ok (false, s.enqueueWaitingRequest requestId)

/-! ## Finished requests -/

/-- `_free_request`. -/
def freeRequest (requestId : RequestId) : Except SchedulerError (Scheduler H) := do
  ensure (s.request requestId).status.isFinished .notFinished
  let kvCacheManager ← (s.kvCacheManager.free requestId).mapError .kvCache
  pure { s with
    kvCacheManager
    encoderCacheManager := s.encoderCacheManager.free requestId (s.request requestId).mmFeatures
    finishedReqIds :=
      if requestId ∈ s.finishedReqIds then s.finishedReqIds else s.finishedReqIds ++ [requestId]
    requests := s.requests.erase requestId }

/-- Free a request if it is finished. -/
def freeIf (finished : Bool) (requestId : RequestId) : Except SchedulerError (Scheduler H) :=
  if finished then s.freeRequest requestId else .ok s

/-- A request that the scheduler still has to finish. -/
def isUnfinished (requestId : RequestId) : Bool :=
  requestId ∈ s.requests ∧ !(s.request requestId).status.isFinished

/-- Set the status of a finished request and free it. -/
def finishRequest (finishedStatus : RequestStatus) (requestId : RequestId) :
    Except SchedulerError (Scheduler H) :=
  (s.modify requestId fun r => { r with status := finishedStatus }).freeRequest requestId

/-- `finish_requests`; all requests without any ids. -/
def finishRequests (requestIds : Option (List RequestId)) (finishedStatus : RequestStatus) :
    Except SchedulerError (Scheduler H) := do
  ensure finishedStatus.isFinished .notFinished
  let valid := ((requestIds.getD s.requests).dedup).filter s.isUnfinished
  let runningToRemove := valid.filter fun requestId => (s.request requestId).status = .running
  let waitingToRemove := valid.filter fun requestId => (s.request requestId).status ≠ .running
  let numStreaming := valid.countP fun requestId =>
    (s.request requestId).status = .waitingForStreamingReq
  let s := { s with
    numWaitingForStreamingInput := s.numWaitingForStreamingInput - numStreaming
    running := removeAll s.running runningToRemove }
  let s :=
    if waitingToRemove = [] then s
    else (s.removeWaiting waitingToRemove .waiting).removeWaiting waitingToRemove .skippedWaiting
  valid.foldlM (fun s requestId => s.finishRequest finishedStatus requestId) s

/-! ## New requests -/

/-- `add_request`. -/
def addRequest (env : HashEnv H) (request : Request H) : Except SchedulerError (Scheduler H) :=
  let requestId := request.requestId
  if requestId ∈ s.requests then
    let update := StreamingUpdate.fromRequest request
    if (s.request requestId).status ≠ .waitingForStreamingReq then
      match (s.request requestId).streamingQueue with
      | none => .error .duplicateRequestId
      | some queue =>
        .ok (s.modify requestId fun r => { r with streamingQueue := some (queue ++ [update]) })
    else
      match update with
      | some update => s.updateRequestAsSession env requestId update
      | none => s.finishRequests (some [requestId]) .finishedAborted
  else
    let request :=
      if request.resumable then { request with streamingQueue := some [] } else request
    let s := (s.modify requestId fun _ => request).enqueueWaitingRequest requestId
    .ok { s with requests := s.requests ++ [requestId] }

/-! ## Resets -/

/-- Preempt the last running request by force. The output of a step in flight is to be
dropped. -/
def forcePreempt (requestId : RequestId) : Except SchedulerError (Scheduler H) := do
  let s ← { s with running := s.running.dropLast }.preemptRequest requestId
  pure (s.modify requestId fun r => { r with
    numOutputPlaceholders := 0
    discardLatestAsyncTokens := true })

/-- Preempt all running requests by force, the last one first. -/
def forcePreemptAll : Except SchedulerError (Scheduler H) := do
  let s ← s.running.reverse.foldlM (fun s requestId => s.forcePreempt requestId) s
  pure { s with prevStepScheduledReqIds := [] }

/-- Preempt the running requests if a reset asks for it. -/
def forcePreemptIf (resetRunningRequests : Bool) : Except SchedulerError (Scheduler H) :=
  if resetRunningRequests then s.forcePreemptAll else .ok s

/-- `reset_prefix_cache`. -/
def resetPrefixCache (resetRunningRequests : Bool) :
    Except SchedulerError (Bool × Scheduler H) := do
  let s ← s.forcePreemptIf resetRunningRequests
  let (resetSuccessful, kvCacheManager) := s.kvCacheManager.resetPrefixCache
  ensure (!resetRunningRequests || resetSuccessful) .resetFailed
  pure (resetSuccessful, { s with kvCacheManager })

/-! ## Draft tokens -/

/-- `update_draft_token_ids`; the drafts of a structured-output request are already cut to what
its grammar accepts. -/
def updateDraftTokenIds (draftTokenIds : List (RequestId × List TokenId)) : Scheduler H :=
  draftTokenIds.foldl (fun s e =>
    if s.isUnfinished e.1 then s.modify e.1 (Request.setDraftTokenIds e.2) else s) s

/-! ## Outputs of the workers -/

variable [DecidableEq H]

/-- The scheduler and the local variables of `update_from_output`. -/
structure UpdatePass (H : Type) where
  scheduler : Scheduler H
  outputs : List EngineCoreOutput := []
  stoppedRunningReqs : List RequestId := []
  stoppedPreemptedReqs : List RequestId := []

/-- The output of a request, with the tokens that are kept and whether the request stops. The
asynchronous scheduler checks its placeholders and caches the blocks of the tokens that are
final; the blocks of a preempted request are gone. -/
def takeOutput (env : HashEnv H) (out : SchedulerOutput) (model : ModelRunnerOutput)
    (requestId : RequestId) : Except SchedulerError (Scheduler H × List TokenId × Bool) :=
  let request := s.request requestId
  let (updated, newTokenIds, stopped) := request.takeOutput env s.hashBlockSize
    s.config.maxModelLen s.config.asyncScheduling
    ((out.scheduledSpecDecodeTokens.get? requestId).getD []).length
    (model.sampledTokenIds requestId) (model.poolerOutput requestId)
  let s := s.modify requestId fun _ => updated
  if s.config.asyncScheduling ∧ model.sampledTokenIds requestId ≠ [] ∧
      !request.discardLatestAsyncTokens then do
    ensure (0 ≤ updated.numOutputPlaceholders) .negativeOutputPlaceholders
    if request.status = .running then
      let kvCacheManager ←
        (s.kvCacheManager.cacheBlocks updated updated.numFinalTokens).mapError .kvCache
      pure ({ s with kvCacheManager }, newTokenIds, stopped)
    else pure (s, newTokenIds, stopped)
  else .ok (s, newTokenIds, stopped)

/-- The loop body of `update_from_output`. -/
def updateOne (env : HashEnv H) (out : SchedulerOutput) (model : ModelRunnerOutput)
    (u : UpdatePass H) (e : RequestId × Int) : Except SchedulerError (UpdatePass H) := do
  let requestId := e.1
  ensure (0 < e.2) .nothingScheduled
  if !u.scheduler.isUnfinished requestId then pure u
  else
    let statusBeforeStop := (u.scheduler.request requestId).status
    let (s, newTokenIds, stopped) ← u.scheduler.takeOutput env out model requestId
    if !stopped then
      pure { u with
        scheduler := s
        outputs :=
          if newTokenIds ≠ [] ∨ model.poolerOutput requestId then
            u.outputs ++ [{ requestId, newTokenIds, finishReason := none }]
          else u.outputs }
    else
      let finishReason := (s.request requestId).status.getFinishedReason
      let (finished, s) ← s.handleStoppedRequest env requestId
      let s ← s.freeIf finished requestId
      pure {
        scheduler := s
        outputs := u.outputs ++ [{ requestId, newTokenIds, finishReason }]
        stoppedRunningReqs :=
          if statusBeforeStop = .running then u.stoppedRunningReqs ++ [requestId]
          else u.stoppedRunningReqs
        stoppedPreemptedReqs :=
          if statusBeforeStop = .running then u.stoppedPreemptedReqs
          else u.stoppedPreemptedReqs ++ [requestId] }

/-- The removal of stopped requests from the queues at the end of `update_from_output`. -/
def UpdatePass.finish (u : UpdatePass H) : Scheduler H :=
  let s := { u.scheduler with running := removeAll u.scheduler.running u.stoppedRunningReqs }
  if u.stoppedPreemptedReqs = [] then s else s.removeWaiting u.stoppedPreemptedReqs .waiting

/-- `update_from_output`. -/
def updateFromOutput (env : HashEnv H) (out : SchedulerOutput) (model : ModelRunnerOutput) :
    Except SchedulerError (List EngineCoreOutput × Scheduler H) := do
  let u ← out.numScheduledTokens.entries.foldlM (updateOne env out model) { scheduler := s }
  pure (u.outputs, u.finish)

end Scheduler

/-! ## The engine -/

/-- A step whose results are not applied yet. -/
structure InFlightStep where
  output : SchedulerOutput
  /-- The requests for which the step samples: it reaches the last of their tokens. -/
  sampling : List RequestId

/-- The scheduler with the steps in flight, oldest first. -/
structure Engine (H : Type) where
  scheduler : Scheduler H
  inFlight : List InFlightStep := []
  /-- All ids that were ever added. -/
  added : List RequestId := []

/-- What happens to an engine. -/
inductive EngineCall (H : Type) where
  | addRequest (args : Request H)
  | schedule (inputs : ScheduleInputs)
  | updateFromOutput (model : ModelRunnerOutput)
  | updateDraftTokenIds (draftTokenIds : List (RequestId × List TokenId))
  | finishRequests (requestIds : Option (List RequestId)) (finishedStatus : RequestStatus)
  | resetPrefixCache (resetRunningRequests : Bool)
  | setPauseState (pauseState : PauseState)

namespace Engine

variable [DecidableEq H]

/-- An engine with a new scheduler. -/
def init (config : SchedulerConfig) (kvCacheConfig : KVCacheConfig) (encoderCacheSize : Nat) :
    Except SchedulerError (Engine H) := do
  let scheduler ← Scheduler.init config kvCacheConfig encoderCacheSize
  pure { scheduler }

/-- The requests of a step that the workers sample for. -/
def samplingReqs (out : SchedulerOutput) (s : Scheduler H) : List RequestId :=
  (out.numScheduledTokens.entries.map Prod.fst).filter fun requestId =>
    !(s.request requestId).isPrefillChunk

/-- The effect of a call. -/
def apply (env : HashEnv H) (e : Engine H) : EngineCall H → Except SchedulerError (Engine H)
  | .addRequest args => do
    let scheduler ←
      e.scheduler.addRequest env (Request.init env e.scheduler.hashBlockSize args)
    pure { e with scheduler, added := args.requestId :: e.added }
  | .schedule inputs => do
    let (output, scheduler) ← e.scheduler.schedule inputs
    pure { e with
      scheduler
      inFlight := e.inFlight ++ [{ output, sampling := samplingReqs output scheduler }] }
  | .updateFromOutput model =>
    match e.inFlight with
    | [] => .error .indexError
    | step :: rest => do
      let (_, scheduler) ← e.scheduler.updateFromOutput env step.output model
      pure { e with scheduler, inFlight := rest }
  | .updateDraftTokenIds draftTokenIds =>
    .ok { e with scheduler := e.scheduler.updateDraftTokenIds draftTokenIds }
  | .finishRequests requestIds finishedStatus => do
    let scheduler ← e.scheduler.finishRequests requestIds finishedStatus
    pure { e with scheduler }
  | .resetPrefixCache resetRunningRequests => do
    let (_, scheduler) ← e.scheduler.resetPrefixCache resetRunningRequests
    pure { e with scheduler }
  | .setPauseState pauseState => .ok { e with scheduler := { e.scheduler with pauseState } }

end Engine

/-- One full-attention group with two tokens in a block. -/
def smallKVCache (numBlocks : Nat) (enableCaching : Bool := false) : KVCacheConfig where
  kvCacheGroups := [{
    kind := .fullAttention, blockSize := 2, blockSize_pos := Nat.two_pos, kind_valid := trivial }]
  numBlocks
  hashBlockSize := 2
  maxModelLen := 0
  enableCaching

end Vllm
