import Mathlib.Data.Finset.Card
import Vllm.Core.EncoderSchedule
import Vllm.Core.KVCacheManager
import Vllm.Core.RequestQueue
import Vllm.Core.RequestStep

/-!
# The scheduler

The state of the scheduler and one `schedule` call: a pass over the running requests, which
preempts others for want of blocks, a pass over the waiting ones, and the output for the
workers. There is no KV connector, and the model is decoder-only. Requests are objects that are
updated in place; an id names one request for good, as the front end makes ids unique.
-/

namespace Vllm

open Checked

variable {H : Type}

/-! ## State -/

/-- `PauseState`. -/
inductive PauseState where
  | unpaused
  | pausedNew
  | pausedAll
  deriving DecidableEq, Repr

/-- `_is_blocked_waiting_status`. -/
def RequestStatus.isBlockedWaiting (status : RequestStatus) : Bool :=
  status ∈ [.waitingForFsm, .waitingForRemoteKvs, .waitingForStreamingReq]

/-- The two queues of waiting requests. -/
inductive WaitingQueue where
  | waiting
  | skippedWaiting
  deriving DecidableEq, Repr

/-- What the scheduler reads of the configuration. -/
structure SchedulerConfig where
  policy : SchedulingPolicy := .fcfs
  maxNumRunningReqs : Nat
  maxNumScheduledTokens : Nat
  maxModelLen : Nat
  longPrefillTokenThreshold : Nat := 0
  enableChunkedPrefill : Bool := true
  disableChunkedMmInput : Bool := false
  /-- `max_loras`, with LoRA enabled. -/
  loraConfig : Option Nat := none
  maxNumEncoderInputTokens : Nat := 0
  useEagle : Bool := false
  numSpecTokens : Nat := 0
  numLookaheadTokens : Nat := 0
  /-- The block size of the cache configuration, with the split of mamba `align`. -/
  mambaBlockAlignedSplit : Option Nat := none
  usePp : Bool := false
  useV2ModelRunner : Bool := false
  asyncScheduling : Bool := false

/-- What a `schedule` call reads from other components. -/
structure ScheduleInputs where
  /-- The grammar of a structured-output request is compiled. -/
  grammarReady : RequestId → Bool := fun _ => true
  /-- What the EC connector holds; nothing without one. -/
  hasCacheItem : String → Bool := fun _ => false

/-- The checks of the scheduler, by what they find wrong. -/
inductive SchedulerError where
  | kvCache (error : KVCacheError)
  | encoderCache (error : EncoderCacheError)
  | keyError
  | indexError
  | notRunning
  | streamingQueueNotEmpty
  | invalidRequestStatus
  | tooManyLoras
  | tooManyComputedTokens
  | noNewTokens
  | tooManyScheduledTokens
  | negativeTokenBudget
  | tooManyRunningReqs
  | tooManyScheduledReqs
  | resumedInPrevStep
  | notFinished
  | noPromptTokenIds
  | duplicateRequestId
  | nothingScheduled
  | negativeOutputPlaceholders
  | resetFailed
  deriving DecidableEq, Repr

/-- `Scheduler`. -/
structure Scheduler (H : Type) where
  config : SchedulerConfig
  /-- The keys of `requests`, oldest first. -/
  requests : List RequestId := []
  /-- The request objects. -/
  request : RequestId → Request H := fun requestId => { requestId }
  waiting : List RequestId := []
  skippedWaiting : List RequestId := []
  running : List RequestId := []
  finishedReqIds : List RequestId := []
  numWaitingForStreamingInput : Int := 0
  kvCacheManager : KVCacheManager H
  encoderCacheManager : EncoderCacheManager
  prevStepScheduledReqIds : List RequestId := []
  pauseState : PauseState := .unpaused

namespace Scheduler

/-- The constructor. The KV cache manager takes the length limit and the use of EAGLE from the
scheduler. -/
def init [DecidableEq H] (config : SchedulerConfig) (kvCacheConfig : KVCacheConfig)
    (encoderCacheSize : Nat) : Except SchedulerError (Scheduler H) := do
  let kvCacheManager ← (KVCacheManager.init { kvCacheConfig with
    maxModelLen := config.maxModelLen
    useEagle := config.useEagle }).mapError .kvCache
  pure { config, kvCacheManager, encoderCacheManager := .init encoderCacheSize }

variable (s : Scheduler H)

/-- Change one request. -/
def modify (requestId : RequestId) (f : Request H → Request H) : Scheduler H :=
  { s with request := Function.update s.request requestId (f (s.request requestId)) }

/-- The order of the request queues. -/
def lt (requestId other : RequestId) : Bool := (s.request requestId).lt (s.request other)

/-- The requests in a queue. -/
def queue : WaitingQueue → List RequestId
  | .waiting => s.waiting
  | .skippedWaiting => s.skippedWaiting

/-- Replace the requests in a queue. -/
def setQueue (requests : List RequestId) : WaitingQueue → Scheduler H
  | .waiting => { s with waiting := requests }
  | .skippedWaiting => { s with skippedWaiting := requests }

/-- `_select_waiting_queue_for_scheduling`. -/
def selectWaitingQueue : Option WaitingQueue :=
  match s.waiting, s.skippedWaiting, s.config.policy with
  | [], [], _ => none
  | [], _ :: _, _ => some .skippedWaiting
  | _ :: _, [], _ => some .waiting
  | _ :: _, _ :: _, .fcfs => some .skippedWaiting
  | waitingReq :: _, skippedReq :: _, .priority =>
    some (if s.lt waitingReq skippedReq then .waiting else .skippedWaiting)

/-- `_try_promote_blocked_waiting_request`. Without a KV connector nothing is received. -/
def tryPromote (inputs : ScheduleInputs) (requestId : RequestId) :
    Except SchedulerError (Bool × Scheduler H) :=
  match (s.request requestId).status with
  | .waitingForFsm =>
    if inputs.grammarReady requestId then
      .ok (true, s.modify requestId fun r => { r with status := .waiting })
    else .ok (false, s)
  | .waitingForStreamingReq => do
    ensure ((s.request requestId).streamingQueue.getD [] = []) .streamingQueueNotEmpty
    pure (false, s)
  | .waitingForRemoteKvs => .ok (false, s)
  | _ => .error .invalidRequestStatus

/-- Whether a request can be scheduled, with a blocked one promoted if possible. -/
def promoteIfBlocked (inputs : ScheduleInputs) (requestId : RequestId) :
    Except SchedulerError (Bool × Scheduler H) :=
  if (s.request requestId).status.isBlockedWaiting then s.tryPromote inputs requestId
  else .ok (true, s)

/-- `_preempt_request`; the request is no longer in `running`. -/
def preemptRequest (requestId : RequestId) : Except SchedulerError (Scheduler H) := do
  ensure ((s.request requestId).status = .running) .notRunning
  let kvCacheManager ← (s.kvCacheManager.free requestId).mapError .kvCache
  let s := { s with
    kvCacheManager
    encoderCacheManager :=
      s.encoderCacheManager.free requestId (s.request requestId).mmFeatures }
  let s := s.modify requestId fun r => { r with
    status := .preempted
    numComputedTokens := 0
    specTokenIds := []
    numPreemptions := r.numPreemptions + 1 }
  pure { s with
    waiting := RequestQueue.prependRequest s.config.policy s.lt s.waiting requestId }

end Scheduler

/-! ## Token counts -/

namespace Request

/-- An asynchronous step that is in flight reaches the token limit for sure. -/
def reachesMaxTokens (r : Request H) : Prop :=
  0 < r.numOutputPlaceholders ∧
    (r.numPromptTokens + r.maxTokens : Int) ≤ r.numComputedTokens + 2 - r.numOutputPlaceholders

instance (r : Request H) : Decidable r.reachesMaxTokens := inferInstanceAs (Decidable (_ ∧ _))

/-- `_mamba_block_aligned_split`: a prefill chunk ends at a block boundary. -/
def mambaBlockAlignedSplit (blockSize : Nat) (useEagle : Bool) (r : Request H)
    (numNewTokens numNewLocalComputedTokens : Int) : Int :=
  let numComputedTokens := r.numComputedTokens + numNewLocalComputedTokens
  if numComputedTokens < max (r.numPromptTokens : Int) (r.numTokens - 1) then
    let lastCachePosition : Int := r.numTokens - r.numTokens % blockSize
    let lastCachePosition :=
      if useEagle then max (lastCachePosition - blockSize) 0 else lastCachePosition
    let numComputedTokensAfterSched := numComputedTokens + numNewTokens
    if numComputedTokensAfterSched < lastCachePosition then numNewTokens / blockSize * blockSize
    else if numComputedTokens < lastCachePosition ∧
        lastCachePosition < numComputedTokensAfterSched then
      lastCachePosition - numComputedTokens
    else numNewTokens
  else numNewTokens

end Request

/-! ## One schedule call -/

/-- The scheduler and the local variables of `schedule`. -/
structure SchedulePass (H : Type) where
  scheduler : Scheduler H
  scheduledNewReqs : List RequestId := []
  scheduledResumedReqs : List RequestId := []
  scheduledRunningReqs : List RequestId := []
  preemptedReqs : List RequestId := []
  reqToNewBlocks : Dict RequestId (List (List BlockId)) := Dict.empty
  numScheduledTokens : Dict RequestId Int := Dict.empty
  tokenBudget : Int
  scheduledEncoderInputs : Dict RequestId (List Nat) := Dict.empty
  encoderComputeBudget : Int
  scheduledSpecDecodeTokens : Dict RequestId (List TokenId) := Dict.empty
  reqIndex : Nat := 0
  scheduledLoras : Finset Nat := ∅
  stepSkippedWaiting : List RequestId := []

namespace SchedulePass

variable (p : SchedulePass H)

/-- Go on with the next running request. -/
def nextRequest : SchedulePass H := { p with reqIndex := p.reqIndex + 1 }

/-- Try to schedule the encoder inputs of a request. -/
def tryEncoderInputs (inputs : ScheduleInputs) (requestId : RequestId)
    (numComputedTokens numNewTokens : Int) :
    Except SchedulerError (EncoderPass × SchedulePass H) := do
  let e ← (tryScheduleEncoderInputs
    { disableChunkedMmInput := p.scheduler.config.disableChunkedMmInput
      hasCacheItem := inputs.hasCacheItem }
    requestId numComputedTokens numNewTokens (if p.scheduler.config.useEagle then 1 else 0)
    p.scheduler.encoderCacheManager (p.scheduler.request requestId).mmFeatures
    p.encoderComputeBudget).mapError .encoderCache
  pure (e, { p with scheduler := { p.scheduler with encoderCacheManager := e.manager } })

/-- The split of mamba `align`, where it is needed. -/
def alignedSplit (requestId : RequestId) (numNewTokens numNewLocalComputedTokens : Int) : Int :=
  match p.scheduler.config.mambaBlockAlignedSplit with
  | none => numNewTokens
  | some blockSize => (p.scheduler.request requestId).mambaBlockAlignedSplit blockSize
      p.scheduler.config.useEagle numNewTokens numNewLocalComputedTokens

/-- Allocate the encoder cache for some items of a request. -/
def allocateItems (requestId : RequestId) (mmFeatures : List MultiModalFeatureSpec)
    (manager : EncoderCacheManager) (inputIds : List Nat) :
    Except SchedulerError EncoderCacheManager :=
  inputIds.foldlM (fun manager i =>
    match mmFeatures[i]? with
    | some f => (manager.allocate requestId f).mapError .encoderCache
    | none => .error .indexError) manager

/-- Book the encoder inputs of a scheduled request. -/
def allocateEncoderInputs (requestId : RequestId) (e : EncoderPass) :
    Except SchedulerError (SchedulePass H) := do
  let encoderCacheManager ← allocateItems requestId (p.scheduler.request requestId).mmFeatures
    p.scheduler.encoderCacheManager (e.encoderInputsToSchedule ++ e.externalLoadEncoderInput)
  let p := { p with scheduler := { p.scheduler with encoderCacheManager } }
  if e.encoderInputsToSchedule = [] then pure p
  else
    pure { p with
      scheduledEncoderInputs := p.scheduledEncoderInputs.insert requestId e.encoderInputsToSchedule
      encoderComputeBudget := e.encoderComputeBudget }

/-! ### Running requests -/

/-- `max(running, key=...)`: the first request of the lowest priority, and of these of the
latest arrival. -/
def lowestPriority (request : RequestId → Request H) : List RequestId → Option RequestId
  | [] => none
  | requestId :: rest =>
    some (rest.foldl (fun best other =>
      if (request best).priority < (request other).priority ∨
          (request best).priority = (request other).priority ∧
            (request best).arrivalTime < (request other).arrivalTime then other
      else best) requestId)

/-- The next request to preempt. -/
def victim : Option RequestId :=
  match p.scheduler.config.policy with
  | .priority => lowestPriority p.scheduler.request p.scheduler.running
  | .fcfs => p.scheduler.running.getLast?

/-- The number of embeddings of some items of a request. -/
def numEncoderEmbeds (requestId : RequestId) (inputIds : List Nat) : Int :=
  (inputIds.map fun i => match (p.scheduler.request requestId).mmFeatures[i]? with
    | some f => (f.mmPosition.getNumEmbeds : Int)
    | none => 0).sum

/-- Take back what was scheduled for a running request in this step. -/
def unscheduleRunning (requestId : RequestId) (numScheduled : Int) : SchedulePass H :=
  { p with
    scheduledRunningReqs := p.scheduledRunningReqs.erase requestId
    tokenBudget := p.tokenBudget + numScheduled
    numScheduledTokens := p.numScheduledTokens.erase requestId
    reqToNewBlocks := p.reqToNewBlocks.erase requestId
    scheduledSpecDecodeTokens := p.scheduledSpecDecodeTokens.erase requestId
    scheduledEncoderInputs := p.scheduledEncoderInputs.erase requestId
    encoderComputeBudget := p.encoderComputeBudget +
      p.numEncoderEmbeds requestId ((p.scheduledEncoderInputs.get? requestId).getD [])
    reqIndex := p.reqIndex - 1 }

/-- Replace the running requests. -/
def setRunning (running : List RequestId) : SchedulePass H :=
  { p with scheduler := { p.scheduler with running } }

/-- Take a request out of `running` for preemption. Only by priority may it be one that was
scheduled in this step. -/
def takeVictim (requestId : RequestId) : Except SchedulerError (SchedulePass H) :=
  match p.scheduler.config.policy with
  | .priority =>
    let p := p.setRunning (p.scheduler.running.erase requestId)
    if requestId ∈ p.scheduledRunningReqs then
      match p.numScheduledTokens.get? requestId, p.reqToNewBlocks.get? requestId with
      | some numScheduled, some _ => .ok (p.unscheduleRunning requestId numScheduled)
      | _, _ => .error .keyError
    else .ok p
  | .fcfs => .ok (p.setRunning p.scheduler.running.dropLast)

/-- Preempt a request. -/
def preempt (requestId : RequestId) : Except SchedulerError (SchedulePass H) := do
  let p ← p.takeVictim requestId
  let scheduler ← p.scheduler.preemptRequest requestId
  pure { p with scheduler, preemptedReqs := p.preemptedReqs ++ [requestId] }

/-- Schedule a running request. -/
def scheduleRunning (requestId : RequestId) (numNewTokens : Int)
    (newBlocks : List (List BlockId)) (e : EncoderPass) :
    Except SchedulerError (SchedulePass H) :=
  let specTokenIds := (p.scheduler.request requestId).scheduledSpecTokenIds numNewTokens
  let p := { p with
    scheduler := p.scheduler.modify requestId fun r => { r with specTokenIds := [] }
    scheduledRunningReqs := p.scheduledRunningReqs ++ [requestId]
    reqToNewBlocks := p.reqToNewBlocks.insert requestId newBlocks
    numScheduledTokens := p.numScheduledTokens.insert requestId numNewTokens
    tokenBudget := p.tokenBudget - numNewTokens
    reqIndex := p.reqIndex + 1
    scheduledSpecDecodeTokens :=
      if specTokenIds = [] then p.scheduledSpecDecodeTokens
      else p.scheduledSpecDecodeTokens.insert requestId specTokenIds }
  p.allocateEncoderInputs requestId e

/-- The adapters of the scheduled running requests. -/
def recordLoras : Except SchedulerError (SchedulePass H) :=
  match p.scheduler.config.loraConfig with
  | none => .ok p
  | some maxLoras => do
    let loras := p.scheduledRunningReqs.filterMap fun requestId =>
      match (p.scheduler.request requestId).loraRequest with
      | some lora => if 0 < lora.loraIntId then some lora.loraIntId else none
      | none => none
    ensure (loras.toFinset.card ≤ maxLoras) .tooManyLoras
    pure { p with scheduledLoras := loras.toFinset }

/-! ### Waiting requests -/

/-- A request needs an adapter for which there is no room in the step. -/
def exceedsLoras (requestId : RequestId) : Bool :=
  match p.scheduler.config.loraConfig, (p.scheduler.request requestId).loraRequest with
  | some maxLoras, some lora =>
    p.scheduledLoras.card = maxLoras ∧ lora.loraIntId ∉ p.scheduledLoras
  | _, _ => false

/-- Put a request off to a later step; the rest of its queue stays. -/
def skipWaiting (q : WaitingQueue) (requestId : RequestId) (rest : List RequestId) :
    SchedulePass H :=
  { p with
    scheduler := p.scheduler.setQueue rest q
    stepSkippedWaiting := RequestQueue.prependRequest p.scheduler.config.policy p.scheduler.lt
      p.stepSkippedWaiting requestId }

/-- The adapters of the step with that of another request. -/
def lorasWith (requestId : RequestId) : Finset Nat :=
  match p.scheduler.config.loraConfig, (p.scheduler.request requestId).loraRequest with
  | some _, some lora => insert lora.loraIntId p.scheduledLoras
  | _, _ => p.scheduledLoras

/-- Record a waiting request as new or as resumed. -/
def recordAdmission (requestId : RequestId) : Except SchedulerError (SchedulePass H) :=
  match (p.scheduler.request requestId).status with
  | .waiting => .ok { p with scheduledNewReqs := p.scheduledNewReqs ++ [requestId] }
  | .preempted => .ok { p with scheduledResumedReqs := p.scheduledResumedReqs ++ [requestId] }
  | _ => .error .invalidRequestStatus

/-- Move a waiting request to the running ones; the rest of its queue stays. -/
def admitWaiting (q : WaitingQueue) (requestId : RequestId) (rest : List RequestId)
    (numNewTokens numComputedTokens : Int) (e : EncoderPass) :
    Except SchedulerError (SchedulePass H) := do
  let s := p.scheduler.setQueue rest q
  let p ← p.recordAdmission requestId
  let p := { p with
    scheduler := { s.modify requestId (fun r => { r with
      status := .running
      numComputedTokens := numComputedTokens
      numCachedTokens :=
        if r.numCachedTokens < 0 then numComputedTokens else r.numCachedTokens }) with
      running := s.running ++ [requestId] }
    scheduledLoras := p.lorasWith requestId
    reqToNewBlocks := p.reqToNewBlocks.insert requestId
      (p.scheduler.kvCacheManager.getBlocks requestId)
    numScheduledTokens := p.numScheduledTokens.insert requestId numNewTokens
    tokenBudget := p.tokenBudget - numNewTokens }
  p.allocateEncoderInputs requestId e

/-! ### The loops -/

variable [DecidableEq H]

/-- The loop that allocates blocks for a running request and preempts others as long as there
are not enough; it ends without blocks when the request itself is preempted. It runs at most
once for each running request. -/
def allocateOrPreempt (requestId : RequestId) (numNewTokens : Int) :
    Nat → SchedulePass H →
      Except SchedulerError (SchedulePass H × Option (List (List BlockId)))
  | 0, _ => .error .indexError
  | fuel + 1, p => do
    let (kvCacheManager, newBlocks) ←
      (p.scheduler.kvCacheManager.allocateSlots (p.scheduler.request requestId)
        { numNewTokens
          numLookaheadTokens := p.scheduler.config.numLookaheadTokens }).mapError .kvCache
    let p := { p with scheduler := { p.scheduler with kvCacheManager } }
    match newBlocks, p.victim with
    | some newBlocks, _ => pure (p, some newBlocks)
    | none, none => .error .indexError
    | none, some preempted =>
      let p ← p.preempt preempted
      if preempted = requestId then pure (p, none)
      else allocateOrPreempt requestId numNewTokens fuel p

/-- The loop over the running requests. A round schedules or passes one of them. -/
def runningLoop (inputs : ScheduleInputs) :
    Nat → SchedulePass H → Except SchedulerError (SchedulePass H)
  | 0, p => .ok p
  | fuel + 1, p =>
    match p.scheduler.running[p.reqIndex]? with
    | none => .ok p
    | some requestId =>
      let config := p.scheduler.config
      let request := p.scheduler.request requestId
      if p.tokenBudget ≤ 0 then .ok p
      else if request.reachesMaxTokens then runningLoop inputs fuel p.nextRequest
      else do
        let numNewTokens :=
          request.numNewTokens config.longPrefillTokenThreshold config.maxModelLen p.tokenBudget
        let (e, p) ← p.tryEncoderInputs inputs requestId request.numComputedTokens numNewTokens
        let numNewTokens := p.alignedSplit requestId e.numNewTokens 0
        if numNewTokens = 0 then runningLoop inputs fuel p.nextRequest
        else
          let (p, newBlocks) ←
            allocateOrPreempt requestId numNewTokens p.scheduler.running.length p
          match newBlocks with
          | none => pure p
          | some newBlocks =>
            let p ← p.scheduleRunning requestId numNewTokens newBlocks e
            runningLoop inputs fuel p

/-- The prefix hits of a waiting request, the tokens in them, and all its computed tokens. -/
def computedTokens (requestId : RequestId) :
    Except SchedulerError (Option (List (List BlockId)) × Int × Int) :=
  let request := p.scheduler.request requestId
  if request.numComputedTokens = 0 then do
    let (blocks, numHits) ←
      (p.scheduler.kvCacheManager.getComputedBlocks request).mapError .kvCache
    ensure (numHits ≤ request.numTokens) .tooManyComputedTokens
    pure (some blocks, numHits, numHits)
  else .ok (none, 0, request.numComputedTokens)

/-- What a round of the loop over the waiting requests does with the first request of a queue,
once it is not put off: `none` ends the loop. -/
def scheduleWaiting (inputs : ScheduleInputs) (q : WaitingQueue) (requestId : RequestId)
    (rest : List RequestId) :
    Except SchedulerError (SchedulePass H × Bool) := do
  let config := p.scheduler.config
  let request := p.scheduler.request requestId
  let (hits, numNewLocalComputedTokens, numComputedTokens) ← p.computedTokens requestId
  let numNewTokens :=
    capLongPrefill config.longPrefillTokenThreshold (request.numTokens - numComputedTokens)
  if !config.enableChunkedPrefill ∧ p.tokenBudget < numNewTokens then pure (p, false)
  else
    let numNewTokens := min numNewTokens p.tokenBudget
    ensure (0 < numNewTokens) .noNewTokens
    let (e, p) ← p.tryEncoderInputs inputs requestId numComputedTokens numNewTokens
    if request.hasEncoderInputs ∧ e.numNewTokens = 0 then pure (p, false)
    else
      let numNewTokens := p.alignedSplit requestId e.numNewTokens numNewLocalComputedTokens
      if config.mambaBlockAlignedSplit.isSome ∧ numNewTokens = 0 then pure (p, false)
      else
        let (kvCacheManager, newBlocks) ← (p.scheduler.kvCacheManager.allocateSlots request
          { numNewTokens
            numNewComputedTokens := numNewLocalComputedTokens
            newComputedBlocks := hits
            numLookaheadTokens :=
              if request.numComputedTokens = 0 then 0
              else config.numLookaheadTokens }).mapError .kvCache
        let p := { p with scheduler := { p.scheduler with kvCacheManager } }
        if newBlocks.isNone then
          -- the references that the lookup took are given back
          pure ({ p with scheduler := { p.scheduler with
            encoderCacheManager :=
              p.scheduler.encoderCacheManager.free requestId request.mmFeatures } }, false)
        else
          let p ← p.admitWaiting q requestId rest numNewTokens numComputedTokens e
          pure (p, true)

/-- The loop over the waiting requests. A round puts off or schedules one of them, or ends the
loop. -/
def waitingLoop (inputs : ScheduleInputs) :
    Nat → SchedulePass H → Except SchedulerError (SchedulePass H)
  | 0, p => .ok p
  | fuel + 1, p =>
    match p.scheduler.selectWaitingQueue with
    | none => .ok p
    | some q =>
      if p.tokenBudget ≤ 0 ∨
          p.scheduler.running.length = p.scheduler.config.maxNumRunningReqs then .ok p
      else
        match RequestQueue.popRequest p.scheduler.config.policy p.scheduler.lt
          (p.scheduler.queue q) with
        | none => .error .indexError
        | some (requestId, rest) => do
          let (promoted, scheduler) ← p.scheduler.promoteIfBlocked inputs requestId
          let p := { p with scheduler }
          if !promoted || p.exceedsLoras requestId then
            waitingLoop inputs fuel (p.skipWaiting q requestId rest)
          else
            let (p, goOn) ← p.scheduleWaiting inputs q requestId rest
            if goOn then waitingLoop inputs fuel p else pure p

end SchedulePass

/-! ## The output -/

/-- `NewRequestData`. -/
structure NewRequestData where
  reqId : RequestId
  promptTokenIds : Option (List TokenId)
  mmFeatures : List MultiModalFeatureSpec
  samplingParams : SamplingParams
  blockIds : List (List BlockId)
  numComputedTokens : Int
  loraRequest : Option LoRARequest
  promptEmbeds : Option (List EmbedRow)
  /-- For the v2 model runner. -/
  prefillTokenIds : Option (List TokenId)
  deriving DecidableEq, Repr

/-- `NewRequestData.from_request`. -/
def NewRequestData.fromRequest (r : Request H) (blockIds : List (List BlockId))
    (prefillTokenIds : Option (List TokenId)) : NewRequestData where
  reqId := r.requestId
  promptTokenIds := r.promptTokenIds
  mmFeatures := r.mmFeatures
  samplingParams := r.samplingParams
  blockIds
  numComputedTokens := r.numComputedTokens
  loraRequest := r.loraRequest
  promptEmbeds := r.promptEmbeds
  prefillTokenIds

/-- `CachedRequestData`, one row for each request. -/
structure CachedRequestData where
  reqIds : List RequestId
  resumedReqIds : List RequestId
  /-- Empty without pipeline parallelism. -/
  newTokenIds : List (List TokenId)
  allTokenIds : List (RequestId × List TokenId)
  newBlockIds : List (Option (List (List BlockId)))
  numComputedTokens : List Int
  numOutputTokens : List Int
  deriving DecidableEq, Repr

/-- `SchedulerOutput`. -/
structure SchedulerOutput where
  scheduledNewReqs : List NewRequestData
  scheduledCachedReqs : CachedRequestData
  numScheduledTokens : Dict RequestId Int
  totalNumScheduledTokens : Int
  scheduledSpecDecodeTokens : Dict RequestId (List TokenId)
  scheduledEncoderInputs : Dict RequestId (List Nat)
  preemptedReqIds : List RequestId
  finishedReqIds : List RequestId
  freeEncoderMmHashes : List String

namespace SchedulePass

variable (p : SchedulePass H)

/-- The running and the resumed requests as they are put out. -/
def cachedReqs : List RequestId :=
  if p.scheduler.config.useV2ModelRunner then p.scheduledRunningReqs
  else p.scheduledRunningReqs ++ p.scheduledResumedReqs

/-- The new requests as they are put out; to the v2 model runner resumed ones are new. -/
def newReqs : List RequestId :=
  if p.scheduler.config.useV2ModelRunner then p.scheduledNewReqs ++ p.scheduledResumedReqs
  else p.scheduledNewReqs

/-- The resumed requests as they are put out. -/
def resumedReqs : List RequestId :=
  if p.scheduler.config.useV2ModelRunner then [] else p.scheduledResumedReqs

/-- The blocks of a scheduled request for the workers; `None` without any. -/
def newBlockIds (requestId : RequestId) : Option (List (List BlockId)) :=
  match p.reqToNewBlocks.get? requestId with
  | some blocks => if blocks.all (· = []) then none else some blocks
  | none => none

/-- The tokens sent back to the first pipeline stage. -/
def newTokenIds (requestId : RequestId) : List TokenId :=
  let request := p.scheduler.request requestId
  let numTokens := (p.numScheduledTokens.get? requestId).getD 0 -
    ((p.scheduledSpecDecodeTokens.get? requestId).getD []).length
  (request.allTokenIds.drop request.numComputedTokens.toNat).take numTokens.toNat

/-- `_make_cached_request_data`. -/
def makeCachedRequestData : Except SchedulerError CachedRequestData := do
  let prev := p.scheduler.prevStepScheduledReqIds
  ensure (∀ requestId ∈ p.resumedReqs, requestId ∉ prev) .resumedInPrevStep
  pure {
    reqIds := p.cachedReqs
    resumedReqIds := p.resumedReqs
    newTokenIds :=
      if p.scheduler.config.usePp ∧ !p.scheduler.config.asyncScheduling then
        p.cachedReqs.map p.newTokenIds
      else []
    allTokenIds := (p.cachedReqs.filter (· ∉ prev)).map fun requestId =>
      (requestId, (p.scheduler.request requestId).allTokenIds)
    newBlockIds := p.cachedReqs.map p.newBlockIds
    numComputedTokens := p.cachedReqs.map fun requestId =>
      (p.scheduler.request requestId).numComputedTokens
    numOutputTokens := p.cachedReqs.map fun requestId =>
      (p.scheduler.request requestId).numOutputTokens +
        (p.scheduler.request requestId).numOutputPlaceholders }

/-- The number of tokens scheduled in the step. -/
def totalNumScheduledTokens : Int := p.numScheduledTokens.values.sum

/-- The output of a pass for the workers. -/
def outputData (scheduledCachedReqs : CachedRequestData) : SchedulerOutput where
  scheduledNewReqs := p.newReqs.map fun requestId =>
    NewRequestData.fromRequest (p.scheduler.request requestId)
      ((p.reqToNewBlocks.get? requestId).getD [])
      (if p.scheduler.config.useV2ModelRunner then
        some (p.scheduler.request requestId).allTokenIds
      else none)
  scheduledCachedReqs
  numScheduledTokens := p.numScheduledTokens
  totalNumScheduledTokens := p.totalNumScheduledTokens
  scheduledSpecDecodeTokens := p.scheduledSpecDecodeTokens
  scheduledEncoderInputs := p.scheduledEncoderInputs
  preemptedReqIds := p.preemptedReqs
  finishedReqIds := p.scheduler.finishedReqIds
  freeEncoderMmHashes := p.scheduler.encoderCacheManager.getFreedMmHashes.1

/-- The scheduler behind its output. -/
def afterOutput : Scheduler H :=
  { p.scheduler with
    encoderCacheManager := p.scheduler.encoderCacheManager.getFreedMmHashes.2
    prevStepScheduledReqIds := p.numScheduledTokens.entries.map Prod.fst }

/-- The checks at the end of `schedule` and its output. -/
def output : Except SchedulerError (SchedulerOutput × Scheduler H) := do
  let config := p.scheduler.config
  ensure (p.totalNumScheduledTokens ≤ config.maxNumScheduledTokens) .tooManyScheduledTokens
  ensure (0 ≤ p.tokenBudget) .negativeTokenBudget
  ensure (p.scheduler.running.length ≤ config.maxNumRunningReqs) .tooManyRunningReqs
  ensure (p.scheduledNewReqs.length + p.scheduledResumedReqs.length +
    p.scheduledRunningReqs.length ≤ p.scheduler.running.length) .tooManyScheduledReqs
  let scheduledCachedReqs ← p.makeCachedRequestData
  pure (p.outputData scheduledCachedReqs, p.afterOutput)

end SchedulePass

namespace Scheduler

variable (s : Scheduler H)

/-- `_free_encoder_inputs`: items whose tokens are all computed are not needed any more. -/
def freeEncoderInputs (requestId : RequestId) : Scheduler H :=
  let request := s.request requestId
  let passed := request.mmFeatures.filter fun f => f.stop ≤ request.numComputedTokens
  { s with encoderCacheManager :=
      passed.foldl (fun manager f => manager.freeEncoderInput requestId f) s.encoderCacheManager }

/-- `_update_after_schedule` on one request. With asynchronous scheduling, the tokens that the
step will sample get placeholders. Those for drafts are -1 in the source; a token id is a
natural number here, and only their number is read. -/
def updateAfterSchedule (numScheduledTokens : Int) (numSpecTokens : Nat) (requestId : RequestId) :
    Scheduler H :=
  let s := (s.modify requestId (Request.advance numScheduledTokens)).freeEncoderInputs requestId
  if s.config.asyncScheduling ∧ !(s.request requestId).isPrefillChunk then
    s.modify requestId fun r => { r with
      numOutputPlaceholders := r.numOutputPlaceholders + (1 + numSpecTokens)
      specTokenIds := List.replicate s.config.numSpecTokens 0 }
  else s

variable [DecidableEq H]

/-- The pass that a `schedule` call starts with. -/
def startPass : SchedulePass H where
  scheduler := { s with kvCacheManager := s.kvCacheManager.newStepStarts }
  tokenBudget := if s.pauseState = .pausedAll then 0 else s.config.maxNumScheduledTokens
  encoderComputeBudget := s.config.maxNumEncoderInputTokens

/-- Put the requests that were put off in a pass ahead of those skipped earlier. -/
def requeueSkipped (p : SchedulePass H) : SchedulePass H :=
  { p with scheduler := { p.scheduler with
      skippedWaiting := RequestQueue.prependRequests p.scheduler.config.policy p.scheduler.lt
        p.scheduler.skippedWaiting p.stepSkippedWaiting } }

/-- The part of `schedule` before the output is put together. -/
def schedulePass (inputs : ScheduleInputs) : Except SchedulerError (SchedulePass H) := do
  let p ← SchedulePass.runningLoop inputs s.running.length s.startPass
  let p ← p.recordLoras
  if p.preemptedReqs = [] ∧ s.pauseState = .unpaused then
    let p ← SchedulePass.waitingLoop inputs
      (p.scheduler.waiting.length + p.scheduler.skippedWaiting.length) p
    pure (requeueSkipped p)
  else pure p

/-- `_update_after_schedule`. -/
def updateAllAfterSchedule (out : SchedulerOutput) : Scheduler H :=
  { out.numScheduledTokens.entries.foldl (fun s e => s.updateAfterSchedule e.2
      ((out.scheduledSpecDecodeTokens.get? e.1).getD []).length e.1) s with
    finishedReqIds := [] }

/-- `schedule`. -/
def schedule (inputs : ScheduleInputs) :
    Except SchedulerError (SchedulerOutput × Scheduler H) := do
  let p ← s.schedulePass inputs
  let (out, s) ← p.output
  pure (out, s.updateAllAfterSchedule out)

end Scheduler

end Vllm
