import Vllm.Core.ScheduleRules

/-!
# Rules for the calls between steps

What an output does to one request and to the queues, what finishing a request and a new
request do, and a forced preemption; each said once.
-/

namespace Vllm

open Checked

variable {H : Type}

/-! ## One request -/

namespace Request

variable (env : HashEnv H) (blockSize maxModelLen : Nat) (asyncScheduling : Bool)

/-- A request that differs in the data that outputs change. -/
structure OutputFrame (r r' : Request H) : Prop where
  requestId : r'.requestId = r.requestId
  priority : r'.priority = r.priority
  arrivalTime : r'.arrivalTime = r.arrivalTime
  resumable : r'.resumable = r.resumable
  streamingQueue : r'.streamingQueue = r.streamingQueue
  mmFeatures : r'.mmFeatures = r.mmFeatures

/-- Rejecting drafts touches two counters. -/
theorem outputFrame_rejectDrafts (numDraftTokens numGenerated : Nat) (r : Request H) :
    OutputFrame r (r.rejectDrafts numDraftTokens numGenerated) :=
  ⟨rfl, rfl, rfl, rfl, rfl, rfl⟩

/-- Frames compose. -/
theorem OutputFrame.trans {r r' r'' : Request H} (h : OutputFrame r r') (h' : OutputFrame r' r'') :
    OutputFrame r r'' :=
  ⟨h'.requestId.trans h.requestId, h'.priority.trans h.priority,
    h'.arrivalTime.trans h.arrivalTime, h'.resumable.trans h.resumable,
    h'.streamingQueue.trans h.streamingQueue, h'.mmFeatures.trans h.mmFeatures⟩

/-- Appended tokens stay within the frame. -/
private theorem outputFrame_appendEach (r : Request H) (tokenIds : List TokenId) :
    OutputFrame r (r.appendEach env blockSize tokenIds) := by
  obtain ⟨blockHashes, heq⟩ := appendEach_eq env blockSize r tokenIds
  rw [heq]
  exact ⟨rfl, rfl, rfl, rfl, rfl, rfl⟩

/-- What an update with tokens keeps: it stops a request by finishing it. -/
structure Outcome (r : Request H) (result : Request H × List TokenId × Bool) : Prop where
  frame : OutputFrame r result.1
  status : result.2.2 = false → result.1.status = r.status
  finished : result.2.2 = true → result.1.status.isFinished

/-- Filling in sampled tokens stays within the frame. -/
private theorem outcome_fillOutput (tokenIds : List TokenId) (r : Request H) :
    Outcome r (r.fillOutput env blockSize maxModelLen asyncScheduling tokenIds) := by
  unfold fillOutput
  split
  · refine ⟨⟨rfl, rfl, rfl, rfl, rfl, rfl⟩, fun _ => ?_, fun h => ?_⟩
    · rfl
    · cases h
  · have hframe (tokens : List TokenId) := outputFrame_appendEach env blockSize r tokens
    rcases updateWithOutput_cases env blockSize r maxModelLen tokenIds with
      ⟨-, heq⟩ | ⟨m, status, stopReason, -, -, -, hstop, heq⟩
    · simp only [heq]
      have hframe := hframe tokenIds
      refine ⟨⟨hframe.1, hframe.2, hframe.3, hframe.4, hframe.5, hframe.6⟩, fun _ => ?_,
        fun h => ?_⟩
      · obtain ⟨blockHashes, happend⟩ := appendEach_eq env blockSize r tokenIds
        rw [happend]
      · cases h
    · simp only [heq]
      have hframe := hframe (tokenIds.take m)
      refine ⟨⟨hframe.1, hframe.2, hframe.3, hframe.4, hframe.5, hframe.6⟩, fun h => ?_,
        fun _ => isFinished_of_checkStop hstop⟩
      cases h

/-- The output of a step stays within the frame. -/
theorem outcome_takeOutput (numDraftTokens : Nat) (generated : List TokenId)
    (poolerOutput : Bool) (r : Request H) :
    Outcome r (r.takeOutput env blockSize maxModelLen asyncScheduling numDraftTokens generated
      poolerOutput) := by
  unfold takeOutput
  by_cases hsome : generated ≠ []
  · have hreject : OutputFrame r (if numDraftTokens ≠ 0 ∧ generated ≠ [] then
        r.rejectDrafts numDraftTokens generated.length else r) ∧
        (if numDraftTokens ≠ 0 ∧ generated ≠ [] then
          r.rejectDrafts numDraftTokens generated.length else r).status = r.status := by
      split
      · exact ⟨outputFrame_rejectDrafts _ _ r, rfl⟩
      · exact ⟨⟨rfl, rfl, rfl, rfl, rfl, rfl⟩, rfl⟩
    simp only [if_pos hsome]
    have hfill := outcome_fillOutput env blockSize maxModelLen asyncScheduling generated
      (if numDraftTokens ≠ 0 ∧ generated ≠ [] then
        r.rejectDrafts numDraftTokens generated.length else r)
    exact ⟨hreject.1.trans hfill.frame, fun h => (hfill.status h).trans hreject.2, hfill.finished⟩
  · have hreject : (if numDraftTokens ≠ 0 ∧ generated ≠ [] then
        r.rejectDrafts numDraftTokens generated.length else r) = r :=
      if_neg fun h => hsome h.2
    simp only [if_neg hsome, hreject]
    by_cases hpooled : r.pooling ∧ poolerOutput
    · rw [if_pos hpooled]
      refine ⟨⟨rfl, rfl, rfl, rfl, rfl, rfl⟩, fun h => ?_, fun _ => rfl⟩
      cases h
    · rw [if_neg hpooled]
      refine ⟨⟨rfl, rfl, rfl, rfl, rfl, rfl⟩, fun _ => rfl, fun h => ?_⟩
      cases h

end Request

namespace Scheduler

variable {s s' : Scheduler H} {env : HashEnv H} {requestId : RequestId}

/-! ## Outputs -/

/-- The request part of an output. -/
def takenOutput (s : Scheduler H) (env : HashEnv H) (out : SchedulerOutput)
    (model : ModelRunnerOutput) (requestId : RequestId) : Request H × List TokenId × Bool :=
  (s.request requestId).takeOutput env s.hashBlockSize s.config.maxModelLen
    s.config.asyncScheduling ((out.scheduledSpecDecodeTokens.get? requestId).getD []).length
    (model.sampledTokenIds requestId) (model.poolerOutput requestId)

/-- An output changes its request and the block cache. -/
theorem takeOutput_eq_ok [DecidableEq H] {out : SchedulerOutput} {model : ModelRunnerOutput}
    {newTokenIds : List TokenId} {stopped : Bool}
    (h : s.takeOutput env out model requestId = .ok (s', newTokenIds, stopped)) :
    (newTokenIds, stopped) = (s.takenOutput env out model requestId).2 ∧ ∃ kv,
      s' = { s.modify requestId (fun _ => (s.takenOutput env out model requestId).1) with
        kvCacheManager := kv } ∧
      (kv = s.kvCacheManager ∨ s.kvCacheManager.cacheBlocks
        (s.takenOutput env out model requestId).1
        (s.takenOutput env out model requestId).1.numFinalTokens = .ok kv) := by
  unfold takenOutput
  simp only [takeOutput] at h
  generalize (s.request requestId).takeOutput env s.hashBlockSize s.config.maxModelLen
    s.config.asyncScheduling ((out.scheduledSpecDecodeTokens.get? requestId).getD []).length
    (model.sampledTokenIds requestId) (model.poolerOutput requestId) = result at h ⊢
  obtain ⟨updated, tokens, stop⟩ := result
  simp only at h ⊢
  split at h
  · simp only [bind_ok_iff] at h
    obtain ⟨_, -, h⟩ := h
    split at h
    · simp only [bind_ok_iff, mapError_ok_iff, pure_ok_iff, Prod.mk.injEq] at h
      obtain ⟨kv, hkv, rfl, rfl, rfl⟩ := h
      exact ⟨rfl, kv, rfl, Or.inr hkv⟩
    · simp only [pure_ok_iff, Prod.mk.injEq] at h
      obtain ⟨rfl, rfl, rfl⟩ := h
      exact ⟨rfl, _, rfl, Or.inl rfl⟩
  · simp only [Except.ok.injEq, Prod.mk.injEq] at h
    obtain ⟨rfl, rfl, rfl⟩ := h
    exact ⟨rfl, _, rfl, Or.inl rfl⟩

/-! ## Stopped requests -/

section Enqueue

variable (s : Scheduler H) (requestId : RequestId)

@[simp] theorem enqueueWaitingRequest_request :
    (s.enqueueWaitingRequest requestId).request = s.request := setQueue_request ..

@[simp] theorem enqueueWaitingRequest_requests :
    (s.enqueueWaitingRequest requestId).requests = s.requests := setQueue_requests ..

@[simp] theorem enqueueWaitingRequest_running :
    (s.enqueueWaitingRequest requestId).running = s.running := setQueue_running ..

@[simp] theorem enqueueWaitingRequest_config :
    (s.enqueueWaitingRequest requestId).config = s.config := setQueue_config ..

@[simp] theorem enqueueWaitingRequest_kvCacheManager :
    (s.enqueueWaitingRequest requestId).kvCacheManager = s.kvCacheManager :=
  setQueue_kvCacheManager ..

/-- A request that is not blocked joins `waiting`, -/
theorem enqueueWaitingRequest_of_not_blocked
    (h : (s.request requestId).status.isBlockedWaiting = false) :
    s.enqueueWaitingRequest requestId =
      { s with waiting := RequestQueue.addRequest s.config.policy s.lt s.waiting requestId } := by
  simp only [enqueueWaitingRequest, h, Bool.false_eq_true, if_false]
  rfl

/-- and a blocked one joins `skipped_waiting`. -/
theorem enqueueWaitingRequest_of_blocked
    (h : (s.request requestId).status.isBlockedWaiting = true) :
    s.enqueueWaitingRequest requestId =
      { s with skippedWaiting :=
          RequestQueue.addRequest s.config.policy s.lt s.skippedWaiting requestId } := by
  simp only [enqueueWaitingRequest, h, if_true]
  rfl

end Enqueue

/-- Of two changes of one request only the second is seen. -/
theorem modify_modify (s : Scheduler H) (requestId : RequestId) (f g : Request H → Request H) :
    (s.modify requestId f).modify requestId g = s.modify requestId fun r => g (f r) := by
  simp only [modify, Function.update_self, Function.update_idem]

/-- A change to what a request is changes nothing. -/
theorem modify_eq_self (s : Scheduler H) (requestId : RequestId) {f : Request H → Request H}
    (h : f (s.request requestId) = s.request requestId) : s.modify requestId f = s := by
  simp only [modify, h, Function.update_eq_self]

/-- The scheduler with a session at its next chunk. -/
def withSession (s : Scheduler H) (requestId : RequestId) (session : Request H) : Scheduler H :=
  { s.modify requestId (fun _ => session) with
    numWaitingForStreamingInput :=
      if (s.request requestId).status = .waitingForStreamingReq then
        s.numWaitingForStreamingInput - 1
      else s.numWaitingForStreamingInput }

/-- The scheduler with a session that waits for its next chunk. -/
def withIdleSession (s : Scheduler H) (requestId : RequestId) : Scheduler H :=
  { s.modify requestId (fun r => { r with status := .waitingForStreamingReq }) with
    numWaitingForStreamingInput := s.numWaitingForStreamingInput + 1 }

/-- A chunk changes the request of its session and the count of waiting sessions. -/
theorem updateRequestAsSession_eq_ok {update : StreamingUpdate}
    (h : s.updateRequestAsSession env requestId update = .ok s') : ∃ session,
      (s.request requestId).updateAsSession env s.hashBlockSize update = some session ∧
      s' = s.withSession requestId session := by
  unfold updateRequestAsSession at h
  split at h
  · cases h
  · rename_i session hsession
    exact ⟨session, hsession, (Except.ok.inj h).symm⟩

/-- A session at its next chunk waits to be scheduled. -/
theorem status_of_updateAsSession {blockSize : Nat} {r session : Request H}
    {update : StreamingUpdate} (h : r.updateAsSession env blockSize update = some session) :
    session.status = .waiting := by
  simp only [Request.updateAsSession, Option.bind_eq_bind, Option.bind_eq_some_iff,
    Option.some.injEq] at h
  obtain ⟨_, -, rfl⟩ := h
  rfl

end Scheduler

/-- A chunk is queued with which a stopped session goes on. -/
def Request.hasNextChunk (r : Request H) : Bool :=
  match r.streamingQueue.getD [] with
  | some _ :: _ => r.resumable
  | _ => false

namespace Scheduler

variable {s s' : Scheduler H} {env : HashEnv H} {requestId : RequestId}

/-- A stopped request is finished, or a session that goes on with its next chunk or waits for
one. -/
theorem handleStoppedRequest_cases {finished : Bool}
    (h : s.handleStoppedRequest env requestId = .ok (finished, s')) :
    (finished = true ∧ (s.request requestId).hasNextChunk = false ∧ ∃ queue,
      s' = s.modify requestId fun r => { r with streamingQueue := queue }) ∨
    (finished = false ∧ (s.request requestId).hasNextChunk = true ∧ ∃ rest update session,
      Request.updateAsSession env s.hashBlockSize
        { s.request requestId with streamingQueue := some rest } update = some session ∧
      s' = (s.withSession requestId session).enqueueWaitingRequest requestId) ∨
    finished = false ∧ (s.request requestId).hasNextChunk = false ∧
      (s.request requestId).resumable = true ∧
      s' = (s.withIdleSession requestId).enqueueWaitingRequest requestId := by
  unfold handleStoppedRequest at h
  simp only at h
  split at h
  · rename_i hresumable
    obtain ⟨rfl, rfl⟩ := Prod.mk.inj (Except.ok.inj h)
    refine Or.inl ⟨rfl, ?_, (s.request requestId).streamingQueue, (modify_eq_self s _ rfl).symm⟩
    unfold Request.hasNextChunk
    split
    · simpa using hresumable
    · rfl
  rename_i hresumable
  split at h
  · rename_i rest hqueue
    obtain ⟨rfl, rfl⟩ := Prod.mk.inj (Except.ok.inj h)
    exact Or.inl ⟨rfl, by rw [Request.hasNextChunk, hqueue], some rest, rfl⟩
  · rename_i update rest hqueue
    simp only [bind_ok_iff, pure_ok_iff, Prod.mk.injEq] at h
    obtain ⟨s₁, hupdate, rfl, rfl⟩ := h
    obtain ⟨session, hsession, rfl⟩ := updateRequestAsSession_eq_ok hupdate
    simp only [modify_request, if_true] at hsession
    refine Or.inr (Or.inl ⟨rfl, ?_, rest, update, session, hsession, ?_⟩)
    · rw [Request.hasNextChunk, hqueue]
      simpa using hresumable
    · simp only [withSession, modify_modify, modify_request, if_true]
      rfl
  · rename_i hqueue
    obtain ⟨rfl, rfl⟩ := Prod.mk.inj (Except.ok.inj h)
    exact Or.inr (Or.inr ⟨rfl, by rw [Request.hasNextChunk, hqueue], by simpa using hresumable,
      rfl⟩)

/-! ## Finished requests -/

/-- A freed request holds nothing and is forgotten. -/
theorem freeRequest_eq_ok (h : s.freeRequest requestId = .ok s') :
    (s.request requestId).status.isFinished = true ∧ ∃ kv,
      s.kvCacheManager.free requestId = .ok kv ∧ s' = { s with
        kvCacheManager := kv
        encoderCacheManager :=
          s.encoderCacheManager.free requestId (s.request requestId).mmFeatures
        finishedReqIds :=
          if requestId ∈ s.finishedReqIds then s.finishedReqIds
          else s.finishedReqIds ++ [requestId]
        requests := s.requests.erase requestId } := by
  simp only [freeRequest, bind_ok_iff, ensure_eq_ok, mapError_ok_iff, pure_ok_iff] at h
  obtain ⟨_, hfinished, kv, hkv, rfl⟩ := h
  exact ⟨hfinished, kv, hkv, rfl⟩

/-- Only a finished request is freed. -/
theorem freeIf_cases {finished : Bool} (h : s.freeIf finished requestId = .ok s') :
    (finished = true ∧ s.freeRequest requestId = .ok s') ∨ finished = false ∧ s' = s := by
  unfold freeIf at h
  split at h
  · rename_i hfinished
    exact Or.inl ⟨hfinished, h⟩
  · rename_i hfinished
    exact Or.inr ⟨by simpa using hfinished, (Except.ok.inj h).symm⟩

/-- Finishing a request sets its status and frees it. -/
theorem finishRequest_eq_ok {finishedStatus : RequestStatus}
    (h : s.finishRequest finishedStatus requestId = .ok s') : ∃ kv,
      s.kvCacheManager.free requestId = .ok kv ∧
      s' = { s.modify requestId (fun r => { r with status := finishedStatus }) with
        kvCacheManager := kv
        encoderCacheManager :=
          s.encoderCacheManager.free requestId (s.request requestId).mmFeatures
        finishedReqIds :=
          if requestId ∈ s.finishedReqIds then s.finishedReqIds
          else s.finishedReqIds ++ [requestId]
        requests := s.requests.erase requestId } := by
  obtain ⟨-, kv, hkv, rfl⟩ := freeRequest_eq_ok h
  refine ⟨kv, hkv, ?_⟩
  simp only [modify_request, if_true]
  rfl

/-- The requests that `finish_requests` finds to finish. -/
def toFinish (s : Scheduler H) (requestIds : Option (List RequestId)) : List RequestId :=
  (requestIds.getD s.requests).dedup.filter s.isUnfinished

/-- The scheduler with requests out of its queues. -/
def withoutQueued (s : Scheduler H) (valid : List RequestId) : Scheduler H :=
  let waitingToRemove := valid.filter fun requestId => (s.request requestId).status ≠ .running
  let s := { s with
    numWaitingForStreamingInput := s.numWaitingForStreamingInput -
      valid.countP fun requestId => (s.request requestId).status = .waitingForStreamingReq
    running := removeAll s.running
      (valid.filter fun requestId => (s.request requestId).status = .running) }
  if waitingToRemove = [] then s
  else (s.removeWaiting waitingToRemove .waiting).removeWaiting waitingToRemove .skippedWaiting

/-- Finishing requests first takes them out of the queues and then frees them. -/
theorem finishRequests_eq_ok {requestIds : Option (List RequestId)}
    {finishedStatus : RequestStatus}
    (h : s.finishRequests requestIds finishedStatus = .ok s') :
    finishedStatus.isFinished = true ∧
      (s.toFinish requestIds).foldlM
        (fun s requestId => s.finishRequest finishedStatus requestId)
        (s.withoutQueued (s.toFinish requestIds)) = .ok s' := by
  simp only [finishRequests, bind_ok_iff, ensure_eq_ok] at h
  obtain ⟨_, hfinished, h⟩ := h
  exact ⟨hfinished, h⟩

/-! ## New requests -/

/-- The scheduler with a new request. -/
def withNew (s : Scheduler H) (request : Request H) : Scheduler H :=
  { (s.modify request.requestId fun _ =>
      if request.resumable then { request with streamingQueue := some [] }
      else request).enqueueWaitingRequest request.requestId with
    requests := s.requests ++ [request.requestId] }

/-- A request for a known id is queued for its session, goes to it or ends it; any other is a
new one. -/
theorem addRequest_cases {request : Request H} (h : s.addRequest env request = .ok s') :
    (request.requestId ∈ s.requests ∧ ∃ queue,
      s' = s.modify request.requestId fun r => { r with streamingQueue := some queue }) ∨
    (request.requestId ∈ s.requests ∧
      (s.request request.requestId).status = .waitingForStreamingReq ∧
      ((∃ update, StreamingUpdate.fromRequest request = some update ∧ ∃ session,
        (s.request request.requestId).updateAsSession env s.hashBlockSize update =
          some session ∧ s' = s.withSession request.requestId session) ∨
        s.finishRequests (some [request.requestId]) .finishedAborted = .ok s')) ∨
    request.requestId ∉ s.requests ∧ s' = s.withNew request := by
  unfold addRequest at h
  simp only at h
  split at h
  · rename_i hmem
    split at h
    · split at h
      · cases h
      · exact Or.inl ⟨hmem, _, (Except.ok.inj h).symm⟩
    · rename_i hstatus
      refine Or.inr (Or.inl ⟨hmem, not_not.mp hstatus, ?_⟩)
      split at h
      · rename_i update hupdate
        exact Or.inl ⟨update, hupdate, updateRequestAsSession_eq_ok h⟩
      · exact Or.inr h
  · rename_i hmem
    refine Or.inr (Or.inr ⟨hmem, (Except.ok.inj h).symm.trans ?_⟩)
    unfold withNew
    by_cases hresumable : request.resumable <;> simp [hresumable]

/-! ## Resets -/

/-- A forced preemption is one of the last running request, whose output is to be dropped. -/
theorem forcePreempt_eq_ok (h : s.forcePreempt requestId = .ok s') : ∃ s₁,
    { s with running := s.running.dropLast }.preemptRequest requestId = .ok s₁ ∧
      s' = s₁.modify requestId fun r => { r with
        numOutputPlaceholders := 0
        discardLatestAsyncTokens := true } := by
  simp only [forcePreempt, bind_ok_iff, pure_ok_iff] at h
  obtain ⟨s₁, hpreempt, rfl⟩ := h
  exact ⟨s₁, hpreempt, rfl⟩

/-- A reset may preempt the running requests, and then resets the block cache. -/
theorem resetPrefixCache_eq_ok {resetRunningRequests resetSuccessful : Bool}
    (h : s.resetPrefixCache resetRunningRequests = .ok (resetSuccessful, s')) :
    ∃ s₁, ((resetRunningRequests = true ∧
        s.running.reverse.foldlM (fun s requestId => s.forcePreempt requestId) s = .ok s₁) ∨
      resetRunningRequests = false ∧ s₁ = s) ∧ ∃ prev,
      (resetRunningRequests = false → prev = s.prevStepScheduledReqIds) ∧
      s' = { s₁ with
        prevStepScheduledReqIds := prev
        kvCacheManager := s₁.kvCacheManager.resetPrefixCache.2 } := by
  simp only [resetPrefixCache, bind_ok_iff, ensure_eq_ok, pure_ok_iff, Prod.mk.injEq] at h
  obtain ⟨s₁, hpreempt, _, -, -, rfl⟩ := h
  unfold forcePreemptIf at hpreempt
  split at hpreempt
  · rename_i hreset
    simp only [forcePreemptAll, bind_ok_iff, pure_ok_iff] at hpreempt
    obtain ⟨s₂, hfold, rfl⟩ := hpreempt
    exact ⟨s₂, Or.inl ⟨hreset, hfold⟩, [], fun h => absurd hreset (by simp [h]), rfl⟩
  · rename_i hreset
    obtain rfl := Except.ok.inj hpreempt
    exact ⟨s, Or.inr ⟨by simpa using hreset, rfl⟩, _, fun _ => rfl, rfl⟩

/-! ## Outputs of a step -/

variable [DecidableEq H]

/-- The output of one request leaves the pass, changes the request or stops it. -/
theorem updateOne_cases {out : SchedulerOutput} {model : ModelRunnerOutput}
    {u u' : UpdatePass H} {e : RequestId × Int} (h : updateOne env out model u e = .ok u') :
    0 < e.2 ∧ ((u.scheduler.isUnfinished e.1 = false ∧ u' = u) ∨
      u.scheduler.isUnfinished e.1 = true ∧ ∃ s newTokenIds stopped,
        u.scheduler.takeOutput env out model e.1 = .ok (s, newTokenIds, stopped) ∧
        ((stopped = false ∧ ∃ outputs, u' = { u with scheduler := s, outputs }) ∨
          stopped = true ∧ ∃ finished s₁ s₂ outputs,
            s.handleStoppedRequest env e.1 = .ok (finished, s₁) ∧
            s₁.freeIf finished e.1 = .ok s₂ ∧
            u' = {
              scheduler := s₂
              outputs
              stoppedRunningReqs :=
                if (u.scheduler.request e.1).status = .running then
                  u.stoppedRunningReqs ++ [e.1]
                else u.stoppedRunningReqs
              stoppedPreemptedReqs :=
                if (u.scheduler.request e.1).status = .running then u.stoppedPreemptedReqs
                else u.stoppedPreemptedReqs ++ [e.1] })) := by
  simp only [updateOne, bind_ok_iff, ensure_eq_ok] at h
  obtain ⟨_, hpos, h⟩ := h
  refine ⟨hpos, ?_⟩
  split at h
  · rename_i hgone
    exact Or.inl ⟨by simpa using hgone, (pure_ok_iff.mp h).symm⟩
  rename_i hlive
  simp only [bind_ok_iff, Prod.exists] at h
  obtain ⟨s, newTokenIds, stopped, htake, h⟩ := h
  refine Or.inr ⟨by simpa using hlive, s, newTokenIds, stopped, htake, ?_⟩
  cases stopped with
  | false =>
    simp only [Bool.not_false, if_true, pure_ok_iff] at h
    exact Or.inl ⟨rfl, _, h.symm⟩
  | true =>
    simp only [Bool.not_true, Bool.false_eq_true, if_false, bind_ok_iff, Prod.exists,
      pure_ok_iff] at h
    obtain ⟨finished, s₁, hstopped, s₂, hfree, rfl⟩ := h
    exact Or.inr ⟨rfl, finished, s₁, s₂, _, hstopped, hfree, rfl⟩

/-- The scheduler with the output of a request in it. -/
def withTaken (s : Scheduler H) (requestId : RequestId) (updated : Request H)
    (kv : KVCacheManager H) : Scheduler H :=
  { s.modify requestId (fun _ => updated) with kvCacheManager := kv }

/-- The scheduler without a finished request. -/
def withFreed (s : Scheduler H) (requestId : RequestId)
    (queue : Option (List (Option StreamingUpdate))) (kv : KVCacheManager H) : Scheduler H :=
  { s.modify requestId (fun r => { r with streamingQueue := queue }) with
    kvCacheManager := kv
    encoderCacheManager :=
      s.encoderCacheManager.free requestId (s.request requestId).mmFeatures
    finishedReqIds :=
      if requestId ∈ s.finishedReqIds then s.finishedReqIds
      else s.finishedReqIds ++ [requestId]
    requests := s.requests.erase requestId }

/-- The pass with a request stopped. -/
def UpdatePass.stop (u : UpdatePass H) (requestId : RequestId) (s : Scheduler H)
    (outputs : List EngineCoreOutput) : UpdatePass H where
  scheduler := s
  outputs
  stoppedRunningReqs :=
    if (u.scheduler.request requestId).status = .running then
      u.stoppedRunningReqs ++ [requestId]
    else u.stoppedRunningReqs
  stoppedPreemptedReqs :=
    if (u.scheduler.request requestId).status = .running then u.stoppedPreemptedReqs
    else u.stoppedPreemptedReqs ++ [requestId]

/-- What becomes of a stopped request: it is finished, goes on with its next chunk or waits for
one. -/
inductive Stopped (env : HashEnv H) (s : Scheduler H) (requestId : RequestId) :
    Scheduler H → Prop
  | finished (queue : Option (List (Option StreamingUpdate))) (kv : KVCacheManager H)
      (hnext : (s.request requestId).hasNextChunk = false)
      (hfinished : (s.request requestId).status.isFinished = true)
      (hkv : s.kvCacheManager.free requestId = .ok kv) :
      Stopped env s requestId (s.withFreed requestId queue kv)
  | nextChunk (rest : List (Option StreamingUpdate)) (update : StreamingUpdate)
      (session : Request H) (hnext : (s.request requestId).hasNextChunk = true)
      (hsession : Request.updateAsSession env s.hashBlockSize
        { s.request requestId with streamingQueue := some rest } update = some session) :
      Stopped env s requestId ((s.withSession requestId session).enqueueWaitingRequest requestId)
  | idle (hnext : (s.request requestId).hasNextChunk = false)
      (hresumable : (s.request requestId).resumable = true) :
      Stopped env s requestId ((s.withIdleSession requestId).enqueueWaitingRequest requestId)

omit [DecidableEq H] in
/-- A stopped request is freed if it is finished. -/
theorem stopped_of_handle {s₁ s₂ : Scheduler H} {finished : Bool}
    (hhandle : s.handleStoppedRequest env requestId = .ok (finished, s₁))
    (hfree : s₁.freeIf finished requestId = .ok s₂) : Stopped env s requestId s₂ := by
  rcases handleStoppedRequest_cases hhandle with
    ⟨rfl, hnext, queue, rfl⟩ | ⟨rfl, hnext, rest, update, session, hsession, rfl⟩ |
      ⟨rfl, hnext, hresumable, rfl⟩
  · obtain ⟨-, hfree⟩ | ⟨hfalse, -⟩ := freeIf_cases hfree
    · obtain ⟨hfinished, kv, hkv, rfl⟩ := freeRequest_eq_ok hfree
      simp only [modify_request, if_true] at hfinished
      have hfreed : Stopped env s requestId (s.withFreed requestId queue kv) :=
        Stopped.finished queue kv hnext hfinished hkv
      convert hfreed using 1
      simp only [modify_request, if_true]
      rfl
    · cases hfalse
  · obtain ⟨hfalse, -⟩ | ⟨-, rfl⟩ := freeIf_cases hfree
    · cases hfalse
    · exact Stopped.nextChunk rest update session hnext hsession
  · obtain ⟨hfalse, -⟩ | ⟨-, rfl⟩ := freeIf_cases hfree
    · cases hfalse
    · exact Stopped.idle hnext hresumable

/-- What the output of one request does: nothing for a request that is gone, and otherwise it
changes the request and may stop it. -/
theorem updateOne_effect {out : SchedulerOutput} {model : ModelRunnerOutput}
    {u u' : UpdatePass H} {e : RequestId × Int} (h : updateOne env out model u e = .ok u') :
    (u.scheduler.isUnfinished e.1 = false ∧ u' = u) ∨
      u.scheduler.isUnfinished e.1 = true ∧ ∃ kv outputs,
        (kv = u.scheduler.kvCacheManager ∨ u.scheduler.kvCacheManager.cacheBlocks
          (u.scheduler.takenOutput env out model e.1).1
          (u.scheduler.takenOutput env out model e.1).1.numFinalTokens = .ok kv) ∧
        (((u.scheduler.takenOutput env out model e.1).2.2 = false ∧
            u' = { u with
              scheduler :=
                u.scheduler.withTaken e.1 (u.scheduler.takenOutput env out model e.1).1 kv
              outputs }) ∨
          (u.scheduler.takenOutput env out model e.1).2.2 = true ∧ ∃ s,
            Stopped env
              (u.scheduler.withTaken e.1 (u.scheduler.takenOutput env out model e.1).1 kv)
              e.1 s ∧ u' = u.stop e.1 s outputs) := by
  obtain ⟨-, hgone | ⟨hlive, s, newTokenIds, stopped, htake, hrest⟩⟩ := updateOne_cases h
  · exact Or.inl hgone
  obtain ⟨hresult, kv, rfl, hkv⟩ := takeOutput_eq_ok htake
  have hstopped : (u.scheduler.takenOutput env out model e.1).2.2 = stopped := by rw [← hresult]
  refine Or.inr ⟨hlive, kv, u'.outputs, hkv, ?_⟩
  rcases hrest with ⟨rfl, outputs, rfl⟩ | ⟨rfl, finished, s₁, s₂, outputs, hhandle, hfree, rfl⟩
  · exact Or.inl ⟨hstopped, rfl⟩
  · exact Or.inr ⟨hstopped, s₂, stopped_of_handle hhandle hfree, rfl⟩

/-- The outputs of a step are taken one after another, and then the stopped requests leave
their queues. -/
theorem updateFromOutput_eq_ok {out : SchedulerOutput} {model : ModelRunnerOutput}
    {outputs : List EngineCoreOutput}
    (h : s.updateFromOutput env out model = .ok (outputs, s')) : ∃ u,
      out.numScheduledTokens.entries.foldlM (updateOne env out model) { scheduler := s } =
        .ok u ∧ outputs = u.outputs ∧ s' = u.finish := by
  simp only [updateFromOutput, bind_ok_iff, pure_ok_iff, Prod.mk.injEq] at h
  obtain ⟨u, hfold, rfl, rfl⟩ := h
  exact ⟨u, hfold, rfl, rfl⟩

end Scheduler

end Vllm
