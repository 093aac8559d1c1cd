import Vllm.Core.LengthLimits

/-!
# Length limits along runs

Only what comes in and the outputs of a step make a request longer: every other call keeps the
lengths of all requests. So along a run whose requests and outputs fit, every request that
generates is within its limits.
-/

namespace Vllm

open Checked

variable {H : Type}

/-- A request that generates did so before, with the same lengths and the same limit. -/
def Request.SameLengths (r r' : Request H) : Prop :=
  r'.Generating → r.Generating ∧ r'.numTokens = r.numTokens ∧
    r'.numOutputTokens = r.numOutputTokens ∧ r'.maxTokens = r.maxTokens

namespace Scheduler

/-- What all calls keep but those that bring tokens in. -/
structure KeepsLengths (s s' : Scheduler H) : Prop where
  config : s'.config = s.config
  requests : ∀ r ∈ s'.requests, r ∈ s.requests
  lengths : ∀ r, (s.request r).SameLengths (s'.request r)

namespace KeepsLengths

variable {s s₁ s₂ s' : Scheduler H} {requestId : RequestId}

theorem refl (s : Scheduler H) : KeepsLengths s s :=
  ⟨rfl, fun _ hr => hr, fun _ hgen => ⟨hgen, rfl, rfl, rfl⟩⟩

theorem trans (h : KeepsLengths s s₁) (h' : KeepsLengths s₁ s₂) : KeepsLengths s s₂ := by
  refine ⟨h'.config.trans h.config, fun r hr => h.requests r (h'.requests r hr), ?_⟩
  intro r hgen
  obtain ⟨hgen₁, htokens₁, houtput₁, hmax₁⟩ := h'.lengths r hgen
  obtain ⟨hgen₀, htokens, houtput, hmax⟩ := h.lengths r hgen₁
  exact ⟨hgen₀, htokens₁.trans htokens, houtput₁.trans houtput, hmax₁.trans hmax⟩

/-- A change of what is none of the requests. -/
theorem of_same (hconfig : s'.config = s.config) (hrequests : s'.requests = s.requests)
    (hrequest : s'.request = s.request) : KeepsLengths s s' := by
  refine ⟨hconfig, fun r hr => hrequests ▸ hr, fun r hgen => ?_⟩
  rw [hrequest] at hgen ⊢
  exact ⟨hgen, rfl, rfl, rfl⟩

end KeepsLengths

open KeepsLengths

section Calls

variable {s s' : Scheduler H} {requestId : RequestId}

/-- A change of one request that keeps its lengths. -/
theorem keepsLengths_modify (s : Scheduler H) (requestId : RequestId) {f : Request H → Request H}
    (hf : (s.request requestId).SameLengths (f (s.request requestId))) :
    KeepsLengths s (s.modify requestId f) := by
  refine ⟨rfl, fun _ hr => hr, fun r hgen => ?_⟩
  rw [modify_request] at hgen ⊢
  split at hgen
  · rename_i heq
    rw [if_pos heq, heq]
    exact hf hgen
  · rename_i hne
    rw [if_neg hne]
    exact ⟨hgen, rfl, rfl, rfl⟩

/-- A request that generates with a status of its own, and is otherwise the same. -/
theorem sameLengths_of_status {r r' : Request H} (hunfinished : r.status.isFinished = false)
    (hparked : r.status ≠ .waitingForStreamingReq) (hpooling : r'.pooling = r.pooling)
    (htokens : r'.allTokenIds = r.allTokenIds) (houtput : r'.outputTokenIds = r.outputTokenIds)
    (hmax : r'.maxTokens = r.maxTokens) : r.SameLengths r' := fun hgen =>
  ⟨⟨hunfinished, hparked, hpooling ▸ hgen.notPooling⟩, congrArg List.length htokens,
    congrArg List.length houtput, hmax⟩

/-- A preemption keeps the lengths. -/
theorem keepsLengths_preemptRequest (h : s.preemptRequest requestId = .ok s') :
    KeepsLengths s s' := by
  obtain ⟨hstatus, kv, -, rfl⟩ := preemptRequest_eq_ok h
  have hmodify := keepsLengths_modify s requestId (f := fun r => { r with
      status := .preempted
      numComputedTokens := 0
      specTokenIds := []
      numPreemptions := r.numPreemptions + 1 })
    (sameLengths_of_status (by rw [hstatus]; rfl) (by rw [hstatus]; decide) rfl rfl rfl rfl)
  exact hmodify.trans (of_same rfl rfl rfl)

/-- A request that is set aside for good does not generate. -/
private theorem keepsLengths_finishRequest {finishedStatus : RequestStatus}
    (hstatus : finishedStatus.isFinished = true)
    (h : s.finishRequest finishedStatus requestId = .ok s') : KeepsLengths s s' := by
  obtain ⟨kv, -, rfl⟩ := finishRequest_eq_ok h
  have hmodify := keepsLengths_modify s requestId
    (f := fun r => { r with status := finishedStatus }) fun hgen => by
      have hlive := hgen.unfinished
      rw [hstatus] at hlive
      cases hlive
  exact ⟨rfl, fun r hr => List.mem_of_mem_erase hr, hmodify.lengths⟩

/-- Finishing requests keeps the lengths of the others. -/
theorem keepsLengths_finishRequests {requestIds : Option (List RequestId)}
    {finishedStatus : RequestStatus}
    (h : s.finishRequests requestIds finishedStatus = .ok s') : KeepsLengths s s' := by
  obtain ⟨hstatus, hfold⟩ := finishRequests_eq_ok h
  have hqueues : KeepsLengths s (s.withoutQueued (s.toFinish requestIds)) := by
    unfold withoutQueued
    simp only
    split
    · exact of_same rfl rfl rfl
    · exact of_same rfl rfl rfl
  exact foldlM_rule (I := fun s₁ _ => KeepsLengths s s₁)
    (fun _ _ _ _ h hone => h.trans (keepsLengths_finishRequest hstatus hone)) hqueues hfold

/-- A reset keeps the lengths, as a preempted request keeps its tokens. -/
theorem keepsLengths_resetPrefixCache {reset done : Bool}
    (h : s.resetPrefixCache reset = .ok (done, s')) :
    KeepsLengths s s' := by
  obtain ⟨s₁, hs₁, prev, -, rfl⟩ := resetPrefixCache_eq_ok h
  have hpreempted : KeepsLengths s s₁ := by
    rcases hs₁ with ⟨-, hfold⟩ | ⟨-, rfl⟩
    · refine foldlM_rule (I := fun s₁ _ => KeepsLengths _ s₁) ?_ (KeepsLengths.refl _) hfold
      intro s₁ requestId _ s₂ hkeeps hpreempt
      obtain ⟨s₃, hs₃, rfl⟩ := forcePreempt_eq_ok hpreempt
      have hqueue : KeepsLengths s₁ { s₁ with running := s₁.running.dropLast } :=
        of_same rfl rfl rfl
      refine (hkeeps.trans (hqueue.trans (keepsLengths_preemptRequest hs₃))).trans
        (keepsLengths_modify s₃ requestId ?_)
      exact fun hgen => ⟨⟨hgen.1, hgen.2, hgen.3⟩, rfl, rfl, rfl⟩
    · exact KeepsLengths.refl _
  exact hpreempted.trans (of_same rfl rfl rfl)

/-- Drafts keep the lengths. -/
theorem keepsLengths_updateDraftTokenIds (draftTokenIds : List (RequestId × List TokenId)) :
    KeepsLengths s (s.updateDraftTokenIds draftTokenIds) := by
  unfold updateDraftTokenIds
  induction draftTokenIds generalizing s with
  | nil => exact refl s
  | cons e draftTokenIds ih =>
    rw [List.foldl_cons]
    refine trans ?_ ih
    split
    · refine keepsLengths_modify s e.1 ?_
      unfold Request.setDraftTokenIds
      split
      · exact fun hgen => ⟨hgen, rfl, rfl, rfl⟩
      · split <;> exact fun hgen => ⟨⟨hgen.1, hgen.2, hgen.3⟩, rfl, rfl, rfl⟩
    · exact refl s

end Calls

/-! ## A schedule call -/

section Schedule

variable {s s' : Scheduler H} {inputs : ScheduleInputs}

/-- Advancing requests keeps their lengths. -/
theorem keepsLengths_updateAllAfterSchedule (s : Scheduler H) (out : SchedulerOutput) :
    KeepsLengths s (s.updateAllAfterSchedule out) := by
  have hone (s : Scheduler H) (n : Int) (k : Nat) (r : RequestId) :
      KeepsLengths s (s.updateAfterSchedule n k r) := by
    have hadvance : KeepsLengths s ((s.modify r (Request.advance n)).freeEncoderInputs r) :=
      (keepsLengths_modify s r fun hgen => ⟨⟨hgen.1, hgen.2, hgen.3⟩, rfl, rfl, rfl⟩).trans
        (of_same rfl rfl rfl)
    unfold updateAfterSchedule
    simp only
    split
    · exact hadvance.trans (keepsLengths_modify _ r fun hgen =>
        ⟨⟨hgen.1, hgen.2, hgen.3⟩, rfl, rfl, rfl⟩)
    · exact hadvance
  unfold updateAllAfterSchedule
  have hfold : KeepsLengths s (out.numScheduledTokens.entries.foldl (fun s e =>
      s.updateAfterSchedule e.2 ((out.scheduledSpecDecodeTokens.get? e.1).getD []).length e.1)
      s) := by
    generalize out.numScheduledTokens.entries = entries
    induction entries generalizing s with
    | nil => exact refl s
    | cons e entries ih => exact (hone s _ _ _).trans (ih _)
  exact hfold.trans (of_same rfl rfl rfl)

variable [DecidableEq H]

/-- The rounds of the first loop keep the lengths. -/
theorem keepsLengths_runningRule (s : Scheduler H) (inputs : ScheduleInputs) :
    SchedulePass.RunningRule (H := H) inputs (fun p => KeepsLengths s p.scheduler)
      (fun _ _ _ p => KeepsLengths s p.scheduler) where
  next _ h := h
  select p requestId e h _ _ _ _ :=
    ⟨h.trans (of_same rfl rfl rfl), fun _ => h.trans (of_same rfl rfl rfl)⟩
  preempt p requestId n e kv preempted p' h _ _ hpreempt := by
    obtain ⟨s₁, hs₁, rfl⟩ := SchedulePass.preempt_eq_ok hpreempt
    rw [SchedulePass.withoutVictim_scheduler] at hs₁
    have hqueue : KeepsLengths p.scheduler
        { (p.setKV kv).scheduler with running := (p.setKV kv).runningWithout preempted } :=
      of_same rfl rfl rfl
    have hp' := h.trans (hqueue.trans (keepsLengths_preemptRequest hs₁))
    exact ⟨fun _ => hp', fun _ => hp'⟩
  schedule p requestId n e kv newBlocks p' h _ hschedule := by
    obtain ⟨manager, -, rfl⟩ := SchedulePass.allocateEncoderInputs_eq_ok hschedule
    have hdrafts := keepsLengths_modify p.scheduler requestId
      (f := fun r => { r with specTokenIds := [] })
      fun hgen => ⟨⟨hgen.1, hgen.2, hgen.3⟩, rfl, rfl, rfl⟩
    exact (h.trans hdrafts).trans (of_same rfl rfl rfl)

/-- The rounds of the second loop keep the lengths. -/
theorem keepsLengths_waitingRule (s : Scheduler H) (inputs : ScheduleInputs) :
    SchedulePass.WaitingRule (H := H) inputs (fun p => KeepsLengths s p.scheduler) where
  promote p _ requestId _ h _ hstatus := h.trans (keepsLengths_modify p.scheduler requestId
    (f := fun r => { r with status := .waiting })
    (sameLengths_of_status (by rw [hstatus]; rfl) (by rw [hstatus]; decide) rfl rfl rfl rfl))
  skip p q _ rest h _ := h.trans (of_same (setQueue_config ..)
    (setQueue_requests ..) (setQueue_request ..))
  round p q requestId rest p' goOn h _ _ _ _ hround := by
    rcases SchedulePass.scheduleWaiting_cases hround with
      ⟨-, rfl⟩ | ⟨hits, numLocal, numComputed, e, -, ⟨-, rfl⟩ |
        ⟨kv, result, -, ⟨-, -, rfl⟩ | ⟨newBlocks, -, -, -, -, hadmitted⟩⟩⟩
    · exact h
    · exact h.trans (of_same rfl rfl rfl)
    · exact h.trans (of_same rfl rfl rfl)
    · obtain ⟨hstatus, manager, -, rfl⟩ := SchedulePass.admitWaiting_eq_ok hadmitted
      have hqueue : KeepsLengths p.scheduler
          (((p.setEncoder e.manager).setKV kv).scheduler.setQueue rest q) :=
        of_same (setQueue_config ..) (setQueue_requests ..) (setQueue_request ..)
      have hlive : ((p.setEncoder e.manager).setKV kv).scheduler.request requestId =
          p.scheduler.request requestId := rfl
      rw [hlive] at hstatus
      have hadmit := keepsLengths_modify
        (((p.setEncoder e.manager).setKV kv).scheduler.setQueue rest q) requestId
        (f := fun r => { r with
          status := .running
          numComputedTokens := numComputed
          numCachedTokens := if r.numCachedTokens < 0 then numComputed else r.numCachedTokens })
        (sameLengths_of_status (by rw [setQueue_request, hlive]; rcases hstatus with h | h <;>
            rw [h] <;> rfl)
          (by rw [setQueue_request, hlive]; rcases hstatus with h | h <;> rw [h] <;> decide)
          rfl rfl rfl rfl)
      exact (h.trans (hqueue.trans hadmit)).trans (of_same rfl rfl rfl)

/-- A call keeps the lengths. -/
theorem keepsLengths_schedule {out : SchedulerOutput} (h : s.schedule inputs = .ok (out, s')) :
    KeepsLengths s s' := by
  obtain ⟨p, cached, hpass, -, -, rfl, rfl⟩ := schedule_eq_ok h
  obtain ⟨p₁, loras, hrun, hrest⟩ := schedulePass_cases hpass
  have hp₁ : KeepsLengths s p₁.scheduler :=
    SchedulePass.runningLoop_rule (keepsLengths_runningRule s inputs)
      (of_same rfl rfl rfl : KeepsLengths s s.startPass.scheduler) hrun
  have hp : KeepsLengths s p.scheduler := by
    rcases hrest with rfl | ⟨-, fuel, p₂, hwait, rfl⟩
    · exact hp₁
    · have hp₂ : KeepsLengths s p₂.scheduler :=
        SchedulePass.waitingLoop_rule (keepsLengths_waitingRule s inputs)
          (p := { p₁ with scheduledLoras := loras }) hp₁ hwait
      exact hp₂.trans (of_same rfl rfl rfl)
  have hout : KeepsLengths s p.afterOutput := hp.trans (of_same rfl rfl rfl)
  exact hout.trans (keepsLengths_updateAllAfterSchedule _ _)

end Schedule

/-! ## Requests that come in -/

/-- A request that comes in fits: if it is a new one it is within its limits, and if it is the
chunk that a session waits for it is within those of the session. -/
structure AddFits (s : Scheduler H) (request : Request H) : Prop where
  new : request.requestId ∉ s.requests → request.pooling = false →
    request.Within s.config.maxModelLen
  chunk : request.requestId ∈ s.requests →
    (s.request request.requestId).status = .waitingForStreamingReq →
    (s.request request.requestId).pooling = false →
    ∀ update, StreamingUpdate.fromRequest request = some update →
      min (s.request request.requestId).numComputedTokens.toNat
          (s.request request.requestId).numTokens + update.promptTokenIds.length <
        s.config.maxModelLen ∧ 0 < (s.request request.requestId).maxTokens

instance (s : Scheduler H) (request : Request H) : Decidable (s.AddFits request) :=
  decidable_of_iff ((request.requestId ∉ s.requests → request.pooling = false →
      request.Within s.config.maxModelLen) ∧
    (request.requestId ∈ s.requests →
      (s.request request.requestId).status = .waitingForStreamingReq →
      (s.request request.requestId).pooling = false →
      ∀ update ∈ StreamingUpdate.fromRequest request,
        min (s.request request.requestId).numComputedTokens.toNat
            (s.request request.requestId).numTokens + update.promptTokenIds.length <
          s.config.maxModelLen ∧ 0 < (s.request request.requestId).maxTokens))
    ⟨fun h => ⟨h.1, h.2⟩, fun h => ⟨h.new, h.chunk⟩⟩

section Add

variable {s s' : Scheduler H} {env : HashEnv H}

/-- What keeps the lengths keeps the limits. -/
theorem LengthsEnd.keep (h : s.LengthsEnd) (hkeeps : KeepsLengths s s') : s'.LengthsEnd := by
  intro r hr hgen
  obtain ⟨hbefore, htokens, houtput, hmax⟩ := hkeeps.lengths r hgen
  unfold Request.Within
  rw [htokens, houtput, hmax, hkeeps.config]
  exact h r (hkeeps.requests r hr) hbefore

/-- One request is replaced by one within its limits. -/
theorem LengthsEnd.replace (h : s.LengthsEnd) (requestId : RequestId)
    (hconfig : s'.config = s.config)
    (hrequests : ∀ r ∈ s'.requests, r = requestId ∨ r ∈ s.requests)
    (hothers : ∀ r, r ≠ requestId → s'.request r = s.request r)
    (hself : (s'.request requestId).Generating →
      (s'.request requestId).Within s.config.maxModelLen) : s'.LengthsEnd := by
  intro r hr hgen
  rw [hconfig]
  by_cases heq : r = requestId
  · rw [heq] at hgen ⊢
    exact hself hgen
  · rw [hothers r heq] at hgen ⊢
    exact h r ((hrequests r hr).resolve_left heq) hgen

/-- A request that fits comes in without one beyond its limits. -/
theorem lengthsEnd_addRequest {request : Request H} (h : s.LengthsEnd)
    (hfits : s.AddFits request) (hadd : s.addRequest env request = .ok s') : s'.LengthsEnd := by
  rcases addRequest_cases hadd with
    ⟨-, queue, rfl⟩ |
      ⟨hlive, hidle, ⟨update, hupdate, session, hsession, rfl⟩ | hfinish⟩ | ⟨hnew, rfl⟩
  · exact h.keep (keepsLengths_modify s request.requestId
      (f := fun r => { r with streamingQueue := some queue })
      fun hgen => ⟨⟨hgen.1, hgen.2, hgen.3⟩, rfl, rfl, rfl⟩)
  · obtain ⟨hlength, houtput, hmax, hpooling, -⟩ := Request.updateAsSession_lengths hsession
    have hsame : (s.withSession request.requestId session).request request.requestId = session := by
      simp only [withSession, modify_request, if_true]
    refine h.replace request.requestId rfl (fun r hr => .inr hr) (fun r hne => ?_) fun hgen => ?_
    · simp only [withSession, modify_request, hne, if_false]
    · rw [hsame] at hgen ⊢
      obtain ⟨htokens, hmax₀⟩ := hfits.chunk hlive hidle (hpooling ▸ hgen.notPooling) update hupdate
      refine ⟨?_, ?_⟩
      · rw [hlength]
        exact htokens
      · rw [houtput, hmax]
        exact hmax₀
  · exact h.keep (keepsLengths_finishRequests hfinish)
  · have hrequest (r : RequestId) : (s.withNew request).request r =
        if r = request.requestId then
          (if request.resumable then { request with streamingQueue := some [] } else request)
        else s.request r := by
      simp only [withNew, enqueueWaitingRequest_request, modify_request]
    refine h.replace request.requestId ?_ (fun r hr => ?_) (fun r hne => ?_) fun hgen => ?_
    · exact enqueueWaitingRequest_config ..
    · simp only [withNew, List.mem_append, List.mem_singleton] at hr
      exact hr.symm
    · rw [hrequest, if_neg hne]
    · rw [hrequest, if_pos rfl] at hgen ⊢
      split at hgen
      · rename_i hresumable
        rw [if_pos hresumable]
        exact hfits.new hnew hgen.notPooling
      · rename_i hresumable
        rw [if_neg hresumable]
        exact hfits.new hnew hgen.notPooling

end Add

end Scheduler

/-! ## Runs -/

namespace Engine

open Scheduler

variable [DecidableEq H]

/-- A call fits: what comes in does, and so do the tokens that an update appends. -/
def CallFits (env : HashEnv H) (e : Engine H) : EngineCall H → Prop
  | .addRequest args =>
    e.scheduler.AddFits (Request.init env e.scheduler.hashBlockSize args)
  | .updateFromOutput model =>
    ∀ step ∈ e.inFlight.head?, ∀ r, e.scheduler.OutputFits step.output model r
  | _ => True

instance (env : HashEnv H) (e : Engine H) (call : EngineCall H) :
    Decidable (CallFits env e call) := by
  cases call with
  | addRequest args => exact inferInstanceAs (Decidable (AddFits _ _))
  | updateFromOutput model =>
    refine decidable_of_iff (∀ step ∈ e.inFlight.head?,
      ∀ r ∈ step.output.numScheduledTokens.entries.map Prod.fst,
        e.scheduler.OutputFits step.output model r)
      ⟨fun h step hstep r htakes => h step hstep r htakes.scheduled htakes,
        fun h step hstep r _ => h step hstep r⟩
  | _ => exact .isTrue trivial

variable {env : HashEnv H} {e e' : Engine H}

/-- Calls that fit leave every request that generates within its limits. -/
theorem lengthsEnd_apply {call : EngineCall H} (h : e.scheduler.LengthsEnd)
    (hfits : CallFits env e call) (happly : e.apply env call = .ok e') :
    e'.scheduler.LengthsEnd := by
  cases call with
  | addRequest args =>
    simp only [apply, bind_ok_iff, pure_ok_iff] at happly
    obtain ⟨s, hadd, rfl⟩ := happly
    exact lengthsEnd_addRequest h hfits hadd
  | schedule inputs =>
    simp only [apply, bind_ok_iff, pure_ok_iff, Prod.exists] at happly
    obtain ⟨out, s, hschedule, rfl⟩ := happly
    exact h.keep (keepsLengths_schedule hschedule)
  | updateFromOutput model =>
    simp only [apply] at happly
    split at happly
    · cases happly
    · rename_i step rest hinFlight
      simp only [bind_ok_iff, pure_ok_iff, Prod.exists] at happly
      obtain ⟨outputs, s, hupdate, rfl⟩ := happly
      refine (lengthsEnd_updateFromOutput_iff hupdate).mpr fun r => ⟨?_, fun _ hr => h r hr⟩
      exact hfits step (by rw [hinFlight]; rfl) r
  | updateDraftTokenIds draftTokenIds =>
    obtain rfl := Except.ok.inj happly
    exact h.keep (keepsLengths_updateDraftTokenIds draftTokenIds)
  | finishRequests requestIds finishedStatus =>
    simp only [apply, bind_ok_iff, pure_ok_iff] at happly
    obtain ⟨s, hfinish, rfl⟩ := happly
    exact h.keep (keepsLengths_finishRequests hfinish)
  | resetPrefixCache reset =>
    simp only [apply, bind_ok_iff, pure_ok_iff, Prod.exists] at happly
    obtain ⟨done, s, hreset, rfl⟩ := happly
    exact h.keep (keepsLengths_resetPrefixCache hreset)
  | setPauseState pauseState =>
    obtain rfl := Except.ok.inj happly
    exact h.keep (KeepsLengths.of_same rfl rfl rfl)

/-- A new engine has no requests. -/
private theorem lengthsEnd_init {config : SchedulerConfig} {kvCacheConfig : KVCacheConfig}
    {encoderCacheSize : Nat} (hinit : init config kvCacheConfig encoderCacheSize = .ok e) :
    e.scheduler.LengthsEnd := by
  simp only [init, Scheduler.init, bind_ok_iff, mapError_ok_iff, pure_ok_iff] at hinit
  obtain ⟨_, ⟨kv, hkv, rfl⟩, rfl⟩ := hinit
  intro r hr
  cases hr

/-- Of every update, from whatever state: every request that generates is within its limits behind
it exactly if the tokens that requests take fit them and the others were within theirs, and
nothing behind the first token that stops a request is appended or returned. In every run whose
calls fit, every request that generates is within its limits. -/
theorem lengths_end (env : HashEnv H) :
    (∀ (s s' : Scheduler H) (out : SchedulerOutput) (model : ModelRunnerOutput)
        (outputs : List EngineCoreOutput),
      s.updateFromOutput env out model = .ok (outputs, s') →
        (s'.LengthsEnd ↔ ∀ r, s.OutputFits out model r ∧ s.IdleFits out model r) ∧
        ∀ r, ∃ kept, (s.request r).TokensAppended (s'.request r) kept ∧
          (∀ o ∈ outputs, o.requestId = r → o.newTokenIds = kept) ∧
          (s.TakesOutput out model r →
            (s.request r).Trimmed s.config.maxModelLen (model.sampledTokenIds r) kept) ∧
          (¬ s.TakesOutput out model r → kept = [])) ∧
      ∀ (config : SchedulerConfig) (kvCacheConfig : KVCacheConfig) (encoderCacheSize : Nat)
        (e e' : Engine H) (calls : List (EngineCall H)),
        init config kvCacheConfig encoderCacheSize = .ok e →
        Along (apply env) (CallFits env) e calls → run (apply env) e calls = .ok e' →
        e'.scheduler.LengthsEnd := by
  refine ⟨fun s s' out model outputs h => ⟨?_, fun r => ?_⟩, ?_⟩
  · exact lengthsEnd_updateFromOutput_iff h
  · exact tokens_trimmed h r
  · intro config kvCacheConfig encoderCacheSize e e' calls hinit hcalls hrun
    exact run_invariant (I := fun e : Engine H => e.scheduler.LengthsEnd)
      (fun _ _ _ h hfits happly => lengthsEnd_apply h hfits happly) (lengthsEnd_init hinit)
      hcalls hrun

/-! ## An output below the minimal number of tokens -/

/-- A scheduler for one request of at most four tokens. -/
def shortModel : SchedulerConfig where
  maxNumRunningReqs := 1
  maxNumScheduledTokens := 8
  maxModelLen := 4

/-- A prompt of two tokens, and two steps that sample one token each. The request is to stop at
the length of the model. -/
def twoSteps (minTokens : Nat) : List (EngineCall FreeDigest) := [
  .addRequest {
    requestId := 1
    promptTokenIds := some [5, 6]
    maxTokens := 2
    samplingParams := { minTokens } },
  .schedule {},
  .updateFromOutput { sampledTokenIds := fun _ => [9] },
  .schedule {},
  .updateFromOutput { sampledTokenIds := fun _ => [9] }]

/-- The request stops. -/
theorem twoSteps_lengthsEnd : ∃ e e' : Engine FreeDigest,
    init shortModel (smallKVCache 10) 0 = .ok e ∧
      run (apply freeEnv) e (twoSteps 2) = .ok e' ∧ e'.scheduler.LengthsEnd := by
  have heval : (do
      let e ← init shortModel (smallKVCache 10) 0
      ensure (Along (apply freeEnv) (CallFits freeEnv) e (twoSteps 2)) .indexError
      let e ← run (apply freeEnv) e (twoSteps 2)
      pure e.scheduler.finishedReqIds) = .ok [1] := by decide
  simp only [bind_ok_iff, ensure_eq_ok, pure_ok_iff] at heval
  obtain ⟨e, hinit, _, hcalls, e', hrun, -⟩ := heval
  exact ⟨e, e', hinit, hrun, (lengths_end freeEnv).2 _ _ _ e e' _ hinit hcalls hrun⟩

/-- With a minimal number of tokens beyond the length of the model it goes on. -/
theorem twoSteps_not_lengthsEnd : ∃ e e' : Engine FreeDigest,
    init shortModel (smallKVCache 10) 0 = .ok e ∧
      run (apply freeEnv) e (twoSteps 5) = .ok e' ∧ ¬ e'.scheduler.LengthsEnd := by
  have heval : (do
      let e ← init shortModel (smallKVCache 10) 0
      let e ← run (apply freeEnv) e (twoSteps 5)
      let r := e.scheduler.request 1
      pure (e.scheduler.requests, e.scheduler.config.maxModelLen, r.status, r.pooling,
        r.numTokens)) = .ok ([1], 4, .running, false, 4) := by decide
  simp only [bind_ok_iff, pure_ok_iff, Prod.mk.injEq] at heval
  obtain ⟨e, hinit, e', hrun, hrequests, hlen, hstatus, hpooling, htokens⟩ := heval
  refine ⟨e, e', hinit, hrun, fun h => ?_⟩
  have hgen : (e'.scheduler.request 1).Generating :=
    ⟨by rw [hstatus]; rfl, by rw [hstatus]; decide, hpooling⟩
  obtain ⟨hlt, -⟩ := h 1 (by simp [hrequests]) hgen
  omega

end Engine

end Vllm
