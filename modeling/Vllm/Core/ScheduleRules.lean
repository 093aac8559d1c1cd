import Vllm.Core.SchedulerUpdate

/-!
# Rules for a schedule call

What each part of `schedule` does to the pass, said once, and the rules by which a property of
the pass goes through its two loops. In the loop over the running requests a round has a
request in hand: the property then holds next to one of that request, which every preemption of
another request keeps.
-/

namespace Vllm

open Checked

variable {H : Type}

namespace Scheduler

variable (s : Scheduler H) (requestId : RequestId) (f : Request H → Request H)

@[simp] theorem modify_request (other : RequestId) : (s.modify requestId f).request other =
    if other = requestId then f (s.request requestId) else s.request other := by
  unfold modify
  simp only [Function.update_apply]

@[simp] theorem modify_config : (s.modify requestId f).config = s.config := rfl
@[simp] theorem modify_requests : (s.modify requestId f).requests = s.requests := rfl
@[simp] theorem modify_waiting : (s.modify requestId f).waiting = s.waiting := rfl
@[simp] theorem modify_skippedWaiting :
    (s.modify requestId f).skippedWaiting = s.skippedWaiting := rfl
@[simp] theorem modify_running : (s.modify requestId f).running = s.running := rfl
@[simp] theorem modify_queue (q : WaitingQueue) : (s.modify requestId f).queue q = s.queue q := by
  cases q <;> rfl

@[simp] theorem setQueue_request (requests : List RequestId) (q : WaitingQueue) :
    (s.setQueue requests q).request = s.request := by
  cases q <;> rfl

@[simp] theorem setQueue_running (requests : List RequestId) (q : WaitingQueue) :
    (s.setQueue requests q).running = s.running := by
  cases q <;> rfl

@[simp] theorem setQueue_requests (requests : List RequestId) (q : WaitingQueue) :
    (s.setQueue requests q).requests = s.requests := by
  cases q <;> rfl

@[simp] theorem setQueue_config (requests : List RequestId) (q : WaitingQueue) :
    (s.setQueue requests q).config = s.config := by
  cases q <;> rfl

@[simp] theorem setQueue_kvCacheManager (requests : List RequestId) (q : WaitingQueue) :
    (s.setQueue requests q).kvCacheManager = s.kvCacheManager := by
  cases q <;> rfl

/-- A change of status leaves the order of the queues alone. -/
theorem modify_lt (hpriority : (f (s.request requestId)).priority = (s.request requestId).priority)
    (harrival : (f (s.request requestId)).arrivalTime = (s.request requestId).arrivalTime)
    (hid : (f (s.request requestId)).requestId = (s.request requestId).requestId) :
    (s.modify requestId f).lt = s.lt := by
  have hkey (other : RequestId) :
      ((s.modify requestId f).request other).priority = (s.request other).priority ∧
      ((s.modify requestId f).request other).arrivalTime = (s.request other).arrivalTime ∧
      ((s.modify requestId f).request other).requestId = (s.request other).requestId := by
    rw [modify_request]
    split
    · rename_i heq
      rw [heq]
      exact ⟨hpriority, harrival, hid⟩
    · exact ⟨rfl, rfl, rfl⟩
  funext a b
  simp only [lt, Request.lt, (hkey a).1, (hkey a).2.1, (hkey a).2.2, (hkey b).1, (hkey b).2.1,
    (hkey b).2.2]

variable {s requestId}

/-- A preemption releases everything the request holds and puts it into `waiting`. -/
theorem preemptRequest_eq_ok {s' : Scheduler H} (h : s.preemptRequest requestId = .ok s') :
    (s.request requestId).status = .running ∧ ∃ kv, s.kvCacheManager.free requestId = .ok kv ∧
      s' = { s.modify requestId (fun r => { r with
          status := .preempted
          numComputedTokens := 0
          specTokenIds := []
          numPreemptions := r.numPreemptions + 1 }) with
        kvCacheManager := kv
        encoderCacheManager :=
          s.encoderCacheManager.free requestId (s.request requestId).mmFeatures
        waiting := RequestQueue.prependRequest s.config.policy s.lt s.waiting requestId } := by
  simp only [preemptRequest, bind_ok_iff, ensure_eq_ok, mapError_ok_iff, pure_ok_iff] at h
  obtain ⟨_, hstatus, kv, hkv, rfl⟩ := h
  refine ⟨hstatus, kv, hkv, ?_⟩
  rw [modify_lt]
  all_goals rfl

/-- Only a compiled grammar promotes a request, which then waits like the others. -/
theorem tryPromote_eq_ok {inputs : ScheduleInputs} {promoted : Bool} {s' : Scheduler H}
    (h : s.tryPromote inputs requestId = .ok (promoted, s')) :
    (promoted = false ∧ s' = s) ∨
      (promoted = true ∧ (s.request requestId).status = .waitingForFsm ∧
        s' = s.modify requestId fun r => { r with status := .waiting }) := by
  unfold tryPromote at h
  split at h
  · split at h
    · obtain ⟨rfl, rfl⟩ := Prod.mk.inj (Except.ok.inj h)
      exact Or.inr ⟨rfl, ‹_›, rfl⟩
    · obtain ⟨rfl, rfl⟩ := Prod.mk.inj (Except.ok.inj h)
      exact Or.inl ⟨rfl, rfl⟩
  · simp only [bind_ok_iff, pure_ok_iff, Prod.mk.injEq] at h
    obtain ⟨_, -, rfl, rfl⟩ := h
    exact Or.inl ⟨rfl, rfl⟩
  · obtain ⟨rfl, rfl⟩ := Prod.mk.inj (Except.ok.inj h)
    exact Or.inl ⟨rfl, rfl⟩
  · cases h

end Scheduler

namespace SchedulePass

variable {p p' : SchedulePass H} {inputs : ScheduleInputs} {requestId : RequestId}

/-! ## Parts of a round -/

/-- The encoder part of a pass is all that the lookup of encoder inputs changes. -/
theorem tryEncoderInputs_eq_ok {numComputedTokens numNewTokens : Int} {e : EncoderPass}
    (h : p.tryEncoderInputs inputs requestId numComputedTokens numNewTokens = .ok (e, p')) :
    tryScheduleEncoderInputs
        { disableChunkedMmInput := p.scheduler.config.disableChunkedMmInput
          hasCacheItem := inputs.hasCacheItem }
        requestId numComputedTokens numNewTokens (if p.scheduler.config.useEagle then 1 else 0)
        p.scheduler.encoderCacheManager (p.scheduler.request requestId).mmFeatures
        p.encoderComputeBudget = .ok e ∧
      p' = { p with scheduler := { p.scheduler with encoderCacheManager := e.manager } } := by
  simp only [tryEncoderInputs, bind_ok_iff, mapError_ok_iff, pure_ok_iff, Prod.mk.injEq] at h
  obtain ⟨_, h, rfl, rfl⟩ := h
  exact ⟨h, rfl⟩

/-- The bookings of encoder inputs. -/
def bookEncoderInputs (p : SchedulePass H) (requestId : RequestId) (e : EncoderPass)
    (manager : EncoderCacheManager) : SchedulePass H :=
  { p with
    scheduler := { p.scheduler with encoderCacheManager := manager }
    scheduledEncoderInputs :=
      if e.encoderInputsToSchedule = [] then p.scheduledEncoderInputs
      else p.scheduledEncoderInputs.insert requestId e.encoderInputsToSchedule
    encoderComputeBudget :=
      if e.encoderInputsToSchedule = [] then p.encoderComputeBudget else e.encoderComputeBudget }

/-- Booking encoder inputs changes the encoder part of a pass only. -/
theorem allocateEncoderInputs_eq_ok {e : EncoderPass}
    (h : p.allocateEncoderInputs requestId e = .ok p') : ∃ manager,
      allocateItems requestId (p.scheduler.request requestId).mmFeatures
        p.scheduler.encoderCacheManager
        (e.encoderInputsToSchedule ++ e.externalLoadEncoderInput) = .ok manager ∧
      p' = p.bookEncoderInputs requestId e manager := by
  simp only [allocateEncoderInputs, bind_ok_iff] at h
  obtain ⟨manager, hfold, h⟩ := h
  refine ⟨manager, hfold, ?_⟩
  unfold bookEncoderInputs
  split at h
  · rename_i hnone
    rw [if_pos hnone, if_pos hnone]
    exact (pure_ok_iff.mp h).symm
  · rename_i hsome
    rw [if_neg hsome, if_neg hsome]
    exact (pure_ok_iff.mp h).symm

/-- The pass without a request that is about to be preempted. -/
def withoutVictim (p : SchedulePass H) (requestId : RequestId) : SchedulePass H :=
  match p.scheduler.config.policy with
  | .priority =>
    let p := p.setRunning (p.scheduler.running.erase requestId)
    if requestId ∈ p.scheduledRunningReqs then
      p.unscheduleRunning requestId ((p.numScheduledTokens.get? requestId).getD 0)
    else p
  | .fcfs => p.setRunning p.scheduler.running.dropLast

/-- A preemption takes the request out of the step and then releases what it holds. -/
theorem preempt_eq_ok (h : p.preempt requestId = .ok p') :
    ∃ s, (p.withoutVictim requestId).scheduler.preemptRequest requestId = .ok s ∧
      p' = { p.withoutVictim requestId with
        scheduler := s, preemptedReqs := p.preemptedReqs ++ [requestId] } := by
  simp only [preempt, bind_ok_iff, pure_ok_iff] at h
  obtain ⟨p₁, htake, s, hs, rfl⟩ := h
  have hp₁ : p₁ = p.withoutVictim requestId := by
    unfold takeVictim at htake
    unfold withoutVictim
    cases hpolicy : p.scheduler.config.policy with
    | priority =>
      simp only [hpolicy] at htake ⊢
      split at htake
      · rename_i hmem
        rw [if_pos hmem]
        split at htake
        · rename_i hget _
          rw [hget]
          exact (Except.ok.inj htake).symm
        · cases htake
      · rename_i hmem
        rw [if_neg hmem]
        exact (Except.ok.inj htake).symm
    | fcfs =>
      simp only [hpolicy] at htake ⊢
      exact (Except.ok.inj htake).symm
  have hpreempted : (p.withoutVictim requestId).preemptedReqs = p.preemptedReqs := by
    unfold withoutVictim
    cases p.scheduler.config.policy with
    | priority =>
      simp only
      split <;> rfl
    | fcfs => rfl
  rw [hp₁] at hs ⊢
  exact ⟨s, hs, by rw [hpreempted]⟩

/-- The adapters of the running requests are all that is recorded behind the first loop. -/
theorem recordLoras_eq_ok (h : p.recordLoras = .ok p') :
    ∃ loras, p' = { p with scheduledLoras := loras } := by
  unfold recordLoras at h
  split at h
  · exact ⟨p.scheduledLoras, (Except.ok.inj h).symm⟩
  · simp only [bind_ok_iff, ensure_eq_ok, pure_ok_iff] at h
    obtain ⟨_, -, rfl⟩ := h
    exact ⟨_, rfl⟩

/-- The pass with another state of the KV cache. -/
def setKV (p : SchedulePass H) (kv : KVCacheManager H) : SchedulePass H :=
  { p with scheduler := { p.scheduler with kvCacheManager := kv } }

/-- The pass with another state of the encoder cache. -/
def setEncoder (p : SchedulePass H) (manager : EncoderCacheManager) : SchedulePass H :=
  { p with scheduler := { p.scheduler with encoderCacheManager := manager } }

/-! ## The loop over the running requests -/

variable [DecidableEq H]

/-- The arguments of `allocate_slots` for a running request. -/
def runningArgs (p : SchedulePass H) (numNewTokens : Int) : KVCacheManager.SlotArgs where
  numNewTokens
  numLookaheadTokens := p.scheduler.config.numLookaheadTokens

/-- A property of the pass, and of the pass with a request in hand that is to be given a number
of tokens, which the rounds of the first loop keep. -/
structure RunningRule (inputs : ScheduleInputs) (I : SchedulePass H → Prop)
    (C : RequestId → Int → EncoderPass → SchedulePass H → Prop) : Prop where
  next : ∀ p, I p → I p.nextRequest
  select : ∀ p requestId e, I p → p.scheduler.running[p.reqIndex]? = some requestId →
    0 < p.tokenBudget → ¬(p.scheduler.request requestId).reachesMaxTokens →
    p.tryEncoderInputs inputs requestId (p.scheduler.request requestId).numComputedTokens
      ((p.scheduler.request requestId).numNewTokens p.scheduler.config.longPrefillTokenThreshold
        p.scheduler.config.maxModelLen p.tokenBudget) = .ok (e, p.setEncoder e.manager) →
    I (p.setEncoder e.manager) ∧ (p.alignedSplit requestId e.numNewTokens 0 ≠ 0 →
      C requestId (p.alignedSplit requestId e.numNewTokens 0) e (p.setEncoder e.manager))
  preempt : ∀ p requestId n e kv preempted p', C requestId n e p →
    p.scheduler.kvCacheManager.allocateSlots (p.scheduler.request requestId) (p.runningArgs n) =
      .ok (kv, none) →
    (p.setKV kv).victim = some preempted → (p.setKV kv).preempt preempted = .ok p' →
    (preempted = requestId → I p') ∧ (preempted ≠ requestId → C requestId n e p')
  schedule : ∀ p requestId n e kv newBlocks p', C requestId n e p →
    p.scheduler.kvCacheManager.allocateSlots (p.scheduler.request requestId) (p.runningArgs n) =
      .ok (kv, some newBlocks) →
    (p.setKV kv).scheduleRunning requestId n newBlocks e = .ok p' → I p'

section Running

variable {I : SchedulePass H → Prop}
  {C : RequestId → Int → EncoderPass → SchedulePass H → Prop}

/-- The allocation loop ends with the request preempted or with its blocks. -/
theorem allocateOrPreempt_rule (hrule : RunningRule inputs I C) {n : Int} {e : EncoderPass}
    {fuel : Nat} {newBlocks : Option (List (List BlockId))} (hp : C requestId n e p)
    (hrun : allocateOrPreempt requestId n fuel p = .ok (p', newBlocks)) :
    (newBlocks = none ∧ I p') ∨ ∃ p₀ kv blocks, C requestId n e p₀ ∧
      p₀.scheduler.kvCacheManager.allocateSlots (p₀.scheduler.request requestId)
        (p₀.runningArgs n) = .ok (kv, some blocks) ∧
      newBlocks = some blocks ∧ p' = p₀.setKV kv := by
  induction fuel generalizing p with
  | zero => cases hrun
  | succ fuel ih =>
    simp only [allocateOrPreempt, bind_ok_iff, mapError_ok_iff, Prod.exists] at hrun
    obtain ⟨kv, result, halloc, hrun⟩ := hrun
    cases result with
    | some blocks =>
      simp only [pure_ok_iff, Prod.mk.injEq] at hrun
      obtain ⟨rfl, rfl⟩ := hrun
      exact Or.inr ⟨p, kv, blocks, hp, halloc, rfl, rfl⟩
    | none =>
      cases hvictim : (p.setKV kv).victim with
      | none =>
        change (p.setKV kv).victim = none at hvictim
        simp only [setKV] at hvictim
        simp only [hvictim] at hrun
        cases hrun
      | some preempted =>
        have hvictim' := hvictim
        simp only [setKV] at hvictim'
        simp only [hvictim', bind_ok_iff] at hrun
        obtain ⟨p₁, hpreempt, hrun⟩ := hrun
        obtain ⟨hself, hother⟩ := hrule.preempt _ _ _ _ _ _ _ hp halloc hvictim hpreempt
        split at hrun
        · rename_i heq
          simp only [pure_ok_iff, Prod.mk.injEq] at hrun
          obtain ⟨rfl, rfl⟩ := hrun
          exact Or.inl ⟨rfl, hself heq⟩
        · rename_i hne
          exact ih (hother hne) hrun

/-- What the rounds keep, the loop over the running requests keeps. -/
theorem runningLoop_rule (hrule : RunningRule inputs I C) {fuel : Nat} (hp : I p)
    (hrun : runningLoop inputs fuel p = .ok p') : I p' := by
  induction fuel generalizing p with
  | zero =>
    obtain rfl := Except.ok.inj hrun
    exact hp
  | succ fuel ih =>
    rw [runningLoop] at hrun
    split at hrun
    · obtain rfl := Except.ok.inj hrun
      exact hp
    · rename_i requestId hcurrent
      simp only at hrun
      split at hrun
      · obtain rfl := Except.ok.inj hrun
        exact hp
      rename_i hbudget
      split at hrun
      · exact ih (hrule.next p hp) hrun
      rename_i hmax
      simp only [bind_ok_iff, Prod.exists] at hrun
      obtain ⟨e, p₁, hencoder, hrun⟩ := hrun
      obtain ⟨-, rfl⟩ := tryEncoderInputs_eq_ok hencoder
      obtain ⟨hp₁, hcurrent₁⟩ :=
        hrule.select p requestId e hp hcurrent (not_le.mp hbudget) hmax hencoder
      split at hrun
      · exact ih (hrule.next _ hp₁) hrun
      rename_i hne
      simp only [bind_ok_iff, Prod.exists] at hrun
      obtain ⟨p₂, newBlocks, halloc, hrun⟩ := hrun
      rcases allocateOrPreempt_rule hrule (hcurrent₁ hne) halloc with
        ⟨rfl, hp₂⟩ | ⟨p₀, kv, blocks, hp₀, hkv, rfl, rfl⟩
      · obtain rfl := pure_ok_iff.mp hrun
        exact hp₂
      · simp only [bind_ok_iff] at hrun
        obtain ⟨p₃, hschedule, hrun⟩ := hrun
        exact ih (hrule.schedule _ _ _ _ _ _ _ hp₀ hkv hschedule) hrun

end Running

/-! ## The loop over the waiting requests -/

/-- The arguments of `allocate_slots` for a waiting request. -/
def waitingArgs (p : SchedulePass H) (requestId : RequestId) (hits : Option (List (List BlockId)))
    (numNewLocalComputedTokens numNewTokens : Int) : KVCacheManager.SlotArgs where
  numNewTokens
  numNewComputedTokens := numNewLocalComputedTokens
  newComputedBlocks := hits
  numLookaheadTokens :=
    if (p.scheduler.request requestId).numComputedTokens = 0 then 0
    else p.scheduler.config.numLookaheadTokens

/-- A waiting request for which the step has tokens, behind the lookup of its encoder inputs. -/
structure Offered (inputs : ScheduleInputs) (p : SchedulePass H) (requestId : RequestId)
    (hits : Option (List (List BlockId))) (numLocal numComputed : Int) (e : EncoderPass) :
    Prop where
  computed : p.computedTokens requestId = .ok (hits, numLocal, numComputed)
  encoder : ∃ numNewTokens, 0 < numNewTokens ∧ numNewTokens ≤ p.tokenBudget ∧
    numNewTokens ≤ (p.scheduler.request requestId).numTokens - numComputed ∧
    p.tryEncoderInputs inputs requestId numComputed numNewTokens =
      .ok (e, p.setEncoder e.manager)

/-- A cap does not add tokens. -/
private theorem capLongPrefill_le (threshold : Nat) (n : Int) : capLongPrefill threshold n ≤ n := by
  unfold capLongPrefill
  split
  · rename_i h
    exact h.2.le
  · exact le_rfl

/-- The round of a waiting request that is not put off: the loop ends with at most the caches
changed, or the request is admitted. -/
theorem scheduleWaiting_cases {q : WaitingQueue} {rest : List RequestId} {goOn : Bool}
    (h : p.scheduleWaiting inputs q requestId rest = .ok (p', goOn)) :
    (goOn = false ∧ p' = p) ∨ ∃ hits numLocal numComputed e,
      Offered inputs p requestId hits numLocal numComputed e ∧
      ((goOn = false ∧ p' = p.setEncoder e.manager) ∨
        ∃ kv result, (p.scheduler.kvCacheManager.allocateSlots (p.scheduler.request requestId)
          (p.waitingArgs requestId hits numLocal
            (p.alignedSplit requestId e.numNewTokens numLocal)) = .ok (kv, result)) ∧
          ((result = none ∧ goOn = false ∧ p' = (p.setKV kv).setEncoder
            (e.manager.free requestId (p.scheduler.request requestId).mmFeatures)) ∨
          ∃ newBlocks, result = some newBlocks ∧ goOn = true ∧
            ((p.scheduler.request requestId).hasEncoderInputs → e.numNewTokens ≠ 0) ∧
            (p.scheduler.config.mambaBlockAlignedSplit.isSome →
              p.alignedSplit requestId e.numNewTokens numLocal ≠ 0) ∧
            ((p.setEncoder e.manager).setKV kv).admitWaiting q requestId rest
              (p.alignedSplit requestId e.numNewTokens numLocal) numComputed e = .ok p')) := by
  simp only [scheduleWaiting, bind_ok_iff, Prod.exists] at h
  obtain ⟨hits, numLocal, numComputed, hcomputed, h⟩ := h
  split at h
  · obtain ⟨rfl, rfl⟩ := Prod.mk.inj (pure_ok_iff.mp h)
    exact Or.inl ⟨rfl, rfl⟩
  simp only [bind_ok_iff, ensure_eq_ok, Prod.exists] at h
  obtain ⟨_, hpos, e, p₁, hencoder, h⟩ := h
  obtain ⟨-, rfl⟩ := tryEncoderInputs_eq_ok hencoder
  have hoffered : Offered inputs p requestId hits numLocal numComputed e :=
    ⟨hcomputed, _, hpos, min_le_right _ _, (min_le_left _ _).trans (capLongPrefill_le _ _),
      hencoder⟩
  refine Or.inr ⟨hits, numLocal, numComputed, e, hoffered, ?_⟩
  split at h
  · obtain ⟨rfl, rfl⟩ := Prod.mk.inj (pure_ok_iff.mp h)
    exact Or.inl ⟨rfl, rfl⟩
  rename_i hitems
  split at h
  · obtain ⟨rfl, rfl⟩ := Prod.mk.inj (pure_ok_iff.mp h)
    exact Or.inl ⟨rfl, rfl⟩
  rename_i hsplit
  simp only [bind_ok_iff, mapError_ok_iff, Prod.exists] at h
  obtain ⟨kv, result, halloc, h⟩ := h
  refine Or.inr ⟨kv, result, halloc, ?_⟩
  cases result with
  | none =>
    simp only [Option.isNone_none, if_true] at h
    obtain ⟨rfl, rfl⟩ := Prod.mk.inj (pure_ok_iff.mp h)
    exact Or.inl ⟨rfl, rfl, rfl⟩
  | some newBlocks =>
    simp only [Option.isNone_some, Bool.false_eq_true, if_false, bind_ok_iff] at h
    obtain ⟨p₂, hadmitted, h⟩ := h
    obtain ⟨rfl, rfl⟩ := Prod.mk.inj (pure_ok_iff.mp h)
    exact Or.inr ⟨newBlocks, rfl, rfl, fun hhas hzero => hitems ⟨hhas, hzero⟩,
      fun hsome hzero => hsplit ⟨hsome, hzero⟩, hadmitted⟩

omit [DecidableEq H] in
/-- The pass with a waiting request moved to the running ones. -/
def withAdmitted (p : SchedulePass H) (q : WaitingQueue) (requestId : RequestId)
    (rest : List RequestId) (numNewTokens numComputedTokens : Int) : SchedulePass H :=
  { p with
    scheduler := { (p.scheduler.setQueue rest q).modify requestId (fun r => { r with
        status := .running
        numComputedTokens := numComputedTokens
        numCachedTokens :=
          if r.numCachedTokens < 0 then numComputedTokens else r.numCachedTokens }) with
      running := p.scheduler.running ++ [requestId] }
    scheduledNewReqs :=
      if (p.scheduler.request requestId).status = .waiting then p.scheduledNewReqs ++ [requestId]
      else p.scheduledNewReqs
    scheduledResumedReqs :=
      if (p.scheduler.request requestId).status = .waiting then p.scheduledResumedReqs
      else p.scheduledResumedReqs ++ [requestId]
    scheduledLoras := p.lorasWith requestId
    reqToNewBlocks :=
      p.reqToNewBlocks.insert requestId (p.scheduler.kvCacheManager.getBlocks requestId)
    numScheduledTokens := p.numScheduledTokens.insert requestId numNewTokens
    tokenBudget := p.tokenBudget - numNewTokens }

omit [DecidableEq H] in
/-- Only a request that waits, newly or after a preemption, is admitted. -/
theorem admitWaiting_eq_ok {q : WaitingQueue} {rest : List RequestId}
    {numNewTokens numComputedTokens : Int} {e : EncoderPass}
    (h : p.admitWaiting q requestId rest numNewTokens numComputedTokens e = .ok p') :
    ((p.scheduler.request requestId).status = .waiting ∨
      (p.scheduler.request requestId).status = .preempted) ∧
    ∃ manager,
      allocateItems requestId (p.scheduler.request requestId).mmFeatures
        p.scheduler.encoderCacheManager
        (e.encoderInputsToSchedule ++ e.externalLoadEncoderInput) = .ok manager ∧
      p' = (p.withAdmitted q requestId rest numNewTokens
        numComputedTokens).bookEncoderInputs requestId e manager := by
  simp only [admitWaiting, bind_ok_iff] at h
  obtain ⟨p₁, hstatus, hbook⟩ := h
  have hencoder : (p.scheduler.setQueue rest q).encoderCacheManager =
      p.scheduler.encoderCacheManager := by
    cases q <;> rfl
  obtain ⟨manager, hitems, rfl⟩ := allocateEncoderInputs_eq_ok hbook
  simp only [Scheduler.modify_request, if_true, Scheduler.setQueue_request] at hitems
  change allocateItems requestId (p.scheduler.request requestId).mmFeatures
    (p.scheduler.setQueue rest q).encoderCacheManager _ = _ at hitems
  rw [hencoder] at hitems
  unfold recordAdmission at hstatus
  split at hstatus
  · rename_i hwas
    obtain rfl := Except.ok.inj hstatus
    refine ⟨Or.inl hwas, manager, hitems, ?_⟩
    simp only [withAdmitted, hwas, if_true, Scheduler.setQueue_running]
    rfl
  · rename_i hwas
    obtain rfl := Except.ok.inj hstatus
    refine ⟨Or.inr hwas, manager, hitems, ?_⟩
    simp only [withAdmitted, hwas, reduceCtorEq, if_false, Scheduler.setQueue_running]
    rfl
  · cases hstatus

/-- The first request of a queue is at hand, and the rest stays. -/
def AtHand (p : SchedulePass H) (q : WaitingQueue) (requestId : RequestId)
    (rest : List RequestId) : Prop :=
  RequestQueue.popRequest p.scheduler.config.policy p.scheduler.lt (p.scheduler.queue q) =
    some (requestId, rest)

/-- The pass with a request promoted whose grammar is compiled. -/
def promote (p : SchedulePass H) (requestId : RequestId) : SchedulePass H :=
  { p with scheduler := p.scheduler.modify requestId fun r => { r with status := .waiting } }

/-- A property of the pass that the rounds of the second loop keep. -/
structure WaitingRule (inputs : ScheduleInputs) (J : SchedulePass H → Prop) : Prop where
  promote : ∀ p q requestId rest, J p → p.AtHand q requestId rest →
    (p.scheduler.request requestId).status = .waitingForFsm → J (p.promote requestId)
  skip : ∀ p q requestId rest, J p → p.AtHand q requestId rest →
    J (p.skipWaiting q requestId rest)
  round : ∀ p q requestId rest p' goOn, J p → p.AtHand q requestId rest →
    0 < p.tokenBudget →
    p.scheduler.running.length ≠ p.scheduler.config.maxNumRunningReqs →
    (p.scheduler.request requestId).status.isBlockedWaiting = false →
    p.scheduleWaiting inputs q requestId rest = .ok (p', goOn) → J p'

/-- What the rounds keep, the loop over the waiting requests keeps. -/
theorem waitingLoop_rule {J : SchedulePass H → Prop} (hrule : WaitingRule inputs J) {fuel : Nat}
    (hp : J p) (hrun : waitingLoop inputs fuel p = .ok p') : J p' := by
  induction fuel generalizing p with
  | zero =>
    obtain rfl := Except.ok.inj hrun
    exact hp
  | succ fuel ih =>
    rw [waitingLoop] at hrun
    split at hrun
    · obtain rfl := Except.ok.inj hrun
      exact hp
    rename_i q hselect
    split at hrun
    · obtain rfl := Except.ok.inj hrun
      exact hp
    rename_i hend
    obtain ⟨hbudget, hroom⟩ := not_or.mp hend
    cases hpop : RequestQueue.popRequest p.scheduler.config.policy p.scheduler.lt
        (p.scheduler.queue q) with
    | none =>
      simp only [hpop] at hrun
      cases hrun
    | some popped =>
      obtain ⟨requestId, rest⟩ := popped
      simp only [hpop, bind_ok_iff, Prod.exists] at hrun
      obtain ⟨promoted, s, hpromote, hrun⟩ := hrun
      -- the round of the request, which is no longer blocked
      have hgo (p₁ : SchedulePass H) (hp₁ : J p₁) (hathand : p₁.AtHand q requestId rest)
          (hbudget₁ : 0 < p₁.tokenBudget)
          (hroom₁ : p₁.scheduler.running.length ≠ p₁.scheduler.config.maxNumRunningReqs)
          (hblocked : (p₁.scheduler.request requestId).status.isBlockedWaiting = false)
          (hrun : (if p₁.exceedsLoras requestId = true then
            waitingLoop inputs fuel (p₁.skipWaiting q requestId rest)
          else p₁.scheduleWaiting inputs q requestId rest >>= fun round =>
            if round.2 = true then waitingLoop inputs fuel round.1 else pure round.1) = .ok p') :
          J p' := by
        split at hrun
        · exact ih (hrule.skip _ _ _ _ hp₁ hathand) hrun
        simp only [bind_ok_iff, Prod.exists] at hrun
        obtain ⟨p₂, goOn, hround, hrun⟩ := hrun
        have hp₂ := hrule.round _ _ _ _ _ _ hp₁ hathand hbudget₁ hroom₁ hblocked hround
        split at hrun
        · exact ih hp₂ hrun
        · obtain rfl := pure_ok_iff.mp hrun
          exact hp₂
      unfold Scheduler.promoteIfBlocked at hpromote
      split at hpromote
      · rcases Scheduler.tryPromote_eq_ok hpromote with ⟨rfl, rfl⟩ | ⟨rfl, hfsm, rfl⟩
        · simp only [Bool.not_false, Bool.true_or, if_true] at hrun
          exact ih (hrule.skip _ _ _ _ hp hpop) hrun
        · simp only [Bool.not_true, Bool.false_or] at hrun
          refine hgo (p.promote requestId) (hrule.promote _ _ _ _ hp hpop hfsm) ?_
            (not_le.mp hbudget) hroom (by simp [promote, RequestStatus.isBlockedWaiting]) hrun
          unfold AtHand
          rw [← hpop]
          simp only [promote, Scheduler.modify_queue, Scheduler.modify_config]
          rw [Scheduler.modify_lt]
          all_goals rfl
      · rename_i hblocked
        obtain ⟨rfl, rfl⟩ := Prod.mk.inj (Except.ok.inj hpromote)
        simp only [Bool.not_true, Bool.false_or] at hrun
        exact hgo p hp hpop (not_le.mp hbudget) hroom (by simpa using hblocked) hrun

end SchedulePass

/-! ## The whole call -/

namespace Scheduler

variable [DecidableEq H] {s s' : Scheduler H} {inputs : ScheduleInputs}

/-- A pass goes through the first loop and, if nothing was preempted, through the second. -/
theorem schedulePass_cases {p : SchedulePass H} (h : s.schedulePass inputs = .ok p) :
    ∃ p₁ loras, SchedulePass.runningLoop inputs s.running.length s.startPass = .ok p₁ ∧
      (p = { p₁ with scheduledLoras := loras } ∨ p₁.preemptedReqs = [] ∧ ∃ fuel p₂,
        SchedulePass.waitingLoop inputs fuel { p₁ with scheduledLoras := loras } = .ok p₂ ∧
        p = requeueSkipped p₂) := by
  simp only [schedulePass, bind_ok_iff] at h
  obtain ⟨p₁, hrun, p₂, hloras, h⟩ := h
  obtain ⟨loras, rfl⟩ := SchedulePass.recordLoras_eq_ok hloras
  refine ⟨p₁, loras, hrun, ?_⟩
  split at h
  · rename_i hnone
    simp only [bind_ok_iff, pure_ok_iff] at h
    obtain ⟨p₂, hwait, rfl⟩ := h
    exact Or.inr ⟨hnone.1, _, p₂, hwait, rfl⟩
  · exact Or.inl (pure_ok_iff.mp h).symm

/-- What a successful call has checked of its pass. -/
structure Checks (p : SchedulePass H) : Prop where
  total : p.totalNumScheduledTokens ≤ p.scheduler.config.maxNumScheduledTokens
  budget : 0 ≤ p.tokenBudget
  running : p.scheduler.running.length ≤ p.scheduler.config.maxNumRunningReqs

/-- A call puts out its pass and advances the scheduled requests. -/
theorem schedule_eq_ok {out : SchedulerOutput} (h : s.schedule inputs = .ok (out, s')) :
    ∃ p cached, s.schedulePass inputs = .ok p ∧ Checks p ∧
      p.makeCachedRequestData = .ok cached ∧ out = p.outputData cached ∧
      s' = p.afterOutput.updateAllAfterSchedule out := by
  simp only [schedule, bind_ok_iff, Prod.exists, SchedulePass.output, ensure_eq_ok, pure_ok_iff,
    Prod.mk.injEq] at h
  obtain ⟨p, hpass, _, _, ⟨_, htotal, _, hbudget, _, hrunning, _, -, cached, hcached, rfl, rfl⟩,
    rfl, rfl⟩ := h
  exact ⟨p, cached, hpass, ⟨htotal, hbudget, hrunning⟩, hcached, rfl, rfl⟩

end Scheduler

end Vllm
