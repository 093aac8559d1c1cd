import Vllm.Core.QueuePartition

/-!
# The running requests of a scheduler

Whatever the outputs stop, no request runs twice and all of `running` is live and has the status
of it: a request that is finished where the update does not look for it is never admitted again.
-/

namespace Vllm

open Checked

variable {H : Type}

namespace Scheduler

/-! ## The invariant -/

/-- A request that is live, or finished. -/
def Known (s : Scheduler H) (r : RequestId) : Prop :=
  r ∈ s.requests ∨ (s.request r).status.isFinished = true

/-- How often a request is in the queues or set aside. -/
def queueCount (s : Scheduler H) (aside : List RequestId) (r : RequestId) : Nat :=
  s.running.count r + s.waiting.count r + s.skippedWaiting.count r + aside.count r

/-- What all calls keep, with the requests that a call has set aside and those that it has
stopped. -/
structure RunningOk (s : Scheduler H) (aside gone : List RequestId) : Prop where
  nodup : s.running.Nodup
  running : ∀ r ∈ s.running, r ∉ gone → (s.request r).status = .running
  known : ∀ r, 0 < s.queueCount aside r → s.Known r
  requestId : ∀ r, (s.request r).requestId = r
  maxModelLen : s.kvCacheManager.config.maxModelLen = s.config.maxModelLen

variable {s s' : Scheduler H} {aside aside' gone gone' : List RequestId} {requestId : RequestId}

/-- A running request is live. -/
theorem RunningOk.mem_requests (h : RunningOk s aside gone) {r : RequestId} (hr : r ∈ s.running)
    (hgone : r ∉ gone) : r ∈ s.requests := by
  have hcount := List.count_pos_iff.mpr hr
  refine (h.known r ?_).resolve_right ?_
  · unfold queueCount
    omega
  · rw [h.running r hr hgone]
    decide

/-- What is set aside may be forgotten. -/
theorem RunningOk.forget (h : RunningOk s aside gone) : RunningOk s [] gone := by
  refine ⟨h.nodup, h.running, fun r hr => h.known r ?_, h.requestId, h.maxModelLen⟩
  simp only [queueCount, List.count_nil] at hr ⊢
  omega

/-- The same queues, requests and lengths. -/
theorem RunningOk.congr (h : RunningOk s aside gone) (hsame : SameQueues s s')
    (hid : ∀ r, (s'.request r).requestId = (s.request r).requestId)
    (hkv : s'.kvCacheManager.config = s.kvCacheManager.config) : RunningOk s' aside gone := by
  obtain ⟨hconfig, hrequests, hrunning, hwaiting, hskipped, -, hstatus⟩ := hsame
  constructor
  · rw [hrunning]
    exact h.nodup
  · simp only [hrunning, hstatus]
    exact h.running
  · simp only [queueCount, Known, hrunning, hwaiting, hskipped, hrequests, hstatus]
    exact h.known
  · simp only [hid]
    exact h.requestId
  · rw [hkv, hconfig]
    exact h.maxModelLen

/-- A change of a request that is none of its status or name. -/
theorem RunningOk.modify (h : RunningOk s aside gone) (requestId : RequestId)
    {f : Request H → Request H} (hstatus : (f (s.request requestId)).status =
      (s.request requestId).status)
    (hid : (f (s.request requestId)).requestId = (s.request requestId).requestId) :
    RunningOk (s.modify requestId f) aside gone := by
  refine h.congr (sameQueues_modify s requestId hstatus) (fun r => ?_) rfl
  rw [modify_request]
  split
  · rename_i heq
    rw [heq, hid]
  · rfl

/-- One request is changed or moved. -/
structure Touches (s s' : Scheduler H) (aside aside' gone gone' : List RequestId)
    (requestId : RequestId) : Prop where
  config : s'.config = s.config
  kvConfig : s'.kvCacheManager.config = s.kvCacheManager.config
  requests : ∀ r, r ≠ requestId → r ∈ s.requests → r ∈ s'.requests
  status : ∀ r, r ≠ requestId → (s'.request r).status = (s.request r).status
  id : ∀ r, (s.request r).requestId = r → (s'.request r).requestId = r
  queueCount : ∀ r, r ≠ requestId → s'.queueCount aside' r ≤ s.queueCount aside r
  known : 0 < s'.queueCount aside' requestId → s'.Known requestId
  nodup : s'.running.Nodup
  running : ∀ r, r ≠ requestId → r ∈ s'.running → r ∈ s.running
  gone : ∀ r, r ≠ requestId → r ∈ gone → r ∈ gone'
  self : requestId ∈ s'.running → requestId ∉ gone' → (s'.request requestId).status = .running

/-- A change of one request keeps the invariant. -/
theorem RunningOk.touch (h : RunningOk s aside gone) (requestId : RequestId)
    (htouch : Touches s s' aside aside' gone gone' requestId) : RunningOk s' aside' gone' where
  nodup := htouch.nodup
  running r hr hgone := by
    by_cases hself : r = requestId
    · rw [hself] at hr hgone ⊢
      exact htouch.self hr hgone
    · rw [htouch.status r hself]
      exact h.running r (htouch.running r hself hr) fun hmem => hgone (htouch.gone r hself hmem)
  known r hr := by
    by_cases hself : r = requestId
    · rw [hself] at hr ⊢
      exact htouch.known hr
    · refine (h.known r (hr.trans_le (htouch.queueCount r hself))).imp (htouch.requests r hself) ?_
      rw [htouch.status r hself]
      exact fun hfinished => hfinished
  requestId r := htouch.id r (h.requestId r)
  maxModelLen := by
    rw [htouch.kvConfig, htouch.config]
    exact h.maxModelLen

/-! ## Preemption -/

/-- A request that is taken out of `running` is put into `waiting`. -/
theorem RunningOk.preempt (h : RunningOk s aside []) {running : List RequestId}
    (hrunning : ∀ r, running.count r + (if requestId = r then 1 else 0) = s.running.count r)
    (hpreempt : { s with running }.preemptRequest requestId = .ok s') : RunningOk s' aside [] := by
  obtain ⟨hstatus, kv, hkv, rfl⟩ := preemptRequest_eq_ok hpreempt
  simp only at hstatus
  have hself := hrunning requestId
  rw [if_pos rfl] at hself
  have hmem : requestId ∈ s.running := List.count_pos_iff.mp (by omega)
  have hone := List.nodup_iff_count_le_one.mp h.nodup
  refine h.touch requestId
    ⟨rfl, KVCacheManager.free_config hkv, fun r _ hr => hr, fun r hne => ?_, fun r hid => ?_,
      fun r hne => ?_, fun _ => Or.inl (h.mem_requests hmem List.not_mem_nil), ?_,
      fun r hne hr => ?_, fun _ _ hr => hr, fun hr => ?_⟩
  · simp only [modify_request, hne, if_false]
  · simp only [modify_request]
    split
    · rename_i heq
      rw [← heq, hid]
    · exact hid
  · simp only [queueCount, modify_running, modify_skippedWaiting,
      RequestQueue.count_prependRequest, if_neg (Ne.symm hne)]
    have := hrunning r
    rw [if_neg (Ne.symm hne)] at this
    omega
  · rw [List.nodup_iff_count_le_one]
    intro r
    have hr := hone r
    have := hrunning r
    simp only [modify_running]
    omega
  · have := hrunning r
    rw [if_neg (Ne.symm hne)] at this
    simp only [modify_running, ← List.count_pos_iff] at hr ⊢
    omega
  · have hone := hone requestId
    simp only [modify_running, ← List.count_pos_iff] at hr
    omega

end Scheduler

/-! ## A schedule call -/

namespace SchedulePass

open Scheduler

variable {p p' : SchedulePass H} {inputs : ScheduleInputs} {requestId preempted : RequestId}

/-- The invariant of a pass. -/
def RunningOk (p : SchedulePass H) : Prop := Scheduler.RunningOk p.scheduler p.stepSkippedWaiting []

theorem RunningOk.setEncoder (h : RunningOk p) (manager : EncoderCacheManager) :
    RunningOk (p.setEncoder manager) :=
  Scheduler.RunningOk.congr h ⟨rfl, rfl, rfl, rfl, rfl, rfl, fun _ => rfl⟩ (fun _ => rfl) rfl

theorem RunningOk.setKV (h : RunningOk p) {kv : KVCacheManager H}
    (hkv : kv.config = p.scheduler.kvCacheManager.config) : RunningOk (p.setKV kv) :=
  Scheduler.RunningOk.congr h ⟨rfl, rfl, rfl, rfl, rfl, rfl, fun _ => rfl⟩ (fun _ => rfl) hkv

/-- The victim of a preemption does not run any more, and the others do. -/
theorem RunningOk.preempt (h : RunningOk p) (hvictim : p.victim = some preempted)
    (hpreempt : p.preempt preempted = .ok p') : RunningOk p' := by
  have haside := stepSkippedWaiting_preempt hpreempt
  obtain ⟨s, hs, rfl⟩ := preempt_eq_ok hpreempt
  rw [withoutVictim_scheduler] at hs
  unfold RunningOk
  rw [haside]
  exact Scheduler.RunningOk.preempt h (count_runningWithout hvictim) hs

/-- Scheduling a running request leaves the queues alone. -/
theorem RunningOk.scheduleRunning (h : RunningOk p) {numNewTokens : Int}
    {newBlocks : List (List BlockId)} {e : EncoderPass}
    (hschedule : p.scheduleRunning requestId numNewTokens newBlocks e = .ok p') :
    RunningOk p' := by
  obtain ⟨manager, -, rfl⟩ := allocateEncoderInputs_eq_ok hschedule
  have hmodify := Scheduler.RunningOk.modify h requestId
    (f := fun r => { r with specTokenIds := [] }) rfl rfl
  exact Scheduler.RunningOk.congr hmodify ⟨rfl, rfl, rfl, rfl, rfl, rfl, fun _ => rfl⟩
    (fun _ => rfl) rfl

section AtHand

variable {q : WaitingQueue} {rest : List RequestId}

/-- Promoting a request leaves it where it is. -/
theorem RunningOk.promote (h : RunningOk p)
    (hstatus : (p.scheduler.request requestId).status = .waitingForFsm) :
    RunningOk (p.promote requestId) := by
  refine Scheduler.RunningOk.touch h requestId ⟨rfl, rfl, fun r _ hr => hr, fun r hne => ?_,
    fun r hid => ?_, fun _ _ => le_rfl, fun hcount => ?_, h.nodup, fun _ _ hr => hr,
    fun _ _ hr => hr, fun hr hgone => ?_⟩
  · simp only [SchedulePass.promote, modify_request, hne, if_false]
  · simp only [SchedulePass.promote, modify_request]
    split
    · rename_i heq
      rw [← heq, hid]
    · exact hid
  · rcases h.known requestId hcount with hlive | hfinished
    · exact Or.inl hlive
    · rw [hstatus] at hfinished
      cases hfinished
  · have hrunning := h.running requestId hr hgone
    rw [hstatus] at hrunning
    cases hrunning

/-- Putting a request off sets it aside. -/
theorem RunningOk.skipWaiting (h : RunningOk p) (hathand : p.AtHand q requestId rest) :
    RunningOk (p.skipWaiting q requestId rest) := by
  have hcount (r : RequestId) :
      (p.skipWaiting q requestId rest).scheduler.queueCount
        (p.skipWaiting q requestId rest).stepSkippedWaiting r =
      p.scheduler.queueCount p.stepSkippedWaiting r := by
    simp only [queueCount, SchedulePass.skipWaiting, setQueue_running,
      RequestQueue.count_prependRequest]
    have := hathand.count r
    omega
  refine Scheduler.RunningOk.touch h requestId ⟨setQueue_config .., ?_, fun r _ hr => ?_,
    fun r _ => ?_, fun r hid => ?_, fun r _ => (hcount r).le, fun hpos => ?_, ?_, fun r _ hr => ?_,
    fun _ _ hr => hr, fun hr hgone => ?_⟩
  · cases q <;> rfl
  · simpa only [SchedulePass.skipWaiting, setQueue_requests] using hr
  · simp only [SchedulePass.skipWaiting, setQueue_request]
  · simpa only [SchedulePass.skipWaiting, setQueue_request] using hid
  · rw [hcount] at hpos
    simpa only [Known, SchedulePass.skipWaiting, setQueue_requests, setQueue_request] using
      h.known requestId hpos
  · simpa only [SchedulePass.skipWaiting, setQueue_running] using h.nodup
  · simpa only [SchedulePass.skipWaiting, setQueue_running] using hr
  · simp only [SchedulePass.skipWaiting, setQueue_running, setQueue_request] at hr ⊢
    exact h.running requestId hr hgone

/-- A request that waits, newly or after a preemption, does not run. -/
theorem RunningOk.not_mem_running (h : RunningOk p)
    (hstatus : (p.scheduler.request requestId).status = .waiting ∨
      (p.scheduler.request requestId).status = .preempted) :
    requestId ∉ p.scheduler.running := by
  intro hr
  rw [h.running requestId hr List.not_mem_nil] at hstatus
  simp at hstatus

/-- Admitting a request makes it run. -/
theorem RunningOk.admitWaiting (h : RunningOk p) {numNewTokens numComputedTokens : Int}
    {e : EncoderPass} (hathand : p.AtHand q requestId rest)
    (hadmitted : p.admitWaiting q requestId rest numNewTokens numComputedTokens e = .ok p') :
    RunningOk p' := by
  obtain ⟨hstatus, manager, -, rfl⟩ := admitWaiting_eq_ok hadmitted
  have hnew := h.not_mem_running hstatus
  refine Scheduler.RunningOk.touch h requestId ⟨setQueue_config .., ?_, fun r _ hr => ?_,
    fun r hne => ?_, fun r hid => ?_, fun r hne => ?_, fun hpos => ?_, ?_, fun r hne hr => ?_,
    fun _ _ hr => hr, fun _ _ => ?_⟩
  · cases q <;> rfl
  · simpa only [bookEncoderInputs, withAdmitted, modify_requests, setQueue_requests] using hr
  · simp only [bookEncoderInputs, withAdmitted, modify_request, hne, if_false, setQueue_request]
  · simp only [bookEncoderInputs, withAdmitted, modify_request, setQueue_request]
    split
    · rename_i heq
      rw [← heq, hid]
    · exact hid
  · simp only [queueCount, bookEncoderInputs, withAdmitted, List.count_append,
      List.count_singleton, modify_waiting, modify_skippedWaiting, beq_iff_eq,
      if_neg (Ne.symm hne)]
    have := hathand.count r
    rw [if_neg (Ne.symm hne)] at this
    omega
  · have hcount : 0 < p.scheduler.queueCount p.stepSkippedWaiting requestId := by
      have := hathand.count requestId
      rw [if_pos rfl] at this
      unfold queueCount
      omega
    have hlive : requestId ∈ p.scheduler.requests := by
      refine (h.known requestId hcount).resolve_right ?_
      rcases hstatus with hstatus | hstatus <;> rw [hstatus] <;> decide
    refine Or.inl ?_
    simpa only [bookEncoderInputs, withAdmitted, modify_requests, setQueue_requests] using hlive
  · simp only [bookEncoderInputs, withAdmitted]
    exact h.nodup.append (List.nodup_singleton requestId) (by simpa using hnew)
  · simp only [bookEncoderInputs, withAdmitted, List.mem_append, List.mem_singleton, hne,
      or_false] at hr
    exact hr
  · simp only [bookEncoderInputs, withAdmitted, modify_request, if_true]

end AtHand

variable [DecidableEq H]

/-- The rounds of the first loop keep the invariant. -/
theorem runningOk_runningRule (inputs : ScheduleInputs) :
    RunningRule (H := H) inputs RunningOk (fun _ _ _ => RunningOk) where
  next _ h := h
  select p requestId e h _ _ _ _ := ⟨h.setEncoder e.manager, fun _ => h.setEncoder e.manager⟩
  preempt p requestId n e kv preempted p' h halloc hvictim hpreempt := by
    have hp' := (h.setKV (KVCacheManager.allocateSlots_config halloc)).preempt hvictim hpreempt
    exact ⟨fun _ => hp', fun _ => hp'⟩
  schedule p requestId n e kv newBlocks p' h halloc hschedule :=
    (h.setKV (KVCacheManager.allocateSlots_config halloc)).scheduleRunning hschedule

/-- The rounds of the second loop keep the invariant. -/
theorem runningOk_waitingRule (inputs : ScheduleInputs) :
    WaitingRule (H := H) inputs RunningOk where
  promote _ _ _ _ h _ hstatus := h.promote hstatus
  skip _ _ _ _ h hathand := h.skipWaiting hathand
  round p q requestId rest p' goOn h hathand _ _ _ hround := by
    rcases scheduleWaiting_cases hround with
      ⟨-, rfl⟩ | ⟨hits, numLocal, numComputed, e, -, ⟨-, rfl⟩ |
        ⟨kv, result, halloc, ⟨-, -, rfl⟩ | ⟨newBlocks, -, -, -, -, hadmitted⟩⟩⟩
    · exact h
    · exact h.setEncoder e.manager
    · exact (h.setKV (KVCacheManager.allocateSlots_config halloc)).setEncoder _
    · exact ((h.setEncoder e.manager).setKV
        (KVCacheManager.allocateSlots_config halloc)).admitWaiting hathand hadmitted

end SchedulePass

namespace Scheduler

variable {s s' : Scheduler H} {inputs : ScheduleInputs}

/-- What was set aside goes back to `skipped_waiting`. -/
theorem runningOk_requeueSkipped {p : SchedulePass H} (h : p.RunningOk) :
    (requeueSkipped p).RunningOk := by
  refine ⟨h.nodup, h.running, fun r hr => h.known r ?_, h.requestId, h.maxModelLen⟩
  simp only [queueCount, requeueSkipped, RequestQueue.count_prependRequests] at hr ⊢
  omega

/-- A new step starts with the invariant. -/
theorem runningOk_startPass (h : RunningOk s [] []) : s.startPass.RunningOk :=
  h.congr ⟨rfl, rfl, rfl, rfl, rfl, rfl, fun _ => rfl⟩ (fun _ => rfl) rfl

/-- Advancing requests leaves their queues and their names alone. -/
private theorem runningOk_updateAllAfterSchedule {out : SchedulerOutput} (h : RunningOk s [] []) :
    RunningOk (s.updateAllAfterSchedule out) [] [] := by
  have hone (s : Scheduler H) (h : RunningOk s [] []) (n : Int) (k : Nat) (r : RequestId) :
      RunningOk (s.updateAfterSchedule n k r) [] [] := by
    have hmodify := h.modify r (f := Request.advance n) rfl rfl
    have hadvance : RunningOk ((s.modify r (Request.advance n)).freeEncoderInputs r) [] [] :=
      hmodify.congr ⟨rfl, rfl, rfl, rfl, rfl, rfl, fun _ => rfl⟩ (fun _ => rfl) rfl
    unfold updateAfterSchedule
    simp only
    split
    · exact hadvance.modify r rfl rfl
    · exact hadvance
  unfold updateAllAfterSchedule
  have hfold : RunningOk (out.numScheduledTokens.entries.foldl (fun s e =>
      s.updateAfterSchedule e.2 ((out.scheduledSpecDecodeTokens.get? e.1).getD []).length e.1) s)
      [] [] := by
    generalize out.numScheduledTokens.entries = entries
    induction entries generalizing s with
    | nil => exact h
    | cons e entries ih => exact ih (hone s h _ _ _)
  exact hfold.congr ⟨rfl, rfl, rfl, rfl, rfl, rfl, fun _ => rfl⟩ (fun _ => rfl) rfl

variable [DecidableEq H]

/-- The pass of a call keeps the invariant. -/
private theorem runningOk_schedulePass {p : SchedulePass H} (h : RunningOk s [] [])
    (hpass : s.schedulePass inputs = .ok p) : RunningOk p.scheduler [] [] := by
  obtain ⟨p₁, loras, hrun, hrest⟩ := schedulePass_cases hpass
  have hp₁ := SchedulePass.runningLoop_rule (SchedulePass.runningOk_runningRule inputs)
    (runningOk_startPass h) hrun
  rcases hrest with rfl | ⟨-, fuel, p₂, hwait, rfl⟩
  · exact hp₁.forget
  · refine Scheduler.RunningOk.forget (runningOk_requeueSkipped
      (SchedulePass.waitingLoop_rule (SchedulePass.runningOk_waitingRule inputs) ?_ hwait))
    exact hp₁

/-- A call keeps the invariant. -/
theorem runningOk_schedule {out : SchedulerOutput} (h : RunningOk s [] [])
    (hschedule : s.schedule inputs = .ok (out, s')) : RunningOk s' [] [] := by
  obtain ⟨p, cached, hpass, -, -, rfl, rfl⟩ := schedule_eq_ok hschedule
  exact runningOk_updateAllAfterSchedule ((runningOk_schedulePass h hpass).congr
    ⟨rfl, rfl, rfl, rfl, rfl, rfl, fun _ => rfl⟩ (fun _ => rfl) rfl)

/-! ## The other calls -/

omit [DecidableEq H] in
/-- Forced preemptions keep the invariant. -/
private theorem runningOk_forcePreemptAll (h : RunningOk s [] [])
    (hfold : s.running.reverse.foldlM (fun s requestId => s.forcePreempt requestId) s = .ok s') :
    RunningOk s' [] [] := by
  refine (foldlM_rule (I := fun (s : Scheduler H) l => RunningOk s [] [] ∧ s.running.reverse = l)
    ?_ ⟨h, rfl⟩ hfold).1
  rintro s requestId l s' ⟨h, hrunning⟩ hpreempt
  obtain ⟨s₁, hs₁, rfl⟩ := forcePreempt_eq_ok hpreempt
  have hrunning : s.running = l.reverse ++ [requestId] := by
    rw [← List.reverse_reverse s.running, hrunning, List.reverse_cons]
  rw [hrunning, List.dropLast_concat] at hs₁
  have hs₁' := h.preempt (fun r => by
    rw [hrunning, List.count_append, List.count_singleton]
    simp only [beq_iff_eq]) hs₁
  obtain ⟨-, kv, -, rfl⟩ := preemptRequest_eq_ok hs₁
  refine ⟨hs₁'.modify requestId ?_ ?_, ?_⟩
  · rfl
  · rfl
  · simp only [modify_running, List.reverse_reverse]

omit [DecidableEq H] in
/-- A reset keeps the invariant. -/
theorem runningOk_resetPrefixCache {reset done : Bool} (h : RunningOk s [] [])
    (hreset : s.resetPrefixCache reset = .ok (done, s')) : RunningOk s' [] [] := by
  obtain ⟨s₁, hs₁, prev, -, rfl⟩ := resetPrefixCache_eq_ok hreset
  have hpreempted : RunningOk s₁ [] [] := by
    rcases hs₁ with ⟨-, hfold⟩ | ⟨-, rfl⟩
    · exact runningOk_forcePreemptAll h hfold
    · exact h
  exact hpreempted.congr ⟨rfl, rfl, rfl, rfl, rfl, rfl, fun _ => rfl⟩ (fun _ => rfl) rfl

omit [DecidableEq H] in
/-- Drafts keep the invariant. -/
theorem runningOk_updateDraftTokenIds {draftTokenIds : List (RequestId × List TokenId)}
    (h : RunningOk s [] []) : RunningOk (s.updateDraftTokenIds draftTokenIds) [] [] := by
  unfold updateDraftTokenIds
  induction draftTokenIds generalizing s with
  | nil => exact h
  | cons e draftTokenIds ih =>
    rw [List.foldl_cons]
    refine ih ?_
    split
    · have hid (r : Request H) : (r.setDraftTokenIds e.2).requestId = r.requestId ∧
          (r.setDraftTokenIds e.2).status = r.status := by
        unfold Request.setDraftTokenIds
        split
        · exact ⟨rfl, rfl⟩
        · split <;> exact ⟨rfl, rfl⟩
      exact h.modify e.1 (hid _).2 (hid _).1
    · exact h

/-! ### Finished requests -/

omit [DecidableEq H] in
/-- Finishing a request that does not run keeps the invariant. -/
theorem runningOk_finishRequest {finishedStatus : RequestStatus} {r : RequestId}
    (h : RunningOk s [] []) (hstatus : finishedStatus.isFinished = true) (hr : r ∉ s.running)
    (hfinish : s.finishRequest finishedStatus r = .ok s') : RunningOk s' [] [] := by
  obtain ⟨kv, hkv, rfl⟩ := finishRequest_eq_ok hfinish
  refine h.touch r ⟨rfl, KVCacheManager.free_config hkv, fun r' hne hr' => ?_, fun r' hne => ?_,
    fun r' hid => ?_, fun _ _ => le_rfl, fun _ => Or.inr ?_, h.nodup, fun _ _ hr' => hr',
    fun _ _ hr' => hr', fun hr' => absurd hr' hr⟩
  · exact (List.mem_erase_of_ne hne).mpr hr'
  · simp only [modify_request, hne, if_false]
  · simp only [modify_request]
    split
    · rename_i heq
      rw [← heq, hid]
    · exact hid
  · simp only [modify_request, if_true, hstatus]

omit [DecidableEq H] in
/-- Finished requests first leave `running`. -/
theorem runningOk_withoutQueued (h : RunningOk s [] []) (valid : List RequestId) :
    RunningOk (s.withoutQueued valid) [] [] ∧
      ∀ r ∈ valid, r ∉ (s.withoutQueued valid).running := by
  have hcount (r : RequestId) :
      (s.withoutQueued valid).running.count r =
        if r ∈ valid.filter (fun r => (s.request r).status = .running) then 0
        else s.running.count r := by
    rw [← count_removeAll h.nodup]
    unfold withoutQueued
    simp only
    split <;> rfl
  have hframe : (s.withoutQueued valid).request = s.request ∧
      (s.withoutQueued valid).requests = s.requests ∧
      (s.withoutQueued valid).config = s.config ∧
      (s.withoutQueued valid).kvCacheManager = s.kvCacheManager ∧
      ∀ r, (s.withoutQueued valid).waiting.count r ≤ s.waiting.count r ∧
        (s.withoutQueued valid).skippedWaiting.count r ≤ s.skippedWaiting.count r := by
    unfold withoutQueued
    simp only
    split
    · exact ⟨rfl, rfl, rfl, rfl, fun r => ⟨le_rfl, le_rfl⟩⟩
    · refine ⟨rfl, rfl, rfl, rfl, fun r => ⟨?_, ?_⟩⟩
      · simp only [removeWaiting, setQueue, Scheduler.queue, RequestQueue.count_removeRequests]
        split <;> omega
      · simp only [removeWaiting, setQueue, Scheduler.queue, RequestQueue.count_removeRequests]
        split <;> omega
  obtain ⟨hrequest, hrequests, hconfig, hkv, hwaiting⟩ := hframe
  have hsub (r : RequestId) (hr : r ∈ (s.withoutQueued valid).running) : r ∈ s.running ∧
      r ∉ valid.filter (fun r => (s.request r).status = .running) := by
    rw [← List.count_pos_iff, hcount] at hr
    split at hr
    · cases hr
    · exact ⟨List.count_pos_iff.mp hr, ‹_›⟩
  refine ⟨⟨?_, fun r hr hgone => ?_, fun r hr => ?_, fun r => ?_, ?_⟩, fun r hr hrun => ?_⟩
  · rw [List.nodup_iff_count_le_one]
    intro r
    have := List.nodup_iff_count_le_one.mp h.nodup r
    rw [hcount]
    split <;> omega
  · rw [hrequest]
    exact h.running r (hsub r hr).1 hgone
  · unfold Known
    rw [hrequest, hrequests]
    refine h.known r ?_
    have hrunning := hcount r
    have hwaiting := hwaiting r
    simp only [queueCount] at hr ⊢
    split at hrunning <;> omega
  · rw [hrequest]
    exact h.requestId r
  · rw [hkv, hconfig]
    exact h.maxModelLen
  · obtain ⟨hmem, hout⟩ := hsub r hrun
    refine hout (List.mem_filter.mpr ⟨hr, ?_⟩)
    simpa using h.running r hmem List.not_mem_nil

omit [DecidableEq H] in
/-- Finishing requests keeps the invariant. -/
theorem runningOk_finishRequests {requestIds : Option (List RequestId)}
    {finishedStatus : RequestStatus} (h : RunningOk s [] [])
    (hfinish : s.finishRequests requestIds finishedStatus = .ok s') : RunningOk s' [] [] := by
  obtain ⟨hstatus, hfold⟩ := finishRequests_eq_ok hfinish
  obtain ⟨hok, hout⟩ := runningOk_withoutQueued h (s.toFinish requestIds)
  refine (foldlM_rule (I := fun s l => RunningOk s [] [] ∧ ∀ r ∈ l, r ∉ s.running) ?_
    ⟨hok, hout⟩ hfold).1
  rintro s r l s' ⟨h, hout⟩ hfinish
  refine ⟨runningOk_finishRequest h hstatus (hout r List.mem_cons_self) hfinish, fun r' hr' => ?_⟩
  obtain ⟨kv, -, rfl⟩ := finishRequest_eq_ok hfinish
  exact hout r' (List.mem_cons_of_mem _ hr')

/-! ### New requests -/

omit [DecidableEq H] in
/-- A session at its next chunk keeps its name. -/
theorem requestId_of_updateAsSession {env : HashEnv H} {blockSize : Nat} {r session : Request H}
    {update : StreamingUpdate} (h : r.updateAsSession env blockSize update = some session) :
    session.requestId = r.requestId := by
  obtain ⟨tokens, rfl⟩ := updateAsSession_eq_some h
  rfl

omit [DecidableEq H] in
/-- Joining a queue keeps the invariant. -/
theorem runningOk_enqueue {r : RequestId} (h : RunningOk s [] gone) (hlive : r ∈ s.requests) :
    RunningOk (s.enqueueWaitingRequest r) [] gone := by
  have hstay := othersStay_enqueue s r
  refine h.touch r ⟨hstay.config, ?_, fun r' _ hr' => ?_, fun r' hne => ?_, fun r' hid => ?_,
    fun r' hne => ?_, fun _ => Or.inl ?_, ?_, fun r' _ hr' => ?_, fun _ _ hr' => hr',
    fun hr hgone => ?_⟩
  · rw [enqueueWaitingRequest_kvCacheManager]
  · rwa [enqueueWaitingRequest_requests]
  · rw [hstay.request r' hne]
  · rwa [enqueueWaitingRequest_request]
  · simp only [queueCount]
    rw [hstay.running, hstay.waiting r' hne, hstay.skippedWaiting r' hne]
  · rwa [enqueueWaitingRequest_requests]
  · rw [hstay.running]
    exact h.nodup
  · rwa [hstay.running] at hr'
  · rw [hstay.running] at hr
    rw [enqueueWaitingRequest_request]
    exact h.running r hr hgone

omit [DecidableEq H] in
/-- A request that does not run is replaced by one with its name. -/
theorem runningOk_replace {r : RequestId} {f : Request H → Request H} (h : RunningOk s [] gone)
    (hlive : r ∈ s.requests) (hr : r ∈ s.running → r ∈ gone)
    (hid : (f (s.request r)).requestId = (s.request r).requestId) :
    RunningOk (s.modify r f) [] gone := by
  refine h.touch r ⟨rfl, rfl, fun _ _ hr' => hr', fun r' hne => ?_, fun r' hid' => ?_,
    fun _ _ => le_rfl, fun _ => Or.inl hlive, h.nodup, fun _ _ hr' => hr', fun _ _ hr' => hr',
    fun hrun hgone => absurd (hr hrun) hgone⟩
  · rw [modify_request, if_neg hne]
  · rw [modify_request]
    split
    · rename_i heq
      rw [hid, ← heq, hid']
    · exact hid'

omit [DecidableEq H] in
/-- A session that does not run goes on with its next chunk. -/
theorem runningOk_withSession {r : RequestId} {session : Request H} (h : RunningOk s [] gone)
    (hlive : r ∈ s.requests) (hr : r ∈ s.running → r ∈ gone)
    (hid : session.requestId = (s.request r).requestId) :
    RunningOk (s.withSession r session) [] gone := by
  obtain ⟨hnodup, hrunning, hknown, hids, hlen⟩ :=
    runningOk_replace (f := fun _ => session) h hlive hr hid
  exact ⟨hnodup, hrunning, hknown, hids, hlen⟩

omit [DecidableEq H] in
/-- A new request waits. -/
private theorem runningOk_withNew {request : Request H} (h : RunningOk s [] [])
    (hnew : request.requestId ∉ s.requests) : RunningOk (s.withNew request) [] [] := by
  have hrun : request.requestId ∉ s.running := fun hr =>
    hnew (h.mem_requests hr List.not_mem_nil)
  have hjoined : OthersStay s ((s.modify request.requestId fun _ =>
      if request.resumable then { request with streamingQueue := some [] }
      else request).enqueueWaitingRequest request.requestId) request.requestId :=
    (othersStay_modify s _ _).trans (othersStay_enqueue _ _)
  have hmem : request.requestId ∈ (s.withNew request).requests := by
    simp [withNew]
  refine h.touch request.requestId ⟨hjoined.config, ?_, fun r _ hr => ?_, fun r hne => ?_,
    fun r hid => ?_, fun r hne => ?_, fun _ => Or.inl hmem, ?_, fun r _ hr => ?_,
    fun _ _ hr => hr, fun hr => ?_⟩
  · simp only [withNew, enqueueWaitingRequest_kvCacheManager]
    rfl
  · exact List.mem_append_left _ hr
  · exact congrArg Request.status (hjoined.request r hne)
  · by_cases hne : r = request.requestId
    · simp only [withNew, enqueueWaitingRequest_request, modify_request, hne, if_true]
      split <;> rfl
    · exact (congrArg Request.requestId (hjoined.request r hne)).trans hid
  · exact (Nat.add_le_add (Nat.add_le_add (Nat.add_le_add
      (congrArg (List.count r) hjoined.running).le (hjoined.waiting r hne).le)
      (hjoined.skippedWaiting r hne).le) le_rfl)
  · exact hjoined.running.symm ▸ h.nodup
  · exact hjoined.running ▸ hr
  · exact absurd (hjoined.running ▸ hr) hrun

omit [DecidableEq H] in
/-- A request that comes in keeps the invariant. -/
theorem runningOk_addRequest {env : HashEnv H} {request : Request H} (h : RunningOk s [] [])
    (hadd : s.addRequest env request = .ok s') : RunningOk s' [] [] := by
  rcases addRequest_cases hadd with
    ⟨-, queue, rfl⟩ | ⟨hlive, hidle, ⟨_, -, session, hsession, rfl⟩ | hfinish⟩ | ⟨hnew, rfl⟩
  · exact h.modify request.requestId rfl rfl
  · refine runningOk_withSession h hlive (fun hr => ?_) (requestId_of_updateAsSession hsession)
    rw [h.running _ hr List.not_mem_nil] at hidle
    cases hidle
  · exact runningOk_finishRequests h hfinish
  · exact runningOk_withNew h hnew

/-! ### Outputs of a step -/

variable {env : HashEnv H} {out : SchedulerOutput} {model : ModelRunnerOutput}
  {u u' : UpdatePass H} {e : RequestId × Int}

omit [DecidableEq H] in
/-- What becomes of a stopped request keeps the invariant, if it is noted that it stopped. -/
theorem Stopped.runningOk {r : RequestId} (hstopped : Stopped env s r s')
    (h : RunningOk s [] gone) (hlive : r ∈ s.requests) (hr : r ∈ s.running → r ∈ gone) :
    RunningOk s' [] gone := by
  cases hstopped with
  | finished queue kv _ hfinished hkv =>
    have hreplace := runningOk_replace (f := fun request =>
      { request with streamingQueue := queue }) h hlive hr rfl
    refine hreplace.touch r ⟨rfl, KVCacheManager.free_config hkv, fun r' hne hr' => ?_,
      fun _ _ => rfl, fun _ hid => hid, fun _ _ => le_rfl, fun _ => Or.inr ?_, h.nodup,
      fun _ _ hr' => hr', fun _ _ hr' => hr', fun hrun hgone => absurd (hr hrun) hgone⟩
    · exact (List.mem_erase_of_ne hne).mpr hr'
    · simp only [withFreed, modify_request, if_true, hfinished]
  | nextChunk rest update session _ hsession =>
    have hid := requestId_of_updateAsSession hsession
    exact runningOk_enqueue (runningOk_withSession h hlive hr hid) hlive
  | idle _ _ =>
    obtain ⟨hnodup, hrunning, hknown, hids, hlen⟩ := runningOk_replace (f := fun request =>
      { request with status := .waitingForStreamingReq }) h hlive hr rfl
    have hidle : RunningOk (s.withIdleSession r) [] gone :=
      ⟨hnodup, hrunning, hknown, hids, hlen⟩
    exact runningOk_enqueue hidle hlive

/-- The output of one request keeps the invariant of the pass. -/
theorem runningOk_updateOne (h : RunningOk u.scheduler [] u.stoppedRunningReqs)
    (hstep : updateOne env out model u e = .ok u') :
    RunningOk u'.scheduler [] u'.stoppedRunningReqs := by
  have heffect := updateOne_effect hstep
  generalize e.1 = r at heffect
  rcases heffect with
    ⟨-, rfl⟩ | ⟨hunfinished, kv, outputs, hkv, ⟨hgo, rfl⟩ | ⟨hstop, s₂, hstopped, rfl⟩⟩
  · exact h
  all_goals
    have hlive : r ∈ u.scheduler.requests := by
      simp only [isUnfinished, decide_eq_true_eq] at hunfinished
      exact hunfinished.1
    have hconfig : kv.config = u.scheduler.kvCacheManager.config := by
      rcases hkv with rfl | hkv
      · rfl
      · exact KVCacheManager.cacheBlocks_config hkv
    have houtcome := Request.outcome_takeOutput env u.scheduler.hashBlockSize
      u.scheduler.config.maxModelLen u.scheduler.config.asyncScheduling
      ((out.scheduledSpecDecodeTokens.get? r).getD []).length (model.sampledTokenIds r)
      (model.poolerOutput r) (u.scheduler.request r)
    change (u.scheduler.request r).Outcome (u.scheduler.takenOutput env out model r) at houtcome
    generalize u.scheduler.takenOutput env out model r = result at *
  · have hmodify := h.modify r (f := fun _ => result.1) (houtcome.status hgo)
      houtcome.frame.requestId
    exact hmodify.congr ⟨rfl, rfl, rfl, rfl, rfl, rfl, fun _ => rfl⟩ (fun _ => rfl) hconfig
  · -- the request is noted as stopped exactly if it ran
    have hmore : RunningOk u.scheduler [] (u.stop r s₂ outputs).stoppedRunningReqs := by
      refine ⟨h.nodup, fun r' hr' hgone => h.running r' hr' fun hmem => hgone ?_, h.known,
        h.requestId, h.maxModelLen⟩
      simp only [UpdatePass.stop]
      split
      · exact List.mem_append_left _ hmem
      · exact hmem
    have hnoted : r ∈ u.scheduler.running → r ∈ (u.stop r s₂ outputs).stoppedRunningReqs := by
      intro hr
      by_cases hgone : r ∈ u.stoppedRunningReqs
      · simp only [UpdatePass.stop]
        split
        · exact List.mem_append_left _ hgone
        · exact hgone
      · simp only [UpdatePass.stop, h.running r hr hgone, if_true, List.mem_append,
          List.mem_singleton, or_true]
    have hreplace := runningOk_replace (f := fun _ => result.1) hmore hlive hnoted
      houtcome.frame.requestId
    have htaken : RunningOk (u.scheduler.withTaken r result.1 kv) []
        (u.stop r s₂ outputs).stoppedRunningReqs :=
      hreplace.congr ⟨rfl, rfl, rfl, rfl, rfl, rfl, fun _ => rfl⟩ (fun _ => rfl) hconfig
    exact hstopped.runningOk htaken hlive hnoted

/-- An update keeps the invariant. -/
theorem runningOk_updateFromOutput {outputs : List EngineCoreOutput} (h : RunningOk s [] [])
    (hupdate : s.updateFromOutput env out model = .ok (outputs, s')) : RunningOk s' [] [] := by
  obtain ⟨u, hfold, -, rfl⟩ := updateFromOutput_eq_ok hupdate
  have hu : RunningOk u.scheduler [] u.stoppedRunningReqs :=
    foldlM_rule (I := fun u _ => RunningOk u.scheduler [] u.stoppedRunningReqs)
      (fun _ _ _ _ h hstep => runningOk_updateOne h hstep) h hfold
  have hrunning (r : RequestId) (hr : r ∈ u.finish.running) :
      r ∈ u.scheduler.running ∧ r ∉ u.stoppedRunningReqs := by
    rw [← List.count_pos_iff, u.count_finish_running hu.nodup] at hr
    split at hr
    · cases hr
    · exact ⟨List.count_pos_iff.mp hr, ‹_›⟩
  refine ⟨?_, fun r hr _ => ?_, fun r hr => ?_, fun r => ?_, ?_⟩
  · rw [List.nodup_iff_count_le_one]
    intro r
    have := List.nodup_iff_count_le_one.mp hu.nodup r
    rw [u.count_finish_running hu.nodup]
    split <;> omega
  · rw [UpdatePass.finish_request]
    exact hu.running r (hrunning r hr).1 (hrunning r hr).2
  · unfold Known
    rw [UpdatePass.finish_request, UpdatePass.finish_requests]
    refine hu.known r ?_
    simp only [queueCount, UpdatePass.finish_skippedWaiting, u.count_finish_running hu.nodup,
      u.count_finish_waiting] at hr ⊢
    split_ifs at hr <;> omega
  · rw [UpdatePass.finish_request]
    exact hu.requestId r
  · rw [u.finish_eq]
    exact hu.maxModelLen

end Scheduler

/-! ## Runs -/

namespace Engine

variable [DecidableEq H] {env : HashEnv H} {e e' : Engine H}

/-- A new engine runs nothing. -/
theorem runningOk_init {config : SchedulerConfig} {kvCacheConfig : KVCacheConfig}
    {encoderCacheSize : Nat} (hinit : init config kvCacheConfig encoderCacheSize = .ok e) :
    e.scheduler.RunningOk [] [] := by
  simp only [init, Scheduler.init, bind_ok_iff, mapError_ok_iff, pure_ok_iff] at hinit
  obtain ⟨_, ⟨kv, hkv, rfl⟩, rfl⟩ := hinit
  have hnone (r : RequestId) : r ∉ ([] : List RequestId) := List.not_mem_nil
  refine ⟨List.nodup_nil, fun r hr => absurd hr (hnone r), fun r hr => ?_, fun _ => rfl, ?_⟩
  · simp [Scheduler.queueCount] at hr
  · simp only [KVCacheManager.init_config hkv]

/-- Every call keeps the invariant. -/
theorem runningOk_apply {call : EngineCall H} (h : e.scheduler.RunningOk [] [])
    (happly : e.apply env call = .ok e') : e'.scheduler.RunningOk [] [] := by
  cases call with
  | addRequest args =>
    simp only [apply, bind_ok_iff, pure_ok_iff] at happly
    obtain ⟨s, hadd, rfl⟩ := happly
    exact Scheduler.runningOk_addRequest h hadd
  | schedule inputs =>
    simp only [apply, bind_ok_iff, pure_ok_iff, Prod.exists] at happly
    obtain ⟨out, s, hschedule, rfl⟩ := happly
    exact Scheduler.runningOk_schedule h hschedule
  | updateFromOutput model =>
    simp only [apply] at happly
    split at happly
    · cases happly
    · simp only [bind_ok_iff, pure_ok_iff, Prod.exists] at happly
      obtain ⟨outputs, s, hupdate, rfl⟩ := happly
      exact Scheduler.runningOk_updateFromOutput h hupdate
  | updateDraftTokenIds draftTokenIds =>
    obtain rfl := Except.ok.inj happly
    exact Scheduler.runningOk_updateDraftTokenIds h
  | finishRequests requestIds finishedStatus =>
    simp only [apply, bind_ok_iff, pure_ok_iff] at happly
    obtain ⟨s, hfinish, rfl⟩ := happly
    exact Scheduler.runningOk_finishRequests h hfinish
  | resetPrefixCache reset =>
    simp only [apply, bind_ok_iff, pure_ok_iff, Prod.exists] at happly
    obtain ⟨done, s, hreset, rfl⟩ := happly
    exact Scheduler.runningOk_resetPrefixCache h hreset
  | setPauseState pauseState =>
    obtain rfl := Except.ok.inj happly
    exact h.congr ⟨rfl, rfl, rfl, rfl, rfl, rfl, fun _ => rfl⟩ (fun _ => rfl) rfl

end Engine

end Vllm
