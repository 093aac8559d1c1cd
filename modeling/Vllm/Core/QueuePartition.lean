import Vllm.Core.UpdateRules

/-!
# The queues partition the requests

Every request that is not finished is once in one of the queues, and it runs exactly if it is
in `running`. All calls keep this but one: when an output stops a request that does not run, the
update looks for it in `waiting` only. The property is that of the steps that stop such
requests in place.
-/

namespace Vllm

open Checked

variable {H : Type}

/-! ## The partition -/

namespace Scheduler

/-- The queues of a scheduler between its calls. -/
structure Partitioned (s : Scheduler H) : Prop where
  once : ∀ r ∈ s.requests, (s.request r).status.isFinished = false →
    s.running.count r + s.waiting.count r + s.skippedWaiting.count r = 1
  running : ∀ r ∈ s.requests, (s.request r).status.isFinished = false →
    (r ∈ s.running ↔ (s.request r).status = .running)
  unfinished : ∀ r, r ∈ s.running ∨ r ∈ s.waiting ∨ r ∈ s.skippedWaiting →
    (s.request r).status.isFinished = false
  streaming : s.numWaitingForStreamingInput =
    s.requests.countP fun r => (s.request r).status = .waitingForStreamingReq

/-- What the calls keep, with the requests that a call has set aside: the queues hold the
requests, each once, and none of them is finished. -/
structure Queued (s : Scheduler H) (aside : List RequestId) : Prop where
  nodup : s.requests.Nodup
  once : ∀ r, s.running.count r + s.waiting.count r + s.skippedWaiting.count r + aside.count r =
    s.requests.count r
  running : ∀ r ∈ s.requests, r ∈ s.running ↔ (s.request r).status = .running
  unfinished : ∀ r ∈ s.requests, (s.request r).status.isFinished = false
  streaming : s.numWaitingForStreamingInput =
    s.requests.countP fun r => (s.request r).status = .waitingForStreamingReq

variable {s s' : Scheduler H} {aside aside' : List RequestId} {requestId : RequestId}

/-- A queued request is live. -/
theorem Queued.mem_requests (h : Queued s aside) {r : RequestId}
    (hr : r ∈ s.running ∨ r ∈ s.waiting ∨ r ∈ s.skippedWaiting ∨ r ∈ aside) : r ∈ s.requests := by
  simp only [← List.count_pos_iff] at hr ⊢
  have := h.once r
  omega

/-- The invariant is the partition. -/
theorem Queued.partitioned (h : Queued s []) : Partitioned s where
  once r hr _ := by
    have := h.once r
    rwa [List.count_nil, Nat.add_zero, List.count_eq_one_of_mem h.nodup hr] at this
  running r hr _ := h.running r hr
  unfinished r hr := h.unfinished r <| h.mem_requests <| by
    rcases hr with hr | hr | hr <;> simp [hr]
  streaming := h.streaming

/-! ## Moves -/

/-- The queues and the requests' statuses are the same. -/
structure SameQueues (s s' : Scheduler H) : Prop where
  config : s'.config = s.config
  requests : s'.requests = s.requests
  running : s'.running = s.running
  waiting : s'.waiting = s.waiting
  skippedWaiting : s'.skippedWaiting = s.skippedWaiting
  streaming : s'.numWaitingForStreamingInput = s.numWaitingForStreamingInput
  status : ∀ r, (s'.request r).status = (s.request r).status

theorem SameQueues.refl (s : Scheduler H) : SameQueues s s :=
  ⟨rfl, rfl, rfl, rfl, rfl, rfl, fun _ => rfl⟩

theorem SameQueues.trans {s'' : Scheduler H} (h : SameQueues s s') (h' : SameQueues s' s'') :
    SameQueues s s'' :=
  ⟨h'.config.trans h.config, h'.requests.trans h.requests, h'.running.trans h.running,
    h'.waiting.trans h.waiting, h'.skippedWaiting.trans h.skippedWaiting,
    h'.streaming.trans h.streaming, fun r => (h'.status r).trans (h.status r)⟩

/-- A change of a request that is not one of its status. -/
theorem sameQueues_modify (s : Scheduler H) (requestId : RequestId) {f : Request H → Request H}
    (hf : (f (s.request requestId)).status = (s.request requestId).status) :
    SameQueues s (s.modify requestId f) := by
  refine ⟨rfl, rfl, rfl, rfl, rfl, rfl, fun r => ?_⟩
  rw [modify_request]
  split
  · rename_i heq
    rw [heq, hf]
  · rfl

/-- The same queues are queues in order. -/
theorem Queued.congr (h : Queued s aside) (hsame : SameQueues s s') : Queued s' aside := by
  obtain ⟨-, hrequests, hrunning, hwaiting, hskipped, hstreaming, hstatus⟩ := hsame
  constructor
  · rw [hrequests]
    exact h.nodup
  · rw [hrequests, hrunning, hwaiting, hskipped]
    exact h.once
  · simp only [hrequests, hrunning, hstatus]
    exact h.running
  · simp only [hrequests, hstatus]
    exact h.unfinished
  · simp only [hrequests, hstreaming, hstatus]
    exact h.streaming

/-- The number of requests with a property when one request changes. -/
theorem countP_of_changed (p p' : RequestId → Bool) {l : List RequestId} (hl : l.Nodup)
    (hr : requestId ∈ l) (hsame : ∀ r, r ≠ requestId → p' r = p r) :
    l.countP p' + (if p requestId then 1 else 0) =
      l.countP p + if p' requestId then 1 else 0 := by
  have hperm := List.perm_cons_erase hr
  have hrest : (l.erase requestId).countP p' = (l.erase requestId).countP p := by
    refine List.countP_congr fun r hr => ?_
    rw [hsame r ((hl.mem_erase_iff.mp hr).1)]
  rw [hperm.countP_eq, hperm.countP_eq, List.countP_cons, List.countP_cons, hrest]
  omega

/-- A live request goes from one place to another and may change its status. -/
structure Moves (s s' : Scheduler H) (aside aside' : List RequestId) (requestId : RequestId) :
    Prop where
  live : requestId ∈ s.requests
  requests : s'.requests = s.requests
  count : ∀ r, s'.running.count r + s'.waiting.count r + s'.skippedWaiting.count r +
    aside'.count r =
      s.running.count r + s.waiting.count r + s.skippedWaiting.count r + aside.count r
  others : ∀ r, r ≠ requestId → (s'.request r).status = (s.request r).status ∧
    s'.running.count r = s.running.count r
  running : 0 < s'.running.count requestId ↔ (s'.request requestId).status = .running
  unfinished : (s'.request requestId).status.isFinished = false
  streaming : s'.numWaitingForStreamingInput +
      (if (s.request requestId).status = .waitingForStreamingReq then 1 else 0) =
    s.numWaitingForStreamingInput +
      if (s'.request requestId).status = .waitingForStreamingReq then 1 else 0

/-- Moves keep the queues in order. -/
theorem Queued.move (h : Queued s aside) (requestId : RequestId)
    (hmove : Moves s s' aside aside' requestId) :
    Queued s' aside' where
  nodup := hmove.requests ▸ h.nodup
  once r := by rw [hmove.count, h.once, hmove.requests]
  running r hr := by
    rw [← List.count_pos_iff]
    by_cases heq : r = requestId
    · rw [heq]
      exact hmove.running
    · obtain ⟨hstatus, hrunning⟩ := hmove.others r heq
      rw [hstatus, hrunning, List.count_pos_iff]
      exact h.running r (hmove.requests ▸ hr)
  unfinished r hr := by
    by_cases heq : r = requestId
    · rw [heq]
      exact hmove.unfinished
    · rw [(hmove.others r heq).1]
      exact h.unfinished r (hmove.requests ▸ hr)
  streaming := by
    have hcount := countP_of_changed
      (fun r => (s.request r).status = .waitingForStreamingReq)
      (fun r => (s'.request r).status = .waitingForStreamingReq) h.nodup hmove.live
      (fun r hne => by simp only [(hmove.others r hne).1])
    have hstreaming := hmove.streaming
    rw [h.streaming] at hstreaming
    rw [hmove.requests]
    simp only [decide_eq_true_eq] at hcount
    split_ifs at hcount hstreaming <;> omega

/-- Some live requests are forgotten, and the others stay. -/
structure Leaves (s s' : Scheduler H) (aside aside' : List RequestId) (gone : List RequestId) :
    Prop where
  nodup : gone.Nodup
  live : ∀ r ∈ gone, r ∈ s.requests
  requests : s'.requests = s.requests.diff gone
  count : ∀ r, s'.running.count r + s'.waiting.count r + s'.skippedWaiting.count r +
    aside'.count r = s'.requests.count r
  others : ∀ r, r ∉ gone → (s'.request r).status = (s.request r).status ∧
    s'.running.count r = s.running.count r
  streaming : s'.numWaitingForStreamingInput = s.numWaitingForStreamingInput -
    gone.countP fun r => (s.request r).status = .waitingForStreamingReq

/-- When requests leave, the queues stay in order. -/
theorem Queued.leave (h : Queued s aside) (gone : List RequestId)
    (hleave : Leaves s s' aside aside' gone) : Queued s' aside' := by
  have hgone (r : RequestId) (hr : r ∈ s'.requests) : r ∈ s.requests ∧ r ∉ gone := by
    rw [hleave.requests, h.nodup.mem_sdiff_iff] at hr
    exact hr
  have hperm : s.requests.Perm (gone ++ s'.requests) := by
    rw [hleave.requests, List.perm_iff_count]
    intro r
    rw [List.count_append, List.count_diff]
    have hle := List.Subperm.count_le (hleave.nodup.subperm hleave.live) r
    omega
  constructor
  · rw [hleave.requests]
    exact h.nodup.diff
  · exact hleave.count
  · intro r hr
    obtain ⟨hmem, hstays⟩ := hgone r hr
    obtain ⟨hstatus, hrunning⟩ := hleave.others r hstays
    rw [← List.count_pos_iff, hstatus, hrunning, List.count_pos_iff]
    exact h.running r hmem
  · intro r hr
    obtain ⟨hmem, hstays⟩ := hgone r hr
    rw [(hleave.others r hstays).1]
    exact h.unfinished r hmem
  · have hcount := hperm.countP_eq fun r => (s.request r).status = .waitingForStreamingReq
    have hrest : s'.requests.countP (fun r => (s'.request r).status = .waitingForStreamingReq) =
        s'.requests.countP fun r => (s.request r).status = .waitingForStreamingReq := by
      refine List.countP_congr fun r hr => ?_
      rw [(hleave.others r (hgone r hr).2).1]
    rw [List.countP_append] at hcount
    rw [hleave.streaming, h.streaming, hrest]
    omega

/-! ## Preemption -/

/-- A request that is taken out of `running` is put into `waiting`. -/
theorem Queued.preempt (h : Queued s aside) {running : List RequestId}
    (hrunning : ∀ r, running.count r + (if requestId = r then 1 else 0) = s.running.count r)
    (hpreempt : { s with running }.preemptRequest requestId = .ok s') : Queued s' aside := by
  obtain ⟨hstatus, kv, -, rfl⟩ := preemptRequest_eq_ok hpreempt
  simp only at hstatus
  have hself := hrunning requestId
  rw [if_pos rfl] at hself
  have hlive : requestId ∈ s.requests :=
    h.mem_requests (Or.inl (List.count_pos_iff.mp (by omega)))
  have honce := h.once requestId
  rw [List.count_eq_one_of_mem h.nodup hlive] at honce
  refine h.move requestId ⟨hlive, rfl, fun r => ?_, fun r hne => ?_, ?_, ?_, ?_⟩
  · simp only [modify_running, RequestQueue.count_prependRequest]
    have := hrunning r
    simp only [modify_skippedWaiting]
    omega
  · have := hrunning r
    rw [if_neg (Ne.symm hne)] at this
    simp only [modify_request, hne, if_false, modify_running, true_and]
    omega
  · simp only [modify_running, modify_request, if_true, reduceCtorEq, iff_false]
    omega
  · simp only [modify_request, if_true]
    rfl
  · simp only [modify_request, if_true, hstatus, reduceCtorEq, if_false]
    rfl

end Scheduler

namespace SchedulePass

open Scheduler

variable {p p' : SchedulePass H} {inputs : ScheduleInputs} {requestId preempted : RequestId}

/-- The request to preempt runs. -/
theorem lowestPriority_mem {request : RequestId → Request H} {running : List RequestId}
    (h : lowestPriority request running = some preempted) : preempted ∈ running := by
  cases running with
  | nil => cases h
  | cons first rest =>
    rw [← Option.some.inj h]
    generalize hstart : (first :: rest : List RequestId) = all
    have hfirst : first ∈ all := hstart ▸ List.mem_cons_self
    have hrest : ∀ r ∈ rest, r ∈ all := fun r hr => hstart ▸ List.mem_cons_of_mem _ hr
    clear hstart h
    induction rest generalizing first with
    | nil => exact hfirst
    | cons other rest ih =>
      rw [List.foldl_cons]
      refine ih _ ?_ fun r hr => hrest r (List.mem_cons_of_mem _ hr)
      split
      · exact hrest other List.mem_cons_self
      · exact hfirst

/-- The running requests without one that is about to be preempted. -/
def runningWithout (p : SchedulePass H) (preempted : RequestId) : List RequestId :=
  match p.scheduler.config.policy with
  | .priority => p.scheduler.running.erase preempted
  | .fcfs => p.scheduler.running.dropLast

/-- Of the scheduler only the running requests change before a preemption. -/
theorem withoutVictim_scheduler (p : SchedulePass H) (preempted : RequestId) :
    (p.withoutVictim preempted).scheduler =
      { p.scheduler with running := p.runningWithout preempted } := by
  unfold withoutVictim runningWithout
  cases p.scheduler.config.policy with
  | priority =>
    simp only
    split <;> rfl
  | fcfs => rfl

/-- Exactly the victim is gone. -/
theorem count_runningWithout (h : p.victim = some preempted) (r : RequestId) :
    (p.runningWithout preempted).count r + (if preempted = r then 1 else 0) =
      p.scheduler.running.count r := by
  unfold victim at h
  unfold runningWithout
  cases hpolicy : p.scheduler.config.policy with
  | priority =>
    simp only [hpolicy] at h ⊢
    have hperm := List.perm_cons_erase (lowestPriority_mem h)
    rw [hperm.count_eq, List.count_cons]
    simp only [beq_iff_eq]
  | fcfs =>
    simp only [hpolicy] at h ⊢
    have hsplit := List.dropLast_append_getLast? preempted h
    conv_rhs => rw [← hsplit]
    rw [List.count_append, List.count_singleton]
    simp only [beq_iff_eq]

/-- A preemption of a victim keeps the queues in order. -/
theorem queued_preempt {aside : List RequestId} (h : Queued p.scheduler aside)
    (hvictim : p.victim = some preempted) (hpreempt : p.preempt preempted = .ok p') :
    Queued p'.scheduler aside := by
  obtain ⟨s, hs, rfl⟩ := preempt_eq_ok hpreempt
  rw [withoutVictim_scheduler] at hs
  exact h.preempt (count_runningWithout hvictim) hs

/-! ## The first loop -/

/-- Scheduling a running request leaves the queues alone. -/
private theorem sameQueues_scheduleRunning {numNewTokens : Int} {newBlocks : List (List BlockId)}
    {e : EncoderPass} (h : p.scheduleRunning requestId numNewTokens newBlocks e = .ok p') :
    SameQueues p.scheduler p'.scheduler ∧ p'.stepSkippedWaiting = p.stepSkippedWaiting := by
  obtain ⟨manager, -, rfl⟩ := allocateEncoderInputs_eq_ok h
  exact ⟨(sameQueues_modify p.scheduler requestId (f := fun r => { r with specTokenIds := [] })
    rfl).trans ⟨rfl, rfl, rfl, rfl, rfl, rfl, fun _ => rfl⟩, rfl⟩

/-- A preemption sets no waiting request aside. -/
theorem stepSkippedWaiting_preempt (h : p.preempt preempted = .ok p') :
    p'.stepSkippedWaiting = p.stepSkippedWaiting := by
  obtain ⟨s, -, rfl⟩ := preempt_eq_ok h
  unfold withoutVictim
  cases p.scheduler.config.policy with
  | priority =>
    simp only
    split <;> rfl
  | fcfs => rfl

variable [DecidableEq H]

/-- The rounds of the first loop keep the queues in order. -/
theorem queued_runningRule (inputs : ScheduleInputs) :
    RunningRule (H := H) inputs (fun p => Queued p.scheduler [] ∧ p.stepSkippedWaiting = [])
      (fun _ _ _ p => Queued p.scheduler [] ∧ p.stepSkippedWaiting = []) where
  next _ h := h
  select p requestId e h _ _ _ _ := by
    have hsame : SameQueues p.scheduler (p.setEncoder e.manager).scheduler :=
      ⟨rfl, rfl, rfl, rfl, rfl, rfl, fun _ => rfl⟩
    exact ⟨⟨h.1.congr hsame, h.2⟩, fun _ => ⟨h.1.congr hsame, h.2⟩⟩
  preempt p requestId n e kv preempted p' h _ hvictim hpreempt := by
    have hsame : SameQueues p.scheduler (p.setKV kv).scheduler :=
      ⟨rfl, rfl, rfl, rfl, rfl, rfl, fun _ => rfl⟩
    have hqueued := queued_preempt (h.1.congr hsame) hvictim hpreempt
    have haside := (stepSkippedWaiting_preempt hpreempt).trans h.2
    exact ⟨fun _ => ⟨hqueued, haside⟩, fun _ => ⟨hqueued, haside⟩⟩
  schedule p requestId n e kv newBlocks p' h _ hschedule := by
    have hsame : SameQueues p.scheduler (p.setKV kv).scheduler :=
      ⟨rfl, rfl, rfl, rfl, rfl, rfl, fun _ => rfl⟩
    obtain ⟨hrest, haside⟩ := sameQueues_scheduleRunning hschedule
    exact ⟨h.1.congr (hsame.trans hrest), haside.trans h.2⟩

/-! ## The second loop -/

section AtHand

variable {q : WaitingQueue} {rest : List RequestId}

omit [DecidableEq H] in
/-- A request at hand leaves its queue, which keeps the others. -/
theorem AtHand.count (h : p.AtHand q requestId rest) (r : RequestId) :
    (p.scheduler.setQueue rest q).waiting.count r +
        (p.scheduler.setQueue rest q).skippedWaiting.count r +
        (if requestId = r then 1 else 0) =
      p.scheduler.waiting.count r + p.scheduler.skippedWaiting.count r := by
  have hcount := RequestQueue.count_of_popRequest r h
  cases q with
  | waiting =>
    simp only [Scheduler.setQueue, Scheduler.queue] at hcount ⊢
    omega
  | skippedWaiting =>
    simp only [Scheduler.setQueue, Scheduler.queue] at hcount ⊢
    omega

omit [DecidableEq H] in
/-- A request at hand is live and does not run. -/
theorem AtHand.once (h : p.AtHand q requestId rest)
    (hqueued : Queued p.scheduler p.stepSkippedWaiting) :
    requestId ∈ p.scheduler.requests ∧ p.scheduler.running.count requestId = 0 := by
  have hcount := h.count requestId
  rw [if_pos rfl] at hcount
  have honce := hqueued.once requestId
  have hlive : requestId ∈ p.scheduler.requests := List.count_pos_iff.mp (by omega)
  rw [List.count_eq_one_of_mem hqueued.nodup hlive] at honce
  exact ⟨hlive, by omega⟩

omit [DecidableEq H] in
/-- Promoting a request keeps the queues in order. -/
theorem queued_promote (hqueued : Queued p.scheduler p.stepSkippedWaiting)
    (h : p.AtHand q requestId rest)
    (hstatus : (p.scheduler.request requestId).status = .waitingForFsm) :
    Queued (p.promote requestId).scheduler p.stepSkippedWaiting := by
  obtain ⟨hlive, hrunning⟩ := h.once hqueued
  refine hqueued.move requestId ⟨hlive, rfl, fun _ => rfl, fun r hne => ?_, ?_, ?_, ?_⟩
  · simp only [promote, modify_request, hne, if_false, modify_running, and_self]
  · simp only [promote, modify_request, if_true, modify_running, hrunning, reduceCtorEq,
      Nat.lt_irrefl]
  · simp only [promote, modify_request, if_true]
    rfl
  · simp only [promote, modify_request, if_true, hstatus, reduceCtorEq, if_false]
    rfl

omit [DecidableEq H] in
/-- Putting a request off sets it aside. -/
theorem queued_skipWaiting (hqueued : Queued p.scheduler p.stepSkippedWaiting)
    (h : p.AtHand q requestId rest) :
    Queued (p.skipWaiting q requestId rest).scheduler
      (p.skipWaiting q requestId rest).stepSkippedWaiting := by
  obtain ⟨hlive, hrunning⟩ := h.once hqueued
  have hstatus := hqueued.running requestId hlive
  rw [← List.count_pos_iff] at hstatus
  refine hqueued.move requestId
    ⟨hlive, setQueue_requests .., fun r => ?_, fun r hne => ?_, ?_, ?_, ?_⟩
  · simp only [skipWaiting, setQueue_running, RequestQueue.count_prependRequest]
    have := h.count r
    omega
  · simp only [skipWaiting, setQueue_request, setQueue_running, and_self]
  · simpa only [skipWaiting, setQueue_running, setQueue_request] using hstatus
  · simpa only [skipWaiting, setQueue_request] using hqueued.unfinished requestId hlive
  · simp only [skipWaiting, setQueue_request]
    cases q <;> rfl

omit [DecidableEq H] in
/-- Admitting a request moves it to the running ones. -/
private theorem queued_admitWaiting {numNewTokens numComputedTokens : Int} {e : EncoderPass}
    (hqueued : Queued p.scheduler p.stepSkippedWaiting) (h : p.AtHand q requestId rest)
    (hadmitted : p.admitWaiting q requestId rest numNewTokens numComputedTokens e = .ok p') :
    Queued p'.scheduler p'.stepSkippedWaiting := by
  obtain ⟨hlive, hrunning⟩ := h.once hqueued
  obtain ⟨hstatus, manager, -, rfl⟩ := admitWaiting_eq_ok hadmitted
  refine hqueued.move requestId
    ⟨hlive, setQueue_requests .., fun r => ?_, fun r hne => ?_, ?_, ?_, ?_⟩
  · simp only [bookEncoderInputs, withAdmitted, List.count_append, List.count_singleton,
      modify_waiting, modify_skippedWaiting, beq_iff_eq]
    have := h.count r
    omega
  · simp only [bookEncoderInputs, withAdmitted, modify_request, hne, if_false, setQueue_request,
      List.count_append, List.count_singleton, beq_iff_eq, Ne.symm hne, Nat.add_zero, and_self]
  · simp [bookEncoderInputs, withAdmitted, modify_request]
  · simp only [bookEncoderInputs, withAdmitted, modify_request, if_true]
    rfl
  · have hidle : (p.scheduler.request requestId).status ≠ .waitingForStreamingReq := by
      rcases hstatus with hstatus | hstatus <;> rw [hstatus] <;> decide
    simp only [bookEncoderInputs, withAdmitted, modify_request, if_true, hidle, reduceCtorEq,
      if_false]
    cases q <;> rfl

end AtHand

/-- The rounds of the second loop keep the queues in order. -/
theorem queued_waitingRule (inputs : ScheduleInputs) :
    WaitingRule (H := H) inputs fun p => Queued p.scheduler p.stepSkippedWaiting where
  promote _ _ _ _ h hathand hstatus := queued_promote h hathand hstatus
  skip _ _ _ _ h hathand := queued_skipWaiting h hathand
  round p q requestId rest p' goOn h hathand _ _ _ hround := by
    rcases scheduleWaiting_cases hround with
      ⟨-, rfl⟩ | ⟨hits, numLocal, numComputed, e, -, ⟨-, rfl⟩ |
        ⟨kv, result, -, ⟨-, -, rfl⟩ | ⟨newBlocks, -, -, -, -, hadmitted⟩⟩⟩
    · exact h
    · exact h.congr ⟨rfl, rfl, rfl, rfl, rfl, rfl, fun _ => rfl⟩
    · exact h.congr ⟨rfl, rfl, rfl, rfl, rfl, rfl, fun _ => rfl⟩
    · have hsame : SameQueues p.scheduler ((p.setEncoder e.manager).setKV kv).scheduler :=
        ⟨rfl, rfl, rfl, rfl, rfl, rfl, fun _ => rfl⟩
      exact queued_admitWaiting (p := (p.setEncoder e.manager).setKV kv) (h.congr hsame) hathand
        hadmitted

end SchedulePass

/-! ## The calls -/

namespace Scheduler

variable {s s' : Scheduler H} {inputs : ScheduleInputs}

/-- What was set aside goes back to `skipped_waiting`. -/
private theorem queued_requeueSkipped {p : SchedulePass H}
    (h : Queued p.scheduler p.stepSkippedWaiting) : Queued (requeueSkipped p).scheduler [] where
  nodup := h.nodup
  once r := by
    simp only [requeueSkipped, RequestQueue.count_prependRequests, List.count_nil]
    have := h.once r
    omega
  running := h.running
  unfinished := h.unfinished
  streaming := h.streaming

variable [DecidableEq H] in
/-- The pass of a call keeps the queues in order. -/
private theorem queued_schedulePass {p : SchedulePass H} (h : Queued s [])
    (hpass : s.schedulePass inputs = .ok p) : Queued p.scheduler [] := by
  obtain ⟨p₁, loras, hrun, hrest⟩ := schedulePass_cases hpass
  have hstart : Queued s.startPass.scheduler [] ∧ s.startPass.stepSkippedWaiting = [] :=
    ⟨h.congr ⟨rfl, rfl, rfl, rfl, rfl, rfl, fun _ => rfl⟩, rfl⟩
  obtain ⟨hp₁, haside⟩ :=
    SchedulePass.runningLoop_rule (SchedulePass.queued_runningRule inputs) hstart hrun
  rcases hrest with rfl | ⟨-, fuel, p₂, hwait, rfl⟩
  · exact hp₁
  · refine queued_requeueSkipped
      (SchedulePass.waitingLoop_rule (SchedulePass.queued_waitingRule inputs) ?_ hwait)
    simp only [haside]
    exact hp₁

/-- Advancing a request leaves the queues alone. -/
private theorem sameQueues_updateAfterSchedule (s : Scheduler H) (n : Int) (k : Nat)
    (requestId : RequestId) : SameQueues s (s.updateAfterSchedule n k requestId) := by
  have hadvance : SameQueues s
      ((s.modify requestId (Request.advance n)).freeEncoderInputs requestId) :=
    (sameQueues_modify s requestId rfl).trans ⟨rfl, rfl, rfl, rfl, rfl, rfl, fun _ => rfl⟩
  unfold updateAfterSchedule
  simp only
  split
  · exact hadvance.trans (sameQueues_modify _ requestId rfl)
  · exact hadvance

variable [DecidableEq H] in
/-- A call keeps the queues in order. -/
theorem queued_schedule {out : SchedulerOutput} (h : Queued s [])
    (hschedule : s.schedule inputs = .ok (out, s')) : Queued s' [] := by
  obtain ⟨p, cached, hpass, -, -, rfl, rfl⟩ := schedule_eq_ok hschedule
  have hafter : SameQueues p.scheduler p.afterOutput :=
    ⟨rfl, rfl, rfl, rfl, rfl, rfl, fun _ => rfl⟩
  refine ((queued_schedulePass h hpass).congr hafter).congr ?_
  unfold updateAllAfterSchedule
  generalize (p.outputData cached).numScheduledTokens.entries = entries
  generalize p.afterOutput = s
  have hfold : SameQueues s (entries.foldl (fun s e => s.updateAfterSchedule e.2
      (((p.outputData cached).scheduledSpecDecodeTokens.get? e.1).getD []).length e.1) s) := by
    induction entries generalizing s with
    | nil => exact SameQueues.refl s
    | cons e entries ih => exact (sameQueues_updateAfterSchedule s _ _ _).trans (ih _)
  exact hfold.trans ⟨rfl, rfl, rfl, rfl, rfl, rfl, fun _ => rfl⟩

/-- Forced preemptions keep the queues in order. -/
private theorem queued_forcePreemptAll (h : Queued s [])
    (hfold : s.running.reverse.foldlM (fun s requestId => s.forcePreempt requestId) s = .ok s') :
    Queued s' [] := by
  refine (foldlM_rule (I := fun (s : Scheduler H) l => Queued s [] ∧ s.running.reverse = l)
    ?_ ⟨h, rfl⟩ hfold).1
  rintro s requestId l s' ⟨h, hrunning⟩ hpreempt
  obtain ⟨s₁, hs₁, rfl⟩ := forcePreempt_eq_ok hpreempt
  have hrunning : s.running = l.reverse ++ [requestId] := by
    rw [← List.reverse_reverse s.running, hrunning, List.reverse_cons]
  rw [hrunning, List.dropLast_concat] at hs₁
  have hqueued := h.preempt (fun r => by
    rw [hrunning, List.count_append, List.count_singleton]
    simp only [beq_iff_eq]) hs₁
  obtain ⟨-, kv, -, rfl⟩ := preemptRequest_eq_ok hs₁
  refine ⟨hqueued.congr (sameQueues_modify _ requestId rfl), ?_⟩
  simp only [modify_running, List.reverse_reverse]

/-- A reset keeps the queues in order. -/
theorem queued_resetPrefixCache {reset done : Bool} (h : Queued s [])
    (hreset : s.resetPrefixCache reset = .ok (done, s')) : Queued s' [] := by
  obtain ⟨s₁, hs₁, prev, -, rfl⟩ := resetPrefixCache_eq_ok hreset
  have hqueued : Queued s₁ [] := by
    rcases hs₁ with ⟨-, hfold⟩ | ⟨-, rfl⟩
    · exact queued_forcePreemptAll h hfold
    · exact h
  exact hqueued.congr ⟨rfl, rfl, rfl, rfl, rfl, rfl, fun _ => rfl⟩

/-- Drafts leave the queues alone. -/
theorem sameQueues_updateDraftTokenIds (s : Scheduler H)
    (draftTokenIds : List (RequestId × List TokenId)) :
    SameQueues s (s.updateDraftTokenIds draftTokenIds) := by
  unfold updateDraftTokenIds
  induction draftTokenIds generalizing s with
  | nil => exact SameQueues.refl s
  | cons e draftTokenIds ih =>
    rw [List.foldl_cons]
    refine SameQueues.trans ?_ (ih _)
    split
    · refine sameQueues_modify s e.1 ?_
      unfold Request.setDraftTokenIds
      split
      · rfl
      · split <;> rfl
    · exact SameQueues.refl s

/-! ## Finished requests -/

/-- The removed items are gone and the others stay. -/
theorem count_removeAll {requests : List RequestId} (h : requests.Nodup)
    (items : List RequestId) (r : RequestId) :
    (removeAll requests items).count r = if r ∈ items then 0 else requests.count r := by
  unfold removeAll
  split
  · simp
  · rename_i item
    by_cases heq : r = item
    · rw [heq, if_pos (List.mem_singleton_self item)]
      exact List.count_eq_zero.mpr h.not_mem_erase
    · rw [if_neg (by simpa using heq), List.count_erase_of_ne heq]
  · rename_i items _ _
    split
    · rename_i hmem
      exact List.count_eq_zero.mpr fun hr => by simp [hmem] at hr
    · rename_i hmem
      exact List.count_filter (by simpa using hmem)

/-- Nothing runs twice. -/
theorem Queued.nodup_running {s : Scheduler H} {aside : List RequestId} (h : Queued s aside) :
    s.running.Nodup := by
  rw [List.nodup_iff_count_le_one]
  intro r
  have hle := List.nodup_iff_count_le_one.mp h.nodup r
  have := h.once r
  omega

variable {r : RequestId}

/-- The requests to finish are live, and each is finished once. -/
theorem mem_toFinish {s : Scheduler H} {requestIds : Option (List RequestId)}
    (hr : r ∈ s.toFinish requestIds) : r ∈ s.requests := by
  have hunfinished := (List.mem_filter.mp hr).2
  simp only [isUnfinished, decide_eq_true_eq] at hunfinished
  exact hunfinished.1

/-- The queues without some of the live requests. -/
structure TakenOut (s s' : Scheduler H) (gone : List RequestId) : Prop where
  request : s'.request = s.request
  requests : s'.requests = s.requests
  running : ∀ r, s'.running.count r = if r ∈ gone then 0 else s.running.count r
  waiting : ∀ r, s'.waiting.count r = if r ∈ gone then 0 else s.waiting.count r
  skippedWaiting : ∀ r, s'.skippedWaiting.count r =
    if r ∈ gone then 0 else s.skippedWaiting.count r
  streaming : s'.numWaitingForStreamingInput = s.numWaitingForStreamingInput -
    gone.countP fun r => (s.request r).status = .waitingForStreamingReq

/-- Requests are taken out of the queues they are in. -/
theorem takenOut_withoutQueued (h : Queued s []) {gone : List RequestId}
    (hlive : ∀ r ∈ gone, r ∈ s.requests) : TakenOut s (s.withoutQueued gone) gone := by
  have hstatus (r : RequestId) (hr : r ∈ gone) :
      0 < s.running.count r ↔ (s.request r).status = .running := by
    rw [List.count_pos_iff]
    exact h.running r (hlive r hr)
  have honce (r : RequestId) (hr : r ∈ gone) := h.once r
  have hone (r : RequestId) (hr : r ∈ gone) : s.requests.count r = 1 :=
    List.count_eq_one_of_mem h.nodup (hlive r hr)
  have hrunning (r : RequestId) : (removeAll s.running
      (gone.filter fun r => (s.request r).status = .running)).count r =
        if r ∈ gone then 0 else s.running.count r := by
    rw [count_removeAll h.nodup_running]
    by_cases hr : r ∈ gone
    · by_cases hrun : (s.request r).status = .running
      · simp [hr, hrun]
      · have := (not_congr (hstatus r hr)).mpr hrun
        simp only [List.mem_filter, hr, hrun, decide_false, Bool.false_eq_true, and_false, if_false,
          if_true]
        omega
    · simp [hr]
  have hwaiting (r : RequestId) (hr : r ∈ gone) (hrun : (s.request r).status = .running) :
      s.waiting.count r = 0 ∧ s.skippedWaiting.count r = 0 := by
    have := (hstatus r hr).mpr hrun
    have := honce r hr
    rw [hone r hr] at this
    omega
  unfold withoutQueued
  simp only
  split
  · rename_i hnone
    have hrun (r : RequestId) (hr : r ∈ gone) : (s.request r).status = .running := by
      have := List.filter_eq_nil_iff.mp hnone r hr
      simpa using this
    refine ⟨rfl, rfl, hrunning, fun r => ?_, fun r => ?_, rfl⟩
    · split
      · exact (hwaiting r ‹_› (hrun r ‹_›)).1
      · rfl
    · split
      · exact (hwaiting r ‹_› (hrun r ‹_›)).2
      · rfl
  · have hqueue (queue : List RequestId) (lt : RequestId → RequestId → Bool)
        (hqueue : ∀ r ∈ gone, (s.request r).status = .running → queue.count r = 0)
        (r : RequestId) : (RequestQueue.removeRequests s.config.policy lt queue
          (gone.filter fun r => (s.request r).status ≠ .running)).count r =
            if r ∈ gone then 0 else queue.count r := by
      rw [RequestQueue.count_removeRequests]
      by_cases hr : r ∈ gone
      · by_cases hrun : (s.request r).status = .running
        · simp [hr, hrun, hqueue r hr hrun]
        · simp [hr, hrun]
      · simp [hr]
    exact ⟨rfl, rfl, hrunning,
      hqueue _ _ fun r hr hrun => (hwaiting r hr hrun).1,
      hqueue _ _ fun r hr hrun => (hwaiting r hr hrun).2, rfl⟩

/-- Finishing requests one after another touches no queue. -/
private theorem finishRequest_fold {finishedStatus : RequestStatus} {gone : List RequestId}
    (hfold : gone.foldlM (fun s requestId => s.finishRequest finishedStatus requestId) s =
      .ok s') : s'.requests = s.requests.diff gone ∧ s'.running = s.running ∧
      s'.waiting = s.waiting ∧ s'.skippedWaiting = s.skippedWaiting ∧
      s'.numWaitingForStreamingInput = s.numWaitingForStreamingInput ∧
      ∀ r, r ∉ gone → s'.request r = s.request r := by
  induction gone generalizing s with
  | nil =>
    obtain rfl := pure_ok_iff.mp hfold
    exact ⟨rfl, rfl, rfl, rfl, rfl, fun _ _ => rfl⟩
  | cons requestId gone ih =>
    rw [List.foldlM_cons, bind_ok_iff] at hfold
    obtain ⟨s₁, hfinish, hrest⟩ := hfold
    obtain ⟨kv, -, rfl⟩ := finishRequest_eq_ok hfinish
    obtain ⟨hrequests, hrunning, hwaiting, hskipped, hstreaming, hrequest⟩ := ih hrest
    refine ⟨by rw [hrequests, List.diff_cons], hrunning, hwaiting, hskipped, hstreaming,
      fun r hr => ?_⟩
    rw [List.mem_cons, not_or] at hr
    rw [hrequest r hr.2]
    simp only [modify_request, hr.1, if_false]

/-- Finishing requests keeps the queues in order. -/
theorem queued_finishRequests {requestIds : Option (List RequestId)}
    {finishedStatus : RequestStatus} (h : Queued s [])
    (hfinish : s.finishRequests requestIds finishedStatus = .ok s') : Queued s' [] := by
  obtain ⟨-, hfold⟩ := finishRequests_eq_ok hfinish
  have hlive (r : RequestId) (hr : r ∈ s.toFinish requestIds) := mem_toFinish hr
  have hnodup : (s.toFinish requestIds).Nodup := (List.nodup_dedup _).filter _
  generalize s.toFinish requestIds = gone at hfold hlive hnodup
  have hout := takenOut_withoutQueued h hlive
  obtain ⟨hrequests, hrunning, hwaiting, hskipped, hstreaming, hrequest⟩ := finishRequest_fold hfold
  rw [hout.requests] at hrequests
  refine h.leave gone ⟨hnodup, hlive, hrequests, fun r => ?_, fun r hr => ?_, ?_⟩
  · rw [hrunning, hwaiting, hskipped, hout.running, hout.waiting, hout.skippedWaiting, hrequests,
      List.count_diff, List.count_nil]
    have honce := h.once r
    rw [List.count_nil] at honce
    by_cases hr : r ∈ gone
    · have hle := List.nodup_iff_count_le_one.mp h.nodup r
      rw [List.count_eq_one_of_mem hnodup hr]
      simp only [hr, if_true]
      omega
    · rw [List.count_eq_zero_of_not_mem hr]
      simp only [hr, if_false]
      omega
  · rw [hrequest r hr, hrunning, hout.request, hout.running]
    simp only [hr, if_false, and_self]
  · rw [hstreaming, hout.streaming]

/-! ## New requests -/

/-- An idle session is at its next chunk where it is. -/
theorem queued_withSession {session : Request H} (h : Queued s []) (hlive : r ∈ s.requests)
    (hidle : (s.request r).status = .waitingForStreamingReq)
    (hsession : session.status = .waiting) : Queued (s.withSession r session) [] := by
  have hrunning := h.running r hlive
  rw [← List.count_pos_iff, hidle] at hrunning
  simp only [reduceCtorEq, iff_false] at hrunning
  refine h.move r ⟨hlive, rfl, fun _ => rfl, fun r' hne => ?_, ?_, ?_, ?_⟩
  · simp only [withSession, modify_request, hne, if_false, modify_running, and_self]
  · simpa only [withSession, modify_request, if_true, modify_running, hsession, reduceCtorEq,
      iff_false] using hrunning
  · simp only [withSession, modify_request, if_true, hsession]
    rfl
  · simp only [withSession, modify_request, if_true, hsession, hidle, reduceCtorEq, if_false]
    omega

/-- A request that was not live joins one of the queues. -/
structure Joins (s s' : Scheduler H) (requestId : RequestId) : Prop where
  new : requestId ∉ s.requests
  requests : s'.requests = s.requests ++ [requestId]
  running : s'.running = s.running
  count : ∀ r, s'.waiting.count r + s'.skippedWaiting.count r =
    s.waiting.count r + s.skippedWaiting.count r + if requestId = r then 1 else 0
  others : ∀ r, r ≠ requestId → s'.request r = s.request r
  status : (s'.request requestId).status = .waiting ∨
    (s'.request requestId).status = .waitingForFsm
  streaming : s'.numWaitingForStreamingInput = s.numWaitingForStreamingInput

/-- When a request joins, the queues stay in order. -/
theorem Queued.join (h : Queued s []) (requestId : RequestId) (hjoin : Joins s s' requestId) :
    Queued s' [] := by
  obtain ⟨hnew, hrequests, hrunning, hcount, hothers, hstatus, hstreaming⟩ := hjoin
  have hall (r : RequestId) (hr : r ∈ s'.requests) :
      (r ∈ s.requests ∧ r ≠ requestId) ∨ r = requestId := by
    rw [hrequests, List.mem_append, List.mem_singleton] at hr
    exact hr.imp (fun hr => ⟨hr, fun heq => hnew (heq ▸ hr)⟩) id
  have hnone := h.once requestId
  rw [List.count_eq_zero_of_not_mem hnew, List.count_nil] at hnone
  constructor
  · rw [hrequests]
    exact h.nodup.append (List.nodup_singleton requestId) (by simpa using hnew)
  · intro r
    rw [hrequests, hrunning, List.count_append, List.count_singleton, List.count_nil]
    have honce := h.once r
    rw [List.count_nil] at honce
    have := hcount r
    simp only [beq_iff_eq]
    omega
  · intro r hr
    rw [hrunning]
    rcases hall r hr with ⟨hr, hne⟩ | rfl
    · rw [hothers r hne]
      exact h.running r hr
    · have hrun : (s'.request r).status ≠ .running := by
        rcases hstatus with hstatus | hstatus <;> rw [hstatus] <;> decide
      rw [← List.count_pos_iff]
      simp only [hrun, iff_false]
      omega
  · intro r hr
    rcases hall r hr with ⟨hr, hne⟩ | rfl
    · rw [hothers r hne]
      exact h.unfinished r hr
    · rcases hstatus with hstatus | hstatus <;> rw [hstatus] <;> rfl
  · have hidle : (s'.request requestId).status ≠ .waitingForStreamingReq := by
      rcases hstatus with hstatus | hstatus <;> rw [hstatus] <;> decide
    have hcountP : s.requests.countP
        (fun r => (s'.request r).status = .waitingForStreamingReq) = s.requests.countP
          fun r => (s.request r).status = .waitingForStreamingReq :=
      List.countP_congr fun r hr => by rw [hothers r fun heq => hnew (heq ▸ hr)]
    rw [hstreaming, h.streaming, hrequests, List.countP_append, hcountP, List.countP_singleton]
    simp only [hidle, decide_false, Bool.false_eq_true, if_false, Nat.add_zero]

/-- A new request joins `waiting`, or `skipped_waiting` if it is blocked. -/
private theorem queued_withNew {request : Request H} (h : Queued s [])
    (hnew : request.requestId ∉ s.requests)
    (hstatus : request.status = .waiting ∨ request.status = .waitingForFsm) :
    Queued (s.withNew request) [] := by
  obtain ⟨session, hsession⟩ : ∃ session : Request H, session =
      if request.resumable then { request with streamingQueue := some [] } else request := ⟨_, rfl⟩
  have hjoined : session.status = request.status := by
    rw [hsession]
    split <;> rfl
  unfold withNew
  rw [← hsession]
  generalize request.requestId = r at hnew ⊢
  have hself : (s.modify r fun _ => session).request r = session := by
    simp only [modify_request, if_true]
  have hothers (r' : RequestId) (hne : r' ≠ r) :
      (s.modify r fun _ => session).request r' = s.request r' := by
    simp only [modify_request, hne, if_false]
  rcases hstatus with hstatus | hstatus
  · rw [enqueueWaitingRequest_of_not_blocked _ _ (by rw [hself, hjoined, hstatus]; rfl)]
    refine h.join r ⟨hnew, rfl, rfl, fun r' => ?_, hothers, Or.inl ?_, rfl⟩
    · simp only [RequestQueue.count_addRequest, modify_waiting, modify_skippedWaiting]
      omega
    · simp only [hself, hjoined, hstatus]
  · rw [enqueueWaitingRequest_of_blocked _ _ (by rw [hself, hjoined, hstatus]; rfl)]
    refine h.join r ⟨hnew, rfl, rfl, fun r' => ?_, hothers, Or.inr ?_, rfl⟩
    · simp only [RequestQueue.count_addRequest, modify_waiting, modify_skippedWaiting]
      omega
    · simp only [hself, hjoined, hstatus]

/-- A request that comes in keeps the queues in order. -/
theorem queued_addRequest {env : HashEnv H} {request : Request H} (h : Queued s [])
    (hstatus : request.status = .waiting ∨ request.status = .waitingForFsm)
    (hadd : s.addRequest env request = .ok s') : Queued s' [] := by
  rcases addRequest_cases hadd with
    ⟨-, queue, rfl⟩ | ⟨hlive, hidle, ⟨_, -, session, hsession, rfl⟩ | hfinish⟩ | ⟨hnew, rfl⟩
  · exact h.congr (sameQueues_modify s request.requestId rfl)
  · exact queued_withSession h hlive hidle (status_of_updateAsSession hsession)
  · exact queued_finishRequests h hfinish
  · exact queued_withNew h hnew hstatus

/-! ## Outputs of a step -/

/-- A request that an output stops while it does not run was not stopped before, and it is in
`waiting` exactly if no next chunk is queued for it. -/
def StopsInPlace [DecidableEq H] (s : Scheduler H) (env : HashEnv H) (out : SchedulerOutput)
    (model : ModelRunnerOutput) : Prop :=
  ∀ e ∈ out.numScheduledTokens.entries, s.isUnfinished e.1 = true →
    (s.request e.1).status ≠ .running → (s.takenOutput env out model e.1).2.2 = true →
    (s.request e.1).status ≠ .waitingForStreamingReq ∧
      (e.1 ∈ s.waiting ↔ (s.request e.1).hasNextChunk = false)

instance [DecidableEq H] (s : Scheduler H) (env : HashEnv H) (out : SchedulerOutput)
    (model : ModelRunnerOutput) : Decidable (s.StopsInPlace env out model) :=
  inferInstanceAs (Decidable (∀ e ∈ out.numScheduledTokens.entries, _))

section Finish

variable (u : UpdatePass H)

theorem UpdatePass.finish_eq : u.finish = { u.scheduler with
    running := removeAll u.scheduler.running u.stoppedRunningReqs
    waiting := u.finish.waiting } := by
  unfold finish
  simp only
  split <;> rfl

@[simp] theorem UpdatePass.stop_scheduler (requestId : RequestId) (s : Scheduler H)
    (outputs : List EngineCoreOutput) : (u.stop requestId s outputs).scheduler = s := rfl

@[simp] theorem UpdatePass.finish_request : u.finish.request = u.scheduler.request := by
  rw [finish_eq]

@[simp] theorem UpdatePass.finish_requests : u.finish.requests = u.scheduler.requests := by
  rw [finish_eq]

@[simp] theorem UpdatePass.finish_skippedWaiting :
    u.finish.skippedWaiting = u.scheduler.skippedWaiting := by
  rw [finish_eq]

@[simp] theorem UpdatePass.finish_numWaitingForStreamingInput :
    u.finish.numWaitingForStreamingInput = u.scheduler.numWaitingForStreamingInput := by
  rw [finish_eq]

theorem UpdatePass.count_finish_running (h : u.scheduler.running.Nodup) (r : RequestId) :
    u.finish.running.count r =
      if r ∈ u.stoppedRunningReqs then 0 else u.scheduler.running.count r := by
  rw [finish_eq]
  exact count_removeAll h _ r

theorem UpdatePass.count_finish_waiting (r : RequestId) : u.finish.waiting.count r =
    if r ∈ u.stoppedPreemptedReqs then 0 else u.scheduler.waiting.count r := by
  unfold finish
  simp only
  split
  · rename_i hnone
    simp [hnone]
  · exact RequestQueue.count_removeRequests r _

end Finish

variable [DecidableEq H] {env : HashEnv H} {out : SchedulerOutput} {model : ModelRunnerOutput}
  {u u' : UpdatePass H} {e : RequestId × Int}

/-- What the output of one request leaves alone. -/
structure OthersStay (s s' : Scheduler H) (requestId : RequestId) : Prop where
  config : s'.config = s.config
  hashBlockSize : s'.hashBlockSize = s.hashBlockSize
  running : s'.running = s.running
  request : ∀ r, r ≠ requestId → s'.request r = s.request r
  requests : ∀ r, r ≠ requestId → s'.requests.count r = s.requests.count r
  waiting : ∀ r, r ≠ requestId → s'.waiting.count r = s.waiting.count r
  skippedWaiting : ∀ r, r ≠ requestId → s'.skippedWaiting.count r = s.skippedWaiting.count r

omit [DecidableEq H] in
theorem OthersStay.trans {s₁ s₂ s₃ : Scheduler H} (h : OthersStay s₁ s₂ r)
    (h' : OthersStay s₂ s₃ r) : OthersStay s₁ s₃ r :=
  ⟨h'.config.trans h.config, h'.hashBlockSize.trans h.hashBlockSize, h'.running.trans h.running,
    fun r' hne => (h'.request r' hne).trans (h.request r' hne),
    fun r' hne => (h'.requests r' hne).trans (h.requests r' hne),
    fun r' hne => (h'.waiting r' hne).trans (h.waiting r' hne),
    fun r' hne => (h'.skippedWaiting r' hne).trans (h.skippedWaiting r' hne)⟩

omit [DecidableEq H] in
/-- Joining a queue leaves the other requests where they are. -/
theorem othersStay_enqueue (s : Scheduler H) (r : RequestId) :
    OthersStay s (s.enqueueWaitingRequest r) r := by
  cases hblocked : (s.request r).status.isBlockedWaiting with
  | false =>
    rw [enqueueWaitingRequest_of_not_blocked _ _ hblocked]
    refine ⟨rfl, rfl, rfl, fun _ _ => rfl, fun _ _ => rfl, fun r' hne => ?_, fun _ _ => rfl⟩
    rw [RequestQueue.count_addRequest, if_neg (Ne.symm hne), Nat.add_zero]
  | true =>
    rw [enqueueWaitingRequest_of_blocked _ _ hblocked]
    refine ⟨rfl, rfl, rfl, fun _ _ => rfl, fun _ _ => rfl, fun _ _ => rfl, fun r' hne => ?_⟩
    rw [RequestQueue.count_addRequest, if_neg (Ne.symm hne), Nat.add_zero]

omit [DecidableEq H] in
/-- A change of one request leaves the others alone. -/
theorem othersStay_modify (s : Scheduler H) (r : RequestId) (f : Request H → Request H) :
    OthersStay s (s.modify r f) r :=
  ⟨rfl, rfl, rfl, fun r' hne => by simp only [modify_request, hne, if_false], fun _ _ => rfl,
    fun _ _ => rfl, fun _ _ => rfl⟩

omit [DecidableEq H] in
/-- What becomes of a stopped request leaves the others alone. -/
theorem Stopped.othersStay (h : Stopped env s r s') : OthersStay s s' r := by
  cases h with
  | finished queue kv _ _ hkv =>
    have hmodify := othersStay_modify s r fun request => { request with streamingQueue := queue }
    refine ⟨rfl, ?_, rfl, hmodify.request, fun r' hne => ?_, fun _ _ => rfl, fun _ _ => rfl⟩
    · exact congrArg KVCacheConfig.hashBlockSize (KVCacheManager.free_config hkv)
    · exact List.count_erase_of_ne hne
  | nextChunk rest update session _ _ =>
    have hsession : OthersStay s (s.withSession r session) r :=
      ⟨rfl, rfl, rfl, (othersStay_modify s r fun _ => session).request, fun _ _ => rfl,
        fun _ _ => rfl, fun _ _ => rfl⟩
    exact hsession.trans (othersStay_enqueue _ r)
  | idle _ _ =>
    have hidle : OthersStay s (s.withIdleSession r) r :=
      ⟨rfl, rfl, rfl, (othersStay_modify s r fun request =>
        { request with status := .waitingForStreamingReq }).request, fun _ _ => rfl,
        fun _ _ => rfl, fun _ _ => rfl⟩
    exact hidle.trans (othersStay_enqueue _ r)

/-- An output that is taken leaves the other requests alone. -/
theorem othersStay_withTaken {updated : Request H} {kv : KVCacheManager H} {n : Int}
    (hkv : kv = s.kvCacheManager ∨ s.kvCacheManager.cacheBlocks updated n = .ok kv) :
    OthersStay s (s.withTaken r updated kv) r := by
  have hconfig : kv.config = s.kvCacheManager.config := by
    rcases hkv with rfl | hkv
    · rfl
    · exact KVCacheManager.cacheBlocks_config hkv
  exact ⟨rfl, congrArg KVCacheConfig.hashBlockSize hconfig, rfl,
    (othersStay_modify s r fun _ => updated).request, fun _ _ => rfl, fun _ _ => rfl,
    fun _ _ => rfl⟩

/-- The output of one request leaves the others alone. -/
theorem othersStay_updateOne (h : updateOne env out model u e = .ok u') :
    OthersStay u.scheduler u'.scheduler e.1 ∧
      (∀ r, r ≠ e.1 → (r ∈ u'.stoppedRunningReqs ↔ r ∈ u.stoppedRunningReqs)) ∧
      ∀ r, r ≠ e.1 → (r ∈ u'.stoppedPreemptedReqs ↔ r ∈ u.stoppedPreemptedReqs) := by
  rcases updateOne_effect h with
    ⟨-, rfl⟩ | ⟨-, kv, outputs, hkv, ⟨-, rfl⟩ | ⟨-, s, hstopped, rfl⟩⟩
  · exact ⟨⟨rfl, rfl, rfl, fun _ _ => rfl, fun _ _ => rfl, fun _ _ => rfl, fun _ _ => rfl⟩,
      fun _ _ => Iff.rfl, fun _ _ => Iff.rfl⟩
  · exact ⟨othersStay_withTaken hkv, fun _ _ => Iff.rfl, fun _ _ => Iff.rfl⟩
  · refine ⟨(othersStay_withTaken hkv).trans hstopped.othersStay, fun r hne => ?_,
      fun r hne => ?_⟩
    · simp only [UpdatePass.stop]
      split <;> simp [hne]
    · simp only [UpdatePass.stop]
      split <;> simp [hne]

/-- The outputs of some entries are still to be taken: these requests are as at the start, and
the queues will be in order once the stopped requests have left. -/
structure Underway (s : Scheduler H) (u : UpdatePass H) (l : List (RequestId × Int)) : Prop where
  queued : Queued u.finish []
  running : u.scheduler.running = s.running
  config : u.scheduler.config = s.config
  hashBlockSize : u.scheduler.hashBlockSize = s.hashBlockSize
  keys : (l.map Prod.fst).Nodup
  request : ∀ e ∈ l, u.scheduler.request e.1 = s.request e.1
  requests : ∀ e ∈ l, u.scheduler.requests.count e.1 = s.requests.count e.1
  waiting : ∀ e ∈ l, u.scheduler.waiting.count e.1 = s.waiting.count e.1
  fresh : ∀ e ∈ l, e.1 ∉ u.stoppedRunningReqs ∧ e.1 ∉ u.stoppedPreemptedReqs

omit [DecidableEq H] in
/-- What the queues of a pass will hold of a request that has not been stopped in it. -/
theorem once_of_fresh (h : Queued u.finish []) (hrunning : u.scheduler.running.Nodup)
    (hlive : r ∈ u.scheduler.requests) (hfresh : r ∉ u.stoppedRunningReqs)
    (hfresh' : r ∉ u.stoppedPreemptedReqs) :
    u.scheduler.running.count r + u.scheduler.waiting.count r +
        u.scheduler.skippedWaiting.count r = 1 ∧
      (0 < u.scheduler.running.count r ↔ (u.scheduler.request r).status = .running) := by
  have hfinish := u.finish_eq
  have honce := h.once r
  have hstatus := h.running r (by rw [hfinish]; exact hlive)
  rw [u.count_finish_running hrunning, u.count_finish_waiting, if_neg hfresh, if_neg hfresh',
    List.count_nil] at honce
  rw [← List.count_pos_iff, u.count_finish_running hrunning, if_neg hfresh] at hstatus
  rw [hfinish] at honce hstatus
  simp only at honce hstatus
  have hone : u.scheduler.requests.count r = 1 :=
    List.count_eq_one_of_mem (by have := h.nodup; rwa [hfinish] at this) hlive
  exact ⟨by omega, hstatus⟩

omit [DecidableEq H] in
/-- The queues without a stopped request: it does not run any more, and if it did not run before,
it is not in `waiting` either. -/
theorem count_finish_stop {s₂ : Scheduler H} (outputs : List EngineCoreOutput)
    (hothers : OthersStay u.scheduler s₂ r) (hrunning : u.scheduler.running.Nodup)
    (hfresh : r ∉ u.stoppedRunningReqs) (hfresh' : r ∉ u.stoppedPreemptedReqs)
    (hstatus : 0 < u.scheduler.running.count r ↔ (u.scheduler.request r).status = .running) :
    (u.stop r s₂ outputs).finish.running.count r = 0 ∧
      (u.stop r s₂ outputs).finish.waiting.count r =
        (if (u.scheduler.request r).status = .running then s₂.waiting.count r else 0) ∧
      ∀ r', r' ≠ r →
        (u.stop r s₂ outputs).finish.running.count r' = u.finish.running.count r' ∧
        (u.stop r s₂ outputs).finish.waiting.count r' = u.finish.waiting.count r' := by
  have hnodup : (u.stop r s₂ outputs).scheduler.running.Nodup := hothers.running ▸ hrunning
  by_cases hrun : (u.scheduler.request r).status = .running
  · refine ⟨?_, ?_, fun r' hne => ⟨?_, ?_⟩⟩
    · rw [UpdatePass.count_finish_running _ hnodup]
      simp [UpdatePass.stop, hrun]
    · rw [UpdatePass.count_finish_waiting]
      simp [UpdatePass.stop, hrun, hfresh']
    · rw [UpdatePass.count_finish_running _ hnodup, UpdatePass.count_finish_running _ hrunning]
      simp [UpdatePass.stop, hrun, hne, hothers.running]
    · rw [UpdatePass.count_finish_waiting, UpdatePass.count_finish_waiting,
        ← hothers.waiting r' hne]
      simp [UpdatePass.stop, hrun]
  · have hnone : u.scheduler.running.count r = 0 := by
      have := (not_congr hstatus).mpr hrun
      omega
    refine ⟨?_, ?_, fun r' hne => ⟨?_, ?_⟩⟩
    · rw [UpdatePass.count_finish_running _ hnodup]
      simp [UpdatePass.stop, hrun, hfresh, hothers.running, hnone]
    · rw [UpdatePass.count_finish_waiting]
      simp [UpdatePass.stop, hrun]
    · rw [UpdatePass.count_finish_running _ hnodup, UpdatePass.count_finish_running _ hrunning]
      simp [UpdatePass.stop, hrun, hothers.running]
    · rw [UpdatePass.count_finish_waiting, UpdatePass.count_finish_waiting,
        ← hothers.waiting r' hne]
      simp [UpdatePass.stop, hrun, hne]

variable {outputs : List EngineCoreOutput}

omit [DecidableEq H] in
/-- A session that goes on or waits moves, if the queues behind the pass hold it once. -/
theorem moves_finish_stop {s₂ : Scheduler H} (h : Queued u.finish [])
    (hothers : OthersStay u.scheduler s₂ r) (hrunning : u.scheduler.running.Nodup)
    (hlive : r ∈ u.scheduler.requests) (hfresh : r ∉ u.stoppedRunningReqs)
    (hfresh' : r ∉ u.stoppedPreemptedReqs) (hrequests : s₂.requests = u.scheduler.requests)
    (hrun : (s₂.request r).status ≠ .running)
    (hunfinished : (s₂.request r).status.isFinished = false)
    (hplaced : (if (u.scheduler.request r).status = .running then s₂.waiting.count r else 0) +
      s₂.skippedWaiting.count r = 1) (hstreaming : s₂.numWaitingForStreamingInput +
        (if (u.scheduler.request r).status = .waitingForStreamingReq then 1 else 0) =
      u.scheduler.numWaitingForStreamingInput +
        if (s₂.request r).status = .waitingForStreamingReq then 1 else 0) :
    Moves u.finish (u.stop r s₂ outputs).finish [] [] r := by
  obtain ⟨honce, hstatus⟩ := once_of_fresh h hrunning hlive hfresh hfresh'
  obtain ⟨hself, hwaiting, hcount⟩ :=
    count_finish_stop outputs hothers hrunning hfresh hfresh' hstatus
  have hone := h.once r
  rw [UpdatePass.finish_requests, List.count_eq_one_of_mem (by simpa using h.nodup) hlive,
    List.count_nil] at hone
  refine ⟨by simpa using hlive, by simpa using hrequests, fun r' => ?_, fun r' hne => ?_, ?_, ?_,
    ?_⟩
  · by_cases hne : r' = r
    · rw [hne, hself, hwaiting, UpdatePass.finish_skippedWaiting, List.count_nil]
      simp only [UpdatePass.stop]
      omega
    · obtain ⟨hr, hw⟩ := hcount r' hne
      rw [hr, hw, UpdatePass.finish_skippedWaiting, UpdatePass.finish_skippedWaiting,
        ← hothers.skippedWaiting r' hne]
      rfl
  · rw [UpdatePass.finish_request, UpdatePass.finish_request, ← hothers.request r' hne]
    exact ⟨rfl, (hcount r' hne).1⟩
  · rw [hself, UpdatePass.finish_request]
    simpa using hrun
  · rw [UpdatePass.finish_request]
    exact hunfinished
  · rw [UpdatePass.finish_request, UpdatePass.finish_request,
      UpdatePass.finish_numWaitingForStreamingInput,
      UpdatePass.finish_numWaitingForStreamingInput]
    exact hstreaming

omit [DecidableEq H] in
/-- A request that goes on stays where it is. -/
theorem queued_finish_goesOn {updated : Request H} {kv : KVCacheManager H} (h : Queued u.finish [])
    (hrunning : u.scheduler.running.Nodup) (hlive : r ∈ u.scheduler.requests)
    (hstatus : updated.status = (u.scheduler.request r).status) :
    Queued { u with scheduler := u.scheduler.withTaken r updated kv, outputs }.finish [] := by
  generalize hu' : ({ u with
    scheduler := u.scheduler.withTaken r updated kv, outputs } : UpdatePass H) = u'
  have hcount (r' : RequestId) : u'.finish.running.count r' = u.finish.running.count r' ∧
      u'.finish.waiting.count r' = u.finish.waiting.count r' := by
    rw [UpdatePass.count_finish_running _ (by rw [← hu']; exact hrunning),
      UpdatePass.count_finish_running _ hrunning, UpdatePass.count_finish_waiting,
      UpdatePass.count_finish_waiting, ← hu']
    exact ⟨rfl, rfl⟩
  have hsame (r' : RequestId) : (u'.finish.request r').status = (u.finish.request r').status := by
    rw [UpdatePass.finish_request, UpdatePass.finish_request, ← hu']
    simp only [withTaken, modify_request]
    split
    · rename_i heq
      rw [heq, hstatus]
    · rfl
  refine h.move r ⟨by simpa using hlive, ?_, fun r' => ?_, fun r' _ => ⟨hsame r', (hcount r').1⟩,
    ?_, ?_, ?_⟩
  · rw [UpdatePass.finish_requests, UpdatePass.finish_requests, ← hu']
    rfl
  · rw [(hcount r').1, (hcount r').2, UpdatePass.finish_skippedWaiting,
      UpdatePass.finish_skippedWaiting, ← hu']
    rfl
  · rw [(hcount r).1, hsame r, List.count_pos_iff]
    exact h.running r (by simpa using hlive)
  · rw [hsame r]
    exact h.unfinished r (by simpa using hlive)
  · rw [hsame r, UpdatePass.finish_numWaitingForStreamingInput,
      UpdatePass.finish_numWaitingForStreamingInput, ← hu']
    rfl

omit [DecidableEq H] in
/-- A finished request that ran or is in `waiting` leaves the queues. -/
theorem queued_finish_freed {s₂ : Scheduler H} (h : Queued u.finish [])
    (hothers : OthersStay u.scheduler s₂ r) (hrunning : u.scheduler.running.Nodup)
    (hlive : r ∈ u.scheduler.requests) (hfresh : r ∉ u.stoppedRunningReqs)
    (hfresh' : r ∉ u.stoppedPreemptedReqs) (hrequests : s₂.requests = u.scheduler.requests.erase r)
    (hwaiting : s₂.waiting = u.scheduler.waiting)
    (hskipped : s₂.skippedWaiting = u.scheduler.skippedWaiting)
    (hstreaming : s₂.numWaitingForStreamingInput = u.scheduler.numWaitingForStreamingInput)
    (hidle : (u.scheduler.request r).status ≠ .waitingForStreamingReq)
    (hplaced : (u.scheduler.request r).status ≠ .running → 0 < u.scheduler.waiting.count r) :
    Queued (u.stop r s₂ outputs).finish [] := by
  have hnodup : u.scheduler.requests.Nodup := by simpa using h.nodup
  obtain ⟨honce, hstatus⟩ := once_of_fresh h hrunning hlive hfresh hfresh'
  obtain ⟨hself, hwaiting', hcount⟩ :=
    count_finish_stop outputs hothers hrunning hfresh hfresh' hstatus
  rw [hwaiting] at hwaiting'
  have hout : (if (u.scheduler.request r).status = .running then u.scheduler.waiting.count r
      else 0) + u.scheduler.skippedWaiting.count r = 0 := by
    split
    · have := hstatus.mpr ‹_›
      omega
    · have := hplaced ‹_›
      omega
  refine h.leave [r] ⟨List.nodup_singleton r, by simpa using hlive, ?_, fun r' => ?_,
    fun r' hr' => ?_, ?_⟩
  · simp only [UpdatePass.finish_requests, List.diff_cons, List.diff_nil]
    exact hrequests
  · simp only [UpdatePass.finish_skippedWaiting, UpdatePass.finish_requests,
      UpdatePass.stop_scheduler, List.count_nil]
    by_cases hne : r' = r
    · rw [hne, hself, hwaiting', hrequests, hskipped,
        List.count_eq_zero.mpr hnodup.not_mem_erase]
      omega
    · obtain ⟨hr, hw⟩ := hcount r' hne
      have honce' := h.once r'
      simp only [UpdatePass.finish_skippedWaiting, UpdatePass.finish_requests] at honce'
      rw [hr, hw, hothers.skippedWaiting r' hne, hothers.requests r' hne]
      exact honce'
  · have hne : r' ≠ r := by simpa using hr'
    refine ⟨?_, (hcount r' hne).1⟩
    rw [UpdatePass.finish_request, UpdatePass.finish_request]
    exact congrArg Request.status (hothers.request r' hne)
  · simp only [UpdatePass.finish_numWaitingForStreamingInput, UpdatePass.finish_request,
      UpdatePass.stop_scheduler, List.countP_singleton, hidle, hstreaming]
    simp

/-- A step of the pass keeps the queues in order, if it stops a request where the end of the pass
looks for it. -/
theorem queued_finish_updateOne (h : Queued u.finish []) (hrunning : u.scheduler.running.Nodup)
    (hfresh : e.1 ∉ u.stoppedRunningReqs) (hfresh' : e.1 ∉ u.stoppedPreemptedReqs)
    (hplace : u.scheduler.isUnfinished e.1 = true → (u.scheduler.request e.1).status ≠ .running →
      (u.scheduler.takenOutput env out model e.1).2.2 = true →
      (u.scheduler.request e.1).status ≠ .waitingForStreamingReq ∧
        (0 < u.scheduler.waiting.count e.1 ↔
          (u.scheduler.request e.1).hasNextChunk = false))
    (hstep : updateOne env out model u e = .ok u') : Queued u'.finish [] := by
  have heffect := updateOne_effect hstep
  generalize e.1 = r at heffect hfresh hfresh' hplace
  rcases heffect with
    ⟨-, rfl⟩ | ⟨hlive, kv, outputs, hkv, ⟨hgo, rfl⟩ | ⟨hstop, s₂, hstopped, rfl⟩⟩
  · exact h
  all_goals
    have hmem : r ∈ u.scheduler.requests := by
      simp only [isUnfinished, decide_eq_true_eq] at hlive
      exact hlive.1
    have houtcome := Request.outcome_takeOutput env u.scheduler.hashBlockSize
      u.scheduler.config.maxModelLen u.scheduler.config.asyncScheduling
      ((out.scheduledSpecDecodeTokens.get? r).getD []).length (model.sampledTokenIds r)
      (model.poolerOutput r) (u.scheduler.request r)
    change (u.scheduler.request r).Outcome (u.scheduler.takenOutput env out model r) at houtcome
    generalize u.scheduler.takenOutput env out model r = result at *
  · exact queued_finish_goesOn h hrunning hmem (houtcome.status hgo)
  · obtain ⟨honce, hstatus⟩ := once_of_fresh h hrunning hmem hfresh hfresh'
    have hplace := fun hrun => hplace hlive hrun hstop
    have htaken : OthersStay u.scheduler (u.scheduler.withTaken r result.1 kv) r :=
      othersStay_withTaken hkv
    have hothers := htaken.trans hstopped.othersStay
    obtain ⟨s₁, hs₁⟩ : ∃ s₁, s₁ = u.scheduler.withTaken r result.1 kv := ⟨_, rfl⟩
    have hupdated : s₁.request r = result.1 := by
      rw [hs₁]
      simp only [withTaken, modify_request, if_true]
    have hnext : (s₁.request r).hasNextChunk = (u.scheduler.request r).hasNextChunk := by
      rw [hupdated]
      simp only [Request.hasNextChunk, houtcome.frame.streamingQueue, houtcome.frame.resumable]
    have hidle : (u.scheduler.request r).status ≠ .waitingForStreamingReq := by
      by_cases hrun : (u.scheduler.request r).status = .running
      · rw [hrun]
        decide
      · exact (hplace hrun).1
    have hfinished : (s₁.request r).status ≠ .waitingForStreamingReq := by
      have hfinished := houtcome.finished hstop
      rw [hupdated]
      intro heq
      rw [heq] at hfinished
      cases hfinished
    rw [← hs₁] at hstopped
    cases hstopped with
    | finished queue kv' hnone _ _ =>
      rw [hnext] at hnone
      exact queued_finish_freed h hothers hrunning hmem hfresh hfresh'
        (by rw [hs₁]; rfl) (by rw [hs₁]; rfl) (by rw [hs₁]; rfl) (by rw [hs₁]; rfl) hidle
        fun hrun => (hplace hrun).2.mpr hnone
    | nextChunk rest update session hsome hsession =>
      rw [hnext] at hsome
      have hwaits := status_of_updateAsSession hsession
      have hstatus' : ((s₁.withSession r session).request r).status = .waiting := by
        simp only [withSession, modify_request, if_true, hwaits]
      refine h.move r (moves_finish_stop h hothers hrunning hmem hfresh hfresh' ?_ ?_ ?_ ?_ ?_)
      · rw [enqueueWaitingRequest_requests, hs₁]
        rfl
      · rw [enqueueWaitingRequest_request, hstatus']
        decide
      · rw [enqueueWaitingRequest_request, hstatus']
        rfl
      · rw [enqueueWaitingRequest_of_not_blocked _ _ (by rw [hstatus']; rfl)]
        simp only [RequestQueue.count_addRequest, if_true]
        rw [hs₁]
        change (if _ = RequestStatus.running then u.scheduler.waiting.count r + 1 else 0) +
          u.scheduler.skippedWaiting.count r = 1
        split
        · have := hstatus.mpr ‹_›
          omega
        · rename_i hrun
          have := (not_congr hstatus).mpr hrun
          have := (not_congr (hplace hrun).2).mpr (by simp [hsome])
          omega
      · rw [enqueueWaitingRequest_of_not_blocked _ _ (by rw [hstatus']; rfl)]
        simp only [withSession, modify_request, if_true, hwaits, hidle, hfinished, reduceCtorEq,
          if_false]
        rw [hs₁]
        rfl
    | idle hnone hresumable =>
      rw [hnext] at hnone
      have hstatus' : ((s₁.withIdleSession r).request r).status = .waitingForStreamingReq := by
        simp only [withIdleSession, modify_request, if_true]
      refine h.move r (moves_finish_stop h hothers hrunning hmem hfresh hfresh' ?_ ?_ ?_ ?_ ?_)
      · rw [enqueueWaitingRequest_requests, hs₁]
        rfl
      · rw [enqueueWaitingRequest_request, hstatus']
        decide
      · rw [enqueueWaitingRequest_request, hstatus']
        rfl
      · rw [enqueueWaitingRequest_of_blocked _ _ (by rw [hstatus']; rfl)]
        simp only [RequestQueue.count_addRequest, if_true]
        rw [hs₁]
        change (if _ = RequestStatus.running then u.scheduler.waiting.count r else 0) +
          (u.scheduler.skippedWaiting.count r + 1) = 1
        split
        · have := hstatus.mpr ‹_›
          omega
        · rename_i hrun
          have := (hplace hrun).2.mpr hnone
          omega
      · rw [enqueueWaitingRequest_of_blocked _ _ (by rw [hstatus']; rfl)]
        simp only [withIdleSession, modify_request, if_true, hidle, if_false, Int.add_zero]
        rw [hs₁]
        rfl

/-- A step of the pass leaves the entries that are still to come as they were. -/
theorem underway_updateOne {l : List (RequestId × Int)} (hs : Queued s [])
    (hplaces : s.isUnfinished e.1 = true → (s.request e.1).status ≠ .running →
      (s.takenOutput env out model e.1).2.2 = true →
      (s.request e.1).status ≠ .waitingForStreamingReq ∧
        (e.1 ∈ s.waiting ↔ (s.request e.1).hasNextChunk = false))
    (h : Underway s u (e :: l)) (hstep : updateOne env out model u e = .ok u') :
    Underway s u' l := by
  obtain ⟨hothers, hrunningReqs, hpreemptedReqs⟩ := othersStay_updateOne hstep
  have hkeys := h.keys
  rw [List.map_cons, List.nodup_cons] at hkeys
  have hne (e' : RequestId × Int) (he' : e' ∈ l) : e'.1 ≠ e.1 := fun heq =>
    hkeys.1 (List.mem_map.mpr ⟨e', he', heq⟩)
  have hmem (e' : RequestId × Int) (he' : e' ∈ l) : e' ∈ e :: l := List.mem_cons_of_mem _ he'
  have hself : e ∈ e :: l := List.mem_cons_self
  obtain ⟨hfresh, hfresh'⟩ := h.fresh e hself
  have htaken : u.scheduler.takenOutput env out model e.1 = s.takenOutput env out model e.1 := by
    rw [takenOutput, takenOutput, h.request e hself, h.config, h.hashBlockSize]
  have hlive : u.scheduler.isUnfinished e.1 = s.isUnfinished e.1 := by
    have hcount := h.requests e hself
    have hiff : e.1 ∈ u.scheduler.requests ↔ e.1 ∈ s.requests := by
      rw [← List.count_pos_iff, hcount, List.count_pos_iff]
    simp only [isUnfinished, hiff, h.request e hself]
  have hqueued := queued_finish_updateOne h.queued (h.running ▸ hs.nodup_running) hfresh hfresh'
    (by
      rw [hlive, htaken, h.request e hself, h.waiting e hself, List.count_pos_iff]
      exact hplaces) hstep
  refine ⟨hqueued, hothers.running.trans h.running, hothers.config.trans h.config,
    hothers.hashBlockSize.trans h.hashBlockSize, hkeys.2, fun e' he' => ?_, fun e' he' => ?_,
    fun e' he' => ?_, fun e' he' => ?_⟩
  · rw [hothers.request _ (hne e' he'), h.request e' (hmem e' he')]
  · rw [hothers.requests _ (hne e' he'), h.requests e' (hmem e' he')]
  · rw [hothers.waiting _ (hne e' he'), h.waiting e' (hmem e' he')]
  · rw [hrunningReqs _ (hne e' he'), hpreemptedReqs _ (hne e' he')]
    exact h.fresh e' (hmem e' he')

/-- The outputs of a step keep the queues in order, if they stop requests in place. -/
theorem queued_updateFromOutput (h : Queued s []) (hplaces : s.StopsInPlace env out model)
    (hupdate : s.updateFromOutput env out model = .ok (outputs, s')) : Queued s' [] := by
  obtain ⟨u, hfold, -, rfl⟩ := updateFromOutput_eq_ok hupdate
  have hstart : Underway s { scheduler := s } out.numScheduledTokens.entries := by
    refine ⟨?_, rfl, rfl, rfl, out.numScheduledTokens.nodup_keys, fun _ _ => rfl, fun _ _ => rfl,
      fun _ _ => rfl, fun _ _ => ⟨List.not_mem_nil, List.not_mem_nil⟩⟩
    exact h
  refine (foldlM_rule (I := fun u l => Underway s u l ∧
    ∀ e ∈ l, e ∈ out.numScheduledTokens.entries) ?_ ⟨hstart, fun _ he => he⟩ hfold).1.queued
  rintro u e l u' ⟨hunder, hall⟩ hstep
  exact ⟨underway_updateOne h (hplaces e (hall e List.mem_cons_self)) hunder hstep,
    fun e' he' => hall e' (List.mem_cons_of_mem _ he')⟩

end Scheduler

/-! ## Runs -/

namespace Engine

variable [DecidableEq H] {env : HashEnv H} {e e' : Engine H}

/-- The outputs that are applied stop requests in place. -/
def StopsInPlace (env : HashEnv H) (e : Engine H) : EngineCall H → Prop
  | .updateFromOutput model =>
    ∀ step ∈ e.inFlight.head?, e.scheduler.StopsInPlace env step.output model
  | _ => True

instance : ∀ call, Decidable (e.StopsInPlace env call)
  | .updateFromOutput model => inferInstanceAs
    (Decidable (∀ step ∈ e.inFlight.head?, e.scheduler.StopsInPlace env step.output model))
  | .addRequest _ | .schedule _ | .updateDraftTokenIds _ | .finishRequests _ _
  | .resetPrefixCache _ | .setPauseState _ => .isTrue trivial

/-- The queues of a new engine are in order. -/
theorem queued_init {config : SchedulerConfig} {kvCacheConfig : KVCacheConfig}
    {encoderCacheSize : Nat} (hinit : init config kvCacheConfig encoderCacheSize = .ok e) :
    e.scheduler.Queued [] := by
  simp only [init, Scheduler.init, bind_ok_iff, mapError_ok_iff, pure_ok_iff] at hinit
  obtain ⟨_, ⟨kv, -, rfl⟩, rfl⟩ := hinit
  constructor <;> simp

omit [DecidableEq H] in
/-- A new request waits, for its grammar first if it has one. -/
private theorem status_init (env : HashEnv H) (blockSize : Nat) (args : Request H) :
    (Request.init env blockSize args).status = .waiting ∨
      (Request.init env blockSize args).status = .waitingForFsm := by
  simp only [Request.init, Request.updateBlockHashes]
  split
  · exact Or.inr rfl
  · exact Or.inl rfl

/-- Every call keeps the queues in order. -/
theorem queued_apply {call : EngineCall H} (h : e.scheduler.Queued [])
    (hplaces : e.StopsInPlace env call) (happly : e.apply env call = .ok e') :
    e'.scheduler.Queued [] := by
  cases call with
  | addRequest args =>
    simp only [apply, bind_ok_iff, pure_ok_iff] at happly
    obtain ⟨s, hadd, rfl⟩ := happly
    exact Scheduler.queued_addRequest h (status_init env _ args) hadd
  | schedule inputs =>
    simp only [apply, bind_ok_iff, pure_ok_iff, Prod.exists] at happly
    obtain ⟨out, s, hschedule, rfl⟩ := happly
    exact Scheduler.queued_schedule h hschedule
  | updateFromOutput model =>
    simp only [apply] at happly
    split at happly
    · cases happly
    · rename_i step rest hflight
      simp only [bind_ok_iff, pure_ok_iff, Prod.exists] at happly
      obtain ⟨outputs, s, hupdate, rfl⟩ := happly
      exact Scheduler.queued_updateFromOutput h (hplaces step (by rw [hflight]; rfl)) hupdate
  | updateDraftTokenIds draftTokenIds =>
    obtain rfl := Except.ok.inj happly
    exact h.congr (Scheduler.sameQueues_updateDraftTokenIds _ _)
  | finishRequests requestIds finishedStatus =>
    simp only [apply, bind_ok_iff, pure_ok_iff] at happly
    obtain ⟨s, hfinish, rfl⟩ := happly
    exact Scheduler.queued_finishRequests h hfinish
  | resetPrefixCache reset =>
    simp only [apply, bind_ok_iff, pure_ok_iff, Prod.exists] at happly
    obtain ⟨done, s, hreset, rfl⟩ := happly
    exact Scheduler.queued_resetPrefixCache h hreset
  | setPauseState pauseState =>
    obtain rfl := Except.ok.inj happly
    exact h.congr ⟨rfl, rfl, rfl, rfl, rfl, rfl, fun _ => rfl⟩

/-- In every run whose outputs stop requests in place, the queues partition the requests. -/
theorem partitioned_of_stopsInPlace {config : SchedulerConfig} {kvCacheConfig : KVCacheConfig}
    {encoderCacheSize : Nat} {calls : List (EngineCall H)}
    (hinit : init config kvCacheConfig encoderCacheSize = .ok e)
    (hplaces : Along (apply env) (StopsInPlace env) e calls)
    (hrun : run (apply env) e calls = .ok e') : e'.scheduler.Partitioned :=
  (run_invariant (fun _ _ _ h hplaces happly => queued_apply h hplaces happly)
    (queued_init hinit) hplaces hrun : e'.scheduler.Queued []).partitioned

/-! ## A request that is put off and then stopped -/

/-- Scheduling by priority with room for one adapter. -/
def oneAdapter : SchedulerConfig where
  policy := .priority
  maxNumRunningReqs := 2
  maxNumScheduledTokens := 8
  maxModelLen := 8
  loraConfig := some 1

/-- A request is preempted while its step is in flight, and the output of the step stops it. In
between, another request with another adapter and ahead of it is scheduled. -/
def stoppedWaiting : List (EngineCall FreeDigest) := [
  .addRequest {
    requestId := 1
    priority := 1
    promptTokenIds := some [5, 6]
    maxTokens := 1
    loraRequest := some ⟨"first", 1⟩ },
  .schedule {},
  .addRequest {
    requestId := 2
    promptTokenIds := some [7]
    maxTokens := 1
    loraRequest := some ⟨"second", 2⟩ },
  .resetPrefixCache true,
  .schedule {},
  .updateFromOutput { sampledTokenIds := fun _ => [9] }]

/-- There is no room for its adapter, so the preempted request is put off into `skipped_waiting`,
where it stays when it is finished. -/
theorem stoppedWaiting_not_partitioned : ∃ e e' : Engine FreeDigest,
    init oneAdapter (smallKVCache 10) 0 = .ok e ∧
      run (apply freeEnv) e stoppedWaiting = .ok e' ∧ ¬e'.scheduler.Partitioned := by
  have heval : (do
      let e ← init oneAdapter (smallKVCache 10) 0
      let e ← run (apply freeEnv) e stoppedWaiting
      pure (e.scheduler.skippedWaiting, (e.scheduler.request 1).status.isFinished)) =
        .ok ([1], true) := by decide
  simp only [bind_ok_iff, pure_ok_iff, Prod.mk.injEq] at heval
  obtain ⟨e, hinit, e', hrun, hskipped, hfinished⟩ := heval
  refine ⟨e, e', hinit, hrun, fun h => ?_⟩
  have hunfinished := h.unfinished 1 (by simp [hskipped])
  rw [hfinished] at hunfinished
  cases hunfinished

/-- A request that is stopped before it is scheduled again is stopped in place. -/
theorem stoppedWaiting_partitioned : ∃ e e' : Engine FreeDigest,
    init oneAdapter (smallKVCache 10) 0 = .ok e ∧
      run (apply freeEnv) e (stoppedWaiting.eraseIdx 4) = .ok e' ∧
      e'.scheduler.Partitioned := by
  have heval : (do
      let e ← init oneAdapter (smallKVCache 10) 0
      ensure (Along (apply freeEnv) (StopsInPlace freeEnv) e (stoppedWaiting.eraseIdx 4))
        .indexError
      let e ← run (apply freeEnv) e (stoppedWaiting.eraseIdx 4)
      pure e.scheduler.finishedReqIds) = .ok [1] := by decide
  simp only [bind_ok_iff, ensure_eq_ok, pure_ok_iff] at heval
  obtain ⟨e, hinit, _, hplaces, e', hrun, -⟩ := heval
  exact ⟨e, e', hinit, hrun, partitioned_of_stopsInPlace hinit hplaces hrun⟩

end Engine

end Vllm
