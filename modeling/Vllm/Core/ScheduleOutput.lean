import Vllm.Core.RunningRequests
import Vllm.Core.TableRows

/-!
# Well-formed scheduler outputs

However many requests a call preempts, and wherever they are in `running`, its output names every
scheduled request once and none that it preempted, keeps to the budgets, and the block tables
have room for the tokens. The property is that of the states from which no count comes out
negative: the loop over the running requests leaves out a request only if its count is zero.
-/

namespace Vllm

open Checked

variable {H : Type}

/-! ## The property -/

/-- The cached requests that are not resumed. -/
def CachedRequestData.runningReqIds (c : CachedRequestData) : List RequestId :=
  c.reqIds.filter (· ∉ c.resumedReqIds)

/-- An output is well formed next to the scheduler behind it. -/
structure SchedulerOutput.WellFormed (out : SchedulerOutput) (s : Scheduler H) : Prop where
  positive : ∀ r n, out.numScheduledTokens.get? r = some n → 0 < n
  total : out.totalNumScheduledTokens = out.numScheduledTokens.values.sum
  total_le : out.totalNumScheduledTokens ≤ s.config.maxNumScheduledTokens
  once : ∀ r, (out.scheduledNewReqs.map (·.reqId)).count r +
      out.scheduledCachedReqs.runningReqIds.count r +
      out.scheduledCachedReqs.resumedReqIds.count r =
    if (out.numScheduledTokens.get? r).isSome then 1 else 0
  preempted : ∀ r ∈ out.preemptedReqIds, out.numScheduledTokens.get? r = none
  running : s.running.length ≤ s.config.maxNumRunningReqs
  slots_new : ∀ d ∈ out.scheduledNewReqs, ∀ n, out.numScheduledTokens.get? d.reqId = some n →
    s.kvCacheManager.HasSlots d.reqId (d.numComputedTokens + n)
  slots_cached : ∀ e ∈ out.scheduledCachedReqs.reqIds.zip
    out.scheduledCachedReqs.numComputedTokens, ∀ n, out.numScheduledTokens.get? e.1 = some n →
      s.kvCacheManager.HasSlots e.1 (e.2 + n)

/-- A running request has not computed more than its tokens with those in flight, and there is
room for another one. -/
def Request.CountFits (r : Request H) (maxModelLen : Nat) : Prop :=
  r.numComputedTokens ≤ r.numTokensWithSpec + r.numOutputPlaceholders ∧
    r.numComputedTokens < maxModelLen

instance (r : Request H) (maxModelLen : Nat) : Decidable (r.CountFits maxModelLen) :=
  inferInstanceAs (Decidable (_ ∧ _))

/-- The counts of all requests that a call may schedule fit. -/
def Scheduler.CountsFit (s : Scheduler H) : Prop :=
  (∀ r ∈ s.running, ¬(s.request r).reachesMaxTokens →
    (s.request r).CountFits s.config.maxModelLen) ∧
  ∀ r ∈ s.waiting ++ s.skippedWaiting, (s.request r).numTokens ≤ s.config.maxModelLen

instance (s : Scheduler H) : Decidable s.CountsFit := inferInstanceAs (Decidable (_ ∧ _))

/-! ## Counts -/

/-- A request whose counts fit gets a count that is not negative. -/
theorem Request.numNewTokens_bounds {r : Request H} (threshold : Nat) {maxModelLen : Nat}
    {tokenBudget : Int} (hfits : r.CountFits maxModelLen) (hbudget : 0 < tokenBudget) :
    0 ≤ r.numNewTokens threshold maxModelLen tokenBudget ∧
      r.numComputedTokens + r.numNewTokens threshold maxModelLen tokenBudget < maxModelLen := by
  obtain ⟨hcomputed, hlen⟩ := hfits
  have hcap : 0 ≤ capLongPrefill threshold
      (r.numTokensWithSpec + r.numOutputPlaceholders - r.numComputedTokens) := by
    unfold capLongPrefill
    split <;> omega
  unfold numNewTokens
  simp only
  omega

/-- The split of mamba `align` only takes tokens away. -/
theorem Request.mambaBlockAlignedSplit_bounds (blockSize : Nat) (useEagle : Bool) (r : Request H)
    {n : Int} (numLocal : Int) (hn : 0 ≤ n) :
    0 ≤ r.mambaBlockAlignedSplit blockSize useEagle n numLocal ∧
      r.mambaBlockAlignedSplit blockSize useEagle n numLocal ≤ n := by
  unfold mambaBlockAlignedSplit
  simp only
  generalize (if useEagle = true then _ else _ : Int) = lastCachePosition
  split
  · split
    · by_cases hzero : blockSize = 0
      · simp [hzero, hn]
      · have hpos : (0 : Int) < blockSize := by omega
        exact ⟨Int.mul_nonneg (Int.ediv_nonneg hn hpos.le) hpos.le, Int.ediv_mul_le n hpos.ne'⟩
    · split <;> omega
  · exact ⟨hn, le_rfl⟩

namespace SchedulePass

variable {p p' : SchedulePass H} {inputs : ScheduleInputs} {requestId preempted : RequestId}

private theorem alignedSplit_bounds (p : SchedulePass H) (requestId : RequestId) {n : Int}
    (numLocal : Int) (hn : 0 ≤ n) :
    0 ≤ p.alignedSplit requestId n numLocal ∧ p.alignedSplit requestId n numLocal ≤ n := by
  unfold alignedSplit
  split
  · exact ⟨hn, le_rfl⟩
  · exact Request.mambaBlockAlignedSplit_bounds _ _ _ _ hn

/-! ## The invariant of a pass -/

/-- The requests scheduled in a pass. -/
def scheduledReqs (p : SchedulePass H) : List RequestId :=
  p.scheduledNewReqs ++ p.scheduledResumedReqs ++ p.scheduledRunningReqs

/-- What the rounds of both loops keep. -/
structure Sound (p : SchedulePass H) : Prop where
  runningOk : p.RunningOk
  nodup : p.scheduledReqs.Nodup
  scheduled : ∀ r, r ∈ p.scheduledReqs ↔ (p.numScheduledTokens.get? r).isSome
  running : ∀ r ∈ p.scheduledReqs, r ∈ p.scheduler.running
  tokens : ∀ r n, p.numScheduledTokens.get? r = some n → 0 < n ∧
    p.scheduler.kvCacheManager.HasSlots r ((p.scheduler.request r).numComputedTokens + n)
  preempted : ∀ r ∈ p.preemptedReqs, r ∉ p.scheduler.running

/-- Nothing is scheduled for a request that does not run. -/
theorem Sound.not_scheduled (h : Sound p) {r : RequestId} (hr : r ∉ p.scheduler.running) :
    p.numScheduledTokens.get? r = none := by
  rw [← Option.not_isSome_iff_eq_none, ← h.scheduled]
  exact fun hmem => hr (h.running r hmem)

/-- What the rounds of the first loop keep. -/
structure FirstLoop (p : SchedulePass H) : Prop extends Sound p where
  new : p.scheduledNewReqs = []
  resumed : p.scheduledResumedReqs = []
  passed : ∀ r ∈ p.scheduledRunningReqs, r ∈ p.scheduler.running.take p.reqIndex
  fits : ∀ r ∈ p.scheduler.running, r ∉ p.scheduledRunningReqs →
    ¬(p.scheduler.request r).reachesMaxTokens →
      (p.scheduler.request r).CountFits p.scheduler.config.maxModelLen
  waitingFits : p.preemptedReqs = [] → ∀ r ∈ p.scheduler.waiting ++ p.scheduler.skippedWaiting,
    (p.scheduler.request r).numTokens ≤ p.scheduler.config.maxModelLen

/-- A running request is at hand that is to be given a number of tokens. -/
structure InHand (requestId : RequestId) (n : Int) (p : SchedulePass H) : Prop
    extends FirstLoop p where
  mem : requestId ∈ p.scheduler.running.take (p.reqIndex + 1)
  unscheduled : requestId ∉ p.scheduledRunningReqs
  last : p.scheduler.config.policy = .fcfs → p.scheduler.running[p.reqIndex]? = some requestId
  positive : 0 < n
  fit : (p.scheduler.request requestId).numComputedTokens + n < p.scheduler.config.maxModelLen

/-! ### Preemption -/

section Preempt

/-- Without an item the items before it move up. -/
theorem mem_take_erase {l : List RequestId} {i : Nat} {r v : RequestId} (hr : r ∈ l.take (i + 1))
    (hv : v ∈ l.take (i + 1)) (hne : r ≠ v) : r ∈ (l.erase v).take i := by
  have hsplit : l.erase v = (l.take (i + 1)).erase v ++ l.drop (i + 1) := by
    conv_lhs => rw [← List.take_append_drop (i + 1) l]
    exact List.erase_append_left _ hv
  have hlen : ((l.take (i + 1)).erase v).length ≤ i := by
    rw [List.length_erase_of_mem hv, List.length_take]
    omega
  rw [hsplit, List.take_append, List.mem_append]
  refine Or.inl ?_
  rw [List.take_of_length_le hlen]
  exact (List.mem_erase_of_ne hne).mpr hr

/-- An item among the first ones stays there without another item. -/
theorem mem_take_erase_of_ne {l : List RequestId} {i : Nat} {r v : RequestId}
    (hr : r ∈ l.take i) (hne : r ≠ v) : r ∈ (l.erase v).take i := by
  by_cases hv : v ∈ l.take i
  · cases i with
    | zero => simp at hr
    | succ i => exact List.take_subset_take_left _ (Nat.le_succ i) (mem_take_erase hr hv hne)
  · have hsplit : l.erase v = l.take i ++ (l.drop i).erase v := by
      conv_lhs => rw [← List.take_append_drop i l]
      exact List.erase_append_right _ hv
    rw [hsplit, List.take_append, List.take_take, Nat.min_self]
    exact List.mem_append_left _ hr

/-- The pass without a victim: nothing is scheduled for it, and what was scheduled for the
others stays and has been passed. -/
structure Unscheduled (p p' : SchedulePass H) (v : RequestId) : Prop where
  new : p'.scheduledNewReqs = p.scheduledNewReqs
  resumed : p'.scheduledResumedReqs = p.scheduledResumedReqs
  running : p'.scheduledRunningReqs = p.scheduledRunningReqs.erase v
  tokens : ∀ r, p'.numScheduledTokens.get? r =
    if r = v then none else p.numScheduledTokens.get? r
  passed : ∀ r ∈ p'.scheduledRunningReqs, r ∈ p'.scheduler.running.take p'.reqIndex

/-- A first-come-first-served victim is the last running request and not scheduled, as the
request at hand is not. -/
theorem InHand.withoutLast {n : Int} (h : InHand requestId n p)
    (hpolicy : p.scheduler.config.policy = .fcfs) (hvictim : p.victim = some preempted) :
    Unscheduled p (p.setRunning p.scheduler.running.dropLast) preempted ∧
      (preempted ≠ requestId → p.scheduler.running.dropLast[p.reqIndex]? = some requestId) := by
  simp only [victim, hpolicy] at hvictim
  have hsplit := List.dropLast_append_getLast? preempted hvictim
  have hnodup := h.runningOk.nodup
  have hlast := h.last hpolicy
  have hpassed := h.passed
  rw [← hsplit] at hnodup hlast hpassed
  generalize p.scheduler.running.dropLast = others at hnodup hlast hpassed ⊢
  have hindex : p.reqIndex ≤ others.length := by
    have := (List.getElem?_eq_some_iff.mp hlast).1
    rw [List.length_append, List.length_singleton] at this
    omega
  have htake : (others ++ [preempted]).take p.reqIndex = others.take p.reqIndex :=
    List.take_append_of_le_length hindex
  rw [htake] at hpassed
  have hunscheduled : preempted ∉ p.scheduledRunningReqs := fun hmem =>
    (List.nodup_append.mp hnodup).2.2 preempted (List.mem_of_mem_take (hpassed preempted hmem))
      preempted (List.mem_singleton_self _) rfl
  have hnone : p.numScheduledTokens.get? preempted = none := by
    rw [← Option.not_isSome_iff_eq_none, ← h.scheduled]
    simpa [scheduledReqs, h.new, h.resumed] using hunscheduled
  refine ⟨⟨rfl, rfl, (List.erase_of_not_mem hunscheduled).symm, fun r => ?_, hpassed⟩,
    fun hne => ?_⟩
  · split
    · rename_i heq
      rw [heq]
      exact hnone
    · rfl
  · rw [List.getElem?_append] at hlast
    split at hlast
    · exact hlast
    · rename_i hge
      have hzero : p.reqIndex - others.length = 0 := by omega
      rw [hzero] at hlast
      exact absurd (Option.some.inj hlast) hne

/-- A victim by priority is taken out of what was scheduled. -/
theorem InHand.withoutLowest {n : Int} (h : InHand requestId n p) (preempted : RequestId)
    (hpolicy : p.scheduler.config.policy = .priority) :
    Unscheduled p (p.withoutVictim preempted) preempted ∧
      (preempted ≠ requestId → requestId ∈ (p.withoutVictim preempted).scheduler.running.take
        ((p.withoutVictim preempted).reqIndex + 1)) := by
  unfold withoutVictim
  simp only [hpolicy]
  have hnodup : p.scheduledRunningReqs.Nodup := (List.nodup_append.mp h.nodup).2.1
  split
  · rename_i hmem
    change preempted ∈ p.scheduledRunningReqs at hmem
    have htake := h.passed preempted hmem
    obtain ⟨i, hi⟩ : ∃ i, p.reqIndex = i + 1 := by
      cases hindex : p.reqIndex with
      | zero => simp [hindex] at htake
      | succ i => exact ⟨i, rfl⟩
    refine ⟨⟨rfl, rfl, rfl, fun r => Dict.get?_erase _ _ _, fun r hr => ?_⟩, fun hne => ?_⟩
    · obtain ⟨hne, hr⟩ := hnodup.mem_erase_iff.mp hr
      have hrtake := h.passed r hr
      rw [hi] at htake hrtake
      simp only [unscheduleRunning, setRunning, hi, Nat.add_sub_cancel]
      exact mem_take_erase hrtake htake hne
    · have hcurrent := h.mem
      have hbefore := List.take_subset_take_left p.scheduler.running (Nat.le_succ p.reqIndex) htake
      simp only [unscheduleRunning, setRunning]
      rw [hi] at hcurrent hbefore ⊢
      exact mem_take_erase hcurrent hbefore (Ne.symm hne)
  · rename_i hmem
    change preempted ∉ p.scheduledRunningReqs at hmem
    have hnone : p.numScheduledTokens.get? preempted = none := by
      rw [← Option.not_isSome_iff_eq_none, ← h.scheduled]
      simpa [scheduledReqs, h.new, h.resumed] using hmem
    refine ⟨⟨rfl, rfl, (List.erase_of_not_mem hmem).symm, fun r => ?_, fun r hr => ?_⟩,
      fun hne => mem_take_erase_of_ne h.mem (Ne.symm hne)⟩
    · split
      · rename_i heq
        rw [heq]
        exact hnone
      · rfl
    · exact mem_take_erase_of_ne (h.passed r hr) fun heq => hmem (heq ▸ hr)

/-- A victim is not scheduled any more, and the request at hand stays at hand. -/
theorem InHand.withoutVictim {n : Int} (h : InHand requestId n p)
    (hvictim : p.victim = some preempted) :
    Unscheduled p (p.withoutVictim preempted) preempted ∧ (preempted ≠ requestId →
      requestId ∈ (p.withoutVictim preempted).scheduler.running.take
        ((p.withoutVictim preempted).reqIndex + 1) ∧
      (p.scheduler.config.policy = .fcfs → (p.withoutVictim preempted).scheduler.running[
        (p.withoutVictim preempted).reqIndex]? = some requestId)) := by
  cases hpolicy : p.scheduler.config.policy with
  | priority =>
    obtain ⟨hout, hcurrent⟩ := h.withoutLowest preempted hpolicy
    refine ⟨hout, fun hne => ⟨hcurrent hne, fun hfcfs => ?_⟩⟩
    cases hfcfs
  | fcfs =>
    obtain ⟨hout, hcurrent⟩ := h.withoutLast hpolicy hvictim
    have heq : p.withoutVictim preempted = p.setRunning p.scheduler.running.dropLast := by
      simp only [SchedulePass.withoutVictim, hpolicy]
    rw [heq]
    refine ⟨hout, fun hne => ⟨?_, fun _ => hcurrent hne⟩⟩
    obtain ⟨hlt, hget⟩ := List.getElem?_eq_some_iff.mp (hcurrent hne)
    simp only [setRunning]
    rw [← hget]
    exact List.mem_take_iff_getElem.mpr ⟨p.reqIndex, by omega, rfl⟩

/-- What a preemption does to the pass beside what it unschedules. -/
structure Released (p p' : SchedulePass H) (v : RequestId) : Prop where
  config : p'.scheduler.config = p.scheduler.config
  running : ∀ r, r ∈ p'.scheduler.running ↔ r ≠ v ∧ r ∈ p.scheduler.running
  request : ∀ r, r ≠ v → p'.scheduler.request r = p.scheduler.request r
  tables : KVCacheManager.TablesGrow (· ≠ v) p.scheduler.kvCacheManager p'.scheduler.kvCacheManager
  preempted : p'.preemptedReqs = p.preemptedReqs ++ [v]

/-- A preemption changes and releases its victim only. -/
theorem released_of_preempt (h : p.RunningOk) (hvictim : p.victim = some preempted)
    (hpreempt : p.preempt preempted = .ok p') : Released p p' preempted ∧
      p' = { p.withoutVictim preempted with
        scheduler := { p'.scheduler with running := p.runningWithout preempted }
        preemptedReqs := p.preemptedReqs ++ [preempted] } := by
  obtain ⟨s, hs, rfl⟩ := preempt_eq_ok hpreempt
  rw [withoutVictim_scheduler] at hs
  obtain ⟨-, kv, hkv, rfl⟩ := Scheduler.preemptRequest_eq_ok hs
  refine ⟨⟨rfl, fun r => ?_, fun r hne => ?_, KVCacheManager.tablesGrow_free hkv, rfl⟩, rfl⟩
  · have hcount := count_runningWithout hvictim r
    have hone := List.nodup_iff_count_le_one.mp h.nodup r
    simp only [Scheduler.modify_running, ← List.count_pos_iff]
    by_cases heq : preempted = r
    · rw [if_pos heq] at hcount
      simp only [heq, ne_eq, not_true_eq_false, false_and, iff_false] at hcount ⊢
      omega
    · rw [if_neg heq] at hcount
      simp only [Ne.symm heq, ne_eq, not_false_eq_true, true_and]
      omega
  · simp only [Scheduler.modify_request, hne, if_false]

/-- Without a victim the rounds can go on. -/
theorem FirstLoop.release (h : FirstLoop p) (hok : p'.RunningOk)
    (hout : Unscheduled p p' preempted) (hreleased : Released p p' preempted) : FirstLoop p' := by
  have hnodup : p.scheduledRunningReqs.Nodup := (List.nodup_append.mp h.nodup).2.1
  have hreqs (p : SchedulePass H) (hnew : p.scheduledNewReqs = [])
      (hresumed : p.scheduledResumedReqs = []) : p.scheduledReqs = p.scheduledRunningReqs := by
    rw [scheduledReqs, hnew, hresumed]
    rfl
  have hnew : p'.scheduledNewReqs = [] := hout.new.trans h.new
  have hresumed : p'.scheduledResumedReqs = [] := hout.resumed.trans h.resumed
  have hbefore := hreqs p h.new h.resumed
  have hafter := hreqs p' hnew hresumed
  have hmem (r : RequestId) : r ∈ p'.scheduledReqs ↔ r ≠ preempted ∧ r ∈ p.scheduledReqs := by
    rw [hafter, hbefore, hout.running]
    exact hnodup.mem_erase_iff
  refine ⟨⟨hok, ?_, fun r => ?_, fun r hr => ?_, fun r n hn => ?_, fun r hr => ?_⟩, hnew, hresumed,
    hout.passed, fun r hr hrest hmax => ?_, fun hnone => ?_⟩
  · rw [hafter, hout.running]
    exact hnodup.erase preempted
  · rw [hmem, hout.tokens]
    split
    · rename_i heq
      simp [heq]
    · rename_i hne
      simpa [hne] using h.scheduled r
  · obtain ⟨hne, hr⟩ := (hmem r).mp hr
    exact (hreleased.running r).mpr ⟨hne, h.running r hr⟩
  · rw [hout.tokens] at hn
    split at hn
    · cases hn
    · rename_i hne
      rw [hreleased.request r hne]
      exact ⟨(h.tokens r n hn).1, (h.tokens r n hn).2.mono hreleased.tables hne⟩
  · rw [hreleased.preempted, List.mem_append, List.mem_singleton] at hr
    rw [hreleased.running]
    rintro ⟨hne, hrun⟩
    exact hr.elim (fun hr => h.preempted r hr hrun) hne
  · obtain ⟨hne, hrun⟩ := (hreleased.running r).mp hr
    rw [hreleased.request r hne] at hmax ⊢
    rw [hreleased.config]
    refine h.fits r hrun (fun hin => hrest ?_) hmax
    rw [hout.running]
    exact (hnodup.mem_erase_iff).mpr ⟨hne, hin⟩
  · rw [hreleased.preempted] at hnone
    simp at hnone

/-- A preemption keeps the pass sound, and the request at hand if it is not that. -/
theorem InHand.preempt {n : Int} (h : InHand requestId n p)
    (hvictim : p.victim = some preempted) (hpreempt : p.preempt preempted = .ok p') :
    FirstLoop p' ∧ (preempted ≠ requestId → InHand requestId n p') := by
  have hok := h.runningOk.preempt hvictim hpreempt
  obtain ⟨hreleased, hp'⟩ := released_of_preempt h.runningOk hvictim hpreempt
  obtain ⟨hout, hcurrent⟩ := h.withoutVictim hvictim
  rw [withoutVictim_scheduler] at hcurrent
  have hpassed := hout.passed
  rw [withoutVictim_scheduler] at hpassed
  have hrunning : p'.scheduler.running = p.runningWithout preempted := by rw [hp']
  have hindex : p'.reqIndex = (p.withoutVictim preempted).reqIndex := by rw [hp']
  have hout' : Unscheduled p p' preempted := by
    rw [hp']
    exact ⟨hout.new, hout.resumed, hout.running, hout.tokens, hpassed⟩
  have hfirst := h.toFirstLoop.release hok hout' hreleased
  refine ⟨hfirst, fun hne => ⟨hfirst, ?_, ?_, ?_, h.positive, ?_⟩⟩
  · rw [hrunning, hindex]
    exact (hcurrent hne).1
  · rw [hout'.running]
    exact fun hmem => h.unscheduled (List.mem_of_mem_erase hmem)
  · rw [hrunning, hindex, hreleased.config]
    exact (hcurrent hne).2
  · rw [hreleased.request requestId (Ne.symm hne), hreleased.config]
    exact h.fit

end Preempt

/-! ### Rounds of the first loop -/

/-- A sound pass stays so when the block tables grow. -/
theorem Sound.setKV (h : Sound p) {kv : KVCacheManager H}
    (hconfig : kv.config = p.scheduler.kvCacheManager.config)
    (hgrow : KVCacheManager.TablesGrow (fun _ => True) p.scheduler.kvCacheManager kv) :
    Sound (p.setKV kv) :=
  ⟨h.runningOk.setKV hconfig, h.nodup, h.scheduled, h.running,
    fun r n hn => ⟨(h.tokens r n hn).1, (h.tokens r n hn).2.mono hgrow trivial⟩, h.preempted⟩

theorem FirstLoop.setKV (h : FirstLoop p) {kv : KVCacheManager H}
    (hconfig : kv.config = p.scheduler.kvCacheManager.config)
    (hgrow : KVCacheManager.TablesGrow (fun _ => True) p.scheduler.kvCacheManager kv) :
    FirstLoop (p.setKV kv) :=
  ⟨h.toSound.setKV hconfig hgrow, h.new, h.resumed, h.passed, h.fits, h.waitingFits⟩

theorem InHand.setKV {n : Int} (h : InHand requestId n p) {kv : KVCacheManager H}
    (hconfig : kv.config = p.scheduler.kvCacheManager.config)
    (hgrow : KVCacheManager.TablesGrow (fun _ => True) p.scheduler.kvCacheManager kv) :
    InHand requestId n (p.setKV kv) :=
  ⟨h.toFirstLoop.setKV hconfig hgrow, h.mem, h.unscheduled, h.last, h.positive, h.fit⟩

theorem Sound.setEncoder (h : Sound p) (manager : EncoderCacheManager) :
    Sound (p.setEncoder manager) :=
  ⟨h.runningOk.setEncoder manager, h.nodup, h.scheduled, h.running, h.tokens, h.preempted⟩

theorem FirstLoop.setEncoder (h : FirstLoop p) (manager : EncoderCacheManager) :
    FirstLoop (p.setEncoder manager) :=
  ⟨h.toSound.setEncoder manager, h.new, h.resumed, h.passed, h.fits, h.waitingFits⟩

/-- The next round has passed more requests. -/
theorem FirstLoop.nextRequest (h : FirstLoop p) : FirstLoop p.nextRequest :=
  ⟨⟨h.runningOk, h.nodup, h.scheduled, h.running, h.tokens, h.preempted⟩, h.new, h.resumed,
    fun r hr => List.take_subset_take_left _ (Nat.le_succ p.reqIndex) (h.passed r hr), h.fits,
    h.waitingFits⟩

/-- The lookup of encoder inputs takes tokens away, and only from a request that has some. -/
theorem tryEncoderInputs_bounds {numComputedTokens numNewTokens : Int} {e : EncoderPass}
    (h : p.tryEncoderInputs inputs requestId numComputedTokens numNewTokens = .ok (e, p'))
    (hnonneg : 0 ≤ numNewTokens) : 0 ≤ e.numNewTokens ∧ e.numNewTokens ≤ numNewTokens ∧
      ((p.scheduler.request requestId).mmFeatures = [] → e.numNewTokens = numNewTokens) :=
  tryScheduleEncoderInputs_bounds hnonneg (tryEncoderInputs_eq_ok h).1

/-- The request at the index is at hand, with as many tokens as fit. -/
theorem FirstLoop.select {e : EncoderPass} (h : FirstLoop p)
    (hcurrent : p.scheduler.running[p.reqIndex]? = some requestId) (hbudget : 0 < p.tokenBudget)
    (hmax : ¬(p.scheduler.request requestId).reachesMaxTokens)
    (hencoder : p.tryEncoderInputs inputs requestId
      (p.scheduler.request requestId).numComputedTokens
      ((p.scheduler.request requestId).numNewTokens p.scheduler.config.longPrefillTokenThreshold
        p.scheduler.config.maxModelLen p.tokenBudget) = .ok (e, p'))
    (hsome : p.alignedSplit requestId e.numNewTokens 0 ≠ 0) :
    InHand requestId (p.alignedSplit requestId e.numNewTokens 0) (p.setEncoder e.manager) := by
  obtain ⟨hlt, hget⟩ := List.getElem?_eq_some_iff.mp hcurrent
  have hmem : requestId ∈ p.scheduler.running := hget ▸ List.getElem_mem hlt
  have hunscheduled : requestId ∉ p.scheduledRunningReqs := by
    intro hin
    obtain ⟨i, hi, hsame⟩ := List.mem_take_iff_getElem.mp (h.passed requestId hin)
    have hindex := (List.Nodup.getElem_inj_iff h.runningOk.nodup).mp (hsame.trans hget.symm)
    omega
  obtain ⟨hnonneg, hfit⟩ := Request.numNewTokens_bounds
    p.scheduler.config.longPrefillTokenThreshold (h.fits requestId hmem hunscheduled hmax) hbudget
  obtain ⟨hzero, hle, -⟩ := tryEncoderInputs_bounds hencoder hnonneg
  obtain ⟨hsplit, hsplit'⟩ := p.alignedSplit_bounds requestId 0 hzero
  refine ⟨h.setEncoder e.manager, List.mem_take_iff_getElem.mpr ⟨p.reqIndex, ?_, hget⟩,
    hunscheduled, fun _ => hcurrent, by omega, ?_⟩
  · change p.reqIndex < min (p.reqIndex + 1) p.scheduler.running.length
    omega
  · change (p.scheduler.request requestId).numComputedTokens + _ <
      (p.scheduler.config.maxModelLen : Int)
    omega

/-- A request at hand with its slots is scheduled. -/
theorem InHand.scheduleRunning {n : Int} {newBlocks : List (List BlockId)} {e : EncoderPass}
    (h : InHand requestId n p)
    (hslots : p.scheduler.kvCacheManager.HasSlots requestId
      ((p.scheduler.request requestId).numComputedTokens + n))
    (hschedule : p.scheduleRunning requestId n newBlocks e = .ok p') : FirstLoop p' := by
  have hok := h.runningOk.scheduleRunning hschedule
  obtain ⟨manager, -, rfl⟩ := allocateEncoderInputs_eq_ok hschedule
  have hrequest (r : RequestId) : ∃ specTokenIds, (p.scheduler.modify requestId fun r =>
      { r with specTokenIds := [] }).request r = { p.scheduler.request r with specTokenIds } := by
    rw [Scheduler.modify_request]
    split
    · rename_i heq
      exact ⟨[], by rw [heq]⟩
    · exact ⟨_, rfl⟩
  have hmem : requestId ∈ p.scheduler.running := List.mem_of_mem_take h.mem
  have hnot : requestId ∉ p.scheduledReqs := by
    simpa [scheduledReqs, h.new, h.resumed] using h.unscheduled
  have hreqs : p.scheduledNewReqs ++ p.scheduledResumedReqs ++
      (p.scheduledRunningReqs ++ [requestId]) = p.scheduledReqs ++ [requestId] := by
    simp only [scheduledReqs, List.append_assoc]
  refine ⟨⟨hok, ?_, fun r => ?_, fun r hr => ?_, fun r m hm => ?_, h.preempted⟩, h.new, h.resumed,
    fun r hr => ?_, fun r hr hrest hmax => ?_, fun hnone r hr => ?_⟩
  · simp only [scheduledReqs, bookEncoderInputs] at hreqs ⊢
    rw [hreqs]
    exact h.nodup.append (List.nodup_singleton requestId) (by simpa using hnot)
  · simp only [bookEncoderInputs, Dict.get?_insert]
    change r ∈ p.scheduledNewReqs ++ p.scheduledResumedReqs ++
      (p.scheduledRunningReqs ++ [requestId]) ↔ _
    rw [hreqs, List.mem_append, List.mem_singleton, h.scheduled]
    split
    · rename_i heq
      simp [heq]
    · rename_i hne
      simp [hne]
  · change r ∈ p.scheduledNewReqs ++ p.scheduledResumedReqs ++
      (p.scheduledRunningReqs ++ [requestId]) at hr
    rw [hreqs, List.mem_append, List.mem_singleton] at hr
    rcases hr with hr | rfl
    · exact h.running r hr
    · exact hmem
  · obtain ⟨specTokenIds, hspec⟩ := hrequest r
    simp only [bookEncoderInputs, Dict.get?_insert] at hm ⊢
    rw [hspec]
    split at hm
    · rename_i heq
      obtain rfl := Option.some.inj hm
      exact ⟨h.positive, heq ▸ hslots⟩
    · exact h.tokens r m hm
  · simp only [bookEncoderInputs, List.mem_append, List.mem_singleton] at hr ⊢
    rcases hr with hr | rfl
    · exact List.take_subset_take_left _ (Nat.le_succ p.reqIndex) (h.passed r hr)
    · exact h.mem
  · simp only [bookEncoderInputs, List.mem_append, List.mem_singleton, not_or] at hrest hmax ⊢
    rw [Scheduler.modify_request, if_neg hrest.2] at hmax ⊢
    exact h.fits r hr hrest.1 hmax
  · obtain ⟨specTokenIds, hspec⟩ := hrequest r
    simp only [bookEncoderInputs]
    rw [hspec]
    exact h.waitingFits hnone r hr

variable [DecidableEq H]

/-- What a running request is granted has room for its tokens. -/
theorem InHand.hasSlots {n : Int} (h : InHand requestId n p) {kv : KVCacheManager H}
    {newBlocks : List (List BlockId)}
    (halloc : p.scheduler.kvCacheManager.allocateSlots (p.scheduler.request requestId)
      (p.runningArgs n) = .ok (kv, some newBlocks)) :
    kv.HasSlots requestId ((p.scheduler.request requestId).numComputedTokens + n) := by
  have hslots := (KVCacheManager.tablesGrow_allocateSlots (fun _ => True) halloc).2 (by simp)
  rw [h.runningOk.requestId] at hslots
  intro m hm hfull
  refine le_trans ?_ (hslots m hm hfull)
  have hfit := h.fit
  have hpos := h.positive
  have hlen := h.runningOk.maxModelLen
  simp only [KVCacheManager.slotCounts, runningArgs, hlen]
  omega

/-- The rounds of the first loop keep the pass sound. -/
theorem firstLoop_runningRule (inputs : ScheduleInputs) :
    RunningRule (H := H) inputs FirstLoop (fun requestId n _ p => InHand requestId n p) where
  next _ h := h.nextRequest
  select p requestId e h hcurrent hbudget hmax hencoder :=
    ⟨h.setEncoder e.manager, h.select hcurrent hbudget hmax hencoder⟩
  preempt p requestId n e kv preempted p' h halloc hvictim hpreempt := by
    have hgrow := (KVCacheManager.tablesGrow_allocateSlots (fun _ => True) halloc).1
    have hkv := KVCacheManager.allocateSlots_config halloc
    have hp' := (h.setKV hkv hgrow).preempt hvictim hpreempt
    exact ⟨fun _ => hp'.1, hp'.2⟩
  schedule p requestId n e kv newBlocks p' h halloc hschedule := by
    have hgrow := (KVCacheManager.tablesGrow_allocateSlots (fun _ => True) halloc).1
    exact (h.setKV (KVCacheManager.allocateSlots_config halloc) hgrow).scheduleRunning
      (h.hasSlots halloc) hschedule

/-! ### Rounds of the second loop -/

omit [DecidableEq H]

/-- What the rounds of the second loop keep. -/
structure SecondLoop (p : SchedulePass H) : Prop extends Sound p where
  nonePreempted : p.preemptedReqs = []
  waitingFits : ∀ r ∈ p.scheduler.waiting ++ p.scheduler.skippedWaiting,
    (p.scheduler.request r).numTokens ≤ p.scheduler.config.maxModelLen

section AtHand

variable {q : WaitingQueue} {rest : List RequestId}

/-- What is left in the queues was in them, and so was the request at hand. -/
theorem AtHand.mem (h : p.AtHand q requestId rest) :
    requestId ∈ p.scheduler.waiting ++ p.scheduler.skippedWaiting ∧
      ∀ r ∈ (p.scheduler.setQueue rest q).waiting ++ (p.scheduler.setQueue rest q).skippedWaiting,
        r ∈ p.scheduler.waiting ++ p.scheduler.skippedWaiting := by
  simp only [← List.count_pos_iff, List.count_append]
  refine ⟨?_, fun r hr => ?_⟩
  · have := h.count requestId
    rw [if_pos rfl] at this
    omega
  · have := h.count r
    omega

/-- Promoting a request changes nothing that was scheduled. -/
theorem SecondLoop.promote (h : SecondLoop p)
    (hstatus : (p.scheduler.request requestId).status = .waitingForFsm) :
    SecondLoop (p.promote requestId) := by
  have hrequest (r : RequestId) : ∃ status,
      (p.promote requestId).scheduler.request r = { p.scheduler.request r with status } := by
    simp only [SchedulePass.promote, Scheduler.modify_request]
    split
    · rename_i heq
      exact ⟨.waiting, by rw [heq]⟩
    · exact ⟨_, rfl⟩
  refine ⟨⟨h.runningOk.promote hstatus, h.nodup, h.scheduled, h.running, fun r n hn => ?_,
    h.preempted⟩, h.nonePreempted, fun r hr => ?_⟩
  · obtain ⟨status, heq⟩ := hrequest r
    rw [heq]
    exact h.tokens r n hn
  · obtain ⟨status, heq⟩ := hrequest r
    rw [heq]
    exact h.waitingFits r hr

/-- Putting a request off changes nothing that was scheduled. -/
theorem SecondLoop.skipWaiting (h : SecondLoop p) (hathand : p.AtHand q requestId rest) :
    SecondLoop (p.skipWaiting q requestId rest) := by
  refine ⟨⟨h.runningOk.skipWaiting hathand, h.nodup, h.scheduled, fun r hr => ?_,
    fun r n hn => ?_, fun r hr => ?_⟩, h.nonePreempted, fun r hr => ?_⟩
  · simpa only [SchedulePass.skipWaiting, Scheduler.setQueue_running] using h.running r hr
  · simpa only [SchedulePass.skipWaiting, Scheduler.setQueue_kvCacheManager,
      Scheduler.setQueue_request] using h.tokens r n hn
  · simpa only [SchedulePass.skipWaiting, Scheduler.setQueue_running] using h.preempted r hr
  · simpa only [SchedulePass.skipWaiting, Scheduler.setQueue_request,
      Scheduler.setQueue_config] using h.waitingFits r (hathand.mem.2 r hr)

/-- A waiting request with its slots is scheduled. -/
theorem SecondLoop.admitWaiting {n numComputed : Int} {e : EncoderPass} (h : SecondLoop p)
    (hathand : p.AtHand q requestId rest) (hpos : 0 < n)
    (hslots : p.scheduler.kvCacheManager.HasSlots requestId (numComputed + n))
    (hadmitted : p.admitWaiting q requestId rest n numComputed e = .ok p') : SecondLoop p' := by
  have hok := h.runningOk.admitWaiting hathand hadmitted
  obtain ⟨hstatus, manager, -, rfl⟩ := admitWaiting_eq_ok hadmitted
  have hnew : requestId ∉ p.scheduler.running := h.runningOk.not_mem_running hstatus
  have hnot : requestId ∉ p.scheduledReqs := fun hmem => hnew (h.running requestId hmem)
  have hother (r : RequestId) (hne : r ≠ requestId) :
      ((p.withAdmitted q requestId rest n numComputed).scheduler.request r) =
        p.scheduler.request r := by
    simp only [withAdmitted, Scheduler.modify_request, hne, if_false, Scheduler.setQueue_request]
  have hperm : ((p.withAdmitted q requestId rest n numComputed).bookEncoderInputs requestId e
      manager).scheduledReqs.Perm (requestId :: p.scheduledReqs) := by
    simp only [scheduledReqs, bookEncoderInputs, withAdmitted]
    split
    · rw [List.append_assoc, List.append_assoc, List.append_assoc, List.singleton_append]
      exact List.perm_middle
    · rw [← List.append_assoc, List.append_assoc _ [requestId], List.singleton_append]
      exact List.perm_middle
  refine ⟨⟨hok, ?_, fun r => ?_, fun r hr => ?_, fun r m hm => ?_, fun r hr => ?_⟩,
    h.nonePreempted, fun r hr => ?_⟩
  · exact hperm.nodup_iff.mpr (List.nodup_cons.mpr ⟨hnot, h.nodup⟩)
  · rw [hperm.mem_iff, List.mem_cons, h.scheduled]
    simp only [bookEncoderInputs, withAdmitted, Dict.get?_insert]
    split
    · rename_i heq
      simp [heq]
    · rename_i hne
      simp [hne]
  · rw [hperm.mem_iff, List.mem_cons] at hr
    simp only [bookEncoderInputs, withAdmitted, List.mem_append, List.mem_singleton]
    exact hr.elim Or.inr fun hr => Or.inl (h.running r hr)
  · have hkv : ((p.withAdmitted q requestId rest n numComputed).bookEncoderInputs requestId e
        manager).scheduler.kvCacheManager = p.scheduler.kvCacheManager := by
      simp only [bookEncoderInputs, withAdmitted]
      exact Scheduler.setQueue_kvCacheManager ..
    rw [hkv]
    simp only [bookEncoderInputs, withAdmitted, Dict.get?_insert, Scheduler.modify_request,
      Scheduler.setQueue_request] at hm ⊢
    by_cases heq : r = requestId
    · rw [if_pos heq] at hm ⊢
      obtain rfl := Option.some.inj hm
      exact ⟨hpos, heq ▸ hslots⟩
    · rw [if_neg heq] at hm ⊢
      exact h.tokens r m hm
  · have hnone : r ∈ p.preemptedReqs := hr
    rw [h.nonePreempted] at hnone
    cases hnone
  · have hkept : ((p.withAdmitted q requestId rest n numComputed).bookEncoderInputs requestId e
        manager).scheduler.config = p.scheduler.config := Scheduler.setQueue_config ..
    have hlen : (((p.withAdmitted q requestId rest n numComputed).bookEncoderInputs requestId e
        manager).scheduler.request r).numTokens = (p.scheduler.request r).numTokens := by
      simp only [bookEncoderInputs, withAdmitted, Scheduler.modify_request,
        Scheduler.setQueue_request]
      split
      · rename_i heq
        rw [heq]
        rfl
      · rfl
    rw [hkept, hlen]
    exact h.waitingFits r (hathand.mem.2 r hr)

/-- The counts of an offered request fit. -/
theorem Offered.fits [DecidableEq H] {hits : Option (List (List BlockId))}
    {numLocal numComputed : Int} {e : EncoderPass}
    (h : Offered inputs p requestId hits numLocal numComputed e)
    (hitems : (p.scheduler.request requestId).hasEncoderInputs → e.numNewTokens ≠ 0)
    (hsplit : p.scheduler.config.mambaBlockAlignedSplit.isSome →
      p.alignedSplit requestId e.numNewTokens numLocal ≠ 0) :
    0 < p.alignedSplit requestId e.numNewTokens numLocal ∧
      numComputed + p.alignedSplit requestId e.numNewTokens numLocal ≤
        (p.scheduler.request requestId).numTokens ∧
      (p.scheduler.request requestId).numComputedTokens + numLocal = numComputed := by
  obtain ⟨n, hpos, -, hle, hencoder⟩ := h.encoder
  obtain ⟨hzero, hle', hempty⟩ := tryEncoderInputs_bounds hencoder hpos.le
  obtain ⟨hsplit₀, hsplit'⟩ := p.alignedSplit_bounds requestId numLocal hzero
  have hencoded : 0 < e.numNewTokens := by
    cases hmm : (p.scheduler.request requestId).hasEncoderInputs with
    | true =>
      have := hitems hmm
      omega
    | false =>
      have hnone : (p.scheduler.request requestId).mmFeatures = [] := by
        simpa [Request.hasEncoderInputs] using hmm
      rw [hempty hnone]
      exact hpos
  refine ⟨?_, by omega, ?_⟩
  · cases hmamba : p.scheduler.config.mambaBlockAlignedSplit with
    | none =>
      simp only [alignedSplit, hmamba]
      exact hencoded
    | some blockSize =>
      have := hsplit (by rw [hmamba]; rfl)
      omega
  · have hcomputed := h.computed
    unfold computedTokens at hcomputed
    simp only at hcomputed
    split at hcomputed
    · simp only [bind_ok_iff, Prod.exists, pure_ok_iff, Prod.mk.injEq] at hcomputed
      obtain ⟨_, _, -, _, -, -, rfl, rfl⟩ := hcomputed
      omega
    · simp only [Except.ok.injEq, Prod.mk.injEq] at hcomputed
      omega

end AtHand

variable [DecidableEq H]

/-- The rounds of the second loop keep the pass sound. -/
theorem secondLoop_waitingRule (inputs : ScheduleInputs) :
    WaitingRule (H := H) inputs SecondLoop where
  promote _ _ _ _ h _ hstatus := h.promote hstatus
  skip _ _ _ _ h hathand := h.skipWaiting hathand
  round p q requestId rest p' goOn h hathand _ _ _ hround := by
    rcases scheduleWaiting_cases hround with
      ⟨-, rfl⟩ | ⟨hits, numLocal, numComputed, e, hoffered, ⟨-, rfl⟩ |
        ⟨kv, result, halloc, hresult⟩⟩
    · exact h
    · exact ⟨h.toSound.setEncoder e.manager, h.nonePreempted, h.waitingFits⟩
    have hgrow := (KVCacheManager.tablesGrow_allocateSlots (fun _ => True) halloc).1
    have hkv := KVCacheManager.allocateSlots_config halloc
    rcases hresult with ⟨-, -, rfl⟩ | ⟨newBlocks, rfl, -, hitems, hsplit, hadmitted⟩
    · exact ⟨(h.toSound.setKV hkv hgrow).setEncoder _, h.nonePreempted, h.waitingFits⟩
    · have hp₁ : SecondLoop ((p.setEncoder e.manager).setKV kv) :=
        ⟨(h.toSound.setEncoder e.manager).setKV hkv hgrow, h.nonePreempted, h.waitingFits⟩
      obtain ⟨hpos, hfit, hlocal⟩ := hoffered.fits hitems hsplit
      have hslots := (KVCacheManager.tablesGrow_allocateSlots (fun _ => True) halloc).2 (by simp)
      rw [h.runningOk.requestId] at hslots
      refine hp₁.admitWaiting hathand hpos (fun m hm hfull => ?_) hadmitted
      refine le_trans ?_ (hslots m hm hfull)
      have hlen := h.runningOk.maxModelLen
      have hmax := h.waitingFits requestId hathand.mem.1
      simp only [KVCacheManager.slotCounts, waitingArgs, hlen]
      split <;> omega

end SchedulePass

/-! ## The output -/

namespace Scheduler

open SchedulePass

variable {s s' : Scheduler H} {inputs : ScheduleInputs}

/-- A call starts with nothing scheduled. -/
theorem firstLoop_startPass (h : RunningOk s [] []) (hfit : s.CountsFit) :
    FirstLoop s.startPass := by
  have hnone (r : RequestId) : r ∉ ([] : List RequestId) := List.not_mem_nil
  refine ⟨⟨runningOk_startPass h, List.nodup_nil, fun r => ?_, fun r hr => absurd hr (hnone r),
    fun r n hn => ?_, fun r hr => absurd hr (hnone r)⟩, rfl, rfl, fun r hr => absurd hr (hnone r),
    fun r hr _ hmax => hfit.1 r hr hmax, fun _ r hr => hfit.2 r hr⟩
  · simp [scheduledReqs, startPass]
  · simp [startPass] at hn

/-- Advancing the requests changes none of the queues and blocks. -/
theorem updateAllAfterSchedule_frame (s : Scheduler H) (out : SchedulerOutput) :
    (s.updateAllAfterSchedule out).kvCacheManager = s.kvCacheManager ∧
      (s.updateAllAfterSchedule out).running = s.running ∧
      (s.updateAllAfterSchedule out).config = s.config := by
  have hone (s : Scheduler H) (n : Int) (k : Nat) (r : RequestId) :
      (s.updateAfterSchedule n k r).kvCacheManager = s.kvCacheManager ∧
        (s.updateAfterSchedule n k r).running = s.running ∧
        (s.updateAfterSchedule n k r).config = s.config := by
    unfold updateAfterSchedule
    simp only
    split <;> exact ⟨rfl, rfl, rfl⟩
  simp only [updateAllAfterSchedule]
  generalize out.numScheduledTokens.entries = entries
  induction entries generalizing s with
  | nil => exact ⟨rfl, rfl, rfl⟩
  | cons e entries ih =>
    obtain ⟨hkv, hrunning, hconfig⟩ :=
      hone s e.2 ((out.scheduledSpecDecodeTokens.get? e.1).getD []).length e.1
    obtain ⟨ihkv, ihrunning, ihconfig⟩ := ih (s.updateAfterSchedule e.2
      ((out.scheduledSpecDecodeTokens.get? e.1).getD []).length e.1)
    exact ⟨ihkv.trans hkv, ihrunning.trans hrunning, ihconfig.trans hconfig⟩

/-- Every scheduled request is in one of the three lists. -/
theorem count_scheduled {p : SchedulePass H} {cached : CachedRequestData} (h : Sound p)
    (hcached : p.makeCachedRequestData = .ok cached) (r : RequestId) :
    p.newReqs.count r + cached.runningReqIds.count r + cached.resumedReqIds.count r =
      if (p.numScheduledTokens.get? r).isSome then 1 else 0 := by
  simp only [makeCachedRequestData, bind_ok_iff, pure_ok_iff] at hcached
  obtain ⟨_, -, rfl⟩ := hcached
  have hcount : p.newReqs.count r + (p.cachedReqs.filter (· ∉ p.resumedReqs)).count r +
      p.resumedReqs.count r = p.scheduledReqs.count r := by
    simp only [newReqs, cachedReqs, resumedReqs, scheduledReqs]
    split
    · simp only [List.not_mem_nil, not_false_eq_true, decide_true, List.filter_true,
        List.count_append, List.count_nil]
      omega
    · have hdisjoint := (List.nodup_append.mp h.nodup).2.2
      have hrunning : p.scheduledRunningReqs.filter (· ∉ p.scheduledResumedReqs) =
          p.scheduledRunningReqs := by
        refine List.filter_eq_self.mpr fun r hr => ?_
        simpa using fun hres => hdisjoint r (List.mem_append_right _ hres) r hr rfl
      have hresumed : p.scheduledResumedReqs.filter (· ∉ p.scheduledResumedReqs) = [] :=
        List.filter_eq_nil_iff.mpr fun r hr => by simpa using hr
      rw [List.filter_append, hrunning, hresumed]
      simp only [List.count_append, List.append_nil]
      omega
  simp only [CachedRequestData.runningReqIds]
  rw [hcount]
  split
  · rename_i hsome
    exact List.count_eq_one_of_mem h.nodup ((h.scheduled r).mpr hsome)
  · rename_i hnone
    exact List.count_eq_zero_of_not_mem fun hmem => hnone ((h.scheduled r).mp hmem)

variable [DecidableEq H]

/-- The pass of a call is sound. -/
private theorem sound_schedulePass {p : SchedulePass H} (h : RunningOk s [] []) (hfit : s.CountsFit)
    (hpass : s.schedulePass inputs = .ok p) : Sound p := by
  obtain ⟨p₁, loras, hrun, hrest⟩ := schedulePass_cases hpass
  have hp₁ := runningLoop_rule (firstLoop_runningRule inputs) (firstLoop_startPass h hfit) hrun
  rcases hrest with rfl | ⟨hnone, fuel, p₂, hwait, rfl⟩
  · exact ⟨hp₁.runningOk, hp₁.nodup, hp₁.scheduled, hp₁.running, hp₁.tokens, hp₁.preempted⟩
  · have hstart : SecondLoop { p₁ with scheduledLoras := loras } :=
      ⟨⟨hp₁.runningOk, hp₁.nodup, hp₁.scheduled, hp₁.running, hp₁.tokens, hp₁.preempted⟩, hnone,
        hp₁.waitingFits hnone⟩
    have hp₂ := waitingLoop_rule (secondLoop_waitingRule inputs) hstart hwait
    exact ⟨runningOk_requeueSkipped hp₂.runningOk, hp₂.nodup, hp₂.scheduled, hp₂.running,
      hp₂.tokens, hp₂.preempted⟩

/-- The output of a call on requests whose counts fit is well formed. -/
theorem wellFormed_schedule {out : SchedulerOutput} (h : RunningOk s [] []) (hfit : s.CountsFit)
    (hschedule : s.schedule inputs = .ok (out, s')) : out.WellFormed s' := by
  obtain ⟨p, cached, hpass, hchecks, hcached, rfl, rfl⟩ := schedule_eq_ok hschedule
  have hp := sound_schedulePass h hfit hpass
  obtain ⟨hkv, hrunning, hconfig⟩ :=
    updateAllAfterSchedule_frame p.afterOutput (p.outputData cached)
  have hids : (p.outputData cached).scheduledNewReqs.map (·.reqId) = p.newReqs := by
    simp only [outputData, List.map_map]
    exact List.map_id'' (fun r => hp.runningOk.requestId r) _
  refine ⟨fun r n hn => (hp.tokens r n hn).1, rfl, ?_, fun r => ?_, fun r hr => ?_, ?_,
    fun d hd n hn => ?_, fun e he n hn => ?_⟩
  · rw [hconfig]
    exact hchecks.total
  · rw [hids]
    exact count_scheduled hp hcached r
  · exact hp.not_scheduled (hp.preempted r hr)
  · rw [hconfig, hrunning]
    exact hchecks.running
  · simp only [outputData, List.mem_map] at hd
    obtain ⟨r, -, rfl⟩ := hd
    rw [hkv]
    have hid : (NewRequestData.fromRequest (p.scheduler.request r)
        ((p.reqToNewBlocks.get? r).getD [])
        (if p.scheduler.config.useV2ModelRunner then
          some (p.scheduler.request r).allTokenIds else none)).reqId = r :=
      hp.runningOk.requestId r
    rw [hid] at hn ⊢
    exact (hp.tokens r n hn).2
  · simp only [makeCachedRequestData, bind_ok_iff, pure_ok_iff] at hcached
    obtain ⟨_, -, rfl⟩ := hcached
    simp only [outputData] at he
    rw [← List.map_prod_left_eq_zip, List.mem_map] at he
    obtain ⟨r, -, rfl⟩ := he
    rw [hkv]
    exact (hp.tokens r n hn).2

end Scheduler

/-! ## Runs -/

namespace Engine

variable [DecidableEq H] {env : HashEnv H} {e e' : Engine H}

/-- In every run, a call on requests whose counts fit puts out a well-formed output. -/
theorem wellFormed_of_countsFit {config : SchedulerConfig} {kvCacheConfig : KVCacheConfig}
    {encoderCacheSize : Nat} {calls : List (EngineCall H)} {inputs : ScheduleInputs}
    {out : SchedulerOutput} {s : Scheduler H}
    (hinit : init config kvCacheConfig encoderCacheSize = .ok e)
    (hrun : run (apply env) e calls = .ok e') (hfit : e'.scheduler.CountsFit)
    (hschedule : e'.scheduler.schedule inputs = .ok (out, s)) : out.WellFormed s := by
  exact Scheduler.wellFormed_schedule
    (run_keeps (fun _ _ _ h happly => runningOk_apply h happly) (runningOk_init hinit) hrun) hfit
    hschedule

/-! ## A prompt as long as the model -/

/-- A model of four tokens, with whole prompts in a step. -/
def fourTokens : SchedulerConfig where
  maxNumRunningReqs := 2
  maxNumScheduledTokens := 8
  maxModelLen := 4

/-- A pooling request whose prompt takes the whole length is scheduled. -/
def fullPrompt : List (EngineCall FreeDigest) := [
  .addRequest { requestId := 1, pooling := true, promptTokenIds := some [5, 6, 7, 8] },
  .schedule {}]

/-- The next call, with the step still in flight, schedules -1 tokens of it. -/
theorem fullPrompt_not_wellFormed : ∃ (e e' : Engine FreeDigest) (out : SchedulerOutput)
    (s : Scheduler FreeDigest), init fourTokens (smallKVCache 10) 0 = .ok e ∧
      run (apply freeEnv) e fullPrompt = .ok e' ∧ e'.scheduler.schedule {} = .ok (out, s) ∧
      ¬out.WellFormed s := by
  have heval : (do
      let e ← init fourTokens (smallKVCache 10) 0
      let e ← run (apply freeEnv) e fullPrompt
      e.scheduler.schedule {} >>= fun result =>
        pure (result.1.numScheduledTokens.get? 1)) = .ok (some (-1)) := by decide
  simp only [bind_ok_iff, pure_ok_iff, Prod.exists] at heval
  obtain ⟨e, hinit, e', hrun, out, s, hschedule, hcount⟩ := heval
  refine ⟨e, e', out, s, hinit, hrun, hschedule, fun h => ?_⟩
  have hpos := h.positive 1 (-1) hcount
  omega

/-- The call before is on requests whose counts fit. -/
theorem fullPrompt_wellFormed : ∃ (e e' : Engine FreeDigest) (out : SchedulerOutput)
    (s : Scheduler FreeDigest), init fourTokens (smallKVCache 10) 0 = .ok e ∧
      run (apply freeEnv) e (fullPrompt.take 1) = .ok e' ∧
      e'.scheduler.schedule {} = .ok (out, s) ∧ out.WellFormed s := by
  have heval : (do
      let e ← init fourTokens (smallKVCache 10) 0
      let e ← run (apply freeEnv) e (fullPrompt.take 1)
      ensure e.scheduler.CountsFit .indexError
      e.scheduler.schedule {} >>= fun result =>
        pure (result.1.numScheduledTokens.get? 1)) = .ok (some 4) := by decide
  simp only [bind_ok_iff, ensure_eq_ok, pure_ok_iff, Prod.exists] at heval
  obtain ⟨e, hinit, e', hrun, _, hfit, out, s, hschedule, -⟩ := heval
  exact ⟨e, e', out, s, hinit, hrun, hschedule,
    wellFormed_of_countsFit hinit hrun hfit hschedule⟩

end Engine

end Vllm
