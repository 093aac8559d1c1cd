import Vllm.Frontend.OutputProcessor

/-!
# What the output processor does with a state

An output, or an abort, of a request changes its state, its parent and its collector, and the
request is freed when it has finished.
-/

namespace Vllm.Frontend

open Checked OutputProcessor

variable {X : Type}

/-! ## States of one request -/

/-- A state of the same request, behind some outputs or updates. -/
structure SameRequest (st st' : RequestState X) : Prop where
  requestId : st'.requestId = st.requestId
  externalReqId : st'.externalReqId = st.externalReqId
  parentReq : st'.parentReq = st.parentReq
  requestIndex : st'.requestIndex = st.requestIndex
  outputKind : st'.outputKind = st.outputKind
  queue : st'.queue = st.queue
  detokenizer : st'.detokenizer.isSome = st.detokenizer.isSome

/-- The same, and no update was applied. -/
structure SameStream (st st' : RequestState X) : Prop extends SameRequest st st' where
  streaming : st'.streamingInput = st.streamingInput

theorem SameStream.refl (st : RequestState X) : SameStream st st :=
  ⟨⟨rfl, rfl, rfl, rfl, rfl, rfl, rfl⟩, rfl⟩

theorem SameRequest.trans {st st' st'' : RequestState X} (h : SameRequest st st')
    (h' : SameRequest st' st'') : SameRequest st st'' where
  requestId := h'.requestId.trans h.requestId
  externalReqId := h'.externalReqId.trans h.externalReqId
  parentReq := h'.parentReq.trans h.parentReq
  requestIndex := h'.requestIndex.trans h.requestIndex
  outputKind := h'.outputKind.trans h.outputKind
  queue := h'.queue.trans h.queue
  detokenizer := h'.detokenizer.trans h.detokenizer

theorem SameStream.trans {st st' st'' : RequestState X} (h : SameStream st st')
    (h' : SameStream st' st'') : SameStream st st'' :=
  ⟨h.toSameRequest.trans h'.toSameRequest, h'.streaming.trans h.streaming⟩

/-- What `make_request_output` does for a child: nothing unless it has finished, or it hands its
completion to its parent. -/
inductive MadeByChild (parents : ReqId → ParentRequest) (st : RequestState X) (p : ReqId)
    (finishReason : Option FinishReason) : Option RequestOutput → (ReqId → ParentRequest) → Prop
  | silent (h : finishReason = none) : MadeByChild parents st p finishReason none parents
  | handed (c : CompletionOutput) (outputs : List (Option CompletionOutput)) (finished : Bool)
      (parent : ParentRequest) (o : RequestOutput) (hindex : c.index = st.requestIndex)
      (hreason : c.finishReason = finishReason)
      (hget : (parents p).getOutputs st.requestId c = .ok ((outputs, finished), parent))
      (hrequest : o.requestId = some parent.externalReqId)
      (houtputs : o.outputs = .completions outputs) (hfinished : o.finished = finished) :
      MadeByChild parents st p finishReason (if outputs = [] then none else some o)
        (Function.update parents p parent)

/-- What `make_request_output` does. -/
structure Made (parents : ReqId → ParentRequest) (st : RequestState X)
    (finishReason : Option FinishReason) (m : MadeOutput X) : Prop where
  state : SameStream st m.state
  single : st.parentReq = none → m.parents = parents
  full : st.parentReq = none → ∀ o ∈ m.output, ∀ l, o.outputs = .completions l → none ∉ l

namespace RequestState

variable {cfg : ProcessorConfig X} {st st' : RequestState X}

theorem sameStream_of_streamed {tokens : List TokenId} {finished : Bool}
    {r : Option (List TokenId) × RequestState X} (h : st.streamed cfg tokens finished = .ok r) :
    SameStream st r.2 := by
  unfold streamed at h
  split at h
  · cases h
    exact .refl st
  · split at h
    · cases h
    · rename_i x hx
      simp only at h
      split at h
      · split at h
        · cases h
          exact ⟨⟨rfl, rfl, rfl, rfl, rfl, rfl, rfl⟩, rfl⟩
        · cases h
          exact .refl st
      · cases h
        exact .refl st

variable {finishReason : Option FinishReason}

theorem sameStream_of_newCompletionOutput {tokens : List TokenId}
    {stopReason : Option OutputStopReason} {r : CompletionOutput × RequestState X}
    (h : st.newCompletionOutput cfg tokens finishReason stopReason = .ok r) :
    SameStream st r.2 ∧ r.1.index = st.requestIndex ∧ r.1.finishReason = finishReason := by
  unfold newCompletionOutput at h
  split at h
  · cases h
  · rename_i x hx
    cases h
    exact ⟨⟨⟨rfl, rfl, rfl, rfl, rfl, rfl, by simp [hx]⟩, rfl⟩, rfl, rfl⟩

private theorem streamed_of_finished {tokens : List TokenId}
    {r : Option (List TokenId) × RequestState X} (h : st.streamed cfg tokens true = .ok r) :
    r.1 ≠ none := by
  unfold streamed at h
  split at h
  · cases h
    simp
  · split at h
    · cases h
    · simp only [true_or, if_true] at h
      split at h <;> cases h <;> simp

/-- `make_request_output` does that. -/
theorem made_of_makeRequestOutput {parents : ReqId → ParentRequest} {tokens : List TokenId}
    {pooling : Option Nat} {stopReason : Option OutputStopReason} {m : MadeOutput X}
    (h : st.makeRequestOutput cfg parents tokens pooling finishReason stopReason = .ok m) :
    Made parents st finishReason m := by
  unfold makeRequestOutput at h
  simp only at h
  split at h
  · cases h
    exact ⟨.refl st, fun _ => rfl, fun _ o ho => (by cases ho)⟩
  · obtain ⟨sent, hsent, h⟩ := bind_ok_iff.mp h
    have hsame := sameStream_of_streamed hsent
    split at h
    · cases h
      exact ⟨hsame, fun _ => rfl, fun _ o ho => (by cases ho)⟩
    · split at h
      · cases h
        refine ⟨hsame, fun _ => rfl, fun _ o ho l hl => ?_⟩
        obtain rfl := Option.some.inj ho
        cases hl
      · obtain ⟨completion, hcompletion, h⟩ := bind_ok_iff.mp h
        obtain ⟨made, hmade, h⟩ := bind_ok_iff.mp h
        cases h
        obtain ⟨hsame', -, -⟩ := sameStream_of_newCompletionOutput hcompletion
        have hstate := hsame.trans hsame'
        refine ⟨hstate, fun hsingle => ?_, fun hsingle o ho l hl => ?_⟩
        · rw [← hstate.parentReq] at hsingle
          simp only [completionOutputs, hsingle] at hmade
          cases hmade
          rfl
        · rw [← hstate.parentReq] at hsingle
          simp only [completionOutputs, hsingle] at hmade
          cases hmade
          obtain rfl := Option.some.inj ho
          cases hl
          simp

/-- For a child it does that. -/
theorem madeByChild_of_makeRequestOutput {parents : ReqId → ParentRequest} {tokens : List TokenId}
    {stopReason : Option OutputStopReason} {m : MadeOutput X} {p : ReqId}
    (hp : st.parentReq = some p)
    (h : st.makeRequestOutput cfg parents tokens none finishReason stopReason = .ok m) :
    MadeByChild parents st p finishReason m.output m.parents := by
  unfold makeRequestOutput at h
  simp only at h
  split at h
  · rename_i hsilent
    cases h
    exact .silent (by simpa using hsilent.1)
  · obtain ⟨sent, hsent, h⟩ := bind_ok_iff.mp h
    have hsame := sameStream_of_streamed hsent
    split at h
    · rename_i hnone
      cases h
      refine .silent ?_
      cases hreason : finishReason with
      | none => rfl
      | some reason =>
        rw [hreason] at hsent
        exact absurd hnone (streamed_of_finished hsent)
    · obtain ⟨completion, hcompletion, h⟩ := bind_ok_iff.mp h
      obtain ⟨made, hmade, h⟩ := bind_ok_iff.mp h
      cases h
      obtain ⟨hsame', hindex, hreason⟩ := sameStream_of_newCompletionOutput hcompletion
      have hstate := hsame.trans hsame'
      simp only [completionOutputs, hstate.parentReq, hp, hstate.requestId] at hmade
      obtain ⟨⟨⟨outputs, finished⟩, parent⟩, hget, hmade⟩ := bind_ok_iff.mp hmade
      cases hmade
      exact .handed completion.1 outputs finished parent _ (hindex.trans hsame.requestIndex)
        hreason hget rfl rfl rfl

/-- The stop checks keep the state, but for the detokenizer. -/
theorem sameStream_of_detokenize {output : EngineCoreOutput} {c : CheckedState X}
    (h : st.detokenize cfg output = .ok c) : SameStream st c.state := by
  unfold detokenize at h
  split at h
  · cases h
    exact .refl st
  · split at h
    · cases h
    · rename_i x hx
      simp only at h
      split at h <;> cases h <;> exact ⟨⟨rfl, rfl, rfl, rfl, rfl, rfl, by simp [hx]⟩, rfl⟩

end RequestState

/-! ## Outputs -/

namespace OutputProcessor

variable {cfg : ProcessorConfig X} {s s' : OutputProcessor X}

/-- Why a request has finished with an output, if it has: the engine says so, or the stop checks
find a stop string. -/
def finishReasonOf (cfg : ProcessorConfig X) (st : RequestState X) (output : EngineCoreOutput) :
    Option FinishReason :=
  match { st with numCachedTokens := output.numCachedTokens }.detokenize cfg output with
  | .ok checked => checked.finishReason
  | .error _ => none

/-- The collectors behind the outputs of a child. -/
inductive PutOutputs (collectors : ReqId → RequestOutputCollector) (externalReqId : ExternalId)
    (outputs : List (Option CompletionOutput)) (finished : Bool) :
    Option ReqId → (ReqId → RequestOutputCollector) → Prop
  | nothing (queue : Option ReqId) (h : outputs = [] ∨ queue = none) :
      PutOutputs collectors externalReqId outputs finished queue collectors
  | put (q : ReqId) (o : RequestOutput) (collector : RequestOutputCollector) (hne : outputs ≠ [])
      (hrequest : o.requestId = some externalReqId) (houtputs : o.outputs = .completions outputs)
      (hfinished : o.finished = finished) (hput : (collectors q).put o = .ok collector) :
      PutOutputs collectors externalReqId outputs finished (some q)
        (Function.update collectors q collector)

/-- What an output of a child does to the parents and the collectors. -/
inductive HandedByChild (s : OutputProcessor X) (st : RequestState X) (p : ReqId)
    (finishReason : Option FinishReason) :
    (ReqId → ParentRequest) → (ReqId → RequestOutputCollector) → Prop
  | silent (h : finishReason = none) :
      HandedByChild s st p finishReason s.parents s.collectors
  | handed (c : CompletionOutput) (outputs : List (Option CompletionOutput)) (finished : Bool)
      (parent : ParentRequest) (collectors : ReqId → RequestOutputCollector)
      (hindex : c.index = st.requestIndex) (hreason : c.finishReason = finishReason)
      (hget : (s.parents p).getOutputs st.requestId c = .ok ((outputs, finished), parent))
      (hput : PutOutputs s.collectors parent.externalReqId outputs finished st.queue
        collectors) :
      HandedByChild s st p finishReason (Function.update s.parents p parent) collectors

/-- What an output of a request does to the parents and the collectors. -/
structure Handed (s : OutputProcessor X) (st : RequestState X)
    (finishReason : Option FinishReason) (parents : ReqId → ParentRequest)
    (collectors : ReqId → RequestOutputCollector) : Prop where
  single : st.parentReq = none →
    parents = s.parents ∧ ∀ q, st.queue ≠ some q → collectors q = s.collectors q
  child : ∀ p, st.parentReq = some p → HandedByChild s st p finishReason parents collectors

private theorem put_eq_ok {q : ReqId} {o : RequestOutput} : s.put q o = .ok s' ↔
    ∃ collector, (s.collectors q).put o = .ok collector ∧
      { s with collectors := Function.update s.collectors q collector } = s' := by
  simp only [put, bind_ok_iff, pure_ok_iff]

variable {st : RequestState X}

/-- Delivering an output. -/
theorem deliver_eq_ok {o : Option RequestOutput} {r : OutputProcessor X × List RequestOutput}
    (h : s.deliver st o = .ok r) : r.1 = { s with collectors := r.1.collectors } ∧
      (∀ q, st.queue ≠ some q → r.1.collectors q = s.collectors q) ∧
      (o = none → r.1.collectors = s.collectors) ∧
      (st.queue = none → r.1.collectors = s.collectors) ∧
      ∀ q, st.queue = some q → ∀ output ∈ o, ∃ collector, (s.collectors q).put
        { output with finished := output.finished && !st.streamingInput } = .ok collector ∧
        r.1.collectors = Function.update s.collectors q collector := by
  unfold deliver at h
  cases o with
  | none =>
    cases h
    exact ⟨rfl, fun _ _ => rfl, fun _ => rfl, fun _ => rfl, fun _ _ _ ho => (by cases ho)⟩
  | some output =>
    simp only at h
    split at h
    · rename_i q hq
      obtain ⟨s₁, hput, h⟩ := bind_ok_iff.mp h
      cases h
      obtain ⟨collector, hcollector, rfl⟩ := put_eq_ok.mp hput
      refine ⟨rfl, fun q' hq' => Function.update_of_ne ?_ _ _, fun ho => (by cases ho),
        fun hnone => ?_, fun q' hq' output' ho => ?_⟩
      · rintro rfl
        exact hq' hq
      · rw [hq] at hnone
        cases hnone
      · obtain rfl := Option.some.inj (hq.symm.trans hq')
        obtain rfl := Option.some.inj ho
        exact ⟨collector, hcollector, rfl⟩
    · rename_i hq
      cases h
      refine ⟨rfl, fun _ _ => rfl, fun _ => rfl, fun _ => rfl, fun q' hq' => ?_⟩
      rw [hq] at hq'
      cases hq'

/-- A request is freed: its state goes, its id is unlisted, and its parent goes when it waits for
no other child. -/
structure Freed (s : OutputProcessor X) (st : RequestState X) (s' : OutputProcessor X) : Prop where
  states : ∀ id, s'.requestStates.get? id =
    if id = st.requestId then none else s.requestStates.get? id
  listed : st.requestId ∈ GroupIndex.members s.externalReqIds st.externalReqId
  external : s'.externalReqIds =
    GroupIndex.remove s.externalReqIds st.externalReqId st.requestId
  parentRequests : s'.parentRequests = match st.parentReq with
    | some p =>
      if (s'.parents p).childRequests = [] then s.parentRequests.filter (· ≠ p)
      else s.parentRequests
    | none => s.parentRequests

/-- `_finish_request` frees a request. -/
theorem freed_of_finishRequest (h : s.finishRequest st = .ok s') :
    Freed s st s' ∧ s'.parents = s.parents ∧ s'.collectors = s.collectors := by
  unfold finishRequest unlist at h
  simp only [bind_ok_iff, pure_ok_iff, ensure_eq_ok] at h
  obtain ⟨_, -, s₁, ⟨_, hlisted, rfl⟩, rfl⟩ := h
  cases hp : st.parentReq with
  | none =>
    exact ⟨⟨fun id => by simp, hlisted, rfl, by simp [hp]⟩, rfl, rfl⟩
  | some p =>
    simp only
    split
    · rename_i hchildren
      exact ⟨⟨fun id => by simp, hlisted, rfl, by simp [hp, hchildren]⟩, rfl, rfl⟩
    · rename_i hchildren
      exact ⟨⟨fun id => by simp, hlisted, rfl, by simp [hp, hchildren]⟩, rfl, rfl⟩

/-- What `process_outputs` does with an output of a request that is there. -/
structure Processed (cfg : ProcessorConfig X) (s : OutputProcessor X) (output : EngineCoreOutput)
    (st : RequestState X) (s' : OutputProcessor X) : Prop where
  handed : Handed s st (finishReasonOf cfg st output) s'.parents s'.collectors
  stays : finishReasonOf cfg st output = none ∨ st.streamingInput = true →
    ∃ st', SameRequest st st' ∧ (st.streamingInput = false → st'.streamingInput = false) ∧
      (∀ id, s'.requestStates.get? id =
        if id = st.requestId then some st' else s.requestStates.get? id) ∧
      s'.parentRequests = s.parentRequests ∧ s'.externalReqIds = s.externalReqIds
  leaves : finishReasonOf cfg st output ≠ none → st.streamingInput = false → Freed s st s'

/-- Where an output was made for a child, it is put into the collector of the child. -/
theorem handed_of_made {finishReason : Option FinishReason} {m : MadeOutput X}
    {collectors : ReqId → RequestOutputCollector} (hmade : Made s.parents st finishReason m)
    (hchild : ∀ p, st.parentReq = some p →
      MadeByChild s.parents st p finishReason m.output m.parents)
    (hother : ∀ q, st.queue ≠ some q → collectors q = s.collectors q)
    (hnone : m.output = none → collectors = s.collectors)
    (hqueue : st.queue = none → collectors = s.collectors)
    (hput : ∀ p, st.parentReq = some p → ∀ q, st.queue = some q → ∀ o ∈ m.output,
      ∃ collector, (s.collectors q).put o = .ok collector ∧
        collectors = Function.update s.collectors q collector) :
    Handed s st finishReason m.parents collectors := by
  refine ⟨fun hsingle => ⟨hmade.single hsingle, hother⟩, fun p hp => ?_⟩
  have h := hchild p hp
  generalize hout : m.output = output at h
  generalize m.parents = parents at h
  cases h with
  | silent hreason =>
    rw [hnone hout]
    exact .silent hreason
  | handed c outputs finished parent o hindex hreason hget hrequest houtputs hfinished =>
    refine .handed c outputs finished parent collectors hindex hreason hget ?_
    by_cases hempty : outputs = []
    · rw [if_pos hempty] at hout
      rw [hnone hout]
      exact .nothing _ (Or.inl hempty)
    · rw [if_neg hempty] at hout
      cases hq : st.queue with
      | none =>
        rw [hqueue hq]
        exact .nothing _ (Or.inr rfl)
      | some q =>
        obtain ⟨collector, hcollector, rfl⟩ := hput p hp q hq o hout
        exact .put q o collector hempty hrequest houtputs hfinished hcollector

theorem Handed.of_sameStream {st st' : RequestState X} {finishReason : Option FinishReason}
    {parents : ReqId → ParentRequest} {collectors : ReqId → RequestOutputCollector}
    (hsame : SameStream st st') (h : Handed s st' finishReason parents collectors) :
    Handed s st finishReason parents collectors := by
  refine ⟨fun hsingle => ?_, fun p hp => ?_⟩
  · rw [← hsame.queue]
    exact h.single (hsame.parentReq.trans hsingle)
  · cases h.child p (hsame.parentReq.trans hp) with
    | silent hreason => exact .silent hreason
    | handed c outputs finished parent _ hindex hreason hget hput =>
      rw [hsame.requestId] at hget
      rw [hsame.queue] at hput
      exact .handed c outputs finished parent _ (hindex.trans hsame.requestIndex) hreason hget hput

/-- What is handed over does not depend on the states that are there. -/
theorem Handed.congr {finishReason : Option FinishReason} {parents : ReqId → ParentRequest}
    {collectors : ReqId → RequestOutputCollector} (h : Handed s st finishReason parents collectors)
    (hparents : s'.parents = s.parents) (hcollectors : s'.collectors = s.collectors) :
    Handed s' st finishReason parents collectors := by
  refine ⟨fun hsingle => ?_, fun p hp => ?_⟩
  · rw [hparents, hcollectors]
    exact h.single hsingle
  · cases h.child p hp with
    | silent hreason =>
      rw [← hparents, ← hcollectors]
      exact .silent hreason
    | handed c outputs finished parent _ hindex hreason hget hput =>
      rw [← hparents] at hget ⊢
      rw [← hcollectors] at hput
      exact .handed c outputs finished parent _ hindex hreason hget hput

/-- The state of a request of a streaming input is that of the same request. -/
theorem sameRequest_resume (st : RequestState X) : SameRequest st (resume st) := by
  unfold resume
  split <;> exact ⟨rfl, rfl, rfl, rfl, rfl, rfl, rfl⟩

/-- `process_outputs` does that. -/
theorem processed_of_processOutput {output : EngineCoreOutput}
    {r : OutputProcessor X × ProcessedOutputs}
    (hst : s.requestStates.get? output.requestId = some st) (hkey : st.requestId = output.requestId)
    (hkind : st.parentReq ≠ none → output.poolingOutput = none ∧ st.streamingInput = false)
    (h : s.processOutput cfg output = .ok r) : Processed cfg s output st r.1 := by
  simp only [processOutput, hst] at h
  obtain ⟨checked, hchecked, h⟩ := bind_ok_iff.mp h
  obtain ⟨m, hm, h⟩ := bind_ok_iff.mp h
  obtain ⟨delivered, hdelivered, h⟩ := bind_ok_iff.mp h
  have hreason : finishReasonOf cfg st output = checked.finishReason := by
    simp only [finishReasonOf, hchecked]
  have hcached : SameStream st { st with numCachedTokens := output.numCachedTokens } :=
    ⟨⟨rfl, rfl, rfl, rfl, rfl, rfl, rfl⟩, rfl⟩
  have hsame := hcached.trans (RequestState.sameStream_of_detokenize hchecked)
  have hmade := RequestState.made_of_makeRequestOutput hm
  have hstate := hsame.trans hmade.state
  obtain ⟨hframe, hother, hnone, hqueue, hput⟩ := deliver_eq_ok hdelivered
  have hhanded : Handed s st (finishReasonOf cfg st output) m.parents delivered.1.collectors := by
    rw [hreason]
    refine Handed.of_sameStream hsame (handed_of_made hmade (fun p hp => ?_)
      (fun q hq => hother q ?_) hnone (fun hq => hqueue ?_) fun p hp q hq o ho => ?_)
    · rw [hsame.parentReq] at hp
      rw [(hkind (by rw [hp]; simp)).1] at hm
      exact RequestState.madeByChild_of_makeRequestOutput (hsame.parentReq.trans hp) hm
    · rw [hmade.state.queue]
      exact hq
    · rw [hmade.state.queue]
      exact hq
    · have hstreaming : m.state.streamingInput = false := by
        rw [hstate.streaming]
        rw [hsame.parentReq] at hp
        exact (hkind (by rw [hp]; simp)).2
      have hcollector := hput q (by rw [hmade.state.queue]; exact hq) o ho
      rw [hstreaming] at hcollector
      simpa using hcollector
  have hparents : delivered.1.parents = m.parents := by rw [hframe]
  have hstates : delivered.1.requestStates =
      s.requestStates.insert output.requestId m.state := by rw [hframe]
  have hregistered : delivered.1.parentRequests = s.parentRequests := by rw [hframe]
  have hlists : delivered.1.externalReqIds = s.externalReqIds := by rw [hframe]
  by_cases hfinish : checked.finishReason = none
  · rw [if_pos hfinish] at h
    cases h
    refine ⟨by rw [hparents]; exact hhanded, fun _ => ?_, fun hne => ?_⟩
    · refine ⟨m.state, hstate.toSameRequest, fun hs => hstate.streaming.trans hs, fun id => ?_,
        hregistered, hlists⟩
      rw [hstates, Dict.get?_insert, hkey]
    · rw [hreason] at hne
      exact absurd hfinish hne
  · rw [if_neg hfinish] at h
    by_cases hstream : m.state.streamingInput = true
    · rw [if_pos hstream] at h
      cases h
      have hstream' : st.streamingInput = true := hstate.streaming.symm.trans hstream
      refine ⟨by show Handed s st _ delivered.1.parents _; rw [hparents]; exact hhanded,
        fun _ => ?_, fun _ hs => ?_⟩
      · refine ⟨resume m.state, hstate.toSameRequest.trans (sameRequest_resume _), fun hs => ?_,
          fun id => ?_, hregistered, hlists⟩
        · rw [hstream'] at hs
          cases hs
        · simp only [hstates, Dict.get?_insert, hkey]
          split <;> rfl
      · rw [hstream'] at hs
        cases hs
    · rw [if_neg hstream] at h
      obtain ⟨s₂, hs₂, h⟩ := bind_ok_iff.mp h
      cases h
      obtain ⟨hfreed, hparents', hcollectors'⟩ := freed_of_finishRequest hs₂
      refine ⟨by rw [hparents', hcollectors', hparents]; exact hhanded, fun hor => ?_,
        fun _ _ => ⟨fun id => ?_, ?_, ?_, ?_⟩⟩
      · rcases hor with hor | hor
        · rw [hreason] at hor
          exact absurd hor hfinish
        · exact absurd (hstate.streaming.trans hor) hstream
      · rw [hfreed.states, hstates, Dict.get?_insert, hstate.requestId, hkey]
        split <;> rfl
      · have hlisted := hfreed.listed
        rw [hstate.requestId, hstate.externalReqId, hlists] at hlisted
        exact hlisted
      · rw [hfreed.external, hlists, hstate.requestId, hstate.externalReqId]
      · rw [hfreed.parentRequests, hregistered, hstate.parentReq]

/-- What an update of a streaming input does: it changes the state, or frees the request when the
input has ended. -/
inductive Updated (s : OutputProcessor X) (st : RequestState X) (s' : OutputProcessor X) : Prop
  | written (st' : RequestState X) (hsame : SameRequest st st')
      (hs' : s' = { s with requestStates := s.requestStates.insert st.requestId st' })
  | freed (h : Freed s st s') (hparents : s'.parents = s.parents)
      (hcollectors : ∀ q, st.queue ≠ some q → s'.collectors q = s.collectors q)

/-- `_update_streaming_request_state` does that. -/
theorem updated_of_updateStreamingRequestState {request : EngineCoreRequest}
    {prompt : Option String} (h : s.updateStreamingRequestState st request prompt = .ok s') :
    Updated s st s' := by
  unfold updateStreamingRequestState at h
  simp only at h
  split at h
  · split at h
    · obtain ⟨s₁, hs₁, h⟩ := bind_ok_iff.mp h
      obtain ⟨hfreed, hparents, hcollectors⟩ := freed_of_finishRequest hs₁
      split at h
      · rename_i q hq
        obtain ⟨collector, -, rfl⟩ := put_eq_ok.mp h
        refine .freed ⟨hfreed.states, hfreed.listed, hfreed.external, hfreed.parentRequests⟩
          hparents fun q' hq' => ?_
        have hne : q' ≠ q := by
          rintro rfl
          exact hq' hq
        simp only [Function.update_of_ne hne, hcollectors]
      · cases h
        exact .freed hfreed hparents fun q' _ => by rw [hcollectors]
    · cases h
      refine .written _ ?_ rfl
      exact ⟨rfl, rfl, rfl, rfl, rfl, rfl, rfl⟩
    · cases h
      refine .written _ ?_ rfl
      exact ⟨rfl, rfl, rfl, rfl, rfl, rfl, rfl⟩
  · split at h
    · cases h
      refine .written _ ?_ rfl
      exact ⟨rfl, rfl, rfl, rfl, rfl, rfl, rfl⟩
    · cases h
      refine .written _ ?_ rfl
      exact ⟨rfl, rfl, rfl, rfl, rfl, rfl, rfl⟩

/-- An output is processed, whatever else is returned. -/
def processNext (cfg : ProcessorConfig X) (s : OutputProcessor X) (output : EngineCoreOutput) :
    Except ProcessorError (OutputProcessor X) := do
  let r ← s.processOutput cfg output
  pure r.1

/-- `process_outputs` processes one output after the other. -/
theorem run_processNext {outputs : List EngineCoreOutput}
    {r : OutputProcessor X × ProcessedOutputs} (h : processOutputs cfg s outputs = .ok r) :
    run (processNext cfg) s outputs = .ok r.1 := by
  induction outputs generalizing s r with
  | nil =>
    cases h
    rfl
  | cons output outputs ih =>
    obtain ⟨first, hfirst, h⟩ := bind_ok_iff.mp h
    obtain ⟨rest, hrest, h⟩ := bind_ok_iff.mp h
    cases h
    have hrun : run (processNext cfg) first.1 outputs = .ok rest.1 := ih hrest
    refine bind_ok_iff.mpr ⟨first.1, ?_, hrun⟩
    exact bind_ok_iff.mpr ⟨first, hfirst, rfl⟩

/-- If all outputs can be processed, `process_outputs` returns. -/
theorem processOutputs_of_run {outputs : List EngineCoreOutput}
    (h : run (processNext cfg) s outputs = .ok s') :
    ∃ r, processOutputs cfg s outputs = .ok r ∧ r.1 = s' := by
  induction outputs generalizing s with
  | nil =>
    cases h
    exact ⟨_, rfl, rfl⟩
  | cons output outputs ih =>
    obtain ⟨s₁, hs₁, h⟩ := bind_ok_iff.mp h
    obtain ⟨first, hfirst, hs₁⟩ := bind_ok_iff.mp hs₁
    cases hs₁
    obtain ⟨rest, hrest, rfl⟩ := ih h
    exact ⟨_, bind_ok_iff.mpr ⟨first, hfirst, bind_ok_iff.mpr ⟨rest, hrest, rfl⟩⟩, rfl⟩

/-! ## Aborts -/

/-- The final output of a request that is aborted. -/
theorem abortState_eq_ok (hkind : st.parentReq ≠ none → st.detokenizer.isSome = true)
    (h : s.abortState cfg st = .ok s') :
    s' = { s with parents := s'.parents, collectors := s'.collectors } ∧
      (st.queue = none → s'.parents = s.parents ∧ s'.collectors = s.collectors) ∧
      (st.queue ≠ none → Handed s st (some .abort) s'.parents s'.collectors) := by
  unfold abortState at h
  split at h
  · rename_i hq
    cases h
    exact ⟨rfl, fun _ => ⟨rfl, rfl⟩, fun hne => absurd hq hne⟩
  · rename_i q hq
    obtain ⟨m, hm, h⟩ := bind_ok_iff.mp h
    have hmade := RequestState.made_of_makeRequestOutput hm
    have hchild : ∀ p, st.parentReq = some p →
        MadeByChild s.parents st p (some .abort) m.output m.parents := by
      intro p hp
      have hsome := hkind (by rw [hp]; simp)
      have hnot : st.detokenizer.isNone = false := by
        cases hx : st.detokenizer with
        | none => rw [hx] at hsome; cases hsome
        | some x => rfl
      rw [hnot] at hm
      exact RequestState.madeByChild_of_makeRequestOutput hp hm
    split at h
    · rename_i o ho
      obtain ⟨collector, hcollector, rfl⟩ := put_eq_ok.mp h
      refine ⟨rfl, fun hnone => ?_, fun _ => handed_of_made hmade hchild (fun q' hq' => ?_)
        (fun hnone => ?_) (fun hnone => ?_) fun p _ q' hq' o' ho' => ?_⟩
      · rw [hq] at hnone
        cases hnone
      · refine Function.update_of_ne ?_ _ _
        rintro rfl
        exact hq' hq
      · rw [ho] at hnone
        cases hnone
      · rw [hq] at hnone
        cases hnone
      · obtain rfl := Option.some.inj (hq.symm.trans hq')
        obtain rfl := Option.some.inj (ho.symm.trans ho')
        exact ⟨collector, hcollector, rfl⟩
    · rename_i ho
      cases h
      refine ⟨rfl, fun hnone => ?_, fun _ => handed_of_made hmade hchild (fun q' hq' => rfl)
        (fun _ => rfl) (fun _ => rfl) fun p _ q' hq' o' ho' => ?_⟩
      · rw [hq] at hnone
        cases hnone
      · rw [ho] at ho'
        cases ho'

/-- An abort of one request leaves the other states, and the index. -/
theorem abortState_frame (h : s.abortState cfg st = .ok s') :
    s'.requestStates = s.requestStates ∧ s'.externalReqIds = s.externalReqIds := by
  unfold abortState at h
  split at h
  · cases h
    exact ⟨rfl, rfl⟩
  · obtain ⟨m, -, h⟩ := bind_ok_iff.mp h
    split at h
    · obtain ⟨collector, -, rfl⟩ := put_eq_ok.mp h
      exact ⟨rfl, rfl⟩
    · cases h
      exact ⟨rfl, rfl⟩

/-! ### The rule of aborts -/

section AbortRule

variable {I : OutputProcessor X → Prop} {A : ReqId → Prop}

theorem unlist_eq_ok {ext : ExternalId} {id : ReqId} : s.unlist ext id = .ok s' ↔
    id ∈ GroupIndex.members s.externalReqIds ext ∧
      { s with externalReqIds := GroupIndex.remove s.externalReqIds ext id } = s' := by
  simp only [unlist, bind_ok_iff, ensure_eq_ok, pure_ok_iff, exists_const]

/-- The second loop keeps what every abort of one id keeps. -/
theorem abortEach_rule {abortChildren : OutputProcessor X → List ReqId →
      Except ProcessorError (OutputProcessor X × List ReqId)}
    (hpop : ∀ s s' id st, I s → A id → s.requestStates.get? id = some st →
      abortState cfg { s with requestStates := s.requestStates.erase id } st = .ok s' → I s')
    (hchildren : ∀ s p r, I s → A p → p ∈ s.parentRequests →
      abortChildren s (s.parents p).childRequests = .ok r → I r.1)
    (hparent : ∀ s p, I s → A p →
      I { s with parentRequests := s.parentRequests.filter (· ≠ p) })
    {ids : List ReqId} (hids : ∀ id ∈ ids, A id) {r : OutputProcessor X × List ReqId} (hs : I s)
    (h : abortEach cfg abortChildren s ids = .ok r) : I r.1 := by
  induction ids generalizing s r with
  | nil =>
    cases h
    exact hs
  | cons id ids ih =>
    obtain ⟨first, hfirst, h⟩ := bind_ok_iff.mp h
    obtain ⟨rest, hrest, h⟩ := bind_ok_iff.mp h
    cases h
    have hid := hids id (by simp)
    show I rest.1
    refine ih (fun id' hid' => hids id' (List.mem_cons_of_mem _ hid')) ?_ hrest
    unfold abortOne at hfirst
    split at hfirst
    · rename_i st hst
      obtain ⟨s₁, hs₁, hfirst⟩ := bind_ok_iff.mp hfirst
      cases hfirst
      exact hpop s s₁ id st hs hid hst hs₁
    · split at hfirst
      · rename_i hmem
        obtain ⟨aborted, haborted, hfirst⟩ := bind_ok_iff.mp hfirst
        cases hfirst
        refine hparent _ id ?_ hid
        unfold abortParent at haborted
        split at haborted
        · cases haborted
          exact hs
        · exact hchildren s id aborted hs hid hmem haborted
      · cases hfirst
        exact hs

/-- `abort_requests` on internal ids keeps what the abort of every single request keeps. -/
theorem abortInternal_rule
    (hunlist : ∀ s externalReqIds, I s → I { s with externalReqIds })
    (hpop : ∀ s s' id st, I s → A id → s.requestStates.get? id = some st →
      abortState cfg { s with requestStates := s.requestStates.erase id } st = .ok s' → I s')
    (hparent : ∀ s p, I s → A p →
      I { s with parentRequests := s.parentRequests.filter (· ≠ p) })
    (hchildren : ∀ s p, I s → A p → p ∈ s.parentRequests → ∀ c ∈ (s.parents p).childRequests, A c)
    {depth : Nat} {ids : List ReqId} (hids : ∀ id ∈ ids, A id)
    {r : OutputProcessor X × List ReqId} (hs : I s)
    (h : abortInternal cfg depth s ids = .ok r) : I r.1 := by
  induction depth generalizing s ids r with
  | zero => cases h
  | succ depth ih =>
    obtain ⟨s₁, hs₁, h⟩ := bind_ok_iff.mp h
    have hI : I s₁ := by
      refine run_invariant (C := fun _ _ => True) (fun s id s' hs _ hs' => ?_) hs
        (along_of_forall (fun _ _ => trivial) s ids) hs₁
      unfold unlistInternal at hs'
      split at hs'
      · obtain ⟨-, rfl⟩ := unlist_eq_ok.mp hs'
        exact hunlist _ _ hs
      · cases hs'
        exact hs
    exact abortEach_rule hpop (fun s p r hs hp hmem hr => ih (hchildren s p hs hp hmem) hs hr)
      hparent hids hI h

/-- Popping external ids leaves the rest. -/
theorem popExternal_frame (s : OutputProcessor X) (ids : List ExternalId) :
    (popExternal s ids).2 = { s with externalReqIds := (popExternal s ids).2.externalReqIds } := by
  induction ids generalizing s with
  | nil => rfl
  | cons ext ids ih =>
    have hrest := ih { s with externalReqIds := s.externalReqIds.erase ext }
    exact hrest

/-- What is popped was listed under one of the ids. -/
theorem mem_popExternal {ids : List ExternalId} {id : ReqId} (h : id ∈ (popExternal s ids).1) :
    ∃ ext ∈ ids, id ∈ GroupIndex.members s.externalReqIds ext := by
  induction ids generalizing s with
  | nil => exact absurd h List.not_mem_nil
  | cons ext ids ih =>
    rcases List.mem_append.mp h with h | h
    · exact ⟨ext, List.mem_cons_self, h⟩
    · obtain ⟨ext', hext', hmem⟩ := ih h
      simp only [GroupIndex.members_erase] at hmem
      split at hmem
      · exact absurd hmem List.not_mem_nil
      · exact ⟨ext', List.mem_cons_of_mem _ hext', hmem⟩

/-- `abort_requests` on external ids, too. -/
theorem abortExternal_rule
    (hunlist : ∀ s externalReqIds, I s → I { s with externalReqIds })
    (hpop : ∀ s s' id st, I s → A id → s.requestStates.get? id = some st →
      abortState cfg { s with requestStates := s.requestStates.erase id } st = .ok s' → I s')
    (hparent : ∀ s p, I s → A p →
      I { s with parentRequests := s.parentRequests.filter (· ≠ p) })
    (hchildren : ∀ s p, I s → A p → p ∈ s.parentRequests → ∀ c ∈ (s.parents p).childRequests, A c)
    {ids : List ExternalId}
    (hids : ∀ ext ∈ ids, ∀ id ∈ GroupIndex.members s.externalReqIds ext, A id)
    {r : OutputProcessor X × List ReqId} (hs : I s) (h : s.abortExternal cfg ids = .ok r) :
    I r.1 := by
  have hI : I (popExternal s ids).2 := by
    rw [popExternal_frame]
    exact hunlist s _ hs
  have hA : ∀ id ∈ (popExternal s ids).1, A id := by
    intro id hid
    obtain ⟨ext, hext, hmem⟩ := mem_popExternal hid
    exact hids ext hext id hmem
  exact abortEach_rule hpop
    (fun s p r hs hp hmem hr => abortInternal_rule hunlist hpop hparent hchildren
      (hchildren s p hs hp hmem) hs hr) hparent hA hI h

end AbortRule

end OutputProcessor

end Vllm.Frontend
