import Vllm.Frontend.ExternalIds

/-!
# When the output processor returns

Outputs are merged as long as all of their completions are there, and a request that is listed can
be freed. These are the cases in which no exception is raised.
-/

namespace Vllm.Frontend

open Checked OutputProcessor

variable {X : Type}

/-! ## Merging outputs -/

/-- All completions of an output are there. -/
def Full (o : RequestOutput) : Prop := ∀ l, o.outputs = .completions l → none ∉ l

/-- The outputs that wait are full. -/
def PendingFull (s : OutputProcessor X) : Prop :=
  ∀ q o, (s.collectors q).output = some o → Full o

/-- Completions that are there are merged. -/
private theorem mergeCompletion_ok (aggregate : Bool) {l : List (Option CompletionOutput)}
    (c : CompletionOutput) (h : none ∉ l) :
    ∃ l', mergeCompletion aggregate l (some c) = .ok l' ∧ none ∉ l' := by
  induction l with
  | nil => exact ⟨[some c], rfl, by simp⟩
  | cons a l ih =>
    rw [List.mem_cons, not_or] at h
    cases a with
    | none => exact absurd rfl h.1
    | some d =>
      simp only [mergeCompletion]
      split
      · exact ⟨_, rfl, by simp [h.2]⟩
      · obtain ⟨l', hl', hnone⟩ := ih h.2
        refine ⟨some d :: l', ?_, by simp [hnone]⟩
        exact bind_ok_iff.mpr ⟨l', hl', rfl⟩

private theorem foldlM_mergeCompletion_ok (aggregate : Bool)
    {l next : List (Option CompletionOutput)} (h : none ∉ l) (hnext : none ∉ next) :
    ∃ l', next.foldlM (mergeCompletion aggregate) l = .ok l' ∧ none ∉ l' := by
  induction next generalizing l with
  | nil => exact ⟨l, rfl, h⟩
  | cons a next ih =>
    rw [List.mem_cons, not_or] at hnext
    cases a with
    | none => exact absurd rfl hnext.1
    | some c =>
      obtain ⟨m, hm, hnone⟩ := mergeCompletion_ok aggregate c h
      obtain ⟨l', hl', hnone'⟩ := ih hnone hnext.2
      exact ⟨l', bind_ok_iff.mpr ⟨m, hm, hl'⟩, hnone'⟩

/-- A full output is put where a full one waits. -/
theorem collector_put_ok {collector : RequestOutputCollector} {o : RequestOutput}
    (hpending : ∀ old, collector.output = some old → Full old) (ho : Full o) :
    ∃ collector', collector.put o = .ok collector' ∧
      ∀ new, collector'.output = some new → Full new := by
  unfold RequestOutputCollector.put
  cases hold : collector.output with
  | none =>
    refine ⟨_, rfl, fun new hnew => ?_⟩
    obtain rfl := Option.some.inj hnew
    exact ho
  | some old =>
    cases houtputs : old.outputs with
    | completions l =>
      cases hnext : o.outputs with
      | completions next =>
        obtain ⟨l', hl', hnone⟩ := foldlM_mergeCompletion_ok collector.aggregate
          (hpending old hold l houtputs) (ho next hnext)
        simp only [RequestOutput.add, houtputs, hnext, hl']
        refine ⟨_, rfl, fun new hnew => ?_⟩
        obtain rfl := Option.some.inj hnew
        intro k hk
        cases hk
        exact hnone
      | pooling data =>
        simp only [houtputs]
        refine ⟨_, rfl, fun new hnew => ?_⟩
        rw [hold] at hnew
        obtain rfl := Option.some.inj hnew
        exact hpending old hold
    | pooling data =>
      cases hnext : o.outputs with
      | completions next =>
        simp only [houtputs]
        refine ⟨_, rfl, fun new hnew => ?_⟩
        rw [hold] at hnew
        obtain rfl := Option.some.inj hnew
        exact hpending old hold
      | pooling data' =>
        simp only [houtputs]
        refine ⟨_, rfl, fun new hnew => ?_⟩
        obtain rfl := Option.some.inj hnew
        exact ho

namespace PendingFull

variable {s s' : OutputProcessor X}

theorem congr (h : PendingFull s) (hcollectors : s'.collectors = s.collectors) :
    PendingFull s' := by
  unfold PendingFull
  rw [hcollectors]
  exact h

/-- A full output is put. -/
theorem put_ok (h : PendingFull s) {q : ReqId} {o : RequestOutput} (ho : Full o) :
    ∃ s', s.put q o = .ok s' ∧ PendingFull s' := by
  obtain ⟨collector, hcollector, hfull⟩ := collector_put_ok (h q) ho
  refine ⟨_, bind_ok_iff.mpr ⟨collector, hcollector, rfl⟩, fun q' o' ho' => ?_⟩
  simp only [Function.update_apply] at ho'
  split at ho'
  · exact hfull o' ho'
  · exact h q' o' ho'

/-- An output, if there is one, is delivered. -/
theorem deliver_ok (h : PendingFull s) (st : RequestState X) {output : Option RequestOutput}
    (ho : ∀ o ∈ output, Full o) : ∃ r, s.deliver st output = .ok r ∧ PendingFull r.1 := by
  cases output with
  | none => exact ⟨_, rfl, h⟩
  | some o =>
    simp only [deliver]
    have hfull : Full { o with finished := o.finished && !st.streamingInput } :=
      fun l hl => ho o rfl l hl
    split
    · obtain ⟨s', hs', h'⟩ := h.put_ok hfull
      exact ⟨_, bind_ok_iff.mpr ⟨s', hs', rfl⟩, h'⟩
    · exact ⟨_, rfl, h⟩

end PendingFull

/-! ## Making outputs -/

/-- An output can be sent for a request: it is not yet sent, or it is detokenized, or pooled
without a stream interval. -/
def Sends (cfg : ProcessorConfig X) (st : RequestState X) (pooling : Option Nat)
    (finishReason : Option FinishReason) : Prop :=
  st.detokenizer.isSome = true ∨ pooling.isSome = true ∧
    (cfg.streamInterval ≤ 1 ∨ finishReason = none ∧ st.outputKind = .finalOnly)

instance (cfg : ProcessorConfig X) (st : RequestState X) (pooling : Option Nat)
    (finishReason : Option FinishReason) : Decidable (Sends cfg st pooling finishReason) :=
  inferInstanceAs (Decidable (_ ∨ _))

namespace RequestState

variable (cfg : ProcessorConfig X) (st : RequestState X)

private theorem streamed_ok (h : st.detokenizer.isSome = true ∨ cfg.streamInterval ≤ 1)
    (tokens : List TokenId) (finished : Bool) : ∃ r, st.streamed cfg tokens finished = .ok r := by
  unfold streamed
  by_cases hinterval : cfg.streamInterval ≤ 1
  · exact ⟨_, if_pos hinterval⟩
  · rw [if_neg hinterval]
    obtain ⟨x, hx⟩ := Option.isSome_iff_exists.mp (h.resolve_right hinterval)
    simp only [hx]
    split
    · split
      · exact ⟨_, rfl⟩
      · exact ⟨_, rfl⟩
    · exact ⟨_, rfl⟩

private theorem newCompletionOutput_ok (h : st.detokenizer.isSome = true) (tokens : List TokenId)
    (finishReason : Option FinishReason) (stopReason : Option OutputStopReason) :
    ∃ r, st.newCompletionOutput cfg tokens finishReason stopReason = .ok r := by
  obtain ⟨x, hx⟩ := Option.isSome_iff_exists.mp h
  simp only [newCompletionOutput, hx]
  exact ⟨_, rfl⟩

/-- A parent takes the completion of a child that has a place with it. -/
theorem completionOutputs_ok (parents : ReqId → ParentRequest) (c : CompletionOutput)
    (finished : Bool) (h : ∀ p, st.parentReq = some p →
      (parents p).samplingParams.outputKind = .finalOnly →
        c.index < (parents p).outputAggregator.length) :
    ∃ r, st.completionOutputs parents c finished = .ok r := by
  unfold completionOutputs
  cases hp : st.parentReq with
  | none => exact ⟨_, rfl⟩
  | some p =>
    have hget : ∃ r, (parents p).getOutputs st.requestId c = .ok r := by
      unfold ParentRequest.getOutputs
      by_cases hkind : (parents p).samplingParams.outputKind = .finalOnly
      · simp only [if_pos hkind]
        refine ⟨_, bind_ok_iff.mpr ⟨(), ensure_eq_ok.mpr (h p hp hkind), rfl⟩⟩
      · simp only [if_neg hkind]
        exact ⟨_, rfl⟩
    obtain ⟨r, hr⟩ := hget
    exact ⟨_, bind_ok_iff.mpr ⟨r, hr, rfl⟩⟩

/-- `make_request_output` returns. -/
theorem makeRequestOutput_ok (parents : ReqId → ParentRequest) (tokens : List TokenId)
    {pooling : Option Nat} {finishReason : Option FinishReason}
    (stopReason : Option OutputStopReason) (hsends : Sends cfg st pooling finishReason)
    (hindex : ∀ p, st.parentReq = some p →
      (parents p).samplingParams.outputKind = .finalOnly →
        st.requestIndex < (parents p).outputAggregator.length) :
    ∃ m, st.makeRequestOutput cfg parents tokens pooling finishReason stopReason = .ok m := by
  unfold makeRequestOutput
  by_cases hsilent : finishReason.isSome = false ∧ st.outputKind = .finalOnly
  · exact ⟨_, if_pos hsilent⟩
  · simp only [if_neg hsilent]
    have hstream : st.detokenizer.isSome = true ∨ cfg.streamInterval ≤ 1 := by
      refine hsends.imp_right fun ⟨_, hor⟩ => hor.resolve_right fun ⟨hnone, hkind⟩ => ?_
      exact hsilent ⟨by rw [hnone]; rfl, hkind⟩
    obtain ⟨sent, hsent⟩ := streamed_ok cfg st hstream tokens finishReason.isSome
    have hsame := sameStream_of_streamed hsent
    rw [hsent]
    obtain ⟨newTokens, st'⟩ := sent
    cases newTokens with
    | none => exact ⟨_, rfl⟩
    | some newTokens =>
      cases pooling with
      | some data => exact ⟨_, rfl⟩
      | none =>
        have hdetokenizer : st.detokenizer.isSome = true :=
          hsends.resolve_right fun h => (by cases h.1)
        obtain ⟨completion, hcompletion⟩ := newCompletionOutput_ok cfg st'
          (hsame.detokenizer.trans hdetokenizer) newTokens finishReason stopReason
        obtain ⟨hsame', hindex', -⟩ := sameStream_of_newCompletionOutput hcompletion
        obtain ⟨made, hmade⟩ := completionOutputs_ok completion.2 parents
          completion.1 finishReason.isSome fun p hp hkind => by
            rw [hindex', hsame.requestIndex]
            rw [hsame'.parentReq, hsame.parentReq] at hp
            exact hindex p hp hkind
        exact ⟨_, bind_ok_iff.mpr ⟨_, rfl, bind_ok_iff.mpr ⟨completion, hcompletion,
          bind_ok_iff.mpr ⟨made, hmade, rfl⟩⟩⟩⟩

/-- The stop checks return for an output of the kind of the request. -/
theorem detokenize_ok {output : EngineCoreOutput}
    (h : st.detokenizer.isSome = true ∨ output.poolingOutput.isSome = true) :
    ∃ c, st.detokenize cfg output = .ok c ∧
      (st.detokenizer.isSome = false → c.finishReason = output.finishReason) := by
  unfold detokenize
  cases hpool : output.poolingOutput with
  | some data => exact ⟨_, rfl, fun _ => rfl⟩
  | none =>
    rw [hpool] at h
    obtain ⟨x, hx⟩ := Option.isSome_iff_exists.mp (h.resolve_right fun h => (by cases h))
    simp only [hx]
    split
    · exact ⟨_, rfl, fun h => (by cases h)⟩
    · exact ⟨_, rfl, fun h => (by cases h)⟩

end RequestState

/-! ## What children hand over -/

/-- A child that is the last one outstanding, of a request for the final output, is the last one
that is added. -/
def AllAdded (fanOuts : ReqId → Option FanOut) (s : OutputProcessor X) (id : ReqId)
    (st : RequestState X) : Prop :=
  ∀ p f, st.parentReq = some p → fanOuts p = some f →
    (s.parents p).samplingParams.outputKind = .finalOnly →
    (∀ c ∈ (s.parents p).childRequests, c = id) → f.next = f.n

/-- The completions that a parent hands over are all there. -/
theorem none_not_mem_of_handover {f : FanOut} {p id : ReqId} {parent parent' : ParentRequest}
    {st : RequestState X} {c : CompletionOutput} {outputs : List (Option CompletionOutput)}
    {finished : Bool} (h : IsParent f p parent) (hchild : IsChild f parent p id st)
    (hindex : c.index = st.requestIndex) (hover : Handover parent id c outputs finished parent')
    (hall : parent.samplingParams.outputKind = .finalOnly → parent'.childRequests = [] →
      f.next = f.n) : none ∉ outputs := by
  intro hmem
  by_cases hkind : parent.samplingParams.outputKind = .finalOnly
  · obtain ⟨-, -, houtputs⟩ := hover.final hkind
    have hlast := hover.last
    rw [houtputs] at hmem
    split at hmem
    · rename_i hfinished
      rw [hfinished, eq_comm, decide_eq_true_eq] at hlast
      have hparams : parent'.samplingParams = parent.samplingParams := by rw [hover.eq]
      obtain ⟨hlength, hfilled⟩ := (h.handover hchild hindex hover).aggregator
        (by rw [hparams]; exact hkind)
      obtain ⟨i, hi, hnone⟩ := List.mem_iff_getElem.mp hmem
      have hn := h.n_eq
      rw [hparams] at hlength
      obtain ⟨c', hc', -⟩ := hfilled i (by rw [hall hkind hlast]; omega)
        (by rw [hlast]; exact List.not_mem_nil)
      rw [List.getElem?_eq_getElem hi, hnone] at hc'
      cases hc'
    · exact absurd hmem List.not_mem_nil
  · have houtputs := (hover.stream hkind).2
    rw [houtputs] at hmem
    split at hmem
    · exact absurd hmem List.not_mem_nil
    · simp at hmem

namespace Wired

variable {cfg : ProcessorConfig X} {fanOuts : ReqId → Option FanOut} {s s' : OutputProcessor X}
  {id : ReqId} {st : RequestState X}

/-- The completion of a child has a place with its parent. -/
theorem index_lt {p : ReqId} (h : Wired fanOuts s) (hst : s.requestStates.get? id = some st)
    (hp : st.parentReq = some p)
    (hkind : (s.parents p).samplingParams.outputKind = .finalOnly) :
    st.requestIndex < (s.parents p).outputAggregator.length := by
  obtain ⟨f, hf, hchild⟩ := h.child id st p hst hp
  have hparent := h.parent p f hf
  have hlt := hchild.index_lt
  have hle := hparent.next_le
  have hlength := (hparent.aggregator hkind).1
  omega

/-- A request makes full outputs. -/
theorem full_of_made {st' : RequestState X} {tokens : List TokenId} {pooling : Option Nat}
    {finishReason : Option FinishReason} {stopReason : Option OutputStopReason}
    {m : MadeOutput X} (h : Wired fanOuts s) (hst : s.requestStates.get? id = some st)
    (hsame : SameStream st st') (hall : finishReason ≠ none → AllAdded fanOuts s id st)
    (hpool : st.parentReq ≠ none → pooling = none)
    (hm : st'.makeRequestOutput cfg s.parents tokens pooling finishReason stopReason = .ok m) :
    ∀ o ∈ m.output, Full o := by
  intro o ho
  cases hp : st.parentReq with
  | none =>
    have hmade := RequestState.made_of_makeRequestOutput hm
    exact hmade.full (hsame.parentReq.trans hp) o ho
  | some p =>
    rw [hpool (by rw [hp]; simp)] at hm
    have hmade := RequestState.madeByChild_of_makeRequestOutput (hsame.parentReq.trans hp) hm
    obtain ⟨f, hf, hchild⟩ := h.child id st p hst hp
    generalize m.output = output at hmade ho
    generalize m.parents = parents at hmade
    cases hmade with
    | silent hreason => cases ho
    | handed c outputs finished parent o' hindex hreason hget hrequest houtputs hfinished =>
      rw [hsame.requestId, h.keyed id st hst] at hget
      have hover := handover_of_getOutputs hget
      have hnone : none ∉ outputs := by
        refine none_not_mem_of_handover (h.parent p f hf) hchild
          (hindex.trans hsame.requestIndex) hover fun hkind hnil => ?_
        have hchildren := hover.children
        rw [hnil] at hchildren
        by_cases hend : c.finished = true
        · refine hall ?_ p f hp hf hkind fun k hk => ?_
          · rw [← hreason]
            exact Option.isSome_iff_ne_none.mp hend
          · rw [if_pos hend] at hchildren
            by_contra hne
            have hmem : k ∈ (s.parents p).childRequests.filter (· ≠ id) :=
              List.mem_filter.mpr ⟨hk, by simpa using hne⟩
            rw [← hchildren] at hmem
            exact absurd hmem List.not_mem_nil
        · rw [if_neg hend] at hchildren
          have hmem := hchild.outstanding
          rw [← hchildren] at hmem
          exact absurd hmem List.not_mem_nil
      split at ho
      · cases ho
      · obtain rfl := Option.some.inj ho
        intro l hl
        rw [houtputs] at hl
        cases hl
        exact hnone

end Wired

/-! ## Freeing requests -/

/-- What is there is listed. -/
theorem Owed.mem_of_live {s : OutputProcessor X} {id : ReqId} {st : RequestState X}
    {owed : List ReqId} (h : Owed s owed) (hst : s.requestStates.get? id = some st)
    (hnot : id ∉ owed) : id ∈ GroupIndex.members s.externalReqIds st.externalReqId := by
  rw [h.mem_iff, if_neg hnot, hst]
  rfl

/-- The final output of a request that is aborted can be made. -/
def Announces (cfg : ProcessorConfig X) (st : RequestState X) : Prop :=
  st.queue = none ∨ st.detokenizer.isSome = true ∨ cfg.streamInterval ≤ 1

instance (cfg : ProcessorConfig X) (st : RequestState X) : Decidable (Announces cfg st) :=
  inferInstanceAs (Decidable (_ ∨ _))

namespace OutputProcessor

variable {cfg : ProcessorConfig X} {fanOuts : ReqId → Option FanOut} {s : OutputProcessor X}
  {id : ReqId} {st : RequestState X}

/-- A request that is there and listed is freed. -/
theorem finishRequest_ok (st : RequestState X)
    (hst : (s.requestStates.get? st.requestId).isSome = true)
    (hlisted : st.requestId ∈ GroupIndex.members s.externalReqIds st.externalReqId) :
    ∃ s', s.finishRequest st = .ok s' := by
  unfold finishRequest unlist
  exact ⟨_, bind_ok_iff.mpr ⟨(), ensure_eq_ok.mpr hst, bind_ok_iff.mpr ⟨_, bind_ok_iff.mpr
    ⟨(), ensure_eq_ok.mpr hlisted, rfl⟩, rfl⟩⟩⟩

/-- An output is processed. -/
theorem processOutput_ok {output : EngineCoreOutput} (hw : Wired fanOuts s) (hlisted : Owed s [])
    (hfull : PendingFull s) (hkind : OfKind output)
    (hsends : ∀ st, s.requestStates.get? output.requestId = some st →
      Sends cfg st output.poolingOutput output.finishReason)
    (hall : ∀ st, s.requestStates.get? output.requestId = some st →
      AllAdded fanOuts s output.requestId st) :
    ∃ r, s.processOutput cfg output = .ok r ∧ PendingFull r.1 := by
  unfold processOutput
  cases hst : s.requestStates.get? output.requestId with
  | none => exact ⟨_, rfl, hfull⟩
  | some st =>
    have hkey := hw.keyed _ st hst
    have hsend := hsends st hst
    have hcached : SameStream st { st with numCachedTokens := output.numCachedTokens } :=
      ⟨⟨rfl, rfl, rfl, rfl, rfl, rfl, rfl⟩, rfl⟩
    obtain ⟨checked, hchecked, hreason⟩ := RequestState.detokenize_ok cfg
      { st with numCachedTokens := output.numCachedTokens }
      (hsend.imp_right (·.1))
    have hsame := hcached.trans (RequestState.sameStream_of_detokenize hchecked)
    have hsend' : Sends cfg checked.state output.poolingOutput checked.finishReason := by
      cases hx : st.detokenizer.isSome with
      | true => exact Or.inl (hsame.detokenizer.trans hx)
      | false =>
        unfold Sends at hsend ⊢
        rw [hreason hx, hsame.outputKind]
        refine Or.inr (hsend.resolve_left ?_)
        rw [hx]
        exact Bool.false_ne_true
    obtain ⟨m, hm⟩ := RequestState.makeRequestOutput_ok cfg checked.state s.parents
      output.newTokenIds checked.stopReason hsend'
      fun p hp hfinal => by
        rw [hsame.requestIndex]
        exact hw.index_lt hst (hsame.parentReq.symm.trans hp) hfinal
    have hout := hw.full_of_made hst hsame (fun _ => hall st hst)
      (fun hp => (hw.kind_of_child hst hkind hp).1) hm
    have hstate := hsame.trans (RequestState.made_of_makeRequestOutput hm).state
    have hcongr : PendingFull { s with
        requestStates := s.requestStates.insert output.requestId m.state
        parents := m.parents } := hfull.congr rfl
    obtain ⟨delivered, hdelivered, hfull'⟩ := hcongr.deliver_ok m.state hout
    obtain ⟨hframe, -⟩ := deliver_eq_ok hdelivered
    simp only [hchecked, hm, hdelivered, bind, Except.bind]
    split
    · exact ⟨_, rfl, hfull'⟩
    · split
      · exact ⟨_, rfl, hfull'.congr rfl⟩
      · have hid : m.state.requestId = output.requestId := hstate.requestId.trans hkey
        obtain ⟨s', hs'⟩ := finishRequest_ok (s := delivered.1) m.state
          (by rw [hframe, hid, Dict.get?_insert, if_pos rfl]; rfl)
          (by
            rw [hframe, hid, hstate.externalReqId]
            exact hlisted.mem_of_live hst List.not_mem_nil)
        obtain ⟨-, -, hcollectors⟩ := freed_of_finishRequest hs'
        rw [hs']
        exact ⟨_, rfl, hfull'.congr hcollectors⟩

/-- The final output of a request is put. -/
theorem abortState_ok (cfg : ProcessorConfig X) (hw : Wired fanOuts s) (hfull : PendingFull s)
    (hst : s.requestStates.get? id = some st) (hannounces : Announces cfg st)
    (hall : st.queue ≠ none → AllAdded fanOuts s id st) :
    ∃ s', abortState cfg { s with requestStates := s.requestStates.erase id } st = .ok s' ∧
      PendingFull s' := by
  unfold abortState
  cases hq : st.queue with
  | none => exact ⟨_, rfl, hfull.congr rfl⟩
  | some q =>
    have hsome : st.queue ≠ none := by rw [hq]; simp
    have hsends : Sends cfg st (if st.detokenizer.isNone then some 0 else none)
        (some .abort) := by
      cases hx : st.detokenizer with
      | some x => exact Or.inl (by rw [hx]; rfl)
      | none =>
        refine Or.inr ⟨rfl, Or.inl ?_⟩
        refine (hannounces.resolve_left hsome).resolve_left ?_
        rw [hx]
        exact Bool.false_ne_true
    obtain ⟨m, hm⟩ := RequestState.makeRequestOutput_ok cfg st s.parents []
      none hsends fun p hp hfinal => hw.index_lt hst hp hfinal
    have hout := hw.full_of_made hst (.refl st) (fun _ => hall hsome) (fun hp => by
      rw [← Option.not_isSome, hw.detokenizer_isSome hst hp]
      rfl) hm
    simp only [hm, bind, Except.bind]
    cases ho : m.output with
    | none => exact ⟨_, rfl, hfull.congr rfl⟩
    | some o =>
      have hcongr : PendingFull { s with
          requestStates := s.requestStates.erase id, parents := m.parents } := hfull.congr rfl
      exact hcongr.put_ok (hout o ho)

/-- An update of a streaming input is taken. -/
theorem updateStreamingRequestState_ok {request : EngineCoreRequest} {prompt : Option String}
    (hlisted : Owed s []) (hfull : PendingFull s)
    (hst : s.requestStates.get? st.requestId = some st) :
    ∃ s', s.updateStreamingRequestState st request prompt = .ok s' ∧ PendingFull s' := by
  unfold updateStreamingRequestState
  simp only
  split
  · cases hchunks : st.inputChunkQueue with
    | none =>
      obtain ⟨s₁, hs₁⟩ := finishRequest_ok st (by rw [hst]; rfl)
        (hlisted.mem_of_live hst List.not_mem_nil)
      obtain ⟨-, -, hcollectors⟩ := freed_of_finishRequest hs₁
      have hfull' := hfull.congr hcollectors
      simp only [hs₁, bind, Except.bind]
      cases st.queue with
      | none => exact ⟨_, rfl, hfull'⟩
      | some q =>
        refine hfull'.put_ok fun l hl => ?_
        cases hl
        exact List.not_mem_nil
    | some updates =>
      cases updates with
      | nil => exact ⟨_, rfl, hfull.congr rfl⟩
      | cons update updates => exact ⟨_, rfl, hfull.congr rfl⟩
  · cases st.inputChunkQueue with
    | none => exact ⟨_, rfl, hfull.congr rfl⟩
    | some updates => exact ⟨_, rfl, hfull.congr rfl⟩

/-! ## Aborts -/

/-- The first loop of an abort, where no request that is there is named twice. -/
theorem run_unlist_ok {ids owed : List ReqId} (h : Owed s owed)
    (hnot : ∀ id ∈ ids, ∀ st, s.requestStates.get? id = some st → id ∉ owed)
    (hdistinct : ids.Pairwise fun a b => ∀ st, s.requestStates.get? b = some st → b ≠ a) :
    ∃ s', run unlistInternal s ids = .ok s' ∧
      s' = { s with externalReqIds := s'.externalReqIds } := by
  induction ids generalizing s owed with
  | nil => exact ⟨s, rfl, rfl⟩
  | cons id ids ih =>
    obtain ⟨hhead, htail⟩ := List.pairwise_cons.mp hdistinct
    have hfirst : ∃ s₁, s.unlistInternal id = .ok s₁ ∧
        s₁ = { s with externalReqIds := s₁.externalReqIds } := by
      unfold unlistInternal
      cases hst : s.requestStates.get? id with
      | none => exact ⟨s, rfl, rfl⟩
      | some st =>
        have hmem := h.mem_of_live hst (hnot id List.mem_cons_self st hst)
        exact ⟨_, unlist_eq_ok.mpr ⟨hmem, rfl⟩, rfl⟩
    obtain ⟨s₁, hs₁, hframe₁⟩ := hfirst
    obtain ⟨h₁, hstates⟩ := h.unlist hs₁
    obtain ⟨s', hs', hframe⟩ := ih h₁
      (fun id' hid' st hst => by
        rw [hstates] at hst
        rw [List.mem_cons, not_or]
        exact ⟨hhead id' hid' st hst, hnot id' (List.mem_cons_of_mem _ hid') st hst⟩)
      (by rw [hstates]; exact htail)
    refine ⟨s', bind_ok_iff.mpr ⟨s₁, hs₁, hs'⟩, ?_⟩
    rw [hframe, hframe₁]

/-- The second loop of an abort returns when each of its rounds does. -/
theorem abortEach_total {abortChildren : OutputProcessor X → List ReqId →
      Except ProcessorError (OutputProcessor X × List ReqId)}
    {J : OutputProcessor X → List ReqId → Prop}
    (hpop : ∀ s id ids st, J s (id :: ids) → s.requestStates.get? id = some st →
      ∃ s', abortState cfg { s with requestStates := s.requestStates.erase id } st = .ok s' ∧
        J s' ids)
    (hparent : ∀ s id ids, J s (id :: ids) → s.requestStates.get? id = none →
      id ∈ s.parentRequests → ∃ r, s.abortParent abortChildren id = .ok r ∧
        J { r.1 with parentRequests := r.1.parentRequests.filter (· ≠ id) } ids)
    (hskip : ∀ s id ids, J s (id :: ids) → s.requestStates.get? id = none →
      id ∉ s.parentRequests → J s ids)
    {ids : List ReqId} (hs : J s ids) :
    ∃ r, abortEach cfg abortChildren s ids = .ok r ∧ J r.1 [] := by
  induction ids generalizing s with
  | nil => exact ⟨(s, []), rfl, hs⟩
  | cons id ids ih =>
    have hfirst : ∃ first, abortOne cfg s abortChildren id = .ok first ∧ J first.1 ids := by
      unfold abortOne
      cases hst : s.requestStates.get? id with
      | some st =>
        obtain ⟨s', hs', h'⟩ := hpop s id ids st hs hst
        exact ⟨(s', [id]), bind_ok_iff.mpr ⟨s', hs', rfl⟩, h'⟩
      | none =>
        by_cases hmem : id ∈ s.parentRequests
        · simp only [if_pos hmem]
          obtain ⟨r, hr, h'⟩ := hparent s id ids hs hst hmem
          exact ⟨_, bind_ok_iff.mpr ⟨r, hr, rfl⟩, h'⟩
        · simp only [if_neg hmem]
          exact ⟨(s, []), rfl, hskip s id ids hs hst hmem⟩
    obtain ⟨first, hfirst, h₁⟩ := hfirst
    obtain ⟨rest, hrest, h'⟩ := ih h₁
    exact ⟨(rest.1, first.2 ++ rest.2),
      bind_ok_iff.mpr ⟨first, hfirst, bind_ok_iff.mpr ⟨rest, hrest, rfl⟩⟩, h'⟩

end OutputProcessor

end Vllm.Frontend
