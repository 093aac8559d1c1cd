import Vllm.Frontend.ExternalIds

/-!
# Parallel sampling

A request for several completions is finished once, with the output of its last child. A parent
does not know how many children are still to be added: it takes the one that empties its set of
outstanding children for the last.
-/

namespace Vllm.Frontend

open Checked OutputProcessor

variable {X : Type}

/-! ## What a client gets -/

/-- The outputs of a request: those that the client has taken, and the one that waits. -/
def deliveredTo (s : OutputProcessor X) (taken : List RequestOutput) (p : ReqId) :
    List RequestOutput :=
  taken ++ (s.collectors p).output.toList

/-- How many of some outputs say that the request is finished. -/
def finishedCount (outputs : List RequestOutput) : Nat := outputs.countP (·.finished)

/-- A parent has added all of its children and waits for none. -/
def Done (f : FanOut) (parent : ParentRequest) : Prop :=
  f.next = f.n ∧ parent.childRequests = []

instance (f : FanOut) (parent : ParentRequest) : Decidable (Done f parent) :=
  inferInstanceAs (Decidable (_ ∧ _))

/-- Some of the children have been added, but not all. -/
def Incomplete (f : FanOut) : Prop := f.next ≠ 0 ∧ f.next < f.n

instance (f : FanOut) : Decidable (Incomplete f) :=
  inferInstanceAs (Decidable (_ ∧ _))

/-- An output with the completions of all children. -/
def Complete (n : Nat) (o : RequestOutput) : Prop :=
  ∃ outputs, o.outputs = .completions outputs ∧ outputs.length = n ∧
    ∀ i < n, ∃ c, outputs[i]? = some (some c) ∧ c.index = i ∧ c.finished = true

/-- What the client of a request has got so far. -/
structure Delivered (f : FanOut) (p : ReqId) (taken : List RequestOutput)
    (s : OutputProcessor X) : Prop where
  /-- The parent waits for one of its children until it has all of them. -/
  waits : Incomplete f → (s.parents p).childRequests ≠ []
  live : ∀ c ∈ (s.parents p).childRequests, (s.requestStates.get? c).isSome = true
  count : finishedCount (deliveredTo s taken p) = if Done f (s.parents p) then 1 else 0
  request : ∀ o ∈ deliveredTo s taken p, o.requestId = some (s.parents p).externalReqId
  completions : ∀ o, (s.collectors p).output = some o → ∃ outputs, o.outputs = .completions outputs
  final : (s.parents p).samplingParams.outputKind = .finalOnly →
    if Done f (s.parents p) then
      ∃ o, deliveredTo s taken p = [o] ∧ Complete f.n o
    else deliveredTo s taken p = []

private theorem finishedCount_append (l l' : List RequestOutput) :
    finishedCount (l ++ l') = finishedCount l + finishedCount l' := List.countP_append

/-- Merging outputs keeps the request. -/
private theorem requestId_add {o next merged : RequestOutput} {aggregate : Bool}
    (h : o.add next aggregate = .ok merged) : merged.requestId = o.requestId := by
  unfold RequestOutput.add at h
  split at h
  · obtain ⟨outputs, -, h⟩ := bind_ok_iff.mp h
    cases h
    rfl
  · cases h
    rfl

/-- Completions that are put where none says that the request is finished. -/
theorem put_completions {collector collector' : RequestOutputCollector} {o : RequestOutput}
    {outputs : List (Option CompletionOutput)} (houtputs : o.outputs = .completions outputs)
    (hpending : ∀ old, collector.output = some old → old.finished = false ∧
      ∃ outputs, old.outputs = .completions outputs)
    (h : collector.put o = .ok collector') :
    ∃ merged outputs, collector'.output = some merged ∧ merged.outputs = .completions outputs ∧
      merged.finished = o.finished ∧ (merged.requestId = o.requestId ∨
        ∃ old, collector.output = some old ∧ merged.requestId = old.requestId) ∧
      (collector.output = none → merged = o) := by
  unfold RequestOutputCollector.put at h
  split at h
  · cases h
    exact ⟨o, outputs, rfl, houtputs, rfl, Or.inl rfl, fun _ => rfl⟩
  · rename_i old hold
    obtain ⟨hunfinished, oldOutputs, holdOutputs⟩ := hpending old hold
    simp only [houtputs, holdOutputs] at h
    obtain ⟨merged, hmerged, h⟩ := bind_ok_iff.mp h
    cases h
    have hrequest := requestId_add hmerged
    simp only [RequestOutput.add, houtputs, holdOutputs] at hmerged
    obtain ⟨l, -, hmerged⟩ := bind_ok_iff.mp hmerged
    cases hmerged
    refine ⟨_, l, rfl, rfl, ?_, Or.inr ⟨old, hold, hrequest⟩, fun hnone => ?_⟩
    · simp [hunfinished]
    · rw [hold] at hnone
      cases hnone

/-- An output that finishes a child of a request leaves another one outstanding. -/
def SparesOutput (cfg : ProcessorConfig X) (p : ReqId) (s : OutputProcessor X)
    (output : EngineCoreOutput) : Prop :=
  ∀ st ∈ s.requestStates.get? output.requestId, st.parentReq = some p →
    finishReasonOf cfg st output ≠ none → ∃ c ∈ (s.parents p).childRequests, c ≠ output.requestId

instance (cfg : ProcessorConfig X) (p : ReqId) (s : OutputProcessor X)
    (output : EngineCoreOutput) : Decidable (SparesOutput cfg p s output) := by
  unfold SparesOutput
  infer_instance

namespace Delivered

variable {cfg : ProcessorConfig X} {fanOuts : ReqId → Option FanOut} {s s' : OutputProcessor X}
  {f : FanOut} {p : ReqId} {taken : List RequestOutput}

/-- Nothing that belongs to the request has changed. -/
theorem congr (h : Delivered f p taken s) (hparent : s'.parents p = s.parents p)
    (hcollector : s'.collectors p = s.collectors p)
    (hlive : ∀ c ∈ (s.parents p).childRequests, (s.requestStates.get? c).isSome = true →
      (s'.requestStates.get? c).isSome = true) : Delivered f p taken s' where
  waits := by rw [hparent]; exact h.waits
  live c hc := by
    rw [hparent] at hc
    exact hlive c hc (h.live c hc)
  count := by
    unfold deliveredTo
    rw [hparent, hcollector]
    exact h.count
  request := by
    unfold deliveredTo
    rw [hparent, hcollector]
    exact h.request
  completions := by rw [hcollector]; exact h.completions
  final := by
    unfold deliveredTo
    rw [hparent, hcollector]
    exact h.final

/-- The request with an output that is put, behind the outputs so far. -/
theorem put_output {o : RequestOutput} {outputs : List (Option CompletionOutput)}
    {collector : RequestOutputCollector} (h : Delivered f p taken s)
    (hnotDone : ¬ Done f (s.parents p))
    (hrequest : o.requestId = some (s.parents p).externalReqId)
    (houtputs : o.outputs = .completions outputs) (hput : (s.collectors p).put o = .ok collector) :
    ∃ merged, collector.output = some merged ∧
      (∃ outputs, merged.outputs = .completions outputs) ∧
      finishedCount (taken ++ [merged]) = (if o.finished then 1 else 0) ∧
      (∀ o ∈ taken ++ [merged], o.requestId = some (s.parents p).externalReqId) ∧
      (deliveredTo s taken p = [] → taken ++ [merged] = [o]) := by
  have hcount := h.count
  rw [if_neg hnotDone, deliveredTo, finishedCount_append] at hcount
  have hpending : ∀ old, (s.collectors p).output = some old → old.finished = false ∧
      ∃ outputs, old.outputs = .completions outputs := by
    intro old hold
    refine ⟨?_, h.completions old hold⟩
    rw [hold] at hcount
    simpa [finishedCount] using (Nat.add_eq_zero_iff.mp hcount).2
  obtain ⟨merged, l, hmerged, hl, hfinished, hid, hnew⟩ :=
    put_completions houtputs hpending hput
  refine ⟨merged, hmerged, ⟨l, hl⟩, ?_, fun o' ho' => ?_, fun hnil => ?_⟩
  · rw [finishedCount_append, (Nat.add_eq_zero_iff.mp hcount).1, ← hfinished, Nat.zero_add]
    exact List.countP_singleton
  · rcases List.mem_append.mp ho' with ho' | ho'
    · exact h.request o' (List.mem_append_left _ ho')
    · obtain rfl := List.mem_singleton.mp ho'
      rcases hid with hid | ⟨old, hold, hid⟩
      · exact hid.trans hrequest
      · rw [hid]
        refine h.request old (List.mem_append_right _ ?_)
        rw [hold]
        exact List.mem_singleton.mpr rfl
  · obtain ⟨htaken, hnone⟩ := List.append_eq_nil_iff.mp hnil
    rw [htaken, hnew (Option.toList_eq_nil_iff.mp hnone)]
    rfl

/-- The last child finds the completions of all children. -/
theorem complete_of_aggregator {parent : ParentRequest} {o : RequestOutput}
    (h : IsParent f p parent) (hfinal : parent.samplingParams.outputKind = .finalOnly)
    (hdone : Done f parent) (houtputs : o.outputs = .completions parent.outputAggregator) :
    Complete f.n o := by
  obtain ⟨hnext, hnil⟩ := hdone
  obtain ⟨hlength, hfilled⟩ := h.aggregator hfinal
  refine ⟨_, houtputs, hlength.trans h.n_eq.symm, fun i hi => hfilled i (by omega) ?_⟩
  rw [hnil]
  exact List.not_mem_nil

section Handover

variable {id : ReqId} {c : CompletionOutput} {outputs : List (Option CompletionOutput)}
  {finished : Bool} {parent parent' : ParentRequest} {st : RequestState X}

/-- A child that is still waited for did not finish just now. -/
theorem mem_of_handover (h : Handover parent id c outputs finished parent') {k : ReqId}
    (hk : k ∈ parent'.childRequests) :
    k ∈ parent.childRequests ∧ (k ≠ id ∨ c.finishReason = none) := by
  rw [h.children] at hk
  split at hk
  · obtain ⟨hk, hne⟩ := List.mem_filter.mp hk
    exact ⟨hk, Or.inl (by simpa using hne)⟩
  · rename_i hunfinished
    rw [CompletionOutput.finished] at hunfinished
    exact ⟨hk, Or.inr (by simpa using hunfinished)⟩

/-- A child that stays, or another one, is waited for. -/
theorem waits_of_handover (h : Handover parent id c outputs finished parent')
    (hmem : id ∈ parent.childRequests)
    (hspares : c.finishReason ≠ none → ∃ k ∈ parent.childRequests, k ≠ id) :
    parent'.childRequests ≠ [] := by
  rw [h.children]
  split
  · rename_i hfinished
    obtain ⟨k, hk, hne⟩ := hspares (Option.isSome_iff_ne_none.mp hfinished)
    exact List.ne_nil_of_mem (List.mem_filter.mpr ⟨hk, by simpa using hne⟩)
  · exact List.ne_nil_of_mem hmem

/-- The child that empties the set is the last one. -/
theorem done_of_handover (h : Handover parent id c outputs finished parent')
    (hchild : IsChild f parent p id st) (hparent : IsParent f p parent')
    (hwaits : Incomplete f → parent'.childRequests ≠ []) : Done f parent' ↔ finished = true := by
  rw [h.last, decide_eq_true_eq]
  refine ⟨fun hdone => hdone.2, fun hnil => ⟨?_, hnil⟩⟩
  by_contra hne
  have hlt := hchild.index_lt
  have hle := hparent.next_le
  rw [← hparent.n_eq] at hle
  exact hwaits ⟨by omega, by omega⟩ hnil

/-- Nothing is handed over before the last child if only the final output is wanted. -/
theorem final_of_handover_nil (h : Handover parent id c [] finished parent')
    (hmem : id ∈ parent.childRequests) :
    parent.samplingParams.outputKind = .finalOnly ∧ finished = false := by
  have hfinal : parent.samplingParams.outputKind = .finalOnly := by
    by_contra hstream
    have houtputs := (h.stream hstream).2
    rw [if_neg fun hnot => hnot.2 hmem] at houtputs
    cases houtputs
  obtain ⟨hlt, hset, houtputs⟩ := h.final hfinal
  refine ⟨hfinal, ?_⟩
  cases finished with
  | false => rfl
  | true =>
    rw [if_pos rfl, hset] at houtputs
    have hlength := congrArg List.length houtputs
    rw [List.length_set, List.length_nil] at hlength
    omega

end Handover

/-- A child of the request hands over its completion, and stays or leaves. -/
theorem handed_child {id : ReqId} {st : RequestState X} {finishReason : Option FinishReason}
    (h : Delivered f p taken s) (hw : Wired fanOuts s) (hf : fanOuts p = some f)
    (hqueue : f.queue = some p) (hst : s.requestStates.get? id = some st)
    (hp : st.parentReq = some p)
    (hhanded : HandedByChild s st p finishReason s'.parents s'.collectors)
    (hstates : ∀ id', id' ≠ id ∨ finishReason = none →
      (s.requestStates.get? id').isSome = true → (s'.requestStates.get? id').isSome = true)
    (hspares : finishReason ≠ none → Incomplete f →
      ∃ c ∈ (s.parents p).childRequests, c ≠ id) : Delivered f p taken s' := by
  obtain ⟨g, hg, hchild⟩ := hw.child id st p hst hp
  obtain rfl := Option.some.inj (hf.symm.trans hg)
  have hparent := hw.parent p f hf
  have hnotDone : ¬ Done f (s.parents p) := fun hdone => by
    have hmem := hchild.outstanding
    rw [hdone.2] at hmem
    exact absurd hmem List.not_mem_nil
  generalize hparents : s'.parents = parents at hhanded
  generalize hcollectors : s'.collectors = collectors at hhanded
  cases hhanded with
  | silent hreason =>
    exact h.congr (by rw [hparents]) (by rw [hcollectors])
      fun c _ hlive => hstates c (Or.inr hreason) hlive
  | handed c outputs finished parent _ hindex hreason hget hput =>
    rw [hw.keyed id st hst] at hget
    have hover := handover_of_getOutputs hget
    have hparent' := hparent.handover hchild hindex hover
    have hself : s'.parents p = parent := by rw [hparents, Function.update_self]
    have hparams : parent.samplingParams = (s.parents p).samplingParams := by rw [hover.eq]
    have hexternal : parent.externalReqId = (s.parents p).externalReqId := by rw [hover.eq]
    have hwaits : Incomplete f → parent.childRequests ≠ [] := fun hinc =>
      waits_of_handover hover hchild.outstanding fun hne => hspares (hreason ▸ hne) hinc
    have hdone := done_of_handover hover hchild hparent' hwaits
    have hlive : ∀ k ∈ parent.childRequests, (s'.requestStates.get? k).isSome = true := by
      intro k hk
      obtain ⟨hmem, hstays⟩ := mem_of_handover hover hk
      exact hstates k (hreason ▸ hstays) (h.live k hmem)
    rw [hchild.queue, hqueue] at hput
    cases hput with
    | nothing _ hnothing =>
      obtain rfl : outputs = [] := hnothing.resolve_right (by simp)
      obtain ⟨hfinal, hunfinished⟩ := final_of_handover_nil hover hchild.outstanding
      have hnotDone' : ¬ Done f parent := by
        rw [hdone, hunfinished]
        simp
      have hdelivered : deliveredTo s' taken p = deliveredTo s taken p := by
        rw [deliveredTo, hcollectors]
        rfl
      have hcount := h.count
      have hempty := h.final hfinal
      rw [if_neg hnotDone] at hcount hempty
      refine ⟨fun hlt => ?_, fun k hk => ?_, ?_, ?_, ?_, fun _ => ?_⟩
      · rw [hself]
        exact hwaits hlt
      · rw [hself] at hk
        exact hlive k hk
      · rw [hdelivered, hself, if_neg hnotDone', hcount]
      · rw [hdelivered, hself, hexternal]
        exact h.request
      · rw [hcollectors]
        exact h.completions
      · rw [hself, if_neg hnotDone', hdelivered, hempty]
    | put _ o collector hne hrequest houtputs hfinished hput =>
      rw [hexternal] at hrequest
      obtain ⟨merged, hmerged, hcompletions, hcount, hrequests, hnew⟩ :=
        h.put_output hnotDone hrequest houtputs hput
      have hdelivered : deliveredTo s' taken p = taken ++ [merged] := by
        rw [deliveredTo, hcollectors, Function.update_self, hmerged]
        rfl
      refine ⟨fun hlt => ?_, fun k hk => ?_, ?_, ?_, fun old hold => ?_, fun hkind => ?_⟩
      · rw [hself]
        exact hwaits hlt
      · rw [hself] at hk
        exact hlive k hk
      · rw [hdelivered, hself, hcount, hfinished]
        by_cases hlast : finished = true
        · rw [if_pos hlast, if_pos (hdone.mpr hlast)]
        · rw [if_neg hlast, if_neg fun hd => hlast (hdone.mp hd)]
      · rw [hdelivered, hself, hexternal]
        exact hrequests
      · rw [hcollectors, Function.update_self, hmerged] at hold
        obtain rfl := Option.some.inj hold
        exact hcompletions
      · rw [hself, hparams] at hkind
        obtain ⟨-, -, haggregated⟩ := hover.final hkind
        have hlast : finished = true := by
          by_contra hnot
          rw [if_neg hnot] at haggregated
          exact hne haggregated
        have hempty := h.final hkind
        rw [if_neg hnotDone] at hempty
        rw [hself, if_pos (hdone.mpr hlast), hdelivered, hnew hempty]
        rw [if_pos hlast] at haggregated
        exact ⟨o, rfl, complete_of_aggregator hparent' (hparams ▸ hkind) (hdone.mpr hlast)
          (haggregated ▸ houtputs)⟩

/-- A request hands something over, and stays or leaves. -/
theorem handed {id : ReqId} {st : RequestState X} {finishReason : Option FinishReason}
    (h : Delivered f p taken s) (hw : Wired fanOuts s) (hf : fanOuts p = some f)
    (hqueue : f.queue = some p) (hst : s.requestStates.get? id = some st)
    (hhanded : Handed s st finishReason s'.parents s'.collectors)
    (hstates : ∀ id', id' ≠ id ∨ st.parentReq = some p ∧ finishReason = none →
      (s.requestStates.get? id').isSome = true → (s'.requestStates.get? id').isSome = true)
    (hspares : st.parentReq = some p → finishReason ≠ none → Incomplete f →
      ∃ c ∈ (s.parents p).childRequests, c ≠ id) : Delivered f p taken s' := by
  by_cases hp : st.parentReq = some p
  · exact h.handed_child hw hf hqueue hst hp (hhanded.child p hp)
      (fun id' hor hlive => hstates id' (hor.imp_right fun hnone => ⟨hp, hnone⟩) hlive)
      (hspares hp)
  · -- the request is not a child of `p`, and has another collector
    have hother : st.queue ≠ some p := by
      intro hq
      cases hparentReq : st.parentReq with
      | none =>
        obtain ⟨hnone, -, hown⟩ := hw.single id st hst hparentReq
        rw [← hown p hq, hf] at hnone
        cases hnone
      | some q =>
        obtain ⟨g, hg, hchild⟩ := hw.child id st q hst hparentReq
        rw [hchild.queue] at hq
        have hqp := (hw.parent q g hg).queue p hq
        rw [hparentReq, hqp] at hp
        exact hp rfl
    have hcollector : s'.collectors p = s.collectors p := by
      cases hparentReq : st.parentReq with
      | none => exact (hhanded.single hparentReq).2 p hother
      | some q =>
        have hchild := hhanded.child q hparentReq
        generalize s'.parents = parents at hchild
        generalize s'.collectors = collectors at hchild ⊢
        cases hchild with
        | silent hreason => rfl
        | handed c outputs finished parent _ hindex hreason hget hput =>
          generalize st.queue = queue at hput hother
          cases hput with
          | nothing _ hnothing => rfl
          | put q' o collector hne hrequest houtputs hfinished hput =>
            refine Function.update_of_ne ?_ _ _
            rintro rfl
            exact hother rfl
    refine h.congr ((hw.parent_handed hst hhanded).2.1 p hp) hcollector fun c hc hlive => ?_
    refine hstates c (Or.inl ?_) hlive
    rintro rfl
    exact hp (hw.parentReq_of_mem hf hc hst)

/-- An output that is processed. -/
theorem processOutput {output : EngineCoreOutput} {r : OutputProcessor X × ProcessedOutputs}
    (h : Delivered f p taken s) (hw : Wired fanOuts s) (hf : fanOuts p = some f)
    (hqueue : f.queue = some p) (hkind : OfKind output)
    (hspares : Incomplete f → SparesOutput cfg p s output)
    (hr : s.processOutput cfg output = .ok r) : Delivered f p taken r.1 := by
  cases hst : s.requestStates.get? output.requestId with
  | none =>
    simp only [OutputProcessor.processOutput, hst] at hr
    cases hr
    exact h
  | some st =>
    have hkey := hw.keyed _ st hst
    have hprocessed := processed_of_processOutput hst hkey (hw.kind_of_child hst hkind) hr
    refine h.handed hw hf hqueue hst hprocessed.handed (fun id' hor hlive => ?_)
      fun hp hne hlt => hspares hlt st hst hp hne
    by_cases hstays : finishReasonOf cfg st output = none ∨ st.streamingInput = true
    · obtain ⟨st', -, -, hstates, -, -⟩ := hprocessed.stays hstays
      rw [hstates]
      split
      · rfl
      · exact hlive
    · rw [not_or] at hstays
      have hne : id' ≠ output.requestId := by
        refine hor.resolve_right fun hnone => ?_
        exact hstays.1 hnone.2
      have hfreed := hprocessed.leaves hstays.1 (by simpa using hstays.2)
      rw [hfreed.states, hkey, if_neg hne]
      exact hlive

/-- An update of a streaming input, which is for another request. -/
theorem updated {id : ReqId} {st : RequestState X} (h : Delivered f p taken s)
    (hw : Wired fanOuts s) (hf : fanOuts p = some f) (hst : s.requestStates.get? id = some st)
    (hsingle : st.parentReq = none) (hupdated : Updated s st s') : Delivered f p taken s' := by
  have hkey := hw.keyed id st hst
  obtain ⟨hnone, -, hown⟩ := hw.single id st hst hsingle
  cases hupdated with
  | written st' hsame hs' =>
    refine h.congr (by rw [hs']) (by rw [hs']) fun c _ hlive => ?_
    rw [hs', Dict.get?_insert]
    split
    · rfl
    · exact hlive
  | freed hfreed hparents hcollectors =>
    have hother : st.queue ≠ some p := by
      intro hq
      rw [← hown p hq, hf] at hnone
      cases hnone
    refine h.congr (by rw [hparents]) (hcollectors p hother) fun c hc hlive => ?_
    rw [hfreed.states, hkey, if_neg]
    · exact hlive
    · rintro rfl
      have hp := hw.parentReq_of_mem hf hc hst
      rw [hsingle] at hp
      cases hp

/-- A request that is aborted. -/
theorem abortState {id : ReqId} {st : RequestState X} (h : Delivered f p taken s)
    (hw : Wired fanOuts s) (hf : fanOuts p = some f) (hqueue : f.queue = some p)
    (hst : s.requestStates.get? id = some st)
    (hspares : st.parentReq = some p → Incomplete f →
      ∃ c ∈ (s.parents p).childRequests, c ≠ id)
    (hs' : abortState cfg { s with requestStates := s.requestStates.erase id } st = .ok s') :
    Delivered f p taken s' := by
  obtain ⟨hframe, hsilent, hhanded⟩ := abortState_eq_ok (hw.detokenizer_isSome hst) hs'
  have hstates : ∀ id', id' ≠ id → (s.requestStates.get? id').isSome = true →
      (s'.requestStates.get? id').isSome = true := by
    intro id' hne hlive
    rw [hframe, Dict.get?_erase, if_neg hne]
    exact hlive
  by_cases hq : st.queue = none
  · obtain ⟨hparents, hcollectors⟩ := hsilent hq
    have hnot : st.parentReq ≠ some p := by
      intro hp
      obtain ⟨g, hg, hchild⟩ := hw.child id st p hst hp
      obtain rfl := Option.some.inj (hf.symm.trans hg)
      rw [hchild.queue, hqueue] at hq
      cases hq
    refine h.congr (by rw [hparents]) (by rw [hcollectors]) fun c hc hlive => ?_
    refine hstates c ?_ hlive
    rintro rfl
    exact hnot (hw.parentReq_of_mem hf hc hst)
  · refine h.handed hw hf hqueue hst ((hhanded hq).congr rfl rfl) (fun id' hor hlive => ?_)
      fun hp _ hlt => hspares hp hlt
    exact hstates id' (hor.resolve_right fun hnone => (by cases hnone.2)) hlive

end Delivered

/-! ## Runs -/

/-- A request in good order, with a child that it keeps waiting for if `kept` says so. -/
structure Sparing (fanOuts : ReqId → Option FanOut) (f : FanOut) (p : ReqId)
    (taken : List RequestOutput) (kept : Option ReqId) (s : OutputProcessor X) : Prop where
  wired : Wired fanOuts s
  delivered : Delivered f p taken s
  spared : ∀ c, kept = some c → c ∈ (s.parents p).childRequests

/-- An id that may be aborted while a child is kept. -/
def MayAbort (p : ReqId) (kept : Option ReqId) (id : ReqId) : Prop :=
  ∀ c, kept = some c → id ≠ p ∧ id ≠ c

namespace Sparing

variable {cfg : ProcessorConfig X} {fanOuts : ReqId → Option FanOut} {s s' : OutputProcessor X}
  {f : FanOut} {p : ReqId} {taken : List RequestOutput} {kept : Option ReqId}

theorem congr (h : Sparing fanOuts f p taken kept s)
    (hstates : s'.requestStates = s.requestStates) (hparents : s'.parents = s.parents)
    (hcollectors : s'.collectors = s.collectors)
    (hregistered : ∀ q ∈ s'.parentRequests, q ∈ s.parentRequests) :
    Sparing fanOuts f p taken kept s' where
  wired := h.wired.congr hstates hparents hregistered
  delivered := h.delivered.congr (by rw [hparents]) (by rw [hcollectors])
    fun c _ hlive => by rw [hstates]; exact hlive
  spared := by rw [hparents]; exact h.spared

/-- A request that may be aborted is. -/
theorem abortState {id : ReqId} {st : RequestState X} (h : Sparing fanOuts f p taken kept s)
    (hf : fanOuts p = some f) (hqueue : f.queue = some p) (hkept : Incomplete f → kept ≠ none)
    (hid : MayAbort p kept id) (hst : s.requestStates.get? id = some st)
    (hs' : OutputProcessor.abortState cfg { s with
      requestStates := s.requestStates.erase id } st = .ok s') :
    Sparing fanOuts f p taken kept s' := by
  refine ⟨h.wired.abortState hst hs', h.delivered.abortState h.wired hf hqueue hst
    (fun _ hinc => ?_) hs', fun c hc => ?_⟩
  · obtain ⟨c, hc⟩ := Option.ne_none_iff_exists'.mp (hkept hinc)
    exact ⟨c, h.spared c hc, Ne.symm (hid c hc).2⟩
  · exact h.wired.mem_childRequests_abortState hst hs' (h.spared c hc) (Ne.symm (hid c hc).2)

/-- The children of another parent may be aborted. -/
theorem mayAbort_children {q : ReqId} (h : Sparing fanOuts f p taken kept s)
    (hf : fanOuts p = some f) (hq : MayAbort p kept q) (hmem : q ∈ s.parentRequests) :
    ∀ c ∈ (s.parents q).childRequests, MayAbort p kept c := by
  intro c hc k hk
  obtain ⟨g, hg⟩ := Option.isSome_iff_exists.mp (h.wired.registered q hmem)
  obtain ⟨i, -, hi⟩ := (h.wired.parent q g hg).children c hc
  obtain ⟨j, -, hj⟩ := (h.wired.parent p f hf).children k (h.spared k hk)
  refine ⟨fun hcp => ?_, fun hck => ?_⟩
  · exact (h.wired.parent p f hf).base i q (hcp.symm.trans hi)
  · have heq := (hi.symm.trans hck).trans hj
    simp only [ReqId.child.injEq] at heq
    exact (hq k hk).1 heq.2

/-- Aborts keep a request in good order, and its child. -/
theorem abortInternal {ids : List ReqId} {depth : Nat} {r : OutputProcessor X × List ReqId}
    (h : Sparing fanOuts f p taken kept s) (hf : fanOuts p = some f) (hqueue : f.queue = some p)
    (hkept : Incomplete f → kept ≠ none) (hids : ∀ id ∈ ids, MayAbort p kept id)
    (hr : OutputProcessor.abortInternal cfg depth s ids = .ok r) :
    Sparing fanOuts f p taken kept r.1 :=
  abortInternal_rule (fun _ _ hs => hs.congr rfl rfl rfl fun _ hq => hq)
    (fun _ _ _ _ hs hid hst hs' => hs.abortState hf hqueue hkept hid hst hs')
    (fun _ _ hs _ => hs.congr rfl rfl rfl fun _ hq => (List.mem_filter.mp hq).1)
    (fun _ _ hs hq hmem => hs.mayAbort_children hf hq hmem) hids h hr

theorem abortExternal {ids : List ExternalId} {r : OutputProcessor X × List ReqId}
    (h : Sparing fanOuts f p taken kept s) (hf : fanOuts p = some f) (hqueue : f.queue = some p)
    (hkept : Incomplete f → kept ≠ none)
    (hids : ∀ ext ∈ ids, ∀ id ∈ GroupIndex.members s.externalReqIds ext, MayAbort p kept id)
    (hr : OutputProcessor.abortExternal cfg s ids = .ok r) :
    Sparing fanOuts f p taken kept r.1 :=
  abortExternal_rule (fun _ _ hs => hs.congr rfl rfl rfl fun _ hq => hq)
    (fun _ _ _ _ hs hid hst hs' => hs.abortState hf hqueue hkept hid hst hs')
    (fun _ _ hs _ => hs.congr rfl rfl rfl fun _ hq => (List.mem_filter.mp hq).1)
    (fun _ _ hs hq hmem => hs.mayAbort_children hf hq hmem) hids h hr

end Sparing

variable {f : FanOut}

/-- As long as children are still to be added, one of those that are spared is kept. -/
theorem Delivered.exists_sparing {fanOuts : ReqId → Option FanOut} {p : ReqId}
    {taken : List RequestOutput} {s : OutputProcessor X} {spared : ReqId → Prop}
    (h : Delivered f p taken s) (hw : Wired fanOuts s)
    (hspares : Incomplete f → ∃ c ∈ (s.parents p).childRequests, spared c) :
    ∃ kept, Sparing fanOuts f p taken kept s ∧ (Incomplete f → kept ≠ none) ∧
      ∀ c, kept = some c → spared c := by
  by_cases hinc : Incomplete f
  · obtain ⟨c, hc, hspared⟩ := hspares hinc
    refine ⟨some c, ⟨hw, h, fun k hk => ?_⟩, fun _ => Option.some_ne_none c, fun k hk => ?_⟩
    · exact Option.some.inj hk ▸ hc
    · exact Option.some.inj hk ▸ hspared
  · exact ⟨none, ⟨hw, h, fun _ hk => (by cases hk)⟩, fun h => absurd h hinc,
      fun _ hk => (by cases hk)⟩

namespace FrontendRun

variable (cfg : ProcessorConfig X)

/-- A call leaves a child of a request outstanding, as long as children are still to be added. -/
def Spares (p : ReqId) (r : FrontendRun X) (call : FrontendCall) : Prop :=
  ∀ f ∈ r.fanOuts p, Incomplete f → match call with
    | .processOutputs outputs => Along (processNext cfg) (SparesOutput cfg p) r.processor outputs
    | .abortInternal ids => p ∉ ids ∧ ∃ c ∈ (r.processor.parents p).childRequests, c ∉ ids
    | .abortExternal ids => ∃ c ∈ (r.processor.parents p).childRequests,
      ∀ ext ∈ ids, c ∉ GroupIndex.members r.processor.externalReqIds ext
    | _ => True

instance (p : ReqId) (r : FrontendRun X) (call : FrontendCall) : Decidable (Spares cfg p r call) :=
  match call with
  | .processOutputs _ => inferInstanceAs (Decidable (∀ f ∈ r.fanOuts p, _ → Along _ _ _ _))
  | .abortInternal _ => inferInstanceAs (Decidable (∀ f ∈ r.fanOuts p, _ → _ ∧ _))
  | .abortExternal _ => inferInstanceAs (Decidable (∀ f ∈ r.fanOuts p, _ → ∃ c ∈ _, _))
  | .newQueue _ _ | .addRequest _ _ _ | .startFanOut _ _ _ | .addChild _ | .get _ =>
    inferInstanceAs (Decidable (∀ f ∈ r.fanOuts p, _ → True))

/-- A request is finished exactly once, when all of its children are, and with all completions if
the client wants only the final output. -/
structure FinishedOnce (r : FrontendRun X) (p : ReqId) (f : FanOut) : Prop where
  once : finishedCount (deliveredTo r.processor (r.taken p) p) =
    if f.next = f.n ∧ ∀ i < f.n, r.processor.requestStates.get? (.child i p) = none then 1 else 0
  request : ∀ o ∈ deliveredTo r.processor (r.taken p) p,
    o.requestId = some f.request.externalReqId
  complete : (r.processor.parents p).samplingParams.outputKind = .finalOnly →
    ∀ o ∈ deliveredTo r.processor (r.taken p) p, o.finished = true → Complete f.n o

/-- The requests that were fanned out, with what their clients have got. -/
structure Orderly (p : ReqId) (r : FrontendRun X) : Prop where
  wired : Wired r.fanOuts r.processor
  listed : Owed r.processor []
  delivered : ∀ f, r.fanOuts p = some f → f.queue = some p →
    Delivered f p (r.taken p) r.processor

variable {cfg} {r r' : FrontendRun X} {p : ReqId}

/-- Orderly requests are finished once. -/
theorem Orderly.finishedOnce (h : Orderly p r) (hf : r.fanOuts p = some f)
    (hqueue : f.queue = some p) : FinishedOnce r p f := by
  have hd := h.delivered f hf hqueue
  have hparent := h.wired.parent p f hf
  -- the set of outstanding children is that of the children that are there
  have hdone : Done f (r.processor.parents p) ↔
      f.next = f.n ∧ ∀ i < f.n, r.processor.requestStates.get? (.child i p) = none := by
    refine and_congr_right fun hnext => ⟨fun hnil i hi => ?_, fun hnone => ?_⟩
    · cases hst : r.processor.requestStates.get? (.child i p) with
      | none => rfl
      | some st =>
        cases hp : st.parentReq with
        | none => exact absurd rfl ((h.wired.single _ st hst hp).2.1 i p)
        | some q =>
          obtain ⟨g, -, hchild⟩ := h.wired.child _ st q hst hp
          have heq := hchild.id_eq
          simp only [ReqId.child.injEq] at heq
          have hmem := hchild.outstanding
          rw [← heq.2, hnil] at hmem
          exact absurd hmem List.not_mem_nil
    · refine List.eq_nil_iff_forall_not_mem.mpr fun c hc => ?_
      obtain ⟨i, hi, hci⟩ := hparent.children c hc
      have hlive := hd.live c hc
      rw [hci, hnone i (by omega)] at hlive
      cases hlive
  refine ⟨?_, fun o ho => ?_, fun hkind o ho hfinished => ?_⟩
  · rw [hd.count]
    by_cases hcase : Done f (r.processor.parents p)
    · rw [if_pos hcase, if_pos (hdone.mp hcase)]
    · rw [if_neg hcase, if_neg fun h => hcase (hdone.mpr h)]
  · rw [hparent.external]
    exact hd.request o ho
  · have hfinal := hd.final hkind
    split at hfinal
    · obtain ⟨o', ho', hcomplete⟩ := hfinal
      rw [ho'] at ho
      obtain rfl := List.mem_singleton.mp ho
      exact hcomplete
    · rw [hfinal] at ho
      exact absurd ho List.not_mem_nil

/-- What `add_request` leaves alone. -/
theorem delivered_addRequest {s s' : OutputProcessor X} {taken : List RequestOutput}
    {request : EngineCoreRequest} {prompt : Option String} {parentReq : Option ReqId} {index : Nat}
    {queue : Option ReqId} (h : Delivered f p taken s)
    (hnew : s.requestStates.get? request.requestId = none)
    (hs' : s.addRequest cfg request prompt parentReq index queue = .ok s') :
    Delivered f p taken s' := by
  simp only [OutputProcessor.addRequest, hnew] at hs'
  cases hs'
  refine h.congr rfl rfl fun c _ hlive => ?_
  simp only [Dict.get?_insert]
  split
  · rfl
  · exact hlive

/-- A request with one more child. -/
theorem delivered_addChild {s : OutputProcessor X} {taken : List RequestOutput}
    (h : Delivered f p taken s) (hparent : IsParent f p (s.parents p)) (hlt : f.next < f.n)
    {s' : OutputProcessor X} (hnew : s.requestStates.get? (.child f.next p) = none)
    (hs' : f.addChild cfg s p = .ok s') : Delivered { f with next := f.next + 1 } p taken s' := by
  rw [hparent.n_eq] at hlt
  obtain ⟨-, hid, hmem⟩ := isParent_getChildInfo hparent hlt
  unfold FanOut.addChild at hs'
  simp only [OutputProcessor.addRequest, FanOut.childRequest, hid, hnew] at hs'
  cases hs'
  have hnotDone : ¬ Done f (s.parents p) := fun hdone => by
    have hnext := hdone.1
    rw [hparent.n_eq] at hnext
    omega
  have hnotDone' : ¬ Done { f with next := f.next + 1 }
      ((s.parents p).getChildInfo f.next).2 := fun hdone => by
    have hin := (hmem (.child f.next p)).mpr (Or.inr rfl)
    rw [hdone.2] at hin
    exact absurd hin List.not_mem_nil
  have hcount := h.count
  have hfinal := h.final
  rw [if_neg hnotDone] at hcount hfinal
  refine ⟨fun _ hnil => ?_, fun c hc => ?_, ?_, ?_, h.completions, fun hkind => ?_⟩
  · simp only [Function.update_self] at hnil
    have hin := (hmem (.child f.next p)).mpr (Or.inr rfl)
    rw [hnil] at hin
    exact absurd hin List.not_mem_nil
  · simp only [Function.update_self] at hc
    simp only [Dict.get?_insert]
    split
    · rfl
    · rename_i hne
      exact h.live c (((hmem c).mp hc).resolve_right hne)
  · simp only [Function.update_self]
    rw [if_neg hnotDone']
    exact hcount
  · simp only [Function.update_self]
    exact h.request
  · simp only [Function.update_self] at hkind ⊢
    rw [if_neg hnotDone']
    exact hfinal hkind

/-- A new request, for which nothing has been put. -/
theorem delivered_new {s : OutputProcessor X} {params : SamplingParams} {externalReqId : ExternalId}
    (hnext : f.next = 0) (hn : f.n ≠ 0) (hparent : s.parents p = .new p externalReqId params)
    (hcollector : (s.collectors p).output = none) : Delivered f p [] s := by
  have hnil : deliveredTo s [] p = [] := by
    rw [deliveredTo, hcollector]
    rfl
  have hnotDone : ¬ Done f (s.parents p) := fun hdone => hn (hdone.1.symm.trans hnext)
  refine ⟨fun hinc => absurd hnext hinc.1, fun c hc => ?_, ?_, fun o ho => ?_, fun o ho => ?_,
    fun _ => ?_⟩
  · rw [hparent] at hc
    exact absurd hc List.not_mem_nil
  · rw [if_neg hnotDone, hnil]
    rfl
  · rw [hnil] at ho
    exact absurd ho List.not_mem_nil
  · rw [hcollector] at ho
    cases ho
  · rw [if_neg hnotDone, hnil]

/-- A client takes what there is. -/
theorem delivered_get {q : ReqId} (h : Delivered f p (r.taken p) r.processor) :
    Delivered f p ((r.get q).taken p) (r.get q).processor := by
  by_cases hp : p = q
  · subst hp
    have hsame : deliveredTo (r.get p).processor ((r.get p).taken p) p =
        deliveredTo r.processor (r.taken p) p := by
      simp [deliveredTo, get]
    refine ⟨h.waits, h.live, by rw [hsame]; exact h.count, by rw [hsame]; exact h.request,
      fun o ho => ?_, by rw [hsame]; exact h.final⟩
    simp only [get, Function.update_self] at ho
    cases ho
  · simp only [get, Function.update_of_ne hp]
    refine h.congr rfl (Function.update_of_ne hp _ _) fun _ _ hlive => hlive

/-- A request that is fanned out. -/
theorem Orderly.startFanOut {request : EngineCoreRequest} {prompt : Option String}
    {queue : Option ReqId} (h : Orderly p r)
    (hproper : Proper r (.startFanOut request prompt queue))
    (hr : r.apply cfg (.startFanOut request prompt queue) = .ok r') (hf : r'.fanOuts p = some f)
    (hqueue : f.queue = some p) : Delivered f p (r'.taken p) r'.processor := by
  obtain ⟨-, -, hown, -, -, hseveral⟩ := hproper
  simp only [FrontendRun.apply, FrontendRun.startFanOut] at hr
  split at hr
  · cases hr
  · rename_i params hparams
    cases hr
    by_cases hp : p = request.requestId
    · subst hp
      simp only [Function.update_self, Option.some.injEq] at hf
      subst hf
      obtain ⟨-, htaken⟩ := hown _ hqueue
      have hqueue' : queue = some request.requestId := hqueue
      have hn : 1 < params.n := hseveral params hparams
      show Delivered _ _ (r.taken request.requestId) _
      rw [htaken]
      refine delivered_new rfl ?_ (Function.update_self _ _ _) ?_
      · simp only [FanOut.n, hparams]
        omega
      · simp only [hqueue', Function.update_self]
    · simp only [Function.update_of_ne hp] at hf
      refine (h.delivered f hf hqueue).congr (Function.update_of_ne hp _ _) ?_
        fun _ _ hlive => hlive
      cases queue with
      | none => rfl
      | some q =>
        obtain ⟨rfl, -⟩ := hown q rfl
        exact Function.update_of_ne hp _ _

/-- A child that is added. -/
theorem Orderly.addChild {q : ReqId} (h : Orderly p r) (hr : r.apply cfg (.addChild q) = .ok r')
    (hf : r'.fanOuts p = some f) (hqueue : f.queue = some p) :
    Delivered f p (r'.taken p) r'.processor := by
  simp only [FrontendRun.apply, FrontendRun.addChild] at hr
  split at hr
  · cases hr
    exact h.delivered f hf hqueue
  · rename_i g hg
    split at hr
    · rename_i hlt
      obtain ⟨s', hs', hr⟩ := bind_ok_iff.mp hr
      cases hr
      have hparent := h.wired.parent q g hg
      have hnew := h.wired.child_new hg
      by_cases hp : p = q
      · subst hp
        simp only [Function.update_self, Option.some.injEq] at hf
        subst hf
        rw [← hparent.n_eq] at hlt
        exact delivered_addChild (h.delivered g hg hqueue) hparent hlt hnew hs'
      · simp only [Function.update_of_ne hp] at hf
        have hinfo := (isParent_getChildInfo hparent hlt).2.1
        refine delivered_addRequest (s := { r.processor with
          parents := Function.update r.processor.parents q
            ((r.processor.parents q).getChildInfo g.next).2 })
          ((h.delivered f hf hqueue).congr
            (Function.update_of_ne hp _ _) rfl fun _ _ hlive => hlive) ?_ hs'
        simp only [FanOut.childRequest, hinfo, hnew]
    · cases hr
      exact h.delivered f hf hqueue

/-- Every call keeps requests orderly. -/
theorem Orderly.apply {call : FrontendCall} (h : Orderly p r) (hproper : Proper r call)
    (hspares : Spares cfg p r call) (hr : r.apply cfg call = .ok r') : Orderly p r' := by
  refine ⟨wired_apply h.wired hproper hr, owed_apply h.listed h.wired hproper hr,
    fun f hf hqueue => ?_⟩
  cases call with
  | newQueue queue outputKind =>
    cases hr
    have hne : p ≠ queue := by
      rintro rfl
      have hnone : r.fanOuts p = none := hproper
      rw [show r.fanOuts p = some f from hf] at hnone
      cases hnone
    exact (h.delivered f hf hqueue).congr rfl (Function.update_of_ne hne _ _)
      fun _ _ hlive => hlive
  | addRequest request prompt queue =>
    obtain ⟨s', hs', hr⟩ := bind_ok_iff.mp hr
    cases hr
    have hd := h.delivered f hf hqueue
    cases hst : r.processor.requestStates.get? request.requestId with
    | none => exact delivered_addRequest hd hst hs'
    | some st =>
      simp only [OutputProcessor.addRequest, hst] at hs'
      exact hd.updated h.wired hf hst (h.wired.parentReq_eq_none hst hproper.2.1)
        (updated_of_updateStreamingRequestState hs')
  | startFanOut request prompt queue => exact h.startFanOut hproper hr hf hqueue
  | addChild q => exact h.addChild hr hf hqueue
  | processOutputs outputs =>
    obtain ⟨processed, hprocessed, hr⟩ := bind_ok_iff.mp hr
    cases hr
    have hspared : Along (processNext cfg)
        (fun s output => Incomplete f → SparesOutput cfg p s output) r.processor outputs := by
      by_cases hinc : Incomplete f
      · exact Along.imp (fun _ _ h _ => h) (hspares f hf hinc)
      · exact along_of_forall (fun _ _ h => absurd h hinc) _ _
    refine (run_invariant (I := fun s => Wired r.fanOuts s ∧ Delivered f p (r.taken p) s)
      (fun s output s' hs houtput hs' => ?_) ⟨h.wired, h.delivered f hf hqueue⟩
      ((along_of_mem hproper _).and hspared) (run_processNext hprocessed)).2
    obtain ⟨next, hnext, hs'⟩ := bind_ok_iff.mp hs'
    cases hs'
    exact ⟨hs.1.processOutput houtput.1 hnext,
      hs.2.processOutput hs.1 hf hqueue houtput.1 houtput.2 hnext⟩
  | abortInternal ids =>
    obtain ⟨aborted, haborted, hr⟩ := bind_ok_iff.mp hr
    cases hr
    have hspared : Incomplete f →
        ∃ c ∈ (r.processor.parents p).childRequests, p ∉ ids ∧ c ∉ ids := fun hinc => by
      obtain ⟨hp, c, hc, hnot⟩ := hspares f hf hinc
      exact ⟨c, hc, hp, hnot⟩
    obtain ⟨kept, hsparing, hinc, hkept⟩ :=
      (h.delivered f hf hqueue).exists_sparing h.wired hspared
    exact (hsparing.abortInternal hf hqueue hinc (fun id hid c hc =>
      ⟨fun heq => (hkept c hc).1 (heq ▸ hid), fun heq => (hkept c hc).2 (heq ▸ hid)⟩)
      haborted).delivered
  | abortExternal ids =>
    obtain ⟨aborted, haborted, hr⟩ := bind_ok_iff.mp hr
    cases hr
    obtain ⟨kept, hsparing, hinc, hkept⟩ :=
      (h.delivered f hf hqueue).exists_sparing h.wired (hspares f hf)
    refine (hsparing.abortExternal hf hqueue hinc (fun ext hext id hid c hc =>
      ⟨fun heq => ?_, fun heq => hkept c hc ext hext (heq ▸ hid)⟩) haborted).delivered
    obtain ⟨st, hst, -⟩ := h.listed.live_of_mem hid
    exact h.wired.parent_not_live hf (heq ▸ hst)
  | get queue =>
    cases hr
    exact delivered_get (h.delivered f hf hqueue)

/-- Before the first request. -/
private theorem orderly_init : Orderly p (init (X := X)) where
  wired := wired_init
  listed := owed_init
  delivered _ hf := by cases hf

/-- A request for several completions is finished once, with all of them, if each call that comes
while children are still to be added leaves one of those that have been added outstanding. -/
theorem finished_once {calls : List FrontendCall} {f : FanOut}
    (hproper : Along (apply cfg) Proper init calls)
    (hspares : Along (apply cfg) (Spares cfg p) init calls)
    (hrun : run (apply cfg) init calls = .ok r) (hf : r.fanOuts p = some f)
    (hqueue : f.queue = some p) : FinishedOnce r p f :=
  (run_invariant (I := Orderly p) (fun _ _ _ h hcall hr => h.apply hcall.1 hcall.2 hr)
    orderly_init (hproper.and hspares) hrun).finishedOnce hf hqueue

end FrontendRun

/-! ## Children that end early and late -/

/-- The first child ends before the second one is added. -/
def earlyEnd : List FrontendCall :=
  [startPair (some (.request 1)), .addChild (.request 1), endChild 0 7, .get (.request 1),
    .addChild (.request 1), endChild 1 8]

/-- There the request is finished twice, the first time without the second completion. -/
theorem earlyEnd_finished_twice :
    Along (FrontendRun.apply plainConfig) FrontendRun.Proper FrontendRun.init earlyEnd ∧
      ∃ r f, run (FrontendRun.apply plainConfig) FrontendRun.init earlyEnd = .ok r ∧
        r.fanOuts (.request 1) = some f ∧ f.queue = some (.request 1) ∧
        finishedCount (deliveredTo r.processor (r.taken (.request 1)) (.request 1)) = 2 ∧
        ¬ r.FinishedOnce (.request 1) f := by
  refine ⟨by decide, ?_⟩
  have heval : (do
      let r ← run (FrontendRun.apply plainConfig) FrontendRun.init earlyEnd
      ensure ((r.fanOuts (.request 1)).any fun f : FanOut => f.queue = some (ReqId.request 1))
        .assertionError
      ensure (finishedCount (deliveredTo r.processor (r.taken (.request 1)) (.request 1)) = 2)
        .assertionError
      pure ()) = .ok () := by decide
  simp only [bind_ok_iff, ensure_eq_ok, Option.any_eq_true, decide_eq_true_eq] at heval
  obtain ⟨r, hrun, -, ⟨f, hf, hqueue⟩, -, htwice, -⟩ := heval
  refine ⟨r, f, hrun, hf, hqueue, htwice, fun honce => ?_⟩
  have hcount := honce.once
  rw [htwice] at hcount
  split at hcount
  · cases hcount
  · cases hcount

/-- The first of three children ends before the third one is added, but leaves the second one; that
one ends behind the fan-out, and the request is aborted. -/
def lateEnd : List FrontendCall :=
  [.startFanOut ⟨.request 1, 1, [5], some ⟨3, .finalOnly⟩, .finalOnly, false⟩ none
      (some (.request 1)),
    .addChild (.request 1), .addChild (.request 1), endChild 0 7, .get (.request 1),
    .addChild (.request 1), endChild 1 8, .abortInternal [.request 1]]

/-- There the request is finished once. -/
theorem lateEnd_finished_once :
    ∃ r f, run (FrontendRun.apply plainConfig) FrontendRun.init lateEnd = .ok r ∧
      r.FinishedOnce (.request 1) f := by
  have heval : (do
      let r ← run (FrontendRun.apply plainConfig) FrontendRun.init lateEnd
      ensure (Along (FrontendRun.apply plainConfig) FrontendRun.Proper FrontendRun.init lateEnd)
        .assertionError
      ensure (Along (FrontendRun.apply plainConfig) (FrontendRun.Spares plainConfig (.request 1))
        FrontendRun.init lateEnd) .assertionError
      ensure ((r.fanOuts (.request 1)).any fun f : FanOut => f.queue = some (ReqId.request 1))
        .assertionError
      pure ()) = .ok () := by decide
  simp only [bind_ok_iff, ensure_eq_ok, Option.any_eq_true, decide_eq_true_eq] at heval
  obtain ⟨r, hrun, -, hproper, -, hspares, -, ⟨f, hf, hqueue⟩, -⟩ := heval
  exact ⟨r, f, hrun, FrontendRun.finished_once hproper hspares hrun hf hqueue⟩

end Vllm.Frontend
