import Vllm.Frontend.RequestRun
import Vllm.Frontend.ProcessorSteps

/-!
# Children and their parents

Every child that is there belongs to the parent that was fanned out, which waits for it, and a
parent has the completion of each child that it does not wait for any more.
-/

namespace Vllm.Frontend

open Checked OutputProcessor

variable {X : Type}

/-- A state is that of a child of a parent. -/
structure IsChild (f : FanOut) (parent : ParentRequest) (p id : ReqId) (st : RequestState X) :
    Prop where
  id_eq : id = .child st.requestIndex p
  index_lt : st.requestIndex < f.next
  queue : st.queue = f.queue
  outputKind : st.outputKind = parent.samplingParams.outputKind
  streaming : st.streamingInput = false
  detokenizer : st.detokenizer.isSome = true
  external : st.externalReqId = parent.externalReqId
  outstanding : id ∈ parent.childRequests

/-- The parent of a fan-out. -/
structure IsParent (f : FanOut) (p : ReqId) (parent : ParentRequest) : Prop where
  params : f.request.samplingParams = some parent.samplingParams
  requestId : parent.requestId = p
  external : f.request.externalReqId = parent.externalReqId
  resumable : f.request.resumable = false
  base : ∀ i q, p ≠ .child i q
  queue : ∀ q, f.queue = some q → q = p
  next_le : f.next ≤ parent.samplingParams.n
  children : ∀ c ∈ parent.childRequests, ∃ i < f.next, c = .child i p
  nodup : parent.childRequests.Nodup
  aggregator : parent.samplingParams.outputKind = .finalOnly →
    parent.outputAggregator.length = parent.samplingParams.n ∧
    ∀ i < f.next, .child i p ∉ parent.childRequests →
      ∃ c, parent.outputAggregator[i]? = some (some c) ∧ c.index = i ∧ c.finished = true

theorem IsParent.n_eq {f : FanOut} {p : ReqId} {parent : ParentRequest} (h : IsParent f p parent) :
    f.n = parent.samplingParams.n := by
  rw [FanOut.n, h.params]

/-- The states, the parents and the fan-outs belong together. -/
structure Wired (fanOuts : ReqId → Option FanOut) (s : OutputProcessor X) : Prop where
  keyed : ∀ id st, s.requestStates.get? id = some st → st.requestId = id
  single : ∀ id st, s.requestStates.get? id = some st → st.parentReq = none →
    fanOuts id = none ∧ (∀ i p, id ≠ .child i p) ∧ ∀ q, st.queue = some q → q = id
  child : ∀ id st p, s.requestStates.get? id = some st → st.parentReq = some p →
    ∃ f, fanOuts p = some f ∧ IsChild f (s.parents p) p id st
  parent : ∀ p f, fanOuts p = some f → IsParent f p (s.parents p)
  registered : ∀ p ∈ s.parentRequests, (fanOuts p).isSome = true

/-! ## What a parent hands over -/

/-- What `get_outputs` does. -/
structure Handover (parent : ParentRequest) (id : ReqId) (c : CompletionOutput)
    (outputs : List (Option CompletionOutput)) (finished : Bool) (parent' : ParentRequest) :
    Prop where
  eq : parent' = { parent with
    childRequests := parent'.childRequests, outputAggregator := parent'.outputAggregator }
  children : parent'.childRequests =
    if c.finished then parent.childRequests.filter (· ≠ id) else parent.childRequests
  last : finished = decide (parent'.childRequests = [])
  final : parent.samplingParams.outputKind = .finalOnly →
    c.index < parent.outputAggregator.length ∧
      parent'.outputAggregator = parent.outputAggregator.set c.index (some c) ∧
      outputs = if finished then parent'.outputAggregator else []
  stream : parent.samplingParams.outputKind ≠ .finalOnly →
    parent'.outputAggregator = parent.outputAggregator ∧
      outputs = if c.finished ∧ id ∉ parent.childRequests then [] else [some c]

theorem handover_of_getOutputs {parent parent' : ParentRequest} {id : ReqId}
    {c : CompletionOutput} {outputs : List (Option CompletionOutput)} {finished : Bool}
    (h : parent.getOutputs id c = .ok ((outputs, finished), parent')) :
    Handover parent id c outputs finished parent' := by
  unfold ParentRequest.getOutputs at h
  simp only at h
  split at h
  · rename_i hkind
    obtain ⟨_, hlt, h⟩ := bind_ok_iff.mp h
    cases h
    refine ⟨rfl, rfl, rfl, fun _ => ⟨ensure_eq_ok.mp hlt, rfl, ?_⟩, fun hne => absurd hkind hne⟩
    simp
  · rename_i hkind
    cases h
    refine ⟨rfl, rfl, rfl, fun hfinal => absurd hfinal hkind, fun _ => ⟨rfl, ?_⟩⟩
    simp

/-- The parent is still that of its fan-out. -/
theorem IsParent.handover {f : FanOut} {p id : ReqId} {parent parent' : ParentRequest}
    {st : RequestState X} {c : CompletionOutput} {outputs : List (Option CompletionOutput)}
    {finished : Bool} (h : IsParent f p parent) (hchild : IsChild f parent p id st)
    (hindex : c.index = st.requestIndex) (hover : Handover parent id c outputs finished parent') :
    IsParent f p parent' := by
  have heq := hover.eq
  have hparams : parent'.samplingParams = parent.samplingParams := by rw [heq]
  refine ⟨by rw [hparams]; exact h.params, by rw [heq]; exact h.requestId,
    by rw [heq]; exact h.external, h.resumable, h.base, h.queue, by rw [hparams]; exact h.next_le,
    fun k hk => h.children k ?_, ?_, fun hfinal => ?_⟩
  · rw [hover.children] at hk
    split at hk
    · exact (List.mem_filter.mp hk).1
    · exact hk
  · rw [hover.children]
    split
    · exact h.nodup.filter _
    · exact h.nodup
  · rw [hparams] at hfinal
    obtain ⟨hlength, hfilled⟩ := h.aggregator hfinal
    obtain ⟨hlt, hset, -⟩ := hover.final hfinal
    rw [hset, hparams, List.length_set]
    refine ⟨hlength, fun i hi hnot => ?_⟩
    by_cases heq : i = c.index
    · have hid : ReqId.child i p = id := by rw [heq, hindex, hchild.id_eq]
      rw [hid, hover.children] at hnot
      refine ⟨c, by rw [heq, List.getElem?_set_self hlt], heq.symm, ?_⟩
      by_contra hunfinished
      rw [if_neg hunfinished] at hnot
      exact hnot hchild.outstanding
    · rw [List.getElem?_set_ne (Ne.symm heq)]
      refine hfilled i hi fun hmem => hnot ?_
      rw [hover.children]
      split
      · refine List.mem_filter.mpr ⟨hmem, ?_⟩
        rw [hchild.id_eq, ← hindex]
        simp [heq]
      · exact hmem

/-! ## Steps of the processor -/

namespace Wired

variable {cfg : ProcessorConfig X} {fanOuts : ReqId → Option FanOut} {s s' : OutputProcessor X}

/-- Nothing that belongs together has changed. -/
theorem congr (h : Wired fanOuts s) (hstates : s'.requestStates = s.requestStates)
    (hparents : s'.parents = s.parents) (hregistered : ∀ p ∈ s'.parentRequests,
      p ∈ s.parentRequests) : Wired fanOuts s' where
  keyed := by rw [hstates]; exact h.keyed
  single := by rw [hstates]; exact h.single
  child := by rw [hstates, hparents]; exact h.child
  parent := by rw [hparents]; exact h.parent
  registered p hp := h.registered p (hregistered p hp)

/-- What a child hands over goes to its own parent. -/
theorem parent_handed {id : ReqId} {st : RequestState X} {finishReason : Option FinishReason}
    {parents : ReqId → ParentRequest} {collectors : ReqId → RequestOutputCollector}
    (h : Wired fanOuts s) (hst : s.requestStates.get? id = some st)
    (hhanded : Handed s st finishReason parents collectors) :
    (∀ p f, fanOuts p = some f → IsParent f p (parents p)) ∧
      (∀ p, st.parentReq ≠ some p → parents p = s.parents p) ∧
      ∀ p, (parents p).externalReqId = (s.parents p).externalReqId ∧
        (parents p).samplingParams = (s.parents p).samplingParams ∧
        ∀ c ∈ (s.parents p).childRequests, finishReason = none ∨ c ≠ id →
          c ∈ (parents p).childRequests := by
  cases hp : st.parentReq with
  | none =>
    rw [(hhanded.single hp).1]
    exact ⟨h.parent, fun p _ => rfl, fun p => ⟨rfl, rfl, fun c hc _ => hc⟩⟩
  | some p =>
    have hchild := hhanded.child p hp
    cases hchild with
    | silent hreason => exact ⟨h.parent, fun p _ => rfl, fun p => ⟨rfl, rfl, fun c hc _ => hc⟩⟩
    | handed c outputs finished parent _ hindex hreason hget hput =>
      obtain ⟨f, hf, hischild⟩ := h.child id st p hst hp
      rw [h.keyed id st hst] at hget
      have hover := handover_of_getOutputs hget
      refine ⟨fun q g hg => ?_, fun q hq => ?_, fun q => ?_⟩
      · by_cases hqp : q = p
        · subst hqp
          obtain rfl := Option.some.inj (hf.symm.trans hg)
          rw [Function.update_self]
          exact (h.parent q f hf).handover hischild hindex hover
        · rw [Function.update_of_ne hqp]
          exact h.parent q g hg
      · refine Function.update_of_ne ?_ _ _
        rintro rfl
        exact hq rfl
      · by_cases hqp : q = p
        · subst hqp
          rw [Function.update_self]
          refine ⟨by rw [hover.eq], by rw [hover.eq], fun k hk hor => ?_⟩
          rw [hover.children]
          split
          · rename_i hfinished
            refine List.mem_filter.mpr ⟨hk, ?_⟩
            have hne : k ≠ id := by
              rcases hor with hnone | hne
              · rw [CompletionOutput.finished, hreason, hnone] at hfinished
                cases hfinished
              · exact hne
            simpa using hne
          · exact hk
        · rw [Function.update_of_ne hqp]
          exact ⟨rfl, rfl, fun k hk _ => hk⟩

/-- A request hands something over, and stays or leaves. -/
theorem handed {id : ReqId} {st : RequestState X} (h : Wired fanOuts s)
    (finishReason : Option FinishReason) (new : Option (RequestState X))
    (hst : s.requestStates.get? id = some st)
    (hhanded : Handed s st finishReason s'.parents s'.collectors)
    (hstates : ∀ id', s'.requestStates.get? id' =
      if id' = id then new else s.requestStates.get? id')
    (hregistered : ∀ p ∈ s'.parentRequests, p ∈ s.parentRequests)
    (hnew : ∀ st', new = some st' → SameRequest st st' ∧ (st.parentReq = none ∨
      finishReason = none ∧ (st.streamingInput = false → st'.streamingInput = false))) :
    Wired fanOuts s' := by
  obtain ⟨hparent, hother, hkeep⟩ := h.parent_handed hst hhanded
  refine ⟨fun id' st' hst' => ?_, fun id' st' hst' hsingle => ?_, fun id' st' p hst' hp => ?_,
    hparent, fun p hp => h.registered p (hregistered p hp)⟩
  · rw [hstates] at hst'
    split at hst'
    · rename_i hid
      rw [(hnew st' hst').1.requestId, hid]
      exact h.keyed id st hst
    · exact h.keyed id' st' hst'
  · rw [hstates] at hst'
    split at hst'
    · rename_i hid
      obtain ⟨hsame, -⟩ := hnew st' hst'
      rw [hid, hsame.queue]
      exact h.single id st hst (hsame.parentReq.symm.trans hsingle)
    · exact h.single id' st' hst' hsingle
  · rw [hstates] at hst'
    -- a child that is there is still waited for
    have hold : ∃ st₀, s.requestStates.get? id' = some st₀ ∧ SameRequest st₀ st' ∧
        (st₀.streamingInput = false → st'.streamingInput = false) ∧
        (finishReason = none ∨ id' ≠ id) := by
      split at hst'
      · rename_i hid
        obtain ⟨hsame, hor⟩ := hnew st' hst'
        rcases hor with hsingle | ⟨hnone, hstreaming⟩
        · rw [← hsame.parentReq, hp] at hsingle
          cases hsingle
        · exact ⟨st, by rw [hid]; exact hst, hsame, hstreaming, Or.inl hnone⟩
      · rename_i hid
        exact ⟨st', hst', ⟨rfl, rfl, rfl, rfl, rfl, rfl, rfl⟩, fun hs => hs, Or.inr hid⟩
    obtain ⟨st₀, hst₀, hsame, hstreaming, hor⟩ := hold
    obtain ⟨f, hf, hchild⟩ := h.child id' st₀ p hst₀ (hsame.parentReq.symm.trans hp)
    obtain ⟨hexternal, hparams, hmem⟩ := hkeep p
    refine ⟨f, hf, ?_, ?_, ?_, ?_, ?_, ?_, ?_, ?_⟩
    · rw [hsame.requestIndex]
      exact hchild.id_eq
    · rw [hsame.requestIndex]
      exact hchild.index_lt
    · rw [hsame.queue]
      exact hchild.queue
    · rw [hsame.outputKind, hparams]
      exact hchild.outputKind
    · exact hstreaming hchild.streaming
    · rw [hsame.detokenizer]
      exact hchild.detokenizer
    · rw [hsame.externalReqId, hexternal]
      exact hchild.external
    · exact hmem id' hchild.outstanding hor

/-- Outputs of children are completions, and their inputs are not streamed. -/
theorem kind_of_child {output : EngineCoreOutput} {st : RequestState X} (h : Wired fanOuts s)
    (hst : s.requestStates.get? output.requestId = some st) (hkind : OfKind output)
    (hp : st.parentReq ≠ none) : output.poolingOutput = none ∧ st.streamingInput = false := by
  obtain ⟨p, hp⟩ := Option.ne_none_iff_exists'.mp hp
  obtain ⟨f, -, hchild⟩ := h.child _ st p hst hp
  exact ⟨hkind.resolve_right fun hnot => hnot _ _ hchild.id_eq, hchild.streaming⟩

/-- An output that is processed. -/
theorem processOutput {output : EngineCoreOutput} {r : OutputProcessor X × ProcessedOutputs}
    (h : Wired fanOuts s) (hkind : OfKind output) (hr : s.processOutput cfg output = .ok r) :
    Wired fanOuts r.1 := by
  cases hst : s.requestStates.get? output.requestId with
  | none =>
    simp only [OutputProcessor.processOutput, hst] at hr
    cases hr
    exact h
  | some st =>
    have hkey := h.keyed _ st hst
    have hchild := h.kind_of_child hst hkind
    have hprocessed := processed_of_processOutput hst hkey hchild hr
    by_cases hstays : finishReasonOf cfg st output = none ∨ st.streamingInput = true
    · obtain ⟨st', hsame, hstreaming, hstates, hregistered, -⟩ := hprocessed.stays hstays
      rw [hkey] at hstates
      refine h.handed _ (some st') hst hprocessed.handed hstates
        (fun p hp => hregistered ▸ hp) fun st'' hst'' => ?_
      obtain rfl := Option.some.inj hst''
      refine ⟨hsame, ?_⟩
      rcases hstays with hnone | hs
      · exact Or.inr ⟨hnone, hstreaming⟩
      · by_contra hnot
        rw [not_or] at hnot
        rw [(hchild hnot.1).2] at hs
        cases hs
    · rw [not_or] at hstays
      have hfreed := hprocessed.leaves hstays.1 (by simpa using hstays.2)
      have hstates := hfreed.states
      rw [hkey] at hstates
      refine h.handed _ none hst hprocessed.handed hstates (fun p hp => ?_)
        fun st' hst' => (by cases hst')
      rw [hfreed.parentRequests] at hp
      split at hp
      · split at hp
        · exact (List.mem_filter.mp hp).1
        · exact hp
      · exact hp

/-- Children are detokenized. -/
theorem detokenizer_isSome {id : ReqId} {st : RequestState X} (h : Wired fanOuts s)
    (hst : s.requestStates.get? id = some st) (hp : st.parentReq ≠ none) :
    st.detokenizer.isSome = true := by
  obtain ⟨p, hp⟩ := Option.ne_none_iff_exists'.mp hp
  obtain ⟨f, -, hchild⟩ := h.child _ st p hst hp
  exact hchild.detokenizer

/-- A request that is aborted. -/
theorem abortState {id : ReqId} {st : RequestState X} (h : Wired fanOuts s)
    (hst : s.requestStates.get? id = some st) (hs' : abortState cfg { s with
      requestStates := s.requestStates.erase id } st = .ok s') : Wired fanOuts s' := by
  obtain ⟨hframe, hsilent, hhanded⟩ := abortState_eq_ok (h.detokenizer_isSome hst) hs'
  have hstates : ∀ id', s'.requestStates.get? id' =
      if id' = id then none else s.requestStates.get? id' := by
    intro id'
    rw [hframe, Dict.get?_erase]
  have hregistered : ∀ p ∈ s'.parentRequests, p ∈ s.parentRequests := by
    rw [hframe]
    exact fun p hp => hp
  by_cases hq : st.queue = none
  · obtain ⟨hparents, hcollectors⟩ := hsilent hq
    refine h.handed none none hst ?_ hstates hregistered
      fun st' hst' => (by cases hst')
    rw [hparents, hcollectors]
    exact ⟨fun _ => ⟨rfl, fun _ _ => rfl⟩, fun p _ => .silent rfl⟩
  · exact h.handed (some .abort) none hst ((hhanded hq).congr rfl rfl) hstates hregistered
      fun st' hst' => (by cases hst')

/-- A parent still waits for its other children. -/
theorem mem_childRequests_abortState {id c p : ReqId} {st : RequestState X} (h : Wired fanOuts s)
    (hst : s.requestStates.get? id = some st) (hs' : OutputProcessor.abortState cfg { s with
      requestStates := s.requestStates.erase id } st = .ok s')
    (hc : c ∈ (s.parents p).childRequests) (hne : c ≠ id) : c ∈ (s'.parents p).childRequests := by
  obtain ⟨-, hsilent, hhanded⟩ := abortState_eq_ok (h.detokenizer_isSome hst) hs'
  by_cases hq : st.queue = none
  · rw [(hsilent hq).1]
    exact hc
  · have hh : Handed s st (some .abort) s'.parents s'.collectors := (hhanded hq).congr rfl rfl
    exact ((h.parent_handed hst hh).2.2 p).2.2 c hc (Or.inr hne)

/-- Outputs that are processed. -/
theorem processOutputs {outputs : List EngineCoreOutput}
    {r : OutputProcessor X × ProcessedOutputs} (h : Wired fanOuts s)
    (hkind : ∀ output ∈ outputs, OfKind output)
    (hr : OutputProcessor.processOutputs cfg s outputs = .ok r) : Wired fanOuts r.1 := by
  refine run_invariant (fun s output s' hs houtput hs' => ?_) h (along_of_mem hkind s)
    (run_processNext hr)
  obtain ⟨r, hr, hs'⟩ := bind_ok_iff.mp hs'
  cases hs'
  exact hs.processOutput houtput hr

/-- Requests that are aborted. -/
theorem abortInternal {ids : List ReqId} {depth : Nat} {r : OutputProcessor X × List ReqId}
    (h : Wired fanOuts s) (hr : OutputProcessor.abortInternal cfg depth s ids = .ok r) :
    Wired fanOuts r.1 :=
  abortInternal_rule (A := fun _ => True) (fun _ _ hs => hs.congr rfl rfl fun _ hp => hp)
    (fun _ _ _ _ hs _ hst hs' => hs.abortState hst hs')
    (fun _ _ hs _ => hs.congr rfl rfl fun _ hp => (List.mem_filter.mp hp).1)
    (fun _ _ _ _ _ _ _ => trivial) (fun _ _ => trivial) h hr

/-- Requests that are aborted by their external ids. -/
theorem abortExternal {ids : List ExternalId} {r : OutputProcessor X × List ReqId}
    (h : Wired fanOuts s) (hr : OutputProcessor.abortExternal cfg s ids = .ok r) :
    Wired fanOuts r.1 :=
  abortExternal_rule (A := fun _ => True) (fun _ _ hs => hs.congr rfl rfl fun _ hp => hp)
    (fun _ _ _ _ hs _ hst hs' => hs.abortState hst hs')
    (fun _ _ hs _ => hs.congr rfl rfl fun _ hp => (List.mem_filter.mp hp).1)
    (fun _ _ _ _ _ _ _ => trivial) (fun _ _ _ _ => trivial) h hr

/-- An update of a streaming input. -/
theorem updated {id : ReqId} {st : RequestState X} (h : Wired fanOuts s)
    (hst : s.requestStates.get? id = some st) (hsingle : st.parentReq = none)
    (hupdated : Updated s st s') : Wired fanOuts s' := by
  have hkey := h.keyed id st hst
  cases hupdated with
  | written st' hsame hs' =>
    refine h.handed none (some st') hst ?_ (fun id' => ?_) ?_
      fun st'' hst'' => ?_
    · rw [hs']
      exact ⟨fun _ => ⟨rfl, fun _ _ => rfl⟩, fun p _ => .silent rfl⟩
    · rw [hs', Dict.get?_insert, hkey]
    · rw [hs']
      exact fun p hp => hp
    · obtain rfl := Option.some.inj hst''
      exact ⟨hsame, Or.inl hsingle⟩
  | freed hfreed hparents hcollectors =>
    have hstates := hfreed.states
    rw [hkey] at hstates
    refine h.handed none none hst ?_ hstates (fun p hp => ?_)
      fun st' hst' => (by cases hst')
    · refine ⟨fun _ => ⟨hparents, hcollectors⟩, fun p hp => ?_⟩
      rw [hsingle] at hp
      cases hp
    · rw [hfreed.parentRequests, hsingle] at hp
      exact hp

/-- A request that is added. -/
theorem added {request : EngineCoreRequest} {prompt : Option String} {parentReq : Option ReqId}
    {index : Nat} {queue : Option ReqId} (h : Wired fanOuts s)
    (hnew : s.requestStates.get? request.requestId = none)
    (hsingle : parentReq = none → fanOuts request.requestId = none ∧
      (∀ i p, request.requestId ≠ .child i p) ∧ ∀ q, queue = some q → q = request.requestId)
    (hchild : ∀ p, parentReq = some p → ∃ f, fanOuts p = some f ∧
      IsChild f (s.parents p) p request.requestId
        (.fromNewRequest cfg request prompt parentReq index queue))
    (hs' : s.addRequest cfg request prompt parentReq index queue = .ok s') : Wired fanOuts s' := by
  simp only [OutputProcessor.addRequest, hnew] at hs'
  cases hs'
  refine ⟨fun id st hst => ?_, fun id st hst hp => ?_, fun id st p hst hp => ?_, h.parent,
    fun p hp => ?_⟩
  · simp only [Dict.get?_insert] at hst
    split at hst
    · rename_i hid
      cases hst
      exact hid.symm
    · exact h.keyed id st hst
  · simp only [Dict.get?_insert] at hst
    split at hst
    · rename_i hid
      cases hst
      rw [hid]
      exact hsingle hp
    · exact h.single id st hst hp
  · simp only [Dict.get?_insert] at hst
    split at hst
    · rename_i hid
      cases hst
      rw [hid]
      exact hchild p hp
    · exact h.child id st p hst hp
  · cases hparent : parentReq with
    | none =>
      simp only [hparent] at hp
      exact h.registered p hp
    | some q =>
      simp only [hparent] at hp
      split at hp
      · exact h.registered p hp
      · rcases List.mem_append.mp hp with hp | hp
        · exact h.registered p hp
        · obtain rfl := List.mem_singleton.mp hp
          obtain ⟨f, hf, -⟩ := hchild p hparent
          rw [hf]
          rfl

/-- A state with the id of a child is that of a child. -/
theorem parentReq_of_child {i : Nat} {p : ReqId} {st : RequestState X} (h : Wired fanOuts s)
    (hst : s.requestStates.get? (.child i p) = some st) : st.parentReq = some p := by
  cases hp : st.parentReq with
  | none => exact absurd rfl ((h.single _ st hst hp).2.1 i p)
  | some q =>
    obtain ⟨g, -, hchild⟩ := h.child _ st q hst hp
    have heq := hchild.id_eq
    simp only [ReqId.child.injEq] at heq
    rw [heq.2]

/-- A state of an outstanding child is that of a child of the parent. -/
theorem parentReq_of_mem {p c : ReqId} {f : FanOut} {st : RequestState X} (h : Wired fanOuts s)
    (hf : fanOuts p = some f) (hc : c ∈ (s.parents p).childRequests)
    (hst : s.requestStates.get? c = some st) : st.parentReq = some p := by
  obtain ⟨i, -, rfl⟩ := (h.parent p f hf).children c hc
  exact h.parentReq_of_child hst

/-- A child that is there is outstanding. -/
theorem mem_childRequests {id p : ReqId} {st : RequestState X} (h : Wired fanOuts s)
    (hst : s.requestStates.get? id = some st) (hp : st.parentReq = some p) :
    id ∈ (s.parents p).childRequests := by
  obtain ⟨f, -, hchild⟩ := h.child id st p hst hp
  exact hchild.outstanding

/-- A state whose id is not that of a child is not that of a child. -/
theorem parentReq_eq_none {id : ReqId} {st : RequestState X} (h : Wired fanOuts s)
    (hst : s.requestStates.get? id = some st) (hbase : ∀ i p, id ≠ .child i p) :
    st.parentReq = none := by
  cases hp : st.parentReq with
  | none => rfl
  | some p =>
    obtain ⟨f, -, hchild⟩ := h.child _ st p hst hp
    exact absurd hchild.id_eq (hbase _ _)

/-- A parent is not a request that is there. -/
theorem parent_not_live {p : ReqId} {f : FanOut} {st : RequestState X} (h : Wired fanOuts s)
    (hf : fanOuts p = some f) (hst : s.requestStates.get? p = some st) : False := by
  have hsingle := h.parentReq_eq_none hst (h.parent p f hf).base
  have hnone := (h.single p st hst hsingle).1
  rw [hf] at hnone
  cases hnone

/-- The next child is not there yet. -/
theorem child_new {p : ReqId} {f : FanOut} (h : Wired fanOuts s) (hf : fanOuts p = some f) :
    s.requestStates.get? (.child f.next p) = none := by
  cases hst : s.requestStates.get? (.child f.next p) with
  | none => rfl
  | some st =>
    obtain ⟨g, hg, hchild⟩ := h.child _ st p hst (h.parentReq_of_child hst)
    have hindex := hchild.id_eq
    simp only [ReqId.child.injEq] at hindex
    obtain rfl := Option.some.inj (hf.symm.trans hg)
    have hlt := hchild.index_lt
    omega

end Wired

/-! ## Steps of the front end -/

namespace FrontendRun

variable {cfg : ProcessorConfig X} {r r' : FrontendRun X}

/-- The parent of a fan-out is that of its request. -/
theorem isParent_new {request : EngineCoreRequest} {prompt : Option String} {queue : Option ReqId}
    {params : SamplingParams} (hparams : request.samplingParams = some params)
    (hbase : ∀ i p, request.requestId ≠ .child i p) (hresumable : request.resumable = false)
    (hqueue : ∀ q ∈ queue, q = request.requestId) :
    IsParent { request, prompt, queue } request.requestId
      (.new request.requestId request.externalReqId params) where
  params := hparams
  requestId := rfl
  external := rfl
  resumable := hresumable
  base := hbase
  queue := hqueue
  next_le := Nat.zero_le _
  children c hc := absurd hc List.not_mem_nil
  nodup := List.nodup_nil
  aggregator hkind := by
    simp only [ParentRequest.new] at hkind ⊢
    rw [if_pos hkind, List.length_replicate]
    exact ⟨rfl, fun i hi => absurd hi (Nat.not_lt_zero i)⟩

/-- A parent with one more child. -/
theorem isParent_getChildInfo {f : FanOut} {p : ReqId} {parent : ParentRequest}
    (h : IsParent f p parent) (hlt : f.next < parent.samplingParams.n) :
    IsParent { f with next := f.next + 1 } p (parent.getChildInfo f.next).2 ∧
      (parent.getChildInfo f.next).1 = .child f.next p ∧
      ∀ c, c ∈ (parent.getChildInfo f.next).2.childRequests ↔
        c ∈ parent.childRequests ∨ c = .child f.next p := by
  have hmem (c : ReqId) : c ∈ (parent.getChildInfo f.next).2.childRequests ↔
      c ∈ parent.childRequests ∨ c = .child f.next p := by
    simp only [ParentRequest.getChildInfo, h.requestId]
    split
    · rename_i hin
      refine ⟨Or.inl, fun hor => hor.elim id fun hc => ?_⟩
      rw [hc]
      exact hin
    · simp
  refine ⟨⟨h.params, h.requestId, h.external, h.resumable, h.base, h.queue, hlt, fun c hc => ?_,
    ?_, fun hkind => ?_⟩, by rw [← h.requestId]; rfl, hmem⟩
  · rcases (hmem c).mp hc with hc | hc
    · obtain ⟨i, hi, hci⟩ := h.children c hc
      exact ⟨i, Nat.lt_succ_of_lt hi, hci⟩
    · exact ⟨f.next, Nat.lt_succ_self _, hc⟩
  · simp only [ParentRequest.getChildInfo]
    split
    · exact h.nodup
    · rename_i hnot
      exact List.nodup_append.mpr ⟨h.nodup, List.nodup_singleton _, fun x hx y hy hxy => by
        rw [List.mem_singleton.mp hy] at hxy
        exact hnot (hxy ▸ hx)⟩
  · obtain ⟨hlength, hfilled⟩ := h.aggregator hkind
    refine ⟨hlength, fun i hi hnot => ?_⟩
    rw [hmem, not_or] at hnot
    refine hfilled i ?_ hnot.1
    have hne : i ≠ f.next := by
      rintro rfl
      exact hnot.2 rfl
    have hi' : i < f.next + 1 := hi
    omega

/-- A child that is not there is added. -/
theorem wired_addChild {p : ReqId} (h : Wired r.fanOuts r.processor)
    (hr : r.addChild cfg p = .ok r') : Wired r'.fanOuts r'.processor := by
  unfold addChild at hr
  split at hr
  · cases hr
    exact h
  · rename_i f hf
    split at hr
    · rename_i hlt
      obtain ⟨s', hs', hr⟩ := bind_ok_iff.mp hr
      cases hr
      have hparent := h.parent p f hf
      obtain ⟨hparent', hid, hmem⟩ := isParent_getChildInfo hparent hlt
      have hnew := h.child_new hf
      -- the fan-out goes on, and its children stay
      have hwired : Wired (Function.update r.fanOuts p (some { f with next := f.next + 1 }))
          { r.processor with
            parents := Function.update r.processor.parents p
              ((r.processor.parents p).getChildInfo f.next).2 } := by
        refine ⟨h.keyed, fun id st hst hp => ?_, fun id st q hst hp => ?_, fun q g hg => ?_,
          fun q hq => ?_⟩
        · obtain ⟨hnone, hbase, hqueue⟩ := h.single id st hst hp
          have hne : id ≠ p := by
            rintro rfl
            rw [hf] at hnone
            cases hnone
          exact ⟨by rw [Function.update_of_ne hne, hnone], hbase, hqueue⟩
        · obtain ⟨g, hg, hchild⟩ := h.child id st q hst hp
          by_cases hqp : q = p
          · subst hqp
            obtain rfl := Option.some.inj (hf.symm.trans hg)
            simp only [Function.update_self]
            exact ⟨_, rfl, hchild.id_eq, Nat.lt_succ_of_lt hchild.index_lt, hchild.queue,
              hchild.outputKind, hchild.streaming, hchild.detokenizer, hchild.external,
              (hmem id).mpr (Or.inl hchild.outstanding)⟩
          · simp only [Function.update_of_ne hqp]
            exact ⟨g, hg, hchild⟩
        · by_cases hqp : q = p
          · subst hqp
            simp only [Function.update_self] at hg ⊢
            obtain rfl := Option.some.inj hg
            exact hparent'
          · simp only [Function.update_of_ne hqp] at hg ⊢
            exact h.parent q g hg
        · by_cases hqp : q = p
          · simp [hqp]
          · rw [Function.update_of_ne hqp]
            exact h.registered q hq
      unfold FanOut.addChild at hs'
      refine hwired.added ?_ (fun hnone => ?_) (fun q hq => ?_) hs'
      · show r.processor.requestStates.get? (f.childRequest _).requestId = none
        simp only [FanOut.childRequest, hid]
        exact hnew
      · cases hnone
      · obtain rfl := Option.some.inj hq
        refine ⟨_, Function.update_self _ _ _, ?_⟩
        simp only [Function.update_self]
        refine ⟨?_, Nat.lt_succ_self _, rfl, ?_, ?_, ?_, ?_, ?_⟩
        · exact hid
        · simp only [RequestState.fromNewRequest, FanOut.childRequest, hparent.params,
            Option.map_some]
          rfl
        · simp only [RequestState.fromNewRequest, FanOut.childRequest, hparent.resumable]
        · simp only [RequestState.fromNewRequest, FanOut.childRequest, hparent.params,
            Option.map_some, Option.isSome_some]
        · simp only [RequestState.fromNewRequest, FanOut.childRequest, hparent.external]
          rfl
        · exact (hmem _).mpr (Or.inr hid)
    · cases hr
      exact h

/-- Every call keeps children and parents together. -/
theorem wired_apply {call : FrontendCall} (h : Wired r.fanOuts r.processor)
    (hproper : Proper r call) (hr : r.apply cfg call = .ok r') :
    Wired r'.fanOuts r'.processor := by
  cases call with
  | newQueue queue outputKind =>
    cases hr
    exact h.congr rfl rfl fun _ hp => hp
  | addRequest request prompt queue =>
    obtain ⟨s', hs', hr⟩ := bind_ok_iff.mp hr
    cases hr
    obtain ⟨hnone, hbase, hqueue⟩ := hproper
    cases hst : r.processor.requestStates.get? request.requestId with
    | none =>
      refine h.added hst (fun _ => ⟨hnone, hbase, hqueue⟩) (fun p hp => ?_) hs'
      cases hp
    | some st =>
      simp only [OutputProcessor.addRequest, hst] at hs'
      exact h.updated hst (h.parentReq_eq_none hst hbase)
        (updated_of_updateStreamingRequestState hs')
  | startFanOut request prompt queue =>
    obtain ⟨hnone, hbase, hqueue, hstate, hresumable, -⟩ := hproper
    simp only [apply, startFanOut] at hr
    split at hr
    · cases hr
    · rename_i params hparams
      cases hr
      have hne (p : ReqId) (f : FanOut) (hf : r.fanOuts p = some f) : p ≠ request.requestId := by
        rintro rfl
        rw [hnone] at hf
        cases hf
      refine ⟨h.keyed, fun id st hst hp => ?_, fun id st p hst hp => ?_, fun p f hf => ?_,
        fun p hp => ?_⟩
      · obtain ⟨hnone', hbase', hqueue'⟩ := h.single id st hst hp
        have hne' : id ≠ request.requestId := by
          rintro rfl
          rw [show r.processor.requestStates.get? request.requestId = some st from hst] at hstate
          cases hstate
        simp only [Function.update_of_ne hne']
        exact ⟨hnone', hbase', hqueue'⟩
      · obtain ⟨f, hf, hchild⟩ := h.child id st p hst hp
        simp only [Function.update_of_ne (hne p f hf)]
        exact ⟨f, hf, hchild⟩
      · by_cases hp : p = request.requestId
        · subst hp
          simp only [Function.update_self] at hf ⊢
          obtain rfl := Option.some.inj hf
          exact isParent_new hparams hbase hresumable fun q hq => (hqueue q hq).1
        · simp only [Function.update_of_ne hp] at hf ⊢
          exact h.parent p f hf
      · by_cases hp' : p = request.requestId
        · simp [hp']
        · simp only [Function.update_of_ne hp']
          exact h.registered p hp
  | addChild p => exact wired_addChild h hr
  | processOutputs outputs =>
    obtain ⟨processed, hprocessed, hr⟩ := bind_ok_iff.mp hr
    cases hr
    exact h.processOutputs hproper hprocessed
  | abortInternal ids =>
    obtain ⟨aborted, haborted, hr⟩ := bind_ok_iff.mp hr
    cases hr
    exact h.abortInternal haborted
  | abortExternal ids =>
    obtain ⟨aborted, haborted, hr⟩ := bind_ok_iff.mp hr
    cases hr
    exact h.abortExternal haborted
  | get queue =>
    cases hr
    exact h.congr rfl rfl fun _ hp => hp

/-- Before the first request. -/
theorem wired_init : Wired (init (X := X)).fanOuts (init (X := X)).processor where
  keyed _ _ h := by simp [init, OutputProcessor.init] at h
  single _ _ h := by simp [init, OutputProcessor.init] at h
  child _ _ _ h := by simp [init, OutputProcessor.init] at h
  parent _ _ h := by simp [init] at h
  registered _ h := by simp [init, OutputProcessor.init] at h

end FrontendRun

end Vllm.Frontend
