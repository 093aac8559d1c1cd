import Vllm.Frontend.ProcessorReturns

/-!
# The indexes of the output processor

Requests are indexed by their ids, by their external ids and by their parents. The calls of the
front end keep the three indexes in step, with some exceptions among the aborts.
-/

namespace Vllm.Frontend

open Checked OutputProcessor

variable {X : Type}

/-- A parent is registered as long as one of its children is there. -/
def Registered (s : OutputProcessor X) : Prop :=
  ∀ p, p ∈ s.parentRequests ↔ ∃ id st, s.requestStates.get? id = some st ∧ st.parentReq = some p

/-- The indexes agree: a request that is there, and no other, is listed once, under its external
id, no external id without requests is indexed, and the parents of those requests are registered. -/
structure IndexesAgree (s : OutputProcessor X) : Prop where
  listed : GroupIndex.Lists s.externalReqIds fun id =>
    (s.requestStates.get? id).map (·.externalReqId)
  registered : Registered s

/-- A request can be aborted without completions that are not there: all of its children are
added, or the client does not get all completions at once. -/
def FanOut.Abortable (f : FanOut) : Prop :=
  f.queue = none ∨ f.next = f.n ∨
    ∀ params ∈ f.request.samplingParams, params.outputKind ≠ .finalOnly

instance (f : FanOut) : Decidable f.Abortable := inferInstanceAs (Decidable (_ ∨ _ ∨ _))

namespace OutputProcessor

variable {cfg : ProcessorConfig X} {fanOuts : ReqId → Option FanOut} {s s' : OutputProcessor X}

/-- An abort of a request that can be aborted hands over all completions. -/
theorem allAdded_of_abortable {id p : ReqId} {st : RequestState X} {f : FanOut}
    (hw : Wired fanOuts s) (hst : s.requestStates.get? id = some st) (hp : st.parentReq = some p)
    (hf : fanOuts p = some f) (habort : f.Abortable) (hq : st.queue ≠ none) :
    AllAdded fanOuts s id st := by
  intro p' f' hp' hf' hkind _
  obtain rfl := Option.some.inj (hp.symm.trans hp')
  obtain rfl := Option.some.inj (hf.symm.trans hf')
  obtain ⟨g, hg, hchild⟩ := hw.child id st p hst hp
  obtain rfl := Option.some.inj (hf.symm.trans hg)
  rcases habort with hnone | hall | hstream
  · exact absurd (hchild.queue.trans hnone) hq
  · exact hall
  · exact absurd hkind (hstream _ (hw.parent p f hf).params)

/-- The children of a parent that are left to abort. -/
structure AbortingChildren (fanOuts : ReqId → Option FanOut) (s₀ : OutputProcessor X)
    (children : List ReqId) (s : OutputProcessor X) (rest : List ReqId) : Prop where
  wired : Wired fanOuts s
  full : PendingFull s
  nodup : rest.Nodup
  subset : ∀ c ∈ rest, c ∈ children
  parentRequests : s.parentRequests = s₀.parentRequests
  states : ∀ id, s.requestStates.get? id =
    if id ∈ children ∧ id ∉ rest then none else s₀.requestStates.get? id

/-- The children of a parent are aborted. -/
theorem abortChildren_ok {p : ReqId} {f : FanOut} {owed : List ReqId} (depth : Nat)
    (hw : Wired fanOuts s) (hfull : PendingFull s) (howed : Owed s owed)
    (hf : fanOuts p = some f) (habort : f.Abortable)
    (hnot : ∀ c ∈ (s.parents p).childRequests, ∀ st, s.requestStates.get? c = some st →
      c ∉ owed) :
    ∃ r, abortInternal cfg (depth + 1) s (s.parents p).childRequests = .ok r ∧
      Wired fanOuts r.1 ∧ PendingFull r.1 ∧ Owed r.1 owed ∧
      r.1.parentRequests = s.parentRequests ∧
      ∀ id, r.1.requestStates.get? id =
        if id ∈ (s.parents p).childRequests then none else s.requestStates.get? id := by
  have hparent := hw.parent p f hf
  generalize hchildren : (s.parents p).childRequests = children at *
  have hbase : ∀ c ∈ children, ∃ i, c = .child i p := by
    intro c hc
    rw [← hchildren] at hc
    obtain ⟨i, -, hi⟩ := hparent.children c hc
    exact ⟨i, hi⟩
  have hnodup : children.Nodup := by
    rw [← hchildren]
    exact hparent.nodup
  obtain ⟨s₁, hs₁, hframe⟩ := run_unlist_ok howed hnot
    (hnodup.imp fun hne _ _ => Ne.symm hne)
  have hstart : AbortingChildren fanOuts s children s₁ children := by
    refine ⟨hw.congr (by rw [hframe]) (by rw [hframe]) fun q hq => ?_,
      hfull.congr (by rw [hframe]), hnodup, fun c hc => hc, by rw [hframe], fun id => ?_⟩
    · rw [hframe] at hq
      exact hq
    · rw [if_neg fun hand => hand.2 hand.1, hframe]
  have hloop : ∃ r, abortEach cfg (abortInternal cfg depth) s₁ children = .ok r ∧
      AbortingChildren fanOuts s children r.1 [] := by
    refine abortEach_total (J := AbortingChildren fanOuts s children)
      (fun s' id rest st h hst => ?_) (fun s' id rest h hst hmem => ?_)
      (fun s' id rest h hst _ => ?_) hstart
    · -- a child that is there is aborted
      obtain ⟨i, rfl⟩ := hbase id (h.subset id List.mem_cons_self)
      have hp := h.wired.parentReq_of_child hst
      obtain ⟨s'', hs'', hfull''⟩ := abortState_ok cfg h.wired h.full hst
        (Or.inr (Or.inl (h.wired.detokenizer_isSome hst (by rw [hp]; simp))))
        (allAdded_of_abortable h.wired hst hp hf habort)
      obtain ⟨hstates, -⟩ := abortState_frame hs''
      obtain ⟨hnotMem, hrest⟩ := List.nodup_cons.mp h.nodup
      refine ⟨s'', hs'', h.wired.abortState hst hs'', hfull'', hrest,
        fun c hc => h.subset c (List.mem_cons_of_mem _ hc), ?_, fun id => ?_⟩
      · rw [(abortState_eq_ok (h.wired.detokenizer_isSome hst) hs'').1]
        exact h.parentRequests
      · rw [hstates, Dict.get?_erase, h.states]
        by_cases hid : id = .child i p
        · rw [if_pos hid, hid, if_pos ⟨h.subset _ List.mem_cons_self, hnotMem⟩]
        · simp [hid]
    · -- a child is not a parent
      obtain ⟨i, rfl⟩ := hbase id (h.subset id List.mem_cons_self)
      obtain ⟨g, hg⟩ := Option.isSome_iff_exists.mp (h.wired.registered _ hmem)
      exact absurd rfl ((h.wired.parent _ g hg).base i p)
    · refine ⟨h.wired, h.full, h.nodup.of_cons,
        fun c hc => h.subset c (List.mem_cons_of_mem _ hc), h.parentRequests, fun id' => ?_⟩
      by_cases hid : id' = id
      · rw [hid, hst, if_pos ⟨h.subset _ List.mem_cons_self, (List.nodup_cons.mp h.nodup).1⟩]
      · rw [h.states]
        simp [hid]
  obtain ⟨r, hr, hend⟩ := hloop
  have hr' : abortInternal cfg (depth + 1) s children = .ok r := bind_ok_iff.mpr ⟨s₁, hs₁, hr⟩
  refine ⟨r, hr', hend.wired, hend.full, howed.abortInternal hr', hend.parentRequests,
    fun id => ?_⟩
  rw [hend.states]
  simp

end OutputProcessor

/-! ## The second loop of an abort -/

/-- The requests that are left to abort: they have left the index already. A parent without
children is one of them, and no child comes behind its parent. -/
structure Aborting (cfg : ProcessorConfig X) (fanOuts : ReqId → Option FanOut)
    (s : OutputProcessor X) (rest : List ReqId) : Prop where
  wired : Wired fanOuts s
  full : PendingFull s
  listed : Owed s rest
  registered : ∀ id st p, s.requestStates.get? id = some st → st.parentReq = some p →
    p ∈ s.parentRequests
  needed : ∀ p ∈ s.parentRequests, p ∈ rest ∨
    ∃ c st, s.requestStates.get? c = some st ∧ st.parentReq = some p ∧ c ∉ rest
  abortable : ∀ p ∈ s.parentRequests, p ∈ rest → ∀ f, fanOuts p = some f → f.Abortable
  apart : rest.Pairwise fun a b => ∀ st, s.requestStates.get? b = some st → st.parentReq ≠ some a
  announces : ∀ id ∈ rest, ∀ st, s.requestStates.get? id = some st → Announces cfg st

namespace Aborting

variable {cfg : ProcessorConfig X} {fanOuts : ReqId → Option FanOut} {s : OutputProcessor X}
  {id : ReqId} {rest : List ReqId}

/-- A parent that is not there itself is needed for the children that stay. -/
theorem needed_tail (h : Aborting cfg fanOuts s (id :: rest)) {p : ReqId}
    (hp : p ∈ s.parentRequests) (hne : p ≠ id) : p ∈ rest ∨
      ∃ c st, s.requestStates.get? c = some st ∧ st.parentReq = some p ∧ c ≠ id ∧ c ∉ rest := by
  rcases h.needed p hp with hmem | ⟨c, st, hst, hparent, hnot⟩
  · exact Or.inl ((List.mem_cons.mp hmem).resolve_left hne)
  · rw [List.mem_cons, not_or] at hnot
    exact Or.inr ⟨c, st, hst, hparent, hnot.1, hnot.2⟩

/-- A request that is there is aborted. -/
theorem pop {st : RequestState X} (h : Aborting cfg fanOuts s (id :: rest))
    (hst : s.requestStates.get? id = some st) :
    ∃ s', abortState cfg { s with requestStates := s.requestStates.erase id } st = .ok s' ∧
      Aborting cfg fanOuts s' rest := by
  have hparentNe : ∀ p ∈ s.parentRequests, p ≠ id := by
    rintro p hp rfl
    obtain ⟨f, hf⟩ := Option.isSome_iff_exists.mp (h.wired.registered p hp)
    exact h.wired.parent_not_live hf hst
  have hall : st.queue ≠ none → AllAdded fanOuts s id st := by
    intro hq p f hp hf hkind honly
    have hmem := h.registered id st p hst hp
    rcases h.needed_tail hmem (hparentNe p hmem) with hrest | ⟨c, st', hst', hp', hne, -⟩
    · exact allAdded_of_abortable h.wired hst hp hf
        (h.abortable p hmem (List.mem_cons_of_mem _ hrest) f hf) hq p f hp hf hkind honly
    · exact absurd (honly c (h.wired.mem_childRequests hst' hp')) hne
  obtain ⟨s', hs', hfull⟩ := abortState_ok cfg h.wired h.full hst
    (h.announces id List.mem_cons_self st hst) hall
  obtain ⟨hstates, hlists⟩ := abortState_frame hs'
  have hregistered : s'.parentRequests = s.parentRequests := by
    rw [(abortState_eq_ok (h.wired.detokenizer_isSome hst) hs').1]
  have hold : ∀ id' st', s'.requestStates.get? id' = some st' →
      s.requestStates.get? id' = some st' := by
    intro id' st' hst'
    rw [hstates, Dict.get?_erase] at hst'
    split at hst'
    · cases hst'
    · exact hst'
  refine ⟨s', hs', h.wired.abortState hst hs', hfull, h.listed.congr hlists fun id' => ?_,
    fun id' st' p hst' hp => ?_, fun p hp => ?_, fun p hp hrest => ?_, ?_,
    fun id' hid' st' hst' => ?_⟩
  · rw [hstates, Dict.get?_erase]
    by_cases hid : id' = id
    · simp [hid]
    · simp [hid]
  · rw [hregistered]
    exact h.registered id' st' p (hold id' st' hst') hp
  · rw [hregistered] at hp
    refine (h.needed_tail hp (hparentNe p hp)).imp_right ?_
    rintro ⟨c, st', hst', hparent, hne, hnot⟩
    refine ⟨c, st', ?_, hparent, hnot⟩
    rw [hstates, Dict.get?_erase, if_neg hne]
    exact hst'
  · rw [hregistered] at hp
    exact h.abortable p hp (List.mem_cons_of_mem _ hrest)
  · exact h.apart.of_cons.imp fun hab st' hst' => hab st' (hold _ st' hst')
  · exact h.announces id' (List.mem_cons_of_mem _ hid') st' (hold id' st' hst')

/-- An id that is not there is owed nothing. -/
theorem listed_tail (h : Aborting cfg fanOuts s (id :: rest))
    (hst : s.requestStates.get? id = none) : Owed s rest := by
  refine h.listed.congr rfl fun id' => ?_
  by_cases hid : id' = id
  · simp [hid, hst]
  · simp [hid]

/-- An unknown id is skipped. -/
theorem skip (h : Aborting cfg fanOuts s (id :: rest)) (hst : s.requestStates.get? id = none)
    (hnot : id ∉ s.parentRequests) : Aborting cfg fanOuts s rest := by
  refine ⟨h.wired, h.full, h.listed_tail hst, h.registered, fun p hp => ?_,
    fun p hp hrest => h.abortable p hp (List.mem_cons_of_mem _ hrest), h.apart.of_cons,
    fun id' hid' => h.announces id' (List.mem_cons_of_mem _ hid')⟩
  have hne : p ≠ id := by
    rintro rfl
    exact hnot hp
  refine (h.needed_tail hp hne).imp_right ?_
  rintro ⟨c, st, hst', hparent, -, hnot⟩
  exact ⟨c, st, hst', hparent, hnot⟩

/-- Behind its children, the parent goes. -/
theorem dropParent {r : OutputProcessor X} (h : Aborting cfg fanOuts s (id :: rest))
    (hst : s.requestStates.get? id = none) (hmem : id ∈ s.parentRequests)
    (hwired : Wired fanOuts r) (hfull : PendingFull r) (hlisted : Owed r rest)
    (hregistered : r.parentRequests = s.parentRequests)
    (hstates : ∀ id', r.requestStates.get? id' =
      if id' ∈ (s.parents id).childRequests then none else s.requestStates.get? id') :
    Aborting cfg fanOuts { r with parentRequests := r.parentRequests.filter (· ≠ id) } rest := by
  obtain ⟨f, hf⟩ := Option.isSome_iff_exists.mp (h.wired.registered id hmem)
  have hold : ∀ id' st', r.requestStates.get? id' = some st' →
      s.requestStates.get? id' = some st' ∧ id' ∉ (s.parents id).childRequests := by
    intro id' st' hst'
    rw [hstates] at hst'
    split at hst'
    · cases hst'
    · rename_i hnot
      exact ⟨hst', hnot⟩
  have hfilter : ∀ p, p ∈ r.parentRequests.filter (· ≠ id) ↔ p ∈ s.parentRequests ∧ p ≠ id := by
    intro p
    rw [hregistered, List.mem_filter]
    simp
  refine ⟨hwired.congr rfl rfl fun p hp => (List.mem_filter.mp hp).1, hfull.congr rfl,
    hlisted.of_states rfl rfl, fun id' st' p hst' hp => ?_, fun p hp => ?_,
    fun p hp hrest => ?_, ?_, fun id' hid' st' hst' => ?_⟩
  · obtain ⟨hst₀, hnot⟩ := hold id' st' hst'
    refine (hfilter p).mpr ⟨h.registered id' st' p hst₀ hp, ?_⟩
    rintro rfl
    exact hnot (h.wired.mem_childRequests hst₀ hp)
  · obtain ⟨hp, hne⟩ := (hfilter p).mp hp
    refine (h.needed_tail hp hne).imp_right ?_
    rintro ⟨c, st, hst', hparent, -, hnot⟩
    refine ⟨c, st, ?_, hparent, hnot⟩
    show r.requestStates.get? c = some st
    rw [hstates, if_neg fun hc => ?_]
    · exact hst'
    · have hother := h.wired.parentReq_of_mem hf hc hst'
      rw [hparent] at hother
      exact hne (Option.some.inj hother)
  · exact h.abortable p ((hfilter p).mp hp).1 (List.mem_cons_of_mem _ hrest)
  · exact h.apart.of_cons.imp fun hab st' hst' => hab st' (hold _ st' hst').1
  · exact h.announces id' (List.mem_cons_of_mem _ hid') st' (hold id' st' hst').1

/-- A parent is aborted with its children. -/
theorem parent (depth : Nat) (h : Aborting cfg fanOuts s (id :: rest))
    (hst : s.requestStates.get? id = none) (hmem : id ∈ s.parentRequests) :
    ∃ r, s.abortParent (abortInternal cfg (depth + 1)) id = .ok r ∧
      Aborting cfg fanOuts { r.1 with
        parentRequests := r.1.parentRequests.filter (· ≠ id) } rest := by
  obtain ⟨f, hf⟩ := Option.isSome_iff_exists.mp (h.wired.registered id hmem)
  unfold abortParent
  by_cases hnil : (s.parents id).childRequests = []
  · rw [if_pos hnil]
    refine ⟨(s, []), rfl, h.dropParent hst hmem h.wired h.full (h.listed_tail hst) rfl
      fun id' => ?_⟩
    rw [hnil, if_neg List.not_mem_nil]
  · rw [if_neg hnil]
    obtain ⟨r, hr, hwired, hfull, hlisted, hregistered, hstates⟩ :=
      abortChildren_ok depth h.wired h.full (h.listed_tail hst) hf
        (h.abortable id hmem List.mem_cons_self f hf) fun c hc st hst' hrest =>
          (List.pairwise_cons.mp h.apart).1 c hrest st hst'
            (h.wired.parentReq_of_mem hf hc hst')
    exact ⟨r, hr, h.dropParent hst hmem hwired hfull hlisted hregistered hstates⟩

/-- The loop ends with indexes that agree. -/
theorem abortEach_ok (depth : Nat) (h : Aborting cfg fanOuts s rest) :
    ∃ r, abortEach cfg (abortInternal cfg (depth + 1)) s rest = .ok r ∧
      Aborting cfg fanOuts r.1 [] :=
  abortEach_total (fun _ _ _ _ h hst => h.pop hst) (fun _ _ _ h hst hmem => h.parent depth hst hmem)
    (fun _ _ _ h hst hnot => h.skip hst hnot) h

end Aborting

/-! ## Conditions on calls -/

/-- An output is of the kind of its request, and a parent that still waits for others when a child
of it is finished waits for one that is there. -/
def Settles (cfg : ProcessorConfig X) (s : OutputProcessor X) (output : EngineCoreOutput) : Prop :=
  ∀ st ∈ s.requestStates.get? output.requestId,
    Sends cfg st output.poolingOutput output.finishReason ∧
    (finishReasonOf cfg st output ≠ none → ∀ p ∈ st.parentReq,
      (∃ c ∈ (s.parents p).childRequests, c ≠ output.requestId) →
      ∃ c ∈ (s.parents p).childRequests,
        c ≠ output.requestId ∧ (s.requestStates.get? c).isSome = true)

instance (cfg : ProcessorConfig X) (s : OutputProcessor X) (output : EngineCoreOutput) :
    Decidable (Settles cfg s output) := by
  unfold Settles
  infer_instance

namespace FrontendRun

/-- A request that is fanned out generates, and its children are added before their first
output. -/
def Requested (r : FrontendRun X) : FrontendCall → Prop
  | .startFanOut request _ _ => request.samplingParams.isSome = true
  | .processOutputs outputs => ∀ output ∈ outputs, ∀ p ∈ output.requestId.parent?,
    ∀ f ∈ r.fanOuts p, f.next = f.n
  | .newQueue _ _ | .addRequest _ _ _ | .addChild _ | .abortInternal _ | .abortExternal _
  | .get _ => True

instance (r : FrontendRun X) : ∀ call, Decidable (Requested r call)
  | .startFanOut _ _ _ => inferInstanceAs (Decidable (_ = true))
  | .processOutputs _ => inferInstanceAs (Decidable (∀ _ ∈ _, ∀ p ∈ _, ∀ f ∈ _, _))
  | .newQueue _ _ | .addRequest _ _ _ | .addChild _ | .abortInternal _ | .abortExternal _
  | .get _ => inferInstanceAs (Decidable True)

/-- A call keeps the indexes in step. An abort by internal ids names no request that is there
twice or behind its parent, aborts no parent that would hand over completions that are not there,
and takes no last child from another parent; one by external ids takes none from any parent. The
final outputs of the aborted requests can be made. -/
def KeepsIndexes (cfg : ProcessorConfig X) (r : FrontendRun X) : FrontendCall → Prop
  | .processOutputs outputs => Along (processNext cfg) (Settles cfg) r.processor outputs
  | .abortInternal ids =>
    (ids.Pairwise fun a b => ∀ st ∈ r.processor.requestStates.get? b,
      b ≠ a ∧ st.parentReq ≠ some a) ∧
    (∀ p ∈ r.processor.parentRequests, p ∈ ids → ∀ f ∈ r.fanOuts p, f.Abortable) ∧
    (∀ p ∈ r.processor.parentRequests, p ∉ ids → ∃ c ∈ (r.processor.parents p).childRequests,
      (r.processor.requestStates.get? c).isSome = true ∧ c ∉ ids) ∧
    ∀ id ∈ ids, ∀ st ∈ r.processor.requestStates.get? id, Announces cfg st
  | .abortExternal ids =>
    (∀ p ∈ r.processor.parentRequests, (r.processor.parents p).externalReqId ∉ ids) ∧
    ∀ ext ∈ ids, ∀ id ∈ GroupIndex.members r.processor.externalReqIds ext,
      ∀ st ∈ r.processor.requestStates.get? id, Announces cfg st
  | .newQueue _ _ | .addRequest _ _ _ | .startFanOut _ _ _ | .addChild _ | .get _ => True

instance (cfg : ProcessorConfig X) (r : FrontendRun X) : ∀ call, Decidable (KeepsIndexes cfg r call)
  | .processOutputs _ => inferInstanceAs (Decidable (Along _ _ _ _))
  | .abortInternal _ => inferInstanceAs (Decidable (_ ∧ _ ∧ _ ∧ _))
  | .abortExternal _ => inferInstanceAs (Decidable (_ ∧ _))
  | .newQueue _ _ | .addRequest _ _ _ | .startFanOut _ _ _ | .addChild _ | .get _ =>
    inferInstanceAs (Decidable True)

end FrontendRun

/-! ## States between calls -/

/-- The invariant of the indexes. -/
structure Indexed (fanOuts : ReqId → Option FanOut) (s : OutputProcessor X) : Prop where
  wired : Wired fanOuts s
  full : PendingFull s
  listed : Owed s []
  registered : Registered s

/-- Registered parents depend on the parents of the requests that are there. -/
theorem Registered.congr {s s' : OutputProcessor X} (h : Registered s)
    (hregistered : s'.parentRequests = s.parentRequests)
    (hparent : ∀ id, (s'.requestStates.get? id).bind (·.parentReq) =
      (s.requestStates.get? id).bind (·.parentReq)) : Registered s' := by
  have hiff (s : OutputProcessor X) (p : ReqId) :
      (∃ id st, s.requestStates.get? id = some st ∧ st.parentReq = some p) ↔
        ∃ id, (s.requestStates.get? id).bind (·.parentReq) = some p := by
    simp only [Option.bind_eq_some_iff]
  intro p
  rw [hregistered, h p, hiff, hiff]
  simp only [hparent]

namespace Indexed

variable {cfg : ProcessorConfig X} {fanOuts : ReqId → Option FanOut} {s s' : OutputProcessor X}

private theorem indexesAgree (h : Indexed fanOuts s) : IndexesAgree s :=
  ⟨by simpa [Owed] using h.listed, h.registered⟩

/-- A child hands over its completion when it leaves, and its parent waits for the others. -/
theorem mem_childRequests_handed {id p c : ReqId} {st : RequestState X}
    {finishReason : Option FinishReason} (hw : Wired fanOuts s)
    (hst : s.requestStates.get? id = some st) (hp : st.parentReq = some p)
    (hne : finishReason ≠ none) (hhanded : Handed s st finishReason s'.parents s'.collectors) :
    c ∈ (s'.parents p).childRequests ↔ c ∈ (s.parents p).childRequests ∧ c ≠ id := by
  have hchild := hhanded.child p hp
  generalize s'.parents = parents at hchild ⊢
  generalize s'.collectors = collectors at hchild
  cases hchild with
  | silent hreason => exact absurd hreason hne
  | handed d outputs finished parent _ hindex hreason hget hput =>
    rw [hw.keyed id st hst] at hget
    have hfinished : d.finished = true := by
      rw [CompletionOutput.finished, hreason]
      exact Option.isSome_iff_ne_none.mpr hne
    rw [Function.update_self, (handover_of_getOutputs hget).children, if_pos hfinished,
      List.mem_filter]
    simp

/-- A request that is freed, whose parent goes with its last child. -/
theorem registered_freed {id : ReqId} {st : RequestState X} (h : Indexed fanOuts s)
    (hst : s.requestStates.get? id = some st) (hfreed : Freed s st s')
    (hchildren : ∀ p, st.parentReq = some p → ∀ c,
      c ∈ (s'.parents p).childRequests ↔ c ∈ (s.parents p).childRequests ∧ c ≠ id)
    (hlast : ∀ p, st.parentReq = some p → (∃ c ∈ (s.parents p).childRequests, c ≠ id) →
      ∃ c ∈ (s.parents p).childRequests, c ≠ id ∧ (s.requestStates.get? c).isSome = true) :
    Registered s' := by
  have hkey := h.wired.keyed id st hst
  have hstates := hfreed.states
  rw [hkey] at hstates
  have hregistered := hfreed.parentRequests
  cases hp : st.parentReq with
  | none =>
    rw [hp] at hregistered
    refine h.registered.congr hregistered fun id' => ?_
    rw [hstates]
    by_cases hid : id' = id
    · rw [if_pos hid, hid, hst]
      exact hp.symm
    · rw [if_neg hid]
  | some p =>
    rw [hp] at hregistered
    obtain ⟨f, hf, -⟩ := h.wired.child id st p hst hp
    have hlive : ∀ q, (∃ c st', s'.requestStates.get? c = some st' ∧ st'.parentReq = some q) ↔
        ∃ c st', s.requestStates.get? c = some st' ∧ st'.parentReq = some q ∧ c ≠ id := by
      intro q
      simp only [hstates]
      constructor
      · rintro ⟨c, st', hst', hq⟩
        split at hst'
        · cases hst'
        · rename_i hne
          exact ⟨c, st', hst', hq, hne⟩
      · rintro ⟨c, st', hst', hq, hne⟩
        exact ⟨c, st', by rw [if_neg hne]; exact hst', hq⟩
    intro q
    rw [hlive q]
    by_cases hqp : q = p
    · subst hqp
      have hmem : q ∈ s.parentRequests := (h.registered q).mpr ⟨id, st, hst, hp⟩
      by_cases hnil : (s'.parents q).childRequests = []
      · -- nobody is waited for
        simp only [hnil, if_true] at hregistered
        refine iff_of_false ?_ ?_
        · rw [hregistered, List.mem_filter]
          simp
        · rintro ⟨c, st', hst', hq, hne⟩
          have hout := (hchildren q hp c).mpr ⟨h.wired.mem_childRequests hst' hq, hne⟩
          rw [hnil] at hout
          exact absurd hout List.not_mem_nil
      · simp only [if_neg hnil] at hregistered
        refine iff_of_true (by rw [hregistered]; exact hmem) ?_
        obtain ⟨k, hk⟩ := List.exists_mem_of_ne_nil _ hnil
        obtain ⟨c, hc, hne, hsome⟩ := hlast q hp ⟨k, (hchildren q hp k).mp hk⟩
        obtain ⟨st', hst'⟩ := Option.isSome_iff_exists.mp hsome
        exact ⟨c, st', hst', h.wired.parentReq_of_mem hf hc hst', hne⟩
    · have hsame : q ∈ s'.parentRequests ↔ q ∈ s.parentRequests := by
        rw [hregistered]
        simp only
        split
        · rw [List.mem_filter]
          simp [hqp]
        · rfl
      rw [hsame, h.registered q]
      refine exists_congr fun c => exists_congr fun st' => and_congr_right fun hst' => ?_
      refine (and_iff_left_of_imp fun hq => ?_).symm
      rintro rfl
      rw [hst] at hst'
      obtain rfl := Option.some.inj hst'
      rw [hp] at hq
      exact hqp (Option.some.inj hq).symm

/-- An output that is processed. -/
theorem processOutput {output : EngineCoreOutput} (h : Indexed fanOuts s) (hkind : OfKind output)
    (hadded : ∀ p ∈ output.requestId.parent?, ∀ f ∈ fanOuts p, f.next = f.n)
    (hsettles : Settles cfg s output) :
    ∃ r, s.processOutput cfg output = .ok r ∧ Indexed fanOuts r.1 := by
  obtain ⟨r, hr, hfull⟩ := processOutput_ok h.wired h.listed h.full hkind
    (fun st hst => (hsettles st hst).1) fun st hst p f hp hf _ _ => by
      obtain ⟨g, -, hchild⟩ := h.wired.child _ st p hst hp
      refine hadded p ?_ f hf
      rw [hchild.id_eq]
      rfl
  refine ⟨r, hr, h.wired.processOutput hkind hr, hfull, h.listed.processOutput h.wired hkind hr,
    ?_⟩
  cases hst : s.requestStates.get? output.requestId with
  | none =>
    simp only [OutputProcessor.processOutput, hst] at hr
    cases hr
    exact h.registered
  | some st =>
    have hkey := h.wired.keyed _ st hst
    have hprocessed := processed_of_processOutput hst hkey (h.wired.kind_of_child hst hkind) hr
    by_cases hstays : finishReasonOf cfg st output = none ∨ st.streamingInput = true
    · obtain ⟨st', hsame, -, hstates, hregistered, -⟩ := hprocessed.stays hstays
      rw [hkey] at hstates
      refine h.registered.congr hregistered fun id => ?_
      rw [hstates]
      by_cases hid : id = output.requestId
      · rw [if_pos hid, hid, hst]
        exact hsame.parentReq
      · rw [if_neg hid]
    · rw [not_or] at hstays
      exact h.registered_freed hst (hprocessed.leaves hstays.1 (by simpa using hstays.2))
        (fun p hp c => mem_childRequests_handed h.wired hst hp hstays.1 hprocessed.handed)
        ((hsettles st hst).2 hstays.1)

/-- An update of a streaming input. -/
theorem updateStreamingRequestState {id : ReqId} {st : RequestState X}
    (request : EngineCoreRequest) (prompt : Option String) (h : Indexed fanOuts s)
    (hst : s.requestStates.get? id = some st) (hsingle : st.parentReq = none) :
    ∃ s', s.updateStreamingRequestState st request prompt = .ok s' ∧ Indexed fanOuts s' := by
  have hkey := h.wired.keyed id st hst
  have hst' : s.requestStates.get? st.requestId = some st := by rw [hkey]; exact hst
  obtain ⟨s', hs', hfull⟩ := updateStreamingRequestState_ok h.listed h.full hst'
  have hupdated := updated_of_updateStreamingRequestState hs'
  refine ⟨s', hs', h.wired.updated hst hsingle hupdated, hfull, h.listed.updated hst' hupdated, ?_⟩
  cases hupdated with
  | written st' hsame hs' =>
    refine h.registered.congr (by rw [hs']) fun id' => ?_
    rw [hs', Dict.get?_insert]
    by_cases hid : id' = st.requestId
    · rw [if_pos hid, hid, hst']
      exact hsame.parentReq
    · rw [if_neg hid]
  | freed hfreed hparents hcollectors =>
    refine h.registered_freed hst hfreed (fun p hp => ?_) fun p hp => ?_
    · rw [hsingle] at hp
      cases hp
    · rw [hsingle] at hp
      cases hp

/-- A request that is added. -/
theorem added {request : EngineCoreRequest} {prompt : Option String} {parentReq : Option ReqId}
    {index : Nat} {queue : Option ReqId} (hfull : PendingFull s) (hlisted : Owed s [])
    (hregistered : Registered s) (hnew : s.requestStates.get? request.requestId = none)
    (hs' : s.addRequest cfg request prompt parentReq index queue = .ok s')
    (hw : Wired fanOuts s') : Indexed fanOuts s' := by
  refine ⟨hw, ?_, hlisted.added hnew hs', ?_⟩
  · simp only [OutputProcessor.addRequest, hnew] at hs'
    cases hs'
    exact hfull.congr rfl
  · simp only [OutputProcessor.addRequest, hnew] at hs'
    cases hs'
    intro p
    have hlive : (∃ id st, (s.requestStates.insert request.requestId
          (RequestState.fromNewRequest cfg request prompt parentReq index queue)).get? id =
            some st ∧ st.parentReq = some p) ↔
        parentReq = some p ∨
          ∃ id st, s.requestStates.get? id = some st ∧ st.parentReq = some p := by
      simp only [Dict.get?_insert]
      constructor
      · rintro ⟨id, st, hst, hp⟩
        split at hst
        · cases hst
          exact Or.inl hp
        · exact Or.inr ⟨id, st, hst, hp⟩
      · rintro (hp | ⟨id, st, hst, hp⟩)
        · exact ⟨request.requestId, _, if_pos rfl, hp⟩
        · refine ⟨id, st, ?_, hp⟩
          rw [if_neg]
          · exact hst
          · rintro rfl
            rw [hnew] at hst
            cases hst
    rw [hlive, ← hregistered p]
    cases parentReq with
    | none => simp
    | some q =>
      simp only [Option.some.injEq]
      split
      · rename_i hmem
        refine ⟨Or.inr, ?_⟩
        rintro (rfl | hp)
        · exact hmem
        · exact hp
      · rw [List.mem_append, List.mem_singleton, or_comm, eq_comm]

/-! ### Aborts -/

/-- The requests of an abort that are left at its end: none. -/
theorem of_aborting (h : Aborting cfg fanOuts s []) : Indexed fanOuts s := by
  refine ⟨h.wired, h.full, h.listed, fun p => ⟨fun hp => ?_, ?_⟩⟩
  · obtain ⟨c, st, hst, hparent, -⟩ := (h.needed p hp).resolve_left List.not_mem_nil
    exact ⟨c, st, hst, hparent⟩
  · rintro ⟨id, st, hst, hp⟩
    exact h.registered id st p hst hp

/-- An abort by internal ids. -/
theorem abortInternal {r : FrontendRun X} {ids : List ReqId} (h : Indexed r.fanOuts r.processor)
    (hkeeps : FrontendRun.KeepsIndexes cfg r (.abortInternal ids)) :
    ∃ a, OutputProcessor.abortInternal cfg recursionLimit r.processor ids = .ok a ∧
      Indexed r.fanOuts a.1 := by
  obtain ⟨hpairwise, habortable, hspared, hannounces⟩ := hkeeps
  obtain ⟨s₁, hs₁, hframe⟩ := run_unlist_ok h.listed (fun _ _ _ _ => List.not_mem_nil)
    (hpairwise.imp fun hab st hst => (hab st hst).1)
  have hlisted := (h.listed.run_unlist hs₁).1
  have hstates : s₁.requestStates = r.processor.requestStates := by rw [hframe]
  have hregistered : s₁.parentRequests = r.processor.parentRequests := by rw [hframe]
  have haborting : Aborting cfg r.fanOuts s₁ ids := by
    refine ⟨h.wired.congr hstates (by rw [hframe]) fun p hp => hregistered ▸ hp,
      h.full.congr (by rw [hframe]), by simpa using hlisted, ?_, ?_, ?_, ?_, ?_⟩
    · rw [hstates, hregistered]
      exact fun id st p hst hp => (h.registered p).mpr ⟨id, st, hst, hp⟩
    · rw [hstates, hregistered]
      intro p hp
      by_cases hmem : p ∈ ids
      · exact Or.inl hmem
      · obtain ⟨c, hc, hsome, hnot⟩ := hspared p hp hmem
        obtain ⟨st, hst⟩ := Option.isSome_iff_exists.mp hsome
        obtain ⟨f, hf⟩ := Option.isSome_iff_exists.mp (h.wired.registered p hp)
        exact Or.inr ⟨c, st, hst, h.wired.parentReq_of_mem hf hc hst, hnot⟩
    · rw [hregistered]
      exact habortable
    · rw [hstates]
      exact hpairwise.imp fun hab st hst => (hab st hst).2
    · rw [hstates]
      exact hannounces
  obtain ⟨a, ha, hend⟩ := haborting.abortEach_ok 998
  exact ⟨a, bind_ok_iff.mpr ⟨s₁, hs₁, ha⟩, of_aborting hend⟩

/-- An abort by external ids. -/
theorem abortExternal {r : FrontendRun X} {ids : List ExternalId}
    (h : Indexed r.fanOuts r.processor)
    (hkeeps : FrontendRun.KeepsIndexes cfg r (.abortExternal ids)) :
    ∃ a, OutputProcessor.abortExternal cfg r.processor ids = .ok a ∧ Indexed r.fanOuts a.1 := by
  obtain ⟨hspared, hannounces⟩ := hkeeps
  have hframe := popExternal_frame r.processor ids
  have hstates : (popExternal r.processor ids).2.requestStates = r.processor.requestStates := by
    rw [hframe]
  have hregistered : (popExternal r.processor ids).2.parentRequests =
      r.processor.parentRequests := by rw [hframe]
  have hlive : ∀ id ∈ (popExternal r.processor ids).1, ∃ st ext,
      r.processor.requestStates.get? id = some st ∧ st.externalReqId = ext ∧ ext ∈ ids ∧
        id ∈ GroupIndex.members r.processor.externalReqIds ext := by
    intro id hid
    obtain ⟨ext, hext, hmem⟩ := mem_popExternal hid
    obtain ⟨st, hst, heq⟩ := h.listed.live_of_mem hmem
    exact ⟨st, ext, hst, heq, hext, hmem⟩
  have haborting : Aborting cfg r.fanOuts (popExternal r.processor ids).2
      (popExternal r.processor ids).1 := by
    refine ⟨h.wired.congr hstates (by rw [hframe]) fun p hp => hregistered ▸ hp,
      h.full.congr (by rw [hframe]), by simpa using h.listed.popExternal, ?_, ?_, ?_, ?_, ?_⟩
    · rw [hstates, hregistered]
      exact fun id st p hst hp => (h.registered p).mpr ⟨id, st, hst, hp⟩
    · rw [hstates, hregistered]
      intro p hp
      obtain ⟨c, st, hst, hparent⟩ := (h.registered p).mp hp
      refine Or.inr ⟨c, st, hst, hparent, fun hc => ?_⟩
      obtain ⟨st', ext, hst', heq, hext, -⟩ := hlive c hc
      obtain rfl := Option.some.inj (hst.symm.trans hst')
      obtain ⟨f, -, hchild⟩ := h.wired.child c st p hst hparent
      rw [← heq, hchild.external] at hext
      exact hspared p hp hext
    · rw [hregistered]
      intro p hp hmem
      obtain ⟨st, ext, hst, -⟩ := hlive p hmem
      obtain ⟨f, hf⟩ := Option.isSome_iff_exists.mp (h.wired.registered p hp)
      exact (h.wired.parent_not_live hf hst).elim
    · rw [hstates]
      refine List.pairwise_of_forall_mem_list fun a ha b _ st hst hp => ?_
      obtain ⟨st', ext, hst', -⟩ := hlive a ha
      obtain ⟨f, hf, -⟩ := h.wired.child b st a hst hp
      exact h.wired.parent_not_live hf hst'
    · rw [hstates]
      intro id hid st hst
      obtain ⟨_, ext, -, -, hext, hmem⟩ := hlive id hid
      exact hannounces ext hext id hmem st hst
  obtain ⟨a, ha, hend⟩ := haborting.abortEach_ok 999
  exact ⟨a, ha, of_aborting hend⟩

end Indexed

/-! ## Runs -/

namespace FrontendRun

variable {cfg : ProcessorConfig X} {r : FrontendRun X}

/-- Another output waits, or none. -/
theorem full_update {s : OutputProcessor X} (h : PendingFull s) (q : ReqId)
    {collector : RequestOutputCollector} (hnone : collector.output = none) :
    ∀ q' o, (Function.update s.collectors q collector q').output = some o → Full o := by
  intro q' o ho
  rw [Function.update_apply] at ho
  split at ho
  · rw [hnone] at ho
    cases ho
  · exact h q' o ho

/-- A call that keeps the indexes in step returns with indexes that agree. -/
theorem indexed_apply {call : FrontendCall} (h : Indexed r.fanOuts r.processor)
    (hproper : Proper r call) (hrequested : Requested r call) (hkeeps : KeepsIndexes cfg r call) :
    ∃ r', r.apply cfg call = .ok r' ∧ Indexed r'.fanOuts r'.processor := by
  cases call with
  | newQueue queue outputKind =>
    exact ⟨_, rfl, h.wired.congr rfl rfl fun _ hp => hp, full_update h.full queue rfl,
      h.listed.of_states rfl rfl, h.registered⟩
  | addRequest request prompt queue =>
    cases hst : r.processor.requestStates.get? request.requestId with
    | none =>
      obtain ⟨s', hs'⟩ : ∃ s', r.processor.addRequest cfg request prompt none 0 queue = .ok s' := by
        simp only [OutputProcessor.addRequest, hst]
        exact ⟨_, rfl⟩
      have hr : r.apply cfg (.addRequest request prompt queue) =
          .ok { r with processor := s' } := bind_ok_iff.mpr ⟨s', hs', rfl⟩
      exact ⟨_, hr, Indexed.added h.full h.listed h.registered hst hs'
        (wired_apply h.wired hproper hr)⟩
    | some st =>
      obtain ⟨s', hs', h'⟩ := Indexed.updateStreamingRequestState request prompt h hst
        (h.wired.parentReq_eq_none hst hproper.2.1)
      refine ⟨_, bind_ok_iff.mpr ⟨s', ?_, rfl⟩, h'⟩
      simp only [OutputProcessor.addRequest, hst]
      exact hs'
  | startFanOut request prompt queue =>
    obtain ⟨params, hparams⟩ := Option.isSome_iff_exists.mp hrequested
    obtain ⟨r', hr⟩ : ∃ r', r.apply cfg (.startFanOut request prompt queue) = .ok r' := by
      simp only [apply, startFanOut, hparams]
      exact ⟨_, rfl⟩
    refine ⟨r', hr, wired_apply h.wired hproper hr, ?_, owed_apply h.listed h.wired hproper hr, ?_⟩
    · simp only [apply, startFanOut, hparams] at hr
      cases hr
      cases queue with
      | none => exact h.full
      | some q => exact full_update h.full q rfl
    · simp only [apply, startFanOut, hparams] at hr
      cases hr
      exact h.registered
  | addChild p =>
    cases hf : r.fanOuts p with
    | none =>
      refine ⟨r, ?_, h⟩
      simp only [apply, addChild, hf]
    | some f =>
      by_cases hlt : f.next < (r.processor.parents p).samplingParams.n
      · have hinfo := (isParent_getChildInfo (h.wired.parent p f hf) hlt).2.1
        have hnew : r.processor.requestStates.get?
            (f.childRequest ((r.processor.parents p).getChildInfo f.next).1).requestId = none := by
          simp only [FanOut.childRequest, hinfo, h.wired.child_new hf]
        obtain ⟨s', hs'⟩ : ∃ s', f.addChild cfg r.processor p = .ok s' := by
          simp only [FanOut.addChild, OutputProcessor.addRequest, hnew]
          exact ⟨_, rfl⟩
        have hr : r.apply cfg (.addChild p) = .ok { r with
            processor := s'
            fanOuts := Function.update r.fanOuts p (some { f with next := f.next + 1 }) } := by
          simp only [apply, addChild, hf, if_pos hlt]
          exact bind_ok_iff.mpr ⟨s', hs', rfl⟩
        refine ⟨_, hr, Indexed.added (s := { r.processor with
          parents := Function.update r.processor.parents p
            ((r.processor.parents p).getChildInfo f.next).2 }) (h.full.congr rfl)
          (h.listed.of_states rfl rfl) h.registered hnew hs' (wired_apply h.wired hproper hr)⟩
      · refine ⟨r, ?_, h⟩
        simp only [apply, addChild, hf, if_neg hlt]
  | processOutputs outputs =>
    obtain ⟨s', hrun, h'⟩ := run_total (I := Indexed r.fanOuts) (fun s output hs houtput => by
      obtain ⟨next, hnext, h'⟩ := hs.processOutput houtput.1.1 houtput.1.2 houtput.2
      exact ⟨next.1, bind_ok_iff.mpr ⟨next, hnext, rfl⟩, h'⟩) h
      (((along_of_mem hproper _).and (along_of_mem hrequested _)).and hkeeps)
    obtain ⟨processed, hprocessed, rfl⟩ := processOutputs_of_run hrun
    exact ⟨_, bind_ok_iff.mpr ⟨processed, hprocessed, rfl⟩, h'⟩
  | abortInternal ids =>
    obtain ⟨aborted, haborted, h'⟩ := h.abortInternal hkeeps
    exact ⟨_, bind_ok_iff.mpr ⟨aborted, haborted, rfl⟩, h'⟩
  | abortExternal ids =>
    obtain ⟨aborted, haborted, h'⟩ := h.abortExternal hkeeps
    exact ⟨_, bind_ok_iff.mpr ⟨aborted, haborted, rfl⟩, h'⟩
  | get queue =>
    exact ⟨_, rfl, h.wired.congr rfl rfl fun _ hp => hp, full_update h.full queue rfl,
      h.listed.of_states rfl rfl, h.registered⟩

/-- Before the first request. -/
private theorem indexed_init : Indexed (init (X := X)).fanOuts (init (X := X)).processor where
  wired := wired_init
  full _ _ ho := by cases ho
  listed := owed_init
  registered p := by simp [init, OutputProcessor.init]

/-- Every run of calls that keep the indexes in step returns, with indexes that agree. -/
theorem indexes_agree {calls : List FrontendCall}
    (hproper : Along (apply cfg) Proper init calls)
    (hrequested : Along (apply cfg) Requested init calls)
    (hkeeps : Along (apply cfg) (KeepsIndexes cfg) init calls) :
    ∃ r, run (apply cfg) init calls = .ok r ∧ IndexesAgree r.processor := by
  obtain ⟨r, hrun, h⟩ := run_total
    (I := fun r : FrontendRun X => Indexed r.fanOuts r.processor)
    (fun r call h hcall => indexed_apply h hcall.1.1 hcall.1.2 hcall.2) indexed_init
    ((hproper.and hrequested).and hkeeps)
  exact ⟨r, hrun, h.indexesAgree⟩

end FrontendRun

/-- A request is aborted twice in one call. -/
def abortedTwice : List FrontendCall :=
  [.addRequest ⟨.request 2, 2, [5], some ⟨1, .delta⟩, .finalOnly, false⟩ none (some (.request 2)),
    .abortInternal [.request 2, .request 2]]

/-- Two completions are aborted by their external id. -/
def abortedByExternalId : List FrontendCall :=
  [startPair (some (.request 1)), .addChild (.request 1), .addChild (.request 1),
    .abortExternal [1]]

/-- Without a collector, a child is aborted, and the other one ends. -/
def abortedChild : List FrontendCall :=
  [startPair none, .addChild (.request 1), .addChild (.request 1),
    .abortInternal [.child 0 (.request 1)], endChild 1 8]

/-- The first abort raises an exception, and in the other runs the parent stays registered. -/
theorem aborts_break_indexes :
    (∀ calls ∈ [abortedTwice, abortedByExternalId, abortedChild],
      Along (FrontendRun.apply plainConfig) FrontendRun.Proper FrontendRun.init calls ∧
      Along (FrontendRun.apply plainConfig) FrontendRun.Requested FrontendRun.init calls) ∧
    (∀ r, run (FrontendRun.apply plainConfig) FrontendRun.init abortedTwice ≠ .ok r) ∧
    (∃ r, run (FrontendRun.apply plainConfig) FrontendRun.init abortedByExternalId = .ok r ∧
      ¬ IndexesAgree r.processor) ∧
    ∃ r, run (FrontendRun.apply plainConfig) FrontendRun.init abortedChild = .ok r ∧
      ¬ IndexesAgree r.processor := by
  have hleak {calls : List FrontendCall} (heval : (do
      let r ← run (FrontendRun.apply plainConfig) FrontendRun.init calls
      ensure (ReqId.request 1 ∈ r.processor.parentRequests) .assertionError
      ensure (r.processor.requestStates.entries.isEmpty = true) .assertionError) = .ok ()) :
      ∃ r, run (FrontendRun.apply plainConfig) FrontendRun.init calls = .ok r ∧
        ¬ IndexesAgree r.processor := by
    simp only [bind_ok_iff, ensure_eq_ok, List.isEmpty_iff, Dict.entries_eq_nil_iff] at heval
    obtain ⟨r, hrun, _, hmem, hnone⟩ := heval
    refine ⟨r, hrun, fun hagree => ?_⟩
    obtain ⟨id, st, hst, -⟩ := (hagree.registered _).mp hmem
    rw [hnone id] at hst
    cases hst
  have hraises : (run (FrontendRun.apply plainConfig) FrontendRun.init
      abortedTwice).toOption.isNone = true := by decide
  refine ⟨by decide, fun r hr => ?_, hleak ?_, hleak ?_⟩
  · rw [hr] at hraises
    cases hraises
  · decide
  · decide

/-- A streaming input is updated and aborted, and a request for two completions is aborted behind
the end of its first child. -/
def abortedParent : List FrontendCall :=
  [.addRequest ⟨.request 2, 2, [5], some ⟨1, .delta⟩, .finalOnly, true⟩ none (some (.request 2)),
    .addRequest ⟨.request 2, 2, [6], some ⟨1, .delta⟩, .finalOnly, true⟩ none none,
    startPair (some (.request 1)), .addChild (.request 1), .addChild (.request 1),
    .processOutputs [{ requestId := .request 2, newTokenIds := [7], finishReason := some .length },
      { requestId := .child 0 (.request 1), newTokenIds := [7], finishReason := some .stop },
      { requestId := .request 3, newTokenIds := [7] }],
    .abortInternal [.request 1, .request 3, .request 3], .abortExternal [2, 2]]

/-- There the indexes agree. -/
theorem abortedParent_agrees :
    ∃ r, run (FrontendRun.apply plainConfig) FrontendRun.init abortedParent = .ok r ∧
      IndexesAgree r.processor :=
  FrontendRun.indexes_agree (by decide) (by decide) (by decide)

end Vllm.Frontend
