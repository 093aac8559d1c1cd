import Vllm.Frontend.ChildRequests

/-!
# The index of external ids

The processor lists every request that is there under its external id, and no other. While
requests are aborted, those that will be freed have left the index already.
-/

namespace Vllm.Frontend

open Checked OutputProcessor

variable {X : Type}

/-- The index lists the requests that are there, but for those that are owed. -/
def Owed (s : OutputProcessor X) (owed : List ReqId) : Prop :=
  GroupIndex.Lists s.externalReqIds fun id =>
    if id ∈ owed then none else (s.requestStates.get? id).map (·.externalReqId)

namespace Owed

variable {cfg : ProcessorConfig X} {fanOuts : ReqId → Option FanOut} {s s' : OutputProcessor X}
  {owed : List ReqId}

/-- The same requests are there, or owed. -/
theorem congr {owed' : List ReqId} (h : Owed s owed)
    (hlists : s'.externalReqIds = s.externalReqIds)
    (hgroup : ∀ id, (if id ∈ owed' then none else
        (s'.requestStates.get? id).map (·.externalReqId)) =
      if id ∈ owed then none else (s.requestStates.get? id).map (·.externalReqId)) :
    Owed s' owed' := by
  unfold Owed
  rw [hlists, funext hgroup]
  exact h

/-- Requests that stay. -/
theorem of_states (h : Owed s owed) (hlists : s'.externalReqIds = s.externalReqIds)
    (hstates : s'.requestStates = s.requestStates) : Owed s' owed :=
  h.congr hlists fun id => by rw [hstates]

/-- What is listed is there. -/
theorem live_of_mem {id : ReqId} {ext : ExternalId} (h : Owed s owed)
    (hid : id ∈ GroupIndex.members s.externalReqIds ext) :
    ∃ st, s.requestStates.get? id = some st ∧ st.externalReqId = ext := by
  have hlisted := (h.mem_iff ext id).mp hid
  split at hlisted
  · cases hlisted
  · exact Option.map_eq_some_iff.mp hlisted

/-- A request that stays, behind an output or an update. -/
theorem written {st st' : RequestState X} (h : Owed s owed)
    (hst : s.requestStates.get? st.requestId = some st) (hsame : SameRequest st st')
    (hlists : s'.externalReqIds = s.externalReqIds)
    (hstates : ∀ id, s'.requestStates.get? id =
      if id = st.requestId then some st' else s.requestStates.get? id) : Owed s' owed := by
  refine h.congr hlists fun id => ?_
  rw [hstates]
  by_cases hid : id = st.requestId
  · rw [if_pos hid, hid, hst, Option.map_some, Option.map_some, hsame.externalReqId]
  · rw [if_neg hid]

/-- A request that is freed. -/
theorem freed {st : RequestState X} (h : Owed s [])
    (hst : s.requestStates.get? st.requestId = some st) (hfreed : Freed s st s') : Owed s' [] := by
  unfold Owed at h ⊢
  rw [hfreed.external]
  have hremove := h.remove (a := st.requestId) (k := st.externalReqId) (by simp [hst])
  convert hremove using 1
  funext id
  rw [hfreed.states, Function.update_apply]
  by_cases hid : id = st.requestId
  · simp [hid]
  · simp [hid]

/-- A request that is added. -/
theorem added {request : EngineCoreRequest} {prompt : Option String} {parentReq : Option ReqId}
    {index : Nat} {queue : Option ReqId} (h : Owed s [])
    (hnew : s.requestStates.get? request.requestId = none)
    (hs' : s.addRequest cfg request prompt parentReq index queue = .ok s') : Owed s' [] := by
  simp only [addRequest, hnew] at hs'
  cases hs'
  unfold Owed at h ⊢
  have happend := h.append (a := request.requestId) (by simp [hnew]) request.externalReqId
  convert happend using 1
  funext id
  simp only [Dict.get?_insert, Function.update_apply]
  by_cases hid : id = request.requestId
  · rw [if_pos hid, if_pos hid]
    simp [RequestState.fromNewRequest]
  · rw [if_neg hid, if_neg hid]

/-- An update of a streaming input. -/
theorem updated {st : RequestState X} (h : Owed s [])
    (hst : s.requestStates.get? st.requestId = some st) (hupdated : Updated s st s') :
    Owed s' [] := by
  cases hupdated with
  | written st' hsame hs' =>
    refine h.written hst hsame (by rw [hs']) fun id => ?_
    rw [hs', Dict.get?_insert]
  | freed hfreed hparents hcollectors => exact h.freed hst hfreed

/-- An output that is processed. -/
theorem processOutput {output : EngineCoreOutput} {r : OutputProcessor X × ProcessedOutputs}
    (h : Owed s []) (hw : Wired fanOuts s) (hkind : OfKind output)
    (hr : s.processOutput cfg output = .ok r) : Owed r.1 [] := by
  cases hst : s.requestStates.get? output.requestId with
  | none =>
    simp only [OutputProcessor.processOutput, hst] at hr
    cases hr
    exact h
  | some st =>
    have hkey := hw.keyed _ st hst
    have hprocessed := processed_of_processOutput hst hkey (hw.kind_of_child hst hkind) hr
    rw [← hkey] at hst
    by_cases hstays : finishReasonOf cfg st output = none ∨ st.streamingInput = true
    · obtain ⟨st', hsame, -, hstates, -, hlists⟩ := hprocessed.stays hstays
      exact h.written hst hsame hlists hstates
    · rw [not_or] at hstays
      exact h.freed hst (hprocessed.leaves hstays.1 (by simpa using hstays.2))

/-! ## Aborts -/

/-- Leaving the index. -/
theorem unlist {id : ReqId} (h : Owed s owed) (hs' : s.unlistInternal id = .ok s') :
    Owed s' (id :: owed) ∧ s'.requestStates = s.requestStates := by
  unfold unlistInternal at hs'
  split at hs'
  · rename_i st hst
    obtain ⟨hmem, rfl⟩ := unlist_eq_ok.mp hs'
    refine ⟨?_, rfl⟩
    unfold Owed at h ⊢
    convert h.remove ((h.mem_iff _ _).mp hmem) using 1
    funext id'
    rw [Function.update_apply]
    by_cases hid : id' = id
    · simp [hid]
    · simp [hid]
  · rename_i hst
    cases hs'
    refine ⟨h.congr rfl fun id' => ?_, rfl⟩
    by_cases hid : id' = id
    · simp [hid, hst]
    · simp [hid]

theorem run_unlist {ids : List ReqId} (h : Owed s owed) (hs' : run unlistInternal s ids = .ok s') :
    Owed s' (ids ++ owed) ∧ s'.requestStates = s.requestStates := by
  induction ids generalizing s owed with
  | nil =>
    cases hs'
    exact ⟨h, rfl⟩
  | cons id ids ih =>
    obtain ⟨s₁, hs₁, hs'⟩ := bind_ok_iff.mp hs'
    obtain ⟨h₁, hstates₁⟩ := h.unlist hs₁
    obtain ⟨h₂, hstates₂⟩ := ih h₁ hs'
    refine ⟨h₂.congr rfl fun id' => ?_, hstates₂.trans hstates₁⟩
    have hmem : id' ∈ id :: ids ++ owed ↔ id' ∈ ids ++ id :: owed := by
      simp only [List.cons_append, List.mem_cons, List.mem_append]
      tauto
    simp only [hmem]

/-- The second loop frees what is owed. -/
theorem abortEach {abortChildren : OutputProcessor X → List ReqId →
      Except ProcessorError (OutputProcessor X × List ReqId)}
    (hchildren : ∀ s ids owed r, Owed s owed → abortChildren s ids = .ok r → Owed r.1 owed)
    {ids : List ReqId} {r : OutputProcessor X × List ReqId} (h : Owed s (ids ++ owed))
    (hr : OutputProcessor.abortEach cfg abortChildren s ids = .ok r) : Owed r.1 owed := by
  induction ids generalizing s r with
  | nil =>
    cases hr
    exact h
  | cons id ids ih =>
    obtain ⟨first, hfirst, hr⟩ := bind_ok_iff.mp hr
    obtain ⟨rest, hrest, hr⟩ := bind_ok_iff.mp hr
    cases hr
    show Owed rest.1 owed
    refine ih ?_ hrest
    -- a request that is not there is not owed
    have hdrop {s : OutputProcessor X} (h : Owed s (id :: ids ++ owed))
        (hst : s.requestStates.get? id = none) : Owed s (ids ++ owed) := by
      refine h.congr rfl fun id' => ?_
      by_cases hid : id' = id
      · simp [hid, hst]
      · simp [hid]
    unfold abortOne at hfirst
    split at hfirst
    · rename_i st hst
      obtain ⟨s₁, hs₁, hfirst⟩ := bind_ok_iff.mp hfirst
      cases hfirst
      obtain ⟨hstates, hlists⟩ := abortState_frame hs₁
      refine h.congr hlists fun id' => ?_
      rw [hstates, Dict.get?_erase]
      by_cases hid : id' = id
      · simp [hid]
      · simp [hid]
    · rename_i hst
      split at hfirst
      · obtain ⟨aborted, haborted, hfirst⟩ := bind_ok_iff.mp hfirst
        cases hfirst
        refine Owed.of_states ?_ rfl rfl (s := aborted.1)
        unfold abortParent at haborted
        split at haborted
        · cases haborted
          exact hdrop h hst
        · exact hchildren s _ _ _ (hdrop h hst) haborted
      · cases hfirst
        exact hdrop h hst

/-- `abort_requests` owes nothing in the end. -/
theorem abortInternal {depth : Nat} {ids : List ReqId} {r : OutputProcessor X × List ReqId}
    (h : Owed s owed) (hr : OutputProcessor.abortInternal cfg depth s ids = .ok r) :
    Owed r.1 owed := by
  induction depth generalizing s owed ids r with
  | zero => cases hr
  | succ depth ih =>
    obtain ⟨s₁, hs₁, hr⟩ := bind_ok_iff.mp hr
    exact abortEach (fun s ids owed r hs hr => ih hs hr) (h.run_unlist hs₁).1 hr

theorem popExternal {ids : List ExternalId} (h : Owed s owed) :
    Owed (OutputProcessor.popExternal s ids).2
      ((OutputProcessor.popExternal s ids).1 ++ owed) := by
  induction ids generalizing s owed with
  | nil => exact h
  | cons ext ids ih =>
    have herased : Owed { s with externalReqIds := s.externalReqIds.erase ext }
        (GroupIndex.members s.externalReqIds ext ++ owed) := by
      unfold Owed at h ⊢
      convert h.erase ext using 1
      funext id
      simp only [List.mem_append, h.mem_iff]
      by_cases howed : id ∈ owed
      · simp [howed]
      · simp [howed]
    refine (ih herased).congr rfl fun id => ?_
    have hmem : id ∈ (OutputProcessor.popExternal s (ext :: ids)).1 ++ owed ↔
        id ∈ (OutputProcessor.popExternal { s with
          externalReqIds := s.externalReqIds.erase ext } ids).1 ++
            (GroupIndex.members s.externalReqIds ext ++ owed) := by
      simp only [OutputProcessor.popExternal, List.mem_append]
      tauto
    simp only [hmem]
    rfl

/-- By external ids, too. -/
theorem abortExternal {ids : List ExternalId} {r : OutputProcessor X × List ReqId}
    (h : Owed s owed) (hr : OutputProcessor.abortExternal cfg s ids = .ok r) : Owed r.1 owed :=
  abortEach (fun _ _ _ _ hs hr => hs.abortInternal hr) h.popExternal hr

end Owed

namespace FrontendRun

variable {cfg : ProcessorConfig X} {r r' : FrontendRun X}

/-- Every call that returns keeps the index. -/
theorem owed_apply {call : FrontendCall} (h : Owed r.processor [])
    (hw : Wired r.fanOuts r.processor) (hproper : Proper r call)
    (hr : r.apply cfg call = .ok r') : Owed r'.processor [] := by
  cases call with
  | newQueue queue outputKind =>
    cases hr
    exact h.of_states rfl rfl
  | addRequest request prompt queue =>
    obtain ⟨s', hs', hr⟩ := bind_ok_iff.mp hr
    cases hr
    cases hst : r.processor.requestStates.get? request.requestId with
    | none => exact h.added hst hs'
    | some st =>
      simp only [OutputProcessor.addRequest, hst] at hs'
      refine h.updated ?_ (updated_of_updateStreamingRequestState hs')
      rw [hw.keyed _ st hst]
      exact hst
  | startFanOut request prompt queue =>
    simp only [apply, startFanOut] at hr
    split at hr
    · cases hr
    · cases hr
      exact h.of_states rfl rfl
  | addChild p =>
    simp only [apply, addChild] at hr
    split at hr
    · cases hr
      exact h
    · rename_i f hf
      split at hr
      · rename_i hlt
        obtain ⟨s', hs', hr⟩ := bind_ok_iff.mp hr
        cases hr
        have hinfo := (isParent_getChildInfo (hw.parent p f hf) hlt).2.1
        refine Owed.added (s := { r.processor with
          parents := Function.update r.processor.parents p
            ((r.processor.parents p).getChildInfo f.next).2 }) (h.of_states rfl rfl) ?_ hs'
        simp only [FanOut.childRequest, hinfo, hw.child_new hf]
      · cases hr
        exact h
  | processOutputs outputs =>
    obtain ⟨processed, hprocessed, hr⟩ := bind_ok_iff.mp hr
    cases hr
    refine (run_invariant (I := fun s => Wired r.fanOuts s ∧ Owed s [])
      (fun s output s' hs houtput hs' => ?_) ⟨hw, h⟩ (along_of_mem hproper _)
      (run_processNext hprocessed)).2
    obtain ⟨next, hnext, hs'⟩ := bind_ok_iff.mp hs'
    cases hs'
    exact ⟨hs.1.processOutput houtput hnext, hs.2.processOutput hs.1 houtput hnext⟩
  | abortInternal ids =>
    obtain ⟨aborted, haborted, hr⟩ := bind_ok_iff.mp hr
    cases hr
    exact h.abortInternal haborted
  | abortExternal ids =>
    obtain ⟨aborted, haborted, hr⟩ := bind_ok_iff.mp hr
    cases hr
    exact h.abortExternal haborted
  | get queue =>
    cases hr
    exact h.of_states rfl rfl

/-- Before the first request. -/
theorem owed_init : Owed (init (X := X)).processor [] := by
  have hgroup : (fun id : ReqId => if id ∈ ([] : List ReqId) then none else
      ((init (X := X)).processor.requestStates.get? id).map (·.externalReqId)) =
      fun _ => none := by
    funext id
    simp [init, OutputProcessor.init]
  unfold Owed
  rw [hgroup]
  exact GroupIndex.lists_empty

end FrontendRun

end Vllm.Frontend
