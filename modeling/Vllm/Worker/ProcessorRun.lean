import Vllm.Worker.LogitsProcessors

/-!
# Logits processors in runs of the batch

What the update of a step says, replayed on the table of a processor, turns the contents of the
batch before the step into those behind it. While the step goes on, this holds at every index
but those that are still to be refilled.
-/

namespace Vllm.Worker

open Checked InputBatch Slots

variable {F T V : Type}

/-- The table entry that a request asks for. -/
def CachedRequestState.asked (newState : NewState F V) (r : CachedRequestState F) : Option V :=
  r.samplingParams.map fun params => newState params r.promptTokenIds r.outputTokenIds

/-! ## The contents of the batch -/

/-- What the request at an index asks for. -/
def BatchRun.content (newState : NewState F V) (empty : V) (s : BatchRun F) (i : Nat) : V :=
  (((s.batch.reqIds[i]?.join).bind s.requests).bind (·.asked newState)).getD empty

/-- The requests of the batch have been added with sampling parameters. -/
def BatchRun.Known (s : BatchRun F) : Prop :=
  ∀ (i : Nat) (id : RequestId), s.batch.reqIds[i]? = some (some id) →
    ∃ r params, s.requests id = some r ∧ r.samplingParams = some params

namespace BatchRun

variable {newState : NewState F V} {empty : V} {s s' : BatchRun F} {i j : Nat}

private theorem content_of_id {id : RequestId} (h : s.batch.reqIds[i]? = some (some id)) :
    s.content newState empty i = ((s.requests id).bind (·.asked newState)).getD empty := by
  simp [content, h]

private theorem content_of_none (h : ∀ id, s.batch.reqIds[i]? ≠ some (some id)) :
    s.content newState empty i = empty := by
  unfold content
  cases hi : s.batch.reqIds[i]? with
  | none => rfl
  | some oid =>
    cases oid with
    | none => rfl
    | some id => exact absurd hi (h id)

/-- The contents are told by the ids. -/
theorem content_congr (hids : ∀ id : RequestId, s.batch.reqIds[i]? = some (some id) ↔
      s'.batch.reqIds[j]? = some (some id))
    (hrequests : ∀ id : RequestId, s.batch.reqIds[i]? = some (some id) →
      s.requests id = s'.requests id) :
    s.content newState empty i = s'.content newState empty j := by
  by_cases h : ∃ id : RequestId, s.batch.reqIds[i]? = some (some id)
  · obtain ⟨id, hid⟩ := h
    rw [content_of_id hid, content_of_id ((hids id).mp hid), hrequests id hid]
  · rw [content_of_none fun id hid => h ⟨id, hid⟩,
      content_of_none fun id hid => h ⟨id, (hids id).mpr hid⟩]

end BatchRun

/-! ## The update while a step goes on -/

/-- The requests that a call adds are of some kind. -/
def BatchCall.Asks (ok : SamplingParams F → Prop) : BatchCall F → Prop
  | .addRequest r => ∀ params ∈ r.samplingParams, ok params
  | _ => True

/-- The requests that a step adds are of some kind. -/
def BatchStep.Asks (ok : SamplingParams F → Prop) (st : BatchStep F) : Prop :=
  ∀ e ∈ st.added, ∀ params ∈ e.1.samplingParams, ok params

instance (ok : SamplingParams F → Prop) [DecidablePred ok] (st : BatchStep F) :
    Decidable (st.Asks ok) :=
  inferInstanceAs (Decidable (∀ e ∈ st.added, ∀ params ∈ e.1.samplingParams, ok params))

theorem BatchStep.Asks.of_mem {ok : SamplingParams F → Prop} {st : BatchStep F} (h : st.Asks ok)
    {call : BatchCall F} (hcall : call ∈ st.earlyCalls) : call.Asks ok := by
  simp only [BatchStep.earlyCalls, List.mem_append, List.mem_map, List.mem_flatMap, List.mem_cons,
    List.not_mem_nil, or_false] at hcall
  rcases hcall with (⟨_, _, rfl⟩ | ⟨_, _, rfl⟩) | ⟨e, he, rfl | rfl⟩
  · trivial
  · trivial
  · exact h e he
  · trivial

/-- What the builder has so far turns the table `f` into the contents of the batch, but for the
indices that are removed. -/
structure Pending (newState : NewState F V) (empty : V) (maxNumReqs : Nat)
    (ok : SamplingParams F → Prop) (f : Nat → V) (s : BatchRun F) : Prop where
  agree : ∀ i, i ∉ s.batch.batchUpdateBuilder.removedIndices →
    moves empty (writes f (s.batch.batchUpdateBuilder.added.map (·.write newState)))
      (s.batch.batchUpdateBuilder.moved.map (·.move)) i = s.content newState empty i
  avoids : ∀ m ∈ s.batch.batchUpdateBuilder.moved,
    m.move.Avoids s.batch.batchUpdateBuilder.removedIndices
  added : ∀ a ∈ s.batch.batchUpdateBuilder.added, a.index < maxNumReqs ∧ ok a.params
  moved : ∀ m ∈ s.batch.batchUpdateBuilder.moved, m.Proper ∧ m.adx < maxNumReqs ∧ m.bdx < maxNumReqs
  length_le : s.batch.reqIds.length ≤ maxNumReqs
  known : s.Known

/-- Popping a removed index leaves the rest of the update. -/
theorem popRemoved_added (u : BatchUpdateBuilder F) :
    u.popRemoved.2.added = u.added ∧ u.popRemoved.2.moved = u.moved := by
  unfold BatchUpdateBuilder.popRemoved BatchUpdateBuilder.ensureRemovedSorted
  split_ifs <;> exact ⟨rfl, rfl⟩

private theorem ensureRemovedSorted_added (u : BatchUpdateBuilder F) :
    u.ensureRemovedSorted.added = u.added ∧ u.ensureRemovedSorted.moved = u.moved := by
  unfold BatchUpdateBuilder.ensureRemovedSorted
  split_ifs <;> exact ⟨rfl, rfl⟩

namespace Pending

variable {newState : NewState F V} {empty : V} {f : Nat → V} {s s' : BatchRun F}
  {cfg : BatchConfig} {ok : SamplingParams F → Prop}

/-- With a new builder nothing is pending. -/
theorem of_new (hnew : s.batch.batchUpdateBuilder = {})
    (hlength : s.batch.reqIds.length ≤ cfg.maxNumReqs) (hknown : s.Known) :
    Pending newState empty cfg.maxNumReqs ok (s.content newState empty) s := by
  refine ⟨fun i _ => ?_, ?_, ?_, ?_, hlength, hknown⟩
  · rw [hnew]
    rfl
  · rw [hnew]
    exact fun m hm => absurd hm List.not_mem_nil
  · rw [hnew]
    exact fun a ha => absurd ha List.not_mem_nil
  · rw [hnew]
    exact fun m hm => absurd hm List.not_mem_nil

/-- Removing a request. -/
theorem removed {reqId : RequestId} {i : Nat} {b' : InputBatch F}
    (h : Pending newState empty cfg.maxNumReqs ok f s) (hmoved : s.batch.batchUpdateBuilder.moved = [])
    (hremoved : Removed cfg s.batch reqId i b') :
    Pending newState empty cfg.maxNumReqs ok f { s with batch := b' } ∧
      b'.batchUpdateBuilder.moved = [] := by
  have hget (k : Nat) (hk : k ≠ i) (id : RequestId) :
      b'.reqIds[k]? = some (some id) ↔ s.batch.reqIds[k]? = some (some id) := by
    rw [hremoved.reqIds, List.getElem?_set_ne (Ne.symm hk)]
  have hself (id : RequestId) : b'.reqIds[i]? ≠ some (some id) := by
    rw [hremoved.reqIds, List.getElem?_set]
    simp only [if_true]
    split
    · exact fun he => (by cases Option.some.inj he)
    · exact fun he => (by cases he)
  have hbuilder := hremoved.builder
  refine ⟨⟨fun k hk => ?_, ?_, ?_, ?_, ?_, fun k id hid => ?_⟩, ?_⟩
  · simp only [hbuilder, List.mem_append, List.mem_singleton, not_or] at hk
    simp only [hbuilder]
    rw [h.agree k hk.1]
    symm
    exact BatchRun.content_congr (fun id => hget k hk.2 id) fun _ _ => rfl
  · simp only [hbuilder, hmoved]
    exact fun m hm => absurd hm (List.not_mem_nil)
  · simp only [hbuilder]
    exact h.added
  · simp only [hbuilder]
    exact h.moved
  · simp only [hremoved.reqIds, List.length_set]
    exact h.length_le
  · have hk : k ≠ i := by
      rintro rfl
      exact hself id hid
    exact h.known k id ((hget k hk id).mp hid)
  · simp only [hbuilder, hmoved]

/-- Adding a request. -/
theorem added_request [SinglePrecision F] {r : CachedRequestState F} {b' : InputBatch F}
    (h : Pending newState empty cfg.maxNumReqs ok f s) (hmoved : s.batch.batchUpdateBuilder.moved = [])
    (hb : s.batch.Layout) (hpool : cfg.isPoolingModel = false)
    (hproper : BatchRun.Proper cfg s (.addRequest r)) (hok : (BatchCall.addRequest r).Asks ok)
    (hadded : Added cfg s.batch r b') (accepted : RequestId → Nat) :
    Pending newState empty cfg.maxNumReqs ok f
        ⟨b', Function.update s.requests r.reqId (some r), accepted⟩ ∧
      b'.batchUpdateBuilder.moved = [] := by
  obtain ⟨hnew, hkind⟩ := hproper
  obtain ⟨params, hparams⟩ : ∃ params, r.samplingParams = some params := by
    rw [hpool] at hkind
    exact Option.isSome_iff_exists.mp hkind
  obtain ⟨hle, hfree, hmem⟩ := hb.nextIndex
  have hids (k : Nat) := getElem?_placeAt hle (some r.reqId) k
  obtain ⟨hpopAdded, hpopMoved⟩ := popRemoved_added s.batch.batchUpdateBuilder
  have hbuilder := hadded.builder
  rw [hparams] at hbuilder
  simp only [hpopAdded] at hbuilder
  -- the other requests have other ids
  have hother (k : Nat) (id : RequestId) (hid : s.batch.reqIds[k]? = some (some id)) :
      s.requests id = Function.update s.requests r.reqId (some r) id := by
    rw [Function.update_of_ne]
    rintro rfl
    rw [(hb.indexed k r.reqId).mp hid] at hnew
    cases hnew
  have hasked : r.asked newState = some (newState params r.promptTokenIds r.outputTokenIds) := by
    rw [CachedRequestState.asked, hparams]
    rfl
  refine ⟨⟨fun k hk => ?_, ?_, ?_, ?_, ?_, fun k id hid => ?_⟩, ?_⟩
  · simp only [hbuilder, hmem, not_and, not_not] at hk
    simp only [hbuilder, hpopMoved, hmoved, List.map_nil, List.map_append, List.map_cons,
      writes_append]
    show Function.update _ s.batch.nextIndex _ k = _
    by_cases hnext : k = s.batch.nextIndex
    · subst hnext
      have hid : b'.reqIds[s.batch.nextIndex]? = some (some r.reqId) := by
        rw [hadded.reqIds, hids, if_pos rfl]
      rw [Function.update_self, BatchRun.content_of_id hid]
      simp only [Function.update_self, Option.bind_some, hasked, Option.getD_some,
        AddedRequest.write]
    · have hagree := h.agree k fun hremoved => hnext (hk hremoved)
      rw [hmoved] at hagree
      rw [Function.update_of_ne hnext]
      refine hagree.trans (BatchRun.content_congr (fun id => ?_) fun id hid => hother k id hid)
      simp only [hadded.reqIds, hids, if_neg hnext]
  · simp only [hbuilder, hpopMoved, hmoved]
    exact fun m hm => absurd hm (List.not_mem_nil)
  · simp only [hbuilder, List.mem_append, List.mem_singleton]
    rintro a (ha | rfl)
    · exact h.added a ha
    · exact ⟨hadded.index_lt, hok params hparams⟩
  · simp only [hbuilder, hpopMoved]
    exact h.moved
  · have hlt := hadded.index_lt
    have hlength := h.length_le
    simp only [hadded.reqIds, placeAt]
    split
    · rw [List.length_append, List.length_singleton]
      omega
    · rw [List.length_set]
      exact hlength
  · simp only [hadded.reqIds, hids] at hid
    by_cases hnext : k = s.batch.nextIndex
    · rw [if_pos hnext] at hid
      cases hid
      exact ⟨r, params, Function.update_self _ _ _, hparams⟩
    · rw [if_neg hnext] at hid
      obtain ⟨r', params', hr', hparams'⟩ := h.known k id hid
      exact ⟨r', params', (hother k id hid).symm.trans hr', hparams'⟩
  · simp only [hbuilder, hpopMoved, hmoved]

/-- A call before `condense`. -/
theorem apply_early [SinglePrecision F] {call : BatchCall F} (h : Pending newState empty cfg.maxNumReqs ok f s)
    (hmoved : s.batch.batchUpdateBuilder.moved = []) (hb : s.batch.Layout)
    (hpool : cfg.isPoolingModel = false) (hearly : call.Early)
    (hproper : BatchRun.Proper cfg s call) (hok : call.Asks ok)
    (hcall : BatchRun.apply cfg s call = .ok s') :
    Pending newState empty cfg.maxNumReqs ok f s' ∧ s'.batch.batchUpdateBuilder.moved = [] := by
  cases call with
  | removeRequest reqId =>
    obtain ⟨batch, hbatch, hs'⟩ := bind_ok_iff.mp hcall
    cases hs'
    rcases removed_of_removeRequest hbatch with ⟨-, rfl⟩ | ⟨i, -, hremoved⟩
    · exact ⟨h, hmoved⟩
    · exact h.removed hmoved hremoved
  | addRequest r =>
    obtain ⟨batch, hbatch, hs'⟩ := bind_ok_iff.mp hcall
    cases hs'
    exact h.added_request hmoved hb hpool hproper hok (added_of_addRequest hbatch) _
  | updateReqSpecTokenIds reqId specTokenIds =>
    obtain ⟨batch, hbatch, hs'⟩ := bind_ok_iff.mp hcall
    cases hs'
    obtain ⟨tokens, lists, rfl, -⟩ := eq_of_updateReqSpecTokenIds cfg hbatch
    exact ⟨⟨h.agree, h.avoids, h.added, h.moved, h.length_le, h.known⟩, hmoved⟩
  | condense => exact hearly.elim
  | swapStates i j => exact hearly.elim
  | refreshMetadata => exact hearly.elim
  | setNumAcceptedTokens i n => exact hearly.elim

/-- A round of the loop of `condense`. -/
theorem moved_request {b b' : InputBatch F} {requests : RequestId → Option (CachedRequestState F)}
    {accepted : RequestId → Nat} {last src dst : Nat}
    (h : Pending newState empty cfg.maxNumReqs ok f ⟨b, requests, accepted⟩)
    (hc : Condensing b last) (hpool : cfg.isPoolingModel = false)
    (hnext : b.nextMove last = some (src, dst)) (hmoved : Moved cfg b src dst b') :
    Pending newState empty cfg.maxNumReqs ok f ⟨b', requests, accepted⟩ := by
  obtain ⟨hlt, -, hdst, hsrc, -, hmem, -⟩ := hc.nextMove hnext
  obtain ⟨id, hid, hids, -⟩ := hmoved.ids
  have hltSrc : src < b.reqIds.length := (List.getElem?_eq_some_iff.mp hid).1
  have hlength : b.reqIds.length ≤ cfg.maxNumReqs := h.length_le
  have hget (k : Nat) : b'.reqIds[k]? = if k = src then some none else if k = dst then
      some (some id) else b.reqIds[k]? := by
    rw [hids, List.getElem?_set, List.length_set, List.getElem?_set]
    split_ifs <;> grind
  obtain ⟨hpopAdded, hpopMoved⟩ := popRemoved_added b.batchUpdateBuilder
  have hbuilder := hmoved.builder
  simp only [hpool, Bool.false_eq_true, if_false, hpopMoved] at hbuilder
  refine ⟨fun k hk => ?_, fun m hm => ?_, ?_, fun m hm => ?_, ?_, fun k id' hid' => ?_⟩
  · simp only [hbuilder, hmem, not_and, not_not] at hk
    simp only [hbuilder, hpopAdded, List.map_append, List.map_cons, List.map_nil, moves_append]
    show (Move.slide src dst).apply empty _ k = _
    rw [Move.slide_apply]
    by_cases hkSrc : k = src
    · rw [if_pos hkSrc, BatchRun.content_of_none fun id' hid' => ?_]
      simp only [hget, if_pos hkSrc] at hid'
      cases hid'
    · rw [if_neg hkSrc]
      by_cases hkDst : k = dst
      · rw [if_pos hkDst]
        refine (h.agree src hsrc).trans (BatchRun.content_congr (fun id' => ?_) fun _ _ => rfl)
        simp only [hget, if_neg hkSrc, if_pos hkDst, hid]
      · rw [if_neg hkDst]
        refine (h.agree k fun hremoved => hkDst (hk hremoved)).trans
          (BatchRun.content_congr (fun id' => ?_) fun _ _ => rfl)
        simp only [hget, if_neg hkSrc, if_neg hkDst]
  · simp only [hbuilder, List.mem_append, List.mem_singleton] at hm ⊢
    have hfewer : ∀ i, i ∈ b.batchUpdateBuilder.popRemoved.2.removedIndices →
        i ∈ b.batchUpdateBuilder.removedIndices := fun i hi => ((hmem i).mp hi).1
    rcases hm with hm | rfl
    · exact (h.avoids m hm).mono hfewer
    · exact ⟨fun hremoved => hsrc (hfewer src hremoved),
        fun hremoved => ((hmem dst).mp hremoved).2 rfl⟩
  · simp only [hbuilder, hpopAdded]
    exact h.added
  · simp only [hbuilder, List.mem_append, List.mem_singleton] at hm
    rcases hm with hm | rfl
    · exact h.moved m hm
    · exact ⟨fun _ => by show src ≠ dst; omega, by show src < _; omega, by show dst < _; omega⟩
  · simp only [hids, List.length_set]
    exact hlength
  · simp only [hget] at hid'
    split_ifs at hid' with hkSrc hkDst
    · cases hid'
    · cases hid'
      exact h.known src id hid
    · exact h.known k id' hid'

/-- `condense`. -/
theorem condense {batch : InputBatch F} (h : Pending newState empty cfg.maxNumReqs ok f s)
    (hmoved : s.batch.batchUpdateBuilder.moved = []) (hb : s.batch.Layout)
    (hpool : cfg.isPoolingModel = false) (hcondense : s.batch.condense cfg = .ok batch) :
    Pending newState empty cfg.maxNumReqs ok f { s with batch } ∧ batch.Packed ∧
      ∀ (i : Nat) (id : RequestId), batch.reqIds[i]? = some (some id) →
        i ∉ batch.batchUpdateBuilder.removedIndices := by
  obtain ⟨hperm, -, -⟩ := hb.descending.ensureRemovedSorted
  obtain ⟨hsortAdded, hsortMoved⟩ := ensureRemovedSorted_added s.batch.batchUpdateBuilder
  have hsorted : Pending newState empty cfg.maxNumReqs ok f { s with
      batch := { s.batch with
        batchUpdateBuilder := s.batch.batchUpdateBuilder.ensureRemovedSorted } } := by
    refine ⟨fun i hi => ?_, fun m hm => ?_, ?_, ?_, h.length_le, h.known⟩
    · simp only [hperm.mem_iff] at hi
      simp only [hsortAdded, hsortMoved]
      exact h.agree i hi
    · simp only [hsortMoved, hmoved] at hm
      exact absurd hm List.not_mem_nil
    · simp only [hsortAdded]
      exact h.added
    · simp only [hsortMoved]
      exact h.moved
  have hround (n : Nat) (b b' : InputBatch F) (last src dst : Nat) (hc : Condensing b last)
      (hnext : b.nextMove last = some (src, dst)) (hmove : b.moveRequest cfg src dst = .ok b')
      (hI : Pending newState empty cfg.maxNumReqs ok f ⟨b, s.requests, s.accepted⟩) :
      Pending newState empty cfg.maxNumReqs ok f ⟨b', s.requests, s.accepted⟩ :=
    hI.moved_request hc hpool hnext (moved_of_moveRequest hmove)
  obtain ⟨b₂, hpending, hcondensed⟩ := hb.condense_rule
    (I := fun _ b _ => Pending newState empty cfg.maxNumReqs ok f ⟨b, s.requests, s.accepted⟩)
    (J := fun b => Pending newState empty cfg.maxNumReqs ok f ⟨b, s.requests, s.accepted⟩) rfl hsorted hround
    (fun _ _ _ hI => hI) hcondense
  have hbuilder : batch.batchUpdateBuilder = b₂.batchUpdateBuilder := by rw [hcondensed.rest]
  refine ⟨⟨fun i hi => ?_, ?_, ?_, ?_, ?_, fun i id hid => ?_⟩, hcondensed.packed,
    fun i id hid => ?_⟩
  · simp only [hbuilder] at hi ⊢
    refine (hpending.agree i hi).trans (BatchRun.content_congr (fun id => ?_) fun _ _ => rfl)
    exact (hcondensed.live i id).symm
  · simp only [hbuilder]
    exact hpending.avoids
  · simp only [hbuilder]
    exact hpending.added
  · simp only [hbuilder]
    exact hpending.moved
  · by_contra hlong
    have hlt : cfg.maxNumReqs < batch.reqIds.length := by simpa using hlong
    cases hid : batch.reqIds[cfg.maxNumReqs] with
    | none => exact hcondensed.packed.filled _ (by rw [List.getElem?_eq_getElem hlt, hid])
    | some id =>
      have hlive := (hcondensed.live cfg.maxNumReqs id).mp
        (by rw [List.getElem?_eq_getElem hlt, hid])
      have hlt' := (List.getElem?_eq_some_iff.mp hlive).1
      have hlength : b₂.reqIds.length ≤ cfg.maxNumReqs := hpending.length_le
      omega
  · exact hpending.known i id ((hcondensed.live i id).mp hid)
  · rw [hbuilder]
    exact hcondensed.removed i id ((hcondensed.live i id).mp hid)

/-- A swap behind `condense`. -/
theorem swap {i j : Nat} (h : Pending newState empty cfg.maxNumReqs ok f s) (hb : s.batch.Packed)
    (hlive : ∀ (i : Nat) (id : RequestId), s.batch.reqIds[i]? = some (some id) →
      i ∉ s.batch.batchUpdateBuilder.removedIndices) (hpool : cfg.isPoolingModel = false)
    {batch : InputBatch F} (hswap : s.batch.swapStates cfg i j = .ok batch) :
    Pending newState empty cfg.maxNumReqs ok f { s with batch } ∧ batch.Packed ∧
      ∀ (i : Nat) (id : RequestId), batch.reqIds[i]? = some (some id) →
        i ∉ batch.batchUpdateBuilder.removedIndices := by
  have hswapped := swapped_of_swapStates hswap
  obtain ⟨idI, idJ, -, -, hi, hj, -⟩ := hswapped.ids
  have hltI := (List.getElem?_eq_some_iff.mp hi).1
  have hltJ := (List.getElem?_eq_some_iff.mp hj).1
  have hlength : s.batch.reqIds.length ≤ cfg.maxNumReqs := h.length_le
  have hget (k : Nat) : batch.reqIds[k]? =
      if k = j then some (some idI) else if k = i then some (some idJ) else s.batch.reqIds[k]? := by
    rw [hswapped.reqIds, getElem?_swapAt hltI hltJ, hi, hj]
  have hbuilder := hswapped.builder
  simp only [hpool, Bool.false_eq_true, if_false] at hbuilder
  refine ⟨⟨fun k hk => ?_, fun m hm => ?_, ?_, fun m hm => ?_, ?_, fun k id hid => ?_⟩,
    hswapped.packed hb, fun k id hid => ?_⟩
  · simp only [hbuilder] at hk
    simp only [hbuilder, List.map_append, List.map_cons, List.map_nil, moves_append]
    show (Move.swap i j).apply empty _ k = _
    rw [Move.swap_apply]
    split_ifs with hkJ hkI
    · refine (h.agree i (hlive i idI hi)).trans
        (BatchRun.content_congr (fun id => ?_) fun _ _ => rfl)
      simp only [hget, if_pos hkJ, hi]
    · refine (h.agree j (hlive j idJ hj)).trans
        (BatchRun.content_congr (fun id => ?_) fun _ _ => rfl)
      simp only [hget, if_neg hkJ, if_pos hkI, hj]
    · refine (h.agree k hk).trans (BatchRun.content_congr (fun id => ?_) fun _ _ => rfl)
      simp only [hget, if_neg hkJ, if_neg hkI]
  · simp only [hbuilder, List.mem_append, List.mem_singleton] at hm ⊢
    rcases hm with hm | rfl
    · exact h.avoids m hm
    · exact ⟨hlive i idI hi, hlive j idJ hj⟩
  · simp only [hbuilder]
    exact h.added
  · simp only [hbuilder, List.mem_append, List.mem_singleton] at hm
    rcases hm with hm | rfl
    · exact h.moved m hm
    · exact ⟨fun hdirect => (by cases hdirect), by show i < _; omega, by show j < _; omega⟩
  · simp only [hswapped.reqIds, swapAt, List.getElem?_eq_getElem hltI,
      List.getElem?_eq_getElem hltJ, List.length_set]
    exact hlength
  · simp only [hget] at hid
    split_ifs at hid
    · cases hid
      exact h.known i idI hi
    · cases hid
      exact h.known j idJ hj
    · exact h.known k id hid
  · rw [hbuilder]
    rw [hget] at hid
    split_ifs at hid with hkJ hkI
    · rw [hkJ]
      exact hlive j idJ hj
    · rw [hkI]
      exact hlive i idI hi
    · exact hlive k id hid

/-- The whole update. -/
theorem changes [SinglePrecision F] {st : BatchStep F} (h : Pending newState empty cfg.maxNumReqs ok f s)
    (hnew : s.batch.batchUpdateBuilder = {}) (hb : s.batch.Packed)
    (hpool : cfg.isPoolingModel = false)
    (hproper : Along (BatchRun.apply cfg) (BatchRun.Proper cfg) s st.changes) (hok : st.Asks ok)
    (hrun : run (BatchRun.apply cfg) s st.changes = .ok s') :
    Pending newState empty cfg.maxNumReqs ok f s' ∧ s'.batch.Packed ∧
      ∀ (i : Nat) (id : RequestId), s'.batch.reqIds[i]? = some (some id) →
        i ∉ s'.batch.batchUpdateBuilder.removedIndices := by
  simp only [BatchStep.changes, run_append_eq_ok, along_append] at hrun hproper
  obtain ⟨s₂, ⟨s₁, hearly, hcondense⟩, hswaps⟩ := hrun
  -- up to `condense`
  have h₁ : s₁.batch.Layout ∧ Pending newState empty cfg.maxNumReqs ok f s₁ ∧
      s₁.batch.batchUpdateBuilder.moved = [] := by
    refine run_invariant (I := fun s : BatchRun F => s.batch.Layout ∧
        Pending newState empty cfg.maxNumReqs ok f s ∧ s.batch.batchUpdateBuilder.moved = [])
      (fun s call s' hs hcall hcall' => ?_) ⟨hb.layout hnew, h, by rw [hnew]⟩
      (hproper.1.1.and (along_of_mem
        (fun call hcall => And.intro (st.early_of_mem hcall) (hok.of_mem hcall)) s)) hearly
    obtain ⟨hproper, hearly, hok⟩ := hcall
    exact ⟨BatchRun.layout_early hs.1 hearly hproper hcall',
      hs.2.1.apply_early hs.2.2 hs.1 hpool hearly hproper hok hcall'⟩
  -- `condense`
  have h₂ : Pending newState empty cfg.maxNumReqs ok f s₂ ∧ s₂.batch.Packed ∧
      ∀ (i : Nat) (id : RequestId), s₂.batch.reqIds[i]? = some (some id) →
        i ∉ s₂.batch.batchUpdateBuilder.removedIndices := by
    obtain ⟨s₂', happly, hs₂⟩ := bind_ok_iff.mp hcondense
    cases hs₂
    obtain ⟨batch, hbatch, hs₂⟩ := bind_ok_iff.mp happly
    cases hs₂
    exact h₁.2.1.condense h₁.2.2 h₁.1 hpool hbatch
  -- the swaps
  have hswapCalls : ∀ call ∈ st.swaps.map (fun e => BatchCall.swapStates (F := F) e.1 e.2),
      ∃ i j, call = .swapStates i j := by
    intro call hcall
    obtain ⟨e, -, rfl⟩ := List.mem_map.mp hcall
    exact ⟨e.1, e.2, rfl⟩
  refine run_invariant (I := fun s : BatchRun F =>
      Pending newState empty cfg.maxNumReqs ok f s ∧ s.batch.Packed ∧
        ∀ (i : Nat) (id : RequestId), s.batch.reqIds[i]? = some (some id) →
          i ∉ s.batch.batchUpdateBuilder.removedIndices)
    (fun s call s' hs hcall hcall' => ?_) h₂ (along_of_mem hswapCalls s₂) hswaps
  obtain ⟨i, j, rfl⟩ := hcall
  obtain ⟨batch, hbatch, hs'⟩ := bind_ok_iff.mp hcall'
  cases hs'
  exact hs.1.swap hs.2.1 hs.2.2 hpool hbatch

/-- What the processors are told turns the table into the contents of the batch. -/
theorem refreshMetadata (h : Pending newState empty cfg.maxNumReqs ok f s)
    (hlive : ∀ (i : Nat) (id : RequestId), s.batch.reqIds[i]? = some (some id) →
      i ∉ s.batch.batchUpdateBuilder.removedIndices) (hpool : cfg.isPoolingModel = false) :
    match (s.batch.refreshMetadata cfg).1 with
    | none => f = s.content newState empty
    | some update => update.Within cfg.maxNumReqs ok ∧
      update.replay newState empty f = s.content newState empty := by
  have hcontent : replay empty f (s.batch.batchUpdateBuilder.added.map (·.write newState))
      s.batch.batchUpdateBuilder.removedIndices (s.batch.batchUpdateBuilder.moved.map (·.move)) =
        s.content newState empty := by
    have havoids : ∀ m ∈ s.batch.batchUpdateBuilder.moved.map (·.move),
        m.Avoids s.batch.batchUpdateBuilder.removedIndices := by
      intro m hm
      obtain ⟨m', hm', rfl⟩ := List.mem_map.mp hm
      exact h.avoids m' hm'
    rw [replay_eq havoids]
    funext i
    unfold clear
    split
    · rename_i hremoved
      exact (BatchRun.content_of_none fun id hid => hlive i id hid hremoved).symm
    · rename_i hremoved
      exact h.agree i hremoved
  simp only [InputBatch.refreshMetadata, hpool, Bool.false_eq_true, if_false,
    BatchUpdateBuilder.getAndReset]
  by_cases hnone : s.batch.batchUpdateBuilder.removedIndices = [] ∧
      s.batch.batchUpdateBuilder.moved = [] ∧ s.batch.batchUpdateBuilder.added = []
  · rw [if_pos hnone]
    obtain ⟨hremoved, hmoved, hadded⟩ := hnone
    rw [hremoved, hmoved, hadded] at hcontent
    have hclear : clear empty f [] = f := by
      funext i
      simp [clear]
    rw [← hcontent]
    exact hclear.symm
  · rw [if_neg hnone]
    exact ⟨⟨h.added, h.moved⟩, hcontent⟩

end Pending

/-! ## Runs -/

/-- The batch with the dictionary of a logits processor, and with min-p. -/
structure ProcessorRun (F T : Type) where
  run : BatchRun F
  entries : Dict Nat T
  minP : MinPLogitsProcessor F

namespace ProcessorRun

variable [SinglePrecision F] [DecidableEq F] (cfg : BatchConfig) (newState : NewState F (Option T))

/-- Before the first step. -/
def init (sampling : SamplingRows F) : ProcessorRun F T where
  run := BatchRun.init cfg sampling
  entries := .empty
  minP := ⟨fun _ => 0, 0⟩

/-- `refresh_metadata`, which updates the processors. -/
def refreshMetadata (s : ProcessorRun F T) : ProcessorRun F T :=
  let refreshed := s.run.batch.refreshMetadata cfg
  { run := { s.run with batch := refreshed.2 }
    entries := processDictUpdates newState s.entries refreshed.1
    minP := s.minP.updateState refreshed.1 }

/-- A step. -/
def step (s : ProcessorRun F T) (st : BatchStep F) : Except BatchError (ProcessorRun F T) := do
  let run ← Checked.run (BatchRun.apply cfg) s.run st.changes
  pure (refreshMetadata cfg newState { s with run })

/-- The processors follow the batch: the dictionary has the entries that its requests asked for,
and the values of min-p are those of its requests, in single precision. -/
structure Follows (s : ProcessorRun F T) : Prop where
  entries : ∀ i state, s.entries.get? i = some state ↔ ∃ id r params,
    s.run.batch.reqIds[i]? = some (some id) ∧ s.run.requests id = some r ∧
      r.samplingParams = some params ∧
      newState params r.promptTokenIds r.outputTokenIds = some state
  noEntries : ∀ i, s.run.batch.numReqs ≤ i → s.entries.get? i = none
  minP : ∀ i < s.run.batch.numReqs, ∃ id r params,
    s.run.batch.reqIds[i]? = some (some id) ∧ s.run.requests id = some r ∧
      r.samplingParams = some params ∧ s.minP.minPCpu i = single params.minP
  noMinP : ∀ i, s.run.batch.numReqs ≤ i → s.minP.minPCpu i = 0

/-- The processors between two steps. -/
structure Agrees (survive : Prop) (s : ProcessorRun F T) : Prop where
  packed : s.run.batch.Packed
  new : s.run.batch.batchUpdateBuilder = {}
  length_le : s.run.batch.reqIds.length ≤ cfg.maxNumReqs
  known : s.run.Known
  entries : s.entries.get? = s.run.content newState none
  minP : s.minP.minPCpu = s.run.content MinPLogitsProcessor.newMinP 0
  counted : s.minP.Counted cfg.maxNumReqs survive

variable {cfg newState} {s s' : ProcessorRun F T} {survive : Prop}

/-- A step keeps them in agreement. -/
theorem Agrees.step {st : BatchStep F} (h : Agrees cfg newState survive s)
    (hpool : cfg.isPoolingModel = false)
    (hproper : Along (BatchRun.apply cfg) (BatchRun.Proper cfg) s.run st.changes)
    (hasks : st.Asks fun params => survive → MinPLogitsProcessor.Survives params)
    (hstep : step cfg newState s st = .ok s') : Agrees cfg newState survive s' := by
  obtain ⟨r, hrun, hs'⟩ := bind_ok_iff.mp hstep
  cases hs'
  have hentries : Pending newState none cfg.maxNumReqs
      (fun params => survive → MinPLogitsProcessor.Survives params) s.entries.get? s.run := by
    rw [h.entries]
    exact .of_new h.new h.length_le h.known
  have hminP : Pending MinPLogitsProcessor.newMinP 0 cfg.maxNumReqs
      (fun params => survive → MinPLogitsProcessor.Survives params) s.minP.minPCpu s.run := by
    rw [h.minP]
    exact .of_new h.new h.length_le h.known
  obtain ⟨hentries', hpacked, hlive⟩ := hentries.changes h.new h.packed hpool hproper hasks hrun
  obtain ⟨hminP', -, -⟩ := hminP.changes h.new h.packed hpool hproper hasks hrun
  have hbatch : (r.batch.refreshMetadata cfg).2 = { r.batch with batchUpdateBuilder := {} } :=
    BatchRun.refreshMetadata_snd r.batch
  have hreplay := hentries'.refreshMetadata hlive hpool
  have hreplay' := hminP'.refreshMetadata hlive hpool
  refine ⟨?_, ?_, ?_, ?_, ?_, ?_, ?_⟩
  · simp only [refreshMetadata, hbatch]
    exact ⟨hpacked.indexed, hpacked.filled, hpacked.outputs⟩
  · simp only [refreshMetadata, hbatch]
  · simp only [refreshMetadata, hbatch]
    exact hentries'.length_le
  · simp only [refreshMetadata, hbatch]
    exact hentries'.known
  · simp only [refreshMetadata, hbatch]
    cases hupdate : (r.batch.refreshMetadata cfg).1 with
    | none =>
      rw [hupdate] at hreplay
      exact hreplay
    | some update =>
      rw [hupdate] at hreplay
      rw [get?_processDictUpdates _ _ _ fun m hm => (hreplay.1.moved m hm).1]
      exact hreplay.2
  · simp only [refreshMetadata, hbatch]
    cases hupdate : (r.batch.refreshMetadata cfg).1 with
    | none =>
      rw [hupdate] at hreplay'
      exact hreplay'
    | some update =>
      rw [hupdate] at hreplay'
      exact (h.counted.updateState hreplay'.1).2.trans hreplay'.2
  · simp only [refreshMetadata]
    cases hupdate : (r.batch.refreshMetadata cfg).1 with
    | none => exact h.counted
    | some update =>
      rw [hupdate] at hreplay'
      exact (h.counted.updateState hreplay'.1).1

/-- What agrees with the batch follows it. -/
theorem Agrees.follows (h : Agrees cfg newState survive s) : Follows newState s := by
  have hlength := h.packed.length_eq
  have hbeyond (i : Nat) (hi : s.run.batch.numReqs ≤ i) (id : RequestId) :
      s.run.batch.reqIds[i]? ≠ some (some id) := by
    intro hid
    have hlt := (List.getElem?_eq_some_iff.mp hid).1
    omega
  have hwithin (i : Nat) (hi : i < s.run.batch.numReqs) :
      ∃ id : RequestId, s.run.batch.reqIds[i]? = some (some id) := by
    rw [← hlength] at hi
    cases hid : s.run.batch.reqIds[i] with
    | none => exact absurd (by rw [List.getElem?_eq_getElem hi, hid]) (h.packed.filled i)
    | some id => exact ⟨id, by rw [List.getElem?_eq_getElem hi, hid]⟩
  refine ⟨fun i state => ?_, fun i hi => ?_, fun i hi => ?_, fun i hi => ?_⟩
  · rw [h.entries]
    by_cases hi : i < s.run.batch.numReqs
    · obtain ⟨id, hid⟩ := hwithin i hi
      obtain ⟨r, params, hr, hparams⟩ := h.known i id hid
      rw [BatchRun.content_of_id hid]
      simp [hid, hr, hparams, CachedRequestState.asked]
    · rw [BatchRun.content_of_none (hbeyond i (by omega))]
      refine ⟨fun he => (by cases he), ?_⟩
      rintro ⟨id, -, -, hid, -⟩
      exact absurd hid (hbeyond i (by omega) id)
  · rw [h.entries, BatchRun.content_of_none (hbeyond i hi)]
  · obtain ⟨id, hid⟩ := hwithin i hi
    obtain ⟨r, params, hr, hparams⟩ := h.known i id hid
    refine ⟨id, r, params, hid, hr, hparams, ?_⟩
    rw [h.minP, BatchRun.content_of_id hid]
    simp [hr, hparams, CachedRequestState.asked, MinPLogitsProcessor.newMinP]
  · rw [h.minP, BatchRun.content_of_none (hbeyond i hi)]

/-- Before the first step. -/
private theorem agrees_init (sampling : SamplingRows F) :
    Agrees cfg newState survive (init cfg sampling) where
  packed := (BatchRun.settled_init cfg sampling).packed
  new := rfl
  length_le := Nat.zero_le _
  known := fun i id h => (by cases h)
  entries := rfl
  minP := rfl
  counted := by
    have hnone : used 0 (fun _ => (0 : F)) cfg.maxNumReqs = 0 := used_eq_zero_iff.mpr fun _ _ => rfl
    exact ⟨hnone.le, fun _ => hnone.symm, fun i _ => rfl⟩

/-- After every run of steps of a batch that is not for pooling, the processors follow it. If the
values of min-p of all added requests survive, the count is the number of those not zero. -/
theorem follows_batch (cfg : BatchConfig) (newState : NewState F (Option T))
    (sampling : SamplingRows F) (hpool : cfg.isPoolingModel = false) {steps : List (BatchStep F)}
    (hproper : Along (ProcessorRun.step cfg newState)
      (fun s st => Along (BatchRun.apply cfg) (BatchRun.Proper cfg) s.run st.changes)
      (init cfg sampling) steps)
    (hrun : Checked.run (ProcessorRun.step cfg newState) (init cfg sampling) steps = .ok s') :
    Follows newState s' ∧ ((∀ st ∈ steps, st.Asks MinPLogitsProcessor.Survives) →
      s'.minP.minPCount = used 0 s'.minP.minPCpu cfg.maxNumReqs) := by
  have hasks : ∀ st ∈ steps, st.Asks fun params =>
      (∀ st ∈ steps, st.Asks MinPLogitsProcessor.Survives) →
        MinPLogitsProcessor.Survives params :=
    fun st hst e he params hparams hsurvive => hsurvive st hst e he params hparams
  have hagrees := run_invariant
    (fun _ _ _ h hst hstep => Agrees.step h hpool hst.1 hst.2 hstep)
    (agrees_init sampling) (hproper.and (along_of_mem hasks _)) hrun
  exact ⟨hagrees.follows, hagrees.counted.count⟩

end ProcessorRun

/-- A request with a value of min-p. -/
def minPRequest (reqId : RequestId) (minP : Nat) : CachedRequestState Nat :=
  { plainRequest reqId with
    samplingParams := (plainRequest reqId).samplingParams.map fun params => { params with minP } }

/-- An entry for the requests that set min-p. -/
def minPEntry : NewState Nat (Option Nat) := fun params _ _ =>
  if params.minP = 0 then none else some params.minP

/-- A request whose min-p is zero in single precision takes the index of another one. -/
def minPVanishes : List (BatchStep Nat) := [
  { added := [(minPRequest 1 4, [])] },
  { removed := [1], added := [(minPRequest 2 1, [])] }]

/-- It is counted, as the request before it was. -/
theorem minPVanishes_counted :
    ∃ s, run (ProcessorRun.step smallBatch minPEntry) (ProcessorRun.init smallBatch noParams)
      minPVanishes = .ok s ∧ s.minP.minPCount ≠ used 0 s.minP.minPCpu smallBatch.maxNumReqs := by
  have heval : (do
      let s ← run (ProcessorRun.step smallBatch minPEntry)
        (ProcessorRun.init smallBatch noParams) minPVanishes
      ensure (s.minP.minPCount = 1 ∧ used 0 s.minP.minPCpu smallBatch.maxNumReqs = 0)
        .noRequest) = .ok () := by
    decide
  simp only [bind_ok_iff, ensure_eq_ok] at heval
  obtain ⟨s, hrun, hcount, hused⟩ := heval
  exact ⟨s, hrun, by rw [hcount, hused]; decide⟩

/-- A hole is refilled, another one is filled by `condense`, and two requests are swapped. -/
def minPSteps : List (BatchStep Nat) := [
  { added := [(minPRequest 1 5, []), (minPRequest 2 0, []), (minPRequest 3 7, [])] },
  { removed := [1, 2], added := [(minPRequest 4 0, [])] },
  { added := [(minPRequest 5 9, [])], swaps := [(0, 1)] }]

/-- There the processors follow the batch, and the count is right. -/
theorem minPSteps_follow :
    ∃ s, run (ProcessorRun.step smallBatch minPEntry) (ProcessorRun.init smallBatch noParams)
      minPSteps = .ok s ∧ ProcessorRun.Follows minPEntry s ∧
        s.minP.minPCount = used 0 s.minP.minPCpu smallBatch.maxNumReqs := by
  have heval : (do
      let s ← run (ProcessorRun.step smallBatch minPEntry)
        (ProcessorRun.init smallBatch noParams) minPSteps
      ensure (Along (ProcessorRun.step smallBatch minPEntry)
        (fun s st => Along (BatchRun.apply smallBatch) (BatchRun.Proper smallBatch) s.run
          st.changes) (ProcessorRun.init smallBatch noParams) minPSteps) .noRequest
      pure (s.run.batch.reqIds, s.minP.minPCount)) =
        .ok ([some 3, some 4, some 5], 2) := by decide
  simp only [bind_ok_iff, ensure_eq_ok] at heval
  obtain ⟨s, hrun, _, hproper, -⟩ := heval
  obtain ⟨hfollows, hcount⟩ :=
    ProcessorRun.follows_batch smallBatch minPEntry noParams rfl hproper hrun
  exact ⟨s, hrun, hfollows, hcount (by decide)⟩

end Vllm.Worker
