import Vllm.Worker.BatchRows

/-!
# The persistent batch over a run of steps

In every step requests are removed, others are added, the batch is condensed, rows are swapped,
and the metadata is refreshed. Up to `condense` the holes among the indices are the removed
ones that were not refilled; behind it the requests fill the indices without a gap.
-/

namespace Vllm.Worker

open Checked

variable {F : Type}

/-! ## Removed indices -/

namespace BatchUpdateBuilder

/-- Removed indices are in descending order once they are sorted. -/
def Descending (u : BatchUpdateBuilder F) : Prop :=
  u.removedIndices.Nodup ∧ (u.isRemovedSorted = true → u.removedIndices.Pairwise (· > ·))

variable {u : BatchUpdateBuilder F}

/-- Sorting keeps the removed indices and puts them in descending order. -/
theorem Descending.ensureRemovedSorted (h : u.Descending) :
    u.ensureRemovedSorted.removedIndices.Perm u.removedIndices ∧
      u.ensureRemovedSorted.removedIndices.Pairwise (· > ·) ∧
      u.ensureRemovedSorted = { u with
        removedIndices := u.ensureRemovedSorted.removedIndices
        isRemovedSorted := true } := by
  unfold BatchUpdateBuilder.ensureRemovedSorted
  split
  · rename_i hsorted
    refine ⟨List.Perm.refl _, h.2 hsorted, ?_⟩
    rw [← hsorted]
  · have hperm := List.perm_insertionSort (· ≥ ·) u.removedIndices
    refine ⟨hperm, ?_, rfl⟩
    refine ((List.pairwise_insertionSort (· ≥ ·) u.removedIndices).and
      (hperm.nodup_iff.mpr h.1)).imp ?_
    exact fun {a b} hab => lt_of_le_of_ne hab.1 (Ne.symm hab.2)

/-- Popping takes the least removed index, which is the one that peeking shows. -/
theorem Descending.popRemoved (h : u.Descending) :
    (u.removedIndices = [] ∧ u.popRemoved = (none, u) ∧ u.peekRemoved.1 = none) ∨
      ∃ l a, (l ++ [a]).Perm u.removedIndices ∧ (l ++ [a]).Pairwise (· > ·) ∧
        u.popRemoved = (some a, { u with removedIndices := l, isRemovedSorted := true }) ∧
        u.peekRemoved.1 = some a := by
  unfold BatchUpdateBuilder.popRemoved BatchUpdateBuilder.peekRemoved
  by_cases hnil : u.removedIndices = []
  · rw [if_pos hnil, if_pos hnil]
    exact Or.inl ⟨hnil, rfl, rfl⟩
  · rw [if_neg hnil, if_neg hnil]
    obtain ⟨hperm, hdesc, heq⟩ := h.ensureRemovedSorted
    obtain ⟨l, a, hla⟩ : ∃ l a, u.ensureRemovedSorted.removedIndices = l ++ [a] := by
      rcases List.eq_nil_or_concat u.ensureRemovedSorted.removedIndices with hempty | ⟨l, a, hla⟩
      · rw [hempty] at hperm
        exact absurd hperm.symm.eq_nil hnil
      · exact ⟨l, a, by simpa using hla⟩
    refine Or.inr ⟨l, a, hla ▸ hperm, hla ▸ hdesc, ?_, by simp [hla]⟩
    simp only [hla, List.getLast?_append, List.getLast?_singleton, Option.some_or,
      List.dropLast_concat]
    rw [heq]

/-- A builder that was popped is still in order. -/
theorem Descending.of_popRemoved (h : u.Descending) : u.popRemoved.2.Descending := by
  rcases h.popRemoved with ⟨-, hpop, -⟩ | ⟨l, a, -, hdesc, hpop, -⟩
  · rw [hpop]
    exact h
  · rw [hpop]
    have hl : l.Pairwise (· > ·) := (List.pairwise_append.mp hdesc).1
    exact ⟨hl.imp Nat.ne_of_gt, fun _ => hl⟩

end BatchUpdateBuilder

namespace InputBatch

variable {b b' : InputBatch F}

/-! ## Indices -/

/-- The list of ids and the dictionary of indices are inverse to each other. -/
def Indexed (b : InputBatch F) : Prop :=
  ∀ i id, b.reqIds[i]? = some (some id) ↔ b.reqIdToIndex.get? id = some i

/-- The dictionary has one entry for each index that has a request. -/
theorem Indexed.numReqs_eq (h : b.Indexed) {l : List Nat} (hl : l.Nodup)
    (hmem : ∀ i, i ∈ l ↔ ∃ id, b.reqIds[i]? = some (some id)) : b.numReqs = l.length := by
  have hnodup : (b.reqIdToIndex.entries.map Prod.snd).Nodup := by
    refine List.Nodup.map_on ?_ (List.Nodup.of_map _ b.reqIdToIndex.nodup_keys)
    rintro ⟨id, i⟩ he ⟨id', i'⟩ he' hii
    obtain rfl : i = i' := hii
    rw [Dict.mem_entries_iff, ← h] at he he'
    rw [he] at he'
    cases he'
    rfl
  have hperm : (b.reqIdToIndex.entries.map Prod.snd).Perm l := by
    refine (List.perm_ext_iff_of_nodup hnodup hl).mpr fun i => ?_
    rw [hmem, List.mem_map]
    constructor
    · rintro ⟨⟨id, i'⟩, he, rfl⟩
      exact ⟨id, (h _ _).mpr ((Dict.mem_entries_iff _).mp he)⟩
    · rintro ⟨id, hid⟩
      exact ⟨(id, i), (Dict.mem_entries_iff _).mpr ((h _ _).mp hid), rfl⟩
  rw [numReqs, ← List.length_map Prod.snd, hperm.length_eq]

/-- The batch before it is condensed: the holes are the removed indices. -/
structure Layout (b : InputBatch F) : Prop where
  indexed : b.Indexed
  hole : ∀ i, b.reqIds[i]? = some none ↔ i ∈ b.batchUpdateBuilder.removedIndices
  descending : b.batchUpdateBuilder.Descending
  outputs : b.reqOutputTokenIds.length = b.reqIds.length

/-- The batch behind `condense`: no holes. -/
structure Packed (b : InputBatch F) : Prop where
  indexed : b.Indexed
  filled : ∀ i : Nat, b.reqIds[i]? ≠ some none
  outputs : b.reqOutputTokenIds.length = b.reqIds.length

/-- Without holes the indices are those below the number of requests. -/
theorem Packed.length_eq (h : b.Packed) : b.reqIds.length = b.numReqs := by
  rw [h.indexed.numReqs_eq (l := List.range b.reqIds.length) List.nodup_range fun i => ?_,
    List.length_range]
  rw [List.mem_range]
  constructor
  · intro hi
    cases hid : b.reqIds[i] with
    | none => exact absurd (by rw [List.getElem?_eq_getElem hi, hid]) (h.filled i)
    | some id => exact ⟨id, by rw [List.getElem?_eq_getElem hi, hid]⟩
  · rintro ⟨id, hid⟩
    exact (List.getElem?_eq_some_iff.mp hid).1

/-- The list of ids has one entry for each request and each hole. -/
theorem Layout.length_eq (h : b.Layout) :
    b.reqIds.length = b.numReqs + b.batchUpdateBuilder.removedIndices.length := by
  have hholes : ((List.range b.reqIds.length).filter
      fun i => decide (i ∈ b.batchUpdateBuilder.removedIndices)).Perm
      b.batchUpdateBuilder.removedIndices := by
    refine (List.perm_ext_iff_of_nodup (List.nodup_range.filter _) h.descending.1).mpr fun i => ?_
    rw [List.mem_filter, List.mem_range, decide_eq_true_eq, and_iff_right_iff_imp, ← h.hole]
    exact fun hi => (List.getElem?_eq_some_iff.mp hi).1
  have hlive := h.indexed.numReqs_eq (l := (List.range b.reqIds.length).filter
      fun i => !decide (i ∈ b.batchUpdateBuilder.removedIndices)) (List.nodup_range.filter _)
    fun i => by
      rw [List.mem_filter, List.mem_range, Bool.not_eq_true', decide_eq_false_iff_not, ← h.hole]
      constructor
      · rintro ⟨hi, hnone⟩
        cases hid : b.reqIds[i] with
        | none => exact absurd (by rw [List.getElem?_eq_getElem hi, hid]) hnone
        | some id => exact ⟨id, by rw [List.getElem?_eq_getElem hi, hid]⟩
      · rintro ⟨id, hid⟩
        exact ⟨(List.getElem?_eq_some_iff.mp hid).1, by simp [hid]⟩
  have hsplit := List.length_eq_length_filter_add (l := List.range b.reqIds.length)
    fun i => decide (i ∈ b.batchUpdateBuilder.removedIndices)
  rw [List.length_range, hholes.length_eq, ← hlive] at hsplit
  omega

/-- A batch without holes whose builder is new. -/
theorem Packed.layout (h : b.Packed) (hnew : b.batchUpdateBuilder = {}) : b.Layout where
  indexed := h.indexed
  hole i := by simpa [hnew] using h.filled i
  descending := by
    rw [hnew]
    exact ⟨List.nodup_nil, fun _ => List.Pairwise.nil⟩
  outputs := h.outputs

/-- The next request goes to a hole or right behind the end. -/
theorem Layout.nextIndex (h : b.Layout) : b.nextIndex ≤ b.reqIds.length ∧
    (∀ id, b.reqIds[b.nextIndex]? ≠ some (some id)) ∧
    ∀ i, i ∈ b.batchUpdateBuilder.popRemoved.2.removedIndices ↔
      i ∈ b.batchUpdateBuilder.removedIndices ∧ i ≠ b.nextIndex := by
  have hlength := h.length_eq
  unfold InputBatch.nextIndex
  rcases h.descending.popRemoved with ⟨hnil, hpop, -⟩ | ⟨l, a, hperm, hdesc, hpop, -⟩
  · rw [hpop]
    rw [hnil, List.length_nil, Nat.add_zero] at hlength
    refine ⟨hlength.ge, fun id hid => ?_, fun i => by simp [hnil]⟩
    exact absurd (List.getElem?_eq_some_iff.mp hid).1 (by simp [hlength])
  · rw [hpop]
    have hmem : a ∈ b.batchUpdateBuilder.removedIndices := hperm.mem_iff.mp (by simp)
    have hnone := (h.hole a).mpr hmem
    refine ⟨(List.getElem?_eq_some_iff.mp hnone).1.le, fun id hid => ?_, fun i => ?_⟩
    · exact absurd (hnone.symm.trans hid) (by simp)
    · rw [← hperm.mem_iff, List.mem_append, List.mem_singleton]
      have hnotin : a ∉ l := fun hal =>
        lt_irrefl a ((List.pairwise_append.mp hdesc).2.2 a hal a (by simp))
      constructor
      · exact fun hi => ⟨Or.inl hi, fun he => hnotin (by simpa [he] using hi)⟩
      · exact fun hi => hi.1.resolve_right hi.2

/-! ## Rows and their requests -/

variable [SinglePrecision F] {cfg : BatchConfig}
  {requests : RequestId → Option (CachedRequestState F)} {accepted : RequestId → Nat}

/-- Every index that has a request holds its row, and the dictionaries of indices have nothing
elsewhere. What the kind of the model does not use is as it was at the start. -/
structure Owned (cfg : BatchConfig) (requests : RequestId → Option (CachedRequestState F))
    (accepted : RequestId → Nat) (b : InputBatch F) : Prop where
  rows : ∀ i id, b.reqIds[i]? = some (some id) →
    ∃ r, requests id = some r ∧ r.reqId = id ∧ b.rowAt cfg i = r.row cfg (accepted id)
  accepted : cfg.isPoolingModel = true → ∀ i, b.numAcceptedTokensCpu i = 1
  needs : cfg.isPoolingModel = false → ∀ i, b.logitsProcessingNeedsTokenIds i = false
  sizes : b.blockTables.map (·.blocksPerKvBlock) = cfg.blocksPerKvBlock
  stale : cfg.isPoolingModel = false → ∀ i, (∀ id, b.reqIds[i]? ≠ some (some id)) →
    b.generators.get? i = none ∧ b.badWordsTokenIds.get? i = none

/-- Adding a request that is not in the batch. -/
theorem Added.layout {r : CachedRequestState F} (h : Added cfg b r b') (hb : b.Layout)
    (hnew : b.reqIdToIndex.get? r.reqId = none) : b'.Layout := by
  obtain ⟨hle, hfree, hremoved⟩ := hb.nextIndex
  have hids := getElem?_placeAt hle (some r.reqId)
  refine ⟨fun i id => ?_, fun i => ?_, ?_, ?_⟩
  · rw [h.reqIds, hids, h.index, Dict.get?_insert]
    by_cases hi : i = b.nextIndex
    · rw [if_pos hi]
      by_cases hid : id = r.reqId
      · simp [hi, hid]
      · rw [if_neg hid, ← hb.indexed]
        refine ⟨fun he => absurd (Option.some.inj (Option.some.inj he)).symm hid, fun he => ?_⟩
        exact absurd (hi ▸ he) (hfree id)
    · rw [if_neg hi]
      by_cases hid : id = r.reqId
      · rw [if_pos hid, hb.indexed, hid, hnew]
        exact ⟨fun he => (by cases he), fun he => absurd (Option.some.inj he).symm hi⟩
      · rw [if_neg hid, hb.indexed]
  · rw [h.reqIds, hids, h.builder, hremoved, ← hb.hole]
    by_cases hi : i = b.nextIndex <;> simp [hi]
  · rw [h.builder]
    exact hb.descending.of_popRemoved
  · rw [h.outputs, h.reqIds]
    unfold placeAt
    rw [hb.outputs]
    split <;> simp [hb.outputs]

/-- The new request has its row, and the others keep theirs. -/
theorem Added.owned {r : CachedRequestState F} (h : Added cfg b r b') (hb : b.Layout)
    (ho : Owned cfg requests accepted b) (hnew : b.reqIdToIndex.get? r.reqId = none)
    (hkind : r.samplingParams.isSome = !cfg.isPoolingModel)
    (hembeds : r.promptEmbeds = none → b.reqPromptEmbeds.get? b.nextIndex = none)
    (hmask : ∀ params, r.samplingParams = some params → params.allowedTokenIds = [] →
      ∀ token < cfg.vocabSize, maskAt b.allowedTokenIdsMask b.nextIndex token = false) :
    Owned cfg (Function.update requests r.reqId (some r)) (Function.update accepted r.reqId 1) b' := by
  obtain ⟨hle, hfree, -⟩ := hb.nextIndex
  have hids := getElem?_placeAt hle (some r.reqId)
  have hrow := h.row (hb.outputs ▸ hle) ho.sizes hkind
    (fun hpool => ho.stale hpool _ hfree) (fun hpool => ho.needs hpool _) hembeds hmask
  refine ⟨fun i id hid => ?_, fun hpool i => ?_, fun hpool i => ?_, h.sizes.trans ho.sizes,
    fun hpool i hi => ?_⟩
  · rw [h.reqIds, hids] at hid
    rw [hrow]
    by_cases hi : i = b.nextIndex
    · rw [if_pos hi] at hid ⊢
      cases hid
      exact ⟨r, Function.update_self _ _ _, rfl, by rw [Function.update_self]⟩
    · rw [if_neg hi] at hid ⊢
      have hne : id ≠ r.reqId := by
        rintro rfl
        exact absurd ((hb.indexed _ _).mp hid) (by simp [hnew])
      rw [Function.update_of_ne hne, Function.update_of_ne hne]
      exact ho.rows i id hid
  · rw [h.accepted, Function.update_apply]
    split
    · rfl
    · exact ho.accepted hpool i
  · rw [h.needs, if_pos (by rw [hkind, hpool]; rfl)]
    exact ho.needs hpool i
  · rw [h.reqIds] at hi
    have hne : i ≠ b.nextIndex := by
      rintro rfl
      exact hi r.reqId (by rw [hids, if_pos rfl])
    rw [h.generators i hne, h.badWords i hne]
    refine ho.stale hpool i fun id hid => hi id ?_
    rw [hids, if_neg hne]
    exact hid

omit [SinglePrecision F] in
/-- Removing a request of the batch. -/
theorem Removed.layout {reqId : RequestId} {i : Nat} (h : Removed cfg b reqId i b')
    (hb : b.Layout) (hi : b.reqIdToIndex.get? reqId = some i) : b'.Layout := by
  have hid := (hb.indexed i reqId).mpr hi
  have hlt := (List.getElem?_eq_some_iff.mp hid).1
  refine ⟨fun k id => ?_, fun k => ?_, ?_, ?_⟩
  · rw [h.reqIds, h.index, Dict.get?_erase]
    by_cases hk : k = i
    · subst hk
      rw [List.getElem?_set_self hlt]
      refine ⟨fun he => (by cases Option.some.inj he), fun he => ?_⟩
      split at he
      · cases he
      · rename_i hne
        rw [← hb.indexed, hid] at he
        exact absurd (Option.some.inj (Option.some.inj he)).symm hne
    · rw [List.getElem?_set_ne (Ne.symm hk)]
      split
      · rename_i heq
        rw [hb.indexed, heq, hi]
        exact ⟨fun he => absurd (Option.some.inj he).symm hk, fun he => (by cases he)⟩
      · exact hb.indexed k id
  · rw [h.reqIds, h.builder]
    simp only [List.mem_append, List.mem_singleton]
    by_cases hk : k = i
    · subst hk
      simp [hlt]
    · rw [List.getElem?_set_ne (Ne.symm hk), hb.hole]
      simp [hk]
  · rw [h.builder]
    refine ⟨List.nodup_append.mpr ⟨hb.descending.1, List.nodup_singleton i, ?_⟩, fun hs => ?_⟩
    · intro a ha a' ha' hne
      rw [List.mem_singleton] at ha'
      rw [← hb.hole, hne, ha', hid] at ha
      cases ha
    · exact absurd (h.unsorted.symm.trans hs) (by decide)
  · rw [h.outputs, h.reqIds, List.length_set, List.length_set, hb.outputs]

/-- The other requests keep their rows. -/
theorem Removed.owned {reqId : RequestId} {i : Nat} (h : Removed cfg b reqId i b')
    (ho : Owned cfg requests accepted b) : Owned cfg requests accepted b' := by
  refine ⟨fun k id hid => ?_, h.accepted ▸ ho.accepted, h.needs ▸ ho.needs, ?_,
    fun hpool k hk => ?_⟩
  · rw [h.reqIds] at hid
    have hne : k ≠ i := by
      rintro rfl
      have hlt : k < b.reqIds.length := by
        simpa using (List.getElem?_eq_some_iff.mp hid).1
      rw [List.getElem?_set_self hlt] at hid
      cases hid
    rw [List.getElem?_set_ne (Ne.symm hne)] at hid
    rw [h.row k hne]
    exact ho.rows k id hid
  · rw [h.blockTables]
    exact ho.sizes
  · obtain ⟨hgenerators, hbad⟩ := h.dicts hpool
    rw [hgenerators, hbad, Dict.get?_erase, Dict.get?_erase]
    by_cases hki : k = i
    · simp [hki]
    · rw [if_neg hki, if_neg hki]
      refine ho.stale hpool k fun id hid => hk id ?_
      rw [h.reqIds, List.getElem?_set_ne (Ne.symm hki)]
      exact hid

omit [SinglePrecision F] in
/-- Swapping two requests. -/
theorem Swapped.packed {i j : Nat} (h : Swapped cfg b i j b') (hb : b.Packed) : b'.Packed := by
  obtain ⟨idI, idJ, indexI, indexJ, hi, hj, hindexI, hindexJ, hindex⟩ := h.ids
  have hltI := (List.getElem?_eq_some_iff.mp hi).1
  have hltJ := (List.getElem?_eq_some_iff.mp hj).1
  obtain rfl : i = indexI := Option.some.inj (((hb.indexed _ _).mp hi).symm.trans hindexI)
  obtain rfl : j = indexJ := Option.some.inj (((hb.indexed _ _).mp hj).symm.trans hindexJ)
  have hids := getElem?_swapAt hltI hltJ
  refine ⟨fun k id => ?_, fun k => ?_, ?_⟩
  · rw [h.reqIds, hids, hindex, Dict.get?_insert, Dict.get?_insert]
    have hk := hb.indexed k id
    have hiid := hb.indexed i id
    have hjid := hb.indexed j id
    grind
  · rw [h.reqIds, hids]
    split_ifs
    · exact hb.filled i
    · exact hb.filled j
    · exact hb.filled k
  · rw [h.outputs, h.reqIds, length_swapAt, length_swapAt, hb.outputs]

/-- Both requests keep their rows. -/
theorem Swapped.owned {i j : Nat} (h : Swapped cfg b i j b') (hb : b.Packed)
    (ho : Owned cfg requests accepted b)
    (hmask : cfg.isPoolingModel = false → ∀ token < cfg.vocabSize,
      maskAt b.allowedTokenIdsMask i token = maskAt b.allowedTokenIdsMask j token)
    (hneeds : b.logitsProcessingNeedsTokenIds i = b.logitsProcessingNeedsTokenIds j) :
    Owned cfg requests accepted b' := by
  obtain ⟨idI, idJ, -, -, hi, hj, -⟩ := h.ids
  have hltI := (List.getElem?_eq_some_iff.mp hi).1
  have hltJ := (List.getElem?_eq_some_iff.mp hj).1
  have hids := getElem?_swapAt hltI hltJ
  refine ⟨fun k id hid => ?_, fun hpool => h.accepted hpool ▸ ho.accepted hpool,
    h.needs ▸ ho.needs, h.sizes.trans ho.sizes, fun hpool k hk => ?_⟩
  · rw [h.reqIds, hids] at hid
    rw [h.row hb.outputs hmask
      (fun hpool => (ho.accepted hpool i).trans (ho.accepted hpool j).symm) hneeds]
    split_ifs at hid ⊢
    · exact ho.rows i id hid
    · exact ho.rows j id hid
    · exact ho.rows k id hid
  · obtain ⟨hgenerators, hbad⟩ := h.dicts hpool
    rw [hgenerators, hbad, get?_swapDictValues, get?_swapDictValues]
    have hkj : k ≠ j := by
      rintro rfl
      exact hk idI (by rw [h.reqIds, hids, if_pos rfl, hi])
    have hki : k ≠ i := by
      rintro rfl
      exact hk idJ (by rw [h.reqIds, hids, if_neg hkj, if_pos rfl, hj])
    rw [if_neg hkj, if_neg hki, if_neg hkj, if_neg hki]
    refine ho.stale hpool k fun id hid => hk id ?_
    rw [h.reqIds, hids, if_neg hkj, if_neg hki]
    exact hid

/-! ## Condensing -/

/-- The batch inside the loop of `condense`: no requests above `last`, and up to there the holes
are the removed indices. -/
structure Condensing (b : InputBatch F) (last : Nat) : Prop where
  indexed : b.Indexed
  hole : ∀ i, i ≤ last → (b.reqIds[i]? = some none ↔ i ∈ b.batchUpdateBuilder.removedIndices)
  above : ∀ (i : Nat) (id : RequestId), b.reqIds[i]? = some (some id) → i ≤ last
  last_lt : last < b.reqIds.length
  descending : b.batchUpdateBuilder.Descending
  outputs : b.reqOutputTokenIds.length = b.reqIds.length

/-- What the inner loop finds. -/
theorem lastNonEmpty_spec (removed : List Nat) (last : Nat) :
    lastNonEmpty removed last ≤ last ∧
      (∀ i, lastNonEmpty removed last < i → i ≤ last → i ∈ removed) ∧
      (lastNonEmpty removed last ∈ removed → lastNonEmpty removed last = 0) := by
  induction last with
  | zero => exact ⟨le_rfl, fun i hi hle => by omega, fun _ => rfl⟩
  | succ last ih =>
    unfold lastNonEmpty
    split
    · rename_i hmem
      obtain ⟨hle, hbetween, hzero⟩ := ih
      refine ⟨by omega, fun i hi hlast => ?_, hzero⟩
      by_cases he : i = last + 1
      · exact he ▸ hmem
      · exact hbetween i hi (by omega)
    · rename_i hmem
      exact ⟨le_rfl, fun i hi hle => by omega, fun h => absurd h hmem⟩

omit [SinglePrecision F] in
/-- A round of the loop slides the last request down into the lowest hole. -/
theorem Condensing.nextMove {last src dst : Nat} (hc : Condensing b last)
    (h : b.nextMove last = some (src, dst)) : dst < src ∧ src ≤ last ∧
      dst ∈ b.batchUpdateBuilder.removedIndices ∧ src ∉ b.batchUpdateBuilder.removedIndices ∧
      (∀ i, src < i → i ≤ last → i ∈ b.batchUpdateBuilder.removedIndices) ∧
      (∀ i, i ∈ b.batchUpdateBuilder.popRemoved.2.removedIndices ↔
        i ∈ b.batchUpdateBuilder.removedIndices ∧ i ≠ dst) ∧
      b.batchUpdateBuilder.popRemoved.2.removedIndices.length + 1 =
        b.batchUpdateBuilder.removedIndices.length := by
  obtain ⟨hle, hbetween, hzero⟩ := lastNonEmpty_spec b.batchUpdateBuilder.removedIndices last
  unfold InputBatch.nextMove at h
  rcases hc.descending.popRemoved with ⟨-, -, hpeek⟩ | ⟨l, a, hperm, hdesc, hpop, hpeek⟩
  · simp [hpeek] at h
  · simp only [hpeek] at h
    split at h
    · cases h
    · rename_i hlt
      cases h
      have hmem : dst ∈ b.batchUpdateBuilder.removedIndices := hperm.mem_iff.mp (by simp)
      have hnotin : dst ∉ l := fun hal =>
        lt_irrefl dst ((List.pairwise_append.mp hdesc).2.2 dst hal dst (by simp))
      refine ⟨by omega, hle, hmem, fun hsrc => by have := hzero hsrc; omega, hbetween,
        fun i => ?_, ?_⟩
      · rw [hpop, ← hperm.mem_iff, List.mem_append, List.mem_singleton]
        constructor
        · exact fun hi => ⟨Or.inl hi, fun he => hnotin (he ▸ hi)⟩
        · exact fun hi => hi.1.resolve_right hi.2
      · rw [hpop, ← hperm.length_eq, List.length_append, List.length_singleton]

omit [SinglePrecision F] in
/-- The builder behind a move, but for the list of moves. -/
theorem Moved.removed_eq {src dst : Nat} (h : Moved cfg b src dst b') :
    b'.batchUpdateBuilder.removedIndices = b.batchUpdateBuilder.popRemoved.2.removedIndices ∧
      b'.batchUpdateBuilder.isRemovedSorted =
        b.batchUpdateBuilder.popRemoved.2.isRemovedSorted := by
  rw [h.builder]
  split <;> exact ⟨rfl, rfl⟩

omit [SinglePrecision F] in
/-- A round of the loop. -/
theorem Condensing.step {last src dst : Nat} (hc : Condensing b last)
    (hnext : b.nextMove last = some (src, dst)) (h : Moved cfg b src dst b') :
    Condensing b' (src - 1) ∧ b'.numReqs = b.numReqs := by
  obtain ⟨hlt, hle, hmem, hsrc, hbetween, hremoved, -⟩ := hc.nextMove hnext
  obtain ⟨reqId, hreqId, hids, hindex⟩ := h.ids
  obtain ⟨hremoved', hsorted'⟩ := h.removed_eq
  have hltSrc : src < b.reqIds.length := (List.getElem?_eq_some_iff.mp hreqId).1
  have hget (k : Nat) : b'.reqIds[k]? = if k = src then some none else if k = dst then
      some (some reqId) else b.reqIds[k]? := by
    rw [hids]
    by_cases hk : k = src
    · subst hk
      simp [hltSrc]
    · rw [List.getElem?_set_ne (Ne.symm hk), if_neg hk]
      by_cases hkd : k = dst
      · subst hkd
        simp [lt_trans hlt hltSrc]
      · rw [List.getElem?_set_ne (Ne.symm hkd), if_neg hkd]
  have hdst : b.reqIds[dst]? = some none := (hc.hole dst (by omega)).mpr hmem
  refine ⟨⟨fun k id => ?_, fun k hk => ?_, fun k id hid => ?_, ?_, ?_, ?_⟩, ?_⟩
  · rw [hget, hindex, Dict.get?_insert]
    have hk := hc.indexed k id
    have hs := hc.indexed src id
    grind
  · rw [hget, hremoved', hremoved, ← hc.hole k (by omega)]
    by_cases hkd : k = dst <;> simp [hkd, show k ≠ src by omega, show dst ≠ src by omega]
  · rw [hget] at hid
    split_ifs at hid with hks hkd
    · cases hid
    · rw [hkd]
      omega
    · have hkl := hc.above k id hid
      by_contra hgt
      have hin := hbetween k (by omega) hkl
      rw [← hc.hole k hkl, hid] at hin
      cases hin
  · rw [hids, List.length_set, List.length_set]
    omega
  · refine ⟨?_, fun hs => ?_⟩
    · rw [hremoved']
      exact hc.descending.of_popRemoved.1
    · rw [hremoved']
      exact hc.descending.of_popRemoved.2 (hsorted' ▸ hs)
  · rw [h.outputs, hids, List.length_set, List.length_set, List.length_set, List.length_set,
      hc.outputs]
  · rw [numReqs, hindex, Dict.length_entries_insert ((hc.indexed _ _).mp hreqId)]
    rfl

/-- The request that moves keeps its row, and so do the others. -/
theorem Condensing.owned {last src dst : Nat} (hc : Condensing b last)
    (hnext : b.nextMove last = some (src, dst)) (h : Moved cfg b src dst b')
    (ho : Owned cfg requests accepted b)
    (hembeds : (b.reqPromptEmbeds.get? src).isSome ∨ b.reqPromptEmbeds.get? dst = none)
    (hneeds : b.logitsProcessingNeedsTokenIds src = b.logitsProcessingNeedsTokenIds dst) :
    Owned cfg requests accepted b' := by
  obtain ⟨hlt, hle, hmem, -⟩ := hc.nextMove hnext
  obtain ⟨reqId, hreqId, hids, -⟩ := h.ids
  have hltSrc : src < b.reqIds.length := (List.getElem?_eq_some_iff.mp hreqId).1
  have hltDst : dst < b.reqIds.length := lt_trans hlt hltSrc
  have hdst : b.reqIds[dst]? = some none := (hc.hole dst (by omega)).mpr hmem
  have hstale (hpool : cfg.isPoolingModel = false) :=
    ho.stale hpool dst fun id hid => by simp [hdst] at hid
  have hrow := h.row (hc.outputs ▸ hltDst) hstale hembeds
    (fun hpool => (ho.accepted hpool src).trans (ho.accepted hpool dst).symm) hneeds
  refine ⟨fun k id hid => ?_, fun hpool => h.accepted hpool ▸ ho.accepted hpool,
    h.needs ▸ ho.needs, h.sizes.trans ho.sizes, fun hpool k hk => ?_⟩
  · rw [hids] at hid
    have hks : k ≠ src := by
      rintro rfl
      simp [hltSrc] at hid
    rw [List.getElem?_set_ne (Ne.symm hks)] at hid
    rw [hrow k hks]
    by_cases hkd : k = dst
    · subst hkd
      rw [List.getElem?_set_self hltDst] at hid
      cases hid
      rw [if_pos rfl]
      exact ho.rows src reqId hreqId
    · rw [List.getElem?_set_ne (Ne.symm hkd)] at hid
      rw [if_neg hkd]
      exact ho.rows k id hid
  · obtain ⟨hgenerators, hbad⟩ := h.dicts hpool
    rw [hgenerators, hbad, get?_moveDictValue (Or.inr (hstale hpool).1),
      get?_moveDictValue (Or.inr (hstale hpool).2)]
    by_cases hkd : k = dst
    · refine absurd ?_ (hk reqId)
      rw [hids, hkd, List.getElem?_set_ne (by omega), List.getElem?_set_self hltDst]
    · rw [if_neg hkd, if_neg hkd]
      by_cases hks : k = src
      · rw [if_pos hks, if_pos hks]
        exact ⟨rfl, rfl⟩
      · rw [if_neg hks, if_neg hks]
        refine ho.stale hpool k fun id hid => hk id ?_
        rw [hids, List.getElem?_set_ne (Ne.symm hks), List.getElem?_set_ne (Ne.symm hkd)]
        exact hid

omit [SinglePrecision F] in
/-- Once no hole is left below the last request, the requests are at the first indices. -/
theorem Condensing.done {last : Nat} (hc : Condensing b last)
    (hstop : b.nextMove last = none ∨ b.batchUpdateBuilder.removedIndices = []) (i : Nat) :
    (∃ id, b.reqIds[i]? = some (some id)) ↔ i < b.numReqs := by
  obtain ⟨m, hm⟩ : ∃ m : Nat, ∀ i : Nat,
      (∃ id, b.reqIds[i]? = some (some id)) ↔ i < m := by
    -- an index that is no hole has a request
    have hlive (i : Nat) (hi : i ≤ last)
        (hnot : i ∉ b.batchUpdateBuilder.removedIndices) : ∃ id, b.reqIds[i]? = some (some id) := by
      have hlt := lt_of_le_of_lt hi hc.last_lt
      cases hid : b.reqIds[i] with
      | none =>
        refine absurd ((hc.hole i hi).mp ?_) hnot
        rw [List.getElem?_eq_getElem hlt, hid]
      | some id => exact ⟨id, by rw [List.getElem?_eq_getElem hlt, hid]⟩
    have hdead (i : Nat) (hmem : i ∈ b.batchUpdateBuilder.removedIndices) (id : RequestId)
        (hid : b.reqIds[i]? = some (some id)) : False := by
      have hnone := (hc.hole i (hc.above i id hid)).mpr hmem
      rw [hid] at hnone
      cases hnone
    obtain ⟨hle, hbetween, hzero⟩ := lastNonEmpty_spec b.batchUpdateBuilder.removedIndices last
    rcases hc.descending.popRemoved with ⟨hnil, -, -⟩ | ⟨l, dst, hperm, hdesc, -, hpeek⟩
    · refine ⟨last + 1, fun i => ⟨fun ⟨id, hid⟩ => ?_, fun hi => ?_⟩⟩
      · have := hc.above i id hid
        omega
      · exact hlive i (by omega) (by simp [hnil])
    · have hstop' : b.nextMove last = none := by
        refine hstop.resolve_right fun hnil => ?_
        simp [hnil] at hperm
      have hge : lastNonEmpty b.batchUpdateBuilder.removedIndices last ≤ dst := by
        unfold InputBatch.nextMove at hstop'
        simp only [hpeek] at hstop'
        by_contra hlt
        rw [if_neg hlt] at hstop'
        cases hstop'
      have hleast (i : Nat) (hi : i ∈ b.batchUpdateBuilder.removedIndices) : dst ≤ i := by
        rw [← hperm.mem_iff, List.mem_append, List.mem_singleton] at hi
        rcases hi with hi | rfl
        · exact ((List.pairwise_append.mp hdesc).2.2 i hi dst (by simp)).le
        · exact le_rfl
      by_cases hsrc : lastNonEmpty b.batchUpdateBuilder.removedIndices last ∈
          b.batchUpdateBuilder.removedIndices
      · -- there is no request at all
        refine ⟨0, fun i => ⟨fun ⟨id, hid⟩ => ?_, fun hi => absurd hi (Nat.not_lt_zero i)⟩⟩
        refine (hdead i ?_ id hid).elim
        by_cases hi : i = 0
        · rw [hi, ← hzero hsrc]
          exact hsrc
        · exact hbetween i (by rw [hzero hsrc]; omega) (hc.above i id hid)
      · refine ⟨lastNonEmpty b.batchUpdateBuilder.removedIndices last + 1,
          fun i => ⟨fun ⟨id, hid⟩ => ?_, fun hi => hlive i (by omega) fun hmem => ?_⟩⟩
        · by_contra hgt
          exact hdead i (hbetween i (by omega) (hc.above i id hid)) id hid
        · have hi' := hleast i hmem
          have he : i = lastNonEmpty b.batchUpdateBuilder.removedIndices last := by omega
          exact hsrc (he ▸ hmem)
  have hcount := hc.indexed.numReqs_eq (l := List.range m) List.nodup_range fun i => by
    rw [List.mem_range, hm]
  rw [hm, hcount, List.length_range]

/-- The moves of the loop all go to indices without stored embeddings, or carry their own, and
between indices that alike need token ids or not. -/
def condenseClean (cfg : BatchConfig) : Nat → InputBatch F → Nat → Bool
  | 0, _, _ => true
  | empties + 1, b, last =>
    match b.nextMove last with
    | none => true
    | some (src, dst) =>
      ((b.reqPromptEmbeds.get? src).isSome || (b.reqPromptEmbeds.get? dst).isNone) &&
        b.logitsProcessingNeedsTokenIds src == b.logitsProcessingNeedsTokenIds dst &&
        match b.moveRequest cfg src dst with
        | .ok b => condenseClean cfg empties b (src - 1)
        | .error _ => true

/-- What `condense` needs. -/
def CondenseClean (cfg : BatchConfig) (b : InputBatch F) : Prop :=
  let u := b.batchUpdateBuilder.ensureRemovedSorted
  condenseClean cfg u.removedIndices.length { b with batchUpdateBuilder := u }
    (b.numReqs + u.removedIndices.length - 1) = true

section CondenseRule

variable {I : Nat → InputBatch F → Nat → Prop}

omit [SinglePrecision F]

/-- The rule of the loop: what a round keeps holds at its end. -/
theorem Condensing.loop {empties last : Nat} (hc : Condensing b last)
    (hlength : b.batchUpdateBuilder.removedIndices.length ≤ empties) (hI : I empties b last)
    (hround : ∀ n b b' last src dst, Condensing b last → b.nextMove last = some (src, dst) →
      b.moveRequest cfg src dst = .ok b' → I (n + 1) b last → I n b' (src - 1))
    (h : condenseLoop cfg empties b last = .ok b') :
    ∃ n last', I n b' last' ∧ Condensing b' last' ∧ b'.numReqs = b.numReqs ∧
      (b'.nextMove last' = none ∨ b'.batchUpdateBuilder.removedIndices = []) := by
  induction empties generalizing b last with
  | zero =>
    cases h
    have hnil := List.length_eq_zero_iff.mp (Nat.le_zero.mp hlength)
    exact ⟨0, last, hI, hc, rfl, Or.inr hnil⟩
  | succ empties ih =>
    unfold condenseLoop at h
    cases hnext : b.nextMove last with
    | none =>
      simp only [hnext] at h
      cases h
      exact ⟨empties + 1, last, hI, hc, rfl, Or.inl hnext⟩
    | some move =>
      obtain ⟨src, dst⟩ := move
      simp only [hnext, bind_ok_iff] at h
      obtain ⟨b₁, hmove, hrest⟩ := h
      have hmoved := moved_of_moveRequest hmove
      obtain ⟨hc₁, hnum⟩ := hc.step hnext hmoved
      obtain ⟨-, -, -, -, -, -, hcount⟩ := hc.nextMove hnext
      have hlength₁ : b₁.batchUpdateBuilder.removedIndices.length ≤ empties := by
        rw [hmoved.removed_eq.1]
        omega
      obtain ⟨n, last', hI', hc', hnum', hstop⟩ :=
        ih hc₁ hlength₁ (hround empties b b₁ last src dst hc hnext hmove hI) hrest
      exact ⟨n, last', hI', hc', hnum'.trans hnum, hstop⟩

/-- The batch behind `condense` is the one at the end of the loop, with its lists trimmed. -/
structure Condensed (b₂ b' : InputBatch F) : Prop where
  packed : b'.Packed
  live : ∀ (i : Nat) (id : RequestId),
    b'.reqIds[i]? = some (some id) ↔ b₂.reqIds[i]? = some (some id)
  removed : ∀ (i : Nat) (id : RequestId),
    b₂.reqIds[i]? = some (some id) → i ∉ b₂.batchUpdateBuilder.removedIndices
  rest : b' = { b₂ with
    reqIds := b'.reqIds
    reqOutputTokenIds := b'.reqOutputTokenIds
    specTokenIds := b'.specTokenIds }
  outputs : ∀ (i : Nat) (id : RequestId), b'.reqIds[i]? = some (some id) →
    b'.reqOutputTokenIds[i]? = b₂.reqOutputTokenIds[i]?

/-- Trimming behind the loop. -/
theorem Condensing.condensed {last : Nat} (hc : Condensing b last)
    (hstop : b.nextMove last = none ∨ b.batchUpdateBuilder.removedIndices = []) :
    Condensed b { b with
      reqIds := b.reqIds.take b.numReqs
      reqOutputTokenIds := b.reqOutputTokenIds.take b.numReqs
      specTokenIds := b.specTokenIds.take b.numReqs } := by
  have hlive := hc.done hstop
  have htake (i : Nat) (id : RequestId) :
      (b.reqIds.take b.numReqs)[i]? = some (some id) ↔ b.reqIds[i]? = some (some id) := by
    rw [List.getElem?_take]
    split
    · rfl
    · rename_i hge
      rw [← hlive] at hge
      exact ⟨fun hid => (by cases hid), fun hid => absurd ⟨id, hid⟩ hge⟩
  refine ⟨⟨fun i id => (htake i id).trans (hc.indexed i id), fun i hi => ?_, ?_⟩, htake,
    fun i id hid hmem => ?_, rfl, fun i id hid => ?_⟩
  · rw [List.getElem?_take] at hi
    split at hi
    · rename_i hlt
      rw [← hlive] at hlt
      obtain ⟨id, hid⟩ := hlt
      rw [hid] at hi
      cases hi
    · cases hi
  · rw [List.length_take, List.length_take, hc.outputs]
  · have hnone := (hc.hole i (hc.above i id hid)).mpr hmem
    rw [hid] at hnone
    cases hnone
  · exact List.getElem?_take_of_lt ((hlive i).mp ⟨id, (htake i id).mp hid⟩)

/-- Sorting the removed indices changes nothing else. -/
theorem Layout.sorted (hb : b.Layout) :
    Layout { b with batchUpdateBuilder := b.batchUpdateBuilder.ensureRemovedSorted } := by
  obtain ⟨hperm, hdesc, -⟩ := hb.descending.ensureRemovedSorted
  refine ⟨hb.indexed, fun i => (hb.hole i).trans hperm.mem_iff.symm, ⟨?_, fun _ => hdesc⟩,
    hb.outputs⟩
  exact hperm.nodup_iff.mpr hb.descending.1

/-- The loop of `condense` begins with the last index. -/
theorem Layout.condensing (hb : b.Layout) (hempty : b.batchUpdateBuilder.removedIndices ≠ []) :
    Condensing b (b.numReqs + b.batchUpdateBuilder.removedIndices.length - 1) := by
  have hlength := hb.length_eq
  have hpos := List.length_pos_iff.mpr hempty
  refine ⟨hb.indexed, fun i _ => hb.hole i, fun i id hid => ?_, by omega, hb.descending,
    hb.outputs⟩
  have hlt := (List.getElem?_eq_some_iff.mp hid).1
  omega

/-- The rule of `condense`: what holds at its start and is kept by every round of its loop holds
of the batch that is trimmed. -/
theorem Layout.condense_rule {J : InputBatch F → Prop} {b₁ : InputBatch F} (hb : b.Layout)
    (hb₁ : b₁ = { b with batchUpdateBuilder := b.batchUpdateBuilder.ensureRemovedSorted })
    (hI : I b₁.batchUpdateBuilder.removedIndices.length b₁
      (b₁.numReqs + b₁.batchUpdateBuilder.removedIndices.length - 1))
    (hround : ∀ n b b' last src dst, Condensing b last → b.nextMove last = some (src, dst) →
      b.moveRequest cfg src dst = .ok b' → I (n + 1) b last → I n b' (src - 1))
    (hJ : ∀ n b last, I n b last → J b) (h : b.condense cfg = .ok b') :
    ∃ b₂, J b₂ ∧ Condensed b₂ b' := by
  have hlayout : b₁.Layout := hb₁ ▸ hb.sorted
  have hcondense : b.condense cfg =
      (if b₁.batchUpdateBuilder.removedIndices.length = 0 then .ok b₁
      else if b₁.numReqs = 0 then
        .ok { b₁ with reqIds := [], reqOutputTokenIds := [], specTokenIds := [] }
      else do
        let b₂ ← condenseLoop cfg b₁.batchUpdateBuilder.removedIndices.length b₁
          (b₁.numReqs + b₁.batchUpdateBuilder.removedIndices.length - 1)
        pure { b₂ with
          reqIds := b₂.reqIds.take b₁.numReqs
          reqOutputTokenIds := b₂.reqOutputTokenIds.take b₁.numReqs
          specTokenIds := b₂.specTokenIds.take b₁.numReqs }) := by
    subst hb₁
    rfl
  have hdead (i : Nat) (id : RequestId) (hid : b₁.reqIds[i]? = some (some id)) :
      i ∉ b₁.batchUpdateBuilder.removedIndices := by
    rw [← hlayout.hole, hid]
    simp
  rw [hcondense] at h
  split at h
  · rename_i hnone
    cases h
    have hnil := List.length_eq_zero_iff.mp hnone
    refine ⟨b', hJ _ _ _ hI, ⟨hlayout.indexed, fun i hi => ?_, hlayout.outputs⟩,
      fun _ _ => Iff.rfl, hdead, rfl, fun _ _ _ => rfl⟩
    rw [hlayout.hole, hnil] at hi
    cases hi
  · rename_i hsome
    split at h
    · rename_i hzero
      cases h
      have hentries : b₁.reqIdToIndex.entries = [] := List.length_eq_zero_iff.mp hzero
      have hnone := (Dict.entries_eq_nil_iff _).mp hentries
      refine ⟨b₁, hJ _ _ _ hI, ⟨fun i id => ?_, fun i hi => (by cases hi), rfl⟩, fun i id => ?_,
        hdead, rfl, fun i id hid => (by cases hid)⟩
      · exact ⟨fun hid => (by cases hid), fun hid => (by cases (hnone id).symm.trans hid)⟩
      · rw [hlayout.indexed, hnone]
        exact ⟨fun hid => (by cases hid), fun hid => (by cases hid)⟩
    · simp only [bind_ok_iff, pure_ok_iff] at h
      obtain ⟨b₂, hloop, rfl⟩ := h
      have hc := hlayout.condensing fun hnil => hsome (List.length_eq_zero_iff.mpr hnil)
      obtain ⟨n, last', hI', hc', hnum, hstop⟩ := hc.loop le_rfl hI hround hloop
      rw [← hnum]
      exact ⟨b₂, hJ _ _ _ hI', hc'.condensed hstop⟩

end CondenseRule

/-- Trimming keeps the rows. -/
theorem Condensed.owned {b₂ : InputBatch F} (h : Condensed b₂ b') (ho : Owned cfg requests accepted b₂) :
    Owned cfg requests accepted b' := by
  have hrow (i : Nat) (id : RequestId) (hid : b'.reqIds[i]? = some (some id)) :
      b'.rowAt cfg i = b₂.rowAt cfg i := by
    have houtput := h.outputs i id hid
    rw [h.rest] at houtput ⊢
    simp only [rowAt, houtput]
  refine ⟨fun i id hid => ?_, ?_, ?_, ?_, fun hpool i hi => ?_⟩
  · obtain ⟨r, hr, hrid, hsame⟩ := ho.rows i id ((h.live i id).mp hid)
    exact ⟨r, hr, hrid, (hrow i id hid).trans hsame⟩
  · rw [h.rest]
    exact ho.accepted
  · rw [h.rest]
    exact ho.needs
  · rw [h.rest]
    exact ho.sizes
  · rw [h.rest]
    exact ho.stale hpool i fun id hid => hi id ((h.live i id).mpr hid)

/-- `condense` fills the holes and keeps the rows. -/
theorem Layout.condense (hb : b.Layout) (ho : Owned cfg requests accepted b) (hclean : CondenseClean cfg b)
    (h : b.condense cfg = .ok b') : b'.Packed ∧ Owned cfg requests accepted b' := by
  have howned : Owned cfg requests accepted
      { b with batchUpdateBuilder := b.batchUpdateBuilder.ensureRemovedSorted } :=
    ⟨ho.rows, ho.accepted, ho.needs, ho.sizes, ho.stale⟩
  have hround (n : Nat) (b b' : InputBatch F) (last src dst : Nat) (hc : Condensing b last)
      (hnext : b.nextMove last = some (src, dst)) (hmove : b.moveRequest cfg src dst = .ok b')
      (hI : Owned cfg requests accepted b ∧ condenseClean cfg (n + 1) b last = true) :
      Owned cfg requests accepted b' ∧ condenseClean cfg n b' (src - 1) = true := by
    obtain ⟨ho, hclean⟩ := hI
    unfold condenseClean at hclean
    simp only [hnext, hmove, Bool.and_eq_true, Bool.or_eq_true, Option.isNone_iff_eq_none,
      beq_iff_eq] at hclean
    obtain ⟨⟨hembeds, hneeds⟩, hrest⟩ := hclean
    exact ⟨hc.owned hnext (moved_of_moveRequest hmove) ho hembeds hneeds, hrest⟩
  obtain ⟨b₂, ho₂, hcondensed⟩ := hb.condense_rule
    (I := fun n b last => Owned cfg requests accepted b ∧ condenseClean cfg n b last = true) rfl
    ⟨howned, hclean⟩ hround (fun _ _ _ hI => hI.1) h
  exact ⟨hcondensed.packed, hcondensed.owned ho₂⟩

end InputBatch

end Vllm.Worker
