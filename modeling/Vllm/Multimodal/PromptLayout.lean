import Mathlib.Data.List.Flatten
import Vllm.Multimodal.PromptMatches

/-!
# The updated prompt

Every round applies an update to an open item, so that the rounds end. The output is woven of
pieces of the prompt and of the contents of the items with an update. Where the updates replace
tokens, the pieces are the prompt without the replaced targets.
-/

namespace Vllm.Multimodal

open Occurrence

/-! ## The items -/

section Items

variable {updates : MultiModalPromptUpdates} {result : ApplyResult} {key : ItemKey}

/-- An item is one of those of its modality. -/
theorem mem_itemsOf {itemUpdates : List ResolvedPromptUpdate} :
    (key, itemUpdates) ∈ itemsOf updates ↔
      ∃ items, updates.get? key.1 = some items ∧ items[key.2]? = some itemUpdates := by
  simp only [itemsOf, List.mem_flatMap, List.mem_map]
  constructor
  · rintro ⟨e, he, item, hitem, heq⟩
    obtain ⟨rfl, rfl⟩ := Prod.mk.inj heq
    exact ⟨e.2, (updates.mem_entries_iff).mp he, List.mem_zipIdx_iff_getElem?.mp hitem⟩
  · rintro ⟨items, hget, hitem⟩
    exact ⟨(key.1, items), (updates.mem_entries_iff).mpr hget, (itemUpdates, key.2),
      List.mem_zipIdx_iff_getElem?.mpr hitem, rfl⟩

/-- Every item has its own key. -/
theorem nodup_itemsOf (updates : MultiModalPromptUpdates) :
    ((itemsOf updates).map Prod.fst).Nodup := by
  rw [itemsOf, List.map_flatMap, List.nodup_flatMap]
  constructor
  · intro e _
    rw [List.map_map]
    have hkeys : (e.2.zipIdx.map (Prod.fst ∘ fun item => ((e.1, item.2), item.1)))
        = (List.range' 0 e.2.length).map fun i => (e.1, i) := by
      rw [← List.zipIdx_map_snd 0 e.2, List.map_map]
      rfl
    rw [hkeys]
    exact (List.nodup_range' 1 Nat.one_pos).map fun i j heq => (Prod.mk.inj heq).2
  · refine (List.pairwise_map.mp updates.nodup_keys).imp ?_
    intro e e' hne key hkey hkey'
    obtain ⟨item, hitem, rfl⟩ := List.mem_map.mp hkey
    obtain ⟨item', hitem', heq⟩ := List.mem_map.mp hkey'
    obtain ⟨entry, -, rfl⟩ := List.mem_map.mp hitem
    obtain ⟨entry', -, rfl⟩ := List.mem_map.mp hitem'
    exact hne (congrArg Prod.fst heq).symm

/-- A result has a place for each item. -/
def SameShape (updates : MultiModalPromptUpdates) (result : ApplyResult) : Prop :=
  ∀ modality, (result.get? modality).map List.length = (updates.get? modality).map List.length

/-- Writing for one item leaves the others. -/
theorem SameShape.at_set (h : SameShape updates result) {itemUpdates : List ResolvedPromptUpdate}
    (hkey : (key, itemUpdates) ∈ itemsOf updates) (updateIdx : Nat) (key' : ItemKey) :
    (result.set key updateIdx).at key' = if key' = key then some updateIdx else result.at key' := by
  obtain ⟨items, hget, hitem⟩ := mem_itemsOf.mp hkey
  have hshape := h key.1
  rw [hget, Option.map_some, Option.map_eq_some_iff] at hshape
  obtain ⟨res, hres, hlength⟩ := hshape
  obtain ⟨hlt, -⟩ := List.getElem?_eq_some_iff.mp hitem
  rw [ApplyResult.set, hres]
  simp only [ApplyResult.at, Dict.get?_insert]
  by_cases hmodality : key'.1 = key.1
  · rw [if_pos hmodality, hmodality, hres]
    simp only [Option.bind_some, List.getElem?_set]
    by_cases hidx : key.2 = key'.2
    · rw [if_pos hidx, if_pos (hlength ▸ hlt), if_pos (Prod.ext hmodality hidx.symm)]
      rfl
    · rw [if_neg hidx, if_neg (fun heq => hidx (congrArg Prod.snd heq).symm)]
  · rw [if_neg hmodality, if_neg (fun heq => hmodality (congrArg Prod.fst heq))]

theorem SameShape.set (h : SameShape updates result) (key : ItemKey) (updateIdx : Nat) :
    SameShape updates (result.set key updateIdx) := by
  intro modality
  rw [ApplyResult.set]
  cases hres : result.get? key.1 with
  | none => exact h modality
  | some res =>
    simp only [Dict.get?_insert]
    split
    · next heq =>
      rw [heq, ← h key.1, hres]
      simp
    · exact h modality

/-- The result of no update. -/
theorem get?_emptyResult (updates : MultiModalPromptUpdates) (modality : String) :
    (emptyResult updates).get? modality
      = (updates.get? modality).map fun items => List.replicate items.length none :=
  Dict.findEntry_mapValues (fun items : List (List ResolvedPromptUpdate) =>
    List.replicate items.length (none : Option Nat)) updates.entries modality

private theorem sameShape_emptyResult (updates : MultiModalPromptUpdates) :
    SameShape updates (emptyResult updates) := by
  intro modality
  rw [get?_emptyResult, Option.map_map]
  congr 1
  funext items
  simp

private theorem at_emptyResult (updates : MultiModalPromptUpdates) (key : ItemKey) :
    (emptyResult updates).at key = none := by
  rw [ApplyResult.at, get?_emptyResult]
  cases updates.get? key.1 with
  | none => rfl
  | some items =>
    simp only [Option.map_some, Option.bind_some, List.getElem?_replicate]
    split <;> rfl

/-- All items have been found where none is open. -/
theorem SameShape.allItemsFound_iff (h : SameShape updates result) :
    allItemsFound updates result = true ↔ ∀ item ∈ itemsOf updates, result.at item.1 ≠ none := by
  rw [allItemsFound, List.all_eq_true]
  have hentry : ∀ e ∈ updates.entries, decide (e.2.length ≤
      ((result.get? e.1).getD []).countP Option.isSome) = true ↔
        ∀ i < e.2.length, result.at (e.1, i) ≠ none := by
    intro e he
    have hshape := h e.1
    rw [(updates.mem_entries_iff).mp he, Option.map_some, Option.map_eq_some_iff] at hshape
    obtain ⟨res, hres, hlength⟩ := hshape
    rw [decide_eq_true_eq, hres, Option.getD_some, ← hlength]
    constructor
    · intro hle i hi
      have hall := List.countP_eq_length.mp (Nat.le_antisymm List.countP_le_length hle)
      rw [ApplyResult.at, hres, Option.bind_some, List.getElem?_eq_getElem hi]
      have := hall _ (List.getElem_mem hi)
      rw [Option.join_some]
      exact Option.isSome_iff_ne_none.mp this
    · intro hall
      refine Nat.le_of_eq (List.countP_eq_length.mpr fun entry hentry => ?_).symm
      obtain ⟨i, hi, rfl⟩ := List.mem_iff_getElem.mp hentry
      have := hall i hi
      rw [ApplyResult.at, hres, Option.bind_some, List.getElem?_eq_getElem hi,
        Option.join_some] at this
      exact Option.isSome_iff_ne_none.mpr this
  constructor
  · rintro hall ⟨key, itemUpdates⟩ hitem
    obtain ⟨items, hget, hidx⟩ := mem_itemsOf.mp hitem
    obtain ⟨hlt, -⟩ := List.getElem?_eq_some_iff.mp hidx
    have he := (updates.mem_entries_iff).mpr hget
    exact (hentry _ he).mp (hall _ he) key.2 hlt
  · intro hall e he
    refine (hentry e he).mpr fun i hi => ?_
    exact hall ((e.1, i), e.2[i]) (mem_itemsOf.mpr
      ⟨e.2, (updates.mem_entries_iff).mp he, List.getElem?_eq_getElem hi⟩)

end Items

/-! ## One round -/

section Round

variable {prompt : List TokenId} {updates : MultiModalPromptUpdates} {prevEndIdx : Nat}
  {result : ApplyResult}

private theorem firstNonEmpty_sublist (l : List MatchToApply) : (firstNonEmpty l).Sublist l := by
  induction l with
  | nil => exact List.Sublist.refl _
  | cons item rest ih =>
    rw [firstNonEmpty]
    split
    · exact ih.cons_cons item
    · exact List.filter_sublist.cons_cons item

private theorem firstNonEmpty_ne_nil {l : List MatchToApply} (hne : l ≠ []) :
    firstNonEmpty l ≠ [] := by
  cases l with
  | nil => exact absurd rfl hne
  | cons item rest =>
    rw [firstNonEmpty]
    split <;> exact List.cons_ne_nil _ _

/-- An item has an update of a mode with a match. -/
structure Applies (prompt : List TokenId) (updates : MultiModalPromptUpdates) (prevEndIdx : Nat)
    (mode : UpdateMode) (item : MatchToApply) : Prop where
  update : ∃ itemUpdates update, (item.1, itemUpdates) ∈ itemsOf updates ∧
    itemUpdates[item.2.2]? = some update ∧ update.mode = mode ∧
    firstMatch prompt prevEndIdx update = some item.2.1

/-- What is to be applied in a round. -/
structure RoundMatches (prompt : List TokenId) (updates : MultiModalPromptUpdates)
    (prevEndIdx : Nat) (result : ApplyResult) (mode : UpdateMode) (matched : List MatchToApply) :
    Prop where
  ne_nil : matched ≠ []
  nodup : (matched.map Prod.fst).Nodup
  isOpen : ∀ item ∈ matched, result.at item.1 = none
  applies : ∀ item ∈ matched, Applies prompt updates prevEndIdx mode item

/-- No update of an open item matches. -/
def NoMatch (prompt : List TokenId) (updates : MultiModalPromptUpdates) (prevEndIdx : Nat)
    (result : ApplyResult) : Prop :=
  ∀ item ∈ itemsOf updates, result.at item.1 = none → ∀ update ∈ item.2,
    firstMatch prompt prevEndIdx update = none

theorem candidate_eq_some {mode : UpdateMode} {item : ItemKey × List ResolvedPromptUpdate}
    {found : MatchToApply} (h : candidate prompt prevEndIdx result mode item = some found) :
    found.1 = item.1 ∧ result.at item.1 = none ∧ ∃ update, item.2[found.2.2]? = some update ∧
      update.mode = mode ∧ firstMatch prompt prevEndIdx update = some found.2.1 := by
  rw [candidate] at h
  split at h
  · cases h
  · next hopen =>
    obtain ⟨pair, hpair, rfl⟩ := Option.map_eq_some_iff.mp h
    obtain ⟨update, hupdate, hfound⟩ := List.exists_of_findSome?_eq_some hpair
    split at hfound
    · next hmode =>
      obtain ⟨first, hfirst, rfl⟩ := Option.map_eq_some_iff.mp hfound
      exact ⟨rfl, not_not.mp hopen, update.1, List.mem_zipIdx_iff_getElem?.mp hupdate, hmode,
        hfirst⟩
    · cases hfound

theorem nodup_candidates (mode : UpdateMode) :
    (((itemsOf updates).filterMap (candidate prompt prevEndIdx result mode)).map
      Prod.fst).Nodup := by
  have hsublist : ∀ items : List (ItemKey × List ResolvedPromptUpdate),
      ((items.filterMap (candidate prompt prevEndIdx result mode)).map Prod.fst).Sublist
        (items.map Prod.fst) := by
    intro items
    induction items with
    | nil => exact List.Sublist.refl _
    | cons item items ih =>
      rw [List.filterMap_cons]
      cases hfound : candidate prompt prevEndIdx result mode item with
      | none => exact ih.cons _
      | some found =>
        rw [List.map_cons, List.map_cons, (candidate_eq_some hfound).1]
        exact ih.cons_cons _
  exact (nodup_itemsOf updates).sublist (hsublist _)

/-- A search finds nothing, or something to apply for some open items. -/
theorem findMatches_cases (prompt : List TokenId) (updates : MultiModalPromptUpdates)
    (prevEndIdx : Nat) (result : ApplyResult) :
    (findMatches prompt updates prevEndIdx result = (none, []) ∧
      NoMatch prompt updates prevEndIdx result) ∨
    ∃ mode matched, findMatches prompt updates prevEndIdx result = (some mode, matched) ∧
      RoundMatches prompt updates prevEndIdx result mode matched := by
  have hfold := @foldl_findItem_empty prompt prevEndIdx result _ (nodup_itemsOf updates)
  rw [findMatches]
  cases hmode : roundMode prompt prevEndIdx result (itemsOf updates) with
  | none =>
    rw [hmode] at hfold
    refine .inl ⟨by rw [hfold]; simp, fun item hitem hopen update hupdate => ?_⟩
    have hnone := List.findSome?_eq_none_iff.mp hmode item hitem
    rw [if_neg (not_not.mpr hopen), matchMode, List.findSome?_eq_none_iff] at hnone
    obtain ⟨i, hi⟩ := List.mem_iff_getElem?.mp hupdate
    exact Option.map_eq_none_iff.mp
      (hnone (update, i) (List.mem_zipIdx_iff_getElem?.mpr hi))
  | some mode =>
    rw [hmode] at hfold
    obtain ⟨found, hfound⟩ : ∃ found, found =
      (itemsOf updates).filterMap (candidate prompt prevEndIdx result mode) := ⟨_, rfl⟩
    have hne : found ≠ [] := by
      obtain ⟨item, hitem, hsettles⟩ := List.exists_of_findSome?_eq_some hmode
      split at hsettles
      · cases hsettles
      · next hopen =>
        obtain ⟨update, hupdate, hmatch⟩ := List.exists_of_findSome?_eq_some hsettles
        obtain ⟨first, hfirst, rfl⟩ := Option.map_eq_some_iff.mp hmatch
        intro hnil
        rw [hfound, List.filterMap_eq_nil_iff] at hnil
        have hnone := hnil item hitem
        rw [candidate, if_neg hopen, Option.map_eq_none_iff, updateMatch,
          List.findSome?_eq_none_iff] at hnone
        have := hnone update hupdate
        rw [if_pos rfl, hfirst] at this
        cases this
    have hperm := List.mergeSort_perm found fun item item' => matchLe item.2.1 item'.2.1
    have hmem : ∀ item ∈ found, result.at item.1 = none ∧
        Applies prompt updates prevEndIdx mode item := by
      intro item hitem
      rw [hfound] at hitem
      obtain ⟨origin, horigin, heq⟩ := List.mem_filterMap.mp hitem
      obtain ⟨hkey, hopen, update, hupdate⟩ := candidate_eq_some heq
      rw [hkey]
      refine ⟨hopen, ⟨origin.2, update, ?_, hupdate⟩⟩
      rw [hkey]
      exact horigin
    have hnodup : (found.map Prod.fst).Nodup := by
      rw [hfound]
      exact nodup_candidates mode
    rw [hfold]
    simp only [← hfound]
    refine .inr ⟨mode, _, rfl, ?_⟩
    have hsorted : RoundMatches prompt updates prevEndIdx result mode
        (found.mergeSort fun item item' => matchLe item.2.1 item'.2.1) :=
      ⟨fun hnil => hne (List.perm_nil.mp (hnil ▸ hperm.symm)),
        (hperm.map Prod.fst).nodup_iff.mpr hnodup,
        fun item hitem => (hmem item (hperm.mem_iff.mp hitem)).1,
        fun item hitem => (hmem item (hperm.mem_iff.mp hitem)).2⟩
    split
    · have hsub := firstNonEmpty_sublist
        (found.mergeSort fun item item' => matchLe item.2.1 item'.2.1)
      exact ⟨firstNonEmpty_ne_nil hsorted.ne_nil, hsorted.nodup.sublist (hsub.map _),
        fun item hitem => hsorted.isOpen item (hsub.subset hitem),
        fun item hitem => hsorted.applies item (hsub.subset hitem)⟩
    · exact hsorted

end Round

/-! ## The output -/

/-- An applied update: its mode, its item, its match and its index. -/
abbrev AppliedUpdate := UpdateMode × MatchToApply

/-- Up to where the prompt is copied before the content. -/
def cutOf (applied : AppliedUpdate) : Nat :=
  match applied.1 with
  | .insert => applied.2.2.1.endIdx
  | .replace => applied.2.2.1.startIdx

/-- Where the last of the updates ends. -/
def lastEnd : Nat → List AppliedUpdate → Nat
  | prevEndIdx, [] => prevEndIdx
  | _, applied :: rest => lastEnd applied.2.2.1.endIdx rest

/-- Pieces of the prompt with something after each, for each applied update. -/
def pieces (prompt : List TokenId) (inserted : MatchToApply → List TokenId) :
    Nat → List AppliedUpdate → List (List TokenId)
  | _, [] => []
  | prevEndIdx, applied :: rest =>
    (prompt.take (cutOf applied)).drop prevEndIdx :: inserted applied.2 ::
      pieces prompt inserted applied.2.2.1.endIdx rest

/-- The prompt with something for each applied update. -/
def woven (prompt : List TokenId) (inserted : MatchToApply → List TokenId)
    (applied : List AppliedUpdate) : List (List TokenId) :=
  pieces prompt inserted 0 applied ++ [prompt.drop (lastEnd 0 applied)]

section Weave

variable {prompt : List TokenId} {inserted : MatchToApply → List TokenId}

theorem lastEnd_append (prevEndIdx : Nat) (xs ys : List AppliedUpdate) :
    lastEnd prevEndIdx (xs ++ ys) = lastEnd (lastEnd prevEndIdx xs) ys := by
  induction xs generalizing prevEndIdx with
  | nil => rfl
  | cons x xs ih => exact ih _

private theorem pieces_append (prevEndIdx : Nat) (xs ys : List AppliedUpdate) :
    pieces prompt inserted prevEndIdx (xs ++ ys)
      = pieces prompt inserted prevEndIdx xs
        ++ pieces prompt inserted (lastEnd prevEndIdx xs) ys := by
  induction xs generalizing prevEndIdx with
  | nil => rfl
  | cons x xs ih => rw [List.cons_append, pieces, ih, pieces, lastEnd]; rfl

theorem pieces_congr {inserted' : MatchToApply → List TokenId} {prevEndIdx : Nat}
    {applied : List AppliedUpdate} (h : ∀ a ∈ applied, inserted a.2 = inserted' a.2) :
    pieces prompt inserted prevEndIdx applied = pieces prompt inserted' prevEndIdx applied := by
  induction applied generalizing prevEndIdx with
  | nil => rfl
  | cons a applied ih =>
    rw [pieces, pieces, h a List.mem_cons_self,
      ih fun b hb => h b (List.mem_cons_of_mem _ hb)]

end Weave

/-- The content of an applied update. -/
def contentFor (updates : MultiModalPromptUpdates) (item : MatchToApply) : List TokenId :=
  contentOf updates item.1 item.2.2

section Run

variable {prompt : List TokenId} {updates : MultiModalPromptUpdates}

/-- A state is what a list of applied updates makes of the prompt: each item has at most one
update, and the result tells which. -/
structure Woven (prompt : List TokenId) (updates : MultiModalPromptUpdates)
    (applied : List AppliedUpdate) (st : ApplyState) : Prop where
  shape : SameShape updates st.outResult
  prevEndIdx : st.prevEndIdx = lastEnd 0 applied
  outSeqs : st.outSeqs = pieces prompt (contentFor updates) 0 applied
  nodup : (applied.map fun a => a.2.1).Nodup
  result : ∀ key updateIdx, st.outResult.at key = some updateIdx ↔
    ∃ a ∈ applied, a.2.1 = key ∧ a.2.2.2 = updateIdx
  applies : ∀ a ∈ applied, ∃ prevEndIdx, Applies prompt updates prevEndIdx a.1 a.2

private theorem woven_empty (prompt : List TokenId) (updates : MultiModalPromptUpdates) :
    Woven prompt updates [] ⟨0, [], emptyResult updates⟩ := by
  refine ⟨sameShape_emptyResult updates, rfl, rfl, List.nodup_nil, fun key updateIdx => ?_,
    fun a ha => by cases ha⟩
  rw [at_emptyResult]
  simp

private theorem outResult_applyMatch (mode : UpdateMode) (st : ApplyState) (item : MatchToApply) :
    (applyMatch prompt updates mode st item).outResult = st.outResult.set item.1 item.2.2 := rfl

variable {applied : List AppliedUpdate}

/-- Applying one match for an open item. -/
theorem Woven.applyOne {st : ApplyState} (h : Woven prompt updates applied st) {mode : UpdateMode}
    {item : MatchToApply} {prevEndIdx : Nat}
    (happlies : Applies prompt updates prevEndIdx mode item)
    (hopen : st.outResult.at item.1 = none) :
    Woven prompt updates (applied ++ [(mode, item)]) (applyMatch prompt updates mode st item) := by
  obtain ⟨itemUpdates, update, hmem, -⟩ := happlies.update
  constructor
  case shape => exact h.shape.set _ _
  case prevEndIdx =>
    rw [lastEnd_append]
    rfl
  case outSeqs =>
    rw [pieces_append, ← h.outSeqs, ← h.prevEndIdx]
    cases mode <;> rfl
  case nodup =>
    rw [List.map_append, List.map_singleton]
    refine List.nodup_append.mpr ⟨h.nodup, List.nodup_singleton _, ?_⟩
    intro key hkey key' hkey' heq
    obtain rfl := List.mem_singleton.mp hkey'
    obtain ⟨a, ha, hakey⟩ := List.mem_map.mp hkey
    have := (h.result key a.2.2.2).mpr ⟨a, ha, hakey, rfl⟩
    rw [heq, hopen] at this
    cases this
  case result =>
    intro key updateIdx
    rw [outResult_applyMatch, h.shape.at_set hmem]
    split
    · next heq =>
      constructor
      · intro hidx
        exact ⟨(mode, item), by simp, heq.symm, Option.some.inj hidx⟩
      · rintro ⟨a, ha, hkey, rfl⟩
        rcases List.mem_append.mp ha with ha | ha
        · have := (h.result key a.2.2.2).mpr ⟨a, ha, hkey, rfl⟩
          rw [heq, hopen] at this
          cases this
        · rw [List.mem_singleton.mp ha]
    · next hne =>
      rw [h.result]
      constructor
      · rintro ⟨a, ha, hrest⟩
        exact ⟨a, List.mem_append_left _ ha, hrest⟩
      · rintro ⟨a, ha, hkey, hrest⟩
        rcases List.mem_append.mp ha with ha | ha
        · exact ⟨a, ha, hkey, hrest⟩
        · rw [List.mem_singleton.mp ha] at hkey
          exact absurd hkey.symm hne
  case applies =>
    intro a ha
    rcases List.mem_append.mp ha with ha | ha
    · exact h.applies a ha
    · rw [List.mem_singleton.mp ha]
      exact ⟨prevEndIdx, happlies⟩

/-- Applying the matches of a round. -/
theorem Woven.round {st : ApplyState} (h : Woven prompt updates applied st) {mode : UpdateMode}
    {matched : List MatchToApply} {prevEndIdx : Nat} (hnodup : (matched.map Prod.fst).Nodup)
    (hopen : ∀ item ∈ matched, st.outResult.at item.1 = none)
    (happlies : ∀ item ∈ matched, Applies prompt updates prevEndIdx mode item) :
    Woven prompt updates (applied ++ matched.map fun item => (mode, item))
      (matched.foldl (applyMatch prompt updates mode) st) := by
  induction matched generalizing applied st with
  | nil => simpa using h
  | cons item matched ih =>
    rw [List.map_cons, List.nodup_cons] at hnodup
    have hfirst := h.applyOne (happlies item List.mem_cons_self)
      (hopen item List.mem_cons_self)
    have hrest := ih hfirst hnodup.2 (fun other hother => ?_)
      fun other hother => happlies other (List.mem_cons_of_mem _ hother)
    · rw [List.map_cons, ← List.singleton_append, ← List.append_assoc]
      exact hrest
    · obtain ⟨itemUpdates, update, hmem, -⟩ := (happlies item List.mem_cons_self).update
      rw [outResult_applyMatch, h.shape.at_set hmem, if_neg]
      · exact hopen other (List.mem_cons_of_mem _ hother)
      · intro heq
        exact hnodup.1 (List.mem_map.mpr ⟨other, hother, heq⟩)

/-- How many items have no update. -/
def openItems (updates : MultiModalPromptUpdates) (result : ApplyResult) : Nat :=
  (itemsOf updates).countP fun item => decide (result.at item.1 = none)

/-- A test that holds less often, and not of one element where the other does. -/
private theorem countP_lt_countP {α : Type} {p q : α → Bool} {l : List α}
    (himp : ∀ x ∈ l, p x = true → q x = true) {x : α} (hx : x ∈ l) (hq : q x = true)
    (hp : p x = false) : l.countP p < l.countP q := by
  obtain ⟨front, back, rfl⟩ := List.append_of_mem hx
  have hfront := List.countP_mono_left fun y hy => himp y (List.mem_append_left _ hy)
  have hback := List.countP_mono_left fun y hy =>
    himp y (List.mem_append_right _ (List.mem_cons_of_mem _ hy))
  rw [List.countP_append, List.countP_append, List.countP_cons_of_pos hq,
    List.countP_cons_of_neg (by simp [hp])]
  omega

/-- Applying for open items leaves fewer of them. -/
theorem openItems_round {st : ApplyState} (h : Woven prompt updates applied st) {mode : UpdateMode}
    {matched : List MatchToApply}
    (hround : RoundMatches prompt updates st.prevEndIdx st.outResult mode matched) :
    openItems updates (matched.foldl (applyMatch prompt updates mode) st).outResult
      < openItems updates st.outResult := by
  have hafter := h.round hround.nodup hround.isOpen hround.applies
  obtain ⟨item, hitem⟩ := List.exists_mem_of_ne_nil _ hround.ne_nil
  obtain ⟨itemUpdates, update, hmem, -⟩ := (hround.applies item hitem).update
  -- An item with an update keeps it, and one more has one.
  have hkeeps : ∀ key, st.outResult.at key ≠ none →
      (matched.foldl (applyMatch prompt updates mode) st).outResult.at key ≠ none := by
    intro key hkey
    obtain ⟨updateIdx, hidx⟩ := Option.ne_none_iff_exists'.mp hkey
    obtain ⟨a, ha, hrest⟩ := (h.result key updateIdx).mp hidx
    rw [(hafter.result key updateIdx).mpr ⟨a, List.mem_append_left _ ha, hrest⟩]
    exact Option.some_ne_none _
  have hgains : (matched.foldl (applyMatch prompt updates mode) st).outResult.at item.1 ≠ none := by
    rw [(hafter.result item.1 item.2.2).mpr ⟨(mode, item), List.mem_append_right _
      (List.mem_map.mpr ⟨item, hitem, rfl⟩), rfl, rfl⟩]
    exact Option.some_ne_none _
  refine countP_lt_countP (fun other _ hother => ?_) hmem
    (decide_eq_true (hround.isOpen item hitem)) (by simpa using hgains)
  rw [decide_eq_true_eq] at hother ⊢
  by_contra hne
  exact hkeeps _ hne hother

/-- With more turns than items, the updates end, and each item gets at most one update. -/
theorem applyLoop_ends {st : ApplyState} {turns : Nat} (h : Woven prompt updates applied st)
    (hturns : openItems updates st.outResult < turns) :
    ∃ st', applyLoop prompt updates turns st = some st' := by
  induction turns generalizing applied st with
  | zero => exact absurd hturns (Nat.not_lt_zero _)
  | succ turns ih =>
    rw [applyLoop]
    rcases findMatches_cases prompt updates st.prevEndIdx st.outResult with
      ⟨hnone, -⟩ | ⟨mode, matched, hsome, hround⟩
    · rw [hnone]
      exact ⟨st, rfl⟩
    · rw [hsome]
      simp only
      split
      · exact ⟨_, rfl⟩
      · have hless := openItems_round h hround
        exact ih (h.round hround.nodup hround.isOpen hround.applies) (by omega)

/-- What each round keeps holds when the updates end: there is nothing left to match, or no item
is open. -/
theorem applyLoop_keeps {P : List AppliedUpdate → Prop}
    (hround : ∀ applied st mode matched, P applied → Woven prompt updates applied st →
      findMatches prompt updates st.prevEndIdx st.outResult = (some mode, matched) →
      RoundMatches prompt updates st.prevEndIdx st.outResult mode matched →
      P (applied ++ matched.map fun item => (mode, item))) {st st' : ApplyState} {turns : Nat}
    (happlied : P applied) (h : Woven prompt updates applied st)
    (hrun : applyLoop prompt updates turns st = some st') :
    ∃ applied', P applied' ∧ Woven prompt updates applied' st' ∧
      (NoMatch prompt updates st'.prevEndIdx st'.outResult ∨
        ∀ item ∈ itemsOf updates, st'.outResult.at item.1 ≠ none) := by
  induction turns generalizing applied st with
  | zero => cases hrun
  | succ turns ih =>
    rw [applyLoop] at hrun
    rcases findMatches_cases prompt updates st.prevEndIdx st.outResult with
      ⟨hnone, hmatch⟩ | ⟨mode, matched, hsome, hmatched⟩
    · rw [hnone, Option.some_inj] at hrun
      subst hrun
      exact ⟨applied, happlied, h, .inl hmatch⟩
    · rw [hsome] at hrun
      simp only at hrun
      have hnext := hround applied st mode matched happlied h hsome hmatched
      have hwoven := h.round hmatched.nodup hmatched.isOpen hmatched.applies
      split at hrun
      · next hall =>
        rw [Option.some_inj] at hrun
        subst hrun
        exact ⟨_, hnext, hwoven, .inr (hwoven.shape.allItemsFound_iff.mp hall)⟩
      · exact ih hnext hwoven hrun

/-- More turns than items are enough. -/
theorem applyMatches_ends (prompt : List TokenId) (updates : MultiModalPromptUpdates) {turns : Nat}
    (hturns : (itemsOf updates).length < turns) :
    ∃ out, applyMatches turns prompt updates = some out := by
  rw [applyMatches]
  split
  · exact ⟨_, rfl⟩
  · obtain ⟨st, hst⟩ := applyLoop_ends (woven_empty prompt updates)
      (Nat.lt_of_le_of_lt List.countP_le_length hturns)
    rw [hst]
    exact ⟨_, rfl⟩

/-- What holds of no updates, and each round keeps, holds of the updates that are applied. -/
theorem applyMatches_keeps {P : List AppliedUpdate → Prop} (hnone : P [])
    (hround : ∀ applied st mode matched, P applied → Woven prompt updates applied st →
      findMatches prompt updates st.prevEndIdx st.outResult = (some mode, matched) →
      RoundMatches prompt updates st.prevEndIdx st.outResult mode matched →
      P (applied ++ matched.map fun item => (mode, item)))
    {turns : Nat} {out : List (List TokenId)} {result : ApplyResult}
    (hrun : applyMatches turns prompt updates = some (out, result)) :
    ∃ applied st, P applied ∧ Woven prompt updates applied st ∧
      (NoMatch prompt updates st.prevEndIdx st.outResult ∨
        ∀ item ∈ itemsOf updates, st.outResult.at item.1 ≠ none) ∧
      out = woven prompt (contentFor updates) applied ∧ result = st.outResult := by
  have hempty := woven_empty prompt updates
  rw [applyMatches] at hrun
  split at hrun
  · next hall =>
    obtain ⟨rfl, rfl⟩ := Prod.mk.inj (Option.some.inj hrun)
    exact ⟨[], _, hnone, hempty, .inr (hempty.shape.allItemsFound_iff.mp hall), rfl, rfl⟩
  · obtain ⟨st, hst, heq⟩ := Option.map_eq_some_iff.mp hrun
    obtain ⟨rfl, rfl⟩ := Prod.mk.inj heq
    obtain ⟨applied, happlied, hwoven, hend⟩ := applyLoop_keeps hround hnone hempty hst
    exact ⟨applied, st, happlied, hwoven, hend, by rw [hwoven.outSeqs, hwoven.prevEndIdx, woven],
      rfl⟩

end Run

/-- An image that is put behind the first token, and an audio that replaces the token 7. -/
def imageAndAudio : MultiModalPromptUpdates where
  entries := [("image", [[⟨.insert, .index (PromptIndexTargets.behind [1]), ⟨[9, 9], none⟩⟩]]),
    ("audio", [[⟨.replace, .seq [7], ⟨[8], none⟩⟩]])]
  nodup_keys := by decide

end Vllm.Multimodal
