import Vllm.Multimodal.PromptReplacement

/-!
# The order of replaced targets

Where each item has one update and the items of a modality share a target, the targets of a
modality are replaced from left to right, for its items in their order. The targets of another
modality share no token with them, so that they take no match away.
-/

namespace Vllm.Multimodal

open Occurrence

/-- Each item replaces the target of its modality by its own content, and the targets of two
modalities have no token in common. -/
structure SharedTargets (updates : MultiModalPromptUpdates) (target : String → List TokenId)
    (content : ItemKey → PromptUpdateDetails) : Prop where
  single : ∀ item ∈ itemsOf updates,
    item.2 = [⟨.replace, .seq (target item.1.1), content item.1⟩]
  target_ne_nil : ∀ item ∈ itemsOf updates, target item.1.1 ≠ []
  targets : ∀ item ∈ itemsOf updates, ∀ other ∈ itemsOf updates, item.1.1 ≠ other.1.1 →
    (target item.1.1).Disjoint (target other.1.1)

/-- The applied updates of a modality. -/
def ofModality (modality : String) (applied : List AppliedUpdate) : List AppliedUpdate :=
  applied.filter fun a => a.2.1.1 = modality

/-- The updates were applied for the items of each modality in their order, to the matches of its
target in their order, and passed over no match for an item that is left. -/
structure InOrder (prompt : List TokenId) (updates : MultiModalPromptUpdates)
    (target : String → List TokenId) (applied : List AppliedUpdate) : Prop where
  keys : ∀ modality, (ofModality modality applied).map (fun a => a.2.1.2)
    = List.range (ofModality modality applied).length
  found : ∀ item ∈ itemsOf updates, iterTokenMatches prompt (target item.1.1) 0
    = (ofModality item.1.1 applied).map (fun a => a.2.2.1)
      ++ iterTokenMatches prompt (target item.1.1) (lastEnd 0 (ofModality item.1.1 applied))
  skipped : ∀ item ∈ itemsOf updates, item.1 ∉ applied.map (fun a => a.2.1) → ∀ i,
    lastEnd 0 (ofModality item.1.1 applied) ≤ i → i < lastEnd 0 applied →
      ¬ Occurs (target item.1.1) prompt i

section Order

variable {prompt : List TokenId} {updates : MultiModalPromptUpdates}
  {target : String → List TokenId} {content : ItemKey → PromptUpdateDetails}

theorem SharedTargets.replacesTokens (h : SharedTargets updates target content) :
    ReplacesTokens updates := by
  intro item hitem update hupdate
  rw [h.single item hitem, List.mem_singleton] at hupdate
  rw [hupdate]
  exact ⟨rfl, target item.1.1, h.target_ne_nil item hitem, rfl⟩

/-- The match of an open item. -/
theorem SharedTargets.candidate_eq (h : SharedTargets updates target content)
    {item : ItemKey × List ResolvedPromptUpdate} (hitem : item ∈ itemsOf updates)
    {prevEndIdx : Nat} {result : ApplyResult} (hopen : result.at item.1 = none) :
    candidate prompt prevEndIdx result .replace item
      = (searchFrom prompt (target item.1.1) prevEndIdx).map fun i =>
        (item.1, ⟨i, i + (target item.1.1).length⟩, 0) := by
  rw [candidate, if_neg (not_not.mpr hopen), h.single item hitem, updateMatch]
  simp only [List.zipIdx_cons, List.zipIdx_nil, List.findSome?_cons, List.findSome?_nil, if_true]
  rw [firstMatch_seq rfl (h.target_ne_nil item hitem)]
  cases searchFrom prompt (target item.1.1) prevEndIdx <;> rfl

/-- The items of a modality stand in their order. -/
theorem pair_itemsOf {modality : String} {items : List (List ResolvedPromptUpdate)} {k j : Nat}
    {itemUpdates itemUpdates' : List ResolvedPromptUpdate}
    (hget : updates.get? modality = some items) (hk : items[k]? = some itemUpdates)
    (hj : items[j]? = some itemUpdates') (hkj : k < j) :
    [((modality, k), itemUpdates), ((modality, j), itemUpdates')].Sublist (itemsOf updates) := by
  have hpair := StableSort.pair_sublist (l := items.zipIdx) (i := k) (j := j)
    (x := (itemUpdates, k)) (y := (itemUpdates', j)) (by simp [List.getElem?_zipIdx, hk])
    (by simp [List.getElem?_zipIdx, hj]) hkj
  have hmem : (items.zipIdx.map fun item => ((modality, item.2), item.1)) ∈
      updates.entries.map fun e => e.2.zipIdx.map fun item => ((e.1, item.2), item.1) :=
    List.mem_map.mpr ⟨(modality, items), (updates.mem_entries_iff).mpr hget, rfl⟩
  rw [itemsOf, List.flatMap_def]
  exact (hpair.map fun item => ((modality, item.2), item.1)).trans
    (List.sublist_flatten_of_mem hmem)

private theorem ofModality_append (modality : String) (xs ys : List AppliedUpdate) :
    ofModality modality (xs ++ ys) = ofModality modality xs ++ ofModality modality ys :=
  List.filter_append xs ys

/-- One more update of the modality, or of another. -/
theorem ofModality_concat (modality : String) (xs : List AppliedUpdate) (a : AppliedUpdate) :
    ofModality modality (xs ++ [a])
      = if a.2.1.1 = modality then ofModality modality xs ++ [a] else ofModality modality xs := by
  rw [ofModality_append]
  by_cases heq : a.2.1.1 = modality <;> simp [ofModality, heq]

private theorem lastEnd_concat (xs : List AppliedUpdate) (a : AppliedUpdate) :
    lastEnd 0 (xs ++ [a]) = a.2.2.1.endIdx := by
  rw [lastEnd_append]
  rfl

/-- What a round applies: an open item with the first match of its target behind the last update.
No open item has an earlier match, and none before it in its modality is open. -/
theorem SharedTargets.round (h : SharedTargets updates target content)
    {prevEndIdx : Nat} {result : ApplyResult} {mode : UpdateMode} {matched : List MatchToApply}
    (hfind : findMatches prompt updates prevEndIdx result = (some mode, matched)) :
    ∃ best ∈ itemsOf updates, ∃ i, mode = .replace ∧
      matched = [(best.1, ⟨i, i + (target best.1.1).length⟩, 0)] ∧ result.at best.1 = none ∧
      searchFrom prompt (target best.1.1) prevEndIdx = some i ∧
      (∀ other ∈ itemsOf updates, result.at other.1 = none → ∀ i',
        searchFrom prompt (target other.1.1) prevEndIdx = some i' → i ≤ i') ∧
      ∀ k < best.1.2, result.at (best.1.1, k) ≠ none := by
  obtain ⟨hmode, found, rfl, hfound, hleast, hfirst⟩ := findMatches_replace h.replacesTokens hfind
  obtain ⟨best, hbest, hcandidate⟩ := List.mem_filterMap.mp hfound
  obtain ⟨-, hopen, -⟩ := candidate_eq_some hcandidate
  rw [h.candidate_eq hbest hopen] at hcandidate
  obtain ⟨i, hsearch, rfl⟩ := Option.map_eq_some_iff.mp hcandidate
  refine ⟨best, hbest, i, hmode, rfl, hopen, hsearch, ?_, ?_⟩
  · intro other hother hopen' i' hsearch'
    have hmem : (other.1, ⟨i', i' + (target other.1.1).length⟩, 0) ∈
        candidates prompt updates prevEndIdx result := by
      refine List.mem_filterMap.mpr ⟨other, hother, ?_⟩
      rw [h.candidate_eq hother hopen', hsearch']
      rfl
    have hle := hleast _ hmem
    simp only [matchLe, decide_eq_true_eq] at hle
    omega
  · intro k hk hopen'
    obtain ⟨items, hget, hj⟩ := mem_itemsOf.mp hbest
    have hlt : k < items.length := by
      have := (List.getElem?_eq_some_iff.mp hj).1
      omega
    have hpair := (pair_itemsOf hget (List.getElem?_eq_getElem hlt) hj hk).filterMap
      (candidate prompt prevEndIdx result .replace)
    have hother : ((best.1.1, k), items[k]) ∈ itemsOf updates :=
      mem_itemsOf.mpr ⟨items, hget, List.getElem?_eq_getElem hlt⟩
    rw [List.filterMap_cons, h.candidate_eq hother hopen', hsearch, List.filterMap_cons,
      h.candidate_eq hbest hopen, hsearch] at hpair
    exact hfirst _ hpair rfl

variable {applied : List AppliedUpdate}

theorem Woven.at_eq_none_iff {st : ApplyState} (h : Woven prompt updates applied st)
    (key : ItemKey) : st.outResult.at key = none ↔ key ∉ applied.map fun a => a.2.1 := by
  constructor
  · intro hopen hmem
    obtain ⟨a, ha, hkey⟩ := List.mem_map.mp hmem
    rw [(h.result key a.2.2.2).mpr ⟨a, ha, hkey, rfl⟩] at hopen
    cases hopen
  · intro hnot
    by_contra hne
    obtain ⟨updateIdx, hidx⟩ := Option.ne_none_iff_exists'.mp hne
    obtain ⟨a, ha, hkey, -⟩ := (h.result key updateIdx).mp hidx
    exact hnot (List.mem_map.mpr ⟨a, ha, hkey⟩)

private theorem inOrder_nil : InOrder prompt updates target [] := by
  refine ⟨fun _ => rfl, fun _ _ => rfl, fun _ _ _ i _ hi => ?_⟩
  exact absurd hi (Nat.not_lt_zero i)

/-- The items of a modality with an update are the first ones. -/
theorem InOrder.mem_keys_iff (h : InOrder prompt updates target applied) (key : ItemKey) :
    key ∈ applied.map (fun a => a.2.1) ↔ key.2 < (ofModality key.1 applied).length := by
  rw [← List.mem_range, ← h.keys key.1, List.mem_map, List.mem_map]
  constructor
  · rintro ⟨a, ha, rfl⟩
    exact ⟨a, List.mem_filter.mpr ⟨ha, decide_eq_true rfl⟩, rfl⟩
  · rintro ⟨a, ha, hidx⟩
    obtain ⟨ha, hmodality⟩ := List.mem_filter.mp ha
    exact ⟨a, ha, Prod.ext (of_decide_eq_true hmodality) hidx⟩

/-- The end of the last update is where one of the updates ends. -/
theorem lastEnd_cases (prevEndIdx : Nat) (applied : List AppliedUpdate) :
    lastEnd prevEndIdx applied = prevEndIdx ∨
      ∃ a ∈ applied, lastEnd prevEndIdx applied = a.2.2.1.endIdx := by
  induction applied generalizing prevEndIdx with
  | nil => exact .inl rfl
  | cons b applied ih =>
    right
    rw [lastEnd]
    rcases ih b.2.2.1.endIdx with hlast | ⟨a, ha, hlast⟩
    · exact ⟨b, List.mem_cons_self, hlast⟩
    · exact ⟨a, List.mem_cons_of_mem _ ha, hlast⟩

/-- Every replaced target lies between the bound and the end of the last one. -/
theorem Replaces.bounds {prevEndIdx : Nat} (h : Replaces prompt updates prevEndIdx applied) :
    prevEndIdx ≤ lastEnd prevEndIdx applied ∧ ∀ a ∈ applied,
      prevEndIdx ≤ a.2.2.1.startIdx ∧ a.2.2.1.startIdx < a.2.2.1.endIdx ∧
        a.2.2.1.endIdx ≤ lastEnd prevEndIdx applied := by
  induction applied generalizing prevEndIdx with
  | nil => exact ⟨le_rfl, fun a ha => by cases ha⟩
  | cons b applied ih =>
    obtain ⟨-, hne, hle, -, hend, hrest⟩ := h
    obtain ⟨hlast, hall⟩ := ih hrest
    have := List.length_pos_iff.mpr hne
    rw [lastEnd]
    refine ⟨by omega, fun a ha => ?_⟩
    rcases List.mem_cons.mp ha with rfl | ha
    · omega
    · have := hall a ha
      omega

theorem Replaces.mode {prevEndIdx : Nat} (h : Replaces prompt updates prevEndIdx applied) :
    ∀ a ∈ applied, a.1 = .replace := by
  induction applied generalizing prevEndIdx with
  | nil =>
    intro a ha
    cases ha
  | cons b applied ih =>
    obtain ⟨hmode, -, -, -, -, hrest⟩ := h
    intro a ha
    rcases List.mem_cons.mp ha with rfl | ha
    · exact hmode
    · exact ih hrest a ha

theorem Replaces.lastEnd_ofModality_le (h : Replaces prompt updates 0 applied) (modality : String) :
    lastEnd 0 (ofModality modality applied) ≤ lastEnd 0 applied := by
  rcases lastEnd_cases 0 (ofModality modality applied) with hlast | ⟨a, ha, hlast⟩
  · rw [hlast]
    exact Nat.zero_le _
  · rw [hlast]
    exact (h.bounds.2 a (List.mem_of_mem_filter ha)).2.2

/-- A round keeps the order. -/
theorem SharedTargets.inOrder_round (h : SharedTargets updates target content) {st : ApplyState}
    {mode : UpdateMode} {matched : List MatchToApply}
    (hreplaces : Replaces prompt updates 0 applied) (horder : InOrder prompt updates target applied)
    (hwoven : Woven prompt updates applied st)
    (hfind : findMatches prompt updates st.prevEndIdx st.outResult = (some mode, matched)) :
    InOrder prompt updates target (applied ++ matched.map fun item => (mode, item)) := by
  obtain ⟨best, hbest, i, rfl, rfl, hopen, hsearch, hleast, hbefore⟩ := h.round hfind
  have hne := h.target_ne_nil best hbest
  obtain ⟨hle, hocc, -⟩ := (searchFrom_eq_some_iff hne).mp hsearch
  have hpast := (hwoven.at_eq_none_iff best.1).mp hopen
  rw [List.map_singleton]
  constructor
  case keys =>
    intro modality
    rw [ofModality_concat]
    split
    · next hmodality =>
      -- The item is the next one of its modality.
      have hnext : best.1.2 = (ofModality modality applied).length := by
        have hpast' := (horder.mem_keys_iff best.1).not.mp hpast
        rw [hmodality] at hpast'
        refine Nat.le_antisymm (not_lt.mp fun hlt => ?_) (not_lt.mp hpast')
        have hdone := (hwoven.at_eq_none_iff _).not.mp (hbefore _ hlt)
        rw [not_not, horder.mem_keys_iff, hmodality] at hdone
        exact Nat.lt_irrefl _ hdone
      rw [List.map_append, horder.keys, List.map_singleton, List.length_append,
        List.length_singleton, List.range_succ, hnext]
    · exact horder.keys modality
  case found =>
    intro item hitem
    rw [ofModality_concat]
    split
    · next hmodality =>
      have hsame : target item.1.1 = target best.1.1 := congrArg target hmodality.symm
      have hfrom : searchFrom prompt (target best.1.1) (lastEnd 0 (ofModality item.1.1 applied))
          = some i := by
        rw [← hsearch, hwoven.prevEndIdx]
        refine searchFrom_congr hne (hreplaces.lastEnd_ofModality_le _) fun j hj hbound => ?_
        rw [← hmodality] at hj
        exact horder.skipped best hbest hpast j hj hbound
      rw [horder.found item hitem, hsame, iterTokenMatches_eq hne, hfrom, lastEnd_concat]
      simp
    · exact horder.found item hitem
  case skipped =>
    intro item hitem hitemOpen j hj hbound hoccurs
    rw [List.map_append, List.mem_append, not_or] at hitemOpen
    rw [lastEnd_concat] at hbound
    rw [ofModality_concat] at hj
    split at hj
    · rw [lastEnd_concat] at hj
      omega
    · next hmodality =>
      rcases Nat.lt_or_ge j (lastEnd 0 applied) with hlt | hge
      · exact horder.skipped item hitem hitemOpen.1 j hj hlt hoccurs
      · -- An occurrence behind the last update is not before the match, nor in it.
        have hne' := h.target_ne_nil item hitem
        have hopen' := (hwoven.at_eq_none_iff item.1).mpr hitemOpen.1
        rw [← hwoven.prevEndIdx] at hge
        have hstart : i ≤ j := by
          cases hsearch' : searchFrom prompt (target item.1.1) st.prevEndIdx with
          | none => exact absurd hoccurs ((searchFrom_eq_none_iff hne').mp hsearch' j hge)
          | some i' =>
            have hfirst := ((searchFrom_eq_some_iff hne').mp hsearch').2.2 j hge hoccurs
            exact (hleast item hitem hopen' i' hsearch').trans hfirst
        have hshared := hocc.getElem?_add (j := j - i) (by
          simp only at hbound
          omega)
        rw [Nat.add_sub_cancel' hstart] at hshared
        have hpos := List.length_pos_iff.mpr hne'
        have hfirst := hoccurs.getElem?_add hpos
        rw [Nat.add_zero, hshared, List.getElem?_eq_getElem hpos] at hfirst
        exact h.targets best hbest item hitem hmodality (List.mem_of_getElem? hfirst)
          (List.getElem_mem _)

/-- The updates of items that share targets are applied in order, until no target is left or no
item is open. -/
theorem SharedTargets.run (h : SharedTargets updates target content) {turns : Nat}
    {out : List TokenId} {result : ApplyResult}
    (happly : applyTokenMatches turns prompt updates = some (out, result)) :
    ∃ applied st, Replaces prompt updates 0 applied ∧ InOrder prompt updates target applied ∧
      Woven prompt updates applied st ∧
      (NoMatch prompt updates st.prevEndIdx st.outResult ∨
        ∀ item ∈ itemsOf updates, st.outResult.at item.1 ≠ none) ∧
      out = (woven prompt (contentFor updates) applied).flatten ∧ result = st.outResult := by
  obtain ⟨⟨outSeqs, _⟩, hrun, heq⟩ := Option.map_eq_some_iff.mp happly
  obtain ⟨rfl, rfl⟩ := Prod.mk.inj heq
  obtain ⟨applied, st, ⟨hreplaces, horder⟩, hwoven, hend, rfl, rfl⟩ := applyMatches_keeps
    (P := fun applied => Replaces prompt updates 0 applied ∧ InOrder prompt updates target applied)
    ⟨trivial, inOrder_nil⟩
    (fun applied st mode matched hkeeps hwoven hfind hround =>
      ⟨replaces_round h.replacesTokens hkeeps.1 hwoven hfind hround,
        h.inOrder_round hkeeps.1 hkeeps.2 hwoven hfind⟩) hrun
  exact ⟨applied, st, hreplaces, horder, hwoven, hend, rfl, rfl⟩

/-- The first of its updates is applied for an item. -/
theorem SharedTargets.itemOf_applied (h : SharedTargets updates target content) {st : ApplyState}
    (hwoven : Woven prompt updates applied st) {a : AppliedUpdate} (ha : a ∈ applied) :
    ∃ itemUpdates, (a.2.1, itemUpdates) ∈ itemsOf updates ∧ a.2.2.2 = 0 ∧
      contentFor updates a.2 = (content a.2.1).full := by
  obtain ⟨prevEndIdx, happlies⟩ := hwoven.applies a ha
  obtain ⟨itemUpdates, update, hmem, hget, -⟩ := happlies.update
  have hsingle := h.single _ hmem
  simp only at hsingle
  rw [hsingle, List.getElem?_singleton] at hget
  split at hget
  · next hidx =>
    refine ⟨itemUpdates, hmem, hidx, ?_⟩
    have hget' : itemUpdates[a.2.2.2]?
        = some ⟨.replace, .seq (target a.2.1.1), content a.2.1⟩ := by
      rw [hsingle, hidx]
      rfl
    exact contentFor_eq hmem hget'
  · cases hget

end Order

/-! ## One update for all items -/

/-- The items of one modality, with the same update for each. -/
def sameUpdates (modality : String) (n : Nat) (update : ResolvedPromptUpdate) :
    MultiModalPromptUpdates where
  entries := [(modality, List.replicate n [update])]
  nodup_keys := List.nodup_singleton modality

section Same

variable {prompt target new : List TokenId} {modality : String} {n : Nat}
  {isEmbed : Option (List TokenId → List Bool)}

/-- Replacing matches one after another, as the loop does. -/
theorem foldl_replace {applied : List AppliedUpdate} (hmode : ∀ a ∈ applied, a.1 = .replace)
    (front : List TokenId) (prevEndIdx : Nat) :
    (applied.map fun a => a.2.2.1).foldl (fun out found =>
        (out.1 ++ ((prompt.take found.startIdx).drop out.2 ++ new), found.endIdx))
          (front, prevEndIdx)
      = (front ++ (pieces prompt (fun _ => new) prevEndIdx applied).flatten,
        lastEnd prevEndIdx applied) := by
  induction applied generalizing front prevEndIdx with
  | nil => simp [pieces, lastEnd]
  | cons a applied ih =>
    have hcut : cutOf a = a.2.2.1.startIdx := by rw [cutOf, hmode a List.mem_cons_self]
    rw [List.map_cons, List.foldl_cons, ih fun b hb => hmode b (List.mem_cons_of_mem _ hb),
      pieces, lastEnd, hcut]
    simp only [List.flatten_cons, List.append_assoc]

private theorem sharedTargets_sameUpdates (hne : target ≠ []) :
    SharedTargets (sameUpdates modality n ⟨.replace, .seq target, ⟨new, isEmbed⟩⟩)
      (fun _ => target) (fun _ => ⟨new, isEmbed⟩) := by
  have hitems : ∀ item ∈ itemsOf (sameUpdates modality n ⟨.replace, .seq target, ⟨new, isEmbed⟩⟩),
      item.1.1 = modality ∧ item.2 = [⟨.replace, .seq target, ⟨new, isEmbed⟩⟩] := by
    intro item hitem
    rw [itemsOf, sameUpdates, List.flatMap_singleton, List.mem_map] at hitem
    obtain ⟨entry, hentry, rfl⟩ := hitem
    exact ⟨rfl, List.eq_of_mem_replicate (List.fst_mem_of_mem_zipIdx hentry)⟩
  refine ⟨fun item hitem => (hitems item hitem).2, fun _ _ => hne, ?_⟩
  intro item hitem other hother hmodality
  exact absurd ((hitems item hitem).1.trans (hitems other hother).1.symm) hmodality

/-- Where one modality has the same replacement for each item and items enough, applying the
updates is replacing all matches, and the items with an update are as many as the matches. -/
theorem applyTokenMatches_sameUpdates (hne : target ≠ [])
    (hcount : (iterTokenMatches prompt target 0).length ≤ n) {turns : Nat} (hturns : n < turns) :
    ∃ result, applyTokenMatches turns prompt
        (sameUpdates modality n ⟨.replace, .seq target, ⟨new, isEmbed⟩⟩)
      = some (replaceTokenMatches prompt target new, result) ∧
      ∀ itemIdx, result.at (modality, itemIdx)
        = if itemIdx < (iterTokenMatches prompt target 0).length then some 0 else none := by
  obtain ⟨updates, hupdates⟩ : ∃ updates, updates =
    sameUpdates modality n ⟨.replace, .seq target, ⟨new, isEmbed⟩⟩ := ⟨_, rfl⟩
  have hshared : SharedTargets updates (fun _ => target) (fun _ => ⟨new, isEmbed⟩) := by
    rw [hupdates]
    exact sharedTargets_sameUpdates hne
  have hget : updates.get? modality
      = some (List.replicate n [⟨.replace, .seq target, ⟨new, isEmbed⟩⟩]) := by
    rw [hupdates]
    exact if_pos rfl
  have hitem : ∀ j, j < n → ((modality, j), [⟨.replace, .seq target, ⟨new, isEmbed⟩⟩])
      ∈ itemsOf updates := by
    intro j hj
    refine mem_itemsOf.mpr ⟨_, hget, ?_⟩
    rw [List.getElem?_replicate, if_pos hj]
  have hmodality : ∀ key itemUpdates, (key, itemUpdates) ∈ itemsOf updates →
      key.1 = modality ∧ key.2 < n := by
    intro key itemUpdates hmem
    obtain ⟨items, hitems, hidx⟩ := mem_itemsOf.mp hmem
    have hentry := (updates.mem_entries_iff).mpr hitems
    rw [hupdates, sameUpdates, List.mem_singleton] at hentry
    obtain ⟨hkey, rfl⟩ := Prod.mk.inj hentry
    have hlt := (List.getElem?_eq_some_iff.mp hidx).1
    rw [List.length_replicate] at hlt
    exact ⟨hkey, hlt⟩
  have hlength : (itemsOf updates).length = n := by
    rw [hupdates, itemsOf, sameUpdates, List.flatMap_singleton, List.length_map,
      List.length_zipIdx, List.length_replicate]
  rw [← hupdates]
  obtain ⟨⟨outSeqs, result⟩, hrun⟩ := applyMatches_ends prompt updates (hlength ▸ hturns)
  have happly : applyTokenMatches turns prompt updates = some (outSeqs.flatten, result) := by
    rw [applyTokenMatches, hrun]
    rfl
  obtain ⟨applied, st, hreplaces, horder, hwoven, hend, hout, rfl⟩ := hshared.run happly
  have hkeys : ∀ a ∈ applied, a.2.1.1 = modality ∧ a.2.1.2 < n ∧ a.2.2.2 = 0 ∧
      contentFor updates a.2 = new := by
    intro a ha
    obtain ⟨itemUpdates, hmem, hidx, hcontent⟩ := hshared.itemOf_applied hwoven ha
    exact ⟨(hmodality _ _ hmem).1, (hmodality _ _ hmem).2, hidx, hcontent⟩
  have hall : ofModality modality applied = applied :=
    List.filter_eq_self.mpr fun a ha => decide_eq_true (hkeys a ha).1
  -- No match is left: none is found for an open item, or there are no more of them than items.
  have hmatches : iterTokenMatches prompt target 0 = applied.map fun a => a.2.2.1 := by
    rcases Nat.eq_zero_or_pos n with rfl | hpos
    · have hnil : applied = [] := by
        rw [List.eq_nil_iff_forall_not_mem]
        intro a ha
        exact absurd (hkeys a ha).2.1 (Nat.not_lt_zero _)
      rw [hnil, List.eq_nil_of_length_eq_zero (Nat.le_zero.mp hcount), List.map_nil]
    · have hfound := horder.found _ (hitem 0 hpos)
      simp only at hfound
      rw [hall] at hfound
      have hrest : iterTokenMatches prompt target (lastEnd 0 applied) = [] := by
        by_cases hopen : ∃ j, j < n ∧ st.outResult.at (modality, j) = none
        · obtain ⟨j, hj, hopen⟩ := hopen
          rcases hend with hnone | hdone
          · have hfirst := hnone _ (hitem j hj) hopen _ (List.mem_singleton_self _)
            rw [firstMatch_seq rfl hne, Option.map_eq_none_iff, hwoven.prevEndIdx] at hfirst
            rw [iterTokenMatches_eq hne, hfirst]
          · exact absurd hopen (hdone _ (hitem j hj))
        · have hlast := (hwoven.at_eq_none_iff (modality, n - 1)).not.mp fun hlast =>
            hopen ⟨n - 1, by omega, hlast⟩
          rw [not_not, horder.mem_keys_iff, hall] at hlast
          rw [hfound, List.length_append, List.length_map] at hcount
          exact List.eq_nil_of_length_eq_zero (by omega)
      rw [hfound, hrest, List.append_nil]
  refine ⟨st.outResult, ?_, fun itemIdx => ?_⟩
  · have hpieces : pieces prompt (contentFor updates) 0 applied
        = pieces prompt (fun _ => new) 0 applied :=
      pieces_congr fun a ha => (hkeys a ha).2.2.2
    rw [happly, hout, replaceTokenMatches, hmatches, foldl_replace hreplaces.mode, woven, hpieces,
      List.flatten_append, List.flatten_singleton, List.nil_append]
  · rw [hmatches, List.length_map]
    have hkey := horder.mem_keys_iff (modality, itemIdx)
    rw [hall] at hkey
    split
    · next hlt =>
      obtain ⟨a, ha, haKey⟩ := List.mem_map.mp (hkey.mpr hlt)
      exact (hwoven.result _ 0).mpr ⟨a, ha, haKey, (hkeys a ha).2.2.1⟩
    · next hge =>
      exact (hwoven.at_eq_none_iff _).mpr (hkey.not.mpr hge)

theorem twoImages_replaceTokenMatches : ∃ result, applyTokenMatches 4 [1, 7, 7, 2]
      (sameUpdates "image" 3 ⟨.replace, .seq [7], ⟨[8, 8], none⟩⟩)
    = some (replaceTokenMatches [1, 7, 7, 2] [7] [8, 8], result) ∧
    ∀ itemIdx, result.at ("image", itemIdx)
      = if itemIdx < (iterTokenMatches [1, 7, 7, 2] [7] 0).length then some 0 else none :=
  applyTokenMatches_sameUpdates (by decide) (by decide) (by decide)

end Same

end Vllm.Multimodal
