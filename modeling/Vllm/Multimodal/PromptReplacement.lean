import Vllm.Library.StableSort
import Vllm.Multimodal.PromptLayout

/-!
# Replaced targets

Where all updates replace tokens, each round replaces one target behind the last one. The output
is the prompt with these targets replaced, so that putting the targets back gives the prompt, and
no target of an item without an update is left behind the last replaced one.
-/

namespace Vllm.Multimodal

open Occurrence

/-- All updates replace tokens. -/
def ReplacesTokens (updates : MultiModalPromptUpdates) : Prop :=
  ∀ item ∈ itemsOf updates, ∀ update ∈ item.2, update.mode = .replace ∧
    ∃ tokenIds, tokenIds ≠ [] ∧ update.target = .seq tokenIds

/-- The target of an applied update. -/
def targetFor (updates : MultiModalPromptUpdates) (item : MatchToApply) : List TokenId :=
  match ((updates.get? item.1.1).bind fun items => items[item.1.2]?).bind
      fun us => us[item.2.2]? with
  | some update => match update.target with
    | .seq tokenIds => tokenIds
    | .index _ => []
  | none => []

section Lookup

variable {updates : MultiModalPromptUpdates} {item : MatchToApply}
  {itemUpdates : List ResolvedPromptUpdate} {update : ResolvedPromptUpdate}

theorem contentFor_eq (hmem : (item.1, itemUpdates) ∈ itemsOf updates)
    (hget : itemUpdates[item.2.2]? = some update) :
    contentFor updates item = update.content.full := by
  obtain ⟨items, hitems, hitem⟩ := mem_itemsOf.mp hmem
  rw [contentFor, contentOf, hitems, Option.bind_some, hitem, Option.bind_some, hget]

private theorem targetFor_eq {tokenIds : List TokenId}
    (hmem : (item.1, itemUpdates) ∈ itemsOf updates) (hget : itemUpdates[item.2.2]? = some update)
    (htarget : update.target = .seq tokenIds) : targetFor updates item = tokenIds := by
  obtain ⟨items, hitems, hitem⟩ := mem_itemsOf.mp hmem
  rw [targetFor, hitems, Option.bind_some, hitem, Option.bind_some, hget]
  simp only [htarget]

end Lookup

/-- The first match of an update that replaces tokens. -/
theorem firstMatch_seq {prompt tokenIds : List TokenId} {update : ResolvedPromptUpdate}
    (htarget : update.target = .seq tokenIds) (hne : tokenIds ≠ []) (prevEndIdx : Nat) :
    firstMatch prompt prevEndIdx update = (searchFrom prompt tokenIds prevEndIdx).map
      fun i => ⟨i, i + tokenIds.length⟩ := by
  rw [firstMatch, ResolvedPromptUpdate.iterMatches, htarget]
  exact head?_iterTokenMatches hne prevEndIdx

section Replacement

variable {prompt : List TokenId} {updates : MultiModalPromptUpdates}

/-- An applied replacement is that of the first occurrence of its target. -/
theorem Applies.replaces (h : ReplacesTokens updates) {prevEndIdx : Nat} {mode : UpdateMode}
    {item : MatchToApply} (happlies : Applies prompt updates prevEndIdx mode item) :
    mode = .replace ∧ targetFor updates item ≠ [] ∧
      searchFrom prompt (targetFor updates item) prevEndIdx = some item.2.1.startIdx ∧
      item.2.1.endIdx = item.2.1.startIdx + (targetFor updates item).length := by
  obtain ⟨itemUpdates, update, hmem, hget, rfl, hfirst⟩ := happlies.update
  obtain ⟨hmode, tokenIds, hne, htarget⟩ := h _ hmem update (List.mem_of_getElem? hget)
  rw [firstMatch_seq htarget hne, Option.map_eq_some_iff] at hfirst
  obtain ⟨i, hi, hmatch⟩ := hfirst
  rw [targetFor_eq hmem hget htarget, ← hmatch]
  exact ⟨hmode, hne, hi, rfl⟩

/-- The targets are replaced one behind the other. -/
def Replaces (prompt : List TokenId) (updates : MultiModalPromptUpdates) :
    Nat → List AppliedUpdate → Prop
  | _, [] => True
  | prevEndIdx, applied :: rest =>
    applied.1 = .replace ∧ targetFor updates applied.2 ≠ [] ∧
    prevEndIdx ≤ applied.2.2.1.startIdx ∧
    Occurs (targetFor updates applied.2) prompt applied.2.2.1.startIdx ∧
    applied.2.2.1.endIdx = applied.2.2.1.startIdx + (targetFor updates applied.2).length ∧
    Replaces prompt updates applied.2.2.1.endIdx rest

private theorem replaces_append (prevEndIdx : Nat) (xs ys : List AppliedUpdate) :
    Replaces prompt updates prevEndIdx (xs ++ ys) ↔
      Replaces prompt updates prevEndIdx xs ∧
        Replaces prompt updates (lastEnd prevEndIdx xs) ys := by
  induction xs generalizing prevEndIdx with
  | nil => simp [Replaces, lastEnd]
  | cons x xs ih => simp only [List.cons_append, Replaces, ih, lastEnd, and_assoc]

/-- Putting the targets back gives the prompt. -/
theorem flatten_pieces_target {prevEndIdx : Nat} {applied : List AppliedUpdate}
    (h : Replaces prompt updates prevEndIdx applied) :
    (pieces prompt (targetFor updates) prevEndIdx applied
      ++ [prompt.drop (lastEnd prevEndIdx applied)]).flatten = prompt.drop prevEndIdx := by
  induction applied generalizing prevEndIdx with
  | nil => simp [pieces, lastEnd]
  | cons a applied ih =>
    obtain ⟨hmode, hne, hle, hocc, hend, hrest⟩ := h
    have htarget : (prompt.drop a.2.2.1.startIdx).take (targetFor updates a.2).length
        = targetFor updates a.2 := take_drop_eq_iff.mpr hocc
    have hcut : cutOf a = a.2.2.1.startIdx := by rw [cutOf, hmode]
    have hsplit := List.take_append_drop (a.2.2.1.startIdx - prevEndIdx) (prompt.drop prevEndIdx)
    rw [List.drop_drop, Nat.add_sub_cancel' hle] at hsplit
    have hback := List.take_append_drop (targetFor updates a.2).length
      (prompt.drop a.2.2.1.startIdx)
    rw [htarget, List.drop_drop, ← hend] at hback
    rw [pieces, lastEnd, List.cons_append, List.cons_append, List.flatten_cons,
      List.flatten_cons, ih hrest, hcut, hback, List.drop_take]
    exact hsplit

/-- The matches that a round of replacements chooses from. -/
def candidates (prompt : List TokenId) (updates : MultiModalPromptUpdates) (prevEndIdx : Nat)
    (result : ApplyResult) : List MatchToApply :=
  (itemsOf updates).filterMap (candidate prompt prevEndIdx result .replace)

/-- What a candidate matches is the first occurrence of its target. -/
theorem search_of_candidate (h : ReplacesTokens updates) {prevEndIdx : Nat} {result : ApplyResult}
    {found : MatchToApply} (hfound : found ∈ candidates prompt updates prevEndIdx result) :
    result.at found.1 = none ∧ targetFor updates found ≠ [] ∧
      searchFrom prompt (targetFor updates found) prevEndIdx = some found.2.1.startIdx ∧
      found.2.1.endIdx = found.2.1.startIdx + (targetFor updates found).length := by
  obtain ⟨item, hitem, hcandidate⟩ := List.mem_filterMap.mp hfound
  obtain ⟨hkey, hopen, update, hupdate⟩ := candidate_eq_some hcandidate
  have happlies : Applies prompt updates prevEndIdx .replace found :=
    ⟨item.2, update, hkey ▸ hitem, hupdate⟩
  exact ⟨hkey ▸ hopen, (happlies.replaces h).2⟩

private theorem matchLe_trans (a b c : PromptTargetMatch) (hab : matchLe a b = true)
    (hbc : matchLe b c = true) : matchLe a c = true := by
  rw [matchLe, decide_eq_true_eq] at *
  omega

private theorem matchLe_total (a b : PromptTargetMatch) : (matchLe a b || matchLe b a) = true := by
  rw [Bool.or_eq_true, matchLe, matchLe, decide_eq_true_eq, decide_eq_true_eq]
  omega

/-- A round of replacements applies one candidate. None has a smaller match, and none before it
has the same. -/
theorem findMatches_replace (h : ReplacesTokens updates) {prevEndIdx : Nat} {result : ApplyResult}
    {mode : UpdateMode} {matched : List MatchToApply}
    (hfind : findMatches prompt updates prevEndIdx result = (some mode, matched)) :
    mode = .replace ∧ ∃ best, matched = [best] ∧
      best ∈ candidates prompt updates prevEndIdx result ∧
      (∀ other ∈ candidates prompt updates prevEndIdx result,
        matchLe best.2.1 other.2.1 = true) ∧
      ∀ other, [other, best].Sublist (candidates prompt updates prevEndIdx result) →
        other.2.1 ≠ best.2.1 := by
  obtain ⟨hmode, hround⟩ : mode = .replace ∧
      RoundMatches prompt updates prevEndIdx result mode matched := by
    rcases findMatches_cases prompt updates prevEndIdx result with
      ⟨hnone, -⟩ | ⟨mode', matched', hsome, hround⟩
    · rw [hnone] at hfind
      cases hfind
    · rw [hsome] at hfind
      obtain ⟨hmode', rfl⟩ := Prod.mk.inj hfind
      obtain rfl := Option.some.inj hmode'
      obtain ⟨item, hitem⟩ := List.exists_mem_of_ne_nil _ hround.ne_nil
      exact ⟨((hround.applies item hitem).replaces h).1, hround⟩
  subst hmode
  have hmatched : matched = firstNonEmpty ((candidates prompt updates prevEndIdx result).mergeSort
      fun item item' => matchLe item.2.1 item'.2.1) := by
    rw [findMatches, foldl_findItem_empty (nodup_itemsOf updates)] at hfind
    cases hmode : roundMode prompt prevEndIdx result (itemsOf updates) with
    | none =>
      rw [hmode] at hfind
      cases (Prod.mk.inj hfind).1
    | some mode =>
      rw [hmode] at hfind
      obtain ⟨hmode', rfl⟩ := Prod.mk.inj hfind
      obtain rfl : mode = .replace := Option.some.inj hmode'
      rw [if_pos rfl, candidates]
  have hnodup : (candidates prompt updates prevEndIdx result).Nodup :=
    (nodup_candidates .replace).of_map
  cases hsort : (candidates prompt updates prevEndIdx result).mergeSort
      fun item item' => matchLe item.2.1 item'.2.1 with
  | nil =>
    rw [hsort] at hmatched
    exact absurd hmatched hround.ne_nil
  | cons best rest =>
    obtain ⟨hbest, hleast, hfirst⟩ := StableSort.head_mergeSort
      (fun a b c => matchLe_trans a.2.1 b.2.1 c.2.1) (fun a b => matchLe_total a.2.1 b.2.1)
      hnodup hsort
    refine ⟨rfl, best, ?_, hbest, hleast, fun other hsub heq => hfirst other hsub ?_⟩
    · -- No candidate has an empty match.
      have hnonempty : ∀ item ∈ best :: rest, item.2.1.startIdx ≠ item.2.1.endIdx := by
        intro item hitem
        rw [← hsort, List.mem_mergeSort] at hitem
        obtain ⟨-, hne, -, hend⟩ := search_of_candidate h hitem
        have := List.length_pos_iff.mpr hne
        omega
      rw [hmatched, hsort, firstNonEmpty, if_neg (hnonempty best List.mem_cons_self),
        List.filter_eq_nil_iff.mpr]
      intro item hitem
      simpa using hnonempty item (List.mem_cons_of_mem _ hitem)
    · rw [heq, matchLe, decide_eq_true_eq]
      omega

/-- A round of replacements replaces a further target. -/
theorem replaces_round (h : ReplacesTokens updates) {applied : List AppliedUpdate}
    {st : ApplyState} {mode : UpdateMode} {matched : List MatchToApply}
    (hreplaces : Replaces prompt updates 0 applied) (hwoven : Woven prompt updates applied st)
    (hfind : findMatches prompt updates st.prevEndIdx st.outResult = (some mode, matched))
    (hround : RoundMatches prompt updates st.prevEndIdx st.outResult mode matched) :
    Replaces prompt updates 0 (applied ++ matched.map fun item => (mode, item)) := by
  obtain ⟨rfl, best, rfl, -⟩ := findMatches_replace h hfind
  obtain ⟨-, hne, hsearch, hend⟩ :=
    (hround.applies best (List.mem_singleton_self best)).replaces h
  obtain ⟨hle, hocc, -⟩ := (searchFrom_eq_some_iff hne).mp hsearch
  rw [List.map_singleton, replaces_append, ← hwoven.prevEndIdx]
  exact ⟨hreplaces, rfl, hne, hle, hocc, hend, trivial⟩

/-- Where all updates replace tokens, the targets that were replaced stand one behind the other
in the prompt. The output has the contents in their places, so that no other token is lost, moved
or repeated, and behind the last of them stands no target of an item without an update. -/
theorem applyTokenMatches_replaces (h : ReplacesTokens updates) {turns : Nat}
    (hturns : (itemsOf updates).length < turns) :
    ∃ applied out result, applyTokenMatches turns prompt updates = some (out, result) ∧
      Replaces prompt updates 0 applied ∧ (applied.map fun a => a.2.1).Nodup ∧
      (∀ key updateIdx, result.at key = some updateIdx ↔
        ∃ a ∈ applied, a.2.1 = key ∧ a.2.2.2 = updateIdx) ∧
      out = (woven prompt (contentFor updates) applied).flatten ∧
      prompt = (woven prompt (targetFor updates) applied).flatten ∧
      ∀ item ∈ itemsOf updates, result.at item.1 = none → ∀ update ∈ item.2, ∀ tokenIds,
        update.target = .seq tokenIds → ∀ i, lastEnd 0 applied ≤ i →
          ¬ Occurs tokenIds prompt i := by
  obtain ⟨⟨out, result⟩, hrun⟩ := applyMatches_ends prompt updates hturns
  obtain ⟨applied, st, hreplaces, hwoven, hend, rfl, rfl⟩ := applyMatches_keeps
    (P := Replaces prompt updates 0) trivial (fun _ _ _ _ => replaces_round h) hrun
  refine ⟨applied, _, st.outResult, ?_, hreplaces, hwoven.nodup, hwoven.result, rfl, ?_, ?_⟩
  · rw [applyTokenMatches, hrun]
    rfl
  · rw [woven, flatten_pieces_target hreplaces, List.drop_zero]
  · intro item hitem hopen update hupdate tokenIds htarget i hi
    rcases hend with hnone | hall
    · obtain ⟨-, tokenIds', hne, htarget'⟩ := h item hitem update hupdate
      obtain rfl := UpdateTarget.seq.inj (htarget'.symm.trans htarget)
      have hfirst := hnone item hitem hopen update hupdate
      rw [firstMatch_seq htarget hne, Option.map_eq_none_iff, searchFrom_eq_none_iff hne,
        hwoven.prevEndIdx] at hfirst
      exact hfirst i hi
    · exact absurd hopen (hall item hitem)

end Replacement

/-- Two images with contents of two tokens and of one, which replace the token 7. -/
def twoImages : MultiModalPromptUpdates where
  entries := [("image", [[⟨.replace, .seq [7], ⟨[7, 7], none⟩⟩],
    [⟨.replace, .seq [7], ⟨[7], none⟩⟩]])]
  nodup_keys := by decide

private theorem itemsOf_twoImages : itemsOf twoImages =
    [(("image", 0), [⟨.replace, .seq [7], ⟨[7, 7], none⟩⟩]),
      (("image", 1), [⟨.replace, .seq [7], ⟨[7], none⟩⟩])] := rfl

private theorem replacesTokens_twoImages : ReplacesTokens twoImages := by
  rw [ReplacesTokens, itemsOf_twoImages]
  simp

theorem twoImages_replaces : ∃ applied out result,
    applyTokenMatches 3 [1, 7, 7, 2] twoImages = some (out, result) ∧
      Replaces [1, 7, 7, 2] twoImages 0 applied ∧ (applied.map fun a => a.2.1).Nodup ∧
      (∀ key updateIdx, result.at key = some updateIdx ↔
        ∃ a ∈ applied, a.2.1 = key ∧ a.2.2.2 = updateIdx) ∧
      out = (woven [1, 7, 7, 2] (contentFor twoImages) applied).flatten ∧
      [1, 7, 7, 2] = (woven [1, 7, 7, 2] (targetFor twoImages) applied).flatten ∧
      ∀ item ∈ itemsOf twoImages, result.at item.1 = none → ∀ update ∈ item.2, ∀ tokenIds,
        update.target = .seq tokenIds → ∀ i, lastEnd 0 applied ≤ i →
          ¬ Occurs tokenIds [1, 7, 7, 2] i :=
  applyTokenMatches_replaces replacesTokens_twoImages (by decide)

end Vllm.Multimodal
