import Mathlib.Data.List.Nodup
import Mathlib.Data.List.Sublists
import Vllm.Library.Occurrence
import Vllm.Multimodal.PromptUpdates

/-!
# The matches of a round

A search for matches settles on the mode of the first update that matches, and takes for each
open item its first update of that mode with a match. Of replacements one is applied in each
round: the one with the least start, and among these the one of the first item.
-/

namespace Vllm.Multimodal

open Occurrence

/-! ## Matches of a target -/

variable {tokenIds matchIds : List TokenId}

/-- A slice equals a list where the list occurs. -/
theorem take_drop_eq_iff {i : Nat} :
    (tokenIds.drop i).take matchIds.length = matchIds ↔ Occurs matchIds tokenIds i := by
  rw [Occurs, List.prefix_iff_eq_take, eq_comm]

/-- More turns than there are tokens left change nothing. -/
theorem tokenMatchesFrom_turns (hne : matchIds ≠ []) {turns : Nat} (turns' : Nat) {startIdx : Nat}
    (hturns : tokenIds.length < turns + startIdx) (hturns' : tokenIds.length < turns' + startIdx) :
    tokenMatchesFrom tokenIds matchIds turns startIdx
      = tokenMatchesFrom tokenIds matchIds turns' startIdx := by
  have hpos := List.length_pos_iff.mpr hne
  have hover : ∀ turns startIdx, tokenIds.length < startIdx →
      tokenMatchesFrom tokenIds matchIds turns startIdx = [] := by
    intro turns startIdx hover
    cases turns with
    | zero => rfl
    | succ turns => rw [tokenMatchesFrom, if_neg (by omega)]
  induction turns generalizing turns' startIdx with
  | zero => rw [hover 0 startIdx (by omega), hover turns' startIdx (by omega)]
  | succ turns ih =>
    cases turns' with
    | zero => rw [hover _ startIdx (by omega), hover 0 startIdx (by omega)]
    | succ turns' =>
      rw [tokenMatchesFrom, tokenMatchesFrom,
        ih turns' (by omega) (by omega), ih turns' (by omega) (by omega)]

/-- The matches from an index on: the first occurrence, and the matches behind it. -/
theorem tokenMatchesFrom_eq (hne : matchIds ≠ []) {turns startIdx : Nat}
    (hturns : tokenIds.length < turns + startIdx) :
    tokenMatchesFrom tokenIds matchIds turns startIdx
      = match searchFrom tokenIds matchIds startIdx with
        | none => []
        | some i => ⟨i, i + matchIds.length⟩ ::
          iterTokenMatches tokenIds matchIds (i + matchIds.length) := by
  have hpos := List.length_pos_iff.mpr hne
  induction turns generalizing startIdx with
  | zero =>
    have hnone : searchFrom tokenIds matchIds startIdx = none := by
      rw [searchFrom_eq_none_iff hne]
      intro i hi hocc
      have := hocc.end_le hne
      omega
    rw [hnone]
    rfl
  | succ turns ih =>
    rw [tokenMatchesFrom]
    split_ifs with hbound hmatch
    · have hsome : searchFrom tokenIds matchIds startIdx = some startIdx := by
        rw [searchFrom_eq_some_iff hne]
        exact ⟨le_rfl, take_drop_eq_iff.mp hmatch, fun j hj _ => hj⟩
      simp only [hsome]
      rw [iterTokenMatches, if_neg (by omega)]
      exact congrArg _ (tokenMatchesFrom_turns hne _ (by omega) (by omega))
    · have hnext : searchFrom tokenIds matchIds startIdx
          = searchFrom tokenIds matchIds (startIdx + 1) := by
        cases hsearch : searchFrom tokenIds matchIds (startIdx + 1) with
        | none =>
          rw [searchFrom_eq_none_iff hne] at hsearch ⊢
          intro i hi hocc
          rcases Nat.eq_or_lt_of_le hi with rfl | hlt
          · exact hmatch (take_drop_eq_iff.mpr hocc)
          · exact hsearch i hlt hocc
        | some j =>
          rw [searchFrom_eq_some_iff hne] at hsearch ⊢
          refine ⟨by omega, hsearch.2.1, fun i hi hocc => ?_⟩
          rcases Nat.eq_or_lt_of_le hi with rfl | hlt
          · exact absurd (take_drop_eq_iff.mpr hocc) hmatch
          · exact hsearch.2.2 i hlt hocc
      rw [ih (by omega), hnext]
    · have hnone : searchFrom tokenIds matchIds startIdx = none := by
        rw [searchFrom_eq_none_iff hne]
        intro i hi hocc
        have := hocc.end_le hne
        omega
      rw [hnone]

theorem iterTokenMatches_eq (hne : matchIds ≠ []) (startIdx : Nat) :
    iterTokenMatches tokenIds matchIds startIdx
      = match searchFrom tokenIds matchIds startIdx with
        | none => []
        | some i => ⟨i, i + matchIds.length⟩ ::
          iterTokenMatches tokenIds matchIds (i + matchIds.length) := by
  rw [iterTokenMatches, if_neg (by simpa using hne), tokenMatchesFrom_eq hne (by omega)]

/-- The first match of a token target is its first occurrence. -/
theorem head?_iterTokenMatches (hne : matchIds ≠ []) (startIdx : Nat) :
    (iterTokenMatches tokenIds matchIds startIdx).head?
      = (searchFrom tokenIds matchIds startIdx).map fun i => ⟨i, i + matchIds.length⟩ := by
  rw [iterTokenMatches_eq hne]
  cases searchFrom tokenIds matchIds startIdx <;> rfl

/-! ## What a search finds -/

section Search

variable (prompt : List TokenId) (prevEndIdx : Nat) (result : ApplyResult)

/-- The first match of an update. -/
def firstMatch (update : ResolvedPromptUpdate) : Option PromptTargetMatch :=
  (update.iterMatches prompt prevEndIdx).head?

/-- The first update of a mode that matches, with its match. -/
def updateMatch (mode : UpdateMode) (itemUpdates : List (ResolvedPromptUpdate × Nat)) :
    Option (PromptTargetMatch × Nat) :=
  itemUpdates.findSome? fun update =>
    if update.1.mode = mode then
      (firstMatch prompt prevEndIdx update.1).map fun found => (found, update.2)
    else none

/-- The mode of the first update that matches. -/
def matchMode (itemUpdates : List (ResolvedPromptUpdate × Nat)) : Option UpdateMode :=
  itemUpdates.findSome? fun update =>
    (firstMatch prompt prevEndIdx update.1).map fun _ => update.1.mode

/-- The match to apply of an open item, for a mode. -/
def candidate (mode : UpdateMode) (item : ItemKey × List ResolvedPromptUpdate) :
    Option MatchToApply :=
  if result.at item.1 ≠ none then none
  else (updateMatch prompt prevEndIdx mode item.2.zipIdx).map fun found => (item.1, found)

/-- The mode of the first update of an open item that matches. -/
def roundMode (items : List (ItemKey × List ResolvedPromptUpdate)) : Option UpdateMode :=
  items.findSome? fun item =>
    if result.at item.1 ≠ none then none else matchMode prompt prevEndIdx item.2.zipIdx

variable {prompt prevEndIdx result}

private theorem foldl_findUpdate_of_mem {key : ItemKey} {found : Found}
    (hmem : key ∈ found.matched.map Prod.fst) (itemUpdates : List (ResolvedPromptUpdate × Nat)) :
    itemUpdates.foldl (findUpdate prompt prevEndIdx key) found = found := by
  induction itemUpdates with
  | nil => rfl
  | cons update itemUpdates ih => rw [List.foldl_cons, findUpdate, if_pos hmem, ih]

/-- Once the mode is settled, an item adds its first match of that mode. -/
theorem foldl_findUpdate {key : ItemKey} {mode : UpdateMode} {matched : List MatchToApply}
    (hnew : key ∉ matched.map Prod.fst) (itemUpdates : List (ResolvedPromptUpdate × Nat)) :
    itemUpdates.foldl (findUpdate prompt prevEndIdx key) ⟨some mode, matched⟩
      = ⟨some mode, matched ++
          ((updateMatch prompt prevEndIdx mode itemUpdates).map fun found => (key, found)).toList⟩
    := by
  induction itemUpdates with
  | nil => simp [updateMatch]
  | cons update itemUpdates ih =>
    rw [List.foldl_cons, findUpdate, if_neg hnew]
    rw [updateMatch, List.findSome?_cons, firstMatch]
    cases hfirst : (update.1.iterMatches prompt prevEndIdx).head? with
    | none =>
      simp only [Option.map_none, ite_self]
      exact ih
    | some first =>
      by_cases hmode : update.1.mode = mode
      · subst hmode
        simp only [ne_eq, not_true_eq_false, if_false, if_true, Option.map_some]
        exact foldl_findUpdate_of_mem (by simp) itemUpdates
      · have hmode' : mode ≠ update.1.mode := fun h => hmode h.symm
        simp only [ne_eq, hmode', hmode, not_false_eq_true, if_true, if_false]
        exact ih

/-- Before a mode is settled, an item settles it by its first match. -/
theorem foldl_findUpdate_empty (key : ItemKey)
    (itemUpdates : List (ResolvedPromptUpdate × Nat)) :
    itemUpdates.foldl (findUpdate prompt prevEndIdx key) {}
      = match matchMode prompt prevEndIdx itemUpdates with
        | none => {}
        | some mode => ⟨some mode,
          ((updateMatch prompt prevEndIdx mode itemUpdates).map fun found => (key, found)).toList⟩
    := by
  induction itemUpdates with
  | nil => rfl
  | cons update itemUpdates ih =>
    rw [List.foldl_cons, findUpdate, if_neg (by simp)]
    rw [matchMode, List.findSome?_cons, firstMatch]
    cases hfirst : (update.1.iterMatches prompt prevEndIdx).head? with
    | none =>
      simp only [Option.map_none]
      rw [ih, matchMode]
      cases List.findSome? (fun update : ResolvedPromptUpdate × Nat =>
        (firstMatch prompt prevEndIdx update.1).map fun _ => update.1.mode) itemUpdates with
      | none => rfl
      | some mode => simp [updateMatch, firstMatch, hfirst]
    | some first =>
      simp only [Option.map_some, List.nil_append]
      rw [foldl_findUpdate_of_mem (by simp)]
      simp [updateMatch, firstMatch, hfirst]

/-- The items that are left once the mode is settled. -/
theorem foldl_findItem {mode : UpdateMode} {matched : List MatchToApply}
    {items : List (ItemKey × List ResolvedPromptUpdate)}
    (hnodup : (matched.map Prod.fst ++ items.map Prod.fst).Nodup) :
    items.foldl (findItem prompt prevEndIdx result) ⟨some mode, matched⟩
      = ⟨some mode, matched ++ items.filterMap (candidate prompt prevEndIdx result mode)⟩ := by
  induction items generalizing matched with
  | nil => simp
  | cons item items ih =>
    rw [List.map_cons] at hnodup
    have hnew : item.1 ∉ matched.map Prod.fst := by
      intro hmem
      exact (List.nodup_append.mp hnodup).2.2 _ hmem _ List.mem_cons_self rfl
    rw [List.foldl_cons, List.filterMap_cons, findItem]
    by_cases hopen : result.at item.1 ≠ none
    · rw [if_pos hopen, candidate, if_pos hopen]
      exact ih (hnodup.sublist ((List.Sublist.refl _).append (List.sublist_cons_self _ _)))
    · rw [if_neg hopen, candidate, if_neg hopen, foldl_findUpdate hnew]
      cases hmatch : updateMatch prompt prevEndIdx mode item.2.zipIdx with
      | none =>
        simp only [Option.map_none, Option.toList_none, List.append_nil]
        exact ih (hnodup.sublist ((List.Sublist.refl _).append (List.sublist_cons_self _ _)))
      | some found =>
        simp only [Option.map_some, Option.toList_some]
        rw [ih (by simpa using hnodup), List.append_assoc, List.singleton_append]

/-- A search finds for each open item its first match of the mode that is settled first. -/
theorem foldl_findItem_empty {items : List (ItemKey × List ResolvedPromptUpdate)}
    (hnodup : (items.map Prod.fst).Nodup) :
    items.foldl (findItem prompt prevEndIdx result) {}
      = match roundMode prompt prevEndIdx result items with
        | none => {}
        | some mode => ⟨some mode, items.filterMap (candidate prompt prevEndIdx result mode)⟩ := by
  induction items with
  | nil => rfl
  | cons item items ih =>
    rw [List.map_cons, List.nodup_cons] at hnodup
    rw [List.foldl_cons, findItem, roundMode, List.findSome?_cons]
    by_cases hopen : result.at item.1 ≠ none
    · rw [if_pos hopen, ih hnodup.2, roundMode]
      simp only [hopen, ne_eq, not_false_eq_true, if_true]
      cases List.findSome? _ items with
      | none => rfl
      | some mode => simp [candidate, hopen]
    · rw [if_neg hopen, foldl_findUpdate_empty]
      simp only [hopen, if_false]
      cases hmode : matchMode prompt prevEndIdx item.2.zipIdx with
      | none =>
        simp only
        rw [ih hnodup.2, roundMode]
        cases hround : List.findSome? _ items with
        | none => rfl
        | some mode =>
          have hnone : updateMatch prompt prevEndIdx mode item.2.zipIdx = none := by
            rw [updateMatch, List.findSome?_eq_none_iff]
            rw [matchMode, List.findSome?_eq_none_iff] at hmode
            intro update hupdate
            have := hmode update hupdate
            rw [Option.map_eq_none_iff] at this
            simp [this]
          simp [candidate, hnone]
      | some mode =>
        simp only
        rw [foldl_findItem (by
          cases updateMatch prompt prevEndIdx mode item.2.zipIdx with
          | none => simpa using hnodup.2
          | some found => simpa using hnodup), List.filterMap_cons, candidate, if_neg hopen]
        cases updateMatch prompt prevEndIdx mode item.2.zipIdx <;> rfl

end Search

end Vllm.Multimodal
