import Vllm.Core.Request
import Vllm.Library.DictOrder

/-!
# Prompt updates

Each item of each modality has updates of the token prompt: a target, and a content that is
inserted behind it or replaces it. The matches of all items are looked for from a cursor on and
applied in rounds. Texts as targets or contents are taken as the tokens that the tokenizer gives
for them.
-/

namespace Vllm.Multimodal

/-- `UpdateMode`. -/
inductive UpdateMode where
  | insert
  | replace
  deriving DecidableEq, Repr

/-- `PromptTargetMatch`, and `_TokenMatch`. -/
structure PromptTargetMatch where
  startIdx : Nat
  endIdx : Nat
  deriving DecidableEq, Repr

/-- `PromptIndex`: an index in a prompt, for a search from an index on. -/
structure PromptIndex where
  getMatchIndex : List TokenId → Nat → Option Nat

namespace PromptIndexTargets

/-- `start`. -/
def start : PromptIndex := ⟨fun _ _ => some 0⟩

/-- `prefix`: behind the given tokens. -/
def behind (seq : List TokenId) : PromptIndex :=
  ⟨fun prompt startIdx =>
    if startIdx ≠ 0 then none
    else if prompt.take seq.length = seq then some seq.length else none⟩

/-- `end`. -/
def promptEnd : PromptIndex := ⟨fun prompt _ => some prompt.length⟩

end PromptIndexTargets

/-- `UpdateTarget`. -/
inductive UpdateTarget where
  | seq (tokenIds : List TokenId)
  | index (promptIndex : PromptIndex)

/-- `PromptUpdateDetails`. -/
structure PromptUpdateDetails where
  full : List TokenId
  isEmbed : Option (List TokenId → List Bool) := none

/-- `ResolvedPromptUpdate`; its modality and its item are those it is filed under. -/
structure ResolvedPromptUpdate where
  mode : UpdateMode
  target : UpdateTarget
  content : PromptUpdateDetails

/-- The loop of `iter_token_matches`, for a number of turns. -/
def tokenMatchesFrom (tokenIds matchIds : List TokenId) : Nat → Nat → List PromptTargetMatch
  | 0, _ => []
  | turns + 1, startIdx =>
    if startIdx + matchIds.length < tokenIds.length + 1 then
      if (tokenIds.drop startIdx).take matchIds.length = matchIds then
        ⟨startIdx, startIdx + matchIds.length⟩ ::
          tokenMatchesFrom tokenIds matchIds turns (startIdx + matchIds.length)
      else tokenMatchesFrom tokenIds matchIds turns (startIdx + 1)
    else []

/-- `iter_token_matches`: each turn moves on, so there are fewer turns than tokens. -/
def iterTokenMatches (tokenIds matchIds : List TokenId) (startIdx : Nat) :
    List PromptTargetMatch :=
  if matchIds.length = 0 then []
  else tokenMatchesFrom tokenIds matchIds (tokenIds.length + 1) startIdx

/-- `replace_token_matches`. -/
def replaceTokenMatches (tokenIds matchIds newIds : List TokenId) : List TokenId :=
  let out := (iterTokenMatches tokenIds matchIds 0).foldl
    (fun out found => (out.1 ++ ((tokenIds.take found.startIdx).drop out.2 ++ newIds),
      found.endIdx)) (([], 0) : List TokenId × Nat)
  out.1 ++ tokenIds.drop out.2

/-- `ResolvedPromptUpdate.iter_matches` in a token prompt. -/
def ResolvedPromptUpdate.iterMatches (update : ResolvedPromptUpdate) (prompt : List TokenId)
    (startIdx : Nat) : List PromptTargetMatch :=
  match update.target with
  | .index promptIndex =>
    match promptIndex.getMatchIndex prompt startIdx with
    | some matchIdx => [⟨matchIdx, matchIdx⟩]
    | none => []
  | .seq tokenIds => iterTokenMatches prompt tokenIds startIdx

/-! ## Applying the updates -/

/-- `MultiModalPromptUpdates`: for each modality the items with their alternative updates. -/
abbrev MultiModalPromptUpdates := Dict String (List (List ResolvedPromptUpdate))

/-- `MultiModalPromptUpdatesApplyResult`: which update was applied for each item. -/
abbrev ApplyResult := Dict String (List (Option Nat))

/-- An item: its modality and its index there. -/
abbrev ItemKey := String × Nat

/-- The items in the order of the loops. -/
def itemsOf (updates : MultiModalPromptUpdates) : List (ItemKey × List ResolvedPromptUpdate) :=
  updates.entries.flatMap fun e => e.2.zipIdx.map fun item => ((e.1, item.2), item.1)

/-- `result[modality][item_idx]`. -/
def ApplyResult.at (result : ApplyResult) (key : ItemKey) : Option Nat :=
  ((result.get? key.1).bind fun res => res[key.2]?).join

/-- `result[modality][item_idx] = update_idx`. -/
def ApplyResult.set (result : ApplyResult) (key : ItemKey) (updateIdx : Nat) : ApplyResult :=
  match result.get? key.1 with
  | some res => result.insert key.1 (res.set key.2 (some updateIdx))
  | none => result

/-- `_MatchToApply`. -/
abbrev MatchToApply := ItemKey × (PromptTargetMatch × Nat)

/-- `mode` and `mm_matches` while matches are looked for. -/
structure Found where
  mode : Option UpdateMode := none
  matched : List MatchToApply := []

/-- One update of an item. Of its matches only the first can be taken, and all of them are passed
over where the mode is another. -/
def findUpdate (prompt : List TokenId) (prevEndIdx : Nat) (key : ItemKey) (found : Found)
    (update : ResolvedPromptUpdate × Nat) : Found :=
  if key ∈ found.matched.map Prod.fst then found
  else
    match (update.1.iterMatches prompt prevEndIdx).head? with
    | none => found
    | some first =>
      match found.mode with
      | none => ⟨some update.1.mode, found.matched ++ [(key, first, update.2)]⟩
      | some mode =>
        if mode ≠ update.1.mode then found
        else ⟨found.mode, found.matched ++ [(key, first, update.2)]⟩

/-- The updates of one item, unless one has been applied. -/
def findItem (prompt : List TokenId) (prevEndIdx : Nat) (currentResult : ApplyResult)
    (found : Found) (item : ItemKey × List ResolvedPromptUpdate) : Found :=
  if currentResult.at item.1 ≠ none then found
  else item.2.zipIdx.foldl (findUpdate prompt prevEndIdx item.1) found

/-- The order of matches as tuples. -/
def matchLe (m m' : PromptTargetMatch) : Bool :=
  decide (m.startIdx < m'.startIdx ∨ m.startIdx = m'.startIdx ∧ m.endIdx ≤ m'.endIdx)

/-- The empty matches, and the first that is not empty. -/
def firstNonEmpty : List MatchToApply → List MatchToApply
  | [] => []
  | item :: rest =>
    if item.2.1.startIdx = item.2.1.endIdx then item :: firstNonEmpty rest
    else item :: rest.filter fun item => item.2.1.startIdx = item.2.1.endIdx

/-- `_find_matches`. -/
def findMatches (prompt : List TokenId) (updates : MultiModalPromptUpdates) (prevEndIdx : Nat)
    (currentResult : ApplyResult) : Option UpdateMode × List MatchToApply :=
  let found := (itemsOf updates).foldl (findItem prompt prevEndIdx currentResult) {}
  let sorted := found.matched.mergeSort fun item item' => matchLe item.2.1 item'.2.1
  (found.mode, if found.mode = some .replace then firstNonEmpty sorted else sorted)

/-- `_all_items_found`, for the counts of a result. -/
def allItemsFound (updates : MultiModalPromptUpdates) (result : ApplyResult) : Bool :=
  updates.entries.all fun e =>
    decide (e.2.length ≤ ((result.get? e.1).getD []).countP Option.isSome)

/-- What changes while matches are applied. -/
structure ApplyState where
  prevEndIdx : Nat
  outSeqs : List (List TokenId)
  outResult : ApplyResult

/-- `mm_prompt_updates[modality][item_idx][update_idx].content.full`. -/
def contentOf (updates : MultiModalPromptUpdates) (key : ItemKey) (updateIdx : Nat) :
    List TokenId :=
  match ((updates.get? key.1).bind fun items => items[key.2]?).bind fun us => us[updateIdx]? with
  | some update => update.content.full
  | none => []

/-- Apply one match. -/
def applyMatch (prompt : List TokenId) (updates : MultiModalPromptUpdates) (mode : UpdateMode)
    (st : ApplyState) (item : MatchToApply) : ApplyState :=
  let endIdxToInsert := match mode with
    | .insert => item.2.1.endIdx
    | .replace => item.2.1.startIdx
  { prevEndIdx := item.2.1.endIdx
    outSeqs := st.outSeqs ++ [(prompt.take endIdxToInsert).drop st.prevEndIdx,
      contentOf updates item.1 item.2.2]
    outResult := st.outResult.set item.1 item.2.2 }

/-- The loop of `_apply_matches`, for a number of turns. -/
def applyLoop (prompt : List TokenId) (updates : MultiModalPromptUpdates) :
    Nat → ApplyState → Option ApplyState
  | 0, _ => none
  | turns + 1, st =>
    match findMatches prompt updates st.prevEndIdx st.outResult with
    | (none, _) => some st
    | (some mode, matchesToApply) =>
      let st := matchesToApply.foldl (applyMatch prompt updates mode) st
      if allItemsFound updates st.outResult then some st else applyLoop prompt updates turns st

/-- `[None] * len(items)` for each modality. -/
def emptyResult (updates : MultiModalPromptUpdates) : ApplyResult where
  entries := updates.entries.map fun e => (e.1, List.replicate e.2.length none)
  nodup_keys := by
    rw [List.map_map]
    exact updates.nodup_keys

/-- `_apply_matches`. -/
def applyMatches (turns : Nat) (prompt : List TokenId) (updates : MultiModalPromptUpdates) :
    Option (List (List TokenId) × ApplyResult) :=
  if allItemsFound updates (emptyResult updates) then some ([prompt], emptyResult updates)
  else
    (applyLoop prompt updates turns ⟨0, [], emptyResult updates⟩).map fun st =>
      (st.outSeqs ++ [prompt.drop st.prevEndIdx], st.outResult)

/-- `apply_token_matches`. -/
def applyTokenMatches (turns : Nat) (prompt : List TokenId) (updates : MultiModalPromptUpdates) :
    Option (List TokenId × ApplyResult) :=
  (applyMatches turns prompt updates).map fun out => (out.1.flatten, out.2)

end Vllm.Multimodal
