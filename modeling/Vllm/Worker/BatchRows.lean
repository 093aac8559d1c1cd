import Vllm.Worker.InputBatch
import Mathlib.Tactic.SplitIfs

/-!
# Rows of the batch

What the batch holds at an index, read together as one record, and what each operation does to
these records: a request that is added writes its row, a move copies a row, a swap exchanges
two. For the prompt embeddings and for the mask of allowed tokens this takes a condition.
-/

namespace Vllm.Worker

open Checked

variable {F V : Type}

/-! ## Entries of arrays and dictionaries -/

theorem swapEntries_apply (a : Nat → V) (i j k : Nat) :
    swapEntries a i j k = if k = j then a i else if k = i then a j else a k := by
  simp only [swapEntries, Function.update_apply]

theorem getElem?_swapAt {l : List V} {i j : Nat} (hi : i < l.length) (hj : j < l.length)
    (k : Nat) : (swapAt l i j)[k]? = if k = j then l[i]? else if k = i then l[j]? else l[k]? := by
  simp only [swapAt, List.getElem?_eq_getElem hi, List.getElem?_eq_getElem hj]
  by_cases hkj : k = j
  · subst hkj
    simp [hj]
  · by_cases hki : k = i
    · subst hki
      rw [List.getElem?_set_ne (Ne.symm hkj), List.getElem?_set_self hi, if_neg hkj, if_pos rfl]
    · rw [List.getElem?_set_ne (Ne.symm hkj), List.getElem?_set_ne (Ne.symm hki), if_neg hkj,
        if_neg hki]

@[simp] theorem length_swapAt (l : List V) (i j : Nat) : (swapAt l i j).length = l.length := by
  unfold swapAt
  split <;> simp

/-- Placing an entry inside the list or right behind it. -/
theorem getElem?_placeAt {l : List V} {i : Nat} (hi : i ≤ l.length) (x : V) (k : Nat) :
    (placeAt l i x)[k]? = if k = i then some x else l[k]? := by
  unfold placeAt
  split
  · rename_i h
    subst h
    by_cases hk : k = l.length
    · simp [hk]
    · rw [if_neg hk]
      rcases Nat.lt_or_gt_of_ne hk with h | h
      · rw [List.getElem?_append_left h]
      · rw [List.getElem?_eq_none (by simp; omega), List.getElem?_eq_none (by omega)]
  · rename_i h
    by_cases hk : k = i
    · subst hk
      simp [show k < l.length by omega]
    · rw [List.getElem?_set_ne (Ne.symm hk), if_neg hk]

theorem get?_swapDictValues (d : Dict Nat V) (i j k : Nat) : (swapDictValues d i j).get? k =
    if k = j then d.get? i else if k = i then d.get? j else d.get? k := by
  have h : (swapDictValues d i j).get? k =
      if k = i then d.get? j else if k = j then d.get? i else d.get? k := by
    unfold swapDictValues
    cases d.get? i <;> cases d.get? j <;> simp only [Dict.get?_insert, Dict.get?_erase]
  rw [h]
  by_cases hi : k = i
  · by_cases hj : k = j
    · rw [if_pos hi, if_pos hj, ← hi, ← hj]
    · rw [if_pos hi, if_neg hj, if_pos hi]
  · rw [if_neg hi, if_neg hi]

/-- A value that moves to an index without value. -/
theorem get?_moveDictValue {d : Dict Nat V} {src dst : Nat}
    (h : (d.get? src).isSome ∨ d.get? dst = none) (k : Nat) : (moveDictValue d src dst).get? k =
      if k = dst then d.get? src else if k = src then none else d.get? k := by
  unfold moveDictValue
  cases hsrc : d.get? src with
  | some v =>
    simp only [Dict.get?_insert, Dict.get?_erase]
  | none =>
    have hdst : d.get? dst = none := by simpa [hsrc] using h
    split_ifs with hk hk
    · rw [hk, hdst]
    · rw [hk, hsrc]
    · rfl

private theorem writeSlice_apply (row : Nat → V) (start : Nat) (values : List V) (p : Nat) :
    writeSlice row start values p =
      if start ≤ p then values[p - start]?.getD (row p) else row p := rfl

/-- Inside the slice. -/
theorem writeSlice_of_lt {row : Nat → V} {start : Nat} {values : List V} {p : Nat}
    (h : start ≤ p) (h' : p - start < values.length) :
    writeSlice row start values p = values[p - start] := by
  simp [writeSlice_apply, h, h']

/-- In front of the slice. -/
theorem writeSlice_of_gt {row : Nat → V} {start : Nat} {values : List V} {p : Nat}
    (h : p < start) : writeSlice row start values p = row p := by
  rw [writeSlice_apply, if_neg (by omega)]

/-- The beginning of a row. -/
theorem writeSlice_zero_of_lt {row row' : Nat → V} {n p : Nat} (h : p < n) :
    writeSlice row 0 ((List.range n).map row') p = row' p := by
  rw [writeSlice_of_lt (Nat.zero_le p) (by simpa using h)]
  simp

/-! ## Token ids -/

/-- The tokens of a row, as far as they are counted, and its counts. A position whose token id
is not known has none. -/
structure TokenRow where
  tokenIds : List (Option TokenId)
  numPromptTokens : Nat
  numComputedTokens : Nat
  deriving DecidableEq, Repr

/-- The tokens of a request. -/
def CachedRequestState.tokenRow (r : CachedRequestState F) (numPromptTokens : Nat) : TokenRow where
  tokenIds := (match r.promptTokenIds with
    | some prompt => prompt.map some
    | none => List.replicate numPromptTokens none) ++ r.outputTokenIds.map some
  numPromptTokens
  numComputedTokens := r.numComputedTokens

namespace TokenRows

variable (t : TokenRows)

/-- What a row holds. -/
def row (i : Nat) : TokenRow where
  tokenIds := (List.range (t.numTokensNoSpec i)).map fun p =>
    if t.isTokenIds i p then some (t.tokenIdsCpu i p) else none
  numPromptTokens := t.numPromptTokens i
  numComputedTokens := t.numComputedTokensCpu i

/-- A request that is added writes its tokens. -/
theorem row_add (i : Nat) (r : CachedRequestState F) {n : Nat}
    (hn : lengthFromPromptTokenIdsOrEmbeds r.promptTokenIds r.promptEmbeds = .ok n) (k : Nat) :
    (t.add i r n).row k = if k = i then r.tokenRow n else t.row k := by
  by_cases hk : k = i
  · subst hk
    rw [if_pos rfl]
    simp only [row, add, Function.update_self, CachedRequestState.tokenRow, TokenRow.mk.injEq,
      and_true]
    have hprompt (prompt : List TokenId) (h : r.promptTokenIds = some prompt) :
        prompt.length = n := by
      rw [h] at hn
      unfold lengthFromPromptTokenIdsOrEmbeds at hn
      cases hembeds : r.promptEmbeds with
      | none => simpa [hembeds] using hn
      | some embeds =>
        simp only [hembeds, bind_ok_iff, pure_ok_iff] at hn
        obtain ⟨_, _, hlength⟩ := hn
        exact hlength
    refine List.ext_getElem? fun p => ?_
    by_cases hp : p < n + r.outputTokenIds.length
    · rw [List.getElem?_map, List.getElem?_range hp]
      simp only [Option.map_some]
      by_cases hpn : p < n
      · rw [writeSlice_of_gt hpn, writeSlice_of_gt hpn, writeSlice_of_lt (Nat.zero_le p) (by simpa)]
        cases hids : r.promptTokenIds with
        | none =>
          rw [List.getElem?_append_left (by simpa)]
          simp [hpn]
        | some prompt =>
          have hlt : p < prompt.length := by rwa [hprompt prompt hids]
          rw [List.getElem?_append_left (by simpa)]
          simp [writeSlice_of_lt, hlt]
      · rw [writeSlice_of_lt (by omega) (by simp; omega),
          writeSlice_of_lt (by omega) (by omega), List.getElem?_append_right]
        · cases hids : r.promptTokenIds with
          | none => simp [show p - n < r.outputTokenIds.length by omega]
          | some prompt =>
            simp [hprompt prompt hids, show p - n < r.outputTokenIds.length by omega]
        · cases hids : r.promptTokenIds with
          | none => simpa using hpn
          | some prompt => simpa [hprompt prompt hids] using hpn
    · rw [List.getElem?_eq_none (by simpa using hp), List.getElem?_eq_none]
      cases hids : r.promptTokenIds with
      | none => simpa using hp
      | some prompt => simpa [hprompt prompt hids] using hp
  · rw [if_neg hk]
    simp only [row, add, Function.update_of_ne hk]

/-- Draft tokens are not among the tokens of a row. -/
theorem row_addSpec (i : Nat) (specTokenIds : List TokenId) (k : Nat) :
    (t.addSpec i specTokenIds).row k = t.row k := by
  by_cases hk : k = i
  · subst hk
    simp only [row, addSpec, Function.update_self, TokenRow.mk.injEq, and_true]
    refine List.map_congr_left fun p hp => ?_
    rw [writeSlice_of_gt (List.mem_range.mp hp)]
  · simp only [row, addSpec, Function.update_of_ne hk]

/-- A move copies the tokens of a row, if it copies as many as are counted. -/
theorem row_move {src numTokens : Nat} (dst : Nat) (h : t.numTokensNoSpec src ≤ numTokens)
    (k : Nat) :
    (t.move src dst numTokens).row k = if k = dst then t.row src else t.row k := by
  by_cases hk : k = dst
  · subst hk
    rw [if_pos rfl]
    simp only [row, move, Function.update_self, TokenRow.mk.injEq, and_true]
    refine List.map_congr_left fun p hp => ?_
    have hlt := lt_of_lt_of_le (List.mem_range.mp hp) h
    rw [writeSlice_zero_of_lt hlt, writeSlice_zero_of_lt hlt]
  · rw [if_neg hk]
    simp only [row, move, Function.update_of_ne hk]

/-- A swap exchanges two rows. -/
theorem row_swap (i j k : Nat) :
    (t.swap i j).row k = if k = j then t.row i else if k = i then t.row j else t.row k := by
  simp only [row, swap, swapEntries_apply]
  split_ifs <;> rfl

end TokenRows

/-! ## Block tables -/

namespace BlockTable

variable (t : BlockTable)

/-- The blocks of a row. -/
def row (i : Nat) : List Nat := (List.range (t.numBlocksPerRow i)).map (t.table i)

/-- A request that is added has its own blocks. -/
theorem row_addRow (blockIds : List Nat) (i k : Nat) : (t.addRow blockIds i).row k =
    if k = i then mapToKernelBlocks blockIds t.blocksPerKvBlock else t.row k := by
  unfold addRow appendRow
  by_cases hids : blockIds = []
  · rw [if_pos hids]
    by_cases hk : k = i
    · subst hk
      simp [row, mapToKernelBlocks, hids]
    · simp [row, hk]
  · rw [if_neg hids]
    by_cases hk : k = i
    · subst hk
      rw [if_pos rfl]
      simp only [row, Function.update_self, Nat.zero_add]
      refine List.ext_getElem (by simp) fun p hp hp' => ?_
      rw [List.getElem_map, List.getElem_range]
      exact writeSlice_of_lt (Nat.zero_le p) hp'
    · simp [row, hk]

/-- A move copies a row. -/
theorem row_moveRow (src dst k : Nat) :
    (t.moveRow src dst).row k = if k = dst then t.row src else t.row k := by
  by_cases hk : k = dst
  · subst hk
    rw [if_pos rfl]
    simp only [row, moveRow, Function.update_self]
    exact List.map_congr_left fun p hp => writeSlice_zero_of_lt (List.mem_range.mp hp)
  · rw [if_neg hk]
    simp only [row, moveRow, Function.update_of_ne hk]

/-- A swap exchanges two rows. -/
theorem row_swapRow (i j k : Nat) :
    (t.swapRow i j).row k = if k = j then t.row i else if k = i then t.row j else t.row k := by
  simp only [row, swapRow, swapEntries_apply]
  split_ifs <;> rfl

end BlockTable

/-- Adding to the tables of all groups. -/
theorem rows_addRows {i : Nat} {tables tables' : List BlockTable} {blockIds : List (List Nat)}
    (h : addRows i tables blockIds = .ok tables') (k : Nat) :
    tables'.map (·.blocksPerKvBlock) = tables.map (·.blocksPerKvBlock) ∧
      tables'.map (·.row k) =
        if k = i then ((tables.map (·.blocksPerKvBlock)).zip blockIds).map fun e =>
          mapToKernelBlocks e.2 e.1
        else tables.map (·.row k) := by
  induction tables generalizing blockIds tables' with
  | nil =>
    cases h
    simp
  | cons t tables ih =>
    cases blockIds with
    | nil => cases h
    | cons ids rest =>
      simp only [addRows, bind_ok_iff, pure_ok_iff] at h
      obtain ⟨tables₁, hrest, rfl⟩ := h
      obtain ⟨hsizes, hrows⟩ := ih hrest
      have hsize : (t.addRow ids i).blocksPerKvBlock = t.blocksPerKvBlock := by
        unfold BlockTable.addRow BlockTable.appendRow
        split <;> rfl
      refine ⟨by rw [List.map_cons, List.map_cons, hsizes, hsize], ?_⟩
      rw [List.map_cons, hrows, t.row_addRow]
      split_ifs <;> rfl

/-! ## Sampling parameters -/

/-- The sampling parameters of a row. -/
structure SamplingRow (F : Type) where
  temperature : F
  topP : F
  topK : Int
  frequencyPenalty : F
  presencePenalty : F
  repetitionPenalty : F
  deriving DecidableEq, Repr

/-- The sampling parameters that a request asks for. -/
def SamplingParams.row [SinglePrecision F] (params : SamplingParams F) (vocabSize : Nat) :
    SamplingRow F where
  temperature := if params.greedy then 0 else single params.temperature
  topP := single params.topP
  topK := if 0 < params.topK ∧ params.topK < vocabSize then params.topK else vocabSize
  frequencyPenalty := single params.frequencyPenalty
  presencePenalty := single params.presencePenalty
  repetitionPenalty := single params.repetitionPenalty

namespace SamplingRows

variable (s : SamplingRows F)

/-- What a row holds. -/
def row (i : Nat) : SamplingRow F where
  temperature := s.temperatureCpu i
  topP := s.topPCpu i
  topK := s.topKCpu i
  frequencyPenalty := s.frequencyPenaltiesCpu i
  presencePenalty := s.presencePenaltiesCpu i
  repetitionPenalty := s.repetitionPenaltiesCpu i

theorem row_add [SinglePrecision F] (i : Nat) (params : SamplingParams F) (vocabSize k : Nat) :
    (s.add i params vocabSize).row k = if k = i then params.row vocabSize else s.row k := by
  simp only [row, add, Function.update_apply, SamplingParams.row]
  split_ifs <;> rfl

theorem row_move (src dst k : Nat) :
    (s.move src dst).row k = if k = dst then s.row src else s.row k := by
  simp only [row, move, Function.update_apply]
  split_ifs <;> rfl

theorem row_swap (i j k : Nat) :
    (s.swap i j).row k = if k = j then s.row i else if k = i then s.row j else s.row k := by
  simp only [row, swap, swapEntries_apply]
  split_ifs <;> rfl

end SamplingRows

/-! ## The mask of allowed tokens -/

/-- An entry of the mask; without tensor nothing is masked. -/
def maskAt (mask : Option (Nat → TokenId → Bool)) (i : Nat) (token : TokenId) : Bool :=
  match mask with
  | some mask => mask i token
  | none => false

/-- A row of the mask. -/
def maskRow (mask : Option (Nat → TokenId → Bool)) (vocabSize i : Nat) : List Bool :=
  (List.range vocabSize).map (maskAt mask i)

/-- The mask that a request asks for. -/
def SamplingParams.mask (params : SamplingParams F) (vocabSize : Nat) : List Bool :=
  (List.range vocabSize).map fun token =>
    decide (params.allowedTokenIds ≠ [] ∧ token ∉ params.allowedTokenIds)

/-- A request that is added has its own mask, if it restricts its tokens or finds an empty
row. -/
theorem maskRow_addAllowedTokenIds {mask : Option (Nat → TokenId → Bool)} {i : Nat}
    {params : SamplingParams F} {vocabSize : Nat}
    (h : params.allowedTokenIds = [] → ∀ token < vocabSize, maskAt mask i token = false) (k : Nat) :
    maskRow (InputBatch.addAllowedTokenIds mask i params.allowedTokenIds) vocabSize k =
      if k = i then params.mask vocabSize else maskRow mask vocabSize k := by
  unfold InputBatch.addAllowedTokenIds
  by_cases hnone : params.allowedTokenIds = []
  · rw [if_pos hnone]
    split
    · rename_i hk
      subst hk
      refine List.map_congr_left fun token htoken => ?_
      simpa [hnone] using h hnone token (List.mem_range.mp htoken)
    · rfl
  · rw [if_neg hnone]
    split
    · rename_i hk
      subst hk
      refine List.map_congr_left fun token _ => ?_
      simp [maskAt, hnone]
    · rename_i hk
      refine List.map_congr_left fun token _ => ?_
      cases mask <;> simp [maskAt, Function.update_of_ne hk]

private theorem maskRow_move (mask : Option (Nat → TokenId → Bool)) (vocabSize src dst k : Nat) :
    maskRow (mask.map fun mask => Function.update mask dst (mask src)) vocabSize k =
      if k = dst then maskRow mask vocabSize src else maskRow mask vocabSize k := by
  cases mask with
  | none => exact (ite_self _).symm
  | some mask =>
    by_cases hk : k = dst
    · simp [maskRow, maskAt, hk]
    · simp [maskRow, maskAt, hk]

/-- Two rows that are equal stay equal under the assignment to each other. -/
theorem maskRow_swapMaskRows {mask : Option (Nat → TokenId → Bool)} {vocabSize i j : Nat}
    (h : ∀ token < vocabSize, maskAt mask i token = maskAt mask j token) (k : Nat) :
    maskRow (mask.map fun mask => InputBatch.swapMaskRows mask i j) vocabSize k =
      if k = j then maskRow mask vocabSize i else if k = i then maskRow mask vocabSize j
      else maskRow mask vocabSize k := by
  have hsame : maskRow mask vocabSize i = maskRow mask vocabSize j :=
    List.map_congr_left fun token htoken => h token (List.mem_range.mp htoken)
  cases mask with
  | none => split_ifs <;> rfl
  | some mask =>
    have hall : maskRow (some (InputBatch.swapMaskRows mask i j)) vocabSize k =
        if k = j then maskRow (some mask) vocabSize j else if k = i then
          maskRow (some mask) vocabSize j else maskRow (some mask) vocabSize k := by
      by_cases hkj : k = j
      · subst hkj
        simp [maskRow, maskAt, InputBatch.swapMaskRows]
      · by_cases hki : k = i
        · subst hki
          simp [maskRow, maskAt, InputBatch.swapMaskRows, hkj]
        · simp [maskRow, maskAt, InputBatch.swapMaskRows, hkj, hki]
    rw [Option.map_some, hall, hsame]

/-! ## Rows of the batch -/

/-- What a row holds for sampling. -/
structure ParamsRow (F : Type) where
  sampling : SamplingRow F
  generator : Option Nat
  badWordsTokenIds : List (List TokenId)
  allowedTokenIdsMask : List Bool
  deriving DecidableEq, Repr

/-- What a row holds. -/
structure BatchRow (F : Type) where
  tokens : TokenRow
  blocks : List (List Nat)
  loraId : Nat
  promptEmbeds : Option (List EmbedRow)
  outputTokenIds : Option (List TokenId)
  numAcceptedTokens : Nat
  needsTokenIds : Bool
  params : Option (ParamsRow F)
  deriving DecidableEq, Repr

/-- `num_prompt_tokens`. -/
def CachedRequestState.numPromptTokens (r : CachedRequestState F) : Nat :=
  match r.promptTokenIds, r.promptEmbeds with
  | some prompt, _ => prompt.length
  | none, some embeds => embeds.length
  | none, none => 0

/-- A request for pooling may need the ids of its tokens. -/
def CachedRequestState.needsTokenIds (r : CachedRequestState F) : Bool :=
  match r.samplingParams, r.poolingParams with
  | none, some params => params.requiresTokenIds
  | _, _ => false

/-- The row that a request asks for, of whose tokens so many were accepted. -/
def CachedRequestState.row [SinglePrecision F] (r : CachedRequestState F) (cfg : BatchConfig)
    (numAcceptedTokens : Nat) : BatchRow F where
  tokens := r.tokenRow r.numPromptTokens
  blocks := (cfg.blocksPerKvBlock.zip r.blockIds).map fun e => mapToKernelBlocks e.2 e.1
  loraId := (r.loraRequest.map (·.loraIntId)).getD 0
  promptEmbeds := r.promptEmbeds
  outputTokenIds := some r.outputTokenIds
  numAcceptedTokens
  needsTokenIds := r.needsTokenIds
  params :=
    if cfg.isPoolingModel then none
    else r.samplingParams.map fun params => {
      sampling := params.row cfg.vocabSize
      generator := r.generator
      badWordsTokenIds := params.badWordsTokenIds
      allowedTokenIdsMask := params.mask cfg.vocabSize }

/-- The length of the prompt, if it is right. -/
theorem eq_numPromptTokens {r : CachedRequestState F} {n : Nat}
    (h : lengthFromPromptTokenIdsOrEmbeds r.promptTokenIds r.promptEmbeds = .ok n) :
    n = r.numPromptTokens := by
  unfold lengthFromPromptTokenIdsOrEmbeds at h
  unfold CachedRequestState.numPromptTokens
  cases hprompt : r.promptTokenIds <;> cases hembeds : r.promptEmbeds <;>
    simp only [hprompt, hembeds, bind_ok_iff, pure_ok_iff] at h ⊢
  · cases h
  · cases h
    rfl
  · cases h
    rfl
  · obtain ⟨_, _, rfl⟩ := h
    rfl

namespace InputBatch

/-- What the batch holds at an index. -/
def rowAt (cfg : BatchConfig) (b : InputBatch F) (i : Nat) : BatchRow F where
  tokens := b.tokens.row i
  blocks := b.blockTables.map (·.row i)
  loraId := b.requestLoraMapping i
  promptEmbeds := b.reqPromptEmbeds.get? i
  outputTokenIds := b.reqOutputTokenIds[i]?.getD none
  numAcceptedTokens := b.numAcceptedTokensCpu i
  needsTokenIds := b.logitsProcessingNeedsTokenIds i
  params :=
    if cfg.isPoolingModel then none
    else some {
      sampling := b.sampling.row i
      generator := b.generators.get? i
      badWordsTokenIds := (b.badWordsTokenIds.get? i).getD []
      allowedTokenIdsMask := maskRow b.allowedTokenIdsMask cfg.vocabSize i }

variable {cfg : BatchConfig} {b b' : InputBatch F}

/-- The index that the next request gets. -/
def nextIndex (b : InputBatch F) : Nat := b.batchUpdateBuilder.popRemoved.1.getD b.numReqs

/-! ### What adding does -/

/-- What `add_request` does. -/
structure Added [SinglePrecision F] (cfg : BatchConfig) (b : InputBatch F) (r : CachedRequestState F)
    (b' : InputBatch F) : Prop where
  index_lt : b.nextIndex < cfg.maxNumReqs
  reqIds : b'.reqIds = placeAt b.reqIds b.nextIndex (some r.reqId)
  outputs : b'.reqOutputTokenIds =
    placeAt b.reqOutputTokenIds b.nextIndex (some r.outputTokenIds)
  index : b'.reqIdToIndex = b.reqIdToIndex.insert r.reqId b.nextIndex
  builder : b'.batchUpdateBuilder = { b.batchUpdateBuilder.popRemoved.2 with
    added := match r.samplingParams with
      | some params => b.batchUpdateBuilder.popRemoved.2.added ++
        [⟨b.nextIndex, params, r.promptTokenIds, r.outputTokenIds⟩]
      | none => b.batchUpdateBuilder.popRemoved.2.added
    batchChanged := true }
  accepted : b'.numAcceptedTokensCpu = Function.update b.numAcceptedTokensCpu b.nextIndex 1
  needs : b'.logitsProcessingNeedsTokenIds =
    if r.samplingParams.isSome then b.logitsProcessingNeedsTokenIds
    else Function.update b.logitsProcessingNeedsTokenIds b.nextIndex r.needsTokenIds
  sizes : b'.blockTables.map (·.blocksPerKvBlock) = b.blockTables.map (·.blocksPerKvBlock)
  generators : ∀ k, k ≠ b.nextIndex → b'.generators.get? k = b.generators.get? k
  badWords : ∀ k, k ≠ b.nextIndex → b'.badWordsTokenIds.get? k = b.badWordsTokenIds.get? k
  row : b.nextIndex ≤ b.reqOutputTokenIds.length →
    b.blockTables.map (·.blocksPerKvBlock) = cfg.blocksPerKvBlock →
    r.samplingParams.isSome = !cfg.isPoolingModel →
    (cfg.isPoolingModel = false →
      b.generators.get? b.nextIndex = none ∧ b.badWordsTokenIds.get? b.nextIndex = none) →
    (cfg.isPoolingModel = false → b.logitsProcessingNeedsTokenIds b.nextIndex = false) →
    (r.promptEmbeds = none → b.reqPromptEmbeds.get? b.nextIndex = none) →
    (∀ params, r.samplingParams = some params → params.allowedTokenIds = [] →
      ∀ token < cfg.vocabSize, maskAt b.allowedTokenIdsMask b.nextIndex token = false) →
    ∀ k, b'.rowAt cfg k = if k = b.nextIndex then r.row cfg 1 else b.rowAt cfg k

/-- What the part of `add_request` about the adapter does. -/
theorem addLora_eq (b : InputBatch F) (i : Nat) (r : CachedRequestState F) :
    ∃ reqIds requests, b.addLora i r = { b with
      requestLoraMapping := Function.update b.requestLoraMapping i
        ((r.loraRequest.map (·.loraIntId)).getD 0)
      loraIdToRequestIds := reqIds
      loraIdToLoraRequest := requests } := by
  unfold addLora
  cases r.loraRequest with
  | none => exact ⟨_, _, rfl⟩
  | some lora => exact ⟨_, _, rfl⟩

/-- What the part of `add_request` about the parameters does. -/
theorem addParams_eq [SinglePrecision F] {i : Nat} {r : CachedRequestState F}
    (h : b.addParams cfg i r = .ok b') : ∃ sampling generators mask badWords, b' = { b with
      sampling
      generators
      allowedTokenIdsMask := mask
      badWordsTokenIds := badWords
      logitsProcessingNeedsTokenIds :=
        if r.samplingParams.isSome then b.logitsProcessingNeedsTokenIds
        else Function.update b.logitsProcessingNeedsTokenIds i r.needsTokenIds } ∧
    (∀ k, k ≠ i → generators.get? k = b.generators.get? k) ∧
    (∀ k, k ≠ i → badWords.get? k = b.badWordsTokenIds.get? k) ∧
    ∀ params, r.samplingParams = some params →
      sampling = b.sampling.add i params cfg.vocabSize ∧
      mask = addAllowedTokenIds b.allowedTokenIdsMask i params.allowedTokenIds ∧
      (b.generators.get? i = none → generators.get? i = r.generator) ∧
      (b.badWordsTokenIds.get? i = none →
        (badWords.get? i).getD [] = params.badWordsTokenIds) := by
  unfold addParams at h
  cases hparams : r.samplingParams with
  | none =>
    simp only [hparams] at h
    cases hpooling : r.poolingParams with
    | none =>
      simp only [hpooling] at h
      cases h
    | some pooling =>
      simp only [hpooling] at h
      cases h
      refine ⟨b.sampling, b.generators, b.allowedTokenIdsMask, b.badWordsTokenIds, ?_,
        fun _ _ => rfl, fun _ _ => rfl, fun _ hp => (by cases hp)⟩
      simp [CachedRequestState.needsTokenIds, hparams, hpooling]
  | some params =>
    simp only [hparams, bind_ok_iff, pure_ok_iff] at h
    obtain ⟨_, -, rfl⟩ := h
    refine ⟨_, _, _, _, rfl, fun k hk => ?_, fun k hk => ?_, ?_⟩
    · cases r.generator <;> simp [hk]
    · split <;> simp [hk]
    · rintro params' hp
      cases hp
      refine ⟨rfl, rfl, fun hnone => ?_, fun hnone => ?_⟩
      · cases r.generator <;> simp [hnone]
      · split
        · rename_i hbad
          simp [hnone, hbad]
        · simp

/-- Only a request for pooling says whether it needs the ids of its tokens. -/
theorem needsTokenIds_apply {r : CachedRequestState F} {needs : Nat → Bool} {i : Nat}
    (hkind : r.samplingParams.isSome = !cfg.isPoolingModel)
    (hunused : cfg.isPoolingModel = false → needs i = false) (k : Nat) :
    (if r.samplingParams.isSome then needs else Function.update needs i r.needsTokenIds) k =
      if k = i then r.needsTokenIds else needs k := by
  cases hparams : r.samplingParams with
  | none => simp [Function.update_apply]
  | some params =>
    rw [hparams] at hkind
    have hnone := hunused (by simpa using hkind)
    simp only [Option.isSome_some, if_true, CachedRequestState.needsTokenIds, hparams]
    split_ifs with hk
    · rw [hk, hnone]
    · rfl

/-- `add_request` does that. -/
theorem added_of_addRequest [SinglePrecision F] {r : CachedRequestState F}
    (h : b.addRequest cfg r = .ok b') : Added cfg b r b' := by
  unfold addRequest registerAddRequest at h
  simp only [bind_ok_iff, pure_ok_iff, ensure_eq_ok, Prod.exists, Prod.mk.injEq] at h
  obtain ⟨i, b₁, ⟨_, hlt, rfl, rfl⟩, n, hn, tables, htables, b₂, hparams, rfl⟩ := h
  obtain rfl := eq_numPromptTokens hn
  obtain ⟨sampling, generators, mask, badWords, rfl, hgenerators, hbad, hrow⟩ :=
    addParams_eq hparams
  obtain ⟨reqIds, requests, hlora⟩ := addLora_eq _ b.nextIndex r
  have htables' : addRows b.nextIndex b.blockTables r.blockIds = .ok tables := htables
  refine hlora ▸ {
    index_lt := hlt
    reqIds := rfl
    outputs := rfl
    index := rfl
    builder := by rfl
    accepted := rfl
    needs := rfl
    sizes := (rows_addRows htables' 0).1
    generators := hgenerators
    badWords := hbad
    row := fun hle hsizes hkind hstale hunused hembeds hmask k => ?_ }
  have hblocks := (rows_addRows htables' k).2
  have htokens := b.tokens.row_add b.nextIndex r hn k
  have houtput := getElem?_placeAt hle (some r.outputTokenIds) k
  have hneeds := needsTokenIds_apply hkind hunused k
  by_cases hk : k = b.nextIndex
  · rw [if_pos hk] at hblocks htokens houtput hneeds ⊢
    rw [hsizes] at hblocks
    have hlora : Function.update b.requestLoraMapping b.nextIndex
        ((r.loraRequest.map (·.loraIntId)).getD 0) k =
          (r.loraRequest.map (·.loraIntId)).getD 0 := by
      rw [hk, Function.update_self]
    have hparams : (if cfg.isPoolingModel then none else some {
        sampling := sampling.row k
        generator := generators.get? k
        badWordsTokenIds := (badWords.get? k).getD []
        allowedTokenIdsMask := maskRow mask cfg.vocabSize k }) = (r.row cfg 1).params := by
      cases hpool : cfg.isPoolingModel with
      | true => simp [CachedRequestState.row, hpool]
      | false =>
        obtain ⟨params, hp⟩ := Option.isSome_iff_exists.mp (hkind.trans (by rw [hpool]; rfl))
        obtain ⟨rfl, rfl, hgenerator, hwords⟩ := hrow params hp
        have hmasked := maskRow_addAllowedTokenIds (hmask params hp) k
        rw [if_pos hk] at hmasked
        have hsampled := b.sampling.row_add b.nextIndex params cfg.vocabSize k
        rw [if_pos hk] at hsampled
        simp only [CachedRequestState.row, hpool, hp, Option.map_some, Bool.false_eq_true,
          if_false, Option.some.injEq, ParamsRow.mk.injEq]
        exact ⟨hsampled, hk ▸ hgenerator (hstale hpool).1, hk ▸ hwords (hstale hpool).2, hmasked⟩
    simp only [rowAt, CachedRequestState.row, BatchRow.mk.injEq]
    refine ⟨htokens, hblocks, hlora, ?_, congrArg (·.getD none) houtput,
      hk ▸ Function.update_self _ _ _, hneeds, hparams⟩
    cases he : r.promptEmbeds with
    | none => exact hk ▸ hembeds he
    | some embeds =>
      show (b.reqPromptEmbeds.insert b.nextIndex embeds).get? k = some embeds
      rw [Dict.get?_insert, if_pos hk]
  · rw [if_neg hk] at hblocks htokens houtput hneeds ⊢
    have hparams : (if cfg.isPoolingModel then none else some {
        sampling := sampling.row k
        generator := generators.get? k
        badWordsTokenIds := (badWords.get? k).getD []
        allowedTokenIdsMask := maskRow mask cfg.vocabSize k }) = (b.rowAt cfg k).params := by
      cases hpool : cfg.isPoolingModel with
      | true => simp [rowAt, hpool]
      | false =>
        obtain ⟨params, hp⟩ := Option.isSome_iff_exists.mp (hkind.trans (by rw [hpool]; rfl))
        obtain ⟨rfl, rfl, -, -⟩ := hrow params hp
        have hmasked := maskRow_addAllowedTokenIds (hmask params hp) k
        rw [if_neg hk] at hmasked
        have hsampled := b.sampling.row_add b.nextIndex params cfg.vocabSize k
        rw [if_neg hk] at hsampled
        simp only [rowAt, hpool, Bool.false_eq_true, if_false, Option.some.injEq,
          ParamsRow.mk.injEq]
        exact ⟨hsampled, hgenerators k hk, congrArg (·.getD []) (hbad k hk), hmasked⟩
    simp only [rowAt, BatchRow.mk.injEq]
    refine ⟨htokens, hblocks, Function.update_of_ne hk _ _, ?_,
      congrArg (·.getD none) houtput, Function.update_of_ne hk _ _, hneeds, hparams⟩
    cases r.promptEmbeds with
    | none => rfl
    | some embeds =>
      show (b.reqPromptEmbeds.insert b.nextIndex embeds).get? k = b.reqPromptEmbeds.get? k
      rw [Dict.get?_insert, if_neg hk]

/-- Draft tokens change neither the rows nor the requests at the indices. -/
theorem eq_of_updateReqSpecTokenIds (cfg : BatchConfig) {reqId : RequestId}
    {specTokenIds : List TokenId} (h : b.updateReqSpecTokenIds reqId specTokenIds = .ok b') :
    ∃ tokens lists, b' = { b with tokens, specTokenIds := lists } ∧
      ∀ k, b'.rowAt cfg k = b.rowAt cfg k := by
  unfold updateReqSpecTokenIds at h
  split at h
  · cases h
  · cases h
    refine ⟨_, _, rfl, fun k => ?_⟩
    simp only [rowAt, BatchRow.mk.injEq, and_true]
    split
    · rfl
    · exact b.tokens.row_addSpec _ _ k

/-! ### What removing does -/

/-- What `remove_request` does to a request of the batch. -/
structure Removed (cfg : BatchConfig) (b : InputBatch F) (reqId : RequestId) (i : Nat)
    (b' : InputBatch F) : Prop where
  unsorted : b.batchUpdateBuilder.isRemovedSorted = false
  builder : b'.batchUpdateBuilder = { b.batchUpdateBuilder with
    removedIndices := b.batchUpdateBuilder.removedIndices ++ [i]
    batchChanged := true }
  index : b'.reqIdToIndex = b.reqIdToIndex.erase reqId
  reqIds : b'.reqIds = b.reqIds.set i none
  outputs : b'.reqOutputTokenIds = b.reqOutputTokenIds.set i none
  accepted : b'.numAcceptedTokensCpu = b.numAcceptedTokensCpu
  needs : b'.logitsProcessingNeedsTokenIds = b.logitsProcessingNeedsTokenIds
  blockTables : b'.blockTables = b.blockTables
  dicts : cfg.isPoolingModel = false → b'.generators = b.generators.erase i ∧
    b'.badWordsTokenIds = b.badWordsTokenIds.erase i
  row : ∀ k, k ≠ i → b'.rowAt cfg k = b.rowAt cfg k

/-- What the part of `remove_request` about the adapter does. -/
private theorem removeLora_eq {reqId : RequestId} {i : Nat} (h : b.removeLora reqId i = .ok b') :
    ∃ mapping reqIds requests, b' = { b with
      requestLoraMapping := mapping
      loraIdToRequestIds := reqIds
      loraIdToLoraRequest := requests } ∧
    ∀ k, k ≠ i → mapping k = b.requestLoraMapping k := by
  unfold removeLora at h
  simp only at h
  split at h
  · cases h
    exact ⟨_, _, _, rfl, fun _ _ => rfl⟩
  · split at h
    · cases h
    · cases h
      exact ⟨_, _, _, rfl, fun k hk => Function.update_of_ne hk _ _⟩

/-- `remove_request` does that, or nothing. -/
theorem removed_of_removeRequest {reqId : RequestId} (h : b.removeRequest cfg reqId = .ok b') :
    (b.reqIdToIndex.get? reqId = none ∧ b' = b) ∨
      ∃ i, b.reqIdToIndex.get? reqId = some i ∧ Removed cfg b reqId i b' := by
  unfold removeRequest at h
  cases hindex : b.reqIdToIndex.get? reqId with
  | none =>
    simp only [hindex] at h
    cases h
    exact Or.inl ⟨rfl, rfl⟩
  | some i =>
    simp only [hindex, bind_ok_iff, pure_ok_iff, BatchUpdateBuilder.removedAppend,
      ensure_eq_ok] at h
    obtain ⟨_, ⟨_, hunsorted, rfl⟩, b₁, hlora, rfl⟩ := h
    obtain ⟨mapping, reqIds, requests, rfl, hmapping⟩ := removeLora_eq hlora
    refine Or.inr ⟨i, rfl, ?_⟩
    cases hpool : cfg.isPoolingModel with
    | true =>
      refine ⟨hunsorted, rfl, rfl, rfl, rfl, rfl, rfl, rfl, fun h => ?_, fun k hk => ?_⟩
      · exact absurd (hpool.symm.trans h) (by decide)
      · simp only [rowAt, hpool, if_true, hmapping k hk, List.getElem?_set_ne (Ne.symm hk)]
    | false =>
      refine ⟨hunsorted, rfl, rfl, rfl, rfl, rfl, rfl, rfl, fun _ => ⟨rfl, rfl⟩, fun k hk => ?_⟩
      have hmask : maskRow (b.allowedTokenIdsMask.map fun mask =>
          Function.update mask i fun _ => false) cfg.vocabSize k =
          maskRow b.allowedTokenIdsMask cfg.vocabSize k := by
        refine List.map_congr_left fun token _ => ?_
        cases b.allowedTokenIdsMask <;> simp [maskAt, hk]
      simp only [rowAt, hpool, Bool.false_eq_true, if_false, removeParams, hmapping k hk,
        List.getElem?_set_ne (Ne.symm hk), Dict.get?_erase, hk, hmask]

/-! ### What a swap does -/

/-- What `swap_states` does. -/
structure Swapped (cfg : BatchConfig) (b : InputBatch F) (i j : Nat) (b' : InputBatch F) :
    Prop where
  ids : ∃ idI idJ indexI indexJ, b.reqIds[i]? = some (some idI) ∧ b.reqIds[j]? = some (some idJ) ∧
    b.reqIdToIndex.get? idI = some indexI ∧ b.reqIdToIndex.get? idJ = some indexJ ∧
    b'.reqIdToIndex = (b.reqIdToIndex.insert idI indexJ).insert idJ indexI
  reqIds : b'.reqIds = swapAt b.reqIds i j
  outputs : b'.reqOutputTokenIds = swapAt b.reqOutputTokenIds i j
  builder : b'.batchUpdateBuilder = if cfg.isPoolingModel then b.batchUpdateBuilder else
    { b.batchUpdateBuilder with moved := b.batchUpdateBuilder.moved ++ [⟨i, j, .swap⟩] }
  accepted : cfg.isPoolingModel = true → b'.numAcceptedTokensCpu = b.numAcceptedTokensCpu
  needs : b'.logitsProcessingNeedsTokenIds = b.logitsProcessingNeedsTokenIds
  sizes : b'.blockTables.map (·.blocksPerKvBlock) = b.blockTables.map (·.blocksPerKvBlock)
  dicts : cfg.isPoolingModel = false → b'.generators = swapDictValues b.generators i j ∧
    b'.badWordsTokenIds = swapDictValues b.badWordsTokenIds i j
  row : b.reqOutputTokenIds.length = b.reqIds.length →
    (cfg.isPoolingModel = false → ∀ token < cfg.vocabSize,
      maskAt b.allowedTokenIdsMask i token = maskAt b.allowedTokenIdsMask j token) →
    (cfg.isPoolingModel = true → b.numAcceptedTokensCpu i = b.numAcceptedTokensCpu j) →
    b.logitsProcessingNeedsTokenIds i = b.logitsProcessingNeedsTokenIds j →
    ∀ k, b'.rowAt cfg k =
      if k = j then b.rowAt cfg i else if k = i then b.rowAt cfg j else b.rowAt cfg k

/-- `swap_states` does that. -/
theorem swapped_of_swapStates {i j : Nat} (h : b.swapStates cfg i j = .ok b') :
    Swapped cfg b i j b' := by
  unfold swapStates at h
  split at h
  · rename_i idI idJ hi hj
    split at h
    · rename_i indexI indexJ hindexI hindexJ
      cases h
      have hltI := (List.getElem?_eq_some_iff.mp hi).1
      have hltJ := (List.getElem?_eq_some_iff.mp hj).1
      have htokens := b.tokens.row_swap i j
      have hblocks (k : Nat) : (b.blockTables.map (·.swapRow i j)).map (·.row k) =
          if k = j then b.blockTables.map (·.row i) else if k = i then
            b.blockTables.map (·.row j) else b.blockTables.map (·.row k) := by
        simp only [List.map_map, Function.comp_def, BlockTable.row_swapRow]
        split_ifs <;> rfl
      have hlora := swapEntries_apply b.requestLoraMapping i j
      have hembeds := get?_swapDictValues b.reqPromptEmbeds i j
      have houtputs (hlength : b.reqOutputTokenIds.length = b.reqIds.length) :=
        getElem?_swapAt (hlength ▸ hltI) (hlength ▸ hltJ)
      have hsizes : (b.blockTables.map (·.swapRow i j)).map (·.blocksPerKvBlock) =
          b.blockTables.map (·.blocksPerKvBlock) := by
        rw [List.map_map]
        rfl
      cases hpool : cfg.isPoolingModel with
      | true =>
        refine ⟨⟨_, _, _, _, hi, hj, hindexI, hindexJ, rfl⟩, rfl, rfl, by rw [hpool]; rfl,
          fun _ => rfl, rfl, hsizes, fun h => ?_, fun hlength _ haccepted hneeds k => ?_⟩
        · exact absurd (hpool.symm.trans h) (by decide)
        · simp only [rowAt, hpool, if_true, htokens, hblocks, hlora, hembeds, houtputs hlength]
          split_ifs with hkj hki
          · rw [hkj, haccepted hpool, hneeds]
          · rw [hki, haccepted hpool, hneeds]
          · rfl
      | false =>
        refine ⟨⟨_, _, _, _, hi, hj, hindexI, hindexJ, rfl⟩, rfl, rfl, by rw [hpool]; rfl,
          fun h => ?_, rfl, hsizes, fun _ => ⟨rfl, rfl⟩, fun hlength hmask _ hneeds k => ?_⟩
        · exact absurd (hpool.symm.trans h) (by decide)
        have haccepted := swapEntries_apply b.numAcceptedTokensCpu i j
        have hmasked := maskRow_swapMaskRows (hmask hpool) k
        have hsampled := b.sampling.row_swap i j k
        simp only [rowAt, hpool, Bool.false_eq_true, if_false, swapParams, htokens, hblocks,
          hlora, hembeds, houtputs hlength, hmasked, hsampled, haccepted, get?_swapDictValues]
        split_ifs with hkj hki
        · rw [hkj, hneeds]
        · rw [hki, hneeds]
        · rfl
    · cases h
  · cases h
  · cases h

/-! ### What a move does -/

/-- What a round of the loop of `condense` does. -/
structure Moved (cfg : BatchConfig) (b : InputBatch F) (src dst : Nat) (b' : InputBatch F) :
    Prop where
  ids : ∃ reqId, b.reqIds[src]? = some (some reqId) ∧
    b'.reqIds = (b.reqIds.set dst (some reqId)).set src none ∧
    b'.reqIdToIndex = b.reqIdToIndex.insert reqId dst
  outputs : b'.reqOutputTokenIds =
    (b.reqOutputTokenIds.set dst (b.reqOutputTokenIds[src]?.getD none)).set src none
  builder : b'.batchUpdateBuilder = if cfg.isPoolingModel then b.batchUpdateBuilder.popRemoved.2
    else { b.batchUpdateBuilder.popRemoved.2 with
      moved := b.batchUpdateBuilder.popRemoved.2.moved ++ [⟨src, dst, .unidirectional⟩] }
  accepted : cfg.isPoolingModel = true → b'.numAcceptedTokensCpu = b.numAcceptedTokensCpu
  needs : b'.logitsProcessingNeedsTokenIds = b.logitsProcessingNeedsTokenIds
  sizes : b'.blockTables.map (·.blocksPerKvBlock) = b.blockTables.map (·.blocksPerKvBlock)
  dicts : cfg.isPoolingModel = false → b'.generators = moveDictValue b.generators src dst ∧
    b'.badWordsTokenIds = moveDictValue b.badWordsTokenIds src dst
  row : dst < b.reqOutputTokenIds.length →
    (cfg.isPoolingModel = false →
      b.generators.get? dst = none ∧ b.badWordsTokenIds.get? dst = none) →
    ((b.reqPromptEmbeds.get? src).isSome ∨ b.reqPromptEmbeds.get? dst = none) →
    (cfg.isPoolingModel = true → b.numAcceptedTokensCpu src = b.numAcceptedTokensCpu dst) →
    b.logitsProcessingNeedsTokenIds src = b.logitsProcessingNeedsTokenIds dst →
    ∀ k, k ≠ src → b'.rowAt cfg k = if k = dst then b.rowAt cfg src else b.rowAt cfg k

/-- The body of the loop does that. -/
theorem moved_of_moveRequest {src dst : Nat} (h : b.moveRequest cfg src dst = .ok b') :
    Moved cfg b src dst b' := by
  unfold moveRequest at h
  split at h
  · rename_i reqId hreqId
    cases h
    have htokens := b.tokens.row_move dst
      (Nat.le_add_right (b.tokens.numTokensNoSpec src) (b.specTokenIds[src]?.getD []).length)
    have hblocks (k : Nat) : (b.blockTables.map (·.moveRow src dst)).map (·.row k) =
        if k = dst then b.blockTables.map (·.row src) else b.blockTables.map (·.row k) := by
      simp only [List.map_map, Function.comp_def, BlockTable.row_moveRow]
      split_ifs <;> rfl
    have hlora (k : Nat) : Function.update b.requestLoraMapping dst (b.requestLoraMapping src) k =
        if k = dst then b.requestLoraMapping src else b.requestLoraMapping k := by
      rw [Function.update_apply]
    have houtputs (hdst : dst < b.reqOutputTokenIds.length) (k : Nat) (hk : k ≠ src) :
        ((b.reqOutputTokenIds.set dst (b.reqOutputTokenIds[src]?.getD none)).set src
          none)[k]?.getD none = if k = dst then b.reqOutputTokenIds[src]?.getD none
            else b.reqOutputTokenIds[k]?.getD none := by
      rw [List.getElem?_set_ne (Ne.symm hk)]
      by_cases hkd : k = dst
      · subst hkd
        simp [hdst]
      · rw [List.getElem?_set_ne (Ne.symm hkd), if_neg hkd]
    have hsizes : (b.blockTables.map (·.moveRow src dst)).map (·.blocksPerKvBlock) =
        b.blockTables.map (·.blocksPerKvBlock) := by
      rw [List.map_map]
      rfl
    cases hpool : cfg.isPoolingModel with
    | true =>
      refine ⟨⟨reqId, hreqId, rfl, rfl⟩, rfl, by rw [hpool]; rfl, fun _ => rfl, rfl, hsizes,
        fun h => ?_, fun hdst _ hembeds haccepted hneeds k hk => ?_⟩
      · exact absurd (hpool.symm.trans h) (by decide)
      · simp only [rowAt, hpool, if_true, htokens, hblocks, hlora, houtputs hdst k hk,
          get?_moveDictValue hembeds, if_neg hk]
        split_ifs with hkd
        · rw [hkd, haccepted hpool, hneeds]
        · rfl
    | false =>
      refine ⟨⟨reqId, hreqId, rfl, rfl⟩, rfl, by rw [hpool]; rfl, fun h => ?_, rfl, hsizes,
        fun _ => ⟨rfl, rfl⟩, fun hdst hstale hembeds _ hneeds k hk => ?_⟩
      · exact absurd (hpool.symm.trans h) (by decide)
      have haccepted : Function.update b.numAcceptedTokensCpu dst (b.numAcceptedTokensCpu src) k =
          if k = dst then b.numAcceptedTokensCpu src else b.numAcceptedTokensCpu k := by
        rw [Function.update_apply]
      have hmasked := maskRow_move b.allowedTokenIdsMask cfg.vocabSize src dst k
      have hsampled := b.sampling.row_move src dst k
      simp only [rowAt, hpool, Bool.false_eq_true, if_false, moveParams, htokens, hblocks, hlora,
        houtputs hdst k hk, get?_moveDictValue hembeds,
        get?_moveDictValue (Or.inr (hstale hpool).1), get?_moveDictValue (Or.inr (hstale hpool).2),
        hmasked, hsampled, haccepted, if_neg hk]
      split_ifs with hkd
      · rw [hkd, hneeds]
      · rfl
  · cases h

end InputBatch

end Vllm.Worker
