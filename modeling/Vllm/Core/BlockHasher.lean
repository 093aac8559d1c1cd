import Vllm.Core.Request
import Vllm.Library.HashChain

/-!
# Block hashing

The block hash of a full block chains the previous block's hash, the block's
tokens and the extra keys: LoRA name, identifiers of the multimodal items met by
the block, cache salt of the first block, digest of the block's prompt
embeddings. The hasher only hashes blocks not hashed yet and resumes its scan
over the multimodal items at the last one.
-/

namespace Vllm

open HashChain

/-- One component of a block's extra keys: a Python string or a digest. -/
inductive ExtraKey where
  | str (s : String)
  | bytes (d : List Nat)
  deriving DecidableEq, Repr

/-- The functions the hasher is parameterised by. -/
structure HashEnv (H : Type) where
  /-- The caching hash function, applied to parent, tokens and extra keys. -/
  hashFn : H × List TokenId × Option (List ExtraKey) → H
  /-- Parent of the first block. -/
  noneHash : H
  /-- SHA-256 digest of a slice of the prompt embeddings. -/
  embedsDigest : List EmbedRow → List Nat

/-- The hash function loses no information and never returns `NONE_HASH`. -/
structure HashEnv.CollisionFree {H : Type} (env : HashEnv H) : Prop where
  injective : Function.Injective env.hashFn
  ne_noneHash : ∀ x, env.hashFn x ≠ env.noneHash

variable {H : Type}

/-- The scan over the items from `currMmIdx` on, for the block `[start, stop)`. -/
def genMmLoop (start stop : Nat) : List MultiModalFeatureSpec → Nat → List ExtraKey × Nat
  | [], currMmIdx => ([], currMmIdx)
  | f :: fs, currMmIdx =>
    if f.mmPosition.offset < stop then
      if f.stop < start then
        -- this block has passed the current item
        genMmLoop start stop fs (currMmIdx + 1)
      else if f.stop ≤ stop then
        -- the item ends in this block, the next one may start in it
        let (keys, idx) := genMmLoop start stop fs (currMmIdx + 1)
        (.str f.identifier :: keys, idx)
      else
        ([.str f.identifier], currMmIdx)
    else
      ([], currMmIdx)

/-- `_gen_mm_extra_hash_keys`: the identifiers for a block and the next item index.
The only negative index in use is `-1`, the last item, for which the source's
bound assertion holds since the items are not empty. -/
def genMmExtraHashKeys (r : Request H) (startTokenIdx endTokenIdx : Nat) (startMmIdx : Int) :
    List ExtraKey × Int :=
  match r.mmFeatures.getLast? with
  | none => ([], startMmIdx)
  | some last =>
    if last.stop < startTokenIdx then ([], startMmIdx)
    else
      let idx := if startMmIdx < 0 then ((r.mmFeatures.length : Int) + startMmIdx).toNat
        else startMmIdx.toNat
      let (keys, idx') := genMmLoop startTokenIdx endTokenIdx (r.mmFeatures.drop idx) idx
      (keys, idx')

/-- `_gen_lora_extra_hash_keys`. -/
def genLoraExtraHashKeys (r : Request H) : List ExtraKey :=
  match r.loraRequest with
  | none => []
  | some lora => [.str lora.loraName]

/-- The salt enters the first block only, and only when it is truthy. -/
def cacheSaltKeys (r : Request H) (startTokenIdx : Nat) : List ExtraKey :=
  match r.cacheSalt with
  | none => []
  | some salt => if startTokenIdx = 0 ∧ salt ≠ "" then [.str salt] else []

/-- `_gen_prompt_embeds_extra_hash_keys`. The source also memoises the digest of a
block range, which is never invalidated because the embeddings never change. -/
def genPromptEmbedsExtraHashKeys (env : HashEnv H) (r : Request H)
    (startTokenIdx endTokenIdx : Nat) : List ExtraKey :=
  match r.promptEmbeds with
  | none => []
  | some rows => [.bytes (env.embedsDigest ((rows.take endTokenIdx).drop startTokenIdx))]

/-- `generate_block_hash_extra_keys`. -/
def generateBlockHashExtraKeys (env : HashEnv H) (r : Request H)
    (startTokenIdx endTokenIdx : Nat) (startMmIdx : Int) : Option (List ExtraKey) × Int :=
  let (mmExtraKeys, newStartMmIdx) := genMmExtraHashKeys r startTokenIdx endTokenIdx startMmIdx
  let extraKeys := genLoraExtraHashKeys r ++ mmExtraKeys ++ cacheSaltKeys r startTokenIdx ++
    genPromptEmbedsExtraHashKeys env r startTokenIdx endTokenIdx
  if extraKeys.isEmpty then (none, newStartMmIdx) else (some extraKeys, newStartMmIdx)

/-- `hash_block_tokens`; a digest is never an empty byte string, so the parent is
falsy only when there is none. -/
def hashBlockTokens (env : HashEnv H) (parentBlockHash : Option H) (tokens : List TokenId)
    (extraKeys : Option (List ExtraKey)) : H :=
  env.hashFn (parentBlockHash.getD env.noneHash, tokens, extraKeys)

/-- The hasher's loop. Each round hashes one full block, so with a positive block
size as many rounds as there are tokens are enough. -/
def hasherLoop (env : HashEnv H) (blockSize : Nat) (r : Request H) :
    Nat → Nat → Int → Option H → List H
  | 0, _, _, _ => []
  | rounds + 1, startTokenIdx, currMmIdx, prev =>
    let endTokenIdx := startTokenIdx + blockSize
    if r.numTokens < endTokenIdx then []
    else
      let (extraKeys, idx) :=
        generateBlockHashExtraKeys env r startTokenIdx endTokenIdx currMmIdx
      let blockTokens := (r.allTokenIds.take endTokenIdx).drop startTokenIdx
      let blockHash := hashBlockTokens env prev blockTokens extraKeys
      blockHash :: hasherLoop env blockSize r rounds endTokenIdx idx (some blockHash)

/-- `request_block_hasher`: the hashes of the blocks not hashed yet. -/
def requestBlockHasher (env : HashEnv H) (blockSize : Nat) (r : Request H) : List H :=
  let startTokenIdx := r.blockHashes.length * blockSize
  if r.numTokens < startTokenIdx + blockSize then []
  else
    -- a resumed scan starts at the last multimodal item
    let currMmIdx : Int := if 0 < startTokenIdx then -1 else 0
    hasherLoop env blockSize r r.numTokens startTokenIdx currMmIdx r.blockHashes.getLast?

/-- `Request.update_block_hashes`. -/
def Request.updateBlockHashes (env : HashEnv H) (blockSize : Nat) (r : Request H) : Request H :=
  { r with blockHashes := r.blockHashes ++ requestBlockHasher env blockSize r }

/-- `Request.__init__` on the record of its arguments, as far as tokens and hashes go. -/
def Request.init (env : HashEnv H) (blockSize : Nat) (r : Request H) : Request H :=
  let tokens := initialTokenIds r.promptTokenIds r.promptEmbeds
  Request.updateBlockHashes env blockSize
    { r with
      status := if r.useStructuredOutput && !r.pooling then .waitingForFsm else .waiting
      maxTokens := if r.pooling then 1 else r.maxTokens
      numPromptTokens := tokens.length
      outputTokenIds := []
      allTokenIds := tokens
      numOutputPlaceholders := 0
      discardLatestAsyncTokens := false
      specTokenIds := []
      numComputedTokens := 0
      isPrefillChunk := false
      numPreemptions := 0
      numCachedTokens := -1
      blockHashes := []
      streamingQueue := none }

/-- `Request.append_output_token_ids`. -/
def Request.appendOutputTokenIds (env : HashEnv H) (blockSize : Nat) (r : Request H)
    (tokenIds : List TokenId) : Request H :=
  Request.updateBlockHashes env blockSize
    { r with
      outputTokenIds := r.outputTokenIds ++ tokenIds
      allTokenIds := r.allTokenIds ++ tokenIds }

/-- The block hashes computed from an empty list over the same tokens and items. -/
def scratchHashes (env : HashEnv H) (blockSize : Nat) (r : Request H) : List H :=
  requestBlockHasher env blockSize { r with blockHashes := [] }

/-! ## The hashes as a chain -/

/-- One block's contribution to the chain: its tokens and its extra keys. -/
abbrev BlockInput := List TokenId × Option (List ExtraKey)

/-- One link of the chain. -/
def HashEnv.step (env : HashEnv H) (parent : H) (input : BlockInput) : H :=
  env.hashFn (parent, input.1, input.2)

theorem HashEnv.CollisionFree.separating {env : HashEnv H} (he : env.CollisionFree) :
    Separating env.step env.noneHash where
  injective h := by
    have hi := he.injective h
    simp only [Prod.mk.injEq] at hi
    exact ⟨hi.1, Prod.ext hi.2.1 hi.2.2⟩
  ne_seed h a := he.ne_noneHash _

/-- The tokens of block `j`. -/
def blockTokens (blockSize : Nat) (r : Request H) (j : Nat) : List TokenId :=
  (r.allTokenIds.take (j * blockSize + blockSize)).drop (j * blockSize)

variable {r r' : Request H}

/-- A block inside a shared prefix of tokens is the same block. -/
theorem blockTokens_congr {blockSize n : Nat}
    (htok : r.allTokenIds.take (n * blockSize) = r'.allTokenIds.take (n * blockSize)) {j : Nat}
    (hj : j < n) : blockTokens blockSize r j = blockTokens blockSize r' j := by
  have hle : j * blockSize + blockSize ≤ n * blockSize := by
    rw [← Nat.succ_mul]
    exact Nat.mul_le_mul_right _ hj
  have ht := congrArg (List.take (j * blockSize + blockSize)) htok
  rw [List.take_take, List.take_take, Nat.min_eq_left hle] at ht
  simp only [blockTokens, ht]

/-- Equal blocks of tokens are equal prefixes of the token lists. -/
theorem blockTokens_eq_iff (blockSize : Nat) (r r' : Request H) (n : Nat) :
    (∀ j, j < n → blockTokens blockSize r j = blockTokens blockSize r' j) ↔
      r.allTokenIds.take (n * blockSize) = r'.allTokenIds.take (n * blockSize) := by
  induction n with
  | zero => simp
  | succ n ih =>
    have hsplit (l : List TokenId) : l.take ((n + 1) * blockSize) =
        l.take (n * blockSize) ++ (l.take (n * blockSize + blockSize)).drop (n * blockSize) := by
      rw [Nat.succ_mul]
      conv_lhs => rw [← List.take_append_drop (n * blockSize) (l.take (n * blockSize + blockSize))]
      rw [List.take_take, Nat.min_eq_left (by omega)]
    constructor
    · intro h
      have hn := ih.mp fun j hj => h j (by omega)
      have hlast := h n (by omega)
      simp only [blockTokens] at hlast
      rw [hsplit r.allTokenIds, hsplit r'.allTokenIds, hn, hlast]
    · exact fun h j hj => blockTokens_congr h hj

/-- The inputs of `n` consecutive blocks from block `j` on, scanning from item `idx`. -/
def blockInputs (env : HashEnv H) (blockSize : Nat) (r : Request H) :
    Nat → Nat → Int → List BlockInput
  | 0, _, _ => []
  | n + 1, j, idx =>
    let keys := generateBlockHashExtraKeys env r (j * blockSize) (j * blockSize + blockSize) idx
    (blockTokens blockSize r j, keys.1) :: blockInputs env blockSize r n (j + 1) keys.2

@[simp] theorem length_blockInputs (env : HashEnv H) (blockSize : Nat) (r : Request H)
    (n j : Nat) (idx : Int) : (blockInputs env blockSize r n j idx).length = n := by
  induction n generalizing j idx with
  | zero => rfl
  | succ n ih => simp [blockInputs, ih]

/-- With enough rounds the loop hashes every full block that is left, in a chain. -/
theorem hasherLoop_eq_chain (env : HashEnv H) {blockSize : Nat} (r : Request H) (rounds n : Nat)
    (j : Nat) (idx : Int) (prev : Option H) (hn : n ≤ rounds)
    (hfull : (j + n) * blockSize ≤ r.numTokens)
    (hlast : r.numTokens < (j + n) * blockSize + blockSize) :
    hasherLoop env blockSize r rounds (j * blockSize) idx prev =
      chain env.step (prev.getD env.noneHash) (blockInputs env blockSize r n j idx) := by
  induction n generalizing rounds j idx prev with
  | zero =>
    cases rounds with
    | zero => rfl
    | succ rounds =>
      have hstop : r.numTokens < j * blockSize + blockSize := by simpa using hlast
      simp [hasherLoop, blockInputs, hstop]
  | succ n ih =>
    cases rounds with
    | zero => omega
    | succ rounds =>
      have hgo : ¬ r.numTokens < j * blockSize + blockSize := by
        have : (j + 1) * blockSize ≤ (j + (n + 1)) * blockSize :=
          Nat.mul_le_mul_right _ (by omega)
        rw [Nat.succ_mul] at this
        omega
      have hnext := ih rounds (j + 1)
        (generateBlockHashExtraKeys env r (j * blockSize) (j * blockSize + blockSize) idx).2
        (some (env.step (prev.getD env.noneHash) (blockTokens blockSize r j,
          (generateBlockHashExtraKeys env r (j * blockSize) (j * blockSize + blockSize) idx).1)))
        (by omega) (by rwa [Nat.add_right_comm]) (by rwa [Nat.add_right_comm])
      rw [Nat.succ_mul] at hnext
      simp only [hasherLoop, hgo, ite_false, blockInputs, chain]
      exact congrArg _ hnext

/-- The hasher chains on from the last known hash over the blocks not hashed yet. -/
theorem requestBlockHasher_eq_chain (env : HashEnv H) {blockSize : Nat} (hb : 0 < blockSize)
    (r : Request H) :
    requestBlockHasher env blockSize r =
      chain env.step (r.blockHashes.getLast?.getD env.noneHash)
        (blockInputs env blockSize r (r.numTokens / blockSize - r.blockHashes.length)
          r.blockHashes.length (if 0 < r.blockHashes.length then -1 else 0)) := by
  have hdiv := Nat.div_add_mod r.numTokens blockSize
  have hmod := Nat.mod_lt r.numTokens hb
  rw [Nat.mul_comm] at hdiv
  have hstart : (0 < r.blockHashes.length * blockSize) = (0 < r.blockHashes.length) := by
    simp [hb]
  simp only [requestBlockHasher, hstart]
  by_cases hs : r.numTokens < r.blockHashes.length * blockSize + blockSize
  · have hle : r.numTokens / blockSize ≤ r.blockHashes.length := by
      rw [← Nat.lt_succ_iff, Nat.div_lt_iff_lt_mul hb, Nat.succ_mul]
      exact hs
    simp [hs, Nat.sub_eq_zero_of_le hle, blockInputs]
  · have hlt : r.blockHashes.length < r.numTokens / blockSize := by
      rw [← Nat.succ_le_iff, Nat.le_div_iff_mul_le hb, Nat.succ_mul]
      omega
    obtain ⟨n, hn⟩ := Nat.exists_eq_add_of_le (Nat.le_of_lt hlt)
    have hself := Nat.div_le_self r.numTokens blockSize
    rw [if_neg hs, hn, Nat.add_sub_cancel_left]
    rw [hn] at hdiv hself
    exact hasherLoop_eq_chain env r _ _ _ _ _ (by omega) (by omega) (by omega)

/-- The item index a scan from scratch has reached before block `j`. -/
def mmIdx (blockSize : Nat) (r : Request H) : Nat → Int
  | 0 => 0
  | j + 1 => (genMmExtraHashKeys r (j * blockSize) (j * blockSize + blockSize)
      (mmIdx blockSize r j)).2

/-- The item identifiers a scan from scratch puts into block `j`. -/
def mmKeys (blockSize : Nat) (r : Request H) (j : Nat) : List ExtraKey :=
  (genMmExtraHashKeys r (j * blockSize) (j * blockSize + blockSize) (mmIdx blockSize r j)).1

/-- The flat list of extra keys of block `j`, hashed from scratch. -/
def flatKeys (env : HashEnv H) (blockSize : Nat) (r : Request H) (j : Nat) : List ExtraKey :=
  genLoraExtraHashKeys r ++ mmKeys blockSize r j ++ cacheSaltKeys r (j * blockSize) ++
    genPromptEmbedsExtraHashKeys env r (j * blockSize) (j * blockSize + blockSize)

/-- The hashed form of a flat key list: the empty one is passed as `None`. -/
def packKeys (keys : List ExtraKey) : Option (List ExtraKey) :=
  if keys.isEmpty then none else some keys

theorem packKeys_injective : Function.Injective packKeys := by
  intro keys keys' h
  cases keys <;> cases keys' <;> simp_all [packKeys]

theorem generateBlockHashExtraKeys_eq (env : HashEnv H) (r : Request H) (start stop : Nat)
    (idx : Int) :
    generateBlockHashExtraKeys env r start stop idx =
      (packKeys (genLoraExtraHashKeys r ++ (genMmExtraHashKeys r start stop idx).1 ++
        cacheSaltKeys r start ++ genPromptEmbedsExtraHashKeys env r start stop),
        (genMmExtraHashKeys r start stop idx).2) := by
  simp only [generateBlockHashExtraKeys, packKeys]
  split <;> rfl

/-- The inputs of the first `n` blocks of a request hashed from scratch. -/
def scratchInputs (env : HashEnv H) (blockSize : Nat) (r : Request H) (n : Nat) :
    List BlockInput :=
  (List.range n).map fun j => (blockTokens blockSize r j, packKeys (flatKeys env blockSize r j))

@[simp] theorem length_scratchInputs (env : HashEnv H) (blockSize : Nat) (r : Request H)
    (n : Nat) : (scratchInputs env blockSize r n).length = n := by
  simp [scratchInputs]

theorem getElem?_scratchInputs (env : HashEnv H) (blockSize : Nat) (r : Request H) {n j : Nat}
    (hj : j < n) : (scratchInputs env blockSize r n)[j]? =
      some (blockTokens blockSize r j, packKeys (flatKeys env blockSize r j)) := by
  simp [scratchInputs, hj]

theorem take_scratchInputs (env : HashEnv H) (blockSize : Nat) (r : Request H) {m n : Nat}
    (h : m ≤ n) : (scratchInputs env blockSize r n).take m = scratchInputs env blockSize r m := by
  simp only [scratchInputs, ← List.map_take, List.take_range, Nat.min_eq_left h]

/-- A scan that stands at the index reached from scratch stays on that track. -/
theorem blockInputs_mmIdx (env : HashEnv H) (blockSize : Nat) (r : Request H) (n j : Nat) :
    blockInputs env blockSize r n j (mmIdx blockSize r j) =
      (scratchInputs env blockSize r (j + n)).drop j := by
  induction n generalizing j with
  | zero => simp [blockInputs, scratchInputs]
  | succ n ih =>
    have hlt : j < (scratchInputs env blockSize r (j + (n + 1))).length := by simp
    rw [List.drop_eq_getElem_cons hlt]
    have hj := getElem?_scratchInputs env blockSize r (n := j + (n + 1)) (j := j) (by omega)
    rw [List.getElem?_eq_getElem hlt, Option.some.injEq] at hj
    have hstep := ih (j + 1)
    rw [Nat.add_right_comm j 1 n] at hstep
    rw [hj, show j + (n + 1) = j + n + 1 from rfl, ← hstep, blockInputs,
      generateBlockHashExtraKeys_eq]
    rfl

/-- The parts of two requests that extra keys are made of agree. -/
structure SameExtras (r r' : Request H) : Prop where
  mmFeatures : r.mmFeatures = r'.mmFeatures
  loraRequest : r.loraRequest = r'.loraRequest
  cacheSalt : r.cacheSalt = r'.cacheSalt
  promptEmbeds : r.promptEmbeds = r'.promptEmbeds

theorem SameExtras.genMm (h : SameExtras r r') (start stop : Nat) (idx : Int) :
    genMmExtraHashKeys r start stop idx = genMmExtraHashKeys r' start stop idx := by
  simp only [genMmExtraHashKeys, h.mmFeatures]

theorem SameExtras.mmIdx (h : SameExtras r r') (blockSize j : Nat) :
    mmIdx blockSize r j = mmIdx blockSize r' j := by
  induction j with
  | zero => rfl
  | succ j ih => simp only [Vllm.mmIdx, ih, h.genMm]

theorem SameExtras.mmKeys (h : SameExtras r r') (blockSize j : Nat) :
    mmKeys blockSize r j = mmKeys blockSize r' j := by
  simp only [Vllm.mmKeys, h.mmIdx, h.genMm]

theorem SameExtras.flatKeys (h : SameExtras r r') (env : HashEnv H) (blockSize j : Nat) :
    flatKeys env blockSize r j = flatKeys env blockSize r' j := by
  simp only [Vllm.flatKeys, h.mmKeys, genLoraExtraHashKeys, h.loraRequest, cacheSaltKeys,
    h.cacheSalt, genPromptEmbedsExtraHashKeys, h.promptEmbeds]

/-- Blocks whose tokens two requests share contribute the same inputs. -/
theorem SameExtras.scratchInputs (h : SameExtras r r') (env : HashEnv H) {blockSize n : Nat}
    (htok : r.allTokenIds.take (n * blockSize) = r'.allTokenIds.take (n * blockSize)) :
    scratchInputs env blockSize r n = scratchInputs env blockSize r' n := by
  apply List.map_congr_left
  intro j hj
  rw [blockTokens_congr htok (List.mem_range.mp hj), h.flatKeys env blockSize j]

theorem scratchHashes_eq_chain (env : HashEnv H) {blockSize : Nat} (hb : 0 < blockSize)
    (r : Request H) :
    scratchHashes env blockSize r =
      chain env.step env.noneHash (scratchInputs env blockSize r (r.numTokens / blockSize)) := by
  rw [scratchHashes, requestBlockHasher_eq_chain env hb]
  have hsame : SameExtras { r with blockHashes := [] } r := ⟨rfl, rfl, rfl, rfl⟩
  have h := blockInputs_mmIdx env blockSize { r with blockHashes := [] }
    (r.numTokens / blockSize) 0
  rw [List.drop_zero, Nat.zero_add, hsame.scratchInputs env rfl] at h
  exact congrArg (chain env.step env.noneHash) h

/-- Once the last item has ended before a block, no scan puts an item into it. -/
private theorem genMmExtraHashKeys_of_past {r : Request H} {start : Nat}
    (h : ∀ last, r.mmFeatures.getLast? = some last → last.stop < start) (stop : Nat) (idx : Int) :
    genMmExtraHashKeys r start stop idx = ([], idx) := by
  unfold genMmExtraHashKeys
  cases hl : r.mmFeatures.getLast? with
  | none => rfl
  | some last => simp [h last hl]

/-- Past the prompt no scan finds an item, so all scans give the keys from scratch. -/
theorem flatKeys_of_past {env : HashEnv H} {blockSize : Nat} {r : Request H} {j : Nat}
    (h : ∀ f ∈ r.mmFeatures, f.stop < j * blockSize) (idx : Int) :
    (generateBlockHashExtraKeys env r (j * blockSize) (j * blockSize + blockSize) idx).1 =
      packKeys (flatKeys env blockSize r j) := by
  have hpast : ∀ last, r.mmFeatures.getLast? = some last → last.stop < j * blockSize :=
    fun last hl => h last (List.mem_of_getLast? hl)
  simp only [generateBlockHashExtraKeys_eq, flatKeys, mmKeys, genMmExtraHashKeys_of_past hpast]

/-- Past the prompt every scan contributes the inputs from scratch. -/
theorem blockInputs_of_past (env : HashEnv H) (blockSize : Nat) (r : Request H) {j : Nat}
    (h : ∀ f ∈ r.mmFeatures, f.stop < j * blockSize) (n : Nat) (idx : Int) :
    blockInputs env blockSize r n j idx =
      (List.range' j n).map fun i =>
        (blockTokens blockSize r i, packKeys (flatKeys env blockSize r i)) := by
  induction n generalizing j idx with
  | zero => rfl
  | succ n ih =>
    have hnext : ∀ f ∈ r.mmFeatures, f.stop < (j + 1) * blockSize := fun f hf =>
      lt_of_lt_of_le (h f hf) (Nat.mul_le_mul_right _ (by omega))
    rw [blockInputs, List.range'_succ, List.map_cons, flatKeys_of_past h, ih hnext]

/-! ## Hashed requests -/

/-- The block hashes of a request form a chain. -/
def Request.Hashed (env : HashEnv H) (r : Request H) : Prop :=
  ∃ inputs, r.blockHashes = chain env.step env.noneHash inputs

/-- The hasher continues a chain, whatever the tokens. -/
theorem Request.Hashed.updateBlockHashes {env : HashEnv H} {blockSize : Nat} (hb : 0 < blockSize)
    {r : Request H} (h : r.Hashed env) : (r.updateBlockHashes env blockSize).Hashed env := by
  obtain ⟨inputs, hr⟩ := h
  have hnext := requestBlockHasher_eq_chain env hb r
  generalize blockInputs env blockSize r _ _ _ = next at hnext
  rw [hr, getLast?_chain_getD] at hnext
  refine ⟨inputs ++ next, ?_⟩
  rw [chain_append, ← hnext, ← hr]
  rfl

/-- Every new request is hashed. -/
theorem Request.hashed_init (env : HashEnv H) {blockSize : Nat} (hb : 0 < blockSize)
    (r : Request H) : (Request.init env blockSize r).Hashed env :=
  Request.Hashed.updateBlockHashes hb ⟨[], rfl⟩

/-! ## A free hash function -/

/-- Digests that keep their whole input. -/
inductive FreeDigest where
  | none
  | block (parent : FreeDigest) (tokens : List TokenId) (extraKeys : Option (List ExtraKey))
  deriving DecidableEq, Repr

/-- Hashing into the digests that keep their input. -/
def freeEnv : HashEnv FreeDigest where
  hashFn x := .block x.1 x.2.1 x.2.2
  noneHash := .none
  embedsDigest rows := rows.flatten

theorem freeEnv_collisionFree : freeEnv.CollisionFree where
  injective := by
    rintro ⟨p, ts, ks⟩ ⟨p', ts', ks'⟩ h
    simpa [freeEnv] using h
  ne_noneHash x := FreeDigest.noConfusion

end Vllm
