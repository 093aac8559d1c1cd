import Mathlib.Algebra.Ring.Int.Defs
import Vllm.Core.SingleTypeManager

/-!
# The KV cache manager

The manager owns the block pool and one group manager for each KV cache group, and
passes every request through the groups in order. Which coordinator looks up prefix
hits depends on the configuration: none without prefix caching, one group by
itself, or a fixed point over the distinct specs of several groups.
-/

namespace Vllm

open Checked

/-- What a manager is built from. -/
structure KVCacheConfig where
  kvCacheGroups : List KVCacheSpec
  numBlocks : Nat
  hashBlockSize : Nat
  maxModelLen : Nat
  enableCaching : Bool := true
  useEagle : Bool := false

/-- Full attention, MLA included. -/
def KVCacheSpec.isFullAttention (spec : KVCacheSpec) : Bool := spec.kind = .fullAttention

/-- Add a group to the attention group with its spec, or as a new one. -/
def addToAttentionGroups (spec : KVCacheSpec) (groupId : Nat) :
    List (KVCacheSpec × List Nat) → List (KVCacheSpec × List Nat)
  | [] => [(spec, [groupId])]
  | (existing, groupIds) :: groups =>
    if existing = spec then (existing, groupIds ++ [groupId]) :: groups
    else (existing, groupIds) :: addToAttentionGroups spec groupId groups

namespace KVCacheConfig

/-- The groups by spec, full attention first. -/
def attentionGroups (c : KVCacheConfig) : List (KVCacheSpec × List Nat) :=
  let groups :=
    c.kvCacheGroups.zipIdx.foldl (fun groups g => addToAttentionGroups g.1 g.2 groups) []
  groups.filter (·.1.isFullAttention) ++ groups.filter (!·.1.isFullAttention)

/-- The cache hit length is a multiple of this. -/
def lcmBlockSize (c : KVCacheConfig) : Nat :=
  c.attentionGroups.foldl (fun n g => n.lcm g.1.blockSize) 1

/-- One full-attention spec and one other: a single pass is enough. -/
def isSimpleHybrid (c : KVCacheConfig) : Bool :=
  c.attentionGroups.length = 2 ∧ (c.attentionGroups.head?.any (·.1.isFullAttention))

end KVCacheConfig

/-- The manager of all groups. -/
structure KVCacheManager (H : Type) where
  config : KVCacheConfig
  blockPool : BlockPool H
  singleTypeManagers : List (SingleTypeKVCacheManager H)

variable {H : Type} [DecidableEq H]

namespace KVCacheManager

/-- The constructor, with the checks of the coordinator that fits the configuration. -/
def init (c : KVCacheConfig) : Except KVCacheError (KVCacheManager H) := do
  let blockPool ← BlockPool.init c.numBlocks c.enableCaching c.hashBlockSize
  let singleTypeManagers := c.kvCacheGroups.zipIdx.map fun g =>
    { kvCacheSpec := g.1, kvCacheGroupId := g.2 }
  if c.enableCaching then
    match c.kvCacheGroups with
    | [spec] => ensure (c.hashBlockSize = spec.blockSize) .invalidConfig
    | _ =>
      ensure (∀ spec ∈ c.kvCacheGroups, spec.blockSize % c.hashBlockSize = 0) .invalidConfig
      ensure (1 < c.attentionGroups.length) .invalidConfig
  pure { config := c, blockPool, singleTypeManagers }

/-! ## Prefix hits -/

/-- One pass of the hybrid lookup: every spec accepts the candidate length or lowers it. -/
def hybridPass (kv : KVCacheManager H) (blockHashes : List H) :
    List (KVCacheSpec × List Nat) → Nat → (Nat → Option (List BlockId)) →
    Except KVCacheError (Nat × (Nat → Option (List BlockId)))
  | [], currHitLength, hits => .ok (currHitLength, hits)
  | (spec, groupIds) :: groups, currHitLength, hits =>
    if spec.isFullAttention && (groupIds.head?.bind hits).isSome then
      -- full attention keeps the first blocks of its earlier hit
      kv.hybridPass blockHashes groups (currHitLength / spec.blockSize * spec.blockSize) hits
    else do
      let hitBlocks ← findLongestCacheHit spec kv.blockPool blockHashes currHitLength groupIds
        kv.config.useEagle kv.config.lcmBlockSize
      let hits := (groupIds.zip hitBlocks).foldl (fun hits g => Function.update hits g.1 g.2) hits
      kv.hybridPass blockHashes groups ((hitBlocks.headD []).length * spec.blockSize) hits

/-- The passes of the hybrid lookup, until the length is stable. Every pass but the last
lowers it, so one more pass than the length is enough. -/
def hybridLoop (kv : KVCacheManager H) (blockHashes : List H) :
    Nat → Nat → (Nat → Option (List BlockId)) →
    Except KVCacheError (Nat × (Nat → Option (List BlockId)))
  | 0, hitLength, hits => .ok (hitLength, hits)
  | fuel + 1, hitLength, hits => do
    let (currHitLength, hits) ←
      kv.hybridPass blockHashes kv.config.attentionGroups hitLength hits
    if hitLength ≤ currHitLength then pure (hitLength, hits)
    else if kv.config.isSimpleHybrid then pure (currHitLength, hits)
    else kv.hybridLoop blockHashes fuel currHitLength hits

/-- `HybridKVCacheCoordinator.find_longest_cache_hit`. -/
def findHybridHit (kv : KVCacheManager H) (blockHashes : List H) (maxCacheHitLength : Nat) :
    Except KVCacheError (List (List BlockId) × Nat) := do
  let (hitLength, hits) ←
    kv.hybridLoop blockHashes (maxCacheHitLength + 1) maxCacheHitLength fun _ => none
  -- truncate the blocks of the first full-attention spec to the final length
  let hits := match kv.config.attentionGroups.head? with
    | some (spec, groupIds) =>
      if spec.isFullAttention then fun groupId =>
        if groupId ∈ groupIds then (hits groupId).map (List.take (hitLength / spec.blockSize))
        else hits groupId
      else hits
    | none => hits
  pure ((List.range kv.config.kvCacheGroups.length).map fun groupId => (hits groupId).getD [],
    hitLength)

/-- `get_computed_blocks`: the hit blocks of every group and the number of hit tokens.
The last token is always recomputed; a request has at least one token. -/
def getComputedBlocks (kv : KVCacheManager H) (request : Request H) :
    Except KVCacheError (List (List BlockId) × Nat) :=
  let noBlocks := kv.config.kvCacheGroups.map fun _ => []
  if !kv.config.enableCaching || request.skipReadingPrefixCache then .ok (noBlocks, 0)
  else match kv.config.kvCacheGroups with
    | [spec] => do
      let hitBlocks ← findLongestCacheHit spec kv.blockPool request.blockHashes
        (request.numTokens - 1) [0] kv.config.useEagle spec.blockSize
      pure (hitBlocks, (hitBlocks.headD []).length * spec.blockSize)
    | _ => kv.findHybridHit request.blockHashes (request.numTokens - 1)

/-! ## Allocation -/

/-- The pass of the coordinator over its managers. -/
def forManagers (kv : KVCacheManager H)
    (f : BlockPool H → SingleTypeKVCacheManager H →
      Except KVCacheError (BlockPool H × SingleTypeKVCacheManager H)) :
    Except KVCacheError (KVCacheManager H) := do
  let (blockPool, singleTypeManagers) ← mapAccum f kv.blockPool kv.singleTypeManagers
  pure { kv with blockPool, singleTypeManagers }

/-- `KVCacheCoordinator.get_num_blocks_to_allocate`. -/
def getNumBlocksToAllocate (kv : KVCacheManager H) (requestId : RequestId) (numTokens : Int)
    (newComputedBlocks : List (List BlockId)) (numEncoderTokens totalComputedTokens
      numTokensMainModel : Int) : Except KVCacheError Int := do
  let counts ← kv.singleTypeManagers.mapM fun m =>
    if m.isCrossAttention then
      -- one static allocation for the encoder tokens
      m.getNumBlocksToAllocate kv.blockPool requestId numEncoderTokens [] 0 numEncoderTokens
    else
      m.getNumBlocksToAllocate kv.blockPool requestId numTokens
        (newComputedBlocks.getD m.kvCacheGroupId []) totalComputedTokens numTokensMainModel
  pure counts.sum

/-- `KVCacheCoordinator.remove_skipped_blocks`. -/
def removeSkippedBlocks (kv : KVCacheManager H) (requestId : RequestId)
    (totalComputedTokens : Int) : Except KVCacheError (KVCacheManager H) :=
  kv.forManagers fun p m => m.removeSkippedBlocks p requestId totalComputedTokens

/-- `KVCacheCoordinator.allocate_new_computed_blocks`. -/
def allocateNewComputedBlocks (kv : KVCacheManager H) (requestId : RequestId)
    (newComputedBlocks : List (List BlockId))
    (numLocalComputedTokens numExternalComputedTokens : Int) :
    Except KVCacheError (KVCacheManager H) :=
  kv.forManagers fun p m => m.allocateNewComputedBlocks p requestId
    (newComputedBlocks.getD m.kvCacheGroupId []) numLocalComputedTokens numExternalComputedTokens

/-- `KVCacheCoordinator.allocate_new_blocks`. -/
def allocateNewBlocks (kv : KVCacheManager H) (requestId : RequestId)
    (numTokens numTokensMainModel numEncoderTokens : Int) :
    Except KVCacheError (KVCacheManager H × List (List BlockId)) := do
  let (blockPool, results) ← mapAccum (fun p (m : SingleTypeKVCacheManager H) =>
    m.allocateNewBlocks p requestId (if m.isCrossAttention then numEncoderTokens else numTokens)
      numTokensMainModel) kv.blockPool kv.singleTypeManagers
  pure ({ kv with blockPool, singleTypeManagers := results.map Prod.fst }, results.map Prod.snd)

/-- `cache_blocks`. -/
def cacheBlocks (kv : KVCacheManager H) (request : Request H) (numComputedTokens : Int) :
    Except KVCacheError (KVCacheManager H) :=
  if kv.config.enableCaching then
    kv.forManagers fun p m => m.cacheBlocks p request numComputedTokens
  else .ok kv

/-- The arguments of `allocate_slots` beside the request. -/
structure SlotArgs where
  numNewTokens : Int
  numNewComputedTokens : Int := 0
  /-- The prefix hits of every group; the preconstructed empty value when `none`. -/
  newComputedBlocks : Option (List (List BlockId)) := none
  numLookaheadTokens : Int := 0
  numExternalComputedTokens : Int := 0
  delayCacheBlocks : Bool := false
  numEncoderTokens : Int := 0

/-- The token counts `allocate_slots` derives from its arguments. -/
structure SlotCounts where
  numLocalComputedTokens : Int
  totalComputedTokens : Int
  numTokensMainModel : Int
  numTokensNeedSlot : Int

/-- The token counts of a call. -/
def slotCounts (kv : KVCacheManager H) (request : Request H) (a : SlotArgs) : SlotCounts :=
  let numLocalComputedTokens := request.numComputedTokens + a.numNewComputedTokens
  let totalComputedTokens :=
    min (numLocalComputedTokens + a.numExternalComputedTokens) kv.config.maxModelLen
  let numTokensMainModel := totalComputedTokens + a.numNewTokens
  { numLocalComputedTokens, totalComputedTokens, numTokensMainModel
    numTokensNeedSlot :=
      min (numTokensMainModel + a.numLookaheadTokens) kv.config.maxModelLen }

/-- The prefix hits of a call by group. -/
def SlotArgs.hits (a : SlotArgs) : List (List BlockId) := a.newComputedBlocks.getD []

/-- The step of `allocate_slots` that puts prefix hits and external tokens into the
request's tables. Hits without any block are the preconstructed empty value. -/
def joinHits (kv : KVCacheManager H) (request : Request H) (a : SlotArgs) (c : SlotCounts) :
    Except KVCacheError (KVCacheManager H) :=
  if a.hits.any (· ≠ []) ∨ 0 < a.numExternalComputedTokens then
    kv.allocateNewComputedBlocks request.requestId a.hits c.numLocalComputedTokens
      a.numExternalComputedTokens
  else .ok kv

/-- The part of `allocate_slots` after the capacity check. -/
def commitSlots (kv : KVCacheManager H) (request : Request H) (a : SlotArgs) (c : SlotCounts) :
    Except KVCacheError (KVCacheManager H × List (List BlockId)) := do
  let kv ← kv.joinHits request a c
  let (kv, newBlocks) ← kv.allocateNewBlocks request.requestId c.numTokensNeedSlot
    c.numTokensMainModel a.numEncoderTokens
  if !kv.config.enableCaching || a.delayCacheBlocks then pure (kv, newBlocks)
  else
    -- only tokens that are final are cached
    let kv ← kv.cacheBlocks request (min (c.totalComputedTokens + a.numNewTokens) request.numTokens)
    pure (kv, newBlocks)

/-- `allocate_slots`: the new blocks of every group, or `none` when they do not fit. -/
def allocateSlots (kv : KVCacheManager H) (request : Request H) (a : SlotArgs) :
    Except KVCacheError (KVCacheManager H × Option (List (List BlockId))) := do
  ensure (¬ (a.numNewTokens = 0 ∧ a.numExternalComputedTokens = 0)) .noTokensToAllocate
  let c := kv.slotCounts request a
  let kv ← kv.removeSkippedBlocks request.requestId c.totalComputedTokens
  let numBlocksToAllocate ← kv.getNumBlocksToAllocate request.requestId c.numTokensNeedSlot a.hits
    a.numEncoderTokens (c.numLocalComputedTokens + a.numExternalComputedTokens)
    c.numTokensMainModel
  if kv.blockPool.getNumFreeBlocks < numBlocksToAllocate then pure (kv, none)
  else
    let (kv, newBlocks) ← kv.commitSlots request a c
    pure (kv, some newBlocks)

/-! ## The other operations -/

/-- `free`. -/
def free (kv : KVCacheManager H) (requestId : RequestId) :
    Except KVCacheError (KVCacheManager H) :=
  kv.forManagers fun p m => m.free p requestId

/-- `evict_blocks`. -/
def evictBlocks (kv : KVCacheManager H) (blockIds : List BlockId) :
    Except KVCacheError (KVCacheManager H) := do
  let blockPool ← BlockPool.evictBlocks blockIds kv.blockPool
  pure { kv with blockPool }

/-- `reset_prefix_cache`. -/
def resetPrefixCache (kv : KVCacheManager H) : Bool × KVCacheManager H :=
  let (done, blockPool) := kv.blockPool.resetPrefixCache
  (done, { kv with blockPool })

omit [DecidableEq H] in
/-- `get_blocks`: the blocks of a request in every group. -/
def getBlocks (kv : KVCacheManager H) (requestId : RequestId) : List (List BlockId) :=
  kv.singleTypeManagers.map fun m => m.row requestId

/-- `new_step_starts`. -/
def newStepStarts (kv : KVCacheManager H) : KVCacheManager H :=
  { kv with singleTypeManagers := kv.singleTypeManagers.map (·.newStepStarts) }

/-! ## The configuration stays -/

section Config

variable {kv kv' : KVCacheManager H}

omit [DecidableEq H] in
/-- What the constructor builds: a new pool and managers without tables. -/
theorem init_eq_ok {c : KVCacheConfig} (h : init c = .ok kv) : ∃ pool,
    BlockPool.init c.numBlocks c.enableCaching c.hashBlockSize = .ok pool ∧ kv =
      { config := c, blockPool := pool
        singleTypeManagers := c.kvCacheGroups.zipIdx.map fun g =>
          { kvCacheSpec := g.1, kvCacheGroupId := g.2 } } := by
  simp only [init, bind_ok_iff] at h
  obtain ⟨pool, hpool, h⟩ := h
  refine ⟨pool, hpool, ?_⟩
  split at h
  · split at h <;> simp only [bind_ok_iff, pure_ok_iff] at h
    · obtain ⟨_, -, rfl⟩ := h
      rfl
    · obtain ⟨_, -, _, -, rfl⟩ := h
      rfl
  · exact (pure_ok_iff.mp h).symm

omit [DecidableEq H] in
theorem init_config {c : KVCacheConfig} (h : init c = .ok kv) : kv.config = c := by
  obtain ⟨pool, -, rfl⟩ := init_eq_ok h
  rfl

omit [DecidableEq H] in
private theorem forManagers_config {f : BlockPool H → SingleTypeKVCacheManager H →
      Except KVCacheError (BlockPool H × SingleTypeKVCacheManager H)}
    (h : kv.forManagers f = .ok kv') : kv'.config = kv.config := by
  simp only [forManagers, bind_ok_iff, pure_ok_iff] at h
  obtain ⟨_, -, rfl⟩ := h
  rfl

omit [DecidableEq H] in
theorem free_config {requestId : RequestId} (h : kv.free requestId = .ok kv') :
    kv'.config = kv.config := forManagers_config h

theorem cacheBlocks_config {request : Request H} {numComputedTokens : Int}
    (h : kv.cacheBlocks request numComputedTokens = .ok kv') : kv'.config = kv.config := by
  unfold cacheBlocks at h
  split at h
  · exact forManagers_config h
  · rw [Except.ok.inj h]

private theorem commitSlots_config {request : Request H} {a : SlotArgs} {c : SlotCounts}
    {newBlocks : List (List BlockId)} (h : kv.commitSlots request a c = .ok (kv', newBlocks)) :
    kv'.config = kv.config := by
  simp only [commitSlots, bind_ok_iff, Prod.exists] at h
  obtain ⟨kv₁, hjoin, kv₂, newBlocks₂, hnew, h⟩ := h
  have h₁ : kv₁.config = kv.config := by
    unfold joinHits at hjoin
    split at hjoin
    · exact forManagers_config hjoin
    · rw [Except.ok.inj hjoin]
  have h₂ : kv₂.config = kv₁.config := by
    simp only [allocateNewBlocks, bind_ok_iff, pure_ok_iff, Prod.mk.injEq, Prod.exists] at hnew
    obtain ⟨_, _, -, rfl, -⟩ := hnew
    rfl
  split at h
  · simp only [pure_ok_iff, Prod.mk.injEq] at h
    rw [← h.1, h₂, h₁]
  · simp only [bind_ok_iff, pure_ok_iff, Prod.mk.injEq] at h
    obtain ⟨kv₃, hcache, rfl, -⟩ := h
    rw [cacheBlocks_config hcache, h₂, h₁]

theorem allocateSlots_config {request : Request H} {a : SlotArgs}
    {result : Option (List (List BlockId))}
    (h : kv.allocateSlots request a = .ok (kv', result)) : kv'.config = kv.config := by
  simp only [allocateSlots, bind_ok_iff, ensure_eq_ok] at h
  obtain ⟨_, -, kv₁, hskip, n, -, h⟩ := h
  have h₁ : kv₁.config = kv.config := forManagers_config hskip
  split at h
  · simp only [pure_ok_iff, Prod.mk.injEq] at h
    rw [← h.1, h₁]
  · simp only [bind_ok_iff, pure_ok_iff, Prod.mk.injEq, Prod.exists] at h
    obtain ⟨kv₂, newBlocks, hcommit, rfl, -⟩ := h
    rw [commitSlots_config hcommit, h₁]

end Config

end KVCacheManager

end Vllm
