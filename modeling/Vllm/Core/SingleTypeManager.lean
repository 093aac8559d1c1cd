import Vllm.Core.BlockPool

/-!
# Managers of one KV cache group

A group manager keeps the block table of every request for one type of layer. The
subclasses of the source differ in which tokens they skip, in how they look up
prefix hits, and, for Mamba layers in `align` mode, in how they allocate; they are
told apart by the kind of the group's spec. Context parallelism is off, so a
group's block size is that of its spec.
-/

namespace Vllm

open Checked

/-- `cdiv`, ceiling division. -/
def cdiv (a b : Int) : Int := -(a.fdiv (-b))

/-- How a Mamba group caches its states. -/
inductive MambaCacheMode where
  | none
  | all
  | align
  deriving DecidableEq, Repr

/-- The spec classes, with the fields the managers read. -/
inductive SpecKind where
  | fullAttention
  | slidingWindow (window : Nat)
  | chunkedLocal (attentionChunkSize : Nat)
  | mamba (mode : MambaCacheMode) (numSpeculativeBlocks : Nat)
  | crossAttention
  deriving DecidableEq, Repr

/-- Windows and chunks are not empty. -/
def SpecKind.Valid : SpecKind → Prop
  | .slidingWindow window => 0 < window
  | .chunkedLocal chunk => 0 < chunk
  | _ => True

instance : DecidablePred SpecKind.Valid
  | .slidingWindow window => inferInstanceAs (Decidable (0 < window))
  | .chunkedLocal chunk => inferInstanceAs (Decidable (0 < chunk))
  | .fullAttention | .mamba _ _ | .crossAttention => inferInstanceAs (Decidable True)

/-- The format of a group's cache. -/
structure KVCacheSpec where
  kind : SpecKind
  blockSize : Nat
  /-- The other fields of the dataclass, which are only compared. -/
  rest : Nat := 0
  blockSize_pos : 0 < blockSize := by decide
  kind_valid : kind.Valid := by decide
  deriving DecidableEq

/-- `get_num_skipped_tokens`. -/
def SpecKind.getNumSkippedTokens (kind : SpecKind) (numComputedTokens : Int) : Int :=
  match kind with
  | .fullAttention | .crossAttention => 0
  | .slidingWindow window => max 0 (numComputedTokens - window + 1)
  | .chunkedLocal chunk => numComputedTokens / chunk * chunk
  | .mamba _ _ => numComputedTokens - 1

/-- The number of speculative blocks of a Mamba group, `0` for all others. -/
def KVCacheSpec.numSpeculativeBlocks (spec : KVCacheSpec) : Nat :=
  match spec.kind with
  | .mamba _ n => n
  | _ => 0

/-- A Mamba group in `align` mode. -/
def KVCacheSpec.isAlign (spec : KVCacheSpec) : Bool :=
  match spec.kind with
  | .mamba .align _ => true
  | _ => false

/-- The number of leading blocks that a request skips. -/
def KVCacheSpec.numSkippedBlocks (spec : KVCacheSpec) (totalComputedTokens : Int) : Int :=
  spec.kind.getNumSkippedTokens totalComputedTokens / spec.blockSize

/-- The external tokens that are left after skipping. -/
def KVCacheSpec.unskippedExternalTokens (spec : KVCacheSpec)
    (numTotalComputedTokens numExternalComputedTokens : Int) : Int :=
  if 0 < spec.numSkippedBlocks numTotalComputedTokens then
    min (numTotalComputedTokens - spec.kind.getNumSkippedTokens numTotalComputedTokens)
      numExternalComputedTokens
  else numExternalComputedTokens

variable {H : Type} [DecidableEq H]

/-! ## Prefix hits

A hit is kept index by index: entry `i` lists the cached blocks `i` of all groups
that are looked up together. -/

/-- The blocks cached for block `i` of a request, one for each group. -/
def cachedColumn (p : BlockPool H) (blockHashes : List H) (scaleFactor : Nat)
    (groupIds : List Nat) (i : Nat) : Except KVCacheError (Option (List BlockId)) :=
  match BlockPool.mergedHash blockHashes scaleFactor i with
  | none => .error .hashIndexOutOfRange
  | some blockHash => .ok (p.getCachedBlock blockHash groupIds)

/-- The longest aligned length up to `n` blocks. -/
def alignedLength (blockSize alignmentTokens : Nat) : Nat → Nat
  | 0 => 0
  | n + 1 =>
    if (n + 1) * blockSize % alignmentTokens = 0 then n + 1
    else alignedLength blockSize alignmentTokens n

/-- The left-to-right scan of full attention, over at most `n` blocks from block `i` on. -/
def fullHitLoop (p : BlockPool H) (blockHashes : List H) (scaleFactor : Nat)
    (groupIds : List Nat) : Nat → Nat → List (List BlockId)
  | 0, _ => []
  | n + 1, i =>
    match BlockPool.mergedHash blockHashes scaleFactor i with
    | none => []
    | some blockHash =>
      match p.getCachedBlock blockHash groupIds with
      | none => []
      | some column => column :: fullHitLoop p blockHashes scaleFactor groupIds n (i + 1)

/-- The right-to-left scan of sliding windows. It returns the columns, how many
contiguous ones ended the scan, and whether that was enough. -/
def slidingWindowHitLoop (p : BlockPool H) (blockHashes : List H) (scaleFactor : Nat)
    (groupIds : List Nat) (contiguousBlocks blockSize alignmentTokens : Nat) :
    Nat → List (List BlockId) → Nat → Except KVCacheError (List (List BlockId) × Nat × Bool)
  | 0, computed, numContiguous => .ok (computed, numContiguous, false)
  | i + 1, computed, numContiguous => do
    let column ← cachedColumn p blockHashes scaleFactor groupIds i
    match column with
    | none =>
      slidingWindowHitLoop p blockHashes scaleFactor groupIds contiguousBlocks blockSize
        alignmentTokens i computed 0
    | some column =>
      if numContiguous = 0 ∧ blockSize ≠ alignmentTokens ∧
          (i + 1) * blockSize % alignmentTokens ≠ 0 then
        slidingWindowHitLoop p blockHashes scaleFactor groupIds contiguousBlocks blockSize
          alignmentTokens i computed numContiguous
      else if contiguousBlocks ≤ numContiguous + 1 then
        -- trim the trailing blocks
        .ok ((computed.set i column).take (i + (numContiguous + 1)), numContiguous + 1, true)
      else
        slidingWindowHitLoop p blockHashes scaleFactor groupIds contiguousBlocks blockSize
          alignmentTokens i (computed.set i column) (numContiguous + 1)

/-- The scan of chunked local attention inside the current chunk. -/
def chunkedHitLoop (p : BlockPool H) (blockHashes : List H) (scaleFactor : Nat)
    (groupIds : List Nat) : Nat → Nat → Except KVCacheError (List (List BlockId))
  | 0, _ => .ok []
  | n + 1, i => do
    let column ← cachedColumn p blockHashes scaleFactor groupIds i
    match column with
    | none => .ok []
    | some column =>
      let rest ← chunkedHitLoop p blockHashes scaleFactor groupIds n (i + 1)
      pure (column :: rest)

/-- The scan of Mamba layers for the last cached state. -/
def mambaHitLoop (p : BlockPool H) (blockHashes : List H) (scaleFactor : Nat)
    (groupIds : List Nat) (nullColumn : List BlockId) (blockSize alignmentTokens : Nat) :
    Nat → Except KVCacheError (List (List BlockId))
  | 0 => .ok []
  | i + 1 => do
    let column ← cachedColumn p blockHashes scaleFactor groupIds i
    match column with
    | none =>
      mambaHitLoop p blockHashes scaleFactor groupIds nullColumn blockSize alignmentTokens i
    | some column =>
      if blockSize ≠ alignmentTokens ∧ (i + 1) * blockSize % alignmentTokens ≠ 0 then
        mambaHitLoop p blockHashes scaleFactor groupIds nullColumn blockSize alignmentTokens i
      else .ok (List.replicate i nullColumn ++ [column])

/-- `find_longest_cache_hit`, index by index. -/
def findHitColumns (spec : KVCacheSpec) (p : BlockPool H) (blockHashes : List H)
    (maxLength : Nat) (groupIds : List Nat) (useEagle : Bool) (alignmentTokens : Nat) :
    Except KVCacheError (List (List BlockId)) :=
  let blockSize := spec.blockSize
  let scaleFactor := blockSize / p.hashBlockSize
  let maxNumBlocks := maxLength / blockSize
  let nullColumn := groupIds.map fun _ => nullBlock
  match spec.kind with
  | .fullAttention =>
    let computed := fullHitLoop p blockHashes scaleFactor groupIds maxNumBlocks 0
    -- drop the last matched block if eagle is enabled
    let computed := if useEagle then computed.dropLast else computed
    .ok (computed.take (alignedLength blockSize alignmentTokens computed.length))
  | .slidingWindow window => do
    let contiguousBlocks := (cdiv (window - 1) blockSize).toNat + if useEagle then 1 else 0
    let (computed, numContiguous, matchFound) ←
      slidingWindowHitLoop p blockHashes scaleFactor groupIds contiguousBlocks blockSize
        alignmentTokens maxNumBlocks (List.replicate maxNumBlocks nullColumn) 0
    let computed := if matchFound then computed
      else computed.take (alignedLength blockSize alignmentTokens
        (computed.take numContiguous).length)
    ensure (useEagle = false ∨ computed = [] ∨ blockSize = alignmentTokens) .eagleUnsupported
    pure (if useEagle then computed.dropLast else computed)
  | .chunkedLocal chunk => do
    ensure (useEagle = false) .eagleUnsupported
    ensure (blockSize = alignmentTokens) .unalignedChunks
    let startBlockIdx := maxLength / chunk * chunk / blockSize
    let rest ← chunkedHitLoop p blockHashes scaleFactor groupIds (maxNumBlocks - startBlockIdx)
      startBlockIdx
    pure (List.replicate startBlockIdx nullColumn ++ rest)
  | .mamba _ _ => mambaHitLoop p blockHashes scaleFactor groupIds nullColumn blockSize
      alignmentTokens maxNumBlocks
  | .crossAttention => .error .crossAttentionCaching

/-- `find_longest_cache_hit`: the hit blocks of each group of `groupIds`. -/
def findLongestCacheHit (spec : KVCacheSpec) (p : BlockPool H) (blockHashes : List H)
    (maxLength : Nat) (groupIds : List Nat) (useEagle : Bool) (alignmentTokens : Nat) :
    Except KVCacheError (List (List BlockId)) := do
  let columns ← findHitColumns spec p blockHashes maxLength groupIds useEagle alignmentTokens
  pure ((List.range groupIds.length).map fun k => columns.map fun column =>
    column.getD k nullBlock)

/-! ## Block tables -/

/-- A group's manager. A request that the default dictionary of the source does not
have, or has with an empty list, has no blocks here. -/
structure SingleTypeKVCacheManager (H : Type) where
  kvCacheSpec : KVCacheSpec
  kvCacheGroupId : Nat
  reqToBlocks : Dict RequestId (List BlockId) := .empty
  numCachedBlock : RequestId → Option Nat := fun _ => none
  /-- Mamba: the keys cached since the step started. -/
  cachedBlocksThisStep : List (BlockHashWithGroupId H) := []
  /-- Mamba `align`: the index of the last state block. -/
  lastStateBlockIdx : RequestId → Option Nat := fun _ => none
  /-- Mamba `align`: the requests that were allocated blocks. -/
  allocatedBlockReqs : RequestId → Bool := fun _ => false

namespace SingleTypeKVCacheManager

/-- The block table of a request. -/
def row (m : SingleTypeKVCacheManager H) (requestId : RequestId) : List BlockId :=
  (m.reqToBlocks.get? requestId).getD []

/-- Replace the block table of a request. -/
def setRow (m : SingleTypeKVCacheManager H) (requestId : RequestId) (blocks : List BlockId) :
    SingleTypeKVCacheManager H :=
  { m with reqToBlocks := m.reqToBlocks.insert requestId blocks }

/-- The block size as an integer, for the arithmetic on token counts. -/
def blockSize (m : SingleTypeKVCacheManager H) : Int := m.kvCacheSpec.blockSize

/-- The number of speculative blocks of a Mamba group, `0` for all others. -/
def numSpeculativeBlocks (m : SingleTypeKVCacheManager H) : Nat :=
  m.kvCacheSpec.numSpeculativeBlocks

/-- A Mamba group in `align` mode. -/
def isAlign (m : SingleTypeKVCacheManager H) : Bool := m.kvCacheSpec.isAlign

/-- A cross-attention group. -/
def isCrossAttention (m : SingleTypeKVCacheManager H) : Bool :=
  m.kvCacheSpec.kind = .crossAttention

/-- `_get_num_evictable_blocks`. -/
def getNumEvictableBlocks (p : BlockPool H) (blocks : List BlockId) : Nat :=
  blocks.countP fun b => p.refCnt b = 0 ∧ b ≠ nullBlock

/-- `get_num_blocks_to_allocate` of the base class. -/
def getNumBlocksToAllocateBase (p : BlockPool H) (m : SingleTypeKVCacheManager H)
    (requestId : RequestId) (numTokens : Int) (newComputedBlocks : List BlockId)
    (totalComputedTokens : Int) : Except KVCacheError Int :=
  let numRequiredBlocks := cdiv numTokens m.blockSize
  let numReqBlocks : Int := (m.row requestId).length
  if (m.numCachedBlock requestId).isSome then do
    -- a running request won't have any new prefix-cache hits
    ensure (newComputedBlocks = []) .hitsOfRunningRequest
    pure (max (numRequiredBlocks - numReqBlocks) 0)
  else
    let numSkippedTokens := m.kvCacheSpec.kind.getNumSkippedTokens totalComputedTokens
    let numLocalComputedBlocks := newComputedBlocks.length + numReqBlocks
    let numSkippedBlocks := numSkippedTokens / m.blockSize
    let numNewBlocks := max (numRequiredBlocks - max numSkippedBlocks numLocalComputedBlocks) 0
    let numSkippedNewComputedBlocks := max 0 (numSkippedBlocks - numReqBlocks)
    .ok (numNewBlocks +
      getNumEvictableBlocks p (newComputedBlocks.drop numSkippedNewComputedBlocks.toNat))

/-- `MambaManager`: the hit ends with a block that was cached in this very step. -/
def hitsCachedThisStep (p : BlockPool H) (m : SingleTypeKVCacheManager H)
    (newComputedBlocks : List BlockId) : Bool :=
  match newComputedBlocks.getLast? with
  | none => false
  | some last =>
    match p.blockHash last with
    | none => false
    | some key => key ∈ m.cachedBlocksThisStep

/-- `get_num_blocks_to_allocate`. -/
def getNumBlocksToAllocate (p : BlockPool H) (m : SingleTypeKVCacheManager H)
    (requestId : RequestId) (numTokens : Int) (newComputedBlocks : List BlockId)
    (totalComputedTokens numTokensMainModel : Int) : Except KVCacheError Int :=
  match m.kvCacheSpec.kind with
  | .mamba mode numSpeculativeBlocks =>
    if m.hitsCachedThisStep p newComputedBlocks then
      -- more than there are, so that the request waits for the next step
      .ok (p.numGpuBlocks + 1)
    else if mode ≠ .align then
      m.getNumBlocksToAllocateBase p requestId
        (numTokens + m.blockSize * numSpeculativeBlocks) newComputedBlocks totalComputedTokens
    else
      let numRequiredBlocks := cdiv numTokensMainModel m.blockSize + numSpeculativeBlocks
      let numNewBlocks := numRequiredBlocks - newComputedBlocks.length - (m.row requestId).length
      let numNewBlocks :=
        if 0 < numNewBlocks then
          -- an old request reuses its speculative blocks
          if m.allocatedBlockReqs requestId then 1 else 1 + (numSpeculativeBlocks : Int)
        else numNewBlocks
      .ok (numNewBlocks + getNumEvictableBlocks p newComputedBlocks)
  | _ => m.getNumBlocksToAllocateBase p requestId numTokens newComputedBlocks totalComputedTokens

/-- `allocate_new_computed_blocks`. -/
def allocateNewComputedBlocks (p : BlockPool H) (m : SingleTypeKVCacheManager H)
    (requestId : RequestId) (newComputedBlocks : List BlockId)
    (numLocalComputedTokens numExternalComputedTokens : Int) :
    Except KVCacheError (BlockPool H × SingleTypeKVCacheManager H) := do
  if m.isCrossAttention then
    ensure (newComputedBlocks = []) .crossAttentionCaching
    pure (p, m)
  else if (m.numCachedBlock requestId).isSome then
    ensure (newComputedBlocks = []) .hitsOfRunningRequest
    pure (p, m)
  else
    ensure (m.row requestId = []) .newRequestHoldsBlocks
    let numTotalComputedTokens := numLocalComputedTokens + numExternalComputedTokens
    let numSkippedBlocks := (m.kvCacheSpec.numSkippedBlocks numTotalComputedTokens).toNat
    let newComputedBlocks := newComputedBlocks.drop numSkippedBlocks
    ensure (p.enableCaching = true ∨ newComputedBlocks = []) .hitsWithoutCaching
    let p ← BlockPool.touch newComputedBlocks p
    -- skipped blocks are padded with null blocks
    let reqBlocks := List.replicate numSkippedBlocks nullBlock ++ newComputedBlocks
    let m := { m with
      numCachedBlock := Function.update m.numCachedBlock requestId (some reqBlocks.length) }
    if (0 : Int) < m.kvCacheSpec.unskippedExternalTokens numTotalComputedTokens
        numExternalComputedTokens then
      let (allocatedBlocks, p) ←
        p.getNewBlocks (cdiv numTotalComputedTokens m.blockSize - reqBlocks.length)
      pure (p, m.setRow requestId (reqBlocks ++ allocatedBlocks))
    else pure (p, m.setRow requestId reqBlocks)

/-- `allocate_new_blocks` of the base class. -/
def allocateNewBlocksBase (p : BlockPool H) (m : SingleTypeKVCacheManager H)
    (requestId : RequestId) (numTokens : Int) :
    Except KVCacheError (BlockPool H × SingleTypeKVCacheManager H × List BlockId) :=
  let reqBlocks := m.row requestId
  let numNewBlocks := cdiv numTokens m.blockSize - reqBlocks.length
  if numNewBlocks ≤ 0 then .ok (p, m, [])
  else do
    let (newBlocks, p) ← p.getNewBlocks numNewBlocks
    pure (p, m.setRow requestId (reqBlocks ++ newBlocks), newBlocks)

/-- Move up to `n` speculative blocks from index `blockIdx` on to the end of the table, as
far as they lie before `numSkippedBlocks`, and leave null blocks behind. -/
def reuseLoop (numSkippedBlocks : Int) : Nat → Nat → List BlockId → List BlockId
  | 0, _, reqBlocks => reqBlocks
  | n + 1, blockIdx, reqBlocks =>
    if blockIdx < numSkippedBlocks then
      reuseLoop numSkippedBlocks n (blockIdx + 1)
        ((reqBlocks ++ [reqBlocks.getD blockIdx nullBlock]).set blockIdx nullBlock)
    else reqBlocks

/-- The block table of an `align` request before new blocks are appended: padded with
null blocks up to the block that takes the new state, and with the previous
speculative blocks moved behind. -/
def alignedRow (numSpeculativeBlocks : Nat) (numRequiredBlocks : Int) (blocksAllocated : Bool)
    (reqBlocks : List BlockId) : List BlockId :=
  let prevBlockLen := reqBlocks.length
  let numSkippedBlocks := numRequiredBlocks - numSpeculativeBlocks - 1
  let reqBlocks := reqBlocks ++ List.replicate (numSkippedBlocks - prevBlockLen).toNat nullBlock
  if blocksAllocated then
    reuseLoop numSkippedBlocks numSpeculativeBlocks (prevBlockLen - numSpeculativeBlocks) reqBlocks
  else reqBlocks

/-- The last state block to record before an `align` request grows. A table of an
allocated request has more than `numSpeculativeBlocks` blocks. -/
def nextStateBlockIdx (m : SingleTypeKVCacheManager H) (requestId : RequestId) : Option Nat :=
  let prevBlockLen := (m.row requestId).length
  if m.allocatedBlockReqs requestId then some (prevBlockLen - 1 - m.numSpeculativeBlocks)
  else if 0 < prevBlockLen then some (prevBlockLen - 1)
  else m.lastStateBlockIdx requestId

/-- `allocate_new_blocks` of a Mamba group in `align` mode. -/
def allocateNewBlocksAlign (p : BlockPool H) (m : SingleTypeKVCacheManager H)
    (requestId : RequestId) (numTokensMainModel : Int) :
    Except KVCacheError (BlockPool H × SingleTypeKVCacheManager H × List BlockId) :=
  let numSpeculativeBlocks := m.numSpeculativeBlocks
  let prevBlockLen := (m.row requestId).length
  let numRequiredBlocks := cdiv numTokensMainModel m.blockSize + numSpeculativeBlocks
  if numRequiredBlocks = prevBlockLen then .ok (p, m, [])
  else do
    ensure ((prevBlockLen : Int) < numRequiredBlocks) .fewerRequiredThanHeld
    let blocksAllocated := m.allocatedBlockReqs requestId
    let reqBlocks := alignedRow numSpeculativeBlocks numRequiredBlocks blocksAllocated
      (m.row requestId)
    let numNewBlocks := numRequiredBlocks - reqBlocks.length
    ensure (numNewBlocks ≤ if blocksAllocated then 1 else (numSpeculativeBlocks : Int) + 1)
      .tooManyNewBlocks
    let (newBlocks, p) ← p.getNewBlocks numNewBlocks
    let m := { m.setRow requestId (reqBlocks ++ newBlocks) with
      lastStateBlockIdx :=
        Function.update m.lastStateBlockIdx requestId (m.nextStateBlockIdx requestId)
      allocatedBlockReqs := Function.update m.allocatedBlockReqs requestId true }
    pure (p, m, (reqBlocks ++ newBlocks).drop prevBlockLen)

/-- `allocate_new_blocks`. -/
def allocateNewBlocks (p : BlockPool H) (m : SingleTypeKVCacheManager H)
    (requestId : RequestId) (numTokens numTokensMainModel : Int) :
    Except KVCacheError (BlockPool H × SingleTypeKVCacheManager H × List BlockId) :=
  match m.kvCacheSpec.kind with
  | .mamba .align _ => m.allocateNewBlocksAlign p requestId numTokensMainModel
  | .mamba _ numSpeculativeBlocks =>
    m.allocateNewBlocksBase p requestId (numTokens + m.blockSize * numSpeculativeBlocks)
  | _ => m.allocateNewBlocksBase p requestId numTokens

/-- `cache_blocks` of the base class. -/
def cacheBlocksBase (p : BlockPool H) (m : SingleTypeKVCacheManager H) (request : Request H)
    (numTokens : Int) : Except KVCacheError (BlockPool H × SingleTypeKVCacheManager H) :=
  let numCachedBlocks := (m.numCachedBlock request.requestId).getD 0
  let numFullBlocks := (numTokens / m.blockSize).toNat
  if numFullBlocks ≤ numCachedBlocks then .ok (p, m)
  else do
    let p ← p.cacheFullBlocks request (m.row request.requestId) numCachedBlocks numFullBlocks
      m.kvCacheSpec.blockSize m.kvCacheGroupId
    pure (p, { m with
      numCachedBlock := Function.update m.numCachedBlock request.requestId (some numFullBlocks) })

/-- The keys of newly cached blocks; null blocks have none. -/
def newlyCachedKeys (p : BlockPool H) : List BlockId →
    Except KVCacheError (List (BlockHashWithGroupId H))
  | [] => .ok []
  | block :: blocks =>
    if block = nullBlock then newlyCachedKeys p blocks
    else match p.blockHash block with
      | none => .error .cachedBlockWithoutHash
      | some key => do
        let keys ← newlyCachedKeys p blocks
        pure (key :: keys)

/-- `cache_blocks`. -/
def cacheBlocks (p : BlockPool H) (m : SingleTypeKVCacheManager H) (request : Request H)
    (numTokens : Int) : Except KVCacheError (BlockPool H × SingleTypeKVCacheManager H) :=
  match m.kvCacheSpec.kind with
  | .crossAttention => .error .crossAttentionCaching
  | .mamba _ _ => do
    let numCachedBlocksBefore := (m.numCachedBlock request.requestId).getD 0
    let (p, m) ← m.cacheBlocksBase p request numTokens
    let numCachedBlocksAfter := (m.numCachedBlock request.requestId).getD 0
    let keys ← newlyCachedKeys p
      (((m.row request.requestId).take numCachedBlocksAfter).drop numCachedBlocksBefore)
    pure (p, { m with cachedBlocksThisStep := m.cachedBlocksThisStep ++ keys })
  | _ => m.cacheBlocksBase p request numTokens

/-- `free`. -/
def free (p : BlockPool H) (m : SingleTypeKVCacheManager H) (requestId : RequestId) :
    Except KVCacheError (BlockPool H × SingleTypeKVCacheManager H) := do
  -- tail blocks are freed first
  let p ← p.freeBlocks (m.row requestId).reverse
  pure (p, { m with
    reqToBlocks := m.reqToBlocks.erase requestId
    numCachedBlock := Function.update m.numCachedBlock requestId none
    lastStateBlockIdx := Function.update m.lastStateBlockIdx requestId none
    allocatedBlockReqs := Function.update m.allocatedBlockReqs requestId false })

/-- The loop of `remove_skipped_blocks`: from block `n - 1` down to the first null block,
the blocks removed and the table that is left. -/
def removeLoop : Nat → List BlockId → List BlockId × List BlockId
  | 0, blocks => ([], blocks)
  | n + 1, blocks =>
    if blocks.getD n nullBlock = nullBlock then ([], blocks)
    else
      let (removedBlocks, rest) := removeLoop n (blocks.set n nullBlock)
      (blocks.getD n nullBlock :: removedBlocks, rest)

/-- `remove_skipped_blocks` of the base class. -/
def removeSkippedBlocksBase (p : BlockPool H) (m : SingleTypeKVCacheManager H)
    (requestId : RequestId) (totalComputedTokens : Int) :
    Except KVCacheError (BlockPool H × SingleTypeKVCacheManager H) :=
  if m.kvCacheSpec.kind.getNumSkippedTokens totalComputedTokens ≤ 0 then .ok (p, m)
  else do
    let blocks := m.row requestId
    let numSkippedBlocks :=
      min (m.kvCacheSpec.numSkippedBlocks totalComputedTokens).toNat blocks.length
    let (removedBlocks, blocks) := removeLoop numSkippedBlocks blocks
    let p ← p.freeBlocks removedBlocks
    pure (p, m.setRow requestId blocks)

/-- Mamba `align`: free the state block of two steps ago. -/
def freeLastStateBlock (p : BlockPool H) (m : SingleTypeKVCacheManager H)
    (requestId : RequestId) (numComputedTokens : Int) :
    Except KVCacheError (BlockPool H × SingleTypeKVCacheManager H) :=
  match m.lastStateBlockIdx requestId with
  | none => .ok (p, m)
  | some idx =>
    let block := (m.row requestId).getD idx nullBlock
    if idx < cdiv numComputedTokens m.blockSize - 1 ∧ block ≠ nullBlock then do
      let p ← p.freeBlocks [block]
      pure (p, m.setRow requestId ((m.row requestId).set idx nullBlock))
    else .ok (p, m)

/-- `remove_skipped_blocks`. -/
def removeSkippedBlocks (p : BlockPool H) (m : SingleTypeKVCacheManager H)
    (requestId : RequestId) (totalComputedTokens : Int) :
    Except KVCacheError (BlockPool H × SingleTypeKVCacheManager H) :=
  match m.kvCacheSpec.kind with
  | .mamba mode numSpeculativeBlocks => do
    -- assume that all draft tokens of the previous step are rejected
    let numComputedTokens := max 0 (totalComputedTokens - numSpeculativeBlocks)
    let (p, m) ← m.removeSkippedBlocksBase p requestId numComputedTokens
    if mode = .align then m.freeLastStateBlock p requestId numComputedTokens else pure (p, m)
  | _ => m.removeSkippedBlocksBase p requestId totalComputedTokens

/-- `new_step_starts`. -/
def newStepStarts (m : SingleTypeKVCacheManager H) : SingleTypeKVCacheManager H :=
  { m with cachedBlocksThisStep := [] }

end SingleTypeKVCacheManager

end Vllm
