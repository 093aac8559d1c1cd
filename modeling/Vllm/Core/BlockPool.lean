import Vllm.Core.Request
import Vllm.Core.FreeBlockQueue
import Vllm.Library.Dict

/-!
# The block pool

The pool hands out blocks, counts references, and keeps the index from block hashes
to cached blocks. A block's metadata is kept in maps from block ids. Block `0` is
the null block: the first one popped at construction, never counted and never
cached.
-/

namespace Vllm

open Checked LinkedList

/-- A block hash, at the granularity of a group's blocks, packed with the group id. A
hash of a larger block is the concatenation of the hashes of its parts; all digests
have one length, so the packing loses nothing. -/
structure BlockHashWithGroupId (H : Type) where
  blockHash : List H
  groupId : Nat
  deriving DecidableEq, Repr

/-- What the index stores under a key: one block, or a dictionary by block id. -/
inductive CachedBlocks where
  | single (block : BlockId)
  | many (blocks : Dict BlockId BlockId)

/-- The index from block hashes to cached blocks. -/
abbrev BlockHashToBlockMap (H : Type) := BlockHashWithGroupId H → Option CachedBlocks

variable {H : Type} [DecidableEq H]

namespace BlockHashToBlockMap

/-- Any block with the given key; of several, the one stored first. -/
def getOneBlock (m : BlockHashToBlockMap H) (key : BlockHashWithGroupId H) : Option BlockId :=
  match m key with
  | none => none
  | some (.single block) => some block
  | some (.many blocks) => blocks.values.head?

/-- Store a block under a key. -/
def insert (m : BlockHashToBlockMap H) (key : BlockHashWithGroupId H) (block : BlockId) :
    BlockHashToBlockMap H :=
  match m key with
  | none => Function.update m key (some (.single block))
  | some (.single old) => Function.update m key
      (some (.many ((Dict.empty.insert old old).insert block block)))
  | some (.many blocks) => Function.update m key (some (.many (blocks.insert block block)))

/-- Take a block id out of a key's entry, if it is there. -/
def pop (m : BlockHashToBlockMap H) (key : BlockHashWithGroupId H) (blockId : BlockId) :
    Option BlockId × BlockHashToBlockMap H :=
  match m key with
  | none => (none, m)
  | some (.single block) =>
    if block = blockId then (some block, Function.update m key none) else (none, m)
  | some (.many blocks) =>
    let rest := blocks.erase blockId
    -- an entry that has become empty is not put back
    (blocks.get? blockId,
      Function.update m key (if rest.entries = [] then none else some (.many rest)))

/-- A block is stored under a key. -/
def Stores (m : BlockHashToBlockMap H) (key : BlockHashWithGroupId H) (b : BlockId) : Prop :=
  match m key with
  | none => False
  | some (.single block) => block = b
  | some (.many blocks) => b ∈ blocks.values

/-- Dictionaries in the index are not empty and keyed by the ids of their blocks. -/
def WellKeyed (m : BlockHashToBlockMap H) : Prop :=
  ∀ key blocks, m key = some (.many blocks) → blocks.entries ≠ [] ∧ blocks.KeyedByValue

end BlockHashToBlockMap

/-- The pool of blocks. -/
structure BlockPool (H : Type) where
  numGpuBlocks : Nat
  enableCaching : Bool
  hashBlockSize : Nat
  freeBlockQueue : FreeKVCacheBlockQueue
  refCnt : BlockId → Int
  blockHash : BlockId → Option (BlockHashWithGroupId H)
  cachedBlockHashToBlock : BlockHashToBlockMap H
  /-- The blocks reported to `metrics_collector.on_block_allocated`, oldest first. -/
  allocated : List BlockId

/-- The placeholder block. -/
def nullBlock : BlockId := 0

namespace BlockPool

/-- `BlockPool.__init__`: all blocks are free, and the first becomes the null block. -/
def init (numGpuBlocks : Nat) (enableCaching : Bool) (hashBlockSize : Nat) :
    Except KVCacheError (BlockPool H) := do
  ensure (0 < numGpuBlocks) .invalidConfig
  let (_, queue) ← (FreeKVCacheBlockQueue.init numGpuBlocks).popleft
  pure
    { numGpuBlocks, enableCaching, hashBlockSize
      freeBlockQueue := queue
      refCnt := fun _ => 0
      blockHash := fun _ => none
      cachedBlockHashToBlock := fun _ => none
      allocated := [] }

/-- `get_num_free_blocks`. -/
def getNumFreeBlocks (p : BlockPool H) : Int := p.freeBlockQueue.numFreeBlocks

/-- `get_cached_block`: the cached block of every group, or `none` if one misses. -/
def getCachedBlock (p : BlockPool H) (blockHash : List H) (groupIds : List Nat) :
    Option (List BlockId) :=
  groupIds.mapM fun groupId => p.cachedBlockHashToBlock.getOneBlock ⟨blockHash, groupId⟩

/-- The setter of a block's hash. -/
def setBlockHash (p : BlockPool H) (block : BlockId) (key : BlockHashWithGroupId H) :
    Except KVCacheError (BlockPool H) := do
  ensure (p.blockHash block = none) .alreadyHasHash
  pure { p with blockHash := Function.update p.blockHash block (some key) }

/-- Hash `idx` of a request at the granularity of `scaleFactor` hash blocks, as
`BlockHashListWithBlockSize` computes it; an incomplete one is out of range. -/
def mergedHash (blockHashes : List H) (scaleFactor idx : Nat) : Option (List H) :=
  if (idx + 1) * scaleFactor ≤ blockHashes.length then
    some ((blockHashes.drop (idx * scaleFactor)).take scaleFactor)
  else none

/-- The loop of `cache_full_blocks` over the new full blocks, the first of which has
index `idx` in its request. -/
def cacheLoop (blockHashes : List H) (scaleFactor groupId : Nat) :
    Nat → List BlockId → BlockPool H → Except KVCacheError (BlockPool H)
  | _, [], p => .ok p
  | idx, block :: blocks, p =>
    if block = nullBlock then cacheLoop blockHashes scaleFactor groupId (idx + 1) blocks p
    else do
      ensure (p.blockHash block = none) .blockHashNotNone
      match mergedHash blockHashes scaleFactor idx with
      | none => .error .hashIndexOutOfRange
      | some blockHash =>
        let key := ⟨blockHash, groupId⟩
        let p ← p.setBlockHash block key
        cacheLoop blockHashes scaleFactor groupId (idx + 1) blocks
          { p with cachedBlockHashToBlock := p.cachedBlockHashToBlock.insert key block }

/-- `cache_full_blocks`. -/
def cacheFullBlocks (p : BlockPool H) (request : Request H) (blocks : List BlockId)
    (numCachedBlocks numFullBlocks blockSize groupId : Nat) :
    Except KVCacheError (BlockPool H) :=
  if numFullBlocks ≤ numCachedBlocks then .ok p
  else do
    let newFullBlocks := (blocks.take numFullBlocks).drop numCachedBlocks
    ensure (numFullBlocks ≤ request.blockHashes.length) .tooFewBlockHashes
    ensure (blockSize % p.hashBlockSize = 0) .blockSizeNotMultiple
    cacheLoop request.blockHashes (blockSize / p.hashBlockSize) groupId numCachedBlocks
      newFullBlocks p

/-- `_maybe_evict_cached_block`. -/
def maybeEvictCachedBlock (p : BlockPool H) (block : BlockId) : BlockPool H :=
  match p.blockHash block with
  | none => p
  | some key =>
    match p.cachedBlockHashToBlock.pop key block with
    | (none, _) => p
    | (some _, cached) =>
      { p with
        cachedBlockHashToBlock := cached
        blockHash := Function.update p.blockHash block none }

/-- A block about to be reused loses its hash. -/
def forReuse (p : BlockPool H) (block : BlockId) : BlockPool H :=
  if p.enableCaching then p.maybeEvictCachedBlock block else p

/-- The loop of `get_new_blocks` over the popped blocks. -/
def allocateLoop : List BlockId → BlockPool H → Except KVCacheError (BlockPool H)
  | [], p => .ok p
  | block :: blocks, p => do
    let p := p.forReuse block
    ensure (p.refCnt block = 0) .refCntNotZero
    allocateLoop blocks
      { p with
        refCnt := Function.update p.refCnt block (p.refCnt block + 1)
        allocated := p.allocated ++ [block] }

/-- `get_new_blocks`. -/
def getNewBlocks (p : BlockPool H) (numBlocks : Int) :
    Except KVCacheError (List BlockId × BlockPool H) := do
  ensure (numBlocks ≤ p.getNumFreeBlocks) .notEnoughFreeBlocks
  let (ret, queue) ← p.freeBlockQueue.popleftN numBlocks
  let p ← allocateLoop ret { p with freeBlockQueue := queue }
  pure (ret, p)

/-- The queue once a block is referenced: without references so far, the block is an
eviction candidate and has to leave. -/
def queueWithout (p : BlockPool H) (block : BlockId) :
    Except KVCacheError FreeKVCacheBlockQueue :=
  if p.refCnt block = 0 ∧ block ≠ nullBlock then p.freeBlockQueue.remove block
  else .ok p.freeBlockQueue

/-- `touch`. -/
def touch : List BlockId → BlockPool H → Except KVCacheError (BlockPool H)
  | [], p => .ok p
  | block :: blocks, p => do
    let queue ← p.queueWithout block
    touch blocks
      { p with
        freeBlockQueue := queue
        refCnt := Function.update p.refCnt block (p.refCnt block + 1) }

/-- The reference counts after every block of a list lost one reference. -/
def releaseAll (refCnt : BlockId → Int) (blocks : List BlockId) : BlockId → Int :=
  blocks.foldl (fun refCnt block => Function.update refCnt block (refCnt block - 1)) refCnt

/-- `free_blocks`: the blocks without references left are queued in the given order. -/
def freeBlocks (p : BlockPool H) (orderedBlocks : List BlockId) :
    Except KVCacheError (BlockPool H) := do
  let refCnt := releaseAll p.refCnt orderedBlocks
  let queue ← p.freeBlockQueue.appendN
    (orderedBlocks.filter fun block => refCnt block = 0 ∧ block ≠ nullBlock)
  pure { p with freeBlockQueue := queue, refCnt := refCnt }

/-- `evict_blocks`, on the ids in the order in which the set yields them. -/
def evictBlocks : List BlockId → BlockPool H → Except KVCacheError (BlockPool H)
  | [], p => .ok p
  | blockId :: blockIds, p => do
    ensure (blockId < p.numGpuBlocks) .invalidBlockId
    evictBlocks blockIds (p.maybeEvictCachedBlock blockId)

/-- `reset_prefix_cache`: refused while a block other than the null block is in use. -/
def resetPrefixCache (p : BlockPool H) : Bool × BlockPool H :=
  if (p.numGpuBlocks : Int) - p.getNumFreeBlocks ≠ 1 then (false, p)
  else (true,
    { p with
      cachedBlockHashToBlock := fun _ => none
      blockHash := fun b => if b < p.numGpuBlocks then none else p.blockHash b })

end BlockPool

end Vllm
