import Vllm.Core.BlockHasher
import Vllm.Core.PoolInvariant
import Vllm.Library.Checked
import Mathlib.Data.Finset.Basic

/-!
# KV cache events

With events enabled the pool queues an event for every change of its hash index, and an
external router keeps a mirror of the index from them. An event names a hash, not a
block: when one of two blocks with the same hash is evicted the router forgets a hash
that still hits. And where a range of blocks contains null blocks, the hashes of the
event skip them while its tokens do not.
-/

namespace Vllm

open Checked LinkedList

/-- `MEDIUM_GPU`. -/
def mediumGpu : String := "GPU"

/-- The fields of `BlockStored`; `E` is the type of external block hashes. -/
structure BlockStored (E : Type) where
  blockHashes : List E
  parentBlockHash : Option E
  tokenIds : List TokenId
  blockSize : Nat
  loraId : Option Nat
  medium : String
  loraName : Option String
  extraKeys : Option (List (Option (List ExtraKey)))
  deriving DecidableEq, Repr

/-- The events of the pool. -/
inductive KVCacheEvent (E : Type) where
  | blockStored (event : BlockStored E)
  | blockRemoved (blockHashes : List E) (medium : String)
  | allBlocksCleared
  deriving DecidableEq, Repr

/-- What the events depend on besides the pool: `maybe_convert_block_hash`, which keeps a
hash or its last 64 bits, and the digests among the extra keys. -/
structure EventEnv (H E : Type) extends HashEnv H where
  maybeConvertBlockHash : List H → E

/-- A pool with its event queue. -/
structure EventPool (H E : Type) extends BlockPool H where
  enableKvCacheEvents : Bool
  kvEventQueue : List (KVCacheEvent E)

variable {H E : Type} [DecidableEq H]

namespace EventPool

/-- `BlockPool.__init__`. -/
def init (numGpuBlocks : Nat) (enableCaching : Bool) (hashBlockSize : Nat)
    (enableKvCacheEvents : Bool) : Except KVCacheError (EventPool H E) := do
  let pool ← BlockPool.init numGpuBlocks enableCaching hashBlockSize
  pure { toBlockPool := pool, enableKvCacheEvents, kvEventQueue := [] }

/-- Queue an event if events are enabled. -/
def emit (s : EventPool H E) (event : KVCacheEvent E) : EventPool H E :=
  if s.enableKvCacheEvents then { s with kvEventQueue := s.kvEventQueue ++ [event] } else s

/-- The hashes that the loop of `cache_full_blocks` appends to `new_hashes`: those of the
blocks that are not null, the first block having index `idx` in its request. -/
def newHashes (env : EventEnv H E) (blockHashes : List H) (scaleFactor : Nat) :
    Nat → List BlockId → List E
  | _, [] => []
  | idx, block :: blocks =>
    if block = nullBlock then newHashes env blockHashes scaleFactor (idx + 1) blocks
    else (BlockPool.mergedHash blockHashes scaleFactor idx).toList.map env.maybeConvertBlockHash ++
      newHashes env blockHashes scaleFactor (idx + 1) blocks

/-- The loop over `range(num_cached_blocks, num_full_blocks)` that collects the extra keys
of the blocks that are not null. -/
def extraKeysLoop (env : EventEnv H E) (request : Request H) (blocks : List BlockId)
    (blockSize : Nat) : List Nat → Int → Except KVCacheError (List (Option (List ExtraKey)))
  | [], _ => .ok []
  | i :: indices, currMmIdx =>
    match blocks[i]? with
    | none => .error .blockIndexOutOfRange
    | some block =>
      if block = nullBlock then extraKeysLoop env request blocks blockSize indices currMmIdx
      else do
        let blockStart := i * blockSize
        let blockEnd := blockStart + blockSize
        let keys := generateBlockHashExtraKeys env.toHashEnv request blockStart blockEnd currMmIdx
        let rest ← extraKeysLoop env request blocks blockSize indices keys.2
        pure (keys.1 :: rest)

/-- The event of `cache_full_blocks`. -/
def storedEvent (env : EventEnv H E) (s : EventPool H E) (request : Request H)
    (blocks : List BlockId) (numCachedBlocks numFullBlocks blockSize : Nat) :
    Except KVCacheError (BlockStored E) := do
  let scaleFactor := blockSize / s.hashBlockSize
  let extraKeysList ← extraKeysLoop env request blocks blockSize
    (List.range' numCachedBlocks (numFullBlocks - numCachedBlocks)) 0
  pure
    { blockHashes := newHashes env request.blockHashes scaleFactor numCachedBlocks
        ((blocks.take numFullBlocks).drop numCachedBlocks)
      parentBlockHash :=
        if numCachedBlocks = 0 then none
        else (BlockPool.mergedHash request.blockHashes scaleFactor (numCachedBlocks - 1)).map
          env.maybeConvertBlockHash
      tokenIds := (request.allTokenIds.take (numFullBlocks * blockSize)).drop
        (numCachedBlocks * blockSize)
      blockSize := blockSize
      loraId := request.loraRequest.map (·.loraIntId)
      medium := mediumGpu
      loraName := request.loraRequest.map (·.loraName)
      extraKeys := if extraKeysList.isEmpty then none else some extraKeysList }

/-- `cache_full_blocks`. -/
def cacheFullBlocks (env : EventEnv H E) (s : EventPool H E) (request : Request H)
    (blocks : List BlockId) (numCachedBlocks numFullBlocks blockSize groupId : Nat) :
    Except KVCacheError (EventPool H E) :=
  if numFullBlocks ≤ numCachedBlocks then .ok s
  else do
    let pool ← s.toBlockPool.cacheFullBlocks request blocks numCachedBlocks numFullBlocks
      blockSize groupId
    if s.enableKvCacheEvents then
      let event ← storedEvent env s request blocks numCachedBlocks numFullBlocks blockSize
      pure { s with
        toBlockPool := pool
        kvEventQueue := s.kvEventQueue ++ [.blockStored event] }
    else pure { s with toBlockPool := pool }

/-- `_maybe_evict_cached_block`. -/
def maybeEvictCachedBlock (env : EventEnv H E) (s : EventPool H E) (block : BlockId) :
    EventPool H E :=
  match s.blockHash block with
  | none => s
  | some key =>
    match s.cachedBlockHashToBlock.pop key block with
    | (none, _) => s
    | (some _, cached) =>
      { s with
        cachedBlockHashToBlock := cached
        blockHash := Function.update s.blockHash block none }.emit
          (.blockRemoved [env.maybeConvertBlockHash key.blockHash] mediumGpu)

/-- A block about to be reused loses its hash. -/
def forReuse (env : EventEnv H E) (s : EventPool H E) (block : BlockId) : EventPool H E :=
  if s.enableCaching then s.maybeEvictCachedBlock env block else s

/-- The loop of `get_new_blocks` over the popped blocks. -/
def allocateLoop (env : EventEnv H E) :
    List BlockId → EventPool H E → Except KVCacheError (EventPool H E)
  | [], s => .ok s
  | block :: blocks, s => do
    let s := s.forReuse env block
    ensure (s.refCnt block = 0) .refCntNotZero
    allocateLoop env blocks
      { s with
        refCnt := Function.update s.refCnt block (s.refCnt block + 1)
        allocated := s.allocated ++ [block] }

/-- `get_new_blocks`. -/
def getNewBlocks (env : EventEnv H E) (s : EventPool H E) (numBlocks : Int) :
    Except KVCacheError (List BlockId × EventPool H E) := do
  ensure (numBlocks ≤ s.getNumFreeBlocks) .notEnoughFreeBlocks
  let (ret, queue) ← s.freeBlockQueue.popleftN numBlocks
  let s ← allocateLoop env ret { s with freeBlockQueue := queue }
  pure (ret, s)

/-- `touch`, which has no event. -/
def touch (s : EventPool H E) (blocks : List BlockId) : Except KVCacheError (EventPool H E) := do
  let pool ← s.toBlockPool.touch blocks
  pure { s with toBlockPool := pool }

/-- `free_blocks`, which has no event. -/
def freeBlocks (s : EventPool H E) (orderedBlocks : List BlockId) :
    Except KVCacheError (EventPool H E) := do
  let pool ← s.toBlockPool.freeBlocks orderedBlocks
  pure { s with toBlockPool := pool }

/-- `evict_blocks`, on the ids in the order in which the set yields them. -/
def evictBlocks (env : EventEnv H E) :
    List BlockId → EventPool H E → Except KVCacheError (EventPool H E)
  | [], s => .ok s
  | blockId :: blockIds, s => do
    ensure (blockId < s.numGpuBlocks) .invalidBlockId
    evictBlocks env blockIds (s.maybeEvictCachedBlock env blockId)

/-- `reset_prefix_cache`. -/
def resetPrefixCache (s : EventPool H E) : Bool × EventPool H E :=
  match s.toBlockPool.resetPrefixCache with
  | (false, pool) => (false, { s with toBlockPool := pool })
  | (true, pool) => (true, { s with toBlockPool := pool }.emit .allBlocksCleared)

/-- `take_events`. -/
def takeEvents (s : EventPool H E) : List (KVCacheEvent E) × EventPool H E :=
  if s.enableKvCacheEvents then (s.kvEventQueue, { s with kvEventQueue := [] }) else ([], s)

/-! ## The events leave the pool alone -/

omit [DecidableEq H] in
@[simp] theorem toBlockPool_emit (s : EventPool H E) (event : KVCacheEvent E) :
    (s.emit event).toBlockPool = s.toBlockPool := by
  unfold emit
  split <;> rfl

variable {env : EventEnv H E} {s s' : EventPool H E}

/-- Evicting a block is that of the pool. -/
private theorem toBlockPool_maybeEvictCachedBlock (block : BlockId) :
    (s.maybeEvictCachedBlock env block).toBlockPool =
      s.toBlockPool.maybeEvictCachedBlock block := by
  unfold maybeEvictCachedBlock BlockPool.maybeEvictCachedBlock
  cases hkey : s.blockHash block with
  | none => rfl
  | some key =>
    simp only
    cases hpop : s.cachedBlockHashToBlock.pop key block with
    | mk popped cached =>
      cases popped with
      | none => rfl
      | some found => exact toBlockPool_emit _ _

/-- Preparing a block for reuse is that of the pool. -/
theorem toBlockPool_forReuse (block : BlockId) :
    (s.forReuse env block).toBlockPool = s.toBlockPool.forReuse block := by
  unfold forReuse BlockPool.forReuse
  split
  · exact toBlockPool_maybeEvictCachedBlock block
  · rfl

end EventPool

end Vllm
