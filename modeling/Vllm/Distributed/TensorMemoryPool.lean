import Mathlib.Data.Nat.Size
import Vllm.Library.DictOrder

/-!
# The pool of pinned memory

A buddy system over one region of memory: the free blocks are listed for each size, and the
allocated ones by address. A call that fails leaves the changes that were made before the failure.
-/

namespace Vllm.Distributed

/-- What the pool raises. -/
inductive PoolError where
  /-- Block sizes must be positive. -/
  | sizesNotPositive
  /-- Max block size must be greater than min block size. -/
  | maxBelowMin
  /-- Allocation size must be positive. -/
  | allocationNotPositive
  /-- Requested size exceeds maximum block size. -/
  | exceedsMaximum
  /-- Insufficient memory. -/
  | insufficientMemory
  /-- Invalid address to free. -/
  | invalidAddress
  | keyError
  deriving DecidableEq, Repr

/-- `MemoryBlock`. -/
structure MemoryBlock where
  size : Nat
  addr : Int
  deriving DecidableEq, Repr

/-- `TensorMemoryPool`, without the tensor of the region. -/
structure TensorMemoryPool where
  maxBlockSize : Nat
  minBlockSize : Nat
  freeLists : Dict Nat (Dict Int MemoryBlock)
  allocatedBlocks : Dict Int MemoryBlock
  baseAddress : Int

/-- `_round_to_power_of_two`. -/
def roundToPowerOfTwo (size : Nat) : Nat := 2 ^ Nat.size (size - 1)

namespace TensorMemoryPool

/-- `_initialize_free_lists`. -/
def initializeFreeLists (minBlockSize size : Nat) (freeLists : Dict Nat (Dict Int MemoryBlock)) :
    Dict Nat (Dict Int MemoryBlock) :=
  -- the least size is positive
  if h : minBlockSize ≤ size ∧ 0 < size then
    initializeFreeLists minBlockSize (size / 2) (freeLists.insert size Dict.empty)
  else freeLists
termination_by size
decreasing_by exact Nat.div_lt_self h.2 (Nat.lt_succ_self 1)

/-- Enter a block into its free list. -/
def enterFree (pool : TensorMemoryPool) (size : Nat) (block : MemoryBlock) :
    Except PoolError Unit × TensorMemoryPool :=
  match pool.freeLists.get? size with
  | none => (.error .keyError, pool)
  | some list =>
    (.ok (), { pool with freeLists := pool.freeLists.insert size (list.insert block.addr block) })

/-- `__init__`, for a region at an address. -/
def init (maxBlockSize minBlockSize : Int) (baseAddress : Int) :
    Except PoolError TensorMemoryPool :=
  if maxBlockSize ≤ 0 ∨ minBlockSize ≤ 0 then .error .sizesNotPositive
  else if maxBlockSize < minBlockSize then .error .maxBelowMin
  else
    let maxSize := roundToPowerOfTwo maxBlockSize.toNat
    let minSize := roundToPowerOfTwo minBlockSize.toNat
    let pool : TensorMemoryPool :=
      { maxBlockSize := maxSize
        minBlockSize := minSize
        freeLists := initializeFreeLists minSize maxSize Dict.empty
        allocatedBlocks := Dict.empty
        baseAddress }
    match pool.enterFree maxSize ⟨maxSize, baseAddress⟩ with
    | (.ok _, pool) => .ok pool
    | (.error e, _) => .error e

/-- `_split_block`: the upper halves are entered into their free lists, and the block shrinks. -/
def splitBlock (pool : TensorMemoryPool) (block : MemoryBlock) (requiredSize : Nat) :
    Except PoolError MemoryBlock × TensorMemoryPool :=
  if h : requiredSize < block.size ∧ pool.minBlockSize ≤ block.size / 2 then
    let buddySize := block.size / 2
    match pool.enterFree buddySize ⟨buddySize, block.addr + buddySize⟩ with
    | (.error e, pool) => (.error e, pool)
    | (.ok _, pool) => splitBlock pool { block with size := buddySize } requiredSize
  else (.ok block, pool)
termination_by block.size
decreasing_by exact Nat.div_lt_self (Nat.zero_lt_of_lt h.1) (Nat.lt_succ_self 1)

/-- The loop of `allocate` over the sizes. -/
def allocateFrom (pool : TensorMemoryPool) (requiredSize currentSize : Nat) :
    Except PoolError Int × TensorMemoryPool :=
  -- sizes are positive
  if h : currentSize ≤ pool.maxBlockSize ∧ 0 < currentSize then
    match pool.freeLists.get? currentSize with
    | none => (.error .keyError, pool)
    | some list =>
      match list.popLast with
      | some ((_, block), rest) =>
        let popped := { pool with freeLists := pool.freeLists.insert currentSize rest }
        match popped.splitBlock block requiredSize with
        | (.error e, pool) => (.error e, pool)
        | (.ok block, pool) =>
          (.ok block.addr,
            { pool with allocatedBlocks := pool.allocatedBlocks.insert block.addr block })
      | none => allocateFrom pool requiredSize (currentSize * 2)
  else (.error .insufficientMemory, pool)
termination_by pool.maxBlockSize + 1 - currentSize
decreasing_by omega

/-- `allocate`. -/
def allocate (pool : TensorMemoryPool) (size : Int) : Except PoolError Int × TensorMemoryPool :=
  if size ≤ 0 then (.error .allocationNotPositive, pool)
  else
    let requiredSize := roundToPowerOfTwo (max size.toNat pool.minBlockSize)
    if pool.maxBlockSize < requiredSize then (.error .exceedsMaximum, pool)
    else pool.allocateFrom requiredSize requiredSize

/-- `MAX_MERGE_DEPTH`. -/
def maxMergeDepth : Nat := 30

/-- `_merge_buddies`, with as many merges left as the first argument says. -/
def mergeBuddies : Nat → TensorMemoryPool → MemoryBlock → Except PoolError Unit × TensorMemoryPool
  | 0, pool, block => pool.enterFree block.size block
  | depth + 1, pool, block =>
    let buddyOffset : Int :=
      if (block.addr - pool.baseAddress) % (2 * block.size) = 0 then block.size else -block.size
    match pool.freeLists.get? block.size with
    | none => (.error .keyError, pool)
    | some list =>
      match list.get? (block.addr + buddyOffset) with
      | none => pool.enterFree block.size block
      | some buddy =>
        match pool.freeLists.get? buddy.size with
        | none => (.error .keyError, pool)
        | some list =>
          if (list.get? buddy.addr).isSome then
            mergeBuddies depth
              { pool with freeLists := pool.freeLists.insert buddy.size (list.erase buddy.addr) }
              ⟨block.size * 2, min block.addr buddy.addr⟩
          else (.error .keyError, pool)

/-- `free`. -/
def free (pool : TensorMemoryPool) (addr : Int) : Except PoolError Unit × TensorMemoryPool :=
  match pool.allocatedBlocks.get? addr with
  | none => (.error .invalidAddress, pool)
  | some block =>
    mergeBuddies maxMergeDepth
      { pool with allocatedBlocks := pool.allocatedBlocks.erase addr } block

end TensorMemoryPool

/-- A call of the pool. -/
inductive PoolCall where
  | allocate (size : Int)
  | free (addr : Int)
  deriving DecidableEq, Repr

/-- The pool behind a call. -/
def TensorMemoryPool.after (pool : TensorMemoryPool) : PoolCall → TensorMemoryPool
  | .allocate size => (pool.allocate size).2
  | .free addr => (pool.free addr).2

end Vllm.Distributed
