import Vllm.Library.Interleave
import Vllm.Worker.BatchRows

/-!
# Slots of tokens under context parallelism

The positions of a request are dealt out to the ranks in units, and every rank keeps its own
ones in the blocks of the request. A block may be split into kernel blocks; then the slot of a
position is told from kernel blocks, and the number of positions that a rank keeps is not.
-/

namespace Vllm.Worker

open Checked Interleave

/-! ## Settings -/

/-- What rejects block sizes. -/
inductive BlockSizeError where
  | valueError (message : String)
  | assertionError (message : String)
  | zeroDivisionError
  deriving DecidableEq, Repr

/-- The settings of `ParallelConfig` that `validate_block_size` reads. -/
structure ParallelConfig where
  decodeContextParallelSize : Nat
  dcpKvCacheInterleaveSize : Nat
  cpKvCacheInterleaveSize : Nat
  deriving DecidableEq, Repr

/-- The assertion on the interleave size. -/
def checkInterleaveSize (blockSize interleaveSize : Nat) : Except BlockSizeError Unit :=
  if interleaveSize ≤ blockSize then
    if interleaveSize = 0 then .error .zeroDivisionError
    else ensure (blockSize % interleaveSize = 0) (.assertionError (message interleaveSize))
  else .error (.assertionError (message interleaveSize))
where
  message (interleaveSize : Nat) : String :=
    s!"Block_size({blockSize}) should be greater than or equal to and divisible by " ++
      s!"cp_kv_cache_interleave_size ({interleaveSize})."

/-- `validate_block_size`; the limit on batched tokens is there in Mamba's align mode. -/
def validateBlockSize (blockSize : Nat) (maxNumBatchedTokens : Option Nat)
    (config : ParallelConfig) : Except BlockSizeError ParallelConfig := do
  let config :=
    if 1 < config.decodeContextParallelSize ∧ 1 < config.dcpKvCacheInterleaveSize ∧
        config.cpKvCacheInterleaveSize ≠ config.dcpKvCacheInterleaveSize then
      { config with cpKvCacheInterleaveSize := config.dcpKvCacheInterleaveSize }
    else config
  if 1 < config.decodeContextParallelSize then
    checkInterleaveSize blockSize config.cpKvCacheInterleaveSize
  match maxNumBatchedTokens with
  | some limit => ensure (blockSize ≤ limit) (.assertionError
      (s!"In Mamba cache align mode, block_size ({blockSize}) must be <= " ++
        s!"max_num_batched_tokens ({limit})."))
  | none => pure ()
  pure config

/-! ## Slots -/

/-- What `compute_slot_mapping` reads of a `BlockTable`. -/
structure SlotTable where
  /-- The size of a kernel block. -/
  blockSize : Nat
  maxNumBlocksPerReq : Nat
  table : BlockTable
  pcpWorldSize : Nat
  dcpWorldSize : Nat
  cpKvCacheInterleaveSize : Nat

/-- A rank in both groups of context parallelism. -/
structure CpRank where
  pcpRank : Nat
  dcpRank : Nat
  deriving DecidableEq, Repr

namespace SlotTable

/-- `BlockTable.__init__`. -/
def init (blockSize maxNumBlocksPerReq kernelBlockSize pcpWorldSize dcpWorldSize
    cpKvCacheInterleaveSize : Nat) : Except BlockSizeError SlotTable :=
  if kernelBlockSize = blockSize then
    .ok ⟨blockSize, maxNumBlocksPerReq, ⟨1, fun _ _ => 0, fun _ => 0⟩, pcpWorldSize, dcpWorldSize,
      cpKvCacheInterleaveSize⟩
  else if kernelBlockSize = 0 then .error .zeroDivisionError
  else if blockSize % kernelBlockSize ≠ 0 then
    .error (.valueError (s!"kernel_block_size {kernelBlockSize} must divide " ++
      s!"kv_manager_block_size size {blockSize} evenly"))
  else
    .ok ⟨kernelBlockSize, maxNumBlocksPerReq * (blockSize / kernelBlockSize),
      ⟨blockSize / kernelBlockSize, fun _ _ => 0, fun _ => 0⟩, pcpWorldSize, dcpWorldSize,
      cpKvCacheInterleaveSize⟩

variable (t : SlotTable) (rank : CpRank)

/-- `add_row`. -/
def addRow (blockIds : List Nat) (i : Nat) : SlotTable :=
  { t with table := t.table.addRow blockIds i }

/-- `total_cp_world_size`. -/
def totalCpWorldSize : Nat := t.pcpWorldSize * t.dcpWorldSize

/-- `total_cp_rank`. -/
def totalCpRank : Nat := rank.pcpRank * t.dcpWorldSize + rank.dcpRank

/-- `block_table.ravel()`. -/
def ravel (i : Nat) : Nat := t.table.table (i / t.maxNumBlocksPerReq) (i % t.maxNumBlocksPerReq)

/-- The entry of `slot_mapping` for a token. -/
def slot (reqIndex position : Nat) : Int :=
  if 1 < t.totalCpWorldSize then
    let virtualBlockSize := t.blockSize * t.totalCpWorldSize
    let blockNumber :=
      t.ravel (reqIndex * t.maxNumBlocksPerReq + position / virtualBlockSize)
    let virtualBlockOffset := position % virtualBlockSize
    let blockOffset :=
      virtualBlockOffset / (t.totalCpWorldSize * t.cpKvCacheInterleaveSize)
        * t.cpKvCacheInterleaveSize + virtualBlockOffset % t.cpKvCacheInterleaveSize
    if virtualBlockOffset / t.cpKvCacheInterleaveSize % t.totalCpWorldSize = t.totalCpRank rank
    then ((blockNumber * t.blockSize + blockOffset : Nat) : Int)
    else -1
  else
    let blockNumber := t.ravel (reqIndex * t.maxNumBlocksPerReq + position / t.blockSize)
    ((blockNumber * t.blockSize + position % t.blockSize : Nat) : Int)

/-- `compute_slot_mapping`. -/
def computeSlotMapping (reqIndices positions : List Nat) : List Int :=
  reqIndices.zipWith (t.slot rank) positions

end SlotTable

/-! ## Local lengths -/

/-- `torch.clip`. -/
def clip (x low high : Int) : Int := min (max x low) high

/-- An entry of `get_dcp_local_seq_lens`. -/
def dcpLocalSeqLen (dcpSize interleaveSize : Nat) (seqLen rank : Nat) : Int :=
  let base : Int := (seqLen / interleaveSize / dcpSize * interleaveSize : Nat)
  let remainder : Int := seqLen - base * dcpSize
  base + clip (remainder - rank * interleaveSize) 0 interleaveSize

/-- `get_dcp_local_seq_lens`: a row for each request, with an entry for the rank or for all. -/
def getDcpLocalSeqLens (seqLens : List Nat) (dcpSize : Nat) (dcpRank : Option Nat)
    (interleaveSize : Nat) : List (List Int) :=
  let rankOffsets := match dcpRank with
    | none => List.range dcpSize
    | some rank => [rank]
  seqLens.map fun seqLen => rankOffsets.map (dcpLocalSeqLen dcpSize interleaveSize seqLen)

/-- The local length counts the positions of a rank. -/
theorem dcpLocalSeqLen_eq (dcpSize interleaveSize seqLen rank : Nat) :
    dcpLocalSeqLen dcpSize interleaveSize seqLen rank
      = localCount dcpSize interleaveSize rank seqLen := by
  have hle : seqLen / interleaveSize / dcpSize * interleaveSize * dcpSize ≤ seqLen := by
    rw [Nat.mul_right_comm]
    exact (Nat.mul_le_mul_right _ (Nat.div_mul_le_self _ _)).trans (Nat.div_mul_le_self _ _)
  simp only [dcpLocalSeqLen, localCount, clip]
  generalize seqLen / interleaveSize / dcpSize * interleaveSize = base at hle ⊢
  rw [← Int.natCast_mul, ← Int.natCast_mul]
  generalize base * dcpSize = whole at hle ⊢
  generalize rank * interleaveSize = start
  omega

end Vllm.Worker
