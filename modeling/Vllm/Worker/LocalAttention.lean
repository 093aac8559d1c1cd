import Vllm.Core.SingleTypeManager
import Vllm.Library.Flattened
import Vllm.Worker.GdnMetadata

/-!
# Virtual batches for chunked local attention

Attention within chunks of a sequence is computed as plain causal attention over virtual
requests, one for each chunk that a request has query tokens in. Their lengths and block tables
are computed on arrays that hold all virtual requests of the batch, one request behind the other.
-/

namespace Vllm.Worker

open Checked Flattened

/-- What stops the builder of virtual batches. -/
inductive LocalBatchError where
  | indexError
  | zeroDivisionError
  | assertionError (message : String)
  deriving DecidableEq, Repr

/-- The metadata with its largest sequence length. -/
structure LocalMetadata extends CommonAttentionMetadata where
  maxSeqLen : Int

/-- An index into a tensor's dimension; negative ones count from the end. -/
def atIndex {α : Type} (xs : List α) (i : Int) : Except LocalBatchError α :=
  match xs[(if i < 0 then i + xs.length else i).toNat]? with
  | some x => if -xs.length ≤ i then .ok x else .error .indexError
  | none => .error .indexError

/-- `block_table[batch_indices, block_indices].view(virtual_batches, -1)`. -/
def makeBlockTable (virtualBatches : Nat) (batchIndices blockIndices : List Int)
    (blockTable : List (List Int)) : Except LocalBatchError (List (List Int)) := do
  let entries ← (batchIndices.zip blockIndices).mapM fun e => do
    let row ← atIndex blockTable e.1
    atIndex row e.2
  pure (view virtualBatches entries)

/-- `make_local_attention_virtual_batches`. -/
def makeLocalAttentionVirtualBatches (attnChunkSize : Int) (m : CommonAttentionMetadata)
    (blockSize : Int) : Except LocalBatchError
      (LocalMetadata × (List (List Int) → Except LocalBatchError (List (List Int)))) := do
  let qSeqlens := m.queryLens
  let actualBatchSize := m.seqLens.length
  let qTokensInFirstBlock := m.seqLens.zipWith
    (fun seqLen q => min (attnChunkSize - (seqLen - q).fmod attnChunkSize) q) qSeqlens
  let tokensInLastBlock := m.seqLens.map fun seqLen =>
    attnChunkSize + seqLen.fmod (-attnChunkSize)
  let localBlocks := qSeqlens.zipWith (fun q first => 1 + cdiv (q - first) attnChunkSize)
    qTokensInFirstBlock
  let cuNumBlocks := cumsum 0 localBlocks
  match cuNumBlocks.getLast? with
  | none => .error .indexError
  | some virtualBatches => do
    let blockOffsets := repeatEach (cuNumBlocks.zipWith (· - ·) localBlocks) localBlocks
    let arange := ((List.range virtualBatches.toNat).map fun i : Nat => (i : Int)).zipWith
      (fun i offset => i - offset) blockOffsets
    let rarange := (repeatEach localBlocks localBlocks).zipWith (fun n i => n - i - 1) arange
    let seqlensQLocal := repeatEach (qSeqlens.zipWith (· - ·) qTokensInFirstBlock) localBlocks
    let seqlensQLocal := assignMask (arange.map fun i => decide (i = 0)) seqlensQLocal
      qTokensInFirstBlock
    let seqlensQLocal := seqlensQLocal.zipWith
      (fun q i => if 0 < i then min (q - attnChunkSize * (i - 1)) attnChunkSize else q) arange
    let cuSeqlensQLocal := 0 :: cumsum 0 seqlensQLocal
    let seqlensKLocal := scatter (List.replicate virtualBatches.toNat attnChunkSize)
      (cuNumBlocks.map (· - 1)) tokensInLastBlock
    let numComputedTokensLocal := seqlensKLocal.zipWith (· - ·) seqlensQLocal
    let kSeqstartsAbsolute := (repeatEach m.seqLens localBlocks).zipWith (· - ·)
      (rarange.zipWith (fun i last => i * attnChunkSize + last)
        (repeatEach tokensInLastBlock localBlocks))
    let blockStarts := kSeqstartsAbsolute.map (·.fdiv blockSize)
    if blockSize = 0 then .error .zeroDivisionError
    ensure (attnChunkSize.fmod blockSize = 0) (.assertionError
      (s!"attn_chunk_size {attnChunkSize} is not divisible by block_size {blockSize}"))
    let pagesPerLocalBatch := attnChunkSize.fdiv blockSize
    let width : Int := (m.blockTableTensor.head?.map List.length).getD 0
    let blockIndices := (blockStarts.flatMap fun start =>
      (List.range pagesPerLocalBatch.toNat).map fun i : Nat => start + (i : Int)).map
        fun i => min i (width - 1)
    let batchIndices := repeatEach ((List.range actualBatchSize).map fun i : Nat => (i : Int))
      (localBlocks.map (· * pagesPerLocalBatch))
    let makeTable := makeBlockTable virtualBatches.toNat batchIndices blockIndices
    let blockTableLocal ← makeTable m.blockTableTensor
    pure ({
      queryStartLoc := cuSeqlensQLocal
      seqLens := seqlensKLocal
      numReqs := seqlensKLocal.length
      numActualTokens := m.numActualTokens
      maxQueryLen := (seqlensQLocal.max?).getD 0
      blockTableTensor := blockTableLocal
      numComputedTokensCpu := some numComputedTokensLocal
      maxSeqLen := (seqlensKLocal.max?).getD 0 }, makeTable)

/-- The batch of the source's example, with chunks of four tokens in blocks of two. -/
def exampleBatch : CommonAttentionMetadata where
  queryStartLoc := [0, 4, 14, 19]
  seqLens := [6, 17, 9]
  numReqs := 3
  numActualTokens := 19
  maxQueryLen := 10
  blockTableTensor := [[0, 1, 2, 3, 4, 5, 6, 7, 8, 9], [10, 11, 12, 13, 14, 15, 16, 17, 18, 19],
    [20, 21, 22, 23, 24, 25, 26, 27, 28, 29]]

example : ((makeLocalAttentionVirtualBatches 4 exampleBatch 2).map fun r =>
    (r.1.queryStartLoc, r.1.seqLens, r.1.blockTableTensor))
      = .ok ([0, 2, 4, 5, 9, 13, 14, 18, 19], [4, 2, 4, 4, 4, 1, 4, 1],
        [[0, 1], [2, 3], [12, 13], [14, 15], [16, 17], [18, 19], [22, 23], [24, 25]]) := by
  decide

end Vllm.Worker
