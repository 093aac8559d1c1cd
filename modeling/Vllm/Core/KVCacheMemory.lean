import Mathlib.Algebra.GroupWithZero.Nat
import Vllm.Core.ManagerSteps
import Vllm.Library.Bisection

/-!
# How much memory one request may need

The KV cache specifications of the layers, the size of their pages, and the memory that a
request of the configured maximum length may need, for one layer and for the groups of
layers that a worker holds. The maximum length is read from the shared configuration.
-/

namespace Vllm.Sizing

open Checked Bisection

/-- What stops the sizing of the KV cache. -/
inductive SizingError where
  /-- `assert self.page_size_padded >= page_size`. -/
  | paddedPageTooSmall
  /-- `assert decode_context_parallel_size == 1, "DCP not support sliding window."`. -/
  | dcpNotSupported
  /-- `assert len(page_sizes) == 1`. -/
  | pageSizesDiffer
  /-- A division by zero. -/
  | zeroDivision
  /-- `max` of an empty sequence. -/
  | emptyMax
  /-- A layer of a group without a specification of its own. -/
  | keyError (layerName : String)
  /-- The first entry of an empty list. -/
  | indexError
  /-- "No available memory for the cache blocks." -/
  | noAvailableMemory
  /-- "To serve at least one request with the models's max seq len ({max_model_len}),
  ({needed_memory} GiB KV cache is needed, which is larger than the available KV cache
  memory ({available_memory} GiB)." with the estimated maximum length. -/
  | notEnoughMemory (maxModelLen neededMemory availableMemory estimatedMaxLen : Int)
  /-- "Cannot auto-fit max_model_len: not enough GPU memory available to serve even a
  single token." -/
  | cannotAutoFit
  deriving Repr, DecidableEq

/-- `mamba_cache_mode` of the cache configuration. -/
inductive MambaCacheMode where
  /-- `"all"`. -/
  | all
  /-- `"align"`. -/
  | align
  /-- `"none"`. -/
  | none
  deriving Repr, DecidableEq

/-- The parts of the configuration that the sizing reads. -/
structure VllmConfig where
  /-- `model_config.max_model_len`, which the estimation overwrites and restores. -/
  maxModelLen : Int
  /-- `model_config.original_max_model_len`, −1 for auto-fit. -/
  originalMaxModelLen : Int
  /-- `parallel_config.decode_context_parallel_size`. -/
  decodeContextParallelSize : Nat
  /-- `parallel_config.prefill_context_parallel_size`. -/
  prefillContextParallelSize : Nat
  /-- `scheduler_config.max_num_batched_tokens`. -/
  maxNumBatchedTokens : Nat
  /-- `scheduler_config.max_num_encoder_input_tokens`. -/
  maxNumEncoderInputTokens : Nat
  /-- `cache_config.mamba_cache_mode`. -/
  mambaCacheMode : MambaCacheMode
  deriving Repr, DecidableEq

/-- The configuration with another maximum length. -/
def VllmConfig.withMaxModelLen (config : VllmConfig) (maxModelLen : Int) : VllmConfig :=
  { config with maxModelLen }

@[simp] theorem VllmConfig.withMaxModelLen_withMaxModelLen (config : VllmConfig) (l l' : Int) :
    (config.withMaxModelLen l).withMaxModelLen l' = config.withMaxModelLen l' := rfl

@[simp] theorem VllmConfig.withMaxModelLen_self (config : VllmConfig) :
    config.withMaxModelLen config.maxModelLen = config := rfl

/-- `AttentionSpec`, the fields that all attention layers share. -/
structure AttentionSpec where
  /-- `block_size`. -/
  blockSize : Nat
  /-- `num_kv_heads`. -/
  numKvHeads : Nat
  /-- `head_size`. -/
  headSize : Nat
  /-- `get_dtype_size(dtype)`. -/
  dtypeSize : Nat
  /-- `page_size_padded`. -/
  pageSizePadded : Option Nat := .none
  deriving Repr, DecidableEq

/-- `KVCacheSpec`, the cache format of one layer, by its class. -/
inductive KVCacheSpec where
  /-- `FullAttentionSpec`, with its `head_size_v`. -/
  | fullAttention (attention : AttentionSpec) (headSizeV : Nat)
  /-- `MLAAttentionSpec`, with its `cache_dtype_str`. -/
  | mlaAttention (attention : AttentionSpec) (cacheDtypeStr : Option String)
  /-- `SinkFullAttentionSpec`, with its `head_size_v`. -/
  | sinkFullAttention (attention : AttentionSpec) (headSizeV : Nat)
  /-- `ChunkedLocalAttentionSpec`, with its `attention_chunk_size`. -/
  | chunkedLocalAttention (attention : AttentionSpec) (attentionChunkSize : Nat)
  /-- `SlidingWindowSpec`, with its `sliding_window`. -/
  | slidingWindow (attention : AttentionSpec) (window : Nat)
  /-- `MambaSpec`, with its block size, the shape and the size of the type of each state,
  `page_size_padded` and `num_speculative_blocks`. -/
  | mamba (blockSize : Nat) (shapes : List (List Nat)) (dtypeSizes : List Nat)
      (pageSizePadded : Option Nat) (numSpeculativeBlocks : Nat)
  /-- `EncoderOnlyAttentionSpec`. -/
  | encoderOnlyAttention (attention : AttentionSpec)
  /-- `CrossAttentionSpec`. -/
  | crossAttention (attention : AttentionSpec)
  deriving Repr, DecidableEq

/-- `cdiv`, where a zero divisor raises. -/
def cdivOrRaise (a : Int) (b : Nat) : Except SizingError Int :=
  if b = 0 then .error .zeroDivision else .ok (cdiv a b)

/-- A page size after padding, which must not shrink it. -/
def paddedPageSize (realPageSize : Nat) : Option Nat → Except SizingError Nat
  | .none => .ok realPageSize
  | .some padded => do
    ensure (realPageSize ≤ padded) .paddedPageTooSmall
    pure padded

namespace AttentionSpec

/-- `AttentionSpec.real_page_size_bytes`. -/
def realPageSizeBytes (spec : AttentionSpec) : Nat :=
  2 * spec.blockSize * spec.numKvHeads * spec.headSize * spec.dtypeSize

/-- `FullAttentionSpec.real_page_size_bytes`. -/
def realPageSizeBytesFull (spec : AttentionSpec) (headSizeV : Nat) : Nat :=
  spec.blockSize * spec.numKvHeads * (spec.headSize + headSizeV) * spec.dtypeSize

/-- `MLAAttentionSpec.real_page_size_bytes`. -/
def realPageSizeBytesMla (spec : AttentionSpec) (cacheDtypeStr : Option String) : Nat :=
  if cacheDtypeStr = some "fp8_ds_mla" then
    spec.blockSize * 656
  else
    spec.blockSize * spec.numKvHeads * spec.headSize * spec.dtypeSize

end AttentionSpec

namespace KVCacheSpec

/-- `page_size_bytes`. -/
def pageSizeBytes : KVCacheSpec → Except SizingError Nat
  | fullAttention spec headSizeV | sinkFullAttention spec headSizeV =>
    paddedPageSize (spec.realPageSizeBytesFull headSizeV) spec.pageSizePadded
  | mlaAttention spec cacheDtypeStr =>
    paddedPageSize (spec.realPageSizeBytesMla cacheDtypeStr) spec.pageSizePadded
  | chunkedLocalAttention spec _ | slidingWindow spec _ | encoderOnlyAttention spec
  | crossAttention spec => paddedPageSize spec.realPageSizeBytes spec.pageSizePadded
  | mamba _ shapes dtypeSizes pageSizePadded _ =>
    paddedPageSize (List.zipWith (fun shape size => shape.prod * size) shapes dtypeSizes).sum
      pageSizePadded

/-- The tokens that a rank keeps of a request: its share, with context parallelism. -/
def tokensPerRank (worldSize : Nat) (maxModelLen : Int) : Int :=
  if 1 < worldSize then cdiv maxModelLen worldSize else maxModelLen

/-- `FullAttentionSpec.max_memory_usage_bytes`, which its subclasses inherit. -/
def maxMemoryUsageBytesFull (config : VllmConfig) (spec : KVCacheSpec) (blockSize : Nat) :
    Except SizingError Int := do
  let numTokens := tokensPerRank
    (config.decodeContextParallelSize * config.prefillContextParallelSize) config.maxModelLen
  let numBlocks ← cdivOrRaise numTokens blockSize
  let pageSize ← spec.pageSizeBytes
  .ok (numBlocks * pageSize)

/-- `max_memory_usage_bytes`. -/
def maxMemoryUsageBytes (config : VllmConfig) (spec : KVCacheSpec) : Except SizingError Int :=
  match spec with
  | fullAttention attention _ | mlaAttention attention _ | sinkFullAttention attention _ =>
    maxMemoryUsageBytesFull config spec attention.blockSize
  | chunkedLocalAttention attention attentionChunkSize => do
    -- at most one chunk of computed tokens and the newly scheduled ones
    let numTokens :=
      min (attentionChunkSize + config.maxNumBatchedTokens : Int) config.maxModelLen
    let numBlocks ← cdivOrRaise numTokens attention.blockSize
    let pageSize ← spec.pageSizeBytes
    .ok (numBlocks * pageSize)
  | slidingWindow attention window => do
    ensure (config.decodeContextParallelSize = 1) .dcpNotSupported
    let numTokens := min (window - 1 + config.maxNumBatchedTokens : Int) config.maxModelLen
    let numBlocks ← cdivOrRaise numTokens attention.blockSize
    let pageSize ← spec.pageSizeBytes
    -- the window may start in the middle of a block
    .ok ((numBlocks + 1) * pageSize)
  | mamba blockSize _ _ _ numSpeculativeBlocks =>
    match config.mambaCacheMode with
    | .all => do
      let numBlocks ← cdivOrRaise config.maxModelLen blockSize
      let pageSize ← spec.pageSizeBytes
      .ok (numBlocks * pageSize)
    | .align => do
      let pageSize ← spec.pageSizeBytes
      .ok (pageSize * (2 + numSpeculativeBlocks))
    | .none => do
      let pageSize ← spec.pageSizeBytes
      .ok (pageSize * (1 + numSpeculativeBlocks))
  | encoderOnlyAttention _ => .ok 0
  | crossAttention attention => do
    let numBlocks ← cdivOrRaise config.maxNumEncoderInputTokens attention.blockSize
    let pageSize ← spec.pageSizeBytes
    .ok (numBlocks * pageSize)

end KVCacheSpec

/-- The specification of a group of layers: one that all its layers share, or a
`UniformTypeKVCacheSpecs` with one for each layer. -/
inductive GroupSpec where
  /-- One specification for all layers. -/
  | layer (spec : KVCacheSpec)
  /-- `UniformTypeKVCacheSpecs`, with `kv_cache_specs`. -/
  | uniformType (kvCacheSpecs : List (String × KVCacheSpec))
  deriving Repr, DecidableEq

/-- `max` of a sequence of counts, which raises on an empty one. -/
def maxOrRaise (cost : KVCacheSpec → Except SizingError Int) :
    List KVCacheSpec → Except SizingError Int
  | [] => .error .emptyMax
  | [spec] => cost spec
  | spec :: specs => do
    let n ← cost spec
    let rest ← maxOrRaise cost specs
    .ok (max n rest)

namespace GroupSpec

/-- `page_size_bytes`. -/
def pageSizeBytes : GroupSpec → Except SizingError Nat
  | layer spec => spec.pageSizeBytes
  | uniformType kvCacheSpecs => do
    let sizes ← kvCacheSpecs.mapM fun entry => entry.2.pageSizeBytes
    pure sizes.sum

/-- `max_memory_usage_bytes`. -/
def maxMemoryUsageBytes (config : VllmConfig) : GroupSpec → Except SizingError Int
  | layer spec => spec.maxMemoryUsageBytes config
  | uniformType kvCacheSpecs => do
    let maxNumPages ← maxOrRaise (fun spec => do
      let memory ← spec.maxMemoryUsageBytes config
      let pageSize ← spec.pageSizeBytes
      cdivOrRaise memory pageSize) (kvCacheSpecs.map Prod.snd)
    let pageSize ← pageSizeBytes (uniformType kvCacheSpecs)
    .ok (maxNumPages * pageSize)

end GroupSpec

/-- `KVCacheGroupSpec`. -/
structure KVCacheGroupSpec where
  /-- `layer_names`. -/
  layerNames : List String
  /-- `kv_cache_spec`. -/
  kvCacheSpec : GroupSpec
  deriving Repr, DecidableEq

/-- `get_uniform_page_size`. -/
def getUniformPageSize (kvCacheSpecs : List GroupSpec) : Except SizingError Nat := do
  let pageSizes ← kvCacheSpecs.mapM GroupSpec.pageSizeBytes
  match pageSizes.dedup with
  | [pageSize] => pure pageSize
  | _ => .error .pageSizesDiffer

/-- `_max_memory_usage_bytes_from_groups`: a single group with a specification for each
layer adds up its layers; otherwise as many pools as the largest group has layers, each
shared by one layer of every group. -/
def maxMemoryUsageBytesFromGroups (config : VllmConfig) :
    List KVCacheGroupSpec → Except SizingError Int
  | [] => .ok 0
  | [⟨_, .uniformType perLayerSpecs⟩] =>
    total (· + ·) 0 (fun spec => spec.maxMemoryUsageBytes config) (perLayerSpecs.map Prod.snd)
  | group :: groups => do
    let groupSize := (groups.map fun g => g.layerNames.length).foldl max group.layerNames.length
    let pageSize ← getUniformPageSize ((group :: groups).map (·.kvCacheSpec))
    let memory ← group.kvCacheSpec.maxMemoryUsageBytes config
    let blocksNeeded ← cdivOrRaise memory pageSize
    .ok (groupSize * pageSize * blocksNeeded)

/-! ## Growth in the maximum length -/

/-- A number of blocks grows with the number of tokens. -/
theorem grows_cdivOrRaise (b : Nat) : Grows fun tokens => cdivOrRaise tokens b := by
  by_cases hb : b = 0
  · exact .inl ⟨.zeroDivision, fun _ => if_pos hb⟩
  · exact .inr ⟨fun tokens => cdiv tokens b, fun _ _ h => cdiv_mono (by omega) h,
      fun _ => if_neg hb⟩

/-- The memory of some pages grows with their number. -/
theorem grows_pages (pageSize : Except SizingError Nat) :
    Grows fun n => pageSize >>= fun size => .ok (n * size) :=
  Grows.after fun size _ =>
    grows_ok fun _ _ h => Int.mul_le_mul_of_nonneg_right h (Int.natCast_nonneg size)

/-- The memory of the blocks of a number of tokens that grows. -/
theorem grows_blocks {tokens : Int → Int} (ht : Monotone tokens) (b : Nat)
    (pageSize : Except SizingError Nat) :
    Grows fun l => cdivOrRaise (tokens l) b >>= fun n => pageSize >>= fun size =>
      .ok (n * size) :=
  (grows_ok ht).comp ((grows_cdivOrRaise b).comp (grows_pages pageSize))

/-- A rank's share grows with the request. -/
theorem KVCacheSpec.monotone_tokensPerRank (worldSize : Nat) :
    Monotone (tokensPerRank worldSize) := by
  intro l l' h
  simp only [tokensPerRank]
  split
  · exact cdiv_mono (by omega) h
  · exact h

/-- The memory of a layer grows with the maximum length. -/
theorem KVCacheSpec.grows_maxMemoryUsageBytes (config : VllmConfig) (spec : KVCacheSpec) :
    Grows fun l => spec.maxMemoryUsageBytes (config.withMaxModelLen l) := by
  have hfull (attention : AttentionSpec) : Grows fun l =>
      maxMemoryUsageBytesFull (config.withMaxModelLen l) spec attention.blockSize :=
    grows_blocks (monotone_tokensPerRank
      (config.decodeContextParallelSize * config.prefillContextParallelSize)) _ _
  cases spec with
  | fullAttention attention _ => exact hfull attention
  | mlaAttention attention _ => exact hfull attention
  | sinkFullAttention attention _ => exact hfull attention
  | chunkedLocalAttention attention chunk =>
    simp only [maxMemoryUsageBytes, VllmConfig.withMaxModelLen]
    exact grows_blocks (fun _ _ h => min_le_min_left _ h) _ _
  | slidingWindow attention window =>
    have hpages : Grows fun n => (slidingWindow attention window).pageSizeBytes >>= fun size =>
        .ok ((n + 1) * size) :=
      Grows.after fun size _ => grows_ok fun n n' h =>
        Int.mul_le_mul_of_nonneg_right (by omega) (Int.natCast_nonneg size)
    have hblocks := (grows_ok fun l l' (h : l ≤ l') =>
      min_le_min_left (window - 1 + config.maxNumBatchedTokens : Int) h).comp
        ((grows_cdivOrRaise attention.blockSize).comp hpages)
    change Grows fun l => ensure (config.decodeContextParallelSize = 1) .dcpNotSupported >>=
      fun _ => cdivOrRaise (min _ l) _ >>= fun n => _
    exact Grows.after fun _ _ => hblocks
  | mamba blockSize shapes dtypeSizes padded numSpeculativeBlocks =>
    cases hmode : config.mambaCacheMode with
    | all =>
      simp only [maxMemoryUsageBytes, VllmConfig.withMaxModelLen, hmode]
      exact grows_blocks monotone_id _ _
    | align =>
      simp only [maxMemoryUsageBytes, VllmConfig.withMaxModelLen, hmode]
      exact grows_const _
    | none =>
      simp only [maxMemoryUsageBytes, VllmConfig.withMaxModelLen, hmode]
      exact grows_const _
  | encoderOnlyAttention _ => exact grows_const _
  | crossAttention attention =>
    exact grows_const (maxMemoryUsageBytes config (crossAttention attention))

/-- A maximum of counts that grow. -/
private theorem grows_maxOrRaise {cost : Int → KVCacheSpec → Except SizingError Int}
    (h : ∀ spec, Grows fun l => cost l spec) (specs : List KVCacheSpec) :
    Grows fun l => maxOrRaise (cost l) specs := by
  induction specs with
  | nil => exact grows_const _
  | cons spec specs ih =>
    cases specs with
    | nil => exact h spec
    | cons spec' specs => exact (h spec).join ih max_le_max

/-- The memory of a group grows with the maximum length. -/
theorem GroupSpec.grows_maxMemoryUsageBytes (config : VllmConfig) (spec : GroupSpec) :
    Grows fun l => spec.maxMemoryUsageBytes (config.withMaxModelLen l) := by
  cases spec with
  | layer spec => exact spec.grows_maxMemoryUsageBytes config
  | uniformType kvCacheSpecs =>
    refine (grows_maxOrRaise (fun spec => ?_) _).comp (grows_pages _)
    exact (spec.grows_maxMemoryUsageBytes config).comp
      (Grows.after fun pageSize _ => grows_cdivOrRaise pageSize)

/-- The memory of a worker's groups grows with the maximum length. -/
theorem grows_maxMemoryUsageBytesFromGroups (config : VllmConfig)
    (groups : List KVCacheGroupSpec) :
    Grows fun l => maxMemoryUsageBytesFromGroups (config.withMaxModelLen l) groups := by
  unfold maxMemoryUsageBytesFromGroups
  split
  · exact grows_const _
  · exact Grows.total Int.add_le_add fun spec _ => spec.grows_maxMemoryUsageBytes config
  · next group groups _ =>
    refine Grows.after fun pageSize _ => ?_
    have hmemory := group.kvCacheSpec.grows_maxMemoryUsageBytes config
    refine hmemory.comp ((grows_cdivOrRaise pageSize).comp (grows_ok fun n n' h => ?_))
    exact Int.mul_le_mul_of_nonneg_left h (Int.mul_nonneg (by omega) (by omega))

end Vllm.Sizing
