import Mathlib.Algebra.Ring.Int.Defs
import Vllm.Library.Checked
import Vllm.Library.Select

/-!
# The metadata of gated delta net layers

The builder splits a batch into speculative sequences, decodes and prefills, and lists
state indices, query starts and token positions for each side. For the prefill kernel it
says which sequences have an initial state, and, when the host has a copy of the computed
token counts, whether any or all of them do. The copies into persistent buffers for CUDA
graphs are left out, as they are made only without prefills, and so is the metadata of the
convolution kernel.
-/

namespace Vllm.Worker

open Checked Select

/-- What stops the builder or the layer. -/
inductive GDNError where
  /-- An index into a sequence or a table that is too short. -/
  | indexOutOfRange
  | noAcceptedTokens
  | decodesBesideSpecDecodes
  /-- The layer used metadata that was not built. -/
  | missingMetadata
  deriving DecidableEq, Repr

/-- The metadata common to all attention backends. The query starts are kept once for the host
and the device. -/
structure CommonAttentionMetadata where
  queryStartLoc : List Int
  seqLens : List Int
  numReqs : Nat
  numActualTokens : Nat
  maxQueryLen : Int
  blockTableTensor : List (List Int)
  /-- `_num_computed_tokens_cpu`. -/
  numComputedTokensCpu : Option (List Int) := none
  /-- `_num_computed_tokens_cache`. -/
  numComputedTokensCache : Option (List Int) := none

namespace CommonAttentionMetadata

/-- `naive_query_lens`. -/
def queryLens (m : CommonAttentionMetadata) : List Int :=
  m.queryStartLoc.tail.zipWith (· - ·) m.queryStartLoc

/-- `compute_num_computed_tokens`, on the device. -/
def computeNumComputedTokens (m : CommonAttentionMetadata) : List Int :=
  m.numComputedTokensCache.getD (m.seqLens.zipWith (· - ·) m.queryLens)

end CommonAttentionMetadata

/-- What the builder reads of the configuration. -/
structure GDNConfig where
  /-- `num_spec`. -/
  numSpec : Nat
  blockSize : Nat
  numSpeculativeBlocks : Nat
  /-- `mamba_cache_mode = "align"`. -/
  alignMode : Bool

/-- How many requests and tokens are decodes and prefills. -/
structure BatchSplit where
  numDecodes : Nat
  numPrefills : Nat
  numDecodeTokens : Int
  numPrefillTokens : Int
  deriving DecidableEq, Repr

/-- `split_decodes_and_prefills`, without `require_uniform`. -/
def splitDecodesAndPrefills (m : CommonAttentionMetadata) (decodeThreshold : Int) :
    Except GDNError BatchSplit :=
  if m.maxQueryLen ≤ decodeThreshold then .ok ⟨m.numReqs, 0, m.numActualTokens, 0⟩
  else match m.queryLens with
    | [] => .error .indexOutOfRange
    | first :: _ =>
      -- the first request is not a decode
      if decodeThreshold < first then .ok ⟨0, m.numReqs, 0, m.numActualTokens⟩
      else if m.queryLens.all (· ≤ decodeThreshold) then .ok ⟨m.numReqs, 0, m.numActualTokens, 0⟩
      else
        let firstPrefill := m.queryLens.findIdx (decodeThreshold < ·)
        match m.queryStartLoc[firstPrefill]? with
        | none => .error .indexOutOfRange
        | some numDecodeTokens => .ok ⟨firstPrefill, m.numReqs - firstPrefill, numDecodeTokens,
            m.numActualTokens - numDecodeTokens⟩

/-- One row of `torch.gather`. -/
def gatherRow (row : List Int) (start count : Nat) : Except GDNError (List Int) :=
  if start + count ≤ row.length then .ok ((row.drop start).take count)
  else .error .indexOutOfRange

/-- `mamba_get_block_table_tensor`. -/
def mambaGetBlockTableTensor (c : GDNConfig) (m : CommonAttentionMetadata) :
    Except GDNError (List (List Int)) :=
  if c.alignMode then
    -- requests of length zero start at index zero
    (m.blockTableTensor.zip m.seqLens).mapM fun (row, seqLen) =>
      gatherRow row (max ((seqLen - 1) / c.blockSize) 0).toNat (1 + c.numSpeculativeBlocks)
  else .ok m.blockTableTensor

/-- `GDNAttentionMetadata`. -/
structure GDNAttentionMetadata where
  numPrefills : Nat
  numPrefillTokens : Int
  numDecodes : Nat
  numDecodeTokens : Int
  numSpecDecodes : Nat
  numSpecDecodeTokens : Int
  numActualTokens : Nat
  hasInitialState : Option (List Bool)
  hasInitialStateAny : Option Bool
  hasInitialStateAll : Option Bool
  specQueryStartLoc : Option (List Int)
  nonSpecQueryStartLoc : Option (List Int)
  specStateIndicesTensor : Option (List (List Int))
  nonSpecStateIndicesTensor : Option (List Int)
  specSequenceMasks : Option (List Bool)
  specTokenIndx : Option (List Nat)
  nonSpecTokenIndx : Option (List Nat)
  numAcceptedTokens : Option (List Int)
  deriving DecidableEq, Repr

/-- `block_table_tensor[:, 0]`. -/
def firstColumn (blockTable : List (List Int)) : Except GDNError (List Int) :=
  blockTable.mapM fun row =>
    match row.head? with
    | some idx => .ok idx
    | none => .error .indexOutOfRange

/-- The mask of the speculative sequences, when there are draft tokens at all. -/
def specSequenceMasks (c : GDNConfig) (numDecodeDraftTokensCpu : Option (List Int)) :
    Option (List Bool) :=
  match numDecodeDraftTokensCpu with
  | none => none
  | some drafts =>
    if c.numSpec = 0 ∨ (drafts.filter (0 ≤ ·)).sum = 0 then none
    else
      let masks := drafts.map fun n => decide (0 ≤ n)
      if masks.count true = 0 then none else some masks

/-- The running sums, from zero on. -/
def startLocs (lens : List Int) : List Int := lens.scanl (· + ·) 0

/-- What the builder knows of the batch before it looks at initial states. -/
structure GDNLayout where
  split : BatchSplit
  numSpecDecodes : Nat := 0
  numSpecDecodeTokens : Int := 0
  specQueryStartLoc : Option (List Int) := none
  nonSpecQueryStartLoc : Option (List Int) := none
  specStateIndicesTensor : Option (List (List Int)) := none
  nonSpecStateIndicesTensor : Option (List Int) := none
  specTokenIndx : Option (List Nat) := none
  nonSpecTokenIndx : Option (List Nat) := none
  numAcceptedTokens : Option (List Int) := none

/-- The layout of a batch without speculative sequences. -/
def plainLayout (m : CommonAttentionMetadata) (blockTable : List (List Int)) :
    Except GDNError GDNLayout := do
  let split ← splitDecodesAndPrefills m 1
  let stateIndices ← firstColumn blockTable
  pure
    { split
      nonSpecQueryStartLoc := some m.queryStartLoc
      nonSpecStateIndicesTensor := some stateIndices }

/-- How the sequences that are not speculative are split. Decodes beside speculative sequences
count as prefills, and sequences of length zero as nothing. -/
def splitNonSpec (nonSpecQueryLens : List Int) (numSpecDecodes : Nat) : BatchSplit :=
  let numDecodes := nonSpecQueryLens.count 1
  let numZeroLen := nonSpecQueryLens.count 0
  let numPrefills := nonSpecQueryLens.length - numDecodes - numZeroLen
  let numPrefillTokens := nonSpecQueryLens.sum - numDecodes
  if 0 < numDecodes ∧ 0 < numSpecDecodes then
    ⟨0, numPrefills + numDecodes, 0, numPrefillTokens + numDecodes⟩
  else ⟨numDecodes, numPrefills, numDecodes, numPrefillTokens⟩

/-- The token positions of a stable sort by the mask of their sequence. -/
def sortedTokens (masks : List Bool) (queryLens : List Int) : List Nat :=
  let tokenMasks := (masks.zip queryLens).flatMap fun e => List.replicate e.2.toNat e.1
  select (complement tokenMasks) (List.range tokenMasks.length) ++
    select tokenMasks (List.range tokenMasks.length)

/-- The layout of a batch with speculative sequences. -/
def specLayout (c : GDNConfig) (m : CommonAttentionMetadata) (blockTable : List (List Int))
    (masks : List Bool) (numAcceptedTokens : Option (List Int)) : Except GDNError GDNLayout :=
  let numSpecDecodes := masks.count true
  let split := splitNonSpec (select (complement masks) m.queryLens) numSpecDecodes
  let numSpecDecodeTokens := m.queryLens.sum - split.numPrefillTokens - split.numDecodeTokens
  let specStateIndices := (select masks blockTable).map (List.take (c.numSpec + 1))
  if split.numPrefills = 0 ∧ split.numDecodes = 0 then do
    let specTokenSize := min ((numSpecDecodes * (c.numSpec + 1) : Nat) : Int)
      (m.queryStartLoc.getLast?.getD 0)
    ensure numAcceptedTokens.isSome .noAcceptedTokens
    pure
      { split, numSpecDecodes, numSpecDecodeTokens
        -- padded sequences stand at the back
        specQueryStartLoc := some (m.queryStartLoc.take (numSpecDecodes + 1))
        specStateIndicesTensor := some specStateIndices
        specTokenIndx := some (List.range specTokenSize.toNat)
        nonSpecTokenIndx := some []
        numAcceptedTokens := numAcceptedTokens.map (select masks) }
  else do
    let index := sortedTokens masks m.queryLens
    let numNonSpecTokens := (split.numPrefillTokens + split.numDecodeTokens).toNat
    let nonSpecStateIndices ← firstColumn (select (complement masks) blockTable)
    ensure numAcceptedTokens.isSome .noAcceptedTokens
    pure
      { split, numSpecDecodes, numSpecDecodeTokens
        specQueryStartLoc := some (startLocs (select masks m.queryLens))
        nonSpecQueryStartLoc := some (startLocs (select (complement masks) m.queryLens))
        specStateIndicesTensor := some specStateIndices
        nonSpecStateIndicesTensor := some nonSpecStateIndices
        specTokenIndx := some (index.drop numNonSpecTokens)
        nonSpecTokenIndx := some (index.take numNonSpecTokens)
        numAcceptedTokens := numAcceptedTokens.map (select masks) }

/-- The layout of a batch. -/
def layoutOf (c : GDNConfig) (m : CommonAttentionMetadata) (blockTable : List (List Int))
    (numAcceptedTokens : Option (List Int)) : Option (List Bool) → Except GDNError GDNLayout
  | none => plainLayout m blockTable
  | some masks => specLayout c m blockTable masks numAcceptedTokens

/-- Keep the sequences that are not speculative. -/
def nonSpec {α : Type} (masks : Option (List Bool)) (l : List α) : List α :=
  match masks with
  | none => l
  | some masks => select (complement masks) l

/-- `GDNAttentionMetadataBuilder.build`. -/
def build (c : GDNConfig) (m : CommonAttentionMetadata) (numAcceptedTokens : Option (List Int))
    (numDecodeDraftTokensCpu : Option (List Int)) : Except GDNError GDNAttentionMetadata := do
  let contextLens := m.computeNumComputedTokens
  let blockTable ← mambaGetBlockTableTensor c m
  let masks := specSequenceMasks c numDecodeDraftTokensCpu
  let layout ← layoutOf c m blockTable numAcceptedTokens masks
  let prefill := 0 < layout.split.numPrefills
  let contextLensCpu := (m.numComputedTokensCpu.map (nonSpec masks)).filter fun _ => prefill
  ensure (¬ (0 < layout.split.numDecodes ∧ 0 < layout.numSpecDecodes)) .decodesBesideSpecDecodes
  pure
    { numPrefills := layout.split.numPrefills
      numPrefillTokens := layout.split.numPrefillTokens
      numDecodes := layout.split.numDecodes
      numDecodeTokens := layout.split.numDecodeTokens
      numSpecDecodes := layout.numSpecDecodes
      numSpecDecodeTokens := layout.numSpecDecodeTokens
      numActualTokens := m.numActualTokens
      hasInitialState :=
        if prefill then some (nonSpec masks (contextLens.map fun n => decide (0 < n))) else none
      hasInitialStateAny := contextLensCpu.map (·.any (0 < ·))
      hasInitialStateAll := contextLensCpu.map (·.all (0 < ·))
      specQueryStartLoc := layout.specQueryStartLoc
      nonSpecQueryStartLoc := layout.nonSpecQueryStartLoc
      specStateIndicesTensor := layout.specStateIndicesTensor
      nonSpecStateIndicesTensor := layout.nonSpecStateIndicesTensor
      specSequenceMasks := masks
      specTokenIndx := layout.specTokenIndx
      nonSpecTokenIndx := layout.nonSpecTokenIndx
      numAcceptedTokens := layout.numAcceptedTokens }

end Vllm.Worker
