import Vllm.Worker.GdnMetadata

/-!
# The tokens of gated delta net layers

Where full CUDA graphs are used, the builder copies the metadata of a batch without prefills into
persistent buffers, which are longer than the batch. The layer takes the rows of the two sides of
the batch apart, and merges what the kernels return for them.
-/

namespace Vllm.Worker

open Checked

/-! ## Persistent buffers -/

/-- What the builder reads of the compilation settings. -/
structure CudagraphConfig where
  useFullCudaGraph : Bool
  decodeCudagraphMaxBs : Nat
  deriving DecidableEq, Repr

/-- The first entries copied into a buffer, which is filled behind them up to a size. -/
def padded {α : Type} (entries : List α) (count size : Nat) (pad : α) : List α :=
  (entries.take count ++ List.replicate size pad).take size

/-- `PAD_SLOT_ID`. -/
def padSlotId : Int := -1

/-- The copies for a batch of speculative sequences only. -/
def copySpecBuffers (c : GDNConfig) (g : CudagraphConfig) (md : GDNAttentionMetadata) :
    Except GDNError GDNAttentionMetadata :=
  if g.useFullCudaGraph = true ∧ md.numPrefills = 0 ∧ md.numDecodes = 0 ∧
      md.numSpecDecodes ≤ g.decodeCudagraphMaxBs ∧
      md.numSpecDecodeTokens ≤ g.decodeCudagraphMaxBs then
    match md.specSequenceMasks, md.specStateIndicesTensor, md.specQueryStartLoc,
      md.numAcceptedTokens with
    | some masks, some stateIndices, some queryStartLoc, some accepted =>
      let size := min md.numActualTokens g.decodeCudagraphMaxBs
      .ok { md with
        specStateIndicesTensor := some (padded stateIndices md.numSpecDecodes size
          (List.replicate (c.numSpec + 1) padSlotId))
        specSequenceMasks := some (padded masks md.numSpecDecodes size false)
        specQueryStartLoc := some (padded queryStartLoc (md.numSpecDecodes + 1)
          (min (md.numActualTokens + 1) (g.decodeCudagraphMaxBs + 1))
          (queryStartLoc.getLast?.getD 0))
        numAcceptedTokens := some (padded accepted md.numSpecDecodes size 1) }
    | _, _, _, _ => .error .missingMetadata
  else .ok md

/-- The copies for a batch of decodes only. -/
def copyDecodeBuffers (g : CudagraphConfig) (md : GDNAttentionMetadata) :
    Except GDNError GDNAttentionMetadata :=
  if g.useFullCudaGraph = true ∧ md.numPrefills = 0 ∧ md.numSpecDecodes = 0 ∧
      md.numDecodes ≤ g.decodeCudagraphMaxBs then
    match md.nonSpecStateIndicesTensor, md.nonSpecQueryStartLoc with
    | some stateIndices, some queryStartLoc =>
      .ok { md with
        nonSpecStateIndicesTensor := some (padded stateIndices md.numDecodes
          (min md.numActualTokens g.decodeCudagraphMaxBs) padSlotId)
        nonSpecQueryStartLoc := some (padded queryStartLoc (md.numDecodes + 1)
          (min (md.numActualTokens + 1) (g.decodeCudagraphMaxBs + 1))
          (queryStartLoc.getLast?.getD 0)) }
    | _, _ => .error .missingMetadata
  else .ok md

/-- `GDNAttentionMetadataBuilder.build` with the copies for CUDA graphs. -/
def buildForGraphs (c : GDNConfig) (g : CudagraphConfig) (m : CommonAttentionMetadata)
    (numAcceptedTokens : Option (List Int)) (numDecodeDraftTokensCpu : Option (List Int)) :
    Except GDNError GDNAttentionMetadata := do
  let md ← build c m numAcceptedTokens numDecodeDraftTokensCpu
  let md ← copySpecBuffers c g md
  copyDecodeBuffers g md

/-! ## The layer -/

variable {α β : Type}

/-- `index_select`. -/
def indexSelect (rows : List α) (index : List Nat) : Except GDNError (List α) :=
  index.mapM fun i =>
    match rows[i]? with
    | some row => .ok row
    | none => .error .indexOutOfRange

/-- `index_copy_`. -/
def indexCopy : List (Option α) → List Nat → List α → Except GDNError (List (Option α))
  | out, i :: index, row :: rows =>
    if i < out.length then indexCopy (out.set i (some row)) index rows
    else .error .indexOutOfRange
  | out, [], [] => .ok out
  | _, _, _ => .error .indexOutOfRange

/-- The rows of the two sides in `_forward_core`. -/
def selectTokens (md : GDNAttentionMetadata) (mixedQkv : List α) :
    Except GDNError (Option (List α) × Option (List α)) :=
  let rows := mixedQkv.take md.numActualTokens
  match md.specSequenceMasks with
  | none => .ok (none, some rows)
  | some _ =>
    if md.numPrefills = 0 ∧ md.numDecodes = 0 then .ok (some rows, none)
    else
      match md.specTokenIndx, md.nonSpecTokenIndx with
      | some specIndex, some nonSpecIndex => do
        let spec ← indexSelect rows specIndex
        let nonSpec ← indexSelect rows nonSpecIndex
        pure (some spec, some nonSpec)
      | _, _ => .error .missingMetadata

/-- The end of `_forward_core`: the rows that the kernels return are merged. A row that is not
written is `none`. -/
def mergeOutputs (md : GDNAttentionMetadata)
    (coreAttnOutSpec coreAttnOutNonSpec : Option (List β)) :
    Except GDNError (List (Option β)) :=
  match md.specSequenceMasks, coreAttnOutSpec, coreAttnOutNonSpec with
  | some _, some spec, some nonSpec =>
    match md.specTokenIndx, md.nonSpecTokenIndx with
    | some specIndex, some nonSpecIndex => do
      let merged ← indexCopy (List.replicate md.numActualTokens none) specIndex spec
      indexCopy merged nonSpecIndex nonSpec
    | _, _ => .error .missingMetadata
  | some _, some spec, none => .ok (spec.map some)
  | none, _, some nonSpec => .ok (nonSpec.map some)
  | _, _, _ => .error .missingMetadata

end Vllm.Worker
