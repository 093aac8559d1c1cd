import Vllm.Library.Flattened
import Vllm.Library.SortedSearch
import Vllm.Worker.DataParallelBatch
import Vllm.Worker.GdnMetadata

/-!
# Micro-batches

A batch is cut into micro-batches at fixed token counts. The cut gives a slice of the tokens and
a slice of the requests for each micro-batch, and from them the attention metadata of each. A
request may be cut at its start, at its end, or at both.
-/

namespace Vllm.Worker

open Checked Flattened SortedSearch

/-- A slice of Python, from a start to before a stop. -/
structure Slice (N : Type) where
  start : N
  stop : N
  deriving DecidableEq, Repr

/-- The requests and the tokens of a micro-batch. -/
structure UBatchSlice where
  requestSlice : Slice Nat
  tokenSlice : Slice Int
  deriving DecidableEq, Repr

namespace UBatchSlice

/-- `is_empty`. -/
def isEmpty (s : UBatchSlice) : Bool :=
  s.requestSlice.start == s.requestSlice.stop || s.tokenSlice.start == s.tokenSlice.stop

/-- `num_tokens`. -/
def numTokens (s : UBatchSlice) : Int := s.tokenSlice.stop - s.tokenSlice.start

/-- The tokens of a micro-batch. -/
def tokens (s : UBatchSlice) : List Int :=
  (List.range s.numTokens.toNat).map fun i : Nat => s.tokenSlice.start + i

end UBatchSlice

/-- What stops the cutting. -/
inductive UBatchError where
  | indexError
  | zeroDivisionError
  /-- The largest entry of an empty tensor. -/
  | runtimeError
  | assertionError (message : String)
  /-- `Ubatch slice … is empty`. -/
  | emptySlice (ubatchSlice : UBatchSlice)
  /-- `query_start_loc must have at least 2 elements, got …`. -/
  | tooFewStarts (length : Nat)
  deriving DecidableEq, Repr

/-- `_pad_out_ubatch_slices`. -/
def padOutUbatchSlices (ubatchSlices : List UBatchSlice) (numTotalTokens : Int)
    (numReqsPadded : Nat) : List UBatchSlice :=
  match ubatchSlices.getLast? with
  | none => []
  | some lastSlice => ubatchSlices.dropLast ++
      [⟨⟨lastSlice.requestSlice.start, numReqsPadded⟩,
        ⟨lastSlice.tokenSlice.start, numTotalTokens⟩⟩]

/-- The micro-batches from a token on, which end at the given tokens. -/
def ubatchSlicesFrom (cuNumTokens : List Int) : Int → List Int → List UBatchSlice
  | _, [] => []
  | startToken, endToken :: points =>
    ⟨⟨searchsorted cuNumTokens startToken .right - 1, searchsorted cuNumTokens endToken .left⟩,
      ⟨startToken, endToken⟩⟩ :: ubatchSlicesFrom cuNumTokens endToken points

/-- How many tokens each micro-batch but the last has, where the caller names no number. -/
def splitPointOf (numTokensPadded numUbatches : Nat) : Option Nat → Except UBatchError Nat
  | some splitPoint => .ok splitPoint
  | none => do
    ensure (numUbatches ≠ 0) .zeroDivisionError
    pure (numTokensPadded / numUbatches)

/-- `maybe_create_ubatch_slices`: the micro-batches, and with the last one padded. -/
def maybeCreateUbatchSlices (shouldUbatch : Bool) (numScheduledTokens : List Int)
    (numTokensPadded numReqsPadded numUbatches : Nat) (splitPoint : Option Nat) :
    Except UBatchError (Option (List UBatchSlice) × Option (List UBatchSlice)) :=
  if shouldUbatch then do
    let splitPoint ← splitPointOf numTokensPadded numUbatches splitPoint
    let tokenSplitPoints :=
      (List.range' 1 (numUbatches - 1)).map fun i : Nat => (splitPoint : Int) * i
    let cuNumTokens := 0 :: cumsum 0 numScheduledTokens
    let allPoints := tokenSplitPoints ++ [cuNumTokens.getLastD 0]
    let ubatchSlices := ubatchSlicesFrom cuNumTokens 0 allPoints
    let ubatchSlicesPadded := padOutUbatchSlices ubatchSlices numTokensPadded numReqsPadded
    ensure ((ubatchSlicesPadded.map UBatchSlice.numTokens).sum = numTokensPadded)
      (.assertionError "")
    pure (some ubatchSlices, some ubatchSlicesPadded)
  else pure (none, none)

/-- The metadata with the copies for the host, the largest length and the slots of the tokens. -/
structure SplitMetadata extends CommonAttentionMetadata where
  queryStartLocCpu : List Int
  /-- `_seq_lens_cpu`. -/
  seqLensHost : Option (List Int)
  maxSeqLen : Int
  slotMapping : List Int

namespace SplitMetadata

/-- `seq_lens_cpu`. -/
def seqLensCpu (m : SplitMetadata) : List Int := m.seqLensHost.getD m.seqLens

/-- `num_computed_tokens_cpu`. -/
def numComputedTokens (m : SplitMetadata) : List Int :=
  m.numComputedTokensCpu.getD
    (m.seqLensCpu.zipWith (· - ·) (m.queryStartLocCpu.tail.zipWith (· - ·) m.queryStartLocCpu))

end SplitMetadata

/-- An entry of a tensor. -/
def entry (xs : List Int) (i : Nat) : Except UBatchError Int :=
  match xs[i]? with
  | some x => .ok x
  | none => .error .indexError

/-- `xs[start:stop]`. -/
def sliceOf {α : Type} (xs : List α) (start stop : Nat) : List α :=
  (xs.drop start).take (stop - start)

/-- `slice_query_start_locs`. -/
def sliceQueryStartLocs (queryStartLoc : List Int) (requestSlice : Slice Nat) :
    Except UBatchError (List Int) := do
  let first ← entry queryStartLoc requestSlice.start
  pure ((sliceOf queryStartLoc requestSlice.start (requestSlice.stop + 1)).map (· - first))

/-- `xs[1:] -= k`. -/
def subTail (k : Int) : List Int → List Int
  | [] => []
  | x :: xs => x :: xs.map (· - k)

/-- `xs[-1] -= k`. -/
def subLast (k : Int) (xs : List Int) : Except UBatchError (List Int) :=
  match xs.getLast? with
  | none => .error .indexError
  | some x => .ok (xs.dropLast ++ [x - k])

/-- `xs[-1] -= k` where the last request is cut. -/
def subLastIf (cut : Bool) (k : Int) (xs : List Int) : Except UBatchError (List Int) :=
  if cut then subLast k xs else .ok xs

/-- `xs.max()`. -/
def maxEntry (xs : List Int) : Except UBatchError Int :=
  match xs.max? with
  | some x => .ok x
  | none => .error .runtimeError

/-- `_make_metadata_with_slice`. -/
def makeMetadataWithSlice (ubatchSlice : UBatchSlice) (m : SplitMetadata) :
    Except UBatchError SplitMetadata := do
  ensure (ubatchSlice.isEmpty = false) (.emptySlice ubatchSlice)
  let requestSlice := ubatchSlice.requestSlice
  let tokenSlice := ubatchSlice.tokenSlice
  let startLocs := m.queryStartLocCpu
  let firstStart ← entry startLocs requestSlice.start
  ensure (firstStart ≤ tokenSlice.start)
    (.assertionError "Token slice start outside of first request")
  let firstStop ← entry startLocs (requestSlice.start + 1)
  ensure (tokenSlice.start < firstStop)
    (.assertionError "Token slice start outside of first request")
  let lastStop ← entry startLocs requestSlice.stop
  let splitsFirstRequest := decide (firstStart < tokenSlice.start)
  let splitsLastRequest := decide (tokenSlice.stop - 1 < lastStop - 1)
  let queryStartLocCpu ← sliceQueryStartLocs startLocs requestSlice
  let queryStartLoc ← sliceQueryStartLocs m.queryStartLoc requestSlice
  ensure (2 ≤ queryStartLoc.length) (.tooFewStarts queryStartLoc.length)
  let skippedFirst := tokenSlice.start - firstStart
  let queryStartLoc :=
    if splitsFirstRequest then subTail skippedFirst queryStartLoc else queryStartLoc
  let queryStartLocCpu :=
    if splitsFirstRequest then subTail skippedFirst queryStartLocCpu else queryStartLocCpu
  let seqLens := sliceOf m.seqLens requestSlice.start requestSlice.stop
  let seqLensCpu := sliceOf m.seqLensCpu requestSlice.start requestSlice.stop
  -- From the starts of the unsplit batch: the ones here may have been shifted.
  let skippedLast := lastStop - tokenSlice.stop
  let queryStartLoc ← subLastIf splitsLastRequest skippedLast queryStartLoc
  let queryStartLocCpu ← subLastIf splitsLastRequest skippedLast queryStartLocCpu
  let seqLens ← subLastIf splitsLastRequest skippedLast seqLens
  let seqLensCpu ← subLastIf splitsLastRequest skippedLast seqLensCpu
  let maxSeqLen ← maxEntry seqLensCpu
  let maxQueryLen ← maxEntry
    ((queryStartLocCpu.tail.zipWith (· - ·) queryStartLocCpu).map fun x => (x.natAbs : Int))
  pure
    { queryStartLoc := queryStartLoc
      queryStartLocCpu := queryStartLocCpu
      seqLens := seqLens
      numReqs := requestSlice.stop - requestSlice.start
      numActualTokens := (tokenSlice.stop - tokenSlice.start).toNat
      -- A dummy run has starts that are all zero.
      maxQueryLen := if maxQueryLen = 0 then m.maxQueryLen else maxQueryLen
      maxSeqLen := maxSeqLen
      blockTableTensor := sliceOf m.blockTableTensor requestSlice.start requestSlice.stop
      slotMapping := sliceOf m.slotMapping tokenSlice.start.toNat tokenSlice.stop.toNat
      seqLensHost := some seqLensCpu
      numComputedTokensCpu :=
        some (sliceOf m.numComputedTokens requestSlice.start requestSlice.stop) }

/-- `split_attn_metadata`. -/
def splitAttnMetadata (ubatchSlices : List UBatchSlice) (commonAttnMetadata : SplitMetadata) :
    Except UBatchError (List SplitMetadata) :=
  ubatchSlices.mapM fun ubatchSlice => makeMetadataWithSlice ubatchSlice commonAttnMetadata

end Vllm.Worker
