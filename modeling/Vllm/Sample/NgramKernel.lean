import Vllm.Sample.NgramProposer

/-!
# The vectorised n-gram kernel

The kernel compares the end of each sequence of a batch with all windows of its row, once for each
length of an n-gram, and takes the longest length that matches. All rows have the same width; what
stands behind a sequence in its row is padding.
-/

namespace Vllm.Sample

open Checked

/-- One row of the batch: the tokens, how many of them are not padding, and whether the request is
valid for speculative decoding. -/
structure PaddedRow (width : Nat) where
  tokenIds : List Int
  numTokens : Nat
  mask : Bool
  length_eq : tokenIds.length = width
  numTokens_le : numTokens ≤ width

/-- The sequence of a row. -/
def PaddedRow.sequence {width : Nat} (row : PaddedRow width) : List Int :=
  row.tokenIds.take row.numTokens

/-- `torch.argmax`, which returns the first index of the maximum. -/
def argmax (values : List Int) : Nat :=
  values.findIdx fun v => values.all (· ≤ v)

/-- `Tensor.int` of a mask. -/
def maskInt (mask : List Bool) : List Int :=
  mask.map fun b => if b then 1 else 0

/-- One row of `torch.gather`. -/
def gatherTokens (tokenIds : List Int) (indices : List Nat) : Except NgramError (List Int) :=
  indices.mapM fun i =>
    match tokenIds[i]? with
    | some token => .ok token
    | none => .error .indexOutOfRange

/-- The windows of one row in `unfold`. -/
def unfoldWindows (tokenIds : List Int) (size : Nat) : List (List Int) :=
  (List.range (tokenIds.length - size + 1)).map fun p => (tokenIds.drop p).take size

/-- `final_matches` of one row: the windows that match and leave room for a draft. -/
def finalMatches (tokenIds suffix : List Int) (seqLength ngramLen : Nat) : List Bool :=
  (unfoldWindows tokenIds ngramLen).zipIdx.map fun (window, p) =>
    decide (window = suffix ∧ (p : Int) ≤ seqLength - ngramLen - 1)

/-- One entry of `first_match_positions`, or `-1`. -/
def firstMatchPosition (tokenIds : List Int) (seqLength ngramLen : Nat) :
    Except NgramError Int := do
  let suffixIndices := (List.range ngramLen).map fun j : Nat =>
    ((seqLength : Int) - ngramLen + j).toNat
  let suffix ← gatherTokens tokenIds suffixIndices
  let matched := finalMatches tokenIds suffix seqLength ngramLen
  let firstMatchIdx := argmax (maskInt matched)
  match matched[firstMatchIdx]? with
  | some hasMatch => pure (if hasMatch then firstMatchIdx else -1)
  | none => .error .indexOutOfRange

/-- The tokens behind the best match, or `-1` behind the end of the sequence and without a
match. -/
def draftsBehind (tokenIds : List Int) (seqLength numDraftTokens : Nat) (bestMatchPos : Int)
    (bestNgramLength : Nat) : Except NgramError (List Int) := do
  let draftStart : Int := if 0 ≤ bestMatchPos then bestMatchPos + bestNgramLength else 0
  let tokensAvailable := (seqLength : Int) - draftStart
  let draftIndices := (List.range numDraftTokens).map fun j : Nat =>
    (min (draftStart + j) (tokenIds.length - 1)).toNat
  let draftTokens ← gatherTokens tokenIds draftIndices
  pure (draftTokens.zipIdx.map fun (token, j) =>
    if 0 ≤ bestMatchPos ∧ (j : Int) < tokensAvailable then token else -1)

/-- The drafts of one row in `_find_first_and_extract_all_n_parallel`, or `-1`. -/
def extractDrafts (tokenIds : List Int) (seqLength minNgramLen maxNgramLen numDraftTokens : Nat) :
    Except NgramError (List Int) := do
  let ngramLengths := List.range' minNgramLen (maxNgramLen + 1 - minNgramLen)
  let firstMatchPositions ← ngramLengths.mapM (firstMatchPosition tokenIds seqLength)
  let bestNgramIdx := ngramLengths.length - 1 -
    argmax (maskInt (firstMatchPositions.map fun p => decide (0 ≤ p)).reverse)
  match firstMatchPositions[bestNgramIdx]?, ngramLengths[bestNgramIdx]? with
  | some bestMatchPos, some bestNgramLength =>
    draftsBehind tokenIds seqLength numDraftTokens bestMatchPos bestNgramLength
  | _, _ => .error .indexOutOfRange

/-- `num_valid_draft_tokens` of one row: the sums of the valid ones reach their positions. -/
def numValidDraftTokens (draftTokens : List Int) : Nat :=
  let isValid := draftTokens.map fun token => decide (token ≠ -1)
  (List.range draftTokens.length).countP fun j => (isValid.take (j + 1)).count true = j + 1

/-- `NgramGPUKernel.forward`, with the rows of its results. -/
def kernelForward {width : Nat} (minN maxN k : Nat) (batch : List (PaddedRow width)) :
    Except NgramError (List (List Int × Nat)) := do
  -- each length takes the windows of all rows
  ensure ((List.range' minN (maxN + 1 - minN)).all (· ≤ width)) .windowTooWide
  batch.mapM fun row => do
    let results ← extractDrafts row.tokenIds row.numTokens minN maxN k
    let draftTokens := if row.mask then results else List.replicate k (-1)
    pure (draftTokens, numValidDraftTokens draftTokens)

end Vllm.Sample
