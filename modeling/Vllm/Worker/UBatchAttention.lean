import Mathlib.Algebra.Order.BigOperators.Group.List
import Vllm.Worker.UBatchSlices

/-!
# Attention of micro-batches

Each token of a micro-batch falls under a row of its own request, at the position it has in the
unsplit batch, and sees the same keys. The computed token counts are only sliced: the row of a
request whose start was cut off still has the count of the whole request.
-/

namespace Vllm.Worker

open Checked Flattened SortedSearch

/-- The scheduled requests of a batch, with their rows of the block table and the slots of the
tokens. -/
structure ScheduledBatch where
  numScheduledTokens : List Int
  numComputedTokens : List Int
  blockTable : List (List Int)
  slotMapping : List Int

namespace ScheduledBatch

variable (b : ScheduledBatch)

/-- Every request has a computed count, and at least one scheduled token. -/
structure Valid : Prop where
  pos : ∀ n ∈ b.numScheduledTokens, 1 ≤ n
  computed : b.numComputedTokens.length = b.numScheduledTokens.length

/-- How many tokens are scheduled before a request. -/
def startOf (i : Nat) : Int := (b.numScheduledTokens.take i).sum

/-- How many tokens are scheduled. -/
def numTokens : Nat := b.numScheduledTokens.sum.toNat

/-- `cu_num_tokens`. -/
def cuNumTokens : List Int := 0 :: cumsum 0 b.numScheduledTokens

/-- The metadata that the model runner builds for the batch. -/
def metadata : SplitMetadata where
  queryStartLoc := b.cuNumTokens
  queryStartLocCpu := b.cuNumTokens
  seqLens := b.numComputedTokens.zipWith (· + ·) b.numScheduledTokens
  seqLensHost := some (b.numComputedTokens.zipWith (· + ·) b.numScheduledTokens)
  numComputedTokensCpu := some b.numComputedTokens
  numReqs := b.numScheduledTokens.length
  numActualTokens := b.numTokens
  maxQueryLen := b.numScheduledTokens.foldl max 0
  maxSeqLen := (b.numComputedTokens.zipWith (· + ·) b.numScheduledTokens).foldl max 0
  blockTableTensor := b.blockTable
  slotMapping := b.slotMapping

end ScheduledBatch

/-! ## What a token sees -/

namespace SplitMetadata

/-- A query token falls under a row. -/
def Under (m : SplitMetadata) (row : Nat) (token : Int) : Prop :=
  ∃ start stop, m.queryStartLoc[row]? = some start ∧ m.queryStartLoc[row + 1]? = some stop ∧
    start ≤ token ∧ token < stop

/-- The position of a query token of a row in its sequence: the query is the sequence's end. -/
def position (m : SplitMetadata) (row : Nat) (token : Int) : Option Int := do
  let start ← m.queryStartLoc[row]?
  let stop ← m.queryStartLoc[row + 1]?
  let seqLen ← m.seqLens[row]?
  pure (seqLen - (stop - start) + (token - start))

/-- A query token of a row sees the key at a position. -/
def Sees (m : SplitMetadata) (row : Nat) (token key : Int) : Prop :=
  ∃ position seqLen, m.position row token = some position ∧ m.seqLens[row]? = some seqLen ∧
    0 ≤ key ∧ key ≤ position ∧ key < seqLen

/-- The computed count of each row is its sequence length less its query length. -/
def ComputedAgree (m : SplitMetadata) : Prop :=
  ∀ row start stop seqLen, m.queryStartLoc[row]? = some start →
    m.queryStartLoc[row + 1]? = some stop → m.seqLens[row]? = some seqLen →
      m.numComputedTokens[row]? = some (seqLen - (stop - start))

end SplitMetadata

/-- The tokens of a micro-batch attend to what they attend to in the unsplit batch. -/
structure KeepsTokens (b : ScheduledBatch) (s : UBatchSlice) (m : SplitMetadata) : Prop where
  under : ∀ token ∈ s.tokens, ∃ row, m.Under row (token - s.tokenSlice.start)
  request : ∀ token ∈ s.tokens, ∀ row i, m.Under row (token - s.tokenSlice.start) →
    b.metadata.Under i token → i = s.requestSlice.start + row
  position : ∀ token ∈ s.tokens, ∀ row i, m.Under row (token - s.tokenSlice.start) →
    b.metadata.Under i token → ∃ p, m.position row (token - s.tokenSlice.start) = some p ∧
      b.metadata.position i token = some p
  sees : ∀ token ∈ s.tokens, ∀ row i, m.Under row (token - s.tokenSlice.start) →
    b.metadata.Under i token → ∀ key,
      m.Sees row (token - s.tokenSlice.start) key ↔ b.metadata.Sees i token key
  blockTable : ∀ token ∈ s.tokens, ∀ row i, m.Under row (token - s.tokenSlice.start) →
    b.metadata.Under i token → m.blockTableTensor[row]? = b.blockTable[i]?
  slot : ∀ token ∈ s.tokens,
    m.slotMapping[(token - s.tokenSlice.start).toNat]? = b.slotMapping[token.toNat]?
  queryStartLocCpu : m.queryStartLocCpu = m.queryStartLoc
  seqLensCpu : m.seqLensCpu = m.seqLens

/-- A batch is cut without an error into micro-batches whose tokens are those of the batch in
order, whose tokens attend to what they did, and whose computed counts agree with the lengths. -/
def SplitsSoundly (b : ScheduledBatch) (numTokensPadded numReqsPadded numUbatches : Nat) : Prop :=
  ∃ ubatchSlices padded metadata,
    maybeCreateUbatchSlices true b.numScheduledTokens numTokensPadded numReqsPadded numUbatches
      none = .ok (some ubatchSlices, some padded) ∧
    splitAttnMetadata ubatchSlices b.metadata = .ok metadata ∧
    ubatchSlices.flatMap UBatchSlice.tokens
      = (List.range b.numTokens).map (fun i : Nat => (i : Int)) ∧
    List.Forall₂ (KeepsTokens b) ubatchSlices metadata ∧
    ∀ m ∈ metadata, m.ComputedAgree

/-! ## Where the requests start -/

namespace ScheduledBatch

variable {b : ScheduledBatch} {i j : Nat}

private theorem getElem?_cuNumTokens (hi : i ≤ b.numScheduledTokens.length) :
    b.cuNumTokens[i]? = some (b.startOf i) := by
  rw [cuNumTokens, getElem?_cumsum 0 _ hi, Int.zero_add, startOf]

@[simp] theorem length_cuNumTokens :
    b.cuNumTokens.length = b.numScheduledTokens.length + 1 := by
  rw [cuNumTokens, List.length_cons, length_cumsum]

@[simp] theorem startOf_zero : b.startOf 0 = 0 := rfl

private theorem startOf_length :
    b.startOf b.numScheduledTokens.length = b.numScheduledTokens.sum := by
  rw [startOf, List.take_length]

private theorem startOf_succ {n : Int} (hn : b.numScheduledTokens[i]? = some n) :
    b.startOf (i + 1) = b.startOf i + n := by
  obtain ⟨hlt, rfl⟩ := List.getElem?_eq_some_iff.mp hn
  rw [startOf, List.take_succ_eq_append_getElem hlt, List.sum_append, List.sum_singleton, startOf]

namespace Valid

variable (hb : b.Valid)

include hb

private theorem startOf_lt (hij : i < j) (hj : j ≤ b.numScheduledTokens.length) :
    b.startOf i < b.startOf j := by
  have hsorted := pairwise_cumsum 0 fun n hn => Int.lt_of_lt_of_le Int.zero_lt_one (hb.pos n hn)
  have hi := getElem?_cuNumTokens (b := b) (Nat.le_of_lt (Nat.lt_of_lt_of_le hij hj))
  have hj := getElem?_cuNumTokens (b := b) hj
  obtain ⟨hilt, hi⟩ := List.getElem?_eq_some_iff.mp hi
  obtain ⟨hjlt, hj⟩ := List.getElem?_eq_some_iff.mp hj
  rw [← hi, ← hj]
  exact List.pairwise_iff_getElem.mp hsorted i j hilt hjlt hij

private theorem startOf_le (hij : i ≤ j) (hj : j ≤ b.numScheduledTokens.length) :
    b.startOf i ≤ b.startOf j := by
  rcases Nat.eq_or_lt_of_le hij with rfl | hlt
  · exact Int.le_refl _
  · exact Int.le_of_lt (hb.startOf_lt hlt hj)

/-- The lengths of the sequences. -/
theorem getElem?_seqLens (hi : i < b.numScheduledTokens.length) :
    b.metadata.seqLens[i]?
      = some (b.numComputedTokens.getD i 0 + (b.startOf (i + 1) - b.startOf i)) := by
  have hn := List.getElem?_eq_getElem hi
  have hc := List.getElem?_eq_getElem (hb.computed.symm ▸ hi)
  rw [startOf_succ hn, metadata, List.getElem?_zipWith, hn, hc, List.getD_eq_getElem?_getD, hc]
  simp

end Valid

end ScheduledBatch

/-! ## Where a cut lies -/

/-- Where the requests of a micro-batch lie against its tokens. -/
structure Cut (b : ScheduledBatch) (s : UBatchSlice) : Prop where
  nonempty : s.tokenSlice.start < s.tokenSlice.stop
  start_nonneg : 0 ≤ s.tokenSlice.start
  requests : s.requestSlice.start < s.requestSlice.stop
  stop_le : s.requestSlice.stop ≤ b.numScheduledTokens.length
  first_le : b.startOf s.requestSlice.start ≤ s.tokenSlice.start
  lt_second : s.tokenSlice.start < b.startOf (s.requestSlice.start + 1)
  before : ∀ i < s.requestSlice.stop, b.startOf i < s.tokenSlice.stop
  le_last : s.tokenSlice.stop ≤ b.startOf s.requestSlice.stop

/-- The searches find the requests that tokens overlap. -/
theorem cut_searchsorted {b : ScheduledBatch} (hb : b.Valid) {start stop : Int}
    (hstart : 0 ≤ start) (hlt : start < stop) (hstop : stop ≤ b.numScheduledTokens.sum) :
    Cut b ⟨⟨searchsorted b.cuNumTokens start .right - 1, searchsorted b.cuNumTokens stop .left⟩,
      ⟨start, stop⟩⟩ := by
  have hlengthRight := searchsorted_le_length b.cuNumTokens start .right
  have hlengthLeft := searchsorted_le_length b.cuNumTokens stop .left
  rw [ScheduledBatch.length_cuNumTokens] at hlengthRight hlengthLeft
  have hall := ScheduledBatch.startOf_length (b := b)
  -- The token is in the batch, so neither search runs past its end.
  have hright : searchsorted b.cuNumTokens start .right ≤ b.numScheduledTokens.length := by
    by_contra hnot
    have : b.startOf b.numScheduledTokens.length ≤ start :=
      le_of_lt_right (ScheduledBatch.getElem?_cuNumTokens le_rfl) (Nat.not_le.mp hnot)
    omega
  have hleft : searchsorted b.cuNumTokens stop .left ≤ b.numScheduledTokens.length := by
    by_contra hnot
    have : b.startOf b.numScheduledTokens.length < stop :=
      lt_of_lt_left (ScheduledBatch.getElem?_cuNumTokens le_rfl) (Nat.not_le.mp hnot)
    omega
  have hpos : 0 < searchsorted b.cuNumTokens start .right := by
    by_contra hnot
    have := lt_of_eq_right (ScheduledBatch.getElem?_cuNumTokens hright)
    rw [show searchsorted b.cuNumTokens start .right = 0 by omega,
      ScheduledBatch.startOf_zero] at this
    omega
  have hfirst : b.startOf (searchsorted b.cuNumTokens start .right - 1) ≤ start :=
    le_of_lt_right (ScheduledBatch.getElem?_cuNumTokens (by omega)) (by omega)
  have hsecond := lt_of_eq_right (ScheduledBatch.getElem?_cuNumTokens hright)
  have hlast := le_of_eq_left (ScheduledBatch.getElem?_cuNumTokens hleft)
  refine ⟨hlt, hstart, ?_, hleft, hfirst, ?_, ?_, hlast⟩
  · by_contra hnot
    have := hb.startOf_le (Nat.not_lt.mp hnot) (by
      show searchsorted b.cuNumTokens start .right - 1 ≤ _
      omega)
    show False
    simp only at this
    omega
  · rw [Nat.sub_add_cancel hpos]
    exact hsecond
  · intro i hi
    exact lt_of_lt_left (ScheduledBatch.getElem?_cuNumTokens (by
      simp only at hi
      omega)) hi

/-! ## The arrays of a micro-batch -/

private theorem entry_eq_ok {xs : List Int} {i : Nat} {x : Int} :
    entry xs i = .ok x ↔ xs[i]? = some x := by
  unfold entry
  cases xs[i]? <;> simp

/-- An entry of a slice. -/
theorem getElem?_sliceOf {α : Type} (xs : List α) {start stop row : Nat}
    (hrow : start + row < stop) : (sliceOf xs start stop)[row]? = xs[start + row]? := by
  rw [sliceOf, List.getElem?_take_of_lt (by omega), List.getElem?_drop]

private theorem length_sliceOf {α : Type} {xs : List α} {start stop : Nat}
    (hstop : stop ≤ xs.length) : (sliceOf xs start stop).length = stop - start := by
  rw [sliceOf, List.length_take, List.length_drop]
  omega

@[simp] theorem length_subTail (k : Int) (xs : List Int) : (subTail k xs).length = xs.length := by
  cases xs <;> simp [subTail]

private theorem getElem?_subTail (k : Int) (xs : List Int) (row : Nat) :
    (subTail k xs)[row]? = xs[row]?.map fun x => if row = 0 then x else x - k := by
  cases xs with
  | nil => rfl
  | cons x xs =>
    cases row with
    | zero => rfl
    | succ row => simp [subTail]

/-- A shift of the last entry, where there is one to shift by. -/
theorem subLastIf_eq_ok (k : Int) (xs : List Int) (hne : xs ≠ []) (hk : 0 ≤ k) :
    ∃ ys, subLastIf (decide (0 < k)) k xs = .ok ys ∧ ys.length = xs.length ∧
      ∀ row, ys[row]? = xs[row]?.map fun x => if row + 1 = xs.length then x - k else x := by
  unfold subLastIf
  split
  · obtain ⟨front, x, rfl⟩ := List.eq_nil_or_concat' xs |>.resolve_left hne
    refine ⟨front ++ [x - k], by simp [subLast], by simp, fun row => ?_⟩
    rcases Nat.lt_trichotomy row front.length with hlt | rfl | hgt
    · rw [List.getElem?_append_left hlt, List.getElem?_append_left hlt]
      have : ¬ row + 1 = (front ++ [x]).length := by
        rw [List.length_append, List.length_singleton]
        omega
      simp only [this, if_false, Option.map_id']
    · simp
    · rw [List.getElem?_eq_none (by rw [List.length_append, List.length_singleton]; omega),
        List.getElem?_eq_none (by rw [List.length_append, List.length_singleton]; omega)]
      rfl
  · have hzero : k = 0 := by
      simp only [decide_eq_true_eq] at *
      omega
    refine ⟨xs, rfl, rfl, fun row => ?_⟩
    simp [hzero]

private theorem maxEntry_eq_ok (xs : List Int) (hne : xs ≠ []) : ∃ x, maxEntry xs = .ok x := by
  obtain ⟨x, hx⟩ := Option.isSome_iff_exists.mp (List.isSome_max?_of_ne_nil hne)
  exact ⟨x, by rw [maxEntry, hx]⟩

/-- What the metadata of a micro-batch holds: each row begins at its request's start, or at the
micro-batch's where that is later, and ends likewise. -/
structure CutMetadata (b : ScheduledBatch) (s : UBatchSlice) (m : SplitMetadata) : Prop where
  length_starts : m.queryStartLoc.length = s.requestSlice.stop - s.requestSlice.start + 1
  starts : ∀ row, s.requestSlice.start + row ≤ s.requestSlice.stop → m.queryStartLoc[row]? =
    some (min s.tokenSlice.stop (max s.tokenSlice.start (b.startOf (s.requestSlice.start + row)))
      - s.tokenSlice.start)
  length_seqLens : m.seqLens.length = s.requestSlice.stop - s.requestSlice.start
  seqLens : ∀ row, s.requestSlice.start + row < s.requestSlice.stop → m.seqLens[row]? =
    some (b.numComputedTokens.getD (s.requestSlice.start + row) 0
      + min s.tokenSlice.stop (b.startOf (s.requestSlice.start + row + 1))
      - b.startOf (s.requestSlice.start + row))
  computed : ∀ row, s.requestSlice.start + row < s.requestSlice.stop →
    m.numComputedTokens[row]? = some (b.numComputedTokens.getD (s.requestSlice.start + row) 0)
  blockTable : ∀ row, s.requestSlice.start + row < s.requestSlice.stop →
    m.blockTableTensor[row]? = b.blockTable[s.requestSlice.start + row]?
  slots : ∀ row, s.tokenSlice.start + (row : Nat) < s.tokenSlice.stop →
    m.slotMapping[row]? = b.slotMapping[(s.tokenSlice.start + row).toNat]?
  queryStartLocCpu : m.queryStartLocCpu = m.queryStartLoc
  seqLensCpu : m.seqLensCpu = m.seqLens

namespace Cut

/-- The starts before the last row is shortened. -/
def shiftedStarts (b : ScheduledBatch) (s : UBatchSlice) : List Int :=
  let starts := (sliceOf b.cuNumTokens s.requestSlice.start (s.requestSlice.stop + 1)).map
    (· - b.startOf s.requestSlice.start)
  if decide (b.startOf s.requestSlice.start < s.tokenSlice.start) = true then
    subTail (s.tokenSlice.start - b.startOf s.requestSlice.start) starts
  else
    starts

variable {b : ScheduledBatch} {s : UBatchSlice} (h : Cut b s)

include h

private theorem getElem?_shiftedStarts {row : Nat}
    (hrow : s.requestSlice.start + row ≤ s.requestSlice.stop) :
    (shiftedStarts b s)[row]? = some (if row = 0 then 0
      else b.startOf (s.requestSlice.start + row) - s.tokenSlice.start) := by
  have hle := h.stop_le
  have hfirst := h.first_le
  have hstart : ((sliceOf b.cuNumTokens s.requestSlice.start (s.requestSlice.stop + 1)).map
      (· - b.startOf s.requestSlice.start))[row]?
        = some (b.startOf (s.requestSlice.start + row) - b.startOf s.requestSlice.start) := by
    rw [List.getElem?_map, getElem?_sliceOf _ (by omega),
      ScheduledBatch.getElem?_cuNumTokens (by omega), Option.map_some]
  unfold shiftedStarts
  split
  · rw [getElem?_subTail, hstart, Option.map_some]
    rcases Nat.eq_zero_or_pos row with rfl | hpos
    · simp
    · rw [if_neg (by omega), if_neg (by omega)]
      congr 1
      omega
  · have hcut : ¬ b.startOf s.requestSlice.start < s.tokenSlice.start := by simp_all
    rw [hstart]
    rcases Nat.eq_zero_or_pos row with rfl | hpos
    · simp
    · rw [if_neg (by omega)]
      congr 1
      omega

private theorem length_sliceOf_cuNumTokens : (sliceOf b.cuNumTokens s.requestSlice.start
    (s.requestSlice.stop + 1)).length = s.requestSlice.stop - s.requestSlice.start + 1 := by
  have hle := h.stop_le
  have hrequests := h.requests
  rw [length_sliceOf (by rw [ScheduledBatch.length_cuNumTokens]; omega)]
  omega

omit h in
private theorem decide_cut : decide (s.tokenSlice.stop - 1 < b.startOf s.requestSlice.stop - 1)
    = decide (0 < b.startOf s.requestSlice.stop - s.tokenSlice.stop) :=
  decide_eq_decide.mpr (by omega)

/-- The starts of the rows. -/
theorem exists_starts (hb : b.Valid) : ∃ starts,
    subLastIf (decide (s.tokenSlice.stop - 1 < b.startOf s.requestSlice.stop - 1))
      (b.startOf s.requestSlice.stop - s.tokenSlice.stop) (shiftedStarts b s) = .ok starts ∧
    starts.length = s.requestSlice.stop - s.requestSlice.start + 1 ∧
    ∀ row, s.requestSlice.start + row ≤ s.requestSlice.stop → starts[row]? =
      some (min s.tokenSlice.stop (max s.tokenSlice.start
        (b.startOf (s.requestSlice.start + row))) - s.tokenSlice.start) := by
  have hle := h.stop_le
  have hfirst := h.first_le
  have hsecond := h.lt_second
  have hlast := h.le_last
  have hrequests := h.requests
  have htokens := h.nonempty
  have hlength : (shiftedStarts b s).length =
      s.requestSlice.stop - s.requestSlice.start + 1 := by
    unfold shiftedStarts
    split <;> simp [h.length_sliceOf_cuNumTokens]
  obtain ⟨starts, hstarts, hlengthStarts, hget⟩ := subLastIf_eq_ok
    (b.startOf s.requestSlice.stop - s.tokenSlice.stop) (shiftedStarts b s)
    (List.ne_nil_of_length_pos (by omega)) (by omega)
  refine ⟨starts, decide_cut ▸ hstarts, hlengthStarts.trans hlength, fun row hrow => ?_⟩
  have hbefore := h.before (s.requestSlice.start + row)
  rw [hget, h.getElem?_shiftedStarts hrow, Option.map_some, hlength]
  congr 1
  rcases Nat.eq_zero_or_pos row with rfl | hpos
  · rw [if_neg (by omega), if_pos rfl, Nat.add_zero]
    omega
  · have hmono := hb.startOf_le (i := s.requestSlice.start + 1)
      (j := s.requestSlice.start + row) (by omega) (by omega)
    rw [if_neg (show ¬ row = 0 by omega)]
    split
    · rw [show s.requestSlice.start + row = s.requestSlice.stop by omega]
      omega
    · have := hbefore (by omega)
      omega

/-- The lengths of the rows. -/
theorem exists_seqLens (hb : b.Valid) : ∃ seqLens,
    subLastIf (decide (s.tokenSlice.stop - 1 < b.startOf s.requestSlice.stop - 1))
      (b.startOf s.requestSlice.stop - s.tokenSlice.stop)
      (sliceOf b.metadata.seqLens s.requestSlice.start s.requestSlice.stop) = .ok seqLens ∧
    seqLens.length = s.requestSlice.stop - s.requestSlice.start ∧
    ∀ row, s.requestSlice.start + row < s.requestSlice.stop → seqLens[row]? =
      some (b.numComputedTokens.getD (s.requestSlice.start + row) 0
        + min s.tokenSlice.stop (b.startOf (s.requestSlice.start + row + 1))
        - b.startOf (s.requestSlice.start + row)) := by
  have hle := h.stop_le
  have hlast := h.le_last
  have hrequests := h.requests
  have hlengthSeq : b.metadata.seqLens.length = b.numScheduledTokens.length := by
    rw [ScheduledBatch.metadata, List.length_zipWith, hb.computed, Nat.min_self]
  have hlength : (sliceOf b.metadata.seqLens s.requestSlice.start s.requestSlice.stop).length =
      s.requestSlice.stop - s.requestSlice.start := length_sliceOf (by omega)
  obtain ⟨seqLens, hseqLens, hlengthSeqLens, hget⟩ := subLastIf_eq_ok
    (b.startOf s.requestSlice.stop - s.tokenSlice.stop)
    (sliceOf b.metadata.seqLens s.requestSlice.start s.requestSlice.stop)
    (List.ne_nil_of_length_pos (by omega)) (by omega)
  refine ⟨seqLens, decide_cut ▸ hseqLens, hlengthSeqLens.trans hlength, fun row hrow => ?_⟩
  rw [hget, getElem?_sliceOf _ hrow, hb.getElem?_seqLens (by omega), Option.map_some, hlength]
  refine congrArg some ?_
  split
  · rw [show s.requestSlice.start + row + 1 = s.requestSlice.stop by omega]
    omega
  · have := h.before (s.requestSlice.start + row + 1) (by omega)
    omega

/-- A micro-batch that is cut as the searches cut it gets its metadata without an error. -/
theorem exists_metadata (hb : b.Valid) :
    ∃ m, makeMetadataWithSlice s b.metadata = .ok m ∧ CutMetadata b s m := by
  have hle := h.stop_le
  have hrequests := h.requests
  have htokens := h.nonempty
  obtain ⟨starts, hstarts, hlengthStarts, hgetStarts⟩ := h.exists_starts hb
  obtain ⟨seqLens, hseqLens, hlengthSeqLens, hgetSeqLens⟩ := h.exists_seqLens hb
  obtain ⟨maxSeqLen, hmaxSeqLen⟩ := maxEntry_eq_ok seqLens
    (List.ne_nil_of_length_pos (by omega))
  obtain ⟨maxQueryLen, hmaxQueryLen⟩ := maxEntry_eq_ok
    ((starts.tail.zipWith (· - ·) starts).map fun x => (x.natAbs : Int))
    (List.ne_nil_of_length_pos (by
      rw [List.length_map, List.length_zipWith, List.length_tail]
      omega))
  have hempty : s.isEmpty = false := by
    rw [UBatchSlice.isEmpty, Bool.or_eq_false_iff, beq_eq_false_iff_ne, beq_eq_false_iff_ne]
    exact ⟨Nat.ne_of_lt hrequests, Int.ne_of_lt htokens⟩
  have hentry (i : Nat) (hi : i ≤ s.requestSlice.stop) : entry b.cuNumTokens i
      = .ok (b.startOf i) :=
    entry_eq_ok.mpr (ScheduledBatch.getElem?_cuNumTokens (Nat.le_trans hi hle))
  have hslice : sliceQueryStartLocs b.cuNumTokens s.requestSlice
      = .ok ((sliceOf b.cuNumTokens s.requestSlice.start (s.requestSlice.stop + 1)).map
        (· - b.startOf s.requestSlice.start)) := by
    rw [sliceQueryStartLocs, hentry _ (Nat.le_of_lt hrequests)]
    rfl
  have hrun : makeMetadataWithSlice s b.metadata = .ok
      { queryStartLoc := starts
        queryStartLocCpu := starts
        seqLens := seqLens
        numReqs := s.requestSlice.stop - s.requestSlice.start
        numActualTokens := (s.tokenSlice.stop - s.tokenSlice.start).toNat
        maxQueryLen := if maxQueryLen = 0 then b.metadata.maxQueryLen else maxQueryLen
        maxSeqLen := maxSeqLen
        blockTableTensor := sliceOf b.blockTable s.requestSlice.start s.requestSlice.stop
        slotMapping := sliceOf b.slotMapping s.tokenSlice.start.toNat s.tokenSlice.stop.toNat
        seqLensHost := some seqLens
        numComputedTokensCpu :=
          some (sliceOf b.numComputedTokens s.requestSlice.start s.requestSlice.stop) } :=
    bind_ok_iff.mpr ⟨(), ensure_eq_ok.mpr hempty,
      bind_ok_iff.mpr ⟨_, hentry _ (Nat.le_of_lt hrequests),
      bind_ok_iff.mpr ⟨(), ensure_eq_ok.mpr h.first_le,
      bind_ok_iff.mpr ⟨_, hentry _ hrequests,
      bind_ok_iff.mpr ⟨(), ensure_eq_ok.mpr h.lt_second,
      bind_ok_iff.mpr ⟨_, hentry _ le_rfl,
      bind_ok_iff.mpr ⟨_, hslice,
      bind_ok_iff.mpr ⟨_, hslice,
      bind_ok_iff.mpr ⟨(), ensure_eq_ok.mpr (by
        rw [List.length_map, h.length_sliceOf_cuNumTokens]
        omega),
      bind_ok_iff.mpr ⟨_, hstarts,
      bind_ok_iff.mpr ⟨_, hstarts,
      bind_ok_iff.mpr ⟨_, hseqLens,
      bind_ok_iff.mpr ⟨_, hseqLens,
      bind_ok_iff.mpr ⟨_, hmaxSeqLen,
      bind_ok_iff.mpr ⟨_, hmaxQueryLen, rfl⟩⟩⟩⟩⟩⟩⟩⟩⟩⟩⟩⟩⟩⟩⟩
  refine ⟨_, hrun, ?_⟩
  constructor
  case length_starts => exact hlengthStarts
  case length_seqLens => exact hlengthSeqLens
  case queryStartLocCpu => rfl
  case seqLensCpu => rfl
  case starts => exact hgetStarts
  case seqLens => exact hgetSeqLens
  case computed =>
    intro row hrow
    refine (getElem?_sliceOf _ hrow).trans ?_
    rw [List.getD_eq_getElem?_getD, List.getElem?_eq_getElem (by rw [hb.computed]; omega)]
    rfl
  case blockTable =>
    intro row hrow
    exact getElem?_sliceOf _ hrow
  case slots =>
    intro row hrow
    have hstart := h.start_nonneg
    refine (getElem?_sliceOf _ (by omega)).trans ?_
    congr 1
    omega

/-- The request behind a row of a micro-batch starts behind the micro-batch's first token. -/
theorem lt_startOf_succ (hb : b.Valid) (row : Nat)
    (hrow : s.requestSlice.start + row < s.requestSlice.stop) :
    s.tokenSlice.start < b.startOf (s.requestSlice.start + row + 1) := by
  have hsecond := h.lt_second
  have hle := h.stop_le
  have := hb.startOf_le (i := s.requestSlice.start + 1)
    (j := s.requestSlice.start + row + 1) (by omega) (by omega)
  omega

end Cut

/-! ## The tokens of a micro-batch -/

@[simp] theorem UBatchSlice.mem_tokens {s : UBatchSlice} {token : Int} :
    token ∈ s.tokens ↔ s.tokenSlice.start ≤ token ∧ token < s.tokenSlice.stop := by
  simp only [tokens, numTokens, List.mem_map, List.mem_range]
  constructor
  · rintro ⟨i, hi, rfl⟩
    omega
  · intro h
    exact ⟨(token - s.tokenSlice.start).toNat, by omega, by omega⟩

theorem SplitMetadata.position_eq {m : SplitMetadata} {row : Nat} {token start stop seqLen : Int}
    (hstart : m.queryStartLoc[row]? = some start) (hstop : m.queryStartLoc[row + 1]? = some stop)
    (hseq : m.seqLens[row]? = some seqLen) :
    m.position row token = some (seqLen - (stop - start) + (token - start)) := by
  rw [position, hstart, hstop, hseq]
  rfl

/-- A token sees the keys up to its own position. -/
theorem SplitMetadata.sees_iff {m : SplitMetadata} {row : Nat} {token key p seqLen : Int}
    (hp : m.position row token = some p) (hseq : m.seqLens[row]? = some seqLen)
    (hlt : p < seqLen) : m.Sees row token key ↔ 0 ≤ key ∧ key ≤ p := by
  unfold Sees
  rw [hp, hseq]
  constructor
  · rintro ⟨p', n, hp', -, hkey, hle, -⟩
    obtain rfl : p = p' := Option.some.inj hp'
    exact ⟨hkey, hle⟩
  · rintro ⟨hkey, hle⟩
    exact ⟨p, seqLen, rfl, rfl, hkey, hle, by omega⟩

namespace ScheduledBatch

variable {b : ScheduledBatch} {i j : Nat} {token : Int}

/-- A token of the unsplit batch falls under the request that starts before it and ends behind
it. -/
theorem under_metadata : b.metadata.Under i token ↔
    i < b.numScheduledTokens.length ∧ b.startOf i ≤ token ∧ token < b.startOf (i + 1) := by
  show (∃ start stop, b.cuNumTokens[i]? = some start ∧ b.cuNumTokens[i + 1]? = some stop ∧
    start ≤ token ∧ token < stop) ↔ _
  constructor
  · rintro ⟨start, stop, hstart, hstop, hle, hlt⟩
    obtain ⟨hi, -⟩ := List.getElem?_eq_some_iff.mp hstop
    rw [length_cuNumTokens] at hi
    rw [getElem?_cuNumTokens (by omega)] at hstart hstop
    obtain rfl := Option.some.inj hstart
    obtain rfl := Option.some.inj hstop
    exact ⟨by omega, hle, hlt⟩
  · rintro ⟨hi, hle, hlt⟩
    exact ⟨_, _, getElem?_cuNumTokens (by omega), getElem?_cuNumTokens (by omega), hle, hlt⟩

namespace Valid

variable (hb : b.Valid)

include hb

/-- Where one request starts before a token and another ends behind it, the first is not the
later one. -/
theorem le_of_startOf (hi : i < b.numScheduledTokens.length) (hle : b.startOf i ≤ token)
    (hlt : token < b.startOf (j + 1)) : i ≤ j := by
  by_contra hnot
  have := hb.startOf_le (i := j + 1) (j := i) (by omega) (by omega)
  omega

/-- Every scheduled token is one of a request. -/
theorem exists_request (token : Int) (hnonneg : 0 ≤ token)
    (hlt : token < b.numScheduledTokens.sum) :
    ∃ i < b.numScheduledTokens.length, b.startOf i ≤ token ∧ token < b.startOf (i + 1) := by
  have hcut := cut_searchsorted hb hnonneg (Int.lt_succ token) (Int.add_one_le_iff.mpr hlt)
  have hrequests := hcut.requests
  have hle := hcut.stop_le
  exact ⟨_, Nat.lt_of_lt_of_le hrequests hle, hcut.first_le, hcut.lt_second⟩

end Valid

end ScheduledBatch

namespace CutMetadata

variable {b : ScheduledBatch} {s : UBatchSlice} {m : SplitMetadata} {token : Int} {row : Nat}
  (h : CutMetadata b s m) (hcut : Cut b s)

include h hcut

/-- A token falls under the rows of the requests that it lies in. -/
theorem under_iff (hstart : s.tokenSlice.start ≤ token) (hstop : token < s.tokenSlice.stop) :
    m.Under row (token - s.tokenSlice.start) ↔
      s.requestSlice.start + row < s.requestSlice.stop ∧
      b.startOf (s.requestSlice.start + row) ≤ token ∧
      token < b.startOf (s.requestSlice.start + row + 1) := by
  have hrequests := hcut.requests
  constructor
  · rintro ⟨start, stop, hget, hget', hle, hlt⟩
    obtain ⟨hrow, -⟩ := List.getElem?_eq_some_iff.mp hget'
    rw [h.length_starts] at hrow
    rw [h.starts _ (by omega)] at hget hget'
    rw [← Nat.add_assoc] at hget'
    obtain rfl := Option.some.inj hget
    obtain rfl := Option.some.inj hget'
    have := hcut.before (s.requestSlice.start + row) (by omega)
    omega
  · rintro ⟨hrow, hle, hlt⟩
    refine ⟨_, _, h.starts row (by omega), h.starts (row + 1) (by omega), ?_⟩
    rw [← Nat.add_assoc]
    omega

variable (hb : b.Valid)

include hb

/-- The tokens of a micro-batch keep what they attend to. -/
theorem keepsTokens : KeepsTokens b s m := by
  have hnonneg := hcut.start_nonneg
  have hle := hcut.stop_le
  have hlast := hcut.le_last
  have hall := hb.startOf_le hle le_rfl
  rw [ScheduledBatch.startOf_length] at hall
  -- A row and a request that a token falls under, and the token's position by both.
  have hrows : ∀ token ∈ s.tokens, ∀ row i, m.Under row (token - s.tokenSlice.start) →
      b.metadata.Under i token → i = s.requestSlice.start + row ∧ ∃ p seqLen seqLen',
        m.position row (token - s.tokenSlice.start) = some p ∧
        b.metadata.position i token = some p ∧ m.seqLens[row]? = some seqLen ∧
        b.metadata.seqLens[i]? = some seqLen' ∧ p < seqLen ∧ p < seqLen' := by
    intro token htoken row i hrow hi
    rw [UBatchSlice.mem_tokens] at htoken
    obtain ⟨hrow, hstart, hstop⟩ := (h.under_iff hcut htoken.1 htoken.2).mp hrow
    obtain ⟨hi, hstart', hstop'⟩ := ScheduledBatch.under_metadata.mp hi
    obtain rfl : i = s.requestSlice.start + row :=
      Nat.le_antisymm (hb.le_of_startOf hi hstart' hstop)
        (hb.le_of_startOf (by omega) hstart hstop')
    have hsucc := hcut.lt_startOf_succ hb row hrow
    have hbefore := hcut.before _ hrow
    refine ⟨rfl, _, _, _, SplitMetadata.position_eq (h.starts row (by omega))
      (h.starts (row + 1) (by omega)) (h.seqLens row hrow), ?_, h.seqLens row hrow,
      hb.getElem?_seqLens hi, ?_, ?_⟩
    · refine (SplitMetadata.position_eq (ScheduledBatch.getElem?_cuNumTokens (by omega))
        (ScheduledBatch.getElem?_cuNumTokens (by omega)) (hb.getElem?_seqLens hi)).trans ?_
      rw [← Nat.add_assoc]
      refine congrArg some ?_
      omega
    · rw [← Nat.add_assoc]
      omega
    · rw [← Nat.add_assoc]
      omega
  constructor
  case under =>
    intro token htoken
    rw [UBatchSlice.mem_tokens] at htoken
    obtain ⟨i, hi, hstart, hstop⟩ := hb.exists_request token (by omega) (by omega)
    have hfirst := hb.le_of_startOf (by have := hcut.requests; omega)
      (Int.le_trans hcut.first_le htoken.1) hstop
    have hbehind : i < s.requestSlice.stop := by
      by_contra hnot
      have := hb.startOf_le (i := s.requestSlice.stop) (j := i) (by omega) (by omega)
      omega
    refine ⟨i - s.requestSlice.start, (h.under_iff hcut htoken.1 htoken.2).mpr ?_⟩
    rw [Nat.add_sub_cancel' hfirst]
    exact ⟨hbehind, hstart, hstop⟩
  case request =>
    intro token htoken row i hrow hi
    exact (hrows token htoken row i hrow hi).1
  case position =>
    intro token htoken row i hrow hi
    obtain ⟨-, p, -, -, hp, hp', -⟩ := hrows token htoken row i hrow hi
    exact ⟨p, hp, hp'⟩
  case sees =>
    intro token htoken row i hrow hi key
    obtain ⟨-, p, seqLen, seqLen', hp, hp', hseq, hseq', hlt, hlt'⟩ :=
      hrows token htoken row i hrow hi
    rw [SplitMetadata.sees_iff hp hseq hlt, SplitMetadata.sees_iff hp' hseq' hlt']
  case blockTable =>
    intro token htoken row i hrow hi
    obtain ⟨rfl, -⟩ := hrows token htoken row i hrow hi
    rw [UBatchSlice.mem_tokens] at htoken
    exact h.blockTable row ((h.under_iff hcut htoken.1 htoken.2).mp hrow).1
  case slot =>
    intro token htoken
    rw [UBatchSlice.mem_tokens] at htoken
    rw [h.slots _ (by omega)]
    congr 1
    omega
  case queryStartLocCpu => exact h.queryStartLocCpu
  case seqLensCpu => exact h.seqLensCpu

/-- The computed counts of a micro-batch agree with the lengths where no request is cut by its
first token. -/
theorem computedAgree_iff : m.ComputedAgree ↔ s.tokenSlice.start ∈ b.cuNumTokens := by
  have hrequests := hcut.requests
  have hfirst := hcut.first_le
  have hle := hcut.stop_le
  constructor
  · intro hagree
    have hrow := h.computed 0 hrequests
    have hsucc := hcut.lt_startOf_succ hb 0 hrequests
    have hbefore := hcut.before _ hrequests
    rw [hagree 0 _ _ _ (h.starts 0 (by omega)) (h.starts (0 + 1) (by omega))
      (h.seqLens 0 hrequests), Option.some_inj, ← Nat.add_assoc] at hrow
    rw [Nat.add_zero] at hrow hsucc
    have heq : b.startOf s.requestSlice.start = s.tokenSlice.start := by omega
    rw [← heq]
    exact List.mem_of_getElem? (ScheduledBatch.getElem?_cuNumTokens (by omega))
  · intro hmem row start stop seqLen hstart hstop hseq
    obtain ⟨i, hi⟩ := List.mem_iff_getElem?.mp hmem
    obtain ⟨hlt, -⟩ := List.getElem?_eq_some_iff.mp hi
    rw [ScheduledBatch.length_cuNumTokens] at hlt
    rw [ScheduledBatch.getElem?_cuNumTokens (by omega), Option.some_inj] at hi
    have hwhich : i = s.requestSlice.start := by
      rcases Nat.lt_trichotomy i s.requestSlice.start with hless | heq | hmore
      · have := hb.startOf_lt hless (by omega)
        omega
      · exact heq
      · have := hb.startOf_le (i := s.requestSlice.start + 1) (j := i) hmore (by omega)
        have := hcut.lt_second
        omega
    subst hwhich
    obtain ⟨hrow, -⟩ := List.getElem?_eq_some_iff.mp hseq
    rw [h.length_seqLens] at hrow
    have hsucc := hcut.lt_startOf_succ hb row (by omega)
    have hbefore := hcut.before (s.requestSlice.start + row) (by omega)
    have hmono := hb.startOf_le (i := s.requestSlice.start) (j := s.requestSlice.start + row)
      (by omega) (by omega)
    rw [h.starts _ (by omega), Option.some_inj] at hstart hstop
    rw [h.seqLens _ (by omega), Option.some_inj] at hseq
    rw [← Nat.add_assoc] at hstop
    rw [h.computed row (by omega), Option.some_inj]
    omega

end CutMetadata

/-! ## All micro-batches -/

section Slices

variable {b : ScheduledBatch} {start : Int} {points : List Int}

/-- Where the micro-batches start. -/
theorem map_start_ubatchSlicesFrom (cu : List Int) (start : Int) (points : List Int) :
    (ubatchSlicesFrom cu start points).map (fun s => s.tokenSlice.start)
      = (start :: points).dropLast := by
  induction points generalizing start with
  | nil => rfl
  | cons stop points ih =>
    rw [ubatchSlicesFrom, List.map_cons, ih stop, List.dropLast_cons_cons]

/-- The micro-batches of ascending points have the tokens from the first to the last point. -/
theorem flatMap_tokens (cu : List Int) (hsorted : (start :: points).Pairwise (· ≤ ·)) :
    (ubatchSlicesFrom cu start points).flatMap UBatchSlice.tokens
      = (List.range (points.getLastD start - start).toNat).map fun i : Nat => start + i := by
  induction points generalizing start with
  | nil => simp [ubatchSlicesFrom]
  | cons stop points ih =>
    obtain ⟨hstart, hrest⟩ := List.pairwise_cons.mp hsorted
    have hle := hstart stop List.mem_cons_self
    have hlast : stop ≤ points.getLastD stop := by
      rcases List.mem_cons.mp (List.getLastD_mem_cons (l := points) (a := stop)) with heq | hmem
      · exact le_of_eq heq.symm
      · exact (List.pairwise_cons.mp hrest).1 _ hmem
    rw [ubatchSlicesFrom, List.flatMap_cons, ih hrest, List.getLastD_cons,
      show (points.getLastD stop - start).toNat
        = (stop - start).toNat + (points.getLastD stop - stop).toNat by omega,
      List.range_add, List.map_append, List.map_map]
    refine congrArg₂ (· ++ ·) rfl (List.map_congr_left fun i _ => ?_)
    simp only [Function.comp_apply]
    omega

/-- The micro-batches with the last one padded have all padded tokens. -/
theorem sum_numTokens_padOut (cu : List Int) (start stop : Int) (points : List Int)
    (numTotalTokens : Int) (numReqsPadded : Nat) :
    ((padOutUbatchSlices (ubatchSlicesFrom cu start (stop :: points)) numTotalTokens
      numReqsPadded).map UBatchSlice.numTokens).sum = numTotalTokens - start := by
  induction points generalizing start stop with
  | nil => simp [ubatchSlicesFrom, padOutUbatchSlices, UBatchSlice.numTokens]
  | cons next points ih =>
    have hcons : padOutUbatchSlices (ubatchSlicesFrom cu start (stop :: next :: points))
        numTotalTokens numReqsPadded
          = ⟨⟨searchsorted cu start .right - 1, searchsorted cu stop .left⟩, ⟨start, stop⟩⟩ ::
            padOutUbatchSlices (ubatchSlicesFrom cu stop (next :: points)) numTotalTokens
              numReqsPadded := by
      rw [ubatchSlicesFrom, ubatchSlicesFrom, padOutUbatchSlices, padOutUbatchSlices,
        List.getLast?_cons_cons, List.dropLast_cons_cons]
      cases hlast : (_ :: ubatchSlicesFrom cu next points).getLast? with
      | none => cases List.getLast?_eq_none_iff.mp hlast
      | some last => rfl
    rw [hcons, List.map_cons, List.sum_cons, ih stop next]
    show stop - start + (numTotalTokens - stop) = numTotalTokens - start
    omega

/-- The micro-batches of increasing points are cut where the searches say. -/
theorem cut_of_mem (hb : b.Valid) (hstart : 0 ≤ start)
    (hsorted : (start :: points).Pairwise (· < ·))
    (hle : ∀ point ∈ points, point ≤ b.numScheduledTokens.sum) {s : UBatchSlice}
    (hs : s ∈ ubatchSlicesFrom b.cuNumTokens start points) : Cut b s := by
  induction points generalizing start with
  | nil => cases hs
  | cons stop points ih =>
    obtain ⟨hlt, hrest⟩ := List.pairwise_cons.mp hsorted
    have hstop := hlt stop List.mem_cons_self
    rcases List.mem_cons.mp hs with rfl | hs
    · exact cut_searchsorted hb hstart hstop (hle stop List.mem_cons_self)
    · exact ih (by omega) hrest (fun point hpoint => hle point (List.mem_cons_of_mem _ hpoint)) hs

end Slices

/-- A micro-batch without tokens gets no metadata. -/
theorem splitAttnMetadata_of_isEmpty {s : UBatchSlice} (hempty : s.isEmpty = true)
    (slices : List UBatchSlice) (m : SplitMetadata) :
    splitAttnMetadata (s :: slices) m = .error (.emptySlice s) := by
  have hmake : makeMetadataWithSlice s m = .error (.emptySlice s) := by
    rw [makeMetadataWithSlice, hempty]
    rfl
  rw [splitAttnMetadata, List.mapM_cons, hmake]
  rfl

namespace ScheduledBatch

variable {b : ScheduledBatch} {numTokensPadded numUbatches : Nat}

/-- The points at which micro-batches end. -/
def points (b : ScheduledBatch) (numTokensPadded numUbatches : Nat) : List Int :=
  (List.range' 1 (numUbatches - 1)).map (fun i : Nat =>
    ((numTokensPadded / numUbatches : Nat) : Int) * i) ++ [b.numScheduledTokens.sum]

private theorem getLastD_cuNumTokens : b.cuNumTokens.getLastD 0 = b.numScheduledTokens.sum := by
  rw [List.getLastD_eq_getLast?, List.getLast?_eq_getElem?, length_cuNumTokens,
    Nat.add_sub_cancel, getElem?_cuNumTokens le_rfl, startOf_length]
  rfl

/-- Cutting into at least one micro-batch raises no assertion. -/
theorem maybeCreateUbatchSlices_eq (b : ScheduledBatch) (numTokensPadded numReqsPadded : Nat)
    (hubatches : 0 < numUbatches) :
    ∃ padded, maybeCreateUbatchSlices true b.numScheduledTokens numTokensPadded numReqsPadded
      numUbatches none
        = .ok (some (ubatchSlicesFrom b.cuNumTokens 0 (b.points numTokensPadded numUbatches)),
          some padded) := by
  obtain ⟨stop, points, hpoints⟩ := List.exists_cons_of_ne_nil
    (show b.points numTokensPadded numUbatches ≠ [] by simp [points])
  have hsum := sum_numTokens_padOut b.cuNumTokens 0 stop points numTokensPadded numReqsPadded
  rw [← hpoints, Int.sub_zero] at hsum
  have hsplit : splitPointOf numTokensPadded numUbatches none
      = .ok (numTokensPadded / numUbatches) :=
    bind_ok_iff.mpr ⟨(), ensure_eq_ok.mpr (Nat.ne_of_gt hubatches), rfl⟩
  rw [ScheduledBatch.points, ← getLastD_cuNumTokens] at hsum ⊢
  exact ⟨_, bind_ok_iff.mpr ⟨_, hsplit, bind_ok_iff.mpr ⟨(), ensure_eq_ok.mpr hsum, rfl⟩⟩⟩

/-- The starts of the micro-batches. -/
theorem cons_points (b : ScheduledBatch) (numTokensPadded : Nat) (hubatches : 0 < numUbatches) :
    0 :: b.points numTokensPadded numUbatches = (List.range numUbatches).map (fun i : Nat =>
        ((numTokensPadded / numUbatches : Nat) : Int) * i) ++ [b.numScheduledTokens.sum] := by
  obtain ⟨n, rfl⟩ : ∃ n, numUbatches = n + 1 := ⟨numUbatches - 1, by omega⟩
  rw [points, Nat.add_sub_cancel, List.range_eq_range', List.range'_succ, List.map_cons,
    Nat.cast_zero, Int.mul_zero, List.cons_append]

/-- The points increase where the micro-batches have tokens, and the last one too. -/
theorem pairwise_points (hubatches : 0 < numUbatches)
    (hpos : 0 < numTokensPadded / numUbatches)
    (hlast : isLastUbatchEmpty b.numTokens numTokensPadded numUbatches = false) :
    (0 :: b.points numTokensPadded numUbatches).Pairwise (· < ·) := by
  have hlast : numTokensPadded / numUbatches * (numUbatches - 1) < b.numTokens :=
    Nat.not_le.mp (of_decide_eq_false hlast)
  rw [cons_points b numTokensPadded hubatches, List.pairwise_append]
  refine ⟨?_, List.pairwise_singleton _ _, ?_⟩
  · refine List.pairwise_map.mpr (List.pairwise_lt_range.imp fun {i j} hij => ?_)
    exact Int.mul_lt_mul_of_pos_left (Int.ofNat_lt.mpr hij) (Int.natCast_pos.mpr hpos)
  · intro point hpoint last hlast'
    obtain rfl := List.mem_singleton.mp hlast'
    obtain ⟨i, hi, rfl⟩ := List.mem_map.mp hpoint
    have hle := Nat.mul_le_mul_left (numTokensPadded / numUbatches)
      (Nat.le_sub_one_of_lt (List.mem_range.mp hi))
    rw [← Int.natCast_mul]
    unfold numTokens at hlast
    omega

/-- The micro-batches of a batch that keep their tokens' attention are those which all have
tokens; the computed counts agree with the lengths where they start at requests. -/
theorem splitsSoundly_iff {b : ScheduledBatch} (hb : b.Valid)
    {numTokensPadded numReqsPadded numUbatches : Nat} (hubatches : 2 ≤ numUbatches)
    (hlast : isLastUbatchEmpty b.numTokens numTokensPadded numUbatches = false) :
    SplitsSoundly b numTokensPadded numReqsPadded numUbatches ↔
      0 < numTokensPadded / numUbatches ∧
      ∀ i < numUbatches, ((numTokensPadded / numUbatches * i : Nat) : Int) ∈ b.cuNumTokens := by
  obtain ⟨padded, hcreate⟩ := b.maybeCreateUbatchSlices_eq numTokensPadded numReqsPadded
    (show 0 < numUbatches by omega)
  rcases Nat.eq_zero_or_pos (numTokensPadded / numUbatches) with hzero | hpos
  · -- The first micro-batch has no token.
    constructor
    · rintro ⟨ubatchSlices, padded', metadata, hcreate', hsplit, -⟩
      rw [hcreate, Except.ok.injEq, Prod.mk.injEq, Option.some.injEq] at hcreate'
      obtain ⟨n, hn⟩ : ∃ n, numUbatches - 1 = n + 1 := ⟨numUbatches - 2, by omega⟩
      rw [← hcreate'.1, ScheduledBatch.points, hn, List.range'_succ, hzero, List.map_cons,
        List.cons_append, Nat.cast_zero, Int.zero_mul, ubatchSlicesFrom,
        splitAttnMetadata_of_isEmpty (by simp [UBatchSlice.isEmpty])] at hsplit
      cases hsplit
    · rintro ⟨hpos, -⟩
      omega
  · have hsorted := pairwise_points (b := b) (by omega) hpos hlast
    have hcons := cons_points b numTokensPadded (show 0 < numUbatches by omega)
    have hcut : ∀ s ∈ ubatchSlicesFrom b.cuNumTokens 0 (b.points numTokensPadded numUbatches),
        Cut b s := by
      intro s hs
      refine cut_of_mem hb le_rfl hsorted (fun point hpoint => ?_) hs
      rcases List.mem_append.mp hpoint with hmem | hmem
      · exact le_of_lt ((List.pairwise_append.mp (List.pairwise_cons.mp hsorted).2).2.2 point hmem
          _ (List.mem_singleton_self _))
      · exact le_of_eq (List.mem_singleton.mp hmem)
    have : Nonempty SplitMetadata := ⟨b.metadata⟩
    obtain ⟨metadataOf, hsplit, hmetadata⟩ := exists_mapM_eq_ok fun s hs =>
      (hcut s hs).exists_metadata hb
    -- The starts of the micro-batches are the multiples of the split point.
    have hstarts : (ubatchSlicesFrom b.cuNumTokens 0 (b.points numTokensPadded numUbatches)).map
        (fun s => s.tokenSlice.start) = (List.range numUbatches).map fun i : Nat =>
          ((numTokensPadded / numUbatches : Nat) : Int) * i := by
      rw [map_start_ubatchSlicesFrom, hcons, List.dropLast_concat]
    have hagree : (∀ s ∈ ubatchSlicesFrom b.cuNumTokens 0 (b.points numTokensPadded numUbatches),
        (metadataOf s).ComputedAgree) ↔ ∀ i < numUbatches,
          ((numTokensPadded / numUbatches * i : Nat) : Int) ∈ b.cuNumTokens := by
      constructor
      · intro hall i hi
        have hmem : ((numTokensPadded / numUbatches : Nat) : Int) * i ∈ (ubatchSlicesFrom
            b.cuNumTokens 0 (b.points numTokensPadded numUbatches)).map
              fun s => s.tokenSlice.start := by
          rw [hstarts]
          exact List.mem_map.mpr ⟨i, List.mem_range.mpr hi, rfl⟩
        obtain ⟨s, hs, hstart⟩ := List.mem_map.mp hmem
        rw [Int.natCast_mul, ← hstart]
        exact ((hmetadata s hs).computedAgree_iff (hcut s hs) hb).mp (hall s hs)
      · intro hall s hs
        refine ((hmetadata s hs).computedAgree_iff (hcut s hs) hb).mpr ?_
        have hmem := List.mem_map_of_mem (f := fun s : UBatchSlice => s.tokenSlice.start) hs
        rw [hstarts] at hmem
        obtain ⟨i, hi, hstart⟩ := List.mem_map.mp hmem
        have := hall i (List.mem_range.mp hi)
        rwa [Int.natCast_mul, hstart] at this
    constructor
    · rintro ⟨ubatchSlices, padded', metadata, hcreate', hsplit', -, -, hcomputed⟩
      rw [hcreate, Except.ok.injEq, Prod.mk.injEq, Option.some.injEq] at hcreate'
      rw [← hcreate'.1, splitAttnMetadata, hsplit, Except.ok.injEq] at hsplit'
      refine ⟨hpos, hagree.mp fun s hs => hcomputed _ ?_⟩
      rw [← hsplit']
      exact List.mem_map_of_mem hs
    · rintro ⟨-, hmem⟩
      refine ⟨_, padded, _, hcreate, hsplit, ?_, ?_, ?_⟩
      · rw [flatMap_tokens _ (hsorted.imp le_of_lt), ScheduledBatch.points,
          List.getLastD_concat, Int.sub_zero]
        exact List.map_congr_left fun i _ => Int.zero_add _
      · refine List.forall₂_map_right_iff.mpr (List.forall₂_same.mpr fun s hs => ?_)
        exact (hmetadata s hs).keepsTokens (hcut s hs) hb
      · intro m hm
        obtain ⟨s, hs, rfl⟩ := List.mem_map.mp hm
        exact hagree.mpr hmem s hs

/-- Two requests with two tokens each. -/
def twoRequests : ScheduledBatch where
  numScheduledTokens := [2, 2]
  numComputedTokens := [3, 0]
  blockTable := [[5], [7]]
  slotMapping := [83, 84, 112, 113]

/-- Two micro-batches of a batch that is cut between its requests. -/
theorem twoRequests_splitsSoundly : SplitsSoundly twoRequests 4 2 2 :=
  (splitsSoundly_iff (b := twoRequests) ⟨by decide, rfl⟩ le_rfl (by decide)).mpr
    ⟨by decide, by decide⟩

/-- One request with four tokens. -/
def oneRequest : ScheduledBatch where
  numScheduledTokens := [4]
  numComputedTokens := [3]
  blockTable := [[5]]
  slotMapping := [83, 84, 85, 86]

/-- Two micro-batches of one request: the second one has five computed tokens, and the metadata
says three. -/
theorem oneRequest_not_splitsSoundly :
    oneRequest.Valid ∧ isLastUbatchEmpty oneRequest.numTokens 4 2 = false ∧
      ¬ SplitsSoundly oneRequest 4 1 2 := by
  refine ⟨⟨by decide, rfl⟩, by decide, ?_⟩
  rintro ⟨ubatchSlices, padded, metadata, hcreate, hsplit, -, -, hcomputed⟩
  obtain rfl := Option.some.inj (Prod.mk.inj (Except.ok.inj hcreate)).1
  obtain rfl := Except.ok.inj hsplit
  have hsecond := hcomputed _ (List.mem_cons_of_mem _ List.mem_cons_self) 0 0 2 7 rfl rfl rfl
  cases hsecond

end ScheduledBatch

end Vllm.Worker
