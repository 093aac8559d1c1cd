import Vllm.Library.RegionSort
import Vllm.Worker.GdnMetadata
import Vllm.Worker.PersistentBatch

/-!
# Reordering the batch by kind of request

Before the attention metadata is built the batch is brought into the order decodes, extends,
prefills by swapping misplaced requests only. A request without computed tokens is a prefill
here, however few tokens it is scheduled for. The split of the reordered batch looks for the
boundaries again, from the query lengths and the sequence lengths.
-/

namespace Vllm.Worker

open Checked InputBatch CycleWalk RegionSort

variable {F : Type}

/-! ## Reordering -/

/-- What stops the reordering. -/
inductive ReorderError where
  /-- An error of `swap_states`. -/
  | batch (e : BatchError)
  | keyError
  /-- The walk along a cycle did not end. -/
  | cutOff
  deriving DecidableEq, Repr

/-- `scheduler_output.num_scheduled_tokens[id]`. -/
def scheduledTokens (numScheduledTokens : Dict RequestId Nat) :
    Option RequestId → Except ReorderError Nat
  | some id => match numScheduledTokens.get? id with
    | some n => .ok n
    | none => .error .keyError
  | none => .error .keyError

/-- An entry of `req_regions`: 0 for a decode, 1 for an extend and 2 for a prefill. -/
def reqRegion (decodeThreshold : Int) (numScheduled numComputed : Nat) : Nat :=
  if numComputed = 0 then 2 else if decodeThreshold < numScheduled then 1 else 0

/-- An entry of `target_regions`. -/
def targetRegion (numDecodes numExtends i : Nat) : Nat :=
  if i < numDecodes then 0 else if i < numDecodes + numExtends then 1 else 2

/-- How many requests are in a region. -/
def countRegion (n : Nat) (region : Nat → Nat) (c : Nat) : Nat :=
  ((List.range n).map region).count c

/-- `reorder_batch_to_split_decodes_and_prefills`. -/
def reorderBatchToSplitDecodesAndPrefills (cfg : BatchConfig)
    (numScheduledTokens : Dict RequestId Nat) (decodeThreshold : Int) (b : InputBatch F) :
    Except ReorderError (Bool × InputBatch F) := do
  let numScheduled ← b.reqIds.mapM (scheduledTokens numScheduledTokens)
  let n := b.reqIds.length
  let region := fun i =>
    reqRegion decodeThreshold (numScheduled.getD i 0) (b.tokens.numComputedTokensCpu i)
  let target := targetRegion (countRegion n region 0) (countRegion n region 1)
  if misplaced n region target = [] then
    pure (false, b)
  else do
    let moved ← permute (fun b i j => (b.swapStates cfg i j).mapError .batch) .cutOff
      (moves n region target) b
    pure (true, moved.2)

/-! ## Splitting -/

/-- What `split_decodes_prefills_and_extends` returns. -/
structure SplitCounts where
  numDecodes : Int
  numExtends : Int
  numPrefills : Int
  numDecodeTokens : Int
  numExtendTokens : Int
  numPrefillTokens : Int
  deriving DecidableEq, Repr

/-- `argmax` of a mask: the first position at which it holds, zero if there is none. -/
def argmax (mask : List Bool) : Nat := (mask.findIdx? id).getD 0

/-- `split_decodes_prefills_and_extends`. -/
def splitDecodesPrefillsAndExtends (m : CommonAttentionMetadata) (decodeThreshold : Int) :
    SplitCounts :=
  if m.maxQueryLen ≤ decodeThreshold then
    ⟨m.numReqs, 0, 0, m.numActualTokens, 0, 0⟩
  else
    let isPrefillOrExtend := m.queryLens.map fun q => decide (decodeThreshold < q)
    let isPrefill := (m.seqLens.zip m.queryLens).map fun e =>
      decide (e.1 = e.2 ∧ decodeThreshold < e.2)
    let firstExtend := argmax isPrefillOrExtend
    let firstPrefill := argmax isPrefill
    let numDecodes : Int := firstExtend
    let numDecodeTokens := m.queryStartLoc.getD firstExtend 0
    if ¬ isPrefillOrExtend.any id then
      ⟨numDecodes, 0, 0, numDecodeTokens, 0, 0⟩
    else
      let numPrefillsOrExtends := m.numReqs - numDecodes
      let numPrefillOrExtendTokens := m.numActualTokens - numDecodeTokens
      if ¬ isPrefill.any id then
        ⟨numDecodes, numPrefillsOrExtends, 0, numDecodeTokens, numPrefillOrExtendTokens, 0⟩
      else
        let numPrefillTokens := m.numActualTokens - m.queryStartLoc.getD firstPrefill 0
        ⟨numDecodes, firstPrefill - numDecodes, m.numReqs - firstPrefill, numDecodeTokens,
          numPrefillOrExtendTokens - numPrefillTokens, numPrefillTokens⟩

/-- The lengths in the metadata that the model runner builds for a batch. -/
def batchMetadata (numScheduled numComputed : List Nat) : CommonAttentionMetadata where
  queryStartLoc := (List.range (numScheduled.length + 1)).map fun i =>
    ((numScheduled.take i).sum : Int)
  seqLens := numComputed.zipWith (fun c s => ((c + s : Nat) : Int)) numScheduled
  numReqs := numScheduled.length
  numActualTokens := numScheduled.sum
  maxQueryLen := (numScheduled.foldl max 0 : Nat)
  blockTableTensor := []

/-! ## The order of the regions -/

theorem reqRegion_lt (decodeThreshold : Int) (numScheduled numComputed : Nat) :
    reqRegion decodeThreshold numScheduled numComputed < 3 := by
  unfold reqRegion
  split_ifs <;> omega

/-- The wanted regions ascend. -/
theorem targetRegion_mono (numDecodes numExtends : Nat) {i j : Nat} (hij : i ≤ j) :
    targetRegion numDecodes numExtends i ≤ targetRegion numDecodes numExtends j := by
  unfold targetRegion
  split_ifs <;> omega

/-- A list of regions has as many entries as its regions have. -/
theorem count_add_count_add_count {l : List Nat} (h : ∀ x ∈ l, x < 3) :
    l.count 0 + l.count 1 + l.count 2 = l.length := by
  induction l with
  | nil => rfl
  | cons x l ih =>
    have hx : x < 3 := h x List.mem_cons_self
    have hl := ih fun y hy => h y (List.mem_cons_of_mem x hy)
    simp only [List.count_cons, List.length_cons, beq_iff_eq]
    split_ifs <;> omega

/-- The wanted regions, segment by segment. -/
private theorem map_targetRegion {n numDecodes numExtends : Nat} (h : numDecodes + numExtends ≤ n) :
    (List.range n).map (targetRegion numDecodes numExtends) = List.replicate numDecodes 0 ++
      (List.replicate numExtends 1 ++ List.replicate (n - (numDecodes + numExtends)) 2) := by
  refine List.ext_getElem (by simp; omega) fun i hi hi' => ?_
  simp only [List.getElem_map, List.getElem_range, List.getElem_append, List.getElem_replicate,
    List.length_replicate, targetRegion]
  split_ifs <;> omega

/-- The wanted regions are the regions of the requests, in ascending order. -/
theorem map_region_perm {n : Nat} {region : Nat → Nat} (h : ∀ i < n, region i < 3) :
    ((List.range n).map region).Perm ((List.range n).map
      (targetRegion (countRegion n region 0) (countRegion n region 1))) := by
  have hlt : ∀ x ∈ (List.range n).map region, x < 3 := by
    intro x hx
    obtain ⟨i, hi, rfl⟩ := List.mem_map.mp hx
    exact h i (List.mem_range.mp hi)
  have hcount := count_add_count_add_count hlt
  rw [List.length_map, List.length_range] at hcount
  simp only [countRegion]
  rw [map_targetRegion (by omega), List.perm_iff_count]
  intro c
  simp only [List.count_append, List.count_replicate, beq_iff_eq]
  have hrest : 2 < c → ((List.range n).map region).count c = 0 := fun hc =>
    List.count_eq_zero.mpr fun hmem => absurd (hlt c hmem) (by omega)
  rcases Nat.lt_or_ge 2 c with hc | hc
  · rw [hrest hc, if_neg (by omega), if_neg (by omega), if_neg (by omega)]
  · obtain rfl | rfl | rfl : c = 0 ∨ c = 1 ∨ c = 2 := by omega
    · simp
    · simp
    · rw [if_neg (by decide), if_neg (by decide), if_pos rfl]
      omega
/-! ## The split of an ordered batch -/

/-- The first position below a bound with a property. -/
def IsFirst (n : Nat) (p : Nat → Prop) (a : Nat) : Prop := a < n ∧ p a ∧ ∀ i < a, ¬ p i

/-- A property that some position has has a first one. -/
theorem exists_isFirst {n : Nat} {p : Nat → Prop} (h : ∃ i < n, p i) : ∃ a, IsFirst n p a := by
  classical
  obtain ⟨i, hi, hpi⟩ := h
  have hex : ∃ i, p i := ⟨i, hpi⟩
  exact ⟨Nat.find hex, (Nat.find_min' hex hpi).trans_lt hi, Nat.find_spec hex,
    fun j hj => Nat.find_min hex hj⟩

/-- The first position is where the mask has its maximum. -/
theorem argmax_eq {n a : Nat} {p : Nat → Prop} [DecidablePred p] (h : IsFirst n p a) :
    argmax ((List.range n).map fun i => decide (p i)) = a := by
  obtain ⟨ha, hpa, hmin⟩ := h
  have hfind : ((List.range n).map fun i => decide (p i)).findIdx? id = some a := by
    rw [List.findIdx?_eq_some_iff_getElem]
    refine ⟨by simpa using ha, by simpa using hpa, fun j hj => ?_⟩
    simpa using hmin j hj
  rw [argmax, hfind]
  rfl

variable {n : Nat} {q c : Nat → Nat} {decodeThreshold : Int}

/-- The starts of the queries. -/
private theorem queryStartLoc_batchMetadata (n : Nat) (q c : Nat → Nat) :
    (batchMetadata ((List.range n).map q) ((List.range n).map c)).queryStartLoc
      = (List.range (n + 1)).map fun i => ((((List.range i).map q).sum : Nat) : Int) := by
  simp only [batchMetadata, List.length_map, List.length_range]
  refine List.map_congr_left fun i hi => ?_
  have hle : i ≤ n := Nat.lt_succ_iff.mp (List.mem_range.mp hi)
  rw [← List.map_take, List.take_range, Nat.min_eq_left hle]

/-- The lengths of the queries, as differences of their starts. -/
theorem queryLens_batchMetadata (n : Nat) (q c : Nat → Nat) :
    (batchMetadata ((List.range n).map q) ((List.range n).map c)).queryLens
      = (List.range n).map fun i => (q i : Int) := by
  rw [CommonAttentionMetadata.queryLens, queryStartLoc_batchMetadata]
  refine List.ext_getElem (by simp) fun i hi hi' => ?_
  simp only [List.getElem_zipWith, List.getElem_tail, List.getElem_map, List.getElem_range]
  rw [List.range_succ, List.map_append, List.sum_append]
  simp

/-- A request is taken for a prefill if it has no computed tokens and a long query. -/
theorem isPrefill_batchMetadata (n : Nat) (q c : Nat → Nat) (decodeThreshold : Int) :
    ((batchMetadata ((List.range n).map q) ((List.range n).map c)).seqLens.zip
        (batchMetadata ((List.range n).map q) ((List.range n).map c)).queryLens).map
      (fun e => decide (e.1 = e.2 ∧ decodeThreshold < e.2))
      = (List.range n).map fun i => decide (c i = 0 ∧ decodeThreshold < q i) := by
  rw [queryLens_batchMetadata]
  refine List.ext_getElem (by simp [batchMetadata]) fun i hi hi' => ?_
  simp only [batchMetadata, List.getElem_map, List.getElem_zip, List.getElem_zipWith,
    List.getElem_range]
  congr 1
  rw [eq_iff_iff]
  omega

/-- Every entry is at most the greatest one. -/
theorem le_foldl_max {l : List Nat} {x : Nat} (hx : x ∈ l) (a : Nat) : x ≤ l.foldl max a := by
  have hstart : ∀ (l : List Nat) a, a ≤ l.foldl max a := by
    intro l
    induction l with
    | nil => exact fun a => le_rfl
    | cons y l ih => exact fun a => (le_max_left a y).trans (ih _)
  induction l generalizing a with
  | nil => cases hx
  | cons y l ih =>
    rcases List.mem_cons.mp hx with rfl | hx
    · exact (le_max_right a x).trans (hstart l _)
    · exact ih hx _

/-- A bound of all entries bounds the greatest one. -/
theorem foldl_max_le {l : List Nat} {a bound : Nat} (h : ∀ x ∈ l, x ≤ bound) (ha : a ≤ bound) :
    l.foldl max a ≤ bound := by
  induction l generalizing a with
  | nil => exact ha
  | cons y l ih =>
    exact ih (fun x hx => h x (List.mem_cons_of_mem _ hx)) (max_le ha (h y List.mem_cons_self))

/-- The split finds the first long query and the first long query without context. -/
theorem split_cases (n : Nat) (q c : Nat → Nat) (decodeThreshold : Int) :
    ∃ counts, splitDecodesPrefillsAndExtends
        (batchMetadata ((List.range n).map q) ((List.range n).map c)) decodeThreshold = counts ∧
      ((∀ i < n, (q i : Int) ≤ decodeThreshold) ∧
          counts.numDecodes = n ∧ counts.numExtends = 0 ∧ counts.numPrefills = 0 ∨
        (∃ fe, IsFirst n (fun i => decodeThreshold < q i) fe ∧
          (∀ i < n, ¬ (c i = 0 ∧ decodeThreshold < q i)) ∧
          counts.numDecodes = fe ∧ counts.numExtends = n - fe ∧ counts.numPrefills = 0) ∨
        ∃ fe fp, IsFirst n (fun i => decodeThreshold < q i) fe ∧
          IsFirst n (fun i => c i = 0 ∧ decodeThreshold < q i) fp ∧
          counts.numDecodes = fe ∧ counts.numExtends = fp - fe ∧ counts.numPrefills = n - fp) := by
  refine ⟨_, rfl, ?_⟩
  have hnum : (batchMetadata ((List.range n).map q) ((List.range n).map c)).numReqs = n := by
    simp [batchMetadata]
  have hany (p : Nat → Prop) [DecidablePred p] :
      ((List.range n).map fun i => decide (p i)).any id = true ↔ ∃ i < n, p i := by
    simp
  rw [splitDecodesPrefillsAndExtends]
  by_cases hmax : (batchMetadata ((List.range n).map q)
      ((List.range n).map c)).maxQueryLen ≤ decodeThreshold
  · rw [if_pos hmax, hnum]
    refine .inl ⟨fun i hi => ?_, rfl, rfl, rfl⟩
    have hle : q i ≤ ((List.range n).map q).foldl max 0 :=
      le_foldl_max (List.mem_map_of_mem (List.mem_range.mpr hi)) 0
    exact le_trans (Int.ofNat_le.mpr hle) hmax
  · rw [if_neg hmax]
    simp only [isPrefill_batchMetadata, hany, hnum]
    simp only [queryLens_batchMetadata, List.map_map, Function.comp_def, hany]
    by_cases hext : ∃ i < n, decodeThreshold < (q i : Int)
    · obtain ⟨fe, hfe⟩ := exists_isFirst hext
      rw [if_neg (not_not.mpr hext)]
      by_cases hpre : ∃ i < n, c i = 0 ∧ decodeThreshold < (q i : Int)
      · obtain ⟨fp, hfp⟩ := exists_isFirst hpre
        rw [if_neg (not_not.mpr hpre)]
        exact .inr (.inr ⟨fe, fp, hfe, hfp, by simp only [argmax_eq hfe],
          by simp only [argmax_eq hfe, argmax_eq hfp], by simp only [argmax_eq hfp]⟩)
      · rw [if_pos hpre]
        refine .inr (.inl ⟨fe, hfe, fun i hi h => hpre ⟨i, hi, h⟩, ?_, ?_, rfl⟩)
        · simp only [argmax_eq hfe]
        · simp only [argmax_eq hfe]
    · rw [if_pos hext]
      have hall : ∀ i < n, (q i : Int) ≤ decodeThreshold := fun i hi =>
        not_lt.mp fun hlt => hext ⟨i, hi, hlt⟩
      obtain rfl : n = 0 := by
        by_contra hn
        have h0 := hall 0 (by omega)
        refine hmax (le_trans (Int.ofNat_le.mpr (foldl_max_le (fun x hx => ?_) (Nat.zero_le _)))
          (Int.toNat_of_nonneg (by omega)).le)
        obtain ⟨i, hi, rfl⟩ := List.mem_map.mp hx
        have := hall i (List.mem_range.mp hi)
        omega
      exact .inl ⟨hall, rfl, rfl, rfl⟩

/-- The counts fit the requests: the segments cover the batch, decodes have short queries,
extends have context and prefills have none. -/
def SplitMatches (n : Nat) (q c : Nat → Nat) (decodeThreshold : Int) (counts : SplitCounts) :
    Prop :=
  counts.numDecodes + counts.numExtends + counts.numPrefills = n ∧
    ∀ i : Nat, i < n → (i < counts.numDecodes → (q i : Int) ≤ decodeThreshold) ∧
      (counts.numDecodes ≤ i → i < counts.numDecodes + counts.numExtends → 0 < c i) ∧
      (counts.numDecodes + counts.numExtends ≤ i → c i = 0)

/-- In a batch in order, the split fits the requests unless the extends are followed by a
prefill with a short query. -/
theorem splitMatches_iff {numDecodes numExtends : Nat} (hle : numDecodes + numExtends ≤ n)
    (hregion : ∀ i < n, reqRegion decodeThreshold (q i) (c i)
      = targetRegion numDecodes numExtends i) :
    SplitMatches n q c decodeThreshold (splitDecodesPrefillsAndExtends
        (batchMetadata ((List.range n).map q) ((List.range n).map c)) decodeThreshold) ↔
      (numExtends = 0 ∨ numDecodes + numExtends = n ∨
        decodeThreshold < q (numDecodes + numExtends)) := by
  have hdecode : ∀ i < n, i < numDecodes → 0 < c i ∧ (q i : Int) ≤ decodeThreshold := by
    intro i hi hd
    have h := hregion i hi
    unfold reqRegion targetRegion at h
    split_ifs at h
    omega
  have hextend : ∀ i < n, numDecodes ≤ i → i < numDecodes + numExtends →
      0 < c i ∧ decodeThreshold < q i := by
    intro i hi hd he
    have h := hregion i hi
    unfold reqRegion targetRegion at h
    split_ifs at h <;> omega
  have hprefill : ∀ i < n, numDecodes + numExtends ≤ i → c i = 0 := by
    intro i hi he
    have h := hregion i hi
    unfold reqRegion targetRegion at h
    split_ifs at h <;> omega
  obtain ⟨counts, hcounts, hcases⟩ := split_cases n q c decodeThreshold
  rw [hcounts]
  rcases hcases with ⟨hall, hd, he, hp⟩ | ⟨fe, ⟨hfe, hlong, hmin⟩, hnone, hd, he, hp⟩ |
    ⟨fe, fp, ⟨hfe, hlong, hmin⟩, ⟨hfp, ⟨hfpc, hfpq⟩, hminp⟩, hd, he, hp⟩
  · have hnoext : numExtends = 0 := by
      by_contra hne
      have h := (hextend numDecodes (by omega) le_rfl (by omega)).2
      have := hall numDecodes (by omega)
      omega
    refine iff_of_true ⟨by omega, fun i hi => ⟨fun _ => hall i hi, fun _ _ => ?_, fun _ => ?_⟩⟩
      (.inl hnoext)
    all_goals omega
  · -- without a long prefill, the first long query is that of an extend
    have hfe' : numDecodes ≤ fe ∧ fe < numDecodes + numExtends := by
      constructor
      · by_contra hlt
        have := (hdecode fe hfe (by omega)).2
        omega
      · by_contra hge
        exact hnone fe hfe ⟨hprefill fe hfe (by omega), hlong⟩
    obtain rfl : fe = numDecodes := by
      by_contra hne
      exact hmin numDecodes (by omega) (hextend numDecodes (by omega) le_rfl (by omega)).2
    constructor
    · rintro ⟨_, hmatch⟩
      by_contra hnot
      rw [not_or, not_or] at hnot
      have hctx := (hmatch (fe + numExtends) (by omega)).2.1 (by omega) (by omega)
      have := hprefill (fe + numExtends) (by omega) le_rfl
      omega
    · intro hcond
      have hend : fe + numExtends = n := by
        rcases hcond with h | h | h
        · omega
        · exact h
        · by_contra hne
          exact hnone _ (by omega) ⟨hprefill _ (by omega) le_rfl, h⟩
      refine ⟨by omega, fun i hi => ⟨fun h => (hdecode i hi (by omega)).2, fun h _ => ?_,
        fun h => by omega⟩⟩
      exact (hextend i hi (by omega) (by omega)).1
  · have hfp' : numDecodes + numExtends ≤ fp := by
      by_contra hlt
      by_cases hfd : fp < numDecodes
      · have := (hdecode fp hfp hfd).1
        omega
      · have := (hextend fp hfp (by omega) (by omega)).1
        omega
    have hfe' : fe ≤ fp := by
      by_contra hlt
      exact hmin fp (by omega) hfpq
    constructor
    · rintro ⟨_, hmatch⟩
      by_contra hnot
      rw [not_or, not_or] at hnot
      obtain ⟨hne, -, hshort⟩ := hnot
      have hfe : fe ≤ numDecodes := by
        by_contra hlt
        exact hmin numDecodes (by omega) (hextend numDecodes (by omega) le_rfl (by omega)).2
      have hfpne : numDecodes + numExtends ≠ fp := fun h => hshort (h ▸ hfpq)
      have hctx := (hmatch (numDecodes + numExtends) (by omega)).2.1 (by omega) (by omega)
      have := hprefill (numDecodes + numExtends) (by omega) le_rfl
      omega
    · intro hcond
      refine ⟨by omega, fun i hi => ⟨fun h => ?_, fun h h' => ?_,
        fun h => hprefill i hi (by omega)⟩⟩
      · exact not_lt.mp (hmin i (by omega))
      · rcases hcond with hno | hfull | hfirst
        · -- without extends, the first long query is that of a prefill
          have hfege : numDecodes ≤ fe := by
            by_contra hlt
            have := (hdecode fe (by omega) (by omega)).2
            omega
          exact absurd ⟨hprefill fe (by omega) (by omega), hlong⟩ (hminp fe (by omega))
        · omega
        · have hfpeq : fp = numDecodes + numExtends := by
            by_contra hne
            exact hminp _ (by omega) ⟨hprefill _ (by omega) le_rfl, hfirst⟩
          by_cases hd' : i < numDecodes
          · exact (hdecode i hi hd').1
          · exact (hextend i hi (by omega) (by omega)).1

end Vllm.Worker
