import Vllm.Worker.BatchReorder

/-!
# The split of the reordered batch

A batch without holes is reordered by swaps of its requests, and its regions ascend behind it.
The split of the result fits the requests unless there are extends and the prefill that comes
behind them is short.
-/

namespace Vllm.Worker

open Checked InputBatch CycleWalk RegionSort

variable {F : Type}

namespace InputBatch

variable {cfg : BatchConfig} {b b' : InputBatch F} {i j : Nat}

/-! ## Swaps of a batch without holes -/

/-- A batch without holes has a request at every index. -/
theorem Packed.exists_reqId (h : b.Packed) (hi : i < b.reqIds.length) :
    ∃ id, b.reqIds[i]? = some (some id) := by
  cases hid : b.reqIds[i] with
  | none => exact absurd (by rw [List.getElem?_eq_getElem hi, hid]) (h.filled i)
  | some id => exact ⟨id, by rw [List.getElem?_eq_getElem hi, hid]⟩

/-- No request is in the batch twice. -/
theorem Packed.nodup_reqIds (h : b.Packed) : b.reqIds.Nodup := by
  refine List.nodup_iff_getElem?_ne_getElem?.mpr fun i j hij hj heq => ?_
  obtain ⟨id, hid⟩ := h.exists_reqId hj
  have hi := (h.indexed i id).mp (heq.trans hid)
  rw [(h.indexed j id).mp hid] at hi
  exact hij.ne (Option.some.inj hi).symm

/-- Two requests of a batch without holes can be swapped. -/
theorem Packed.exists_swapStates (h : b.Packed) (cfg : BatchConfig) (hi : i < b.reqIds.length)
    (hj : j < b.reqIds.length) : ∃ b', b.swapStates cfg i j = .ok b' := by
  obtain ⟨idI, hidI⟩ := h.exists_reqId hi
  obtain ⟨idJ, hidJ⟩ := h.exists_reqId hj
  simp only [swapStates, hidI, hidJ, (h.indexed _ _).mp hidI, (h.indexed _ _).mp hidJ]
  exact ⟨_, rfl⟩

/-- A swap exchanges the computed tokens of two requests. -/
theorem numComputed_swapStates (h : b.swapStates cfg i j = .ok b') (k : Nat) :
    b'.tokens.numComputedTokensCpu k = if k = j then b.tokens.numComputedTokensCpu i
      else if k = i then b.tokens.numComputedTokensCpu j else b.tokens.numComputedTokensCpu k := by
  have htokens : b'.tokens = b.tokens.swap i j := by
    unfold swapStates at h
    split at h
    · split at h
      · cases h
        cases hpool : cfg.isPoolingModel <;> simp [swapParams]
      · cases h
    · cases h
    · cases h
  rw [htokens]
  exact swapEntries_apply _ i j k

/-- The request at an index, with its computed tokens. -/
def requestAt (b : InputBatch F) (k : Nat) : Option (Option RequestId) × Nat :=
  (b.reqIds[k]?, b.tokens.numComputedTokensCpu k)

/-- A batch that swaps lead to, without holes. -/
structure SwappedFrom (cfg : BatchConfig) (b b' : InputBatch F) : Prop where
  packed : b'.Packed
  length : b'.reqIds.length = b.reqIds.length
  mem : ∀ x, x ∈ b'.reqIds ↔ x ∈ b.reqIds
  swaps : ∃ swaps : List (Nat × Nat),
    swaps.foldlM (fun b e => b.swapStates cfg e.1 e.2) b = .ok b'

theorem SwappedFrom.refl (h : b.Packed) : SwappedFrom cfg b b :=
  ⟨h, rfl, fun _ => Iff.rfl, [], rfl⟩

/-- Swapped batches have the same requests. -/
theorem SwappedFrom.perm (h : SwappedFrom cfg b b') (hb : b.Packed) :
    b'.reqIds.Perm b.reqIds :=
  (List.perm_ext_iff_of_nodup h.packed.nodup_reqIds hb.nodup_reqIds).mpr h.mem

/-- One swap more. -/
theorem SwappedFrom.swap {b'' : InputBatch F} (h : SwappedFrom cfg b b')
    (hi : i < b.reqIds.length) (hj : j < b.reqIds.length)
    (hswap : b'.swapStates cfg i j = .ok b'') : SwappedFrom cfg b b'' := by
  have hswapped := swapped_of_swapStates hswap
  rw [← h.length] at hi hj
  have hids := getElem?_swapAt hi hj
  have hlength : b''.reqIds.length = b'.reqIds.length := by
    rw [hswapped.reqIds, length_swapAt]
  refine ⟨hswapped.packed h.packed, hlength.trans h.length, fun x => ?_, ?_⟩
  · rw [← h.mem, List.mem_iff_getElem?, List.mem_iff_getElem?, hswapped.reqIds]
    simp only [hids]
    constructor
    · rintro ⟨k, hk⟩
      split_ifs at hk
      · exact ⟨i, hk⟩
      · exact ⟨j, hk⟩
      · exact ⟨k, hk⟩
    · rintro ⟨k, hk⟩
      by_cases hkj : k = j
      · exact ⟨i, by split_ifs <;> simp_all⟩
      · by_cases hki : k = i
        · exact ⟨j, by rw [if_pos rfl, ← hki, hk]⟩
        · exact ⟨k, by rw [if_neg hkj, if_neg hki, hk]⟩
  · obtain ⟨swaps, hswaps⟩ := h.swaps
    refine ⟨swaps ++ [(i, j)], ?_⟩
    rw [List.foldlM_append, hswaps]
    exact bind_ok_iff.mpr ⟨b', rfl, bind_ok_iff.mpr ⟨b'', hswap, rfl⟩⟩

/-- The swaps of a batch without holes exchange its requests. -/
theorem swaps_requestAt (cfg : BatchConfig) (b : InputBatch F) :
    Swaps (fun b i j => (b.swapStates cfg i j).mapError ReorderError.batch)
      (SwappedFrom cfg b) requestAt b.reqIds.length := by
  intro b₁ i j hI hi hj
  have hi' := hi
  have hj' := hj
  rw [← hI.length] at hi hj
  obtain ⟨b₂, hswap⟩ := hI.packed.exists_swapStates cfg hi hj
  refine ⟨b₂, mapError_ok_iff.mpr hswap, hI.swap hi' hj' hswap, fun k => ?_⟩
  simp only [requestAt, numComputed_swapStates hswap, (swapped_of_swapStates hswap).reqIds,
    getElem?_swapAt hi hj]
  split_ifs <;> rfl

/-! ## Reordering -/

variable {numScheduledTokens : Dict RequestId Nat} {decodeThreshold : Int}

/-- How many tokens the request at an index is scheduled for. -/
def scheduledAt (numScheduledTokens : Dict RequestId Nat) (b : InputBatch F) (i : Nat) : Nat :=
  (b.reqIds[i]?.join.bind numScheduledTokens.get?).getD 0

/-- The region of the request at an index. -/
def regionAt (numScheduledTokens : Dict RequestId Nat) (decodeThreshold : Int)
    (b : InputBatch F) (i : Nat) : Nat :=
  reqRegion decodeThreshold (scheduledAt numScheduledTokens b i)
    (b.tokens.numComputedTokensCpu i)

/-- The scheduler's output has every request of the batch. -/
def Covered (numScheduledTokens : Dict RequestId Nat) (b : InputBatch F) : Prop :=
  ∀ id, some id ∈ b.reqIds → ∃ n, numScheduledTokens.get? id = some n

/-- The counts are read for all requests. -/
theorem Packed.mapM_scheduledTokens (h : b.Packed) (hcover : Covered numScheduledTokens b) :
    b.reqIds.mapM (scheduledTokens numScheduledTokens)
      = .ok ((List.range b.reqIds.length).map (scheduledAt numScheduledTokens b)) := by
  have hread : ∀ x ∈ b.reqIds, scheduledTokens numScheduledTokens x
      = .ok ((x.bind numScheduledTokens.get?).getD 0) := by
    rintro (_ | id) hx
    · obtain ⟨i, hi⟩ := List.mem_iff_getElem?.mp hx
      exact absurd hi (h.filled i)
    · obtain ⟨n, hn⟩ := hcover id hx
      simp [scheduledTokens, hn]
  rw [mapM_eq_ok_map hread]
  refine congrArg Except.ok (List.ext_getElem (by simp) fun i hi hi' => ?_)
  rw [List.length_map] at hi
  simp [scheduledAt, hi]

/-- The region wanted at an index. -/
def wantedAt (numScheduledTokens : Dict RequestId Nat) (decodeThreshold : Int)
    (b : InputBatch F) : Nat → Nat :=
  targetRegion
    (countRegion b.reqIds.length (regionAt numScheduledTokens decodeThreshold b) 0)
    (countRegion b.reqIds.length (regionAt numScheduledTokens decodeThreshold b) 1)

/-- The indices whose requests are in the wrong region. -/
abbrev misplacedAt (numScheduledTokens : Dict RequestId Nat) (decodeThreshold : Int)
    (b : InputBatch F) : List Nat :=
  misplaced b.reqIds.length (regionAt numScheduledTokens decodeThreshold b)
    (wantedAt numScheduledTokens decodeThreshold b)

/-- Where their requests are sent. -/
abbrev movesAt (numScheduledTokens : Dict RequestId Nat) (decodeThreshold : Int)
    (b : InputBatch F) : Dict Nat Nat :=
  moves b.reqIds.length (regionAt numScheduledTokens decodeThreshold b)
    (wantedAt numScheduledTokens decodeThreshold b)

private theorem wantedAt_mono (b : InputBatch F) {i j : Nat} (hij : i ≤ j) :
    wantedAt numScheduledTokens decodeThreshold b i
      ≤ wantedAt numScheduledTokens decodeThreshold b j :=
  targetRegion_mono _ _ hij

private theorem map_regionAt_perm (b : InputBatch F) :
    ((List.range b.reqIds.length).map (regionAt numScheduledTokens decodeThreshold b)).Perm
      ((List.range b.reqIds.length).map (wantedAt numScheduledTokens decodeThreshold b)) :=
  map_region_perm fun _ _ => reqRegion_lt _ _ _

/-- The reordering is the permutation by the moves. -/
theorem Packed.reorder_eq (h : b.Packed) (hcover : Covered numScheduledTokens b) :
    reorderBatchToSplitDecodesAndPrefills cfg numScheduledTokens decodeThreshold b =
      if misplacedAt numScheduledTokens decodeThreshold b = [] then .ok (false, b)
      else permute (fun b i j => (b.swapStates cfg i j).mapError .batch) .cutOff
        (movesAt numScheduledTokens decodeThreshold b) b >>= fun moved => .ok (true, moved.2) := by
  have hregion : (fun i => reqRegion decodeThreshold
      (((List.range b.reqIds.length).map (scheduledAt numScheduledTokens b)).getD i 0)
      (b.tokens.numComputedTokensCpu i)) = regionAt numScheduledTokens decodeThreshold b := by
    funext i
    unfold regionAt
    congr 1
    rcases Nat.lt_or_ge i b.reqIds.length with hi | hi
    · simp [hi]
    · simp [hi, scheduledAt]
  unfold reorderBatchToSplitDecodesAndPrefills
  rw [h.mapM_scheduledTokens hcover]
  simp only [bind, Except.bind, pure, Except.pure]
  rw [hregion]
  rfl

/-- The reordering succeeds, by swaps, and every misplaced request goes where it is sent. -/
theorem Packed.reorder_moves (h : b.Packed) (cfg : BatchConfig) (decodeThreshold : Int)
    (hcover : Covered numScheduledTokens b) :
    ∃ b', reorderBatchToSplitDecodesAndPrefills cfg numScheduledTokens decodeThreshold b
        = .ok (decide (misplacedAt numScheduledTokens decodeThreshold b ≠ []), b') ∧
      SwappedFrom cfg b b' ∧
      (misplacedAt numScheduledTokens decodeThreshold b = [] → b' = b) ∧
      (∀ k ∈ misplacedAt numScheduledTokens decodeThreshold b,
        requestAt b' (target (movesAt numScheduledTokens decodeThreshold b) k) = requestAt b k) ∧
      ∀ k ∉ misplacedAt numScheduledTokens decodeThreshold b,
        requestAt b' k = requestAt b k := by
  rw [h.reorder_eq hcover]
  by_cases hnil : misplacedAt numScheduledTokens decodeThreshold b = []
  · refine ⟨b, by rw [if_pos hnil, hnil]; rfl, SwappedFrom.refl h, fun _ => rfl, fun k hk => ?_,
      fun _ _ => rfl⟩
    rw [hnil] at hk
    cases hk
  · obtain ⟨m', b', hrun, hswapped, hsent, hrest⟩ :=
      permute_spec ReorderError.cutOff (swaps_requestAt cfg b) (SwappedFrom.refl h)
        (m := movesAt numScheduledTokens decodeThreshold b)
        (fun k hk => (mem_misplaced.mp (mem_keys_moves.mp hk)).1)
        (fun k hk => mem_keys_moves.mpr (target_moves_mem (mem_keys_moves.mp hk)))
        (fun k hk k' hk' => target_moves_inj (mem_keys_moves.mp hk) (mem_keys_moves.mp hk'))
    refine ⟨b', ?_, hswapped, fun heq => absurd heq hnil,
      fun k hk => hsent k (mem_keys_moves.mpr hk),
      fun k hk => hrest k fun hmem => hk (mem_keys_moves.mp hmem)⟩
    rw [if_neg hnil, hrun, decide_eq_true hnil]
    rfl

/-! ## The split -/

/-- What a reordering is for: swaps of requests that bring the regions into order, and a
result that says whether there were any. -/
structure Reordered (cfg : BatchConfig) (numScheduledTokens : Dict RequestId Nat)
    (decodeThreshold : Int) (b : InputBatch F) (modified : Bool) (b' : InputBatch F) : Prop where
  swaps : ∃ swaps : List (Nat × Nat),
    swaps.foldlM (fun b e => b.swapStates cfg e.1 e.2) b = .ok b' ∧ (modified ↔ swaps ≠ [])
  changed : modified ↔ b' ≠ b
  perm : b'.reqIds.Perm b.reqIds
  ordered : ∀ i j, i ≤ j → j < b'.reqIds.length →
    regionAt numScheduledTokens decodeThreshold b' i
      ≤ regionAt numScheduledTokens decodeThreshold b' j

/-- The split of the batch, with the lengths that the model runner hands over, fits the
requests. -/
def SplitFits (numScheduledTokens : Dict RequestId Nat) (decodeThreshold : Int)
    (b : InputBatch F) : Prop :=
  SplitMatches b.reqIds.length (scheduledAt numScheduledTokens b)
    b.tokens.numComputedTokensCpu decodeThreshold
    (splitDecodesPrefillsAndExtends
      (batchMetadata ((List.range b.reqIds.length).map (scheduledAt numScheduledTokens b))
        ((List.range b.reqIds.length).map b.tokens.numComputedTokensCpu)) decodeThreshold)

/-- The index of the prefill that comes first behind the reordering: the one at the index
where prefills are wanted from, else the first of the batch. -/
def leadingPrefill (numScheduledTokens : Dict RequestId Nat) (decodeThreshold : Int)
    (b : InputBatch F) : Option Nat :=
  let region := regionAt numScheduledTokens decodeThreshold b
  let n := b.reqIds.length
  let start := countRegion n region 0 + countRegion n region 1
  if start < n ∧ region start = 2 then some start
  else (List.range n).find? fun i => region i = 2

/-- The batch has no extends, or the prefill that comes first is long. -/
def LeadIsLong (numScheduledTokens : Dict RequestId Nat) (decodeThreshold : Int)
    (b : InputBatch F) : Prop :=
  (∀ i < b.reqIds.length, regionAt numScheduledTokens decodeThreshold b i ≠ 1) ∨
    ∀ lead ∈ leadingPrefill numScheduledTokens decodeThreshold b,
      decodeThreshold < scheduledAt numScheduledTokens b lead

instance : Decidable (LeadIsLong numScheduledTokens decodeThreshold b) :=
  inferInstanceAs (Decidable ((∀ i < _, _) ∨ ∀ lead ∈ _, _))

private theorem regionAt_congr {b b' : InputBatch F} {i j : Nat}
    (h : requestAt b' j = requestAt b i) :
    regionAt numScheduledTokens decodeThreshold b' j
      = regionAt numScheduledTokens decodeThreshold b i := by
  obtain ⟨hid, hcomputed⟩ := Prod.ext_iff.mp h
  simp only [requestAt] at hid hcomputed
  simp only [regionAt, scheduledAt, hid, hcomputed]

private theorem scheduledAt_congr {b b' : InputBatch F} {i j : Nat}
    (h : requestAt b' j = requestAt b i) :
    scheduledAt numScheduledTokens b' j = scheduledAt numScheduledTokens b i := by
  have hid := (Prod.ext_iff.mp h).1
  simp only [requestAt] at hid
  simp only [scheduledAt, hid]

section Moved

variable (hsent : ∀ k ∈ misplacedAt numScheduledTokens decodeThreshold b,
    requestAt b' (target (movesAt numScheduledTokens decodeThreshold b) k) = requestAt b k)
  (hrest : ∀ k ∉ misplacedAt numScheduledTokens decodeThreshold b,
    requestAt b' k = requestAt b k)

include hsent hrest

/-- Behind the moves every index has the region that is wanted there. -/
theorem regionAt_moved {i : Nat} (hi : i < b.reqIds.length) :
    regionAt numScheduledTokens decodeThreshold b' i
      = wantedAt numScheduledTokens decodeThreshold b i := by
  by_cases hmis : i ∈ misplacedAt numScheduledTokens decodeThreshold b
  · obtain ⟨k, hk, rfl⟩ := exists_target_eq hmis
    rw [regionAt_congr (hsent k hk)]
    exact key_eq_want_target (fun i j hij _ => wantedAt_mono b hij) (map_regionAt_perm b) hk
  · rw [regionAt_congr (hrest i hmis)]
    by_contra hne
    exact hmis (mem_misplaced.mpr ⟨hi, hne⟩)

/-- The prefill that comes first behind the moves is the leading one of before. -/
theorem requestAt_lead {start : Nat}
    (hstart : start = countRegion b.reqIds.length (regionAt numScheduledTokens decodeThreshold b) 0
      + countRegion b.reqIds.length (regionAt numScheduledTokens decodeThreshold b) 1)
    (hlt : start < b.reqIds.length) :
    ∃ lead, leadingPrefill numScheduledTokens decodeThreshold b = some lead ∧
      requestAt b' start = requestAt b lead := by
  have hwant : ∀ i < b.reqIds.length, start ≤ i →
      wantedAt numScheduledTokens decodeThreshold b i = 2 := by
    intro i _ hi
    unfold wantedAt targetRegion
    rw [if_neg (by omega), if_neg (by omega)]
  have hfrom : ∀ i < b.reqIds.length,
      wantedAt numScheduledTokens decodeThreshold b i = 2 → start ≤ i := by
    intro i _ hi
    unfold wantedAt targetRegion at hi
    split_ifs at hi <;> omega
  unfold leadingPrefill
  simp only [← hstart]
  by_cases hmis : start ∈ misplacedAt numScheduledTokens decodeThreshold b
  · obtain ⟨lead, hlead, htarget, hkey, hbefore⟩ := exists_first_target
      (fun i j hij _ => wantedAt_mono b hij) (map_regionAt_perm b) hfrom hwant hmis
    refine ⟨lead, ?_, ?_⟩
    · rw [if_neg fun hfix => (mem_misplaced.mp hmis).2 (hfix.2.trans (hwant _ hlt le_rfl).symm)]
      rw [List.find?_range_eq_some]
      refine ⟨decide_eq_true hkey, List.mem_range.mpr (mem_misplaced.mp hlead).1, fun i hi => ?_⟩
      simpa using hbefore i hi
    · rw [← hsent lead hlead, htarget]
  · have hfix : regionAt numScheduledTokens decodeThreshold b start = 2 := by
      by_contra hne
      exact hmis (mem_misplaced.mpr ⟨hlt, fun heq => hne (heq.trans (hwant _ hlt le_rfl))⟩)
    exact ⟨start, if_pos ⟨hlt, hfix⟩, hrest start hmis⟩

end Moved

/-- The number of requests is the sum over the regions. -/
theorem countRegion_add (numScheduledTokens : Dict RequestId Nat) (decodeThreshold : Int)
    (b : InputBatch F) :
    countRegion b.reqIds.length (regionAt numScheduledTokens decodeThreshold b) 0
      + countRegion b.reqIds.length (regionAt numScheduledTokens decodeThreshold b) 1
      + countRegion b.reqIds.length (regionAt numScheduledTokens decodeThreshold b) 2
      = b.reqIds.length := by
  unfold countRegion
  rw [count_add_count_add_count, List.length_map, List.length_range]
  intro x hx
  obtain ⟨i, -, rfl⟩ := List.mem_map.mp hx
  exact reqRegion_lt _ _ _

/-- A region has no requests exactly when its count is zero. -/
theorem countRegion_eq_zero {n : Nat} {region : Nat → Nat} {c : Nat} :
    countRegion n region c = 0 ↔ ∀ i < n, region i ≠ c := by
  simp [countRegion, List.count_eq_zero]

/-- The reordering of a batch without holes. -/
theorem Packed.reordered (h : b.Packed) (cfg : BatchConfig) (decodeThreshold : Int)
    (hcover : Covered numScheduledTokens b) :
    ∃ modified b', reorderBatchToSplitDecodesAndPrefills cfg numScheduledTokens decodeThreshold b
        = .ok (modified, b') ∧ Reordered cfg numScheduledTokens decodeThreshold b modified b' := by
  obtain ⟨b', hrun, hswapped, hsame, hsent, hrest⟩ := h.reorder_moves cfg decodeThreshold hcover
  have hregion : ∀ i < b.reqIds.length, regionAt numScheduledTokens decodeThreshold b' i
      = wantedAt numScheduledTokens decodeThreshold b i :=
    fun i hi => regionAt_moved hsent hrest hi
  have hchanged : decide (misplacedAt numScheduledTokens decodeThreshold b ≠ []) = true ↔
      b' ≠ b := by
    rw [decide_eq_true_iff]
    refine ⟨fun hne heq => ?_, fun hne hnil => hne (hsame hnil)⟩
    obtain ⟨i, hi⟩ := List.exists_mem_of_ne_nil _ hne
    obtain ⟨hlt, hmis⟩ := mem_misplaced.mp hi
    exact hmis (heq ▸ hregion i hlt)
  refine ⟨_, b', hrun, ?_, hchanged, hswapped.perm h, fun i j hij hj => ?_⟩
  · by_cases hnil : misplacedAt numScheduledTokens decodeThreshold b = []
    · exact ⟨[], by rw [hsame hnil]; rfl, by simp [hnil]⟩
    · obtain ⟨swaps, hswaps⟩ := hswapped.swaps
      refine ⟨swaps, hswaps, fun _ => ?_, fun _ => decide_eq_true hnil⟩
      rintro rfl
      exact hchanged.mp (decide_eq_true hnil) (Except.ok.inj hswaps).symm
  · rw [hswapped.length] at hj
    rw [hregion i (by omega), hregion j hj]
    exact wantedAt_mono b hij

/-- The split of the reordered batch fits when there are no extends or a long leading prefill. -/
theorem Packed.splitFits_iff (h : b.Packed) (hcover : Covered numScheduledTokens b)
    {modified : Bool} (hrun : reorderBatchToSplitDecodesAndPrefills cfg numScheduledTokens
      decodeThreshold b = .ok (modified, b')) :
    SplitFits numScheduledTokens decodeThreshold b' ↔
      LeadIsLong numScheduledTokens decodeThreshold b := by
  obtain ⟨b'', hrun', hswapped, -, hsent, hrest⟩ := h.reorder_moves cfg decodeThreshold hcover
  obtain rfl : b' = b'' := congrArg Prod.snd (Except.ok.inj (hrun.symm.trans hrun'))
  have hregion : ∀ i < b'.reqIds.length, regionAt numScheduledTokens decodeThreshold b' i
      = wantedAt numScheduledTokens decodeThreshold b i :=
    fun i hi => regionAt_moved hsent hrest (hswapped.length ▸ hi)
  have hcount := countRegion_add numScheduledTokens decodeThreshold b
  have hfits : SplitFits numScheduledTokens decodeThreshold b' ↔ _ :=
    splitMatches_iff (by rw [hswapped.length]; omega) hregion
  rw [hfits, countRegion_eq_zero, hswapped.length]
  refine or_congr_right ?_
  rcases Nat.lt_or_ge (countRegion b.reqIds.length
      (regionAt numScheduledTokens decodeThreshold b) 0
    + countRegion b.reqIds.length (regionAt numScheduledTokens decodeThreshold b) 1)
    b.reqIds.length with hlt | hge
  · obtain ⟨lead, hlead, hrequest⟩ := requestAt_lead hsent hrest rfl hlt
    rw [hlead, scheduledAt_congr hrequest]
    simp [hlt.ne]
  · have hno := countRegion_eq_zero.mp (show countRegion b.reqIds.length
        (regionAt numScheduledTokens decodeThreshold b) 2 = 0 by omega)
    have hnone : leadingPrefill numScheduledTokens decodeThreshold b = none := by
      unfold leadingPrefill
      rw [if_neg (by omega), List.find?_eq_none]
      intro i hi
      simpa using hno i (List.mem_range.mp hi)
    rw [hnone]
    simp only [Option.mem_def, reduceCtorEq, false_implies, implies_true, iff_true]
    exact Or.inl (by omega)

/-- The reordering and the split of its result do what they are for exactly when the batch has
no extends, or its leading prefill is scheduled for more than `decode_threshold` tokens. -/
theorem reorder_split_iff (h : b.Packed) (hcover : Covered numScheduledTokens b) :
    (∃ modified b', reorderBatchToSplitDecodesAndPrefills cfg numScheduledTokens decodeThreshold b
        = .ok (modified, b') ∧ Reordered cfg numScheduledTokens decodeThreshold b modified b' ∧
      SplitFits numScheduledTokens decodeThreshold b') ↔
      LeadIsLong numScheduledTokens decodeThreshold b := by
  constructor
  · rintro ⟨modified, b', hrun, -, hfits⟩
    exact (h.splitFits_iff hcover hrun).mp hfits
  · intro hlong
    obtain ⟨modified, b', hrun, hreordered⟩ := h.reordered cfg decodeThreshold hcover
    exact ⟨modified, b', hrun, hreordered, (h.splitFits_iff hcover hrun).mpr hlong⟩

/-! ## A short prompt behind a chunk -/

/-- Two requests, the first without and the second with computed tokens. -/
def newAndContinued : InputBatch Nat where
  reqIds := [some 0, some 1]
  reqIdToIndex := (Dict.empty.insert 0 0).insert 1 1
  reqOutputTokenIds := [some [], some []]
  specTokenIds := [[], []]
  tokens := ⟨fun _ _ => 0, fun _ _ => true, fun _ => 0, fun i => if i = 0 then 3 else 9,
    fun i => if i = 0 then 0 else 4⟩
  reqPromptEmbeds := .empty
  blockTables := []
  sampling := ⟨fun _ => 0, fun _ => 0, fun _ => 0, fun _ => 0, fun _ => 0, fun _ => 0⟩
  numAcceptedTokensCpu := fun _ => 1
  requestLoraMapping := fun _ => 0
  loraIdToRequestIds := .empty
  loraIdToLoraRequest := .empty
  generators := .empty
  allowedTokenIdsMask := none
  badWordsTokenIds := .empty
  logitsProcessingNeedsTokenIds := fun _ => false
  batchUpdateBuilder := {}

/-- The tokens that the two requests are scheduled for. -/
def scheduledBoth (first second : Nat) : Dict RequestId Nat :=
  (Dict.empty.insert 0 first).insert 1 second

private theorem newAndContinued_packed : newAndContinued.Packed where
  indexed i id := by
    simp only [newAndContinued, Dict.get?_insert, Dict.get?_empty]
    rcases i with _ | _ | i <;> grind
  filled i := by
    rcases i with _ | _ | i <;> simp [newAndContinued]
  outputs := rfl

private theorem newAndContinued_covered (first second : Nat) :
    Covered (scheduledBoth first second) newAndContinued := by
  intro id hid
  simp only [newAndContinued, List.mem_cons, Option.some.injEq, List.not_mem_nil, or_false] at hid
  rcases hid with rfl | rfl
  · exact ⟨first, by simp [scheduledBoth, Dict.get?_insert]⟩
  · exact ⟨second, by simp [scheduledBoth, Dict.get?_insert]⟩

/-- A prompt of one token next to the last chunk of a long prompt, with the threshold 1: behind
the reordering the split takes both for extends. -/
theorem shortPrompt_split_wrong : ¬ ∃ modified b',
    reorderBatchToSplitDecodesAndPrefills ⟨false, 4, 4, []⟩ (scheduledBoth 1 5) 1 newAndContinued
      = .ok (modified, b') ∧
    Reordered ⟨false, 4, 4, []⟩ (scheduledBoth 1 5) 1 newAndContinued modified b' ∧
    SplitFits (scheduledBoth 1 5) 1 b' := by
  rintro ⟨modified, b', hrun, -, hfits⟩
  have hlong := (newAndContinued_packed.splitFits_iff (newAndContinued_covered 1 5) hrun).mp hfits
  revert hlong
  decide

/-- With a prompt of three tokens there it fits. -/
theorem longPrompt_split_right : ∃ modified b',
    reorderBatchToSplitDecodesAndPrefills ⟨false, 4, 4, []⟩ (scheduledBoth 3 5) 1 newAndContinued
      = .ok (modified, b') ∧
    Reordered ⟨false, 4, 4, []⟩ (scheduledBoth 3 5) 1 newAndContinued modified b' ∧
    SplitFits (scheduledBoth 3 5) 1 b' :=
  (reorder_split_iff newAndContinued_packed (newAndContinued_covered 3 5)).mpr (by decide)

end InputBatch

end Vllm.Worker
