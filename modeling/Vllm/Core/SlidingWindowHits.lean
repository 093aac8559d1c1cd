import Vllm.Library.WindowScan
import Vllm.Core.ManagerSteps
import Vllm.Core.PrefixHits

/-!
# The longest hit of a sliding window

The lookup of sliding windows scans the hashes of a request from right to left, counts
the run of cached blocks it is in, and stops when the run fills the window. It finds
the longest aligned length whose last window is cached, and the blocks it leaves null
are those that the freeing formula skips.
-/

namespace Vllm

open Checked BlockPool HashChain WindowScan

variable {H : Type}

/-! ## Cached positions -/

/-- The block cached for a group under hash `i` of a request. -/
def groupHit (p : BlockPool H) (blockHashes : List H) (spec : KVCacheSpec) (groupId i : Nat) :
    Option BlockId :=
  (mergedHash blockHashes (spec.blockSize / p.hashBlockSize) i).bind fun blockHash =>
    p.cachedBlockHashToBlock.getOneBlock ⟨blockHash, groupId⟩

/-- Hash `i` is cached in all groups that are looked up together. -/
def CachedInAll (p : BlockPool H) (blockHashes : List H) (spec : KVCacheSpec)
    (groupIds : List Nat) (i : Nat) : Prop :=
  ∀ groupId ∈ groupIds, (groupHit p blockHashes spec groupId i).isSome

/-- The request has a hash for every block up to a length. -/
def HashesCover (p : BlockPool H) (blockHashes : List H) (spec : KVCacheSpec) (maxLength : Nat) :
    Prop :=
  maxLength / spec.blockSize * (spec.blockSize / p.hashBlockSize) ≤ blockHashes.length

/-- The hasher leaves no full block of a request without a hash, so a request whose hashes are
up to date covers every length up to its tokens. -/
theorem hashesCover_updateBlockHashes (env : HashEnv H) {p : BlockPool H}
    (hpos : 0 < p.hashBlockSize) (r : Request H) (spec : KVCacheSpec) {maxLength : Nat}
    (hmax : maxLength ≤ r.numTokens) : HashesCover p
      (Request.updateBlockHashes env p.hashBlockSize r).blockHashes spec maxLength := by
  have hlength : r.numTokens / p.hashBlockSize ≤
      (Request.updateBlockHashes env p.hashBlockSize r).blockHashes.length := by
    rw [Request.updateBlockHashes, List.length_append, requestBlockHasher_eq_chain env hpos,
      length_chain, length_blockInputs]
    omega
  refine le_trans ?_ hlength
  rw [Nat.le_div_iff_mul_le hpos, Nat.mul_assoc]
  calc maxLength / spec.blockSize * (spec.blockSize / p.hashBlockSize * p.hashBlockSize)
      ≤ maxLength / spec.blockSize * spec.blockSize :=
        Nat.mul_le_mul_left _ (Nat.div_mul_le_self _ _)
    _ ≤ maxLength := Nat.div_mul_le_self _ _
    _ ≤ r.numTokens := hmax

/-- The index never offers the null block. -/
def NullUncached (p : BlockPool H) : Prop :=
  ∀ key, p.cachedBlockHashToBlock.getOneBlock key ≠ some nullBlock

/-- A pool whose index agrees with the hashes of its blocks does not offer the null block. -/
theorem BlockPool.IndexInv.nullUncached {p : BlockPool H} (h : p.IndexInv) : NullUncached p := by
  intro key hkey
  have hstored := (h.stores_iff _ _).mp (BlockHashToBlockMap.stores_of_getOneBlock hkey)
  rw [h.null_unhashed] at hstored
  cases hstored

section Columns

variable {p : BlockPool H} {blockHashes : List H} {spec : KVCacheSpec} {groupIds : List Nat}

/-- A column is a list of the groups' cached blocks. -/
theorem getCachedBlock_eq_some_iff {blockHash : List H} {column : List BlockId} :
    p.getCachedBlock blockHash groupIds = some column ↔
      List.Forall₂ (fun groupId b =>
        p.cachedBlockHashToBlock.getOneBlock ⟨blockHash, groupId⟩ = some b) groupIds column := by
  unfold getCachedBlock
  induction groupIds generalizing column with
  | nil => simp [eq_comm]
  | cons g groupIds ih =>
    simp only [List.mapM_cons, Option.bind_eq_bind, Option.bind_eq_some_iff, Option.pure_def,
      Option.some.injEq, List.forall₂_cons_left_iff]
    constructor
    · rintro ⟨b, hb, rest, hrest, rfl⟩
      exact ⟨b, rest, hb, ih.mp hrest, rfl⟩
    · rintro ⟨b, rest, hb, hrest, rfl⟩
      exact ⟨b, hb, rest, ih.mpr hrest, rfl⟩

/-- All groups have the block exactly when there is a column. -/
theorem exists_column_iff {blockHash : List H} :
    (∃ column, p.getCachedBlock blockHash groupIds = some column) ↔
      ∀ groupId ∈ groupIds,
        (p.cachedBlockHashToBlock.getOneBlock ⟨blockHash, groupId⟩).isSome := by
  simp only [getCachedBlock_eq_some_iff]
  constructor
  · rintro ⟨column, hcolumn⟩ groupId hg
    obtain ⟨k, hk⟩ := List.mem_iff_getElem?.mp hg
    have hlt : k < groupIds.length := (List.getElem?_eq_some_iff.mp hk).1
    have hget := hcolumn.get hlt (hcolumn.length_eq ▸ hlt)
    rw [List.getElem?_eq_getElem hlt, Option.some.injEq] at hk
    simp only [List.get_eq_getElem, hk] at hget
    simp [hget]
  · intro hall
    induction groupIds with
    | nil => exact ⟨[], .nil⟩
    | cons g groupIds ih =>
      obtain ⟨b, hb⟩ := Option.isSome_iff_exists.mp (hall g List.mem_cons_self)
      obtain ⟨column, hcolumn⟩ := ih fun g' hg' => hall g' (List.mem_cons_of_mem _ hg')
      exact ⟨b :: column, .cons hb hcolumn⟩

/-- Looking a block up under a hash that the request has. -/
theorem cachedColumn_eq {scaleFactor i : Nat} {blockHash : List H}
    (h : mergedHash blockHashes scaleFactor i = some blockHash) :
    cachedColumn p blockHashes scaleFactor groupIds i =
      .ok (p.getCachedBlock blockHash groupIds) := by
  simp only [cachedColumn, h]

/-- The hashes up to a covered length are there. -/
theorem HashesCover.mergedHash {maxLength i : Nat} (h : HashesCover p blockHashes spec maxLength)
    (hi : i < maxLength / spec.blockSize) : ∃ blockHash,
      mergedHash blockHashes (spec.blockSize / p.hashBlockSize) i = some blockHash := by
  have hle : (i + 1) * (spec.blockSize / p.hashBlockSize) ≤ blockHashes.length :=
    (Nat.mul_le_mul_right _ hi).trans h
  exact ⟨_, by rw [BlockPool.mergedHash, if_pos hle]⟩

/-- The column of index `i` lists the hits of the groups. -/
def IsColumn (p : BlockPool H) (blockHashes : List H) (spec : KVCacheSpec) (groupIds : List Nat)
    (i : Nat) (column : List BlockId) : Prop :=
  List.Forall₂ (fun groupId b => groupHit p blockHashes spec groupId i = some b) groupIds column

/-- The entry of a group in a column is its hit. -/
theorem IsColumn.getD {i : Nat} {column : List BlockId}
    (h : IsColumn p blockHashes spec groupIds i column) {k groupId : Nat}
    (hk : groupIds[k]? = some groupId) :
    groupHit p blockHashes spec groupId i = some (column.getD k nullBlock) := by
  have hlt : k < groupIds.length := (List.getElem?_eq_some_iff.mp hk).1
  have hlt' : k < column.length := h.length_eq ▸ hlt
  have hget := h.get hlt hlt'
  rw [List.getElem?_eq_getElem hlt, Option.some.injEq] at hk
  rw [List.getD_eq_getElem?_getD, List.getElem?_eq_getElem hlt', Option.getD_some]
  simpa only [List.get_eq_getElem, hk] using hget

/-- What the lookup of one index finds: a column, exactly when all groups have the block. -/
theorem cachedColumn_cases (groupIds : List Nat) {maxLength i : Nat}
    (h : HashesCover p blockHashes spec maxLength) (hi : i < maxLength / spec.blockSize) :
    (∃ column, cachedColumn p blockHashes (spec.blockSize / p.hashBlockSize) groupIds i =
        .ok (some column) ∧ IsColumn p blockHashes spec groupIds i column ∧
      CachedInAll p blockHashes spec groupIds i) ∨
    cachedColumn p blockHashes (spec.blockSize / p.hashBlockSize) groupIds i = .ok none ∧
      ¬ CachedInAll p blockHashes spec groupIds i := by
  obtain ⟨blockHash, hmerged⟩ := h.mergedHash hi
  have hall : CachedInAll p blockHashes spec groupIds i ↔
      ∃ column, p.getCachedBlock blockHash groupIds = some column := by
    simp only [CachedInAll, groupHit, hmerged, Option.bind_some, exists_column_iff]
  rw [cachedColumn_eq hmerged, hall]
  cases hcached : p.getCachedBlock blockHash groupIds with
  | none => exact Or.inr ⟨rfl, by simp⟩
  | some column =>
    refine Or.inl ⟨column, rfl, ?_, column, rfl⟩
    have hcolumn := getCachedBlock_eq_some_iff.mp hcached
    simpa only [IsColumn, groupHit, hmerged, Option.bind_some] using hcolumn

end Columns

/-! ## The scan -/

/-- A length that is aligned is kept. -/
theorem alignedLength_of_dvd {blockSize alignmentTokens n : Nat}
    (h : alignmentTokens ∣ n * blockSize) : alignedLength blockSize alignmentTokens n = n := by
  cases n with
  | zero => rfl
  | succ n => rw [alignedLength, if_pos (Nat.mod_eq_zero_of_dvd h)]

/-- Aligning finds an aligned length. -/
theorem dvd_alignedLength (blockSize alignmentTokens n : Nat) :
    alignmentTokens ∣ alignedLength blockSize alignmentTokens n * blockSize := by
  induction n with
  | zero => simp [alignedLength]
  | succ n ih =>
    rw [alignedLength]
    split
    · rename_i hmod
      exact Nat.dvd_of_mod_eq_zero hmod
    · exact ih

/-- Aligning does not lengthen. -/
theorem alignedLength_le (blockSize alignmentTokens n : Nat) :
    alignedLength blockSize alignmentTokens n ≤ n := by
  induction n with
  | zero => exact Nat.le_refl _
  | succ n ih =>
    rw [alignedLength]
    split
    · exact Nat.le_refl _
    · exact ih.trans (Nat.le_succ n)

section Scan

variable {p : BlockPool H} {blockHashes : List H} {spec : KVCacheSpec} {groupIds : List Nat}
  {maxLength alignmentTokens width : Nat}

/-- The ends that a scan may stop at: aligned, with the last `width` blocks cached. -/
abbrev FitsAt (p : BlockPool H) (blockHashes : List H) (spec : KVCacheSpec) (groupIds : List Nat)
    (maxLength alignmentTokens width n : Nat) : Prop :=
  Fits (CachedInAll p blockHashes spec groupIds) (fun n => alignmentTokens ∣ n * spec.blockSize)
    width (maxLength / spec.blockSize) n

/-- The columns of the last `width` indices are filled in. -/
def WindowFilled (p : BlockPool H) (blockHashes : List H) (spec : KVCacheSpec)
    (groupIds : List Nat) (width : Nat) (columns : List (List BlockId)) : Prop :=
  ∀ i, columns.length - width ≤ i → i < columns.length →
    ∃ column, columns[i]? = some column ∧ IsColumn p blockHashes spec groupIds i column

/-- The scan ends at the largest end that fits, with the columns of its window. Even where
no contiguous blocks are asked for, it stops only at a cached block. -/
theorem slidingWindowHitLoop_spec (groupIds : List Nat) (alignmentTokens : Nat)
    (hcover : HashesCover p blockHashes spec maxLength) {contiguousBlocks n c : Nat}
    (hwidth : width = max contiguousBlocks 1) {computed : List (List BlockId)}
    (hlen : computed.length = maxLength / spec.blockSize)
    (hfrontier : Frontier (CachedInAll p blockHashes spec groupIds)
      (fun n => alignmentTokens ∣ n * spec.blockSize) width (maxLength / spec.blockSize) n c)
    (hrun : ∀ i, n ≤ i → i < n + c →
      ∃ column, computed[i]? = some column ∧ IsColumn p blockHashes spec groupIds i column) :
    ∃ computed' c' found, slidingWindowHitLoop p blockHashes (spec.blockSize / p.hashBlockSize)
        groupIds contiguousBlocks spec.blockSize alignmentTokens n computed c =
          .ok (computed', c', found) ∧
      IsGreatest {m | FitsAt p blockHashes spec groupIds maxLength alignmentTokens width m}
        (if found then computed' else computed'.take c').length ∧
      WindowFilled p blockHashes spec groupIds width
        (if found then computed' else computed'.take c') := by
  induction n generalizing computed c with
  | zero =>
    have hbound := hfrontier.le_bound
    have htake : (computed.take c).length = c := by
      rw [List.length_take]
      omega
    refine ⟨computed, c, false, rfl, ?_, fun i _ hi => ?_⟩
    · rw [if_neg Bool.false_ne_true, htake]
      exact hfrontier.exhausted (by simp)
    · rw [if_neg Bool.false_ne_true, htake] at hi
      obtain ⟨column, hget, hcolumn⟩ := hrun i (Nat.zero_le i) (by omega)
      refine ⟨column, ?_, hcolumn⟩
      rw [if_neg Bool.false_ne_true, List.getElem?_take, if_pos hi, hget]
  | succ n ih =>
    have hbound := hfrontier.le_bound
    simp only [slidingWindowHitLoop, bind_ok_iff]
    have hlt : n < maxLength / spec.blockSize := by omega
    rcases cachedColumn_cases groupIds hcover hlt with
      ⟨column, hcached, hcolumn, hall⟩ | ⟨hcached, hall⟩
    · by_cases hskip : c = 0 ∧ spec.blockSize ≠ alignmentTokens ∧
          (n + 1) * spec.blockSize % alignmentTokens ≠ 0
      · -- a run does not start at an end that is not aligned
        have hnot : ¬ alignmentTokens ∣ (n + 1) * spec.blockSize := fun hdvd =>
          hskip.2.2 (Nat.mod_eq_zero_of_dvd hdvd)
        have hzero := hfrontier
        rw [hskip.1] at hzero
        obtain ⟨computed', c', found, hloop, hgood⟩ :=
          ih hlen (hzero.skip hnot) fun i hi hlt => absurd hlt (by omega)
        refine ⟨computed', c', found, ⟨some column, hcached, ?_⟩, hgood⟩
        rw [← hskip.1] at hloop
        simpa only [if_pos hskip] using hloop
      · have hstart : c = 0 → alignmentTokens ∣ (n + 1) * spec.blockSize := by
          intro hc
          by_cases heq : spec.blockSize = alignmentTokens
          · rw [← heq]
            exact Nat.dvd_mul_left _ _
          · by_contra hnot
            exact hskip ⟨hc, heq, fun hmod => hnot (Nat.dvd_of_mod_eq_zero hmod)⟩
        have hset : ∀ i, n ≤ i → i < n + (c + 1) → ∃ column',
            (computed.set n column)[i]? = some column' ∧
              IsColumn p blockHashes spec groupIds i column' := by
          intro i hi hlt
          rcases Nat.eq_or_lt_of_le hi with rfl | hi
          · exact ⟨column, by rw [List.getElem?_set_self (by omega)], hcolumn⟩
          · rw [List.getElem?_set_ne (by omega)]
            exact hrun i hi (by omega)
        by_cases hfound : contiguousBlocks ≤ c + 1
        · refine ⟨(computed.set n column).take (n + (c + 1)), c + 1, true,
            ⟨some column, hcached, ?_⟩, ?_⟩
          · simp only [if_neg hskip, if_pos hfound]
          · have htake : ((computed.set n column).take (n + (c + 1))).length = n + (c + 1) := by
              rw [List.length_take, List.length_set]
              omega
            rw [if_pos rfl, htake]
            refine ⟨hfrontier.found hall hstart (by omega), fun i hi hlt => ?_⟩
            rw [htake] at hi hlt
            rw [List.getElem?_take, if_pos hlt]
            exact hset i (by omega) hlt
        · obtain ⟨computed', c', found, hloop, hgood⟩ :=
            ih (by rw [List.length_set, hlen]) (hfrontier.extend hall hstart (by omega)) hset
          refine ⟨computed', c', found, ⟨some column, hcached, ?_⟩, hgood⟩
          simpa only [if_neg hskip, if_neg hfound] using hloop
    · obtain ⟨computed', c', found, hloop, hgood⟩ :=
        ih hlen (hfrontier.miss hall) fun i hi hlt => absurd hlt (by omega)
      exact ⟨computed', c', found, ⟨none, hcached, hloop⟩, hgood⟩

/-- The lookup drops the last block of what the scan found when EAGLE is enabled. -/
theorem slidingWindow_columns (groupIds : List Nat) {window : Nat}
    (hkind : spec.kind = .slidingWindow window) (useEagle : Bool)
    (heagle : useEagle = true → spec.blockSize = alignmentTokens)
    (hcover : HashesCover p blockHashes spec maxLength)
    (hwidth : width =
      max ((cdiv (window - 1) spec.blockSize).toNat + if useEagle then 1 else 0) 1) :
    ∃ scanned, findHitColumns spec p blockHashes maxLength groupIds useEagle alignmentTokens =
        .ok (if useEagle then scanned.dropLast else scanned) ∧
      IsGreatest {m | FitsAt p blockHashes spec groupIds maxLength alignmentTokens width m}
        scanned.length ∧
      WindowFilled p blockHashes spec groupIds width scanned := by
  obtain ⟨computed, c, found, hloop, hgreatest, hfilled⟩ :=
    slidingWindowHitLoop_spec groupIds alignmentTokens hcover hwidth
      (List.length_replicate (a := groupIds.map fun _ => nullBlock)) (.start (by omega))
      fun i hi hlt => absurd hlt (by omega)
  refine ⟨if found then computed else computed.take c, ?_, hgreatest, hfilled⟩
  -- what is not a full match starts at an aligned end already
  have hsame : (if found then computed else computed.take
      (alignedLength spec.blockSize alignmentTokens (computed.take c).length)) =
        if found then computed else computed.take c := by
    cases found with
    | true => rfl
    | false =>
      rw [if_neg Bool.false_ne_true] at hgreatest
      rw [if_neg Bool.false_ne_true, if_neg Bool.false_ne_true,
        alignedLength_of_dvd hgreatest.1.is_allowed, List.length_take, ← List.take_eq_take_min]
  unfold findHitColumns
  rw [hkind]
  simp only [bind_ok_iff, Prod.exists, ensure_eq_ok, pure_ok_iff]
  refine ⟨computed, c, found, hloop, (), ?_, ?_⟩
  · cases useEagle with
    | true => exact Or.inr (Or.inr (heagle rfl))
    | false => exact Or.inl rfl
  · rw [hsame]

/-- The largest end that fits, counted in tokens. -/
theorem isGreatest_tokens {n : Nat} (hdvd : spec.blockSize ∣ alignmentTokens)
    (h : IsGreatest {m | FitsAt p blockHashes spec groupIds maxLength alignmentTokens width m} n) :
    IsGreatest {t | alignmentTokens ∣ t ∧ t ≤ maxLength ∧
      WindowMarked (CachedInAll p blockHashes spec groupIds) width (t / spec.blockSize)}
        (n * spec.blockSize) := by
  constructor
  · refine ⟨h.1.is_allowed, (Nat.le_div_iff_mul_le spec.blockSize_pos).mp h.1.le_bound, ?_⟩
    rw [Nat.mul_div_cancel _ spec.blockSize_pos]
    exact h.1.window
  · rintro t ⟨hallowed, hle, hwindow⟩
    have ht : t / spec.blockSize * spec.blockSize = t :=
      Nat.div_mul_cancel (hdvd.trans hallowed)
    have hn : t / spec.blockSize ≤ n := by
      refine h.2 ⟨Nat.div_le_div_right hle, ?_, hwindow⟩
      rwa [ht]
    calc t = t / spec.blockSize * spec.blockSize := ht.symm
      _ ≤ n * spec.blockSize := Nat.mul_le_mul_right _ hn

end Scan

/-! ## The match with the freeing formula -/

/-- Blocks that a sliding window does not skip lie in its contiguous blocks. -/
theorem sub_contiguous_le {spec : KVCacheSpec} {window n i : Nat}
    (hkind : spec.kind = .slidingWindow window)
    (h : spec.numSkippedBlocks (n * spec.blockSize) ≤ i) :
    n - (cdiv (window - 1) spec.blockSize).toNat ≤ i := by
  have hb : (0 : Int) < spec.blockSize := by exact_mod_cast spec.blockSize_pos
  simp only [KVCacheSpec.numSkippedBlocks, hkind, SpecKind.getNumSkippedTokens] at h
  -- the first token that is not skipped lies in block `i` or before
  have hskipped : (n * spec.blockSize : Int) - window + 1 < (i + 1) * spec.blockSize :=
    (le_max_right 0 _).trans_lt ((Int.ediv_lt_iff_lt_mul hb).mp (Int.lt_add_one_of_le h))
  have hwindow : (n - i - 1 : Int) < cdiv (window - 1) spec.blockSize := by
    rw [lt_cdiv_iff hb]
    have hexpand : ((n : Int) - i - 1) * spec.blockSize =
        n * spec.blockSize - (i + 1) * spec.blockSize := by
      rw [Int.sub_mul, Int.sub_mul, Int.add_mul]
      omega
    omega
  omega

/-! ## Rows -/

section Rows

variable {p : BlockPool H} {blockHashes : List H} {spec : KVCacheSpec} {groupIds : List Nat}
  {maxLength alignmentTokens : Nat} {useEagle : Bool} {columns rows : List (List BlockId)}

/-- The rows of a lookup: one for each group, all as long as there are columns. -/
theorem findLongestCacheHit_eq_ok : findLongestCacheHit spec p blockHashes maxLength groupIds
      useEagle alignmentTokens = .ok rows ↔ ∃ columns,
    findHitColumns spec p blockHashes maxLength groupIds useEagle alignmentTokens = .ok columns ∧
      (List.range groupIds.length).map (fun k => columns.map fun column =>
        column.getD k nullBlock) = rows := by
  simp only [findLongestCacheHit, bind_ok_iff, pure_ok_iff]

/-- The row of a group holds its entries of the columns. -/
theorem getD_rows {k : Nat} (hk : k < groupIds.length) :
    ((List.range groupIds.length).map fun k => columns.map fun column =>
      column.getD k nullBlock).getD k [] = columns.map fun column => column.getD k nullBlock := by
  rw [List.getD_eq_getElem?_getD, List.getElem?_map, List.getElem?_range hk]
  rfl

/-- Where a column lists the hits of the groups, a row holds the hit of its group. -/
theorem getElem?_rows {k groupId i : Nat} (hk : groupIds[k]? = some groupId)
    {column : List BlockId} (hget : columns[i]? = some column)
    (hcolumn : IsColumn p blockHashes spec groupIds i column) :
    (((List.range groupIds.length).map fun k => columns.map fun column =>
      column.getD k nullBlock).getD k [])[i]? = groupHit p blockHashes spec groupId i := by
  rw [getD_rows (List.getElem?_eq_some_iff.mp hk).1, List.getElem?_map, hget, hcolumn.getD hk]
  rfl

/-- A group's hit is not the null block. -/
theorem NullUncached.groupHit_ne (h : NullUncached p) (groupId i : Nat) :
    groupHit p blockHashes spec groupId i ≠ some nullBlock := by
  intro hhit
  obtain ⟨blockHash, -, hget⟩ := Option.bind_eq_some_iff.mp hhit
  exact h _ hget

end Rows

/-- Without EAGLE the lookup of a sliding window finds the largest aligned length whose last
window is cached in all groups, with the cached blocks in the window, and a block that is
not skipped at this length is not null. -/
theorem slidingWindow_longest {spec : KVCacheSpec} {window : Nat}
    (hkind : spec.kind = .slidingWindow window) (hwindow : 1 < window) {p : BlockPool H}
    (hnull : NullUncached p) {blockHashes : List H} {maxLength alignmentTokens : Nat}
    (hdvd : spec.blockSize ∣ alignmentTokens) (hcover : HashesCover p blockHashes spec maxLength)
    {groupIds : List Nat} (hids : groupIds ≠ []) :
    ∃ rows n, findLongestCacheHit spec p blockHashes maxLength groupIds false alignmentTokens =
        .ok rows ∧
      rows.length = groupIds.length ∧ (rows.headD []).length = n ∧
      (∀ row ∈ rows, row.length = n) ∧
      IsGreatest {t | alignmentTokens ∣ t ∧ t ≤ maxLength ∧
        WindowMarked (CachedInAll p blockHashes spec groupIds)
          (cdiv (window - 1) spec.blockSize).toNat (t / spec.blockSize)} (n * spec.blockSize) ∧
      (∀ k groupId, groupIds[k]? = some groupId → ∀ i,
        n - (cdiv (window - 1) spec.blockSize).toNat ≤ i → i < n →
          (rows.getD k [])[i]? = groupHit p blockHashes spec groupId i) ∧
      ∀ row ∈ rows, ∀ i : Nat, spec.numSkippedBlocks (n * spec.blockSize) ≤ i → i < n →
        row[i]? ≠ some nullBlock := by
  have hb : (0 : Int) < spec.blockSize := by exact_mod_cast spec.blockSize_pos
  have hpos : 0 < cdiv (window - 1) spec.blockSize := by
    rw [lt_cdiv_iff hb]
    omega
  have hwidth : (cdiv (window - 1) spec.blockSize).toNat =
      max ((cdiv (window - 1) spec.blockSize).toNat + if false then 1 else 0) 1 := by
    rw [if_neg Bool.false_ne_true]
    omega
  obtain ⟨columns, hcolumns, hgreatest, hfilled⟩ :=
    slidingWindow_columns groupIds hkind false (by simp) hcover hwidth
  rw [if_neg Bool.false_ne_true] at hcolumns
  have hfirst : 0 < groupIds.length := List.length_pos_iff.mpr hids
  refine ⟨_, columns.length, findLongestCacheHit_eq_ok.mpr ⟨columns, hcolumns, rfl⟩, by simp, ?_,
    fun row hrow => ?_, ?_, fun k groupId hk i hi hlt => ?_, fun row hrow i hi hlt => ?_⟩
  · rw [List.headD_eq_head?_getD, List.head?_eq_getElem?, ← List.getD_eq_getElem?_getD,
      getD_rows hfirst, List.length_map]
  · obtain ⟨k, -, rfl⟩ := List.mem_map.mp hrow
    exact List.length_map _
  · exact isGreatest_tokens hdvd hgreatest
  · obtain ⟨column, hget, hcolumn⟩ := hfilled i hi hlt
    exact getElem?_rows hk hget hcolumn
  · obtain ⟨k, hk, rfl⟩ := List.mem_map.mp hrow
    have hk := List.mem_range.mp hk
    obtain ⟨column, hget, hcolumn⟩ := hfilled i (sub_contiguous_le hkind hi) hlt
    rw [← getD_rows hk, getElem?_rows (List.getElem?_eq_getElem hk) hget hcolumn]
    exact hnull.groupHit_ne _ i

/-- A pool whose index holds the given blocks. -/
def pooled (entries : List (BlockHashWithGroupId Nat × BlockId)) : BlockPool Nat where
  numGpuBlocks := 16
  enableCaching := true
  hashBlockSize := 1
  freeBlockQueue := FreeKVCacheBlockQueue.init 16
  refCnt := fun _ => 0
  blockHash := fun _ => none
  cachedBlockHashToBlock := fun key => (entries.lookup key).map .single
  allocated := []

/-- A pool of blocks other than the null block does not offer the null block. -/
theorem nullUncached_pooled {entries : List (BlockHashWithGroupId Nat × BlockId)}
    (h : ∀ e ∈ entries, e.2 ≠ nullBlock) : NullUncached (pooled entries) := by
  intro key hkey
  simp only [pooled, BlockHashToBlockMap.getOneBlock] at hkey
  cases hlookup : entries.lookup key with
  | none => simp [hlookup] at hkey
  | some b =>
    obtain rfl : b = nullBlock := by simpa [hlookup] using hkey
    obtain ⟨before, after, rfl, -⟩ := List.lookup_eq_some_iff.mp hlookup
    exact h (key, nullBlock) (by simp) rfl

/-- A window of three tokens over blocks of one. -/
def windowOfThree : KVCacheSpec where
  kind := .slidingWindow 3
  blockSize := 1

/-- Of five blocks the second, the third and the last are cached. -/
def twoAndOne : BlockPool Nat :=
  pooled [(⟨[11], 0⟩, 1), (⟨[12], 0⟩, 2), (⟨[14], 0⟩, 4)]

/-- The last block alone does not fill the window, so the hit ends behind the third. -/
theorem slidingWindow_longest_twoAndOne :
    findLongestCacheHit windowOfThree twoAndOne [10, 11, 12, 13, 14] 5 [0] false 1 =
        .ok [[nullBlock, 1, 2]] ∧
      IsGreatest {t | 1 ∣ t ∧ t ≤ 5 ∧
        WindowMarked (CachedInAll twoAndOne [10, 11, 12, 13, 14] windowOfThree [0])
          (cdiv (3 - 1) windowOfThree.blockSize).toNat (t / windowOfThree.blockSize)} 3 := by
  have hnull : NullUncached twoAndOne := nullUncached_pooled (by decide)
  have hcover : HashesCover twoAndOne [10, 11, 12, 13, 14] windowOfThree 5 := by
    unfold HashesCover
    decide
  have hrun : findLongestCacheHit windowOfThree twoAndOne [10, 11, 12, 13, 14] 5 [0] false 1 =
      .ok [[nullBlock, 1, 2]] := by decide
  obtain ⟨rows, n, hrows, -, hlen, -, hgreatest, -⟩ := slidingWindow_longest
    (show windowOfThree.kind = .slidingWindow 3 from rfl) (by decide) hnull
    (show windowOfThree.blockSize ∣ 1 by decide) hcover (show [0] ≠ [] by decide)
  obtain rfl : [[nullBlock, 1, 2]] = rows := Except.ok.inj (hrun.symm.trans hrows)
  obtain rfl : 3 = n := hlen
  exact ⟨hrun, hgreatest⟩

end Vllm
