import Vllm.Core.SlidingWindowHits

/-!
# What a lookup fills in

Every kind of group has its own lookup. Under the conditions that the lookups assert of
the configuration, each returns rows of one aligned length, and fills in the cached
blocks from the first block on that its window holds at this length. Chunked local
attention is the exception: it takes the window at the length it may look up, not at
the length it finds.
-/

namespace Vllm

open Checked BlockPool WindowScan

variable {H : Type}

/-- The conditions on a spec that its lookup asserts. -/
def KVCacheSpec.LookupSupported (spec : KVCacheSpec) (useEagle : Bool) (alignmentTokens : Nat) :
    Prop :=
  match spec.kind with
  | .fullAttention | .mamba _ _ => True
  | .slidingWindow _ => useEagle = true → spec.blockSize = alignmentTokens
  | .chunkedLocal _ => useEagle = false ∧ spec.blockSize = alignmentTokens
  | .crossAttention => False

/-- The first block that a lookup up to a length fills in when it finds `n` blocks. -/
def KVCacheSpec.firstFilled (spec : KVCacheSpec) (maxLength n : Nat) : Int :=
  match spec.kind with
  | .chunkedLocal _ => spec.numSkippedBlocks maxLength
  | _ => spec.numSkippedBlocks (n * spec.blockSize)

section Columns

variable {p : BlockPool H} {blockHashes : List H} {spec : KVCacheSpec}
  {maxLength alignmentTokens : Nat} {columns : List (List BlockId)}

/-- The columns from an index on list the hits of the groups. -/
def FilledFrom (p : BlockPool H) (blockHashes : List H) (spec : KVCacheSpec)
    (groupIds : List Nat) (start : Int) (columns : List (List BlockId)) : Prop :=
  ∀ i : Nat, start ≤ i → i < columns.length →
    ∃ column, columns[i]? = some column ∧ IsColumn p blockHashes spec groupIds i column

theorem FilledFrom.take {groupIds : List Nat} {start : Int}
    (h : FilledFrom p blockHashes spec groupIds start columns) (n : Nat) :
    FilledFrom p blockHashes spec groupIds start (columns.take n) := by
  intro i hstart hi
  rw [List.length_take] at hi
  obtain ⟨column, hget, hcolumn⟩ := h i hstart (by omega)
  refine ⟨column, ?_, hcolumn⟩
  rw [List.getElem?_take_of_lt (by omega), hget]

theorem FilledFrom.dropLast {groupIds : List Nat} {start : Int}
    (h : FilledFrom p blockHashes spec groupIds start columns) :
    FilledFrom p blockHashes spec groupIds start columns.dropLast := by
  rw [List.dropLast_eq_take]
  exact h.take _

/-- Every column that full attention finds lists the hits of the groups. -/
private theorem fullHitLoop_filled (groupIds : List Nat) (n start j : Nat) {column : List BlockId}
    (h : (fullHitLoop p blockHashes (spec.blockSize / p.hashBlockSize) groupIds n start)[j]? =
      some column) : IsColumn p blockHashes spec groupIds (start + j) column := by
  induction n generalizing start j with
  | zero => simp [fullHitLoop] at h
  | succ n ih =>
    unfold fullHitLoop at h
    cases hmerged : mergedHash blockHashes (spec.blockSize / p.hashBlockSize) start with
    | none => simp [hmerged] at h
    | some blockHash =>
      simp only [hmerged] at h
      cases hcached : p.getCachedBlock blockHash groupIds with
      | none => simp [hcached] at h
      | some first =>
        simp only [hcached] at h
        cases j with
        | zero =>
          obtain rfl : first = column := by simpa using h
          have hcolumn := getCachedBlock_eq_some_iff.mp hcached
          simpa only [IsColumn, groupHit, Nat.add_zero, hmerged, Option.bind_some] using hcolumn
        | succ j =>
          rw [show start + (j + 1) = start + 1 + j by omega]
          exact ih (start + 1) j (by simpa using h)

/-- The lookup of full attention: an aligned prefix of cached blocks. -/
theorem fullAttention_columns (groupIds : List Nat) (hkind : spec.kind = .fullAttention)
    (useEagle : Bool) : ∃ columns,
      findHitColumns spec p blockHashes maxLength groupIds useEagle alignmentTokens =
        .ok columns ∧
      alignmentTokens ∣ columns.length * spec.blockSize ∧
      FilledFrom p blockHashes spec groupIds 0 columns := by
  unfold findHitColumns
  rw [hkind]
  refine ⟨_, rfl, ?_, ?_⟩
  · rw [List.length_take, Nat.min_eq_left (alignedLength_le _ _ _)]
    exact dvd_alignedLength _ _ _
  · have hfull : FilledFrom p blockHashes spec groupIds 0 (fullHitLoop p blockHashes
        (spec.blockSize / p.hashBlockSize) groupIds (maxLength / spec.blockSize) 0) := by
      intro i _ hi
      refine ⟨_, List.getElem?_eq_getElem hi, ?_⟩
      have hcolumn := fullHitLoop_filled groupIds _ 0 i (List.getElem?_eq_getElem hi)
      rwa [Nat.zero_add] at hcolumn
    refine FilledFrom.take ?_ _
    cases useEagle with
    | false => exact hfull
    | true => exact hfull.dropLast

/-- The lookup of a sliding window fills in its window, with EAGLE too. -/
theorem slidingWindow_filled (groupIds : List Nat) {window : Nat}
    (hkind : spec.kind = .slidingWindow window) (useEagle : Bool)
    (heagle : useEagle = true → spec.blockSize = alignmentTokens)
    (hcover : HashesCover p blockHashes spec maxLength) : ∃ columns,
      findHitColumns spec p blockHashes maxLength groupIds useEagle alignmentTokens =
        .ok columns ∧
      alignmentTokens ∣ columns.length * spec.blockSize ∧
      FilledFrom p blockHashes spec groupIds
        (spec.numSkippedBlocks (columns.length * spec.blockSize)) columns := by
  obtain ⟨scanned, hscanned, hgreatest, hfilled⟩ :=
    slidingWindow_columns groupIds hkind useEagle heagle hcover rfl
  refine ⟨_, hscanned, ?_, fun i hstart hi => ?_⟩
  · cases useEagle with
    | false => exact hgreatest.1.is_allowed
    | true =>
      rw [← heagle rfl]
      exact Nat.dvd_mul_left _ _
  · have hwindow := sub_contiguous_le hkind hstart
    cases useEagle with
    | false =>
      rw [if_neg Bool.false_ne_true] at hwindow hi hfilled ⊢
      exact hfilled i (by omega) hi
    | true =>
      -- the block dropped at the end is made up for by the longer window
      rw [if_pos rfl] at hwindow hi hfilled ⊢
      rw [List.length_dropLast] at hwindow hi
      obtain ⟨column, hget, hcolumn⟩ := hfilled i (by omega) (by omega)
      refine ⟨column, ?_, hcolumn⟩
      rw [List.dropLast_eq_take, List.getElem?_take_of_lt hi, hget]

/-- Inside the chunk the scan of chunked local attention finds cached blocks, up to the
first one that is missed. -/
theorem chunkedHitLoop_spec (groupIds : List Nat)
    (hcover : HashesCover p blockHashes spec maxLength) {n start : Nat}
    (hn : start + n ≤ maxLength / spec.blockSize) : ∃ columns,
      chunkedHitLoop p blockHashes (spec.blockSize / p.hashBlockSize) groupIds n start =
        .ok columns ∧
      (∀ j, j < columns.length → ∃ column, columns[j]? = some column ∧
        IsColumn p blockHashes spec groupIds (start + j) column) ∧
      (0 < n → (columns ≠ [] ↔ CachedInAll p blockHashes spec groupIds start)) := by
  induction n generalizing start with
  | zero => exact ⟨[], rfl, by simp, by simp⟩
  | succ n ih =>
    simp only [chunkedHitLoop, bind_ok_iff]
    have hlt : start < maxLength / spec.blockSize := by omega
    rcases cachedColumn_cases groupIds hcover hlt with
      ⟨column, hcached, hcolumn, hall⟩ | ⟨hcached, hall⟩
    · obtain ⟨rest, hrest, hcolumns, -⟩ := ih (show start + 1 + n ≤ _ by omega)
      refine ⟨column :: rest, ⟨some column, hcached, ?_⟩, fun j hj => ?_, by simp [hall]⟩
      · simp only [bind_ok_iff, pure_ok_iff]
        exact ⟨rest, hrest, rfl⟩
      · cases j with
        | zero => exact ⟨column, rfl, hcolumn⟩
        | succ j =>
          obtain ⟨column', hget, hcolumn'⟩ := hcolumns j (by simpa using hj)
          rw [show start + 1 + j = start + (j + 1) by omega] at hcolumn'
          exact ⟨column', hget, hcolumn'⟩
    · exact ⟨[], ⟨none, hcached, rfl⟩, by simp, by simp [hall]⟩

/-- The block in which the last chunk of a length starts. -/
theorem numSkippedBlocks_chunked {chunk : Nat} (hkind : spec.kind = .chunkedLocal chunk)
    (n : Nat) : spec.numSkippedBlocks n = (n / chunk * chunk / spec.blockSize : Nat) := by
  simp only [KVCacheSpec.numSkippedBlocks, hkind, SpecKind.getNumSkippedTokens]
  push_cast
  rfl

/-- The lookup of chunked local attention: null up to the block in which the last chunk
starts, and cached blocks from there on. -/
theorem chunkedLocal_columns (groupIds : List Nat) {chunk start : Nat}
    (hkind : spec.kind = .chunkedLocal chunk)
    (hstart : start = maxLength / chunk * chunk / spec.blockSize)
    (haligned : spec.blockSize = alignmentTokens)
    (hcover : HashesCover p blockHashes spec maxLength) : ∃ rest,
      findHitColumns spec p blockHashes maxLength groupIds false alignmentTokens =
        .ok (List.replicate start (groupIds.map fun _ => nullBlock) ++ rest) ∧
      (∀ j, j < rest.length → ∃ column, rest[j]? = some column ∧
        IsColumn p blockHashes spec groupIds (start + j) column) ∧
      (start < maxLength / spec.blockSize →
        (rest ≠ [] ↔ CachedInAll p blockHashes spec groupIds start)) := by
  have hle : start ≤ maxLength / spec.blockSize := by
    rw [hstart]
    exact Nat.div_le_div_right (Nat.div_mul_le_self _ _)
  obtain ⟨rest, hrest, hcolumns, hne⟩ := chunkedHitLoop_spec groupIds hcover
    (show start + (maxLength / spec.blockSize - start) ≤ _ by omega)
  refine ⟨rest, ?_, hcolumns, fun hlt => hne (by omega)⟩
  unfold findHitColumns
  rw [hkind]
  simp only [bind_ok_iff, ensure_eq_ok, pure_ok_iff, ← hstart]
  exact ⟨(), trivial, (), haligned, rest, hrest, rfl⟩

/-- What the lookup of chunked local attention fills in. -/
theorem chunkedLocal_filled (groupIds : List Nat) {chunk : Nat}
    (hkind : spec.kind = .chunkedLocal chunk) (haligned : spec.blockSize = alignmentTokens)
    (hcover : HashesCover p blockHashes spec maxLength) : ∃ columns,
      findHitColumns spec p blockHashes maxLength groupIds false alignmentTokens = .ok columns ∧
      alignmentTokens ∣ columns.length * spec.blockSize ∧
      FilledFrom p blockHashes spec groupIds (spec.numSkippedBlocks maxLength) columns := by
  obtain ⟨rest, hcolumns, hrest, -⟩ := chunkedLocal_columns groupIds hkind rfl haligned hcover
  refine ⟨_, hcolumns, ?_, fun i hi hlt => ?_⟩
  · rw [← haligned]
    exact Nat.dvd_mul_left _ _
  · rw [numSkippedBlocks_chunked hkind, Int.ofNat_le] at hi
    rw [List.length_append, List.length_replicate] at hlt
    obtain ⟨column, hget, hcolumn⟩ :=
      hrest (i - maxLength / chunk * chunk / spec.blockSize) (by omega)
    rw [Nat.add_sub_cancel' hi] at hcolumn
    refine ⟨column, ?_, hcolumn⟩
    rw [List.getElem?_append_right (by simpa using hi), List.length_replicate, hget]

/-- The scan of Mamba layers finds an aligned state, or nothing. -/
theorem mambaHitLoop_spec (groupIds : List Nat) (alignmentTokens : Nat)
    (hcover : HashesCover p blockHashes spec maxLength) {n : Nat}
    (hn : n ≤ maxLength / spec.blockSize) :
    mambaHitLoop p blockHashes (spec.blockSize / p.hashBlockSize) groupIds
        (groupIds.map fun _ => nullBlock) spec.blockSize alignmentTokens n = .ok [] ∨
    ∃ i column, mambaHitLoop p blockHashes (spec.blockSize / p.hashBlockSize) groupIds
        (groupIds.map fun _ => nullBlock) spec.blockSize alignmentTokens n =
        .ok (List.replicate i (groupIds.map fun _ => nullBlock) ++ [column]) ∧
      alignmentTokens ∣ (i + 1) * spec.blockSize ∧
      IsColumn p blockHashes spec groupIds i column := by
  induction n with
  | zero => exact Or.inl rfl
  | succ n ih =>
    have ih := ih (by omega)
    simp only [mambaHitLoop, bind_ok_iff]
    have hlt : n < maxLength / spec.blockSize := by omega
    rcases cachedColumn_cases groupIds hcover hlt with
      ⟨column, hcached, hcolumn, -⟩ | ⟨hcached, -⟩
    · by_cases hskip : spec.blockSize ≠ alignmentTokens ∧
          (n + 1) * spec.blockSize % alignmentTokens ≠ 0
      · rcases ih with hnil | ⟨i, column', hfound, hrest⟩
        · refine Or.inl ⟨some column, hcached, ?_⟩
          simpa only [if_pos hskip] using hnil
        · refine Or.inr ⟨i, column', ⟨some column, hcached, ?_⟩, hrest⟩
          simpa only [if_pos hskip] using hfound
      · refine Or.inr ⟨n, column, ⟨some column, hcached, ?_⟩, ?_, hcolumn⟩
        · simp only [if_neg hskip]
        · by_cases heq : spec.blockSize = alignmentTokens
          · rw [← heq]
            exact Nat.dvd_mul_left _ _
          · by_contra hnot
            exact hskip ⟨heq, fun hmod => hnot (Nat.dvd_of_mod_eq_zero hmod)⟩
    · rcases ih with hnil | ⟨i, column', hfound, hrest⟩
      · exact Or.inl ⟨none, hcached, hnil⟩
      · exact Or.inr ⟨i, column', ⟨none, hcached, hfound⟩, hrest⟩

/-- The lookup of Mamba layers fills in the last state, the only one they keep. -/
theorem mamba_filled (groupIds : List Nat) {mode : MambaCacheMode} {speculative : Nat}
    (hkind : spec.kind = .mamba mode speculative) (useEagle : Bool)
    (hcover : HashesCover p blockHashes spec maxLength) : ∃ columns,
      findHitColumns spec p blockHashes maxLength groupIds useEagle alignmentTokens =
        .ok columns ∧
      alignmentTokens ∣ columns.length * spec.blockSize ∧
      FilledFrom p blockHashes spec groupIds
        (spec.numSkippedBlocks (columns.length * spec.blockSize)) columns := by
  unfold findHitColumns
  rw [hkind]
  rcases mambaHitLoop_spec groupIds alignmentTokens hcover (Nat.le_refl _) with
    hnil | ⟨i, column, hfound, hdvd, hcolumn⟩
  · exact ⟨[], hnil, by simp, fun i _ hi => absurd hi (Nat.not_lt_zero i)⟩
  · refine ⟨_, hfound, by simpa using hdvd, fun j hj hlt => ?_⟩
    rw [List.length_append, List.length_replicate, List.length_singleton] at hj hlt
    have hb : (0 : Int) < spec.blockSize := by exact_mod_cast spec.blockSize_pos
    have hlast : (i : Int) ≤ spec.numSkippedBlocks ((i + 1 : Nat) * spec.blockSize) := by
      simp only [KVCacheSpec.numSkippedBlocks, hkind, SpecKind.getNumSkippedTokens]
      rw [Int.le_ediv_iff_mul_le hb]
      push_cast
      rw [Int.add_mul]
      omega
    obtain rfl : i = j := by omega
    refine ⟨column, ?_, hcolumn⟩
    rw [List.getElem?_append_right (by simp)]
    simp

/-- Every supported lookup succeeds with aligned columns that are filled in from the first
block of the window on. -/
theorem findHitColumns_filled (groupIds : List Nat) {useEagle : Bool}
    (hsupported : spec.LookupSupported useEagle alignmentTokens)
    (hcover : HashesCover p blockHashes spec maxLength) : ∃ columns,
      findHitColumns spec p blockHashes maxLength groupIds useEagle alignmentTokens =
        .ok columns ∧
      alignmentTokens ∣ columns.length * spec.blockSize ∧
      FilledFrom p blockHashes spec groupIds (spec.firstFilled maxLength columns.length)
        columns := by
  unfold KVCacheSpec.LookupSupported at hsupported
  unfold KVCacheSpec.firstFilled
  cases hkind : spec.kind with
  | fullAttention =>
    obtain ⟨columns, hok, hdvd, hfilled⟩ := fullAttention_columns groupIds hkind useEagle
    refine ⟨columns, hok, hdvd, fun i hi hlt => hfilled i (Int.natCast_nonneg i) hlt⟩
  | slidingWindow window =>
    rw [hkind] at hsupported
    exact slidingWindow_filled groupIds hkind useEagle hsupported hcover
  | chunkedLocal chunk =>
    rw [hkind] at hsupported
    obtain ⟨rfl, haligned⟩ := hsupported
    exact chunkedLocal_filled groupIds hkind haligned hcover
  | mamba mode speculative => exact mamba_filled groupIds hkind useEagle hcover
  | crossAttention =>
    rw [hkind] at hsupported
    exact hsupported.elim

end Columns

/-! ## Rows -/

section Rows

variable {p : BlockPool H} {blockHashes : List H} {spec : KVCacheSpec}
  {maxLength alignmentTokens : Nat} {useEagle : Bool}

/-- The row of a group holds its hits from an index on. -/
def RowFilled (p : BlockPool H) (blockHashes : List H) (spec : KVCacheSpec) (groupId : Nat)
    (start : Int) (row : List BlockId) : Prop :=
  ∀ i : Nat, start ≤ i → i < row.length →
    ∃ b, row[i]? = some b ∧ groupHit p blockHashes spec groupId i = some b

theorem RowFilled.take {groupId : Nat} {start : Int} {row : List BlockId}
    (h : RowFilled p blockHashes spec groupId start row) (n : Nat) :
    RowFilled p blockHashes spec groupId start (row.take n) := by
  intro i hstart hi
  rw [List.length_take] at hi
  obtain ⟨b, hget, hhit⟩ := h i hstart (by omega)
  refine ⟨b, ?_, hhit⟩
  rw [List.getElem?_take_of_lt (by omega), hget]

/-- Every supported lookup returns a row of one aligned length for each group, filled in from
the first block of the window on. -/
theorem findLongestCacheHit_filled (groupIds : List Nat)
    (hsupported : spec.LookupSupported useEagle alignmentTokens)
    (hcover : HashesCover p blockHashes spec maxLength) : ∃ rows n,
      findLongestCacheHit spec p blockHashes maxLength groupIds useEagle alignmentTokens =
        .ok rows ∧
      rows.length = groupIds.length ∧ (∀ row ∈ rows, row.length = n) ∧
      n * spec.blockSize ≤ maxLength ∧ alignmentTokens ∣ n * spec.blockSize ∧
      ∀ k groupId, groupIds[k]? = some groupId →
        RowFilled p blockHashes spec groupId (spec.firstFilled maxLength n) (rows.getD k []) := by
  obtain ⟨columns, hcolumns, hdvd, hfilled⟩ := findHitColumns_filled groupIds hsupported hcover
  refine ⟨_, columns.length, findLongestCacheHit_eq_ok.mpr ⟨columns, hcolumns, rfl⟩, by simp,
    fun row hrow => ?_, length_findHitColumns hcolumns, hdvd, fun k groupId hk i hi hlt => ?_⟩
  · obtain ⟨k, -, rfl⟩ := List.mem_map.mp hrow
    exact List.length_map _
  · rw [getD_rows (List.getElem?_eq_some_iff.mp hk).1, List.length_map] at hlt
    obtain ⟨column, hget, hcolumn⟩ := hfilled i hi hlt
    exact ⟨_, (getElem?_rows hk hget hcolumn).trans (hcolumn.getD hk), hcolumn.getD hk⟩

/-- A lookup that is not supported succeeds only for a sliding window, where it finds nothing. -/
theorem lookupSupported_or_nil {groupIds : List Nat} {rows : List (List BlockId)}
    (hrows : findLongestCacheHit spec p blockHashes maxLength groupIds useEagle
      alignmentTokens = .ok rows) : spec.LookupSupported useEagle alignmentTokens ∨
        (∃ window, spec.kind = .slidingWindow window) ∧ rows = groupIds.map fun _ => [] := by
  obtain ⟨columns, hcolumns, rfl⟩ := findLongestCacheHit_eq_ok.mp hrows
  unfold findHitColumns at hcolumns
  unfold KVCacheSpec.LookupSupported
  cases hkind : spec.kind with
  | fullAttention => exact Or.inl trivial
  | mamba mode speculative => exact Or.inl trivial
  | chunkedLocal chunk =>
    simp only [hkind, bind_ok_iff, ensure_eq_ok] at hcolumns
    obtain ⟨_, heagle, _, haligned, -⟩ := hcolumns
    exact Or.inl ⟨heagle, haligned⟩
  | crossAttention =>
    simp only [hkind] at hcolumns
    cases hcolumns
  | slidingWindow window =>
    simp only [hkind, bind_ok_iff, ensure_eq_ok, pure_ok_iff] at hcolumns
    obtain ⟨⟨computed, numContiguous, found⟩, -, _, heagle, rfl⟩ := hcolumns
    rcases heagle with heagle | hnil | haligned
    · exact Or.inl fun h => absurd (heagle.symm.trans h) (by decide)
    · refine Or.inr ⟨⟨window, rfl⟩, ?_⟩
      rw [hnil]
      simp
    · exact Or.inl fun _ => haligned

/-- The lookup of a sliding window up to no token finds nothing. -/
theorem findLongestCacheHit_zero (groupIds : List Nat) {window : Nat}
    (hkind : spec.kind = .slidingWindow window) : ∃ rows,
      findLongestCacheHit spec p blockHashes 0 groupIds useEagle alignmentTokens = .ok rows := by
  refine ⟨_, findLongestCacheHit_eq_ok.mpr ⟨[], ?_, rfl⟩⟩
  simp [findHitColumns, hkind, slidingWindowHitLoop, ensure, bind, Except.bind, pure, Except.pure]

variable {groupId n : Nat} {row : List BlockId}

/-- A row has exactly the hit length, and in the window it holds cached blocks other than the
null block. -/
structure RowAt (p : BlockPool H) (blockHashes : List H) (spec : KVCacheSpec) (groupId n : Nat)
    (row : List BlockId) : Prop where
  length_eq : row.length = n / spec.blockSize
  window : ∀ i : Nat, spec.numSkippedBlocks n ≤ i → i < row.length → ∃ b, row[i]? = some b ∧
    b ≠ nullBlock ∧ groupHit p blockHashes spec groupId i = some b

/-- A row that is filled in from the first block of the window on. -/
theorem RowFilled.rowAt (h : RowFilled p blockHashes spec groupId (spec.numSkippedBlocks n) row)
    (hnull : NullUncached p) (hlen : row.length * spec.blockSize = n) :
    RowAt p blockHashes spec groupId n row where
  length_eq := by rw [← hlen, Nat.mul_div_cancel _ spec.blockSize_pos]
  window i hi hlt := by
    obtain ⟨b, hget, hhit⟩ := h i hi hlt
    refine ⟨b, hget, ?_, hhit⟩
    rintro rfl
    exact hnull.groupHit_ne _ _ hhit

/-- A lookup that keeps the length it is handed takes the window at this length. -/
theorem firstFilled_of_kept (hn : row.length * spec.blockSize = n) :
    spec.firstFilled n row.length = spec.numSkippedBlocks n := by
  unfold KVCacheSpec.firstFilled
  have hcast : ((row.length : Int) * (spec.blockSize : Int)) = (n : Int) := by exact_mod_cast hn
  rw [hcast]
  split <;> rfl

/-- Outside chunked local attention a lookup takes the window at the length it finds. -/
theorem firstFilled_of_not_chunked (hkind : ∀ chunk, spec.kind ≠ .chunkedLocal chunk)
    (hn : row.length * spec.blockSize = n) (maxLength : Nat) :
    spec.firstFilled maxLength row.length = spec.numSkippedBlocks n := by
  unfold KVCacheSpec.firstFilled
  have hcast : ((row.length : Int) * (spec.blockSize : Int)) = (n : Int) := by exact_mod_cast hn
  rw [hcast]
  split
  · rename_i chunk hchunk
    exact absurd hchunk (hkind chunk)
  · rfl

/-- Full attention skips nothing. -/
theorem numSkippedBlocks_full (hfull : spec.isFullAttention = true) (n : Int) :
    spec.numSkippedBlocks n = 0 := by
  have hkind : spec.kind = .fullAttention := by simpa [KVCacheSpec.isFullAttention] using hfull
  simp [KVCacheSpec.numSkippedBlocks, hkind, SpecKind.getNumSkippedTokens]

/-- A full-attention row that is long enough, cut to the hit length. -/
theorem RowFilled.rowAt_take (hfull : spec.isFullAttention = true)
    (h : RowFilled p blockHashes spec groupId (spec.firstFilled maxLength row.length) row)
    (hnull : NullUncached p) (hdvd : spec.blockSize ∣ n) (hn : n ≤ row.length * spec.blockSize) :
    RowAt p blockHashes spec groupId n (row.take (n / spec.blockSize)) := by
  have hkind : ∀ chunk, spec.kind ≠ .chunkedLocal chunk := by
    intro chunk hchunk
    simp [KVCacheSpec.isFullAttention, hchunk] at hfull
  rw [firstFilled_of_not_chunked hkind rfl, numSkippedBlocks_full hfull] at h
  have hle : n / spec.blockSize ≤ row.length := by
    have hdiv := Nat.div_le_div_right (c := spec.blockSize) hn
    rwa [Nat.mul_div_cancel _ spec.blockSize_pos] at hdiv
  refine RowFilled.rowAt ?_ hnull ?_
  · rw [numSkippedBlocks_full hfull]
    exact h.take _
  · rw [List.length_take, Nat.min_eq_left hle, Nat.div_mul_cancel hdvd]

end Rows

end Vllm
