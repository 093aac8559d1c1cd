import Vllm.Core.BlockHasher
import Vllm.Core.PoolInvariant
import Vllm.Core.KVCacheManager
import Mathlib.Data.List.NodupEquivFin

/-!
# What prefix hits are

A hit of a group lists, index by index, a block cached under the request's hash of
that index, or the null block. This is proved for every lookup and carried through
the passes of the hybrid coordinator. With hashes that chain without collision the
blocks of a hit are distinct.
-/

namespace Vllm

open Checked BlockPool HashChain

variable {H : Type}

/-- The blocks of a hit are cached for their group under the request's hashes. -/
def HitsAt (p : BlockPool H) (blockHashes : List H) (spec : KVCacheSpec) (groupId : Nat)
    (hits : List BlockId) : Prop :=
  ∀ i b, hits[i]? = some b → b ≠ nullBlock → ∃ blockHash,
    mergedHash blockHashes (spec.blockSize / p.hashBlockSize) i = some blockHash ∧
      p.blockHash b = some ⟨blockHash, groupId⟩

/-! ## Columns -/

/-- A column of blocks is all null, or cached under the hash of its index. -/
def ColumnAt (p : BlockPool H) (blockHashes : List H) (scaleFactor : Nat) (groupIds : List Nat)
    (i : Nat) (column : List BlockId) : Prop :=
  column = groupIds.map (fun _ => nullBlock) ∨ ∃ blockHash,
    mergedHash blockHashes scaleFactor i = some blockHash ∧
      p.getCachedBlock blockHash groupIds = some column

/-- Columns of consecutive indices. -/
def ColumnsFrom (p : BlockPool H) (blockHashes : List H) (scaleFactor : Nat)
    (groupIds : List Nat) (start : Nat) (columns : List (List BlockId)) : Prop :=
  ∀ j column, columns[j]? = some column →
    ColumnAt p blockHashes scaleFactor groupIds (start + j) column

section Columns

variable {p : BlockPool H} {blockHashes : List H} {scaleFactor : Nat} {groupIds : List Nat}
  {start : Nat} {columns : List (List BlockId)}

private theorem columnsFrom_nil : ColumnsFrom p blockHashes scaleFactor groupIds start [] := by
  intro j column h
  simp at h

theorem ColumnsFrom.cons {column : List BlockId}
    (hc : ColumnAt p blockHashes scaleFactor groupIds start column)
    (h : ColumnsFrom p blockHashes scaleFactor groupIds (start + 1) columns) :
    ColumnsFrom p blockHashes scaleFactor groupIds start (column :: columns) := by
  intro j column' hj
  cases j with
  | zero =>
    obtain rfl : column = column' := by simpa using hj
    exact hc
  | succ j =>
    rw [show start + (j + 1) = start + 1 + j by omega]
    exact h j column' (by simpa using hj)

theorem ColumnsFrom.take (h : ColumnsFrom p blockHashes scaleFactor groupIds start columns)
    (n : Nat) : ColumnsFrom p blockHashes scaleFactor groupIds start (columns.take n) := by
  intro j column hj
  rw [List.getElem?_take] at hj
  split at hj
  · exact h j column hj
  · cases hj

theorem ColumnsFrom.dropLast (h : ColumnsFrom p blockHashes scaleFactor groupIds start columns) :
    ColumnsFrom p blockHashes scaleFactor groupIds start columns.dropLast := by
  rw [List.dropLast_eq_take]
  exact h.take _

theorem ColumnsFrom.set (h : ColumnsFrom p blockHashes scaleFactor groupIds 0 columns) {i : Nat}
    {column : List BlockId} (hc : ColumnAt p blockHashes scaleFactor groupIds i column) :
    ColumnsFrom p blockHashes scaleFactor groupIds 0 (columns.set i column) := by
  intro j column' hj
  rw [List.getElem?_set] at hj
  split at hj
  · rename_i hij
    split at hj
    · obtain rfl := Option.some.inj hj
      rwa [Nat.zero_add, ← hij]
    · cases hj
  · exact h j column' hj

private theorem columnsFrom_replicate (n : Nat) :
    ColumnsFrom p blockHashes scaleFactor groupIds start
    (List.replicate n (groupIds.map fun _ => nullBlock)) := by
  intro j column hj
  rw [List.getElem?_replicate] at hj
  split at hj
  · exact Or.inl (Option.some.inj hj).symm
  · cases hj

/-- Null columns in front shift the indices. -/
theorem ColumnsFrom.replicate_append {n : Nat}
    (h : ColumnsFrom p blockHashes scaleFactor groupIds n columns) :
    ColumnsFrom p blockHashes scaleFactor groupIds 0
      (List.replicate n (groupIds.map fun _ => nullBlock) ++ columns) := by
  intro j column hj
  by_cases hlt : j < n
  · rw [List.getElem?_append_left (by simpa using hlt)] at hj
    exact columnsFrom_replicate n j column hj
  · rw [List.getElem?_append_right (by simpa using hlt), List.length_replicate] at hj
    have hc := h (j - n) column hj
    rwa [show n + (j - n) = 0 + j by omega] at hc

private theorem cachedColumn_at {i : Nat} {column : List BlockId}
    (h : cachedColumn p blockHashes scaleFactor groupIds i = .ok (some column)) :
    ColumnAt p blockHashes scaleFactor groupIds i column := by
  unfold cachedColumn at h
  split at h
  · cases h
  · rename_i blockHash hmerged
    exact Or.inr ⟨blockHash, hmerged, Except.ok.inj h⟩

private theorem fullHitLoop_columns (n i : Nat) : ColumnsFrom p blockHashes scaleFactor groupIds i
    (fullHitLoop p blockHashes scaleFactor groupIds n i) := by
  induction n generalizing i with
  | zero => exact columnsFrom_nil
  | succ n ih =>
    unfold fullHitLoop
    split
    · exact columnsFrom_nil
    · rename_i blockHash hmerged
      split
      · exact columnsFrom_nil
      · rename_i column hcached
        exact .cons (Or.inr ⟨blockHash, hmerged, hcached⟩) (ih (i + 1))

private theorem slidingWindowHitLoop_columns {contiguousBlocks blockSize alignmentTokens n : Nat}
    {computed computed' : List (List BlockId)} {numContiguous numContiguous' : Nat} {found : Bool}
    (hc : ColumnsFrom p blockHashes scaleFactor groupIds 0 computed)
    (h : slidingWindowHitLoop p blockHashes scaleFactor groupIds contiguousBlocks blockSize
      alignmentTokens n computed numContiguous = .ok (computed', numContiguous', found)) :
    ColumnsFrom p blockHashes scaleFactor groupIds 0 computed' := by
  induction n generalizing computed numContiguous with
  | zero =>
    obtain ⟨rfl, -⟩ := Prod.mk.inj (Except.ok.inj h)
    exact hc
  | succ n ih =>
    simp only [slidingWindowHitLoop, bind_ok_iff] at h
    obtain ⟨column, hcolumn, h⟩ := h
    split at h
    · exact ih hc h
    · rename_i column
      have hset := hc.set (cachedColumn_at hcolumn)
      split at h
      · exact ih hc h
      · split at h
        · obtain ⟨rfl, -⟩ := Prod.mk.inj (Except.ok.inj h)
          exact hset.take _
        · exact ih hset h

private theorem chunkedHitLoop_columns {n i : Nat}
    (h : chunkedHitLoop p blockHashes scaleFactor groupIds n i = .ok columns) :
    ColumnsFrom p blockHashes scaleFactor groupIds i columns := by
  induction n generalizing i columns with
  | zero =>
    obtain rfl := Except.ok.inj h
    exact columnsFrom_nil
  | succ n ih =>
    simp only [chunkedHitLoop, bind_ok_iff] at h
    obtain ⟨column, hcolumn, h⟩ := h
    split at h
    · obtain rfl := Except.ok.inj h
      exact columnsFrom_nil
    · simp only [bind_ok_iff, pure_ok_iff] at h
      obtain ⟨rest, hrest, rfl⟩ := h
      exact .cons (cachedColumn_at hcolumn) (ih hrest)

private theorem mambaHitLoop_columns {blockSize alignmentTokens n : Nat}
    (h : mambaHitLoop p blockHashes scaleFactor groupIds (groupIds.map fun _ => nullBlock)
      blockSize alignmentTokens n = .ok columns) :
    ColumnsFrom p blockHashes scaleFactor groupIds 0 columns := by
  induction n with
  | zero =>
    obtain rfl := Except.ok.inj h
    exact columnsFrom_nil
  | succ n ih =>
    simp only [mambaHitLoop, bind_ok_iff] at h
    obtain ⟨column, hcolumn, h⟩ := h
    split at h
    · exact ih h
    · split at h
      · exact ih h
      · obtain rfl := Except.ok.inj h
        exact ColumnsFrom.replicate_append (columnsFrom_nil.cons (cachedColumn_at hcolumn))

/-- Every lookup returns columns that are null or cached at their index. -/
theorem findHitColumns_columns {spec : KVCacheSpec} {maxLength alignmentTokens : Nat}
    {useEagle : Bool} (h : findHitColumns spec p blockHashes maxLength groupIds useEagle
      alignmentTokens = .ok columns) :
    ColumnsFrom p blockHashes (spec.blockSize / p.hashBlockSize) groupIds 0 columns := by
  unfold findHitColumns at h
  simp only at h
  split at h
  · obtain rfl := Except.ok.inj h
    refine ColumnsFrom.take ?_ _
    split
    · exact (fullHitLoop_columns _ 0).dropLast
    · exact fullHitLoop_columns _ 0
  · simp only [bind_ok_iff, Prod.exists, pure_ok_iff] at h
    obtain ⟨computed, numContiguous, found, hloop, _, -, rfl⟩ := h
    have hcolumns := slidingWindowHitLoop_columns (columnsFrom_replicate _) hloop
    have htaken : ColumnsFrom p blockHashes (spec.blockSize / p.hashBlockSize) groupIds 0
        (if found then computed else computed.take (alignedLength spec.blockSize alignmentTokens
          (computed.take numContiguous).length)) := by
      split
      · exact hcolumns
      · exact hcolumns.take _
    split
    · exact htaken.dropLast
    · exact htaken
  · simp only [bind_ok_iff, pure_ok_iff] at h
    obtain ⟨_, -, _, -, rest, hrest, rfl⟩ := h
    exact (chunkedHitLoop_columns hrest).replicate_append
  · exact mambaHitLoop_columns h
  · cases h

end Columns

/-! ## Lengths -/

section Lengths

variable {p : BlockPool H} {blockHashes : List H} {scaleFactor : Nat} {groupIds : List Nat}
  {columns : List (List BlockId)}

private theorem length_fullHitLoop (n i : Nat) :
    (fullHitLoop p blockHashes scaleFactor groupIds n i).length ≤ n := by
  induction n generalizing i with
  | zero => exact Nat.le_refl _
  | succ n ih =>
    unfold fullHitLoop
    split
    · exact Nat.zero_le _
    · split
      · exact Nat.zero_le _
      · exact Nat.succ_le_succ (ih (i + 1))

private theorem length_slidingWindowHitLoop {contiguousBlocks blockSize alignmentTokens n : Nat}
    {computed computed' : List (List BlockId)} {numContiguous numContiguous' : Nat} {found : Bool}
    (h : slidingWindowHitLoop p blockHashes scaleFactor groupIds contiguousBlocks blockSize
      alignmentTokens n computed numContiguous = .ok (computed', numContiguous', found)) :
    computed'.length ≤ computed.length := by
  induction n generalizing computed numContiguous with
  | zero =>
    obtain ⟨rfl, -⟩ := Prod.mk.inj (Except.ok.inj h)
    exact Nat.le_refl _
  | succ n ih =>
    simp only [slidingWindowHitLoop, bind_ok_iff] at h
    obtain ⟨column, -, h⟩ := h
    split at h
    · exact ih h
    · split at h
      · exact ih h
      · split at h
        · obtain ⟨rfl, -⟩ := Prod.mk.inj (Except.ok.inj h)
          exact (List.length_take_le' _ _).trans_eq (List.length_set ..)
        · exact (ih h).trans_eq (List.length_set ..)

private theorem length_chunkedHitLoop {n i : Nat}
    (h : chunkedHitLoop p blockHashes scaleFactor groupIds n i = .ok columns) :
    columns.length ≤ n := by
  induction n generalizing i columns with
  | zero =>
    obtain rfl := Except.ok.inj h
    exact Nat.le_refl _
  | succ n ih =>
    simp only [chunkedHitLoop, bind_ok_iff] at h
    obtain ⟨column, -, h⟩ := h
    split at h
    · obtain rfl := Except.ok.inj h
      exact Nat.zero_le _
    · simp only [bind_ok_iff, pure_ok_iff] at h
      obtain ⟨rest, hrest, rfl⟩ := h
      exact Nat.succ_le_succ (ih hrest)

private theorem length_mambaHitLoop {nullColumn : List BlockId} {blockSize alignmentTokens n : Nat}
    (h : mambaHitLoop p blockHashes scaleFactor groupIds nullColumn blockSize alignmentTokens n =
      .ok columns) : columns.length ≤ n := by
  induction n with
  | zero =>
    obtain rfl := Except.ok.inj h
    exact Nat.le_refl _
  | succ n ih =>
    simp only [mambaHitLoop, bind_ok_iff] at h
    obtain ⟨column, -, h⟩ := h
    split at h
    · exact (ih h).trans (Nat.le_succ n)
    · split at h
      · exact (ih h).trans (Nat.le_succ n)
      · obtain rfl := Except.ok.inj h
        simp

/-- A lookup finds no more than the tokens it may look at. -/
theorem length_findHitColumns {spec : KVCacheSpec} {maxLength alignmentTokens : Nat}
    {useEagle : Bool} (h : findHitColumns spec p blockHashes maxLength groupIds useEagle
      alignmentTokens = .ok columns) : columns.length * spec.blockSize ≤ maxLength := by
  rw [← Nat.le_div_iff_mul_le spec.blockSize_pos]
  unfold findHitColumns at h
  simp only at h
  split at h
  · obtain rfl := Except.ok.inj h
    refine (List.length_take_le' _ _).trans ?_
    split
    · exact (List.dropLast_sublist _).length_le.trans (length_fullHitLoop _ 0)
    · exact length_fullHitLoop _ 0
  · simp only [bind_ok_iff, Prod.exists, pure_ok_iff] at h
    obtain ⟨computed, numContiguous, found, hloop, _, -, rfl⟩ := h
    have hlength := length_slidingWindowHitLoop hloop
    rw [List.length_replicate] at hlength
    have htaken : (if found then computed else computed.take (alignedLength spec.blockSize
        alignmentTokens (computed.take numContiguous).length)).length ≤
          maxLength / spec.blockSize := by
      split
      · exact hlength
      · exact (List.length_take_le' _ _).trans hlength
    split
    · exact (List.dropLast_sublist _).length_le.trans htaken
    · exact htaken
  · rename_i chunk _
    simp only [bind_ok_iff, pure_ok_iff] at h
    obtain ⟨_, -, _, -, rest, hrest, rfl⟩ := h
    have hlength := length_chunkedHitLoop hrest
    have hstart : maxLength / chunk * chunk / spec.blockSize ≤ maxLength / spec.blockSize :=
      Nat.div_le_div_right (Nat.div_mul_le_self _ _)
    rw [List.length_append, List.length_replicate]
    omega
  · exact length_mambaHitLoop h
  · cases h

/-- The rows of a lookup: one for each group, all of the length found. -/
theorem findLongestCacheHit_rows {spec : KVCacheSpec} {maxLength alignmentTokens : Nat}
    {useEagle : Bool} {hitBlocks : List (List BlockId)}
    (h : findLongestCacheHit spec p blockHashes maxLength groupIds useEagle alignmentTokens =
      .ok hitBlocks) : hitBlocks.length = groupIds.length ∧ ∃ n, n * spec.blockSize ≤ maxLength ∧
        ∀ row ∈ hitBlocks, row.length = n := by
  simp only [findLongestCacheHit, bind_ok_iff, pure_ok_iff] at h
  obtain ⟨columns, hcolumns, rfl⟩ := h
  refine ⟨by simp, columns.length, length_findHitColumns hcolumns, fun row hrow => ?_⟩
  obtain ⟨k, -, rfl⟩ := List.mem_map.mp hrow
  simp

end Lengths

/-! ## Rows -/

section Rows

variable {p : BlockPool H} {blockHashes : List H} {spec : KVCacheSpec}

/-- The blocks of a cached column are stored under the key of their group. -/
private theorem stores_of_getCachedBlock {blockHash : List H} {groupIds : List Nat}
    {column : List BlockId} (h : p.getCachedBlock blockHash groupIds = some column) :
    column.length = groupIds.length ∧ ∀ k groupId, groupIds[k]? = some groupId →
      p.cachedBlockHashToBlock.Stores ⟨blockHash, groupId⟩ (column.getD k nullBlock) := by
  unfold getCachedBlock at h
  induction groupIds generalizing column with
  | nil =>
    obtain rfl : [] = column := by simpa using h
    simp
  | cons g groupIds ih =>
    simp only [List.mapM_cons, Option.bind_eq_bind, Option.bind_eq_some_iff, Option.pure_def,
      Option.some.injEq] at h
    obtain ⟨b, hb, rest, hrest, rfl⟩ := h
    obtain ⟨hlen, hstores⟩ := ih hrest
    refine ⟨by simp [hlen], fun k groupId hk => ?_⟩
    cases k with
    | zero =>
      obtain rfl : g = groupId := by simpa using hk
      exact BlockHashToBlockMap.stores_of_getOneBlock hb
    | succ k => exact hstores k groupId (by simpa using hk)

/-- The rows of a lookup are hits. -/
private theorem hitsAt_of_columns {groupIds : List Nat} {columns : List (List BlockId)}
    (hindex : p.IndexInv)
    (h : ColumnsFrom p blockHashes (spec.blockSize / p.hashBlockSize) groupIds 0 columns)
    {k groupId : Nat} (hk : groupIds[k]? = some groupId) :
    HitsAt p blockHashes spec groupId (columns.map fun column => column.getD k nullBlock) := by
  intro i b hb hbn
  rw [List.getElem?_map, Option.map_eq_some_iff] at hb
  obtain ⟨column, hcolumn, rfl⟩ := hb
  rcases h i column hcolumn with hnull | ⟨blockHash, hmerged, hcached⟩
  · refine absurd ?_ hbn
    rw [hnull, List.getD_eq_getElem?_getD, List.getElem?_map, hk]
    rfl
  · rw [Nat.zero_add] at hmerged
    exact ⟨blockHash, hmerged,
      (hindex.stores_iff _ _).mp ((stores_of_getCachedBlock hcached).2 k groupId hk)⟩

/-- What `find_longest_cache_hit` returns for a group is a hit of that group. -/
theorem findLongestCacheHit_hitsAt {maxLength alignmentTokens : Nat} {groupIds : List Nat}
    {useEagle : Bool} {hitBlocks : List (List BlockId)} (hindex : p.IndexInv)
    (h : findLongestCacheHit spec p blockHashes maxLength groupIds useEagle alignmentTokens =
      .ok hitBlocks) {k groupId : Nat} (hk : groupIds[k]? = some groupId) :
    ∃ hits, hitBlocks[k]? = some hits ∧ HitsAt p blockHashes spec groupId hits := by
  simp only [findLongestCacheHit, bind_ok_iff, pure_ok_iff] at h
  obtain ⟨columns, hcolumns, rfl⟩ := h
  have hlt : k < groupIds.length := (List.getElem?_eq_some_iff.mp hk).1
  exact ⟨columns.map fun column => column.getD k nullBlock, by simp [hlt],
    hitsAt_of_columns hindex (findHitColumns_columns hcolumns) hk⟩

theorem hitsAt_nil {groupId : Nat} : HitsAt p blockHashes spec groupId [] := by
  intro i b hb
  simp at hb

theorem HitsAt.take {groupId : Nat} {hits : List BlockId}
    (h : HitsAt p blockHashes spec groupId hits) (n : Nat) :
    HitsAt p blockHashes spec groupId (hits.take n) := by
  intro i b hb
  rw [List.getElem?_take] at hb
  split at hb
  · exact h i b hb
  · cases hb

end Rows

/-! ## Keys -/

section Keys

variable {env : HashEnv H} {r r' : Request H} {scaleFactor i j : Nat}

/-- A merged hash starts with the first of the hashes it consists of. -/
theorem head?_mergedHash {blockHashes : List H} {blockHash : List H} (hs : 0 < scaleFactor)
    (h : mergedHash blockHashes scaleFactor i = some blockHash) :
    ∃ hash, blockHash.head? = some hash ∧ blockHashes[i * scaleFactor]? = some hash := by
  unfold mergedHash at h
  split at h
  · rename_i hle
    have hlt : i * scaleFactor < blockHashes.length := by
      rw [Nat.succ_mul] at hle
      omega
    obtain rfl := Option.some.inj h
    refine ⟨blockHashes[i * scaleFactor], ?_, List.getElem?_eq_getElem hlt⟩
    rw [List.head?_take, if_neg (by omega), List.head?_drop, List.getElem?_eq_getElem hlt]
  · cases h

/-- The merged hash of one index is not that of another. -/
private theorem mergedHash_index (he : env.CollisionFree) (hr : r.Hashed env) (hr' : r'.Hashed env)
    (hs : 0 < scaleFactor) {blockHash : List H}
    (h : mergedHash r.blockHashes scaleFactor i = some blockHash)
    (h' : mergedHash r'.blockHashes scaleFactor j = some blockHash) : i = j := by
  obtain ⟨inputs, hin⟩ := hr
  obtain ⟨inputs', hin'⟩ := hr'
  obtain ⟨hash, hhead, hget⟩ := head?_mergedHash hs h
  obtain ⟨hash', hhead', hget'⟩ := head?_mergedHash hs h'
  obtain rfl : hash = hash' := Option.some.inj (hhead.symm.trans hhead')
  rw [hin] at hget
  rw [hin'] at hget'
  exact Nat.eq_of_mul_eq_mul_right hs (eq_take_of_getElem? he.separating hget hget').1

/-- A list that holds a block at one index only holds it at most once. -/
private theorem count_le_one_of_index {α : Type} [DecidableEq α] {l : List α} {a : α}
    (h : ∀ i j : Nat, l[i]? = some a → l[j]? = some a → i = j) : l.count a ≤ 1 := by
  by_contra hlt
  obtain ⟨i, j, hij, hi, hj⟩ := List.duplicate_iff_exists_distinct_get.mp
    (List.duplicate_iff_two_le_count.mpr (by omega : 2 ≤ l.count a))
  have heq := h i j (by rw [hi]; simp) (by rw [hj]; simp)
  exact absurd heq (Nat.ne_of_lt hij)

/-- The real blocks of a hit are distinct. -/
theorem HitsAt.distinct (he : env.CollisionFree) (hr : r.Hashed env) {p : BlockPool H}
    {spec : KVCacheSpec} (hs : 0 < spec.blockSize / p.hashBlockSize) {groupId : Nat}
    {hits : List BlockId} (h : HitsAt p r.blockHashes spec groupId hits) {b : BlockId}
    (hb : b ≠ nullBlock) : hits.count b ≤ 1 := by
  refine count_le_one_of_index fun i j hi hj => ?_
  obtain ⟨blockHash, hmerged, hkey⟩ := h i b hi hb
  obtain ⟨blockHash', hmerged', hkey'⟩ := h j b hj hb
  obtain rfl : blockHash = blockHash' := by
    rw [hkey] at hkey'
    simpa using hkey'
  exact mergedHash_index he hr hr hs hmerged hmerged'

end Keys

/-! ## Groups -/

namespace KVCacheConfig

private theorem mem_addToAttentionGroups {spec : KVCacheSpec} {groupId : Nat}
    {groups : List (KVCacheSpec × List Nat)} {e : KVCacheSpec × List Nat}
    (he : e ∈ addToAttentionGroups spec groupId groups) {g : Nat} (hg : g ∈ e.2) :
    (e.1 = spec ∧ g = groupId) ∨ ∃ e' ∈ groups, e'.1 = e.1 ∧ g ∈ e'.2 := by
  induction groups with
  | nil =>
    simp only [addToAttentionGroups, List.mem_singleton] at he
    subst he
    exact Or.inl ⟨rfl, by simpa using hg⟩
  | cons e' groups ih =>
    simp only [addToAttentionGroups] at he
    split at he
    · rename_i heq
      rcases List.mem_cons.mp he with rfl | hm
      · rcases List.mem_append.mp hg with hg | hg
        · exact Or.inr ⟨e', by simp, rfl, hg⟩
        · exact Or.inl ⟨heq, by simpa using hg⟩
      · exact Or.inr ⟨e, by simp [hm], rfl, hg⟩
    · rcases List.mem_cons.mp he with rfl | hm
      · exact Or.inr ⟨e', by simp, rfl, hg⟩
      · rcases ih hm with hnew | ⟨e'', hm', heq⟩
        · exact Or.inl hnew
        · exact Or.inr ⟨e'', by simp [hm'], heq⟩

/-- The ids listed with a spec are groups with this spec. -/
theorem groups_of_attentionGroups {c : KVCacheConfig} {e : KVCacheSpec × List Nat}
    (he : e ∈ c.attentionGroups) {g : Nat} (hg : g ∈ e.2) : c.kvCacheGroups[g]? = some e.1 := by
  have hfold (l : List (KVCacheSpec × Nat)) (groups : List (KVCacheSpec × List Nat))
      (hgroups : ∀ e ∈ groups, ∀ g ∈ e.2, c.kvCacheGroups[g]? = some e.1)
      (hl : ∀ s ∈ l, c.kvCacheGroups[s.2]? = some s.1) :
      ∀ e ∈ l.foldl (fun groups s => addToAttentionGroups s.1 s.2 groups) groups, ∀ g ∈ e.2,
        c.kvCacheGroups[g]? = some e.1 := by
    induction l generalizing groups with
    | nil => exact hgroups
    | cons s l ih =>
      refine ih _ (fun e he g hg => ?_) fun s' hs' => hl s' (by simp [hs'])
      rcases mem_addToAttentionGroups he hg with ⟨hspec, rfl⟩ | ⟨e', he', hspec, hg'⟩
      · rw [hspec]
        exact hl s (by simp)
      · rw [← hspec]
        exact hgroups e' he' g hg'
  simp only [attentionGroups, List.mem_append, List.mem_filter] at he
  refine hfold c.kvCacheGroups.zipIdx [] (by simp) (fun s hs => ?_) e (he.elim And.left And.left)
    g hg
  exact List.mem_zipIdx_iff_getElem?.mp hs

/-- Adding a group lists it under its spec and keeps the others listed. -/
private theorem listed_addToAttentionGroups (spec : KVCacheSpec) (groupId : Nat)
    (groups : List (KVCacheSpec × List Nat)) :
    (∃ e ∈ addToAttentionGroups spec groupId groups, e.1 = spec ∧ groupId ∈ e.2) ∧
      ∀ e ∈ groups, ∃ e' ∈ addToAttentionGroups spec groupId groups,
        e'.1 = e.1 ∧ ∀ g ∈ e.2, g ∈ e'.2 := by
  induction groups with
  | nil => simp [addToAttentionGroups]
  | cons e groups ih =>
    by_cases heq : e.1 = spec
    · simp only [addToAttentionGroups, heq, if_true]
      refine ⟨⟨_, List.mem_cons_self, rfl, by simp⟩, fun e' he' => ?_⟩
      rcases List.mem_cons.mp he' with rfl | hm
      · exact ⟨_, List.mem_cons_self, heq.symm, fun g hg => by simp [hg]⟩
      · exact ⟨e', List.mem_cons_of_mem _ hm, rfl, fun g hg => hg⟩
    · simp only [addToAttentionGroups, heq, if_false]
      obtain ⟨⟨e₁, he₁, hnew⟩, hold⟩ := ih
      refine ⟨⟨e₁, List.mem_cons_of_mem _ he₁, hnew⟩, fun e' he' => ?_⟩
      rcases List.mem_cons.mp he' with rfl | hm
      · exact ⟨e', List.mem_cons_self, rfl, fun g hg => hg⟩
      · obtain ⟨e₂, he₂, hkept⟩ := hold e' hm
        exact ⟨e₂, List.mem_cons_of_mem _ he₂, hkept⟩

/-- Every configured group is listed under its spec. -/
theorem attentionGroups_of_group {c : KVCacheConfig} {g : Nat} {spec : KVCacheSpec}
    (h : c.kvCacheGroups[g]? = some spec) : ∃ e ∈ c.attentionGroups, e.1 = spec ∧ g ∈ e.2 := by
  have hfold (l : List (KVCacheSpec × Nat)) (groups : List (KVCacheSpec × List Nat))
      (hl : (spec, g) ∈ l ∨ ∃ e ∈ groups, e.1 = spec ∧ g ∈ e.2) :
      ∃ e ∈ l.foldl (fun groups s => addToAttentionGroups s.1 s.2 groups) groups,
        e.1 = spec ∧ g ∈ e.2 := by
    induction l generalizing groups with
    | nil => exact hl.resolve_left (by simp)
    | cons s l ih =>
      obtain ⟨hnew, hold⟩ := listed_addToAttentionGroups s.1 s.2 groups
      refine ih _ ?_
      rcases hl with hm | ⟨e, he, hspec, hg⟩
      · rcases List.mem_cons.mp hm with rfl | hm
        · exact Or.inr hnew
        · exact Or.inl hm
      · obtain ⟨e', he', hspec', hkept⟩ := hold e he
        exact Or.inr ⟨e', he', hspec'.trans hspec, hkept g hg⟩
  obtain ⟨e, he, hspec, hg⟩ := hfold c.kvCacheGroups.zipIdx []
    (Or.inl (List.mem_zipIdx_iff_getElem?.mpr h))
  refine ⟨e, ?_, hspec, hg⟩
  simp only [attentionGroups, List.mem_append, List.mem_filter]
  by_cases hfull : e.1.isFullAttention
  · exact Or.inl ⟨he, hfull⟩
  · exact Or.inr ⟨he, by simpa using hfull⟩

end KVCacheConfig

namespace KVCacheManager

variable {kv : KVCacheManager H} {blockHashes : List H}

/-- The hits found so far are hits of their groups. -/
def AllHitsAt (kv : KVCacheManager H) (blockHashes : List H) (hits : Nat → Option (List BlockId)) :
    Prop :=
  ∀ g blocks, hits g = some blocks → ∃ spec, kv.config.kvCacheGroups[g]? = some spec ∧
    HitsAt kv.blockPool blockHashes spec g blocks

/-- What is recorded for a group: a row of the lookup, or what was there before. -/
theorem record_eq (hits : Nat → Option (List BlockId)) (pairs : List (Nat × List BlockId))
    (g : Nat) :
    let recorded : Nat → Option (List BlockId) :=
      pairs.foldl (fun hits e => Function.update hits e.1 (some e.2)) hits
    (∃ e ∈ pairs, e.1 = g ∧ recorded g = some e.2) ∨
      g ∉ pairs.map Prod.fst ∧ recorded g = hits g := by
  intro recorded
  induction pairs generalizing hits with
  | nil => exact Or.inr ⟨by simp, rfl⟩
  | cons e pairs ih =>
    rcases ih (Function.update hits e.1 (some e.2)) with ⟨e', he', heq⟩ | ⟨hnot, heq⟩
    · exact Or.inl ⟨e', List.mem_cons_of_mem _ he', heq⟩
    · by_cases hg : g = e.1
      · subst hg
        exact Or.inl ⟨e, List.mem_cons_self, rfl, heq.trans (by simp)⟩
      · refine Or.inr ⟨?_, heq.trans (by simp [hg])⟩
        simp only [List.map_cons, List.mem_cons, not_or]
        exact ⟨hg, hnot⟩

/-- Recording the rows of one lookup. -/
theorem AllHitsAt.record {hits : Nat → Option (List BlockId)}
    (h : kv.AllHitsAt blockHashes hits) (spec : KVCacheSpec) {pairs : List (Nat × List BlockId)}
    (hpairs : ∀ e ∈ pairs, kv.config.kvCacheGroups[e.1]? = some spec ∧
      HitsAt kv.blockPool blockHashes spec e.1 e.2) :
    kv.AllHitsAt blockHashes
      (pairs.foldl (fun hits e => Function.update hits e.1 (some e.2)) hits) := by
  intro g blocks hg
  rcases record_eq hits pairs g with ⟨e, he, rfl, heq⟩ | ⟨-, heq⟩
  · rw [heq, Option.some.injEq] at hg
    exact hg ▸ ⟨spec, hpairs e he⟩
  · exact h g blocks (heq ▸ hg)

variable {hits hits' : Nat → Option (List BlockId)}

private theorem hybridPass_hitsAt (hindex : kv.blockPool.IndexInv)
    {groups : List (KVCacheSpec × List Nat)}
    (hgroups : ∀ e ∈ groups, ∀ g ∈ e.2, kv.config.kvCacheGroups[g]? = some e.1)
    {currHitLength hitLength : Nat} (h : kv.AllHitsAt blockHashes hits)
    (hrun : kv.hybridPass blockHashes groups currHitLength hits = .ok (hitLength, hits')) :
    kv.AllHitsAt blockHashes hits' := by
  induction groups generalizing currHitLength hits with
  | nil =>
    obtain ⟨-, rfl⟩ := Prod.mk.inj (Except.ok.inj hrun)
    exact h
  | cons e groups ih =>
    obtain ⟨spec, groupIds⟩ := e
    have hrest : ∀ e ∈ groups, ∀ g ∈ e.2, kv.config.kvCacheGroups[g]? = some e.1 :=
      fun e he => hgroups e (by simp [he])
    simp only [hybridPass] at hrun
    split at hrun
    · exact ih hrest h hrun
    · simp only [bind_ok_iff] at hrun
      obtain ⟨hitBlocks, hfind, hrun⟩ := hrun
      refine ih hrest (h.record spec fun e he => ?_) hrun
      obtain ⟨k, hk⟩ := List.mem_iff_getElem?.mp he
      rw [List.getElem?_zip_eq_some] at hk
      obtain ⟨hits, hhits, hat⟩ := findLongestCacheHit_hitsAt hindex hfind hk.1
      rw [hhits, Option.some.injEq] at hk
      rw [← hk.2]
      exact ⟨hgroups (spec, groupIds) (by simp) _ (List.mem_of_getElem? hk.1), hat⟩

private theorem hybridLoop_hitsAt (hindex : kv.blockPool.IndexInv) {fuel length hitLength : Nat}
    (h : kv.AllHitsAt blockHashes hits)
    (hrun : kv.hybridLoop blockHashes fuel length hits = .ok (hitLength, hits')) :
    kv.AllHitsAt blockHashes hits' := by
  induction fuel generalizing length hits with
  | zero =>
    obtain ⟨-, rfl⟩ := Prod.mk.inj (Except.ok.inj hrun)
    exact h
  | succ fuel ih =>
    simp only [hybridLoop, bind_ok_iff, Prod.exists] at hrun
    obtain ⟨currHitLength, hits₁, hpass, hrun⟩ := hrun
    have h₁ := hybridPass_hitsAt hindex
      (fun e he g hg => KVCacheConfig.groups_of_attentionGroups he hg) h hpass
    split at hrun
    · obtain ⟨-, rfl⟩ := Prod.mk.inj (pure_ok_iff.mp hrun)
      exact h₁
    · split at hrun
      · obtain ⟨-, rfl⟩ := Prod.mk.inj (pure_ok_iff.mp hrun)
        exact h₁
      · exact ih h₁ hrun

variable {spec : KVCacheSpec}

private theorem findHybridHit_hitsAt (hindex : kv.blockPool.IndexInv) {maxLength hitLength : Nat}
    {hits : List (List BlockId)}
    (hrun : kv.findHybridHit blockHashes maxLength = .ok (hits, hitLength)) {g : Nat}
    (hspec : kv.config.kvCacheGroups[g]? = some spec) :
    HitsAt kv.blockPool blockHashes spec g (hits.getD g []) := by
  simp only [findHybridHit, bind_ok_iff, Prod.exists, pure_ok_iff, Prod.mk.injEq] at hrun
  obtain ⟨length, hits', hloop, rfl, rfl⟩ := hrun
  have hnone : kv.AllHitsAt blockHashes fun _ => none := fun g blocks hg => by cases hg
  have hall := hybridLoop_hitsAt hindex hnone hloop
  have hlt : g < kv.config.kvCacheGroups.length := (List.getElem?_eq_some_iff.mp hspec).1
  have hof (blocks : List BlockId) (hb : hits' g = some blocks) :
      HitsAt kv.blockPool blockHashes spec g blocks := by
    obtain ⟨spec', hspec', hat⟩ := hall g blocks hb
    rw [hspec, Option.some.injEq] at hspec'
    exact hspec' ▸ hat
  rw [List.getD_eq_getElem?_getD, List.getElem?_map, List.getElem?_range hlt]
  simp only [Option.map_some, Option.getD_some]
  -- the row of the group, possibly cut to the final length
  have hrow (n : Nat) : HitsAt kv.blockPool blockHashes spec g
      (((hits' g).map (List.take n)).getD []) ∧
      HitsAt kv.blockPool blockHashes spec g ((hits' g).getD []) := by
    cases hb : hits' g with
    | none => exact ⟨hitsAt_nil, hitsAt_nil⟩
    | some blocks => exact ⟨(hof blocks hb).take n, hof blocks hb⟩
  cases kv.config.attentionGroups.head? with
  | none => exact (hrow 0).2
  | some first =>
    by_cases hfull : first.1.isFullAttention
    · by_cases hg : g ∈ first.2
      · simpa only [hfull, hg, if_true] using (hrow _).1
      · simpa only [hfull, hg, if_true, if_false] using (hrow 0).2
    · simpa only [hfull, Bool.false_eq_true, if_false] using (hrow 0).2

/-- The blocks `get_computed_blocks` returns for a group are a hit of that group. -/
theorem getComputedBlocks_hitsAt (hindex : kv.blockPool.IndexInv) {request : Request H}
    {hits : List (List BlockId)} {n : Nat} (hrun : kv.getComputedBlocks request = .ok (hits, n))
    {g : Nat} (hspec : kv.config.kvCacheGroups[g]? = some spec) :
    HitsAt kv.blockPool request.blockHashes spec g (hits.getD g []) := by
  unfold getComputedBlocks at hrun
  simp only at hrun
  split at hrun
  · obtain ⟨rfl, -⟩ := Prod.mk.inj (Except.ok.inj hrun)
    rw [List.getD_eq_getElem?_getD, List.getElem?_map, hspec]
    exact hitsAt_nil
  · split at hrun
    · rename_i spec' hgroups
      simp only [bind_ok_iff, pure_ok_iff, Prod.mk.injEq] at hrun
      obtain ⟨hitBlocks, hfind, rfl, -⟩ := hrun
      rw [hgroups] at hspec
      cases g with
      | zero =>
        obtain rfl : spec' = spec := by simpa using hspec
        obtain ⟨hits, hhits, hat⟩ := findLongestCacheHit_hitsAt (k := 0) hindex hfind
          List.getElem?_cons_zero
        rw [List.getD_eq_getElem?_getD, hhits]
        exact hat
      | succ g => simp at hspec
    · exact findHybridHit_hitsAt hindex hrun hspec

/-! ### Lengths of the hits -/

/-- A group's hit covers at most a number of tokens. -/
def Covers (hits : Nat → Option (List BlockId)) (g blockSize n : Nat) : Prop :=
  ∀ blocks, hits g = some blocks → blocks.length * blockSize ≤ n

/-- A pass never lengthens the hit, and keeps short what covers no more than its length. -/
theorem hybridPass_covers {groups : List (KVCacheSpec × List Nat)}
    (hgroups : ∀ e ∈ groups, ∀ g ∈ e.2, kv.config.kvCacheGroups[g]? = some e.1)
    {currHitLength hitLength : Nat}
    (hrun : kv.hybridPass blockHashes groups currHitLength hits = .ok (hitLength, hits')) :
    hitLength ≤ currHitLength ∧
      (∀ g spec n, kv.config.kvCacheGroups[g]? = some spec → currHitLength ≤ n →
        Covers hits g spec.blockSize n → Covers hits' g spec.blockSize n) ∧
      ∀ e ∈ groups, e.1.isFullAttention = false → ∀ g ∈ e.2,
        Covers hits' g e.1.blockSize currHitLength := by
  induction groups generalizing currHitLength hits with
  | nil =>
    obtain ⟨rfl, rfl⟩ := Prod.mk.inj (Except.ok.inj hrun)
    exact ⟨Nat.le_refl _, fun _ _ _ _ _ h => h, by simp⟩
  | cons e groups ih =>
    obtain ⟨spec, groupIds⟩ := e
    have hrest : ∀ e ∈ groups, ∀ g ∈ e.2, kv.config.kvCacheGroups[g]? = some e.1 :=
      fun e he => hgroups e (by simp [he])
    have hspec := hgroups (spec, groupIds) (by simp)
    simp only [hybridPass] at hrun
    split at hrun
    · rename_i hfull
      obtain ⟨hle, hkeep, hcover⟩ := ih hrest hrun
      have hfloor := Nat.div_mul_le_self currHitLength spec.blockSize
      refine ⟨hle.trans hfloor, fun g spec' n hg hn => hkeep g spec' n hg (hfloor.trans hn), ?_⟩
      intro e he hnot g hg
      rcases List.mem_cons.mp he with rfl | he
      · simp [hnot] at hfull
      · exact fun blocks hb => (hcover e he hnot g hg blocks hb).trans hfloor
    · simp only [bind_ok_iff] at hrun
      obtain ⟨hitBlocks, hfind, hrun⟩ := hrun
      obtain ⟨hlen, k, hk, hrows⟩ := findLongestCacheHit_rows hfind
      obtain ⟨hle, hkeep, hcover⟩ := ih hrest hrun
      -- all rows are as long as the new hit length
      have hhead : (hitBlocks.headD []).length * spec.blockSize ≤ currHitLength := by
        cases hitBlocks with
        | nil => simp
        | cons row rows =>
          rw [List.headD_cons, hrows row (by simp)]
          exact hk
      have hrecorded (e : Nat × List BlockId) (he : e ∈ groupIds.zip hitBlocks) :
          e.1 ∈ groupIds ∧ e.2.length * spec.blockSize ≤ currHitLength := by
        refine ⟨(List.of_mem_zip he).1, ?_⟩
        rw [hrows _ (List.of_mem_zip he).2]
        exact hk
      refine ⟨hle.trans hhead, fun g spec' n hg hn hc => ?_, ?_⟩
      · refine hkeep g spec' n hg (hhead.trans hn) fun blocks hb => ?_
        rcases record_eq hits (groupIds.zip hitBlocks) g with ⟨e, he, rfl, heq⟩ | ⟨-, heq⟩
        · obtain ⟨hmem, hlength⟩ := hrecorded e he
          obtain rfl : spec = spec' := Option.some.inj ((hspec _ hmem).symm.trans hg)
          rw [heq, Option.some.injEq] at hb
          exact (hb ▸ hlength).trans hn
        · exact hc blocks (heq ▸ hb)
      · intro e he hnot g hg
        rcases List.mem_cons.mp he with rfl | he
        · refine hkeep g spec currHitLength (hspec g hg) hhead fun blocks hb => ?_
          rcases record_eq hits (groupIds.zip hitBlocks) g with ⟨e, he, rfl, heq⟩ | ⟨hmiss, -⟩
          · rw [heq, Option.some.injEq] at hb
            exact hb ▸ (hrecorded e he).2
          · rw [List.map_fst_zip (by omega)] at hmiss
            exact absurd hg hmiss
        · exact fun blocks hb => (hcover e he hnot g hg blocks hb).trans hhead

/-- After one pass over a full-attention spec and one other, the other's hit has exactly
the length found. -/
theorem hybridPass_simple {e₁ e₂ : KVCacheSpec × List Nat} (hfull : e₂.1.isFullAttention = false)
    {currHitLength hitLength : Nat}
    (hrun : kv.hybridPass blockHashes [e₁, e₂] currHitLength hits = .ok (hitLength, hits'))
    {g : Nat} (hg : g ∈ e₂.2) : Covers hits' g e₂.1.blockSize hitLength := by
  have hlast (curr : Nat) (hits : Nat → Option (List BlockId))
      (hrun : kv.hybridPass blockHashes [e₂] curr hits = .ok (hitLength, hits')) :
      Covers hits' g e₂.1.blockSize hitLength := by
    obtain ⟨spec, groupIds⟩ := e₂
    simp only [hybridPass, hfull, Bool.false_and, Bool.false_eq_true, if_false, bind_ok_iff,
      Except.ok.injEq, Prod.mk.injEq] at hrun
    obtain ⟨hitBlocks, hfind, rfl, rfl⟩ := hrun
    obtain ⟨hlen, k, hk, hrows⟩ := findLongestCacheHit_rows hfind
    intro blocks hb
    rcases record_eq hits (groupIds.zip hitBlocks) g with ⟨e, he, rfl, heq⟩ | ⟨hmiss, -⟩
    · rw [heq, Option.some.injEq] at hb
      have hrow := (List.of_mem_zip he).2
      cases hitBlocks with
      | nil => simp at hrow
      | cons row rows =>
        rw [← hb, hrows _ hrow, List.headD_cons, hrows row (by simp)]
    · rw [List.map_fst_zip (by omega)] at hmiss
      exact absurd hg hmiss
  obtain ⟨spec, groupIds⟩ := e₁
  rw [hybridPass] at hrun
  split at hrun
  · exact hlast _ _ hrun
  · simp only [bind_ok_iff] at hrun
    obtain ⟨_, -, hrun⟩ := hrun
    exact hlast _ _ hrun

/-- The hits of groups other than full attention cover at most the hit length. Every pass
but the last shortens the hit, so the passes do not run out. -/
theorem hybridLoop_covers {fuel length hitLength : Nat} (hfuel : length < fuel)
    (hrun : kv.hybridLoop blockHashes fuel length hits = .ok (hitLength, hits')) :
    ∀ e ∈ kv.config.attentionGroups, e.1.isFullAttention = false → ∀ g ∈ e.2,
      Covers hits' g e.1.blockSize hitLength := by
  induction fuel generalizing length hits with
  | zero => omega
  | succ fuel ih =>
    simp only [hybridLoop, bind_ok_iff, Prod.exists] at hrun
    obtain ⟨currHitLength, hits₁, hpass, hrun⟩ := hrun
    have hcovers := hybridPass_covers
      (fun e he g hg => KVCacheConfig.groups_of_attentionGroups he hg) hpass
    split at hrun
    · obtain ⟨rfl, rfl⟩ := Prod.mk.inj (pure_ok_iff.mp hrun)
      exact hcovers.2.2
    · rename_i hlt
      split at hrun
      · rename_i hsimple
        obtain ⟨rfl, rfl⟩ := Prod.mk.inj (pure_ok_iff.mp hrun)
        simp only [KVCacheConfig.isSimpleHybrid, decide_eq_true_eq] at hsimple
        obtain ⟨e₁, e₂, hgroups⟩ := List.length_eq_two.mp hsimple.1
        rw [hgroups] at hpass hsimple ⊢
        intro e he hnot g hg
        simp only [List.mem_cons, List.not_mem_nil, or_false] at he
        rcases he with rfl | rfl
        · simp [hnot] at hsimple
        · exact hybridPass_simple hnot hpass hg
      · exact ih (by omega) hrun

/-- Outside full attention, the hit of a group covers at most the hit length. -/
theorem getComputedBlocks_covers {request : Request H} {hits : List (List BlockId)} {n : Nat}
    (hrun : kv.getComputedBlocks request = .ok (hits, n)) {g : Nat}
    (hspec : kv.config.kvCacheGroups[g]? = some spec) (hfull : spec.isFullAttention = false) :
    (hits.getD g []).length * spec.blockSize ≤ n := by
  unfold getComputedBlocks at hrun
  simp only at hrun
  split at hrun
  · obtain ⟨rfl, rfl⟩ := Prod.mk.inj (Except.ok.inj hrun)
    rw [List.getD_eq_getElem?_getD, List.getElem?_map, hspec]
    simp
  · split at hrun
    · rename_i spec' hgroups
      simp only [bind_ok_iff, pure_ok_iff, Prod.mk.injEq] at hrun
      obtain ⟨hitBlocks, -, rfl, rfl⟩ := hrun
      rw [hgroups] at hspec
      cases g with
      | zero =>
        obtain rfl : spec' = spec := by simpa using hspec
        cases hitBlocks <;> simp
      | succ g => simp at hspec
    · simp only [findHybridHit, bind_ok_iff, Prod.exists, pure_ok_iff, Prod.mk.injEq] at hrun
      obtain ⟨length, hits', hloop, rfl, rfl⟩ := hrun
      obtain ⟨e, he, rfl, hg⟩ := KVCacheConfig.attentionGroups_of_group hspec
      have hcovers := hybridLoop_covers (by omega) hloop e he hfull g hg
      have hlt : g < kv.config.kvCacheGroups.length := (List.getElem?_eq_some_iff.mp hspec).1
      rw [List.getD_eq_getElem?_getD, List.getElem?_map, List.getElem?_range hlt]
      simp only [Option.map_some, Option.getD_some]
      have hrow : ((hits' g).getD []).length * e.1.blockSize ≤ length := by
        cases hb : hits' g with
        | none => simp
        | some blocks => exact hcovers blocks hb
      have hcut (k : Nat) :
          (((hits' g).map (List.take k)).getD []).length * e.1.blockSize ≤ length := by
        refine (Nat.mul_le_mul_right _ ?_).trans hrow
        cases hits' g with
        | none => exact Nat.le_refl _
        | some blocks => exact List.length_take_le' k blocks
      cases kv.config.attentionGroups.head? with
      | none => exact hrow
      | some first =>
        by_cases hfirst : first.1.isFullAttention
        · by_cases hg' : g ∈ first.2
          · simpa only [hfirst, hg', if_true] using hcut _
          · simpa only [hfirst, hg', if_true, if_false] using hrow
        · simpa only [hfirst, Bool.false_eq_true, if_false] using hrow

end KVCacheManager

end Vllm
