import Vllm.Core.CacheRun

/-!
# Slots in block tables

No call of the KV cache manager for a request shortens a block table, except that the request's
own tables are freed; and what `allocate_slots` grants is in the tables of the full-attention
groups afterwards.
-/

namespace Vllm

open Checked

variable {H : Type}

/-! ## One group -/

namespace SingleTypeKVCacheManager

variable {p p' : BlockPool H} {m m' : SingleTypeKVCacheManager H} {requestId : RequestId}
  {kept : RequestId → Prop}

/-- The tables of some requests are not shortened. -/
structure RowsGrow (kept : RequestId → Prop) (m m' : SingleTypeKVCacheManager H) : Prop where
  spec_eq : m'.kvCacheSpec = m.kvCacheSpec
  length_le : ∀ r, kept r → (m.row r).length ≤ (m'.row r).length

theorem RowsGrow.refl (kept : RequestId → Prop) (m : SingleTypeKVCacheManager H) :
    RowsGrow kept m m := ⟨rfl, fun _ _ => le_rfl⟩

theorem RowsGrow.trans {m'' : SingleTypeKVCacheManager H} (h : RowsGrow kept m m')
    (h' : RowsGrow kept m' m'') : RowsGrow kept m m'' :=
  ⟨h'.spec_eq.trans h.spec_eq, fun r hr => (h.length_le r hr).trans (h'.length_le r hr)⟩

theorem RowsGrow.blockSize_eq (h : RowsGrow kept m m') : m'.blockSize = m.blockSize := by
  simp only [blockSize, h.spec_eq]

/-- The table of another request is what it was. -/
private theorem row_setRow_of_ne (m : SingleTypeKVCacheManager H) {r : RequestId}
    (hr : r ≠ requestId) (row : List BlockId) : (m.setRow requestId row).row r = m.row r := by
  simp only [SingleTypeKVCacheManager.row, setRow, Dict.get?_insert, if_neg hr]

/-- A longer table. -/
theorem rowsGrow_setRow {row : List BlockId} (h : (m.row requestId).length ≤ row.length) :
    RowsGrow kept m (m.setRow requestId row) := by
  refine ⟨rfl, fun r _ => ?_⟩
  by_cases hr : r = requestId
  · rwa [hr, row_setRow]
  · rw [row_setRow_of_ne m hr]

/-- A table with nulls in it is as long as before. -/
theorem rowsGrow_removeSkippedBlocksBase {n : Int}
    (h : m.removeSkippedBlocksBase p requestId n = .ok (p', m')) : RowsGrow kept m m' := by
  unfold removeSkippedBlocksBase at h
  split at h
  · obtain ⟨rfl, rfl⟩ := Prod.mk.inj (Except.ok.inj h)
    exact .refl kept m
  · simp only [bind_ok_iff, pure_ok_iff, Prod.mk.injEq] at h
    obtain ⟨p₁, -, -, rfl⟩ := h
    exact rowsGrow_setRow (removeLoop_masks _ _).1.length_eq.le

private theorem rowsGrow_freeLastStateBlock {n : Int}
    (h : m.freeLastStateBlock p requestId n = .ok (p', m')) : RowsGrow kept m m' := by
  unfold freeLastStateBlock at h
  split at h
  · obtain ⟨rfl, rfl⟩ := Prod.mk.inj (Except.ok.inj h)
    exact .refl kept m
  · simp only at h
    split at h
    · simp only [bind_ok_iff, pure_ok_iff, Prod.mk.injEq] at h
      obtain ⟨p₁, -, -, rfl⟩ := h
      exact rowsGrow_setRow (List.length_set ..).ge
    · obtain ⟨rfl, rfl⟩ := Prod.mk.inj (Except.ok.inj h)
      exact .refl kept m

private theorem rowsGrow_removeSkippedBlocks {n : Int}
    (h : m.removeSkippedBlocks p requestId n = .ok (p', m')) : RowsGrow kept m m' := by
  unfold removeSkippedBlocks at h
  split at h
  · simp only [bind_ok_iff, Prod.exists] at h
    obtain ⟨p₁, m₁, hbase, h⟩ := h
    have hbase : RowsGrow kept m m₁ := rowsGrow_removeSkippedBlocksBase hbase
    split at h
    · exact hbase.trans (rowsGrow_freeLastStateBlock h)
    · obtain ⟨-, rfl⟩ := Prod.mk.inj (pure_ok_iff.mp h)
      exact hbase
  · exact rowsGrow_removeSkippedBlocksBase h

/-- Freeing a request leaves the tables of the others. -/
theorem rowsGrow_free (h : m.free p requestId = .ok (p', m')) :
    RowsGrow (· ≠ requestId) m m' := by
  simp only [SingleTypeKVCacheManager.free, bind_ok_iff, pure_ok_iff, Prod.mk.injEq] at h
  obtain ⟨p₁, -, -, rfl⟩ := h
  refine ⟨rfl, fun r hr => ?_⟩
  simp only [SingleTypeKVCacheManager.row, Dict.get?_erase, if_neg hr, le_refl]

variable [DecidableEq H]

/-- Hits are only joined to an empty table. -/
theorem rowsGrow_allocateNewComputedBlocks {newComputedBlocks : List BlockId}
    {numLocalComputedTokens numExternalComputedTokens : Int}
    (h : m.allocateNewComputedBlocks p requestId newComputedBlocks numLocalComputedTokens
      numExternalComputedTokens = .ok (p', m')) : RowsGrow kept m m' := by
  unfold allocateNewComputedBlocks at h
  split at h
  · simp only [bind_ok_iff, pure_ok_iff, Prod.mk.injEq] at h
    obtain ⟨_, -, -, rfl⟩ := h
    exact .refl kept m
  split at h
  · simp only [bind_ok_iff, pure_ok_iff, Prod.mk.injEq] at h
    obtain ⟨_, -, -, rfl⟩ := h
    exact .refl kept m
  simp only [bind_ok_iff, ensure_eq_ok] at h
  obtain ⟨_, hempty, _, -, p₁, -, h⟩ := h
  have hgrow (numCachedBlock : RequestId → Option Nat) (row : List BlockId) :
      RowsGrow kept m (({ m with numCachedBlock } : SingleTypeKVCacheManager H).setRow
        requestId row) := by
    have hset : RowsGrow kept m (m.setRow requestId row) :=
      rowsGrow_setRow (hempty ▸ Nat.zero_le _)
    exact ⟨rfl, hset.length_le⟩
  split at h
  · simp only [bind_ok_iff, pure_ok_iff, Prod.mk.injEq, Prod.exists] at h
    obtain ⟨blocks, p₂, -, -, rfl⟩ := h
    exact hgrow _ _
  · obtain ⟨-, rfl⟩ := Prod.mk.inj (pure_ok_iff.mp h)
    exact hgrow _ _

/-- New blocks are appended, up to the required number. -/
theorem rowsGrow_allocateNewBlocksBase (kept : RequestId → Prop) {n : Int}
    {newBlocks : List BlockId}
    (h : m.allocateNewBlocksBase p requestId n = .ok (p', m', newBlocks)) :
    RowsGrow kept m m' ∧ n ≤ (m'.row requestId).length * m.blockSize := by
  have hb := m.blockSize_pos
  unfold allocateNewBlocksBase at h
  simp only at h
  split at h
  · rename_i hnone
    simp only [Except.ok.injEq, Prod.mk.injEq] at h
    obtain ⟨-, rfl, -⟩ := h
    exact ⟨.refl kept m, (cdiv_le_iff hb).mp (by omega)⟩
  · simp only [bind_ok_iff, pure_ok_iff, Prod.exists, Prod.mk.injEq] at h
    obtain ⟨blocks, p₁, hnew, -, rfl, -⟩ := h
    refine ⟨rowsGrow_setRow (by simp), (cdiv_le_iff hb).mp ?_⟩
    have hlen := BlockPool.length_getNewBlocks hnew
    rw [row_setRow, List.length_append]
    omega

/-- Padding and moving blocks behind does not shorten an `align` table. -/
private theorem length_le_alignedRow (numSpeculativeBlocks : Nat) (numRequiredBlocks : Int)
    (blocksAllocated : Bool) (row : List BlockId) : row.length ≤
      (alignedRow numSpeculativeBlocks numRequiredBlocks blocksAllocated row).length := by
  unfold alignedRow
  simp only
  split
  · have hlen := length_reuseLoop (numRequiredBlocks - numSpeculativeBlocks - 1)
      numSpeculativeBlocks (row.length - numSpeculativeBlocks) (row ++ List.replicate
        (numRequiredBlocks - numSpeculativeBlocks - 1 - row.length).toNat nullBlock)
    rw [List.length_append] at hlen
    omega
  · rw [List.length_append]
    omega

/-- The table of an `align` group grows, too. -/
private theorem rowsGrow_allocateNewBlocksAlign {n : Int} {newBlocks : List BlockId}
    (h : m.allocateNewBlocksAlign p requestId n = .ok (p', m', newBlocks)) :
    RowsGrow kept m m' := by
  unfold allocateNewBlocksAlign at h
  simp only at h
  split at h
  · simp only [Except.ok.injEq, Prod.mk.injEq] at h
    obtain ⟨-, rfl, -⟩ := h
    exact .refl kept m
  · simp only [bind_ok_iff, pure_ok_iff, Prod.exists, Prod.mk.injEq] at h
    obtain ⟨_, -, _, -, blocks, p₁, -, -, rfl, -⟩ := h
    have hset : RowsGrow kept m (m.setRow requestId (alignedRow m.numSpeculativeBlocks
        (cdiv n m.blockSize + m.numSpeculativeBlocks) (m.allocatedBlockReqs requestId)
        (m.row requestId) ++ blocks)) := by
      refine rowsGrow_setRow ?_
      rw [List.length_append]
      exact (length_le_alignedRow ..).trans (Nat.le_add_right _ _)
    exact ⟨rfl, hset.length_le⟩

/-- New blocks are appended, and full attention gets as many as required. -/
theorem rowsGrow_allocateNewBlocks (kept : RequestId → Prop)
    {numTokens numTokensMainModel : Int} {newBlocks : List BlockId}
    (h : m.allocateNewBlocks p requestId numTokens numTokensMainModel =
      .ok (p', m', newBlocks)) : RowsGrow kept m m' ∧
      (m.kvCacheSpec.isFullAttention = true →
        numTokens ≤ (m'.row requestId).length * m.blockSize) := by
  unfold allocateNewBlocks at h
  split at h
  · rename_i hkind
    exact ⟨rowsGrow_allocateNewBlocksAlign h, fun hfull => by
      simp [KVCacheSpec.isFullAttention, hkind] at hfull⟩
  · rename_i hkind
    exact ⟨(rowsGrow_allocateNewBlocksBase kept h).1, fun hfull => by
      simp [KVCacheSpec.isFullAttention, hkind] at hfull⟩
  · exact ⟨(rowsGrow_allocateNewBlocksBase kept h).1,
      fun _ => (rowsGrow_allocateNewBlocksBase kept h).2⟩

/-- Caching blocks leaves the tables alone. -/
theorem rowsGrow_cacheBlocks {request : Request H} {n : Int}
    (h : m.cacheBlocks p request n = .ok (p', m')) : RowsGrow kept m m' := by
  have hbase {p₁ : BlockPool H} {m₁ : SingleTypeKVCacheManager H}
      (h : m.cacheBlocksBase p request n = .ok (p₁, m₁)) : RowsGrow kept m m₁ := by
    unfold cacheBlocksBase at h
    simp only at h
    split at h
    · obtain ⟨-, rfl⟩ := Prod.mk.inj (Except.ok.inj h)
      exact .refl kept m
    · simp only [bind_ok_iff, pure_ok_iff, Prod.mk.injEq] at h
      obtain ⟨_, -, -, rfl⟩ := h
      exact ⟨rfl, fun _ _ => le_rfl⟩
  unfold cacheBlocks at h
  split at h
  · cases h
  · simp only [bind_ok_iff, pure_ok_iff, Prod.exists, Prod.mk.injEq] at h
    obtain ⟨p₁, m₁, hcache, _, -, -, rfl⟩ := h
    have hgrow := hbase hcache
    exact ⟨hgrow.spec_eq, hgrow.length_le⟩
  · exact hbase h

end SingleTypeKVCacheManager

/-! ## All groups -/

namespace KVCacheManager

open SingleTypeKVCacheManager

variable {kv kv' : KVCacheManager H} {requestId : RequestId} {kept : RequestId → Prop} {n : Int}

/-- The tables of some requests are shortened in no group. -/
def TablesGrow (kept : RequestId → Prop) (kv kv' : KVCacheManager H) : Prop :=
  List.Forall₂ (RowsGrow kept) kv.singleTypeManagers kv'.singleTypeManagers

/-- Full-attention groups have slots for a number of tokens of a request. -/
def HasSlots (kv : KVCacheManager H) (requestId : RequestId) (n : Int) : Prop :=
  ∀ m ∈ kv.singleTypeManagers, m.kvCacheSpec.isFullAttention = true →
    n ≤ (m.row requestId).length * m.blockSize

theorem TablesGrow.refl (kept : RequestId → Prop) (kv : KVCacheManager H) :
    TablesGrow kept kv kv :=
  List.forall₂_same.mpr fun m _ => .refl kept m

theorem TablesGrow.trans {kv'' : KVCacheManager H} (h : TablesGrow kept kv kv')
    (h' : TablesGrow kept kv' kv'') : TablesGrow kept kv kv'' := by
  refine forall₂_trans ?_ h h'
  intro m m' m'' hm hm'
  exact hm.trans hm'

/-- Slots stay as long as the tables do. -/
theorem HasSlots.mono (h : kv.HasSlots requestId n) (hgrow : TablesGrow kept kv kv')
    (hkept : kept requestId) : kv'.HasSlots requestId n := by
  intro m' hm' hfull
  obtain ⟨m, hm, hrows⟩ := exists_of_forall₂ hgrow hm'
  rw [hrows.spec_eq] at hfull
  have hsize := hrows.blockSize_eq
  have hlen : ((m.row requestId).length : Int) ≤ (m'.row requestId).length := by
    exact_mod_cast hrows.length_le requestId hkept
  calc n ≤ (m.row requestId).length * m.blockSize := h m hm hfull
    _ ≤ (m'.row requestId).length * m'.blockSize := by
      rw [hsize]
      exact Int.mul_le_mul_of_nonneg_right hlen m.blockSize_pos.le

/-- A pass over the groups, each of which keeps its tables. -/
theorem tablesGrow_forManagers {f : BlockPool H → SingleTypeKVCacheManager H →
      Except KVCacheError (BlockPool H × SingleTypeKVCacheManager H)}
    (hf : ∀ p m p' m', f p m = .ok (p', m') → RowsGrow kept m m')
    (h : kv.forManagers f = .ok kv') : TablesGrow kept kv kv' := by
  simp only [forManagers, bind_ok_iff, Prod.exists, pure_ok_iff] at h
  obtain ⟨p', ms', hmap, rfl⟩ := h
  exact mapAccum_forall₂ (fun p m p' m' _ => hf p m p' m') hmap

/-- Freeing a request leaves the tables of the others. -/
theorem tablesGrow_free (h : kv.free requestId = .ok kv') :
    TablesGrow (· ≠ requestId) kv kv' :=
  tablesGrow_forManagers (fun _ _ _ _ => rowsGrow_free) h

variable [DecidableEq H]

private theorem tablesGrow_cacheBlocks {request : Request H}
    (h : kv.cacheBlocks request n = .ok kv') : TablesGrow kept kv kv' := by
  unfold cacheBlocks at h
  split at h
  · exact tablesGrow_forManagers (fun _ _ _ _ => rowsGrow_cacheBlocks) h
  · obtain rfl := Except.ok.inj h
    exact .refl kept kv

/-- New blocks are granted in every group. -/
theorem tablesGrow_allocateNewBlocks (kept : RequestId → Prop)
    {numTokens numTokensMainModel numEncoderTokens : Int} {newBlocks : List (List BlockId)}
    (h : kv.allocateNewBlocks requestId numTokens numTokensMainModel numEncoderTokens =
      .ok (kv', newBlocks)) :
    TablesGrow kept kv kv' ∧ kv'.HasSlots requestId numTokens := by
  simp only [allocateNewBlocks, bind_ok_iff, Prod.exists, pure_ok_iff, Prod.mk.injEq] at h
  obtain ⟨p', results, hmap, rfl, -⟩ := h
  have hall := mapAccum_forall₂ (R := fun m result => RowsGrow kept m result.1 ∧
      (m.kvCacheSpec.isFullAttention = true →
        numTokens ≤ (result.1.row requestId).length * m.blockSize))
    (fun p m p' result _ hnew => by
      have hrows := rowsGrow_allocateNewBlocks kept hnew
      refine ⟨hrows.1, fun hfull => ?_⟩
      have hslots := hrows.2 hfull
      have hcross : m.isCrossAttention = false := by
        unfold isCrossAttention
        simp only [KVCacheSpec.isFullAttention, decide_eq_true_eq] at hfull
        simp [hfull]
      rwa [hcross] at hslots) hmap
  refine ⟨List.forall₂_map_right_iff.mpr (hall.imp fun _ _ h => h.1), fun m' hm' hfull => ?_⟩
  obtain ⟨result, hresult, rfl⟩ := List.mem_map.mp hm'
  obtain ⟨m, -, hrows, hslots⟩ := exists_of_forall₂ hall hresult
  rw [hrows.blockSize_eq]
  exact hslots (hrows.spec_eq ▸ hfull)

/-- An allocation keeps all tables, and has slots when it is granted. -/
theorem tablesGrow_allocateSlots (kept : RequestId → Prop) {request : Request H} {a : SlotArgs}
    {result : Option (List (List BlockId))}
    (h : kv.allocateSlots request a = .ok (kv', result)) : TablesGrow kept kv kv' ∧
      (result ≠ none →
        kv'.HasSlots request.requestId (kv.slotCounts request a).numTokensNeedSlot) := by
  obtain ⟨kv₁, hskip, hrest⟩ := allocateSlots_cases h
  have hskipped : TablesGrow kept kv kv₁ :=
    tablesGrow_forManagers (fun _ _ _ _ => rowsGrow_removeSkippedBlocks) hskip
  rcases hrest with ⟨rfl, rfl⟩ | ⟨kv₂, kv₃, newBlocks, hjoin, hnew, rfl, hcache⟩
  · exact ⟨hskipped, fun hsome => absurd rfl hsome⟩
  have hjoined : TablesGrow kept kv₁ kv₂ := by
    unfold joinHits at hjoin
    split at hjoin
    · exact tablesGrow_forManagers (fun _ _ _ _ => rowsGrow_allocateNewComputedBlocks) hjoin
    · obtain rfl := Except.ok.inj hjoin
      exact .refl kept kv₁
  obtain ⟨hgrow, hslots⟩ := tablesGrow_allocateNewBlocks kept hnew
  have hcached (kept : RequestId → Prop) : TablesGrow kept kv₃ kv' := by
    rcases hcache with rfl | hcache
    · exact .refl kept _
    · exact tablesGrow_cacheBlocks hcache
  exact ⟨((hskipped.trans hjoined).trans hgrow).trans (hcached kept),
    fun _ => hslots.mono (hcached fun _ => True) trivial⟩

end KVCacheManager

end Vllm
