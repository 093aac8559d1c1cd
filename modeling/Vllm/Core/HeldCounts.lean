import Vllm.Core.KVCacheManager
import Vllm.Core.ManagerSteps

/-!
# Reference counts and the block tables

Every elementary step keeps the pool in order with the number of places that hold
each block, as long as no table holds a block twice. Of the steps that need a reason
only joining prefix hits does: the hits of one group are distinct.
-/

namespace Vllm

open Checked Masked

variable {H : Type} [DecidableEq H]

/-- Prefix hits of one group are distinct; nothing else is required. -/
def distinctHits : TableGuard H where
  join _ _ _ _ hits := ∀ b, b ≠ nullBlock → hits.count b ≤ 1
  move _ _ _ _ := True
  settle _ _ _ := True
  cache _ _ _ _ _ := True

/-- A table of a configured group holds every block at most once, and after an allocation
of an `align` group it has its speculative blocks. -/
structure TableInOrder (c : KVCacheConfig) (spec : KVCacheSpec) (groupId : Nat)
    (_ : RequestId) (t : BlockTable) : Prop where
  group : c.kvCacheGroups[groupId]? = some spec
  once : ∀ b, b ≠ nullBlock → t.row.count b ≤ 1
  speculative : t.allocated → spec.numSpeculativeBlocks ≤ t.row.length

/-- The pool is the configured one and counts the places of every block. -/
structure CountsPlaces (c : KVCacheConfig) (p : BlockPool H) (X : Multiset Position) : Prop where
  pool : p.PoolInv (heldCount X)
  numBlocks_eq : p.numGpuBlocks = c.numBlocks
  caching_eq : p.enableCaching = c.enableCaching
  hashBlockSize_eq : p.hashBlockSize = c.hashBlockSize

namespace BlockPool

variable {p p' : BlockPool H} {held held' : BlockId → Nat}

omit [DecidableEq H] in
/-- Only the references to real blocks matter. -/
theorem PoolInv.congr (h : p.PoolInv held) (he : ∀ b, b ≠ nullBlock → held' b = held b) :
    p.PoolInv held' where
  refCnt_eq b hb := by rw [he b hb, h.refCnt_eq b hb]
  held_lt b hb hpos := h.held_lt b hb (by rwa [he b hb] at hpos)
  index := h.index
  queued := h.queued

omit [DecidableEq H] in
/-- Freed blocks lose their references and keep their hashes. -/
theorem PoolInv.of_freeBlocks (h : p.PoolInv held) {blocks : List BlockId}
    (hheld : ∀ b, b ≠ nullBlock → blocks.count b ≤ held b)
    (honce : ∀ b, b ≠ nullBlock → blocks.count b ≤ 1) (hrun : p.freeBlocks blocks = .ok p') :
    p'.PoolInv (fun b => held b - blocks.count b) ∧ ∃ queue, p' = { p with
      freeBlockQueue := queue
      refCnt := fun b => p.refCnt b - blocks.count b } := by
  obtain ⟨queue, hok, hinv, -⟩ := h.freeBlocks hheld honce
  obtain rfl := Except.ok.inj (hok.symm.trans hrun)
  exact ⟨hinv, queue, rfl⟩

/-- New blocks had no reference, get one each, and lose their hashes. -/
theorem PoolInv.of_getNewBlocks (h : p.PoolInv held) {n : Nat} {blocks : List BlockId}
    (hrun : p.getNewBlocks n = .ok (blocks, p')) :
    p'.PoolInv (fun b => held b + blocks.count b) ∧ blocks.Nodup ∧
      (∀ b ∈ blocks, b ≠ nullBlock ∧ held b = 0) ∧ ∃ queue cached, p' = { p with
        freeBlockQueue := queue
        cachedBlockHashToBlock := cached
        blockHash := fun b => if b ∈ blocks then none else p.blockHash b
        refCnt := fun b => p.refCnt b + blocks.count b
        allocated := p.allocated ++ blocks } := by
  obtain ⟨free, hfree⟩ := h.queued
  have hn : n ≤ free.length := by
    simp only [BlockPool.getNewBlocks, bind_ok_iff, ensure_eq_ok] at hrun
    obtain ⟨_, hle, -⟩ := hrun
    rw [hfree.getNumFreeBlocks] at hle
    omega
  obtain ⟨queue, cached, hok, hinv, -⟩ := h.getNewBlocks hfree hn
  obtain ⟨rfl, rfl⟩ := Prod.mk.inj (Except.ok.inj (hok.symm.trans hrun))
  refine ⟨hinv, hfree.holds.nodup_free.sublist (List.take_sublist _ _), fun b hb => ?_,
    queue, cached, rfl⟩
  obtain ⟨hbn, -, hzero⟩ := (hfree.mem_iff b).mp (List.mem_of_mem_take hb)
  rw [h.refCnt_eq b hbn] at hzero
  exact ⟨hbn, by omega⟩

/-- Caching blocks that are held gives hashes to blocks without. -/
theorem PoolInv.of_cacheFullBlocks (h : p.PoolInv held) (hc : p.enableCaching)
    {request : Request H} {blocks : List BlockId}
    {numCachedBlocks numFullBlocks blockSize groupId : Nat}
    (hheld : ∀ b ∈ blocks, b ≠ nullBlock → 0 < held b) (hnew : numCachedBlocks < numFullBlocks)
    (hrun : p.cacheFullBlocks request blocks numCachedBlocks numFullBlocks blockSize groupId =
      .ok p') : p'.PoolInv held ∧
      Cached p p' request.blockHashes (blockSize / p.hashBlockSize) groupId numCachedBlocks
        ((blocks.take numFullBlocks).drop numCachedBlocks) := by
  rw [cacheFullBlocks, if_neg (by omega)] at hrun
  simp only [bind_ok_iff, ensure_eq_ok] at hrun
  obtain ⟨_, -, _, -, hloop⟩ := hrun
  have hcached := h.index.cacheLoop hc (fun b hb hbn => h.held_lt b hbn (hheld b
    (List.mem_of_mem_take (List.mem_of_mem_drop hb)) hbn)) hloop
  refine ⟨?_, hcached⟩
  obtain ⟨cached, hframe⟩ := hcached.frame
  obtain ⟨free, hfree⟩ := h.queued
  rw [hframe]
  exact ⟨h.refCnt_eq, h.held_lt, hframe ▸ hcached.index, free, { hfree with }⟩

end BlockPool

/-- Moving a block to the end of a table loses and adds none. -/
theorem count_move {row : List BlockId} {i : Nat} (hi : i < row.length) {b : BlockId}
    (hb : b ≠ nullBlock) :
    ((row ++ [row.getD i nullBlock]).set i nullBlock).count b = row.count b := by
  have hget : (row ++ [row.getD i nullBlock])[i]? = some (row.getD i nullBlock) := by
    rw [List.getElem?_append_left hi, List.getElem?_eq_getElem hi]
    simp [hi]
  have hset := count_set_add hget hb
  rw [List.count_append] at hset
  omega

omit [DecidableEq H] in
/-- Other pools with the same constants. -/
theorem CountsPlaces.of_pool {c : KVCacheConfig} {p p' : BlockPool H} {X X' : Multiset Position}
    (h : CountsPlaces c p X) (hpool : p'.PoolInv (heldCount X'))
    (heq : p'.numGpuBlocks = p.numGpuBlocks ∧ p'.enableCaching = p.enableCaching ∧
      p'.hashBlockSize = p.hashBlockSize) : CountsPlaces c p' X' :=
  ⟨hpool, heq.1.trans h.numBlocks_eq, heq.2.1.trans h.caching_eq, heq.2.2.trans h.hashBlockSize_eq⟩

/-- Every elementary step keeps the tables in order and the counts exact. -/
theorem distinctHits_keeps (c : KVCacheConfig) (requestId : RequestId) :
    StepsKeep (H := H) distinctHits (TableInOrder c) (CountsPlaces c) requestId := by
  intro spec groupId p t p' t' X hstep hl hi
  cases hstep with
  | @release _ _ _ row blocks masks count run =>
    obtain ⟨hinv, queue, rfl⟩ := hi.pool.of_freeBlocks
      (fun b hb => by have := count b hb; simp; omega)
      (fun b hb => by have := count b hb; have := hl.once b hb; omega) run
    refine ⟨⟨hl.group, fun b hb => ?_, fun ha => ?_⟩,
      hi.of_pool (hinv.congr fun b hb => ?_) ⟨rfl, rfl, rfl⟩⟩
    · have := count b hb
      have := hl.once b hb
      simp only
      omega
    · have := hl.speculative ha
      rwa [masks.length_eq] at this
    · have := count b hb
      simp
      omega
  | drop run =>
    obtain ⟨hinv, queue, rfl⟩ := hi.pool.of_freeBlocks (fun b hb => by simp)
      (fun b hb => by simpa using hl.once b hb) run
    exact ⟨⟨hl.group, by simp, by simp⟩,
      hi.of_pool (hinv.congr fun b hb => by simp) ⟨rfl, rfl, rfl⟩⟩
  | @join _ _ _ numSkipped hits empty guard run =>
    obtain ⟨hinv, queue, rfl⟩ := hi.pool.touch run
    refine ⟨⟨hl.group, fun b hb => ?_, fun ha => ?_⟩,
      hi.of_pool (hinv.congr fun b hb => ?_) ⟨rfl, rfl, rfl⟩⟩
    · simpa [List.count_replicate, Ne.symm hb] using guard b hb
    · have := hl.speculative ha
      rw [empty] at this
      exact le_trans this (Nat.zero_le _)
    · simp [List.count_replicate, Ne.symm hb, empty]
      omega
  | @grow _ _ _ n blocks run =>
    obtain ⟨hinv, hnd, hzero, queue, cached, rfl⟩ := hi.pool.of_getNewBlocks run
    refine ⟨⟨hl.group, fun b hb => ?_, fun ha => ?_⟩,
      hi.of_pool (hinv.congr fun b hb => ?_) ⟨rfl, rfl, rfl⟩⟩
    · by_cases hm : b ∈ blocks
      · -- a new block was nowhere before
        have hheld := (hzero b hm).2
        simp only [heldCount_add, heldCount_places] at hheld
        have := List.count_eq_one_of_mem hnd hm
        simp only [List.count_append]
        omega
      · simpa [List.count_eq_zero_of_not_mem hm] using hl.once b hb
    · have := hl.speculative ha
      simp only [List.length_append]
      omega
    · simp
      omega
  | pad n =>
    refine ⟨⟨hl.group, fun b hb => ?_, fun ha => ?_⟩,
      hi.of_pool (hi.pool.congr fun b hb => ?_) ⟨rfl, rfl, rfl⟩⟩
    · simpa [List.count_replicate, Ne.symm hb] using hl.once b hb
    · have := hl.speculative ha
      simp only [List.length_append]
      omega
    · simp [List.count_replicate, Ne.symm hb]
  | @move _ _ i lt guard =>
    refine ⟨⟨hl.group, fun b hb => ?_, fun ha => ?_⟩,
      hi.of_pool (hi.pool.congr fun b hb => ?_) ⟨rfl, rfl, rfl⟩⟩
    · rw [count_move lt hb]
      exact hl.once b hb
    · have := hl.speculative ha
      simp only [List.length_set, List.length_append]
      omega
    · rw [heldCount_add, heldCount_add, heldCount_places, heldCount_places, count_move lt hb]
  | settle length guard =>
    exact ⟨⟨hl.group, hl.once, fun _ => length⟩,
      hi.of_pool (hi.pool.congr fun b hb => by simp) ⟨rfl, rfl, rfl⟩⟩
  | @cache _ _ _ request n caching new guard run =>
    obtain ⟨hinv, hcached⟩ := hi.pool.of_cacheFullBlocks caching (fun b hb hbn => by
      have := List.count_pos_iff.mpr hb
      rw [heldCount_add, heldCount_places]
      omega) new run
    obtain ⟨cached, hframe⟩ := hcached.frame
    refine ⟨⟨hl.group, hl.once, hl.speculative⟩, hi.of_pool (hinv.congr fun b hb => by simp) ?_⟩
    rw [hframe]
    exact ⟨rfl, rfl, rfl⟩

end Vllm
