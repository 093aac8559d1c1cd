import Vllm.Core.BlockPool

/-!
# Invariants of the block pool

The pool is described against the number of references that its users hold to each
block. `PoolInv` says that the counters agree with the held references and that the
hash index agrees with the blocks' hashes; `QueueInv` says which blocks are queued.
Every operation has one lemma for each, with the change of the held references
written out.
-/

namespace Vllm

open Checked LinkedList

variable {H : Type}

namespace BlockHashToBlockMap

variable {m : BlockHashToBlockMap H}

/-- A block looked up under a key is stored under it. -/
theorem stores_of_getOneBlock {key : BlockHashWithGroupId H} {b : BlockId}
    (h : m.getOneBlock key = some b) : m.Stores key b := by
  unfold getOneBlock at h
  unfold Stores
  split at h
  · cases h
  · exact Option.some.inj h
  · exact List.mem_of_head? h

variable [DecidableEq H]

/-- Entries other than the written one are what they were. -/
theorem stores_update_of_ne {key key' : BlockHashWithGroupId H} (hk : key' ≠ key)
    (e : Option CachedBlocks) (b : BlockId) :
    Stores (Function.update m key e) key' b ↔ m.Stores key' b := by
  unfold Stores
  rw [Function.update_of_ne hk]

/-- Replacing one entry by another well-keyed one. -/
theorem WellKeyed.update (h : m.WellKeyed) (key : BlockHashWithGroupId H)
    {e : Option CachedBlocks}
    (he : ∀ blocks, e = some (.many blocks) → blocks.entries ≠ [] ∧ blocks.KeyedByValue) :
    WellKeyed (Function.update m key e) := by
  intro key' blocks hb
  by_cases hk : key' = key
  · subst hk
    exact he blocks (by simpa using hb)
  · exact h key' blocks (by simpa [hk] using hb)

/-- Storing a block adds it under its key and changes nothing else. -/
theorem stores_insert (h : m.WellKeyed) (key : BlockHashWithGroupId H) (block : BlockId) :
    (m.insert key block).WellKeyed ∧ ∀ key' b,
      (m.insert key block).Stores key' b ↔ m.Stores key' b ∨ key' = key ∧ b = block := by
  have hne {d : Dict BlockId BlockId} {b : BlockId} (hb : d.get? b = some b) : d.entries ≠ [] :=
    fun he => by simp [(d.entries_eq_nil_iff.mp he)] at hb
  unfold insert
  split
  · rename_i hm
    refine ⟨h.update key (by simp), fun key' b => ?_⟩
    by_cases hk : key' = key
    · subst hk
      simp [Stores, hm, eq_comm]
    · simp [stores_update_of_ne hk, hk]
  · rename_i old hm
    have hkeyed := (Dict.keyedByValue_empty.insert old).insert block
    refine ⟨h.update key ?_, fun key' b => ?_⟩
    · rintro blocks ⟨⟩
      exact ⟨hne (b := block) (by simp), hkeyed⟩
    · by_cases hk : key' = key
      · subst hk
        simp only [Stores, Function.update_self, hm, hkeyed.mem_values_iff, Dict.get?_insert,
          Dict.get?_empty]
        grind
      · simp [stores_update_of_ne hk, hk]
  · rename_i blocks hm
    have hkeyed := (h key blocks hm).2.insert block
    refine ⟨h.update key ?_, fun key' b => ?_⟩
    · rintro blocks' ⟨⟩
      exact ⟨hne (b := block) (by simp), hkeyed⟩
    · by_cases hk : key' = key
      · subst hk
        simp only [Stores, Function.update_self, hm, hkeyed.mem_values_iff, Dict.get?_insert,
          (h key' blocks hm).2.mem_values_iff]
        grind
      · simp [stores_update_of_ne hk, hk]

/-- Popping a stored block finds it, removes it from its key and changes nothing else. -/
theorem stores_pop (h : m.WellKeyed) {key : BlockHashWithGroupId H} {block : BlockId}
    (hs : m.Stores key block) : (m.pop key block).1 = some block ∧
      (m.pop key block).2.WellKeyed ∧ ∀ key' b,
        (m.pop key block).2.Stores key' b ↔ m.Stores key' b ∧ ¬ (key' = key ∧ b = block) := by
  unfold Stores at hs
  unfold pop
  split at hs
  · cases hs
  · rename_i old hm
    subst hs
    simp only [ite_true]
    refine ⟨trivial, h.update key (by simp), fun key' b => ?_⟩
    by_cases hk : key' = key
    · subst hk
      simp [Stores, hm, eq_comm]
    · simp [stores_update_of_ne hk, hk]
  · rename_i blocks hm
    obtain ⟨-, hkeyed⟩ := h key blocks hm
    have hget := hkeyed.mem_values_iff.mp hs
    refine ⟨hget, h.update key ?_, fun key' b => ?_⟩
    · intro blocks' hb
      split at hb
      · cases hb
      · rename_i hne
        obtain rfl : blocks.erase block = blocks' := by simpa using hb
        exact ⟨hne, hkeyed.erase block⟩
    · by_cases hk : key' = key
      · subst hk
        simp only [Stores, Function.update_self, hm, hkeyed.mem_values_iff]
        split
        · rename_i hnil
          split at hnil
          · rename_i hempty
            have hnone := (Dict.entries_eq_nil_iff _).mp hempty b
            rw [Dict.get?_erase] at hnone
            grind
          · cases hnil
        · rename_i hsome
          split at hsome <;> cases hsome
        · rename_i hsome
          split at hsome
          · cases hsome
          · obtain rfl : blocks.erase block = _ := by simpa using hsome
            rw [(hkeyed.erase block).mem_values_iff, Dict.get?_erase]
            grind
      · simp [stores_update_of_ne hk, hk]

end BlockHashToBlockMap

namespace BlockPool

/-- The queue holds exactly the real blocks without references, and counts them. -/
structure Queued (p : BlockPool H) (free : List BlockId) : Prop where
  holds : p.freeBlockQueue.Holds free
  head_eq : p.freeBlockQueue.fakeFreeListHead = p.numGpuBlocks
  tail_eq : p.freeBlockQueue.fakeFreeListTail = p.numGpuBlocks + 1
  counter : p.freeBlockQueue.numFreeBlocks = free.length
  mem_iff : ∀ b, b ∈ free ↔ b ≠ nullBlock ∧ b < p.numGpuBlocks ∧ p.refCnt b = 0

/-- The hash index and the hashes of the blocks are two views of one relation. -/
structure IndexInv (p : BlockPool H) : Prop where
  stores_iff : ∀ key b, p.cachedBlockHashToBlock.Stores key b ↔ p.blockHash b = some key
  wellKeyed : p.cachedBlockHashToBlock.WellKeyed
  null_unhashed : p.blockHash nullBlock = none
  hashed_lt : ∀ b, p.blockHash b ≠ none → b < p.numGpuBlocks
  unhashed_of_no_caching : p.enableCaching = false → ∀ b, p.blockHash b = none

/-- The pool agrees with the references its users hold, and with itself. -/
structure PoolInv (p : BlockPool H) (held : BlockId → Nat) : Prop where
  refCnt_eq : ∀ b, b ≠ nullBlock → p.refCnt b = held b
  held_lt : ∀ b, b ≠ nullBlock → 0 < held b → b < p.numGpuBlocks
  index : p.IndexInv
  queued : ∃ free, p.Queued free

variable {p p' : BlockPool H} {held : BlockId → Nat}

/-- The number of free blocks is the length of the queue. -/
theorem Queued.getNumFreeBlocks {free : List BlockId} (h : p.Queued free) :
    p.getNumFreeBlocks = free.length := h.counter

/-- Real blocks are no sentinels. -/
theorem Queued.ne_sentinels {free : List BlockId} (h : p.Queued free) {b : BlockId}
    (hb : b < p.numGpuBlocks) :
    b ≠ p.freeBlockQueue.fakeFreeListHead ∧ b ≠ p.freeBlockQueue.fakeFreeListTail := by
  rw [h.head_eq, h.tail_eq]
  exact ⟨Nat.ne_of_lt hb, Nat.ne_of_lt (Nat.lt_succ_of_lt hb)⟩

/-! ## Touching -/

/-- One touch: the block leaves the queue if it was in it. -/
theorem PoolInv.touchOne (h : p.PoolInv held) {block : BlockId} {queue : FreeKVCacheBlockQueue}
    (hrun : p.queueWithout block = .ok queue) : PoolInv { p with
      freeBlockQueue := queue
      refCnt := Function.update p.refCnt block (p.refCnt block + 1) }
      (Function.update held block (held block + 1)) := by
  obtain ⟨free, hfree⟩ := h.queued
  by_cases hb : p.refCnt block = 0 ∧ block ≠ nullBlock
  · rw [queueWithout, if_pos hb] at hrun
    have hmem := hfree.holds.mem_of_remove hrun
    have hlt := ((hfree.mem_iff block).mp hmem).2.1
    obtain ⟨xs, ys, rfl⟩ := List.append_of_mem hmem
    obtain ⟨links, hremove, hlinks⟩ := hfree.holds.remove
    obtain rfl := Except.ok.inj (hremove.symm.trans hrun)
    refine ⟨?_, ?_, { h.index with }, xs ++ ys, ?_⟩
    · intro b hbn
      by_cases he : b = block
      · subst he
        simp [h.refCnt_eq b hbn]
      · simp [he, h.refCnt_eq b hbn]
    · intro b hbn hpos
      by_cases he : b = block
      · exact he ▸ hlt
      · exact h.held_lt b hbn (by simpa [he] using hpos)
    · refine ⟨hlinks, hfree.head_eq, hfree.tail_eq, ?_, fun b => ?_⟩
      · simp [hfree.counter]
        omega
      · have hiff := hfree.mem_iff b
        have hnd := hfree.holds.nodup_free
        simp only [List.mem_append, List.mem_cons, List.nodup_append, List.nodup_cons] at hiff hnd
        by_cases he : b = block
        · subst he
          simp only [Function.update_self, hb.1]
          grind
        · simp only [Function.update_of_ne he, List.mem_append]
          grind
  · rw [queueWithout, if_neg hb] at hrun
    obtain rfl := Except.ok.inj hrun
    have hcnt (b : BlockId) (hbn : b ≠ nullBlock) (he : b = block) : 0 < held block := by
      subst he
      have := h.refCnt_eq b hbn
      have hne : p.refCnt b ≠ 0 := fun h0 => hb ⟨h0, hbn⟩
      omega
    refine ⟨?_, ?_, { h.index with }, free, ?_⟩
    · intro b hbn
      by_cases he : b = block
      · subst he
        simp [h.refCnt_eq b hbn]
      · simp [he, h.refCnt_eq b hbn]
    · intro b hbn hpos
      by_cases he : b = block
      · exact h.held_lt b hbn (he ▸ hcnt b hbn he)
      · exact h.held_lt b hbn (by simpa [he] using hpos)
    · refine { hfree with mem_iff := fun b => ?_ }
      by_cases he : b = block
      · have hiff := hfree.mem_iff b
        rw [hiff]
        subst he
        simp only [Function.update_self]
        by_cases hbn : b = nullBlock
        · simp [hbn]
        · have := hcnt b hbn rfl
          have := h.refCnt_eq b hbn
          constructor
          · intro ⟨_, _, h0⟩
            omega
          · intro ⟨_, _, h0⟩
            omega
      · simp [he, hfree.mem_iff b]

variable {blocks : List BlockId}

/-- Touching adds one reference for each occurrence. -/
theorem PoolInv.touch (h : p.PoolInv held) (hrun : BlockPool.touch blocks p = .ok p') :
    p'.PoolInv (fun b => held b + blocks.count b) ∧ ∃ queue, p' =
      { p with
        freeBlockQueue := queue
        refCnt := fun b => p.refCnt b + blocks.count b } := by
  induction blocks generalizing p held with
  | nil =>
    obtain rfl := Except.ok.inj hrun
    exact ⟨by simpa using h, p.freeBlockQueue, by simp⟩
  | cons block blocks ih =>
    simp only [BlockPool.touch, bind_ok_iff] at hrun
    obtain ⟨queue, hqueue, hrun⟩ := hrun
    obtain ⟨hinv, queue', rfl⟩ := ih (h.touchOne hqueue) hrun
    constructor
    · convert hinv using 2 with b
      by_cases he : b = block
      · subst he
        simp
        omega
      · simp [he, Ne.symm he]
    · refine ⟨queue', ?_⟩
      congr 1
      funext b
      by_cases he : b = block
      · subst he
        simp
        omega
      · simp [he, Ne.symm he]

/-! ## Freeing -/

/-- Every occurrence in a list takes one reference. -/
private theorem releaseAll_apply (refCnt : BlockId → Int) (blocks : List BlockId) (b : BlockId) :
    releaseAll refCnt blocks b = refCnt b - blocks.count b := by
  induction blocks generalizing refCnt with
  | nil => simp [releaseAll]
  | cons block blocks ih =>
    rw [releaseAll, List.foldl_cons]
    refine (ih _).trans ?_
    by_cases he : b = block
    · subst he
      simp
      omega
    · simp [he, Ne.symm he]

/-- Held blocks can be freed; those without references left join the queue. -/
theorem PoolInv.freeBlocks (h : p.PoolInv held)
    (hheld : ∀ b, b ≠ nullBlock → blocks.count b ≤ held b)
    (honce : ∀ b, b ≠ nullBlock → blocks.count b ≤ 1) :
    ∃ queue, p.freeBlocks blocks = .ok
        { p with
          freeBlockQueue := queue
          refCnt := fun b => p.refCnt b - blocks.count b } ∧
      PoolInv { p with
        freeBlockQueue := queue
        refCnt := fun b => p.refCnt b - blocks.count b } (fun b => held b - blocks.count b) ∧
      p.freeBlockQueue.numFreeBlocks ≤ queue.numFreeBlocks := by
  obtain ⟨free, hfree⟩ := h.queued
  have hrel : releaseAll p.refCnt blocks = fun b => p.refCnt b - blocks.count b :=
    funext fun b => releaseAll_apply _ _ _
  -- the blocks that lose their last reference
  let freed := blocks.filter fun b => p.refCnt b - blocks.count b = 0 ∧ b ≠ nullBlock
  have hfreed (b : BlockId) : b ∈ freed ↔
      b ∈ blocks ∧ p.refCnt b - blocks.count b = 0 ∧ b ≠ nullBlock := by
    simp [freed]
  have hreal (b : BlockId) (hb : b ∈ freed) : b < p.numGpuBlocks ∧ p.refCnt b ≠ 0 := by
    obtain ⟨hm, -, hbn⟩ := (hfreed b).mp hb
    have hpos := List.count_pos_iff.mpr hm
    have hle := hheld b hbn
    refine ⟨h.held_lt b hbn (by omega), ?_⟩
    rw [h.refCnt_eq b hbn]
    omega
  have hnd : (free ++ freed).Nodup := by
    refine List.nodup_append.mpr ⟨hfree.holds.nodup_free, ?_, ?_⟩
    · refine List.nodup_iff_count_le_one.mpr fun b => ?_
      by_cases hbn : b = nullBlock
      · rw [List.count_eq_zero_of_not_mem fun hb => ((hfreed b).mp hb).2.2 hbn]
        omega
      · exact ((List.filter_sublist).count_le b).trans (honce b hbn)
    · rintro b hb _ hb' rfl
      exact (hreal b hb').2 ((hfree.mem_iff b).mp hb).2.2
  obtain ⟨links, happend, hlinks⟩ := hfree.holds.appendN hnd
    fun b hb => hfree.ne_sentinels (hreal b hb).1
  refine ⟨{ p.freeBlockQueue with
      links := links
      numFreeBlocks := p.freeBlockQueue.numFreeBlocks + freed.length },
    ?_, ⟨?_, ?_, { h.index with }, free ++ freed, ?_⟩, ?_⟩
  · simp only [BlockPool.freeBlocks, hrel]
    exact bind_ok_iff.mpr ⟨_, happend, rfl⟩
  · intro b hbn
    have := hheld b hbn
    simp only [h.refCnt_eq b hbn]
    omega
  · intro b hbn hpos
    exact h.held_lt b hbn (by omega)
  · refine ⟨hlinks, hfree.head_eq, hfree.tail_eq, ?_, fun b => ?_⟩
    · simp [hfree.counter]
    · rw [List.mem_append, hfreed, hfree.mem_iff]
      by_cases hbn : b = nullBlock
      · simp [hbn]
      · have hle := hheld b hbn
        have href := h.refCnt_eq b hbn
        have hlt := h.held_lt b hbn
        by_cases hm : b ∈ blocks
        · have hpos := List.count_pos_iff.mpr hm
          simp only [hm]
          grind
        · simp [hbn, hm, List.count_eq_zero_of_not_mem hm]
  · simp

/-! ## Hashes that stay -/

/-- Touching changes the queue and the counters only. -/
theorem frame_of_touch (hrun : BlockPool.touch blocks p = .ok p') :
    ∃ queue refCnt, p' = { p with freeBlockQueue := queue, refCnt := refCnt } := by
  induction blocks generalizing p with
  | nil =>
    obtain rfl := Except.ok.inj hrun
    exact ⟨p.freeBlockQueue, p.refCnt, rfl⟩
  | cons block blocks ih =>
    simp only [BlockPool.touch, bind_ok_iff] at hrun
    obtain ⟨queue, -, hrun⟩ := hrun
    obtain ⟨queue', refCnt, rfl⟩ := ih hrun
    exact ⟨queue', refCnt, rfl⟩

/-- Freeing changes the queue and the counters only. -/
theorem frame_of_freeBlocks (hrun : p.freeBlocks blocks = .ok p') :
    ∃ queue refCnt, p' = { p with freeBlockQueue := queue, refCnt := refCnt } := by
  simp only [BlockPool.freeBlocks, bind_ok_iff, pure_ok_iff] at hrun
  obtain ⟨queue, -, rfl⟩ := hrun
  exact ⟨queue, releaseAll p.refCnt blocks, rfl⟩

/-- Touching leaves the hashes alone. -/
theorem blockHash_of_touch (hrun : BlockPool.touch blocks p = .ok p') :
    p'.blockHash = p.blockHash := by
  obtain ⟨queue, refCnt, rfl⟩ := frame_of_touch hrun
  rfl

/-- Freeing leaves the hashes alone. -/
theorem blockHash_of_freeBlocks (hrun : p.freeBlocks blocks = .ok p') :
    p'.blockHash = p.blockHash := by
  obtain ⟨queue, refCnt, rfl⟩ := frame_of_freeBlocks hrun
  rfl

/-! ## Evicting -/

section Index

variable [DecidableEq H]

private theorem maybeEvictCachedBlock_of_none {block : BlockId} (h : p.blockHash block = none) :
    p.maybeEvictCachedBlock block = p := by
  simp [maybeEvictCachedBlock, h]

private theorem maybeEvictCachedBlock_of_pop {block found : BlockId} {key : BlockHashWithGroupId H}
    {cached : BlockHashToBlockMap H} (h : p.blockHash block = some key)
    (hpop : p.cachedBlockHashToBlock.pop key block = (some found, cached)) :
    p.maybeEvictCachedBlock block =
      { p with
        cachedBlockHashToBlock := cached
        blockHash := Function.update p.blockHash block none } := by
  simp [maybeEvictCachedBlock, h, hpop]

/-- Evicting a block removes its hash, and the block from the index. -/
theorem IndexInv.maybeEvictCachedBlock (h : p.IndexInv) (block : BlockId) :
    (p.maybeEvictCachedBlock block).IndexInv ∧ ∃ cached, p.maybeEvictCachedBlock block =
      { p with
        cachedBlockHashToBlock := cached
        blockHash := Function.update p.blockHash block none } := by
  cases hkey : p.blockHash block with
  | none =>
    rw [maybeEvictCachedBlock_of_none hkey]
    refine ⟨h, p.cachedBlockHashToBlock, ?_⟩
    rw [← hkey, Function.update_eq_self]
  | some key =>
    obtain ⟨hfound, hkeyed, hstores⟩ :=
      BlockHashToBlockMap.stores_pop h.wellKeyed ((h.stores_iff key block).mpr hkey)
    cases hpop : p.cachedBlockHashToBlock.pop key block with
    | mk popped cached =>
      rw [hpop] at hfound hkeyed hstores
      simp only at hfound hkeyed hstores
      subst hfound
      rw [maybeEvictCachedBlock_of_pop hkey hpop]
      refine ⟨⟨fun key' b => ?_, hkeyed, ?_, fun b hb => ?_, fun hc b => ?_⟩, cached, rfl⟩
      · simp only
        rw [hstores key' b, h.stores_iff]
        by_cases he : b = block
        · subst he
          simp [hkey, eq_comm]
        · simp [he]
      · by_cases he : nullBlock = block
        · simp [he]
        · simp [he, h.null_unhashed]
      · by_cases he : b = block
        · simp [he] at hb
        · exact h.hashed_lt b (by simpa [he] using hb)
      · by_cases he : b = block
        · simp [he]
        · simp [he, h.unhashed_of_no_caching hc b]

/-- Preparing a block for reuse removes its hash. -/
theorem IndexInv.forReuse (h : p.IndexInv) (block : BlockId) :
    (p.forReuse block).IndexInv ∧ ∃ cached, p.forReuse block =
      { p with
        cachedBlockHashToBlock := cached
        blockHash := Function.update p.blockHash block none } := by
  unfold BlockPool.forReuse
  split
  · exact h.maybeEvictCachedBlock block
  · rename_i hc
    refine ⟨h, p.cachedBlockHashToBlock, ?_⟩
    rw [← h.unhashed_of_no_caching (by simpa using hc) block, Function.update_eq_self]

/-- Evicting blocks by id removes hashes and touches nothing else. -/
theorem PoolInv.evictBlocks (h : p.PoolInv held) {blockIds : List BlockId}
    (hrun : BlockPool.evictBlocks blockIds p = .ok p') : p'.PoolInv held ∧ ∃ cached, p' =
      { p with
        cachedBlockHashToBlock := cached
        blockHash := fun b => if b ∈ blockIds then none else p.blockHash b } := by
  induction blockIds generalizing p with
  | nil =>
    obtain rfl := Except.ok.inj hrun
    exact ⟨h, p.cachedBlockHashToBlock, by simp⟩
  | cons blockId blockIds ih =>
    simp only [BlockPool.evictBlocks, bind_ok_iff] at hrun
    obtain ⟨_, -, hrun⟩ := hrun
    obtain ⟨hindex, cached, heq⟩ := h.index.maybeEvictCachedBlock blockId
    rw [heq] at hindex hrun
    obtain ⟨free, hfree⟩ := h.queued
    have hnext : PoolInv { p with
        cachedBlockHashToBlock := cached
        blockHash := Function.update p.blockHash blockId none } held :=
      ⟨h.refCnt_eq, h.held_lt, hindex, free, { hfree with }⟩
    obtain ⟨hinv, cached', rfl⟩ := ih hnext hrun
    refine ⟨hinv, cached', ?_⟩
    congr 1
    funext b
    by_cases he : b = blockId <;> simp [he]

/-! ## Allocating -/

/-- The loop over popped blocks references each and removes its hash. -/
theorem IndexInv.allocateLoop (h : p.IndexInv) (hnd : blocks.Nodup)
    (href : ∀ b ∈ blocks, p.refCnt b = 0) : ∃ cached, BlockPool.allocateLoop blocks p = .ok
      { p with
        cachedBlockHashToBlock := cached
        blockHash := fun b => if b ∈ blocks then none else p.blockHash b
        refCnt := fun b => p.refCnt b + blocks.count b
        allocated := p.allocated ++ blocks } ∧
      IndexInv { p with
        cachedBlockHashToBlock := cached
        blockHash := fun b => if b ∈ blocks then none else p.blockHash b
        refCnt := fun b => p.refCnt b + blocks.count b
        allocated := p.allocated ++ blocks } := by
  induction blocks generalizing p with
  | nil => exact ⟨p.cachedBlockHashToBlock, by simp [BlockPool.allocateLoop], by simpa using h⟩
  | cons block blocks ih =>
    obtain ⟨hnot, hnd'⟩ := List.nodup_cons.mp hnd
    obtain ⟨hindex, cached, heq⟩ := h.forReuse block
    rw [heq] at hindex
    obtain ⟨cached', hrun, hinv⟩ := ih (p := { p with
      cachedBlockHashToBlock := cached
      blockHash := Function.update p.blockHash block none
      refCnt := Function.update p.refCnt block (p.refCnt block + 1)
      allocated := p.allocated ++ [block] }) { hindex with } hnd' fun b hb => by
        have hne : b ≠ block := fun he => hnot (he ▸ hb)
        simp [hne, href b (by simp [hb])]
    have hhash : (fun b => if b ∈ blocks then none else
        Function.update p.blockHash block none b) =
        fun b => if b ∈ block :: blocks then none else p.blockHash b := by
      funext b
      by_cases he : b = block <;> simp [he]
    have hcnt : (fun b => Function.update p.refCnt block (p.refCnt block + 1) b +
        (blocks.count b : Int)) = fun b => p.refCnt b + ((block :: blocks).count b : Int) := by
      funext b
      by_cases he : b = block
      · subst he
        simp
        omega
      · simp [he, Ne.symm he]
    simp only [hhash, hcnt, List.append_assoc, List.singleton_append] at hrun hinv
    refine ⟨cached', ?_, hinv⟩
    simp only [BlockPool.allocateLoop, heq]
    exact bind_ok_iff.mpr ⟨(), ensure_eq_ok.mpr (href block (by simp)), hrun⟩

/-- A successful `get_new_blocks` yields the number of blocks asked for. -/
theorem length_getNewBlocks {n : Int} (h : p.getNewBlocks n = .ok (blocks, p')) :
    blocks.length = n.toNat := by
  simp only [BlockPool.getNewBlocks, bind_ok_iff, pure_ok_iff, Prod.exists, Prod.mk.injEq] at h
  obtain ⟨_, -, ret, _, hpop, _, -, rfl, -⟩ := h
  exact FreeKVCacheBlockQueue.length_popleftN hpop

/-- Asking for no more blocks than are free pops them from the front of the queue,
with one reference and without hash each. -/
theorem PoolInv.getNewBlocks (h : p.PoolInv held) {free : List BlockId} (hfree : p.Queued free)
    {n : Nat} (hn : n ≤ free.length) : ∃ queue cached, p.getNewBlocks n = .ok (free.take n,
      { p with
        freeBlockQueue := queue
        cachedBlockHashToBlock := cached
        blockHash := fun b => if b ∈ free.take n then none else p.blockHash b
        refCnt := fun b => p.refCnt b + (free.take n).count b
        allocated := p.allocated ++ free.take n }) ∧
      PoolInv { p with
        freeBlockQueue := queue
        cachedBlockHashToBlock := cached
        blockHash := fun b => if b ∈ free.take n then none else p.blockHash b
        refCnt := fun b => p.refCnt b + (free.take n).count b
        allocated := p.allocated ++ free.take n } (fun b => held b + (free.take n).count b) ∧
      Queued { p with
        freeBlockQueue := queue
        cachedBlockHashToBlock := cached
        blockHash := fun b => if b ∈ free.take n then none else p.blockHash b
        refCnt := fun b => p.refCnt b + (free.take n).count b
        allocated := p.allocated ++ free.take n } (free.drop n) := by
  have hmem (b : BlockId) (hb : b ∈ free.take n) :=
    (hfree.mem_iff b).mp (List.mem_of_mem_take hb)
  have hnd := hfree.holds.nodup_free
  have hndt : (free.take n).Nodup := hnd.sublist (List.take_sublist _ _)
  obtain ⟨links, hpop, hlinks⟩ := hfree.holds.popleftN hn hfree.counter
  obtain ⟨cached, hloop, hindex⟩ := IndexInv.allocateLoop (p := { p with
    freeBlockQueue := { p.freeBlockQueue with
      links := links, numFreeBlocks := p.freeBlockQueue.numFreeBlocks - n } })
    { h.index with } hndt fun b hb => (hmem b hb).2.2
  have hqueued : Queued { p with
      freeBlockQueue := { p.freeBlockQueue with
        links := links, numFreeBlocks := p.freeBlockQueue.numFreeBlocks - n }
      cachedBlockHashToBlock := cached
      blockHash := fun b => if b ∈ free.take n then none else p.blockHash b
      refCnt := fun b => p.refCnt b + (free.take n).count b
      allocated := p.allocated ++ free.take n } (free.drop n) := by
    refine ⟨hlinks, hfree.head_eq, hfree.tail_eq, ?_, fun b => ?_⟩
    · simp [hfree.counter]
      omega
    · have hsplit := hnd
      rw [← List.take_append_drop n free, List.nodup_append] at hsplit
      by_cases hb : b ∈ free.take n
      · have hdrop : b ∉ free.drop n := fun hd => hsplit.2.2 b hb b hd rfl
        simp [hdrop, List.count_eq_one_of_mem hndt hb, (hmem b hb).2.2]
      · have hiff := hfree.mem_iff b
        rw [← List.take_append_drop n free, List.mem_append, or_iff_right hb] at hiff
        simp [hiff, List.count_eq_zero_of_not_mem hb]
  refine ⟨_, cached, ?_, ⟨fun b hbn => ?_, fun b hbn hpos => ?_, hindex, _, hqueued⟩, hqueued⟩
  · simp only [BlockPool.getNewBlocks]
    refine bind_ok_iff.mpr ⟨(), ensure_eq_ok.mpr ?_, bind_ok_iff.mpr ⟨_, hpop, ?_⟩⟩
    · rw [hfree.getNumFreeBlocks]
      omega
    · exact bind_ok_iff.mpr ⟨_, hloop, rfl⟩
  · simp [h.refCnt_eq b hbn]
  · by_cases hb : b ∈ free.take n
    · exact (hmem b hb).2.1
    · exact h.held_lt b hbn (by simpa [List.count_eq_zero_of_not_mem hb] using hpos)

/-! ## Caching -/

/-- Caching one block without hash stores it under its key. -/
theorem IndexInv.cacheOne (h : p.IndexInv) (hc : p.enableCaching = true) {block : BlockId}
    (hbn : block ≠ nullBlock) (hlt : block < p.numGpuBlocks) (hnone : p.blockHash block = none)
    (key : BlockHashWithGroupId H) : IndexInv { p with
      blockHash := Function.update p.blockHash block (some key)
      cachedBlockHashToBlock := p.cachedBlockHashToBlock.insert key block } := by
  obtain ⟨hkeyed, hstores⟩ := BlockHashToBlockMap.stores_insert h.wellKeyed key block
  refine ⟨fun key' b => ?_, hkeyed, ?_, fun b hb => ?_, fun hc' => ?_⟩
  · simp only
    rw [hstores, h.stores_iff]
    by_cases he : b = block
    · subst he
      simp [hnone, eq_comm]
    · simp [he]
  · simp [Ne.symm hbn, h.null_unhashed]
  · by_cases he : b = block
    · exact he ▸ hlt
    · exact h.hashed_lt b (by simpa [he] using hb)
  · simp [hc] at hc'

/-- What the loop of `cache_full_blocks` leaves behind: the blocks of the list had no
hash and now have that of their position, and nothing else has changed. -/
structure Cached (p p' : BlockPool H) (blockHashes : List H) (scaleFactor groupId idx : Nat)
    (blocks : List BlockId) : Prop where
  index : p'.IndexInv
  frame : ∃ cached, p' =
    { p with blockHash := p'.blockHash, cachedBlockHashToBlock := cached }
  others : ∀ b, b ∉ blocks ∨ b = nullBlock → p'.blockHash b = p.blockHash b
  unhashed : ∀ b ∈ blocks, b ≠ nullBlock → p.blockHash b = none
  hashed : ∀ i b, blocks[i]? = some b → b ≠ nullBlock → ∃ blockHash,
    mergedHash blockHashes scaleFactor (idx + i) = some blockHash ∧
      p'.blockHash b = some ⟨blockHash, groupId⟩

/-- A successful loop of `cache_full_blocks` does what `Cached` says. -/
theorem IndexInv.cacheLoop (h : p.IndexInv) (hc : p.enableCaching = true) {blockHashes : List H}
    {scaleFactor groupId idx : Nat} (hlt : ∀ b ∈ blocks, b ≠ nullBlock → b < p.numGpuBlocks)
    (hrun : BlockPool.cacheLoop blockHashes scaleFactor groupId idx blocks p = .ok p') :
    Cached p p' blockHashes scaleFactor groupId idx blocks := by
  induction blocks generalizing p idx with
  | nil =>
    obtain rfl := Except.ok.inj hrun
    exact ⟨h, ⟨p.cachedBlockHashToBlock, rfl⟩, fun _ _ => rfl, by simp, by simp⟩
  | cons block blocks ih =>
    have hlt' : ∀ b ∈ blocks, b ≠ nullBlock → b < p.numGpuBlocks :=
      fun b hb => hlt b (List.mem_cons_of_mem _ hb)
    by_cases hbn : block = nullBlock
    · rw [BlockPool.cacheLoop, if_pos hbn] at hrun
      obtain ⟨hindex, hframe, hothers, hunhashed, hhashed⟩ := ih h hc hlt' hrun
      refine ⟨hindex, hframe, fun b hb => hothers b ?_, ?_, ?_⟩
      · simp only [List.mem_cons, not_or] at hb
        tauto
      · intro b hb hne
        exact hunhashed b ((List.mem_cons.mp hb).resolve_left fun he => hne (he.trans hbn)) hne
      · intro i b hb hne
        cases i with
        | zero => exact absurd ((by simpa using hb : block = b) ▸ hbn) hne
        | succ i =>
          rw [show idx + (i + 1) = idx + 1 + i by omega]
          exact hhashed i b (by simpa using hb) hne
    · rw [BlockPool.cacheLoop, if_neg hbn, bind_ok_iff] at hrun
      obtain ⟨_, hnone, hrun⟩ := hrun
      rw [ensure_eq_ok] at hnone
      split at hrun
      · cases hrun
      · rename_i blockHash hmerged
        simp only [setBlockHash, bind_ok_iff, pure_ok_iff] at hrun
        obtain ⟨_, ⟨_, -, rfl⟩, hrun⟩ := hrun
        have hnext := h.cacheOne hc hbn (hlt block (by simp) hbn) hnone ⟨blockHash, groupId⟩
        obtain ⟨hindex, ⟨cached, hframe⟩, hothers, hunhashed, hhashed⟩ :=
          ih hnext hc hlt' hrun
        have hblock : block ∉ blocks := fun hm => by
          simpa using hunhashed block hm hbn
        refine ⟨hindex, ⟨cached, hframe⟩, fun b hb => ?_, fun b hb hne => ?_, fun i b hb hne => ?_⟩
        · by_cases he : b = block
          · subst he
            exact absurd (hb.resolve_left fun hm => hm (by simp)) hbn
          · rw [hothers b (by simp only [List.mem_cons, not_or] at hb; tauto)]
            simp [he]
        · rcases List.mem_cons.mp hb with rfl | hm
          · exact hnone
          · have he : b ≠ block := fun he => hblock (he ▸ hm)
            simpa [he] using hunhashed b hm hne
        · cases i with
          | zero =>
            obtain rfl : block = b := by simpa using hb
            refine ⟨blockHash, hmerged, ?_⟩
            rw [hothers block (Or.inl hblock)]
            simp
          | succ i =>
            rw [show idx + (i + 1) = idx + 1 + i by omega]
            exact hhashed i b (by simpa using hb) hne

/-- On distinct blocks without hash, the loop of `cache_full_blocks` can only fail for
want of hashes. -/
theorem cacheLoop_error {blockHashes : List H} {scaleFactor groupId idx : Nat}
    (hnone : ∀ b ∈ blocks, b ≠ nullBlock → p.blockHash b = none)
    (honce : ∀ b, b ≠ nullBlock → blocks.count b ≤ 1) {e : KVCacheError}
    (hrun : BlockPool.cacheLoop blockHashes scaleFactor groupId idx blocks p = .error e) :
    e = .hashIndexOutOfRange := by
  induction blocks generalizing p idx with
  | nil => cases hrun
  | cons block blocks ih =>
    have honce' : ∀ b, b ≠ nullBlock → blocks.count b ≤ 1 := fun b hbn =>
      (List.count_le_count_cons).trans (honce b hbn)
    by_cases hbn : block = nullBlock
    · rw [BlockPool.cacheLoop, if_pos hbn] at hrun
      exact ih (fun b hb => hnone b (List.mem_cons_of_mem _ hb)) honce' hrun
    · have hblock : block ∉ blocks := fun hm => by
        have hle := honce block hbn
        have hpos := List.count_pos_iff.mpr hm
        rw [List.count_cons_self] at hle
        omega
      have hfree := hnone block (by simp) hbn
      rw [BlockPool.cacheLoop, if_neg hbn, bind_error_iff] at hrun
      rcases hrun with hrun | ⟨_, -, hrun⟩
      · exact absurd hfree (ensure_eq_error.mp hrun).1
      · split at hrun
        · exact (Except.error.inj hrun).symm
        · rw [bind_error_iff] at hrun
          rcases hrun with hrun | ⟨p₁, hset, hrun⟩
          · rw [setBlockHash, bind_error_iff] at hrun
            rcases hrun with hrun | ⟨_, -, hrun⟩
            · exact absurd hfree (ensure_eq_error.mp hrun).1
            · cases hrun
          · rw [setBlockHash, bind_ok_iff] at hset
            obtain ⟨_, -, hset⟩ := hset
            obtain rfl := pure_ok_iff.mp hset
            refine ih (fun b hb hne => ?_) honce' hrun
            have he : b ≠ block := fun he => hblock (he ▸ hb)
            simp [he, hnone b (List.mem_cons_of_mem _ hb) hne]

/-! ## Construction and reset -/

omit [DecidableEq H] in
/-- A new pool is in order with nothing held. -/
theorem poolInv_init {numGpuBlocks hashBlockSize : Nat} {enableCaching : Bool}
    (h : init numGpuBlocks enableCaching hashBlockSize = .ok p) : p.PoolInv fun _ => 0 := by
  simp only [init, bind_ok_iff, ensure_eq_ok, pure_ok_iff] at h
  obtain ⟨_, hpos, ⟨block, queue⟩, hpop, rfl⟩ := h
  obtain ⟨n, rfl⟩ : ∃ n, numGpuBlocks = n + 1 := ⟨numGpuBlocks - 1, by omega⟩
  have hholds := FreeKVCacheBlockQueue.holds_init (n + 1)
  rw [List.range_succ_eq_map] at hholds
  obtain ⟨links, hpop', hlinks⟩ := hholds.popleft
  obtain ⟨rfl, rfl⟩ := Prod.mk.inj (Except.ok.inj (hpop'.symm.trans hpop))
  refine ⟨by simp, by simp, ⟨?_, ?_, rfl, by simp, by simp⟩, _, hlinks, rfl, rfl, ?_, fun b => ?_⟩
  · simp [BlockHashToBlockMap.Stores]
  · intro key blocks hb
    cases hb
  · simp [FreeKVCacheBlockQueue.init]
  · simp only [List.mem_map, List.mem_range, nullBlock, and_true]
    constructor
    · rintro ⟨i, hi, rfl⟩
      exact ⟨Nat.succ_ne_zero i, Nat.succ_lt_succ hi⟩
    · rintro ⟨hb, hlt⟩
      obtain ⟨i, rfl⟩ := Nat.exists_eq_succ_of_ne_zero hb
      exact ⟨i, Nat.lt_of_succ_lt_succ hlt, rfl⟩

omit [DecidableEq H] in
/-- A reset either does nothing or removes every hash. -/
theorem PoolInv.resetPrefixCache (h : p.PoolInv held) :
    p.resetPrefixCache.2.PoolInv held ∧ (p.resetPrefixCache.2 = p ∨
      p.resetPrefixCache.2 =
        { p with cachedBlockHashToBlock := fun _ => none, blockHash := fun _ => none }) := by
  have hclear : (fun b => if b < p.numGpuBlocks then none else p.blockHash b) =
      fun _ => (none : Option (BlockHashWithGroupId H)) := by
    funext b
    split
    · rfl
    · rename_i hb
      by_contra hne
      exact hb (h.index.hashed_lt b hne)
  unfold BlockPool.resetPrefixCache
  split
  · exact ⟨h, Or.inl rfl⟩
  · rw [hclear]
    obtain ⟨free, hfree⟩ := h.queued
    refine ⟨⟨h.refCnt_eq, h.held_lt, ⟨?_, ?_, rfl, by simp, by simp⟩, free, { hfree with }⟩,
      Or.inr rfl⟩
    · simp [BlockHashToBlockMap.Stores]
    · intro key blocks hb
      cases hb

end Index

end BlockPool

end Vllm
