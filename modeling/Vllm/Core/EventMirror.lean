import Vllm.Core.KVEvents

/-!
# The mirror of the prefix cache

An observer of the events holds a set of external hashes. Blocks enter and leave the
index one by one, so the observer is right as long as a hash is only ever evicted
together with all blocks that carry it, and as long as a stored range has no null block.
-/

namespace Vllm

open Checked

variable {H E : Type} [DecidableEq H] [DecidableEq E]

/-- What the observer does with an event. -/
def observe (observer : Finset E) : KVCacheEvent E → Finset E
  | .blockStored event => observer ∪ event.blockHashes.toFinset
  | .blockRemoved blockHashes _ => observer \ blockHashes.toFinset
  | .allBlocksCleared => ∅

/-- A pool and the observer of its events. -/
structure Mirror (H E : Type) where
  pool : EventPool H E
  observer : Finset E

/-- The calls on a pool of `n` blocks with one cache group. -/
inductive PoolCall (H : Type) (n : Nat) where
  | cacheFullBlocks (request : Request H) (blocks : List (Fin n))
      (numCachedBlocks numFullBlocks : Nat)
  | getNewBlocks (numBlocks : Int)
  | touch (blocks : List (Fin n))
  | freeBlocks (blocks : List (Fin n))
  | evictBlocks (blockIds : List BlockId)
  | resetPrefixCache
  | takeEvents

/-- The ids of a list of blocks. -/
def blockIds {n : Nat} (blocks : List (Fin n)) : List BlockId := blocks.map (·.val)

namespace Mirror

/-- One call; the observer processes a batch as soon as it is taken. -/
def apply {n : Nat} (env : EventEnv H E) (m : Mirror H E) :
    PoolCall H n → Except KVCacheError (Mirror H E)
  | .cacheFullBlocks request blocks numCachedBlocks numFullBlocks => do
    let pool ← m.pool.cacheFullBlocks env request (blockIds blocks) numCachedBlocks
      numFullBlocks m.pool.hashBlockSize 0
    pure { m with pool := pool }
  | .getNewBlocks numBlocks => do
    let result ← m.pool.getNewBlocks env numBlocks
    pure { m with pool := result.2 }
  | .touch blocks => do
    let pool ← m.pool.touch (blockIds blocks)
    pure { m with pool := pool }
  | .freeBlocks blocks => do
    let pool ← m.pool.freeBlocks (blockIds blocks)
    pure { m with pool := pool }
  | .evictBlocks ids => do
    let pool ← m.pool.evictBlocks env ids
    pure { m with pool := pool }
  | .resetPrefixCache => .ok { m with pool := m.pool.resetPrefixCache.2 }
  | .takeEvents => .ok
    { pool := m.pool.takeEvents.2
      observer := m.pool.takeEvents.1.foldl observe m.observer }

end Mirror

/-- `get_cached_block` finds a block under a hash with the given external form. -/
def Finds (env : EventEnv H E) (p : BlockPool H) (e : E) : Prop :=
  ∃ blockHash, env.maybeConvertBlockHash blockHash = e ∧ (p.getCachedBlock blockHash [0]).isSome

/-- The external form of the hash of a block. -/
def externalHash (env : EventEnv H E) (p : BlockPool H) (b : BlockId) : Option E :=
  (p.blockHash b).map fun key => env.maybeConvertBlockHash key.blockHash

/-- No block outside the list shares its external hash with one in the list. -/
def EvictsWhole (env : EventEnv H E) (p : BlockPool H) (blocks : List BlockId) : Prop :=
  ∀ b ∈ blocks, ∀ b' < p.numGpuBlocks, externalHash env p b' ≠ none →
    externalHash env p b' = externalHash env p b → b' ∈ blocks

/-- The blocks whose hashes `get_new_blocks` evicts. -/
def reused (p : BlockPool H) (numBlocks : Int) : List BlockId :=
  if p.enableCaching then
    match p.freeBlockQueue.popleftN numBlocks with
    | .ok (ret, _) => ret
    | .error _ => []
  else []

/-- What a call has to be like for the mirror to stay exact: blocks with one external hash
are evicted together, and a stored range has all its tokens and no null block. -/
def PoolCall.Exact {n : Nat} (env : EventEnv H E) (p : BlockPool H) : PoolCall H n → Prop
  | .cacheFullBlocks request blocks numCachedBlocks numFullBlocks =>
    numCachedBlocks < numFullBlocks → numFullBlocks * p.hashBlockSize ≤ request.numTokens ∧
      nullBlock ∉ ((blockIds blocks).take numFullBlocks).drop numCachedBlocks
  | .getNewBlocks numBlocks => EvictsWhole env p (reused p numBlocks)
  | .evictBlocks ids => EvictsWhole env p ids
  | _ => True

instance (env : EventEnv H E) (p : BlockPool H) (blocks : List BlockId) :
    Decidable (EvictsWhole env p blocks) :=
  inferInstanceAs (Decidable (∀ b ∈ blocks, ∀ b' < p.numGpuBlocks, externalHash env p b' ≠ none →
    externalHash env p b' = externalHash env p b → b' ∈ blocks))

instance {n : Nat} (env : EventEnv H E) (p : BlockPool H) :
    ∀ call : PoolCall H n, Decidable (call.Exact env p)
  | .cacheFullBlocks request blocks numCachedBlocks numFullBlocks =>
    inferInstanceAs (Decidable (numCachedBlocks < numFullBlocks →
      numFullBlocks * p.hashBlockSize ≤ request.numTokens ∧
        nullBlock ∉ ((blockIds blocks).take numFullBlocks).drop numCachedBlocks))
  | .getNewBlocks numBlocks => inferInstanceAs (Decidable (EvictsWhole env p (reused p numBlocks)))
  | .evictBlocks ids => inferInstanceAs (Decidable (EvictsWhole env p ids))
  | .touch _ | .freeBlocks _ | .resetPrefixCache | .takeEvents => isTrue trivial

/-- The index of the first block of a range that is not null. -/
def firstListed (blocks : List BlockId) (numCachedBlocks numFullBlocks : Nat) : Option Nat :=
  (List.range' numCachedBlocks (numFullBlocks - numCachedBlocks)).find?
    fun i => blocks[i]? ≠ some nullBlock

/-- The hash before index `i` in the chain of a request. -/
def precedingHash (env : EventEnv H E) (request : Request H) : Nat → Option E
  | 0 => none
  | i + 1 => request.blockHashes[i]?.map fun blockHash => env.maybeConvertBlockHash [blockHash]

/-- The event of a stored range has the tokens of its hashes, and its parent hash is the
one before the first block it lists. -/
structure BlockStored.Fits (env : EventEnv H E) (request : Request H) (blocks : List BlockId)
    (numCachedBlocks numFullBlocks : Nat) (event : BlockStored E) : Prop where
  tokens : event.tokenIds.length = event.blockHashes.length * event.blockSize
  parent : ∀ i, firstListed blocks numCachedBlocks numFullBlocks = some i →
    event.parentBlockHash = precedingHash env request i

/-- Whatever event a call stores fits the call. -/
def StoredFits {n : Nat} (env : EventEnv H E) (m : Mirror H E) : PoolCall H n → Prop
  | .cacheFullBlocks request blocks numCachedBlocks numFullBlocks =>
    ∀ m', m.apply env (.cacheFullBlocks request blocks numCachedBlocks numFullBlocks) = .ok m' →
      ∀ event, m'.pool.kvEventQueue = m.pool.kvEventQueue ++ [.blockStored event] →
        event.Fits env request (blockIds blocks) numCachedBlocks numFullBlocks
  | _ => True

/-! ## The index of a pool with one group -/

/-- The index and the hashes of the blocks agree, and all belong to group `0`. -/
structure Indexed (n : Nat) (p : BlockPool H) : Prop where
  size : p.numGpuBlocks = n
  blockSize_pos : 0 < p.hashBlockSize
  stores_iff : ∀ key b, p.cachedBlockHashToBlock.Stores key b ↔ p.blockHash b = some key
  wellKeyed : p.cachedBlockHashToBlock.WellKeyed
  hashed_lt : ∀ b, p.blockHash b ≠ none → b < n
  one_group : ∀ b key, p.blockHash b = some key → key.groupId = 0

variable {n : Nat} {env : EventEnv H E} {p p' : BlockPool H}

omit [DecidableEq H] [DecidableEq E] in
/-- A change of counters and queue leaves the index alone. -/
theorem Indexed.congr (h : Indexed n p) (hsize : p'.numGpuBlocks = p.numGpuBlocks)
    (hblock : p'.hashBlockSize = p.hashBlockSize) (hhash : p'.blockHash = p.blockHash)
    (hcached : p'.cachedBlockHashToBlock = p.cachedBlockHashToBlock) : Indexed n p' := by
  refine ⟨hsize.trans h.size, hblock ▸ h.blockSize_pos, fun key b => ?_, ?_, fun b hb => ?_,
    fun b key hb => ?_⟩
  · rw [hhash, hcached]
    exact h.stores_iff key b
  · rw [hcached]
    exact h.wellKeyed
  · exact h.hashed_lt b (hhash ▸ hb)
  · exact h.one_group b key (hhash ▸ hb)

omit [DecidableEq H] in
/-- A block looked up exists exactly when some block is stored. -/
theorem BlockHashToBlockMap.isSome_getOneBlock {m : BlockHashToBlockMap H} (h : m.WellKeyed)
    (key : BlockHashWithGroupId H) : (m.getOneBlock key).isSome ↔ ∃ b, m.Stores key b := by
  unfold getOneBlock Stores
  cases hm : m key with
  | none => simp
  | some cached =>
    cases cached with
    | single block => simp
    | many blocks =>
      have hne := (h key blocks hm).1
      have hvalues : blocks.values ≠ [] := by simpa [Dict.values] using hne
      simp only [List.isSome_head?]
      exact ⟨fun _ => List.exists_mem_of_ne_nil _ hvalues, fun _ => by simpa using hvalues⟩

omit [DecidableEq H] [DecidableEq E] in
/-- The pool finds the hashes that its blocks carry. -/
theorem Indexed.finds_iff (h : Indexed n p) (e : E) :
    Finds env p e ↔ ∃ b, externalHash env p b = some e := by
  have hget (blockHash : List H) : (p.getCachedBlock blockHash [0]).isSome ↔
      ∃ b, p.blockHash b = some ⟨blockHash, 0⟩ := by
    have hone := BlockHashToBlockMap.isSome_getOneBlock h.wellKeyed ⟨blockHash, 0⟩
    simp only [h.stores_iff] at hone
    rw [← hone]
    simp only [BlockPool.getCachedBlock, List.mapM_cons, List.mapM_nil]
    cases p.cachedBlockHashToBlock.getOneBlock ⟨blockHash, 0⟩ <;> simp
  constructor
  · rintro ⟨blockHash, rfl, hsome⟩
    obtain ⟨b, hb⟩ := (hget blockHash).mp hsome
    exact ⟨b, by simp [externalHash, hb]⟩
  · rintro ⟨b, hb⟩
    obtain ⟨key, hkey, rfl⟩ := Option.map_eq_some_iff.mp hb
    obtain ⟨blockHash, groupId⟩ := key
    obtain rfl := h.one_group b _ hkey
    exact ⟨blockHash, rfl, (hget blockHash).mpr ⟨b, hkey⟩⟩

/-! ## Evicting -/

variable {s s' s₁ : EventPool H E}

/-- What evicting a list of blocks does: their hashes are gone, and an observer of the new
events removes exactly these. -/
structure Evicted (n : Nat) (env : EventEnv H E) (blocks : List BlockId) (s s' : EventPool H E) :
    Prop where
  indexed : Indexed n s'.toBlockPool
  enabled : s'.enableKvCacheEvents = s.enableKvCacheEvents
  blockHash : ∀ b, s'.blockHash b = if b ∈ blocks then none else s.blockHash b
  observed : ∀ observer e, e ∈ s'.kvEventQueue.foldl observe observer ↔
    e ∈ s.kvEventQueue.foldl observe observer ∧
      ∀ b ∈ blocks, externalHash env s.toBlockPool b ≠ some e

omit [DecidableEq H] in
/-- Evicting nothing, whatever else changes. -/
theorem Evicted.nil (hindexed : Indexed n s'.toBlockPool)
    (henabled : s'.enableKvCacheEvents = s.enableKvCacheEvents)
    (hhash : s'.blockHash = s.blockHash) (hqueue : s'.kvEventQueue = s.kvEventQueue) :
    Evicted n env [] s s' :=
  ⟨hindexed, henabled, by simp [hhash], by simp [hqueue]⟩

omit [DecidableEq H] in
/-- One eviction after another. -/
theorem Evicted.trans {blocks blocks' : List BlockId} (h : Evicted n env blocks s s₁)
    (h' : Evicted n env blocks' s₁ s') : Evicted n env (blocks ++ blocks') s s' := by
  refine ⟨h'.indexed, h'.enabled.trans h.enabled, fun b => ?_, fun observer e => ?_⟩
  · rw [h'.blockHash, h.blockHash]
    simp only [List.mem_append]
    grind
  · rw [h'.observed, h.observed, and_assoc]
    refine and_congr_right fun _ => ?_
    simp only [externalHash, h.blockHash, List.mem_append]
    grind

/-- Evicting one block. -/
theorem Indexed.maybeEvictCachedBlock (env : EventEnv H E) (h : Indexed n s.toBlockPool)
    (henabled : s.enableKvCacheEvents = true) (block : BlockId) :
    Evicted n env [block] s (s.maybeEvictCachedBlock env block) := by
  cases hkey : s.blockHash block with
  | none =>
    rw [show s.maybeEvictCachedBlock env block = s by
      simp [EventPool.maybeEvictCachedBlock, hkey]]
    refine ⟨h, rfl, fun b => ?_, fun observer e => ?_⟩
    · by_cases he : b = block <;> simp [he, hkey]
    · simp [externalHash, hkey]
  | some key =>
    obtain ⟨hfound, hkeyed, hstores⟩ :=
      BlockHashToBlockMap.stores_pop h.wellKeyed ((h.stores_iff key block).mpr hkey)
    cases hpop : s.cachedBlockHashToBlock.pop key block with
    | mk popped cached =>
      rw [hpop] at hfound hkeyed hstores
      simp only at hfound hkeyed hstores
      subst hfound
      rw [show s.maybeEvictCachedBlock env block =
        { s with
          cachedBlockHashToBlock := cached
          blockHash := Function.update s.blockHash block none
          kvEventQueue := s.kvEventQueue ++
            [.blockRemoved [env.maybeConvertBlockHash key.blockHash] mediumGpu] } by
        simp [EventPool.maybeEvictCachedBlock, EventPool.emit, hkey, hpop, henabled]]
      have hhash (b : BlockId) : Function.update s.blockHash block none b =
          if b ∈ [block] then none else s.blockHash b := by
        by_cases he : b = block <;> simp [he]
      refine ⟨⟨h.size, h.blockSize_pos, fun key' b => ?_, hkeyed, fun b hb => ?_,
        fun b key' hb => ?_⟩, rfl, hhash, fun observer e => ?_⟩
      · simp only
        rw [hstores key' b, h.stores_iff]
        by_cases he : b = block
        · subst he
          simp [hkey, eq_comm]
        · simp [he]
      · by_cases he : b = block
        · simp [he] at hb
        · exact h.hashed_lt b (by simpa [he] using hb)
      · by_cases he : b = block
        · simp [he] at hb
        · exact h.one_group b key' (by simpa [he] using hb)
      · simp [List.foldl_append, observe, externalHash, hkey, eq_comm]

/-- `evict_blocks` evicts the blocks of its list. -/
theorem Indexed.evictBlocks (h : Indexed n s.toBlockPool) (henabled : s.enableKvCacheEvents = true)
    {ids : List BlockId} (hrun : s.evictBlocks env ids = .ok s') : Evicted n env ids s s' := by
  induction ids generalizing s with
  | nil =>
    obtain rfl := Except.ok.inj hrun
    exact Evicted.nil h rfl rfl rfl
  | cons block ids ih =>
    simp only [EventPool.evictBlocks, bind_ok_iff] at hrun
    obtain ⟨_, -, hrest⟩ := hrun
    have hone := h.maybeEvictCachedBlock env henabled block
    exact hone.trans (ih hone.indexed (hone.enabled.trans henabled) hrest)

variable {blocks : List BlockId}

/-- The loop of `get_new_blocks` evicts its blocks if caching is enabled. -/
theorem Indexed.allocateLoop (h : Indexed n s.toBlockPool) (henabled : s.enableKvCacheEvents = true)
    (hrun : s.allocateLoop env blocks = .ok s') :
    Evicted n env (if s.enableCaching then blocks else []) s s' := by
  induction blocks generalizing s with
  | nil =>
    obtain rfl := Except.ok.inj hrun
    simpa using Evicted.nil h rfl rfl rfl
  | cons block blocks ih =>
    simp only [EventPool.allocateLoop, bind_ok_iff] at hrun
    obtain ⟨_, -, hrest⟩ := hrun
    have hone : Evicted n env (if s.enableCaching then [block] else []) s
        (s.forReuse env block) := by
      unfold EventPool.forReuse
      split
      · exact h.maybeEvictCachedBlock env henabled block
      · exact Evicted.nil h rfl rfl rfl
    have hsame : (s.forReuse env block).enableCaching = s.enableCaching := by
      rw [EventPool.toBlockPool_forReuse]
      unfold BlockPool.forReuse BlockPool.maybeEvictCachedBlock
      split
      · split
        · rfl
        · split <;> rfl
      · rfl
    -- the counters of the loop are no part of the index
    have hcount : Evicted n env [] (s.forReuse env block)
        { s.forReuse env block with
          refCnt := Function.update (s.forReuse env block).refCnt block
            ((s.forReuse env block).refCnt block + 1)
          allocated := (s.forReuse env block).allocated ++ [block] } :=
      Evicted.nil (hone.indexed.congr rfl rfl rfl rfl) rfl rfl rfl
    have hcounted := hone.trans hcount
    have hlast := ih hcounted.indexed (hcounted.enabled.trans henabled) hrest
    have hall := hcounted.trans hlast
    simp only [hsame] at hall
    cases hc : s.enableCaching <;> simpa [hc] using hall

/-- `get_new_blocks` evicts the blocks it reuses. -/
theorem Indexed.getNewBlocks (h : Indexed n s.toBlockPool)
    (henabled : s.enableKvCacheEvents = true) {numBlocks : Int} {ret : List BlockId}
    (hrun : s.getNewBlocks env numBlocks = .ok (ret, s')) :
    Evicted n env (reused s.toBlockPool numBlocks) s s' := by
  simp only [EventPool.getNewBlocks, bind_ok_iff, pure_ok_iff, Prod.exists, Prod.mk.injEq] at hrun
  obtain ⟨_, -, ret', queue, hpop, s₁, hloop, rfl, rfl⟩ := hrun
  have hevicted := Indexed.allocateLoop (s := { s with freeBlockQueue := queue })
    (h.congr rfl rfl rfl rfl) henabled hloop
  have hreused : reused s.toBlockPool numBlocks = if s.enableCaching then ret' else [] := by
    simp [reused, hpop]
  rw [hreused]
  exact ⟨hevicted.indexed, hevicted.enabled, hevicted.blockHash, hevicted.observed⟩

/-! ## Storing -/

/-- One block without hash is stored under its key. -/
theorem Indexed.cacheOne (h : Indexed n p) {block : BlockId} (hlt : block < n)
    (hnone : p.blockHash block = none) (blockHash : List H) : Indexed n { p with
      blockHash := Function.update p.blockHash block (some ⟨blockHash, 0⟩)
      cachedBlockHashToBlock := p.cachedBlockHashToBlock.insert ⟨blockHash, 0⟩ block } := by
  obtain ⟨hkeyed, hstores⟩ :=
    BlockHashToBlockMap.stores_insert h.wellKeyed ⟨blockHash, 0⟩ block
  refine ⟨h.size, h.blockSize_pos, fun key b => ?_, hkeyed, fun b hb => ?_, fun b key hb => ?_⟩
  · simp only
    rw [hstores, h.stores_iff]
    by_cases he : b = block
    · subst he
      simp [hnone, eq_comm]
    · simp [he]
  · by_cases he : b = block
    · exact he ▸ hlt
    · exact h.hashed_lt b (by simpa [he] using hb)
  · by_cases he : b = block
    · subst he
      obtain rfl : ⟨blockHash, 0⟩ = key := by simpa using hb
      rfl
    · exact h.one_group b key (by simpa [he] using hb)

omit [DecidableEq E] in
/-- The loop of `cache_full_blocks` adds the hashes that it lists to those carried. -/
theorem Indexed.cacheLoop (env : EventEnv H E) (h : Indexed n p) {blockHashes : List H}
    {scaleFactor idx : Nat} (hlt : ∀ b ∈ blocks, b < n)
    (hrun : BlockPool.cacheLoop blockHashes scaleFactor 0 idx blocks p = .ok p') :
    Indexed n p' ∧ ∀ e, (∃ b, externalHash env p' b = some e) ↔
      (∃ b, externalHash env p b = some e) ∨
        e ∈ EventPool.newHashes env blockHashes scaleFactor idx blocks := by
  induction blocks generalizing p idx with
  | nil =>
    obtain rfl := Except.ok.inj hrun
    exact ⟨h, by simp [EventPool.newHashes]⟩
  | cons block blocks ih =>
    have hlt' : ∀ b ∈ blocks, b < n := fun b hb => hlt b (List.mem_cons_of_mem _ hb)
    by_cases hbn : block = nullBlock
    · rw [BlockPool.cacheLoop, if_pos hbn] at hrun
      rw [EventPool.newHashes, if_pos hbn]
      exact ih h hlt' hrun
    · rw [BlockPool.cacheLoop, if_neg hbn, bind_ok_iff] at hrun
      obtain ⟨_, hnone, hrun⟩ := hrun
      rw [ensure_eq_ok] at hnone
      cases hmerged : BlockPool.mergedHash blockHashes scaleFactor idx with
      | none => simp [hmerged] at hrun
      | some blockHash =>
        simp only [hmerged, BlockPool.setBlockHash, bind_ok_iff, pure_ok_iff] at hrun
        obtain ⟨_, ⟨_, -, rfl⟩, hrun⟩ := hrun
        obtain ⟨hindexed, hcarried⟩ := ih (h.cacheOne (hlt block (by simp)) hnone blockHash)
          hlt' hrun
        refine ⟨hindexed, fun e => ?_⟩
        rw [hcarried e, EventPool.newHashes, if_neg hbn, hmerged]
        have hstored : (∃ b, externalHash env { p with
            blockHash := Function.update p.blockHash block (some ⟨blockHash, 0⟩)
            cachedBlockHashToBlock := p.cachedBlockHashToBlock.insert ⟨blockHash, 0⟩ block } b =
              some e) ↔
            (∃ b, externalHash env p b = some e) ∨ env.maybeConvertBlockHash blockHash = e := by
          constructor
          · rintro ⟨b, hb⟩
            by_cases he : b = block
            · exact Or.inr (by simpa [externalHash, he] using hb)
            · exact Or.inl ⟨b, by simpa [externalHash, he] using hb⟩
          · rintro (⟨b, hb⟩ | he)
            · have hne : b ≠ block := fun he => by simp [externalHash, he, hnone] at hb
              exact ⟨b, by simpa [externalHash, hne] using hb⟩
            · exact ⟨block, by simpa [externalHash] using he⟩
        rw [hstored, or_assoc]
        simp [eq_comm]

/-! ## The stored event -/

omit [DecidableEq H] in
/-- With equal block sizes the merged hash at an index is the request's own. -/
theorem mergedHash_one (blockHashes : List H) (i : Nat) :
    BlockPool.mergedHash blockHashes 1 i = blockHashes[i]?.map ([·]) := by
  unfold BlockPool.mergedHash
  by_cases hi : i < blockHashes.length
  · rw [if_pos (by omega), List.getElem?_eq_getElem hi, Nat.mul_one, List.drop_eq_getElem_cons hi]
    rfl
  · rw [if_neg (by omega), List.getElem?_eq_none (by omega)]
    rfl

omit [DecidableEq H] [DecidableEq E] in
/-- Without null blocks there is one hash for each block. -/
theorem length_newHashes {blockHashes : List H} {idx : Nat} (hnull : nullBlock ∉ blocks)
    (hlen : idx + blocks.length ≤ blockHashes.length) :
    (EventPool.newHashes env blockHashes 1 idx blocks).length = blocks.length := by
  induction blocks generalizing idx with
  | nil => simp [EventPool.newHashes]
  | cons block blocks ih =>
    simp only [List.mem_cons, not_or] at hnull
    rw [List.length_cons] at hlen
    have hlt : idx < blockHashes.length := by omega
    have hsome : blockHashes[idx]? = some blockHashes[idx] := List.getElem?_eq_getElem hlt
    rw [EventPool.newHashes, if_neg (Ne.symm hnull.1), mergedHash_one, hsome, List.length_append,
      ih hnull.2 (by omega)]
    simp [Nat.add_comm]

omit [DecidableEq H] [DecidableEq E] in
/-- The extra keys can be collected only if all blocks are there. -/
private theorem lt_length_of_extraKeysLoop {request : Request H} {blockSize : Nat}
    {indices : List Nat} {currMmIdx : Int} {keys : List (Option (List ExtraKey))}
    (h : EventPool.extraKeysLoop env request blocks blockSize indices currMmIdx = .ok keys) :
    ∀ i ∈ indices, i < blocks.length := by
  induction indices generalizing currMmIdx keys with
  | nil => simp
  | cons i indices ih =>
    cases hblock : blocks[i]? with
    | none => simp [EventPool.extraKeysLoop, hblock] at h
    | some block =>
      have hi : i < blocks.length := (List.getElem?_eq_some_iff.mp hblock).1
      simp only [EventPool.extraKeysLoop, hblock] at h
      split at h
      · exact List.forall_mem_cons.mpr ⟨hi, ih h⟩
      · obtain ⟨rest, hrest, -⟩ := bind_ok_iff.mp h
        exact List.forall_mem_cons.mpr ⟨hi, ih hrest⟩

omit [DecidableEq H] [DecidableEq E] in
/-- The event of a range with all its tokens and no null block fits the call. -/
theorem fits_storedEvent (hpos : 0 < s.hashBlockSize) {request : Request H}
    {numCachedBlocks numFullBlocks : Nat} (hlt : numCachedBlocks < numFullBlocks)
    (htokens : numFullBlocks * s.hashBlockSize ≤ request.numTokens)
    (hnull : nullBlock ∉ (blocks.take numFullBlocks).drop numCachedBlocks)
    (hhashes : numFullBlocks ≤ request.blockHashes.length) {event : BlockStored E}
    (h : EventPool.storedEvent env s request blocks numCachedBlocks numFullBlocks
      s.hashBlockSize = .ok event) :
    event.Fits env request blocks numCachedBlocks numFullBlocks := by
  simp only [EventPool.storedEvent, bind_ok_iff, pure_ok_iff, Nat.div_self hpos] at h
  obtain ⟨keys, hkeys, rfl⟩ := h
  have hblocks : numFullBlocks ≤ blocks.length := by
    have hlast := lt_length_of_extraKeysLoop hkeys (numFullBlocks - 1)
      (by rw [List.mem_range'_1]; omega)
    omega
  have hrange : ((blocks.take numFullBlocks).drop numCachedBlocks).length =
      numFullBlocks - numCachedBlocks := by
    rw [List.length_drop, List.length_take]
    omega
  constructor
  · have htake : min (numFullBlocks * s.hashBlockSize) request.allTokenIds.length =
        numFullBlocks * s.hashBlockSize := Nat.min_eq_left htokens
    simp only
    rw [length_newHashes hnull (by omega), hrange, List.length_drop, List.length_take, htake,
      Nat.sub_mul]
  · intro i hi
    have hfirst : blocks[numCachedBlocks]? ≠ some nullBlock := by
      intro hb
      refine hnull (List.mem_of_getElem? (i := 0) ?_)
      rw [List.getElem?_drop, List.getElem?_take_of_lt (by omega)]
      exact hb
    have hlisted : firstListed blocks numCachedBlocks numFullBlocks = some numCachedBlocks := by
      obtain ⟨k, hk⟩ : ∃ k, numFullBlocks - numCachedBlocks = k + 1 :=
        ⟨numFullBlocks - numCachedBlocks - 1, by omega⟩
      rw [firstListed, hk, List.range'_succ, List.find?_cons_of_pos (by simpa using hfirst)]
    obtain rfl := Option.some.inj (hlisted.symm.trans hi)
    cases numCachedBlocks with
    | zero => rfl
    | succ i => simp [precedingHash, mergedHash_one, Function.comp_def]

/-! ## Runs -/

/-- Once the pending events are processed, the observer holds the hashes that the blocks
carry. -/
def Mirrored (env : EventEnv H E) (s : EventPool H E) (observer : Finset E) : Prop :=
  ∀ e, e ∈ s.kvEventQueue.foldl observe observer ↔ ∃ b, externalHash env s.toBlockPool b = some e

omit [DecidableEq H] in
/-- The mirror survives an eviction exactly when no hash is carried both by an evicted
block and by one that stays. -/
theorem Evicted.mirrored_iff (h : Evicted n env blocks s s') (hs : Indexed n s.toBlockPool)
    {observer : Finset E} (hmirror : Mirrored env s observer) :
    Mirrored env s' observer ↔ EvictsWhole env s.toBlockPool blocks := by
  have hafter (b : BlockId) : externalHash env s'.toBlockPool b =
      if b ∈ blocks then none else externalHash env s.toBlockPool b := by
    simp only [externalHash, h.blockHash]
    split <;> rfl
  have hobs (e : E) : e ∈ s'.kvEventQueue.foldl observe observer ↔
      (∃ b, externalHash env s.toBlockPool b = some e) ∧
        ∀ b ∈ blocks, externalHash env s.toBlockPool b ≠ some e := by
    rw [h.observed, hmirror]
  simp only [Mirrored, hobs, hafter]
  constructor
  · intro hall b hb b' _ hne heq
    obtain ⟨e, he⟩ := Option.ne_none_iff_exists'.mp hne
    by_contra hb'
    exact ((hall e).mpr ⟨b', by simpa [hb'] using he⟩).2 b hb (heq ▸ he)
  · intro hwhole e
    constructor
    · rintro ⟨⟨b, hb⟩, hnot⟩
      exact ⟨b, by rw [if_neg fun hm => hnot b hm hb]; exact hb⟩
    · rintro ⟨b, hb⟩
      by_cases hm : b ∈ blocks
      · simp [hm] at hb
      · rw [if_neg hm] at hb
        have hlt : b < s.numGpuBlocks := by
          rw [hs.size]
          refine hs.hashed_lt b fun hnone => ?_
          simp [externalHash, hnone] at hb
        exact ⟨⟨b, hb⟩, fun b' hb' he =>
          hm (hwhole b' hb' b hlt (by simp [hb]) (hb.trans he.symm))⟩

/-- What holds between two calls. -/
structure Mirror.InStep (n : Nat) (env : EventEnv H E) (m : Mirror H E) : Prop where
  indexed : Indexed n m.pool.toBlockPool
  enabled : m.pool.enableKvCacheEvents = true
  mirrored : Mirrored env m.pool m.observer

namespace Mirror

variable {m m' : Mirror H E}

/-- Storing keeps the mirror, and the event fits if the range does. -/
theorem InStep.cacheFullBlocks (h : m.InStep n env) {request : Request H} {blocks : List (Fin n)}
    {numCachedBlocks numFullBlocks : Nat} (hrun : m.pool.cacheFullBlocks env request
      (blockIds blocks) numCachedBlocks numFullBlocks m.pool.hashBlockSize 0 = .ok s') :
    InStep n env { m with pool := s' } ∧
      ((PoolCall.cacheFullBlocks request blocks numCachedBlocks numFullBlocks).Exact env
          m.pool.toBlockPool →
        ∀ event, s'.kvEventQueue = m.pool.kvEventQueue ++ [.blockStored event] →
          event.Fits env request (blockIds blocks) numCachedBlocks numFullBlocks) := by
  unfold EventPool.cacheFullBlocks at hrun
  split at hrun
  · obtain rfl := Except.ok.inj hrun
    exact ⟨h, fun _ event he => by simp at he⟩
  · rename_i hlt
    simp only [h.enabled, if_true, bind_ok_iff, pure_ok_iff] at hrun
    obtain ⟨pool, hpool, event, hevent, rfl⟩ := hrun
    simp only [BlockPool.cacheFullBlocks, if_neg hlt, bind_ok_iff, ensure_eq_ok] at hpool
    obtain ⟨_, hhashes, _, -, hloop⟩ := hpool
    have hmem : ∀ b ∈ ((blockIds blocks).take numFullBlocks).drop numCachedBlocks, b < n := by
      intro b hb
      obtain ⟨i, -, rfl⟩ := List.mem_map.mp (List.mem_of_mem_take (List.mem_of_mem_drop hb))
      exact i.isLt
    obtain ⟨hindexed, hcarried⟩ := h.indexed.cacheLoop env hmem hloop
    refine ⟨⟨hindexed, rfl, fun e => ?_⟩, fun hexact event' he => ?_⟩
    · have hnew : event.blockHashes = EventPool.newHashes env request.blockHashes
          (m.pool.hashBlockSize / m.pool.hashBlockSize) numCachedBlocks
          (((blockIds blocks).take numFullBlocks).drop numCachedBlocks) := by
        obtain ⟨keys, -, he⟩ := bind_ok_iff.mp hevent
        rw [← pure_ok_iff.mp he]
      have hbefore := h.mirrored e
      simp only [List.foldl_append, List.foldl_cons, List.foldl_nil, observe, Finset.mem_union,
        List.mem_toFinset, hnew]
      rw [hbefore, hcarried e]
    · obtain rfl : event = event' := by simpa using he
      obtain ⟨htokens, hnull⟩ := hexact (by omega)
      exact fits_storedEvent h.indexed.blockSize_pos (by omega) htokens hnull hhashes hevent

omit [DecidableEq H] in
/-- A call without event that leaves the index alone keeps the mirror. -/
theorem InStep.frame (h : m.InStep n env) {pool : BlockPool H}
    (hframe : ∃ queue refCnt, pool =
      { m.pool.toBlockPool with freeBlockQueue := queue, refCnt := refCnt }) :
    InStep n env { m with pool := { m.pool with toBlockPool := pool } } := by
  obtain ⟨queue, refCnt, rfl⟩ := hframe
  exact ⟨h.indexed.congr rfl rfl rfl rfl, h.enabled, h.mirrored⟩

omit [DecidableEq H] in
/-- A reset clears both sides, or does nothing. -/
theorem InStep.resetPrefixCache (h : m.InStep n env) :
    InStep n env { m with pool := m.pool.resetPrefixCache.2 } := by
  unfold EventPool.resetPrefixCache BlockPool.resetPrefixCache
  by_cases hused : (m.pool.numGpuBlocks : Int) - m.pool.getNumFreeBlocks ≠ 1
  · simpa only [if_pos hused] using h.frame ⟨_, _, rfl⟩
  · have hclear (b : BlockId) : (if b < m.pool.numGpuBlocks then none else m.pool.blockHash b) =
        (none : Option (BlockHashWithGroupId H)) := by
      split
      · rfl
      · rename_i hb
        by_contra hne
        exact hb (h.indexed.size ▸ h.indexed.hashed_lt b hne)
    simp only [if_neg hused, EventPool.emit, h.enabled, if_true]
    refine ⟨⟨h.indexed.size, h.indexed.blockSize_pos, fun key b => ?_, fun key blocks hb => ?_,
      fun b hb => ?_, fun b key hb => ?_⟩, rfl, fun e => ?_⟩
    · simp [BlockHashToBlockMap.Stores, hclear]
    · cases hb
    · exact absurd (hclear b) hb
    · cases (hclear b).symm.trans hb
    · simp [List.foldl_append, observe, externalHash, hclear]

omit [DecidableEq H] in
/-- Taking a batch hands the pending events to the observer. -/
theorem InStep.takeEvents (h : m.InStep n env) : InStep n env
    { pool := m.pool.takeEvents.2
      observer := m.pool.takeEvents.1.foldl observe m.observer } := by
  simp only [EventPool.takeEvents, h.enabled, if_true]
  exact ⟨h.indexed, rfl, h.mirrored⟩

/-- Every call that is exact keeps the mirror. -/
theorem InStep.apply (h : m.InStep n env) {call : PoolCall H n}
    (hexact : call.Exact env m.pool.toBlockPool) (hrun : m.apply env call = .ok m') :
    m'.InStep n env := by
  cases call with
  | cacheFullBlocks request blocks numCachedBlocks numFullBlocks =>
    obtain ⟨pool, hpool, rfl⟩ := by simpa only [Mirror.apply, bind_ok_iff, pure_ok_iff] using hrun
    exact (h.cacheFullBlocks hpool).1
  | getNewBlocks numBlocks =>
    obtain ⟨⟨ret, pool⟩, hpool, rfl⟩ := by
      simpa only [Mirror.apply, bind_ok_iff, pure_ok_iff] using hrun
    have hevicted := h.indexed.getNewBlocks h.enabled hpool
    exact ⟨hevicted.indexed, hevicted.enabled.trans h.enabled,
      (hevicted.mirrored_iff h.indexed h.mirrored).mpr hexact⟩
  | touch blocks =>
    simp only [Mirror.apply, EventPool.touch, bind_ok_iff, pure_ok_iff] at hrun
    obtain ⟨_, ⟨pool, hpool, rfl⟩, rfl⟩ := hrun
    exact h.frame (BlockPool.frame_of_touch hpool)
  | freeBlocks blocks =>
    simp only [Mirror.apply, EventPool.freeBlocks, bind_ok_iff, pure_ok_iff] at hrun
    obtain ⟨_, ⟨pool, hpool, rfl⟩, rfl⟩ := hrun
    exact h.frame (BlockPool.frame_of_freeBlocks hpool)
  | evictBlocks ids =>
    obtain ⟨pool, hpool, rfl⟩ := by simpa only [Mirror.apply, bind_ok_iff, pure_ok_iff] using hrun
    have hevicted := h.indexed.evictBlocks h.enabled hpool
    exact ⟨hevicted.indexed, hevicted.enabled.trans h.enabled,
      (hevicted.mirrored_iff h.indexed h.mirrored).mpr hexact⟩
  | resetPrefixCache =>
    obtain rfl := Except.ok.inj hrun
    exact h.resetPrefixCache
  | takeEvents =>
    obtain rfl := Except.ok.inj hrun
    exact h.takeEvents

/-- The event that an exact call stores fits it. -/
theorem InStep.storedFits (h : m.InStep n env) {call : PoolCall H n}
    (hexact : call.Exact env m.pool.toBlockPool) : StoredFits env m call := by
  cases call with
  | cacheFullBlocks request blocks numCachedBlocks numFullBlocks =>
    intro m' hrun event hevent
    obtain ⟨pool, hpool, rfl⟩ := by simpa only [Mirror.apply, bind_ok_iff, pure_ok_iff] using hrun
    exact (h.cacheFullBlocks hpool).2 hexact event hevent
  | _ => trivial

omit [DecidableEq H] in
/-- A new pool has nothing to mirror. -/
private theorem inStep_init {enableCaching : Bool} {hashBlockSize : Nat}
    (hpos : 0 < hashBlockSize) (h : EventPool.init n enableCaching hashBlockSize true = .ok s) :
    InStep n env ⟨s, ∅⟩ := by
  simp only [EventPool.init, BlockPool.init, bind_ok_iff, pure_ok_iff, Prod.exists] at h
  obtain ⟨_, ⟨_, -, block, queue, -, rfl⟩, rfl⟩ := h
  refine ⟨⟨rfl, hpos, fun key b => ?_, fun key blocks hb => ?_, by simp, by simp⟩, rfl,
    fun e => ?_⟩
  · simp [BlockHashToBlockMap.Stores]
  · cases hb
  · simp [externalHash]

/-- In a run of exact calls on a new pool, the observer holds after each batch the hashes
that the pool finds, and every stored event fits its call. -/
theorem mirrors_of_exact {enableCaching : Bool} {hashBlockSize : Nat} {calls : List (PoolCall H n)}
    (hpos : 0 < hashBlockSize) (hinit : EventPool.init n enableCaching hashBlockSize true = .ok s)
    (hexact : Along (Mirror.apply env) (fun m call => call.Exact env m.pool.toBlockPool)
      ⟨s, ∅⟩ calls)
    (hrun : run (Mirror.apply env) ⟨s, ∅⟩ calls = .ok m) :
    (∀ m', m.apply env (.takeEvents : PoolCall H n) = .ok m' →
        ∀ e, e ∈ m'.observer ↔ Finds env m'.pool.toBlockPool e) ∧
      Along (Mirror.apply env) (StoredFits env) ⟨s, ∅⟩ calls := by
  have hstart : InStep n env ⟨s, ∅⟩ := inStep_init hpos hinit
  constructor
  · intro m' htake e
    have hm : m.InStep n env :=
      run_invariant (fun _ _ _ h hc ha => h.apply hc ha) hstart hexact hrun
    obtain rfl := Except.ok.inj htake
    have hobserved := hm.takeEvents
    rw [hobserved.indexed.finds_iff]
    have hmirrored := hobserved.mirrored e
    simpa only [EventPool.takeEvents, hm.enabled, if_true, List.foldl_nil] using hmirrored
  · exact along_of_invariant (fun _ _ _ h hc ha => h.apply hc ha)
      (fun _ _ h hc => h.storedFits hc) hstart hexact

/-! ## Two blocks with one hash -/

/-- Events that carry the hashes themselves. -/
def plainEnv : EventEnv FreeDigest (List FreeDigest) where
  toHashEnv := freeEnv
  maybeConvertBlockHash := id

/-- A request of one full block. -/
def oneBlock (requestId : RequestId) : Request FreeDigest where
  requestId := requestId
  allTokenIds := [5, 6]
  blockHashes := [hashBlockTokens freeEnv none [5, 6] none]

/-- Two requests with the same prompt cache a block each, then the first block is evicted. -/
def evictedTwin : List (PoolCall FreeDigest 3) := [
  .getNewBlocks 2,
  .cacheFullBlocks (oneBlock 1) [1] 0 1,
  .cacheFullBlocks (oneBlock 2) [2] 0 1,
  .evictBlocks [1]]

/-- The observer has forgotten the hash, which the pool still finds. -/
theorem evictedTwin_not_mirrored : ∃ (s : EventPool FreeDigest (List FreeDigest))
    (m m' : Mirror FreeDigest (List FreeDigest)), EventPool.init 3 true 2 true = .ok s ∧
      run (Mirror.apply plainEnv) ⟨s, ∅⟩ evictedTwin = .ok m ∧
      m.apply plainEnv (.takeEvents : PoolCall FreeDigest 3) = .ok m' ∧
      ¬∀ e, e ∈ m'.observer ↔ Finds plainEnv m'.pool.toBlockPool e := by
  have heval : (do
      let s ← EventPool.init 3 true 2 true
      let m ← run (Mirror.apply plainEnv) ⟨s, ∅⟩ evictedTwin
      let m' ← m.apply plainEnv (.takeEvents : PoolCall FreeDigest 3)
      ensure ((oneBlock 1).blockHashes ∉ m'.observer) .invalidConfig
      pure (m'.pool.getCachedBlock (oneBlock 1).blockHashes [0])) = .ok (some [2]) := by
    decide
  simp only [bind_ok_iff, ensure_eq_ok, pure_ok_iff] at heval
  obtain ⟨s, hinit, m, hrun, m', htake, _, hforgot, hfound⟩ := heval
  refine ⟨s, m, m', hinit, hrun, htake, fun h => ?_⟩
  have hfinds : Finds plainEnv m'.pool.toBlockPool (oneBlock 1).blockHashes :=
    ⟨(oneBlock 1).blockHashes, rfl, by rw [hfound]; rfl⟩
  exact hforgot ((h _).mpr hfinds)

/-- The same with both blocks evicted at once. -/
def evictedTwins : List (PoolCall FreeDigest 3) := evictedTwin.take 3 ++ [.evictBlocks [1, 2]]

/-- Evicted together, the two blocks leave an exact mirror. -/
theorem evictedTwins_mirrored : ∃ (s : EventPool FreeDigest (List FreeDigest))
    (m : Mirror FreeDigest (List FreeDigest)), EventPool.init 3 true 2 true = .ok s ∧
      run (Mirror.apply plainEnv) ⟨s, ∅⟩ evictedTwins = .ok m ∧
      ∀ m', m.apply plainEnv (.takeEvents : PoolCall FreeDigest 3) = .ok m' →
        ∀ e, e ∈ m'.observer ↔ Finds plainEnv m'.pool.toBlockPool e := by
  have heval : (do
      let s ← EventPool.init 3 true 2 true
      let m ← run (Mirror.apply plainEnv) ⟨s, ∅⟩ evictedTwins
      ensure (Along (Mirror.apply plainEnv)
        (fun m call => call.Exact plainEnv m.pool.toBlockPool) ⟨s, ∅⟩ evictedTwins) .invalidConfig
      pure m.observer) = .ok ∅ := by decide
  simp only [bind_ok_iff, ensure_eq_ok, pure_ok_iff] at heval
  obtain ⟨s, hinit, m, hrun, _, hexact, -⟩ := heval
  exact ⟨s, m, hinit, hrun, (mirrors_of_exact (by decide) hinit hexact hrun).1⟩

end Mirror

end Vllm
