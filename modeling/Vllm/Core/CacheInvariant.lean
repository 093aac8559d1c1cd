import Vllm.Core.CacheRun

/-!
# Reference counts and free list over whole runs

In every state a run reaches, the reference counts are the numbers of places that hold
the blocks, and the free queue lists the blocks without references, linked both ways
and counted. One kind of call has to be left out: external tokens for a group whose
prefix hits reach past all computed tokens make `get_new_blocks` ask for a negative
number of blocks, which moves the counter of the queue away from its length.
-/

namespace Vllm

open Checked

variable {H : Type} {env : HashEnv H}

namespace KVCacheManager

/-- Counts and free queue agree with the block tables. -/
structure Accounted (kv : KVCacheManager H) : Prop where
  /-- The reference count of a real block is the number of places that hold it. -/
  refCnt_eq : ∀ b, b ≠ nullBlock → kv.blockPool.refCnt b = heldCount kv.places b
  /-- The queue walks over the real blocks without references, each once, and its counter
  is their number. -/
  queue : ∃ free : List BlockId, kv.blockPool.freeBlockQueue.Holds free ∧ free.Nodup ∧
    (∀ b, b ∈ free ↔
      b ≠ nullBlock ∧ b < kv.blockPool.numGpuBlocks ∧ kv.blockPool.refCnt b = 0) ∧
    kv.blockPool.getNumFreeBlocks = free.length
  /-- Following a link forward and back leads to the same block. -/
  links : ∀ a b, kv.blockPool.freeBlockQueue.links.next a = some b ↔
    kv.blockPool.freeBlockQueue.links.prev b = some a

/-- What every call keeps: tables in order, exact counts, and a configuration whose block
sizes are made of whole hash blocks. -/
structure InOrder (kv : KVCacheManager H) : Prop where
  tables : kv.AllTables (TableInOrder kv.config)
  counts : CountsPlaces kv.config kv.blockPool kv.places
  aligned : kv.config.enableCaching → ∀ spec ∈ kv.config.kvCacheGroups,
    spec.blockSize % kv.config.hashBlockSize = 0

variable {kv kv' : KVCacheManager H}

theorem InOrder.accounted (h : kv.InOrder) : kv.Accounted where
  refCnt_eq := h.counts.pool.refCnt_eq
  queue := by
    obtain ⟨free, hfree⟩ := h.counts.pool.queued
    exact ⟨free, hfree.holds, hfree.holds.nodup_free, hfree.mem_iff, hfree.counter⟩
  links := by
    obtain ⟨free, hfree⟩ := h.counts.pool.queued
    exact hfree.holds.next_eq_iff

/-! ## Construction -/

/-- The configuration checks of the constructor. -/
private theorem aligned_of_init {c : KVCacheConfig} (h : init c = .ok kv) (hc : c.enableCaching) :
    ∀ spec ∈ c.kvCacheGroups, spec.blockSize % c.hashBlockSize = 0 := by
  simp only [init, bind_ok_iff, hc, if_true] at h
  obtain ⟨pool, -, h⟩ := h
  split at h
  · rename_i spec hgroups
    simp only [bind_ok_iff, ensure_eq_ok] at h
    obtain ⟨_, heq, -⟩ := h
    intro spec' hspec'
    obtain rfl : spec' = spec := by simpa [hgroups] using hspec'
    rw [heq, Nat.mod_self]
  · simp only [bind_ok_iff, ensure_eq_ok] at h
    obtain ⟨_, hall, -⟩ := h
    exact hall

/-- A new manager has configured groups with empty tables. -/
theorem init_tables {c : KVCacheConfig} (h : init c = .ok kv) :
    (∀ m ∈ kv.singleTypeManagers, c.kvCacheGroups[m.kvCacheGroupId]? = some m.kvCacheSpec ∧
      ∀ requestId, m.table requestId = {}) ∧ kv.places = 0 := by
  obtain ⟨pool, -, rfl⟩ := init_eq_ok h
  constructor
  · intro m hm
    obtain ⟨g, hg, rfl⟩ := List.mem_map.mp hm
    exact ⟨List.mem_zipIdx_iff_getElem?.mp hg, fun _ => rfl⟩
  · simp only [places, List.map_map]
    refine List.sum_eq_zero fun X hX => ?_
    obtain ⟨g, -, rfl⟩ := List.mem_map.mp hX
    rfl

/-- A new manager is in order. -/
theorem init_inOrder {c : KVCacheConfig} (h : init c = .ok kv) : kv.InOrder := by
  obtain ⟨htables, hplaces⟩ := init_tables h
  have haligned := aligned_of_init h
  obtain ⟨pool, hpool, rfl⟩ := init_eq_ok h
  refine ⟨fun m hm requestId => ?_, ?_, haligned⟩
  · obtain ⟨hgroup, hempty⟩ := htables m hm
    rw [hempty requestId]
    exact ⟨hgroup, by simp, by simp⟩
  · rw [hplaces]
    have hinv := BlockPool.poolInv_init hpool
    simp only [BlockPool.init, bind_ok_iff, pure_ok_iff] at hpool
    obtain ⟨_, -, _, -, rfl⟩ := hpool
    exact ⟨hinv, rfl, rfl, rfl⟩

/-! ## Arguments of `allocate_slots` -/

/-- The arguments of a call: its counts, a hit length, and hits of the groups. -/
theorem slotArgs_spec (hindex : kv.blockPool.IndexInv) {request : Request H} {call : SlotCall}
    {a : SlotArgs} (h : kv.slotArgs request call = .ok a) :
    a.numNewTokens = call.numNewTokens ∧
      a.numExternalComputedTokens = call.numExternalComputedTokens ∧
      0 ≤ a.numNewComputedTokens ∧
      ∀ g spec, kv.config.kvCacheGroups[g]? = some spec →
        HitsAt kv.blockPool request.blockHashes spec g (a.hits.getD g []) := by
  unfold slotArgs at h
  simp only at h
  split at h
  · simp only [bind_ok_iff, pure_ok_iff, Prod.exists] at h
    obtain ⟨hits, n, hfind, rfl⟩ := h
    exact ⟨rfl, rfl, Int.natCast_nonneg n, fun g spec hspec =>
      getComputedBlocks_hitsAt hindex hfind hspec⟩
  · obtain rfl := Except.ok.inj h
    exact ⟨rfl, rfl, le_rfl, fun g spec _ => hitsAt_nil⟩

/-- The hits of a call are distinct in every group. -/
theorem InOrder.hits_distinct (h : kv.InOrder) (he : env.CollisionFree) {request : Request H}
    (hr : request.Hashed env) {g : Nat} {spec : KVCacheSpec}
    (hspec : kv.config.kvCacheGroups[g]? = some spec) {hits : List BlockId}
    (hhits : HitsAt kv.blockPool request.blockHashes spec g hits) {b : BlockId}
    (hb : b ≠ nullBlock) : hits.count b ≤ 1 := by
  by_cases hm : b ∈ hits
  · -- a hashed block shows that caching is on, so that block sizes are whole hash blocks
    obtain ⟨i, hi⟩ := List.mem_iff_getElem?.mp hm
    obtain ⟨blockHash, -, hkey⟩ := hhits i b hi hb
    have hon : kv.config.enableCaching = true := by
      by_contra hoff
      rw [← h.counts.caching_eq, Bool.not_eq_true] at hoff
      rw [h.counts.pool.index.unhashed_of_no_caching hoff b] at hkey
      cases hkey
    have hdvd := Nat.dvd_of_mod_eq_zero (h.aligned hon spec (List.mem_of_getElem? hspec))
    have hpos := Nat.div_pos_iff.mpr ⟨Nat.pos_of_dvd_of_pos hdvd spec.blockSize_pos,
      Nat.le_of_dvd spec.blockSize_pos hdvd⟩
    rw [← h.counts.hashBlockSize_eq] at hpos
    exact hhits.distinct he hr hpos hb
  · rw [List.count_eq_zero_of_not_mem hm]
    omega

/-! ## Calls -/

/-- The group of every manager is configured. -/
theorem AllTables.group {c : KVCacheConfig} (h : kv.AllTables (TableInOrder c))
    {m : SingleTypeKVCacheManager H} (hm : m ∈ kv.singleTypeManagers) :
    c.kvCacheGroups[m.kvCacheGroupId]? = some m.kvCacheSpec :=
  (h m hm 0).group

/-- The total of computed tokens behind a call is not negative. -/
theorem InOrder.total_nonneg (h : kv.InOrder) {request : HashedRequest env} {call : SlotCall}
    {a : SlotArgs} (ha : kv.slotArgs request.toRequest call = .ok a) :
    0 ≤ request.numComputedTokens + a.numNewComputedTokens + a.numExternalComputedTokens := by
  obtain ⟨-, hext, hnew, -⟩ := slotArgs_spec h.counts.pool.index ha
  have := request.computed_nonneg
  omega

/-- A pass that keeps tables in order and counts exact. -/
theorem InOrder.of_keeps (h : kv.InOrder) (hkeeps : kv'.AllTables (TableInOrder kv.config) ∧
    CountsPlaces kv.config kv'.blockPool kv'.places ∧ kv'.config = kv.config) : kv'.InOrder := by
  obtain ⟨hl, hi, hc⟩ := hkeeps
  exact ⟨by rwa [hc], by rwa [hc], by rw [hc]; exact h.aligned⟩

variable [DecidableEq H]

/-- No hit reaches past the computed tokens of a call that brings external tokens for its
group. -/
def HitsWithin (kv : KVCacheManager H) : KVCall env → Prop
  | .allocateSlots request call => ∀ a, kv.slotArgs request.toRequest call = .ok a →
    ∀ g spec, kv.config.kvCacheGroups[g]? = some spec →
      0 < spec.unskippedExternalTokens
        (request.numComputedTokens + a.numNewComputedTokens + a.numExternalComputedTokens)
        a.numExternalComputedTokens →
      ((a.hits.getD g []).length : Int) ≤ cdiv
        (request.numComputedTokens + a.numNewComputedTokens + a.numExternalComputedTokens)
        spec.blockSize
  | _ => True

/-- `allocate_slots` keeps the manager in order when the hits stay within the computed
tokens. -/
theorem InOrder.allocateSlots (h : kv.InOrder) (he : env.CollisionFree)
    {request : HashedRequest env} {call : SlotCall} {a : SlotArgs}
    (hfit : kv.HitsWithin (.allocateSlots request call))
    (ha : kv.slotArgs request.toRequest call = .ok a)
    {result : Option (List (List BlockId))}
    (hrun : kv.allocateSlots request.toRequest a = .ok (kv', result)) : kv'.InOrder := by
  obtain ⟨hnew, hext, -, hhits⟩ := slotArgs_spec h.counts.pool.index ha
  have htotal := h.total_nonneg ha
  have hkeep (r : RequestId) := distinctHits_keeps (H := H) kv.config r
  have hmain : 0 ≤ (kv.slotCounts request.toRequest a).numTokensMainModel := by
    simp only [slotCounts]
    omega
  obtain ⟨kv₁, hskip, hrun⟩ := allocateSlots_cases hrun
  obtain ⟨hl₁, hi₁, hc₁⟩ := removeSkippedBlocks_keeps (hkeep _) h.tables h.counts hskip
  rcases hrun with ⟨-, rfl⟩ | ⟨kv₂, kv₃, newBlocks, hjoin, hnewBlocks, -, hrun⟩
  · exact h.of_keeps ⟨hl₁, hi₁, hc₁⟩
  have hlocal : request.numComputedTokens + a.numNewComputedTokens =
      (kv.slotCounts request.toRequest a).numLocalComputedTokens := rfl
  have hfit₁ (m : SingleTypeKVCacheManager H) (hm : m ∈ kv₁.singleTypeManagers) :=
    hfit a ha m.kvCacheGroupId m.kvCacheSpec (hl₁.group hm)
  simp only [hlocal] at htotal hfit₁
  generalize kv.slotCounts request.toRequest a = c at *
  have hdistinct (m : SingleTypeKVCacheManager H) (hm : m ∈ kv₁.singleTypeManagers) (n : Nat)
      (b : BlockId) (hb : b ≠ nullBlock) :
      ((a.hits.getD m.kvCacheGroupId []).drop n).count b ≤ 1 :=
    le_trans ((List.drop_sublist _ _).count_le b)
      (h.hits_distinct he request.hashed (hl₁.group hm) (hhits _ _ (hl₁.group hm)) hb)
  obtain ⟨hl₂, hi₂, hc₂⟩ := joinHits_keeps (hkeep _) htotal
    (fun m hm p b hb => hdistinct m hm _ b hb) hfit₁ hl₁ hi₁ hjoin
  obtain ⟨hl₃, hi₃, hc₃⟩ := allocateNewBlocks_keeps (hkeep _) hmain
    (fun m hm hm' halloc => (hm' _).speculative halloc) (fun _ _ _ _ _ _ _ _ _ => trivial)
    (fun _ _ _ _ _ _ _ _ => trivial) hl₂ hi₂ hnewBlocks
  have hc : kv₃.config = kv.config := hc₃.trans (hc₂.trans hc₁)
  rcases hrun with rfl | hcache
  · exact h.of_keeps ⟨hl₃, hi₃, hc⟩
  · obtain ⟨hl₄, hi₄, hc₄⟩ := cacheBlocks_keeps (hkeep _)
      (fun p X hp => hp.caching_eq.trans (by rw [hc])) (fun _ _ _ _ => trivial) hl₃ hi₃ hcache
    exact h.of_keeps ⟨hl₄, hi₄, hc₄.trans hc⟩

/-- Every call that keeps hits within the computed tokens keeps the manager in order. -/
theorem InOrder.apply (h : kv.InOrder) (he : env.CollisionFree) {call : KVCall env}
    (hfit : kv.HitsWithin call) (hrun : kv.apply call = .ok kv') : kv'.InOrder := by
  have hkeep (r : RequestId) := distinctHits_keeps (H := H) kv.config r
  cases call with
  | allocateSlots request call =>
    simp only [KVCacheManager.apply, bind_ok_iff, Prod.exists, pure_ok_iff] at hrun
    obtain ⟨a, ha, kv₁, result, hrun, rfl⟩ := hrun
    exact h.allocateSlots he hfit ha hrun
  | free requestId => exact h.of_keeps (free_keeps (hkeep _) h.tables h.counts hrun)
  | removeSkippedBlocks requestId totalComputedTokens =>
    exact h.of_keeps (removeSkippedBlocks_keeps (hkeep _) h.tables h.counts hrun)
  | cacheBlocks request numComputedTokens =>
    exact h.of_keeps (cacheBlocks_keeps (hkeep _) (fun p X hp => hp.caching_eq)
      (fun _ _ _ _ => trivial) h.tables h.counts hrun)
  | evictBlocks blockIds =>
    simp only [KVCacheManager.apply, KVCacheManager.evictBlocks, bind_ok_iff, pure_ok_iff] at hrun
    obtain ⟨p', hevict, rfl⟩ := hrun
    obtain ⟨hinv, cached, rfl⟩ := h.counts.pool.evictBlocks hevict
    exact ⟨h.tables, h.counts.of_pool hinv ⟨rfl, rfl, rfl⟩, h.aligned⟩
  | resetPrefixCache =>
    obtain rfl := Except.ok.inj hrun
    obtain ⟨hinv, hpool⟩ := h.counts.pool.resetPrefixCache
    refine ⟨h.tables, h.counts.of_pool hinv ?_, h.aligned⟩
    rcases hpool with hpool | hpool <;>
      simp [KVCacheManager.resetPrefixCache, hpool]
  | newStepStarts =>
    obtain rfl := Except.ok.inj hrun
    exact h.of_keeps (newStepStarts_keeps h.tables h.counts)

/-- In every state that a run reaches, counts and free queue agree with the block tables,
when no call of the run has hits past the computed tokens. -/
theorem accounted_of_run (he : env.CollisionFree) {c : KVCacheConfig} (hinit : init c = .ok kv)
    {calls : List (KVCall env)} (hfit : Along apply HitsWithin kv calls)
    (hrun : run apply kv calls = .ok kv') : kv'.Accounted :=
  (run_invariant (fun _ _ _ h hfit hrun => h.apply he hfit hrun) (init_inOrder hinit) hfit
    hrun).accounted

/-- Whether a call's hits stay within its computed tokens can be computed. -/
instance decidableHitsWithin (kv : KVCacheManager H) :
    ∀ call : KVCall env, Decidable (kv.HitsWithin call)
  | .allocateSlots request call =>
    match hargs : kv.slotArgs request.toRequest call with
    | .error _ => .isTrue fun a ha => by
        rw [hargs] at ha
        cases ha
    | .ok a =>
      let total := request.numComputedTokens + a.numNewComputedTokens + a.numExternalComputedTokens
      decidable_of_iff (∀ g (hg : g < kv.config.kvCacheGroups.length),
          0 < kv.config.kvCacheGroups[g].unskippedExternalTokens total
            a.numExternalComputedTokens →
          ((a.hits.getD g []).length : Int) ≤ cdiv total kv.config.kvCacheGroups[g].blockSize) <| by
        constructor
        · intro h a' ha' g spec hspec
          obtain rfl := Except.ok.inj (hargs.symm.trans ha')
          obtain ⟨hg, rfl⟩ := List.getElem?_eq_some_iff.mp hspec
          exact h g hg
        · exact fun h g hg => h a hargs g _ (List.getElem?_eq_getElem hg)
  | .free _ | .removeSkippedBlocks .. | .cacheBlocks .. | .evictBlocks _ | .resetPrefixCache
  | .newStepStarts => .isTrue trivial

/-! ## A run with hits past the computed tokens -/

/-- The number of free blocks, as the queue counts them and as the reference counts say. -/
def freeCounts (kv : KVCacheManager H) : Int × Nat :=
  (kv.blockPool.getNumFreeBlocks, ((List.range kv.blockPool.numGpuBlocks).filter fun b =>
    b ≠ nullBlock ∧ kv.blockPool.refCnt b = 0).length)

omit [DecidableEq H] in
/-- When counts and queue agree, both numbers are the same. -/
theorem Accounted.freeCounts_eq (h : kv.Accounted) : kv.freeCounts.1 = kv.freeCounts.2 := by
  obtain ⟨free, -, hnd, hmem, hcount⟩ := h.queue
  have hperm : free.Perm ((List.range kv.blockPool.numGpuBlocks).filter fun b =>
      b ≠ nullBlock ∧ kv.blockPool.refCnt b = 0) := by
    refine (List.perm_ext_iff_of_nodup hnd (List.nodup_range.filter _)).mpr fun b => ?_
    rw [hmem]
    simp
    tauto
  rw [freeCounts, hcount, hperm.length_eq]

/-- A request over the tokens `0, …, n - 1`, hashed token by token. -/
def countingRequest (requestId : RequestId) (n : Nat) (numComputedTokens : Nat := 0) :
    HashedRequest freeEnv where
  toRequest := { Request.init freeEnv 1
    { requestId := requestId, promptTokenIds := some (List.range n) } with
    numComputedTokens := numComputedTokens }
  hashed := Request.hashed_init freeEnv Nat.one_pos _
  computed_nonneg := Int.natCast_nonneg numComputedTokens

/-- Two full-attention groups of different formats and a sliding window. -/
def twoFullAttentions : KVCacheConfig where
  kvCacheGroups := [
    { kind := .fullAttention, blockSize := 1, rest := 0, blockSize_pos := Nat.one_pos,
      kind_valid := trivial },
    { kind := .fullAttention, blockSize := 1, rest := 1, blockSize_pos := Nat.one_pos,
      kind_valid := trivial },
    { kind := .slidingWindow 2, blockSize := 1, blockSize_pos := Nat.one_pos,
      kind_valid := Nat.two_pos }]
  numBlocks := 20
  hashBlockSize := 1
  maxModelLen := 100

/-- A request is computed and freed, two of its window blocks are evicted, and a second
request with the same tokens arrives, with some external tokens. -/
def afterEviction (numExternalComputedTokens : Nat) : List (KVCall freeEnv) := [
  .allocateSlots (countingRequest 1 4) { numNewTokens := 4 },
  .free 1,
  .evictBlocks [11, 12],
  .allocateSlots (countingRequest 2 5)
    { useHits := true, numNewTokens := 1, numExternalComputedTokens }]

/-- The window shortens the hit to two tokens, but only the first full-attention group is
cut; with one external token the second one asks for minus one block. -/
theorem afterEviction_not_accounted : freeEnv.CollisionFree ∧ ∃ kv kv' : KVCacheManager FreeDigest,
    init twoFullAttentions = .ok kv ∧ run apply kv (afterEviction 1) = .ok kv' ∧
      ¬ kv'.Accounted := by
  have heval : (do
      let kv ← init twoFullAttentions
      let kv ← run apply kv (afterEviction 1)
      pure kv.freeCounts) = .ok ((10, 9) : Int × Nat) := by decide
  simp only [bind_ok_iff, pure_ok_iff] at heval
  obtain ⟨kv, hinit, kv', hrun, hcounts⟩ := heval
  refine ⟨freeEnv_collisionFree, kv, kv', hinit, hrun, fun h => ?_⟩
  have heq := h.freeCounts_eq
  rw [hcounts] at heq
  cases heq

/-- The same without an eviction: two more tokens of the second request than it hits, one of them
external. -/
def withoutEviction : List (KVCall freeEnv) := [
  .allocateSlots (countingRequest 1 4) { numNewTokens := 4 },
  .free 1,
  .allocateSlots (countingRequest 2 6)
    { useHits := true, numNewTokens := 1, numExternalComputedTokens := 1 }]

/-- The hits stay within the computed tokens, and the run stays in order. -/
theorem withoutEviction_accounted : ∃ kv kv' : KVCacheManager FreeDigest,
    init twoFullAttentions = .ok kv ∧ run apply kv withoutEviction = .ok kv' ∧
      kv'.Accounted := by
  have heval : (do
      let kv ← init twoFullAttentions
      let kv' ← run apply kv withoutEviction
      pure (decide (Along apply HitsWithin kv withoutEviction), kv'.freeCounts)) =
        .ok (true, ((5, 5) : Int × Nat)) := by decide
  simp only [bind_ok_iff, pure_ok_iff, Prod.mk.injEq, decide_eq_true_eq] at heval
  obtain ⟨kv, hinit, kv', hrun, hfit, -⟩ := heval
  exact ⟨kv, kv', hinit, hrun, accounted_of_run freeEnv_collisionFree hinit hfit hrun⟩

end KVCacheManager

end Vllm
