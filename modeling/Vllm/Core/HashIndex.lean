import Vllm.Core.CacheInvariant
import Vllm.Core.CachingErrors
import Vllm.Core.FreshBlocks

/-!
# The hash index over whole runs

The index and the blocks' own hashes are two views of one relation, and no block is
ever given a second hash. Callers have to cache only tokens that have slots, and to
keep requests within the model length: otherwise a block that counts as cached moves
to another index of an `align` table and is met there with its old hash.
-/

namespace Vllm

open Checked

variable {H : Type} [DecidableEq H] {env : HashEnv H}

/-! ## Whole blocks -/

/-- Ceiling division reaches whole blocks that fit. -/
theorem le_cdiv_of_mul_le {n b : Nat} {a : Int} (hb : 0 < b) (h : ((n * b : Nat) : Int) ≤ a) :
    (n : Int) ≤ cdiv a b := by
  have hle := ediv_le_cdiv (a := a) (b := b) (by omega) h
  rwa [Int.natCast_mul, Int.mul_ediv_cancel _ (by omega)] at hle

/-- Whole blocks of no more tokens. -/
theorem toNat_ediv_le_cdiv {a a' b : Int} (hb : 0 < b) (ha : a' ≤ a) (h0 : 0 ≤ a) :
    ((a' / b).toNat : Int) ≤ cdiv a b := by
  have hle := ediv_le_cdiv hb ha
  have hnonneg := cdiv_nonneg hb h0
  omega

/-! ## The claim about one state -/

namespace KVCacheManager

/-- The hash index and the hashes of the blocks agree. -/
structure IndexAgrees (kv : KVCacheManager H) : Prop where
  /-- A block is stored under a key exactly when the key is its hash. -/
  stores_iff : ∀ key b,
    kv.blockPool.cachedBlockHashToBlock.Stores key b ↔ kv.blockPool.blockHash b = some key
  /-- Stored dictionaries are not empty and keyed by the ids of their blocks. -/
  wellKeyed : kv.blockPool.cachedBlockHashToBlock.WellKeyed
  /-- The null block is never stored. -/
  null_not_stored : ∀ key, ¬ kv.blockPool.cachedBlockHashToBlock.Stores key nullBlock

/-- In `align` groups caching stops before the speculative blocks. -/
def CachesWithin (kv : KVCacheManager H) (requestId : RequestId) (numComputedTokens : Int) :
    Prop :=
  ∀ m ∈ kv.singleTypeManagers, m.isAlign →
    (m.table requestId).numCached < (numComputedTokens / m.blockSize).toNat →
    (numComputedTokens / m.blockSize).toNat + m.numSpeculativeBlocks ≤ (m.row requestId).length

/-- What callers have to respect: hits within the computed tokens and, where there are
`align` groups, requests within the model length and caching only of tokens that have slots
before the speculative blocks. -/
def WithinSlots (kv : KVCacheManager H) : KVCall env → Prop
  | .allocateSlots request call => kv.HitsWithin (.allocateSlots request call) ∧
    ∀ a, kv.slotArgs request.toRequest call = .ok a → ∀ spec ∈ kv.config.kvCacheGroups,
      spec.isAlign → request.numComputedTokens + a.numNewComputedTokens +
        a.numExternalComputedTokens ≤ kv.config.maxModelLen
  | .cacheBlocks request numComputedTokens =>
    kv.CachesWithin request.requestId numComputedTokens
  | _ => True

/-- What every such call keeps: slotted tables, and no hash on fresh blocks. -/
structure Indexed (kv : KVCacheManager H) : Prop where
  tables : kv.AllTables (TableSlotted kv.config fun _ _ => 0)
  fresh : FreshUnhashed kv.config kv.blockPool kv.places
  aligned : kv.config.enableCaching → ∀ spec ∈ kv.config.kvCacheGroups,
    spec.blockSize % kv.config.hashBlockSize = 0

variable {kv kv' : KVCacheManager H}

omit [DecidableEq H] in
theorem Indexed.inOrder (h : kv.Indexed) : kv.InOrder :=
  ⟨fun m hm r => (h.tables m hm r).inOrder, h.fresh.counts, h.aligned⟩

omit [DecidableEq H] in
theorem Indexed.agrees (h : kv.Indexed) : kv.IndexAgrees where
  stores_iff := h.fresh.counts.pool.index.stores_iff
  wellKeyed := h.fresh.counts.pool.index.wellKeyed
  null_not_stored key hs := by
    rw [h.fresh.counts.pool.index.stores_iff, h.fresh.counts.pool.index.null_unhashed] at hs
    cases hs

omit [DecidableEq H] in
/-- A new manager is indexed. -/
theorem init_indexed {c : KVCacheConfig} (h : init c = .ok kv) : kv.Indexed := by
  have horder := init_inOrder h
  obtain ⟨htables, hplaces⟩ := init_tables h
  refine ⟨fun m hm r => ?_, ⟨horder.counts, fun b hb hpos => ?_, fun b hb => ?_⟩, horder.aligned⟩
  · have hempty := (htables m hm).2 r
    exact ⟨horder.tables m hm r, fun _ => by simp [hempty], fun _ ha => by simp [hempty] at ha,
      fun _ => Or.inr (by simp [hempty])⟩
  · rw [hplaces] at hpos
    cases hpos
  · rw [hplaces]
    exact Nat.zero_le 1

/-! ## Caching -/

/-- Caching the blocks of a table whose fresh blocks have no hash meets no hash. -/
private theorem noRehash_cacheFullBlocks {c : KVCacheConfig} {p : BlockPool H}
    {X : Multiset Position} {t : BlockTable} {groupId : Nat} {request : Request H}
    (h : FreshUnhashed c p (t.places groupId request.requestId + X)) (n blockSize : Nat) :
    NoRehash (p.cacheFullBlocks request t.row t.numCached n blockSize groupId) := by
  -- the blocks to cache are fresh
  have hle (b : BlockId) : ((t.row.take n).drop t.numCached).count b ≤
      freshCount (t.places groupId request.requestId + X) b := by
    rw [freshCount_add, freshCount_places, List.drop_take]
    exact ((List.take_sublist _ _).count_le b).trans (Nat.le_add_right _ _)
  refine .ite (fun _ => failsOnly_ok _) fun _ => FailsOnly.bind (noRehash_ensure rfl) fun _ _ =>
    FailsOnly.bind (noRehash_ensure rfl) fun _ _ e he => ?_
  have herr := BlockPool.cacheLoop_error (fun b hb hbn => h.unhashed b hbn
    (Nat.lt_of_lt_of_le (List.count_pos_iff.mpr hb) (hle b)))
    (fun b hbn => (hle b).trans (h.once b hbn)) he
  rw [herr]
  decide

/-- A pass of `cache_blocks` keeps an indexed manager so and meets no hash. -/
theorem Indexed.cacheBlocks (h : kv.Indexed) {request : Request H} {n : Int}
    (hwithin : kv.CachesWithin request.requestId n) :
    NoRehash (kv.cacheBlocks request n) ∧
      ∀ kv', kv.cacheBlocks request n = .ok kv' → kv'.Indexed ∧ kv'.config = kv.config := by
  have hkeep := speculativeFresh_keeps (H := H) kv.config (fun _ _ => 0) request.requestId
  constructor
  · unfold KVCacheManager.cacheBlocks
    refine .ite (fun hon => ?_) fun _ => failsOnly_ok _
    refine FailsOnly.bind ?_ fun ⟨_, _⟩ _ => failsOnly_pure _
    refine failsOnly_mapAccum_of_invariant (w := (·.places)) (v := (·.places)) (x := 0)
      (L := fun m => m ∈ kv.singleTypeManagers ∧
        TablesHold (TableSlotted kv.config fun _ _ => 0) m)
      (I := FreshUnhashed kv.config) (fun p m X p' m' hm hi hrun => ?_) (fun p m X hm hi => ?_)
      (fun m hm => ⟨hm, h.tables m hm⟩) (by simpa [places] using h.fresh)
    · exact (hkeep.manager (SingleTypeKVCacheManager.cacheBlocks_steps
        (hi.counts.caching_eq.trans hon) (fun hlt ha => hwithin m hm.1 ha hlt) hrun) hm.2 hi).2
    · rw [m.places_eq_add request.requestId, add_assoc] at hi
      exact m.noRehash_cacheBlocks p request n fun _ => noRehash_cacheFullBlocks hi _ _
  · intro kv' hrun
    obtain ⟨hl, hi, hc⟩ := cacheBlocks_keeps hkeep (fun p X hp => hp.counts.caching_eq)
      (fun m hm _ hlt ha => hwithin m hm ha hlt) h.tables h.fresh hrun
    exact ⟨⟨by rwa [hc], by rwa [hc], by rw [hc]; exact h.aligned⟩, hc⟩

/-! ## Allocating -/

omit [DecidableEq H] in
/-- Outside full attention the hits of a call cover no more than its new computed tokens. -/
theorem slotArgs_covers {request : Request H} {call : SlotCall} {a : SlotArgs}
    (h : kv.slotArgs request call = .ok a) {g : Nat} {spec : KVCacheSpec}
    (hspec : kv.config.kvCacheGroups[g]? = some spec) (hfull : spec.isFullAttention = false) :
    (((a.hits.getD g []).length * spec.blockSize : Nat) : Int) ≤ a.numNewComputedTokens := by
  unfold slotArgs at h
  simp only at h
  split at h
  · simp only [bind_ok_iff, pure_ok_iff, Prod.exists] at h
    obtain ⟨hits, n, hfind, rfl⟩ := h
    exact Int.ofNat_le.mpr (getComputedBlocks_covers hfind hspec hfull)
  · obtain rfl := Except.ok.inj h
    simp [SlotArgs.hits]

/-- `align` groups are not full attention. -/
theorem isFullAttention_of_isAlign {spec : KVCacheSpec} (h : spec.isAlign) :
    spec.isFullAttention = false := by
  unfold KVCacheSpec.isAlign at h
  unfold KVCacheSpec.isFullAttention
  split at h <;> simp_all

/-- After the allocation of new blocks every `align` table has the required length. -/
theorem length_of_allocateNewBlocks {requestId : RequestId}
    {numTokens numTokensMainModel numEncoderTokens : Int} {newBlocks : List (List BlockId)}
    (htokens : 0 ≤ numTokensMainModel)
    (hspec : ∀ m ∈ kv.singleTypeManagers, m.allocatedBlockReqs requestId →
      m.numSpeculativeBlocks ≤ (m.row requestId).length)
    (hrun : kv.allocateNewBlocks requestId numTokens numTokensMainModel numEncoderTokens =
      .ok (kv', newBlocks)) : ∀ m ∈ kv'.singleTypeManagers, m.isAlign →
      ((m.row requestId).length : Int) =
        cdiv numTokensMainModel m.blockSize + m.numSpeculativeBlocks := by
  simp only [allocateNewBlocks, bind_ok_iff, Prod.exists, pure_ok_iff, Prod.mk.injEq] at hrun
  obtain ⟨p', bs, hmap, rfl, -⟩ := hrun
  have hall := mapAccum_forall (Q := fun b => b.1.isAlign → ((b.1.row requestId).length : Int) =
    cdiv numTokensMainModel b.1.blockSize + b.1.numSpeculativeBlocks)
    (fun p m p' b hm hrun halign => ?_) hmap
  · intro m hm
    obtain ⟨b, hb, rfl⟩ := List.mem_map.mp hm
    exact hall b hb
  · -- the steps leave the spec alone
    obtain ⟨m', bs⟩ := b
    have hspec_eq := (SingleTypeKVCacheManager.allocateNewBlocks_steps (G := distinctHits)
      htokens (hspec m hm) (fun _ _ _ _ _ _ => trivial)
      (fun _ _ _ _ _ => trivial) hrun).agrees.spec_eq
    rw [SingleTypeKVCacheManager.isAlign, hspec_eq] at halign
    have hlength := (SingleTypeKVCacheManager.length_of_allocateNewBlocks
      halign (hspec m hm) hrun).2
    rw [hlength]
    simp only [SingleTypeKVCacheManager.blockSize,
      SingleTypeKVCacheManager.numSpeculativeBlocks, hspec_eq]

/-- The slots of a request for its tokens, and none of the others. -/
def slotBound (requestId : RequestId) (numTokens : Int) : RequestId → KVCacheSpec → Nat :=
  Function.update (fun _ _ => 0) requestId fun spec => (cdiv numTokens spec.blockSize).toNat

private theorem slotBound_self (requestId : RequestId) {numTokens : Int} (h : 0 ≤ numTokens)
    (spec : KVCacheSpec) :
    (slotBound requestId numTokens requestId spec : Int) = cdiv numTokens spec.blockSize := by
  have hpos := spec.blockSize_pos
  rw [slotBound, Function.update_self]
  exact Int.toNat_of_nonneg (cdiv_nonneg (by omega) (by omega))

section

variable {request : HashedRequest env} {call : SlotCall} {a : SlotArgs} {kv₁ kv₂ : KVCacheManager H}

/-- Until the blocks are allocated, the hits of a call may fill all slots of the main model. -/
theorem Indexed.joined (h : kv.Indexed) (he : env.CollisionFree)
    (hwithin : kv.WithinSlots (.allocateSlots request call))
    (ha : kv.slotArgs request.toRequest call = .ok a)
    (hskip : kv.removeSkippedBlocks request.requestId
      (kv.slotCounts request.toRequest a).totalComputedTokens = .ok kv₁)
    (hjoin : kv₁.joinHits request.toRequest a (kv.slotCounts request.toRequest a) = .ok kv₂) :
    0 ≤ (kv.slotCounts request.toRequest a).numTokensMainModel ∧
      kv₂.AllTables (TableSlotted kv.config (slotBound request.requestId
        (kv.slotCounts request.toRequest a).numTokensMainModel)) ∧
      FreshUnhashed kv.config kv₂.blockPool kv₂.places ∧ kv₂.config = kv.config := by
  obtain ⟨hnew, hext, hnonneg, hhits⟩ := slotArgs_spec h.fresh.counts.pool.index ha
  have htotal := h.inOrder.total_nonneg ha
  obtain ⟨hfit, hmodel⟩ := hwithin
  have hmodel := hmodel a ha
  have hfit := hfit a ha
  have hcovers := @slotArgs_covers _ kv request.toRequest call a ha
  have hcomputed := request.computed_nonneg
  obtain ⟨total, htotal_eq⟩ : ∃ total, total = request.numComputedTokens +
    a.numNewComputedTokens + a.numExternalComputedTokens := ⟨_, rfl⟩
  have hlocal : (kv.slotCounts request.toRequest a).numLocalComputedTokens +
      a.numExternalComputedTokens = total := by simp only [slotCounts, htotal_eq]
  -- the model length cuts nothing off where there are `align` groups
  obtain ⟨main, hmain, hmain_nonneg, hmain_le⟩ : ∃ main : Int,
      (kv.slotCounts request.toRequest a).numTokensMainModel = main ∧ 0 ≤ main ∧
        ∀ spec ∈ kv.config.kvCacheGroups, spec.isAlign → total ≤ main := by
    refine ⟨_, rfl, ?_, fun spec hspec halign => ?_⟩
    · simp only [slotCounts]
      omega
    · have := hmodel spec hspec halign
      simp only [slotCounts]
      omega
  rw [← htotal_eq] at htotal hfit
  rw [hmain]
  generalize kv.slotCounts request.toRequest a = c at *
  obtain ⟨hl₁, hi₁, hc₁⟩ := removeSkippedBlocks_keeps
    (speculativeFresh_keeps kv.config (fun _ _ => 0) _) h.tables h.fresh hskip
  replace hl₁ : kv₁.AllTables (TableSlotted kv.config (slotBound request.requestId main)) :=
    fun m hm r => (hl₁ m hm r).rebound fun _ hle => Or.inr (hle.trans (Nat.zero_le _))
  have hgroup (m : SingleTypeKVCacheManager H) (hm : m ∈ kv₁.singleTypeManagers) :=
    (hl₁ m hm 0).inOrder.group
  obtain ⟨hl₂, hi₂, hc₂⟩ := joinHits_keeps
    (speculativeFresh_keeps kv.config (slotBound request.requestId main) request.requestId)
    (hlocal ▸ htotal) (fun m hm p => by
      refine ⟨fun b hb => le_trans ((List.drop_sublist _ _).count_le b)
        (h.inOrder.hits_distinct he request.hashed (hgroup m hm)
          (hhits _ _ (hgroup m hm)) hb), fun halign => ?_⟩
      have hpos := m.blockSize_pos
      have hskipped := m.numSkippedBlocks_le htotal
      have hlength := le_cdiv_of_mul_le m.kvCacheSpec.blockSize_pos
        ((hcovers (hgroup m hm) (isFullAttention_of_isAlign halign)).trans
          (by omega : a.numNewComputedTokens ≤ total))
      have hmono : cdiv total m.blockSize ≤ cdiv main m.blockSize :=
        cdiv_mono hpos (hmain_le _ (List.mem_of_getElem? (hgroup m hm)) halign)
      have hself := slotBound_self request.requestId hmain_nonneg m.kvCacheSpec
      simp only [SingleTypeKVCacheManager.blockSize] at hskipped hmono
      rw [hlocal, List.length_drop]
      omega) (fun m hm hpos => by
      rw [hlocal] at hpos ⊢
      exact hfit _ _ (hgroup m hm) hpos) hl₁ hi₁ hjoin
  exact ⟨hmain_nonneg, hl₂, hi₂, hc₂.trans hc₁⟩

/-- The manager before the last step of `allocate_slots` is indexed, and its `align` tables
have slots for all tokens of the main model. -/
theorem Indexed.allocated (h : kv.Indexed) (he : env.CollisionFree)
    (hwithin : kv.WithinSlots (.allocateSlots request call))
    (ha : kv.slotArgs request.toRequest call = .ok a) {kv₃ : KVCacheManager H}
    {newBlocks : List (List BlockId)}
    (hskip : kv.removeSkippedBlocks request.requestId
      (kv.slotCounts request.toRequest a).totalComputedTokens = .ok kv₁)
    (hjoin : kv₁.joinHits request.toRequest a (kv.slotCounts request.toRequest a) = .ok kv₂)
    (hnewBlocks : kv₂.allocateNewBlocks request.requestId
      (kv.slotCounts request.toRequest a).numTokensNeedSlot
      (kv.slotCounts request.toRequest a).numTokensMainModel a.numEncoderTokens =
        .ok (kv₃, newBlocks)) :
    kv₃.Indexed ∧ kv₃.config = kv.config ∧
      kv₃.CachesWithin request.requestId
        (min ((kv.slotCounts request.toRequest a).totalComputedTokens + a.numNewTokens)
          request.numTokens) := by
  obtain ⟨hnonneg, hl₂, hi₂, hc₂⟩ := h.joined he hwithin ha hskip hjoin
  rw [show (kv.slotCounts request.toRequest a).totalComputedTokens + a.numNewTokens =
    (kv.slotCounts request.toRequest a).numTokensMainModel from rfl]
  generalize (kv.slotCounts request.toRequest a).numTokensMainModel = main at *
  have hself := slotBound_self request.requestId hnonneg
  have hspec (m : SingleTypeKVCacheManager H)
      (hm : TablesHold (TableSlotted kv.config (slotBound request.requestId main)) m)
      (hallocated : m.allocatedBlockReqs request.requestId) :=
    (hm request.requestId).inOrder.speculative hallocated
  obtain ⟨hl₃, hi₃, hc₃⟩ := allocateNewBlocks_keeps
    (speculativeFresh_keeps kv.config (slotBound request.requestId main) request.requestId)
    hnonneg (fun m _ => hspec m)
    (fun m _ hm halign hallocated t i hcached hle => by
      have hsettled := (hm request.requestId).settled halign hallocated
      simp only [speculativeFresh, hcached]
      simp only [SingleTypeKVCacheManager.table, SingleTypeKVCacheManager.numSpeculativeBlocks]
        at hsettled hle ⊢
      omega)
    (fun m _ hm halign t hcached hlength hlt => by
      have hpending := (hm request.requestId).pending halign
      have hself := hself m.kvCacheSpec
      simp only [speculativeFresh, hcached]
      simp only [SingleTypeKVCacheManager.table, SingleTypeKVCacheManager.numSpeculativeBlocks,
        SingleTypeKVCacheManager.blockSize] at hpending hlength hlt ⊢
      omega) hl₂ hi₂ hnewBlocks
  -- every `align` table now has all slots and the speculative blocks
  have hlength := length_of_allocateNewBlocks hnonneg (fun m hm => hspec m (hl₂ m hm)) hnewBlocks
  have hc : kv₃.config = kv.config := hc₃.trans hc₂
  refine ⟨⟨fun m hm r => ?_, by rwa [hc], by rw [hc]; exact h.aligned⟩, hc,
    fun m hm halign _ => ?_⟩
  · rw [hc]
    refine (hl₃ m hm r).rebound fun halign hle => ?_
    by_cases hr : r = request.requestId
    · have hlength := hlength m hm halign
      have hself := hself m.kvCacheSpec
      rw [hr] at hle
      simp only [hr, SingleTypeKVCacheManager.table, SingleTypeKVCacheManager.blockSize,
        SingleTypeKVCacheManager.numSpeculativeBlocks] at hlength hle ⊢
      omega
    · rw [slotBound, Function.update_of_ne hr] at hle
      exact Or.inr hle
  · have hlength := hlength m hm halign
    have hle := toNat_ediv_le_cdiv (a := main) m.blockSize_pos (min_le_left main request.numTokens)
      hnonneg
    omega

end

/-! ## Calls -/

omit [DecidableEq H] in
/-- A pass that keeps tables slotted and fresh blocks without hash. -/
theorem Indexed.of_keeps (h : kv.Indexed)
    (hkeeps : kv'.AllTables (TableSlotted kv.config fun _ _ => 0) ∧
      FreshUnhashed kv.config kv'.blockPool kv'.places ∧ kv'.config = kv.config) :
    kv'.Indexed := by
  obtain ⟨hl, hi, hc⟩ := hkeeps
  exact ⟨by rwa [hc], by rwa [hc], by rw [hc]; exact h.aligned⟩

omit [DecidableEq H] in
/-- Other indices of the same blocks leave the manager indexed when no block gets a hash. -/
theorem Indexed.of_pool (h : kv.Indexed) {p' : BlockPool H}
    (hinv : p'.PoolInv (heldCount kv.places))
    (heq : p'.numGpuBlocks = kv.blockPool.numGpuBlocks ∧
      p'.enableCaching = kv.blockPool.enableCaching ∧
      p'.hashBlockSize = kv.blockPool.hashBlockSize)
    (hhash : ∀ b, kv.blockPool.blockHash b = none → p'.blockHash b = none) :
    Indexed { kv with blockPool := p' } :=
  ⟨h.tables, ⟨h.fresh.counts.of_pool hinv heq,
    fun b hb hpos => hhash b (h.fresh.unhashed b hb hpos), h.fresh.once⟩, h.aligned⟩

/-- `allocate_slots` within the slots keeps the manager indexed and meets no hash. -/
theorem Indexed.allocateSlots (h : kv.Indexed) (he : env.CollisionFree)
    {request : HashedRequest env} {call : SlotCall}
    (hwithin : kv.WithinSlots (.allocateSlots request call)) :
    NoRehash (kv.apply (.allocateSlots request call)) ∧
      ∀ kv', kv.apply (.allocateSlots request call) = .ok kv' → kv'.Indexed := by
  have hkeep := speculativeFresh_keeps (H := H) kv.config (fun _ _ => 0) request.requestId
  constructor
  · refine FailsOnly.bind ?_ fun a ha => FailsOnly.bind ?_ fun ⟨_, _⟩ _ => failsOnly_pure _
    · exact .ite (fun _ => (kv.noRehash_getComputedBlocks _).bind fun ⟨_, _⟩ _ =>
        failsOnly_pure _) fun _ => failsOnly_ok _
    · refine noRehash_allocateSlots kv request.toRequest a
        fun kv₁ kv₂ kv₃ newBlocks h₁ h₂ h₃ => ?_
      obtain ⟨h₃, -, hcaches⟩ := h.allocated he hwithin ha h₁ h₂ h₃
      exact (h₃.cacheBlocks hcaches).1
  · intro kv' hrun
    simp only [KVCacheManager.apply, bind_ok_iff, Prod.exists, pure_ok_iff] at hrun
    obtain ⟨a, ha, kv'', result, hrun, rfl⟩ := hrun
    obtain ⟨kv₁, h₁, hrun⟩ := allocateSlots_cases hrun
    rcases hrun with ⟨-, rfl⟩ | ⟨kv₂, kv₃, newBlocks, h₂, h₃, -, hrun⟩
    · exact h.of_keeps (removeSkippedBlocks_keeps hkeep h.tables h.fresh h₁)
    obtain ⟨h₃, -, hcaches⟩ := h.allocated he hwithin ha h₁ h₂ h₃
    rcases hrun with rfl | hcache
    · exact h₃
    · exact ((h₃.cacheBlocks hcaches).2 _ hcache).1

/-- Every call within the slots keeps the manager indexed and meets no hash. -/
theorem Indexed.apply (h : kv.Indexed) (he : env.CollisionFree) {call : KVCall env}
    (hwithin : kv.WithinSlots call) :
    NoRehash (kv.apply call) ∧ ∀ kv', kv.apply call = .ok kv' → kv'.Indexed := by
  have hkeep (r : RequestId) := speculativeFresh_keeps (H := H) kv.config (fun _ _ => 0) r
  cases call with
  | allocateSlots request call => exact h.allocateSlots he hwithin
  | free requestId =>
    exact ⟨noRehash_forManagers kv fun p m => m.noRehash_free p requestId,
      fun kv' hrun => h.of_keeps (free_keeps (hkeep _) h.tables h.fresh hrun)⟩
  | removeSkippedBlocks requestId totalComputedTokens =>
    exact ⟨noRehash_forManagers kv fun p m => m.noRehash_removeSkippedBlocks p _ _,
      fun kv' hrun => h.of_keeps (removeSkippedBlocks_keeps (hkeep _) h.tables h.fresh hrun)⟩
  | cacheBlocks request numComputedTokens =>
    obtain ⟨hno, hkeeps⟩ := h.cacheBlocks hwithin
    exact ⟨hno, fun kv' hrun => (hkeeps kv' hrun).1⟩
  | evictBlocks blockIds =>
    refine ⟨FailsOnly.bind (BlockPool.noRehash_evictBlocks _ _) fun _ _ => failsOnly_pure _,
      fun kv' hrun => ?_⟩
    simp only [KVCacheManager.apply, KVCacheManager.evictBlocks, bind_ok_iff, pure_ok_iff] at hrun
    obtain ⟨p', hevict, rfl⟩ := hrun
    obtain ⟨hinv, cached, rfl⟩ := h.fresh.counts.pool.evictBlocks hevict
    refine h.of_pool hinv ⟨rfl, rfl, rfl⟩ fun b hb => ?_
    simp [hb]
  | resetPrefixCache =>
    refine ⟨failsOnly_ok _, fun kv' hrun => ?_⟩
    obtain rfl := Except.ok.inj hrun
    obtain ⟨hinv, hpool⟩ := h.fresh.counts.pool.resetPrefixCache
    change KVCacheManager.Indexed { kv with blockPool := kv.blockPool.resetPrefixCache.2 }
    generalize kv.blockPool.resetPrefixCache.2 = pool at hinv hpool ⊢
    rcases hpool with rfl | rfl
    · exact h
    · exact h.of_pool hinv ⟨rfl, rfl, rfl⟩ fun _ _ => rfl
  | newStepStarts =>
    refine ⟨failsOnly_ok _, fun kv' hrun => ?_⟩
    obtain rfl := Except.ok.inj hrun
    exact h.of_keeps (newStepStarts_keeps h.tables h.fresh)

/-- Along a run within the slots no check for a block with a hash fails, and in every state
it reaches the hash index and the hashes of the blocks agree. -/
theorem indexAgrees_of_run (he : env.CollisionFree) {c : KVCacheConfig} (hinit : init c = .ok kv)
    {calls : List (KVCall env)} (hwithin : Along apply WithinSlots kv calls) :
    NoRehash (run apply kv calls) ∧ ∀ kv', run apply kv calls = .ok kv' → kv'.IndexAgrees := by
  have hstep (kv : KVCacheManager H) (call : KVCall env) (kv' : KVCacheManager H)
      (h : kv.Indexed) (hw : kv.WithinSlots call) (hrun : kv.apply call = .ok kv') :
      kv'.Indexed := (h.apply he hw).2 kv' hrun
  exact ⟨failsOnly_run hstep (fun _ _ h hw => (h.apply he hw).1) (init_indexed hinit) hwithin,
    fun kv' hrun => (run_invariant hstep (init_indexed hinit) hwithin hrun).agrees⟩

/-! ## Runs outside the slots -/

/-- One `align` group with two speculative blocks. -/
def alignedMamba (maxModelLen : Nat) : KVCacheConfig where
  kvCacheGroups := [
    { kind := .mamba .align 2, blockSize := 1, blockSize_pos := Nat.one_pos,
      kind_valid := trivial }]
  numBlocks := 20
  hashBlockSize := 1
  maxModelLen

/-- A request with two new tokens comes and goes. -/
def comesAndGoes : List (KVCall freeEnv) := [
  .allocateSlots (countingRequest 1 10) { numNewTokens := 2 },
  .newStepStarts,
  .free 1]

/-- A run that stays within the slots. -/
theorem indexAgrees_of_comesAndGoes : ∃ kv kv' : KVCacheManager FreeDigest,
    init (alignedMamba 100) = .ok kv ∧ run apply kv comesAndGoes = .ok kv' ∧
      kv'.IndexAgrees := by
  have heval : (do
      let kv ← init (alignedMamba 100)
      let _ ← run apply kv comesAndGoes
      pure (decide (Along apply HitsWithin kv comesAndGoes))) = .ok true := by decide
  simp only [bind_ok_iff, pure_ok_iff, decide_eq_true_eq] at heval
  obtain ⟨kv, hinit, kv', hrun, hfit⟩ := heval
  have hwithin : Along apply WithinSlots kv comesAndGoes := by
    refine ⟨⟨hfit.1, fun a ha spec _ _ => ?_⟩, fun _ _ => ⟨trivial, fun _ _ =>
      ⟨trivial, fun _ _ => trivial⟩⟩⟩
    obtain rfl := Except.ok.inj ha
    exact Int.natCast_nonneg _
  exact ⟨kv, kv', hinit, hrun, (indexAgrees_of_run freeEnv_collisionFree hinit hwithin).2 kv' hrun⟩

/-- Two speculative blocks are cached by a direct call, and then move. -/
def cachedSpeculative : List (KVCall freeEnv) := [
  .allocateSlots (countingRequest 1 10) { numNewTokens := 2 },
  .cacheBlocks (countingRequest 1 10) 4,
  .allocateSlots (countingRequest 1 10 2) { numNewTokens := 4 }]

/-- Four tokens hit where the model length allows two: the hit counts as speculative. -/
def pastModelLength : List (KVCall freeEnv) := [
  .allocateSlots (countingRequest 1 4) { numNewTokens := 4 },
  .free 1,
  .newStepStarts,
  .allocateSlots (countingRequest 2 8) { useHits := true, numNewTokens := 1 },
  .allocateSlots (countingRequest 2 8 4) { numNewTokens := 4 }]

/-- A sliding window before two full-attention groups. -/
def windowFirst : KVCacheConfig where
  kvCacheGroups := [
    { kind := .slidingWindow 2, blockSize := 1, blockSize_pos := Nat.one_pos,
      kind_valid := Nat.two_pos },
    { kind := .fullAttention, blockSize := 1, rest := 0, blockSize_pos := Nat.one_pos,
      kind_valid := trivial },
    { kind := .fullAttention, blockSize := 1, rest := 1, blockSize_pos := Nat.one_pos,
      kind_valid := trivial }]
  numBlocks := 18
  hashBlockSize := 1
  maxModelLen := 100

/-- External tokens behind hits past the computed tokens, for nothing but the counter. -/
def externalBehindHits (numExternalComputedTokens : Nat) : List (KVCall freeEnv) := [
  .allocateSlots (countingRequest 2 6)
    { useHits := true, numNewTokens := 0, delayCacheBlocks := true, numExternalComputedTokens },
  .free 2]

/-- The counter grows by the size of the pool. A request then gets the tail sentinel as its
last block and caches it, and resetting the cache passes the sentinel over. -/
def cachedSentinel : List (KVCall freeEnv) :=
  [.allocateSlots (countingRequest 1 5) { numNewTokens := 5 }, .free 1,
    .evictBlocks [1, 2, 3, 4, 5]] ++
  externalBehindHits 1 ++ externalBehindHits 1 ++ externalBehindHits 1 ++ externalBehindHits 1 ++
  externalBehindHits 2 ++
  [.allocateSlots (countingRequest 3 6) { numNewTokens := 6 }, .resetPrefixCache]

/-- A run that fails. -/
theorem error_of_run {c : KVCacheConfig} {calls : List (KVCall env)} {e : KVCacheError}
    (hinit : (init (H := H) c).isOk)
    (h : (do
      let kv ← init (H := H) c
      let kv ← run apply kv calls
      pure kv.blockPool.getNumFreeBlocks) = .error e) :
    ∃ kv : KVCacheManager H, init c = .ok kv ∧ run apply kv calls = .error e := by
  rcases bind_error_iff.mp h with herr | ⟨kv, hkv, h⟩
  · rw [herr] at hinit
    cases hinit
  rcases bind_error_iff.mp h with herr | ⟨kv', -, h⟩
  · exact ⟨kv, hkv, herr⟩
  · cases h

/-- Caching past the slots and requests past the model length meet a block with a hash, and
with hits past the computed tokens a block can keep a hash that is not in the index. -/
theorem indexAgrees_fails : freeEnv.CollisionFree ∧
    (∃ kv : KVCacheManager FreeDigest, init (alignedMamba 100) = .ok kv ∧
      run apply kv cachedSpeculative = .error .blockHashNotNone) ∧
    (∃ kv : KVCacheManager FreeDigest, init (alignedMamba 2) = .ok kv ∧
      run apply kv pastModelLength = .error .blockHashNotNone) ∧
    ∃ kv kv' : KVCacheManager FreeDigest, init windowFirst = .ok kv ∧
      run apply kv cachedSentinel = .ok kv' ∧ ¬ kv'.IndexAgrees := by
  refine ⟨freeEnv_collisionFree, error_of_run (by decide) (by decide),
    error_of_run (by decide) (by decide), ?_⟩
  have heval : (do
      let kv ← init windowFirst
      let kv ← run apply kv cachedSentinel
      pure ((kv.blockPool.blockHash 19).map fun key =>
        (kv.blockPool.cachedBlockHashToBlock key).isSome)) = .ok (some false) := by decide +kernel
  simp only [bind_ok_iff, pure_ok_iff] at heval
  obtain ⟨kv, hinit, kv', hrun, hstale⟩ := heval
  refine ⟨kv, kv', hinit, hrun, fun h => ?_⟩
  obtain ⟨key, hkey, hnone⟩ := Option.map_eq_some_iff.mp hstale
  have hstored := (h.stores_iff key 19).mpr hkey
  rw [Option.isSome_eq_false_iff, Option.isNone_iff_eq_none] at hnone
  simp [BlockHashToBlockMap.Stores, hnone] at hstored

end KVCacheManager

end Vllm
