import Vllm.Core.HeldCounts

/-!
# Fresh blocks have no hash

A place is fresh while it lies behind the blocks counted as cached. A block with a
fresh place has no hash and no second fresh place, so caching it never meets a block
that has a hash already. In `align` groups this needs the speculative blocks, which
move from one index to another, to stay fresh.
-/

namespace Vllm

open Checked Masked

variable {H : Type}

/-- How many fresh places hold a block. -/
def freshCount (places : Multiset Position) (b : BlockId) : Nat :=
  places.countP fun e => e.block = b ∧ e.fresh

private theorem countP_fresh_placesFrom (groupId : Nat) (requestId : RequestId) (numCached i : Nat)
    (blocks : List BlockId) (b : BlockId) :
    (placesFrom groupId requestId numCached i blocks).countP (fun e => e.block = b ∧ e.fresh) =
      (blocks.drop (numCached - i)).count b := by
  induction blocks generalizing i with
  | nil => simp [placesFrom]
  | cons block blocks ih =>
    rw [placesFrom, List.countP_cons, ih]
    by_cases h : numCached ≤ i
    · have h0 : numCached - i = 0 := by omega
      have h1 : numCached - (i + 1) = 0 := by omega
      simp [h, h0, h1, List.count_cons]
    · obtain ⟨k, hk⟩ : ∃ k, numCached - i = k + 1 := ⟨numCached - i - 1, by omega⟩
      have h1 : numCached - (i + 1) = k := by omega
      simp [h, hk, h1]

@[simp] theorem freshCount_places (t : BlockTable) (groupId : Nat) (requestId : RequestId)
    (b : BlockId) :
    freshCount (t.places groupId requestId) b = (t.row.drop t.numCached).count b := by
  rw [freshCount, BlockTable.places, Multiset.coe_countP]
  exact countP_fresh_placesFrom _ _ _ _ _ _

@[simp] theorem freshCount_add (X Y : Multiset Position) (b : BlockId) :
    freshCount (X + Y) b = freshCount X b + freshCount Y b :=
  Multiset.countP_add _ _ _

/-- A block without places has no fresh place. -/
theorem freshCount_eq_zero {X : Multiset Position} {b : BlockId} (h : heldCount X b = 0) :
    freshCount X b = 0 := by
  rw [heldCount, Multiset.countP_eq_zero] at h
  rw [freshCount, Multiset.countP_eq_zero]
  exact fun e he hb => h e he hb.1

/-- Hits of an `align` group reach no further than `bound`, blocks that move are fresh,
and an `align` table keeps its speculative blocks behind the cached ones. -/
def speculativeFresh (bound : KVCacheSpec → Nat) : TableGuard H where
  join spec _ _ n hits := (∀ b, b ≠ nullBlock → hits.count b ≤ 1) ∧
    (spec.isAlign → n + hits.length ≤ bound spec)
  move _ _ t i := t.numCached ≤ i
  settle spec _ t := t.numCached + spec.numSpeculativeBlocks ≤ t.row.length
  cache spec _ t _ n := spec.isAlign → n + spec.numSpeculativeBlocks ≤ t.row.length

/-- The speculative blocks of an `align` table are fresh. Only hits that joined for want of
an allocation since may reach further, up to a bound for each request. -/
structure TableSlotted (c : KVCacheConfig) (bound : RequestId → KVCacheSpec → Nat)
    (spec : KVCacheSpec) (groupId : Nat) (requestId : RequestId) (t : BlockTable) : Prop where
  inOrder : TableInOrder c spec groupId requestId t
  cached_le : spec.isAlign → t.numCached ≤ t.row.length
  settled : spec.isAlign → t.allocated →
    t.numCached + spec.numSpeculativeBlocks ≤ t.row.length
  pending : spec.isAlign → t.numCached + spec.numSpeculativeBlocks ≤ t.row.length ∨
    t.numCached ≤ bound requestId spec

/-- Counts are exact, and a fresh block has no hash and one fresh place. -/
structure FreshUnhashed (c : KVCacheConfig) (p : BlockPool H) (X : Multiset Position) :
    Prop where
  counts : CountsPlaces c p X
  unhashed : ∀ b, b ≠ nullBlock → 0 < freshCount X b → p.blockHash b = none
  once : ∀ b, b ≠ nullBlock → freshCount X b ≤ 1

variable [DecidableEq H]

/-- The steps with fresh speculative blocks are steps with distinct hits. -/
theorem TableStep.mono {G G' : TableGuard H} {spec : KVCacheSpec} {groupId : Nat}
    {s s' : BlockPool H × BlockTable}
    (hjoin : ∀ p n hits, G.join spec groupId p n hits → G'.join spec groupId p n hits)
    (hmove : ∀ t i, G.move spec groupId t i → G'.move spec groupId t i)
    (hsettle : ∀ t, G.settle spec groupId t → G'.settle spec groupId t)
    (hcache : ∀ t request n, G.cache spec groupId t request n →
      G'.cache spec groupId t request n)
    (h : TableStep G spec groupId s s') : TableStep G' spec groupId s s' := by
  cases h with
  | release masks count run => exact .release masks count run
  | drop run => exact .drop run
  | join empty guard run => exact .join empty (hjoin _ _ _ guard) run
  | grow run => exact .grow run
  | pad n => exact .pad n
  | move lt guard => exact .move lt (hmove _ _ guard)
  | settle length guard => exact .settle length (hsettle _ guard)
  | cache caching new guard run => exact .cache caching new (hcache _ _ _ guard) run

section Steps

variable {c : KVCacheConfig} {bound : RequestId → KVCacheSpec → Nat} {spec : KVCacheSpec}
  {groupId : Nat} {requestId : RequestId} {p p' : BlockPool H} {t t' : BlockTable}

omit [DecidableEq H] in
/-- A table that grows with the same blocks cached stays slotted. -/
theorem TableSlotted.longer (h : TableSlotted c bound spec groupId requestId t)
    (h' : TableInOrder c spec groupId requestId t') (hcached : t'.numCached = t.numCached)
    (hallocated : t'.allocated = t.allocated) (hlength : t.row.length ≤ t'.row.length) :
    TableSlotted c bound spec groupId requestId t' where
  inOrder := h'
  cached_le ha := by rw [hcached]; exact (h.cached_le ha).trans hlength
  settled ha hal := by rw [hcached]; exact (h.settled ha (hallocated ▸ hal)).trans hlength
  pending ha := by rw [hcached]; exact (h.pending ha).imp_left fun hle => hle.trans hlength

omit [DecidableEq H] in
/-- A slotted table stays so under every bound that covers its cached blocks. -/
theorem TableSlotted.rebound {bound' : RequestId → KVCacheSpec → Nat}
    (h : TableSlotted c bound spec groupId requestId t)
    (hle : spec.isAlign → t.numCached ≤ bound requestId spec →
      t.numCached + spec.numSpeculativeBlocks ≤ t.row.length ∨
        t.numCached ≤ bound' requestId spec) :
    TableSlotted c bound' spec groupId requestId t :=
  ⟨h.inOrder, h.cached_le, h.settled, fun ha => (h.pending ha).elim Or.inl (hle ha)⟩

/-- A table stays slotted in every elementary step. -/
theorem TableSlotted.step
    (hstep : TableStep (speculativeFresh (bound requestId)) spec groupId (p, t) (p', t'))
    (h : TableSlotted c bound spec groupId requestId t)
    (h' : TableInOrder c spec groupId requestId t') :
    TableSlotted c bound spec groupId requestId t' := by
  cases hstep with
  | release masks => exact h.longer h' rfl rfl masks.length_eq.le
  | drop => exact ⟨h', by simp, by simp, by simp⟩
  | @join _ _ _ n hits empty guard =>
    refine ⟨h', fun _ => by simp, fun ha hal => ?_, fun ha => Or.inr (guard.2 ha)⟩
    -- an allocated table is empty only without speculative blocks
    have hsettled := h.settled ha hal
    rw [empty, List.length_nil] at hsettled
    simp only [List.length_append, List.length_replicate]
    omega
  | grow => exact h.longer h' rfl rfl (by simp)
  | pad n => exact h.longer h' rfl rfl (by simp)
  | move => exact h.longer h' rfl rfl (by simp)
  | settle length guard =>
    exact ⟨h', h.cached_le, fun _ _ => guard, fun _ => Or.inl guard⟩
  | cache caching new guard =>
    refine ⟨h', fun ha => ?_, fun ha _ => guard ha, fun ha => Or.inl (guard ha)⟩
    have := guard ha
    simp only
    omega

omit [DecidableEq H] in
/-- With the same hashes and no more fresh places nothing can go wrong. -/
theorem FreshUnhashed.of_le {X X' : Multiset Position} (h : FreshUnhashed c p X)
    (h' : CountsPlaces c p' X') (hhash : p'.blockHash = p.blockHash)
    (hle : ∀ b, b ≠ nullBlock → freshCount X' b ≤ freshCount X b) : FreshUnhashed c p' X' where
  counts := h'
  unhashed b hb hpos := by
    rw [hhash]
    exact h.unhashed b hb (Nat.lt_of_lt_of_le hpos (hle b hb))
  once b hb := (hle b hb).trans (h.once b hb)

/-- Moving a fresh block to the end of a table keeps it fresh. -/
private theorem count_drop_move {row : List BlockId} {i n : Nat} (hi : i < row.length) (hn : n ≤ i)
    {b : BlockId} (hb : b ≠ nullBlock) :
    (((row ++ [row.getD i nullBlock]).set i nullBlock).drop n).count b =
      (row.drop n).count b := by
  have hget : (row.drop n).getD (i - n) nullBlock = row.getD i nullBlock := by
    simp [List.getElem?_drop, Nat.add_sub_cancel' hn]
  rw [List.drop_set, if_neg (by omega), List.drop_append_of_le_length (by omega), ← hget]
  exact count_move (by rw [List.length_drop]; omega) hb

/-- Fresh blocks stay without hash in every elementary step. -/
theorem FreshUnhashed.step {X : Multiset Position}
    (hstep : TableStep (speculativeFresh (bound requestId)) spec groupId (p, t) (p', t'))
    (h : FreshUnhashed c p (t.places groupId requestId + X))
    (h' : CountsPlaces c p' (t'.places groupId requestId + X)) :
    FreshUnhashed c p' (t'.places groupId requestId + X) := by
  cases hstep with
  | release masks count run =>
    refine h.of_le h' (BlockPool.blockHash_of_freeBlocks run) fun b hb => ?_
    simpa using (masks.drop t.numCached).count_le hb
  | drop run =>
    refine h.of_le h' (BlockPool.blockHash_of_freeBlocks run) fun b hb => ?_
    simp
  | join empty guard run =>
    refine h.of_le h' (BlockPool.blockHash_of_touch run) fun b hb => ?_
    -- everything in the table counts as cached
    rw [freshCount_add, freshCount_add, freshCount_places, List.drop_of_length_le (by simp)]
    simp
  | pad n =>
    refine h.of_le h' rfl fun b hb => ?_
    simp [List.drop_append, List.count_replicate, Ne.symm hb]
  | @move _ _ i lt guard =>
    refine h.of_le h' rfl fun b hb => ?_
    rw [freshCount_add, freshCount_add, freshCount_places, freshCount_places,
      count_drop_move lt guard hb]
  | settle length guard => exact h.of_le h' rfl fun b hb => by simp
  | @grow _ _ _ n blocks run =>
    obtain ⟨-, hnd, hzero, queue, cached, rfl⟩ := h.counts.pool.of_getNewBlocks run
    have hle (b : BlockId) : ((t.row ++ blocks).drop t.numCached).count b ≤
        (t.row.drop t.numCached).count b + blocks.count b := by
      rw [List.drop_append, List.count_append]
      exact Nat.add_le_add_left ((List.drop_sublist _ _).count_le b) _
    refine ⟨h', fun b hb hpos => ?_, fun b hb => ?_⟩
    · simp only [freshCount_add, freshCount_places] at hpos
      simp only
      split
      · rfl
      · rename_i hm
        refine h.unhashed b hb ?_
        have := hle b
        rw [List.count_eq_zero_of_not_mem hm] at this
        simp only [freshCount_add, freshCount_places]
        omega
    · have honce := h.once b hb
      have hle := hle b
      simp only [freshCount_add, freshCount_places] at honce ⊢
      by_cases hm : b ∈ blocks
      · -- a new block was nowhere before
        have hnone := freshCount_eq_zero (hzero b hm).2
        have := List.count_eq_one_of_mem hnd hm
        simp only [freshCount_add, freshCount_places] at hnone
        omega
      · rw [List.count_eq_zero_of_not_mem hm] at hle
        omega
  | @cache _ _ _ request n caching new guard run =>
    obtain ⟨-, hcached⟩ := h.counts.pool.of_cacheFullBlocks caching (fun b hb hbn => by
      have := List.count_pos_iff.mpr hb
      rw [heldCount_add, heldCount_places]
      omega) new run
    -- the fresh blocks are the newly cached ones and those that stay fresh
    have hsplit (b : BlockId) : (t.row.drop t.numCached).count b =
        ((t.row.take n).drop t.numCached).count b + (t.row.drop n).count b := by
      rw [← List.count_append, List.drop_take, ← Nat.add_sub_cancel' new.le, ← List.drop_drop,
        Nat.add_sub_cancel_left, List.take_append_drop]
    refine ⟨h', fun b hb hpos => ?_, fun b hb => ?_⟩
    · have honce := h.once b hb
      have hsplit := hsplit b
      simp only [freshCount_add, freshCount_places] at hpos honce
      have hnot : b ∉ (t.row.take n).drop t.numCached := fun hm => by
        have := List.count_pos_iff.mpr hm
        omega
      rw [hcached.others b (Or.inl hnot)]
      refine h.unhashed b hb ?_
      simp only [freshCount_add, freshCount_places]
      omega
    · have honce := h.once b hb
      have hsplit := hsplit b
      simp only [freshCount_add, freshCount_places] at honce ⊢
      omega

/-- Every elementary step keeps tables slotted and fresh blocks without hash. -/
theorem speculativeFresh_keeps (c : KVCacheConfig) (bound : RequestId → KVCacheSpec → Nat)
    (requestId : RequestId) : StepsKeep (H := H) (speculativeFresh (bound requestId))
      (TableSlotted c bound) (FreshUnhashed c) requestId := by
  intro spec groupId p t p' t' X hstep hl hi
  have hdistinct : TableStep distinctHits spec groupId (p, t) (p', t') :=
    hstep.mono (fun _ _ _ h => And.left h) (fun _ _ _ => trivial) (fun _ _ => trivial)
      (fun _ _ _ _ => trivial)
  obtain ⟨horder, hcounts⟩ :=
    distinctHits_keeps c requestId spec groupId p t p' t' X hdistinct hl.inOrder hi.counts
  exact ⟨hl.step hstep horder, hi.step hstep hcounts⟩

end Steps

end Vllm
