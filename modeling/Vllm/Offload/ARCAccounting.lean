import Vllm.Offload.ARCEviction

/-!
# Where the blocks of the ARC manager are

Every hash is in at most one of the four dictionaries, and the block ids in `t1`, in
`t2` and on the free list are, in some order, the ids handed out so far. Each operation
keeps this, with two exceptions: a failed store that names a ready block forgets its
id, and a store that gives up leaves the ghost lists untrimmed.
-/

namespace Vllm.Offload.ARCOffloadingManager

variable {H : Type} [DecidableEq H] {m : ARCOffloadingManager H} {fl : Rounding}

/-- In how many of the dictionaries a hash is. -/
def copies (m : ARCOffloadingManager H) (h : H) : Nat :=
  (m.t1.get? h).isSome.toNat + (m.t2.get? h).isSome.toNat + (m.b1.get? h).isSome.toNat +
    (m.b2.get? h).isSome.toNat

omit [DecidableEq H] in
/-- The block ids of a dictionary. -/
def idsOf (t : Dict H CPUBlockStatus) : List Nat := t.entries.map fun e => e.2.blockId

omit [DecidableEq H] in
/-- The block ids in use and on the free list. -/
def blockIds (m : ARCOffloadingManager H) : List Nat :=
  idsOf m.t1 ++ (idsOf m.t2 ++ m.backend.allocatedBlocksFreeList)

/-- No hash is in two dictionaries, no block id is lost or used twice, and the target size
is within the capacity. -/
structure Consistent (m : ARCOffloadingManager H) : Prop where
  apart : ∀ h, m.copies h ≤ 1
  ids : m.blockIds.Perm (List.range m.backend.numAllocatedBlocks)
  capacity : m.cacheCapacity = m.backend.numBlocks
  target_nonneg : 0 ≤ m.targetT1Size
  target_le : m.targetT1Size ≤ m.cacheCapacity

/-- A consistent manager whose ghost lists are within the capacity. -/
structure Balanced (m : ARCOffloadingManager H) : Prop extends Consistent m where
  b1_le : m.b1.size ≤ m.cacheCapacity
  b2_le : m.b2.size ≤ m.cacheCapacity

private theorem idsOf_erase {t : Dict H CPUBlockStatus} {h : H} {block : CPUBlockStatus}
    (hget : t.get? h = some block) : (idsOf t).Perm (block.blockId :: idsOf (t.erase h)) :=
  (Dict.entries_perm_of_get? hget).map fun e : H × CPUBlockStatus => e.2.blockId

private theorem idsOf_insert_of_absent {t : Dict H CPUBlockStatus} {h : H} (hget : t.get? h = none)
    (block : CPUBlockStatus) : (idsOf (t.insert h block)).Perm (block.blockId :: idsOf t) := by
  rw [idsOf, Dict.entries_insert_of_absent hget, List.map_append]
  exact List.perm_append_singleton _ _

private theorem idsOf_insert_of_eq {t : Dict H CPUBlockStatus} {h : H} {block : CPUBlockStatus}
    (block' : CPUBlockStatus) (hget : t.get? h = some block)
    (hid : block'.blockId = block.blockId) :
    idsOf (t.insert h block') = idsOf t :=
  Dict.map_insert_of_eq (fun _ (block : CPUBlockStatus) => block.blockId) hget hid

private theorem idsOf_moveToEnd (t : Dict H CPUBlockStatus) (h : H) :
    (idsOf (t.moveToEnd h)).Perm (idsOf t) :=
  (Dict.entries_moveToEnd_perm t h).map fun e : H × CPUBlockStatus => e.2.blockId

/-! ## One change at a time -/

/-- Changing the count of a block keeps everything in place. -/
theorem Consistent.write (hm : m.Consistent) {h : H} {block : CPUBlockStatus}
    (hfind : m.find h = some block) (n : Int) :
    (m.write h { block with refCnt := n }).Consistent := by
  unfold ARCOffloadingManager.write
  split
  · rename_i hT1
    obtain ⟨block', hget⟩ := Dict.contains_eq_true.mp hT1
    obtain rfl : block' = block := by simpa [find, hget] using hfind
    refine ⟨fun h' => ?_, ?_, hm.capacity, hm.target_nonneg, hm.target_le⟩
    · have := hm.apart h'
      by_cases he : h' = h
      · subst he
        simpa [copies, hget] using this
      · simpa [copies, he] using this
    · have hids := idsOf_insert_of_eq { block' with refCnt := n } hget rfl
      simpa only [blockIds, hids] using hm.ids
  · rename_i hT1
    have hnone : m.t1.get? h = none := Dict.contains_eq_false.mp (by simpa using hT1)
    have hget : m.t2.get? h = some block := by simpa [find, hnone] using hfind
    refine ⟨fun h' => ?_, ?_, hm.capacity, hm.target_nonneg, hm.target_le⟩
    · have := hm.apart h'
      by_cases he : h' = h
      · subst he
        simpa [copies, hget] using this
      · simpa [copies, he] using this
    · have hids := idsOf_insert_of_eq { block with refCnt := n } hget rfl
      simpa only [blockIds, hids] using hm.ids

@[simp] theorem write_b1 (m : ARCOffloadingManager H) (h : H) (block : CPUBlockStatus) :
    (m.write h block).b1 = m.b1 := by
  unfold write
  split <;> rfl

@[simp] theorem write_b2 (m : ARCOffloadingManager H) (h : H) (block : CPUBlockStatus) :
    (m.write h block).b2 = m.b2 := by
  unfold write
  split <;> rfl

@[simp] theorem write_cacheCapacity (m : ARCOffloadingManager H) (h : H) (block : CPUBlockStatus) :
    (m.write h block).cacheCapacity = m.cacheCapacity := by
  unfold write
  split <;> rfl

theorem Balanced.write (hm : m.Balanced) {h : H} {block : CPUBlockStatus}
    (hfind : m.find h = some block) (n : Int) :
    (m.write h { block with refCnt := n }).Balanced where
  toConsistent := hm.toConsistent.write hfind n
  b1_le := by simpa using hm.b1_le
  b2_le := by simpa using hm.b2_le

/-- A ghost hit moves the target size within the capacity. -/
theorem targetStep_nonneg (other hit : Nat) : 0 ≤ targetStep fl other hit :=
  zero_le_one.trans (le_max_left _ _)

theorem Rounding.nonneg {x : ℚ} (h : 0 ≤ x) : 0 ≤ fl.toFun x := by
  have := fl.mono h
  rwa [show fl.toFun 0 = 0 by simpa using fl.natCast 0] at this

theorem Rounding.le_natCast {x : ℚ} {n : ℕ} (h : x ≤ n) : fl.toFun x ≤ n := by
  rw [← fl.natCast n]
  exact fl.mono h

/-- Touching a hash moves it within the dictionaries. -/
theorem Balanced.touchBlock (hm : m.Balanced) (h : H) : (m.touchBlock fl h).Balanced := by
  unfold ARCOffloadingManager.touchBlock
  cases hT1 : m.t1.get? h with
  | some block =>
    have hcopies := hm.apart h
    have hT2 : m.t2.get? h = none := by
      cases hT2 : m.t2.get? h with
      | none => rfl
      | some _ =>
        simp only [copies, hT1, hT2, Option.isSome_some, Bool.toNat_true] at hcopies
        omega
    simp only
    split
    · refine ⟨⟨fun h' => ?_, ?_, hm.capacity, hm.target_nonneg, hm.target_le⟩, hm.b1_le, hm.b2_le⟩
      · have := hm.apart h'
        by_cases he : h' = h
        · subst he
          simpa [copies, hT1] using this
        · simpa [copies, he] using this
      · refine List.Perm.trans (.append_right _ ?_) hm.ids
        exact (idsOf_insert_of_absent (by simp) block).trans (idsOf_erase hT1).symm
    · refine ⟨⟨fun h' => ?_, ?_, hm.capacity, hm.target_nonneg, hm.target_le⟩, hm.b1_le, hm.b2_le⟩
      · have := hm.apart h'
        by_cases he : h' = h
        · subst he
          simpa [copies, hT1, hT2] using this
        · simpa [copies, he] using this
      · refine List.Perm.trans ?_ hm.ids
        have hfrom := (idsOf_erase hT1).append_right
          (idsOf m.t2 ++ m.backend.allocatedBlocksFreeList)
        have hto := ((idsOf_insert_of_absent hT2 block).append_right
          m.backend.allocatedBlocksFreeList).append_left (idsOf (m.t1.erase h))
        exact (hto.trans List.perm_middle).trans hfrom.symm
  | none =>
    simp only
    split
    · refine ⟨⟨fun h' => ?_, ?_, hm.capacity, hm.target_nonneg, hm.target_le⟩, hm.b1_le, hm.b2_le⟩
      · simpa [copies] using hm.apart h'
      · exact (((idsOf_moveToEnd m.t2 h).append_right _).append_left _).trans hm.ids
    split
    · refine ⟨⟨fun h' => ?_, hm.ids, hm.capacity, ?_, min_le_right _ _⟩, ?_, hm.b2_le⟩
      · simpa [copies] using hm.apart h'
      · exact le_min (Rounding.nonneg (add_nonneg hm.target_nonneg (targetStep_nonneg _ _)))
          (Nat.cast_nonneg _)
      · simpa using hm.b1_le
    split
    · refine ⟨⟨fun h' => ?_, hm.ids, hm.capacity, le_max_right _ _, ?_⟩, hm.b1_le, ?_⟩
      · simpa [copies] using hm.apart h'
      · exact max_le (Rounding.le_natCast ((sub_le_self _ (targetStep_nonneg _ _)).trans
          hm.target_le)) (Nat.cast_nonneg _)
      · simpa using hm.b2_le
    · exact hm

/-- Evicting a block of `t1` moves its hash to `b1` and its id to the free list. -/
theorem Consistent.evictT1 (hm : m.Consistent) {e : H × CPUBlockStatus}
    (hget : m.t1.get? e.1 = some e.2) : (m.evictT1 e).Consistent := by
  refine ⟨fun h => ?_, ?_, hm.capacity, hm.target_nonneg, hm.target_le⟩
  · have hcopies := hm.apart h
    by_cases he : h = e.1
    · subst he
      simp only [copies, hget, Option.isSome_some, Bool.toNat_true] at hcopies
      simp only [copies, ARCOffloadingManager.evictT1, Dict.get?_erase, if_true, Option.isSome_none,
        Bool.toNat_false, Dict.get?_insert, Option.isSome_some, Bool.toNat_true]
      omega
    · simpa [copies, ARCOffloadingManager.evictT1, he] using hcopies
  · refine List.Perm.trans ?_ hm.ids
    have hfrom := (idsOf_erase hget).append_right
      (idsOf m.t2 ++ m.backend.allocatedBlocksFreeList)
    refine List.Perm.trans ?_ hfrom.symm
    simp only [blockIds, ARCOffloadingManager.evictT1, CPUBackend.free, ← List.append_assoc]
    exact List.perm_append_singleton _ _

/-- Evicting a block of `t2` moves its hash to `b2` and its id to the free list. -/
theorem Consistent.evictT2 (hm : m.Consistent) {e : H × CPUBlockStatus}
    (hget : m.t2.get? e.1 = some e.2) : (m.evictT2 e).Consistent := by
  refine ⟨fun h => ?_, ?_, hm.capacity, hm.target_nonneg, hm.target_le⟩
  · have hcopies := hm.apart h
    by_cases he : h = e.1
    · subst he
      simp only [copies, hget, Option.isSome_some, Bool.toNat_true] at hcopies
      simp only [copies, ARCOffloadingManager.evictT2, Dict.get?_erase, if_true, Option.isSome_none,
        Bool.toNat_false, Dict.get?_insert, Option.isSome_some, Bool.toNat_true]
      omega
    · simpa [copies, ARCOffloadingManager.evictT2, he] using hcopies
  · refine List.Perm.trans ?_ hm.ids
    have hfrom := ((idsOf_erase hget).append_right
      m.backend.allocatedBlocksFreeList).append_left (idsOf m.t1)
    refine List.Perm.trans ?_ hfrom.symm
    simp only [blockIds, ARCOffloadingManager.evictT2, CPUBackend.free, ← List.append_assoc]
    refine (List.perm_append_singleton _ _).trans ?_
    simp only [List.append_assoc]
    exact List.perm_middle.symm

/-- The eviction loop keeps the manager consistent, and what leaves `t1` or `t2` is
remembered. -/
theorem Consistent.evictAll (hm : m.Consistent) (isProtected : List H) (n : Nat) :
    (m.evictAll (m.evictedT1 isProtected n) (m.evictedT2 isProtected n)).Consistent :=
  evictAll_keeps (fun _ _ h => h.evictT1) (fun _ _ h => h.evictT2) hm n

/-- Bounding the ghost lists forgets ghosts only. -/
theorem Consistent.trimGhosts (hm : m.Consistent) : m.trimGhosts.Balanced := by
  refine ⟨⟨fun h => ?_, hm.ids, hm.capacity, hm.target_nonneg, hm.target_le⟩, ?_, ?_⟩
  · have hcopies := hm.apart h
    have hdrop : ∀ (b : Dict H Unit) (n : Nat),
        ((b.drop n).get? h).isSome.toNat ≤ (b.get? h).isSome.toNat := by
      intro b n
      cases hget : (b.drop n).get? h with
      | none => simp
      | some _ => simp [Dict.get?_of_get?_drop hget]
    have hb1 := hdrop m.b1 (m.b1.size - m.cacheCapacity)
    have hb2 := hdrop m.b2 (m.b2.size - m.cacheCapacity)
    simp only [copies, ARCOffloadingManager.trimGhosts] at hcopies ⊢
    omega
  · simp only [ARCOffloadingManager.trimGhosts, Dict.size_drop]
    omega
  · simp only [ARCOffloadingManager.trimGhosts, Dict.size_drop]
    omega

/-- Reporting changes the events only. -/
theorem Balanced.report (hm : m.Balanced) (blockHashes : List H) (removed : Bool) :
    (m.report blockHashes removed).Balanced := by
  unfold ARCOffloadingManager.report
  split
  · exact hm
  · exact ⟨⟨hm.apart, hm.ids, hm.capacity, hm.target_nonneg, hm.target_le⟩, hm.b1_le, hm.b2_le⟩

/-! ## Storing -/

/-- In the middle of a store: some allocated blocks still wait for their place in `t1`. -/
structure Storing (m : ARCOffloadingManager H) (pending : List (H × CPUBlockStatus)) : Prop where
  apart : ∀ h, m.copies h ≤ 1
  ids : (pending.map (fun e => e.2.blockId) ++ m.blockIds).Perm
    (List.range m.backend.numAllocatedBlocks)
  capacity : m.cacheCapacity = m.backend.numBlocks
  target_nonneg : 0 ≤ m.targetT1Size
  target_le : m.targetT1Size ≤ m.cacheCapacity
  b1_le : m.b1.size ≤ m.cacheCapacity
  b2_le : m.b2.size ≤ m.cacheCapacity
  nodup : (pending.map Prod.fst).Nodup
  absent : ∀ e ∈ pending, m.t1.get? e.1 = none ∧ m.t2.get? e.1 = none

/-- A block that gets its place no longer waits. -/
theorem Storing.storeBlock {e : H × CPUBlockStatus} {pending : List (H × CPUBlockStatus)}
    (hm : m.Storing (e :: pending)) : (m.storeBlock e).Storing pending := by
  obtain ⟨hT1, hT2⟩ := hm.absent e List.mem_cons_self
  have hnodup := hm.nodup
  rw [List.map_cons, List.nodup_cons] at hnodup
  refine ⟨fun h => ?_, ?_, hm.capacity, hm.target_nonneg, hm.target_le,
    (m.b1.size_erase_le _).trans hm.b1_le, (m.b2.size_erase_le _).trans hm.b2_le, hnodup.2,
    fun e' he' => ?_⟩
  · have hcopies := hm.apart h
    by_cases he : h = e.1
    · subst he
      simp [copies, ARCOffloadingManager.storeBlock, hT2]
    · simpa [copies, ARCOffloadingManager.storeBlock, he] using hcopies
  · refine List.Perm.trans ?_ hm.ids
    have hto := (idsOf_insert_of_absent hT1 e.2).append_right
      (idsOf m.t2 ++ m.backend.allocatedBlocksFreeList)
    exact (hto.append_left _).trans List.perm_middle
  · obtain ⟨hT1', hT2'⟩ := hm.absent e' (List.mem_cons_of_mem _ he')
    have hne : e'.1 ≠ e.1 := fun heq => hnodup.1 (heq ▸ List.mem_map_of_mem he')
    simp [ARCOffloadingManager.storeBlock, hne, hT1', hT2']

/-- When no block waits any more the store is done. -/
theorem Storing.foldl_storeBlock {pending : List (H × CPUBlockStatus)} (hm : m.Storing pending) :
    (pending.foldl ARCOffloadingManager.storeBlock m).Balanced := by
  induction pending generalizing m with
  | nil =>
    exact ⟨⟨hm.apart, by simpa using hm.ids, hm.capacity, hm.target_nonneg, hm.target_le⟩,
      hm.b1_le, hm.b2_le⟩
  | cons e pending ih => exact ih hm.storeBlock

/-- The end of a store keeps the manager balanced when there are enough free blocks for
hashes that are not cached. -/
theorem Balanced.storeBlocks (hm : m.trimGhosts.Balanced) {toStore toEvict : List H}
    (hfree : toStore.length ≤ m.backend.getNumFreeBlocks) (hnodup : toStore.Nodup)
    (habsent : ∀ h ∈ toStore, m.t1.get? h = none ∧ m.t2.get? h = none) :
    (m.storeBlocks toStore toEvict).1.Balanced := by
  have hreport := hm.report toEvict true
  have hfields : (m.trimGhosts.report toEvict true).t1 = m.t1 ∧
      (m.trimGhosts.report toEvict true).t2 = m.t2 ∧
      (m.trimGhosts.report toEvict true).backend = m.backend := by
    unfold ARCOffloadingManager.report
    split <;> exact ⟨rfl, rfl, rfl⟩
  unfold ARCOffloadingManager.storeBlocks
  generalize m.trimGhosts.report toEvict true = m' at hreport hfields
  obtain ⟨hT1, hT2, hbackend⟩ := hfields
  rw [← hbackend] at hfree
  obtain ⟨blocks, backend, hallocate, hlen, -, hblocks, hids, hallocated⟩ :=
    CPUBackend.allocateBlocks_spec (H := H) hfree
  simp only [hallocate]
  have hzipIds : (toStore.zip blocks).map (fun e => e.2.blockId) =
      blocks.map CPUBlockStatus.blockId := by
    have hsnd : (toStore.zip blocks).map Prod.snd = blocks := List.map_snd_zip hlen.le
    calc (toStore.zip blocks).map (fun e => e.2.blockId)
      _ = ((toStore.zip blocks).map Prod.snd).map CPUBlockStatus.blockId := by
        rw [List.map_map]
        rfl
      _ = blocks.map CPUBlockStatus.blockId := by rw [hsnd]
  have hzipKeys : (toStore.zip blocks).map Prod.fst = toStore := List.map_fst_zip hlen.ge
  refine Storing.foldl_storeBlock ⟨hreport.apart, ?_, ?_, hreport.target_nonneg, hreport.target_le,
    hreport.b1_le, hreport.b2_le, ?_, fun e he => ?_⟩
  · have hold := hreport.ids
    simp only [blockIds] at hold ⊢
    rw [hzipIds, hallocated, List.range_add]
    -- the ids of the blocks move in front of the new free list, whose ids are known
    refine List.Perm.trans ?_ (hold.append_right _)
    simp only [← List.append_assoc]
    refine List.Perm.trans ?_ ((hids.append_left (idsOf m'.t1 ++ idsOf m'.t2)).trans
      (.of_eq (by simp only [List.append_assoc])))
    simp only [List.append_assoc]
    exact List.perm_append_comm_assoc _ _ _ |>.trans
      ((List.perm_append_comm_assoc _ _ _).append_left _)
  · exact hreport.capacity.trans hblocks.symm
  · rwa [hzipKeys]
  · simp only
    rw [hT1, hT2]
    exact habsent e.1 (hzipKeys ▸ List.mem_map_of_mem he)

/-- A store that gives up leaves ghost lists within the capacity. -/
def GhostsFit (m : ARCOffloadingManager H) (blockHashes : List H) : Prop :=
  m.b1.size + m.roomT1 blockHashes ≤ m.cacheCapacity ∧
    m.b2.size + (m.victimsT2 blockHashes).length ≤ m.cacheCapacity

instance (m : ARCOffloadingManager H) (blockHashes : List H) :
    Decidable (m.GhostsFit blockHashes) :=
  inferInstanceAs (Decidable (_ ∧ _))

/-- A store keeps the manager balanced unless it gives up behind evictions that the ghost
lists have no room for. -/
theorem Balanced.prepareStore (hm : m.Balanced) {blockHashes : List H} (hnodup : blockHashes.Nodup)
    (hfit : m.room blockHashes < m.needed blockHashes → m.GhostsFit blockHashes) :
    (m.prepareStore blockHashes).1.Balanced := by
  have hconsistent : (m.evicted blockHashes).Consistent :=
    hm.toConsistent.evictAll blockHashes (m.needed blockHashes)
  rw [prepareStore_eq]
  split
  · exact hm
  split
  · rename_i hroom
    refine hconsistent.trimGhosts.storeBlocks (length_le_getNumFreeBlocks hroom)
      (hnodup.filter _) fun h hh => ?_
    obtain ⟨_, hT1, hT2⟩ := mem_hashesToStore.mp hh
    exact evicted_absent hT1 hT2
  · rename_i hroom
    obtain ⟨hB1, hB2⟩ := hfit (Nat.lt_of_not_le hroom)
    have hsizeB1 := size_rememberAll_le m.b1
      ((m.evictedT1 blockHashes (m.needed blockHashes)).map Prod.fst)
    have hsizeB2 := size_rememberAll_le m.b2
      ((m.evictedT2 blockHashes (m.needed blockHashes)).map Prod.fst)
    rw [List.length_map, length_evictedT1] at hsizeB1
    rw [List.length_map, length_evictedT2] at hsizeB2
    refine ⟨hconsistent, ?_, ?_⟩
    · rw [evicted, evictAll_eq]
      simp only
      omega
    · rw [evicted, evictAll_eq]
      simp only
      omega

/-! ## The other calls -/

/-- Marking blocks as stored keeps the manager balanced. -/
theorem Balanced.markStored (hm : m.Balanced) (blockHashes stored : List H) :
    (markStored m blockHashes stored).1.Balanced := by
  induction blockHashes generalizing m stored with
  | nil => exact hm
  | cons h rest ih =>
    unfold ARCOffloadingManager.markStored
    cases hfind : m.find h with
    | none => exact ih hm _
    | some block =>
      simp only
      split
      · exact ih hm _
      · exact ih (hm.write hfind 0) _

/-- A hash that has no ready block. -/
def NotReady (m : ARCOffloadingManager H) (h : H) : Prop :=
  (m.find h).all (fun block => !block.isReady) = true

instance (m : ARCOffloadingManager H) (h : H) : Decidable (m.NotReady h) :=
  inferInstanceAs (Decidable (_ = true))

/-- Popping a hash whose block is not ready frees its id. -/
theorem Balanced.dropBlock (hm : m.Balanced) {h : H} (hready : m.NotReady h) :
    (m.dropBlock h).Balanced := by
  unfold ARCOffloadingManager.dropBlock
  unfold NotReady find at hready
  cases hT1 : m.t1.get? h with
  | some block =>
    have hblock : block.isReady = false := by simpa [hT1] using hready
    simp only [hblock, Bool.false_eq_true, if_false]
    refine ⟨⟨fun h' => ?_, ?_, hm.capacity, hm.target_nonneg, hm.target_le⟩, hm.b1_le, hm.b2_le⟩
    · have hcopies := hm.apart h'
      simp only [copies, Dict.get?_erase] at hcopies ⊢
      split <;> simp <;> omega
    · refine List.Perm.trans ?_ hm.ids
      have hfrom := (idsOf_erase hT1).append_right
        (idsOf m.t2 ++ m.backend.allocatedBlocksFreeList)
      refine List.Perm.trans ?_ hfrom.symm
      simp only [blockIds, CPUBackend.free, ← List.append_assoc]
      exact List.perm_append_singleton _ _
  | none =>
    cases hT2 : m.t2.get? h with
    | some block =>
      have hblock : block.isReady = false := by simpa [hT1, hT2] using hready
      simp only [hblock, Bool.false_eq_true, if_false]
      refine ⟨⟨fun h' => ?_, ?_, hm.capacity, hm.target_nonneg, hm.target_le⟩, hm.b1_le, hm.b2_le⟩
      · have hcopies := hm.apart h'
        simp only [copies, Dict.get?_erase] at hcopies ⊢
        split <;> simp <;> omega
      · refine List.Perm.trans ?_ hm.ids
        have hfrom := ((idsOf_erase hT2).append_right
          m.backend.allocatedBlocksFreeList).append_left (idsOf m.t1)
        refine List.Perm.trans ?_ hfrom.symm
        simp only [blockIds, CPUBackend.free, ← List.append_assoc]
        refine (List.perm_append_singleton _ _).trans ?_
        simp only [List.append_assoc]
        exact List.perm_middle.symm
    | none => exact hm

/-- Popping a hash gives no other hash a block. -/
theorem NotReady.dropBlock (hm : m.Consistent) {h h' : H} (hready : m.NotReady h') :
    (m.dropBlock h).NotReady h' := by
  unfold ARCOffloadingManager.dropBlock
  have hcopies := hm.apart h
  unfold NotReady find at *
  cases hT1 : m.t1.get? h with
  | some block =>
    by_cases he : h' = h
    · subst he
      have hT2 : m.t2.get? h' = none := by
        cases hT2 : m.t2.get? h' with
        | none => rfl
        | some _ =>
          simp only [copies, hT1, hT2, Option.isSome_some, Bool.toNat_true] at hcopies
          omega
      simp [hT2]
    · simpa [he] using hready
  | none =>
    cases hT2 : m.t2.get? h with
    | some block =>
      by_cases he : h' = h
      · simp [he, hT1]
      · simpa [he] using hready
    | none => exact hready

/-- A failed store keeps the manager balanced when it names no ready block. -/
theorem Balanced.foldl_dropBlock (hm : m.Balanced) {blockHashes : List H}
    (hready : ∀ h ∈ blockHashes, m.NotReady h) :
    (blockHashes.foldl ARCOffloadingManager.dropBlock m).Balanced := by
  induction blockHashes generalizing m with
  | nil => exact hm
  | cons h rest ih =>
    have hh := hready h List.mem_cons_self
    exact ih (hm.dropBlock hh) fun h' hh' =>
      (hready h' (List.mem_cons_of_mem _ hh')).dropBlock hm.toConsistent

/-- Touching hashes keeps the manager balanced. -/
theorem Balanced.touch (hm : m.Balanced) (blockHashes : List H) :
    (m.touch fl blockHashes).Balanced := by
  unfold ARCOffloadingManager.touch
  generalize blockHashes.reverse = l
  induction l generalizing m with
  | nil => exact hm
  | cons h rest ih => exact ih (hm.touchBlock h)

/-! ## Runs -/

/-- A call that loses nothing: a store that gives up leaves ghost lists within the capacity,
and a failed store names no ready block. -/
def LosesNothing (m : ARCOffloadingManager H) : ManagerCall H → Prop
  | .prepareStore blockHashes =>
    m.room blockHashes < m.needed blockHashes → m.GhostsFit blockHashes
  | .completeStore blockHashes false => ∀ h ∈ blockHashes, m.NotReady h
  | _ => True

instance decidableLosesNothing (m : ARCOffloadingManager H) :
    ∀ c, Decidable (m.LosesNothing c)
  | .prepareStore _ => inferInstanceAs (Decidable (_ → _))
  | .completeStore _ false => inferInstanceAs (Decidable (∀ h ∈ _, _))
  | .completeStore _ true => .isTrue trivial
  | .lookup _ => .isTrue trivial
  | .prepareLoad _ => .isTrue trivial
  | .touch _ => .isTrue trivial
  | .completeLoad _ => .isTrue trivial
  | .takeEvents => .isTrue trivial

/-- Every call that loses nothing keeps the manager balanced. -/
theorem Balanced.call (hm : m.Balanced) {c : ManagerCall H} (hdistinct : c.DistinctHashes)
    (hc : m.LosesNothing c) : (m.call fl c).Balanced := by
  cases c with
  | lookup blockHashes => exact hm
  | prepareLoad blockHashes =>
    exact holdBlocks_keeps (fun _ _ _ _ hm hfind => hm.write hfind _) hm _ _
  | touch blockHashes => exact hm.touch blockHashes
  | completeLoad blockHashes =>
    exact releaseBlocks_keeps (fun _ _ _ _ hm hfind => hm.write hfind _) hm _
  | prepareStore blockHashes => exact hm.prepareStore hdistinct hc
  | completeStore blockHashes success =>
    cases success with
    | true => exact (hm.markStored blockHashes []).report _ _
    | false => exact hm.foldl_dropBlock hc
  | takeEvents =>
    exact ⟨⟨hm.apart, hm.ids, hm.capacity, hm.target_nonneg, hm.target_le⟩, hm.b1_le, hm.b2_le⟩

private theorem balanced_init (blockSize numBlocks : Nat) (enableEvents : Bool) :
    (init (H := H) blockSize numBlocks enableEvents).Balanced := by
  refine ⟨⟨fun h => ?_, .refl _, ?_, le_rfl, Nat.cast_nonneg _⟩, Nat.zero_le _, Nat.zero_le _⟩
  · simp [copies, init]
  · simp [init, CPUBackend.getNumFreeBlocks, CPUBackend.init]

/-- Every block is accounted for: the dictionaries share no hash, the ghost lists and the
target size are within the capacity, no two cached blocks have one id, no cached block is
on the free list, and the blocks that are free or cached are all there are. -/
structure Accounted (m : ARCOffloadingManager H) : Prop where
  disjoint : [m.t1.keys, m.t2.keys, m.b1.keys, m.b2.keys].Pairwise List.Disjoint
  b1_le : m.b1.size ≤ m.cacheCapacity
  b2_le : m.b2.size ≤ m.cacheCapacity
  target_nonneg : 0 ≤ m.targetT1Size
  target_le : m.targetT1Size ≤ m.cacheCapacity
  ids_nodup : ((m.t1.values ++ m.t2.values).map CPUBlockStatus.blockId).Nodup
  ids_not_free : ∀ block ∈ m.t1.values ++ m.t2.values,
    block.blockId ∉ m.backend.allocatedBlocksFreeList
  total : m.backend.getNumFreeBlocks + m.t1.size + m.t2.size = m.cacheCapacity

/-- A balanced manager has every block accounted for. -/
theorem Balanced.accounted (hm : m.Balanced) : m.Accounted := by
  have hids : m.blockIds = (m.t1.values ++ m.t2.values).map CPUBlockStatus.blockId ++
      m.backend.allocatedBlocksFreeList := by
    simp [blockIds, idsOf, Dict.values, Function.comp_def]
  have hnodup : m.blockIds.Nodup := hm.ids.nodup_iff.mpr List.nodup_range
  rw [hids, List.nodup_append] at hnodup
  refine ⟨?_, hm.b1_le, hm.b2_le, hm.target_nonneg, hm.target_le, hnodup.1, ?_, ?_⟩
  · have hapart := hm.apart
    unfold copies at hapart
    simp only [List.pairwise_cons, List.mem_cons, List.not_mem_nil, or_false, forall_eq_or_imp,
      forall_eq, false_imp_iff, implies_true, and_true, List.Pairwise.nil]
    refine ⟨⟨?_, ?_, ?_⟩, ⟨?_, ?_⟩, ?_⟩ <;> refine Dict.disjoint_keys fun h => ?_
    all_goals
      have := hapart h
      omega
  · intro block hblock hfree
    exact hnodup.2.2 _ (List.mem_map_of_mem hblock) _ hfree rfl
  · have hlen := hm.ids.length_eq
    have hle := m.backend.allocated_le
    have hcap := hm.capacity
    simp only [blockIds, idsOf, List.length_append, List.length_map, List.length_range] at hlen
    simp only [CPUBackend.getNumFreeBlocks, Dict.size]
    omega

/-- In every run whose stores have distinct hashes each and whose calls lose nothing, every
block is accounted for in the state behind the run. -/
theorem run_accounted (fl : Rounding) (blockSize numBlocks : Nat) (enableEvents : Bool)
    (calls : List (ManagerCall H)) (hdistinct : ∀ c ∈ calls, c.DistinctHashes)
    (hsafe : TotalRun.Throughout (call fl) LosesNothing (init blockSize numBlocks enableEvents)
      calls) :
    ((init blockSize numBlocks enableEvents).run fl calls).Accounted := by
  have hboth := hsafe.and (TotalRun.throughout_of_mem hdistinct _)
  refine Balanced.accounted ?_
  exact TotalRun.invariant (fun m c hm hc => hm.call hc.2 hc.1)
    (balanced_init blockSize numBlocks enableEvents) hboth

/-- The calls of a run that fills two blocks, reads one of them again, stores a third hash in
the place of the other, and fails to store a fourth. -/
def turnover : List (ManagerCall Nat) :=
  [.prepareStore [1, 2], .completeStore [1, 2] true, .touch [2], .prepareLoad [2],
    .prepareStore [3], .completeStore [3] true, .completeLoad [2], .prepareStore [4, 2],
    .completeStore [4] false]

theorem turnover_accounted :
    ((init 16 2 true).run Rounding.identity turnover).Accounted :=
  run_accounted Rounding.identity 16 2 true turnover (by decide) (by decide)

/-- The calls of a run that stores two hashes and then fails to store one of them again. -/
def failedStore : List (ManagerCall Nat) :=
  [.prepareStore [1, 2], .completeStore [1, 2] true, .completeStore [1] false]

/-- A failed store that names a ready block loses its id: behind it one of the two blocks is
neither cached nor free. -/
theorem failedStore_leaks : (∀ c ∈ failedStore, c.DistinctHashes) ∧
    ¬ ((init 16 2 true).run Rounding.identity failedStore).Accounted := by
  refine ⟨by decide, fun h => ?_⟩
  have htotal := h.total
  revert htotal
  decide

end Vllm.Offload.ARCOffloadingManager
