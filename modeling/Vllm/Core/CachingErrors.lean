import Vllm.Core.KVCacheManager

/-!
# Where a block with a hash can be met

Two checks guard against giving a block a second hash: the assertion of
`cache_full_blocks` and the one of the hash setter. No operation but the caching of
full blocks can fail in either.
-/

namespace Vllm

open Checked

variable {H : Type} [DecidableEq H]

/-- An error other than the two checks for a block that has a hash already. -/
def KVCacheError.NotRehash (e : KVCacheError) : Prop :=
  e ≠ .blockHashNotNone ∧ e ≠ .alreadyHasHash

instance : DecidablePred KVCacheError.NotRehash := fun e =>
  inferInstanceAs (Decidable (e ≠ .blockHashNotNone ∧ e ≠ .alreadyHasHash))

/-- Fails, if at all, for another reason than a block with a hash. -/
abbrev NoRehash {α : Type} (x : Except KVCacheError α) : Prop :=
  FailsOnly KVCacheError.NotRehash x

theorem KVCacheError.notRehash {e : KVCacheError} (h : decide e.NotRehash = true) :
    e.NotRehash :=
  of_decide_eq_true h

/-- A check with another error. -/
theorem noRehash_ensure {p : Prop} [Decidable p] {e : KVCacheError}
    (h : decide e.NotRehash = true) : NoRehash (ensure p e) :=
  failsOnly_ensure fun _ => KVCacheError.notRehash h

/-! ## The queue -/

namespace FreeKVCacheBlockQueue

open LinkedList

private theorem noRehash_popLoop (n : Nat) (curr : Option BlockId) (links : Links BlockId) :
    NoRehash (popLoop n curr links) := by
  induction n generalizing curr links with
  | zero => exact failsOnly_ok _
  | succ n ih =>
    cases curr with
    | none => exact failsOnly_error (KVCacheError.notRehash rfl)
    | some block => exact (ih _ _).bind fun ⟨_, _, _⟩ _ => failsOnly_pure _

private theorem noRehash_popleftN (q : FreeKVCacheBlockQueue) (n : Int) : NoRehash (q.popleftN n) :=
  .ite (fun _ => failsOnly_ok _) fun _ => FailsOnly.bind (noRehash_ensure rfl) fun _ _ =>
    (noRehash_popLoop _ _ _).bind fun ⟨_, _, _⟩ _ => failsOnly_pure _

private theorem noRehash_remove (q : FreeKVCacheBlockQueue) (block : BlockId) :
    NoRehash (q.remove block) := by
  unfold remove
  split
  · exact failsOnly_ok _
  · exact failsOnly_error (KVCacheError.notRehash rfl)

private theorem noRehash_appendN (q : FreeKVCacheBlockQueue) (blocks : List BlockId) :
    NoRehash (q.appendN blocks) := by
  unfold appendN
  split
  · exact failsOnly_ok _
  · split
    · exact failsOnly_error (KVCacheError.notRehash rfl)
    · exact failsOnly_ok _

end FreeKVCacheBlockQueue

/-! ## The pool -/

namespace BlockPool

private theorem noRehash_allocateLoop (blocks : List BlockId) (p : BlockPool H) :
    NoRehash (allocateLoop blocks p) := by
  induction blocks generalizing p with
  | nil => exact failsOnly_ok p
  | cons block blocks ih => exact FailsOnly.bind (noRehash_ensure rfl) fun _ _ => ih _

private theorem noRehash_getNewBlocks (p : BlockPool H) (n : Int) : NoRehash (p.getNewBlocks n) :=
  FailsOnly.bind (noRehash_ensure rfl) fun _ _ =>
    (p.freeBlockQueue.noRehash_popleftN n).bind fun ⟨_, _⟩ _ =>
      (noRehash_allocateLoop _ _).bind fun _ _ => failsOnly_pure _

omit [DecidableEq H] in
private theorem noRehash_touch (blocks : List BlockId) (p : BlockPool H) :
    NoRehash (touch blocks p) := by
  induction blocks generalizing p with
  | nil => exact failsOnly_ok p
  | cons block blocks ih =>
    exact FailsOnly.bind (.ite (fun _ => p.freeBlockQueue.noRehash_remove block)
      fun _ => failsOnly_ok _) fun _ _ => ih _

omit [DecidableEq H] in
private theorem noRehash_freeBlocks (p : BlockPool H) (blocks : List BlockId) :
    NoRehash (p.freeBlocks blocks) :=
  (p.freeBlockQueue.noRehash_appendN _).bind fun _ _ => failsOnly_pure _

theorem noRehash_evictBlocks (blockIds : List BlockId) (p : BlockPool H) :
    NoRehash (evictBlocks blockIds p) := by
  induction blockIds generalizing p with
  | nil => exact failsOnly_ok p
  | cons blockId blockIds ih => exact FailsOnly.bind (noRehash_ensure rfl) fun _ _ => ih _

end BlockPool

/-! ## The managers -/

namespace SingleTypeKVCacheManager

variable (p : BlockPool H) (m : SingleTypeKVCacheManager H) (requestId : RequestId)

omit [DecidableEq H] in
theorem noRehash_removeSkippedBlocks (n : Int) :
    NoRehash (m.removeSkippedBlocks p requestId n) := by
  have hbase (n : Int) : NoRehash (m.removeSkippedBlocksBase p requestId n) :=
    .ite (fun _ => failsOnly_ok _) fun _ => (p.noRehash_freeBlocks _).bind fun _ _ =>
      failsOnly_pure _
  have hlast (p : BlockPool H) (m : SingleTypeKVCacheManager H) (n : Int) :
      NoRehash (m.freeLastStateBlock p requestId n) := by
    unfold freeLastStateBlock
    split
    · exact failsOnly_ok _
    · exact .ite (fun _ => (p.noRehash_freeBlocks _).bind fun _ _ => failsOnly_pure _)
        fun _ => failsOnly_ok _
  unfold removeSkippedBlocks
  split
  · exact (hbase _).bind fun ⟨p, m⟩ _ => .ite (fun _ => hlast p m _) fun _ => failsOnly_pure _
  · exact hbase n

private theorem noRehash_getNumBlocksToAllocate (numTokens : Int) (newComputedBlocks : List BlockId)
    (totalComputedTokens numTokensMainModel : Int) :
    NoRehash (m.getNumBlocksToAllocate p requestId numTokens newComputedBlocks
      totalComputedTokens numTokensMainModel) := by
  have hbase (numTokens : Int) : NoRehash (getNumBlocksToAllocateBase p m requestId numTokens
      newComputedBlocks totalComputedTokens) :=
    .ite (fun _ => FailsOnly.bind (noRehash_ensure rfl) fun _ _ => failsOnly_pure _)
      fun _ => failsOnly_ok _
  unfold getNumBlocksToAllocate
  split
  · exact .ite (fun _ => failsOnly_ok _) fun _ => .ite (fun _ => hbase _) fun _ => failsOnly_ok _
  · exact hbase numTokens

private theorem noRehash_allocateNewComputedBlocks (newComputedBlocks : List BlockId)
    (n ext : Int) : NoRehash (m.allocateNewComputedBlocks p requestId newComputedBlocks n ext) :=
  .ite (fun _ => FailsOnly.bind (noRehash_ensure rfl) fun _ _ => failsOnly_pure _) fun _ =>
    .ite (fun _ => FailsOnly.bind (noRehash_ensure rfl) fun _ _ => failsOnly_pure _) fun _ =>
      FailsOnly.bind (noRehash_ensure rfl) fun _ _ =>
        FailsOnly.bind (noRehash_ensure rfl) fun _ _ =>
          (BlockPool.noRehash_touch _ p).bind fun p _ =>
            .ite (fun _ => (p.noRehash_getNewBlocks _).bind fun ⟨_, _⟩ _ => failsOnly_pure _)
              fun _ => failsOnly_pure _

private theorem noRehash_allocateNewBlocks (numTokens numTokensMainModel : Int) :
    NoRehash (m.allocateNewBlocks p requestId numTokens numTokensMainModel) := by
  have hbase (numTokens : Int) : NoRehash (allocateNewBlocksBase p m requestId numTokens) :=
    .ite (fun _ => failsOnly_ok _) fun _ => (p.noRehash_getNewBlocks _).bind fun ⟨_, _⟩ _ =>
      failsOnly_pure _
  unfold allocateNewBlocks
  split
  · exact .ite (fun _ => failsOnly_ok _) fun _ => FailsOnly.bind (noRehash_ensure rfl) fun _ _ =>
      FailsOnly.bind (noRehash_ensure rfl) fun _ _ =>
        (p.noRehash_getNewBlocks _).bind fun ⟨_, _⟩ _ => failsOnly_pure _
  · exact hbase _
  · exact hbase _

omit [DecidableEq H] in
theorem noRehash_free : NoRehash (m.free p requestId) :=
  (p.noRehash_freeBlocks _).bind fun _ _ => failsOnly_pure _

omit [DecidableEq H] in
private theorem noRehash_newlyCachedKeys (blocks : List BlockId) :
    NoRehash (newlyCachedKeys p blocks) := by
  induction blocks with
  | nil => exact failsOnly_ok _
  | cons block blocks ih =>
    unfold newlyCachedKeys
    split
    · exact ih
    · split
      · exact failsOnly_error (KVCacheError.notRehash rfl)
      · exact ih.bind fun _ _ => failsOnly_pure _

/-- Caching meets a block with a hash only in the pool's loop. -/
theorem noRehash_cacheBlocks (request : Request H) (n : Int)
    (h : (m.numCachedBlock request.requestId).getD 0 < (n / m.blockSize).toNat →
      NoRehash (p.cacheFullBlocks request (m.row request.requestId)
        ((m.numCachedBlock request.requestId).getD 0) (n / m.blockSize).toNat
        m.kvCacheSpec.blockSize m.kvCacheGroupId)) : NoRehash (m.cacheBlocks p request n) := by
  have hbase : NoRehash (m.cacheBlocksBase p request n) :=
    .ite (fun _ => failsOnly_ok _) fun hlt => (h (not_le.mp hlt)).bind fun _ _ => failsOnly_pure _
  unfold cacheBlocks
  split
  · exact failsOnly_error (KVCacheError.notRehash rfl)
  · exact hbase.bind fun ⟨p, m⟩ _ => (noRehash_newlyCachedKeys p _).bind fun _ _ =>
      failsOnly_pure _
  · exact hbase

end SingleTypeKVCacheManager

/-! ## Prefix hits -/

section Lookup

omit [DecidableEq H]

variable (p : BlockPool H) (blockHashes : List H) (scaleFactor : Nat) (groupIds : List Nat)

private theorem noRehash_cachedColumn (i : Nat) :
    NoRehash (cachedColumn p blockHashes scaleFactor groupIds i) := by
  unfold cachedColumn
  split
  · exact failsOnly_error (KVCacheError.notRehash rfl)
  · exact failsOnly_ok _

private theorem noRehash_slidingWindowHitLoop (contiguousBlocks blockSize alignmentTokens n : Nat)
    (computed : List (List BlockId)) (numContiguous : Nat) :
    NoRehash (slidingWindowHitLoop p blockHashes scaleFactor groupIds contiguousBlocks blockSize
      alignmentTokens n computed numContiguous) := by
  induction n generalizing computed numContiguous with
  | zero => exact failsOnly_ok _
  | succ n ih =>
    refine (noRehash_cachedColumn p blockHashes scaleFactor groupIds n).bind fun column _ => ?_
    split
    · exact ih _ _
    · exact .ite (fun _ => ih _ _) fun _ => .ite (fun _ => failsOnly_ok _) fun _ => ih _ _

private theorem noRehash_chunkedHitLoop (n i : Nat) :
    NoRehash (chunkedHitLoop p blockHashes scaleFactor groupIds n i) := by
  induction n generalizing i with
  | zero => exact failsOnly_ok _
  | succ n ih =>
    refine (noRehash_cachedColumn p blockHashes scaleFactor groupIds i).bind fun column _ => ?_
    split
    · exact failsOnly_ok _
    · exact (ih (i + 1)).bind fun _ _ => failsOnly_pure _

private theorem noRehash_mambaHitLoop (nullColumn : List BlockId)
    (blockSize alignmentTokens n : Nat) :
    NoRehash (mambaHitLoop p blockHashes scaleFactor groupIds nullColumn blockSize
      alignmentTokens n) := by
  induction n with
  | zero => exact failsOnly_ok _
  | succ n ih =>
    refine (noRehash_cachedColumn p blockHashes scaleFactor groupIds n).bind fun column _ => ?_
    split
    · exact ih
    · exact .ite (fun _ => ih) fun _ => failsOnly_ok _

private theorem noRehash_findLongestCacheHit (spec : KVCacheSpec) (maxLength : Nat)
    (useEagle : Bool) (alignmentTokens : Nat) :
    NoRehash (findLongestCacheHit spec p blockHashes maxLength groupIds
      useEagle alignmentTokens) := by
  have hcolumns : NoRehash (findHitColumns spec p blockHashes maxLength groupIds useEagle
      alignmentTokens) := by
    unfold findHitColumns
    simp only
    split
    · exact failsOnly_ok _
    · exact (noRehash_slidingWindowHitLoop p _ _ _ _ _ _ _ _ _).bind fun _ _ =>
        FailsOnly.bind (noRehash_ensure rfl) fun _ _ => failsOnly_pure _
    · exact FailsOnly.bind (noRehash_ensure rfl) fun _ _ =>
        FailsOnly.bind (noRehash_ensure rfl) fun _ _ =>
          (noRehash_chunkedHitLoop p _ _ _ _ _).bind fun _ _ => failsOnly_pure _
    · exact noRehash_mambaHitLoop p _ _ _ _ _ _ _
    · exact failsOnly_error (KVCacheError.notRehash rfl)
  exact hcolumns.bind fun _ _ => failsOnly_pure _

end Lookup

namespace KVCacheManager

variable (kv : KVCacheManager H)

omit [DecidableEq H] in
/-- Looking up prefix hits cannot meet the checks. -/
theorem noRehash_getComputedBlocks (request : Request H) :
    NoRehash (kv.getComputedBlocks request) := by
  have hpass (groups : List (KVCacheSpec × List Nat)) (n : Nat)
      (hits : Nat → Option (List BlockId)) :
      NoRehash (kv.hybridPass request.blockHashes groups n hits) := by
    induction groups generalizing n hits with
    | nil => exact failsOnly_ok _
    | cons e groups ih =>
      obtain ⟨spec, groupIds⟩ := e
      exact .ite (fun _ => ih _ _) fun _ =>
        (noRehash_findLongestCacheHit _ _ _ _ _ _ _).bind fun _ _ => ih _ _
  have hloop (fuel n : Nat) (hits : Nat → Option (List BlockId)) :
      NoRehash (kv.hybridLoop request.blockHashes fuel n hits) := by
    induction fuel generalizing n hits with
    | zero => exact failsOnly_ok _
    | succ fuel ih =>
      exact (hpass _ _ _).bind fun ⟨_, _⟩ _ => .ite (fun _ => failsOnly_pure _) fun _ =>
        .ite (fun _ => failsOnly_pure _) fun _ => ih _ _
  unfold getComputedBlocks
  simp only
  split
  · exact failsOnly_ok _
  · split
    · exact (noRehash_findLongestCacheHit _ _ _ _ _ _ _).bind fun _ _ => failsOnly_pure _
    · exact (hloop _ _ _).bind fun ⟨_, _⟩ _ => failsOnly_pure _

omit [DecidableEq H] in
/-- A pass of an operation that cannot meet the checks. -/
theorem noRehash_forManagers {f : BlockPool H → SingleTypeKVCacheManager H →
    Except KVCacheError (BlockPool H × SingleTypeKVCacheManager H)}
    (h : ∀ p m, NoRehash (f p m)) : NoRehash (kv.forManagers f) :=
  (failsOnly_mapAccum h _ _).bind fun ⟨_, _⟩ _ => failsOnly_pure _

/-- `allocate_slots` can meet the checks only in its last step. -/
theorem noRehash_allocateSlots (request : Request H) (a : SlotArgs)
    (h : ∀ kv₁ kv₂ kv₃ newBlocks,
      kv.removeSkippedBlocks request.requestId (kv.slotCounts request a).totalComputedTokens =
        .ok kv₁ →
      kv₁.joinHits request a (kv.slotCounts request a) = .ok kv₂ →
      kv₂.allocateNewBlocks request.requestId (kv.slotCounts request a).numTokensNeedSlot
        (kv.slotCounts request a).numTokensMainModel a.numEncoderTokens = .ok (kv₃, newBlocks) →
      NoRehash (kv₃.cacheBlocks request
        (min ((kv.slotCounts request a).totalComputedTokens + a.numNewTokens)
          request.numTokens))) : NoRehash (kv.allocateSlots request a) := by
  refine FailsOnly.bind (noRehash_ensure rfl) fun _ _ => ?_
  refine (noRehash_forManagers kv fun p m => m.noRehash_removeSkippedBlocks p _ _).bind
    fun kv₁ h₁ => ?_
  refine FailsOnly.bind (FailsOnly.bind (failsOnly_mapM fun m _ => ?_) fun _ _ =>
    failsOnly_pure _) fun _ _ => .ite (fun _ => failsOnly_pure _) fun _ => ?_
  · exact .ite (fun _ => m.noRehash_getNumBlocksToAllocate _ _ _ _ _ _)
      fun _ => m.noRehash_getNumBlocksToAllocate _ _ _ _ _ _
  refine FailsOnly.bind ?_ fun ⟨_, _⟩ _ => failsOnly_pure _
  refine FailsOnly.bind (.ite (fun _ => noRehash_forManagers kv₁ fun p m =>
    m.noRehash_allocateNewComputedBlocks p _ _ _ _) fun _ => failsOnly_ok _) fun kv₂ h₂ => ?_
  refine FailsOnly.bind ((failsOnly_mapAccum (fun p m => m.noRehash_allocateNewBlocks p _ _ _)
    _ _).bind fun ⟨_, _⟩ _ => failsOnly_pure _) fun ⟨kv₃, newBlocks⟩ h₃ => ?_
  exact .ite (fun _ => failsOnly_pure _) fun _ => (h kv₁ kv₂ kv₃ newBlocks h₁ h₂ h₃).bind
    fun _ _ => failsOnly_pure _

end KVCacheManager

end Vllm
