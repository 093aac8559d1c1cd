import Vllm.Core.HeldCounts
import Vllm.Core.PrefixHits

/-!
# Runs of the KV cache manager

A run builds a manager and calls it any number of times. Requests come with block
hashes made by the hasher; the prefix hits of a call are those looked up just before,
or none. A call whose check fails ends the run. Passes over the managers keep what
their elementary steps keep.
-/

namespace Vllm

open Checked

variable {H : Type} [DecidableEq H]

/-! ## Calls -/

/-- A request as the scheduler hands it to the KV cache manager. -/
structure HashedRequest (env : HashEnv H) extends Request H where
  hashed : toRequest.Hashed env
  computed_nonneg : 0 ≤ toRequest.numComputedTokens

/-- The choices of one `allocate_slots` call. -/
structure SlotCall where
  /-- Pass the hits `get_computed_blocks` returns just before. -/
  useHits : Bool := false
  numNewTokens : Nat
  numLookaheadTokens : Nat := 0
  numExternalComputedTokens : Nat := 0
  numEncoderTokens : Nat := 0
  delayCacheBlocks : Bool := false
  deriving DecidableEq, Repr

/-- The calls of a run. -/
inductive KVCall (env : HashEnv H) where
  | allocateSlots (request : HashedRequest env) (call : SlotCall)
  | free (requestId : RequestId)
  | removeSkippedBlocks (requestId : RequestId) (totalComputedTokens : Int)
  | cacheBlocks (request : HashedRequest env) (numComputedTokens : Int)
  | evictBlocks (blockIds : List BlockId)
  | resetPrefixCache
  | newStepStarts

namespace KVCacheManager

/-- The arguments of a call of `allocate_slots`. -/
def slotArgs (kv : KVCacheManager H) (request : Request H) (call : SlotCall) :
    Except KVCacheError SlotArgs :=
  let args : SlotArgs :=
    { numNewTokens := call.numNewTokens
      numLookaheadTokens := call.numLookaheadTokens
      numExternalComputedTokens := call.numExternalComputedTokens
      numEncoderTokens := call.numEncoderTokens
      delayCacheBlocks := call.delayCacheBlocks }
  if call.useHits then do
    let (hits, numNewComputedTokens) ← kv.getComputedBlocks request
    pure { args with
      newComputedBlocks := some hits, numNewComputedTokens := numNewComputedTokens }
  else .ok args

/-- The state after one call. -/
def apply {env : HashEnv H} (kv : KVCacheManager H) :
    KVCall env → Except KVCacheError (KVCacheManager H)
  | .allocateSlots request call => do
    let args ← kv.slotArgs request.toRequest call
    let (kv, _) ← kv.allocateSlots request.toRequest args
    pure kv
  | .free requestId => kv.free requestId
  | .removeSkippedBlocks requestId totalComputedTokens =>
    kv.removeSkippedBlocks requestId totalComputedTokens
  | .cacheBlocks request numComputedTokens =>
    kv.cacheBlocks request.toRequest numComputedTokens
  | .evictBlocks blockIds => kv.evictBlocks blockIds
  | .resetPrefixCache => .ok kv.resetPrefixCache.2
  | .newStepStarts => .ok kv.newStepStarts

/-- All places of all groups. -/
def places (kv : KVCacheManager H) : Multiset Position :=
  (kv.singleTypeManagers.map (·.places)).sum

/-- A local property of all tables of all groups. -/
def AllTables (L : TableProp) (kv : KVCacheManager H) : Prop :=
  ∀ m ∈ kv.singleTypeManagers, TablesHold L m

/-! ## The parts of `allocate_slots` -/

/-- A successful `allocate_slots` first releases skipped blocks and then either stops for
want of blocks or joins hits, allocates, and perhaps caches. -/
theorem allocateSlots_cases {kv kv' : KVCacheManager H} {request : Request H} {a : SlotArgs}
    {result : Option (List (List BlockId))}
    (h : kv.allocateSlots request a = .ok (kv', result)) :
    ∃ kv₁, kv.removeSkippedBlocks request.requestId
        (kv.slotCounts request a).totalComputedTokens = .ok kv₁ ∧
      ((result = none ∧ kv' = kv₁) ∨ ∃ kv₂ kv₃ newBlocks,
        kv₁.joinHits request a (kv.slotCounts request a) = .ok kv₂ ∧
        kv₂.allocateNewBlocks request.requestId (kv.slotCounts request a).numTokensNeedSlot
          (kv.slotCounts request a).numTokensMainModel a.numEncoderTokens =
            .ok (kv₃, newBlocks) ∧
        result = some newBlocks ∧ (kv' = kv₃ ∨ kv₃.cacheBlocks request
          (min ((kv.slotCounts request a).totalComputedTokens + a.numNewTokens)
            request.numTokens) = .ok kv')) := by
  simp only [allocateSlots, bind_ok_iff] at h
  obtain ⟨_, -, kv₁, hskip, _, -, h⟩ := h
  refine ⟨kv₁, hskip, ?_⟩
  split at h
  · obtain ⟨rfl, rfl⟩ := Prod.mk.inj (pure_ok_iff.mp h)
    exact Or.inl ⟨rfl, rfl⟩
  · simp only [bind_ok_iff, pure_ok_iff, commitSlots, Prod.exists, Prod.mk.injEq] at h
    obtain ⟨kv'', blocks, ⟨kv₂, hjoin, kv₃, newBlocks, hnew, h⟩, rfl, rfl⟩ := h
    refine Or.inr ⟨kv₂, kv₃, newBlocks, hjoin, hnew, ?_⟩
    split at h
    · obtain ⟨rfl, rfl⟩ := Prod.mk.inj (pure_ok_iff.mp h)
      exact ⟨rfl, Or.inl rfl⟩
    · simp only [bind_ok_iff, pure_ok_iff, Prod.mk.injEq] at h
      obtain ⟨kv₄, hcache, rfl, rfl⟩ := h
      exact ⟨rfl, Or.inr hcache⟩

/-! ## Passes -/

section Passes

variable {G : TableGuard H} {L : TableProp}
  {I : BlockPool H → Multiset Position → Prop} {kv kv' : KVCacheManager H}

/-- A pass whose operation consists of elementary steps keeps what these keep. -/
theorem forManagers_keeps {requestId : RequestId} (hk : StepsKeep G L I requestId)
    {f : BlockPool H → SingleTypeKVCacheManager H →
      Except KVCacheError (BlockPool H × SingleTypeKVCacheManager H)}
    (hf : ∀ p m p' m' X, m ∈ kv.singleTypeManagers → TablesHold L m → I p (m.places + X) →
      f p m = .ok (p', m') → ManagerSteps G requestId p m p' m')
    (hl : kv.AllTables L) (hi : I kv.blockPool kv.places) (hrun : kv.forManagers f = .ok kv') :
    kv'.AllTables L ∧ I kv'.blockPool kv'.places ∧ kv'.config = kv.config := by
  simp only [forManagers, bind_ok_iff, Prod.exists, pure_ok_iff] at hrun
  obtain ⟨p', ms', hmap, rfl⟩ := hrun
  obtain ⟨hl', hi'⟩ := hk.pass id hf hl hi hmap
  simp only [List.map_id] at hl' hi'
  exact ⟨hl', hi', rfl⟩

theorem removeSkippedBlocks_keeps {requestId : RequestId} (hk : StepsKeep G L I requestId)
    {n : Int} (hl : kv.AllTables L) (hi : I kv.blockPool kv.places)
    (hrun : kv.removeSkippedBlocks requestId n = .ok kv') :
    kv'.AllTables L ∧ I kv'.blockPool kv'.places ∧ kv'.config = kv.config :=
  forManagers_keeps hk (fun _ _ _ _ _ _ _ _ h =>
    SingleTypeKVCacheManager.removeSkippedBlocks_steps h) hl hi hrun

theorem free_keeps {requestId : RequestId} (hk : StepsKeep G L I requestId)
    (hl : kv.AllTables L) (hi : I kv.blockPool kv.places)
    (hrun : kv.free requestId = .ok kv') :
    kv'.AllTables L ∧ I kv'.blockPool kv'.places ∧ kv'.config = kv.config :=
  forManagers_keeps hk (fun _ _ _ _ _ _ _ _ h => SingleTypeKVCacheManager.free_steps h) hl hi hrun

theorem cacheBlocks_keeps {request : Request H} (hk : StepsKeep G L I request.requestId) {n : Int}
    (hcaching : ∀ p X, I p X → p.enableCaching = kv.config.enableCaching)
    (hcache : ∀ m ∈ kv.singleTypeManagers, TablesHold L m →
      (m.table request.requestId).numCached < (n / m.blockSize).toNat →
      G.cache m.kvCacheSpec m.kvCacheGroupId (m.table request.requestId) request
        (n / m.blockSize).toNat)
    (hl : kv.AllTables L) (hi : I kv.blockPool kv.places)
    (hrun : kv.cacheBlocks request n = .ok kv') :
    kv'.AllTables L ∧ I kv'.blockPool kv'.places ∧ kv'.config = kv.config := by
  unfold cacheBlocks at hrun
  split at hrun
  · rename_i hon
    exact forManagers_keeps hk (fun p m _ _ X hm hl hi h =>
      SingleTypeKVCacheManager.cacheBlocks_steps ((hcaching p _ hi).trans hon)
        (hcache m hm hl) h) hl hi hrun
  · obtain rfl := Except.ok.inj hrun
    exact ⟨hl, hi, rfl⟩

theorem joinHits_keeps {request : Request H} (hk : StepsKeep G L I request.requestId)
    {a : SlotArgs} {c : SlotCounts}
    (htotal : 0 ≤ c.numLocalComputedTokens + a.numExternalComputedTokens)
    (hjoin : ∀ m ∈ kv.singleTypeManagers, ∀ p,
      let n := (m.kvCacheSpec.numSkippedBlocks
        (c.numLocalComputedTokens + a.numExternalComputedTokens)).toNat
      G.join m.kvCacheSpec m.kvCacheGroupId p n ((a.hits.getD m.kvCacheGroupId []).drop n))
    (hfit : ∀ m ∈ kv.singleTypeManagers, 0 < m.kvCacheSpec.unskippedExternalTokens
        (c.numLocalComputedTokens + a.numExternalComputedTokens) a.numExternalComputedTokens →
      ((a.hits.getD m.kvCacheGroupId []).length : Int) ≤
        cdiv (c.numLocalComputedTokens + a.numExternalComputedTokens) m.blockSize)
    (hl : kv.AllTables L) (hi : I kv.blockPool kv.places)
    (hrun : kv.joinHits request a c = .ok kv') :
    kv'.AllTables L ∧ I kv'.blockPool kv'.places ∧ kv'.config = kv.config := by
  unfold joinHits at hrun
  split at hrun
  · exact forManagers_keeps hk (fun p m _ _ X hm _ _ h =>
      SingleTypeKVCacheManager.allocateNewComputedBlocks_steps htotal (hjoin m hm p) (hfit m hm)
        h) hl hi hrun
  · obtain rfl := Except.ok.inj hrun
    exact ⟨hl, hi, rfl⟩

theorem allocateNewBlocks_keeps {requestId : RequestId} (hk : StepsKeep G L I requestId)
    {numTokens numTokensMainModel numEncoderTokens : Int} {newBlocks : List (List BlockId)}
    (htokens : 0 ≤ numTokensMainModel)
    (hspec : ∀ m ∈ kv.singleTypeManagers, TablesHold L m → m.allocatedBlockReqs requestId →
      m.numSpeculativeBlocks ≤ (m.row requestId).length)
    (hmove : ∀ m ∈ kv.singleTypeManagers, TablesHold L m → m.isAlign →
      m.allocatedBlockReqs requestId → ∀ t i, t.numCached = (m.table requestId).numCached →
      (m.row requestId).length ≤ i + m.numSpeculativeBlocks →
      G.move m.kvCacheSpec m.kvCacheGroupId t i)
    (hsettle : ∀ m ∈ kv.singleTypeManagers, TablesHold L m → m.isAlign → ∀ t,
      t.numCached = (m.table requestId).numCached →
      (t.row.length : Int) = cdiv numTokensMainModel m.blockSize + m.numSpeculativeBlocks →
      (m.row requestId).length < t.row.length → G.settle m.kvCacheSpec m.kvCacheGroupId t)
    (hl : kv.AllTables L) (hi : I kv.blockPool kv.places)
    (hrun : kv.allocateNewBlocks requestId numTokens numTokensMainModel numEncoderTokens =
      .ok (kv', newBlocks)) :
    kv'.AllTables L ∧ I kv'.blockPool kv'.places ∧ kv'.config = kv.config := by
  simp only [allocateNewBlocks, bind_ok_iff, Prod.exists, pure_ok_iff, Prod.mk.injEq] at hrun
  obtain ⟨p', bs, hmap, rfl, -⟩ := hrun
  obtain ⟨hl', hi'⟩ := hk.pass Prod.fst
    (fun p m p' b X hm hl _ h => SingleTypeKVCacheManager.allocateNewBlocks_steps
      htokens (hspec m hm hl) (hmove m hm hl) (hsettle m hm hl) h)
    hl hi hmap
  exact ⟨hl', hi', rfl⟩

omit [DecidableEq H] in
/-- A new step leaves pool and tables alone. -/
theorem newStepStarts_keeps (hl : kv.AllTables L) (hi : I kv.blockPool kv.places) :
    kv.newStepStarts.AllTables L ∧ I kv.newStepStarts.blockPool kv.newStepStarts.places ∧
      kv.newStepStarts.config = kv.config := by
  have hplaces : kv.newStepStarts.places = kv.places := by
    simp only [places, newStepStarts, List.map_map]
    rfl
  refine ⟨fun m hm requestId => ?_, ?_, rfl⟩
  · simp only [newStepStarts, List.mem_map] at hm
    obtain ⟨m, hm, rfl⟩ := hm
    exact hl m hm requestId
  · rwa [hplaces]

end Passes

end KVCacheManager

end Vllm
