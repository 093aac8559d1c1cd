import Vllm.Library.DictOrder

/-!
# Offloaded blocks and their CPU backend

The managers of offloaded blocks share one interface: blocks with a reference count
that wraps as a 32-bit integer, a backend that hands out block ids, events, and the
loops over hashes that count hits and hold and release blocks for loads. A loop that
raises keeps what it changed up to there.
-/

namespace Vllm.Offload

/-- `ctypes.c_int32`: what is stored of an integer. -/
def cInt32 (x : Int) : Int := x.bmod (2 ^ 32)

/-- `CPUBlockStatus`: the transfers that use a block as a source, and where it is. -/
structure CPUBlockStatus where
  /-- `-1` while the block is not ready to be read. -/
  refCnt : Int
  /-- The place of the block in CPU memory. -/
  blockId : Nat
  deriving DecidableEq, Repr

/-- A block just allocated is not ready. -/
def CPUBlockStatus.new (blockId : Nat) : CPUBlockStatus where
  refCnt := -1
  blockId := blockId

/-- `is_ready`. -/
def CPUBlockStatus.isReady (block : CPUBlockStatus) : Bool := decide (0 ≤ block.refCnt)

/-- What the managers raise. -/
inductive OffloadError (H : Type) where
  /-- `KeyError`. -/
  | keyError (blockHash : H)
  /-- `Block ... not found in cache`, `Block ... not found`. -/
  | notFound (blockHash : H)
  /-- `Block ... is not ready for reading`. -/
  | notReady (blockHash : H)
  /-- `Block ... ref_cnt is already 0`. -/
  | refCntIsZero (blockHash : H)
  /-- `len(self.allocated_blocks_free_list) >= num_reused_blocks`. -/
  | outOfBlocks
  deriving DecidableEq, Repr

/-- `CPULoadStoreSpec`: the block ids of a transfer. -/
structure CPULoadStoreSpec where
  blockIds : List Nat
  deriving DecidableEq, Repr

/-- `OffloadingEvent`. -/
structure OffloadingEvent (H : Type) where
  blockHashes : List H
  blockSize : Nat
  medium : String
  /-- Blocks were removed, not stored. -/
  removed : Bool
  deriving DecidableEq, Repr

/-- `PrepareStoreOutput`. -/
structure PrepareStoreOutput (H : Type) where
  blockHashesToStore : List H
  storeSpec : CPULoadStoreSpec
  blockHashesEvicted : List H
  deriving DecidableEq, Repr

/-- `CPUBackend`: block ids are handed out in order, and again once freed. -/
structure CPUBackend where
  blockSize : Nat
  numBlocks : Nat
  /-- How many ids were ever handed out. -/
  numAllocatedBlocks : Nat
  /-- Ids to hand out again, the last one first. -/
  allocatedBlocksFreeList : List Nat
  /-- No more ids are handed out than there are blocks. -/
  allocated_le : numAllocatedBlocks ≤ numBlocks

namespace CPUBackend

/-- `CPULoadStoreSpec.medium()`. -/
def medium (_ : CPUBackend) : String := "CPU"

/-- A backend that has handed out nothing. -/
def init (blockSize numBlocks : Nat) : CPUBackend where
  blockSize := blockSize
  numBlocks := numBlocks
  numAllocatedBlocks := 0
  allocatedBlocksFreeList := []
  allocated_le := Nat.zero_le _

/-- `get_num_free_blocks`. -/
def getNumFreeBlocks (b : CPUBackend) : Nat :=
  b.allocatedBlocksFreeList.length + b.numBlocks - b.numAllocatedBlocks

/-- The loop that pops ids off the free list. -/
def popReused : Nat → List Nat → List CPUBlockStatus × List Nat
  | 0, free => ([], free)
  | n + 1, free =>
    match free.getLast? with
    | none => ([], free)
    | some blockId =>
      let rest := popReused n free.dropLast
      (CPUBlockStatus.new blockId :: rest.1, rest.2)

/-- The blocks of an allocation that take an id for the first time. -/
def freshBlocks (b : CPUBackend) (n : Nat) : List CPUBlockStatus :=
  (List.range n).map fun i => CPUBlockStatus.new (b.numAllocatedBlocks + i)

/-- How many blocks of an allocation take an id for the first time. -/
def numFresh (b : CPUBackend) (n : Nat) : Nat := min n (b.numBlocks - b.numAllocatedBlocks)

/-- `allocate_blocks` for a number of hashes. -/
def allocateBlocks {H : Type} (b : CPUBackend) (n : Nat) :
    Except (OffloadError H) (List CPUBlockStatus × CPUBackend) :=
  if n - b.numFresh n ≤ b.allocatedBlocksFreeList.length then
    let reused := popReused (n - b.numFresh n) b.allocatedBlocksFreeList
    .ok (b.freshBlocks (b.numFresh n) ++ reused.1,
      { b with
        numAllocatedBlocks := b.numAllocatedBlocks + b.numFresh n
        allocatedBlocksFreeList := reused.2
        allocated_le := by
          have := b.allocated_le
          unfold numFresh
          omega })
  else .error .outOfBlocks

/-- `free`. -/
def free (b : CPUBackend) (block : CPUBlockStatus) : CPUBackend :=
  { b with allocatedBlocksFreeList := b.allocatedBlocksFreeList ++ [block.blockId] }

/-- Free several blocks, one after the other. -/
def freeAll (b : CPUBackend) (blocks : List CPUBlockStatus) : CPUBackend := blocks.foldl free b

/-- `get_load_store_spec`. -/
def getLoadStoreSpec (_ : CPUBackend) (blocks : List CPUBlockStatus) : CPULoadStoreSpec :=
  ⟨blocks.map CPUBlockStatus.blockId⟩

private theorem popReused_spec {n : Nat} {free : List Nat} (h : n ≤ free.length) :
    ((popReused n free).1.map CPUBlockStatus.blockId ++ (popReused n free).2).Perm free ∧
      (popReused n free).1.length = n ∧ ∀ block ∈ (popReused n free).1, block.refCnt = -1 := by
  induction n generalizing free with
  | zero => simp [popReused]
  | succ n ih =>
    obtain ⟨front, last, rfl⟩ : ∃ front last, free = front ++ [last] := by
      have hne : free ≠ [] := by
        rintro rfl
        simp at h
      exact ⟨free.dropLast, free.getLast hne, (List.dropLast_append_getLast hne).symm⟩
    obtain ⟨hperm, hlen, hnew⟩ := ih (show n ≤ front.length by simpa using h)
    simp only [popReused, List.getLast?_append, List.getLast?_singleton, Option.some_or,
      List.dropLast_concat, List.map_cons, List.cons_append, List.length_cons, hlen,
      List.mem_cons, forall_eq_or_imp]
    exact ⟨(hperm.cons _).trans (List.perm_append_singleton _ _).symm, trivial, rfl, hnew⟩

/-- An allocation returns when there are enough free blocks: as many blocks as asked for,
not ready yet, whose ids come off the free list or are new. -/
theorem allocateBlocks_spec {H : Type} {b : CPUBackend} {n : Nat} (h : n ≤ b.getNumFreeBlocks) :
    ∃ blocks b', b.allocateBlocks (H := H) n = .ok (blocks, b') ∧ blocks.length = n ∧
      (∀ block ∈ blocks, block.refCnt = -1) ∧ b'.numBlocks = b.numBlocks ∧
      (blocks.map CPUBlockStatus.blockId ++ b'.allocatedBlocksFreeList).Perm
        (b.allocatedBlocksFreeList ++
          (List.range (b.numFresh n)).map fun i => b.numAllocatedBlocks + i) ∧
      b'.numAllocatedBlocks = b.numAllocatedBlocks + b.numFresh n := by
  have hle := b.allocated_le
  have hfresh : b.numFresh n ≤ n := Nat.min_le_left _ _
  have henough : n - b.numFresh n ≤ b.allocatedBlocksFreeList.length := by
    unfold numFresh getNumFreeBlocks at *
    omega
  obtain ⟨hperm, hlen, hnew⟩ := popReused_spec henough
  refine ⟨_, _, if_pos henough, ?_, ?_, rfl, ?_, rfl⟩
  · rw [List.length_append, hlen, freshBlocks, List.length_map, List.length_range]
    omega
  · intro block hb
    rcases List.mem_append.mp hb with hb | hb
    · obtain ⟨i, _, rfl⟩ := List.mem_map.mp hb
      rfl
    · exact hnew block hb
  · have hids : (b.freshBlocks (b.numFresh n)).map CPUBlockStatus.blockId =
        (List.range (b.numFresh n)).map fun i => b.numAllocatedBlocks + i := by
      simp [freshBlocks, CPUBlockStatus.new, Function.comp_def]
    rw [List.map_append, hids, List.append_assoc]
    exact (hperm.append_left _).trans List.perm_append_comm

@[simp] theorem getNumFreeBlocks_free (b : CPUBackend) (block : CPUBlockStatus) :
    (b.free block).getNumFreeBlocks = b.getNumFreeBlocks + 1 := by
  have := b.allocated_le
  simp only [getNumFreeBlocks, free, List.length_append, List.length_singleton]
  omega

@[simp] theorem getNumFreeBlocks_freeAll (b : CPUBackend) (blocks : List CPUBlockStatus) :
    (b.freeAll blocks).getNumFreeBlocks = b.getNumFreeBlocks + blocks.length := by
  induction blocks generalizing b with
  | nil => rfl
  | cons block blocks ih =>
    rw [freeAll, List.foldl_cons, ← freeAll, ih, getNumFreeBlocks_free, List.length_cons]
    omega

@[simp] theorem blockSize_freeAll (b : CPUBackend) (blocks : List CPUBlockStatus) :
    (b.freeAll blocks).blockSize = b.blockSize := by
  induction blocks generalizing b with
  | nil => rfl
  | cons block blocks ih => exact ih (b.free block)

end CPUBackend

section Loops

variable {H S : Type} (find : S → H → Option CPUBlockStatus)
  (write : S → H → CPUBlockStatus → S)

/-- `lookup`: how many hashes in a row have a block that is ready. -/
def countHits (s : S) : List H → Nat
  | [] => 0
  | blockHash :: rest =>
    match find s blockHash with
    | none => 0
    | some block => if block.isReady then countHits s rest + 1 else 0

/-- `prepare_load`: one more transfer reads each block. -/
def holdBlocks (missing : H → OffloadError H) :
    S → List H → List CPUBlockStatus → S × Except (OffloadError H) (List CPUBlockStatus)
  | s, [], blocks => (s, .ok blocks)
  | s, blockHash :: rest, blocks =>
    match find s blockHash with
    | none => (s, .error (missing blockHash))
    | some block =>
      if block.isReady then
        let held := { block with refCnt := cInt32 (block.refCnt + 1) }
        holdBlocks missing (write s blockHash held) rest (blocks ++ [held])
      else (s, .error (.notReady blockHash))

/-- `complete_load`: one transfer less reads each block. -/
def releaseBlocks (missing : H → OffloadError H) :
    S → List H → S × Except (OffloadError H) Unit
  | s, [] => (s, .ok ())
  | s, blockHash :: rest =>
    match find s blockHash with
    | none => (s, .error (missing blockHash))
    | some block =>
      if 0 < block.refCnt then
        releaseBlocks missing
          (write s blockHash { block with refCnt := cInt32 (block.refCnt - 1) }) rest
      else (s, .error (.refCntIsZero blockHash))

variable {find write}

/-- Holding blocks for a load keeps what writing back the same block with another count
keeps. -/
theorem holdBlocks_keeps {I : S → Prop} {missing : H → OffloadError H}
    (hwrite : ∀ s h block n, I s → find s h = some block →
      I (write s h { block with refCnt := n })) {s : S} (h : I s) (hashes : List H)
    (blocks : List CPUBlockStatus) : I (holdBlocks find write missing s hashes blocks).1 := by
  induction hashes generalizing s blocks with
  | nil => exact h
  | cons blockHash rest ih =>
    unfold holdBlocks
    cases hfind : find s blockHash with
    | none => exact h
    | some block =>
      simp only
      split
      · exact ih (hwrite s blockHash block _ h hfind) _
      · exact h

/-- Releasing blocks behind a load keeps what writing back the same block with another
count keeps. -/
theorem releaseBlocks_keeps {I : S → Prop} {missing : H → OffloadError H}
    (hwrite : ∀ s h block n, I s → find s h = some block →
      I (write s h { block with refCnt := n })) {s : S} (h : I s) (hashes : List H) :
    I (releaseBlocks find write missing s hashes).1 := by
  induction hashes generalizing s with
  | nil => exact h
  | cons blockHash rest ih =>
    unfold releaseBlocks
    cases hfind : find s blockHash with
    | none => exact h
    | some block =>
      simp only
      split
      · exact ih (hwrite s blockHash block _ h hfind)
      · exact h

end Loops

end Vllm.Offload
