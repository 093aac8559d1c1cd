import Vllm.Library.Checked
import Vllm.Library.LinkedList

/-!
# The queue of free blocks

A block is named by its id; two more names stand for the sentinels of the intrusive
list, which in the source are blocks with id `-1`. The counter of free blocks is
kept beside the links and is not bounded below by anything the queue checks.
-/

namespace Vllm

open Checked LinkedList

/-- Block ids, the sentinels of the free list included. -/
abbrev BlockId := Nat

/-- The exceptions of the KV cache code, one for each check of the source. -/
inductive KVCacheError where
  /-- `popleft` on an empty list. -/
  | noFreeBlocks
  /-- `popleft` met a block without a successor. -/
  | invalidFirstBlock
  /-- `popleft_n` was asked for more blocks than the counter has. -/
  | counterTooSmall
  /-- `popleft_n` ran off the end of the list. -/
  | listTooShort
  /-- `remove` on a block that is not linked. -/
  | removeInvalidBlock
  /-- `append_n` found no predecessor of the tail sentinel. -/
  | noLastBlock
  /-- `get_new_blocks` was asked for more blocks than are free. -/
  | notEnoughFreeBlocks
  /-- A block from the free list is still referenced. -/
  | refCntNotZero
  /-- `cache_full_blocks` met a block that has a hash. -/
  | blockHashNotNone
  /-- The setter of `block_hash` met a block that has a hash. -/
  | alreadyHasHash
  /-- The request has fewer block hashes than full blocks. -/
  | tooFewBlockHashes
  /-- The block size is no multiple of the hash block size. -/
  | blockSizeNotMultiple
  /-- An index into the block hashes is out of range. -/
  | hashIndexOutOfRange
  /-- An index into the blocks of a request is out of range. -/
  | blockIndexOutOfRange
  /-- `evict_blocks` was given an id that no block has. -/
  | invalidBlockId
  /-- A running request came with prefix-cache hits. -/
  | hitsOfRunningRequest
  /-- A new request already holds blocks. -/
  | newRequestHoldsBlocks
  /-- Hits although prefix caching is disabled. -/
  | hitsWithoutCaching
  /-- Mamba: fewer blocks are required than held. -/
  | fewerRequiredThanHeld
  /-- Mamba: more new blocks than one step may take. -/
  | tooManyNewBlocks
  /-- Mamba: a block just cached has no hash. -/
  | cachedBlockWithoutHash
  /-- Cross attention does not support prefix caching. -/
  | crossAttentionCaching
  /-- EAGLE with chunked local attention, or with unaligned windows. -/
  | eagleUnsupported
  /-- Chunked local attention with groups of other block sizes. -/
  | unalignedChunks
  /-- `allocate_slots` without any token to allocate for. -/
  | noTokensToAllocate
  /-- The configuration does not fit the coordinator. -/
  | invalidConfig
  deriving DecidableEq, Repr

/-- A doubly linked list of free blocks between two sentinels. -/
structure FreeKVCacheBlockQueue where
  links : Links BlockId
  fakeFreeListHead : BlockId
  fakeFreeListTail : BlockId
  numFreeBlocks : Int

namespace FreeKVCacheBlockQueue

/-- The queue of the blocks `0, …, n - 1`; the sentinels are named `n` and `n + 1`. -/
def init (numBlocks : Nat) : FreeKVCacheBlockQueue where
  links := Links.joinAll ⟨fun _ => none, fun _ => none⟩
    ([numBlocks] ++ List.range numBlocks ++ [numBlocks + 1])
  fakeFreeListHead := numBlocks
  fakeFreeListTail := numBlocks + 1
  numFreeBlocks := numBlocks

/-- Pop the first free block. -/
def popleft (q : FreeKVCacheBlockQueue) :
    Except KVCacheError (BlockId × FreeKVCacheBlockQueue) :=
  match q.links.next q.fakeFreeListHead with
  | none => .error .noFreeBlocks
  | some firstBlock =>
    if firstBlock = q.fakeFreeListTail then .error .noFreeBlocks
    else match q.links.next firstBlock with
      | none => .error .invalidFirstBlock
      | some second => .ok (firstBlock,
        { q with
          links := (q.links.join q.fakeFreeListHead second).clear firstBlock
          numFreeBlocks := q.numFreeBlocks - 1 })

/-- The loop of `popleft_n`: walk on `n` blocks and reset their links. -/
def popLoop : Nat → Option BlockId → Links BlockId →
    Except KVCacheError (List BlockId × Option BlockId × Links BlockId)
  | 0, currBlock, links => .ok ([], currBlock, links)
  | _ + 1, none, _ => .error .listTooShort
  | n + 1, some block, links => do
    let (ret, currBlock, links) ← popLoop n (links.next block) (links.clear block)
    pure (block :: ret, currBlock, links)

/-- Pop the first `n` free blocks. A negative `n` passes the check, pops nothing and
moves the counter up. -/
def popleftN (q : FreeKVCacheBlockQueue) (n : Int) :
    Except KVCacheError (List BlockId × FreeKVCacheBlockQueue) :=
  if n = 0 then .ok ([], q)
  else do
    ensure (n ≤ q.numFreeBlocks) .counterTooSmall
    let (ret, currBlock, links) ←
      popLoop n.toNat (q.links.next q.fakeFreeListHead) q.links
    let links := match currBlock with
      | some block => links.join q.fakeFreeListHead block
      | none => links
    pure (ret, { q with links := links, numFreeBlocks := q.numFreeBlocks - n })

/-- Remove a block from the middle of the list. -/
def remove (q : FreeKVCacheBlockQueue) (block : BlockId) :
    Except KVCacheError FreeKVCacheBlockQueue :=
  match q.links.prev block, q.links.next block with
  | some prevBlock, some nextBlock => .ok
    { q with
      links := (q.links.join prevBlock nextBlock).clear block
      numFreeBlocks := q.numFreeBlocks - 1 }
  | _, _ => .error .removeInvalidBlock

/-- Put a list of blocks at the end. -/
def appendN (q : FreeKVCacheBlockQueue) (blocks : List BlockId) :
    Except KVCacheError FreeKVCacheBlockQueue :=
  if blocks = [] then .ok q
  else match q.links.prev q.fakeFreeListTail with
    | none => .error .noLastBlock
    | some lastBlock => .ok
      { q with
        links := q.links.joinAll (lastBlock :: (blocks ++ [q.fakeFreeListTail]))
        numFreeBlocks := q.numFreeBlocks + blocks.length }

/-- The blocks of the queue, in the order in which they are handed out. -/
def Holds (q : FreeKVCacheBlockQueue) (free : List BlockId) : Prop :=
  Represents q.links ([q.fakeFreeListHead] ++ free ++ [q.fakeFreeListTail])

variable {q q' : FreeKVCacheBlockQueue} {free : List BlockId}

/-- The new queue holds all blocks in the order of their ids. -/
theorem holds_init (numBlocks : Nat) : (init numBlocks).Holds (List.range numBlocks) := by
  have hnd : ([numBlocks] ++ List.range numBlocks ++ [numBlocks + 1]).Nodup := by
    simp only [List.nodup_append, List.nodup_cons, List.nodup_range, List.mem_range]
    grind
  refine ⟨hnd, isChain_joinAll _ hnd, fun a ha => ?_, fun a ha => ?_⟩
  · exact next_joinAll_of_not_mem _ ha
  · exact prev_joinAll_of_not_mem _ ha

/-- No block is in the queue twice. -/
theorem Holds.nodup_free (h : q.Holds free) : free.Nodup :=
  (Represents.nodup h).sublist (by simp)

/-- The sentinels are no members. -/
theorem Holds.ne_sentinels (h : q.Holds free) {b : BlockId} (hb : b ∈ free) :
    b ≠ q.fakeFreeListHead ∧ b ≠ q.fakeFreeListTail := by
  have hnd := Represents.nodup h
  simp only [List.cons_append, List.nil_append, List.nodup_cons, List.nodup_append,
    List.mem_append, List.mem_singleton] at hnd
  grind

/-- The walk of `popLoop` along a linked segment. -/
theorem popLoop_eq (links : Links BlockId) {l rest : List BlockId} {c : BlockId}
    (hnd : (l ++ c :: rest).Nodup) (hchain : (l ++ c :: rest).IsChain links.Adjacent) :
    popLoop l.length (some ((l ++ c :: rest).head (by simp))) links =
      .ok (l, some c, links.clearAll l) := by
  induction l generalizing links with
  | nil => rfl
  | cons b l ih =>
    have hb := List.nodup_cons.mp hnd
    have hnext : links.next b = some ((l ++ c :: rest).head (by simp)) := by
      cases l with
      | nil => exact (List.isChain_cons_cons.mp hchain).1.1
      | cons d l => exact (List.isChain_cons_cons.mp hchain).1.1
    have hrest : (l ++ c :: rest).IsChain (links.clear b).Adjacent := by
      refine hchain.tail.imp_of_mem_imp fun x y hx hy hxy => ⟨?_, ?_⟩
      · have hne : x ≠ b := fun he => hb.1 (he ▸ hx)
        simpa [Links.clear, hne] using hxy.1
      · have hne : y ≠ b := fun he => hb.1 (he ▸ hy)
        simpa [Links.clear, hne] using hxy.2
    have hrun := ih _ hb.2 hrest
    simp only [List.length_cons, List.cons_append, List.head_cons, popLoop, hnext, hrun]
    rfl

/-- A successful walk yields the number of blocks asked for. -/
private theorem length_popLoop {n : Nat} {curr curr' : Option BlockId}
    {links links' : Links BlockId} {ret : List BlockId}
    (h : popLoop n curr links = .ok (ret, curr', links')) : ret.length = n := by
  induction n generalizing curr links ret with
  | zero =>
    obtain ⟨rfl, -⟩ := Prod.mk.inj (Except.ok.inj h)
    rfl
  | succ n ih =>
    cases curr with
    | none => cases h
    | some block =>
      simp only [popLoop, bind_ok_iff, pure_ok_iff, Prod.exists, Prod.mk.injEq] at h
      obtain ⟨ret', _, _, hrest, rfl, rfl, rfl⟩ := h
      rw [List.length_cons, ih hrest]

/-- So does a successful pop; none for a negative number. -/
theorem length_popleftN {n : Int} {ret : List BlockId} (h : q.popleftN n = .ok (ret, q')) :
    ret.length = n.toNat := by
  unfold FreeKVCacheBlockQueue.popleftN at h
  split at h
  · obtain ⟨rfl, -⟩ := Prod.mk.inj (Except.ok.inj h)
    simp [*]
  · simp only [bind_ok_iff, pure_ok_iff, Prod.exists, Prod.mk.injEq] at h
    obtain ⟨_, -, ret', _, _, hloop, rfl, -⟩ := h
    exact length_popLoop hloop

/-- Popping no more blocks than the queue holds takes them from the front. -/
theorem Holds.popleftN (h : q.Holds free) {n : Nat} (hn : n ≤ free.length)
    (hc : q.numFreeBlocks = free.length) : ∃ links, q.popleftN n =
      .ok (free.take n, { q with links := links, numFreeBlocks := q.numFreeBlocks - n }) ∧
      Represents links ([q.fakeFreeListHead] ++ free.drop n ++ [q.fakeFreeListTail]) := by
  rcases Nat.eq_zero_or_pos n with rfl | hpos
  · exact ⟨q.links, by simp [FreeKVCacheBlockQueue.popleftN], h⟩
  obtain ⟨c, rest, hrest⟩ : ∃ c rest, free.drop n ++ [q.fakeFreeListTail] = c :: rest := by
    cases free.drop n <;> exact ⟨_, _, rfl⟩
  have hsplit : [q.fakeFreeListHead] ++ free ++ [q.fakeFreeListTail] =
      [] ++ [q.fakeFreeListHead] ++ free.take n ++ c :: rest := by
    rw [← hrest]
    simp [← List.append_assoc]
  have hall : Represents q.links ([] ++ [q.fakeFreeListHead] ++ free.take n ++ c :: rest) :=
    hsplit ▸ h
  have htake : (free.take n).length = n := List.length_take_of_le hn
  have hwalk := popLoop_eq q.links (l := free.take n) (c := c)
    (hall.nodup.sublist (by simp)) ((List.append_assoc _ _ _ ▸ hall.linked).right_of_append)
  have hfirst : q.links.next q.fakeFreeListHead =
      some ((free.take n ++ c :: rest).head (by simp)) := by
    obtain ⟨d, l, hd⟩ : ∃ d l, free.take n ++ c :: rest = d :: l := by
      cases free.take n <;> exact ⟨_, _, rfl⟩
    have hadj := hall.adjacent [] q.fakeFreeListHead d l (by simp [← hd])
    simpa [hd] using hadj.1
  rw [htake] at hwalk
  refine ⟨((q.links.clearAll (free.take n)).join q.fakeFreeListHead c), ?_, ?_⟩
  · have hne : ¬ (n : Int) = 0 := by omega
    have hle : (n : Int) ≤ q.numFreeBlocks := by omega
    simp only [FreeKVCacheBlockQueue.popleftN, hne, ite_false, ensure, hle, ite_true, hfirst,
      Int.toNat_natCast, hwalk, bind, Except.bind, pure, Except.pure]
  · suffices hres : Represents ((q.links.clearAll (free.take n)).join q.fakeFreeListHead c)
        ([] ++ [q.fakeFreeListHead] ++ c :: rest) by simpa [hrest] using hres
    refine hall.unlink ⟨by simp [Links.join], by simp [Links.join]⟩ ?_ ?_ ?_
    · intro x hx
      have hxh : x ≠ q.fakeFreeListHead := (h.ne_sentinels (List.mem_of_mem_take hx)).1
      have hxc : x ≠ c := by
        rintro rfl
        have hnd := hall.nodup
        simp only [List.append_assoc, List.nodup_append, List.mem_append] at hnd
        grind
      simp [Links.join, next_clearAll, prev_clearAll, hx, hxh, hxc]
    · intro a ha hm
      simp [Links.join, next_clearAll, ha, hm]
    · intro b hb hm
      simp [Links.join, prev_clearAll, hb, hm]

/-- Popping from a queue that is not empty yields its first block. -/
theorem Holds.popleft {b : BlockId} (h : q.Holds (b :: free)) : ∃ links, q.popleft =
      .ok (b, { q with links := links, numFreeBlocks := q.numFreeBlocks - 1 }) ∧
      Represents links ([q.fakeFreeListHead] ++ free ++ [q.fakeFreeListTail]) := by
  obtain ⟨n, vs, hn⟩ : ∃ n vs, free ++ [q.fakeFreeListTail] = n :: vs := by
    cases free <;> exact ⟨_, _, rfl⟩
  have hall : Represents q.links ([] ++ [q.fakeFreeListHead] ++ [b] ++ n :: vs) := by
    rw [← hn]
    exact h
  have hb := hall.adjacent [] q.fakeFreeListHead b (n :: vs) (by simp)
  have hbn := hall.adjacent [q.fakeFreeListHead] b n vs (by simp)
  have hnd := hall.nodup
  simp only [List.nil_append, List.cons_append, List.nodup_cons, List.mem_cons] at hnd
  have hbh : b ≠ q.fakeFreeListHead := (h.ne_sentinels (by simp)).1
  have hbt : b ≠ q.fakeFreeListTail := (h.ne_sentinels (by simp)).2
  have hbn' : b ≠ n := by grind
  refine ⟨(q.links.join q.fakeFreeListHead n).clear b, ?_, ?_⟩
  · simp [FreeKVCacheBlockQueue.popleft, hb.1, hbt, hbn.1]
  · suffices hres : Represents ((q.links.join q.fakeFreeListHead n).clear b)
        ([] ++ [q.fakeFreeListHead] ++ n :: vs) by simpa [hn] using hres
    refine hall.unlink ⟨by simp [Links.join, Links.clear, Ne.symm hbh],
      by simp [Links.join, Links.clear, Ne.symm hbn']⟩ ?_ ?_ ?_
    · simp [Links.clear]
    · intro a ha hm
      simp [Links.join, Links.clear, ha, show a ≠ b by simpa using hm]
    · intro a ha hm
      simp [Links.join, Links.clear, ha, show a ≠ b by simpa using hm]

/-- Only a block of the queue can be removed. -/
theorem Holds.mem_of_remove (h : q.Holds free) {b : BlockId} (hrun : q.remove b = .ok q') :
    b ∈ free := by
  have hall : Represents q.links ([q.fakeFreeListHead] ++ free ++ [q.fakeFreeListTail]) := h
  simp only [FreeKVCacheBlockQueue.remove] at hrun
  split at hrun
  · rename_i p n hp hn
    have htail : b ∈ free ++ [q.fakeFreeListTail] := by
      by_contra hb
      simp [hall.prev_off b (by simpa using hb)] at hp
    have hfront : b ∈ [q.fakeFreeListHead] ++ free := by
      by_contra hb
      simp [hall.next_off b (by rwa [List.dropLast_concat])] at hn
    have hnd := hall.nodup
    simp only [List.cons_append, List.nil_append, List.nodup_cons, List.nodup_append,
      List.mem_append, List.mem_cons, List.not_mem_nil, or_false] at htail hfront hnd
    grind
  · cases hrun

/-- Removing a block of the queue leaves the others in their order. -/
theorem Holds.remove {xs ys : List BlockId} {b : BlockId} (h : q.Holds (xs ++ b :: ys)) :
    ∃ links, q.remove b =
      .ok { q with links := links, numFreeBlocks := q.numFreeBlocks - 1 } ∧
      Represents links ([q.fakeFreeListHead] ++ (xs ++ ys) ++ [q.fakeFreeListTail]) := by
  obtain ⟨us, p, hp⟩ : ∃ us p, [q.fakeFreeListHead] ++ xs = us ++ [p] := by
    rcases List.eq_nil_or_concat' xs with rfl | ⟨us, p, rfl⟩
    · exact ⟨[], _, rfl⟩
    · exact ⟨[q.fakeFreeListHead] ++ us, p, by simp⟩
  obtain ⟨n, vs, hn⟩ : ∃ n vs, ys ++ [q.fakeFreeListTail] = n :: vs := by
    cases ys <;> exact ⟨_, _, rfl⟩
  have hsplit : [q.fakeFreeListHead] ++ (xs ++ b :: ys) ++ [q.fakeFreeListTail] =
      us ++ [p] ++ [b] ++ n :: vs := by
    rw [← hp, ← hn]
    simp
  have hall : Represents q.links (us ++ [p] ++ [b] ++ n :: vs) := hsplit ▸ h
  have hpb := hall.adjacent us p b (n :: vs) (by simp)
  have hbn := hall.adjacent (us ++ [p]) b n vs (by simp)
  have hnd := hall.nodup
  simp only [List.append_assoc, List.nodup_append, List.mem_append, List.mem_cons] at hnd
  have hbp : b ≠ p := by grind
  have hbn' : b ≠ n := by grind
  refine ⟨(q.links.join p n).clear b, ?_, ?_⟩
  · simp [FreeKVCacheBlockQueue.remove, hpb.2, hbn.1]
  · suffices hres : Represents ((q.links.join p n).clear b) (us ++ [p] ++ n :: vs) by
      rwa [← hp, ← hn, ← List.append_assoc, List.append_assoc _ xs ys] at hres
    refine hall.unlink ⟨by simp [Links.join, Links.clear, Ne.symm hbp],
      by simp [Links.join, Links.clear, Ne.symm hbn']⟩ ?_ ?_ ?_
    · simp [Links.clear]
    · intro a ha hm
      simp [Links.join, Links.clear, ha, show a ≠ b by simpa using hm]
    · intro a ha hm
      simp [Links.join, Links.clear, ha, show a ≠ b by simpa using hm]

/-- Appending blocks that are not in the queue puts them at its end. -/
theorem Holds.appendN (h : q.Holds free) {blocks : List BlockId} (hnd : (free ++ blocks).Nodup)
    (hs : ∀ b ∈ blocks, b ≠ q.fakeFreeListHead ∧ b ≠ q.fakeFreeListTail) :
    ∃ links, q.appendN blocks =
      .ok { q with links := links, numFreeBlocks := q.numFreeBlocks + blocks.length } ∧
      Represents links ([q.fakeFreeListHead] ++ (free ++ blocks) ++ [q.fakeFreeListTail]) := by
  by_cases hb : blocks = []
  · subst hb
    exact ⟨q.links, by simp [FreeKVCacheBlockQueue.appendN], by rwa [List.append_nil]⟩
  obtain ⟨us, p, hp⟩ : ∃ us p, [q.fakeFreeListHead] ++ free = us ++ [p] := by
    rcases List.eq_nil_or_concat' free with rfl | ⟨us, p, rfl⟩
    · exact ⟨[], _, rfl⟩
    · exact ⟨[q.fakeFreeListHead] ++ us, p, by simp⟩
  have hall : Represents q.links (us ++ [p] ++ q.fakeFreeListTail :: []) := hp ▸ h
  have hlast := hall.adjacent us p q.fakeFreeListTail [] (by simp)
  have hwhole : (us ++ [p] ++ blocks ++ [q.fakeFreeListTail]).Nodup := by
    have hold := hp ▸ Represents.nodup h
    rw [← hp] at hold ⊢
    simp only [List.append_assoc, List.cons_append, List.nil_append, List.nodup_cons,
      List.nodup_append, List.mem_append, List.mem_singleton] at hold hnd ⊢
    grind
  have hsub : (p :: (blocks ++ [q.fakeFreeListTail])).Nodup := hwhole.sublist (by simp)
  refine ⟨q.links.joinAll (p :: (blocks ++ [q.fakeFreeListTail])), ?_, ?_⟩
  · simp [FreeKVCacheBlockQueue.appendN, hb, hlast.2]
  · have hres := hall.insert hwhole (isChain_joinAll q.links hsub)
      (fun a ha => next_joinAll_of_not_mem _ ?_) (fun a ha => prev_joinAll_of_not_mem _ ha)
    · rw [← List.append_assoc, hp]
      exact hres
    · rwa [← List.cons_append, List.dropLast_concat]

end FreeKVCacheBlockQueue

end Vllm
