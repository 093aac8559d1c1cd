import Vllm.Distributed.BuddyPool

/-!
# Histories of the pool

The blocks partition the region in every state of every history, calls that fail change nothing,
and no two free buddies are left, if and only if the merges that one call makes suffice for the
ratio of the sizes.
-/

namespace Vllm.Distributed

open Buddies

/-- The addresses of a block. -/
def MemoryBlock.Spans (block : MemoryBlock) (x : Int) : Prop :=
  block.addr ≤ x ∧ x < block.addr + block.size

namespace TensorMemoryPool

/-- A block is in a free list. -/
def Free (pool : TensorMemoryPool) (block : MemoryBlock) : Prop :=
  ∃ size list addr, pool.freeLists.get? size = some list ∧ list.get? addr = some block

/-- A block is among the allocated ones. -/
def Allocated (pool : TensorMemoryPool) (block : MemoryBlock) : Prop :=
  ∃ addr, pool.allocatedBlocks.get? addr = some block

/-- The blocks of the pool partition its region, and no two buddies are free. -/
structure Partitioned (pool : TensorMemoryPool) : Prop where
  free_entry : ∀ size list addr block, pool.freeLists.get? size = some list →
    list.get? addr = some block → block = ⟨size, addr⟩
  allocated_entry : ∀ addr block, pool.allocatedBlocks.get? addr = some block → block.addr = addr
  exclusive : ∀ block, pool.Free block → ¬ pool.Allocated block
  size : ∀ block, pool.Free block ∨ pool.Allocated block →
    (∃ o, block.size = 2 ^ o) ∧ pool.minBlockSize ≤ block.size ∧ block.size ≤ pool.maxBlockSize
  aligned : ∀ block, pool.Free block ∨ pool.Allocated block →
    (block.size : Int) ∣ block.addr - pool.baseAddress
  disjoint : ∀ block block', pool.Free block ∨ pool.Allocated block →
    pool.Free block' ∨ pool.Allocated block' →
    ∀ x, block.Spans x → block'.Spans x → block = block'
  cover : ∀ x, (∃ block, (pool.Free block ∨ pool.Allocated block) ∧ block.Spans x) ↔
    pool.baseAddress ≤ x ∧ x < pool.baseAddress + pool.maxBlockSize
  coalesced : ∀ low high, pool.Free low → pool.Free high → high.size = low.size →
    high.addr = low.addr + low.size → ¬ (2 * low.size : Int) ∣ low.addr - pool.baseAddress
  restored : (∀ block, ¬ pool.Allocated block) →
    ∀ block, pool.Free block ↔ block = ⟨pool.maxBlockSize, pool.baseAddress⟩

/-- What an allocation gives, and when it raises. -/
structure AllocateSound (pool : TensorMemoryPool) (size : Int) : Prop where
  raises_iff : (∃ e, (pool.allocate size).1 = .error e) ↔
    size ≤ 0 ∨ pool.maxBlockSize < roundToPowerOfTwo size.toNat ∨
      ∀ block, pool.Free block → (block.size : Int) < size
  unchanged : ∀ e, (pool.allocate size).1 = .error e → (pool.allocate size).2 = pool
  allocated : ∀ addr, (pool.allocate size).1 = .ok addr →
    ∃ block : MemoryBlock, block.addr = addr ∧ size ≤ block.size ∧ ¬ pool.Allocated block ∧
      ∀ block', (pool.allocate size).2.Allocated block' ↔ pool.Allocated block' ∨ block' = block

/-- What freeing does, and when it raises. -/
structure FreeSound (pool : TensorMemoryPool) (addr : Int) : Prop where
  raises_iff : (∃ e, (pool.free addr).1 = .error e) ↔
    ∀ block, pool.Allocated block → block.addr ≠ addr
  unchanged : ∀ e, (pool.free addr).1 = .error e → (pool.free addr).2 = pool
  freed : (pool.free addr).1 = .ok () →
    ∀ block, (pool.free addr).2.Allocated block ↔ pool.Allocated block ∧ block.addr ≠ addr

/-- A call does what it should. -/
def CallSound (pool : TensorMemoryPool) : PoolCall → Prop
  | .allocate size => pool.AllocateSound size
  | .free addr => pool.FreeSound addr

/-- Every state of a history is partitioned, and every call does what it should. -/
def RunSound (pool : TensorMemoryPool) : List PoolCall → Prop
  | [] => pool.Partitioned
  | call :: calls => pool.Partitioned ∧ pool.CallSound call ∧ (pool.after call).RunSound calls

variable {pool pool' : TensorMemoryPool} {lo hi : Nat} {b : Block}

/-! ## The blocks of the tiling -/

/-- The free blocks are the free ones of the tiling. -/
theorem Listed.free_iff (h : Listed lo hi pool) (block : MemoryBlock) :
    pool.Free block ↔ ∃ b, pool.FreeAt b ∧ block = pool.record b := by
  constructor
  · rintro ⟨size, list, addr, hlist, hget⟩
    obtain ⟨rfl, hbase⟩ := h.free _ _ _ _ hlist hget
    obtain ⟨o, -, -, rfl⟩ := (h.sizes size).mp (Option.isSome_iff_exists.mpr ⟨_, hlist⟩)
    have haddr : addr = pool.baseAddress + ((addr - pool.baseAddress).toNat : Int) := by omega
    refine ⟨⟨(addr - pool.baseAddress).toNat, o⟩,
      ⟨list, hlist, Option.isSome_iff_exists.mpr ⟨_, haddr ▸ hget⟩⟩, ?_⟩
    rw [record, ← haddr]
  · rintro ⟨b, hb, rfl⟩
    obtain ⟨list, hlist, -⟩ := id hb
    exact ⟨_, list, _, hlist, h.record_of_free hlist hb⟩

/-- The allocated blocks are the allocated ones of the tiling. -/
theorem Listed.allocated_iff (h : Listed lo hi pool) (block : MemoryBlock) :
    pool.Allocated block ↔ ∃ b, pool.AllocatedAt b ∧ block = pool.record b := by
  constructor
  · rintro ⟨addr, hget⟩
    obtain ⟨hbase, o, rfl⟩ := h.allocated _ _ hget
    have haddr : addr = pool.baseAddress + ((addr - pool.baseAddress).toNat : Int) := by omega
    have hrecord : (⟨2 ^ o, addr⟩ : MemoryBlock) =
        pool.record ⟨(addr - pool.baseAddress).toNat, o⟩ := by
      rw [record, ← haddr]
    refine ⟨⟨(addr - pool.baseAddress).toNat, o⟩, ?_, hrecord⟩
    rw [AllocatedAt, ← haddr, hget, hrecord]
  · rintro ⟨b, hb, rfl⟩
    exact ⟨_, hb⟩

/-- Different blocks have different records. -/
theorem record_inj (pool : TensorMemoryPool) {b b' : Block} (h : pool.record b = pool.record b') :
    b = b' := by
  have hsize : 2 ^ b.order = 2 ^ b'.order := congrArg MemoryBlock.size h
  have haddr : pool.baseAddress + (b.offset : Int) = pool.baseAddress + (b'.offset : Int) :=
    congrArg MemoryBlock.addr h
  exact Block.ext (by omega) (two_pow_inj hsize)

/-- The addresses of a record. -/
theorem spans_record (pool : TensorMemoryPool) (b : Block) (x : Nat) :
    (pool.record b).Spans (pool.baseAddress + x) ↔ b.Covers x := by
  show pool.baseAddress + (b.offset : Int) ≤ pool.baseAddress + (x : Int) ∧
    pool.baseAddress + (x : Int) < pool.baseAddress + (b.offset : Int) + ((2 ^ b.order : Nat) : Int)
      ↔ b.offset ≤ x ∧ x < b.offset + 2 ^ b.order
  omega

/-- The blocks of a tiling in which no two buddies are free partition the region. -/
theorem Holding.partitioned (h : Holding lo hi pool ∅) (hcoalesced : pool.Coalesced hi) :
    pool.Partitioned := by
  have hblock : ∀ block, pool.Free block ∨ pool.Allocated block →
      ∃ b, (pool.FreeAt b ∨ pool.AllocatedAt b ∨ b ∈ (∅ : Set Block)) ∧
        block = pool.record b := by
    rintro block (hfree | halloc)
    · obtain ⟨b, hb, rfl⟩ := (h.listed.free_iff block).mp hfree
      exact ⟨b, .inl hb, rfl⟩
    · obtain ⟨b, hb, rfl⟩ := (h.listed.allocated_iff block).mp halloc
      exact ⟨b, .inr (.inl hb), rfl⟩
  -- Every address of a block is one of the region.
  have hspan : ∀ b, ∀ x : Int, (pool.record b).Spans x → ∃ n : Nat, x = pool.baseAddress + n := by
    rintro b x ⟨hlow, -⟩
    have hlow' : pool.baseAddress + (b.offset : Int) ≤ x := hlow
    exact ⟨(x - pool.baseAddress).toNat, by omega⟩
  refine ⟨fun size list addr block hlist hget => (h.listed.free _ _ _ _ hlist hget).1,
    fun addr block hget => ?_, fun block hfree halloc => ?_, fun block hb => ?_,
    fun block hb => ?_, fun block block' hb hb' x hx hx' => ?_, fun x => ⟨?_, ?_⟩,
    fun low high hlow hhigh hsize haddr hdvd => ?_, fun hnone block => ?_⟩
  · obtain ⟨-, o, rfl⟩ := h.listed.allocated _ _ hget
    rfl
  · obtain ⟨b, hb, rfl⟩ := (h.listed.free_iff block).mp hfree
    obtain ⟨b', hb', heq⟩ := (h.listed.allocated_iff _).mp halloc
    exact h.not_both b hb (record_inj pool heq ▸ hb')
  · obtain ⟨b, hmem, rfl⟩ := hblock block hb
    rw [h.listed.min_eq, h.listed.max_eq]
    exact ⟨⟨b.order, rfl⟩, Nat.pow_le_pow_right Nat.two_pos (h.tiling.lo_le b hmem),
      Nat.pow_le_pow_right Nat.two_pos (h.tiling.le_hi b hmem)⟩
  · obtain ⟨b, hmem, rfl⟩ := hblock block hb
    show ((2 ^ b.order : Nat) : Int) ∣ pool.baseAddress + (b.offset : Int) - pool.baseAddress
    rw [add_sub_cancel_left]
    exact Int.natCast_dvd_natCast.mpr (h.tiling.aligned b hmem)
  · obtain ⟨b, hmem, rfl⟩ := hblock block hb
    obtain ⟨b', hmem', rfl⟩ := hblock block' hb'
    obtain ⟨n, rfl⟩ := hspan b x hx
    rw [h.tiling.unique b hmem b' hmem' n ((spans_record pool b n).mp hx)
      ((spans_record pool b' n).mp hx')]
  · rintro ⟨block, hb, hx⟩
    obtain ⟨b, hmem, rfl⟩ := hblock block hb
    obtain ⟨n, rfl⟩ := hspan b x hx
    have hcovers := (spans_record pool b n).mp hx
    have hinside := h.tiling.inside b hmem
    rw [h.listed.max_eq]
    have := hcovers.2
    omega
  · rintro ⟨hlow, hhigh⟩
    rw [h.listed.max_eq] at hhigh
    obtain ⟨n, rfl⟩ : ∃ n : Nat, x = pool.baseAddress + n :=
      ⟨(x - pool.baseAddress).toNat, by omega⟩
    obtain ⟨b, hmem, hcovers⟩ := h.tiling.cover n (by omega)
    refine ⟨pool.record b, ?_, (spans_record pool b n).mpr hcovers⟩
    rcases hmem with hfree | halloc | hempty
    · exact .inl ((h.listed.free_iff _).mpr ⟨b, hfree, rfl⟩)
    · exact .inr ((h.listed.allocated_iff _).mpr ⟨b, halloc, rfl⟩)
    · exact absurd hempty id
  · obtain ⟨b, hb, rfl⟩ := (h.listed.free_iff low).mp hlow
    obtain ⟨b', hb', rfl⟩ := (h.listed.free_iff high).mp hhigh
    have horder : b'.order = b.order := two_pow_inj hsize
    have hoffset : pool.baseAddress + (b'.offset : Int) =
        pool.baseAddress + (b.offset : Int) + ((2 ^ b.order : Nat) : Int) := haddr
    have hdvd' : (2 * ((2 ^ b.order : Nat) : Int)) ∣
        pool.baseAddress + (b.offset : Int) - pool.baseAddress := hdvd
    rw [add_sub_cancel_left] at hdvd'
    have hdvd'' : 2 ^ (b.order + 1) ∣ b.offset := by
      rw [Nat.pow_succ, Nat.mul_comm]
      exact_mod_cast hdvd'
    have hbuddy : b.buddy = b' := by
      rw [Block.buddy, if_pos (Nat.mod_eq_zero_of_dvd hdvd'')]
      exact Block.ext (show b.offset + 2 ^ b.order = b'.offset by omega) horder.symm
    have hlt : b.order < hi := by
      have hinside := h.tiling.inside b' (.inl hb')
      rw [horder] at hinside
      have hpos := Nat.two_pow_pos b.order
      exact (Nat.pow_lt_pow_iff_right Nat.one_lt_two).mp (show 2 ^ b.order < 2 ^ hi by omega)
    exact hcoalesced b hb hlt (hbuddy ▸ hb')
  · have hfree : ∀ b, (pool.FreeAt b ∨ pool.AllocatedAt b ∨ b ∈ (∅ : Set Block)) →
        pool.FreeAt b := by
      rintro b (hfree | halloc | hempty)
      · exact hfree
      · exact absurd ((h.listed.allocated_iff _).mpr ⟨b, halloc, rfl⟩) (hnone _)
      · exact absurd hempty id
    have hwhole : ∀ b, pool.FreeAt b → b = ⟨0, hi⟩ := fun b hb =>
      h.tiling.eq_whole (fun c hc hlt hc' => hcoalesced c (hfree c hc) hlt (hfree _ hc')) (.inl hb)
    have hrecord : pool.record ⟨0, hi⟩ = ⟨pool.maxBlockSize, pool.baseAddress⟩ := by
      rw [h.listed.max_eq]
      exact congrArg (MemoryBlock.mk _) (Int.add_zero _)
    rw [h.listed.free_iff, ← hrecord]
    constructor
    · rintro ⟨b, hb, rfl⟩
      rw [hwhole b hb]
    · intro heq
      obtain ⟨b, hmem, -⟩ := h.tiling.cover 0 (Nat.two_pow_pos hi)
      exact ⟨_, hwhole b (hfree b hmem) ▸ hfree b hmem, heq⟩

/-! ## The calls -/

/-- The calls find the pool as a tiling in which no two buddies are free. -/
structure Ready (lo hi : Nat) (pool : TensorMemoryPool) : Prop where
  holding : Holding lo hi pool ∅
  coalesced : pool.Coalesced hi

/-- A size is rounded up to the least power of two that is not below it. -/
theorem roundToPowerOfTwo_le_iff (size k : Nat) :
    roundToPowerOfTwo size ≤ 2 ^ k ↔ size ≤ 2 ^ k := by
  have hpos := Nat.two_pow_pos k
  rw [roundToPowerOfTwo, Nat.pow_le_pow_iff_right Nat.one_lt_two, Nat.size_le]
  omega

/-- The order of an allocation. -/
def requiredOrder (lo : Nat) (size : Int) : Nat := Nat.size (max size.toNat (2 ^ lo) - 1)

private theorem requiredOrder_le_iff (size : Int) {k : Nat} (hk : lo ≤ k) :
    requiredOrder lo size ≤ k ↔ size ≤ (2 ^ k : Nat) := by
  have hpos := Nat.two_pow_pos k
  have hle : 2 ^ lo ≤ 2 ^ k := Nat.pow_le_pow_right Nat.two_pos hk
  rw [requiredOrder, Nat.size_le]
  omega

private theorem le_requiredOrder (lo : Nat) (size : Int) : lo ≤ requiredOrder lo size := by
  have hsize := Nat.lt_size_self (max size.toNat (2 ^ lo) - 1)
  rw [← requiredOrder] at hsize
  have hpos := Nat.two_pow_pos lo
  have hle : 2 ^ lo ≤ 2 ^ requiredOrder lo size := by omega
  exact (Nat.pow_le_pow_iff_right Nat.one_lt_two).mp hle

/-- An allocation takes a block that is large enough, or changes nothing. -/
theorem Ready.allocate_cases (h : Ready lo hi pool) (size : Int) :
    (∃ offset order pool', 0 < size ∧ requiredOrder lo size ≤ order ∧
      pool.FreeAt ⟨offset, order⟩ ∧
      pool.allocate size = (.ok (pool.baseAddress + offset), pool') ∧
      Carved lo hi pool pool' offset order (requiredOrder lo size) ∧ Ready lo hi pool') ∨
    (∃ e, pool.allocate size = (.error e, pool)) ∧
      (size ≤ 0 ∨ pool.maxBlockSize < roundToPowerOfTwo size.toNat ∨
        ∀ b, pool.FreeAt b → ((2 ^ b.order : Nat) : Int) < size) := by
  have hlo := le_requiredOrder lo size
  have hrequired : roundToPowerOfTwo (max size.toNat pool.minBlockSize) =
      2 ^ requiredOrder lo size := by
    rw [h.holding.listed.min_eq]
    rfl
  unfold TensorMemoryPool.allocate
  by_cases hpos : size ≤ 0
  · rw [if_pos hpos]
    exact .inr ⟨⟨_, rfl⟩, .inl hpos⟩
  · rw [if_neg hpos]
    dsimp only
    rw [hrequired]
    by_cases hmax : pool.maxBlockSize < 2 ^ requiredOrder lo size
    · rw [if_pos hmax]
      refine .inr ⟨⟨_, rfl⟩, .inr (.inl ?_)⟩
      rw [h.holding.listed.max_eq] at hmax ⊢
      rw [Nat.pow_lt_pow_iff_right Nat.one_lt_two, ← Nat.not_le,
        requiredOrder_le_iff size h.holding.listed.lo_le] at hmax
      rw [← Nat.not_le, roundToPowerOfTwo_le_iff]
      omega
    · rw [if_neg hmax]
      rcases h.holding.allocateFrom hlo le_rfl fun _ _ hle => hle with
        ⟨offset, order, pool', hr, hfree, hleast, halloc, hcarved⟩ | ⟨herror, hnone⟩
      · exact .inl ⟨offset, order, pool', not_le.mp hpos, hr, hfree, halloc, hcarved,
          hcarved.holding, hcarved.coalesced h.holding h.coalesced hfree hleast⟩
      · refine .inr ⟨⟨_, herror⟩, .inr (.inr fun b hb => ?_)⟩
        have hlt := hnone b hb
        rw [← Nat.not_le, requiredOrder_le_iff size (h.holding.tiling.lo_le b (.inl hb))] at hlt
        exact not_le.mp hlt

/-- An allocation does what it should. -/
theorem Ready.allocateSound (h : Ready lo hi pool) (size : Int) : pool.AllocateSound size := by
  rcases h.allocate_cases size with
    ⟨offset, order, pool', hpos, hr, hfree, halloc, hcarved, -⟩ | ⟨⟨e, herror⟩, hreason⟩
  · have hlo := h.holding.tiling.lo_le _ (.inl hfree)
    have hhi := h.holding.tiling.le_hi _ (.inl hfree)
    have hsize : size ≤ ((2 ^ order : Nat) : Int) := (requiredOrder_le_iff size hlo).mp hr
    refine ⟨iff_of_false ?_ ?_, fun e herror => ?_, fun addr hok => ?_⟩
    · rintro ⟨e, herror⟩
      rw [halloc] at herror
      cases herror
    · rintro (hnot | hmax | hnone)
      · omega
      · rw [h.holding.listed.max_eq, ← Nat.not_le, roundToPowerOfTwo_le_iff] at hmax
        have hle : 2 ^ order ≤ 2 ^ hi := Nat.pow_le_pow_right Nat.two_pos hhi
        omega
      · have hlt := hnone (pool.record ⟨offset, order⟩)
          ((h.holding.listed.free_iff _).mpr ⟨_, hfree, rfl⟩)
        have hlt' : ((2 ^ order : Nat) : Int) < size := hlt
        omega
    · rw [halloc] at herror
      cases herror
    · rw [halloc] at hok ⊢
      obtain rfl := Except.ok.inj hok
      have hrecord : ∀ b, pool'.record b = pool.record b := fun b => by
        rw [record, record, hcarved.base_eq]
      refine ⟨pool.record ⟨offset, requiredOrder lo size⟩, rfl,
        (requiredOrder_le_iff size (le_requiredOrder lo size)).mp le_rfl, fun hold => ?_,
        fun block => ?_⟩
      · obtain ⟨b, hb, heq⟩ := (h.holding.listed.allocated_iff _).mp hold
        obtain rfl := record_inj pool heq
        have hsame := h.holding.tiling.eq_of_offset (.inr (.inl hb)) (.inl hfree) rfl
        exact h.holding.not_both _ hfree (hsame ▸ hb)
      · rw [hcarved.holding.listed.allocated_iff, h.holding.listed.allocated_iff]
        simp only [hcarved.allocated_iff, hrecord]
        constructor
        · rintro ⟨b, hb | rfl, rfl⟩
          · exact .inl ⟨b, hb, rfl⟩
          · exact .inr rfl
        · rintro (⟨b, hb, rfl⟩ | rfl)
          · exact ⟨b, .inl hb, rfl⟩
          · exact ⟨_, .inr rfl, rfl⟩
  · refine ⟨iff_of_true ⟨e, by rw [herror]⟩ ?_, fun _ _ => by rw [herror], fun addr hok => ?_⟩
    · refine hreason.imp_right (Or.imp_right fun hnone block hblock => ?_)
      obtain ⟨b, hb, rfl⟩ := (h.holding.listed.free_iff block).mp hblock
      exact hnone b hb
    · rw [herror] at hok
      cases hok

/-- Freeing does what it should. -/
theorem Ready.freeSound (h : Ready lo hi pool) (addr : Int) : pool.FreeSound addr := by
  by_cases hsome : ∃ b, pool.AllocatedAt b ∧ addr = pool.baseAddress + b.offset
  · obtain ⟨b, hb, rfl⟩ := hsome
    obtain ⟨pool', hfree, hfreed⟩ := h.holding.free h.coalesced hb
    have hrecord : ∀ b, pool'.record b = pool.record b := fun b => by
      rw [record, record, hfreed.base_eq]
    refine ⟨iff_of_false ?_ fun hnot => ?_, fun e herror => ?_, fun _ block => ?_⟩
    · rintro ⟨e, herror⟩
      rw [hfree] at herror
      cases herror
    · exact hnot (pool.record b) ((h.holding.listed.allocated_iff _).mpr ⟨b, hb, rfl⟩) rfl
    · rw [hfree] at herror
      cases herror
    · rw [hfree]
      dsimp only
      rw [hfreed.holding.listed.allocated_iff, h.holding.listed.allocated_iff]
      simp only [hfreed.allocated_iff, hrecord]
      constructor
      · rintro ⟨c, ⟨hc, hne⟩, rfl⟩
        refine ⟨⟨c, hc, rfl⟩, fun haddr => hne ?_⟩
        have haddr' : pool.baseAddress + (c.offset : Int) = pool.baseAddress + b.offset := haddr
        exact h.holding.tiling.eq_of_offset (.inr (.inl hc)) (.inr (.inl hb)) (by omega)
      · rintro ⟨⟨c, hc, rfl⟩, hne⟩
        refine ⟨c, ⟨hc, ?_⟩, rfl⟩
        rintro rfl
        exact hne rfl
  · have herror := h.holding.free_error fun b hb heq => hsome ⟨b, hb, heq⟩
    refine ⟨iff_of_true ⟨_, by rw [herror]⟩ fun block hblock heq => ?_, fun _ _ => by rw [herror],
      fun hok => ?_⟩
    · obtain ⟨b, hb, rfl⟩ := (h.holding.listed.allocated_iff block).mp hblock
      exact hsome ⟨b, hb, heq.symm⟩
    · rw [herror] at hok
      cases hok

/-- The merges of one call suffice for a block of any order. -/
theorem Ready.after (h : Ready lo hi pool) (hdepth : hi ≤ lo + maxMergeDepth) (call : PoolCall) :
    Ready lo hi (pool.after call) := by
  cases call with
  | allocate size =>
    show Ready lo hi (pool.allocate size).2
    rcases h.allocate_cases size with ⟨_, _, pool', _, _, _, halloc, _, hready⟩ | ⟨⟨e, herror⟩, _⟩
    · rw [halloc]
      exact hready
    · rw [herror]
      exact h
  | free addr =>
    show Ready lo hi (pool.free addr).2
    by_cases hsome : ∃ b, pool.AllocatedAt b ∧ addr = pool.baseAddress + b.offset
    · obtain ⟨b, hb, rfl⟩ := hsome
      obtain ⟨pool', hfree, hfreed⟩ := h.holding.free h.coalesced hb
      have hlo := h.holding.tiling.lo_le b (.inr (.inl hb))
      rw [hfree]
      exact ⟨hfreed.holding, hfreed.coalesced (by omega)⟩
    · rw [h.holding.free_error fun b hb heq => hsome ⟨b, hb, heq⟩]
      exact h

/-- Every history is sound where the merges suffice. -/
theorem Ready.runSound (h : Ready lo hi pool) (hdepth : hi ≤ lo + maxMergeDepth)
    (calls : List PoolCall) : pool.RunSound calls := by
  induction calls generalizing pool with
  | nil => exact h.holding.partitioned h.coalesced
  | cons call calls ih =>
    refine ⟨h.holding.partitioned h.coalesced, ?_, ih (h.after hdepth call)⟩
    cases call with
    | allocate size => exact h.allocateSound size
    | free addr => exact h.freeSound addr

/-! ## The pool at the start -/

/-- There is an empty list for each size. -/
theorem initializeFreeLists_spec (lo hi : Nat) (lists : Dict Nat (Dict Int MemoryBlock)) :
    (∀ o, lo ≤ o → o ≤ hi →
      (initializeFreeLists (2 ^ lo) (2 ^ hi) lists).get? (2 ^ o) = some Dict.empty) ∧
    ∀ size, (∀ o, lo ≤ o → o ≤ hi → size ≠ 2 ^ o) →
      (initializeFreeLists (2 ^ lo) (2 ^ hi) lists).get? size = lists.get? size := by
  induction hi generalizing lists with
  | zero =>
    by_cases hlo : lo = 0
    · subst hlo
      have hstep : initializeFreeLists (2 ^ 0) (2 ^ 0) lists =
          lists.insert (2 ^ 0) Dict.empty := by
        rw [initializeFreeLists, dif_pos ⟨le_rfl, Nat.two_pow_pos 0⟩, initializeFreeLists,
          dif_neg fun h => Nat.not_lt_zero _ h.2]
      rw [hstep]
      refine ⟨fun o _ ho => ?_, fun size hsize => ?_⟩
      · obtain rfl := Nat.le_zero.mp ho
        rw [Dict.get?_insert, if_pos rfl]
      · rw [Dict.get?_insert, if_neg (hsize 0 le_rfl le_rfl)]
    · have hlt : 2 ^ 0 < 2 ^ lo := Nat.pow_lt_pow_right Nat.one_lt_two (Nat.pos_of_ne_zero hlo)
      rw [initializeFreeLists, dif_neg fun h => Nat.not_le.mpr hlt h.1]
      exact ⟨fun o ho ho' => by omega, fun _ _ => rfl⟩
  | succ hi ih =>
    by_cases hlo : lo ≤ hi + 1
    · have hle : 2 ^ lo ≤ 2 ^ (hi + 1) := Nat.pow_le_pow_right Nat.two_pos hlo
      obtain ⟨hsmaller, hother⟩ := ih (lists.insert (2 ^ (hi + 1)) Dict.empty)
      rw [initializeFreeLists, dif_pos ⟨hle, Nat.two_pow_pos _⟩,
        show 2 ^ (hi + 1) / 2 = 2 ^ hi by rw [Nat.pow_succ, Nat.mul_div_cancel _ Nat.two_pos]]
      refine ⟨fun o ho ho' => ?_, fun size hsize => ?_⟩
      · rcases ho'.lt_or_eq with hlt | rfl
        · exact hsmaller o ho (Nat.lt_succ_iff.mp hlt)
        · rw [hother _ fun o _ ho heq => ?_, Dict.get?_insert, if_pos rfl]
          have := two_pow_inj heq
          omega
      · rw [hother size fun o ho ho' => hsize o ho (ho'.trans (Nat.le_succ hi)),
          Dict.get?_insert, if_neg (hsize (hi + 1) hlo le_rfl)]
    · have hlt : 2 ^ (hi + 1) < 2 ^ lo := Nat.pow_lt_pow_right Nat.one_lt_two (not_le.mp hlo)
      rw [initializeFreeLists, dif_neg fun h => Nat.not_le.mpr hlt h.1]
      exact ⟨fun o ho ho' => by omega, fun _ _ => rfl⟩

/-- The pool at the start is one free block. -/
theorem init_spec {maxBlockSize minBlockSize : Int} (base : Int) (hmin : 1 ≤ minBlockSize)
    (hmax : minBlockSize ≤ maxBlockSize) :
    ∃ pool lo hi, init maxBlockSize minBlockSize base = .ok pool ∧ Ready lo hi pool ∧
      pool.baseAddress = base ∧ (∀ b, pool.FreeAt b ↔ b = ⟨0, hi⟩) ∧
      (hi ≤ lo + maxMergeDepth ↔ roundToPowerOfTwo maxBlockSize.toNat ≤
        2 ^ maxMergeDepth * roundToPowerOfTwo minBlockSize.toNat) := by
  obtain ⟨lo, hlo⟩ : ∃ lo, Nat.size (minBlockSize.toNat - 1) = lo := ⟨_, rfl⟩
  obtain ⟨hi, hhi⟩ : ∃ hi, Nat.size (maxBlockSize.toNat - 1) = hi := ⟨_, rfl⟩
  have hle : lo ≤ hi := hlo ▸ hhi ▸ Nat.size_le_size (by omega)
  obtain ⟨hlists, hother⟩ := initializeFreeLists_spec lo hi Dict.empty
  obtain ⟨empty, hempty⟩ : ∃ empty : TensorMemoryPool, empty =
      ⟨2 ^ hi, 2 ^ lo, initializeFreeLists (2 ^ lo) (2 ^ hi) Dict.empty, Dict.empty, base⟩ :=
    ⟨_, rfl⟩
  have hsizes : ∀ size list, empty.freeLists.get? size = some list →
      (∃ o, lo ≤ o ∧ o ≤ hi ∧ size = 2 ^ o) ∧ list = Dict.empty := by
    intro size list hlist
    rw [hempty] at hlist
    dsimp only at hlist
    by_cases hsize : ∃ o, lo ≤ o ∧ o ≤ hi ∧ size = 2 ^ o
    · obtain ⟨o, ho, ho', rfl⟩ := id hsize
      rw [hlists o ho ho'] at hlist
      exact ⟨hsize, (Option.some.inj hlist).symm⟩
    · rw [hother size fun o ho ho' heq => hsize ⟨o, ho, ho', heq⟩, Dict.get?_empty] at hlist
      cases hlist
  have hlisted : Listed lo hi empty := by
    refine ⟨by rw [hempty], by rw [hempty], hle, fun size => ⟨fun hsome => ?_, ?_⟩,
      fun size list addr block hlist hget => ?_, fun addr block hget => ?_⟩
    · obtain ⟨list, hlist⟩ := Option.isSome_iff_exists.mp hsome
      exact (hsizes size list hlist).1
    · rintro ⟨o, ho, ho', rfl⟩
      rw [hempty]
      exact Option.isSome_iff_exists.mpr ⟨_, hlists o ho ho'⟩
    · rw [(hsizes size list hlist).2, Dict.get?_empty] at hget
      cases hget
    · rw [hempty] at hget
      cases hget
  have hfree : ∀ b, ¬ empty.FreeAt b := by
    rintro b ⟨list, hlist, hsome⟩
    rw [(hsizes _ list hlist).2, Dict.get?_empty] at hsome
    cases hsome
  have halloc : ∀ b, ¬ empty.AllocatedAt b := by
    intro b hb
    rw [AllocatedAt, hempty] at hb
    cases hb
  have hheld : Holding lo hi empty {⟨0, hi⟩} := by
    refine ⟨hlisted, ?_, fun b hb => absurd hb (hfree b), fun b _ => ⟨hfree b, halloc b⟩⟩
    have hset : ({⟨0, hi⟩} : Set Block) =
        {b | empty.FreeAt b ∨ empty.AllocatedAt b ∨ b ∈ ({⟨0, hi⟩} : Set Block)} := by
      ext b
      simp only [Set.mem_ofPred_eq, hfree, halloc, false_or]
    exact hset ▸ tiling_whole hle
  obtain ⟨list, henter, hholding, hfree'⟩ := hheld.enter
  have hiff : ∀ b, (empty.setList (2 ^ hi) list).FreeAt b ↔ b = ⟨0, hi⟩ := fun b =>
    (hfree' b).trans (or_iff_right (hfree b))
  refine ⟨empty.setList (2 ^ hi) list, lo, hi, ?_, ⟨hholding, fun b hb hlt => ?_⟩, ?_, hiff, ?_⟩
  · have hrecord : (⟨2 ^ hi, base⟩ : MemoryBlock) = empty.record ⟨0, hi⟩ := by
      rw [record, hempty]
      exact congrArg (MemoryBlock.mk _) (Int.add_zero base).symm
    rw [init, if_neg (by omega), if_neg (by omega)]
    dsimp only [roundToPowerOfTwo]
    rw [hlo, hhi, ← hempty, hrecord, henter]
  · rw [(hiff b).mp hb] at hlt
    exact absurd hlt (lt_irrefl hi)
  · rw [hempty]
    rfl
  · rw [roundToPowerOfTwo, roundToPowerOfTwo, hlo, hhi, ← Nat.pow_add,
      Nat.pow_le_pow_iff_right Nat.one_lt_two, Nat.add_comm]

/-! ## Merges that do not suffice -/

/-- Where all the buddies on the way up are free, merging stops at its depth. -/
theorem Holding.mergeBuddies_stops {o depth : Nat} (h : Holding lo hi pool {⟨0, o⟩})
    (hupper : ∀ k, o ≤ k → k < hi → pool.FreeAt ⟨2 ^ k, k⟩) (hlt : o + depth < hi) :
    ∃ pool', (TensorMemoryPool.mergeBuddies depth pool (pool.record ⟨0, o⟩)).2 = pool' ∧
      Holding lo hi pool' ∅ ∧ pool'.FreeAt ⟨0, o + depth⟩ ∧
      pool'.FreeAt ⟨2 ^ (o + depth), o + depth⟩ := by
  induction depth generalizing pool o with
  | zero =>
    obtain ⟨list, henter, hholding, hfree⟩ := h.enter
    refine ⟨_, ?_, hholding, (hfree _).mpr (.inr rfl), (hfree _).mpr (.inl (hupper o le_rfl hlt))⟩
    rw [TensorMemoryPool.mergeBuddies]
    exact congrArg Prod.snd henter
  | succ depth ih =>
    obtain ⟨-, hbuddy, hparent⟩ := lowerHalf (show (Block.mk 0 (o + 1)).Aligned from Nat.dvd_zero _)
    rw [Nat.zero_add] at hbuddy
    have hbuddyFree : pool.FreeAt (Block.mk 0 o).buddy := by
      rw [hbuddy]
      exact hupper o le_rfl (by omega)
    obtain ⟨list, hmerge, hholding, hfree⟩ := h.merge hbuddyFree depth
    rw [hparent] at hholding hmerge
    obtain ⟨pool', hstop, hholding', hlow, hhigh⟩ := ih hholding (fun k hk hk' => by
      refine (hfree _).mpr ⟨hupper k (by omega) hk', fun heq => ?_⟩
      rw [hbuddy] at heq
      have : k = o := congrArg Block.order heq
      omega) (by omega)
    rw [Nat.add_right_comm] at hlow hhigh
    exact ⟨pool', (congrArg Prod.snd hmerge).trans hstop, hholding', hlow, hhigh⟩

/-- The smallest block is allocated at the start of the region and freed again. -/
theorem Ready.not_runSound (h : Ready lo hi pool) (hfree : ∀ b, pool.FreeAt b ↔ b = ⟨0, hi⟩)
    (hdepth : lo + maxMergeDepth < hi) :
    ¬ pool.RunSound [.allocate 1, .free pool.baseAddress] := by
  rintro ⟨-, -, -, -, hpartitioned⟩
  have hone := Nat.two_pow_pos lo
  have horder : requiredOrder lo 1 = lo :=
    le_antisymm ((requiredOrder_le_iff 1 le_rfl).mpr (by omega)) (le_requiredOrder lo 1)
  have hhi := Nat.two_pow_pos hi
  rcases h.allocate_cases 1 with
    ⟨offset, order, pool', -, -, hat, halloc, hcarved, -⟩ | ⟨-, hreason⟩
  · obtain ⟨rfl, rfl⟩ : offset = 0 ∧ order = hi := Block.mk.inj ((hfree _).mp hat)
    rw [horder] at hcarved
    have hlower : pool'.AllocatedAt ⟨0, lo⟩ := (hcarved.allocated_iff _).mpr (.inr rfl)
    have hbase : pool.baseAddress = pool'.baseAddress + ((0 : Nat) : Int) := by
      rw [hcarved.base_eq]
      exact (Int.add_zero _).symm
    obtain ⟨htaken, -⟩ := hcarved.holding.take hlower
    obtain ⟨pool'', hstop, hholding, hlow, hhigh⟩ := htaken.mergeBuddies_stops (fun k hk hk' =>
      (hcarved.free_iff _).mpr (.inr ⟨k, hk, hk', by rw [Nat.zero_add]⟩)) hdepth
    have hget : pool'.allocatedBlocks.get? (pool'.baseAddress + ((0 : Nat) : Int)) =
        some (pool'.record ⟨0, lo⟩) := hlower
    have hafter : (pool.after (.allocate 1)).after (.free pool.baseAddress) = pool'' := by
      rw [← hstop]
      show ((pool.allocate 1).2.free pool.baseAddress).2 = _
      rw [halloc, TensorMemoryPool.free, hbase]
      dsimp only
      rw [hget]
      rfl
    have hpartitioned' : pool''.Partitioned := hafter ▸ hpartitioned
    generalize lo + maxMergeDepth = top at hlow hhigh
    refine hpartitioned'.coalesced (pool''.record ⟨0, top⟩) (pool''.record ⟨2 ^ top, top⟩)
      ((hholding.listed.free_iff _).mpr ⟨_, hlow, rfl⟩)
      ((hholding.listed.free_iff _).mpr ⟨_, hhigh, rfl⟩) rfl ?_ ?_
    · show pool''.baseAddress + ((2 ^ top : Nat) : Int) =
        pool''.baseAddress + ((0 : Nat) : Int) + ((2 ^ top : Nat) : Int)
      omega
    · show _ ∣ pool''.baseAddress + ((0 : Nat) : Int) - pool''.baseAddress
      rw [add_sub_cancel_left]
      exact Int.dvd_zero _
  · rcases hreason with hnot | hmax | hnone
    · omega
    · rw [h.holding.listed.max_eq, ← Nat.not_le, roundToPowerOfTwo_le_iff] at hmax
      have : ¬ (1 : Int).toNat ≤ 2 ^ hi := hmax
      omega
    · have hsmall : ((2 ^ hi : Nat) : Int) < 1 := hnone _ ((hfree _).mpr rfl)
      omega

/-! ## Every history -/

end TensorMemoryPool

end Vllm.Distributed
