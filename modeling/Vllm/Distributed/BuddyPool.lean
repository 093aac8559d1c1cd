import Vllm.Distributed.TensorMemoryPool
import Vllm.Library.Buddies

/-!
# The pool is a buddy system

The free and the allocated blocks of the pool, and the block that a call has in its hands, are a
tiling of the region by buddies. Splitting and merging keep it, and calls that succeed leave no two
free buddies, as long as merging is not stopped by its depth.
-/

namespace Vllm.Distributed

open Buddies

namespace TensorMemoryPool

/-- A block is in the free list of its size. -/
def FreeAt (pool : TensorMemoryPool) (b : Block) : Prop :=
  ∃ list, pool.freeLists.get? (2 ^ b.order) = some list ∧
    (list.get? (pool.baseAddress + b.offset)).isSome = true

/-- The record of a block. -/
def record (pool : TensorMemoryPool) (b : Block) : MemoryBlock :=
  ⟨2 ^ b.order, pool.baseAddress + b.offset⟩

/-- A block is allocated. -/
def AllocatedAt (pool : TensorMemoryPool) (b : Block) : Prop :=
  pool.allocatedBlocks.get? (pool.baseAddress + b.offset) = some (pool.record b)

variable {pool pool' : TensorMemoryPool} {lo hi : Nat} {b : Block} {held : Set Block}

/-- The entries of the pool are under their sizes and addresses. -/
structure Listed (lo hi : Nat) (pool : TensorMemoryPool) : Prop where
  max_eq : pool.maxBlockSize = 2 ^ hi
  min_eq : pool.minBlockSize = 2 ^ lo
  lo_le : lo ≤ hi
  sizes : ∀ size, (pool.freeLists.get? size).isSome = true ↔ ∃ o, lo ≤ o ∧ o ≤ hi ∧ size = 2 ^ o
  free : ∀ size list addr block, pool.freeLists.get? size = some list →
    list.get? addr = some block → block = ⟨size, addr⟩ ∧ pool.baseAddress ≤ addr
  allocated : ∀ addr block, pool.allocatedBlocks.get? addr = some block →
    pool.baseAddress ≤ addr ∧ ∃ o, block = ⟨2 ^ o, addr⟩

/-- There is a free list for each order. -/
theorem Listed.exists_list (h : Listed lo hi pool) {o : Nat} (hlo : lo ≤ o) (hhi : o ≤ hi) :
    ∃ list, pool.freeLists.get? (2 ^ o) = some list :=
  Option.isSome_iff_exists.mp ((h.sizes _).mpr ⟨o, hlo, hhi, rfl⟩)

/-- A free block is listed with its record. -/
theorem Listed.record_of_free (h : Listed lo hi pool) {list : Dict Int MemoryBlock}
    (hlist : pool.freeLists.get? (2 ^ b.order) = some list) (hfree : pool.FreeAt b) :
    list.get? (pool.baseAddress + b.offset) = some (pool.record b) := by
  obtain ⟨list', hlist', hsome⟩ := hfree
  rw [hlist] at hlist'
  obtain rfl := Option.some.inj hlist'
  obtain ⟨block, hblock⟩ := Option.isSome_iff_exists.mp hsome
  rw [hblock, (h.free _ _ _ _ hlist hblock).1]
  rfl

/-- Orders of equal sizes are equal. -/
theorem two_pow_inj {m n : Nat} (h : 2 ^ m = 2 ^ n) : m = n :=
  Nat.pow_right_injective (le_refl 2) h

/-- A block is free where its list has its address. -/
theorem freeAt_iff {list : Dict Int MemoryBlock}
    (hlist : pool.freeLists.get? (2 ^ b.order) = some list) :
    pool.FreeAt b ↔ (list.get? (pool.baseAddress + b.offset)).isSome = true := by
  unfold FreeAt
  rw [hlist]
  constructor
  · rintro ⟨list', hlist', hsome⟩
    obtain rfl := Option.some.inj hlist'
    exact hsome
  · exact fun hsome => ⟨list, rfl, hsome⟩

/-- The pool with another list of one size. -/
def setList (pool : TensorMemoryPool) (size : Nat) (list : Dict Int MemoryBlock) :
    TensorMemoryPool :=
  { pool with freeLists := pool.freeLists.insert size list }

/-- Another free list of an order is put in place. -/
theorem Listed.setList (h : Listed lo hi pool) {o : Nat} (hlo : lo ≤ o) (hhi : o ≤ hi)
    (list : Dict Int MemoryBlock)
    (hlist : ∀ addr block, list.get? addr = some block →
      block = ⟨2 ^ o, addr⟩ ∧ pool.baseAddress ≤ addr) :
    Listed lo hi (pool.setList (2 ^ o) list) ∧ ∀ b, (pool.setList (2 ^ o) list).FreeAt b ↔
      if b.order = o then (list.get? (pool.baseAddress + b.offset)).isSome = true
      else pool.FreeAt b := by
  refine ⟨⟨h.max_eq, h.min_eq, h.lo_le, fun size => ?_, fun size list' addr block hget hblock => ?_,
    h.allocated⟩, fun b => ?_⟩
  · rw [TensorMemoryPool.setList, Dict.get?_insert]
    split
    next hsize => exact iff_of_true rfl ⟨o, hlo, hhi, hsize⟩
    next => exact h.sizes size
  · rw [TensorMemoryPool.setList, Dict.get?_insert] at hget
    split at hget
    next hsize =>
      obtain rfl := Option.some.inj hget
      rw [hsize]
      exact hlist addr block hblock
    next => exact h.free size list' addr block hget hblock
  · by_cases ho : b.order = o
    · rw [if_pos ho]
      refine freeAt_iff ?_
      rw [TensorMemoryPool.setList, Dict.get?_insert, if_pos (by rw [ho])]
    · rw [if_neg ho]
      unfold FreeAt
      rw [TensorMemoryPool.setList, Dict.get?_insert, if_neg fun hsize => ho (two_pow_inj hsize)]

/-- A block is entered into its free list. -/
theorem Listed.enterFree (h : Listed lo hi pool) (hlo : lo ≤ b.order) (hhi : b.order ≤ hi) :
    ∃ list, pool.enterFree (2 ^ b.order) (pool.record b) =
        (.ok (), pool.setList (2 ^ b.order) list) ∧
      Listed lo hi (pool.setList (2 ^ b.order) list) ∧
      ∀ c, (pool.setList (2 ^ b.order) list).FreeAt c ↔ pool.FreeAt c ∨ c = b := by
  obtain ⟨list, hlist⟩ := h.exists_list hlo hhi
  have hrecords : ∀ addr block, (list.insert (pool.record b).addr (pool.record b)).get? addr =
      some block → block = ⟨2 ^ b.order, addr⟩ ∧ pool.baseAddress ≤ addr := by
    intro addr block hget
    rw [Dict.get?_insert] at hget
    split at hget
    next haddr =>
      obtain rfl := Option.some.inj hget
      rw [haddr]
      exact ⟨rfl, Int.le_add_of_nonneg_right (Int.natCast_nonneg _)⟩
    next => exact h.free _ _ _ _ hlist hget
  obtain ⟨hlisted, hfree⟩ := h.setList hlo hhi _ hrecords
  refine ⟨list.insert (pool.record b).addr (pool.record b),
    by rw [TensorMemoryPool.enterFree, hlist]; rfl, hlisted, fun c => ?_⟩
  rw [hfree c]
  by_cases ho : c.order = b.order
  · rw [if_pos ho, Dict.get?_insert, freeAt_iff (ho ▸ hlist)]
    by_cases hoff : c.offset = b.offset
    · have heq : c = b := Block.ext hoff ho
      rw [if_pos (by rw [hoff]; rfl)]
      exact iff_of_true rfl (.inr heq)
    · have hne : c ≠ b := fun heq => hoff (congrArg Block.offset heq)
      have haddr : pool.baseAddress + c.offset ≠ (pool.record b).addr := by
        show pool.baseAddress + c.offset ≠ pool.baseAddress + b.offset
        omega
      rw [if_neg haddr, or_iff_left hne]
  · have hne : c ≠ b := fun heq => ho (congrArg Block.order heq)
    rw [if_neg ho, or_iff_left hne]

/-- A block is taken out of its free list. -/
theorem Listed.erase (h : Listed lo hi pool) (hlo : lo ≤ b.order) (hhi : b.order ≤ hi)
    {list : Dict Int MemoryBlock} (hlist : pool.freeLists.get? (2 ^ b.order) = some list) :
    Listed lo hi (pool.setList (2 ^ b.order) (list.erase (pool.record b).addr)) ∧
    ∀ c, (pool.setList (2 ^ b.order) (list.erase (pool.record b).addr)).FreeAt c ↔
      pool.FreeAt c ∧ c ≠ b := by
  have hrecords : ∀ addr block, (list.erase (pool.record b).addr).get? addr = some block →
      block = ⟨2 ^ b.order, addr⟩ ∧ pool.baseAddress ≤ addr := by
    intro addr block hget
    rw [Dict.get?_erase] at hget
    split at hget
    next => cases hget
    next => exact h.free _ _ _ _ hlist hget
  obtain ⟨hlisted, hfree⟩ := h.setList hlo hhi _ hrecords
  refine ⟨hlisted, fun c => ?_⟩
  rw [hfree c]
  by_cases ho : c.order = b.order
  · rw [if_pos ho, Dict.get?_erase, freeAt_iff (ho ▸ hlist)]
    by_cases hoff : c.offset = b.offset
    · have heq : c = b := Block.ext hoff ho
      rw [if_pos (by rw [hoff]; rfl)]
      exact iff_of_false (by simp) fun hboth => hboth.2 heq
    · have hne : c ≠ b := fun heq => hoff (congrArg Block.offset heq)
      have haddr : pool.baseAddress + c.offset ≠ (pool.record b).addr := by
        show pool.baseAddress + c.offset ≠ pool.baseAddress + b.offset
        omega
      rw [if_neg haddr, and_iff_left hne]
  · have hne : c ≠ b := fun heq => ho (congrArg Block.order heq)
    rw [if_neg ho, and_iff_left hne]

/-! ## Splitting -/

/-- The pool and the blocks that a call has in its hands are a tiling of the region. -/
structure Holding (lo hi : Nat) (pool : TensorMemoryPool) (held : Set Block) : Prop where
  listed : Listed lo hi pool
  tiling : Tiling lo hi {b | pool.FreeAt b ∨ pool.AllocatedAt b ∨ b ∈ held}
  not_both : ∀ b, pool.FreeAt b → ¬ pool.AllocatedAt b
  not_held : ∀ b ∈ held, ¬ pool.FreeAt b ∧ ¬ pool.AllocatedAt b

/-- The lower half of an aligned block. -/
theorem lowerHalf {offset order : Nat} (h : (Block.mk offset (order + 1)).Aligned) :
    (Block.mk offset order).Aligned ∧
      (Block.mk offset order).buddy = ⟨offset + 2 ^ order, order⟩ ∧
      (Block.mk offset order).parent = ⟨offset, order + 1⟩ := by
  have hmod : offset % 2 ^ (order + 1) = 0 := Nat.mod_eq_zero_of_dvd h
  have hbuddy : (Block.mk offset order).buddy = ⟨offset + 2 ^ order, order⟩ := by
    rw [Block.buddy]
    exact if_pos hmod
  refine ⟨(Nat.pow_dvd_pow 2 (Nat.le_succ order)).trans h, hbuddy, ?_⟩
  rw [Block.parent, hbuddy]
  exact Block.ext (Nat.min_eq_left (Nat.le_add_right _ _)) rfl

/-- One turn of splitting: the upper half is entered, and the lower half is held. -/
theorem Holding.split {offset order : Nat} (h : Holding lo hi pool {⟨offset, order + 1⟩})
    (hlo : lo ≤ order) :
    ∃ list, pool.enterFree (2 ^ order) ⟨2 ^ order, pool.baseAddress + offset + (2 ^ order : Nat)⟩ =
        (.ok (), pool.setList (2 ^ order) list) ∧
      Holding lo hi (pool.setList (2 ^ order) list) {⟨offset, order⟩} ∧
      ∀ c, (pool.setList (2 ^ order) list).FreeAt c ↔
        pool.FreeAt c ∨ c = ⟨offset + 2 ^ order, order⟩ := by
  have hmem : (Block.mk offset (order + 1)) ∈
      {b | pool.FreeAt b ∨ pool.AllocatedAt b ∨ b ∈ ({⟨offset, order + 1⟩} : Set Block)} :=
    .inr (.inr rfl)
  obtain ⟨haligned, hbuddy, hparent⟩ := lowerHalf (h.tiling.aligned _ hmem)
  have hhi : order ≤ hi := (Nat.le_succ order).trans (h.tiling.le_hi _ hmem)
  obtain ⟨list, henter, hlisted, hfree⟩ :=
    h.listed.enterFree (b := ⟨offset + 2 ^ order, order⟩) hlo hhi
  -- The halves are not among the other blocks, which do not overlap with the block.
  have hnew : ∀ c, c = ⟨offset, order⟩ ∨ c = (Block.mk offset order).buddy →
      ¬ pool.FreeAt c ∧ ¬ pool.AllocatedAt c := by
    intro c hc
    have hoverlap : (Block.mk offset order).parent.Covers c.offset := by
      rw [Block.covers_iff_halves haligned]
      rcases hc with rfl | rfl
      · exact .inl (Block.covers_offset _)
      · exact .inr (Block.covers_offset _)
    have horder : c.order = order := by
      rcases hc with rfl | rfl
      · rfl
      · exact Block.buddy_order _
    rw [hparent] at hoverlap
    have hne : ∀ hold : c ∈ {b | pool.FreeAt b ∨ pool.AllocatedAt b ∨
        b ∈ ({⟨offset, order + 1⟩} : Set Block)}, False := by
      intro hold
      have heq := h.tiling.unique c hold _ hmem c.offset c.covers_offset hoverlap
      rw [heq] at horder
      exact Nat.succ_ne_self order horder
    exact ⟨fun hfree => hne (.inl hfree), fun halloc => hne (.inr (.inl halloc))⟩
  refine ⟨list, ?_, ⟨hlisted, ?_, fun c hc halloc => ?_, fun c hc => ?_⟩, hfree⟩
  · have hrecord : pool.record ⟨offset + 2 ^ order, order⟩ =
        ⟨2 ^ order, pool.baseAddress + offset + (2 ^ order : Nat)⟩ := by
      show (⟨2 ^ order, pool.baseAddress + ((offset + 2 ^ order : Nat) : Int)⟩ : MemoryBlock) = _
      rw [Int.natCast_add, Int.add_assoc]
    rw [← hrecord]
    exact henter
  · refine h.tiling.split haligned (by rw [hparent]; exact hmem) hlo fun c => ?_
    have hnot := h.not_held _ rfl
    rw [hparent, hbuddy]
    simp only [Set.mem_ofPred_eq, Set.mem_singleton_iff, hfree]
    constructor
    · rintro ((hold | rfl) | halloc | rfl)
      · exact .inl ⟨.inl hold, fun heq => hnot.1 (heq ▸ hold)⟩
      · exact .inr (.inr rfl)
      · exact .inl ⟨.inr (.inl halloc), fun heq => hnot.2 (heq ▸ halloc)⟩
      · exact .inr (.inl rfl)
    · rintro (⟨hold | halloc | rfl, hne⟩ | rfl | rfl)
      · exact .inl (.inl hold)
      · exact .inr (.inl halloc)
      · exact absurd rfl hne
      · exact .inr (.inr rfl)
      · exact .inl (.inr rfl)
  · rcases (hfree c).mp hc with hold | rfl
    · exact h.not_both c hold halloc
    · exact (hnew _ (.inr hbuddy.symm)).2 halloc
  · obtain rfl := hc
    refine ⟨fun hc => ?_, (hnew _ (.inl rfl)).2⟩
    rcases (hfree _).mp hc with hold | heq
    · exact (hnew _ (.inl rfl)).1 hold
    · have hoffset : offset = offset + 2 ^ order := congrArg Block.offset heq
      have := Nat.two_pow_pos order
      omega

/-- Splitting down to an order enters one block of each order on the way. -/
theorem Holding.splitBlock {offset order r : Nat} (h : Holding lo hi pool {⟨offset, order⟩})
    (hlo : lo ≤ r) (hr : r ≤ order) :
    ∃ lists, pool.splitBlock (pool.record ⟨offset, order⟩) (2 ^ r) =
        (.ok (pool.record ⟨offset, r⟩), { pool with freeLists := lists }) ∧
      Holding lo hi { pool with freeLists := lists } {⟨offset, r⟩} ∧
      ∀ c, FreeAt { pool with freeLists := lists } c ↔
        pool.FreeAt c ∨ ∃ o, r ≤ o ∧ o < order ∧ c = ⟨offset + 2 ^ o, o⟩ := by
  induction order generalizing pool with
  | zero =>
    obtain rfl : r = 0 := Nat.le_zero.mp hr
    refine ⟨pool.freeLists, ?_, h, fun c => ⟨.inl, ?_⟩⟩
    · rw [TensorMemoryPool.splitBlock, dif_neg]
      rintro ⟨hlt, -⟩
      exact lt_irrefl _ hlt
    · rintro (hold | ⟨o, -, ho, -⟩)
      · exact hold
      · exact absurd ho (Nat.not_lt_zero o)
  | succ order ih =>
    rcases hr.eq_or_lt with rfl | hlt
    · refine ⟨pool.freeLists, ?_, h, fun c => ⟨.inl, ?_⟩⟩
      · rw [TensorMemoryPool.splitBlock, dif_neg]
        rintro ⟨hless, -⟩
        exact lt_irrefl _ hless
      · rintro (hold | ⟨o, ho, ho', -⟩)
        · exact hold
        · omega
    · have hle : r ≤ order := Nat.lt_succ_iff.mp hlt
      obtain ⟨list, henter, hheld, hfree⟩ := h.split (hlo.trans hle)
      obtain ⟨lists, hsplit, hheld', hfree'⟩ := ih hheld hle
      have hhalf : 2 ^ (order + 1) / 2 = 2 ^ order := by
        rw [Nat.pow_succ, Nat.mul_div_cancel _ Nat.two_pos]
      have hcondition : 2 ^ r < (pool.record ⟨offset, order + 1⟩).size ∧
          pool.minBlockSize ≤ (pool.record ⟨offset, order + 1⟩).size / 2 := by
        refine ⟨Nat.pow_lt_pow_right Nat.one_lt_two hlt, ?_⟩
        show pool.minBlockSize ≤ 2 ^ (order + 1) / 2
        rw [hhalf, h.listed.min_eq]
        exact Nat.pow_le_pow_right Nat.two_pos (hlo.trans hle)
      refine ⟨lists, ?_, hheld', fun c => ?_⟩
      · rw [TensorMemoryPool.splitBlock, dif_pos hcondition]
        dsimp only [record]
        rw [hhalf, henter]
        exact hsplit
      · refine (hfree' c).trans ?_
        rw [hfree c]
        constructor
        · rintro ((hold | rfl) | ⟨o, ho, ho', rfl⟩)
          · exact .inl hold
          · exact .inr ⟨order, hle, Nat.lt_succ_self order, rfl⟩
          · exact .inr ⟨o, ho, by omega, rfl⟩
        · rintro (hold | ⟨o, ho, ho', rfl⟩)
          · exact .inl (.inl hold)
          · rcases Nat.lt_succ_iff_lt_or_eq.mp ho' with ho' | rfl
            · exact .inr ⟨o, ho, ho', rfl⟩
            · exact .inl (.inr rfl)

/-! ## Allocation -/

/-- A free block is taken into the hands of a call. -/
theorem Holding.pick (h : Holding lo hi pool ∅) (hb : pool.FreeAt b)
    {list : Dict Int MemoryBlock} (hlist : pool.freeLists.get? (2 ^ b.order) = some list) :
    Holding lo hi (pool.setList (2 ^ b.order) (list.erase (pool.record b).addr)) {b} ∧
    ∀ c, (pool.setList (2 ^ b.order) (list.erase (pool.record b).addr)).FreeAt c ↔
      pool.FreeAt c ∧ c ≠ b := by
  have hmem : b ∈ {b | pool.FreeAt b ∨ pool.AllocatedAt b ∨ b ∈ (∅ : Set Block)} := .inl hb
  obtain ⟨hlisted, hfree⟩ :=
    h.listed.erase (h.tiling.lo_le b hmem) (h.tiling.le_hi b hmem) hlist
  refine ⟨⟨hlisted, ?_, fun c hc => h.not_both c ((hfree c).mp hc).1, fun c hc => ?_⟩, hfree⟩
  · have hset : {b | pool.FreeAt b ∨ pool.AllocatedAt b ∨ b ∈ (∅ : Set Block)} =
        {c | (pool.setList (2 ^ b.order) (list.erase (pool.record b).addr)).FreeAt c ∨
          pool.AllocatedAt c ∨ c ∈ ({b} : Set Block)} := by
      ext c
      simp only [Set.mem_ofPred_eq, Set.mem_empty_iff_false, or_false, Set.mem_singleton_iff, hfree]
      by_cases hcb : c = b
      · subst hcb
        exact iff_of_true (.inl hb) (.inr (.inr rfl))
      · simp only [hcb, ne_eq, not_false_eq_true, and_true, or_false]
    exact hset ▸ h.tiling
  · obtain rfl := hc
    exact ⟨fun hc => ((hfree c).mp hc).2 rfl, h.not_both c hb⟩

/-- The pool with a block among the allocated ones. -/
def place (pool : TensorMemoryPool) (b : Block) : TensorMemoryPool :=
  { pool with allocatedBlocks :=
    pool.allocatedBlocks.insert (pool.baseAddress + b.offset) (pool.record b) }

/-- What is allocated at the address of a block, if nothing of the tiling but the block is. -/
theorem Holding.allocated_absent (h : Holding lo hi pool {b}) :
    pool.allocatedBlocks.get? (pool.baseAddress + b.offset) = none := by
  by_contra hsome
  obtain ⟨block, hblock⟩ := Option.ne_none_iff_exists'.mp hsome
  obtain ⟨-, o, rfl⟩ := h.listed.allocated _ _ hblock
  have halloc : pool.AllocatedAt ⟨b.offset, o⟩ := hblock
  have heq := h.tiling.eq_of_offset (b := ⟨b.offset, o⟩) (.inr (.inl halloc))
    (.inr (.inr rfl)) rfl
  exact (h.not_held b rfl).2 (heq ▸ halloc)

/-- A block in hand is allocated. -/
theorem Holding.place (h : Holding lo hi pool {b}) :
    Holding lo hi (pool.place b) ∅ ∧
      ∀ c, (pool.place b).AllocatedAt c ↔ pool.AllocatedAt c ∨ c = b := by
  have hnone := h.allocated_absent
  have halloc : ∀ c, (pool.place b).AllocatedAt c ↔ pool.AllocatedAt c ∨ c = b := by
    intro c
    show (pool.allocatedBlocks.insert (pool.baseAddress + b.offset) (pool.record b)).get?
      (pool.baseAddress + c.offset) = some (pool.record c) ↔ _
    rw [Dict.get?_insert]
    by_cases hoff : c.offset = b.offset
    · rw [if_pos (by rw [hoff])]
      constructor
      · intro heq
        have horder : 2 ^ b.order = 2 ^ c.order :=
          congrArg MemoryBlock.size (Option.some.inj heq)
        exact .inr (Block.ext hoff (two_pow_inj horder).symm)
      · rintro (hold | rfl)
        · have : pool.allocatedBlocks.get? (pool.baseAddress + c.offset) = some (pool.record c) :=
            hold
          rw [hoff, hnone] at this
          cases this
        · rfl
    · have hne : c ≠ b := fun heq => hoff (congrArg Block.offset heq)
      rw [if_neg (by omega), or_iff_left hne]
      rfl
  refine ⟨⟨⟨h.listed.max_eq, h.listed.min_eq, h.listed.lo_le, h.listed.sizes, h.listed.free,
    fun addr block hget => ?_⟩, ?_, fun c hc hc' => ?_, fun c hc => absurd hc id⟩, halloc⟩
  · have hget' : (pool.allocatedBlocks.insert (pool.baseAddress + b.offset) (pool.record b)).get?
      addr = some block := hget
    rw [Dict.get?_insert] at hget'
    split at hget'
    next haddr =>
      obtain rfl := Option.some.inj hget'
      subst haddr
      exact ⟨Int.le_add_of_nonneg_right (Int.natCast_nonneg _), b.order, rfl⟩
    next => exact h.listed.allocated addr block hget'
  · have hset : {c | pool.FreeAt c ∨ pool.AllocatedAt c ∨ c ∈ ({b} : Set Block)} =
        {c | (pool.place b).FreeAt c ∨ (pool.place b).AllocatedAt c ∨ c ∈ (∅ : Set Block)} := by
      ext c
      simp only [Set.mem_ofPred_eq, Set.mem_singleton_iff, Set.mem_empty_iff_false, or_false,
        halloc]
      rfl
    exact hset ▸ h.tiling
  · rcases (halloc c).mp hc' with hold | rfl
    · exact h.not_both c hc hold
    · exact (h.not_held c rfl).1 hc

/-- No two buddies are free. -/
def Coalesced (hi : Nat) (pool : TensorMemoryPool) : Prop :=
  ∀ b, pool.FreeAt b → b.order < hi → ¬ pool.FreeAt b.buddy

/-- The buddy of the buddy of an aligned block is the block. -/
theorem buddy_buddy {b : Block} (h : b.Aligned) : b.buddy.buddy = b := by
  have horder : b.buddy.order = b.order := Block.buddy_order b
  have hpos := Nat.two_pow_pos b.order
  have hsize : 2 ^ (b.order + 1) = 2 ^ b.order + 2 ^ b.order := by
    rw [Nat.pow_succ, Nat.mul_two]
  have hparent := h.halves.1
  have hmod : b.parent.offset % 2 ^ (b.order + 1) = 0 := Nat.mod_eq_zero_of_dvd hparent
  rcases h.halves.2 with ⟨hlow, hhigh⟩ | ⟨hhigh, hlow⟩
  · have hnot : ¬ b.buddy.offset % 2 ^ (b.buddy.order + 1) = 0 := by
      rw [horder, hhigh, Nat.add_mod, hmod, Nat.zero_add, Nat.mod_mod,
        Nat.mod_eq_of_lt (by omega)]
      omega
    rw [Block.buddy, if_neg hnot]
    refine Block.ext ?_ horder
    show b.buddy.offset - 2 ^ b.buddy.order = b.offset
    rw [horder]
    omega
  · have hzero : b.buddy.offset % 2 ^ (b.buddy.order + 1) = 0 := by rw [horder, hlow, hmod]
    rw [Block.buddy, if_pos hzero]
    refine Block.ext ?_ horder
    show b.buddy.offset + 2 ^ b.buddy.order = b.offset
    rw [horder]
    omega

/-- What an allocation of order `r` does with a free block: the lower end is allocated, and the
rest is free in blocks of all orders between. -/
structure Carved (lo hi : Nat) (pool pool' : TensorMemoryPool) (offset order r : Nat) : Prop where
  base_eq : pool'.baseAddress = pool.baseAddress
  holding : Holding lo hi pool' ∅
  free_iff : ∀ c, pool'.FreeAt c ↔
    (pool.FreeAt c ∧ c ≠ ⟨offset, order⟩) ∨ ∃ o, r ≤ o ∧ o < order ∧ c = ⟨offset + 2 ^ o, o⟩
  allocated_iff : ∀ c, pool'.AllocatedAt c ↔ pool.AllocatedAt c ∨ c = ⟨offset, r⟩

/-- The first size with a free block. -/
theorem Holding.carve {offset order r : Nat} (h : Holding lo hi pool ∅) (hlo : lo ≤ r)
    (hr : r ≤ order) (hfree : pool.FreeAt ⟨offset, order⟩) {list rest : Dict Int MemoryBlock}
    {addr : Int} {block : MemoryBlock} (hlist : pool.freeLists.get? (2 ^ order) = some list)
    (hpop : list.popLast = some ((addr, block), rest)) (haddr : addr = pool.baseAddress + offset) :
    ∃ pool', pool.allocateFrom (2 ^ r) (2 ^ order) = (.ok (pool.baseAddress + offset), pool') ∧
      Carved lo hi pool pool' offset order r := by
  obtain ⟨hget, hrest⟩ := Dict.popLast_eq_some hpop
  subst haddr
  have hmem : (Block.mk offset order) ∈
      {b | pool.FreeAt b ∨ pool.AllocatedAt b ∨ b ∈ (∅ : Set Block)} := .inl hfree
  have hblock : block = pool.record ⟨offset, order⟩ := (h.listed.free _ _ _ _ hlist hget).1
  obtain ⟨hheld, hpicked⟩ := h.pick hfree hlist
  obtain ⟨taken, htaken⟩ : ∃ taken, list.erase (pool.record ⟨offset, order⟩).addr = taken :=
    ⟨_, rfl⟩
  have hrest' : rest = taken := hrest.trans htaken
  rw [htaken] at hheld hpicked
  obtain ⟨lists, hsplit, hheld', hsplitFree⟩ := hheld.splitBlock hlo hr
  obtain ⟨hplaced, hplacedAlloc⟩ := hheld'.place
  refine ⟨TensorMemoryPool.place { pool with freeLists := lists } ⟨offset, r⟩, ?_,
    ⟨rfl, hplaced, fun c => ?_, hplacedAlloc⟩⟩
  · have hcondition : 2 ^ order ≤ pool.maxBlockSize ∧ 0 < 2 ^ order := by
      rw [h.listed.max_eq]
      exact ⟨Nat.pow_le_pow_right Nat.two_pos (h.tiling.le_hi _ hmem), Nat.two_pow_pos _⟩
    have hpopped : { pool with freeLists := pool.freeLists.insert (2 ^ order) taken } =
        pool.setList (2 ^ order) taken := rfl
    have hsplit' : (pool.setList (2 ^ order) taken).splitBlock (pool.record ⟨offset, order⟩)
        (2 ^ r) = _ := hsplit
    rw [TensorMemoryPool.allocateFrom, dif_pos hcondition, hlist]
    dsimp only
    rw [hpop]
    dsimp only
    rw [hblock, hrest', hpopped, hsplit']
    rfl
  · refine (hsplitFree c).trans ?_
    rw [hpicked c]

/-- The loop over the sizes finds the smallest free block that is large enough. -/
theorem Holding.allocateFrom {r c : Nat} (h : Holding lo hi pool ∅) (hlo : lo ≤ r) (hrc : r ≤ c)
    (hempty : ∀ b, pool.FreeAt b → r ≤ b.order → c ≤ b.order) :
    (∃ offset order pool', r ≤ order ∧ pool.FreeAt ⟨offset, order⟩ ∧
      (∀ b, pool.FreeAt b → r ≤ b.order → order ≤ b.order) ∧
      pool.allocateFrom (2 ^ r) (2 ^ c) = (.ok (pool.baseAddress + offset), pool') ∧
      Carved lo hi pool pool' offset order r) ∨
    pool.allocateFrom (2 ^ r) (2 ^ c) = (.error .insufficientMemory, pool) ∧
      ∀ b, pool.FreeAt b → b.order < r := by
  obtain ⟨left, hleft⟩ : ∃ left, hi + 1 - c = left := ⟨_, rfl⟩
  induction left generalizing c with
  | zero =>
    refine .inr ⟨?_, fun b hb => ?_⟩
    · rw [TensorMemoryPool.allocateFrom, dif_neg]
      rintro ⟨hle, -⟩
      rw [h.listed.max_eq] at hle
      have := (Nat.pow_le_pow_iff_right Nat.one_lt_two).mp hle
      omega
    · by_contra hge
      have hhi := h.tiling.le_hi b (.inl hb)
      have := hempty b hb (not_lt.mp hge)
      omega
  | succ left ih =>
    obtain ⟨list, hlist⟩ := h.listed.exists_list (hlo.trans hrc) (show c ≤ hi by omega)
    cases hpop : list.popLast with
    | some popped =>
      obtain ⟨⟨addr, block⟩, rest⟩ := popped
      obtain ⟨hget, -⟩ := Dict.popLast_eq_some hpop
      have hbase := (h.listed.free _ _ _ _ hlist hget).2
      obtain ⟨offset, hoffset⟩ : ∃ offset : Nat, addr = pool.baseAddress + offset :=
        ⟨(addr - pool.baseAddress).toNat, by omega⟩
      have hfree : pool.FreeAt ⟨offset, c⟩ :=
        ⟨list, hlist, by rw [← hoffset]; exact Option.isSome_iff_exists.mpr ⟨block, hget⟩⟩
      obtain ⟨pool', halloc, hcarved⟩ := h.carve hlo hrc hfree hlist hpop hoffset
      exact .inl ⟨offset, c, pool', hrc, hfree, hempty, halloc, hcarved⟩
    | none =>
      have hnone : ∀ b, pool.FreeAt b → b.order ≠ c := by
        rintro b hb rfl
        have hsome := (freeAt_iff hlist).mp hb
        rw [(list.entries_eq_nil_iff.mp (Dict.popLast_eq_none hpop)) _] at hsome
        cases hsome
      have hnext : pool.allocateFrom (2 ^ r) (2 ^ c) = pool.allocateFrom (2 ^ r) (2 ^ (c + 1)) := by
        have hcondition : 2 ^ c ≤ pool.maxBlockSize ∧ 0 < 2 ^ c := by
          rw [h.listed.max_eq]
          exact ⟨Nat.pow_le_pow_right Nat.two_pos (by omega), Nat.two_pow_pos _⟩
        rw [TensorMemoryPool.allocateFrom, dif_pos hcondition, hlist]
        dsimp only
        rw [hpop, Nat.pow_succ]
      rw [hnext]
      refine ih (hrc.trans (Nat.le_succ c)) (fun b hb hle => ?_) (by omega)
      have := hempty b hb hle
      have := hnone b hb
      omega

/-- Carving leaves no two free buddies, as there were no free blocks of the orders between. -/
theorem Carved.coalesced {offset order r : Nat} (h : Carved lo hi pool pool' offset order r)
    (hholding : Holding lo hi pool ∅) (hcoalesced : pool.Coalesced hi)
    (hfree : pool.FreeAt ⟨offset, order⟩)
    (hleast : ∀ b, pool.FreeAt b → r ≤ b.order → order ≤ b.order) : pool'.Coalesced hi := by
  have haligned : (Block.mk offset order).Aligned := hholding.tiling.aligned _ (.inl hfree)
  -- The free block of an order between is the upper half of a block with the same offset.
  have hbuddy : ∀ o, o < order → (Block.mk (offset + 2 ^ o) o).buddy = ⟨offset, o⟩ := by
    intro o ho
    have hdvd : (Block.mk offset (o + 1)).Aligned := (Nat.pow_dvd_pow 2 ho).trans haligned
    obtain ⟨hlower, hupper, -⟩ := lowerHalf hdvd
    rw [← hupper, buddy_buddy hlower]
  intro b hb hlt hb'
  rcases (h.free_iff b).mp hb with ⟨hold, -⟩ | ⟨o, hr, ho, rfl⟩
  · rcases (h.free_iff _).mp hb' with ⟨hold', -⟩ | ⟨o, hr, ho, heq⟩
    · exact hcoalesced b hold hlt hold'
    · have horder : b.order = o := by
        rw [← Block.buddy_order b, heq]
      have := hleast b hold (by omega)
      omega
  · rw [hbuddy o ho] at hb'
    rcases (h.free_iff _).mp hb' with ⟨hold', -⟩ | ⟨o', hr', ho', heq⟩
    · have := hleast _ hold' hr
      exact absurd ho (not_lt.mpr this)
    · have hoffset : offset = offset + 2 ^ o' := congrArg Block.offset heq
      have := Nat.two_pow_pos o'
      omega

/-! ## Merging -/

/-- A block in hand becomes free. -/
theorem Holding.enter (h : Holding lo hi pool {b}) :
    ∃ list, pool.enterFree (2 ^ b.order) (pool.record b) =
        (.ok (), pool.setList (2 ^ b.order) list) ∧
      Holding lo hi (pool.setList (2 ^ b.order) list) ∅ ∧
      ∀ c, (pool.setList (2 ^ b.order) list).FreeAt c ↔ pool.FreeAt c ∨ c = b := by
  have hmem : b ∈ {c | pool.FreeAt c ∨ pool.AllocatedAt c ∨ c ∈ ({b} : Set Block)} :=
    .inr (.inr rfl)
  obtain ⟨list, henter, hlisted, hfree⟩ :=
    h.listed.enterFree (h.tiling.lo_le b hmem) (h.tiling.le_hi b hmem)
  refine ⟨list, henter, ⟨hlisted, ?_, fun c hc halloc => ?_, fun c hc => absurd hc id⟩, hfree⟩
  · have hset : {c | pool.FreeAt c ∨ pool.AllocatedAt c ∨ c ∈ ({b} : Set Block)} =
        {c | (pool.setList (2 ^ b.order) list).FreeAt c ∨ pool.AllocatedAt c ∨
          c ∈ (∅ : Set Block)} := by
      ext c
      simp only [Set.mem_ofPred_eq, Set.mem_singleton_iff, Set.mem_empty_iff_false, or_false, hfree]
      rw [or_assoc, or_comm (a := c = b)]
    exact hset ▸ h.tiling
  · rcases (hfree c).mp hc with hold | rfl
    · exact h.not_both c hold halloc
    · exact (h.not_held c rfl).2 halloc

/-- The address at which the buddy is looked up. -/
theorem buddyAddr_eq (pool : TensorMemoryPool) (hb : b.Aligned) :
    (pool.record b).addr + (if ((pool.record b).addr - pool.baseAddress) %
        (2 * ((pool.record b).size : Int)) = 0 then ((pool.record b).size : Int)
      else -((pool.record b).size : Int)) = (pool.record b.buddy).addr := by
  have hmod : ((pool.record b).addr - pool.baseAddress) % (2 * ((pool.record b).size : Int)) =
      ((b.offset % 2 ^ (b.order + 1) : Nat) : Int) := by
    show (pool.baseAddress + (b.offset : Int) - pool.baseAddress) %
      (2 * ((2 ^ b.order : Nat) : Int)) = _
    rw [show pool.baseAddress + (b.offset : Int) - pool.baseAddress = b.offset by omega,
      Nat.pow_succ, Nat.mul_comm, Int.natCast_mod, Int.natCast_mul]
    rfl
  rw [hmod]
  show pool.baseAddress + (b.offset : Int) + (if ((b.offset % 2 ^ (b.order + 1) : Nat) : Int) = 0
    then ((2 ^ b.order : Nat) : Int) else -((2 ^ b.order : Nat) : Int)) =
      pool.baseAddress + (b.buddy.offset : Int)
  by_cases hzero : b.offset % 2 ^ (b.order + 1) = 0
  · have hbuddy : b.buddy.offset = b.offset + 2 ^ b.order := by rw [Block.buddy, if_pos hzero]
    rw [if_pos (by omega), hbuddy, Int.natCast_add, Int.add_assoc]
  · have hbuddy : b.buddy.offset = b.offset - 2 ^ b.order := by rw [Block.buddy, if_neg hzero]
    have hle : 2 ^ b.order ≤ b.offset := by
      rcases hb.halves.2 with ⟨hlow, hhigh⟩ | ⟨hhigh, -⟩
      · have := Nat.two_pow_pos b.order
        omega
      · omega
    rw [if_neg (by omega), hbuddy, Int.natCast_sub hle]
    omega

/-- One merge. -/
theorem Holding.merge (h : Holding lo hi pool {b}) (hbuddy : pool.FreeAt b.buddy) (depth : Nat) :
    ∃ list, mergeBuddies (depth + 1) pool (pool.record b) =
        mergeBuddies depth (pool.setList (2 ^ b.order) list)
          ((pool.setList (2 ^ b.order) list).record b.parent) ∧
      Holding lo hi (pool.setList (2 ^ b.order) list) {b.parent} ∧
      ∀ c, (pool.setList (2 ^ b.order) list).FreeAt c ↔ pool.FreeAt c ∧ c ≠ b.buddy := by
  have hmem : b ∈ {c | pool.FreeAt c ∨ pool.AllocatedAt c ∨ c ∈ ({b} : Set Block)} :=
    .inr (.inr rfl)
  have haligned := h.tiling.aligned b hmem
  have hlo := h.tiling.lo_le b hmem
  have hhi := h.tiling.le_hi b hmem
  have horder : b.buddy.order = b.order := Block.buddy_order b
  obtain ⟨list, hlist⟩ := h.listed.exists_list hlo hhi
  have hlist' : pool.freeLists.get? (2 ^ b.buddy.order) = some list := by rw [horder, hlist]
  have hget : list.get? (pool.record b.buddy).addr = some (pool.record b.buddy) :=
    h.listed.record_of_free hlist' hbuddy
  obtain ⟨hlisted, hfree⟩ :=
    h.listed.erase (b := b.buddy) (by rwa [horder]) (by rwa [horder]) hlist'
  rw [horder] at hlisted hfree
  have hsize : (pool.record b.buddy).size = 2 ^ b.order := by
    show 2 ^ b.buddy.order = _
    rw [horder]
  refine ⟨list.erase (pool.record b.buddy).addr, ?_, ⟨hlisted, ?_, fun c hc =>
    h.not_both c ((hfree c).mp hc).1, fun c hc => ?_⟩, hfree⟩
  · have hparent : (⟨(pool.record b).size * 2,
        min (pool.record b).addr (pool.record b.buddy).addr⟩ : MemoryBlock) =
          pool.record b.parent := by
      have hmin : min (pool.record b).addr (pool.record b.buddy).addr =
          pool.baseAddress + (b.parent.offset : Int) := by
        show min (pool.baseAddress + (b.offset : Int)) (pool.baseAddress + (b.buddy.offset : Int)) =
          pool.baseAddress + ((min b.offset b.buddy.offset : Nat) : Int)
        omega
      rw [hmin]
      rfl
    have hlist'' : pool.freeLists.get? (pool.record b).size = some list := hlist
    rw [mergeBuddies, buddyAddr_eq pool haligned, hlist'']
    dsimp only
    rw [hget]
    dsimp only
    rw [hsize, hlist]
    dsimp only
    rw [hget, Option.isSome_some, if_pos rfl, hparent]
    rfl
  · refine h.tiling.merge hmem (.inl hbuddy) fun c => ?_
    have hnot := h.not_held b rfl
    have hne : b.buddy ≠ b := by
      intro heq
      rw [heq] at hbuddy
      exact hnot.1 hbuddy
    simp only [Set.mem_ofPred_eq, Set.mem_singleton_iff, hfree]
    constructor
    · rintro (⟨hc, hcb⟩ | halloc | rfl)
      · exact .inl ⟨.inl hc, fun heq => hnot.1 (heq ▸ hc), hcb⟩
      · exact .inl ⟨.inr (.inl halloc), fun heq => hnot.2 (heq ▸ halloc),
          fun heq => h.not_both _ hbuddy (heq ▸ halloc)⟩
      · exact .inr rfl
    · rintro (⟨hc | halloc | rfl, hcb, hcb'⟩ | rfl)
      · exact .inl ⟨hc, hcb'⟩
      · exact .inr (.inl halloc)
      · exact absurd rfl hcb
      · exact .inr (.inr rfl)
  · obtain rfl := hc
    have hold : ∀ c ∈ {c | pool.FreeAt c ∨ pool.AllocatedAt c ∨ c ∈ ({b} : Set Block)},
        c ≠ b.parent := by
      rintro c hc rfl
      have hcover := (Block.covers_iff_halves haligned b.offset).mpr (.inl b.covers_offset)
      have heq := h.tiling.unique _ hc b hmem b.offset hcover b.covers_offset
      have : b.order + 1 = b.order := congrArg Block.order heq
      omega
    exact ⟨fun hc => hold _ (.inl ((hfree _).mp hc).1) rfl,
      fun halloc => hold _ (.inr (.inl halloc)) rfl⟩

/-- Without a free buddy merging stops. -/
theorem Holding.mergeStop (h : Holding lo hi pool {b}) (hbuddy : ¬ pool.FreeAt b.buddy)
    (depth : Nat) :
    mergeBuddies (depth + 1) pool (pool.record b) =
      pool.enterFree (2 ^ b.order) (pool.record b) := by
  have hmem : b ∈ {c | pool.FreeAt c ∨ pool.AllocatedAt c ∨ c ∈ ({b} : Set Block)} :=
    .inr (.inr rfl)
  obtain ⟨list, hlist⟩ := h.listed.exists_list (h.tiling.lo_le b hmem) (h.tiling.le_hi b hmem)
  have hnone : list.get? (pool.record b.buddy).addr = none := by
    rw [freeAt_iff (b := b.buddy) (by rw [Block.buddy_order, hlist])] at hbuddy
    exact Option.not_isSome_iff_eq_none.mp hbuddy
  have hlist' : pool.freeLists.get? (pool.record b).size = some list := hlist
  rw [mergeBuddies, buddyAddr_eq pool (h.tiling.aligned b hmem), hlist']
  dsimp only
  rw [hnone]
  rfl

/-- A block whose buddy is not free becomes free. -/
theorem Holding.coalesced_enter (h : Holding lo hi pool {b}) (hcoalesced : pool.Coalesced hi)
    (hfree : ∀ c, pool'.FreeAt c ↔ pool.FreeAt c ∨ c = b)
    (hbuddy : b.order < hi → ¬ pool.FreeAt b.buddy) : pool'.Coalesced hi := by
  have haligned := h.tiling.aligned b (.inr (.inr rfl))
  intro c hc hlt hc'
  rcases (hfree c).mp hc with hold | rfl
  · rcases (hfree _).mp hc' with hold' | heq
    · exact hcoalesced c hold hlt hold'
    · have hceq : c = b.buddy := by
        rw [← heq, buddy_buddy (h.tiling.aligned c (.inl hold))]
      have horder : c.order = b.order := by rw [hceq, Block.buddy_order]
      exact hbuddy (by omega) (hceq ▸ hold)
  · rcases (hfree _).mp hc' with hold' | heq
    · exact hbuddy hlt hold'
    · have hnot := haligned.not_covers_buddy c.covers_offset
      rw [heq] at hnot
      exact hnot c.covers_offset

/-- Merging enters one block, and leaves no two free buddies where its depth suffices. -/
theorem Holding.mergeBuddies (h : Holding lo hi pool {b}) (hcoalesced : pool.Coalesced hi)
    (depth : Nat) :
    ∃ lists, mergeBuddies depth pool (pool.record b) = (.ok (), { pool with freeLists := lists }) ∧
      Holding lo hi { pool with freeLists := lists } ∅ ∧
      (hi ≤ b.order + depth → Coalesced hi { pool with freeLists := lists }) := by
  induction depth generalizing pool b with
  | zero =>
    obtain ⟨list, henter, hholding, hfree⟩ := h.enter
    refine ⟨pool.freeLists.insert (2 ^ b.order) list, ?_, hholding, fun hle => ?_⟩
    · rw [TensorMemoryPool.mergeBuddies]
      exact henter
    · exact h.coalesced_enter hcoalesced hfree fun hlt => by omega
  | succ depth ih =>
    by_cases hbuddy : pool.FreeAt b.buddy
    · obtain ⟨list, hmerge, hholding, hfree⟩ := h.merge hbuddy depth
      have hcoalesced' : (pool.setList (2 ^ b.order) list).Coalesced hi := fun c hc hlt hc' =>
        hcoalesced c ((hfree c).mp hc).1 hlt ((hfree _).mp hc').1
      obtain ⟨lists, hmerge', hholding', hcoalesced''⟩ := ih hholding hcoalesced'
      refine ⟨lists, hmerge.trans hmerge', hholding', fun hle => hcoalesced'' ?_⟩
      show hi ≤ b.order + 1 + depth
      omega
    · obtain ⟨list, henter, hholding, hfree⟩ := h.enter
      exact ⟨pool.freeLists.insert (2 ^ b.order) list, (h.mergeStop hbuddy depth).trans henter,
        hholding, fun _ => h.coalesced_enter hcoalesced hfree fun _ => hbuddy⟩

/-! ## Freeing -/

/-- The pool without the allocated block at an offset. -/
def take (pool : TensorMemoryPool) (offset : Nat) : TensorMemoryPool :=
  { pool with allocatedBlocks := pool.allocatedBlocks.erase (pool.baseAddress + offset) }

/-- An allocated block is taken into the hands of a call. -/
theorem Holding.take (h : Holding lo hi pool ∅) (hb : pool.AllocatedAt b) :
    Holding lo hi (pool.take b.offset) {b} ∧
      ∀ c, (pool.take b.offset).AllocatedAt c ↔ pool.AllocatedAt c ∧ c ≠ b := by
  have halloc : ∀ c, (pool.take b.offset).AllocatedAt c ↔ pool.AllocatedAt c ∧ c ≠ b := by
    intro c
    show (pool.allocatedBlocks.erase (pool.baseAddress + b.offset)).get?
      (pool.baseAddress + c.offset) = some (pool.record c) ↔ _
    rw [Dict.get?_erase]
    by_cases hoff : c.offset = b.offset
    · rw [if_pos (by rw [hoff])]
      refine iff_of_false (fun hnone => by cases hnone) fun hboth => hboth.2 ?_
      exact h.tiling.eq_of_offset (.inr (.inl hboth.1)) (.inr (.inl hb)) hoff
    · have hne : c ≠ b := fun heq => hoff (congrArg Block.offset heq)
      rw [if_neg (by omega), and_iff_left hne]
      rfl
  refine ⟨⟨⟨h.listed.max_eq, h.listed.min_eq, h.listed.lo_le, h.listed.sizes, h.listed.free,
    fun addr block hget => ?_⟩, ?_, fun c hc hc' => h.not_both c hc ((halloc c).mp hc').1,
    fun c hc => ?_⟩, halloc⟩
  · have hget' : (pool.allocatedBlocks.erase (pool.baseAddress + b.offset)).get? addr =
        some block := hget
    rw [Dict.get?_erase] at hget'
    split at hget'
    next => cases hget'
    next => exact h.listed.allocated addr block hget'
  · have hset : {c | pool.FreeAt c ∨ pool.AllocatedAt c ∨ c ∈ (∅ : Set Block)} =
        {c | (pool.take b.offset).FreeAt c ∨ (pool.take b.offset).AllocatedAt c ∨
          c ∈ ({b} : Set Block)} := by
      ext c
      simp only [Set.mem_ofPred_eq, Set.mem_singleton_iff, Set.mem_empty_iff_false, or_false,
        halloc]
      by_cases hcb : c = b
      · subst hcb
        exact iff_of_true (.inr hb) (.inr (.inr rfl))
      · simp only [hcb, ne_eq, not_false_eq_true, and_true, or_false]
        rfl
    exact hset ▸ h.tiling
  · obtain rfl := hc
    exact ⟨fun hc => h.not_both c hc hb, fun hc => ((halloc c).mp hc).2 rfl⟩

/-- What freeing a block does with the pool. -/
structure Freed (lo hi : Nat) (pool pool' : TensorMemoryPool) (b : Block) : Prop where
  base_eq : pool'.baseAddress = pool.baseAddress
  holding : Holding lo hi pool' ∅
  allocated_iff : ∀ c, pool'.AllocatedAt c ↔ pool.AllocatedAt c ∧ c ≠ b
  coalesced : hi ≤ b.order + maxMergeDepth → pool'.Coalesced hi

/-- An allocated block is freed. -/
theorem Holding.free (h : Holding lo hi pool ∅) (hcoalesced : pool.Coalesced hi)
    (hb : pool.AllocatedAt b) :
    ∃ pool', pool.free (pool.baseAddress + b.offset) = (.ok (), pool') ∧
      Freed lo hi pool pool' b := by
  obtain ⟨htaken, halloc⟩ := h.take hb
  obtain ⟨lists, hmerge, hholding, hcoalesced'⟩ := htaken.mergeBuddies hcoalesced maxMergeDepth
  refine ⟨{ pool.take b.offset with freeLists := lists }, ?_,
    ⟨rfl, hholding, halloc, hcoalesced'⟩⟩
  have hget : pool.allocatedBlocks.get? (pool.baseAddress + b.offset) = some (pool.record b) := hb
  rw [TensorMemoryPool.free, hget]
  exact hmerge

/-- What is not the address of an allocated block is not freed. -/
theorem Holding.free_error (h : Holding lo hi pool held) {addr : Int}
    (hnot : ∀ b, pool.AllocatedAt b → addr ≠ pool.baseAddress + b.offset) :
    pool.free addr = (.error .invalidAddress, pool) := by
  have hnone : pool.allocatedBlocks.get? addr = none := by
    by_contra hsome
    obtain ⟨block, hblock⟩ := Option.ne_none_iff_exists'.mp hsome
    obtain ⟨hbase, o, rfl⟩ := h.listed.allocated _ _ hblock
    have hoffset : pool.baseAddress + ((addr - pool.baseAddress).toNat : Int) = addr := by omega
    refine hnot ⟨(addr - pool.baseAddress).toNat, o⟩ ?_ hoffset.symm
    show pool.allocatedBlocks.get? (pool.baseAddress + ((addr - pool.baseAddress).toNat : Int)) =
      some ⟨2 ^ o, pool.baseAddress + ((addr - pool.baseAddress).toNat : Int)⟩
    rw [hoffset, hblock]
  rw [TensorMemoryPool.free, hnone]

end TensorMemoryPool

end Vllm.Distributed
