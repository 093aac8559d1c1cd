import Vllm.Worker.SlotMapping

/-!
# Slots and positions

Behind the slots there is one local sequence of blocks for each request and rank, which the
positions of the rank fill in order. Without splitting of blocks, and where the kernel blocks
hold whole units, the slots are those of this sequence.
-/

namespace Vllm.Worker

open Checked Interleave

/-! ## Kernel blocks -/

/-- The kernel blocks of a block lie one behind the other. -/
theorem getElem?_mapToKernelBlocks (blockIds : List Nat) {m : Nat} (hm : 0 < m) (i : Nat) :
    (mapToKernelBlocks blockIds m)[i]? = blockIds[i / m]?.map fun block => block * m + i % m := by
  unfold mapToKernelBlocks
  split
  · next hone =>
    subst hone
    simp [Nat.mod_one]
  · induction blockIds generalizing i with
    | nil => rfl
    | cons block blockIds ih =>
      rw [List.flatMap_cons]
      rcases Nat.lt_or_ge i m with hi | hi
      · rw [List.getElem?_append_left (by simpa using hi), Nat.div_eq_of_lt hi,
          Nat.mod_eq_of_lt hi]
        simp [hi]
      · have hrest := ih (i - m)
        rw [List.getElem?_append_right (by simpa using hi), List.length_map, List.length_range,
          hrest, Nat.div_eq_sub_div hm hi, List.getElem?_cons_succ, ← Nat.mod_eq_sub_mod hi]

private theorem length_mapToKernelBlocks (blockIds : List Nat) (m : Nat) :
    (mapToKernelBlocks blockIds m).length = blockIds.length * m := by
  unfold mapToKernelBlocks
  split
  · next hone => rw [hone, Nat.mul_one]
  · simp

namespace SlotTable

/-- The rows of a table hold the blocks of the requests, each of the given size and split into
kernel blocks. -/
structure Serves (t : SlotTable) (blockSize : Nat) (blocks : Nat → List Nat) : Prop where
  split : t.table.blocksPerKvBlock * t.blockSize = blockSize
  rows : ∀ i, t.table.row i = mapToKernelBlocks (blocks i) t.table.blocksPerKvBlock
  width : ∀ i, (t.table.row i).length ≤ t.maxNumBlocksPerReq

/-- A new table serves no blocks; its kernel blocks divide the blocks. -/
theorem serves_init {blockSize maxNumBlocksPerReq kernelBlockSize pcpWorldSize dcpWorldSize
    interleaveSize : Nat} {t : SlotTable}
    (h : init blockSize maxNumBlocksPerReq kernelBlockSize pcpWorldSize dcpWorldSize
      interleaveSize = .ok t) : t.Serves blockSize fun _ => [] := by
  have hnil (m : Nat) : ([] : List Nat) = mapToKernelBlocks [] m := by
    unfold mapToKernelBlocks
    split <;> rfl
  unfold init at h
  split at h
  · cases h
    exact ⟨Nat.one_mul _, fun i => hnil _, fun i => Nat.zero_le _⟩
  · split at h
    · cases h
    · split at h
      · cases h
      · next hmod =>
        cases h
        refine ⟨?_, fun i => hnil _, fun i => Nat.zero_le _⟩
        exact Nat.div_mul_cancel (Nat.dvd_of_mod_eq_zero (not_not.mp hmod))

variable {t : SlotTable} {blockSize : Nat} {blocks : Nat → List Nat}

/-- Adding a request whose blocks fit in a row. -/
theorem Serves.addRow (h : t.Serves blockSize blocks) {blockIds : List Nat} (i : Nat)
    (hfit : blockIds.length * t.table.blocksPerKvBlock ≤ t.maxNumBlocksPerReq) :
    (t.addRow blockIds i).Serves blockSize (Function.update blocks i blockIds) := by
  have hsize : (t.table.addRow blockIds i).blocksPerKvBlock = t.table.blocksPerKvBlock := by
    unfold BlockTable.addRow BlockTable.appendRow
    split <;> rfl
  have hrow (k : Nat) := t.table.row_addRow blockIds i k
  refine ⟨?_, fun k => ?_, fun k => ?_⟩
  · simp only [SlotTable.addRow, hsize]
    exact h.split
  · simp only [SlotTable.addRow, hsize, hrow, Function.update_apply]
    split
    · rfl
    · exact h.rows k
  · simp only [SlotTable.addRow, hrow]
    split
    · rwa [length_mapToKernelBlocks]
    · exact h.width k

/-- The entry of the table that is read for an index of a row. -/
theorem Serves.ravel (h : t.Serves blockSize blocks) (hpos : 0 < blockSize) {i idx : Nat}
    (hidx : idx < (blocks i).length * t.table.blocksPerKvBlock) :
    ∃ block, (blocks i)[idx / t.table.blocksPerKvBlock]? = some block ∧
      t.ravel (i * t.maxNumBlocksPerReq + idx)
        = block * t.table.blocksPerKvBlock + idx % t.table.blocksPerKvBlock := by
  have hm : 0 < t.table.blocksPerKvBlock := by
    rw [← h.split] at hpos
    exact Nat.pos_of_mul_pos_right hpos
  have hlength := h.width i
  have hrow := h.rows i
  rw [hrow, length_mapToKernelBlocks] at hlength
  have hlt : idx / t.table.blocksPerKvBlock < (blocks i).length :=
    Nat.div_lt_of_lt_mul (by rwa [Nat.mul_comm])
  refine ⟨(blocks i)[idx / t.table.blocksPerKvBlock], List.getElem?_eq_getElem hlt, ?_⟩
  have hget := getElem?_mapToKernelBlocks (blocks i) hm idx
  rw [← hrow, List.getElem?_eq_getElem hlt, Option.map_some, BlockTable.row,
    List.getElem?_map] at hget
  obtain ⟨idx', hidx', hval⟩ := Option.map_eq_some_iff.mp hget
  obtain rfl : idx = idx' := by
    obtain ⟨_, he⟩ := List.getElem?_eq_some_iff.mp hidx'
    simpa using he
  rw [← hval, SlotTable.ravel, Nat.mul_comm i, Nat.mul_add_div (by omega),
    Nat.div_eq_of_lt (by omega), Nat.add_zero, Nat.mul_add_mod, Nat.mod_eq_of_lt (by omega)]

/-! ## The local sequence -/

/-- The slot at an index of a request's local sequence of blocks. -/
def localSlot (blockSize : Nat) (blockIds : List Nat) (j : Nat) : Nat :=
  blockIds.getD (j / blockSize) 0 * blockSize + j % blockSize

/-- How many positions the blocks of a request have room for on all ranks. -/
def capacity (t : SlotTable) (blockSize : Nat) (blockIds : List Nat) : Nat :=
  blockIds.length * (blockSize * t.totalCpWorldSize)

/-- A rank of the groups. -/
structure HasRank (t : SlotTable) (rank : CpRank) : Prop where
  pcp : rank.pcpRank < t.pcpWorldSize
  dcp : rank.dcpRank < t.dcpWorldSize

variable {rank rank' : CpRank}

theorem HasRank.totalCpRank_lt (h : t.HasRank rank) :
    t.totalCpRank rank < t.totalCpWorldSize :=
  rank_place_lt h.pcp h.dcp

/-- The ranks of the groups are those below the total size. -/
theorem existsUnique_rank {r : Nat} (hr : r < t.totalCpWorldSize) :
    ∃! rank, t.HasRank rank ∧ t.totalCpRank rank = r := by
  have hdcp : 0 < t.dcpWorldSize := Nat.pos_of_ne_zero fun hzero => by
    rw [totalCpWorldSize, hzero, Nat.mul_zero] at hr
    cases hr
  refine ⟨⟨r / t.dcpWorldSize, r % t.dcpWorldSize⟩,
    ⟨⟨Nat.div_lt_of_lt_mul (by rwa [Nat.mul_comm]), Nat.mod_lt _ hdcp⟩, ?_⟩, ?_⟩
  · exact Nat.div_add_mod' r t.dcpWorldSize
  · rintro ⟨pcpRank, dcpRank⟩ ⟨hrank, rfl⟩
    have hlt : dcpRank < t.dcpWorldSize := hrank.dcp
    simp only [totalCpRank, CpRank.mk.injEq]
    rw [Nat.mul_comm, Nat.mul_add_div hdcp, Nat.div_eq_of_lt hlt, Nat.mul_add_mod,
      Nat.mod_eq_of_lt hlt]
    exact ⟨rfl, rfl⟩

/-- A place in a kernel block, as a place in the local sequence of blocks. -/
private theorem kernelSlot_eq {m k idx place : Nat} (hm : 0 < m) (hplace : place < k)
    (block : Nat) :
    (block * m + idx % m) * k + place = block * (m * k) + (idx * k + place) % (m * k) ∧
      (idx * k + place) / (m * k) = idx / m := by
  have hidx := Nat.div_add_mod idx m
  have hsmall : idx % m * k + place < m * k := rank_place_lt (Nat.mod_lt idx hm) hplace
  have hsplit : idx * k + place = m * k * (idx / m) + (idx % m * k + place) := by
    conv_lhs => rw [← hidx]
    rw [Nat.add_mul, Nat.mul_right_comm, Nat.add_assoc]
  rw [hsplit, Nat.mul_add_mod, Nat.mul_add_div (by omega), Nat.mod_eq_of_lt hsmall,
    Nat.div_eq_of_lt hsmall, Nat.add_mul, Nat.mul_assoc]
  exact ⟨by omega, rfl⟩

/-- What the table gives for a place in a kernel block. -/
theorem Serves.ravel_slot (h : t.Serves blockSize blocks) (hpos : 0 < blockSize)
    {i idx place : Nat} (hidx : idx < (blocks i).length * t.table.blocksPerKvBlock)
    (hplace : place < t.blockSize) :
    t.ravel (i * t.maxNumBlocksPerReq + idx) * t.blockSize + place
      = localSlot blockSize (blocks i) (idx * t.blockSize + place) := by
  have hm : 0 < t.table.blocksPerKvBlock := by
    rw [← h.split] at hpos
    exact Nat.pos_of_mul_pos_right hpos
  obtain ⟨block, hblock, hravel⟩ := h.ravel hpos hidx
  obtain ⟨hslot, hdiv⟩ := kernelSlot_eq hm hplace block
  rw [hravel, hslot, localSlot, ← h.split, hdiv, List.getD_eq_getElem?_getD, hblock]
  rfl

/-- All units lie in one kernel block. -/
def WholeUnits (t : SlotTable) : Prop :=
  t.totalCpWorldSize = 1 ∨ t.cpKvCacheInterleaveSize ∣ t.blockSize

/-- With whole units, the owner of a position has its slot in the local sequence. -/
theorem Serves.slot_eq (h : t.Serves blockSize blocks) (hwhole : t.WholeUnits)
    (hpos : 0 < blockSize) (hsize : 0 < t.cpKvCacheInterleaveSize) (hrank : t.HasRank rank)
    {i p : Nat} (hp : p < t.capacity blockSize (blocks i)) :
    t.slot rank i p =
      if owner t.totalCpWorldSize t.cpKvCacheInterleaveSize p = t.totalCpRank rank then
        (localSlot blockSize (blocks i)
          (localIndex t.totalCpWorldSize t.cpKvCacheInterleaveSize p) : Int)
      else -1 := by
  have hrankpos := hrank.totalCpRank_lt
  have hworld : 0 < t.totalCpWorldSize := by omega
  have hk : 0 < t.blockSize := by
    rw [← h.split] at hpos
    exact Nat.pos_of_mul_pos_left hpos
  have hidx : p / (t.blockSize * t.totalCpWorldSize)
      < (blocks i).length * t.table.blocksPerKvBlock := by
    refine Nat.div_lt_of_lt_mul (hp.trans_eq ?_)
    rw [capacity, ← h.split]
    ac_rfl
  rw [slot]
  by_cases hone : 1 < t.totalCpWorldSize
  · have hdvd : t.cpKvCacheInterleaveSize ∣ t.blockSize := hwhole.resolve_left (by omega)
    have hplace := localIndex_lt hsize hdvd (Nat.mod_lt p (Nat.mul_pos hk hworld))
    have hravel := h.ravel_slot hpos hidx hplace
    rw [← localIndex_window hsize hworld hdvd] at hravel
    rw [if_pos hone, ← owner_mod hsize hdvd, ← hravel]
    rfl
  · have hworld1 : t.totalCpWorldSize = 1 := by omega
    rw [hworld1, Nat.mul_one] at hidx
    have hravel := h.ravel_slot hpos hidx (Nat.mod_lt p hk)
    rw [Nat.div_add_mod'] at hravel
    rw [if_neg hone, hworld1, localIndex_one, owner, Nat.mod_one, if_pos (by omega), ← hravel]

/-! ## Which positions have which slots -/

/-- The slots deal the positions of the requests out to the ranks: every position has a slot on
one rank, in the block of the request for it; positions in different places have different
slots; and a rank's positions, as many as its local length, fill the request's local sequence of
blocks in order. -/
structure SlotsFit (t : SlotTable) (blockSize : Nat) (blocks : Nat → List Nat) : Prop where
  unique : ∀ i p, p < t.capacity blockSize (blocks i) →
    ∃! rank, t.HasRank rank ∧ t.slot rank i p ≠ -1
  inBlock : ∀ rank i p, t.HasRank rank → p < t.capacity blockSize (blocks i) →
    t.slot rank i p ≠ -1 →
      ∃ block, (blocks i)[p / (blockSize * t.totalCpWorldSize)]? = some block ∧
        (block * blockSize : Nat) ≤ t.slot rank i p ∧
        t.slot rank i p < ((block + 1) * blockSize : Nat)
  apart : ∀ rank i p i' p', t.HasRank rank → p < t.capacity blockSize (blocks i) →
    p' < t.capacity blockSize (blocks i') → t.slot rank i p ≠ -1 →
    t.slot rank i p = t.slot rank i' p' →
      (blocks i)[p / (blockSize * t.totalCpWorldSize)]?
          = (blocks i')[p' / (blockSize * t.totalCpWorldSize)]? ∧
        p % (blockSize * t.totalCpWorldSize) = p' % (blockSize * t.totalCpWorldSize)
  injective : ∀ rank i p p', (blocks i).Nodup → t.HasRank rank →
    p < t.capacity blockSize (blocks i) → p' < t.capacity blockSize (blocks i) →
    t.slot rank i p ≠ -1 → t.slot rank i p = t.slot rank i p' → p = p'
  count : ∀ rank i length, t.HasRank rank → length ≤ t.capacity blockSize (blocks i) →
    (((List.range length).filter fun p => t.slot rank i p ≠ -1).length : Int)
      = dcpLocalSeqLen t.totalCpWorldSize t.cpKvCacheInterleaveSize length (t.totalCpRank rank)
  filled : ∀ rank i length, t.HasRank rank → length ≤ t.capacity blockSize (blocks i) →
    ((List.range length).filter fun p => t.slot rank i p ≠ -1).map (t.slot rank i)
      = (List.range (dcpLocalSeqLen t.totalCpWorldSize t.cpKvCacheInterleaveSize length
          (t.totalCpRank rank)).toNat).map fun j => (localSlot blockSize (blocks i) j : Int)

/-- The block of an index of the local sequence. -/
theorem localSlot_bounds {blockIds : List Nat} {j block : Nat} (hpos : 0 < blockSize)
    (h : blockIds[j / blockSize]? = some block) :
    block * blockSize ≤ localSlot blockSize blockIds j ∧
      localSlot blockSize blockIds j < (block + 1) * blockSize := by
  have hmod := Nat.mod_lt j hpos
  rw [localSlot, List.getD_eq_getElem?_getD, h, Option.getD_some, Nat.succ_mul]
  omega

/-- A slot tells its block and its place in it. -/
theorem localSlot_inj {blockIds blockIds' : List Nat} {j j' block block' : Nat}
    (hpos : 0 < blockSize) (h : blockIds[j / blockSize]? = some block)
    (h' : blockIds'[j' / blockSize]? = some block')
    (heq : localSlot blockSize blockIds j = localSlot blockSize blockIds' j') :
    block = block' ∧ j % blockSize = j' % blockSize := by
  have hmod := Nat.mod_lt j hpos
  have hmod' := Nat.mod_lt j' hpos
  simp only [localSlot, List.getD_eq_getElem?_getD, h, h', Option.getD_some] at heq
  have hdiv := congrArg (· / blockSize) heq
  simp only [Nat.mul_comm _ blockSize, Nat.mul_add_div hpos, Nat.div_eq_of_lt hmod,
    Nat.div_eq_of_lt hmod', Nat.add_zero] at hdiv
  subst hdiv
  exact ⟨rfl, by omega⟩

/-- The block of a position's index is that of its virtual block. -/
theorem exists_block (hpos : 0 < blockSize) (hsize : 0 < t.cpKvCacheInterleaveSize)
    (hdvd : t.cpKvCacheInterleaveSize ∣ blockSize) (hworld : 0 < t.totalCpWorldSize)
    {blockIds : List Nat} {p : Nat} (hp : p < t.capacity blockSize blockIds) :
    ∃ block, blockIds[p / (blockSize * t.totalCpWorldSize)]? = some block ∧
      blockIds[localIndex t.totalCpWorldSize t.cpKvCacheInterleaveSize p / blockSize]?
        = some block := by
  rw [localIndex_div_window hsize hworld hdvd hpos]
  have hlt : p / (blockSize * t.totalCpWorldSize) < blockIds.length :=
    Nat.div_lt_of_lt_mul (by rwa [Nat.mul_comm])
  exact ⟨_, List.getElem?_eq_getElem hlt, List.getElem?_eq_getElem hlt⟩

section Whole

variable (h : t.Serves blockSize blocks) (hwhole : t.WholeUnits) (hpos : 0 < blockSize)
  (hsize : 0 < t.cpKvCacheInterleaveSize)

include h hwhole hpos hsize

/-- With whole units, a rank has a slot for the positions that it owns. -/
theorem Serves.slot_ne_iff (hrank : t.HasRank rank) {i p : Nat}
    (hp : p < t.capacity blockSize (blocks i)) : t.slot rank i p ≠ -1 ↔
      owner t.totalCpWorldSize t.cpKvCacheInterleaveSize p = t.totalCpRank rank := by
  rw [h.slot_eq hwhole hpos hsize hrank hp]
  split
  · next howner => exact ⟨fun _ => howner, fun _ => by omega⟩
  · next hother => exact ⟨fun hne => absurd rfl hne, fun howner => absurd howner hother⟩

/-- A rank's positions below a length, in order. -/
theorem Serves.filter_slot (hrank : t.HasRank rank) {i length : Nat}
    (hlength : length ≤ t.capacity blockSize (blocks i)) :
    (List.range length).filter (fun p => t.slot rank i p ≠ -1)
      = (List.range (localCount t.totalCpWorldSize t.cpKvCacheInterleaveSize
          (t.totalCpRank rank) length)).map
        (globalIndex t.totalCpWorldSize t.cpKvCacheInterleaveSize (t.totalCpRank rank)) := by
  rw [← filter_owner hsize hrank.totalCpRank_lt]
  refine List.filter_congr fun p hp => ?_
  rw [decide_eq_decide]
  exact h.slot_ne_iff hwhole hpos hsize hrank ((List.mem_range.mp hp).trans_le hlength)

/-- Their slots are the first ones of the local sequence. -/
theorem Serves.map_slot (hrank : t.HasRank rank) {i length : Nat}
    (hlength : length ≤ t.capacity blockSize (blocks i)) :
    ((List.range length).filter fun p => t.slot rank i p ≠ -1).map (t.slot rank i)
      = (List.range (localCount t.totalCpWorldSize t.cpKvCacheInterleaveSize
          (t.totalCpRank rank) length)).map
        fun j => (localSlot blockSize (blocks i) j : Int) := by
  rw [h.filter_slot hwhole hpos hsize hrank hlength, List.map_map]
  refine List.map_congr_left fun j hj => ?_
  have hlt := (globalIndex_lt_iff hsize hrank.totalCpRank_lt j length).mpr (List.mem_range.mp hj)
  rw [Function.comp_apply, h.slot_eq hwhole hpos hsize hrank (hlt.trans_le hlength),
    owner_globalIndex hsize hrank.totalCpRank_lt,
    localIndex_globalIndex hsize hrank.totalCpRank_lt, if_pos rfl]

/-- With whole units the slots are right. -/
theorem Serves.slotsFit (hdvd : t.cpKvCacheInterleaveSize ∣ blockSize)
    (hworld : 0 < t.totalCpWorldSize) : t.SlotsFit blockSize blocks := by
  have hslot {rank i p} (hrank : t.HasRank rank) (hp : p < t.capacity blockSize (blocks i))
      (hne : t.slot rank i p ≠ -1) :
      t.slot rank i p = localSlot blockSize (blocks i)
        (localIndex t.totalCpWorldSize t.cpKvCacheInterleaveSize p) := by
    have howner := (h.slot_ne_iff hwhole hpos hsize hrank hp).mp hne
    rw [h.slot_eq hwhole hpos hsize hrank hp, if_pos howner]
  have hapart : ∀ rank i p i' p', t.HasRank rank → p < t.capacity blockSize (blocks i) →
      p' < t.capacity blockSize (blocks i') → t.slot rank i p ≠ -1 →
      t.slot rank i p = t.slot rank i' p' →
        (blocks i)[p / (blockSize * t.totalCpWorldSize)]?
            = (blocks i')[p' / (blockSize * t.totalCpWorldSize)]? ∧
          p % (blockSize * t.totalCpWorldSize) = p' % (blockSize * t.totalCpWorldSize) := by
    intro rank i p i' p' hrank hp hp' hne heq
    have hne' : t.slot rank i' p' ≠ -1 := heq ▸ hne
    have howner := (h.slot_ne_iff hwhole hpos hsize hrank hp).mp hne
    have howner' := (h.slot_ne_iff hwhole hpos hsize hrank hp').mp hne'
    obtain ⟨block, hvirtual, hlocal⟩ := exists_block hpos hsize hdvd hworld hp
    obtain ⟨block', hvirtual', hlocal'⟩ := exists_block hpos hsize hdvd hworld hp'
    rw [hslot hrank hp hne, hslot hrank hp' hne', Int.natCast_inj] at heq
    obtain ⟨rfl, hmod⟩ := localSlot_inj hpos hlocal hlocal' heq
    exact ⟨hvirtual.trans hvirtual'.symm,
      mod_window_inj hsize hworld hdvd hpos (howner.trans howner'.symm) hmod⟩
  refine ⟨fun i p hp => ?_, fun rank i p hrank hp hne => ?_, hapart,
    fun rank i p p' hnodup hrank hp hp' hne heq => ?_, fun rank i length hrank hlength => ?_,
    fun rank i length hrank hlength => ?_⟩
  · obtain ⟨rank, ⟨hrank, hr⟩, hunique⟩ :=
      existsUnique_rank (owner_lt hworld t.cpKvCacheInterleaveSize p)
    refine ⟨rank, ⟨hrank, (h.slot_ne_iff hwhole hpos hsize hrank hp).mpr hr.symm⟩, ?_⟩
    rintro rank' ⟨hrank', hne⟩
    exact hunique rank'
      ⟨hrank', ((h.slot_ne_iff hwhole hpos hsize hrank' hp).mp hne).symm⟩
  · obtain ⟨block, hvirtual, hlocal⟩ := exists_block hpos hsize hdvd hworld hp
    obtain ⟨hlow, hhigh⟩ := localSlot_bounds hpos hlocal
    rw [hslot hrank hp hne]
    exact ⟨block, hvirtual, Int.ofNat_le.mpr hlow, Int.ofNat_lt.mpr hhigh⟩
  · obtain ⟨hblock, hmod⟩ := hapart rank i p i p' hrank hp hp' hne heq
    have hlt : p / (blockSize * t.totalCpWorldSize) < (blocks i).length :=
      Nat.div_lt_of_lt_mul (by rwa [Nat.mul_comm])
    have hdiv := (List.getElem?_inj hlt hnodup).mp hblock
    rw [← Nat.div_add_mod p (blockSize * t.totalCpWorldSize), hdiv, hmod, Nat.div_add_mod]
  · rw [h.filter_slot hwhole hpos hsize hrank hlength, dcpLocalSeqLen_eq, List.length_map,
      List.length_range]
  · rw [h.map_slot hwhole hpos hsize hrank hlength, dcpLocalSeqLen_eq, Int.toNat_natCast]

end Whole

/-! ## Units that are split -/

/-- A unit that is split at the end of a block comes behind the block. -/
theorem Serves.slot_behind (h : t.Serves blockSize blocks) (hpos : 0 < blockSize)
    (hsize : 0 < t.cpKvCacheInterleaveSize) (hworld : 1 < t.totalCpWorldSize)
    (hsplit : ¬ t.cpKvCacheInterleaveSize ∣ t.blockSize) {i block : Nat}
    (hblock : (blocks i)[0]? = some block) (hzero : t.totalCpRank rank = 0) :
    ∃ p < blockSize * t.totalCpWorldSize,
      t.slot rank i p = ((block + 1) * blockSize : Nat) := by
  obtain ⟨size, hsizeeq⟩ : ∃ size, size = t.cpKvCacheInterleaveSize := ⟨_, rfl⟩
  obtain ⟨world, hworldeq⟩ : ∃ world, world = t.totalCpWorldSize := ⟨_, rfl⟩
  obtain ⟨k, hk⟩ : ∃ k, k = t.blockSize := ⟨_, rfl⟩
  obtain ⟨m, hm⟩ : ∃ m, m = t.table.blocksPerKvBlock := ⟨_, rfl⟩
  have hblocks := h.split
  rw [← hsizeeq, ← hk] at hsplit
  rw [← hsizeeq] at hsize
  rw [← hworldeq] at hworld ⊢
  rw [← hm, ← hk] at hblocks
  have hmpos : 0 < m := Nat.pos_of_mul_pos_right (hblocks ▸ hpos)
  -- the rest of a kernel block behind its whole units
  have hrest : 0 < k % size := Nat.pos_of_ne_zero fun hmod => hsplit (Nat.dvd_of_mod_eq_zero hmod)
  have hrestlt := Nat.mod_lt k hsize
  have hk' := Nat.div_add_mod' k size
  obtain ⟨off, hoff⟩ : ∃ off, off = k / size * (world * size) + k % size := ⟨_, rfl⟩
  have hround : k % size < world * size :=
    hrestlt.trans_le (Nat.le_mul_of_pos_left size (by omega))
  have hofflt : off < k * world := by
    have hlt : k % size * 1 < k % size * world := Nat.mul_lt_mul_of_pos_left hworld hrest
    calc off < k / size * (world * size) + k % size * world := by omega
      _ = (k / size * size + k % size) * world := by
        rw [Nat.add_mul, Nat.mul_comm world, Nat.mul_assoc]
      _ = k * world := by rw [hk']
  have hdiv : off / (world * size) = k / size := by
    rw [hoff, Nat.mul_comm (k / size), Nat.mul_add_div (by omega), Nat.div_eq_of_lt hround,
      Nat.add_zero]
  have hmod : off % size = k % size := by
    rw [hoff, ← Nat.mul_assoc, Nat.mul_comm _ size, Nat.mul_add_mod, Nat.mod_mod]
  have howner : off / size % world = 0 := by
    rw [hoff, ← Nat.mul_assoc, Nat.mul_comm _ size, Nat.mul_add_div hsize,
      Nat.div_eq_of_lt hrestlt, Nat.add_zero, Nat.mul_mod_left]
  have hwindow : 0 < k * world := by omega
  have hlast : (m - 1) * (k * world) + off < m * (k * world) :=
    rank_place_lt (by omega) hofflt
  have hpdiv : ((m - 1) * (k * world) + off) / (k * world) = m - 1 := by
    rw [Nat.mul_comm (m - 1), Nat.mul_add_div hwindow, Nat.div_eq_of_lt hofflt, Nat.add_zero]
  have hpmod : ((m - 1) * (k * world) + off) % (k * world) = off := by
    rw [Nat.mul_comm (m - 1), Nat.mul_add_mod, Nat.mod_eq_of_lt hofflt]
  refine ⟨(m - 1) * (k * world) + off, by rw [← hblocks, Nat.mul_assoc]; exact hlast, ?_⟩
  have hlength : 0 < (blocks i).length := (List.getElem?_eq_some_iff.mp hblock).1
  have hidx : m - 1 < (blocks i).length * m :=
    (Nat.sub_one_lt (by omega)).trans_le (Nat.le_mul_of_pos_left m hlength)
  obtain ⟨block', hblock', hravel⟩ := h.ravel hpos (hm ▸ hidx)
  rw [← hm, Nat.div_eq_of_lt (by omega), hblock, Option.some.injEq] at hblock'
  rw [← hm, ← hblock', Nat.mod_eq_of_lt (by omega : m - 1 < m)] at hravel
  rw [slot]
  simp only [← hsizeeq, ← hworldeq, ← hk, hpdiv, hpmod, howner, hzero, hdiv, hmod, hk', hravel]
  rw [if_pos hworld, if_pos trivial, Int.natCast_inj, ← hblocks]
  have hnext : block * m + (m - 1) + 1 = (block + 1) * m := by
    rw [Nat.succ_mul]
    omega
  calc (block * m + (m - 1)) * k + k = (block * m + (m - 1) + 1) * k := (Nat.succ_mul _ _).symm
    _ = (block + 1) * m * k := by rw [hnext]
    _ = (block + 1) * (m * k) := Nat.mul_assoc _ _ _

/-- A table for blocks of 32 tokens, each split into two kernel blocks, on two ranks. -/
def splitTable (interleaveSize : Nat) : SlotTable :=
  ⟨16, 8, ⟨2, fun _ _ => 0, fun _ => 0⟩, 1, 2, interleaveSize⟩

private theorem init_splitTable (interleaveSize : Nat) :
    init 32 4 16 1 2 interleaveSize = .ok (splitTable interleaveSize) := rfl

end SlotTable

end Vllm.Worker
