import Mathlib.Algebra.Group.Nat.Even
import Mathlib.Algebra.Order.Ring.Nat
import Mathlib.Data.Set.Insert
import Mathlib.Order.WellFounded
import Mathlib.Algebra.Order.Group.Nat

/-!
# Buddies

Blocks whose sizes are powers of two and whose offsets are multiples of their sizes. A set of such
blocks that covers a range without overlaps does so after a block is split into its halves, and
after two buddies are merged. Where no two buddies are left, only the whole range is.
-/

namespace Buddies

/-- A block of size `2 ^ order`. -/
@[ext]
structure Block where
  offset : Nat
  order : Nat
  deriving DecidableEq, Repr

namespace Block

/-- An address is in the block. -/
def Covers (b : Block) (x : Nat) : Prop := b.offset ≤ x ∧ x < b.offset + 2 ^ b.order

/-- The offset is a multiple of the size. -/
def Aligned (b : Block) : Prop := 2 ^ b.order ∣ b.offset

/-- The block with which a block makes up one that is twice as large. -/
def buddy (b : Block) : Block :=
  if b.offset % 2 ^ (b.order + 1) = 0 then ⟨b.offset + 2 ^ b.order, b.order⟩
  else ⟨b.offset - 2 ^ b.order, b.order⟩

/-- The block that a block and its buddy make up. -/
def parent (b : Block) : Block := ⟨min b.offset b.buddy.offset, b.order + 1⟩

@[simp] theorem buddy_order (b : Block) : b.buddy.order = b.order := by
  unfold buddy
  split <;> rfl

/-- An aligned block is the lower or the upper half of its parent. -/
theorem Aligned.halves {b : Block} (h : b.Aligned) :
    b.parent.Aligned ∧
      ((b.offset = b.parent.offset ∧ b.buddy.offset = b.parent.offset + 2 ^ b.order) ∨
        b.offset = b.parent.offset + 2 ^ b.order ∧ b.buddy.offset = b.parent.offset) := by
  obtain ⟨k, hk⟩ := h
  have hpos : 0 < 2 ^ b.order := Nat.two_pow_pos _
  have hmod : b.offset % 2 ^ (b.order + 1) = 2 ^ b.order * (k % 2) := by
    rw [hk, Nat.pow_succ, Nat.mul_mod_mul_left]
  rcases Nat.mod_two_eq_zero_or_one k with heven | hodd
  · have hzero : b.offset % 2 ^ (b.order + 1) = 0 := by rw [hmod, heven, Nat.mul_zero]
    have hbuddy : b.buddy.offset = b.offset + 2 ^ b.order := by rw [buddy, if_pos hzero]
    have hparent : b.parent.offset = b.offset := by
      show min b.offset b.buddy.offset = b.offset
      omega
    refine ⟨?_, .inl ⟨hparent.symm, by omega⟩⟩
    unfold Aligned
    rw [hparent]
    exact Nat.dvd_of_mod_eq_zero hzero
  · have hone : b.offset % 2 ^ (b.order + 1) = 2 ^ b.order := by rw [hmod, hodd, Nat.mul_one]
    have hbuddy : b.buddy.offset = b.offset - 2 ^ b.order := by
      rw [buddy, if_neg (by omega)]
    have hle : 2 ^ b.order ≤ b.offset := by
      rw [← hone]
      exact Nat.mod_le _ _
    have hparent : b.parent.offset = b.offset - 2 ^ b.order := by
      show min b.offset b.buddy.offset = b.offset - 2 ^ b.order
      omega
    refine ⟨?_, .inr ⟨by omega, by omega⟩⟩
    unfold Aligned
    rw [hparent]
    have hdvd := Nat.dvd_sub_mod (n := 2 ^ (b.order + 1)) b.offset
    rwa [hone] at hdvd

/-- The buddy of an aligned block is aligned. -/
theorem Aligned.buddy {b : Block} (h : b.Aligned) : b.buddy.Aligned := by
  obtain ⟨hparent, hhalves⟩ := h.halves
  have hdvd : 2 ^ b.order ∣ b.parent.offset :=
    (Nat.pow_dvd_pow 2 (Nat.le_succ b.order)).trans hparent
  unfold Aligned
  rw [buddy_order]
  rcases hhalves with ⟨-, hbuddy⟩ | ⟨-, hbuddy⟩
  · rw [hbuddy]
    exact Nat.dvd_add hdvd (Nat.dvd_refl _)
  · rwa [hbuddy]

/-- The halves of a block cover what it covers. -/
theorem covers_iff_halves {b : Block} (h : b.Aligned) (x : Nat) :
    b.parent.Covers x ↔ b.Covers x ∨ b.buddy.Covers x := by
  have hsize : 2 ^ b.parent.order = 2 ^ b.order + 2 ^ b.order := by
    show 2 ^ (b.order + 1) = _
    rw [Nat.pow_succ, Nat.mul_two]
  have hbuddy : 2 ^ b.buddy.order = 2 ^ b.order := by rw [buddy_order]
  unfold Covers
  rw [hsize, hbuddy]
  rcases h.halves.2 with ⟨hlow, hhigh⟩ | ⟨hhigh, hlow⟩ <;> omega

/-- A block and its buddy do not overlap. -/
theorem Aligned.not_covers_buddy {b : Block} (h : b.Aligned) {x : Nat} (hx : b.Covers x) :
    ¬ b.buddy.Covers x := by
  have hbuddy : 2 ^ b.buddy.order = 2 ^ b.order := by rw [buddy_order]
  unfold Covers at hx ⊢
  rw [hbuddy]
  rcases h.halves.2 with ⟨hlow, hhigh⟩ | ⟨hhigh, hlow⟩ <;> omega

/-- An aligned block covers its own offset. -/
theorem covers_offset (b : Block) : b.Covers b.offset :=
  ⟨le_rfl, Nat.lt_add_of_pos_right (Nat.two_pow_pos _)⟩

/-- Of two aligned blocks that overlap, the smaller one lies in the larger one. -/
theorem Aligned.subset_of_overlap {b b' : Block} (h : b.Aligned) (h' : b'.Aligned)
    (hle : b.order ≤ b'.order) {x : Nat} (hx : b.Covers x) (hx' : b'.Covers x) :
    b'.offset ≤ b.offset ∧ b.offset + 2 ^ b.order ≤ b'.offset + 2 ^ b'.order := by
  obtain ⟨k, hk⟩ := h
  obtain ⟨m, hm⟩ := (Nat.pow_dvd_pow 2 hle).trans h'
  obtain ⟨c, hc⟩ := Nat.pow_dvd_pow 2 hle
  obtain ⟨hstart, hend⟩ := hx
  obtain ⟨hstart', hend'⟩ := hx'
  have hlow : 2 ^ b.order * m < 2 ^ b.order * (k + 1) := by
    rw [Nat.mul_succ, ← hm, ← hk]
    omega
  have hhigh : 2 ^ b.order * k < 2 ^ b.order * (m + c) := by
    rw [Nat.mul_add, ← hm, ← hk, ← hc]
    omega
  have hmk := Nat.mul_le_mul_left (2 ^ b.order)
    (Nat.lt_succ_iff.mp (Nat.lt_of_mul_lt_mul_left hlow))
  have hkm : 2 ^ b.order * (k + 1) ≤ 2 ^ b.order * (m + c) :=
    Nat.mul_le_mul_left _ (Nat.lt_of_mul_lt_mul_left hhigh)
  rw [← hm, ← hk] at hmk
  rw [Nat.mul_succ, Nat.mul_add, ← hm, ← hk, ← hc] at hkm
  exact ⟨hmk, hkm⟩

end Block

/-- A set of blocks covers the range `2 ^ hi` without overlaps. -/
structure Tiling (lo hi : Nat) (blocks : Set Block) : Prop where
  lo_le : ∀ b ∈ blocks, lo ≤ b.order
  le_hi : ∀ b ∈ blocks, b.order ≤ hi
  aligned : ∀ b ∈ blocks, b.Aligned
  inside : ∀ b ∈ blocks, b.offset + 2 ^ b.order ≤ 2 ^ hi
  cover : ∀ x < 2 ^ hi, ∃ b ∈ blocks, b.Covers x
  unique : ∀ b ∈ blocks, ∀ b' ∈ blocks, ∀ x, b.Covers x → b'.Covers x → b = b'

variable {lo hi : Nat} {blocks : Set Block} {b : Block}

/-- The whole range in one block. -/
theorem tiling_whole (h : lo ≤ hi) : Tiling lo hi {⟨0, hi⟩} where
  lo_le b hb := by
    obtain rfl := hb
    exact h
  le_hi b hb := by
    obtain rfl := hb
    exact le_rfl
  aligned b hb := by
    obtain rfl := hb
    exact Nat.dvd_zero _
  inside b hb := by
    obtain rfl := hb
    exact (Nat.zero_add _).le
  cover x hx := ⟨_, rfl, Nat.zero_le x, by rwa [Nat.zero_add]⟩
  unique b hb b' hb' _ _ _ := hb.trans hb'.symm

/-- Two blocks at the same offset are one. -/
theorem Tiling.eq_of_offset (h : Tiling lo hi blocks) {b' : Block} (hb : b ∈ blocks)
    (hb' : b' ∈ blocks) (hoffset : b.offset = b'.offset) : b = b' :=
  h.unique b hb b' hb' b.offset b.covers_offset (hoffset ▸ b'.covers_offset)

/-- A block is split into a block and its buddy. -/
theorem Tiling.split (h : Tiling lo hi blocks) (hb : b.Aligned) (hparent : b.parent ∈ blocks)
    (hlo : lo ≤ b.order) {blocks' : Set Block}
    (hblocks : ∀ b', b' ∈ blocks' ↔ b' ∈ blocks ∧ b' ≠ b.parent ∨ b' = b ∨ b' = b.buddy) :
    Tiling lo hi blocks' := by
  have hle : b.order + 1 ≤ hi := h.le_hi _ hparent
  have hinside := h.inside _ hparent
  have hsize : 2 ^ b.parent.order = 2 ^ b.order + 2 ^ b.order := by
    show 2 ^ (b.order + 1) = _
    rw [Nat.pow_succ, Nat.mul_two]
  have hbuddySize : 2 ^ b.buddy.order = 2 ^ b.order := by rw [Block.buddy_order]
  have hpos := Nat.two_pow_pos b.order
  have hhalf : ∀ b', b' = b ∨ b' = b.buddy → ∀ x, b'.Covers x → b.parent.Covers x := by
    rintro b' (rfl | rfl) x hx
    · exact (Block.covers_iff_halves hb x).mpr (.inl hx)
    · exact (Block.covers_iff_halves hb x).mpr (.inr hx)
  refine ⟨fun b' hb' => ?_, fun b' hb' => ?_, fun b' hb' => ?_, fun b' hb' => ?_, fun x hx => ?_,
    fun b₁ hb₁ b₂ hb₂ x hx₁ hx₂ => ?_⟩
  · rcases (hblocks b').mp hb' with ⟨hold, -⟩ | rfl | rfl
    · exact h.lo_le b' hold
    · exact hlo
    · rwa [Block.buddy_order]
  · rcases (hblocks b').mp hb' with ⟨hold, -⟩ | rfl | rfl
    · exact h.le_hi b' hold
    · omega
    · rw [Block.buddy_order]
      omega
  · rcases (hblocks b').mp hb' with ⟨hold, -⟩ | rfl | rfl
    · exact h.aligned b' hold
    · exact hb
    · exact hb.buddy
  · rcases (hblocks b').mp hb' with ⟨hold, -⟩ | rfl | rfl
    · exact h.inside b' hold
    · rcases hb.halves.2 with ⟨hlow, hhigh⟩ | ⟨hhigh, hlow⟩ <;> omega
    · rcases hb.halves.2 with ⟨hlow, hhigh⟩ | ⟨hhigh, hlow⟩ <;> omega
  · obtain ⟨b', hold, hx'⟩ := h.cover x hx
    by_cases heq : b' = b.parent
    · subst heq
      rcases (Block.covers_iff_halves hb x).mp hx' with hx | hx
      · exact ⟨b, (hblocks b).mpr (.inr (.inl rfl)), hx⟩
      · exact ⟨b.buddy, (hblocks _).mpr (.inr (.inr rfl)), hx⟩
    · exact ⟨b', (hblocks b').mpr (.inl ⟨hold, heq⟩), hx'⟩
  · rcases (hblocks b₁).mp hb₁ with ⟨hold₁, hne₁⟩ | hnew₁
    · rcases (hblocks b₂).mp hb₂ with ⟨hold₂, -⟩ | hnew₂
      · exact h.unique b₁ hold₁ b₂ hold₂ x hx₁ hx₂
      · exact absurd (h.unique b₁ hold₁ _ hparent x hx₁ (hhalf b₂ hnew₂ x hx₂)) hne₁
    · rcases (hblocks b₂).mp hb₂ with ⟨hold₂, hne₂⟩ | hnew₂
      · exact absurd (h.unique b₂ hold₂ _ hparent x hx₂ (hhalf b₁ hnew₁ x hx₁)) hne₂
      · rcases hnew₁ with rfl | rfl
        · rcases hnew₂ with rfl | rfl
          · rfl
          · exact absurd hx₂ (hb.not_covers_buddy hx₁)
        · rcases hnew₂ with rfl | rfl
          · exact absurd hx₁ (hb.not_covers_buddy hx₂)
          · rfl

/-- Two buddies are merged. -/
theorem Tiling.merge (h : Tiling lo hi blocks) (hb : b ∈ blocks) (hbuddy : b.buddy ∈ blocks)
    {blocks' : Set Block}
    (hblocks : ∀ b', b' ∈ blocks' ↔ b' ∈ blocks ∧ b' ≠ b ∧ b' ≠ b.buddy ∨ b' = b.parent) :
    Tiling lo hi blocks' := by
  have haligned := h.aligned b hb
  have hinside := h.inside b hb
  have hinside' := h.inside _ hbuddy
  have hsize : 2 ^ b.parent.order = 2 ^ b.order + 2 ^ b.order := by
    show 2 ^ (b.order + 1) = _
    rw [Nat.pow_succ, Nat.mul_two]
  rw [Block.buddy_order] at hinside'
  have hend : b.parent.offset + 2 ^ b.parent.order ≤ 2 ^ hi := by
    rcases haligned.halves.2 with ⟨hlow, hhigh⟩ | ⟨hhigh, hlow⟩ <;> omega
  have hlt : b.parent.order ≤ hi := by
    have hle : 2 ^ b.parent.order ≤ 2 ^ hi := by omega
    exact (Nat.pow_le_pow_iff_right (by omega)).mp hle
  have hother : ∀ b', b' ∈ blocks → b' ≠ b → b' ≠ b.buddy → ∀ x, b'.Covers x →
      ¬ b.parent.Covers x := by
    intro b' hb' hne hne' x hx hx'
    rcases (Block.covers_iff_halves haligned x).mp hx' with hx' | hx'
    · exact hne (h.unique b' hb' b hb x hx hx')
    · exact hne' (h.unique b' hb' _ hbuddy x hx hx')
  refine ⟨fun b' hb' => ?_, fun b' hb' => ?_, fun b' hb' => ?_, fun b' hb' => ?_, fun x hx => ?_,
    fun b₁ hb₁ b₂ hb₂ x hx₁ hx₂ => ?_⟩
  · rcases (hblocks b').mp hb' with ⟨hold, -⟩ | rfl
    · exact h.lo_le b' hold
    · exact (h.lo_le b hb).trans (Nat.le_succ _)
  · rcases (hblocks b').mp hb' with ⟨hold, -⟩ | rfl
    · exact h.le_hi b' hold
    · exact hlt
  · rcases (hblocks b').mp hb' with ⟨hold, -⟩ | rfl
    · exact h.aligned b' hold
    · exact haligned.halves.1
  · rcases (hblocks b').mp hb' with ⟨hold, -⟩ | rfl
    · exact h.inside b' hold
    · exact hend
  · obtain ⟨b', hold, hx'⟩ := h.cover x hx
    by_cases heq : b' = b ∨ b' = b.buddy
    · refine ⟨b.parent, (hblocks _).mpr (.inr rfl), (Block.covers_iff_halves haligned x).mpr ?_⟩
      rcases heq with rfl | rfl
      · exact .inl hx'
      · exact .inr hx'
    · exact ⟨b', (hblocks b').mpr (.inl ⟨hold, fun hb => heq (.inl hb), fun hb => heq (.inr hb)⟩),
        hx'⟩
  · rcases (hblocks b₁).mp hb₁ with ⟨hold₁, hne₁, hne₁'⟩ | rfl
    · rcases (hblocks b₂).mp hb₂ with ⟨hold₂, -⟩ | rfl
      · exact h.unique b₁ hold₁ b₂ hold₂ x hx₁ hx₂
      · exact absurd hx₂ (hother b₁ hold₁ hne₁ hne₁' x hx₁)
    · rcases (hblocks b₂).mp hb₂ with ⟨hold₂, hne₂, hne₂'⟩ | rfl
      · exact absurd hx₁ (hother b₂ hold₂ hne₂ hne₂' x hx₂)
      · rfl

/-- Where no two buddies are left, the range is one block: the buddy of a smallest block would be
covered by one as small. -/
theorem Tiling.eq_whole (h : Tiling lo hi blocks)
    (hbuddies : ∀ b ∈ blocks, b.order < hi → b.buddy ∉ blocks) (hb : b ∈ blocks) :
    b = ⟨0, hi⟩ := by
  obtain ⟨least, hleast, hmin⟩ : ∃ c ∈ blocks, ∀ c' ∈ blocks, c.order ≤ c'.order := by
    obtain ⟨c, hc, hmin⟩ := WellFounded.has_min
      (InvImage.wf Block.order (wellFounded_lt (α := Nat))) blocks ⟨b, hb⟩
    exact ⟨c, hc, fun c' hc' => not_lt.mp (hmin c' hc')⟩
  have haligned := h.aligned least hleast
  have htop : least.order = hi := by
    by_contra hne
    have hlt : least.order < hi := lt_of_le_of_ne (h.le_hi least hleast) hne
    -- The buddy lies in the range.
    have hin : least.buddy.offset < 2 ^ hi := by
      obtain ⟨k, hk⟩ := Nat.pow_dvd_pow 2 (show least.order + 1 ≤ hi by omega)
      obtain ⟨m, hm⟩ := haligned.halves.1
      have hinside := h.inside least hleast
      have hsize : 2 ^ (least.order + 1) = 2 ^ least.order + 2 ^ least.order := by
        rw [Nat.pow_succ, Nat.mul_two]
      have hm' : least.parent.offset = 2 ^ (least.order + 1) * m := hm
      have hless : 2 ^ (least.order + 1) * m < 2 ^ (least.order + 1) * k := by
        rw [← hk, ← hm']
        rcases haligned.halves.2 with ⟨hlow, -⟩ | ⟨hhigh, -⟩ <;>
          have := Nat.two_pow_pos least.order <;> omega
      have hmk : m + 1 ≤ k := Nat.lt_of_mul_lt_mul_left hless
      have hend := Nat.mul_le_mul_left (2 ^ (least.order + 1)) hmk
      rw [Nat.mul_succ, ← hm', ← hk] at hend
      rcases haligned.halves.2 with ⟨-, hhigh⟩ | ⟨-, hlow⟩ <;>
        have := Nat.two_pow_pos least.order <;> omega
    obtain ⟨c, hc, hx⟩ := h.cover _ hin
    -- What covers the buddy is not larger, as it would cover the block too.
    have hsub := haligned.buddy.subset_of_overlap (h.aligned c hc)
      (by rw [Block.buddy_order]; exact hmin c hc) (Block.covers_offset _) hx
    rcases (hmin c hc).eq_or_lt with heq | hlarger
    · have hceq : c = least.buddy := by
        rw [Block.buddy_order, heq] at hsub
        exact Block.ext (by omega) (by rw [Block.buddy_order, heq])
      exact hbuddies least hleast hlt (hceq ▸ hc)
    · have hdvd : 2 ^ (least.order + 1) ∣ c.offset :=
        (Nat.pow_dvd_pow 2 (by omega)).trans (h.aligned c hc)
      have hcover : c.Covers least.offset := by
        have hparent := haligned.halves.1.subset_of_overlap (h.aligned c hc)
          (show least.order + 1 ≤ c.order from hlarger)
          ((Block.covers_iff_halves haligned _).mpr (.inr (Block.covers_offset _))) hx
        have hmem := (Block.covers_iff_halves haligned least.offset).mpr
          (.inl least.covers_offset)
        exact ⟨hparent.1.trans hmem.1, hmem.2.trans_le hparent.2⟩
      have heq := h.unique c hc least hleast _ hcover least.covers_offset
      rw [heq] at hlarger
      exact lt_irrefl _ hlarger
  have horder : b.order = hi := le_antisymm (h.le_hi b hb) (htop ▸ hmin b hb)
  have hinside := h.inside b hb
  rw [horder] at hinside
  exact Block.ext (by show b.offset = 0; omega) horder

end Buddies
