import Vllm.Core.BlockTable

/-!
# The managers' operations in elementary steps

Each operation of a group manager, taken apart into elementary steps on the pool and
the table of the request it is about. What an operation needs of its arguments so that
its steps are the elementary ones is a hypothesis of its lemma.
-/

namespace Vllm

open Checked Masked

/-! ## Ceiling division -/

/-- Ceiling division is the least quotient that covers the dividend. -/
theorem cdiv_le_iff {a b c : Int} (hb : 0 < b) : cdiv a b ≤ c ↔ a ≤ c * b := by
  have h : cdiv a b = -(-a / b) := by
    rw [cdiv, ← Int.fdiv_eq_ediv_of_nonneg _ hb.le, ← Int.neg_fdiv_neg, neg_neg]
  have hdiv := Int.le_ediv_iff_mul_le (a := -c) (b := -a) hb
  rw [Int.neg_mul] at hdiv
  omega

theorem lt_cdiv_iff {a b c : Int} (hb : 0 < b) : c < cdiv a b ↔ c * b < a := by
  rw [← not_le, cdiv_le_iff hb, not_le]

theorem cdiv_nonneg {a b : Int} (hb : 0 < b) (ha : 0 ≤ a) : 0 ≤ cdiv a b := by
  by_contra h
  have hle := (cdiv_le_iff (a := a) (c := -1) hb).mp (by omega)
  omega

/-- Ceiling division is monotone. -/
theorem cdiv_mono {a a' b : Int} (hb : 0 < b) (ha : a' ≤ a) : cdiv a' b ≤ cdiv a b :=
  (cdiv_le_iff hb).mpr (ha.trans ((cdiv_le_iff hb).mp le_rfl))

/-- Ceiling division bounds whole blocks from above. -/
theorem ediv_le_cdiv {a a' b : Int} (hb : 0 < b) (ha : a' ≤ a) : a' / b ≤ cdiv a b := by
  by_contra h
  have hlt := (cdiv_le_iff (a := a) (c := a' / b - 1) hb).mp (by omega)
  have hmul := Int.ediv_mul_le a' hb.ne'
  have hcover := (cdiv_le_iff (a := a) (c := cdiv a b) hb).mp le_rfl
  rw [Int.sub_mul] at hlt
  omega

variable {H : Type} [DecidableEq H]

namespace SingleTypeKVCacheManager

variable {G : TableGuard H} {requestId : RequestId} {p p' : BlockPool H}
  {m m' : SingleTypeKVCacheManager H}

omit [DecidableEq H] in
/-- The block size of a group is positive. -/
theorem blockSize_pos (m : SingleTypeKVCacheManager H) : 0 < m.blockSize := by
  have := m.kvCacheSpec.blockSize_pos
  simp only [blockSize]
  omega

omit [DecidableEq H] in
@[simp] theorem row_setRow (m : SingleTypeKVCacheManager H) (requestId : RequestId)
    (row : List BlockId) : (m.setRow requestId row).row requestId = row := by
  simp [SingleTypeKVCacheManager.row, setRow]

omit [DecidableEq H] in
@[simp] theorem table_setRow (m : SingleTypeKVCacheManager H) (requestId : RequestId)
    (row : List BlockId) :
    (m.setRow requestId row).table requestId = { m.table requestId with row := row } := by
  rw [table, row_setRow]
  rfl

omit [DecidableEq H] in
private theorem agreesOff_setRow (m : SingleTypeKVCacheManager H) (requestId : RequestId)
    (row : List BlockId) : m.AgreesOff requestId (m.setRow requestId row) :=
  ⟨rfl, rfl, Dict.erase_insert _ _ _, fun _ _ => rfl, fun _ _ => rfl⟩

/-- One elementary step that replaces the row of a request. -/
theorem steps_setRow {row : List BlockId}
    (h : TableStep G m.kvCacheSpec m.kvCacheGroupId (p, m.table requestId)
      (p', { m.table requestId with row := row })) :
    ManagerSteps G requestId p m p' (m.setRow requestId row) :=
  ⟨agreesOff_setRow m requestId row, by rw [table_setRow]; exact .single h⟩

/-! ## Removing skipped blocks -/

/-- The loop of `remove_skipped_blocks` nulls entries and lists what was there. -/
theorem removeLoop_masks (n : Nat) (row : List BlockId) :
    Masks nullBlock row (removeLoop n row).2 ∧ ∀ b, b ≠ nullBlock →
      (removeLoop n row).2.count b + (removeLoop n row).1.count b = row.count b := by
  induction n generalizing row with
  | zero => exact ⟨Masks.refl row, fun b _ => rfl⟩
  | succ n ih =>
    by_cases hn : row.getD n nullBlock = nullBlock
    · rw [removeLoop, if_pos hn]
      exact ⟨Masks.refl row, fun b _ => rfl⟩
    · rw [removeLoop, if_neg hn]
      have hget : row[n]? = some (row.getD n nullBlock) := by
        rw [List.getD_eq_getElem?_getD] at hn ⊢
        cases h : row[n]? with
        | none => simp [h] at hn
        | some b => rfl
      obtain ⟨hmasks, hcount⟩ := ih (row.set n nullBlock)
      refine ⟨(masks_set row n).trans hmasks, fun b hb => ?_⟩
      have hset := count_set_add hget hb
      have hrest := hcount b hb
      simp only [List.count_cons, List.count_nil] at hset ⊢
      omega

private theorem removeSkippedBlocksBase_steps {totalComputedTokens : Int}
    (h : m.removeSkippedBlocksBase p requestId totalComputedTokens = .ok (p', m')) :
    ManagerSteps G requestId p m p' m' := by
  unfold removeSkippedBlocksBase at h
  split at h
  · obtain ⟨rfl, rfl⟩ := Prod.mk.inj (Except.ok.inj h)
    exact .refl G requestId p m
  · simp only [bind_ok_iff, pure_ok_iff, Prod.mk.injEq] at h
    obtain ⟨_, hfree, rfl, rfl⟩ := h
    obtain ⟨hmasks, hcount⟩ := removeLoop_masks
      (min (m.kvCacheSpec.numSkippedBlocks totalComputedTokens).toNat (m.row requestId).length)
      (m.row requestId)
    exact steps_setRow (.release (t := m.table requestId) hmasks hcount hfree)

private theorem freeLastStateBlock_steps {numComputedTokens : Int}
    (h : m.freeLastStateBlock p requestId numComputedTokens = .ok (p', m')) :
    ManagerSteps G requestId p m p' m' := by
  unfold freeLastStateBlock at h
  split at h
  · obtain ⟨rfl, rfl⟩ := Prod.mk.inj (Except.ok.inj h)
    exact .refl G requestId p m
  · rename_i idx _
    simp only at h
    split at h
    · rename_i hne
      simp only [bind_ok_iff, pure_ok_iff, Prod.mk.injEq] at h
      obtain ⟨_, hfree, rfl, rfl⟩ := h
      have hget : (m.row requestId)[idx]? = some ((m.row requestId).getD idx nullBlock) := by
        have hn := hne.2
        rw [List.getD_eq_getElem?_getD] at hn ⊢
        cases hrow : (m.row requestId)[idx]? with
        | none => simp [hrow] at hn
        | some b => rfl
      exact steps_setRow (.release (t := m.table requestId) (masks_set _ idx)
        (fun b hb => count_set_add hget hb) hfree)
    · obtain ⟨rfl, rfl⟩ := Prod.mk.inj (Except.ok.inj h)
      exact .refl G requestId p m

/-- `remove_skipped_blocks` releases blocks. -/
theorem removeSkippedBlocks_steps {totalComputedTokens : Int}
    (h : m.removeSkippedBlocks p requestId totalComputedTokens = .ok (p', m')) :
    ManagerSteps G requestId p m p' m' := by
  unfold removeSkippedBlocks at h
  split at h
  · simp only [bind_ok_iff, Prod.exists] at h
    obtain ⟨p₁, m₁, hbase, h⟩ := h
    have hsteps : ManagerSteps G requestId p m p₁ m₁ := removeSkippedBlocksBase_steps hbase
    split at h
    · exact hsteps.trans (freeLastStateBlock_steps h)
    · simp only [pure_ok_iff, Prod.mk.injEq] at h
      obtain ⟨rfl, rfl⟩ := h
      exact hsteps
  · exact removeSkippedBlocksBase_steps h

/-! ## Freeing -/

/-- `free` drops the table. -/
theorem free_steps (h : m.free p requestId = .ok (p', m')) :
    ManagerSteps G requestId p m p' m' := by
  simp only [free, bind_ok_iff, pure_ok_iff, Prod.mk.injEq] at h
  obtain ⟨_, hfree, rfl, rfl⟩ := h
  refine ⟨⟨rfl, rfl, Dict.erase_erase _ _, fun r hr => ?_, fun r hr => ?_⟩, ?_⟩
  · simp [hr]
  · simp [hr]
  · refine .single ?_
    convert TableStep.drop (G := G) (t := m.table requestId) hfree
    · simp [table, row]
    · simp [table]
    · simp [table]

/-! ## Allocating -/

/-- No more tokens are skipped than there are. -/
private theorem getNumSkippedTokens_le (spec : KVCacheSpec) {n : Int} (hn : 0 ≤ n) :
    spec.kind.getNumSkippedTokens n ≤ n := by
  have hvalid := spec.kind_valid
  unfold SpecKind.getNumSkippedTokens
  split
  · exact hn
  · exact hn
  · rename_i window hkind
    rw [hkind] at hvalid
    simp only [SpecKind.Valid] at hvalid
    omega
  · rename_i chunk hkind
    rw [hkind] at hvalid
    simp only [SpecKind.Valid] at hvalid
    exact Int.ediv_mul_le n (by omega)
  · omega

omit [DecidableEq H] in
/-- The skipped blocks lie inside the blocks of all tokens. -/
theorem numSkippedBlocks_le (m : SingleTypeKVCacheManager H) {n : Int} (hn : 0 ≤ n) :
    ((m.kvCacheSpec.numSkippedBlocks n).toNat : Int) ≤ cdiv n m.blockSize := by
  have hle : m.kvCacheSpec.numSkippedBlocks n ≤ cdiv n m.blockSize :=
    ediv_le_cdiv m.blockSize_pos (getNumSkippedTokens_le m.kvCacheSpec hn)
  have hnonneg := cdiv_nonneg m.blockSize_pos hn
  omega

/-- `allocate_new_computed_blocks` joins the hits to an empty table and appends blocks for
external tokens, when the hits reach no further than the computed tokens. -/
theorem allocateNewComputedBlocks_steps {newComputedBlocks : List BlockId}
    {numLocalComputedTokens numExternalComputedTokens : Int}
    (htotal : 0 ≤ numLocalComputedTokens + numExternalComputedTokens)
    (hjoin : let n := (m.kvCacheSpec.numSkippedBlocks
        (numLocalComputedTokens + numExternalComputedTokens)).toNat
      G.join m.kvCacheSpec m.kvCacheGroupId p n (newComputedBlocks.drop n))
    (hfit : 0 < m.kvCacheSpec.unskippedExternalTokens
        (numLocalComputedTokens + numExternalComputedTokens) numExternalComputedTokens →
      (newComputedBlocks.length : Int) ≤
        cdiv (numLocalComputedTokens + numExternalComputedTokens) m.blockSize)
    (h : m.allocateNewComputedBlocks p requestId newComputedBlocks numLocalComputedTokens
      numExternalComputedTokens = .ok (p', m')) : ManagerSteps G requestId p m p' m' := by
  unfold allocateNewComputedBlocks at h
  split at h
  · simp only [bind_ok_iff, pure_ok_iff, Prod.mk.injEq] at h
    obtain ⟨_, -, rfl, rfl⟩ := h
    exact .refl G requestId p m
  split at h
  · simp only [bind_ok_iff, pure_ok_iff, Prod.mk.injEq] at h
    obtain ⟨_, -, rfl, rfl⟩ := h
    exact .refl G requestId p m
  simp only [bind_ok_iff, ensure_eq_ok] at h
  obtain ⟨_, hrow, _, -, p₁, htouch, h⟩ := h
  generalize hn : (m.kvCacheSpec.numSkippedBlocks
    (numLocalComputedTokens + numExternalComputedTokens)).toNat = n at h htouch hjoin
  have hstep : TableStep G m.kvCacheSpec m.kvCacheGroupId (p, m.table requestId)
      (p₁, { m.table requestId with
        row := List.replicate n nullBlock ++ newComputedBlocks.drop n
        numCached := n + (newComputedBlocks.drop n).length }) :=
    .join hrow hjoin htouch
  -- all of the manager that changes is the row and the count of its cached blocks
  have hmanager (row : List BlockId) (k : Nat) (p' : BlockPool H)
      (hsteps : Relation.ReflTransGen (TableStep G m.kvCacheSpec m.kvCacheGroupId)
        (p, m.table requestId) (p', { m.table requestId with row := row, numCached := k })) :
      ManagerSteps G requestId p m p' (setRow { m with
        numCachedBlock := Function.update m.numCachedBlock requestId (some k) }
        requestId row) := by
    refine ⟨⟨rfl, rfl, Dict.erase_insert _ _ _, fun r hr => by simp [setRow, hr],
      fun _ _ => rfl⟩, ?_⟩
    rw [table_setRow]
    simpa [table, SingleTypeKVCacheManager.row] using hsteps
  simp only [List.length_append, List.length_replicate] at h
  split at h
  · rename_i hext
    simp only [bind_ok_iff, pure_ok_iff, Prod.exists, Prod.mk.injEq] at h
    obtain ⟨blocks, _, hnew, rfl, rfl⟩ := h
    -- the hits and the padding end at or before the last computed block
    have hskip := m.numSkippedBlocks_le htotal
    have hhits := hfit hext
    rw [hn] at hskip
    obtain ⟨k, hk⟩ := Int.eq_ofNat_of_zero_le (a := cdiv
      (numLocalComputedTokens + numExternalComputedTokens) m.blockSize -
        ((n + (newComputedBlocks.drop n).length : Nat) : Int))
      (by rw [List.length_drop]; omega)
    replace hnew := (congrArg p₁.getNewBlocks hk.symm).trans hnew
    refine hmanager _ _ _ ((Relation.ReflTransGen.single hstep).tail ?_)
    exact .grow (t := { m.table requestId with
      row := List.replicate n nullBlock ++ newComputedBlocks.drop n
      numCached := n + (newComputedBlocks.drop n).length }) hnew
  · simp only [pure_ok_iff, Prod.mk.injEq] at h
    obtain ⟨rfl, rfl⟩ := h
    exact hmanager _ _ _ (.single hstep)

/-- `allocate_new_blocks` of the base class appends blocks. -/
theorem allocateNewBlocksBase_steps {numTokens : Int} {newBlocks : List BlockId}
    (h : m.allocateNewBlocksBase p requestId numTokens = .ok (p', m', newBlocks)) :
    ManagerSteps G requestId p m p' m' := by
  unfold allocateNewBlocksBase at h
  simp only at h
  split at h
  · simp only [Except.ok.injEq, Prod.mk.injEq] at h
    obtain ⟨rfl, rfl, -⟩ := h
    exact .refl G requestId p m
  · rename_i hpos
    simp only [bind_ok_iff, pure_ok_iff, Prod.exists, Prod.mk.injEq] at h
    obtain ⟨blocks, _, hnew, rfl, rfl, -⟩ := h
    obtain ⟨k, hk⟩ := Int.eq_ofNat_of_zero_le
      (a := cdiv numTokens m.blockSize - (m.row requestId).length) (by omega)
    rw [hk] at hnew
    exact steps_setRow (.grow (t := m.table requestId) hnew)

/-! ### Mamba groups in `align` mode -/

/-- The moves of an `align` group append one block each. -/
theorem length_reuseLoop (numSkippedBlocks : Int) (n blockIdx : Nat) (row : List BlockId) :
    ((reuseLoop numSkippedBlocks n blockIdx row).length : Int) =
      row.length + min (n : Int) (max 0 (numSkippedBlocks - blockIdx)) := by
  induction n generalizing blockIdx row with
  | zero => simp [reuseLoop]
  | succ n ih =>
    unfold reuseLoop
    split
    · rw [ih]
      simp only [List.length_set, List.length_append, List.length_cons, List.length_nil]
      omega
    · omega

/-- An `align` table before it grows: one block short of what is required when the
request reuses its speculative blocks, else padded to the new state block. -/
private theorem length_alignedRow {numSpeculativeBlocks : Nat} {numRequiredBlocks : Int}
    {blocksAllocated : Bool} {row : List BlockId} (hlt : row.length < numRequiredBlocks)
    (hspec : blocksAllocated → numSpeculativeBlocks ≤ row.length) :
    ((alignedRow numSpeculativeBlocks numRequiredBlocks blocksAllocated row).length : Int) =
      if blocksAllocated then numRequiredBlocks - 1
      else max row.length (numRequiredBlocks - numSpeculativeBlocks - 1) := by
  unfold alignedRow
  cases blocksAllocated with
  | false =>
    simp only [Bool.false_eq_true, if_false, List.length_append, List.length_replicate]
    omega
  | true =>
    have hle := hspec rfl
    simp only [if_true, length_reuseLoop, List.length_append, List.length_replicate]
    omega

/-- An `align` table needs a number of new blocks that is not negative, and has with them
the required length. -/
theorem length_alignedRow_append {numSpeculativeBlocks : Nat} {numRequiredBlocks : Int}
    {blocksAllocated : Bool} {row blocks : List BlockId} (hlt : row.length < numRequiredBlocks)
    (hspec : blocksAllocated → numSpeculativeBlocks ≤ row.length)
    (hnew : p.getNewBlocks (numRequiredBlocks -
      (alignedRow numSpeculativeBlocks numRequiredBlocks blocksAllocated row).length) =
        .ok (blocks, p')) :
    0 ≤ numRequiredBlocks -
        (alignedRow numSpeculativeBlocks numRequiredBlocks blocksAllocated row).length ∧
      ((alignedRow numSpeculativeBlocks numRequiredBlocks blocksAllocated row ++ blocks).length :
        Int) = numRequiredBlocks := by
  have hlen := length_alignedRow hlt hspec
  have hblocks := BlockPool.length_getNewBlocks hnew
  rw [List.length_append]
  split at hlen <;> omega

/-- The moves of an `align` group are elementary, where moving is allowed. -/
private theorem reuseLoop_steps {spec : KVCacheSpec} {groupId : Nat} {numSkippedBlocks : Int}
    {n blockIdx : Nat} {t : BlockTable} (hle : numSkippedBlocks ≤ t.row.length)
    (hmove : ∀ t' i, t'.numCached = t.numCached → blockIdx ≤ i → i < blockIdx + n →
      G.move spec groupId t' i) :
    Relation.ReflTransGen (TableStep G spec groupId) (p, t)
      (p, { t with row := reuseLoop numSkippedBlocks n blockIdx t.row }) := by
  induction n generalizing blockIdx t with
  | zero => exact .refl
  | succ n ih =>
    unfold reuseLoop
    split
    · rename_i hlt
      refine .head (.move (i := blockIdx) (by omega) (hmove t blockIdx rfl le_rfl (by omega))) ?_
      refine ih (t := { t with
        row := (t.row ++ [t.row.getD blockIdx nullBlock]).set blockIdx nullBlock }) ?_
        fun t' i ht hi hi' => hmove t' i ht (by omega) (by omega)
      simp only [List.length_set, List.length_append]
      omega
    · exact .refl

/-- Padding and moving are elementary, where moving is allowed. -/
theorem alignedRow_steps {spec : KVCacheSpec} {groupId : Nat} {t : BlockTable}
    (numSpeculativeBlocks : Nat) (numRequiredBlocks : Int)
    (hspec : t.allocated → numSpeculativeBlocks ≤ t.row.length)
    (hmove : t.allocated → ∀ t' i, t'.numCached = t.numCached →
      t.row.length ≤ i + numSpeculativeBlocks → G.move spec groupId t' i) :
    Relation.ReflTransGen (TableStep G spec groupId) (p, t) (p, { t with
      row := alignedRow numSpeculativeBlocks numRequiredBlocks t.allocated t.row }) := by
  unfold alignedRow
  refine .head (.pad (numRequiredBlocks - numSpeculativeBlocks - 1 - t.row.length).toNat) ?_
  simp only
  split
  · rename_i halloc
    have hle := hspec halloc
    refine reuseLoop_steps (t := { t with row := t.row ++ _ }) ?_ fun t' i ht hi _ =>
      hmove halloc t' i ht (by omega)
    simp only [List.length_append, List.length_replicate]
    omega
  · exact .refl

/-- `allocate_new_blocks` of an `align` group pads, moves and appends blocks. -/
theorem allocateNewBlocksAlign_steps {numTokensMainModel : Int} {newBlocks : List BlockId}
    (htokens : 0 ≤ numTokensMainModel)
    (hspec : m.allocatedBlockReqs requestId → m.numSpeculativeBlocks ≤ (m.row requestId).length)
    (hmove : m.allocatedBlockReqs requestId → ∀ t i,
      t.numCached = (m.table requestId).numCached →
      (m.row requestId).length ≤ i + m.numSpeculativeBlocks →
      G.move m.kvCacheSpec m.kvCacheGroupId t i)
    (hsettle : ∀ t, t.numCached = (m.table requestId).numCached →
      (t.row.length : Int) = cdiv numTokensMainModel m.blockSize + m.numSpeculativeBlocks →
      (m.row requestId).length < t.row.length → G.settle m.kvCacheSpec m.kvCacheGroupId t)
    (h : m.allocateNewBlocksAlign p requestId numTokensMainModel = .ok (p', m', newBlocks)) :
    ManagerSteps G requestId p m p' m' := by
  unfold allocateNewBlocksAlign at h
  simp only at h
  split at h
  · simp only [Except.ok.injEq, Prod.mk.injEq] at h
    obtain ⟨rfl, rfl, -⟩ := h
    exact .refl G requestId p m
  · simp only [bind_ok_iff, ensure_eq_ok, pure_ok_iff, Prod.exists, Prod.mk.injEq] at h
    obtain ⟨_, hlt, _, hnum, blocks, p₁, hnew, rfl, rfl, -⟩ := h
    generalize hreq : cdiv numTokensMainModel m.blockSize + (m.numSpeculativeBlocks : Int) =
      numRequiredBlocks at hlt hnum hnew hsettle
    obtain ⟨hnonneg, hfull⟩ := length_alignedRow_append hlt hspec hnew
    have hrow := alignedRow_steps (p := p) (t := m.table requestId) m.numSpeculativeBlocks
      numRequiredBlocks hspec hmove
    simp only [table] at hrow
    generalize alignedRow m.numSpeculativeBlocks numRequiredBlocks
      (m.allocatedBlockReqs requestId) (m.row requestId) = row at hnonneg hfull hnum hnew hrow
    obtain ⟨k, hk⟩ := Int.eq_ofNat_of_zero_le hnonneg
    rw [hk] at hnew
    have hspec' : m.numSpeculativeBlocks ≤ (row ++ blocks).length := by
      have := cdiv_nonneg m.blockSize_pos htokens
      omega
    refine ⟨⟨rfl, rfl, Dict.erase_insert _ _ _, fun _ _ => rfl, fun r hr => by simp [hr]⟩, ?_⟩
    have hgrow : TableStep G m.kvCacheSpec m.kvCacheGroupId
        (p, { m.table requestId with row := row })
        (p₁, { m.table requestId with row := row ++ blocks }) := .grow hnew
    have hsettled : TableStep G m.kvCacheSpec m.kvCacheGroupId
        (p₁, { m.table requestId with row := row ++ blocks })
        (p₁, { m.table requestId with row := row ++ blocks, allocated := true }) :=
      .settle hspec' (hsettle _ rfl (by rw [hfull]) (by simp only; omega))
    have hsteps := (hrow.tail hgrow).tail hsettled
    simpa [table, SingleTypeKVCacheManager.row, setRow] using hsteps

/-- After an allocation, an `align` table has the required length. -/
theorem length_of_allocateNewBlocks {numTokens numTokensMainModel : Int}
    {newBlocks : List BlockId} (halign : m.isAlign)
    (hspec : m.allocatedBlockReqs requestId → m.numSpeculativeBlocks ≤ (m.row requestId).length)
    (h : m.allocateNewBlocks p requestId numTokens numTokensMainModel =
      .ok (p', m', newBlocks)) :
    m'.kvCacheSpec = m.kvCacheSpec ∧ ((m'.row requestId).length : Int) =
      cdiv numTokensMainModel m.blockSize + m.numSpeculativeBlocks := by
  have hmode {mode : MambaCacheMode} {n : Nat} (hkind : m.kvCacheSpec.kind = .mamba mode n) :
      mode = .align := by
    unfold isAlign KVCacheSpec.isAlign at halign
    split at halign
    · simp_all
    · cases halign
  unfold allocateNewBlocks at h
  split at h
  · unfold allocateNewBlocksAlign at h
    simp only at h
    split at h
    · rename_i heq
      simp only [Except.ok.injEq, Prod.mk.injEq] at h
      obtain ⟨-, rfl, -⟩ := h
      exact ⟨rfl, heq.symm⟩
    · simp only [bind_ok_iff, ensure_eq_ok, pure_ok_iff, Prod.exists, Prod.mk.injEq] at h
      obtain ⟨_, hlt, _, -, blocks, p₁, hnew, rfl, rfl, -⟩ := h
      have hfull := (length_alignedRow_append hlt hspec hnew).2
      exact ⟨rfl, by simpa [SingleTypeKVCacheManager.row, setRow] using hfull⟩
  · rename_i mode _ hne hkind
    exact (hne (hmode hkind)).elim
  · rename_i hne _
    unfold isAlign KVCacheSpec.isAlign at halign
    split at halign
    · exact (hne _ ‹_›).elim
    · cases halign

/-- `allocate_new_blocks` in elementary steps. -/
theorem allocateNewBlocks_steps {numTokens numTokensMainModel : Int} {newBlocks : List BlockId}
    (htokens : 0 ≤ numTokensMainModel)
    (hspec : m.allocatedBlockReqs requestId → m.numSpeculativeBlocks ≤ (m.row requestId).length)
    (hmove : m.isAlign → m.allocatedBlockReqs requestId → ∀ t i,
      t.numCached = (m.table requestId).numCached →
      (m.row requestId).length ≤ i + m.numSpeculativeBlocks →
      G.move m.kvCacheSpec m.kvCacheGroupId t i)
    (hsettle : m.isAlign → ∀ t, t.numCached = (m.table requestId).numCached →
      (t.row.length : Int) = cdiv numTokensMainModel m.blockSize + m.numSpeculativeBlocks →
      (m.row requestId).length < t.row.length → G.settle m.kvCacheSpec m.kvCacheGroupId t)
    (h : m.allocateNewBlocks p requestId numTokens numTokensMainModel =
      .ok (p', m', newBlocks)) : ManagerSteps G requestId p m p' m' := by
  unfold allocateNewBlocks at h
  split at h
  · rename_i hkind
    have halign : m.isAlign := by simp [isAlign, KVCacheSpec.isAlign, hkind]
    exact allocateNewBlocksAlign_steps htokens hspec (hmove halign) (hsettle halign) h
  · exact allocateNewBlocksBase_steps h
  · exact allocateNewBlocksBase_steps h

/-! ## Caching -/

/-- `cache_blocks` of the base class caches the full blocks that are new. -/
theorem cacheBlocksBase_steps {request : Request H} {numTokens : Int}
    (hcaching : p.enableCaching)
    (hcache : (m.table request.requestId).numCached < (numTokens / m.blockSize).toNat →
      G.cache m.kvCacheSpec m.kvCacheGroupId (m.table request.requestId) request
        (numTokens / m.blockSize).toNat)
    (h : m.cacheBlocksBase p request numTokens = .ok (p', m')) :
    ManagerSteps G request.requestId p m p' m' := by
  unfold cacheBlocksBase at h
  simp only at h
  split at h
  · obtain ⟨rfl, rfl⟩ := Prod.mk.inj (Except.ok.inj h)
    exact .refl G request.requestId p m
  · rename_i hnew
    simp only [bind_ok_iff, pure_ok_iff, Prod.mk.injEq] at h
    obtain ⟨_, hfull, rfl, rfl⟩ := h
    have hlt : (m.table request.requestId).numCached < (numTokens / m.blockSize).toNat :=
      not_le.mp hnew
    refine ⟨⟨rfl, rfl, rfl, fun r hr => by simp [hr], fun _ _ => rfl⟩, ?_⟩
    have hstep := TableStep.cache (t := m.table request.requestId) hcaching hlt (hcache hlt) hfull
    simpa [table, SingleTypeKVCacheManager.row] using Relation.ReflTransGen.single hstep

/-- `cache_blocks` in elementary steps. -/
theorem cacheBlocks_steps {request : Request H} {numTokens : Int} (hcaching : p.enableCaching)
    (hcache : (m.table request.requestId).numCached < (numTokens / m.blockSize).toNat →
      G.cache m.kvCacheSpec m.kvCacheGroupId (m.table request.requestId) request
        (numTokens / m.blockSize).toNat)
    (h : m.cacheBlocks p request numTokens = .ok (p', m')) :
    ManagerSteps G request.requestId p m p' m' := by
  unfold cacheBlocks at h
  split at h
  · cases h
  · simp only [bind_ok_iff, pure_ok_iff, Prod.exists, Prod.mk.injEq] at h
    obtain ⟨_, m₁, hbase, _, -, rfl, rfl⟩ := h
    have hsteps := cacheBlocksBase_steps hcaching hcache hbase
    -- remembering the keys of this step leaves the tables alone
    exact ⟨⟨hsteps.agrees.spec_eq, hsteps.agrees.groupId_eq, hsteps.agrees.tables_eq,
      hsteps.agrees.numCached_eq, hsteps.agrees.allocated_eq⟩, hsteps.steps⟩
  · exact cacheBlocksBase_steps hcaching hcache h

end SingleTypeKVCacheManager

end Vllm
