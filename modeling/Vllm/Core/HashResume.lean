import Vllm.Core.BlockHasher

/-!
# Resumed hashing

A request hashed while its output grows resumes the scan over its multimodal
items at the last item. Only the block that the prompt fills partly is ever hashed
by a resumed scan while items are still around, so the result agrees with hashing
from scratch exactly when the last item is the only one that the scan from scratch
has not left behind at that block.
-/

namespace Vllm

open HashChain

variable {H : Type}

/-- Appending several chunks of output tokens in turn. -/
def appendAll (env : HashEnv H) (blockSize : Nat) (r : Request H)
    (chunks : List (List TokenId)) : Request H :=
  chunks.foldl (Request.appendOutputTokenIds env blockSize) r

/-- A scan from scratch has not left item `f` behind when it reaches position `s`. -/
def pending (s : Nat) (f : MultiModalFeatureSpec) : Bool :=
  decide (s ≤ f.mmPosition.offset ∨ s < f.stop)

/-- Start of the block that the prompt fills partly. -/
def promptTail (blockSize : Nat) (r : Request H) : Nat :=
  r.numPromptTokens / blockSize * blockSize

/-- An item has placeholder tokens in `[start, stop)`. -/
def Overlaps (start stop : Nat) (f : MultiModalFeatureSpec) : Prop :=
  f.mmPosition.offset < stop ∧ start < f.stop ∧ 0 < f.mmPosition.length

/-- The request carries the hashes from scratch, and the block that the prompt fills partly,
once complete, is hashed with the identifiers of all items that overlap it. -/
structure HashedInFull (env : HashEnv H) (blockSize : Nat) (r : Request H) : Prop where
  scratch : r.blockHashes = scratchHashes env blockSize r
  overlapping : ∀ h, r.blockHashes[r.numPromptTokens / blockSize]? = some h →
    ∃ parent mmExtraKeys,
      h = env.hashFn (parent, blockTokens blockSize r (r.numPromptTokens / blockSize),
        packKeys (genLoraExtraHashKeys r ++ mmExtraKeys ++
          cacheSaltKeys r (promptTail blockSize r) ++
          genPromptEmbedsExtraHashKeys env r (promptTail blockSize r)
            (promptTail blockSize r + blockSize))) ∧
      ∀ f ∈ r.mmFeatures, Overlaps (promptTail blockSize r) (promptTail blockSize r + blockSize) f →
        .str f.identifier ∈ mmExtraKeys

/-- The prompt's last, partly filled block is the first block, or not complete yet, or its
start lies past the last item and no item reaches into it, or the last item is the only one
pending there. -/
def ResumesCleanly (blockSize : Nat) (r : Request H) : Prop :=
  promptTail blockSize r = 0 ∨ r.numTokens < promptTail blockSize r + blockSize ∨
    ∀ last, r.mmFeatures.getLast? = some last →
      (last.stop < promptTail blockSize r ∧
        ∀ f ∈ r.mmFeatures, f.mmPosition.length = 0 ∨ f.stop ≤ promptTail blockSize r) ∨
      ((∀ f ∈ r.mmFeatures.dropLast, ¬ pending (promptTail blockSize r) f) ∧
        pending (promptTail blockSize r) last)

/-! ## The scan over the items -/

theorem pending_mono {s s' : Nat} (h : s ≤ s') {f : MultiModalFeatureSpec}
    (hp : pending s' f = true) : pending s f = true := by
  simp only [pending, decide_eq_true_eq] at hp ⊢
  omega

/-- The scan stops at the first item pending at the end of the block. -/
theorem genMmLoop_snd {start stop : Nat} (h : start ≤ stop) (fs : List MultiModalFeatureSpec)
    (c : Nat) : (genMmLoop start stop fs c).2 = c + fs.findIdx (pending stop) := by
  induction fs generalizing c with
  | nil => simp [genMmLoop]
  | cons f fs ih =>
    have hp : pending stop f = decide (stop ≤ f.mmPosition.offset ∨ stop < f.stop) := rfl
    rw [List.findIdx_cons, hp]
    simp only [genMmLoop]
    split_ifs with h1 h2 h3
    · rw [ih, decide_eq_false (by omega), cond_false]
      omega
    · rw [decide_eq_false (by omega), cond_false]
      simp only [ih]
      omega
    · simp [show stop < f.stop by omega]
    · simp [show stop ≤ f.mmPosition.offset by omega]

/-- When every item ends before the block does, the scan keeps those that have not
ended before the block starts. -/
theorem genMmLoop_fst {start stop : Nat} (fs : List MultiModalFeatureSpec) (c : Nat)
    (h : ∀ f ∈ fs, f.stop < stop) : (genMmLoop start stop fs c).1 =
      (fs.filter fun f => start ≤ f.stop).map fun f => .str f.identifier := by
  induction fs generalizing c with
  | nil => simp [genMmLoop]
  | cons f fs ih =>
    have hf := h f (by simp)
    have hrest := fun c => ih c fun g hg => h g (by simp [hg])
    have hoff : f.mmPosition.offset < stop := by
      unfold MultiModalFeatureSpec.stop at hf
      omega
    simp only [genMmLoop, hoff, ite_true]
    by_cases hs : f.stop < start
    · simp [hs, hrest, show ¬ start ≤ f.stop by omega]
    · simp [hs, hrest, show f.stop ≤ stop by omega, show start ≤ f.stop by omega]

/-- Skipping what an earlier search skipped does not change a stricter search. -/
private theorem findIdx_drop {α : Type*} (p q : α → Bool) (l : List α)
    (h : ∀ x, q x = true → p x = true) :
    l.findIdx p + (l.drop (l.findIdx p)).findIdx q = l.findIdx q := by
  induction l with
  | nil => simp
  | cons x l ih =>
    by_cases hp : p x = true
    · simp [List.findIdx_cons, hp]
    · have hq : q x = false := by
        by_contra hq
        exact hp (h x (by simpa using hq))
      simp only [Bool.not_eq_true] at hp
      simp only [List.findIdx_cons, hp, hq, cond_false, List.drop_succ_cons]
      omega

variable {r : Request H} {blockSize : Nat}

/-- Until the last item has ended, the scan from scratch stands at the first item
pending at the start of the block. -/
theorem mmIdx_eq_findIdx {last : MultiModalFeatureSpec} (hl : r.mmFeatures.getLast? = some last)
    {j : Nat} (hj : j * blockSize ≤ last.stop) :
    mmIdx blockSize r j = (r.mmFeatures.findIdx (pending (j * blockSize)) : Nat) := by
  induction j with
  | zero =>
    cases hm : r.mmFeatures with
    | nil => simp [hm] at hl
    | cons f fs => simp [mmIdx, List.findIdx_cons, pending]
  | succ j ih =>
    rw [Nat.succ_mul] at hj
    have hprev := ih (by omega)
    have hlt : ¬ last.stop < j * blockSize := by omega
    have hnn : ¬ ((r.mmFeatures.findIdx (pending (j * blockSize)) : Nat) : Int) < 0 := by omega
    simp only [mmIdx, genMmExtraHashKeys, hl, hprev, hlt, ite_false, hnn, Int.toNat_natCast]
    rw [genMmLoop_snd (by omega), findIdx_drop, Nat.succ_mul]
    exact fun f hf => pending_mono (by omega) hf

/-- Reading only the last item gives what is read from the first pending item on
exactly when the last item is the only pending one. -/
theorem filter_drop_findIdx_eq_iff (s : Nat) (init : List MultiModalFeatureSpec)
    (last : MultiModalFeatureSpec) (hlast : s ≤ last.stop) :
    ((((init ++ [last]).drop ((init ++ [last]).findIdx (pending s))).filter
        fun f => s ≤ f.stop).map fun f => ExtraKey.str f.identifier) = [.str last.identifier] ↔
      (∀ f ∈ init, ¬ pending s f) ∧ pending s last := by
  induction init with
  | nil =>
    by_cases hp : pending s last = true
    · simp [List.findIdx_cons, hp, hlast]
    · simp [List.findIdx_cons, hp]
  | cons f init ih =>
    by_cases hp : pending s f = true
    · have hf : s ≤ f.stop := by
        simp only [pending, decide_eq_true_eq] at hp
        unfold MultiModalFeatureSpec.stop at hp ⊢
        omega
      simp [List.findIdx_cons, hp, hf, hlast, List.filter_append]
    · simp only [Bool.not_eq_true] at hp
      simp only [List.cons_append, List.findIdx_cons, hp, cond_false, List.drop_succ_cons,
        List.mem_cons, forall_eq_or_imp, ih]
      simp

/-- Behind the end of the last item a scan reads nothing. -/
private theorem genMm_of_past {last : MultiModalFeatureSpec}
    (hl : r.mmFeatures.getLast? = some last) {start : Nat} (hpast : last.stop < start) (stop : Nat)
    (idx : Int) : (genMmExtraHashKeys r start stop idx).1 = [] := by
  simp [genMmExtraHashKeys, hl, hpast]

/-- A resumed scan reads the last item alone. -/
private theorem genMm_resumed {last : MultiModalFeatureSpec}
    (hl : r.mmFeatures.getLast? = some last) {start stop : Nat} (hstart : start ≤ last.stop)
    (hstop : last.stop < stop) :
    (genMmExtraHashKeys r start stop (-1)).1 = [.str last.identifier] := by
  have hsplit : r.mmFeatures = r.mmFeatures.dropLast ++ [last] :=
    (List.dropLast_append_getLast? last hl).symm
  have hne : 0 < r.mmFeatures.length := by rw [hsplit]; simp
  have hidx : ((r.mmFeatures.length : Int) + -1).toNat = r.mmFeatures.dropLast.length := by
    rw [List.length_dropLast]
    omega
  have hdrop : r.mmFeatures.drop r.mmFeatures.dropLast.length = [last] := by
    conv_lhs => rw [hsplit]
    simp
  simp only [genMmExtraHashKeys, hl, show ¬ last.stop < start by omega, ite_false,
    show (-1 : Int) < 0 by decide, ite_true, hidx, hdrop]
  rw [genMmLoop_fst _ _ (by simpa using hstop)]
  simp [hstart]

/-- A resumed scan of the prompt's last block meets the same items as a scan from scratch
exactly when the last item has ended before the block, or is the only one pending there. -/
private theorem genMm_resumed_eq_iff {blockSize k : Nat}
    (hin : ∀ f ∈ r.mmFeatures, f.stop < k * blockSize + blockSize) :
    (genMmExtraHashKeys r (k * blockSize) (k * blockSize + blockSize) (-1)).1 =
        mmKeys blockSize r k ↔
      ∀ last, r.mmFeatures.getLast? = some last → last.stop < k * blockSize ∨
        ((∀ f ∈ r.mmFeatures.dropLast, ¬ pending (k * blockSize) f) ∧
          pending (k * blockSize) last) := by
  cases hl : r.mmFeatures.getLast? with
  | none => simp [mmKeys, genMmExtraHashKeys, hl]
  | some last =>
    simp only [Option.some.injEq, forall_eq']
    by_cases hpast : last.stop < k * blockSize
    · simp [mmKeys, genMm_of_past hl hpast, hpast]
    · have hscan : mmKeys blockSize r k =
          ((r.mmFeatures.drop (r.mmFeatures.findIdx (pending (k * blockSize)))).filter
            fun f => k * blockSize ≤ f.stop).map fun f => .str f.identifier := by
        have hnn : ¬ ((r.mmFeatures.findIdx (pending (k * blockSize)) : Nat) : Int) < 0 := by omega
        simp only [mmKeys, mmIdx_eq_findIdx hl (by omega : k * blockSize ≤ last.stop),
          genMmExtraHashKeys, hl, hpast, ite_false, hnn, Int.toNat_natCast]
        exact genMmLoop_fst _ _ fun f hf => hin f (List.mem_of_mem_drop hf)
      rw [genMm_resumed hl (by omega) (hin last (List.mem_of_getLast? hl)), hscan, eq_comm]
      conv_lhs => rw [← List.dropLast_append_getLast? last hl]
      rw [filter_drop_findIdx_eq_iff _ _ _ (by omega)]
      simp [hpast]

/-! ## The hashes of a growing request -/

/-- The item identifiers that a growing request puts into block `j`: the block the prompt
fills partly is hashed by a resumed scan, unless it is the first. -/
def grownMmKeys (blockSize : Nat) (r : Request H) (j : Nat) : List ExtraKey :=
  if j = r.numPromptTokens / blockSize ∧ 0 < j then
    (genMmExtraHashKeys r (j * blockSize) (j * blockSize + blockSize) (-1)).1
  else mmKeys blockSize r j

/-- The extra keys of block `j` as a growing request hashes it. -/
def grownKeys (env : HashEnv H) (blockSize : Nat) (r : Request H) (j : Nat) : List ExtraKey :=
  genLoraExtraHashKeys r ++ grownMmKeys blockSize r j ++ cacheSaltKeys r (j * blockSize) ++
    genPromptEmbedsExtraHashKeys env r (j * blockSize) (j * blockSize + blockSize)

/-- Apart from the block that the prompt fills partly, the keys are those from scratch. -/
private theorem grownKeys_of_ne (env : HashEnv H) {blockSize j : Nat}
    (h : j ≠ r.numPromptTokens / blockSize) :
    grownKeys env blockSize r j = flatKeys env blockSize r j := by
  rw [grownKeys, grownMmKeys, if_neg fun hj => h hj.1]
  rfl

/-- The inputs of the first `n` blocks of a growing request. -/
def grownInputs (env : HashEnv H) (blockSize : Nat) (r : Request H) (n : Nat) :
    List BlockInput :=
  (List.range n).map fun j => (blockTokens blockSize r j, packKeys (grownKeys env blockSize r j))

/-- What holds of a request from its construction through all appends. -/
structure Grown (env : HashEnv H) (blockSize : Nat) (r : Request H) : Prop where
  prompt_le : r.numPromptTokens ≤ r.numTokens
  items : ∀ f ∈ r.mmFeatures, f.stop ≤ r.numPromptTokens
  hashes : r.blockHashes =
    chain env.step env.noneHash (grownInputs env blockSize r (r.numTokens / blockSize))

/-- Hashing on from the blocks already hashed yields the inputs of `grownInputs`. -/
theorem blockInputs_grown {env : HashEnv H} (hb : 0 < blockSize)
    (hin : ∀ f ∈ r.mmFeatures, f.stop ≤ r.numPromptTokens) {m : Nat}
    (hm : r.numPromptTokens / blockSize ≤ m) (n : Nat) :
    blockInputs env blockSize r n m (if 0 < m then -1 else 0) =
      (List.range' m n).map fun j =>
        (blockTokens blockSize r j, packKeys (grownKeys env blockSize r j)) := by
  have htail : r.numPromptTokens < (r.numPromptTokens / blockSize + 1) * blockSize := by
    rw [← Nat.div_lt_iff_lt_mul hb]
    omega
  have hpast (j : Nat) (hj : r.numPromptTokens / blockSize < j) :
      ∀ f ∈ r.mmFeatures, f.stop < j * blockSize := fun f hf =>
    lt_of_le_of_lt (hin f hf) (lt_of_lt_of_le htail (Nat.mul_le_mul_right _ hj))
  have hgrown (j : Nat) (hj : r.numPromptTokens / blockSize < j) :
      grownKeys env blockSize r j = flatKeys env blockSize r j :=
    grownKeys_of_ne env hj.ne'
  cases n with
  | zero => rfl
  | succ n =>
    have hrest : (List.range' (m + 1) n).map (fun j =>
        (blockTokens blockSize r j, packKeys (grownKeys env blockSize r j))) =
        (List.range' (m + 1) n).map fun j =>
          (blockTokens blockSize r j, packKeys (flatKeys env blockSize r j)) := by
      apply List.map_congr_left
      intro j hj
      rw [List.mem_range'_1] at hj
      rw [hgrown j (by omega)]
    rw [blockInputs, List.range'_succ, List.map_cons, hrest,
      blockInputs_of_past env blockSize r (hpast (m + 1) (by omega))]
    congr 2
    by_cases h0 : 0 < m
    · by_cases hmk : m = r.numPromptTokens / blockSize
      · simp only [h0, ite_true, generateBlockHashExtraKeys_eq, grownKeys, grownMmKeys, ← hmk,
          true_and]
      · rw [flatKeys_of_past (hpast m (by omega)), hgrown m (by omega)]
    · obtain rfl : m = 0 := by omega
      simp [generateBlockHashExtraKeys_eq, grownKeys, grownMmKeys, mmKeys, mmIdx]

/-- A freshly constructed request whose items lie in the prompt is well hashed. -/
theorem grown_init (env : HashEnv H) (hb : 0 < blockSize) (r : Request H)
    (hin : ∀ f ∈ r.mmFeatures, f.stop ≤ (initialTokenIds r.promptTokenIds r.promptEmbeds).length) :
    Grown env blockSize (Request.init env blockSize r) where
  prompt_le := le_refl _
  items := hin
  hashes := by
    let r' := Request.init env blockSize r
    have hscratch : r'.blockHashes = scratchHashes env blockSize r' := rfl
    change r'.blockHashes = chain env.step env.noneHash
      (grownInputs env blockSize r' (r'.numTokens / blockSize))
    rw [hscratch, scratchHashes_eq_chain env hb]
    congr 1
    apply List.map_congr_left
    intro j hj
    have hne : j ≠ r'.numPromptTokens / blockSize := Nat.ne_of_lt (List.mem_range.mp hj)
    rw [grownKeys_of_ne env hne]

/-- Keys depend on the items, adapter, salt and embeddings, not on the tokens. -/
private theorem grownKeys_congr {r r' : Request H} (h : SameExtras r r')
    (hp : r.numPromptTokens = r'.numPromptTokens) (env : HashEnv H) (blockSize j : Nat) :
    grownKeys env blockSize r j = grownKeys env blockSize r' j := by
  simp only [grownKeys, grownMmKeys, hp, h.genMm, h.mmKeys, genLoraExtraHashKeys, h.loraRequest,
    cacheSaltKeys, h.cacheSalt, genPromptEmbedsExtraHashKeys, h.promptEmbeds]

/-- Blocks whose tokens two requests share contribute the same grown inputs. -/
theorem grownInputs_congr {r r' : Request H} (h : SameExtras r r')
    (hp : r.numPromptTokens = r'.numPromptTokens) (env : HashEnv H) {blockSize n : Nat}
    (htok : r.allTokenIds.take (n * blockSize) = r'.allTokenIds.take (n * blockSize)) :
    grownInputs env blockSize r n = grownInputs env blockSize r' n := by
  apply List.map_congr_left
  intro j hj
  rw [grownKeys_congr h hp env, blockTokens_congr htok (List.mem_range.mp hj)]

/-- Appending output tokens keeps a request well hashed. -/
theorem Grown.append {env : HashEnv H} (hb : 0 < blockSize) (hg : Grown env blockSize r)
    (tokens : List TokenId) :
    Grown env blockSize (Request.appendOutputTokenIds env blockSize r tokens) := by
  let q : Request H := { r with
    outputTokenIds := r.outputTokenIds ++ tokens
    allTokenIds := r.allTokenIds ++ tokens }
  have hlen : r.numTokens ≤ q.numTokens := by
    simp [q, Request.numTokens]
  have hdiv : r.numTokens / blockSize ≤ q.numTokens / blockSize := Nat.div_le_div_right hlen
  have hm : r.blockHashes.length = r.numTokens / blockSize := by
    rw [hg.hashes, length_chain]
    simp [grownInputs]
  refine ⟨le_trans hg.prompt_le hlen, hg.items, ?_⟩
  have hq : grownInputs env blockSize (Request.appendOutputTokenIds env blockSize r tokens)
      (q.numTokens / blockSize) = grownInputs env blockSize q (q.numTokens / blockSize) :=
    have hsame : SameExtras (Request.appendOutputTokenIds env blockSize r tokens) q :=
      ⟨rfl, rfl, rfl, rfl⟩
    grownInputs_congr hsame rfl env rfl
  change q.blockHashes ++ requestBlockHasher env blockSize q =
    chain env.step env.noneHash (grownInputs env blockSize
      (Request.appendOutputTokenIds env blockSize r tokens) (q.numTokens / blockSize))
  rw [hq]
  have hold : grownInputs env blockSize r (r.numTokens / blockSize) =
      grownInputs env blockSize q (r.numTokens / blockSize) := by
    have hsame : SameExtras r q := ⟨rfl, rfl, rfl, rfl⟩
    apply grownInputs_congr hsame rfl
    exact (List.take_append_of_le_length (Nat.div_mul_le_self _ _)).symm
  have hsplit : grownInputs env blockSize q (q.numTokens / blockSize) =
      grownInputs env blockSize q (r.numTokens / blockSize) ++
        blockInputs env blockSize q (q.numTokens / blockSize - r.numTokens / blockSize)
          (r.numTokens / blockSize) (if 0 < r.numTokens / blockSize then -1 else 0) := by
    rw [blockInputs_grown (r := q) hb hg.items (Nat.div_le_div_right hg.prompt_le)]
    simp only [grownInputs, List.range_eq_range', ← List.map_append]
    have happend := List.range'_append_1 (s := 0) (m := r.numTokens / blockSize)
      (n := q.numTokens / blockSize - r.numTokens / blockSize)
    rw [Nat.zero_add, Nat.add_sub_cancel' hdiv] at happend
    rw [happend]
  have hlast : q.blockHashes.getLast?.getD env.noneHash =
      digest env.step env.noneHash (grownInputs env blockSize q (r.numTokens / blockSize)) := by
    rw [show q.blockHashes = r.blockHashes from rfl, hg.hashes, getLast?_chain_getD, hold]
  rw [requestBlockHasher_eq_chain env hb, hlast, show q.blockHashes = r.blockHashes from rfl, hm,
    hsplit, chain_append, ← hold, hg.hashes]

/-- A request stays well hashed however its output is appended. -/
theorem Grown.appendAll {env : HashEnv H} (hb : 0 < blockSize) (hg : Grown env blockSize r)
    (chunks : List (List TokenId)) : Grown env blockSize (appendAll env blockSize r chunks) := by
  induction chunks generalizing r with
  | nil => exact hg
  | cons tokens chunks ih => exact ih (hg.append hb tokens)

/-- A well hashed request carries the hashes from scratch exactly when the block that the
prompt fills partly, once complete, has the item identifiers from scratch. -/
private theorem Grown.blockHashes_eq_iff {env : HashEnv H} (he : env.CollisionFree)
    (hb : 0 < blockSize) (hg : Grown env blockSize r) :
    r.blockHashes = scratchHashes env blockSize r ↔
      (r.numPromptTokens / blockSize < r.numTokens / blockSize →
        grownMmKeys blockSize r (r.numPromptTokens / blockSize) =
          mmKeys blockSize r (r.numPromptTokens / blockSize)) := by
  rw [hg.hashes, scratchHashes_eq_chain env hb]
  constructor
  · intro h hk
    have hkeys := congrArg (·[r.numPromptTokens / blockSize]?) (chain_injective he.separating h)
    simp only [getElem?_scratchInputs env blockSize r hk, grownInputs, List.getElem?_map,
      List.getElem?_range hk, Option.map_some, Option.some.injEq, Prod.mk.injEq,
      true_and] at hkeys
    simpa [grownKeys, flatKeys] using packKeys_injective hkeys
  · intro h
    congr 1
    apply List.map_congr_left
    intro j hj
    by_cases hjk : j = r.numPromptTokens / blockSize
    · subst hjk
      rw [grownKeys, h (List.mem_range.mp hj)]
      rfl
    · rw [grownKeys_of_ne env hjk]

/-- The hash of the block that the prompt fills partly is one of its item identifiers. -/
private theorem Grown.overlapping_iff {env : HashEnv H} (he : env.CollisionFree)
    (hg : Grown env blockSize r) (P : List ExtraKey → Prop) :
    (∀ h, r.blockHashes[r.numPromptTokens / blockSize]? = some h → ∃ parent mmExtraKeys,
      h = env.hashFn (parent, blockTokens blockSize r (r.numPromptTokens / blockSize),
        packKeys (genLoraExtraHashKeys r ++ mmExtraKeys ++
          cacheSaltKeys r (promptTail blockSize r) ++
          genPromptEmbedsExtraHashKeys env r (promptTail blockSize r)
            (promptTail blockSize r + blockSize))) ∧ P mmExtraKeys) ↔
      (r.numPromptTokens / blockSize < r.numTokens / blockSize →
        P (grownMmKeys blockSize r (r.numPromptTokens / blockSize))) := by
  have hlength : (grownInputs env blockSize r (r.numTokens / blockSize)).length =
      r.numTokens / blockSize := by simp [grownInputs]
  have hentry (hk : r.numPromptTokens / blockSize < r.numTokens / blockSize) : ∃ parent,
      r.blockHashes[r.numPromptTokens / blockSize]? = some (env.hashFn (parent,
        blockTokens blockSize r (r.numPromptTokens / blockSize),
        packKeys (grownKeys env blockSize r (r.numPromptTokens / blockSize)))) := by
    have hinput : (grownInputs env blockSize r (r.numTokens / blockSize))[
        r.numPromptTokens / blockSize]? =
          some (blockTokens blockSize r (r.numPromptTokens / blockSize),
            packKeys (grownKeys env blockSize r (r.numPromptTokens / blockSize))) := by
      rw [grownInputs, List.getElem?_map, List.getElem?_range hk, Option.map_some]
    have hhash := getElem?_chain env.step env.noneHash _ (hlength.symm ▸ hk)
    rw [List.take_add_one, hinput, Option.toList_some, digest_concat, ← hg.hashes] at hhash
    exact ⟨_, hhash⟩
  constructor
  · intro h hk
    obtain ⟨parent, hparent⟩ := hentry hk
    obtain ⟨parent', mmExtraKeys, heq, hP⟩ := h _ hparent
    have hinputs := he.injective heq
    simp only [Prod.mk.injEq, true_and] at hinputs
    have hkeys := packKeys_injective hinputs.2
    have hsame : grownMmKeys blockSize r (r.numPromptTokens / blockSize) = mmExtraKeys := by
      simpa [grownKeys, promptTail] using hkeys
    rwa [hsame]
  · intro h x hx
    have hk : r.numPromptTokens / blockSize < r.numTokens / blockSize := by
      rw [hg.hashes] at hx
      simpa only [hlength] using lt_of_getElem?_chain hx
    obtain ⟨parent, hparent⟩ := hentry hk
    rw [hparent, Option.some.injEq] at hx
    exact ⟨parent, _, hx.symm, h hk⟩

/-- A resumed scan of the prompt's last block meets the items from scratch, and all that
overlap it, exactly when it starts past all items or the last item alone is pending there. -/
private theorem genMm_resumed_inFull_iff {blockSize k : Nat}
    (hin : ∀ f ∈ r.mmFeatures, f.stop < k * blockSize + blockSize) :
    ((genMmExtraHashKeys r (k * blockSize) (k * blockSize + blockSize) (-1)).1 =
        mmKeys blockSize r k ∧
      ∀ f ∈ r.mmFeatures, Overlaps (k * blockSize) (k * blockSize + blockSize) f →
        .str f.identifier ∈
          (genMmExtraHashKeys r (k * blockSize) (k * blockSize + blockSize) (-1)).1) ↔
      ∀ last, r.mmFeatures.getLast? = some last →
        (last.stop < k * blockSize ∧
          ∀ f ∈ r.mmFeatures, f.mmPosition.length = 0 ∨ f.stop ≤ k * blockSize) ∨
        ((∀ f ∈ r.mmFeatures.dropLast, ¬ pending (k * blockSize) f) ∧
          pending (k * blockSize) last) := by
  rw [genMm_resumed_eq_iff hin]
  have hpending {f : MultiModalFeatureSpec}
      (hf : Overlaps (k * blockSize) (k * blockSize + blockSize) f) :
      pending (k * blockSize) f = true := decide_eq_true (Or.inr hf.2.1)
  constructor
  · rintro ⟨hlast, hover⟩ last hl
    refine (hlast last hl).imp_left fun hpast => ⟨hpast, fun f hf => ?_⟩
    rw [genMm_of_past hl hpast] at hover
    by_contra hreach
    obtain ⟨hlength, hstop⟩ := not_or.mp hreach
    have hend := hin f hf
    refine absurd (hover f hf ⟨?_, by omega, by omega⟩) List.not_mem_nil
    unfold MultiModalFeatureSpec.stop at hend
    omega
  · intro h
    refine ⟨fun last hl => (h last hl).imp_left And.left, fun f hf hover => ?_⟩
    have hl := List.getLast?_eq_some_getLast (List.ne_nil_of_mem hf)
    generalize r.mmFeatures.getLast _ = last at hl
    obtain ⟨-, hpast⟩ | ⟨hinit, hp⟩ := h last hl
    · have hf' := hpast f hf
      obtain ⟨-, hstop, hlength⟩ := hover
      omega
    · have hsplit := List.dropLast_append_getLast? last hl
      rw [← hsplit, List.mem_append, List.mem_singleton] at hf
      obtain hf | rfl := hf
      · exact absurd (hpending hover) (hinit f hf)
      · rw [genMm_resumed hl hover.2.1.le (hin f (List.mem_of_getLast? hl))]
        exact List.mem_singleton_self _

/-- A well hashed request is hashed in full exactly when its partly filled prompt block
resumes cleanly. -/
private theorem Grown.hashedInFull_iff {env : HashEnv H} (he : env.CollisionFree)
    (hb : 0 < blockSize) (hg : Grown env blockSize r) :
    HashedInFull env blockSize r ↔ ResumesCleanly blockSize r := by
  have htail : r.numPromptTokens < r.numPromptTokens / blockSize * blockSize + blockSize := by
    rw [← Nat.succ_mul, ← Nat.div_lt_iff_lt_mul hb]
    omega
  have hin (f : MultiModalFeatureSpec) (hf : f ∈ r.mmFeatures) :
      f.stop < r.numPromptTokens / blockSize * blockSize + blockSize :=
    lt_of_le_of_lt (hg.items f hf) htail
  have hfull : r.numPromptTokens / blockSize < r.numTokens / blockSize ↔
      ¬ r.numTokens < promptTail blockSize r + blockSize := by
    rw [promptTail, ← Nat.succ_mul, not_lt, ← Nat.succ_le_iff, Nat.le_div_iff_mul_le hb]
  have hzero : promptTail blockSize r = 0 ↔ r.numPromptTokens / blockSize = 0 := by
    rw [promptTail, Nat.mul_eq_zero, or_iff_left hb.ne']
  have hsplit : HashedInFull env blockSize r ↔
      (r.numPromptTokens / blockSize < r.numTokens / blockSize →
        grownMmKeys blockSize r (r.numPromptTokens / blockSize) =
            mmKeys blockSize r (r.numPromptTokens / blockSize) ∧
          ∀ f ∈ r.mmFeatures,
            Overlaps (promptTail blockSize r) (promptTail blockSize r + blockSize) f →
            .str f.identifier ∈ grownMmKeys blockSize r (r.numPromptTokens / blockSize)) := by
    rw [imp_and, ← hg.blockHashes_eq_iff he hb,
      ← hg.overlapping_iff he fun keys => ∀ f ∈ r.mmFeatures,
        Overlaps (promptTail blockSize r) (promptTail blockSize r + blockSize) f →
        .str f.identifier ∈ keys]
    exact ⟨fun h => ⟨h.scratch, h.overlapping⟩, fun h => ⟨h.1, h.2⟩⟩
  rw [hsplit, ResumesCleanly, hzero, ← or_assoc, or_comm (b := r.numTokens < _), or_assoc,
    hfull, imp_iff_not_or, not_not]
  refine or_congr_right ?_
  rcases Nat.eq_zero_or_pos (r.numPromptTokens / blockSize) with h0 | hpos
  · refine iff_of_true ?_ (Or.inl h0)
    rw [grownMmKeys, if_neg fun h => h.2.ne' h0, h0]
    refine ⟨rfl, fun f hf _ => ?_⟩
    have hl := List.getLast?_eq_some_getLast (List.ne_nil_of_mem hf)
    generalize r.mmFeatures.getLast _ = last at hl
    simp only [mmKeys, genMmExtraHashKeys, hl, mmIdx, Nat.zero_mul, Nat.not_lt_zero, ite_false,
      lt_irrefl, Int.toNat_zero, List.drop_zero]
    rw [genMmLoop_fst _ _ fun g hg' => by simpa [h0] using hin g hg']
    exact List.mem_map.mpr ⟨f, by simpa using hf, rfl⟩
  · rw [or_iff_right hpos.ne', grownMmKeys, if_pos ⟨rfl, hpos⟩]
    exact genMm_resumed_inFull_iff hin

/-- However output tokens are appended, a request ends with the hashes from scratch and with
all items of its partly filled prompt block exactly when that block resumes cleanly. -/
theorem appendAll_hashedInFull_iff {env : HashEnv H} (he : env.CollisionFree) {blockSize : Nat}
    (hb : 0 < blockSize) (r : Request H)
    (hin : ∀ f ∈ r.mmFeatures, f.stop ≤ (initialTokenIds r.promptTokenIds r.promptEmbeds).length)
    (chunks : List (List TokenId)) :
    HashedInFull env blockSize (appendAll env blockSize (Request.init env blockSize r) chunks) ↔
      ResumesCleanly blockSize (appendAll env blockSize (Request.init env blockSize r) chunks) :=
  ((grown_init env hb r hin).appendAll hb chunks).hashedInFull_iff he hb

/-- Blocks of four; two images inside the second block, which the prompt leaves one
token short. -/
def twoImages : Request FreeDigest :=
  { requestId := 0, promptTokenIds := some [1, 2, 3, 4, 5, 6, 7]
    mmFeatures := [⟨"a", ⟨4, 1, none⟩⟩, ⟨"b", ⟨6, 1, none⟩⟩] }

/-- The first generated token completes a block hashed without the first image. -/
theorem twoImages_not_hashedInFull :
    freeEnv.CollisionFree ∧ ¬ HashedInFull freeEnv 4
      (appendAll freeEnv 4 (Request.init freeEnv 4 twoImages) [[8]]) :=
  ⟨freeEnv_collisionFree, fun h => absurd h.scratch (by decide)⟩

/-- With the second image alone the resumed scan misses nothing. -/
theorem oneImage_hashedInFull :
    HashedInFull freeEnv 4 (appendAll freeEnv 4 (Request.init freeEnv 4
      { twoImages with mmFeatures := [⟨"b", ⟨6, 1, none⟩⟩] }) [[8], [9]]) :=
  (appendAll_hashedInFull_iff freeEnv_collisionFree (by decide) _ (by decide) _).mpr
    (Or.inr (Or.inr (by decide)))

end Vllm
