import Mathlib.Data.Nat.ModEq
import Vllm.Core.ManagerSteps
import Vllm.Worker.LocalAttention

/-!
# The mask of the virtual batches

A request's query tokens lie in consecutive chunks. The virtual batch of a chunk has the query
tokens of the request in the chunk and the keys from the chunk's start to the last of them, so
plain causal attention over it is attention within the chunk.
-/

namespace Vllm.Worker

open Checked Flattened

/-! ## The chunks of a request -/

/-- A request of a batch: its last tokens are the query. -/
structure ChunkedRequest where
  queryLen : Nat
  seqLen : Nat
  pos : 0 < queryLen
  le : queryLen ≤ seqLen

namespace ChunkedRequest

variable (r : ChunkedRequest) (c : Nat)

/-- The tokens before the query. -/
def contextLen : Nat := r.seqLen - r.queryLen

/-- In how many chunks there are query tokens. -/
def numChunks : Nat := (r.seqLen - 1) / c - r.contextLen / c + 1

/-- Where a chunk starts, the first with query tokens being number 0. -/
def chunkStart (a : Nat) : Nat := (r.contextLen / c + a) * c

/-- The first query token in a chunk. -/
def low (a : Nat) : Nat := max r.contextLen (r.chunkStart c a)

/-- The end of the query tokens in a chunk. -/
def high (a : Nat) : Nat := min r.seqLen (r.chunkStart c (a + 1))

private theorem context_add_query : r.contextLen + r.queryLen = r.seqLen :=
  Nat.sub_add_cancel r.le

private theorem numChunks_pos : 0 < r.numChunks c := Nat.succ_pos _

private theorem chunkStart_succ (a : Nat) : r.chunkStart c (a + 1) = r.chunkStart c a + c := by
  rw [chunkStart, ← Nat.add_assoc, Nat.succ_mul, chunkStart]

private theorem high_zero : r.high c 0 = min r.seqLen (r.chunkStart c 0 + c) := by
  rw [high, chunkStart_succ]

private theorem chunkStart_eq (a : Nat) : r.chunkStart c a = r.chunkStart c 0 + a * c := by
  rw [chunkStart, chunkStart, Nat.add_mul, Nat.add_zero]

private theorem chunkStart_mono {a a' : Nat} (h : a ≤ a') : r.chunkStart c a ≤ r.chunkStart c a' :=
  Nat.mul_le_mul_right c (Nat.add_le_add_left h _)

variable {c} (hc : 0 < c)

include hc

/-- The query starts in the first chunk. -/
theorem context_in_first :
    r.chunkStart c 0 ≤ r.contextLen ∧ r.contextLen < r.chunkStart c 0 + c := by
  have hdiv := Nat.div_add_mod' r.contextLen c
  have hmod := Nat.mod_lt r.contextLen hc
  rw [chunkStart, Nat.add_zero]
  omega

/-- The sequence ends in the last chunk. -/
theorem end_in_last : r.chunkStart c (r.numChunks c - 1) < r.seqLen ∧
    r.seqLen ≤ r.chunkStart c (r.numChunks c) := by
  have hpos := r.pos
  have hle := r.le
  have hdiv := Nat.div_add_mod' (r.seqLen - 1) c
  have hmod := Nat.mod_lt (r.seqLen - 1) hc
  have hmono : r.contextLen / c ≤ (r.seqLen - 1) / c :=
    Nat.div_le_div_right (by unfold contextLen; omega)
  have hlast : r.chunkStart c (r.numChunks c - 1) = (r.seqLen - 1) / c * c := by
    rw [chunkStart, numChunks, Nat.add_sub_cancel, Nat.add_sub_cancel' hmono]
  have hnext : r.chunkStart c (r.numChunks c) = r.chunkStart c (r.numChunks c - 1) + c := by
    rw [← chunkStart_succ, numChunks, Nat.add_sub_cancel]
  omega

/-- Every chunk that is counted has query tokens. -/
theorem low_lt_high {a : Nat} (ha : a < r.numChunks c) : r.low c a < r.high c a := by
  have hfirst := r.context_in_first hc
  have hlast := r.end_in_last hc
  have hpos := r.pos
  have hle := r.le
  have hsucc := r.chunkStart_succ c a
  have hzero := r.chunkStart_mono c (Nat.zero_le a)
  have hmono := r.chunkStart_mono c (Nat.le_sub_one_of_lt ha)
  unfold low high contextLen at *
  omega

/-- Where a chunk's query tokens end, those of the next one start. -/
theorem high_eq_low {a : Nat} (ha : a + 1 < r.numChunks c) :
    r.high c a = r.low c (a + 1) ∧ r.high c a = r.chunkStart c (a + 1) := by
  have hfirst := r.context_in_first hc
  have hlast := r.end_in_last hc
  have hzero := r.chunkStart_mono c (Nat.le_add_left 1 a)
  have hone : r.chunkStart c 1 = r.chunkStart c 0 + c := r.chunkStart_succ c 0
  have hmono := r.chunkStart_mono c (Nat.le_sub_one_of_lt ha)
  unfold low high
  omega

private theorem high_last : r.high c (r.numChunks c - 1) = r.seqLen := by
  have hlast := r.end_in_last hc
  rw [high, Nat.sub_add_cancel (r.numChunks_pos c)]
  omega

private theorem low_zero : r.low c 0 = r.contextLen := by
  have hfirst := r.context_in_first hc
  unfold low
  omega

private theorem low_succ (a : Nat) : r.low c (a + 1) = r.chunkStart c (a + 1) := by
  have hfirst := r.context_in_first hc
  have hone : r.chunkStart c 1 = r.chunkStart c 0 + c := r.chunkStart_succ c 0
  have hzero := r.chunkStart_mono c (Nat.le_add_left 1 a)
  unfold low
  omega

/-! ### The formulas of the builder -/

/-- `q_tokens_in_first_block`. -/
theorem first_eq : min ((c : Int) - ((r.seqLen : Int) - r.queryLen).fmod c) r.queryLen
    = (r.high c 0 - r.contextLen : Nat) := by
  have hsum := r.context_add_query
  have hfirst := r.context_in_first hc
  have hhigh := r.high_zero c
  have hdiv := Nat.div_add_mod' r.contextLen c
  have hcontext : ((r.seqLen : Int) - r.queryLen) = (r.contextLen : Nat) := by omega
  have hmod : ((r.contextLen : Nat) : Int).fmod c = (r.contextLen % c : Nat) := by
    rw [Int.fmod_eq_emod_of_nonneg _ (Int.natCast_nonneg c)]
    rfl
  have hstart : r.chunkStart c 0 = r.contextLen / c * c := by rw [chunkStart, Nat.add_zero]
  rw [hcontext, hmod]
  omega

/-- Ceiling division is told by two bounds. -/
theorem cdiv_eq {x : Int} {n : Nat} (hlow : (n : Int) * c - c < x) (hhigh : x ≤ n * c) :
    cdiv x c = n := by
  have hc' : (0 : Int) < c := by omega
  have hle := (cdiv_le_iff hc' (a := x)).mpr hhigh
  have hge : ¬ cdiv x c ≤ n - 1 := by
    rw [cdiv_le_iff hc', Int.sub_mul, Int.one_mul]
    omega
  omega

/-- `local_blocks`. -/
theorem numChunks_eq :
    1 + cdiv ((r.queryLen : Int) - (r.high c 0 - r.contextLen : Nat)) c = r.numChunks c := by
  have hsum := r.context_add_query
  have hpos := r.pos
  have hfirst := r.context_in_first hc
  have hlast := r.end_in_last hc
  have hhigh := r.high_zero c
  obtain ⟨n, hn⟩ : ∃ n, r.numChunks c = n + 1 := ⟨_, rfl⟩
  have hchunk := r.chunkStart_eq c n
  have hsucc := r.chunkStart_succ c n
  rw [hn, Nat.add_sub_cancel] at hlast
  have hmul : ((n * c : Nat) : Int) = n * c := Int.natCast_mul n c
  have hzero : n = 0 → n * c = 0 := fun h => by rw [h, Nat.zero_mul]
  have hone : n ≠ 0 → c ≤ n * c := fun h => Nat.le_mul_of_pos_left c (Nat.pos_of_ne_zero h)
  have hcount : cdiv ((r.queryLen : Int) - (r.high c 0 - r.contextLen : Nat)) c = n :=
    cdiv_eq hc (by omega) (by omega)
  rw [hcount, hn]
  omega

/-- `tokens_in_last_block`. -/
theorem last_eq : (c : Int) + (r.seqLen : Int).fmod (-c)
    = (r.seqLen - r.chunkStart c (r.numChunks c - 1) : Nat) := by
  have hlast := r.end_in_last hc
  obtain ⟨n, hn⟩ : ∃ n, r.numChunks c = n + 1 := ⟨_, rfl⟩
  rw [hn, Nat.add_sub_cancel] at hlast ⊢
  have hsucc := r.chunkStart_succ c n
  have hchunks : r.chunkStart c (n + 1) = (r.contextLen / c + n + 1) * c := rfl
  have hmul := Int.natCast_mul (r.contextLen / c + n + 1) c
  have hceil : cdiv (r.seqLen : Int) c = (r.contextLen / c + n + 1 : Nat) := by
    refine cdiv_eq hc ?_ ?_ <;> rw [← hmul, ← hchunks] <;> omega
  have hfmod : (r.seqLen : Int).fmod (-c) = r.seqLen - c * cdiv (r.seqLen : Int) c := by
    rw [Int.fmod_def, cdiv, Int.neg_mul, Int.mul_neg]
  rw [hfmod, hceil, Int.mul_comm, ← hmul, ← hchunks]
  omega

/-- An entry of `seqlens_q_local` behind the first. -/
theorem later_eq {a : Nat} (ha : a < r.numChunks c) (hpos : 0 < a) :
    min ((r.queryLen : Int) - (r.high c 0 - r.contextLen : Nat) - c * ((a : Int) - 1)) c
      = (r.high c a - r.low c a : Nat) := by
  have hsum := r.context_add_query
  have hfirst := r.context_in_first hc
  have hstart := (r.high_eq_low hc (a := 0) (by omega)).2
  have hone : r.chunkStart c (0 + 1) = _ := r.chunkStart_succ c 0
  obtain ⟨a, rfl⟩ : ∃ b, a = b + 1 := ⟨a - 1, by omega⟩
  have hhigh : r.high c (a + 1) = min r.seqLen (r.chunkStart c (a + 1) + c) := by
    rw [high, chunkStart_succ]
  have hlow := r.low_succ hc a
  have hchunk := r.chunkStart_eq c (a + 1)
  rw [Nat.succ_mul] at hchunk
  have hmul : (c : Int) * (((a + 1 : Nat) : Int) - 1) = (a * c : Nat) := by
    rw [Int.natCast_mul, Int.mul_comm]
    congr 1
    omega
  have hlt := r.low_lt_high hc ha
  rw [hmul]
  omega

/-- An entry of `k_seqstarts_absolute`. -/
theorem start_eq {a : Nat} (ha : a < r.numChunks c) :
    (r.seqLen : Int) - (((r.numChunks c : Int) - a - 1) * c
      + (r.seqLen - r.chunkStart c (r.numChunks c - 1) : Nat)) = r.chunkStart c a := by
  have hlast := r.end_in_last hc
  obtain ⟨b, hb⟩ : ∃ b, r.numChunks c = a + b + 1 := ⟨r.numChunks c - a - 1, by omega⟩
  have hend := r.chunkStart_eq c (a + b)
  have hchunk := r.chunkStart_eq c a
  rw [Nat.add_mul] at hend
  have hmul : ((r.numChunks c : Int) - a - 1) * c = (b * c : Nat) := by
    rw [Int.natCast_mul]
    congr 1
    omega
  rw [hmul]
  rw [hb, Nat.add_sub_cancel] at hlast ⊢
  omega

/-- An entry of `seqlens_k_local` before the last. -/
theorem full_eq {a : Nat} (ha : a + 1 < r.numChunks c) :
    (c : Int) = (r.high c a - r.chunkStart c a : Nat) := by
  have hstart := (r.high_eq_low hc ha).2
  have hsucc := r.chunkStart_succ c a
  omega

end ChunkedRequest

/-! ## The virtual batches -/

/-- The requests of a batch, with their indices, and a chunk number for each of their chunks. -/
def virtualBatches (c : Nat) (l : List (ChunkedRequest × Nat)) :
    List ((ChunkedRequest × Nat) × Nat) :=
  l.flatMap fun e => (List.range (e.1.numChunks c)).map (Prod.mk e)

/-- The row of the block table for a virtual batch. -/
def localRow (c blockSize width : Nat) (blockTable : List (List Int))
    (v : (ChunkedRequest × Nat) × Nat) : List Int :=
  (List.range (c / blockSize)).map fun j =>
    (blockTable.getD v.1.2 []).getD (min (v.1.1.chunkStart c v.2 / blockSize + j) (width - 1)) 0

/-- An array with an entry for each virtual batch, request by request. -/
theorem map_virtualBatches {α : Type} (c : Nat) (l : List (ChunkedRequest × Nat))
    (f : (ChunkedRequest × Nat) × Nat → α) : (virtualBatches c l).map f
      = l.flatMap fun e => (List.range (e.1.numChunks c)).map fun a => f (e, a) := by
  rw [virtualBatches, List.map_flatMap]
  refine List.flatMap_congr fun e _ => ?_
  rw [List.map_map]
  rfl

private theorem mem_virtualBatches {c : Nat} {l : List (ChunkedRequest × Nat)}
    {v : (ChunkedRequest × Nat) × Nat} :
    v ∈ virtualBatches c l ↔ v.1 ∈ l ∧ v.2 < v.1.1.numChunks c := by
  obtain ⟨e, a⟩ := v
  simp only [virtualBatches, List.mem_flatMap, List.mem_map, List.mem_range, Prod.mk.injEq]
  constructor
  · rintro ⟨e', he, a', ha, rfl, rfl⟩
    exact ⟨he, ha⟩
  · exact fun h => ⟨e, h.1, a, h.2, rfl, rfl⟩

private theorem length_virtualBatches (c : Nat) (l : List (ChunkedRequest × Nat)) :
    (virtualBatches c l).length = (l.map fun e => e.1.numChunks c).sum := by
  simp [virtualBatches, List.length_flatMap]

section Arrays

variable {c : Nat} (hc : 0 < c) (l : List (ChunkedRequest × Nat))

/-- The positions of the chunks among those of their requests. -/
theorem arange_eq : List.zipWith (fun i offset : Int => i - offset)
    ((List.range (l.map fun e => e.1.numChunks c).sum).map fun i : Nat => (i : Int))
    (repeatEach (List.zipWith (· - ·) (cumsum 0 (l.map fun e => (e.1.numChunks c : Int)))
      (l.map fun e => (e.1.numChunks c : Int))) (l.map fun e => (e.1.numChunks c : Int)))
      = (virtualBatches c l).map fun v => (v.2 : Int) := by
  rw [map_virtualBatches, List.range_eq_range']
  exact zipWith_range_offsets 0 (fun e : ChunkedRequest × Nat => e.1.numChunks c) l

/-- An entry of a request, for each of its virtual batches. -/
theorem repeatEach_eq {α : Type} (f : ChunkedRequest × Nat → α) :
    repeatEach (l.map f) (l.map fun e => (e.1.numChunks c : Int))
      = (virtualBatches c l).map fun v => f v.1 := by
  rw [map_virtualBatches, repeatEach_map f (fun e => e.1.numChunks c)]
  refine List.flatMap_congr fun e _ => ?_
  simp

include hc

/-- `seqlens_q_local`. -/
theorem seqlensQ_eq : List.zipWith
    (fun q i : Int => if 0 < i then min (q - c * (i - 1)) c else q)
    (assignMask (((virtualBatches c l).map fun v => (v.2 : Int)).map fun i => decide (i = 0))
      ((virtualBatches c l).map fun v =>
        (v.1.1.queryLen : Int) - (v.1.1.high c 0 - v.1.1.contextLen : Nat))
      (l.map fun e => ((e.1.high c 0 - e.1.contextLen : Nat) : Int)))
    ((virtualBatches c l).map fun v => (v.2 : Int))
      = (virtualBatches c l).map fun v => ((v.1.1.high c v.2 - v.1.1.low c v.2 : Nat) : Int) := by
  have hmask := assignMask_first (l := l) (fun e => e.1.numChunks c)
    (fun e => (List.range (e.1.numChunks c)).map fun _ =>
      (e.1.queryLen : Int) - (e.1.high c 0 - e.1.contextLen : Nat))
    (fun e => ((e.1.high c 0 - e.1.contextLen : Nat) : Int))
    (fun e _ => e.1.numChunks_pos c) (fun e _ => by simp)
  simp only [map_virtualBatches, List.map_flatMap, List.map_map] at hmask ⊢
  refine (congrArg₂ (List.zipWith _) hmask rfl).trans ?_
  rw [zipWith_flatMap fun e _ => by
    have := e.1.numChunks_pos c
    simp
    omega]
  refine List.flatMap_congr fun e _ => List.ext_getElem ?_ fun a ha ha' => ?_
  · have := e.1.numChunks_pos c
    simp
    omega
  · have ha'' : a < e.1.numChunks c := by simpa using ha'
    simp only [List.getElem_zipWith, List.getElem_map, List.getElem_range]
    cases a with
    | zero =>
      rw [List.getElem_cons_zero, e.1.low_zero hc]
      rfl
    | succ a =>
      rw [List.getElem_cons_succ, List.getElem_tail, List.getElem_map,
        if_pos (by omega), e.1.later_eq hc ha'' (Nat.succ_pos a)]

/-- `seqlens_k_local`. -/
theorem seqlensK_eq : scatter (List.replicate (l.map fun e => e.1.numChunks c).sum (c : Int))
    ((cumsum 0 (l.map fun e => (e.1.numChunks c : Int))).map (· - 1))
    (l.map fun e => ((e.1.seqLen - e.1.chunkStart c (e.1.numChunks c - 1) : Nat) : Int))
      = (virtualBatches c l).map fun v =>
        ((v.1.1.high c v.2 - v.1.1.chunkStart c v.2 : Nat) : Int) := by
  refine (scatter_last (l := l) (fun e => e.1.numChunks c) (c : Int) _
    fun e _ => e.1.numChunks_pos c).trans ?_
  rw [map_virtualBatches]
  refine List.flatMap_congr fun e _ => ?_
  obtain ⟨n, hn⟩ : ∃ n, e.1.numChunks c = n + 1 := ⟨_, rfl⟩
  have hlast := e.1.high_last hc
  rw [hn, Nat.add_sub_cancel] at hlast ⊢
  rw [List.range_succ, List.map_append, List.map_singleton, hlast]
  refine congrArg (· ++ _) (List.ext_getElem (by simp) fun a ha ha' => ?_)
  have ha'' : a < n := by simpa using ha'
  rw [List.getElem_replicate, List.getElem_map, List.getElem_range]
  exact e.1.full_eq hc (by omega)

/-- `k_seqstarts_absolute`. -/
theorem kStarts_eq : List.zipWith (· - ·) ((virtualBatches c l).map fun v => (v.1.1.seqLen : Int))
    (List.zipWith (fun i last : Int => i * c + last)
      (List.zipWith (fun n i : Int => n - i - 1)
        ((virtualBatches c l).map fun v => (v.1.1.numChunks c : Int))
        ((virtualBatches c l).map fun v => (v.2 : Int)))
      ((virtualBatches c l).map fun v =>
        ((v.1.1.seqLen - v.1.1.chunkStart c (v.1.1.numChunks c - 1) : Nat) : Int)))
      = (virtualBatches c l).map fun v => (v.1.1.chunkStart c v.2 : Int) := by
  simp only [List.zipWith_map, List.zipWith_self]
  refine List.map_congr_left fun v hv => ?_
  exact v.1.1.start_eq hc (mem_virtualBatches.mp hv).2

end Arrays

/-! ### Block tables -/

section Tables

variable (c blockSize : Nat) {width : Nat} (l : List (ChunkedRequest × Nat))

/-- A flattened array with equally many entries for each virtual batch. -/
theorem repeatEach_pages (n : Nat) :
    repeatEach (l.map fun e => (e.2 : Int))
        ((l.map fun e => (e.1.numChunks c : Int)).map fun x => x * (n : Int))
      = (virtualBatches c l).flatMap fun v => List.replicate n (v.1.2 : Int) := by
  have hcounts : (l.map fun e => (e.1.numChunks c : Int)).map (fun x => x * (n : Int))
      = l.map fun e => ((e.1.numChunks c * n : Nat) : Int) := by
    rw [List.map_map]
    exact List.map_congr_left fun e _ => (Int.natCast_mul _ _).symm
  rw [hcounts, repeatEach_map _ (fun e : ChunkedRequest × Nat => e.1.numChunks c * n),
    virtualBatches, List.flatMap_assoc]
  refine List.flatMap_congr fun e _ => ?_
  rw [List.flatMap_map]
  generalize e.1.numChunks c = k
  induction k with
  | zero => simp
  | succ k ih =>
    rw [Nat.succ_mul, ← List.replicate_append_replicate, ih, List.range_succ,
      List.flatMap_append, List.flatMap_singleton]

/-- `block_indices`. -/
theorem blockIndices_eq (hwidth : 0 < width) :
    ((((virtualBatches c l).map fun v => (v.1.1.chunkStart c v.2 : Int)).map
        (·.fdiv (blockSize : Int))).flatMap fun start =>
      (List.range ((c : Int).fdiv blockSize).toNat).map fun i : Nat => start + (i : Int)).map
        (fun i => min i ((width : Int) - 1))
      = (virtualBatches c l).flatMap fun v => (List.range (c / blockSize)).map fun j =>
        ((min (v.1.1.chunkStart c v.2 / blockSize + j) (width - 1) : Nat) : Int) := by
  have hdiv (x : Nat) : (x : Int).fdiv blockSize = (x / blockSize : Nat) := by
    rw [Int.fdiv_eq_ediv_of_nonneg _ (Int.natCast_nonneg _), Int.natCast_ediv]
  rw [List.map_map, List.flatMap_map, List.map_flatMap]
  refine List.flatMap_congr fun v _ => ?_
  rw [List.map_map, hdiv, Int.toNat_natCast]
  refine List.map_congr_left fun j _ => ?_
  simp only [Function.comp_apply, hdiv]
  omega

private theorem atIndex_natCast {α : Type} {xs : List α} {i : Nat} {x : α} (h : xs[i]? = some x) :
    atIndex xs (i : Int) = .ok x := by
  have hneg : ¬ (i : Int) < 0 := by omega
  simp only [atIndex, if_neg hneg, Int.toNat_natCast, h]
  rw [if_pos (by omega)]

variable {l}

/-- The block table of the virtual batches. -/
theorem makeBlockTable_eq {blockTable : List (List Int)} (hwidth : 0 < width)
    (hrows : ∀ e ∈ l, e.2 < blockTable.length) (hcols : ∀ row ∈ blockTable, row.length = width) :
    makeBlockTable (virtualBatches c l).length
      ((virtualBatches c l).flatMap fun v => List.replicate (c / blockSize) (v.1.2 : Int))
      ((virtualBatches c l).flatMap fun v => (List.range (c / blockSize)).map fun j =>
        ((min (v.1.1.chunkStart c v.2 / blockSize + j) (width - 1) : Nat) : Int)) blockTable
      = .ok ((virtualBatches c l).map (localRow c blockSize width blockTable)) := by
  unfold makeBlockTable
  have hzip : ((virtualBatches c l).flatMap fun v =>
        List.replicate (c / blockSize) (v.1.2 : Int)).zip
      ((virtualBatches c l).flatMap fun v => (List.range (c / blockSize)).map fun j =>
        ((min (v.1.1.chunkStart c v.2 / blockSize + j) (width - 1) : Nat) : Int))
      = (virtualBatches c l).flatMap fun v => (List.range (c / blockSize)).map fun j =>
        ((v.1.2 : Int),
          ((min (v.1.1.chunkStart c v.2 / blockSize + j) (width - 1) : Nat) : Int)) := by
    rw [List.zip, zipWith_flatMap fun v _ => by simp]
    refine List.flatMap_congr fun v _ => List.ext_getElem (by simp) fun j hj hj' => ?_
    simp
  have hread : ∀ e ∈ (virtualBatches c l).flatMap fun v =>
      (List.range (c / blockSize)).map fun j => ((v.1.2 : Int),
        ((min (v.1.1.chunkStart c v.2 / blockSize + j) (width - 1) : Nat) : Int)),
      (atIndex blockTable e.1 >>= fun row => atIndex row e.2)
        = .ok ((blockTable.getD e.1.toNat []).getD e.2.toNat 0) := by
    intro e he
    obtain ⟨v, hv, he⟩ := List.mem_flatMap.mp he
    obtain ⟨j, -, rfl⟩ := List.mem_map.mp he
    have hrow := hrows v.1 (mem_virtualBatches.mp hv).1
    have hlen := hcols _ (List.getElem_mem hrow)
    have hcol : min (v.1.1.chunkStart c v.2 / blockSize + j) (width - 1)
        < blockTable[v.1.2].length := by omega
    simp only [Int.toNat_natCast]
    refine bind_ok_iff.mpr ⟨_, atIndex_natCast (List.getElem?_eq_getElem hrow), ?_⟩
    rw [atIndex_natCast (List.getElem?_eq_getElem hcol)]
    simp only [List.getD_eq_getElem?_getD, List.getElem?_eq_getElem hrow, Option.getD_some,
      List.getElem?_eq_getElem hcol]
  rw [hzip, mapM_eq_ok_map hread]
  refine congrArg Except.ok ?_
  rw [List.map_flatMap]
  refine (congrArg (view _) (List.flatMap_congr fun v _ => ?_)).trans
    (view_flatMap (n := c / blockSize) (localRow c blockSize width blockTable) fun v _ => ?_)
  · rw [List.map_map]
    rfl
  · simp [localRow]

end Tables

/-! ### What the builder returns -/

/-- The metadata of a batch of requests, whose block table has rows of a width. -/
structure Describes (m : CommonAttentionMetadata) (reqs : List ChunkedRequest) (width : Nat) :
    Prop where
  queryStartLoc : m.queryStartLoc = 0 :: cumsum 0 (reqs.map fun r => (r.queryLen : Int))
  seqLens : m.seqLens = reqs.map fun r => (r.seqLen : Int)
  rows : reqs.length ≤ m.blockTableTensor.length
  cols : ∀ row ∈ m.blockTableTensor, row.length = width

/-- What the metadata of the virtual batches of some requests holds. -/
structure IsLocal (c blockSize width : Nat) (reqs : List ChunkedRequest)
    (blockTable : List (List Int)) (m : CommonAttentionMetadata) : Prop where
  numReqs : m.numReqs = (virtualBatches c reqs.zipIdx).length
  queryStartLoc : m.queryStartLoc = 0 :: cumsum 0 ((virtualBatches c reqs.zipIdx).map fun v =>
    ((v.1.1.high c v.2 - v.1.1.low c v.2 : Nat) : Int))
  seqLens : m.seqLens = (virtualBatches c reqs.zipIdx).map fun v =>
    ((v.1.1.high c v.2 - v.1.1.chunkStart c v.2 : Nat) : Int)
  blockTable : m.blockTableTensor
    = (virtualBatches c reqs.zipIdx).map (localRow c blockSize width blockTable)

/-- The builder returns the virtual batches. -/
theorem makeLocalAttentionVirtualBatches_eq {c blockSize width : Nat}
    {m : CommonAttentionMetadata} {reqs : List ChunkedRequest} (hd : Describes m reqs width)
    (hreqs : reqs ≠ []) (hwidth : 0 < width) (hblock : 0 < blockSize) (hc : 0 < c)
    (hdvd : blockSize ∣ c) :
    ∃ out makeTable, makeLocalAttentionVirtualBatches c m blockSize = .ok (out, makeTable) ∧
      IsLocal c blockSize width reqs m.blockTableTensor out.toCommonAttentionMetadata := by
  obtain ⟨l, hl⟩ : ∃ l, l = reqs.zipIdx := ⟨_, rfl⟩
  have hfst {α : Type} (f : ChunkedRequest → α) : reqs.map f = l.map fun e => f e.1 := by
    rw [hl, ← List.zipIdx_map_fst 0 reqs, List.map_map]
    simp
  have hlens : m.seqLens = l.map fun e => (e.1.seqLen : Int) :=
    hd.seqLens.trans (hfst fun r => (r.seqLen : Int))
  have hqueries : m.queryLens = l.map fun e => (e.1.queryLen : Int) := by
    rw [CommonAttentionMetadata.queryLens, hd.queryStartLoc, List.tail_cons, zipWith_sub_cumsum]
    exact hfst fun r => (r.queryLen : Int)
  have hindices : (List.range (l.map fun e => (e.1.seqLen : Int)).length).map
      (fun i : Nat => (i : Int)) = l.map fun e => (e.2 : Int) := by
    rw [List.length_map, hl]
    refine List.ext_getElem (by simp) fun i hi hi' => ?_
    simp
  have hne : l ≠ [] := fun h => hreqs (List.zipIdx_eq_nil_iff.mp (hl.symm.trans h))
  unfold makeLocalAttentionVirtualBatches
  have hcount : (cumsum 0 (l.map fun e => (e.1.numChunks c : Int))).getLast?
      = some (((l.map fun e => e.1.numChunks c).sum : Nat) : Int) := by
    rw [getLast?_cumsum 0 (by simpa using hne), Int.zero_add, sum_map_natCast]
  have hfirst : List.zipWith (fun seqLen q : Int => min ((c : Int) - (seqLen - q).fmod c) q)
      (l.map fun e => (e.1.seqLen : Int)) (l.map fun e => (e.1.queryLen : Int))
        = l.map fun e => ((e.1.high c 0 - e.1.contextLen : Nat) : Int) := by
    rw [List.zipWith_map, List.zipWith_self]
    exact List.map_congr_left fun e _ => e.1.first_eq hc
  have hlast : (l.map fun e => (e.1.seqLen : Int)).map
      (fun seqLen : Int => (c : Int) + seqLen.fmod (-c)) = l.map fun e =>
        ((e.1.seqLen - e.1.chunkStart c (e.1.numChunks c - 1) : Nat) : Int) := by
    rw [List.map_map]
    exact List.map_congr_left fun e _ => e.1.last_eq hc
  have hblocks : List.zipWith (fun q first : Int => 1 + cdiv (q - first) c)
      (l.map fun e => (e.1.queryLen : Int))
      (l.map fun e => ((e.1.high c 0 - e.1.contextLen : Nat) : Int))
        = l.map fun e => (e.1.numChunks c : Int) := by
    rw [List.zipWith_map, List.zipWith_self]
    exact List.map_congr_left fun e _ => e.1.numChunks_eq hc
  have hrest : List.zipWith (fun q first : Int => q - first)
      (l.map fun e => (e.1.queryLen : Int))
      (l.map fun e => ((e.1.high c 0 - e.1.contextLen : Nat) : Int))
        = l.map fun e => (e.1.queryLen : Int) - (e.1.high c 0 - e.1.contextLen : Nat) := by
    rw [List.zipWith_map, List.zipWith_self]
  have hwidth' : ((m.blockTableTensor.head?.map List.length).getD 0 : Nat) = width := by
    obtain ⟨row, rest, hrows⟩ : ∃ row rest, m.blockTableTensor = row :: rest :=
      List.exists_cons_of_length_pos ((List.length_pos_iff.mpr hreqs).trans_le hd.rows)
    rw [hrows]
    exact hd.cols row (hrows ▸ List.mem_cons_self)
  have hbound : ∀ e ∈ l, e.2 < m.blockTableTensor.length := by
    intro e he
    rw [hl] at he
    exact (List.snd_lt_of_mem_zipIdx he).trans_le (by simpa using hd.rows)
  have htable := makeBlockTable_eq c blockSize hwidth hbound hd.cols
  simp only [hqueries, hlens, hindices, hfirst, hlast, hblocks, hrest, hcount, Int.toNat_natCast,
    arange_eq, repeatEach_eq, seqlensQ_eq hc, seqlensK_eq hc, kStarts_eq hc, hwidth']
  have hpages : (c : Int).fdiv blockSize = (c / blockSize : Nat) := (Int.ofNat_fdiv _ _).symm
  have hindex := blockIndices_eq c blockSize l hwidth
  rw [hpages] at hindex ⊢
  rw [if_neg (by omega), hindex, repeatEach_pages, ← length_virtualBatches, htable]
  have hmod : (c : Int).fmod blockSize = 0 := by
    rw [← Int.ofNat_fmod, Nat.mod_eq_zero_of_dvd hdvd]
    rfl
  refine ⟨_, _, bind_ok_iff.mpr ⟨(), ensure_eq_ok.mpr hmod, rfl⟩, ?_⟩
  subst hl
  exact ⟨List.length_map _, rfl, rfl, rfl⟩

/-! ## The slices of the virtual batches -/

/-- The query tokens before a chunk's are those of the chunks before it. -/
theorem ChunkedRequest.sum_widths (r : ChunkedRequest) {c : Nat} (hc : 0 < c) {a : Nat}
    (ha : a < r.numChunks c) :
    ((List.range a).map fun a => ((r.high c a - r.low c a : Nat) : Int)).sum
      = (r.low c a : Int) - r.contextLen := by
  induction a with
  | zero =>
    rw [r.low_zero hc]
    simp
  | succ a ih =>
    have hnext := (r.high_eq_low hc ha).1
    have hlt := r.low_lt_high hc (show a < r.numChunks c by omega)
    rw [List.range_succ, List.map_append, List.sum_append, ih (by omega)]
    simp only [List.map_singleton, List.sum_singleton]
    omega

/-- All query tokens of a request are those of its chunks. -/
theorem ChunkedRequest.sum_all_widths (r : ChunkedRequest) {c : Nat} (hc : 0 < c) :
    ((List.range (r.numChunks c)).map fun a => ((r.high c a - r.low c a : Nat) : Int)).sum
      = r.queryLen := by
  obtain ⟨n, hn⟩ : ∃ n, r.numChunks c = n + 1 := ⟨_, rfl⟩
  have hsum := r.sum_widths hc (show n < r.numChunks c by omega)
  have hlast := r.high_last hc
  have hlt := r.low_lt_high hc (show n < r.numChunks c by omega)
  have hlen := r.context_add_query
  rw [hn, Nat.add_sub_cancel] at hlast
  rw [hn, List.range_succ, List.map_append, List.sum_append, hsum]
  simp only [List.map_singleton, List.sum_singleton]
  omega

section Slices

variable {c : Nat} (hc : 0 < c)

include hc

/-- The widths of the slices. -/
theorem sum_virtualBatches (l : List (ChunkedRequest × Nat)) :
    ((virtualBatches c l).map fun v => ((v.1.1.high c v.2 - v.1.1.low c v.2 : Nat) : Int)).sum
      = (l.map fun e => (e.1.queryLen : Int)).sum := by
  rw [map_virtualBatches]
  induction l with
  | nil => rfl
  | cons e l ih =>
    rw [List.flatMap_cons, List.sum_append, ih, e.1.sum_all_widths hc, List.map_cons,
      List.sum_cons]

/-- The starts of the requests are starts of virtual batches. -/
theorem cumsum_sublist (l : List (ChunkedRequest × Nat)) (start : Int) :
    (cumsum start (l.map fun e => (e.1.queryLen : Int))).Sublist
      (cumsum start ((virtualBatches c l).map fun v =>
        ((v.1.1.high c v.2 - v.1.1.low c v.2 : Nat) : Int))) := by
  rw [map_virtualBatches]
  induction l generalizing start with
  | nil => exact List.Sublist.refl _
  | cons e l ih =>
    rw [List.flatMap_cons, cumsum_append, e.1.sum_all_widths hc, List.map_cons, cumsum,
      ← List.singleton_append]
    refine List.Sublist.append (List.singleton_sublist.mpr ?_) (ih _)
    have hne : (List.range (e.1.numChunks c)).map
        (fun a => ((e.1.high c a - e.1.low c a : Nat) : Int)) ≠ [] := by
      have := e.1.numChunks_pos c
      simp only [ne_eq, List.map_eq_nil_iff, List.range_eq_nil]
      omega
    have hlast := getLast?_cumsum start hne
    rw [e.1.sum_all_widths hc] at hlast
    exact List.mem_of_getLast? hlast

/-- Every virtual batch has query tokens. -/
theorem width_pos {l : List (ChunkedRequest × Nat)} : ∀ x ∈ (virtualBatches c l).map fun v =>
    ((v.1.1.high c v.2 - v.1.1.low c v.2 : Nat) : Int), 0 < x := by
  intro x hx
  obtain ⟨v, hv, rfl⟩ := List.mem_map.mp hx
  have := v.1.1.low_lt_high hc (mem_virtualBatches.mp hv).2
  omega

/-- A chunk of a request: its place among the virtual batches, and the query tokens before
it. -/
theorem exists_virtualBatch {reqs : List ChunkedRequest} {i : Nat} {r : ChunkedRequest}
    (hr : reqs[i]? = some r) {a : Nat} (ha : a < r.numChunks c) :
    ∃ v, (virtualBatches c reqs.zipIdx)[v]? = some ((r, i), a) ∧
      (((virtualBatches c reqs.zipIdx).map fun v =>
        ((v.1.1.high c v.2 - v.1.1.low c v.2 : Nat) : Int)).take v).sum
        = ((reqs.map fun r => (r.queryLen : Int)).take i).sum + (r.low c a - r.contextLen) := by
  obtain ⟨hlt, hget⟩ := List.getElem?_eq_some_iff.mp hr
  have hsplit : reqs.zipIdx = reqs.zipIdx.take i ++ (r, i) :: reqs.zipIdx.drop (i + 1) := by
    conv_lhs => rw [← List.take_append_drop i reqs.zipIdx]
    rw [List.drop_eq_getElem_cons (by simpa using hlt)]
    simp [hget]
  have hbefore : (reqs.zipIdx.take i).map (fun e => (e.1.queryLen : Int))
      = (reqs.map fun r => (r.queryLen : Int)).take i := by
    rw [← List.map_take]
    conv_rhs => rw [← List.zipIdx_map_fst 0 reqs]
    rw [← List.map_take, List.map_map]
    rfl
  obtain ⟨n, hn⟩ : ∃ n, r.numChunks c = a + (n + 1) := ⟨r.numChunks c - a - 1, by omega⟩
  have hchunks : virtualBatches c reqs.zipIdx = virtualBatches c (reqs.zipIdx.take i)
      ++ (List.range a).map (Prod.mk (r, i)) ++ ((r, i), a) ::
        ((List.range n).map (fun x => ((r, i), a + (x + 1))) ++
          virtualBatches c (reqs.zipIdx.drop (i + 1))) := by
    conv_lhs => rw [hsplit]
    rw [virtualBatches, List.flatMap_append, List.flatMap_cons, hn, List.range_add]
    simp [virtualBatches, List.range_succ_eq_map, Function.comp_def]
  refine ⟨(virtualBatches c (reqs.zipIdx.take i) ++ (List.range a).map (Prod.mk (r, i))).length,
    ?_, ?_⟩
  · rw [hchunks, List.getElem?_append_right le_rfl, Nat.sub_self, List.getElem?_cons_zero]
  · rw [hchunks, List.map_append, List.take_left' (List.length_map _), List.map_append,
      List.sum_append, sum_virtualBatches hc, hbefore, List.map_map, ← r.sum_widths hc ha]
    rfl

end Slices

/-! ## Attention -/

/-- A token is a query token of an item of a batch. -/
def IsQueryOf (m : CommonAttentionMetadata) (v : Nat) (t : Int) : Prop :=
  ∃ start stop, m.queryStartLoc[v]? = some start ∧ m.queryStartLoc[v + 1]? = some stop ∧
    start ≤ t ∧ t < stop

/-- Under the causal mask, with the queries aligned to the end, a query token of an item sees
one of its keys. -/
def Sees (m : CommonAttentionMetadata) (v : Nat) (t : Int) (j : Nat) : Prop :=
  ∃ start stop len, m.queryStartLoc[v]? = some start ∧ m.queryStartLoc[v + 1]? = some stop ∧
    m.seqLens[v]? = some len ∧ (j : Int) < len ∧ (j : Int) ≤ len - (stop - start) + (t - start)

/-- An entry of the block table. -/
def tableEntry (m : CommonAttentionMetadata) (i page : Nat) : Option Int :=
  m.blockTableTensor[i]?.bind fun row => row[page]?

/-- The virtual batches compute attention within chunks: their slices divide those of the
requests, and a query at a position sees the keys of its chunk up to itself, which are where the
request has them. -/
structure AttendsInChunks (c blockSize : Nat) (reqs : List ChunkedRequest)
    (m out : CommonAttentionMetadata) : Prop where
  starts : m.queryStartLoc.Sublist out.queryStartLoc
  ascending : out.queryStartLoc.Pairwise (· < ·)
  ends : out.queryStartLoc.head? = m.queryStartLoc.head? ∧
    out.queryStartLoc.getLast? = m.queryStartLoc.getLast?
  mask : ∀ i r, reqs[i]? = some r → ∀ q : Nat, r.contextLen ≤ q → q < r.seqLen →
    ∃ first t v start, m.queryStartLoc[i]? = some first ∧ t = first + ((q : Int) - r.contextLen) ∧
      IsQueryOf out v t ∧ (∀ v', IsQueryOf out v' t → v' = v) ∧
      (∀ k, k ≤ q ∧ k / c = q / c ↔ start ≤ k ∧ Sees out v t (k - start)) ∧
      blockSize ∣ start ∧
      ∀ k, start ≤ k → Sees out v t (k - start) → ∀ block,
        tableEntry m i (k / blockSize) = some block →
          tableEntry out v ((k - start) / blockSize) = some block

/-- The chunk of a query position. -/
theorem ChunkedRequest.chunk_of_query (r : ChunkedRequest) {c : Nat} (hc : 0 < c) {q : Nat}
    (hlow : r.contextLen ≤ q) (hhigh : q < r.seqLen) :
    ∃ a < r.numChunks c, r.chunkStart c a = q / c * c ∧ r.low c a ≤ q ∧ q < r.high c a := by
  have hfirst : r.contextLen / c ≤ q / c := Nat.div_le_div_right hlow
  have hlast : q / c ≤ (r.seqLen - 1) / c := Nat.div_le_div_right (by omega)
  have hdiv := Nat.div_add_mod' q c
  have hmod := Nat.mod_lt q hc
  have hstart : r.chunkStart c (q / c - r.contextLen / c) = q / c * c := by
    rw [chunkStart, Nat.add_sub_cancel' hfirst]
  have hnext := r.chunkStart_succ c (q / c - r.contextLen / c)
  refine ⟨q / c - r.contextLen / c, by unfold numChunks; omega, hstart, ?_, ?_⟩
  · unfold low
    omega
  · unfold high
    omega

/-- The keys of a position's chunk up to it. -/
theorem chunk_keys_iff {c : Nat} (hc : 0 < c) (k q : Nat) :
    k ≤ q ∧ k / c = q / c ↔ q / c * c ≤ k ∧ k ≤ q := by
  have hk := Nat.div_add_mod' k c
  have hkmod := Nat.mod_lt k hc
  constructor
  · rintro ⟨hle, heq⟩
    rw [heq] at hk
    omega
  · rintro ⟨hstart, hle⟩
    exact ⟨hle, le_antisymm (Nat.div_le_div_right hle) ((Nat.le_div_iff_mul_le hc).mpr hstart)⟩

/-- Attention over the virtual batches is attention within the chunks of the requests. -/
theorem attendsInChunks_makeLocalAttentionVirtualBatches {c blockSize width : Nat}
    {m : CommonAttentionMetadata} {reqs : List ChunkedRequest} (hd : Describes m reqs width)
    (hreqs : reqs ≠ []) (hwidth : 0 < width) (hblock : 0 < blockSize) (hc : 0 < c)
    (hdvd : blockSize ∣ c) :
    ∃ out makeTable, makeLocalAttentionVirtualBatches c m blockSize = .ok (out, makeTable) ∧
      AttendsInChunks c blockSize reqs m out.toCommonAttentionMetadata := by
  obtain ⟨out, makeTable, hrun, hlocal⟩ :=
    makeLocalAttentionVirtualBatches_eq hd hreqs hwidth hblock hc hdvd
  refine ⟨out, makeTable, hrun, ?_⟩
  have hqueries : reqs.map (fun r => (r.queryLen : Int))
      = reqs.zipIdx.map fun e => (e.1.queryLen : Int) := by
    rw [← List.zipIdx_map_fst 0 reqs, List.map_map]
    simp
  have hascending : out.queryStartLoc.Pairwise (· < ·) := by
    rw [hlocal.queryStartLoc]
    exact pairwise_cumsum 0 (width_pos hc)
  refine ⟨?_, hascending, ⟨?_, ?_⟩, fun i r hr q hlow hhigh => ?_⟩
  · rw [hd.queryStartLoc, hlocal.queryStartLoc, hqueries]
    exact (cumsum_sublist hc _ 0).cons_cons 0
  · rw [hd.queryStartLoc, hlocal.queryStartLoc]
    rfl
  · have hlast (xs : List Int) : (0 :: cumsum 0 xs).getLast? = some xs.sum := by
      rw [List.getLast?_eq_getElem?, List.length_cons, length_cumsum, Nat.add_sub_cancel,
        getElem?_cumsum 0 xs le_rfl, List.take_length, Int.zero_add]
    rw [hd.queryStartLoc, hlocal.queryStartLoc, hlast, hlast, sum_virtualBatches hc, hqueries]
  obtain ⟨a, ha, hstart, hlowq, hhighq⟩ := r.chunk_of_query hc hlow hhigh
  obtain ⟨v, hv, hbefore⟩ := exists_virtualBatch hc hr ha
  have hvlt := (List.getElem?_eq_some_iff.mp hv).1
  have hilt := (List.getElem?_eq_some_iff.mp hr).1
  have hfirst : m.queryStartLoc[i]? = some ((reqs.map fun r => (r.queryLen : Int)).take i).sum := by
    rw [hd.queryStartLoc, getElem?_cumsum 0 _ (by simpa using hilt.le), Int.zero_add]
  have hlo : out.queryStartLoc[v]? = some
      (((reqs.map fun r => (r.queryLen : Int)).take i).sum + (r.low c a - r.contextLen)) := by
    rw [hlocal.queryStartLoc, getElem?_cumsum 0 _ (by simpa using hvlt.le), hbefore,
      Int.zero_add]
  have hhi : out.queryStartLoc[v + 1]? = some
      (((reqs.map fun r => (r.queryLen : Int)).take i).sum + (r.high c a - r.contextLen)) := by
    have hlt := r.low_lt_high hc ha
    rw [hlocal.queryStartLoc, getElem?_cumsum 0 _ (by rwa [List.length_map]), List.take_add_one,
      List.sum_append, hbefore, List.getElem?_map, hv]
    simp only [Option.map_some, Option.toList_some, List.sum_singleton]
    congr 1
    omega
  have hlen : out.seqLens[v]? = some ((r.high c a - r.chunkStart c a : Nat) : Int) := by
    rw [hlocal.seqLens, List.getElem?_map, hv]
    rfl
  have hchunk : r.chunkStart c a ≤ r.low c a := le_max_right _ _
  have hquery : IsQueryOf out.toCommonAttentionMetadata v
      (((reqs.map fun r => (r.queryLen : Int)).take i).sum + ((q : Int) - r.contextLen)) :=
    ⟨_, _, hlo, hhi, by omega, by omega⟩
  -- the mask in absolute positions
  have hsees (j : Nat) : Sees out.toCommonAttentionMetadata v
      (((reqs.map fun r => (r.queryLen : Int)).take i).sum + ((q : Int) - r.contextLen)) j ↔
        r.chunkStart c a + j ≤ q := by
    constructor
    · rintro ⟨start, stop, len, hs, he, hl, hj, hmask⟩
      rw [hlo, Option.some.injEq] at hs
      rw [hhi, Option.some.injEq] at he
      rw [hlen, Option.some.injEq] at hl
      omega
    · exact fun hj => ⟨_, _, _, hlo, hhi, hlen, by omega, by omega⟩
  refine ⟨_, _, v, r.chunkStart c a, hfirst, rfl, hquery, ?_, fun k => ?_, ?_, ?_⟩
  · rintro v' ⟨start, stop, hs, he, ht⟩
    exact between_unique hascending hs he hlo hhi ht ⟨by omega, by omega⟩
  · rw [chunk_keys_iff hc, ← hstart, hsees]
    omega
  · rw [hstart]
    exact Dvd.dvd.mul_left hdvd _
  · intro k hk hsee block hentry
    rw [hsees] at hsee
    have hbound : k - r.chunkStart c a < c := by
      have hnext := Nat.lt_div_mul_add (a := q) hc
      omega
    obtain ⟨row, hrow, hpage⟩ := Option.bind_eq_some_iff.mp hentry
    have hpagelt := (List.getElem?_eq_some_iff.mp hpage).1
    rw [hd.cols row (List.mem_of_getElem? hrow)] at hpagelt
    have hpages : r.chunkStart c a / blockSize + (k - r.chunkStart c a) / blockSize
        = k / blockSize := by
      rw [← Nat.add_div_of_dvd_right (hstart ▸ Dvd.dvd.mul_left hdvd _), Nat.add_sub_cancel' hk]
    have hcol : (k - r.chunkStart c a) / blockSize < c / blockSize :=
      Nat.div_lt_div_of_lt_of_dvd hdvd hbound
    have hmin : min (k / blockSize) (width - 1) = k / blockSize := by omega
    rw [tableEntry, hlocal.blockTable, List.getElem?_map, hv]
    simp only [Option.map_some, Option.bind_some, localRow, List.getElem?_map,
      List.getElem?_range hcol, hpages, hmin, List.getD_eq_getElem?_getD, hrow, hpage,
      Option.getD_some]

/-- The requests of the example. -/
def exampleRequests : List ChunkedRequest :=
  [⟨4, 6, Nat.succ_pos 3, Nat.le_add_left 4 2⟩, ⟨10, 17, Nat.succ_pos 9, Nat.le_add_left 10 7⟩,
    ⟨5, 9, Nat.succ_pos 4, Nat.le_add_left 5 4⟩]

/-- The virtual batches of the example attend within chunks of four tokens. -/
theorem exampleBatch_attendsInChunks :
    ∃ out makeTable, makeLocalAttentionVirtualBatches 4 exampleBatch 2 = .ok (out, makeTable) ∧
      AttendsInChunks 4 2 exampleRequests exampleBatch out.toCommonAttentionMetadata :=
  attendsInChunks_makeLocalAttentionVirtualBatches
    (show Describes exampleBatch exampleRequests 10 from
      ⟨by decide, by decide, by decide, by decide⟩) (by decide) (by decide) (by decide) (by decide)
    (by decide)

end Vllm.Worker
