import Vllm.Library.Blocks
import Vllm.Library.Flattened
import Vllm.Worker.GdnForward
import Vllm.Worker.GdnInitialState

/-!
# The partition of the tokens of gated delta net layers

With speculative sequences in the batch, the counts, the lists of token positions and the query
starts of the metadata describe one partition of the tokens, by the side of their request. The rows
that the kernels return for the two sides are merged into one row for each token.
-/

namespace Vllm.Worker

open Blocks Checked Select

/-! ## Query starts -/

section

variable {m : CommonAttentionMetadata}

/-- The number of tokens. -/
def CommonAttentionMetadata.numTokens (m : CommonAttentionMetadata) : Nat :=
  (m.queryStartLoc.getLast?.getD 0).toNat

/-- The tokens of each request, between its query start and the next. -/
def CommonAttentionMetadata.requestTokens (m : CommonAttentionMetadata) : List (List Nat) :=
  (m.queryStartLoc.zip m.queryStartLoc.tail).map fun e => List.range' e.1.toNat (e.2 - e.1).toNat

/-- The differences of a list of sums are what is summed. -/
private theorem scanl_differences (a : Int) (starts : List Int) :
    ((starts.zipWith (· - ·) (a :: starts)).scanl (· + ·) a) = a :: starts := by
  induction starts generalizing a with
  | nil => rfl
  | cons b starts ih =>
    rw [List.zipWith_cons_cons, List.scanl_cons, Int.add_comm a, Int.sub_add_cancel, ih]

/-- Query starts that begin with zero are the sums of the query lengths. -/
theorem queryStartLoc_eq (hzero : m.queryStartLoc.head? = some 0) :
    m.queryStartLoc = startLocs m.queryLens := by
  unfold startLocs CommonAttentionMetadata.queryLens
  cases h : m.queryStartLoc with
  | nil => simp [h] at hzero
  | cons a starts =>
    obtain rfl : a = 0 := by simpa [h] using hzero
    exact (scanl_differences 0 starts).symm

/-- A sum is what is summed up to it. -/
theorem getElem?_scanl_offset (start : Nat) (lengths : List Nat) {k : Nat}
    (hk : k ≤ lengths.length) :
    ((lengths.map fun n : Nat => (n : Int)).scanl (· + ·) (start : Int))[k]? =
      some ((start + offset lengths k : Nat) : Int) := by
  induction lengths generalizing start k with
  | nil =>
    obtain rfl : k = 0 := by simpa using hk
    rfl
  | cons n lengths ih =>
    rw [List.map_cons, List.scanl_cons, ← Int.natCast_add]
    cases k with
    | zero => rfl
    | succ k =>
      rw [List.getElem?_cons_succ, ih (start + n) (by simpa using hk), offset_cons_succ,
        Nat.add_assoc]

/-- The tokens between successive sums are the positions of the blocks. -/
theorem map_range'_scanl (start : Nat) (lengths : List Nat) :
    ((((lengths.map fun n : Nat => (n : Int)).scanl (· + ·) (start : Int)).zip
        ((lengths.map fun n : Nat => (n : Int)).scanl (· + ·) (start : Int)).tail).map
          fun e => List.range' e.1.toNat (e.2 - e.1).toNat) = positions start lengths := by
  induction lengths generalizing start with
  | nil => rfl
  | cons n lengths ih =>
    have hrest := ih (start + n)
    rw [Int.natCast_add] at hrest
    rw [List.map_cons, List.scanl_cons, List.tail_cons, positions, ← hrest]
    obtain ⟨later, hlater⟩ : ∃ later, (lengths.map fun n : Nat => (n : Int)).scanl (· + ·)
        ((start : Int) + n) = ((start : Int) + n) :: later := by
      cases lengths with
      | nil => exact ⟨[], rfl⟩
      | cons n' lengths => exact ⟨_, List.scanl_cons⟩
    rw [hlater, List.zip_cons_cons, List.map_cons, List.tail_cons]
    congr 1
    dsimp only
    rw [show (start : Int) + n - start = n by omega, Int.toNat_natCast, Int.toNat_natCast]

/-- What is known of the query starts: they begin with zero and do not decrease. -/
structure Cumulative (m : CommonAttentionMetadata) : Prop where
  head_eq : m.queryStartLoc.head? = some 0
  lens_nonneg : ∀ n ∈ m.queryLens, 0 ≤ n

/-- The query lengths as natural numbers. -/
def CommonAttentionMetadata.lengths (m : CommonAttentionMetadata) : List Nat :=
  m.queryLens.map Int.toNat

theorem Cumulative.queryLens_eq (h : Cumulative m) :
    m.queryLens = m.lengths.map fun n : Nat => (n : Int) := by
  rw [CommonAttentionMetadata.lengths, List.map_map]
  conv_lhs => rw [← List.map_id m.queryLens]
  exact List.map_congr_left fun n hn => (Int.toNat_of_nonneg (h.lens_nonneg n hn)).symm

theorem Cumulative.queryStartLoc_eq (h : Cumulative m) :
    m.queryStartLoc = (m.lengths.map fun n : Nat => (n : Int)).scanl (· + ·) ((0 : Nat) : Int) := by
  rw [← h.queryLens_eq]
  exact Vllm.Worker.queryStartLoc_eq h.head_eq

/-- The tokens of the requests are the positions of blocks of their lengths. -/
theorem Cumulative.requestTokens_eq (h : Cumulative m) :
    m.requestTokens = positions 0 m.lengths := by
  rw [CommonAttentionMetadata.requestTokens, h.queryStartLoc_eq]
  exact map_range'_scanl 0 m.lengths

/-- There are as many tokens as the lengths sum up to. -/
theorem Cumulative.numTokens_eq (h : Cumulative m) : m.numTokens = m.lengths.sum := by
  rw [CommonAttentionMetadata.numTokens, h.queryStartLoc_eq, List.getLast?_eq_getElem?,
    List.length_scanl, List.length_map, Nat.add_sub_cancel, getElem?_scanl_offset 0 _ le_rfl,
    offset, List.take_length, Nat.zero_add, Option.getD_some, Int.toNat_natCast]

end

/-! ## The sides of the batch -/

section

variable {masks : List Bool} {lengths : List Nat}

/-- The tokens of one side. -/
def sideTokens (masks : List Bool) (lengths : List Nat) : List Nat :=
  (select masks (positions 0 lengths)).flatten

/-- The marks of the tokens by those of their requests. -/
private theorem tokenMasks_eq (masks : List Bool) (lengths : List Nat) (start : Nat) :
    ((masks.zip (lengths.map fun n : Nat => (n : Int))).flatMap fun e =>
        List.replicate e.2.toNat e.1) =
      (masks.zip (positions start lengths)).flatMap fun e => List.replicate e.2.length e.1 := by
  induction masks generalizing lengths start with
  | nil => rfl
  | cons b masks ih =>
    cases lengths with
    | nil => rfl
    | cons n lengths =>
      rw [List.map_cons, positions, List.zip_cons_cons, List.zip_cons_cons, List.flatMap_cons,
        List.flatMap_cons, ih lengths (start + n), List.length_range', Int.toNat_natCast]

/-- The stable sort lists the tokens of the side that is not marked, then those of the other. -/
theorem sortedTokens_eq (h : masks.length = lengths.length) :
    sortedTokens masks (lengths.map fun n : Nat => (n : Int)) =
      sideTokens (complement masks) lengths ++ sideTokens masks lengths := by
  have hlength : ((masks.zip (positions 0 lengths)).flatMap fun e =>
      List.replicate e.2.length e.1).length = lengths.sum := by
    rw [length_flatMap_replicate (h.trans (length_positions 0 lengths).symm), flatten_positions,
      List.length_range']
  unfold sortedTokens sideTokens
  rw [tokenMasks_eq masks lengths 0]
  dsimp only
  rw [hlength, List.range_eq_range', ← flatten_positions, complement_flatMap_replicate,
    select_flatMap_replicate, select_flatMap_replicate]

/-- Where the other side has no tokens, a side has all. -/
theorem sideTokens_of_empty (hlen : masks.length = lengths.length)
    (hempty : ∀ n ∈ select (complement masks) lengths, n = 0) :
    sideTokens (complement masks) lengths = [] ∧
      sideTokens masks lengths = List.range lengths.sum := by
  have hblocks : ∀ block ∈ select (complement masks) (positions 0 lengths), block = [] := by
    intro block hblock
    refine List.length_eq_zero_iff.mp (hempty block.length ?_)
    rw [← map_length_positions 0 lengths, select_map]
    exact List.mem_map_of_mem hblock
  constructor
  · exact List.flatten_eq_nil_iff.mpr hblocks
  · rw [sideTokens, flatten_select_of_empty (by rw [hlen, length_positions]) hblocks,
      flatten_positions, List.range_eq_range']

/-- The blocks of one side have the lengths that are selected. -/
theorem map_length_select (masks : List Bool) (lengths : List Nat) :
    (select masks (positions 0 lengths)).map List.length = select masks lengths := by
  rw [← select_map, map_length_positions]

/-- A side has as many tokens as its requests. -/
theorem length_sideTokens (masks : List Bool) (lengths : List Nat) :
    (sideTokens masks lengths).length = (select masks lengths).sum := by
  rw [sideTokens, List.length_flatten, map_length_select]

/-- The tokens of a side stand in order. -/
theorem sideTokens_pairwise (masks : List Bool) (lengths : List Nat) :
    (sideTokens masks lengths).Pairwise (· < ·) := by
  have hsub : (sideTokens masks lengths).Sublist (List.range lengths.sum) := by
    rw [List.range_eq_range', ← flatten_positions]
    exact (select_sublist masks _).flatten
  exact List.pairwise_lt_range.sublist hsub

/-- Both sides together have every token once. -/
theorem sideTokens_perm (h : masks.length = lengths.length) :
    (sideTokens masks lengths ++ sideTokens (complement masks) lengths).Perm
      (List.range lengths.sum) := by
  have hperm := select_perm (l := positions 0 lengths) (by rw [h, length_positions])
  rw [List.range_eq_range', ← flatten_positions, sideTokens, sideTokens, ← List.flatten_append]
  exact hperm.flatten

/-- No token is on both sides. -/
theorem sideTokens_disjoint (h : masks.length = lengths.length) {t : Nat}
    (ht : t ∈ sideTokens masks lengths) : t ∉ sideTokens (complement masks) lengths := by
  have hnodup := (sideTokens_perm h).nodup_iff.mpr List.nodup_range
  intro ht'
  exact List.disjoint_of_nodup_append hnodup ht ht'

/-- A token of a request that is marked is on the side. -/
theorem mem_sideTokens {r : Nat} {block : List Nat} (hmask : masks[r]? = some true)
    (hblock : (positions 0 lengths)[r]? = some block) {t : Nat} (ht : t ∈ block) :
    t ∈ sideTokens masks lengths := by
  have hselect := getElem?_select masks (positions 0 lengths) hmask hblock
  exact List.mem_flatten.mpr ⟨block, List.mem_of_getElem? hselect, ht⟩

/-- A token is on the side if and only if its request is marked. -/
theorem mem_sideTokens_iff (h : masks.length = lengths.length) {r : Nat} {marked : Bool}
    (hmask : masks[r]? = some marked) {block : List Nat}
    (hblock : (positions 0 lengths)[r]? = some block) {t : Nat} (ht : t ∈ block) :
    t ∈ sideTokens masks lengths ↔ marked = true := by
  cases marked with
  | true => exact iff_of_true (mem_sideTokens hmask hblock ht) rfl
  | false =>
    refine iff_of_false (fun hside => ?_) (by decide)
    have hother : (complement masks)[r]? = some true := by
      rw [List.getElem?_map, hmask]
      rfl
    exact sideTokens_disjoint h hside (mem_sideTokens hother hblock ht)

/-- A list of query starts says which slices of a list of tokens are those of some requests. -/
structure Lists (loc : List Int) (index : List Nat) (requests : List (List Nat)) : Prop where
  cumulative : loc = startLocs (requests.map fun tokens => (tokens.length : Int))
  slice : ∀ j tokens, requests[j]? = some tokens → ∃ lo hi, loc[j]? = some lo ∧
    loc[j + 1]? = some hi ∧ (index.take hi.toNat).drop lo.toNat = tokens

/-- The query starts of a side list the requests of the side. -/
theorem lists_sideTokens (masks : List Bool) (lengths : List Nat) :
    Lists (startLocs (select masks (lengths.map fun n : Nat => (n : Int))))
      (sideTokens masks lengths) (select masks (positions 0 lengths)) where
  cumulative := by
    rw [select_map, ← map_length_select, List.map_map]
    rfl
  slice j tokens hj := by
    have hlt := (List.getElem?_eq_some_iff.mp hj).1
    have hlen : (select masks lengths).length = (select masks (positions 0 lengths)).length := by
      rw [← map_length_select, List.length_map]
    have hloc := fun k hk => getElem?_scanl_offset 0 (select masks lengths) (k := k) hk
    rw [select_map]
    refine ⟨_, _, hloc j (by omega), hloc (j + 1) (by omega), ?_⟩
    rw [Int.toNat_natCast, Int.toNat_natCast, Nat.zero_add, Nat.zero_add, ← map_length_select]
    exact slice_flatten hj

end

/-! ## The builder -/

section

variable {c : GDNConfig} {g : CudagraphConfig} {m : CommonAttentionMetadata} {drafts : List Int}
  {masks : List Bool} {accepted : Option (List Int)} {md : GDNAttentionMetadata}

/-- Beside speculative sequences there are no decodes, only prefills, unless all other sequences
are empty. -/
theorem splitNonSpec_spec (lens : List Int) {numSpecDecodes : Nat} (hpos : 0 < numSpecDecodes) :
    (splitNonSpec lens numSpecDecodes).numDecodes = 0 ∧
      (splitNonSpec lens numSpecDecodes).numPrefillTokens +
        (splitNonSpec lens numSpecDecodes).numDecodeTokens = lens.sum ∧
      ((splitNonSpec lens numSpecDecodes).numPrefills = 0 → ∀ n ∈ lens, n = 0) := by
  unfold splitNonSpec
  dsimp only
  split
  next h =>
    refine ⟨rfl, by dsimp only; omega, fun hzero => ?_⟩
    dsimp only at hzero
    omega
  next h =>
    have hone : lens.count 1 = 0 := by omega
    refine ⟨hone, by dsimp only; omega, fun hzero => ?_⟩
    dsimp only at hzero
    have hall : lens.count 0 = lens.length := le_antisymm List.count_le_length (by omega)
    intro n hn
    exact (List.count_eq_length.mp hall n hn).symm

/-- Requests of no tokens stand behind the others, as far as they are not speculative. -/
def PaddedLast (masks : List Bool) (m : CommonAttentionMetadata) : Prop :=
  ∀ i j : Nat, i < j → masks[i]? = some false → m.queryLens[i]? = some 0 →
    ∀ n, m.queryLens[j]? = some n → n = 0

/-- Where the sequences that are not speculative are empty and no request with tokens stands behind
one of them, the first lengths are those of the speculative ones. -/
theorem take_count_eq_select {lens : List Int} (hlen : masks.length = lens.length)
    (hempty : ∀ n ∈ select (complement masks) lens, n = 0)
    (hpadded : ∀ i j : Nat, i < j → masks[i]? = some false → ∀ n, lens[j]? = some n → n = 0) :
    lens.take (masks.count true) = select masks lens := by
  induction masks generalizing lens with
  | nil => rfl
  | cons b masks ih =>
    cases lens with
    | nil => simp at hlen
    | cons n lens =>
      have hlen' : masks.length = lens.length := by simpa using hlen
      cases b with
      | true =>
        rw [List.count_cons_self, List.take_succ_cons, select,
          ih hlen' hempty fun i j hij hi n hj => hpadded (i + 1) (j + 1) (by omega) hi n hj]
      | false =>
        -- All later requests are empty.
        have hzero : lens = List.replicate lens.length 0 := by
          refine List.eq_replicate_iff.mpr ⟨rfl, fun k hk => ?_⟩
          obtain ⟨j, hj⟩ := List.mem_iff_getElem?.mp hk
          exact hpadded 0 (j + 1) (by omega) rfl k hj
        have hn : n = 0 := hempty n List.mem_cons_self
        have hselect : select masks lens = List.replicate (masks.count true) 0 := by
          refine List.eq_replicate_iff.mpr ⟨length_select hlen', fun k hk => ?_⟩
          have hmem := mem_of_mem_select hk
          rw [hzero] at hmem
          exact List.eq_of_mem_replicate hmem
        have hcount : masks.count true ≤ lens.length + 1 := by
          rw [← hlen']
          exact List.count_le_length.trans (Nat.le_succ _)
        rw [List.count_cons_of_ne (by decide), select, hselect, hzero, hn, ← List.replicate_succ,
          List.take_replicate, Nat.min_eq_left (by simpa using hcount)]

/-- A table of which no row is empty has a first column. -/
theorem firstColumn_ok {table : List (List Int)} (h : ∀ row ∈ table, row ≠ []) :
    ∃ indices, firstColumn table = .ok indices := by
  unfold firstColumn
  induction table with
  | nil => exact ⟨[], rfl⟩
  | cons row table ih =>
    obtain ⟨rest, hrest⟩ := ih fun row hrow => h row (List.mem_cons_of_mem _ hrow)
    cases row with
    | nil => exact absurd rfl (h [] List.mem_cons_self)
    | cons idx row =>
      rw [List.mapM_cons]
      exact ⟨idx :: rest, bind_ok_iff.mpr ⟨idx, rfl, bind_ok_iff.mpr ⟨rest, hrest, rfl⟩⟩⟩

/-- What the layout of a batch with speculative sequences says of the tokens. -/
structure LaysOut (masks : List Bool) (m : CommonAttentionMetadata) (layout : GDNLayout) :
    Prop where
  numDecodes : layout.split.numDecodes = 0
  numSpecDecodes : layout.numSpecDecodes = masks.count true
  tokens : layout.split.numPrefillTokens + layout.split.numDecodeTokens +
    layout.numSpecDecodeTokens = m.numTokens
  specTokenIndx : layout.specTokenIndx = some (sideTokens masks m.lengths)
  nonSpecTokenIndx : layout.nonSpecTokenIndx = some (sideTokens (complement masks) m.lengths)
  specQueryStartLoc : layout.specQueryStartLoc = some (startLocs (select masks m.queryLens))
  nonSpecQueryStartLoc :
    layout.nonSpecQueryStartLoc = some (startLocs (select (complement masks) m.queryLens)) ∨
      layout.nonSpecQueryStartLoc = none ∧ sideTokens (complement masks) m.lengths = []
  states : layout.specStateIndicesTensor.isSome = true
  accepted : layout.numAcceptedTokens.isSome = true

/-- Where only speculative sequences have tokens, they have no more than their drafts allow. -/
def DraftsFit (c : GDNConfig) (masks : List Bool) (m : CommonAttentionMetadata) : Prop :=
  (∀ n ∈ select (complement masks) m.queryLens, n = 0) →
    m.numTokens ≤ masks.count true * (c.numSpec + 1)

/-- The layout of a batch with speculative sequences. -/
theorem specLayout_spec (hcum : Cumulative m) (hlen : masks.length = m.lengths.length)
    (hpos : 0 < masks.count true) (hpadded : PaddedLast masks m) (hfit : DraftsFit c masks m)
    (haccepted : accepted.isSome = true) {table : List (List Int)}
    (htable : ∀ row ∈ table, row ≠ []) :
    ∃ layout, specLayout c m table masks accepted = .ok layout ∧ LaysOut masks m layout := by
  obtain ⟨hdecodes, htokens, hempty⟩ :=
    splitNonSpec_spec (select (complement masks) m.queryLens) hpos
  have hlens := hcum.queryLens_eq
  have hsum : ∀ lengths : List Nat, (lengths.map fun n : Nat => (n : Int)).sum = lengths.sum := by
    intro lengths
    rw [Flattened.sum_map_natCast (fun n : Nat => n), List.map_id']
  have htotal : m.queryLens.sum = m.numTokens := by rw [hlens, hsum, hcum.numTokens_eq]
  unfold specLayout
  dsimp only
  split
  next honly =>
    have hzero := hempty honly.1
    have hzero' : ∀ n ∈ select (complement masks) m.lengths, n = 0 := by
      intro n hn
      have hn' : (n : Int) ∈ select (complement masks) m.queryLens := by
        rw [hlens, select_map]
        exact List.mem_map_of_mem hn
      have := hzero _ hn'
      omega
    obtain ⟨hnone, hall⟩ := sideTokens_of_empty hlen hzero'
    refine ⟨_, bind_ok_iff.mpr ⟨(), ensure_eq_ok.mpr haccepted, rfl⟩, ⟨hdecodes, rfl, ?_, ?_,
      ?_, ?_, .inr ⟨rfl, hnone⟩, rfl, by simpa using haccepted⟩⟩
    · dsimp only
      omega
    · -- The speculative sequences have all tokens.
      have hbound := hfit hzero
      have hsize : (min ((masks.count true * (c.numSpec + 1) : Nat) : Int)
          (m.queryStartLoc.getLast?.getD 0)).toNat = m.numTokens := by
        unfold CommonAttentionMetadata.numTokens at hbound ⊢
        omega
      dsimp only
      rw [hsize, hall, hcum.numTokens_eq]
    · exact congrArg some hnone.symm
    · have hlen' : masks.length = m.queryLens.length := by rw [hlen, hlens, List.length_map]
      have htake := take_count_eq_select hlen' hzero fun i j hij hi n hj => by
        obtain ⟨hlt, -⟩ := List.getElem?_eq_some_iff.mp hi
        have hother : (complement masks)[i]? = some true := by
          rw [List.getElem?_map, hi]
          rfl
        have hlens' := List.getElem?_eq_getElem (show i < m.queryLens.length by omega)
        have hselect := getElem?_select _ _ hother hlens'
        rw [hzero _ (List.mem_of_getElem? hselect)] at hlens'
        exact hpadded i j hij hi hlens' n hj
      dsimp only
      rw [queryStartLoc_eq hcum.head_eq, ← htake]
      exact congrArg some (List.take_scanl 0 _ _)
  next hmixed =>
    have hrows : ∀ row ∈ select (complement masks) table, row ≠ [] :=
      fun row hrow => htable row (mem_of_mem_select hrow)
    obtain ⟨indices, hindices⟩ := firstColumn_ok hrows
    have hindex : sortedTokens masks m.queryLens =
        sideTokens (complement masks) m.lengths ++ sideTokens masks m.lengths := by
      rw [hlens, sortedTokens_eq hlen]
    have hnum : ((splitNonSpec (select (complement masks) m.queryLens)
        (masks.count true)).numPrefillTokens + (splitNonSpec (select (complement masks) m.queryLens)
        (masks.count true)).numDecodeTokens).toNat =
        (sideTokens (complement masks) m.lengths).length := by
      rw [htokens, hlens, select_map, hsum, Int.toNat_natCast, length_sideTokens]
    refine ⟨_, bind_ok_iff.mpr ⟨indices, hindices, bind_ok_iff.mpr ⟨(),
      ensure_eq_ok.mpr haccepted, rfl⟩⟩, ⟨hdecodes, rfl, ?_, ?_, ?_, rfl, .inl rfl,
      rfl, by simpa using haccepted⟩⟩
    · dsimp only
      omega
    · dsimp only
      rw [hindex, hnum, List.drop_left]
    · dsimp only
      rw [hindex, hnum, List.take_left]

/-- The first entries of a buffer are those that are copied, and the others its filling. -/
theorem padded_eq {α : Type} {entries : List α} {count size : Nat} (hlen : entries.length = count)
    (hsize : count ≤ size) (pad : α) :
    padded entries count size pad = entries ++ List.replicate (size - count) pad := by
  rw [padded, List.take_of_length_le hlen.le, List.take_append, hlen,
    List.take_of_length_le (by omega), List.take_replicate, Nat.min_eq_left (by omega)]

/-- The rows of some tokens are written, and no others. -/
theorem indexCopy_spec {β : Type} (row : Nat → β) (index : List Nat) (out : List (Option β))
    (hindex : ∀ t ∈ index, t < out.length) :
    ∃ out', indexCopy out index (index.map row) = .ok out' ∧ out'.length = out.length ∧
      ∀ t, out'[t]? = if t ∈ index then some (some (row t)) else out[t]? := by
  induction index generalizing out with
  | nil => exact ⟨out, by unfold indexCopy; rfl, rfl, fun t => by simp⟩
  | cons i index ih =>
    have hi := hindex i List.mem_cons_self
    obtain ⟨out', hout', hlen, hget⟩ := ih (out.set i (some (row i))) fun t ht => by
      rw [List.length_set]
      exact hindex t (List.mem_cons_of_mem _ ht)
    refine ⟨out', ?_, by rw [hlen, List.length_set], fun t => ?_⟩
    · rw [List.map_cons, indexCopy, if_pos hi, hout']
    · rw [hget]
      by_cases ht : t ∈ index
      · rw [if_pos ht, if_pos (List.mem_cons_of_mem _ ht)]
      · rw [if_neg ht, List.getElem?_set]
        by_cases hit : i = t
        · subst hit
          rw [if_pos rfl, if_pos hi, if_pos List.mem_cons_self]
        · rw [if_neg hit, if_neg (by simpa [ht] using Ne.symm hit)]

/-- The rows of some tokens are taken. -/
theorem indexSelect_spec {α : Type} (row : Nat → α) (count : Nat) (index : List Nat)
    (hindex : ∀ t ∈ index, t < count) :
    indexSelect ((List.range count).map row) index = .ok (index.map row) := by
  unfold indexSelect
  induction index with
  | nil => rfl
  | cons i index ih =>
    have hi : ((List.range count).map row)[i]? = some (row i) := by
      rw [List.getElem?_map, List.getElem?_range (hindex i List.mem_cons_self)]
      rfl
    rw [List.mapM_cons, hi, ih fun t ht => hindex t (List.mem_cons_of_mem _ ht)]
    rfl

/-- The metadata splits the tokens of a batch by the draft counts of their requests. -/
structure SplitsTokens (m : CommonAttentionMetadata) (drafts : List Int) (masks : List Bool)
    (md : GDNAttentionMetadata) (spec nonSpec : List Nat) : Prop where
  specTokenIndx : md.specTokenIndx = some spec
  nonSpecTokenIndx : md.nonSpecTokenIndx = some nonSpec
  spec_increasing : spec.Pairwise (· < ·)
  nonSpec_increasing : nonSpec.Pairwise (· < ·)
  disjoint : ∀ t ∈ spec, t ∉ nonSpec
  cover : ∀ t, t ∈ spec ∨ t ∈ nonSpec ↔ t < m.numTokens
  mem_spec_iff : ∀ (r : Nat) (lo hi draft : Int), m.queryStartLoc[r]? = some lo →
    m.queryStartLoc[r + 1]? = some hi → drafts[r]? = some draft →
      ∀ t : Nat, lo ≤ t → t < hi → (t ∈ spec ↔ 0 ≤ draft)
  /-- With full CUDA graphs the last query start is repeated. -/
  specQueryStartLoc : ∃ loc count, Lists loc spec (select masks m.requestTokens) ∧
    md.specQueryStartLoc = some (loc ++ List.replicate count (loc.getLast?.getD 0))
  /-- There are none where only speculative sequences have tokens. -/
  nonSpecQueryStartLoc :
    (∃ loc, Lists loc nonSpec (select (complement masks) m.requestTokens) ∧
      md.nonSpecQueryStartLoc = some loc) ∨ md.nonSpecQueryStartLoc = none ∧ nonSpec = []
  tokens : md.numPrefillTokens + md.numDecodeTokens + md.numSpecDecodeTokens = m.numTokens
  exclusive : ¬ (0 < md.numDecodes ∧ 0 < md.numSpecDecodes)
  writtenOnce : ∀ t < m.numTokens, (spec ++ nonSpec).count t = 1
  merged : ∀ {β : Type} (row : Nat → β), ∃ rows,
    mergeOutputs md (some (spec.map row)) (some (nonSpec.map row)) = .ok rows ∧
      ∀ t < m.numTokens, rows[t]? = some (some (row t))
  /-- A layer that works on each row is applied to the row of each token. -/
  forwarded : ∀ {α β : Type} (row : Nat → α) (kernel : α → β) (size : Nat),
    md.numActualTokens ≤ size → ∃ specRows nonSpecRows rows,
      selectTokens md ((List.range size).map row) = .ok (specRows, nonSpecRows) ∧
      mergeOutputs md (specRows.map (List.map kernel)) (nonSpecRows.map (List.map kernel)) =
        .ok rows ∧
      ∀ t < m.numTokens, rows[t]? = some (some (kernel (row t)))

/-- What the metadata says of the tokens, where the last query start is repeated some times. -/
structure DescribesSides (masks : List Bool) (m : CommonAttentionMetadata)
    (md : GDNAttentionMetadata) (count : Nat) : Prop where
  numActualTokens : md.numActualTokens = m.numActualTokens
  masks_isSome : md.specSequenceMasks.isSome = true
  numDecodes : md.numDecodes = 0
  numSpecDecodes : md.numSpecDecodes = masks.count true
  tokens : md.numPrefillTokens + md.numDecodeTokens + md.numSpecDecodeTokens = m.numTokens
  specTokenIndx : md.specTokenIndx = some (sideTokens masks m.lengths)
  nonSpecTokenIndx : md.nonSpecTokenIndx = some (sideTokens (complement masks) m.lengths)
  specQueryStartLoc : md.specQueryStartLoc = some (startLocs (select masks m.queryLens) ++
    List.replicate count ((startLocs (select masks m.queryLens)).getLast?.getD 0))
  nonSpecQueryStartLoc :
    md.nonSpecQueryStartLoc = some (startLocs (select (complement masks) m.queryLens)) ∨
      md.nonSpecQueryStartLoc = none ∧ sideTokens (complement masks) m.lengths = []

/-- The rows of the two sides are merged into one for each token. -/
theorem DescribesSides.merged {β : Type} {count : Nat} (h : DescribesSides masks m md count)
    (hmem : ∀ t, t ∈ sideTokens masks m.lengths ∨ t ∈ sideTokens (complement masks) m.lengths ↔
      t < m.numTokens) (hactual : m.numTokens ≤ m.numActualTokens) (row : Nat → β) :
    ∃ rows, mergeOutputs md (some ((sideTokens masks m.lengths).map row))
      (some ((sideTokens (complement masks) m.lengths).map row)) = .ok rows ∧
      ∀ t < m.numTokens, rows[t]? = some (some (row t)) := by
  obtain ⟨masks', hmasks'⟩ := Option.isSome_iff_exists.mp h.masks_isSome
  have hfits : ∀ t, t ∈ sideTokens masks m.lengths ∨
      t ∈ sideTokens (complement masks) m.lengths → t < md.numActualTokens :=
    fun t ht => by
      rw [h.numActualTokens]
      exact ((hmem t).mp ht).trans_le hactual
  obtain ⟨rows, hrows, hrowsLen, hget⟩ := indexCopy_spec row (sideTokens masks m.lengths)
    (List.replicate md.numActualTokens none) fun t ht => by
      rw [List.length_replicate]
      exact hfits t (.inl ht)
  obtain ⟨rows', hrows', -, hget'⟩ := indexCopy_spec row (sideTokens (complement masks) m.lengths)
    rows fun t ht => by
      rw [hrowsLen, List.length_replicate]
      exact hfits t (.inr ht)
  refine ⟨rows', ?_, fun t ht => ?_⟩
  · unfold mergeOutputs
    rw [hmasks', h.specTokenIndx, h.nonSpecTokenIndx]
    exact bind_ok_iff.mpr ⟨rows, hrows, hrows'⟩
  · rw [hget', hget]
    split
    · rfl
    next hother => rw [if_pos (((hmem t).mpr ht).resolve_right hother)]

/-- A layer that works on each row is applied to the row of each token. -/
theorem DescribesSides.forwarded {α β : Type} {count size : Nat}
    (h : DescribesSides masks m md count)
    (hmem : ∀ t, t ∈ sideTokens masks m.lengths ∨ t ∈ sideTokens (complement masks) m.lengths ↔
      t < m.numTokens) (hactual : m.numTokens ≤ m.numActualTokens) (row : Nat → α)
    (kernel : α → β) (hsize : md.numActualTokens ≤ size) :
    ∃ specRows nonSpecRows rows,
      selectTokens md ((List.range size).map row) = .ok (specRows, nonSpecRows) ∧
      mergeOutputs md (specRows.map (List.map kernel)) (nonSpecRows.map (List.map kernel)) =
        .ok rows ∧
      ∀ t < m.numTokens, rows[t]? = some (some (kernel (row t))) := by
  obtain ⟨masks', hmasks'⟩ := Option.isSome_iff_exists.mp h.masks_isSome
  have hrange : ((List.range size).map row).take md.numActualTokens =
      (List.range md.numActualTokens).map row := by
    rw [← List.map_take, List.take_range, Nat.min_eq_left hsize]
  unfold selectTokens
  dsimp only
  rw [hmasks', hrange]
  by_cases hp : md.numPrefills = 0
  · -- All rows are taken as they are.
    refine ⟨_, _, (((List.range md.numActualTokens).map row).map kernel).map some,
      if_pos ⟨hp, h.numDecodes⟩, ?_, fun t ht => ?_⟩
    · unfold mergeOutputs
      rw [hmasks']
      rfl
    · have ht' : t < md.numActualTokens := by
        rw [h.numActualTokens]
        exact ht.trans_le hactual
      rw [List.getElem?_map, List.getElem?_map, List.getElem?_map, List.getElem?_range ht']
      rfl
  · have hfits : ∀ t, t ∈ sideTokens masks m.lengths ∨
        t ∈ sideTokens (complement masks) m.lengths → t < md.numActualTokens := fun t ht => by
      rw [h.numActualTokens]
      exact ((hmem t).mp ht).trans_le hactual
    have hspec := indexSelect_spec row md.numActualTokens (sideTokens masks m.lengths)
      fun t ht => hfits t (.inl ht)
    have hnonSpec := indexSelect_spec row md.numActualTokens
      (sideTokens (complement masks) m.lengths) fun t ht => hfits t (.inr ht)
    obtain ⟨rows, hrows, hget⟩ := h.merged hmem hactual fun t => kernel (row t)
    refine ⟨some ((sideTokens masks m.lengths).map row),
      some ((sideTokens (complement masks) m.lengths).map row), rows, ?_, ?_, hget⟩
    · rw [if_neg fun hboth => hp hboth.1, h.specTokenIndx, h.nonSpecTokenIndx]
      exact bind_ok_iff.mpr ⟨_, hspec, bind_ok_iff.mpr ⟨_, hnonSpec, rfl⟩⟩
    · rw [Option.map_some, Option.map_some, List.map_map, List.map_map]
      exact hrows

/-- Metadata that describes the sides of a batch splits its tokens. -/
theorem DescribesSides.splitsTokens {count : Nat} (h : DescribesSides masks m md count)
    (hcum : Cumulative m) (hmasks : masks = drafts.map fun n => decide (0 ≤ n))
    (hlen : masks.length = m.lengths.length) (hactual : m.numTokens ≤ m.numActualTokens) :
    SplitsTokens m drafts masks md (sideTokens masks m.lengths)
      (sideTokens (complement masks) m.lengths) := by
  have hperm := sideTokens_perm hlen
  rw [← hcum.numTokens_eq] at hperm
  have hmem : ∀ t, t ∈ sideTokens masks m.lengths ∨ t ∈ sideTokens (complement masks) m.lengths ↔
      t < m.numTokens := by
    intro t
    rw [← List.mem_append, hperm.mem_iff, List.mem_range]
  have hdecodes := h.numDecodes
  refine ⟨h.specTokenIndx, h.nonSpecTokenIndx, sideTokens_pairwise _ _, sideTokens_pairwise _ _,
    fun t ht => sideTokens_disjoint hlen ht, hmem, ?_, ?_, ?_, h.tokens, by omega, ?_,
    fun row => h.merged hmem hactual row, fun row kernel size hsize => ?_⟩
  · intro r lo hi draft hlo hhi hdraft t hlot hthi
    have hmask : masks[r]? = some (decide (0 ≤ draft)) := by
      rw [hmasks, List.getElem?_map, hdraft]
      rfl
    have hr : r < m.lengths.length := by
      rw [← hlen]
      exact (List.getElem?_eq_some_iff.mp hmask).1
    have hn := List.getElem?_eq_getElem hr
    rw [hcum.queryStartLoc_eq, getElem?_scanl_offset 0 _ hr.le] at hlo
    rw [hcum.queryStartLoc_eq, getElem?_scanl_offset 0 _ hr, offset_succ hn] at hhi
    obtain rfl := Option.some.inj hlo
    obtain rfl := Option.some.inj hhi
    have ht : t ∈ List.range' (0 + offset m.lengths r) m.lengths[r] := by
      rw [List.mem_range'_1]
      omega
    rw [mem_sideTokens_iff hlen hmask (getElem?_positions 0 hn) ht, decide_eq_true_eq]
  · refine ⟨_, count, ?_, h.specQueryStartLoc⟩
    rw [hcum.requestTokens_eq, hcum.queryLens_eq]
    exact lists_sideTokens masks m.lengths
  · rcases h.nonSpecQueryStartLoc with hnonLoc | hnonLoc
    · refine .inl ⟨_, ?_, hnonLoc⟩
      rw [hcum.requestTokens_eq, hcum.queryLens_eq]
      exact lists_sideTokens (complement masks) m.lengths
    · exact .inr hnonLoc
  · intro t ht
    rw [hperm.count_eq]
    exact List.count_eq_one_of_mem List.nodup_range (List.mem_range.mpr ht)
  · exact h.forwarded hmem hactual row kernel hsize

/-- The masks are those of the draft counts, and some are set. -/
theorem specSequenceMasks_eq (h : specSequenceMasks c (some drafts) = some masks) :
    masks = drafts.map (fun n => decide (0 ≤ n)) ∧ 0 < masks.count true := by
  unfold specSequenceMasks at h
  dsimp only at h
  split at h
  · cases h
  · split at h
    · cases h
    next hcount =>
      obtain rfl := Option.some.inj h
      exact ⟨rfl, Nat.pos_of_ne_zero hcount⟩

/-- The builder describes the sides of the batch. -/
theorem build_describes (hcum : Cumulative m)
    (hmasks : specSequenceMasks c (some drafts) = some masks)
    (hlen : masks.length = m.lengths.length) (hpos : 0 < masks.count true)
    (hpadded : PaddedLast masks m) (hfit : DraftsFit c masks m)
    (haccepted : accepted.isSome = true)
    (htable : ∃ table, mambaGetBlockTableTensor c m = .ok table ∧ ∀ row ∈ table, row ≠ []) :
    ∃ md, build c m accepted (some drafts) = .ok md ∧ DescribesSides masks m md 0 ∧
      md.specStateIndicesTensor.isSome = true ∧ md.numAcceptedTokens.isSome = true := by
  obtain ⟨table, htable, hrows⟩ := htable
  obtain ⟨layout, hlayout, h⟩ := specLayout_spec hcum hlen hpos hpadded hfit haccepted hrows
  have hlayout' : layoutOf c m table accepted (specSequenceMasks c (some drafts)) = .ok layout := by
    rw [hmasks]
    exact hlayout
  have hexclusive : ¬ (0 < layout.split.numDecodes ∧ 0 < layout.numSpecDecodes) := by
    have := h.numDecodes
    omega
  refine ⟨_, bind_ok_iff.mpr ⟨table, htable, bind_ok_iff.mpr ⟨layout, hlayout',
    bind_ok_iff.mpr ⟨(), ensure_eq_ok.mpr hexclusive, rfl⟩⟩⟩, ⟨rfl, ?_, h.numDecodes,
    h.numSpecDecodes, h.tokens, h.specTokenIndx, h.nonSpecTokenIndx, ?_, h.nonSpecQueryStartLoc⟩,
    h.states, h.accepted⟩
  · dsimp only
    rw [hmasks]
    rfl
  · rw [List.replicate_zero, List.append_nil]
    exact h.specQueryStartLoc

/-- The copies for speculative sequences only repeat the last query start. -/
theorem copySpecBuffers_describes (h : DescribesSides masks m md 0)
    (hlen : masks.length = m.lengths.length) (hcum : Cumulative m)
    (hgraph : g.useFullCudaGraph = true → masks.count true ≤ m.numActualTokens)
    (hstates : md.specStateIndicesTensor.isSome = true)
    (haccepted : md.numAcceptedTokens.isSome = true) :
    ∃ md' count, copySpecBuffers c g md = .ok md' ∧ DescribesSides masks m md' count := by
  unfold copySpecBuffers
  split
  next hcopies =>
    obtain ⟨masks', hmasks'⟩ := Option.isSome_iff_exists.mp h.masks_isSome
    obtain ⟨states, hstates'⟩ := Option.isSome_iff_exists.mp hstates
    obtain ⟨accepted, haccepted'⟩ := Option.isSome_iff_exists.mp haccepted
    have hloc := h.specQueryStartLoc
    rw [List.replicate_zero, List.append_nil] at hloc
    rw [hmasks', hstates', haccepted', hloc]
    have hcount : (startLocs (select masks m.queryLens)).length = md.numSpecDecodes + 1 := by
      rw [startLocs, List.length_scanl, length_select (by rw [hlen, hcum.queryLens_eq,
        List.length_map]), h.numSpecDecodes]
    have hactual := hgraph hcopies.1
    rw [← h.numSpecDecodes, ← h.numActualTokens] at hactual
    have hmax := hcopies.2.2.2.1
    refine ⟨_, _, rfl, ⟨h.numActualTokens, rfl, h.numDecodes, h.numSpecDecodes, h.tokens,
      h.specTokenIndx, h.nonSpecTokenIndx, congrArg some (padded_eq hcount (by omega) _),
      h.nonSpecQueryStartLoc⟩⟩
  next => exact ⟨md, 0, rfl, h⟩

/-- With speculative sequences in the batch, the metadata splits its tokens exactly, where the
speculative sequences have no more tokens than their drafts allow when only they have any. -/
theorem buildForGraphs_splitsTokens (hm : WellShaped m (some drafts)) (hcum : Cumulative m)
    (hmasks : specSequenceMasks c (some drafts) = some masks) (hpadded : PaddedLast masks m)
    (hfit : DraftsFit c masks m) (hactual : m.numTokens ≤ m.numActualTokens)
    (hgraph : g.useFullCudaGraph = true → masks.count true ≤ m.numActualTokens)
    (haccepted : accepted.isSome = true)
    (htable : ∃ table, mambaGetBlockTableTensor c m = .ok table ∧ ∀ row ∈ table, row ≠ []) :
    ∃ md spec nonSpec, buildForGraphs c g m accepted (some drafts) = .ok md ∧
      SplitsTokens m drafts masks md spec nonSpec := by
  obtain ⟨hdrafts, hpos⟩ := specSequenceMasks_eq hmasks
  have hlen : masks.length = m.lengths.length := by
    rw [hdrafts, List.length_map, hm.draftTokens drafts rfl, CommonAttentionMetadata.lengths,
      List.length_map, hm.length_queryLens]
  obtain ⟨md, hbuild, h, hstates, haccepted'⟩ :=
    build_describes hcum hmasks hlen hpos hpadded hfit haccepted htable
  obtain ⟨md', count, hcopy, h'⟩ := copySpecBuffers_describes h hlen hcum hgraph hstates haccepted'
  have hdecode : copyDecodeBuffers g md' = .ok md' := by
    have hspec := h'.numSpecDecodes
    exact if_neg fun hcopies => by omega
  exact ⟨md', _, _, bind_ok_iff.mpr ⟨md, hbuild, bind_ok_iff.mpr ⟨md', hcopy, hdecode⟩⟩,
    h'.splitsTokens hcum hdrafts hlen hactual⟩

end

/-- A decode, a speculative sequence with one draft and a prefill. -/
theorem mixedBatch_splitsTokens : ∃ md spec nonSpec,
    buildForGraphs ⟨1, 16, 0, false⟩ ⟨false, 8⟩ mixedBatch (some [1, 1, 1]) (some [-1, 1, -1]) =
      .ok md ∧ SplitsTokens mixedBatch [-1, 1, -1] [false, true, false] md spec nonSpec := by
  have hm : WellShaped mixedBatch (some [-1, 1, -1]) := by
    constructor <;> simp [mixedBatch]
  have hcum : Cumulative mixedBatch := ⟨by decide, by decide⟩
  have hpadded : PaddedLast [false, true, false] mixedBatch := by
    intro i j _ _ hi n hj
    have hmem := List.mem_of_getElem? hi
    exact absurd hmem (by decide)
  exact buildForGraphs_splitsTokens hm hcum rfl hpadded (fun hzero => absurd hzero (by decide))
    (by decide) (by decide) rfl ⟨_, rfl, by decide⟩

/-- One speculative sequence with its drafts. -/
def specBatch (tokens : Nat) : CommonAttentionMetadata where
  queryStartLoc := [0, tokens]
  seqLens := [9]
  numReqs := 1
  numActualTokens := tokens
  maxQueryLen := tokens
  blockTableTensor := [[2, 5]]
  numComputedTokensCpu := none

/-- Two speculative sequences, of which the second has no token. -/
def emptySpecBatch : CommonAttentionMetadata where
  queryStartLoc := [0, 1, 1]
  seqLens := [9, 9]
  numReqs := 2
  numActualTokens := 1
  maxQueryLen := 1
  blockTableTensor := [[2, 5], [3, 6]]
  numComputedTokensCpu := none

/-- Where only speculative sequences have tokens, there are no query starts of the others, tokens
beyond the drafts are in neither list, and full CUDA graphs can cut off query starts. -/
theorem specBatch_not_splitsTokens :
    (¬ ∃ md spec nonSpec loc, buildForGraphs ⟨1, 16, 0, false⟩ ⟨false, 8⟩ (specBatch 2)
        (some [1]) (some [1]) = .ok md ∧
      SplitsTokens (specBatch 2) [1] [true] md spec nonSpec ∧
      md.nonSpecQueryStartLoc = some loc) ∧
    (¬ ∃ md spec nonSpec, buildForGraphs ⟨1, 16, 0, false⟩ ⟨false, 8⟩ (specBatch 3)
        (some [1]) (some [1]) = .ok md ∧
      SplitsTokens (specBatch 3) [1] [true] md spec nonSpec) ∧
    ¬ ∃ md spec nonSpec, buildForGraphs ⟨1, 16, 0, false⟩ ⟨true, 8⟩ emptySpecBatch
        (some [1, 1]) (some [1, 0]) = .ok md ∧
      SplitsTokens emptySpecBatch [1, 0] [true, true] md spec nonSpec := by
  refine ⟨?_, ?_, ?_⟩
  · rintro ⟨md, spec, nonSpec, loc, hbuild, -, hloc⟩
    cases hbuild
    cases hloc
  · rintro ⟨md, spec, nonSpec, hbuild, h⟩
    cases hbuild
    obtain rfl := Option.some.inj h.specTokenIndx
    obtain rfl := Option.some.inj h.nonSpecTokenIndx
    exact absurd ((h.cover 2).mpr (by decide)) (by decide)
  · rintro ⟨md, spec, nonSpec, hbuild, h⟩
    cases hbuild
    obtain ⟨loc, count, hlists, hloc⟩ := h.specQueryStartLoc
    have hthree : loc.length = 3 := by
      rw [hlists.cumulative]
      rfl
    have hlen : 2 = (loc ++ List.replicate count (loc.getLast?.getD 0)).length :=
      congrArg List.length (Option.some.inj hloc)
    rw [List.length_append] at hlen
    omega

end Vllm.Worker
