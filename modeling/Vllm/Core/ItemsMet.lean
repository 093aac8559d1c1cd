import Mathlib.Data.List.Dedup
import Mathlib.Data.List.Sort
import Vllm.Core.HashResume

/-!
# The items that a block shows

Which multimodal items the hasher puts into a block is told by the offsets alone: those that
reach the block, from the first item that has not ended before the block up to the first one
that ends behind it, and none once the last item has ended. An item is met in a row of blocks,
and later blocks meet later items. It is hidden where another item that ends later stands
before it, or the last item ends earlier.
-/

namespace Vllm

variable {H : Type}

/-- Item `k` is met in `[start, stop)`: it reaches the block, no earlier item ends behind the
block, not all items up to it end before the block, and the last item does not either. -/
def MetIn (fs : List MultiModalFeatureSpec) (start stop k : Nat) : Prop :=
  (∃ f ∈ fs[k]?, f.mmPosition.offset < stop ∧ start ≤ f.stop) ∧
    (∀ g ∈ fs.take k, ¬ pending stop g) ∧ (∃ g ∈ fs.take (k + 1), pending start g) ∧
    ∀ last ∈ fs.getLast?, start ≤ last.stop

instance decidableMetIn (fs : List MultiModalFeatureSpec) (start stop k : Nat) :
    Decidable (MetIn fs start stop k) :=
  inferInstanceAs (Decidable (_ ∧ _ ∧ _ ∧ _))

/-- The identifier of item `k`. -/
def identifierAt (r : Request H) (k : Nat) : String :=
  (r.mmFeatures[k]?.map (·.identifier)).getD ""

/-- The items that block `j` meets. -/
def metItems (blockSize : Nat) (r : Request H) (j : Nat) : List Nat :=
  (List.range r.mmFeatures.length).filter fun k =>
    MetIn r.mmFeatures (j * blockSize) (j * blockSize + blockSize) k

/-- The identifiers of the items that block `j` meets. -/
def metIds (blockSize : Nat) (r : Request H) (j : Nat) : List String :=
  (metItems blockSize r j).map (identifierAt r)

/-- The items that the blocks up to `i` meet, block by block. -/
def metUpTo (blockSize : Nat) (r : Request H) (i : Nat) : List Nat :=
  (List.range (i + 1)).flatMap (metItems blockSize r)

/-- Item `k` has tokens among the first `n`. -/
def HasTokens (r : Request H) (n k : Nat) : Prop :=
  ∃ f ∈ r.mmFeatures[k]?, f.mmPosition.offset < n ∧ 0 < f.mmPosition.length

/-- The blocks up to `i` meet exactly the items that have tokens in them. -/
def ShowsItems (blockSize : Nat) (r : Request H) (i : Nat) : Prop :=
  ∀ k, k ∈ metUpTo blockSize r i ↔ HasTokens r ((i + 1) * blockSize) k

/-! ## The scan by offsets -/

/-- A selection by position from a list with one more entry in front. -/
private theorem filter_range_succ {β : Type} (n : Nat) (P : Nat → Prop) [DecidablePred P]
    (g : Nat → β) : ((List.range (n + 1)).filter fun k => P k).map g =
      (if P 0 then [g 0] else []) ++
        ((List.range n).filter fun k => P (k + 1)).map fun k => g (k + 1) := by
  rw [List.range_succ_eq_map, List.filter_cons, List.filter_map]
  by_cases h : P 0 <;> simp [h, Function.comp_def]

/-- The scan from the first item on, told by offsets. -/
private theorem genMmLoop_eq {start stop : Nat} (hle : start ≤ stop)
    (fs : List MultiModalFeatureSpec) (c : Nat) : (genMmLoop start stop fs c).1 =
      ((List.range fs.length).filter fun k =>
        (∃ f ∈ fs[k]?, f.mmPosition.offset < stop ∧ start ≤ f.stop) ∧
          ∀ g ∈ fs.take k, ¬ pending stop g).map
        fun k => .str ((fs[k]?.map (·.identifier)).getD "") := by
  induction fs generalizing c with
  | nil => rfl
  | cons f fs ih =>
    have hp : pending stop f = true ↔ stop ≤ f.mmPosition.offset ∨ stop < f.stop := by
      simp [pending]
    rw [List.length_cons, filter_range_succ]
    simp only [List.getElem?_cons_zero, List.getElem?_cons_succ, List.take_zero,
      List.take_succ_cons, List.mem_cons, forall_eq_or_imp, Option.mem_def, Option.some.injEq,
      exists_eq_left', List.not_mem_nil, false_imp_iff, implies_true, and_true, Option.map_some,
      Option.getD_some]
    by_cases hpending : pending stop f = true
    · -- The scan ends with an item that reaches beyond the block, or begins behind it.
      simp only [hpending, not_true_eq_false, false_and, and_false, decide_false,
        List.filter_false, List.map_nil, List.append_nil, genMmLoop]
      by_cases hoff : f.mmPosition.offset < stop
      · have hstop : stop < f.stop := (hp.mp hpending).resolve_left (by omega)
        simp [hoff, show ¬ f.stop < start by omega, show ¬ f.stop ≤ stop by omega,
          show start ≤ f.stop by omega]
      · simp [hoff]
    · have hoff : f.mmPosition.offset < stop := by
        by_contra hoff
        exact hpending (hp.mpr (Or.inl (by omega)))
      have hstop : f.stop ≤ stop := by
        by_contra hstop
        exact hpending (hp.mpr (Or.inr (by omega)))
      simp only [hpending, Bool.false_eq_true, not_false_eq_true, true_and, genMmLoop, hoff,
        hstop, if_true]
      by_cases hstart : f.stop < start
      · rw [if_pos hstart, if_neg (by omega), ih, List.nil_append]
        rfl
      · rw [if_neg hstart, if_pos (by omega), ih, List.singleton_append]
        rfl

/-- No item before the first pending one is pending. -/
private theorem not_pending_of_mem_take {fs : List MultiModalFeatureSpec} {start : Nat}
    {g : MultiModalFeatureSpec} (hg : g ∈ fs.take (fs.findIdx (pending start))) :
    ¬ pending start g := by
  obtain ⟨k, hk, rfl⟩ := List.mem_iff_getElem.mp hg
  rw [List.length_take] at hk
  have hnot : pending start fs[k] = false := List.not_of_lt_findIdx (by omega)
  rw [List.getElem_take, hnot]
  exact Bool.false_ne_true

/-- From the first pending item on, an item is met where it reaches the block and no earlier
one ends behind it. -/
private theorem metIn_findIdx_add_iff {fs : List MultiModalFeatureSpec} {start stop k : Nat}
    (hle : start ≤ stop) (hlast : ∀ last ∈ fs.getLast?, start ≤ last.stop)
    (hk : fs.findIdx (pending start) + k < fs.length) :
    MetIn fs start stop (fs.findIdx (pending start) + k) ↔
      (∃ f ∈ (fs.drop (fs.findIdx (pending start)))[k]?,
        f.mmPosition.offset < stop ∧ start ≤ f.stop) ∧
      ∀ g ∈ (fs.drop (fs.findIdx (pending start))).take k, ¬ pending stop g := by
  have hlt : fs.findIdx (pending start) < fs.length := by omega
  have hopen : ∃ g ∈ fs.take (fs.findIdx (pending start) + k + 1), pending start g :=
    ⟨fs[fs.findIdx (pending start)],
      List.mem_take_iff_getElem.mpr ⟨_, lt_min (by omega) hlt, rfl⟩, List.findIdx_getElem⟩
  have hdone : ∀ g ∈ fs.take (fs.findIdx (pending start)), ¬ pending stop g :=
    fun g hg hp => not_pending_of_mem_take hg (pending_mono hle hp)
  rw [MetIn, List.getElem?_drop, List.take_add, List.forall_mem_append, and_iff_left hlast,
    and_iff_left hopen, and_iff_right hdone]

/-- What the hasher puts into a block from scratch are the items met there. -/
theorem mmKeys_eq_metIds (blockSize : Nat) (r : Request H) (j : Nat) :
    mmKeys blockSize r j = (metIds blockSize r j).map .str := by
  rw [metIds, metItems, List.map_map]
  cases hl : r.mmFeatures.getLast? with
  | none =>
    have hnil := List.getLast?_eq_none_iff.mp hl
    simp [mmKeys, genMmExtraHashKeys, hnil]
  | some last =>
    by_cases hpast : last.stop < j * blockSize
    · have hnone : ∀ k, ¬ MetIn r.mmFeatures (j * blockSize) (j * blockSize + blockSize) k :=
        fun k hk => absurd (hk.2.2.2 last hl) (by omega)
      simp [mmKeys, genMmExtraHashKeys, hl, hpast, hnone]
    · -- The scan stands at the first item pending at the start of the block.
      generalize hfirst : r.mmFeatures.findIdx (pending (j * blockSize)) = first
      have hnn : ¬ ((first : Nat) : Int) < 0 := by omega
      have hscan : mmKeys blockSize r j = (genMmLoop (j * blockSize) (j * blockSize + blockSize)
          (r.mmFeatures.drop first) first).1 := by
        simp only [mmKeys, mmIdx_eq_findIdx hl (by omega : j * blockSize ≤ last.stop),
          genMmExtraHashKeys, hl, hpast, ite_false, hfirst, hnn, Int.toNat_natCast]
      have hlast : ∀ last ∈ r.mmFeatures.getLast?, j * blockSize ≤ last.stop := by
        rintro last' hl'
        obtain rfl := Option.some.inj (hl.symm.trans hl')
        omega
      obtain ⟨rest, hrest⟩ : ∃ rest, r.mmFeatures.length = first + rest :=
        Nat.exists_eq_add_of_le (hfirst ▸ List.findIdx_le_length)
      have hskipped : (List.range first).filter (fun k =>
          MetIn r.mmFeatures (j * blockSize) (j * blockSize + blockSize) k) = [] := by
        rw [List.filter_eq_nil_iff]
        intro k hk hmet
        obtain ⟨g, hg, hpending⟩ := (of_decide_eq_true hmet).2.2.1
        refine not_pending_of_mem_take (List.take_subset_take_left _ ?_ hg) hpending
        exact hfirst ▸ List.mem_range.mp hk
      rw [hscan, genMmLoop_eq (by omega), List.length_drop, hrest, Nat.add_sub_cancel_left,
        List.range_add, List.filter_append, hskipped, List.nil_append, List.filter_map,
        List.map_map]
      have hmet : (List.range rest).filter ((fun k => decide (MetIn r.mmFeatures (j * blockSize)
          (j * blockSize + blockSize) k)) ∘ (first + ·)) = (List.range rest).filter fun k =>
            decide ((∃ f ∈ (r.mmFeatures.drop first)[k]?,
              f.mmPosition.offset < j * blockSize + blockSize ∧ j * blockSize ≤ f.stop) ∧
              ∀ g ∈ (r.mmFeatures.drop first).take k,
                ¬ pending (j * blockSize + blockSize) g) := by
        refine List.filter_congr fun k hk => decide_eq_decide.mpr ?_
        subst hfirst
        exact metIn_findIdx_add_iff (by omega) hlast (by have := List.mem_range.mp hk; omega)
      rw [hmet]
      apply List.map_congr_left
      intro k _
      simp only [Function.comp_apply, identifierAt, List.getElem?_drop]

/-! ## Items over several blocks -/

/-- Later blocks meet later items. -/
private theorem MetIn.le {fs : List MultiModalFeatureSpec} {start stop start' stop' k k' : Nat}
    (hle : stop ≤ start') (h : MetIn fs start stop k) (h' : MetIn fs start' stop' k') :
    k ≤ k' := by
  by_contra hlt
  obtain ⟨g, hg, hpending⟩ := h'.2.2.1
  exact h.2.1 g (List.take_subset_take_left _ (by omega) hg) (pending_mono hle hpending)

/-- The blocks meet the items in order. -/
theorem pairwise_metUpTo (blockSize : Nat) (r : Request H) (i : Nat) :
    (metUpTo blockSize r i).Pairwise (· ≤ ·) := by
  rw [metUpTo, List.pairwise_flatMap]
  constructor
  · intro j _
    exact (List.pairwise_lt_range.imp Nat.le_of_lt).filter _
  · refine List.pairwise_lt_range.imp fun {j j'} hlt k hk k' hk' => ?_
    have hblocks : j * blockSize + blockSize ≤ j' * blockSize := by
      rw [← Nat.succ_mul]
      exact Nat.mul_le_mul_right _ hlt
    exact (of_decide_eq_true (List.mem_filter.mp hk).2).le hblocks
      (of_decide_eq_true (List.mem_filter.mp hk').2)

/-- Requests whose blocks meet the same identifiers meet them in the same order. -/
theorem map_metUpTo {blockSize i : Nat} {r r' : Request H}
    (h : ∀ j, j ≤ i → metIds blockSize r j = metIds blockSize r' j) :
    (metUpTo blockSize r i).map (identifierAt r) =
      (metUpTo blockSize r' i).map (identifierAt r') := by
  rw [metUpTo, metUpTo, List.map_flatMap, List.map_flatMap]
  exact List.flatMap_congr fun j hj => h j (Nat.le_of_lt_succ (List.mem_range.mp hj))

/-- A list of items without those that fail a test, by position. -/
private theorem map_filter_eq (fs : List MultiModalFeatureSpec) (p : MultiModalFeatureSpec → Prop)
    [DecidablePred p] : (fs.filter fun f => p f).map (·.identifier) =
      ((List.range fs.length).filter fun k => ∃ f ∈ fs[k]?, p f).map
        fun k => (fs[k]?.map (·.identifier)).getD "" := by
  induction fs with
  | nil => rfl
  | cons f fs ih =>
    rw [List.length_cons, filter_range_succ]
    by_cases hp : p f <;> simp [hp, ih]

/-- The identifiers of the items with tokens among the first `n`. -/
def overlappingIds (r : Request H) (n : Nat) : List String :=
  (r.mmFeatures.filter fun f => f.mmPosition.offset < n ∧ 0 < f.mmPosition.length).map
    (·.identifier)

instance decidableHasTokens (r : Request H) (n k : Nat) : Decidable (HasTokens r n k) :=
  inferInstanceAs (Decidable (∃ f ∈ r.mmFeatures[k]?, _))

/-- The items with tokens in a prefix, by position. -/
private theorem overlappingIds_eq_range (r : Request H) (n : Nat) : overlappingIds r n =
    ((List.range r.mmFeatures.length).filter fun k => HasTokens r n k).map (identifierAt r) := by
  rw [overlappingIds, map_filter_eq]
  rfl

/-- Where the blocks show the items, the items met are those with tokens in the prefix. -/
theorem ShowsItems.overlappingIds_eq {blockSize i : Nat} {r : Request H}
    (h : ShowsItems blockSize r i) : overlappingIds r ((i + 1) * blockSize) =
      (metUpTo blockSize r i).dedup.map (identifierAt r) := by
  have hsame : (List.range r.mmFeatures.length).filter
      (fun k => HasTokens r ((i + 1) * blockSize) k) = (metUpTo blockSize r i).dedup := by
    refine List.Pairwise.eq_of_mem_iff (List.pairwise_lt_range.filter _)
      ((((pairwise_metUpTo blockSize r i).sublist (List.dedup_sublist _)).and
        (List.nodup_dedup _)).imp fun hk => Nat.lt_of_le_of_ne hk.1 hk.2) fun k => ?_
    rw [List.mem_filter, List.mem_dedup, h k, decide_eq_true_iff, List.mem_range]
    refine and_iff_right_of_imp ?_
    rintro ⟨f, hf, -⟩
    exact (List.getElem?_eq_some_iff.mp hf).1
  rw [← hsame, overlappingIds_eq_range]

/-! ## Hidden items -/

/-- Which items a block meets depends on their positions alone. -/
theorem metIn_congr {fs fs' : List MultiModalFeatureSpec}
    (h : fs.map (·.mmPosition) = fs'.map (·.mmPosition)) {start stop k : Nat}
    (hmet : MetIn fs start stop k) : MetIn fs' start stop k := by
  have hstop {g g' : MultiModalFeatureSpec} (hg : g.mmPosition = g'.mmPosition) :
      g.stop = g'.stop := by rw [MultiModalFeatureSpec.stop, hg, MultiModalFeatureSpec.stop]
  have hpending {g g' : MultiModalFeatureSpec} (hg : g.mmPosition = g'.mmPosition) (s : Nat) :
      pending s g = pending s g' := by rw [pending, hg, hstop hg, pending]
  have hmatch {l l' : List MultiModalFeatureSpec}
      (hl : l.map (·.mmPosition) = l'.map (·.mmPosition)) {g : MultiModalFeatureSpec}
      (hg : g ∈ l) : ∃ g' ∈ l', g.mmPosition = g'.mmPosition := by
    obtain ⟨g', hg', heq⟩ := List.mem_map.mp (hl ▸ List.mem_map_of_mem hg)
    exact ⟨g', hg', heq.symm⟩
  have htake (k : Nat) : (fs.take k).map (·.mmPosition) = (fs'.take k).map (·.mmPosition) := by
    rw [List.map_take, h, List.map_take]
  obtain ⟨⟨f, hf, hreach⟩, hended, ⟨g, hg, hopen⟩, hlast⟩ := hmet
  refine ⟨?_, fun g hg => ?_, ?_, fun last hl => ?_⟩
  · have hget := congrArg (·[k]?) h
    simp only [List.getElem?_map, Option.mem_def.mp hf, Option.map_some] at hget
    obtain ⟨f', hf', heq⟩ := Option.map_eq_some_iff.mp hget.symm
    exact ⟨f', hf', by rwa [heq, hstop heq]⟩
  · obtain ⟨g', hg', heq⟩ := hmatch (htake k).symm hg
    rw [hpending heq]
    exact hended g' hg'
  · obtain ⟨g', hg', heq⟩ := hmatch (htake (k + 1)) hg
    exact ⟨g', hg', hpending heq start ▸ hopen⟩
  · have hlast' := congrArg List.getLast? h
    rw [List.getLast?_map, List.getLast?_map, Option.mem_def.mp hl] at hlast'
    obtain ⟨last', hl', heq⟩ := Option.map_eq_some_iff.mp hlast'
    rw [← hstop heq]
    exact hlast last' hl'

/-- A request with another identifier for item `k`. -/
def Request.rename (r : Request H) (k : Nat) (identifier : String) : Request H :=
  { r with mmFeatures := r.mmFeatures.modify k fun f => { f with identifier := identifier } }

private theorem mmPosition_rename (r : Request H) (k : Nat) (identifier : String) :
    (r.rename k identifier).mmFeatures.map (·.mmPosition) = r.mmFeatures.map (·.mmPosition) := by
  refine List.ext_getElem? fun m => ?_
  simp only [Request.rename, List.getElem?_map, List.getElem?_modify]
  cases r.mmFeatures[m]? with
  | none => rfl
  | some f => by_cases h : k = m <;> simp [h]

private theorem identifierAt_rename_of_ne (r : Request H) {k m : Nat} (h : m ≠ k)
    (identifier : String) : identifierAt (r.rename k identifier) m = identifierAt r m := by
  simp [identifierAt, Request.rename, h.symm]

/-- A block that does not meet item `k` does not show its identifier. -/
theorem metIds_rename {blockSize : Nat} {r : Request H} {k j : Nat}
    (hk : k ∉ metItems blockSize r j) (identifier : String) :
    metIds blockSize (r.rename k identifier) j = metIds blockSize r j := by
  have hpositions := mmPosition_rename r k identifier
  have hmet : metItems blockSize (r.rename k identifier) j = metItems blockSize r j := by
    rw [metItems, metItems, show (r.rename k identifier).mmFeatures.length =
      r.mmFeatures.length by simpa using congrArg List.length hpositions]
    exact List.filter_congr fun m _ => decide_eq_decide.mpr
      ⟨metIn_congr hpositions, metIn_congr hpositions.symm⟩
  rw [metIds, metIds, hmet]
  exact List.map_congr_left fun m hm =>
    identifierAt_rename_of_ne r (ne_of_mem_of_not_mem hm hk) identifier

/-- The identifier of an item with tokens in a prefix belongs to the prefix. -/
theorem overlappingIds_rename_ne {r : Request H} {n k : Nat} (hk : HasTokens r n k)
    {identifier : String} (hne : identifier ≠ identifierAt r k) :
    overlappingIds (r.rename k identifier) n ≠ overlappingIds r n := by
  obtain ⟨f, hf, htokens⟩ := hk
  have hlt := (List.getElem?_eq_some_iff.mp hf).1
  have hlen : (r.rename k identifier).mmFeatures.length = r.mmFeatures.length := by
    simpa using congrArg List.length (mmPosition_rename r k identifier)
  have hsame (m : Nat) : HasTokens (r.rename k identifier) n m ↔ HasTokens r n m := by
    have hget := congrArg (·[m]?) (mmPosition_rename r k identifier)
    simp only [List.getElem?_map] at hget
    simp only [HasTokens, Option.mem_def]
    cases h : r.mmFeatures[m]? <;> cases h' : (r.rename k identifier).mmFeatures[m]? <;>
      simp_all
  intro h
  rw [overlappingIds_eq_range, overlappingIds_eq_range, hlen, List.filter_congr fun m _ => decide_eq_decide.mpr (hsame m)] at h
  have hsameAt := List.map_inj_left.mp h k
    (List.mem_filter.mpr ⟨List.mem_range.mpr hlt, decide_eq_true ⟨f, hf, htokens⟩⟩)
  apply hne
  rw [← hsameAt]
  simp [identifierAt, Request.rename, Option.mem_def.mp hf]

end Vllm
