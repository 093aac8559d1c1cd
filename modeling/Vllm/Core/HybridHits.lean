import Vllm.Library.Lowering
import Vllm.Core.HitWindows

/-!
# One length for all groups

The hybrid lookup passes a length through the attention groups until no group lowers it.
Full attention is looked up in the first pass only, and the blocks of the first
full-attention spec are cut to the final length. The hits of all groups agree on that
length exactly when no lookup fails and no group behind the second full-attention spec lowers
what the first two full-attention specs find.
-/

namespace Vllm

open Checked BlockPool Lowering

variable {H : Type}

/-! ## The attention groups -/

namespace KVCacheConfig

/-- Adding a group keeps the specs apart. -/
theorem nodup_addToAttentionGroups {spec : KVCacheSpec} {groupId : Nat}
    {groups : List (KVCacheSpec × List Nat)} (h : (groups.map Prod.fst).Nodup) :
    ((addToAttentionGroups spec groupId groups).map Prod.fst).Nodup ∧
      ∀ s ∈ (addToAttentionGroups spec groupId groups).map Prod.fst,
        s = spec ∨ s ∈ groups.map Prod.fst := by
  induction groups with
  | nil => simp [addToAttentionGroups]
  | cons e groups ih =>
    obtain ⟨hnot, hrest⟩ := List.nodup_cons.mp h
    simp only [addToAttentionGroups]
    split
    · exact ⟨by simpa using h, fun s hs => Or.inr (by simpa using hs)⟩
    · rename_i hne
      obtain ⟨hnodup, hmem⟩ := ih hrest
      refine ⟨List.nodup_cons.mpr ⟨fun hm => ?_, hnodup⟩, fun s hs => ?_⟩
      · rcases hmem _ hm with heq | hm
        · exact hne heq
        · exact hnot hm
      · rcases List.mem_cons.mp hs with rfl | hs
        · exact Or.inr (by simp)
        · rcases hmem s hs with heq | hm
          · exact Or.inl heq
          · exact Or.inr (List.mem_cons_of_mem _ hm)

/-- Adding a group leaves no attention group without ids. -/
private theorem ids_addToAttentionGroups {spec : KVCacheSpec} {groupId : Nat}
    {groups : List (KVCacheSpec × List Nat)} (h : ∀ e ∈ groups, e.2 ≠ []) :
    ∀ e ∈ addToAttentionGroups spec groupId groups, e.2 ≠ [] := by
  induction groups with
  | nil => simp [addToAttentionGroups]
  | cons e groups ih =>
    have hrest := ih fun e' he' => h e' (List.mem_cons_of_mem _ he')
    simp only [addToAttentionGroups]
    split
    · intro e' he'
      rcases List.mem_cons.mp he' with rfl | he'
      · simp
      · exact h e' (List.mem_cons_of_mem _ he')
    · intro e' he'
      rcases List.mem_cons.mp he' with rfl | he'
      · exact h _ List.mem_cons_self
      · exact hrest e' he'

/-- The groups before they are sorted. -/
theorem attentionGroups_unsorted (c : KVCacheConfig) : ∃ groups : List (KVCacheSpec × List Nat),
    c.attentionGroups =
        groups.filter (·.1.isFullAttention) ++ groups.filter (!·.1.isFullAttention) ∧
      (groups.map Prod.fst).Nodup ∧ ∀ e ∈ groups, e.2 ≠ [] := by
  refine ⟨_, rfl, ?_⟩
  have hfold (l : List (KVCacheSpec × Nat)) (groups : List (KVCacheSpec × List Nat))
      (hnodup : (groups.map Prod.fst).Nodup) (hids : ∀ e ∈ groups, e.2 ≠ []) :
      ((l.foldl (fun groups g => addToAttentionGroups g.1 g.2 groups) groups).map
        Prod.fst).Nodup ∧
      ∀ e ∈ l.foldl (fun groups g => addToAttentionGroups g.1 g.2 groups) groups, e.2 ≠ [] := by
    induction l generalizing groups with
    | nil => exact ⟨hnodup, hids⟩
    | cons g l ih =>
      exact ih _ (nodup_addToAttentionGroups hnodup).1 (ids_addToAttentionGroups hids)
  exact hfold _ [] (by simp) (by simp)

/-- Distinct attention groups have distinct specs. -/
theorem attentionGroups_specs (c : KVCacheConfig) :
    (c.attentionGroups.map Prod.fst).Nodup := by
  obtain ⟨groups, heq, hnodup, -⟩ := c.attentionGroups_unsorted
  rw [heq]
  have hperm := List.filter_append_perm (fun e : KVCacheSpec × List Nat => e.1.isFullAttention)
    groups
  exact (hperm.map Prod.fst).nodup_iff.mpr hnodup

/-- Every attention group has a group. -/
theorem attentionGroups_ids {c : KVCacheConfig} {e : KVCacheSpec × List Nat}
    (he : e ∈ c.attentionGroups) : e.2 ≠ [] := by
  obtain ⟨groups, heq, -, hids⟩ := c.attentionGroups_unsorted
  rw [heq] at he
  rcases List.mem_append.mp he with he | he
  · exact hids e (List.mem_filter.mp he).1
  · exact hids e (List.mem_filter.mp he).1

/-- Full attention stands in front. -/
theorem attentionGroups_sorted (c : KVCacheConfig) : c.attentionGroups.Pairwise fun e e' =>
    e'.1.isFullAttention = true → e.1.isFullAttention = true := by
  obtain ⟨groups, heq, -, -⟩ := c.attentionGroups_unsorted
  rw [heq, List.pairwise_append]
  refine ⟨List.pairwise_of_forall_mem_list fun e he e' _ _ => (List.mem_filter.mp he).2,
    List.pairwise_of_forall_mem_list fun e _ e' he' hfull => ?_,
    fun e he e' _ _ => (List.mem_filter.mp he).2⟩
  have hnot := (List.mem_filter.mp he').2
  simp [hfull] at hnot

/-- The alignment of the lookups is a multiple of every block size. -/
theorem blockSize_dvd_lcm {c : KVCacheConfig} {e : KVCacheSpec × List Nat}
    (he : e ∈ c.attentionGroups) : e.1.blockSize ∣ c.lcmBlockSize := by
  have hfold (l : List (KVCacheSpec × List Nat)) (n : Nat) :
      n ∣ l.foldl (fun n g => n.lcm g.1.blockSize) n ∧
        ∀ e ∈ l, e.1.blockSize ∣ l.foldl (fun n g => n.lcm g.1.blockSize) n := by
    induction l generalizing n with
    | nil => simp
    | cons e l ih =>
      obtain ⟨hstart, hrest⟩ := ih (n.lcm e.1.blockSize)
      refine ⟨(Nat.dvd_lcm_left _ _).trans hstart, fun e' he' => ?_⟩
      rcases List.mem_cons.mp he' with rfl | he'
      · exact (Nat.dvd_lcm_right _ _).trans hstart
      · exact hrest e' he'
  exact (hfold c.attentionGroups 1).2 e he

/-- No group belongs to two attention groups. -/
theorem attentionGroups_disjoint (c : KVCacheConfig) : c.attentionGroups.Pairwise fun e e' =>
    ∀ g ∈ e.2, g ∉ e'.2 := by
  have hspecs := List.pairwise_map.mp c.attentionGroups_specs
  refine hspecs.imp_of_mem fun he he' hne g hg hg' => hne ?_
  exact Option.some.inj ((groups_of_attentionGroups he hg).symm.trans
    (groups_of_attentionGroups he' hg'))

end KVCacheConfig

namespace KVCacheManager

variable {kv : KVCacheManager H} {blockHashes : List H} {maxLength : Nat}

/-! ## Lookups of attention groups -/

/-- The length that an attention group's own lookup finds when it may look up to `n` tokens. -/
def hitLength (kv : KVCacheManager H) (blockHashes : List H) (e : KVCacheSpec × List Nat)
    (n : Nat) : Nat :=
  match findLongestCacheHit e.1 kv.blockPool blockHashes n e.2 kv.config.useEagle
      kv.config.lcmBlockSize with
  | .ok rows => (rows.headD []).length * e.1.blockSize
  | .error _ => 0

/-- A manager whose configuration passes the checks of the hybrid coordinator. -/
structure HybridAccepted (kv : KVCacheManager H) : Prop where
  two_groups : 1 < kv.config.attentionGroups.length
  hashBlockSize_dvd : ∀ spec ∈ kv.config.kvCacheGroups,
    kv.blockPool.hashBlockSize ∣ spec.blockSize

/-- The hybrid coordinator accepts what its constructor accepts. -/
theorem hybridAccepted_init {c : KVCacheConfig} (h : init c = .ok kv)
    (hcaching : c.enableCaching = true) (hgroups : ∀ spec, c.kvCacheGroups ≠ [spec]) :
    kv.HybridAccepted := by
  simp only [init, hcaching, if_true, bind_ok_iff, ensure_eq_ok, pure_ok_iff] at h
  obtain ⟨pool, hpool, _, hdvd, _, htwo, rfl⟩ := h
  have hsize : pool.hashBlockSize = c.hashBlockSize := by
    simp only [BlockPool.init, bind_ok_iff, pure_ok_iff] at hpool
    obtain ⟨_, -, _, -, rfl⟩ := hpool
    rfl
  refine ⟨htwo, fun spec hspec => ?_⟩
  change pool.hashBlockSize ∣ spec.blockSize
  rw [hsize]
  exact Nat.dvd_of_mod_eq_zero (hdvd spec hspec)

variable {e : KVCacheSpec × List Nat}

/-- The specs of attention groups are configured. -/
private theorem mem_kvCacheGroups (he : e ∈ kv.config.attentionGroups) :
    e.1 ∈ kv.config.kvCacheGroups := by
  obtain ⟨g, hg⟩ := List.exists_mem_of_ne_nil _ (KVCacheConfig.attentionGroups_ids he)
  exact List.mem_of_getElem? (KVCacheConfig.groups_of_attentionGroups he hg)

/-- The hashes cover what an attention group may look up. -/
theorem HybridAccepted.hashesCover (h : kv.HybridAccepted)
    (hcover : maxLength / kv.blockPool.hashBlockSize ≤ blockHashes.length)
    (he : e ∈ kv.config.attentionGroups) {n : Nat} (hn : n ≤ maxLength) :
    HashesCover kv.blockPool blockHashes e.1 n := by
  have hdvd := h.hashBlockSize_dvd _ (mem_kvCacheGroups he)
  refine le_trans ?_ hcover
  have hpos : 0 < kv.blockPool.hashBlockSize := Nat.pos_of_dvd_of_pos hdvd e.1.blockSize_pos
  rw [Nat.le_div_iff_mul_le hpos, Nat.mul_assoc, Nat.div_mul_cancel hdvd]
  exact (Nat.div_mul_le_self _ _).trans hn

/-- The lookup of an attention group up to `n` tokens succeeds. -/
def Answers (kv : KVCacheManager H) (blockHashes : List H) (e : KVCacheSpec × List Nat)
    (n : Nat) : Prop :=
  ∃ rows, findLongestCacheHit e.1 kv.blockPool blockHashes n e.2 kv.config.useEagle
    kv.config.lcmBlockSize = .ok rows

/-- A lookup that succeeds finds an aligned length. -/
theorem HybridAccepted.lookup (h : kv.HybridAccepted)
    (hcover : maxLength / kv.blockPool.hashBlockSize ≤ blockHashes.length)
    (he : e ∈ kv.config.attentionGroups) {n : Nat} (hn : n ≤ maxLength) {rows : List (List BlockId)}
    (hrows : findLongestCacheHit e.1 kv.blockPool blockHashes n e.2 kv.config.useEagle
      kv.config.lcmBlockSize = .ok rows) :
    rows.length = e.2.length ∧
      (rows.headD []).length * e.1.blockSize = kv.hitLength blockHashes e n ∧
      kv.config.lcmBlockSize ∣ kv.hitLength blockHashes e n ∧
      ∀ k g, e.2[k]? = some g →
        (rows.getD k []).length * e.1.blockSize = kv.hitLength blockHashes e n ∧
        RowFilled kv.blockPool blockHashes e.1 g (e.1.firstFilled n (rows.getD k []).length)
          (rows.getD k []) := by
  have hhead : kv.hitLength blockHashes e n = (rows.headD []).length * e.1.blockSize := by
    simp only [hitLength, hrows]
  obtain ⟨m, hlen, hall, hdvd, hfilled⟩ : ∃ m, rows.length = e.2.length ∧
      (∀ row ∈ rows, row.length = m) ∧ kv.config.lcmBlockSize ∣ m * e.1.blockSize ∧
      ∀ k g, e.2[k]? = some g → RowFilled kv.blockPool blockHashes e.1 g
        (e.1.firstFilled n m) (rows.getD k []) := by
    rcases lookupSupported_or_nil hrows with hsupported | ⟨-, hnil⟩
    · obtain ⟨rows', m, hrows', hlen, hall, -, hdvd, hfilled⟩ :=
        findLongestCacheHit_filled e.2 hsupported (h.hashesCover hcover he hn)
      obtain rfl : rows = rows' := Except.ok.inj (hrows.symm.trans hrows')
      exact ⟨m, hlen, hall, hdvd, hfilled⟩
    · subst hnil
      refine ⟨0, by simp, by simp, by simp, fun k g hk i _ hi => ?_⟩
      rw [List.getD_eq_getElem?_getD, List.getElem?_map, hk] at hi
      exact absurd hi (Nat.not_lt_zero i)
  have hrow (k : Nat) (hk : k < e.2.length) : (rows.getD k []).length = m := by
    rw [List.getD_eq_getElem?_getD, List.getElem?_eq_getElem (by omega)]
    exact hall _ (List.getElem_mem _)
  have hlength : kv.hitLength blockHashes e n = m * e.1.blockSize := by
    have hpos := List.length_pos_iff.mpr (KVCacheConfig.attentionGroups_ids he)
    rw [hhead, List.headD_eq_head?_getD, List.head?_eq_getElem?, ← List.getD_eq_getElem?_getD,
      hrow 0 hpos]
  refine ⟨hlen, hhead.symm, hlength ▸ hdvd, fun k g hk => ?_⟩
  have hk' := hrow k (List.getElem?_eq_some_iff.mp hk).1
  rw [hk', hlength]
  exact ⟨rfl, hfilled k g hk⟩

/-- The lookup of an attention group does not lengthen the hit. -/
theorem hitLength_le (kv : KVCacheManager H) (blockHashes : List H) (e : KVCacheSpec × List Nat)
    (n : Nat) : kv.hitLength blockHashes e n ≤ n := by
  unfold hitLength
  split
  · rename_i rows hrows
    obtain ⟨columns, hcolumns, rfl⟩ := findLongestCacheHit_eq_ok.mp hrows
    refine le_trans (Nat.mul_le_mul_right _ ?_) (length_findHitColumns hcolumns)
    cases e.2 with
    | nil => exact Nat.zero_le _
    | cons g ids => rw [List.length_cons, List.range_succ_eq_map, List.map_cons, List.headD_cons,
        List.length_map]
  · exact Nat.zero_le n

/-- The length that a lookup finds is aligned. -/
theorem HybridAccepted.dvd_hitLength (h : kv.HybridAccepted)
    (hcover : maxLength / kv.blockPool.hashBlockSize ≤ blockHashes.length)
    (he : e ∈ kv.config.attentionGroups) {n : Nat} (hn : n ≤ maxLength) :
    kv.config.lcmBlockSize ∣ kv.hitLength blockHashes e n := by
  by_cases hanswers : kv.Answers blockHashes e n
  · obtain ⟨rows, hrows⟩ := hanswers
    exact (h.lookup hcover he hn hrows).2.2.1
  · unfold hitLength
    split
    · rename_i rows hrows
      exact absurd ⟨rows, hrows⟩ hanswers
    · exact Nat.dvd_zero _

/-! ## Passes -/

/-- A pass keeps what it has of a full-attention spec. -/
def keepsRows (hits : Nat → Option (List BlockId)) (e : KVCacheSpec × List Nat) : Bool :=
  e.1.isFullAttention && (e.2.head?.bind hits).isSome

/-- The rows of an attention group are those of its lookup up to `n` tokens. -/
def HoldsLookup (kv : KVCacheManager H) (blockHashes : List H)
    (hits : Nat → Option (List BlockId)) (e : KVCacheSpec × List Nat) (n : Nat) : Prop :=
  ∀ g ∈ e.2, ∃ rows k,
    findLongestCacheHit e.1 kv.blockPool blockHashes n e.2 kv.config.useEagle
      kv.config.lcmBlockSize = .ok rows ∧
    e.2[k]? = some g ∧ hits g = some (rows.getD k [])

/-- The hits after the rows of one lookup are recorded. -/
abbrev recorded (hits : Nat → Option (List BlockId)) (groupIds : List Nat)
    (rows : List (List BlockId)) : Nat → Option (List BlockId) :=
  (groupIds.zip rows).foldl (fun hits g => Function.update hits g.1 (some g.2)) hits

/-- Recording the rows of a lookup. -/
theorem holdsLookup_recorded {n : Nat} {rows : List (List BlockId)}
    (hrows : findLongestCacheHit e.1 kv.blockPool blockHashes n e.2 kv.config.useEagle
      kv.config.lcmBlockSize = .ok rows) (hlen : rows.length = e.2.length)
    (hits : Nat → Option (List BlockId)) :
    kv.HoldsLookup blockHashes (recorded hits e.2 rows) e n := by
  intro g hg
  rcases record_eq hits (e.2.zip rows) g with ⟨pair, hpair, rfl, heq⟩ | ⟨hmiss, -⟩
  · obtain ⟨k, hk⟩ := List.mem_iff_getElem?.mp hpair
    rw [List.getElem?_zip_eq_some] at hk
    refine ⟨rows, k, hrows, hk.1, heq.trans ?_⟩
    rw [List.getD_eq_getElem?_getD, hk.2]
    rfl
  · rw [List.map_fst_zip (by omega)] at hmiss
    exact absurd hg hmiss

/-- Recording the rows of a lookup changes nothing for other groups. -/
theorem recorded_of_notMem {groupIds : List Nat} (rows : List (List BlockId))
    (hits : Nat → Option (List BlockId)) {g : Nat} (hg : g ∉ groupIds) :
    recorded hits groupIds rows g = hits g := by
  rcases record_eq hits (groupIds.zip rows) g with ⟨pair, hpair, rfl, -⟩ | ⟨-, heq⟩
  · exact absurd (List.of_mem_zip hpair).1 hg
  · exact heq

/-- Whether rows are kept depends on the attention group's own hits only. -/
theorem keepsRows_congr {hits hits' : Nat → Option (List BlockId)}
    (h : ∀ g ∈ e.2, hits' g = hits g) : keepsRows hits' e = keepsRows hits e := by
  unfold keepsRows
  cases hids : e.2 with
  | nil => rfl
  | cons g ids =>
    simp only [List.head?_cons, Option.bind_some]
    rw [h g (by simp [hids])]

variable {hits : Nat → Option (List BlockId)} {groups : List (KVCacheSpec × List Nat)}

/-- The pass at an attention group whose rows are kept. -/
theorem hybridPass_keep {n : Nat} (h : keepsRows hits e = true) :
    kv.hybridPass blockHashes (e :: groups) n hits =
      kv.hybridPass blockHashes groups (n / e.1.blockSize * e.1.blockSize) hits := by
  unfold keepsRows at h
  rw [hybridPass, if_pos h]

/-- The pass at an attention group that is looked up. -/
theorem hybridPass_lookup {n : Nat} (h : keepsRows hits e = false) {rows : List (List BlockId)}
    (hrows : findLongestCacheHit e.1 kv.blockPool blockHashes n e.2 kv.config.useEagle
      kv.config.lcmBlockSize = .ok rows) :
    kv.hybridPass blockHashes (e :: groups) n hits =
      kv.hybridPass blockHashes groups (kv.hitLength blockHashes e n)
        (recorded hits e.2 rows) := by
  unfold keepsRows at h
  rw [hybridPass, h, if_neg Bool.false_ne_true, hitLength, hrows]
  rfl

/-- A pass looks up the attention groups whose rows it does not keep, one after the other. -/
theorem HybridAccepted.hybridPass_eq (h : kv.HybridAccepted)
    (hcover : maxLength / kv.blockPool.hashBlockSize ≤ blockHashes.length)
    (hgroups : ∀ e ∈ groups, e ∈ kv.config.attentionGroups)
    (hdisjoint : groups.Pairwise fun e e' => ∀ g ∈ e.2, g ∉ e'.2) {n : Nat} (hn : n ≤ maxLength)
    (haligned : ∀ e ∈ groups, keepsRows hits e = true → kv.config.lcmBlockSize ∣ n)
    (hanswers : ∀ e ∈ stages (kv.hitLength blockHashes) (groups.filter (!keepsRows hits ·)) n,
      kv.Answers blockHashes e.1 e.2) :
    ∃ hits', kv.hybridPass blockHashes groups n hits =
        .ok (lowered (kv.hitLength blockHashes) (groups.filter (!keepsRows hits ·)) n, hits') ∧
      (∀ e ∈ stages (kv.hitLength blockHashes) (groups.filter (!keepsRows hits ·)) n,
        kv.HoldsLookup blockHashes hits' e.1 e.2) ∧
      ∀ g, (∀ e ∈ groups, keepsRows hits e = false → g ∉ e.2) → hits' g = hits g := by
  induction groups generalizing n hits with
  | nil => exact ⟨hits, rfl, by simp [stages], fun _ _ => rfl⟩
  | cons e groups ih =>
    have he := hgroups e List.mem_cons_self
    have hrest : ∀ e' ∈ groups, e' ∈ kv.config.attentionGroups :=
      fun e' he' => hgroups e' (List.mem_cons_of_mem _ he')
    obtain ⟨hapart, hpairwise⟩ := List.pairwise_cons.mp hdisjoint
    by_cases hkeep : keepsRows hits e = true
    · have hdvd := haligned e List.mem_cons_self hkeep
      have hkept : n / e.1.blockSize * e.1.blockSize = n :=
        Nat.div_mul_cancel ((KVCacheConfig.blockSize_dvd_lcm he).trans hdvd)
      rw [List.filter_cons_of_neg (by simp [hkeep])] at hanswers ⊢
      obtain ⟨hits', hpass, hstages, hother⟩ := ih hrest hpairwise hn
        (fun e' he' hk => haligned e' (List.mem_cons_of_mem _ he') hk) hanswers
      rw [hybridPass_keep hkeep, hkept]
      exact ⟨hits', hpass, hstages, fun g hg => hother g fun e' he' =>
        hg e' (List.mem_cons_of_mem _ he')⟩
    · rw [Bool.not_eq_true] at hkeep
      rw [List.filter_cons_of_pos (by simp [hkeep])] at hanswers ⊢
      obtain ⟨rows, hrows⟩ := hanswers (e, n) List.mem_cons_self
      obtain ⟨hlen, -, hdvd, -⟩ := h.lookup hcover he hn hrows
      have hle := kv.hitLength_le blockHashes e n
      -- the other attention groups keep their rows as before
      have hsame (e' : KVCacheSpec × List Nat) (he' : e' ∈ groups) :
          keepsRows (recorded hits e.2 rows) e' = keepsRows hits e' :=
        keepsRows_congr fun g hg => recorded_of_notMem rows hits
          fun hmem => hapart e' he' g hmem hg
      have hfilter : groups.filter (!keepsRows (recorded hits e.2 rows) ·) =
          groups.filter (!keepsRows hits ·) :=
        List.filter_congr fun e' he' => by rw [hsame e' he']
      have haligned' : ∀ e' ∈ groups, keepsRows (recorded hits e.2 rows) e' = true →
          kv.config.lcmBlockSize ∣ kv.hitLength blockHashes e n := fun _ _ _ => hdvd
      obtain ⟨hits', hpass, hstages, hother⟩ := ih hrest hpairwise (hle.trans hn) haligned'
        (hfilter ▸ fun stage hstage => hanswers stage (List.mem_cons_of_mem _ hstage))
      rw [hfilter] at hpass hstages
      rw [hybridPass_lookup hkeep hrows]
      refine ⟨hits', hpass, fun stage hstage => ?_, fun g hg => ?_⟩
      · rcases List.mem_cons.mp hstage with rfl | hstage
        · intro g hg
          rw [hother g fun e' he' _ => hapart e' he' g hg]
          exact holdsLookup_recorded hrows hlen hits g hg
        · exact hstages stage hstage
      · rw [hother g fun e' he' hk => hg e' (List.mem_cons_of_mem _ he') (hsame e' he' ▸ hk)]
        exact recorded_of_notMem rows hits (hg e List.mem_cons_self hkeep)

/-- A first pass that comes to an end has looked up every attention group. -/
theorem answers_of_hybridPass {n m : Nat} {hits hits' : Nat → Option (List BlockId)}
    (hnone : ∀ e ∈ groups, ∀ g ∈ e.2, hits g = none)
    (hdisjoint : groups.Pairwise fun e e' => ∀ g ∈ e.2, g ∉ e'.2)
    (h : kv.hybridPass blockHashes groups n hits = .ok (m, hits')) :
    ∀ e ∈ stages (kv.hitLength blockHashes) groups n, kv.Answers blockHashes e.1 e.2 := by
  induction groups generalizing n hits with
  | nil => simp [stages]
  | cons e groups ih =>
    obtain ⟨hapart, hpairwise⟩ := List.pairwise_cons.mp hdisjoint
    have hkeep : keepsRows hits e = false := by
      unfold keepsRows
      cases hids : e.2 with
      | nil => simp
      | cons g ids => simp [hnone e List.mem_cons_self g (by simp [hids])]
    obtain ⟨rows, hrows⟩ : kv.Answers blockHashes e n := by
      have h' := h
      unfold keepsRows at hkeep
      rw [hybridPass, hkeep, if_neg Bool.false_ne_true] at h'
      obtain ⟨rows, hrows, -⟩ := bind_ok_iff.mp h'
      exact ⟨rows, hrows⟩
    rw [hybridPass_lookup hkeep hrows] at h
    intro stage hstage
    rcases List.mem_cons.mp hstage with rfl | hstage
    · exact ⟨rows, hrows⟩
    · refine ih (fun e' he' g hg => ?_) hpairwise h stage hstage
      rw [recorded_of_notMem rows hits fun hmem => hapart e' he' g hmem hg]
      exact hnone e' (List.mem_cons_of_mem _ he') g hg

/-! ## Rows of attention groups -/

/-- The row of an attention group has the length of its lookup and is filled in. -/
theorem HoldsLookup.row (h : kv.HybridAccepted)
    (hcover : maxLength / kv.blockPool.hashBlockSize ≤ blockHashes.length)
    (he : e ∈ kv.config.attentionGroups) {n : Nat} (hn : n ≤ maxLength)
    (hold : kv.HoldsLookup blockHashes hits e n) {g : Nat} (hg : g ∈ e.2) :
    ∃ row, hits g = some row ∧ row.length * e.1.blockSize = kv.hitLength blockHashes e n ∧
      RowFilled kv.blockPool blockHashes e.1 g (e.1.firstFilled n row.length) row := by
  obtain ⟨rows, k, hrows, hk, hget⟩ := hold g hg
  obtain ⟨-, -, -, hfilled⟩ := h.lookup hcover he hn hrows
  exact ⟨_, hget, hfilled k g hk⟩

/-- Where a lookup keeps the length it is handed, its rows are right at this length. -/
theorem HoldsLookup.rowAt_of_kept (h : kv.HybridAccepted) (hnull : NullUncached kv.blockPool)
    (hcover : maxLength / kv.blockPool.hashBlockSize ≤ blockHashes.length)
    (he : e ∈ kv.config.attentionGroups) {n : Nat} (hn : n ≤ maxLength)
    (hold : kv.HoldsLookup blockHashes hits e n) (hkept : kv.hitLength blockHashes e n = n)
    {g : Nat} (hg : g ∈ e.2) : ∃ row, hits g = some row ∧
      RowAt kv.blockPool blockHashes e.1 g n row := by
  obtain ⟨row, hget, hlen, hfilled⟩ := hold.row h hcover he hn hg
  rw [hkept] at hlen
  rw [firstFilled_of_kept hlen] at hfilled
  exact ⟨row, hget, hfilled.rowAt hnull hlen⟩

/-! ## The later passes -/

/-- After the first pass all full-attention rows are kept, and the other attention groups
are passed through until none of them lowers the length. -/
theorem HybridAccepted.hybridLoop_later (h : kv.HybridAccepted)
    (hcover : maxLength / kv.blockPool.hashBlockSize ≤ blockHashes.length)
    (hsimple : kv.config.isSimpleHybrid = false) {n : Nat} (hn : n ≤ maxLength)
    (hdvd : kv.config.lcmBlockSize ∣ n)
    (hfull : ∀ e ∈ kv.config.attentionGroups, keepsRows hits e = e.1.isFullAttention)
    (hanswers : ∀ e ∈ kv.config.attentionGroups, ∀ m ≤ n, kv.Answers blockHashes e m) :
    ∃ m hits', (∀ fuel, n < fuel → kv.hybridLoop blockHashes fuel n hits = .ok (m, hits')) ∧
      m ≤ n ∧ kv.config.lcmBlockSize ∣ m ∧
      (∀ e ∈ kv.config.attentionGroups, e.1.isFullAttention = false →
        kv.hitLength blockHashes e m = m ∧ kv.HoldsLookup blockHashes hits' e m) ∧
      (∀ e ∈ kv.config.attentionGroups, e.1.isFullAttention = true →
        ∀ g ∈ e.2, hits' g = hits g) ∧
      ((∀ e ∈ kv.config.attentionGroups, e.1.isFullAttention = false →
        kv.hitLength blockHashes e n = n) → m = n) := by
  induction n using Nat.strongRecOn generalizing hits with
  | ind n ih =>
    have haligned : ∀ e ∈ kv.config.attentionGroups, keepsRows hits e = true →
        kv.config.lcmBlockSize ∣ n := fun _ _ _ => hdvd
    have hlower : ∀ e ∈ kv.config.attentionGroups.filter (!keepsRows hits ·), ∀ m ≤ n,
        kv.hitLength blockHashes e m ≤ m := fun e _ m _ => kv.hitLength_le blockHashes e m
    obtain ⟨hits₁, hpass, hstages, hother⟩ := h.hybridPass_eq hcover (fun _ he => he)
      kv.config.attentionGroups_disjoint hn haligned fun stage hstage =>
        hanswers _ (List.mem_filter.mp (mem_of_mem_stages hstage)).1 _
          (le_of_mem_stages hlower hstage).1
    have hmem {e : KVCacheSpec × List Nat} (he : e ∈ kv.config.attentionGroups)
        (hnot : e.1.isFullAttention = false) :
        e ∈ kv.config.attentionGroups.filter (!keepsRows hits ·) :=
      List.mem_filter.mpr ⟨he, by rw [hfull e he, hnot]; rfl⟩
    have hkept (e : KVCacheSpec × List Nat) (he : e ∈ kv.config.attentionGroups)
        (hyes : e.1.isFullAttention = true) (g : Nat) (hg : g ∈ e.2) : hits₁ g = hits g := by
      refine hother g fun e' he' hk hg' => ?_
      -- two attention groups with a group in common are one
      have hspec : e.1 = e'.1 := Option.some.inj
        ((KVCacheConfig.groups_of_attentionGroups he hg).symm.trans
          (KVCacheConfig.groups_of_attentionGroups he' hg'))
      rw [hfull e' he', ← hspec, hyes] at hk
      cases hk
    have hle := lowered_le hlower
    generalize hcurr : lowered (kv.hitLength blockHashes)
      (kv.config.attentionGroups.filter (!keepsRows hits ·)) n = curr at hpass hle
    by_cases hstop : n ≤ curr
    · have hall := eq_of_le_lowered hlower (hcurr ▸ hstop)
      refine ⟨n, hits₁, fun fuel hfuel => ?_, Nat.le_refl _, hdvd, fun e he hnot => ?_, hkept,
        fun _ => rfl⟩
      · obtain ⟨fuel, rfl⟩ := Nat.exists_eq_add_of_lt hfuel
        rw [hybridLoop, hpass]
        simp only [bind, Except.bind, if_pos hstop, pure, Except.pure]
      · exact ⟨hall e (hmem he hnot), hstages (e, n) (mem_stages_of_eq hall (hmem he hnot))⟩
    · have hdvd' : kv.config.lcmBlockSize ∣ curr := by
        rw [← hcurr]
        exact lowered_induction hlower hdvd fun e he m hm =>
          h.dvd_hitLength hcover (List.mem_filter.mp he).1 (hm.trans hn)
      have hfull' : ∀ e ∈ kv.config.attentionGroups,
          keepsRows hits₁ e = e.1.isFullAttention := by
        intro e he
        cases hyes : e.1.isFullAttention with
        | false => simp [keepsRows, hyes]
        | true => rw [keepsRows_congr (hkept e he hyes), hfull e he, hyes]
      obtain ⟨m, hits', hloop, hm, hlcm, hnot, hyes, -⟩ :=
        ih curr (by omega) (hle.trans hn) hdvd' hfull'
          fun e he m hm => hanswers e he m (hm.trans hle)
      refine ⟨m, hits', fun fuel hfuel => ?_, by omega, hlcm, hnot, fun e he hf g hg => ?_,
        fun hall => ?_⟩
      · obtain ⟨fuel, rfl⟩ := Nat.exists_eq_add_of_lt hfuel
        rw [hybridLoop, hpass]
        simp only [bind, Except.bind, if_neg hstop, hsimple, Bool.false_eq_true, if_false]
        exact hloop _ (by omega)
      · rw [hyes e he hf g hg, hkept e he hf g hg]
      · -- no group lowers the length, so the pass does not either
        have heq : curr = n := by
          rw [← hcurr]
          refine lowered_eq fun e he => hall e (List.mem_filter.mp he).1 ?_
          have hk := (List.mem_filter.mp he).2
          rw [hfull e (List.mem_filter.mp he).1] at hk
          simpa using hk
        omega

/-! ## Chunks that start inside a block -/

/-- The block in which the last chunk of a length starts. -/
def startBlock (spec : KVCacheSpec) (n : Nat) : Nat :=
  (spec.numSkippedBlocks n).toNat

/-- The block in which the last chunk starts is cached, or the window of the tokens before it
is empty. -/
def ChunkStartCovered (kv : KVCacheManager H) (blockHashes : List H)
    (e : KVCacheSpec × List Nat) (n : Nat) : Prop :=
  startBlock e.1 (startBlock e.1 n * e.1.blockSize) = startBlock e.1 n ∨
    CachedInAll kv.blockPool blockHashes e.1 e.2 (startBlock e.1 n)

private theorem startBlock_chunked {spec : KVCacheSpec} {chunk : Nat}
    (hkind : spec.kind = .chunkedLocal chunk) (n : Nat) :
    startBlock spec n = n / chunk * chunk / spec.blockSize := by
  rw [startBlock, numSkippedBlocks_chunked hkind, Int.toNat_natCast]

/-- What the rows of chunked local attention are: null before the start block, which comes up
cached exactly when the row is longer. -/
theorem HoldsLookup.row_chunked (h : kv.HybridAccepted)
    (hcover : maxLength / kv.blockPool.hashBlockSize ≤ blockHashes.length)
    (he : e ∈ kv.config.attentionGroups) {chunk : Nat} (hkind : e.1.kind = .chunkedLocal chunk)
    {n : Nat} (hn : n ≤ maxLength) (hold : kv.HoldsLookup blockHashes hits e n) :
    ∃ found, kv.hitLength blockHashes e n = (startBlock e.1 n + found) * e.1.blockSize ∧
      (startBlock e.1 n < n / e.1.blockSize →
        (0 < found ↔ CachedInAll kv.blockPool blockHashes e.1 e.2 (startBlock e.1 n))) ∧
      ∀ g ∈ e.2, ∃ row, hits g = some row ∧ row.length = startBlock e.1 n + found ∧
        RowFilled kv.blockPool blockHashes e.1 g (startBlock e.1 n) row ∧
        ∀ i < startBlock e.1 n, row[i]? = some nullBlock := by
  obtain ⟨heagle, haligned⟩ : kv.config.useEagle = false ∧
      e.1.blockSize = kv.config.lcmBlockSize := by
    obtain ⟨g, hg⟩ := List.exists_mem_of_ne_nil _ (KVCacheConfig.attentionGroups_ids he)
    obtain ⟨_, _, hrows, -⟩ := hold g hg
    rcases lookupSupported_or_nil hrows with hsupported | ⟨⟨window, hwindow⟩, -⟩
    · unfold KVCacheSpec.LookupSupported at hsupported
      rwa [hkind] at hsupported
    · rw [hkind] at hwindow
      cases hwindow
  obtain ⟨rest, hcolumns, -, hrest⟩ := chunkedLocal_columns e.2 hkind (startBlock_chunked hkind n)
    haligned (h.hashesCover hcover he hn)
  rw [← heagle] at hcolumns
  have hrows := findLongestCacheHit_eq_ok.mpr ⟨_, hcolumns, rfl⟩
  have hb := e.1.blockSize_pos
  have hrow (g : Nat) (hg : g ∈ e.2) : ∃ row, hits g = some row ∧
      row.length = startBlock e.1 n + rest.length ∧
      row.length * e.1.blockSize = kv.hitLength blockHashes e n ∧
      RowFilled kv.blockPool blockHashes e.1 g (startBlock e.1 n) row ∧
      ∀ i < startBlock e.1 n, row[i]? = some nullBlock := by
    obtain ⟨row, hget, hlen, hfilled⟩ := hold.row h hcover he hn hg
    obtain ⟨rows', k, hrows', hk, hget'⟩ := hold g hg
    obtain rfl := Except.ok.inj (hrows.symm.trans hrows')
    rw [getD_rows (List.getElem?_eq_some_iff.mp hk).1, hget, Option.some.injEq] at hget'
    have hstart : e.1.firstFilled n row.length = startBlock e.1 n := by
      rw [KVCacheSpec.firstFilled, hkind, startBlock_chunked hkind,
        ← numSkippedBlocks_chunked hkind]
    rw [hstart] at hfilled
    refine ⟨row, hget, by simp [hget'], hlen, hfilled, fun i hi => ?_⟩
    rw [hget', List.getElem?_map, List.getElem?_append_left (by simpa using hi),
      List.getElem?_replicate_of_lt hi, Option.map_some, List.getD_eq_getElem?_getD,
      List.getElem?_map, hk]
    rfl
  obtain ⟨g, hg⟩ := List.exists_mem_of_ne_nil _ (KVCacheConfig.attentionGroups_ids he)
  obtain ⟨_, -, hlen, hlength, -⟩ := hrow g hg
  refine ⟨rest.length, by rw [← hlength, hlen], fun hlt => ?_, fun g hg => ?_⟩
  · rw [List.length_pos_iff]
    exact hrest hlt
  · obtain ⟨row, hget, hlen, -, hfilled, hnulls⟩ := hrow g hg
    exact ⟨row, hget, hlen, hfilled, hnulls⟩

/-- The rows of chunked local attention are right at the length found exactly when the start
of the last chunk is covered. -/
theorem HoldsLookup.rowAt_chunked_iff (h : kv.HybridAccepted) (hnull : NullUncached kv.blockPool)
    (hcover : maxLength / kv.blockPool.hashBlockSize ≤ blockHashes.length)
    (he : e ∈ kv.config.attentionGroups) {chunk : Nat} (hkind : e.1.kind = .chunkedLocal chunk)
    {n : Nat} (hn : n ≤ maxLength) (hdvd : e.1.blockSize ∣ n)
    (hold : kv.HoldsLookup blockHashes hits e n) :
    (∀ g ∈ e.2, ∃ row, hits g = some row ∧
      RowAt kv.blockPool blockHashes e.1 g (kv.hitLength blockHashes e n) row) ↔
    kv.ChunkStartCovered blockHashes e n := by
  obtain ⟨found, hlength, hfound, hrow⟩ := hold.row_chunked h hcover he hkind hn
  have hb := e.1.blockSize_pos
  have hmul := Nat.div_mul_cancel hdvd
  have hstart := startBlock_chunked hkind n
  have hchunk : n / chunk * chunk ≤ n := Nat.div_mul_le_self _ _
  have hle : startBlock e.1 n ≤ n / e.1.blockSize := by
    rw [hstart]
    exact Nat.div_le_div_right (Nat.div_mul_le_self _ _)
  rw [hlength]
  unfold ChunkStartCovered
  constructor
  · intro hall
    by_contra hnot
    rw [not_or] at hnot
    -- the chunk starts inside a block that is missed, so the row ends there
    have hlt : startBlock e.1 n < n / e.1.blockSize := by
      refine lt_of_le_of_ne hle fun heq => hnot.1 ?_
      rw [heq, hmul, ← heq]
    obtain rfl : found = 0 := Nat.eq_zero_of_not_pos fun hpos => hnot.2 ((hfound hlt).mp hpos)
    have hbefore : startBlock e.1 (startBlock e.1 n * e.1.blockSize) < startBlock e.1 n := by
      refine lt_of_le_of_ne ?_ hnot.1
      rw [startBlock_chunked hkind]
      exact (Nat.div_le_div_right (Nat.div_mul_le_self _ _)).trans_eq (Nat.mul_div_cancel _ hb)
    obtain ⟨g, hg⟩ := List.exists_mem_of_ne_nil _ (KVCacheConfig.attentionGroups_ids he)
    obtain ⟨row, hget, hlen, -, hnulls⟩ := hrow g hg
    obtain ⟨row', hget', hrowAt⟩ := hall g hg
    obtain rfl : row = row' := Option.some.inj (hget.symm.trans hget')
    obtain ⟨b, hentry, hne, -⟩ := hrowAt.window
      (startBlock e.1 (startBlock e.1 n * e.1.blockSize))
      (by rw [Nat.add_zero, numSkippedBlocks_chunked hkind, startBlock_chunked hkind (_ * _)])
      (by omega)
    rw [hnulls _ hbefore, Option.some.injEq] at hentry
    exact hne hentry.symm
  · intro hcovered g hg
    obtain ⟨row, hget, hlen, hfilled, -⟩ := hrow g hg
    refine ⟨row, hget, RowFilled.rowAt (fun i hi hlt => hfilled i (le_trans ?_ hi) hlt) hnull
      (by rw [hlen])⟩
    rw [numSkippedBlocks_chunked hkind, Int.ofNat_le]
    rcases hcovered with hsame | hcached
    · -- no token before the start block is in its chunk
      rw [startBlock_chunked hkind (_ * _)] at hsame
      refine hsame.symm.le.trans (Nat.div_le_div_right (Nat.mul_le_mul_right _
        (Nat.div_le_div_right (Nat.mul_le_mul_right _ (Nat.le_add_right _ _)))))
    · have hreach : n / chunk * chunk ≤ (startBlock e.1 n + found) * e.1.blockSize := by
        rcases Nat.eq_or_lt_of_le hle with heq | hlt
        · rw [heq, Nat.add_mul, hmul]
          exact (Nat.div_mul_le_self _ _).trans (Nat.le_add_right _ _)
        · have hpos := (hfound hlt).mpr hcached
          have hstart' : n / chunk * chunk < (startBlock e.1 n + 1) * e.1.blockSize := by
            rw [← Nat.div_lt_iff_lt_mul hb, ← hstart]
            exact Nat.lt_succ_self _
          exact hstart'.le.trans (Nat.mul_le_mul_right _ (by omega))
      have hpos : 0 < chunk := by
        have hvalid := e.1.kind_valid
        rw [hkind] at hvalid
        exact hvalid
      conv_lhs => rw [hstart]
      exact Nat.div_le_div_right (Nat.mul_le_mul_right _
        ((Nat.le_div_iff_mul_le hpos).mpr hreach))

/-! ## The run of the lookup -/

theorem HoldsLookup.congr {hits hits' : Nat → Option (List BlockId)} {n : Nat}
    (h : kv.HoldsLookup blockHashes hits e n) (heq : ∀ g ∈ e.2, hits' g = hits g) :
    kv.HoldsLookup blockHashes hits' e n := by
  intro g hg
  rw [heq g hg]
  exact h g hg

/-- Rows that were recorded once are kept when they are of full attention. -/
theorem HoldsLookup.keepsRows_eq {n : Nat} (h : kv.HoldsLookup blockHashes hits e n)
    (he : e ∈ kv.config.attentionGroups) : keepsRows hits e = e.1.isFullAttention := by
  unfold keepsRows
  cases hids : e.2 with
  | nil => exact absurd hids (KVCacheConfig.attentionGroups_ids he)
  | cons g ids =>
    obtain ⟨rows, k, -, -, hget⟩ := h g (by simp [hids])
    simp [hget]

/-- How the lookup ends: no group lowers the length; or it stops after the single pass of a
simple hybrid; or later passes have settled on a length, with full attention as the first
pass left it. -/
inductive Settled (kv : KVCacheManager H) (blockHashes : List H) (maxLength m : Nat)
    (hits : Nat → Option (List BlockId)) : Prop where
  | kept (hm : m = maxLength)
    (hall : ∀ e ∈ kv.config.attentionGroups, kv.hitLength blockHashes e maxLength = maxLength ∧
      kv.HoldsLookup blockHashes hits e maxLength)
  | simple (e₁ e₂ : KVCacheSpec × List Nat) (hgroups : kv.config.attentionGroups = [e₁, e₂])
    (hfull : e₁.1.isFullAttention = true)
    (h₁ : kv.HoldsLookup blockHashes hits e₁ maxLength)
    (h₂ : kv.HoldsLookup blockHashes hits e₂ (kv.hitLength blockHashes e₁ maxLength))
    (hm : m = kv.hitLength blockHashes e₂ (kv.hitLength blockHashes e₁ maxLength))
  | later (hsimple : kv.config.isSimpleHybrid = false)
    (hle : m ≤ lowered (kv.hitLength blockHashes) kv.config.attentionGroups maxLength)
    (hfull : ∀ e n, (e, n) ∈ stages (kv.hitLength blockHashes) kv.config.attentionGroups
      maxLength → e.1.isFullAttention = true → kv.HoldsLookup blockHashes hits e n)
    (hother : ∀ e ∈ kv.config.attentionGroups, e.1.isFullAttention = false →
      kv.hitLength blockHashes e m = m ∧ kv.HoldsLookup blockHashes hits e m)
    (hkept : (∀ e ∈ kv.config.attentionGroups, e.1.isFullAttention = false →
      kv.hitLength blockHashes e
          (lowered (kv.hitLength blockHashes) kv.config.attentionGroups maxLength) =
        lowered (kv.hitLength blockHashes) kv.config.attentionGroups maxLength) →
      m = lowered (kv.hitLength blockHashes) kv.config.attentionGroups maxLength)

/-- A configuration is a simple hybrid when it has two attention groups, the first one of
full attention. -/
theorem isSimpleHybrid_iff {c : KVCacheConfig} : c.isSimpleHybrid = true ↔
    ∃ e₁ e₂, c.attentionGroups = [e₁, e₂] ∧ e₁.1.isFullAttention = true := by
  simp only [KVCacheConfig.isSimpleHybrid, decide_eq_true_eq]
  constructor
  · rintro ⟨hlen, hfull⟩
    obtain ⟨e₁, e₂, hgroups⟩ := List.length_eq_two.mp hlen
    exact ⟨e₁, e₂, hgroups, by simpa [hgroups] using hfull⟩
  · rintro ⟨e₁, e₂, hgroups, hfull⟩
    simp [hgroups, hfull]

/-- When the lookups of the first pass succeed, so do those of the later ones: a spec that is not
supported has found nothing. -/
theorem HybridAccepted.answers_later (h : kv.HybridAccepted)
    (hcover : maxLength / kv.blockPool.hashBlockSize ≤ blockHashes.length)
    (hanswers : ∀ e ∈ stages (kv.hitLength blockHashes) kv.config.attentionGroups maxLength,
      kv.Answers blockHashes e.1 e.2) (he : e ∈ kv.config.attentionGroups) {m : Nat}
    (hm : m ≤ lowered (kv.hitLength blockHashes) kv.config.attentionGroups maxLength) :
    kv.Answers blockHashes e m := by
  have hlower : ∀ e ∈ kv.config.attentionGroups, ∀ m ≤ maxLength,
      kv.hitLength blockHashes e m ≤ m := fun e _ m _ => kv.hitLength_le blockHashes e m
  obtain ⟨n, hstage⟩ := exists_stage (kv.hitLength blockHashes) maxLength he
  obtain ⟨rows, hrows⟩ := hanswers _ hstage
  rcases lookupSupported_or_nil hrows with hsupported | ⟨⟨window, hkind⟩, hnil⟩
  · obtain ⟨rows, _, hrows, -⟩ := findLongestCacheHit_filled e.2 hsupported
      (h.hashesCover hcover he (hm.trans (lowered_le hlower)))
    exact ⟨rows, hrows⟩
  · have hzero : kv.hitLength blockHashes e n = 0 := by
      simp only [hitLength, hrows, hnil]
      cases e.2 <;> simp
    have hle : _ ≤ kv.hitLength blockHashes e n := (le_of_mem_stages hlower hstage).2
    obtain rfl : m = 0 := by omega
    exact findLongestCacheHit_zero e.2 hkind

/-- With more passes than tokens the lookup settles, and more passes change nothing. -/
theorem HybridAccepted.hybridLoop_settles (h : kv.HybridAccepted)
    (hcover : maxLength / kv.blockPool.hashBlockSize ≤ blockHashes.length)
    (hanswers : ∀ e ∈ stages (kv.hitLength blockHashes) kv.config.attentionGroups maxLength,
      kv.Answers blockHashes e.1 e.2) :
    ∃ m hits, (∀ fuel, maxLength < fuel →
        kv.hybridLoop blockHashes fuel maxLength (fun _ => none) = .ok (m, hits)) ∧
      m ≤ maxLength ∧ kv.config.lcmBlockSize ∣ m ∧
      kv.Settled blockHashes maxLength m hits := by
  have hnone (e : KVCacheSpec × List Nat) : keepsRows (fun _ => none) e = false := by
    cases hids : e.2 <;> simp [keepsRows, hids]
  have hfilter : kv.config.attentionGroups.filter (!keepsRows (fun _ => none) ·) =
      kv.config.attentionGroups := List.filter_eq_self.mpr fun e _ => by simp [hnone]
  have hlower : ∀ e ∈ kv.config.attentionGroups, ∀ m ≤ maxLength,
      kv.hitLength blockHashes e m ≤ m := fun e _ m _ => kv.hitLength_le blockHashes e m
  have haligned : ∀ e ∈ kv.config.attentionGroups, keepsRows (fun _ => none) e = true →
      kv.config.lcmBlockSize ∣ maxLength := fun e _ hk => by simp [hnone] at hk
  obtain ⟨hits, hpass, hstages, -⟩ := h.hybridPass_eq hcover (fun _ he => he)
    kv.config.attentionGroups_disjoint (Nat.le_refl maxLength) haligned
    (hfilter.symm ▸ hanswers)
  rw [hfilter] at hpass hstages
  have hle := lowered_le hlower
  -- the first pass looks everything up, so its result is aligned
  have hdvd : kv.config.lcmBlockSize ∣
      lowered (kv.hitLength blockHashes) kv.config.attentionGroups maxLength := by
    have hlookup : ∀ e ∈ kv.config.attentionGroups, ∀ m ≤ maxLength,
        kv.config.lcmBlockSize ∣ kv.hitLength blockHashes e m :=
      fun e he m hm => h.dvd_hitLength hcover he hm
    have htwo := h.two_groups
    generalize kv.config.attentionGroups = groups at htwo hlookup hlower
    cases groups with
    | nil => simp at htwo
    | cons e groups =>
      have he := hlower e List.mem_cons_self _ (Nat.le_refl _)
      rw [lowered]
      exact lowered_induction
        (fun e' he' m hm => hlower e' (List.mem_cons_of_mem _ he') m (hm.trans he))
        (hlookup e List.mem_cons_self _ (Nat.le_refl _))
        fun e' he' m hm => hlookup e' (List.mem_cons_of_mem _ he') m (hm.trans he)
  generalize hcurr : lowered (kv.hitLength blockHashes) kv.config.attentionGroups maxLength =
    curr at hpass hle hdvd
  by_cases hstop : maxLength ≤ curr
  · obtain rfl : maxLength = curr := Nat.le_antisymm hstop hle
    have hall := eq_of_le_lowered hlower hcurr.ge
    refine ⟨_, hits, fun fuel hfuel => ?_, Nat.le_refl _, hdvd, .kept rfl fun e he =>
      ⟨hall e he, hstages (e, _) (mem_stages_of_eq hall he)⟩⟩
    obtain ⟨fuel, rfl⟩ := Nat.exists_eq_add_of_lt hfuel
    rw [hybridLoop, hpass]
    simp only [bind, Except.bind, if_pos hstop, pure, Except.pure]
  · cases hsimple : kv.config.isSimpleHybrid with
    | true =>
      obtain ⟨e₁, e₂, hgroups, hfull⟩ := isSimpleHybrid_iff.mp hsimple
      refine ⟨curr, hits, fun fuel hfuel => ?_, hle, hdvd, .simple e₁ e₂ hgroups hfull ?_ ?_ ?_⟩
      · obtain ⟨fuel, rfl⟩ := Nat.exists_eq_add_of_lt hfuel
        rw [hybridLoop, hpass]
        simp only [bind, Except.bind, if_neg hstop, hsimple, if_true, pure, Except.pure]
      · exact hstages (e₁, _) (by rw [hgroups, stages]; exact List.mem_cons_self)
      · refine hstages (e₂, _) ?_
        rw [hgroups, stages, stages]
        exact List.mem_cons_of_mem _ List.mem_cons_self
      · rw [← hcurr, hgroups]
        rfl
    | false =>
      have hfull : ∀ e ∈ kv.config.attentionGroups, keepsRows hits e = e.1.isFullAttention := by
        intro e he
        obtain ⟨n, hn⟩ := exists_stage (kv.hitLength blockHashes) maxLength he
        exact (hstages (e, n) hn).keepsRows_eq he
      obtain ⟨m, hits', hloop, hm, hlcm, hother, hsame, hkept⟩ :=
        h.hybridLoop_later hcover hsimple hle hdvd hfull
          fun e he m hm => h.answers_later hcover hanswers he (hcurr.symm ▸ hm)
      refine ⟨m, hits', fun fuel hfuel => ?_, hm.trans hle, hlcm, .later hsimple ?_ ?_ hother ?_⟩
      · obtain ⟨fuel, rfl⟩ := Nat.exists_eq_add_of_lt hfuel
        rw [hybridLoop, hpass]
        simp only [bind, Except.bind, if_neg hstop, hsimple, Bool.false_eq_true, if_false]
        exact hloop _ (by omega)
      · rw [hcurr]
        exact hm
      · intro e n hn hyes
        exact (hstages (e, n) hn).congr (hsame e (mem_of_mem_stages hn) hyes)
      · rw [hcurr]
        exact hkept

/-! ## One consistent length -/

/-- What the lookup returns: every group has a row of exactly the hit length, a multiple of all
block sizes, with cached blocks in its window. -/
structure ConsistentHit (kv : KVCacheManager H) (blockHashes : List H) (maxLength : Nat)
    (rows : List (List BlockId)) (hitLength : Nat) : Prop where
  rows_length : rows.length = kv.config.kvCacheGroups.length
  le_max : hitLength ≤ maxLength
  dvd : ∀ spec ∈ kv.config.kvCacheGroups, spec.blockSize ∣ hitLength
  rowAt : ∀ g spec, kv.config.kvCacheGroups[g]? = some spec →
    RowAt kv.blockPool blockHashes spec g hitLength (rows.getD g [])

/-- The lookup ends, however many passes it is allowed, and its result is consistent. -/
def ReturnsOneLength (kv : KVCacheManager H) (blockHashes : List H) (maxLength : Nat) : Prop :=
  ∃ rows hitLength, kv.findHybridHit blockHashes maxLength = .ok (rows, hitLength) ∧
    (∀ fuel, maxLength < fuel → kv.hybridLoop blockHashes fuel maxLength (fun _ => none) =
      kv.hybridLoop blockHashes (maxLength + 1) maxLength fun _ => none) ∧
    kv.ConsistentHit blockHashes maxLength rows hitLength

/-- The lookups make assertions about the specs. In the first pass, every attention group has a
spec that meets them, or at the length it is handed its lookup finds nothing. -/
def LookupsAnswer (kv : KVCacheManager H) (blockHashes : List H) (maxLength : Nat) : Prop :=
  ∀ e n, (e, n) ∈ stages (kv.hitLength blockHashes) kv.config.attentionGroups maxLength →
    e.1.LookupSupported kv.config.useEagle kv.config.lcmBlockSize ∨
      findLongestCacheHit e.1 kv.blockPool blockHashes n e.2 kv.config.useEagle
        kv.config.lcmBlockSize = .ok (e.2.map fun _ => [])

/-- No attention group behind a second full-attention spec lowers the length that the first two
full-attention specs find. -/
def SecondFullKept (kv : KVCacheManager H) (blockHashes : List H) (maxLength : Nat) : Prop :=
  ∀ e₁ e₂ rest, kv.config.attentionGroups = e₁ :: e₂ :: rest → e₂.1.isFullAttention = true →
    ∀ e ∈ rest, kv.hitLength blockHashes e
        (kv.hitLength blockHashes e₂ (kv.hitLength blockHashes e₁ maxLength)) =
      kv.hitLength blockHashes e₂ (kv.hitLength blockHashes e₁ maxLength)

/-- In a configuration of full attention and chunked local attention, the start of the last
chunk is covered at the length that full attention finds. -/
def LastChunkCovered (kv : KVCacheManager H) (blockHashes : List H) (maxLength : Nat) : Prop :=
  ∀ e₁ e₂ chunk, kv.config.attentionGroups = [e₁, e₂] → e₁.1.isFullAttention = true →
    e₂.1.kind = .chunkedLocal chunk →
      kv.ChunkStartCovered blockHashes e₂ (kv.hitLength blockHashes e₁ maxLength)

/-- The rows after the first full-attention spec is cut to the final length. -/
def cutRows (kv : KVCacheManager H) (m : Nat) (hits : Nat → Option (List BlockId)) :
    Nat → Option (List BlockId) :=
  match kv.config.attentionGroups.head? with
  | some (spec, groupIds) =>
    if spec.isFullAttention then fun groupId =>
      if groupId ∈ groupIds then (hits groupId).map (List.take (m / spec.blockSize))
      else hits groupId
    else hits
  | none => hits

/-- What the lookup makes of a settled run. -/
theorem findHybridHit_eq {m : Nat}
    (h : kv.hybridLoop blockHashes (maxLength + 1) maxLength (fun _ => none) = .ok (m, hits)) :
    kv.findHybridHit blockHashes maxLength =
      .ok ((List.range kv.config.kvCacheGroups.length).map
        fun groupId => (kv.cutRows m hits groupId).getD [], m) := by
  rw [findHybridHit, h]
  rfl

/-- The result is consistent when every row of every attention group is right. -/
theorem consistentHit_iff {m : Nat} (hm : m ≤ maxLength) (hdvd : kv.config.lcmBlockSize ∣ m)
    (hits : Nat → Option (List BlockId)) :
    kv.ConsistentHit blockHashes maxLength
        ((List.range kv.config.kvCacheGroups.length).map
          fun groupId => (kv.cutRows m hits groupId).getD []) m ↔
      ∀ e ∈ kv.config.attentionGroups, ∀ g ∈ e.2,
        RowAt kv.blockPool blockHashes e.1 g m ((kv.cutRows m hits g).getD []) := by
  have hrow (g : Nat) (hg : g < kv.config.kvCacheGroups.length) :
      ((List.range kv.config.kvCacheGroups.length).map
        fun groupId => (kv.cutRows m hits groupId).getD []).getD g [] =
      (kv.cutRows m hits g).getD [] := by
    rw [List.getD_eq_getElem?_getD, List.getElem?_map, List.getElem?_range hg]
    rfl
  constructor
  · intro h e he g hg
    have hspec := KVCacheConfig.groups_of_attentionGroups he hg
    rw [← hrow g (List.getElem?_eq_some_iff.mp hspec).1]
    exact h.rowAt g e.1 hspec
  · intro h
    refine ⟨by simp, hm, fun spec hspec => ?_, fun g spec hspec => ?_⟩
    · obtain ⟨g, hg⟩ := List.mem_iff_getElem?.mp hspec
      obtain ⟨e, he, rfl, -⟩ := KVCacheConfig.attentionGroups_of_group hg
      exact (KVCacheConfig.blockSize_dvd_lcm he).trans hdvd
    · obtain ⟨e, he, rfl, hg⟩ := KVCacheConfig.attentionGroups_of_group hspec
      rw [hrow g (List.getElem?_eq_some_iff.mp hspec).1]
      exact h e he g hg

section Cut

variable {e e₁ : KVCacheSpec × List Nat} {rest : List (KVCacheSpec × List Nat)} {m n g : Nat}
  {hits : Nat → Option (List BlockId)}

/-- The rows of the first attention group are cut when it is of full attention. -/
theorem cutRows_first (hgroups : kv.config.attentionGroups = e₁ :: rest)
    (hfull : e₁.1.isFullAttention = true) (hg : g ∈ e₁.2) :
    kv.cutRows m hits g = (hits g).map (List.take (m / e₁.1.blockSize)) := by
  simp only [cutRows, hgroups, List.head?_cons, hfull, if_true, if_pos hg]

/-- Nothing is cut when the first attention group is not of full attention. -/
theorem cutRows_of_not_full (hgroups : kv.config.attentionGroups = e₁ :: rest)
    (hfull : e₁.1.isFullAttention = false) : kv.cutRows m hits = hits := by
  simp only [cutRows, hgroups, List.head?_cons, hfull, Bool.false_eq_true, if_false]

/-- The rows of the other attention groups are not cut. -/
theorem cutRows_rest (hgroups : kv.config.attentionGroups = e₁ :: rest) (he : e ∈ rest)
    (hg : g ∈ e.2) : kv.cutRows m hits g = hits g := by
  have hdisjoint := kv.config.attentionGroups_disjoint
  rw [hgroups] at hdisjoint
  have hnot : g ∉ e₁.2 := fun hmem => (List.pairwise_cons.mp hdisjoint).1 e he g hmem hg
  cases hfull : e₁.1.isFullAttention with
  | false => rw [cutRows_of_not_full hgroups hfull]
  | true => simp only [cutRows, hgroups, List.head?_cons, hfull, if_true, if_neg hnot]

/-- The rows of an attention group that keeps the final length are right. -/
theorem HoldsLookup.rowAt_cut_of_kept (h : kv.HybridAccepted) (hnull : NullUncached kv.blockPool)
    (hcover : maxLength / kv.blockPool.hashBlockSize ≤ blockHashes.length)
    (hgroups : kv.config.attentionGroups = e₁ :: rest) (he : e ∈ kv.config.attentionGroups)
    (hm : m ≤ maxLength) (hold : kv.HoldsLookup blockHashes hits e m)
    (hkept : kv.hitLength blockHashes e m = m) (hg : g ∈ e.2) :
    RowAt kv.blockPool blockHashes e.1 g m ((kv.cutRows m hits g).getD []) := by
  obtain ⟨row, hget, hrow⟩ := hold.rowAt_of_kept h hnull hcover he hm hkept hg
  have hsame : kv.cutRows m hits g = some row := by
    rw [hgroups] at he
    rcases List.mem_cons.mp he with rfl | he
    · cases hfull : e.1.isFullAttention with
      | false => rw [cutRows_of_not_full hgroups hfull, hget]
      | true =>
        rw [cutRows_first hgroups hfull hg, hget, Option.map_some, ← hrow.length_eq,
          List.take_length]
    · rw [cutRows_rest hgroups he hg, hget]
  rwa [hsame]

/-- The rows of the first attention group are right if it is of full attention. -/
theorem HoldsLookup.rowAt_cut_first (h : kv.HybridAccepted) (hnull : NullUncached kv.blockPool)
    (hcover : maxLength / kv.blockPool.hashBlockSize ≤ blockHashes.length)
    (hgroups : kv.config.attentionGroups = e₁ :: rest) (hfull : e₁.1.isFullAttention = true)
    (hn : n ≤ maxLength) (hold : kv.HoldsLookup blockHashes hits e₁ n)
    (hdvd : kv.config.lcmBlockSize ∣ m) (hm : m ≤ kv.hitLength blockHashes e₁ n)
    (hg : g ∈ e₁.2) :
    RowAt kv.blockPool blockHashes e₁.1 g m ((kv.cutRows m hits g).getD []) := by
  have he : e₁ ∈ kv.config.attentionGroups := by simp [hgroups]
  obtain ⟨row, hget, hlen, hfilled⟩ := hold.row h hcover he hn hg
  rw [cutRows_first hgroups hfull hg, hget]
  exact hfilled.rowAt_take hfull hnull ((KVCacheConfig.blockSize_dvd_lcm he).trans hdvd)
    (hlen ▸ hm)

/-- The rows of another full-attention spec are right exactly when its lookup found the final
length, because they are not cut. -/
theorem HoldsLookup.rowAt_cut_rest_iff (h : kv.HybridAccepted) (hnull : NullUncached kv.blockPool)
    (hcover : maxLength / kv.blockPool.hashBlockSize ≤ blockHashes.length)
    (hgroups : kv.config.attentionGroups = e₁ :: rest) (he : e ∈ rest)
    (hfull : e.1.isFullAttention = true) (hn : n ≤ maxLength)
    (hold : kv.HoldsLookup blockHashes hits e n) (hdvd : kv.config.lcmBlockSize ∣ m) :
    (∀ g ∈ e.2, RowAt kv.blockPool blockHashes e.1 g m ((kv.cutRows m hits g).getD [])) ↔
      kv.hitLength blockHashes e n = m := by
  have he' : e ∈ kv.config.attentionGroups := by simp [hgroups, he]
  have hdvd' := (KVCacheConfig.blockSize_dvd_lcm he').trans hdvd
  constructor
  · intro hall
    obtain ⟨g, hg⟩ := List.exists_mem_of_ne_nil _ (KVCacheConfig.attentionGroups_ids he')
    obtain ⟨row, hget, hlen, -⟩ := hold.row h hcover he' hn hg
    have hrow := (hall g hg).length_eq
    rw [cutRows_rest hgroups he hg, hget, Option.getD_some] at hrow
    rw [← hlen, hrow, Nat.div_mul_cancel hdvd']
  · intro hlength g hg
    obtain ⟨row, hget, hlen, hfilled⟩ := hold.row h hcover he' hn hg
    rw [hlength] at hlen
    have hrow := hfilled.rowAt_take hfull hnull hdvd' hlen.ge
    rw [← hlen, Nat.mul_div_cancel _ e.1.blockSize_pos, List.take_length, hlen] at hrow
    rwa [cutRows_rest hgroups he hg, hget]

end Cut

section Cases

variable {e₁ e₂ : KVCacheSpec × List Nat} {rest : List (KVCacheSpec × List Nat)} {m : Nat}
  {hits : Nat → Option (List BlockId)}

/-- Every row of every attention group is right at the final length. -/
def RowsAt (kv : KVCacheManager H) (blockHashes : List H) (m : Nat)
    (hits : Nat → Option (List BlockId)) : Prop :=
  ∀ e ∈ kv.config.attentionGroups, ∀ g ∈ e.2,
    RowAt kv.blockPool blockHashes e.1 g m ((kv.cutRows m hits g).getD [])

/-- A length that every attention group keeps: all rows are right, and nothing was lowered. -/
theorem HybridAccepted.rowsAt_kept (h : kv.HybridAccepted) (hnull : NullUncached kv.blockPool)
    (hcover : maxLength / kv.blockPool.hashBlockSize ≤ blockHashes.length)
    (hdvd : kv.config.lcmBlockSize ∣ maxLength)
    (hall : ∀ e ∈ kv.config.attentionGroups, kv.hitLength blockHashes e maxLength = maxLength ∧
      kv.HoldsLookup blockHashes hits e maxLength) :
    kv.RowsAt blockHashes maxLength hits ∧ kv.SecondFullKept blockHashes maxLength ∧
      kv.LastChunkCovered blockHashes maxLength := by
  refine ⟨fun e he g hg => ?_, fun e₁ e₂ rest hgroups _ e he => ?_,
    fun e₁ e₂ chunk hgroups _ hkind => ?_⟩
  · have htwo := h.two_groups
    cases hgroups : kv.config.attentionGroups with
    | nil => simp [hgroups] at htwo
    | cons e₁ rest =>
      exact (hall e he).2.rowAt_cut_of_kept h hnull hcover hgroups he (Nat.le_refl _)
        (hall e he).1 hg
  · rw [(hall e₁ (by simp [hgroups])).1, (hall e₂ (by simp [hgroups])).1,
      (hall e (by simp [hgroups, he])).1]
  · have he₂ : e₂ ∈ kv.config.attentionGroups := by simp [hgroups]
    have hkept := hall e₂ he₂
    rw [(hall e₁ (by simp [hgroups])).1]
    refine (hkept.2.rowAt_chunked_iff h hnull hcover he₂ hkind (Nat.le_refl _)
      ((KVCacheConfig.blockSize_dvd_lcm he₂).trans hdvd)).mp fun g hg => ?_
    rw [hkept.1]
    exact hkept.2.rowAt_of_kept h hnull hcover he₂ (Nat.le_refl _) hkept.1 hg

/-- The single pass of a simple hybrid: only the start of the last chunk can be missed. -/
theorem HybridAccepted.rowsAt_simple_iff (h : kv.HybridAccepted)
    (hnull : NullUncached kv.blockPool)
    (hcover : maxLength / kv.blockPool.hashBlockSize ≤ blockHashes.length)
    (hgroups : kv.config.attentionGroups = [e₁, e₂]) (hfull : e₁.1.isFullAttention = true)
    (h₁ : kv.HoldsLookup blockHashes hits e₁ maxLength)
    (h₂ : kv.HoldsLookup blockHashes hits e₂ (kv.hitLength blockHashes e₁ maxLength))
    (hm : m = kv.hitLength blockHashes e₂ (kv.hitLength blockHashes e₁ maxLength)) :
    kv.RowsAt blockHashes m hits ↔
      kv.SecondFullKept blockHashes maxLength ∧ kv.LastChunkCovered blockHashes maxLength := by
  have he₁ : e₁ ∈ kv.config.attentionGroups := by simp [hgroups]
  have he₂ : e₂ ∈ kv.config.attentionGroups := by simp [hgroups]
  have hle₁ := kv.hitLength_le blockHashes e₁ maxLength
  have hdvd₁ := h.dvd_hitLength hcover he₁ (Nat.le_refl maxLength)
  have hle₂ := kv.hitLength_le blockHashes e₂ (kv.hitLength blockHashes e₁ maxLength)
  have hdvd₂ := h.dvd_hitLength hcover he₂ hle₁
  rw [← hm] at hle₂ hdvd₂
  have hfirst : ∀ g ∈ e₁.2,
      RowAt kv.blockPool blockHashes e₁.1 g m ((kv.cutRows m hits g).getD []) := fun g hg =>
    h₁.rowAt_cut_first h hnull hcover hgroups hfull (Nat.le_refl _) hdvd₂ hle₂ hg
  have hrows : kv.RowsAt blockHashes m hits ↔ ∀ g ∈ e₂.2, ∃ row, hits g = some row ∧
      RowAt kv.blockPool blockHashes e₂.1 g m row := by
    constructor
    · intro hall g hg
      obtain ⟨row, hget, -⟩ := h₂.row h hcover he₂ hle₁ hg
      have hrow := hall e₂ he₂ g hg
      rw [cutRows_rest hgroups List.mem_cons_self hg, hget] at hrow
      exact ⟨row, hget, hrow⟩
    · intro hall e he g hg
      rw [hgroups] at he
      rcases List.mem_cons.mp he with rfl | he
      · exact hfirst g hg
      · obtain rfl := List.mem_singleton.mp he
        obtain ⟨row, hget, hrow⟩ := hall g hg
        rwa [cutRows_rest hgroups List.mem_cons_self hg, hget]
  have hsecond : kv.SecondFullKept blockHashes maxLength := by
    intro a b rest hab _ e he
    obtain ⟨-, hab⟩ := List.cons.inj (hgroups.symm.trans hab)
    obtain ⟨-, rfl⟩ := List.cons.inj hab
    cases he
  have hlast : kv.LastChunkCovered blockHashes maxLength ↔ ∀ chunk,
      e₂.1.kind = .chunkedLocal chunk →
        kv.ChunkStartCovered blockHashes e₂ (kv.hitLength blockHashes e₁ maxLength) := by
    constructor
    · intro hcovered chunk
      exact hcovered e₁ e₂ chunk hgroups hfull
    · intro hcovered a b chunk hab _
      obtain ⟨rfl, hrest⟩ := List.cons.inj (hgroups.symm.trans hab)
      obtain ⟨rfl, -⟩ := List.cons.inj hrest
      exact hcovered chunk
  rw [hrows, hlast, and_iff_right hsecond]
  by_cases hchunked : ∃ chunk, e₂.1.kind = .chunkedLocal chunk
  · obtain ⟨chunk, hkind⟩ := hchunked
    rw [hm, h₂.rowAt_chunked_iff h hnull hcover he₂ hkind hle₁
      ((KVCacheConfig.blockSize_dvd_lcm he₂).trans hdvd₁)]
    exact ⟨fun hcovered _ _ => hcovered, fun hcovered => hcovered chunk hkind⟩
  · rw [not_exists] at hchunked
    refine ⟨fun _ chunk hkind => absurd hkind (hchunked chunk), fun _ g hg => ?_⟩
    obtain ⟨row, hget, hlen, hfilled⟩ := h₂.row h hcover he₂ hle₁ hg
    rw [← hm] at hlen
    rw [firstFilled_of_not_chunked hchunked hlen] at hfilled
    exact ⟨row, hget, hfilled.rowAt hnull hlen⟩

private theorem secondFullKept_iff (hgroups : kv.config.attentionGroups = e₁ :: e₂ :: rest) :
    kv.SecondFullKept blockHashes maxLength ↔
      (e₂.1.isFullAttention = true → ∀ e ∈ rest, kv.hitLength blockHashes e
          (kv.hitLength blockHashes e₂ (kv.hitLength blockHashes e₁ maxLength)) =
        kv.hitLength blockHashes e₂ (kv.hitLength blockHashes e₁ maxLength)) := by
  constructor
  · intro hsecond
    exact hsecond e₁ e₂ rest hgroups
  · intro hsecond a b rest' hab
    obtain ⟨rfl, htail⟩ := List.cons.inj (hgroups.symm.trans hab)
    obtain ⟨rfl, rfl⟩ := List.cons.inj htail
    exact hsecond

/-- After later passes, only a second full-attention spec can have rows that are too long. -/
theorem HybridAccepted.rowsAt_later_iff (h : kv.HybridAccepted)
    (hnull : NullUncached kv.blockPool)
    (hcover : maxLength / kv.blockPool.hashBlockSize ≤ blockHashes.length)
    (hgroups : kv.config.attentionGroups = e₁ :: e₂ :: rest)
    (hsimple : kv.config.isSimpleHybrid = false) (hm : m ≤ maxLength)
    (hdvd : kv.config.lcmBlockSize ∣ m)
    (hle : m ≤ lowered (kv.hitLength blockHashes) kv.config.attentionGroups maxLength)
    (hstages : ∀ e n, (e, n) ∈ stages (kv.hitLength blockHashes) kv.config.attentionGroups
      maxLength → e.1.isFullAttention = true → kv.HoldsLookup blockHashes hits e n)
    (hother : ∀ e ∈ kv.config.attentionGroups, e.1.isFullAttention = false →
      kv.hitLength blockHashes e m = m ∧ kv.HoldsLookup blockHashes hits e m)
    (hkept : (∀ e ∈ kv.config.attentionGroups, e.1.isFullAttention = false →
      kv.hitLength blockHashes e
          (lowered (kv.hitLength blockHashes) kv.config.attentionGroups maxLength) =
        lowered (kv.hitLength blockHashes) kv.config.attentionGroups maxLength) →
      m = lowered (kv.hitLength blockHashes) kv.config.attentionGroups maxLength) :
    kv.RowsAt blockHashes m hits ↔
      kv.SecondFullKept blockHashes maxLength ∧ kv.LastChunkCovered blockHashes maxLength := by
  have hlower : ∀ e ∈ kv.config.attentionGroups, ∀ n ≤ maxLength,
      kv.hitLength blockHashes e n ≤ n := fun e _ n _ => kv.hitLength_le blockHashes e n
  have hlast : kv.LastChunkCovered blockHashes maxLength := by
    intro a b chunk hab hfull
    rw [isSimpleHybrid_iff.mpr ⟨a, b, hab, hfull⟩] at hsimple
    cases hsimple
  rw [and_iff_left hlast]
  -- in the first pass the second attention group is handed what the first one finds
  have he₁ : e₁ ∈ kv.config.attentionGroups := by simp [hgroups]
  have he₂ : e₂ ∈ kv.config.attentionGroups := by simp [hgroups]
  have hstage₁ : (e₁, maxLength) ∈
      stages (kv.hitLength blockHashes) kv.config.attentionGroups maxLength := by
    rw [hgroups, stages]
    exact List.mem_cons_self
  have hstage₂ : (e₂, kv.hitLength blockHashes e₁ maxLength) ∈
      stages (kv.hitLength blockHashes) kv.config.attentionGroups maxLength := by
    rw [hgroups, stages, stages]
    exact List.mem_cons_of_mem _ List.mem_cons_self
  have hle₁ := hlower e₁ he₁ _ (Nat.le_refl _)
  have hle₂ := hlower e₂ he₂ _ hle₁
  have hlowered : lowered (kv.hitLength blockHashes) kv.config.attentionGroups maxLength =
      lowered (kv.hitLength blockHashes) rest
        (kv.hitLength blockHashes e₂ (kv.hitLength blockHashes e₁ maxLength)) := by
    rw [hgroups]
    rfl
  rw [secondFullKept_iff hgroups]
  have hstaged : ∀ e n, (e, n) ∈ stages (kv.hitLength blockHashes) rest
      (kv.hitLength blockHashes e₂ (kv.hitLength blockHashes e₁ maxLength)) →
        e.1.isFullAttention = true → kv.HoldsLookup blockHashes hits e n := by
    intro e n hn
    refine hstages e n ?_
    rw [hgroups, stages, stages]
    exact List.mem_cons_of_mem _ (List.mem_cons_of_mem _ hn)
  generalize hf₂ : kv.hitLength blockHashes e₂ (kv.hitLength blockHashes e₁ maxLength) = f₂ at *
  have hrest : ∀ e ∈ rest, ∀ n ≤ f₂, kv.hitLength blockHashes e n ≤ n := fun e he n hn =>
    hlower e (by simp [hgroups, he]) n (hn.trans (hle₂.trans hle₁))
  rw [hlowered] at hle hkept
  constructor
  · intro hrows hfull
    have hlength := ((hstages e₂ _ hstage₂ hfull).rowAt_cut_rest_iff h hnull hcover hgroups
      List.mem_cons_self hfull hle₁ hdvd).mp (hrows e₂ he₂)
    exact eq_of_le_lowered hrest ((hf₂.symm.trans hlength).le.trans hle)
  · intro hsecond e he g hg
    have hsorted := kv.config.attentionGroups_sorted
    rw [hgroups] at hsorted
    obtain ⟨hsorted₁, hsorted⟩ := List.pairwise_cons.mp hsorted
    obtain ⟨hsorted₂, -⟩ := List.pairwise_cons.mp hsorted
    cases hfull : e.1.isFullAttention with
    | false =>
      obtain ⟨hsame, hold⟩ := hother e he hfull
      exact hold.rowAt_cut_of_kept h hnull hcover hgroups he hm hsame hg
    | true =>
      rw [hgroups] at he
      rcases List.mem_cons.mp he with rfl | he'
      · exact (hstages e _ hstage₁ hfull).rowAt_cut_first h hnull hcover hgroups hfull
          (Nat.le_refl _) hdvd (hle.trans ((lowered_le hrest).trans hle₂)) hg
      · -- behind the first one, so all attention groups but the first two keep the length
        have hfull₂ : e₂.1.isFullAttention = true := by
          rcases List.mem_cons.mp he' with rfl | he''
          · exact hfull
          · exact hsorted₂ e he'' hfull
        have hkeep := hsecond hfull₂
        have hf : lowered (kv.hitLength blockHashes) rest f₂ = f₂ := lowered_eq hkeep
        have hmf : m = f₂ := by
          refine (hkept fun e' he₀ hnot => ?_).trans hf
          rw [hf]
          rw [hgroups] at he₀
          rcases List.mem_cons.mp he₀ with rfl | he₀
          · exact absurd (hsorted₁ e₂ List.mem_cons_self hfull₂) (by simp [hnot])
          · rcases List.mem_cons.mp he₀ with rfl | he₀
            · exact absurd hfull₂ (by simp [hnot])
            · exact hkeep e' he₀
        rcases List.mem_cons.mp he' with rfl | he''
        · exact ((hstages e _ hstage₂ hfull).rowAt_cut_rest_iff h hnull hcover hgroups he' hfull
            hle₁ hdvd).mpr (hf₂.trans hmf.symm) g hg
        · exact ((hstaged e f₂ (mem_stages_of_eq hkeep he'') hfull).rowAt_cut_rest_iff h hnull
            hcover hgroups he' hfull (hle₂.trans hle₁) hdvd).mpr ((hkeep e he'').trans hmf.symm)
            g hg

end Cases

/-- The first pass comes to an end exactly when its lookups answer. -/
theorem HybridAccepted.lookupsAnswer_iff (h : kv.HybridAccepted)
    (hcover : maxLength / kv.blockPool.hashBlockSize ≤ blockHashes.length) :
    kv.LookupsAnswer blockHashes maxLength ↔
      ∀ e ∈ stages (kv.hitLength blockHashes) kv.config.attentionGroups maxLength,
        kv.Answers blockHashes e.1 e.2 := by
  have hlower : ∀ e ∈ kv.config.attentionGroups, ∀ n ≤ maxLength,
      kv.hitLength blockHashes e n ≤ n := fun e _ n _ => kv.hitLength_le blockHashes e n
  constructor
  · rintro hanswer ⟨e, n⟩ hstage
    rcases hanswer e n hstage with hsupported | hnil
    · obtain ⟨rows, _, hrows, -⟩ := findLongestCacheHit_filled e.2 hsupported
        (h.hashesCover hcover (mem_of_mem_stages hstage) (le_of_mem_stages hlower hstage).1)
      exact ⟨rows, hrows⟩
    · exact ⟨_, hnil⟩
  · intro hanswers e n hstage
    obtain ⟨rows, hrows⟩ := hanswers _ hstage
    rcases lookupSupported_or_nil hrows with hsupported | ⟨-, rfl⟩
    · exact Or.inl hsupported
    · exact Or.inr hrows

/-- The hybrid lookup ends and returns one consistent length exactly when no lookup of its first
pass fails, no attention group behind a second full-attention spec lowers the length that the
first two full-attention specs find, and the last chunk beside a single full-attention spec is
covered. -/
theorem HybridAccepted.returnsOneLength_iff (h : kv.HybridAccepted)
    (hnull : NullUncached kv.blockPool)
    (hcover : maxLength / kv.blockPool.hashBlockSize ≤ blockHashes.length) :
    kv.ReturnsOneLength blockHashes maxLength ↔ kv.LookupsAnswer blockHashes maxLength ∧
      kv.SecondFullKept blockHashes maxLength ∧ kv.LastChunkCovered blockHashes maxLength := by
  rw [h.lookupsAnswer_iff hcover]
  by_cases hanswers : ∀ e ∈ stages (kv.hitLength blockHashes) kv.config.attentionGroups maxLength,
      kv.Answers blockHashes e.1 e.2
  swap
  · -- a lookup fails, and the pass with it
    refine ⟨fun hreturns => absurd ?_ hanswers, fun hright => absurd hright.1 hanswers⟩
    obtain ⟨rows, hitLength, hrun, -⟩ := hreturns
    obtain ⟨⟨m, hits⟩, hloop, -⟩ := bind_ok_iff.mp hrun
    rw [hybridLoop] at hloop
    obtain ⟨⟨curr, hits'⟩, hpass, -⟩ := bind_ok_iff.mp hloop
    exact answers_of_hybridPass (fun _ _ _ _ => rfl) kv.config.attentionGroups_disjoint hpass
  rw [and_iff_right hanswers]
  obtain ⟨m, hits, hloop, hm, hdvd, hsettled⟩ := h.hybridLoop_settles hcover hanswers
  have hrun := findHybridHit_eq (hloop _ (Nat.lt_succ_self _))
  have hreturns : kv.ReturnsOneLength blockHashes maxLength ↔ kv.RowsAt blockHashes m hits := by
    rw [RowsAt, ← consistentHit_iff hm hdvd]
    constructor
    · rintro ⟨rows, hitLength, hrun', -, hconsistent⟩
      obtain ⟨rfl, rfl⟩ := Prod.mk.inj (Except.ok.inj (hrun.symm.trans hrun'))
      exact hconsistent
    · intro hconsistent
      refine ⟨_, m, hrun, fun fuel hfuel => ?_, hconsistent⟩
      rw [hloop fuel hfuel, hloop _ (Nat.lt_succ_self _)]
  rw [hreturns]
  cases hsettled with
  | kept hm' hall =>
    subst hm'
    obtain ⟨hrows, hright⟩ := h.rowsAt_kept hnull hcover hdvd hall
    exact ⟨fun _ => hright, fun _ => hrows⟩
  | simple e₁ e₂ hgroups hfull h₁ h₂ hm' =>
    exact h.rowsAt_simple_iff hnull hcover hgroups hfull h₁ h₂ hm'
  | later hsimple hle hstages hother hkept =>
    have htwo := h.two_groups
    rcases hgroups : kv.config.attentionGroups with _ | ⟨e₁, _ | ⟨e₂, rest⟩⟩
    · simp [hgroups] at htwo
    · simp [hgroups] at htwo
    · exact h.rowsAt_later_iff hnull hcover hgroups hsimple hm hdvd hle hstages hother hkept

/-! ## Two full-attention specs and a sliding window -/

/-- Full attention with blocks of one token, full attention with blocks of two, and a sliding
window of two tokens. -/
def threeSpecs : KVCacheConfig where
  kvCacheGroups :=
    [{ kind := .fullAttention, blockSize := 1, blockSize_pos := Nat.one_pos,
        kind_valid := trivial },
      { kind := .fullAttention, blockSize := 2, blockSize_pos := Nat.two_pos,
        kind_valid := trivial },
      { kind := .slidingWindow 2, blockSize := 1, blockSize_pos := Nat.one_pos,
        kind_valid := Nat.two_pos }]
  numBlocks := 16
  hashBlockSize := 1
  maxModelLen := 8

/-- All four tokens are cached for full attention; for the sliding window those listed are. -/
def threeSpecsPool (windowBlocks : List (Nat × BlockId)) : BlockPool Nat :=
  pooled ([(⟨[10], 0⟩, 1), (⟨[11], 0⟩, 2), (⟨[12], 0⟩, 3), (⟨[13], 0⟩, 4),
      (⟨[10, 11], 1⟩, 5), (⟨[12, 13], 1⟩, 6)] ++
    windowBlocks.map fun e => (⟨[e.1], 2⟩, e.2))

/-- The manager of the three specs. -/
def threeSpecsManager (windowBlocks : List (Nat × BlockId)) : KVCacheManager Nat where
  config := threeSpecs
  blockPool := threeSpecsPool windowBlocks
  singleTypeManagers := threeSpecs.kvCacheGroups.zipIdx.map fun g =>
    { kvCacheSpec := g.1, kvCacheGroupId := g.2 }

/-- The configuration is accepted. -/
theorem hybridAccepted_threeSpecs (windowBlocks : List (Nat × BlockId)) :
    (threeSpecsManager windowBlocks).HybridAccepted where
  two_groups := by
    change 1 < threeSpecs.attentionGroups.length
    decide
  hashBlockSize_dvd spec _ := Nat.one_dvd _

/-- Where the window has the last block, all groups agree on four tokens. -/
theorem returnsOneLength_threeSpecs :
    (threeSpecsManager [(13, 7)]).ReturnsOneLength [10, 11, 12, 13] 4 := by
  have hnull : NullUncached (threeSpecsManager [(13, 7)]).blockPool :=
    nullUncached_pooled (by decide)
  have hthree : (threeSpecsManager [(13, 7)]).config.attentionGroups =
      [({ kind := .fullAttention, blockSize := 1 }, [0]),
        ({ kind := .fullAttention, blockSize := 2 }, [1]),
        ({ kind := .slidingWindow 2, blockSize := 1 }, [2])] := by decide
  refine ((hybridAccepted_threeSpecs _).returnsOneLength_iff hnull (by decide)).mpr ⟨?_, ?_, ?_⟩
  · intro e n hstage
    have he := mem_of_mem_stages hstage
    rw [hthree] at he
    left
    simp only [List.mem_cons, List.not_mem_nil, or_false] at he
    rcases he with rfl | rfl | rfl
    · trivial
    · trivial
    · exact fun heagle => absurd heagle (by decide)
  · intro e₁ e₂ rest hgroups _ e he
    obtain ⟨rfl, htail⟩ := List.cons.inj (hthree.symm.trans hgroups)
    obtain ⟨rfl, rfl⟩ := List.cons.inj htail
    obtain rfl := List.mem_singleton.mp he
    decide
  · intro e₁ e₂ chunk hgroups
    have hlength := congrArg List.length (hthree.symm.trans hgroups)
    simp at hlength

/-- Where the window has the second block only, the hit has two tokens, but the rows of the
second full-attention spec still cover four. -/
theorem secondFull_too_long : (threeSpecsManager [(11, 7)]).HybridAccepted ∧
    ¬ (threeSpecsManager [(11, 7)]).ReturnsOneLength [10, 11, 12, 13] 4 := by
  refine ⟨hybridAccepted_threeSpecs _, ?_⟩
  rintro ⟨rows, hitLength, hrun, -, hconsistent⟩
  have hrows : (threeSpecsManager [(11, 7)]).findHybridHit [10, 11, 12, 13] 4 =
      .ok ([[1, 2], [5, 6], [nullBlock, 7]], 2) := by decide
  obtain ⟨rfl, rfl⟩ := Prod.mk.inj (Except.ok.inj (hrows.symm.trans hrun))
  exact absurd (hconsistent.rowAt 1 { kind := .fullAttention, blockSize := 2 } rfl).length_eq
    (by decide)

end KVCacheManager

end Vllm
