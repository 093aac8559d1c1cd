import Vllm.Library.CycleWalk
import Mathlib.Data.List.Sort

/-!
# Sorting by moving misplaced entries only

Positions carry keys, and an ascending list says which key belongs where. The entries with the
wrong key, in a stable order of their keys, are sent to the positions with the wrong key, in
ascending order; all others stay. The dictionary of these moves permutes its keys.
-/

namespace RegionSort

open CycleWalk

/-- The dictionary that sends each of some keys to the value at the same place. -/
def zipDict (keys vals : List Nat) : Dict Nat Nat :=
  (keys.zip vals).foldl (fun d e => d.insert e.1 e.2) .empty

variable {keys vals : List Nat}

private theorem map_fst_zip_eq (hlen : keys.length = vals.length) :
    (keys.zip vals).map Prod.fst = keys :=
  List.map_fst_zip hlen.le

/-- The dictionary holds the pairs it is made of. -/
theorem get?_zipDict_eq_some_iff (hnodup : keys.Nodup) (hlen : keys.length = vals.length)
    {k v : Nat} : (zipDict keys vals).get? k = some v ↔ (k, v) ∈ keys.zip vals := by
  have hkeys : ((keys.zip vals).map Prod.fst).Nodup := by rwa [map_fst_zip_eq hlen]
  rw [zipDict, Dict.get?_foldl_insert _ hkeys, Dict.get?_empty, Option.or_none,
    Dict.findEntry_eq_some_iff hkeys]

/-- The keys, sent along, are the values. -/
theorem map_target_zipDict (hnodup : keys.Nodup) (hlen : keys.length = vals.length) :
    keys.map (target (zipDict keys vals)) = vals := by
  refine List.ext_getElem (by simpa using hlen) fun i hi hi' => ?_
  rw [List.length_map] at hi
  have hmem : (keys[i], vals[i]) ∈ keys.zip vals :=
    List.mem_of_getElem? (List.getElem?_zip_eq_some.mpr
      ⟨List.getElem?_eq_getElem hi, List.getElem?_eq_getElem hi'⟩)
  rw [List.getElem_map, target, (get?_zipDict_eq_some_iff hnodup hlen).mpr hmem]
  rfl

private theorem mem_keys_zipDict (hnodup : keys.Nodup) (hlen : keys.length = vals.length)
    {k : Nat} : k ∈ (zipDict keys vals).keys ↔ k ∈ keys := by
  rw [Dict.mem_keys]
  simp only [get?_zipDict_eq_some_iff hnodup hlen]
  constructor
  · rintro ⟨v, hv⟩
    exact (List.of_mem_zip hv).1
  · intro hk
    rw [← map_fst_zip_eq hlen] at hk
    obtain ⟨⟨k', v⟩, hv, rfl⟩ := List.mem_map.mp hk
    exact ⟨v, hv⟩

variable {n : Nat} {key want : Nat → Nat}

/-- The positions with the wrong key. -/
def misplaced (n : Nat) (key want : Nat → Nat) : List Nat :=
  (List.range n).filter fun i => key i ≠ want i

/-- The same positions, in a stable order of their keys. -/
def sources (n : Nat) (key want : Nat → Nat) : List Nat :=
  (misplaced n key want).insertionSort fun i j => key i ≤ key j

/-- Where the misplaced entries are sent. -/
def moves (n : Nat) (key want : Nat → Nat) : Dict Nat Nat :=
  zipDict (sources n key want) (misplaced n key want)

@[simp] theorem mem_misplaced {i : Nat} :
    i ∈ misplaced n key want ↔ i < n ∧ key i ≠ want i := by
  simp [misplaced]

private theorem pairwise_misplaced : (misplaced n key want).Pairwise (· < ·) :=
  List.pairwise_lt_range.filter _

private theorem nodup_misplaced : (misplaced n key want).Nodup :=
  pairwise_misplaced.imp Nat.ne_of_lt

private theorem sources_perm : (sources n key want).Perm (misplaced n key want) :=
  List.perm_insertionSort _ _

private theorem nodup_sources : (sources n key want).Nodup :=
  sources_perm.nodup_iff.mpr nodup_misplaced

/-- The moves send the sources to the misplaced positions, in order. -/
theorem map_target_moves :
    (sources n key want).map (target (moves n key want)) = misplaced n key want :=
  map_target_zipDict nodup_sources sources_perm.length_eq

theorem mem_keys_moves {i : Nat} :
    i ∈ (moves n key want).keys ↔ i ∈ misplaced n key want :=
  (mem_keys_zipDict nodup_sources sources_perm.length_eq).trans sources_perm.mem_iff

/-- A misplaced entry is sent to a misplaced position. -/
theorem target_moves_mem {i : Nat} (hi : i ∈ misplaced n key want) :
    target (moves n key want) i ∈ misplaced n key want := by
  rw [← map_target_moves]
  exact List.mem_map_of_mem (sources_perm.mem_iff.mpr hi)

/-- Different entries are sent to different positions. -/
theorem target_moves_inj {i j : Nat} (hi : i ∈ misplaced n key want)
    (hj : j ∈ misplaced n key want)
    (h : target (moves n key want) i = target (moves n key want) j) : i = j := by
  have hnodup : (misplaced n key want).Nodup := nodup_misplaced
  rw [← map_target_moves] at hnodup
  exact List.inj_on_of_nodup_map hnodup (sources_perm.mem_iff.mpr hi)
    (sources_perm.mem_iff.mpr hj) h

/-- When the keys are those wanted up to their order, so are the misplaced ones. -/
theorem map_misplaced_perm (hperm : ((List.range n).map key).Perm ((List.range n).map want)) :
    ((misplaced n key want).map key).Perm ((misplaced n key want).map want) := by
  have hsplit := List.filter_append_perm (fun i => decide (key i ≠ want i)) (List.range n)
  have hkey := (hsplit.map key).trans (hperm.trans (hsplit.map want).symm)
  have hrest : ((List.range n).filter fun i => !decide (key i ≠ want i)).map key =
      ((List.range n).filter fun i => !decide (key i ≠ want i)).map want := by
    refine List.map_congr_left fun i hi => ?_
    simpa using (List.mem_filter.mp hi).2
  rw [List.map_append, List.map_append, hrest, List.perm_append_right_iff] at hkey
  exact hkey

/-- The keys of the sources, in order, are those that the misplaced positions want. -/
theorem map_key_sources (hwant : ∀ i j, i ≤ j → j < n → want i ≤ want j)
    (hperm : ((List.range n).map key).Perm ((List.range n).map want)) :
    (sources n key want).map key = (misplaced n key want).map want := by
  have htotal : Std.Total fun i j => key i ≤ key j := ⟨fun i j => Nat.le_total _ _⟩
  have htrans : IsTrans Nat fun i j => key i ≤ key j := ⟨fun i j k => Nat.le_trans⟩
  have hsorted : ((sources n key want).map key).Pairwise (· ≤ ·) :=
    List.pairwise_map.mpr (List.pairwise_insertionSort _ _)
  have hwanted : ((misplaced n key want).map want).Pairwise (· ≤ ·) := by
    refine List.pairwise_map.mpr (pairwise_misplaced.imp_of_mem fun {i j} _ hj hij => ?_)
    exact hwant i j hij.le (mem_misplaced.mp hj).1
  exact ((sources_perm.map key).trans (map_misplaced_perm hperm)).eq_of_pairwise'
    hsorted hwanted

/-- Every misplaced entry is sent to a position that wants its key. -/
theorem key_eq_want_target (hwant : ∀ i j, i ≤ j → j < n → want i ≤ want j)
    (hperm : ((List.range n).map key).Perm ((List.range n).map want)) {i : Nat}
    (hi : i ∈ misplaced n key want) : key i = want (target (moves n key want) i) := by
  have hmap := map_key_sources hwant hperm
  conv_rhs at hmap => rw [← map_target_moves, List.map_map]
  exact List.map_inj_left.mp hmap i (sources_perm.mem_iff.mpr hi)

/-- Every misplaced position is sent an entry. -/
theorem exists_target_eq {p : Nat} (hp : p ∈ misplaced n key want) :
    ∃ i ∈ misplaced n key want, target (moves n key want) i = p := by
  rw [← map_target_moves] at hp
  obtain ⟨i, hi, rfl⟩ := List.mem_map.mp hp
  exact ⟨i, sources_perm.mem_iff.mp hi, rfl⟩

/-- The sources with a key come in their old order. -/
theorem filter_sources (c : Nat) :
    (sources n key want).filter (fun i => key i = c)
      = (misplaced n key want).filter fun i => key i = c := by
  have hsub : ((misplaced n key want).filter fun i => key i = c).Sublist
      (sources n key want) := by
    refine List.sublist_insertionSort ?_ List.filter_sublist
    refine List.pairwise_of_forall_mem_list fun i hi j hj => ?_
    have hi' := of_decide_eq_true (List.mem_filter.mp hi).2
    have hj' := of_decide_eq_true (List.mem_filter.mp hj).2
    omega
  have hsub' := hsub.filter fun i => key i = c
  simp only [List.filter_filter, Bool.and_self] at hsub'
  exact (hsub'.eq_of_length (sources_perm.filter _).length_eq.symm).symm

/-- The first position of a range that wants a key is sent the first entry with that key, if
it is misplaced. -/
theorem exists_first_target {c p : Nat} (hwant : ∀ i j, i ≤ j → j < n → want i ≤ want j)
    (hperm : ((List.range n).map key).Perm ((List.range n).map want))
    (hfrom : ∀ i < n, want i = c → p ≤ i) (hafter : ∀ i < n, p ≤ i → want i = c)
    (hp : p ∈ misplaced n key want) :
    ∃ a ∈ misplaced n key want, target (moves n key want) a = p ∧ key a = c ∧
      ∀ i < a, key i ≠ c := by
  have hsent : (misplaced n key want).filter (fun i => want i = c)
      = ((misplaced n key want).filter fun i => key i = c).map (target (moves n key want)) := by
    conv_lhs => rw [← map_target_moves, List.filter_map]
    rw [← filter_sources]
    refine congrArg (List.map _) (List.filter_congr fun i hi => ?_)
    rw [key_eq_want_target hwant hperm (sources_perm.mem_iff.mp hi)]
    rfl
  have hpn := (mem_misplaced.mp hp).1
  have hmem : p ∈ (misplaced n key want).filter fun i => want i = c :=
    List.mem_filter.mpr ⟨hp, decide_eq_true (hafter p hpn le_rfl)⟩
  cases hfilter : (misplaced n key want).filter fun i => key i = c with
  | nil =>
    rw [hsent, hfilter] at hmem
    cases hmem
  | cons a rest =>
    have ha : a ∈ (misplaced n key want).filter fun i => key i = c :=
      hfilter ▸ List.mem_cons_self
    obtain ⟨hamem, hakey⟩ := List.mem_filter.mp ha
    have hakey := of_decide_eq_true hakey
    have hpairwise : (misplaced n key want).Pairwise (· < ·) := pairwise_misplaced
    have hlt := hpairwise.filter fun i => key i = c
    have hlt' := hpairwise.filter fun i => want i = c
    rw [hfilter] at hlt hsent
    rw [hsent, List.map_cons] at hmem hlt'
    refine ⟨a, hamem, ?_, hakey, fun i hi hkey => ?_⟩
    · -- the first of the positions that want the key is the least of them
      have hwanted : target (moves n key want) a ∈
          (misplaced n key want).filter fun i => want i = c := by
        rw [hsent]
        exact List.mem_cons_self
      obtain ⟨htarget, hwantc⟩ := List.mem_filter.mp hwanted
      have hge := hfrom _ (mem_misplaced.mp htarget).1 (of_decide_eq_true hwantc)
      rcases List.mem_cons.mp hmem with heq | hmem
      · exact heq.symm
      · have := (List.pairwise_cons.mp hlt').1 p hmem
        omega
    · have han := (mem_misplaced.mp hamem).1
      by_cases hmis : key i = want i
      · have hpi := hfrom i (by omega) (hmis ▸ hkey)
        exact (mem_misplaced.mp hamem).2 (hakey.trans (hafter a han (by omega)).symm)
      · have himem : i ∈ (misplaced n key want).filter fun i => key i = c :=
          List.mem_filter.mpr ⟨mem_misplaced.mpr ⟨by omega, hmis⟩, decide_eq_true hkey⟩
        rw [hfilter] at himem
        rcases List.mem_cons.mp himem with rfl | himem
        · omega
        · have := (List.pairwise_cons.mp hlt).1 i himem
          omega

end RegionSort
