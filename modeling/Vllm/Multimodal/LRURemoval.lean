import Mathlib.Algebra.BigOperators.Group.List.Basic
import Mathlib.Algebra.Order.BigOperators.Group.List
import Vllm.Multimodal.LRUCache

/-!
# Removing items from the cache

What removing the least recently used items leaves, and when the loops that remove them end: a key
in the order without a value is chosen again and again.
-/

namespace Vllm.Multimodal.LRUCache

variable {K V N : Type} [DecidableEq K]

/-- The keys that may be removed, least recently used first. -/
def eligible (cache : LRUCache K V N) (removePinned : Bool) : List K :=
  cache.order.filter fun key => removePinned || decide (key ∉ cache.pinnedItems)

/-- The stored keys that may be removed, least recently used first. -/
def victims (cache : LRUCache K V N) (removePinned : Bool) : List K :=
  (cache.eligible removePinned).filter cache.contains

variable [AddCommGroup N] [LinearOrder N]

/-- The sum of the stored sizes. -/
def sizes (cache : LRUCache K V N) : N := (cache.data.entries.map fun e => e.2.2).sum

/-- The sizes of several keys. -/
def freed (cache : LRUCache K V N) (keys : List K) : N :=
  (keys.map fun key => (cache.sizeAt key).getD 0).sum

/-- What holds of the cache after every call, also where keys were touched that have no value. -/
structure Tracks (settings : CacheSettings V N) (cache : LRUCache K V N) : Prop where
  nodup : cache.order.Nodup
  listed : ∀ key, cache.contains key = true → key ∈ cache.order
  pinned : ∀ key ∈ cache.pinnedItems, cache.contains key = true
  nonneg : ∀ key value size, cache.data.get? key = some (value, size) → 0 ≤ size
  currsize_eq : cache.currsize = cache.sizes
  within : cache.currsize ≤ settings.maxsize

/-- Several keys are removed. -/
structure Removed (cache cache' : LRUCache K V N) (keys : List K) : Prop where
  data : ∀ key, cache'.data.get? key = if key ∈ keys then none else cache.data.get? key
  order : cache'.order = cache.order.filter (· ∉ keys)
  currsize_eq : cache'.currsize = cache.currsize - cache.freed keys

variable {settings : CacheSettings V N} {cache cache' : LRUCache K V N} {key : K}

omit [AddCommGroup N] [LinearOrder N] in
theorem contains_iff : cache.contains key = true ↔ ∃ value size,
    cache.data.get? key = some (value, size) := by
  rw [contains, Dict.contains_eq_true]
  exact ⟨fun ⟨⟨value, size⟩, h⟩ => ⟨value, size, h⟩, fun ⟨value, size, h⟩ => ⟨(value, size), h⟩⟩

omit [AddCommGroup N] [LinearOrder N] in
/-- A key that is moved to the end is not moved when it is removed. -/
theorem filter_touch (order : List K) (key : K) :
    (order.filter (· ≠ key) ++ [key]).filter (· ≠ key) = order.filter (· ≠ key) := by
  rw [List.filter_append, List.filter_filter, List.filter_cons_of_neg (by simp), List.filter_nil,
    List.append_nil]
  simp only [Bool.and_self]

variable {size : N}

omit [LinearOrder N] in
/-- Deleting a key with a value. -/
theorem delItem_eq {value : V} (h : cache.data.get? key = some (value, size)) :
    cache.delItem key = { cache with
      data := cache.data.erase key
      order := cache.order.filter (· ≠ key)
      currsize := cache.currsize - size
      pinnedItems := cache.pinnedItems.erase key } := by
  have htouch : (cache.touch key).data.get? key = some (value, size) := h
  unfold delItem getItem
  rw [h]
  dsimp only
  rw [htouch]
  dsimp only [touch]
  rw [filter_touch]

omit [LinearOrder N] in
/-- Popping a key with a value deletes it. -/
theorem pop_of_contains (h : cache.contains key = true) (default : Option V) :
    (cache.pop key default).2 = cache.delItem key := by
  obtain ⟨value, size, hget⟩ := contains_iff.mp h
  have htouch : (cache.touch key).data.get? key = some (value, size) := hget
  unfold pop getItem
  rw [hget]
  dsimp only
  rw [delItem_eq htouch, delItem_eq hget]
  dsimp only [touch]
  rw [filter_touch]

omit [LinearOrder N] in
/-- Popping a key without a value changes nothing. -/
theorem pop_of_not_contains (h : ¬ cache.contains key = true) (default : Option V) :
    cache.pop key default = (default, cache) := by
  have hnone : cache.data.get? key = none := Dict.contains_eq_false.mp (Bool.not_eq_true _ ▸ h)
  unfold pop getItem
  rw [hnone]

omit [LinearOrder N] in
theorem delItem_removed {value : V} (h : cache.data.get? key = some (value, size)) :
    Removed cache (cache.delItem key) [key] := by
  rw [delItem_eq h]
  refine ⟨fun key' => ?_, ?_, ?_⟩
  · rw [Dict.get?_erase]
    simp only [List.mem_singleton]
  · simp only [List.mem_singleton]
  · simp only [freed, sizeAt, h, List.map_cons, List.map_nil, List.sum_singleton, Option.map_some,
      Option.getD_some]

omit [LinearOrder N] in
/-- Nothing is removed. -/
theorem Removed.nil (cache : LRUCache K V N) : Removed cache cache [] := by
  refine ⟨fun key => ?_, ?_, ?_⟩
  · rw [if_neg List.not_mem_nil]
  · rw [List.filter_eq_self.mpr fun _ _ => by simp]
  · rw [freed, List.map_nil, List.sum_nil, sub_zero]

omit [LinearOrder N] in
theorem Removed.contains_iff {keys : List K} (h : Removed cache cache' keys) (key : K) :
    cache'.contains key = true ↔ cache.contains key = true ∧ key ∉ keys := by
  rw [contains, Dict.contains, h.data]
  by_cases hkey : key ∈ keys
  · rw [if_pos hkey]
    exact iff_of_false (fun hnone => by cases hnone) fun hboth => hboth.2 hkey
  · rw [if_neg hkey, and_iff_left hkey]
    rfl

omit [LinearOrder N] in
theorem Removed.sizeAt_eq {keys : List K} (h : Removed cache cache' keys) (key : K) :
    cache'.sizeAt key = if key ∈ keys then none else cache.sizeAt key := by
  rw [sizeAt, h.data, apply_ite (Option.map Prod.snd)]
  rfl

omit [LinearOrder N] in
/-- One key is removed before several others. -/
theorem Removed.cons {cache₁ : LRUCache K V N} {keys : List K} (h : Removed cache cache₁ [key])
    (h' : Removed cache₁ cache' keys) (hkey : key ∉ keys) : Removed cache cache' (key :: keys) := by
  have hfreed : cache₁.freed keys = cache.freed keys := by
    unfold freed
    congr 1
    refine List.map_congr_left fun key' hkey' => ?_
    rw [h.sizeAt_eq, if_neg]
    rintro hmem
    obtain rfl := List.mem_singleton.mp hmem
    exact hkey hkey'
  have hone : cache.freed [key] = (cache.sizeAt key).getD 0 := by
    rw [freed, List.map_singleton, List.sum_singleton]
  refine ⟨fun key' => ?_, ?_, ?_⟩
  · rw [h'.data, h.data]
    simp only [List.mem_cons, List.not_mem_nil, or_false]
    by_cases hkeys : key' ∈ keys
    · rw [if_pos hkeys, if_pos (.inr hkeys)]
    · rw [if_neg hkeys]
      simp only [hkeys, or_false]
  · rw [h'.order, h.order, List.filter_filter]
    congr 1
    funext key'
    simp only [List.mem_cons, List.not_mem_nil, or_false, not_or, Bool.decide_and, Bool.and_comm]
  · rw [h'.currsize_eq, h.currsize_eq, hfreed, hone, sub_sub]
    rfl

omit [LinearOrder N] in
/-- The sizes before and after a deletion. -/
private theorem sizes_delItem {value : V} (h : cache.data.get? key = some (value, size)) :
    cache.sizes = size + (cache.delItem key).sizes := by
  rw [sizes, sizes, delItem_eq h]
  have hperm := (Dict.entries_perm_of_get? h).map fun e : K × V × N => e.2.2
  rw [hperm.sum_eq, List.map_cons, List.sum_cons]

/-- Deleting a key with a value keeps the cache in step. -/
theorem Tracks.delItem [IsOrderedAddMonoid N] (h : Tracks settings cache) {value : V}
    (hget : cache.data.get? key = some (value, size)) : Tracks settings (cache.delItem key) := by
  have hremoved := delItem_removed hget
  have hsize := sizes_delItem hget
  refine ⟨?_, fun key' hkey' => ?_, fun key' hkey' => ?_, fun key' value' size' hget' => ?_, ?_, ?_⟩
  · rw [hremoved.order]
    exact h.nodup.filter _
  · obtain ⟨hold, hne⟩ := (hremoved.contains_iff key').mp hkey'
    rw [hremoved.order]
    exact List.mem_filter.mpr ⟨h.listed key' hold, decide_eq_true hne⟩
  · rw [delItem_eq hget] at hkey'
    obtain ⟨hne, hold⟩ := Finset.mem_erase.mp hkey'
    exact (hremoved.contains_iff key').mpr ⟨h.pinned key' hold, fun hmem =>
      hne (List.mem_singleton.mp hmem)⟩
  · rw [hremoved.data] at hget'
    split at hget'
    next => cases hget'
    next => exact h.nonneg key' value' size' hget'
  · have hcurrsize : (cache.delItem key).currsize = cache.currsize - size := by
      rw [delItem_eq hget]
    rw [hcurrsize, h.currsize_eq, hsize, add_sub_cancel_left]
  · have hle : (cache.delItem key).currsize ≤ cache.currsize := by
      rw [delItem_eq hget]
      exact sub_le_self _ (h.nonneg key value size hget)
    exact hle.trans h.within

omit [LinearOrder N] in
/-- What may be removed after the first key was. -/
theorem eligible_delItem {removePinned : Bool} {rest : List K} (hnodup : cache.order.Nodup)
    (heligible : cache.eligible removePinned = key :: rest)
    (hstored : cache.contains key = true) : (cache.delItem key).eligible removePinned = rest := by
  obtain ⟨value, size, hget⟩ := LRUCache.contains_iff.mp hstored
  have hrest : key ∉ rest := by
    have : (cache.eligible removePinned).Nodup := hnodup.filter _
    rw [heligible, List.nodup_cons] at this
    exact this.1
  have hfilter : (cache.eligible removePinned).filter (· ≠ key) = rest := by
    rw [heligible, List.filter_cons_of_neg (by simp), List.filter_eq_self]
    intro key' hkey'
    refine decide_eq_true ?_
    rintro rfl
    exact hrest hkey'
  rw [← hfilter, eligible, eligible, delItem_eq hget, List.filter_filter, List.filter_filter]
  refine List.filter_congr fun key' _ => ?_
  by_cases hne : key' = key
  · simp [hne]
  · simp [hne]

omit [LinearOrder N] in
/-- The key that is removed is the first one that may be. -/
theorem popitem_eq (cache : LRUCache K V N) (removePinned : Bool) :
    cache.popitem removePinned = match (cache.eligible removePinned).head? with
      | none => (.error (if removePinned then .stopIteration else .allPinned), cache)
      | some key => (.ok (key, (cache.pop key none).1), (cache.pop key none).2) := by
  cases removePinned with
  | true =>
    have hhead : (cache.eligible true).head? = cache.order.head? := by
      simp only [eligible, Bool.true_or, List.filter_true]
    rw [hhead]
    unfold popitem
    cases cache.order.head? with
    | none => rfl
    | some oldest => rfl
  | false =>
    have hhead : (cache.eligible false).head? =
        cache.order.find? fun key => decide (key ∉ cache.pinnedItems) := by
      simp only [eligible, Bool.false_or, List.head?_filter]
    rw [hhead]
    unfold popitem
    cases cache.order.find? fun key => decide (key ∉ cache.pinnedItems) with
    | none => rfl
    | some oldest => rfl

omit [LinearOrder N] in
/-- The first key is removed where it has a value. -/
theorem popitem_cons {removePinned : Bool} {rest : List K}
    (h : cache.eligible removePinned = key :: rest) :
    ∃ value, cache.popitem removePinned = (.ok (key, value),
      if cache.contains key then cache.delItem key else cache) := by
  rw [popitem_eq, h]
  refine ⟨(cache.pop key none).1, ?_⟩
  show (_, (cache.pop key none).2) = _
  by_cases hstored : cache.contains key = true
  · rw [pop_of_contains hstored, if_pos hstored]
  · rw [pop_of_not_contains hstored, if_neg hstored]

/-! ## Making room -/

/-- The new size fits after several keys are removed. -/
def FitsWithout (settings : CacheSettings V N) (cache : LRUCache K V N) (key : K) (size : N)
    (keys : List K) : Prop :=
  settings.fits (if key ∈ keys then none else cache.sizeAt key) size
    (cache.currsize - cache.freed keys) = true

omit [LinearOrder N] in
/-- What one turn removes is not removed later. -/
theorem fitsWithout_cons {key' : K} {keys : List K} {cache₁ : LRUCache K V N}
    (h : Removed cache cache₁ [key']) (hkey : key' ∉ keys) :
    FitsWithout settings cache₁ key size keys ↔
      FitsWithout settings cache key size (key' :: keys) := by
  obtain ⟨cache₂, hcache₂⟩ : ∃ cache₂, Removed cache₁ cache₂ keys := by
    refine ⟨{ cache₁ with
      data := cache₁.data.eraseAll keys
      order := cache₁.order.filter (· ∉ keys)
      currsize := cache₁.currsize - cache₁.freed keys }, fun key => ?_, rfl, rfl⟩
    exact Dict.get?_eraseAll _ _ _
  have hboth := h.cons hcache₂ hkey
  unfold FitsWithout
  rw [← hcache₂.currsize_eq, ← hcache₂.sizeAt_eq, ← hboth.currsize_eq, ← hboth.sizeAt_eq]

/-- The base class stops after some of the keys that may be removed. -/
structure MadeRoom (settings : CacheSettings V N) (key : K) (size : N) (cache : LRUCache K V N)
    (result : Except CacheError Unit) (after : LRUCache K V N) (n : Nat) : Prop where
  tracks : Tracks settings after
  le : n ≤ (cache.eligible false).length
  stored : ∀ key' ∈ (cache.eligible false).take n, cache.contains key' = true
  removed : Removed cache after ((cache.eligible false).take n)
  result_eq : (result = .ok () ∧ FitsWithout settings cache key size
      ((cache.eligible false).take n)) ∨
    result = .error .allPinned ∧ n = (cache.eligible false).length

/-- The loop of the base class removes keys until the new size fits or all are pinned. -/
theorem Tracks.makeRoom [IsOrderedAddMonoid N] (h : Tracks settings cache) {turns : Nat}
    {result : Except CacheError Unit} {after : LRUCache K V N}
    (hroom : makeRoom settings key size turns cache = some (result, after)) :
    ∃ n, MadeRoom settings key size cache result after n := by
  induction turns generalizing cache with
  | zero => cases hroom
  | succ turns ih =>
    rw [LRUCache.makeRoom] at hroom
    by_cases hfits : settings.fits (cache.sizeAt key) size cache.currsize = true
    · rw [if_pos hfits] at hroom
      obtain ⟨rfl, rfl⟩ := Prod.mk.inj (Option.some.inj hroom)
      refine ⟨0, h, Nat.zero_le _, fun key' hkey' => ?_, Removed.nil cache, .inl ⟨rfl, ?_⟩⟩
      · rw [List.take_zero] at hkey'
        cases hkey'
      · rw [FitsWithout, List.take_zero, if_neg List.not_mem_nil, freed, List.map_nil,
          List.sum_nil, sub_zero]
        exact hfits
    · rw [if_neg hfits] at hroom
      cases heligible : cache.eligible false with
      | nil =>
        rw [popitem_eq, heligible] at hroom
        obtain ⟨rfl, rfl⟩ := Prod.mk.inj (Option.some.inj hroom)
        refine ⟨0, h, Nat.zero_le _, fun key' hkey' => ?_, Removed.nil cache, .inr ⟨rfl, ?_⟩⟩
        · rw [List.take_zero] at hkey'
          cases hkey'
        · rw [heligible, List.length_nil]
      | cons oldest rest =>
        obtain ⟨value, hpop⟩ := popitem_cons heligible
        rw [hpop] at hroom
        by_cases hstored : cache.contains oldest = true
        · rw [if_pos hstored] at hroom
          obtain ⟨_, _, hget⟩ := LRUCache.contains_iff.mp hstored
          obtain ⟨n, hn⟩ := ih (h.delItem hget) hroom
          have hrest := eligible_delItem h.nodup heligible hstored
          have hremoved := delItem_removed hget
          have hnot : oldest ∉ rest.take n := by
            have hnodup : (cache.eligible false).Nodup := h.nodup.filter _
            rw [heligible, List.nodup_cons] at hnodup
            exact fun hmem => hnodup.1 (List.mem_of_mem_take hmem)
          refine ⟨n + 1, hn.tracks, ?_, fun key' hkey' => ?_, ?_, ?_⟩
          · rw [heligible, List.length_cons, ← hrest]
            exact Nat.succ_le_succ hn.le
          · rw [heligible, List.take_succ_cons, List.mem_cons] at hkey'
            rcases hkey' with rfl | hkey'
            · exact hstored
            · rw [← hrest] at hkey'
              exact ((hremoved.contains_iff key').mp (hn.stored key' hkey')).1
          · rw [heligible, List.take_succ_cons]
            exact hremoved.cons (hrest ▸ hn.removed) hnot
          · rw [heligible, List.take_succ_cons, List.length_cons]
            have hresult := hn.result_eq
            rw [hrest] at hresult
            rcases hresult with ⟨hok, hfits'⟩ | ⟨herror, hn'⟩
            · exact .inl ⟨hok, (fitsWithout_cons hremoved hnot).mp hfits'⟩
            · exact .inr ⟨herror, by rw [hn']⟩
        · -- A key without a value changes nothing, so that it is chosen in every turn.
          rw [if_neg hstored] at hroom
          obtain ⟨n, hn⟩ := ih h hroom
          exact ⟨n, hn⟩

omit [LinearOrder N] in
/-- The loop ends where removing stored keys in their order makes room, or leaves only pinned
ones. -/
theorem makeRoom_returns (hnodup : cache.order.Nodup) {n : Nat}
    (hstored : ∀ key' ∈ (cache.eligible false).take n, cache.contains key' = true)
    (hends : FitsWithout settings cache key size ((cache.eligible false).take n) ∨
      (cache.eligible false).length ≤ n) :
    ∃ turns result, makeRoom settings key size turns cache = some result := by
  induction n generalizing cache with
  | zero =>
    refine ⟨1, ?_⟩
    rw [makeRoom]
    by_cases hfits : settings.fits (cache.sizeAt key) size cache.currsize = true
    · rw [if_pos hfits]
      exact ⟨_, rfl⟩
    · rcases hends with hfits' | hnil
      · rw [FitsWithout, List.take_zero, if_neg List.not_mem_nil, freed, List.map_nil,
          List.sum_nil, sub_zero] at hfits'
        exact absurd hfits' hfits
      · rw [if_neg hfits, popitem_eq, List.eq_nil_of_length_eq_zero (Nat.le_zero.mp hnil)]
        exact ⟨_, rfl⟩
  | succ n ih =>
    by_cases hfits : settings.fits (cache.sizeAt key) size cache.currsize = true
    · refine ⟨1, ?_⟩
      rw [makeRoom, if_pos hfits]
      exact ⟨_, rfl⟩
    · cases heligible : cache.eligible false with
      | nil =>
        refine ⟨1, ?_⟩
        rw [makeRoom, if_neg hfits, popitem_eq, heligible]
        exact ⟨_, rfl⟩
      | cons oldest rest =>
        rw [heligible, List.take_succ_cons] at hstored hends
        have holdest := hstored oldest List.mem_cons_self
        obtain ⟨_, _, hget⟩ := contains_iff.mp holdest
        have hrest := eligible_delItem hnodup heligible holdest
        have hremoved := delItem_removed hget
        have hnotrest : oldest ∉ rest := by
          have : (cache.eligible false).Nodup := hnodup.filter _
          rw [heligible, List.nodup_cons] at this
          exact this.1
        have hnot : oldest ∉ rest.take n := fun hmem => hnotrest (List.mem_of_mem_take hmem)
        have hnodup' : (cache.delItem oldest).order.Nodup := by
          rw [hremoved.order]
          exact hnodup.filter _
        obtain ⟨turns, result, hresult⟩ := ih hnodup'
          (by
            intro key' hkey'
            rw [hrest] at hkey'
            refine (hremoved.contains_iff key').mpr ⟨hstored key' (List.mem_cons_of_mem _ hkey'),
              fun hmem => hnot ?_⟩
            rwa [← List.mem_singleton.mp hmem])
          (by
            rw [hrest]
            refine hends.imp (fitsWithout_cons hremoved hnot).mpr fun hle => ?_
            rw [List.length_cons] at hle
            exact Nat.le_of_succ_le_succ hle)
        obtain ⟨value, hpop⟩ := popitem_cons heligible
        refine ⟨turns + 1, result, ?_⟩
        rw [makeRoom, if_neg hfits, hpop, if_pos holdest]
        exact hresult

omit [LinearOrder N] in
/-- A key without a value that is chosen once is chosen in every turn. -/
theorem makeRoom_eq_none {oldest : K} {rest : List K}
    (heligible : cache.eligible false = oldest :: rest) (hold : ¬ cache.contains oldest = true)
    (hfits : ¬ settings.fits (cache.sizeAt key) size cache.currsize = true) (turns : Nat) :
    makeRoom settings key size turns cache = none := by
  obtain ⟨value, hpop⟩ := popitem_cons heligible
  induction turns with
  | zero => rfl
  | succ turns ih =>
    rw [makeRoom, if_neg hfits, hpop, if_neg hold]
    exact ih

omit [LinearOrder N] in
/-- More turns change nothing. -/
theorem makeRoom_mono {turns more : Nat} {result : Except CacheError Unit × LRUCache K V N}
    (h : makeRoom settings key size turns cache = some result) (hle : turns ≤ more) :
    makeRoom settings key size more cache = some result := by
  induction turns generalizing cache more with
  | zero => cases h
  | succ turns ih =>
    obtain ⟨more, rfl⟩ := Nat.exists_eq_add_of_lt hle
    rw [makeRoom]
    rw [makeRoom] at h
    split at h
    next hfits => rw [if_pos hfits, h]
    next hfits =>
      rw [if_neg hfits]
      split at h
      next => exact h
      next => exact ih h (Nat.le_add_right _ _)

/-! ## Clearing -/

omit [DecidableEq K] in
/-- Conditions that agree on a list take the same part of it. -/
theorem takeWhile_congr {p q : K → Bool} {keys : List K} (h : ∀ key ∈ keys, p key = q key) :
    keys.takeWhile p = keys.takeWhile q := by
  induction keys with
  | nil => rfl
  | cons key keys ih =>
    rw [List.takeWhile_cons, List.takeWhile_cons, h key List.mem_cons_self,
      ih fun key' hkey' => h key' (List.mem_cons_of_mem _ hkey')]

/-- What deleting the least recently used key leaves of the order. -/
theorem Tracks.delItem_front {oldest : K} {rest : List K} (h : Tracks settings cache)
    (horder : cache.order = oldest :: rest) {value : V}
    (hget : cache.data.get? oldest = some (value, size)) :
    (cache.delItem oldest).order = rest ∧
      ∀ key ∈ rest, (cache.delItem oldest).contains key = cache.contains key := by
  have hremoved := delItem_removed hget
  have hnodup := h.nodup
  rw [horder, List.nodup_cons] at hnodup
  have hne : ∀ key ∈ rest, key ∉ [oldest] := by
    intro key hkey hmem
    rw [List.mem_singleton.mp hmem] at hkey
    exact hnodup.1 hkey
  refine ⟨?_, fun key hkey => ?_⟩
  · rw [hremoved.order, horder, List.filter_cons_of_neg (by simp), List.filter_eq_self]
    exact fun key hkey => decide_eq_true (hne key hkey)
  · rw [Bool.eq_iff_iff, hremoved.contains_iff, and_iff_left (hne key hkey)]

/-- The loop of `clear` ends where the keys without a value come after all the others. -/
theorem removeAll_returns (h : Tracks settings cache) [IsOrderedAddMonoid N]
    (hfirst : ∀ key, cache.contains key = true → key ∈ cache.order.takeWhile cache.contains) :
    ∃ turns after, removeAll turns cache = some (.ok (), after) ∧ after.data.size = 0 := by
  obtain ⟨order, horder⟩ : ∃ order, cache.order = order := ⟨_, rfl⟩
  induction order generalizing cache with
  | nil =>
    have hnil : cache.data.entries = [] := by
      rw [Dict.entries_eq_nil_iff]
      intro key
      by_contra hsome
      obtain ⟨⟨value, size⟩, hget⟩ := Option.ne_none_iff_exists'.mp hsome
      have := h.listed key (contains_iff.mpr ⟨value, size, hget⟩)
      rw [horder] at this
      cases this
    have hsize : cache.data.size = 0 := by rw [Dict.size, hnil, List.length_nil]
    exact ⟨1, cache, by rw [removeAll, if_pos hsize], hsize⟩
  | cons oldest rest ih =>
    by_cases hsize : cache.data.size = 0
    · exact ⟨1, cache, by rw [removeAll, if_pos hsize], hsize⟩
    · have holdest : cache.contains oldest = true := by
        by_contra hnot
        have hnone : ∀ key, ¬ cache.contains key = true := by
          intro key hkey
          have := hfirst key hkey
          rw [horder, List.takeWhile_cons_of_neg hnot] at this
          cases this
        refine hsize (List.length_eq_zero_iff.mpr ?_)
        rw [Dict.entries_eq_nil_iff]
        intro key
        exact Dict.contains_eq_false.mp (Bool.not_eq_true _ ▸ hnone key)
      obtain ⟨_, _, hget⟩ := contains_iff.mp holdest
      have hremoved := delItem_removed hget
      obtain ⟨hrest, hsame⟩ := h.delItem_front horder hget
      obtain ⟨turns, after, hafter, hempty⟩ := ih (h.delItem hget) (by
        intro key hkey
        obtain ⟨hold, hne⟩ := (hremoved.contains_iff key).mp hkey
        have hmem := hfirst key hold
        rw [horder, List.takeWhile_cons_of_pos holdest, List.mem_cons] at hmem
        rw [hrest, takeWhile_congr hsame]
        exact hmem.resolve_left fun heq => hne (List.mem_singleton.mpr heq)) hrest
      have heligible : cache.eligible true = oldest :: rest := by
        rw [eligible, List.filter_eq_self.mpr fun _ _ => by simp, horder]
      obtain ⟨value, hpop⟩ := popitem_cons heligible
      refine ⟨turns + 1, after, ?_, hempty⟩
      rw [removeAll, if_neg hsize, removeOldest, if_neg hsize, hpop, if_pos holdest]
      exact hafter

omit [LinearOrder N] in
/-- A key without a value at the front of the order is chosen in every turn. -/
theorem removeAll_eq_none {oldest : K} {rest : List K} (horder : cache.order = oldest :: rest)
    (hold : ¬ cache.contains oldest = true) (hsize : cache.data.size ≠ 0) (turns : Nat) :
    removeAll turns cache = none := by
  have heligible : cache.eligible true = oldest :: rest := by
    rw [eligible, List.filter_eq_self.mpr fun _ _ => by simp, horder]
  obtain ⟨value, hpop⟩ := popitem_cons heligible
  induction turns with
  | zero => rfl
  | succ turns ih =>
    rw [removeAll, if_neg hsize, removeOldest, if_neg hsize, hpop, if_neg hold]
    exact ih

/-- Where the loop of `clear` ends, the keys without a value come after all the others. -/
theorem first_of_removeAll [IsOrderedAddMonoid N] (h : Tracks settings cache) {turns : Nat}
    {result : Except CacheError Unit × LRUCache K V N}
    (hall : removeAll turns cache = some result) :
    ∀ key, cache.contains key = true → key ∈ cache.order.takeWhile cache.contains := by
  induction turns generalizing cache with
  | zero => cases hall
  | succ turns ih =>
    intro key hkey
    have hsize : cache.data.size ≠ 0 := by
      obtain ⟨_, _, hget⟩ := contains_iff.mp hkey
      exact (Dict.size_pos hget).ne'
    have hlisted := h.listed key hkey
    cases horder : cache.order with
    | nil =>
      rw [horder] at hlisted
      cases hlisted
    | cons oldest rest =>
      by_cases holdest : cache.contains oldest = true
      · obtain ⟨_, _, hget⟩ := contains_iff.mp holdest
        have hremoved := delItem_removed hget
        have heligible : cache.eligible true = oldest :: rest := by
          rw [eligible, List.filter_eq_self.mpr fun _ _ => by simp, horder]
        obtain ⟨value, hpop⟩ := popitem_cons heligible
        rw [removeAll, if_neg hsize, removeOldest, if_neg hsize, hpop, if_pos holdest] at hall
        rw [List.takeWhile_cons_of_pos holdest, List.mem_cons]
        by_cases heq : key = oldest
        · exact .inl heq
        · have hmem := ih (h.delItem hget) hall key
            ((hremoved.contains_iff key).mpr ⟨hkey, fun hmem => heq (List.mem_singleton.mp hmem)⟩)
          obtain ⟨hrest, hsame⟩ := h.delItem_front horder hget
          rw [hrest, takeWhile_congr hsame] at hmem
          exact .inr hmem
      · rw [removeAll_eq_none horder holdest hsize] at hall
        cases hall

/-- What a loop of `clear` that ends leaves. -/
theorem Tracks.removeAll [IsOrderedAddMonoid N] (h : Tracks settings cache) {turns : Nat}
    {result : Except CacheError Unit} {after : LRUCache K V N}
    (hall : removeAll turns cache = some (result, after)) :
    Tracks settings after ∧ result = .ok () ∧ after.data.size = 0 := by
  induction turns generalizing cache with
  | zero => cases hall
  | succ turns ih =>
    rw [LRUCache.removeAll] at hall
    by_cases hsize : cache.data.size = 0
    · rw [if_pos hsize] at hall
      obtain ⟨rfl, rfl⟩ := Prod.mk.inj (Option.some.inj hall)
      exact ⟨h, rfl, hsize⟩
    · rw [if_neg hsize, removeOldest, if_neg hsize] at hall
      cases heligible : cache.eligible true with
      | nil =>
        -- A cache with an item has a key in its order.
        obtain ⟨⟨key, value, size⟩, hmem⟩ :=
          List.exists_mem_of_length_pos (Nat.pos_of_ne_zero hsize)
        have hget := cache.data.mem_entries_iff.mp hmem
        have hlisted := h.listed key (contains_iff.mpr ⟨value, size, hget⟩)
        rw [eligible, List.filter_eq_self.mpr fun _ _ => by simp] at heligible
        rw [heligible] at hlisted
        cases hlisted
      | cons oldest rest =>
        obtain ⟨value, hpop⟩ := popitem_cons heligible
        rw [hpop] at hall
        by_cases holdest : cache.contains oldest = true
        · obtain ⟨_, _, hget⟩ := contains_iff.mp holdest
          rw [if_pos holdest] at hall
          exact ih (h.delItem hget) hall
        · rw [if_neg holdest] at hall
          exact ih h hall

omit [LinearOrder N] in
/-- More turns change nothing. -/
theorem removeAll_mono {turns more : Nat} {result : Except CacheError Unit × LRUCache K V N}
    (h : removeAll turns cache = some result) (hle : turns ≤ more) :
    removeAll more cache = some result := by
  induction turns generalizing cache more with
  | zero => cases h
  | succ turns ih =>
    obtain ⟨more, rfl⟩ := Nat.exists_eq_add_of_lt hle
    rw [LRUCache.removeAll] at h ⊢
    split at h
    next hsize => rw [if_pos hsize, h]
    next hsize =>
      rw [if_neg hsize]
      split at h
      next => exact h
      next => exact ih h (Nat.le_add_right _ _)

/-! ## Storing -/

/-- What the base class does, as its documentation says, for sizes that are not negative: what fits
does not exceed the maximum after it was stored in the place of what was there. -/
structure Documented (settings : CacheSettings V N) : Prop where
  nonneg : ∀ value, 0 ≤ settings.getsizeof value
  maxsize_nonneg : 0 ≤ settings.maxsize
  fits_store : ∀ old size currsize, 0 ≤ old.getD 0 → size ≤ settings.maxsize →
    currsize ≤ settings.maxsize → settings.fits old size currsize = true →
    currsize - old.getD 0 + size ≤ settings.maxsize

/-- The decision of the base class is as documented. -/
theorem documented_ofMaxsize [IsOrderedAddMonoid N] {maxsize : N} {getsizeof : V → N}
    (hmaxsize : 0 ≤ maxsize) (hnonneg : ∀ value, 0 ≤ getsizeof value) :
    Documented (CacheSettings.ofMaxsize maxsize getsizeof) := by
  refine ⟨hnonneg, hmaxsize, fun old size currsize hold hsize hcurrsize hfits => ?_⟩
  rcases Bool.or_eq_true_iff.mp hfits with hless | hle
  · cases old with
    | none => cases hless
    | some stored =>
      have hless' : size ≤ stored := of_decide_eq_true hless
      show currsize - stored + size ≤ maxsize
      calc currsize - stored + size ≤ currsize - stored + stored := by gcongr
        _ = currsize := sub_add_cancel _ _
        _ ≤ maxsize := hcurrsize
  · have hle' : currsize + size ≤ maxsize := of_decide_eq_true hle
    show currsize - old.getD 0 + size ≤ maxsize
    calc currsize - old.getD 0 + size ≤ currsize + size := by
          gcongr
          exact sub_le_self _ hold
      _ ≤ maxsize := hle'

omit [LinearOrder N] in
/-- The sizes after a value is stored. -/
theorem sizes_store (cache : LRUCache K V N) (key : K) (value : V) (size : N) :
    (cache.store key value size).sizes = cache.sizes - (cache.sizeAt key).getD 0 + size := by
  have hget : (cache.data.insert key (value, size)).get? key = some (value, size) := by
    rw [Dict.get?_insert, if_pos rfl]
  have hperm := (Dict.entries_perm_of_get? hget).map fun e : K × V × N => e.2.2
  rw [Dict.erase_insert] at hperm
  have hsum : (cache.store key value size).sizes =
      size + ((cache.data.erase key).entries.map fun e => e.2.2).sum := by
    rw [sizes, store, hperm.sum_eq, List.map_cons, List.sum_cons]
  rw [hsum, add_comm size]
  congr 1
  cases hold : cache.data.get? key with
  | none =>
    rw [sizeAt, hold, Dict.erase_of_absent hold, Option.map_none, Option.getD_none, sub_zero, sizes]
  | some old =>
    have hperm' := (Dict.entries_perm_of_get? hold).map fun e : K × V × N => e.2.2
    rw [sizeAt, hold, sizes, hperm'.sum_eq, List.map_cons, List.sum_cons, Option.map_some,
      Option.getD_some, add_sub_cancel_left]

/-- A value that fits is stored. -/
theorem Tracks.store [IsOrderedAddMonoid N] (h : Tracks settings cache)
    (hsettings : Documented settings) {value : V}
    (hle : settings.getsizeof value ≤ settings.maxsize)
    (hfits : settings.fits (cache.sizeAt key) (settings.getsizeof value) cache.currsize = true) :
    Tracks settings ((cache.store key value (settings.getsizeof value)).touch key) := by
  have hget : ∀ key',
      ((cache.store key value (settings.getsizeof value)).touch key).data.get? key' =
        if key' = key then some (value, settings.getsizeof value) else cache.data.get? key' :=
    fun key' => Dict.get?_insert _ _ _ _
  have hcontains : ∀ key', cache.contains key' = true →
      ((cache.store key value (settings.getsizeof value)).touch key).contains key' = true := by
    intro key' hkey'
    rw [contains, Dict.contains, hget]
    split
    next => rfl
    next => exact hkey'
  have hold : 0 ≤ (cache.sizeAt key).getD 0 := by
    unfold sizeAt
    cases hdata : cache.data.get? key with
    | none => exact le_rfl
    | some old => exact h.nonneg key old.1 old.2 hdata
  refine ⟨?_, fun key' hkey' => ?_, fun key' hkey' => hcontains key' (h.pinned key' hkey'),
    fun key' value' size' hkey' => ?_, ?_, ?_⟩
  · refine (h.nodup.filter _).append (List.nodup_singleton key) ?_
    simp
  · refine List.mem_append.mpr ?_
    by_cases heq : key' = key
    · exact .inr (List.mem_singleton.mpr heq)
    · rw [contains, Dict.contains, hget, if_neg heq] at hkey'
      exact .inl (List.mem_filter.mpr ⟨h.listed key' hkey', decide_eq_true heq⟩)
  · rw [hget] at hkey'
    split at hkey'
    next =>
      obtain ⟨-, rfl⟩ := Prod.mk.inj (Option.some.inj hkey')
      exact hsettings.nonneg value
    next => exact h.nonneg key' value' size' hkey'
  · have hsizes := sizes_store cache key value (settings.getsizeof value)
    rw [← h.currsize_eq] at hsizes
    exact hsizes.symm
  · exact hsettings.fits_store _ _ _ hold hle h.within hfits

end Vllm.Multimodal.LRUCache
