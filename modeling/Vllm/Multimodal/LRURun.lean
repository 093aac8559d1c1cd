import Mathlib.Algebra.Order.Ring.Int
import Mathlib.Data.List.TakeWhile
import Vllm.Multimodal.LRURemoval

/-!
# Histories of the cache

The calls of a history do what they should if and only if no key that was touched without having a
value comes in their way: a put finds no such key but the one that it stores, and finds room before
it; the oldest key that is removed has a value; and clearing finds such keys only after all others.
-/

namespace Vllm.Multimodal.LRUCache

variable {K V N : Type} [DecidableEq K] [AddCommGroup N] [LinearOrder N]

/-- What a put should leave: the order in step with the data, the sizes summed up and within the
capacity, and the values but those of the least recently used keys that are not pinned. -/
structure PutSound (settings : CacheSettings V N) (cache : LRUCache K V N) (key : K) (value : V)
    (result : Except CacheError Unit) (after : LRUCache K V N) : Prop where
  nodup : after.order.Nodup
  mem_order_iff : ∀ key', key' ∈ after.order ↔ after.contains key' = true
  currsize_eq : after.currsize = after.sizes
  currsize_le : after.currsize ≤ settings.maxsize
  data_eq : ∃ n, ∀ key', after.data.get? key' =
    if result = .ok () ∧ key' = key then some (value, settings.getsizeof value)
    else if key' ∈ (cache.victims false).take n then none else cache.data.get? key'

/-- A call ends, and does what it should. -/
def CallSound (settings : CacheSettings V N) (cache : LRUCache K V N)
    (result : Except CacheError Unit) (after : LRUCache K V N) : CacheCall K V → Prop
  | .put key value => PutSound settings cache key value result after
  | .removeOldest removePinned => ∀ key, after.data.get? key =
      if (cache.victims removePinned).head? = some key then none else cache.data.get? key
  | .clear => after.data.size = 0
  | _ => True

/-- Every call of a history ends and does what it should. -/
def RunSound (settings : CacheSettings V N) (cache : LRUCache K V N) : List (CacheCall K V) → Prop
  | [] => True
  | call :: calls => ∃ turns result after, cache.call settings turns call = some (result, after) ∧
      CallSound settings cache result after call ∧ RunSound settings after calls

/-- No key without a value comes in the way of a call. -/
def Unobstructed (settings : CacheSettings V N) (cache : LRUCache K V N) : CacheCall K V → Prop
  | .put key value =>
      (∀ key' ∈ cache.order, ¬ cache.contains key' = true →
        key' = key ∧ settings.getsizeof value ≤ settings.maxsize) ∧
      (key ∈ cache.order → ¬ cache.contains key = true →
        ∃ n ≤ ((cache.order.takeWhile (· ≠ key)).filter (· ∉ cache.pinnedItems)).length,
          FitsWithout settings cache key (settings.getsizeof value)
            (((cache.order.takeWhile (· ≠ key)).filter (· ∉ cache.pinnedItems)).take n))
  | .removeOldest removePinned =>
      (cache.eligible removePinned).head? = (cache.victims removePinned).head? ∨
        cache.victims removePinned = []
  | .clear => ∀ key, cache.contains key = true → key ∈ cache.order.takeWhile cache.contains
  | _ => True

/-- No key without a value comes in the way of a call of a history. -/
def RunUnobstructed (settings : CacheSettings V N) (cache : LRUCache K V N) :
    List (CacheCall K V) → Prop
  | [] => True
  | call :: calls => Unobstructed settings cache call ∧
      ∀ turns result after, cache.call settings turns call = some (result, after) →
        RunUnobstructed settings after calls

variable {settings : CacheSettings V N} {cache cache' : LRUCache K V N} {key : K}

/-! ## Putting -/

omit [AddCommGroup N] [LinearOrder N] in
/-- Keys with values that may be removed first are the first ones with values. -/
theorem victims_take {removePinned : Bool} {n : Nat}
    (hstored : ∀ key ∈ (cache.eligible removePinned).take n, cache.contains key = true)
    (hle : n ≤ (cache.eligible removePinned).length) :
    (cache.victims removePinned).take n = (cache.eligible removePinned).take n := by
  have hsplit := List.take_append_drop n (cache.eligible removePinned)
  rw [victims, ← hsplit, List.filter_append, List.filter_eq_self.mpr hstored, hsplit,
    List.take_left' (by rw [List.length_take, Nat.min_eq_left hle])]

omit [AddCommGroup N] [LinearOrder N] in
/-- What may be removed before a key in the order. -/
theorem eligible_eq_append (hkey : key ∈ cache.order) (hpinned : key ∉ cache.pinnedItems) :
    ∃ rest, cache.eligible false =
      (cache.order.takeWhile (· ≠ key)).filter (· ∉ cache.pinnedItems) ++ key :: rest := by
  obtain ⟨before, after, horder, hbefore⟩ := List.eq_append_cons_of_mem hkey
  have htake : cache.order.takeWhile (· ≠ key) = before := by
    rw [horder, List.takeWhile_append_of_pos, List.takeWhile_cons_of_neg (by simp),
      List.append_nil]
    intro key' hkey'
    refine decide_eq_true ?_
    rintro rfl
    exact hbefore hkey'
  rw [htake, eligible, horder, List.filter_append, List.filter_cons_of_pos (by simpa using hpinned)]
  exact ⟨_, rfl⟩

/-- A key without a value is not pinned. -/
theorem Tracks.not_pinned (h : Tracks settings cache) (hkey : ¬ cache.contains key = true) :
    key ∉ cache.pinnedItems :=
  fun hpinned => hkey (h.pinned key hpinned)

variable {result : Except CacheError Unit}

/-- Removing stored keys keeps the other keys of the order. -/
theorem MadeRoom.mem_order {size : N} {n : Nat}
    (h : MadeRoom settings key size cache result cache' n) {key' : K} (hmem : key' ∈ cache.order)
    (hkey' : ¬ cache.contains key' = true) :
    key' ∈ cache'.order ∧ ¬ cache'.contains key' = true := by
  refine ⟨?_, fun hnew => hkey' ((h.removed.contains_iff key').mp hnew).1⟩
  rw [h.removed.order]
  exact List.mem_filter.mpr ⟨hmem, decide_eq_true fun htaken => hkey' (h.stored key' htaken)⟩

/-- Removing stored keys brings no key without a value into the order. -/
theorem MadeRoom.contains_of_mem {size : N} {n : Nat}
    (h : MadeRoom settings key size cache result cache' n) {key' : K} (hmem : key' ∈ cache'.order)
    (hkey' : cache.contains key' = true) : cache'.contains key' = true := by
  rw [h.removed.order] at hmem
  exact (h.removed.contains_iff key').mpr ⟨hkey', of_decide_eq_true (List.mem_filter.mp hmem).2⟩

theorem MadeRoom.order_subset {size : N} {n : Nat}
    (h : MadeRoom settings key size cache result cache' n) {key' : K} (hmem : key' ∈ cache'.order) :
    key' ∈ cache.order := by
  rw [h.removed.order] at hmem
  exact (List.mem_filter.mp hmem).1

variable {value : V}

omit [LinearOrder N] in
/-- The order after a value is stored. -/
theorem mem_order_put {size : N} {key' : K} :
    key' ∈ ((cache.store key value size).touch key).order ↔ key' = key ∨ key' ∈ cache.order := by
  show key' ∈ cache.order.filter (· ≠ key) ++ [key] ↔ _
  rw [List.mem_append, List.mem_filter, List.mem_singleton]
  by_cases heq : key' = key
  · exact iff_of_true (.inr heq) (.inl heq)
  · simp only [heq, ne_eq, not_false_eq_true, decide_true, and_true, or_false, false_or]

omit [LinearOrder N] in
private theorem get?_put {size : N} (key' : K) :
    ((cache.store key value size).touch key).data.get? key' =
      if key' = key then some (value, size) else cache.data.get? key' :=
  Dict.get?_insert _ _ _ _

omit [LinearOrder N] in
private theorem contains_put {size : N} {key' : K} :
    ((cache.store key value size).touch key).contains key' = true ↔
      key' = key ∨ cache.contains key' = true := by
  rw [contains, Dict.contains, get?_put]
  by_cases heq : key' = key
  · rw [if_pos heq]
    exact iff_of_true rfl (.inl heq)
  · rw [if_neg heq, or_iff_right heq]
    rfl

/-- What a put that ended left. -/
theorem put_cases {turns : Nat}
    (hput : put settings turns cache key value = some (result, cache')) :
    (settings.maxsize < settings.getsizeof value ∧ result = .error .valueTooLarge ∧
      cache' = cache) ∨
    settings.getsizeof value ≤ settings.maxsize ∧ ∃ room,
      makeRoom settings key (settings.getsizeof value) turns cache = some (result, room) ∧
      ((result = .ok () ∧ cache' = (room.store key value (settings.getsizeof value)).touch key) ∨
        result ≠ .ok () ∧ cache' = room) := by
  unfold put at hput
  split at hput
  next hlarge =>
    obtain ⟨rfl, rfl⟩ := Prod.mk.inj (Option.some.inj hput)
    exact .inl ⟨hlarge, rfl, rfl⟩
  next hsize =>
    refine .inr ⟨not_lt.mp hsize, ?_⟩
    split at hput
    next room hroom =>
      obtain ⟨rfl, rfl⟩ := Prod.mk.inj (Option.some.inj hput)
      exact ⟨room, hroom, .inl ⟨rfl, rfl⟩⟩
    next hnot =>
      refine ⟨cache', hput, .inr ⟨?_, rfl⟩⟩
      rintro rfl
      exact hnot _ _ hput

/-- A put for which a key without a value is chosen never ends. -/
theorem put_eq_none {oldest : K} {rest : List K}
    (hsize : ¬ settings.maxsize < settings.getsizeof value)
    (heligible : cache.eligible false = oldest :: rest) (hold : ¬ cache.contains oldest = true)
    (hfits : ¬ settings.fits (cache.sizeAt key) (settings.getsizeof value) cache.currsize = true)
    (turns : Nat) : put settings turns cache key value = none := by
  rw [put, if_neg hsize, makeRoom_eq_none heligible hold hfits]

/-- Every put that ends keeps the cache in step. -/
theorem Tracks.put [IsOrderedAddMonoid N] (h : Tracks settings cache)
    (hsettings : Documented settings) {turns : Nat}
    (hput : put settings turns cache key value = some (result, cache')) :
    Tracks settings cache' := by
  rcases put_cases hput with ⟨-, -, rfl⟩ | ⟨hle, room, hroom, ⟨rfl, rfl⟩ | ⟨-, rfl⟩⟩
  · exact h
  · obtain ⟨n, hn⟩ := h.makeRoom hroom
    rcases hn.result_eq with ⟨-, hfits⟩ | ⟨herror, -⟩
    · rw [FitsWithout, ← hn.removed.currsize_eq, ← hn.removed.sizeAt_eq] at hfits
      exact hn.tracks.store hsettings hle hfits
    · cases herror
  · obtain ⟨n, hn⟩ := h.makeRoom hroom
    exact hn.tracks

/-- A put that ends in step met no key without a value but the one that it stored. -/
theorem unobstructed_of_putSound [IsOrderedAddMonoid N] (h : Tracks settings cache) {turns : Nat}
    (hput : put settings turns cache key value = some (result, cache'))
    (hsound : PutSound settings cache key value result cache') :
    Unobstructed settings cache (.put key value) := by
  rcases put_cases hput with
    ⟨-, -, rfl⟩ | ⟨hle, room, hroom, ⟨rfl, rfl⟩ | ⟨hne, rfl⟩⟩
  · exact ⟨fun key' hmem hnot => absurd ((hsound.mem_order_iff key').mp hmem) hnot,
      fun hmem hnot => absurd ((hsound.mem_order_iff key).mp hmem) hnot⟩
  · obtain ⟨n, hn⟩ := h.makeRoom hroom
    refine ⟨fun key' hmem hnot => ⟨?_, hle⟩, fun hmem hnot => ?_⟩
    · by_contra hother
      obtain ⟨hmem', hnot'⟩ := hn.mem_order hmem hnot
      have hcontains := (hsound.mem_order_iff key').mp (mem_order_put.mpr (.inr hmem'))
      exact (contains_put.mp hcontains).elim hother hnot'
    · obtain ⟨rest, heligible⟩ := eligible_eq_append hmem (h.not_pinned hnot)
      obtain ⟨before, hbefore⟩ : ∃ before,
        (cache.order.takeWhile (· ≠ key)).filter (· ∉ cache.pinnedItems) = before := ⟨_, rfl⟩
      rw [hbefore] at heligible ⊢
      -- The key itself is not among those that were removed.
      have hbound : n ≤ before.length := by
        by_contra hlt
        refine hnot (hn.stored key ?_)
        rw [heligible, List.take_append, List.mem_append]
        refine .inr ?_
        obtain ⟨k, hk⟩ := Nat.exists_eq_add_of_lt (not_le.mp hlt)
        rw [show n - before.length = k + 1 by omega, List.take_succ_cons]
        exact List.mem_cons_self
      refine ⟨n, hbound, ?_⟩
      rcases hn.result_eq with ⟨-, hfits⟩ | ⟨herror, -⟩
      · rwa [heligible, List.take_append_of_le_length hbound] at hfits
      · cases herror
  · obtain ⟨n, hn⟩ := h.makeRoom hroom
    have hall : ∀ key' ∈ cache.order, cache.contains key' = true := by
      intro key' hmem
      by_contra hnot
      obtain ⟨hmem', hnot'⟩ := hn.mem_order hmem hnot
      exact hnot' ((hsound.mem_order_iff key').mp hmem')
    exact ⟨fun key' hmem hnot => absurd (hall key' hmem) hnot,
      fun hmem hnot => absurd (hall key hmem) hnot⟩

/-- A put that meets no key without a value but the one that it stores ends. -/
theorem put_returns (h : Tracks settings cache)
    (hfree : Unobstructed settings cache (.put key value)) :
    ∃ turns result, put settings turns cache key value = some result := by
  obtain ⟨hothers, hroom⟩ := hfree
  unfold put
  by_cases hlarge : settings.maxsize < settings.getsizeof value
  · exact ⟨0, _, if_pos hlarge⟩
  · obtain ⟨turns, ⟨result, after⟩, hreturns⟩ : ∃ turns result,
        makeRoom settings key (settings.getsizeof value) turns cache = some result := by
      by_cases hghost : key ∈ cache.order ∧ ¬ cache.contains key = true
      · obtain ⟨n, hle, hfits⟩ := hroom hghost.1 hghost.2
        obtain ⟨rest, heligible⟩ := eligible_eq_append hghost.1 (h.not_pinned hghost.2)
        have htake : (cache.eligible false).take n =
            ((cache.order.takeWhile (· ≠ key)).filter (· ∉ cache.pinnedItems)).take n := by
          rw [heligible, List.take_append_of_le_length hle]
        refine makeRoom_returns h.nodup (fun key' hkey' => ?_) (.inl (htake ▸ hfits))
        rw [htake] at hkey'
        have hbefore := (List.mem_filter.mp (List.mem_of_mem_take hkey')).1
        by_contra hnot
        obtain ⟨rfl, -⟩ := hothers key' (List.takeWhile_subset _ hbefore) hnot
        have hne := List.mem_takeWhile_imp hbefore
        exact absurd rfl (of_decide_eq_true hne)
      · refine makeRoom_returns h.nodup (fun key' hkey' => ?_) (.inr le_rfl)
        have hmem := (List.mem_filter.mp (List.mem_of_mem_take hkey')).1
        by_contra hnot
        obtain ⟨rfl, -⟩ := hothers key' hmem hnot
        exact hghost ⟨hmem, hnot⟩
    refine ⟨turns, ?_⟩
    rw [if_neg hlarge, hreturns]
    cases result with
    | ok => exact ⟨_, rfl⟩
    | error => exact ⟨_, rfl⟩

/-- It leaves what it should. -/
theorem putSound_of_unobstructed [IsOrderedAddMonoid N] (h : Tracks settings cache)
    (hsettings : Documented settings) {turns : Nat}
    (hput : put settings turns cache key value = some (result, cache'))
    (hfree : Unobstructed settings cache (.put key value)) :
    PutSound settings cache key value result cache' := by
  obtain ⟨hothers, -⟩ := hfree
  have htracks := h.put hsettings hput
  refine ⟨htracks.nodup, fun key' => ⟨fun hmem => ?_, htracks.listed key'⟩, htracks.currsize_eq,
    htracks.within, ?_⟩
  · rcases put_cases hput with
      ⟨hlarge, -, rfl⟩ | ⟨hle, room, hroom, ⟨rfl, rfl⟩ | ⟨hne, rfl⟩⟩
    · by_contra hnot
      exact absurd hlarge (not_lt.mpr (hothers key' hmem hnot).2)
    · obtain ⟨n, hn⟩ := h.makeRoom hroom
      rcases mem_order_put.mp hmem with heq | hmem'
      · exact contains_put.mpr (.inl heq)
      · by_cases hstored : cache.contains key' = true
        · exact contains_put.mpr (.inr (hn.contains_of_mem hmem' hstored))
        · exact contains_put.mpr (.inl (hothers key' (hn.order_subset hmem') hstored).1)
    · obtain ⟨n, hn⟩ := h.makeRoom hroom
      by_cases hstored : cache.contains key' = true
      · exact hn.contains_of_mem hmem hstored
      · -- A key without a value would have been chosen before all were found to be pinned.
        rcases hn.result_eq with ⟨hok, -⟩ | ⟨-, hlength⟩
        · exact absurd hok hne
        · have heligible : key' ∈ cache.eligible false := List.mem_filter.mpr
            ⟨hn.order_subset hmem, by simpa using h.not_pinned hstored⟩
          rw [← List.take_length (l := cache.eligible false), ← hlength] at heligible
          exact absurd (hn.stored key' heligible) hstored
  · rcases put_cases hput with
      ⟨hlarge, rfl, rfl⟩ | ⟨hle, room, hroom, ⟨rfl, rfl⟩ | ⟨hne, rfl⟩⟩
    · refine ⟨0, fun key' => ?_⟩
      rw [if_neg (fun hok => by cases hok.1), List.take_zero, if_neg List.not_mem_nil]
    · obtain ⟨n, hn⟩ := h.makeRoom hroom
      refine ⟨n, fun key' => ?_⟩
      rw [get?_put, hn.removed.data, victims_take hn.stored hn.le]
      simp only [true_and]
    · obtain ⟨n, hn⟩ := h.makeRoom hroom
      refine ⟨n, fun key' => ?_⟩
      rw [if_neg fun hok => hne hok.1, hn.removed.data, victims_take hn.stored hn.le]

/-- A put ends in step if and only if nothing comes in its way. -/
theorem putSound_iff [IsOrderedAddMonoid N] (h : Tracks settings cache)
    (hsettings : Documented settings) (key : K) (value : V) :
    (∃ turns result after, put settings turns cache key value = some (result, after) ∧
      PutSound settings cache key value result after) ↔
        Unobstructed settings cache (.put key value) := by
  constructor
  · rintro ⟨turns, result, after, hput, hsound⟩
    exact unobstructed_of_putSound h hput hsound
  · intro hfree
    obtain ⟨turns, ⟨result, after⟩, hput⟩ := put_returns h hfree
    exact ⟨turns, result, after, hput, putSound_of_unobstructed h hsettings hput hfree⟩

/-! ## Removing the oldest item -/

omit [LinearOrder N] in
/-- What removing the oldest item does. -/
theorem removeOldest_cases (cache : LRUCache K V N) (removePinned : Bool) :
    ((cache.removeOldest removePinned).2 = cache ∧ cache.victims removePinned = []) ∨
    ∃ oldest rest, cache.eligible removePinned = oldest :: rest ∧
      (cache.removeOldest removePinned).2 =
        if cache.contains oldest then cache.delItem oldest else cache := by
  unfold removeOldest
  by_cases hsize : cache.data.size = 0
  · refine .inl ⟨by rw [if_pos hsize], List.filter_eq_nil_iff.mpr fun key _ hkey => ?_⟩
    obtain ⟨_, _, hget⟩ := contains_iff.mp hkey
    exact absurd hsize (Dict.size_pos hget).ne'
  · rw [if_neg hsize]
    cases heligible : cache.eligible removePinned with
    | nil =>
      refine .inl ⟨by rw [popitem_eq, heligible]; rfl, ?_⟩
      rw [victims, heligible, List.filter_nil]
    | cons oldest rest =>
      obtain ⟨value, hpop⟩ := popitem_cons heligible
      exact .inr ⟨oldest, rest, rfl, by rw [hpop]⟩

/-- The oldest item is removed if and only if nothing comes before it. -/
theorem removeOldestSound_iff (cache : LRUCache K V N) (removePinned : Bool)
    (result : Except CacheError Unit) :
    CallSound settings cache result (cache.removeOldest removePinned).2
        (.removeOldest removePinned) ↔
      Unobstructed settings cache (.removeOldest removePinned) := by
  show (∀ key, (cache.removeOldest removePinned).2.data.get? key =
    if (cache.victims removePinned).head? = some key then none else cache.data.get? key) ↔
      ((cache.eligible removePinned).head? = (cache.victims removePinned).head? ∨
        cache.victims removePinned = [])
  have hunchanged : (cache.removeOldest removePinned).2 = cache →
      cache.victims removePinned = [] → ∀ key, (cache.removeOldest removePinned).2.data.get? key =
        if (cache.victims removePinned).head? = some key then none else cache.data.get? key := by
    intro heq hnil key
    rw [heq, hnil, if_neg fun hhead => by cases hhead]
  rcases removeOldest_cases cache removePinned with
    ⟨hsame, hnil⟩ | ⟨oldest, rest, heligible, hafter⟩
  · exact iff_of_true (hunchanged hsame hnil) (.inr hnil)
  · by_cases hstored : cache.contains oldest = true
    · obtain ⟨_, _, hget⟩ := contains_iff.mp hstored
      rw [if_pos hstored] at hafter
      have hvictims : (cache.victims removePinned).head? = some oldest := by
        rw [victims, heligible, List.filter_cons_of_pos hstored, List.head?_cons]
      refine iff_of_true (fun key => ?_) (.inl ?_)
      · rw [hafter, (delItem_removed hget).data, hvictims]
        simp only [List.mem_singleton, Option.some.injEq, eq_comm (a := oldest)]
      · rw [hvictims, heligible, List.head?_cons]
    · rw [if_neg hstored] at hafter
      constructor
      · intro hsound
        refine .inr ?_
        by_contra hne
        obtain ⟨key, keys, hvictims⟩ := List.exists_cons_of_ne_nil hne
        have hkey : cache.contains key = true := by
          have hmem : key ∈ cache.victims removePinned := hvictims ▸ List.mem_cons_self
          exact (List.mem_filter.mp hmem).2
        obtain ⟨_, _, hget⟩ := contains_iff.mp hkey
        have hnone := hsound key
        rw [hafter, hvictims, List.head?_cons, if_pos rfl, hget] at hnone
        cases hnone
      · rintro (hhead | hnil)
        · rw [heligible, List.head?_cons] at hhead
          have hmem : oldest ∈ cache.victims removePinned := List.mem_of_mem_head? hhead.symm
          exact absurd (List.mem_filter.mp hmem).2 hstored
        · exact hunchanged hafter hnil

/-! ## Clearing -/

omit [LinearOrder N] in
/-- What a call of `clear` that ended left. -/
theorem clear_cases {turns : Nat} (hclear : clear turns cache = some (result, cache')) :
    ∃ after, removeAll turns cache = some (result, after) ∧ cache'.data = after.data ∧
      cache'.order = after.order ∧ cache'.currsize = after.currsize ∧
      cache'.pinnedItems = after.pinnedItems := by
  unfold clear at hclear
  split at hclear
  next after hall =>
    obtain ⟨rfl, rfl⟩ := Prod.mk.inj (Option.some.inj hclear)
    exact ⟨after, hall, rfl, rfl, rfl, rfl⟩
  next => exact ⟨cache', hclear, rfl, rfl, rfl, rfl⟩

/-- Clearing ends if and only if the keys without a value come after all the others. -/
theorem clearSound_iff [IsOrderedAddMonoid N] (h : Tracks settings cache) :
    (∃ turns result after, clear turns cache = some (result, after) ∧ after.data.size = 0) ↔
      Unobstructed settings cache .clear := by
  constructor
  · rintro ⟨turns, result, after, hclear, -⟩
    obtain ⟨after', hall, -⟩ := clear_cases hclear
    exact first_of_removeAll h hall
  · intro hfirst
    obtain ⟨turns, after, hall, hempty⟩ := removeAll_returns h hfirst
    refine ⟨turns, .ok (), { after with hits := 0, total := 0, lastInfo := ⟨0, 0⟩ }, ?_, hempty⟩
    rw [clear, hall]

/-! ## Histories -/

/-- The statistics do not matter. -/
theorem Tracks.of_eq (h : Tracks settings cache) (hdata : cache'.data = cache.data)
    (horder : cache'.order = cache.order) (hcurrsize : cache'.currsize = cache.currsize)
    (hpinned : cache'.pinnedItems = cache.pinnedItems) : Tracks settings cache' := by
  have hcontains : ∀ key, cache'.contains key = cache.contains key := fun key => by
    rw [contains, contains, hdata]
  refine ⟨horder ▸ h.nodup, fun key hkey => ?_, fun key hkey => ?_, hdata ▸ h.nonneg, ?_, ?_⟩
  · rw [hcontains] at hkey
    exact horder ▸ h.listed key hkey
  · rw [hpinned] at hkey
    rw [hcontains]
    exact h.pinned key hkey
  · rw [hcurrsize, h.currsize_eq, sizes, sizes, hdata]
  · exact hcurrsize ▸ h.within

/-- Touching a key keeps the cache in step, whether it has a value or not. -/
theorem Tracks.touch (h : Tracks settings cache) (key : K) : Tracks settings (cache.touch key) := by
  refine ⟨?_, fun key' hkey' => ?_, h.pinned, h.nonneg, h.currsize_eq, h.within⟩
  · refine (h.nodup.filter _).append (List.nodup_singleton key) ?_
    simp
  · refine List.mem_append.mpr ?_
    by_cases heq : key' = key
    · exact .inr (List.mem_singleton.mpr heq)
    · exact .inl (List.mem_filter.mpr ⟨h.listed key' hkey', decide_eq_true heq⟩)

/-- Every call that ends keeps the cache in step. -/
theorem Tracks.call [IsOrderedAddMonoid N] (h : Tracks settings cache)
    (hsettings : Documented settings) {turns : Nat} {call : CacheCall K V}
    (hcall : cache.call settings turns call =
      some (result, cache')) : Tracks settings cache' := by
  cases call with
  | put key value => exact h.put hsettings hcall
  | get key default =>
    obtain ⟨-, rfl⟩ := Prod.mk.inj (Option.some.inj hcall)
    unfold LRUCache.get getItem
    cases cache.data.get? key with
    | none => exact h.of_eq rfl rfl rfl rfl
    | some item => exact (h.touch key).of_eq rfl rfl rfl rfl
  | touch key =>
    obtain ⟨-, rfl⟩ := Prod.mk.inj (Option.some.inj hcall)
    exact h.touch key
  | pop key default =>
    obtain ⟨-, rfl⟩ := Prod.mk.inj (Option.some.inj hcall)
    by_cases hstored : cache.contains key = true
    · obtain ⟨_, _, hget⟩ := contains_iff.mp hstored
      rw [pop_of_contains hstored]
      exact h.delItem hget
    · rw [pop_of_not_contains hstored]
      exact h
  | pin key =>
    have hpin : cache.pin key = (result, cache') := Option.some.inj hcall
    unfold LRUCache.pin at hpin
    split at hpin
    next hstored =>
      obtain ⟨-, rfl⟩ := Prod.mk.inj hpin
      refine ⟨h.nodup, h.listed, fun key' hkey' => ?_, h.nonneg, h.currsize_eq, h.within⟩
      rcases Finset.mem_insert.mp hkey' with rfl | hold
      · exact hstored
      · exact h.pinned key' hold
    next =>
      obtain ⟨-, rfl⟩ := Prod.mk.inj hpin
      exact h
  | removeOldest removePinned =>
    have hafter : cache' = (cache.removeOldest removePinned).2 :=
      (congrArg Prod.snd (Option.some.inj hcall)).symm
    rw [hafter]
    rcases removeOldest_cases cache removePinned with ⟨hsame, -⟩ | ⟨oldest, rest, -, hremoved⟩
    · rw [hsame]
      exact h
    · rw [hremoved]
      split
      next hstored =>
        obtain ⟨_, _, hget⟩ := contains_iff.mp hstored
        exact h.delItem hget
      next => exact h
  | clear =>
    obtain ⟨after, hall, hdata, horder, hcurrsize, hpinned⟩ := clear_cases hcall
    exact (h.removeAll hall).1.of_eq hdata horder hcurrsize hpinned

/-- The turns do not matter where a call ends. -/
theorem call_mono {turns more : Nat} {call : CacheCall K V}
    {result : Except CacheError Unit × LRUCache K V N}
    (h : cache.call settings turns call = some result) (hle : turns ≤ more) :
    cache.call settings more call = some result := by
  cases call with
  | put key value =>
    obtain ⟨result, after⟩ := result
    have hput : put settings turns cache key value = some (result, after) := h
    show put settings more cache key value = _
    unfold put
    rcases put_cases hput with
      ⟨hlarge, rfl, rfl⟩ | ⟨hsize, room, hroom, ⟨rfl, rfl⟩ | ⟨hne, rfl⟩⟩
    · rw [if_pos hlarge]
    · rw [if_neg (not_lt.mpr hsize), makeRoom_mono hroom hle]
    · rw [if_neg (not_lt.mpr hsize), makeRoom_mono hroom hle]
      cases result with
      | ok => exact absurd rfl hne
      | error => rfl
  | clear =>
    have hclear : clear turns cache = some result := h
    show clear more cache = _
    unfold clear at hclear ⊢
    cases hall : removeAll turns cache with
    | none =>
      rw [hall] at hclear
      cases hclear
    | some all =>
      rw [hall] at hclear
      rw [removeAll_mono hall hle, hclear]
  | get => exact h
  | touch => exact h
  | pop => exact h
  | pin => exact h
  | removeOldest => exact h

/-- A call ends in one way. -/
theorem call_unique {turns turns' : Nat} {call : CacheCall K V}
    {result result' : Except CacheError Unit × LRUCache K V N}
    (h : cache.call settings turns call = some result)
    (h' : cache.call settings turns' call = some result') : result = result' :=
  Option.some.inj ((call_mono h (Nat.le_max_left turns turns')).symm.trans
    (call_mono h' (Nat.le_max_right turns turns')))

/-- A call ends and does what it should if and only if nothing comes in its way. -/
theorem callSound_iff [IsOrderedAddMonoid N] (h : Tracks settings cache)
    (hsettings : Documented settings) (call : CacheCall K V) :
    (∃ turns result after, cache.call settings turns call = some (result, after) ∧
      CallSound settings cache result after call) ↔ Unobstructed settings cache call := by
  cases call with
  | put key value => exact putSound_iff h hsettings key value
  | removeOldest removePinned =>
    constructor
    · rintro ⟨turns, result, after, hcall, hsound⟩
      have hafter : (cache.removeOldest removePinned).2 = after :=
        congrArg Prod.snd (Option.some.inj hcall)
      exact (removeOldestSound_iff cache removePinned result).mp (hafter ▸ hsound)
    · intro hfree
      exact ⟨0, _, _, rfl, (removeOldestSound_iff cache removePinned _).mpr hfree⟩
  | clear => exact clearSound_iff h
  | get => exact iff_of_true ⟨0, _, _, rfl, trivial⟩ trivial
  | touch => exact iff_of_true ⟨0, _, _, rfl, trivial⟩ trivial
  | pop => exact iff_of_true ⟨0, _, _, rfl, trivial⟩ trivial
  | pin key => exact iff_of_true ⟨0, (cache.pin key).1, (cache.pin key).2, rfl, trivial⟩ trivial

/-- The calls of a history end and do what they should if and only if nothing comes in their
way. -/
theorem Tracks.runSound_iff [IsOrderedAddMonoid N] (h : Tracks settings cache)
    (hsettings : Documented settings) (calls : List (CacheCall K V)) :
    RunSound settings cache calls ↔ RunUnobstructed settings cache calls := by
  induction calls generalizing cache with
  | nil => exact Iff.rfl
  | cons call calls ih =>
    constructor
    · rintro ⟨turns, result, after, hcall, hsound, hrest⟩
      refine ⟨(callSound_iff h hsettings call).mp ⟨turns, result, after, hcall, hsound⟩,
        fun turns' result' after' hcall' => ?_⟩
      obtain ⟨rfl, rfl⟩ := Prod.mk.inj (call_unique hcall hcall')
      exact (ih (h.call hsettings hcall)).mp hrest
    · rintro ⟨hfree, hrest⟩
      obtain ⟨turns, result, after, hcall, hsound⟩ := (callSound_iff h hsettings call).mpr hfree
      exact ⟨turns, result, after, hcall, hsound,
        (ih (h.call hsettings hcall)).mpr (hrest turns result after hcall)⟩

/-- A cache without items is in step. -/
private theorem tracks_init (hsettings : Documented settings) : Tracks settings (init K V N) :=
  ⟨List.nodup_nil, fun _ hkey => (by cases hkey), fun _ hkey => (by cases hkey),
    fun _ _ _ hget => (by cases hget), rfl, hsettings.maxsize_nonneg⟩

/-- The calls of every history of a cache end and do what they should if and only if no key that
was touched without having a value comes in their way. -/
theorem init_runSound_iff [IsOrderedAddMonoid N] (hsettings : Documented settings)
    (calls : List (CacheCall K V)) :
    RunSound settings (init K V N) calls ↔ RunUnobstructed settings (init K V N) calls :=
  (tracks_init hsettings).runSound_iff hsettings calls

/-- There is room for one item, and the second one is touched before it is put: the first one comes
before it in the order and makes room. -/
theorem touchedBefore_runSound :
    RunUnobstructed (.ofMaxsize (1 : Int) fun _ => 1) (init Nat Nat Int)
        [.put 1 0, .touch 2, .put 2 0] ∧
      RunSound (.ofMaxsize (1 : Int) fun _ => 1) (init Nat Nat Int)
        [.put 1 0, .touch 2, .put 2 0] := by
  have hfree : RunUnobstructed (.ofMaxsize (1 : Int) fun _ => 1) (init Nat Nat Int)
      [.put 1 0, .touch 2, .put 2 0] := by
    refine ⟨⟨fun _ hkey => absurd hkey List.not_mem_nil, fun hkey => absurd hkey List.not_mem_nil⟩,
      fun turns result after hfirst => ⟨trivial, fun turns' result' after' htouch => ?_⟩⟩
    have hfirst' : call (.ofMaxsize (1 : Int) fun _ => 1) 1 (init Nat Nat Int) (.put 1 0) =
      some (.ok (), ⟨⟨[(1, 0, 1)], List.nodup_singleton 1⟩, [1], 1, ∅, 0, 0, ⟨0, 0⟩⟩) := rfl
    obtain ⟨-, rfl⟩ := Prod.mk.inj (call_unique hfirst hfirst')
    obtain ⟨-, rfl⟩ := Prod.mk.inj (Option.some.inj htouch)
    exact ⟨⟨by decide, fun _ _ => ⟨1, by decide, by unfold FitsWithout; decide⟩⟩, fun _ _ _ _ => trivial⟩
  exact ⟨hfree, (init_runSound_iff (documented_ofMaxsize (show (0 : Int) ≤ 1 by decide)
    fun _ => by decide) _).mpr hfree⟩

/-- Two items are touched before they are put, and there is room for one of them: the second put
never ends. -/
theorem secondItem_never_stored :
    ¬ RunSound (.ofMaxsize (1 : Int) fun _ => 1) (init Nat Nat Int)
        [.touch 1, .touch 2, .put 1 0, .put 2 0] ∧
      ∀ turns, (put (.ofMaxsize (1 : Int) fun _ => 1) 1
        (((init Nat Nat Int).touch 1).touch 2) 1 0).bind
          (fun first => put (.ofMaxsize (1 : Int) fun _ => 1) turns first.2 2 0) = none := by
  obtain ⟨cache, hfirst⟩ : ∃ cache, call (.ofMaxsize (1 : Int) fun _ => 1) 1
    (((init Nat Nat Int).touch 1).touch 2) (.put 1 0) = some (.ok (), cache) ∧
      cache = ⟨⟨[(1, 0, 1)], List.nodup_singleton 1⟩, [2, 1], 1, ∅, 0, 0, ⟨0, 0⟩⟩ :=
    ⟨_, rfl, rfl⟩
  have hnever : ∀ turns, put (.ofMaxsize (1 : Int) fun _ => 1) turns cache 2 0 = none := by
    intro turns
    have heligible : cache.eligible false = 2 :: [1] := by
      rw [hfirst.2]
      rfl
    exact put_eq_none (by decide) heligible (by rw [hfirst.2]; decide) (by rw [hfirst.2]; decide)
      turns
  refine ⟨?_, fun turns => ?_⟩
  · rintro ⟨_, _, _, htouch, -, _, _, _, htouch', -, turns, result, after, hput, -, turns', _, _,
      hput', -⟩
    obtain ⟨-, rfl⟩ := Prod.mk.inj (Option.some.inj htouch)
    obtain ⟨-, rfl⟩ := Prod.mk.inj (Option.some.inj htouch')
    obtain ⟨-, rfl⟩ := Prod.mk.inj (call_unique hput hfirst.1)
    have hnone := (hnever turns').symm.trans hput'
    cases hnone
  · have hput : put (.ofMaxsize (1 : Int) fun _ => 1) 1
        (((init Nat Nat Int).touch 1).touch 2) 1 0 = some (.ok (), cache) := hfirst.1
    rw [hput]
    exact hnever turns

end Vllm.Multimodal.LRUCache
