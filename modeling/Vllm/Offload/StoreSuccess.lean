import Vllm.Offload.ARCEviction
import Vllm.Offload.LRUManager
import Mathlib.Tactic.NormNum

/-!
# When a store succeeds

Space can be made for a store when the blocks that are free and those that may be
evicted suffice for the hashes not cached yet. The LRU manager then succeeds. The ARC
manager does so only if its search reaches the victims: it does not look into a `t1`
that is smaller than its target size.
-/

namespace Vllm.Offload

variable {H : Type} [DecidableEq H]

/-- What a store that succeeds does: exactly the hashes not cached before become cached,
they are not ready, and what it was asked for and had stays. -/
def StoresMissing (before after : H → Option CPUBlockStatus) (blockHashes : List H) : Prop :=
  (∀ h, (before h = none ∧ after h ≠ none) ↔ (h ∈ blockHashes ∧ before h = none)) ∧
    (∀ h ∈ blockHashes, before h = none → ∃ block, after h = some block ∧ block.isReady = false) ∧
    ∀ h ∈ blockHashes, before h ≠ none → after h ≠ none

/-- The blocks written in a store, told by hash. -/
theorem findEntry_zip {toStore : List H} {blocks : List CPUBlockStatus}
    (hlen : blocks.length = toStore.length) (hnew : ∀ block ∈ blocks, block.refCnt = -1) (h : H) :
    (h ∈ toStore → ∃ block, Dict.findEntry h (toStore.zip blocks) = some block ∧
      block.isReady = false) ∧
    (h ∉ toStore → Dict.findEntry h (toStore.zip blocks) = none) := by
  induction toStore generalizing blocks with
  | nil => simp [Dict.findEntry]
  | cons a toStore ih =>
    obtain _ | ⟨block, blocks⟩ := blocks
    · simp at hlen
    have hrest := ih (by simpa using hlen) fun b hb => hnew b (List.mem_cons_of_mem _ hb)
    have hready : block.isReady = false := by
      simp [CPUBlockStatus.isReady, hnew block List.mem_cons_self]
    by_cases he : a = h
    · simp [Dict.findEntry, he, hready]
    · simpa [Dict.findEntry, he, Ne.symm he] using hrest

/-- A store whose blocks are written over what an eviction of unprotected hashes left stores
what was missing. -/
theorem storesMissing_of {before kept after : H → Option CPUBlockStatus}
    {blockHashes toStore evicted : List H} {blocks : List CPUBlockStatus}
    (hlen : blocks.length = toStore.length) (hnew : ∀ block ∈ blocks, block.refCnt = -1)
    (htoStore : ∀ h, h ∈ toStore ↔ h ∈ blockHashes ∧ before h = none)
    (habsent : ∀ h, before h = none → kept h = none)
    (hlost : ∀ h, kept h = none → before h = none ∨ h ∈ evicted)
    (hprotected : ∀ h ∈ evicted, h ∉ blockHashes)
    (hafter : ∀ h, after h = (Dict.findEntry h (toStore.zip blocks)).or (kept h)) :
    StoresMissing before after blockHashes := by
  have hwritten := findEntry_zip hlen hnew
  refine ⟨fun h => ?_, fun h hh hb => ?_, fun h hh hb hnone => ?_⟩
  · constructor
    · rintro ⟨hb, ha⟩
      by_contra hnot
      rw [← htoStore] at hnot
      rw [hafter, (hwritten h).2 hnot, Option.none_or] at ha
      exact ha (habsent h hb)
    · rintro ⟨hh, hb⟩
      obtain ⟨block, hblock, -⟩ := (hwritten h).1 ((htoStore h).mpr ⟨hh, hb⟩)
      refine ⟨hb, ?_⟩
      rw [hafter, hblock]
      simp
  · obtain ⟨block, hblock, hready⟩ := (hwritten h).1 ((htoStore h).mpr ⟨hh, hb⟩)
    exact ⟨block, by rw [hafter, hblock, Option.some_or], hready⟩
  · have hnot : h ∉ toStore := fun hmem => hb ((htoStore h).mp hmem).2
    rw [hafter, (hwritten h).2 hnot, Option.none_or] at hnone
    rcases hlost h hnone with hnone | hnone
    · exact hb hnone
    · exact hprotected h hnone hh

omit [DecidableEq H] in
/-- A store that has nothing to store keeps what it was asked for. -/
theorem storesMissing_self {before : H → Option CPUBlockStatus} {blockHashes : List H}
    (hcached : ∀ h ∈ blockHashes, before h ≠ none) : StoresMissing before before blockHashes :=
  ⟨fun _ => ⟨fun hh => absurd hh.1 hh.2, fun hh => absurd hh.2 (hcached _ hh.1)⟩,
    fun h hh hb => absurd hb (hcached h hh), fun _ _ hb => hb⟩

namespace ARCOffloadingManager

variable {m : ARCOffloadingManager H} {blockHashes : List H}

theorem find_eq_none {h : H} : m.find h = none ↔ m.t1.get? h = none ∧ m.t2.get? h = none := by
  simp [find]

theorem foldl_storeBlock (m : ARCOffloadingManager H) (l : List (H × CPUBlockStatus)) :
    l.foldl storeBlock m = { m with
      t1 := l.foldl (fun t e => t.insert e.1 e.2) m.t1
      b1 := m.b1.eraseAll (l.map Prod.fst)
      b2 := m.b2.eraseAll (l.map Prod.fst) } := by
  induction l generalizing m with
  | nil => rfl
  | cons e l ih => exact ih (m.storeBlock e)

/-- What the end of a store does when there are enough free blocks. -/
theorem storeBlocks_spec (toEvict : List H) {toStore : List H}
    (hfree : toStore.length ≤ m.backend.getNumFreeBlocks) (hnodup : toStore.Nodup) :
    ∃ blocks spec, blocks.length = toStore.length ∧ (∀ block ∈ blocks, block.refCnt = -1) ∧
      (m.storeBlocks toStore toEvict).2 = .ok (some ⟨toStore, spec, toEvict⟩) ∧
      (m.storeBlocks toStore toEvict).1.events = (m.report toEvict true).events ∧
      (m.storeBlocks toStore toEvict).1.t2 = m.t2 ∧
      ∀ h, (m.storeBlocks toStore toEvict).1.t1.get? h =
        (Dict.findEntry h (toStore.zip blocks)).or (m.t1.get? h) := by
  have hfields : (m.trimGhosts.report toEvict true).t1 = m.t1 ∧
      (m.trimGhosts.report toEvict true).t2 = m.t2 ∧
      (m.trimGhosts.report toEvict true).backend = m.backend ∧
      (m.trimGhosts.report toEvict true).events = (m.report toEvict true).events := by
    unfold report
    split <;> exact ⟨rfl, rfl, rfl, rfl⟩
  unfold storeBlocks
  generalize m.trimGhosts.report toEvict true = m' at hfields
  obtain ⟨hT1, hT2, hbackend, hevents⟩ := hfields
  rw [← hbackend] at hfree
  obtain ⟨blocks, backend, hallocate, hlen, hnew, -⟩ :=
    CPUBackend.allocateBlocks_spec (H := H) hfree
  refine ⟨blocks, backend.getLoadStoreSpec blocks, hlen, hnew, ?_, ?_, ?_, fun h => ?_⟩
  · simp only [hallocate]
  · simp only [hallocate, foldl_storeBlock, hevents]
  · simp only [hallocate, foldl_storeBlock, hT2]
  · have hkeys : ((toStore.zip blocks).map Prod.fst).Nodup := by
      rwa [List.map_fst_zip hlen.ge]
    simp only [hallocate, foldl_storeBlock, Dict.get?_foldl_insert _ hkeys, hT1]

theorem mem_evictedHashes {h : H} (hh : h ∈ m.evictedHashes blockHashes) :
    h ∉ blockHashes ∧ m.find h ≠ none := by
  obtain ⟨e, he, rfl⟩ := List.mem_map.mp hh
  rcases List.mem_append.mp he with he | he
  · obtain ⟨hget, hvictim⟩ := mem_victimsT1.mp (List.mem_of_mem_take he)
    refine ⟨?_, fun hnone => ?_⟩
    · simp only [isVictim, Bool.and_eq_true, Bool.not_eq_true', decide_eq_false_iff_not] at hvictim
      exact hvictim.2
    · rw [(find_eq_none.mp hnone).1] at hget
      cases hget
  · obtain ⟨hget, hvictim⟩ := mem_victimsT2.mp (List.mem_of_mem_take he)
    refine ⟨?_, fun hnone => ?_⟩
    · simp only [isVictim, Bool.and_eq_true, Bool.not_eq_true', decide_eq_false_iff_not] at hvictim
      exact hvictim.2
    · rw [(find_eq_none.mp hnone).2] at hget
      cases hget

/-- Behind the eviction loop a hash is missing only if it was before or was evicted. -/
theorem find_evicted_eq_none {h : H} :
    (m.find h = none → (m.evicted blockHashes).find h = none) ∧
    ((m.evicted blockHashes).find h = none →
      m.find h = none ∨ h ∈ m.evictedHashes blockHashes) := by
  have hevicted : (m.evicted blockHashes).find h =
      (if h ∈ (m.evictedT1 blockHashes (m.needed blockHashes)).map Prod.fst then none
        else m.t1.get? h).or
      (if h ∈ (m.evictedT2 blockHashes (m.needed blockHashes)).map Prod.fst then none
        else m.t2.get? h) := by
    rw [evicted, evictAll_eq]
    simp only [find, Dict.get?_eraseAll]
  rw [hevicted, evictedHashes, List.map_append, List.mem_append, Option.or_eq_none_iff]
  constructor
  · intro hnone
    obtain ⟨hT1, hT2⟩ := find_eq_none.mp hnone
    simp [hT1, hT2]
  · rintro ⟨hT1, hT2⟩
    by_contra hnot
    simp only [not_or] at hnot
    rw [if_neg hnot.2.1] at hT1
    rw [if_neg hnot.2.2] at hT2
    exact hnot.1 (find_eq_none.mpr ⟨hT1, hT2⟩)

/-- What the end of a store makes of the eviction loop. -/
theorem storeEvicted_spec (hnodup : blockHashes.Nodup)
    (hroom : m.needed blockHashes ≤ m.room blockHashes)
    {m' : ARCOffloadingManager H} {result}
    (hstore : (m.evicted blockHashes).storeBlocks (m.hashesToStore blockHashes)
      (m.evictedHashes blockHashes) = (m', result)) :
    (∃ spec, result = .ok (some ⟨m.hashesToStore blockHashes, spec, m.evictedHashes blockHashes⟩)) ∧
      m'.events = ((m.evicted blockHashes).report (m.evictedHashes blockHashes) true).events ∧
      (∀ h, m'.find h = none → m.find h = none ∨ h ∈ m.evictedHashes blockHashes) ∧
      StoresMissing m.find m'.find blockHashes := by
  obtain ⟨blocks, spec, hlen, hnew, hout, hevents, hT2, hT1⟩ :=
    storeBlocks_spec (m.evictedHashes blockHashes)
      (length_le_getNumFreeBlocks hroom) (hnodup.filter _)
  rw [hstore] at hout hevents hT2 hT1
  have hfind : ∀ h, m'.find h =
      (Dict.findEntry h ((m.hashesToStore blockHashes).zip blocks)).or
        ((m.evicted blockHashes).find h) := by
    intro h
    rw [find, find, hT1, hT2, Option.or_assoc]
  refine ⟨⟨spec, hout⟩, hevents, fun h hnone => ?_, ?_⟩
  · rw [hfind, Option.or_eq_none_iff] at hnone
    exact find_evicted_eq_none.2 hnone.2
  · refine storesMissing_of hlen hnew (fun h => ?_) (fun h => find_evicted_eq_none.1)
      (fun h => find_evicted_eq_none.2) (fun h hh => (mem_evictedHashes hh).1) hfind
    rw [mem_hashesToStore, find_eq_none]

/-- How a store of distinct hashes ends: with a result, behind which exactly what was missing
is cached, if the eviction loop finds enough victims, and else with `None`. -/
theorem prepareStore_spec (hnodup : blockHashes.Nodup) :
    (m.needed blockHashes ≤ m.room blockHashes →
      (∃ out, (m.prepareStore blockHashes).2 = .ok (some out)) ∧
        StoresMissing m.find (m.prepareStore blockHashes).1.find blockHashes) ∧
    (m.room blockHashes < m.needed blockHashes →
      m.prepareStore blockHashes = (m.evicted blockHashes, .ok none)) := by
  rw [prepareStore_eq]
  constructor
  · intro hroom
    by_cases hempty : m.hashesToStore blockHashes = []
    · rw [if_pos hempty]
      refine ⟨⟨_, rfl⟩, storesMissing_self fun h hh hnone => ?_⟩
      have hmem : h ∈ m.hashesToStore blockHashes :=
        mem_hashesToStore.mpr ⟨hh, find_eq_none.mp hnone⟩
      rw [hempty] at hmem
      cases hmem
    · rw [if_neg hempty, if_pos hroom]
      obtain ⟨⟨spec, hout⟩, -, -, hstored⟩ := storeEvicted_spec hnodup hroom (Prod.mk.eta).symm
      exact ⟨⟨_, hout⟩, hstored⟩
  · intro hroom
    have hempty : m.hashesToStore blockHashes ≠ [] := by
      intro hempty
      simp [needed, hempty] at hroom
    rw [if_neg hempty, if_neg (Nat.not_le_of_lt hroom)]

/-- A store succeeds exactly when space can be made for it, and then stores what was
missing. -/
def StoresWhenPossible (m : ARCOffloadingManager H) (blockHashes : List H) : Prop :=
  ((∃ out, (m.prepareStore blockHashes).2 = .ok (some out)) ↔
    (m.hashesToStore blockHashes).length ≤ m.backend.getNumFreeBlocks +
      ((m.victimsT1 blockHashes).length + (m.victimsT2 blockHashes).length)) ∧
  ((∃ out, (m.prepareStore blockHashes).2 = .ok (some out)) →
    StoresMissing m.find (m.prepareStore blockHashes).1.find blockHashes)

/-- The search for victims reaches enough of them if there are enough: those of `t2`, and
those of `t1` until it is smaller than its target size. -/
def SearchReaches (m : ARCOffloadingManager H) (blockHashes : List H) : Prop :=
  m.needed blockHashes ≤ (m.victimsT1 blockHashes).length + (m.victimsT2 blockHashes).length →
    m.needed blockHashes ≤ m.roomT1 blockHashes + (m.victimsT2 blockHashes).length

private theorem storesWhenPossible_iff (hnodup : blockHashes.Nodup) :
    m.StoresWhenPossible blockHashes ↔ m.SearchReaches blockHashes := by
  obtain ⟨hsuccess, hrefusal⟩ := prepareStore_spec (m := m) hnodup
  have hroom : m.roomT1 blockHashes ≤ (m.victimsT1 blockHashes).length := Nat.min_le_left _ _
  have hneeded : (m.hashesToStore blockHashes).length ≤ m.backend.getNumFreeBlocks +
      ((m.victimsT1 blockHashes).length + (m.victimsT2 blockHashes).length) ↔
      m.needed blockHashes ≤ (m.victimsT1 blockHashes).length +
        (m.victimsT2 blockHashes).length := by
    unfold needed
    omega
  have hresult : (∃ out, (m.prepareStore blockHashes).2 = .ok (some out)) ↔
      m.needed blockHashes ≤ m.room blockHashes := by
    constructor
    · rintro ⟨out, hout⟩
      by_contra hnot
      rw [hrefusal (Nat.lt_of_not_le hnot)] at hout
      cases hout
    · exact fun h => (hsuccess h).1
  unfold StoresWhenPossible SearchReaches
  rw [hresult, hneeded, room]
  constructor
  · exact fun h => h.1.mpr
  · exact fun h => ⟨⟨fun hle => by omega, h⟩, fun hle => (hsuccess hle).2⟩

end ARCOffloadingManager

namespace LRUOffloadingManager

variable {m : LRUOffloadingManager H} {blockHashes : List H}

/-- The blocks that may be evicted, oldest first. -/
def evictable (m : LRUOffloadingManager H) (blockHashes : List H) : List (H × CPUBlockStatus) :=
  m.blocks.entries.filter (isVictim blockHashes)

/-- How many blocks a store has to evict. -/
def needed (m : LRUOffloadingManager H) (blockHashes : List H) : Nat :=
  (m.hashesToStore blockHashes).length - m.backend.getNumFreeBlocks

/-- The selection takes the oldest victims, and fails when there are too few. -/
private theorem selectVictims_eq (isProtected : List H) {n : Nat} (hn : 0 < n)
    (l : List (H × CPUBlockStatus)) : selectVictims isProtected n l =
      if n ≤ (l.filter (isVictim isProtected)).length then
        some (((l.filter (isVictim isProtected)).take n).map Prod.fst)
      else none := by
  induction l generalizing n with
  | nil =>
    simp [selectVictims, Nat.ne_of_gt hn]
  | cons e l ih =>
    unfold selectVictims
    by_cases hvictim : isVictim isProtected e
    · rw [if_pos hvictim, List.filter_cons_of_pos hvictim]
      obtain ⟨n, rfl⟩ : ∃ k, n = k + 1 := ⟨n - 1, by omega⟩
      rw [Nat.add_sub_cancel]
      by_cases hzero : n = 0
      · simp [hzero]
      · rw [if_neg hzero, ih (Nat.pos_of_ne_zero hzero)]
        by_cases hle : n ≤ (l.filter (isVictim isProtected)).length
        · rw [if_pos hle, if_pos (by simpa using hle)]
          rfl
        · rw [if_neg hle, if_neg (by simpa using hle)]
          rfl
    · rw [if_neg hvictim, List.filter_cons_of_neg hvictim, ih hn]

/-- The victims of a store are the oldest blocks that may be evicted, as many as it needs. -/
theorem victims_eq (m : LRUOffloadingManager H) (blockHashes : List H) :
    m.victims blockHashes =
      if m.needed blockHashes ≤ (m.evictable blockHashes).length then
        some (((m.evictable blockHashes).take (m.needed blockHashes)).map Prod.fst)
      else none := by
  unfold victims
  rw [← needed]
  split
  · rename_i hpos
    exact selectVictims_eq blockHashes hpos m.blocks.entries
  · rename_i hzero
    have hzero : m.needed blockHashes = 0 := by omega
    simp [hzero]

/-- Evicting blocks that are there takes them out and frees their ids. -/
theorem foldl_evictBlock {l : List (H × CPUBlockStatus)} (hnodup : (l.map Prod.fst).Nodup)
    (hget : ∀ e ∈ l, m.blocks.get? e.1 = some e.2) :
    (l.map Prod.fst).foldl evictBlock m = { m with
      blocks := m.blocks.eraseAll (l.map Prod.fst)
      backend := m.backend.freeAll (l.map Prod.snd) } := by
  induction l generalizing m with
  | nil => rfl
  | cons e l ih =>
    rw [List.map_cons, List.nodup_cons] at hnodup
    have hfirst : m.evictBlock e.1 =
        { m with blocks := m.blocks.erase e.1, backend := m.backend.free e.2 } := by
      rw [evictBlock, hget e List.mem_cons_self]
    rw [List.map_cons, List.foldl_cons, hfirst, ih hnodup.2]
    · rfl
    · intro e' he'
      have hne : e'.1 ≠ e.1 := fun heq => hnodup.1 (heq ▸ List.mem_map_of_mem he')
      simp [hne, hget e' (List.mem_cons_of_mem _ he')]

/-- The hashes that a store evicts. -/
def evictedHashes (m : LRUOffloadingManager H) (blockHashes : List H) : List H :=
  ((m.evictable blockHashes).take (m.needed blockHashes)).map Prod.fst

theorem mem_evictedHashes {h : H} (hh : h ∈ m.evictedHashes blockHashes) : h ∉ blockHashes := by
  obtain ⟨e, he, rfl⟩ := List.mem_map.mp hh
  have hvictim := (List.mem_filter.mp (List.mem_of_mem_take he)).2
  simp only [isVictim, Bool.and_eq_true, Bool.not_eq_true', decide_eq_false_iff_not] at hvictim
  exact hvictim.2

theorem mem_hashesToStore {h : H} :
    h ∈ m.hashesToStore blockHashes ↔ h ∈ blockHashes ∧ m.find h = none := by
  simp [hashesToStore, find, Dict.contains]

omit [DecidableEq H] in
@[simp] theorem report_blocks (m : LRUOffloadingManager H) (l : List H) (removed : Bool) :
    (m.report l removed).blocks = m.blocks := by
  unfold report
  split <;> rfl

omit [DecidableEq H] in
@[simp] theorem report_backend (m : LRUOffloadingManager H) (l : List H) (removed : Bool) :
    (m.report l removed).backend = m.backend := by
  unfold report
  split <;> rfl

private theorem foldl_insert (m : LRUOffloadingManager H) (l : List (H × CPUBlockStatus)) :
    l.foldl (fun m e => { m with blocks := m.blocks.insert e.1 e.2 }) m =
      { m with blocks := l.foldl (fun t e => t.insert e.1 e.2) m.blocks } := by
  induction l generalizing m with
  | nil => rfl
  | cons e l ih => exact ih { m with blocks := m.blocks.insert e.1 e.2 }

/-- What the end of a store does when there are enough free blocks. -/
theorem storeBlocks_spec (toEvict : List H) {toStore : List H}
    (hfree : toStore.length ≤ m.backend.getNumFreeBlocks) (hnodup : toStore.Nodup) :
    ∃ blocks spec, blocks.length = toStore.length ∧ (∀ block ∈ blocks, block.refCnt = -1) ∧
      (m.storeBlocks toStore toEvict).2 = .ok (some ⟨toStore, spec, toEvict⟩) ∧
      (m.storeBlocks toStore toEvict).1.events = m.events ∧
      ∀ h, (m.storeBlocks toStore toEvict).1.find h =
        (Dict.findEntry h (toStore.zip blocks)).or (m.find h) := by
  obtain ⟨blocks, backend, hallocate, hlen, hnew, -⟩ :=
    CPUBackend.allocateBlocks_spec (H := H) hfree
  unfold storeBlocks
  refine ⟨blocks, backend.getLoadStoreSpec blocks, hlen, hnew, ?_, ?_, fun h => ?_⟩
  · simp only [hallocate]
  · simp only [hallocate, foldl_insert]
  · have hkeys : ((toStore.zip blocks).map Prod.fst).Nodup := by
      rwa [List.map_fst_zip hlen.ge]
    simp only [hallocate, foldl_insert, find, Dict.get?_foldl_insert _ hkeys]

/-- The manager behind the evictions of a store. -/
def evicted (m : LRUOffloadingManager H) (blockHashes : List H) : LRUOffloadingManager H :=
  { m with
    blocks := m.blocks.eraseAll (m.evictedHashes blockHashes)
    backend := m.backend.freeAll
      (((m.evictable blockHashes).take (m.needed blockHashes)).map Prod.snd) }

/-- A store gives up exactly when there are too few victims, and then changes nothing. -/
theorem prepareStore_eq (m : LRUOffloadingManager H) (blockHashes : List H) :
    m.prepareStore blockHashes =
      if m.needed blockHashes ≤ (m.evictable blockHashes).length then
        ((m.evicted blockHashes).report (m.evictedHashes blockHashes) true).storeBlocks
          (m.hashesToStore blockHashes) (m.evictedHashes blockHashes)
      else (m, .ok none) := by
  have hkeys : (m.evictedHashes blockHashes).Nodup :=
    m.blocks.nodup_keys.sublist (((List.take_sublist _ _).trans List.filter_sublist).map _)
  have hfold := foldl_evictBlock (m := m) hkeys fun e he =>
    m.blocks.mem_entries_iff.mp (List.mem_filter.mp (List.mem_of_mem_take he)).1
  unfold prepareStore
  rw [victims_eq]
  by_cases hle : m.needed blockHashes ≤ (m.evictable blockHashes).length
  · rw [if_pos hle, if_pos hle, ← evictedHashes]
    rw [← evictedHashes] at hfold
    simp only [hfold]
    rfl
  · rw [if_neg hle, if_neg hle]

/-- How a store of distinct hashes ends: if there are enough victims with a result, behind
which exactly what was missing is cached and the evicted hashes are reported, and else with
`None`. -/
theorem prepareStore_spec (hnodup : blockHashes.Nodup) :
    (m.needed blockHashes ≤ (m.evictable blockHashes).length →
      ∃ spec, (m.prepareStore blockHashes).2 =
          .ok (some ⟨m.hashesToStore blockHashes, spec, m.evictedHashes blockHashes⟩) ∧
        (m.prepareStore blockHashes).1.events =
          (m.report (m.evictedHashes blockHashes) true).events ∧
        (∀ h, (m.prepareStore blockHashes).1.find h = none →
          m.find h = none ∨ h ∈ m.evictedHashes blockHashes) ∧
        StoresMissing m.find (m.prepareStore blockHashes).1.find blockHashes) ∧
    ((m.evictable blockHashes).length < m.needed blockHashes →
      m.prepareStore blockHashes = (m, .ok none)) := by
  rw [prepareStore_eq]
  constructor
  · intro hle
    rw [if_pos hle]
    have hfree : (m.hashesToStore blockHashes).length ≤
        ((m.evicted blockHashes).report (m.evictedHashes blockHashes)
          true).backend.getNumFreeBlocks := by
      rw [report_backend, evicted]
      simp only [CPUBackend.getNumFreeBlocks_freeAll, List.length_map, List.length_take]
      unfold needed at hle ⊢
      omega
    obtain ⟨blocks, spec, hlen, hnew, hout, hevents, hfind⟩ :=
      storeBlocks_spec (m.evictedHashes blockHashes) hfree (hnodup.filter _)
    have hkept : ∀ h, ((m.evicted blockHashes).report (m.evictedHashes blockHashes) true).find h =
        if h ∈ m.evictedHashes blockHashes then none else m.find h := by
      intro h
      rw [find, report_blocks, evicted, Dict.get?_eraseAll, find]
    have hlost : ∀ h, ((m.evicted blockHashes).report (m.evictedHashes blockHashes) true).find h =
        none → m.find h = none ∨ h ∈ m.evictedHashes blockHashes := by
      intro h hnone
      rw [hkept] at hnone
      split at hnone
      · exact .inr ‹_›
      · exact .inl hnone
    refine ⟨spec, hout, ?_, fun h hnone => ?_, ?_⟩
    · rw [hevents]
      unfold report
      split
      · rfl
      · simp [evicted, CPUBackend.medium]
    · rw [hfind, Option.or_eq_none_iff] at hnone
      exact hlost h hnone.2
    · refine storesMissing_of hlen hnew (fun h => mem_hashesToStore) (fun h hnone => ?_) hlost
        (fun h => mem_evictedHashes) hfind
      rw [hkept, hnone]
      split <;> rfl
  · intro hlt
    rw [if_neg (Nat.not_le_of_lt hlt)]

/-- A store succeeds exactly when space can be made for it, and then stores what was
missing. -/
def StoresWhenPossible (m : LRUOffloadingManager H) (blockHashes : List H) : Prop :=
  ((∃ out, (m.prepareStore blockHashes).2 = .ok (some out)) ↔
    (m.hashesToStore blockHashes).length ≤
      m.backend.getNumFreeBlocks + (m.evictable blockHashes).length) ∧
  ((∃ out, (m.prepareStore blockHashes).2 = .ok (some out)) →
    StoresMissing m.find (m.prepareStore blockHashes).1.find blockHashes)

private theorem storesWhenPossible (hnodup : blockHashes.Nodup) :
    m.StoresWhenPossible blockHashes := by
  obtain ⟨hsuccess, hrefusal⟩ := prepareStore_spec (m := m) hnodup
  have hneeded : (m.hashesToStore blockHashes).length ≤
      m.backend.getNumFreeBlocks + (m.evictable blockHashes).length ↔
      m.needed blockHashes ≤ (m.evictable blockHashes).length := by
    unfold needed
    omega
  have hresult : (∃ out, (m.prepareStore blockHashes).2 = .ok (some out)) →
      m.needed blockHashes ≤ (m.evictable blockHashes).length := by
    rintro ⟨out, hout⟩
    by_contra hnot
    rw [hrefusal (Nat.lt_of_not_le hnot)] at hout
    cases hout
  unfold StoresWhenPossible
  rw [hneeded]
  refine ⟨⟨hresult, fun hle => ?_⟩, fun hout => ?_⟩
  · obtain ⟨spec, hout, -⟩ := hsuccess hle
    exact ⟨_, hout⟩
  · obtain ⟨_, _, _, _, hstored⟩ := hsuccess (hresult hout)
    exact hstored

end LRUOffloadingManager

/-- Whatever was called before, a store of distinct hashes succeeds exactly when space can be
made for it: with the LRU manager always, with the ARC manager exactly if its search for
victims reaches enough of them. -/
theorem store_succeeds_iff (arc : ARCOffloadingManager H) (lru : LRUOffloadingManager H)
    {blockHashes : List H} (hnodup : blockHashes.Nodup) :
    lru.StoresWhenPossible blockHashes ∧
      (arc.StoresWhenPossible blockHashes ↔ arc.SearchReaches blockHashes) :=
  ⟨LRUOffloadingManager.storesWhenPossible hnodup,
    ARCOffloadingManager.storesWhenPossible_iff hnodup⟩

/-- The calls of a run behind which no block is free, and the second one is being read. -/
def pinned : List (ManagerCall Nat) :=
  [.prepareStore [1, 2], .completeStore [1, 2] true, .prepareLoad [2]]

/-- Both managers evict the other block for a third hash. -/
theorem store_succeeds_pinned :
    ((((LRUOffloadingManager.init 16 2 true).run pinned).prepareStore [3]).2.map
        (Option.map PrepareStoreOutput.blockHashesEvicted) = .ok (some [1]) ∧
      (((ARCOffloadingManager.init 16 2 true).run Rounding.identity pinned).prepareStore [3]).2.map
        (Option.map PrepareStoreOutput.blockHashesEvicted) = .ok (some [1])) ∧
    ((LRUOffloadingManager.init 16 2 true).run pinned).StoresWhenPossible [3] ∧
      (((ARCOffloadingManager.init 16 2 true).run Rounding.identity pinned).StoresWhenPossible [3] ↔
        ((ARCOffloadingManager.init 16 2 true).run Rounding.identity pinned).SearchReaches [3]) :=
  ⟨by decide, store_succeeds_iff _ _ (by decide)⟩

/-- The calls of a run behind which `t1` has one block and a target size of two: hash 1 is
evicted and then touched twice, hash 2 is in `t2`. -/
def smallT1 : List (ManagerCall Nat) :=
  [.prepareStore [1, 2], .completeStore [1, 2] true, .prepareStore [3], .completeStore [3] true,
    .touch [1], .touch [1], .touch [2]]

/-- A store of hash 4 together with hash 2 then gives up, though hash 3 could be evicted. -/
theorem smallT1_refused :
    (∀ c ∈ smallT1, c.DistinctHashes) ∧
      ¬ ((ARCOffloadingManager.init 16 2 true).run Rounding.identity smallT1).StoresWhenPossible
        [2, 4] := by
  refine ⟨by decide, fun h => ?_⟩
  rw [ARCOffloadingManager.storesWhenPossible_iff (by decide)] at h
  generalize hm : (ARCOffloadingManager.init 16 2 true).run Rounding.identity smallT1 = m at h
  have hneeded : m.needed [2, 4] = 1 := by
    rw [← hm]
    decide
  have hvictimsT1 : (m.victimsT1 [2, 4]).length = 1 := by
    rw [← hm]
    decide
  have hvictimsT2 : (m.victimsT2 [2, 4]).length = 0 := by
    rw [← hm]
    decide
  have hsize : m.t1.size = 1 := by
    rw [← hm]
    decide
  -- both touches of the ghost raise the target size by one
  have htarget : m.targetT1Size = 2 := by
    have hstep : ARCOffloadingManager.targetStep Rounding.identity 0 1 = 1 := by
      simp [ARCOffloadingManager.targetStep, Rounding.identity]
    calc m.targetT1Size
      _ = min (min (0 + ARCOffloadingManager.targetStep Rounding.identity 0 1) 2 +
            ARCOffloadingManager.targetStep Rounding.identity 0 1) 2 := by
        rw [← hm]
        rfl
      _ = 2 := by
        rw [hstep]
        norm_num
  have htruncate : truncate 2 = 2 := rfl
  unfold ARCOffloadingManager.SearchReaches ARCOffloadingManager.roomT1 at h
  rw [hneeded, hvictimsT1, hvictimsT2, hsize, htarget, htruncate] at h
  have := h (by decide)
  revert this
  decide

end Vllm.Offload
