import Vllm.Offload.StoreSuccess

/-!
# What leaves the cache, and who is told

A store that gives up should change nothing, and what leaves the cache should be
reported as evicted and in one removed event. The LRU manager decides before it evicts.
The ARC manager evicts while it searches, and what it evicted before it gave up is gone
unreported. With both managers a failed store drops hashes without a report.
-/

namespace Vllm.Offload

variable {H : Type} [DecidableEq H]

/-- How many removed events name a hash. -/
def removals (events : List (OffloadingEvent H)) (h : H) : Nat :=
  events.countP fun e => e.removed && decide (h ∈ e.blockHashes)

/-- Every hash that leaves the cache is among the evicted ones and, with events enabled, in
exactly one removed event behind those pending before. -/
def LeavesReported (before after : H → Option CPUBlockStatus)
    (eventsBefore eventsAfter : Option (List (OffloadingEvent H))) (evicted : List H) : Prop :=
  ∀ h, before h ≠ none → after h = none → h ∈ evicted ∧
    ∀ old, eventsBefore = some old →
      ∃ new, eventsAfter = some (old ++ new) ∧ removals new h = 1

omit [DecidableEq H] in
/-- `block_hashes_evicted` of the result of a store, nothing when there is none. -/
def hashesEvicted (result : Except (OffloadError H) (Option (PrepareStoreOutput H))) : List H :=
  match result with
  | .ok (some out) => out.blockHashesEvicted
  | _ => []

/-- When nothing leaves there is nothing to report. -/
theorem leavesReported_of_kept {before after : H → Option CPUBlockStatus}
    (hkept : ∀ h, after h = none → before h = none)
    (eventsBefore eventsAfter : Option (List (OffloadingEvent H))) (evicted : List H) :
    LeavesReported before after eventsBefore eventsAfter evicted :=
  fun h hb ha => absurd (hkept h ha) hb

/-- What is evicted and reported in one event is reported. -/
theorem leavesReported_of_report {before after : H → Option CPUBlockStatus} {evicted : List H}
    (hlost : ∀ h, after h = none → before h = none ∨ h ∈ evicted)
    {eventsBefore eventsAfter : Option (List (OffloadingEvent H))} (blockSize : Nat)
    (medium : String)
    (hevents : eventsAfter = if evicted = [] then eventsBefore
      else eventsBefore.map (· ++ [⟨evicted, blockSize, medium, true⟩])) :
    LeavesReported before after eventsBefore eventsAfter evicted := by
  intro h hb ha
  have hmem : h ∈ evicted := (hlost h ha).resolve_left hb
  refine ⟨hmem, fun old hold => ⟨[⟨evicted, blockSize, medium, true⟩], ?_, ?_⟩⟩
  · rw [hevents, if_neg (List.ne_nil_of_mem hmem), hold]
    rfl
  · simp [removals, hmem]

namespace ARCOffloadingManager

variable {m : ARCOffloadingManager H} {fl : Rounding}

omit [DecidableEq H] in
/-- The cached entries, their order, the free list and the pending events are the same. -/
def SameCache (m m' : ARCOffloadingManager H) : Prop :=
  m'.t1.entries = m.t1.entries ∧ m'.t2.entries = m.t2.entries ∧
    m'.backend.allocatedBlocksFreeList = m.backend.allocatedBlocksFreeList ∧ m'.events = m.events

/-- A call that is a refused store changes nothing. -/
def RefusalAtomic (m : ARCOffloadingManager H) : ManagerCall H → Prop
  | .prepareStore blockHashes =>
    (m.prepareStore blockHashes).2 = .ok none → m.SameCache (m.prepareStore blockHashes).1
  | _ => True

/-- What a call reports as evicted. -/
def reported (m : ARCOffloadingManager H) : ManagerCall H → List H
  | .prepareStore blockHashes => hashesEvicted (m.prepareStore blockHashes).2
  | _ => []

/-- A call that is atomic when refused and reports what leaves. -/
def CallOpen (fl : Rounding) (m : ARCOffloadingManager H) (c : ManagerCall H) : Prop :=
  m.RefusalAtomic c ∧
    LeavesReported m.find (m.call fl c).find m.events (m.call fl c).events (m.reported c)

/-- A refused store finds no victim at all, and a failed store names no cached hash. -/
def DropsNothing (m : ARCOffloadingManager H) : ManagerCall H → Prop
  | .prepareStore blockHashes =>
    m.room blockHashes < m.needed blockHashes → m.room blockHashes = 0
  | .completeStore blockHashes false => ∀ h ∈ blockHashes, m.find h = none
  | _ => True

/-! ## The two parts of the cache -/

/-- No hash is in both parts of the cache. -/
def Split (m : ARCOffloadingManager H) : Prop := ∀ h, m.t1.get? h = none ∨ m.t2.get? h = none

theorem Split.write (hm : m.Split) {h : H} {block : CPUBlockStatus} (hfind : m.find h = some block)
    (block' : CPUBlockStatus) : (m.write h block').Split := by
  intro h'
  have hh' := hm h'
  unfold ARCOffloadingManager.write
  split
  · rename_i hT1
    obtain ⟨block₁, hget⟩ := Dict.contains_eq_true.mp hT1
    by_cases he : h' = h
    · subst he
      simpa [hget] using hh'
    · simpa [he] using hh'
  · rename_i hT1
    have hnone : m.t1.get? h = none := Dict.contains_eq_false.mp (by simpa using hT1)
    by_cases he : h' = h
    · exact .inl (he ▸ hnone)
    · simpa [he] using hh'

/-- Changing a block keeps which hashes are cached. -/
theorem find_write_eq_none {h h' : H} {block block' : CPUBlockStatus}
    (hfind : m.find h = some block) : (m.write h block').find h' = none ↔ m.find h' = none := by
  have hne : ¬ (m.t1.get? h = none ∧ m.t2.get? h = none) := fun hnone => by
    rw [find_eq_none.mpr hnone] at hfind
    cases hfind
  rw [find_eq_none, find_eq_none]
  unfold write
  by_cases he : h' = h
  · subst he
    split
    · simpa using hne
    · rename_i hT1
      have hnone : m.t1.get? h' = none := Dict.contains_eq_false.mp (by simpa using hT1)
      simpa using hne
  · split <;> simp [he]

/-- Touching a hash keeps which hashes are cached. -/
theorem find_touchBlock_eq_none {h h' : H} :
    (m.touchBlock fl h).find h' = none ↔ m.find h' = none := by
  rw [find_eq_none, find_eq_none]
  unfold touchBlock
  cases hT1 : m.t1.get? h with
  | some block =>
    by_cases he : h' = h
    · subst he
      simp only
      split <;> simp [hT1]
    · simp only
      split <;> simp [he]
  | none =>
    simp only
    split
    · simp
    split
    · rfl
    split
    · rfl
    · rfl

theorem Split.touchBlock (hm : m.Split) (h : H) : (m.touchBlock fl h).Split := by
  intro h'
  have hh' := hm h'
  unfold ARCOffloadingManager.touchBlock
  cases hT1 : m.t1.get? h with
  | some block =>
    by_cases he : h' = h
    · subst he
      simp only
      split
      · simpa [hT1] using hh'
      · simp
    · simp only
      split <;> simpa [he] using hh'
  | none =>
    simp only
    split
    · simpa using hh'
    split
    · exact hh'
    split
    · exact hh'
    · exact hh'

theorem Split.dropBlock (hm : m.Split) (h : H) : (m.dropBlock h).Split := by
  intro h'
  have hh' := hm h'
  unfold ARCOffloadingManager.dropBlock
  cases hT1 : m.t1.get? h with
  | some block =>
    simp only [Dict.get?_erase]
    split
    · exact .inl rfl
    · exact hh'
  | none =>
    cases hT2 : m.t2.get? h with
    | some block =>
      simp only [Dict.get?_erase]
      split
      · exact .inr rfl
      · exact hh'
    | none => exact hh'

theorem Split.evicted (hm : m.Split) (blockHashes : List H) : (m.evicted blockHashes).Split := by
  intro h
  rw [ARCOffloadingManager.evicted, evictAll_eq]
  simp only [Dict.get?_eraseAll]
  rcases hm h with hnone | hnone
  · exact .inl (by rw [hnone, ite_self])
  · exact .inr (by rw [hnone, ite_self])

variable {blockHashes : List H}

theorem Split.prepareStore (hm : m.Split) (hnodup : blockHashes.Nodup) :
    (m.prepareStore blockHashes).1.Split := by
  rw [prepareStore_eq]
  split
  · exact hm
  split
  · rename_i hroom
    intro h
    obtain ⟨blocks, spec, hlen, hnew, -, -, hT2, hT1⟩ :=
      storeBlocks_spec (m.evictedHashes blockHashes)
        (length_le_getNumFreeBlocks hroom) (hnodup.filter _)
    rw [hT2, hT1]
    by_cases hmem : h ∈ m.hashesToStore blockHashes
    · obtain ⟨_, hnone₁, hnone₂⟩ := mem_hashesToStore.mp hmem
      exact .inr (evicted_absent hnone₁ hnone₂).2
    · rw [(findEntry_zip hlen hnew h).2 hmem, Option.none_or]
      exact hm.evicted blockHashes h
  · exact hm.evicted blockHashes

theorem Split.report (hm : m.Split) (l : List H) (removed : Bool) : (m.report l removed).Split := by
  unfold ARCOffloadingManager.report
  split
  · exact hm
  · exact hm

theorem Split.markStored (hm : m.Split) (blockHashes stored : List H) :
    (markStored m blockHashes stored).1.Split := by
  induction blockHashes generalizing m stored with
  | nil => exact hm
  | cons h rest ih =>
    unfold ARCOffloadingManager.markStored
    cases hfind : m.find h with
    | none => exact ih hm _
    | some block =>
      simp only
      split
      · exact ih hm _
      · exact ih (hm.write hfind _) _

/-- Every call keeps the two parts of the cache apart. -/
theorem Split.call (hm : m.Split) {c : ManagerCall H} (hdistinct : c.DistinctHashes) :
    (m.call fl c).Split := by
  cases c with
  | lookup blockHashes => exact hm
  | prepareLoad blockHashes =>
    exact holdBlocks_keeps (fun _ _ _ _ hm hfind => hm.write hfind _) hm _ _
  | touch blockHashes =>
    refine List.foldlRecOn blockHashes.reverse (ARCOffloadingManager.touchBlock fl) hm
      fun m hm h _ => ?_
    exact hm.touchBlock h
  | completeLoad blockHashes =>
    exact releaseBlocks_keeps (fun _ _ _ _ hm hfind => hm.write hfind _) hm _
  | prepareStore blockHashes => exact hm.prepareStore hdistinct
  | completeStore blockHashes success =>
    cases success with
    | true => exact (hm.markStored blockHashes []).report _ _
    | false =>
      refine List.foldlRecOn blockHashes ARCOffloadingManager.dropBlock hm fun m hm h _ => ?_
      exact hm.dropBlock h
  | takeEvents => exact hm

/-- Behind every sequence of calls the two parts of the cache are apart. -/
theorem split_run (fl : Rounding) (blockSize numBlocks : Nat) (enableEvents : Bool)
    {calls : List (ManagerCall H)} (hdistinct : ∀ c ∈ calls, c.DistinctHashes) :
    ((init blockSize numBlocks enableEvents).run fl calls).Split :=
  TotalRun.invariant (fun _ _ hm hc => hm.call hc) (fun _ => .inl rfl)
    (TotalRun.throughout_of_mem hdistinct _)

/-! ## Which calls are open -/

/-- A call that is no store and no failed one keeps which hashes are cached. -/
theorem find_keeps (fl : Rounding) {I : ARCOffloadingManager H → Prop}
    (hI : ∀ m m' : ARCOffloadingManager H, I m → (∀ h, m'.find h = none → m.find h = none) → I m')
    (hm : I m) (blockHashes : List H) :
    I (m.prepareLoad blockHashes).1 ∧ I (m.completeLoad blockHashes).1 ∧
      I (m.touch fl blockHashes) ∧ I (m.completeStore blockHashes true) := by
  have hwrite : ∀ (m : ARCOffloadingManager H) h block n, I m → m.find h = some block →
      I (m.write h { block with refCnt := n }) := by
    intro m h block n hm hfind
    exact hI m _ hm fun h' => (find_write_eq_none hfind).mp
  refine ⟨holdBlocks_keeps hwrite hm _ _, releaseBlocks_keeps hwrite hm _, ?_, ?_⟩
  · refine List.foldlRecOn blockHashes.reverse (touchBlock fl) hm fun m hm h _ => ?_
    exact hI m _ hm fun h' => find_touchBlock_eq_none.mp
  · have hmark : ∀ (l stored : List H) (m : ARCOffloadingManager H), I m →
        I (markStored m l stored).1 := by
      intro l
      induction l with
      | nil => exact fun _ _ hm => hm
      | cons h rest ih =>
        intro stored m hm
        unfold markStored
        cases hfind : m.find h with
        | none => exact ih _ _ hm
        | some block =>
          simp only
          split
          · exact ih _ _ hm
          · exact ih _ _ (hwrite m h block 0 hm hfind)
    refine hI _ _ (hmark blockHashes [] m hm) fun h hnone => ?_
    unfold completeStore report at hnone
    simp only [if_true] at hnone
    split at hnone
    · exact hnone
    · exact hnone

/-- Popping a hash takes it out of the cache, and no other. -/
theorem Split.find_dropBlock (hm : m.Split) (h h' : H) :
    (m.dropBlock h).find h' = if h' = h then none else m.find h' := by
  unfold ARCOffloadingManager.dropBlock find
  cases hT1 : m.t1.get? h with
  | some block =>
    have hT2 : m.t2.get? h = none := by
      rcases hm h with hnone | hnone
      · rw [hT1] at hnone
        cases hnone
      · exact hnone
    by_cases he : h' = h
    · simp [he, hT2]
    · simp [he]
  | none =>
    cases hT2 : m.t2.get? h with
    | some block =>
      by_cases he : h' = h
      · simp [he, hT1]
      · simp [he]
    | none =>
      by_cases he : h' = h
      · simp [he, hT1, hT2]
      · simp [he]

/-- A failed store takes all hashes that it names out of the cache, and no other. -/
theorem Split.find_foldl_dropBlock (hm : m.Split) (blockHashes : List H) (h : H) :
    (blockHashes.foldl ARCOffloadingManager.dropBlock m).find h =
      if h ∈ blockHashes then none else m.find h := by
  induction blockHashes generalizing m with
  | nil => rfl
  | cons a rest ih =>
    rw [List.foldl_cons, ih (hm.dropBlock a), hm.find_dropBlock]
    by_cases he : h = a
    · simp [he]
    · simp only [he, if_false, List.mem_cons, false_or]

/-- An eviction that leaves the cache as it was evicted nothing. -/
theorem room_eq_zero_of_sameCache (hlt : m.room blockHashes < m.needed blockHashes)
    (hsame : m.SameCache (m.evicted blockHashes)) : m.room blockHashes = 0 := by
  have hgone : ∀ (t : Dict H CPUBlockStatus) (l : List H),
      (t.eraseAll l).entries = t.entries → ∀ h ∈ l, t.get? h = none := by
    intro t l hentries h hmem
    have hget := t.get?_eraseAll l h
    rwa [if_pos hmem, Dict.get?, hentries, ← Dict.get?] at hget
  obtain ⟨hT1, hT2, -⟩ := hsame
  rw [evicted, evictAll_eq] at hT1 hT2
  have hemptyT1 : m.evictedT1 blockHashes (m.needed blockHashes) = [] := by
    refine List.eq_nil_iff_forall_not_mem.mpr fun e he => ?_
    have hnone := hgone _ _ hT1 e.1 (List.mem_map_of_mem he)
    rw [(mem_victimsT1.mp (List.mem_of_mem_take he)).1] at hnone
    cases hnone
  have hemptyT2 : m.evictedT2 blockHashes (m.needed blockHashes) = [] := by
    refine List.eq_nil_iff_forall_not_mem.mpr fun e he => ?_
    have hnone := hgone _ _ hT2 e.1 (List.mem_map_of_mem he)
    rw [(mem_victimsT2.mp (List.mem_of_mem_take he)).1] at hnone
    cases hnone
  have hlenT1 := length_evictedT1 m blockHashes (m.needed blockHashes)
  have hlenT2 := length_evictedT2 m blockHashes (m.needed blockHashes)
  rw [hemptyT1, List.length_nil] at hlenT1
  rw [hemptyT2, List.length_nil] at hlenT2
  unfold room at hlt ⊢
  omega

/-- An eviction loop that finds no victim leaves the manager as it was. -/
private theorem evicted_of_room_eq_zero (hroom : m.room blockHashes = 0) :
    m.evicted blockHashes = m := by
  have hzero : m.roomT1 blockHashes = 0 ∧ (m.victimsT2 blockHashes).length = 0 := by
    unfold room at hroom
    omega
  have hemptyT1 : m.evictedT1 blockHashes (m.needed blockHashes) = [] := by
    rw [← List.length_eq_zero_iff, length_evictedT1, hzero.1, Nat.min_zero]
  have hemptyT2 : m.evictedT2 blockHashes (m.needed blockHashes) = [] := by
    rw [← List.length_eq_zero_iff, length_evictedT2, hzero.2, Nat.min_zero]
  rw [evicted, hemptyT1, hemptyT2]
  rfl

/-- A store is atomic when refused and reports what leaves exactly if it is not refused, or
refused without a victim. -/
theorem callOpen_prepareStore_iff (hnodup : blockHashes.Nodup) :
    m.CallOpen fl (.prepareStore blockHashes) ↔ m.DropsNothing (.prepareStore blockHashes) := by
  obtain ⟨-, hrefusal⟩ := prepareStore_spec (m := m) hnodup
  constructor
  · intro h hlt
    have hatomic : (m.prepareStore blockHashes).2 = .ok none →
      m.SameCache (m.prepareStore blockHashes).1 := h.1
    rw [hrefusal hlt] at hatomic
    exact room_eq_zero_of_sameCache hlt (hatomic rfl)
  intro hdrops
  by_cases hlt : m.room blockHashes < m.needed blockHashes
  · have hsame : m.prepareStore blockHashes = (m, .ok none) := by
      rw [hrefusal hlt, evicted_of_room_eq_zero (hdrops hlt)]
    refine ⟨fun _ => ?_, leavesReported_of_kept (fun h hnone => ?_) _ _ _⟩
    · rw [hsame]
      exact ⟨rfl, rfl, rfl, rfl⟩
    · rwa [call, hsame] at hnone
  · have hroom := Nat.le_of_not_lt hlt
    have hresult := ((prepareStore_spec (m := m) hnodup).1 hroom).1
    refine ⟨fun hnone => ?_, ?_⟩
    · obtain ⟨out, hout⟩ := hresult
      rw [hout] at hnone
      cases hnone
    by_cases hempty : m.hashesToStore blockHashes = []
    · refine leavesReported_of_kept (fun h hnone => ?_) _ _ _
      rwa [call, prepareStore_eq, if_pos hempty] at hnone
    · have hstore : m.prepareStore blockHashes = (m.evicted blockHashes).storeBlocks
          (m.hashesToStore blockHashes) (m.evictedHashes blockHashes) := by
        rw [prepareStore_eq, if_neg hempty, if_pos hroom]
      obtain ⟨⟨spec, hout⟩, hevents, hlost, -⟩ :=
        storeEvicted_spec hnodup hroom (Prod.mk.eta).symm
      rw [← hstore] at hout hevents hlost
      have hreported : m.reported (.prepareStore blockHashes) = m.evictedHashes blockHashes := by
        rw [reported, hout]
        rfl
      rw [hreported]
      refine leavesReported_of_report hlost (m.evicted blockHashes).backend.blockSize
        (m.evicted blockHashes).backend.medium ?_
      have hpending : (m.evicted blockHashes).events = m.events := by
        rw [evicted, evictAll_eq]
      rw [call, hevents, report]
      split
      · exact hpending
      · rw [hpending]

/-- A failed store reports nothing, so it is open exactly if it names no cached hash. -/
private theorem callOpen_failedStore_iff (hm : m.Split) (blockHashes : List H) :
    m.CallOpen fl (.completeStore blockHashes false) ↔
      m.DropsNothing (.completeStore blockHashes false) := by
  have hfind : ∀ h, (m.call fl (.completeStore blockHashes false)).find h =
      if h ∈ blockHashes then none else m.find h := hm.find_foldl_dropBlock blockHashes
  constructor
  · intro hopen h hmem
    by_contra hne
    have hleft := hopen.2 h hne (by rw [hfind, if_pos hmem])
    exact absurd hleft.1 List.not_mem_nil
  · intro hdrops
    refine ⟨trivial, leavesReported_of_kept (fun h hnone => ?_) _ _ _⟩
    rw [hfind] at hnone
    split at hnone
    · exact hdrops h ‹_›
    · exact hnone

/-- A call is atomic when refused and reports what leaves exactly if it drops nothing
unreported. -/
theorem callOpen_iff (hm : m.Split) {c : ManagerCall H} (hdistinct : c.DistinctHashes) :
    m.CallOpen fl c ↔ m.DropsNothing c := by
  have hkeeps := fun blockHashes => find_keeps fl (m := m)
    (I := fun m' => ∀ h, m'.find h = none → m.find h = none)
    (fun _ _ h h' a ha => h a (h' a ha)) (fun _ h => h) blockHashes
  cases c with
  | lookup blockHashes =>
    exact iff_of_true ⟨trivial, leavesReported_of_kept (fun _ h => h) _ _ _⟩ trivial
  | prepareLoad blockHashes =>
    exact iff_of_true ⟨trivial, leavesReported_of_kept (hkeeps blockHashes).1 _ _ _⟩ trivial
  | touch blockHashes =>
    exact iff_of_true ⟨trivial, leavesReported_of_kept (hkeeps blockHashes).2.2.1 _ _ _⟩ trivial
  | completeLoad blockHashes =>
    exact iff_of_true ⟨trivial, leavesReported_of_kept (hkeeps blockHashes).2.1 _ _ _⟩ trivial
  | prepareStore blockHashes => exact callOpen_prepareStore_iff hdistinct
  | completeStore blockHashes success =>
    cases success with
    | true =>
      exact iff_of_true ⟨trivial, leavesReported_of_kept (hkeeps blockHashes).2.2.2 _ _ _⟩ trivial
    | false => exact callOpen_failedStore_iff hm blockHashes
  | takeEvents => exact iff_of_true ⟨trivial, leavesReported_of_kept (fun _ h => h) _ _ _⟩ trivial

end ARCOffloadingManager

namespace LRUOffloadingManager

variable {m : LRUOffloadingManager H}

omit [DecidableEq H] in
/-- The cached entries, their order, the free list and the pending events are the same. -/
def SameCache (m m' : LRUOffloadingManager H) : Prop :=
  m'.blocks.entries = m.blocks.entries ∧
    m'.backend.allocatedBlocksFreeList = m.backend.allocatedBlocksFreeList ∧ m'.events = m.events

/-- A call that is a refused store changes nothing. -/
def RefusalAtomic (m : LRUOffloadingManager H) : ManagerCall H → Prop
  | .prepareStore blockHashes =>
    (m.prepareStore blockHashes).2 = .ok none → m.SameCache (m.prepareStore blockHashes).1
  | _ => True

/-- What a call reports as evicted. -/
def reported (m : LRUOffloadingManager H) : ManagerCall H → List H
  | .prepareStore blockHashes => hashesEvicted (m.prepareStore blockHashes).2
  | _ => []

/-- A call that is atomic when refused and reports what leaves. -/
def CallOpen (m : LRUOffloadingManager H) (c : ManagerCall H) : Prop :=
  m.RefusalAtomic c ∧
    LeavesReported m.find (m.call c).find m.events (m.call c).events (m.reported c)

/-- A failed store names no block that is not ready before it names a hash that is not
cached. -/
def DropsNothing (m : LRUOffloadingManager H) : ManagerCall H → Prop
  | .completeStore blockHashes false =>
    ∀ h ∈ blockHashes.takeWhile (fun h => (m.find h).isSome),
      (m.find h).any CPUBlockStatus.isReady = true
  | _ => True

/-- Changing a block keeps which hashes are cached. -/
theorem find_write_eq_none {h h' : H} {block block' : CPUBlockStatus}
    (hfind : m.find h = some block) : (m.write h block').find h' = none ↔ m.find h' = none := by
  unfold write find at *
  by_cases he : h' = h
  · simp [he, hfind]
  · simp [he]

/-- A call that is no store and no failed one keeps which hashes are cached. -/
theorem find_keeps {I : LRUOffloadingManager H → Prop}
    (hI : ∀ m m' : LRUOffloadingManager H, I m → (∀ h, m'.find h = none → m.find h = none) → I m')
    (hm : I m) (blockHashes : List H) :
    I (m.prepareLoad blockHashes).1 ∧ I (m.completeLoad blockHashes).1 ∧
      I (m.touch blockHashes) ∧ I (m.completeStore blockHashes true).1 := by
  have hwrite : ∀ (m : LRUOffloadingManager H) h block n, I m → m.find h = some block →
      I (m.write h { block with refCnt := n }) := by
    intro m h block n hm hfind
    exact hI m _ hm fun h' => (find_write_eq_none hfind).mp
  refine ⟨holdBlocks_keeps hwrite hm _ _, releaseBlocks_keeps hwrite hm _, ?_, ?_⟩
  · refine List.foldlRecOn blockHashes.reverse _ hm fun m hm h _ => ?_
    refine hI m _ hm fun h' => ?_
    split
    · simp [find]
    · exact id
  · have hmark : ∀ (l stored : List H) (m : LRUOffloadingManager H), I m →
        I (markStored m l stored).1 := by
      intro l
      induction l with
      | nil => exact fun _ _ hm => hm
      | cons h rest ih =>
        intro stored m hm
        unfold markStored
        cases hfind : m.find h with
        | none => exact hm
        | some block =>
          simp only
          split
          · exact ih _ _ hm
          · exact ih _ _ (hwrite m h block 0 hm hfind)
    have hstored := hmark blockHashes [] m hm
    unfold completeStore
    simp only [if_true]
    split
    · rename_i m' stored hmarked
      rw [hmarked] at hstored
      refine hI m' _ hstored fun h => ?_
      rw [find, report_blocks]
      exact id
    · rename_i m' e hmarked
      rwa [hmarked] at hstored

/-- A store is atomic when refused and reports what leaves. -/
theorem callOpen_prepareStore {blockHashes : List H} (hnodup : blockHashes.Nodup) :
    m.CallOpen (.prepareStore blockHashes) := by
  obtain ⟨hsuccess, hrefusal⟩ := prepareStore_spec (m := m) hnodup
  by_cases hlt : (m.evictable blockHashes).length < m.needed blockHashes
  · refine ⟨fun _ => ?_, leavesReported_of_kept (fun h hnone => ?_) _ _ _⟩
    · rw [hrefusal hlt]
      exact ⟨rfl, rfl, rfl⟩
    · rwa [call, hrefusal hlt] at hnone
  · obtain ⟨spec, hout, hevents, hlost, -⟩ := hsuccess (Nat.le_of_not_lt hlt)
    refine ⟨fun hnone => ?_, ?_⟩
    · rw [hout] at hnone
      cases hnone
    have hreported : m.reported (.prepareStore blockHashes) = m.evictedHashes blockHashes := by
      rw [reported, hout]
      rfl
    rw [hreported]
    refine leavesReported_of_report hlost m.backend.blockSize m.backend.medium ?_
    rw [call, hevents, report]
    split <;> rfl

/-- The rest of a failed store caches nothing. -/
private theorem find_dropBlocks_eq_none {h : H} (hnone : m.find h = none) (blockHashes : List H) :
    (m.dropBlocks blockHashes).1.find h = none := by
  induction blockHashes generalizing m with
  | nil => exact hnone
  | cons a rest ih =>
    unfold dropBlocks
    cases hfind : m.find a with
    | none => exact hnone
    | some block =>
      simp only
      split
      · exact ih hnone
      · refine ih ?_
        unfold find at hnone ⊢
        simp [hnone]

/-- A failed store drops a hash exactly if it comes to a block that is not ready. -/
theorem dropBlocks_keeps_iff (m : LRUOffloadingManager H) (blockHashes : List H) :
    (∀ h, (m.dropBlocks blockHashes).1.find h = none → m.find h = none) ↔
      ∀ h ∈ blockHashes.takeWhile (fun h => (m.find h).isSome),
        (m.find h).any CPUBlockStatus.isReady = true := by
  induction blockHashes with
  | nil => exact iff_of_true (fun _ h => h) (by simp)
  | cons a rest ih =>
    unfold dropBlocks
    cases hfind : m.find a with
    | none => exact iff_of_true (fun _ h => h) (by simp [hfind])
    | some block =>
      simp only
      by_cases hready : block.isReady
      · rw [if_pos hready, ih]
        simp [hfind, hready]
      · rw [if_neg hready]
        refine iff_of_false (fun hkeeps => ?_) (fun hall => ?_)
        · have hgone := hkeeps a (find_dropBlocks_eq_none (by simp [find]) rest)
          rw [hfind] at hgone
          cases hgone
        · have := hall a (by simp [hfind])
          rw [hfind] at this
          exact hready (by simpa using this)

/-- A call is atomic when refused and reports what leaves exactly if it drops nothing
unreported. -/
theorem callOpen_iff {c : ManagerCall H} (hdistinct : c.DistinctHashes) :
    m.CallOpen c ↔ m.DropsNothing c := by
  have hkeeps := fun blockHashes => find_keeps (m := m)
    (I := fun m' => ∀ h, m'.find h = none → m.find h = none)
    (fun _ _ h h' a ha => h a (h' a ha)) (fun _ h => h) blockHashes
  cases c with
  | lookup blockHashes =>
    exact iff_of_true ⟨trivial, leavesReported_of_kept (fun _ h => h) _ _ _⟩ trivial
  | prepareLoad blockHashes =>
    exact iff_of_true ⟨trivial, leavesReported_of_kept (hkeeps blockHashes).1 _ _ _⟩ trivial
  | touch blockHashes =>
    exact iff_of_true ⟨trivial, leavesReported_of_kept (hkeeps blockHashes).2.2.1 _ _ _⟩ trivial
  | completeLoad blockHashes =>
    exact iff_of_true ⟨trivial, leavesReported_of_kept (hkeeps blockHashes).2.1 _ _ _⟩ trivial
  | prepareStore blockHashes => exact iff_of_true (callOpen_prepareStore hdistinct) trivial
  | completeStore blockHashes success =>
    cases success with
    | true =>
      exact iff_of_true ⟨trivial, leavesReported_of_kept (hkeeps blockHashes).2.2.2 _ _ _⟩ trivial
    | false =>
      refine Iff.trans ?_ (dropBlocks_keeps_iff m blockHashes)
      constructor
      · intro hopen h hnone
        by_contra hne
        exact absurd (hopen.2 h hne hnone).1 List.not_mem_nil
      · exact fun hkept => ⟨trivial, leavesReported_of_kept hkept _ _ _⟩
  | takeEvents => exact iff_of_true ⟨trivial, leavesReported_of_kept (fun _ h => h) _ _ _⟩ trivial

end LRUOffloadingManager

/-- Behind every sequence of calls, a call is atomic when refused and reports what leaves the
cache exactly if it drops nothing unreported: with either manager a failed store may, with the
ARC manager also a refused one. -/
theorem callOpen_behind_run (fl : Rounding) (blockSize numBlocks : Nat) (enableEvents : Bool)
    {calls : List (ManagerCall H)} (hdistinct : ∀ c ∈ calls, c.DistinctHashes)
    {arc : ARCOffloadingManager H} {lru : LRUOffloadingManager H}
    (harc : (ARCOffloadingManager.init blockSize numBlocks enableEvents).run fl calls = arc)
    (hlru : (LRUOffloadingManager.init blockSize numBlocks enableEvents).run calls = lru)
    {c : ManagerCall H} (hc : c.DistinctHashes) :
    (arc.CallOpen fl c ↔ arc.DropsNothing c) ∧ (lru.CallOpen c ↔ lru.DropsNothing c) := by
  subst harc hlru
  exact ⟨ARCOffloadingManager.callOpen_iff
    (ARCOffloadingManager.split_run fl blockSize numBlocks enableEvents hdistinct) hc,
    LRUOffloadingManager.callOpen_iff hc⟩

/-- The calls of a run behind which one of two blocks is being read. -/
def heldBlock : List (ManagerCall Nat) :=
  [.prepareStore [1, 2], .completeStore [1, 2] true, .prepareLoad [2]]

theorem heldBlock_open :
    (((ARCOffloadingManager.init 16 2 true).run Rounding.identity heldBlock).CallOpen
        Rounding.identity (.prepareStore [3]) ↔
      ((ARCOffloadingManager.init 16 2 true).run Rounding.identity heldBlock).DropsNothing
        (.prepareStore [3])) ∧
    (((LRUOffloadingManager.init 16 2 true).run heldBlock).CallOpen (.prepareStore [3]) ↔
      ((LRUOffloadingManager.init 16 2 true).run heldBlock).DropsNothing (.prepareStore [3])) :=
  callOpen_behind_run Rounding.identity 16 2 true (by decide) rfl rfl (by decide)

/-- A store of two hashes is then refused by the ARC manager, but hash 1 is gone. -/
theorem heldBlock_refusal :
    (∀ c ∈ heldBlock, c.DistinctHashes) ∧ (ManagerCall.prepareStore [3, 4]).DistinctHashes ∧
      ¬ ((ARCOffloadingManager.init 16 2 true).run Rounding.identity heldBlock).CallOpen
        Rounding.identity (.prepareStore [3, 4]) := by
  refine ⟨by decide, by decide, fun hopen => ?_⟩
  have hsame : ARCOffloadingManager.SameCache
      ((ARCOffloadingManager.init 16 2 true).run Rounding.identity heldBlock)
      (((ARCOffloadingManager.init 16 2 true).run Rounding.identity heldBlock).prepareStore
        [3, 4]).1 := hopen.1 rfl
  have hentries := hsame.1
  revert hentries
  decide

end Vllm.Offload
