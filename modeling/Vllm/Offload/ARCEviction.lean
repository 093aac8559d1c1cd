import Vllm.Offload.ARCManager

/-!
# What the eviction loop of the ARC manager does

Which part a victim comes from depends on the target size, which the loop does not
move. So the loop first evicts from `t1`, as far as there are victims and `t1` stays
large enough, and from then on from `t2`; it has done its work exactly when both
together held enough.
-/

namespace Vllm.Offload.ARCOffloadingManager

variable {H : Type} [DecidableEq H] {m : ARCOffloadingManager H} {isProtected : List H}

/-- The blocks of `t1` that may be evicted, oldest first. -/
def victimsT1 (m : ARCOffloadingManager H) (isProtected : List H) : List (H × CPUBlockStatus) :=
  m.t1.entries.filter (isVictim isProtected)

/-- The blocks of `t2` that may be evicted, oldest first. -/
def victimsT2 (m : ARCOffloadingManager H) (isProtected : List H) : List (H × CPUBlockStatus) :=
  m.t2.entries.filter (isVictim isProtected)

/-- How many blocks the loop can evict from `t1` before `t1` is too small. -/
def roomT1 (m : ARCOffloadingManager H) (isProtected : List H) : Nat :=
  min (m.victimsT1 isProtected).length (m.t1.size + 1 - truncate m.targetT1Size).toNat

/-- How many blocks the loop can evict at all. -/
def room (m : ARCOffloadingManager H) (isProtected : List H) : Nat :=
  m.roomT1 isProtected + (m.victimsT2 isProtected).length

private theorem oldestVictim_eq_head? (t : Dict H CPUBlockStatus) :
    oldestVictim isProtected t = (t.entries.filter (isVictim isProtected)).head? :=
  List.head?_filter.symm

variable {e : H × CPUBlockStatus}

theorem mem_victimsT1 :
    e ∈ m.victimsT1 isProtected ↔ m.t1.get? e.1 = some e.2 ∧ isVictim isProtected e = true := by
  rw [victimsT1, List.mem_filter, ← Dict.mem_entries_iff]

theorem mem_victimsT2 :
    e ∈ m.victimsT2 isProtected ↔ m.t2.get? e.1 = some e.2 ∧ isVictim isProtected e = true := by
  rw [victimsT2, List.mem_filter, ← Dict.mem_entries_iff]

variable {rest : List (H × CPUBlockStatus)}

/-- Erasing the oldest victim leaves the others. -/
theorem filter_erase_head {t : Dict H CPUBlockStatus}
    (h : t.entries.filter (isVictim isProtected) = e :: rest) :
    (t.erase e.1).entries.filter (isVictim isProtected) = rest := by
  have hnodup : ((e :: rest).map Prod.fst).Nodup := by
    rw [← h]
    exact t.nodup_keys.sublist (List.filter_sublist.map _)
  rw [List.map_cons, List.nodup_cons] at hnodup
  rw [Dict.erase, List.filter_comm, h, List.filter_cons_of_neg (by simp),
    Dict.filter_ne_eq_self hnodup.1]

private theorem victimsT1_evictT1 (h : m.victimsT1 isProtected = e :: rest) :
    (m.evictT1 e).victimsT1 isProtected = rest :=
  filter_erase_head h

private theorem victimsT2_evictT2 (h : m.victimsT2 isProtected = e :: rest) :
    (m.evictT2 e).victimsT2 isProtected = rest :=
  filter_erase_head h

/-- Evicting the oldest victim of `t1` takes one from what `t1` can give. -/
theorem roomT1_evictT1 (h : m.victimsT1 isProtected = e :: rest) (hlarge : m.T1Large) :
    m.roomT1 isProtected = (m.evictT1 e).roomT1 isProtected + 1 := by
  have hmem : e ∈ m.victimsT1 isProtected := by
    rw [h]
    exact List.mem_cons_self
  have hsize := Dict.size_erase (mem_victimsT1.mp hmem).1
  have hlarge : truncate m.targetT1Size ≤ m.t1.size := hlarge
  rw [roomT1, roomT1, victimsT1_evictT1 h, h, List.length_cons]
  simp only [evictT1]
  omega

private theorem roomT1_eq_zero : m.roomT1 isProtected = 0 ↔ m.victimT1 isProtected = none := by
  have hzero : m.roomT1 isProtected = 0 ↔ m.victimsT1 isProtected = [] ∨ ¬ m.T1Large := by
    rw [roomT1, ← List.length_eq_zero_iff, T1Large]
    omega
  rw [hzero, victimT1, oldestVictim_eq_head?, ← victimsT1]
  split
  · rename_i hlarge
    simp [hlarge, List.head?_eq_none_iff]
  · rename_i hlarge
    simp [hlarge]

/-- `t1` gives its oldest victim as long as it can give any. -/
theorem victimT1_eq_some (h : m.victimT1 isProtected = some e) :
    m.T1Large ∧ ∃ rest, m.victimsT1 isProtected = e :: rest := by
  rw [victimT1, oldestVictim_eq_head?, ← victimsT1] at h
  split at h
  · rename_i hlarge
    obtain ⟨rest, hrest⟩ := List.head?_eq_some_iff.mp h
    exact ⟨hlarge, rest, hrest⟩
  · cases h

/-- The manager behind the eviction of blocks of `t1` and then of `t2`. -/
def evictAll (m : ARCOffloadingManager H) (fromT1 fromT2 : List (H × CPUBlockStatus)) :
    ARCOffloadingManager H :=
  fromT2.foldl evictT2 (fromT1.foldl evictT1 m)

/-- The victims of `t1` that a loop of `n` rounds evicts. -/
def evictedT1 (m : ARCOffloadingManager H) (isProtected : List H) (n : Nat) :
    List (H × CPUBlockStatus) :=
  (m.victimsT1 isProtected).take (min n (m.roomT1 isProtected))

/-- The victims of `t2` that a loop of `n` rounds evicts. -/
def evictedT2 (m : ARCOffloadingManager H) (isProtected : List H) (n : Nat) :
    List (H × CPUBlockStatus) :=
  (m.victimsT2 isProtected).take (n - m.roomT1 isProtected)

/-- The loop evicts the oldest victims of `t1` as far as `t1` can give them, then the oldest
of `t2`; it gives up exactly when both have too few. -/
theorem evict_eq (n : Nat) (m : ARCOffloadingManager H) (toEvict : List H) :
    evict isProtected n m toEvict =
      (m.evictAll (m.evictedT1 isProtected n) (m.evictedT2 isProtected n),
        toEvict ++ (m.evictedT1 isProtected n ++ m.evictedT2 isProtected n).map Prod.fst,
        decide (n ≤ m.room isProtected)) := by
  induction n generalizing m toEvict with
  | zero => simp [evict, evictAll, evictedT1, evictedT2]
  | succ n ih =>
    unfold evict evictOne
    cases hT1 : m.victimT1 isProtected with
    | some e =>
      obtain ⟨hlarge, rest, hrest⟩ := victimT1_eq_some hT1
      have hroom := roomT1_evictT1 hrest hlarge
      have hfromT1 : m.evictedT1 isProtected (n + 1) =
          e :: (m.evictT1 e).evictedT1 isProtected n := by
        rw [evictedT1, evictedT1, victimsT1_evictT1 hrest, hrest, hroom, Nat.add_min_add_right,
          List.take_succ_cons]
      have hfromT2 : m.evictedT2 isProtected (n + 1) =
          (m.evictT1 e).evictedT2 isProtected n := by
        rw [evictedT2, evictedT2, hroom, Nat.add_sub_add_right]
        rfl
      have htotal : m.room isProtected = (m.evictT1 e).room isProtected + 1 := by
        have : (m.evictT1 e).victimsT2 isProtected = m.victimsT2 isProtected := rfl
        rw [room, room, hroom, this]
        omega
      simp only
      rw [ih, hfromT1, hfromT2, htotal]
      simp [evictAll]
    | none =>
      have hzero := roomT1_eq_zero.mpr hT1
      have hfromT1 : m.evictedT1 isProtected (n + 1) = [] := by simp [evictedT1, hzero]
      rw [hfromT1]
      rw [oldestVictim_eq_head?, ← victimsT2]
      cases hvictims : m.victimsT2 isProtected with
      | nil => simp [evictedT2, hvictims, evictAll, room, hzero]
      | cons e rest =>
        have hzero' : (m.evictT2 e).roomT1 isProtected = 0 := hzero
        have hfromT1' : (m.evictT2 e).evictedT1 isProtected n = [] := by
          simp [evictedT1, hzero']
        have hfromT2 : m.evictedT2 isProtected (n + 1) =
            e :: (m.evictT2 e).evictedT2 isProtected n := by
          rw [evictedT2, evictedT2, victimsT2_evictT2 hvictims, hvictims, hzero, hzero']
          rfl
        have htotal : m.room isProtected = (m.evictT2 e).room isProtected + 1 := by
          rw [room, room, hzero, hzero', victimsT2_evictT2 hvictims, hvictims, List.length_cons]
          omega
        simp only [List.head?_cons]
        rw [ih, hfromT1', hfromT2, htotal]
        simp [evictAll]

/-- Evicting victims keeps what evicting one victim keeps. -/
theorem evictAll_keeps {I : ARCOffloadingManager H → Prop}
    (hT1 : ∀ m e, I m → m.t1.get? e.1 = some e.2 → I (m.evictT1 e))
    (hT2 : ∀ m e, I m → m.t2.get? e.1 = some e.2 → I (m.evictT2 e)) (h : I m) (n : Nat) :
    I (m.evictAll (m.evictedT1 isProtected n) (m.evictedT2 isProtected n)) := by
  suffices hkeep : ∀ (n : Nat) (m : ARCOffloadingManager H) (toEvict : List H), I m →
      I (evict isProtected n m toEvict).1 by
    have hrun := hkeep n m [] h
    rwa [evict_eq] at hrun
  intro n
  induction n with
  | zero => exact fun _ _ h => h
  | succ n ih =>
    intro m toEvict h
    unfold evict evictOne
    cases hvictim : m.victimT1 isProtected with
    | some e =>
      obtain ⟨_, rest, hrest⟩ := victimT1_eq_some hvictim
      have hmem : e ∈ m.victimsT1 isProtected := by
        rw [hrest]
        exact List.mem_cons_self
      exact ih _ _ (hT1 m e h (mem_victimsT1.mp hmem).1)
    | none =>
      cases hold : oldestVictim isProtected m.t2 with
      | some e =>
        have he := m.t2.mem_entries_iff.mp (List.mem_of_find?_eq_some hold)
        exact ih _ _ (hT2 m e h he)
      | none => exact h

theorem length_evictedT1 (m : ARCOffloadingManager H) (isProtected : List H) (n : Nat) :
    (m.evictedT1 isProtected n).length = min n (m.roomT1 isProtected) := by
  rw [evictedT1, List.length_take, roomT1]
  omega

theorem length_evictedT2 (m : ARCOffloadingManager H) (isProtected : List H) (n : Nat) :
    (m.evictedT2 isProtected n).length =
    min (n - m.roomT1 isProtected) (m.victimsT2 isProtected).length := by
  rw [evictedT2, List.length_take]

/-- A loop that finds enough victims evicts as many as it has to. -/
theorem length_evicted {n : Nat} (h : n ≤ m.room isProtected) :
    (m.evictedT1 isProtected n).length + (m.evictedT2 isProtected n).length = n := by
  rw [length_evictedT1, length_evictedT2]
  unfold room at h
  omega

/-! ## What eviction changes -/

/-- A ghost list that remembers the given hashes, too. -/
def rememberAll (b : Dict H Unit) (l : List H) : Dict H Unit :=
  l.foldl (fun b h => b.insert h ()) b

theorem size_rememberAll_le (b : Dict H Unit) (l : List H) :
    (rememberAll b l).size ≤ b.size + l.length := by
  induction l generalizing b with
  | nil => exact le_rfl
  | cons h l ih =>
    have hrest := ih (b.insert h ())
    have hfirst := b.size_insert_le h ()
    rw [rememberAll, List.foldl_cons, ← rememberAll, List.length_cons]
    omega

private theorem foldl_evictT1 (m : ARCOffloadingManager H) (l : List (H × CPUBlockStatus)) :
    l.foldl evictT1 m = { m with
      t1 := m.t1.eraseAll (l.map Prod.fst)
      b1 := rememberAll m.b1 (l.map Prod.fst)
      backend := m.backend.freeAll (l.map Prod.snd) } := by
  induction l generalizing m with
  | nil => rfl
  | cons e l ih => exact ih (m.evictT1 e)

private theorem foldl_evictT2 (m : ARCOffloadingManager H) (l : List (H × CPUBlockStatus)) :
    l.foldl evictT2 m = { m with
      t2 := m.t2.eraseAll (l.map Prod.fst)
      b2 := rememberAll m.b2 (l.map Prod.fst)
      backend := m.backend.freeAll (l.map Prod.snd) } := by
  induction l generalizing m with
  | nil => rfl
  | cons e l ih => exact ih (m.evictT2 e)

/-- Every field of the manager behind an eviction. -/
theorem evictAll_eq (m : ARCOffloadingManager H) (fromT1 fromT2 : List (H × CPUBlockStatus)) :
    m.evictAll fromT1 fromT2 = { m with
      t1 := m.t1.eraseAll (fromT1.map Prod.fst)
      t2 := m.t2.eraseAll (fromT2.map Prod.fst)
      b1 := rememberAll m.b1 (fromT1.map Prod.fst)
      b2 := rememberAll m.b2 (fromT2.map Prod.fst)
      backend := (m.backend.freeAll (fromT1.map Prod.snd)).freeAll (fromT2.map Prod.snd) } := by
  rw [evictAll, foldl_evictT1, foldl_evictT2]

/-- How many blocks a store has to evict. -/
def needed (m : ARCOffloadingManager H) (blockHashes : List H) : Nat :=
  (m.hashesToStore blockHashes).length - m.backend.getNumFreeBlocks

/-- The manager behind the eviction loop of a store. -/
def evicted (m : ARCOffloadingManager H) (blockHashes : List H) : ARCOffloadingManager H :=
  m.evictAll (m.evictedT1 blockHashes (m.needed blockHashes))
    (m.evictedT2 blockHashes (m.needed blockHashes))

/-- The hashes that the eviction loop of a store evicts. -/
def evictedHashes (m : ARCOffloadingManager H) (blockHashes : List H) : List H :=
  (m.evictedT1 blockHashes (m.needed blockHashes) ++
    m.evictedT2 blockHashes (m.needed blockHashes)).map Prod.fst

/-- A store gives up exactly when it has to evict more blocks than it can, and else stores
behind its evictions; without a hash to store nothing happens. -/
theorem prepareStore_eq (m : ARCOffloadingManager H) (blockHashes : List H) :
    m.prepareStore blockHashes =
      if m.hashesToStore blockHashes = [] then
        (m, .ok (some ⟨[], m.backend.getLoadStoreSpec [], []⟩))
      else if m.needed blockHashes ≤ m.room blockHashes then
        (m.evicted blockHashes).storeBlocks (m.hashesToStore blockHashes)
          (m.evictedHashes blockHashes)
      else (m.evicted blockHashes, .ok none) := by
  unfold prepareStore
  split
  · rfl
  rw [evict_eq, ← needed]
  by_cases h : m.needed blockHashes ≤ m.room blockHashes
  · simp only [h, decide_true, if_true, List.nil_append]
    rfl
  · simp only [h, decide_false, if_false]
    rfl

/-- Behind the eviction loop of a store that goes on there are enough free blocks. -/
theorem length_le_getNumFreeBlocks {blockHashes : List H}
    (h : m.needed blockHashes ≤ m.room blockHashes) :
    (m.hashesToStore blockHashes).length ≤ (m.evicted blockHashes).backend.getNumFreeBlocks := by
  have hlen := length_evicted h
  rw [evicted, evictAll_eq]
  simp only [CPUBackend.getNumFreeBlocks_freeAll, List.length_map]
  unfold needed at hlen ⊢
  omega

/-- A hash that is not cached is not cached behind evictions, either. -/
theorem evicted_absent {blockHashes : List H} {h : H} (h1 : m.t1.get? h = none)
    (h2 : m.t2.get? h = none) :
    (m.evicted blockHashes).t1.get? h = none ∧ (m.evicted blockHashes).t2.get? h = none := by
  rw [evicted, evictAll_eq]
  simp [h1, h2]

theorem mem_hashesToStore {blockHashes : List H} {h : H} :
    h ∈ m.hashesToStore blockHashes ↔
      h ∈ blockHashes ∧ m.t1.get? h = none ∧ m.t2.get? h = none := by
  simp [hashesToStore, Dict.contains]

end Vllm.Offload.ARCOffloadingManager
