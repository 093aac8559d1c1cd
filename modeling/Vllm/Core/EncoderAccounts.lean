import Vllm.Core.EncoderSchedule

/-!
# The accounts of the encoder cache

The free slots are what the cached entries leave of the cache, and the freeable slots are
what those entries leave that some request refers to. The scheduler first asks for space for
the items of a request, one by one with a running total, and allocates it later; what it was
promised stays free in between, whatever is freed or hit in the meantime.
-/

namespace Vllm

open Checked

namespace EncoderCacheManager

/-- `reset`. -/
def reset (m : EncoderCacheManager) : EncoderCacheManager :=
  { m with
    cached := Dict.empty
    freeable := Dict.empty
    freed := []
    numFreeSlots := m.cacheSize
    numFreeableSlots := m.cacheSize }

/-- The embeddings of the cached entries, for given embedding counts of the hashes. -/
def cachedEmbeds (size : String → Nat) (m : EncoderCacheManager) : Int :=
  Dict.total (fun h (_ : Finset RequestId) => (size h : Int)) m.cached

/-- The embeddings of the cached entries that a request refers to. -/
def referencedEmbeds (size : String → Nat) (m : EncoderCacheManager) : Int :=
  Dict.total (fun h refs => if refs = ∅ then 0 else (size h : Int)) m.cached

/-- Both counters are what the entries leave of the cache, and exactly the entries without a
reference can be freed. -/
structure Kept (size : String → Nat) (m : EncoderCacheManager) : Prop where
  free_eq : m.numFreeSlots = m.cacheSize - m.cachedEmbeds size
  freeable_eq : m.numFreeableSlots = m.cacheSize - m.referencedEmbeds size
  slots_eq : m.numFreeableSlots = m.numFreeSlots + m.freeableEmbeds
  freeable_get : ∀ h, m.freeable.get? h = if m.cached.get? h = some ∅ then some (size h) else none
  free_nonneg : 0 ≤ m.numFreeSlots

variable {size : String → Nat} {m : EncoderCacheManager} {requestId : RequestId}
  {f : MultiModalFeatureSpec}

/-- Writing an entry replaces its share of a total. -/
theorem total_insert_int {β : Type} (w : String → β → Int) (d : Dict String β) (h : String)
    (b : β) : Dict.total w (d.insert h b) = Dict.total w d - Dict.share w d h + w h b := by
  rw [Dict.total_insert, Dict.total_eq_share_add w d h]
  omega

/-- Removing an entry takes its share out of a total. -/
theorem total_erase_int {β : Type} (w : String → β → Int) (d : Dict String β) (h : String) :
    Dict.total w (d.erase h) = Dict.total w d - Dict.share w d h := by
  rw [Dict.total_eq_share_add w d h]
  omega

theorem total_nonneg {β : Type} {w : String → β → Int} (hw : ∀ h b, 0 ≤ w h b)
    (d : Dict String β) : 0 ≤ Dict.total w d := by
  refine List.sum_nonneg fun x hx => ?_
  obtain ⟨e, _, rfl⟩ := List.mem_map.mp hx
  exact hw e.1 e.2

/-- The freeable slots are at least the free ones. -/
theorem Kept.free_le (hm : m.Kept size) : m.numFreeSlots ≤ m.numFreeableSlots := by
  have htotal : 0 ≤ m.freeableEmbeds := total_nonneg (fun _ n => Int.natCast_nonneg n) m.freeable
  have hslots := hm.slots_eq
  omega

private theorem kept_init (size : String → Nat) (cacheSize : Nat) : (init cacheSize).Kept size where
  free_eq := by simp [init, cachedEmbeds]
  freeable_eq := by simp [init, referencedEmbeds]
  slots_eq := by simp [init, freeableEmbeds]
  freeable_get h := by simp [init]
  free_nonneg := by simp [init]

theorem Kept.reset (_ : m.Kept size) : m.reset.Kept size where
  free_eq := by simp [EncoderCacheManager.reset, cachedEmbeds]
  freeable_eq := by simp [EncoderCacheManager.reset, referencedEmbeds]
  slots_eq := by simp [EncoderCacheManager.reset, freeableEmbeds]
  freeable_get h := by simp [EncoderCacheManager.reset]
  free_nonneg := by simp [EncoderCacheManager.reset]

/-- A hit moves an entry without a reference out of the freeable ones. -/
theorem Kept.checkAndUpdateCache (hm : m.Kept size) :
    (m.checkAndUpdateCache requestId f).2.Kept size := by
  unfold EncoderCacheManager.checkAndUpdateCache
  cases hcached : m.cached.get? f.identifier with
  | none => exact hm
  | some refs =>
    have hfree := hm.free_eq
    have hfreeable := hm.freeable_eq
    have hslots := hm.slots_eq
    have hget := hm.freeable_get f.identifier
    rw [hcached] at hget
    refine ⟨?_, ?_, ?_, fun h => ?_, hm.free_nonneg⟩
    · simp only [cachedEmbeds, total_insert_int, Dict.share, hcached, Option.map_some,
        Option.getD_some] at hfree ⊢
      omega
    · simp only [referencedEmbeds, total_insert_int, Dict.share, hcached, Option.map_some,
        Option.getD_some, Finset.insert_ne_empty, if_false] at hfreeable ⊢
      by_cases hrefs : refs = ∅
      · rw [if_pos (congrArg some hrefs)] at hget
        simp only [hrefs, if_true, hget, Option.getD_some]
        omega
      · simp only [hrefs, if_false]
        omega
    · by_cases hrefs : refs = ∅
      · rw [if_pos (congrArg some hrefs)] at hget
        simp only [hrefs, if_true, freeableEmbeds, total_erase_int, Dict.share, hget,
          Option.map_some, Option.getD_some] at hslots ⊢
        omega
      · simp only [hrefs, if_false]
        exact hslots
    · have hother := hm.freeable_get h
      by_cases hh : h = f.identifier
      · subst hh
        by_cases hrefs : refs = ∅
        · simp [hrefs]
        · have hne : some refs ≠ some (∅ : Finset RequestId) := fun he => hrefs (Option.some.inj he)
          rw [if_neg hne] at hget
          simp [hrefs, hget]
      · by_cases hrefs : refs = ∅
        · simp [hrefs, hh, hother]
        · simp [hrefs, hh, hother]

/-- Evicting the oldest entry without a reference keeps the accounts. -/
theorem Kept.evict (hm : m.Kept size) {h : String} {n : Nat}
    (hget : m.freeable.get? h = some n) :
    Kept size { m with
      freeable := m.freeable.erase h
      cached := m.cached.erase h
      freed := m.freed ++ [h]
      numFreeSlots := m.numFreeSlots + n } := by
  have hfreeable_get := hm.freeable_get h
  rw [hget] at hfreeable_get
  have hcached : m.cached.get? h = some ∅ := by
    by_contra hne
    rw [if_neg hne] at hfreeable_get
    cases hfreeable_get
  obtain rfl : n = size h := by
    rw [if_pos hcached] at hfreeable_get
    exact Option.some.inj hfreeable_get
  have hfree := hm.free_eq
  have hfreeable := hm.freeable_eq
  have hslots := hm.slots_eq
  have hnonneg := hm.free_nonneg
  refine ⟨?_, ?_, ?_, fun h' => ?_, ?_⟩
  · simp only [cachedEmbeds, total_erase_int, Dict.share, hcached, Option.map_some,
      Option.getD_some] at hfree ⊢
    omega
  · simp only [referencedEmbeds, total_erase_int, Dict.share, hcached, Option.map_some,
      Option.getD_some, if_true] at hfreeable ⊢
    omega
  · simp only [freeableEmbeds, total_erase_int, Dict.share, hget, Option.map_some,
      Option.getD_some] at hslots ⊢
    omega
  · have hother := hm.freeable_get h'
    by_cases hh : h' = h
    · simp [hh]
    · simp [hh, hother]
  · simp only
    omega

/-- Without freeable entries the freeable slots are the free ones. -/
theorem Kept.slots_eq_of_nil (hm : m.Kept size) (hnil : m.freeable.entries = []) :
    m.numFreeableSlots = m.numFreeSlots := by
  have hslots := hm.slots_eq
  simpa only [freeableEmbeds, Dict.total, hnil, List.map_nil, List.sum_nil, add_zero] using hslots

/-- The eviction loop never meets an empty `freeable`: it ends with the slots free that are
asked for, and caches nothing. -/
theorem Kept.evictLoop (hm : m.Kept size) {numEmbeds : Int} {fuel : Nat}
    (hfuel : m.freeable.entries.length ≤ fuel) (hle : numEmbeds ≤ m.numFreeableSlots) :
    ∃ m', evictLoop numEmbeds fuel m = .ok m' ∧ m'.Kept size ∧ m'.cacheSize = m.cacheSize ∧
      numEmbeds ≤ m'.numFreeSlots ∧
      ∀ h, m.cached.get? h = none → m'.cached.get? h = none := by
  induction fuel generalizing m with
  | zero =>
    have hall := hm.slots_eq_of_nil (List.length_eq_zero_iff.mp (by omega))
    exact ⟨m, by rw [EncoderCacheManager.evictLoop, if_neg (by omega)], hm, rfl, by omega,
      fun _ h => h⟩
  | succ fuel ih =>
    rw [EncoderCacheManager.evictLoop]
    split
    · rename_i hlt
      cases hpop : m.freeable.popFirst with
      | none =>
        have hall := hm.slots_eq_of_nil (Dict.popFirst_eq_none hpop)
        omega
      | some e =>
        obtain ⟨⟨mmHash, n⟩, freeable⟩ := e
        obtain ⟨hget, rfl, hlength⟩ := Dict.popFirst_eq_some hpop
        obtain ⟨m', hm', hkept, hsize, hfree, hnone⟩ :=
          ih (hm.evict hget) (by simp only; omega) hle
        refine ⟨m', hm', hkept, hsize, hfree, fun h hh => hnone h ?_⟩
        simp [hh]
    · exact ⟨m, rfl, hm, rfl, by omega, fun _ h => h⟩

/-- Asking for space fails no check, and where there is space it is free then. -/
theorem Kept.canAllocate (hm : m.Kept size) (f : MultiModalFeatureSpec) (budget num : Int) :
    ∃ fits m', m.canAllocate f budget num = .ok (fits, m') ∧ m'.Kept size ∧
      m'.cacheSize = m.cacheSize ∧ m.numFreeSlots ≤ m'.numFreeSlots ∧
      (fits = true → f.mmPosition.getNumEmbeds + num ≤ m'.numFreeSlots) ∧
      ∀ h, m.cached.get? h = none → m'.cached.get? h = none := by
  unfold EncoderCacheManager.canAllocate
  simp only
  split
  · exact ⟨false, m, rfl, hm, rfl, le_rfl, by simp, fun _ h => h⟩
  split
  · exact ⟨true, m, rfl, hm, rfl, le_rfl, fun _ => ‹_›, fun _ h => h⟩
  split
  · exact ⟨false, m, rfl, hm, rfl, le_rfl, by simp, fun _ h => h⟩
  · obtain ⟨m', hm', hkept, hsize, hfree, hnone⟩ := hm.evictLoop le_rfl (not_lt.mp ‹_›)
    exact ⟨true, m', by rw [hm']; rfl, hkept, hsize, by omega, fun _ => hfree, hnone⟩

/-- Allocating an entry that is not cached fails no assertion when its slots are free. -/
theorem Kept.allocate (hm : m.Kept size) (requestId : RequestId)
    (hsize : f.mmPosition.getNumEmbeds = size f.identifier)
    (hcached : m.cached.get? f.identifier = none)
    (hfits : (size f.identifier : Int) ≤ m.numFreeSlots) :
    ∃ m', m.allocate requestId f = .ok m' ∧ m'.Kept size ∧ m'.cacheSize = m.cacheSize ∧
      m'.numFreeSlots = m.numFreeSlots - size f.identifier ∧
      m'.cached = m.cached.insert f.identifier {requestId} := by
  have hle := hm.free_le
  have hinsert : insert requestId ((m.cached.get? f.identifier).getD ∅) = {requestId} := by
    simp [hcached]
  refine ⟨{ m with
    cached := m.cached.insert f.identifier {requestId}
    numFreeSlots := m.numFreeSlots - size f.identifier
    numFreeableSlots := m.numFreeableSlots - size f.identifier }, ?_, ?_, rfl, rfl, rfl⟩
  · simp only [EncoderCacheManager.allocate, hsize, ensure, if_pos hfits, if_pos (hfits.trans hle),
      hinsert]
    rfl
  have hfree := hm.free_eq
  have hfreeable := hm.freeable_eq
  have hslots := hm.slots_eq
  refine ⟨?_, ?_, ?_, fun h => ?_, ?_⟩
  · simp only [cachedEmbeds, total_insert_int, Dict.share, hcached, Option.map_none,
      Option.getD_none] at hfree ⊢
    omega
  · simp only [referencedEmbeds, total_insert_int, Dict.share, hcached, Option.map_none,
      Option.getD_none, Finset.singleton_ne_empty, if_false] at hfreeable ⊢
    omega
  · simp only [freeableEmbeds] at hslots ⊢
    omega
  · have hother := hm.freeable_get h
    by_cases hh : h = f.identifier
    · subst hh
      rw [hcached] at hother
      simp [hother]
    · simp [hh, hother]
  · simp only
    omega

/-- Giving up a reference makes the entry freeable if it was the last one. -/
theorem Kept.freeEncoderInput (hm : m.Kept size)
    (hsize : f.mmPosition.getNumEmbeds = size f.identifier) :
    (m.freeEncoderInput requestId f).Kept size := by
  unfold EncoderCacheManager.freeEncoderInput
  cases hcached : m.cached.get? f.identifier with
  | none => exact hm
  | some refs =>
    simp only
    split
    · exact hm
    rename_i hrefs
    have hfree := hm.free_eq
    have hfreeable := hm.freeable_eq
    have hslots := hm.slots_eq
    have hget : m.freeable.get? f.identifier = none := by
      rw [hm.freeable_get, if_neg]
      rw [hcached]
      exact fun he => hrefs (Option.some.inj he)
    split
    · refine ⟨?_, ?_, ?_, fun h => ?_, hm.free_nonneg⟩
      · simp only [cachedEmbeds, total_insert_int, Dict.share, hcached, Option.map_some,
          Option.getD_some] at hfree ⊢
        omega
      · simp only [referencedEmbeds, total_insert_int, Dict.share, hcached, Option.map_some,
          Option.getD_some, hrefs, if_false, if_true, hsize] at hfreeable ⊢
        omega
      · simp only [freeableEmbeds, total_insert_int, Dict.share, hget, Option.map_none,
          Option.getD_none, hsize] at hslots ⊢
        omega
      · have hother := hm.freeable_get h
        by_cases hh : h = f.identifier
        · simp [hh, hsize]
        · simp [hh, hother]
    · rename_i hrest
      refine ⟨?_, ?_, hslots, fun h => ?_, hm.free_nonneg⟩
      · simp only [cachedEmbeds, total_insert_int, Dict.share, hcached, Option.map_some,
          Option.getD_some] at hfree ⊢
        omega
      · simp only [referencedEmbeds, total_insert_int, Dict.share, hcached, Option.map_some,
          Option.getD_some, hrefs, hrest, if_false] at hfreeable ⊢
        omega
      · have hother := hm.freeable_get h
        by_cases hh : h = f.identifier
        · subst hh
          simp [hget, hrest]
        · simp [hh, hother]

private theorem freeEncoderInput_fields (m : EncoderCacheManager) (requestId : RequestId)
    (f : MultiModalFeatureSpec) :
    (m.freeEncoderInput requestId f).numFreeSlots = m.numFreeSlots ∧
      (m.freeEncoderInput requestId f).cacheSize = m.cacheSize ∧
      ∀ h, m.cached.get? h = none → (m.freeEncoderInput requestId f).cached.get? h = none := by
  unfold EncoderCacheManager.freeEncoderInput
  cases hcached : m.cached.get? f.identifier with
  | none => exact ⟨rfl, rfl, fun _ h => h⟩
  | some refs =>
    have hne : ∀ h, m.cached.get? h = none → h ≠ f.identifier := by
      rintro h hnone rfl
      rw [hcached] at hnone
      cases hnone
    simp only
    split
    · exact ⟨rfl, rfl, fun _ h => h⟩
    split
    · exact ⟨rfl, rfl, fun h hnone => by simp [hne h hnone, hnone]⟩
    · exact ⟨rfl, rfl, fun h hnone => by simp [hne h hnone, hnone]⟩

private theorem checkAndUpdateCache_fields (m : EncoderCacheManager) (requestId : RequestId)
    (f : MultiModalFeatureSpec) :
    (m.checkAndUpdateCache requestId f).2.numFreeSlots = m.numFreeSlots ∧
      (m.checkAndUpdateCache requestId f).2.cacheSize = m.cacheSize ∧
      ∀ h, m.cached.get? h = none → (m.checkAndUpdateCache requestId f).2.cached.get? h = none := by
  unfold EncoderCacheManager.checkAndUpdateCache
  cases hcached : m.cached.get? f.identifier with
  | none => exact ⟨rfl, rfl, fun _ h => h⟩
  | some refs =>
    refine ⟨rfl, rfl, fun h hnone => ?_⟩
    have hne : h ≠ f.identifier := by
      rintro rfl
      rw [hcached] at hnone
      cases hnone
    simp [hne, hnone]

/-- The account of the cache as its attributes document it. -/
structure Accounted (size : String → Nat) (m : EncoderCacheManager) : Prop where
  free_eq : m.numFreeSlots = m.cacheSize - m.cachedEmbeds size
  freeable_eq : m.numFreeableSlots = m.numFreeSlots + m.freeableEmbeds
  freeable_keys : ∀ h, (∃ n, m.freeable.get? h = some n) ↔ m.cached.get? h = some ∅
  free_nonneg : 0 ≤ m.numFreeSlots
  free_le : m.numFreeSlots ≤ m.cacheSize
  freeable_nonneg : 0 ≤ m.numFreeableSlots
  freeable_le : m.numFreeableSlots ≤ m.cacheSize

theorem Kept.accounted (hm : m.Kept size) : m.Accounted size := by
  have hcached : 0 ≤ m.cachedEmbeds size := total_nonneg (fun h _ => Int.natCast_nonneg _) m.cached
  have hreferenced : 0 ≤ m.referencedEmbeds size :=
    total_nonneg (fun h refs => by split <;> simp) m.cached
  have hfree := hm.free_eq
  have hfreeable := hm.freeable_eq
  have hnonneg := hm.free_nonneg
  have hle := hm.free_le
  refine ⟨hfree, hm.slots_eq, fun h => ?_, hnonneg, by omega, by omega, by omega⟩
  rw [hm.freeable_get]
  split
  · exact iff_of_true ⟨_, rfl⟩ ‹_›
  · exact iff_of_false (by simp) ‹_›

end EncoderCacheManager

/-! ## The calls of the scheduler -/

/-- The manager between two calls, with the hashes that were promised space to the request in
question and their embeddings. -/
structure EncoderSession where
  manager : EncoderCacheManager
  accepted : Dict String Nat

/-- What the scheduler calls. -/
inductive EncoderCall where
  | checkAndUpdateCache (requestId : RequestId) (f : MultiModalFeatureSpec)
  /-- Where there is space, the scheduler need not take it. -/
  | canAllocate (f : MultiModalFeatureSpec) (encoderComputeBudget : Int) (takes : Bool)
  | allocate (requestId : RequestId) (f : MultiModalFeatureSpec)
  /-- The request is not scheduled, after all. -/
  | abandon
  | freeEncoderInput (requestId : RequestId) (f : MultiModalFeatureSpec)
  | free (requestId : RequestId) (mmFeatures : List MultiModalFeatureSpec)
  | getFreedMmHashes
  | reset

namespace EncoderSession

/-- `num_embeds_to_schedule`: the running total of what was promised. -/
def numEmbedsToSchedule (s : EncoderSession) : Int :=
  Dict.total (fun _ (n : Nat) => (n : Int)) s.accepted

/-- The session behind a call. -/
def call (s : EncoderSession) : EncoderCall → Except EncoderCacheError EncoderSession
  | .checkAndUpdateCache requestId f =>
    .ok { s with manager := (s.manager.checkAndUpdateCache requestId f).2 }
  | .canAllocate f encoderComputeBudget takes => do
    let (fits, manager) ← s.manager.canAllocate f encoderComputeBudget s.numEmbedsToSchedule
    pure {
      manager
      accepted :=
        if fits && takes then s.accepted.insert f.identifier f.mmPosition.getNumEmbeds
        else s.accepted }
  | .allocate requestId f => do
    let manager ← s.manager.allocate requestId f
    pure { manager, accepted := s.accepted.erase f.identifier }
  | .abandon => .ok { s with accepted := Dict.empty }
  | .freeEncoderInput requestId f =>
    .ok { s with manager := s.manager.freeEncoderInput requestId f }
  | .free requestId mmFeatures => .ok { s with manager := s.manager.free requestId mmFeatures }
  | .getFreedMmHashes => .ok { s with manager := s.manager.getFreedMmHashes.2 }
  | .reset => .ok { s with manager := s.manager.reset }

/-- Which calls the scheduler makes: space is asked for a hash that is neither cached nor
promised space already, what is allocated was promised space, and no step is under way at a
reset. The items of a hash all have the same number of embeddings. -/
def Follows (size : String → Nat) (s : EncoderSession) : EncoderCall → Prop
  | .checkAndUpdateCache _ _ => True
  | .canAllocate f _ _ => f.mmPosition.getNumEmbeds = size f.identifier ∧
    s.manager.cached.get? f.identifier = none ∧ s.accepted.get? f.identifier = none
  | .allocate _ f => f.mmPosition.getNumEmbeds = size f.identifier ∧
    s.accepted.get? f.identifier ≠ none
  | .abandon => True
  | .freeEncoderInput _ f => f.mmPosition.getNumEmbeds = size f.identifier
  | .free _ mmFeatures => ∀ f ∈ mmFeatures, f.mmPosition.getNumEmbeds = size f.identifier
  | .getFreedMmHashes => True
  | .reset => s.accepted.entries = []

instance (size : String → Nat) (s : EncoderSession) : ∀ c, Decidable (s.Follows size c)
  | .checkAndUpdateCache _ _ => .isTrue trivial
  | .canAllocate _ _ _ => inferInstanceAs (Decidable (_ ∧ _ ∧ _))
  | .allocate _ _ => inferInstanceAs (Decidable (_ ∧ _))
  | .abandon => .isTrue trivial
  | .freeEncoderInput _ _ => inferInstanceAs (Decidable (_ = _))
  | .free _ _ => inferInstanceAs (Decidable (∀ f ∈ _, _))
  | .getFreedMmHashes => .isTrue trivial
  | .reset => inferInstanceAs (Decidable (_ = _))

/-- The accounts are kept, and what was promised is not cached and fits into the free slots. -/
structure Promised (size : String → Nat) (s : EncoderSession) : Prop where
  kept : s.manager.Kept size
  accepted : ∀ h n, s.accepted.get? h = some n → s.manager.cached.get? h = none ∧ n = size h
  fits : s.numEmbedsToSchedule ≤ s.manager.numFreeSlots

/-- A session without a step under way. -/
def start (cacheSize : Nat) : EncoderSession where
  manager := .init cacheSize
  accepted := Dict.empty

private theorem promised_start (size : String → Nat) (cacheSize : Nat) :
    (start cacheSize).Promised size where
  kept := EncoderCacheManager.kept_init size cacheSize
  accepted h n hn := by simp [start] at hn
  fits := by simp [start, numEmbedsToSchedule, EncoderCacheManager.init]

variable {size : String → Nat} {s : EncoderSession}

/-- A manager that keeps its free slots and caches nothing new keeps the promises. -/
theorem Promised.setManager (hs : s.Promised size) {m : EncoderCacheManager} (hm : m.Kept size)
    (hfree : s.manager.numFreeSlots ≤ m.numFreeSlots)
    (hnone : ∀ h, s.manager.cached.get? h = none → m.cached.get? h = none) :
    Promised size { s with manager := m } where
  kept := hm
  accepted h n hn := ⟨hnone h (hs.accepted h n hn).1, (hs.accepted h n hn).2⟩
  fits := hs.fits.trans hfree

/-- Every call that the scheduler makes returns and keeps accounts and promises. -/
theorem Promised.call (hs : s.Promised size) {c : EncoderCall} (hc : s.Follows size c) :
    ∃ s', s.call c = .ok s' ∧ s'.Promised size := by
  cases c with
  | checkAndUpdateCache requestId f =>
    obtain ⟨hfree, _, hnone⟩ := s.manager.checkAndUpdateCache_fields requestId f
    exact ⟨_, rfl, hs.setManager hs.kept.checkAndUpdateCache hfree.ge hnone⟩
  | canAllocate f budget takes =>
    obtain ⟨hsize, hcached, haccepted⟩ := hc
    obtain ⟨fits, m, hm, hkept, _, hfree, hfits, hnone⟩ :=
      hs.kept.canAllocate f budget s.numEmbedsToSchedule
    refine ⟨_, by rw [EncoderSession.call, hm]; rfl, ?_⟩
    by_cases htakes : (fits && takes) = true
    · rw [Bool.and_eq_true] at htakes
      have hspace := hfits htakes.1
      simp only [htakes.1, htakes.2, Bool.and_self, if_true]
      refine ⟨hkept, fun h n hn => ?_, ?_⟩
      · rw [Dict.get?_insert] at hn
        by_cases hh : h = f.identifier
        · subst hh
          rw [if_pos rfl] at hn
          exact ⟨hnone _ hcached, hsize ▸ (Option.some.inj hn).symm⟩
        · rw [if_neg hh] at hn
          exact ⟨hnone h (hs.accepted h n hn).1, (hs.accepted h n hn).2⟩
      · simp only [numEmbedsToSchedule, EncoderCacheManager.total_insert_int, Dict.share, haccepted,
          Option.map_none, Option.getD_none] at hspace ⊢
        omega
    · simp only [if_neg htakes]
      exact hs.setManager hkept hfree hnone
  | allocate requestId f =>
    obtain ⟨hsize, haccepted⟩ := hc
    obtain ⟨n, hn⟩ := Option.ne_none_iff_exists'.mp haccepted
    obtain ⟨hcached, rfl⟩ := hs.accepted _ _ hn
    have htotal := EncoderCacheManager.total_erase_int (fun _ (n : Nat) => (n : Int)) s.accepted
      f.identifier
    have hrest : 0 ≤ Dict.total (fun _ (n : Nat) => (n : Int)) (s.accepted.erase f.identifier) :=
      EncoderCacheManager.total_nonneg (fun _ n => Int.natCast_nonneg n) _
    have hfits := hs.fits
    simp only [Dict.share, hn, Option.map_some, Option.getD_some] at htotal
    unfold numEmbedsToSchedule at hfits
    obtain ⟨m, hm, hkept, _, hfree, hinsert⟩ :=
      hs.kept.allocate requestId hsize hcached (by omega)
    refine ⟨_, by rw [EncoderSession.call, hm]; rfl, hkept, fun h n' hn' => ?_, ?_⟩
    · rw [Dict.get?_erase] at hn'
      split at hn'
      · cases hn'
      · rename_i hh
        obtain ⟨hnone, hn'⟩ := hs.accepted h n' hn'
        simp [hinsert, hh, hnone, hn']
    · simp only [numEmbedsToSchedule]
      omega
  | abandon =>
    refine ⟨_, rfl, hs.kept, fun h n hn => by simp at hn, ?_⟩
    simpa [numEmbedsToSchedule] using hs.kept.free_nonneg
  | freeEncoderInput requestId f =>
    obtain ⟨hfree, _, hnone⟩ := s.manager.freeEncoderInput_fields requestId f
    exact ⟨_, rfl, hs.setManager (hs.kept.freeEncoderInput hc) hfree.ge hnone⟩
  | free requestId mmFeatures =>
    refine ⟨_, rfl, ?_⟩
    unfold EncoderCacheManager.free
    have hall : ∀ f ∈ mmFeatures, f.mmPosition.getNumEmbeds = size f.identifier := hc
    clear hc
    induction mmFeatures generalizing s with
    | nil => exact hs
    | cons f rest ih =>
      obtain ⟨hfree, _, hnone⟩ := s.manager.freeEncoderInput_fields requestId f
      exact ih (hs.setManager (hs.kept.freeEncoderInput (hall f List.mem_cons_self)) hfree.ge hnone)
        fun f' hf' => hall f' (List.mem_cons_of_mem _ hf')
  | getFreedMmHashes =>
    have hkept := hs.kept
    exact ⟨_, rfl, hs.setManager ⟨hkept.free_eq, hkept.freeable_eq, hkept.slots_eq,
      hkept.freeable_get, hkept.free_nonneg⟩ le_rfl fun _ h => h⟩
  | reset =>
    have hempty : s.accepted.entries = [] := hc
    refine ⟨_, rfl, hs.kept.reset, fun h n hn => ?_, ?_⟩
    · rw [(s.accepted.entries_eq_nil_iff.mp hempty) h] at hn
      cases hn
    · simp [numEmbedsToSchedule, Dict.total, hempty, EncoderCacheManager.reset]

/-- Every sequence of calls that the scheduler makes returns, without a failed check, and the
cache is accounted for behind it. -/
theorem session_accounted (size : String → Nat) (cacheSize : Nat) (calls : List EncoderCall)
    (hcalls : Along call (Follows size) (start cacheSize) calls) :
    ∃ s, run call (start cacheSize) calls = .ok s ∧ s.manager.Accounted size := by
  obtain ⟨s, hrun, hs⟩ := run_total (fun s c hs hc => hs.call hc) (promised_start size cacheSize)
    hcalls
  exact ⟨s, hrun, hs.kept.accounted⟩

/-- Two images, of two and of three embeddings. -/
def image (identifier : String) (length : Nat) : MultiModalFeatureSpec where
  identifier := identifier
  mmPosition := ⟨0, length, none⟩

/-- The calls of a run on a cache of four slots: image "a" is scheduled, hit by a second
request and given up by both, and then evicted for image "b". -/
def evictingCalls : List EncoderCall :=
  [.checkAndUpdateCache 1 (image "a" 2), .canAllocate (image "a" 2) 8 true,
    .allocate 1 (image "a" 2), .checkAndUpdateCache 2 (image "a" 2), .free 1 [image "a" 2],
    .freeEncoderInput 2 (image "a" 2), .checkAndUpdateCache 3 (image "b" 3),
    .canAllocate (image "b" 3) 8 true, .allocate 3 (image "b" 3), .getFreedMmHashes, .reset]

theorem evictingCalls_accounted :
    ∃ s, run call (start 4) evictingCalls = .ok s ∧
      s.manager.Accounted fun h => if h = "a" then 2 else 3 :=
  session_accounted (fun h => if h = "a" then 2 else 3) 4 evictingCalls (by decide)

end EncoderSession

end Vllm
