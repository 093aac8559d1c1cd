import Mathlib.Algebra.Order.BigOperators.Group.List
import Mathlib.Algebra.Ring.Int.Defs
import Mathlib.Data.Finset.Basic
import Vllm.Core.Request
import Vllm.Library.Checked
import Vllm.Library.Dict

/-!
# The encoder cache manager

The scheduler's account of the encoder outputs that the workers hold, by the hash of the
multimodal item. Outputs that no request refers to stay until their slots are needed, oldest
first. Slots count embeddings.
-/

namespace Vllm

open Checked

/-! ## Embeddings of an item -/

namespace PlaceholderRange

/-- `get_num_embeds`. -/
def getNumEmbeds (p : PlaceholderRange) : Nat :=
  match p.isEmbed with
  | none => p.length
  | some isEmbed => isEmbed.count true

/-- `get_embeds_indices_in_range`. The running count behind an empty range is read at index -1,
which is that of the whole placeholder. -/
def getEmbedsIndicesInRange (p : PlaceholderRange) (startIdx endIdx : Nat) : Nat × Nat :=
  match p.isEmbed with
  | none => (startIdx, endIdx)
  | some isEmbed =>
    (if 0 < startIdx then (isEmbed.take startIdx).count true else 0,
      if 0 < endIdx then (isEmbed.take endIdx).count true else isEmbed.count true)

/-- Whether a range of the placeholder holds embeddings. -/
def hasEmbeds (p : PlaceholderRange) (startIdx endIdx : Nat) : Bool :=
  (p.getEmbedsIndicesInRange startIdx endIdx).1 ≠ (p.getEmbedsIndicesInRange startIdx endIdx).2

/-- A larger range of positions has at least the embeddings of a smaller one. -/
theorem hasEmbeds_mono {p : PlaceholderRange} {start stop start' stop' : Nat}
    (hstart : start ≤ start') (hlt : start' < stop') (hstop : stop' ≤ stop)
    (h : p.hasEmbeds start' stop') : p.hasEmbeds start stop := by
  unfold hasEmbeds getEmbedsIndicesInRange at h ⊢
  cases hembed : p.isEmbed with
  | none =>
    simp only [hembed, decide_eq_true_eq] at h ⊢
    omega
  | some isEmbed =>
    have hmono {i j : Nat} (hij : i ≤ j) : (isEmbed.take i).count true ≤
        (isEmbed.take j).count true :=
      (List.take_sublist_take_left hij).count_le true
    have hcount (i : Nat) : (if 0 < i then (isEmbed.take i).count true else 0) =
        (isEmbed.take i).count true := by
      cases i <;> simp
    simp only [hembed, hcount, decide_eq_true_eq, if_pos (Nat.zero_lt_of_lt hlt),
      if_pos (Nat.zero_lt_of_lt (hlt.trans_le hstop))] at h ⊢
    have hfirst := hmono hstart
    have hlast := hmono hstop
    have hmid := hmono hlt.le
    omega

end PlaceholderRange

/-! ## The manager -/

/-- The checks of the manager, by what they find wrong. -/
inductive EncoderCacheError where
  /-- `freeable` is empty while slots are missing. -/
  | nothingFreeable
  | notEnoughFreeSlots
  | notEnoughFreeableSlots
  deriving DecidableEq, Repr

/-- `EncoderCacheManager`. -/
structure EncoderCacheManager where
  cacheSize : Nat
  numFreeSlots : Int
  numFreeableSlots : Int
  /-- The requests that refer to a hash. -/
  cached : Dict String (Finset RequestId)
  /-- Hashes that no request refers to, with their embeddings, oldest first. -/
  freeable : Dict String Nat
  /-- Hashes evicted since the workers were told last. -/
  freed : List String

namespace EncoderCacheManager

/-- `EncoderCacheManager.__init__`. -/
def init (cacheSize : Nat) : EncoderCacheManager where
  cacheSize
  numFreeSlots := cacheSize
  numFreeableSlots := cacheSize
  cached := Dict.empty
  freeable := Dict.empty
  freed := []

variable (m : EncoderCacheManager)

/-- `check_and_update_cache`: whether an item is cached; the request then refers to it. -/
def checkAndUpdateCache (requestId : RequestId) (f : MultiModalFeatureSpec) :
    Bool × EncoderCacheManager :=
  match m.cached.get? f.identifier with
  | none => (false, m)
  | some refs =>
    (true, { m with
      cached := m.cached.insert f.identifier (insert requestId refs)
      freeable := if refs = ∅ then m.freeable.erase f.identifier else m.freeable
      numFreeableSlots :=
        if refs = ∅ then m.numFreeableSlots - (m.freeable.get? f.identifier).getD 0
        else m.numFreeableSlots })

/-- The eviction loop of `can_allocate`; it runs at most once for each freeable entry. -/
def evictLoop (numEmbeds : Int) :
    Nat → EncoderCacheManager → Except EncoderCacheError EncoderCacheManager
  | 0, m => if m.numFreeSlots < numEmbeds then .error .nothingFreeable else .ok m
  | fuel + 1, m =>
    if m.numFreeSlots < numEmbeds then
      match m.freeable.popFirst with
      | none => .error .nothingFreeable
      | some ((mmHash, numFreeEmbeds), freeable) =>
        evictLoop numEmbeds fuel { m with
          freeable
          cached := m.cached.erase mmHash
          freed := m.freed ++ [mmHash]
          numFreeSlots := m.numFreeSlots + numFreeEmbeds }
    else .ok m

/-- `can_allocate`: whether there is space for an item next to those already scheduled, which is
made by evicting if necessary. -/
def canAllocate (f : MultiModalFeatureSpec) (encoderComputeBudget numEmbedsToSchedule : Int) :
    Except EncoderCacheError (Bool × EncoderCacheManager) :=
  let numEmbeds : Int := f.mmPosition.getNumEmbeds
  if encoderComputeBudget < numEmbeds then .ok (false, m)
  else
    let numEmbeds := numEmbeds + numEmbedsToSchedule
    if numEmbeds ≤ m.numFreeSlots then .ok (true, m)
    else if m.numFreeableSlots < numEmbeds then .ok (false, m)
    else do
      let m ← evictLoop numEmbeds m.freeable.entries.length m
      pure (true, m)

/-- `allocate`. -/
def allocate (requestId : RequestId) (f : MultiModalFeatureSpec) :
    Except EncoderCacheError EncoderCacheManager := do
  let numEncoderEmbeds : Int := f.mmPosition.getNumEmbeds
  ensure (numEncoderEmbeds ≤ m.numFreeSlots) .notEnoughFreeSlots
  ensure (numEncoderEmbeds ≤ m.numFreeableSlots) .notEnoughFreeableSlots
  pure { m with
    cached := m.cached.insert f.identifier
      (insert requestId ((m.cached.get? f.identifier).getD ∅))
    numFreeSlots := m.numFreeSlots - numEncoderEmbeds
    numFreeableSlots := m.numFreeableSlots - numEncoderEmbeds }

/-- `free_encoder_input`. -/
def freeEncoderInput (requestId : RequestId) (f : MultiModalFeatureSpec) : EncoderCacheManager :=
  match m.cached.get? f.identifier with
  | none => m
  | some refs =>
    if refs = ∅ then m
    else if refs.erase requestId = ∅ then
      { m with
        cached := m.cached.insert f.identifier ∅
        freeable := m.freeable.insert f.identifier f.mmPosition.getNumEmbeds
        numFreeableSlots := m.numFreeableSlots + f.mmPosition.getNumEmbeds }
    else { m with cached := m.cached.insert f.identifier (refs.erase requestId) }

/-- `free`: the request refers to none of its items any more. -/
def free (requestId : RequestId) (mmFeatures : List MultiModalFeatureSpec) : EncoderCacheManager :=
  mmFeatures.foldl (fun m f => m.freeEncoderInput requestId f) m

/-- `get_freed_mm_hashes`. -/
def getFreedMmHashes : List String × EncoderCacheManager := (m.freed, { m with freed := [] })

/-! ## What the operations keep -/

/-- The embeddings of the entries that can be freed. -/
def freeableEmbeds (m : EncoderCacheManager) : Int :=
  Dict.total (fun _ (n : Nat) => (n : Int)) m.freeable

/-- Only cached entries that no request refers to can be freed, and their embeddings are the
freeable slots that are not free. -/
structure Valid (m : EncoderCacheManager) : Prop where
  freeable_cached : ∀ h n, m.freeable.get? h = some n → m.cached.get? h = some ∅
  slots_eq : m.numFreeableSlots = m.numFreeSlots + m.freeableEmbeds

/-- The entry of a hash is cached and a request refers to it. -/
def RefersTo (m : EncoderCacheManager) (requestId : RequestId) (h : String) : Prop :=
  ∃ refs, m.cached.get? h = some refs ∧ requestId ∈ refs

/-- An empty cache is valid. -/
theorem valid_init (cacheSize : Nat) : (init cacheSize).Valid where
  freeable_cached h n hn := by simp [init] at hn
  slots_eq := by simp [init, freeableEmbeds]

variable {m}

/-- An item that is not cached changes nothing. -/
theorem checkAndUpdateCache_of_none (requestId : RequestId) {f : MultiModalFeatureSpec}
    (h : m.cached.get? f.identifier = none) : m.checkAndUpdateCache requestId f = (false, m) := by
  simp [checkAndUpdateCache, h]

/-- A cached item is referred to afterwards, and other items are as before. -/
theorem checkAndUpdateCache_of_some (hm : m.Valid) (requestId : RequestId)
    {f : MultiModalFeatureSpec} {refs : Finset RequestId}
    (h : m.cached.get? f.identifier = some refs) :
    ∃ m', m.checkAndUpdateCache requestId f = (true, m') ∧ m'.Valid ∧
      m'.numFreeSlots = m.numFreeSlots ∧
      ∀ h', m'.cached.get? h' =
        if h' = f.identifier then some (insert requestId refs) else m.cached.get? h' := by
  simp only [checkAndUpdateCache, h]
  refine ⟨_, rfl, ⟨?_, ?_⟩, rfl, fun h' => Dict.get?_insert _ _ _ _⟩
  · intro h' n hn
    simp only [Dict.get?_insert] at hn ⊢
    by_cases hrefs : refs = ∅
    · rw [if_pos hrefs, Dict.get?_erase] at hn
      split at hn
      · cases hn
      · rename_i hne
        rw [if_neg hne]
        exact hm.freeable_cached h' n hn
    · rw [if_neg hrefs] at hn
      have hcached := hm.freeable_cached h' n hn
      split
      · rename_i heq
        rw [heq, h, Option.some.injEq] at hcached
        exact absurd hcached hrefs
      · exact hcached
  · by_cases hrefs : refs = ∅
    · have htotal := Dict.total_eq_share_add (fun _ (n : Nat) => (n : Int)) m.freeable f.identifier
      have hslots := hm.slots_eq
      have hshare : Dict.share (fun _ (n : Nat) => (n : Int)) m.freeable f.identifier =
          ((m.freeable.get? f.identifier).getD 0 : Nat) := by
        unfold Dict.share
        cases m.freeable.get? f.identifier <;> simp
      simp only [freeableEmbeds, if_pos hrefs] at hslots ⊢
      omega
    · simp only [if_neg hrefs]
      exact hm.slots_eq

/-- Evicting makes the slots free that are asked for, and takes no entry a request refers to. -/
theorem evictLoop_eq_ok (hm : m.Valid) {numEmbeds : Int} {fuel : Nat}
    (hfuel : m.freeable.entries.length ≤ fuel) (hle : numEmbeds ≤ m.numFreeableSlots) :
    ∃ m', evictLoop numEmbeds fuel m = .ok m' ∧ m'.Valid ∧
      ∀ h refs, refs ≠ ∅ → m.cached.get? h = some refs → m'.cached.get? h = some refs := by
  induction fuel generalizing m with
  | zero =>
    have hempty : m.freeable.entries = [] := List.length_eq_zero_iff.mp (by omega)
    have hslots := hm.slots_eq
    simp only [freeableEmbeds, Dict.total, hempty, List.map_nil, List.sum_nil, add_zero] at hslots
    exact ⟨m, by rw [evictLoop, if_neg (by omega)], hm, fun _ _ _ h => h⟩
  | succ fuel ih =>
    rw [evictLoop]
    split
    · rename_i hlt
      cases hpop : m.freeable.popFirst with
      | none =>
        have hslots := hm.slots_eq
        simp only [freeableEmbeds, Dict.total, Dict.popFirst_eq_none hpop, List.map_nil,
          List.sum_nil, add_zero] at hslots
        omega
      | some e =>
        obtain ⟨⟨mmHash, n⟩, freeable⟩ := e
        obtain ⟨hget, rfl, hlength⟩ := Dict.popFirst_eq_some hpop
        have hcached := hm.freeable_cached _ _ hget
        have hvalid : Valid { m with
            freeable := m.freeable.erase mmHash
            cached := m.cached.erase mmHash
            freed := m.freed ++ [mmHash]
            numFreeSlots := m.numFreeSlots + n } := by
          refine ⟨fun h k hk => ?_, ?_⟩
          · simp only [Dict.get?_erase] at hk ⊢
            split at hk
            · cases hk
            · rename_i hne
              rw [if_neg hne]
              exact hm.freeable_cached h k hk
          · have htotal := Dict.total_eq_share_add (fun _ (n : Nat) => (n : Int)) m.freeable mmHash
            have hslots := hm.slots_eq
            have hshare : Dict.share (fun _ (n : Nat) => (n : Int)) m.freeable mmHash = n := by
              simp [Dict.share, hget]
            simp only [freeableEmbeds] at hslots ⊢
            omega
        obtain ⟨m', hm', hvalid', hkeep⟩ := ih hvalid (by simp only; omega) hle
        refine ⟨m', hm', hvalid', fun h refs hrefs h' => hkeep h refs hrefs ?_⟩
        rw [Dict.get?_erase, if_neg]
        · exact h'
        · rintro rfl
          rw [hcached, Option.some.injEq] at h'
          exact hrefs h'.symm
    · exact ⟨m, rfl, hm, fun _ _ _ h => h⟩

/-- Making space for an item fails no check and takes no entry a request refers to. -/
theorem canAllocate_eq_ok (hm : m.Valid) (f : MultiModalFeatureSpec) (budget num : Int) :
    ∃ b m', m.canAllocate f budget num = .ok (b, m') ∧ m'.Valid ∧
      ∀ h refs, refs ≠ ∅ → m.cached.get? h = some refs → m'.cached.get? h = some refs := by
  unfold canAllocate
  simp only
  split
  · exact ⟨false, m, rfl, hm, fun _ _ _ h => h⟩
  · split
    · exact ⟨true, m, rfl, hm, fun _ _ _ h => h⟩
    · split
      · exact ⟨false, m, rfl, hm, fun _ _ _ h => h⟩
      · obtain ⟨m', hm', hvalid, hkeep⟩ := evictLoop_eq_ok hm le_rfl (not_lt.mp ‹_›)
        exact ⟨true, m', by rw [hm']; rfl, hvalid, hkeep⟩

end EncoderCacheManager

end Vllm
