import Vllm.Core.EncoderCache

/-!
# Scheduling encoder inputs

The scheduler decides which multimodal items of a request are encoded in a step, and cuts the
step where one of them does not fit; the worker decides by itself which encoder outputs the
tokens of the step need. With EAGLE the worker asks a second time, one position further. This
is about decoder-only models: with an encoder-decoder model nothing is gathered. The scheduler's
counters are integers, as a rollback may take them below zero.
-/

namespace Vllm

open Checked

/-! ## The scheduler's side -/

/-- What the pass over the items of a request reads of the configuration. -/
structure EncoderConfig where
  disableChunkedMmInput : Bool
  /-- What the EC connector holds; nothing without one. -/
  hasCacheItem : String → Bool

/-- The result of `_try_schedule_encoder_inputs`, with its accounts and the manager. -/
structure EncoderPass where
  encoderInputsToSchedule : List Nat
  numNewTokens : Int
  encoderComputeBudget : Int
  externalLoadEncoderInput : List Nat
  mmHashesToSchedule : List String
  numEmbedsToSchedule : Int
  manager : EncoderCacheManager

/-- The pass before its first item. -/
def EncoderPass.start (numNewTokens : Int) (encoderComputeBudget : Int)
    (manager : EncoderCacheManager) : EncoderPass where
  encoderInputsToSchedule := []
  numNewTokens
  encoderComputeBudget
  externalLoadEncoderInput := []
  mmHashesToSchedule := []
  numEmbedsToSchedule := 0
  manager

namespace MultiModalFeatureSpec

/-- The scheduler finds embeddings of an item among the tokens of a step. It only looks where
the step does not end before the item. -/
def HasCounted (numComputedTokens numNewTokens : Int) (f : MultiModalFeatureSpec) : Prop :=
  f.mmPosition.hasEmbeds (max 0 (numComputedTokens - f.mmPosition.offset)).toNat
    (min (f.mmPosition.length : Int)
      (numComputedTokens + numNewTokens - f.mmPosition.offset)).toNat

instance (numComputedTokens numNewTokens : Int) (f : MultiModalFeatureSpec) :
    Decidable (f.HasCounted numComputedTokens numNewTokens) :=
  inferInstanceAs (Decidable (_ = true))

/-- Without chunking of items, a step that ends inside an item is cut before it. -/
def CutsChunk (disableChunkedMmInput : Bool) (numComputedTokens numNewTokens : Int)
    (f : MultiModalFeatureSpec) : Prop :=
  disableChunkedMmInput ∧ numComputedTokens < f.mmPosition.offset ∧
    numComputedTokens + numNewTokens < f.stop

instance (disableChunkedMmInput : Bool) (numComputedTokens numNewTokens : Int)
    (f : MultiModalFeatureSpec) :
    Decidable (f.CutsChunk disableChunkedMmInput numComputedTokens numNewTokens) :=
  inferInstanceAs (Decidable (_ ∧ _ ∧ _))

end MultiModalFeatureSpec

section Pass

variable (c : EncoderConfig) (requestId : RequestId) (numComputedTokens numNewTokens : Int)
  (shiftComputedTokens : Nat)

/-- The loop over the items and their indices. -/
def encoderLoop : List (MultiModalFeatureSpec × Nat) → EncoderPass →
    Except EncoderCacheError EncoderPass
  | [], s => .ok s
  | (f, i) :: rest, s =>
    let startPos : Int := f.mmPosition.offset
    if numComputedTokens + numNewTokens + shiftComputedTokens ≤ startPos then .ok s
    else if f.stop ≤ numComputedTokens then encoderLoop rest s
    else if f.identifier ∈ s.mmHashesToSchedule then encoderLoop rest s
    else
      let (isCached, manager) := s.manager.checkAndUpdateCache requestId f
      let s := { s with manager }
      if isCached then encoderLoop rest s
      else if f.CutsChunk c.disableChunkedMmInput numComputedTokens numNewTokens then
        -- the EAGLE shift is accounted for when rolling back
        .ok { s with numNewTokens := max 0 (startPos - (numComputedTokens + shiftComputedTokens)) }
      else do
        let (fits, manager) ←
          s.manager.canAllocate f s.encoderComputeBudget s.numEmbedsToSchedule
        let s := { s with manager }
        if !fits then
          pure { s with
            numNewTokens :=
              if numComputedTokens + shiftComputedTokens < startPos then
                startPos - (numComputedTokens + shiftComputedTokens)
              else 0 }
        -- no account is taken of the EAGLE shift here
        else if ¬f.HasCounted numComputedTokens numNewTokens then encoderLoop rest s
        else
          let s := { s with
            mmHashesToSchedule := s.mmHashesToSchedule ++ [f.identifier]
            numEmbedsToSchedule := s.numEmbedsToSchedule + f.mmPosition.getNumEmbeds }
          if c.hasCacheItem f.identifier then
            encoderLoop rest
              { s with externalLoadEncoderInput := s.externalLoadEncoderInput ++ [i] }
          else
            encoderLoop rest { s with
              encoderComputeBudget := s.encoderComputeBudget - f.mmPosition.getNumEmbeds
              encoderInputsToSchedule := s.encoderInputsToSchedule ++ [i] }

/-- `_try_schedule_encoder_inputs`. -/
def tryScheduleEncoderInputs (manager : EncoderCacheManager)
    (mmFeatures : List MultiModalFeatureSpec) (encoderComputeBudget : Int) :
    Except EncoderCacheError EncoderPass :=
  let s := EncoderPass.start numNewTokens encoderComputeBudget manager
  if numNewTokens = 0 ∨ mmFeatures = [] then .ok s
  else
    encoderLoop c requestId numComputedTokens numNewTokens shiftComputedTokens mmFeatures.zipIdx s

end Pass

/-! ## The worker's side -/

/-- The loop of `_gather_mm_embeddings` over the items of a request: the hashes under which
encoder outputs are looked up, of which none may be missing. -/
def gatherMmEmbeddings (numComputedTokens numScheduledTokens : Nat) :
    List MultiModalFeatureSpec → List String
  | [] => []
  | f :: rest =>
    let startPos := f.mmPosition.offset
    if numComputedTokens + numScheduledTokens ≤ startPos then []
    else if f.stop ≤ numComputedTokens then
      gatherMmEmbeddings numComputedTokens numScheduledTokens rest
    else
      let startIdx := numComputedTokens - startPos
      let endIdx := min (numComputedTokens + numScheduledTokens - startPos) f.mmPosition.length
      if f.mmPosition.hasEmbeds startIdx endIdx then
        f.identifier :: gatherMmEmbeddings numComputedTokens numScheduledTokens rest
      else gatherMmEmbeddings numComputedTokens numScheduledTokens rest

/-! ## What the pass books -/

/-- The item with a hash is scheduled in this pass, or cached and referred to. -/
def EncoderPass.Holds (requestId : RequestId) (s : EncoderPass) (h : String) : Prop :=
  h ∈ s.mmHashesToSchedule ∨ s.manager.RefersTo requestId h

/-- Some item with this hash is among the scheduled ones. -/
def EncoderPass.Schedules (mmFeatures : List MultiModalFeatureSpec) (s : EncoderPass)
    (h : String) : Prop :=
  ∃ i ∈ s.encoderInputsToSchedule ++ s.externalLoadEncoderInput, ∃ f, mmFeatures[i]? = some f ∧
    f.identifier = h

/-- A pass between two items. -/
structure EncoderPass.Sound (mmFeatures : List MultiModalFeatureSpec) (s : EncoderPass) : Prop where
  valid : s.manager.Valid
  booked : ∀ h ∈ s.mmHashesToSchedule, s.Schedules mmFeatures h

/-- A pass that has booked nothing is sound. -/
theorem EncoderPass.sound_start (mmFeatures : List MultiModalFeatureSpec) (numNewTokens : Nat)
    (budget : Int) {m : EncoderCacheManager} (hm : m.Valid) :
    (start numNewTokens budget m).Sound mmFeatures :=
  ⟨hm, fun _ hh => absurd hh List.not_mem_nil⟩

section Spec

variable {c : EncoderConfig} {requestId : RequestId} {numComputedTokens numNewTokens : Int}
  {shift : Nat} {mmFeatures : List MultiModalFeatureSpec}

/-- References are kept where entries with references are. -/
theorem refersTo_of_keeps {m m' : EncoderCacheManager}
    (hkeep : ∀ h refs, refs ≠ ∅ → m.cached.get? h = some refs → m'.cached.get? h = some refs)
    {h : String} (hrefers : m.RefersTo requestId h) : m'.RefersTo requestId h := by
  obtain ⟨refs, hget, hmem⟩ := hrefers
  exact ⟨refs, hkeep h refs (fun hempty => by rw [hempty] at hmem; cases hmem) hget, hmem⟩

variable (c requestId numComputedTokens numNewTokens shift) in
/-- As long as a pass has not cut the step before an item, it holds the item or finds no
embeddings of it among the tokens of the step. -/
structure Passes (fs : List (MultiModalFeatureSpec × Nat)) (s : EncoderPass) : Prop where
  nonneg : 0 ≤ s.numNewTokens
  le : s.numNewTokens ≤ numNewTokens
  holds : 0 < s.numNewTokens → ∀ e ∈ fs, numComputedTokens < e.1.stop →
    e.1.mmPosition.offset < numComputedTokens + shift + s.numNewTokens →
      s.Holds requestId e.1.identifier ∨ ¬e.1.HasCounted numComputedTokens numNewTokens ∧
        (s.numNewTokens = numNewTokens →
          ¬e.1.CutsChunk c.disableChunkedMmInput numComputedTokens numNewTokens)

section

variable {fs : List (MultiModalFeatureSpec × Nat)} {f : MultiModalFeatureSpec} {i : Nat}
  {s : EncoderPass}

/-- The first item is dealt with, and the others are passed. -/
theorem Passes.cons (h : Passes c requestId numComputedTokens numNewTokens shift fs s)
    (hf : numComputedTokens < f.stop → s.Holds requestId f.identifier ∨
      ¬f.HasCounted numComputedTokens numNewTokens ∧
        ¬f.CutsChunk c.disableChunkedMmInput numComputedTokens numNewTokens) :
    Passes c requestId numComputedTokens numNewTokens shift ((f, i) :: fs) s := by
  refine ⟨h.nonneg, h.le, fun hpos e he => ?_⟩
  rcases List.mem_cons.mp he with rfl | he
  · exact fun hstop _ => (hf hstop).imp_right fun hnot => ⟨hnot.1, fun _ => hnot.2⟩
  · exact h.holds hpos e he

/-- The step ends before the first item. -/
theorem passes_of_end (hfirst : ∀ e ∈ fs, f.mmPosition.offset ≤ e.1.mmPosition.offset)
    (hnonneg : 0 ≤ s.numNewTokens) (hle : s.numNewTokens ≤ numNewTokens)
    (hend : 0 < s.numNewTokens →
      numComputedTokens + shift + s.numNewTokens ≤ f.mmPosition.offset) :
    Passes c requestId numComputedTokens numNewTokens shift ((f, i) :: fs) s := by
  refine ⟨hnonneg, hle, fun hpos e he _ hlt => ?_⟩
  have hend := hend hpos
  rcases List.mem_cons.mp he with rfl | he
  · exact absurd hlt (not_lt.mpr hend)
  · exact absurd hlt (not_lt.mpr (hend.trans (Int.ofNat_le.mpr (hfirst e he))))

end

variable (c requestId numComputedTokens numNewTokens shift) in
/-- The loop fails no check, and passes all items. -/
theorem encoderLoop_spec (hnonneg : 0 ≤ numNewTokens) {fs : List (MultiModalFeatureSpec × Nat)}
    (hfs : ∀ e ∈ fs, mmFeatures[e.2]? = some e.1)
    (hsorted : fs.Pairwise fun e e' => e.1.mmPosition.offset ≤ e'.1.mmPosition.offset)
    {s : EncoderPass} (hsound : s.Sound mmFeatures) (hn : s.numNewTokens = numNewTokens) :
    ∃ s', encoderLoop c requestId numComputedTokens numNewTokens shift fs s = .ok s' ∧
      s'.Sound mmFeatures ∧ (∀ h, s.Holds requestId h → s'.Holds requestId h) ∧
      Passes c requestId numComputedTokens numNewTokens shift fs s' := by
  induction fs generalizing s with
  | nil => exact ⟨s, rfl, hsound, fun _ h => h, ⟨hn ▸ hnonneg, hn.le, by simp⟩⟩
  | cons e rest ih =>
    obtain ⟨f, i⟩ := e
    have hrest : ∀ e ∈ rest, mmFeatures[e.2]? = some e.1 := fun e he => hfs e (by simp [he])
    obtain ⟨hfirst, hsorted⟩ := List.pairwise_cons.mp hsorted
    -- going on with the rest, once the first item is dealt with
    have hgo {s₁ : EncoderPass} (hsound₁ : s₁.Sound mmFeatures)
        (hn₁ : s₁.numNewTokens = numNewTokens)
        (hkeep : ∀ h, s.Holds requestId h → s₁.Holds requestId h)
        (hf : numComputedTokens < f.stop → s₁.Holds requestId f.identifier ∨
          ¬f.HasCounted numComputedTokens numNewTokens ∧
            ¬f.CutsChunk c.disableChunkedMmInput numComputedTokens numNewTokens) :
        ∃ s', encoderLoop c requestId numComputedTokens numNewTokens shift rest s₁ = .ok s' ∧
          s'.Sound mmFeatures ∧ (∀ h, s.Holds requestId h → s'.Holds requestId h) ∧
          Passes c requestId numComputedTokens numNewTokens shift ((f, i) :: rest) s' := by
      obtain ⟨s', hrun, hsound', hkeep', hpasses⟩ := ih hrest hsorted hsound₁ hn₁
      exact ⟨s', hrun, hsound', fun h hh => hkeep' h (hkeep h hh),
        hpasses.cons fun hstop => (hf hstop).imp_left (hkeep' _)⟩
    rw [encoderLoop]
    simp only
    split
    · rename_i hpast
      exact ⟨s, rfl, hsound, fun _ h => h,
        passes_of_end hfirst (hn ▸ hnonneg) hn.le fun _ => by omega⟩
    rename_i hreached
    split
    · rename_i hdone
      exact hgo hsound hn (fun _ h => h) fun hstop => absurd hdone (not_le.mpr hstop)
    split
    · rename_i hmem
      exact hgo hsound hn (fun _ h => h) fun _ => Or.inl (Or.inl hmem)
    cases hget : s.manager.cached.get? f.identifier with
    | some refs =>
      obtain ⟨m', hm', hvalid, -, hcached⟩ :=
        EncoderCacheManager.checkAndUpdateCache_of_some hsound.valid requestId hget
      have hrefers : m'.RefersTo requestId f.identifier :=
        ⟨insert requestId refs, by rw [hcached, if_pos rfl], Finset.mem_insert_self _ _⟩
      rw [hm', if_pos rfl]
      refine hgo ⟨hvalid, hsound.booked⟩ hn (fun h hh => hh.imp_right ?_) fun _ =>
        Or.inl (Or.inr hrefers)
      rintro ⟨refs', hget', hmem⟩
      by_cases heq : h = f.identifier
      · rwa [heq]
      · exact ⟨refs', by rw [hcached, if_neg heq, hget'], hmem⟩
    | none =>
      rw [EncoderCacheManager.checkAndUpdateCache_of_none requestId hget, if_neg (by simp)]
      simp only
      split
      · exact ⟨_, rfl, ⟨hsound.valid, hsound.booked⟩, fun _ h => h,
          passes_of_end hfirst (by simp only; omega) (by simp only; omega)
            fun _ => by simp only at *; omega⟩
      rename_i hchunk
      obtain ⟨fits, m', hm', hvalid, hkeep⟩ := EncoderCacheManager.canAllocate_eq_ok hsound.valid f
        s.encoderComputeBudget s.numEmbedsToSchedule
      rw [hm']
      simp only [bind, Except.bind]
      have hkept (h : String) (hh : s.Holds requestId h) :
          EncoderPass.Holds requestId { s with manager := m' } h :=
        hh.imp_right (refersTo_of_keeps hkeep)
      split
      · have hend : (if numComputedTokens + shift < (f.mmPosition.offset : Int) then
            f.mmPosition.offset - (numComputedTokens + shift) else 0) =
              max 0 (f.mmPosition.offset - (numComputedTokens + shift)) := by
          split <;> omega
        exact ⟨_, rfl, ⟨hvalid, hsound.booked⟩, hkept, passes_of_end hfirst
          (by simp only [hend]; omega) (by simp only [hend]; omega)
          fun hpos => by simp only [hend] at *; omega⟩
      split
      · rename_i hnone
        exact hgo ⟨hvalid, hsound.booked⟩ hn hkept fun _ => Or.inr ⟨hnone, hchunk⟩
      · have hself : f.identifier ∈ s.mmHashesToSchedule ++ [f.identifier] := by simp
        have hbook {inputs external : List Nat} (hi : i ∈ inputs ++ external)
            (hsub : ∀ j ∈ s.encoderInputsToSchedule ++ s.externalLoadEncoderInput,
              j ∈ inputs ++ external) (h : String)
            (hh : h ∈ s.mmHashesToSchedule ++ [f.identifier]) :
            ∃ j ∈ inputs ++ external, ∃ f', mmFeatures[j]? = some f' ∧ f'.identifier = h := by
          rcases List.mem_append.mp hh with hh | hh
          · obtain ⟨j, hj, hf'⟩ := hsound.booked h hh
            exact ⟨j, hsub j hj, hf'⟩
          · exact ⟨i, hi, f, hfs (f, i) (by simp), (List.mem_singleton.mp hh).symm⟩
        have hkept' (h : String) (hh : s.Holds requestId h) :
            h ∈ s.mmHashesToSchedule ++ [f.identifier] ∨ m'.RefersTo requestId h :=
          (hkept h hh).imp_left fun hmem => List.mem_append_left _ hmem
        split
        · exact hgo ⟨hvalid, hbook (by simp) fun j hj => by
            rw [← List.append_assoc]
            exact List.mem_append_left _ hj⟩ hn hkept' fun _ => Or.inl (Or.inl hself)
        · exact hgo ⟨hvalid, hbook (by simp) fun j hj => by
            rcases List.mem_append.mp hj with hj | hj <;> simp [hj]⟩ hn hkept'
              fun _ => Or.inl (Or.inl hself)

/-- A pass only takes tokens away, and not more than there are. -/
theorem encoderLoop_bounds (hnonneg : 0 ≤ numNewTokens) {fs : List (MultiModalFeatureSpec × Nat)}
    {s s' : EncoderPass} (hn : s.numNewTokens = numNewTokens)
    (hrun : encoderLoop c requestId numComputedTokens numNewTokens shift fs s = .ok s') :
    0 ≤ s'.numNewTokens ∧ s'.numNewTokens ≤ numNewTokens := by
  induction fs generalizing s with
  | nil =>
    obtain rfl := Except.ok.inj hrun
    exact ⟨hn ▸ hnonneg, hn.le⟩
  | cons e rest ih =>
    obtain ⟨f, i⟩ := e
    rw [encoderLoop] at hrun
    simp only at hrun
    split at hrun
    · obtain rfl := Except.ok.inj hrun
      exact ⟨hn ▸ hnonneg, hn.le⟩
    rename_i hreached
    split at hrun
    · refine ih ?_ hrun
      exact hn
    split at hrun
    · refine ih ?_ hrun
      exact hn
    split at hrun
    · refine ih ?_ hrun
      exact hn
    split at hrun
    · obtain rfl := Except.ok.inj hrun
      simp only
      omega
    simp only [bind_ok_iff, Prod.exists] at hrun
    obtain ⟨fits, manager, -, hrun⟩ := hrun
    split at hrun
    · obtain rfl := pure_ok_iff.mp hrun
      simp only
      split <;> omega
    split at hrun
    · refine ih ?_ hrun
      exact hn
    split at hrun
    · refine ih ?_ hrun
      exact hn
    · refine ih ?_ hrun
      exact hn

/-- Encoder inputs only take tokens away, and none without any. -/
theorem tryScheduleEncoderInputs_bounds (hnonneg : 0 ≤ numNewTokens) {budget : Int}
    {m : EncoderCacheManager} {s : EncoderPass}
    (hrun : tryScheduleEncoderInputs c requestId numComputedTokens numNewTokens shift m mmFeatures
      budget = .ok s) :
    0 ≤ s.numNewTokens ∧ s.numNewTokens ≤ numNewTokens ∧
      (mmFeatures = [] → s.numNewTokens = numNewTokens) := by
  unfold tryScheduleEncoderInputs at hrun
  simp only at hrun
  split at hrun
  · obtain rfl := Except.ok.inj hrun
    exact ⟨hnonneg, le_rfl, fun _ => rfl⟩
  · rename_i hsome
    obtain ⟨hzero, hle⟩ := encoderLoop_bounds hnonneg rfl hrun
    exact ⟨hzero, hle, fun hnone => absurd (Or.inr hnone) hsome⟩

end Spec

/-! ## What the worker gathers -/

section Gather

variable {c : EncoderConfig} {requestId : RequestId} {numComputedTokens numNewTokens shift : Nat}
  {mmFeatures : List MultiModalFeatureSpec}

/-- The worker finds embeddings of an item among the tokens of a step. -/
def MultiModalFeatureSpec.IsGathered (numComputedTokens numScheduledTokens : Nat)
    (f : MultiModalFeatureSpec) : Prop :=
  f.mmPosition.offset < numComputedTokens + numScheduledTokens ∧ numComputedTokens < f.stop ∧
    f.mmPosition.hasEmbeds (numComputedTokens - f.mmPosition.offset)
      (min (numComputedTokens + numScheduledTokens - f.mmPosition.offset) f.mmPosition.length)

/-- With the items in order, the worker looks up those it finds embeddings of. -/
theorem mem_gatherMmEmbeddings {start n : Nat} (hsorted : mmFeatures.Pairwise
    fun f g => f.mmPosition.offset ≤ g.mmPosition.offset) {h : String} :
    h ∈ gatherMmEmbeddings start n mmFeatures ↔
      ∃ f ∈ mmFeatures, f.IsGathered start n ∧ f.identifier = h := by
  induction mmFeatures with
  | nil => simp [gatherMmEmbeddings]
  | cons f rest ih =>
    obtain ⟨hfirst, hsorted⟩ := List.pairwise_cons.mp hsorted
    have hskip (hf : ¬f.IsGathered start n) : (∃ g ∈ f :: rest, g.IsGathered start n ∧
        g.identifier = h) ↔ ∃ g ∈ rest, g.IsGathered start n ∧ g.identifier = h := by
      simp [hf]
    rw [gatherMmEmbeddings]
    simp only
    split
    · rename_i hpast
      refine iff_of_false List.not_mem_nil ?_
      rintro ⟨g, hg, hgathered, -⟩
      have hlt := hgathered.1
      rcases List.mem_cons.mp hg with rfl | hg
      · omega
      · have := hfirst g hg
        omega
    split
    · rename_i hdone
      rw [ih hsorted, hskip fun hf => absurd hdone (not_le.mpr hf.2.1)]
    split
    · rename_i hembeds
      have hf : f.IsGathered start n := ⟨by omega, by omega, hembeds⟩
      rw [List.mem_cons, ih hsorted]
      simp [hf, eq_comm]
    · rename_i hnone
      rw [ih hsorted, hskip fun hf => hnone hf.2.2]

/-- Nothing is found among no tokens. -/
theorem not_isGathered_zero (start : Nat) (f : MultiModalFeatureSpec) : ¬f.IsGathered start 0 := by
  rintro ⟨hlt, hstop, hembeds⟩
  simp only [MultiModalFeatureSpec.stop] at hstop
  have hmin : min (start + 0 - f.mmPosition.offset) f.mmPosition.length =
      start - f.mmPosition.offset := by
    omega
  have hpos : 0 < start - f.mmPosition.offset := by omega
  rw [hmin] at hembeds
  unfold PlaceholderRange.hasEmbeds PlaceholderRange.getEmbedsIndicesInRange at hembeds
  cases hmask : f.mmPosition.isEmbed <;> simp [hmask, hpos] at hembeds

/-- What the worker finds inside the tokens of a step, the scheduler finds too. -/
theorem hasCounted_of_isGathered {numScheduledTokens : Nat} {f : MultiModalFeatureSpec}
    (hle : shift + numScheduledTokens ≤ numNewTokens)
    (h : f.IsGathered (numComputedTokens + shift) numScheduledTokens) :
    f.HasCounted numComputedTokens numNewTokens := by
  have hscheduled : 0 < numScheduledTokens := by
    refine Nat.pos_of_ne_zero ?_
    rintro rfl
    exact not_isGathered_zero _ f h
  obtain ⟨hlt, hstop, hembeds⟩ := h
  simp only [MultiModalFeatureSpec.stop] at hstop
  rcases Nat.eq_zero_or_pos f.mmPosition.length with hzero | hpos
  · have hstart : numComputedTokens + shift - f.mmPosition.offset = 0 := by omega
    have hstart' : (max 0 ((numComputedTokens : Int) - f.mmPosition.offset)).toNat = 0 := by omega
    have hstop' : (min (f.mmPosition.length : Int)
        (numComputedTokens + numNewTokens - f.mmPosition.offset)).toNat = 0 := by omega
    rw [MultiModalFeatureSpec.HasCounted, hstart', hstop']
    rwa [hstart, hzero, Nat.min_zero] at hembeds
  · refine PlaceholderRange.hasEmbeds_mono ?_ ?_ ?_ hembeds <;> omega

/-! ## The condition -/

variable (numComputedTokens numNewTokens) in
/-- The worker needs embeddings of an item one position further, and the scheduler finds none
among the tokens of the step. -/
def MultiModalFeatureSpec.NeededByShift (f : MultiModalFeatureSpec) : Prop :=
  f.IsGathered (numComputedTokens + 1) numNewTokens ∧ ¬f.HasCounted numComputedTokens numNewTokens

variable (c numComputedTokens numNewTokens) in
/-- The scheduler gets to an item, and either schedules it or cuts the step before it. -/
def MultiModalFeatureSpec.IsNoticed (f : MultiModalFeatureSpec) : Prop :=
  f.mmPosition.offset < numComputedTokens + numNewTokens + 1 ∧ numComputedTokens < f.stop ∧
    (f.HasCounted numComputedTokens numNewTokens ∨
      f.CutsChunk c.disableChunkedMmInput numComputedTokens numNewTokens)

variable (c numComputedTokens numNewTokens mmFeatures) in
/-- Every item that only the shifted range needs is noticed under its hash anyway. -/
def ShiftCovered : Prop :=
  ∀ f ∈ mmFeatures, f.NeededByShift numComputedTokens numNewTokens →
    ∃ g ∈ mmFeatures, g.identifier = f.identifier ∧ g.IsNoticed c numComputedTokens numNewTokens

variable (mmFeatures) in
/-- Every embedding that the worker gathers from a position on was scheduled or is cached. -/
def EncoderPass.GathersScheduled (s : EncoderPass) (start : Nat) : Prop :=
  ∀ h ∈ gatherMmEmbeddings start s.numNewTokens.toNat mmFeatures,
    (s.manager.cached.get? h).isSome ∨ s.Schedules mmFeatures h

/-- Where the shift is covered, the worker gathers what is scheduled or cached. -/
theorem gathersScheduled_of_shiftCovered {workerShift : Nat} (hshift : workerShift ≤ shift)
    (hshift_le : shift ≤ 1)
    (hsorted : mmFeatures.Pairwise fun f g => f.mmPosition.offset ≤ g.mmPosition.offset)
    (hcovered : workerShift = 0 ∨ ShiftCovered c numComputedTokens numNewTokens mmFeatures)
    {m : EncoderCacheManager} (hm : m.Valid) (budget : Int) :
    ∃ s, tryScheduleEncoderInputs c requestId numComputedTokens numNewTokens shift m mmFeatures
        budget = .ok s ∧ s.GathersScheduled mmFeatures (numComputedTokens + workerShift) := by
  unfold tryScheduleEncoderInputs
  simp only
  split
  · rename_i hnothing
    refine ⟨_, rfl, fun h hh => ?_⟩
    obtain ⟨f, hf, hgathered, -⟩ := (mem_gatherMmEmbeddings hsorted).mp hh
    rcases hnothing with hzero | hnil
    · simp only [hzero] at hgathered
      exact absurd hgathered (not_isGathered_zero _ f)
    · rw [hnil] at hf
      exact absurd hf List.not_mem_nil
  · have hmem (e : MultiModalFeatureSpec × Nat) (he : e ∈ mmFeatures.zipIdx) :
        mmFeatures[e.2]? = some e.1 := List.mem_zipIdx_iff_getElem?.mp he
    have hsorted' : mmFeatures.zipIdx.Pairwise
        fun e e' => e.1.mmPosition.offset ≤ e'.1.mmPosition.offset := by
      rw [← List.pairwise_map (f := Prod.fst)
        (R := fun f g : MultiModalFeatureSpec => f.mmPosition.offset ≤ g.mmPosition.offset)]
      simpa using hsorted
    obtain ⟨s, hrun, hsound, -, hnonneg, hle, hholds⟩ := encoderLoop_spec c requestId
      numComputedTokens numNewTokens shift (Int.natCast_nonneg _) hmem hsorted'
      (EncoderPass.sound_start mmFeatures numNewTokens budget hm) rfl
    refine ⟨s, hrun, fun h hh => ?_⟩
    obtain ⟨f, hf, hgathered, rfl⟩ := (mem_gatherMmEmbeddings hsorted).mp hh
    obtain ⟨n, hn⟩ := Int.eq_ofNat_of_zero_le hnonneg
    rw [hn] at hle hholds hgathered
    rw [Int.toNat_natCast] at hgathered
    have hpos : (0 : Int) < n := by
      refine Int.natCast_pos.mpr (Nat.pos_of_ne_zero fun hzero => ?_)
      rw [hzero] at hgathered
      exact not_isGathered_zero _ f hgathered
    -- what the pass holds under a hash is cached or scheduled
    have hfound {g : MultiModalFeatureSpec} (hg : s.Holds requestId g.identifier) :
        (s.manager.cached.get? g.identifier).isSome ∨ s.Schedules mmFeatures g.identifier := by
      rcases hg with hbooked | ⟨refs, hget, -⟩
      · exact Or.inr (hsound.booked _ hbooked)
      · exact Or.inl (by rw [hget]; rfl)
    have hpassed {g : MultiModalFeatureSpec} (hg : g ∈ mmFeatures)
        (hstop : numComputedTokens < g.stop)
        (hlt : g.mmPosition.offset < numComputedTokens + shift + n) :
        s.Holds requestId g.identifier ∨ ¬g.HasCounted numComputedTokens numNewTokens ∧
          ((n : Int) = numNewTokens →
            ¬g.CutsChunk c.disableChunkedMmInput numComputedTokens numNewTokens) := by
      obtain ⟨i, hi⟩ := List.mem_iff_getElem?.mp hg
      exact hholds hpos (g, i) (List.mem_zipIdx_iff_getElem?.mpr hi) (Int.ofNat_lt.mpr hstop)
        (by simp only; omega)
    have hlt := hgathered.1
    have hstop := hgathered.2.1
    rcases hpassed hf (by omega) (by omega) with hheld | ⟨huncounted, -⟩
    · exact hfound hheld
    · -- only an uncut, shifted step needs what the scheduler does not find
      have houter : numNewTokens < workerShift + n :=
        not_le.mp fun hinner => huncounted (hasCounted_of_isGathered hinner hgathered)
      obtain ⟨rfl, rfl⟩ : workerShift = 1 ∧ n = numNewTokens := by omega
      obtain ⟨g, hg, hid, hreached, hgstop, hnoticed⟩ :=
        (hcovered.resolve_left one_ne_zero) f hf ⟨hgathered, huncounted⟩
      rw [← hid]
      rcases hpassed hg hgstop (by omega) with hheld | ⟨huncounted', huncut⟩
      · exact hfound hheld
      · exact absurd hnoticed (not_or.mpr ⟨huncounted', huncut rfl⟩)

/-! ## The condition is needed -/

variable (numNewTokens) in
/-- A pass that has booked nothing, with everything cached but one identifier. -/
structure AllCachedBut (identifier : String) (fs : List (MultiModalFeatureSpec × Nat))
    (s : EncoderPass) : Prop where
  valid : s.manager.Valid
  uncut : s.numNewTokens = numNewTokens
  inputs : s.encoderInputsToSchedule = []
  external : s.externalLoadEncoderInput = []
  hashes : s.mmHashesToSchedule = []
  embeds : s.numEmbedsToSchedule = 0
  missing : s.manager.cached.get? identifier = none
  others : ∀ e ∈ fs, e.1.identifier ≠ identifier →
    ∃ refs, s.manager.cached.get? e.1.identifier = some refs
  fits : ∀ e ∈ fs, (e.1.mmPosition.getNumEmbeds : Int) ≤ s.encoderComputeBudget ∧
    (e.1.mmPosition.getNumEmbeds : Int) ≤ s.manager.numFreeSlots

variable (requestId) in
/-- Such a pass ends as it began, if no item with the identifier is noticed. -/
theorem encoderLoop_allCachedBut {identifier : String}
    {fs : List (MultiModalFeatureSpec × Nat)}
    (hunnoticed : ∀ e ∈ fs, e.1.identifier = identifier →
      ¬e.1.IsNoticed c numComputedTokens numNewTokens)
    {s : EncoderPass} (hs : AllCachedBut numNewTokens identifier fs s) :
    ∃ s', encoderLoop c requestId numComputedTokens numNewTokens 1 fs s = .ok s' ∧
      AllCachedBut numNewTokens identifier [] s' := by
  induction fs generalizing s with
  | nil => exact ⟨s, rfl, hs⟩
  | cons e rest ih =>
    obtain ⟨f, i⟩ := e
    have hrest : ∀ e ∈ rest, e.1.identifier = identifier →
        ¬e.1.IsNoticed c numComputedTokens numNewTokens := fun e he => hunnoticed e (by simp [he])
    have hnext : AllCachedBut numNewTokens identifier rest s :=
      { hs with
        others := fun e he => hs.others e (by simp [he])
        fits := fun e he => hs.fits e (by simp [he]) }
    rw [encoderLoop]
    simp only
    split
    · exact ⟨s, rfl, { hs with others := by simp, fits := by simp }⟩
    rename_i hreached
    split
    · exact ih hrest hnext
    rename_i hstop
    rw [if_neg (by simp [hs.hashes])]
    by_cases hid : f.identifier = identifier
    · have hnone : s.manager.cached.get? f.identifier = none := by rw [hid, hs.missing]
      have hunseen := hunnoticed (f, i) (by simp) hid
      have hcounted : ¬f.HasCounted numComputedTokens numNewTokens :=
        fun h => hunseen ⟨by simp only; omega, by simp only; omega, Or.inl h⟩
      have hchunk : ¬f.CutsChunk c.disableChunkedMmInput numComputedTokens numNewTokens :=
        fun h => hunseen ⟨by simp only; omega, by simp only; omega, Or.inr h⟩
      obtain ⟨hbudget, hslots⟩ := hs.fits (f, i) (by simp)
      have hfits : s.manager.canAllocate f s.encoderComputeBudget s.numEmbedsToSchedule =
          .ok (true, s.manager) := by
        simp only [EncoderCacheManager.canAllocate, hs.embeds, add_zero]
        rw [if_neg (not_lt.mpr hbudget), if_pos hslots]
      rw [EncoderCacheManager.checkAndUpdateCache_of_none requestId hnone, if_neg (by simp)]
      simp only
      rw [if_neg hchunk, hfits]
      simp only [bind, Except.bind, Bool.not_true, Bool.false_eq_true, if_false, if_pos hcounted]
      exact ih hrest hnext
    · obtain ⟨refs, hget⟩ := hs.others (f, i) (by simp) hid
      obtain ⟨m', hm', hvalid, hslots, hcached⟩ :=
        EncoderCacheManager.checkAndUpdateCache_of_some hs.valid requestId hget
      rw [hm', if_pos rfl]
      refine ih hrest { hnext with
        valid := hvalid
        missing := by rw [hcached, if_neg (Ne.symm hid), hs.missing]
        others := fun e he hne => ?_
        fits := fun e he => by rw [hslots]; exact hnext.fits e he }
      rw [hcached]
      split
      · exact ⟨_, rfl⟩
      · exact hnext.others e he hne

/-- There are entries for all hashes of a list but one. -/
private theorem exists_cached_but (requestId : RequestId) (identifier : String) (hs : List String) :
    ∃ cached : Dict String (Finset RequestId), cached.get? identifier = none ∧
      ∀ h ∈ hs, h ≠ identifier → ∃ refs, cached.get? h = some refs := by
  induction hs with
  | nil => exact ⟨Dict.empty, Dict.get?_empty _, by simp⟩
  | cons h hs ih =>
    obtain ⟨cached, hmissing, hothers⟩ := ih
    by_cases hid : h = identifier
    · refine ⟨cached, hmissing, fun h' hh' hne => hothers h' ?_ hne⟩
      rcases List.mem_cons.mp hh' with rfl | hh'
      · exact absurd hid hne
      · exact hh'
    · refine ⟨cached.insert h {requestId}, ?_, fun h' hh' hne => ?_⟩
      · rw [Dict.get?_insert, if_neg (Ne.symm hid), hmissing]
      · rw [Dict.get?_insert]
        split
        · exact ⟨_, rfl⟩
        · rename_i hne'
          exact hothers h' ((List.mem_cons.mp hh').resolve_left hne') hne

variable (c requestId numComputedTokens numNewTokens mmFeatures) in
/-- Whatever is cached and budgeted, the pass succeeds and the worker, which starts a number of
positions further, gathers what is scheduled or cached. -/
def AlwaysGathersScheduled (shift workerShift : Nat) : Prop :=
  ∀ m : EncoderCacheManager, m.Valid → ∀ budget : Int,
    ∃ s, tryScheduleEncoderInputs c requestId numComputedTokens numNewTokens shift m mmFeatures
        budget = .ok s ∧ s.GathersScheduled mmFeatures (numComputedTokens + workerShift)

/-- The shift has to be covered where the worker asks for it. -/
theorem shiftCovered_of_always
    (hsorted : mmFeatures.Pairwise fun f g => f.mmPosition.offset ≤ g.mmPosition.offset)
    (h : AlwaysGathersScheduled c requestId numComputedTokens numNewTokens mmFeatures 1 1) :
    ShiftCovered c numComputedTokens numNewTokens mmFeatures := by
  intro f hf hneeded
  by_contra hnone
  push Not at hnone
  obtain ⟨cached, hmissing, hothers⟩ :=
    exists_cached_but requestId f.identifier (mmFeatures.map (·.identifier))
  -- space for every item, of which all are cached but this one
  let numEmbeds := (mmFeatures.map fun g => g.mmPosition.getNumEmbeds).sum
  let m : EncoderCacheManager := { EncoderCacheManager.init numEmbeds with cached }
  have hm : m.Valid := ⟨fun h n hn => by simp [m, EncoderCacheManager.init] at hn,
    (EncoderCacheManager.valid_init numEmbeds).slots_eq⟩
  have hstart : AllCachedBut numNewTokens f.identifier mmFeatures.zipIdx
      (EncoderPass.start numNewTokens numEmbeds m) := by
    have hfits (e : MultiModalFeatureSpec × Nat) (he : e ∈ mmFeatures.zipIdx) :
        (e.1.mmPosition.getNumEmbeds : Int) ≤ numEmbeds := by
      have hmem : e.1 ∈ mmFeatures :=
        List.mem_of_getElem? (List.mem_zipIdx_iff_getElem?.mp he)
      exact Int.ofNat_le.mpr (List.single_le_sum (by simp) _ (List.mem_map_of_mem hmem))
    refine ⟨hm, rfl, rfl, rfl, rfl, rfl, hmissing, fun e he hne => ?_,
      fun e he => ⟨hfits e he, hfits e he⟩⟩
    have hmem : e.1 ∈ mmFeatures := List.mem_of_getElem? (List.mem_zipIdx_iff_getElem?.mp he)
    exact hothers _ (List.mem_map_of_mem hmem) hne
  obtain ⟨s', hrun', hs'⟩ := encoderLoop_allCachedBut requestId (c := c)
    (fun e he hid hnoticed => hnone e.1
      (List.mem_of_getElem? (List.mem_zipIdx_iff_getElem?.mp he)) hid hnoticed) hstart
  obtain ⟨s, hrun, hgathers⟩ := h m hm numEmbeds
  have hnonempty : ¬((numNewTokens : Int) = 0 ∨ mmFeatures = []) := by
    rintro (hzero | rfl)
    · obtain rfl := Int.ofNat_eq_zero.mp hzero
      exact not_isGathered_zero _ f hneeded.1
    · cases hf
  unfold tryScheduleEncoderInputs at hrun
  simp only [if_neg hnonempty] at hrun
  rw [hrun'] at hrun
  cases hrun
  have hlooked : f.identifier ∈ gatherMmEmbeddings (numComputedTokens + 1)
      s'.numNewTokens.toNat mmFeatures := by
    rw [mem_gatherMmEmbeddings hsorted, hs'.uncut, Int.toNat_natCast]
    exact ⟨f, hf, hneeded.1, rfl⟩
  rcases hgathers _ hlooked with hcached | ⟨i, hi, -⟩
  · rw [hs'.missing] at hcached
    cases hcached
  · simp [hs'.inputs, hs'.external] at hi

/-- The worker gathers what was scheduled for every cache and budget exactly when it does not
shift, or when the items that only the shifted range needs are noticed. -/
theorem always_gathers_scheduled_iff {workerShift : Nat} (hshift : workerShift ≤ shift)
    (hshift_le : shift ≤ 1)
    (hsorted : mmFeatures.Pairwise fun f g => f.mmPosition.offset ≤ g.mmPosition.offset) :
    AlwaysGathersScheduled c requestId numComputedTokens numNewTokens mmFeatures shift
        workerShift ↔
      workerShift = 0 ∨ ShiftCovered c numComputedTokens numNewTokens mmFeatures := by
  constructor
  · intro h
    rcases Nat.eq_zero_or_pos workerShift with hzero | hpos
    · exact Or.inl hzero
    · obtain ⟨rfl, rfl⟩ : workerShift = 1 ∧ shift = 1 := by omega
      exact Or.inr (shiftCovered_of_always hsorted h)
  · intro h m hm budget
    exact gathersScheduled_of_shiftCovered hshift hshift_le hsorted h hm budget

end Gather

/-- An image whose first embedding is right behind the four tokens of a step. -/
def imageBehindStep : MultiModalFeatureSpec where
  identifier := "image"
  mmPosition := { offset := 4, length := 3, isEmbed := none }

/-- Chunked items and no EC connector. -/
def chunkedMmInput : EncoderConfig where
  disableChunkedMmInput := false
  hasCacheItem _ := false

/-- With EAGLE, the first embedding of the image is looked up and was not scheduled. -/
theorem imageBehindStep_not_gathersScheduled :
    ¬∃ s, tryScheduleEncoderInputs chunkedMmInput 0 0 4 1 (EncoderCacheManager.init 8)
        [imageBehindStep] 8 = .ok s ∧ s.GathersScheduled [imageBehindStep] (0 + 1) := by
  rintro ⟨s, hrun, hgathers⟩
  have hpass : tryScheduleEncoderInputs chunkedMmInput 0 0 4 1 (EncoderCacheManager.init 8)
      [imageBehindStep] 8 = .ok (EncoderPass.start 4 8 (EncoderCacheManager.init 8)) := rfl
  rw [hpass] at hrun
  cases hrun
  rcases hgathers "image" (by decide) with hcached | ⟨i, hi, -⟩
  · cases hcached
  · cases hi

/-- A step that reaches into the image schedules it for the shifted range as well. -/
theorem imageInStep_always_gathers_scheduled :
    AlwaysGathersScheduled chunkedMmInput 0 0 5 [imageBehindStep] 1 1 :=
  (always_gathers_scheduled_iff le_rfl le_rfl (by simp)).mpr (Or.inr (by
    intro f hf hneeded
    rw [List.mem_singleton] at hf
    subst hf
    exact absurd (by decide) hneeded.2))

end Vllm
