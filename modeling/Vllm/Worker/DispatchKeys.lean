import Mathlib.Order.Bounds.Basic
import Vllm.Worker.CudagraphDispatcher

/-!
# The keys of an initialized dispatcher

The table of padded sizes takes a batch to the next capture size, and the keys are the
products of the capture sizes with the LoRA cases. So whether a batch finds a graph of some
mode is a condition on the batch and a condition on the padded size, apart from each other.
-/

namespace Vllm.Worker

open Checked

/-! ## The table of padded sizes -/

private theorem writeEntry_eq_ok {table table' : List Nat} {i value : Nat} :
    writeEntry table i value = .ok table' ↔ i < table.length ∧ table' = table.set i value := by
  unfold writeEntry
  split <;> simp_all [eq_comm]

/-- Writing a range of entries keeps the length and the other entries. -/
theorem writeRange_eq_ok {f : Nat → Nat} {start count : Nat} {table table' : List Nat}
    (h : (List.range' start count).foldlM (fun table i => writeEntry table i (f i)) table =
      .ok table') :
    table'.length = table.length ∧ ∀ n, table'[n]? =
      if start ≤ n ∧ n < start + count then some (f n) else table[n]? := by
  induction count generalizing start table with
  | zero =>
    obtain rfl := pure_ok_iff.mp h
    refine ⟨rfl, fun n => ?_⟩
    rw [if_neg (by omega)]
  | succ count ih =>
    rw [List.range'_succ, List.foldlM_cons] at h
    obtain ⟨table₁, h₁, h⟩ := bind_ok_iff.mp h
    obtain ⟨hstart, rfl⟩ := writeEntry_eq_ok.mp h₁
    obtain ⟨hlength, hentries⟩ := ih h
    refine ⟨by rw [hlength, List.length_set], fun n => ?_⟩
    rw [hentries n, List.getElem?_set]
    rcases Nat.lt_trichotomy n start with hn | rfl | hn
    · rw [if_neg (by omega), if_neg (by omega), if_neg (by omega)]
    · rw [if_neg (by omega), if_pos rfl, if_pos hstart, if_pos (by omega)]
    · rw [if_neg (by omega : ¬ start = n)]
      by_cases hlast : n < start + (count + 1)
      · rw [if_pos (by omega), if_pos (by omega)]
      · rw [if_neg (by omega), if_neg (by omega)]

/-- The segments of ascending sizes fill the table from the first size on: every entry is a size or
the end, not smaller than its index and not larger than any such size. -/
theorem writeSegments_eq_ok {sizes : List Nat} {start stop : Nat} {table table' : List Nat}
    (hsorted : (start :: sizes).Pairwise (· ≤ ·)) (hstop : ∀ s ∈ start :: sizes, s ≤ stop)
    (h : ((sizes ++ [stop]).zip (start :: sizes)).foldlM
      (fun table segment => writeSegment table segment.2 segment.1) table = .ok table') :
    (∀ n, n < start → table'[n]? = table[n]?) ∧
      ∀ n, start ≤ n → n < stop → ∃ p, table'[n]? = some p ∧ n ≤ p ∧
        p ∈ start :: (sizes ++ [stop]) ∧ ∀ s ∈ start :: sizes, n ≤ s → p ≤ s := by
  induction sizes generalizing start table with
  | nil =>
    rw [List.nil_append, List.zip_cons_cons, List.foldlM_cons] at h
    obtain ⟨table₁, h₁, h⟩ := bind_ok_iff.mp h
    obtain rfl := pure_ok_iff.mp h
    have hentries := (writeRange_eq_ok h₁).2
    refine ⟨fun n hn => ?_, fun n hn hlt => ?_⟩
    · rw [hentries, if_neg (by omega)]
    · rw [hentries, if_pos (by omega)]
      refine ⟨_, rfl, ?_, ?_, ?_⟩
      · split <;> omega
      · split <;> simp
      · intro s hs hle
        obtain rfl := List.mem_singleton.mp hs
        rw [if_pos (by omega)]
  | cons size sizes ih =>
    rw [List.cons_append, List.zip_cons_cons, List.foldlM_cons] at h
    obtain ⟨table₁, h₁, h⟩ := bind_ok_iff.mp h
    have hentries := (writeRange_eq_ok h₁).2
    obtain ⟨hfirst, hsorted⟩ := List.pairwise_cons.mp hsorted
    obtain ⟨hbelow, habove⟩ := ih hsorted (fun s hs => hstop s (List.mem_cons_of_mem _ hs)) h
    have hsize : start ≤ size := hfirst size List.mem_cons_self
    refine ⟨fun n hn => ?_, fun n hn hlt => ?_⟩
    · rw [hbelow n (by omega), hentries, if_neg (by omega)]
    · rcases Nat.lt_or_ge n size with hlow | hhigh
      · -- the first segment
        rw [hbelow n hlow, hentries, if_pos (by omega)]
        refine ⟨_, rfl, ?_, ?_, fun s hs hle => ?_⟩
        · split <;> omega
        · split <;> simp
        · rcases List.mem_cons.mp hs with rfl | hs
          · rw [if_pos (by omega)]
          · have hnext : size ≤ s := by
              rcases List.mem_cons.mp hs with rfl | hs
              · exact le_rfl
              · exact (List.pairwise_cons.mp hsorted).1 s hs
            split <;> omega
      · obtain ⟨p, hp, hle, hmem, hleast⟩ := habove n hhigh hlt
        refine ⟨p, hp, hle, List.mem_cons_of_mem _ hmem, fun s hs hns => ?_⟩
        rcases List.mem_cons.mp hs with rfl | hs
        · have := hleast size List.mem_cons_self (by omega)
          omega
        · exact hleast s hs hns

/-- Ascending capture sizes, with the largest last. -/
structure CaptureSizes (c : DispatchConfig) (sizes : List Nat) : Prop where
  configured : c.cudagraphCaptureSizes = some sizes
  ascending : sizes.Pairwise (· ≤ ·)
  last : sizes.getLast? = some c.maxCudagraphCaptureSize

namespace CaptureSizes

variable {c : DispatchConfig} {sizes : List Nat}

private theorem max_mem (h : CaptureSizes c sizes) : c.maxCudagraphCaptureSize ∈ sizes :=
  List.mem_of_getLast? h.last

theorem le_max (h : CaptureSizes c sizes) {s : Nat} (hs : s ∈ sizes) :
    s ≤ c.maxCudagraphCaptureSize := by
  obtain ⟨init, hinit⟩ := List.getLast?_eq_some_iff.mp h.last
  have hsorted := h.ascending
  rw [hinit] at hs hsorted
  rcases List.mem_append.mp hs with hs | hs
  · exact (List.pairwise_append.mp hsorted).2.2 s hs _ (List.mem_singleton_self _)
  · exact (List.mem_singleton.mp hs).le

end CaptureSizes

namespace CudagraphDispatcher

/-- The table takes a batch to the least capture size that holds it, and keeps capture sizes. -/
theorem computeBsToPaddedGraphSize_eq_ok {d d' : CudagraphDispatcher} {sizes : List Nat}
    (hsizes : CaptureSizes d.config sizes) (h : d.computeBsToPaddedGraphSize = .ok d') :
    d' = { d with bsToPaddedGraphSize := d'.bsToPaddedGraphSize } ∧
      (∀ bs ∈ sizes, d'.bsToPaddedGraphSize[bs]? = some bs) ∧
      ∀ n, 0 < n → n ≤ d.config.maxCudagraphCaptureSize → ∃ p,
        d'.bsToPaddedGraphSize[n]? = some p ∧ IsLeast {s | s ∈ sizes ∧ n ≤ s} p := by
  simp only [computeBsToPaddedGraphSize, hsizes.configured, bind_ok_iff, pure_ok_iff] at h
  obtain ⟨table, htable, _, -, rfl⟩ := h
  have hsorted : (0 :: sizes).Pairwise (· ≤ ·) :=
    List.pairwise_cons.mpr ⟨fun s _ => Nat.zero_le s, hsizes.ascending⟩
  have hstop : ∀ s ∈ 0 :: sizes, s ≤ d.config.maxCudagraphCaptureSize + 1 := by
    intro s hs
    rcases List.mem_cons.mp hs with rfl | hs
    · exact Nat.zero_le _
    · exact (hsizes.le_max hs).trans (Nat.le_succ _)
  have hentry := (writeSegments_eq_ok hsorted hstop htable).2
  refine ⟨rfl, fun bs hbs => ?_, fun n hpos hn => ?_⟩
  · have hmax := hsizes.le_max hbs
    obtain ⟨p, hp, hle, -, hleast⟩ := hentry bs (Nat.zero_le bs) (by omega)
    rw [hp, Nat.le_antisymm (hleast bs (List.mem_cons_of_mem _ hbs) le_rfl) hle]
  obtain ⟨p, hp, hle, hmem, hleast⟩ := hentry n (Nat.zero_le n) (by omega)
  have hmax := hleast _ (List.mem_cons_of_mem _ hsizes.max_mem) hn
  refine ⟨p, hp, ⟨?_, hle⟩, fun s hs => hleast s (List.mem_cons_of_mem _ hs.1) hs.2⟩
  rcases List.mem_cons.mp hmem with rfl | hmem
  · omega
  · rcases List.mem_append.mp hmem with hmem | hmem
    · exact hmem
    · have := List.mem_singleton.mp hmem
      omega

/-! ## The keys -/

/-- The descriptor of a batch that is padded to a size. -/
def descriptor (c : DispatchConfig) (p : Nat) (uniform hasLora : Bool) (numActiveLoras : Nat) :
    BatchDescriptor where
  numTokens := p
  numReqs := some (min (if uniform then p / c.uniformDecodeQueryLen else p) c.maxNumSeqs)
  uniform := uniform
  hasLora := hasLora
  numActiveLoras := numActiveLoras

/-- The descriptor of a piecewise graph. -/
def relaxedDescriptor (p : Nat) (hasLora : Bool) (numActiveLoras : Nat) : BatchDescriptor where
  numTokens := p
  hasLora := hasLora
  numActiveLoras := numActiveLoras

/-- What creating a descriptor reads of the dispatcher, and what it returns. -/
theorem createPaddedBatchDescriptor_eq {d : CudagraphDispatcher} {n p : Nat}
    (hp : d.bsToPaddedGraphSize[n]? = some p) {uniformDecode : Bool}
    (hmultiple : uniformDecode = true → d.cudagraphMode.hasMode .full = true →
      p % d.config.uniformDecodeQueryLen = 0) (hasLora : Bool) (k : Nat) :
    d.createPaddedBatchDescriptor n uniformDecode hasLora k =
      .ok (descriptor d.config p (uniformDecode && d.cudagraphMode.hasMode .full) hasLora k) := by
  unfold createPaddedBatchDescriptor
  rw [hp]
  cases huniform : uniformDecode with
  | false => rfl
  | true =>
    cases hfull : d.cudagraphMode.hasMode .full with
    | false => rfl
    | true =>
      simp only [ensure, if_pos (hmultiple huniform hfull)]
      rfl

/-- A dispatcher that differs in its keys only. -/
def KeysAdded (d d' : CudagraphDispatcher) : Prop :=
  d' = { d with piecewiseKeys := d'.piecewiseKeys, fullKeys := d'.fullKeys }

theorem KeysAdded.refl (d : CudagraphDispatcher) : KeysAdded d d := rfl

theorem KeysAdded.trans {d₁ d₂ d₃ : CudagraphDispatcher} (h₁ : KeysAdded d₁ d₂)
    (h₂ : KeysAdded d₂ d₃) : KeysAdded d₁ d₃ := by
  rw [KeysAdded, h₂, h₁]

/-- Descriptors do not depend on the keys. -/
theorem KeysAdded.createPaddedBatchDescriptor {d d' : CudagraphDispatcher} (h : KeysAdded d d')
    (n : Nat) (u l : Bool) (k : Nat) :
    d'.createPaddedBatchDescriptor n u l k = d.createPaddedBatchDescriptor n u l k := by
  rw [h]
  rfl

/-- Where each step adds some keys, a pass adds the keys of all steps. -/
theorem foldlM_keys {add : CudagraphDispatcher → Nat → Nat →
      Except DispatchError CudagraphDispatcher}
    {piecewise full : Nat × Nat → List BatchDescriptor} {keys : List (Nat × Nat)}
    {d d' : CudagraphDispatcher}
    (hstep : ∀ d₁ d₂ key, key ∈ keys → KeysAdded d d₁ → add d₁ key.1 key.2 = .ok d₂ →
      d₂ = { d₁ with
        piecewiseKeys := piecewise key ++ d₁.piecewiseKeys
        fullKeys := full key ++ d₁.fullKeys })
    (h : keys.foldlM (fun d key => add d key.1 key.2) d = .ok d') :
    KeysAdded d d' ∧
      (∀ desc, desc ∈ d'.piecewiseKeys ↔
        desc ∈ d.piecewiseKeys ∨ ∃ key ∈ keys, desc ∈ piecewise key) ∧
      ∀ desc, desc ∈ d'.fullKeys ↔ desc ∈ d.fullKeys ∨ ∃ key ∈ keys, desc ∈ full key := by
  induction keys generalizing d with
  | nil =>
    obtain rfl := pure_ok_iff.mp h
    exact ⟨.refl d, by simp, by simp⟩
  | cons key keys ih =>
    rw [List.foldlM_cons] at h
    obtain ⟨d₁, h₁, h⟩ := bind_ok_iff.mp h
    have hd₁ := hstep d d₁ key List.mem_cons_self (.refl d) h₁
    have hadded : KeysAdded d d₁ := by
      rw [KeysAdded, hd₁]
    obtain ⟨hrest, hpiecewise, hfull⟩ := ih (fun d₂ d₃ key' hkey' hd₂ h₃ =>
      hstep d₂ d₃ key' (List.mem_cons_of_mem _ hkey') (hadded.trans hd₂) h₃) h
    refine ⟨hadded.trans hrest, fun desc => ?_, fun desc => ?_⟩
    · rw [hpiecewise, hd₁, List.mem_append, List.exists_mem_cons_iff]
      tauto
    · rw [hfull, hd₁, List.mem_append, List.exists_mem_cons_iff]
      tauto

private theorem exists_mem_product {sizes cases : List Nat} {P : Nat → Nat → Prop} :
    (∃ key ∈ sizes.product cases, P key.1 key.2) ↔ ∃ bs ∈ sizes, ∃ k ∈ cases, P bs k := by
  constructor
  · rintro ⟨⟨bs, k⟩, hkey, hP⟩
    obtain ⟨hbs, hk⟩ := List.pair_mem_product.mp hkey
    exact ⟨bs, hbs, k, hk, hP⟩
  · rintro ⟨bs, hbs, k, hk, hP⟩
    exact ⟨(bs, k), List.pair_mem_product.mpr ⟨hbs, hk⟩, hP⟩

/-- The keys of mixed batches, where padding keeps the capture sizes. -/
theorem addMixedKeys_eq_ok {d d' : CudagraphDispatcher} {sizes : List Nat}
    (hpadded : ∀ bs ∈ sizes, d.bsToPaddedGraphSize[bs]? = some bs)
    (h : d.addMixedKeys sizes = .ok d') :
    KeysAdded d d' ∧
      (∀ desc, desc ∈ d'.piecewiseKeys ↔ desc ∈ d.piecewiseKeys ∨
        d.cudagraphMode.mixedMode = .piecewise ∧ ∃ bs ∈ sizes, ∃ k ∈ d.getLoraCases,
          desc = relaxedDescriptor bs (0 < k) k) ∧
      ∀ desc, desc ∈ d'.fullKeys ↔ desc ∈ d.fullKeys ∨
        d.cudagraphMode.mixedMode = .full ∧ ∃ bs ∈ sizes, ∃ k ∈ d.getLoraCases,
          desc = descriptor d.config bs false (0 < k) k := by
  have hstep : ∀ d₁ d₂ key, key ∈ sizes.product d.getLoraCases → KeysAdded d d₁ →
      d₁.addMixedKey key.1 key.2 = .ok d₂ → d₂ = { d₁ with
        piecewiseKeys := (if d.cudagraphMode.mixedMode = .piecewise then
          [relaxedDescriptor key.1 (0 < key.2) key.2] else []) ++ d₁.piecewiseKeys
        fullKeys := (if d.cudagraphMode.mixedMode = .full then
          [descriptor d.config key.1 false (0 < key.2) key.2] else []) ++ d₁.fullKeys } := by
    rintro d₁ d₂ ⟨bs, k⟩ hkey hadded hadd
    have hbs : bs ∈ sizes := (List.pair_mem_product.mp hkey).1
    have hmode : d₁.cudagraphMode = d.cudagraphMode := by rw [hadded]
    rw [addMixedKey, hadded.createPaddedBatchDescriptor,
      createPaddedBatchDescriptor_eq (hpadded bs hbs) (fun hfalse => by cases hfalse),
      hmode] at hadd
    obtain ⟨desc, hdesc, hadd⟩ := bind_ok_iff.mp hadd
    obtain rfl := Except.ok.inj hdesc
    cases hmixed : d.cudagraphMode.mixedMode with
    | none =>
      rw [hmixed] at hadd
      cases hadd
    | piecewise =>
      rw [hmixed] at hadd
      obtain rfl := Except.ok.inj hadd
      rfl
    | full =>
      rw [hmixed] at hadd
      obtain rfl := Except.ok.inj hadd
      rfl
  unfold addMixedKeys at h
  split at h
  · rename_i hnone
    obtain rfl := Except.ok.inj h
    exact ⟨.refl d, by simp [hnone], by simp [hnone]⟩
  · obtain ⟨hadded, hpiecewise, hfull⟩ := foldlM_keys hstep h
    refine ⟨hadded, fun desc => ?_, fun desc => ?_⟩
    · rw [hpiecewise, ← exists_mem_product]
      by_cases hmixed : d.cudagraphMode.mixedMode = .piecewise <;> simp [hmixed]
    · rw [hfull, ← exists_mem_product]
      by_cases hmixed : d.cudagraphMode.mixedMode = .full <;> simp [hmixed]

/-- The keys of uniform decodes, where padding keeps the capture sizes. -/
theorem addDecodeKeys_eq_ok {d d' : CudagraphDispatcher} {q : Nat} {sizes : List Nat}
    (hpadded : ∀ bs ∈ sizes, d.bsToPaddedGraphSize[bs]? = some bs)
    (hmultiple : d.cudagraphMode.separateRoutine = true →
      ∀ bs ∈ sizes, bs % d.config.uniformDecodeQueryLen = 0)
    (h : d.addDecodeKeys q sizes = .ok d') :
    KeysAdded d d' ∧ (∀ desc, desc ∈ d'.piecewiseKeys ↔ desc ∈ d.piecewiseKeys) ∧
      ∀ desc, desc ∈ d'.fullKeys ↔ desc ∈ d.fullKeys ∨
        d.cudagraphMode.separateRoutine = true ∧ ∃ bs ∈ d.decodeCaptureSizes q sizes,
          ∃ k ∈ d.getLoraCases, desc = descriptor d.config bs true (0 < k) k := by
  unfold addDecodeKeys at h
  split at h
  · rename_i hdecode
    have hfullMode : d.cudagraphMode.hasMode .full = true := by
      rw [CUDAGraphMode.hasMode, hdecode.1]
      exact decide_eq_true (.inl rfl)
    have hstep : ∀ d₁ d₂ key, key ∈ (d.decodeCaptureSizes q sizes).product d.getLoraCases →
        KeysAdded d d₁ → d₁.addDecodeKey key.1 key.2 = .ok d₂ → d₂ = { d₁ with
          piecewiseKeys := [] ++ d₁.piecewiseKeys
          fullKeys := [descriptor d.config key.1 true (0 < key.2) key.2] ++ d₁.fullKeys } := by
      rintro d₁ d₂ ⟨bs, k⟩ hkey hadded hadd
      have hbs : bs ∈ sizes := (List.mem_filter.mp (List.pair_mem_product.mp hkey).1).1
      rw [addDecodeKey, hadded.createPaddedBatchDescriptor,
        createPaddedBatchDescriptor_eq (hpadded bs hbs) (fun _ _ => hmultiple hdecode.2 bs hbs),
        hfullMode] at hadd
      obtain ⟨desc, hdesc, hadd⟩ := bind_ok_iff.mp hadd
      obtain rfl := Except.ok.inj hdesc
      obtain rfl := Except.ok.inj hadd
      rfl
    obtain ⟨hadded, hpiecewise, hfull⟩ := foldlM_keys hstep h
    refine ⟨hadded, fun desc => by simp [hpiecewise], fun desc => ?_⟩
    rw [hfull, ← exists_mem_product]
    simp [hdecode.2]
  · rename_i hdecode
    obtain rfl := Except.ok.inj h
    refine ⟨.refl d, fun desc => Iff.rfl, fun desc => ?_⟩
    have hseparate : d.cudagraphMode.separateRoutine = false := by
      cases hmode : d.cudagraphMode <;> simp_all [CUDAGraphMode.decodeMode,
        CUDAGraphMode.separateRoutine]
    simp [hseparate]

private theorem getLoraCases_congr {c : DispatchConfig} {d : CudagraphDispatcher}
    (h : d.config = c) : d.getLoraCases = (new c).getLoraCases := by
  subst h
  rfl

private theorem decodeCaptureSizes_congr {c : DispatchConfig} {d : CudagraphDispatcher}
    (h : d.config = c) (q : Nat) (sizes : List Nat) :
    d.decodeCaptureSizes q sizes = (new c).decodeCaptureSizes q sizes := by
  subst h
  rfl

/-- A dispatcher whose keys are initialized, for some mode other than none. -/
structure Ready (sizes : List Nat) (d : CudagraphDispatcher) : Prop where
  enabled : d.cudagraphMode ≠ .none
  keysInitialized : d.keysInitialized = true
  captureSizes : CaptureSizes d.config sizes
  multiple : d.cudagraphMode.separateRoutine = true →
    ∀ bs ∈ sizes, bs % d.config.uniformDecodeQueryLen = 0
  paddedSize : ∀ bs ∈ sizes, d.bsToPaddedGraphSize[bs]? = some bs
  padded : ∀ n, 0 < n → n ≤ d.config.maxCudagraphCaptureSize → ∃ p,
    d.bsToPaddedGraphSize[n]? = some p ∧ IsLeast {s | s ∈ sizes ∧ n ≤ s} p
  piecewiseKeys : ∀ desc, desc ∈ d.piecewiseKeys ↔ d.cudagraphMode.mixedMode = .piecewise ∧
    ∃ bs ∈ sizes, ∃ k ∈ d.getLoraCases, desc = relaxedDescriptor bs (0 < k) k
  fullKeys : ∀ desc, desc ∈ d.fullKeys ↔
    (d.cudagraphMode.mixedMode = .full ∧ ∃ bs ∈ sizes, ∃ k ∈ d.getLoraCases,
      desc = descriptor d.config bs false (0 < k) k) ∨
    d.cudagraphMode.separateRoutine = true ∧
      ∃ bs ∈ d.decodeCaptureSizes d.config.uniformDecodeQueryLen sizes,
        ∃ k ∈ d.getLoraCases, desc = descriptor d.config bs true (0 < k) k

/-- Initialization captures the products of the sizes and the LoRA cases. -/
theorem initializeCudagraphKeys_ready {c : DispatchConfig} {mode : CUDAGraphMode}
    {sizes : List Nat} {d : CudagraphDispatcher} (hsizes : CaptureSizes c sizes)
    (hmultiple : mode.separateRoutine = true → ∀ bs ∈ sizes, bs % c.uniformDecodeQueryLen = 0)
    (henabled : mode ≠ .none)
    (h : (new c).initializeCudagraphKeys mode c.uniformDecodeQueryLen = .ok d) :
    d.config = c ∧ Ready sizes d := by
  simp only [initializeCudagraphKeys, if_neg henabled, bind_ok_iff, pure_ok_iff] at h
  obtain ⟨d₁, h₁, d₂, h₂, d₃, h₃, rfl⟩ := h
  obtain ⟨hd₁, hpaddedSize, hpadded⟩ := computeBsToPaddedGraphSize_eq_ok
    (d := { new c with cudagraphMode := mode }) hsizes h₁
  have hconfig₁ : d₁.config = c := by rw [hd₁]; rfl
  have hmode₁ : d₁.cudagraphMode = mode := by rw [hd₁]
  have hkeys₁ : d₁.piecewiseKeys = [] ∧ d₁.fullKeys = [] := by rw [hd₁]; exact ⟨rfl, rfl⟩
  have hcaptured : d₁.config.cudagraphCaptureSizes.getD [] = sizes := by
    rw [hconfig₁, hsizes.configured, Option.getD_some]
  rw [hcaptured] at h₂ h₃
  obtain ⟨hadded₂, hpiecewise₂, hfull₂⟩ := addMixedKeys_eq_ok
    (d := { d₁ with capturedLoraCounts := d₁.getLoraCases.filter (· ≠ 0) }) hpaddedSize h₂
  have hcases := getLoraCases_congr
    (d := { d₁ with capturedLoraCounts := d₁.getLoraCases.filter (· ≠ 0) }) hconfig₁
  have hconfig₂ : d₂.config = c := by rw [hadded₂, ← hconfig₁]
  have hmode₂ : d₂.cudagraphMode = mode := by rw [hadded₂, ← hmode₁]
  have htable₂ : d₂.bsToPaddedGraphSize = d₁.bsToPaddedGraphSize := by rw [hadded₂]
  obtain ⟨hadded₃, hpiecewise₃, hfull₃⟩ := addDecodeKeys_eq_ok
    (by rwa [htable₂]) (by rwa [hmode₂, hconfig₂]) h₃
  have hconfig₃ : d₃.config = c := by rw [hadded₃, ← hconfig₂]
  have hmode₃ : d₃.cudagraphMode = mode := by rw [hadded₃, ← hmode₂]
  have htable₃ : d₃.bsToPaddedGraphSize = d₁.bsToPaddedGraphSize := by rw [hadded₃, ← htable₂]
  have hcases₃ := getLoraCases_congr (d := { d₃ with keysInitialized := true }) hconfig₃
  have hdecode₃ := decodeCaptureSizes_congr (d := { d₃ with keysInitialized := true }) hconfig₃
  rw [← htable₃] at hpaddedSize hpadded
  refine ⟨hconfig₃, ?_⟩
  constructor
  · rwa [hmode₃]
  · rfl
  · rwa [hconfig₃]
  · rwa [hmode₃, hconfig₃]
  · exact hpaddedSize
  · rwa [hconfig₃]
  · intro desc
    refine (hpiecewise₃ desc).trans ((hpiecewise₂ desc).trans ?_)
    rw [hcases, hcases₃, hmode₁, hmode₃, hkeys₁.1]
    simp only [List.not_mem_nil, false_or]
  · intro desc
    refine (hfull₃ desc).trans ((or_congr_left (hfull₂ desc)).trans ?_)
    rw [hcases, hcases₃, hdecode₃, hmode₁, hmode₂, hmode₃, hkeys₁.2, hconfig₁, hconfig₂, hconfig₃,
      getLoraCases_congr hconfig₂, decodeCaptureSizes_congr hconfig₂]
    simp only [List.not_mem_nil, false_or]

/-! ## Dispatch -/

/-- What a batch must have to run in a mode at a size: for each mode, a condition on the batch and
one on the size. -/
def Runs (d : CudagraphDispatcher) (sizes : List Nat) (uniform hasLora : Bool) (k : Nat) :
    RuntimeMode → Nat → Prop
  | .none, _ => True
  | .piecewise, p => (d.cudagraphMode.mixedMode = .piecewise ∧ k ∈ d.getLoraCases ∧
      hasLora = decide (0 < k)) ∧ p ∈ sizes
  | .full, p => (k ∈ d.getLoraCases ∧ hasLora = decide (0 < k)) ∧
      (d.cudagraphMode.mixedMode = .full ∧ p ∈ sizes ∨
        d.cudagraphMode.separateRoutine = true ∧ uniform = true ∧
          p ∈ d.decodeCaptureSizes d.config.uniformDecodeQueryLen sizes)

section Dispatch

variable {d : CudagraphDispatcher} {sizes : List Nat} {uniform hasLora : Bool} {k n p : Nat}

/-- The uniformity in the key of a full graph. -/
theorem uniform_key (d : CudagraphDispatcher) (uniform : Bool) :
    ((uniform && d.cudagraphMode.separateRoutine) && d.cudagraphMode.hasMode .full) =
      (uniform && d.cudagraphMode.separateRoutine) := by
  cases uniform <;> cases d.cudagraphMode <;> rfl

/-- The piecewise key of a padded batch is captured exactly when it runs piecewise. -/
theorem Ready.relaxedDescriptor_mem (hd : Ready sizes d) :
    relaxedDescriptor p hasLora k ∈ d.piecewiseKeys ↔
      Runs d sizes uniform hasLora k .piecewise p := by
  rw [hd.piecewiseKeys]
  constructor
  · rintro ⟨hmode, bs, hbs, k', hk', hdesc⟩
    obtain ⟨rfl, rfl, rfl⟩ : p = bs ∧ hasLora = decide (0 < k') ∧ k = k' := by
      simpa [relaxedDescriptor] using hdesc
    exact ⟨⟨hmode, hk', rfl⟩, hbs⟩
  · rintro ⟨⟨hmode, hk, rfl⟩, hp⟩
    exact ⟨hmode, p, hp, k, hk, rfl⟩

/-- The full key of a padded batch is captured exactly when it runs in a full graph. -/
theorem Ready.descriptor_mem (hd : Ready sizes d) :
    descriptor d.config p (uniform && d.cudagraphMode.separateRoutine) hasLora k ∈ d.fullKeys ↔
      Runs d sizes uniform hasLora k .full p := by
  have hseparate : d.cudagraphMode.mixedMode = .full →
      d.cudagraphMode.separateRoutine = false := by
    cases d.cudagraphMode <;> simp [CUDAGraphMode.mixedMode, CUDAGraphMode.separateRoutine]
  rw [hd.fullKeys]
  constructor
  · rintro (⟨hmode, bs, hbs, k', hk', hdesc⟩ | ⟨hmode, bs, hbs, k', hk', hdesc⟩)
    · obtain ⟨rfl, -, -, rfl, rfl⟩ := BatchDescriptor.mk.inj hdesc
      exact ⟨⟨hk', rfl⟩, .inl ⟨hmode, hbs⟩⟩
    · obtain ⟨rfl, -, huniform, rfl, rfl⟩ := BatchDescriptor.mk.inj hdesc
      exact ⟨⟨hk', rfl⟩, .inr ⟨hmode, (Bool.and_eq_true_iff.mp huniform).1, hbs⟩⟩
  · rintro ⟨⟨hk, rfl⟩, ⟨hmode, hp⟩ | ⟨hmode, rfl, hp⟩⟩
    · rw [hseparate hmode, Bool.and_false]
      exact .inl ⟨hmode, p, hp, k, hk, rfl⟩
    · exact .inr ⟨hmode, p, hp, k, hk, by rw [hmode, Bool.and_self]⟩

/-- A size at which a batch runs in some graph is a capture size. -/
theorem Runs.mem_sizes {m : RuntimeMode} (h : Runs d sizes uniform hasLora k m p)
    (hm : m ≠ .none) : p ∈ sizes := by
  cases m with
  | none => exact absurd rfl hm
  | piecewise => exact h.2
  | full =>
    rcases h.2 with ⟨-, hp⟩ | ⟨-, -, hp⟩
    · exact hp
    · exact (List.mem_filter.mp hp).1

/-- Creating the descriptor of a batch that fits. -/
theorem Ready.createPaddedBatchDescriptor (hd : Ready sizes d) (hp : p ∈ sizes)
    (hn : d.bsToPaddedGraphSize[n]? = some p) :
    d.createPaddedBatchDescriptor n (uniform && d.cudagraphMode.separateRoutine) hasLora k =
      .ok (descriptor d.config p (uniform && d.cudagraphMode.separateRoutine) hasLora k) := by
  rw [createPaddedBatchDescriptor_eq hn, uniform_key]
  intro huniform _
  exact hd.multiple (Bool.and_eq_true_iff.mp huniform).2 p hp

/-- The dispatch of a batch that fits takes the first mode that is allowed and captured. -/
theorem Ready.dispatch_eq (hd : Ready sizes d) {numActiveLoras : Nat} (hp : p ∈ sizes)
    (hn : d.bsToPaddedGraphSize[n]? = some p) (hmax : n ≤ d.config.maxCudagraphCaptureSize)
    (hlora : d.effectiveNumActiveLoras hasLora numActiveLoras = .ok k)
    {valid invalid : List RuntimeMode} {m : RuntimeMode} (hm : m ∈ allowedModes valid invalid)
    (hne : m ≠ .none) :
    d.dispatch n uniform hasLora numActiveLoras valid invalid =
      if .full ∈ allowedModes valid invalid ∧
          descriptor d.config p (uniform && d.cudagraphMode.separateRoutine) hasLora k ∈
            d.fullKeys then
        .ok (.full, descriptor d.config p (uniform && d.cudagraphMode.separateRoutine) hasLora k)
      else if .piecewise ∈ allowedModes valid invalid ∧
          relaxedDescriptor p hasLora k ∈ d.piecewiseKeys then
        .ok (.piecewise, relaxedDescriptor p hasLora k)
      else if .none ∈ allowedModes valid invalid then .ok (.none, { numTokens := n })
      else .error .noMatchingCudagraph := by
  have hallowed : allowedModes valid invalid ≠ [] := List.ne_nil_of_mem hm
  have hgraph : ¬ (¬ d.keysInitialized ∨ d.cudagraphMode = .none ∨
      d.config.maxCudagraphCaptureSize < n ∨ ∀ m ∈ allowedModes valid invalid, m = .none) := by
    rintro (h | h | h | h)
    · exact h hd.keysInitialized
    · exact hd.enabled h
    · omega
    · exact hne (h m hm)
  rw [dispatch, if_neg hallowed, if_neg hgraph, hlora]
  simp only [bind, Except.bind, hd.createPaddedBatchDescriptor hp hn]
  rfl

/-- Without graphs, or where only none is allowed, a batch runs as it is. -/
theorem dispatch_none {d : CudagraphDispatcher} {valid invalid : List RuntimeMode}
    (hm : .none ∈ allowedModes valid invalid)
    (h : d.cudagraphMode = .none ∨ d.config.maxCudagraphCaptureSize < n ∨
      ∀ m ∈ allowedModes valid invalid, m = .none) (numActiveLoras : Nat) :
    d.dispatch n uniform hasLora numActiveLoras valid invalid =
      .ok (.none, { numTokens := n }) := by
  rw [dispatch, if_neg (List.ne_nil_of_mem hm), if_pos (Or.inr h)]

/-- A batch with active adapters has an entry in the keys, if adapters are configured. -/
theorem effectiveNumActiveLoras_ok (d : CudagraphDispatcher) {numActiveLoras : Nat}
    (h : hasLora = true → 0 < numActiveLoras → d.config.loraConfig ≠ none) :
    ∃ k, d.effectiveNumActiveLoras hasLora numActiveLoras = .ok k := by
  unfold effectiveNumActiveLoras
  split
  · rename_i hactive
    split
    · exact ⟨_, rfl⟩
    · cases hlora : d.config.loraConfig with
      | none => exact absurd hlora (h hactive.1 hactive.2)
      | some lora => exact ⟨_, rfl⟩
  · exact ⟨_, rfl⟩

/-- A dispatcher as a runner has it: without graphs, or with its keys initialized. -/
def Started (sizes : List Nat) (d : CudagraphDispatcher) : Prop :=
  d.cudagraphMode = .none ∨ Ready sizes d

/-- Where none is allowed, a batch is dispatched to an allowed mode that it runs in, with at least
its own tokens. -/
theorem Started.dispatch_local (hd : Started sizes d) {numActiveLoras : Nat} (hn : 0 < n)
    (hlora : d.effectiveNumActiveLoras hasLora numActiveLoras = .ok k)
    {valid invalid : List RuntimeMode} (hnone : .none ∈ allowedModes valid invalid) :
    ∃ m desc, d.dispatch n uniform hasLora numActiveLoras valid invalid = .ok (m, desc) ∧
      m ∈ allowedModes valid invalid ∧ n ≤ desc.numTokens ∧
      Runs d sizes uniform hasLora k m desc.numTokens := by
  by_cases hoff : d.cudagraphMode = .none ∨ d.config.maxCudagraphCaptureSize < n ∨
      ∀ m ∈ allowedModes valid invalid, m = .none
  · exact ⟨_, _, dispatch_none hnone hoff numActiveLoras, hnone, le_rfl, trivial⟩
  · obtain ⟨henabled, hmax, hmodes⟩ := not_or.mp hoff |>.imp_right not_or.mp
    have hready : Ready sizes d := hd.resolve_left henabled
    obtain ⟨m, hm, hne⟩ : ∃ m ∈ allowedModes valid invalid, m ≠ .none := by
      simpa using hmodes
    obtain ⟨p, hp, ⟨hpsizes, hle⟩, -⟩ := hready.padded n hn (Nat.le_of_not_lt hmax)
    rw [hready.dispatch_eq hpsizes hp (Nat.le_of_not_lt hmax) hlora hm hne]
    by_cases hfull : .full ∈ allowedModes valid invalid ∧
        descriptor d.config p (uniform && d.cudagraphMode.separateRoutine) hasLora k ∈ d.fullKeys
    · rw [if_pos hfull]
      exact ⟨_, _, rfl, hfull.1, hle, hready.descriptor_mem.mp hfull.2⟩
    · rw [if_neg hfull]
      by_cases hpiecewise : .piecewise ∈ allowedModes valid invalid ∧
          relaxedDescriptor p hasLora k ∈ d.piecewiseKeys
      · rw [if_pos hpiecewise]
        exact ⟨_, _, rfl, hpiecewise.1, hle, hready.relaxedDescriptor_mem.mp hpiecewise.2⟩
      · rw [if_neg hpiecewise, if_pos hnone]
        exact ⟨_, _, rfl, hnone, le_rfl, trivial⟩

/-- A batch is dispatched to the one mode that is allowed, at its size, if it runs so. -/
theorem Started.dispatch_synced (hd : Started sizes d) {numActiveLoras : Nat}
    (hlora : d.effectiveNumActiveLoras hasLora numActiveLoras = .ok k) {m : RuntimeMode}
    (hruns : Runs d sizes uniform hasLora k m p) :
    ∃ desc, d.dispatch p uniform hasLora numActiveLoras [m] [] = .ok (m, desc) ∧
      desc.numTokens = p := by
  have hallowed : allowedModes [m] [] = [m] := by
    cases m <;> rfl
  by_cases hne : m = .none
  · subst hne
    refine ⟨{ numTokens := p }, dispatch_none ?_ (.inr (.inr ?_)) numActiveLoras, rfl⟩
    · rw [hallowed]
      exact List.mem_singleton_self _
    · rw [hallowed]
      exact fun m hm => List.mem_singleton.mp hm
  · have hpsizes : p ∈ sizes := hruns.mem_sizes hne
    have hready : Ready sizes d := by
      refine hd.resolve_left fun hoff => ?_
      cases m with
      | none => exact hne rfl
      | piecewise => exact absurd hruns.1.1 (by rw [hoff]; decide)
      | full =>
        rcases hruns.2 with ⟨h, -⟩ | ⟨h, -⟩
        · exact absurd h (by rw [hoff]; decide)
        · exact absurd h (by rw [hoff]; decide)
    have hm : m ∈ allowedModes [m] [] := by
      rw [hallowed]
      exact List.mem_singleton_self m
    rw [hready.dispatch_eq hpsizes (hready.paddedSize p hpsizes)
      (hready.captureSizes.le_max hpsizes) hlora hm hne, hallowed]
    cases m with
    | none => exact absurd rfl hne
    | piecewise =>
      rw [if_neg (by simp),
        if_pos ⟨List.mem_singleton_self _, hready.relaxedDescriptor_mem.mpr hruns⟩]
      exact ⟨_, rfl, rfl⟩
    | full =>
      rw [if_pos ⟨List.mem_singleton_self _, hready.descriptor_mem.mpr hruns⟩]
      exact ⟨_, rfl, rfl⟩

end Dispatch

end CudagraphDispatcher

end Vllm.Worker
