import Vllm.Worker.GdnMetadata

/-!
# Initial states of gated delta net layers

The prefill kernel starts every sequence from the pool row of its state, if it has computed
tokens, and from the zero state otherwise. The plain path gathers all rows and clears those
of new sequences; the layer skips the gather, or the clearing, where the flags of the
metadata say that it may.
-/

namespace Vllm.Worker

open Checked Select

variable {S : Type}

/-! ## The layer -/

/-- The initial state in `_forward_core`, `none` where the kernel is called without one. -/
def initialState (supportsNoneInitialState : Bool) (ssmState : Int → S) (zero : S)
    (md : GDNAttentionMetadata) : Except GDNError (Option (List S)) :=
  if md.hasInitialStateAny = some false ∧ supportsNoneInitialState then .ok none
  else match md.nonSpecStateIndicesTensor with
    | none => .error .missingMetadata
    | some indices =>
      if md.hasInitialStateAny = some false then .ok (some (List.replicate indices.length zero))
      else if md.hasInitialStateAll = some true then .ok (some (indices.map ssmState))
      else match md.hasInitialState with
        | none => .error .missingMetadata
        | some hasInitialState =>
          .ok (some (fill (complement hasInitialState) (indices.map ssmState) zero))

/-- The initial state before the fast paths: gather all rows and clear the new ones. -/
def plainInitialState (ssmState : Int → S) (zero : S) (md : GDNAttentionMetadata) :
    Except GDNError (List S) :=
  match md.nonSpecStateIndicesTensor, md.hasInitialState with
  | some indices, some hasInitialState =>
    .ok (fill (complement hasInitialState) (indices.map ssmState) zero)
  | _, _ => .error .missingMetadata

/-- The states that the kernel starts from. Without an initial state it starts every sequence
from zero. -/
def effectiveState (numSequences : Nat) (zero : S) : Option (List S) → List S
  | none => List.replicate numSequences zero
  | some states => states

/-- The number of sequences that the kernel is called for. -/
def GDNAttentionMetadata.numSequences (md : GDNAttentionMetadata) : Nat :=
  (md.nonSpecQueryStartLoc.getD []).length - 1

/-- The sequences of the batch arguments have one entry for each request. -/
structure WellShaped (m : CommonAttentionMetadata) (numDecodeDraftTokensCpu : Option (List Int)) :
    Prop where
  queryStartLoc : m.queryStartLoc.length = m.numReqs + 1
  seqLens : m.seqLens.length = m.numReqs
  blockTable : m.blockTableTensor.length = m.numReqs
  computedCpu : ∀ l, m.numComputedTokensCpu = some l → l.length = m.numReqs
  computedCache : ∀ l, m.numComputedTokensCache = some l → l.length = m.numReqs
  draftTokens : ∀ l, numDecodeDraftTokensCpu = some l → l.length = m.numReqs

/-! ## Lengths -/

section Lengths

variable {c : GDNConfig} {m : CommonAttentionMetadata} {drafts accepted : Option (List Int)}

theorem WellShaped.length_queryLens (h : WellShaped m drafts) :
    m.queryLens.length = m.numReqs := by
  rw [CommonAttentionMetadata.queryLens, List.length_zipWith, List.length_tail, h.queryStartLoc]
  omega

theorem WellShaped.length_computed (h : WellShaped m drafts) :
    m.computeNumComputedTokens.length = m.numReqs := by
  unfold CommonAttentionMetadata.computeNumComputedTokens
  cases hcache : m.numComputedTokensCache with
  | none => simp [h.seqLens, h.length_queryLens]
  | some l => exact h.computedCache l hcache

/-- The first column lists the first entry of every row. -/
theorem firstColumn_eq_ok {table : List (List Int)} {indices : List Int}
    (h : firstColumn table = .ok indices) : indices = table.map fun row => row.headD 0 := by
  unfold firstColumn at h
  induction table generalizing indices with
  | nil =>
    obtain rfl := pure_ok_iff.mp h
    rfl
  | cons row table ih =>
    simp only [List.mapM_cons, bind_ok_iff, pure_ok_iff] at h
    obtain ⟨idx, hidx, rest, hrest, rfl⟩ := h
    rw [List.map_cons, ← ih hrest]
    cases row with
    | nil => cases hidx
    | cons a row =>
      obtain rfl := Except.ok.inj hidx
      rfl

/-- The gathered table has a row for each request. -/
theorem WellShaped.length_table (h : WellShaped m drafts) {table : List (List Int)}
    (htable : mambaGetBlockTableTensor c m = .ok table) : table.length = m.numReqs := by
  unfold mambaGetBlockTableTensor at htable
  split at htable
  · have hlen {α β : Type} (f : α → Except GDNError β) (l : List α) (l' : List β)
        (hl : l.mapM f = .ok l') : l'.length = l.length := by
      induction l generalizing l' with
      | nil =>
        obtain rfl := pure_ok_iff.mp hl
        rfl
      | cons a l ih =>
        simp only [List.mapM_cons, bind_ok_iff, pure_ok_iff] at hl
        obtain ⟨b, -, rest, hrest, rfl⟩ := hl
        rw [List.length_cons, List.length_cons, ih rest hrest]
    rw [hlen _ _ _ htable, List.length_zip, h.blockTable, h.seqLens, Nat.min_self]
  · obtain rfl := Except.ok.inj htable
    exact h.blockTable

/-- Sequences of one length keep one length without the speculative ones. -/
theorem length_nonSpec_congr {α β : Type} (masks : Option (List Bool)) {l : List α} {l' : List β}
    (h : l.length = l'.length) : (nonSpec masks l).length = (nonSpec masks l').length := by
  cases masks with
  | none => exact h
  | some masks => exact length_select_congr _ h

private theorem nonSpec_map {α β : Type} (masks : Option (List Bool)) (l : List α) (f : α → β) :
    nonSpec masks (l.map f) = (nonSpec masks l).map f := by
  cases masks with
  | none => rfl
  | some masks => exact select_map _ l f

private theorem nonSpec_zip {α β : Type} (masks : Option (List Bool)) (l : List α) (l' : List β) :
    nonSpec masks (l.zip l') = (nonSpec masks l).zip (nonSpec masks l') := by
  cases masks with
  | none => rfl
  | some masks => exact select_zip _ l l'

end Lengths

/-! ## What the builder lists for prefills -/

section Build

variable {c : GDNConfig} {m : CommonAttentionMetadata} {drafts accepted : Option (List Int)}
  {md : GDNAttentionMetadata}

variable {table : List (List Int)}

/-- With a prefill in the batch, the layout lists the states and the query starts of the
sequences that are not speculative. -/
theorem WellShaped.layoutOf_eq_ok (hm : WellShaped m drafts) {masks : Option (List Bool)}
    {layout : GDNLayout} (h : layoutOf c m table accepted masks = .ok layout)
    (hp : 0 < layout.split.numPrefills) :
    layout.nonSpecStateIndicesTensor =
        some ((nonSpec masks table).map fun row => row.headD 0) ∧
      ∃ loc, layout.nonSpecQueryStartLoc = some loc ∧
        loc.length = (nonSpec masks m.queryLens).length + 1 := by
  cases masks with
  | none =>
    simp only [layoutOf, plainLayout, bind_ok_iff, pure_ok_iff] at h
    obtain ⟨split, -, indices, hindices, rfl⟩ := h
    refine ⟨by rw [firstColumn_eq_ok hindices]; rfl, _, rfl, ?_⟩
    rw [nonSpec, hm.length_queryLens, hm.queryStartLoc]
  | some masks =>
    simp only [layoutOf, specLayout] at h
    split at h
    · rename_i hnone
      simp only [bind_ok_iff, pure_ok_iff] at h
      obtain ⟨_, -, rfl⟩ := h
      exact absurd hnone.1 (Nat.pos_iff_ne_zero.mp hp)
    · simp only [bind_ok_iff, pure_ok_iff] at h
      obtain ⟨indices, hindices, _, -, rfl⟩ := h
      refine ⟨by rw [firstColumn_eq_ok hindices]; rfl, _, rfl, ?_⟩
      rw [startLocs, List.length_scanl]
      rfl

/-- What the builder says of initial states when the batch has a prefill. -/
theorem build_eq_ok (h : build c m accepted drafts = .ok md) (hp : 0 < md.numPrefills) :
    ∃ table layout, mambaGetBlockTableTensor c m = .ok table ∧
      layoutOf c m table accepted (specSequenceMasks c drafts) = .ok layout ∧
      0 < layout.split.numPrefills ∧
      md.specSequenceMasks = specSequenceMasks c drafts ∧
      md.nonSpecStateIndicesTensor = layout.nonSpecStateIndicesTensor ∧
      md.nonSpecQueryStartLoc = layout.nonSpecQueryStartLoc ∧
      md.hasInitialState = some (nonSpec (specSequenceMasks c drafts)
        (m.computeNumComputedTokens.map fun n => decide (0 < n))) ∧
      md.hasInitialStateAny = (m.numComputedTokensCpu.map
        (nonSpec (specSequenceMasks c drafts))).map (·.any (0 < ·)) ∧
      md.hasInitialStateAll = (m.numComputedTokensCpu.map
        (nonSpec (specSequenceMasks c drafts))).map (·.all (0 < ·)) := by
  simp only [build, bind_ok_iff, pure_ok_iff] at h
  obtain ⟨table, htable, layout, hlayout, _, -, rfl⟩ := h
  have hp' : 0 < layout.split.numPrefills := hp
  have hkeep (x : Option (List Int)) : x.filter (fun _ => decide (0 < layout.split.numPrefills)) =
      x := by
    cases x <;> simp [hp']
  refine ⟨table, layout, htable, hlayout, hp', rfl, rfl, rfl, ?_, ?_, ?_⟩
  · simp [hp']
  · simp only [hkeep]
  · simp only [hkeep]

/-! ## The fast paths -/

/-- The states that the prefill kernel is to start from: the pool row of a sequence with computed
tokens, and zero for a new one. -/
def wantedStates (masks : Option (List Bool)) (table : List (List Int)) (computed : List Int)
    (ssmState : Int → S) (zero : S) : List S :=
  (nonSpec masks (table.zip computed)).map fun e =>
    if 0 < e.2 then ssmState (e.1.headD 0) else zero

/-- The two copies of the computed token counts agree on which sequences are new. -/
def SignsAgree (m : CommonAttentionMetadata) (masks : Option (List Bool)) : Prop :=
  ∀ cpu, m.numComputedTokensCpu = some cpu →
    ∀ e ∈ nonSpec masks (cpu.zip m.computeNumComputedTokens), 0 < e.1 ↔ 0 < e.2

/-- Where the copies agree, a property of the host's counts that only depends on the sign holds
of the device's counts. -/
theorem SignsAgree.forall_computed {masks : Option (List Bool)} (h : SignsAgree m masks)
    (hm : WellShaped m drafts) {cpu : List Int} (hcpu : m.numComputedTokensCpu = some cpu)
    {P : Prop → Prop} (hP : ∀ n ∈ nonSpec masks cpu, P (0 < n)) :
    ∀ n ∈ nonSpec masks m.computeNumComputedTokens, P (0 < n) := by
  have hlen : (nonSpec masks m.computeNumComputedTokens).length = (nonSpec masks cpu).length :=
    length_nonSpec_congr masks (hm.length_computed.trans (hm.computedCpu cpu hcpu).symm)
  intro n hn
  rw [← List.map_snd_zip hlen.le] at hn
  obtain ⟨e, he, rfl⟩ := List.mem_map.mp hn
  rw [← propext (h cpu hcpu e (by rwa [nonSpec_zip]))]
  exact hP e.1 (List.of_mem_zip he).1

/-- Gathering and clearing gives the wanted states. -/
theorem fill_eq_wantedStates (masks : Option (List Bool)) (table : List (List Int))
    (computed : List Int) (ssmState : Int → S) (zero : S) :
    fill (complement (nonSpec masks (computed.map fun n => decide (0 < n))))
        (((nonSpec masks table).map fun row => row.headD 0).map ssmState) zero =
      wantedStates masks table computed ssmState zero := by
  rw [nonSpec_map, List.map_map, fill_map, wantedStates, nonSpec_zip]
  simp only [Function.comp_apply, decide_eq_true_eq]

/-- Where all sequences are new, every wanted state is zero. -/
theorem wantedStates_of_new {masks : Option (List Bool)} {computed : List Int}
    (hlen : (nonSpec masks table).length = (nonSpec masks computed).length)
    (h : ∀ n ∈ nonSpec masks computed, ¬ 0 < n) (ssmState : Int → S) (zero : S) :
    wantedStates masks table computed ssmState zero =
      List.replicate (nonSpec masks table).length zero := by
  rw [List.eq_replicate_iff, wantedStates, nonSpec_zip]
  refine ⟨by simp [hlen], fun state hstate => ?_⟩
  obtain ⟨e, he, rfl⟩ := List.mem_map.mp hstate
  rw [if_neg (h e.2 (List.of_mem_zip he).2)]

/-- Where no sequence is new, every wanted state is a pool row. -/
theorem wantedStates_of_old {masks : Option (List Bool)} {computed : List Int}
    (hlen : (nonSpec masks table).length = (nonSpec masks computed).length)
    (h : ∀ n ∈ nonSpec masks computed, 0 < n) (ssmState : Int → S) (zero : S) :
    wantedStates masks table computed ssmState zero =
      ((nonSpec masks table).map fun row => row.headD 0).map ssmState := by
  have hmap : wantedStates masks table computed ssmState zero =
      ((nonSpec masks table).zip (nonSpec masks computed)).map fun e => ssmState (e.1.headD 0) := by
    rw [wantedStates, nonSpec_zip]
    refine List.map_congr_left fun e he => ?_
    rw [if_pos (h e.2 (List.of_mem_zip he).2)]
  rw [hmap, List.map_map]
  conv_rhs => rw [← List.map_fst_zip hlen.le, List.map_map]
  rfl

/-- In a batch with a prefill, every branch gives the prefill kernel the wanted states, which are
those of the plain path. -/
theorem initialState_eq_wanted (hm : WellShaped m drafts)
    (hbuild : build c m accepted drafts = .ok md) (hp : 0 < md.numPrefills)
    (hagree : SignsAgree m md.specSequenceMasks) (supportsNoneInitialState : Bool)
    (ssmState : Int → S) (zero : S) : ∃ table state,
      mambaGetBlockTableTensor c m = .ok table ∧
      initialState supportsNoneInitialState ssmState zero md = .ok state ∧
      effectiveState md.numSequences zero state =
        wantedStates md.specSequenceMasks table m.computeNumComputedTokens ssmState zero ∧
      plainInitialState ssmState zero md = .ok (effectiveState md.numSequences zero state) := by
  obtain ⟨table, layout, htable, hlayout, hprefill, hmasks, hindices, hloc, hhas, hany, hall⟩ :=
    build_eq_ok hbuild hp
  obtain ⟨hrows, loc, hstart, hlength⟩ := hm.layoutOf_eq_ok hlayout hprefill
  rw [hmasks] at hagree ⊢
  generalize specSequenceMasks c drafts = masks at *
  rw [hrows] at hindices
  have hlen : (nonSpec masks table).length =
      (nonSpec masks m.computeNumComputedTokens).length :=
    length_nonSpec_congr masks ((hm.length_table htable).trans hm.length_computed.symm)
  have hsequences : md.numSequences = (nonSpec masks table).length := by
    rw [GDNAttentionMetadata.numSequences, hloc, hstart, Option.getD_some, hlength,
      Nat.add_sub_cancel]
    exact length_nonSpec_congr masks (hm.length_queryLens.trans (hm.length_table htable).symm)
  have hplain : plainInitialState ssmState zero md =
      .ok (wantedStates masks table m.computeNumComputedTokens ssmState zero) := by
    simp only [plainInitialState, hindices, hhas, fill_eq_wantedStates]
  rw [hplain]
  suffices hfast : ∃ state, initialState supportsNoneInitialState ssmState zero md = .ok state ∧
      effectiveState md.numSequences zero state =
        wantedStates masks table m.computeNumComputedTokens ssmState zero by
    obtain ⟨state, hstate, heffective⟩ := hfast
    exact ⟨table, state, htable, hstate, heffective, by rw [heffective]⟩
  by_cases hfalse : md.hasInitialStateAny = some false
  · -- no sequence has computed tokens, on either side
    rw [hfalse] at hany
    obtain ⟨flag, hflag, hnone⟩ := Option.map_eq_some_iff.mp hany.symm
    obtain ⟨cpu, hcpu, rfl⟩ := Option.map_eq_some_iff.mp hflag
    rw [List.any_eq_false] at hnone
    have hnew := hagree.forall_computed hm hcpu (P := Not) fun n hn => by simpa using hnone n hn
    have hzero := wantedStates_of_new hlen hnew ssmState zero
    cases supportsNoneInitialState with
    | true =>
      refine ⟨none, by simp only [initialState, hfalse, and_self, if_true], ?_⟩
      rw [effectiveState, hsequences, hzero]
    | false =>
      refine ⟨some (List.replicate (nonSpec masks table).length zero), ?_, hzero.symm⟩
      simp only [initialState, hfalse, hindices, Bool.false_eq_true, and_false, if_false, if_true,
        List.length_map]
  · by_cases htrue : md.hasInitialStateAll = some true
    · -- every sequence has computed tokens
      rw [htrue] at hall
      obtain ⟨flag, hflag, hyes⟩ := Option.map_eq_some_iff.mp hall.symm
      obtain ⟨cpu, hcpu, rfl⟩ := Option.map_eq_some_iff.mp hflag
      rw [List.all_eq_true] at hyes
      have hold := hagree.forall_computed hm hcpu (P := id) fun n hn => by simpa using hyes n hn
      have hall' := wantedStates_of_old hlen hold ssmState zero
      refine ⟨some (wantedStates masks table m.computeNumComputedTokens ssmState zero), ?_, rfl⟩
      rw [hall']
      simp only [initialState, hfalse, htrue, hindices, false_and, if_false, if_true]
    · -- the sequences are mixed, or the host does not know: gather and clear
      have hmixed := fill_eq_wantedStates masks table m.computeNumComputedTokens ssmState zero
      refine ⟨some (wantedStates masks table m.computeNumComputedTokens ssmState zero), ?_, rfl⟩
      rw [← hmixed]
      simp only [initialState, hfalse, htrue, hindices, hhas, false_and, if_false]

end Build

/-- Two prefills with a speculative sequence between them. The first prefill is new, the second
has four computed tokens. -/
def mixedBatch : CommonAttentionMetadata where
  queryStartLoc := [0, 3, 5, 8]
  seqLens := [3, 9, 7]
  numReqs := 3
  numActualTokens := 8
  maxQueryLen := 3
  blockTableTensor := [[1, 4], [2, 5], [3, 6]]
  numComputedTokensCpu := some [0, 7, 4]

theorem initialState_eq_wanted_mixedBatch : ∃ md table state,
    build ⟨1, 16, 0, false⟩ mixedBatch (some [1, 1, 1]) (some [-1, 1, -1]) = .ok md ∧
      0 < md.numPrefills ∧ md.specSequenceMasks = some [false, true, false] ∧
      mambaGetBlockTableTensor ⟨1, 16, 0, false⟩ mixedBatch = .ok table ∧
      initialState true (fun i => 10 * i) 0 md = .ok state ∧
      effectiveState md.numSequences 0 state =
        wantedStates md.specSequenceMasks table mixedBatch.computeNumComputedTokens
          (fun i => 10 * i) 0 ∧
      plainInitialState (fun i => 10 * i) 0 md = .ok (effectiveState md.numSequences 0 state) ∧
      effectiveState md.numSequences 0 state = [0, 30] := by
  have hm : WellShaped mixedBatch (some [-1, 1, -1]) := by
    constructor <;> simp [mixedBatch]
  have hmasks : ∃ md, build ⟨1, 16, 0, false⟩ mixedBatch (some [1, 1, 1]) (some [-1, 1, -1]) =
      .ok md ∧ 0 < md.numPrefills ∧ md.specSequenceMasks = some [false, true, false] ∧
      md.hasInitialStateAny = some true ∧ md.hasInitialStateAll = some false ∧
      md.hasInitialState = some [false, true] ∧ md.nonSpecStateIndicesTensor = some [1, 3] :=
    ⟨_, rfl, by decide, by decide, by decide, by decide, by decide, by decide⟩
  obtain ⟨md, hbuild, hp, hmask, hany, hall, hhas, hindices⟩ := hmasks
  have hagree : SignsAgree mixedBatch md.specSequenceMasks := by
    intro cpu hcpu e he
    obtain rfl := Option.some.inj hcpu
    rw [hmask] at he
    have hlist : nonSpec (some [false, true, false])
        (List.zip ([0, 7, 4] : List Int) mixedBatch.computeNumComputedTokens) =
          [(0, 0), (4, 4)] := by
      decide
    rw [hlist] at he
    rcases List.mem_cons.mp he with rfl | he
    · decide
    · obtain rfl := List.mem_singleton.mp he
      decide
  obtain ⟨table, state, htable, hstate, hwanted, hplain⟩ :=
    initialState_eq_wanted hm hbuild hp hagree true (fun i => 10 * i) 0
  refine ⟨md, table, state, hbuild, hp, hmask, htable, hstate, hwanted, hplain, ?_⟩
  have hgather : initialState true (fun i => 10 * i) 0 md = .ok (some [0, 30]) := by
    simp only [initialState, hany, hall, hhas, hindices]
    decide
  obtain rfl := Except.ok.inj (hgather.symm.trans hstate)
  rfl

end Vllm.Worker
