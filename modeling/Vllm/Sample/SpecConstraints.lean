import Vllm.Sample.LogitsConstraints
import Mathlib.Data.List.GetD
import Mathlib.Algebra.Ring.Int.Defs

/-!
# The constraints on rows of drafts

A row for a draft, or for the bonus token, is constrained by what its request asks for and by
the tokens in front of it. This is what the plain sampler does for the request alone, but for
the stop tokens of the bonus row: those are forced by the committed length.
-/

namespace Vllm.Sample

open Blocks

variable {F : Type}

/-! ## Forced tokens -/

@[simp] theorem LogitsRow.fill_fill (row : LogitsRow F) (m m' : TokenId → Bool) :
    (row.fill m).fill m' = row.fill fun t => m t || m' t := by
  simp [fill, Bool.or_assoc]

@[simp] theorem LogitsRow.fill_false (row : LogitsRow F) : row.fill (fun _ => false) = row := by
  simp [fill]

@[simp] theorem LogitsRow.fill_forced (row : LogitsRow F) (m : TokenId → Bool) (t : TokenId) :
    (row.fill m).forced t = (row.forced t || m t) := rfl

@[simp] theorem LogitsRow.fill_penalized (row : LogitsRow F) (m : TokenId → Bool) :
    (row.fill m).penalized = row.penalized := rfl

/-- Filling rows with one mask and another. -/
@[simp] theorem Logits.maskedFill_apply (logits : Logits F) (m : Nat → TokenId → Bool) (j : Nat) :
    logits.maskedFill m j = (logits j).fill (m j) := rfl

@[simp] theorem Logits.indexPut_apply (logits : Logits F) (slice : List (Nat × TokenId))
    (j : Nat) : logits.indexPut slice j = (logits j).fill fun t => (j, t) ∈ slice := rfl

/-! ## Bad words -/

private theorem applyBadWordsSingleBatch_eq (row : LogitsRow F) (badWords : List BadWord)
    (past : List TokenId) :
    applyBadWordsSingleBatch row badWords past = row.fill (badMask badWords past) := by
  unfold applyBadWordsSingleBatch
  induction badWords generalizing row with
  | nil => exact row.fill_false.symm
  | cons w badWords ih =>
    have hmask : badMask (w :: badWords) past = fun t =>
        (completes w past && decide (t = w.1.getLast w.2)) || badMask badWords past t := rfl
    rw [List.foldl_cons, ih, hmask, ← LogitsRow.fill_fill]
    congr 1
    by_cases hlong : w.1.length > past.length + 1
    · have hcompletes : completes w past = false := by simp [completes, hlong]
      simp [hlong, hcompletes]
    · rw [if_neg hlong]
      dsimp only
      split
      · next heq =>
        have hcompletes : completes w past = true := by
          rw [completes, Bool.and_eq_true, decide_eq_true_iff, decide_eq_true_iff]
          exact ⟨by omega, heq⟩
        simp [hcompletes, LogitsRow.force]
      · next hne =>
        have hcompletes : completes w past = false := by
          rw [completes, Bool.and_eq_false_iff, decide_eq_false_iff_not, decide_eq_false_iff_not]
          exact Or.inr hne
        simp [hcompletes]

/-! ## Entries by the index of the batch -/

variable {reqs : List (ConstrainedRequest F)}

private theorem mem_entriesOf {V : Type} {entry : ConstrainedRequest F → Option V} {k : Nat}
    {v : V} : (k, v) ∈ entriesOf reqs entry ↔ ∃ r, reqs[k]? = some r ∧ entry r = some v := by
  simp only [entriesOf, List.mem_filterMap, Option.map_eq_some_iff, Prod.mk.injEq]
  constructor
  · rintro ⟨⟨r, i⟩, hmem, v', hv, rfl, rfl⟩
    exact ⟨r, List.mem_zipIdx_iff_getElem?.mp hmem, hv⟩
  · rintro ⟨r, hr, hv⟩
    exact ⟨(r, k), List.mem_zipIdx_iff_getElem?.mpr hr, v, hv, rfl, rfl⟩

/-- An index has one entry. -/
theorem nodup_entriesOf {V : Type} (reqs : List (ConstrainedRequest F))
    (entry : ConstrainedRequest F → Option V) : ((entriesOf reqs entry).map Prod.fst).Nodup := by
  have hsub : ((entriesOf reqs entry).map Prod.fst).Sublist (reqs.zipIdx.map Prod.snd) := by
    unfold entriesOf
    generalize reqs.zipIdx = l
    induction l with
    | nil => exact List.Sublist.slnil
    | cons e l ih =>
      cases hv : entry e.1 with
      | none => simpa [List.filterMap_cons, hv] using ih.cons e.2
      | some v => simpa [List.filterMap_cons, hv] using ih.cons_cons e.2
  refine hsub.nodup ?_
  rw [List.zipIdx_map_snd]
  exact List.nodup_range'

private theorem lookup_eq_some_iff_mem {V : Type} {l : List (Nat × V)} (hl : (l.map Prod.fst).Nodup)
    {k : Nat} {v : V} : l.lookup k = some v ↔ (k, v) ∈ l := by
  induction l with
  | nil => simp
  | cons e l ih =>
    rw [List.map_cons, List.nodup_cons] at hl
    obtain ⟨k', v'⟩ := e
    by_cases hk : k = k'
    · subst hk
      have hnot : (k, v) ∉ l := fun h => hl.1 (List.mem_map.mpr ⟨_, h, rfl⟩)
      simp [hnot, eq_comm]
    · have hne : (k == k') = false := by simp [hk]
      rw [List.lookup_cons, hne]
      simp [ih hl.2, hk]

private theorem lookup_entriesOf {V : Type} (reqs : List (ConstrainedRequest F))
    (entry : ConstrainedRequest F → Option V) (k : Nat) :
    (entriesOf reqs entry).lookup k = reqs[k]?.bind entry := by
  ext v
  rw [lookup_eq_some_iff_mem (nodup_entriesOf reqs entry), mem_entriesOf,
    Option.bind_eq_some_iff]

/-! ## Loops over requests -/

/-- Updates at distinct indices change each of them once. -/
theorem foldl_update_apply {V : Type} {l : List (Nat × V)} (hl : (l.map Prod.fst).Nodup)
    (g : Nat × V → LogitsRow F → LogitsRow F) (logits : Logits F) (k : Nat) :
    l.foldl (fun logits e => Function.update logits e.1 (g e (logits e.1))) logits k =
      match l.lookup k with
      | some v => g (k, v) (logits k)
      | none => logits k := by
  induction l generalizing logits with
  | nil => rfl
  | cons e l ih =>
    rw [List.map_cons, List.nodup_cons] at hl
    obtain ⟨k', v'⟩ := e
    rw [List.foldl_cons, ih hl.2, List.lookup_cons]
    by_cases hk : k = k'
    · subst hk
      have hnone : l.lookup k = none := by
        cases hv : l.lookup k with
        | none => rfl
        | some v => exact absurd (List.mem_map_of_mem ((lookup_eq_some_iff_mem hl.2).mp hv)) hl.1
      simp [hnone]
    · have hne : (k == k') = false := by simp [hk]
      simp [hne, Function.update_of_ne hk]

/-- The entry of a request for its bad words. -/
def badWordsEntry (r : ConstrainedRequest F) : Option (List BadWord) :=
  if r.badWordsTokenIds = [] then none else some r.badWordsTokenIds

variable {r : ConstrainedRequest F}

/-- A request without an entry has no bad words. -/
theorem badWordsTokenIds_eq_nil (h : badWordsEntry r = none) : r.badWordsTokenIds = [] := by
  unfold badWordsEntry at h
  split at h
  · assumption
  · cases h

private theorem badWordsEntry_eq_some {l : List BadWord} (h : badWordsEntry r = some l) :
    l = r.badWordsTokenIds := by
  unfold badWordsEntry at h
  split at h
  · cases h
  · exact (Option.some.inj h).symm

/-- The bad words of a request mask the tokens that would complete them. -/
theorem applyBadWords_apply {k : Nat} (hk : reqs[k]? = some r) (logits : Logits F)
    (past : List (List TokenId)) :
    applyBadWords logits (entriesOf reqs badWordsEntry) past k =
      (logits k).fill (badMask r.badWordsTokenIds (past.getD k [])) := by
  unfold applyBadWords
  rw [foldl_update_apply (nodup_entriesOf reqs badWordsEntry)
    (fun e row => applyBadWordsSingleBatch row e.2 (past.getD e.1 [])), lookup_entriesOf, hk]
  cases hentry : badWordsEntry r with
  | none =>
    rw [badWordsTokenIds_eq_nil hentry]
    simp [hentry]
  | some l =>
    rw [← badWordsEntry_eq_some hentry]
    simp [hentry, applyBadWordsSingleBatch_eq]

/-- The inner loop treats the rows of its range, each once. -/
theorem applyBadWordsRows_apply (badWords : List BadWord) (past : List (List TokenId))
    {rows : List Nat} (hrows : rows.Nodup) (logits : Logits F) (j : Nat) :
    applyBadWordsRows logits badWords past rows j =
      if j ∈ rows then (logits j).fill (badMask badWords (past.getD j [])) else logits j := by
  unfold applyBadWordsRows
  induction rows generalizing logits with
  | nil => rfl
  | cons row rows ih =>
    rw [List.nodup_cons] at hrows
    rw [List.foldl_cons, ih hrows.2]
    by_cases hj : j = row
    · subst hj
      rw [if_neg hrows.1, if_pos List.mem_cons_self, Function.update_self,
        applyBadWordsSingleBatch_eq]
    · simp [hj]

section Loop

variable {bad : List (Nat × List BadWord)} {past : List (List TokenId)} {n i : Nat}
  {rest : List Nat} {start remaining : Nat} {logits : Logits F}

private theorem badWordsLoop_cons_none (h : bad.lookup i = none) :
    badWordsLoop bad past (n :: rest) i start remaining logits =
      badWordsLoop bad past rest (i + 1) (start + n) remaining logits := by
  simp only [badWordsLoop, h]

private theorem badWordsLoop_cons_some {badWords : List BadWord}
    (h : bad.lookup i = some badWords) :
    badWordsLoop bad past (n :: rest) i start remaining logits =
      if remaining - 1 = 0 then applyBadWordsRows logits badWords past (List.range' start n)
      else badWordsLoop bad past rest (i + 1) (start + n) (remaining - 1)
        (applyBadWordsRows logits badWords past (List.range' start n)) := by
  simp only [badWordsLoop, h]

end Loop

/-- The loop over the requests from one on leaves the rows in front, and masks each row by its
request and its history. The counter tells how many requests with bad words are left. -/
theorem badWordsLoop_apply {bad : List (Nat × List BadWord)} (past : List (List TokenId))
    (rest : List (ConstrainedRequest F)) (i start remaining : Nat) (logits : Logits F)
    (hlookup : ∀ d, bad.lookup (i + d) = rest[d]?.bind badWordsEntry)
    (hremaining : remaining = rest.countP fun r => (badWordsEntry r).isSome) :
    (∀ j < start, badWordsLoop bad past (rest.map (·.specTokenIds.length)) i start remaining
      logits j = logits j) ∧
    ∀ d r e row, rest[d]? = some r → e < r.specTokenIds.length →
      row = start + offset (rest.map (·.specTokenIds.length)) d + e →
        badWordsLoop bad past (rest.map (·.specTokenIds.length)) i start remaining logits row =
          (logits row).fill (badMask r.badWordsTokenIds (past.getD row [])) := by
  induction rest generalizing i start remaining logits with
  | nil => exact ⟨fun _ _ => rfl, by simp⟩
  | cons r rest ih =>
    have hhead : bad.lookup i = badWordsEntry r := by simpa using hlookup 0
    have hrest (d : Nat) : bad.lookup (i + 1 + d) = rest[d]?.bind badWordsEntry := by
      have hsucc := hlookup (d + 1)
      rwa [List.getElem?_cons_succ, Nat.add_comm d, ← Nat.add_assoc] at hsucc
    rw [List.countP_cons] at hremaining
    rw [List.map_cons]
    cases hentry : badWordsEntry r with
    | none =>
      rw [badWordsLoop_cons_none (hhead.trans hentry)]
      obtain ⟨hbefore, hrows⟩ := ih (i + 1) (start + r.specTokenIds.length) remaining logits hrest
        (by simpa [hentry] using hremaining)
      refine ⟨fun j hj => hbefore j (by omega), fun d r' e row hd he hrow => ?_⟩
      cases d with
      | zero =>
        obtain rfl : r = r' := by simpa using hd
        rw [offset_zero] at hrow
        rw [hbefore row (by omega), badWordsTokenIds_eq_nil hentry]
        simp
      | succ d =>
        rw [offset_cons_succ] at hrow
        exact hrows d r' e row (by simpa using hd) he (by omega)
    | some l =>
      obtain rfl := badWordsEntry_eq_some hentry
      have hleft : remaining - 1 = rest.countP fun r => (badWordsEntry r).isSome := by
        simp only [hentry, Option.isSome_some, if_true] at hremaining
        omega
      have hinner (j : Nat) := applyBadWordsRows_apply r.badWordsTokenIds past
        (List.nodup_range' (s := start) (n := r.specTokenIds.length)) logits j
      simp only [List.mem_range'_1] at hinner
      rw [badWordsLoop_cons_some (hhead.trans hentry)]
      split
      · next hlast =>
        -- The loop breaks: no later request has bad words.
        refine ⟨fun j hj => by rw [hinner, if_neg (by omega)], fun d r' e row hd he hrow => ?_⟩
        rw [hinner]
        cases d with
        | zero =>
          obtain rfl : r = r' := by simpa using hd
          rw [offset_zero] at hrow
          rw [if_pos (by omega)]
        | succ d =>
          have hnone : badWordsEntry r' = none := by
            have hzero := List.countP_eq_zero.mp (hleft.symm.trans hlast) r'
              (List.mem_of_getElem? (by simpa using hd))
            simpa using hzero
          rw [offset_cons_succ] at hrow
          rw [if_neg (by omega), badWordsTokenIds_eq_nil hnone]
          simp
      · obtain ⟨hbefore, hrows⟩ := ih (i + 1) (start + r.specTokenIds.length) (remaining - 1)
          (applyBadWordsRows logits r.badWordsTokenIds past
            (List.range' start r.specTokenIds.length)) hrest hleft
        refine ⟨fun j hj => ?_, fun d r' e row hd he hrow => ?_⟩
        · rw [hbefore j (by omega), hinner, if_neg (by omega)]
        · cases d with
          | zero =>
            obtain rfl : r = r' := by simpa using hd
            rw [offset_zero] at hrow
            rw [hbefore row (by omega), hinner, if_pos (by omega)]
          | succ d =>
            rw [offset_cons_succ] at hrow
            rw [hrows d r' e row (by simpa using hd) he (by omega), hinner, if_neg (by omega)]

/-- An entry is there for each request that has one. -/
private theorem length_entriesOf {V : Type} (reqs : List (ConstrainedRequest F))
    (entry : ConstrainedRequest F → Option V) :
    (entriesOf reqs entry).length = reqs.countP fun r => (entry r).isSome := by
  have hfrom (n : Nat) : ((reqs.zipIdx n).filterMap fun e =>
      (entry e.1).map fun v => (e.2, v)).length = reqs.countP fun r => (entry r).isSome := by
    induction reqs generalizing n with
    | nil => rfl
    | cons r reqs ih =>
      rw [List.zipIdx_cons, List.filterMap_cons, List.countP_cons]
      cases hv : entry r with
      | none => simpa [hv] using ih (n + 1)
      | some v => simpa [hv] using ih (n + 1)
  exact hfrom 0

/-- The rows of drafts are masked by their requests' bad words and their histories. -/
theorem applyBadWordsWithDrafts_apply {k e row : Nat} (hk : reqs[k]? = some r)
    (he : e < r.specTokenIds.length) (hrow : row = offset (reqs.map (·.specTokenIds.length)) k + e)
    (logits : Logits F) (past : List (List TokenId)) :
    applyBadWordsWithDrafts logits (entriesOf reqs badWordsEntry) past
      (reqs.map (·.specTokenIds.length)) row =
        (logits row).fill (badMask r.badWordsTokenIds (past.getD row [])) :=
  (badWordsLoop_apply past reqs 0 0 _ logits (fun d => by rw [Nat.zero_add, lookup_entriesOf])
    (length_entriesOf reqs badWordsEntry)).2 k r e row hk he (by omega)

/-! ## Histories -/

/-- The histories of the rows of a request: its outputs, with one draft more in each row. -/
def draftHistories (r : ConstrainedRequest F) : List (List TokenId) :=
  (List.range r.specTokenIds.length).map fun i => r.outputTokenIds ++ r.specTokenIds.take i

private theorem combineRequest_eq (result : List (List TokenId)) (r : ConstrainedRequest F) :
    RejectionSampler.combineRequest result (r.outputTokenIds, r.specTokenIds) =
      result ++ draftHistories r := by
  have hfold (m : Nat) (hm : m < r.specTokenIds.length) : (List.range m).foldl
      (fun result i => result ++ [result.getLast?.getD [] ++ [r.specTokenIds.getD i 0]])
      (result ++ [r.outputTokenIds]) = result ++ (List.range (m + 1)).map fun i =>
        r.outputTokenIds ++ r.specTokenIds.take i := by
    induction m with
    | zero => simp
    | succ m ih =>
      rw [List.range_succ, List.foldl_append, ih (by omega), List.range_succ (n := m + 1),
        List.map_append, ← List.append_assoc]
      have hlast : (result ++ (List.range (m + 1)).map fun i =>
          r.outputTokenIds ++ r.specTokenIds.take i).getLast?.getD [] =
            r.outputTokenIds ++ r.specTokenIds.take m := by
        rw [List.range_succ, List.map_append, ← List.append_assoc]
        simp
      have htake : r.specTokenIds.take (m + 1) =
          r.specTokenIds.take m ++ [r.specTokenIds.getD m 0] := by
        rw [List.getD_eq_getElem _ _ (by omega : m < r.specTokenIds.length)]
        exact (List.take_concat_get' _ _ _).symm
      simp only [List.foldl_cons, List.foldl_nil, hlast, List.map_cons, List.map_nil, htake,
        List.append_assoc]
  unfold RejectionSampler.combineRequest draftHistories
  split
  · next hempty =>
    have hnil : r.specTokenIds.length = 0 := hempty
    simp [hnil]
  · next hne =>
    have hpos : 0 < r.specTokenIds.length := Nat.pos_of_ne_zero hne
    have hlast : r.specTokenIds.length - 1 < r.specTokenIds.length := by omega
    have hlen : r.specTokenIds.length - 1 + 1 = r.specTokenIds.length := by omega
    rw [hfold _ hlast, hlen]

private theorem combineOutputsWithSpecTokens_eq (reqs : List (ConstrainedRequest F)) :
    RejectionSampler.combineOutputsWithSpecTokens (reqs.map (·.outputTokenIds))
      (some (reqs.map (·.specTokenIds))) = reqs.flatMap draftHistories := by
  have hfold (result : List (List TokenId)) :
      ((reqs.map (·.outputTokenIds)).zip (reqs.map (·.specTokenIds))).foldl
        RejectionSampler.combineRequest result = result ++ reqs.flatMap draftHistories := by
    induction reqs generalizing result with
    | nil => simp
    | cons r reqs ih =>
      simp only [List.map_cons, List.zip_cons_cons, List.foldl_cons, List.flatMap_cons]
      rw [combineRequest_eq, ih, List.append_assoc]
  exact hfold []

section Rows

variable {reqs : List (ConstrainedRequest F)} {k e row : Nat} {r : ConstrainedRequest F}

/-- The history of a draft's row. -/
theorem history_eq (hk : reqs[k]? = some r) (he : e < r.specTokenIds.length)
    (hrow : row = offset (reqs.map (·.specTokenIds.length)) k + e) :
    (RejectionSampler.combineOutputsWithSpecTokens (reqs.map (·.outputTokenIds))
      (some (reqs.map (·.specTokenIds)))).getD row [] =
        r.outputTokenIds ++ r.specTokenIds.take e := by
  have hlookup := getElem?_flatMap draftHistories (·.specTokenIds.length)
    (fun r _ => by simp [draftHistories]) hk he
  rw [combineOutputsWithSpecTokens_eq, List.getD_eq_getElem?_getD, hrow, hlookup]
  simp [draftHistories, he]

/-- The request of a draft's row. -/
theorem repeatIndices_eq (hk : reqs[k]? = some r) (he : e < r.specTokenIds.length)
    (hrow : row = offset (reqs.map (·.specTokenIds.length)) k + e) :
    (RejectionSampler.repeatIndices (reqs.map (·.specTokenIds.length)))[row]? = some k := by
  have hentry : (reqs.map (·.specTokenIds.length)).zipIdx[k]? =
      some (r.specTokenIds.length, k) := by
    simp [hk]
  have hlookup := getElem?_flatMap (fun e : Nat × Nat => List.replicate e.1 e.2)
    Prod.fst (fun e _ => by simp) hentry he
  rw [List.zipIdx_map_fst] at hlookup
  rw [RejectionSampler.repeatIndices, hrow, hlookup]
  simp [he]

/-- The history of a bonus row, when the drafts are combined. -/
theorem bonusHistory_eq (hk : reqs[k]? = some r) :
    (Sampler.combineOutputsWithSpecTokens (reqs.map (·.outputTokenIds))
      (some (reqs.map (·.specTokenIds)))).getD k [] = r.outputTokenIds ++ r.specTokenIds := by
  rw [Sampler.combineOutputsWithSpecTokens, List.zip_map', List.getD_eq_getElem?_getD,
    List.getElem?_map, List.getElem?_map, hk]
  by_cases hnil : r.specTokenIds = [] <;> simp [hnil]

end Rows

/-! ## Stop tokens -/

/-- Rows repeated for each stop token against the stop tokens tiled for each row. -/
private theorem zip_repeat_tile (rows stops : List Nat) :
    (rows.flatMap (List.replicate stops.length)).zip (List.replicate rows.length stops).flatten =
      rows.flatMap fun row => stops.map fun t => (row, t) := by
  induction rows with
  | nil => rfl
  | cons row rows ih =>
    have hblock (l : List Nat) :
        (List.replicate l.length row).zip l = l.map fun t => (row, t) := by
      induction l with
      | nil => rfl
      | cons t l ih => simpa [List.replicate_succ] using ih
    rw [List.flatMap_cons, List.length_cons, List.replicate_succ, List.flatten_cons,
      List.zip_append (by simp), ih, hblock, List.flatMap_cons]

private theorem mem_draftSlice {nums : List Nat} {e : Nat × MinToks} {row : Nat} {t : TokenId} :
    (row, t) ∈ MinTokensLogitsProcessor.draftSlice nums e ↔
      ∃ i < min (e.2.minTokens - e.2.outputTokIds.length) (nums.getD e.1 0),
        row = offset nums e.1 + i ∧ t ∈ e.2.stopTokIds := by
  have hzip := zip_repeat_tile (List.range' (offset nums e.1)
    (min (e.2.minTokens - e.2.outputTokIds.length) (nums.getD e.1 0))) e.2.stopTokIds
  rw [List.length_range'] at hzip
  simp only [MinTokensLogitsProcessor.draftSlice, hzip, List.mem_flatMap, List.mem_map,
    List.mem_range'_1, Prod.mk.injEq]
  constructor
  · rintro ⟨row', ⟨hle, hlt⟩, t', ht, rfl, rfl⟩
    exact ⟨row' - offset nums e.1, by omega, by omega, ht⟩
  · rintro ⟨i, hi, rfl, ht⟩
    exact ⟨_, ⟨by omega, by omega⟩, t, ht, rfl, rfl⟩

/-- The processor of a batch. -/
def minTokensProcessor (reqs : List (ConstrainedRequest F)) : MinTokensLogitsProcessor :=
  ⟨entriesOf reqs (·.minToks)⟩

private theorem minToks_eq_some {e : MinToks} : r.minToks = some e ↔
    r.outputTokenIds.length < r.minTokens ∧
      e = ⟨r.minTokens, r.outputTokenIds, r.allStopTokenIds⟩ := by
  unfold ConstrainedRequest.minToks
  split
  · next h => simp only [reduceCtorEq, false_iff]; omega
  · next h =>
    rw [Option.some.injEq]
    constructor
    · rintro rfl
      exact ⟨by omega, rfl⟩
    · rintro ⟨-, rfl⟩
      rfl

section Rows

variable {reqs : List (ConstrainedRequest F)} {k e row : Nat} {r : ConstrainedRequest F}

/-- `apply` forces the stop tokens of a row by the committed length. -/
theorem minTokens_apply (hk : reqs[k]? = some r) (logits : Logits F) :
    (minTokensProcessor reqs).apply logits k = (logits k).fill fun t =>
      r.outputTokenIds.length < r.minTokens && t ∈ r.allStopTokenIds := by
  have hslice (t : TokenId) : (k, t) ∈ (minTokensProcessor reqs).logitsSlice ↔
      r.outputTokenIds.length < r.minTokens ∧ t ∈ r.allStopTokenIds := by
    simp only [MinTokensLogitsProcessor.logitsSlice, minTokensProcessor, List.mem_flatMap,
      List.mem_map, Prod.mk.injEq]
    constructor
    · rintro ⟨⟨k', e⟩, he, t', ht, rfl, rfl⟩
      obtain ⟨r', hr, hmin⟩ := mem_entriesOf.mp he
      obtain rfl : r = r' := by simpa [hk] using hr
      obtain ⟨hlt, rfl⟩ := minToks_eq_some.mp hmin
      exact ⟨hlt, ht⟩
    · rintro ⟨hlt, ht⟩
      exact ⟨(k, _), mem_entriesOf.mpr ⟨r, hk, minToks_eq_some.mpr ⟨hlt, rfl⟩⟩, t, ht, rfl, rfl⟩
  unfold MinTokensLogitsProcessor.apply
  split
  · next hnil =>
    have hnone (t : TokenId) : ¬ (r.outputTokenIds.length < r.minTokens ∧
        t ∈ r.allStopTokenIds) := by
      rw [← hslice, MinTokensLogitsProcessor.logitsSlice, hnil]
      simp
    simp [← Bool.decide_and, hnone]
  · simp [← Bool.decide_and, hslice]

/-- `apply_with_spec_decode` forces them by the length with the drafts in front. -/
theorem minTokens_applyWithSpecDecode (hk : reqs[k]? = some r) (he : e < r.specTokenIds.length)
    (hrow : row = offset (reqs.map (·.specTokenIds.length)) k + e) (logits : Logits F) :
    (minTokensProcessor reqs).applyWithSpecDecode logits (reqs.map (·.specTokenIds.length)) row =
      (logits row).fill fun t =>
        r.outputTokenIds.length + e < r.minTokens && t ∈ r.allStopTokenIds := by
  have hlength {k : Nat} {r : ConstrainedRequest F} (hk : reqs[k]? = some r) :
      (reqs.map (·.specTokenIds.length))[k]? = some r.specTokenIds.length := by
    simp [hk]
  have hslice (t : TokenId) : (∃ entry ∈ (minTokensProcessor reqs).minToks.filter
      fun e => e.2.stopTokIds ≠ [], (row, t) ∈ MinTokensLogitsProcessor.draftSlice
        (reqs.map (·.specTokenIds.length)) entry) ↔
      r.outputTokenIds.length + e < r.minTokens ∧ t ∈ r.allStopTokenIds := by
    constructor
    · rintro ⟨⟨k', entry⟩, hentry, hmem⟩
      obtain ⟨r', hr, hmin⟩ := mem_entriesOf.mp (List.mem_filter.mp hentry).1
      obtain ⟨-, rfl⟩ := minToks_eq_some.mp hmin
      obtain ⟨e', he', hrow', ht⟩ := mem_draftSlice.mp hmem
      simp only [List.getD_eq_getElem?_getD, hlength hr, Option.getD_some] at he'
      obtain ⟨rfl, rfl⟩ := offset_add_inj (hlength hk) (hlength hr) he
        (show e' < r'.specTokenIds.length by omega) (hrow.symm.trans hrow')
      obtain rfl : r = r' := by simpa [hk] using hr
      exact ⟨by omega, ht⟩
    · rintro ⟨hlt, ht⟩
      refine ⟨(k, _), List.mem_filter.mpr ⟨mem_entriesOf.mpr
        ⟨r, hk, minToks_eq_some.mpr ⟨by omega, rfl⟩⟩, ?_⟩, ?_⟩
      · simpa using List.ne_nil_of_mem ht
      · refine mem_draftSlice.mpr ⟨e, ?_, hrow, ht⟩
        simp only [List.getD_eq_getElem?_getD, hlength hk, Option.getD_some]
        omega
  unfold MinTokensLogitsProcessor.applyWithSpecDecode
  split
  · next hnil =>
    have hnone (t : TokenId) : ¬ (r.outputTokenIds.length + e < r.minTokens ∧
        t ∈ r.allStopTokenIds) := by
      rw [← hslice, hnil]
      simp
    simp [← Bool.decide_and, hnone]
  · simp only [Logits.indexPut_apply, List.mem_flatMap, hslice, Bool.decide_and]

end Rows

/-! ## The rows of a batch -/

/-- The tokens that a request's constraints force behind a history. -/
def constraintMask (r : ConstrainedRequest F) (past : List TokenId) (stops : Bool)
    (t : TokenId) : Bool :=
  (r.allowedMask t || badMask r.badWordsTokenIds past t) || (stops && t ∈ r.allStopTokenIds)

/-- What the penalties of a request are given for a history. -/
def penaltyInputs (r : ConstrainedRequest F) (past : List TokenId) : PenaltyInputs F :=
  ⟨r.promptTokenIds, r.presencePenalty, r.frequencyPenalty, r.repetitionPenalty, past⟩

section Batch

variable [Zero F] [One F] [DecidableEq F] {reqs : List (ConstrainedRequest F)} {k e row : Nat}
  {r : ConstrainedRequest F}

/-- Without a mask no request has a list of allowed tokens. -/
theorem allowedTokenIdsMask_cases (reqs : List (ConstrainedRequest F)) :
    (makeSamplingMetadata reqs).allowedTokenIdsMask = some (reqs.map (·.allowedMask)) ∨
    (makeSamplingMetadata reqs).allowedTokenIdsMask = none ∧
      ∀ r ∈ reqs, r.allowedMask = fun _ => false := by
  simp only [makeSamplingMetadata]
  split
  · next hall =>
    refine Or.inr ⟨rfl, fun r hr => ?_⟩
    have hnil : r.allowedTokenIds = [] := by simpa using List.all_eq_true.mp hall r hr
    funext t
    simp [ConstrainedRequest.allowedMask, hnil]
  · exact Or.inl rfl

/-- Without entries no request has bad words. -/
private theorem badWordsTokenIds_nil (h : (makeSamplingMetadata reqs).badWordsTokenIds = [])
    (hk : reqs[k]? = some r) : r.badWordsTokenIds = [] := by
  have hlookup := lookup_entriesOf reqs badWordsEntry k
  have hnil : entriesOf reqs badWordsEntry = [] := h
  rw [hnil, hk] at hlookup
  exact badWordsTokenIds_eq_nil hlookup.symm

/-- The mask of the allowed tokens in the sampler. -/
theorem allowed_apply (hk : reqs[k]? = some r) (logits : Logits F) :
    (match (makeSamplingMetadata reqs).allowedTokenIdsMask with
      | some mask => logits.maskedFill fun j => mask.getD j fun _ => false
      | none => logits) k = (logits k).fill r.allowedMask := by
  rcases allowedTokenIdsMask_cases reqs with hmask | ⟨hmask, hnone⟩
  · simp [hmask, List.getD_eq_getElem?_getD, hk]
  · simp [hmask, hnone r (List.mem_of_getElem? hk)]

/-- The bad words of the batch, in either sampler. -/
theorem badWords_apply (hk : reqs[k]? = some r) {logits logits' : Logits F} {past : List TokenId}
    (h : (makeSamplingMetadata reqs).badWordsTokenIds ≠ [] →
      logits' row = (logits row).fill (badMask r.badWordsTokenIds past)) :
    (if (makeSamplingMetadata reqs).badWordsTokenIds ≠ [] then logits' else logits) row =
      (logits row).fill (badMask r.badWordsTokenIds past) := by
  split
  · next hne => exact h hne
  · next hnil =>
    rw [badWordsTokenIds_nil (not_not.mp hnil) hk]
    simp

/-- Whether the histories of a batch are read. -/
def readsHistories (reqs : List (ConstrainedRequest F)) : Bool :=
  (makeSamplingMetadata reqs).badWordsTokenIds ≠ [] || !(makeSamplingMetadata reqs).noPenalties

/-- The sampler's row of a request. -/
theorem sampler_apply (hk : reqs[k]? = some r) (logits : Logits F) (predictBonusToken : Bool)
    {past : List TokenId}
    (hpast : past = r.outputTokenIds ++ if predictBonusToken then r.specTokenIds else []) :
    Sampler.applyLogitsProcessors logits (makeSamplingMetadata reqs) predictBonusToken k =
      { (logits k).fill (constraintMask r past (r.outputTokenIds.length < r.minTokens)) with
        penalized := if (makeSamplingMetadata reqs).noPenalties then (logits k).penalized
          else some (penaltyInputs r past) } := by
  have hhistory (h : readsHistories reqs = true) : (if predictBonusToken && readsHistories reqs
      then Sampler.combineOutputsWithSpecTokens (reqs.map (·.outputTokenIds))
        (some (reqs.map (·.specTokenIds)))
      else reqs.map (·.outputTokenIds)).getD k [] = past := by
    rw [h, hpast]
    cases predictBonusToken with
    | true => exact bonusHistory_eq hk
    | false => simp [List.getD_eq_getElem?_getD, hk]
  generalize hP : (if predictBonusToken && readsHistories reqs
      then Sampler.combineOutputsWithSpecTokens (reqs.map (·.outputTokenIds))
        (some (reqs.map (·.specTokenIds)))
      else reqs.map (·.outputTokenIds)) = P at hhistory
  have hbad (logits : Logits F) : (if (makeSamplingMetadata reqs).badWordsTokenIds ≠ [] then
      applyBadWords logits (makeSamplingMetadata reqs).badWordsTokenIds P else logits) k =
        (logits k).fill (badMask r.badWordsTokenIds past) := by
    refine badWords_apply hk fun hne => ?_
    rw [← hhistory (by simp [readsHistories, hne])]
    exact applyBadWords_apply hk logits P
  have hmin (logits : Logits F) : (makeSamplingMetadata reqs).nonArgmaxInvariant.foldl
      Sampler.applyProcessor logits k = (logits k).fill fun t =>
        r.outputTokenIds.length < r.minTokens && t ∈ r.allStopTokenIds :=
    minTokens_apply hk logits
  have hpenalties (logits : Logits F) :
      Sampler.applyPenalties logits (makeSamplingMetadata reqs) P k =
        { logits k with
          penalized := if (makeSamplingMetadata reqs).noPenalties then (logits k).penalized
            else some (penaltyInputs r past) } := by
    unfold Sampler.applyPenalties
    split
    · rfl
    · next hon =>
      rw [← hhistory (by simp [readsHistories, hon])]
      simp [applyAllPenalties, penaltyInputs, makeSamplingMetadata, List.getD_eq_getElem?_getD, hk]
  have hrun : Sampler.applyLogitsProcessors logits (makeSamplingMetadata reqs) predictBonusToken =
      Sampler.applyPenalties ((makeSamplingMetadata reqs).nonArgmaxInvariant.foldl
        Sampler.applyProcessor (if (makeSamplingMetadata reqs).badWordsTokenIds ≠ [] then
          applyBadWords (match (makeSamplingMetadata reqs).allowedTokenIdsMask with
            | some mask => logits.maskedFill fun j => mask.getD j fun _ => false
            | none => logits) (makeSamplingMetadata reqs).badWordsTokenIds P
          else match (makeSamplingMetadata reqs).allowedTokenIdsMask with
            | some mask => logits.maskedFill fun j => mask.getD j fun _ => false
            | none => logits)) (makeSamplingMetadata reqs) P := by
    rw [← hP]
    rfl
  rw [hrun, hpenalties, hmin, hbad, allowed_apply hk]
  ext t
  · simp [constraintMask]
  · simp

/-- The rejection sampler's row of a draft. -/
theorem rejectionSampler_apply (hk : reqs[k]? = some r) (he : e < r.specTokenIds.length)
    (hrow : row = offset (reqs.map (·.specTokenIds.length)) k + e) (logits : Logits F)
    {past : List TokenId} (hpast : past = r.outputTokenIds ++ r.specTokenIds.take e) :
    RejectionSampler.applyLogitsProcessors logits (makeSamplingMetadata reqs)
      (reqs.map (·.specTokenIds.length)) row =
      { (logits row).fill (constraintMask r past (r.outputTokenIds.length + e < r.minTokens)) with
        penalized := if (makeSamplingMetadata reqs).noPenalties then (logits row).penalized
          else some (penaltyInputs r past) } := by
  have hhistory (h : readsHistories reqs = true) : (if readsHistories reqs
      then RejectionSampler.combineOutputsWithSpecTokens (reqs.map (·.outputTokenIds))
        (some (reqs.map (·.specTokenIds)))
      else reqs.map (·.outputTokenIds)).getD row [] = past := by
    rw [if_pos h, hpast]
    exact history_eq hk he hrow
  generalize hP : (if readsHistories reqs
      then RejectionSampler.combineOutputsWithSpecTokens (reqs.map (·.outputTokenIds))
        (some (reqs.map (·.specTokenIds)))
      else reqs.map (·.outputTokenIds)) = P at hhistory
  have hbad (logits : Logits F) : (if (makeSamplingMetadata reqs).badWordsTokenIds ≠ [] then
      applyBadWordsWithDrafts logits (makeSamplingMetadata reqs).badWordsTokenIds P
        (reqs.map (·.specTokenIds.length)) else logits) row =
        (logits row).fill (badMask r.badWordsTokenIds past) := by
    refine badWords_apply hk fun hne => ?_
    rw [← hhistory (by simp [readsHistories, hne])]
    exact applyBadWordsWithDrafts_apply hk he hrow logits P
  have hmin (logits : Logits F) : (makeSamplingMetadata reqs).nonArgmaxInvariant.foldl
      (RejectionSampler.applyProcessor (reqs.map (·.specTokenIds.length))) logits row =
        (logits row).fill fun t =>
          r.outputTokenIds.length + e < r.minTokens && t ∈ r.allStopTokenIds :=
    minTokens_applyWithSpecDecode hk he hrow logits
  have hrepeat := repeatIndices_eq hk he hrow
  have hpenalties : RejectionSampler.applyPenalties logits (makeSamplingMetadata reqs)
      (RejectionSampler.repeatIndices (reqs.map (·.specTokenIds.length))) P row =
        { logits row with
          penalized := if (makeSamplingMetadata reqs).noPenalties then (logits row).penalized
            else some (penaltyInputs r past) } := by
    unfold RejectionSampler.applyPenalties
    split
    · rfl
    · next hon =>
      rw [← hhistory (by simp [readsHistories, hon])]
      simp [applyAllPenalties, penaltyInputs, makeSamplingMetadata, List.getD_eq_getElem?_getD, hk,
        hrepeat]
  have hperRequest : RejectionSampler.applyPerRequest logits (makeSamplingMetadata reqs)
      (reqs.map (·.specTokenIds.length)) P row =
        { (logits row).fill r.allowedMask with
          penalized := if (makeSamplingMetadata reqs).noPenalties then (logits row).penalized
            else some (penaltyInputs r past) } := by
    unfold RejectionSampler.applyPerRequest
    rcases allowedTokenIdsMask_cases reqs with hmask | ⟨hmask, hnone⟩
    · simp only [hmask, Option.isSome_some, Bool.true_or, if_true, Logits.maskedFill_apply,
        hpenalties]
      ext t
      · simp [List.getD_eq_getElem?_getD, hrepeat, hk]
      · simp
    · simp only [hmask, Option.isSome_none, Bool.false_or, hnone r (List.mem_of_getElem? hk),
        LogitsRow.fill_false]
      split
      · exact hpenalties
      · next hoff =>
        have hoff : (makeSamplingMetadata reqs).noPenalties = true := by simpa using hoff
        rw [if_pos hoff]
  have hrun : RejectionSampler.applyLogitsProcessors logits (makeSamplingMetadata reqs)
      (reqs.map (·.specTokenIds.length)) = (makeSamplingMetadata reqs).nonArgmaxInvariant.foldl
        (RejectionSampler.applyProcessor (reqs.map (·.specTokenIds.length)))
        (if (makeSamplingMetadata reqs).badWordsTokenIds ≠ [] then
          applyBadWordsWithDrafts (RejectionSampler.applyPerRequest logits
            (makeSamplingMetadata reqs) (reqs.map (·.specTokenIds.length)) P)
            (makeSamplingMetadata reqs).badWordsTokenIds P (reqs.map (·.specTokenIds.length))
          else RejectionSampler.applyPerRequest logits (makeSamplingMetadata reqs)
            (reqs.map (·.specTokenIds.length)) P) := by
    rw [← hP]
    rfl
  rw [hrun, hmin, hbad, hperRequest]
  ext t
  · simp [constraintMask, Bool.or_assoc]
  · simp

end Batch

/-! ## Rows with drafts and rows without -/

/-- A request behind some of its drafts, without drafts of its own. -/
def ConstrainedRequest.after (r : ConstrainedRequest F) (i : Nat) : ConstrainedRequest F :=
  { r with outputTokenIds := r.outputTokenIds ++ r.specTokenIds.take i, specTokenIds := [] }

/-- Penalties with neutral parameters have no effect on a row. -/
def PenaltyInputs.effective [Zero F] [One F] [DecidableEq F] (p : PenaltyInputs F) : Bool :=
  p.frequencyPenalty ≠ 0 || p.presencePenalty ≠ 0 || p.repetitionPenalty ≠ 1

section Batch

variable [Zero F] [One F] [DecidableEq F]

/-- The history that a row is penalised for, with the other inputs. -/
def LogitsRow.history (row : LogitsRow F) : Option (PenaltyInputs F) :=
  row.penalized.filter (·.effective)

/-- Row `i` of a request: a draft's row, or the bonus row. -/
def specRow (reqs : List (ConstrainedRequest F)) (k i : Nat) (r : ConstrainedRequest F) :
    LogitsRow F :=
  let numDraftTokens := reqs.map (·.specTokenIds.length)
  if i < r.specTokenIds.length then
    RejectionSampler.applyLogitsProcessors (fun _ => {}) (makeSamplingMetadata reqs) numDraftTokens
      (offset numDraftTokens k + i)
  else Sampler.applyLogitsProcessors (fun _ => {}) (makeSamplingMetadata reqs) true k

/-- The plain sampler's row for a request alone, behind `i` of its drafts. -/
def plainRow (r : ConstrainedRequest F) (i : Nat) : LogitsRow F :=
  Sampler.applyLogitsProcessors (fun _ => {}) (makeSamplingMetadata [r.after i]) false 0

/-- The tokens that the minimal number of tokens forces in row `i` of a request. -/
def stopForced (reqs : List (ConstrainedRequest F)) (k i : Nat) (r : ConstrainedRequest F) :
    TokenId → Bool :=
  let numDraftTokens := reqs.map (·.specTokenIds.length)
  let logits : Logits F := fun _ => {}
  if i < r.specTokenIds.length then
    ((minTokensProcessor reqs).applyWithSpecDecode logits numDraftTokens
      (offset numDraftTokens k + i)).forced
  else ((minTokensProcessor reqs).apply logits k).forced

/-- Every row of every request sees the constraints of plain decoding. -/
def SeesPlainConstraints (reqs : List (ConstrainedRequest F)) : Prop :=
  ∀ k r i, reqs[k]? = some r → i ≤ r.specTokenIds.length →
    (specRow reqs k i r).forced = (plainRow r i).forced ∧
    (specRow reqs k i r).history = (plainRow r i).history ∧
    ∀ t ∈ r.allStopTokenIds,
      (stopForced reqs k i r t = true ↔ r.outputTokenIds.length + i < r.minTokens)

/-- The drafts of a request with stop tokens reach its minimal number of tokens. -/
def DraftsReachMinTokens (r : ConstrainedRequest F) : Prop :=
  r.allStopTokenIds ≠ [] ∧ r.outputTokenIds.length < r.minTokens ∧
    r.minTokens ≤ r.outputTokenIds.length + r.specTokenIds.length

/-- The penalties of a batch that have an effect are those of its requests. -/
theorem history_penalized {k : Nat} (hk : reqs[k]? = some r) (past : List TokenId)
    (m : TokenId → Bool) :
    LogitsRow.history ⟨m, if (makeSamplingMetadata reqs).noPenalties then none
      else some (penaltyInputs r past)⟩ =
        if r.hasPenalties then some (penaltyInputs r past) else none := by
  have heffective : (penaltyInputs r past).effective = r.hasPenalties := rfl
  unfold LogitsRow.history
  cases hr : r.hasPenalties with
  | true =>
    have hoff : (makeSamplingMetadata reqs).noPenalties = false := by
      refine List.all_eq_false.mpr ⟨r, List.mem_of_getElem? hk, ?_⟩
      simp [hr]
    simp [hoff, heffective, hr]
  | false =>
    split <;> simp [heffective, hr]

/-- What is forced, and penalised, in row `i` of a request: the stop tokens of the bonus row by
the committed length. -/
theorem specRow_eq {k i : Nat} (hk : reqs[k]? = some r) (hi : i ≤ r.specTokenIds.length) :
    (specRow reqs k i r).forced = constraintMask r (r.outputTokenIds ++ r.specTokenIds.take i)
      (r.outputTokenIds.length + (if i < r.specTokenIds.length then i else 0) < r.minTokens) ∧
    (specRow reqs k i r).history = if r.hasPenalties then
      some (penaltyInputs r (r.outputTokenIds ++ r.specTokenIds.take i)) else none := by
  unfold specRow
  by_cases hlt : i < r.specTokenIds.length
  · simp only [if_pos hlt]
    rw [rejectionSampler_apply hk hlt rfl _ rfl]
    refine ⟨?_, history_penalized hk _ _⟩
    funext t
    simp
  · obtain rfl : i = r.specTokenIds.length := by omega
    simp only [if_neg hlt]
    rw [sampler_apply hk _ true rfl]
    refine ⟨?_, ?_⟩
    · funext t
      simp
    · rw [List.take_length]
      exact history_penalized hk _ _

/-- What the plain sampler forces, and penalises, behind `i` drafts. -/
theorem plainRow_eq {i : Nat} (hi : i ≤ r.specTokenIds.length) :
    (plainRow r i).forced = constraintMask r (r.outputTokenIds ++ r.specTokenIds.take i)
      (r.outputTokenIds.length + i < r.minTokens) ∧
    (plainRow r i).history = if r.hasPenalties then
      some (penaltyInputs r (r.outputTokenIds ++ r.specTokenIds.take i)) else none := by
  have hlength : (r.after i).outputTokenIds.length = r.outputTokenIds.length + i := by
    simp [ConstrainedRequest.after, hi]
  have hpast : r.outputTokenIds ++ r.specTokenIds.take i = (r.after i).outputTokenIds ++
      if false = true then (r.after i).specTokenIds else [] := by
    simp [ConstrainedRequest.after]
  have hk : [r.after i][0]? = some (r.after i) := rfl
  unfold plainRow
  rw [sampler_apply hk _ false hpast, hlength]
  refine ⟨?_, history_penalized hk _ _⟩
  funext t
  simp only [LogitsRow.fill_forced, Bool.false_or]
  rfl

omit [Zero F] [One F] [DecidableEq F] in
/-- Which tokens the minimal number of tokens forces in row `i`. -/
theorem stopForced_eq {k i : Nat} (hk : reqs[k]? = some r) (t : TokenId) : stopForced reqs k i r t =
      (r.outputTokenIds.length + (if i < r.specTokenIds.length then i else 0) < r.minTokens &&
        t ∈ r.allStopTokenIds) := by
  unfold stopForced
  by_cases hlt : i < r.specTokenIds.length
  · simp only [if_pos hlt]
    rw [minTokens_applyWithSpecDecode hk hlt rfl]
    simp
  · simp only [if_neg hlt]
    rw [minTokens_apply hk]
    simp

/-- Every row sees the constraints of plain decoding exactly when no drafts reach a minimal
number of tokens: the bonus row keeps the stop tokens forced up to it. -/
theorem seesPlainConstraints_iff (reqs : List (ConstrainedRequest F)) :
    SeesPlainConstraints reqs ↔ ∀ r ∈ reqs, ¬ DraftsReachMinTokens r := by
  constructor
  · intro h r hr hreach
    obtain ⟨hstops, hlt, hle⟩ := hreach
    obtain ⟨k, hk⟩ := List.mem_iff_getElem?.mp hr
    obtain ⟨t, ht⟩ := List.exists_mem_of_ne_nil _ hstops
    have hbonus := ((h k r _ hk le_rfl).2.2 t ht).mp (by simp [stopForced_eq hk, hlt, ht])
    omega
  · intro h k r i hk hi
    obtain ⟨hforced, hhistory⟩ := specRow_eq hk hi
    obtain ⟨hplain, hplainHistory⟩ := plainRow_eq hi
    -- Where there are stop tokens, the row's length decides as the history's does.
    have hstops : r.allStopTokenIds ≠ [] →
        (r.outputTokenIds.length + (if i < r.specTokenIds.length then i else 0) < r.minTokens ↔
          r.outputTokenIds.length + i < r.minTokens) := by
      intro hne
      have hreach := h r (List.mem_of_getElem? hk)
      simp only [DraftsReachMinTokens, not_and] at hreach
      have hreach := hreach hne
      split
      · rfl
      · omega
    refine ⟨?_, hhistory.trans hplainHistory.symm, fun t ht => ?_⟩
    · rw [hforced, hplain]
      funext t
      by_cases ht : t ∈ r.allStopTokenIds
      · simp only [constraintMask, hstops (List.ne_nil_of_mem ht)]
      · simp [constraintMask, ht]
    · rw [stopForced_eq hk]
      simp [ht, hstops (List.ne_nil_of_mem ht)]

end Batch

/-- A request of one output and one draft that must run to two tokens before it stops at 9. -/
def shortRequest : ConstrainedRequest Int where
  outputTokenIds := [5]
  specTokenIds := [7]
  presencePenalty := 0
  frequencyPenalty := 0
  repetitionPenalty := 1
  minTokens := 2
  allStopTokenIds := [9]

/-- Its bonus row may not stop, though the plain sampler could behind the draft. -/
theorem shortRequest_bonus : ¬ SeesPlainConstraints [shortRequest] := by
  intro h
  have hforced := congrFun (h 0 shortRequest 1 rfl (Nat.le_refl 1)).1 9
  have hspec : (specRow [shortRequest] 0 1 shortRequest).forced 9 = true := by decide
  have hplain : (plainRow shortRequest 1).forced 9 = false := by decide
  rw [hspec, hplain] at hforced
  cases hforced

end Vllm.Sample
