import Vllm.Core.GrammarBitmask

/-!
# Masked logits

The worker's batch lays out one row of logits for each position that a request samples.
The rows of the bitmask, which come in the order of the scheduler, end up at the rows of
their requests and nowhere else.
-/

namespace Vllm

open Checked BitmaskEnv

variable {H G Row L : Type}

/-! ## The layout of the logits -/

/-- The positions that the rows of logits belong to: a request of the batch and the number of
drafts in front. -/
def slots (numDrafts : RequestId → Nat) (batch : List RequestId) : List (RequestId × Nat) :=
  batch.flatMap fun r => (List.range (1 + numDrafts r)).map fun i => (r, i)

/-- The first row of logits of a request. -/
def logitStart (numDrafts : RequestId → Nat) : List RequestId → RequestId → Nat
  | [], _ => 0
  | r' :: rest, r => if r' = r then 0 else 1 + numDrafts r' + logitStart numDrafts rest r

variable {numDrafts : RequestId → Nat} {batch structuredIds : List RequestId}

/-- A row belongs to a position exactly when it is that far behind the start of the request. -/
theorem getElem?_slots (hnodup : batch.Nodup) (k : Nat) (r : RequestId) (i : Nat) :
    (slots numDrafts batch)[k]? = some (r, i) ↔
      r ∈ batch ∧ i < 1 + numDrafts r ∧ k = logitStart numDrafts batch r + i := by
  induction batch generalizing k with
  | nil => simp [slots]
  | cons r' rest ih =>
    obtain ⟨hnot, hnodup'⟩ := List.nodup_cons.mp hnodup
    have hslots : slots numDrafts (r' :: rest) =
        ((List.range (1 + numDrafts r')).map fun i => (r', i)) ++ slots numDrafts rest := rfl
    have hhead : ((List.range (1 + numDrafts r')).map fun i => (r', i)).length =
        1 + numDrafts r' := by simp
    rw [hslots]
    by_cases hk : k < 1 + numDrafts r'
    · rw [List.getElem?_append_left (by omega), List.getElem?_map, List.getElem?_range hk]
      simp only [Option.map_some, Option.some.injEq, Prod.mk.injEq, List.mem_cons, logitStart]
      constructor
      · rintro ⟨rfl, rfl⟩
        exact ⟨Or.inl rfl, hk, by simp⟩
      · rintro ⟨hr, hi, hki⟩
        by_cases he : r' = r
        · rw [if_pos he] at hki
          exact ⟨he, by omega⟩
        · rw [if_neg he] at hki
          omega
    · rw [List.getElem?_append_right (by omega), hhead, ih hnodup']
      simp only [List.mem_cons, logitStart]
      constructor
      · rintro ⟨hr, hi, hki⟩
        have hne : r' ≠ r := fun he => hnot (he ▸ hr)
        rw [if_neg hne]
        exact ⟨Or.inr hr, hi, by omega⟩
      · rintro ⟨hr, hi, hki⟩
        by_cases he : r' = r
        · subst he
          rw [if_pos rfl] at hki
          omega
        · rw [if_neg he] at hki
          exact ⟨hr.resolve_left fun h => he h.symm, hi, by omega⟩

/-- The worker finds the start of every structured request of its batch. -/
theorem lookup_logitIndices (r : RequestId) (hr : r ∈ structuredIds) (batchIndex offset : Nat) :
    (logitIndices numDrafts structuredIds batch batchIndex offset).lookup r =
      if r ∈ batch then some (batchIndex + offset + logitStart numDrafts batch r) else none := by
  induction batch generalizing batchIndex offset with
  | nil => rfl
  | cons r' rest ih =>
    simp only [logitIndices, logitStart, List.mem_cons]
    by_cases he : r' = r
    · subst he
      simp [hr]
    · have hne : (r == r') = false := by simpa using Ne.symm he
      have hskip : (if r' ∈ structuredIds then (r', batchIndex + offset) ::
            logitIndices numDrafts structuredIds rest (batchIndex + 1) (offset + numDrafts r')
          else logitIndices numDrafts structuredIds rest (batchIndex + 1)
            (offset + numDrafts r')).lookup r =
          (logitIndices numDrafts structuredIds rest (batchIndex + 1)
            (offset + numDrafts r')).lookup r := by
        split
        · rw [List.lookup_cons, hne]
        · rfl
      rw [hskip, ih, if_neg he]
      have hiff : (r = r' ∨ r ∈ rest) ↔ r ∈ rest := or_iff_right (Ne.symm he)
      simp only [hiff]
      split
      · congr 1
        omega
      · rfl

/-! ## Sorting the bitmask -/

/-- Copying rows of a request: they land behind the start of its logits. -/
theorem copyRows_eq_ok (grammarBitmask : List Row) (start : Nat) (offsets : List Nat)
    (l : SortLoop Row) (hsource : ∀ i ∈ offsets, l.cumulativeIndex + i < grammarBitmask.length)
    (htarget : ∀ i ∈ offsets, start + i < l.sortedBitmask.length) (hnodup : offsets.Nodup) :
    ∃ sorted, copyRows grammarBitmask start l offsets = .ok { l with
        sortedBitmask := sorted
        outIndices := l.outIndices ++ offsets.map (start + ·) } ∧
      sorted.length = l.sortedBitmask.length ∧
      (∀ i ∈ offsets, sorted[start + i]? = grammarBitmask[l.cumulativeIndex + i]?) ∧
      ∀ k, k ∉ offsets.map (start + ·) → sorted[k]? = l.sortedBitmask[k]? := by
  induction offsets generalizing l with
  | nil => exact ⟨l.sortedBitmask, by simp [copyRows], rfl, by simp, by simp⟩
  | cons i rest ih =>
    obtain ⟨hnot, hnodup'⟩ := List.nodup_cons.mp hnodup
    have hfrom : l.cumulativeIndex + i < grammarBitmask.length := hsource i (by simp)
    have hrow := List.getElem?_eq_getElem hfrom
    have hlt := htarget i (by simp)
    obtain ⟨sorted, hrun, hlength, hcopied, hkept⟩ := ih { l with
        sortedBitmask := l.sortedBitmask.set (start + i)
          grammarBitmask[l.cumulativeIndex + i]
        outIndices := l.outIndices ++ [start + i] }
      (fun j hj => hsource j (List.mem_cons_of_mem _ hj))
      (fun j hj => by simpa using htarget j (List.mem_cons_of_mem _ hj)) hnodup'
    refine ⟨sorted, ?_, by simpa using hlength, ?_, ?_⟩
    · simp only [copyRows, hrow]
      refine bind_ok_iff.mpr ⟨_, writeRow_eq_ok hlt _, ?_⟩
      rw [hrun]
      simp
    · intro j hj
      rcases List.mem_cons.mp hj with rfl | hj
      · have hout : start + j ∉ rest.map (start + ·) := by
          simpa using hnot
        rw [hkept _ hout, hrow]
        simp [hlt]
      · exact hcopied j hj
    · intro k hk
      rw [List.map_cons, List.mem_cons, not_or] at hk
      rw [hkept k hk.2, List.getElem?_set_ne (Ne.symm hk.1)]

/-- The rows of logits of the structured requests of a list that are in the batch. -/
def ownedRows (numDrafts : RequestId → Nat) (batch : List RequestId) (requestIds : List RequestId) :
    List Nat :=
  requestIds.flatMap fun r =>
    if r ∈ batch then (List.range (1 + numDrafts r)).map (logitStart numDrafts batch r + ·) else []

/-- The owned rows are those whose position belongs to a request of the list. -/
theorem mem_ownedRows (hnodup : batch.Nodup) (requestIds : List RequestId) (k : Nat) :
    k ∈ ownedRows numDrafts batch requestIds ↔
      ∃ r i, (slots numDrafts batch)[k]? = some (r, i) ∧ r ∈ requestIds := by
  simp only [ownedRows, List.mem_flatMap, getElem?_slots hnodup]
  constructor
  · rintro ⟨r, hr, hk⟩
    by_cases hb : r ∈ batch
    · rw [if_pos hb] at hk
      obtain ⟨i, hi, rfl⟩ := List.mem_map.mp hk
      exact ⟨r, i, ⟨hb, List.mem_range.mp hi, rfl⟩, hr⟩
    · rw [if_neg hb] at hk
      cases hk
  · rintro ⟨r, i, ⟨hb, hi, rfl⟩, hr⟩
    refine ⟨r, hr, ?_⟩
    rw [if_pos hb]
    exact List.mem_map.mpr ⟨i, List.mem_range.mpr hi, rfl⟩

/-- No row is owned twice. -/
theorem nodup_ownedRows (hnodup : batch.Nodup) {requestIds : List RequestId}
    (hids : requestIds.Nodup) : (ownedRows numDrafts batch requestIds).Nodup := by
  have hslot {r : RequestId} {k : Nat} (hk : k ∈ if r ∈ batch then
      (List.range (1 + numDrafts r)).map (logitStart numDrafts batch r + ·) else []) :
      ∃ i, (slots numDrafts batch)[k]? = some (r, i) := by
    by_cases hb : r ∈ batch
    · rw [if_pos hb] at hk
      obtain ⟨i, hi, rfl⟩ := List.mem_map.mp hk
      exact ⟨i, (getElem?_slots hnodup _ r i).mpr ⟨hb, List.mem_range.mp hi, rfl⟩⟩
    · rw [if_neg hb] at hk
      cases hk
  refine List.nodup_flatMap.mpr ⟨fun r _ => ?_, hids.imp fun {r r'} hne => ?_⟩
  · split
    · exact List.nodup_range.map fun i j hij => Nat.add_left_cancel hij
    · exact List.nodup_nil
  · intro k hk hk'
    obtain ⟨i, hi⟩ := hslot hk
    obtain ⟨i', hi'⟩ := hslot hk'
    rw [hi] at hi'
    exact hne (Prod.mk.inj (Option.some.inj hi')).1

/-- The sorted bitmask once some structured requests are worked off. -/
structure Sorted (numDrafts : RequestId → Nat) (batch : List RequestId)
    (rowsOf : RequestId → List Row) (requestIds : List RequestId) (l : SortLoop Row) : Prop where
  length : l.sortedBitmask.length = (slots numDrafts batch).length
  index : l.cumulativeIndex = (requestIds.flatMap rowsOf).length
  out : l.outIndices = ownedRows numDrafts batch requestIds
  rows : ∀ (k : Nat) (r : RequestId) (i : Nat), (slots numDrafts batch)[k]? = some (r, i) →
    r ∈ requestIds → l.sortedBitmask[k]? = (rowsOf r)[i]?

/-- A step of the loop is the copy, with the index moved on. -/
theorem sortStep_eq_ok {indices : List (RequestId × Nat)} {grammarBitmask : List Row}
    {l l' : SortLoop Row} {r : RequestId}
    (h : copyRequest numDrafts indices grammarBitmask l r = .ok l') :
    sortStep numDrafts indices grammarBitmask l r =
      .ok { l' with cumulativeIndex := l'.cumulativeIndex + (1 + numDrafts r) } :=
  bind_ok_iff.mpr ⟨l', h, rfl⟩

/-- One more structured request. -/
theorem Sorted.step {rowsOf : RequestId → List Row} {done rest : List RequestId} {r : RequestId}
    {l : SortLoop Row} (h : Sorted numDrafts batch rowsOf done l) (hnodup : batch.Nodup)
    (hids : structuredIds = done ++ r :: rest) (hnew : r ∉ done)
    (hrows : (rowsOf r).length = 1 + numDrafts r) :
    ∃ l', sortStep numDrafts (logitIndices numDrafts structuredIds batch 0 0)
        (structuredIds.flatMap rowsOf) l r = .ok l' ∧
      Sorted numDrafts batch rowsOf (done ++ [r]) l' := by
  have hmem : r ∈ structuredIds := by simp [hids]
  have hlookup : (logitIndices numDrafts structuredIds batch 0 0).lookup r = _ :=
    lookup_logitIndices r hmem 0 0
  rw [Nat.zero_add] at hlookup
  have hsource (i : Nat) (hi : i < 1 + numDrafts r) :
      (structuredIds.flatMap rowsOf)[l.cumulativeIndex + i]? = (rowsOf r)[i]? := by
    rw [h.index, hids, List.flatMap_append, List.getElem?_append_right (by omega),
      List.flatMap_cons, Nat.add_sub_cancel_left, List.getElem?_append_left (by omega)]
  have hindex : l.cumulativeIndex + (1 + numDrafts r) = ((done ++ [r]).flatMap rowsOf).length := by
    simp [h.index, hrows]
  by_cases hb : r ∈ batch
  · rw [if_pos hb] at hlookup
    have hslot (i : Nat) (hi : i < 1 + numDrafts r) :
        (slots numDrafts batch)[logitStart numDrafts batch r + i]? = some (r, i) :=
      (getElem?_slots hnodup _ r i).mpr ⟨hb, hi, rfl⟩
    obtain ⟨sorted, hrun, hlength, hcopied, hkept⟩ := copyRows_eq_ok
      (structuredIds.flatMap rowsOf) (logitStart numDrafts batch r)
      (List.range (1 + numDrafts r)) l
      (fun i hi => by
        have hi' := List.mem_range.mp hi
        have hsome := (hsource i hi').trans (List.getElem?_eq_getElem (hrows ▸ hi'))
        exact (List.getElem?_eq_some_iff.mp hsome).1)
      (fun i hi => by
        rw [h.length]
        exact (List.getElem?_eq_some_iff.mp (hslot i (List.mem_range.mp hi))).1) List.nodup_range
    have hcopy : copyRequest numDrafts (logitIndices numDrafts structuredIds batch 0 0)
        (structuredIds.flatMap rowsOf) l r = copyRows (structuredIds.flatMap rowsOf)
          (logitStart numDrafts batch r) l (List.range (1 + numDrafts r)) := by
      simp only [copyRequest, hlookup]
    refine ⟨_, sortStep_eq_ok (hcopy.trans hrun), hlength.trans h.length, hindex, ?_,
      fun k r' i hk hr' => ?_⟩
    · simp [ownedRows, h.out, hb]
    · obtain ⟨hb', hi, rfl⟩ := (getElem?_slots hnodup k r' i).mp hk
      by_cases he : r' = r
      · subst he
        exact (hcopied i (List.mem_range.mpr hi)).trans (hsource i hi)
      · have hdone : r' ∈ done := by simpa [he] using hr'
        have hout : logitStart numDrafts batch r' + i ∉
            (List.range (1 + numDrafts r)).map (logitStart numDrafts batch r + ·) := by
          intro hm
          obtain ⟨j, hj, hij⟩ := List.mem_map.mp hm
          have hsame := hslot j (List.mem_range.mp hj)
          rw [hij, hk] at hsame
          exact he (Prod.mk.inj (Option.some.inj hsame)).1
        exact (hkept _ hout).trans (h.rows _ r' i hk hdone)
  · rw [if_neg hb] at hlookup
    have hcopy : copyRequest numDrafts (logitIndices numDrafts structuredIds batch 0 0)
        (structuredIds.flatMap rowsOf) l r = .ok l := by
      simp only [copyRequest, hlookup]
    refine ⟨_, sortStep_eq_ok hcopy, h.length, hindex, ?_, fun k r' i hk hr' => ?_⟩
    · simp [ownedRows, h.out, hb]
    · have hb' := ((getElem?_slots hnodup k r' i).mp hk).1
      have hdone : r' ∈ done := by
        rcases List.mem_append.mp hr' with hd | hd
        · exact hd
        · exact absurd (List.mem_singleton.mp hd ▸ hb') hb
      exact h.rows k r' i hk hdone

/-- The loop over the structured requests sorts all of their rows. -/
theorem sortLoop_eq_ok {rowsOf : RequestId → List Row} (hnodup : batch.Nodup)
    (hids : structuredIds.Nodup) (hrows : ∀ r ∈ structuredIds, (rowsOf r).length = 1 + numDrafts r)
    (fullMask : Row) :
    ∃ l, structuredIds.foldlM (sortStep numDrafts (logitIndices numDrafts structuredIds batch 0 0)
        (structuredIds.flatMap rowsOf))
        { sortedBitmask := List.replicate (slots numDrafts batch).length fullMask } = .ok l ∧
      Sorted numDrafts batch rowsOf structuredIds l := by
  suffices hloop : ∀ (rest done : List RequestId) (l : SortLoop Row),
      structuredIds = done ++ rest → Sorted numDrafts batch rowsOf done l →
      ∃ l', rest.foldlM (sortStep numDrafts (logitIndices numDrafts structuredIds batch 0 0)
          (structuredIds.flatMap rowsOf)) l = .ok l' ∧
        Sorted numDrafts batch rowsOf structuredIds l' from
    hloop structuredIds [] _ rfl ⟨by simp, rfl, rfl, by simp⟩
  intro rest
  induction rest with
  | nil =>
    intro done l hsplit h
    rw [List.append_nil] at hsplit
    exact ⟨l, rfl, hsplit ▸ h⟩
  | cons r rest ih =>
    intro done l hsplit h
    have hnew : r ∉ done := by
      rw [hsplit, List.nodup_append] at hids
      exact fun hd => hids.2.2 r hd r (by simp) rfl
    obtain ⟨l₁, hstep, h₁⟩ := h.step hnodup hsplit hnew (hrows r (by simp [hsplit]))
    obtain ⟨l', hrest, h'⟩ := ih (done ++ [r]) l₁ (by simp [hsplit]) h₁
    exact ⟨l', by rw [List.foldlM_cons]; exact bind_ok_iff.mpr ⟨l₁, hstep, hrest⟩, h'⟩

/-- A list of different rows as long as the logits has all of them. -/
theorem mem_of_length_eq {rows : List Nat} {n : Nat} (hnodup : rows.Nodup)
    (hlt : ∀ k ∈ rows, k < n) (hlength : rows.length = n) {k : Nat} (hk : k < n) : k ∈ rows := by
  have hsubset : rows ⊆ List.range n := fun k hk => List.mem_range.mpr (hlt k hk)
  have hperm := (List.subperm_of_subset hnodup hsubset).perm_of_length_le (by simp [hlength])
  exact hperm.mem_iff.mpr (List.mem_range.mpr hk)

/-- The worker masks the logits of the structured requests with their own rows and leaves the
others alone. -/
theorem applyGrammarBitmask_eq_ok (rowsOf : RequestId → List Row) (hnodup : batch.Nodup)
    (hids : structuredIds.Nodup) (hrows : ∀ r ∈ structuredIds, (rowsOf r).length = 1 + numDrafts r)
    (mask : Row → L → L) (fullMask : Row) {logits : List L}
    (hlogits : logits.length = (slots numDrafts batch).length) :
    ∃ masked, applyGrammarBitmask mask fullMask numDrafts structuredIds
        (structuredIds.flatMap rowsOf) batch logits = .ok masked ∧
      ∀ (k : Nat) (r : RequestId) (i : Nat), (slots numDrafts batch)[k]? = some (r, i) →
        (r ∉ structuredIds → masked[k]? = logits[k]?) ∧
        (r ∈ structuredIds → ∀ row, (rowsOf r)[i]? = some row →
          masked[k]? = logits[k]?.map (mask row)) := by
  obtain ⟨l, hrun, h⟩ := sortLoop_eq_ok hnodup hids hrows fullMask
  have hmasked : applyGrammarBitmask mask fullMask numDrafts structuredIds
      (structuredIds.flatMap rowsOf) batch logits = .ok
        ((l.sortedBitmask.zip logits).zipIdx.map fun entry =>
          if l.outIndices.length = logits.length ∨ entry.2 ∈ l.outIndices then
            mask entry.1.1 entry.1.2 else entry.1.2) := by
    simp only [applyGrammarBitmask, hlogits]
    exact bind_ok_iff.mpr ⟨l, hrun, rfl⟩
  refine ⟨_, hmasked, fun k r i hk => ?_⟩
  have hlt : k < logits.length := by
    rw [hlogits]
    exact (List.getElem?_eq_some_iff.mp hk).1
  have hsorted : k < l.sortedBitmask.length := by rwa [h.length, ← hlogits]
  have hout : k ∈ l.outIndices ↔ r ∈ structuredIds := by
    rw [h.out, mem_ownedRows hnodup]
    constructor
    · rintro ⟨r', i', hk', hr'⟩
      rw [hk] at hk'
      exact (Prod.mk.inj (Option.some.inj hk')).1 ▸ hr'
    · exact fun hr => ⟨r, i, hk, hr⟩
  -- without indices every row belongs to a structured request
  have hskip : l.outIndices.length = logits.length ∨ k ∈ l.outIndices ↔ r ∈ structuredIds := by
    rw [← hout]
    refine or_iff_right_of_imp fun hlength => ?_
    refine mem_of_length_eq (h.out ▸ nodup_ownedRows hnodup hids) (fun j hj => ?_) hlength hlt
    obtain ⟨r', i', hj', -⟩ := (mem_ownedRows hnodup _ _).mp (h.out ▸ hj)
    rw [hlogits]
    exact (List.getElem?_eq_some_iff.mp hj').1
  have hentry : ((l.sortedBitmask.zip logits).zipIdx.map fun entry =>
      if l.outIndices.length = logits.length ∨ entry.2 ∈ l.outIndices then
        mask entry.1.1 entry.1.2 else entry.1.2)[k]? =
      some (if r ∈ structuredIds then mask l.sortedBitmask[k] logits[k] else logits[k]) := by
    have hzip : (l.sortedBitmask.zip logits)[k]? = some (l.sortedBitmask[k], logits[k]) :=
      List.getElem?_zip_eq_some.mpr
        ⟨List.getElem?_eq_getElem hsorted, List.getElem?_eq_getElem hlt⟩
    rw [List.getElem?_map, List.getElem?_zipIdx, hzip]
    simp only [Option.map_some, Nat.zero_add]
    exact congrArg some (if_congr hskip rfl rfl)
  rw [hentry, List.getElem?_eq_getElem hlt]
  refine ⟨fun hr => by rw [if_neg hr], fun hr row hrow => ?_⟩
  have hown := h.rows k r i hk hr
  rw [hrow, List.getElem?_eq_getElem hsorted] at hown
  rw [if_pos hr, Option.some.inj hown]
  rfl

/-! ## The mask of every row -/

/-- How the drafts of a request in charge of its grammar come about: validated and cut by the
scheduler, or validated and padded. -/
def Validated (backend : GrammarBackend G Row) (g : G) (drafts : List (Option TokenId)) : Prop :=
  ∃ specTokenIds n, drafts = (syncDrafts backend g specTokenIds).take n ∨
    drafts = paddedDrafts backend g n specTokenIds

variable {env : BitmaskEnv G Row} {requests : RequestId → Request H}
  {drafts : RequestId → List (Option TokenId)} {s : BitmaskState G Row}

/-- Such drafts are accepted where the mask is on, and nothing is asked where it is off. -/
theorem accepts_of_validated {g : G} (hlaw : env.backend.Lawful g) {applyBitmask : Bool}
    {drafts : List (Option TokenId)}
    (hvalid : applyBitmask = true → Validated env.backend g drafts) :
    env.Accepts applyBitmask g drafts := by
  cases applyBitmask with
  | false => exact accepts_of_off g drafts
  | true =>
    obtain ⟨specTokenIds, n, rfl | rfl⟩ := hvalid rfl
    · exact accepts_of_trimmed hlaw (trimmed_syncDrafts _ g specTokenIds n) true
    · exact accepts_of_trimmed hlaw (trimmed_paddedDrafts _ g n specTokenIds) true

/-- Deciding about the masks leaves the grammars alone. -/
theorem grammar_decideAll (requestIds : List RequestId) (r : RequestId) :
    (env.decideAll requests s requestIds r).grammar = (s.structured r).grammar := by
  unfold decideAll
  split
  · exact grammar_shouldFillBitmask _ _ _
  · rfl

/-- Without drafts both fills do the same. -/
theorem serialFill_parallelFill {threads : List FillTask → List FillTask}
    (hthreads : ∀ tasks, (threads tasks).Perm tasks) {requestIds : List RequestId}
    (hnodup : requestIds.Nodup)
    (hlaw : ∀ r ∈ requestIds, env.backend.Lawful (s.structured r).grammar)
    (hspace : requestIds.length ≤ s.bitmask.length) (hempty : ∀ r ∈ requestIds, drafts r = []) :
    ∃ serial parallel total, env.serialFill requests drafts requestIds s 0 = .ok (serial, total) ∧
      env.parallelFill threads requests requestIds s = .ok (parallel, total) ∧
      serial.bitmask.take total = parallel.bitmask.take total ∧
      serial.structured = parallel.structured := by
  have htotal : (requestIds.map fun r => 1 + (drafts r).length).sum = requestIds.length := by
    rw [List.map_congr_left fun r hr => by rw [hempty r hr]]
    simp
  have haccept (r : RequestId) (hr : r ∈ requestIds) : env.Accepts
      (env.decision requests s r).1 (s.structured r).grammar (drafts r) := by
    rw [hempty r hr]
    trivial
  obtain ⟨rows, hserial, hrows⟩ := serialFill_eq_ok hnodup 0 hlaw haccept
    (by rwa [Nat.zero_add, htotal])
  obtain ⟨rows', hparallel, hrows'⟩ := parallelFill_eq_ok requests hthreads hnodup hlaw hspace
  rw [Nat.zero_add, htotal] at hserial hrows
  refine ⟨_, _, _, hserial, hparallel, ?_, rfl⟩
  rw [hrows, hrows', List.take_zero, List.nil_append]
  exact List.flatMap_congr fun r hr => by rw [requestRows, requestRows, hempty r hr]

/-- The call of the manager: the bitmask has the rows of the requests in their order. -/
theorem grammarBitmask_eq_ok (requests : RequestId → Request H)
    {threads : List FillTask → List FillTask}
    (hthreads : ∀ tasks, (threads tasks).Perm tasks) {requestIds : List RequestId}
    (hnodup : requestIds.Nodup) (hseqs : requestIds.length ≤ env.maxNumSeqs)
    (hdrafts : ∀ r ∈ requestIds, (drafts r).length ≤ env.numSpeculativeTokens)
    (halloc : s.bitmask.length = env.maxNumSeqs * (1 + env.numSpeculativeTokens))
    (hlaw : ∀ r ∈ requestIds, env.backend.Lawful (s.structured r).grammar)
    (hvalid : ∀ r ∈ requestIds, (env.decision requests s r).1 = true →
      Validated env.backend (s.structured r).grammar (drafts r)) :
    ∃ out s', env.grammarBitmask threads requests drafts requestIds s = .ok (out, s') ∧
      (∀ r, (s'.structured r).grammar = (s.structured r).grammar) ∧
      ((requestIds = [] ∧ out = none) ∨
        out = some (requestIds.flatMap (env.requestRows requests drafts s))) := by
  unfold grammarBitmask
  split
  · rename_i hnil
    exact ⟨none, s, rfl, fun _ => rfl, Or.inl ⟨hnil, rfl⟩⟩
  · obtain ⟨rows, hrun, hrows⟩ := fill_eq_ok requests hthreads hnodup hlaw hseqs hdrafts halloc
      fun r hr => accepts_of_validated (hlaw r hr) (hvalid r hr)
    exact ⟨_, _, bind_ok_iff.mpr ⟨_, hrun, rfl⟩, grammar_decideAll requestIds,
      Or.inr (congrArg some hrows)⟩

/-- The rows of a structured request: what its grammar allows behind the drafts in front,
where the mask is on, and the full mask where it is off. -/
theorem getElem?_requestRows (requests : RequestId → Request H) {r : RequestId}
    (hlaw : env.backend.Lawful (s.structured r).grammar) {i : Nat}
    (hi : i < 1 + (drafts r).length) :
    ∃ row, (env.requestRows requests drafts s r)[i]? = some row ∧
      ((env.decision requests s r).1 = false → row = env.fullMask) ∧
      ((env.decision requests s r).1 = true → ∀ valid g, (drafts r).take i = valid.map some →
        env.backend.Advances (s.structured r).grammar valid g →
        (env.backend.isTerminated g).1 = false → row = env.backend.fillBitmask g) := by
  have hlt : i < (env.requestRows requests drafts s r).length := by simpa [requestRows] using hi
  refine ⟨_, List.getElem?_eq_getElem hlt, fun hoff => ?_,
    fun hon valid g htake hadvances hgoes => ?_⟩
  · have hrow := getElem?_draftRows_off env (s.structured r).grammar (drafts r) hi
    rw [← hoff] at hrow
    exact Option.some.inj ((List.getElem?_eq_getElem hlt).symm.trans hrow)
  · have hlength : valid.length = i := by
      have h := congrArg List.length htake
      rw [List.length_take, List.length_map] at h
      omega
    have hrow := getElem?_draftRows ((drafts r).drop i) hadvances hgoes
      (hlaw.isTerminated_pure valid g hadvances)
    rw [← htake, List.take_append_drop, hlength, ← hon] at hrow
    exact Option.some.inj ((List.getElem?_eq_getElem hlt).symm.trans hrow)

/-- Grammar masks reach the right rows of logits: the manager does not fail and leaves every
grammar where it was, both fills agree, and behind the worker's mask the row of a structured
request at a draft is masked by what its grammar allows there, or by the full mask where
nothing constrains the request, while the rows of the other requests are untouched. -/
theorem maskLogits_grammarBitmask (env : BitmaskEnv G Row) (requests : RequestId → Request H)
    (drafts : RequestId → List (Option TokenId)) (s : BitmaskState G Row)
    (structuredIds batch : List RequestId) (mask : Row → L → L) (logits : List L)
    {threads : List FillTask → List FillTask} (hthreads : ∀ tasks, (threads tasks).Perm tasks)
    (hnodup : structuredIds.Nodup) (hbatch : batch.Nodup)
    (hseqs : structuredIds.length ≤ env.maxNumSeqs)
    (hdrafts : ∀ r ∈ structuredIds, (drafts r).length ≤ env.numSpeculativeTokens)
    (halloc : s.bitmask.length = env.maxNumSeqs * (1 + env.numSpeculativeTokens))
    (hlaw : ∀ r ∈ structuredIds, env.backend.Lawful (s.structured r).grammar)
    (hvalid : ∀ r ∈ structuredIds, (env.decision requests s r).1 = true →
      Validated env.backend (s.structured r).grammar (drafts r))
    (hlogits : logits.length = (slots (fun r => (drafts r).length) batch).length) :
    (∃ out s' masked, env.grammarBitmask threads requests drafts structuredIds s = .ok (out, s') ∧
      (∀ r, (s'.structured r).grammar = (s.structured r).grammar) ∧
      maskLogits mask env.fullMask (fun r => (drafts r).length) structuredIds out batch logits =
        .ok masked ∧
      ∀ (k : Nat) (r : RequestId) (i : Nat),
        (slots (fun r => (drafts r).length) batch)[k]? = some (r, i) →
        (r ∉ structuredIds → masked[k]? = logits[k]?) ∧
        (r ∈ structuredIds → (env.decision requests s r).1 = false →
          masked[k]? = logits[k]?.map (mask env.fullMask)) ∧
        (r ∈ structuredIds → (env.decision requests s r).1 = true →
          ∀ valid g, (drafts r).take i = valid.map some →
          env.backend.Advances (s.structured r).grammar valid g →
          (env.backend.isTerminated g).1 = false →
          masked[k]? = logits[k]?.map (mask (env.backend.fillBitmask g)))) ∧
    (env.numSpeculativeTokens = 0 → ∃ serial parallel total,
      env.serialFill requests drafts structuredIds s 0 = .ok (serial, total) ∧
      env.parallelFill threads requests structuredIds s = .ok (parallel, total) ∧
      serial.bitmask.take total = parallel.bitmask.take total ∧
      serial.structured = parallel.structured) := by
  constructor
  · obtain ⟨out, s', hrun, hgrammar, hout⟩ := grammarBitmask_eq_ok requests hthreads hnodup
      hseqs hdrafts halloc hlaw hvalid
    rcases hout with ⟨rfl, rfl⟩ | rfl
    · exact ⟨none, s', logits, hrun, hgrammar, rfl, fun k r i _ =>
        ⟨fun _ => rfl, fun hr => absurd hr List.not_mem_nil, fun hr => absurd hr List.not_mem_nil⟩⟩
    · obtain ⟨masked, hmasked, hrows⟩ := applyGrammarBitmask_eq_ok
        (env.requestRows requests drafts s) hbatch hnodup
        (fun r _ => length_draftRows _ _ _) mask env.fullMask hlogits
      refine ⟨_, s', masked, hrun, hgrammar, hmasked, fun k r i hk => ?_⟩
      obtain ⟨-, hi, -⟩ := (getElem?_slots hbatch k r i).mp hk
      refine ⟨(hrows k r i hk).1, fun hr hoff => ?_, fun hr hon valid g htake hadvances hgoes => ?_⟩
      · obtain ⟨row, hrow, hfull, -⟩ := getElem?_requestRows requests (hlaw r hr) hi
        rw [← hfull hoff]
        exact (hrows k r i hk).2 hr row hrow
      · obtain ⟨row, hrow, -, hallowed⟩ :=
          getElem?_requestRows requests (hlaw r hr) hi
        rw [← hallowed hon valid g htake hadvances hgoes]
        exact (hrows k r i hk).2 hr row hrow
  · intro hnone
    refine serialFill_parallelFill hthreads hnodup hlaw ?_ fun r hr => ?_
    · rw [halloc, hnone]
      simpa using hseqs
    · have hle := hdrafts r hr
      rw [hnone] at hle
      exact List.length_eq_zero_iff.mp (Nat.le_zero.mp hle)

/-! ## Two structured requests and a plain one -/

/-- A matcher of up to three tokens below 5, whose rows tell what it has taken. -/
def shortMatcher : TokenMatcher (List TokenId) where
  acceptToken taken token := decide (taken.length < 3 ∧ token < 5)
  isTerminated taken := decide (taken.length = 3)
  nextTokenBitmask taken := taken

/-- Two drafts a request, without reasoner; the row 99 stands for the full mask. -/
def shortEnv : BitmaskEnv XgrammarGrammar (List TokenId) where
  backend := XgrammarGrammar.backend shortMatcher
  manager := { reasoner := none, enableInReasoning := false }
  fullMask := [99]
  maxNumSeqs := 4
  numSpeculativeTokens := 2

/-- The requests have taken one token and none. -/
def shortState : BitmaskState XgrammarGrammar (List TokenId) where
  structured r := { grammar := if r = 1 then { matcher := [3], numProcessedTokens := 1 } else {} }
  bitmask := List.replicate 12 []

/-- Request 1 has a draft that its grammar refuses, and padding in its place. -/
def shortDrafts (r : RequestId) : List (Option TokenId) :=
  if r = 1 then paddedDrafts shortEnv.backend { matcher := [3], numProcessedTokens := 1 } 2 [4, 9]
  else if r = 2 then (syncDrafts shortEnv.backend {} [1, 2]).take 1
  else [some 7]

/-- Every request of the example. -/
def shortRequest (r : RequestId) : Request FreeDigest :=
  Request.init freeEnv 16 {
    requestId := r, useStructuredOutput := true, promptTokenIds := some [1], maxTokens := 5 }

/-- The manager works on requests 1 and 2; the worker has 2, 3 and 1. The third row of
logits, which belongs to the plain request, is untouched, and the one behind the draft of
request 1 is masked by what its grammar allows there. -/
theorem shortEnv_masked : ∃ out s' masked,
    shortEnv.grammarBitmask List.reverse shortRequest shortDrafts [1, 2] shortState =
      .ok (out, s') ∧
    maskLogits (fun row _ => row) [99] (fun r => (shortDrafts r).length) [1, 2] out [2, 3, 1]
      (List.replicate 7 [0]) = .ok masked ∧
    masked[2]? = some [0] ∧ masked[5]? = some [3, 4] := by
  have hflag (r : RequestId) : shortEnv.backend.Lawful (shortState.structured r).grammar := by
    refine XgrammarGrammar.lawful shortMatcher ?_
    by_cases hr : r = 1 <;> simp [shortState, shortMatcher, hr]
  have hvalid (r : RequestId) (hr : r ∈ [1, 2]) :
      Validated shortEnv.backend (shortState.structured r).grammar (shortDrafts r) := by
    rcases List.mem_cons.mp hr with rfl | hr
    · exact ⟨[4, 9], 2, Or.inr rfl⟩
    · obtain rfl := List.mem_singleton.mp hr
      exact ⟨[1, 2], 1, Or.inl rfl⟩
  obtain ⟨⟨out, s', masked, hrun, -, hmasked, hrows⟩, -⟩ := maskLogits_grammarBitmask shortEnv
    shortRequest shortDrafts shortState [1, 2] [2, 3, 1] (fun row _ => row) (List.replicate 7 [0])
    (fun tasks => List.reverse_perm tasks) (by decide) (by decide) (by decide) (by decide) rfl
    (fun r _ => hflag r) (fun r hr _ => hvalid r hr) (by decide)
  refine ⟨out, s', masked, hrun, hmasked, ?_, ?_⟩
  · exact (hrows 2 3 0 (by decide)).1 (by decide)
  · exact (hrows 5 1 1 (by decide)).2.2 (by decide) rfl [4]
      { matcher := [3, 4], numProcessedTokens := 2 } (by decide)
      (.cons rfl rfl (.nil _)) rfl

/-! ## What changes a grammar, and what does not mask -/

/-- A guide that takes every token and is always in an accepting state. -/
def acceptingGuide : Guide (List TokenId) where
  acceptsTokens _ _ := true
  isFinished _ := true
  mask taken := taken

/-- The same settings with a grammar of outlines. -/
def outlinesEnv : BitmaskEnv OutlinesGrammar (List TokenId) where
  backend := OutlinesGrammar.backend acceptingGuide
  manager := { reasoner := none, enableInReasoning := false }
  fullMask := [99]
  maxNumSeqs := 4
  numSpeculativeTokens := 2

/-- The same settings with a reasoner. -/
def reasoningEnv : BitmaskEnv XgrammarGrammar (List TokenId) :=
  { shortEnv with
    manager := { reasoner := some (thinkingReasoner 8 9), enableInReasoning := false } }

/-- A grammar of outlines rolls back, and still a call of the manager changes its state, as it
reports the end one question late. While a request reasons, its row of logits is not masked by
what its grammar allows. -/
theorem grammarBitmask_delays_and_reasons :
    ((∀ (g : OutlinesGrammar) taken g', outlinesEnv.backend.Advances g taken g' →
        outlinesEnv.backend.rollback g' taken.length = g) ∧
      ∃ out s', outlinesEnv.grammarBitmask id shortRequest (fun _ => []) [1]
          { structured := fun _ => { grammar := {} }, bitmask := List.replicate 12 [] } =
            .ok (out, s') ∧ (s'.structured 1).grammar ≠ {}) ∧
    (reasoningEnv.backend.Lawful (shortState.structured 1).grammar ∧
      ∃ out s' masked, reasoningEnv.grammarBitmask id shortRequest (fun _ => []) [1] shortState =
          .ok (out, s') ∧
        maskLogits (fun row _ => row) [99] (fun _ => 0) [1] out [1] [[0]] = .ok masked ∧
        masked[0]? ≠
          some (reasoningEnv.backend.fillBitmask (shortState.structured 1).grammar)) := by
  refine ⟨⟨fun g taken g' h => ?_, _, _, rfl, by decide⟩,
    XgrammarGrammar.lawful shortMatcher rfl, _, _, _, rfl, rfl, by decide⟩
  have hstate : g' = { g with
      guide := g.guide ++ taken
      numProcessedTokens := g.numProcessedTokens + taken.length } := by
    induction h with
    | nil g => simp
    | cons _ haccept _ ih =>
      rw [ih, ← (Prod.mk.inj haccept).2]
      simp only [List.length_cons, List.length_nil, Nat.cast_add, Nat.cast_one, List.append_assoc,
        List.singleton_append, OutlinesGrammar.mk.injEq, true_and, and_true]
      omega
  rw [hstate]
  simp [outlinesEnv, OutlinesGrammar.backend]

end Vllm
