import Vllm.Library.Borders
import Vllm.Library.Checked

/-!
# The n-gram proposer

The proposer looks for the longest end of a sequence, within bounds, that also occurs earlier in
it, and proposes the tokens behind its earliest occurrence. It reads the sequence from behind and
runs through its prefixes with the longest border of each, which is capped at the longest n-gram.
-/

namespace Vllm.Sample

open Borders Checked Occurrence

/-- What stops a proposer. -/
inductive NgramError where
  | indexOutOfRange
  /-- `unfold` is asked for windows wider than the rows. -/
  | windowTooWide
  deriving DecidableEq, Repr

/-! ## The search -/

/-- The variables of the search. The candidate is shorter than the prefix, and so are the stored
borders. -/
structure ScanState where
  lps : List Nat
  longestNgram : Nat
  position : Nat
  prevLps : Nat
  i : Nat
  prevLps_lt : prevLps < i
  lps_le : ∀ (j v : Nat), lps[j]? = some v → v ≤ j

/-- The state before the search. -/
def ScanState.initial (maxNgram : Nat) : ScanState where
  lps := List.replicate maxNgram 0
  longestNgram := 0
  position := 0
  prevLps := 0
  i := 1
  prevLps_lt := Nat.one_pos
  lps_le j v h := by
    rw [List.getElem?_replicate] at h
    split at h
    · obtain rfl := Option.some.inj h
      exact Nat.zero_le j
    · cases h

/-- `lps` with the border of the current prefix, which is stored for the first prefixes. -/
def ScanState.stored (s : ScanState) (maxNgram : Nat) : List Nat :=
  if s.i < maxNgram then s.lps.set s.i (s.prevLps + 1) else s.lps

/-- The stored borders are shorter than their prefixes. -/
theorem ScanState.stored_le (s : ScanState) (maxNgram : Nat) :
    ∀ (j v : Nat), (s.stored maxNgram)[j]? = some v → v ≤ j := by
  intro j v h
  have hlt := s.prevLps_lt
  unfold ScanState.stored at h
  split at h
  · rw [List.getElem?_set] at h
    split at h
    · split at h
      · have := Option.some.inj h
        omega
      · cases h
    · exact s.lps_le j v h
  · exact s.lps_le j v h

/-- The tokens match. -/
def ScanState.matched (s : ScanState) (maxNgram : Nat) : Except NgramError ScanState :=
  let longer := s.longestNgram ≤ s.prevLps + 1
  let found : ScanState :=
    { lps := s.stored maxNgram
      -- the last position wins, as it is the earliest one in the original tokens
      longestNgram := if longer then s.prevLps + 1 else s.longestNgram
      position := if longer then s.i else s.position
      prevLps := s.prevLps + 1
      i := s.i + 1
      prevLps_lt := Nat.succ_lt_succ s.prevLps_lt
      lps_le := s.stored_le maxNgram }
  if hcap : s.prevLps + 1 = maxNgram then
    match h : (s.stored maxNgram)[maxNgram - 1]? with
    | some v => .ok { found with
        prevLps := v
        prevLps_lt := by
          have hle := s.stored_le maxNgram _ v h
          have hlt := s.prevLps_lt
          show v < s.i + 1
          omega }
    | none => .error .indexOutOfRange
  else .ok found

/-- The tokens do not match: the second-longest border is tried. -/
def ScanState.fallBack (s : ScanState) : Except NgramError ScanState :=
  match h : s.lps[s.prevLps - 1]? with
  | some v => .ok { s with
      prevLps := v
      prevLps_lt := by
        have hle := s.lps_le _ v h
        have hlt := s.prevLps_lt
        omega }
  | none => .error .indexOutOfRange

/-- The tokens do not match, and there is no border left. -/
def ScanState.passed (s : ScanState) : ScanState where
  lps := s.lps
  longestNgram := s.longestNgram
  position := s.position
  prevLps := s.prevLps
  i := s.i + 1
  prevLps_lt := Nat.lt_succ_of_lt s.prevLps_lt
  lps_le := s.lps_le

/-- One turn of the loop. -/
def scanStep (tokens : List Int) (maxNgram : Nat) (s : ScanState) : Except NgramError ScanState :=
  match tokens[s.prevLps]?, tokens[s.i]? with
  | some a, some b =>
    if a = b then s.matched maxNgram
    else if s.prevLps ≠ 0 then s.fallBack
    else .ok s.passed
  | _, _ => .error .indexOutOfRange

/-- A match advances the prefix. -/
theorem ScanState.matched_spec {s s' : ScanState} {maxNgram : Nat}
    (h : s.matched maxNgram = .ok s') :
    s'.lps = s.stored maxNgram ∧ s'.i = s.i + 1 ∧
      s'.longestNgram =
        (if s.longestNgram ≤ s.prevLps + 1 then s.prevLps + 1 else s.longestNgram) ∧
      s'.position = (if s.longestNgram ≤ s.prevLps + 1 then s.i else s.position) ∧
      (s.prevLps + 1 = maxNgram ∧ s'.lps[maxNgram - 1]? = some s'.prevLps ∨
        s.prevLps + 1 ≠ maxNgram ∧ s'.prevLps = s.prevLps + 1) := by
  unfold ScanState.matched at h
  dsimp only at h
  split at h
  next hcap =>
    split at h
    next v hv =>
      cases h
      exact ⟨rfl, rfl, rfl, rfl, .inl ⟨hcap, hv⟩⟩
    next => cases h
  next hcap =>
    cases h
    exact ⟨rfl, rfl, rfl, rfl, .inr ⟨hcap, rfl⟩⟩

/-- Falling back changes the candidate only. -/
theorem ScanState.fallBack_spec {s s' : ScanState} (h : s.fallBack = .ok s') :
    s'.lps = s.lps ∧ s'.i = s.i ∧ s'.longestNgram = s.longestNgram ∧
      s'.position = s.position ∧ s.lps[s.prevLps - 1]? = some s'.prevLps := by
  unfold ScanState.fallBack at h
  split at h
  next v hv =>
    cases h
    exact ⟨rfl, rfl, rfl, rfl, hv⟩
  next => cases h

/-- Each turn uses up some of twice the tokens left and the candidate. -/
private theorem scanStep_decreases {tokens : List Int} {maxNgram : Nat} {s s' : ScanState}
    (hi : s.i < tokens.length) (h : scanStep tokens maxNgram s = .ok s') :
    2 * (tokens.length - s'.i) + s'.prevLps < 2 * (tokens.length - s.i) + s.prevLps := by
  unfold scanStep at h
  split at h
  next a b _ _ =>
    split at h
    · obtain ⟨-, hi', -, -, ⟨hcap, hv⟩ | ⟨-, hv⟩⟩ := ScanState.matched_spec h
      · have := s'.lps_le _ _ hv
        omega
      · omega
    · split at h
      next hpos =>
        obtain ⟨-, hi', -, -, hv⟩ := ScanState.fallBack_spec h
        have := s.lps_le _ _ hv
        omega
      next =>
        cases h
        show 2 * (tokens.length - (s.i + 1)) + s.prevLps < _
        omega
  next => cases h

/-- The loop. -/
def scan (tokens : List Int) (maxNgram : Nat) (s : ScanState) : Except NgramError ScanState :=
  if hi : s.i < tokens.length then
    match h : scanStep tokens maxNgram s with
    | .ok s' =>
      have := scanStep_decreases hi h
      scan tokens maxNgram s'
    | .error e => .error e
  else .ok s
termination_by 2 * (tokens.length - s.i) + s.prevLps

/-- `_find_longest_matched_ngram_and_propose_tokens`. -/
def findLongestMatchedNgramAndProposeTokens (originTokens : List Int) (minNgram maxNgram : Nat)
    (maxModelLen k : Int) : Except NgramError (List Int) :=
  let totalToken := originTokens.length
  if totalToken < minNgram then .ok []
  else
    let k := min k (maxModelLen - totalToken)
    if k ≤ 0 then .ok []
    else do
      let s ← scan originTokens.reverse maxNgram (ScanState.initial maxNgram)
      if s.longestNgram < minNgram then pure []
      else
        let startPosition := totalToken - 1 - s.position + s.longestNgram
        let k := min k (totalToken - startPosition)
        pure ((originTokens.drop startPosition).take k.toNat)

/-! ## The borders found -/

section

variable {tokens : List Int} {maxNgram : Nat} {s s' : ScanState}

/-- What the search knows of the prefixes it has passed. The prefix of length `p` ends in position
`p - 1`. -/
structure Scanned (tokens : List Int) (maxNgram : Nat) (s : ScanState) : Prop where
  i_le : s.i ≤ tokens.length
  length_eq : s.lps.length = maxNgram
  /-- The borders of the first prefixes are stored. -/
  stored : ∀ j < maxNgram, j < s.i → ∃ v, s.lps[j]? = some v ∧ IsLongest tokens v (j + 1)
  unset : ∀ j < maxNgram, s.i ≤ j → s.lps[j]? = some 0
  candidate : Candidate tokens maxNgram s.prevLps s.i
  found : s.longestNgram ≠ 0 → s.position < s.i ∧
    IsBorder tokens s.longestNgram (s.position + 1)
  longest_le : s.longestNgram ≤ maxNgram
  /-- What is found is the longest, and the last one of its length. -/
  best : ∀ p ≤ s.i, ∀ v ≤ maxNgram, IsBorder tokens v p → v ≠ 0 →
    v < s.longestNgram ∨ v = s.longestNgram ∧ p ≤ s.position + 1

/-- Before the search only the first prefix is passed. -/
theorem scanned_initial (hmax : 0 < maxNgram) (hpos : 0 < tokens.length) :
    Scanned tokens maxNgram (ScanState.initial maxNgram) where
  i_le := hpos
  length_eq := List.length_replicate
  stored j hj hi := by
    obtain rfl : j = 0 := Nat.lt_one_iff.mp hi
    refine ⟨0, List.getElem?_replicate_of_lt hj, isBorder_zero Nat.one_pos hpos, fun u hu => ?_⟩
    have := hu.lt
    omega
  unset j hj _ := List.getElem?_replicate_of_lt hj
  candidate := candidate_one hmax hpos
  found h := absurd rfl h
  longest_le := Nat.zero_le _
  best p hp v _ hv hne := by
    have hlt := hv.lt
    have hp' : p ≤ 1 := hp
    omega

/-- Storing the border of the current prefix. -/
theorem Scanned.stored_getElem? (h : Scanned tokens maxNgram s) {j : Nat} (hj : j < maxNgram) :
    (s.stored maxNgram)[j]? = if j = s.i then some (s.prevLps + 1) else s.lps[j]? := by
  unfold ScanState.stored
  have hlen := h.length_eq
  split
  · rw [List.getElem?_set]
    by_cases hji : s.i = j
    · rw [if_pos hji, if_pos (by omega), if_pos hji.symm]
    · rw [if_neg hji, if_neg (Ne.symm hji)]
  · rw [if_neg (by omega)]

/-- A match. -/
theorem Scanned.matched (h : Scanned tokens maxNgram s) (hi : s.i < tokens.length)
    (heq : tokens[s.prevLps]? = tokens[s.i]?) (hstep : s.matched maxNgram = .ok s') :
    Scanned tokens maxNgram s' := by
  obtain ⟨hlps, hi', hlongest, hposition, hprev⟩ := ScanState.matched_spec hstep
  obtain ⟨hborder, hmost⟩ := h.candidate.extended hi heq
  have hcap := h.candidate.lt_cap
  have hprevLt := s.prevLps_lt
  have hstored : ∀ j < maxNgram, j < s.i + 1 →
      ∃ v, s'.lps[j]? = some v ∧ IsLongest tokens v (j + 1) := by
    intro j hj hji
    rw [hlps, h.stored_getElem? hj]
    by_cases hcur : j = s.i
    · subst hcur
      rw [if_pos rfl]
      exact ⟨_, rfl, hborder, fun u hu => hmost u (by have := hu.lt; omega) hu⟩
    · rw [if_neg hcur]
      exact h.stored j hj (by omega)
  refine ⟨by omega, ?_, fun j hj hji => hstored j hj (by omega), fun j hj hji => ?_, ?_, ?_, ?_,
    ?_⟩
  · rw [hlps, ScanState.stored]
    split
    · rw [List.length_set, h.length_eq]
    · exact h.length_eq
  · rw [hlps, h.stored_getElem? hj, if_neg (by omega)]
    exact h.unset j hj (by omega)
  · rw [hi']
    rcases hprev with ⟨hfull, hv⟩ | ⟨hfull, hv⟩
    · obtain ⟨v, hv', hlong⟩ := hstored (maxNgram - 1) (by omega) (by omega)
      rw [hv] at hv'
      obtain rfl := Option.some.inj hv'
      rw [show maxNgram - 1 + 1 = maxNgram by omega] at hlong
      rw [hfull] at hborder
      exact candidate_of_cap hborder hlong
    · rw [hv]
      exact candidate_of_longest hborder (by omega) hmost
  · rw [hlongest, hposition, hi']
    intro hne
    split
    · exact ⟨Nat.lt_succ_self _, hborder⟩
    next hshort =>
      rw [if_neg hshort] at hne
      obtain ⟨hlt, hold⟩ := h.found hne
      exact ⟨Nat.lt_succ_of_lt hlt, hold⟩
  · rw [hlongest]
    have := h.longest_le
    split <;> omega
  · rw [hlongest, hposition, hi']
    intro p hp v hv hvp hne
    rcases Nat.le_succ_iff.mp hp with hp | rfl
    · have hold := h.best p hp v hv hvp hne
      split
      · omega
      · exact hold
    · have hle := hmost v hv hvp
      split <;> omega

/-- Falling back. -/
theorem Scanned.fallBack (h : Scanned tokens maxNgram s)
    (hne : tokens[s.prevLps]? ≠ tokens[s.i]?) (hpos : s.prevLps ≠ 0)
    (hstep : s.fallBack = .ok s') : Scanned tokens maxNgram s' := by
  obtain ⟨hlps, hi', hlongest, hposition, hv⟩ := ScanState.fallBack_spec hstep
  have hcap := h.candidate.lt_cap
  have hlt := s.prevLps_lt
  obtain ⟨v, hv', hlong⟩ := h.stored (s.prevLps - 1) (by omega) (by omega)
  rw [hv] at hv'
  obtain rfl := Option.some.inj hv'
  rw [show s.prevLps - 1 + 1 = s.prevLps by omega] at hlong
  refine ⟨?_, ?_, ?_, ?_, ?_, ?_, ?_, ?_⟩
  · rw [hi']
    exact h.i_le
  · rw [hlps]
    exact h.length_eq
  · rw [hlps, hi']
    exact h.stored
  · rw [hlps, hi']
    exact h.unset
  · rw [hi']
    exact h.candidate.fallBack hne hlong
  · rw [hlongest, hposition, hi']
    exact h.found
  · rw [hlongest]
    exact h.longest_le
  · rw [hlongest, hposition, hi']
    exact h.best

/-- Passing a prefix that has no border. -/
theorem Scanned.passed (h : Scanned tokens maxNgram s) (hi : s.i < tokens.length)
    (hne : tokens[s.prevLps]? ≠ tokens[s.i]?) (hzero : s.prevLps = 0) :
    Scanned tokens maxNgram s.passed := by
  have hcand := h.candidate
  have hcap := hcand.lt_cap
  rw [hzero] at hcand hne hcap
  have hnone := hcand.exhausted hne
  have hborder : IsBorder tokens 0 (s.i + 1) := isBorder_zero (Nat.succ_pos _) hi
  refine ⟨hi, h.length_eq, fun j hj hji => ?_, fun j hj hji => h.unset j hj ?_, ?_,
    fun hfound => ?_, h.longest_le, fun p hp v hv hvp hpos => ?_⟩
  · have hji' : j < s.i + 1 := hji
    rcases Nat.lt_succ_iff_lt_or_eq.mp hji' with hji | rfl
    · exact h.stored j hj hji
    · refine ⟨0, h.unset s.i hj le_rfl, hborder, fun u hu => ?_⟩
      have hlt := hu.lt
      exact (hnone u (by omega) hu).le
  · have hji' : s.i + 1 ≤ j := hji
    omega
  · show Candidate tokens maxNgram s.prevLps (s.i + 1)
    rw [hzero]
    exact candidate_of_longest hborder hcap fun u hu hborder => (hnone u hu hborder).le
  · obtain ⟨hlt, hold⟩ := h.found hfound
    exact ⟨Nat.lt_succ_of_lt hlt, hold⟩
  · have hp' : p ≤ s.i + 1 := hp
    rcases Nat.le_succ_iff.mp hp' with hp | rfl
    · exact h.best p hp v hv hvp hpos
    · exact absurd (hnone v hv hvp) hpos

/-- The stored borders that are read are there. -/
theorem Scanned.step_ok (h : Scanned tokens maxNgram s) (hi : s.i < tokens.length) :
    ∃ s', scanStep tokens maxNgram s = .ok s' := by
  have hcap := h.candidate.lt_cap
  have hlt := s.prevLps_lt
  have hlen := h.length_eq
  unfold scanStep
  rw [List.getElem?_eq_getElem (show s.prevLps < tokens.length by omega),
    List.getElem?_eq_getElem hi]
  dsimp only
  split
  · unfold ScanState.matched
    dsimp only
    split
    · split
      · exact ⟨_, rfl⟩
      next hnone =>
        rw [h.stored_getElem? (show maxNgram - 1 < maxNgram by omega)] at hnone
        split at hnone
        · cases hnone
        · rw [List.getElem?_eq_none_iff] at hnone
          omega
    · exact ⟨_, rfl⟩
  · split
    · unfold ScanState.fallBack
      split
      · exact ⟨_, rfl⟩
      next hnone =>
        rw [List.getElem?_eq_none_iff] at hnone
        omega
    · exact ⟨_, rfl⟩

/-- One turn keeps what is known. -/
theorem Scanned.step (h : Scanned tokens maxNgram s) (hi : s.i < tokens.length)
    (hstep : scanStep tokens maxNgram s = .ok s') : Scanned tokens maxNgram s' := by
  unfold scanStep at hstep
  split at hstep
  next a b ha hb =>
    split at hstep
    next hab =>
      subst hab
      exact h.matched hi (ha.trans hb.symm) hstep
    next hab =>
      have hne : tokens[s.prevLps]? ≠ tokens[s.i]? := by
        rw [ha, hb]
        exact fun hsome => hab (Option.some.inj hsome)
      split at hstep
      next hpos => exact h.fallBack hne hpos hstep
      next hzero =>
        cases hstep
        exact h.passed hi hne (not_not.mp hzero)
  next => cases hstep

/-- The search ends, and has then passed all prefixes. -/
theorem Scanned.run (h : Scanned tokens maxNgram s) :
    ∃ s', scan tokens maxNgram s = .ok s' ∧ Scanned tokens maxNgram s' ∧
      s'.i = tokens.length := by
  induction s using scan.induct tokens maxNgram with
  | case1 s hi s' hstep _ ih =>
    obtain ⟨last, hlast, hscanned⟩ := ih (h.step hi hstep)
    refine ⟨last, ?_, hscanned⟩
    rw [scan, dif_pos hi]
    split
    next s'' hstep' =>
      rw [hstep] at hstep'
      cases hstep'
      exact hlast
    next e hstep' =>
      rw [hstep] at hstep'
      cases hstep'
  | case2 s hi e hstep =>
    obtain ⟨s', hok⟩ := h.step_ok hi
    rw [hstep] at hok
    cases hok
  | case3 s hi =>
    refine ⟨s, ?_, h, ?_⟩
    · rw [scan, dif_neg hi]
    · have := h.i_le
      omega

end

end Vllm.Sample
