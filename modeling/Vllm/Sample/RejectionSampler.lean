import Mathlib.Algebra.Order.Field.Basic

/-!
# The rejection sampler

The kernels that verify draft tokens, one program instance at a time. Pointers are
moved to the slice of the instance's request, so that a load is a function of the
position, and the output row is a list. Probabilities are taken from an ordered field.
-/

namespace Vllm

/-- What a row holds where nothing was emitted. -/
def PLACEHOLDER_TOKEN_ID : Int := -1

/-- The tile size of the recovered-token kernel. -/
def BLOCK_SIZE : Nat := 8192

/-! ## Verifying one request

Both kernels walk over the draft tokens and store one token at each position, up to the
first rejection; without any, the bonus token follows. -/

/-- One round of a verification loop, on the output row and the flag `rejected`. -/
def verifyRound (token : Nat → Int) (accepts : Nat → Bool) (s : List Int × Bool) (pos : Nat) :
    List Int × Bool :=
  if s.2 then s else (s.1.set pos (token pos), !accepts pos)

/-- The verification loop over the first `n` positions. -/
def verifyLoop (token : Nat → Int) (accepts : Nat → Bool) (row : List Int) (n : Nat) :
    List Int × Bool :=
  (List.range n).foldl (verifyRound token accepts) (row, false)

/-- The loop over all draft tokens, and the bonus token if all of them are accepted. -/
def verify (token : Nat → Int) (accepts : Nat → Bool) (numDraftTokens : Nat) (bonusTokenId : Int)
    (row : List Int) : List Int :=
  let (row, rejected) := verifyLoop token accepts row numDraftTokens
  if rejected then row else row.set numDraftTokens bonusTokenId

/-! ## Greedy requests -/

/-- The loads of `rejection_greedy_sample_kernel`. -/
structure GreedyInputs where
  numDraftTokens : Nat
  draftTokenIds : Nat → Nat
  targetArgmax : Nat → Nat
  bonusTokenId : Nat

/-- `rejection_greedy_sample_kernel`; `isGreedy` is `none` when all requests are greedy. The
target's token is stored in any case. -/
def rejectionGreedySampleKernel (x : GreedyInputs) (isGreedy : Option Bool) (row : List Int) :
    List Int :=
  if isGreedy.getD true then
    verify (fun pos => x.targetArgmax pos) (fun pos => x.draftTokenIds pos = x.targetArgmax pos)
      x.numDraftTokens x.bonusTokenId row
  else row

/-! ## Random requests -/

variable {K : Type} [Field K] [LinearOrder K]

/-- The loads of `rejection_random_sample_kernel`. Without draft probabilities
(`NO_DRAFT_PROBS`) there is no table of them. -/
structure RandomInputs (K : Type) where
  numDraftTokens : Nat
  draftTokenIds : Nat → Nat
  draftProbs : Option (Nat → Nat → K)
  targetProbs : Nat → Nat → K
  bonusTokenId : Nat
  recoveredTokenIds : Nat → Nat
  uniformProbs : Nat → K

/-- The acceptance test of a draft token against a uniform number. A draft probability of
zero rejects. -/
def acceptsDraft (draftProb targetProb uniformProb : K) : Prop :=
  0 < draftProb ∧ uniformProb ≤ targetProb / draftProb

instance (draftProb targetProb uniformProb : K) :
    Decidable (acceptsDraft draftProb targetProb uniformProb) :=
  inferInstanceAs (Decidable (_ ∧ _))

namespace RandomInputs

/-- The draft probability that the test reads. -/
def draftProb (x : RandomInputs K) (pos : Nat) : K :=
  match x.draftProbs with
  | none => 1
  | some probs => probs pos (x.draftTokenIds pos)

/-- The test at one position. -/
def Accepts (x : RandomInputs K) (pos : Nat) : Prop :=
  acceptsDraft (x.draftProb pos) (x.targetProbs pos (x.draftTokenIds pos)) (x.uniformProbs pos)

instance (x : RandomInputs K) (pos : Nat) : Decidable (x.Accepts pos) :=
  inferInstanceAs (Decidable (acceptsDraft _ _ _))

/-- The token stored at one position: the draft token or the recovered one. -/
def token (x : RandomInputs K) (pos : Nat) : Nat :=
  if x.Accepts pos then x.draftTokenIds pos else x.recoveredTokenIds pos

end RandomInputs

/-- `rejection_random_sample_kernel`. -/
def rejectionRandomSampleKernel (x : RandomInputs K) (isGreedy : Bool) (row : List Int) :
    List Int :=
  if isGreedy then row
  else verify (fun pos => x.token pos) (fun pos => x.Accepts pos) x.numDraftTokens x.bonusTokenId
    row

/-! ## Recovered tokens -/

/-- The weight of a token among the recovered ones. Without draft probabilities the draft
token is left out. -/
def recoveredProb (draftTokenId : Nat) (draftProbs : Option (Nat → K)) (targetProbs : Nat → K)
    (v : Nat) : K :=
  match draftProbs with
  | none => if v ≠ draftTokenId then targetProbs v else 0
  | some probs => max (targetProbs v - probs v) 0

/-- `tl.max` with indices over the first `n + 1` scores: the leftmost maximum. -/
def tileMax (score : Nat → K) : Nat → K × Nat
  | 0 => (score 0, 0)
  | n + 1 =>
    if (tileMax score n).1 < score (n + 1) then (score (n + 1), n + 1) else tileMax score n

/-- The score of a token in the race; masked loads yield zero. -/
def raceScore (vocabSize : Nat) (prob invQ : Nat → K) (v : Nat) : K :=
  if v < vocabSize then prob v * invQ v else 0

/-- One tile of `sample_recovered_tokens_kernel`; `none` stands for `-inf`. -/
def recoveredTile (blockSize : Nat) (score : Nat → K) (s : Option K × Nat) (v : Nat) :
    Option K × Nat :=
  let (localMax, localId) := tileMax (fun offset => score (v + offset)) (blockSize - 1)
  if s.1.all (· < localMax) then (some localMax, v + localId) else s

/-- The number of tiles that cover the vocabulary. -/
def numTiles (blockSize vocabSize : Nat) : Nat := (vocabSize + blockSize - 1) / blockSize

/-- The exponential race of `sample_recovered_tokens_kernel`: the token with the largest
weight times reciprocal of its exponential number, tile by tile. -/
def recoveredId (blockSize vocabSize : Nat) (prob invQ : Nat → K) : Nat :=
  ((List.range (numTiles blockSize vocabSize)).foldl
    (fun s tile => recoveredTile blockSize (raceScore vocabSize prob invQ) s (tile * blockSize))
    (none, 0)).2

/-- `sample_recovered_tokens_kernel` at one position. -/
def sampleRecoveredTokensKernel (vocabSize draftTokenId : Nat) (draftProbs : Option (Nat → K))
    (targetProbs invQ : Nat → K) : Nat :=
  recoveredId BLOCK_SIZE vocabSize (recoveredProb draftTokenId draftProbs targetProbs) invQ

section Race

omit [Field K]

/-- An index with the largest score up to a bound, and the first such. -/
structure IsLeftmostMax (score : Nat → K) (n i : Nat) : Prop where
  lt : i < n
  le : ∀ j < n, score j ≤ score i
  first : ∀ j < i, score j < score i

private theorem tileMax_spec (score : Nat → K) (n : Nat) :
    IsLeftmostMax score (n + 1) (tileMax score n).2 ∧
      (tileMax score n).1 = score (tileMax score n).2 := by
  induction n with
  | zero => exact ⟨⟨Nat.one_pos, fun j hj => by simp [tileMax, Nat.lt_one_iff.mp hj],
      fun j hj => absurd hj (Nat.not_lt_zero j)⟩, rfl⟩
  | succ n ih =>
    obtain ⟨⟨hlt, hle, hfirst⟩, hval⟩ := ih
    rw [tileMax]
    split
    · rename_i hgt
      rw [hval] at hgt
      refine ⟨⟨Nat.lt_succ_self _, fun j hj => ?_, fun j hj => ?_⟩, rfl⟩
      · rcases Nat.lt_succ_iff_lt_or_eq.mp hj with h | rfl
        · exact (hle j h).trans hgt.le
        · exact le_rfl
      · exact (hle j hj).trans_lt hgt
    · rename_i hgt
      rw [hval] at hgt
      refine ⟨⟨hlt.trans (Nat.lt_succ_self _), fun j hj => ?_, hfirst⟩, hval⟩
      rcases Nat.lt_succ_iff_lt_or_eq.mp hj with h | rfl
      · exact hle j h
      · exact not_lt.mp hgt

/-- After some tiles the race holds the first largest score of all tokens in them. -/
theorem recoveredTiles_spec {blockSize : Nat} (hblock : 0 < blockSize) (score : Nat → K) (n : Nat)
    {s : Option K × Nat} (hs : (List.range (n + 1)).foldl
      (fun s tile => recoveredTile blockSize score s (tile * blockSize)) (none, 0) = s) :
    IsLeftmostMax score ((n + 1) * blockSize) s.2 ∧ s.1 = some (score s.2) := by
  have htile (v : Nat) := tileMax_spec (fun offset => score (v + offset)) (blockSize - 1)
  rw [Nat.sub_add_cancel hblock] at htile
  induction n generalizing s with
  | zero =>
    obtain ⟨⟨hlt, hle, hfirst⟩, hval⟩ := htile 0
    simp only [Nat.zero_add, List.range_one, List.foldl_cons, List.foldl_nil, Nat.zero_mul,
      recoveredTile, Option.all_none, if_true] at hs hlt hle hfirst hval
    subst hs
    exact ⟨⟨by omega, fun j hj => hle j (by omega), hfirst⟩, congrArg some hval⟩
  | succ n ih =>
    rw [List.range_succ, List.foldl_append] at hs
    obtain ⟨t, ht⟩ : ∃ t, (List.range (n + 1)).foldl
      (fun s tile => recoveredTile blockSize score s (tile * blockSize)) (none, 0) = t := ⟨_, rfl⟩
    rw [ht] at hs
    obtain ⟨⟨hlt, hle, hfirst⟩, hval⟩ := ih ht
    obtain ⟨⟨hlt', hle', hfirst'⟩, hval'⟩ := htile ((n + 1) * blockSize)
    simp only [List.foldl_cons, List.foldl_nil, recoveredTile, hval, Option.all_some,
      decide_eq_true_eq] at hs
    have hsize : (n + 1 + 1) * blockSize = (n + 1) * blockSize + blockSize := by
      rw [Nat.add_mul (n + 1), Nat.one_mul]
    rw [hsize]
    generalize (n + 1) * blockSize = size at *
    generalize tileMax (fun offset => score (size + offset)) (blockSize - 1) = r at *
    rw [hval'] at hs
    -- a token of the tiles is one of the earlier ones or has an offset
    have hsplit (j : Nat) (hj : size ≤ j) : ∃ k, j = size + k := ⟨j - size, by omega⟩
    split at hs
    · rename_i hgt
      subst hs
      refine ⟨⟨by simp only; omega, fun j hj => ?_, fun j hj => ?_⟩, rfl⟩
      · by_cases h : j < size
        · exact (hle j h).trans hgt.le
        · obtain ⟨k, rfl⟩ := hsplit j (not_lt.mp h)
          exact hle' k (by omega)
      · by_cases h : j < size
        · exact (hle j h).trans_lt hgt
        · obtain ⟨k, rfl⟩ := hsplit j (not_lt.mp h)
          exact hfirst' k (by simpa using hj)
    · rename_i hgt
      subst hs
      refine ⟨⟨by omega, fun j hj => ?_, hfirst⟩, hval⟩
      by_cases h : j < size
      · exact hle j h
      · obtain ⟨k, rfl⟩ := hsplit j (not_lt.mp h)
        exact (hle' k (by omega)).trans (not_lt.mp hgt)

end Race

/-- The race picks a token of the vocabulary with the largest weight times reciprocal, the
first such; this needs scores that are not negative, as masked loads are zero. -/
theorem recoveredId_spec {blockSize vocabSize : Nat} (hblock : 0 < blockSize)
    (hvocab : 0 < vocabSize) {prob invQ : Nat → K}
    (hnonneg : ∀ v < vocabSize, 0 ≤ prob v * invQ v) :
    IsLeftmostMax (fun v => prob v * invQ v) vocabSize
      (recoveredId blockSize vocabSize prob invQ) := by
  obtain ⟨n, hn⟩ : ∃ n, numTiles blockSize vocabSize = n + 1 :=
    Nat.exists_eq_succ_of_ne_zero (Nat.div_pos (by omega) hblock).ne'
  have hcover : vocabSize ≤ (n + 1) * blockSize := by
    have hdiv := Nat.lt_div_mul_add (a := vocabSize + blockSize - 1) hblock
    rw [numTiles] at hn
    rw [hn] at hdiv
    omega
  obtain ⟨⟨hlt, hle, hfirst⟩, -⟩ :=
    recoveredTiles_spec hblock (raceScore vocabSize prob invQ) n rfl
  have hin (v : Nat) (hv : v < vocabSize) :
      raceScore vocabSize prob invQ v = prob v * invQ v := if_pos hv
  rw [recoveredId, hn]
  generalize ((List.range (n + 1)).foldl _ (none, 0)).2 = i at hlt hle hfirst ⊢
  have hi : i < vocabSize := by
    by_contra hge
    have hfirst0 := hfirst 0 (by omega)
    rw [hin 0 hvocab, raceScore, if_neg hge] at hfirst0
    exact absurd (hnonneg 0 hvocab) (not_le.mpr hfirst0)
  refine ⟨hi, fun j hj => ?_, fun j hj => ?_⟩
  · rw [← hin j hj, ← hin i hi]
    exact hle j (hj.trans_le hcover)
  · rw [← hin j (hj.trans hi), ← hin i hi]
    exact hfirst j hj

/-! ## One request of a batch -/

/-- The row of one request after `rejection_sample`: greedy requests go through the first
kernel, the others through the second. -/
def rejectionSample (maxSpecLen : Nat) (allGreedy allRandom isGreedy : Bool) (g : GreedyInputs)
    (x : RandomInputs K) : List Int :=
  let row := List.replicate (maxSpecLen + 1) PLACEHOLDER_TOKEN_ID
  let row := if allRandom then row
    else rejectionGreedySampleKernel g (if allGreedy then none else some isGreedy) row
  if allGreedy then row else rejectionRandomSampleKernel x isGreedy row

/-- `parse_output` on one row: placeholders are filtered out, and with them the whole row
where it is to be discarded. -/
def parseOutput (vocabSize : Nat) (row : List Int) (discard : Bool := false) : List Nat :=
  if discard then []
  else (row.filter fun t => t ≠ PLACEHOLDER_TOKEN_ID ∧ t < vocabSize).map Int.toNat

/-! ## What the loops store -/

section Verify

variable {token : Nat → Int} {accepts : Nat → Bool} {row : List Int} {n : Nat}

private theorem verifyLoop_succ (token : Nat → Int) (accepts : Nat → Bool) (row : List Int)
    (n : Nat) :
    verifyLoop token accepts row (n + 1) =
      verifyRound token accepts (verifyLoop token accepts row n) n := by
  simp [verifyLoop, List.range_succ]

/-- The flag stays down as long as every test succeeds. -/
theorem verifyLoop_accepted :
    (verifyLoop token accepts row n).2 = false ↔ ∀ pos < n, accepts pos = true := by
  induction n with
  | zero => simp [verifyLoop]
  | succ n ih =>
    rw [verifyLoop_succ, verifyRound]
    constructor
    · intro h pos hpos
      split at h
      · simp_all
      · rename_i hs
        rcases Nat.lt_succ_iff_lt_or_eq.mp hpos with hlt | rfl
        · exact ih.mp (by simpa using hs) pos hlt
        · simpa using h
    · intro h
      have hs := ih.mpr fun pos hpos => h pos (by omega)
      simp [hs, h n (by omega)]

@[simp] theorem length_verifyLoop : (verifyLoop token accepts row n).1.length = row.length := by
  induction n with
  | zero => rfl
  | succ n ih =>
    rw [verifyLoop_succ, verifyRound]
    split <;> simp [ih]

/-- Positions behind the loop keep what the row held. -/
theorem getElem?_verifyLoop_of_le {i : Nat} (hi : n ≤ i) :
    (verifyLoop token accepts row n).1[i]? = row[i]? := by
  induction n with
  | zero => rfl
  | succ n ih =>
    rw [verifyLoop_succ, verifyRound]
    split
    · exact ih (by omega)
    · rw [List.getElem?_set_ne (by omega)]
      exact ih (by omega)

/-- A position that is reached holds its token from then on. -/
theorem getElem?_verifyLoop {pos : Nat} (hreached : ∀ j < pos, accepts j = true) (hpos : pos < n)
    (hrow : pos < row.length) : (verifyLoop token accepts row n).1[pos]? = some (token pos) := by
  induction n with
  | zero => omega
  | succ n ih =>
    rw [verifyLoop_succ, verifyRound]
    rcases Nat.lt_succ_iff_lt_or_eq.mp hpos with hlt | rfl
    · split
      · exact ih hlt
      · rw [List.getElem?_set_ne (by omega)]
        exact ih hlt
    · rw [if_neg (by simp [verifyLoop_accepted.mpr hreached])]
      simp [hrow]

/-- Behind a rejection nothing is stored. -/
theorem getElem?_verifyLoop_of_rejected {pos i : Nat} (hrejected : accepts pos = false)
    (hpos : pos < i) : (verifyLoop token accepts row n).1[i]? = row[i]? := by
  induction n with
  | zero => rfl
  | succ n ih =>
    rw [verifyLoop_succ, verifyRound]
    split
    · exact ih
    · rename_i hs
      -- the loop has not yet passed the rejected position
      have hn : n ≤ pos := by
        by_contra hlt
        have := verifyLoop_accepted.mp (by simpa using hs) pos (by omega)
        simp_all
      rw [List.getElem?_set_ne (by omega)]
      exact ih

/-- What a verified row holds at a position that is reached. -/
theorem getElem?_verify {pos : Nat} {bonus : Int} (hreached : ∀ j < pos, accepts j = true)
    (hpos : pos < n) (hrow : pos < row.length) :
    (verify token accepts n bonus row)[pos]? = some (token pos) := by
  unfold verify
  simp only
  split
  · exact getElem?_verifyLoop hreached hpos hrow
  · rw [List.getElem?_set_ne (by omega)]
    exact getElem?_verifyLoop hreached hpos hrow

/-- The bonus token is stored exactly when every test succeeds. -/
theorem getElem?_verify_bonus {bonus : Int} (hrow : n < row.length)
    (hbonus : row[n]? ≠ some bonus) :
    (verify token accepts n bonus row)[n]? = some bonus ↔ ∀ pos < n, accepts pos = true := by
  rw [← @verifyLoop_accepted token accepts row n]
  unfold verify
  simp only
  split
  · rename_i hs
    rw [getElem?_verifyLoop_of_le (Nat.le_refl n)]
    simp [hs, hbonus]
  · rename_i hs
    simp [hs, hrow]

/-- The tests succeed up to some position, where one fails or the draft tokens end. -/
theorem exists_numAccepted (accepts : Nat → Bool) (n : Nat) :
    ∃ numAccepted ≤ n, (∀ pos < numAccepted, accepts pos = true) ∧
      (numAccepted < n → accepts numAccepted = false) := by
  induction n with
  | zero => exact ⟨0, le_rfl, by simp, by simp⟩
  | succ n ih =>
    obtain ⟨k, hk, haccepted, hrejected⟩ := ih
    rcases hk.lt_or_eq with hlt | rfl
    · exact ⟨k, by omega, haccepted, fun _ => hrejected hlt⟩
    · cases hacc : accepts k with
      | false => exact ⟨k, by omega, haccepted, fun _ => hacc⟩
      | true =>
        refine ⟨k + 1, le_rfl, fun pos hpos => ?_, fun h => absurd h (lt_irrefl _)⟩
        rcases Nat.lt_succ_iff_lt_or_eq.mp hpos with h | rfl
        · exact haccepted pos h
        · exact hacc

/-- A fresh row holds the tokens up to the first rejection, or all of them with the bonus
token, and placeholders behind. -/
theorem verify_replicate {numAccepted maxSpecLen : Nat} {bonus : Int} (hle : numAccepted ≤ n)
    (hmax : n ≤ maxSpecLen) (haccepted : ∀ pos < numAccepted, accepts pos = true)
    (hrejected : numAccepted < n → accepts numAccepted = false) :
    verify token accepts n bonus (List.replicate (maxSpecLen + 1) PLACEHOLDER_TOKEN_ID) =
      (List.range (numAccepted + 1)).map (fun pos => if pos < n then token pos else bonus) ++
        List.replicate (maxSpecLen - numAccepted) PLACEHOLDER_TOKEN_ID := by
  refine List.ext_getElem? fun pos => ?_
  rcases Nat.lt_or_ge pos (numAccepted + 1) with hlt | hge
  · rw [List.getElem?_append_left (by simpa using hlt), List.getElem?_map,
      List.getElem?_range hlt, Option.map_some]
    by_cases hpos : pos < n
    · rw [if_pos hpos]
      exact getElem?_verify (fun j hj => haccepted j (by omega)) hpos (by simp; omega)
    · obtain ⟨rfl, rfl⟩ : pos = n ∧ numAccepted = n := by omega
      rw [if_neg hpos, verify]
      simp only [verifyLoop_accepted.mpr haccepted, Bool.false_eq_true, if_false]
      exact List.getElem?_set_self (by simp only [length_verifyLoop, List.length_replicate]; omega)
  · rw [List.getElem?_append_right (by simpa using hge), List.length_map, List.length_range,
      List.getElem?_replicate]
    have hplace : (List.replicate (maxSpecLen + 1) PLACEHOLDER_TOKEN_ID)[pos]? =
        if pos - (numAccepted + 1) < maxSpecLen - numAccepted then some PLACEHOLDER_TOKEN_ID
        else none := by
      rw [List.getElem?_replicate]
      split <;> split <;> first | rfl | omega
    have hloop : (verifyLoop token accepts (List.replicate (maxSpecLen + 1)
        PLACEHOLDER_TOKEN_ID) n).1[pos]? =
          (List.replicate (maxSpecLen + 1) PLACEHOLDER_TOKEN_ID)[pos]? := by
      rcases hle.lt_or_eq with hlt | rfl
      · exact getElem?_verifyLoop_of_rejected (hrejected hlt) hge
      · exact getElem?_verifyLoop_of_le (by omega)
    rw [← hplace, ← hloop]
    unfold verify
    simp only
    split
    · rfl
    · rename_i hs
      have hall := verifyLoop_accepted.mp (by simpa using hs)
      rw [List.getElem?_set_ne]
      rintro rfl
      rw [hall numAccepted (by omega)] at hrejected
      cases hrejected (by omega)

/-- Filtering a row returns the tokens stored in it. -/
theorem parseOutput_append_replicate {vocabSize : Nat} {tokens : List Nat} (k : Nat)
    (htokens : ∀ t ∈ tokens, t < vocabSize) :
    parseOutput vocabSize (tokens.map (fun t : Nat => (t : Int)) ++
      List.replicate k PLACEHOLDER_TOKEN_ID) false = tokens := by
  have hkept : (tokens.map fun t : Nat => (t : Int)).filter
      (fun t => t ≠ PLACEHOLDER_TOKEN_ID ∧ t < vocabSize) =
        tokens.map fun t : Nat => (t : Int) := by
    refine List.filter_eq_self.mpr fun t ht => ?_
    obtain ⟨v, hv, rfl⟩ := List.mem_map.mp ht
    have hlt := htokens v hv
    exact decide_eq_true ⟨by simp only [PLACEHOLDER_TOKEN_ID]; omega, by exact_mod_cast hlt⟩
  have hdropped : (List.replicate k PLACEHOLDER_TOKEN_ID).filter
      (fun t => t ≠ PLACEHOLDER_TOKEN_ID ∧ t < vocabSize) = [] := by
    simp
  rw [parseOutput, if_neg (by simp), List.filter_append, hkept, hdropped, List.append_nil,
    List.map_map]
  exact List.map_id _

end Verify

end Vllm
