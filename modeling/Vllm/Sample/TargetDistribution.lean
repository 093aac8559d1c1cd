import Vllm.Library.Draws
import Vllm.Sample.RejectionSampler
import Mathlib.MeasureTheory.Constructions.Pi
import Mathlib.MeasureTheory.Measure.Lebesgue.Basic
import Mathlib.MeasureTheory.Measure.Real

/-!
# Rejection sampling keeps the target distribution

Draft tokens are drawn in sequence, the uniform numbers are independent and uniform on
`[0, 1)`, and the numbers behind the exponential race are independent of both. The
race is assumed to pick a token with probability proportional to its weight. Then the
token emitted at a position that is reached has the target distribution there,
whatever prefix was accepted.
-/

namespace Vllm

open MeasureTheory Finset

/-- Exact probabilities over a vocabulary. -/
structure IsDistribution (vocabSize : ℕ) (p : ℕ → ℝ) : Prop where
  nonneg : ∀ v < vocabSize, 0 ≤ p v
  sum_eq_one : ∑ v ∈ range vocabSize, p v = 1

/-- No probability is above one. -/
theorem IsDistribution.le_one {vocabSize : ℕ} {p : ℕ → ℝ} (h : IsDistribution vocabSize p) {v : ℕ}
    (hv : v < vocabSize) : p v ≤ 1 := by
  rw [← h.sum_eq_one]
  exact single_le_sum (f := p) (fun w hw => h.nonneg w (mem_range.mp hw)) (mem_range.mpr hv)

/-- How the draft token behind a context is chosen. -/
inductive Drafting where
  /-- Sampled from draft probabilities that the kernels see. -/
  | sampled (probs : List ℕ → ℕ → ℝ)
  /-- Any fixed token, without draft probabilities. -/
  | fixed (token : List ℕ → ℕ)

namespace Drafting

/-- The law of the draft token behind a context. -/
def law : Drafting → List ℕ → ℕ → ℝ
  | sampled probs => probs
  | fixed token => fun context v => if v = token context then 1 else 0

/-- The table of draft probabilities behind a context. -/
def probs : Drafting → List ℕ → Option (ℕ → ℝ)
  | sampled probs => fun context => some (probs context)
  | fixed _ => fun _ => none

/-- Draft tokens come from distributions over the vocabulary. -/
def Valid (vocabSize : ℕ) : Drafting → Prop
  | sampled probs => ∀ context, IsDistribution vocabSize (probs context)
  | fixed token => ∀ context, token context < vocabSize

/-- The law of a draft token is a distribution. -/
theorem Valid.law {vocabSize : ℕ} {d : Drafting} (h : d.Valid vocabSize) (context : List ℕ) :
    IsDistribution vocabSize (d.law context) := by
  cases d with
  | sampled probs => exact h context
  | fixed token =>
    refine ⟨fun v _ => ?_, ?_⟩
    · simp only [Drafting.law]
      split <;> simp
    · simp [Drafting.law, h context]

end Drafting

/-- The uniform distribution on `[0, 1)`. -/
noncomputable def uniform : Measure ℝ := volume.restrict (Set.Ico 0 1)

instance : IsProbabilityMeasure uniform :=
  ⟨by simp [uniform]⟩

/-- A uniform number is at most `r` with probability `r`, up to one. -/
theorem uniform_real_Iic {r : ℝ} (hr : 0 ≤ r) : uniform.real (Set.Iic r) = min 1 r := by
  rw [uniform, measureReal_restrict_apply measurableSet_Iic]
  rcases lt_or_ge r 1 with h | h
  · have heq : Set.Iic r ∩ Set.Ico 0 1 = Set.Icc 0 r := by
      ext u
      simp only [Set.mem_inter_iff, Set.mem_Iic, Set.mem_Ico, Set.mem_Icc]
      constructor
      · rintro ⟨hu, h0, -⟩
        exact ⟨h0, hu⟩
      · rintro ⟨h0, hu⟩
        exact ⟨hu, h0, hu.trans_lt h⟩
    rw [heq, min_eq_right h.le]
    simp [hr]
  · have heq : Set.Iic r ∩ Set.Ico 0 1 = Set.Ico 0 1 := by
      ext u
      simp only [Set.mem_inter_iff, Set.mem_Iic, Set.mem_Ico]
      constructor
      · exact fun hu => hu.2
      · exact fun hu => ⟨(hu.2.trans_le h).le, hu⟩
    rw [heq, min_eq_left h]
    simp

/-- Only the numbers from `[0, 1)` matter. -/
theorem uniform_real_congr {S T : Set ℝ} (h : ∀ u ∈ Set.Ico (0 : ℝ) 1, u ∈ S ↔ u ∈ T) :
    uniform.real S = uniform.real T := by
  rw [uniform, measureReal_restrict_apply' measurableSet_Ico,
    measureReal_restrict_apply' measurableSet_Ico]
  congr 1
  ext u
  exact and_congr_left (h u)

section Experiment

variable {Ω : Type} [MeasurableSpace Ω]

/-- The exponential race of the recovered-token kernel picks a token with probability
proportional to its weight. -/
def RacesByWeight (vocabSize : ℕ) (μ : Measure Ω) (invQ : Ω → ℕ → ℝ) : Prop :=
  ∀ w : ℕ → ℝ, (∀ v < vocabSize, 0 ≤ w v) → 0 < ∑ v ∈ range vocabSize, w v →
    ∀ x < vocabSize, μ.real {ω | recoveredId BLOCK_SIZE vocabSize w (invQ ω) = x} =
      w x / ∑ v ∈ range vocabSize, w v

variable (vocabSize n : ℕ) (target : List ℕ → ℕ → ℝ) (drafting : Drafting) (bonusTokenId : ℕ)
  (invQ : Ω → ℕ → ℝ)

/-- What the kernel for random requests loads: at every position the target and the draft
probabilities behind the draft tokens before it. -/
noncomputable def sampledInputs (drafts : List ℕ) (u : Fin n → ℝ) (ω : Ω) : RandomInputs ℝ where
  numDraftTokens := n
  draftTokenIds pos := drafts.getD pos 0
  draftProbs := match drafting with
    | .sampled probs => some fun pos => probs (drafts.take pos)
    | .fixed _ => none
  targetProbs pos := target (drafts.take pos)
  bonusTokenId := bonusTokenId
  recoveredTokenIds pos := sampleRecoveredTokensKernel vocabSize (drafts.getD pos 0)
    (drafting.probs (drafts.take pos)) (target (drafts.take pos)) (invQ ω)
  uniformProbs pos := if h : pos < n then u ⟨pos, h⟩ else 0

/-- The probability of an event of draft tokens, uniform numbers and race numbers. -/
noncomputable def probability (μ : Measure Ω)
    (event : List ℕ → (Fin n → ℝ) → Ω → Prop) : ℝ :=
  Draws.expect vocabSize drafting.law n [] fun drafts =>
    ((Measure.pi fun _ : Fin n => uniform).prod μ).real {s | event drafts s.1 s.2}

/-- The loop arrives at position `pre.length` without a rejection and with the given draft
tokens accepted. -/
def ReachesWith (x : RandomInputs ℝ) (drafts : List ℕ) (row : List Int) (pre : List ℕ) : Prop :=
  drafts.take pre.length = pre ∧
    (verifyLoop (fun pos => x.token pos) (fun pos => x.Accepts pos) row pre.length).2 = false

/-! ## One position -/

variable {vocabSize n target drafting}

/-- The draft probability that the test reads. -/
noncomputable def draftProbOf (drafting : Drafting) (context : List ℕ) (v : ℕ) : ℝ :=
  match drafting with
  | .sampled probs => probs context v
  | .fixed _ => 1

/-- The uniform numbers that accept a draft token. -/
def acceptSet (target : List ℕ → ℕ → ℝ) (drafting : Drafting) (context : List ℕ) (v : ℕ) : Set ℝ :=
  {u | acceptsDraft (draftProbOf drafting context v) (target context v) u}

private theorem acceptSet_eq (context : List ℕ) (v : ℕ) : acceptSet target drafting context v =
    if 0 < draftProbOf drafting context v then
      Set.Iic (target context v / draftProbOf drafting context v) else ∅ := by
  ext u
  unfold acceptSet acceptsDraft
  split <;> simp_all

private theorem measurableSet_acceptSet (context : List ℕ) (v : ℕ) :
    MeasurableSet (acceptSet target drafting context v) := by
  rw [acceptSet_eq]
  split
  · exact measurableSet_Iic
  · exact MeasurableSet.empty

/-- A draft token is drawn and accepted with the smaller of both probabilities. -/
theorem law_mul_accept (htarget : ∀ context, IsDistribution vocabSize (target context))
    (hdraft : drafting.Valid vocabSize) (context : List ℕ) {v : ℕ} (hv : v < vocabSize) :
    drafting.law context v * uniform.real (acceptSet target drafting context v) =
      min (drafting.law context v) (target context v) := by
  have htv := (htarget context).nonneg v hv
  have hone := (htarget context).le_one hv
  cases drafting with
  | sampled probs =>
    change probs context v * _ = min (probs context v) _
    rcases ((hdraft context).nonneg v hv).lt_or_eq with hpos | hzero
    · have hset : acceptSet target (.sampled probs) context v =
          Set.Iic (target context v / probs context v) := by
        rw [acceptSet_eq]
        exact if_pos hpos
      rw [hset, uniform_real_Iic (by positivity), mul_min_of_nonneg _ _ hpos.le, mul_one,
        mul_div_cancel₀ _ hpos.ne']
    · rw [← hzero, zero_mul, min_eq_left htv]
  | fixed token =>
    have hset : acceptSet target (.fixed token) context v = Set.Iic (target context v) := by
      have hpos : 0 < draftProbOf (.fixed token) context v := by norm_num [draftProbOf]
      rw [acceptSet_eq, if_pos hpos]
      exact congrArg Set.Iic (div_one _)
    rw [hset, uniform_real_Iic htv, min_eq_right hone]
    simp only [Drafting.law]
    split
    · rw [one_mul, min_eq_right hone]
    · rw [zero_mul, min_eq_left htv]

/-- The weights of the recovered tokens, wherever a draft token can be rejected: what the
target has more than the draft. -/
noncomputable def excess (target : List ℕ → ℕ → ℝ) (drafting : Drafting) (context : List ℕ)
    (x : ℕ) : ℝ :=
  target context x - min (drafting.law context x) (target context x)

/-- A draft token is drawn and rejected with what its probability exceeds the target's by, in
total as often as the target exceeds the draft. -/
theorem sum_law_mul_reject (htarget : ∀ context, IsDistribution vocabSize (target context))
    (hdraft : drafting.Valid vocabSize) (context : List ℕ) :
    ∑ v ∈ range vocabSize, drafting.law context v *
        uniform.real (acceptSet target drafting context v)ᶜ =
      ∑ v ∈ range vocabSize, excess target drafting context v := by
  have hterm (v : ℕ) (hv : v ∈ range vocabSize) : drafting.law context v *
      uniform.real (acceptSet target drafting context v)ᶜ =
        drafting.law context v - min (drafting.law context v) (target context v) := by
    rw [probReal_compl_eq_one_sub (measurableSet_acceptSet context v), mul_sub, mul_one,
      law_mul_accept htarget hdraft context (mem_range.mp hv)]
  simp only [excess]
  rw [sum_congr rfl hterm, sum_sub_distrib, sum_sub_distrib, (hdraft.law context).sum_eq_one,
    (htarget context).sum_eq_one]

/-- The weights of the recovered tokens are the excess, whatever draft token was drawn. -/
theorem recoveredProb_eq_excess (htarget : ∀ context, IsDistribution vocabSize (target context))
    (context : List ℕ) {v x : ℕ} (hx : x < vocabSize) (hv : drafting.law context v ≠ 0) :
    recoveredProb v (drafting.probs context) (target context) x =
      excess target drafting context x := by
  cases drafting with
  | sampled probs =>
    simp only [recoveredProb, Drafting.probs, excess, Drafting.law]
    rcases le_total (target context x) (probs context x) with h | h
    · rw [max_eq_right (by linarith), min_eq_right h, sub_self]
    · rw [max_eq_left (by linarith), min_eq_left h]
  | fixed token =>
    obtain rfl : v = token context := by
      by_contra h
      simp [Drafting.law, h] at hv
    simp only [recoveredProb, Drafting.probs, excess, Drafting.law]
    by_cases hxt : x = token context
    · rw [if_neg (by simpa using hxt), if_pos hxt, min_eq_right ((htarget context).le_one hx),
        sub_self]
    · rw [if_pos hxt, if_neg hxt, min_eq_left ((htarget context).nonneg x hx), sub_zero]

/-- The excess is not negative. -/
theorem excess_nonneg (context : List ℕ) (x : ℕ) : 0 ≤ excess target drafting context x :=
  sub_nonneg.mpr (min_le_right _ _)

variable {μ : Measure Ω} {invQ}

/-- The probability that a drawn token leads to the emission of `x`: accepted as `x`, or
rejected and recovered as `x`. -/
noncomputable def emission (vocabSize : ℕ) (target : List ℕ → ℕ → ℝ) (drafting : Drafting)
    (μ : Measure Ω) (invQ : Ω → ℕ → ℝ) (context : List ℕ) (x v : ℕ) : ℝ :=
  uniform.real (acceptSet target drafting context v) * (if v = x then 1 else 0) +
    uniform.real (acceptSet target drafting context v)ᶜ *
      μ.real {ω | sampleRecoveredTokensKernel vocabSize v (drafting.probs context)
        (target context) (invQ ω) = x}

/-- Over the drawn token, a token is emitted with its target probability. -/
theorem sum_law_mul_emission (htarget : ∀ context, IsDistribution vocabSize (target context))
    (hdraft : drafting.Valid vocabSize) (hrace : RacesByWeight vocabSize μ invQ)
    (context : List ℕ) {x : ℕ} (hx : x < vocabSize) :
    ∑ v ∈ range vocabSize, drafting.law context v *
      emission vocabSize target drafting μ invQ context x v = target context x := by
  have haccepted : ∑ v ∈ range vocabSize, drafting.law context v *
      (uniform.real (acceptSet target drafting context v) * if v = x then 1 else 0) =
        min (drafting.law context x) (target context x) := by
    simp only [mul_ite, mul_one, mul_zero]
    rw [sum_ite_eq' (range vocabSize) x, if_pos (mem_range.mpr hx),
      law_mul_accept htarget hdraft context hx]
  have hrecovered : ∑ v ∈ range vocabSize, drafting.law context v *
      (uniform.real (acceptSet target drafting context v)ᶜ *
        μ.real {ω | sampleRecoveredTokensKernel vocabSize v (drafting.probs context)
          (target context) (invQ ω) = x}) = excess target drafting context x := by
    have hreject := sum_law_mul_reject htarget hdraft context
    have hnonneg (v : ℕ) (hv : v ∈ range vocabSize) : 0 ≤ drafting.law context v *
        uniform.real (acceptSet target drafting context v)ᶜ :=
      mul_nonneg ((hdraft.law context).nonneg v (mem_range.mp hv)) measureReal_nonneg
    have htotal : 0 ≤ ∑ v ∈ range vocabSize, excess target drafting context v :=
      sum_nonneg fun v _ => excess_nonneg context v
    rcases htotal.lt_or_eq with hpos | hzero
    · -- the race picks in proportion to the excess
      have hterm (v : ℕ) (hv : v ∈ range vocabSize) : drafting.law context v *
          (uniform.real (acceptSet target drafting context v)ᶜ *
            μ.real {ω | sampleRecoveredTokensKernel vocabSize v (drafting.probs context)
              (target context) (invQ ω) = x}) =
          drafting.law context v * uniform.real (acceptSet target drafting context v)ᶜ *
            (excess target drafting context x /
              ∑ w ∈ range vocabSize, excess target drafting context w) := by
        by_cases hlaw : drafting.law context v = 0
        · simp [hlaw]
        have hweight (w : ℕ) (hw : w ∈ range vocabSize) :=
          recoveredProb_eq_excess htarget context (mem_range.mp hw) hlaw
        rw [← mul_assoc]
        congr 1
        have hsum := sum_congr rfl hweight
        rw [← hsum, ← hweight x (mem_range.mpr hx)]
        refine hrace _ (fun w hw => ?_) (by rw [hsum]; exact hpos) x hx
        rw [hweight w (mem_range.mpr hw)]
        exact excess_nonneg context w
      rw [sum_congr rfl hterm, ← sum_mul, hreject, mul_div_cancel₀ _ hpos.ne']
    · -- nothing is ever rejected
      rw [← hzero, sum_eq_zero_iff_of_nonneg hnonneg] at hreject
      rw [sum_eq_zero fun v hv => by rw [← mul_assoc, hreject v hv, zero_mul]]
      exact ((sum_eq_zero_iff_of_nonneg fun v _ => excess_nonneg context v).mp hzero.symm x
        (mem_range.mpr hx)).symm
  simp only [emission, mul_add, sum_add_distrib]
  rw [haccepted, hrecovered, excess]
  ring

/-! ## The whole experiment -/

omit [MeasurableSpace Ω] in
/-- The test at a position looks at the draft tokens before it, at the draft token, and at one
uniform number. -/
theorem sampledInputs_accepts {drafts : List ℕ} {u : Fin n → ℝ} {ω : Ω} {pos : ℕ} (hpos : pos < n) :
    (sampledInputs vocabSize n target drafting bonusTokenId invQ drafts u ω).Accepts pos ↔
      u ⟨pos, hpos⟩ ∈ acceptSet target drafting (drafts.take pos) (drafts.getD pos 0) := by
  cases drafting <;>
    simp [RandomInputs.Accepts, RandomInputs.draftProb, sampledInputs, acceptSet, draftProbOf,
      hpos]

/-- The uniform numbers that let the loop arrive behind a prefix, and meet a condition there. -/
def arrivals (target : List ℕ → ℕ → ℝ) (drafting : Drafting) (pre : List ℕ) (T : Set ℝ)
    (i : Fin n) : Set ℝ :=
  if i < pre.length then acceptSet target drafting (pre.take i) (pre.getD i 0)
  else if i = pre.length then T else Set.univ

/-- The probability of the tests before a position. -/
noncomputable def arrival (n : ℕ) (target : List ℕ → ℕ → ℝ) (drafting : Drafting)
    (pre : List ℕ) : ℝ :=
  ∏ i : Fin n, if i < pre.length then
    uniform.real (acceptSet target drafting (pre.take i) (pre.getD i 0)) else 1

private theorem pi_real_arrivals (pre : List ℕ) (hpre : pre.length < n) (T : Set ℝ) :
    (Measure.pi fun _ : Fin n => uniform).real (Set.univ.pi (arrivals target drafting pre T)) =
      arrival n target drafting pre * uniform.real T := by
  have hreal : (Measure.pi fun _ : Fin n => uniform).real
      (Set.univ.pi (arrivals target drafting pre T)) =
        ∏ i : Fin n, uniform.real (arrivals target drafting pre T i) := by
    simp only [measureReal_def, Measure.pi_pi, ENNReal.toReal_prod]
  have hfactor (i : Fin n) : uniform.real (arrivals target drafting pre T i) =
      (if i < pre.length then
        uniform.real (acceptSet target drafting (pre.take i) (pre.getD i 0)) else 1) *
      (if i = ⟨pre.length, hpre⟩ then uniform.real T else 1) := by
    unfold arrivals
    by_cases hlt : (i : ℕ) < pre.length
    · have hne : i ≠ ⟨pre.length, hpre⟩ := fun h => by simp [h] at hlt
      simp [hlt, hne]
    · by_cases heq : (i : ℕ) = pre.length
      · have hi : i = ⟨pre.length, hpre⟩ := Fin.ext heq
        simp [hi]
      · have hne : i ≠ ⟨pre.length, hpre⟩ := fun h => heq (by simp [h])
        simp [hlt, heq, hne]
  simp only [hreal, hfactor, prod_mul_distrib, prod_ite_eq', mem_univ, if_true, arrival]

private theorem measurableSet_arrivals (pre : List ℕ) {T : Set ℝ} (hT : MeasurableSet T) :
    MeasurableSet (Set.univ.pi (arrivals (n := n) target drafting pre T)) := by
  refine MeasurableSet.univ_pi fun i => ?_
  unfold arrivals
  split
  · exact measurableSet_acceptSet _ _
  · split
    · exact hT
    · exact MeasurableSet.univ

private theorem mem_arrivals {pre : List ℕ} (hpre : pre.length < n) {T : Set ℝ} {u : Fin n → ℝ} :
    u ∈ Set.univ.pi (arrivals target drafting pre T) ↔
      (∀ j (hj : j < pre.length), u ⟨j, hj.trans hpre⟩ ∈
        acceptSet target drafting (pre.take j) (pre.getD j 0)) ∧ u ⟨pre.length, hpre⟩ ∈ T := by
  simp only [Set.mem_univ_pi, arrivals]
  constructor
  · intro h
    refine ⟨fun j hj => ?_, ?_⟩
    · simpa [hj] using h ⟨j, hj.trans hpre⟩
    · simpa using h ⟨pre.length, hpre⟩
  · rintro ⟨hbefore, hat⟩ i
    split
    · exact hbefore i ‹_›
    · split
      · rename_i heq
        rwa [show i = ⟨pre.length, hpre⟩ from Fin.ext heq]
      · exact Set.mem_univ _

omit [MeasurableSpace Ω] in
/-- The loop arrives behind accepted draft tokens exactly when every test before succeeds. -/
theorem reachesWith_iff {pre drafts : List ℕ} (hpre : pre.length < n)
    (hdrafts : drafts.take pre.length = pre) {u : Fin n → ℝ} {ω : Ω} {row : List Int} :
    ReachesWith (sampledInputs vocabSize n target drafting bonusTokenId invQ drafts u ω) drafts row
        pre ↔
      ∀ j (hj : j < pre.length), u ⟨j, hj.trans hpre⟩ ∈
        acceptSet target drafting (pre.take j) (pre.getD j 0) := by
  have htake (j : ℕ) (hj : j < pre.length) : drafts.take j = pre.take j ∧
      drafts.getD j 0 = pre.getD j 0 := by
    constructor
    · rw [← hdrafts, List.take_take, min_eq_left hj.le]
    · rw [← hdrafts, List.getD_eq_getElem?_getD, List.getD_eq_getElem?_getD,
        List.getElem?_take_of_lt hj]
  simp only [ReachesWith, hdrafts, true_and, verifyLoop_accepted, decide_eq_true_eq]
  refine forall_congr' fun j => forall_congr' fun hj => ?_
  rw [sampledInputs_accepts bonusTokenId (hj.trans hpre), (htake j hj).1, (htake j hj).2]

/-- With the draft tokens fixed, arriving has the probability of the tests before. -/
theorem real_reachesWith [IsProbabilityMeasure μ] {pre drafts : List ℕ} (hpre : pre.length < n)
    {row : List Int} :
    ((Measure.pi fun _ : Fin n => uniform).prod μ).real {s | ReachesWith
        (sampledInputs vocabSize n target drafting bonusTokenId invQ drafts s.1 s.2) drafts row
          pre} =
      if drafts.take pre.length = pre then arrival n target drafting pre else 0 := by
  split
  · rename_i hdrafts
    have heq : {s : (Fin n → ℝ) × Ω | ReachesWith
        (sampledInputs vocabSize n target drafting bonusTokenId invQ drafts s.1 s.2) drafts row
          pre} = Set.univ.pi (arrivals target drafting pre Set.univ) ×ˢ Set.univ := by
      ext s
      simp [reachesWith_iff bonusTokenId hpre hdrafts, mem_arrivals hpre, -Set.mem_pi]
    rw [heq, measureReal_prod_prod, pi_real_arrivals pre hpre]
    simp
  · rename_i hdrafts
    simp [ReachesWith, hdrafts]

/-- With the draft tokens fixed, arriving and emitting a token has the probability of the
tests before times that of the emission. -/
theorem real_emits [IsProbabilityMeasure μ] {pre drafts : List ℕ} (hpre : pre.length < n) {x : ℕ}
    {row : List Int} (hrow : n ≤ row.length) :
    ((Measure.pi fun _ : Fin n => uniform).prod μ).real {s | ReachesWith
        (sampledInputs vocabSize n target drafting bonusTokenId invQ drafts s.1 s.2) drafts row
          pre ∧
        (rejectionRandomSampleKernel
          (sampledInputs vocabSize n target drafting bonusTokenId invQ drafts s.1 s.2) false
          row)[pre.length]? = some (x : Int)} =
      if drafts.take pre.length = pre then arrival n target drafting pre *
        emission vocabSize target drafting μ invQ pre x (drafts.getD pre.length 0) else 0 := by
  split
  · rename_i hdrafts
    obtain ⟨v, hv⟩ : ∃ v, v = drafts.getD pre.length 0 := ⟨_, rfl⟩
    have hmem : {s : (Fin n → ℝ) × Ω | ReachesWith
        (sampledInputs vocabSize n target drafting bonusTokenId invQ drafts s.1 s.2) drafts row
          pre ∧
        (rejectionRandomSampleKernel
          (sampledInputs vocabSize n target drafting bonusTokenId invQ drafts s.1 s.2) false
          row)[pre.length]? = some (x : Int)} =
        Set.univ.pi (arrivals target drafting pre (acceptSet target drafting pre v)) ×ˢ
            {_ω : Ω | v = x} ∪
          Set.univ.pi (arrivals target drafting pre (acceptSet target drafting pre v)ᶜ) ×ˢ
            {ω : Ω | sampleRecoveredTokensKernel vocabSize v (drafting.probs pre) (target pre)
              (invQ ω) = x} := by
      ext s
      have hreach := @reachesWith_iff Ω vocabSize n target drafting bonusTokenId invQ pre drafts
        hpre hdrafts s.1 s.2 row
      have haccepts := @sampledInputs_accepts Ω vocabSize n target drafting bonusTokenId invQ
        drafts s.1 s.2 pre.length hpre
      rw [hdrafts, ← hv] at haccepts
      have hrecovered : (sampledInputs vocabSize n target drafting bonusTokenId invQ drafts s.1
          s.2).recoveredTokenIds pre.length = sampleRecoveredTokensKernel vocabSize v
            (drafting.probs pre) (target pre) (invQ s.2) := by
        simp only [sampledInputs, hdrafts, ← hv]
      have hdraft : (sampledInputs vocabSize n target drafting bonusTokenId invQ drafts s.1
          s.2).draftTokenIds pre.length = v := hv.symm
      have hnum : (sampledInputs vocabSize n target drafting bonusTokenId invQ drafts s.1
          s.2).numDraftTokens = n := rfl
      simp only [Set.mem_union, Set.mem_prod, mem_arrivals hpre, Set.mem_ofPred_eq,
        Set.mem_compl_iff, ← haccepts, ← hreach]
      generalize sampledInputs vocabSize n target drafting bonusTokenId invQ drafts s.1 s.2 = y
        at hrecovered hdraft hnum ⊢
      rw [← hrecovered]
      constructor
      · rintro ⟨hr, hemit⟩
        rw [rejectionRandomSampleKernel, if_neg (by simp), getElem?_verify
          (verifyLoop_accepted.mp hr.2) (by rwa [hnum]) (by omega)] at hemit
        have htoken : y.token pre.length = x := by simpa using hemit
        by_cases ha : y.Accepts pre.length
        · rw [RandomInputs.token, if_pos ha, hdraft] at htoken
          exact Or.inl ⟨⟨hr, ha⟩, htoken⟩
        · rw [RandomInputs.token, if_neg ha] at htoken
          exact Or.inr ⟨⟨hr, ha⟩, htoken⟩
      · intro h
        have hr : ReachesWith y drafts row pre := by tauto
        have htoken : y.token pre.length = x := by
          rcases h with ⟨⟨-, ha⟩, h⟩ | ⟨⟨-, ha⟩, h⟩
          · rw [RandomInputs.token, if_pos ha, hdraft, h]
          · rw [RandomInputs.token, if_neg ha, h]
        refine ⟨hr, ?_⟩
        rw [rejectionRandomSampleKernel, if_neg (by simp), getElem?_verify
          (verifyLoop_accepted.mp hr.2) (by rwa [hnum]) (by omega), htoken]
    have hdisjoint : Disjoint
        (Set.univ.pi (arrivals target drafting pre (acceptSet target drafting pre v)) ×ˢ
          {_ω : Ω | v = x})
        (Set.univ.pi (arrivals (n := n) target drafting pre (acceptSet target drafting pre v)ᶜ) ×ˢ
          {ω : Ω | sampleRecoveredTokensKernel vocabSize v (drafting.probs pre) (target pre)
            (invQ ω) = x}) := by
      rw [Set.disjoint_left]
      rintro ⟨u, ω⟩ ⟨h, -⟩ ⟨h', -⟩
      exact ((mem_arrivals hpre).mp h').2 ((mem_arrivals hpre).mp h).2
    have hmeasurable : MeasurableSet
        (Set.univ.pi (arrivals (n := n) target drafting pre (acceptSet target drafting pre v)) ×ˢ
          {_ω : Ω | v = x}) :=
      (measurableSet_arrivals pre (measurableSet_acceptSet pre v)).prod (MeasurableSet.const _)
    have hconst : μ.real {_ω : Ω | v = x} = if v = x then 1 else 0 := by
      by_cases h : v = x <;> simp [h]
    rw [hmem, measureReal_union' hdisjoint hmeasurable, measureReal_prod_prod,
      measureReal_prod_prod, pi_real_arrivals pre hpre, pi_real_arrivals pre hpre, hconst, ← hv,
      emission]
    ring
  · rename_i hdrafts
    simp [ReachesWith, hdrafts]

/-- Rejection sampling keeps the target distribution: behind any accepted prefix, a token is
emitted with its target probability; and the bonus token is emitted exactly when all draft
tokens are accepted. -/
theorem rejectionSample_keeps_target [IsProbabilityMeasure μ] {maxSpecLen : ℕ}
    (hn : n ≤ maxSpecLen) (htarget : ∀ context, IsDistribution vocabSize (target context))
    (hdraft : drafting.Valid vocabSize) (hrace : RacesByWeight vocabSize μ invQ)
    (allRandom : Bool) (g : GreedyInputs) :
    (∀ (pre : List ℕ) (x : ℕ), pre.length < n → x < vocabSize →
      probability vocabSize n drafting μ (fun drafts u ω =>
        ReachesWith (sampledInputs vocabSize n target drafting bonusTokenId invQ drafts u ω) drafts
          (List.replicate (maxSpecLen + 1) PLACEHOLDER_TOKEN_ID) pre ∧
        (rejectionSample maxSpecLen false allRandom false g
          (sampledInputs vocabSize n target drafting bonusTokenId invQ drafts u
            ω))[pre.length]? = some (x : Int)) =
      probability vocabSize n drafting μ (fun drafts u ω =>
        ReachesWith (sampledInputs vocabSize n target drafting bonusTokenId invQ drafts u ω) drafts
          (List.replicate (maxSpecLen + 1) PLACEHOLDER_TOKEN_ID) pre) * target pre x) ∧
    ∀ (drafts : List ℕ) (u : Fin n → ℝ) (ω : Ω),
      (rejectionSample maxSpecLen false allRandom false g
        (sampledInputs vocabSize n target drafting bonusTokenId invQ drafts u ω))[n]? =
          some (bonusTokenId : Int) ↔
      ∀ pos < n,
        (sampledInputs vocabSize n target drafting bonusTokenId invQ drafts u ω).Accepts pos := by
  have hrow (x : RandomInputs ℝ) : rejectionSample maxSpecLen false allRandom false g x =
      rejectionRandomSampleKernel x false
        (List.replicate (maxSpecLen + 1) PLACEHOLDER_TOKEN_ID) := by
    cases allRandom <;> rfl
  simp only [hrow]
  refine ⟨fun pre x hpre hx => ?_, fun drafts u ω => ?_⟩
  · have hlaw (context : List ℕ) := (hdraft.law context).sum_eq_one
    have hlength : n ≤ (List.replicate (maxSpecLen + 1) PLACEHOLDER_TOKEN_ID).length := by
      rw [List.length_replicate]
      omega
    unfold probability
    simp only [real_reachesWith bonusTokenId hpre,
      real_emits bonusTokenId (x := x) hpre hlength]
    rw [Draws.expect_prefix hlaw hpre fun v => arrival n target drafting pre *
        emission vocabSize target drafting μ invQ pre x v,
      Draws.expect_prefix hlaw hpre fun _ => arrival n target drafting pre]
    simp only [List.nil_append]
    have hemission := sum_law_mul_emission htarget hdraft hrace pre hx
    have hleft : ∑ v ∈ range vocabSize, drafting.law pre v * (arrival n target drafting pre *
        emission vocabSize target drafting μ invQ pre x v) =
          arrival n target drafting pre * target pre x := by
      rw [← hemission, mul_sum]
      exact sum_congr rfl fun v _ => by ring
    rw [hleft, ← sum_mul, hlaw, one_mul]
    ring
  · rw [rejectionRandomSampleKernel, if_neg (by simp)]
    refine (getElem?_verify_bonus (by rw [List.length_replicate]; exact Nat.lt_succ_of_le hn)
      ?_).trans ?_
    · have hlt : n < maxSpecLen + 1 := Nat.lt_succ_of_le hn
      change (List.replicate (maxSpecLen + 1) PLACEHOLDER_TOKEN_ID)[n]? ≠ some (bonusTokenId : Int)
      rw [List.getElem?_replicate, if_pos hlt]
      simp [PLACEHOLDER_TOKEN_ID]
    · simp [sampledInputs]

end Experiment

/-! ## Two tokens -/

/-- Reciprocals of which the second is to the first as those of two exponential numbers. -/
noncomputable def twoReciprocals (u : ℝ) (v : ℕ) : ℝ :=
  if v = 0 then 1 else u / (1 - u)

/-- With these reciprocals two tokens race by weight. -/
theorem racesByWeight_twoReciprocals : RacesByWeight 2 uniform twoReciprocals := by
  intro w hw hpos x hx
  have hw0 := hw 0 (by omega)
  have hw1 := hw 1 (by omega)
  simp only [sum_range_succ, sum_range_zero, zero_add] at hpos ⊢
  -- the first token wins when the uniform number is small enough
  have hspec (u : ℝ) (hu : u ∈ Set.Ico (0 : ℝ) 1) :
      recoveredId BLOCK_SIZE 2 w (twoReciprocals u) < 2 ∧
        (recoveredId BLOCK_SIZE 2 w (twoReciprocals u) = 0 ↔ u ≤ w 0 / (w 0 + w 1)) := by
    have hu1 : 0 < 1 - u := by linarith [hu.2]
    have hq : 0 ≤ u / (1 - u) := div_nonneg hu.1 hu1.le
    have hscore (v : ℕ) (hv : v < 2) : 0 ≤ w v * twoReciprocals u v := by
      refine mul_nonneg (hw v hv) ?_
      unfold twoReciprocals
      split
      · exact zero_le_one
      · exact hq
    have hblock : 0 < BLOCK_SIZE := by decide
    obtain ⟨hlt, hle, hfirst⟩ := recoveredId_spec hblock two_pos hscore
    refine ⟨hlt, ?_⟩
    have hzero : w 1 * (u / (1 - u)) ≤ w 0 ↔ u ≤ w 0 / (w 0 + w 1) := by
      rw [← mul_div_assoc, div_le_iff₀ hu1, le_div_iff₀ hpos]
      constructor <;> intro h <;> nlinarith
    rw [← hzero]
    constructor
    · intro h
      have := hle 1 (by decide)
      rw [h] at this
      simpa [twoReciprocals] using this
    · intro h
      by_contra hne
      obtain hone : recoveredId BLOCK_SIZE 2 w (twoReciprocals u) = 1 := by omega
      have := hfirst 0 (by omega)
      rw [hone] at this
      simp only [twoReciprocals, if_true, one_ne_zero, if_false, mul_one] at this
      linarith
  have hfirst : uniform.real (Set.Iic (w 0 / (w 0 + w 1))) = w 0 / (w 0 + w 1) := by
    rw [uniform_real_Iic (by positivity), min_eq_right ((div_le_one hpos).mpr (by linarith))]
  obtain rfl | rfl : x = 0 ∨ x = 1 := by omega
  · rw [← hfirst]
    exact uniform_real_congr fun u hu => (hspec u hu).2
  · have hsecond : uniform.real (Set.Iic (w 0 / (w 0 + w 1)))ᶜ = w 1 / (w 0 + w 1) := by
      rw [probReal_compl_eq_one_sub measurableSet_Iic, hfirst, eq_div_iff hpos.ne', sub_mul,
        div_mul_cancel₀ _ hpos.ne']
      ring
    rw [← hsecond]
    refine uniform_real_congr fun u hu => ?_
    obtain ⟨hlt, hzero⟩ := hspec u hu
    simp only [Set.mem_ofPred_eq, Set.mem_compl_iff, Set.mem_Iic, ← hzero]
    omega

/-- A target that prefers the second of two tokens. -/
noncomputable def unevenTarget (_ : List ℕ) (v : ℕ) : ℝ := if v = 0 then 1 / 4 else 3 / 4

/-- Draft tokens from a fair coin. -/
noncomputable def fairDrafting : Drafting := .sampled fun _ _ => 1 / 2

/-- Behind an accepted first token, the second of two draft positions emits the preferred token
with its target probability. -/
theorem fairDrafting_keeps_unevenTarget :
    probability 2 2 fairDrafting uniform (fun drafts u ω =>
        ReachesWith (sampledInputs 2 2 unevenTarget fairDrafting 0 twoReciprocals drafts u ω) drafts
          (List.replicate 3 PLACEHOLDER_TOKEN_ID) [0] ∧
        (rejectionSample 2 false false false ⟨0, fun _ => 0, fun _ => 0, 0⟩
          (sampledInputs 2 2 unevenTarget fairDrafting 0 twoReciprocals drafts u ω))[1]? =
            some ((1 : ℕ) : Int)) =
      probability 2 2 fairDrafting uniform (fun drafts u ω =>
        ReachesWith (sampledInputs 2 2 unevenTarget fairDrafting 0 twoReciprocals drafts u ω) drafts
          (List.replicate 3 PLACEHOLDER_TOKEN_ID) [0]) * (3 / 4) := by
  have htarget (context : List ℕ) : IsDistribution 2 (unevenTarget context) :=
    ⟨fun v _ => by unfold unevenTarget; split <;> norm_num,
      by norm_num [sum_range_succ, unevenTarget]⟩
  have hdraft : fairDrafting.Valid 2 := fun context =>
    ⟨fun v _ => by norm_num, by norm_num [sum_range_succ]⟩
  have hkeeps := (rejectionSample_keeps_target 0 (le_refl 2) htarget hdraft
    racesByWeight_twoReciprocals false ⟨0, fun _ => 0, fun _ => 0, 0⟩).1 [0] 1 (by simp) (by simp)
  rwa [unevenTarget, if_neg one_ne_zero] at hkeeps

end Vllm
