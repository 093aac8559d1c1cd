import Vllm.Core.QueuePartition

/-!
# The length limits of a request

The stop test looks at the limits on the length of a request only behind the test for the
minimal number of tokens. So an output that stays below the minimum may reach a limit, and the
request goes on. When it does not, every request that goes on is within its limits.
-/

namespace Vllm

open Checked

variable {H : Type}

namespace Request

/-- A request that counts as unfinished, as `get_num_unfinished_requests` counts, and generates
tokens. A session that waits for its next chunk is not counted. -/
structure Generating (r : Request H) : Prop where
  unfinished : r.status.isFinished = false
  notParked : r.status ≠ .waitingForStreamingReq
  notPooling : r.pooling = false

/-- A request below the length of the model and below its own limit. -/
def Within (maxModelLen : Nat) (r : Request H) : Prop :=
  r.numTokens < maxModelLen ∧ r.numOutputTokens < r.maxTokens

instance (maxModelLen : Nat) (r : Request H) : Decidable (r.Within maxModelLen) :=
  inferInstanceAs (Decidable (_ ∧ _))

/-- A request with more output, up to its block hashes. -/
def withOutput (r : Request H) (tokenIds : List TokenId) : Request H :=
  { r with
    outputTokenIds := r.outputTokenIds ++ tokenIds
    allTokenIds := r.allTokenIds ++ tokenIds }

/-- The first of some tokens that stops a request is the one with number `m`. -/
structure FirstStop (maxModelLen : Nat) (r : Request H) (tokenIds : List TokenId) (m : Nat) :
    Prop where
  pos : 0 < m
  le : m ≤ tokenIds.length
  before : ∀ j, 0 < j → j < m → (r.withOutput (tokenIds.take j)).checkStop maxModelLen = none
  stops : (r.withOutput (tokenIds.take m)).checkStop maxModelLen ≠ none

instance (maxModelLen : Nat) (r : Request H) (tokenIds : List TokenId) (m : Nat) :
    Decidable (r.FirstStop maxModelLen tokenIds m) :=
  decidable_of_iff (0 < m ∧ m ≤ tokenIds.length ∧
      (∀ j < m, 0 < j → (r.withOutput (tokenIds.take j)).checkStop maxModelLen = none) ∧
      (r.withOutput (tokenIds.take m)).checkStop maxModelLen ≠ none)
    ⟨fun h => ⟨h.1, h.2.1, fun j hpos hlt => h.2.2.1 j hlt hpos, h.2.2.2⟩,
      fun h => ⟨h.pos, h.le, fun j hlt hpos => h.before j hpos hlt, h.stops⟩⟩

/-- What is kept of some tokens: those up to the first that stops the request, and all of them
if there is none. -/
def Trimmed (maxModelLen : Nat) (r : Request H) (tokenIds kept : List TokenId) : Prop :=
  (∃ m, FirstStop maxModelLen r tokenIds m ∧ kept = tokenIds.take m) ∨
    (∀ m, ¬ FirstStop maxModelLen r tokenIds m) ∧ kept = tokenIds

/-- The condition on a request under which its output leaves it within the limits. Below the
minimal number of tokens the limits are not tested, and a session that goes on takes its next
chunk whatever its length. -/
structure Fits (maxModelLen numDraftTokens : Nat) (tokenIds : List TokenId) (r : Request H) :
    Prop where
  minTokens : r.status ≠ .waitingForStreamingReq →
    r.numOutputTokens + tokenIds.length < r.samplingParams.minTokens →
    (r.withOutput tokenIds).Within maxModelLen
  nextChunk : ∀ m update rest, FirstStop maxModelLen r tokenIds m → r.resumable = true →
    r.streamingQueue.getD [] = some update :: rest →
    min (if numDraftTokens ≠ 0 then r.rejectDrafts numDraftTokens tokenIds.length
        else r).numComputedTokens.toNat (r.numTokens + m) + update.promptTokenIds.length <
      maxModelLen ∧ 0 < r.maxTokens

/-- Only the chunk at the head of the queue is looked at. -/
private theorem fits_iff {maxModelLen numDraftTokens : Nat} {tokenIds : List TokenId}
    {r : Request H} :
    r.Fits maxModelLen numDraftTokens tokenIds ↔
      (r.status ≠ .waitingForStreamingReq →
        r.numOutputTokens + tokenIds.length < r.samplingParams.minTokens →
        (r.withOutput tokenIds).Within maxModelLen) ∧
      ∀ m < tokenIds.length + 1, r.FirstStop maxModelLen tokenIds m → r.resumable = true →
        ∀ chunk ∈ (r.streamingQueue.getD []).head?, ∀ update ∈ chunk,
          min (if numDraftTokens ≠ 0 then r.rejectDrafts numDraftTokens tokenIds.length
              else r).numComputedTokens.toNat (r.numTokens + m) + update.promptTokenIds.length <
            maxModelLen ∧ 0 < r.maxTokens := by
  constructor
  · rintro ⟨hmin, hnext⟩
    refine ⟨hmin, fun m _ hfirst hresumable chunk hchunk update hupdate => ?_⟩
    obtain ⟨rest, hqueue⟩ := List.head?_eq_some_iff.mp hchunk
    obtain rfl := hupdate
    exact hnext m update rest hfirst hresumable hqueue
  · rintro ⟨hmin, hnext⟩
    refine ⟨hmin, fun m update rest hfirst hresumable hqueue => ?_⟩
    exact hnext m (Nat.lt_succ_of_le hfirst.le) hfirst hresumable (some update)
      (by rw [hqueue]; rfl) update rfl

instance (maxModelLen numDraftTokens : Nat) (tokenIds : List TokenId) (r : Request H) :
    Decidable (r.Fits maxModelLen numDraftTokens tokenIds) :=
  decidable_of_iff _ fits_iff.symm

/-! ## The stop test -/

section Stops

variable {maxModelLen : Nat} {r : Request H} {tokenIds : List TokenId}

/-- The stop test sees appended tokens as more output. -/
theorem checkStop_appendEach (env : HashEnv H) (blockSize : Nat) (tokenIds : List TokenId) :
    (r.appendEach env blockSize tokenIds).checkStop maxModelLen =
      (r.withOutput tokenIds).checkStop maxModelLen := by
  obtain ⟨blockHashes, heq⟩ := appendEach_eq env blockSize r tokenIds
  rw [heq]
  exact checkStop_congr rfl rfl rfl rfl

/-- Below the minimal number of tokens nothing stops a request. -/
theorem checkStop_of_lt_minTokens (h : r.numOutputTokens < r.samplingParams.minTokens) :
    r.checkStop maxModelLen = none := by
  rw [checkStop, if_pos h]

/-- From the minimal number of tokens on, a request with output that goes on is within its
limits. -/
theorem within_of_checkStop_eq_none (houtput : r.outputTokenIds ≠ [])
    (hmin : r.samplingParams.minTokens ≤ r.numOutputTokens)
    (h : r.checkStop maxModelLen = none) : r.Within maxModelLen := by
  obtain ⟨last, hlast⟩ := Option.ne_none_iff_exists'.mp
    (List.getLast?_eq_none_iff.not.mpr houtput)
  rw [checkStop, if_neg (Nat.not_lt.mpr hmin), hlast] at h
  simp only at h
  split at h
  · cases h
  split at h
  · cases h
  split at h
  · cases h
  · rename_i hlimits
    unfold Within
    omega

/-- There is one first stop at most. -/
theorem FirstStop.unique {m m' : Nat} (h : FirstStop maxModelLen r tokenIds m)
    (h' : FirstStop maxModelLen r tokenIds m') : m = m' := by
  rcases Nat.lt_trichotomy m m' with hlt | heq | hgt
  · exact absurd (h'.before m h.pos hlt) h.stops
  · exact heq
  · exact absurd (h.before m' h'.pos hgt) h'.stops

/-- Without a first stop no number of tokens stops the request. -/
private theorem checkStop_of_no_firstStop (h : ∀ m, ¬ FirstStop maxModelLen r tokenIds m) {j : Nat}
    (hpos : 0 < j) (hle : j ≤ tokenIds.length) :
    (r.withOutput (tokenIds.take j)).checkStop maxModelLen = none := by
  induction j using Nat.strong_induction_on with
  | _ j ih =>
    by_contra hstops
    exact h j ⟨hpos, hle, fun i hi hlt => ih i hlt hi (by omega), hstops⟩

/-- An output that stops a request reaches the minimal number of tokens. -/
theorem FirstStop.minTokens_le {m : Nat} (h : FirstStop maxModelLen r tokenIds m) :
    r.samplingParams.minTokens ≤ r.numOutputTokens + tokenIds.length := by
  by_contra hlt
  refine h.stops (checkStop_of_lt_minTokens ?_)
  have hm := h.le
  simp only [numOutputTokens, withOutput, List.length_append, List.length_take] at hlt ⊢
  omega

/-- A request that no token of its output stops is within its limits, unless the output stays
below the minimum. -/
theorem within_of_no_firstStop (h : ∀ m, ¬ FirstStop maxModelLen r tokenIds m)
    (htokens : tokenIds ≠ []) :
    (r.withOutput tokenIds).Within maxModelLen ↔
      (r.numOutputTokens + tokenIds.length < r.samplingParams.minTokens →
        (r.withOutput tokenIds).Within maxModelLen) := by
  refine ⟨fun hwithin _ => hwithin, fun hmin => ?_⟩
  by_cases hlt : r.numOutputTokens + tokenIds.length < r.samplingParams.minTokens
  · exact hmin hlt
  · have hnone := checkStop_of_no_firstStop h (List.length_pos_of_ne_nil htokens) le_rfl
    rw [List.take_length] at hnone
    refine within_of_checkStop_eq_none (by simp [withOutput, htokens]) ?_ hnone
    simp only [numOutputTokens, withOutput, List.length_append] at hlt ⊢
    omega

end Stops

/-! ## The output of a step -/

section Output

variable (env : HashEnv H) (blockSize maxModelLen : Nat)

/-- Rejected drafts change nothing that the stop test reads. -/
theorem firstStop_rejectDrafts {r r' : Request H}
    (h : ∃ n : Nat × Nat, r' = r ∨ r' = r.rejectDrafts n.1 n.2)
    {tokenIds : List TokenId} {m : Nat} :
    FirstStop maxModelLen r' tokenIds m ↔ FirstStop maxModelLen r tokenIds m := by
  obtain ⟨n, rfl | rfl⟩ := h
  · exact Iff.rfl
  · have hcheck (l : List TokenId) : ((r.rejectDrafts n.1 n.2).withOutput l).checkStop maxModelLen =
        (r.withOutput l).checkStop maxModelLen := checkStop_congr rfl rfl rfl rfl
    constructor
    · rintro ⟨hpos, hle, hbefore, hstops⟩
      exact ⟨hpos, hle, fun j hj hlt => hcheck _ ▸ hbefore j hj hlt, hcheck _ ▸ hstops⟩
    · rintro ⟨hpos, hle, hbefore, hstops⟩
      exact ⟨hpos, hle, fun j hj hlt => (hcheck _).symm ▸ hbefore j hj hlt,
        (hcheck _).symm ▸ hstops⟩

/-- The update of a request appends what is kept of the tokens, and stops the request exactly if
one of them does. -/
theorem updateWithOutput_trimmed (r : Request H) (tokenIds : List TokenId) :
    ∃ blockHashes status kept stopped,
      r.updateWithOutput env blockSize maxModelLen tokenIds =
        ({ r.withOutput kept with blockHashes, status }, kept, stopped) ∧
      Trimmed maxModelLen r tokenIds kept ∧
      (stopped.isSome = true ↔ ∃ m, FirstStop maxModelLen r tokenIds m) := by
  rcases updateWithOutput_cases env blockSize r maxModelLen tokenIds with
    ⟨hnone, heq⟩ | ⟨m, status, stopReason, hpos, hle, hbefore, hstop, heq⟩
  · have hgoesOn (m : Nat) : ¬ FirstStop maxModelLen r tokenIds m := by
      intro hm
      exact hm.stops ((checkStop_appendEach env blockSize _).symm.trans (hnone m hm.pos hm.le))
    obtain ⟨blockHashes, happend⟩ := appendEach_eq env blockSize r tokenIds
    refine ⟨blockHashes, r.status, tokenIds, none, ?_, .inr ⟨hgoesOn, rfl⟩, ?_⟩
    · rw [heq, happend]
      rfl
    · constructor
      · intro h
        cases h
      · rintro ⟨m, hm⟩
        exact absurd hm (hgoesOn m)
  · have hfirst : FirstStop maxModelLen r tokenIds m := by
      refine ⟨hpos, hle, fun j hj hlt => ?_, ?_⟩
      · rw [← checkStop_appendEach env blockSize, hbefore j hj hlt]
      · rw [← checkStop_appendEach env blockSize, hstop]
        exact Option.some_ne_none _
    obtain ⟨blockHashes, happend⟩ := appendEach_eq env blockSize r (tokenIds.take m)
    refine ⟨blockHashes, status, tokenIds.take m, some stopReason, ?_, .inl ⟨m, hfirst, rfl⟩, ?_⟩
    · rw [heq, happend]
      rfl
    · exact ⟨fun _ => ⟨m, hfirst⟩, fun _ => rfl⟩

/-- What the output of a step does to the tokens of a request. -/
structure TookOutput (numDraftTokens : Nat) (tokenIds : List TokenId) (r : Request H)
    (result : Request H × List TokenId × Bool) : Prop where
  kept : Trimmed maxModelLen r tokenIds result.2.1
  stopped : result.2.2 = true ↔ ∃ m, FirstStop maxModelLen r tokenIds m
  outputTokenIds : result.1.outputTokenIds = r.outputTokenIds ++ result.2.1
  allTokenIds : result.1.allTokenIds = r.allTokenIds ++ result.2.1
  maxTokens : result.1.maxTokens = r.maxTokens
  pooling : result.1.pooling = r.pooling
  numComputedTokens : result.1.numComputedTokens = (if numDraftTokens ≠ 0 then
    r.rejectDrafts numDraftTokens tokenIds.length else r).numComputedTokens

/-- A request takes sampled tokens unless it drops them. -/
theorem tookOutput {asyncScheduling poolerOutput : Bool} {numDraftTokens : Nat}
    {tokenIds : List TokenId} {r : Request H} (htokens : tokenIds ≠ [])
    (hkeeps : ¬ (asyncScheduling ∧ r.discardLatestAsyncTokens)) :
    TookOutput maxModelLen numDraftTokens tokenIds r
      (r.takeOutput env blockSize maxModelLen asyncScheduling numDraftTokens tokenIds
        poolerOutput) := by
  have hreject : (if numDraftTokens ≠ 0 ∧ tokenIds ≠ [] then
      r.rejectDrafts numDraftTokens tokenIds.length else r) =
      if numDraftTokens ≠ 0 then r.rejectDrafts numDraftTokens tokenIds.length else r := by
    by_cases hdrafts : numDraftTokens ≠ 0
    · rw [if_pos ⟨hdrafts, htokens⟩, if_pos hdrafts]
    · rw [if_neg fun h => hdrafts h.1, if_neg hdrafts]
  simp only [takeOutput, if_pos htokens, hreject]
  generalize hr' : (if numDraftTokens ≠ 0 then r.rejectDrafts numDraftTokens tokenIds.length
    else r) = r'
  have hsame : ∃ n : Nat × Nat, r' = r ∨ r' = r.rejectDrafts n.1 n.2 := by
    refine ⟨(numDraftTokens, tokenIds.length), ?_⟩
    rw [← hr']
    split
    · exact .inr rfl
    · exact .inl rfl
  have hfields : r'.outputTokenIds = r.outputTokenIds ∧ r'.allTokenIds = r.allTokenIds ∧
      r'.maxTokens = r.maxTokens ∧ r'.pooling = r.pooling ∧
      r'.discardLatestAsyncTokens = r.discardLatestAsyncTokens := by
    obtain ⟨n, rfl | rfl⟩ := hsame <;> exact ⟨rfl, rfl, rfl, rfl, rfl⟩
  have hfirst (m : Nat) :
      FirstStop maxModelLen r' tokenIds m ↔ FirstStop maxModelLen r tokenIds m :=
    firstStop_rejectDrafts maxModelLen hsame
  obtain ⟨houtput, hall, hmax, hpooling, hdiscard⟩ := hfields
  obtain ⟨blockHashes, status, kept, stopped, heq, htrimmed, hstopped⟩ :=
    updateWithOutput_trimmed env blockSize maxModelLen r' tokenIds
  rw [fillOutput, hdiscard, if_neg hkeeps, heq]
  refine ⟨?_, ?_, ?_, ?_, hmax, hpooling, ?_⟩
  · unfold Trimmed at htrimmed ⊢
    simpa only [hfirst] using htrimmed
  · simpa only [hfirst] using hstopped
  · exact congrArg (· ++ kept) houtput
  · exact congrArg (· ++ kept) hall
  · rw [hr']
    rfl

end Output

/-- A request without sampled tokens, or one that drops them, keeps its tokens, and only pooling
requests stop then. -/
theorem takeOutput_of_not_taking (env : HashEnv H) (blockSize maxModelLen : Nat)
    {asyncScheduling poolerOutput : Bool} {numDraftTokens : Nat} {tokenIds : List TokenId}
    {r : Request H} (h : ¬ (tokenIds ≠ [] ∧ ¬ (asyncScheduling ∧ r.discardLatestAsyncTokens)))
    {result : Request H × List TokenId × Bool}
    (hresult : r.takeOutput env blockSize maxModelLen asyncScheduling numDraftTokens tokenIds
      poolerOutput = result) :
    result.1.outputTokenIds = r.outputTokenIds ∧ result.1.allTokenIds = r.allTokenIds ∧
      result.1.maxTokens = r.maxTokens ∧ result.1.pooling = r.pooling ∧ result.2.1 = [] ∧
      (result.2.2 = true → r.pooling = true) := by
  subst hresult
  by_cases htokens : tokenIds = []
  · simp only [takeOutput, htokens, ne_eq, not_true_eq_false, and_false, if_false]
    split
    · rename_i hpooled
      exact ⟨rfl, rfl, rfl, rfl, rfl, fun _ => hpooled.1⟩
    · refine ⟨rfl, rfl, rfl, rfl, rfl, fun hfalse => ?_⟩
      cases hfalse
  · have hdrop : asyncScheduling ∧ r.discardLatestAsyncTokens := by
      by_contra hkeeps
      exact h ⟨htokens, hkeeps⟩
    simp only [takeOutput, ne_eq, htokens, not_false_eq_true, and_true, if_true]
    split
    · have hdrop' : asyncScheduling ∧
          (r.rejectDrafts numDraftTokens tokenIds.length).discardLatestAsyncTokens := hdrop
      rw [fillOutput, if_pos hdrop']
      refine ⟨rfl, rfl, rfl, rfl, rfl, fun hfalse => ?_⟩
      cases hfalse
    · rw [fillOutput, if_pos hdrop]
      refine ⟨rfl, rfl, rfl, rfl, rfl, fun hfalse => ?_⟩
      cases hfalse

/-- The lengths of a session at its next chunk. -/
theorem updateAsSession_lengths {env : HashEnv H} {blockSize : Nat} {r session : Request H}
    {update : StreamingUpdate} (h : r.updateAsSession env blockSize update = some session) :
    session.numTokens =
        min r.numComputedTokens.toNat r.numTokens + update.promptTokenIds.length ∧
      session.numOutputTokens = 0 ∧ session.maxTokens = r.maxTokens ∧
      session.pooling = r.pooling ∧ session.status = .waiting := by
  obtain ⟨tokens, rfl⟩ := updateAsSession_eq_some h
  refine ⟨?_, rfl, rfl, rfl, rfl⟩
  change (r.keptTokenIds ++ update.promptTokenIds).length = _
  rw [List.length_append, keptTokenIds, List.length_take]
  rfl

/-- What becomes of a request behind its output when it is stopped: it is finished, goes on with
its next chunk or waits for one. -/
inductive Settled (env : HashEnv H) (blockSize : Nat) (r : Request H) : Request H → Prop
  | finished (queue : Option (List (Option StreamingUpdate)))
      (hfinished : r.status.isFinished = true) (hnext : r.hasNextChunk = false) :
      Settled env blockSize r { r with streamingQueue := queue }
  | nextChunk (update : StreamingUpdate) (rest : List (Option StreamingUpdate))
      (session : Request H) (hresumable : r.resumable = true)
      (hqueue : r.streamingQueue.getD [] = some update :: rest)
      (hsession : Request.updateAsSession env blockSize
        { r with streamingQueue := some rest } update = some session) :
      Settled env blockSize r session
  | parked (hnext : r.hasNextChunk = false) :
      Settled env blockSize r { r with status := .waitingForStreamingReq }

/-- What becomes of a request that took its output, and what is returned of it. -/
inductive Updated (env : HashEnv H) (blockSize : Nat) (requestId : RequestId) (pooled : Bool)
    (taken : Request H × List TokenId × Bool) : Request H → List EngineCoreOutput → Prop
  | goesOn (hstop : taken.2.2 = false) :
      Updated env blockSize requestId pooled taken taken.1
        (if taken.2.1 ≠ [] ∨ pooled then [⟨requestId, taken.2.1, none⟩] else [])
  | stops (r : Request H) (finishReason : Option FinishReason) (hstop : taken.2.2 = true)
      (hsettled : Settled env blockSize taken.1 r) :
      Updated env blockSize requestId pooled taken r [⟨requestId, taken.2.1, finishReason⟩]

/-- A request behind kept tokens: they are appended, or a session that goes on has given up its
output and starts its next chunk behind some of its tokens. -/
def TokensAppended (r r' : Request H) (kept : List TokenId) : Prop :=
  (r'.outputTokenIds = r.outputTokenIds ++ kept ∧ r'.allTokenIds = r.allTokenIds ++ kept) ∨
    r'.outputTokenIds = [] ∧
      ∃ n chunk, r'.allTokenIds = (r.allTokenIds ++ kept).take n ++ chunk

section Limits

variable {env : HashEnv H} {blockSize maxModelLen numDraftTokens : Nat} {requestId : RequestId}
  {pooled : Bool} {r r' : Request H} {tokenIds : List TokenId}
  {taken : Request H × List TokenId × Bool} {outputs : List EngineCoreOutput}

/-- No output makes a request another kind of request. -/
theorem Updated.pooling (h : Updated env blockSize requestId pooled taken r' outputs) :
    r'.pooling = taken.1.pooling := by
  cases h with
  | goesOn _ => rfl
  | stops _ finishReason _ hsettled =>
    cases hsettled with
    | finished _ _ _ => rfl
    | nextChunk update rest session _ _ hsession =>
      exact (updateAsSession_lengths hsession).2.2.2.1
    | parked _ => rfl

/-- A request that goes on is what it was behind its output. -/
theorem Updated.eq_of_goesOn (h : Updated env blockSize requestId pooled taken r' outputs)
    (hgoesOn : taken.2.2 = false) : r' = taken.1 := by
  cases h with
  | goesOn _ => rfl
  | stops _ _ hstop _ =>
    rw [hgoesOn] at hstop
    cases hstop

/-- What is returned of a request is what was appended to it. -/
theorem Updated.tokensAppended (h : Updated env blockSize requestId pooled taken r' outputs)
    (houtput : taken.1.outputTokenIds = r.outputTokenIds ++ taken.2.1)
    (hall : taken.1.allTokenIds = r.allTokenIds ++ taken.2.1) :
    TokensAppended r r' taken.2.1 ∧ ∀ o ∈ outputs, o.newTokenIds = taken.2.1 := by
  cases h with
  | goesOn _ =>
    refine ⟨.inl ⟨houtput, hall⟩, fun o ho => ?_⟩
    split at ho
    · rw [List.mem_singleton.mp ho]
    · cases ho
  | stops _ finishReason _ hsettled =>
    refine ⟨?_, fun o ho => by rw [List.mem_singleton.mp ho]⟩
    cases hsettled with
    | finished _ _ _ => exact .inl ⟨houtput, hall⟩
    | parked _ => exact .inl ⟨houtput, hall⟩
    | nextChunk update rest session _ _ hsession =>
      obtain ⟨tokens, rfl⟩ := updateAsSession_eq_some hsession
      refine .inr ⟨rfl, taken.1.numComputedTokens.toNat, update.promptTokenIds, ?_⟩
      rw [← hall]
      rfl

/-- A chunk is at hand for a resumable request whose queue starts with one. -/
private theorem hasNextChunk_eq_true {update : StreamingUpdate}
    {rest : List (Option StreamingUpdate)} (hresumable : r.resumable = true)
    (hqueue : r.streamingQueue.getD [] = some update :: rest) : r.hasNextChunk = true := by
  rw [hasNextChunk, hqueue]
  exact hresumable

/-- A request that is stopped for good, or until its next chunk, fits. -/
theorem fits_of_stop {m : Nat} (hfirst : FirstStop maxModelLen r tokenIds m)
    (hframe : OutputFrame r taken.1) (hnext : taken.1.hasNextChunk = false) :
    Fits maxModelLen numDraftTokens tokenIds r where
  minTokens _ hlt := absurd hfirst.minTokens_le (Nat.not_le.mpr hlt)
  nextChunk m' update rest _ hresumable hqueue := by
    rw [hasNextChunk_eq_true (hframe.resumable.trans hresumable)
      ((congrArg (·.getD []) hframe.streamingQueue).trans hqueue)] at hnext
    cases hnext

/-- A generation request that takes its output is within its limits behind it exactly if it
fits. -/
theorem within_iff_fits (hpooling : r.pooling = false) (hunfinished : r.status.isFinished = false)
    (htokens : tokenIds ≠ []) (htook : TookOutput maxModelLen numDraftTokens tokenIds r taken)
    (houtcome : Outcome r taken)
    (hupdated : Updated env blockSize requestId pooled taken r' outputs) :
    (r'.Generating → r'.Within maxModelLen) ↔ Fits maxModelLen numDraftTokens tokenIds r := by
  cases hupdated with
  | goesOn hstop =>
    have hnone : ∀ m, ¬ FirstStop maxModelLen r tokenIds m := by
      intro m hm
      rw [htook.stopped.mpr ⟨m, hm⟩] at hstop
      cases hstop
    have hkept : taken.2.1 = tokenIds := by
      rcases htook.kept with ⟨m, hm, -⟩ | ⟨-, hkept⟩
      · exact absurd hm (hnone m)
      · exact hkept
    have hstatus := houtcome.status hstop
    have hgenerating : taken.1.Generating ↔ r.status ≠ .waitingForStreamingReq := by
      constructor
      · intro h
        rw [← hstatus]
        exact h.notParked
      · intro h
        exact ⟨hstatus ▸ hunfinished, hstatus ▸ h, htook.pooling.trans hpooling⟩
    have hwithin : taken.1.Within maxModelLen ↔ (r.withOutput tokenIds).Within maxModelLen := by
      simp only [Within, numTokens, numOutputTokens, htook.allTokenIds, htook.outputTokenIds,
        htook.maxTokens, hkept, withOutput]
    rw [hgenerating, hwithin]
    constructor
    · intro h
      exact ⟨fun hparked _ => h hparked, fun m _ _ hm => absurd hm (hnone m)⟩
    · intro h hparked
      exact (within_of_no_firstStop hnone htokens).mpr (h.minTokens hparked)
  | stops _ finishReason hstop hsettled =>
    obtain ⟨m, hfirst⟩ := htook.stopped.mp hstop
    have hkept : taken.2.1 = tokenIds.take m := by
      rcases htook.kept with ⟨m', hm', hkept⟩ | ⟨hnone, -⟩
      · rw [hkept, hm'.unique hfirst]
      · exact absurd hfirst (hnone m)
    have hframe := houtcome.frame
    cases hsettled with
    | finished queue hfinished hnext =>
      refine ⟨fun _ => fits_of_stop hfirst hframe hnext, fun _ hgenerating => ?_⟩
      have hlive := hgenerating.unfinished
      rw [hfinished] at hlive
      cases hlive
    | parked hnext =>
      refine ⟨fun _ => fits_of_stop hfirst hframe hnext, fun _ hgenerating => ?_⟩
      exact absurd rfl hgenerating.notParked
    | nextChunk update rest session hresumable hqueue hsession =>
      obtain ⟨hlength, houtput, hmax, hsame, hstatus⟩ := updateAsSession_lengths hsession
      have hgenerating : r'.Generating := by
        refine ⟨by rw [hstatus]; rfl, by rw [hstatus]; decide, ?_⟩
        exact hsame.trans (htook.pooling.trans hpooling)
      have htaken : taken.1.numTokens = r.numTokens + m := by
        rw [numTokens, htook.allTokenIds, hkept, List.length_append, List.length_take,
          Nat.min_eq_left hfirst.le]
        rfl
      have hwithin : r'.Within maxModelLen ↔
          min (if numDraftTokens ≠ 0 then r.rejectDrafts numDraftTokens tokenIds.length
              else r).numComputedTokens.toNat (r.numTokens + m) + update.promptTokenIds.length <
            maxModelLen ∧ 0 < r.maxTokens := by
        rw [Within, hlength, houtput, hmax, ← htook.numComputedTokens, ← htaken,
          ← htook.maxTokens]
        rfl
      constructor
      · intro h
        refine ⟨fun _ hlt => absurd hfirst.minTokens_le (Nat.not_le.mpr hlt),
          fun m' update' rest' hm' _ hqueue' => ?_⟩
        have hsameQueue := (congrArg (·.getD []) hframe.streamingQueue).symm.trans hqueue
        obtain ⟨hupdate, -⟩ := List.cons.inj (hqueue'.symm.trans hsameQueue)
        obtain rfl := Option.some.inj hupdate
        rw [hm'.unique hfirst]
        exact hwithin.mp (h hgenerating)
      · intro h _
        refine hwithin.mpr (h.nextChunk m update rest hfirst (hframe.resumable ▸ hresumable) ?_)
        exact (congrArg (·.getD []) hframe.streamingQueue).symm.trans hqueue

end Limits

end Request

namespace Scheduler

open Request

variable {s s₁ s₂ s' : Scheduler H} {env : HashEnv H} {requestId : RequestId}

/-- A stopped request settles, and stays known unless it is finished. -/
theorem settled_of_handle {finished : Bool}
    (hhandle : s.handleStoppedRequest env requestId = .ok (finished, s₁))
    (hfree : s₁.freeIf finished requestId = .ok s₂) (hfinished :
      (s.request requestId).status.isFinished = true) (hlive : requestId ∈ s.requests) :
    Settled env s.hashBlockSize (s.request requestId) (s₂.request requestId) ∧
      ((s₂.request requestId).status.isFinished = false → requestId ∈ s₂.requests) := by
  have hfreed (queue : Option (List (Option StreamingUpdate))) {s₁ : Scheduler H}
      (hs₁ : s₁.request requestId = { s.request requestId with streamingQueue := queue })
      (hfree : s₁.freeIf true requestId = .ok s₂) :
      s₂.request requestId = { s.request requestId with streamingQueue := queue } := by
    obtain ⟨-, hfree⟩ | ⟨hfalse, -⟩ := freeIf_cases hfree
    · obtain ⟨-, kv, -, rfl⟩ := freeRequest_eq_ok hfree
      exact hs₁
    · cases hfalse
  have hgone {q : Request H} {queue : Option (List (Option StreamingUpdate))}
      (hq : q = { s.request requestId with streamingQueue := queue }) :
      q.status.isFinished = false → requestId ∈ s₂.requests := by
    intro hunfinished
    rw [hq, hfinished] at hunfinished
    cases hunfinished
  unfold handleStoppedRequest at hhandle
  simp only at hhandle
  split at hhandle
  · rename_i hresumable
    obtain ⟨rfl, rfl⟩ := Prod.mk.inj (Except.ok.inj hhandle)
    have hnext : (s.request requestId).hasNextChunk = false := by
      unfold hasNextChunk
      split
      · simpa using hresumable
      · rfl
    have hq := hfreed (s.request requestId).streamingQueue rfl hfree
    rw [hq]
    exact ⟨.finished _ hfinished hnext, hgone rfl⟩
  rename_i hresumable
  split at hhandle
  · rename_i rest hqueue
    obtain ⟨rfl, rfl⟩ := Prod.mk.inj (Except.ok.inj hhandle)
    have hnext : (s.request requestId).hasNextChunk = false := by rw [hasNextChunk, hqueue]
    have hq := hfreed (some rest) (by simp only [modify_request, if_true]) hfree
    rw [hq]
    exact ⟨.finished _ hfinished hnext, hgone rfl⟩
  · rename_i update rest hqueue
    simp only [bind_ok_iff, pure_ok_iff, Prod.mk.injEq] at hhandle
    obtain ⟨s₃, hupdate, rfl, rfl⟩ := hhandle
    obtain ⟨session, hsession, rfl⟩ := updateRequestAsSession_eq_ok hupdate
    simp only [modify_request, if_true] at hsession
    obtain ⟨hfalse, -⟩ | ⟨-, rfl⟩ := freeIf_cases hfree
    · cases hfalse
    · have hrequest : (((s.modify requestId fun r => { r with streamingQueue := some rest
          }).withSession requestId session).enqueueWaitingRequest requestId).request requestId =
            session := by
        simp only [enqueueWaitingRequest_request, withSession, modify_modify, modify_request,
          if_true]
      rw [hrequest]
      refine ⟨.nextChunk update rest session (by simpa using hresumable) hqueue hsession,
        fun _ => ?_⟩
      rw [enqueueWaitingRequest_requests]
      exact hlive
  · rename_i hqueue
    obtain ⟨rfl, rfl⟩ := Prod.mk.inj (Except.ok.inj hhandle)
    have hnext : (s.request requestId).hasNextChunk = false := by rw [hasNextChunk, hqueue]
    obtain ⟨hfalse, -⟩ | ⟨-, rfl⟩ := freeIf_cases hfree
    · cases hfalse
    · simp only [enqueueWaitingRequest_request, modify_request, if_true,
        enqueueWaitingRequest_requests]
      exact ⟨.parked hnext, fun _ => hlive⟩

section Update

variable [DecidableEq H] {out : SchedulerOutput} {model : ModelRunnerOutput}
  {u u' : UpdatePass H} {e : RequestId × Int}

/-- The output of one request updates it, if it is unfinished, and is returned once. -/
theorem updateOne_updated (h : updateOne env out model u e = .ok u') :
    (u.scheduler.isUnfinished e.1 = false ∧ u' = u) ∨
      u.scheduler.isUnfinished e.1 = true ∧
      ((u'.scheduler.request e.1).status.isFinished = false → e.1 ∈ u'.scheduler.requests) ∧
      ∃ outputs, u'.outputs = u.outputs ++ outputs ∧
        Updated env u.scheduler.hashBlockSize e.1 (model.poolerOutput e.1)
          (u.scheduler.takenOutput env out model e.1) (u'.scheduler.request e.1) outputs := by
  simp only [updateOne, bind_ok_iff, ensure_eq_ok] at h
  obtain ⟨_, -, h⟩ := h
  split at h
  · rename_i hgone
    exact .inl ⟨by simpa using hgone, (pure_ok_iff.mp h).symm⟩
  rename_i hlive
  simp only [bind_ok_iff, Prod.exists] at h
  obtain ⟨s, newTokenIds, stopped, htake, h⟩ := h
  obtain ⟨hresult, kv, rfl, hkv⟩ := takeOutput_eq_ok htake
  have hunfinished : u.scheduler.isUnfinished e.1 = true := by simpa using hlive
  have hmem : e.1 ∈ u.scheduler.requests := by
    simp only [isUnfinished, decide_eq_true_eq] at hunfinished
    exact hunfinished.1
  refine .inr ⟨hunfinished, ?_⟩
  have hblock : kv.config = u.scheduler.kvCacheManager.config := by
    rcases hkv with rfl | hkv
    · rfl
    · exact KVCacheManager.cacheBlocks_config hkv
  have houtcome := Request.outcome_takeOutput env u.scheduler.hashBlockSize
    u.scheduler.config.maxModelLen u.scheduler.config.asyncScheduling
    ((out.scheduledSpecDecodeTokens.get? e.1).getD []).length (model.sampledTokenIds e.1)
    (model.poolerOutput e.1) (u.scheduler.request e.1)
  change (u.scheduler.request e.1).Outcome (u.scheduler.takenOutput env out model e.1) at houtcome
  generalize htaken : u.scheduler.takenOutput env out model e.1 = taken at *
  obtain ⟨updated, tokens, stop⟩ := taken
  obtain ⟨rfl, rfl⟩ := Prod.mk.inj hresult
  cases stopped with
  | false =>
    simp only [Bool.not_false, if_true, pure_ok_iff] at h
    obtain rfl := h
    refine ⟨fun _ => hmem, if newTokenIds ≠ [] ∨ model.poolerOutput e.1 = true then
      [⟨e.1, newTokenIds, none⟩] else [], ?_, ?_⟩
    · simp only
      split
      · rfl
      · rw [List.append_nil]
    · have hgoesOn : Updated env u.scheduler.hashBlockSize e.1 (model.poolerOutput e.1)
          (updated, newTokenIds, false) updated
          (if newTokenIds ≠ [] ∨ model.poolerOutput e.1 = true then
            [⟨e.1, newTokenIds, none⟩] else []) := .goesOn rfl
      simpa only [modify_request, if_true] using hgoesOn
  | true =>
    simp only [Bool.not_true, Bool.false_eq_true, if_false, bind_ok_iff, Prod.exists,
      pure_ok_iff] at h
    obtain ⟨finished, s₁, hhandle, s₂, hfree, rfl⟩ := h
    obtain ⟨hsettled, hknown⟩ := settled_of_handle hhandle hfree
      (by simpa using houtcome.finished rfl) hmem
    refine ⟨hknown, _, rfl, ?_⟩
    have hsettled' : Settled env u.scheduler.hashBlockSize updated (s₂.request e.1) := by
      have hsize : ({ u.scheduler.modify e.1 fun _ => updated with
          kvCacheManager := kv } : Scheduler H).hashBlockSize = u.scheduler.hashBlockSize :=
        congrArg KVCacheConfig.hashBlockSize hblock
      rw [hsize] at hsettled
      simpa using hsettled
    exact Updated.stops _ _ rfl hsettled'

/-- What a pass holds of one request. -/
def UpdatePass.view (u : UpdatePass H) (r : RequestId) :
    Request H × Bool × SchedulerConfig × Nat × List EngineCoreOutput :=
  (u.scheduler.request r, decide (r ∈ u.scheduler.requests), u.scheduler.config,
    u.scheduler.hashBlockSize, u.outputs.filter (·.requestId = r))

variable {outputs : List EngineCoreOutput}

omit [DecidableEq H] in
/-- What is returned of a request carries its name. -/
theorem requestId_of_updated {blockSize : Nat} {r : RequestId} {pooled : Bool}
    {taken : Request H × List TokenId × Bool} {q : Request H}
    (h : Updated env blockSize r pooled taken q outputs) : ∀ o ∈ outputs, o.requestId = r := by
  cases h with
  | goesOn _ =>
    intro o ho
    split at ho
    · rw [List.mem_singleton.mp ho]
    · cases ho
  | stops _ _ _ _ =>
    intro o ho
    rw [List.mem_singleton.mp ho]

/-- The output of one request leaves the view of the others alone. -/
private theorem view_updateOne (h : updateOne env out model u e = .ok u') (r : RequestId)
    (hne : r ≠ e.1) : u'.view r = u.view r := by
  obtain ⟨hothers, -, -⟩ := othersStay_updateOne h
  have hlive : (r ∈ u'.scheduler.requests) = (r ∈ u.scheduler.requests) := by
    rw [← List.count_pos_iff, ← List.count_pos_iff, hothers.requests r hne]
  have houtputs : u'.outputs.filter (·.requestId = r) = u.outputs.filter (·.requestId = r) := by
    rcases updateOne_updated h with ⟨-, rfl⟩ | ⟨-, -, outputs, heq, hupdated⟩
    · rfl
    · have hnone : outputs.filter (·.requestId = r) = [] := by
        rw [List.filter_eq_nil_iff]
        intro o ho
        rw [requestId_of_updated hupdated o ho]
        simpa using hne.symm
      rw [heq, List.filter_append, hnone, List.append_nil]
  simp only [UpdatePass.view, hothers.request r hne, hothers.config, hothers.hashBlockSize, hlive,
    houtputs]

/-- An update changes the requests of its step that are unfinished, each once, and returns what
was kept of their tokens. -/
theorem updateFromOutput_updated (h : s.updateFromOutput env out model = .ok (outputs, s'))
    (r : RequestId) :
    s'.config = s.config ∧
      (((r ∉ out.numScheduledTokens.entries.map Prod.fst ∨ s.isUnfinished r = false) ∧
          s'.request r = s.request r ∧ (r ∈ s'.requests ↔ r ∈ s.requests) ∧
          ∀ o ∈ outputs, o.requestId ≠ r) ∨
        (r ∈ out.numScheduledTokens.entries.map Prod.fst ∧ s.isUnfinished r = true) ∧
          ((s'.request r).status.isFinished = false → r ∈ s'.requests) ∧
          Updated env s.hashBlockSize r (model.poolerOutput r) (s.takenOutput env out model r)
            (s'.request r) (outputs.filter (·.requestId = r))) := by
  obtain ⟨u, hfold, rfl, rfl⟩ := updateFromOutput_eq_ok h
  have hconfig : u.finish.config = u.scheduler.config := by rw [u.finish_eq]
  rw [hconfig, UpdatePass.finish_request, UpdatePass.finish_requests]
  have hkeep {u' : UpdatePass H} (hview : u'.view r = UpdatePass.view { scheduler := s } r) :
      u'.scheduler.config = s.config ∧ u'.scheduler.hashBlockSize = s.hashBlockSize ∧
        u'.scheduler.request r = s.request r ∧
        (r ∈ u'.scheduler.requests ↔ r ∈ s.requests) ∧
        u'.outputs.filter (·.requestId = r) = [] := by
    simp only [UpdatePass.view, Prod.mk.injEq, decide_eq_decide, List.filter_nil] at hview
    obtain ⟨hrequest, hlive, hconfig, hsize, houtputs⟩ := hview
    exact ⟨hconfig, hsize, hrequest, hlive, houtputs⟩
  rcases foldlM_once UpdatePass.view (fun u e u' hstep r hne => view_updateOne hstep r hne)
      out.numScheduledTokens.nodup_keys hfold r with
    ⟨hnot, hview⟩ | ⟨e, he, rfl, u₁, u₂, hstep, hbefore, hafter⟩
  · obtain ⟨hconfig, -, hrequest, hlive, houtputs⟩ := hkeep hview
    refine ⟨hconfig, .inl ⟨.inl hnot, hrequest, hlive, fun o ho heq => ?_⟩⟩
    exact (List.filter_eq_nil_iff.mp houtputs) o ho (by simpa using heq)
  · obtain ⟨hconfig₁, hsize₁, hrequest₁, hlive₁, houtputs₁⟩ := hkeep hbefore
    have hunfinished : u₁.scheduler.isUnfinished e.1 = s.isUnfinished e.1 := by
      simp only [isUnfinished, hrequest₁, hlive₁]
    simp only [UpdatePass.view, Prod.mk.injEq, decide_eq_decide] at hafter
    obtain ⟨hrequest, hlive, hconfig, -, houtputs⟩ := hafter
    have hconfig₂ : u₂.scheduler.config = u₁.scheduler.config :=
      (othersStay_updateOne hstep).1.config
    refine ⟨hconfig.trans (hconfig₂.trans hconfig₁), ?_⟩
    rcases updateOne_updated hstep with ⟨hgone, rfl⟩ | ⟨hlive₂, hknown, outs, hnew, hupdated⟩
    · refine .inl ⟨.inr (hunfinished ▸ hgone), hrequest.trans hrequest₁, hlive.trans hlive₁,
        fun o ho heq => ?_⟩
      exact (List.filter_eq_nil_iff.mp (houtputs.trans houtputs₁)) o ho (by simpa using heq)
    · refine .inr ⟨⟨List.mem_map_of_mem he, hunfinished ▸ hlive₂⟩, fun hstatus => ?_, ?_⟩
      · rw [hrequest] at hstatus
        exact hlive.mpr (hknown hstatus)
      · have htaken : u₁.scheduler.takenOutput env out model e.1 =
            s.takenOutput env out model e.1 := by
          simp only [takenOutput, hrequest₁, hsize₁, hconfig₁]
        have hall : outs.filter (·.requestId = e.1) = outs :=
          List.filter_eq_self.mpr fun o ho => by
            simpa using requestId_of_updated hupdated o ho
        rw [houtputs, hnew, List.filter_append, houtputs₁, hall, List.nil_append, hrequest,
          ← htaken, ← hsize₁]
        exact hupdated

/-! ## An update -/

/-- A request takes sampled tokens in an update: it is scheduled and unfinished, and does not
drop them. -/
structure TakesOutput (s : Scheduler H) (out : SchedulerOutput) (model : ModelRunnerOutput)
    (r : RequestId) : Prop where
  scheduled : r ∈ out.numScheduledTokens.entries.map Prod.fst
  unfinished : s.isUnfinished r = true
  sampled : model.sampledTokenIds r ≠ []
  keeps : ¬ (s.config.asyncScheduling ∧ (s.request r).discardLatestAsyncTokens)

instance (s : Scheduler H) (out : SchedulerOutput) (model : ModelRunnerOutput) (r : RequestId) :
    Decidable (s.TakesOutput out model r) :=
  decidable_of_iff (r ∈ out.numScheduledTokens.entries.map Prod.fst ∧ s.isUnfinished r = true ∧
      model.sampledTokenIds r ≠ [] ∧
      ¬ (s.config.asyncScheduling ∧ (s.request r).discardLatestAsyncTokens))
    ⟨fun h => ⟨h.1, h.2.1, h.2.2.1, h.2.2.2⟩,
      fun h => ⟨h.scheduled, h.unfinished, h.sampled, h.keeps⟩⟩

/-- No unfinished generation request has reached a limit. -/
def LengthsEnd (s : Scheduler H) : Prop :=
  ∀ r ∈ s.requests, (s.request r).Generating → (s.request r).Within s.config.maxModelLen

/-- The tokens that a request takes fit it. -/
def OutputFits (s : Scheduler H) (out : SchedulerOutput) (model : ModelRunnerOutput)
    (r : RequestId) : Prop :=
  s.TakesOutput out model r → (s.request r).pooling = false →
    (s.request r).Fits s.config.maxModelLen
      ((out.scheduledSpecDecodeTokens.get? r).getD []).length (model.sampledTokenIds r)

instance (s : Scheduler H) (out : SchedulerOutput) (model : ModelRunnerOutput) (r : RequestId) :
    Decidable (s.OutputFits out model r) :=
  inferInstanceAs (Decidable (_ → _ → _))

/-- A request that takes no tokens is within its limits already. -/
def IdleFits (s : Scheduler H) (out : SchedulerOutput) (model : ModelRunnerOutput)
    (r : RequestId) : Prop :=
  ¬ s.TakesOutput out model r → r ∈ s.requests → (s.request r).Generating →
    (s.request r).Within s.config.maxModelLen

omit [DecidableEq H] in
/-- What a request takes, if it takes tokens. -/
theorem TakesOutput.took {r : RequestId} (h : s.TakesOutput out model r) (env : HashEnv H) :
    TookOutput s.config.maxModelLen
      ((out.scheduledSpecDecodeTokens.get? r).getD []).length (model.sampledTokenIds r)
      (s.request r) (s.takenOutput env out model r) :=
  tookOutput env s.hashBlockSize s.config.maxModelLen h.sampled h.keeps

omit [DecidableEq H] in
/-- What a scheduled request takes, if it takes no tokens. -/
theorem takenOutput_of_not_takes {r : RequestId} (env : HashEnv H)
    (hscheduled : r ∈ out.numScheduledTokens.entries.map Prod.fst)
    (hunfinished : s.isUnfinished r = true) (h : ¬ s.TakesOutput out model r) :
    (s.takenOutput env out model r).1.outputTokenIds = (s.request r).outputTokenIds ∧
      (s.takenOutput env out model r).1.allTokenIds = (s.request r).allTokenIds ∧
      (s.takenOutput env out model r).1.maxTokens = (s.request r).maxTokens ∧
      (s.takenOutput env out model r).1.pooling = (s.request r).pooling ∧
      (s.takenOutput env out model r).2.1 = [] ∧
      ((s.takenOutput env out model r).2.2 = true → (s.request r).pooling = true) :=
  takeOutput_of_not_taking env s.hashBlockSize s.config.maxModelLen
    (fun htakes => h ⟨hscheduled, hunfinished, htakes.1, htakes.2⟩) rfl

/-- In every update the tokens that are appended to a request are those that are returned of it:
the sampled ones up to the first that stops the request. -/
theorem tokens_trimmed (h : s.updateFromOutput env out model = .ok (outputs, s')) (r : RequestId) :
    ∃ kept, TokensAppended (s.request r) (s'.request r) kept ∧
      (∀ o ∈ outputs, o.requestId = r → o.newTokenIds = kept) ∧
      (s.TakesOutput out model r →
        Trimmed s.config.maxModelLen (s.request r) (model.sampledTokenIds r) kept) ∧
      (¬ s.TakesOutput out model r → kept = []) := by
  rcases (updateFromOutput_updated h r).2 with
    ⟨hgone, hrequest, -, houtputs⟩ | ⟨⟨hscheduled, hunfinished⟩, -, hupdated⟩
  · refine ⟨[], .inl ?_, fun o ho heq => absurd heq (houtputs o ho), fun htakes => ?_,
      fun _ => rfl⟩
    · rw [hrequest, List.append_nil, List.append_nil]
      exact ⟨rfl, rfl⟩
    · rcases hgone with hgone | hgone
      · exact absurd htakes.scheduled hgone
      · rw [htakes.unfinished] at hgone
        cases hgone
  · have hreturned {kept : List TokenId}
        (hall : ∀ o ∈ outputs.filter (·.requestId = r), o.newTokenIds = kept) :
        ∀ o ∈ outputs, o.requestId = r → o.newTokenIds = kept := fun o ho heq =>
      hall o (List.mem_filter.mpr ⟨ho, by simpa using heq⟩)
    by_cases htakes : s.TakesOutput out model r
    · have htook := htakes.took env
      obtain ⟨happended, hall⟩ := hupdated.tokensAppended htook.outputTokenIds htook.allTokenIds
      exact ⟨_, happended, hreturned hall, fun _ => htook.kept, fun hnot => absurd htakes hnot⟩
    · obtain ⟨houtput, hall, -, -, hnone, -⟩ :=
        takenOutput_of_not_takes env hscheduled hunfinished htakes
      have houtput' : (s.takenOutput env out model r).1.outputTokenIds =
          (s.request r).outputTokenIds ++ (s.takenOutput env out model r).2.1 := by
        rw [hnone, List.append_nil, houtput]
      have hall' : (s.takenOutput env out model r).1.allTokenIds =
          (s.request r).allTokenIds ++ (s.takenOutput env out model r).2.1 := by
        rw [hnone, List.append_nil, hall]
      obtain ⟨happended, hsame⟩ := hupdated.tokensAppended houtput' hall'
      exact ⟨_, happended, hreturned hsame, fun htakes' => absurd htakes' htakes, fun _ => hnone⟩

/-- Behind an update, every request that generates is within its limits exactly if the tokens that
requests take fit them, and the others were within their limits before. -/
theorem lengthsEnd_updateFromOutput_iff (h : s.updateFromOutput env out model = .ok (outputs, s')) :
    s'.LengthsEnd ↔ ∀ r, s.OutputFits out model r ∧ s.IdleFits out model r := by
  have hone (r : RequestId) : (r ∈ s'.requests → (s'.request r).Generating →
      (s'.request r).Within s'.config.maxModelLen) ↔
        s.OutputFits out model r ∧ s.IdleFits out model r := by
    obtain ⟨hconfig, hgone | ⟨⟨hscheduled, hunfinished⟩, hknown, hupdated⟩⟩ :=
      updateFromOutput_updated h r
    · obtain ⟨hgone, hrequest, hlive, -⟩ := hgone
      have hidle : ¬ s.TakesOutput out model r := by
        intro htakes
        rcases hgone with hgone | hgone
        · exact hgone htakes.scheduled
        · rw [htakes.unfinished] at hgone
          cases hgone
      rw [hconfig, hrequest, hlive]
      exact ⟨fun hwithin => ⟨fun htakes => absurd htakes hidle, fun _ => hwithin⟩,
        fun hfits => hfits.2 hidle⟩
    · have hmem : r ∈ s.requests ∧ (s.request r).status.isFinished = false := by
        simpa [isUnfinished] using hunfinished
      have hlive : (r ∈ s'.requests → (s'.request r).Generating →
          (s'.request r).Within s'.config.maxModelLen) ↔ ((s'.request r).Generating →
            (s'.request r).Within s.config.maxModelLen) := by
        rw [hconfig]
        exact ⟨fun hwithin hgen => hwithin (hknown hgen.unfinished) hgen, fun hwithin _ => hwithin⟩
      have houtcome := Request.outcome_takeOutput env s.hashBlockSize s.config.maxModelLen
        s.config.asyncScheduling ((out.scheduledSpecDecodeTokens.get? r).getD []).length
        (model.sampledTokenIds r) (model.poolerOutput r) (s.request r)
      change (s.request r).Outcome (s.takenOutput env out model r) at houtcome
      rw [hlive]
      by_cases htakes : s.TakesOutput out model r
      · have htook := htakes.took env
        by_cases hpooling : (s.request r).pooling = false
        · rw [within_iff_fits hpooling hmem.2 htakes.sampled htook houtcome hupdated]
          exact ⟨fun hfits => ⟨fun _ _ => hfits, fun hidle => absurd htakes hidle⟩,
            fun hfits => hfits.1 htakes hpooling⟩
        · refine ⟨fun _ => ⟨fun _ hgen => absurd hgen hpooling, fun hidle => absurd htakes hidle⟩,
            fun _ hgen => absurd ?_ hpooling⟩
          rw [← htook.pooling, ← hupdated.pooling, hgen.notPooling]
      · obtain ⟨houtput, hall, hmax, hsame, -, hstop⟩ :=
          takenOutput_of_not_takes env hscheduled hunfinished htakes
        by_cases hpooling : (s.request r).pooling = false
        · have hgoesOn : (s.takenOutput env out model r).2.2 = false := by
            by_contra hstopped
            rw [hstop (by simpa using hstopped)] at hpooling
            cases hpooling
          have hrequest := hupdated.eq_of_goesOn hgoesOn
          have hgenerating : (s'.request r).Generating ↔ (s.request r).Generating := by
            rw [hrequest]
            constructor
            · rintro ⟨hlive, hparked, -⟩
              rw [houtcome.status hgoesOn] at hlive hparked
              exact ⟨hlive, hparked, hpooling⟩
            · rintro ⟨hlive, hparked, -⟩
              refine ⟨?_, ?_, hsame.trans hpooling⟩
              · rw [houtcome.status hgoesOn, hlive]
              · rwa [houtcome.status hgoesOn]
          have hwithin : (s'.request r).Within s.config.maxModelLen ↔
              (s.request r).Within s.config.maxModelLen := by
            simp only [Within, numTokens, numOutputTokens, hrequest, houtput, hall, hmax]
          rw [hgenerating, hwithin]
          exact ⟨fun hkeep => ⟨fun htakes' => absurd htakes' htakes, fun _ _ => hkeep⟩,
            fun hfits => hfits.2 htakes hmem.1⟩
        · refine ⟨fun _ => ⟨fun htakes' => absurd htakes' htakes,
            fun _ _ hgen => absurd hgen.notPooling hpooling⟩, fun _ hgen => absurd ?_ hpooling⟩
          rw [← hsame, ← hupdated.pooling, hgen.notPooling]
  unfold LengthsEnd
  exact forall_congr' hone

end Update

end Scheduler

end Vllm
