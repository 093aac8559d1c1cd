import Vllm.Core.BlockHasher

/-!
# Streaming sessions and block hashes

A session update drops the tokens from the computed position on and appends the
next prompt chunk, but keeps the list of block hashes. The hashes stay in step
with the tokens exactly as long as every update leaves the tokens of the blocks
hashed so far in place.
-/

namespace Vllm

open HashChain

variable {H : Type}

/-- The tokens a session keeps: the computed ones, without the last sampled one. -/
def Request.keptTokenIds (session : Request H) : List TokenId :=
  session.allTokenIds.take session.numComputedTokens.toNat

/-- The session's tokens, prompt and items with the next chunk joined to them. -/
def Request.joinChunk (session : Request H) (promptTokenIds : List TokenId)
    (update : StreamingUpdate) : Request H :=
  let base := session.keptTokenIds.length
  let newFeatures := update.mmFeatures.map fun f =>
    { f with mmPosition := { f.mmPosition with offset := f.mmPosition.offset + base } }
  { session with
    outputTokenIds := []
    allTokenIds := session.keptTokenIds ++ update.promptTokenIds
    -- the kept output tokens become part of the prompt
    promptTokenIds := some (promptTokenIds ++
      session.keptTokenIds.drop session.numPromptTokens ++ update.promptTokenIds)
    mmFeatures := session.mmFeatures ++ newFeatures }

/-- The request's part of `Scheduler._update_request_as_session`; the source asserts
that the session was given token ids. -/
def Request.updateAsSession (env : HashEnv H) (blockSize : Nat) (session : Request H)
    (update : StreamingUpdate) : Option (Request H) := do
  let promptTokenIds ← session.promptTokenIds
  let session := Request.updateBlockHashes env blockSize (session.joinChunk promptTokenIds update)
  some { session with
    numPromptTokens := (session.promptTokenIds.getD []).length
    arrivalTime := update.arrivalTime
    samplingParams := update.samplingParams
    status := .waiting }

/-- What happens to a session between two looks at its hashes. -/
inductive SessionEvent where
  /-- The scheduler moves the computed position. -/
  | compute (numComputedTokens : Nat)
  /-- A generation step appends its tokens. -/
  | append (tokenIds : List TokenId)
  /-- The next input chunk arrives. -/
  | update (chunk : StreamingUpdate)

/-- The effect of an event on the request. -/
def SessionEvent.apply (env : HashEnv H) (blockSize : Nat) (r : Request H) :
    SessionEvent → Option (Request H)
  | .compute n => some { r with numComputedTokens := n }
  | .append tokenIds => some (Request.appendOutputTokenIds env blockSize r tokenIds)
  | .update chunk => Request.updateAsSession env blockSize r chunk

/-- The request after a run of events. -/
def runSession (env : HashEnv H) (blockSize : Nat) (r : Request H) (events : List SessionEvent) :
    Option (Request H) :=
  events.foldlM (SessionEvent.apply env blockSize) r

/-- No event brings a multimodal item. -/
def SessionEvent.TextOnly : SessionEvent → Prop
  | .update chunk => chunk.mmFeatures = []
  | _ => True

/-- The chained hash of the first `i + 1` blocks of tokens. -/
def chainedHash (env : HashEnv H) (blockSize : Nat) (r : Request H) (i : Nat) : H :=
  digest env.step env.noneHash (scratchInputs env blockSize r (i + 1))

/-- Every full block of tokens has its chained hash, and nothing else has one. -/
structure HashesInStep (env : HashEnv H) (blockSize : Nat) (r : Request H) : Prop where
  length_eq : r.blockHashes.length = r.numTokens / blockSize
  getElem_eq : ∀ i, i < r.blockHashes.length →
    r.blockHashes[i]? = some (chainedHash env blockSize r i)

/-- The update leaves the tokens of all blocks hashed so far in place. -/
def KeepsHashed (blockSize : Nat) (r : Request H) (chunk : StreamingUpdate) : Prop :=
  (r.keptTokenIds ++ chunk.promptTokenIds).take (r.blockHashes.length * blockSize) =
    r.allTokenIds.take (r.blockHashes.length * blockSize)

/-! ## Hashes of text-only requests -/

/-- Hashes in step are the chain over the request's blocks. -/
theorem hashesInStep_iff (env : HashEnv H) (blockSize : Nat) (r : Request H) :
    HashesInStep env blockSize r ↔ r.blockHashes =
      chain env.step env.noneHash (scratchInputs env blockSize r (r.numTokens / blockSize)) := by
  constructor
  · intro h
    apply List.ext_getElem?
    intro i
    by_cases hi : i < r.numTokens / blockSize
    · rw [h.getElem_eq i (by rw [h.length_eq]; exact hi), getElem?_chain _ _ _ (by simpa using hi),
        take_scratchInputs _ _ _ hi]
      rfl
    · rw [List.getElem?_eq_none (by rw [h.length_eq]; omega),
        List.getElem?_eq_none (by simp; omega)]
  · intro h
    have hlen : r.blockHashes.length = r.numTokens / blockSize := by rw [h]; simp
    refine ⟨hlen, fun i hi => ?_⟩
    have hi' : i < r.numTokens / blockSize := hlen ▸ hi
    rw [h, getElem?_chain _ _ _ (by simpa using hi'), take_scratchInputs _ _ _ hi']
    rfl

variable {blockSize : Nat} {env : HashEnv H}

/-- Without items the hasher extends a chain over a prefix of the blocks to the chain
over all of them. -/
theorem updateBlockHashes_of_textOnly (hb : 0 < blockSize) {q : Request H} (ht : q.mmFeatures = [])
    {m : Nat} (hm : m ≤ q.numTokens / blockSize)
    (hq : q.blockHashes = chain env.step env.noneHash (scratchInputs env blockSize q m)) :
    (Request.updateBlockHashes env blockSize q).blockHashes =
      chain env.step env.noneHash (scratchInputs env blockSize q (q.numTokens / blockSize)) := by
  have hlen : q.blockHashes.length = m := by rw [hq]; simp
  have hinputs := blockInputs_of_past env blockSize q (j := m) (by simp [ht])
    (q.numTokens / blockSize - m) (if 0 < m then -1 else 0)
  have happend := List.range'_append_1 (s := 0) (m := m) (n := q.numTokens / blockSize - m)
  rw [Nat.zero_add, Nat.add_sub_cancel' hm] at happend
  have hsplit : scratchInputs env blockSize q (q.numTokens / blockSize) =
      scratchInputs env blockSize q m ++ (List.range' m (q.numTokens / blockSize - m)).map
        fun i => (blockTokens blockSize q i, packKeys (flatKeys env blockSize q i)) := by
    simp only [scratchInputs, List.range_eq_range', ← List.map_append, happend]
  change q.blockHashes ++ requestBlockHasher env blockSize q = _
  rw [requestBlockHasher_eq_chain env hb, hlen, hinputs, hsplit, chain_append, hq,
    getLast?_chain_getD]

/-- Being in step is about tokens, hashes and extra keys only. -/
theorem HashesInStep.congr {r q : Request H} (h : HashesInStep env blockSize r)
    (hsame : SameExtras r q) (htok : r.allTokenIds = q.allTokenIds)
    (hhash : r.blockHashes = q.blockHashes) : HashesInStep env blockSize q := by
  have hlen : r.numTokens = q.numTokens := congrArg List.length htok
  rw [hashesInStep_iff] at h ⊢
  rw [← hhash, h, hlen, hsame.scratchInputs env (by rw [htok])]

/-- A request is in step from its construction on. -/
theorem hashesInStep_init (env : HashEnv H) (hb : 0 < blockSize) (r : Request H) :
    HashesInStep env blockSize (Request.init env blockSize r) := by
  let r' := Request.init env blockSize r
  have hscratch : r'.blockHashes = scratchHashes env blockSize r' := rfl
  rw [hashesInStep_iff]
  exact hscratch.trans (scratchHashes_eq_chain env hb r')

/-- Hashing on after a change of the tokens keeps a text-only request in step when the
blocks hashed before still have their tokens. -/
theorem HashesInStep.rehash (hb : 0 < blockSize) {r q : Request H}
    (h : HashesInStep env blockSize r) (ht : q.mmFeatures = []) (hsame : SameExtras r q)
    (hhash : r.blockHashes = q.blockHashes)
    (hkeep : q.allTokenIds.take (r.blockHashes.length * blockSize) =
      r.allTokenIds.take (r.blockHashes.length * blockSize)) :
    HashesInStep env blockSize (Request.updateBlockHashes env blockSize q) := by
  have hlen := h.length_eq
  have hfit : r.blockHashes.length * blockSize ≤ r.numTokens :=
    hlen ▸ Nat.div_mul_le_self _ _
  have hle : r.blockHashes.length * blockSize ≤ q.numTokens := by
    have := congrArg List.length hkeep
    rw [List.length_take, List.length_take_of_le hfit] at this
    simp only [Request.numTokens]
    omega
  have hm : r.blockHashes.length ≤ q.numTokens / blockSize :=
    (Nat.le_div_iff_mul_le hb).mpr hle
  have hchain := (hashesInStep_iff env blockSize r).mp h
  rw [← hlen, hsame.scratchInputs env hkeep.symm, hhash] at hchain
  rw [hhash] at hm
  have hnew := updateBlockHashes_of_textOnly hb ht hm hchain
  have hextras : SameExtras q (Request.updateBlockHashes env blockSize q) :=
    ⟨rfl, rfl, rfl, rfl⟩
  rw [hextras.scratchInputs env rfl] at hnew
  exact (hashesInStep_iff env blockSize _).mpr hnew

/-- With a collision-free hash the tokens of the hashed blocks must have stayed. -/
theorem HashesInStep.kept (he : env.CollisionFree) {r q : Request H}
    (h : HashesInStep env blockSize r) (hhash : r.blockHashes = q.blockHashes)
    (hq : HashesInStep env blockSize (Request.updateBlockHashes env blockSize q)) :
    q.allTokenIds.take (r.blockHashes.length * blockSize) =
      r.allTokenIds.take (r.blockHashes.length * blockSize) := by
  have hold := (hashesInStep_iff env blockSize r).mp h
  have hnew := (hashesInStep_iff env blockSize _).mp hq
  let q' := Request.updateBlockHashes env blockSize q
  have happ : q'.blockHashes = r.blockHashes ++ requestBlockHasher env blockSize q := by
    rw [hhash]
    rfl
  have hm : r.blockHashes.length ≤ q'.numTokens / blockSize := by
    have hlen : q'.blockHashes.length = q'.numTokens / blockSize := hq.length_eq
    rw [happ, List.length_append] at hlen
    omega
  have htake := congrArg (List.take r.blockHashes.length) (happ.symm.trans hnew)
  rw [List.take_left' rfl, take_chain, take_scratchInputs env blockSize q' hm] at htake
  have hinputs := chain_injective he.separating (hold.symm.trans htake)
  rw [← h.length_eq] at hinputs
  refine ((blockTokens_eq_iff blockSize r q' _).mp fun j hj => ?_).symm
  have hj' := congrArg (·[j]?) hinputs
  simp only [getElem?_scratchInputs env blockSize _ hj, Option.some.injEq,
    Prod.mk.injEq] at hj'
  exact hj'.1

/-! ## Runs -/

/-- A successful update hashes on over the joined tokens. -/
theorem updateAsSession_eq_some {r r' : Request H} {chunk : StreamingUpdate}
    (h : Request.updateAsSession env blockSize r chunk = some r') :
    ∃ tokens, r' = { Request.updateBlockHashes env blockSize (r.joinChunk tokens chunk) with
      numPromptTokens := ((r.joinChunk tokens chunk).promptTokenIds.getD []).length
      arrivalTime := chunk.arrivalTime
      samplingParams := chunk.samplingParams
      status := .waiting } := by
  obtain ⟨tokens, _, h⟩ := Option.bind_eq_some_iff.mp h
  exact ⟨tokens, (Option.some.inj h).symm⟩

private theorem joinChunk_mmFeatures {r : Request H} {chunk : StreamingUpdate}
    (ht : r.mmFeatures = []) (hc : chunk.mmFeatures = []) (tokens : List TokenId) :
    (r.joinChunk tokens chunk).mmFeatures = [] := by
  simp [Request.joinChunk, ht, hc]

private theorem sameExtras_joinChunk {r : Request H} {chunk : StreamingUpdate}
    (hc : chunk.mmFeatures = []) (tokens : List TokenId) :
    SameExtras r (r.joinChunk tokens chunk) :=
  ⟨by simp [Request.joinChunk, hc], rfl, rfl, rfl⟩

/-- What an event other than an update does keeps a text-only session in step, and an
update does so exactly when it keeps the hashed blocks. -/
theorem HashesInStep.apply (hb : 0 < blockSize) {r r' : Request H} {event : SessionEvent}
    (ht : r.mmFeatures = []) (htext : event.TextOnly) (h : HashesInStep env blockSize r)
    (hkeep : ∀ chunk, event = .update chunk → KeepsHashed blockSize r chunk)
    (happly : event.apply env blockSize r = some r') : HashesInStep env blockSize r' := by
  cases event with
  | compute n =>
    obtain rfl := Option.some.inj happly
    exact h.congr ⟨rfl, rfl, rfl, rfl⟩ rfl rfl
  | append tokenIds =>
    obtain rfl := Option.some.inj happly
    have hfit : r.blockHashes.length * blockSize ≤ r.allTokenIds.length :=
      h.length_eq ▸ Nat.div_mul_le_self _ _
    exact h.rehash hb ht ⟨rfl, rfl, rfl, rfl⟩ rfl (List.take_append_of_le_length hfit)
  | update chunk =>
    obtain ⟨tokens, rfl⟩ := updateAsSession_eq_some happly
    exact (h.rehash hb (joinChunk_mmFeatures ht htext tokens) (sameExtras_joinChunk htext tokens)
      rfl (hkeep chunk rfl)).congr ⟨rfl, rfl, rfl, rfl⟩ rfl rfl

/-- An update that ends in step has kept the hashed blocks. -/
theorem HashesInStep.keepsHashed (he : env.CollisionFree) {r r' : Request H}
    {chunk : StreamingUpdate} (h : HashesInStep env blockSize r)
    (happly : SessionEvent.apply env blockSize r (.update chunk) = some r')
    (h' : HashesInStep env blockSize r') : KeepsHashed blockSize r chunk := by
  obtain ⟨tokens, rfl⟩ := updateAsSession_eq_some happly
  exact h.kept he (q := r.joinChunk tokens chunk) rfl
    (h'.congr ⟨rfl, rfl, rfl, rfl⟩ rfl rfl)

/-- Text-only events keep a session text-only. -/
theorem mmFeatures_apply {r r' : Request H} {event : SessionEvent} (ht : r.mmFeatures = [])
    (htext : event.TextOnly) (happly : event.apply env blockSize r = some r') :
    r'.mmFeatures = [] := by
  cases event with
  | compute n =>
    obtain rfl := Option.some.inj happly
    exact ht
  | append tokenIds =>
    obtain rfl := Option.some.inj happly
    exact ht
  | update chunk =>
    obtain ⟨tokens, rfl⟩ := updateAsSession_eq_some happly
    exact joinChunk_mmFeatures ht htext tokens

/-- A session given token ids takes every event. -/
private theorem isSome_apply (env : HashEnv H) (blockSize : Nat) {r : Request H}
    (hp : r.promptTokenIds.isSome) (event : SessionEvent) :
    ∃ r', event.apply env blockSize r = some r' ∧ r'.promptTokenIds.isSome := by
  cases event with
  | compute n => exact ⟨_, rfl, hp⟩
  | append tokenIds => exact ⟨_, rfl, hp⟩
  | update chunk =>
    obtain ⟨tokens, htokens⟩ := Option.isSome_iff_exists.mp hp
    simp [SessionEvent.apply, Request.updateAsSession, htokens, Request.joinChunk,
      Request.updateBlockHashes]

/-- A session given token ids takes every run of events. -/
theorem isSome_runSession (env : HashEnv H) (blockSize : Nat) {r : Request H}
    (hp : r.promptTokenIds.isSome) (events : List SessionEvent) :
    ∃ s, runSession env blockSize r events = some s := by
  induction events generalizing r with
  | nil => exact ⟨r, rfl⟩
  | cons event events ih =>
    obtain ⟨r', hr', hp'⟩ := isSome_apply env blockSize hp event
    obtain ⟨s, hs⟩ := ih hp'
    exact ⟨s, by simpa [runSession, hr'] using hs⟩

/-- A run takes one event after the other. -/
theorem runSession_succ {r : Request H} {events : List SessionEvent} {k : Nat}
    {event : SessionEvent} (hk : events[k]? = some event) :
    runSession env blockSize r (events.take (k + 1)) =
      (runSession env blockSize r (events.take k)).bind (event.apply env blockSize) := by
  simp [runSession, List.take_add_one, hk, List.foldlM_append]

/-- Every update of the run leaves the blocks hashed so far in place. -/
def UpdatesKeepHashed (env : HashEnv H) (blockSize : Nat) (r : Request H)
    (events : List SessionEvent) : Prop :=
  ∀ k chunk s, events[k]? = some (.update chunk) →
    runSession env blockSize r (events.take k) = some s → KeepsHashed blockSize s chunk

/-- Along a text-only run whose updates keep the hashed blocks the session stays in step. -/
theorem HashesInStep.run (hb : 0 < blockSize) {r : Request H} (ht : r.mmFeatures = [])
    (h : HashesInStep env blockSize r) {events : List SessionEvent}
    (htext : ∀ event ∈ events, event.TextOnly) (hkeep : UpdatesKeepHashed env blockSize r events)
    (k : Nat) {s : Request H} (hs : runSession env blockSize r (events.take k) = some s) :
    s.mmFeatures = [] ∧ HashesInStep env blockSize s := by
  induction k generalizing s with
  | zero =>
    obtain rfl : r = s := by simpa [runSession] using hs
    exact ⟨ht, h⟩
  | succ k ih =>
    rcases lt_or_ge k events.length with hk | hk
    · have hget := List.getElem?_eq_getElem hk
      rw [runSession_succ hget] at hs
      obtain ⟨p, hp, happly⟩ := Option.bind_eq_some_iff.mp hs
      obtain ⟨hpt, hpstep⟩ := ih hp
      have hevent := htext _ (List.getElem_mem hk)
      exact ⟨mmFeatures_apply hpt hevent happly, hpstep.apply hb hpt hevent
        (fun chunk hc => hkeep k chunk p (hc ▸ hget) hp) happly⟩
    · rw [List.take_of_length_le (by omega), ← List.take_of_length_le hk] at hs
      exact ih hs

/-- A text-only session given token ids stays in step at every point of a run exactly
when every update of the run leaves the blocks hashed so far in place. -/
theorem runSession_hashesInStep_iff {env : HashEnv H} (he : env.CollisionFree) {blockSize : Nat}
    (hb : 0 < blockSize) (r : Request H) (ht : r.mmFeatures = []) (hp : r.promptTokenIds.isSome)
    (events : List SessionEvent) (htext : ∀ event ∈ events, event.TextOnly) :
    (∀ k, ∃ s, runSession env blockSize (Request.init env blockSize r) (events.take k) = some s ∧
        HashesInStep env blockSize s) ↔
      UpdatesKeepHashed env blockSize (Request.init env blockSize r) events := by
  constructor
  · intro h k chunk s hget hs
    obtain ⟨s₀, hs₀, hstep⟩ := h k
    obtain rfl : s₀ = s := Option.some.inj (hs₀.symm.trans hs)
    obtain ⟨s', hs', hstep'⟩ := h (k + 1)
    rw [runSession_succ hget, hs] at hs'
    exact hstep.keepsHashed he hs' hstep'
  · intro hkeep k
    obtain ⟨s, hs⟩ := isSome_runSession env blockSize (r := Request.init env blockSize r) hp
      (events.take k)
    have hrun := HashesInStep.run hb (r := Request.init env blockSize r) ht
      (hashesInStep_init env hb r) htext hkeep k hs
    exact ⟨s, hs, hrun.2⟩

/-- A session with the prompt `[1]`, in blocks of two. -/
def shortSession : Request FreeDigest :=
  { requestId := 0, promptTokenIds := some [1], resumable := true }

/-- The sampled token `5` fills the first block and is then discarded for `7`: the hash
of `[1, 5]` stays in front of the tokens `[1, 7]`. -/
theorem shortSession_stale : freeEnv.CollisionFree ∧
    ∃ s, runSession freeEnv 2 (Request.init freeEnv 2 shortSession)
        [.compute 1, .append [5], .update { promptTokenIds := [7] }] = some s ∧
      s.allTokenIds = [1, 7] ∧ ¬ HashesInStep freeEnv 2 s := by
  refine ⟨freeEnv_collisionFree, _, rfl, by decide, fun h => ?_⟩
  have h0 := h.getElem_eq 0 (by decide)
  revert h0
  decide

/-- A discarded token in a block not yet full does no harm. -/
theorem shortSession_inStep :
    ∃ s, runSession freeEnv 2 (Request.init freeEnv 2 shortSession)
        ([.compute 2, .append [5, 6], .update { promptTokenIds := [7] }].take 3) = some s ∧
      HashesInStep freeEnv 2 s := by
  refine (runSession_hashesInStep_iff freeEnv_collisionFree (by decide) shortSession rfl rfl
    _ (by simp [SessionEvent.TextOnly])).mpr ?_ 3
  intro k chunk s hget hs
  match k with
  | 0 | 1 => simp at hget
  | 2 =>
    obtain rfl : { promptTokenIds := [7] } = chunk := by simpa using hget
    obtain rfl := Option.some.inj hs
    unfold KeepsHashed
    decide
  | k + 3 => simp at hget

end Vllm
