import Vllm.Distributed.BroadcastInvariant

/-!
# Delivery of broadcast messages

In all runs in which no wait for a payload is given up, every reader returns the published
messages in their order, and the writer is never at a chunk that a reader has not left.
-/

namespace Vllm.Distributed.Broadcast

variable {n maxChunkBytes maxChunks : Nat}

/-- What can happen, but for a payload that is given up, keeps the invariant. -/
theorem Invariant.step {s s' : State n} (hpos : 0 < maxChunks)
    (h : Invariant maxChunkBytes maxChunks s) {action : Action n}
    (haction : ∀ r, action ≠ .payloadTimeout r)
    (hstep : Broadcast.step maxChunkBytes maxChunks s action = some s') :
    Invariant maxChunkBytes maxChunks s' := by
  cases action with
  | enqueue message =>
    rw [Broadcast.step] at hstep
    split at hstep
    · next hcall =>
      obtain rfl := Option.some.inj hstep
      refine h.setCall (by rw [hcall]; rfl) rfl ⟨le_rfl, Nat.zero_le _, fun _ _ r hr => ?_⟩
      exact absurd hr (Nat.not_lt_zero _)
    · cases hstep
  | writer => exact h.writerStep hpos hstep
  | writeTimeout =>
    rw [Broadcast.step] at hstep
    split at hstep
    · next hcall =>
      obtain rfl := Option.some.inj hstep
      exact h.setCall (by rw [hcall]; rfl) rfl trivial
    · cases hstep
  | reader r => exact h.readerStep hpos hstep
  | payloadTimeout r => exact absurd rfl (haction r)

variable {actions : List (Action n)}

/-- So do runs. -/
theorem Invariant.run {s s' : State n} (hpos : 0 < maxChunks)
    (h : Invariant maxChunkBytes maxChunks s) (hactions : ∀ r, .payloadTimeout r ∉ actions)
    (hrun : Broadcast.run maxChunkBytes maxChunks s actions = some s') :
    Invariant maxChunkBytes maxChunks s' := by
  induction actions generalizing s with
  | nil =>
    obtain rfl := Option.some.inj hrun
    exact h
  | cons action actions ih =>
    rw [Broadcast.run, Option.bind_eq_some_iff] at hrun
    obtain ⟨s₁, hstep, hrest⟩ := hrun
    refine ih (h.step hpos (fun r heq => ?_) hstep) (fun r hmem => ?_) hrest
    · exact hactions r (heq ▸ List.mem_cons_self)
    · exact hactions r (List.mem_cons_of_mem _ hmem)

/-- The messages for which `enqueue` was called. -/
def enqueued (actions : List (Action n)) : List Message :=
  actions.filterMap fun action => match action with
    | .enqueue message => some message
    | _ => none

/-- The message of a call whose chunk is not yet marked as written. -/
def pending : Option (Message × EnqueuePhase) → List Message
  | none => []
  | some (_, .sending) => []
  | some (message, _) => [message]

/-- The writer publishes the message of its call, or drops it. -/
theorem writerStep_published {s s' : State n}
    (hstep : writerStep maxChunkBytes maxChunks s = some s') :
    s.published <+: s'.published ∧ (s'.published ++ pending s'.writer.call).Sublist
      (s.published ++ pending s.writer.call) := by
  rw [writerStep.eq_def] at hstep
  cases hcall : s.writer.call with
  | none =>
    simp only [hcall] at hstep
    cases hstep
  | some call =>
    obtain ⟨message, phase⟩ := call
    cases phase with
    | summing i readCount =>
      simp only [hcall] at hstep
      split_ifs at hstep
      all_goals
        obtain rfl := Option.some.inj hstep
        exact ⟨List.prefix_refl _, List.Sublist.refl _⟩
    | waiting =>
      simp only [hcall] at hstep
      obtain rfl := Option.some.inj hstep
      exact ⟨List.prefix_refl _, List.Sublist.refl _⟩
    | claiming =>
      simp only [hcall] at hstep
      obtain rfl := Option.some.inj hstep
      exact ⟨List.prefix_refl _, List.Sublist.refl _⟩
    | writing rest =>
      cases rest with
      | nil =>
        simp only [hcall] at hstep
        obtain rfl := Option.some.inj hstep
        exact ⟨List.prefix_refl _, List.Sublist.refl _⟩
      | cons write rest =>
        obtain ⟨offset, _ | bytes⟩ := write
        · simp only [hcall] at hstep
          obtain rfl := Option.some.inj hstep
          exact ⟨List.prefix_refl _, (List.Sublist.refl _).append (List.nil_sublist _)⟩
        · simp only [hcall] at hstep
          obtain rfl := Option.some.inj hstep
          exact ⟨List.prefix_refl _, List.Sublist.refl _⟩
    | resetting i =>
      simp only [hcall] at hstep
      split_ifs at hstep
      all_goals
        obtain rfl := Option.some.inj hstep
        exact ⟨List.prefix_refl _, List.Sublist.refl _⟩
    | publishing =>
      simp only [hcall] at hstep
      obtain rfl := Option.some.inj hstep
      have hnone : pending (if message.overflows maxChunkBytes then some (message, .sending)
          else none) = [] := by
        split <;> rfl
      rw [hnone, List.append_nil]
      exact ⟨List.prefix_append _ _, List.Sublist.refl _⟩
    | sending =>
      simp only [hcall] at hstep
      obtain rfl := Option.some.inj hstep
      exact ⟨List.prefix_refl _, List.Sublist.refl _⟩

theorem readerStep_frame {s s' : State n} {r : Fin n}
    (hstep : readerStep maxChunks s r = some s') :
    s'.writer = s.writer ∧ s'.published = s.published ∧
      ∀ q, q ≠ r → s'.readers q = s.readers q := by
  have hframe : ∀ (chunks : Nat → Chunk n) reader,
      State.writer (({ s with chunks } : State n).setReader r reader) = s.writer ∧
      State.published (({ s with chunks } : State n).setReader r reader) = s.published ∧
      ∀ q, q ≠ r → (({ s with chunks } : State n).setReader r reader).readers q = s.readers q :=
    fun chunks reader => ⟨rfl, rfl, fun q hq => State.readers_setReader_of_ne _ reader hq⟩
  rw [readerStep.eq_def] at hstep
  cases hcase : (s.readers r).phase with
  | polling =>
    simp only [hcase] at hstep
    obtain rfl := Option.some.inj hstep
    exact hframe _ _
  | testing readFlag =>
    simp only [hcase] at hstep
    split_ifs at hstep
    all_goals
      obtain rfl := Option.some.inj hstep
      exact hframe _ _
  | reading =>
    simp only [hcase] at hstep
    obtain rfl := Option.some.inj hstep
    exact hframe _ _
  | marking found =>
    cases found with
    | none =>
      simp only [hcase] at hstep
      obtain rfl := Option.some.inj hstep
      exact hframe _ _
    | some buffers =>
      simp only [hcase] at hstep
      obtain rfl := Option.some.inj hstep
      exact hframe _ _
  | receiving =>
    cases hpay : (s.readers r).payloads with
    | nil =>
      simp only [hcase, hpay] at hstep
      cases hstep
    | cons payload payloads =>
      simp only [hcase, hpay] at hstep
      obtain rfl := Option.some.inj hstep
      exact hframe _ _

/-- Only called messages are published, in their order. -/
theorem run_published {s s' : State n} (hrun : run maxChunkBytes maxChunks s actions = some s') :
    (s'.published ++ pending s'.writer.call).Sublist
      (s.published ++ pending s.writer.call ++ enqueued actions) := by
  induction actions generalizing s with
  | nil =>
    obtain rfl := Option.some.inj hrun
    simp [enqueued]
  | cons action actions ih =>
    rw [run, Option.bind_eq_some_iff] at hrun
    obtain ⟨s₁, hstep, hrest⟩ := hrun
    refine (ih hrest).trans ?_
    cases action with
    | enqueue message =>
      rw [step] at hstep
      split at hstep
      · next hcall =>
        obtain rfl := Option.some.inj hstep
        rw [hcall, enqueued, enqueued, List.filterMap_cons]
        simp [pending, State.setCall]
      · cases hstep
    | writer => exact (writerStep_published hstep).2.append (List.Sublist.refl _)
    | writeTimeout =>
      rw [step] at hstep
      split at hstep
      · next hcall =>
        obtain rfl := Option.some.inj hstep
        exact ((List.Sublist.refl _).append (List.nil_sublist _)).append (List.Sublist.refl _)
      · cases hstep
    | reader r =>
      obtain ⟨hwriter, hpublished, -⟩ := readerStep_frame hstep
      have hsame : s₁.published ++ pending s₁.writer.call ++ enqueued actions
          = s.published ++ pending s.writer.call ++ enqueued (.reader r :: actions) := by
        rw [hwriter, hpublished]
        rfl
      simp only [hsame, List.Sublist.refl]
    | payloadTimeout r =>
      rw [step] at hstep
      split at hstep
      · obtain rfl := Option.some.inj hstep
        exact List.Sublist.refl _
      · cases hstep

/-- What is published stays so. -/
theorem run_published_isPrefix {s s' : State n}
    (hrun : run maxChunkBytes maxChunks s actions = some s') : s.published <+: s'.published := by
  induction actions generalizing s with
  | nil =>
    obtain rfl := Option.some.inj hrun
    exact List.prefix_refl _
  | cons action actions ih =>
    rw [run, Option.bind_eq_some_iff] at hrun
    obtain ⟨s₁, hstep, hrest⟩ := hrun
    refine List.IsPrefix.trans ?_ (ih hrest)
    cases action with
    | writer => exact (writerStep_published hstep).1
    | reader r =>
      have hsame := (readerStep_frame hstep).2.1
      exact hsame ▸ List.prefix_refl _
    | _ =>
      rw [step] at hstep
      split at hstep
      · obtain rfl := Option.some.inj hstep
        exact List.prefix_refl _
      · cases hstep

/-- What is returned of a message shows its buffers, when no buffer of it is a view or its chunk
has not come up for another message. -/
theorem Invariant.map_shows_handed {s : State n} (h : Invariant maxChunkBytes maxChunks s) {k : Nat}
    {message : Message} (hget : s.published[k]? = some message)
    (hkept : message.oob = [] ∨ message.overflows maxChunkBytes = true ∨
      s.published.length < k + maxChunks) :
    (message.handed maxChunkBytes (k % maxChunks)).map (Buffer.shows s.chunks)
      = message.allBuffers := by
  cases hover : message.overflows maxChunkBytes with
  | true =>
    rw [Message.handed, if_pos hover, List.map_map]
    exact List.map_id _
  | false =>
    rw [Message.handed, hover, if_neg Bool.false_ne_true]
    obtain hnone | hover' | hlap := hkept
    · rw [Message.allBuffers, hnone, loads, viewsFrom]
      rfl
    · rw [hover] at hover'
      cases hover'
    · exact (h.ring.holds k message hget hlap.le fun heq =>
        absurd heq hlap.ne).map_shows_loads hover

/-- Whatever the interleaving of the flags, the chunks and the payloads: each reader returns the
published messages, in their order and each once. What it returns of a message has the message's
bytes of its own, or shows them in the chunk until this comes up for another message. The messages
are such for which `enqueue` was called, in the order of the calls. Timeouts of the writer change
nothing in this. -/
theorem run_delivers (hpos : 0 < maxChunks) {actions : List (Action n)} {s : State n}
    (hactions : ∀ r, .payloadTimeout r ∉ actions)
    (hrun : run maxChunkBytes maxChunks {} actions = some s) :
    (∀ r, (s.readers r).received <+: s.published.mapIdx
      fun k message => message.handed maxChunkBytes (k % maxChunks)) ∧
    (∀ k message, s.published[k]? = some message → (message.oob = [] ∨
      message.overflows maxChunkBytes = true ∨ s.published.length < k + maxChunks) →
        (message.handed maxChunkBytes (k % maxChunks)).map (Buffer.shows s.chunks)
          = message.allBuffers) ∧
    s.published.Sublist (enqueued actions) := by
  have h := (invariant_start hpos).run hpos hactions hrun
  refine ⟨fun r => ?_, fun k message hget hkept => h.map_shows_handed hget hkept, ?_⟩
  · have hsplit := congrArg
      (List.mapIdx fun k message => Message.handed maxChunkBytes (k % maxChunks) message)
      (List.take_append_drop (s.readers r).received.length s.published)
    rw [List.mapIdx_append, ← (h.readers r).received] at hsplit
    exact ⟨_, hsplit⟩
  · exact (List.sublist_append_left _ _).trans (run_published hrun)

/-- A message is written into the first of two chunks, and the reader comes to read it. -/
def oneMessage : List (Action 1) :=
  .enqueue ⟨[7], [[9]]⟩ :: List.replicate 13 .writer ++ List.replicate 2 (.reader 0)

theorem reading_oneMessage : ∃ s, run 16 2 {} oneMessage = some s ∧
    (s.readers 0).phase = .reading := by
  have hphase : (run 16 2 {} oneMessage).map (fun s => (s.readers 0).phase) = some .reading := by
    decide
  exact Option.map_eq_some_iff.mp hphase

/-- The reader returns the pickled object and a view of the chunk. -/
theorem delivers_oneMessage :
    ∃ s, run 16 2 {} (oneMessage ++ List.replicate 2 (.reader 0)) = some s ∧
      (s.readers 0).received = [[.own [7], .view 0 12 13]] ∧
      (∀ r, (s.readers r).received <+: s.published.mapIdx
        fun k message => message.handed 16 (k % 2)) ∧
      (∀ k message, s.published[k]? = some message → (message.oob = [] ∨
        message.overflows 16 = true ∨ s.published.length < k + 2) →
          (message.handed 16 (k % 2)).map (Buffer.shows s.chunks) = message.allBuffers) ∧
      s.published.Sublist (enqueued (oneMessage ++ List.replicate 2 (.reader 0))) := by
  have hreceived : (run 16 2 {} (oneMessage ++ List.replicate 2 (.reader 0))).map
      (fun s => (s.readers 0).received) = some [[.own [7], .view 0 12 13]] := by
    decide
  obtain ⟨s, hrun, hs⟩ := Option.map_eq_some_iff.mp hreceived
  exact ⟨s, hrun, hs, run_delivers (by decide) (by decide) hrun⟩

/-- While the writer is about to take a chunk, writes it or resets its flags, no reader is reading
it; and a reader that reads a chunk finds in it the next message that it is to return. -/
theorem run_excludes (hpos : 0 < maxChunks) {actions : List (Action n)} {s : State n}
    (hactions : ∀ r, .payloadTimeout r ∉ actions)
    (hrun : run maxChunkBytes maxChunks {} actions = some s) {r : Fin n}
    (hreading : (s.readers r).phase = .reading ∨ ∃ found, (s.readers r).phase = .marking found) :
    (∃ message, s.published[(s.readers r).received.length]? = some message ∧
      readFrame (s.chunks (s.readers r).currentIdx).data = message.shown maxChunkBytes ∧
      (s.chunks (s.readers r).currentIdx).written = true) ∧
    ∀ message phase, s.writer.call = some (message, phase) →
      (phase = .claiming ∨ (∃ rest, phase = .writing rest) ∨ (∃ i, phase = .resetting i) ∨
        phase = .publishing) →
      s.writer.currentIdx ≠ (s.readers r).currentIdx := by
  have h := (invariant_start hpos).run hpos hactions hrun
  have hreader := h.readers r
  have hphase := hreader.phase
  have hmarks : s.marks r = (s.readers r).received.length := by
    rcases hreading with hcase | ⟨found, hcase⟩ <;> simp [State.marks, Reader.marks, hcase]
  have hlt : s.marks r < s.published.length := by
    rcases hreading with hcase | ⟨found, hcase⟩
    · rw [hcase] at hphase
      exact hphase
    · rw [hcase] at hphase
      obtain ⟨message, hget, -⟩ := hphase
      exact (List.getElem?_eq_some_iff.mp hget).1
  have hget := List.getElem?_eq_getElem hlt
  have hidx : (s.readers r).currentIdx = s.marks r % maxChunks := hreader.currentIdx
  have hholds := h.ring.current hget
  rw [← hidx] at hholds
  refine ⟨⟨_, hmarks ▸ hget, hholds.data, hholds.written⟩, ?_⟩
  intro message phase hcall hphases heq
  have hwriter := h.writer
  rw [hcall] at hwriter
  have hchunk : s.writerChunk.written = true := by
    rw [State.writerChunk, heq]
    exact hholds.written
  rcases hphases with rfl | ⟨rest, rfl⟩ | ⟨i, rfl⟩ | rfl
  · -- The writer has seen that the reader has left the chunk.
    rw [h.currentIdx, hidx] at heq
    have hlap := eq_add_of_mod_eq heq.symm hlt (h.ring.ahead r)
    have hfree := hwriter r
    omega
  all_goals
    rw [hwriter.1] at hchunk
    cases hchunk

theorem excludes_oneMessage : ∃ s, run 16 2 {} oneMessage = some s ∧
    (∃ message, s.published[(s.readers 0).received.length]? = some message ∧
      readFrame (s.chunks (s.readers 0).currentIdx).data = message.shown 16 ∧
      (s.chunks (s.readers 0).currentIdx).written = true) ∧
    ∀ message phase, s.writer.call = some (message, phase) →
      (phase = .claiming ∨ (∃ rest, phase = .writing rest) ∨ (∃ i, phase = .resetting i) ∨
        phase = .publishing) →
      s.writer.currentIdx ≠ (s.readers 0).currentIdx := by
  obtain ⟨s, hrun, hphase⟩ := reading_oneMessage
  exact ⟨s, hrun, run_excludes (by decide) (by decide) hrun (.inl hphase)⟩

end Vllm.Distributed.Broadcast
