import Vllm.Distributed.BroadcastDelivery

/-!
# Progress of the broadcast queue

From every state that is reached, steps of the parties alone bring every published message to
every reader and the writer's call to its end: no party waits for ever.
-/

namespace Vllm.Distributed.Broadcast

variable {n maxChunkBytes maxChunks : Nat}

private theorem run_append (s : State n) (xs ys : List (Action n)) :
    run maxChunkBytes maxChunks s (xs ++ ys)
      = (run maxChunkBytes maxChunks s xs).bind fun s' => run maxChunkBytes maxChunks s' ys := by
  induction xs generalizing s with
  | nil => rfl
  | cons x xs ih =>
    rw [List.cons_append, run, run, Option.bind_assoc]
    congr 1
    funext s₁
    exact ih s₁

/-! ## A reader alone -/

/-- How far a reader is from returning a message that is there. -/
def DequeuePhase.rank : DequeuePhase → Nat
  | .receiving => 0
  | .marking _ => 1
  | .reading => 2
  | .testing false => 3
  | .polling => 4
  | .testing true => 5

variable {s : State n}

/-- A reader with a message before it returns one, or comes nearer to it. -/
theorem reader_step (h : Invariant maxChunkBytes maxChunks s)
    (hsending : isSending s.writer.call = false) {r : Fin n}
    (hlt : (s.readers r).received.length < s.published.length) :
    ∃ s', step maxChunkBytes maxChunks s (.reader r) = some s' ∧
      ((s'.readers r).received.length = (s.readers r).received.length + 1 ∨
        (s'.readers r).received.length = (s.readers r).received.length ∧
          (s'.readers r).phase.rank < (s.readers r).phase.rank) := by
  have hreader := h.readers r
  have hphase := hreader.phase
  have hidx : (s.readers r).currentIdx = s.marks r % maxChunks := hreader.currentIdx
  rw [step, readerStep.eq_def]
  cases hcase : (s.readers r).phase with
  | receiving =>
    rw [hcase] at hphase
    obtain ⟨message, hget, hover⟩ := hphase
    have hsent : s.sent = s.published := by rw [State.sent, hsending]; rfl
    have hpayloads := hreader.payloads
    rw [hsent, List.drop_eq_getElem_cons hlt, (List.getElem?_eq_some_iff.mp hget).2,
      List.filter_cons_of_pos hover, List.map_cons] at hpayloads
    simp only [hcase, hpayloads]
    refine ⟨_, rfl, .inl ?_⟩
    rw [State.readers_setReader, List.length_append, List.length_singleton]
  | marking found =>
    cases found with
    | none =>
      simp only [hcase]
      refine ⟨_, rfl, .inr ⟨?_, ?_⟩⟩
      · rw [State.readers_setReader]
      · rw [State.readers_setReader]
        exact Nat.zero_lt_one
    | some buffers =>
      simp only [hcase]
      refine ⟨_, rfl, .inl ?_⟩
      rw [State.readers_setReader, List.length_append, List.length_singleton]
  | reading =>
    simp only [hcase]
    refine ⟨_, rfl, .inr ⟨?_, ?_⟩⟩
    · rw [State.readers_setReader]
    · rw [State.readers_setReader]
      exact Nat.lt_succ_self 1
  | testing readFlag =>
    simp only [hcase]
    cases readFlag with
    | true =>
      rw [if_pos (.inr rfl)]
      refine ⟨_, rfl, .inr ⟨?_, ?_⟩⟩
      · rw [State.readers_setReader]
      · rw [State.readers_setReader]
        exact Nat.lt_succ_self 4
    | false =>
      have hmarks : s.marks r = (s.readers r).received.length := by
        simp [State.marks, Reader.marks, hcase]
      rw [← hmarks] at hlt
      have hholds := h.ring.current (List.getElem?_eq_getElem hlt)
      rw [← hidx] at hholds
      rw [if_neg (by rw [hholds.written]; simp)]
      refine ⟨_, rfl, .inr ⟨?_, ?_⟩⟩
      · rw [State.readers_setReader]
      · rw [State.readers_setReader]
        exact Nat.lt_succ_self 2
  | polling =>
    have hmarks : s.marks r = (s.readers r).received.length := by
      simp [State.marks, Reader.marks, hcase]
    rw [← hmarks] at hlt
    have hholds := h.ring.current (List.getElem?_eq_getElem hlt)
    rw [← hidx] at hholds
    have hunread : (s.chunks (s.readers r).currentIdx).readFlags r = false := by
      rw [hholds.flags r]
      exact decide_eq_false (Nat.lt_irrefl _)
    simp only [hcase, hunread]
    refine ⟨_, rfl, .inr ⟨?_, ?_⟩⟩
    · rw [State.readers_setReader]
    · rw [State.readers_setReader]
      exact Nat.lt_succ_self 3

/-- Steps of a reader leave the others and the writer where they are. -/
theorem reader_run_frame {s s' : State n} {r : Fin n} {m : Nat}
    (hrun : run maxChunkBytes maxChunks s (List.replicate m (.reader r)) = some s') :
    s'.writer = s.writer ∧ s'.published = s.published ∧
      ∀ q, q ≠ r → s'.readers q = s.readers q := by
  induction m generalizing s with
  | zero =>
    obtain rfl := Option.some.inj hrun
    exact ⟨rfl, rfl, fun _ _ => rfl⟩
  | succ m ih =>
    rw [List.replicate_succ, run, Option.bind_eq_some_iff] at hrun
    obtain ⟨s₁, hstep, hrest⟩ := hrun
    obtain ⟨hwriter, hpublished, hreaders⟩ := readerStep_frame hstep
    obtain ⟨hwriter', hpublished', hreaders'⟩ := ih hrest
    exact ⟨hwriter'.trans hwriter, hpublished'.trans hpublished,
      fun q hq => (hreaders' q hq).trans (hreaders q hq)⟩

/-- A reader alone returns all messages that are published. -/
theorem reader_drains (hpos : 0 < maxChunks) (h : Invariant maxChunkBytes maxChunks s)
    (hsending : isSending s.writer.call = false) (r : Fin n) :
    ∃ m s', run maxChunkBytes maxChunks s (List.replicate m (.reader r)) = some s' ∧
      (s'.readers r).received.length = s.published.length := by
  obtain ⟨bound, hbound⟩ : ∃ bound,
    bound = 6 * (s.published.length - (s.readers r).received.length)
      + (s.readers r).phase.rank := ⟨_, rfl⟩
  induction bound using Nat.strong_induction_on generalizing s with
  | _ bound ih =>
    rcases Nat.lt_or_ge (s.readers r).received.length s.published.length with hlt | hge
    · obtain ⟨s₁, hstep, hcloser⟩ := reader_step h hsending hlt
      obtain ⟨hwriter, hpublished, -⟩ := readerStep_frame hstep
      have hrank : (s₁.readers r).phase.rank ≤ 5 := by
        cases (s₁.readers r).phase with
        | testing readFlag => cases readFlag <;> simp [DequeuePhase.rank]
        | _ => simp [DequeuePhase.rank]
      have hsending₁ : isSending s₁.writer.call = false := by
        rw [hwriter]
        exact hsending
      obtain ⟨m, s', hrun, hall⟩ := ih
        (6 * (s₁.published.length - (s₁.readers r).received.length) + (s₁.readers r).phase.rank)
        (by
          rw [hbound, hpublished]
          rcases hcloser with hmore | ⟨hsame, hless⟩ <;> omega)
        (h.step hpos (fun _ heq => by cases heq) hstep) hsending₁ rfl
      refine ⟨m + 1, s', ?_, by rw [hall, hpublished]⟩
      rw [List.replicate_succ, run, hstep]
      exact hrun
    · refine ⟨0, s, rfl, Nat.le_antisymm ?_ hge⟩
      exact ((h.readers r).sent_le).trans s.sent_isPrefix.length_le

/-- The readers alone return all messages that are published. -/
theorem readers_drain (hpos : 0 < maxChunks) (h : Invariant maxChunkBytes maxChunks s)
    (hsending : isSending s.writer.call = false) :
    ∃ actions s', (∀ action ∈ actions, ∃ r, action = .reader r) ∧
      run maxChunkBytes maxChunks s actions = some s' ∧ s'.writer = s.writer ∧
      s'.published = s.published ∧ ∀ r, (s'.readers r).received.length = s.published.length := by
  have hlist : ∀ readers : List (Fin n), ∃ actions s',
      (∀ action ∈ actions, ∃ r, action = .reader r) ∧
      run maxChunkBytes maxChunks s actions = some s' ∧ s'.writer = s.writer ∧
      s'.published = s.published ∧
      ∀ r ∈ readers, (s'.readers r).received.length = s.published.length := by
    intro readers
    induction readers with
    | nil => exact ⟨[], s, by simp, rfl, rfl, rfl, by simp⟩
    | cons r readers ih =>
      obtain ⟨actions, s₁, hactions, hrun, hwriter, hpublished, hdone⟩ := ih
      have h₁ := h.run hpos (fun q hmem => by
        obtain ⟨r, heq⟩ := hactions _ hmem
        cases heq) hrun
      have hsending₁ : isSending s₁.writer.call = false := by
        rw [hwriter]
        exact hsending
      obtain ⟨m, s₂, hrun₂, hall⟩ := reader_drains hpos h₁ hsending₁ r
      obtain ⟨hwriter₂, hpublished₂, hreaders₂⟩ := reader_run_frame hrun₂
      refine ⟨actions ++ List.replicate m (.reader r), s₂, fun action hmem => ?_, ?_,
        hwriter₂.trans hwriter, hpublished₂.trans hpublished, fun q hq => ?_⟩
      · rcases List.mem_append.mp hmem with hmem | hmem
        · exact hactions action hmem
        · exact ⟨r, List.eq_of_mem_replicate hmem⟩
      · rw [run_append, hrun]
        exact hrun₂
      · by_cases heq : q = r
        · rw [heq, hall, hpublished]
        · rw [hreaders₂ q heq]
          exact hdone q ((List.mem_cons.mp hq).resolve_left heq)
  obtain ⟨actions, s', hactions, hrun, hwriter, hpublished, hdone⟩ := hlist (List.finRange n)
  exact ⟨actions, s', hactions, hrun, hwriter, hpublished, fun r => hdone r (List.mem_finRange r)⟩

/-! ## The writer alone -/

/-- The writer alone comes to the end of its call. -/
def Finishes (maxChunkBytes maxChunks : Nat) (s : State n) : Prop :=
  ∃ m s', run maxChunkBytes maxChunks s (List.replicate m .writer) = some s' ∧
    s'.writer.call = none

private theorem finishes_of_idle (hcall : s.writer.call = none) :
    Finishes maxChunkBytes maxChunks s :=
  ⟨0, s, rfl, hcall⟩

private theorem finishes_of_step {s s' : State n}
    (hstep : writerStep maxChunkBytes maxChunks s = some s')
    (h : Finishes maxChunkBytes maxChunks s') : Finishes maxChunkBytes maxChunks s := by
  obtain ⟨m, s'', hrun, hcall⟩ := h
  refine ⟨m + 1, s'', ?_, hcall⟩
  rw [List.replicate_succ, run, step, hstep]
  exact hrun

variable {message : Message}

private theorem finishes_sending (hcall : s.writer.call = some (message, .sending)) :
    Finishes maxChunkBytes maxChunks s := by
  refine finishes_of_step (by rw [writerStep, hcall]) (finishes_of_idle rfl)

private theorem finishes_publishing (hcall : s.writer.call = some (message, .publishing)) :
    Finishes maxChunkBytes maxChunks s := by
  refine finishes_of_step (by rw [writerStep, hcall]) ?_
  by_cases hover : message.overflows maxChunkBytes = true
  · have hnext : (if message.overflows maxChunkBytes then some (message, EnqueuePhase.sending)
        else none) = some (message, .sending) := if_pos hover
    exact finishes_sending hnext
  · exact finishes_of_idle (if_neg hover)

private theorem finishes_resetting {i : Nat}
    (hcall : s.writer.call = some (message, .resetting i)) :
    Finishes maxChunkBytes maxChunks s := by
  obtain ⟨left, hleft⟩ : ∃ left, left = n - i := ⟨_, rfl⟩
  induction left generalizing s i with
  | zero =>
    have hge : ¬ i < n := by omega
    refine finishes_of_step (by rw [writerStep, hcall]; exact dif_neg hge) ?_
    exact finishes_publishing rfl
  | succ left ih =>
    have hlt : i < n := by omega
    refine finishes_of_step (by rw [writerStep, hcall]; exact dif_pos hlt) ?_
    exact ih rfl (by omega)

private theorem finishes_writing {rest : List FrameWrite}
    (hcall : s.writer.call = some (message, .writing rest)) :
    Finishes maxChunkBytes maxChunks s := by
  induction rest generalizing s with
  | nil => exact finishes_of_step (by rw [writerStep, hcall]) (finishes_resetting rfl)
  | cons write rest ih =>
    obtain ⟨offset, _ | bytes⟩ := write
    · exact finishes_of_step (by rw [writerStep, hcall]) (finishes_of_idle rfl)
    · exact finishes_of_step (by rw [writerStep, hcall]) (ih rfl)

private theorem finishes_claiming (hcall : s.writer.call = some (message, .claiming)) :
    Finishes maxChunkBytes maxChunks s :=
  finishes_of_step (by rw [writerStep, hcall]) (finishes_writing rfl)

/-- With all flags set, or a chunk that is not written, the writer finds the chunk free. -/
private theorem finishes_summing {i readCount : Nat} (hle : i ≤ n)
    (hcall : s.writer.call = some (message, .summing i readCount))
    (hcount : s.writerChunk.written = true → readCount = i)
    (hflags : s.writerChunk.written = true → ∀ r, s.writerChunk.readFlags r = true) :
    Finishes maxChunkBytes maxChunks s := by
  obtain ⟨left, hleft⟩ : ∃ left, left = n - i := ⟨_, rfl⟩
  induction left generalizing s i readCount with
  | zero =>
    have hge : ¬ i < n := by omega
    have hfree : ¬ (s.writerChunk.written = true ∧ readCount ≠ n) := by
      rintro ⟨hwritten, hne⟩
      have := hcount hwritten
      omega
    have hstep : writerStep maxChunkBytes maxChunks s
        = some (s.setCall (some (message, .claiming))) := by
      rw [writerStep, hcall]
      simp only [dif_neg hge, if_neg hfree]
    exact finishes_of_step hstep (finishes_claiming rfl)
  | succ left ih =>
    have hlt : i < n := by omega
    refine finishes_of_step (by rw [writerStep, hcall]; exact dif_pos hlt) ?_
    refine ih hlt rfl (fun hwritten => ?_) hflags (by omega)
    rw [hflags hwritten ⟨i, hlt⟩, hcount hwritten]
    rfl

private theorem finishes_waiting (hcall : s.writer.call = some (message, .waiting))
    (hflags : s.writerChunk.written = true → ∀ r, s.writerChunk.readFlags r = true) :
    Finishes maxChunkBytes maxChunks s := by
  have hstep : writerStep maxChunkBytes maxChunks s
      = some (s.setCall (some (message, .summing 0 0))) := by
    rw [writerStep, hcall]
  exact finishes_of_step hstep (finishes_summing (Nat.zero_le n) rfl (fun _ => rfl) hflags)

/-- Flags that were read before they were set make the writer wait for one more turn. -/
theorem finishes_summing_late {i readCount : Nat}
    (hcall : s.writer.call = some (message, .summing i readCount))
    (hflags : s.writerChunk.written = true → ∀ r, s.writerChunk.readFlags r = true) :
    Finishes maxChunkBytes maxChunks s := by
  obtain ⟨left, hleft⟩ : ∃ left, left = n - i := ⟨_, rfl⟩
  induction left generalizing s i readCount with
  | zero =>
    have hge : ¬ i < n := by omega
    by_cases hwait : s.writerChunk.written = true ∧ readCount ≠ n
    · have hstep : writerStep maxChunkBytes maxChunks s
          = some (s.setCall (some (message, .waiting))) := by
        rw [writerStep, hcall]
        simp only [dif_neg hge, if_pos hwait]
      exact finishes_of_step hstep (finishes_waiting rfl hflags)
    · have hstep : writerStep maxChunkBytes maxChunks s
          = some (s.setCall (some (message, .claiming))) := by
        rw [writerStep, hcall]
        simp only [dif_neg hge, if_neg hwait]
      exact finishes_of_step hstep (finishes_claiming rfl)
  | succ left ih =>
    have hlt : i < n := by omega
    refine finishes_of_step (by rw [writerStep, hcall]; exact dif_pos hlt) ?_
    exact ih rfl hflags (by omega)

/-- The writer alone ends its call once all readers have returned what is published. -/
theorem writer_finishes (hpos : 0 < maxChunks) (h : Invariant maxChunkBytes maxChunks s)
    (hall : ∀ r, (s.readers r).received.length = s.published.length) :
    Finishes maxChunkBytes maxChunks s := by
  have hflags : s.writerChunk.written = true → ∀ r, s.writerChunk.readFlags r = true := by
    intro hwritten r
    have hidx : s.writerChunk = s.chunks (s.published.length % maxChunks) := by
      rw [State.writerChunk, h.currentIdx]
    rw [hidx] at hwritten ⊢
    refine (h.ring.flag_writer hpos hwritten r).mpr ?_
    have hmarks : (s.readers r).received.length ≤ s.marks r := Nat.le_add_right _ _
    rw [hall r] at hmarks
    omega
  cases hcall : s.writer.call with
  | none => exact finishes_of_idle hcall
  | some call =>
    obtain ⟨message, phase⟩ := call
    cases phase with
    | summing i readCount => exact finishes_summing_late hcall hflags
    | waiting => exact finishes_waiting hcall hflags
    | claiming => exact finishes_claiming hcall
    | writing rest => exact finishes_writing hcall
    | resetting i => exact finishes_resetting hcall
    | publishing => exact finishes_publishing hcall
    | sending => exact finishes_sending hcall

/-- From every state that is reached, steps of the writer and of the readers, and nothing else,
lead to one in which the writer's call is at its end and each reader has returned all published
messages. -/
theorem run_drains (hpos : 0 < maxChunks) {actions : List (Action n)} {s : State n}
    (hactions : ∀ r, .payloadTimeout r ∉ actions)
    (hrun : run maxChunkBytes maxChunks {} actions = some s) :
    ∃ more s', (∀ action ∈ more, action = .writer ∨ ∃ r, action = .reader r) ∧
      run maxChunkBytes maxChunks s more = some s' ∧ s.published <+: s'.published ∧
      s'.writer.call = none ∧
      ∀ r, (s'.readers r).received = s'.published.mapIdx
        fun k message => message.handed maxChunkBytes (k % maxChunks) := by
  have h := (invariant_start hpos).run hpos hactions hrun
  -- What is left to be sent is sent first.
  obtain ⟨first, s₁, hfirst, hrun₁, hsending₁, hpublished₁⟩ : ∃ first s₁,
      (∀ action ∈ first, action = .writer) ∧
      run maxChunkBytes maxChunks s first = some s₁ ∧ isSending s₁.writer.call = false ∧
      s₁.published = s.published := by
    cases hsending : isSending s.writer.call with
    | false => exact ⟨[], s, by simp, rfl, hsending, rfl⟩
    | true =>
      cases hcall : s.writer.call with
      | none =>
        rw [hcall] at hsending
        cases hsending
      | some call =>
        obtain ⟨message, phase⟩ := call
        cases phase with
        | sending =>
          refine ⟨[.writer], { s with
              writer := { s.writer with call := none }
              readers := fun r => { s.readers r with
                payloads := (s.readers r).payloads ++ [message.allBuffers] } },
            by simp, ?_, rfl, rfl⟩
          rw [run, step, writerStep, hcall]
          rfl
        | _ =>
          rw [hcall] at hsending
          cases hsending
  have h₁ := h.run hpos (fun r hmem => by cases hfirst _ hmem) hrun₁
  obtain ⟨second, s₂, hsecond, hrun₂, hwriter₂, hpublished₂, hall₂⟩ :=
    readers_drain hpos h₁ hsending₁
  have h₂ := h₁.run hpos (fun r hmem => by
    obtain ⟨q, heq⟩ := hsecond _ hmem
    cases heq) hrun₂
  obtain ⟨m, s₃, hrun₃, hcall₃⟩ := writer_finishes hpos h₂
    (fun r => by rw [hall₂ r, hpublished₂])
  have h₃ := h₂.run hpos (fun r hmem => by cases List.eq_of_mem_replicate hmem) hrun₃
  have hsending₃ : isSending s₃.writer.call = false := by
    rw [hcall₃]
    rfl
  obtain ⟨last, s₄, hlast, hrun₄, hwriter₄, hpublished₄, hall₄⟩ :=
    readers_drain hpos h₃ hsending₃
  have h₄ := h₃.run hpos (fun r hmem => by
    obtain ⟨q, heq⟩ := hlast _ hmem
    cases heq) hrun₄
  refine ⟨first ++ (second ++ (List.replicate m .writer ++ last)), s₄, fun action hmem => ?_,
    ?_, ?_, by rw [hwriter₄, hcall₃], fun r => ?_⟩
  · rw [List.mem_append, List.mem_append, List.mem_append] at hmem
    rcases hmem with hmem | hmem | hmem | hmem
    · exact .inl (hfirst _ hmem)
    · exact .inr (hsecond _ hmem)
    · exact .inl (List.eq_of_mem_replicate hmem)
    · exact .inr (hlast _ hmem)
  · rw [run_append, hrun₁, Option.bind_some, run_append, hrun₂, Option.bind_some, run_append,
      hrun₃, Option.bind_some, hrun₄]
  · rw [hpublished₄, ← hpublished₁, ← hpublished₂]
    exact run_published_isPrefix hrun₃
  · rw [(h₄.readers r).received, hall₄ r, ← hpublished₄, List.take_length]

theorem drains_oneMessage : ∃ s, run 16 2 {} oneMessage = some s ∧
    ∃ more s', (∀ action ∈ more, action = .writer ∨ ∃ r, action = .reader r) ∧
      run 16 2 s more = some s' ∧ s.published <+: s'.published ∧ s'.writer.call = none ∧
      ∀ r, (s'.readers r).received = s'.published.mapIdx
        fun k message => message.handed 16 (k % 2) := by
  obtain ⟨s, hrun, -⟩ := reading_oneMessage
  exact ⟨s, hrun, run_drains (by decide) (by decide) hrun⟩

end Vllm.Distributed.Broadcast
