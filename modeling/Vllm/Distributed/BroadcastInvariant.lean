import Vllm.Distributed.BroadcastRing

/-!
# The invariant of the broadcast queue

What each party knows in each phase of its call. The writer has seen all read flags set before it
marks a chunk as not written, and a reader that has seen its flag reset finds the message of its
number once the chunk is written. The payloads under way to a reader are those of the large
messages that it has not returned.
-/

namespace Vllm.Distributed.Broadcast

variable {n : Nat}

/-- How many chunks a reader has marked as read: the one of a payload it waits for is marked. -/
def Reader.marks (reader : Reader) : Nat :=
  reader.received.length + match reader.phase with
    | .receiving => 1
    | _ => 0

/-- The numbers that the readers have reached. -/
def State.marks (s : State n) (r : Fin n) : Nat := (s.readers r).marks

/-- Whether a payload is still to be sent. -/
def isSending : Option (Message × EnqueuePhase) → Bool
  | some (_, .sending) => true
  | _ => false

/-- The messages of which all has been sent. -/
def State.sent (s : State n) : List Message :=
  if isSending s.writer.call then s.published.dropLast else s.published

section Predicates

variable (maxChunkBytes maxChunks : Nat)

/-- What the writer knows. -/
def WriterOk (chunk : Chunk n) (published : List Message) (marks : Fin n → Nat) :
    Option (Message × EnqueuePhase) → Prop
  | none => True
  | some (_, .summing i readCount) => readCount ≤ i ∧ i ≤ n ∧
    (readCount = i → chunk.written = true →
      ∀ r : Fin n, r.val < i → published.length < marks r + maxChunks)
  | some (_, .waiting) => True
  | some (_, .claiming) => ∀ r, published.length < marks r + maxChunks
  | some (message, .writing rest) => chunk.written = false ∧
    ∃ memory, applyWrites chunk.data rest = applyWrites memory (frame maxChunkBytes message)
  | some (message, .resetting i) => chunk.written = false ∧
    readFrame chunk.data = message.shown maxChunkBytes ∧
    ∀ r : Fin n, r.val < i → chunk.readFlags r = false
  | some (message, .publishing) => chunk.written = false ∧
    readFrame chunk.data = message.shown maxChunkBytes ∧ ∀ r, chunk.readFlags r = false
  | some (message, .sending) => message.overflows maxChunkBytes = true ∧
    ∃ front, published = front ++ [message]

/-- What a reader knows. -/
def PhaseOk (chunks : Nat → Chunk n) (published : List Message) (r : Fin n) (reader : Reader) :
    DequeuePhase → Prop
  | .polling => True
  | .testing readFlag => readFlag = false →
    (chunks (reader.marks % maxChunks)).readFlags r = false
  | .reading => reader.marks < published.length
  | .marking found => ∃ message, published[reader.marks]? = some message ∧
    found = (message.shown maxChunkBytes).map (loads (reader.marks % maxChunks))
  | .receiving => ∃ message, published[reader.received.length]? = some message ∧
    message.overflows maxChunkBytes = true

/-- A reader has returned the first messages in order, and the payloads it needs are under way. -/
structure ReaderOk (chunks : Nat → Chunk n) (published sent : List Message) (r : Fin n)
    (reader : Reader) : Prop where
  currentIdx : reader.currentIdx = reader.marks % maxChunks
  received : reader.received = (published.take reader.received.length).mapIdx
    fun k message => message.handed maxChunkBytes (k % maxChunks)
  sent_le : reader.received.length ≤ sent.length
  payloads : reader.payloads = ((sent.drop reader.received.length).filter fun message =>
    message.overflows maxChunkBytes).map Message.allBuffers
  phase : PhaseOk maxChunkBytes maxChunks chunks published r reader reader.phase

/-- The invariant of all runs in which no payload is given up. -/
structure Invariant (s : State n) : Prop where
  ring : Ring maxChunkBytes maxChunks s.chunks s.published s.marks
  currentIdx : s.writer.currentIdx = s.published.length % maxChunks
  writer : WriterOk maxChunkBytes maxChunks s.writerChunk s.published s.marks s.writer.call
  readers : ∀ r, ReaderOk maxChunkBytes maxChunks s.chunks s.published s.sent r (s.readers r)

end Predicates

section Steps

variable {maxChunkBytes maxChunks : Nat}

theorem invariant_start (hpos : 0 < maxChunks) :
    Invariant maxChunkBytes maxChunks ({} : State n) where
  ring := ring_start hpos
  currentIdx := (Nat.zero_mod _).symm
  writer := trivial
  readers := fun _ => ⟨(Nat.zero_mod _).symm, rfl, le_rfl, rfl, trivial⟩

variable {reader : Reader} {published sent : List Message}

/-- A reader's knowledge depends on its own read flags only where they are reset. -/
theorem ReaderOk.congr {chunks chunks' : Nat → Chunk n} {r : Fin n}
    (h : ReaderOk maxChunkBytes maxChunks chunks published sent r reader)
    (hflags : ∀ c, (chunks c).readFlags r = false → (chunks' c).readFlags r = false) :
    ReaderOk maxChunkBytes maxChunks chunks' published sent r reader := by
  refine ⟨h.currentIdx, h.received, h.sent_le, h.payloads, ?_⟩
  have hphase := h.phase
  cases hcase : reader.phase with
  | testing readFlag =>
    rw [hcase] at hphase
    exact fun hflag => hflags _ (hphase hflag)
  | polling => trivial
  | reading =>
    rw [hcase] at hphase
    exact hphase
  | marking found =>
    rw [hcase] at hphase
    exact hphase
  | receiving =>
    rw [hcase] at hphase
    exact hphase

variable {chunks : Nat → Chunk n}

/-- A phase in which the reader's chunk is not marked yet. -/
theorem ReaderOk.setPhase {r : Fin n}
    (h : ReaderOk maxChunkBytes maxChunks chunks published sent r reader) (phase : DequeuePhase)
    (hne : phase ≠ .receiving) (hne' : reader.phase ≠ .receiving) :
    Reader.marks { reader with phase } = reader.marks ∧
      (PhaseOk maxChunkBytes maxChunks chunks published r { reader with phase } phase →
        ReaderOk maxChunkBytes maxChunks chunks published sent r { reader with phase }) := by
  have hmarks : Reader.marks { reader with phase } = reader.marks := by
    rw [Reader.marks, Reader.marks]
    cases phase <;> cases hcase : reader.phase <;>
      first | rfl | exact absurd rfl hne | exact absurd hcase hne'
  refine ⟨hmarks, fun hok => ⟨?_, h.received, h.sent_le, h.payloads, hok⟩⟩
  rw [hmarks]
  exact h.currentIdx

variable {message : Message}

/-- A reader returns the message of its number. -/
theorem ReaderOk.next {chunks chunks' : Nat → Chunk n} {r : Fin n}
    (h : ReaderOk maxChunkBytes maxChunks chunks published sent r reader)
    (hget : published[reader.received.length]? = some message)
    (hless : reader.received.length < sent.length) {currentIdx : Nat} {payloads : List (List Bytes)}
    {buffers : List Buffer} (hidx : currentIdx = (reader.received.length + 1) % maxChunks)
    (hpayloads : payloads = ((sent.drop (reader.received.length + 1)).filter fun message =>
      message.overflows maxChunkBytes).map Message.allBuffers)
    (hbuffers : buffers = message.handed maxChunkBytes (reader.received.length % maxChunks)) :
    ReaderOk maxChunkBytes maxChunks chunks' published sent r
      { currentIdx, payloads, phase := .polling, received := reader.received ++ [buffers] } := by
  have hlength : (reader.received ++ [buffers]).length = reader.received.length + 1 :=
    List.length_append
  have hle := (List.getElem?_eq_some_iff.mp hget).1.le
  refine ⟨?_, ?_, ?_, ?_, trivial⟩
  · rw [Reader.marks, hlength]
    exact hidx
  · rw [hlength, List.take_add_one, hget, Option.toList_some, List.mapIdx_concat, ← h.received,
      List.length_take_of_le hle, hbuffers]
  · exact hlength ▸ hless
  · rw [hlength]
    exact hpayloads

/-- The first payload under way is the one that the reader waits for. -/
theorem ReaderOk.payload {r : Fin n}
    (h : ReaderOk maxChunkBytes maxChunks chunks published sent r reader)
    (hfirst : sent <+: published) (hget : published[reader.received.length]? = some message)
    (hover : message.overflows maxChunkBytes = true) {payload : List Bytes}
    {payloads : List (List Bytes)} (hpayloads : reader.payloads = payload :: payloads) :
    reader.received.length < sent.length ∧ payload = message.allBuffers ∧
      payloads = ((sent.drop (reader.received.length + 1)).filter fun message =>
        message.overflows maxChunkBytes).map Message.allBuffers := by
  have hall := hpayloads.symm.trans h.payloads
  have hless : reader.received.length < sent.length := by
    by_contra hge
    rw [List.drop_eq_nil_of_le (not_lt.mp hge)] at hall
    cases hall
  have hat : sent[reader.received.length] = message :=
    (hfirst.getElem hless).trans (List.getElem?_eq_some_iff.mp hget).2
  rw [List.drop_eq_getElem_cons hless, hat, List.filter_cons_of_pos hover, List.map_cons] at hall
  exact ⟨hless, List.cons.inj hall⟩

/-- A reader's knowledge lasts when more is published. -/
theorem PhaseOk.append {published : List Message} {r : Fin n} {phase : DequeuePhase}
    (h : PhaseOk maxChunkBytes maxChunks chunks published r reader phase) (message : Message) :
    PhaseOk maxChunkBytes maxChunks chunks (published ++ [message]) r reader phase := by
  have hget : ∀ {k : Nat} {m : Message}, published[k]? = some m →
      (published ++ [message])[k]? = some m := by
    intro k m hm
    rw [List.getElem?_append_left (List.getElem?_eq_some_iff.mp hm).1, hm]
  cases phase with
  | polling => trivial
  | testing readFlag => exact h
  | reading =>
    have hlt : reader.marks < published.length := h
    rw [PhaseOk, List.length_append]
    exact Nat.lt_add_right _ hlt
  | marking found =>
    obtain ⟨m, hm, hfound⟩ := h
    exact ⟨m, hget hm, hfound⟩
  | receiving =>
    obtain ⟨m, hm, hover⟩ := h
    exact ⟨m, hget hm, hover⟩

variable {s : State n}

/-- A step of the writer within its call. -/
theorem Invariant.setCall (h : Invariant maxChunkBytes maxChunks s)
    {call : Option (Message × EnqueuePhase)} (hsending : isSending s.writer.call = false)
    (hsending' : isSending call = false)
    (hwriter : WriterOk maxChunkBytes maxChunks s.writerChunk s.published s.marks call) :
    Invariant maxChunkBytes maxChunks (s.setCall call) := by
  have hsent : (s.setCall call).sent = s.sent := by
    rw [State.sent, State.sent, hsending]
    exact if_neg (by rw [State.setCall, hsending']; exact Bool.false_ne_true)
  refine ⟨h.ring, h.currentIdx, hwriter, fun r => ?_⟩
  rw [hsent]
  exact h.readers r

/-- A step of the writer that changes its chunk, which is not written before or after. -/
theorem Invariant.setChunk (h : Invariant maxChunkBytes maxChunks s) (chunk : Chunk n)
    (call : Option (Message × EnqueuePhase))
    (hfree : ∀ r, s.published.length < s.marks r + maxChunks) (hchunk : chunk.written = false)
    (hflags : ∀ r, s.writerChunk.readFlags r = false → chunk.readFlags r = false)
    (hsending : isSending s.writer.call = false) (hsending' : isSending call = false)
    (hwriter : WriterOk maxChunkBytes maxChunks chunk s.published s.marks call) :
    Invariant maxChunkBytes maxChunks
      ((s.setChunk s.writer.currentIdx chunk).setCall call) := by
  have hsent : ((s.setChunk s.writer.currentIdx chunk).setCall call).sent = s.sent := by
    rw [State.sent, State.sent, hsending]
    exact if_neg (by rw [State.setCall, hsending']; exact Bool.false_ne_true)
  constructor
  case ring =>
    change Ring maxChunkBytes maxChunks
      (Function.update s.chunks s.writer.currentIdx chunk) s.published s.marks
    rw [h.currentIdx]
    exact h.ring.unwritten hfree hchunk
  case currentIdx => exact h.currentIdx
  case writer =>
    have hsame : ((s.setChunk s.writer.currentIdx chunk).setCall call).writerChunk = chunk :=
      Function.update_self _ _ _
    rw [hsame]
    exact hwriter
  case readers =>
    intro r
    rw [hsent]
    refine (h.readers r).congr fun c hc => ?_
    change (Function.update s.chunks s.writer.currentIdx chunk c).readFlags r = false
    by_cases heq : c = s.writer.currentIdx
    · subst heq
      rw [Function.update_self]
      exact hflags r hc
    · rw [Function.update_of_ne heq]
      exact hc

/-- Marking the chunk as written. -/
theorem Invariant.publish (hpos : 0 < maxChunks) (h : Invariant maxChunkBytes maxChunks s)
    (hcall : s.writer.call = some (message, .publishing)) :
    Invariant maxChunkBytes maxChunks { s with
      chunks := Function.update s.chunks s.writer.currentIdx { s.writerChunk with written := true }
      writer :=
        { currentIdx := (s.writer.currentIdx + 1) % maxChunks
          call := if message.overflows maxChunkBytes then some (message, .sending) else none }
      published := s.published ++ [message] } := by
  have hwriter := h.writer
  rw [hcall, State.writerChunk, h.currentIdx] at hwriter
  obtain ⟨hwritten, hdata, hflags⟩ := hwriter
  have hsentBefore : s.sent = s.published := by
    rw [State.sent, hcall]
    rfl
  constructor
  case ring =>
    change Ring maxChunkBytes maxChunks (Function.update s.chunks s.writer.currentIdx
      { s.chunks s.writer.currentIdx with written := true }) (s.published ++ [message]) s.marks
    rw [h.currentIdx]
    exact h.ring.publish hpos hwritten hdata hflags
  case currentIdx =>
    simp only [h.currentIdx, List.length_append, List.length_singleton]
    rw [Nat.mod_add_mod]
  case writer =>
    simp only
    split
    · next hover => exact ⟨hover, s.published, rfl⟩
    · trivial
  case readers =>
    intro r
    have hreader := h.readers r
    have hle := hreader.sent_le
    rw [hsentBefore] at hle
    -- A large message is not sent yet, and a small one is no payload.
    have hsent : ∃ later, State.sent { s with
          chunks :=
            Function.update s.chunks s.writer.currentIdx { s.writerChunk with written := true }
          writer :=
            { currentIdx := (s.writer.currentIdx + 1) % maxChunks
              call := if message.overflows maxChunkBytes then some (message, .sending) else none }
          published := s.published ++ [message] } = s.published ++ later ∧
        later.filter (fun message => message.overflows maxChunkBytes) = [] := by
      by_cases hover : message.overflows maxChunkBytes = true
      · refine ⟨[], ?_, rfl⟩
        simp only [State.sent, hover, if_true, isSending, List.dropLast_concat, List.append_nil]
      · refine ⟨[message], ?_, ?_⟩
        · simp only [State.sent, hover, if_false, isSending, Bool.false_eq_true]
        · exact List.filter_eq_nil_iff.mpr fun m hm => List.mem_singleton.mp hm ▸ hover
    obtain ⟨later, hsent, hlater⟩ := hsent
    rw [hsent]
    have hgrown : ReaderOk maxChunkBytes maxChunks s.chunks (s.published ++ [message])
        (s.published ++ later) r (s.readers r) := by
      refine ⟨hreader.currentIdx, ?_, ?_, ?_, hreader.phase.append message⟩
      · rw [List.take_append_of_le_length hle]
        exact hreader.received
      · rw [List.length_append]
        exact hle.trans (Nat.le_add_right _ _)
      · rw [List.drop_append_of_le_length hle, List.filter_append, hlater, List.append_nil,
          ← hsentBefore]
        exact hreader.payloads
    refine hgrown.congr fun c hc => ?_
    change (Function.update s.chunks s.writer.currentIdx
      { s.writerChunk with written := true } c).readFlags r = false
    by_cases heq : c = s.writer.currentIdx
    · subst heq
      rw [Function.update_self]
      exact hc
    · rw [Function.update_of_ne heq]
      exact hc

/-- Sending what did not fit. -/
theorem Invariant.send (h : Invariant maxChunkBytes maxChunks s)
    (hcall : s.writer.call = some (message, .sending)) :
    Invariant maxChunkBytes maxChunks { s with
      writer := { s.writer with call := none }
      readers := fun r => { s.readers r with
        payloads := (s.readers r).payloads ++ [message.allBuffers] } } := by
  have hwriter := h.writer
  rw [hcall] at hwriter
  obtain ⟨hover, front, hfront⟩ := hwriter
  have hsent : s.sent = front := by
    rw [State.sent, hcall, hfront, isSending, if_pos rfl, List.dropLast_concat]
  refine ⟨h.ring, h.currentIdx, trivial, fun r => ?_⟩
  have hreader := h.readers r
  have hle := hreader.sent_le
  have hpayloads := hreader.payloads
  rw [hsent] at hle hpayloads
  refine ⟨hreader.currentIdx, hreader.received, ?_, ?_, hreader.phase⟩
  · simp only [State.sent, isSending, Bool.false_eq_true, if_false]
    rw [hfront, List.length_append]
    exact hle.trans (Nat.le_add_right _ _)
  · simp only [State.sent, isSending, Bool.false_eq_true, if_false]
    rw [hfront, List.drop_append_of_le_length hle, List.filter_append, List.map_append,
      ← hpayloads, List.filter_cons_of_pos hover]
    rfl

theorem Invariant.writerChunk_eq (h : Invariant maxChunkBytes maxChunks s) :
    s.writerChunk = s.chunks (s.published.length % maxChunks) := by
  rw [State.writerChunk, h.currentIdx]

/-- The writer's chunk is free where it is not written. -/
theorem Invariant.free (h : Invariant maxChunkBytes maxChunks s)
    (hwritten : s.writerChunk.written = false) (r : Fin n) :
    s.published.length < s.marks r + maxChunks :=
  h.ring.free (h.writerChunk_eq ▸ hwritten) r

/-- Adding up the read flags. -/
theorem Invariant.sum {s s' : State n} (hpos : 0 < maxChunks)
    (h : Invariant maxChunkBytes maxChunks s) {i readCount : Nat}
    (hcall : s.writer.call = some (message, .summing i readCount))
    (hstep : Broadcast.writerStep maxChunkBytes maxChunks s = some s') :
    Invariant maxChunkBytes maxChunks s' := by
  have hwriter := h.writer
  rw [hcall] at hwriter
  obtain ⟨hcount, hi, hseen⟩ := hwriter
  rw [Broadcast.writerStep.eq_def, hcall] at hstep
  simp only at hstep
  split at hstep
  · next hlt =>
    obtain rfl := Option.some.inj hstep
    refine h.setCall (by rw [hcall]; rfl) rfl ⟨?_, hlt, ?_⟩
    · have := Bool.toNat_le (s.writerChunk.readFlags ⟨i, hlt⟩)
      omega
    · intro hall hwritten r hr
      have hflag := Bool.toNat_le (s.writerChunk.readFlags ⟨i, hlt⟩)
      rcases Nat.lt_succ_iff_lt_or_eq.mp hr with hr | hr
      · exact hseen (by omega) hwritten r hr
      · obtain rfl : r = ⟨i, hlt⟩ := Fin.ext hr
        have hset : s.writerChunk.readFlags ⟨i, hlt⟩ = true := by
          rw [← Bool.toNat_eq_one]
          omega
        rw [h.writerChunk_eq] at hwritten hset
        exact (h.ring.flag_writer hpos hwritten _).mp hset
  · next hge =>
    split at hstep
    · obtain rfl := Option.some.inj hstep
      exact h.setCall (by rw [hcall]; rfl) rfl trivial
    · next hfound =>
      obtain rfl := Option.some.inj hstep
      refine h.setCall (by rw [hcall]; rfl) rfl fun r => ?_
      rw [not_and, not_not] at hfound
      cases hwritten : s.writerChunk.written with
      | false => exact h.free hwritten r
      | true =>
        have hn : i = n := by omega
        exact hseen (by rw [hfound hwritten, hn]) hwritten r (by rw [hn]; exact r.isLt)

/-- Marking the chunk as not read. -/
theorem Invariant.reset {s s' : State n} (h : Invariant maxChunkBytes maxChunks s) {i : Nat}
    (hcall : s.writer.call = some (message, .resetting i))
    (hstep : Broadcast.writerStep maxChunkBytes maxChunks s = some s') :
    Invariant maxChunkBytes maxChunks s' := by
  have hwriter := h.writer
  rw [hcall] at hwriter
  obtain ⟨hwritten, hdata, hreset⟩ := hwriter
  rw [Broadcast.writerStep.eq_def, hcall] at hstep
  simp only at hstep
  split at hstep
  · next hlt =>
    obtain rfl := Option.some.inj hstep
    have hflags : ∀ r, s.writerChunk.readFlags r = false ∨ r.val = i →
        Function.update s.writerChunk.readFlags ⟨i, hlt⟩ false r = false := by
      intro r hr
      by_cases heq : r = ⟨i, hlt⟩
      · rw [heq, Function.update_self]
      · rw [Function.update_of_ne heq]
        exact hr.resolve_right fun hval => heq (Fin.ext hval)
    refine h.setChunk
      { s.writerChunk with
        readFlags := Function.update s.writerChunk.readFlags ⟨i, hlt⟩ false }
      (some (message, .resetting (i + 1))) (h.free hwritten) hwritten
      (fun r hr => hflags r (.inl hr)) (by rw [hcall]; rfl) rfl
      ⟨hwritten, hdata, fun r hr => hflags r ?_⟩
    rcases Nat.lt_succ_iff_lt_or_eq.mp hr with hr | hr
    · exact .inl (hreset r hr)
    · exact .inr hr
  · next hge =>
    obtain rfl := Option.some.inj hstep
    refine h.setCall (by rw [hcall]; rfl) rfl ⟨hwritten, hdata, fun r => ?_⟩
    exact hreset r (by have := r.isLt; omega)

/-- The writer's step keeps the invariant. -/
theorem Invariant.writerStep {s s' : State n} (hpos : 0 < maxChunks)
    (h : Invariant maxChunkBytes maxChunks s)
    (hstep : writerStep maxChunkBytes maxChunks s = some s') :
    Invariant maxChunkBytes maxChunks s' := by
  have hwriter := h.writer
  cases hcall : s.writer.call with
  | none =>
    rw [Broadcast.writerStep.eq_def, hcall] at hstep
    cases hstep
  | some call =>
    obtain ⟨message, phase⟩ := call
    rw [hcall] at hwriter
    cases phase with
    | summing i readCount =>
      exact h.sum hpos hcall hstep
    | waiting =>
      rw [Broadcast.writerStep.eq_def, hcall] at hstep
      obtain rfl := Option.some.inj hstep
      exact h.setCall (by rw [hcall]; rfl) rfl
        ⟨le_rfl, Nat.zero_le _, fun _ _ r hr => absurd hr (Nat.not_lt_zero _)⟩
    | claiming =>
      rw [Broadcast.writerStep.eq_def, hcall] at hstep
      obtain rfl := Option.some.inj hstep
      exact h.setChunk { s.writerChunk with written := false }
        (some (message, .writing (frame maxChunkBytes message))) hwriter rfl (fun _ hr => hr)
        (by rw [hcall]; rfl) rfl ⟨rfl, s.writerChunk.data, rfl⟩
    | writing rest =>
      obtain ⟨hwritten, memory, hmemory⟩ := hwriter
      rw [Broadcast.writerStep.eq_def, hcall] at hstep
      cases rest with
      | nil =>
        obtain rfl := Option.some.inj hstep
        refine h.setCall (by rw [hcall]; rfl) rfl ⟨hwritten, ?_, ?_⟩
        · rw [applyWrites] at hmemory
          exact readFrame_applyWrites hmemory.symm
        · exact fun r hr => absurd hr (Nat.not_lt_zero _)
      | cons write rest =>
        obtain ⟨offset, _ | bytes⟩ := write
        · obtain rfl := Option.some.inj hstep
          exact h.setCall (by rw [hcall]; rfl) rfl trivial
        · obtain rfl := Option.some.inj hstep
          exact h.setChunk
            { s.writerChunk with data := overwrite s.writerChunk.data offset bytes }
            (some (message, .writing rest)) (h.free hwritten) hwritten (fun _ hr => hr)
            (by rw [hcall]; rfl) rfl ⟨hwritten, memory, hmemory⟩
    | resetting i =>
      exact h.reset hcall hstep
    | publishing =>
      rw [Broadcast.writerStep.eq_def, hcall] at hstep
      obtain rfl := Option.some.inj hstep
      exact h.publish hpos hcall
    | sending =>
      rw [Broadcast.writerStep.eq_def, hcall] at hstep
      obtain rfl := Option.some.inj hstep
      exact h.send hcall

/-- What the writer knows lasts while readers come further, and leave its chunk alone where it is
not written. -/
theorem WriterOk.congr {chunk chunk' : Chunk n} {published : List Message}
    {marks marks' : Fin n → Nat} {call : Option (Message × EnqueuePhase)}
    (h : WriterOk maxChunkBytes maxChunks chunk published marks call)
    (hmarks : ∀ r, marks r ≤ marks' r) (hwritten : chunk'.written = chunk.written)
    (hsame : chunk.written = false → chunk' = chunk) :
    WriterOk maxChunkBytes maxChunks chunk' published marks' call := by
  match call, h with
  | none, _ => trivial
  | some (_, .summing i readCount), h =>
    obtain ⟨hcount, hi, hseen⟩ := h
    refine ⟨hcount, hi, fun hall hchunk r hr => ?_⟩
    rw [hwritten] at hchunk
    exact (hseen hall hchunk r hr).trans_le (Nat.add_le_add_right (hmarks r) _)
  | some (_, .waiting), _ => trivial
  | some (_, .claiming), h =>
    exact fun r => (h r).trans_le (Nat.add_le_add_right (hmarks r) _)
  | some (_, .writing rest), h =>
    rw [hsame h.1]
    exact h
  | some (_, .resetting i), h =>
    rw [hsame h.1]
    exact h
  | some (_, .publishing), h =>
    rw [hsame h.1]
    exact h
  | some (_, .sending), h => exact h

/-- A step of a reader that marks no chunk. -/
theorem Invariant.setReader (h : Invariant maxChunkBytes maxChunks s) {r : Fin n}
    (hmarks : reader.marks = s.marks r)
    (hreader : ReaderOk maxChunkBytes maxChunks s.chunks s.published s.sent r reader) :
    Invariant maxChunkBytes maxChunks (s.setReader r reader) := by
  have hsame : (s.setReader r reader).marks = s.marks := by
    funext q
    rw [State.marks]
    by_cases heq : q = r
    · rw [heq, State.readers_setReader]
      exact hmarks
    · rw [State.readers_setReader_of_ne _ _ heq]
      rfl
  refine ⟨?_, h.currentIdx, ?_, fun q => ?_⟩
  · rw [hsame]
    exact h.ring
  · rw [hsame]
    exact h.writer
  · change ReaderOk maxChunkBytes maxChunks s.chunks s.published s.sent q
      (Function.update s.readers r reader q)
    by_cases heq : q = r
    · subst heq
      rw [Function.update_self]
      exact hreader
    · rw [Function.update_of_ne heq]
      exact h.readers q

/-- A reader marks its chunk as read. -/
theorem Invariant.markReader (h : Invariant maxChunkBytes maxChunks s) {r : Fin n}
    (hlt : s.marks r < s.published.length) (hmarks : reader.marks = s.marks r + 1)
    (hreader : ∀ chunks : Nat → Chunk n,
      ReaderOk maxChunkBytes maxChunks chunks s.published s.sent r reader) :
    Invariant maxChunkBytes maxChunks ((s.setChunk (s.readers r).currentIdx
      ((s.chunks (s.readers r).currentIdx).markRead r)).setReader r reader) := by
  have hsame : ((s.setChunk (s.readers r).currentIdx
      ((s.chunks (s.readers r).currentIdx).markRead r)).setReader r reader).marks
        = Function.update s.marks r (s.marks r + 1) := by
    funext q
    by_cases heq : q = r
    · subst heq
      rw [Function.update_self, ← hmarks, State.marks, State.readers_setReader]
    · rw [Function.update_of_ne heq, State.marks, State.readers_setReader_of_ne _ _ heq]
      rfl
  have hidx : (s.readers r).currentIdx = s.marks r % maxChunks := (h.readers r).currentIdx
  constructor
  case ring =>
    rw [hsame]
    change Ring maxChunkBytes maxChunks (Function.update s.chunks (s.readers r).currentIdx
      ((s.chunks (s.readers r).currentIdx).markRead r)) s.published _
    rw [hidx]
    exact h.ring.mark hlt
  case currentIdx => exact h.currentIdx
  case writer =>
    rw [hsame]
    refine h.writer.congr (fun q => ?_) ?_ fun hwritten => ?_
    · by_cases heq : q = r
      · rw [heq, Function.update_self]
        exact Nat.le_succ _
      · rw [Function.update_of_ne heq]
    · change (Function.update s.chunks (s.readers r).currentIdx _ s.writer.currentIdx).written = _
      by_cases heq : s.writer.currentIdx = (s.readers r).currentIdx
      · rw [heq, Function.update_self, State.writerChunk, heq]
        rfl
      · rw [Function.update_of_ne heq]
        rfl
    · -- No reader is at a chunk that is not written.
      change Function.update s.chunks (s.readers r).currentIdx _ s.writer.currentIdx = _
      refine Function.update_of_ne (fun heq => ?_) _ _
      rw [State.writerChunk, h.currentIdx] at hwritten
      have hfree := h.ring.free hwritten r
      rw [hidx, h.currentIdx] at heq
      have := eq_add_of_mod_eq heq.symm hlt (h.ring.ahead r)
      omega
  case readers =>
    intro q
    change ReaderOk maxChunkBytes maxChunks (Function.update s.chunks (s.readers r).currentIdx _)
      s.published s.sent q (Function.update s.readers r reader q)
    by_cases heq : q = r
    · subst heq
      rw [Function.update_self]
      exact hreader _
    · rw [Function.update_of_ne heq]
      refine (h.readers q).congr fun c hc => ?_
      by_cases hchunk : c = (s.readers r).currentIdx
      · subst hchunk
        rw [Function.update_self]
        simp only [Chunk.markRead, Function.update_of_ne heq]
        exact hc
      · rw [Function.update_of_ne hchunk]
        exact hc

/-- The messages that have been sent come first. -/
theorem State.sent_isPrefix (s : State n) : s.sent <+: s.published := by
  rw [State.sent]
  split
  · exact List.dropLast_prefix _
  · exact List.prefix_refl _

/-- A published small message has been sent. -/
theorem Invariant.getElem?_sent (h : Invariant maxChunkBytes maxChunks s) {k : Nat}
    (hget : s.published[k]? = some message) (hover : message.overflows maxChunkBytes = false) :
    s.sent[k]? = some message := by
  rw [State.sent]
  split
  · next hsending =>
    have hwriter := h.writer
    cases hcall : s.writer.call with
    | none =>
      rw [hcall] at hsending
      cases hsending
    | some call =>
      obtain ⟨message', phase⟩ := call
      rw [hcall] at hsending hwriter
      cases phase with
      | sending =>
        obtain ⟨hover', front, hfront⟩ := hwriter
        rw [hfront] at hget ⊢
        rw [List.dropLast_concat]
        rcases Nat.lt_or_ge k front.length with hlt | hge
        · rw [List.getElem?_append_left hlt] at hget
          exact hget
        · rw [List.getElem?_append_right hge] at hget
          obtain rfl := List.mem_singleton.mp (List.mem_of_getElem? hget)
          rw [hover'] at hover
          cases hover
      | _ => cases hsending
  · exact hget

/-- A reader's step keeps the invariant. -/
theorem Invariant.readerStep {s s' : State n} (hpos : 0 < maxChunks)
    (h : Invariant maxChunkBytes maxChunks s) {r : Fin n}
    (hstep : readerStep maxChunks s r = some s') : Invariant maxChunkBytes maxChunks s' := by
  have hreader := h.readers r
  have hphase := hreader.phase
  have hidx : (s.readers r).currentIdx = s.marks r % maxChunks := hreader.currentIdx
  rw [Broadcast.readerStep.eq_def] at hstep
  cases hcase : (s.readers r).phase with
  | polling =>
    simp only [hcase] at hstep
    obtain rfl := Option.some.inj hstep
    obtain ⟨hmarks, hok⟩ := hreader.setPhase
      (.testing ((s.chunks (s.readers r).currentIdx).readFlags r)) (by simp) (by rw [hcase]; simp)
    refine h.setReader hmarks (hok fun hflag => ?_)
    rw [hmarks, ← hreader.currentIdx]
    exact hflag
  | testing readFlag =>
    rw [hcase] at hphase
    simp only [hcase] at hstep
    split at hstep
    · obtain rfl := Option.some.inj hstep
      obtain ⟨hmarks, hok⟩ := hreader.setPhase .polling (by simp) (by rw [hcase]; simp)
      exact h.setReader hmarks (hok trivial)
    · next hfound =>
      obtain rfl := Option.some.inj hstep
      obtain ⟨hmarks, hok⟩ := hreader.setPhase .reading (by simp) (by rw [hcase]; simp)
      rw [not_or, Bool.not_eq_false, Bool.not_eq_true] at hfound
      refine h.setReader hmarks (hok ?_)
      rw [PhaseOk, hmarks]
      rw [hidx] at hfound
      exact h.ring.lt_of_unread hpos hfound.1 (hphase hfound.2)
  | reading =>
    rw [hcase] at hphase
    simp only [hcase] at hstep
    obtain rfl := Option.some.inj hstep
    obtain ⟨hmarks, hok⟩ := hreader.setPhase
      (.marking ((readFrame (s.chunks (s.readers r).currentIdx).data).map
        (loads (s.readers r).currentIdx))) (by simp) (by rw [hcase]; simp)
    have hlt : s.marks r < s.published.length := hphase
    have hget := List.getElem?_eq_getElem hlt
    refine h.setReader hmarks (hok ⟨s.published[s.marks r], ?_, ?_⟩)
    · rw [hmarks]
      exact hget
    · rw [hmarks, hidx]
      exact congrArg _ (h.ring.current hget).data
  | marking found =>
    rw [hcase] at hphase
    simp only [hcase] at hstep
    obtain ⟨message, hget, hfound⟩ := hphase
    have hnumber : s.marks r = (s.readers r).received.length := by
      simp [State.marks, Reader.marks, hcase]
    have hget' : s.published[(s.readers r).received.length]? = some message := by
      rw [← hnumber]
      exact hget
    have hlt : s.marks r < s.published.length := (List.getElem?_eq_some_iff.mp hget).1
    have hnext : ((s.readers r).currentIdx + 1) % maxChunks = (s.marks r + 1) % maxChunks := by
      rw [hidx, Nat.mod_add_mod]
    cases hover : message.overflows maxChunkBytes with
    | true =>
      have hnone : found = none := by rw [hfound, Message.shown, if_pos hover, Option.map_none]
      rw [hnone] at hstep
      obtain rfl := Option.some.inj hstep
      refine h.markReader hlt ?_ fun chunks => ⟨?_, hreader.received, hreader.sent_le,
        hreader.payloads, message, hget', hover⟩
      · rw [hnumber]
        rfl
      · simp only [hnext, hnumber]
        rfl
    | false =>
      have hsome : found = some (message.handed maxChunkBytes (s.marks r % maxChunks)) := by
        rw [hfound, Message.shown, Message.handed, hover, if_neg Bool.false_ne_true,
          if_neg Bool.false_ne_true, Option.map_some]
        rfl
      rw [hsome] at hstep
      obtain rfl := Option.some.inj hstep
      obtain ⟨hless, hat⟩ := List.getElem?_eq_some_iff.mp (h.getElem?_sent hget' hover)
      refine h.markReader hlt ?_ fun chunks =>
        hreader.next hget' hless (hnumber ▸ hnext) ?_ (hnumber ▸ rfl)
      · simp only [hnumber, Reader.marks, List.length_append, List.length_singleton, Nat.add_zero]
      · rw [hreader.payloads, List.drop_eq_getElem_cons hless, hat,
          List.filter_cons_of_neg (by rw [hover]; exact Bool.false_ne_true)]
  | receiving =>
    rw [hcase] at hphase
    simp only [hcase] at hstep
    obtain ⟨message, hget, hover⟩ := hphase
    cases hpay : (s.readers r).payloads with
    | nil =>
      rw [hpay] at hstep
      cases hstep
    | cons payload payloads =>
      simp only [hpay] at hstep
      obtain rfl := Option.some.inj hstep
      obtain ⟨hless, rfl, hrest⟩ := hreader.payload s.sent_isPrefix hget hover hpay
      have hmarks : s.marks r = (s.readers r).received.length + 1 := by
        simp [State.marks, Reader.marks, hcase]
      refine h.setReader ?_ (hreader.next hget hless (hmarks ▸ hidx) hrest ?_)
      · simp only [hmarks, Reader.marks, List.length_append, List.length_singleton, Nat.add_zero]
      · rw [Message.handed, if_pos hover]

end Steps

end Vllm.Distributed.Broadcast
