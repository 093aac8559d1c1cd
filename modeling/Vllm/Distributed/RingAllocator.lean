import Vllm.Distributed.ShmRingBuffer

/-!
# Safety of the ring allocator

The chunks in use are a chain of intervals of the line that spans at most one turn of the
buffer. Each keeps the address it was given, which is its place on the line up to whole
turns. Allocating, freeing and moving the range back keep this picture as long as there are
fewer chunks than ids.
-/

namespace Vllm.ShmRing

open CircularLayout

/-! ## Sessions -/

/-- The buffer in use: the writer's side, a state that the readers share with the checks of
`free_buf`, and the length of the chunk last allocated under each id. -/
structure Session (σ : Type) where
  /-- The writer's side. -/
  buf : SingleWriterShmRingBuffer
  /-- What the checks read and change. -/
  env : σ
  /-- The length with the header of the chunk under an id. -/
  lengthOf : Nat → Int := fun _ => 0

/-- What happens to the buffer. -/
inductive RingOp (σ : Type) where
  /-- `allocate_buf(size)`. -/
  | allocate (size : Nat)
  /-- `free_buf(is_free_fn, nbytes)`. -/
  | free (isFreeFn : σ → Nat → List UInt8 → Bool × σ) (nbytes : Option Int)
  /-- `clear()`. -/
  | clear
  /-- Writer and readers change the memory and the state of the checks in between. -/
  | use (memory : Nat → UInt8) (env : σ)

variable {σ : Type}

/-- The session after an operation; a failed one leaves what it changed before failing. -/
def Session.step (s : Session σ) : RingOp σ → Session σ
  | .allocate size =>
    match s.buf.allocateBuf size with
    | (.ok (_, id), buf) => { s with
        buf
        lengthOf := fun i => if i = id then size + mdSize else s.lengthOf i }
    | (.error _, buf) => { s with buf }
  | .free isFreeFn nbytes =>
    let freed := s.buf.freeBuf isFreeFn nbytes s.env
    { s with buf := freed.2.1, env := freed.2.2 }
  | .clear => { s with buf := s.buf.clear }
  | .use memory env => { s with buf := { s.buf with memory }, env }

/-- The chunk with its header has fewer than `2 ^ 31` bytes. -/
def RingOp.Admissible : RingOp σ → Prop
  | .allocate size => size + mdSize < 2 ^ 31
  | _ => True

/-! ## The layout -/

/-- A chunk in use: its interval of the line, its id and the address it was given. -/
structure Chunk extends Interval where
  /-- The id. -/
  id : Nat
  /-- The address, as in the metadata. -/
  address : Int

/-- The chunk seen from another turn. -/
def Chunk.shift (c : Chunk) (d : Int) : Chunk := { c with lo := c.lo + d }

/-- The chunks in use lie one behind the other in the range in use, which spans at most one
turn and begins with the oldest chunk; their ids count up from the first one. -/
structure Laid (s : Session σ) (chunks : List Chunk) : Prop where
  size_pos : 0 < s.buf.dataBufferSize
  chain : Chain s.buf.dataBufferSize s.buf.dataBufferStart (chunks.map Chunk.toInterval)
    s.buf.dataBufferEnd
  first : ∀ c ∈ chunks.head?, c.lo = s.buf.dataBufferStart
  empty : chunks = [] → s.buf.dataBufferStart = 0 ∧ s.buf.dataBufferEnd = 0
  start_nonneg : 0 ≤ s.buf.dataBufferStart
  span : s.buf.dataBufferEnd ≤ s.buf.dataBufferStart + s.buf.dataBufferSize
  end_lt : s.buf.dataBufferEnd < 2 * s.buf.dataBufferSize
  entries : s.buf.metadata.entries = chunks.map fun c => (c.id, c.address)
  ids : chunks.map Chunk.id = countFrom idMax s.buf.monotonicIdStart chunks.length
  few : chunks.length ≤ idMax
  id_lt : s.buf.monotonicIdStart < idMax
  id_end : s.buf.monotonicIdEnd = (s.buf.monotonicIdStart + chunks.length) % idMax
  address : ∀ c ∈ chunks, c.address % s.buf.dataBufferSize = c.lo % s.buf.dataBufferSize
  length : ∀ c ∈ chunks, c.len = s.lengthOf c.id
  header : ∀ c ∈ chunks, mdSize < c.len

/-- Between operations the range in use begins within the first turn. -/
structure Resting (s : Session σ) (chunks : List Chunk) : Prop extends Laid s chunks where
  start_lt : s.buf.dataBufferStart < s.buf.dataBufferSize

variable {s : Session σ} {chunks : List Chunk}

/-- A buffer without chunks whose counters and ends are at zero. -/
theorem resting_empty {S : Int} (hS : 0 < S) (memory : Nat → UInt8) (env : σ)
    (lengthOf : Nat → Int) :
    Resting ⟨{ dataBufferSize := S, memory }, env, lengthOf⟩ [] where
  size_pos := hS
  chain := le_refl (0 : Int)
  first := fun _ hc => nomatch hc
  empty := fun _ => ⟨rfl, rfl⟩
  start_nonneg := le_rfl
  span := by simpa using hS.le
  end_lt := Int.mul_pos (by omega) hS
  entries := rfl
  ids := rfl
  few := Nat.zero_le _
  id_lt := Nat.two_pow_pos 31
  id_end := rfl
  address := fun _ hc => nomatch hc
  length := fun _ hc => nomatch hc
  header := fun _ hc => nomatch hc
  start_lt := hS

private theorem idMax_pos : 0 < idMax := Nat.two_pow_pos 31

/-- Neither the memory nor the state of the checks matters for the layout. -/
theorem Laid.use (h : Laid s chunks) (memory : Nat → UInt8) (env : σ) :
    Laid { s with buf := { s.buf with memory }, env } chunks :=
  { h with }

/-! ## Allocation -/

namespace SingleWriterShmRingBuffer

variable {buf : SingleWriterShmRingBuffer}

/-- A chunk would begin behind the range in use. -/
theorem le_bufferEndReset (hS : 0 < buf.dataBufferSize) (size : Int) :
    buf.dataBufferEnd ≤ buf.bufferEndReset size := by
  unfold bufferEndReset
  split
  · exact (Int.lt_ediv_add_one_mul_self buf.dataBufferEnd hS).le
  · exact le_rfl

/-- A chunk would be contiguous where it would begin. -/
theorem bufferEndReset_fits {size : Int} (hsize : size ≤ buf.dataBufferSize) :
    buf.bufferEndReset size % buf.dataBufferSize + size ≤ buf.dataBufferSize := by
  unfold bufferEndReset
  split
  · rw [Int.mul_emod_left]
    omega
  · next hfit => omega

/-- An empty buffer is filled from its beginning. -/
theorem bufferEndReset_of_empty {size : Int} (hend : buf.dataBufferEnd = 0)
    (hsize : size ≤ buf.dataBufferSize) : buf.bufferEndReset size = 0 := by
  rw [bufferEndReset, hend, Int.zero_emod, if_neg (by omega)]

/-- A number below `2 ^ 31` has four bytes. -/
theorem exists_int2byte {integer : Int} (h : 0 ≤ integer ∧ integer < 2 ^ 31) :
    ∃ bytes, int2byte integer = .ok bytes :=
  ⟨_, if_pos ⟨by omega, h.2⟩⟩

/-- Without room for it, or without a size, nothing changes. -/
theorem allocateBuf_of_no_room {size : Nat} (h : size = 0 ∨ buf.dataBufferSize
      < buf.bufferEndReset (size + mdSize) + (size + mdSize) - buf.dataBufferStart) :
    ∃ e, allocateBuf size buf = (.error e, buf) := by
  by_cases hzero : size = 0
  · exact ⟨.sizeNotPositive, if_pos hzero⟩
  · refine ⟨.memoryError, ?_⟩
    rw [allocateBuf, if_neg hzero]
    exact if_pos (h.resolve_left hzero)

/-- With room for it, a chunk of fewer than `2 ^ 31` bytes is put at the end of the range in
use. -/
theorem allocateBuf_of_room {size : Nat} (hzero : size ≠ 0) (hsize : size + mdSize < 2 ^ 31)
    (hid : buf.monotonicIdEnd < idMax)
    (hroom : buf.bufferEndReset (size + mdSize) + (size + mdSize) - buf.dataBufferStart
      ≤ buf.dataBufferSize) :
    ∃ memory, allocateBuf size buf =
      (.ok (buf.bufferEndReset (size + mdSize), buf.monotonicIdEnd),
        recordChunk { buf with dataBufferEnd := buf.bufferEndReset (size + mdSize), memory }
          (size + mdSize)) := by
  obtain ⟨idBytes, hidBytes⟩ : ∃ bytes, int2byte buf.monotonicIdEnd = .ok bytes := by
    refine exists_int2byte ?_
    unfold idMax at hid
    omega
  obtain ⟨sizeBytes, hsizeBytes⟩ : ∃ bytes, int2byte (size + mdSize) = .ok bytes := by
    refine exists_int2byte ?_
    unfold mdSize at hsize ⊢
    omega
  rw [allocateBuf, if_neg hzero]
  simp only [if_neg (not_lt.mpr hroom)]
  rw [hidBytes, hsizeBytes]
  exact ⟨_, rfl⟩

end SingleWriterShmRingBuffer

/-- The id after the last one is not in use while there are fewer chunks than ids. -/
theorem Laid.id_end_not_mem (h : Laid s chunks) (hfew : chunks.length < idMax) :
    s.buf.monotonicIdEnd ∉ chunks.map Chunk.id := by
  rw [h.ids, h.id_end]
  exact not_mem_countFrom hfew

/-- The keys of the metadata are the ids of the chunks. -/
theorem Laid.keys (h : Laid s chunks) : s.buf.metadata.keys = chunks.map Chunk.id := by
  rw [Dict.keys, h.entries, List.map_map]
  rfl

/-- A chunk put at the end of the range in use. -/
theorem Resting.placed (h : Resting s chunks) (hfew : chunks.length < idMax) {reset len : Int}
    (hreset : s.buf.dataBufferEnd ≤ reset) (hempty : chunks = [] → reset = 0)
    (hlen : mdSize < len) (hfit : reset % s.buf.dataBufferSize + len ≤ s.buf.dataBufferSize)
    (hroom : reset + len ≤ s.buf.dataBufferStart + s.buf.dataBufferSize)
    (memory : Nat → UInt8) :
    Resting { s with
      buf := SingleWriterShmRingBuffer.recordChunk
        { s.buf with dataBufferEnd := reset, memory } len
      lengthOf := fun i => if i = s.buf.monotonicIdEnd then len else s.lengthOf i }
      (chunks ++ [⟨⟨reset, len⟩, s.buf.monotonicIdEnd, reset⟩]) := by
  have hnot := h.id_end_not_mem hfew
  have hidlt : s.buf.monotonicIdEnd < idMax := by
    rw [h.id_end]
    exact Nat.mod_lt _ idMax_pos
  have hpos : 0 < len := lt_trans (by decide) hlen
  have hstart := h.start_lt
  have hold : ∀ c ∈ chunks, c.id ≠ s.buf.monotonicIdEnd := by
    rintro c hc heq
    exact hnot (heq ▸ List.mem_map_of_mem hc)
  exact {
    size_pos := h.size_pos
    chain := by
      rw [List.map_append]
      exact h.chain.append hreset hpos hfit
    first := by
      intro c hc
      cases chunks with
      | nil =>
        obtain rfl : _ = c := Option.some.inj hc
        exact (hempty rfl).trans (h.empty rfl).1.symm
      | cons d rest => exact h.first c hc
    empty := by simp
    start_nonneg := h.start_nonneg
    span := hroom
    end_lt := by
      simp only [SingleWriterShmRingBuffer.recordChunk]
      omega
    entries := by
      have habsent : s.buf.metadata.get? (s.buf.monotonicIdEnd % idMax) = none := by
        rw [Nat.mod_eq_of_lt hidlt, ← Option.not_isSome_iff_eq_none, Option.isSome_iff_exists]
        rw [← Dict.mem_keys, h.keys]
        exact hnot
      simp only [SingleWriterShmRingBuffer.recordChunk]
      rw [Dict.entries_insert_of_absent habsent, h.entries, List.map_append,
        Nat.mod_eq_of_lt hidlt]
      rfl
    ids := by
      simp only [SingleWriterShmRingBuffer.recordChunk]
      rw [List.map_append, h.ids, List.length_append, List.length_singleton, countFrom_succ,
        ← h.id_end]
      rfl
    few := by
      rw [List.length_append, List.length_singleton]
      exact hfew
    id_lt := h.id_lt
    id_end := by
      simp only [SingleWriterShmRingBuffer.recordChunk]
      rw [List.length_append, List.length_singleton, h.id_end, Nat.mod_add_mod, Nat.add_assoc]
    address := by
      intro c hc
      rcases List.mem_append.mp hc with hc | hc
      · exact h.address c hc
      · obtain rfl := List.mem_singleton.mp hc
        rfl
    length := by
      intro c hc
      rcases List.mem_append.mp hc with hc | hc
      · exact (h.length c hc).trans (if_neg (hold c hc)).symm
      · obtain rfl := List.mem_singleton.mp hc
        exact (if_pos rfl).symm
    header := by
      intro c hc
      rcases List.mem_append.mp hc with hc | hc
      · exact h.header c hc
      · obtain rfl := List.mem_singleton.mp hc
        exact hlen
    start_lt := hstart }

/-- An allocation fails without a change, or it puts one chunk at the end. -/
theorem Resting.allocate (h : Resting s chunks) (hfew : chunks.length < idMax) {size : Nat}
    (hsize : size + mdSize < 2 ^ 31) :
    ((∃ e, s.buf.allocateBuf size = (.error e, s.buf)) ∧ s.step (.allocate size) = s) ∨
      ∃ c, Resting (s.step (.allocate size)) (chunks ++ [c]) := by
  by_cases hroom : size = 0 ∨ s.buf.dataBufferSize
      < s.buf.bufferEndReset (size + mdSize) + (size + mdSize) - s.buf.dataBufferStart
  · obtain ⟨e, he⟩ := SingleWriterShmRingBuffer.allocateBuf_of_no_room hroom
    refine .inl ⟨⟨e, he⟩, ?_⟩
    simp only [Session.step, he]
  obtain ⟨hzero, hroom⟩ := not_or.mp hroom
  rw [not_lt] at hroom
  have hidlt : s.buf.monotonicIdEnd < idMax := by
    rw [h.id_end]
    exact Nat.mod_lt _ idMax_pos
  have hle := SingleWriterShmRingBuffer.le_bufferEndReset h.size_pos (size + mdSize)
  have hspan := h.chain.le
  have hfit : (size + mdSize : Int) ≤ s.buf.dataBufferSize := by omega
  obtain ⟨memory, hrun⟩ := SingleWriterShmRingBuffer.allocateBuf_of_room hzero hsize hidlt hroom
  have hplaced := h.placed hfew hle
    (fun hnil => SingleWriterShmRingBuffer.bufferEndReset_of_empty (h.empty hnil).2 hfit)
    (by unfold mdSize; omega) (SingleWriterShmRingBuffer.bufferEndReset_fits hfit) (by omega)
    memory
  exact .inr ⟨⟨⟨s.buf.bufferEndReset (size + mdSize), size + mdSize⟩, s.buf.monotonicIdEnd,
    s.buf.bufferEndReset (size + mdSize)⟩, by simpa only [Session.step, hrun] using hplaced⟩

/-! ## Freeing -/

/-- The oldest chunk has the first id, and the others count up from the next one. -/
theorem Laid.ids_cons {c : Chunk} (h : Laid s (c :: chunks)) :
    c.id = s.buf.monotonicIdStart ∧
      chunks.map Chunk.id = countFrom idMax ((s.buf.monotonicIdStart + 1) % idMax)
        chunks.length := by
  have hids := h.ids
  rwa [List.length_cons, countFrom_succ' h.id_lt, List.map_cons, List.cons.injEq] at hids

/-- Dropping the oldest chunk leaves the others. -/
theorem Laid.dropOldest {c : Chunk} (h : Laid s (c :: chunks)) (env : σ) :
    Laid { s with buf := s.buf.dropOldest, env } chunks := by
  obtain ⟨hid, hids⟩ := h.ids_cons
  obtain ⟨hlo, hlen, hfit, hchain⟩ := h.chain
  have hfirst : c.lo = s.buf.dataBufferStart := h.first c rfl
  have hentries : (s.buf.metadata.erase s.buf.monotonicIdStart).entries
      = chunks.map fun c => (c.id, c.address) := by
    rw [← hid]
    exact Dict.entries_erase_of_entries_eq_cons h.entries
  have hidEnd : s.buf.monotonicIdEnd
      = ((s.buf.monotonicIdStart + 1) % idMax + chunks.length) % idMax := by
    rw [h.id_end, List.length_cons, Nat.mod_add_mod, Nat.add_right_comm, Nat.add_assoc]
  have hmem : ∀ {d}, d ∈ chunks → d ∈ c :: chunks := List.mem_cons_of_mem c
  cases chunks with
  | nil =>
    have hnone : (s.buf.metadata.erase s.buf.monotonicIdStart).get?
        ((s.buf.monotonicIdStart + 1) % idMax) = none :=
      (Dict.entries_eq_nil_iff _).mp hentries _
    have hdrop : s.buf.dropOldest = { s.buf with
        metadata := s.buf.metadata.erase s.buf.monotonicIdStart
        monotonicIdStart := (s.buf.monotonicIdStart + 1) % idMax
        dataBufferStart := 0
        dataBufferEnd := 0 } := by
      simp only [SingleWriterShmRingBuffer.dropOldest, hnone]
    rw [hdrop]
    exact {
      size_pos := h.size_pos
      chain := le_refl (0 : Int)
      first := fun _ hd => by cases hd
      empty := fun _ => ⟨rfl, rfl⟩
      start_nonneg := le_rfl
      span := by simpa using h.size_pos.le
      end_lt := Int.mul_pos (by omega) h.size_pos
      entries := hentries
      ids := rfl
      few := Nat.zero_le _
      id_lt := Nat.mod_lt _ idMax_pos
      id_end := hidEnd
      address := fun _ hd => by cases hd
      length := fun _ hd => by cases hd
      header := fun _ hd => by cases hd }
  | cons d rest =>
    have hd : d.id = (s.buf.monotonicIdStart + 1) % idMax := by
      rw [List.length_cons, countFrom_succ' (Nat.mod_lt _ idMax_pos),
        List.map_cons, List.cons.injEq] at hids
      exact hids.1
    have hsome : (s.buf.metadata.erase s.buf.monotonicIdStart).get?
        ((s.buf.monotonicIdStart + 1) % idMax) = some d.address := by
      rw [← hd]
      exact Dict.get?_of_entries_eq_cons hentries
    have hstart := h.start_nonneg
    have hdlo := hchain.1
    have hdfin := hchain.2.2.2.le
    have hdlen := hchain.2.1
    have hspan := h.span
    have hnext : s.buf.dataBufferStart
        + (d.address - s.buf.dataBufferStart) % s.buf.dataBufferSize = d.lo := by
      have hmod : (d.address - s.buf.dataBufferStart) % s.buf.dataBufferSize
          = (d.lo - s.buf.dataBufferStart) % s.buf.dataBufferSize := by
        rw [Int.sub_emod, h.address d (hmem List.mem_cons_self), ← Int.sub_emod]
      rw [hmod, Int.emod_eq_of_lt (by omega) (by omega)]
      omega
    have hdrop : s.buf.dropOldest = { s.buf with
        metadata := s.buf.metadata.erase s.buf.monotonicIdStart
        monotonicIdStart := (s.buf.monotonicIdStart + 1) % idMax
        dataBufferStart := d.lo } := by
      simp only [SingleWriterShmRingBuffer.dropOldest, hsome, hnext]
    rw [hdrop]
    exact {
      size_pos := h.size_pos
      chain := ⟨le_rfl, hchain.2⟩
      first := by
        rintro e he
        obtain rfl : d = e := Option.some.inj he
        rfl
      empty := fun hnil => absurd hnil (List.cons_ne_nil _ _)
      start_nonneg := show 0 ≤ d.lo by omega
      span := show s.buf.dataBufferEnd ≤ d.lo + s.buf.dataBufferSize by omega
      end_lt := h.end_lt
      entries := hentries
      ids := hids
      few := Nat.le_of_succ_le h.few
      id_lt := Nat.mod_lt _ idMax_pos
      id_end := hidEnd
      address := fun e he => h.address e (hmem he)
      length := fun e he => h.length e (hmem he)
      header := fun e he => h.header e (hmem he) }

/-- The loop of `free_buf` drops some of the oldest chunks and leaves the others. -/
theorem Laid.freeLoop (isFreeFn : σ → Nat → List UInt8 → Bool × σ) (nbytes freedBytes : Int)
    (h : Laid s chunks) : ∃ removed rest, chunks = removed ++ rest ∧
      Laid { s with
        buf := (s.buf.freeLoop isFreeFn nbytes freedBytes s.env).1
        env := (s.buf.freeLoop isFreeFn nbytes freedBytes s.env).2 } rest ∧
      (s.buf.freeLoop isFreeFn nbytes freedBytes s.env).1.monotonicIdStart
        = (s.buf.monotonicIdStart + removed.length) % idMax := by
  induction chunks generalizing s freedBytes with
  | nil =>
    have hnone : s.buf.metadata.get? s.buf.monotonicIdStart = none :=
      (Dict.entries_eq_nil_iff _).mp h.entries _
    rw [SingleWriterShmRingBuffer.freeLoop]
    split
    · refine ⟨[], [], rfl, h, ?_⟩
      exact (Nat.mod_eq_of_lt h.id_lt).symm
    · next hsome => exact absurd (hnone.symm.trans hsome) (by simp)
  | cons c chunks ih =>
    have hsome : s.buf.metadata.get? s.buf.monotonicIdStart = some c.address := by
      rw [← h.ids_cons.1]
      exact Dict.get?_of_entries_eq_cons h.entries
    have hstop : s.buf.monotonicIdStart
        = (s.buf.monotonicIdStart + ([] : List Chunk).length) % idMax :=
      (Nat.mod_eq_of_lt h.id_lt).symm
    rw [SingleWriterShmRingBuffer.freeLoop]
    split
    · next hnone => exact absurd (hnone.symm.trans hsome) (by simp)
    split
    · split
      · next env _ =>
        obtain ⟨removed, rest, rfl, hrest, hid⟩ := ih _ (h.dropOldest env)
        refine ⟨c :: removed, rest, rfl, hrest, hid.trans ?_⟩
        rw [SingleWriterShmRingBuffer.monotonicIdStart_dropOldest, List.length_cons,
          Nat.mod_add_mod, Nat.add_right_comm, Nat.add_assoc]
      · next env _ => exact ⟨[], c :: chunks, rfl, h.use s.buf.memory env, hstop⟩
    · exact ⟨[], c :: chunks, rfl, h, hstop⟩

/-- The ids between two numbers of the counter are those counted from the first one, as long
as not all are. -/
theorem SingleWriterShmRingBuffer.idsBetween_eq {start n : Nat} (hstart : start < idMax)
    (hn : n < idMax) :
    idsBetween start ((start + n) % idMax) = countFrom idMax start n := by
  by_cases hwrap : start + n < idMax
  · rw [Nat.mod_eq_of_lt hwrap, idsBetween, if_pos (by omega), countFrom_eq_range' (by omega)]
    congr 1
    omega
  · have hmod : (start + n) % idMax = start + n - idMax := by
      rw [Nat.mod_eq_sub_mod (by omega), Nat.mod_eq_of_lt (by omega)]
    have hsplit : n = (idMax - start) + (start + n - idMax) := by omega
    rw [hmod, idsBetween, if_neg (by omega)]
    conv_rhs => rw [hsplit]
    rw [countFrom_add, countFrom_eq_range' (by omega), Nat.add_sub_cancel' (by omega),
      Nat.mod_self, countFrom_eq_range' (by omega), List.range_eq_range']

/-- Moving the range in use back keeps the layout and ends within the first turn. -/
theorem Laid.wrapAround (h : Laid s chunks) :
    ∃ chunks', Resting { s with buf := s.buf.wrapAround } chunks' ∧
      chunks'.length = chunks.length := by
  by_cases hwrap : s.buf.dataBufferSize ≤ s.buf.dataBufferStart
  · have hsize := h.size_pos
    have hfin := h.chain.le
    have hend := h.end_lt
    have hspan := h.span
    rw [SingleWriterShmRingBuffer.wrapAround, if_pos hwrap]
    refine ⟨chunks.map (·.shift (-s.buf.dataBufferSize)), ⟨{
      size_pos := h.size_pos
      chain := by
        have hshift := h.chain.shift
        rwa [List.map_map] at hshift ⊢
      first := by
        intro c hc
        rw [List.head?_map] at hc
        obtain ⟨d, hd, rfl⟩ := Option.map_eq_some_iff.mp hc
        exact congrArg (· - s.buf.dataBufferSize) (h.first d hd)
      empty := fun hnil => by
        have hstart := (h.empty (List.map_eq_nil_iff.mp hnil)).1
        omega
      start_nonneg := Int.sub_nonneg_of_le hwrap
      span := show s.buf.dataBufferEnd - s.buf.dataBufferSize
        ≤ s.buf.dataBufferStart - s.buf.dataBufferSize + s.buf.dataBufferSize by omega
      end_lt := show s.buf.dataBufferEnd - _ < 2 * s.buf.dataBufferSize by omega
      entries := by
        rw [List.map_map]
        exact h.entries
      ids := by
        rw [List.map_map, List.length_map]
        exact h.ids
      few := by
        rw [List.length_map]
        exact h.few
      id_lt := h.id_lt
      id_end := by
        rw [List.length_map]
        exact h.id_end
      address := by
        intro c hc
        obtain ⟨d, hd, rfl⟩ := List.mem_map.mp hc
        exact (h.address d hd).trans (Int.sub_emod_right _ _).symm
      length := by
        intro c hc
        obtain ⟨d, hd, rfl⟩ := List.mem_map.mp hc
        exact h.length d hd
      header := by
        intro c hc
        obtain ⟨d, hd, rfl⟩ := List.mem_map.mp hc
        exact h.header d hd }, ?_⟩, ?_⟩
    · exact show s.buf.dataBufferStart - _ < s.buf.dataBufferSize by omega
    · exact List.length_map _
  · refine ⟨chunks, ?_, rfl⟩
    rw [SingleWriterShmRingBuffer.wrapAround, if_neg hwrap]
    exact ⟨h, not_le.mp hwrap⟩

@[simp] theorem SingleWriterShmRingBuffer.metadata_wrapAround (buf : SingleWriterShmRingBuffer) :
    buf.wrapAround.metadata = buf.metadata := by
  unfold wrapAround
  split <;> rfl

/-- `free_buf` removes some of the oldest chunks, and returns their ids in order unless there
were as many as ids. -/
theorem Resting.free (h : Resting s chunks) (isFreeFn : σ → Nat → List UInt8 → Bool × σ)
    (nbytes : Option Int) : ∃ removed chunks', removed.length + chunks'.length = chunks.length ∧
      Resting (s.step (.free isFreeFn nbytes)) chunks' ∧
      s.buf.metadata.entries
        = removed ++ (s.buf.freeBuf isFreeFn nbytes s.env).2.1.metadata.entries ∧
      (removed.length < idMax →
        (s.buf.freeBuf isFreeFn nbytes s.env).1 = removed.map Prod.fst) := by
  obtain ⟨removed, rest, rfl, hlaid, hid⟩ :=
    h.toLaid.freeLoop isFreeFn (nbytes.getD s.buf.dataBufferSize) 0
  obtain ⟨chunks', hrest, hlength⟩ := hlaid.wrapAround
  refine ⟨removed.map fun c => (c.id, c.address), chunks', ?_, hrest, ?_, fun hlt => ?_⟩
  · rw [List.length_map, hlength, List.length_append]
  · rw [h.entries, List.map_append]
    congr 1
    exact hlaid.entries.symm.trans
      (congrArg Dict.entries (SingleWriterShmRingBuffer.metadata_wrapAround _).symm)
  · rw [List.length_map] at hlt
    simp only [SingleWriterShmRingBuffer.freeBuf, hid]
    rw [SingleWriterShmRingBuffer.idsBetween_eq h.id_lt hlt]
    have hall := h.ids
    rw [List.map_append, List.length_append, countFrom_add] at hall
    rw [List.map_map]
    exact ((List.append_inj hall (by simp)).1).symm

/-! ## Runs -/

namespace SingleWriterShmRingBuffer

private theorem dataBufferSize_placeChunk (buf : SingleWriterShmRingBuffer) (size : Int)
    (idBytes sizeBytes : Except RingError (List UInt8)) :
    (buf.placeChunk size idBytes sizeBytes).2.dataBufferSize = buf.dataBufferSize := by
  rcases idBytes with e | idBytes
  · rfl
  · rcases sizeBytes with e | sizeBytes <;> rfl

private theorem dataBufferSize_allocateBuf (size : Nat) (buf : SingleWriterShmRingBuffer) :
    (buf.allocateBuf size).2.dataBufferSize = buf.dataBufferSize := by
  rw [allocateBuf]
  split
  · rfl
  · simp only []
    split
    · rfl
    · exact dataBufferSize_placeChunk ..

private theorem dataBufferSize_dropOldest (buf : SingleWriterShmRingBuffer) :
    buf.dropOldest.dataBufferSize = buf.dataBufferSize := by
  simp only [dropOldest]
  split <;> rfl

private theorem dataBufferSize_freeLoop (isFreeFn : σ → Nat → List UInt8 → Bool × σ)
    (nbytes freedBytes : Int) (buf : SingleWriterShmRingBuffer) (env : σ) :
    (buf.freeLoop isFreeFn nbytes freedBytes env).1.dataBufferSize = buf.dataBufferSize := by
  fun_induction freeLoop isFreeFn nbytes freedBytes buf env with
  | case1 => rfl
  | case2 freedBytes buf env address _ _ env' _ ih => exact ih.trans buf.dataBufferSize_dropOldest
  | case3 => rfl
  | case4 => rfl

private theorem dataBufferSize_wrapAround (buf : SingleWriterShmRingBuffer) :
    buf.wrapAround.dataBufferSize = buf.dataBufferSize := by
  unfold wrapAround
  split <;> rfl

end SingleWriterShmRingBuffer

/-- The size of the buffer never changes. -/
theorem Session.dataBufferSize_step (s : Session σ) (op : RingOp σ) :
    (s.step op).buf.dataBufferSize = s.buf.dataBufferSize := by
  cases op with
  | allocate size =>
    have hsize := SingleWriterShmRingBuffer.dataBufferSize_allocateBuf size s.buf
    simp only [step]
    split
    · next heq => exact (congrArg (·.2.dataBufferSize) heq).symm.trans hsize
    · next heq => exact (congrArg (·.2.dataBufferSize) heq).symm.trans hsize
  | free isFreeFn nbytes =>
    exact (SingleWriterShmRingBuffer.dataBufferSize_wrapAround _).trans
      (SingleWriterShmRingBuffer.dataBufferSize_freeLoop ..)
  | clear => rfl
  | use memory env => rfl

/-- The layout after any operation, with at most one more chunk. -/
theorem Resting.step (h : Resting s chunks) (hfew : chunks.length < idMax) {op : RingOp σ}
    (hop : op.Admissible) : ∃ chunks', Resting (s.step op) chunks' ∧
      chunks'.length ≤ chunks.length + 1 := by
  cases op with
  | allocate size =>
    rcases h.allocate hfew hop with ⟨_, hsame⟩ | ⟨c, hc⟩
    · rw [hsame]
      exact ⟨chunks, h, Nat.le_succ _⟩
    · exact ⟨chunks ++ [c], hc, by simp⟩
  | free isFreeFn nbytes =>
    obtain ⟨removed, chunks', hlength, hrest, _⟩ := h.free isFreeFn nbytes
    exact ⟨chunks', hrest, by omega⟩
  | clear => exact ⟨[], resting_empty h.size_pos s.buf.memory s.env s.lengthOf, by simp⟩
  | use memory env => exact ⟨chunks, ⟨h.toLaid.use memory env, h.start_lt⟩, Nat.le_succ _⟩

/-- A session with a new buffer. -/
def Session.new (S : Int) (env : σ) : Session σ := { buf := { dataBufferSize := S }, env }

/-- There are always fewer chunks in use than ids: more do not fit in the buffer, or the run
never has more. -/
def FewChunks (S : Int) (env : σ) (ops : List (RingOp σ)) : Prop :=
  S < 9 * idMax ∨ TotalRun.Throughout Session.step
    (fun s op => (s.step op).buf.metadata.size < idMax) (Session.new S env) ops

/-- Chunks that fit in a small buffer are fewer than the ids. -/
theorem Laid.length_lt (h : Laid s chunks) (hS : s.buf.dataBufferSize < 9 * idMax) :
    chunks.length < idMax := by
  have hmin : ∀ c ∈ chunks.map Chunk.toInterval, 9 ≤ c.len := by
    intro c hc
    obtain ⟨d, hd, rfl⟩ := List.mem_map.mp hc
    have hheader := h.header d hd
    unfold mdSize at hheader
    omega
  have hlen := h.chain.length_mul_le hmin
  have hspan := h.span
  rw [List.length_map] at hlen
  omega

/-- The chunks of a layout are those of the metadata. -/
theorem Laid.length_eq (h : Laid s chunks) : chunks.length = s.buf.metadata.size := by
  rw [Dict.size, h.entries, List.length_map]

/-- One operation after which there are fewer chunks than ids. -/
theorem Resting.step_few (h : Resting s chunks) (hlt : chunks.length < idMax) {op : RingOp σ}
    (hop : op.Admissible)
    (hfew : s.buf.dataBufferSize < 9 * idMax ∨ (s.step op).buf.metadata.size < idMax) :
    ∃ chunks', Resting (s.step op) chunks' ∧ chunks'.length < idMax := by
  obtain ⟨chunks', h', _⟩ := h.step hlt hop
  refine ⟨chunks', h', ?_⟩
  rcases hfew with hsmall | hfew
  · exact h'.length_lt (by rwa [s.dataBufferSize_step op])
  · rwa [h'.length_eq]

/-- Every run with fewer chunks than ids keeps the layout. -/
theorem exists_resting_run {S : Int} (hS : 0 < S) {env : σ} {ops : List (RingOp σ)}
    (hops : ∀ op ∈ ops, op.Admissible) (hfew : FewChunks S env ops) :
    ∃ chunks, Resting (ops.foldl Session.step (Session.new S env)) chunks ∧
      chunks.length < idMax := by
  have hinit : ∃ chunks, Resting (Session.new S env) chunks ∧ chunks.length < idMax :=
    ⟨[], resting_empty hS _ env _, idMax_pos⟩
  have hadmissible := TotalRun.throughout_of_mem (f := Session.step) hops (Session.new S env)
  rcases hfew with hsmall | hfew
  · refine (TotalRun.invariant (I := fun s => s.buf.dataBufferSize = S ∧
      ∃ chunks, Resting s chunks ∧ chunks.length < idMax) ?_ ⟨rfl, hinit⟩ hadmissible).2
    rintro s op ⟨hsize, chunks, h, hlt⟩ hop
    exact ⟨(s.dataBufferSize_step op).trans hsize, h.step_few hlt hop (.inl (hsize ▸ hsmall))⟩
  · refine TotalRun.invariant (I := fun s => ∃ chunks, Resting s chunks ∧ chunks.length < idMax)
      ?_ hinit (hadmissible.and hfew)
    rintro s op ⟨chunks, h, hlt⟩ ⟨hop, hsize⟩
    exact h.step_few hlt hop (.inr hsize)

/-! ## Safety -/

/-- What a user of the buffer relies on. -/
structure Safe (s : Session σ) : Prop where
  /-- The ids in use count up from the first one to the one before the last. -/
  keys : s.buf.metadata.keys = countFrom idMax s.buf.monotonicIdStart
    ((s.buf.monotonicIdEnd + idMax - s.buf.monotonicIdStart) % idMax)
  /-- The range in use begins in the buffer. -/
  start : 0 ≤ s.buf.dataBufferStart ∧ s.buf.dataBufferStart < s.buf.dataBufferSize
  /-- The range in use spans at most one turn. -/
  span : s.buf.dataBufferStart ≤ s.buf.dataBufferEnd ∧
    s.buf.dataBufferEnd - s.buf.dataBufferStart ≤ s.buf.dataBufferSize
  /-- Every chunk lies inside the buffer, in one piece. -/
  inside : ∀ id address, s.buf.metadata.get? id = some address → mdSize < s.lengthOf id ∧
    0 ≤ address % s.buf.dataBufferSize ∧
    address % s.buf.dataBufferSize + s.lengthOf id ≤ s.buf.dataBufferSize
  /-- No two chunks overlap. -/
  disjoint : ∀ id id' address address', s.buf.metadata.get? id = some address →
    s.buf.metadata.get? id' = some address' → id ≠ id' →
    DisjointMod s.buf.dataBufferSize ⟨address, s.lengthOf id⟩ ⟨address', s.lengthOf id'⟩
  /-- The range in use covers every chunk. -/
  covered : ∀ id address, s.buf.metadata.get? id = some address →
    ∃ lo, lo % s.buf.dataBufferSize = address % s.buf.dataBufferSize ∧
      s.buf.dataBufferStart ≤ lo ∧ lo + s.lengthOf id ≤ s.buf.dataBufferEnd
  /-- An allocation without enough room changes nothing. -/
  memoryError : ∀ size buf, s.buf.allocateBuf size = (.error .memoryError, buf) → buf = s.buf
  /-- Freeing removes the oldest chunks and returns their ids in order. -/
  freed : ∀ (isFreeFn : σ → Nat → List UInt8 → Bool × σ) nbytes env, ∃ removed,
    s.buf.metadata.entries
      = removed ++ (s.buf.freeBuf isFreeFn nbytes env).2.1.metadata.entries ∧
    (s.buf.freeBuf isFreeFn nbytes env).1 = removed.map Prod.fst
  /-- Without chunks in use, any chunk that fits in the buffer can be allocated. -/
  refill : s.buf.metadata.keys = [] → ∀ size : Nat, 0 < size → size + mdSize < 2 ^ 31 →
    size + mdSize ≤ s.buf.dataBufferSize →
    ∃ address id buf, s.buf.allocateBuf size = (.ok (address, id), buf)

namespace SingleWriterShmRingBuffer

/-- Writing a number fails only when it has too many bytes. -/
theorem int2byte_ne_memoryError (integer : Int) : int2byte integer ≠ .error .memoryError := by
  unfold int2byte
  split <;> simp

private theorem placeChunk_ne_memoryError {idBytes sizeBytes : Except RingError (List UInt8)}
    (hid : idBytes ≠ .error .memoryError) (hsize : sizeBytes ≠ .error .memoryError)
    (buf buf' : SingleWriterShmRingBuffer) (size : Int) :
    buf.placeChunk size idBytes sizeBytes ≠ (.error .memoryError, buf') := by
  intro heq
  rcases idBytes with e | idBytes
  · exact hid (congrArg Except.error (Except.error.inj (congrArg Prod.fst heq)))
  rcases sizeBytes with e | sizeBytes
  · exact hsize (congrArg Except.error (Except.error.inj (congrArg Prod.fst heq)))
  · exact nomatch congrArg Prod.fst heq

/-- A full buffer is left as it is. -/
theorem allocateBuf_memoryError {size : Nat} {buf buf' : SingleWriterShmRingBuffer}
    (h : buf.allocateBuf size = (.error .memoryError, buf')) : buf' = buf := by
  rw [allocateBuf] at h
  split at h
  · exact (congrArg Prod.snd h).symm
  · simp only [] at h
    split at h
    · exact (congrArg Prod.snd h).symm
    · exact absurd h (placeChunk_ne_memoryError (int2byte_ne_memoryError _)
        (int2byte_ne_memoryError _) _ _ _)

end SingleWriterShmRingBuffer

/-- An entry of the metadata is that of a chunk. -/
theorem Laid.exists_chunk (h : Laid s chunks) {id : Nat} {address : Int}
    (hget : s.buf.metadata.get? id = some address) :
    ∃ c ∈ chunks, c.id = id ∧ c.address = address := by
  have hmem := (Dict.mem_entries_iff _).mpr hget
  rw [h.entries, List.mem_map] at hmem
  obtain ⟨c, hc, heq⟩ := hmem
  exact ⟨c, hc, congrArg Prod.fst heq, congrArg Prod.snd heq⟩

/-- The number of ids between the first one and the one after the last. -/
theorem Laid.length_eq_between (h : Laid s chunks) (hlt : chunks.length < idMax) :
    (s.buf.monotonicIdEnd + idMax - s.buf.monotonicIdStart) % idMax = chunks.length := by
  have hid := h.id_lt
  rw [h.id_end]
  by_cases hwrap : s.buf.monotonicIdStart + chunks.length < idMax
  · rw [Nat.mod_eq_of_lt hwrap, Nat.add_assoc, Nat.add_sub_cancel_left, Nat.add_mod_right,
      Nat.mod_eq_of_lt hlt]
  · have hmod : (s.buf.monotonicIdStart + chunks.length) % idMax
        = s.buf.monotonicIdStart + chunks.length - idMax := by
      rw [Nat.mod_eq_sub_mod (by omega), Nat.mod_eq_of_lt (by omega)]
    rw [hmod, Nat.sub_add_cancel (by omega), Nat.add_sub_cancel_left, Nat.mod_eq_of_lt hlt]

/-- A layout with fewer chunks than ids is safe. -/
theorem Resting.safe (h : Resting s chunks) (hlt : chunks.length < idMax) : Safe s where
  keys := by rw [h.keys, h.ids, h.length_eq_between hlt]
  start := ⟨h.start_nonneg, h.start_lt⟩
  span := by
    have hspan := h.span
    exact ⟨h.chain.le, by omega⟩
  inside := by
    intro id address hget
    obtain ⟨c, hc, rfl, rfl⟩ := h.exists_chunk hget
    obtain ⟨_, _, _, hfit⟩ := h.chain.mem (List.mem_map_of_mem hc)
    rw [← h.length c hc, h.address c hc]
    exact ⟨h.header c hc, Int.emod_nonneg _ h.size_pos.ne', hfit⟩
  disjoint := by
    intro id id' address address' hget hget' hne
    obtain ⟨c, hc, rfl, rfl⟩ := h.exists_chunk hget
    obtain ⟨d, hd, rfl, rfl⟩ := h.exists_chunk hget'
    have hpair := List.pairwise_map.mp (h.chain.pairwise_disjointMod h.size_pos h.span)
    have hsymm : Std.Symm fun c d : Chunk =>
        DisjointMod s.buf.dataBufferSize c.toInterval d.toInterval := ⟨fun _ _ => Or.symm⟩
    have hcd := hpair.forall hc hd fun heq => hne (congrArg Chunk.id heq)
    rw [DisjointMod] at hcd ⊢
    rwa [← h.length c hc, ← h.length d hd, h.address c hc, h.address d hd]
  covered := by
    intro id address hget
    obtain ⟨c, hc, rfl, rfl⟩ := h.exists_chunk hget
    obtain ⟨hlo, hhi, _⟩ := h.chain.mem (List.mem_map_of_mem hc)
    exact ⟨c.lo, (h.address c hc).symm, hlo, h.length c hc ▸ hhi⟩
  memoryError := fun _ _ => SingleWriterShmRingBuffer.allocateBuf_memoryError
  freed := by
    intro isFreeFn nbytes env
    have huse : Resting { s with env } chunks := ⟨h.use s.buf.memory env, h.start_lt⟩
    obtain ⟨removed, chunks', hlength, _, hentries, hids⟩ := huse.free isFreeFn nbytes
    exact ⟨removed, hentries, hids (by omega)⟩
  refill := by
    intro hnil size hzero hsize hfit
    have hchunks : chunks = [] := List.map_eq_nil_iff.mp (h.keys.symm.trans hnil)
    obtain ⟨hstart, hend⟩ := h.empty hchunks
    have hreset := SingleWriterShmRingBuffer.bufferEndReset_of_empty hend hfit
    have hidlt : s.buf.monotonicIdEnd < idMax := by
      rw [h.id_end]
      exact Nat.mod_lt _ idMax_pos
    obtain ⟨memory, hrun⟩ := SingleWriterShmRingBuffer.allocateBuf_of_room hzero.ne' hsize hidlt
      (by omega)
    exact ⟨_, _, _, hrun⟩

/-- In every run with fewer chunks in use than ids, the buffer is safe. -/
theorem run_safe {S : Int} (hS : 0 < S) {env : σ} {ops : List (RingOp σ)}
    (hops : ∀ op ∈ ops, op.Admissible) (hfew : FewChunks S env ops) :
    Safe (ops.foldl Session.step (Session.new S env)) := by
  obtain ⟨chunks, h, hlt⟩ := exists_resting_run hS hops hfew
  exact h.safe hlt

/-- Of two chunks the first one is freed; the next one is put behind them, and the last one at the
start of the buffer. -/
def aroundTheEnd : List (RingOp Unit) :=
  [.allocate 20, .allocate 30, .free (fun env _ _ => (true, env)) (some 28), .allocate 15,
    .allocate 10]

/-- One turn of the loop frees what is asked for. -/
theorem Session.step_free_of_oldest {isFreeFn : σ → Nat → List UInt8 → Bool × σ}
    {nbytes address : Int} {s : Session σ}
    (hfree : ∀ id data, isFreeFn s.env id data = (true, s.env))
    (holdest : s.buf.metadata.get? s.buf.monotonicIdStart = some address) (hpos : 0 < nbytes)
    (henough : nbytes ≤ (s.buf.accessBuf address).2.2) :
    s.step (.free isFreeFn (some nbytes)) = { s with buf := s.buf.dropOldest.wrapAround } := by
  have hstop : s.buf.dropOldest.freeLoop isFreeFn nbytes (0 + (s.buf.accessBuf address).2.2) s.env
      = (s.buf.dropOldest, s.env) := by
    rw [SingleWriterShmRingBuffer.freeLoop]
    split
    · rfl
    · rw [if_neg (by omega)]
  have hloop : s.buf.freeLoop isFreeFn nbytes 0 s.env = (s.buf.dropOldest, s.env) := by
    rw [SingleWriterShmRingBuffer.freeLoop]
    split
    next hnone =>
      have hfound := holdest.symm.trans hnone
      cases hfound
    next hsome =>
      cases holdest.symm.trans hsome
      rw [if_pos hpos, hfree]
      exact hstop
  simp only [Session.step, SingleWriterShmRingBuffer.freeBuf, Option.getD_some, hloop]

theorem aroundTheEnd_safe :
    (aroundTheEnd.foldl Session.step (Session.new 100 ())).buf.metadata.entries =
        [(1, 28), (2, 66), (3, 100)] ∧
      Safe (aroundTheEnd.foldl Session.step (Session.new 100 ())) := by
  refine ⟨?_, run_safe (by omega) ?_ (.inl (by unfold idMax; omega))⟩
  · simp only [aroundTheEnd, List.foldl_cons, List.foldl_nil]
    rw [Session.step_free_of_oldest (fun _ _ => rfl) (show _ = some 0 by decide) (by decide)
      (by decide)]
    decide
  · intro op hop
    simp only [aroundTheEnd, List.mem_cons, List.not_mem_nil, or_false] at hop
    rcases hop with rfl | rfl | rfl | rfl | rfl
    all_goals first
      | trivial
      | simp only [RingOp.Admissible, mdSize]
        omega

/-! ## As many chunks as ids -/

/-- A session with a buffer for as many of the smallest chunks as there are ids, after some
of them were allocated. -/
def smallChunks (k : Nat) : Session Unit :=
  (List.replicate k (.allocate 1)).foldl Session.step (Session.new (9 * idMax) ())

/-- The smallest chunks are laid out without a gap until the buffer is full. -/
theorem resting_smallChunks {k : Nat} (hk : k ≤ idMax) : ∃ chunks,
    Resting (smallChunks k) chunks ∧ chunks.length = k ∧
      (smallChunks k).buf.dataBufferSize = 9 * idMax ∧
      (smallChunks k).buf.monotonicIdStart = 0 ∧
      (smallChunks k).buf.dataBufferStart = 0 ∧
      (smallChunks k).buf.dataBufferEnd = 9 * k := by
  induction k with
  | zero =>
    refine ⟨[], resting_empty ?_ _ _ _, rfl, rfl, rfl, rfl, rfl⟩
    have := idMax_pos
    omega
  | succ k ih =>
    obtain ⟨chunks, h, hlength, hsize, hid, hstart, hend⟩ := ih (by omega)
    have hstep : smallChunks (k + 1) = (smallChunks k).step (.allocate 1) := by
      rw [smallChunks, List.replicate_succ', List.foldl_append]
      rfl
    have hreset : (smallChunks k).buf.bufferEndReset 9 = 9 * k := by
      have hmod : (9 * k : Int) % (9 * idMax) = 9 * k :=
        Int.emod_eq_of_lt (by omega) (by omega)
      rw [SingleWriterShmRingBuffer.bufferEndReset, hend, hsize, hmod, if_neg (by omega)]
    have hidlt : (smallChunks k).buf.monotonicIdEnd < idMax := by
      rw [h.id_end]
      exact Nat.mod_lt _ idMax_pos
    have hone : ((1 : Nat) : Int) + mdSize < 2 ^ 31 := by
      unfold mdSize
      omega
    obtain ⟨memory, hrun⟩ := SingleWriterShmRingBuffer.allocateBuf_of_room one_ne_zero hone hidlt
      (show (smallChunks k).buf.bufferEndReset 9 + 9 - _ ≤ _ by omega)
    have hbuf := congrArg (fun s => s.buf) hstep
    simp only [Session.step, hrun] at hbuf
    rcases h.allocate (by omega) hone with ⟨⟨e, he⟩, _⟩ | ⟨c, hc⟩
    · exact nomatch (congrArg Prod.fst hrun).symm.trans (congrArg Prod.fst he)
    · refine ⟨chunks ++ [c], hstep ▸ hc, by simp [hlength], ?_⟩
      rw [hbuf]
      refine ⟨hsize, hid, hstart, ?_⟩
      change (smallChunks k).buf.bufferEndReset 9 + 9 = _
      rw [hreset]
      omega

/-- With a buffer for as many chunks as ids, all ids can be in use, which the counters of
the ids do not show. -/
theorem smallChunks_not_safe : ¬ ∀ S : Int, 0 < S → ∀ ops : List (RingOp Unit),
    (∀ op ∈ ops, op.Admissible) → Safe (ops.foldl Session.step (Session.new S ())) := by
  intro hall
  obtain ⟨chunks, h, hlength, _, hid, _⟩ := resting_smallChunks (le_refl idMax)
  have hsafe : Safe (smallChunks idMax) := by
    refine hall _ (by have := idMax_pos; omega) _ fun op hop => ?_
    rw [List.eq_of_mem_replicate hop]
    exact show ((1 : Nat) : Int) + mdSize < 2 ^ 31 by unfold mdSize; omega
  have hkeys := congrArg List.length hsafe.keys
  rw [h.keys, List.length_map, length_countFrom, hlength, h.id_end, hid, hlength, Nat.zero_add,
    Nat.mod_self, Nat.zero_add, Nat.sub_zero, Nat.mod_self] at hkeys
  exact absurd hkeys idMax_pos.ne'

end Vllm.ShmRing
