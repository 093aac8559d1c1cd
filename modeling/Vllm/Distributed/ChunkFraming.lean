import Mathlib.Algebra.Order.Ring.Nat
import Mathlib.Data.List.Basic

/-!
# Framing of a broadcast message in a chunk

A message is the pickled object with its out-of-band buffers. A small message is written into a
chunk: the count of its buffers, then each buffer behind its length. Of a large one only the
overflow flag is written. The estimate that decides between the two is exact: the frame of a
small message ends within the chunk.
-/

namespace Vllm.Distributed.Broadcast

/-- `bytes`. -/
abbrev Bytes := List UInt8

/-- What is broadcast: `all_buffers`, whose first entry is the pickled object. -/
structure Message where
  pickled : Bytes
  oob : List Bytes
  deriving DecidableEq, Repr

/-- `all_buffers`. -/
def Message.allBuffers (message : Message) : List Bytes := message.pickled :: message.oob

/-- `total_bytes` with the length of the pickled object: two bytes for the count of buffers and
four for each length. -/
def Message.totalBytes (message : Message) : Nat :=
  6 + (message.oob.map fun buf => buf.length + 4).sum + message.pickled.length

/-- Whether a message is too large for a chunk. -/
def Message.overflows (maxChunkBytes : Nat) (message : Message) : Bool :=
  decide (maxChunkBytes ≤ message.totalBytes)

/-- The big-endian digits of a value. -/
def bigEndian : Nat → Nat → Bytes
  | 0, _ => []
  | size + 1, value => bigEndian size (value / 256) ++ [UInt8.ofNat (value % 256)]

/-- `to_bytes_big`: a value that is too large for its size raises an `OverflowError`. -/
def toBytesBig (value size : Nat) : Option Bytes :=
  if value < 256 ^ size then some (bigEndian size value) else none

/-- `from_bytes_big`. -/
def fromBytesBig (bytes : Bytes) : Nat := bytes.foldl (fun value b => 256 * value + b.toNat) 0

/-- A chunk's memory. -/
abbrev Memory := Nat → UInt8

/-- `buf[offset : offset + len(bytes)] = bytes`. -/
def overwrite (memory : Memory) (offset : Nat) (bytes : Bytes) : Memory := fun i =>
  if i < offset then memory i else (bytes[i - offset]?).getD (memory i)

/-- `buf[start:stop]`. -/
def slice (memory : Memory) (start stop : Nat) : Bytes :=
  (List.range' start (stop - start)).map memory

/-- An assignment to a slice of a chunk: its offset, and the bytes unless their computation
raises. -/
abbrev FrameWrite := Nat × Option Bytes

/-- Each buffer follows, preceded by its length. -/
def frameBuffers : Nat → List Bytes → List FrameWrite
  | _, [] => []
  | offset, buffer :: rest =>
    (offset, toBytesBig buffer.length 4) :: (offset + 4, some buffer) ::
      frameBuffers (offset + 4 + buffer.length) rest

/-- What `enqueue` writes into a chunk. -/
def frame (maxChunkBytes : Nat) (message : Message) : List FrameWrite :=
  if message.overflows maxChunkBytes then [(0, some [1])]
  else
    (0, some [0]) :: (1, toBytesBig message.allBuffers.length 2) ::
      frameBuffers 3 message.allBuffers

/-- The assignments one after another, up to one that raises. -/
def applyWrites : Memory → List FrameWrite → Option Memory
  | memory, [] => some memory
  | _, (_, none) :: _ => none
  | memory, (offset, some bytes) :: rest => applyWrites (overwrite memory offset bytes) rest

/-- The loop of `dequeue` over the buffers. -/
def readBuffers (memory : Memory) : Nat → Nat → List Bytes
  | 0, _ => []
  | count + 1, offset =>
    let bufOffset := offset + 4
    let stop := bufOffset + fromBytesBig (slice memory offset bufOffset)
    slice memory bufOffset stop :: readBuffers memory count stop

/-- What `dequeue` reads from a chunk: nothing where the message overflowed. -/
def readFrame (memory : Memory) : Option (List Bytes) :=
  if memory 0 = 1 then none
  else some (readBuffers memory (fromBytesBig (slice memory 1 3)) 3)

/-! ## Numbers -/

private theorem length_bigEndian (size value : Nat) : (bigEndian size value).length = size := by
  induction size generalizing value with
  | zero => rfl
  | succ size ih => rw [bigEndian, List.length_append, ih, List.length_singleton]

private theorem fromBytesBig_bigEndian {size value : Nat} (h : value < 256 ^ size) :
    fromBytesBig (bigEndian size value) = value := by
  induction size generalizing value with
  | zero =>
    rw [pow_zero, Nat.lt_one_iff] at h
    rw [h]
    rfl
  | succ size ih =>
    have hdigit : (UInt8.ofNat (value % 256)).toNat = value % 256 := by
      rw [UInt8.toNat_ofNat']
      omega
    have hrest : value / 256 < 256 ^ size := by
      rw [pow_succ] at h
      exact Nat.div_lt_of_lt_mul (by rwa [Nat.mul_comm])
    rw [bigEndian, fromBytesBig, List.foldl_append, ← fromBytesBig, ih hrest, List.foldl_cons,
      List.foldl_nil, hdigit]
    exact Nat.div_add_mod value 256

/-- What is written as a number is read as this number. -/
theorem toBytesBig_eq_some {value size : Nat} {bytes : Bytes}
    (h : toBytesBig value size = some bytes) :
    bytes.length = size ∧ fromBytesBig bytes = value := by
  rw [toBytesBig] at h
  split at h
  · next hlt =>
    obtain rfl := Option.some.inj h
    exact ⟨length_bigEndian size value, fromBytesBig_bigEndian hlt⟩
  · cases h

/-! ## Slices -/

section Slices

variable {memory : Memory} {offset : Nat} {bytes : Bytes}

/-- The written slice. -/
theorem slice_overwrite (memory : Memory) (offset : Nat) (bytes : Bytes) :
    slice (overwrite memory offset bytes) offset (offset + bytes.length) = bytes := by
  apply List.ext_getElem
  · rw [slice, List.length_map, List.length_range', Nat.add_sub_cancel_left]
  · intro i hi hi'
    simp only [slice, List.getElem_map, List.getElem_range', Nat.one_mul]
    rw [overwrite, if_neg (by omega), Nat.add_sub_cancel_left, List.getElem?_eq_getElem hi',
      Option.getD_some]

private theorem overwrite_of_lt {i : Nat} (hi : i < offset) :
    overwrite memory offset bytes i = memory i :=
  if_pos hi

/-- A slice depends on its own bytes. -/
theorem slice_congr {memory' : Memory} {start stop : Nat}
    (h : ∀ i, start ≤ i → i < stop → memory' i = memory i) :
    slice memory' start stop = slice memory start stop := by
  unfold slice
  refine List.map_congr_left fun i hi => ?_
  rw [List.mem_range'_1] at hi
  exact h i hi.1 (by omega)

end Slices

/-! ## Frames -/

/-- A buffer and the buffers behind it are written at their own place. -/
private theorem bounds_frameBuffers {buffers : List Bytes} {offset position : Nat} {bytes : Bytes}
    (h : (position, some bytes) ∈ frameBuffers offset buffers) :
    offset ≤ position ∧
      position + bytes.length ≤ offset + (buffers.map fun buf => buf.length + 4).sum := by
  induction buffers generalizing offset with
  | nil => cases h
  | cons buffer buffers ih =>
    rw [List.map_cons, List.sum_cons]
    rcases List.mem_cons.mp h with heq | h
    · obtain ⟨rfl, hbytes⟩ := Prod.mk.inj heq
      have hlength := (toBytesBig_eq_some hbytes.symm).1
      omega
    · rcases List.mem_cons.mp h with heq | h
      · obtain ⟨rfl, hbytes⟩ := Prod.mk.inj heq
        obtain rfl := Option.some.inj hbytes
        omega
      · have := ih h
        omega

/-- The frame of a message ends within the chunk. -/
theorem bounds_frame {maxChunkBytes : Nat} (hpos : 0 < maxChunkBytes) {message : Message}
    {position : Nat} {bytes : Bytes}
    (h : (position, some bytes) ∈ frame maxChunkBytes message) :
    position + bytes.length ≤ maxChunkBytes := by
  rw [frame] at h
  split at h
  · obtain ⟨rfl, hbytes⟩ := Prod.mk.inj (List.mem_singleton.mp h)
    obtain rfl := Option.some.inj hbytes
    exact hpos
  · next hfits =>
    rw [Message.overflows, decide_eq_true_eq, Message.totalBytes] at hfits
    rcases List.mem_cons.mp h with heq | h
    · obtain ⟨rfl, hbytes⟩ := Prod.mk.inj heq
      obtain rfl := Option.some.inj hbytes
      exact hpos
    · rcases List.mem_cons.mp h with heq | h
      · obtain ⟨rfl, hbytes⟩ := Prod.mk.inj heq
        have hlength := (toBytesBig_eq_some hbytes.symm).1
        omega
      · have hbounds := (bounds_frameBuffers h).2
        rw [Message.allBuffers, List.map_cons, List.sum_cons] at hbounds
        omega

/-- Reading back what was written. -/
theorem readBuffers_applyWrites {buffers : List Bytes} {offset : Nat} {memory memory' : Memory}
    (h : applyWrites memory (frameBuffers offset buffers) = some memory') :
    (∀ i < offset, memory' i = memory i) ∧
      readBuffers memory' buffers.length offset = buffers := by
  induction buffers generalizing offset memory with
  | nil =>
    obtain rfl := Option.some.inj h
    exact ⟨fun _ _ => rfl, rfl⟩
  | cons buffer buffers ih =>
    rw [frameBuffers] at h
    cases hnumber : toBytesBig buffer.length 4 with
    | none =>
      rw [hnumber] at h
      cases h
    | some number =>
      rw [hnumber, applyWrites, applyWrites] at h
      obtain ⟨hbelow, hrest⟩ := ih h
      obtain ⟨hlength, hvalue⟩ := toBytesBig_eq_some hnumber
      -- The bytes of the length and of the buffer are not written again.
      have hnumberSlice : slice memory' offset (offset + 4) = number := by
        rw [slice_congr fun i _ hi => hbelow i (by omega),
          slice_congr fun i _ hi => overwrite_of_lt hi]
        have hwritten := slice_overwrite memory offset number
        rw [hlength] at hwritten
        exact hwritten
      have hbufferSlice : slice memory' (offset + 4) (offset + 4 + buffer.length) = buffer := by
        rw [slice_congr fun i _ hi => hbelow i hi]
        exact slice_overwrite _ _ buffer
      constructor
      · intro i hi
        rw [hbelow i (by omega), overwrite_of_lt (by omega), overwrite_of_lt hi]
      · rw [List.length_cons, readBuffers, hnumberSlice, hvalue, hbufferSlice, hrest]

/-- A message that was written into a chunk is read from it: its buffers, or that it overflowed. -/
theorem readFrame_applyWrites {maxChunkBytes : Nat} {message : Message} {memory memory' : Memory}
    (h : applyWrites memory (frame maxChunkBytes message) = some memory') :
    readFrame memory'
      = if message.overflows maxChunkBytes then none else some message.allBuffers := by
  rw [frame] at h
  split at h
  · next hover =>
    rw [applyWrites, applyWrites] at h
    obtain rfl := Option.some.inj h
    rw [if_pos hover]
    exact if_pos rfl
  · next hfits =>
    cases hnumber : toBytesBig message.allBuffers.length 2 with
    | none =>
      rw [hnumber] at h
      cases h
    | some number =>
      rw [hnumber, applyWrites, applyWrites] at h
      obtain ⟨hbelow, hbuffers⟩ := readBuffers_applyWrites h
      obtain ⟨hlength, hvalue⟩ := toBytesBig_eq_some hnumber
      have hflag : memory' 0 = 0 := by
        rw [hbelow 0 (by omega), overwrite_of_lt (by omega)]
        rfl
      have hcount : slice memory' 1 3 = number := by
        rw [slice_congr fun i _ hi => hbelow i hi]
        have hwritten := slice_overwrite (overwrite memory 0 [0]) 1 number
        rw [hlength] at hwritten
        exact hwritten
      rw [readFrame, hflag, if_neg (by decide), hcount, hvalue, hbuffers, if_neg hfits]

private theorem applyWrites_frameBuffers_isSome_iff {buffers : List Bytes} {offset : Nat}
    {memory : Memory} : (applyWrites memory (frameBuffers offset buffers)).isSome ↔
      ∀ buf ∈ buffers, buf.length < 256 ^ 4 := by
  induction buffers generalizing offset memory with
  | nil => simp [frameBuffers, applyWrites]
  | cons buffer buffers ih =>
    rw [frameBuffers, toBytesBig, List.forall_mem_cons]
    split
    · next hlt =>
      rw [applyWrites, applyWrites, ih]
      exact (and_iff_right hlt).symm
    · next hge =>
      rw [applyWrites]
      exact iff_of_false Bool.false_ne_true fun h => hge h.1

/-- The frame of every message ends within the chunk. It can be written unless a small message has
too many buffers or a buffer too long for its length, and is read back as the message's buffers;
of a large message it is read that it overflowed. -/
theorem frame_roundTrip {maxChunkBytes : Nat} (hpos : 0 < maxChunkBytes) (message : Message)
    (memory : Memory) :
    (∀ position bytes, (position, some bytes) ∈ frame maxChunkBytes message →
      position + bytes.length ≤ maxChunkBytes) ∧
    ((applyWrites memory (frame maxChunkBytes message)).isSome ↔
      message.overflows maxChunkBytes = true ∨ message.allBuffers.length < 256 ^ 2 ∧
        ∀ buf ∈ message.allBuffers, buf.length < 256 ^ 4) ∧
    ∀ memory', applyWrites memory (frame maxChunkBytes message) = some memory' →
      readFrame memory'
        = if message.overflows maxChunkBytes then none else some message.allBuffers := by
  refine ⟨fun position bytes h => bounds_frame hpos h, ?_,
    fun memory' h => readFrame_applyWrites h⟩
  rw [frame]
  split
  · next hover => exact iff_of_true rfl (.inl hover)
  · next hfits =>
    rw [or_iff_right hfits, toBytesBig]
    split
    · next hlt =>
      rw [applyWrites, applyWrites, applyWrites_frameBuffers_isSome_iff]
      exact (and_iff_right hlt).symm
    · next hge =>
      rw [applyWrites, applyWrites]
      exact iff_of_false Bool.false_ne_true fun h => hge h.1

theorem frame_roundTrip_two :
    (∀ position bytes, (position, some bytes) ∈ frame 32 ⟨[1, 2], [[3]]⟩ →
      position + bytes.length ≤ 32) ∧
    ((applyWrites (fun _ => 0) (frame 32 ⟨[1, 2], [[3]]⟩)).isSome ↔
      Message.overflows 32 ⟨[1, 2], [[3]]⟩ = true ∨
        (Message.allBuffers ⟨[1, 2], [[3]]⟩).length < 256 ^ 2 ∧
        ∀ buf ∈ Message.allBuffers ⟨[1, 2], [[3]]⟩, buf.length < 256 ^ 4) ∧
    ∀ memory', applyWrites (fun _ => 0) (frame 32 ⟨[1, 2], [[3]]⟩) = some memory' →
      readFrame memory' = if Message.overflows 32 ⟨[1, 2], [[3]]⟩ then none
        else some (Message.allBuffers ⟨[1, 2], [[3]]⟩) :=
  frame_roundTrip (by decide) ⟨[1, 2], [[3]]⟩ fun _ => 0

end Vllm.Distributed.Broadcast
