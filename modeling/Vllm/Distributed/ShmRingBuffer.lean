import Vllm.Library.CircularLayout
import Vllm.Library.DictOrder
import Vllm.Library.TotalRun

/-!
# The shared-memory ring buffer

One process writes chunks of data into a shared memory, each behind a header with its id and
its length, and frees the oldest ones when their readers are done. Only the writer keeps the
addresses of the chunks; these are not moved back when the range in use is.
-/

namespace Vllm.ShmRing

open CircularLayout

/-- What allocating a chunk may raise. -/
inductive RingError where
  /-- `assert size > 0, "Size must be greater than 0"`. -/
  | sizeNotPositive
  /-- "Not enough space in the data buffer, try calling free_buf() to free up space". -/
  | memoryError
  /-- `int.to_bytes` of a number with more than four bytes. -/
  | overflowError
  deriving Repr, DecidableEq

/-- `SingleWriterShmRingBuffer`, on the side of the writer. -/
structure SingleWriterShmRingBuffer where
  /-- `data_buffer_size`. -/
  dataBufferSize : Int
  /-- `monotonic_id_start`. -/
  monotonicIdStart : Nat := 0
  /-- `monotonic_id_end`. -/
  monotonicIdEnd : Nat := 0
  /-- `data_buffer_start`. -/
  dataBufferStart : Int := 0
  /-- `data_buffer_end`. -/
  dataBufferEnd : Int := 0
  /-- `metadata`, the address of each chunk under its id. -/
  metadata : Dict Nat Int := Dict.empty
  /-- `shared_memory.buf`. -/
  memory : Nat → UInt8 := fun _ => 0

/-- `ID_MAX`, exclusive. -/
def idMax : Nat := 2 ^ 31

/-- `MD_SIZE`: four bytes for the id and four for the length. -/
def mdSize : Int := 8

/-- `int2byte`, little-endian with a sign. -/
def int2byte (integer : Int) : Except RingError (List UInt8) :=
  if -2 ^ 31 ≤ integer ∧ integer < 2 ^ 31 then
    .ok ((List.range 4).map fun i => UInt8.ofNat ((integer % 2 ^ 32).toNat / 256 ^ i))
  else
    .error .overflowError

/-- `byte2int`. -/
def byte2int (byteData : List UInt8) : Int :=
  let n : Nat := byteData.foldr (fun byte n => byte.toNat + 256 * n) 0
  if n < 2 ^ 31 then n else (n : Int) - 2 ^ 32

/-- The bytes of the memory from one index up to another. -/
def slice (memory : Nat → UInt8) (first : Nat) (last : Int) : List UInt8 :=
  (List.range (last - first).toNat).map fun i => memory (first + i)

/-- Bytes assigned to the memory from an index on. -/
def assign (memory : Nat → UInt8) (first : Nat) (bytes : List UInt8) : Nat → UInt8 := fun i =>
  if first ≤ i then (bytes[i - first]?).getD (memory i) else memory i

namespace SingleWriterShmRingBuffer

variable {σ : Type}

/-- `clear`. -/
def clear (buf : SingleWriterShmRingBuffer) : SingleWriterShmRingBuffer :=
  { buf with
    metadata := Dict.empty
    monotonicIdEnd := 0
    monotonicIdStart := 0
    dataBufferStart := 0
    dataBufferEnd := 0 }

/-- Where a chunk of the given length would begin: at the end of the range in use, or at the
next turn of the buffer if it would not be contiguous there. -/
def bufferEndReset (buf : SingleWriterShmRingBuffer) (size : Int) : Int :=
  if buf.dataBufferSize < buf.dataBufferEnd % buf.dataBufferSize + size then
    (buf.dataBufferEnd / buf.dataBufferSize + 1) * buf.dataBufferSize
  else
    buf.dataBufferEnd

/-- Bytes of the header assigned to the memory at an index. -/
def writeBytes (buf : SingleWriterShmRingBuffer) (index : Nat) (bytes : List UInt8) :
    SingleWriterShmRingBuffer :=
  { buf with memory := assign buf.memory index bytes }

/-- The end of `allocate_buf`: the chunk at the end of the range in use is recorded under the
next id and the range covers it. -/
def recordChunk (buf : SingleWriterShmRingBuffer) (size : Int) : SingleWriterShmRingBuffer :=
  { buf with
    metadata := buf.metadata.insert (buf.monotonicIdEnd % idMax) buf.dataBufferEnd
    dataBufferEnd := buf.dataBufferEnd + size
    monotonicIdEnd := (buf.monotonicIdEnd + 1) % idMax }

/-- The second part of `allocate_buf`, with the range in use extended to the chunk's address:
the two numbers of the header are written, unless one has too many bytes, and the chunk is
recorded. -/
def placeChunk (buf : SingleWriterShmRingBuffer) (size : Int)
    (idBytes sizeBytes : Except RingError (List UInt8)) :
    Except RingError (Int × Nat) × SingleWriterShmRingBuffer :=
  let bufIdx := (buf.dataBufferEnd % buf.dataBufferSize).toNat
  match idBytes with
  | .error e => (.error e, buf)
  | .ok idBytes =>
    match sizeBytes with
    | .error e => (.error e, buf.writeBytes bufIdx idBytes)
    | .ok sizeBytes =>
      (.ok (buf.dataBufferEnd, buf.monotonicIdEnd),
        ((buf.writeBytes bufIdx idBytes).writeBytes (bufIdx + 4) sizeBytes).recordChunk size)

/-- `allocate_buf`: the address and the id of the new chunk, or the error, and the buffer
afterwards. -/
def allocateBuf (size : Nat) (buf : SingleWriterShmRingBuffer) :
    Except RingError (Int × Nat) × SingleWriterShmRingBuffer :=
  if size = 0 then
    (.error .sizeNotPositive, buf)
  else
    let size := size + mdSize
    let bufferEndReset := buf.bufferEndReset size
    if buf.dataBufferSize < bufferEndReset + size - buf.dataBufferStart then
      (.error .memoryError, buf)
    else
      placeChunk { buf with dataBufferEnd := bufferEndReset } size
        (int2byte buf.monotonicIdEnd) (int2byte size)

/-- `access_buf`: the data of the chunk at an address, and the id and the length in its
header. -/
def accessBuf (buf : SingleWriterShmRingBuffer) (address : Int) : List UInt8 × Int × Int :=
  let bufIdx := (address % buf.dataBufferSize).toNat
  let id := byte2int (slice buf.memory bufIdx (bufIdx + 4))
  let size := byte2int (slice buf.memory (bufIdx + 4) (bufIdx + 8))
  (slice buf.memory (bufIdx + 8) (bufIdx + size), id, size)

/-- One turn of the loop of `free_buf` whose check passed: the oldest chunk is dropped. The
range in use then begins at the next one, or at zero when none is left. -/
def dropOldest (buf : SingleWriterShmRingBuffer) : SingleWriterShmRingBuffer :=
  let metadata := buf.metadata.erase buf.monotonicIdStart
  let next := (buf.monotonicIdStart + 1) % idMax
  match metadata.get? next with
  | some address => { buf with
      metadata
      monotonicIdStart := next
      dataBufferStart := buf.dataBufferStart
        + (address - buf.dataBufferStart) % buf.dataBufferSize }
  | none => { buf with
      metadata
      monotonicIdStart := next
      dataBufferStart := 0
      dataBufferEnd := 0 }

private theorem metadata_dropOldest (buf : SingleWriterShmRingBuffer) :
    buf.dropOldest.metadata = buf.metadata.erase buf.monotonicIdStart := by
  simp only [dropOldest]
  split <;> rfl

theorem monotonicIdStart_dropOldest (buf : SingleWriterShmRingBuffer) :
    buf.dropOldest.monotonicIdStart = (buf.monotonicIdStart + 1) % idMax := by
  simp only [dropOldest]
  split <;> rfl

/-- The loop of `free_buf`: the oldest chunks are dropped while the check passes and fewer
bytes than asked for are freed. The check reads and changes a state of its own. -/
def freeLoop (isFreeFn : σ → Nat → List UInt8 → Bool × σ) (nbytes freedBytes : Int)
    (buf : SingleWriterShmRingBuffer) (env : σ) : SingleWriterShmRingBuffer × σ :=
  match _h : buf.metadata.get? buf.monotonicIdStart with
  | none => (buf, env)
  | some address =>
    if freedBytes < nbytes then
      match isFreeFn env buf.monotonicIdStart (buf.accessBuf address).1 with
      | (true, env) =>
        freeLoop isFreeFn nbytes (freedBytes + (buf.accessBuf address).2.2) buf.dropOldest env
      | (false, env) => (buf, env)
    else
      (buf, env)
termination_by buf.metadata.size
decreasing_by
  rw [metadata_dropOldest]
  have hsize := Dict.size_erase _h
  omega

/-- The end of `free_buf`: the range in use is moved back by one turn. -/
def wrapAround (buf : SingleWriterShmRingBuffer) : SingleWriterShmRingBuffer :=
  if buf.dataBufferSize ≤ buf.dataBufferStart then
    { buf with
      dataBufferStart := buf.dataBufferStart - buf.dataBufferSize
      dataBufferEnd := buf.dataBufferEnd - buf.dataBufferSize }
  else
    buf

/-- The ids from one number of the counter up to another, around its end if need be. -/
def idsBetween (before after : Nat) : List Nat :=
  if before ≤ after then
    List.range' before (after - before)
  else
    List.range' before (idMax - before) ++ List.range after

/-- `free_buf`: the freed ids, with the buffer and the state of the check afterwards. -/
def freeBuf (isFreeFn : σ → Nat → List UInt8 → Bool × σ) (nbytes : Option Int)
    (buf : SingleWriterShmRingBuffer) (env : σ) :
    List Nat × SingleWriterShmRingBuffer × σ :=
  let freed := freeLoop isFreeFn (nbytes.getD buf.dataBufferSize) 0 buf env
  (idsBetween buf.monotonicIdStart freed.1.monotonicIdStart, freed.1.wrapAround, freed.2)

end SingleWriterShmRingBuffer

end Vllm.ShmRing
