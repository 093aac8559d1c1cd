import Mathlib.Data.List.Basic
import Mathlib.Logic.Function.Basic
import Vllm.Distributed.ChunkFraming

/-!
# The broadcast queue

A writer and its local readers share a ring of chunks, each with a written flag and a read flag
for each reader. They step one flag at a time, in any order, with sequentially consistent memory.
The writer takes a chunk that is not written or that all readers have read, marks it as not
written, writes the message, resets the read flags and marks the chunk as written. A reader takes
the chunk once it is written and not read by itself, and marks it as read when it is done. The
content of a message that does not fit goes over a socket, behind its chunk. Loading an object
from a chunk copies its pickle; its out-of-band buffers stay views of the chunk, which the writer
may overwrite once the chunk is marked as read.
-/

namespace Vllm.Distributed.Broadcast

/-- A buffer of a returned object: bytes of its own, or a slice of a chunk. -/
inductive Buffer where
  | own (bytes : Bytes)
  | view (idx start stop : Nat)
  deriving DecidableEq, Repr

/-- `all_buffers[1:]` from an offset of a chunk on: each buffer behind the length before it. -/
def viewsFrom (idx : Nat) : Nat → List Bytes → List Buffer
  | _, [] => []
  | offset, buffer :: rest =>
    .view idx (offset + 4) (offset + 4 + buffer.length) ::
      viewsFrom idx (offset + 4 + buffer.length) rest

/-- `pickle.loads(all_buffers[0], buffers=all_buffers[1:])` in a chunk: the object owns what is
pickled, and its out-of-band buffers are views of the chunk. -/
def loads (idx : Nat) : List Bytes → List Buffer
  | [] => []
  | pickled :: oob => .own pickled :: viewsFrom idx (3 + 4 + pickled.length) oob

/-- A chunk: its metadata and its data. -/
structure Chunk (n : Nat) where
  written : Bool := false
  readFlags : Fin n → Bool := fun _ => false
  data : Memory := fun _ => 0

/-- `metadata_buffer[local_reader_rank + 1] = 1`. -/
def Chunk.markRead {n : Nat} (chunk : Chunk n) (r : Fin n) : Chunk n :=
  { chunk with readFlags := Function.update chunk.readFlags r true }

/-- How far a call of `enqueue` has come. -/
inductive EnqueuePhase where
  /-- Sums up the read flags, then reads the written flag. -/
  | summing (i readCount : Nat)
  /-- The chunk is not free. -/
  | waiting
  /-- Will mark the chunk as not written. -/
  | claiming
  /-- Writes the message. -/
  | writing (rest : List FrameWrite)
  /-- Resets the read flags. -/
  | resetting (i : Nat)
  /-- Will mark the chunk as written. -/
  | publishing
  /-- Will send what did not fit. -/
  | sending
  deriving DecidableEq, Repr

/-- The writer's side of a `MessageQueue`. -/
structure Writer where
  currentIdx : Nat := 0
  call : Option (Message × EnqueuePhase) := none

/-- How far a call of `dequeue` has come. -/
inductive DequeuePhase where
  /-- Will read its own read flag. -/
  | polling
  /-- Has read its read flag, will read the written flag. -/
  | testing (readFlag : Bool)
  /-- May read the chunk. -/
  | reading
  /-- Has read the chunk, will mark it as read. -/
  | marking (found : Option (List Buffer))
  /-- Waits for what did not fit. -/
  | receiving
  deriving DecidableEq, Repr

/-- A local reader's side: `payloads` is what its socket has in store, `received` is what its
calls of `dequeue` have returned. -/
structure Reader where
  currentIdx : Nat := 0
  phase : DequeuePhase := .polling
  payloads : List (List Bytes) := []
  received : List (List Buffer) := []

/-- The parties and what they share. `published` lists the messages whose chunk was marked as
written. -/
structure State (n : Nat) where
  chunks : Nat → Chunk n := fun _ => {}
  writer : Writer := {}
  readers : Fin n → Reader := fun _ => {}
  published : List Message := []

/-- What can happen next. -/
inductive Action (n : Nat) where
  /-- The writer's caller calls `enqueue`. -/
  | enqueue (message : Message)
  /-- The writer takes a step. -/
  | writer
  /-- The writer's wait times out. -/
  | writeTimeout
  /-- A reader takes a step. -/
  | reader (r : Fin n)
  /-- A reader's wait for a payload times out. -/
  | payloadTimeout (r : Fin n)
  deriving DecidableEq

section Steps

variable {n : Nat} (maxChunkBytes maxChunks : Nat)

/-- The state with another chunk under an index. -/
def State.setChunk (s : State n) (idx : Nat) (chunk : Chunk n) : State n :=
  { s with chunks := Function.update s.chunks idx chunk }

/-- The state with another reader. -/
def State.setReader (s : State n) (r : Fin n) (reader : Reader) : State n :=
  { s with readers := Function.update s.readers r reader }

@[simp] theorem State.readers_setReader (s : State n) (r : Fin n) (reader : Reader) :
    (s.setReader r reader).readers r = reader :=
  Function.update_self _ _ _

theorem State.readers_setReader_of_ne (s : State n) {r q : Fin n} (reader : Reader) (hne : q ≠ r) :
    (s.setReader r reader).readers q = s.readers q :=
  Function.update_of_ne hne _ _

/-- The state with another phase of the writer's call. -/
def State.setCall (s : State n) (call : Option (Message × EnqueuePhase)) : State n :=
  { s with writer := { s.writer with call } }

/-- The writer's chunk. -/
def State.writerChunk (s : State n) : Chunk n := s.chunks s.writer.currentIdx

/-- The next step of `enqueue`, with `acquire_write` around the writing. -/
def writerStep (s : State n) : Option (State n) :=
  match s.writer.call with
  | none => none
  | some (message, .summing i readCount) =>
    if h : i < n then
      some (s.setCall (some (message,
        .summing (i + 1) (readCount + (s.writerChunk.readFlags ⟨i, h⟩).toNat))))
    else if s.writerChunk.written = true ∧ readCount ≠ n then
      some (s.setCall (some (message, .waiting)))
    else some (s.setCall (some (message, .claiming)))
  | some (message, .waiting) => some (s.setCall (some (message, .summing 0 0)))
  | some (message, .claiming) =>
    some ((s.setChunk s.writer.currentIdx { s.writerChunk with written := false }).setCall
      (some (message, .writing (frame maxChunkBytes message))))
  | some (message, .writing []) => some (s.setCall (some (message, .resetting 0)))
  | some (_, .writing ((_, none) :: _)) => some (s.setCall none)
  | some (message, .writing ((offset, some bytes) :: rest)) =>
    some ((s.setChunk s.writer.currentIdx
      { s.writerChunk with data := overwrite s.writerChunk.data offset bytes }).setCall
        (some (message, .writing rest)))
  | some (message, .resetting i) =>
    if h : i < n then
      some ((s.setChunk s.writer.currentIdx { s.writerChunk with
        readFlags := Function.update s.writerChunk.readFlags ⟨i, h⟩ false }).setCall
          (some (message, .resetting (i + 1))))
    else some (s.setCall (some (message, .publishing)))
  | some (message, .publishing) =>
    some { s with
      chunks := Function.update s.chunks s.writer.currentIdx { s.writerChunk with written := true }
      writer :=
        { currentIdx := (s.writer.currentIdx + 1) % maxChunks
          call := if message.overflows maxChunkBytes then some (message, .sending) else none }
      published := s.published ++ [message] }
  | some (message, .sending) =>
    some { s with
      writer := { s.writer with call := none }
      readers := fun r => { s.readers r with
        payloads := (s.readers r).payloads ++ [message.allBuffers] } }

/-- The next step of `dequeue`, with `acquire_read` around the reading. -/
def readerStep (s : State n) (r : Fin n) : Option (State n) :=
  let reader := s.readers r
  let chunk := s.chunks reader.currentIdx
  match reader.phase with
  | .polling => some (s.setReader r { reader with phase := .testing (chunk.readFlags r) })
  | .testing readFlag =>
    if chunk.written = false ∨ readFlag = true then
      some (s.setReader r { reader with phase := .polling })
    else some (s.setReader r { reader with phase := .reading })
  | .reading =>
    some (s.setReader r { reader with
      phase := .marking ((readFrame chunk.data).map (loads reader.currentIdx)) })
  | .marking found =>
    let marked := s.setChunk reader.currentIdx (chunk.markRead r)
    let currentIdx := (reader.currentIdx + 1) % maxChunks
    match found with
    | none => some (marked.setReader r { reader with currentIdx, phase := .receiving })
    | some buffers =>
      some (marked.setReader r { reader with
        currentIdx, phase := .polling, received := reader.received ++ [buffers] })
  | .receiving =>
    match reader.payloads with
    | [] => none
    | payload :: payloads =>
      some (s.setReader r { reader with
        phase := .polling, payloads, received := reader.received ++ [payload.map .own] })

/-- What an action makes of a state in which it can happen. -/
def step (s : State n) : Action n → Option (State n)
  | .enqueue message =>
    match s.writer.call with
    | none => some (s.setCall (some (message, .summing 0 0)))
    | some _ => none
  | .writer => writerStep maxChunkBytes maxChunks s
  | .writeTimeout =>
    match s.writer.call with
    | some (_, .waiting) => some (s.setCall none)
    | _ => none
  | .reader r => readerStep maxChunks s r
  | .payloadTimeout r =>
    match (s.readers r).phase with
    | .receiving => some (s.setReader r { s.readers r with phase := .polling })
    | _ => none

/-- Actions one after another. -/
def run (s : State n) : List (Action n) → Option (State n)
  | [] => some s
  | action :: actions => (step maxChunkBytes maxChunks s action).bind fun s' => run s' actions

end Steps

end Vllm.Distributed.Broadcast
