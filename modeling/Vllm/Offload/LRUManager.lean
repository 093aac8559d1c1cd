import Vllm.Offload.ARCManager

/-!
# The LRU manager of offloaded blocks

One dictionary in the order of last use. A store that needs room first selects its
victims and evicts them only when there are enough.
-/

namespace Vllm.Offload

variable {H : Type} [DecidableEq H]

/-- `LRUOffloadingManager`. -/
structure LRUOffloadingManager (H : Type) where
  backend : CPUBackend
  blocks : Dict H CPUBlockStatus
  /-- `None` unless events are enabled. -/
  events : Option (List (OffloadingEvent H))

namespace LRUOffloadingManager

omit [DecidableEq H] in
/-- A new manager over a new CPU backend. -/
def init (blockSize numBlocks : Nat) (enableEvents : Bool) : LRUOffloadingManager H where
  backend := CPUBackend.init blockSize numBlocks
  blocks := Dict.empty
  events := if enableEvents then some [] else none

/-- `self.blocks.get(block_hash)`. -/
def find (m : LRUOffloadingManager H) (blockHash : H) : Option CPUBlockStatus :=
  m.blocks.get? blockHash

/-- Change the block object found under a hash. -/
def write (m : LRUOffloadingManager H) (blockHash : H) (block : CPUBlockStatus) :
    LRUOffloadingManager H :=
  { m with blocks := m.blocks.insert blockHash block }

/-- `lookup`. -/
def lookup (m : LRUOffloadingManager H) (blockHashes : List H) : Nat := countHits find m blockHashes

/-- `prepare_load`. -/
def prepareLoad (m : LRUOffloadingManager H) (blockHashes : List H) :
    LRUOffloadingManager H × Except (OffloadError H) CPULoadStoreSpec :=
  let held := holdBlocks find write .keyError m blockHashes []
  (held.1, held.2.map m.backend.getLoadStoreSpec)

/-- `complete_load`. -/
def completeLoad (m : LRUOffloadingManager H) (blockHashes : List H) :
    LRUOffloadingManager H × Except (OffloadError H) Unit :=
  releaseBlocks find write .keyError m blockHashes

/-- `touch`. -/
def touch (m : LRUOffloadingManager H) (blockHashes : List H) : LRUOffloadingManager H :=
  blockHashes.reverse.foldl
    (fun m h => if m.blocks.contains h then { m with blocks := m.blocks.moveToEnd h } else m) m

/-- The hashes of a store that are not cached. -/
def hashesToStore (m : LRUOffloadingManager H) (blockHashes : List H) : List H :=
  blockHashes.filter fun h => !m.blocks.contains h

/-- The loop that selects victims among the entries until it has as many as it has to. -/
def selectVictims (isProtected : List H) : Nat → List (H × CPUBlockStatus) → Option (List H)
  | _, [] => none
  | n, e :: rest =>
    if isVictim isProtected e then
      if n - 1 = 0 then some [e.1] else (selectVictims isProtected (n - 1) rest).map (e.1 :: ·)
    else selectVictims isProtected n rest

/-- The victims of a store, none when it needs none. -/
def victims (m : LRUOffloadingManager H) (blockHashes : List H) : Option (List H) :=
  if 0 < (m.hashesToStore blockHashes).length - m.backend.getNumFreeBlocks then
    selectVictims blockHashes
      ((m.hashesToStore blockHashes).length - m.backend.getNumFreeBlocks) m.blocks.entries
  else some []

/-- `self.backend.free(self.blocks.pop(block_hash))`; a hash that is absent stays so. -/
def evictBlock (m : LRUOffloadingManager H) (blockHash : H) : LRUOffloadingManager H :=
  match m.blocks.get? blockHash with
  | some block =>
    { m with blocks := m.blocks.erase blockHash, backend := m.backend.free block }
  | none => m

/-- Append an event if events are enabled and there are hashes. -/
def report (m : LRUOffloadingManager H) (blockHashes : List H) (removed : Bool) :
    LRUOffloadingManager H :=
  if blockHashes = [] then m
  else { m with
    events := m.events.map (· ++ [⟨blockHashes, m.backend.blockSize, m.backend.medium, removed⟩]) }

/-- The end of `prepare_store`, behind the eviction. -/
def storeBlocks (m : LRUOffloadingManager H) (toStore toEvict : List H) :
    LRUOffloadingManager H × Except (OffloadError H) (Option (PrepareStoreOutput H)) :=
  match m.backend.allocateBlocks toStore.length with
  | .error e => (m, .error e)
  | .ok (blocks, backend) =>
    ((toStore.zip blocks).foldl (fun m e => { m with blocks := m.blocks.insert e.1 e.2 })
        { m with backend := backend },
      .ok (some ⟨toStore, backend.getLoadStoreSpec blocks, toEvict⟩))

/-- `prepare_store`. -/
def prepareStore (m : LRUOffloadingManager H) (blockHashes : List H) :
    LRUOffloadingManager H × Except (OffloadError H) (Option (PrepareStoreOutput H)) :=
  match m.victims blockHashes with
  | none => (m, .ok none)
  | some toEvict =>
    ((toEvict.foldl evictBlock m).report toEvict true).storeBlocks
      (m.hashesToStore blockHashes) toEvict

/-- The loop of a successful `complete_store`; a hash that is absent raises. -/
def markStored : LRUOffloadingManager H → List H → List H →
    LRUOffloadingManager H × Except (OffloadError H) (List H)
  | m, [], stored => (m, .ok stored)
  | m, blockHash :: rest, stored =>
    match m.find blockHash with
    | none => (m, .error (.keyError blockHash))
    | some block =>
      if block.isReady then markStored m rest stored
      else markStored (m.write blockHash { block with refCnt := 0 }) rest (stored ++ [blockHash])

/-- The loop of a failed `complete_store`: blocks that are not ready are removed; a hash that
is absent raises. -/
def dropBlocks : LRUOffloadingManager H → List H →
    LRUOffloadingManager H × Except (OffloadError H) Unit
  | m, [] => (m, .ok ())
  | m, blockHash :: rest =>
    match m.find blockHash with
    | none => (m, .error (.keyError blockHash))
    | some block =>
      if block.isReady then dropBlocks m rest
      else
        dropBlocks
          { m with blocks := m.blocks.erase blockHash, backend := m.backend.free block } rest

/-- `complete_store`. -/
def completeStore (m : LRUOffloadingManager H) (blockHashes : List H) (success : Bool) :
    LRUOffloadingManager H × Except (OffloadError H) Unit :=
  if success then
    match markStored m blockHashes [] with
    | (m', .ok stored) => (m'.report stored false, .ok ())
    | (m', .error e) => (m', .error e)
  else dropBlocks m blockHashes

/-- `take_events`: the pending events are yielded and cleared. -/
def takeEvents (m : LRUOffloadingManager H) : LRUOffloadingManager H × List (OffloadingEvent H) :=
  ({ m with events := m.events.map fun _ => [] }, m.events.getD [])

/-- The manager behind a call, whatever the call returns or raises. -/
def call (m : LRUOffloadingManager H) : ManagerCall H → LRUOffloadingManager H
  | .lookup _ => m
  | .prepareLoad blockHashes => (m.prepareLoad blockHashes).1
  | .touch blockHashes => m.touch blockHashes
  | .completeLoad blockHashes => (m.completeLoad blockHashes).1
  | .prepareStore blockHashes => (m.prepareStore blockHashes).1
  | .completeStore blockHashes success => (m.completeStore blockHashes success).1
  | .takeEvents => m.takeEvents.1

/-- The manager behind a sequence of calls. -/
def run (m : LRUOffloadingManager H) (calls : List (ManagerCall H)) : LRUOffloadingManager H :=
  calls.foldl call m

end LRUOffloadingManager

end Vllm.Offload
