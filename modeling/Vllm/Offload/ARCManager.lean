import Vllm.Offload.Backend
import Vllm.Library.TotalRun
import Mathlib.Algebra.Order.Field.Rat

/-!
# The ARC manager of offloaded blocks

Blocks read once are in `t1`, those read again in `t2`; `b1` and `b2` remember
hashes evicted from either. A hit in a ghost list moves the target size of `t1`. A
store that needs room evicts while it looks for victims, and gives up when it finds
none: what it evicted before stays evicted.
-/

namespace Vllm.Offload

variable {H : Type} [DecidableEq H]

/-- How the float operations round: monotone, and exact on block counts. -/
structure Rounding where
  toFun : ℚ → ℚ
  mono : Monotone toFun
  natCast : ∀ n : ℕ, toFun n = n

/-- No rounding at all. -/
def Rounding.identity : Rounding where
  toFun := id
  mono := monotone_id
  natCast := fun _ => rfl

/-- `int(x)` of a float: rounding towards zero. -/
def truncate (x : ℚ) : ℤ := x.num.tdiv x.den

/-- `ARCOffloadingManager`. -/
structure ARCOffloadingManager (H : Type) where
  backend : CPUBackend
  targetT1Size : ℚ
  t1 : Dict H CPUBlockStatus
  t2 : Dict H CPUBlockStatus
  b1 : Dict H Unit
  b2 : Dict H Unit
  /-- `None` unless events are enabled. -/
  events : Option (List (OffloadingEvent H))
  cacheCapacity : Nat

/-- What the managers are called with. -/
inductive ManagerCall (H : Type) where
  | lookup (blockHashes : List H)
  | prepareLoad (blockHashes : List H)
  | touch (blockHashes : List H)
  | completeLoad (blockHashes : List H)
  | prepareStore (blockHashes : List H)
  | completeStore (blockHashes : List H) (success : Bool)
  | takeEvents
  deriving DecidableEq, Repr

/-- A store is called with distinct hashes. -/
def ManagerCall.DistinctHashes : ManagerCall H → Prop
  | .prepareStore blockHashes => blockHashes.Nodup
  | _ => True

instance : ∀ c : ManagerCall H, Decidable c.DistinctHashes
  | .prepareStore _ => inferInstanceAs (Decidable (List.Nodup _))
  | .completeStore _ _ => .isTrue trivial
  | .lookup _ => .isTrue trivial
  | .prepareLoad _ => .isTrue trivial
  | .touch _ => .isTrue trivial
  | .completeLoad _ => .isTrue trivial
  | .takeEvents => .isTrue trivial

/-- A block that no transfer uses and that the store does not protect. -/
def isVictim (isProtected : List H) (e : H × CPUBlockStatus) : Bool :=
  decide (e.2.refCnt = 0) && !decide (e.1 ∈ isProtected)

/-- The least recently used block that may be evicted. -/
def oldestVictim (isProtected : List H) (t : Dict H CPUBlockStatus) : Option (H × CPUBlockStatus) :=
  t.entries.find? (isVictim isProtected)

namespace ARCOffloadingManager

omit [DecidableEq H] in
/-- A new manager over a new CPU backend. -/
def init (blockSize numBlocks : Nat) (enableEvents : Bool) : ARCOffloadingManager H :=
  let backend := CPUBackend.init blockSize numBlocks
  { backend := backend
    targetT1Size := 0
    t1 := Dict.empty
    t2 := Dict.empty
    b1 := Dict.empty
    b2 := Dict.empty
    events := if enableEvents then some [] else none
    cacheCapacity := backend.getNumFreeBlocks }

/-- `self.t1.get(block_hash) or self.t2.get(block_hash)`. -/
def find (m : ARCOffloadingManager H) (blockHash : H) : Option CPUBlockStatus :=
  (m.t1.get? blockHash).or (m.t2.get? blockHash)

/-- Change the block object found under a hash. -/
def write (m : ARCOffloadingManager H) (blockHash : H) (block : CPUBlockStatus) :
    ARCOffloadingManager H :=
  if m.t1.contains blockHash then { m with t1 := m.t1.insert blockHash block }
  else { m with t2 := m.t2.insert blockHash block }

/-- `lookup`. -/
def lookup (m : ARCOffloadingManager H) (blockHashes : List H) : Nat := countHits find m blockHashes

/-- `prepare_load`. -/
def prepareLoad (m : ARCOffloadingManager H) (blockHashes : List H) :
    ARCOffloadingManager H × Except (OffloadError H) CPULoadStoreSpec :=
  let held := holdBlocks find write .notFound m blockHashes []
  (held.1, held.2.map m.backend.getLoadStoreSpec)

/-- `complete_load`. -/
def completeLoad (m : ARCOffloadingManager H) (blockHashes : List H) :
    ARCOffloadingManager H × Except (OffloadError H) Unit :=
  releaseBlocks find write .notFound m blockHashes

/-- `max(1, len(other) / len(hit))`: how far a ghost hit moves the target. -/
def targetStep (fl : Rounding) (other hit : Nat) : ℚ := max 1 (fl.toFun (other / hit))

/-- One round of the loop of `touch`. -/
def touchBlock (fl : Rounding) (m : ARCOffloadingManager H) (blockHash : H) :
    ARCOffloadingManager H :=
  match m.t1.get? blockHash with
  | some block =>
    -- a block just prepared to be stored was not really touched twice
    if !block.isReady then { m with t1 := (m.t1.erase blockHash).insert blockHash block }
    else { m with t1 := m.t1.erase blockHash, t2 := m.t2.insert blockHash block }
  | none =>
    if m.t2.contains blockHash then { m with t2 := m.t2.moveToEnd blockHash }
    else if m.b1.contains blockHash then
      { m with
        targetT1Size :=
          min (fl.toFun (m.targetT1Size + targetStep fl m.b2.size m.b1.size)) m.cacheCapacity
        b1 := m.b1.moveToEnd blockHash }
    else if m.b2.contains blockHash then
      { m with
        targetT1Size :=
          max (fl.toFun (m.targetT1Size - targetStep fl m.b1.size m.b2.size)) 0
        b2 := m.b2.moveToEnd blockHash }
    else m

/-- `touch`. -/
def touch (fl : Rounding) (m : ARCOffloadingManager H) (blockHashes : List H) :
    ARCOffloadingManager H :=
  blockHashes.reverse.foldl (touchBlock fl) m

/-- The hashes of a store that are not cached. -/
def hashesToStore (m : ARCOffloadingManager H) (blockHashes : List H) : List H :=
  blockHashes.filter fun h => !m.t1.contains h && !m.t2.contains h

/-- Evict a block of `t1`: its hash goes to `b1`. -/
def evictT1 (m : ARCOffloadingManager H) (e : H × CPUBlockStatus) : ARCOffloadingManager H :=
  { m with
    t1 := m.t1.erase e.1
    b1 := m.b1.insert e.1 ()
    backend := m.backend.free e.2 }

/-- Evict a block of `t2`: its hash goes to `b2`. -/
def evictT2 (m : ARCOffloadingManager H) (e : H × CPUBlockStatus) : ARCOffloadingManager H :=
  { m with
    t2 := m.t2.erase e.1
    b2 := m.b2.insert e.1 ()
    backend := m.backend.free e.2 }

/-- `t1` is large enough to look for a victim there. -/
def T1Large (m : ARCOffloadingManager H) : Prop := truncate m.targetT1Size ≤ m.t1.size

instance (m : ARCOffloadingManager H) : Decidable m.T1Large := Int.decLe _ _

/-- The victim from `t1`, if there is one and `t1` is large enough. -/
def victimT1 (m : ARCOffloadingManager H) (isProtected : List H) : Option (H × CPUBlockStatus) :=
  if m.T1Large then oldestVictim isProtected m.t1 else none

/-- One round of the eviction loop: the manager behind it and the evicted hash. -/
def evictOne (m : ARCOffloadingManager H) (isProtected : List H) :
    Option (ARCOffloadingManager H × H) :=
  match m.victimT1 isProtected with
  | some e => some (m.evictT1 e, e.1)
  | none =>
    match oldestVictim isProtected m.t2 with
    | some e => some (m.evictT2 e, e.1)
    | none => none

/-- The eviction loop: the manager behind it, the evicted hashes, and whether it evicted as
many blocks as it had to. -/
def evict (isProtected : List H) :
    Nat → ARCOffloadingManager H → List H → ARCOffloadingManager H × List H × Bool
  | 0, m, toEvict => (m, toEvict, true)
  | n + 1, m, toEvict =>
    match m.evictOne isProtected with
    | some (m', blockHash) => evict isProtected n m' (toEvict ++ [blockHash])
    | none => (m, toEvict, false)

/-- Bound both ghost lists. -/
def trimGhosts (m : ARCOffloadingManager H) : ARCOffloadingManager H :=
  { m with
    b1 := m.b1.drop (m.b1.size - m.cacheCapacity)
    b2 := m.b2.drop (m.b2.size - m.cacheCapacity) }

/-- Append an event if events are enabled and there are hashes. -/
def report (m : ARCOffloadingManager H) (blockHashes : List H) (removed : Bool) :
    ARCOffloadingManager H :=
  if blockHashes = [] then m
  else { m with
    events := m.events.map (· ++ [⟨blockHashes, m.backend.blockSize, m.backend.medium, removed⟩]) }

/-- Put a new block under a hash and forget the ghost of the hash. -/
def storeBlock (m : ARCOffloadingManager H) (e : H × CPUBlockStatus) : ARCOffloadingManager H :=
  { m with
    t1 := m.t1.insert e.1 e.2
    b1 := m.b1.erase e.1
    b2 := m.b2.erase e.1 }

/-- The end of `prepare_store`, behind the eviction loop. -/
def storeBlocks (m : ARCOffloadingManager H) (toStore toEvict : List H) :
    ARCOffloadingManager H × Except (OffloadError H) (Option (PrepareStoreOutput H)) :=
  let m := m.trimGhosts.report toEvict true
  match m.backend.allocateBlocks toStore.length with
  | .error e => (m, .error e)
  | .ok (blocks, backend) =>
    ((toStore.zip blocks).foldl storeBlock { m with backend := backend },
      .ok (some ⟨toStore, backend.getLoadStoreSpec blocks, toEvict⟩))

/-- `prepare_store`. -/
def prepareStore (m : ARCOffloadingManager H) (blockHashes : List H) :
    ARCOffloadingManager H × Except (OffloadError H) (Option (PrepareStoreOutput H)) :=
  if m.hashesToStore blockHashes = [] then
    (m, .ok (some ⟨[], m.backend.getLoadStoreSpec [], []⟩))
  else
    match evict blockHashes
        ((m.hashesToStore blockHashes).length - m.backend.getNumFreeBlocks) m [] with
    | (m', _, false) => (m', .ok none)
    | (m', toEvict, true) => m'.storeBlocks (m.hashesToStore blockHashes) toEvict

/-- The loop of a successful `complete_store`: blocks become ready. -/
def markStored : ARCOffloadingManager H → List H → List H → ARCOffloadingManager H × List H
  | m, [], stored => (m, stored)
  | m, blockHash :: rest, stored =>
    match m.find blockHash with
    | none => markStored m rest stored
    | some block =>
      if block.isReady then markStored m rest stored
      else markStored (m.write blockHash { block with refCnt := 0 }) rest (stored ++ [blockHash])

/-- One round of the loop of a failed `complete_store`: the hash is popped whatever the
state of its block. -/
def dropBlock (m : ARCOffloadingManager H) (blockHash : H) : ARCOffloadingManager H :=
  match m.t1.get? blockHash with
  | some block =>
    { m with
      t1 := m.t1.erase blockHash
      backend := if block.isReady then m.backend else m.backend.free block }
  | none =>
    match m.t2.get? blockHash with
    | some block =>
      { m with
        t2 := m.t2.erase blockHash
        backend := if block.isReady then m.backend else m.backend.free block }
    | none => m

/-- `complete_store`. -/
def completeStore (m : ARCOffloadingManager H) (blockHashes : List H) (success : Bool) :
    ARCOffloadingManager H :=
  if success then
    let stored := markStored m blockHashes []
    stored.1.report stored.2 false
  else blockHashes.foldl dropBlock m

/-- `take_events`: the pending events are yielded and cleared. -/
def takeEvents (m : ARCOffloadingManager H) : ARCOffloadingManager H × List (OffloadingEvent H) :=
  ({ m with events := m.events.map fun _ => [] }, m.events.getD [])

/-- The manager behind a call, whatever the call returns or raises. -/
def call (fl : Rounding) (m : ARCOffloadingManager H) : ManagerCall H → ARCOffloadingManager H
  | .lookup _ => m
  | .prepareLoad blockHashes => (m.prepareLoad blockHashes).1
  | .touch blockHashes => m.touch fl blockHashes
  | .completeLoad blockHashes => (m.completeLoad blockHashes).1
  | .prepareStore blockHashes => (m.prepareStore blockHashes).1
  | .completeStore blockHashes success => m.completeStore blockHashes success
  | .takeEvents => m.takeEvents.1

/-- The manager behind a sequence of calls. -/
def run (fl : Rounding) (m : ARCOffloadingManager H) (calls : List (ManagerCall H)) :
    ARCOffloadingManager H :=
  calls.foldl (call fl) m

end ARCOffloadingManager

end Vllm.Offload
