import Vllm.Library.FairShare
import Vllm.Library.SortedKeys

/-!
# Moving expert weights

Every rank of an expert parallel group derives from the old and the new map which of its
rows stay, which it copies from its own rows, and which it sends and receives. A map is a
function of the physical position, a rank's tensors one of the tensor and the row.
-/

namespace Vllm.Distributed

open SortedKeys

variable {V : Type}

/-- The maps of one layer, for `epSize` ranks of `numLocalExperts` rows each. -/
structure LayerMaps where
  numLocalExperts : Nat
  epSize : Nat
  /-- The logical expert of each position before the rearrangement; `-1` for none. -/
  oldIndices : Nat → Int
  /-- The logical expert of each position after the rearrangement. -/
  newIndices : Nat → Int

/-- The expert weights of a rank, or its buffers. -/
abbrev Tensors (V : Type) := Nat → Nat → V

namespace LayerMaps

variable (m : LayerMaps)

/-! ## Who sends and who receives -/

/-- The ranks that hold an expert in a map: its positions in ascending order, the rank of each,
every rank at its first appearance. -/
def ranksWith (indices : Nat → Int) (expert : Int) : List Nat :=
  firsts (((List.range (m.epSize * m.numLocalExperts)).filter fun p => indices p = expert).map
    (· / m.numLocalExperts))

/-- `ranks_to_send_map[expert]` of `get_ep_ranks_with_experts_batch`. -/
def ranksToSend (expert : Int) : List Nat := m.ranksWith m.oldIndices expert

/-- `ranks_to_recv_map[expert]`: the ranks with local copies are removed. -/
def ranksToRecv (expert : Int) : List Nat :=
  (m.ranksWith m.newIndices expert).filter fun r => r ∉ m.ranksToSend expert

/-- `recv_ranks`: the ranks that `epRank` sends an expert to. -/
def recvRanks (epRank : Nat) (expert : Int) : List Nat :=
  let toSend := m.ranksToSend expert
  let toRecv := m.ranksToRecv expert
  let numDstPerSender := toRecv.length / toSend.length
  let senderPos := toSend.idxOf epRank
  let recvBegin := senderPos * numDstPerSender
  let remainderStart := toSend.length * numDstPerSender
  let recverPos := remainderStart + senderPos
  (toRecv.drop recvBegin).take numDstPerSender ++ toRecv[recverPos]?.toList

/-- `src`: the rank that `epRank` receives an expert from. -/
def senderRank (epRank : Nat) (expert : Int) : Nat :=
  let toSend := m.ranksToSend expert
  let toRecv := m.ranksToRecv expert
  let numDstPerSender := toRecv.length / toSend.length
  let recverPos := toRecv.idxOf epRank
  let remainderStart := toSend.length * numDstPerSender
  if recverPos < remainderStart then toSend.getD (recverPos / numDstPerSender) 0
  else toSend.getD (recverPos - remainderStart) 0

/-! ## `move_to_buffer` -/

/-- `local_rows`. -/
def localRows : List Nat := List.range m.numLocalExperts

/-- `old_local_expert_ids`. -/
def oldLocal (epRank row : Nat) : Int := m.oldIndices (epRank * m.numLocalExperts + row)

/-- `new_local_expert_ids`. -/
def newLocal (epRank row : Nat) : Int := m.newIndices (epRank * m.numLocalExperts + row)

/-- `is_unchanged`. -/
def isUnchanged (epRank row : Nat) : Bool := m.oldLocal epRank row = m.newLocal epRank row

/-- `is_received_locally`. -/
def isReceivedLocally (epRank row : Nat) : Bool :=
  m.isUnchanged epRank row ||
    (m.newLocal epRank row ≠ -1 && m.newLocal epRank row ∈ m.localRows.map (m.oldLocal epRank))

/-- `send_expert_ids` with `send_src_rows`, up to `send_count`. -/
def sendRows (epRank : Nat) : List (Int × Nat) :=
  firstRows (m.localRows.filter fun row => m.oldLocal epRank row ≠ -1) (m.oldLocal epRank)

/-- `need_recv_mask`. -/
def needRecv (epRank row : Nat) : Bool :=
  !m.isReceivedLocally epRank row && m.newLocal epRank row ≠ -1

/-- `recv_expert_ids` with `recv_dst_rows`, up to `recv_count`. -/
def recvRows (epRank : Nat) : List (Int × Nat) :=
  firstRows (m.localRows.filter (m.needRecv epRank)) (m.newLocal epRank)

/-- The rows of the buffer that are copied from local rows, with those. -/
def localCopies (epRank : Nat) : List (Nat × Nat) :=
  (m.localRows.filter fun row => !m.isUnchanged epRank row &&
    m.isReceivedLocally epRank row).filterMap fun dst =>
      ((m.sendRows epRank).lookup (m.newLocal epRank dst)).map fun src => (dst, src)

/-- The operations of `batch_isend_irecv`. -/
inductive P2PKind where
  | isend
  | irecv
  deriving DecidableEq, Repr

/-- `P2POp`, about a row of a weight tensor or of its buffer. -/
structure P2POp where
  kind : P2PKind
  tensor : Nat
  row : Nat
  peer : Nat
  deriving DecidableEq, Repr

/-- The operations of one kind about a row and all its tensors. -/
def rowOps (kind : P2PKind) (numTensors row peer : Nat) : List P2POp :=
  (List.range numTensors).map fun tensor => ⟨kind, tensor, row, peer⟩

/-- "Post sends". -/
def postSends (numTensors epRank : Nat) : List P2POp :=
  ((m.sendRows epRank).insertionSort fun a b => a.1 ≤ b.1).flatMap fun e =>
    if m.ranksToSend e.1 = [] ∨ m.ranksToRecv e.1 = [] then []
    else (m.recvRanks epRank e.1).flatMap fun dst => rowOps .isend numTensors e.2 dst

/-- "Post recvs". -/
def postRecvs (numTensors epRank : Nat) : List P2POp :=
  ((m.recvRows epRank).insertionSort fun a b => a.1 ≤ b.1).flatMap fun e =>
    if m.ranksToSend e.1 = [] ∨ m.ranksToRecv e.1 = [] then []
    else rowOps .irecv numTensors e.2 (m.senderRank epRank e.1)

/-- `p2p_ops` of a rank. -/
def p2pOps (numTensors epRank : Nat) : List P2POp :=
  m.postSends numTensors epRank ++ m.postRecvs numTensors epRank

/-- `RecvMetadata`; the arrays go up to `recvCount`. -/
structure RecvMetadata where
  recvPrimaryMask : Nat → Bool
  recvCount : Nat
  recvExpertIds : List Int
  recvDstRows : List Nat

/-- The metadata that `move_to_buffer` returns. -/
def recvMetadata (epRank : Nat) : RecvMetadata where
  recvPrimaryMask := fun row => row ∈ (m.recvRows epRank).map Prod.snd
  recvCount := (m.recvRows epRank).length
  recvExpertIds := (m.recvRows epRank).map Prod.fst
  recvDstRows := (m.recvRows epRank).map Prod.snd

/-! ## The exchange -/

/-- The operations that send to a rank, in the order of posting. -/
def sendsTo (ops : List P2POp) (dst : Nat) : List P2POp :=
  ops.filter fun op => op.kind = .isend ∧ op.peer = dst

/-- The operations that receive from a rank, in the order of posting. -/
def recvsFrom (ops : List P2POp) (src : Nat) : List P2POp :=
  ops.filter fun op => op.kind = .irecv ∧ op.peer = src

/-- What the operations write into the buffers of a rank: those of a sender and a receiver are
matched first in, first out. -/
def delivered (numTensors : Nat) (weights : Nat → Tensors V) (epRank : Nat) :
    List ((Nat × Nat) × V) :=
  (List.range m.epSize).flatMap fun src =>
    ((sendsTo (m.p2pOps numTensors src) epRank).zip
      (recvsFrom (m.p2pOps numTensors epRank) src)).map fun ops =>
        ((ops.2.tensor, ops.2.row), weights src ops.1.tensor ops.1.row)

/-- What the local copies write into the buffers of a rank. -/
def copiedLocally (numTensors : Nat) (weights : Nat → Tensors V) (epRank : Nat) :
    List ((Nat × Nat) × V) :=
  (m.localCopies epRank).flatMap fun copy => (List.range numTensors).map fun tensor =>
    ((tensor, copy.1), weights epRank tensor copy.2)

/-- Write values at tensors and rows, one after the other. -/
def writeAll (tensors : Tensors V) (writes : List ((Nat × Nat) × V)) : Tensors V :=
  writes.foldl (fun t w => Function.update t w.1.1 (Function.update (t w.1.1) w.1.2 w.2)) tensors

/-- The buffers of a rank behind `move_to_buffer`. -/
def moveToBuffer (numTensors : Nat) (weights : Nat → Tensors V) (buffers : Tensors V)
    (epRank : Nat) : Tensors V :=
  writeAll (writeAll buffers (m.copiedLocally numTensors weights epRank))
    (m.delivered numTensors weights epRank)

/-! ## `move_from_buffer` -/

/-- A copy into a row of the weights. -/
inductive RowCopy where
  | fromBuffer (dst : Nat)
  | fromRow (dst src : Nat)
  deriving DecidableEq, Repr

/-- The row that a copy writes. -/
def RowCopy.dst : RowCopy → Nat
  | .fromBuffer dst => dst
  | .fromRow dst _ => dst

/-- Perform a copy, for all tensors. -/
def RowCopy.apply (buffers weights : Tensors V) : RowCopy → Tensors V
  | .fromBuffer dst => fun t => Function.update (weights t) dst (buffers t dst)
  | .fromRow dst src => fun t => Function.update (weights t) dst (weights t src)

/-- The copies of `move_from_buffer`, in order. -/
def moveFromBufferCopies (isUnchanged isReceivedLocally : Nat → Bool) (recvMetadata : RecvMetadata)
    (epRank : Nat) : List RowCopy :=
  let copyMask := fun row => isReceivedLocally row || recvMetadata.recvPrimaryMask row
  let fromBuffers := (m.localRows.filter fun row => !isUnchanged row && copyMask row).map
    RowCopy.fromBuffer
  if recvMetadata.recvCount = 0 then fromBuffers
  else
    let duplicateMask := fun row => (!isUnchanged row && !isReceivedLocally row) &&
      (!recvMetadata.recvPrimaryMask row && m.newLocal epRank row ≠ -1)
    let prims := (recvMetadata.recvExpertIds.zip recvMetadata.recvDstRows).insertionSort
      fun a b => a.1 ≤ b.1
    fromBuffers ++ (m.localRows.filter duplicateMask).filterMap fun dst =>
      let pos := searchsorted (prims.map Prod.fst) (m.newLocal epRank dst)
      (prims[pos]?.filter fun prim => prim.1 = m.newLocal epRank dst).map fun prim =>
        .fromRow dst prim.2

/-- `move_from_buffer`. -/
def moveFromBuffer (buffers weights : Tensors V) (isUnchanged isReceivedLocally : Nat → Bool)
    (recvMetadata : RecvMetadata) (epRank : Nat) : Tensors V :=
  (m.moveFromBufferCopies isUnchanged isReceivedLocally recvMetadata epRank).foldl
    (RowCopy.apply buffers) weights

/-- One layer of `rearrange_expert_weights_inplace`, in one rank of the group. -/
def rearrange (numTensors : Nat) (weights buffers : Nat → Tensors V) (epRank : Nat) : Tensors V :=
  m.moveFromBuffer (m.moveToBuffer numTensors weights (buffers epRank) epRank) (weights epRank)
    (m.isUnchanged epRank) (m.isReceivedLocally epRank) (m.recvMetadata epRank) epRank

end LayerMaps

end Vllm.Distributed
