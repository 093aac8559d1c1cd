import Vllm.Core.PoolInvariant
import Vllm.Core.SingleTypeManager
import Vllm.Library.Masked
import Mathlib.Algebra.Order.Group.Multiset
import Mathlib.Logic.Relation

/-!
# Block tables, step by step

The block tables of all groups and requests hold blocks at places: a group, a
request, and an index. Every operation of a group manager is a sequence of a few
elementary steps on the pool and on one table. An invariant of the pool and of the
places that every elementary step keeps is kept by every manager and by every pass
of the coordinator over its managers.
-/

namespace Vllm

open Checked Masked

/-- A place in the block tables with the block it holds. -/
structure Position where
  groupId : Nat
  requestId : RequestId
  index : Nat
  block : BlockId
  /-- The place lies behind the blocks counted as cached. -/
  fresh : Bool
  deriving DecidableEq, Repr

/-- What a group keeps of one request. -/
structure BlockTable where
  row : List BlockId := []
  /-- The number of leading blocks that are not to be cached again. -/
  numCached : Nat := 0
  /-- Mamba `align`: blocks were allocated for the request. -/
  allocated : Bool := false

/-- The places of a list of blocks from an index on. -/
def placesFrom (groupId : Nat) (requestId : RequestId) (numCached : Nat) :
    Nat → List BlockId → List Position
  | _, [] => []
  | i, block :: blocks =>
    ⟨groupId, requestId, i, block, numCached ≤ i⟩ ::
      placesFrom groupId requestId numCached (i + 1) blocks

/-- The places of a table. -/
def BlockTable.places (t : BlockTable) (groupId : Nat) (requestId : RequestId) :
    Multiset Position :=
  placesFrom groupId requestId t.numCached 0 t.row

/-- How many places hold a block. -/
def heldCount (places : Multiset Position) (b : BlockId) : Nat :=
  places.countP fun e => e.block = b

/-! ## Places -/

private theorem countP_placesFrom (groupId : Nat) (requestId : RequestId) (numCached i : Nat)
    (blocks : List BlockId) (b : BlockId) :
    (placesFrom groupId requestId numCached i blocks).countP (fun e => e.block = b) =
      blocks.count b := by
  induction blocks generalizing i with
  | nil => rfl
  | cons block blocks ih =>
    rw [placesFrom, List.countP_cons, List.count_cons, ih]
    simp

@[simp] theorem heldCount_places (t : BlockTable) (groupId : Nat) (requestId : RequestId)
    (b : BlockId) : heldCount (t.places groupId requestId) b = t.row.count b := by
  rw [heldCount, BlockTable.places, Multiset.coe_countP]
  exact countP_placesFrom _ _ _ _ _ _

@[simp] theorem heldCount_add (X Y : Multiset Position) (b : BlockId) :
    heldCount (X + Y) b = heldCount X b + heldCount Y b :=
  Multiset.countP_add _ _ _

/-- A table without blocks has no places. -/
theorem BlockTable.places_of_row_nil {t : BlockTable} (h : t.row = []) (groupId : Nat)
    (requestId : RequestId) : t.places groupId requestId = 0 := by
  simp [BlockTable.places, h, placesFrom]

/-! ## Elementary steps -/

variable {H : Type} [DecidableEq H]

/-- Which of the elementary steps that need a reason are taken for granted. -/
structure TableGuard (H : Type) where
  /-- Prefix hits may join a table behind a number of null blocks. -/
  join : KVCacheSpec → Nat → BlockPool H → Nat → List BlockId → Prop
  /-- The first blocks of a table may be cached. -/
  cache : KVCacheSpec → Nat → BlockTable → Request H → Nat → Prop
  /-- A block of a table may move to its end. -/
  move : KVCacheSpec → Nat → BlockTable → Nat → Prop
  /-- A table may count as allocated. -/
  settle : KVCacheSpec → Nat → BlockTable → Prop

/-- The elementary steps on the pool and one table. -/
inductive TableStep (G : TableGuard H) (spec : KVCacheSpec) (groupId : Nat) :
    BlockPool H × BlockTable → BlockPool H × BlockTable → Prop
  | release {p p' : BlockPool H} {t : BlockTable} {row blocks : List BlockId}
      (masks : Masks nullBlock t.row row)
      (count : ∀ b, b ≠ nullBlock → row.count b + blocks.count b = t.row.count b)
      (run : p.freeBlocks blocks = .ok p') :
      TableStep G spec groupId (p, t) (p', { t with row := row })
  | drop {p p' : BlockPool H} {t : BlockTable} (run : p.freeBlocks t.row.reverse = .ok p') :
      TableStep G spec groupId (p, t) (p', {})
  | join {p p' : BlockPool H} {t : BlockTable} {numSkipped : Nat} {hits : List BlockId}
      (empty : t.row = []) (guard : G.join spec groupId p numSkipped hits)
      (run : BlockPool.touch hits p = .ok p') :
      TableStep G spec groupId (p, t) (p', { t with
        row := List.replicate numSkipped nullBlock ++ hits
        numCached := numSkipped + hits.length })
  | grow {p p' : BlockPool H} {t : BlockTable} {n : Nat} {blocks : List BlockId}
      (run : p.getNewBlocks n = .ok (blocks, p')) :
      TableStep G spec groupId (p, t) (p', { t with row := t.row ++ blocks })
  | pad {p : BlockPool H} {t : BlockTable} (n : Nat) :
      TableStep G spec groupId (p, t) (p, { t with row := t.row ++ List.replicate n nullBlock })
  | move {p : BlockPool H} {t : BlockTable} {i : Nat} (lt : i < t.row.length)
      (guard : G.move spec groupId t i) :
      TableStep G spec groupId (p, t) (p, { t with
        row := (t.row ++ [t.row.getD i nullBlock]).set i nullBlock })
  | settle {p : BlockPool H} {t : BlockTable}
      (length : spec.numSpeculativeBlocks ≤ t.row.length) (guard : G.settle spec groupId t) :
      TableStep G spec groupId (p, t) (p, { t with allocated := true })
  | cache {p p' : BlockPool H} {t : BlockTable} {request : Request H} {n : Nat}
      (caching : p.enableCaching) (new : t.numCached < n)
      (guard : G.cache spec groupId t request n)
      (run : p.cacheFullBlocks request t.row t.numCached n spec.blockSize groupId = .ok p') :
      TableStep G spec groupId (p, t) (p', { t with numCached := n })

/-! ## Managers -/

namespace SingleTypeKVCacheManager

/-- What the group keeps of a request. -/
def table (m : SingleTypeKVCacheManager H) (requestId : RequestId) : BlockTable where
  row := m.row requestId
  numCached := (m.numCachedBlock requestId).getD 0
  allocated := m.allocatedBlockReqs requestId

/-- The places of the group's tables. -/
def places (m : SingleTypeKVCacheManager H) : Multiset Position :=
  Dict.total (fun requestId row =>
    ({ m.table requestId with row := row } : BlockTable).places m.kvCacheGroupId requestId)
    m.reqToBlocks

/-- Two managers of one group that differ at one request only. -/
structure AgreesOff (requestId : RequestId) (m m' : SingleTypeKVCacheManager H) : Prop where
  spec_eq : m'.kvCacheSpec = m.kvCacheSpec
  groupId_eq : m'.kvCacheGroupId = m.kvCacheGroupId
  tables_eq : m'.reqToBlocks.erase requestId = m.reqToBlocks.erase requestId
  numCached_eq : ∀ r, r ≠ requestId → m'.numCachedBlock r = m.numCachedBlock r
  allocated_eq : ∀ r, r ≠ requestId → m'.allocatedBlockReqs r = m.allocatedBlockReqs r

omit [DecidableEq H]

theorem AgreesOff.refl (requestId : RequestId) (m : SingleTypeKVCacheManager H) :
    AgreesOff requestId m m :=
  ⟨rfl, rfl, rfl, fun _ _ => rfl, fun _ _ => rfl⟩

theorem AgreesOff.trans {requestId : RequestId} {m m' m'' : SingleTypeKVCacheManager H}
    (h : AgreesOff requestId m m') (h' : AgreesOff requestId m' m'') :
    AgreesOff requestId m m'' where
  spec_eq := h'.spec_eq.trans h.spec_eq
  groupId_eq := h'.groupId_eq.trans h.groupId_eq
  tables_eq := h'.tables_eq.trans h.tables_eq
  numCached_eq r hr := (h'.numCached_eq r hr).trans (h.numCached_eq r hr)
  allocated_eq r hr := (h'.allocated_eq r hr).trans (h.allocated_eq r hr)

/-- The tables of the other requests are what they were. -/
theorem AgreesOff.table_eq {requestId : RequestId} {m m' : SingleTypeKVCacheManager H}
    (h : AgreesOff requestId m m') {r : RequestId} (hr : r ≠ requestId) :
    m'.table r = m.table r := by
  have hrow := congrArg (fun d => d.get? r) h.tables_eq
  simp only [Dict.get?_erase, if_neg hr] at hrow
  simp [table, row, hrow, h.numCached_eq r hr, h.allocated_eq r hr]

/-- The places of a group are those of one request and those of all others. -/
theorem places_eq_add (m : SingleTypeKVCacheManager H) (requestId : RequestId) :
    m.places = (m.table requestId).places m.kvCacheGroupId requestId +
      Dict.total (fun r row =>
        ({ m.table r with row := row } : BlockTable).places m.kvCacheGroupId r)
        (m.reqToBlocks.erase requestId) := by
  rw [places, Dict.total_eq_share_add _ _ requestId]
  congr 1
  cases h : m.reqToBlocks.get? requestId with
  | none =>
    have hrow : (m.table requestId).row = [] := by simp [table, row, h]
    simp [Dict.share, h, BlockTable.places_of_row_nil hrow]
  | some blocks =>
    have hrow : m.row requestId = blocks := by simp [row, h]
    simp [Dict.share, h, table, hrow]

/-- The places of the other requests are what they were. -/
theorem AgreesOff.places_off {requestId : RequestId} {m m' : SingleTypeKVCacheManager H}
    (h : AgreesOff requestId m m') :
    Dict.total (fun r row =>
        ({ m'.table r with row := row } : BlockTable).places m'.kvCacheGroupId r)
        (m'.reqToBlocks.erase requestId) =
      Dict.total (fun r row =>
        ({ m.table r with row := row } : BlockTable).places m.kvCacheGroupId r)
        (m.reqToBlocks.erase requestId) := by
  rw [h.tables_eq, h.groupId_eq]
  refine Dict.total_erase_congr _ fun r row hr => ?_
  rw [h.table_eq hr]

end SingleTypeKVCacheManager

/-- A change of the pool and of one request's table, in elementary steps. -/
structure ManagerSteps (G : TableGuard H) (requestId : RequestId) (p : BlockPool H)
    (m : SingleTypeKVCacheManager H) (p' : BlockPool H) (m' : SingleTypeKVCacheManager H) :
    Prop where
  agrees : m.AgreesOff requestId m'
  steps : Relation.ReflTransGen (TableStep G m.kvCacheSpec m.kvCacheGroupId)
    (p, m.table requestId) (p', m'.table requestId)

namespace ManagerSteps

variable {G : TableGuard H} {requestId : RequestId} {p p' p'' : BlockPool H}
  {m m' m'' : SingleTypeKVCacheManager H}

theorem refl (G : TableGuard H) (requestId : RequestId) (p : BlockPool H)
    (m : SingleTypeKVCacheManager H) : ManagerSteps G requestId p m p m :=
  ⟨.refl requestId m, .refl⟩

theorem trans (h : ManagerSteps G requestId p m p' m')
    (h' : ManagerSteps G requestId p' m' p'' m'') : ManagerSteps G requestId p m p'' m'' := by
  refine ⟨h.agrees.trans h'.agrees, h.steps.trans ?_⟩
  have hsteps := h'.steps
  rwa [h.agrees.spec_eq, h.agrees.groupId_eq] at hsteps

end ManagerSteps

/-- A property of one table, in view of its group's spec and id and its request. -/
abbrev TableProp := KVCacheSpec → Nat → RequestId → BlockTable → Prop

/-- All tables of a group have a property. -/
def TablesHold (L : TableProp) (m : SingleTypeKVCacheManager H) : Prop :=
  ∀ requestId, L m.kvCacheSpec m.kvCacheGroupId requestId (m.table requestId)

/-- Every elementary step for a request keeps a property of the request's tables and an
invariant of the pool and all places. -/
def StepsKeep (G : TableGuard H) (L : TableProp) (I : BlockPool H → Multiset Position → Prop)
    (requestId : RequestId) : Prop :=
  ∀ spec groupId p t p' t' X, TableStep G spec groupId (p, t) (p', t') →
    L spec groupId requestId t → I p (t.places groupId requestId + X) →
    L spec groupId requestId t' ∧ I p' (t'.places groupId requestId + X)

namespace StepsKeep

variable {G : TableGuard H} {L : TableProp} {I : BlockPool H → Multiset Position → Prop}
  {requestId : RequestId}

/-- Several steps keep what one step keeps. -/
theorem steps (hk : StepsKeep G L I requestId) {spec : KVCacheSpec} {groupId : Nat}
    {s s' : BlockPool H × BlockTable} {X : Multiset Position}
    (h : Relation.ReflTransGen (TableStep G spec groupId) s s')
    (hl : L spec groupId requestId s.2) (hi : I s.1 (s.2.places groupId requestId + X)) :
    L spec groupId requestId s'.2 ∧ I s'.1 (s'.2.places groupId requestId + X) := by
  induction h with
  | refl => exact ⟨hl, hi⟩
  | tail _ hstep ih => exact hk _ _ _ _ _ _ _ hstep ih.1 ih.2

/-- An operation of a manager keeps what its steps keep. -/
theorem manager (hk : StepsKeep G L I requestId) {p p' : BlockPool H}
    {m m' : SingleTypeKVCacheManager H} {X : Multiset Position}
    (h : ManagerSteps G requestId p m p' m') (hl : TablesHold L m) (hi : I p (m.places + X)) :
    TablesHold L m' ∧ I p' (m'.places + X) := by
  rw [m.places_eq_add requestId, add_assoc] at hi
  obtain ⟨hl', hi'⟩ := hk.steps h.steps (hl requestId) hi
  constructor
  · intro r
    rw [h.agrees.spec_eq, h.agrees.groupId_eq]
    by_cases hr : r = requestId
    · exact hr ▸ hl'
    · rw [h.agrees.table_eq hr]
      exact hl r
  · rwa [m'.places_eq_add requestId, h.agrees.places_off, h.agrees.groupId_eq, add_assoc]

/-- A pass of the coordinator over its managers keeps what the steps keep. -/
theorem pass {β : Type} (hk : StepsKeep G L I requestId)
    {f : BlockPool H → SingleTypeKVCacheManager H → Except KVCacheError (BlockPool H × β)}
    (out : β → SingleTypeKVCacheManager H)
    {ms : List (SingleTypeKVCacheManager H)} (hf : ∀ p m p' b X, m ∈ ms → TablesHold L m →
      I p (m.places + X) → f p m = .ok (p', b) → ManagerSteps G requestId p m p' (out b))
    {p p' : BlockPool H} {bs : List β} (hl : ∀ m ∈ ms, TablesHold L m)
    (hi : I p (ms.map (·.places)).sum) (hrun : mapAccum f p ms = .ok (p', bs)) :
    (∀ m ∈ bs.map out, TablesHold L m) ∧ I p' ((bs.map out).map (·.places)).sum := by
  have hstep (p : BlockPool H) (m : SingleTypeKVCacheManager H) (X : Multiset Position)
      (p' : BlockPool H) (b : β) (hl : m ∈ ms ∧ TablesHold L m) (hi : I p (m.places + X))
      (hb : f p m = .ok (p', b)) : TablesHold L (out b) ∧ I p' ((out b).places + X) :=
    hk.manager (hf p m p' b X hl.1 hl.2 hi hb) hl.2 hi
  have hrun' := mapAccum_invariant hstep (x := 0) (fun m hm => ⟨hm, hl m hm⟩)
    (by simpa using hi) hrun
  simpa [Function.comp_def] using hrun'

end StepsKeep

end Vllm
