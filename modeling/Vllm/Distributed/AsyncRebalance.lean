import Vllm.Library.Checked
import Mathlib.Logic.Function.Basic

/-!
# Asynchronous expert rebalancing

The main thread starts a rearrangement and moves transferred layers from the buffer to the
workspace; a background thread computes the new map of a model and transfers its layers one by
one. Both are modelled statement by statement, as far as they touch fields that the other reads.
The events that only order work on the device are left out, and the tables that are computed
with the new physical map go along with it. A map gives each layer a row of type `R`.
-/

namespace Vllm.Distributed

variable {R : Type}

/-- The threads of a rank. -/
inductive EplbThread where
  | main
  | worker
  deriving DecidableEq, Repr

/-- The parameters of a rank. -/
structure EplbConfig (R : Type) where
  numModels : Nat
  numMoeLayers : Nat → Nat
  expertRearrangementStepInterval : Nat
  /-- `policy.rebalance_experts` for a model, on the load window of its rearrangement of that
  number and on its physical map. -/
  rebalanceExperts : Nat → Nat → (Nat → R) → Nat → R

/-- A layer moved by `move_from_buffer`, with the row of the new map and what was in the buffer:
the layer it was filled for and the row of the new map. -/
structure LayerMove (R : Type) where
  layer : Nat
  newIndices : Option R
  buffer : Option (Nat × R)

/-- `EplbModelState`. -/
structure EplbModelState (R : Type) where
  bufferLock : Option EplbThread := none
  epBufferReady : Bool := false
  layerToTransfer : Nat := 0
  rebalanced : Bool := false
  pendingGlobalReadyCheck : Bool := false
  /-- The number of the rearrangement whose load window is kept. -/
  eplbStats : Option Nat := none
  windowReadyEvent : Bool := false
  physicalToLogicalMap : Nat → R
  newPhysicalToLogicalMap : Option (Nat → R) := none
  expertBuffer : Option (Nat × R) := none
  /-- How many rearrangements were started. -/
  generation : Nat := 0
  /-- The physical map at the start of each rearrangement. -/
  startMaps : Nat → Nat → R := fun _ => physicalToLogicalMap
  /-- The layers that each rearrangement moved, in order. -/
  moves : Nat → List (LayerMove R) := fun _ => []

/-! ## The main thread -/

/-- The statements of `move_to_workspace`. -/
inductive MoveStmt where
  | acquire
  | moveFromBuffer
  | updateLayerMapping
  | advanceLayer
  | resetReady
  | lastLayerTest
  | postEplb
  | resetRebalanced
  | resetLayer
  | resetPending
  | release
  deriving DecidableEq, Repr

/-- The statements of `rearrange` for a model, in the asynchronous branch. -/
inductive RearrangeStmt where
  | setStats
  | setWindowReady
  | setRebalanced
  | setLayer
  | setPending
  deriving DecidableEq, Repr

/-- Where the main thread is: between two calls of `step`, or at a statement. -/
inductive MainPc where
  | between
  /-- `_all_ranks_buffer_ready` for a model, if its check is pending. -/
  | readyCheck (i : Nat)
  | readyTest (i : Nat) (allRanksBufferReady : Bool)
  | move (i : Nat) (stmt : MoveStmt)
  /-- The test for the next rearrangement. -/
  | stepTest
  | rearrange (i : Nat) (stmt : RearrangeStmt)
  /-- `rearrange_event.set()`. -/
  | setEvent
  /-- An exception ended the thread. -/
  | raised
  deriving DecidableEq, Repr

/-- What a statement of `move_to_workspace` does to its model. -/
def EplbModelState.moveStmt (m : EplbModelState R) : MoveStmt → EplbModelState R
  | .acquire => { m with bufferLock := some .main }
  | .moveFromBuffer => { m with
      moves := Function.update m.moves m.generation (m.moves m.generation ++
        [⟨m.layerToTransfer, m.newPhysicalToLogicalMap.map (· m.layerToTransfer),
          m.expertBuffer⟩]) }
  | .updateLayerMapping =>
    match m.newPhysicalToLogicalMap with
    | some newMap => { m with
        physicalToLogicalMap :=
          Function.update m.physicalToLogicalMap m.layerToTransfer (newMap m.layerToTransfer) }
    | none => m
  | .advanceLayer => { m with layerToTransfer := m.layerToTransfer + 1 }
  | .resetReady => { m with epBufferReady := false }
  | .lastLayerTest => m
  | .postEplb => { m with newPhysicalToLogicalMap := none }
  | .resetRebalanced => { m with rebalanced := false }
  | .resetLayer => { m with layerToTransfer := 0 }
  | .resetPending => { m with pendingGlobalReadyCheck := false }
  | .release => { m with bufferLock := none }

/-- The statement behind a statement of `move_to_workspace`. -/
def MoveStmt.next (numMoeLayers : Nat) (m : EplbModelState R) : MoveStmt → Option MoveStmt
  | .acquire => some .moveFromBuffer
  | .moveFromBuffer => some .updateLayerMapping
  | .updateLayerMapping => some .advanceLayer
  | .advanceLayer => some .resetReady
  | .resetReady => some .lastLayerTest
  | .lastLayerTest => some (if m.layerToTransfer ≥ numMoeLayers then .postEplb else .release)
  | .postEplb => some .resetRebalanced
  | .resetRebalanced => some .resetLayer
  | .resetLayer => some .resetPending
  | .resetPending => some .release
  | .release => none

/-- What a statement of `rearrange` does to its model. -/
def EplbModelState.rearrangeStmt (m : EplbModelState R) : RearrangeStmt → EplbModelState R
  | .setStats => { m with
      eplbStats := some (m.generation + 1)
      generation := m.generation + 1
      startMaps := Function.update m.startMaps (m.generation + 1) m.physicalToLogicalMap }
  | .setWindowReady => { m with windowReadyEvent := true }
  | .setRebalanced => { m with rebalanced := true }
  | .setLayer => { m with layerToTransfer := 0 }
  | .setPending => { m with pendingGlobalReadyCheck := true }

/-- The statement behind a statement of `rearrange`. -/
def RearrangeStmt.next : RearrangeStmt → Option RearrangeStmt
  | .setStats => some .setWindowReady
  | .setWindowReady => some .setRebalanced
  | .setRebalanced => some .setLayer
  | .setLayer => some .setPending
  | .setPending => none

/-! ## The background thread -/

/-- The statements of the loop over the layers of a model. -/
inductive LoopStmt (R : Type) where
  | whileTest
  /-- `if not ep_buffer_ready and rebalanced`. -/
  | flagTest
  | acquire
  | layerTest
  | breakRelease
  | mapTest
  | copyMap
  | assertStats
  | assertWindow (eplbStats : Nat)
  | clearWindow (eplbStats : Nat)
  | rebalance (eplbStats : Nat)
  | assertMaps
  | readLayer
  | transferLayer (layerIdx : Nat) (oldLayerIndices newLayerIndices : R)
  | setReady
  | release
  | elseTest

/-- The loop over the layers of a model, with its local variables. -/
structure LayerLoop (R : Type) where
  model : Nat
  rebalancingAlgorithmExecuted : Bool := false
  physicalToLogicalMapCpu : Option (Nat → R) := none
  stmt : LoopStmt R := .whileTest

/-- Where the background thread is. -/
inductive WorkerPc (R : Type) where
  /-- `rearrange_event.wait`. -/
  | wait
  | nextModel (i : Nat)
  | loop (l : LayerLoop R)
  /-- `rearrange_event.clear()`. -/
  | clear
  /-- An exception ended the thread. -/
  | failed

/-- Go on with another statement of the loop. -/
def LayerLoop.goto (l : LayerLoop R) (stmt : LoopStmt R) : WorkerPc R := .loop { l with stmt }

/-- An exception in the loop releases the lock and ends the thread. -/
def EplbModelState.fail (m : EplbModelState R) : EplbModelState R × WorkerPc R :=
  ({ m with bufferLock := none }, .failed)

/-- One statement of the loop over the layers, unless the lock is taken. -/
def LayerLoop.step (config : EplbConfig R) (l : LayerLoop R) (m : EplbModelState R) :
    Option (EplbModelState R × WorkerPc R) :=
  match l.stmt with
  | .whileTest => some (m,
      if m.rebalanced ∧ m.layerToTransfer < config.numMoeLayers l.model then l.goto .flagTest
      else .nextModel (l.model + 1))
  | .flagTest => some (m,
      if !m.epBufferReady ∧ m.rebalanced then l.goto .acquire else l.goto .elseTest)
  | .acquire =>
    if m.bufferLock = none then some ({ m with bufferLock := some .worker }, l.goto .layerTest)
    else none
  | .layerTest => some (m,
      if m.layerToTransfer ≥ config.numMoeLayers l.model then l.goto .breakRelease
      else l.goto .mapTest)
  | .breakRelease => some ({ m with bufferLock := none }, .nextModel (l.model + 1))
  | .mapTest => some (m,
      if !l.rebalancingAlgorithmExecuted ∨ m.newPhysicalToLogicalMap.isNone then l.goto .copyMap
      else l.goto .assertMaps)
  | .copyMap => some (m, .loop { l with
      physicalToLogicalMapCpu := some m.physicalToLogicalMap, stmt := .assertStats })
  | .assertStats =>
    match m.eplbStats with
    | some eplbStats => some (m, l.goto (.assertWindow eplbStats))
    | none => some m.fail
  | .assertWindow eplbStats =>
    if m.windowReadyEvent then some (m, l.goto (.clearWindow eplbStats)) else some m.fail
  | .clearWindow eplbStats =>
    some ({ m with windowReadyEvent := false }, l.goto (.rebalance eplbStats))
  | .rebalance eplbStats =>
    match l.physicalToLogicalMapCpu with
    | some cpuMap =>
      let newMap := config.rebalanceExperts l.model eplbStats cpuMap
      some ({ m with newPhysicalToLogicalMap := some newMap },
        .loop { l with rebalancingAlgorithmExecuted := true, stmt := .assertMaps })
    | none => some m.fail
  | .assertMaps =>
    if m.newPhysicalToLogicalMap.isSome ∧ l.physicalToLogicalMapCpu.isSome then
      some (m, l.goto .readLayer)
    else some m.fail
  | .readLayer =>
    match m.newPhysicalToLogicalMap, l.physicalToLogicalMapCpu with
    | some newMap, some cpuMap => some (m, l.goto (.transferLayer m.layerToTransfer
        (cpuMap m.layerToTransfer) (newMap m.layerToTransfer)))
    | _, _ => some m.fail
  | .transferLayer layerIdx _ newLayerIndices =>
    some ({ m with expertBuffer := some (layerIdx, newLayerIndices) }, l.goto .setReady)
  | .setReady => some ({ m with epBufferReady := true }, l.goto .release)
  | .release => some ({ m with bufferLock := none }, l.goto .whileTest)
  | .elseTest => some (m,
      if !m.rebalanced then .nextModel (l.model + 1) else l.goto .whileTest)

/-! ## The rank -/

/-- `EplbState`, with the places of both threads. -/
structure EplbState (R : Type) where
  main : MainPc := .between
  worker : WorkerPc R := .wait
  rearrangeEvent : Bool := false
  expertRearrangementStep : Nat := 0
  models : Nat → EplbModelState R

namespace EplbState

variable (config : EplbConfig R) (s : EplbState R)

/-- Some model is still rebalanced. -/
def anyRebalanced : Bool := (List.range config.numModels).any fun i => (s.models i).rebalanced

/-- One statement of `move_to_workspace`. It asserts a new map at its start and in
`post_eplb`. -/
def moveStep (i : Nat) (stmt : MoveStmt) : Except Unit (EplbState R) :=
  let m := s.models i
  if stmt = .acquire ∧ m.bufferLock ≠ none then .error ()
  else if (stmt = .moveFromBuffer ∨ stmt = .postEplb) ∧ m.newPhysicalToLogicalMap.isNone then
    .ok { s with
      main := .raised, models := Function.update s.models i { m with bufferLock := none } }
  else .ok { s with
    main := match stmt.next (config.numMoeLayers i) m with
      | some stmt => .move i stmt
      | none => .readyCheck (i + 1)
    models := Function.update s.models i (m.moveStmt stmt) }

/-- One statement of `rearrange`. -/
def rearrangeStep (i : Nat) (stmt : RearrangeStmt) : EplbState R :=
  { s with
    main := match stmt.next with
      | some stmt => .rearrange i stmt
      | none => if i + 1 < config.numModels then .rearrange (i + 1) .setStats else .setEvent
    models := Function.update s.models i ((s.models i).rearrangeStmt stmt) }

/-- One statement of the main thread, which calls `step` over and over. -/
def mainStep : Except Unit (EplbState R) :=
  match s.main with
  | .between => .ok { s with
      main := .readyCheck 0, expertRearrangementStep := s.expertRearrangementStep + 1 }
  | .readyCheck i => .ok { s with
      main := if i < config.numModels then
        .readyTest i ((s.models i).pendingGlobalReadyCheck && (s.models i).epBufferReady)
        else .stepTest }
  | .readyTest i allRanksBufferReady => .ok { s with
      main := if (s.models i).epBufferReady ∧ allRanksBufferReady then .move i .acquire
        else .readyCheck (i + 1) }
  | .move i stmt => s.moveStep config i stmt
  | .stepTest =>
    if s.expertRearrangementStep ≥ config.expertRearrangementStepInterval ∧
        !s.anyRebalanced config then
      .ok { s with
        expertRearrangementStep := 0
        main := if config.numModels = 0 then .raised else .rearrange 0 .setStats }
    else .ok { s with main := .between }
  | .rearrange i stmt => .ok (s.rearrangeStep config i stmt)
  | .setEvent => .ok { s with rearrangeEvent := true, main := .between }
  | .raised => .error ()

/-- One statement of the background thread. -/
def workerStep : Except Unit (EplbState R) :=
  match s.worker with
  | .wait => if s.rearrangeEvent then .ok { s with worker := .nextModel 0 } else .error ()
  | .nextModel i => .ok { s with
      worker := if i < config.numModels then .loop { model := i } else .clear }
  | .loop l =>
    match l.step config (s.models l.model) with
    | some (m, worker) => .ok { s with worker, models := Function.update s.models l.model m }
    | none => .error ()
  | .clear => .ok { s with rearrangeEvent := false, worker := .wait }
  | .failed => .error ()

/-- One statement of a thread; a thread that waits, or has ended, cannot take one. -/
def step : EplbThread → Except Unit (EplbState R)
  | .main => s.mainStep config
  | .worker => s.workerStep config

/-- The state at the start, with the physical maps of the models. -/
def init (maps : Nat → Nat → R) : EplbState R where
  models := fun i => { physicalToLogicalMap := maps i }

end EplbState

end Vllm.Distributed
