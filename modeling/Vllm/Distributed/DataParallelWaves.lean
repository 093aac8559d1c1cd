import Mathlib.Algebra.GroupWithZero.Nat
import Mathlib.Data.List.Basic
import Mathlib.Logic.Function.Basic
import Vllm.Library.TotalRun

/-!
# Waves of data-parallel engines

The engines of a data-parallel deployment run and pause together: a forward pass and the
all-reduce over the unfinished requests take part on every engine. Front ends send requests
to single engines, and tell the coordinator when they believe that the engines are paused;
the coordinator then wakes the engines. A wave number, counted up at every pause, tells
stale messages from current ones. Messages are kept in one bag, from which any of them may
arrive next.

A broadcast names an engine that need not be woken. Front ends name it by its socket
identity, which the coordinator passes on, and engines compare the name with their index:
only the broadcasts that answer an engine's own report leave an engine out.
-/

namespace Vllm.Distributed.Waves

variable {n m : Nat}

/-- A data-parallel engine: the part of `DPEngineCoreProc` that takes part in the waves. -/
structure EngineState where
  /-- Forward passes of this wave. -/
  stepCounter : Nat := 0
  currentWave : Nat := 0
  enginesRunning : Bool := false
  /-- The unfinished requests of the scheduler. -/
  unfinished : Nat := 0
  deriving DecidableEq, Repr

/-- `EngineCoreProc.has_work` -/
def EngineState.hasWork (e : EngineState) : Bool := e.enginesRunning || decide (0 < e.unfinished)

/-- The coordinator's view of the engines. -/
structure Coordinator where
  currentWave : Nat := 0
  enginesRunning : Bool := false
  deriving DecidableEq, Repr

/-- A front end's view of the engines. -/
structure Client where
  currentWave : Nat := 0
  enginesRunning : Bool := false
  deriving DecidableEq, Repr

/-- How a broadcast names an engine: by the identity bytes of its socket or by its index. -/
inductive EngineName (n : Nat) where
  | identity (engine : Fin (n + 1))
  | index (engine : Fin (n + 1))
  deriving DecidableEq, Repr

/-- A message on its way between front ends, coordinator and engines. -/
inductive Message (n m : Nat) where
  /-- `ADD`, with `request.current_wave`, to an engine. -/
  | add (engine : Fin (n + 1)) (wave : Nat)
  /-- `("FIRST_REQ", chosen_engine)`, inside a front end. -/
  | firstReq (client : Fin m) (engine : Fin (n + 1))
  /-- `(target_eng_index, self.current_wave)`, to the coordinator. -/
  | notify (engine : Fin (n + 1)) (wave : Nat)
  /-- `(counts, current_wave, engines_running)`, to a front end. -/
  | published (client : Fin m) (wave : Nat) (running : Bool)
  /-- `START_DP_WAVE`, to an engine. -/
  | startDpWave (engine : Fin (n + 1)) (wave : Nat) (exclude : Option (EngineName n))
  /-- `EngineCoreOutputs(start_wave=...)`, to the coordinator. -/
  | startWave (engine : Fin (n + 1)) (wave : Nat)
  /-- `EngineCoreOutputs(wave_complete=...)`, to the coordinator. -/
  | waveComplete (wave : Nat)
  deriving DecidableEq, Repr

/-- All parties, and the messages on their way. -/
structure System (n m : Nat) where
  engines : Fin (n + 1) → EngineState
  coordinator : Coordinator
  clients : Fin m → Client
  net : List (Message n m)

/-- The state after start-up. -/
def System.start (n m : Nat) : System n m := ⟨fun _ => {}, {}, fun _ => {}, []⟩

/-! ## Engines -/

/-- `DPEngineCoreProc.add_request`, with a coordinator: the engine and what it sends. -/
def addRequest (i : Fin (n + 1)) (e : EngineState) (requestWave : Nat) :
    EngineState × List (Message n m) :=
  let e := { e with unfinished := e.unfinished + 1 }
  if requestWave ≠ e.currentWave then
    if e.currentWave < requestWave then ({ e with currentWave := requestWave }, [])
    -- A request for a completed wave: the next one must be started.
    else if !e.enginesRunning then (e, [.startWave i e.currentWave])
    else (e, [])
  else (e, [])

/-- The branch of `DPEngineCoreProc._handle_client_request` for `START_DP_WAVE`. Identity bytes
never equal `self.engine_index`. -/
def handleStartDpWave (i : Fin (n + 1)) (e : EngineState) (newWave : Nat)
    (excludeEngIndex : Option (EngineName n)) : EngineState :=
  if excludeEngIndex ≠ some (.index i) ∧ e.currentWave ≤ newWave then
    { e with currentWave := newWave, enginesRunning := true }
  else e

/-- `DPEngineCoreProc._has_global_unfinished_reqs`: the all-reduce joins the engines only in
every 32nd step. -/
def hasGlobalUnfinishedReqs (stepCounter : Nat) (anyUnfinished : Bool) : Bool :=
  if stepCounter % 32 ≠ 0 then true else anyUnfinished

/-- The part of `DPEngineCoreProc.run_busy_loop` behind a forward pass. -/
def finishPass (e : EngineState) (finished : Nat) (anyUnfinished : Bool) : EngineState :=
  let e := { e with unfinished := e.unfinished - finished, stepCounter := e.stepCounter + 1 }
  if hasGlobalUnfinishedReqs e.stepCounter anyUnfinished then { e with enginesRunning := true }
  else { e with enginesRunning := false, currentWave := e.currentWave + 1, stepCounter := 0 }

/-! ## Coordinator -/

/-- `DPCoordinatorProc._send_start_wave`: every engine receives the broadcast. -/
def sendStartWave (wave : Nat) (exclude : Option (EngineName n)) : List (Message n m) :=
  (List.finRange (n + 1)).map fun i => .startDpWave i wave exclude

/-- What is published to every front end. -/
def publish (c : Coordinator) : List (Message n m) :=
  (List.finRange m).map fun client => .published client c.currentWave c.enginesRunning

/-- The coordinator's reaction to a front end, which names the engine by its identity: its new
state, what it sends, and `wave_state_changed`. -/
def handleFront (c : Coordinator) (engine : Fin (n + 1)) (wave : Nat) :
    Coordinator × List (Message n m) × Bool :=
  if c.enginesRunning then (c, [], false)
  else
    let exclude := if wave < c.currentWave then none else some (.identity engine)
    ({ c with enginesRunning := true }, sendStartWave c.currentWave exclude, true)

/-- The coordinator's reaction to `start_wave` from an engine. -/
def handleStartWave (c : Coordinator) (engine : Fin (n + 1)) (wave : Nat) :
    Coordinator × List (Message n m) × Bool :=
  if c.currentWave < wave ∨ wave = c.currentWave ∧ !c.enginesRunning then
    (⟨wave, true⟩, sendStartWave wave (some (.index engine)), true)
  else (c, [], false)

/-- The coordinator's reaction to `wave_complete` from engine zero. -/
def handleWaveComplete (c : Coordinator) (wave : Nat) :
    Coordinator × List (Message n m) × Bool :=
  if c.currentWave ≤ wave then (⟨wave + 1, false⟩, [], true) else (c, [], false)

/-! ## Steps of the system -/

/-- What the coordinator may receive from an engine. -/
inductive BackMessage (n : Nat) where
  | startWave (engine : Fin (n + 1)) (wave : Nat)
  | waveComplete (wave : Nat)
  deriving DecidableEq, Repr

/-- The message in the bag. -/
def BackMessage.toMessage : BackMessage n → Message n m
  | .startWave engine wave => .startWave engine wave
  | .waveComplete wave => .waveComplete wave

/-- What may happen next. -/
inductive Action (n m : Nat) where
  /-- `add_request_async` of a front end. -/
  | addRequestAsync (client : Fin m) (engine : Fin (n + 1))
  /-- The stats task of a front end forwards a `FIRST_REQ`. -/
  | forwardFirstReq (client : Fin m) (engine : Fin (n + 1))
  /-- The stats task of a front end takes in a published state. -/
  | takePublished (client : Fin m) (wave : Nat) (running : Bool)
  /-- An engine receives a request. -/
  | addRequest (engine : Fin (n + 1)) (wave : Nat)
  /-- An engine receives `START_DP_WAVE`. -/
  | startDpWave (engine : Fin (n + 1)) (wave : Nat) (exclude : Option (EngineName n))
  /-- An engine drops an unfinished request that was aborted. -/
  | abort (engine : Fin (n + 1))
  /-- A forward pass of all engines, with the number of requests that each one finishes. -/
  | pass (finished : Fin (n + 1) → Nat)
  /-- One turn of the coordinator, with what it receives from both sides. -/
  | poll (front : Option (Fin (n + 1) × Nat)) (back : Option (BackMessage n))
  /-- The coordinator publishes on a time-out. -/
  | publish

namespace System

/-- Replace an engine and send messages. -/
def setEngine (s : System n m) (i : Fin (n + 1)) (e : EngineState)
    (sent : List (Message n m)) : System n m :=
  { s with engines := Function.update s.engines i e, net := s.net ++ sent }

/-- Take a message out of the bag. -/
def receive (s : System n m) (msg : Message n m) : System n m :=
  { s with net := s.net.erase msg }

/-- Replace the coordinator and send messages. -/
def setCoordinator (s : System n m) (r : Coordinator × List (Message n m) × Bool) : System n m :=
  { s with coordinator := r.1, net := s.net ++ r.2.1 }

/-- `add_request_async`: the request carries the wave that the front end knows of. -/
def addRequestAsync (s : System n m) (client : Fin m) (engine : Fin (n + 1)) : System n m :=
  { s with net := s.net ++ .add engine (s.clients client).currentWave ::
      if (s.clients client).enginesRunning then [] else [.firstReq client engine] }

/-- The branch of `run_engine_stats_update_task` that forwards a `FIRST_REQ`: it carries the
wave that the front end knows of by then. -/
def forwardFirstReq (s : System n m) (client : Fin m) (engine : Fin (n + 1)) : System n m :=
  { s with
    clients := Function.update s.clients client
      { s.clients client with enginesRunning := true }
    net := s.net.erase (.firstReq client engine) ++
      [.notify engine (s.clients client).currentWave] }

/-- The branch of `run_engine_stats_update_task` that takes in a published state. -/
def takePublished (s : System n m) (client : Fin m) (wave : Nat) (running : Bool) :
    System n m :=
  { s with
    clients := Function.update s.clients client ⟨wave, running⟩
    net := s.net.erase (.published client wave running) }

/-- A forward pass of all engines and what follows it. Only engine zero reports a pause. -/
def pass (s : System n m) (finished : Fin (n + 1) → Nat) : System n m :=
  let anyUnfinished := (List.finRange (n + 1)).any fun i =>
    decide (finished i < (s.engines i).unfinished)
  { s with
    engines := fun i => finishPass (s.engines i) (finished i) anyUnfinished
    net := s.net ++
      if hasGlobalUnfinishedReqs ((s.engines ⟨0, n.succ_pos⟩).stepCounter + 1) anyUnfinished then []
      else [.waveComplete (s.engines ⟨0, n.succ_pos⟩).currentWave] }

/-- The coordinator handles a message of a front end. -/
def pollFront (s : System n m) (engine : Fin (n + 1)) (wave : Nat) : System n m × Bool :=
  let r := handleFront (m := m) s.coordinator engine wave
  ((s.receive (.notify engine wave)).setCoordinator r, r.2.2)

/-- The coordinator handles a message of an engine. -/
def pollBack (s : System n m) (msg : BackMessage n) : System n m × Bool :=
  let r := match msg with
    | .startWave engine wave => handleStartWave (m := m) s.coordinator engine wave
    | .waveComplete wave => handleWaveComplete s.coordinator wave
  ((s.receive msg.toMessage).setCoordinator r, r.2.2)

/-- The front half of a turn of `DPCoordinatorProc.process_input_socket`. -/
def receiveFront (s : System n m) : Option (Fin (n + 1) × Nat) → System n m × Bool
  | none => (s, false)
  | some (engine, wave) => s.pollFront engine wave

/-- The back half of a turn of `DPCoordinatorProc.process_input_socket`. -/
def receiveBack (s : System n m) : Option (BackMessage n) → System n m × Bool
  | none => (s, false)
  | some msg => s.pollBack msg

/-- One turn of `DPCoordinatorProc.process_input_socket`: front ends first, then engines,
then the new state is published if it changed. -/
def poll (s : System n m) (front : Option (Fin (n + 1) × Nat))
    (back : Option (BackMessage n)) : System n m :=
  let r := s.receiveFront front
  let r' := r.1.receiveBack back
  if r.2 || r'.2 then { r'.1 with net := r'.1.net ++ publish r'.1.coordinator } else r'.1

/-- Whether an action can be taken: its message is there, and a pass needs all engines. -/
def Enabled (s : System n m) : Action n m → Prop
  | .addRequestAsync .. => True
  | .forwardFirstReq client engine => .firstReq client engine ∈ s.net
  | .takePublished client wave running => .published client wave running ∈ s.net
  | .addRequest engine wave => .add engine wave ∈ s.net
  | .startDpWave engine wave exclude => .startDpWave engine wave exclude ∈ s.net
  | .abort engine => 0 < (s.engines engine).unfinished
  | .pass _ => ∀ i, (s.engines i).hasWork = true
  | .poll front back =>
    (∀ f ∈ front, .notify f.1 f.2 ∈ s.net) ∧ ∀ msg ∈ back, msg.toMessage ∈ s.net
  | .publish => True

/-- One step of the system. -/
def step (s : System n m) : Action n m → System n m
  | .addRequestAsync client engine => s.addRequestAsync client engine
  | .forwardFirstReq client engine => s.forwardFirstReq client engine
  | .takePublished client wave running => s.takePublished client wave running
  | .addRequest engine wave =>
    let r := Waves.addRequest (m := m) engine (s.engines engine) wave
    (s.receive (.add engine wave)).setEngine engine r.1 r.2
  | .startDpWave engine wave exclude =>
    (s.receive (.startDpWave engine wave exclude)).setEngine engine
      (handleStartDpWave engine (s.engines engine) wave exclude) []
  | .abort engine =>
    s.setEngine engine
      { s.engines engine with unfinished := (s.engines engine).unfinished - 1 } []
  | .pass finished => s.pass finished
  | .poll front back => s.poll front back
  | .publish => { s with net := s.net ++ publish s.coordinator }

/-- The wave of the engines. -/
def wave (s : System n m) : Nat := (s.engines ⟨0, n.succ_pos⟩).currentWave

/-- The coordinator knows of the wave. -/
def Known (s : System n m) : Prop := s.coordinator.currentWave = s.wave

/-- The coordinator has started the wave. -/
def Started (s : System n m) : Prop := s.Known ∧ s.coordinator.enginesRunning = true

end System

/-- A broadcast of the wave to an engine that does not leave it out. -/
def Message.Wakes (i : Fin (n + 1)) (wave : Nat) : Message n m → Prop
  | .startDpWave engine w exclude => engine = i ∧ w = wave ∧ exclude ≠ some (.index i)
  | _ => False

namespace System

/-- An engine is left out of the wave: it has reported the wave itself, or the wave has been
started and no message on its way wakes the engine. -/
def LeftOut (s : System n m) (i : Fin (n + 1)) : Prop :=
  .startWave i s.wave ∈ s.net ∨ s.Started ∧ ∀ msg ∈ s.net, ¬ msg.Wakes i s.wave

/-- The orderly steps: an abort does not take the last request of an engine that does not run
and is left out of the wave. -/
def Orderly (s : System n m) : Action n m → Prop
  | .abort engine => (s.engines engine).enginesRunning = true ∨
      1 < (s.engines engine).unfinished ∨ ¬ s.LeftOut engine
  | _ => True

end System

end Vllm.Distributed.Waves
