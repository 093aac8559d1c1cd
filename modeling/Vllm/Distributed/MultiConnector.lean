import Vllm.Core.Request
import Vllm.Library.Checked
import Vllm.Library.Dict

/-!
# Several connectors and workers

A `MultiConnector` hands every request to several sub-connectors, once in the scheduler and
once in each worker; a `KVOutputAggregator` joins the outputs of the workers of one step. What
the sub-connectors answer and report is an input of the model. A Python set is the list of
its elements.
-/

namespace Vllm.Distributed

open Checked

variable {P : Type}

/-- Errors of the connectors and of the aggregator. -/
inductive TransferError where
  /-- "Only one connector can produce KV transfer params". -/
  | severalTransferParams
  /-- `assert extra_pending > 0`. -/
  | noExtraPending
  /-- `assert model_runner_output is not None`. -/
  | noModelRunnerOutput
  | indexError
  deriving DecidableEq, Repr

/-! ## The scheduler side -/

/-- What the `request_finished` of a sub-connector returns. -/
structure SaveOutcome (P : Type) where
  asyncSave : Bool
  txferParams : Option P := none
  deriving DecidableEq, Repr

/-- `MultiKVConnectorMetadata`, apart from the metadata of the sub-connectors. -/
structure MultiKVConnectorMetadata where
  extraAsyncSaves : Option (Dict RequestId Nat) := none

/-- The `MultiConnector` of the scheduler. -/
structure MultiConnectorScheduler where
  /-- Additional remaining saves (beyond 1) to be finished per request. -/
  extraAsyncSaves : Dict RequestId Nat := .empty

namespace MultiConnectorScheduler

/-- The parameters after one more sub-connector: only one may produce them. -/
def addParams (kvTxferParams txferParams : Option P) : Except TransferError (Option P) :=
  match txferParams with
  | none => .ok kvTxferParams
  | some params => do
    ensure (kvTxferParams.isNone = true) .severalTransferParams
    pure (some params)

/-- One pass of the loop of `request_finished`: the saves so far and the parameters. -/
def addOutcome (acc : Nat × Option P) (outcome : SaveOutcome P) :
    Except TransferError (Nat × Option P) := do
  let params ← addParams acc.2 outcome.txferParams
  pure (if outcome.asyncSave then acc.1 + 1 else acc.1, params)

/-- `request_finished`. -/
def requestFinished (s : MultiConnectorScheduler) (requestId : RequestId)
    (outcomes : List (SaveOutcome P)) :
    Except TransferError (MultiConnectorScheduler × Bool × Option P) := do
  let acc ← outcomes.foldlM addOutcome (0, none)
  let s := if 1 < acc.1 then
      { s with extraAsyncSaves := s.extraAsyncSaves.insert requestId (acc.1 - 1) }
    else s
  pure (s, decide (0 < acc.1), acc.2)

/-- `build_connector_meta`. -/
def buildConnectorMeta (s : MultiConnectorScheduler) :
    MultiConnectorScheduler × MultiKVConnectorMetadata :=
  if s.extraAsyncSaves.entries = [] then (s, {})
  else ({ s with extraAsyncSaves := .empty }, { extraAsyncSaves := some s.extraAsyncSaves })

end MultiConnectorScheduler

/-! ## The worker side -/

/-- What the `get_finished` of a sub-connector returns. -/
structure FinishedReport where
  sending : Option (List RequestId) := none
  recving : Option (List RequestId) := none
  deriving DecidableEq, Repr

/-- `finished or None`. -/
def orNone (finished : List RequestId) : Option (List RequestId) :=
  if finished = [] then none else some finished

/-- The `MultiConnector` of a worker. -/
structure MultiConnectorWorker where
  extraAsyncSaves : Dict RequestId Nat := .empty

namespace MultiConnectorWorker

/-- `bind_connector_metadata`. -/
def bindConnectorMetadata (w : MultiConnectorWorker)
    (connectorMetadata : MultiKVConnectorMetadata) : MultiConnectorWorker :=
  match connectorMetadata.extraAsyncSaves with
  | none => w
  | some extra =>
    if extra.entries = [] then w
    else { w with extraAsyncSaves := w.extraAsyncSaves.update extra }

/-- One request that a sub-connector reports as sent: it counts as finished only once the extra
count is drained. -/
def addSending (acc : MultiConnectorWorker × List RequestId) (reqId : RequestId) :
    Except TransferError (MultiConnectorWorker × List RequestId) :=
  match acc.1.extraAsyncSaves.get? reqId with
  | none => .ok (acc.1, acc.2.insert reqId)
  | some extraPending => do
    ensure (0 < extraPending) .noExtraPending
    if extraPending = 1 then
      pure ({ acc.1 with extraAsyncSaves := acc.1.extraAsyncSaves.erase reqId }, acc.2)
    else
      pure ({ acc.1 with
        extraAsyncSaves := acc.1.extraAsyncSaves.insert reqId (extraPending - 1) }, acc.2)

/-- One sub-connector's report in the loop of `get_finished`; an empty one changes nothing. -/
def addReport (acc : MultiConnectorWorker × List RequestId × List RequestId)
    (report : FinishedReport) :
    Except TransferError (MultiConnectorWorker × List RequestId × List RequestId) := do
  let sent ← (report.sending.getD []).foldlM addSending (acc.1, acc.2.1)
  pure (sent.1, sent.2, report.recving.getD [] ∪ acc.2.2)

/-- `get_finished`. -/
def getFinished (w : MultiConnectorWorker) (reports : List FinishedReport) :
    Except TransferError (MultiConnectorWorker × FinishedReport) := do
  let acc ← reports.foldlM addReport (w, [], [])
  pure (acc.1, { sending := orNone acc.2.1, recving := orNone acc.2.2 })

end MultiConnectorWorker

/-! ## The aggregator -/

/-- `KVConnectorOutput`. -/
structure KVConnectorOutput where
  finishedSending : Option (List RequestId) := none
  finishedRecving : Option (List RequestId) := none
  expectedFinishedCount : Nat := 0
  deriving DecidableEq, Repr

/-- `KVOutputAggregator`. -/
structure KVOutputAggregator where
  recvRemainingCount : Dict RequestId Int := .empty
  sendRemainingCount : Dict RequestId Int := .empty
  expectedFinishedCount : Nat

namespace KVOutputAggregator

/-- `from_connector`: `connector.get_finished_count() or world_size`. -/
def fromConnector (getFinishedCount : Option Nat) (worldSize : Nat) : KVOutputAggregator where
  expectedFinishedCount := if getFinishedCount.getD 0 = 0 then worldSize
    else getFinishedCount.getD 0

/-- One request in the loop of `update_finished_set`. -/
def countFinished (expectedFinishedCount : Int) (acc : Dict RequestId Int × List RequestId)
    (reqId : RequestId) : Dict RequestId Int × List RequestId :=
  let remainingCount := (acc.1.get? reqId).getD expectedFinishedCount
  let remainingCountDict := acc.1.insert reqId (remainingCount - 1)
  if remainingCount - 1 = 0 then (remainingCountDict.erase reqId, acc.2.insert reqId)
  else (remainingCountDict, acc.2)

/-- `update_finished_set`. -/
def updateFinishedSet (expectedFinishedCount : Nat) (reqIds : Option (List RequestId))
    (acc : Dict RequestId Int × List RequestId) : Dict RequestId Int × List RequestId :=
  (reqIds.getD []).foldl (countFinished expectedFinishedCount) acc

/-- One worker's output in the loop of `aggregate`, with the sets of this call. -/
def addOutput (acc : KVOutputAggregator × List RequestId × List RequestId)
    (modelRunnerOutput : Option (Option KVConnectorOutput)) :
    Except TransferError (KVOutputAggregator × List RequestId × List RequestId) :=
  match modelRunnerOutput with
  | none => .error .noModelRunnerOutput
  | some none => .ok acc
  | some (some kvOutput) =>
    let expected := if 0 < kvOutput.expectedFinishedCount then kvOutput.expectedFinishedCount
      else acc.1.expectedFinishedCount
    let sent := updateFinishedSet expected kvOutput.finishedSending
      (acc.1.sendRemainingCount, acc.2.1)
    let received := updateFinishedSet expected kvOutput.finishedRecving
      (acc.1.recvRemainingCount, acc.2.2)
    .ok (⟨received.1, sent.1, expected⟩, sent.2, received.2)

/-- `aggregate`: a model runner output is told by its connector output. -/
def aggregate (g : KVOutputAggregator) (outputs : List (Option (Option KVConnectorOutput)))
    (outputRank : Nat) : Except TransferError (KVOutputAggregator × Option KVConnectorOutput) :=
  match outputs[outputRank]? with
  | none => .error .indexError
  | some none => .ok (g, none)
  | some (some _) => do
    let acc ← outputs.foldlM addOutput (g, [], [])
    pure (acc.1, some
      { finishedSending := orNone acc.2.1
        finishedRecving := orNone acc.2.2
        expectedFinishedCount := acc.1.expectedFinishedCount })

end KVOutputAggregator

/-! ## Steps -/

/-- What comes from outside in one step of `n` workers with `c` sub-connectors each. -/
structure TransferStep (P : Type) (n c : Nat) where
  /-- The requests that finish before the step is scheduled, with the answers of the
  sub-connectors. -/
  finished : List (RequestId × (Fin c → SaveOutcome P)) := []
  /-- The requests whose asynchronous load starts with this step. -/
  loads : List RequestId := []
  /-- What the sub-connectors of each worker report. -/
  reports : Fin n → Fin c → FinishedReport

/-- The connectors of the scheduler and of the workers, and the aggregator. -/
structure TransferSystem (n : Nat) where
  scheduler : MultiConnectorScheduler := {}
  workers : Fin n → MultiConnectorWorker := fun _ => {}
  aggregator : KVOutputAggregator

namespace TransferSystem

variable {n c : Nat}

/-- The start: `get_finished_count` is `None`. -/
def init (n : Nat) : TransferSystem n where
  aggregator := .fromConnector none n

/-- One finished request in the scheduler. -/
def finishRequest (s : MultiConnectorScheduler) (f : RequestId × (Fin c → SaveOutcome P)) :
    Except TransferError MultiConnectorScheduler := do
  let r ← s.requestFinished f.1 (List.ofFn f.2)
  pure r.1

/-- One step in one worker: the metadata is bound, then the reports are gathered. -/
def workerStep (w : MultiConnectorWorker) (connectorMetadata : MultiKVConnectorMetadata)
    (reports : Fin c → FinishedReport) :
    Except TransferError (MultiConnectorWorker × KVConnectorOutput) := do
  let r ← (w.bindConnectorMetadata connectorMetadata).getFinished (List.ofFn reports)
  pure (r.1, { finishedSending := r.2.sending, finishedRecving := r.2.recving })

/-- One step: requests finish, the metadata is built and reaches every worker, and the outputs
of the workers are aggregated. -/
def step (outputRank : Nat) (s : TransferSystem n) (a : TransferStep P n c) :
    Except TransferError (TransferSystem n × Option KVConnectorOutput) := do
  let scheduler ← a.finished.foldlM finishRequest s.scheduler
  let built := scheduler.buildConnectorMeta
  let results ← collect fun w => workerStep (s.workers w) built.2 (a.reports w)
  let (aggregator, output) ← s.aggregator.aggregate
    (List.ofFn fun w => some (some (results w).2)) outputRank
  pure (⟨built.1, fun w => (results w).1, aggregator⟩, output)

/-- A run of steps, with the aggregated output of each. -/
def run (outputRank : Nat) (s : TransferSystem n) (steps : List (TransferStep P n c)) :
    Except TransferError (TransferSystem n × List (Option KVConnectorOutput)) :=
  mapAccum (step outputRank) s steps

end TransferSystem

end Vllm.Distributed
