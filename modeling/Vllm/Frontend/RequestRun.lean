import Vllm.Frontend.OutputProcessor

/-!
# Runs of the front end

Requests are added, those for several completions child by child, outputs of the engine are
processed, requests are aborted, and clients take what there is for them, in any order.
-/

namespace Vllm.Frontend

open Checked OutputProcessor

variable {X : Type}

/-! ## The fan-out -/

/-- The fan-out loop of `add_request`: the next child to add. -/
structure FanOut where
  request : EngineCoreRequest
  prompt : Option String
  queue : Option ReqId
  next : Nat := 0
  deriving DecidableEq, Repr

/-- The front end, with the fan-outs and what the clients have got from each collector. -/
structure FrontendRun (X : Type) where
  processor : OutputProcessor X
  fanOuts : ReqId → Option FanOut
  taken : ReqId → List RequestOutput

/-- A call on the front end. -/
inductive FrontendCall where
  /-- The collector of a request for one completion. -/
  | newQueue (queue : ReqId) (outputKind : RequestOutputKind)
  /-- A request for one completion, or an update of a streaming input. -/
  | addRequest (request : EngineCoreRequest) (prompt : Option String) (queue : Option ReqId)
  /-- The parent of a request for several completions, and its collector. -/
  | startFanOut (request : EngineCoreRequest) (prompt : Option String) (queue : Option ReqId)
  /-- A round of the fan-out loop. -/
  | addChild (parent : ReqId)
  | processOutputs (outputs : List EngineCoreOutput)
  | abortInternal (ids : List ReqId)
  | abortExternal (ids : List ExternalId)
  /-- A client takes what a collector has. -/
  | get (queue : ReqId)
  deriving DecidableEq, Repr

namespace FanOut

/-- The number of children. -/
def n (f : FanOut) : Nat :=
  match f.request.samplingParams with
  | some params => params.n
  | none => 1

/-- The request of a child. -/
def childRequest (f : FanOut) (requestId : ReqId) : EngineCoreRequest :=
  { f.request with
    requestId
    samplingParams := f.request.samplingParams.map fun params => { params with n := 1 } }

/-- A round of the fan-out loop. -/
def addChild (cfg : ProcessorConfig X) (f : FanOut) (s : OutputProcessor X) (parent : ReqId) :
    Except ProcessorError (OutputProcessor X) :=
  let info := (s.parents parent).getChildInfo f.next
  OutputProcessor.addRequest cfg { s with parents := Function.update s.parents parent info.2 }
    (f.childRequest info.1) f.prompt (some parent) f.next f.queue

end FanOut

/-- The id of the parent in that of a child. -/
def ReqId.parent? : ReqId → Option ReqId
  | .request _ => none
  | .child _ p => some p

instance decidableBase (id : ReqId) : Decidable (∀ i p, id ≠ .child i p) :=
  decidable_of_iff (id.parent? = none) (by cases id <;> simp [ReqId.parent?])

/-- An output of a child has no pooled data. -/
def OfKind (output : EngineCoreOutput) : Prop :=
  output.poolingOutput = none ∨ ∀ i p, output.requestId ≠ .child i p

instance (output : EngineCoreOutput) : Decidable (OfKind output) :=
  inferInstanceAs (Decidable (_ ∨ _))

namespace FrontendRun

variable (cfg : ProcessorConfig X)

/-- Before the first request. -/
def init : FrontendRun X where
  processor := .init
  fanOuts := fun _ => none
  taken := fun _ => []

/-- The parent of a fan-out, and its collector. -/
def startFanOut (r : FrontendRun X) (request : EngineCoreRequest) (prompt : Option String)
    (queue : Option ReqId) : Except ProcessorError (FrontendRun X) :=
  match request.samplingParams with
  | none => .error .assertionError
  | some params => .ok { r with
    processor := { r.processor with
      parents := Function.update r.processor.parents request.requestId
        (.new request.requestId request.externalReqId params)
      collectors := match queue with
        | some q => Function.update r.processor.collectors q
          { aggregate := decide (params.outputKind = .delta) }
        | none => r.processor.collectors }
    fanOuts := Function.update r.fanOuts request.requestId (some { request, prompt, queue }) }

/-- A round of the fan-out loop, as long as there is one. -/
def addChild (r : FrontendRun X) (parent : ReqId) : Except ProcessorError (FrontendRun X) :=
  match r.fanOuts parent with
  | none => .ok r
  | some f =>
    if f.next < (r.processor.parents parent).samplingParams.n then do
      let processor ← f.addChild cfg r.processor parent
      pure { r with
        processor
        fanOuts := Function.update r.fanOuts parent (some { f with next := f.next + 1 }) }
    else .ok r

/-- A client takes what a collector has. -/
def get (r : FrontendRun X) (queue : ReqId) : FrontendRun X :=
  { r with
    processor := { r.processor with
      collectors := Function.update r.processor.collectors queue
        { r.processor.collectors queue with output := none } }
    taken := Function.update r.taken queue
      (r.taken queue ++ (r.processor.collectors queue).output.toList) }

/-- A call. -/
def apply (r : FrontendRun X) : FrontendCall → Except ProcessorError (FrontendRun X)
  | .newQueue queue outputKind => .ok { r with
    processor := { r.processor with
      collectors := Function.update r.processor.collectors queue
        { aggregate := decide (outputKind = .delta) } } }
  | .addRequest request prompt queue => do
    let processor ← r.processor.addRequest cfg request prompt none 0 queue
    pure { r with processor }
  | .startFanOut request prompt queue => r.startFanOut request prompt queue
  | .addChild parent => r.addChild cfg parent
  | .processOutputs outputs => do
    let processed ← OutputProcessor.processOutputs cfg r.processor outputs
    pure { r with processor := processed.1 }
  | .abortInternal ids => do
    let aborted ← OutputProcessor.abortInternal cfg recursionLimit r.processor ids
    pure { r with processor := aborted.1 }
  | .abortExternal ids => do
    let aborted ← r.processor.abortExternal cfg ids
    pure { r with processor := aborted.1 }
  | .get queue => .ok (r.get queue)

/-- Internal ids are unique: a request for one completion, or an update of it, does not have the
id of a parent or a child, a parent is new, and each has its own collector, if it has one. A
request that is fanned out is for several completions, and an output of a child has no pooled
data. -/
def Proper (r : FrontendRun X) : FrontendCall → Prop
  | .newQueue queue _ => r.fanOuts queue = none
  | .addRequest request _ queue =>
    r.fanOuts request.requestId = none ∧ (∀ i p, request.requestId ≠ .child i p) ∧
      ∀ q ∈ queue, q = request.requestId
  | .startFanOut request _ queue =>
    r.fanOuts request.requestId = none ∧ (∀ i p, request.requestId ≠ .child i p) ∧
      (∀ q ∈ queue, q = request.requestId ∧ r.taken q = []) ∧
      r.processor.requestStates.get? request.requestId = none ∧ request.resumable = false ∧
      ∀ params ∈ request.samplingParams, 1 < params.n
  | .processOutputs outputs => ∀ output ∈ outputs, OfKind output
  | .addChild _ | .abortInternal _ | .abortExternal _ | .get _ => True

instance (r : FrontendRun X) : ∀ call, Decidable (Proper r call)
  | .newQueue _ _ => inferInstanceAs (Decidable (_ = _))
  | .addRequest _ _ _ => inferInstanceAs (Decidable (_ ∧ _ ∧ _))
  | .startFanOut request _ _ =>
    have : Decidable (r.processor.requestStates.get? request.requestId = none) :=
      decidable_of_iff _ Option.isNone_iff_eq_none
    inferInstanceAs (Decidable (_ ∧ _ ∧ _ ∧ _ ∧ _ ∧ _))
  | .processOutputs _ => inferInstanceAs (Decidable (∀ _ ∈ _, _))
  | .addChild _ | .abortInternal _ | .abortExternal _ | .get _ => inferInstanceAs (Decidable True)

end FrontendRun

/-! ## A request for two completions -/

/-- A front end without a tokenizer. -/
def plainConfig : ProcessorConfig (List TokenId) := ⟨plainDetokenizer, 1⟩

/-- The start of a request for the final output of two completions. -/
def startPair (queue : Option ReqId) : FrontendCall :=
  .startFanOut ⟨.request 1, 1, [5], some ⟨2, .finalOnly⟩, .finalOnly, false⟩ none queue

/-- The end of a child with a token. -/
def endChild (index : Nat) (token : TokenId) : FrontendCall :=
  .processOutputs [{
    requestId := .child index (.request 1), newTokenIds := [token], finishReason := some .stop }]

end Vllm.Frontend
