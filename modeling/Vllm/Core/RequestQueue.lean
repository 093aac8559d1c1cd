import Vllm.Core.Request
import Vllm.Library.BinaryHeap

/-!
# Request queues

The queues of waiting requests, under either policy: a deque in order of arrival, or a binary
heap by priority. A queue holds request ids; the heap compares the requests as they are at the
time of the operation.
-/

namespace Vllm

open BinaryHeap

variable {H : Type}

/-- `SchedulingPolicy`. -/
inductive SchedulingPolicy where
  | fcfs
  | priority
  deriving DecidableEq, Repr

/-- `Request.__lt__`: by priority, arrival time and id. -/
def Request.lt (r other : Request H) : Bool :=
  if r.priority ≠ other.priority then r.priority < other.priority
  else if r.arrivalTime ≠ other.arrivalTime then r.arrivalTime < other.arrivalTime
  else r.requestId < other.requestId

namespace RequestQueue

variable (policy : SchedulingPolicy) (lt : RequestId → RequestId → Bool) (queue : List RequestId)

/-- `add_request`. -/
def addRequest (requestId : RequestId) : List RequestId :=
  match policy with
  | .fcfs => queue ++ [requestId]
  | .priority => heappush lt queue requestId

/-- `pop_request`, with the rest of the queue. -/
def popRequest : Option (RequestId × List RequestId) :=
  match policy with
  | .fcfs =>
    match queue with
    | [] => none
    | requestId :: rest => some (requestId, rest)
  | .priority => heappop lt queue

/-- `prepend_request`; a heap has no front to prepend to. -/
def prependRequest (requestId : RequestId) : List RequestId :=
  match policy with
  | .fcfs => requestId :: queue
  | .priority => heappush lt queue requestId

/-- `prepend_requests`: one after another, in the order of the other queue. -/
def prependRequests (requests : List RequestId) : List RequestId :=
  match policy with
  | .fcfs => requests.foldl (fun queue requestId => requestId :: queue) queue
  | .priority => (drain lt requests.length requests).foldl (heappush lt) queue

/-- `remove_requests`. -/
def removeRequests (requests : List RequestId) : List RequestId :=
  match policy with
  | .fcfs => queue.filter (· ∉ requests)
  | .priority => heapify lt (queue.filter (· ∉ requests))

/-! ## Entries -/

variable {policy lt queue}

/-- Adding a request puts it in. -/
theorem addRequest_perm (requestId : RequestId) :
    (addRequest policy lt queue requestId).Perm (requestId :: queue) := by
  cases policy with
  | fcfs => exact List.perm_append_singleton requestId queue
  | priority => exact heappush_perm lt queue requestId

/-- The popped request is the first one, and the others stay. -/
theorem popRequest_eq_some {requestId : RequestId} {rest : List RequestId}
    (h : popRequest policy lt queue = some (requestId, rest)) :
    queue.head? = some requestId ∧ queue.Perm (requestId :: rest) := by
  cases policy with
  | fcfs =>
    cases queue with
    | nil => cases h
    | cons first queue =>
      simp only [popRequest, Option.some.injEq, Prod.mk.injEq] at h
      obtain ⟨rfl, rfl⟩ := h
      exact ⟨rfl, List.Perm.refl _⟩
  | priority => exact heappop_eq_some lt h

/-- Prepending a request puts it in. -/
theorem prependRequest_perm (requestId : RequestId) :
    (prependRequest policy lt queue requestId).Perm (requestId :: queue) := by
  cases policy with
  | fcfs => exact List.Perm.refl _
  | priority => exact heappush_perm lt queue requestId

/-- Requests put in one after another are put in. -/
theorem foldl_perm {push : List RequestId → RequestId → List RequestId}
    (hpush : ∀ queue requestId, (push queue requestId).Perm (requestId :: queue))
    (requests queue : List RequestId) :
    (requests.foldl push queue).Perm (requests ++ queue) := by
  induction requests generalizing queue with
  | nil => exact List.Perm.refl _
  | cons requestId requests ih =>
    exact (ih _).trans (((hpush queue requestId).append_left requests).trans List.perm_middle)

/-- Prepending requests puts all of them in. -/
private theorem prependRequests_perm (requests : List RequestId) :
    (prependRequests policy lt queue requests).Perm (requests ++ queue) := by
  cases policy with
  | fcfs => exact foldl_perm (fun _ _ => List.Perm.refl _) requests queue
  | priority =>
    exact (foldl_perm (heappush_perm lt) _ queue).trans ((drain_perm lt le_rfl).append_right queue)

/-- Removing requests keeps the others. -/
private theorem removeRequests_perm (requests : List RequestId) :
    (removeRequests policy lt queue requests).Perm (queue.filter (· ∉ requests)) := by
  cases policy with
  | fcfs => exact List.Perm.refl _
  | priority => exact heapify_perm lt _

/-! ## Occurrences -/

variable (x : RequestId)

theorem count_addRequest (requestId : RequestId) :
    (addRequest policy lt queue requestId).count x =
      queue.count x + if requestId = x then 1 else 0 := by
  rw [(addRequest_perm requestId).count_eq, List.count_cons]
  simp only [beq_iff_eq]

theorem count_prependRequest (requestId : RequestId) :
    (prependRequest policy lt queue requestId).count x =
      queue.count x + if requestId = x then 1 else 0 := by
  rw [(prependRequest_perm requestId).count_eq, List.count_cons]
  simp only [beq_iff_eq]

theorem count_of_popRequest {requestId : RequestId} {rest : List RequestId}
    (h : popRequest policy lt queue = some (requestId, rest)) :
    queue.count x = rest.count x + if requestId = x then 1 else 0 := by
  rw [(popRequest_eq_some h).2.count_eq, List.count_cons]
  simp only [beq_iff_eq]

theorem count_prependRequests (requests : List RequestId) :
    (prependRequests policy lt queue requests).count x = requests.count x + queue.count x := by
  rw [(prependRequests_perm requests).count_eq, List.count_append]

theorem count_removeRequests (requests : List RequestId) :
    (removeRequests policy lt queue requests).count x =
      if x ∈ requests then 0 else queue.count x := by
  rw [(removeRequests_perm requests).count_eq]
  split
  · rename_i hmem
    exact List.count_eq_zero.mpr fun h => by simp [hmem] at h
  · rename_i hmem
    exact List.count_filter (by simpa using hmem)

end RequestQueue

end Vllm
