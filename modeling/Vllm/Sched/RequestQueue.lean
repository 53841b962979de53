import Vllm.Lib.Heap
import Vllm.Request

/-! The waiting queues of the scheduler (`vllm/v1/core/sched/request_queue.py`): a deque for
first come first served, a heap for priorities. A queue is the list of its request ids. -/
namespace Vllm.Sched

inductive SchedulingPolicy
  | fcfs
  | priority
  deriving DecidableEq, Repr

abbrev RequestQueue := List ReqId

namespace RequestQueue

variable (policy : SchedulingPolicy) (lt : ReqId → ReqId → Bool)

variable (q : RequestQueue) (r : ReqId)

def addRequest : RequestQueue :=
  match policy with
  | .fcfs => q ++ [r]
  | .priority => Heap.push lt q r

def popRequest : RequestQueue :=
  match policy with
  | .fcfs => q.tail
  | .priority => Heap.pop lt q

def prependRequest : RequestQueue :=
  match policy with
  | .fcfs => r :: q
  | .priority => Heap.push lt q r

def iterate : List ReqId :=
  match policy with
  | .fcfs => q
  | .priority => Heap.drain lt q.length q

def prependRequests (q requests : RequestQueue) : RequestQueue :=
  match policy with
  | .fcfs => requests.reverse ++ q
  | .priority => (iterate .priority lt requests).foldl (Heap.push lt) q

def removeRequests (requests : List ReqId) : RequestQueue :=
  match policy with
  | .fcfs => q.filter (· ∉ requests)
  | .priority => Heap.heapify lt (q.filter (· ∉ requests))

theorem popRequest_perm : (popRequest policy lt (r :: q)).Perm q := by
  cases policy with
  | fcfs => exact .refl q
  | priority => exact Heap.pop_perm lt r q

end RequestQueue
end Vllm.Sched
