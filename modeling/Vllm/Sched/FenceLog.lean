import Vllm.Lib.Trace
import Vllm.Sched.Engine

/-! What becomes of the blocks of preempted and finished requests, as a trace: the KV-cache
manager logs the calls that give blocks back, the engine logs its steps. -/
namespace Vllm.Sched

open KVCache (BlockId KVError)

/-- The events of a trace. `released` blocks are kept by the scheduler until they are
`returned`; the blocks of the two last events went to the free queue at once. -/
inductive KVEvent
  /-- A step that is not empty was scheduled with these requests. -/
  | scheduled (ids : List ReqId)
  /-- The oldest of these steps was processed. -/
  | processed
  | released (r : ReqId) (blocks : List BlockId)
  | returned (blocks : List BlockId)
  | freed (r : ReqId) (blocks : List BlockId)
  | skipped (r : ReqId) (blocks : List BlockId)
  deriving DecidableEq, Repr

/-- What a trace has shown: the steps, the number of processed ones, the releases with the number
of steps before them, and the number of returns. -/
structure FenceView where
  steps : List (List ReqId) := []
  processed : Nat := 0
  releases : List (Nat × List BlockId) := []
  returned : Nat := 0

namespace FenceView

variable (v : FenceView)

def see : KVEvent → FenceView
  | .scheduled ids => { v with steps := v.steps ++ [ids] }
  | .processed => { v with processed := v.processed + 1 }
  | .released _ blocks =>
    if blocks = [] then v else { v with releases := v.releases ++ [(v.steps.length, blocks)] }
  | .returned _ => { v with returned := v.returned + 1 }
  | .freed _ _ | .skipped _ _ => v

/-- A step with the request has not been processed. -/
def Busy (r : ReqId) : Prop := ∃ ids ∈ v.steps.drop v.processed, r ∈ ids

instance (v : FenceView) (r : ReqId) : Decidable (v.Busy r) :=
  inferInstanceAs (Decidable (∃ ids ∈ _, _))

/-- Blocks go to the free queue when no step with their request is left to be processed. Released
blocks are returned in the order of the releases, after the steps before their release. -/
def Safe : KVEvent → Prop
  | .freed r blocks | .skipped r blocks => blocks = [] ∨ ¬v.Busy r
  | .returned blocks => ∃ fence released, v.releases[v.returned]? = some (fence, released) ∧
      blocks = released.reverse ∧ fence ≤ v.processed
  | _ => True

end FenceView

def Fenced (log : List KVEvent) : Prop := Trace.Clean FenceView.see FenceView.Safe {} log

structure Logged (κ : Type) where
  kv : κ
  log : List KVEvent := []

variable {κ : Type}

def newlyFree (freeQueue : κ → List BlockId) (kv kv' : κ) : List BlockId :=
  (freeQueue kv').filter (· ∉ freeQueue kv)

/-- The KV-cache manager with a log. The scheduler does not see the log. -/
def KVOps.logged (ops : KVOps κ) (freeQueue : κ → List BlockId) : KVOps (Logged κ) where
  newStepStarts := fun l => { l with kv := ops.newStepStarts l.kv }
  getComputedBlocks := fun l => ops.getComputedBlocks l.kv
  findLongestCacheHitPerGroup := fun l => ops.findLongestCacheHitPerGroup l.kv
  allocateSlots := fun l args =>
    (ops.allocateSlots l.kv args).map fun p => ({ l with kv := p.1 }, p.2)
  remainingBlocks := fun l => ops.remainingBlocks l.kv
  getBlocks := fun l => ops.getBlocks l.kv
  cacheBlocks := fun l request n =>
    (ops.cacheBlocks l.kv request n).map fun kv => { l with kv := kv }
  free := fun l r =>
    (ops.free l.kv r).map fun kv =>
      { kv := kv, log := l.log ++ [.freed r (newlyFree freeQueue l.kv kv)] }
  popBlocksForFree := fun l r =>
    let popped := ops.popBlocksForFree l.kv r
    ({ kv := popped.1, log := l.log ++ [.released r popped.2] }, popped.2)
  freeBlocks := fun l blocks =>
    { kv := ops.freeBlocks l.kv blocks, log := l.log ++ [.returned blocks] }
  removeSkippedBlocks := fun l r computed numPrompt =>
    (ops.removeSkippedBlocks l.kv r computed numPrompt).map fun kv =>
      { kv := kv, log := l.log ++ [.skipped r (newlyFree freeQueue l.kv kv)] }
  evictBlocks := fun l blocks => (ops.evictBlocks l.kv blocks).map fun kv => { l with kv := kv }
  resetPrefixCache := fun l =>
    let reset := ops.resetPrefixCache l.kv
    ({ l with kv := reset.1 }, reset.2)

def SchedCore.logged (core : SchedCore κ) (freeQueue : κ → List BlockId) : SchedCore (Logged κ) where
  cfg := core.cfg
  ops := core.ops.logged freeQueue
  hasher := core.hasher

def SchedulerOutput.nonEmpty (out : SchedulerOutput) : Bool :=
  decide (0 < out.totalNumScheduledTokens)

def SchedulerOutput.ids (out : SchedulerOutput) : List ReqId := out.numScheduledTokens.map (·.1)

/-- The engine over a KV cache with a log, and the trace of the run. The log holds the calls of
the last operation. -/
structure FencedEngine (κ : Type) where
  engine : Engine (Logged κ)
  trace : List KVEvent := []

namespace FencedEngine

def create (cfg : SchedConfig) (kv : κ) : FencedEngine κ where
  engine := Engine.create cfg { kv := kv }

variable (e : FencedEngine κ)

def cleared : Engine (Logged κ) :=
  { e.engine with sched := { e.engine.sched with kv := { e.engine.sched.kv with log := [] } } }

/-- The blocks of a failed load are freed in `schedule` as well; of the calls in `schedule` only
those for preempted requests are kept. -/
def ofPreempted (before after : SchedulerState (Logged κ)) : KVEvent → Bool
  | .freed r _ => decide ((before.req r).numPreemptions < (after.req r).numPreemptions)
  | _ => true

/-- What the operation adds to the trace. A step counts as processed from the start of
`update_from_output` on, and as scheduled from the end of `schedule` on. -/
def events (op : EngineOp) (engine : Engine (Logged κ)) : List KVEvent :=
  match op with
  | .schedule _ =>
    engine.sched.kv.log.filter (ofPreempted e.engine.sched engine.sched) ++
      ((engine.inFlight.getLast?.filter (·.nonEmpty)).map fun out => .scheduled out.ids).toList
  | .updateFromOutput _ =>
    ((e.engine.inFlight.head?.filter (·.nonEmpty)).map fun _ => .processed).toList ++
      engine.sched.kv.log
  | _ => engine.sched.kv.log

def step (core : SchedCore κ) (freeQueue : κ → List BlockId) (e : FencedEngine κ) (op : EngineOp) :
    Except SchedError (FencedEngine κ) :=
  (e.cleared.step (core.logged freeQueue) op).map fun engine =>
    { engine := engine, trace := e.trace ++ e.events op engine }

def view : FenceView := e.trace.foldl FenceView.see {}

end FencedEngine
end Vllm.Sched
