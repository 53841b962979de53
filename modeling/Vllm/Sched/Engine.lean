import Vllm.Lib.Run
import Vllm.Sched.Update

/-! The scheduler in the loop of the engine (`vllm/v1/engine/core.py`): batches are scheduled,
are in flight in the batch queue and are processed in their order; requests arrive and finish
in between. -/
namespace Vllm.Sched

structure Engine (κ : Type) where
  sched : SchedulerState κ
  inFlight : List SchedulerOutput := []

inductive EngineOp
  | addRequest (request : Request) (connectorDelays : ReqId → Bool)
  | schedule (answers : Answers)
  | updateFromOutput (result : SchedCore.StepResult)
  | updateDraftTokenIds (drafts : List (ReqId × List TokenId))
  | finishRequests (ids : Option (List ReqId)) (status : RequestStatus)
      (connectorDelays : ReqId → Bool)
  | resetPrefixCache (resetRunningRequests : Bool)
  | setPauseState (pause : PauseState)

namespace Engine

variable {κ : Type}

def create (cfg : SchedConfig) (kv : κ) : Engine κ where
  sched := SchedulerState.create cfg kv

def env (core : SchedCore κ) (answers : Answers) : SchedEnv κ where
  cfg := core.cfg
  ops := core.ops
  answers := answers

/-- One operation. The oldest batch in flight is the next one to be processed. -/
def step (core : SchedCore κ) (e : Engine κ) : EngineOp → Except SchedError (Engine κ)
  | .addRequest request delays =>
    (core.addRequest delays e.sched request).map fun s => { e with sched := s }
  | .schedule answers =>
    (e.sched.schedule (env core answers)).map fun p =>
      { sched := p.1, inFlight := e.inFlight ++ [p.2] }
  | .updateFromOutput result =>
    match e.inFlight with
    | [] => .error .indexError
    | out :: rest =>
      (core.updateFromOutput e.sched out result).map fun s => { sched := s, inFlight := rest }
  | .updateDraftTokenIds drafts =>
    .ok { e with sched := SchedCore.updateDraftTokenIds e.sched drafts }
  | .finishRequests ids status delays =>
    (core.finishRequests delays e.sched ids status).map fun s => { e with sched := s }
  | .resetPrefixCache resetRunning =>
    (core.resetPrefixCache e.sched resetRunning).map fun p => { e with sched := p.1 }
  | .setPauseState pause => .ok { e with sched := { e.sched with pauseState := pause } }

end Engine

def EngineOp.isSchedule : EngineOp → Bool
  | .schedule _ => true
  | _ => false

def EngineOp.Admissible : EngineOp → Prop
  | .addRequest request _ => request.IsNew
  | _ => True

instance : (op : EngineOp) → Decidable op.Admissible
  | .addRequest .. => inferInstanceAs (Decidable (Request.IsNew _))
  | .schedule _ | .updateFromOutput _ | .updateDraftTokenIds _ | .finishRequests ..
  | .resetPrefixCache _ | .setPauseState _ => inferInstanceAs (Decidable True)

end Vllm.Sched
