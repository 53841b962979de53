import Vllm.Sched.CountRuns
import Vllm.Sched.EncoderSync
import Vllm.Sched.KVInterface

/-! The encoder cache of the workers in a run: every hash that the scheduler holds is there, as
long as no request whose inputs were announced is preempted in the same step. -/
namespace Vllm.Sched
open Run SchedCore

/-! ### The other operations -/

variable {out : SchedulerOutput}

namespace SchedCore

open SchedulerState EncoderCache

variable {κ : Type} {core : SchedCore κ} {s s' : SchedulerState κ}

theorem Change.frees {who skip : ReqId → Prop} (h : Change core who skip s s') :
    Frees s.encoder s'.encoder := by
  cases h with
  | tables hbooks =>
    have hencoder : s'.encoder = s.encoder := congrArg (fun books => books.2.2.1) hbooks
    rw [hencoder]
    exact .refl _
  | truncated _ h =>
    obtain ⟨req, kv, failed, rfl, -⟩ := h
    exact .refl _
  | encoder h => exact h
  | freeBlocks h =>
    obtain ⟨kv, deferred, rfl⟩ := freeRequestBlocks_cases h
    exact .refl _
  | request | skipBlocks | cacheBlocks | resetBlocks => exact .refl _

theorem Moves.frees {who skip : ReqId → Prop} (h : Moves core who skip s s') :
    Frees s.encoder s'.encoder := by
  have hchanges : ∀ {s s' : SchedulerState κ}, Changes core who skip s s' →
      Frees s.encoder s'.encoder := by
    intro s s' h
    induction h with
    | refl => exact .refl _
    | tail _ hone ih => exact ih.trans hone.frees
  induction h with
  | refl => exact .refl _
  | tail _ hone ih =>
    refine ih.trans ?_
    cases hone with
    | change h => exact h.frees
    | session | wait => exact .refl _
    | finish _ _ h =>
      have hfrees := hchanges h
      exact hfrees

theorem addRequest_frees {delays : ReqId → Bool} {request : Request}
    (h : core.addRequest delays s request = .ok s') : Frees s.encoder s'.encoder := by
  cases addRequest_cases h with
  | queued => exact .refl _
  | update => exact .refl _
  | close _ _ _ hclose =>
    have hmoves : core.FreeMoves s s' :=
      finishRequests_moves (fun _ => trivial) (fun _ _ => trivial) hclose
    exact Moves.frees hmoves
  | new =>
    unfold enqueueWaitingRequest
    split <;> exact .refl _

theorem updateFromOutput_frees {result : StepResult}
    (h : core.updateFromOutput s out result = .ok s') : Frees s.encoder s'.encoder := by
  obtain ⟨s₁, s₂, s₃, failed, stopped, hcase⟩ := updateFromOutput_cases h
  have hfrees := Moves.frees hcase.freeMoves
  have hencoder : (core.stepProcessed s out).encoder = s.encoder := by
    unfold stepProcessed
    split <;> rfl
  rw [hencoder] at hfrees
  exact hfrees

end SchedCore

/-! ### Runs -/

def workerCache (req : ReqId → Request) (worker : List String) (out : SchedulerOutput) :
    List String :=
  worker.filter (· ∉ out.freeEncoderMmHashes) ++
    inputHashes req (out.scheduledEncoderInputs ++ out.externalEncoderInputs)

/-- The engine, with the encoder cache that the workers have once they have executed all steps
that were scheduled. -/
structure WorkedEngine (κ : Type) where
  engine : Engine κ
  worker : List String := []

namespace WorkedEngine

variable {κ : Type} {core : SchedCore κ} {e e' : WorkedEngine κ} {worker : List String}

def create (cfg : SchedConfig) (kv : κ) : WorkedEngine κ where
  engine := Engine.create cfg kv

def step (core : SchedCore κ) (e : WorkedEngine κ) (op : EngineOp) :
    Except SchedError (WorkedEngine κ) :=
  match op with
  | .schedule answers =>
    (e.engine.sched.schedule (Engine.env core answers)).map fun p =>
      { engine := { sched := p.1, inFlight := e.engine.inFlight ++ [p.2] }
        worker := workerCache p.1.req e.worker p.2 }
  | op => (e.engine.step core op).map fun engine => { e with engine := engine }

def EncoderSafe (core : SchedCore κ) (e : WorkedEngine κ) (op : EngineOp) : Prop :=
  op.Admissible ∧ (op.isSchedule = true → e.engine.sched.EncoderSafe core.cfg)

instance (core : SchedCore κ) (e : WorkedEngine κ) (op : EngineOp) :
    Decidable (e.EncoderSafe core op) :=
  inferInstanceAs (Decidable (_ ∧ (_ → _)))

theorem schedule_synced {env : SchedEnv κ} {s s' : SchedulerState κ} (hsafe : s.EncoderSafe env.cfg)
    (hsync : s.Synced worker) (h : s.schedule env = .ok (s', out)) :
    s'.Synced (workerCache s'.req worker out) := by
  obtain ⟨p, k, hpass, -, -, rfl, hafter⟩ := SchedulerState.schedule_cases h
  have hmirrored := SchedulerState.schedulePass_mirrored hsafe hsync hpass
  obtain ⟨req, inflight, num, rfl, hreq⟩ := SchedulerState.updateAfterSchedule_cases hafter
  have hmm : ∀ x, (req x).mmFeatures = (p.state.req x).mmFeatures := by
    intro x
    obtain ⟨_, _, _, _, _, _, heq⟩ := hreq x
    rw [heq]
  obtain ⟨hnone, hkept⟩ := EncoderCache.getFreedMmHashes_holds p.state.encoder
  refine ⟨fun x hx => ?_, hnone⟩
  obtain ⟨hheld, hevicted⟩ := hkept x hx
  refine List.mem_append.mpr ?_
  rcases hmirrored x hheld with ⟨hworker, hnot⟩ | hannounced
  · exact .inl (List.mem_filter.mpr ⟨hworker, decide_eq_true (hevicted hnot)⟩)
  · refine .inr ?_
    rw [inputHashes_congr _ hmm]
    exact hannounced

theorem synced_of_frees {s s' : SchedulerState κ} (hsync : s.Synced worker)
    (h : EncoderCache.Frees s.encoder s'.encoder) : s'.Synced worker :=
  ⟨fun x hx => hsync.held x (h.holds x hx), h.evicted.trans hsync.evicted⟩

theorem step_synced (hsync : e.engine.sched.Synced e.worker) {op : EngineOp}
    (hop : e.EncoderSafe core op) (h : e.step core op = .ok e') :
    e'.engine.sched.Synced e'.worker := by
  have hmove : ∀ {s : SchedulerState κ}, core.FreeMoves e.engine.sched s → s.Synced e.worker :=
    fun hm => synced_of_frees hsync (Moves.frees hm)
  cases op with
  | schedule answers =>
    obtain ⟨⟨s, out⟩, hs, rfl⟩ := map_eq_ok h
    have hsafe : e.engine.sched.EncoderSafe (Engine.env core answers).cfg := hop.2 rfl
    exact schedule_synced hsafe hsync hs
  | addRequest request delays =>
    obtain ⟨engine, hengine, rfl⟩ := map_eq_ok h
    obtain ⟨s, hs, rfl⟩ := map_eq_ok hengine
    exact synced_of_frees hsync (addRequest_frees hs)
  | updateFromOutput result =>
    obtain ⟨engine, hengine, rfl⟩ := map_eq_ok h
    unfold Engine.step at hengine
    dsimp only at hengine
    split at hengine
    · cases hengine
    · obtain ⟨s, hs, rfl⟩ := map_eq_ok hengine
      exact synced_of_frees hsync (updateFromOutput_frees hs)
  | updateDraftTokenIds drafts =>
    cases h
    exact hmove (updateDraftTokenIds_changes (fun _ => trivial) _ drafts).moves
  | finishRequests ids status delays =>
    obtain ⟨engine, hengine, rfl⟩ := map_eq_ok h
    obtain ⟨s, hs, rfl⟩ := map_eq_ok hengine
    exact hmove (finishRequests_moves (fun _ => trivial) (fun _ _ => trivial) hs)
  | resetPrefixCache resetRunning =>
    obtain ⟨engine, hengine, rfl⟩ := map_eq_ok h
    obtain ⟨⟨s, b⟩, hs, rfl⟩ := map_eq_ok hengine
    exact hmove (resetPrefixCache_changes (fun _ => trivial) hs).moves
  | setPauseState pause =>
    cases h
    exact synced_of_frees hsync (.refl _)

/-- In every run whose steps are scheduled in safe states, the workers have every hash that the
scheduler holds. -/
theorem reaches_held {kv : κ}
    (h : Reaches (step core) (EncoderSafe core) (create core.cfg kv) e) (x : String)
    (hx : e.engine.sched.encoder.holds x = true) : x ∈ e.worker := by
  have hsync : e.engine.sched.Synced e.worker := by
    refine Reaches.invariant ?_ (fun e op e' hsync hop hstep => step_synced hsync hop hstep) h
    constructor
    · intro x hx
      unfold create Engine.create SchedulerState.create EncoderCache.create at hx
      split at hx
      · cases hx
      · cases hx
    · show (EncoderCache.create core.cfg.isEncoderDecoder core.cfg.encoderCacheSize).evicted = []
      unfold EncoderCache.create
      split <;> rfl
  exact hsync.held x hx

end WorkedEngine

/-! ### A preemption in the middle of a step -/

def fourBlocks : KVCache.CacheConfig where
  groups := [⟨⟨4, .fullAttention, 0⟩, false⟩]
  useEagle := false
  schedulerBlockSize := 4
  hashBlockSize := 4
  numBlocks := 5
  enableCaching := false
  maxModelLen := 32
  maxNumBatchedTokens := 8
  blocks_pos := by decide
  world_pos := Nat.one_pos
  block_size_pos := by decide
  window_pos := by decide
  hash_pos := by decide
  hash_dvd := by decide
  world_one := by decide
  two_groups := by decide
  ids_fit := by decide

def priorityCore : SchedCore KVCache.KVState where
  cfg :=
    { policy := .priority, maxNumRunningReqs := 4, maxNumScheduledTokens := 8, maxModelLen := 32,
      longPrefillTokenThreshold := 4, maxNumEncoderInputTokens := 8, encoderCacheSize := 8,
      blockSize := 4, schedulerBlockSize := 4 }
  ops := kvOps fourBlocks

def imageRequest (priority : Int) : Request :=
  { promptRequest 0 12 with
    priority := priority
    mmFeatures := [⟨"image", { offset := 8, length := 4 }⟩] }

def tightOps (image other : Int) : List EngineOp :=
  [.addRequest (imageRequest image) fun _ => false, .schedule {}, .updateFromOutput {},
    .addRequest { promptRequest 1 8 with priority := other } fun _ => false, .schedule {},
    .updateFromOutput {}, .schedule {}]

/-- The other request is preempted: the item of the first one stays announced. -/
theorem WorkedEngine.reaches_held_image :
    ∃ e, Reaches (step priorityCore) (EncoderSafe priorityCore)
      (create priorityCore.cfg fourBlocks.create) e ∧
      e.engine.sched.waiting = [1] ∧ e.engine.sched.encoder.holds "image" = true ∧
      "image" ∈ e.worker := by
  have hrun : ((runIf (step priorityCore) (EncoderSafe priorityCore)
      (create priorityCore.cfg fourBlocks.create) (tightOps 0 5)).map fun e =>
        (e.engine.sched.waiting, e.engine.sched.encoder.holds "image")) = some ([1], true) := by
    decide +kernel
  obtain ⟨e, he, heval⟩ := Option.map_eq_some_iff.mp hrun
  obtain ⟨hwaiting, hholds⟩ := Prod.mk.inj heval
  have hreach := Reaches.start.runIf _ he
  exact ⟨e, hreach, hwaiting, hholds, reaches_held hreach "image" hholds⟩

/-- The first request is preempted after its item was allocated: the scheduler holds a hash that
the workers never get. -/
theorem WorkedEngine.reaches_phantom :
    ∃ e, Reaches (step priorityCore) (fun _ op => op.Admissible)
      (create priorityCore.cfg fourBlocks.create) e ∧
      e.engine.sched.encoder.holds "image" = true ∧ "image" ∉ e.worker := by
  have hrun : ((runIf (step priorityCore) (fun _ op => op.Admissible)
      (create priorityCore.cfg fourBlocks.create) (tightOps 5 0)).map fun e =>
        (e.engine.sched.encoder.holds "image", e.worker)) = some (true, []) := by
    decide +kernel
  obtain ⟨e, he, heval⟩ := Option.map_eq_some_iff.mp hrun
  obtain ⟨hholds, hworker⟩ := Prod.mk.inj heval
  exact ⟨e, Reaches.start.runIf _ he, hholds, by rw [hworker]; exact List.not_mem_nil⟩

end Vllm.Sched
