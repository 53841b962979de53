import Vllm.Sched.EncoderRuns
import Vllm.Sched.FenceRuns

/-! Deferred frees with the KV-cache manager: in which runs no block is given back while a step
of its request is in flight. -/
namespace Vllm.KVCache

/-! ### Groups without a window -/

def Manager.windowless (m : Manager) : Bool :=
  match m.spec.kind with
  | .fullAttention | .crossAttention => true
  | _ => false

theorem Manager.removeSkippedBlocks_windowless {m : Manager} (h : m.windowless = true)
    (pool : BlockPool) (st : ManagerState) (r : ReqId) (total : Nat) (numPrompt : Option Nat) :
    m.removeSkippedBlocks pool st r total numPrompt = .ok (pool, st) := by
  unfold windowless at h
  unfold removeSkippedBlocks baseRemoveSkippedBlocks getNumSkippedTokens
  split at h
  · rename_i hkind
    rw [hkind]
    rfl
  · rename_i hkind
    rw [hkind]
    rfl
  · cases h

theorem overGroups_pool {β : Type}
    {f : Nat → Manager → BlockPool → ManagerState → Except KVError (BlockPool × ManagerState × β)}
    (groups : List Group) (hf : ∀ g ∈ groups, ∀ {i pool pool' st st' out},
      f i g.1 pool st = .ok (pool', st', out) → pool' = pool)
    {pool pool' : BlockPool} {groups' : List Group} {outs : List β}
    (h : overGroups f 0 pool groups = .ok (pool', groups', outs)) : pool' = pool := by
  refine (overGroups_invariant (I := fun _ rest p => p = pool ∧ ∀ g ∈ rest, g ∈ groups) ?_ groups []
    ⟨rfl, fun _ hg => hg⟩ h).1
  rintro done m st rest pool pool' st' out ⟨rfl, hrest⟩ hone
  exact ⟨hf (m, st) (hrest _ List.mem_cons_self) hone,
    fun g hg => hrest g (List.mem_cons_of_mem _ hg)⟩

namespace KVState

variable {s s' : KVState} {r : ReqId}

theorem removeSkippedBlocks_windowless (hwindow : ∀ m ∈ s.managers, m.windowless = true)
    {total : Nat} {numPrompt : Option Nat} (h : s.removeSkippedBlocks r total numPrompt = .ok s') :
    s'.pool = s.pool := by
  unfold removeSkippedBlocks forGroupsUnit forGroups at h
  split at h
  · cases h
  rename_i hfor
  split at hfor
  · cases hfor
  rename_i hover
  cases hfor
  cases h
  refine overGroups_pool s.groups (fun g hg {i pool pool' st st' out} hone => ?_) hover
  have hless := hwindow g.1 (List.mem_map_of_mem hg)
  dsimp only at hone
  rw [Manager.removeSkippedBlocks_windowless hless] at hone
  cases hone
  rfl

theorem popBlocksForFree_managers (s : KVState) (r : ReqId) :
    (s.popBlocksForFree r).1.managers = s.managers := by
  simp only [managers, popBlocksForFree, List.map_map]
  rfl

theorem newStepStarts_managers (s : KVState) : s.newStepStarts.managers = s.managers := by
  simp only [managers, newStepStarts, List.map_map]
  rfl

end KVState
end Vllm.KVCache

namespace Vllm.Sched

open KVCache

theorem kvOps_keeps_managers (cfg : CacheConfig) (managers : List Manager) :
    (kvOps cfg).Keeps fun kv => kv.managers = managers where
  newStepStarts := fun hI => (KVState.newStepStarts_managers _).trans hI
  allocateSlots := fun hI h => (KVState.allocateSlots_managers h).trans hI
  cacheBlocks := by
    intro kv kv' request n hI h
    unfold kvOps at h
    split at h
    · exact (KVState.forGroupsUnit_managers h).trans hI
    · cases h
      exact hI
  free := fun hI h => (KVState.forGroupsUnit_managers h).trans hI
  popBlocksForFree := fun hI => (KVState.popBlocksForFree_managers _ _).trans hI
  freeBlocks := fun hI => hI
  removeSkippedBlocks := fun hI h => (KVState.forGroupsUnit_managers h).trans hI
  evictBlocks := by
    intro kv kv' blocks hI h
    obtain ⟨pool, -, rfl⟩ := Run.map_eq_ok h
    exact hI
  resetPrefixCache := fun hI => hI

def freeQueue (kv : KVState) : List BlockId := kv.pool.freeQueue

def InSteps (outs : List SchedulerOutput) (r : ReqId) : Prop := ∃ ids ∈ stepIds outs, r ∈ ids

instance (outs : List SchedulerOutput) (r : ReqId) : Decidable (InSteps outs r) :=
  inferInstanceAs (Decidable (∃ ids ∈ _, _))

/-- When a request is finished, its blocks outside the window are given back at once. That does no
harm without a connector, without windows, or when none of the steps has the request. -/
def SkipSafe (core : SchedCore KVState) (kv : KVState) (outs : List SchedulerOutput) (r : ReqId) :
    Prop :=
  core.cfg.hasConnector = false ∨ (∀ m ∈ kv.managers, m.windowless = true) ∨ ¬InSteps outs r

instance (core : SchedCore KVState) (kv : KVState) (outs : List SchedulerOutput) (r : ReqId) :
    Decidable (SkipSafe core kv outs r) :=
  inferInstanceAs (Decidable (_ ∨ _ ∨ _))

namespace FencedEngine

open SchedCore SchedulerState

variable {core : SchedCore KVState} {e e' : FencedEngine KVState} {cfg : CacheConfig}
  {r : ReqId}

def Fresh (e : FencedEngine KVState) : EngineOp → Prop
  | .addRequest request _ => request.IsNew ∧ (request.requestId ∉ e.engine.sched.requests →
      ¬InSteps e.engine.inFlight request.requestId)
  | _ => True

instance (e : FencedEngine KVState) : (op : EngineOp) → Decidable (e.Fresh op)
  | .addRequest .. => inferInstanceAs (Decidable (_ ∧ (_ → _)))
  | .schedule _ | .updateFromOutput _ | .updateDraftTokenIds _ | .finishRequests ..
  | .resetPrefixCache _ | .setPauseState _ => inferInstanceAs (Decidable True)

/-- The requests that the operation finishes have no window or are in no step in flight. -/
def FinishSafe (core : SchedCore KVState) (e : FencedEngine KVState) : EngineOp → Prop
  | .addRequest request _ =>
    (e.engine.sched.req request.requestId).status = .waitingForStreamingReq →
      streamingUpdate request = none →
        SkipSafe core e.engine.sched.kv.kv e.engine.inFlight request.requestId
  | .finishRequests ids _ _ =>
    ∀ r ∈ finishable e.engine.sched (ids.getD e.engine.sched.requests),
      SkipSafe core e.engine.sched.kv.kv e.engine.inFlight r
  | .updateFromOutput result =>
    (∀ out ∈ e.engine.inFlight.head?, ∀ r ∈ out.ids,
      core.ends result r (e.engine.sched.req r) = true →
        SkipSafe core e.engine.sched.kv.kv e.engine.inFlight.tail r) ∧
    (result.invalidBlockIds = [] ∨ core.cfg.recomputeKvLoadFailures = true ∨
      ∀ ids ∈ stepIds e.engine.inFlight.tail, ∀ r ∈ ids,
        SkipSafe core e.engine.sched.kv.kv e.engine.inFlight.tail r)
  | _ => True

instance (core : SchedCore KVState) (e : FencedEngine KVState) :
    (op : EngineOp) → Decidable (e.FinishSafe core op)
  | .addRequest .. => inferInstanceAs (Decidable (_ → _ → _))
  | .finishRequests .. => inferInstanceAs (Decidable (∀ r ∈ _, _))
  | .updateFromOutput _ => inferInstanceAs (Decidable ((∀ out ∈ _, ∀ r ∈ _, _ → _) ∧ (_ ∨ _ ∨ _)))
  | .schedule _ | .updateDraftTokenIds _ | .resetPrefixCache _ | .setPauseState _ =>
    inferInstanceAs (Decidable True)

def FenceSafe (core : SchedCore KVState) (e : FencedEngine KVState) (op : EngineOp) : Prop :=
  e.Fresh op ∧ e.FinishSafe core op

instance (core : SchedCore KVState) (e : FencedEngine KVState) (op : EngineOp) :
    Decidable (e.FenceSafe core op) :=
  inferInstanceAs (Decidable (_ ∧ _))

def OutOfSteps (outs : List SchedulerOutput) (r : ReqId) (blocks : List BlockId) : Prop :=
  blocks = [] ∨ ¬InSteps outs r

theorem skipSafe_allowed (hops : core.ops = kvOps cfg) {kv : KVState} {outs : List SchedulerOutput}
    (h : SkipSafe core kv outs r) :
    SkipAllowed core freeQueue (fun kv' => kv'.managers = kv.managers) (OutOfSteps outs) r := by
  rcases h with hnone | hwindow | hout
  · exact .inl hnone
  · refine .inr fun {kv₁ kv₂ computed numPrompt} hI h => .inl ?_
    rw [hops] at h
    have hpool : kv₂.pool = kv₁.pool :=
      KVState.removeSkippedBlocks_windowless (fun m hm => hwindow m (hI ▸ hm)) h
    unfold newlyFree freeQueue
    rw [hpool]
    exact List.filter_eq_nil_iff.mpr fun b hb => by simp [hb]
  · exact .inr fun _ _ => .inr hout

def SameManagers (managers : List Manager) (kv : KVState) : Prop := kv.managers = managers

theorem FenceInv.addNew {I : KVState → Prop} (h : FenceInv I e) {request : Request}
    (hnew : request.IsNew) (hfresh : ¬InSteps e.engine.inFlight request.requestId)
    {s : SchedulerState (Logged KVState)}
    (hs : s = { (e.cleared.sched.setReq request.requestId fun _ =>
        { request with hasStreamingQueue := request.resumable }).enqueueWaitingRequest core.cfg
          request.requestId with
      requests := e.cleared.sched.requests ++ [request.requestId] }) :
    FenceInv I { engine := { e.engine with sched := s }, trace := e.trace ++ s.kv.log } := by
  have hbooks : SchedCore.books s = SchedCore.books (e.cleared.sched.setReq request.requestId
      fun _ => { request with hasStreamingQueue := request.resumable }) := by
    rw [hs]
    unfold enqueueWaitingRequest
    split <;> rfl
  simp only [SchedCore.books, Prod.mk.injEq] at hbooks
  obtain ⟨hreq, hkv, -, hdeferred, hseq, hprocessed, -⟩ := hbooks
  have hlog : s.kv.log = [] := congrArg Logged.log hkv
  rw [hlog]
  refine h.append Trace.clean_nil ?_ h.keys
  refine (h.books.withLog []).added (r := request.requestId) hkv ?_
    (mt h.books.busy_iff.mp hfresh) ?_ fun x hx => ?_
  · rw [fences, hseq, hprocessed, hdeferred]
    rfl
  · simp only [hreq, setReq, Function.update_self]
    exact hnew.unscheduled
  · rw [hreq]
    exact Function.update_of_ne hx ..

theorem step_fenceInv (hops : core.ops = kvOps cfg) (hdefer : core.cfg.deferBlockFree = true)
    {managers : List Manager} (h : FenceInv (SameManagers managers) e) {op : EngineOp}
    (hop : e.FenceSafe core op) (hstep : e.step core freeQueue op = .ok e') :
    FenceInv (SameManagers managers) e' := by
  have hkeeps : core.ops.Keeps (SameManagers managers) := hops ▸ kvOps_keeps_managers cfg managers
  have hmanagers : e.engine.sched.kv.kv.managers = managers := h.books.kv
  have hallowed : ∀ {outs : List SchedulerOutput} {r : ReqId},
      SkipSafe core e.engine.sched.kv.kv outs r →
        SkipAllowed core freeQueue (SameManagers managers) (OutOfSteps outs) r := by
    intro outs r hsafe
    have hone := skipSafe_allowed hops hsafe
    rw [hmanagers] at hone
    exact hone
  have hidle : ∀ r blocks, OutOfSteps e.engine.inFlight r blocks → blocks = [] ∨ ¬e.view.Busy r :=
    fun r blocks hr => hr.imp_right (mt h.books.busy_iff.mp)
  obtain ⟨hfresh, hfinish⟩ := hop
  obtain ⟨engine, hengine, rfl⟩ := Run.map_eq_ok hstep
  cases op with
  | addRequest request delays =>
    obtain ⟨s, hs, rfl⟩ := Run.map_eq_ok hengine
    cases addRequest_cases hs with
    | queued => exact h.released (Released.setReq _ _ _ rfl) hidle
    | update =>
      exact h.released (updateRequestAsSession_released _ e.cleared.sched _ _) hidle
    | close _ hstatus hnone hclose =>
      refine h.released (Moves.released hkeeps hdefer (finishRequests_moves (fun _ => trivial)
        (fun r hr => ?_) hclose)) hidle
      have hmem := List.mem_dedup.mp (List.mem_filter.mp hr).1
      rw [List.mem_singleton.mp hmem]
      exact hallowed (hfinish hstatus hnone)
    | new hmem => exact h.addNew hfresh.1 (hfresh.2 hmem) rfl
  | schedule answers =>
    obtain ⟨⟨s, out⟩, hs, rfl⟩ := Run.map_eq_ok hengine
    exact h.schedule hkeeps hdefer hs
  | updateFromOutput result =>
    unfold Engine.step at hengine
    dsimp only at hengine
    split at hengine
    · cases hengine
    rename_i out rest hflight
    obtain ⟨s, hs, rfl⟩ := Run.map_eq_ok hengine
    have hflight : e.engine.inFlight = out :: rest := hflight
    obtain ⟨hends, hfailed⟩ := hfinish
    rw [hflight] at hends hfailed
    refine h.update hkeeps hdefer hflight (fun r blocks hr => hr) ?_ ?_ hs
    · exact fun r hr hstop => hallowed (hends out rfl r hr hstop)
    · refine hfailed.imp_right fun hrest => hrest.imp_right fun hall r => ?_
      by_cases hin : InSteps rest r
      · obtain ⟨ids, hids, hr⟩ := hin
        exact hallowed (hall ids hids r hr)
      · exact hallowed (.inr (.inr hin))
  | updateDraftTokenIds drafts =>
    cases hengine
    have hchanges : Changes (core.logged freeQueue) (fun _ => True)
        (SkipAllowed core freeQueue (SameManagers managers) (OutOfSteps e.engine.inFlight))
        e.cleared.sched _ :=
      updateDraftTokenIds_changes (fun _ => trivial) _ drafts
    exact h.released (hchanges.released hkeeps hdefer) hidle
  | finishRequests ids status delays =>
    obtain ⟨s, hs, rfl⟩ := Run.map_eq_ok hengine
    exact h.released (Moves.released hkeeps hdefer (finishRequests_moves (fun _ => trivial)
      (fun r hr => hallowed (hfinish r hr)) hs)) hidle
  | resetPrefixCache resetRunning =>
    obtain ⟨⟨s, b⟩, hs, rfl⟩ := Run.map_eq_ok hengine
    exact h.released (Changes.released hkeeps hdefer
      (resetPrefixCache_changes (fun _ => trivial) hs)) hidle
  | setPauseState pause =>
    cases hengine
    exact h.released (.of_eq rfl id rfl fun _ => rfl) hidle

/-- With deferred frees, in every run in which the requests that are finished have no window or
are in no step in flight: blocks go to the free queue behind the steps of their request, the
fences are ordered, and every release is returned once, when the steps before it are processed. -/
theorem reaches_fenced {cfg : CacheConfig} (hops : core.ops = kvOps cfg)
    (hdefer : core.cfg.deferBlockFree = true) {kv : KVState}
    (h : Run.Reaches (step core freeQueue) (FenceSafe core) (create core.cfg kv) e) :
    Fenced e.trace ∧ (e.engine.sched.deferredFrees.map (·.1)).Pairwise (· ≤ ·) ∧
      e.engine.sched.deferredFrees = e.view.releases.drop e.view.returned ∧
      e.view.returned ≤ e.view.releases.length ∧
      (stepIds e.engine.inFlight = [] → e.view.returned = e.view.releases.length) := by
  have hinv : FenceInv (SameManagers kv.managers) e := by
    refine Run.Reaches.invariant ?_
      (fun e op e' hinv hop hstep => step_fenceInv hops hdefer hinv hop hstep) h
    exact
      { fenced := Trace.clean_nil
        books :=
          { kv := rfl
            steps := rfl
            processed := rfl
            le := Nat.le_refl _
            batches := rfl
            last := nofun
            bounded := fun r => Nat.le_refl _
            deferred := rfl
            returned := Nat.le_refl _
            ordered := List.Pairwise.nil
            fences := nofun
            pending := nofun }
        keys := nofun }
  have hbooks := hinv.books
  refine ⟨hinv.fenced, ?_, hbooks.deferred, hbooks.returned, fun hnone => ?_⟩
  · rw [hbooks.deferred, List.map_drop]
    exact hbooks.ordered.sublist (List.drop_sublist ..)
  · -- a release that is left has a fence behind the processed steps, which are all steps
    have hall : e.view.steps.length ≤ e.view.processed := by
      have hdrop := hbooks.batches
      rw [hnone] at hdrop
      exact List.drop_eq_nil_iff.mp hdrop
    have hempty : e.view.releases.drop e.view.returned = [] := by
      refine List.eq_nil_iff_forall_not_mem.mpr fun release hmem => ?_
      have hpending := hbooks.pending release (hbooks.deferred ▸ hmem)
      have hfence := hbooks.fences release (List.mem_of_mem_drop hmem)
      omega
    exact Nat.le_antisymm hbooks.returned (List.drop_eq_nil_iff.mp hempty)

end FencedEngine

/-! ### An abort in flight -/

def windowBlocks : CacheConfig :=
  { fourBlocks with
    groups := [⟨⟨4, .slidingWindow 4, 0⟩, false⟩]
    block_size_pos := by decide
    window_pos := by decide
    hash_dvd := by decide
    world_one := by decide
    two_groups := by decide
    ids_fit := by decide }

def connectorCore (cfg : CacheConfig) : SchedCore KVState where
  cfg :=
    { maxNumRunningReqs := 4, maxNumScheduledTokens := 16, maxModelLen := 32, blockSize := 4,
      schedulerBlockSize := 4, hasConnector := true, deferBlockFree := true }
  ops := kvOps cfg

def abortOps : List EngineOp :=
  [.addRequest (promptRequest 0 12) fun _ => false, .schedule {},
    .finishRequests (some [0]) .finishedAborted fun _ => false, .updateFromOutput {}]

/-- With full attention its blocks are kept until the step is processed. -/
theorem FencedEngine.reaches_fenced_abort :
    ∃ e, Run.Reaches (step (connectorCore fourBlocks) freeQueue)
      (FenceSafe (connectorCore fourBlocks))
      (create (connectorCore fourBlocks).cfg fourBlocks.create) e ∧
      e.trace = [.scheduled [0], .skipped 0 [], .released 0 [1, 2, 3], .processed,
        .returned [3, 2, 1]] ∧
      Fenced e.trace := by
  have hrun : ((Run.runIf (step (connectorCore fourBlocks) freeQueue)
      (FenceSafe (connectorCore fourBlocks))
      (create (connectorCore fourBlocks).cfg fourBlocks.create) abortOps).map
        (·.trace)) =
      some [.scheduled [0], .skipped 0 [], .released 0 [1, 2, 3], .processed,
        .returned [3, 2, 1]] := by
    decide +kernel
  obtain ⟨e, he, htrace⟩ := Option.map_eq_some_iff.mp hrun
  have hreach := Run.Reaches.start.runIf _ he
  exact ⟨e, hreach, htrace, (reaches_fenced rfl rfl hreach).1⟩

/-- With a window, the two blocks outside of it are in the free queue while the step that writes
them is in flight. -/
theorem FencedEngine.reaches_unfenced :
    ∃ e, Run.Reaches (step (connectorCore windowBlocks) freeQueue) (fun e op => e.Fresh op)
      (create (connectorCore windowBlocks).cfg windowBlocks.create) e ∧
      e.trace = [.scheduled [0], .skipped 0 [2, 1], .released 0 [0, 0, 3]] ∧ ¬Fenced e.trace := by
  have hrun : ((Run.runIf (step (connectorCore windowBlocks) freeQueue) (fun e op => e.Fresh op)
      (create (connectorCore windowBlocks).cfg windowBlocks.create)
        (abortOps.take 3)).map (·.trace)) =
      some [.scheduled [0], .skipped 0 [2, 1], .released 0 [0, 0, 3]] := by
    decide +kernel
  obtain ⟨e, he, htrace⟩ := Option.map_eq_some_iff.mp hrun
  refine ⟨e, Run.Reaches.start.runIf _ he, htrace, fun hfenced => ?_⟩
  rw [htrace] at hfenced
  have hsafe := hfenced [.scheduled [0]] (.skipped 0 [2, 1]) [.released 0 [0, 0, 3]] rfl
  rcases hsafe with hnil | hidle
  · cases hnil
  · exact hidle (by decide)

end Vllm.Sched
