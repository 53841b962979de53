import Vllm.Sched.Moves

/-! `num_waiting_for_streaming_input` never falls below the number of requests that wait for
streaming input, and the running list only grows in `schedule`. -/
namespace Vllm.Sched
open List Function List.Subset SchedulerState SchedCore

variable {cfg : SchedConfig}

namespace SchedulerState

variable {κ : Type} {s s' s'' : SchedulerState κ} {r : ReqId}

def streaming (s : SchedulerState κ) : Finset ReqId :=
  s.requests.toFinset.filter fun r => (s.req r).status = .waitingForStreamingReq

theorem mem_streaming :
    r ∈ s.streaming ↔ r ∈ s.requests ∧ (s.req r).status = .waitingForStreamingReq := by
  simp [streaming]

/-- The counter covers the requests that wait. -/
def Counted (s : SchedulerState κ) : Prop :=
  (s.streaming.card : Int) ≤ s.numWaitingForStreamingInput

structure Quiet (s s' : SchedulerState κ) : Prop where
  streaming : s'.streaming ⊆ s.streaming
  counter : s'.numWaitingForStreamingInput = s.numWaitingForStreamingInput

structure Calm (s s' : SchedulerState κ) : Prop extends Quiet s s' where
  running : s'.running.length ≤ s.running.length

theorem Quiet.refl (s : SchedulerState κ) : Quiet s s := ⟨Finset.Subset.refl _, rfl⟩

theorem Quiet.trans (h : Quiet s s') (h' : Quiet s' s'') : Quiet s s'' :=
  ⟨h'.streaming.trans h.streaming, h'.counter.trans h.counter⟩

theorem Quiet.counted (h : Quiet s s') (hs : s.Counted) : s'.Counted := by
  have hcard := Finset.card_le_card h.streaming
  unfold Counted at hs ⊢
  rw [h.counter]
  omega

theorem Calm.refl (s : SchedulerState κ) : Calm s s := ⟨.refl s, Nat.le_refl _⟩

theorem Calm.trans (h : Calm s s') (h' : Calm s' s'') : Calm s s'' :=
  ⟨h.toQuiet.trans h'.toQuiet, h'.running.trans h.running⟩

/-- The counter still covers the requests that wait, and no request starts to run. -/
structure Keeps (s s' : SchedulerState κ) : Prop where
  counted : s.Counted → s'.Counted
  running : s'.running.length ≤ s.running.length

theorem Keeps.refl (s : SchedulerState κ) : Keeps s s := ⟨id, Nat.le_refl _⟩

theorem Keeps.trans (h : Keeps s s') (h' : Keeps s' s'') : Keeps s s'' :=
  ⟨fun hs => h'.counted (h.counted hs), h'.running.trans h.running⟩

theorem Calm.keeps (h : Calm s s') : Keeps s s' := ⟨h.counted, h.running⟩

theorem Calm.of_eq (hreq : s'.req = s.req) (hrequests : s'.requests ⊆ s.requests)
    (hcounter : s'.numWaitingForStreamingInput = s.numWaitingForStreamingInput)
    (hrunning : s'.running.length ≤ s.running.length) : Calm s s' := by
  refine ⟨⟨fun r hr => ?_, hcounter⟩, hrunning⟩
  rw [mem_streaming, hreq] at hr
  exact mem_streaming.mpr ⟨hrequests hr.1, hr.2⟩

theorem Calm.withKv (s : SchedulerState κ) (kv : κ) : Calm s { s with kv := kv } :=
  .of_eq rfl (Subset.refl _) rfl (Nat.le_refl _)

theorem Calm.withEncoder (s : SchedulerState κ) (encoder : EncoderCache) :
    Calm s { s with encoder := encoder } :=
  .of_eq rfl (Subset.refl _) rfl (Nat.le_refl _)

theorem Calm.setReq (s : SchedulerState κ) (r : ReqId) (f : Request → Request)
    (hf : (f (s.req r)).status = .waitingForStreamingReq →
      (s.req r).status = .waitingForStreamingReq) : Calm s (s.setReq r f) := by
  refine ⟨⟨fun x hx => ?_, rfl⟩, Nat.le_refl _⟩
  obtain ⟨hmem, hstatus⟩ := mem_streaming.mp hx
  refine mem_streaming.mpr ⟨hmem, ?_⟩
  by_cases hxr : x = r
  · subst hxr
    refine hf ?_
    simpa only [SchedulerState.setReq, update_self] using hstatus
  · simpa only [SchedulerState.setReq, update_of_ne hxr] using hstatus

theorem preemptRequest_calm {ops : KVOps κ} (h : s.preemptRequest ops cfg r = .ok s') :
    Calm s s' := by
  obtain ⟨-, kv, deferred, encoder, order, rfl⟩ := preemptRequest_cases h
  refine (Calm.setReq s r preempted nofun).trans ?_
  exact .of_eq rfl (refl _) rfl (Nat.le_refl _)

end SchedulerState

/-! ### Finishing -/

variable {out : SchedulerOutput}

namespace SchedCore


variable {κ : Type} {core : SchedCore κ} {s s' : SchedulerState κ} {r : ReqId}
  {delays : ReqId → Bool}

theorem Change.calm {who skip : ReqId → Prop} (h : Change core who skip s s') : Calm s s' := by
  have hrest : s'.requests ⊆ s.requests ∧ s'.running.length ≤ s.running.length ∧
      s'.numWaitingForStreamingInput = s.numWaitingForStreamingInput := by
    cases h with
    | tables hbooks hrequests hrunning =>
      exact ⟨hrequests, hrunning, congrArg (fun books => books.2.2.2.2.2.2) hbooks⟩
    | truncated _ h =>
      obtain ⟨req, kv, failed, rfl, -⟩ := h
      exact ⟨refl _, Nat.le_refl _, rfl⟩
    | freeBlocks h =>
      obtain ⟨kv, deferred, rfl⟩ := freeRequestBlocks_cases h
      exact ⟨refl _, Nat.le_refl _, rfl⟩
    | request | encoder | skipBlocks | cacheBlocks | resetBlocks =>
      exact ⟨refl _, Nat.le_refl _, rfl⟩
  obtain ⟨hrequests, hrunning, hcounter⟩ := hrest
  refine ⟨⟨fun x hx => ?_, hcounter⟩, hrunning⟩
  obtain ⟨hmem, hwaits⟩ := mem_streaming.mp hx
  exact mem_streaming.mpr ⟨hrequests hmem, h.waits hwaits⟩

theorem Changes.calm {who skip : ReqId → Prop} (h : Changes core who skip s s') : Calm s s' := by
  induction h with
  | refl => exact .refl _
  | tail _ hone ih => exact ih.trans hone.calm

/-- Finishing requests takes those that wait out of the counter. -/
theorem finish_keeps {valid : List ReqId} (hnodup : valid.Nodup)
    (hmem : ∀ r ∈ valid, r ∈ s.requests) (hcalm : Calm (leaveQueues core.cfg s valid) s')
    (hnone : ∀ r ∈ valid, (s'.req r).status ≠ .waitingForStreamingReq) : Keeps s s' := by
  refine ⟨fun hcounted => ?_, hcalm.running.trans (removeAll_length_le ..)⟩
  -- the finished requests that waited
  generalize hgone : (valid.filter fun r => (s.req r).status = .waitingForStreamingReq) = gone
  have hgoneNodup : gone.Nodup := hgone ▸ hnodup.filter _
  have hsub : gone.toFinset ⊆ s.streaming := by
    intro r hr
    rw [mem_toFinset, ← hgone, mem_filter] at hr
    exact mem_streaming.mpr ⟨hmem r hr.1, of_decide_eq_true hr.2⟩
  have hleft : s'.streaming ⊆ s.streaming \ gone.toFinset := by
    intro r hr
    have hbefore : r ∈ (leaveQueues core.cfg s valid).streaming := hcalm.streaming hr
    refine Finset.mem_sdiff.mpr ⟨hbefore, fun hin => ?_⟩
    rw [mem_toFinset, ← hgone, mem_filter] at hin
    exact hnone r hin.1 (mem_streaming.mp hr).2
  have hcard := Finset.card_le_card hleft
  rw [Finset.card_sdiff_of_subset hsub, toFinset_card_of_nodup hgoneNodup] at hcard
  have hle := Finset.card_le_card hsub
  rw [toFinset_card_of_nodup hgoneNodup] at hle
  have hcounter : s'.numWaitingForStreamingInput =
      s.numWaitingForStreamingInput - (gone.length : Int) := by
    rw [hcalm.counter, ← hgone, ← countP_eq_length_filter]
    rfl
  unfold Counted at hcounted ⊢
  omega

/-! ### Sessions -/

/-- An update ends the wait of the request. -/
theorem updateRequestAsSession_keeps (update : StreamingUpdate) (hr : r ∈ s.requests) :
    Keeps s (core.updateRequestAsSession s r update) := by
  refine ⟨fun hcounted => ?_, Nat.le_refl _⟩
  have hleft : (core.updateRequestAsSession s r update).streaming ⊆ s.streaming.erase r := by
    intro x hx
    obtain ⟨hmem, hwaits⟩ := mem_streaming.mp hx
    by_cases hxr : x = r
    · subst hxr
      simp only [updateRequestAsSession, setReq, update_self, mergeSession_status] at hwaits
      cases hwaits
    · simp only [updateRequestAsSession, setReq, update_of_ne hxr] at hwaits
      exact Finset.mem_erase.mpr ⟨hxr, mem_streaming.mpr ⟨hmem, hwaits⟩⟩
  have hcard := Finset.card_le_card hleft
  unfold Counted at hcounted ⊢
  show (_ : Int) ≤ if (s.req r).status = .waitingForStreamingReq then
    s.numWaitingForStreamingInput - 1 else s.numWaitingForStreamingInput
  split
  · rename_i hstatus
    have hin : r ∈ s.streaming := mem_streaming.mpr ⟨hr, hstatus⟩
    have hpos := Finset.card_pos.mpr ⟨r, hin⟩
    rw [Finset.card_erase_of_mem hin] at hcard
    omega
  · have hle := Finset.card_le_card (Finset.erase_subset r s.streaming)
    omega

theorem enqueueWaitingRequest_calm (cfg : SchedConfig) (s : SchedulerState κ) (r : ReqId) :
    Calm s (s.enqueueWaitingRequest cfg r) := by
  unfold enqueueWaitingRequest
  split <;> exact .of_eq rfl (refl _) rfl (Nat.le_refl _)

/-- A session that starts to wait is counted. -/
theorem wait_keeps (s : SchedulerState κ) (r : ReqId) :
    Keeps s { s.setReq r (withStatus .waitingForStreamingReq) with
      numWaitingForStreamingInput := s.numWaitingForStreamingInput + 1 } := by
  generalize hs₁ : ({ s.setReq r (withStatus .waitingForStreamingReq) with
    numWaitingForStreamingInput := s.numWaitingForStreamingInput + 1 } : SchedulerState κ) = s₁
  refine ⟨fun hcounted => ?_, ?_⟩
  · have hgrows : s₁.streaming ⊆ insert r s.streaming := by
      intro x hx
      obtain ⟨hmem, hwaits⟩ := mem_streaming.mp hx
      by_cases hxr : x = r
      · exact Finset.mem_insert.mpr (.inl hxr)
      · rw [← hs₁] at hmem hwaits
        simp only [setReq, update_of_ne hxr] at hwaits
        exact Finset.mem_insert.mpr (.inr (mem_streaming.mpr ⟨hmem, hwaits⟩))
    have hcard := Finset.card_le_card hgrows
    have hinsert := Finset.card_insert_le r s.streaming
    have hcounter : s₁.numWaitingForStreamingInput = s.numWaitingForStreamingInput + 1 := by
      rw [← hs₁]
    unfold Counted at hcounted ⊢
    omega
  · rw [← hs₁]
    exact Nat.le_refl _

theorem Moves.keeps {who skip : ReqId → Prop} (h : Moves core who skip s s') : Keeps s s' := by
  induction h with
  | refl => exact .refl _
  | tail _ hone ih =>
    refine ih.trans ?_
    cases hone with
    | change h => exact h.calm.keeps
    | session _ hmem => exact updateRequestAsSession_keeps _ hmem
    | wait => exact wait_keeps ..
    | finish hnodup hmem h hnone => exact finish_keeps hnodup hmem h.calm hnone

theorem enqueueWaitingRequest_req (cfg : SchedConfig) (s : SchedulerState κ) (r : ReqId) :
    (s.enqueueWaitingRequest cfg r).req = s.req := by
  unfold enqueueWaitingRequest
  split <;> rfl

theorem addRequest_keeps {request : Request} (hnew : request.IsNew)
    (h : core.addRequest delays s request = .ok s') : Keeps s s' := by
  cases addRequest_cases h with
  | queued => exact (Calm.setReq s _ _ fun hwaits => hwaits).keeps
  | update hmem => exact updateRequestAsSession_keeps _ hmem
  | close _ _ _ hclose =>
    have hmoves : core.FreeMoves s s' :=
      finishRequests_moves (fun _ => trivial) (fun _ _ => trivial) hclose
    exact Moves.keeps hmoves
  | new hmem =>
    generalize hs₁ : (s.setReq request.requestId fun _ =>
      { request with hasStreamingQueue := request.resumable }) = s₁
    have hstatus : (s₁.req request.requestId).status ≠ .waitingForStreamingReq := by
      rw [← hs₁]
      simp only [setReq, update_self]
      rcases hnew.status with h | h <;> rw [h] <;> decide
    have hfirst : Calm s s₁ := by
      rw [← hs₁] at hstatus ⊢
      refine Calm.setReq s _ _ fun hwaits => (hstatus ?_).elim
      simpa only [setReq, update_self] using hwaits
    have hrequests : s₁.requests = s.requests := by
      rw [← hs₁]
      rfl
    have hqueue := enqueueWaitingRequest_calm core.cfg s₁ request.requestId
    have hreq := enqueueWaitingRequest_req core.cfg s₁ request.requestId
    refine ⟨Quiet.counted ⟨fun x hx => ?_, hqueue.counter.trans hfirst.counter⟩,
      hqueue.running.trans hfirst.running⟩
    obtain ⟨hx, hwaits⟩ := mem_streaming.mp hx
    have hwaits : (s₁.req x).status = .waitingForStreamingReq := by
      rw [← hreq]
      exact hwaits
    cases mem_append.mp hx with
    | inl hx => exact hfirst.streaming (mem_streaming.mpr ⟨hrequests ▸ hx, hwaits⟩)
    | inr hx =>
      rw [mem_singleton.mp hx] at hwaits
      exact (hstatus hwaits).elim

/-! ### The output of a step -/

theorem stepProcessed_calm (s : SchedulerState κ) (out : SchedulerOutput) :
    Calm s (core.stepProcessed s out) := by
  unfold stepProcessed
  split <;> exact .of_eq rfl (refl _) rfl (Nat.le_refl _)

theorem updateFromOutput_keeps {result : StepResult}
    (h : core.updateFromOutput s out result = .ok s') : Keeps s s' := by
  obtain ⟨s₁, s₂, s₃, failed, stopped, hcase⟩ := updateFromOutput_cases h
  exact (stepProcessed_calm s out).keeps.trans (Moves.keeps hcase.freeMoves)

end SchedCore

/-! ### Steps -/

namespace Pass


variable {κ : Type} {env : SchedEnv κ} {d : Bool} {s : SchedulerState κ} {p p' q : Pass κ}
  {r v : ReqId} {n : Int}

theorem takeVictim_calm (h : p.takeVictim cfg = .ok (q, v)) : Calm p.state q.state := by
  rcases takeVictim_cases h with ⟨-, -, -, hdraw⟩ | ⟨-, -, -, rfl⟩ | ⟨-, -, rfl⟩
  · obtain ⟨m, -, rfl⟩ := withdraw_cases hdraw
    exact .of_eq rfl (refl _) rfl (length_erase_le ..)
  · exact .of_eq rfl (refl _) rfl (length_erase_le ..)
  refine .of_eq rfl (refl _) rfl ?_
  show p.state.running.dropLast.length ≤ _
  rw [length_dropLast]
  omega

theorem Preempts.quiet (h : Preempts env r n p v p') : Quiet p.state p'.state := by
  obtain ⟨kv, q, -, hvictim, hpreempt⟩ := h
  obtain ⟨s', hs', rfl⟩ := preempt_cases hpreempt
  have hkv : Calm p.state (p.withKv kv).state := .withKv p.state kv
  exact (hkv.trans ((takeVictim_calm hvictim).trans (preemptRequest_calm hs'))).toQuiet

theorem Retries.quiet (h : Retries env r n p q) : Quiet p.state q.state := by
  induction h with
  | done => exact .refl _
  | next _ hfirst _ ih => exact hfirst.quiet.trans ih

variable {b : Bool}

theorem RunningTurn.quiet (h : RunningTurn env d p r p' b) : Quiet p.state p'.state := by
  have hencoder : ∀ encoder, Quiet p.state (p.withEncoder encoder).state := fun encoder =>
    (Calm.withEncoder p.state encoder).toQuiet
  cases h with
  | passedOver => exact .refl _
  | nothing => exact hencoder _
  | preempted _ _ _ _ hretries hself => exact (hencoder _).trans (hretries.quiet.trans hself.quiet)
  | @granted _ _ _ q _ kv _ _ _ _ _ hretries _ hcommit =>
    obtain ⟨encoder, -, rfl⟩ := commitRunning_cases hcommit
    have hset : Calm (q.withKv kv).state
        ((q.withKv kv).state.setReq r fun q => { q with specTokenIds := [] }) :=
      Calm.setReq _ r _ fun hwaits => hwaits
    have hlast := (Calm.withKv q.state kv).trans (hset.trans (.withEncoder _ encoder))
    exact (hencoder _).trans (hretries.quiet.trans hlast.toQuiet)

theorem tryPromote_quiet {s' : SchedulerState κ} (h : tryPromote env s r = .ok (s', b)) :
    Quiet s s' := by
  obtain ⟨request, kv, finished, failed, rfl, -, hstatus, -⟩ := tryPromote_cases h
  have hset : Calm s (s.setReq r fun _ => request) := Calm.setReq s r _ hstatus
  have hrest : Calm (s.setReq r fun _ => request)
      { s with
        req := update s.req r request
        kv := kv
        finishedRecvingKvReqIds := finished
        failedRecvingKvReqIds := failed } :=
    .of_eq rfl (refl _) rfl (Nat.le_refl _)
  exact (hset.trans hrest).toQuiet

theorem Visited.quiet {v : Visit} (h : Visited env d p r s v) : Quiet p.state s :=
  h.rule tryPromote_quiet fun hquiet _ => hquiet.trans (Calm.withEncoder _ _).toQuiet

theorem popWaiting_calm (cfg : SchedConfig) (s : SchedulerState κ) (w : WaitingQueue) :
    Calm s (popWaiting cfg s w) := by
  cases w <;> exact .of_eq rfl (refl _) rfl (Nat.le_refl _)

/-- An admitted request runs, and a request that loads waits for the connector. -/
theorem quiet_setReq_running (s : SchedulerState κ) (r : ReqId) (f : Request → Request)
    (running inflight : List ReqId) (encoder : EncoderCache)
    (hf : (f (s.req r)).status ≠ .waitingForStreamingReq) :
    Quiet s { s.setReq r f with
      running := running, inflightPrefills := inflight, encoder := encoder } := by
  have hset := Calm.setReq s r f fun hwaits => (hf hwaits).elim
  exact ⟨hset.streaming, rfl⟩

theorem WaitingTurn.quiet {w : WaitingQueue} (h : WaitingTurn env d p w r p' b) :
    Quiet p.state p'.state := by
  cases h with
  | skip hvisited => exact hvisited.quiet.trans (popWaiting_calm env.cfg _ w).toQuiet
  | stop hvisited => exact hvisited.quiet
  | @full s a reserved kv encoder hadmits halloc hfree =>
    exact (Visited.allocate hadmits).quiet.trans
      ((Calm.withKv s kv).trans (.withEncoder _ encoder)).toQuiet
  | @loads s a reserved kv blocks hadmits hasync halloc =>
    have hpop := (Visited.allocate hadmits).quiet.trans
      ((Calm.withKv s kv).trans (popWaiting_calm env.cfg _ w)).toQuiet
    refine hpop.trans (quiet_setReq_running _ r _ _ _ _ ?_)
    exact RequestStatus.noConfusion
  | @admits s a reserved kv blocks _ hadmits hsync halloc hgrant =>
    have hpop := (Visited.allocate hadmits).quiet.trans
      ((Calm.withKv s kv).trans (popWaiting_calm env.cfg _ w)).toQuiet
    obtain ⟨-, encoder, -, rfl⟩ := admit_cases hgrant
    refine hpop.trans (quiet_setReq_running _ r (fun q =>
      { q with status := .running, numComputedTokens := a.cached.numComputed }) _ _ encoder ?_)
    exact RequestStatus.noConfusion

end Pass

namespace SchedulerState

open Pass

variable {κ : Type} {env : SchedEnv κ} {s s' : SchedulerState κ} {p : Pass κ}

theorem schedulePass_quiet (h : s.schedulePass env = .ok p) : Quiet s p.state := by
  obtain ⟨p₁, loras, hrunning, -, hwaiting⟩ := schedulePass_cases h
  have hfirst : Quiet s p₁.state := by
    refine runningLoop_invariant (fun p => Quiet s p.state) ?_ ?_ hrunning
    · exact fun hs _ _ hturn => hs.trans hturn.quiet
    · exact ⟨Finset.Subset.refl _, rfl⟩
  rcases scheduleWaiting_cases hwaiting with ⟨-, rfl⟩ | ⟨-, -, q, hloop, rfl⟩
  · exact hfirst
  have hsecond : Quiet s q.state := by
    refine waitingLoop_invariant (fun p => Quiet s p.state) ?_ ?_ hloop
    · exact fun hs _ _ _ hturn => hs.trans hturn.quiet
    · exact hfirst
  exact ⟨hsecond.streaming, hsecond.counter⟩

theorem updateAfterSchedule_calm (h : s.updateAfterSchedule cfg out = .ok s') : Calm s s' := by
  obtain ⟨req, inflight, num, rfl, hreq⟩ := updateAfterSchedule_cases h
  refine ⟨⟨fun x hx => ?_, rfl⟩, Nat.le_refl _⟩
  obtain ⟨hmem, hwaits⟩ := mem_streaming.mp hx
  obtain ⟨_, _, _, _, _, _, heq⟩ := hreq x
  exact mem_streaming.mpr ⟨hmem, by simpa only [heq] using hwaits⟩

/-- A step keeps the counter above the waiting requests, and the running list within its
bound. -/
theorem schedule_keeps (h : s.schedule env = .ok (s', out)) :
    (s.Counted → s'.Counted) ∧ s'.running.length ≤ env.cfg.maxNumRunningReqs := by
  obtain ⟨p, k, hpass, hhold, -, rfl, hafter⟩ := schedule_cases h
  have hcalm := updateAfterSchedule_calm hafter
  have hmid : Quiet p.state
      { p.state with
        encoder := p.state.encoder.getFreedMmHashes.1
        schedStepSeq :=
          if env.cfg.deferBlockFree ∧ 0 < (p.output env.cfg k).totalNumScheduledTokens then
            p.state.schedStepSeq + 1
          else p.state.schedStepSeq } :=
    ⟨Finset.Subset.refl _, rfl⟩
  refine ⟨((schedulePass_quiet hpass).trans (hmid.trans hcalm.toQuiet)).counted, ?_⟩
  simp only [constraintsHold, Bool.and_eq_true, decide_eq_true_eq] at hhold
  exact hcalm.running.trans hhold.1.2

end SchedulerState

/-- In every run the counter covers the requests that wait for streaming input, and the running
list is within its bound. -/
theorem Engine.reaches_bounded {κ : Type} {core : SchedCore κ} {kv : κ}
    {ok : Engine κ → EngineOp → Prop} (hok : ∀ e op, ok e op → op.Admissible) {e : Engine κ}
    (h : Run.Reaches (step core) ok (create core.cfg kv) e) :
    e.sched.Counted ∧ e.sched.running.length ≤ core.cfg.maxNumRunningReqs := by
  induction h with
  | start => exact ⟨Int.le_refl 0, Nat.zero_le _⟩
  | @next e e' op _ hop hstep ih =>
    obtain ⟨hcounted, hbound⟩ := ih
    have hkeep : ∀ {s : SchedulerState κ}, Keeps e.sched s →
        s.Counted ∧ s.running.length ≤ core.cfg.maxNumRunningReqs :=
      fun hk => ⟨hk.counted hcounted, hk.running.trans hbound⟩
    have hmove : ∀ {s : SchedulerState κ}, core.FreeMoves e.sched s →
        s.Counted ∧ s.running.length ≤ core.cfg.maxNumRunningReqs :=
      fun hm => hkeep (Moves.keeps hm)
    cases op with
    | addRequest request delays =>
      obtain ⟨s, hs, rfl⟩ := Run.map_eq_ok hstep
      exact hkeep (addRequest_keeps (hok _ _ hop) hs)
    | schedule answers =>
      obtain ⟨⟨s, out⟩, hs, rfl⟩ := Run.map_eq_ok hstep
      obtain ⟨hcount, hlen⟩ := schedule_keeps hs
      exact ⟨hcount hcounted, hlen⟩
    | updateFromOutput result =>
      unfold step at hstep
      dsimp only at hstep
      split at hstep
      · cases hstep
      · obtain ⟨s, hs, rfl⟩ := Run.map_eq_ok hstep
        exact hkeep (updateFromOutput_keeps hs)
    | updateDraftTokenIds drafts =>
      cases hstep
      exact hmove (updateDraftTokenIds_changes (fun _ => trivial) _ drafts).moves
    | finishRequests ids status delays =>
      obtain ⟨s, hs, rfl⟩ := Run.map_eq_ok hstep
      exact hmove (finishRequests_moves (fun _ => trivial) (fun _ _ => trivial) hs)
    | resetPrefixCache resetRunning =>
      obtain ⟨⟨s, b⟩, hs, rfl⟩ := Run.map_eq_ok hstep
      exact hmove (resetPrefixCache_changes (fun _ => trivial) hs).moves
    | setPauseState pause =>
      cases hstep
      exact ⟨hcounted, hbound⟩

end Vllm.Sched
