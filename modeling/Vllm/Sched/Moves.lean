import Vllm.Sched.EncoderHashes
import Vllm.Sched.UpdateCases

/-! The operations besides `schedule` as sequences of elementary changes of the state. What every
change keeps, the operations keep. -/
namespace Vllm.Sched.SchedCore
open List Function EncoderCache

open SchedulerState
open Relation (ReflTransGen)

variable {κ : Type}

/-- The state without the queues and the sets of requests. -/
def books (s : SchedulerState κ) :=
  (s.req, s.kv, s.encoder, s.deferredFrees, s.schedStepSeq, s.processedStepSeq,
    s.numWaitingForStreamingInput)

/-- An elementary change. Only requests in `who` change, and blocks outside a window are given back
for requests in `skip`. -/
inductive Change (core : SchedCore κ) (who skip : ReqId → Prop) (s : SchedulerState κ) :
    SchedulerState κ → Prop
  | tables {s' : SchedulerState κ} (hbooks : books s' = books s)
      (hrequests : s'.requests ⊆ s.requests)
      (hrunning : s'.running.length ≤ s.running.length) : Change core who skip s s'
  | request {r : ReqId} {f : Request → Request} (hr : who r)
      (hlast : (f (s.req r)).lastSchedSeq = (s.req r).lastSchedSeq)
      (hstatus : (f (s.req r)).status = .waitingForStreamingReq →
        (s.req r).status = .waitingForStreamingReq) : Change core who skip s (s.setReq r f)
  | truncated {s' : SchedulerState κ} (hwho : ∀ r, who r) (h : Truncated s s')
      (hkv : s'.kv = s.kv ∨ ∃ blocks, core.ops.evictBlocks s.kv blocks = .ok s'.kv) :
      Change core who skip s s'
  | encoder {encoder : EncoderCache} (h : Frees s.encoder encoder) :
      Change core who skip s { s with encoder := encoder }
  | freeBlocks {r : ReqId} {s' : SchedulerState κ}
      (h : s.freeRequestBlocks core.ops core.cfg r = .ok s') : Change core who skip s s'
  | skipBlocks {r : ReqId} {computed : Int} {numPrompt : Nat} {kv : κ}
      (hconnector : core.cfg.hasConnector = true) (hskip : skip r)
      (h : core.ops.removeSkippedBlocks s.kv r computed numPrompt = .ok kv) :
      Change core who skip s { s with kv := kv }
  | cacheBlocks {request : Request} {n : Int} {kv : κ}
      (h : core.ops.cacheBlocks s.kv request n = .ok kv) :
      Change core who skip s { s with kv := kv }
  | resetBlocks : Change core who skip s { s with kv := (core.ops.resetPrefixCache s.kv).1 }

abbrev Changes (core : SchedCore κ) (who skip : ReqId → Prop) :=
  ReflTransGen (Change core who skip)

/-- A change, or one that moves the counter of the requests that wait for streaming input. -/
inductive Move (core : SchedCore κ) (who skip : ReqId → Prop) (s : SchedulerState κ) :
    SchedulerState κ → Prop
  | change {s' : SchedulerState κ} (h : Change core who skip s s') : Move core who skip s s'
  | session {r : ReqId} {update : StreamingUpdate} (hr : who r) (hmem : r ∈ s.requests) :
      Move core who skip s (core.updateRequestAsSession s r update)
  | wait {r : ReqId} (hr : who r) :
      Move core who skip s { s.setReq r (withStatus .waitingForStreamingReq) with
        numWaitingForStreamingInput := s.numWaitingForStreamingInput + 1 }
  | finish {valid : List ReqId} {s' : SchedulerState κ} (hnodup : valid.Nodup)
      (hmem : ∀ r ∈ valid, r ∈ s.requests)
      (h : Changes core who skip (leaveQueues core.cfg s valid) s')
      (hnone : ∀ r ∈ valid, (s'.req r).status ≠ .waitingForStreamingReq) :
      Move core who skip s s'

abbrev Moves (core : SchedCore κ) (who skip : ReqId → Prop) := ReflTransGen (Move core who skip)

abbrev FreeMoves (core : SchedCore κ) := core.Moves (fun _ => True) (fun _ => True)

variable {core : SchedCore κ} {who skip : ReqId → Prop} {s s' : SchedulerState κ} {r x : ReqId}
  {delays : ReqId → Bool} {status : RequestStatus}

theorem Change.queues (hbooks : books s' = books s) (hrequests : s'.requests = s.requests)
    (hrunning : s'.running = s.running) : Change core who skip s s' :=
  .tables hbooks (hrequests ▸ Subset.refl _) (hrunning ▸ Nat.le_refl _)

/-- No change makes a request wait for streaming input. -/
theorem Change.waits (h : Change core who skip s s')
    (hx : (s'.req x).status = .waitingForStreamingReq) :
    (s.req x).status = .waitingForStreamingReq := by
  cases h with
  | tables hbooks =>
    rw [← (Prod.mk.inj hbooks).1]
    exact hx
  | @request r f _ _ hstatus =>
    by_cases hxr : x = r
    · subst hxr
      refine hstatus ?_
      simpa only [setReq, update_self] using hx
    · simpa only [setReq, update_of_ne hxr] using hx
  | truncated _ h =>
    obtain ⟨req, kv, failed, rfl, hreq⟩ := h
    obtain ⟨computed, heq⟩ := hreq x
    simpa only [heq] using hx
  | freeBlocks h =>
    obtain ⟨kv, deferred, rfl⟩ := freeRequestBlocks_cases h
    exact hx
  | encoder | skipBlocks | cacheBlocks | resetBlocks => exact hx

theorem Changes.waits (h : Changes core who skip s s')
    (hx : (s'.req x).status = .waitingForStreamingReq) :
    (s.req x).status = .waitingForStreamingReq := by
  induction h with
  | refl => exact hx
  | tail _ hone ih => exact ih (hone.waits hx)

/-! ### Finishing -/

theorem freeBlocks_changes (h : core.freeBlocks s r = .ok s') : Changes core who skip s s' := by
  obtain ⟨-, s₁, hs₁, -, rfl⟩ := freeBlocks_cases h
  refine .tail (.single (.freeBlocks hs₁)) (.tables rfl ?_ (Nat.le_refl _))
  obtain ⟨kv, deferred, rfl⟩ := freeRequestBlocks_cases hs₁
  exact filter_subset_self ..

theorem freeRequest_changes (hskip : skip r) {delay : Bool}
    (h : core.freeRequest delays s r delay = .ok s') : Changes core who skip s s' := by
  obtain ⟨-, s₁, encoder, hconnector, hencoder, hrest⟩ := freeRequest_cases h
  have hstart : Changes core who skip s
      { s with inflightPrefills := s.inflightPrefills.filter (· ≠ r) } :=
    .single (.queues rfl rfl rfl)
  have hfirst : Changes core who skip s s₁ := by
    obtain ⟨kv, rfl, rfl | ⟨hconnector, hkv⟩⟩ := connectorFinished_cases hconnector
    · exact hstart
    · exact hstart.tail (.skipBlocks hconnector hskip hkv)
  have hsecond : Changes core who skip s
      { s₁ with encoder := encoder, finishedReqIds := s₁.finishedReqIds.insert r } :=
    (hfirst.tail (.encoder (free_frees hencoder))).tail (.queues rfl rfl rfl)
  rcases hrest with ⟨-, rfl⟩ | ⟨-, hfree⟩
  · exact hsecond
  · exact hsecond.trans (freeBlocks_changes hfree)

theorem finishEach_changes (hstatus : status.isFinished = true) {rs : List ReqId}
    (hwho : ∀ r ∈ rs, who r) (hskip : ∀ r ∈ rs, skip r)
    (h : Run.run (core.finishOne delays status) s rs = .ok s') :
    Changes core who skip s s' ∧ ∀ r ∈ rs, (s'.req r).status ≠ .waitingForStreamingReq := by
  have hwaits : status ≠ .waitingForStreamingReq := by
    rintro rfl
    cases hstatus
  induction rs generalizing s with
  | nil =>
    cases h
    exact ⟨.refl, nofun⟩
  | cons r rs ih =>
    obtain ⟨s₁, hfree, hrest⟩ := Run.run_cons h
    obtain ⟨finished, failed, hforget⟩ := forgetLoad_cases s r
    rw [finishOne, hforget] at hfree
    have hfirst : Changes core who skip s
        { s with finishedRecvingKvReqIds := finished, failedRecvingKvReqIds := failed } :=
      .single (.queues rfl rfl rfl)
    have hset := hfirst.tail (.request (f := withStatus status) (hwho r (mem_cons_self ..)) rfl
      fun heq => (hwaits heq).elim)
    have hone : Changes core who skip _ s₁ := freeRequest_changes (hskip r (mem_cons_self ..)) hfree
    obtain ⟨hrest, hnone⟩ := ih (fun x hx => hwho x (mem_cons_of_mem r hx))
      (fun x hx => hskip x (mem_cons_of_mem r hx)) hrest
    refine ⟨hset.trans (hone.trans hrest), fun x hx => ?_⟩
    cases mem_cons.mp hx with
    | inl hxr =>
      subst hxr
      intro heq
      have heq := Changes.waits (hone.trans hrest) heq
      simp only [setReq, update_self] at heq
      exact hwaits heq
    | inr hx => exact hnone x hx

/-! ### Sessions -/

theorem Changes.moves (h : Changes core who skip s s') : Moves core who skip s s' :=
  ReflTransGen.mono (fun _ _ => Move.change) _ _ h

theorem finishRequests_moves {ids : Option (List ReqId)} (hwho : ∀ r, who r)
    (hskip : ∀ r ∈ finishable s (ids.getD s.requests), skip r)
    (h : core.finishRequests delays s ids status = .ok s') : Moves core who skip s s' := by
  obtain ⟨hstatus, hfinish⟩ := finishRequests_cases h
  obtain ⟨hchanges, hnone⟩ := finishEach_changes hstatus (fun r _ => hwho r) hskip hfinish
  exact .single (.finish (finishable_nodup ..) (fun r hr => (mem_finishable.mp hr).2.1) hchanges
    hnone)

theorem enqueueWaitingRequest_move (cfg : SchedConfig) (s : SchedulerState κ) (r : ReqId) :
    Move core who skip s (s.enqueueWaitingRequest cfg r) := by
  unfold enqueueWaitingRequest
  split <;> exact .change (.queues rfl rfl rfl)

variable {result : StepResult} {b stop : Bool} {new : List TokenId}

theorem handleStoppedRequest_moves (hr : who r) (hmem : r ∈ s.requests)
    (h : core.handleStoppedRequest s r = (s', b)) : Moves core who skip s s' := by
  rcases handleStoppedRequest_cases h with ⟨-, ⟨-, rfl⟩ | ⟨rest, -, rfl⟩⟩ |
    ⟨-, -, ⟨update, rest, -, rfl⟩ | ⟨-, rfl⟩⟩
  · exact .refl
  · exact .single (.change (.request hr rfl id))
  · have hqueue : Moves core who skip s (s.setReq r fun q => { q with streamingQueue := rest }) :=
      .single (.change (.request hr rfl id))
    exact (hqueue.tail (.session hr hmem)).tail (enqueueWaitingRequest_move core.cfg _ r)
  · exact .tail (.single (.wait hr)) (enqueueWaitingRequest_move core.cfg _ r)

/-! ### The output of a step -/

theorem TakeCase.changes (hr : who r) (h : TakeCase core result s r s' new stop) :
    Changes core who skip s s' ∧ s'.requests = s.requests := by
  cases h with
  | tokens hne h =>
    obtain ⟨⟨hashes, status, heq⟩, hstop⟩ :=
      appendTokens_cases core (result.sampledTokenIds r) (s.req r)
    have hlast : (core.appendTokens (result.sampledTokenIds r) (s.req r)).1.lastSchedSeq =
        (s.req r).lastSchedSeq := by rw [heq]
    have hwaits : (core.appendTokens (result.sampledTokenIds r) (s.req r)).1.status =
        .waitingForStreamingReq → (s.req r).status = .waitingForStreamingReq := by
      intro hwaits
      rcases hstop with ⟨-, hfinished⟩ | ⟨-, hsame, -⟩
      · rw [Request.isFinished, hwaits] at hfinished
        cases hfinished
      · rw [← hsame]
        exact hwaits
    cases h with
    | discarded => exact ⟨.single (.request hr rfl id), rfl⟩
    | sync => exact ⟨.single (.request hr hlast hwaits), rfl⟩
    | @async kv _ _ _ _ hkv =>
      have hcall : Changes core who skip s { s with kv := kv } := by
        rcases hkv with ⟨-, rfl⟩ | ⟨-, hkv⟩
        · exact .refl
        · exact .single (.cacheBlocks hkv)
      exact ⟨hcall.tail (.request hr hlast hwaits), rfl⟩
  | pooled => exact ⟨.single (.request hr rfl nofun), rfl⟩
  | nothing => exact ⟨.refl, rfl⟩

theorem FinishCase.moves (hr : who r) (hmem : r ∈ s.requests) (hskip : b = true → skip r)
    (h : FinishCase core result s r new stop s' b) :
    Moves core who skip s s' := by
  have hgrammar : Moves core who skip s (afterGrammar result s r new) ∧
      r ∈ (afterGrammar result s r new).requests := by
    unfold afterGrammar
    split
    · exact ⟨.single (.change (.request hr rfl nofun)), hmem⟩
    · exact ⟨.refl, hmem⟩
  obtain ⟨hgrammar, hmem⟩ := hgrammar
  cases h with
  | goesOn => exact .refl
  | continues _ hhandle => exact hgrammar.trans (handleStoppedRequest_moves hr hmem hhandle)
  | finishes _ hhandle hfree =>
    exact hgrammar.trans ((handleStoppedRequest_moves hr hmem hhandle).trans
      (freeRequest_changes (hskip rfl) hfree).moves)

theorem freeDoneInputs_frees {cfg : SchedConfig} {request : Request} {c c' : EncoderCache}
    (h : freeDoneInputs cfg request c = .ok c') : Frees c c' := by
  refine Run.run_rule (fun _ => Frees c) (fun hc hone => ?_) (.refl c) h
  unfold freeIfDone at hone
  split at hone
  · cases hone
  split at hone
  · exact hc.trans (freeEncoderInput_frees hone)
  · cases hone
    exact hc

variable {out : SchedulerOutput} {s₁ s₂ s₃ : SchedulerState κ} {failed : List ReqId}
  {stopped : Stopped}

theorem ProcessCase.moves (hr : who r) (hmem : r ∈ s.requests) (hskip : b = true → skip r)
    (h : ProcessCase core out result r s s₁ s₂ s' new stop b) :
    Moves core who skip s s' := by
  obtain ⟨⟨s₀, encoder, rfl, rfl, hencoder⟩, htake, hfinish⟩ := h
  have hreject : Change core who skip s (s.setReq r (rejectDrafts core.cfg
      ((out.scheduledSpecDecodeTokens.lookup r).getD []) (result.sampledTokenIds r))) := by
    refine .request hr ?_ fun hwaits => ?_ <;> unfold rejectDrafts at *
    · split <;> rfl
    · split at hwaits <;> exact hwaits
  have hfrees : Frees s.encoder encoder := by
    rcases hencoder with rfl | hfree
    · exact .refl _
    · exact freeDoneInputs_frees hfree
  have ⟨htaken, hrequests⟩ : Changes core who skip _ s₂ ∧ _ := htake.changes hr
  have hmem : r ∈ s₂.requests := hrequests ▸ hmem
  have hinputs := Changes.moves (.tail (.single hreject) (.encoder hfrees))
  exact hinputs.trans (htaken.moves.trans (hfinish.moves hr hmem hskip))

/-- `update_from_output` behind the processed step. -/
theorem UpdateCase.moves (hwho : ∀ r, who r)
    (hskip : failed ≠ [] → core.cfg.recomputeKvLoadFailures = false → ∀ r, skip r)
    (h : UpdateCase core s out result s₁ s₂ s₃ s' failed stopped)
    (hprocess : Moves core who skip s₁ s₂) :
    Moves core who skip (core.stepProcessed s out) s' := by
  have hinvalid : Moves core who skip (core.stepProcessed s out) s₁ := by
    rcases h.invalid with ⟨-, rfl, -⟩ | ⟨-, hinvalid⟩
    · exact .refl
    · obtain ⟨hcut, hkv⟩ := handleInvalidBlocks_cases hinvalid
      exact .single (.change (.truncated hwho hcut hkv))
  have hremove : Moves core who skip s₂ (removeStopped core.cfg s₂ stopped) :=
    .single (.change (.tables rfl (Subset.refl _) (removeAll_length_le ..)))
  have hstopped := hinvalid.trans (hprocess.trans hremove)
  have hfail : Moves core who skip (core.stepProcessed s out) s₃ := by
    rcases h.fail with ⟨rfl, -⟩ | ⟨hne, hno, hfinish⟩
    · exact hstopped
    · exact hstopped.trans (finishRequests_moves hwho (fun r _ => hskip hne hno r) hfinish)
  refine updateFromKvXferFinished_invariant (Moves core who skip _) (fun hs hstep => ?_) hfail
    h.transfers
  cases hstep with
  | received => exact hs.tail (.change (.queues rfl rfl rfl))
  | released r hfree => exact hs.trans (freeBlocks_changes hfree).moves

theorem UpdateCase.freeMoves (h : UpdateCase core s out result s₁ s₂ s₃ s' failed stopped) :
    core.FreeMoves (core.stepProcessed s out) s' := by
  refine h.moves (fun _ => trivial) (fun _ _ _ => trivial) ?_
  refine processRequests_rule (fun _ s' => core.FreeMoves s₁ s') id (fun hs hmem hone => ?_) .refl
    h.process
  obtain ⟨_, _, _, _, _, hcase, -⟩ := processRequest_cases hone
  exact hs.trans (hcase.moves trivial hmem fun _ => trivial)

theorem updateDraftTokenIds_changes (hwho : ∀ r, who r) (s : SchedulerState κ)
    (drafts : List (ReqId × List TokenId)) :
    Changes core who skip s (updateDraftTokenIds s drafts) := by
  unfold updateDraftTokenIds
  induction drafts generalizing s with
  | nil => exact .refl
  | cons e drafts ih =>
    rw [foldl_cons]
    refine ReflTransGen.trans ?_ (ih _)
    split
    · exact .single (.request (hwho e.1) rfl id)
    · exact .refl

theorem preemptRequest_changes (hr : who r) (h : s.preemptRequest core.ops core.cfg r = .ok s') :
    Changes core who skip s s' := by
  obtain ⟨-, s₁, encoder, order, hfree, hencoder, rfl⟩ := preemptRequest_stages h
  have hfirst : Change core who skip s s₁ := .freeBlocks hfree
  obtain ⟨kv, deferred, rfl⟩ := freeRequestBlocks_cases hfree
  have hset : Change core who skip { s with kv := kv, deferredFrees := deferred } _ :=
    .request (f := preempted) hr rfl nofun
  exact (((ReflTransGen.single hfirst).tail hset).tail
    (.encoder (free_frees hencoder))).tail (.queues rfl rfl rfl)

theorem resetPrefixCache_changes (hwho : ∀ r, who r) {resetRunning : Bool}
    (h : core.resetPrefixCache s resetRunning = .ok (s', b)) : Changes core who skip s s' := by
  obtain ⟨s₁, hpreempt, rfl, -⟩ := resetPrefixCache_cases h
  refine ReflTransGen.tail ?_ .resetBlocks
  rcases hpreempt with ⟨-, hall⟩ | ⟨-, rfl⟩
  · refine Run.run_rule (fun _ => Changes core who skip s) (fun {r _ s₂ _} hs hpre => ?_) .refl hall
    obtain ⟨s₃, hone, rfl⟩ := Run.map_eq_ok hpre
    have hdrop : Change core who skip s₂ { s₂ with running := s₂.running.dropLast } :=
      .tables rfl (Subset.refl _) (by rw [length_dropLast]; omega)
    exact ((hs.tail hdrop).trans (preemptRequest_changes (hwho r) hone)).tail
      (.request (hwho r) rfl id)
  · exact .refl

end Vllm.Sched.SchedCore
