import Vllm.Sched.Engine
import Vllm.Sched.ScheduleCases

/-! What the operations of the scheduler besides `schedule` do, case by case. -/
namespace Vllm.Sched

open KVCache (BlockId)

namespace SchedCore

open SchedulerState

variable {κ : Type} {core : SchedCore κ} {s s' : SchedulerState κ} {r : ReqId}
  {delays : ReqId → Bool}

/-! ### Finishing -/

theorem forgetLoad_cases (s : SchedulerState κ) (r : ReqId) : ∃ finished failed,
    forgetLoad s r =
      { s with finishedRecvingKvReqIds := finished, failedRecvingKvReqIds := failed } := by
  unfold forgetLoad
  split
  · exact ⟨_, _, rfl⟩
  · exact ⟨s.finishedRecvingKvReqIds, s.failedRecvingKvReqIds, rfl⟩

variable {status : RequestStatus} {failed rs : List ReqId} {b stop : Bool} {result : StepResult}
    {stopped : Stopped} {out : SchedulerOutput} {scan scan' : InvalidScan} {invalid : List BlockId}
  {scheduled : List (ReqId × Int)} {new : List TokenId}

/-- The blocks of a finished request are released, now or behind a fence. -/
theorem freeBlocks_cases (h : core.freeBlocks s r = .ok s') :
    (s.req r).isFinished = true ∧ ∃ s₁, s.freeRequestBlocks core.ops core.cfg r = .ok s₁ ∧
      r ∈ s.requests ∧ s' = { s₁ with requests := s.requests.filter (· ≠ r) } := by
  unfold freeBlocks at h
  split at h
  · cases h
  rename_i hfinished
  split at h
  · cases h
  rename_i s₁ hs₁
  obtain ⟨kv, deferred, rfl⟩ := freeRequestBlocks_cases hs₁
  split at h
  · rename_i hmem
    cases h
    exact ⟨Bool.not_eq_false _ ▸ hfinished, _, hs₁, hmem, rfl⟩
  · cases h

theorem connectorFinished_cases (h : core.connectorFinished s r = .ok s') :
    ∃ kv, s' = { s with kv := kv } ∧ (kv = s.kv ∨ (core.cfg.hasConnector = true ∧
      core.ops.removeSkippedBlocks s.kv r (s.req r).numComputedTokens (s.req r).numPromptTokens =
        .ok kv)) := by
  unfold connectorFinished at h
  split at h
  · cases h
    exact ⟨s.kv, rfl, .inl rfl⟩
  · rename_i hconnector
    obtain ⟨kv, hkv, rfl⟩ := Run.map_eq_ok h
    exact ⟨kv, rfl, .inr ⟨Bool.not_eq_false _ ▸ hconnector, Run.mapError_eq_ok hkv⟩⟩

/-- A finished request gives its encoder inputs and, unless the connector needs them, its blocks
back. -/
theorem freeRequest_cases {delay : Bool} (h : core.freeRequest delays s r delay = .ok s') :
    (s.req r).isFinished = true ∧ ∃ s₁ encoder,
      core.connectorFinished { s with inflightPrefills := s.inflightPrefills.filter (· ≠ r) } r =
        .ok s₁ ∧ s₁.encoder.free (s₁.req r) = .ok encoder ∧
      ((delay = true ∨ (core.cfg.hasConnector = true ∧ delays r = true)) ∧
          s' = { s₁ with encoder := encoder, finishedReqIds := s₁.finishedReqIds.insert r } ∨
        (delay = false ∧ (core.cfg.hasConnector = true → delays r = false)) ∧
          core.freeBlocks { s₁ with
            encoder := encoder, finishedReqIds := s₁.finishedReqIds.insert r } r = .ok s') := by
  unfold freeRequest at h
  split at h
  · cases h
  rename_i hfinished
  refine ⟨Bool.not_eq_false _ ▸ hfinished, ?_⟩
  split at h
  · cases h
  rename_i s₁ hs₁
  split at h
  · cases h
  rename_i encoder hencoder
  split at h
  · rename_i hdelay
    cases h
    exact ⟨s₁, encoder, hs₁, hencoder, .inl ⟨hdelay, rfl⟩⟩
  · rename_i hdelay
    rw [not_or] at hdelay
    refine ⟨s₁, encoder, hs₁, hencoder, .inr ⟨⟨Bool.not_eq_true _ ▸ hdelay.1, fun hconn => ?_⟩, h⟩⟩
    exact Bool.not_eq_true _ ▸ fun hd => hdelay.2 ⟨hconn, hd⟩

/-- The stages of `finish_requests`. -/
theorem finishRequests_cases {ids : Option (List ReqId)}
    (h : core.finishRequests delays s ids status = .ok s') :
    status.isFinished = true ∧ Run.run (core.finishOne delays status)
      (leaveQueues core.cfg s (finishable s (ids.getD s.requests)))
      (finishable s (ids.getD s.requests)) = .ok s' := by
  unfold finishRequests at h
  split at h
  · cases h
  · rename_i hstatus
    exact ⟨Bool.not_eq_false _ ▸ hstatus, h⟩

theorem removeAll_length_le (l items : List ReqId) : (removeAll l items).length ≤ l.length := by
  unfold removeAll
  split
  · exact Nat.le_refl _
  · exact List.length_erase_le ..
  · exact List.length_filter_le ..

theorem finishable_nodup (s : SchedulerState κ) (ids : List ReqId) : (finishable s ids).Nodup :=
  (List.nodup_dedup ids).filter _

theorem mem_finishable {ids : List ReqId} :
    r ∈ finishable s ids ↔ r ∈ ids ∧ r ∈ s.requests ∧ (s.req r).isFinished = false := by
  simp [finishable]

/-! ### New requests and sessions -/

/-- What `add_request` does with a request. -/
inductive AddCase (core : SchedCore κ) (delays : ReqId → Bool) (s : SchedulerState κ)
    (request : Request) : SchedulerState κ → Prop
  | queued (hmem : request.requestId ∈ s.requests)
      (hstatus : (s.req request.requestId).status ≠ .waitingForStreamingReq)
      (hqueue : (s.req request.requestId).hasStreamingQueue = true) :
      AddCase core delays s request (s.setReq request.requestId fun q =>
        { q with streamingQueue := q.streamingQueue ++ [streamingUpdate request] })
  | update {update : StreamingUpdate} (hmem : request.requestId ∈ s.requests)
      (hstatus : (s.req request.requestId).status = .waitingForStreamingReq)
      (hupdate : streamingUpdate request = some update) :
      AddCase core delays s request (core.updateRequestAsSession s request.requestId update)
  | close {s' : SchedulerState κ} (hmem : request.requestId ∈ s.requests)
      (hstatus : (s.req request.requestId).status = .waitingForStreamingReq)
      (hnone : streamingUpdate request = none)
      (hclose : core.finishRequests delays s (some [request.requestId]) .finishedAborted = .ok s') :
      AddCase core delays s request s'
  | new (hmem : request.requestId ∉ s.requests) :
      AddCase core delays s request
        { (s.setReq request.requestId fun _ =>
            { request with hasStreamingQueue := request.resumable }).enqueueWaitingRequest core.cfg
              request.requestId with
          requests := s.requests ++ [request.requestId] }

theorem addRequest_cases {request : Request} (h : core.addRequest delays s request = .ok s') :
    AddCase core delays s request s' := by
  unfold addRequest at h
  dsimp only at h
  split at h
  · rename_i hmem
    split at h
    · rename_i hstatus
      split at h
      · cases h
      · rename_i hqueue
        cases h
        exact .queued hmem hstatus (Bool.not_eq_false _ ▸ hqueue)
    · rename_i hstatus
      split at h
      · rename_i update hupdate
        cases h
        exact .update hmem (not_not.mp hstatus) hupdate
      · rename_i hnone
        exact .close hmem (not_not.mp hstatus) hnone h
  · rename_i hmem
    cases h
    have hrequests : ∀ (s : SchedulerState κ) (r : ReqId),
        (s.enqueueWaitingRequest core.cfg r).requests = s.requests := by
      intro s r
      unfold enqueueWaitingRequest
      split <;> rfl
    rw [hrequests]
    exact .new hmem

theorem mergeSession_status (session : Request) (update : StreamingUpdate) :
    (core.mergeSession session update).status = .waiting := by
  unfold mergeSession
  split <;> rfl

theorem handleStoppedRequest_cases (h : core.handleStoppedRequest s r = (s', b)) :
    (b = true ∧ ((s.req r).resumable = false ∧ s' = s ∨ ∃ rest,
      (s.req r).streamingQueue = none :: rest ∧
        s' = s.setReq r fun q => { q with streamingQueue := rest })) ∨
    (b = false ∧ (s.req r).resumable = true ∧
      ((∃ update rest, (s.req r).streamingQueue = some update :: rest ∧
          s' = core.takeUpdate s r update rest) ∨
        ((s.req r).streamingQueue = [] ∧ s' = waitForInput core.cfg s r))) := by
  unfold handleStoppedRequest at h
  split at h
  · rename_i hres
    cases h
    exact .inl ⟨rfl, .inl ⟨hres, rfl⟩⟩
  · rename_i hres
    have hres := Bool.not_eq_false _ ▸ hres
    split at h
    · rename_i rest hqueue
      cases h
      exact .inl ⟨rfl, .inr ⟨rest, hqueue, rfl⟩⟩
    · rename_i update rest hqueue
      cases h
      exact .inr ⟨rfl, hres, .inl ⟨update, rest, hqueue, rfl⟩⟩
    · rename_i hqueue
      cases h
      exact .inr ⟨rfl, hres, .inr ⟨hqueue, rfl⟩⟩

/-! ### The output of a step -/

def Appended (q q' : Request) (ts : List TokenId) : Prop :=
  ∃ hashes status, q' =
    { q with
      outputTokenIds := q.outputTokenIds ++ ts
      allTokenIds := q.allTokenIds ++ ts
      blockHashes := hashes
      status := status }

theorem appendOutput_appended (core : SchedCore κ) (q : Request) (t : TokenId) :
    ∃ hashes, core.appendOutput q t =
      { q with
        outputTokenIds := q.outputTokenIds ++ [t]
        allTokenIds := q.allTokenIds ++ [t]
        blockHashes := hashes } := by
  unfold appendOutput
  split
  · exact ⟨q.blockHashes, rfl⟩
  · exact ⟨_, rfl⟩

theorem checkStop_isFinished {maxModelLen : Nat} {q : Request}
    (h : checkStop maxModelLen q = some status) : status.isFinished = true := by
  unfold checkStop at h
  dsimp only at h
  split at h
  · cases h
  split at h
  · cases h
    rfl
  split at h
  · cases h
    rfl
  split at h
  · cases h
    rfl
  split at h
  · cases h
    rfl
  · cases h

theorem appendTokens_cases (core : SchedCore κ) (ts : List TokenId) (q : Request) :
    Appended q (core.appendTokens ts q).1 (core.appendTokens ts q).2.1 ∧
      (((core.appendTokens ts q).2.2 = true ∧ (core.appendTokens ts q).1.isFinished = true) ∨
        ((core.appendTokens ts q).2.2 = false ∧ (core.appendTokens ts q).1.status = q.status ∧
          (core.appendTokens ts q).2.1 = ts)) := by
  induction ts generalizing q with
  | nil =>
    refine ⟨⟨q.blockHashes, q.status, ?_⟩, .inr ⟨rfl, rfl, rfl⟩⟩
    simp only [appendTokens, List.append_nil]
  | cons t ts ih =>
    obtain ⟨hashes, happend⟩ := appendOutput_appended core q t
    unfold appendTokens
    dsimp only
    split
    · rename_i status hstop
      refine ⟨⟨hashes, status, ?_⟩, .inl ⟨rfl, checkStop_isFinished hstop⟩⟩
      rw [happend]
    · obtain ⟨⟨hashes', status', heq⟩, hstatus⟩ := ih (core.appendOutput q t)
      refine ⟨⟨hashes', status', ?_⟩, ?_⟩
      · rw [heq, happend]
        simp only [List.append_assoc, List.singleton_append]
      · rcases hstatus with hstop | ⟨hgo, hsame, hall⟩
        · exact .inl hstop
        · refine .inr ⟨hgo, ?_, ?_⟩
          · rw [hsame, happend]
          · rw [hall]

inductive OutputCase (core : SchedCore κ) (s : SchedulerState κ) (r : ReqId) (ts : List TokenId) :
    SchedulerState κ → List TokenId → Bool → Prop
  | discarded (hasync : core.cfg.asyncScheduling = true)
      (hdiscard : 0 < (s.req r).asyncTokensToDiscard) :
      OutputCase core s r ts (s.setReq r fun q =>
        { q with asyncTokensToDiscard := q.asyncTokensToDiscard - 1 }) [] false
  | sync (hasync : core.cfg.asyncScheduling = false) (hpooling : (s.req r).pooling = false) :
      OutputCase core s r ts (s.setReq r fun _ => (core.appendTokens ts (s.req r)).1)
        (core.appendTokens ts (s.req r)).2.1 (core.appendTokens ts (s.req r)).2.2
  | async {kv : κ} (hasync : core.cfg.asyncScheduling = true)
      (hdiscard : (s.req r).asyncTokensToDiscard ≤ 0) (hpooling : (s.req r).pooling = false)
      (hplaceholders : 0 ≤ (s.req r).numOutputPlaceholders -
        (core.appendTokens ts (s.req r)).2.1.length)
      (hkv : (s.req r).status ≠ .running ∧ kv = s.kv ∨ (s.req r).status = .running ∧
        core.ops.cacheBlocks s.kv
          { (core.appendTokens ts (s.req r)).1 with
            numOutputPlaceholders := (s.req r).numOutputPlaceholders -
              (core.appendTokens ts (s.req r)).2.1.length }
          ((core.appendTokens ts (s.req r)).1.numComputedTokens -
            ((s.req r).numOutputPlaceholders - (core.appendTokens ts (s.req r)).2.1.length)) =
          .ok kv) :
      OutputCase core s r ts
        (({ s with kv := kv } : SchedulerState κ).setReq r fun _ =>
          { (core.appendTokens ts (s.req r)).1 with
            numOutputPlaceholders := (s.req r).numOutputPlaceholders -
              (core.appendTokens ts (s.req r)).2.1.length })
        (core.appendTokens ts (s.req r)).2.1 (core.appendTokens ts (s.req r)).2.2

theorem updateRequestWithOutput_cases {ts : List TokenId}
    (h : core.updateRequestWithOutput s r ts = .ok (s', new, stop)) :
    OutputCase core s r ts s' new stop := by
  unfold updateRequestWithOutput at h
  dsimp only at h
  split at h
  · rename_i hdiscard
    cases h
    exact .discarded hdiscard.1 hdiscard.2
  · rename_i hdiscard
    split at h
    · cases h
    rename_i hpooling
    have hpooling := Bool.not_eq_true _ ▸ hpooling
    split at h
    · rename_i hasync
      have hdiscard' : (s.req r).asyncTokensToDiscard ≤ 0 := by
        by_contra hlt
        exact hdiscard ⟨hasync, by omega⟩
      split at h
      · cases h
      split at h
      · rename_i hstatus
        split at h
        · cases h
        rename_i kv hkv
        obtain ⟨rfl, hpair⟩ := Prod.mk.inj (Except.ok.inj h)
        obtain ⟨rfl, rfl⟩ := Prod.ext_iff.mp hpair
        exact .async hasync hdiscard' hpooling (by omega) (.inr ⟨hstatus, hkv⟩)
      · rename_i hstatus
        obtain ⟨rfl, hpair⟩ := Prod.mk.inj (Except.ok.inj h)
        obtain ⟨rfl, rfl⟩ := Prod.ext_iff.mp hpair
        have hkv : (s.req r).status ≠ .running ∧ s.kv = s.kv := ⟨hstatus, rfl⟩
        exact .async hasync hdiscard' hpooling (by omega) (.inl hkv)
    · rename_i hasync
      obtain ⟨rfl, hpair⟩ := Prod.mk.inj (Except.ok.inj h)
      obtain ⟨rfl, rfl⟩ := Prod.ext_iff.mp hpair
      exact .sync (Bool.not_eq_true _ ▸ hasync) hpooling

inductive TakeCase (core : SchedCore κ) (result : StepResult) (s : SchedulerState κ) (r : ReqId) :
    SchedulerState κ → List TokenId → Bool → Prop
  | tokens {s' : SchedulerState κ} {new : List TokenId} {stop : Bool}
      (hne : result.sampledTokenIds r ≠ [])
      (h : OutputCase core s r (result.sampledTokenIds r) s' new stop) :
      TakeCase core result s r s' new stop
  | pooled (hnone : result.sampledTokenIds r = []) (hpooling : (s.req r).pooling = true)
      (hout : result.poolerOutput r = true) :
      TakeCase core result s r (s.setReq r (withStatus .finishedStopped)) [] true
  | nothing (hnone : result.sampledTokenIds r = []) : TakeCase core result s r s [] false

theorem takeOutput_cases (h : core.takeOutput result s r = .ok (s', new, stop)) :
    TakeCase core result s r s' new stop := by
  unfold takeOutput at h
  split at h
  · rename_i hne
    exact .tokens hne (updateRequestWithOutput_cases h)
  rename_i hnone
  split at h
  · rename_i hpool
    cases h
    exact .pooled (not_not.mp hnone) hpool.1 hpool.2
  · cases h
    exact .nothing (not_not.mp hnone)

inductive FinishCase (core : SchedCore κ) (result : StepResult) (s : SchedulerState κ) (r : ReqId)
    (new : List TokenId) (stop : Bool) : SchedulerState κ → Bool → Prop
  | goesOn (hstop : stop = false) (hgrammar : (!new.isEmpty && result.grammarRejects r) = false) :
      FinishCase core result s r new stop s false
  | continues {s' : SchedulerState κ}
      (hstop : (stop || (!new.isEmpty && result.grammarRejects r)) = true)
      (hhandle : core.handleStoppedRequest (afterGrammar result s r new) r = (s', false)) :
      FinishCase core result s r new stop s' true
  | finishes {s₁ s' : SchedulerState κ}
      (hstop : (stop || (!new.isEmpty && result.grammarRejects r)) = true)
      (hhandle : core.handleStoppedRequest (afterGrammar result s r new) r = (s₁, true))
      (hfree : core.freeRequest result.connectorDelays s₁ r false = .ok s') :
      FinishCase core result s r new stop s' true

theorem finishOutput_cases (h : core.finishOutput result s r new stop = .ok (s', b)) :
    FinishCase core result s r new stop s' b := by
  unfold finishOutput at h
  dsimp only at h
  split at h
  · rename_i hstop
    split at h
    · rename_i s₁ hhandle
      obtain ⟨s₂, hfree, heq⟩ := Run.map_eq_ok h
      cases heq
      exact .finishes hstop hhandle hfree
    · rename_i s₁ hhandle
      cases h
      exact .continues hstop hhandle
  · rename_i hstop
    have hboth := Bool.not_eq_true _ ▸ hstop
    obtain ⟨hstop, hgrammar⟩ := Bool.or_eq_false_iff.mp hboth
    cases h
    unfold afterGrammar
    rw [if_neg (by rw [hgrammar]; exact Bool.false_ne_true)]
    exact .goesOn hstop hgrammar

/-- The stages in which `update_from_output` processes one request. -/
structure ProcessCase (core : SchedCore κ) (out : SchedulerOutput) (result : StepResult)
    (r : ReqId) (s : SchedulerState κ) (s₁ s₂ s' : SchedulerState κ) (new : List TokenId)
    (stop b : Bool) : Prop where
  inputs : ∃ s₀ encoder, s₀ = s.setReq r (rejectDrafts core.cfg
      ((out.scheduledSpecDecodeTokens.lookup r).getD []) (result.sampledTokenIds r)) ∧
    s₁ = { s₀ with encoder := encoder } ∧
    (encoder = s.encoder ∨ freeDoneInputs core.cfg (s₀.req r) s.encoder = .ok encoder)
  take : TakeCase core result s₁ r s₂ new stop
  finish : FinishCase core result s₂ r new stop s' b

variable {stopped' : Stopped} {evict : Bool}

theorem processRequest_cases (h : core.processRequest out result r s stopped = .ok (s', stopped')) :
    ∃ s₁ s₂ new stop b, ProcessCase core out result r s s₁ s₂ s' new stop b ∧
      ((b = false ∧ stopped' = stopped) ∨
        (b = true ∧ (s₁.req r).status = .running ∧
          stopped' = { stopped with running := stopped.running.insert r }) ∨
        (b = true ∧ (s₁.req r).status ≠ .running ∧
          stopped' = { stopped with preempted := stopped.preempted.insert r })) := by
  unfold processRequest at h
  dsimp only at h
  generalize hs₀ : s.setReq r (rejectDrafts core.cfg
    ((out.scheduledSpecDecodeTokens.lookup r).getD []) (result.sampledTokenIds r)) = s₀ at h
  split at h
  · cases h
  rename_i s₁ hs₁
  have hsame : s₀.encoder = s.encoder := by
    rw [← hs₀]
    rfl
  have hinputs : ∃ s₀' encoder, s₀' = s₀ ∧ s₁ = { s₀' with encoder := encoder } ∧
      (encoder = s.encoder ∨ freeDoneInputs core.cfg (s₀'.req r) s.encoder = .ok encoder) := by
    split at hs₁
    · cases hs₁
      exact ⟨s₀, s₀.encoder, rfl, rfl, .inl hsame⟩
    · obtain ⟨encoder, hfree, heq⟩ := Run.map_eq_ok hs₁
      rw [hsame] at hfree
      exact ⟨s₀, encoder, rfl, heq.symm, .inr hfree⟩
  split at h
  · cases h
  rename_i s₂ new stop htake
  split at h
  · cases h
  · rename_i hfinish
    cases h
    exact ⟨s₁, s₂, new, stop, false, ⟨by rw [hs₀]; exact hinputs, takeOutput_cases htake,
      finishOutput_cases hfinish⟩, .inl ⟨rfl, rfl⟩⟩
  · rename_i hfinish
    have hcase : ∀ s'', core.finishOutput result s₂ r new stop = .ok (s'', true) →
        ProcessCase core out result r s s₁ s₂ s'' new stop true := fun s'' hf =>
      ⟨by rw [hs₀]; exact hinputs, takeOutput_cases htake, finishOutput_cases hf⟩
    split at h
    · rename_i hrunning
      cases h
      exact ⟨s₁, s₂, new, stop, true, hcase _ hfinish, .inr (.inl ⟨rfl, hrunning, rfl⟩)⟩
    · rename_i hrunning
      cases h
      exact ⟨s₁, s₂, new, stop, true, hcase _ hfinish, .inr (.inr ⟨rfl, hrunning, rfl⟩)⟩

theorem processRequests_rule (Inv : List (ReqId × Int) → SchedulerState κ → Prop)
    (hskip : ∀ {e : ReqId × Int} {rest : List (ReqId × Int)} {s : SchedulerState κ},
      Inv (e :: rest) s → Inv rest s)
    (hone : ∀ {e : ReqId × Int} {rest : List (ReqId × Int)} {s s' : SchedulerState κ}
      {stopped stopped' : Stopped}, Inv (e :: rest) s → e.1 ∈ s.requests →
      core.processRequest out result e.1 s stopped = .ok (s', stopped') → Inv rest s')
    (hs : Inv scheduled s)
    (h : core.processRequests out result failed scheduled s stopped = .ok (s', stopped')) :
    Inv [] s' := by
  induction scheduled generalizing s stopped with
  | nil =>
    cases h
    exact hs
  | cons e rest ih =>
    unfold processRequests at h
    split at h
    · cases h
    split at h
    · exact ih (hskip hs) h
    rename_i hturn
    rw [not_or, not_or, not_not] at hturn
    split at h
    · cases h
    · rename_i hprocess
      exact ih (hone hs hturn.2.1 hprocess) h

/-! ### Failed loads and transfers -/

/-- Only the computed tokens, the blocks and the failed loads change. -/
def Truncated (s s' : SchedulerState κ) : Prop :=
  ∃ req kv failed, s' = { s with req := req, kv := kv, failedRecvingKvReqIds := failed } ∧
    ∀ x, ∃ computed, req x = { s.req x with numComputedTokens := computed }

theorem Truncated.refl (s : SchedulerState κ) : Truncated s s :=
  ⟨s.req, s.kv, s.failedRecvingKvReqIds, rfl, fun x => ⟨(s.req x).numComputedTokens, rfl⟩⟩

theorem Truncated.trans {s s₁ s₂ : SchedulerState κ} (h : Truncated s s₁) (h' : Truncated s₁ s₂) :
    Truncated s s₂ := by
  obtain ⟨req, kv, failed, rfl, hreq⟩ := h
  obtain ⟨req', kv', failed', rfl, hreq'⟩ := h'
  refine ⟨req', kv', failed', rfl, fun x => ?_⟩
  obtain ⟨computed, hx⟩ := hreq x
  obtain ⟨computed', hx'⟩ := hreq' x
  refine ⟨computed', hx'.trans ?_⟩
  show { req x with numComputedTokens := computed' } = _
  rw [hx]

theorem Truncated.setComputed (s : SchedulerState κ) (r : ReqId) (computed : Int) :
    Truncated s (s.setReq r fun q => { q with numComputedTokens := computed }) := by
  refine ⟨_, s.kv, s.failedRecvingKvReqIds, rfl, fun x => ?_⟩
  by_cases hx : x = r
  · subst hx
    exact ⟨computed, by rw [Function.update_self]⟩
  · exact ⟨(s.req x).numComputedTokens, by rw [Function.update_of_ne hx]⟩

theorem updateInvalid_cases {p p' : SchedulerState κ × InvalidScan}
    (h : core.updateInvalid invalid scheduled evict p r = .ok p') :
    Truncated p.1 p'.1 ∧ p'.1.kv = p.1.kv := by
  unfold updateInvalid at h
  dsimp only at h
  split at h
  · split at h
    · cases h
      exact ⟨.setComputed p.1 r _, rfl⟩
    split at h
    · cases h
      exact ⟨.setComputed p.1 r _, rfl⟩
    · cases h
      exact ⟨.refl p.1, rfl⟩
  · cases h

theorem updateInvalids_cases
    (h : Run.run (core.updateInvalid invalid scheduled evict) (s, scan) rs = .ok (s', scan')) :
    Truncated s s' ∧ s'.kv = s.kv := by
  refine Run.run_rule (fun _ p => Truncated s p.1 ∧ p.1.kv = s.kv) (fun hs hone => ?_)
    ⟨.refl s, rfl⟩ h
  obtain ⟨hcut, hkv⟩ := updateInvalid_cases hone
  exact ⟨hs.1.trans hcut, hkv.trans hs.2⟩

theorem handleInvalidBlocks_cases
    (h : core.handleInvalidBlocks invalid scheduled s = .ok (s', failed)) :
    Truncated s s' ∧
      (s'.kv = s.kv ∨ ∃ blocks, core.ops.evictBlocks s.kv blocks = .ok s'.kv) := by
  unfold handleInvalidBlocks at h
  dsimp only at h
  split at h
  · cases h
  rename_i s₁ _ hasync
  split at h
  · cases h
  rename_i s₂ _ hsync
  obtain ⟨hfirst, hkv₁⟩ := updateInvalids_cases hasync
  obtain ⟨hsecond, hkv₂⟩ := updateInvalids_cases hsync
  have hboth := hfirst.trans hsecond
  have hkv := hkv₂.trans hkv₁
  split at h
  · cases h
    exact ⟨hboth, .inl hkv⟩
  split at h
  · cases h
    exact ⟨hboth.trans ⟨s₂.req, s₂.kv, _, rfl, fun x => ⟨_, rfl⟩⟩, .inl hkv⟩
  split at h
  · cases h
  rename_i kv hevict
  cases h
  refine ⟨hboth.trans ⟨s₂.req, kv, _, rfl, fun x => ⟨_, rfl⟩⟩, ?_⟩
  split at hevict
  · cases hevict
    exact .inl hkv
  · rw [hkv] at hevict
    exact .inr ⟨_, hevict⟩

/-- The states that `update_from_output` goes through. -/
structure UpdateCase (core : SchedCore κ) (s : SchedulerState κ) (out : SchedulerOutput)
    (result : StepResult) (s₁ s₂ s₃ s' : SchedulerState κ) (failed : List ReqId)
    (stopped : Stopped) : Prop where
  invalid : (result.invalidBlockIds = [] ∧ s₁ = core.stepProcessed s out ∧ failed = []) ∨
    (result.invalidBlockIds ≠ [] ∧ core.handleInvalidBlocks result.invalidBlockIds
      out.numScheduledTokens (core.stepProcessed s out) = .ok (s₁, failed))
  process : core.processRequests out result failed out.numScheduledTokens s₁ {} = .ok (s₂, stopped)
  fail : (s₃ = removeStopped core.cfg s₂ stopped ∧
      (failed = [] ∨ core.cfg.recomputeKvLoadFailures = true)) ∨
    (failed ≠ [] ∧ core.cfg.recomputeKvLoadFailures = false ∧
      core.finishRequests result.connectorDelays (removeStopped core.cfg s₂ stopped) (some failed)
        .finishedError = .ok s₃)
  transfers : core.updateFromKvXferFinished result s₃ = .ok s'

theorem updateFromOutput_cases (h : core.updateFromOutput s out result = .ok s') :
    ∃ s₁ s₂ s₃ failed stopped, UpdateCase core s out result s₁ s₂ s₃ s' failed stopped := by
  unfold updateFromOutput at h
  dsimp only at h
  split at h
  · cases h
  rename_i s₁ failed hinvalid
  split at h
  · cases h
  rename_i s₂ stopped hprocess
  split at h
  · cases h
  rename_i s₃ hfail
  refine ⟨s₁, s₂, s₃, failed, stopped, ?_, hprocess, ?_, h⟩
  · split at hinvalid
    · rename_i hnone
      cases hinvalid
      exact .inl ⟨hnone, rfl, rfl⟩
    · rename_i hsome
      exact .inr ⟨hsome, hinvalid⟩
  · split at hfail
    · rename_i hfailed
      exact .inr ⟨hfailed.1, hfailed.2, hfail⟩
    rename_i hok
    cases hfail
    refine .inl ⟨rfl, ?_⟩
    by_cases hnil : failed = []
    · exact .inl hnil
    · refine .inr (Bool.not_eq_false _ ▸ fun hrec => hok ⟨hnil, hrec⟩)

theorem UpdateCase.truncated {s₁ s₂ s₃ : SchedulerState κ}
    (h : UpdateCase core s out result s₁ s₂ s₃ s' failed stopped) :
    Truncated (core.stepProcessed s out) s₁ := by
  rcases h.invalid with ⟨-, rfl, -⟩ | ⟨-, hinvalid⟩
  · exact .refl _
  · exact (handleInvalidBlocks_cases hinvalid).1

/-- A finished transfer marks the request, or releases the blocks of a finished one. -/
inductive TransferStep (core : SchedCore κ) (s : SchedulerState κ) : SchedulerState κ → Prop
  | received (r : ReqId) (hmem : r ∈ s.requests)
      (hstatus : (s.req r).status = .waitingForRemoteKvs) :
      TransferStep core s
        { s with finishedRecvingKvReqIds := s.finishedRecvingKvReqIds.insert r }
  | released (r : ReqId) {s' : SchedulerState κ} (h : core.freeBlocks s r = .ok s') :
      TransferStep core s s'

theorem updateFromKvXferFinished_invariant (Inv : SchedulerState κ → Prop)
    (hone : ∀ {s s' : SchedulerState κ}, Inv s → TransferStep core s s' → Inv s') (hs : Inv s)
    (h : core.updateFromKvXferFinished result s = .ok s') : Inv s' := by
  unfold updateFromKvXferFinished at h
  split at h
  · cases h
  rename_i hfirst
  refine Run.run_rule (fun _ => Inv) (fun hs h => ?_)
    (Run.run_rule (fun _ => Inv) (fun hs h => ?_) hs hfirst) h
  · unfold sendFinished at h
    split at h
    · cases h
    · exact hone hs (.released _ h)
  · unfold receiveFinished at h
    split at h
    · cases h
    rename_i hmem
    split at h
    · rename_i hstatus
      cases h
      exact hone hs (.received _ (not_not.mp hmem) hstatus)
    · exact hone hs (.released _ h)

theorem resetPrefixCache_cases {resetRunning : Bool}
    (h : core.resetPrefixCache s resetRunning = .ok (s', b)) :
    ∃ s₁, (resetRunning = true ∧ Run.run core.preemptLast s s.running.reverse = .ok s₁ ∨
        resetRunning = false ∧ s₁ = s) ∧
      s' = { s₁ with kv := (core.ops.resetPrefixCache s₁.kv).1 } ∧
      b = (core.ops.resetPrefixCache s₁.kv).2 := by
  unfold resetPrefixCache at h
  split at h
  · cases h
  rename_i s₁ hs₁
  dsimp only at h
  split at h
  · cases h
  cases h
  refine ⟨s₁, ?_, rfl, rfl⟩
  split at hs₁
  · rename_i hreset
    exact .inl ⟨hreset, hs₁⟩
  · rename_i hreset
    cases hs₁
    exact .inr ⟨Bool.not_eq_true _ ▸ hreset, rfl⟩

end SchedCore
end Vllm.Sched
