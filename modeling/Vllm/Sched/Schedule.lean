import Vllm.Sched.TokenCounts

/-! `Scheduler.schedule` (`vllm/v1/core/sched/scheduler.py`): the loop over the running requests
with its preemptions, the loop over the waiting ones, and the state after the step. -/
namespace Vllm.Sched

open KVCache (BlockId KVError SlotArgs)

def dictSet {β : Type} (d : List (ReqId × β)) (r : ReqId) (v : β) : List (ReqId × β) :=
  if d.any (·.1 = r) then d.map fun e => if e.1 = r then (r, v) else e else d ++ [(r, v)]

def dictErase {β : Type} (d : List (ReqId × β)) (r : ReqId) : List (ReqId × β) :=
  d.filter (·.1 ≠ r)

/-- `SchedulerOutput`, without the data that only the workers read. -/
structure SchedulerOutput where
  scheduledNewReqs : List ReqId
  scheduledResumedReqs : List ReqId
  scheduledRunningReqs : List ReqId
  reqToNewBlocks : List (ReqId × List (List BlockId))
  numScheduledTokens : List (ReqId × Int)
  totalNumScheduledTokens : Int
  scheduledSpecDecodeTokens : List (ReqId × List TokenId)
  scheduledEncoderInputs : List (ReqId × List Nat)
  /-- The inputs that the encoder connector loads in this step. -/
  externalEncoderInputs : List (ReqId × List Nat)
  preemptedReqIds : List ReqId
  finishedReqIds : List ReqId
  freeEncoderMmHashes : List String
  numSpecTokensToSchedule : Nat

structure Pass (κ : Type) where
  state : SchedulerState κ
  scheduledNewReqs : List ReqId := []
  scheduledResumedReqs : List ReqId := []
  scheduledRunningReqs : List ReqId := []
  preemptedReqs : List ReqId := []
  reqToNewBlocks : List (ReqId × List (List BlockId)) := []
  numScheduledTokens : List (ReqId × Int) := []
  tokenBudget : Int
  scheduledEncoderInputs : List (ReqId × List Nat) := []
  externalEncoderInputs : List (ReqId × List Nat) := []
  encoderComputeBudget : Int
  scheduledSpecDecodeTokens : List (ReqId × List TokenId) := []
  prefillScheduled : Bool := false
  reqIndex : Nat := 0
  stepSkippedWaiting : RequestQueue := []
  scheduledLoras : List Nat := []

variable {κ : Type}

structure SchedEnv (κ : Type) where
  cfg : SchedConfig
  ops : KVOps κ
  answers : Answers

namespace Pass

/-! ### Running requests -/

variable (env : SchedEnv κ) (deferPrefills : Bool)

/-- The conditions under which the loop passes over a running request. -/
def skipsRunning (s : SchedulerState κ) (request : Request) : Bool :=
  (decide (0 < request.numOutputPlaceholders) &&
    decide ((request.numPromptTokens : Int) + request.maxTokens ≤
      request.numComputedTokens + 2 - request.numOutputPlaceholders)) ||
  decide (s.currentStep < request.nextDecodeEligibleStep) ||
  (deferPrefills && request.isPrefillChunk)

/-- `max(self.running, key=lambda r: (r.priority, r.arrival_time))`. -/
def lowestPriority (s : SchedulerState κ) : List ReqId → Option ReqId
  | [] => none
  | r :: rs =>
    some (rs.foldl (fun best r =>
      let a := s.req best
      let b := s.req r
      if a.priority < b.priority ∨ (a.priority = b.priority ∧ a.arrivalTime < b.arrivalTime) then r
      else best) r)

def numEncoderEmbeds (request : Request) (inputs : List Nat) : Nat :=
  (inputs.map fun i => (request.mmFeatures[i]?.elim 0 (·.mmPosition.getNumEmbeds))).sum

/-- What is taken back when a request that was scheduled in this step, with `n` tokens, is
preempted. -/
def withdrawn (p : Pass κ) (r : ReqId) (n : Int) : Pass κ :=
  { p with
    scheduledRunningReqs := p.scheduledRunningReqs.erase r
    tokenBudget := p.tokenBudget + n
    numScheduledTokens := dictErase p.numScheduledTokens r
    reqToNewBlocks := dictErase p.reqToNewBlocks r
    scheduledSpecDecodeTokens := dictErase p.scheduledSpecDecodeTokens r
    scheduledEncoderInputs := dictErase p.scheduledEncoderInputs r
    encoderComputeBudget := p.encoderComputeBudget + (p.scheduledEncoderInputs.lookup r).elim 0
      fun inputs => (numEncoderEmbeds (p.state.req r) inputs : Int)
    reqIndex := p.reqIndex - 1 }

def withdraw (p : Pass κ) (r : ReqId) : Except SchedError (Pass κ) :=
  match p.numScheduledTokens.lookup r, p.reqToNewBlocks.lookup r with
  | some n, some _ => .ok (p.withdrawn r n)
  | _, _ => .error .keyError

def withState (p : Pass κ) (s : SchedulerState κ) : Pass κ := { p with state := s }

def withRunning (p : Pass κ) (running : List ReqId) : Pass κ :=
  { p with state := { p.state with running := running } }

def withEncoder (p : Pass κ) (encoder : EncoderCache) : Pass κ :=
  { p with state := { p.state with encoder := encoder } }

def withKv (p : Pass κ) (kv : κ) : Pass κ := { p with state := { p.state with kv := kv } }

/-- The request that is preempted next, out of the running list and of what this step
scheduled. -/
def takeVictim (cfg : SchedConfig) (p : Pass κ) : Except SchedError (Pass κ × ReqId) :=
  match cfg.policy with
  | .priority =>
    match lowestPriority p.state p.state.running with
    | none => .error .indexError
    | some v =>
      let p := p.withRunning (p.state.running.erase v)
      if v ∈ p.scheduledRunningReqs then (p.withdraw v).map (·, v) else .ok (p, v)
  | .fcfs =>
    match p.state.running.getLast? with
    | none => .error .indexError
    | some v => .ok (p.withRunning p.state.running.dropLast, v)

def preempt (p : Pass κ) (v : ReqId) : Except SchedError (Pass κ) :=
  match p.state.preemptRequest env.ops env.cfg v with
  | .error e => .error e
  | .ok s => .ok { p with state := s, preemptedReqs := p.preemptedReqs ++ [v] }

def allocateOne (p : Pass κ) (r : ReqId) (n : Int) :
    Except KVError (κ × Option (List (List BlockId))) :=
  env.ops.allocateSlots p.state.kv
    { request := p.state.req r, numNewTokens := n,
      numLookaheadTokens := env.cfg.numLookaheadTokens }

/-- `allocate_slots` for a running request, preempting others until it succeeds or the request
itself is preempted. A step of the loop shortens the running list. -/
def allocateRunning (env : SchedEnv κ) (r : ReqId) (n : Int) :
    Nat → Pass κ → Except SchedError (Pass κ × Option (List (List BlockId)))
  | 0, _ => .error .indexError
  | fuel + 1, p =>
    match p.allocateOne env r n with
    | .error e => .error (.kv e)
    | .ok (kv, some blocks) => .ok (p.withKv kv, some blocks)
    | .ok (kv, none) =>
      match (p.withKv kv).takeVictim env.cfg with
      | .error e => .error e
      | .ok (p, v) =>
        match p.preempt env v with
        | .error e => .error e
        | .ok p => if v = r then .ok (p, none) else allocateRunning env r n fuel p

def scheduledDrafts (request : Request) (n : Int) : List TokenId :=
  let num := n + request.numComputedTokens - request.numTokens - request.numOutputPlaceholders
  request.specTokenIds.take num.toNat

def withInputs (p : Pass κ) (r : ReqId) (plan : EncoderPlan) (encoder : EncoderCache) : Pass κ :=
  { p with
    state := { p.state with encoder := encoder }
    scheduledEncoderInputs :=
      if plan.inputs = [] then p.scheduledEncoderInputs
      else dictSet p.scheduledEncoderInputs r plan.inputs
    externalEncoderInputs :=
      if plan.external = [] then p.externalEncoderInputs
      else p.externalEncoderInputs ++ [(r, plan.external)]
    encoderComputeBudget := if plan.inputs = [] then p.encoderComputeBudget else plan.budget }

def allocateEncoder (p : Pass κ) (r : ReqId) (plan : EncoderPlan) : Except SchedError (Pass κ) :=
  (p.state.encoder.allocateInputs (p.state.req r) (plan.inputs ++ plan.external)).map
    (p.withInputs r plan)

def granted (p : Pass κ) (r : ReqId) (n : Int) (blocks : List (List BlockId)) : Pass κ :=
  let request := p.state.req r
  let drafts := scheduledDrafts request n
  { p with
    state := p.state.setReq r fun q => { q with specTokenIds := [] }
    scheduledRunningReqs := p.scheduledRunningReqs ++ [r]
    prefillScheduled := p.prefillScheduled || request.isPrefillChunk
    reqToNewBlocks := dictSet p.reqToNewBlocks r blocks
    numScheduledTokens := dictSet p.numScheduledTokens r n
    tokenBudget := p.tokenBudget - n
    reqIndex := p.reqIndex + 1
    scheduledSpecDecodeTokens :=
      if drafts = [] then p.scheduledSpecDecodeTokens
      else dictSet p.scheduledSpecDecodeTokens r drafts }

def commitRunning (p : Pass κ) (r : ReqId) (n : Int) (plan : EncoderPlan)
    (blocks : List (List BlockId)) : Except SchedError (Pass κ) :=
  (p.granted r n blocks).allocateEncoder r plan

def advance (p : Pass κ) : Pass κ := { p with reqIndex := p.reqIndex + 1 }

def planRunning (p : Pass κ) (r : ReqId) : Except SchedError (EncoderCache × EncoderPlan) :=
  let request := p.state.req r
  tryScheduleEncoderInputs env.cfg env.answers p.state.encoder request request.numComputedTokens
    (env.cfg.runningCount request p.tokenBudget) p.encoderComputeBudget

def runningTokens (cfg : SchedConfig) (request : Request) (plan : EncoderPlan) : Int :=
  if cfg.needMambaBlockAlignedSplit then
    cfg.mambaBlockAlignedSplit request plan.numNew request.numComputedTokens 0
  else plan.numNew

/-- One turn of the loop over the running requests, and whether the loop goes on. -/
def runningStep (p : Pass κ) (r : ReqId) : Except SchedError (Pass κ × Bool) :=
  if skipsRunning deferPrefills p.state (p.state.req r) then .ok (p.advance, true)
  else
    match p.planRunning env r with
    | .error e => .error e
    | .ok (encoder, plan) =>
      let n := runningTokens env.cfg (p.state.req r) plan
      if n = 0 then .ok ((p.withEncoder encoder).advance, true)
      else
        match allocateRunning env r n (p.state.running.length + 1) (p.withEncoder encoder) with
        | .error e => .error e
        | .ok (p, none) => .ok (p, false)
        | .ok (p, some blocks) => (p.commitRunning r n plan blocks).map (·, true)

/-- The loop over the running requests. A turn brings `reqIndex` closer to the end of the
list. -/
def runningLoop (env : SchedEnv κ) (deferPrefills : Bool) :
    Nat → Pass κ → Except SchedError (Pass κ)
  | 0, p => .ok p
  | fuel + 1, p =>
    match p.state.running[p.reqIndex]? with
    | none => .ok p
    | some r =>
      if p.tokenBudget ≤ 0 then .ok p
      else
        match p.runningStep env deferPrefills r with
        | .error e => .error e
        | .ok (p, false) => .ok p
        | .ok (p, true) => runningLoop env deferPrefills fuel p

/-! ### Waiting requests -/

inductive WaitingQueue
  | waiting
  | skipped
  deriving DecidableEq, Repr

/-- `_select_waiting_queue_for_scheduling`, with the head of the queue. -/
def selectWaiting (cfg : SchedConfig) (s : SchedulerState κ) : Option (WaitingQueue × ReqId) :=
  match cfg.policy, s.waiting.head?, s.skippedWaiting.head? with
  | .fcfs, _, some k => some (.skipped, k)
  | .priority, some w, some k => if s.lt w k then some (.waiting, w) else some (.skipped, k)
  | .priority, none, some k => some (.skipped, k)
  | _, some w, none => some (.waiting, w)
  | _, none, none => none

def popWaiting (cfg : SchedConfig) (s : SchedulerState κ) : WaitingQueue → SchedulerState κ
  | .waiting => { s with waiting := s.waiting.popRequest cfg.policy s.lt }
  | .skipped => { s with skippedWaiting := s.skippedWaiting.popRequest cfg.policy s.lt }

def updateWaitingForRemoteKv (s : SchedulerState κ) (r : ReqId) :
    Except SchedError (SchedulerState κ) :=
  let request := s.req r
  let received (s : SchedulerState κ) :=
    { s with finishedRecvingKvReqIds := s.finishedRecvingKvReqIds.filter (· ≠ r) }
  if env.cfg.hasConnector = false then .error .assertion
  else if r ∈ s.failedRecvingKvReqIds then
    let kv :=
      if request.numComputedTokens ≠ 0 then
        env.ops.cacheBlocks s.kv request request.numComputedTokens
      else env.ops.free s.kv r
    match kv with
    | .error e => .error (.kv e)
    | .ok kv =>
      .ok (received
        { s with
          kv := kv
          failedRecvingKvReqIds := s.failedRecvingKvReqIds.filter (· ≠ r) })
  else
    match env.ops.cacheBlocks s.kv request request.numComputedTokens with
    | .error e => .error (.kv e)
    | .ok kv =>
      .ok (received ({ s with kv := kv }.setReq r fun q =>
        if q.numComputedTokens = q.numTokens then
          { q with numComputedTokens := q.numTokens - 1 }
        else q))

/-- `_try_promote_blocked_waiting_request`, which is called for blocked requests only. -/
def tryPromote (s : SchedulerState κ) (r : ReqId) : Except SchedError (SchedulerState κ × Bool) :=
  match (s.req r).status with
  | .waitingForRemoteKvs =>
    if r ∈ s.finishedRecvingKvReqIds then
      match updateWaitingForRemoteKv env s r with
      | .error e => .error e
      | .ok s =>
        .ok (s.setReq r fun q =>
          { q with status := if q.numPreemptions ≠ 0 then .preempted else .waiting }, true)
    else .ok (s, false)
  | .waitingForStructuredOutputGrammar =>
    if env.answers.grammarReady r then
      .ok (s.setReq r fun q => { q with status := .waiting }, true)
    else .ok (s, false)
  | .waitingForStreamingReq =>
    if (s.req r).streamingQueue ≠ [] then .error .assertion else .ok (s, false)
  | _ => .ok (s, true)

def exceedsLoras (cfg : SchedConfig) (p : Pass κ) (request : Request) : Bool :=
  match cfg.maxLoras, request.loraRequest with
  | some maxLoras, some lora =>
    decide (p.scheduledLoras.length = maxLoras ∧ lora.loraIntId ∉ p.scheduledLoras)
  | _, _ => false

/-- What is known of the tokens of a waiting request that need not be computed. -/
structure CachedTokens where
  blocks : List (List BlockId) := []
  numLocal : Nat := 0
  numExternal : Nat := 0
  loadKvAsync : Bool := false
  numComputed : Int
  numUncachedCommonPrefix : Nat := 0

/-- The lookups in the prefix cache and in the connectors; `none` when the request has to be
skipped. -/
def cachedTokens (s : SchedulerState κ) (r : ReqId) : Except SchedError (Option CachedTokens) :=
  let cfg := env.cfg
  let request := s.req r
  if request.numComputedTokens ≠ 0 then .ok (some { numComputed := request.numComputedTokens })
  else
    let hit :=
      if cfg.hasConnector ∧ cfg.hasMambaLayers ∧ cfg.hybridCoordinator then
        env.ops.findLongestCacheHitPerGroup s.kv request
      else env.ops.getComputedBlocks s.kv request
    match hit, (if cfg.hasConnector then env.answers.matchedTokens r else some 0) with
    | .error e, _ => .error (.kv e)
    | .ok _, none => .ok none
    | .ok hit, some numExternal =>
      if request.numTokens < hit.numTokens + numExternal then .error .assertion
      else if cfg.hasEcConnector ∧ request.mmFeatures ≠ [] ∧
          env.answers.encodingsAvailable r = false then .ok none
      else
        .ok (some
          { blocks := hit.blocks
            numLocal := hit.numTokens
            numExternal := numExternal
            loadKvAsync := cfg.hasConnector && env.answers.loadKvAsync r
            numComputed := hit.numTokens + numExternal
            numUncachedCommonPrefix :=
              if cfg.hasMambaLayers then hit.numUncachedCommonPrefixTokens else 0 })

def padsSpecDecode (cfg : SchedConfig) (p : Pass κ) (numNew : Int) : Bool :=
  decide (0 < cfg.numSpecTokens) && cfg.dynamicSdLookup.isNone && decide (numNew = 1) &&
    !p.scheduledRunningReqs.isEmpty && !p.prefillScheduled

/-- The tokens of a waiting request before its encoder inputs are considered, and whether they
are padded; `none` ends the loop. -/
def admissionCount (cfg : SchedConfig) (deferPrefills : Bool) (p : Pass κ) (request : Request)
    (numComputed : Int) : Except SchedError (Option (Int × Bool)) :=
  let numNew : Int := request.numTokens - numComputed
  let pad := padsSpecDecode cfg p numNew
  let padded : Int := if pad then 1 + cfg.numSpecTokens else numNew
  let capped := cfg.capLongPrefill padded
  if deferPrefills ∧ numComputed < request.numTokens - 1 then .ok none
  else if pad ∧ (p.tokenBudget < padded ∨ (cfg.maxModelLen : Int) < numComputed + padded) then
    .ok none
  else if cfg.enableChunkedPrefill = false ∧ p.tokenBudget < capped then .ok none
  else if min capped p.tokenBudget ≤ 0 then .error .assertion
  else .ok (some (min capped p.tokenBudget, pad))

structure Admission where
  cached : CachedTokens
  numNew : Int
  padSpecDecode : Bool := false
  plan : EncoderPlan

inductive Visit
  | skip
  | stop
  | allocate (a : Admission)

def planWaiting (p : Pass κ) (r : ReqId) (cached : CachedTokens) (count : Int) :
    Except SchedError (EncoderCache × EncoderPlan) :=
  tryScheduleEncoderInputs env.cfg env.answers p.state.encoder (p.state.req r) cached.numComputed
    count p.encoderComputeBudget

def waitingTokens (cfg : SchedConfig) (request : Request) (cached : CachedTokens)
    (plan : EncoderPlan) : Int :=
  if cfg.needMambaBlockAlignedSplit then
    cfg.mambaBlockAlignedSplit request plan.numNew
      (request.numComputedTokens + cached.numLocal + cached.numExternal)
      cached.numUncachedCommonPrefix
  else plan.numNew

/-- The tokens of a waiting request that has no asynchronous load. -/
def planAdmission (p : Pass κ) (r : ReqId)
    (cached : CachedTokens) : Except SchedError (SchedulerState κ × Visit) :=
  match admissionCount env.cfg deferPrefills p (p.state.req r) cached.numComputed with
  | .error e => .error e
  | .ok none => .ok (p.state, .stop)
  | .ok (some (count, pad)) =>
    match p.planWaiting env r cached count with
    | .error e => .error e
    | .ok (encoder, plan) =>
      let s := { p.state with encoder := encoder }
      let numNew := waitingTokens env.cfg (s.req r) cached plan
      if plan.numNew = 0 ∨ numNew = 0 then .ok (s, .stop)
      else .ok (s, .allocate { cached, numNew, padSpecDecode := pad, plan })

/-- The head of a queue up to the allocation of its blocks. -/
def visit (p : Pass κ) (r : ReqId) : Except SchedError (SchedulerState κ × Visit) :=
  match tryPromote env p.state r with
  | .error e => .error e
  | .ok (s, false) => .ok (s, .skip)
  | .ok (s, true) =>
    if exceedsLoras env.cfg p (s.req r) then .ok (s, .skip)
    else
      match cachedTokens env s r with
      | .error e => .error e
      | .ok none => .ok (s, .skip)
      | .ok (some cached) =>
        if cached.loadKvAsync then
          if cached.numExternal = 0 then .error .assertion
          else
            .ok (s, .allocate
              { cached, numNew := 0, plan := { numNew := 0, budget := p.encoderComputeBudget } })
        else planAdmission env deferPrefills (p.withState s) r cached

/-- `_inflight_prefill_reserved_blocks`. -/
def reservedBlocks (ops : KVOps κ) (s : SchedulerState κ) : List ReqId → Except SchedError Int
  | [] => .ok 0
  | r :: rs =>
    match ops.remainingBlocks s.kv (s.req r) with
    | .error e => .error (.kv e)
    | .ok n =>
      match reservedBlocks ops s rs with
      | .error e => .error e
      | .ok total => .ok (n + total)

/-- The arguments of `allocate_slots` for a waiting request. -/
def admissionArgs (cfg : SchedConfig) (s : SchedulerState κ) (r : ReqId) (a : Admission)
    (reserved : Int) : SlotArgs where
  request := s.req r
  numNewTokens := a.numNew
  numNewComputedTokens := a.cached.numLocal
  newComputedBlocks := a.cached.blocks
  numLookaheadTokens :=
    if a.cached.loadKvAsync && cfg.useEagle then 0 else cfg.numLookaheadTokens
  numExternalComputedTokens := a.cached.numExternal
  delayCacheBlocks := a.cached.loadKvAsync
  numEncoderTokens := if cfg.isEncoderDecoder then numEncoderEmbeds (s.req r) a.plan.inputs else 0
  fullSequenceMustFit := cfg.schedulerReserveFullIsl
  reservedBlocks := reserved
  hasScheduledReqs := !s.running.isEmpty

/-- A request whose KV is loaded by the connector goes back to the skipped ones. -/
def startLoad (cfg : SchedConfig) (p : Pass κ) (r : ReqId) (a : Admission) : Pass κ :=
  let s := p.state.setReq r fun q =>
    { q with status := .waitingForRemoteKvs, numComputedTokens := a.cached.numComputed }
  { p with
    state := { s with inflightPrefills := s.inflightPrefills.insert r }
    stepSkippedWaiting := p.stepSkippedWaiting.prependRequest cfg.policy s.lt r }

def admitted (p : Pass κ) (r : ReqId) (a : Admission) : Pass κ :=
  let request := p.state.req r
  let s := p.state.setReq r fun q =>
    { q with status := .running, numComputedTokens := a.cached.numComputed }
  let prefilling := decide (a.cached.numComputed + a.numNew < request.numTokens)
  { p with
    state := { s with
      running := s.running ++ [r]
      inflightPrefills :=
        if prefilling then s.inflightPrefills.insert r else s.inflightPrefills }
    scheduledNewReqs :=
      if request.status = .waiting then p.scheduledNewReqs ++ [r] else p.scheduledNewReqs
    scheduledResumedReqs :=
      if request.status = .preempted then p.scheduledResumedReqs ++ [r]
      else p.scheduledResumedReqs
    scheduledLoras :=
      if env.cfg.maxLoras.isSome then
        request.loraRequest.elim p.scheduledLoras fun l => p.scheduledLoras.insert l.loraIntId
      else p.scheduledLoras
    reqToNewBlocks := dictSet p.reqToNewBlocks r (env.ops.getBlocks s.kv r)
    numScheduledTokens := dictSet p.numScheduledTokens r a.numNew
    tokenBudget := p.tokenBudget - a.numNew
    scheduledSpecDecodeTokens :=
      if a.padSpecDecode then
        dictSet p.scheduledSpecDecodeTokens r (List.replicate env.cfg.numSpecTokens (-1))
      else p.scheduledSpecDecodeTokens }

def admitRequest (p : Pass κ) (r : ReqId) (a : Admission) : Except SchedError (Pass κ) :=
  let request := p.state.req r
  if request.status ≠ .waiting ∧ request.status ≠ .preempted then .error .invalidStatus
  else (p.admitted env r a).allocateEncoder r a.plan

def allocateWaiting (p : Pass κ) (q : WaitingQueue) (r : ReqId) (a : Admission) :
    Except SchedError (Pass κ × Bool) :=
  let reserved :=
    if a.cached.loadKvAsync then reservedBlocks env.ops p.state p.state.inflightPrefills else .ok 0
  match reserved with
  | .error e => .error e
  | .ok reserved =>
    match env.ops.allocateSlots p.state.kv (admissionArgs env.cfg p.state r a reserved) with
    | .error e => .error (.kv e)
    | .ok (kv, none) =>
      let s := { p.state with kv := kv }
      if (s.req r).mmFeatures = [] then .ok (p.withState s, false)
      else (s.encoder.free (s.req r)).map fun encoder =>
        (p.withState { s with encoder := encoder }, false)
    | .ok (kv, some _) =>
      let p := p.withState (popWaiting env.cfg { p.state with kv := kv } q)
      if a.cached.loadKvAsync then .ok (startLoad env.cfg p r a, true)
      else (p.admitRequest env r a).map (·, true)

def skipWaiting (cfg : SchedConfig) (p : Pass κ) (q : WaitingQueue) (r : ReqId) : Pass κ :=
  { p with
    state := popWaiting cfg p.state q
    stepSkippedWaiting := p.stepSkippedWaiting.prependRequest cfg.policy p.state.lt r }

def waitingStep (p : Pass κ) (q : WaitingQueue) (r : ReqId) : Except SchedError (Pass κ × Bool) :=
  match p.visit env deferPrefills r with
  | .error e => .error e
  | .ok (s, .skip) => .ok ((p.withState s).skipWaiting env.cfg q r, true)
  | .ok (s, .stop) => .ok (p.withState s, false)
  | .ok (s, .allocate a) => (p.withState s).allocateWaiting env q r a

/-- The loop over the waiting requests. A turn takes one request out of the queues. -/
def waitingLoop (env : SchedEnv κ) (deferPrefills : Bool) :
    Nat → Pass κ → Except SchedError (Pass κ)
  | 0, p => .ok p
  | fuel + 1, p =>
    match selectWaiting env.cfg p.state with
    | none => .ok p
    | some (q, r) =>
      if p.tokenBudget ≤ 0 ∨ (env.cfg.maxNumRunningReqs : Int) ≤
          p.state.running.length + p.state.numWaitingForStreamingInput then .ok p
      else
        match p.waitingStep env deferPrefills q r with
        | .error e => .error e
        | .ok (p, false) => .ok p
        | .ok (p, true) => waitingLoop env deferPrefills fuel p

/-! ### The step -/

def runningLoras (cfg : SchedConfig) (p : Pass κ) : Except SchedError (List Nat) :=
  match cfg.maxLoras with
  | none => .ok []
  | some maxLoras =>
    let loras := (p.scheduledRunningReqs.filterMap fun r =>
      ((p.state.req r).loraRequest.map (·.loraIntId)).filter (0 < ·)).dedup
    if maxLoras < loras.length then .error .assertion else .ok loras

def requeue (p : Pass κ) : Pass κ :=
  let s := p.state
  { p with
    state := { s with
      skippedWaiting := s.skippedWaiting.prependRequests env.cfg.policy s.lt p.stepSkippedWaiting
      prefillCapacityBound :=
        if deferPrefills then s.prefillCapacityBound else !s.waiting.isEmpty }
    stepSkippedWaiting := [] }

def scheduleWaiting (p : Pass κ) : Except SchedError (Pass κ) :=
  if p.preemptedReqs ≠ [] ∨ p.state.pauseState ≠ .unpaused then .ok p
  else
    (waitingLoop env deferPrefills (p.state.waiting.length + p.state.skippedWaiting.length) p).map
      (requeue env deferPrefills)

def total (p : Pass κ) : Int := (p.numScheduledTokens.map (·.2)).sum

def constraintsHold (cfg : SchedConfig) (p : Pass κ) : Bool :=
  decide (p.total ≤ cfg.maxNumScheduledTokens) && decide (0 ≤ p.tokenBudget) &&
    decide (p.state.running.length ≤ cfg.maxNumRunningReqs) &&
    decide (p.scheduledNewReqs.length + p.scheduledResumedReqs.length +
      p.scheduledRunningReqs.length ≤ p.state.running.length)

def numSpecTokensToSchedule (cfg : SchedConfig) (p : Pass κ) : Except SchedError Nat :=
  match cfg.dynamicSdLookup with
  | none => .ok cfg.numSpecTokens
  | some lookup =>
    if p.numScheduledTokens = [] then .ok cfg.numSpecTokens
    else
      match lookup[p.numScheduledTokens.length]? with
      | none => .error .indexError
      | some k => .ok k

def output (cfg : SchedConfig) (p : Pass κ) (numSpecTokensToSchedule : Nat) : SchedulerOutput where
  scheduledNewReqs :=
    if cfg.useV2ModelRunner then p.scheduledNewReqs ++ p.scheduledResumedReqs
    else p.scheduledNewReqs
  scheduledResumedReqs := if cfg.useV2ModelRunner then [] else p.scheduledResumedReqs
  scheduledRunningReqs := p.scheduledRunningReqs
  reqToNewBlocks := p.reqToNewBlocks
  numScheduledTokens := p.numScheduledTokens
  totalNumScheduledTokens := p.total
  scheduledSpecDecodeTokens := p.scheduledSpecDecodeTokens
  scheduledEncoderInputs := p.scheduledEncoderInputs
  externalEncoderInputs := p.externalEncoderInputs
  preemptedReqIds := p.state.resetPreemptedReqIds
  finishedReqIds := p.state.finishedReqIds
  freeEncoderMmHashes := p.state.encoder.getFreedMmHashes.2
  numSpecTokensToSchedule := numSpecTokensToSchedule

end Pass

namespace SchedulerState

variable (env : SchedEnv κ) (cfg : SchedConfig)

def afterScheduled (seq : Nat) (n : Int) (request : Request) : Request :=
  let computed := request.numComputedTokens + n
  { request with
    numComputedTokens := computed
    lastSchedSeq := if cfg.deferBlockFree then seq else request.lastSchedSeq
    isPrefillChunk := decide (computed < request.numTokens + request.numOutputPlaceholders) }

/-- The loop of `Scheduler._update_after_schedule`. -/
def updateScheduled (cfg : SchedConfig) :
    List (ReqId × Int) → SchedulerState κ → Except SchedError (SchedulerState κ)
  | [], s => .ok s
  | (r, n) :: rest, s =>
    if r ∉ s.requests then .error .keyError
    else
      let s := s.setReq r (afterScheduled cfg s.schedStepSeq n)
      updateScheduled cfg rest
        { s with
          inflightPrefills :=
            if (s.req r).isPrefillChunk then s.inflightPrefills
            else s.inflightPrefills.filter (· ≠ r) }

def addPlaceholders (out : SchedulerOutput) (step : Nat) (r : ReqId)
    (request : Request) : Request :=
  if request.isPrefillChunk then request
  else
    { request with
      numOutputPlaceholders := request.numOutputPlaceholders + cfg.numSampledTokensPerStep +
        ((out.scheduledSpecDecodeTokens.lookup r).getD []).length
      specTokenIds := List.replicate out.numSpecTokensToSchedule (-1)
      nextDecodeEligibleStep :=
        if cfg.useV2ModelRunner then step + cfg.ppSize else request.nextDecodeEligibleStep }

/-- `_update_after_schedule` of the scheduler or the asynchronous scheduler. -/
def updateAfterSchedule (s : SchedulerState κ) (out : SchedulerOutput) :
    Except SchedError (SchedulerState κ) :=
  match s.updateScheduled cfg out.numScheduledTokens with
  | .error e => .error e
  | .ok s =>
    let s := { s with finishedReqIds := [], resetPreemptedReqIds := [] }
    if cfg.asyncScheduling then
      .ok (out.numScheduledTokens.foldl
        (fun s e => s.setReq e.1 (addPlaceholders cfg out s.currentStep e.1))
        { s with numSpecPlaceholders := out.numSpecTokensToSchedule })
    else .ok s

def deferPrefills (answers : Answers) (s : SchedulerState κ) : Bool :=
  answers.throttlePrefills && !s.prefillCapacityBound &&
    s.running.any fun r => !(s.req r).isPrefillChunk

def startPass (s : SchedulerState κ) : Pass κ where
  state := { s with currentStep := s.currentStep + 1, kv := env.ops.newStepStarts s.kv }
  tokenBudget := if s.pauseState = .pausedAll then 0 else env.cfg.maxNumScheduledTokens
  encoderComputeBudget := env.cfg.maxNumEncoderInputTokens

def schedulePass (s : SchedulerState κ) : Except SchedError (Pass κ) :=
  let defer := s.deferPrefills env.answers
  match Pass.runningLoop env defer s.running.length (s.startPass env) with
  | .error e => .error e
  | .ok p =>
    match p.runningLoras env.cfg with
    | .error e => .error e
    | .ok loras => ({ p with scheduledLoras := loras } : Pass κ).scheduleWaiting env defer

/-- The end of `schedule`: assertions, output, fence and `_update_after_schedule`. -/
def finishPass (p : Pass κ) : Except SchedError (SchedulerState κ × SchedulerOutput) :=
  if p.constraintsHold cfg = false then .error .assertion
  else
    match p.numSpecTokensToSchedule cfg with
    | .error e => .error e
    | .ok k =>
      let out := p.output cfg k
      let s := p.state
      let s := { s with
        encoder := s.encoder.getFreedMmHashes.1
        schedStepSeq :=
          if cfg.deferBlockFree ∧ 0 < out.totalNumScheduledTokens then s.schedStepSeq + 1
          else s.schedStepSeq }
      match s.updateAfterSchedule cfg out with
      | .error e => .error e
      | .ok s => .ok (s, out)

def schedule (s : SchedulerState κ) : Except SchedError (SchedulerState κ × SchedulerOutput) :=
  match s.schedulePass env with
  | .error e => .error e
  | .ok p => finishPass env.cfg p

end SchedulerState
end Vllm.Sched
