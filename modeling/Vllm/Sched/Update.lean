import Vllm.KVCache.IncrementalHash
import Vllm.Sched.Schedule

/-! The operations of the scheduler besides `schedule` (`vllm/v1/core/sched/scheduler.py`,
`vllm/v1/core/sched/async_scheduler.py`, `vllm/v1/core/sched/utils.py`): new and finished
requests, the output of a step, failed loads, drafts and the reset of the prefix cache. -/
namespace Vllm.Sched

open KVCache (BlockId KVError HashEnv)

/-- What a scheduler is constructed with. Without `hasher` blocks are not hashed. -/
structure SchedCore (κ : Type) where
  cfg : SchedConfig
  ops : KVOps κ
  hasher : Option (HashEnv × Nat) := none

/-! ### Requests -/

def hasRepeatingPattern (tokenIds : List TokenId) (patternLen minCount : Nat) : Bool :=
  let back := tokenIds.reverse
  (List.range patternLen).all fun n =>
    (List.range' 1 (minCount - 1)).all fun m => back[patternLen * m + n]? = back[n]?

/-- The loop of `check_sequence_repetition`. -/
def repetitionFrom (tokenIds : List TokenId) (minCount : Nat) : List Nat → Bool
  | [] => false
  | len :: lens =>
    if tokenIds.length < len * minCount then false
    else if hasRepeatingPattern tokenIds len minCount then true
    else repetitionFrom tokenIds minCount lens

def checkSequenceRepetition (tokenIds : List TokenId) (p : RepetitionDetection) : Bool :=
  let minSize := if p.minPatternSize = 0 then 1 else p.minPatternSize
  if p.maxPatternSize = 0 ∨ p.minCount < 2 ∨ p.maxPatternSize < minSize then false
  else
    repetitionFrom tokenIds p.minCount (List.range' minSize (p.maxPatternSize + 1 - minSize))

/-- `check_stop`: the finished status, if the request stops at its last token. -/
def checkStop (maxModelLen : Nat) (request : Request) : Option RequestStatus :=
  let params := request.samplingParams
  if request.numOutputTokens < params.minTokens then none
  else if request.outputTokenIds.getLast? = params.eosTokenId ∧ params.eosTokenId.isSome then
    some .finishedStopped
  else if request.outputTokenIds.getLast?.any (· ∈ params.stopTokenIds) then some .finishedStopped
  else if maxModelLen ≤ request.numTokens ∨ request.maxTokens ≤ request.numOutputTokens then
    some .finishedLengthCapped
  else if params.repetitionDetection.any (checkSequenceRepetition request.outputTokenIds) then
    some .finishedRepetition
  else none

/-- `remove_all`: a single item is removed once. -/
def removeAll (l items : List ReqId) : List ReqId :=
  match items with
  | [] => l
  | [r] => l.erase r
  | _ => l.filter (· ∉ items)

namespace SchedCore

variable {κ : Type}

variable (core : SchedCore κ) (invalid : List BlockId) (numScheduled : List (ReqId × Int))

def appendOutput (request : Request) (token : TokenId) : Request :=
  match core.hasher with
  | none => KVCache.extendTokens request [token]
  | some (env, hbs) => KVCache.appendOutputTokenIds env hbs request [token]

/-- The loop of `Scheduler._update_request_with_output`: the request, the tokens that are kept
and whether it stopped. -/
def appendTokens (core : SchedCore κ) : List TokenId → Request → Request × List TokenId × Bool
  | [], request => (request, [], false)
  | t :: ts, request =>
    let request := core.appendOutput request t
    match checkStop core.cfg.maxModelLen request with
    | some status => ({ request with status := status }, [t], true)
    | none =>
      let rest := core.appendTokens ts request
      (rest.1, t :: rest.2.1, rest.2.2)

def mergeSession (session : Request) (update : StreamingUpdate) : Request :=
  match core.hasher with
  | none =>
    let merged := KVCache.mergeUpdate session update
    { merged with
      numPromptTokens := merged.promptTokenIds.length
      arrivalTime := update.arrivalTime
      samplingParams := update.samplingParams
      status := .waiting }
  | some (env, hbs) => KVCache.updateRequestAsSession env hbs session update

def updateRequestAsSession (s : SchedulerState κ) (r : ReqId)
    (update : StreamingUpdate) : SchedulerState κ :=
  { s.setReq r (core.mergeSession · update) with
    numWaitingForStreamingInput :=
      if (s.req r).status = .waitingForStreamingReq then s.numWaitingForStreamingInput - 1
      else s.numWaitingForStreamingInput }

def streamingUpdate (request : Request) : Option StreamingUpdate :=
  if request.resumable then
    some
      { mmFeatures := request.mmFeatures
        promptTokenIds := request.promptTokenIds
        maxTokens := request.maxTokens
        arrivalTime := request.arrivalTime
        samplingParams := request.samplingParams }
  else none

/-! ### Finishing -/

def freeBlocks (s : SchedulerState κ) (r : ReqId) : Except SchedError (SchedulerState κ) :=
  if (s.req r).isFinished = false then .error .assertion
  else
    match s.freeRequestBlocks core.ops core.cfg r with
    | .error e => .error e
    | .ok s =>
      if r ∈ s.requests then .ok { s with requests := s.requests.filter (· ≠ r) }
      else .error .keyError

/-- `_connector_finished`, up to the answer of the connector. -/
def connectorFinished (s : SchedulerState κ) (r : ReqId) : Except SchedError (SchedulerState κ) :=
  if core.cfg.hasConnector = false then .ok s
  else
    ((core.ops.removeSkippedBlocks s.kv r (s.req r).numComputedTokens
      (s.req r).numPromptTokens).mapError .kv).map fun kv => { s with kv := kv }

/-- `_free_request`; `connectorDelays` is the answer of `request_finished`. -/
def freeRequest (connectorDelays : ReqId → Bool) (s : SchedulerState κ)
    (r : ReqId) (delayFreeBlocks : Bool) : Except SchedError (SchedulerState κ) :=
  if (s.req r).isFinished = false then .error .assertion
  else
    match core.connectorFinished
        { s with inflightPrefills := s.inflightPrefills.filter (· ≠ r) } r with
    | .error e => .error e
    | .ok s =>
      match s.encoder.free (s.req r) with
      | .error e => .error e
      | .ok encoder =>
        let s := { s with
          encoder := encoder
          finishedReqIds := s.finishedReqIds.insert r }
        if delayFreeBlocks ∨ (core.cfg.hasConnector ∧ connectorDelays r) then .ok s
        else core.freeBlocks s r

def withStatus (status : RequestStatus) (request : Request) : Request :=
  { request with status := status }

def forgetLoad (s : SchedulerState κ) (r : ReqId) : SchedulerState κ :=
  if (s.req r).status = .waitingForRemoteKvs then
    { s with
      finishedRecvingKvReqIds := s.finishedRecvingKvReqIds.filter (· ≠ r)
      failedRecvingKvReqIds := s.failedRecvingKvReqIds.filter (· ≠ r) }
  else s

/-- One request in the second pass of `finish_requests`. -/
def finishOne (connectorDelays : ReqId → Bool) (status : RequestStatus) (s : SchedulerState κ)
    (r : ReqId) : Except SchedError (SchedulerState κ) :=
  core.freeRequest connectorDelays ((forgetLoad s r).setReq r (withStatus status)) r
    (decide ((s.req r).status = .waitingForRemoteKvs) && decide (r ∉ s.finishedRecvingKvReqIds))

def finishable (s : SchedulerState κ) (ids : List ReqId) : List ReqId :=
  ids.dedup.filter fun r => r ∈ s.requests ∧ (s.req r).isFinished = false

/-- The first pass of `finish_requests`: the requests leave the queues. -/
def leaveQueues (cfg : SchedConfig) (s : SchedulerState κ) (valid : List ReqId) : SchedulerState κ :=
  let runningReqs := valid.filter fun r => (s.req r).status = .running
  let waitingReqs := valid.filter fun r => (s.req r).status ≠ .running
  let streaming := valid.countP fun r => (s.req r).status = .waitingForStreamingReq
  { s with
    running := removeAll s.running runningReqs
    waiting :=
      if waitingReqs = [] then s.waiting
      else s.waiting.removeRequests cfg.policy s.lt waitingReqs
    skippedWaiting :=
      if waitingReqs = [] then s.skippedWaiting
      else s.skippedWaiting.removeRequests cfg.policy s.lt waitingReqs
    numWaitingForStreamingInput := s.numWaitingForStreamingInput - streaming }

/-- `finish_requests`; without ids all requests are finished. -/
def finishRequests (connectorDelays : ReqId → Bool) (s : SchedulerState κ)
    (ids : Option (List ReqId)) (status : RequestStatus) : Except SchedError (SchedulerState κ) :=
  if status.isFinished = false then .error .assertion
  else
    let valid := finishable s (ids.getD s.requests)
    Run.run (core.finishOne connectorDelays status) (leaveQueues core.cfg s valid) valid

def addRequest (connectorDelays : ReqId → Bool) (s : SchedulerState κ)
    (request : Request) : Except SchedError (SchedulerState κ) :=
  let r := request.requestId
  if r ∈ s.requests then
    let existing := s.req r
    let update := streamingUpdate request
    if existing.status ≠ .waitingForStreamingReq then
      if existing.hasStreamingQueue = false then .error .assertion
      else .ok (s.setReq r fun q => { q with streamingQueue := q.streamingQueue ++ [update] })
    else
      match update with
      | some update => .ok (core.updateRequestAsSession s r update)
      | none => core.finishRequests connectorDelays s (some [r]) .finishedAborted
  else
    let s := (s.setReq r fun _ =>
      { request with hasStreamingQueue := request.resumable }).enqueueWaitingRequest core.cfg r
    .ok { s with requests := s.requests ++ [r] }

/-! ### The output of a step -/

/-- What the model runner and the connectors report for a step, the tokens that the grammar
backend rejects, and which finished requests the connector keeps. -/
structure StepResult where
  sampledTokenIds : ReqId → List TokenId := fun _ => []
  poolerOutput : ReqId → Bool := fun _ => false
  grammarRejects : ReqId → Bool := fun _ => false
  invalidBlockIds : List BlockId := []
  finishedRecving : List ReqId := []
  finishedSending : List ReqId := []
  connectorDelays : ReqId → Bool := fun _ => false

def rejectDrafts (cfg : SchedConfig) (drafts generated : List TokenId) (request : Request) : Request :=
  if drafts ≠ [] ∧ (generated ≠ [] ∨ cfg.numSampledTokensPerStep = 0) ∧
      request.asyncTokensToDiscard = 0 then
    let numRejected : Int := drafts.length - (generated.length - cfg.numSampledTokensPerStep : Nat)
    { request with
      numComputedTokens :=
        if 0 < request.numComputedTokens then request.numComputedTokens - numRejected
        else request.numComputedTokens
      numOutputPlaceholders :=
        if 0 < request.numOutputPlaceholders then request.numOutputPlaceholders - numRejected
        else request.numOutputPlaceholders }
  else request

def encoderInputDone (cfg : SchedConfig) (request : Request) (f : MultiModalFeature) : Bool :=
  (cfg.isEncoderDecoder && decide (0 < request.numComputedTokens)) ||
    decide ((f.stop : Int) + cfg.shift ≤ request.numComputedTokens - request.numOutputPlaceholders)

def freeIfDone (cfg : SchedConfig) (request : Request) (c : EncoderCache) (i : Nat) :
    Except SchedError EncoderCache :=
  match mmFeature request i with
  | .error e => .error e
  | .ok f => if encoderInputDone cfg request f then c.freeEncoderInput request i else .ok c

/-- The loop of `_free_encoder_inputs`. -/
def freeDoneInputs (cfg : SchedConfig) (request : Request) (c : EncoderCache) :
    Except SchedError EncoderCache :=
  Run.run (freeIfDone cfg request) c (c.getCachedInputIds request)

def freeEncoderInputs (cfg : SchedConfig) (s : SchedulerState κ) (r : ReqId) :
    Except SchedError (SchedulerState κ) :=
  (freeDoneInputs cfg (s.req r) s.encoder).map fun encoder => { s with encoder := encoder }

/-- `_update_request_with_output` of the scheduler or the asynchronous scheduler: the state, the
new tokens and whether the request stopped. -/
def updateRequestWithOutput (s : SchedulerState κ) (r : ReqId)
    (tokens : List TokenId) : Except SchedError (SchedulerState κ × List TokenId × Bool) :=
  let request := s.req r
  if core.cfg.asyncScheduling ∧ 0 < request.asyncTokensToDiscard then
    .ok (s.setReq r fun q => { q with asyncTokensToDiscard := q.asyncTokensToDiscard - 1 }, [],
      false)
  else if request.pooling then .error .assertion
  else
    let appended := core.appendTokens tokens request
    if core.cfg.asyncScheduling then
      let placeholders := request.numOutputPlaceholders - appended.2.1.length
      let updated := { appended.1 with numOutputPlaceholders := placeholders }
      if placeholders < 0 then .error .assertion
      else if request.status = .running then
        match core.ops.cacheBlocks s.kv updated (updated.numComputedTokens - placeholders) with
        | .error e => .error (.kv e)
        | .ok kv => .ok ({ s with kv := kv }.setReq r fun _ => updated, appended.2)
      else .ok (s.setReq r fun _ => updated, appended.2)
    else .ok (s.setReq r fun _ => appended.1, appended.2)

def waitForInput (cfg : SchedConfig) (s : SchedulerState κ) (r : ReqId) : SchedulerState κ :=
  ({ s.setReq r (withStatus .waitingForStreamingReq) with
    numWaitingForStreamingInput := s.numWaitingForStreamingInput + 1 } :
      SchedulerState κ).enqueueWaitingRequest cfg r

def takeUpdate (s : SchedulerState κ) (r : ReqId) (update : StreamingUpdate)
    (rest : List (Option StreamingUpdate)) : SchedulerState κ :=
  (core.updateRequestAsSession (s.setReq r fun q => { q with streamingQueue := rest }) r
    update).enqueueWaitingRequest core.cfg r

/-- `_handle_stopped_request`, and whether the request is finished. -/
def handleStoppedRequest (s : SchedulerState κ) (r : ReqId) : SchedulerState κ × Bool :=
  if (s.req r).resumable = false then (s, true)
  else
    match (s.req r).streamingQueue with
    | none :: rest => (s.setReq r fun q => { q with streamingQueue := rest }, true)
    | some update :: rest => (core.takeUpdate s r update rest, false)
    | [] => (waitForInput core.cfg s r, false)

/-- The new tokens of a request, or the output of its pooler. -/
def takeOutput (result : StepResult) (s : SchedulerState κ) (r : ReqId) :
    Except SchedError (SchedulerState κ × List TokenId × Bool) :=
  if result.sampledTokenIds r ≠ [] then core.updateRequestWithOutput s r (result.sampledTokenIds r)
  else if (s.req r).pooling ∧ result.poolerOutput r then
    .ok (s.setReq r (withStatus .finishedStopped), [], true)
  else .ok (s, [], false)

def afterGrammar (result : StepResult) (s : SchedulerState κ) (r : ReqId)
    (newTokens : List TokenId) : SchedulerState κ :=
  if !newTokens.isEmpty && result.grammarRejects r then
    s.setReq r fun q => { q with status := .finishedError, resumable := false }
  else s

/-- The end of the processing of a request: grammar and stop. The result says whether it
stopped. -/
def finishOutput (result : StepResult) (s : SchedulerState κ) (r : ReqId)
    (newTokens : List TokenId) (stopped : Bool) : Except SchedError (SchedulerState κ × Bool) :=
  let s := afterGrammar result s r newTokens
  if stopped || (!newTokens.isEmpty && result.grammarRejects r) then
    match core.handleStoppedRequest s r with
    | (s, true) => (core.freeRequest result.connectorDelays s r false).map (·, true)
    | (s, false) => .ok (s, true)
  else .ok (s, false)

structure Stopped where
  running : List ReqId := []
  preempted : List ReqId := []

/-- One request in the loop of `update_from_output` that is neither failed nor finished. -/
def processRequest (out : SchedulerOutput) (result : StepResult) (r : ReqId)
    (s : SchedulerState κ) (stopped : Stopped) : Except SchedError (SchedulerState κ × Stopped) :=
  let drafts := (out.scheduledSpecDecodeTokens.lookup r).getD []
  let s := s.setReq r (rejectDrafts core.cfg drafts (result.sampledTokenIds r))
  match (if (s.req r).mmFeatures = [] then .ok s else freeEncoderInputs core.cfg s r) with
  | .error e => .error e
  | .ok s =>
    let statusBefore := (s.req r).status
    match core.takeOutput result s r with
    | .error e => .error e
    | .ok (s, newTokens, stop) =>
      match core.finishOutput result s r newTokens stop with
      | .error e => .error e
      | .ok (s, false) => .ok (s, stopped)
      | .ok (s, true) =>
        if statusBefore = .running then
          .ok (s, { stopped with running := stopped.running.insert r })
        else .ok (s, { stopped with preempted := stopped.preempted.insert r })

/-- The loop of `update_from_output`. -/
def processRequests (core : SchedCore κ) (out : SchedulerOutput) (result : StepResult)
    (failed : List ReqId) : List (ReqId × Int) → SchedulerState κ → Stopped →
    Except SchedError (SchedulerState κ × Stopped)
  | [], s, stopped => .ok (s, stopped)
  | (r, n) :: rest, s, stopped =>
    if n ≤ 0 then .error .assertion
    else if r ∈ failed ∨ r ∉ s.requests ∨ (s.req r).isFinished then
      processRequests core out result failed rest s stopped
    else
      match core.processRequest out result r s stopped with
      | .error e => .error e
      | .ok (s, stopped) => processRequests core out result failed rest s stopped

/-! ### Failed loads -/

structure InvalidScan where
  marked : List BlockId := []
  affected : List ReqId := []
  evict : List BlockId := []

/-- The loop over the blocks of one request: the marked blocks, whether the request is affected
and the first block that it has to recompute. -/
def scanBlocks (invalid : List BlockId) :
    Nat → List BlockId → List BlockId × Bool × Option Nat → List BlockId × Bool × Option Nat
  | _, [], acc => acc
  | idx, b :: bs, (marked, affected, first) =>
    if b ∉ invalid then scanBlocks invalid (idx + 1) bs (marked, affected, first)
    else if b ∈ marked then scanBlocks invalid (idx + 1) bs (marked, true, first)
    else scanBlocks invalid (idx + 1) bs (b :: marked, true, first <|> some idx)

/-- One request in the loop of `_update_requests_with_invalid_blocks`. -/
def updateInvalid (evictBlocks : Bool) (p : SchedulerState κ × InvalidScan) (r : ReqId) :
    Except SchedError (SchedulerState κ × InvalidScan) :=
  let (s, scan) := p
  let request := s.req r
  match core.ops.getBlocks s.kv r with
  | [blocks] =>
    let computed := request.numComputedTokens - (numScheduled.lookup r).getD 0
    let size : Int := core.cfg.schedulerBlockSize
    let numBlocks := (computed + size - 1) / size
    let (marked, affected, first) :=
      scanBlocks invalid 0 (blocks.take numBlocks.toNat) (scan.marked, false, none)
    let scan := { scan with
      marked := marked
      affected := if affected then scan.affected.insert r else scan.affected }
    match first with
    | some idx =>
      .ok (s.setReq r fun q => { q with numComputedTokens := idx * core.cfg.schedulerBlockSize },
        { scan with evict := if evictBlocks then scan.evict ++ blocks.drop idx else scan.evict })
    | none =>
      if affected then .ok (s.setReq r fun q => { q with numComputedTokens := computed }, scan)
      else .ok (s, scan)
  | _ => .error .assertion

/-- `_handle_invalid_blocks`: the requests to skip in the main loop. -/
def handleInvalidBlocks (s : SchedulerState κ) :
    Except SchedError (SchedulerState κ × List ReqId) :=
  let loading := (s.skippedWaiting.iterate core.cfg.policy s.lt).filter
    fun r => (s.req r).status = .waitingForRemoteKvs
  match Run.run (core.updateInvalid invalid numScheduled false) (s, {}) loading with
  | .error e => .error e
  | .ok (s, asyncScan) =>
    match Run.run (core.updateInvalid invalid numScheduled true) (s, {}) s.running with
    | .error e => .error e
    | .ok (s, syncScan) =>
      let recompute := core.cfg.recomputeKvLoadFailures
      if asyncScan.affected = [] ∧ syncScan.affected = [] then .ok (s, [])
      else if recompute then
        .ok ({ s with
          failedRecvingKvReqIds := s.failedRecvingKvReqIds ∪ asyncScan.affected },
          syncScan.affected)
      else
        match (if syncScan.evict = [] then .ok s.kv else core.ops.evictBlocks s.kv syncScan.evict) with
        | .error e => .error (.kv e)
        | .ok kv => .ok ({ s with kv := kv }, asyncScan.affected ∪ syncScan.affected)

/-- A request of `finished_recving` in `_update_from_kv_xfer_finished`. -/
def receiveFinished (s : SchedulerState κ) (r : ReqId) : Except SchedError (SchedulerState κ) :=
  if r ∉ s.requests then .error .assertion
  else if (s.req r).status = .waitingForRemoteKvs then
    .ok { s with finishedRecvingKvReqIds := s.finishedRecvingKvReqIds.insert r }
  else core.freeBlocks s r

def sendFinished (s : SchedulerState κ) (r : ReqId) : Except SchedError (SchedulerState κ) :=
  if r ∉ s.requests then .error .assertion else core.freeBlocks s r

def updateFromKvXferFinished (result : StepResult) (s : SchedulerState κ) :
    Except SchedError (SchedulerState κ) :=
  match Run.run core.receiveFinished s result.finishedRecving with
  | .error e => .error e
  | .ok s => Run.run core.sendFinished s result.finishedSending

def stepProcessed (s : SchedulerState κ) (out : SchedulerOutput) : SchedulerState κ :=
  if core.cfg.deferBlockFree ∧ 0 < out.totalNumScheduledTokens then
    ({ s with processedStepSeq := s.processedStepSeq + 1 } : SchedulerState κ).drainDeferredFrees
      core.ops
  else s

def removeStopped (cfg : SchedConfig) (s : SchedulerState κ) (stopped : Stopped) :
    SchedulerState κ :=
  { s with
    running := removeAll s.running stopped.running
    waiting :=
      if stopped.preempted = [] then s.waiting
      else s.waiting.removeRequests cfg.policy s.lt stopped.preempted }

def updateFromOutput (s : SchedulerState κ) (out : SchedulerOutput)
    (result : StepResult) : Except SchedError (SchedulerState κ) :=
  let s := core.stepProcessed s out
  match (if result.invalidBlockIds = [] then .ok (s, [])
    else core.handleInvalidBlocks result.invalidBlockIds out.numScheduledTokens s) with
  | .error e => .error e
  | .ok (s, failed) =>
    match core.processRequests out result failed out.numScheduledTokens s {} with
    | .error e => .error e
    | .ok (s, stopped) =>
      let s := removeStopped core.cfg s stopped
      match (if failed ≠ [] ∧ core.cfg.recomputeKvLoadFailures = false then
        core.finishRequests result.connectorDelays s (some failed) .finishedError
        else .ok s) with
      | .error e => .error e
      | .ok s => core.updateFromKvXferFinished result s

/-! ### Drafts and resets -/

/-- `update_draft_token_ids`; the drafts are those that the grammar accepts. -/
def updateDraftTokenIds (s : SchedulerState κ) (drafts : List (ReqId × List TokenId)) :
    SchedulerState κ :=
  drafts.foldl (fun s e =>
    if e.1 ∈ s.requests ∧ (s.req e.1).isFinished = false then
      s.setReq e.1 fun q => { q with specTokenIds := if q.isPrefillChunk then [] else e.2 }
    else s) s

/-- What a forced reset leaves of the counters of a preempted request. -/
def discardInFlight (request : Request) : Request :=
  { request with
    asyncTokensToDiscard := request.numOutputPlaceholders
    numOutputPlaceholders := 0 }

/-- `reset_prefix_cache` preempts all running requests, the last one first. -/
def preemptLast (s : SchedulerState κ) (r : ReqId) : Except SchedError (SchedulerState κ) :=
  (({ s with running := s.running.dropLast } : SchedulerState κ).preemptRequest core.ops core.cfg
    r).map (·.setReq r discardInFlight)

/-- `reset_prefix_cache`, with its result. -/
def resetPrefixCache (s : SchedulerState κ) (resetRunningRequests : Bool) :
    Except SchedError (SchedulerState κ × Bool) :=
  match (if resetRunningRequests then Run.run core.preemptLast s s.running.reverse else .ok s) with
  | .error e => .error e
  | .ok s =>
    let reset := core.ops.resetPrefixCache s.kv
    if resetRunningRequests ∧ reset.2 = false then .error .resetFailed
    else .ok ({ s with kv := reset.1 }, reset.2)

end SchedCore
end Vllm.Sched
