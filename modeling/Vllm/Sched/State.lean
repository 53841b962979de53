import Vllm.KVCache.KVManager
import Vllm.Sched.EncoderCache
import Vllm.Sched.RequestQueue

/-! The configuration and the state of `Scheduler` and `AsyncScheduler`
(`vllm/v1/core/sched/scheduler.py`, `vllm/v1/core/sched/async_scheduler.py`), the calls that the
scheduler makes to the KV-cache manager, and the answers of the components around it. -/
namespace Vllm.Sched

open KVCache (BlockId KVError SlotArgs)

/-- What the scheduler reads of the configuration. `maxLoras` is absent without LoRA,
`asyncScheduling` selects `AsyncScheduler`, `blockSize` is that of the cache configuration. -/
structure SchedConfig where
  policy : SchedulingPolicy := .fcfs
  asyncScheduling : Bool := false
  maxNumRunningReqs : Nat
  maxNumScheduledTokens : Nat
  maxModelLen : Nat
  longPrefillTokenThreshold : Nat := 0
  enableChunkedPrefill : Bool := true
  disableChunkedMmInput : Bool := false
  schedulerReserveFullIsl : Bool := true
  maxNumEncoderInputTokens : Nat := 0
  encoderCacheSize : Nat := 0
  isEncoderDecoder : Bool := false
  useEagle : Bool := false
  numSpecTokens : Nat := 0
  numLookaheadTokens : Nat := 0
  dynamicSdLookup : Option (List Nat) := none
  numSampledTokensPerStep : Nat := 1
  blockSize : Nat := 16
  schedulerBlockSize : Nat := 16
  hasMambaLayers : Bool := false
  hybridCoordinator : Bool := false
  needMambaBlockAlignedSplit : Bool := false
  maxLoras : Option Nat := none
  hasConnector : Bool := false
  hasEcConnector : Bool := false
  recomputeKvLoadFailures : Bool := true
  deferBlockFree : Bool := false
  useV2ModelRunner : Bool := false
  ppSize : Nat := 1
  deriving Repr

/-- `shift_computed_tokens`, and the look-ahead of the drafter. -/
def SchedConfig.shift (cfg : SchedConfig) : Nat := if cfg.useEagle then 1 else 0

/-- A prefix-cache hit: the blocks of each group, the number of tokens and the hint for the
admission of common prefixes. -/
structure PrefixHit where
  blocks : List (List BlockId) := []
  numTokens : Nat := 0
  numUncachedCommonPrefixTokens : Nat := 0

structure KVOps (κ : Type) where
  newStepStarts : κ → κ
  getComputedBlocks : κ → Request → Except KVError PrefixHit
  /-- `find_longest_cache_hit_per_group`, with the longest of the hits. -/
  findLongestCacheHitPerGroup : κ → Request → Except KVError PrefixHit
  allocateSlots : κ → SlotArgs → Except KVError (κ × Option (List (List BlockId)))
  /-- The blocks that the request still needs for its full sequence. -/
  remainingBlocks : κ → Request → Except KVError Int
  getBlocks : κ → ReqId → List (List BlockId)
  cacheBlocks : κ → Request → Int → Except KVError κ
  free : κ → ReqId → Except KVError κ
  popBlocksForFree : κ → ReqId → κ × List BlockId
  /-- `block_pool.free_blocks`. -/
  freeBlocks : κ → List BlockId → κ
  removeSkippedBlocks : κ → ReqId → Int → Nat → Except KVError κ
  evictBlocks : κ → List BlockId → Except KVError κ
  resetPrefixCache : κ → κ × Bool

inductive PauseState
  | unpaused
  | pausedNew
  | pausedAll
  deriving DecidableEq, Repr

/-- The state of the scheduler. `req` is the request object with an id, `requests` are the keys
of `self.requests`; sets of requests are lists of ids. -/
structure SchedulerState (κ : Type) where
  req : ReqId → Request := fun r => { requestId := r }
  requests : List ReqId := []
  waiting : RequestQueue := []
  skippedWaiting : RequestQueue := []
  running : List ReqId := []
  finishedReqIds : List ReqId := []
  resetPreemptedReqIds : List ReqId := []
  numWaitingForStreamingInput : Int := 0
  finishedRecvingKvReqIds : List ReqId := []
  failedRecvingKvReqIds : List ReqId := []
  inflightPrefills : List ReqId := []
  encoder : EncoderCache
  kv : κ
  currentStep : Nat := 0
  prefillCapacityBound : Bool := false
  schedStepSeq : Nat := 0
  processedStepSeq : Nat := 0
  deferredFrees : List (Nat × List BlockId) := []
  pauseState : PauseState := .unpaused
  /-- The length of `_spec_token_placeholders`. -/
  numSpecPlaceholders : Nat := 0

/-- What the connectors and the grammar backend answer during one call of `schedule`. -/
structure Answers where
  throttlePrefills : Bool := false
  grammarReady : ReqId → Bool := fun _ => false
  /-- `get_num_new_matched_tokens`. -/
  matchedTokens : ReqId → Option Nat := fun _ => some 0
  loadKvAsync : ReqId → Bool := fun _ => false
  /-- `ec_connector.ensure_cache_available`. -/
  encodingsAvailable : ReqId → Bool := fun _ => true
  /-- `ec_connector.has_cache_item`. -/
  hasCacheItem : String → Bool := fun _ => false

namespace SchedulerState

variable {κ : Type}

def create (cfg : SchedConfig) (kv : κ) : SchedulerState κ where
  encoder := EncoderCache.create cfg.isEncoderDecoder cfg.encoderCacheSize
  kv := kv
  numSpecPlaceholders := cfg.numSpecTokens

def lt (s : SchedulerState κ) (a b : ReqId) : Bool := (s.req a).lt (s.req b)

variable (ops : KVOps κ) (cfg : SchedConfig) (s : SchedulerState κ)

def setReq (r : ReqId) (f : Request → Request) : SchedulerState κ :=
  { s with req := Function.update s.req r (f (s.req r)) }

def freeRequestBlocks (r : ReqId) : Except SchedError (SchedulerState κ) :=
  if cfg.deferBlockFree = false ∨ (s.req r).lastSchedSeq ≤ s.processedStepSeq then
    match ops.free s.kv r with
    | .error e => .error (.kv e)
    | .ok kv => .ok { s with kv := kv }
  else
    let popped := ops.popBlocksForFree s.kv r
    .ok
      { s with
        kv := popped.1
        deferredFrees :=
          if popped.2 = [] then s.deferredFrees
          else s.deferredFrees ++ [(s.schedStepSeq, popped.2)] }

def drainDeferredFrees : SchedulerState κ :=
  let ready := s.deferredFrees.takeWhile fun e => e.1 ≤ s.processedStepSeq
  { s with
    kv := ready.foldl (fun kv e => ops.freeBlocks kv e.2.reverse) s.kv
    deferredFrees := s.deferredFrees.dropWhile fun e => e.1 ≤ s.processedStepSeq }

def preempted (request : Request) : Request :=
  { request with
    status := .preempted
    numComputedTokens := 0
    specTokenIds := []
    numPreemptions := request.numPreemptions + 1 }

def preemptRequest (r : ReqId) : Except SchedError (SchedulerState κ) :=
  if (s.req r).status ≠ .running then .error .assertion
  else
    match s.freeRequestBlocks ops cfg r with
    | .error e => .error e
    | .ok s =>
      match s.encoder.free (s.req r) with
      | .error e => .error e
      | .ok encoder =>
        let s := { s with
          encoder := encoder
          inflightPrefills := s.inflightPrefills.filter (· ≠ r) }.setReq r preempted
        .ok
          { s with
            waiting := s.waiting.prependRequest cfg.policy s.lt r
            resetPreemptedReqIds := s.resetPreemptedReqIds.insert r }

def isBlockedWaitingStatus : RequestStatus → Bool
  | .waitingForStructuredOutputGrammar | .waitingForRemoteKvs | .waitingForStreamingReq => true
  | _ => false

def enqueueWaitingRequest (r : ReqId) : SchedulerState κ :=
  if isBlockedWaitingStatus (s.req r).status then
    { s with skippedWaiting := s.skippedWaiting.addRequest cfg.policy s.lt r }
  else { s with waiting := s.waiting.addRequest cfg.policy s.lt r }

end SchedulerState
end Vllm.Sched
