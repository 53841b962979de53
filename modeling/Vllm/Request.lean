import Vllm.Lib.PySeq

/-! The request record of `vllm/v1/request.py`, with the fields that hashing,
scheduling and the KV-cache managers read. Request ids and arrival times are only
compared, so they are natural numbers here; token ids are integers. -/
namespace Vllm

abbrev ReqId := Nat
abbrev TokenId := Int
abbrev Bytes := List UInt8

inductive RequestStatus
  | waiting
  | waitingForStructuredOutputGrammar
  | waitingForRemoteKvs
  | waitingForStreamingReq
  | running
  | preempted
  | finishedStopped
  | finishedLengthCapped
  | finishedAborted
  | finishedIgnored
  | finishedError
  | finishedRepetition
  deriving DecidableEq, Repr

/-- `RequestStatus.is_finished`: everything after `PREEMPTED`. -/
def RequestStatus.isFinished : RequestStatus → Bool
  | .waiting | .waitingForStructuredOutputGrammar | .waitingForRemoteKvs
  | .waitingForStreamingReq | .running | .preempted => false
  | .finishedStopped | .finishedLengthCapped | .finishedAborted | .finishedIgnored
  | .finishedError | .finishedRepetition => true

/-- Where the placeholder tokens of a multimodal item stand in the prompt, and which of them
get an embedding; without a mask all do. -/
structure PlaceholderRange where
  offset : Nat
  length : Nat
  isEmbed : Option (List Bool) := none
  deriving DecidableEq, Repr

def PlaceholderRange.getNumEmbeds (p : PlaceholderRange) : Nat :=
  p.isEmbed.elim p.length (·.count true)

def PlaceholderRange.getEmbedsIndicesInRange (p : PlaceholderRange) (startIdx endIdx : Int) :
    Int × Int :=
  match p.isEmbed with
  | none => (startIdx, endIdx)
  | some mask => ((mask.take startIdx.toNat).count true, (mask.take endIdx.toNat).count true)

/-- A multimodal item: the content hash that identifies it, and its placeholder. -/
structure MultiModalFeature where
  identifier : String
  mmPosition : PlaceholderRange
  deriving DecidableEq, Repr

def MultiModalFeature.stop (f : MultiModalFeature) : Nat :=
  f.mmPosition.offset + f.mmPosition.length

structure LoRARequest where
  loraName : String
  loraIntId : Nat
  deriving DecidableEq, Repr

structure RepetitionDetection where
  maxPatternSize : Nat
  minPatternSize : Nat
  minCount : Nat
  deriving DecidableEq, Repr

structure SamplingParams where
  minTokens : Nat := 0
  eosTokenId : Option TokenId := none
  stopTokenIds : List TokenId := []
  repetitionDetection : Option RepetitionDetection := none
  deriving DecidableEq, Repr

/-- `StreamingUpdate`: the next input chunk of a streaming session. -/
structure StreamingUpdate where
  mmFeatures : List MultiModalFeature := []
  promptTokenIds : List TokenId := []
  maxTokens : Nat := 16
  arrivalTime : Nat := 0
  samplingParams : SamplingParams := {}
  deriving DecidableEq, Repr

/-- `Request`. A `none` in `streamingQueue` closes the session; the queue is there when
`hasStreamingQueue` is set. -/
structure Request where
  requestId : ReqId := 0
  priority : Int := 0
  arrivalTime : Nat := 0
  status : RequestStatus := .waiting
  samplingParams : SamplingParams := {}
  pooling : Bool := false
  maxTokens : Nat := 16
  loraRequest : Option LoRARequest := none
  useStructuredOutput : Bool := false
  cacheSalt : Option String := none
  promptTokenIds : List TokenId := []
  promptEmbeds : Option (List Bytes) := none
  numPromptTokens : Nat := 0
  outputTokenIds : List TokenId := []
  allTokenIds : List TokenId := []
  mmFeatures : List MultiModalFeature := []
  blockHashes : List Bytes := []
  skipReadingPrefixCache : Bool := false
  numComputedTokens : Int := 0
  numOutputPlaceholders : Int := 0
  asyncTokensToDiscard : Int := 0
  nextDecodeEligibleStep : Nat := 0
  lastSchedSeq : Nat := 0
  specTokenIds : List TokenId := []
  isPrefillChunk : Bool := false
  numPreemptions : Nat := 0
  resumable : Bool := false
  hasStreamingQueue : Bool := false
  streamingQueue : List (Option StreamingUpdate) := []
  abortImmediately : Bool := false
  deriving DecidableEq, Repr

namespace Request

def numTokens (r : Request) : Nat := r.allTokenIds.length

def numTokensWithSpec (r : Request) : Nat := r.allTokenIds.length + r.specTokenIds.length

def numOutputTokens (r : Request) : Nat := r.outputTokenIds.length

def isFinished (r : Request) : Bool := r.status.isFinished

def lt (a b : Request) : Bool :=
  if a.priority ≠ b.priority then a.priority < b.priority
  else if a.arrivalTime ≠ b.arrivalTime then a.arrivalTime < b.arrivalTime
  else a.requestId < b.requestId

structure IsNew (request : Request) : Prop where
  status : request.status = .waiting ∨ request.status = .waitingForStructuredOutputGrammar
  prompt : request.allTokenIds.length = request.numPromptTokens
  noOutput : request.outputTokenIds = []
  noDrafts : request.specTokenIds = []
  noUpdates : request.streamingQueue = []
  computed : request.numComputedTokens = 0
  placeholders : request.numOutputPlaceholders = 0
  discard : request.asyncTokensToDiscard = 0
  eligible : request.nextDecodeEligibleStep = 0
  unscheduled : request.lastSchedSeq = 0
  unpreempted : request.numPreemptions = 0
  whole : request.isPrefillChunk = false

instance (request : Request) : Decidable request.IsNew :=
  decidable_of_iff
    ((request.status = .waiting ∨ request.status = .waitingForStructuredOutputGrammar) ∧
      request.allTokenIds.length = request.numPromptTokens ∧ request.outputTokenIds = [] ∧
      request.specTokenIds = [] ∧ request.streamingQueue = [] ∧ request.numComputedTokens = 0 ∧
      request.numOutputPlaceholders = 0 ∧ request.asyncTokensToDiscard = 0 ∧
      request.nextDecodeEligibleStep = 0 ∧ request.lastSchedSeq = 0 ∧
      request.numPreemptions = 0 ∧ request.isPrefillChunk = false)
    ⟨fun ⟨a, b, c, d, e, f, g, h, i, j, k, l⟩ => ⟨a, b, c, d, e, f, g, h, i, j, k, l⟩,
      fun ⟨a, b, c, d, e, f, g, h, i, j, k, l⟩ => ⟨a, b, c, d, e, f, g, h, i, j, k, l⟩⟩

end Request
end Vllm
