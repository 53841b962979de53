import Vllm.Output.Detokenizer

/-! Request outputs (`vllm/v1/engine/output_processor.py`, `vllm/outputs.py`): what a step of the
engine makes of a request, and the collector that hands it to the consumer.

Streaming inputs, pooling requests and outputs of errors are left out, and so are the fields of
an output that are not text, tokens, logprobs or reasons. -/
namespace Vllm.Output

inductive RequestOutputKind
  | cumulative
  | delta
  | finalOnly
  deriving DecidableEq, Repr

inductive FinishReason
  | stop
  | length
  | abort
  | error
  | repetition
  deriving DecidableEq, Repr

inductive StopReason
  | token (id : TokenId)
  | string (stopString : Text)
  deriving DecidableEq, Repr

/-- What the requests of a call of `generate` share. Sampling parameters reject an empty stop
string. `logprobs` says whether sample logprobs were asked for. -/
structure StreamConfig (σ : Type) where
  decoder : Decoder σ
  params : DetokenizerParams
  stop_ne_nil : ∀ s ∈ params.stop, s ≠ []
  outputKind : RequestOutputKind
  streamInterval : Nat
  logprobs : Bool

inductive Detokenizer (σ : Type)
  | plain (tokenIds : List TokenId)
  | base (d : DetokState σ)
  deriving DecidableEq, Repr

namespace Detokenizer

variable {σ : Type}

/-- `IncrementalDetokenizer.from_new_request`; without a tokenizer there is no stream. -/
def fromNewRequest (cfg : StreamConfig σ) : Option σ → Detokenizer σ
  | none => plain []
  | some stream => base (cfg.params.start stream)

def update (cfg : StreamConfig σ) (newTokenIds : List TokenId) (stopTerminated : Bool) :
    Detokenizer σ → Option Text × Detokenizer σ
  | plain tokenIds => (none, plain (tokenIds ++ newTokenIds))
  | base d =>
    let result := d.update cfg.decoder cfg.params newTokenIds stopTerminated
    (result.1, base result.2)

def getNextOutputText (cfg : StreamConfig σ) (finished delta : Bool) :
    Detokenizer σ → Text × Detokenizer σ
  | plain tokenIds => ([], plain tokenIds)
  | base d =>
    let result := d.getNextOutputText cfg.params finished delta
    (result.1, base result.2)

def outputTokenIds (cfg : StreamConfig σ) : Detokenizer σ → List TokenId
  | plain tokenIds => tokenIds
  | base d => d.outputTokenIds cfg.params

def numOutputTokens (cfg : StreamConfig σ) : Detokenizer σ → Nat
  | plain tokenIds => tokenIds.length
  | base d => d.numOutputTokens cfg.params

end Detokenizer

/-- The logprobs of an output: a slice of its own, or the list object of the request itself,
which grows later. -/
inductive LogprobsRef (L : Type)
  | slice (positions : List L)
  | ofRequest
  deriving DecidableEq, Repr

structure CompletionOutput (ρ : Type) where
  index : Nat
  text : Text
  tokenIds : List TokenId
  logprobs : Option ρ
  finishReason : Option FinishReason := none
  stopReason : Option StopReason := none
  deriving DecidableEq, Repr

structure RequestOutput (ρ : Type) where
  outputs : List (CompletionOutput ρ)
  finished : Bool
  deriving DecidableEq, Repr

structure RequestState (σ : Type) where
  detokenizer : Detokenizer σ
  sentTokensOffset : Nat := 0
  deriving DecidableEq, Repr

/-- `ParentRequest`; children are named by their index. -/
structure ParentRequest (L : Type) where
  childRequests : List Nat
  outputAggregator : List (Option (CompletionOutput (LogprobsRef L)))
  deriving DecidableEq, Repr

def ParentRequest.getOutputs {L : Type} (parent : ParentRequest L) (kind : RequestOutputKind)
    (completion : CompletionOutput (LogprobsRef L)) :
    (List (CompletionOutput (LogprobsRef L)) × Bool) × ParentRequest L :=
  let finished := completion.finishReason.isSome
  let alreadyReturned := finished && !parent.childRequests.contains completion.index
  let children :=
    if finished then parent.childRequests.erase completion.index else parent.childRequests
  if kind ≠ .finalOnly then
    ((if alreadyReturned then [] else [completion], children.isEmpty),
      { parent with childRequests := children })
  else
    let aggregator := parent.outputAggregator.set completion.index (some completion)
    ((if children = [] then aggregator.reduceOption else [], children.isEmpty),
      ⟨children, aggregator⟩)

inductive OutputError
  | assertion
  deriving DecidableEq, Repr

/-- The requests of one call of `generate` with its collector. `sampleLogprobs` are the lists of
the logprobs processors, which outlive their requests; `received` is what the consumer has read. -/
structure Frontend (σ L : Type) where
  requestStates : Nat → Option (RequestState σ)
  sampleLogprobs : Nat → List L
  parent : Option (ParentRequest L)
  output : Option (RequestOutput (LogprobsRef L)) := none
  received : List (RequestOutput (List L)) := []

namespace Frontend

variable {σ L : Type}

variable (cfg : StreamConfig σ)

def newCompletionOutput (positions : List L) (index : Nat)
    (st : RequestState σ) (tokenIds : List TokenId) (finishReason : Option FinishReason)
    (stopReason : Option StopReason) : CompletionOutput (LogprobsRef L) × RequestState σ :=
  let delta := decide (cfg.outputKind = .delta)
  let next := st.detokenizer.getNextOutputText cfg finishReason.isSome delta
  let st := { st with detokenizer := next.2 }
  let tokenIds := if delta then tokenIds else st.detokenizer.outputTokenIds cfg
  let logprobs :=
    if cfg.logprobs = false then none
    else if delta ∧ positions ≠ [] then
      -- `logprobs[-len(token_ids):]`
      some (.slice (positions.drop (PySeq.sliceBound (-(tokenIds.length : Int)) positions.length)))
    else some .ofRequest
  ({ index, text := next.1, tokenIds, logprobs, finishReason,
     stopReason := if finishReason.isSome then stopReason else none }, st)

/-- The check of `stream_interval`, and the tokens that are sent. -/
def tokensToSend (st : RequestState σ) (newTokenIds : List TokenId)
    (finished : Bool) : Option (List TokenId × RequestState σ) :=
  if 1 < cfg.streamInterval then
    let numOutputTokens := st.detokenizer.numOutputTokens cfg
    if finished = false ∧ st.sentTokensOffset ≠ 0 ∧
        numOutputTokens - st.sentTokensOffset < cfg.streamInterval then none
    else if cfg.outputKind = .delta then
      some ((st.detokenizer.outputTokenIds cfg).drop st.sentTokensOffset,
        { st with sentTokensOffset := numOutputTokens })
    else some (newTokenIds, st)
  else some (newTokenIds, st)

def makeRequestOutput (s : Frontend σ L) (index : Nat) (st : RequestState σ)
    (newTokenIds : List TokenId) (finishReason : Option FinishReason)
    (stopReason : Option StopReason) :
    Option (RequestOutput (LogprobsRef L)) × Option (ParentRequest L) × RequestState σ :=
  if finishReason = none ∧ cfg.outputKind = .finalOnly then (none, s.parent, st)
  else
    match tokensToSend cfg st newTokenIds finishReason.isSome with
    | none => (none, s.parent, st)
    | some (tokenIds, st) =>
      let (completion, st) := newCompletionOutput cfg (s.sampleLogprobs index) index st tokenIds
        finishReason stopReason
      match s.parent with
      | none => (some ⟨[completion], finishReason.isSome⟩, none, st)
      | some parent =>
        let ((outputs, finished), parent) := parent.getOutputs cfg.outputKind completion
        (if outputs = [] then none else some ⟨outputs, finished⟩, some parent, st)

def positions (s : Frontend σ L) (index : Nat) : Option (LogprobsRef L) → List L
  | none => []
  | some (.slice positions) => positions
  | some .ofRequest => s.sampleLogprobs index

/-- The inner loop of `RequestOutput.add`. `extend` on the list of a request grows that list. -/
def addCompletion (aggregate : Bool) (s : Frontend σ L)
    (next : CompletionOutput (LogprobsRef L)) : List (CompletionOutput (LogprobsRef L)) →
    Except OutputError (List (CompletionOutput (LogprobsRef L)) × Frontend σ L)
  | [] => .ok ([next], s)
  | completion :: rest =>
    if completion.index ≠ next.index then
      match addCompletion aggregate s next rest with
      | .error e => .error e
      | .ok (rest, s) => .ok (completion :: rest, s)
    else if aggregate = false then .ok (next :: rest, s)
    else
      let merged : CompletionOutput (LogprobsRef L) :=
        { completion with
          text := completion.text ++ next.text
          tokenIds := completion.tokenIds ++ next.tokenIds
          finishReason := next.finishReason
          stopReason := next.stopReason }
      let more := s.positions next.index next.logprobs
      if more = [] then .ok (merged :: rest, s)
      else
        match completion.logprobs with
        | none => .error .assertion
        | some (.slice own) =>
          .ok ({ merged with logprobs := some (.slice (own ++ more)) } :: rest, s)
        | some .ofRequest =>
          .ok (merged :: rest,
            { s with
              sampleLogprobs := Function.update s.sampleLogprobs next.index
                (s.sampleLogprobs next.index ++ more) })

/-- `RequestOutput.add`, the loop over the new completions. -/
def addAll (aggregate : Bool) : Frontend σ L → List (CompletionOutput (LogprobsRef L)) →
    List (CompletionOutput (LogprobsRef L)) →
    Except OutputError (List (CompletionOutput (LogprobsRef L)) × Frontend σ L)
  | s, outputs, [] => .ok (outputs, s)
  | s, outputs, next :: nexts =>
    match addCompletion aggregate s next outputs with
    | .error e => .error e
    | .ok (outputs, s) => addAll aggregate s outputs nexts

def put (s : Frontend σ L) (output : RequestOutput (LogprobsRef L)) :
    Except OutputError (Frontend σ L) :=
  match s.output with
  | none => .ok { s with output := some output }
  | some pending =>
    match addAll (decide (cfg.outputKind = .delta)) s pending.outputs output.outputs with
    | .error e => .error e
    | .ok (outputs, s) =>
      .ok { s with output := some ⟨outputs, pending.finished || output.finished⟩ }

def read (s : Frontend σ L) (output : RequestOutput (LogprobsRef L)) : RequestOutput (List L) where
  outputs := output.outputs.map fun c =>
    { index := c.index, text := c.text, tokenIds := c.tokenIds,
      logprobs := c.logprobs.map fun ref => s.positions c.index (some ref),
      finishReason := c.finishReason, stopReason := c.stopReason }
  finished := output.finished

def get (s : Frontend σ L) : Frontend σ L :=
  match s.output with
  | none => s
  | some output => { s with output := none, received := s.received ++ [s.read output] }

/-- The output of a step goes to the collector; a request that ended leaves. -/
def emit (s : Frontend σ L) (index : Nat) (st : RequestState σ)
    (newTokenIds : List TokenId) (finishReason : Option FinishReason)
    (stopReason : Option StopReason) : Except OutputError (Frontend σ L) :=
  let (output, parent, st) := s.makeRequestOutput cfg index st newTokenIds finishReason stopReason
  let s :=
    { s with
      parent
      requestStates := Function.update s.requestStates index
        (if finishReason.isSome then none else some st) }
  match output with
  | none => .ok s
  | some output => s.put cfg output

/-- The body of `OutputProcessor.process_outputs`. Each token comes with the logprobs of its
position. -/
def processOutput (s : Frontend σ L) (index : Nat)
    (tokens : List (TokenId × L)) (finishReason : Option FinishReason)
    (stopReason : Option StopReason) : Except OutputError (Frontend σ L) :=
  match s.requestStates index with
  | none => .ok s
  | some st =>
    let newTokenIds := tokens.map Prod.fst
    let (stopString, detokenizer) :=
      st.detokenizer.update cfg newTokenIds (decide (finishReason = some .stop))
    let s :=
      { s with
        sampleLogprobs := Function.update s.sampleLogprobs index
          (s.sampleLogprobs index ++ if cfg.logprobs then tokens.map Prod.snd else []) }
    match stopString with
    | some stopString =>
      s.emit cfg index { st with detokenizer } newTokenIds (some .stop) (some (.string stopString))
    | none => s.emit cfg index { st with detokenizer } newTokenIds finishReason stopReason

/-- `OutputProcessor.abort_requests` for one request. -/
def abortRequest (s : Frontend σ L) (index : Nat) : Except OutputError (Frontend σ L) :=
  match s.requestStates index with
  | none => .ok s
  | some st => s.emit cfg index st [] (some .abort) none

inductive Op (L : Type)
  | output (index : Nat) (tokens : List (TokenId × L)) (finishReason : Option FinishReason)
      (stopReason : Option StopReason)
  | abort (index : Nat)
  | get

def step (s : Frontend σ L) : Op L → Except OutputError (Frontend σ L)
  | .output index tokens finishReason stopReason =>
    s.processOutput cfg index tokens finishReason stopReason
  | .abort index => s.abortRequest cfg index
  | .get => .ok s.get

def start (stream : Option σ) (n : Nat) : Frontend σ L where
  requestStates i :=
    if i < n then some { detokenizer := .fromNewRequest cfg stream } else none
  sampleLogprobs _ := []
  parent :=
    if n = 1 then none
    else
      some
        { childRequests := List.range n
          outputAggregator := if cfg.outputKind = .finalOnly then List.replicate n none else [] }

end Frontend
end Vllm.Output
