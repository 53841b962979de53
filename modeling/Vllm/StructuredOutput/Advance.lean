import Vllm.Sched.UpdateCases
import Vllm.StructuredOutput.Bitmask

/-! The tokens that `update_from_output` passes to the grammar of a request on a model with a
reasoning parser (`structured_output/__init__.py`, `v1/core/sched/scheduler.py`), next to
everything else that the schedulers do with the request. -/
namespace Vllm.StructuredOutput

open Sched Sched.SchedulerState Function

inductive StructuredOutputOptions
  | json
  | jsonObject
  | regex
  | grammar
  | choice
  | structuralTag
  deriving DecidableEq, Repr

/-- A reasoning parser whose end marker is one token. -/
structure MarkerReasoner extends Reasoner where
  endTokenId : TokenId
  streaming : ∀ inputIds deltaIds,
    isReasoningEndStreaming inputIds deltaIds = decide (endTokenId ∈ deltaIds)

/-- The loop of `BaseThinkingReasoningParser.is_reasoning_end`, from the last token on. -/
def endsBackwards (startTokenId endTokenId : TokenId) : List TokenId → Bool
  | [] => false
  | t :: ts =>
    if t = startTokenId then false
    else if t = endTokenId then true
    else endsBackwards startTokenId endTokenId ts

def thinkingReasoner (startTokenId endTokenId : TokenId) : MarkerReasoner where
  isReasoningEnd inputIds := endsBackwards startTokenId endTokenId inputIds.reverse
  isReasoningEndStreaming _ deltaIds := decide (endTokenId ∈ deltaIds)
  endTokenId := endTokenId
  streaming _ _ := rfl

/-- What the manager and the scheduler are constructed with, and the kind of the request's
structured output. -/
structure AdvanceCore (κ : Type) where
  sched : SchedCore κ
  reasoner : Option Reasoner
  enableInReasoning : Bool
  /-- `speculative_config` is there. -/
  speculative : Bool
  key : StructuredOutputOptions

/-- A structured-output request; `passed` are the tokens that `accept_tokens` was called with. -/
structure Answering where
  request : Request
  reasoningEnded : Option Bool
  reasoningEndTokenIndex : Option Int := none
  passed : List TokenId := []
  deriving DecidableEq, Repr

/-- Where the tokens start that `should_advance` looks at. -/
def windowStart (request : Request) : Nat :=
  let deltaFrom := request.numComputedTokens - request.numOutputPlaceholders
  if 0 ≤ deltaFrom then deltaFrom.toNat else (request.numTokens + deltaFrom).toNat

def findReasoningEndIndex (reasoner : Reasoner) (allTokenIds : List TokenId) (start : Nat) : Int :=
  let ends idx := (allTokenIds[idx]?).any fun token =>
    reasoner.isReasoningEndStreaming (allTokenIds.take (idx + 1)) [token]
  match (List.range' start (allTokenIds.length - start)).find? ends with
  | some idx => idx
  | none => allTokenIds.length - 1

def trimReasoningForAdvance (a : Answering) (newTokenIds : List TokenId) : List TokenId :=
  match a.reasoningEndTokenIndex with
  | none => newTokenIds
  | some endIdx =>
    let firstIdx : Int := a.request.numTokens - newTokenIds.length
    let numReasoning := endIdx + 1 - firstIdx
    if numReasoning ≤ 0 then newTokenIds else newTokenIds.drop numReasoning.toNat

namespace AdvanceCore

variable {κ : Type}

variable (c : AdvanceCore κ) (a : Answering)

/-- `should_fill_bitmask`, what it leaves of the request. -/
def shouldFillBitmask : Answering :=
  match c.reasoner, a.reasoningEnded with
  | some reasoner, none =>
    if c.enableInReasoning then a
    else { a with reasoningEnded := some (reasoner.isReasoningEnd a.request.promptTokenIds) }
  | _, _ => a

def shouldAdvance : Bool × Answering :=
  if a.request.useStructuredOutput = false then (false, a)
  else
    match c.reasoner with
    | none => (true, a)
    | some reasoner =>
      if c.enableInReasoning ∨ a.reasoningEnded = some true then (true, a)
      else
        let allTokenIds := a.request.allTokenIds
        let start := windowStart a.request
        if reasoner.isReasoningEndStreaming allTokenIds (allTokenIds.drop start) then
          if c.speculative ∧ c.key = .structuralTag then
            (true, { a with
              reasoningEnded := some true
              reasoningEndTokenIndex := some (findReasoningEndIndex reasoner allTokenIds start) })
          else (false, { a with reasoningEnded := some true })
        else (false, a)

/-- The grammar part of `update_from_output`; `accepts` is the answer of `accept_tokens`. -/
def advanceGrammar (newTokenIds : List TokenId) (accepts : Bool) : Answering :=
  if newTokenIds = [] then a
  else
    match c.shouldAdvance a with
    | (false, a) => a
    | (true, a) =>
      let advanceTokenIds := trimReasoningForAdvance a newTokenIds
      { a with
        passed := a.passed ++ advanceTokenIds
        request :=
          if advanceTokenIds ≠ [] ∧ accepts = false then
            { a.request with status := .finishedError, resumable := false }
          else a.request }

end AdvanceCore

def takeTokens {κ : Type} (core : SchedCore κ) (request : Request) (tokens : List TokenId) :
    Except SchedError (Request × List TokenId) :=
  if core.cfg.asyncScheduling ∧ 0 < request.asyncTokensToDiscard then
    .ok ({ request with asyncTokensToDiscard := request.asyncTokensToDiscard - 1 }, [])
  else
    let appended := core.appendTokens tokens request
    if core.cfg.asyncScheduling then
      let placeholders := request.numOutputPlaceholders - appended.2.1.length
      if placeholders < 0 then .error .assertion
      else .ok ({ appended.1 with numOutputPlaceholders := placeholders }, appended.2.1)
    else .ok (appended.1, appended.2.1)

theorem takeTokens_of_updateRequestWithOutput {κ : Type} {core : SchedCore κ}
    {s s' : SchedulerState κ} {r : ReqId} {tokens new : List TokenId} {stop : Bool}
    (h : core.updateRequestWithOutput s r tokens = .ok (s', new, stop)) :
    takeTokens core (s.req r) tokens = .ok (s'.req r, new) := by
  unfold takeTokens
  cases SchedCore.updateRequestWithOutput_cases h with
  | discarded hasync hdiscard =>
    rw [if_pos ⟨hasync, hdiscard⟩]
    simp only [setReq, update_self]
  | sync hasync hpooling =>
    simp only [hasync, setReq, update_self]
    rfl
  | async hasync hdiscard hpooling hplaceholders hkv =>
    rw [if_neg fun hpos => absurd hpos.2 (not_lt.mpr hdiscard)]
    simp only [hasync, if_true, setReq, update_self]
    rw [if_neg (not_lt.mpr hplaceholders)]

/-- What happens to a request: the engine asks for its bitmask, schedules it (with drafts), preempts,
admits or finishes it, resets the caches, recomputes after a failed load, validates drafts, and
processes an output. -/
inductive AdvanceOp
  | shouldFillBitmask
  | schedule (out : SchedulerOutput) (seq step : Nat) (numScheduled : Int)
  | preempt
  | admission (numComputedTokens : Int)
  | discardInFlight
  | recompute (numComputedTokens : Int)
  | finish (status : RequestStatus)
  | updateDraftTokenIds (specTokenIds : List TokenId)
  | update (drafts generated : List TokenId) (accepts : Bool)

namespace AdvanceCore

variable {κ : Type}

def update (c : AdvanceCore κ) (a : Answering) (drafts generated : List TokenId) (accepts : Bool) :
    Except SchedError Answering :=
  if a.request.isFinished then .ok a
  else
    let request := SchedCore.rejectDrafts c.sched.cfg drafts generated a.request
    if generated = [] then .ok { a with request }
    else
      match takeTokens c.sched request generated with
      | .error e => .error e
      | .ok (request, newTokenIds) => .ok (c.advanceGrammar { a with request } newTokenIds accepts)

def step (c : AdvanceCore κ) (a : Answering) : AdvanceOp → Except SchedError Answering
  | .shouldFillBitmask => .ok (c.shouldFillBitmask a)
  | .schedule out seq step n =>
    let request := afterScheduled c.sched.cfg seq n a.request
    .ok { a with
      request :=
        if c.sched.cfg.asyncScheduling then
          addPlaceholders c.sched.cfg out step request.requestId request
        else request }
  | .preempt => .ok { a with request := preempted a.request }
  | .admission n =>
    .ok { a with request := { a.request with status := .running, numComputedTokens := n } }
  | .discardInFlight => .ok { a with request := SchedCore.discardInFlight a.request }
  | .recompute n => .ok { a with request := { a.request with numComputedTokens := n } }
  | .finish status => .ok { a with request := { a.request with status } }
  | .updateDraftTokenIds drafts =>
    let a := (c.shouldAdvance a).2
    .ok { a with request := { a.request with specTokenIds := drafts } }
  | .update drafts generated accepts => c.update a drafts generated accepts

end AdvanceCore
end Vllm.StructuredOutput
