import Vllm.StructuredOutput.Grammar

/-! The bitmasks of a batch (`structured_output/__init__.py`): one row for each draft of a request
and one for the token after them. -/
namespace Vllm.StructuredOutput

inductive Error
  | assertion
  deriving DecidableEq, Repr

/-- `ReasoningParser`, as far as the manager asks it. -/
structure Reasoner where
  isReasoningEnd : List Token → Bool
  isReasoningEndStreaming : List Token → List Token → Bool

structure SORequest (G : Type) where
  promptTokenIds : List Token
  allTokenIds : List Token
  reasoner : Option Reasoner
  reasoningEnded : Option Bool
  grammar : G
  drafts : List Token

structure ManagerConfig (M : Type) where
  fullMask : M
  enableInReasoning : Bool
  maxNumSpecTokens : Nat
  fillBitmaskParallelThreshold : Nat
  isDiffusion : Bool

section
variable {M G : Type}

/-- `should_fill_bitmask`; whether reasoning ended in the prompt is written to the request. -/
def shouldFillBitmask (cfg : ManagerConfig M) (r : SORequest G) : Bool × SORequest G :=
  match r.reasoner with
  | none => (true, r)
  | some reasoner =>
    if cfg.enableInReasoning then (true, r)
    else
      match r.reasoningEnded with
      | some ended => (ended, r)
      | none =>
        let ended := reasoner.isReasoningEnd r.promptTokenIds
        (ended, { r with reasoningEnded := some ended })

variable [Grammar M G]

/-- `_fill_bitmasks`, one row. -/
def fillRow (cfg : ManagerConfig M) (grammar : G) (applyBitmask : Bool) : M :=
  if applyBitmask && !Grammar.isTerminated grammar then Grammar.mask grammar else cfg.fullMask

/-- Where the loop over the drafts of a request is. -/
structure Window (M G : Type) where
  grammar : G
  applyBitmask : Bool
  stateAdvancements : Nat := 0
  postReasoningEndInWindow : Bool := false
  rows : List M := []

/-- Whether reasoning ends with the next draft, `history` being what precedes it. -/
def endsReasoning (reasoner : Option Reasoner) (detectReasoningEnd : Bool) (history : List Token)
    (token : Token) : Bool :=
  detectReasoningEnd &&
    reasoner.any fun reasoner => reasoner.isReasoningEndStreaming (history ++ [token]) [token]

/-- The end of the body of the loop: the grammar takes a draft. -/
def Window.advance (w : Window M G) (token : Token) : Except Error (Window M G) :=
  if Grammar.isTerminated w.grammar then .ok w
  else
    let (accepted, grammar) := Grammar.acceptTokens w.grammar [token]
    if accepted then .ok { w with grammar, stateAdvancements := w.stateAdvancements + 1 }
    else if w.postReasoningEndInWindow then .ok { w with grammar }
    else .error .assertion

def Window.draft (cfg : ManagerConfig M) (reasoner : Option Reasoner) (detectReasoningEnd : Bool)
    (history : List Token) (w : Window M G) (token : Token) : Except Error (Window M G) :=
  let w := { w with rows := w.rows ++ [fillRow cfg w.grammar w.applyBitmask] }
  if token = -1 then .ok { w with applyBitmask := false }
  else if w.applyBitmask then w.advance token
  else if endsReasoning reasoner detectReasoningEnd history token then
    .ok { w with applyBitmask := true, postReasoningEndInWindow := true }
  else .ok w

def Window.drafts (cfg : ManagerConfig M) (reasoner : Option Reasoner) (detectReasoningEnd : Bool) :
    List Token → List Token → Window M G → Except Error (Window M G)
  | _, [], w => .ok w
  | history, token :: tokens, w =>
    match w.draft cfg reasoner detectReasoningEnd history token with
    | .error e => .error e
    | .ok w => w.drafts cfg reasoner detectReasoningEnd (history ++ [token]) tokens

/-- The rows of one request in the serial loop of `grammar_bitmask`. -/
def fillRequest (cfg : ManagerConfig M) (r : SORequest G) : Except Error (List M × SORequest G) :=
  let applyBitmask := (shouldFillBitmask cfg r).1
  let r := (shouldFillBitmask cfg r).2
  let detectReasoningEnd := !applyBitmask && r.reasoner.isSome && !cfg.enableInReasoning
  match Window.drafts cfg r.reasoner detectReasoningEnd r.allTokenIds r.drafts
      { grammar := r.grammar, applyBitmask } with
  | .error e => .error e
  | .ok w =>
    let rows :=
      if cfg.isDiffusion && !r.drafts.isEmpty then w.rows
      else w.rows ++ [fillRow cfg w.grammar ((shouldFillBitmask cfg r).1 || w.applyBitmask)]
    let grammar :=
      if 0 < w.stateAdvancements then Grammar.rollback w.grammar w.stateAdvancements else w.grammar
    .ok (rows, { r with grammar })

def fillSerial (cfg : ManagerConfig M) :
    List (SORequest G) → Except Error (List M × List (SORequest G))
  | [] => .ok ([], [])
  | r :: rs =>
    match fillRequest cfg r with
    | .error e => .error e
    | .ok (rows, r) =>
      match fillSerial cfg rs with
      | .error e => .error e
      | .ok (rest, rs) => .ok (rows ++ rest, r :: rs)

/-- `grammar_bitmask`; a batch of many requests without drafts is filled in parallel. -/
def grammarBitmask (cfg : ManagerConfig M) (batch : List (SORequest G)) :
    Except Error (Option (List M) × List (SORequest G)) :=
  if batch = [] then .ok (none, batch)
  else if cfg.fillBitmaskParallelThreshold < batch.length ∧ cfg.maxNumSpecTokens = 0 then
    let filled := batch.map (shouldFillBitmask cfg)
    .ok (some (filled.map fun f => fillRow cfg f.2.grammar f.1), filled.map Prod.snd)
  else (fillSerial cfg batch).map fun r => (some r.1, r.2)

end
end Vllm.StructuredOutput
