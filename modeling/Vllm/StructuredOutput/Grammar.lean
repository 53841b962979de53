import Mathlib

/-! The grammars of the guidance and the xgrammar backend (`structured_output/backend_guidance.py`,
`backend_xgrammar.py`) over a matcher of the backend. -/
namespace Vllm.StructuredOutput

abbrev Token := Int

/-- A matcher: a stack of the tokens that were consumed, the last one first. It says which tokens it
consumes, whether it has stopped and which mask it fills in. -/
structure Matcher (M : Type) where
  allows : List Token → Token → Bool
  stopped : List Token → Bool
  mask : List Token → M

/-- The operations of `StructuredOutputGrammar` that the manager uses. -/
class Grammar (M : outParam Type) (G : Type) where
  acceptTokens : G → List Token → Bool × G
  rollback : G → Nat → G
  isTerminated : G → Bool
  mask : G → M

variable {M : Type} (tokens : List Token)

def Matcher.consume (matcher : Matcher M) : List Token → List Token → Bool × List Token
  | stack, [] => (true, stack)
  | stack, token :: tokens =>
    if matcher.allows stack token then matcher.consume (token :: stack) tokens
    else (false, stack)

/-! ### Guidance -/

structure GuidanceGrammar (M : Type) where
  matcher : Matcher M
  eosToken : Token
  stack : List Token := []
  terminated : Bool := false
  rollbackLag : Nat := 0

namespace GuidanceGrammar

/-- What `accept_tokens` notes of the end-of-sequence token. -/
def noteEos (g : GuidanceGrammar M) (tokens : List Token) : GuidanceGrammar M :=
  if g.eosToken ∈ tokens then
    { g with
      rollbackLag := if g.matcher.stopped g.stack && !g.terminated then 1 else g.rollbackLag
      terminated := true }
  else g

/-- The tokens that follow a stop are taken for accepted, but the matcher does not see them. -/
def acceptTokens (g : GuidanceGrammar M) (tokens : List Token) : Bool × GuidanceGrammar M :=
  let g := g.noteEos tokens
  if g.matcher.stopped g.stack then (true, g)
  else
    let (accepted, stack) := g.matcher.consume g.stack tokens
    (accepted, { g with stack })

/-- The matcher is assumed to stop at the empty stack when more tokens are rolled back than it has
consumed. -/
def rollback (g : GuidanceGrammar M) (numTokens : Nat) : GuidanceGrammar M :=
  if 0 < numTokens then
    { g with
      stack := g.stack.drop (numTokens - g.rollbackLag)
      terminated := false
      rollbackLag := 0 }
  else g

instance : Grammar M (GuidanceGrammar M) where
  acceptTokens := acceptTokens
  rollback := rollback
  isTerminated := terminated
  mask g := g.matcher.mask g.stack

variable (g : GuidanceGrammar M)

@[simp] theorem isTerminated_eq : Grammar.isTerminated g = g.terminated := rfl

@[simp] theorem acceptTokens_eq : Grammar.acceptTokens g tokens = g.acceptTokens tokens := rfl

end GuidanceGrammar

/-! ### Xgrammar -/

structure XgrammarGrammar (M : Type) where
  matcher : Matcher M
  stack : List Token := []
  numProcessedTokens : Int := 0
  isTerminated : Bool := false

namespace XgrammarGrammar

/-- The loop of `accept_tokens`; a token that is not accepted ends it. -/
def acceptLoop : List Token → XgrammarGrammar M → Bool × XgrammarGrammar M
  | [], g => (true, { g with isTerminated := g.matcher.stopped g.stack })
  | token :: tokens, g =>
    if g.matcher.allows g.stack token then
      acceptLoop tokens
        { g with stack := token :: g.stack, numProcessedTokens := g.numProcessedTokens + 1 }
    else (false, g)

def acceptTokens (g : XgrammarGrammar M) (tokens : List Token) : Bool × XgrammarGrammar M :=
  if g.isTerminated then (false, g) else acceptLoop tokens g

def rollback (g : XgrammarGrammar M) (numTokens : Nat) : XgrammarGrammar M :=
  { g with
    stack := g.stack.drop numTokens
    numProcessedTokens := g.numProcessedTokens - numTokens
    isTerminated := g.matcher.stopped (g.stack.drop numTokens) }

instance : Grammar M (XgrammarGrammar M) where
  acceptTokens := acceptTokens
  rollback := rollback
  isTerminated := isTerminated
  mask g := g.matcher.mask g.stack

end XgrammarGrammar
end Vllm.StructuredOutput
