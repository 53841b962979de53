import Vllm.Lib.TextSearch
import Vllm.Request

/-! The incremental detokenizers (`vllm/v1/engine/detokenizer.py`): text grows with the output
tokens and is cut at a stop string. -/
namespace Vllm.Output
open List

/-- A `str` as the sequence of its code points. -/
abbrev Text := List Char

/-- `str.find(sub, start)`, where a negative start counts from the end. -/
def Text.find (text sub : Text) (start : Int) : Option Nat :=
  if (text.length : Int) < start then none
  else TextSearch.find text sub (PySeq.sliceBound start text.length)

/-- The body of the loop of `check_stop_strings`: the stop string and the length to which the text
is cut, where `none` as a length stands for `-1`. Only text that can hold a new end is searched. -/
def checkStopString (outputText : Text) (newCharCount : Nat) (includeInOutput : Bool)
    (stopStr : Text) : Option (Text × Option Nat) :=
  match Text.find outputText stopStr (1 - newCharCount - stopStr.length) with
  | none => none
  | some stopIndex =>
    if includeInOutput then
      if outputText.length ≤ stopIndex + stopStr.length then some (stopStr, none)
      else some (stopStr, some (stopIndex + stopStr.length))
    else some (stopStr, some stopIndex)

def checkStopStrings (outputText : Text) (newCharCount : Nat) (stop : List Text)
    (includeInOutput : Bool) : Option (Text × Option Nat) :=
  if newCharCount = 0 ∨ stop = [] then none
  else stop.findSome? (checkStopString outputText newCharCount includeInOutput)

/-- What `decode_next` does with the stream of a tokenizer. The slow detokenizer also reads all
token ids, which end with the new one. -/
structure Decoder (σ : Type) where
  decodeNext : σ → List TokenId → TokenId → Text × σ

/-- The parameters of a `BaseIncrementalDetokenizer`. `prompt` are the tokens at the front of
`token_ids`; only the slow detokenizer keeps them there. -/
structure DetokenizerParams where
  stop : List Text := []
  minTokens : Nat := 0
  includeStopStrInOutput : Bool := false
  prompt : List TokenId := []
  deriving DecidableEq, Repr

def DetokenizerParams.promptLen (p : DetokenizerParams) : Nat := p.prompt.length

/-- `stop_buffer_length`: the characters that are held back. -/
def DetokenizerParams.stopBufferLength (p : DetokenizerParams) : Nat :=
  if p.stop ≠ [] ∧ p.includeStopStrInOutput = false then
    (p.stop.map length).foldr max 0 - 1
  else 0

structure DetokState (σ : Type) where
  tokenIds : List TokenId := []
  outputText : Text := []
  lastOutputTextOffset : Nat := 0
  stream : σ
  deriving DecidableEq, Repr

def DetokenizerParams.start {σ : Type} (p : DetokenizerParams) (stream : σ) : DetokState σ where
  tokenIds := p.prompt
  stream := stream

namespace DetokState

variable {σ : Type}

def numOutputTokens (p : DetokenizerParams) (d : DetokState σ) : Nat :=
  d.tokenIds.length - p.promptLen

def outputTokenIds (p : DetokenizerParams) (d : DetokState σ) : List TokenId :=
  d.tokenIds.drop p.promptLen

def decodeToken (dec : Decoder σ) (d : DetokState σ) (token : TokenId) : DetokState σ :=
  let tokenIds := d.tokenIds ++ [token]
  let next := dec.decodeNext d.stream tokenIds token
  { d with tokenIds, outputText := d.outputText ++ next.1, stream := next.2 }

/-- The loop over the new tokens, with `stop_check_offset`. -/
def decodeTokens (dec : Decoder σ) (p : DetokenizerParams) :
    DetokState σ → Nat → List TokenId → DetokState σ × Nat
  | d, offset, [] => (d, offset)
  | d, offset, token :: tokens =>
    let d := d.decodeToken dec token
    decodeTokens dec p d
      (if p.minTokens ≠ 0 ∧ d.numOutputTokens p ≤ p.minTokens then d.outputText.length else offset)
      tokens

/-- The tokens of a call that are detokenized: not the token that ended the request. -/
def shownTokens (p : DetokenizerParams) (newTokenIds : List TokenId) (stopTerminated : Bool) :
    List TokenId :=
  if stopTerminated ∧ p.includeStopStrInOutput = false then newTokenIds.dropLast else newTokenIds

/-- The second part of `update`: the stop strings are evaluated. -/
def evaluateStop (p : DetokenizerParams) (d : DetokState σ) (offset : Nat) :
    Option Text × DetokState σ :=
  if p.stop ≠ [] ∧ p.minTokens < d.numOutputTokens p then
    match checkStopStrings d.outputText (d.outputText.length - offset) p.stop
        p.includeStopStrInOutput with
    | none => (none, d)
    | some (stopString, none) => (some stopString, d)
    | some (stopString, some truncateTo) =>
      (some stopString, { d with outputText := d.outputText.take truncateTo })
  else (none, d)

def update (dec : Decoder σ) (p : DetokenizerParams) (d : DetokState σ) (newTokenIds : List TokenId)
    (stopTerminated : Bool) : Option Text × DetokState σ :=
  if newTokenIds = [] then (none, d)
  else
    let shown := shownTokens p newTokenIds stopTerminated
    let decoded := d.decodeTokens dec p d.outputText.length shown
    -- a token that was skipped still counts
    let tokenIds := decoded.1.tokenIds ++ newTokenIds.drop shown.length
    evaluateStop p { decoded.1 with tokenIds } decoded.2

def getNextOutputText (p : DetokenizerParams) (d : DetokState σ) (finished delta : Bool) :
    Text × DetokState σ :=
  let bufferLength := if finished then 0 else p.stopBufferLength
  if delta = false then (d.outputText.take (d.outputText.length - bufferLength), d)
  else
    let length := d.outputText.length - bufferLength
    if d.lastOutputTextOffset < length then
      ((d.outputText.take length).drop d.lastOutputTextOffset,
        { d with lastOutputTextOffset := length })
    else ([], d)

/-! ### Detokenizing without the stop check -/

variable {dec : Decoder σ} {p : DetokenizerParams} {d : DetokState σ}

def decodeAll (dec : Decoder σ) (d : DetokState σ) (tokens : List TokenId) : DetokState σ :=
  tokens.foldl (decodeToken dec) d

@[simp] theorem decodeAll_nil : d.decodeAll dec [] = d := rfl

theorem decodeAll_cons (token : TokenId) (tokens : List TokenId) :
    d.decodeAll dec (token :: tokens) = (d.decodeToken dec token).decodeAll dec tokens := rfl

theorem decodeAll_append (tokens tokens' : List TokenId) :
    d.decodeAll dec (tokens ++ tokens') = (d.decodeAll dec tokens).decodeAll dec tokens' :=
  foldl_append

@[simp] theorem tokenIds_decodeAll (tokens : List TokenId) :
    (d.decodeAll dec tokens).tokenIds = d.tokenIds ++ tokens := by
  induction tokens generalizing d with
  | nil => rw [decodeAll_nil, append_nil]
  | cons token tokens ih => rw [decodeAll_cons, ih, decodeToken, append_assoc]; rfl

theorem outputText_prefix_decodeAll (tokens : List TokenId) :
    d.outputText <+: (d.decodeAll dec tokens).outputText := by
  induction tokens generalizing d with
  | nil => exact prefix_rfl
  | cons token tokens ih =>
    have hstep : d.outputText <+: (d.decodeToken dec token).outputText := prefix_append _ _
    exact hstep.trans ih

@[simp] theorem lastOutputTextOffset_decodeAll (tokens : List TokenId) :
    (d.decodeAll dec tokens).lastOutputTextOffset = d.lastOutputTextOffset := by
  induction tokens generalizing d with
  | nil => rfl
  | cons token tokens ih => rw [decodeAll_cons, ih]; rfl

def HasPrompt (p : DetokenizerParams) (d : DetokState σ) : Prop :=
  p.promptLen ≤ d.tokenIds.length

theorem HasPrompt.decodeAll (h : d.HasPrompt p) (tokens : List TokenId) :
    (d.decodeAll dec tokens).HasPrompt p := by
  rw [HasPrompt, tokenIds_decodeAll, length_append]
  exact Nat.le_add_right_of_le h

theorem HasPrompt.numOutputTokens_decodeAll (h : d.HasPrompt p) (tokens : List TokenId) :
    (d.decodeAll dec tokens).numOutputTokens p = d.numOutputTokens p + tokens.length := by
  unfold HasPrompt at h
  rw [numOutputTokens, numOutputTokens, tokenIds_decodeAll, length_append]
  omega

theorem decodeTokens_fst (offset : Nat) (tokens : List TokenId) :
    (d.decodeTokens dec p offset tokens).1 = d.decodeAll dec tokens := by
  induction tokens generalizing d offset with
  | nil => rfl
  | cons token tokens ih => exact ih _

/-- Behind `min_tokens` the offset stays. -/
theorem decodeTokens_snd_of_le (h : d.HasPrompt p) (hmin : p.minTokens ≤ d.numOutputTokens p)
    (offset : Nat) (tokens : List TokenId) :
    (d.decodeTokens dec p offset tokens).2 = offset := by
  induction tokens generalizing d offset with
  | nil => rfl
  | cons token tokens ih =>
    have hcount : (d.decodeToken dec token).numOutputTokens p = d.numOutputTokens p + 1 :=
      h.numOutputTokens_decodeAll [token]
    have hnext : (d.decodeToken dec token).HasPrompt p := h.decodeAll [token]
    rw [decodeTokens, if_neg (by omega)]
    exact ih hnext (by omega) offset

/-- The search starts at the text of the call, or at the text of the first `min_tokens` tokens if
that is longer. -/
theorem decodeTokens_snd (h : d.HasPrompt p) (tokens : List TokenId) :
    (d.decodeTokens dec p d.outputText.length tokens).2 =
      (d.decodeAll dec
        (tokens.take (p.minTokens - d.numOutputTokens p))).outputText.length := by
  induction tokens generalizing d with
  | nil => rw [take_nil]; rfl
  | cons token tokens ih =>
    have hcount : (d.decodeToken dec token).numOutputTokens p = d.numOutputTokens p + 1 :=
      h.numOutputTokens_decodeAll [token]
    have hnext : (d.decodeToken dec token).HasPrompt p := h.decodeAll [token]
    by_cases hmin : p.minTokens ≤ d.numOutputTokens p
    · rw [decodeTokens_snd_of_le h hmin, Nat.sub_eq_zero_of_le hmin]
      rfl
    rw [decodeTokens, if_pos (by omega), ih hnext, hcount]
    have hsub : p.minTokens - d.numOutputTokens p =
        p.minTokens - (d.numOutputTokens p + 1) + 1 := by omega
    rw [hsub]
    rfl

end DetokState
end Vllm.Output
