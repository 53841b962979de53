import Vllm.Lib.Dict
import Vllm.Worker.BlockTable

/-! The persistent batch of the GPU worker (`worker/gpu_input_batch.py`) for a generation model: the
state of each request lies in one row of about twenty arrays and dictionaries. -/
namespace Vllm.Worker
open Slice

abbrev Token := Int

inductive Error
  | assertion
  | index
  | key
  | runtime
  deriving DecidableEq, Repr

/-- The prompt of a request: token ids, with a mask of the positions that are token ids if it mixes
them with embeddings, or embeddings only. -/
inductive Prompt
  | tokenIds (ids : List Token) (isTokenIds : Option (List Bool))
  | embeds (length : Nat)

/-- `length_from_prompt_token_ids_or_embeds`. -/
def Prompt.length : Prompt → Nat
  | .tokenIds ids _ => ids.length
  | .embeds length => length

/-- The part of `SamplingParams` that a row holds. An empty list of allowed tokens allows all. -/
structure SamplingParams (F : Type) where
  greedy : Bool
  temperature : F
  topP : F
  topK : Int
  frequencyPenalty : F
  presencePenalty : F
  repetitionPenalty : F
  allowedTokenIds : List Nat
  badWordsTokenIds : List (List Token)

/-- `CachedRequestState`; LoRA id 0 stands for none. -/
structure CachedRequestState (K F G : Type) where
  reqId : K
  prompt : Prompt
  outputTokenIds : List Token
  numComputedTokens : Nat
  blockIds : List (List Nat)
  samplingParams : SamplingParams F
  generator : Option G
  loraIntId : Nat

/-- `BatchUpdateBuilder`, its removed rows. -/
structure BatchUpdateBuilder where
  removed : List Nat := []
  isRemovedSorted : Bool := false

namespace BatchUpdateBuilder

variable (u : BatchUpdateBuilder)

def ensureRemovedSorted : BatchUpdateBuilder :=
  if u.isRemovedSorted then u
  else { removed := u.removed.insertionSort (· ≥ ·), isRemovedSorted := true }

def removedAppend (index : Nat) : Except Error BatchUpdateBuilder :=
  if u.isRemovedSorted then .error .runtime else .ok { u with removed := u.removed ++ [index] }

def popRemoved : Option Nat × BatchUpdateBuilder :=
  if u.removed = [] then (none, u)
  else
    let u := u.ensureRemovedSorted
    (u.removed.getLast?, { u with removed := u.removed.dropLast })

end BatchUpdateBuilder

structure InputBatch (K F G : Type) where
  maxNumReqs : Nat
  vocabSize : Nat
  reqIds : List (Option K) := []
  reqIdToIndex : Dict K Nat := ∅
  tokenIds : Column (Nat → Token) := fun _ _ => 0
  isTokenIds : Column (Nat → Bool) := fun _ _ => false
  numTokensNoSpec : Column Nat := fun _ => 0
  numPromptTokens : Column Nat := fun _ => 0
  numComputedTokens : Column Nat := fun _ => 0
  blockTable : MultiGroupBlockTable
  temperature : Column F
  topP : Column F
  topK : Column Int
  frequencyPenalties : Column F
  presencePenalties : Column F
  repetitionPenalties : Column F
  numAcceptedTokens : Column Nat := fun _ => 1
  requestLoraMapping : Column Nat := fun _ => 0
  /-- A LoRA id without requests is not in the dictionary. -/
  loraIdToRequestIds : Nat → Finset K := fun _ => ∅
  generators : Column (Option G) := fun _ => none
  batchUpdateBuilder : BatchUpdateBuilder := {}
  /-- Allocated with the first request that needs it; true is not allowed. -/
  allowedTokenIdsMask : Option (Column (Nat → Bool)) := none
  badWordsTokenIds : Column (Option (List (List Token))) := fun _ => none
  specTokenIds : List (List Token) := List.replicate maxNumReqs []

namespace InputBatch
variable {K F G : Type}

def new (maxNumReqs vocabSize : Nat) (blocksPerKvBlock : List Nat) (temperature topP : Column F)
    (topK : Column Int) (frequencyPenalties presencePenalties repetitionPenalties : Column F) :
    InputBatch K F G where
  maxNumReqs := maxNumReqs
  vocabSize := vocabSize
  blockTable := blocksPerKvBlock.map fun n => { blocksPerKvBlock := n }
  temperature := temperature
  topP := topP
  topK := topK
  frequencyPenalties := frequencyPenalties
  presencePenalties := presencePenalties
  repetitionPenalties := repetitionPenalties

def numReqs (b : InputBatch K F G) : Nat := b.reqIdToIndex.keys.length

def activeTokenCount (b : InputBatch K F G) (i : Nat) : Nat :=
  b.numTokensNoSpec i + (b.specTokenIds.getD i []).length

/-- `_register_add_request`: the lowest empty row, or the next one. -/
def registerAddRequest (b : InputBatch K F G) : Except Error (Nat × InputBatch K F G) :=
  let (popped, batchUpdateBuilder) := b.batchUpdateBuilder.popRemoved
  let i := popped.getD b.numReqs
  if i < b.maxNumReqs then .ok (i, { b with batchUpdateBuilder }) else .error .assertion

def rowTopK (vocabSize : Nat) (topK : Int) : Int :=
  if 0 < topK ∧ topK < vocabSize then topK else vocabSize

variable [DecidableEq K]

/-- The first lines of `add_request`: the request is entered in the lists. -/
def enter (b : InputBatch K F G) (i : Nat) (reqId : K) : InputBatch K F G :=
  { b with
    reqIds := if i = b.reqIds.length then b.reqIds ++ [some reqId] else b.reqIds.set i (some reqId)
    specTokenIds :=
      if i = b.reqIds.length then b.specTokenIds ++ [[]] else b.specTokenIds.set i []
    reqIdToIndex := b.reqIdToIndex.insert reqId i }

def writePrompt (row : Nat → Token) : Prompt → Nat → Token
  | .tokenIds ids _ => write row 0 ids
  | .embeds _ => row

def writePromptFlags (row : Nat → Bool) : Prompt → Nat → Bool
  | .tokenIds _ (some isTokenIds) => write row 0 isTokenIds
  | .tokenIds ids none => fill row 0 ids.length true
  | .embeds length => fill row 0 length false

def writeAllowed (b : InputBatch K F G) (i : Nat) (allowed : List Nat) :
    Option (Column (Nat → Bool)) :=
  if allowed = [] then b.allowedTokenIdsMask
  else
    let mask := b.allowedTokenIdsMask.getD fun _ _ => false
    some (mask.set i fun token => decide (token ∉ allowed))

/-- The other lines of `add_request`: the row of the request is written. -/
def writeRow [Zero F] (b : InputBatch K F G) (i : Nat) (r : CachedRequestState K F G) :
    InputBatch K F G :=
  let p := r.samplingParams
  let start := r.prompt.length
  let stop := start + r.outputTokenIds.length
  { b with
    numPromptTokens := b.numPromptTokens.set i start
    tokenIds :=
      b.tokenIds.set i (write (writePrompt (b.tokenIds i) r.prompt) start r.outputTokenIds)
    isTokenIds :=
      b.isTokenIds.set i (fill (writePromptFlags (b.isTokenIds i) r.prompt) start stop true)
    numTokensNoSpec := b.numTokensNoSpec.set i stop
    numComputedTokens := b.numComputedTokens.set i r.numComputedTokens
    blockTable := b.blockTable.addRow r.blockIds i
    temperature := b.temperature.set i (if p.greedy then 0 else p.temperature)
    topP := b.topP.set i p.topP
    topK := b.topK.set i (rowTopK b.vocabSize p.topK)
    frequencyPenalties := b.frequencyPenalties.set i p.frequencyPenalty
    presencePenalties := b.presencePenalties.set i p.presencePenalty
    repetitionPenalties := b.repetitionPenalties.set i p.repetitionPenalty
    generators := if r.generator.isSome then b.generators.set i r.generator else b.generators
    allowedTokenIdsMask := b.writeAllowed i p.allowedTokenIds
    badWordsTokenIds :=
      if p.badWordsTokenIds = [] then b.badWordsTokenIds
      else b.badWordsTokenIds.set i (some p.badWordsTokenIds)
    numAcceptedTokens := b.numAcceptedTokens.set i 1
    requestLoraMapping := b.requestLoraMapping.set i r.loraIntId
    loraIdToRequestIds :=
      if r.loraIntId = 0 then b.loraIdToRequestIds
      else Function.update b.loraIdToRequestIds r.loraIntId
        (insert r.reqId (b.loraIdToRequestIds r.loraIntId)) }

def addRequest [Zero F] (b : InputBatch K F G) (r : CachedRequestState K F G) :
    Except Error (InputBatch K F G) :=
  match b.registerAddRequest with
  | .error e => .error e
  | .ok (i, b) => .ok ((b.enter i r.reqId).writeRow i r)

/-- What `remove_request` takes out of a row. -/
def clearRow (b : InputBatch K F G) (i : Nat) (reqId : K) : InputBatch K F G :=
  let loraId := b.requestLoraMapping i
  { b with
    reqIdToIndex := b.reqIdToIndex.erase reqId
    reqIds := b.reqIds.set i none
    specTokenIds := b.specTokenIds.set i []
    blockTable := b.blockTable.clearRow i
    loraIdToRequestIds :=
      if loraId = 0 then b.loraIdToRequestIds
      else Function.update b.loraIdToRequestIds loraId ((b.loraIdToRequestIds loraId).erase reqId)
    requestLoraMapping := if loraId = 0 then b.requestLoraMapping else b.requestLoraMapping.set i 0
    generators := b.generators.set i none
    allowedTokenIdsMask := b.allowedTokenIdsMask.map fun mask => mask.set i fun _ => false
    badWordsTokenIds := b.badWordsTokenIds.set i none }

def removeRequest (b : InputBatch K F G) (reqId : K) : Except Error (InputBatch K F G) :=
  match b.reqIdToIndex.lookup reqId with
  | none => .ok b
  | some i =>
    match b.batchUpdateBuilder.removedAppend i with
    | .error e => .error e
    | .ok batchUpdateBuilder =>
      if b.requestLoraMapping i ≠ 0 ∧ b.loraIdToRequestIds (b.requestLoraMapping i) = ∅ then
        .error .key
      else .ok { b.clearRow i reqId with batchUpdateBuilder }

/-- `mask[i], mask[j] = mask[j], mask[i]` of a tensor. The values are views: when row `j` is written,
row `i` has already been overwritten. -/
def swapViews (mask : Column (Nat → Bool)) (i j : Nat) : Column (Nat → Bool) :=
  let mask := mask.set i (mask j)
  mask.set j (mask i)

/-- The rows of two requests are swapped; of the token ids only the active prefix. -/
def swapRows (b : InputBatch K F G) (i j : Nat) : InputBatch K F G :=
  let n := max (b.activeTokenCount i) (b.activeTokenCount j)
  { b with
    reqIds := (b.reqIds.set i (b.reqIds.getD j none)).set j (b.reqIds.getD i none)
    specTokenIds :=
      (b.specTokenIds.set i (b.specTokenIds.getD j [])).set j (b.specTokenIds.getD i [])
    numTokensNoSpec := b.numTokensNoSpec.swap i j
    numPromptTokens := b.numPromptTokens.swap i j
    numComputedTokens := b.numComputedTokens.swap i j
    tokenIds := Slice.swapRows b.tokenIds n i j
    isTokenIds := Slice.swapRows b.isTokenIds n i j
    blockTable := b.blockTable.swapRow i j
    requestLoraMapping := b.requestLoraMapping.swap i j
    temperature := b.temperature.swap i j
    topP := b.topP.swap i j
    topK := b.topK.swap i j
    frequencyPenalties := b.frequencyPenalties.swap i j
    presencePenalties := b.presencePenalties.swap i j
    repetitionPenalties := b.repetitionPenalties.swap i j
    numAcceptedTokens := b.numAcceptedTokens.swap i j
    generators := b.generators.swap i j
    badWordsTokenIds := b.badWordsTokenIds.swap i j
    allowedTokenIdsMask := b.allowedTokenIdsMask.map fun mask => swapViews mask i j }

def swapStates (b : InputBatch K F G) (i j : Nat) : Except Error (InputBatch K F G) :=
  match b.reqIds[i]?, b.reqIds[j]? with
  | some (some idI), some (some idJ) =>
    match b.reqIdToIndex.lookup idI, b.reqIdToIndex.lookup idJ with
    | some indexI, some indexJ =>
      .ok { b.swapRows i j with
        reqIdToIndex := (b.reqIdToIndex.insert idI indexJ).insert idJ indexI }
    | _, _ => .error .key
  | some _, some _ => .error .assertion
  | _, _ => .error .index

/-- The body of the loop of `condense`: a request moves down into an empty row. -/
def moveRow (b : InputBatch K F G) (src dst : Nat) (reqId : K) : InputBatch K F G :=
  let n := b.activeTokenCount src
  { b with
    reqIds := (b.reqIds.set dst (some reqId)).set src none
    reqIdToIndex := b.reqIdToIndex.insert reqId dst
    specTokenIds :=
      ((b.specTokenIds.set src (b.specTokenIds.getD dst [])).set dst
        (b.specTokenIds.getD src [])).set src []
    tokenIds := b.tokenIds.set dst (copy n (b.tokenIds src) (b.tokenIds dst))
    isTokenIds := b.isTokenIds.set dst (copy n (b.isTokenIds src) (b.isTokenIds dst))
    numTokensNoSpec := b.numTokensNoSpec.move src dst
    numPromptTokens := b.numPromptTokens.move src dst
    numComputedTokens := b.numComputedTokens.move src dst
    blockTable := b.blockTable.moveRow src dst
    requestLoraMapping := b.requestLoraMapping.move src dst
    temperature := b.temperature.move src dst
    topP := b.topP.move src dst
    topK := b.topK.move src dst
    frequencyPenalties := b.frequencyPenalties.move src dst
    presencePenalties := b.presencePenalties.move src dst
    repetitionPenalties := b.repetitionPenalties.move src dst
    numAcceptedTokens := b.numAcceptedTokens.move src dst
    generators := b.generators.popTo src dst
    allowedTokenIdsMask := b.allowedTokenIdsMask.map fun mask => mask.move src dst
    badWordsTokenIds := b.badWordsTokenIds.popTo src dst }

/-- The largest row that is not empty, counting down. -/
def largestLive (removed : List Nat) : Nat → Nat
  | 0 => 0
  | n + 1 => if n + 1 ∈ removed then largestLive removed n else n + 1

/-- The loop of `condense` over the empty rows, the lowest first; those that are left are returned. -/
def condenseLoop : List Nat → Nat → InputBatch K F G → Except Error (List Nat × InputBatch K F G)
  | [], _, b => .ok ([], b)
  | empty :: removed, last, b =>
    let last := largestLive (empty :: removed) last
    if last ≤ empty then .ok (empty :: removed, b)
    else
      match b.reqIds[last]? with
      | some (some reqId) => condenseLoop removed (last - 1) (b.moveRow last empty reqId)
      | some none => .error .assertion
      | none => .error .index

def trim (b : InputBatch K F G) (n : Nat) : InputBatch K F G :=
  { b with reqIds := b.reqIds.take n, specTokenIds := b.specTokenIds.take n }

def sortRemoved (b : InputBatch K F G) : InputBatch K F G :=
  { b with batchUpdateBuilder := b.batchUpdateBuilder.ensureRemovedSorted }

/-- `condense` once the removed rows are sorted. -/
def closeGaps (b : InputBatch K F G) : Except Error (InputBatch K F G) :=
  let removed := b.batchUpdateBuilder.removed
  if removed = [] then .ok b
  else if b.numReqs = 0 then .ok (b.trim 0)
  else
    match condenseLoop removed.reverse (b.numReqs + removed.length - 1) b with
    | .error e => .error e
    | .ok (left, b') =>
      .ok { b'.trim b.numReqs with
        batchUpdateBuilder := { b.batchUpdateBuilder with removed := left.reverse } }

def condense (b : InputBatch K F G) : Except Error (InputBatch K F G) := b.sortRemoved.closeGaps

def refreshMetadata (b : InputBatch K F G) : InputBatch K F G := { b with batchUpdateBuilder := {} }

/-- What is written to the row of a request between the steps and within them: by
`update_req_spec_token_ids` and by the model runner. -/
inductive Update
  | specTokenIds (ids : List Token)
  | tokenIds (ids : List Token)
  | numTokensNoSpec (n : Nat)
  | numComputedTokens (n : Nat)
  | blockIds (ids : List (List Nat))
  | numAcceptedTokens (n : Nat)

def updateRow (b : InputBatch K F G) (i : Nat) : Update → InputBatch K F G
  | .specTokenIds ids =>
    let start := b.numTokensNoSpec i
    { b with
      tokenIds := b.tokenIds.set i (write (b.tokenIds i) start ids)
      isTokenIds := b.isTokenIds.set i (fill (b.isTokenIds i) start (start + ids.length) true)
      specTokenIds := b.specTokenIds.set i ids }
  | .tokenIds ids =>
    let start := b.numTokensNoSpec i
    { b with
      tokenIds := b.tokenIds.set i (write (b.tokenIds i) start ids)
      isTokenIds := b.isTokenIds.set i (fill (b.isTokenIds i) start (start + ids.length) true)
      numTokensNoSpec := b.numTokensNoSpec.set i (start + ids.length) }
  | .numTokensNoSpec n => { b with numTokensNoSpec := b.numTokensNoSpec.set i n }
  | .numComputedTokens n => { b with numComputedTokens := b.numComputedTokens.set i n }
  | .blockIds ids => { b with blockTable := b.blockTable.appendRow ids i }
  | .numAcceptedTokens n => { b with numAcceptedTokens := b.numAcceptedTokens.set i n }

def update (b : InputBatch K F G) (reqId : K) (u : Update) : Except Error (InputBatch K F G) :=
  match b.reqIdToIndex.lookup reqId with
  | none => .error .key
  | some i => .ok (b.updateRow i u)

end InputBatch
end Vllm.Worker
