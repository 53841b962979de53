import Vllm.Sched.State

/-! How many tokens of a request a step computes: the clamps of `schedule`, the roll-back in
front of encoder inputs and the split at Mamba blocks (`vllm/v1/core/sched/scheduler.py`). -/
namespace Vllm.Sched

variable (cfg : SchedConfig) (answers : Answers)

/-- `long_prefill_token_threshold`. -/
def SchedConfig.capLongPrefill (n : Int) : Int :=
  if 0 < cfg.longPrefillTokenThreshold ∧ (cfg.longPrefillTokenThreshold : Int) < n then
    cfg.longPrefillTokenThreshold
  else n

/-- `num_new_tokens` of a running request before its encoder inputs are considered. -/
def SchedConfig.runningCount (request : Request) (tokenBudget : Int) : Int :=
  let n : Int := request.numTokensWithSpec + request.numOutputPlaceholders -
    request.numComputedTokens
  min (min (cfg.capLongPrefill n) tokenBudget)
    (cfg.maxModelLen - request.numComputedTokens - cfg.numSampledTokensPerStep)

/-- `_mamba_block_aligned_split`; `numComputed` includes the new local and external tokens. -/
def SchedConfig.mambaBlockAlignedSplit (request : Request)
    (numNew numComputed : Int) (numUncachedCommonPrefix : Nat) : Int :=
  let blockSize : Int := cfg.blockSize
  if numComputed < max (request.numPromptTokens : Int) (request.numTokens - 1) then
    let lastCachePosition : Int := request.numTokens - request.numTokens % blockSize
    let lastCachePosition :=
      if cfg.useEagle then max (lastCachePosition - blockSize) 0 else lastCachePosition
    let numNew :=
      if numComputed + numNew < lastCachePosition then numNew / blockSize * blockSize
      else if numComputed < lastCachePosition ∧ lastCachePosition < numComputed + numNew then
        lastCachePosition - numComputed
      else numNew
    if blockSize ≤ numUncachedCommonPrefix ∧ (numUncachedCommonPrefix : Int) < numNew then
      (numUncachedCommonPrefix : Int) / blockSize * blockSize
    else numNew
  else numNew

/-! ### Encoder inputs -/

/-- `get_mm_features_in_window`. The features are sorted and do not overlap, so the bisection
finds the end of the prefix that is below. -/
def mmFeaturesInWindow (features : List MultiModalFeature) (start stop : Int) : Nat × Nat :=
  ((features.takeWhile fun f => (f.stop : Int) < start + 1).length,
    (features.takeWhile fun f => (f.mmPosition.offset : Int) < stop).length)

structure EncoderPlan where
  inputs : List Nat := []
  numNew : Int
  budget : Int
  external : List Nat := []

structure EncoderScan where
  encoder : EncoderCache
  inputs : List Nat := []
  external : List Nat := []
  hashes : List String := []
  numEmbeds : Nat := 0
  budget : Int

structure EncoderWindow where
  request : Request
  numComputed : Int
  numNew : Int
  shift : Nat

/-- What is left of `num_new_tokens` in front of an item that cannot be allocated. -/
def EncoderWindow.beforeItem (w : EncoderWindow) (startPos : Nat) : Int :=
  if w.numComputed + w.shift < startPos then startPos - (w.numComputed + w.shift) else 0

/-- An item would be computed in part, which is not allowed. -/
def EncoderWindow.cutsItem (w : EncoderWindow) (f : MultiModalFeature) : Bool :=
  cfg.disableChunkedMmInput && decide (w.numComputed < f.mmPosition.offset) &&
    decide (w.numComputed + w.numNew < (f.stop : Int))

def EncoderWindow.skipsEmbeds (w : EncoderWindow) (f : MultiModalFeature) : Bool :=
  let startIdx := max 0 (w.numComputed - f.mmPosition.offset)
  let endIdx := min (f.mmPosition.length : Int) (w.numComputed + w.numNew - f.mmPosition.offset)
  let range := f.mmPosition.getEmbedsIndicesInRange startIdx endIdx
  decide (range.2 - range.1 = 0)

/-- The part of the loop body from the roll-back on: an item that is not in the cache. -/
def scanItem (w : EncoderWindow) (i : Nat) (f : MultiModalFeature) (scan : EncoderScan) :
    Except SchedError (EncoderScan × Option Int) :=
  if w.cutsItem cfg f then
    .ok (scan, some (max 0 (f.mmPosition.offset - (w.numComputed + w.shift))))
  else
    match scan.encoder.canAllocate w.request i scan.budget scan.numEmbeds with
    | .error e => .error e
    | .ok (encoder, false) =>
      .ok ({ scan with encoder := encoder }, some (w.beforeItem f.mmPosition.offset))
    | .ok (encoder, true) =>
      let scan := { scan with encoder := encoder }
      let numEmbeds := f.mmPosition.getNumEmbeds
      if w.skipsEmbeds f then .ok (scan, none)
      else if cfg.hasEcConnector ∧ answers.hasCacheItem f.identifier then
        .ok
          ({ scan with
              hashes := scan.hashes.insert f.identifier
              external := scan.external ++ [i]
              numEmbeds := scan.numEmbeds + numEmbeds }, none)
      else
        .ok
          ({ scan with
              hashes := scan.hashes.insert f.identifier
              inputs := scan.inputs ++ [i]
              numEmbeds := scan.numEmbeds + numEmbeds
              budget := scan.budget - numEmbeds }, none)

/-- One item: the scan goes on, or stops with the tokens that are left. -/
def scanInput (w : EncoderWindow) (i : Nat)
    (scan : EncoderScan) : Except SchedError (EncoderScan × Option Int) :=
  match mmFeature w.request i with
  | .error e => .error e
  | .ok f =>
    if cfg.isEncoderDecoder then
      if 0 < w.numComputed then
        if f.mmPosition.offset ≠ 0 then .error .assertion else .ok (scan, none)
      else scanItem cfg answers w i f scan
    else if f.identifier ∈ scan.hashes then .ok (scan, none)
    else
      match scan.encoder.checkAndUpdateCache w.request i with
      | .error e => .error e
      | .ok (encoder, true) => .ok ({ scan with encoder := encoder }, none)
      | .ok (encoder, false) => scanItem cfg answers w i f { scan with encoder := encoder }

def scanInputs (cfg : SchedConfig) (answers : Answers) (w : EncoderWindow) :
    List Nat → EncoderScan → Except SchedError (EncoderScan × Int)
  | [], scan => .ok (scan, w.numNew)
  | i :: is, scan =>
    match scanInput cfg answers w i scan with
    | .error e => .error e
    | .ok (scan, some numNew) => .ok (scan, numNew)
    | .ok (scan, none) => scanInputs cfg answers w is scan

def tryScheduleEncoderInputs (encoder : EncoderCache)
    (request : Request) (numComputed numNew budget : Int) :
    Except SchedError (EncoderCache × EncoderPlan) :=
  if numNew = 0 ∨ request.mmFeatures = [] then .ok (encoder, { numNew, budget })
  else
    let w : EncoderWindow := { request, numComputed, numNew, shift := cfg.shift }
    let range := mmFeaturesInWindow request.mmFeatures numComputed (numComputed + numNew + cfg.shift)
    let lo := if cfg.isEncoderDecoder then 0 else range.1
    match scanInputs cfg answers w (List.range' lo (range.2 - lo)) { encoder, budget } with
    | .error e => .error e
    | .ok (scan, numNew) =>
      .ok (scan.encoder,
        { inputs := scan.inputs, numNew, budget := scan.budget, external := scan.external })

end Vllm.Sched
