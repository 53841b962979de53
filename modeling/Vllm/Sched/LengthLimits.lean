import Vllm.Sched.CountRuns

/-! Whether a request that goes on is within its length limits. `SamplingParams._verify_args`
compares `min_tokens` with a given `max_tokens` only, and `check_stop` tests no limit before
`min_tokens` is reached. -/
namespace Vllm.Sched
open List RequestStatus

/-- A `VLLMValidationError` with its parameter, or a plain `ValueError`. -/
structure InputError where
  message : String
  parameter : Option (String × Int) := none
  deriving DecidableEq, Repr

/-- The fields of `SamplingParams` that bound the output, as the user gives them. -/
structure LengthParams where
  maxTokens : Option Int := some 16
  minTokens : Int := 0
  deriving DecidableEq, Repr

/-- The checks of `_verify_args` on these fields. -/
def LengthParams.verifyArgs (params : LengthParams) : Except InputError Unit :=
  let minTokens := params.minTokens
  let negative : InputError :=
    ⟨s!"min_tokens must be greater than or equal to 0, got {minTokens}.", none⟩
  match params.maxTokens with
  | none => if minTokens < 0 then .error negative else .ok ()
  | some maxTokens =>
    if maxTokens < 1 then
      .error ⟨s!"max_tokens must be at least 1, got {maxTokens}.", some ("max_tokens", maxTokens)⟩
    else if minTokens < 0 then .error negative
    else if maxTokens < minTokens then
      .error ⟨s!"min_tokens must be less than or equal to max_tokens={maxTokens}, got {minTokens}.",
        none⟩
    else .ok ()

structure InputProcessor where
  maxModelLen : Nat
  skipPromptLengthCheck : Bool := false
  supportsMmInputs : Bool := false
  deriving DecidableEq, Repr

namespace InputProcessor

/-- `_validate_prompt_len` for the decoder prompt of a generating model. -/
def validatePromptLen (ip : InputProcessor) (promptLen : Nat) : Except InputError Unit :=
  let maxPromptLen := ip.maxModelLen
  if ip.skipPromptLengthCheck then .ok ()
  else if promptLen = 0 then .error ⟨"The decoder prompt cannot be empty", none⟩
  else if maxPromptLen < promptLen then
    let suggestion :=
      if ip.supportsMmInputs then
        "Make sure that `max_model_len` is no smaller than the number of text tokens plus " ++
          "multimodal tokens. For image inputs, the number of image tokens depends on the number " ++
          "of images, and possibly their aspect ratios as well."
      else "Make sure that `max_model_len` is no smaller than the number of text tokens."
    .error ⟨s!"The decoder prompt (length {promptLen}) is longer than the maximum model length of " ++
      s!"{maxPromptLen}. {suggestion}", none⟩
  else if promptLen = maxPromptLen then
    .error ⟨s!"The decoder prompt (length {promptLen}) plus the number of requested output tokens " ++
      s!"(at least 1) is longer than the maximum model length of {maxPromptLen}. Make sure that " ++
      "`max_model_len` is no smaller than the number of text tokens (prompt + requested output " ++
      "tokens).", none⟩
  else .ok ()

/-- The limits that `process_inputs` puts into a request. Without `max_tokens` the model length
decides; a negative value stops a request just as 0 does. -/
def processInputs (ip : InputProcessor) (params : LengthParams) (request : Request) :
    Except InputError Request :=
  match params.verifyArgs with
  | .error e => .error e
  | .ok () =>
    match ip.validatePromptLen request.numPromptTokens with
    | .error e => .error e
    | .ok () =>
      .ok { request with
        maxTokens := (params.maxTokens.getD (ip.maxModelLen - request.numPromptTokens)).toNat
        samplingParams := { request.samplingParams with minTokens := params.minTokens.toNat } }

end InputProcessor

namespace SchedCore

variable {κ : Type} {core : SchedCore κ} {request q : Request} {params : LengthParams}
  {ip : InputProcessor}

/-- The outputs of several steps for one request; a finished request takes no more. -/
def updateAll (core : SchedCore κ) : List (List TokenId) → Request → Request
  | [], q => q
  | ts :: outputs, q => if q.isFinished then q else core.updateAll outputs (core.appendTokens ts q).1

/-- A request is within the limits. -/
def WithinLimits (core : SchedCore κ) (q : Request) : Prop :=
  q.numTokens < core.cfg.maxModelLen ∧ q.numOutputTokens < q.maxTokens

theorem checkStop_none (h : checkStop core.cfg.maxModelLen q = none) :
    q.numOutputTokens < q.samplingParams.minTokens ∨ core.WithinLimits q := by
  unfold checkStop at h
  dsimp only at h
  split at h
  · exact .inl ‹_›
  split at h
  · cases h
  split at h
  · cases h
  split at h
  · cases h
  exact .inr ⟨by omega, by omega⟩

/-- The limits are tested from the first output on, or the prompt leaves room for `min_tokens`,
which are at most `max_tokens`. -/
structure LeavesRoom (core : SchedCore κ) (q : Request) : Prop where
  tokens : q.numTokens = q.numPromptTokens + q.numOutputTokens
  room : q.samplingParams.minTokens ≤ 1 ∨
    q.numPromptTokens + q.samplingParams.minTokens ≤ core.cfg.maxModelLen ∧
      q.samplingParams.minTokens ≤ q.maxTokens
  within : 0 < q.numOutputTokens → q.isFinished = false → core.WithinLimits q

theorem LeavesRoom.appendTokens (h : core.LeavesRoom q) (ts : List TokenId) :
    core.LeavesRoom (core.appendTokens ts q).1 := by
  induction ts generalizing q with
  | nil => exact h
  | cons t ts ih =>
    obtain ⟨hashes, happend⟩ := appendOutput_appended core q t
    have htokens : (core.appendOutput q t).numTokens =
        q.numPromptTokens + (core.appendOutput q t).numOutputTokens := by
      have := h.tokens
      simp only [happend, Request.numTokens, Request.numOutputTokens, length_append] at this ⊢
      omega
    unfold SchedCore.appendTokens
    dsimp only
    split
    · rename_i status hstop
      rw [happend] at htokens ⊢
      refine ⟨htokens, h.room, fun _ hgoes => ?_⟩
      rw [Request.isFinished, checkStop_isFinished hstop] at hgoes
      cases hgoes
    · rename_i hgoes
      refine ih ⟨by rw [htokens, happend], ?_, fun hpos _ => ?_⟩
      · rw [happend]
        exact h.room
      rcases checkStop_none hgoes with hbelow | hwithin
      · have hroom := h.room
        simp only [happend] at hbelow htokens hpos ⊢
        exact ⟨by omega, by simp only; omega⟩
      · exact hwithin

theorem LeavesRoom.updateAll (h : core.LeavesRoom q) (outputs : List (List TokenId)) :
    core.LeavesRoom (core.updateAll outputs q) := by
  induction outputs generalizing q with
  | nil => exact h
  | cons ts outputs ih =>
    unfold SchedCore.updateAll
    split
    · exact h
    · exact ih (h.appendTokens ts)

/-- Nothing stops a request before it has `min_tokens`. -/
theorem appendTokens_below_min (core : SchedCore κ) (ts : List TokenId)
    (h : q.numOutputTokens + ts.length < q.samplingParams.minTokens) :
    (core.appendTokens ts q).1.status = q.status ∧
      (core.appendTokens ts q).1.numTokens = q.numTokens + ts.length ∧
      (core.appendTokens ts q).1.numOutputTokens = q.numOutputTokens + ts.length := by
  induction ts generalizing q with
  | nil => exact ⟨rfl, rfl, rfl⟩
  | cons t ts ih =>
    obtain ⟨hashes, happend⟩ := appendOutput_appended core q t
    have hcount : (core.appendOutput q t).numOutputTokens = q.numOutputTokens + 1 := by
      rw [happend]
      exact length_append
    have hmin : (core.appendOutput q t).samplingParams = q.samplingParams := by rw [happend]
    rw [length_cons] at h ⊢
    have hgoes : checkStop core.cfg.maxModelLen (core.appendOutput q t) = none := by
      exact if_pos (by rw [hcount, hmin]; omega)
    unfold appendTokens
    simp only [hgoes]
    obtain ⟨hstatus, htokens, houtputs⟩ :=
      ih (q := core.appendOutput q t) (by rw [hcount, hmin]; omega)
    refine ⟨hstatus.trans (by rw [happend]), htokens.trans ?_, houtputs.trans (by omega)⟩
    rw [happend]
    simp only [Request.numTokens, length_append, length_singleton]
    omega

/-- A request as the scheduler gets it, before its first output. -/
structure Admitted (ip : InputProcessor) (params : LengthParams) (request q : Request) : Prop where
  prompt : q.numPromptTokens = request.numPromptTokens
  tokens : q.numTokens = request.numPromptTokens
  outputs : q.numOutputTokens = 0
  unfinished : q.isFinished = false
  least : q.samplingParams.minTokens = params.minTokens.toNat
  most : request.numPromptTokens + params.minTokens.toNat ≤ ip.maxModelLen →
    params.minTokens.toNat ≤ q.maxTokens

theorem processInputs_admitted (hnew : request.IsNew)
    (h : ip.processInputs params request = .ok q) : Admitted ip params request q := by
  unfold InputProcessor.processInputs at h
  split at h
  · cases h
  rename_i hverify
  split at h
  · cases h
  cases h
  refine ⟨rfl, hnew.prompt, congrArg length hnew.noOutput, ?_, rfl, fun hroom => ?_⟩
  · rcases hnew.status with hstatus | hstatus
    · exact congrArg isFinished hstatus
    · exact congrArg isFinished hstatus
  dsimp only
  cases hgiven : params.maxTokens with
  | none =>
    rw [Option.getD_none]
    omega
  | some maxTokens =>
    simp only [LengthParams.verifyArgs, hgiven] at hverify
    rw [Option.getD_some]
    split at hverify
    · cases hverify
    split at hverify
    · cases hverify
    split at hverify
    · cases hverify
    · omega

/-- Every unfinished request with an output is within the limits iff these are tested from the first
output on or the prompt leaves room for `min_tokens`. -/
theorem unfinished_withinLimits_iff (hlen : core.cfg.maxModelLen = ip.maxModelLen)
    (hnew : request.IsNew) (h : ip.processInputs params request = .ok q) :
    (∀ outputs, 0 < (core.updateAll outputs q).numOutputTokens →
        (core.updateAll outputs q).isFinished = false →
          core.WithinLimits (core.updateAll outputs q)) ↔
      params.minTokens ≤ 1 ∨
        request.numPromptTokens + params.minTokens.toNat ≤ ip.maxModelLen := by
  have start := processInputs_admitted hnew h
  constructor
  · intro hall
    by_contra hover
    -- one token less than `min_tokens` reaches the model length
    obtain ⟨hstatus, hcount, houtputs⟩ := appendTokens_below_min (q := q) core
      (replicate (params.minTokens.toNat - 1) 0) (by
        rw [start.outputs, start.least, length_replicate]
        omega)
    have hwithin := hall [replicate (params.minTokens.toNat - 1) 0]
    simp only [updateAll, start.unfinished, Bool.false_eq_true, if_false, houtputs, start.outputs,
      length_replicate] at hwithin
    have hlong := (hwithin (by omega) ((congrArg isFinished hstatus).trans start.unfinished)).1
    rw [hcount, start.tokens, length_replicate] at hlong
    omega
  · intro hroom outputs
    have hrooms : core.LeavesRoom q := by
      refine ⟨by rw [start.tokens, start.prompt, start.outputs, Nat.add_zero], ?_, fun hpos => ?_⟩
      · rw [start.prompt, start.least, hlen]
        exact hroom.imp (by omega) fun hroom => ⟨hroom, start.most hroom⟩
      · rw [start.outputs] at hpos
        cases hpos
    exact (hrooms.updateAll outputs).within

theorem unfinished_withinLimits_two_tokens :
    ∃ q, InputProcessor.processInputs ⟨8, false, false⟩ ⟨none, 2⟩ (promptRequest 0 1) = .ok q ∧
      ∀ outputs, 0 < (paddedCore.updateAll outputs q).numOutputTokens →
        (paddedCore.updateAll outputs q).isFinished = false →
          paddedCore.WithinLimits (paddedCore.updateAll outputs q) :=
  ⟨_, rfl, (@unfinished_withinLimits_iff Unit paddedCore (promptRequest 0 1) _ ⟨none, 2⟩
    ⟨8, false, false⟩ rfl (by decide) rfl).mpr (.inr (by decide))⟩

/-- Without `max_tokens` the default is computed after `min_tokens` was checked: a request with
nine of them goes on behind the end of the model. -/
theorem unfinished_beyond_limits :
    ∃ q, InputProcessor.processInputs ⟨8, false, false⟩ ⟨none, 9⟩ (promptRequest 0 6) = .ok q ∧
      (paddedCore.updateAll [[7], [7, 7]] q).isFinished = false ∧
      (paddedCore.updateAll [[7], [7, 7]] q).numTokens = 9 ∧
      (paddedCore.updateAll [[7], [7, 7]] q).numOutputTokens = 3 ∧
      (paddedCore.updateAll [[7], [7, 7]] q).maxTokens = 2 :=
  ⟨_, rfl, rfl, rfl, rfl, rfl⟩

end SchedCore
end Vllm.Sched
