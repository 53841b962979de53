import Vllm.Sched.Moves

/-! Which requests the output of a step ends, by the requests as they are before the step. -/
namespace Vllm.Sched

open KVCache (BlockId KVError)

namespace SchedCore

variable {κ : Type} {core : SchedCore κ} {s s' : SchedulerState κ} {r x : ReqId}
  {out : SchedulerOutput} {result : StepResult} {who skip : ReqId → Prop}

def ends (core : SchedCore κ) (result : StepResult) (r : ReqId) (q : Request) : Bool :=
  if result.sampledTokenIds r ≠ [] then
    if core.cfg.asyncScheduling ∧ 0 < q.asyncTokensToDiscard then false
    else (core.appendTokens (result.sampledTokenIds r) q).2.2 || result.grammarRejects r
  else q.pooling && result.poolerOutput r

/-- Two requests that the same output ends: the tokens and the parameters agree. -/
structure EndAlike (q q' : Request) : Prop where
  output : q'.outputTokenIds = q.outputTokenIds
  tokens : q'.allTokenIds = q.allTokenIds
  sampling : q'.samplingParams = q.samplingParams
  maxTokens : q'.maxTokens = q.maxTokens
  discard : q'.asyncTokensToDiscard = q.asyncTokensToDiscard
  pooling : q'.pooling = q.pooling

theorem EndAlike.append {q q' : Request} (h : EndAlike q q') (core : SchedCore κ) (t : TokenId) :
    EndAlike (core.appendOutput q t) (core.appendOutput q' t) := by
  obtain ⟨hashes, heq⟩ := appendOutput_appended core q t
  obtain ⟨hashes', heq'⟩ := appendOutput_appended core q' t
  rw [heq, heq']
  refine ⟨?_, ?_, h.sampling, h.maxTokens, h.discard, h.pooling⟩
  · rw [h.output]
  · rw [h.tokens]

theorem EndAlike.checkStop {q q' : Request} (h : EndAlike q q') (maxModelLen : Nat) :
    checkStop maxModelLen q' = checkStop maxModelLen q := by
  unfold Sched.checkStop Request.numOutputTokens Request.numTokens
  rw [h.output, h.tokens, h.sampling, h.maxTokens]

theorem EndAlike.appendTokens {q q' : Request} (h : EndAlike q q') (core : SchedCore κ)
    (ts : List TokenId) : (core.appendTokens ts q').2 = (core.appendTokens ts q).2 := by
  induction ts generalizing q q' with
  | nil => rfl
  | cons t ts ih =>
    have happend := h.append core t
    unfold SchedCore.appendTokens
    dsimp only
    rw [happend.checkStop]
    split
    · rfl
    · rw [ih happend]

theorem EndAlike.ends {q q' : Request} (h : EndAlike q q') (core : SchedCore κ)
    (result : StepResult) (r : ReqId) : core.ends result r q' = core.ends result r q := by
  unfold SchedCore.ends
  rw [h.appendTokens, h.discard, h.pooling]

theorem rejectDrafts_endAlike (cfg : SchedConfig) (drafts generated : List TokenId)
    (q : Request) : EndAlike q (rejectDrafts cfg drafts generated q) := by
  unfold rejectDrafts
  split <;> exact ⟨rfl, rfl, rfl, rfl, rfl, rfl⟩

/-! ### One request -/

theorem ProcessCase.ends {s₁ s₂ : SchedulerState κ} {new : List TokenId} {stop : Bool}
    (h : ProcessCase core out result r s s₁ s₂ s' new stop true) :
    core.ends result r (s.req r) = true := by
  obtain ⟨s₀, encoder, rfl, rfl, -⟩ := h.inputs
  have hstopped : (stop || (!new.isEmpty && result.grammarRejects r)) = true := by
    cases h.finish with
    | continues hstop => exact hstop
    | finishes hstop => exact hstop
  have hreject := rejectDrafts_endAlike core.cfg
    ((out.scheduledSpecDecodeTokens.lookup r).getD []) (result.sampledTokenIds r) (s.req r)
  have hq : ((s.setReq r (rejectDrafts core.cfg
      ((out.scheduledSpecDecodeTokens.lookup r).getD []) (result.sampledTokenIds r))).req r) =
        rejectDrafts core.cfg ((out.scheduledSpecDecodeTokens.lookup r).getD [])
          (result.sampledTokenIds r) (s.req r) :=
    Function.update_self ..
  rw [← hreject.ends core result r, ← hq]
  unfold SchedCore.ends
  cases h.take with
  | tokens hne hcase =>
    rw [if_pos hne]
    cases hcase with
    | discarded => simp at hstopped
    | sync hasync =>
      rw [if_neg (by rw [hasync]; exact fun h => absurd h.1 Bool.false_ne_true)]
      rcases Bool.or_eq_true_iff.mp hstopped with hstop | hgrammar
      · exact Bool.or_eq_true_iff.mpr (.inl hstop)
      · exact Bool.or_eq_true_iff.mpr (.inr (Bool.and_eq_true_iff.mp hgrammar).2)
    | async _ hdiscard =>
      rw [if_neg (fun h => absurd h.2 (not_lt.mpr hdiscard))]
      rcases Bool.or_eq_true_iff.mp hstopped with hstop | hgrammar
      · exact Bool.or_eq_true_iff.mpr (.inl hstop)
      · exact Bool.or_eq_true_iff.mpr (.inr (Bool.and_eq_true_iff.mp hgrammar).2)
  | pooled hnone hpooling hout =>
    rw [if_neg (not_not.mpr hnone)]
    exact Bool.and_eq_true_iff.mpr ⟨hpooling, hout⟩
  | nothing => simp at hstopped

/-! ### The other requests -/

theorem setReq_apart (hr : who r) (hx : ¬who x) (f : Request → Request) :
    (s.setReq r f).req x = s.req x :=
  Function.update_of_ne (fun heq => hx (by rw [heq]; exact hr)) ..

theorem Change.req_eq (h : Change core who skip s s') (hx : ¬who x) : s'.req x = s.req x := by
  cases h with
  | tables hbooks => exact congrFun (Prod.mk.inj hbooks).1 x
  | request hr => exact setReq_apart hr hx _
  | truncated hwho => exact (hx (hwho x)).elim
  | freeBlocks h =>
    obtain ⟨kv, deferred, rfl⟩ := SchedulerState.freeRequestBlocks_cases h
    rfl
  | encoder | skipBlocks | cacheBlocks | resetBlocks => rfl

theorem Moves.req_eq (h : Moves core who skip s s') (hx : ¬who x) : s'.req x = s.req x := by
  have hchanges : ∀ {s s' : SchedulerState κ}, Changes core who skip s s' → s'.req x = s.req x := by
    intro s s' h
    induction h with
    | refl => rfl
    | tail _ hone ih => exact (hone.req_eq hx).trans ih
  induction h with
  | refl => rfl
  | tail _ hone ih =>
    refine Eq.trans ?_ ih
    cases hone with
    | change h => exact h.req_eq hx
    | session hr => exact setReq_apart hr hx (core.mergeSession · _)
    | wait hr => exact setReq_apart hr hx _
    | finish _ _ h =>
      have hsame := hchanges h
      exact hsame

/-- What ends a request in the loop ends it before the step. -/
theorem UpdateCase.ends {s₁ s₂ s₃ : SchedulerState κ} {failed : List ReqId} {stopped : Stopped}
    (h : UpdateCase core s out result s₁ s₂ s₃ s' failed stopped) (r : ReqId) :
    core.ends result r (s₁.req r) = core.ends result r (s.req r) := by
  have hreq : (core.stepProcessed s out).req = s.req := by
    unfold stepProcessed
    split <;> rfl
  obtain ⟨req, kv, failed, rfl, htruncated⟩ := h.truncated
  obtain ⟨computed, heq⟩ := htruncated r
  rw [hreq] at heq
  have halike : EndAlike (s.req r) (req r) := by
    rw [heq]
    exact ⟨rfl, rfl, rfl, rfl, rfl, rfl⟩
  exact halike.ends core result r

end SchedCore
end Vllm.Sched
