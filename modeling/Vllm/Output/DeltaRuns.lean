import Vllm.Output.DeltaStream

/-! Runs in delta mode and in final-only mode side by side, with the same outputs of the engine. -/
namespace Vllm.Output
open List Function Prod Option

/-! ### What a request generates -/

/-- The text, tokens and logprobs of a request, whatever is sent of them. -/
structure Generation (σ L : Type) where
  detokenizer : Detokenizer σ
  positions : List L := []
  finished : Bool := false

namespace Generation

variable {σ L : Type}

def deliver (cfg : StreamConfig σ) (g : Generation σ L) (tokens : List (TokenId × L))
    (finishReason : Option FinishReason) : Generation σ L :=
  if g.finished then g
  else
    let result := g.detokenizer.update cfg (tokens.map fst)
      (decide (finishReason = some .stop))
    { detokenizer := result.2
      positions := g.positions ++ if cfg.logprobs then tokens.map snd else []
      finished := result.1.isSome || finishReason.isSome }

def next (cfg : StreamConfig σ) (g : Nat → Generation σ L) : Frontend.Op L → Nat → Generation σ L
  | .output i tokens finishReason _ =>
    update g i ((g i).deliver cfg tokens finishReason)
  | .abort i => update g i { g i with finished := true }
  | .get => g

end Generation

namespace Detokenizer

variable {σ : Type} {cfg : StreamConfig σ}

@[simp] theorem text_setOffset (n : Nat) (d : Detokenizer σ) : (d.setOffset n).text = d.text := by
  cases d <;> rfl

@[simp] theorem outputTokenIds_setOffset (n : Nat) (d : Detokenizer σ) :
    (d.setOffset n).outputTokenIds cfg = d.outputTokenIds cfg := by
  cases d <;> rfl

end Detokenizer

namespace Frontend

variable {σ L : Type} {cfg : StreamConfig σ} {n : Nat} {g : Nat → Generation σ L}
  {s s' : Frontend σ L}

/-! ### Delta mode -/

/-- A request between two steps, with what was sent of it. -/
structure ChildInv (cfg : StreamConfig σ) (n : Nat) (g : Nat → Generation σ L) (s : Frontend σ L)
    (i : Nat) : Prop where
  running : ∀ st, s.requestStates i = some st → i < n ∧ (g i).finished = false ∧
    st.detokenizer.setOffset 0 = (g i).detokenizer ∧ Keeps cfg st (s.sampleLogprobs i) (s.sent i)
  ended : s.requestStates i = none → (g i).finished = true ∧
    AllSent cfg (g i).detokenizer (g i).positions (s.sent i)
  positions : s.sampleLogprobs i = (g i).positions

/-- The requests that have not ended are children of the parent. -/
def ChildrenOk (s : Frontend σ L) : Prop :=
  ∀ parent, s.parent = some parent → ∀ i st, s.requestStates i = some st →
    i ∈ parent.childRequests

structure DeltaInv (cfg : StreamConfig σ) (n : Nat) (g : Nat → Generation σ L) (s : Frontend σ L) :
    Prop where
  child : ∀ i, ChildInv cfg n g s i
  pending : PendingOk cfg s
  children : s.ChildrenOk

variable {c : CompletionOutput (LogprobsRef L)} {stopReason : Option StopReason}
    {finishReason : Option FinishReason} {i j : Nat} {st st' st₂ : RequestState σ}
    {newTokenIds : List TokenId} {parent : ParentRequest L}

def settle (s : Frontend σ L) (i : Nat) (st : RequestState σ) (parent : Option (ParentRequest L))
    (finishReason : Option FinishReason) : Frontend σ L :=
  { s with
    parent
    requestStates := update s.requestStates i
      (if finishReason.isSome then none else some st) }

theorem emit_none {parent : Option (ParentRequest L)}
    (h : s.makeRequestOutput cfg i st newTokenIds finishReason stopReason = (none, parent, st')) :
    s.emit cfg i st newTokenIds finishReason stopReason =
      .ok (s.settle i st' parent finishReason) := by
  rw [emit, h]
  rfl

theorem emit_some {parent : Option (ParentRequest L)} {output : RequestOutput (LogprobsRef L)}
    (h : s.makeRequestOutput cfg i st newTokenIds finishReason stopReason =
      (some output, parent, st')) :
    s.emit cfg i st newTokenIds finishReason stopReason =
      (s.settle i st' parent finishReason).put cfg output := by
  rw [emit, h]
  rfl

theorem settle_some {stj : RequestState σ}
    (h : update s.requestStates i (if finishReason.isSome then none else some st) j = some stj) :
    (j = i ∧ finishReason = none ∧ stj = st) ∨ (j ≠ i ∧ s.requestStates j = some stj) := by
  rw [update_apply] at h
  split_ifs at h with hji hfin
  · exact .inl ⟨hji, not_isSome_iff_eq_none.mp hfin, (some.inj h).symm⟩
  · exact .inr ⟨hji, h⟩

theorem settle_none
    (h : update s.requestStates i (if finishReason.isSome then none else some st) j = none) :
    (j = i ∧ finishReason.isSome = true) ∨ (j ≠ i ∧ s.requestStates j = none) := by
  rw [update_apply] at h
  split_ifs at h with hji hfin
  · exact .inl ⟨hji, hfin⟩
  · exact .inr ⟨hji, h⟩

theorem ChildInv.congr (child : ChildInv cfg n g s i) {g' : Nat → Generation σ L} (hg : g' i = g i)
    (hstates : s'.requestStates i = s.requestStates i)
    (hpositions : s'.sampleLogprobs i = s.sampleLogprobs i) (hsent : s'.sent i = s.sent i) :
    ChildInv cfg n g' s' i := by
  refine ⟨?_, ?_, ?_⟩ <;> rw [hg]
  · rw [hstates, hpositions, hsent]
    exact child.running
  · rw [hstates, hsent]
    exact child.ended
  · exact hpositions.trans child.positions

theorem getOutputs_delta (hdelta : cfg.outputKind = .delta)
    (hmem : c.index ∈ parent.childRequests) :
    parent.getOutputs cfg.outputKind c =
      (([c], (if c.finishReason.isSome then parent.childRequests.erase c.index
          else parent.childRequests).isEmpty),
        { parent with
          childRequests := if c.finishReason.isSome then parent.childRequests.erase c.index
            else parent.childRequests }) := by
  unfold ParentRequest.getOutputs
  simp only [hdelta, ne_eq, reduceCtorEq, not_false_eq_true, if_true]
  rw [contains_iff_mem.mpr hmem]
  simp

theorem newCompletionOutput_index (cfg : StreamConfig σ) (positions : List L) (i : Nat)
    (st : RequestState σ) (tokenIds : List TokenId) (finishReason : Option FinishReason)
    (stopReason : Option StopReason) :
    (newCompletionOutput cfg positions i st tokenIds finishReason stopReason).1.index = i ∧
      (newCompletionOutput cfg positions i st tokenIds finishReason stopReason).1.finishReason =
        finishReason := ⟨rfl, rfl⟩

theorem makeRequestOutput_delta (hdelta : cfg.outputKind = .delta) (children : s.ChildrenOk)
    {st₀ : RequestState σ} (hst : s.requestStates i = some st₀) {tokenIds : List TokenId}
    (hsome : tokensToSend cfg st newTokenIds finishReason.isSome = some (tokenIds, st'))
    (hnew : newCompletionOutput cfg (s.sampleLogprobs i) i st' tokenIds finishReason stopReason =
      (c, st₂)) :
    ∃ parent finished, s.makeRequestOutput cfg i st newTokenIds finishReason stopReason =
        (some ⟨[c], finished⟩, parent, st₂) ∧
      ChildrenOk (s.settle i st₂ parent finishReason) := by
  obtain ⟨hindex, hreason⟩ := newCompletionOutput_index cfg (s.sampleLogprobs i) i st'
    tokenIds finishReason stopReason
  rw [hnew] at hindex hreason
  simp only at hindex hreason
  unfold makeRequestOutput
  rw [if_neg (by simp [hdelta]), hsome]
  simp only [hnew]
  cases hparent : s.parent with
  | none =>
    refine ⟨none, _, rfl, ?_⟩
    intro parent hsome'
    cases hsome'
  | some parent =>
    have hmem : c.index ∈ parent.childRequests := by
      rw [hindex]
      exact children parent hparent i st₀ hst
    simp only [getOutputs_delta hdelta hmem, hreason, hindex]
    refine ⟨_, _, rfl, ?_⟩
    rintro parent' ⟨⟩ j stj hj
    rcases settle_some hj with ⟨rfl, rfl, -⟩ | ⟨hji, hj⟩
    · exact children parent hparent j st₀ hst
    · have hmem' := children parent hparent j stj hj
      split
      · exact (mem_erase_of_ne hji).mpr hmem'
      · exact hmem'

/-- Only the reading of waiting completions depends on the lists of the requests. -/
theorem sent_congr (hreceived : s'.received = s.received) (houtput : s'.output = s.output)
    (hpositions : ∀ o, s.output = some o → ∀ c ∈ o.outputs, c.logprobs = some .ofRequest →
      s'.sampleLogprobs c.index = s.sampleLogprobs c.index) (i : Nat) :
    s'.sent i = s.sent i := by
  have hpending : s'.pendingOutputs = s.pendingOutputs := by
    unfold pendingOutputs
    rw [houtput]
    cases hout : s.output with
    | none => rfl
    | some o =>
      refine map_congr_left fun c hc => ?_
      have href := hpositions o hout c hc
      simp only [readCompletion]
      cases hl : c.logprobs with
      | none => rfl
      | some ref =>
        cases ref with
        | slice own => rfl
        | ofRequest => simp only [map_some, positions, href hl]
  rw [sent, sent, hreceived, hpending]

/-- The child that takes a step, between its update and its output. -/
structure Emitting (cfg : StreamConfig σ) (n : Nat) (g : Nat → Generation σ L) (s : Frontend σ L)
    (i : Nat) (st : RequestState σ) (newTokenIds : List TokenId)
    (finishReason : Option FinishReason) : Prop where
  lt : i < n
  running : (s.requestStates i).isSome
  others : ∀ j, j ≠ i → ChildInv cfg n g s j
  awaits : Awaits cfg st (s.sampleLogprobs i) (s.sent i) newTokenIds finishReason.isSome
  same : st.detokenizer.setOffset 0 = (g i).detokenizer
  finished : (g i).finished = finishReason.isSome
  positions : s.sampleLogprobs i = (g i).positions
  pending : PendingOk cfg s
  children : s.ChildrenOk

section

section
variable (h : Emitting cfg n g s i st newTokenIds finishReason)
include h

theorem Emitting.ref_ne {o : RequestOutput (LogprobsRef L)} (ho : s.output = some o)
    (hc : c ∈ o.outputs) (href : c.logprobs = some .ofRequest) : c.index ≠ i := by
  intro hindex
  have hnone := (h.pending.refs o ho c hc).2 href
  have hsome := h.running
  rw [← hindex, hnone] at hsome
  cases hsome

theorem Emitting.pending_settle (st₂ : RequestState σ) (parent : Option (ParentRequest L)) :
    PendingOk cfg (s.settle i st₂ parent finishReason) := by
  refine ⟨h.pending.nodup, fun o ho c hc => ?_⟩
  have href := h.pending.refs o ho c hc
  refine ⟨href.1, fun hl => ?_⟩
  simp only [settle, update_of_ne (h.ref_ne ho hc hl)]
  exact href.2 hl

theorem Emitting.settled (hstates : s'.requestStates =
      update s.requestStates i (if finishReason.isSome then none else some st₂))
    (hpositions : s'.sampleLogprobs = s.sampleLogprobs) (hsent : ∀ j, j ≠ i → s'.sent j = s.sent j)
    (hsame : st₂.detokenizer.setOffset 0 = (g i).detokenizer)
    (hkeeps : finishReason = none → Keeps cfg st₂ (s.sampleLogprobs i) (s'.sent i))
    (hall : finishReason.isSome = true → AllSent cfg (g i).detokenizer (g i).positions (s'.sent i))
    (j : Nat) :
    ChildInv cfg n g s' j := by
  by_cases hji : j = i
  · subst hji
    refine ⟨fun stj hstj => ?_, fun hnone => ?_, ?_⟩
    · rw [hstates] at hstj
      obtain ⟨-, hnone, rfl⟩ := (settle_some hstj).resolve_right fun h => h.1 rfl
      rw [hpositions]
      exact ⟨h.lt, by rw [h.finished, hnone]; rfl, hsame, hkeeps hnone⟩
    · rw [hstates] at hnone
      have hfin := ((settle_none hnone).resolve_right fun h => h.1 rfl).2
      exact ⟨h.finished.trans hfin, hall hfin⟩
    · rw [hpositions]
      exact h.positions
  · refine (h.others j hji).congr rfl ?_ (congrFun hpositions j) (hsent j hji)
    rw [hstates]
    exact update_of_ne hji _ _

theorem Emitting.silent (hdelta : cfg.outputKind = .delta) (stopReason : Option StopReason)
    (hnone : tokensToSend cfg st newTokenIds finishReason.isSome = none) :
    ∃ s', s.emit cfg i st newTokenIds finishReason stopReason = .ok s' ∧ DeltaInv cfg n g s' := by
  obtain ⟨hfin, hkeeps⟩ := tokensToSend_none hnone h.awaits
  have hmake : s.makeRequestOutput cfg i st newTokenIds finishReason stopReason =
      (none, s.parent, st) := by
    rw [makeRequestOutput, if_neg (by simp [hdelta]), hnone]
  have hsent : ∀ j, (s.settle i st s.parent finishReason).sent j = s.sent j :=
    sent_congr rfl rfl fun _ _ _ _ _ => rfl
  refine ⟨_, emit_none hmake, h.settled rfl rfl (fun j _ => hsent j) h.same (fun _ => ?_)
    (fun hsome => ?_), h.pending_settle .., fun parent hparent j stj hj => ?_⟩
  · exact hkeeps
  · rw [hfin] at hsome
    cases hsome
  · rcases settle_some hj with ⟨rfl, -, -⟩ | ⟨-, hj⟩
    · obtain ⟨st₀, hst₀⟩ := isSome_iff_exists.mp h.running
      exact h.children parent hparent j st₀ hst₀
    · exact h.children parent hparent j stj hj

end

variable {tokenIds : List TokenId} {positions : List L} {sent : Sent L}

/-- In delta mode an output refers to the list of the request only while that list is empty. -/
theorem newCompletionOutput_ref (hdelta : cfg.outputKind = .delta)
    (hnew : newCompletionOutput cfg positions i st tokenIds finishReason stopReason = (c, st₂)) :
    c.logprobs.isSome = cfg.logprobs ∧ (c.logprobs = some .ofRequest → positions = []) := by
  simp only [newCompletionOutput, hdelta, decide_true, if_true, true_and] at hnew
  cases hnew
  cases hlogprobs : cfg.logprobs with
  | false => exact ⟨rfl, fun h => by cases h⟩
  | true =>
    by_cases hpositions : positions = []
    · rw [if_neg (not_not.mpr hpositions)]
      exact ⟨rfl, fun _ => hpositions⟩
    · rw [if_pos hpositions]
      exact ⟨rfl, fun h => by cases h⟩

theorem Emitting.speaks (hdelta : cfg.outputKind = .delta)
    (h : Emitting cfg n g s i st newTokenIds finishReason) (stopReason : Option StopReason)
    (hsome : tokensToSend cfg st newTokenIds finishReason.isSome = some (tokenIds, st'))
    (hsafe : cfg.logprobs = true → tokenIds = [] →
      s.sampleLogprobs i = [] ∧ finishReason.isSome = true) :
    ∃ s', s.emit cfg i st newTokenIds finishReason stopReason = .ok s' ∧ DeltaInv cfg n g s' := by
  obtain ⟨st₀, hst₀⟩ := isSome_iff_exists.mp h.running
  generalize hnew : newCompletionOutput cfg (s.sampleLogprobs i) i st' tokenIds finishReason
    stopReason = result
  obtain ⟨c, st₂⟩ := result
  obtain ⟨parent, finished, hmake, hchildren⟩ :=
    makeRequestOutput_delta hdelta h.children hst₀ hsome hnew
  obtain ⟨hsame, hkeeps, hall⟩ := h.awaits.newCompletionOutput hdelta hsome
    (fun hl hnil => (hsafe hl hnil).1) i stopReason hnew
  obtain ⟨hisSome, hempty⟩ := newCompletionOutput_ref hdelta hnew
  have hindex : c.index = i := by
    have hindex := (newCompletionOutput_index cfg (s.sampleLogprobs i) i st' tokenIds
      finishReason stopReason).1
    rwa [hnew] at hindex
  set s₁ := s.settle i st₂ parent finishReason with hs₁
  -- a reference to the empty list of the request is only handed out at its end
  have hnext : RefOk cfg s₁ c := by
    refine ⟨hisSome, fun hl => ?_⟩
    have hpositions := hempty hl
    have hlogprobs : cfg.logprobs = true := by rw [← hisSome, hl]; rfl
    have hlength := h.awaits.length
    obtain ⟨-, htokens, -⟩ := tokensToSend_some hdelta hsome h.awaits
    rw [hpositions, hlogprobs, htokens] at hlength
    have hnil : tokenIds = [] := length_eq_zero_iff.mp (by simp at hlength; omega)
    have hfin := (hsafe hlogprobs hnil).2
    simp only [hs₁, settle, hindex, update_self, hfin, if_true]
  obtain ⟨o, hput, hpending', hsent⟩ := put_delta hdelta (h.pending_settle st₂ parent) hnext
    (fun _ o ho c' hc' hc'index hl => h.ref_ne ho hc' hl (hc'index.trans hindex)) finished
  have hsent₁ : ∀ j, s₁.sent j = s.sent j := sent_congr rfl rfl fun _ _ _ _ _ => rfl
  have hsenti : sent { s₁ with output := some o } i =
      (s.sent i).append (c.chunk (s.sampleLogprobs i)) := by
    rw [hsent, if_pos hindex, hindex]
    rfl
  refine ⟨_, (emit_some hmake).trans hput, h.settled rfl rfl (fun j hj => ?_)
    ((hsame 0).trans h.same) (fun hnone => ?_) (fun hfin => ?_), hpending', hchildren⟩
  · rw [hsent, hsent₁, if_neg (fun heq => hj (heq.symm.trans hindex)), Sent.append_empty]
  · rw [hsenti]
    exact hkeeps hnone
  · have hallsent := hall hfin
    unfold AllSent at hallsent ⊢
    rw [hsenti, hallsent, ← h.positions, ← h.same, Detokenizer.text_setOffset,
      Detokenizer.outputTokenIds_setOffset]

/-- A step without a new token sends something all the same: it ends a request that has no token,
or with a stream interval there are tokens left to send, or it makes no output. -/
def SilentOk (cfg : StreamConfig σ) (st : RequestState σ) (finishReason : Option FinishReason) :
    Prop :=
  (finishReason.isSome = true ∧ st.detokenizer.outputTokenIds cfg = []) ∨
    (1 < cfg.streamInterval ∧
      (st.sentTokensOffset < (st.detokenizer.outputTokenIds cfg).length ∨
        (finishReason = none ∧ st.sentTokensOffset ≠ 0)))

/-- With logprobs, a step that makes an output has a token to send. -/
def Safe (cfg : StreamConfig σ) (s : Frontend σ L) : Op L → Prop
  | .output i tokens finishReason _ => cfg.logprobs = true → tokens = [] →
      ∀ st, s.requestStates i = some st → SilentOk cfg st finishReason
  | .abort i => cfg.logprobs = true →
      ∀ st, s.requestStates i = some st → SilentOk cfg st (some .abort)
  | .get => True

theorem SilentOk.ends (hok : SilentOk cfg st finishReason) (hlogprobs : cfg.logprobs = true)
    (awaits : Awaits cfg st positions sent [] finishReason.isSome)
    (hdelta : cfg.outputKind = .delta)
    (hsome : tokensToSend cfg st [] finishReason.isSome = some ([], st')) :
    positions = [] ∧ finishReason.isSome = true := by
  have hlength := awaits.length
  rw [if_pos hlogprobs] at hlength
  rcases hok with ⟨hfin, hnil⟩ | ⟨hinterval, hmore⟩
  · rw [hnil] at hlength
    exact ⟨length_eq_zero_iff.mp hlength, hfin⟩
  have htokens := awaits.tokens
  obtain ⟨-, hsplit, -⟩ := tokensToSend_some hdelta hsome awaits
  rw [if_pos hinterval] at htokens
  rw [append_nil] at hsplit
  -- all tokens were sent already
  have hoffset : (st.detokenizer.outputTokenIds cfg).length ≤ st.sentTokensOffset := by
    have hlen := congrArg length (hsplit.trans htokens.1)
    rw [length_take] at hlen
    omega
  rcases hmore with hlt | ⟨rfl, hne⟩
  · omega
  unfold tokensToSend at hsome
  rw [if_pos hinterval, Detokenizer.numOutputTokens_eq] at hsome
  rw [if_pos ⟨rfl, hne, by omega⟩] at hsome
  cases hsome

/-- A step with a new token sends a token. -/
theorem tokensToSend_ne_nil (hdelta : cfg.outputKind = .delta) {finished : Bool}
    (awaits : Awaits cfg st positions sent newTokenIds finished) (hne : newTokenIds ≠ [])
    (hlen : sent.tokenIds.length + newTokenIds.length ≤ (st.detokenizer.outputTokenIds cfg).length)
    (hsome : tokensToSend cfg st newTokenIds finished = some (tokenIds, st')) : tokenIds ≠ [] := by
  rintro rfl
  obtain ⟨-, hsplit, -⟩ := tokensToSend_some hdelta hsome awaits
  have hpos := length_pos_iff.mpr hne
  rw [hsplit, length_append, length_nil] at hlen
  omega

theorem Emitting.emit_ok (hdelta : cfg.outputKind = .delta)
    (h : Emitting cfg n g s i st newTokenIds finishReason) (stopReason : Option StopReason)
    (hlen : (s.sent i).tokenIds.length + newTokenIds.length ≤
      (st.detokenizer.outputTokenIds cfg).length)
    (hsafe : cfg.logprobs = true → newTokenIds = [] → SilentOk cfg st finishReason) :
    ∃ s', s.emit cfg i st newTokenIds finishReason stopReason = .ok s' ∧ DeltaInv cfg n g s' := by
  cases hsend : tokensToSend cfg st newTokenIds finishReason.isSome with
  | none => exact h.silent hdelta stopReason hsend
  | some result =>
    refine h.speaks hdelta stopReason hsend fun hlogprobs hnil => ?_
    by_cases hnew : newTokenIds = []
    · subst hnew
      have hsend' : tokensToSend cfg st [] finishReason.isSome = some ([], result.2) := by
        rw [hsend, ← hnil]
      exact (hsafe hlogprobs rfl).ends hlogprobs h.awaits hdelta hsend'
    · exact absurd hnil (tokensToSend_ne_nil hdelta h.awaits hnew hlen hsend)

end

theorem DeltaInv.other (inv : DeltaInv cfg n g s) (hj : j ≠ i) (gi : Generation σ L)
    (positions : List L) (hsent : ∀ k, sent { s with
      sampleLogprobs := update s.sampleLogprobs i positions } k = s.sent k) :
    ChildInv cfg n (update g i gi)
      { s with sampleLogprobs := update s.sampleLogprobs i positions } j :=
  (inv.child j).congr (update_of_ne hj _ _) rfl (update_of_ne hj _ _) (hsent j)

theorem DeltaInv.sent_update (inv : DeltaInv cfg n g s) (hrunning : (s.requestStates i).isSome)
    (positions : List L) (k : Nat) :
    sent { s with sampleLogprobs := update s.sampleLogprobs i positions } k = s.sent k := by
  refine sent_congr ?_ ?_ (fun o ho c hc href => ?_) k
  · rfl
  · rfl
  have hnone := (inv.pending.refs o ho c hc).2 href
  refine update_of_ne (fun hindex => ?_) _ _
  rw [← hindex, hnone] at hrunning
  cases hrunning

theorem DeltaInv.emitting (inv : DeltaInv cfg n g s) (hst : s.requestStates i = some st)
    (tokens : List (TokenId × L)) (finishReason finishReason' : Option FinishReason)
    {result : Option Text × Detokenizer σ} (hresult : st.detokenizer.update cfg (tokens.map fst)
      (decide (finishReason = some .stop)) = result)
    (hreason : finishReason'.isSome = (result.1.isSome || finishReason.isSome)) :
    Emitting cfg n (update g i ((g i).deliver cfg tokens finishReason)) { s with
        sampleLogprobs := update s.sampleLogprobs i
          (s.sampleLogprobs i ++ if cfg.logprobs then tokens.map snd else []) }
      i { st with detokenizer := result.2 } (tokens.map fst) finishReason' := by
  have hrunning : (s.requestStates i).isSome := by rw [hst]; rfl
  have hsent := inv.sent_update hrunning
    (s.sampleLogprobs i ++ if cfg.logprobs then tokens.map snd else [])
  obtain ⟨hlt, hfinished, hsame, hkeeps⟩ := (inv.child i).running st hst
  have hupdate := st.detokenizer.update_setOffset cfg 0 (tokens.map fst)
    (decide (finishReason = some .stop))
  rw [hsame, hresult] at hupdate
  have hdeliver : (g i).deliver cfg tokens finishReason =
      { detokenizer := result.2.setOffset 0
        positions := (g i).positions ++ if cfg.logprobs then tokens.map snd else []
        finished := result.1.isSome || finishReason.isSome } := by
    simp only [Generation.deliver, hfinished, Bool.false_eq_true, if_false, hupdate]
  refine ⟨hlt, hrunning, fun j hj => inv.other hj _ _ hsent, ?_, ?_, ?_, ?_, ?_, inv.children⟩
  · rw [hsent]
    simp only [update_self]
    refine hkeeps.update tokens _ hresult fun hfin => ?_
    rw [hreason, Bool.or_eq_false_iff] at hfin
    exact not_isSome_iff_eq_none.mp (by rw [hfin.1]; exact Bool.noConfusion)
  · rw [update_self, hdeliver]
  · rw [update_self, hdeliver, hreason]
  · rw [hdeliver]
    simp only [update_self, (inv.child i).positions]
  · exact ⟨inv.pending.nodup, inv.pending.refs⟩

theorem update_nil (d : Detokenizer σ) (stopTerminated : Bool) :
    d.update cfg [] stopTerminated = (none, d) := by
  cases d with
  | plain tokenIds => simp [Detokenizer.update]
  | base d => simp [Detokenizer.update, DetokState.update]

theorem update_fst (d : Detokenizer σ) (tokens : List (TokenId × L)) (stopTerminated : Bool)
    (hready : d.Ready cfg) (hheld : d.offset ≤ d.text.length - d.heldBack cfg) :
    ((d.update cfg (tokens.map fst) stopTerminated).2.outputTokenIds cfg).length =
      (d.outputTokenIds cfg).length + (tokens.map fst).length := by
  rw [(Detokenizer.update_updated hready hheld (tokens.map fst) stopTerminated).tokenIds,
    length_append]

def withPositions (cfg : StreamConfig σ) (s : Frontend σ L) (i : Nat)
    (tokens : List (TokenId × L)) : Frontend σ L :=
  { s with
    sampleLogprobs := update s.sampleLogprobs i
      (s.sampleLogprobs i ++ if cfg.logprobs then tokens.map snd else []) }

theorem processOutput_eq (hst : s.requestStates i = some st) {tokens : List (TokenId × L)}
    (stopReason : Option StopReason) {stopString : Option Text} {detokenizer : Detokenizer σ}
    (hresult : st.detokenizer.update cfg (tokens.map fst)
      (decide (finishReason = some .stop)) = (stopString, detokenizer)) :
    s.processOutput cfg i tokens finishReason stopReason =
      match stopString with
      | some stopString =>
        (s.withPositions cfg i tokens).emit cfg i { st with detokenizer } (tokens.map fst)
          (some .stop) (some (.string stopString))
      | none =>
        (s.withPositions cfg i tokens).emit cfg i { st with detokenizer } (tokens.map fst)
          finishReason stopReason := by
  simp only [processOutput, hst, hresult]
  cases stopString <;> rfl

section
variable (hdelta : cfg.outputKind = .delta) (inv : DeltaInv cfg n g s)
include hdelta inv

theorem processOutput_delta (i : Nat)
    (tokens : List (TokenId × L)) (finishReason : Option FinishReason)
    (stopReason : Option StopReason)
    (hsafe : Safe cfg s (.output i tokens finishReason stopReason)) :
    ∃ s', s.processOutput cfg i tokens finishReason stopReason = .ok s' ∧
      DeltaInv cfg n (update g i ((g i).deliver cfg tokens finishReason)) s' := by
  cases hst : s.requestStates i with
  | none =>
    have hdeliver : (g i).deliver cfg tokens finishReason = g i := by
      rw [Generation.deliver, if_pos ((inv.child i).ended hst).1]
    rw [hdeliver, update_eq_self]
    exact ⟨s, by rw [processOutput, hst], inv⟩
  | some st =>
    obtain ⟨-, -, -, hkeeps⟩ := (inv.child i).running st hst
    have hlength := hkeeps.sent_length_le
    have hcount := update_fst st.detokenizer tokens (decide (finishReason = some .stop))
      hkeeps.ready (hkeeps.held rfl)
    generalize hresult : st.detokenizer.update cfg (tokens.map fst)
      (decide (finishReason = some .stop)) = result at hcount
    have hrunning : (s.requestStates i).isSome := by rw [hst]; rfl
    have hsent := inv.sent_update hrunning
      (s.sampleLogprobs i ++ if cfg.logprobs then tokens.map snd else [])
    -- a step without tokens leaves the detokenizer as it is
    have hsilent : cfg.logprobs = true → tokens.map fst = [] →
        result.1 = none ∧ SilentOk cfg { st with detokenizer := result.2 } finishReason := by
      intro hlogprobs hnil
      have htokens : tokens = [] := map_eq_nil_iff.mp hnil
      rw [hnil, update_nil] at hresult
      rw [← hresult]
      exact ⟨rfl, hsafe hlogprobs htokens st hst⟩
    obtain ⟨stopString, detokenizer⟩ := result
    rw [processOutput_eq hst stopReason hresult]
    cases stopString with
    | none =>
      have emitting := inv.emitting hst tokens finishReason finishReason hresult
        (Bool.false_or _).symm
      refine emitting.emit_ok hdelta stopReason ?_ fun hl hnil => (hsilent hl hnil).2
      rw [hsent, hcount]
      omega
    | some stopString =>
      have emitting := inv.emitting hst tokens finishReason (some .stop) hresult
        (Bool.true_or _).symm
      refine emitting.emit_ok hdelta _ ?_ fun hl hnil => (nomatch (hsilent hl hnil).1)
      rw [hsent, hcount]
      omega

theorem abortRequest_delta (i : Nat)
    (hsafe : Safe cfg s (.abort i)) :
    ∃ s', s.abortRequest cfg i = .ok s' ∧
      DeltaInv cfg n (update g i { g i with finished := true }) s' := by
  unfold abortRequest
  cases hst : s.requestStates i with
  | none =>
    have hfinished := ((inv.child i).ended hst).1
    have hsame : { g i with finished := true } = g i := by rw [← hfinished]
    rw [hsame, update_eq_self]
    exact ⟨s, rfl, inv⟩
  | some st =>
    obtain ⟨hlt, -, hsame, hkeeps⟩ := (inv.child i).running st hst
    have hrunning : (s.requestStates i).isSome := by rw [hst]; rfl
    have emitting : Emitting cfg n (update g i { g i with finished := true }) s i st []
        (some .abort) := by
      refine ⟨hlt, hrunning, fun j hj => ?_, ?_, ?_, ?_, ?_, inv.pending, inv.children⟩
      · have hother := inv.other hj { g i with finished := true } (s.sampleLogprobs i)
          (inv.sent_update hrunning _)
        rwa [update_eq_self] at hother
      · exact ⟨hkeeps.ready, hkeeps.within, fun h => (by cases h), hkeeps.text, hkeeps.tokens,
          hkeeps.length, hkeeps.positions⟩
      · rw [update_self]
        exact hsame
      · rw [update_self]
        rfl
      · rw [update_self]
        exact (inv.child i).positions
    refine emitting.emit_ok hdelta none ?_ fun hl _ => hsafe hl st hst
    exact hkeeps.sent_length_le

theorem step_delta (op : Op L)
    (hsafe : Safe cfg s op) :
    ∃ s', s.step cfg op = .ok s' ∧ DeltaInv cfg n (Generation.next cfg g op) s' := by
  cases op with
  | output i tokens finishReason stopReason =>
    exact processOutput_delta hdelta inv i tokens finishReason stopReason hsafe
  | abort i => exact abortRequest_delta hdelta inv i hsafe
  | get =>
    have hget : s.get.requestStates = s.requestStates ∧
        s.get.sampleLogprobs = s.sampleLogprobs ∧ s.get.parent = s.parent ∧
        s.get.output = none := by
      unfold get
      cases houtput : s.output with
      | none => exact ⟨rfl, rfl, rfl, houtput⟩
      | some o => exact ⟨rfl, rfl, rfl, rfl⟩
    obtain ⟨hstates, hpositions, hparent, houtput⟩ := hget
    refine ⟨s.get, rfl, fun i => ?_, ⟨fun o ho => ?_, fun o ho => ?_⟩, fun parent hp i st hst => ?_⟩
    · exact (inv.child i).congr rfl (congrFun hstates i) (congrFun hpositions i) (sent_get ..)
    · rw [houtput] at ho
      cases ho
    · rw [houtput] at ho
      cases ho
    · rw [hparent] at hp
      rw [hstates] at hst
      exact inv.children parent hp i st hst

end

/-! ### Final-only mode -/

section
variable (cfg : StreamConfig σ)

structure FinalCompletion (g : Nat → Generation σ L) (i : Nat)
    (c : CompletionOutput (LogprobsRef L)) : Prop where
  index : c.index = i
  text : c.text = (g i).detokenizer.text
  tokenIds : c.tokenIds = (g i).detokenizer.outputTokenIds cfg
  logprobs : c.logprobs = if cfg.logprobs then some .ofRequest else none

/-- The output of requests that all ended: one completion for each, in their order, with all of
its text, tokens and logprobs. -/
structure FinalOutput (n : Nat) (g : Nat → Generation σ L)
    (out : RequestOutput (List L)) : Prop where
  length : out.outputs.length = n
  completions : ∀ i < n, ∃ c, out.outputs[i]? = some c ∧ c.index = i ∧
    c.sent = ⟨(g i).detokenizer.text, (g i).detokenizer.outputTokenIds cfg, (g i).positions⟩

/-- The parent knows which children run and has the completions of the others. -/
structure Gathers (n : Nat) (g : Nat → Generation σ L) (s : Frontend σ L)
    (parent : ParentRequest L) : Prop where
  nodup : parent.childRequests.Nodup
  running : ∀ i, i ∈ parent.childRequests ↔ (s.requestStates i).isSome
  length : parent.outputAggregator.length = n
  ended : ∀ i < n, s.requestStates i = none →
    ∃ c, parent.outputAggregator[i]? = some (some c) ∧ FinalCompletion cfg g i c

/-- What holds of the whole system also while a request takes a step. -/
structure FinalKept (n : Nat) (g : Nat → Generation σ L) (s : Frontend σ L) : Prop where
  positions : ∀ i, s.sampleLogprobs i = (g i).positions
  none_kept : cfg.logprobs = false → ∀ i, (g i).positions = []
  single : s.parent = none → n = 1
  gathers : ∀ parent, s.parent = some parent → Gathers cfg n g s parent

structure FinalInv (n : Nat) (g : Nat → Generation σ L) (s : Frontend σ L) : Prop
    extends FinalKept cfg n g s where
  running : ∀ i st, s.requestStates i = some st →
    i < n ∧ (g i).finished = false ∧ st.detokenizer = (g i).detokenizer
  ended : ∀ i, s.requestStates i = none → (g i).finished = true
  waiting : ∀ i, (s.requestStates i).isSome → s.output = none ∧ s.received = []
  done : (∀ i, s.requestStates i = none) →
    (∃ o, s.output = some o ∧ s.received = [] ∧ FinalOutput cfg n g (s.read o)) ∨
      (s.output = none ∧ ∃ out, s.received = [out] ∧ FinalOutput cfg n g out)

end

theorem newCompletionOutput_final (hfinal : cfg.outputKind = .finalOnly)
    (hst : st.detokenizer = (g i).detokenizer) (tokenIds : List TokenId)
    (hfinished : finishReason.isSome = true) (stopReason : Option StopReason) (positions : List L) :
    FinalCompletion cfg g i
      (newCompletionOutput cfg positions i st tokenIds finishReason stopReason).1 := by
  have hkind : decide (cfg.outputKind = .delta) = false := by rw [hfinal]; rfl
  refine ⟨rfl, ?_, ?_, ?_⟩
  · simp only [newCompletionOutput, hkind, hfinished, hst]
    cases (g i).detokenizer with
    | plain tokenIds => rfl
    | base d =>
      simp only [Detokenizer.getNextOutputText, DetokState.getNextOutputText, if_true,
        Nat.sub_zero, take_length]
      rfl
  · simp only [newCompletionOutput, hkind, hfinished, hst, Bool.false_eq_true, if_false]
    cases (g i).detokenizer with
    | plain tokenIds => rfl
    | base d =>
      simp only [Detokenizer.getNextOutputText, DetokState.getNextOutputText, if_true]
  · simp only [newCompletionOutput, hkind, Bool.false_eq_true, false_and, if_false]
    cases cfg.logprobs <;> rfl

theorem tokensToSend_final (hfinal : cfg.outputKind = .finalOnly) (st : RequestState σ)
    (newTokenIds : List TokenId) : tokensToSend cfg st newTokenIds true = some (newTokenIds, st) := by
  unfold tokensToSend
  split
  · simp [hfinal]
  · rfl

theorem FinalCompletion.read (h : FinalCompletion cfg g i c)
    (hpositions : s.sampleLogprobs i = (g i).positions)
    (hlogprobs : cfg.logprobs = false → (g i).positions = []) :
    (s.readCompletion c).index = i ∧ (s.readCompletion c).sent =
      ⟨(g i).detokenizer.text, (g i).detokenizer.outputTokenIds cfg, (g i).positions⟩ := by
  refine ⟨h.index, ?_⟩
  rw [sent_readCompletion]
  refine Sent.ext h.text h.tokenIds ?_
  simp only [CompletionOutput.chunk, h.logprobs, h.index, hpositions]
  cases hl : cfg.logprobs with
  | false => exact (hlogprobs hl).symm
  | true => rfl

theorem reduceOption_map_some {α : Type} (xs : List α) : (xs.map some).reduceOption = xs := by
  rw [reduceOption, filterMap_map]
  exact filterMap_some

theorem exists_of_gathered {entries : List (Option (CompletionOutput (LogprobsRef L)))}
    (hlength : entries.length = n)
    (h : ∀ i < n, ∃ c, entries[i]? = some (some c) ∧ FinalCompletion cfg g i c) :
    entries.reduceOption.length = n ∧
      ∀ i < n, ∃ c, entries.reduceOption[i]? = some c ∧ FinalCompletion cfg g i c := by
  have hall : ∃ cs : List (CompletionOutput (LogprobsRef L)), entries = cs.map some := by
    have hmem : ∀ e ∈ entries, ∃ c, some c = e := by
      intro e he
      obtain ⟨i, hi⟩ := mem_iff_getElem?.mp he
      have hlt := (List.getElem?_eq_some_iff.mp hi).1
      obtain ⟨c, hc, -⟩ := h i (by omega)
      rw [hi] at hc
      exact ⟨c, (some.inj hc).symm⟩
    clear h hlength
    induction entries with
    | nil => exact ⟨[], rfl⟩
    | cons e entries ih =>
      obtain ⟨c, rfl⟩ := hmem e mem_cons_self
      obtain ⟨cs, rfl⟩ := ih fun e he => hmem e (mem_cons_of_mem _ he)
      exact ⟨c :: cs, rfl⟩
  obtain ⟨cs, rfl⟩ := hall
  rw [length_map] at hlength
  rw [reduceOption_map_some]
  refine ⟨hlength, fun i hi => ?_⟩
  obtain ⟨c, hc, hfinal⟩ := h i hi
  rw [getElem?_map] at hc
  obtain ⟨c', hc', heq⟩ := map_eq_some_iff.mp hc
  exact ⟨c', hc', (some.inj heq) ▸ hfinal⟩

structure FinalEmitting (cfg : StreamConfig σ) (n : Nat) (g : Nat → Generation σ L)
    (s : Frontend σ L) (i : Nat) (st : RequestState σ) (finishReason : Option FinishReason) : Prop
    extends FinalKept cfg n g s where
  lt : i < n
  here : (s.requestStates i).isSome
  same : st.detokenizer = (g i).detokenizer
  finished : (g i).finished = finishReason.isSome
  running : ∀ j st, j ≠ i → s.requestStates j = some st →
    j < n ∧ (g j).finished = false ∧ st.detokenizer = (g j).detokenizer
  ended : ∀ j, j ≠ i → s.requestStates j = none → (g j).finished = true
  empty : s.output = none ∧ s.received = []

section
variable (h : FinalEmitting cfg n g s i st finishReason)
include h

theorem FinalEmitting.running_after
    (hst' : finishReason = none → st'.detokenizer = (g i).detokenizer)
    (parent : Option (ParentRequest L)) :
    ∀ j stj, (s.settle i st' parent finishReason).requestStates j = some stj →
      j < n ∧ (g j).finished = false ∧ stj.detokenizer = (g j).detokenizer := by
  intro j stj hj
  rcases settle_some hj with ⟨rfl, rfl, rfl⟩ | ⟨hji, hj⟩
  · exact ⟨h.lt, h.finished, hst' rfl⟩
  · exact h.running j stj hji hj

theorem FinalEmitting.ended_after (st' : RequestState σ) (parent : Option (ParentRequest L)) :
    ∀ j, (s.settle i st' parent finishReason).requestStates j = none → (g j).finished = true := by
  intro j hj
  rcases settle_none hj with ⟨rfl, hfin⟩ | ⟨hji, hj⟩
  · exact h.finished.trans hfin
  · exact h.ended j hji hj

/-- The last request to end, or the only one, makes the output. -/
theorem FinalEmitting.over {parent : Option (ParentRequest L)}
    (hnone : ∀ j, (s.settle i st₂ parent finishReason).requestStates j = none)
    (hsingle : parent = none → n = 1) (hgathers : ∀ p, parent = some p →
      Gathers cfg n g (s.settle i st₂ parent finishReason) p)
    {outputs : List (CompletionOutput (LogprobsRef L))} (hlength : outputs.length = n)
    (hcompletions : ∀ j < n, ∃ c, outputs[j]? = some c ∧ FinalCompletion cfg g j c)
    {finished : Bool} (hmake : s.makeRequestOutput cfg i st newTokenIds finishReason stopReason =
      (some ⟨outputs, finished⟩, parent, st₂)) :
    ∃ s', s.emit cfg i st newTokenIds finishReason stopReason = .ok s' ∧ FinalInv cfg n g s' := by
  have hput : (s.settle i st₂ parent finishReason).put cfg ⟨outputs, finished⟩ =
      .ok { s.settle i st₂ parent finishReason with output := some ⟨outputs, finished⟩ } := by
    have hempty : (s.settle i st₂ parent finishReason).output = none := h.empty.1
    rw [put, hempty]
  refine ⟨_, (emit_some hmake).trans hput, ⟨h.positions, h.none_kept, hsingle,
    fun p hp => { hgathers p hp with }⟩, fun j stj hj => ?_, h.ended_after st₂ parent,
    fun j hj => ?_, fun _ => .inl ⟨_, rfl, h.empty.2, by simp [read, hlength], fun j hj => ?_⟩⟩
  · rw [hnone j] at hj
    cases hj
  · rw [hnone j] at hj
    cases hj
  · obtain ⟨c, hc, hfinal⟩ := hcompletions j hj
    obtain ⟨hindex, hsent⟩ := hfinal.read (h.positions j) (fun hl => h.none_kept hl j)
    refine ⟨s.readCompletion c, ?_, hindex, hsent⟩
    show (outputs.map s.readCompletion)[j]? = _
    rw [getElem?_map, hc]
    rfl

end

theorem FinalEmitting.silent (hfinal : cfg.outputKind = .finalOnly)
    (h : FinalEmitting cfg n g s i st none) (newTokenIds : List TokenId)
    (stopReason : Option StopReason) :
    ∃ s', s.emit cfg i st newTokenIds none stopReason = .ok s' ∧ FinalInv cfg n g s' := by
  have hmake : s.makeRequestOutput cfg i st newTokenIds none stopReason = (none, s.parent, st) := by
    rw [makeRequestOutput, if_pos ⟨rfl, hfinal⟩]
  have hi : (s.settle i st s.parent none).requestStates i = some st := update_self ..
  refine ⟨_, emit_none hmake, ⟨h.positions, h.none_kept, h.single, fun parent hparent => ?_⟩,
    h.running_after (fun _ => h.same) _, h.ended_after st _, fun _ _ => h.empty, fun hall => ?_⟩
  · have gathers := h.gathers parent hparent
    refine ⟨gathers.nodup, fun j => ?_, gathers.length, fun j hj hnone => ?_⟩
    · rw [gathers.running]
      by_cases hji : j = i
      · subst hji
        rw [hi]
        exact ⟨fun _ => rfl, fun _ => h.here⟩
      · simp only [settle, update_of_ne hji]
    · rcases settle_none hnone with ⟨-, hfin⟩ | ⟨-, hnone⟩
      · cases hfin
      · exact gathers.ended j hj hnone
  · rw [hall i] at hi
    cases hi

theorem Gathers.ends (gathers : Gathers cfg n g s parent) (hi : i < n)
    (hc : FinalCompletion cfg g i c)
    (hfinished : finishReason.isSome = true) (st' : RequestState σ) :
    Gathers cfg n g
      (s.settle i st'
        (some ⟨parent.childRequests.erase i, parent.outputAggregator.set i (some c)⟩) finishReason)
      ⟨parent.childRequests.erase i, parent.outputAggregator.set i (some c)⟩ := by
  have hlt : i < parent.outputAggregator.length := by
    rw [gathers.length]
    exact hi
  refine ⟨gathers.nodup.erase i, fun j => ?_, ?_, fun j hj hnone => ?_⟩
  · rw [gathers.nodup.mem_erase_iff, gathers.running]
    by_cases hji : j = i
    · subst hji
      simp [settle, hfinished]
    · simp only [settle, update_of_ne hji]
      exact ⟨And.right, fun h => ⟨hji, h⟩⟩
  · rw [length_set]
    exact gathers.length
  · rcases settle_none hnone with ⟨rfl, -⟩ | ⟨hji, hnone⟩
    · exact ⟨c, by rw [getElem?_set_self hlt], hc⟩
    obtain ⟨c', hc', hfinal⟩ := gathers.ended j hj hnone
    refine ⟨c', ?_, hfinal⟩
    rw [getElem?_set_ne (fun h => hji h.symm)]
    exact hc'

section
variable (hfinal : cfg.outputKind = .finalOnly) (h : FinalEmitting cfg n g s i st finishReason)
include hfinal h

theorem FinalEmitting.ends (hfinished : finishReason.isSome = true) (newTokenIds : List TokenId)
    (stopReason : Option StopReason) :
    ∃ s', s.emit cfg i st newTokenIds finishReason stopReason = .ok s' ∧ FinalInv cfg n g s' := by
  have hcompletion := newCompletionOutput_final hfinal h.same newTokenIds hfinished stopReason
    (s.sampleLogprobs i)
  have hreason := (newCompletionOutput_index cfg (s.sampleLogprobs i) i st newTokenIds
    finishReason stopReason).2
  generalize hnew : newCompletionOutput cfg (s.sampleLogprobs i) i st newTokenIds finishReason
    stopReason = result at hcompletion hreason
  obtain ⟨c, st₂⟩ := result
  simp only at hcompletion hreason
  have hsome : ¬ (finishReason = none ∧ cfg.outputKind = .finalOnly) := by
    rintro ⟨rfl, -⟩
    cases hfinished
  cases hparent : s.parent with
  | none =>
    obtain rfl := h.single hparent
    obtain rfl : i = 0 := Nat.lt_one_iff.mp h.lt
    have hmake : s.makeRequestOutput cfg 0 st newTokenIds finishReason stopReason =
        (some ⟨[c], true⟩, none, st₂) := by
      rw [makeRequestOutput, if_neg hsome, hfinished, tokensToSend_final hfinal]
      simp only [hnew, hparent]
    refine h.over (fun j => ?_) (fun _ => rfl) (fun _ h => by cases h) rfl (fun j hj => ?_) hmake
    · by_cases hj : j = 0
      · subst hj
        simp only [settle, update_self, hfinished, if_true]
      simp only [settle, update_of_ne hj]
      cases hstj : s.requestStates j with
      | none => rfl
      | some stj => exact absurd (Nat.lt_one_iff.mp (h.running j stj hj hstj).1) hj
    · obtain rfl : j = 0 := Nat.lt_one_iff.mp hj
      exact ⟨c, rfl, hcompletion⟩
  | some parent =>
    set children := parent.childRequests.erase i with hchildren
    set aggregator := parent.outputAggregator.set i (some c) with haggregator
    have gathers := (h.gathers parent hparent).ends h.lt hcompletion hfinished st₂
    have hmake : s.makeRequestOutput cfg i st newTokenIds finishReason stopReason =
        (if (if children = [] then aggregator.reduceOption else []) = [] then none
          else some ⟨if children = [] then aggregator.reduceOption else [], children.isEmpty⟩,
          some ⟨children, aggregator⟩, st₂) := by
      rw [makeRequestOutput, if_neg hsome, hfinished, tokensToSend_final hfinal]
      simp only [hnew, hparent, ParentRequest.getOutputs, hreason, hfinished, hcompletion.index,
        hfinal, ne_eq, not_true_eq_false, if_false, if_true, hchildren, haggregator]
    by_cases hlast : children = []
    · have hnone : ∀ j, (s.settle i st₂ (some ⟨children, aggregator⟩) finishReason).requestStates j =
          none := by
        intro j
        rw [← not_isSome_iff_eq_none, ← gathers.running]
        show j ∉ children
        rw [hlast]
        exact not_mem_nil
      obtain ⟨hlength, hcompletions⟩ := exists_of_gathered gathers.length
        fun j hj => gathers.ended j hj (hnone j)
      have hne : aggregator.reduceOption ≠ [] := by
        intro hnil
        rw [hnil, length_nil] at hlength
        have hlt := h.lt
        omega
      rw [if_pos hlast, if_neg hne] at hmake
      refine h.over hnone nofun ?_ hlength hcompletions hmake
      rintro parent' ⟨⟩
      exact gathers
    · rw [if_neg hlast] at hmake
      refine ⟨_, emit_none hmake, ⟨h.positions, h.none_kept, nofun, ?_⟩,
        h.running_after (fun hnone => ?_) _, h.ended_after st₂ _, fun _ _ => h.empty, fun hall => ?_⟩
      · rintro parent' ⟨⟩
        exact gathers
      · rw [hnone] at hfinished
        cases hfinished
      · obtain ⟨j, hj⟩ := exists_mem_of_ne_nil _ hlast
        have hsome := (gathers.running j).mp hj
        rw [hall j] at hsome
        cases hsome

theorem FinalEmitting.emit_ok (newTokenIds : List TokenId)
    (stopReason : Option StopReason) :
    ∃ s', s.emit cfg i st newTokenIds finishReason stopReason = .ok s' ∧ FinalInv cfg n g s' := by
  cases finishReason with
  | none => exact h.silent hfinal newTokenIds stopReason
  | some reason => exact h.ends hfinal rfl newTokenIds stopReason

end

theorem Gathers.update (h : ∀ parent, s.parent = some parent → Gathers cfg n g s parent)
    (hi : (s.requestStates i).isSome) (gi : Generation σ L) (positions : Nat → List L) :
    ∀ parent, s.parent = some parent → Gathers cfg n (update g i gi)
      { s with sampleLogprobs := positions } parent := by
  intro parent hparent
  have gathers := h parent hparent
  refine ⟨gathers.nodup, gathers.running, gathers.length, fun j hj hnone => ?_⟩
  obtain ⟨c, hc, hfinal⟩ := gathers.ended j hj hnone
  have hji : j ≠ i := by
    rintro rfl
    rw [show s.requestStates j = none from hnone] at hi
    cases hi
  have hg : Function.update g i gi j = g j := update_of_ne hji _ _
  refine ⟨c, hc, hfinal.index, ?_, ?_, hfinal.logprobs⟩
  · rw [hg]
    exact hfinal.text
  · rw [hg]
    exact hfinal.tokenIds

theorem FinalInv.emitting (inv : FinalInv cfg n g s) (hst : s.requestStates i = some st)
    (st' : RequestState σ) (gi : Generation σ L) (finishReason : Option FinishReason)
    (positions : List L) (hsame : st'.detokenizer = gi.detokenizer)
    (hfinished : gi.finished = finishReason.isSome) (hpositions : gi.positions = positions)
    (hkept : cfg.logprobs = false → positions = []) :
    FinalEmitting cfg n (update g i gi)
      { s with sampleLogprobs := update s.sampleLogprobs i positions } i st'
      finishReason := by
  have hrunning : (s.requestStates i).isSome := by rw [hst]; rfl
  have hg : ∀ j, j ≠ i → update g i gi j = g j := fun j hj => update_of_ne hj _ _
  refine ⟨⟨fun j => ?_, fun hl j => ?_, inv.single, Gathers.update inv.gathers hrunning gi _⟩,
    (inv.running i st hst).1, hrunning, ?_, ?_, fun j stj hj hstj => ?_, fun j hj hnone => ?_,
    inv.waiting i hrunning⟩
  · by_cases hj : j = i
    · subst hj
      simp only [update_self]
      exact hpositions.symm
    · simp only [update_of_ne hj]
      exact inv.positions j
  · by_cases hj : j = i
    · subst hj
      rw [update_self, hpositions]
      exact hkept hl
    · rw [hg j hj]
      exact inv.none_kept hl j
  · rw [update_self]
    exact hsame
  · rw [update_self]
    exact hfinished
  · rw [hg j hj]
    exact inv.running j stj hstj
  · rw [hg j hj]
    exact inv.ended j hnone

variable (hfinal : cfg.outputKind = .finalOnly) (inv : FinalInv cfg n g s)
include hfinal inv

theorem processOutput_final
    (i : Nat) (tokens : List (TokenId × L)) (finishReason : Option FinishReason)
    (stopReason : Option StopReason) :
    ∃ s', s.processOutput cfg i tokens finishReason stopReason = .ok s' ∧
      FinalInv cfg n (update g i ((g i).deliver cfg tokens finishReason)) s' := by
  cases hst : s.requestStates i with
  | none =>
    have hdeliver : (g i).deliver cfg tokens finishReason = g i := by
      rw [Generation.deliver, if_pos (inv.ended i hst)]
    rw [hdeliver, update_eq_self]
    exact ⟨s, by rw [processOutput, hst], inv⟩
  | some st =>
    obtain ⟨-, hfinished, hsame⟩ := inv.running i st hst
    generalize hresult : st.detokenizer.update cfg (tokens.map fst)
      (decide (finishReason = some .stop)) = result
    obtain ⟨stopString, detokenizer⟩ := result
    have hdeliver : (g i).deliver cfg tokens finishReason =
        { detokenizer
          positions := (g i).positions ++ if cfg.logprobs then tokens.map snd else []
          finished := stopString.isSome || finishReason.isSome } := by
      rw [hsame] at hresult
      simp only [Generation.deliver, hfinished, Bool.false_eq_true, if_false, hresult]
    have hkept : cfg.logprobs = false →
        s.sampleLogprobs i ++ (if cfg.logprobs then tokens.map snd else []) = [] := by
      intro hl
      rw [inv.positions, inv.none_kept hl i, hl]
      rfl
    have hpositions : ((g i).deliver cfg tokens finishReason).positions =
        s.sampleLogprobs i ++ if cfg.logprobs then tokens.map snd else [] := by
      rw [hdeliver, inv.positions]
    rw [processOutput_eq hst stopReason hresult]
    cases stopString with
    | none =>
      have emitting := inv.emitting hst { st with detokenizer } _ finishReason _
        (by rw [hdeliver]) (by rw [hdeliver]; rfl) hpositions hkept
      exact emitting.emit_ok hfinal _ _
    | some stopString =>
      have emitting := inv.emitting hst { st with detokenizer } _ (some .stop) _
        (by rw [hdeliver]) (by rw [hdeliver]; rfl) hpositions hkept
      exact emitting.emit_ok hfinal _ _

theorem abortRequest_final (i : Nat) :
    ∃ s', s.abortRequest cfg i = .ok s' ∧
      FinalInv cfg n (update g i { g i with finished := true }) s' := by
  unfold abortRequest
  cases hst : s.requestStates i with
  | none =>
    have hsame : { g i with finished := true } = g i := by rw [← inv.ended i hst]
    rw [hsame, update_eq_self]
    exact ⟨s, rfl, inv⟩
  | some st =>
    have emitting := inv.emitting hst st { g i with finished := true } (some .abort)
      (s.sampleLogprobs i) (inv.running i st hst).2.2 rfl (inv.positions i).symm
      (fun hl => by rw [inv.positions, inv.none_kept hl i])
    rw [update_eq_self] at emitting
    exact emitting.emit_ok hfinal _ _

theorem step_final (op : Op L) :
    ∃ s', s.step cfg op = .ok s' ∧ FinalInv cfg n (Generation.next cfg g op) s' := by
  cases op with
  | output i tokens finishReason stopReason =>
    exact processOutput_final hfinal inv i tokens finishReason stopReason
  | abort i => exact abortRequest_final hfinal inv i
  | get =>
    refine ⟨s.get, rfl, ?_⟩
    unfold get
    cases houtput : s.output with
    | none => exact inv
    | some o =>
      -- an output waits, so that all requests ended
      have hnone : ∀ i, s.requestStates i = none := by
        intro i
        rw [← not_isSome_iff_eq_none]
        intro hi
        rw [(inv.waiting i hi).1] at houtput
        cases houtput
      refine { inv with
        gathers := fun parent hparent => { inv.gathers parent hparent with }
        waiting := fun i hi => ?_
        done := fun _ => .inr ⟨rfl, s.read o, ?_⟩ }
      · rw [show s.requestStates i = none from hnone i] at hi
        cases hi
      · rcases inv.done hnone with ⟨o', ho', hreceived, hout⟩ | ⟨hempty, -⟩
        · rw [houtput] at ho'
          cases ho'
          exact ⟨by rw [hreceived]; rfl, hout⟩
        · rw [houtput] at hempty
          cases hempty

end Frontend
end Vllm.Output
