import Vllm.Sched.CountRuns
import Vllm.StructuredOutput.Advance

/-! The grammar sees the tokens behind the first end marker, as long as a marker that ends reasoning
is the last token of its step: of the tokens of a step only the last one is in the window that
`should_advance` looks at. -/
namespace Vllm.StructuredOutput
open List AdvanceOp Sched.SchedCore Request

open Sched

/-- The output tokens that belong to the answer; `ended` says that reasoning ended in the prompt. -/
def answerTokens (endTokenId : TokenId) (ended : Bool) (output : List TokenId) : List TokenId :=
  if ended then output else (output.dropWhile (· ≠ endTokenId)).tail

section
variable {endTokenId : TokenId} {ended : Bool} {output new : List TokenId}

theorem answerTokens_behind (h : endTokenId ∉ output) (new : List TokenId) :
    answerTokens endTokenId false (output ++ new) = answerTokens endTokenId false new := by
  have hall : output.dropWhile (· ≠ endTokenId) = [] :=
    dropWhile_eq_nil_iff.mpr fun t ht => decide_eq_true fun heq => h (heq ▸ ht)
  rw [answerTokens, dropWhile_append, hall]
  rfl

theorem answerTokens_of_not_mem (h : endTokenId ∉ output) :
    answerTokens endTokenId false output = [] := by
  rw [← append_nil output, answerTokens_behind h]
  rfl

/-- Everything after the end of reasoning is part of the answer. -/
theorem answerTokens_append (h : (ended || decide (endTokenId ∈ output)) = true) :
    answerTokens endTokenId ended (output ++ new) = answerTokens endTokenId ended output ++ new := by
  cases ended with
  | true => rfl
  | false =>
    have hmem : endTokenId ∈ output := by simpa using h
    have hne : output.dropWhile (· ≠ endTokenId) ≠ [] := by
      intro hnil
      simpa using dropWhile_eq_nil_iff.mp hnil endTokenId hmem
    obtain ⟨t, rest, hdrop⟩ := exists_cons_of_ne_nil hne
    have happend : (output ++ new).dropWhile (· ≠ endTokenId) = t :: rest ++ new := by
      rw [dropWhile_append, hdrop]
      rfl
    simp only [answerTokens, Bool.false_eq_true, if_false, happend, hdrop, tail_cons, cons_append]

end

variable (cfg : SchedConfig)

/-- Where the first new token stands according to the counters of a request. The synchronous
scheduler has counted the drafts as computed. -/
def firstPosition (request : Request) (drafts : List TokenId) : Int :=
  if cfg.asyncScheduling then request.numComputedTokens - request.numOutputPlaceholders + 1
  else if drafts = [] then request.numComputedTokens
  else request.numComputedTokens - drafts.length + 1 - cfg.numSampledTokensPerStep

/-- The counters fit the tokens: the window reaches the last new token, and it starts behind the
prompt unless there is no marker in the prompt. -/
structure InStep (endTokenId : TokenId) (prompt : List TokenId)
    (request : Request) (drafts generated : List TokenId) : Prop where
  sampled : cfg.numSampledTokensPerStep ≤ generated.length
  reaches : firstPosition cfg request drafts ≤ request.numTokens
  behind : endTokenId ∈ prompt → (prompt.length : Int) ≤ firstPosition cfg request drafts

instance (cfg : SchedConfig) (endTokenId : TokenId) (prompt : List TokenId) (request : Request)
    (drafts generated : List TokenId) :
    Decidable (InStep cfg endTokenId prompt request drafts generated) :=
  decidable_of_iff (cfg.numSampledTokensPerStep ≤ generated.length ∧
      firstPosition cfg request drafts ≤ request.numTokens ∧
      (endTokenId ∈ prompt → (prompt.length : Int) ≤ firstPosition cfg request drafts))
    ⟨fun ⟨a, b, c⟩ => ⟨a, b, c⟩, fun ⟨a, b, c⟩ => ⟨a, b, c⟩⟩

/-- The condition on an operation. While reasoning goes on, an output is in step with the counters,
and the marker is not among its tokens but the last. -/
def AdvanceOp.Safe {κ : Type} (c : AdvanceCore κ) (endTokenId : TokenId) (prompt : List TokenId)
    (a : Answering) : AdvanceOp → Prop
  | .updateDraftTokenIds _ => a.reasoningEnded ≠ none ∧ (a.reasoningEnded = some false →
      endTokenId ∈ prompt → prompt.length ≤ windowStart a.request)
  | .update drafts generated _ => a.request.isFinished = false → generated ≠ [] →
      a.reasoningEnded ≠ none ∧ (a.reasoningEnded = some false →
        InStep c.sched.cfg endTokenId prompt a.request drafts generated ∧
          endTokenId ∉ generated.dropLast)
  | _ => True

instance {κ : Type} (c : AdvanceCore κ) (endTokenId : TokenId) (prompt : List TokenId)
    (a : Answering) (op : AdvanceOp) : Decidable (op.Safe c endTokenId prompt a) := by
  cases op <;> unfold Safe <;> infer_instance

/-! ### The window -/

variable {κ : Type}

theorem appendTokens_kept (core : SchedCore κ) (ts : List TokenId) (q : Request) :
    (core.appendTokens ts q).2.1 <+: ts := by
  induction ts generalizing q with
  | nil => exact prefix_rfl
  | cons t ts ih =>
    unfold appendTokens
    dsimp only
    split
    · exact prefix_append [t] ts
    · exact (prefix_cons_inj t).mpr (ih _)

structure Taken (ts : List TokenId) (q q' : Request) (new : List TokenId) :
    Prop where
  kept : new <+: ts
  structured : q'.useStructuredOutput = q.useStructuredOutput
  ids : q'.promptTokenIds = q.promptTokenIds
  computed : q'.numComputedTokens = q.numComputedTokens
  output : q'.outputTokenIds = q.outputTokenIds ++ new
  all : q'.allTokenIds = q.allTokenIds ++ new
  sync : cfg.asyncScheduling = false → q'.numOutputPlaceholders = q.numOutputPlaceholders ∧
    q'.asyncTokensToDiscard = q.asyncTokensToDiscard
  async : cfg.asyncScheduling = true → new ≠ [] →
    q'.numOutputPlaceholders = q.numOutputPlaceholders - new.length ∧ 0 ≤ q'.numOutputPlaceholders

variable {new generated drafts tokens prompt : List TokenId} {q q' : Request} {endTokenId : TokenId}
  {start : Nat}

theorem takeTokens_taken {core : SchedCore κ} {ts : List TokenId}
    (h : takeTokens core q ts = .ok (q', new)) : Taken core.cfg ts q q' new := by
  have hkept := appendTokens_kept core ts q
  obtain ⟨⟨hashes, status, happended⟩, -⟩ := appendTokens_cases core ts q
  unfold takeTokens at h
  split at h
  · rename_i hdiscard
    cases h
    exact ⟨ nil_prefix, rfl, rfl, rfl, (append_nil _).symm, (append_nil _).symm,
      fun hsync => absurd (hdiscard.1.symm.trans hsync) nofun, fun _ hne => absurd rfl hne⟩
  · dsimp only at h
    rw [happended] at h
    split at h
    · rename_i hasync
      split at h
      · cases h
      rename_i hplaceholders
      cases h
      exact ⟨hkept, rfl, rfl, rfl, rfl, rfl, fun hsync => absurd (hasync.symm.trans hsync) nofun,
        fun _ _ => ⟨rfl, not_lt.mp hplaceholders⟩⟩
    · rename_i hsync
      cases h
      exact ⟨hkept, rfl, rfl, rfl, rfl, rfl, fun _ => ⟨rfl, rfl⟩, fun hasync => absurd hasync hsync⟩

theorem rejectDrafts_cases (drafts generated : List TokenId) (q : Request) :
    ∃ computed placeholders, rejectDrafts cfg drafts generated q =
        { q with numComputedTokens := computed, numOutputPlaceholders := placeholders } ∧
      (q.numOutputPlaceholders = 0 → placeholders = 0) := by
  unfold rejectDrafts
  split
  · exact ⟨_, _, rfl, fun hzero => by rw [if_neg (by omega)]; exact hzero⟩
  · exact ⟨_, _, rfl, id⟩

/-- The roll-back, for a step that was given tokens. -/
theorem rejectDrafts_counters (drafts : List TokenId) (q : Request)
    (hne : generated ≠ []) : ∃ rejected : Int,
    (rejectDrafts cfg drafts generated q).numComputedTokens =
        (if 0 < q.numComputedTokens then q.numComputedTokens - rejected else q.numComputedTokens) ∧
      (rejectDrafts cfg drafts generated q).numOutputPlaceholders =
        (if 0 < q.numOutputPlaceholders then q.numOutputPlaceholders - rejected
          else q.numOutputPlaceholders) ∧
      (drafts = [] → rejected = 0) ∧
      (drafts ≠ [] → q.asyncTokensToDiscard = 0 → rejected =
        drafts.length - (generated.length - cfg.numSampledTokensPerStep : Nat)) := by
  unfold rejectDrafts
  split
  · rename_i happlied
    exact ⟨_, rfl, rfl, fun h => absurd h happlied.1, fun _ _ => rfl⟩
  rename_i hnot
  refine ⟨0, ?_, ?_, fun _ => rfl, fun hdrafts hdiscard => ?_⟩
  · simp only [Int.sub_zero, ite_self]
  · simp only [Int.sub_zero, ite_self]
  · exact absurd ⟨hdrafts, .inl hne, hdiscard⟩ hnot

/-- An output in step with the counters: if all of its tokens are kept, the last one is in the
window; and the window starts behind the prompt. -/
theorem InStep.window {cfg : SchedConfig} (inStep : InStep cfg endTokenId prompt q drafts generated)
    (hidle : cfg.asyncScheduling = false → q.numOutputPlaceholders = 0 ∧ q.asyncTokensToDiscard = 0)
    (taken : Taken cfg generated (rejectDrafts cfg drafts generated q) q' new)
    (hne : new ≠ []) : (new = generated → windowStart q' < q'.numTokens) ∧
      (endTokenId ∈ prompt → prompt.length ≤ windowStart q') := by
  obtain ⟨hsampled, hreaches, hbehind⟩ := inStep
  have hpos := length_pos_iff.mpr hne
  have hle := taken.kept.length_le
  have hgenerated : generated ≠ [] := fun h => hne (prefix_nil.mp (h ▸ taken.kept))
  have htokens : q'.numTokens = q.numTokens + new.length := by
    obtain ⟨_, _, hreject, -⟩ := rejectDrafts_cases cfg drafts generated q
    rw [numTokens, taken.all, hreject, length_append, numTokens]
  obtain ⟨rejected, hcomputed, hplaceholders, hnone, hsome⟩ :=
    rejectDrafts_counters cfg drafts q hgenerated
  rw [← taken.computed] at hcomputed
  have hstart : windowStart q' < q.numTokens + generated.length ∧
      firstPosition cfg q drafts ≤ windowStart q' := by
    unfold windowStart
    unfold firstPosition at hreaches ⊢
    rw [htokens]
    cases hmode : cfg.asyncScheduling with
    | true =>
      obtain ⟨hafter, hnonneg⟩ := taken.async hmode hne
      rw [hplaceholders] at hafter
      simp only [hmode, if_true] at hreaches ⊢
      split at hcomputed <;> split at hafter <;> split <;> omega
    | false =>
      have hafter := (taken.sync hmode).1
      rw [hplaceholders, (hidle hmode).1] at hafter
      simp only [hmode, Bool.false_eq_true, if_false, lt_irrefl] at hreaches hafter ⊢
      by_cases hdrafts : drafts = []
      · have hzero := hnone hdrafts
        simp only [hdrafts, if_true] at hreaches ⊢
        split at hcomputed <;> split <;> omega
      · have hrejected := hsome hdrafts (hidle hmode).2
        have hsome := length_pos_iff.mpr hdrafts
        simp only [hdrafts, if_false] at hreaches ⊢
        split at hcomputed <;> split <;> omega
  refine ⟨fun h => ?_, fun h => ?_⟩
  · rw [htokens, h]
    exact hstart.1
  · have hfirst := hbehind h
    omega

theorem findReasoningEndIndex_last {p : MarkerReasoner} (hstart : start ≤ tokens.length)
    (h : p.endTokenId ∉ tokens.drop start) :
    findReasoningEndIndex p.toReasoner (tokens ++ [p.endTokenId]) start = tokens.length := by
  unfold findReasoningEndIndex
  have hfind : (range' start ((tokens ++ [p.endTokenId]).length - start)).find? (fun idx =>
      (tokens ++ [p.endTokenId])[idx]?.any fun token => p.isReasoningEndStreaming
        ((tokens ++ [p.endTokenId]).take (idx + 1)) [token]) = some tokens.length := by
    refine find?_range'_eq_some.mpr ⟨?_, ?_, fun j hj hlt => ?_⟩
    · simp [p.streaming]
    · rw [length_append, length_singleton, mem_range'_1]
      omega
    · have hne : tokens[j] ≠ p.endTokenId := fun heq => h (mem_drop_iff_getElem.mpr
        ⟨j - start, by omega, by simpa [Nat.add_sub_cancel' hj] using heq⟩)
      rw [getElem?_append_left hlt, getElem?_eq_getElem hlt]
      simp [p.streaming, hne.symm]
  dsimp only
  rw [hfind]

/-- The window shows no marker of the prompt. -/
theorem not_mem_window (hbehind : endTokenId ∈ prompt → prompt.length ≤ start)
    (h : endTokenId ∉ tokens) :
    endTokenId ∉ (prompt ++ tokens).drop start := by
  intro hmem
  rw [drop_append, mem_append] at hmem
  rcases hmem with hmem | hmem
  · rw [drop_eq_nil_of_le (hbehind (mem_of_mem_drop hmem))] at hmem
    cases hmem
  · exact h (mem_of_mem_drop hmem)

/-- A marker among the tokens that are kept is the last one of all. -/
theorem eq_concat_of_mem (hkept : new <+: generated) (hlast : endTokenId ∉ generated.dropLast)
    (hmem : endTokenId ∈ new) :
    new = generated ∧ new = new.dropLast ++ [endTokenId] ∧ endTokenId ∉ new.dropLast := by
  have hne : generated ≠ [] := ne_nil_of_mem (hkept.subset hmem)
  have hall : new = generated := by
    rw [← dropLast_append_getLast hne, prefix_concat_iff] at hkept
    rcases hkept with heq | hshort
    · rw [heq, dropLast_append_getLast hne]
    · exact absurd (hshort.subset hmem) hlast
  subst hall
  have hconcat := dropLast_append_getLast hne
  rw [← hconcat, mem_append, mem_singleton] at hmem
  refine ⟨rfl, ?_, hlast⟩
  rw [hmem.resolve_left hlast, hconcat]

namespace AdvanceCore

variable {κ : Type} {c : AdvanceCore κ} {p : MarkerReasoner} {prompt : List TokenId} {ended : Bool}
  {a a' : Answering}

structure Tracks (c : AdvanceCore κ) (prompt promptIds : List TokenId) (q : Request) : Prop where
  structured : q.useStructuredOutput = true
  ids : q.promptTokenIds = promptIds
  tokens : q.allTokenIds = prompt ++ q.outputTokenIds
  counters : c.sched.cfg.asyncScheduling = false →
    q.numOutputPlaceholders = 0 ∧ q.asyncTokensToDiscard = 0

/-- The invariant of a run: `ended` says whether reasoning had ended in the prompt. -/
structure Inv (c : AdvanceCore κ) (p : MarkerReasoner) (prompt promptIds : List TokenId)
    (ended : Bool) (a : Answering) : Prop extends Tracks c prompt promptIds a.request where
  fresh : a.reasoningEnded = none →
    a.request.outputTokenIds = [] ∧ ended = p.isReasoningEnd promptIds
  reasoning : ∀ b, a.reasoningEnded = some b →
    b = (ended || decide (p.endTokenId ∈ a.request.outputTokenIds))
  index : ∀ i, a.reasoningEndTokenIndex = some i → i < a.request.numTokens
  passed : a.passed = answerTokens p.endTokenId ended a.request.outputTokenIds

/-! ### One call of `should_advance` -/

theorem shouldAdvance_ended (hstructured : a.request.useStructuredOutput = true)
    (hreasoner : c.reasoner = some p.toReasoner) (hended : a.reasoningEnded = some true) :
    c.shouldAdvance a = (true, a) := by
  unfold shouldAdvance
  rw [if_neg (by rw [hstructured]; nofun), hreasoner]
  exact if_pos (.inr hended)

section
variable (hreasoner : c.reasoner = some p.toReasoner) (hoff : c.enableInReasoning = false)
  (hstructured : a.request.useStructuredOutput = true) (hgoing : a.reasoningEnded = some false)
include hreasoner hoff hstructured hgoing

/-- Without a marker in the window nothing changes. -/
theorem shouldAdvance_quiet
    (hwindow : p.endTokenId ∉ a.request.allTokenIds.drop (windowStart a.request)) :
    c.shouldAdvance a = (false, a) := by
  unfold shouldAdvance
  rw [if_neg (by rw [hstructured]; nofun), hreasoner]
  simp only [hoff, hgoing, p.streaming, hwindow, decide_false]
  rfl

/-- A marker in the window ends reasoning; the index is that of the first one. -/
theorem shouldAdvance_ends
    (hwindow : p.endTokenId ∈ a.request.allTokenIds.drop (windowStart a.request)) :
    c.shouldAdvance a = (false, { a with reasoningEnded := some true }) ∨
      c.shouldAdvance a = (true, { a with
        reasoningEnded := some true
        reasoningEndTokenIndex := some (findReasoningEndIndex p.toReasoner a.request.allTokenIds
          (windowStart a.request)) }) := by
  unfold shouldAdvance
  rw [if_neg (by rw [hstructured]; nofun), hreasoner]
  simp only [hoff, hgoing, p.streaming, hwindow, decide_true, if_true]
  by_cases hkey : c.speculative = true ∧ c.key = .structuralTag
  · exact .inr (by simp [hkey])
  · exact .inl (by simp [hkey])

end

variable {accepts : Bool}

theorem advanceGrammar_of_false (hne : new ≠ []) (h : c.shouldAdvance a = (false, a')) :
    c.advanceGrammar a new accepts = a' := by
  unfold advanceGrammar
  rw [if_neg hne, h]

/-! ### Steps -/

namespace Inv

variable {promptIds : List TokenId}

section
variable (inv : Inv c p prompt promptIds ended a)
include inv

theorem setRequest (tracks : Tracks c prompt promptIds q)
    (houtput : q.outputTokenIds = a.request.outputTokenIds) :
    Inv c p prompt promptIds ended { a with request := q } where
  toTracks := tracks
  fresh := by
    rw [houtput]
    exact inv.fresh
  reasoning := by
    rw [houtput]
    exact inv.reasoning
  index := by
    rw [numTokens, tracks.tokens, houtput, ← inv.tokens]
    exact inv.index
  passed := by
    rw [houtput]
    exact inv.passed

/-- Whether reasoning ended in the prompt is noted before the first output. -/
theorem shouldFillBitmask (hreasoner : c.reasoner = some p.toReasoner) :
    Inv c p prompt promptIds ended (c.shouldFillBitmask a) := by
  unfold AdvanceCore.shouldFillBitmask
  rw [hreasoner]
  cases hfresh : a.reasoningEnded with
  | some b => exact inv
  | none =>
    obtain ⟨houtput, hended⟩ := inv.fresh hfresh
    dsimp only
    split
    · exact inv
    · refine { inv with fresh := nofun, reasoning := fun b hb => ?_ }
      rw [← Option.some.inj hb, houtput, inv.ids, ← hended]
      exact (Bool.or_false ended).symm

theorem shouldAdvance
    (hreasoner : c.reasoner = some p.toReasoner) (hoff : c.enableInReasoning = false)
    (hknown : a.reasoningEnded ≠ none) (hwindow : a.reasoningEnded = some false →
      p.endTokenId ∈ prompt → prompt.length ≤ windowStart a.request) :
    (c.shouldAdvance a).2 = a := by
  obtain ⟨b, hb⟩ := Option.ne_none_iff_exists'.mp hknown
  cases b with
  | true => rw [shouldAdvance_ended inv.structured hreasoner hb]
  | false =>
    have hgoing := inv.reasoning false hb
    rw [eq_comm, Bool.or_eq_false_iff, decide_eq_false_iff_not] at hgoing
    rw [shouldAdvance_quiet hreasoner hoff inv.structured hb]
    rw [inv.tokens]
    exact not_mem_window (hwindow hb) hgoing.2

end

structure Grown (c : AdvanceCore κ) (prompt promptIds : List TokenId) (a : Answering) (q : Request)
    (new : List TokenId) : Prop extends Tracks c prompt promptIds q where
  output : q.outputTokenIds = a.request.outputTokenIds ++ new

theorem grown (inv : Inv c p prompt promptIds ended a) (taken : Taken c.sched.cfg generated
      (rejectDrafts c.sched.cfg drafts generated a.request) q new) :
    Grown c prompt promptIds a q new := by
  obtain ⟨computed, placeholders, hreject, hidle⟩ :=
    rejectDrafts_cases c.sched.cfg drafts generated a.request
  rw [hreject] at taken
  refine ⟨⟨taken.structured.trans inv.structured, taken.ids.trans inv.ids, ?_, ?_⟩, taken.output⟩
  · rw [taken.all, taken.output, inv.tokens, append_assoc]
  · intro hsync
    obtain ⟨hplaceholders, hdiscard⟩ := taken.sync hsync
    obtain ⟨hzero, hnone⟩ := inv.counters hsync
    exact ⟨hplaceholders.trans (hidle hzero), hdiscard.trans hnone⟩

/-- The tokens are passed, and the request may be ended by the grammar. -/
theorem advance (hne : new ≠ []) (h : c.shouldAdvance a = (true, a'))
    (inv : Inv c p prompt promptIds ended
      { a' with passed := a'.passed ++ trimReasoningForAdvance a' new }) (accepts : Bool) :
    Inv c p prompt promptIds ended (c.advanceGrammar a new accepts) := by
  unfold advanceGrammar
  rw [if_neg hne, h]
  dsimp only
  split
  · exact inv.setRequest { inv.toTracks with } rfl
  · exact inv

/-- What the grammar has seen of the tokens is the answer. -/
theorem of_grown (p : MarkerReasoner) (ended : Bool) {passed : List TokenId} {index : Option Int}
    (grown : Grown c prompt promptIds a q new) (hindex : ∀ i, index = some i → i < q.numTokens)
    (hpassed : passed = answerTokens p.endTokenId ended (a.request.outputTokenIds ++ new)) :
    Inv c p prompt promptIds ended
      ⟨q, some (ended || decide (p.endTokenId ∈ a.request.outputTokenIds ++ new)), index, passed⟩ where
  toTracks := grown.toTracks
  fresh := nofun
  reasoning b hb := by rw [grown.output, ← Option.some.inj hb]
  index := hindex
  passed := by rw [grown.output, hpassed]

theorem Grown.numTokens (grown : Grown c prompt promptIds a q new)
    (inv : Inv c p prompt promptIds ended a) : q.numTokens = a.request.numTokens + new.length := by
  rw [Request.numTokens, grown.tokens, grown.output, Request.numTokens, inv.tokens]
  simp only [length_append]
  omega

section
variable (hreasoner : c.reasoner = some p.toReasoner)
include hreasoner

section
variable (inv : Inv c p prompt promptIds ended a)
include inv

/-- New tokens after the end of reasoning: the grammar sees all of them. -/
theorem advance_ended (grown : Grown c prompt promptIds a q new)
    (hended : a.reasoningEnded = some true) (hne : new ≠ []) (accepts : Bool) :
    Inv c p prompt promptIds ended (c.advanceGrammar { a with request := q } new accepts) := by
  have hbefore := (inv.reasoning true hended).symm
  have htokens := grown.numTokens inv
  have hbound : ∀ i, a.reasoningEndTokenIndex = some i → i < q.numTokens := by
    intro i hi
    have hlt := inv.index i hi
    omega
  have htrim : trimReasoningForAdvance { a with request := q } new = new := by
    cases hindex : a.reasoningEndTokenIndex with
    | none => rfl
    | some i =>
      have hlt := inv.index i hindex
      exact if_pos (by dsimp only; omega)
  have hpassed : a.passed ++ new =
      answerTokens p.endTokenId ended (a.request.outputTokenIds ++ new) := by
    rw [answerTokens_append hbefore, inv.passed]
  have hflag : (ended || decide (p.endTokenId ∈ a.request.outputTokenIds ++ new)) = true := by
    rw [Bool.or_eq_true, decide_eq_true_iff] at hbefore ⊢
    exact hbefore.imp_right (mem_append_left new)
  have hinv := of_grown p ended grown hbound hpassed
  refine advance hne (shouldAdvance_ended (a := { a with request := q }) grown.structured hreasoner
    hended) ?_ accepts
  rw [htrim, hended, ← hflag]
  exact hinv

/-- New tokens while reasoning goes on, of which at most the last is a marker: the grammar sees
none of them. -/
theorem advance_going (hoff : c.enableInReasoning = false)
    (grown : Grown c prompt promptIds a q new) (hgoing : a.reasoningEnded = some false)
    (hkept : new <+: generated) (hlast : p.endTokenId ∉ generated.dropLast)
    (hwindow : (new = generated → windowStart q < q.numTokens) ∧
      (p.endTokenId ∈ prompt → prompt.length ≤ windowStart q)) (hne : new ≠ []) (accepts : Bool) :
    Inv c p prompt promptIds ended (c.advanceGrammar { a with request := q } new accepts) := by
  have hbefore := inv.reasoning false hgoing
  rw [eq_comm, Bool.or_eq_false_iff, decide_eq_false_iff_not] at hbefore
  obtain ⟨rfl, hout⟩ := hbefore
  have hnone : a.passed = [] := inv.passed.trans (answerTokens_of_not_mem hout)
  have hindex : ∀ i, a.reasoningEndTokenIndex = some i → i < q.numTokens := by
    intro i hi
    have hlt := inv.index i hi
    rw [grown.numTokens inv]
    omega
  by_cases hmem : p.endTokenId ∈ new
  · -- the marker is the last token of the step, and it is in the window
    obtain ⟨hall, hconcat, hnot⟩ := eq_concat_of_mem hkept hlast hmem
    have hfirst : p.endTokenId ∉ a.request.outputTokenIds ++ new.dropLast := by
      simp only [mem_append, hout, hnot, or_self, not_false_eq_true]
    have hsplit : a.request.outputTokenIds ++ new =
        a.request.outputTokenIds ++ new.dropLast ++ [p.endTokenId] := by
      rw [append_assoc, ← hconcat]
    have htokens : q.allTokenIds =
        prompt ++ (a.request.outputTokenIds ++ new.dropLast) ++ [p.endTokenId] := by
      rw [grown.tokens, grown.output, hsplit]
      simp only [append_assoc]
    have hstart : windowStart q ≤ (prompt ++ (a.request.outputTokenIds ++ new.dropLast)).length := by
      have hlt := hwindow.1 hall
      rw [numTokens, htokens, length_append, length_singleton] at hlt
      omega
    have hshown : p.endTokenId ∈ q.allTokenIds.drop (windowStart q) := by
      rw [htokens, drop_append_of_le_length hstart]
      exact mem_append_right _ (mem_singleton_self _)
    have hflag : (false || decide (p.endTokenId ∈ a.request.outputTokenIds ++ new)) = true := by
      rw [Bool.false_or, decide_eq_true_iff]
      exact mem_append_right _ hmem
    have hanswer : answerTokens p.endTokenId false (a.request.outputTokenIds ++ new) = [] := by
      rw [hsplit, answerTokens_behind hfirst]
      simp [answerTokens]
    rcases shouldAdvance_ends (a := { a with request := q }) hreasoner hoff grown.structured hgoing
      hshown with hends | hends
    · rw [advanceGrammar_of_false hne hends, ← hflag]
      exact of_grown p false grown hindex (hnone.trans hanswer.symm)
    · -- a structural tag: the tokens up to the marker, hence all of them, are cut off
      have hlength := congrArg length htokens
      rw [length_append, length_singleton] at hlength
      have hfind := findReasoningEndIndex_last hstart (not_mem_window hwindow.2 hfirst)
      rw [← htokens] at hfind
      have htrim : trimReasoningForAdvance { a with
          request := q
          reasoningEnded := some true
          reasoningEndTokenIndex := some (findReasoningEndIndex p.toReasoner q.allTokenIds
            (windowStart q)) } new = [] := by
        have hpos := length_pos_iff.mpr hne
        simp only [trimReasoningForAdvance, hfind, numTokens, hlength]
        rw [if_neg (by omega)]
        exact drop_eq_nil_of_le (by omega)
      refine advance hne hends ?_ accepts
      rw [htrim, ← hflag]
      refine of_grown p false grown ?_ ?_
      · intro i hi
        rw [← Option.some.inj hi, hfind, numTokens, hlength]
        omega
      · rw [append_nil, hanswer]
        exact hnone
  · have htokens : p.endTokenId ∉ a.request.outputTokenIds ++ new := by
      simp only [mem_append, hout, hmem, or_self, not_false_eq_true]
    have hinv := of_grown p false grown hindex (hnone.trans (answerTokens_of_not_mem htokens).symm)
    have hquiet : c.shouldAdvance { a with request := q } = (false, { a with request := q }) := by
      refine shouldAdvance_quiet hreasoner hoff grown.structured hgoing ?_
      rw [grown.tokens, grown.output]
      exact not_mem_window hwindow.2 htokens
    rw [advanceGrammar_of_false hne hquiet, hgoing]
    simpa only [htokens, decide_false, Bool.or_self] using hinv

theorem update (hoff : c.enableInReasoning = false)
    (hsafe : Safe c p.endTokenId prompt a (.update drafts generated accepts))
    (h : c.update a drafts generated accepts = .ok a') : Inv c p prompt promptIds ended a' := by
  unfold AdvanceCore.update at h
  split at h
  · cases h
    exact inv
  rename_i hrunning
  have hrunning := Bool.eq_false_iff.mpr hrunning
  dsimp only at h
  split at h
  · cases h
    obtain ⟨computed, placeholders, hreject, hidle⟩ :=
      rejectDrafts_cases c.sched.cfg drafts generated a.request
    rw [hreject]
    refine inv.setRequest { inv.toTracks with counters := fun hsync => ?_ } rfl
    exact ⟨hidle (inv.counters hsync).1, (inv.counters hsync).2⟩
  · rename_i hgenerated
    obtain ⟨hknown, hgo⟩ := hsafe hrunning hgenerated
    split at h
    · cases h
    rename_i q new htake
    cases h
    have taken := takeTokens_taken htake
    have grown := inv.grown taken
    by_cases hne : new = []
    · subst hne
      exact inv.setRequest grown.toTracks (grown.output.trans (append_nil _))
    · obtain ⟨b, hb⟩ := Option.ne_none_iff_exists'.mp hknown
      cases b with
      | true => exact inv.advance_ended hreasoner grown hb hne accepts
      | false =>
        obtain ⟨inStep, hlast⟩ := hgo hb
        exact inv.advance_going hreasoner hoff grown hb taken.kept hlast
          (inStep.window inv.counters taken hne) hne accepts

theorem step {op : AdvanceOp} (hoff : c.enableInReasoning = false)
    (hsafe : op.Safe c p.endTokenId prompt a) (h : c.step a op = .ok a') :
    Inv c p prompt promptIds ended a' := by
  cases op with
  | shouldFillBitmask =>
    cases h
    exact inv.shouldFillBitmask hreasoner
  | schedule out seq step n =>
    cases h
    split
    · rename_i hasync
      unfold SchedulerState.addPlaceholders
      have hcounters : ∀ {P : Prop}, c.sched.cfg.asyncScheduling = false → P :=
        fun hsync => absurd (hasync.symm.trans hsync) nofun
      split <;> exact inv.setRequest { inv.toTracks with counters := hcounters } rfl
    · exact inv.setRequest { inv.toTracks with } rfl
  | preempt | admission | recompute | finish =>
    cases h
    exact inv.setRequest { inv.toTracks with } rfl
  | discardInFlight =>
    cases h
    exact inv.setRequest { inv.toTracks with
      counters := fun hsync => ⟨rfl, (inv.counters hsync).1⟩ } rfl
  | updateDraftTokenIds drafts =>
    cases h
    rw [inv.shouldAdvance hreasoner hoff hsafe.1 hsafe.2]
    exact inv.setRequest { inv.toTracks with } rfl
  | update drafts generated accepts => exact inv.update hreasoner hoff hsafe h

end

end

end Inv

/-! ### Runs -/

def Answering.create (request : Request) (reasoningEnded : Option Bool) : Answering where
  request := { request with useStructuredOutput := true }
  reasoningEnded := reasoningEnded

/-- In every run whose outputs are in step with the counters and end with the marker, if they have
it while reasoning goes on, the grammar has seen the answer. -/
theorem reaches_passed (hreasoner : c.reasoner = some p.toReasoner)
    (hoff : c.enableInReasoning = false) {request : Request} (hnew : request.IsNew)
    {reasoningEnded : Option Bool}
    (h : Run.Reaches c.step (fun a op => op.Safe c p.endTokenId request.allTokenIds a)
      (Answering.create request reasoningEnded) a) :
    a.passed = answerTokens p.endTokenId
      (reasoningEnded.getD (p.isReasoningEnd request.promptTokenIds)) a.request.outputTokenIds := by
  suffices hinv : Inv c p request.allTokenIds request.promptTokenIds
      (reasoningEnded.getD (p.isReasoningEnd request.promptTokenIds)) a from hinv.passed
  refine h.invariant ?_ fun _ _ _ inv hsafe hstep => inv.step hreasoner hoff hsafe hstep
  have houtput : (Answering.create request reasoningEnded).request.outputTokenIds = [] :=
    hnew.noOutput
  refine ⟨⟨rfl, rfl, ?_, fun _ => ⟨hnew.placeholders, hnew.discard⟩⟩,
    fun hnone => ⟨houtput, ?_⟩, fun b hb => ?_, nofun, ?_⟩
  · rw [houtput, append_nil]
    rfl
  · obtain rfl : reasoningEnded = none := hnone
    rfl
  · obtain rfl : reasoningEnded = some b := hb
    rw [houtput]
    exact (Bool.or_false b).symm
  · rw [houtput]
    cases reasoningEnded.getD (p.isReasoningEnd request.promptTokenIds) <;> rfl

/-- A step with drafts, as far as the request looks at it. -/
def draftOutput (drafts : List TokenId) : SchedulerOutput where
  scheduledNewReqs := []
  scheduledResumedReqs := []
  scheduledRunningReqs := [0]
  reqToNewBlocks := []
  numScheduledTokens := [(0, drafts.length + 1)]
  totalNumScheduledTokens := drafts.length + 1
  scheduledSpecDecodeTokens := [(0, drafts)]
  scheduledEncoderInputs := []
  externalEncoderInputs := []
  preemptedReqIds := []
  finishedReqIds := []
  freeEncoderMmHashes := []
  numSpecTokensToSchedule := 2

def thinkingCore (asyncScheduling : Bool) (key : StructuredOutputOptions) : AdvanceCore Unit where
  sched :=
    { cfg :=
        { maxNumRunningReqs := 1, maxNumScheduledTokens := 8, maxModelLen := 16, numSpecTokens := 2,
          asyncScheduling }
      ops := roomyOps }
  reasoner := some (thinkingReasoner 8 9).toReasoner
  enableInReasoning := false
  speculative := true
  key := key

def draftedOps (drafts generated : List TokenId) : List AdvanceOp :=
  [.shouldFillBitmask, .schedule (draftOutput []) 1 1 1, .update [] [5] true,
    .schedule (draftOutput drafts) 2 2 3, .update drafts generated true]

/-- The second draft is replaced by the marker; the next step is passed. -/
theorem reaches_passed_closing :
    ∃ a, Run.Reaches (thinkingCore true .json).step
        (fun a op => op.Safe (thinkingCore true .json) 9 [1] a)
        (Answering.create (promptRequest 0 1) none) a ∧ a.request.outputTokenIds = [5, 6, 9, 7] ∧
      a.passed = answerTokens 9 false a.request.outputTokenIds := by
  have hrun : (Run.runIf (thinkingCore true .json).step
      (fun a op => op.Safe (thinkingCore true .json) 9 [1] a)
      (Answering.create (promptRequest 0 1) none) (draftedOps [6, 4] [6, 9] ++
        [.schedule (draftOutput []) 3 3 1, .update [] [7] true])).map
        (fun a => a.request.outputTokenIds) = some [5, 6, 9, 7] := by
    decide +kernel
  obtain ⟨a, ha, houtput⟩ := Option.map_eq_some_iff.mp hrun
  have hreach := Run.Reaches.start.runIf _ ha
  have hnew : (promptRequest 0 1).IsNew := by decide
  exact ⟨a, hreach, houtput, reaches_passed (p := thinkingReasoner 8 9) rfl rfl hnew hreach⟩

theorem drafted_unseen (asyncScheduling : Bool) (key : StructuredOutputOptions) :
    ∃ a, Run.Reaches (thinkingCore asyncScheduling key).step (fun _ _ => True)
        (Answering.create (promptRequest 0 1) none) a ∧ a.passed = [] ∧
      answerTokens 9 false a.request.outputTokenIds = [6, 7] := by
  have hrun : (Run.run (thinkingCore asyncScheduling key).step
      (Answering.create (promptRequest 0 1) none) (draftedOps [9, 6] [9, 6, 7])).map
        (fun a => (a.passed, answerTokens 9 false a.request.outputTokenIds)) = .ok ([], [6, 7]) := by
    cases asyncScheduling <;> cases key <;> decide +kernel
  obtain ⟨a, ha, heval⟩ := Run.map_eq_ok hrun
  obtain ⟨hpassed, hanswer⟩ := Prod.mk.inj heval
  exact ⟨a, .run _ (fun _ _ _ => trivial) .start ha, hpassed, hanswer⟩

/-- The marker is the first of three tokens that one step adds: the grammar never sees the two
tokens behind it. -/
theorem reaches_unseen :
    ∃ a, Run.Reaches (thinkingCore true .structuralTag).step (fun _ _ => True)
        (Answering.create (promptRequest 0 1) none) a ∧
      a.passed ≠ answerTokens 9 false a.request.outputTokenIds := by
  obtain ⟨a, hreach, hpassed, hanswer⟩ := drafted_unseen true .structuralTag
  exact ⟨a, hreach, by rw [hpassed, hanswer]; nofun⟩

end AdvanceCore
end Vllm.StructuredOutput
