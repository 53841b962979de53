import Vllm.StructuredOutput.BitmaskFrame

/-! The bitmasks of a batch: the rows of each request are right, and which grammars are as they were
before. -/
namespace Vllm.StructuredOutput
open List SORequest

section
variable {M G : Type}

namespace SORequest

def answering (cfg : ManagerConfig M) (r : SORequest G) : Bool := (shouldFillBitmask cfg r).1

def ends (cfg : ManagerConfig M) (r : SORequest G) : List Token → Token → Bool :=
  endsReasoning r.reasoner (!r.answering cfg)

/-- The drafts before `j` that belong to the answer. -/
def answerBefore (cfg : ManagerConfig M) (r : SORequest G) (j : Nat) : Option (List Token) :=
  StructuredOutput.answerBefore (r.answering cfg)
    (firstEnd (r.ends cfg) r.allTokenIds r.drafts) r.drafts j

def offered (cfg : ManagerConfig M) (r : SORequest G) : List Token :=
  StructuredOutput.offered (r.ends cfg) (r.answering cfg) r.allTokenIds r.drafts

end SORequest

theorem shouldFillBitmask_same (cfg : ManagerConfig M) (r : SORequest G) :
    ∃ ended, (shouldFillBitmask cfg r).2 = { r with reasoningEnded := ended } ∧
      (shouldFillBitmask cfg { r with reasoningEnded := ended }).1 = r.answering cfg := by
  obtain ⟨prompt, all, reasoner, ended, grammar, drafts⟩ := r
  cases reasoner with
  | none => exact ⟨ended, rfl, rfl⟩
  | some reasoner =>
    by_cases henable : cfg.enableInReasoning = true
    · refine ⟨ended, ?_, ?_⟩
      · simp only [shouldFillBitmask, if_pos henable]
      · simp only [answering, shouldFillBitmask, if_pos henable]
    · cases ended with
      | none =>
        refine ⟨some (reasoner.isReasoningEnd prompt), ?_, ?_⟩
        · simp only [shouldFillBitmask, if_neg henable]
        · simp only [answering, shouldFillBitmask, if_neg henable]
      | some ended =>
        refine ⟨some ended, ?_, ?_⟩
        · simp only [shouldFillBitmask, if_neg henable]
        · simp only [answering, shouldFillBitmask, if_neg henable]

theorem detect_eq (cfg : ManagerConfig M) (r : SORequest G) :
    (!r.answering cfg && r.reasoner.isSome && !cfg.enableInReasoning) = !r.answering cfg := by
  unfold answering shouldFillBitmask
  split
  · rfl
  rename_i hreasoner
  split
  · rfl
  rename_i henable
  rw [Bool.not_eq_true] at henable
  rw [hreasoner, henable]
  simp

variable [Grammar M G] {cfg : ManagerConfig M} {r : SORequest G} {batch' batch : List (SORequest G)}
  {rows : List M}

/-- The rows of a request, one for each draft and one for what follows them. -/
def RowsRight (cfg : ManagerConfig M) (r : SORequest G) (rows : List M) : Prop :=
  rows.length = r.drafts.length + (if cfg.isDiffusion && !r.drafts.isEmpty then 0 else 1) ∧
    ∀ j row, rows[j]? = some row → -1 ∉ r.drafts.take j →
      RowRight cfg r.grammar (r.answerBefore cfg j) row

/-- What is left of the grammar of a request: it is offered drafts and then rolled back. -/
def SORequest.restored (cfg : ManagerConfig M) (r : SORequest G) : G :=
  let s := (r.offered cfg).foldl offer (r.grammar, 0)
  if 0 < s.2 then Grammar.rollback s.1 s.2 else s.1

theorem fillRequest_spec {r' : SORequest G} (h : fillRequest cfg r = .ok (rows, r')) :
    RowsRight cfg r rows ∧ r'.grammar = r.restored cfg := by
  obtain ⟨ended, hsame, hagain⟩ := shouldFillBitmask_same cfg r
  unfold fillRequest at h
  simp only [hsame, hagain] at h
  rw [← answering, detect_eq] at h
  split at h
  · cases h
  rename_i w hdrafts
  obtain ⟨added, hloop⟩ := drafts_rows r.drafts hdrafts
  have hoffer := drafts_offer r.drafts hdrafts
  cases h
  refine ⟨⟨?_, fun j row hrow hpad => ?_⟩, ?_⟩
  · rw [apply_ite length, length_append, hloop.rows, nil_append, hloop.length]
    split
    · rfl
    · rfl
  · refine hloop.right j row ?_ hpad
    have hrows : w.rows = added := hloop.rows
    rw [hrows] at hrow
    by_cases hj : j < added.length
    · rw [getElem?_append_left hj]
      split at hrow
      · exact hrow
      · rw [getElem?_append_left hj] at hrow
        exact hrow
    · -- the row after the drafts
      split at hrow
      · rw [getElem?_eq_none (Nat.le_of_not_lt hj)] at hrow
        cases hrow
      have hlast : (r.answering cfg || w.applyBitmask) = w.applyBitmask := by
        have hlen := hloop.length
        rw [take_of_length_le (by omega)] at hpad
        have happlied := hloop.applied
        cases hanswering : r.answering cfg with
        | false => rfl
        | true => rw [happlied hanswering hpad, Bool.or_true]
      rw [hlast] at hrow
      exact hrow
  · rw [restored, SORequest.offered, ends, ← hoffer]

/-- A request that is filled in parallel has no drafts. -/
theorem fillParallel_spec (cfg : ManagerConfig M) (hdrafts : r.drafts = []) :
    RowsRight cfg r [fillRow cfg (shouldFillBitmask cfg r).2.grammar (shouldFillBitmask cfg r).1] ∧
      (shouldFillBitmask cfg r).2.grammar = r.restored cfg := by
  obtain ⟨ended, hsame, -⟩ := shouldFillBitmask_same cfg r
  rw [hsame]
  refine ⟨⟨?_, fun j row hrow _ => ?_⟩, ?_⟩
  · rw [hdrafts]
    simp
  · cases j with
    | succ j => cases hrow
    | zero =>
      cases hrow
      rw [SORequest.answerBefore, answerBefore_zero]
      exact fillRow_right cfg r.grammar (r.answering cfg)
  · rw [restored, SORequest.offered, hdrafts]
    rfl

theorem fillSerial_spec (batch : List (SORequest G))
    (h : fillSerial cfg batch = .ok (rows, batch')) :
    (∃ parts, rows = parts.flatten ∧ Forall₂ (RowsRight cfg) batch parts) ∧
      batch'.map grammar = batch.map (restored cfg) := by
  induction batch generalizing batch' rows with
  | nil =>
    cases h
    exact ⟨⟨[], rfl, .nil⟩, rfl⟩
  | cons r batch ih =>
    rw [fillSerial] at h
    split at h
    · cases h
    rename_i hone
    split at h
    · cases h
    rename_i hrest
    cases h
    obtain ⟨hright, hgrammar⟩ := fillRequest_spec hone
    obtain ⟨⟨parts, rfl, hparts⟩, hgrammars⟩ := ih hrest
    refine ⟨⟨_ :: parts, rfl, .cons hright hparts⟩, ?_⟩
    rw [map_cons, map_cons, hgrammar, hgrammars]

def BatchRight (cfg : ManagerConfig M) (batch : List (SORequest G)) (rows : Option (List M)) :
    Prop :=
  match rows with
  | none => batch = []
  | some rows => ∃ parts, rows = parts.flatten ∧ Forall₂ (RowsRight cfg) batch parts

theorem grammarBitmask_right {rows : Option (List M)}
    (hdrafts : ∀ r ∈ batch, r.drafts.length ≤ cfg.maxNumSpecTokens)
    (h : grammarBitmask cfg batch = .ok (rows, batch')) :
    BatchRight cfg batch rows ∧
      batch'.map grammar = batch.map (restored cfg) := by
  unfold grammarBitmask at h
  split at h
  · rename_i hempty
    cases h
    subst hempty
    exact ⟨rfl, rfl⟩
  · split at h
    · rename_i hparallel
      cases h
      have hnone : ∀ r ∈ batch, r.drafts = [] := fun r hr =>
        length_eq_zero_iff.mp (Nat.le_zero.mp (hparallel.2 ▸ hdrafts r hr))
      refine ⟨⟨(batch.map (shouldFillBitmask cfg)).map fun f => [fillRow cfg f.2.grammar f.1], ?_,
        ?_⟩, ?_⟩
      · induction batch.map (shouldFillBitmask cfg) with
        | nil => rfl
        | cons f fs ih => exact congrArg (_ :: ·) ih
      · rw [map_map, forall₂_map_right_iff, forall₂_same]
        exact fun r hr => (fillParallel_spec cfg (hnone r hr)).1
      · rw [map_map, map_map]
        exact map_congr_left fun r hr => (fillParallel_spec cfg (hnone r hr)).2
    · cases hserial : fillSerial cfg batch with
      | error e =>
        rw [hserial] at h
        cases h
      | ok filled =>
        rw [hserial] at h
        cases h
        exact fillSerial_spec batch hserial

/-! ### When a call raises -/

/-- The drafts of a request that is past reasoning are accepted, up to the padding. -/
def SORequest.Validated (cfg : ManagerConfig M) (r : SORequest G) : Prop :=
  r.answering cfg = true → (advanceAll r.grammar (r.drafts.takeWhile (· ≠ -1))).isSome = true

/-- A draft that the loop offers is accepted or may be rejected. -/
def Window.Accepting (w : Window M G) (tokens : List Token) : Prop :=
  w.applyBitmask = true → w.postReasoningEndInWindow = true ∨
    (advanceAll w.grammar (tokens.takeWhile (· ≠ -1))).isSome = true

variable {cfg : ManagerConfig M} {reasoner : Option Reasoner} {detect : Bool}
  {history tokens : List Token} {token : Token}

theorem Window.Accepting.advance {w : Window M G} (h : w.Accepting (token :: tokens))
    (htoken : token ≠ -1) (happly : w.applyBitmask = true) :
    ∃ w', w.advance token = .ok w' ∧ w'.Accepting tokens := by
  have haccepts := h happly
  rw [takeWhile_cons, if_pos (decide_eq_true htoken)] at haccepts
  unfold Window.advance
  by_cases hterminated : Grammar.isTerminated w.grammar = true
  · rw [if_pos hterminated]
    refine ⟨w, rfl, fun _ => .inr ?_⟩
    rw [advanceAll_of_isTerminated hterminated]
    rfl
  · rw [if_neg hterminated]
    rw [advanceAll, if_neg hterminated] at haccepts
    generalize Grammar.acceptTokens w.grammar [token] = taken at haccepts ⊢
    obtain ⟨accepted, g⟩ := taken
    cases accepted with
    | true =>
      exact ⟨_, rfl, fun _ => haccepts⟩
    | false =>
      obtain hpost | hnone := haccepts
      · simp only [Bool.false_eq_true, if_false, if_pos hpost]
        exact ⟨_, rfl, fun _ => .inl hpost⟩
      · cases hnone

theorem Window.Accepting.draft {w : Window M G} (h : w.Accepting (token :: tokens)) :
    ∃ w', w.draft cfg reasoner detect history token = .ok w' ∧ w'.Accepting tokens := by
  unfold Window.draft
  simp only
  split
  · exact ⟨_, rfl, nofun⟩
  rename_i htoken
  split
  · rename_i happly
    exact advance h htoken happly
  rename_i happly
  split
  · exact ⟨_, rfl, fun _ => .inl rfl⟩
  · exact ⟨_, rfl, fun h => absurd h happly⟩

theorem Window.Accepting.drafts (tokens : List Token) {w : Window M G} (h : w.Accepting tokens) :
    ∃ w', w.drafts cfg reasoner detect history tokens = .ok w' := by
  induction tokens generalizing w history with
  | nil => exact ⟨w, rfl⟩
  | cons token tokens ih =>
    obtain ⟨w₁, hdraft, haccepting⟩ := h.draft
    rw [Window.drafts, hdraft]
    exact ih haccepting

theorem fillRequest_ok (h : r.Validated cfg) : ∃ filled, fillRequest cfg r = .ok filled := by
  obtain ⟨ended, hsame, -⟩ := shouldFillBitmask_same cfg r
  unfold fillRequest
  simp only [hsame]
  obtain ⟨w, hdrafts⟩ := @Window.Accepting.drafts M G _ cfg r.reasoner
    (!(shouldFillBitmask cfg r).1 && r.reasoner.isSome && !cfg.enableInReasoning) r.allTokenIds
    r.drafts { grammar := r.grammar, applyBitmask := (shouldFillBitmask cfg r).1 }
    fun hanswering => .inr (h hanswering)
  rw [hdrafts]
  exact ⟨_, rfl⟩

theorem fillSerial_ok (batch : List (SORequest G)) (h : ∀ r ∈ batch, r.Validated cfg) :
    ∃ filled, fillSerial cfg batch = .ok filled := by
  induction batch with
  | nil => exact ⟨_, rfl⟩
  | cons r batch ih =>
    obtain ⟨one, hone⟩ := fillRequest_ok (h r mem_cons_self)
    obtain ⟨rest, hrest⟩ := ih fun r hr => h r (mem_cons_of_mem _ hr)
    rw [fillSerial, hone, hrest]
    exact ⟨_, rfl⟩

theorem grammarBitmask_ok (h : ∀ r ∈ batch, r.Validated cfg) :
    ∃ filled, grammarBitmask cfg batch = .ok filled := by
  unfold grammarBitmask
  split
  · exact ⟨_, rfl⟩
  split
  · exact ⟨_, rfl⟩
  · obtain ⟨filled, hfilled⟩ := fillSerial_ok batch h
    rw [hfilled]
    exact ⟨_, rfl⟩

end

/-! ### The grammars after a call -/

section
variable {M : Type} {matcher : Matcher M}

theorem XgrammarGrammar.restored_eq (hfresh : matcher.stopped [] = false) (cfg : ManagerConfig M)
    {r : SORequest (XgrammarGrammar M)} (h : Reached matcher r.grammar) :
    r.restored cfg = r.grammar := by
  have hterminated := h.isTerminated_eq hfresh
  have habove : Above r.grammar ((r.offered cfg).foldl offer (r.grammar, 0)) :=
    Above.foldl_offer _ ⟨rfl, ⟨[], rfl, rfl⟩, (Int.add_zero _).symm, hterminated⟩
  rw [restored]
  generalize (r.offered cfg).foldl offer (r.grammar, 0) = s at habove
  obtain ⟨g, n⟩ := s
  have hback := habove.rollback hterminated
  split
  · exact hback
  rename_i hzero
  obtain rfl : n = 0 := Nat.eq_zero_of_not_pos hzero
  rw [habove.rollback_zero] at hback
  exact hback

/-- The grammar had terminated before, or it does not reject the end-of-sequence token before it
accepts any draft and, when it has consumed a token, no draft follows a stop. With nothing consumed
the rollback, which also counts the drafts behind the stop, ends at the empty stack. -/
def SORequest.Restores (cfg : ManagerConfig M) (r : SORequest (GuidanceGrammar M)) : Prop :=
  r.grammar.terminated = true ∨
    GuidanceGrammar.strayEos r.grammar.matcher r.grammar.eosToken r.grammar.stack (r.offered cfg) =
        false ∧
      (r.grammar.stack = [] ∨
        GuidanceGrammar.overrun r.grammar.matcher r.grammar.eosToken r.grammar.stack
          (r.offered cfg) = false)

theorem GuidanceGrammar.restored_eq_iff {eosToken : Token} (cfg : ManagerConfig M)
    {r : SORequest (GuidanceGrammar M)} (h : Reached matcher eosToken r.grammar) :
    r.restored cfg = r.grammar ↔ r.Restores cfg := by
  unfold Restores
  cases hterminated : r.grammar.terminated with
  | true =>
    rw [restored, foldl_offer_of_terminated _ hterminated]
    simp
  | false =>
    have hlag := h.rollbackLag_eq hterminated
    have hbelow : r.grammar.below r.grammar.stack = r.grammar := by
      generalize r.grammar = g at hterminated hlag
      obtain ⟨matcher, eosToken, stack, terminated, lag⟩ := g
      subst hterminated hlag
      rfl
    have hiff := @restore_foldl_offer M (r.offered cfg) r.grammar 0 0 [] r.grammar.stack
      hterminated hlag rfl rfl
    rw [hbelow] at hiff
    change restore ((r.offered cfg).foldl offer (r.grammar, 0)) = r.grammar ↔ _
    rw [hiff]
    simp

def Kept {G : Type} (batch batch' : List (SORequest G)) : Prop :=
  batch'.map grammar = batch.map grammar

/-- A call raises only when a draft that was validated is rejected. Otherwise the rows are right; the
grammars of the xgrammar backend are kept, and those of the guidance backend are unless it rejects a
draft of the end-of-sequence token before it accepts one, or drafts follow a stop. -/
theorem grammarBitmask_kept (cfg : ManagerConfig M) :
    (∀ batch : List (SORequest (XgrammarGrammar M)),
      (∀ r ∈ batch, r.drafts.length ≤ cfg.maxNumSpecTokens) →
      (∀ r ∈ batch, ∃ matcher : Matcher M, matcher.stopped [] = false ∧
        XgrammarGrammar.Reached matcher r.grammar) →
      ((∀ r ∈ batch, r.Validated cfg) → ∃ filled, grammarBitmask cfg batch = .ok filled) ∧
        ∀ rows batch', grammarBitmask cfg batch = .ok (rows, batch') →
          BatchRight cfg batch rows ∧ Kept batch batch') ∧
    ∀ batch : List (SORequest (GuidanceGrammar M)),
      (∀ r ∈ batch, r.drafts.length ≤ cfg.maxNumSpecTokens) →
      (∀ r ∈ batch, ∃ (matcher : Matcher M) (eosToken : Token),
        GuidanceGrammar.Reached matcher eosToken r.grammar) →
      ((∀ r ∈ batch, r.Validated cfg) → ∃ filled, grammarBitmask cfg batch = .ok filled) ∧
        ∀ rows batch', grammarBitmask cfg batch = .ok (rows, batch') →
          BatchRight cfg batch rows ∧ (Kept batch batch' ↔ ∀ r ∈ batch, r.Restores cfg) := by
  refine ⟨fun batch hdrafts hreached => ⟨grammarBitmask_ok, fun rows batch' h => ?_⟩,
    fun batch hdrafts hreached => ⟨grammarBitmask_ok, fun rows batch' h => ?_⟩⟩
  · obtain ⟨hright, hgrammars⟩ := grammarBitmask_right hdrafts h
    refine ⟨hright, hgrammars.trans (map_congr_left fun r hr => ?_)⟩
    obtain ⟨matcher, hfresh, hgrammar⟩ := hreached r hr
    exact XgrammarGrammar.restored_eq hfresh cfg hgrammar
  · obtain ⟨hright, hgrammars⟩ := grammarBitmask_right hdrafts h
    refine ⟨hright, ?_⟩
    rw [Kept, hgrammars, map_inj_left]
    refine forall₂_congr fun r hr => ?_
    obtain ⟨matcher, eosToken, hgrammar⟩ := hreached r hr
    exact GuidanceGrammar.restored_eq_iff cfg hgrammar

end

section

/-- Stops with 3 and does not consume 0, the end-of-sequence token. -/
def closing : Matcher (List Token) where
  allows _ token := token ≠ 0
  stopped stack := stack.head? = some 3
  mask stack := stack

def closingConfig : ManagerConfig (List Token) where
  fullMask := [-1]
  enableInReasoning := false
  maxNumSpecTokens := 3
  fillBitmaskParallelThreshold := 128
  isDiffusion := false

def nineReasoner : Reasoner where
  isReasoningEnd tokens := tokens.contains 9
  isReasoningEndStreaming _ delta := delta.contains 9

def thinking {G : Type} (grammar : G) (drafts : List Token) : SORequest G where
  promptTokenIds := [7]
  allTokenIds := [7]
  reasoner := some nineReasoner
  reasoningEnded := some false
  grammar := grammar
  drafts := drafts

theorem grammarBitmask_kept_closing :
    (∃ rows batch', grammarBitmask closingConfig
        [thinking (⟨closing, [], 0, false⟩ : XgrammarGrammar (List Token)) [9, 1, 0]] =
          .ok (rows, batch') ∧
        Kept [thinking (⟨closing, [], 0, false⟩ : XgrammarGrammar (List Token)) [9, 1, 0]]
          batch') ∧
    ∃ rows batch', grammarBitmask closingConfig
        [thinking (⟨closing, 0, [], false, 0⟩ : GuidanceGrammar (List Token)) [9, 1, 0]] =
          .ok (rows, batch') ∧
        Kept [thinking (⟨closing, 0, [], false, 0⟩ : GuidanceGrammar (List Token)) [9, 1, 0]]
          batch' := by
  obtain ⟨hxgrammar, hguidance⟩ := grammarBitmask_kept closingConfig
  refine ⟨⟨_, _, rfl, ?_⟩, ⟨_, _, rfl, ?_⟩⟩
  · refine ((hxgrammar _ ?_ ?_).2 _ _ rfl).2
    · rintro r (_ | ⟨_, ⟨⟩⟩)
      exact Nat.le_refl 3
    · rintro r (_ | ⟨_, ⟨⟩⟩)
      exact ⟨closing, rfl, .start⟩
  · refine ((hguidance _ ?_ ?_).2 _ _ rfl).2.mpr ?_
    · rintro r (_ | ⟨_, ⟨⟩⟩)
      exact Nat.le_refl 3
    · rintro r (_ | ⟨_, ⟨⟩⟩)
      exact ⟨closing, 0, .start⟩
    · rintro r (_ | ⟨_, ⟨⟩⟩)
      exact .inr ⟨rfl, .inl rfl⟩

/-- The end-of-sequence token that follows the end of reasoning leaves the grammar terminated, and a
draft that follows a stop takes a token of the answer away. -/
theorem grammarBitmask_lost :
    (∃ rows r', grammarBitmask closingConfig
        [thinking (⟨closing, 0, [], false, 0⟩ : GuidanceGrammar (List Token)) [9, 0]] =
          .ok (rows, [r']) ∧ r'.grammar.terminated = true) ∧
    ∃ g : GuidanceGrammar (List Token), g.stack = [1] ∧ g.Reached closing 0 ∧
      ∃ rows r', grammarBitmask closingConfig [thinking g [9, 3, 4]] = .ok (rows, [r']) ∧
        r'.grammar.stack = [] :=
  ⟨⟨_, _, rfl, rfl⟩, ⟨closing, 0, [1], false, 0⟩, rfl, .accept [1] .start rfl, _, _, rfl, rfl⟩

end
end Vllm.StructuredOutput
