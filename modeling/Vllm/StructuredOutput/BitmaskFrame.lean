import Vllm.StructuredOutput.BitmaskRows

/-! What filling the bitmasks leaves of a grammar: the xgrammar backend is rolled back exactly; the
guidance backend is, unless it rejects the end-of-sequence token before it accepts any draft, or a
draft follows a stop. -/
namespace Vllm.StructuredOutput
open List

section
variable {M G : Type} [Grammar M G]

def offered (ends : List Token → Token → Bool) : Bool → List Token → List Token → List Token
  | _, _, [] => []
  | answering, history, token :: tokens =>
    if token = -1 then offered ends false (history ++ [token]) tokens
    else if answering then token :: offered ends true (history ++ [token]) tokens
    else offered ends (ends history token) (history ++ [token]) tokens

def offer (s : G × Nat) (token : Token) : G × Nat :=
  if Grammar.isTerminated s.1 then s
  else
    let (accepted, g) := Grammar.acceptTokens s.1 [token]
    (g, if accepted then s.2 + 1 else s.2)

variable {cfg : ManagerConfig M} {reasoner : Option Reasoner} {detect : Bool}
  {history : List Token} {token : Token} {w w' : Window M G}

theorem advance_offer (h : w.advance token = .ok w') :
    (w'.grammar, w'.stateAdvancements) = offer (w.grammar, w.stateAdvancements) token ∧
      w'.applyBitmask = w.applyBitmask := by
  unfold Window.advance at h
  unfold offer
  simp only at h ⊢
  split at h
  · rename_i hterminated
    cases h
    rw [if_pos hterminated]
    exact ⟨rfl, rfl⟩
  · rename_i hrunning
    rw [if_neg hrunning]
    split at h
    · rename_i haccepted
      cases h
      rw [if_pos haccepted]
      exact ⟨rfl, rfl⟩
    · rename_i hrejected
      rw [if_neg hrejected]
      split at h
      · cases h
        exact ⟨rfl, rfl⟩
      · cases h

theorem drafts_offer (tokens : List Token)
    (h : w.drafts cfg reasoner detect history tokens = .ok w') :
    (w'.grammar, w'.stateAdvancements) =
      (offered (endsReasoning reasoner detect) w.applyBitmask history tokens).foldl offer
        (w.grammar, w.stateAdvancements) := by
  induction tokens generalizing w history with
  | nil =>
    cases h
    rfl
  | cons token tokens ih =>
    rw [Window.drafts] at h
    split at h
    · cases h
    rename_i w₁ hdraft
    rw [ih h, offered]
    unfold Window.draft at hdraft
    simp only at hdraft
    split at hdraft
    · rename_i htoken
      cases hdraft
      rw [if_pos htoken]
    · rename_i htoken
      rw [if_neg htoken]
      split at hdraft
      · rename_i happly
        obtain ⟨hoffer, hsame⟩ := advance_offer hdraft
        rw [if_pos happly, foldl_cons, hoffer, hsame, happly]
      · rename_i happly
        rw [if_neg happly]
        split at hdraft
        · rename_i hends
          cases hdraft
          rw [hends]
        · rename_i hends
          cases hdraft
          rw [Bool.not_eq_true] at happly hends
          rw [hends, happly]

end

section
variable {M : Type} {matcher : Matcher M}

/-! ### Xgrammar -/

namespace XgrammarGrammar

/-- The grammars that accepting tokens and rolling back lead to. -/
inductive Reached (matcher : Matcher M) : XgrammarGrammar M → Prop
  | start : Reached matcher { matcher }
  | accept {g g' : XgrammarGrammar M} (tokens : List Token) : Reached matcher g →
      g.acceptTokens tokens = (true, g') → Reached matcher g'
  | rollback {g : XgrammarGrammar M} (numTokens : Nat) : Reached matcher g →
      Reached matcher (g.rollback numTokens)

variable {g g' : XgrammarGrammar M} {s : XgrammarGrammar M × Nat}

theorem acceptLoop_isTerminated (tokens : List Token) (h : acceptLoop tokens g = (true, g')) :
    g'.isTerminated = g'.matcher.stopped g'.stack := by
  induction tokens generalizing g with
  | nil =>
    cases h
    rfl
  | cons token tokens ih =>
    rw [acceptLoop] at h
    split at h
    · exact ih h
    · cases h

theorem Reached.isTerminated_eq (hfresh : matcher.stopped [] = false) (h : Reached matcher g) :
    g.isTerminated = g.matcher.stopped g.stack := by
  cases h with
  | start => exact hfresh.symm
  | accept tokens _ haccept =>
    unfold acceptTokens at haccept
    split at haccept
    · cases haccept
    · exact acceptLoop_isTerminated tokens haccept
  | rollback numTokens _ => rfl

/-- What was accepted since `g` lies on top of its stack. -/
structure Above (g : XgrammarGrammar M) (s : XgrammarGrammar M × Nat) : Prop where
  matcher : s.1.matcher = g.matcher
  stack : ∃ pushed, pushed.length = s.2 ∧ s.1.stack = pushed ++ g.stack
  processed : s.1.numProcessedTokens = g.numProcessedTokens + s.2
  terminated : s.1.isTerminated = s.1.matcher.stopped s.1.stack

theorem Above.offer (h : Above g s) (token : Token) : Above g (StructuredOutput.offer s token) := by
  obtain ⟨pushed, hlen, hstack⟩ := h.stack
  change Above g (if s.1.isTerminated then s else _)
  split
  · exact h
  rename_i hrunning
  have haccept : Grammar.acceptTokens s.1 [token] = acceptLoop [token] s.1 := if_neg hrunning
  simp only [haccept, acceptLoop]
  by_cases hallows : s.1.matcher.allows s.1.stack token = true
  · simp only [if_pos hallows, if_true]
    refine ⟨h.matcher, ⟨token :: pushed, ?_, ?_⟩, ?_, rfl⟩
    · rw [length_cons, hlen]
    · rw [hstack, cons_append]
    · have hprocessed := h.processed
      simp only
      omega
  · simp only [if_neg hallows]
    exact ⟨h.matcher, ⟨pushed, hlen, hstack⟩, h.processed, h.terminated⟩

theorem Above.foldl_offer (tokens : List Token) (h : Above g s) :
    Above g (tokens.foldl StructuredOutput.offer s) := by
  induction tokens generalizing s with
  | nil => exact h
  | cons token tokens ih => exact ih (h.offer token)

theorem Above.rollback {n : Nat} (h : Above g (g', n))
    (hg : g.isTerminated = g.matcher.stopped g.stack) : g'.rollback n = g := by
  obtain ⟨pushed, hlen, hstack⟩ := h.stack
  have hmatcher := h.matcher
  have hprocessed := h.processed
  obtain ⟨matcher, stack, processed, terminated⟩ := g
  obtain ⟨matcher', stack', processed', terminated'⟩ := g'
  simp only at hlen hstack hmatcher hprocessed hg
  subst hmatcher hstack hprocessed hlen hg
  simp only [XgrammarGrammar.rollback, drop_left, Int.add_sub_cancel]

theorem Above.rollback_zero {n : Nat} (h : Above g (g', n)) : g'.rollback 0 = g' := by
  have hterminated := h.terminated
  obtain ⟨matcher, stack, processed, terminated⟩ := g'
  simp only at hterminated
  subst hterminated
  simp only [XgrammarGrammar.rollback, drop_zero, Int.natCast_zero, Int.sub_zero]

end XgrammarGrammar

/-! ### Guidance -/

namespace GuidanceGrammar

inductive Reached (matcher : Matcher M) (eosToken : Token) : GuidanceGrammar M → Prop
  | start : Reached matcher eosToken { matcher, eosToken }
  | accept {g g' : GuidanceGrammar M} (tokens : List Token) : Reached matcher eosToken g →
      g.acceptTokens tokens = (true, g') → Reached matcher eosToken g'
  | rollback {g : GuidanceGrammar M} (numTokens : Nat) : Reached matcher eosToken g →
      Reached matcher eosToken (g.rollback numTokens)

theorem acceptTokens_flags (g : GuidanceGrammar M) (tokens : List Token) :
    (g.acceptTokens tokens).2.terminated = (g.noteEos tokens).terminated ∧
      (g.acceptTokens tokens).2.rollbackLag = (g.noteEos tokens).rollbackLag := by
  unfold acceptTokens
  simp only
  split
  · exact ⟨rfl, rfl⟩
  · exact ⟨rfl, rfl⟩

variable {g : GuidanceGrammar M} {eosToken : Token}

/-- Only a grammar that has terminated has a lag. -/
theorem Reached.rollbackLag_eq (h : Reached matcher eosToken g) :
    g.terminated = false → g.rollbackLag = 0 := by
  induction h with
  | start => exact fun _ => rfl
  | accept tokens _ haccept ih =>
    rename_i g g' _
    obtain ⟨hterminated, hlag⟩ := acceptTokens_flags g tokens
    rw [haccept] at hterminated hlag
    rw [hterminated, hlag]
    unfold noteEos
    split
    · exact nofun
    · exact ih
  | rollback numTokens _ ih =>
    unfold GuidanceGrammar.rollback
    split
    · exact fun _ => rfl
    · exact ih

def strayEos (matcher : Matcher M) (eosToken : Token) (stack : List Token) : List Token → Bool
  | [] => false
  | token :: tokens =>
    if matcher.stopped stack || matcher.allows stack token then false
    else if token = eosToken then true
    else strayEos matcher eosToken stack tokens

def overrun (matcher : Matcher M) (eosToken : Token) : List Token → List Token → Bool
  | _, [] => false
  | stack, token :: tokens =>
    if token = eosToken then false
    else if matcher.stopped stack then true
    else overrun matcher eosToken (if matcher.allows stack token then token :: stack else stack) tokens

def restore (s : GuidanceGrammar M × Nat) : GuidanceGrammar M :=
  if 0 < s.2 then s.1.rollback s.2 else s.1

theorem foldl_offer_of_terminated (tokens : List Token) {s : GuidanceGrammar M × Nat}
    (h : s.1.terminated = true) : tokens.foldl offer s = s := by
  induction tokens with
  | nil => rfl
  | cons token tokens ih =>
    have hoffer : offer s token = s := if_pos h
    rw [foldl_cons, hoffer, ih]

theorem noteEos_matcher (g : GuidanceGrammar M) (tokens : List Token) :
    (g.noteEos tokens).matcher = g.matcher ∧ (g.noteEos tokens).stack = g.stack := by
  unfold noteEos
  split
  · exact ⟨rfl, rfl⟩
  · exact ⟨rfl, rfl⟩

/-- One draft that a running grammar is offered. -/
theorem offer_of_running (hrunning : g.terminated = false) (n : Nat) (token : Token) :
    offer (g, n) token =
      if g.matcher.stopped g.stack then (g.noteEos [token], n + 1)
      else if g.matcher.allows g.stack token then
        ({ g.noteEos [token] with stack := token :: g.stack }, n + 1)
      else (g.noteEos [token], n) := by
  obtain ⟨hmatcher, hstack⟩ := noteEos_matcher g [token]
  simp only [offer, isTerminated_eq, acceptTokens_eq, acceptTokens, hrunning, Bool.false_eq_true,
    if_false, hmatcher, hstack, Matcher.consume]
  by_cases hstopped : g.matcher.stopped g.stack = true
  · simp only [if_pos hstopped, if_true]
  simp only [if_neg hstopped]
  by_cases hallows : g.matcher.allows g.stack token = true
  · simp only [if_pos hallows, if_true]
  · simp only [if_neg hallows, Bool.false_eq_true, if_false]
    rw [← hstack, ← hmatcher]

/-- Rolling back gives the stack below what was pushed, less the drafts that were counted but not
pushed. -/
theorem restore_eq_iff {pushed base : List Token} {terminated : Bool} {lag n extra : Nat}
    (hpos : 0 < n) (hn : n - lag = pushed.length + extra) :
    restore (⟨matcher, eosToken, pushed ++ base, terminated, lag⟩, n) =
        ⟨matcher, eosToken, base, false, 0⟩ ↔ base = [] ∨ extra = 0 := by
  have hdrop : (pushed ++ base).drop (n - lag) = base.drop extra := by
    rw [hn, ← drop_drop, drop_left]
  rw [restore, if_pos hpos, rollback, if_pos hpos]
  simp only [hdrop, mk.injEq, true_and, and_true]
  constructor
  · intro hsame
    have hlen := congrArg length hsame
    rw [length_drop] at hlen
    rcases Nat.eq_zero_or_pos extra with hzero | hextra
    · exact .inr hzero
    · exact .inl (length_eq_zero_iff.mp (by omega))
  · rintro (rfl | rfl)
    · exact drop_nil
    · rfl

/-- The grammar as it was when nothing was pushed on `base` yet. -/
def below (g : GuidanceGrammar M) (base : List Token) : GuidanceGrammar M :=
  ⟨g.matcher, g.eosToken, base, false, 0⟩

/-- The end-of-sequence token: the grammar terminates, and no later draft changes it. -/
theorem restore_foldl_eos {n extra : Nat} {pushed base : List Token} {token : Token}
    (heos : token = g.eosToken) (hrunning : g.terminated = false) (hlag : g.rollbackLag = 0)
    (hstack : g.stack = pushed ++ base) (hn : n = pushed.length + extra) (tokens : List Token) :
    restore (tokens.foldl offer (offer (g, n) token)) = g.below base ↔
      (n = 0 → strayEos g.matcher g.eosToken g.stack (token :: tokens) = false) ∧
        (base = [] ∨
          extra = 0 ∧ overrun g.matcher g.eosToken g.stack (token :: tokens) = false) := by
  have hnote : g.noteEos [token] =
      { g with
        terminated := true
        rollbackLag := if g.matcher.stopped g.stack then 1 else 0 } := by
    rw [noteEos, if_pos (mem_singleton.mpr heos.symm), hrunning, hlag, Bool.not_false,
      Bool.and_true]
  rw [offer_of_running hrunning, hnote]
  simp only [strayEos, overrun, if_pos heos, and_true]
  obtain ⟨matcher, eosToken, stack, terminated, lag⟩ := g
  subst hrunning hlag hstack
  by_cases hstopped : matcher.stopped (pushed ++ base) = true
  · rw [if_pos hstopped, foldl_offer_of_terminated tokens rfl, hstopped]
    simp only [if_true, Bool.true_or, implies_true, true_and]
    exact @restore_eq_iff M matcher eosToken pushed base true 1 (n + 1) extra (Nat.succ_pos n)
      (by omega)
  · rw [if_neg hstopped]
    by_cases hallows : matcher.allows (pushed ++ base) token = true
    · rw [if_pos hallows, foldl_offer_of_terminated tokens rfl, hallows]
      simp only [if_neg hstopped, Bool.or_true, if_true, implies_true, true_and]
      exact @restore_eq_iff M matcher eosToken (token :: pushed) base true 0 (n + 1) extra
        (Nat.succ_pos n) (by rw [length_cons]; omega)
    · rw [if_neg hallows, foldl_offer_of_terminated tokens rfl]
      simp only [hstopped, hallows, Bool.or_false, Bool.false_eq_true, if_false,
        Bool.true_eq_false, imp_false]
      rcases Nat.eq_zero_or_pos n with hzero | hpos
      · have hterminated : ¬ restore (⟨matcher, eosToken, pushed ++ base, true, 0⟩, n) =
            below ⟨matcher, eosToken, pushed ++ base, false, 0⟩ base := by
          rw [hzero]
          intro h
          cases congrArg terminated h
        exact ⟨fun h => absurd h hterminated, fun h => absurd hzero h.1⟩
      · rw [and_iff_right (Nat.ne_of_gt hpos)]
        exact restore_eq_iff hpos hn

/-- A running grammar that pushed `pushed` on `base` and counted `extra` drafts more is offered
drafts and then rolled back. -/
theorem restore_foldl_offer (tokens : List Token) {g : GuidanceGrammar M} {n extra : Nat}
    {pushed base : List Token} (hrunning : g.terminated = false) (hlag : g.rollbackLag = 0)
    (hstack : g.stack = pushed ++ base) (hn : n = pushed.length + extra) :
    restore (tokens.foldl offer (g, n)) = g.below base ↔
      (n = 0 → strayEos g.matcher g.eosToken g.stack tokens = false) ∧
        (base = [] ∨ extra = 0 ∧ overrun g.matcher g.eosToken g.stack tokens = false) := by
  induction tokens generalizing g n extra pushed with
  | nil =>
    obtain ⟨matcher, eosToken, stack, terminated, lag⟩ := g
    subst hrunning hlag hstack
    simp only [strayEos, overrun, implies_true, true_and, and_true, foldl_nil]
    rcases Nat.eq_zero_or_pos n with hzero | hpos
    · obtain ⟨hpushed, hextra⟩ : pushed = [] ∧ extra = 0 :=
        ⟨length_eq_zero_iff.mp (by omega), by omega⟩
      subst hzero hpushed hextra
      exact ⟨fun _ => .inr rfl, fun _ => rfl⟩
    · exact restore_eq_iff hpos hn
  | cons token tokens ih =>
    rw [foldl_cons]
    by_cases heos : token = g.eosToken
    · exact restore_foldl_eos heos hrunning hlag hstack hn tokens
    have hnote : g.noteEos [token] = g := if_neg fun h => heos (mem_singleton.mp h).symm
    rw [offer_of_running hrunning, hnote, strayEos, overrun, if_neg heos, if_neg heos]
    by_cases hstopped : g.matcher.stopped g.stack = true
    · have hnext := @ih g (n + 1) (extra + 1) pushed hrunning hlag hstack (by omega)
      rw [if_pos hstopped, hstopped, hnext]
      simp
    · rw [if_neg hstopped, if_neg hstopped]
      by_cases hallows : g.matcher.allows g.stack token = true
      · have hnext := @ih { g with stack := token :: g.stack } (n + 1) extra (token :: pushed)
          hrunning hlag (congrArg (token :: ·) hstack) (by rw [length_cons]; omega)
        rw [hallows]
        refine hnext.trans ?_
        simp
      · rw [if_neg hallows, ih hrunning hlag hstack hn]
        rw [Bool.not_eq_true] at hstopped hallows
        rw [hstopped, hallows]
        rfl

end GuidanceGrammar
end
end Vllm.StructuredOutput
