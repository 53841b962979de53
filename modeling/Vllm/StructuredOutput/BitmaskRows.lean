import Vllm.StructuredOutput.Bitmask

/-! Each row of a request is the mask of its grammar after the drafts that precede the row and follow
the end of reasoning. -/
namespace Vllm.StructuredOutput
open List Grammar Option

section
variable {M G : Type} [Grammar M G]

/-- The grammar after some drafts, unless it rejects one. A grammar that has terminated takes no
more. -/
def advanceAll (g : G) : List Token → Option G
  | [] => some g
  | token :: tokens =>
    if isTerminated g then some g
    else
      match acceptTokens g [token] with
      | (true, g) => advanceAll g tokens
      | (false, _) => none

theorem advanceAll_of_isTerminated {g : G} (h : isTerminated g = true)
    (tokens : List Token) : advanceAll g tokens = some g := by
  cases tokens with
  | nil => rfl
  | cons token tokens => rw [advanceAll, if_pos h]

end

section
variable {M G : Type}

def firstEnd (ends : List Token → Token → Bool) : List Token → List Token → Option Nat
  | _, [] => none
  | history, token :: tokens =>
    if ends history token then some 0
    else (firstEnd ends (history ++ [token]) tokens).map (· + 1)

variable (answering : Bool) (end? : Option Nat)

/-- The drafts that precede `j` and belong to the answer; none in reasoning. -/
def answerBefore (drafts : List Token) (j : Nat) : Option (List Token) :=
  if answering then some (drafts.take j)
  else end?.bind fun e => if e < j then some ((drafts.take j).drop (e + 1)) else none

variable (ends : List Token → Token → Bool) (history : List Token) (token : Token)
  (tokens : List Token) (j : Nat)

theorem answerBefore_zero :
    answerBefore answering end? tokens 0 = if answering then some [] else none := by
  unfold answerBefore
  split
  · rw [take_zero]
  · cases end? with
    | none => rfl
    | some e => rfl

theorem answerBefore_answering : answerBefore true end? tokens j = some (tokens.take j) := rfl

theorem answerBefore_succ_end (h : ends history token = true) :
    answerBefore false (firstEnd ends history (token :: tokens)) (token :: tokens) (j + 1) =
      some (tokens.take j) := by
  rw [firstEnd, if_pos h]
  rfl

theorem answerBefore_succ (h : ¬ ends history token = true) :
    answerBefore false (firstEnd ends history (token :: tokens)) (token :: tokens) (j + 1) =
      answerBefore false (firstEnd ends (history ++ [token]) tokens) tokens j := by
  rw [firstEnd, if_neg h]
  simp only [answerBefore, Bool.false_eq_true, if_false]
  cases firstEnd ends (history ++ [token]) tokens with
  | none => rfl
  | some e =>
    simp only [map_some, bind_some, Nat.add_lt_add_iff_right, take_succ_cons, drop_succ_cons]

end

section
variable {M G : Type} [Grammar M G]

def RowRight (cfg : ManagerConfig M) (g : G) (answer : Option (List Token)) (row : M) : Prop :=
  match answer with
  | none => row = cfg.fullMask
  | some tokens => ∀ g', advanceAll g tokens = some g' →
      row = if isTerminated g' then cfg.fullMask else mask g'

theorem fillRow_right (cfg : ManagerConfig M) (g : G) (answering : Bool) :
    RowRight cfg g (if answering then some [] else none) (fillRow cfg g answering) := by
  cases answering with
  | false => rfl
  | true =>
    intro g' hg'
    cases hg'
    unfold fillRow
    cases isTerminated g with
    | false => rfl
    | true => rfl

variable {cfg : ManagerConfig M} {reasoner : Option Reasoner} {detect : Bool}
  {history tokens : List Token} {token : Token} {w w' : Window M G}

/-- A row that is right after one draft is right before it. -/
theorem draft_right (htoken : token ≠ -1)
    (h : w.draft cfg reasoner detect history token = .ok w') {j : Nat} {row : M}
    (hrow : RowRight cfg w'.grammar (answerBefore w'.applyBitmask
      (firstEnd (endsReasoning reasoner detect) (history ++ [token]) tokens) tokens j) row) :
    RowRight cfg w.grammar (answerBefore w.applyBitmask
      (firstEnd (endsReasoning reasoner detect) history (token :: tokens)) (token :: tokens)
      (j + 1)) row := by
  unfold Window.draft at h
  simp only [if_neg htoken] at h
  split at h
  · rename_i happly
    rw [happly, answerBefore_answering, take_succ_cons]
    unfold Window.advance at h
    simp only at h
    split at h
    · rename_i hterminated
      cases h
      rw [happly] at hrow
      simp only [RowRight, advanceAll_of_isTerminated hterminated] at hrow ⊢
      exact hrow
    · rename_i hrunning
      simp only [RowRight, advanceAll, if_neg hrunning]
      split at h
      · rename_i haccepted
        cases h
        rw [happly] at hrow
        generalize acceptTokens w.grammar [token] = accepted at haccepted hrow
        obtain ⟨accepted, g⟩ := accepted
        obtain rfl : accepted = true := haccepted
        exact hrow
      · rename_i hrejected
        generalize acceptTokens w.grammar [token] = accepted at hrejected
        obtain ⟨accepted, g⟩ := accepted
        obtain rfl : accepted = false := Bool.not_eq_true _ ▸ hrejected
        exact nofun
  · rename_i happly
    rw [Bool.not_eq_true] at happly
    rw [happly]
    split at h
    · rename_i hends
      cases h
      rw [answerBefore_succ_end _ _ _ _ _ hends]
      exact hrow
    · rename_i hends
      cases h
      rw [answerBefore_succ _ _ _ _ _ hends]
      rw [happly] at hrow
      exact hrow

theorem draft_rows (h : w.draft cfg reasoner detect history token = .ok w') :
    w'.rows = w.rows ++ [fillRow cfg w.grammar w.applyBitmask] ∧
      (token ≠ -1 → w.applyBitmask = true → w'.applyBitmask = true) := by
  unfold Window.draft at h
  simp only at h
  split at h
  · rename_i htoken
    cases h
    exact ⟨rfl, fun hne => absurd htoken hne⟩
  · split at h
    · rename_i happly
      unfold Window.advance at h
      simp only at h
      split at h
      · cases h
        exact ⟨rfl, fun _ _ => happly⟩
      split at h
      · cases h
        exact ⟨rfl, fun _ _ => happly⟩
      split at h
      · cases h
        exact ⟨rfl, fun _ _ => happly⟩
      · cases h
    · rename_i happly
      split at h
      · cases h
        exact ⟨rfl, fun _ _ => rfl⟩
      · cases h
        exact ⟨rfl, fun _ h => absurd h happly⟩

/-- What the loop leaves: a right row for each draft, and the next row is right as well. -/
structure LoopRows (cfg : ManagerConfig M) (ends : List Token → Token → Bool)
    (history tokens : List Token) (w w' : Window M G) (added : List M) : Prop where
  rows : w'.rows = w.rows ++ added
  length : added.length = tokens.length
  right : ∀ j row, (added ++ [fillRow cfg w'.grammar w'.applyBitmask])[j]? = some row →
    -1 ∉ tokens.take j → RowRight cfg w.grammar
      (answerBefore w.applyBitmask (firstEnd ends history tokens) tokens j) row
  applied : w.applyBitmask = true → -1 ∉ tokens → w'.applyBitmask = true

theorem drafts_rows (tokens : List Token)
    (h : w.drafts cfg reasoner detect history tokens = .ok w') :
    ∃ added, LoopRows cfg (endsReasoning reasoner detect) history tokens w w' added := by
  induction tokens generalizing w history with
  | nil =>
    cases h
    refine ⟨[], (append_nil _).symm, rfl, fun j row hrow _ => ?_, fun happly _ => happly⟩
    cases j with
    | succ j => cases hrow
    | zero =>
      cases hrow
      exact fillRow_right cfg w'.grammar w'.applyBitmask
  | cons token tokens ih =>
    rw [Window.drafts] at h
    split at h
    · cases h
    rename_i w₁ hdraft
    obtain ⟨hrows, happlied⟩ := draft_rows hdraft
    obtain ⟨added, hloop⟩ := ih h
    refine ⟨fillRow cfg w.grammar w.applyBitmask :: added, ?_, ?_, fun j row hrow hpad => ?_,
      fun happly hpad => ?_⟩
    · rw [hloop.rows, hrows, append_assoc]
      rfl
    · rw [length_cons, hloop.length, length_cons]
    · cases j with
      | zero =>
        cases hrow
        rw [answerBefore_zero]
        exact fillRow_right cfg w.grammar w.applyBitmask
      | succ j =>
        rw [take_succ_cons, mem_cons, not_or] at hpad
        exact draft_right (Ne.symm hpad.1) hdraft (hloop.right j row hrow hpad.2)
    · rw [mem_cons, not_or] at hpad
      exact hloop.applied (happlied (Ne.symm hpad.1) happly) hpad.2

end
end Vllm.StructuredOutput
