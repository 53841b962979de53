import Mathlib

/-! Occurrences of a sequence in another, found from the left and told apart by where they
end. -/
namespace Vllm.TextSearch
open List

variable {α : Type} [DecidableEq α]

/-- The index of the first occurrence of `sub` that starts at `start` or later. -/
def find (text sub : List α) (start : Nat) : Option Nat :=
  (range (text.length + 1)).find? fun i => decide (start ≤ i) && sub.isPrefixOf (text.drop i)

/-- An occurrence of `sub` that ends at `e`, behind `lo`. -/
structure CompletedAt (text : List α) (lo : Nat) (sub : List α) (e : Nat) : Prop where
  behind : lo < e
  within : e ≤ text.length
  suffix : sub <:+ text.take e

/-- The occurrence of `sub` that ends first behind `lo`. -/
structure FirstAt (text : List α) (lo : Nat) (sub : List α) (e : Nat) : Prop
    extends CompletedAt text lo sub e where
  first : ∀ e', CompletedAt text lo sub e' → e ≤ e'

variable {text sub : List α} {lo start i e e' : Nat}

omit [DecidableEq α] in
theorem CompletedAt.length_le (h : CompletedAt text lo sub e) : sub.length ≤ e := by
  have hlen := h.suffix.length_le
  rw [length_take] at hlen
  exact hlen.trans (Nat.min_le_left _ _)

omit [DecidableEq α] in
theorem FirstAt.unique (h : FirstAt text lo sub e) (h' : FirstAt text lo sub e') : e = e' :=
  Nat.le_antisymm (h.first e' h'.toCompletedAt) (h'.first e h.toCompletedAt)

omit [DecidableEq α] in
theorem CompletedAt.exists_first (h : CompletedAt text lo sub e) : ∃ e, FirstAt text lo sub e := by
  classical
  have hex : ∃ e, CompletedAt text lo sub e := ⟨e, h⟩
  exact ⟨Nat.find hex, Nat.find_spec hex, fun _ h' => Nat.find_min' hex h'⟩

omit [DecidableEq α] in
/-- The occurrences in a prefix of a text are those that end in it. -/
theorem completedAt_prefix_iff {front : List α} (h : front <+: text) :
    CompletedAt front lo sub e ↔ CompletedAt text lo sub e ∧ e ≤ front.length := by
  have htake : e ≤ front.length → front.take e = text.take e := by
    intro he
    obtain ⟨rest, rfl⟩ := h
    rw [take_append_of_le_length he]
  constructor
  · intro hfront
    refine ⟨⟨hfront.behind, hfront.within.trans h.length_le, ?_⟩, hfront.within⟩
    rw [← htake hfront.within]
    exact hfront.suffix
  · rintro ⟨htext, he⟩
    refine ⟨htext.behind, he, ?_⟩
    rw [htake he]
    exact htext.suffix

omit [DecidableEq α] in
/-- An occurrence that starts at `i` ends `sub.length` behind it. -/
theorem isPrefix_drop_iff :
    (sub <+: text.drop i ∧ i ≤ text.length) ↔
      (i + sub.length ≤ text.length ∧ sub <:+ text.take (i + sub.length)) := by
  constructor
  · rintro ⟨⟨tail, htail⟩, hi⟩
    have hlen : i + sub.length ≤ text.length := by
      have hdrop := congrArg length htail
      rw [length_append, length_drop] at hdrop
      omega
    refine ⟨hlen, text.take i, ?_⟩
    have htake : text.take (i + sub.length) = text.take i ++ (text.drop i).take sub.length :=
      take_add
    rw [htake, ← htail, take_left']
    rfl
  · rintro ⟨hlen, head, hhead⟩
    have hheadlen : head.length = i := by
      have hl := congrArg length hhead
      rw [length_append, length_take, Nat.min_eq_left hlen] at hl
      omega
    refine ⟨⟨text.drop (i + sub.length), ?_⟩, by omega⟩
    have hsplit : text = (head ++ sub) ++ text.drop (i + sub.length) := by
      rw [hhead, take_append_drop]
    conv_rhs => rw [hsplit]
    rw [append_assoc, ← hheadlen, drop_left]

theorem find_eq_some_iff :
    find text sub start = some i ↔
      (start ≤ i ∧ i + sub.length ≤ text.length ∧ sub <:+ text.take (i + sub.length)) ∧
        ∀ j < i, ¬ (start ≤ j ∧ j + sub.length ≤ text.length ∧
          sub <:+ text.take (j + sub.length)) := by
  have hmatch : ∀ j, ((decide (start ≤ j) && sub.isPrefixOf (text.drop j)) = true ∧
      j ≤ text.length) ↔
      (start ≤ j ∧ j + sub.length ≤ text.length ∧ sub <:+ text.take (j + sub.length)) := by
    intro j
    rw [Bool.and_eq_true, decide_eq_true_eq, isPrefixOf_iff_prefix, and_assoc, isPrefix_drop_iff]
  unfold find
  rw [find?_range_eq_some]
  constructor
  · rintro ⟨hi, hrange, hbefore⟩
    have hle : i ≤ text.length := Nat.lt_succ_iff.mp (mem_range.mp hrange)
    refine ⟨(hmatch i).mp ⟨hi, hle⟩, fun j hj hmatch' => ?_⟩
    have hno := hbefore j hj
    rw [((hmatch j).mpr hmatch').1] at hno
    cases hno
  · rintro ⟨hi, hbefore⟩
    obtain ⟨htrue, hle⟩ := (hmatch i).mpr hi
    refine ⟨htrue, mem_range.mpr (Nat.lt_succ_of_le hle), fun j hj => ?_⟩
    have hno := mt (hmatch j).mp (hbefore j hj)
    rw [Bool.not_eq_true']
    exact Bool.eq_false_iff.mpr fun htrue => hno ⟨htrue, by omega⟩

/-- The search from the first place where an occurrence can end behind `lo` finds the one that
ends first. -/
theorem find_eq_some_iff_firstAt (hstart : start = lo + 1 - sub.length) :
    find text sub start = some i ↔ FirstAt text lo sub (i + sub.length) := by
  rw [find_eq_some_iff]
  have hplace : ∀ j, start ≤ j ↔ lo < j + sub.length := by
    omega
  constructor
  · rintro ⟨⟨hlo, hlen, hsuffix⟩, hbefore⟩
    refine ⟨⟨(hplace i).mp hlo, hlen, hsuffix⟩, fun e' h' => ?_⟩
    by_contra hlt
    have hsub := h'.length_le
    have heq : e' - sub.length + sub.length = e' := Nat.sub_add_cancel hsub
    refine hbefore (e' - sub.length) (by omega) ⟨(hplace _).mpr ?_, ?_, ?_⟩
    · rw [heq]
      exact h'.behind
    · rw [heq]
      exact h'.within
    · rw [heq]
      exact h'.suffix
  · intro h
    refine ⟨⟨(hplace i).mpr h.behind, h.within, h.suffix⟩, ?_⟩
    rintro j hj ⟨hlo, hlen, hsuffix⟩
    have hle := h.first _ ⟨(hplace j).mp hlo, hlen, hsuffix⟩
    omega

theorem find_eq_none_iff (hstart : start = lo + 1 - sub.length) :
    find text sub start = none ↔ ∀ e, ¬ CompletedAt text lo sub e := by
  constructor
  · intro hnone e h
    obtain ⟨e₁, hfirst⟩ := h.exists_first
    have heq : e₁ - sub.length + sub.length = e₁ :=
      Nat.sub_add_cancel hfirst.toCompletedAt.length_le
    have hsome := (find_eq_some_iff_firstAt hstart).mpr (heq.symm ▸ hfirst)
    rw [hnone] at hsome
    cases hsome
  · intro hno
    cases hfind : find text sub start with
    | none => rfl
    | some i => exact absurd ((find_eq_some_iff_firstAt hstart).mp hfind).toCompletedAt (hno _)

end Vllm.TextSearch
