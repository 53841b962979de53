import Mathlib

/-! The delimited reasoning parser: what it holds back between two pushes, and why its split of the
text does not depend on where the text is cut. -/
namespace Vllm.Reasoning
open List

/-- The two delimiters of a protocol. -/
structure Delimiters where
  startToken : List Char
  endToken : List Char
  start_ne : startToken ≠ []
  end_ne : endToken ≠ []

/-- The delimiter that is looked for inside and outside of a reasoning section. -/
def Delimiters.token (d : Delimiters) (inReasoning : Bool) : List Char :=
  if inReasoning then d.endToken else d.startToken

theorem Delimiters.token_ne (d : Delimiters) (inReasoning : Bool) : d.token inReasoning ≠ [] := by
  cases inReasoning
  · exact d.start_ne
  · exact d.end_ne

/-- What one call hands out; a portion that was not created is empty. -/
structure ReasoningDelta where
  reasoning : List Char
  content : List Char
  deriving DecidableEq, Repr

namespace ReasoningDelta

def of (inReasoning : Bool) (text : List Char) : ReasoningDelta :=
  if inReasoning then ⟨text, []⟩ else ⟨[], text⟩

instance : Append ReasoningDelta where
  append a b := ⟨a.reasoning ++ b.reasoning, a.content ++ b.content⟩

theorem append_assoc (a b c : ReasoningDelta) : a ++ b ++ c = a ++ (b ++ c) :=
  congrArg₂ mk (List.append_assoc ..) (List.append_assoc ..)

theorem of_append (inReasoning : Bool) (front back : List Char) :
    of inReasoning (front ++ back) = of inReasoning front ++ of inReasoning back := by
  cases inReasoning <;> rfl

end ReasoningDelta

/-- The text before and behind the first occurrence of a token. -/
def splitOnce (token : List Char) : List Char → Option (List Char × List Char)
  | [] => if token = [] then some ([], []) else none
  | c :: text =>
    if token.isPrefixOf (c :: text) then some ([], (c :: text).drop token.length)
    else (splitOnce token text).map fun (before, behind) => (c :: before, behind)

theorem splitOnce_eq {token text before behind : List Char}
    (h : splitOnce token text = some (before, behind)) : text = before ++ token ++ behind := by
  induction text generalizing before with
  | nil =>
    rw [splitOnce] at h
    split at h
    · rename_i htoken
      cases h
      rw [htoken]
      rfl
    · cases h
  | cons c text ih =>
    rw [splitOnce] at h
    split at h
    · rename_i hprefix
      obtain ⟨tail, htail⟩ := isPrefixOf_iff_prefix.mp hprefix
      cases h
      rw [← htail, nil_append, drop_left]
    · obtain ⟨⟨before', behind'⟩, hsplit, heq⟩ := Option.map_eq_some_iff.mp h
      cases heq
      rw [ih hsplit]
      rfl

/-- The token does not occur before its first occurrence. -/
theorem splitOnce_free {token : List Char} (hne : token ≠ []) (text : List Char) :
    ¬ token <:+: (splitOnce token text).elim text (·.1) := by
  have hnil : ¬ token <:+: [] := fun h => hne (infix_nil.mp h)
  induction text with
  | nil =>
    rw [splitOnce, if_neg hne]
    exact hnil
  | cons c text ih =>
    rw [splitOnce]
    split
    · exact hnil
    rename_i hfalse
    have hprefix := mt isPrefixOf_iff_prefix.mpr hfalse
    cases hsplit : splitOnce token text with
    | none =>
      rw [hsplit] at ih
      exact fun h => (infix_cons_iff.mp h).elim hprefix ih
    | some split =>
      rw [hsplit] at ih
      refine fun h => (infix_cons_iff.mp h).elim (fun hbefore => hprefix (hbefore.trans ?_)) ih
      rw [splitOnce_eq hsplit, List.append_assoc]
      exact prefix_append (c :: split.1) _

theorem Delimiters.behind_lt {d : Delimiters} {inReasoning : Bool} {text before behind : List Char}
    (h : splitOnce (d.token inReasoning) text = some (before, behind)) :
    behind.length < text.length := by
  have hpos := length_pos_iff.mpr (d.token_ne inReasoning)
  rw [splitOnce_eq h, length_append, length_append]
  omega

/-- The loop of `parse_stable_text`, with the state it leaves. -/
def parseStableText (d : Delimiters) (inReasoning : Bool) (stable : List Char) :
    Bool × ReasoningDelta :=
  match _hsplit : splitOnce (d.token inReasoning) stable with
  | some (before, behind) =>
    let rest := parseStableText d (!inReasoning) behind
    (rest.1, .of inReasoning before ++ rest.2)
  | none => (inReasoning, .of inReasoning stable)
termination_by stable.length
decreasing_by exact Delimiters.behind_lt ‹_›

/-- A text that a delimiter starts with and goes on from. -/
def Delimiters.isPartial (d : Delimiters) (text : List Char) : Bool :=
  (text.isPrefixOf d.startToken && d.startToken != text) ||
    (text.isPrefixOf d.endToken && d.endToken != text)

/-- The longest trailing suffix that could still complete a delimiter. -/
def Delimiters.partialSuffixLen (d : Delimiters) (text : List Char) : Nat :=
  (Finset.range text.length).sup fun idx =>
    if d.isPartial (text.drop idx) then text.length - idx else 0

structure DelimitedReasoningParser where
  delimiters : Delimiters
  currentInReasoning : Bool
  buffer : List Char

namespace DelimitedReasoningParser

def push (p : DelimitedReasoningParser) (delta : List Char) :
    DelimitedReasoningParser × ReasoningDelta :=
  let buffer := p.buffer ++ delta
  let stableLen := buffer.length - p.delimiters.partialSuffixLen buffer
  let (inReasoning, out) :=
    parseStableText p.delimiters p.currentInReasoning (buffer.take stableLen)
  ({ p with currentInReasoning := inReasoning, buffer := buffer.drop stableLen }, out)

def finish (p : DelimitedReasoningParser) : DelimitedReasoningParser × ReasoningDelta :=
  let (inReasoning, out) := parseStableText p.delimiters p.currentInReasoning p.buffer
  ({ p with currentInReasoning := inReasoning, buffer := [] }, out)

/-- The concatenated texts of the pushes and of the `finish` behind them. -/
def stream (p : DelimitedReasoningParser) : List (List Char) → ReasoningDelta
  | [] => p.finish.2
  | delta :: deltas => (p.push delta).2 ++ (p.push delta).1.stream deltas

end DelimitedReasoningParser

/-- No proper suffix of a delimiter, other than the empty one, starts a delimiter. -/
def Delimiters.NoOverlap (d : Delimiters) : Prop :=
  ∀ b b', ∀ suffix ∈ (d.token b).tails, suffix ≠ d.token b → suffix <+: d.token b' → suffix = []

instance (d : Delimiters) : Decidable d.NoOverlap :=
  inferInstanceAs (Decidable (∀ _ _, _))

/-- The text is made of pieces that alternate with the delimiters, and the two portions hold the
pieces in order. The delimiter that is looked for does not occur in a piece. -/
inductive Accounts (d : Delimiters) : Bool → List Char → ReasoningDelta → Prop
  | last (inReasoning : Bool) (piece : List Char) : ¬ d.token inReasoning <:+: piece →
      Accounts d inReasoning piece (.of inReasoning piece)
  | next (inReasoning : Bool) (piece : List Char) {text : List Char} {delta : ReasoningDelta} :
      ¬ d.token inReasoning <:+: piece → Accounts d (!inReasoning) text delta →
      Accounts d inReasoning (piece ++ d.token inReasoning ++ text) (.of inReasoning piece ++ delta)

/-- No delimiter lies across the border of the two texts. -/
def Delimiters.Apart (d : Delimiters) (front back : List Char) : Prop :=
  ∀ b left right, d.token b = left ++ right → left ≠ [] → right ≠ [] → left <:+ front →
    ¬ right <+: back

variable {d : Delimiters} {inReasoning : Bool} {front back text : List Char}

theorem parseStableText_some {before behind : List Char}
    (h : splitOnce (d.token inReasoning) text = some (before, behind)) :
    parseStableText d inReasoning text = ((parseStableText d (!inReasoning) behind).1,
      .of inReasoning before ++ (parseStableText d (!inReasoning) behind).2) := by
  rw [parseStableText]
  split
  · rename_i hsplit
    cases h.symm.trans hsplit
    rfl
  · rename_i hsplit
    cases h.symm.trans hsplit

theorem parseStableText_none (h : splitOnce (d.token inReasoning) text = none) :
    parseStableText d inReasoning text = (inReasoning, .of inReasoning text) := by
  rw [parseStableText]
  split
  · rename_i hsplit
    cases h.symm.trans hsplit
  · rfl

theorem parseStableText_accounts (d : Delimiters) (inReasoning : Bool) (text : List Char) :
    Accounts d inReasoning text (parseStableText d inReasoning text).2 := by
  fun_induction parseStableText d inReasoning text with
  | case1 inReasoning stable before behind hsplit rest ih =>
    have hfree := splitOnce_free (d.token_ne inReasoning) stable
    rw [hsplit] at hfree
    have hnext := Accounts.next inReasoning before hfree ih
    rwa [← splitOnce_eq hsplit] at hnext
  | case2 inReasoning stable hsplit =>
    have hfree := splitOnce_free (d.token_ne inReasoning) stable
    rw [hsplit] at hfree
    exact .last inReasoning stable hfree

theorem Delimiters.Apart.suffix {front' : List Char} (h : d.Apart front back)
    (hsuffix : front' <:+ front) : d.Apart front' back :=
  fun b left right htoken hleft hright hend =>
    h b left right htoken hleft hright (hend.trans hsuffix)

theorem splitOnce_append (inReasoning : Bool) (h : d.Apart front back) :
    splitOnce (d.token inReasoning) (front ++ back) =
      match splitOnce (d.token inReasoning) front with
      | some (before, behind) => some (before, behind ++ back)
      | none => (splitOnce (d.token inReasoning) back).map fun (before, behind) =>
        (front ++ before, behind) := by
  have hne := d.token_ne inReasoning
  induction front with
  | nil =>
    rw [splitOnce, if_neg hne]
    exact Option.map_id'.symm
  | cons c front ih =>
    rw [cons_append, splitOnce, splitOnce]
    by_cases hfront : (d.token inReasoning).isPrefixOf (c :: front)
    · obtain ⟨tail, htail⟩ := isPrefixOf_iff_prefix.mp hfront
      rw [if_pos hfront, if_pos, ← cons_append, ← htail, List.append_assoc, drop_left, drop_left]
      exact isPrefixOf_iff_prefix.mpr ⟨tail ++ back, by rw [← List.append_assoc, htail]; rfl⟩
    -- an occurrence that only the whole text has lies across the border
    have hwhole : ¬ (d.token inReasoning).isPrefixOf (c :: (front ++ back)) := by
      intro hprefix
      have hprefix : _ <+: (c :: front) ++ back := isPrefixOf_iff_prefix.mp hprefix
      rcases prefix_or_prefix_of_prefix hprefix (prefix_append (c :: front) back) with
        hleft | ⟨right, hright⟩
      · exact hfront <| isPrefixOf_iff_prefix.mpr hleft
      rw [← hright, prefix_append_right_inj] at hprefix
      refine h inReasoning (c :: front) right hright.symm (cons_ne_nil _ _) ?_ suffix_rfl hprefix
      rintro rfl
      rw [append_nil] at hright
      exact hfront <| isPrefixOf_iff_prefix.mpr (hright ▸ prefix_rfl)
    rw [if_neg hfront, if_neg hwhole, ih (h.suffix (suffix_cons c front))]
    cases splitOnce (d.token inReasoning) front with
    | some split => rfl
    | none => cases splitOnce (d.token inReasoning) back <;> rfl

theorem parseStableText_append (inReasoning : Bool) (h : d.Apart front back) :
    parseStableText d inReasoning (front ++ back) =
      ((parseStableText d (parseStableText d inReasoning front).1 back).1,
        (parseStableText d inReasoning front).2 ++
          (parseStableText d (parseStableText d inReasoning front).1 back).2) := by
  fun_induction parseStableText d inReasoning front with
  | case1 inReasoning front before behind hsplit rest ih =>
    have hbehind : behind <:+ front := ⟨_, (splitOnce_eq hsplit).symm⟩
    have hwhole := splitOnce_append inReasoning h
    rw [hsplit] at hwhole
    rw [parseStableText_some hwhole, ih (h.suffix hbehind), ReasoningDelta.append_assoc]
  | case2 inReasoning front hsplit =>
    have hwhole := splitOnce_append inReasoning h
    rw [hsplit] at hwhole
    cases hback : splitOnce (d.token inReasoning) back with
    | none =>
      rw [hback] at hwhole
      rw [parseStableText_none hwhole, parseStableText_none hback, ReasoningDelta.of_append]
    | some split =>
      rw [hback] at hwhole
      rw [parseStableText_some hwhole, parseStableText_some hback, ReasoningDelta.of_append,
        ReasoningDelta.append_assoc]

theorem isPartial_iff : d.isPartial text ↔ ∃ b, text <+: d.token b ∧ d.token b ≠ text := by
  simp [Delimiters.isPartial, Delimiters.token]

theorem le_partialSuffixLen {suffix : List Char} (hsuffix : suffix <:+ text) (hne : suffix ≠ [])
    (h : d.isPartial suffix) : suffix.length ≤ d.partialSuffixLen text := by
  have hle := hsuffix.length_le
  have hpos := length_pos_iff.mpr hne
  have hsup := Finset.le_sup (f := fun idx =>
    if d.isPartial (text.drop idx) then text.length - idx else 0)
    (Finset.mem_range.mpr (by omega : text.length - suffix.length < text.length))
  rw [← suffix_iff_eq_drop.mp hsuffix, if_pos h, Nat.sub_sub_self hle] at hsup
  exact hsup

theorem isPartial_drop_partialSuffixLen (hne : d.partialSuffixLen text ≠ 0) :
    d.isPartial (text.drop (text.length - d.partialSuffixLen text)) := by
  have htext : (Finset.range text.length).Nonempty := by
    rw [Finset.nonempty_range_iff]
    intro hzero
    rw [Delimiters.partialSuffixLen, hzero] at hne
    exact hne rfl
  obtain ⟨idx, hidx, hsup⟩ := Finset.exists_mem_eq_sup _ htext fun idx =>
    if d.isPartial (text.drop idx) then text.length - idx else 0
  rw [Delimiters.partialSuffixLen, hsup] at hne ⊢
  split at hne
  · rename_i h
    rwa [if_pos h, Nat.sub_sub_self (Finset.mem_range.mp hidx).le]
  · exact absurd rfl hne

/-- What is held back starts a delimiter, and no longer end of the text does. -/
theorem partialSuffixLen_apart (h : d.NoOverlap) (text back : List Char) :
    d.Apart (text.take (text.length - d.partialSuffixLen text))
      (text.drop (text.length - d.partialSuffixLen text) ++ back) := by
  intro b left right htoken hleft hright hend hprefix
  generalize hpending : text.drop (text.length - d.partialSuffixLen text) = pending at hprefix
  have hlength : pending.length = text.length - (text.length - d.partialSuffixLen text) := by
    rw [← hpending, length_drop]
  have hpos := length_pos_iff.mpr hleft
  by_cases hinside : right <+: pending
  -- the delimiter ends in what is held back, which starts one itself
  · have hne : d.partialSuffixLen text ≠ 0 := by
      have hle := hinside.length_le
      have hone := length_pos_iff.mpr hright
      omega
    obtain ⟨b', hstarts, -⟩ := isPartial_iff.mp (hpending ▸ isPartial_drop_partialSuffixLen hne)
    refine hright (h b b' right ((mem_tails _ _).mpr ⟨left, htoken.symm⟩) ?_
      (hinside.trans hstarts))
    intro heq
    have hlen := congrArg List.length htoken
    rw [← heq, length_append] at hlen
    omega
  have hacross : pending <+: right := by
    have hpart := prefix_or_prefix_of_prefix hprefix (prefix_append pending back)
    exact hpart.resolve_left hinside
  -- the delimiter goes on behind the text: a longer end of it should have been held back
  · have hsuffix : left ++ pending <:+ text := by
      obtain ⟨head, hhead⟩ := hend
      refine ⟨head, ?_⟩
      rw [← List.append_assoc, hhead, ← hpending, take_append_drop]
    have hle := hsuffix.length_le
    have hlonger := le_partialSuffixLen (d := d) hsuffix (append_ne_nil_of_left_ne_nil hleft _)
      (isPartial_iff.mpr ⟨b, ?_, ?_⟩)
    · rw [length_append] at hle hlonger
      omega
    · rw [htoken]
      exact (prefix_append_right_inj left).mpr hacross
    · rw [htoken]
      exact fun heq => hinside (append_cancel_left heq ▸ prefix_rfl)

theorem stream_eq (h : d.NoOverlap) (cuts : List (List Char)) (buffer : List Char) :
    DelimitedReasoningParser.stream ⟨d, inReasoning, buffer⟩ cuts =
      (parseStableText d inReasoning (buffer ++ cuts.flatten)).2 := by
  induction cuts generalizing inReasoning buffer with
  | nil =>
    rw [flatten_nil, append_nil]
    rfl
  | cons delta cuts ih =>
    have hapart := partialSuffixLen_apart h (buffer ++ delta) cuts.flatten
    have hwhole := parseStableText_append inReasoning hapart
    rw [← List.append_assoc, take_append_drop] at hwhole
    rw [flatten_cons, ← List.append_assoc, hwhole]
    exact congrArg _ (ih _)

/-- The two portions do not depend on the cuts, and account for the text. -/
theorem stream_chunk_invariant (d : Delimiters) (h : d.NoOverlap) (inReasoning : Bool)
    (cuts : List (List Char)) :
    DelimitedReasoningParser.stream ⟨d, inReasoning, []⟩ cuts =
        DelimitedReasoningParser.stream ⟨d, inReasoning, []⟩ [cuts.flatten] ∧
      Accounts d inReasoning cuts.flatten
        (DelimitedReasoningParser.stream ⟨d, inReasoning, []⟩ cuts) := by
  rw [stream_eq h, stream_eq h, flatten_singleton]
  exact ⟨rfl, parseStableText_accounts d inReasoning _⟩

def think : Delimiters where
  startToken := "<think>".toList
  endToken := "</think>".toList
  start_ne := by decide
  end_ne := by decide

theorem stream_chunk_invariant_think :
    think.NoOverlap ∧
      DelimitedReasoningParser.stream ⟨think, false, []⟩ ["a<th".toList, "ink>b".toList] =
        DelimitedReasoningParser.stream ⟨think, false, []⟩ ["a<think>b".toList] :=
  ⟨by decide, (stream_chunk_invariant think (by decide) false _).1⟩

end Vllm.Reasoning
