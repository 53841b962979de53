import Vllm.Output.Detokenizer

/-! Stop strings and the grouping of tokens into calls of `update`: where the text is cut, and
when that is where it is cut if the tokens come one at a time. -/
namespace Vllm.Output
open TextSearch List

/-- The text up to a stop string that ends at `e`. -/
def cutText (includeInOutput : Bool) (text stopStr : Text) (e : Nat) : Text :=
  if includeInOutput then text.take e else text.take (e - stopStr.length)

/-! ### One check -/

section
variable {text stopStr : Text} {stop : List Text} {lo : Nat} {incl : Bool}

theorem Text.find_new (hlo : lo < text.length) (hne : stopStr ≠ []) :
    find text stopStr (1 - ((text.length - lo : Nat) : Int) - stopStr.length) =
      TextSearch.find text stopStr (lo + 1 - stopStr.length) := by
  have hpos := length_pos_iff.mpr hne
  rw [find, if_neg (by omega)]
  congr 1
  unfold PySeq.sliceBound
  rw [if_pos (by omega)]
  omega

/-- The first listed stop string that ends in the searched part. -/
structure ListedFirst (stop : List Text) (text : Text) (lo : Nat) (stopStr : Text) (e : Nat) :
    Prop where
  listed : ∃ before after, stop = before ++ stopStr :: after ∧
    ∀ s ∈ before, ∀ e', ¬ CompletedAt text lo s e'
  first : FirstAt text lo stopStr e

/-- The cut of `check_stop_strings`, applied to the text. -/
def truncate (text : Text) : Option Nat → Text
  | none => text
  | some n => text.take n

theorem checkStopString_spec (incl : Bool) (hlo : lo < text.length) (hne : stopStr ≠ []) :
    (checkStopString text (text.length - lo) incl stopStr = none ∧
        ∀ e, ¬ CompletedAt text lo stopStr e) ∨
      ∃ e cut, checkStopString text (text.length - lo) incl stopStr = some (stopStr, cut) ∧
        FirstAt text lo stopStr e ∧ truncate text cut = cutText incl text stopStr e := by
  unfold checkStopString
  have hfind := Text.find_new hlo hne
  cases hsub : find text stopStr (lo + 1 - stopStr.length) with
  | none =>
    rw [hsub] at hfind
    refine .inl ⟨?_, (find_eq_none_iff rfl).mp hsub⟩
    rw [hfind]
  | some i =>
    rw [hsub] at hfind
    have hfirst := (find_eq_some_iff_firstAt rfl).mp hsub
    rw [hfind]
    cases incl with
    | false =>
      refine .inr ⟨_, some i, rfl, hfirst, ?_⟩
      simp [truncate, cutText]
    | true =>
      by_cases hend : text.length ≤ i + stopStr.length
      · refine .inr ⟨_, none, by simp [hend], hfirst, ?_⟩
        simp [truncate, cutText, take_of_length_le hend]
      · refine .inr ⟨_, some (i + stopStr.length), by simp [hend], hfirst, ?_⟩
        simp [truncate, cutText]

theorem not_completedAt_of_le (hlo : text.length ≤ lo) (s : Text) (e : Nat) :
    ¬ CompletedAt text lo s e := fun h => by
  have hbehind := h.behind
  have hwithin := h.within
  omega

theorem checkStopStrings_spec (text : Text) (lo : Nat) (incl : Bool) (hstop : ∀ s ∈ stop, s ≠ []) :
    (checkStopStrings text (text.length - lo) stop incl = none ∧
        ∀ s ∈ stop, ∀ e, ¬ CompletedAt text lo s e) ∨
      ∃ s e cut, checkStopStrings text (text.length - lo) stop incl = some (s, cut) ∧
        ListedFirst stop text lo s e ∧ truncate text cut = cutText incl text s e := by
  unfold checkStopStrings
  by_cases hskip : text.length - lo = 0 ∨ stop = []
  · refine .inl ⟨if_pos hskip, fun s hs e => ?_⟩
    rcases hskip with hzero | hnil
    · exact not_completedAt_of_le (by omega) s e
    · rw [hnil] at hs
      cases hs
  · rw [if_neg hskip]
    push Not at hskip
    have hlo : lo < text.length := by omega
    have hspec := fun s (hs : s ∈ stop) => checkStopString_spec incl hlo (hstop s hs)
    generalize hloop : stop.findSome? (checkStopString text (text.length - lo) incl) = result
    cases result with
    | none =>
      refine .inl ⟨rfl, fun s hs => ?_⟩
      have hnone := findSome?_eq_none_iff.mp hloop s hs
      rcases hspec s hs with ⟨-, hno⟩ | ⟨e, cut, hsome, -⟩
      · exact hno
      · rw [hnone] at hsome
        cases hsome
    | some found =>
      obtain ⟨before, s, after, hsplit, hfound, hbefore⟩ := findSome?_eq_some_iff.mp hloop
      have hmem : s ∈ stop := hsplit ▸ mem_append_right _ mem_cons_self
      rcases hspec s hmem with ⟨hnone, -⟩ | ⟨e, cut, hsome, hfirst, hcut⟩
      · rw [hfound] at hnone
        cases hnone
      rw [hfound] at hsome
      refine .inr ⟨s, e, cut, hsome, ⟨⟨before, after, hsplit, fun s' hs' e' => ?_⟩, hfirst⟩, hcut⟩
      have hmem' : s' ∈ stop := hsplit ▸ mem_append_left _ hs'
      have hnone := hbefore s' hs'
      rcases hspec s' hmem' with ⟨-, hno⟩ | ⟨e, cut, hsome', -⟩
      · exact hno e'
      · rw [hnone] at hsome'
        cases hsome'

end

/-! ### One call of `update` -/

namespace DetokState

variable {σ : Type} {dec : Decoder σ} {p : DetokenizerParams} {d : DetokState σ}

theorem evaluateStop_spec (hstop : ∀ s ∈ p.stop, s ≠ []) {offset : Nat}
    (hmin : p.minTokens < d.numOutputTokens p ∨ d.outputText.length ≤ offset) :
    (evaluateStop p d offset = (none, d) ∧
        ∀ s ∈ p.stop, ∀ e, ¬ CompletedAt d.outputText offset s e) ∨
      ∃ s e, ListedFirst p.stop d.outputText offset s e ∧
        evaluateStop p d offset =
          (some s, { d with outputText := cutText p.includeStopStrInOutput d.outputText s e }) := by
  unfold evaluateStop
  by_cases hcheck : p.stop ≠ [] ∧ p.minTokens < d.numOutputTokens p
  · rw [if_pos hcheck]
    rcases checkStopStrings_spec d.outputText offset p.includeStopStrInOutput hstop with
      ⟨hnone, hno⟩ | ⟨s, e, cut, hsome, hfirst, hcut⟩
    · rw [hnone]
      exact .inl ⟨rfl, hno⟩
    · rw [hsome]
      refine .inr ⟨s, e, hfirst, ?_⟩
      rw [← hcut]
      cases cut with
      | none => rfl
      | some n => rfl
  · rw [if_neg hcheck]
    refine .inl ⟨rfl, fun s hs e => ?_⟩
    rcases hmin with hmin | hle
    · exact absurd ⟨ne_nil_of_mem hs, hmin⟩ hcheck
    · exact not_completedAt_of_le hle s e

theorem shownTokens_isPrefix (tokens : List TokenId) (stopTerminated : Bool) :
    shownTokens p tokens stopTerminated <+: tokens := by
  unfold shownTokens
  split
  · exact dropLast_prefix tokens
  · exact prefix_rfl

theorem shownTokens_append_drop (tokens : List TokenId) (stopTerminated : Bool) :
    shownTokens p tokens stopTerminated ++
      tokens.drop (shownTokens p tokens stopTerminated).length = tokens :=
  prefix_iff_eq_append.mp (shownTokens_isPrefix tokens stopTerminated)

/-- The end of the text of the first `min_tokens` tokens. -/
def stopBound (dec : Decoder σ) (p : DetokenizerParams) (d : DetokState σ)
    (tokens : List TokenId) : Nat :=
  (d.decodeAll dec (tokens.take (p.minTokens - d.numOutputTokens p))).outputText.length

def shown (dec : Decoder σ) (p : DetokenizerParams) (d : DetokState σ) (tokens : List TokenId)
    (stopTerminated : Bool) : DetokState σ :=
  { d.decodeAll dec (shownTokens p tokens stopTerminated) with tokenIds := d.tokenIds ++ tokens }

variable {tokens : List TokenId} {b : Nat} {stopTerminated : Bool} {calls : List (List TokenId)}

theorem update_spec (dec : Decoder σ) (h : d.HasPrompt p) (hstop : ∀ s ∈ p.stop, s ≠ [])
    (hne : tokens ≠ []) (stopTerminated : Bool) :
    let lo := stopBound dec p d (shownTokens p tokens stopTerminated)
    let d' := d.shown dec p tokens stopTerminated
    (d.update dec p tokens stopTerminated = (none, d') ∧
        ∀ s ∈ p.stop, ∀ e, ¬ CompletedAt d'.outputText lo s e) ∨
      ∃ s e, ListedFirst p.stop d'.outputText lo s e ∧
        d.update dec p tokens stopTerminated = (some s,
          { d' with outputText := cutText p.includeStopStrInOutput d'.outputText s e }) := by
  intro lo d'
  have hupdate : d.update dec p tokens stopTerminated = evaluateStop p d' lo := by
    rw [update, if_neg hne]
    simp only
    rw [decodeTokens_snd h, decodeTokens_fst, tokenIds_decodeAll, append_assoc,
      shownTokens_append_drop]
    rfl
  rw [hupdate]
  refine evaluateStop_spec hstop ?_
  -- a call that stays within `min_tokens` is not searched at all
  have hcount : d'.numOutputTokens p = d.numOutputTokens p + tokens.length := by
    unfold HasPrompt at h
    simp only [d', shown, numOutputTokens, length_append]
    omega
  by_cases hmin : p.minTokens < d'.numOutputTokens p
  · exact .inl hmin
  refine .inr ?_
  have hlen := (shownTokens_isPrefix (p := p) tokens stopTerminated).length_le
  have htake : (shownTokens p tokens stopTerminated).take
      (p.minTokens - d.numOutputTokens p) = shownTokens p tokens stopTerminated :=
    take_of_length_le (by omega)
  simp only [lo, d', stopBound, shown, htake]
  exact Nat.le_refl _

/-! ### Calls until a stop string is reported -/

/-- Calls of `update` until one reports a stop string. Only the last call can end with the token
that ended the request. -/
def updateAll (dec : Decoder σ) (p : DetokenizerParams) :
    DetokState σ → List (List TokenId) → Bool → Option Text × DetokState σ
  | d, [], _ => (none, d)
  | d, tokens :: calls, stopTerminated =>
    match d.update dec p tokens (stopTerminated && calls.isEmpty) with
    | (some stopString, d) => (some stopString, d)
    | (none, d) => updateAll dec p d calls stopTerminated

def callEnds (dec : Decoder σ) (p : DetokenizerParams) :
    DetokState σ → List (List TokenId) → Bool → List Nat
  | _, [], _ => []
  | d, tokens :: calls, stopTerminated =>
    let d := d.shown dec p tokens (stopTerminated && calls.isEmpty)
    d.outputText.length :: callEnds dec p d calls stopTerminated

def fullText (dec : Decoder σ) (p : DetokenizerParams) (d : DetokState σ)
    (calls : List (List TokenId)) (stopTerminated : Bool) : Text :=
  (d.decodeAll dec (shownTokens p calls.flatten stopTerminated)).outputText

/-- The end of the text of the first `min_tokens` tokens of all calls. -/
def minBound (dec : Decoder σ) (p : DetokenizerParams) (d : DetokState σ)
    (calls : List (List TokenId)) (stopTerminated : Bool) : Nat :=
  stopBound dec p d (shownTokens p calls.flatten stopTerminated)

/-- The report of the first call in whose text a stop string ends: the first listed one of those
that end by then. -/
structure Reported (stop : List Text) (text : Text) (lo : Nat) (ends : List Nat) (stopStr : Text)
    (e callEnd : Nat) : Prop where
  is_end : callEnd ∈ ends
  first : FirstAt text lo stopStr e
  within : e ≤ callEnd
  listed : ∃ before after, stop = before ++ stopStr :: after ∧
    ∀ s ∈ before, ∀ e', CompletedAt text lo s e' → callEnd < e'
  earlier : ∀ b ∈ ends, b < callEnd → ∀ s ∈ stop, ∀ e', CompletedAt text lo s e' → b < e'

def Outcome (p : DetokenizerParams) (text : Text) (lo : Nat) (ends : List Nat)
    (result : Option Text × Text) : Prop :=
  ((∀ s ∈ p.stop, ∀ e, ¬ CompletedAt text lo s e) ∧ result = (none, text)) ∨
    ∃ s e callEnd, Reported p.stop text lo ends s e callEnd ∧
      result = (some s, cutText p.includeStopStrInOutput text s e)

section
variable {text front : Text} {lo lo' : Nat} {ends : List Nat} {result : Option Text × Text}

theorem Outcome.now {s : Text} {e : Nat} (hfront : front <+: text)
    (hfirst : ListedFirst p.stop front lo' s e)
    (hiff : ∀ s e, CompletedAt front lo' s e ↔ CompletedAt text lo s e ∧ e ≤ front.length)
    (hends : ∀ b ∈ ends, front.length ≤ b) :
    Outcome p text lo (front.length :: ends)
      (some s, cutText p.includeStopStrInOutput front s e) := by
  obtain ⟨before, after, hsplit, hbefore⟩ := hfirst.listed
  obtain ⟨hdone, hle⟩ := (hiff s e).mp hfirst.first.toCompletedAt
  refine .inr ⟨s, e, front.length, ⟨mem_cons_self, ⟨hdone, fun e' he' => ?_⟩, hle,
    ⟨before, after, hsplit, fun s' hs' e' he' => ?_⟩, fun b hb hlt => ?_⟩, ?_⟩
  · by_contra hlt
    exact hlt (hfirst.first.first e' ((hiff s e').mpr ⟨he', by omega⟩))
  · by_contra hge
    exact hbefore s' hs' e' ((hiff s' e').mpr ⟨he', by omega⟩)
  · rcases mem_cons.mp hb with rfl | hb
    · exact absurd hlt (Nat.lt_irrefl _)
    · exact absurd (hends b hb) (Nat.not_le.mpr hlt)
  · obtain ⟨rest, rfl⟩ := hfront
    unfold cutText
    rw [take_append_of_le_length hle, take_append_of_le_length (by omega)]

theorem Outcome.later {here : Nat} (hno : ∀ s ∈ p.stop, ∀ e, CompletedAt text lo s e → here < e)
    (hiff : ∀ s e, CompletedAt text lo' s e ↔ CompletedAt text lo s e ∧ here < e)
    (h : Outcome p text lo' ends result) : Outcome p text lo (here :: ends) result := by
  have hsame : ∀ s ∈ p.stop, ∀ e, CompletedAt text lo s e → CompletedAt text lo' s e :=
    fun s hs e he => (hiff s e).mpr ⟨he, hno s hs e he⟩
  rcases h with ⟨hnone, hresult⟩ | ⟨s, e, callEnd, report, hresult⟩
  · exact .inl ⟨fun s hs e he => hnone s hs e (hsame s hs e he), hresult⟩
  obtain ⟨before, after, hsplit, hbefore⟩ := report.listed
  have hmem : s ∈ p.stop := hsplit ▸ mem_append_right _ mem_cons_self
  refine .inr ⟨s, e, callEnd, ⟨mem_cons_of_mem _ report.is_end,
    ⟨((hiff s e).mp report.first.toCompletedAt).1,
      fun e' he' => report.first.first e' (hsame s hmem e' he')⟩, report.within,
    ⟨before, after, hsplit, fun s' hs' e' he' => ?_⟩, fun b hb hlt s' hs' e' he' => ?_⟩, hresult⟩
  · have hmem' : s' ∈ p.stop := hsplit ▸ mem_append_left _ hs'
    exact hbefore s' hs' e' (hsame s' hmem' e' he')
  · rcases mem_cons.mp hb with rfl | hb
    · exact hno s' hs' e' he'
    · exact report.earlier b hb hlt s' hs' e' (hsame s' hs' e' he')

end

theorem shownTokens_false (tokens : List TokenId) : shownTokens p tokens false = tokens :=
  if_neg fun h => Bool.noConfusion h.1

theorem shown_false (tokens : List TokenId) :
    d.shown dec p tokens false = d.decodeAll dec tokens := by
  have hids : (d.decodeAll dec tokens).tokenIds = d.tokenIds ++ tokens := tokenIds_decodeAll tokens
  rw [shown, shownTokens_false, ← hids]

theorem shownTokens_append (tokens : List TokenId) {tokens' : List TokenId} (hne : tokens' ≠ [])
    (stopTerminated : Bool) :
    shownTokens p (tokens ++ tokens') stopTerminated =
      tokens ++ shownTokens p tokens' stopTerminated := by
  unfold shownTokens
  split
  · exact dropLast_append_of_ne_nil hne
  · rfl

theorem callEnds_singleton : callEnds dec p d [tokens] stopTerminated =
    [(d.shown dec p tokens stopTerminated).outputText.length] := by
  have hflag : (stopTerminated && ([] : List (List TokenId)).isEmpty) = stopTerminated :=
    Bool.and_true _
  rw [callEnds, hflag, callEnds]

theorem callEnds_cons (hcalls : calls ≠ []) :
    callEnds dec p d (tokens :: calls) stopTerminated =
      (d.decodeAll dec tokens).outputText.length ::
        callEnds dec p (d.decodeAll dec tokens) calls stopTerminated := by
  have hflag : (stopTerminated && calls.isEmpty) = false := by
    rw [isEmpty_eq_false_iff.mpr hcalls, Bool.and_false]
  rw [callEnds, hflag, shown_false]

theorem le_of_mem_callEnds (hb : b ∈ callEnds dec p d calls stopTerminated) :
    d.outputText.length ≤ b := by
  induction calls generalizing d with
  | nil => cases hb
  | cons tokens calls ih =>
    have hgrow : d.outputText.length ≤
        (d.shown dec p tokens (stopTerminated && calls.isEmpty)).outputText.length :=
      (outputText_prefix_decodeAll _).length_le
    rcases mem_cons.mp hb with rfl | hb
    · exact hgrow
    · exact hgrow.trans (ih hb)

theorem stopBound_append (dec : Decoder σ) (h : d.HasPrompt p) (tokens rest : List TokenId) :
    (stopBound dec p d (tokens ++ rest) = stopBound dec p d tokens ∧
        stopBound dec p (d.decodeAll dec tokens) rest =
          (d.decodeAll dec tokens).outputText.length ∧
        stopBound dec p d tokens ≤ (d.decodeAll dec tokens).outputText.length) ∨
      (stopBound dec p d (tokens ++ rest) = stopBound dec p (d.decodeAll dec tokens) rest ∧
        stopBound dec p d tokens = (d.decodeAll dec tokens).outputText.length ∧
        (d.decodeAll dec tokens).outputText.length ≤
          stopBound dec p (d.decodeAll dec tokens) rest) := by
  unfold stopBound
  rw [h.numOutputTokens_decodeAll]
  rcases Nat.le_total (p.minTokens - d.numOutputTokens p) tokens.length with hle | hle
  · refine .inl ⟨by rw [take_append_of_le_length hle], ?_, ?_⟩
    · rw [show p.minTokens - (d.numOutputTokens p + tokens.length) = 0 by omega]
      rfl
    · have hsplit := take_append_drop (p.minTokens - d.numOutputTokens p) tokens
      conv_rhs => rw [← hsplit, decodeAll_append]
      exact (outputText_prefix_decodeAll _).length_le
  · have hsub : p.minTokens - d.numOutputTokens p - tokens.length =
        p.minTokens - (d.numOutputTokens p + tokens.length) := by omega
    refine .inr ⟨?_, by rw [take_of_length_le hle], (outputText_prefix_decodeAll _).length_le⟩
    rw [take_append, take_of_length_le hle, decodeAll_append, hsub]

/-- The occurrences of a text that end in a call, and those that end behind it. -/
theorem completedAt_append (dec : Decoder σ) (h : d.HasPrompt p) (tokens rest : List TokenId)
    (s : Text) (e : Nat) :
    let here := d.decodeAll dec tokens
    let text := (here.decodeAll dec rest).outputText
    let lo := stopBound dec p d (tokens ++ rest)
    (CompletedAt here.outputText (stopBound dec p d tokens) s e ↔
        CompletedAt text lo s e ∧ e ≤ here.outputText.length) ∧
      (CompletedAt text (stopBound dec p here rest) s e ↔
        CompletedAt text lo s e ∧ here.outputText.length < e) := by
  intro here text lo
  have hfront : here.outputText <+: text := outputText_prefix_decodeAll rest
  have hbounds := stopBound_append dec h tokens rest
  change (lo = _ ∧ stopBound dec p here rest = here.outputText.length ∧
    _ ≤ here.outputText.length) ∨ (lo = stopBound dec p here rest ∧
    _ = here.outputText.length ∧ here.outputText.length ≤ stopBound dec p here rest) at hbounds
  constructor
  · rw [completedAt_prefix_iff hfront]
    refine and_congr_left fun he => ?_
    have hiff : stopBound dec p d tokens < e ↔ lo < e := by
      rcases hbounds with ⟨h₁, h₂, h₃⟩ | ⟨h₁, h₂, h₃⟩ <;> omega
    exact ⟨fun hc => ⟨hiff.mp hc.behind, hc.within, hc.suffix⟩,
      fun hc => ⟨hiff.mpr hc.behind, hc.within, hc.suffix⟩⟩
  · have hiff : stopBound dec p here rest < e ↔ lo < e ∧ here.outputText.length < e := by
      rcases hbounds with ⟨h₁, h₂, h₃⟩ | ⟨h₁, h₂, h₃⟩ <;> omega
    exact ⟨fun hc => ⟨⟨(hiff.mp hc.behind).1, hc.within, hc.suffix⟩, (hiff.mp hc.behind).2⟩,
      fun hc => ⟨hiff.mpr ⟨hc.1.behind, hc.2⟩, hc.1.within, hc.1.suffix⟩⟩

def reportAll (dec : Decoder σ) (p : DetokenizerParams) (d : DetokState σ)
    (calls : List (List TokenId)) (stopTerminated : Bool) : Option Text × Text :=
  let result := d.updateAll dec p calls stopTerminated
  (result.1, result.2.outputText)

section
variable {tokens : List TokenId} {calls : List (List TokenId)} {stopTerminated : Bool}
  {d' : DetokState σ}

theorem reportAll_cons_some {s : Text}
    (h : d.update dec p tokens (stopTerminated && calls.isEmpty) = (some s, d')) :
    d.reportAll dec p (tokens :: calls) stopTerminated = (some s, d'.outputText) := by
  rw [reportAll, updateAll, h]

theorem reportAll_cons_none
    (h : d.update dec p tokens (stopTerminated && calls.isEmpty) = (none, d')) :
    d.reportAll dec p (tokens :: calls) stopTerminated =
      d'.reportAll dec p calls stopTerminated := by
  rw [reportAll, updateAll, h]
  rfl

variable (hstop : ∀ s ∈ p.stop, s ≠ []) (h : d.HasPrompt p) (hne : tokens ≠ [])
include hstop h hne

theorem reportAll_last :
    Outcome p (d.fullText dec p [tokens] stopTerminated) (d.minBound dec p [tokens] stopTerminated)
      (callEnds dec p d [tokens] stopTerminated) (d.reportAll dec p [tokens] stopTerminated) := by
  have hflag : (stopTerminated && ([] : List (List TokenId)).isEmpty) = stopTerminated :=
    Bool.and_true _
  have hflat : [tokens].flatten = tokens := append_nil tokens
  have htext : d.fullText dec p [tokens] stopTerminated =
      (d.shown dec p tokens stopTerminated).outputText := by
    rw [fullText, hflat, shown]
  have hlo : d.minBound dec p [tokens] stopTerminated =
      stopBound dec p d (shownTokens p tokens stopTerminated) := by
    rw [minBound, hflat]
  rw [callEnds_singleton, htext, hlo]
  rcases update_spec dec h hstop hne stopTerminated with
    ⟨hcall, hno⟩ | ⟨s, e, hfirst, hcall⟩
  · refine .inl ⟨hno, ?_⟩
    rw [reportAll_cons_none (by rw [hflag, hcall])]
    rfl
  · rw [reportAll_cons_some (by rw [hflag, hcall])]
    refine Outcome.now prefix_rfl hfirst (fun s e => ?_) nofun
    exact ⟨fun hc => ⟨hc, hc.within⟩, And.left⟩

/-- A call before the last, and what is known of the calls behind it. -/
theorem reportAll_next (hflat : calls.flatten ≠ [])
    (hrest : Outcome p ((d.decodeAll dec tokens).fullText dec p calls stopTerminated)
      ((d.decodeAll dec tokens).minBound dec p calls stopTerminated)
      (callEnds dec p (d.decodeAll dec tokens) calls stopTerminated)
      ((d.decodeAll dec tokens).reportAll dec p calls stopTerminated)) :
    Outcome p (d.fullText dec p (tokens :: calls) stopTerminated)
      (d.minBound dec p (tokens :: calls) stopTerminated)
      (callEnds dec p d (tokens :: calls) stopTerminated)
      (d.reportAll dec p (tokens :: calls) stopTerminated) := by
  have hcalls : calls ≠ [] := fun hnil => hflat (hnil ▸ rfl)
  have hflag : (stopTerminated && calls.isEmpty) = false := by
    rw [isEmpty_eq_false_iff.mpr hcalls, Bool.and_false]
  have hshown : shownTokens p (tokens :: calls).flatten stopTerminated =
      tokens ++ shownTokens p calls.flatten stopTerminated :=
    shownTokens_append tokens hflat stopTerminated
  have htext : d.fullText dec p (tokens :: calls) stopTerminated =
      (d.decodeAll dec tokens).fullText dec p calls stopTerminated := by
    rw [fullText, hshown, decodeAll_append, fullText]
  have hlo : d.minBound dec p (tokens :: calls) stopTerminated =
      stopBound dec p d (tokens ++ shownTokens p calls.flatten stopTerminated) := by
    rw [minBound, hshown]
  have hparts := completedAt_append dec h tokens (shownTokens p calls.flatten stopTerminated)
  have hcall := update_spec dec h hstop hne false
  simp only [shownTokens_false, shown_false] at hcall
  rw [callEnds_cons hcalls, htext, hlo]
  rcases hcall with ⟨hcall, hno⟩ | ⟨s, e, hfirst, hcall⟩
  · rw [reportAll_cons_none (by rw [hflag, hcall])]
    refine Outcome.later (fun s hs e he => ?_) (fun s e => (hparts s e).2) hrest
    by_contra hle
    exact hno s hs e ((hparts s e).1.mpr ⟨he, by omega⟩)
  · rw [reportAll_cons_some (by rw [hflag, hcall])]
    exact Outcome.now (outputText_prefix_decodeAll _) hfirst (fun s e => (hparts s e).1)
      fun b hb => le_of_mem_callEnds hb

end

/-- What a sequence of calls reports, in terms of the text of all of them. -/
theorem reportAll_outcome (dec : Decoder σ) (hstop : ∀ s ∈ p.stop, s ≠ []) (calls : List (List TokenId))
    (stopTerminated : Bool) (h : d.HasPrompt p) (hcalls : [] ∉ calls) :
    Outcome p (d.fullText dec p calls stopTerminated) (d.minBound dec p calls stopTerminated)
      (callEnds dec p d calls stopTerminated) (d.reportAll dec p calls stopTerminated) := by
  induction calls generalizing d with
  | nil =>
    have hnil : shownTokens p [] stopTerminated = [] :=
      prefix_nil.mp (shownTokens_isPrefix [] stopTerminated)
    have htext : d.fullText dec p [] stopTerminated = d.outputText := by
      rw [fullText, flatten_nil, hnil, decodeAll_nil]
    have hlo : d.minBound dec p [] stopTerminated = d.outputText.length := by
      rw [minBound, flatten_nil, hnil, stopBound, take_nil, decodeAll_nil]
    rw [htext, hlo]
    exact .inl ⟨fun s _ e => not_completedAt_of_le (Nat.le_refl _) s e, rfl⟩
  | cons tokens calls ih =>
    have hne : tokens ≠ [] := fun hnil => hcalls (hnil ▸ mem_cons_self)
    have hrest : [] ∉ calls := fun hmem => hcalls (mem_cons_of_mem _ hmem)
    cases calls with
    | nil => exact reportAll_last hstop h hne
    | cons tokens' calls =>
      refine reportAll_next hstop h hne (fun hnil => ?_) (ih (h.decodeAll tokens) hrest)
      have htokens' : tokens' = [] := (append_eq_nil_iff.mp hnil).1
      exact hrest (htokens' ▸ mem_cons_self)

/-! ### The cut at the stop string that ends first -/

structure Earliest (stop : List Text) (text : Text) (lo e : Nat) : Prop where
  completed : ∃ s ∈ stop, CompletedAt text lo s e
  first : ∀ s ∈ stop, ∀ e', CompletedAt text lo s e' → e ≤ e'

/-- Generation is cut at a stop string that ends first, or not at all. -/
def EarliestCut (p : DetokenizerParams) (text : Text) (lo : Nat) (result : Option Text × Text) :
    Prop :=
  ((∀ s ∈ p.stop, ∀ e, ¬ CompletedAt text lo s e) ∧ result = (none, text)) ∨
    ∃ s ∈ p.stop, ∃ e, CompletedAt text lo s e ∧ Earliest p.stop text lo e ∧
      result = (some s, cutText p.includeStopStrInOutput text s e)

/-- A stop string that ends later than another, but in the same call, is listed behind one that
ends first. -/
def ListsEarliest (stop : List Text) (text : Text) (lo : Nat) (ends : List Nat) : Prop :=
  ∀ before s after, stop = before ++ s :: after → ∀ e e₀, FirstAt text lo s e →
    Earliest stop text lo e₀ → e₀ < e → (∀ b ∈ ends, e₀ ≤ b → e ≤ b) →
    ∃ s' ∈ before, CompletedAt text lo s' e₀

section
variable {text : Text} {lo : Nat} {ends ends' : List Nat} {result result' : Option Text × Text}

theorem mem_of_splits {α : Type} {a b : α} {before after before' after' : List α}
    (h : before ++ a :: after = before' ++ b :: after') : b ∈ before ∨ a = b ∨ a ∈ before' := by
  rcases append_eq_append_iff.mp h with ⟨mid, hmid, htail⟩ | ⟨mid, hmid, htail⟩
  · cases mid with
    | nil => exact .inr (.inl (cons.inj htail).1)
    | cons c mid =>
      refine .inr (.inr ?_)
      rw [hmid, (cons.inj htail).1]
      exact mem_append_right _ mem_cons_self
  · cases mid with
    | nil => exact .inr (.inl (cons.inj htail).1.symm)
    | cons c mid =>
      refine .inl ?_
      rw [hmid, (cons.inj htail).1]
      exact mem_append_right _ mem_cons_self

variable {callEnd e : Nat} {s : Text} {stop : List Text}

theorem Reported.mem (h : Reported p.stop text lo ends s e callEnd) : s ∈ p.stop := by
  obtain ⟨before, after, hsplit, -⟩ := h.listed
  rw [hsplit]
  exact mem_append_right _ mem_cons_self

theorem Earliest.unique {e' : Nat} (h : Earliest stop text lo e) (h' : Earliest stop text lo e') :
    e = e' := by
  obtain ⟨s, hs, hdone⟩ := h.completed
  obtain ⟨s', hs', hdone'⟩ := h'.completed
  exact Nat.le_antisymm (h.first s' hs' e' hdone') (h'.first s hs e hdone)

theorem exists_earliest (hs : s ∈ stop) (h : CompletedAt text lo s e) :
    ∃ e, Earliest stop text lo e := by
  classical
  have hex : ∃ e, ∃ s ∈ stop, CompletedAt text lo s e := ⟨e, s, hs, h⟩
  exact ⟨Nat.find hex, Nat.find_spec hex, fun s hs e' he' => Nat.find_min' hex ⟨s, hs, he'⟩⟩

section
variable (h : Reported p.stop text lo ends s e callEnd)
include h

theorem Reported.listsEarliest
    (hearliest : Earliest p.stop text lo e) : ListsEarliest p.stop text lo ends := by
  intro before' t after' hsplit' e' e₀ hfirst' hearliest₀ hlt hcall
  obtain rfl := hearliest₀.unique hearliest
  obtain ⟨before, after, hsplit, hbefore⟩ := h.listed
  have hwithin := hcall callEnd h.is_end h.within
  rcases mem_of_splits (hsplit.symm.trans hsplit') with hmem | rfl | hmem
  · exact absurd (hbefore t hmem e' hfirst'.toCompletedAt) (by omega)
  · exact absurd (h.first.unique hfirst') (by omega)
  · exact ⟨s, hmem, h.first.toCompletedAt⟩

theorem Reported.earliest (hlists : ListsEarliest p.stop text lo ends) : Earliest p.stop text lo e := by
  obtain ⟨e₀, hearliest⟩ := exists_earliest h.mem h.first.toCompletedAt
  obtain ⟨before, after, hsplit, hbefore⟩ := h.listed
  rcases Nat.lt_or_ge e₀ e with hlt | hge
  · -- the call that reports `s` would have met a stop string in front of it
    obtain ⟨s', hs', hdone⟩ := hlists before s after hsplit e e₀ h.first hearliest hlt (by
      intro b hb hle
      by_contra hlt'
      obtain ⟨s', hs', hdone⟩ := hearliest.completed
      have hend := h.within
      have hb' := h.earlier b hb (by omega) s' hs' e₀ hdone
      omega)
    have hb := hbefore s' hs' e₀ hdone
    have hend := h.within
    omega
  · obtain rfl := Nat.le_antisymm (hearliest.first s h.mem e h.first.toCompletedAt) hge
    exact hearliest

/-- Reports of the same text that both name a stop string which ends first, where the second
comes in shorter calls. -/
theorem Reported.eq_of_finer {s' : Text} {e' callEnd' : Nat}
    (h' : Reported p.stop text lo ends' s' e' callEnd') (hends : ∀ b ∈ ends, b ∈ ends')
    (hearliest : Earliest p.stop text lo e) : s = s' ∧ e = e' := by
  have hle := hearliest.first s' h'.mem e' h'.first.toCompletedAt
  have hend := h.within
  have hend' := h'.within
  have hshort : callEnd' ≤ callEnd := by
    by_contra hlt
    have hb := h'.earlier callEnd (hends _ h.is_end) (by omega) s h.mem e h.first.toCompletedAt
    omega
  obtain ⟨before, after, hsplit, hbefore⟩ := h.listed
  obtain ⟨before', after', hsplit', hbefore'⟩ := h'.listed
  rcases mem_of_splits (hsplit.symm.trans hsplit') with hmem | rfl | hmem
  · exact absurd (hbefore s' hmem e' h'.first.toCompletedAt) (by omega)
  · exact ⟨rfl, h.first.unique h'.first⟩
  · exact absurd (hbefore' s hmem e h.first.toCompletedAt) (by omega)

end

theorem Outcome.eq_earliestCut_iff (h : Outcome p text lo ends result)
    (h' : Outcome p text lo ends' result') (hends : ∀ b ∈ ends, b ∈ ends') :
    (result = result' ∧ EarliestCut p text lo result) ↔ ListsEarliest p.stop text lo ends := by
  rcases h with ⟨hno, rfl⟩ | ⟨s, e, callEnd, report, rfl⟩
  · have hresult' : result' = (none, text) := by
      rcases h' with ⟨-, hresult'⟩ | ⟨s', e', callEnd', report', -⟩
      · exact hresult'
      · exact absurd report'.first.toCompletedAt (hno s' report'.mem e')
    refine ⟨fun _ before s after hsplit e e₀ hfirst => ?_, fun _ => ⟨hresult'.symm, .inl ⟨hno, rfl⟩⟩⟩
    have hmem : s ∈ p.stop := hsplit ▸ mem_append_right _ mem_cons_self
    exact absurd hfirst.toCompletedAt (hno s hmem e)
  · constructor
    · rintro ⟨-, ⟨-, hnone⟩ | ⟨s₁, -, e₁, hdone, hearliest, hresult⟩⟩
      · cases hnone
      · obtain rfl : s = s₁ := Option.some.inj (Prod.mk.inj hresult).1
        have heq : e = e₁ := Nat.le_antisymm (report.first.first e₁ hdone)
          (hearliest.first s report.mem e report.first.toCompletedAt)
        rw [← heq] at hearliest
        exact report.listsEarliest hearliest
    · intro hlists
      have hearliest := report.earliest hlists
      refine ⟨?_, .inr ⟨s, report.mem, e, report.first.toCompletedAt, hearliest, rfl⟩⟩
      rcases h' with ⟨hno, -⟩ | ⟨s', e', callEnd', report', rfl⟩
      · exact absurd report.first.toCompletedAt (hno s report.mem e)
      · obtain ⟨rfl, rfl⟩ := report.eq_of_finer report' hends hearliest
        rfl

end

/-! ### One token at a time -/

def oneByOne (tokens : List TokenId) : List (List TokenId) := tokens.map fun token => [token]

theorem flatten_oneByOne (tokens : List TokenId) : (oneByOne tokens).flatten = tokens := by
  induction tokens with
  | nil => rfl
  | cons token tokens ih => exact congrArg (token :: ·) ih

theorem nil_notMem_oneByOne (tokens : List TokenId) : [] ∉ oneByOne tokens := by
  intro hmem
  obtain ⟨token, -, hnil⟩ := mem_map.mp hmem
  cases hnil

theorem callEnds_oneByOne_cons (token : TokenId) (hne : tokens ≠ []) :
    callEnds dec p d (oneByOne (token :: tokens)) stopTerminated =
      (d.decodeToken dec token).outputText.length ::
        callEnds dec p (d.decodeToken dec token) (oneByOne tokens) stopTerminated :=
  callEnds_cons fun hnil => hne (map_eq_nil_iff.mp hnil)

theorem mem_callEnds_oneByOne (hne : tokens ≠ []) (stopTerminated : Bool) :
    (d.shown dec p tokens stopTerminated).outputText.length ∈
      callEnds dec p d (oneByOne tokens) stopTerminated := by
  induction tokens generalizing d with
  | nil => exact absurd rfl hne
  | cons token tokens ih =>
    cases tokens with
    | nil =>
      rw [oneByOne, map_cons, map_nil, callEnds_singleton]
      exact mem_cons_self
    | cons token' tokens =>
      have hrest := ih (d := d.decodeToken dec token) (cons_ne_nil _ _)
      have htext : (d.shown dec p (token :: token' :: tokens) stopTerminated).outputText =
          ((d.decodeToken dec token).shown dec p (token' :: tokens)
            stopTerminated).outputText := by
        have happend := shownTokens_append (p := p) [token] (cons_ne_nil token' tokens)
          stopTerminated
        rw [singleton_append, singleton_append] at happend
        rw [shown, happend, decodeAll_cons, shown]
      rw [htext, callEnds_oneByOne_cons token (cons_ne_nil _ _)]
      exact mem_cons_of_mem _ hrest

theorem callEnds_oneByOne_append {rest : List TokenId} (hrest : rest ≠ [])
    (hb : b ∈ callEnds dec p (d.decodeAll dec tokens) (oneByOne rest) stopTerminated ∨
      tokens ≠ [] ∧ b = (d.decodeAll dec tokens).outputText.length) :
    b ∈ callEnds dec p d (oneByOne (tokens ++ rest)) stopTerminated := by
  induction tokens generalizing d with
  | nil =>
    rcases hb with hb | ⟨hne, -⟩
    · exact hb
    · exact absurd rfl hne
  | cons token tokens ih =>
    have hne : tokens ++ rest ≠ [] := fun hnil => hrest (append_eq_nil_iff.mp hnil).2
    rw [cons_append, callEnds_oneByOne_cons token hne]
    by_cases hnil : tokens = [] ∧ b = (d.decodeToken dec token).outputText.length
    · rw [hnil.2]
      exact mem_cons_self
    refine mem_cons_of_mem _ (ih ?_)
    rcases hb with hb | ⟨-, hb⟩
    · exact .inl hb
    · refine .inr ⟨fun htokens => hnil ⟨htokens, ?_⟩, hb⟩
      rw [htokens] at hb
      exact hb

theorem callEnds_subset_oneByOne (hcalls : [] ∉ calls)
    (hb : b ∈ callEnds dec p d calls stopTerminated) :
    b ∈ callEnds dec p d (oneByOne calls.flatten) stopTerminated := by
  induction calls generalizing d with
  | nil => cases hb
  | cons tokens calls ih =>
    have hne : tokens ≠ [] := fun hnil => hcalls (hnil ▸ mem_cons_self)
    have hrest : [] ∉ calls := fun hmem => hcalls (mem_cons_of_mem _ hmem)
    rw [flatten_cons]
    cases calls with
    | nil =>
      rw [callEnds_singleton, mem_singleton] at hb
      rw [hb, flatten_nil, append_nil]
      exact mem_callEnds_oneByOne hne stopTerminated
    | cons tokens' calls =>
      have hflat : (tokens' :: calls).flatten ≠ [] := fun hnil => by
        have htokens' : tokens' = [] := (append_eq_nil_iff.mp hnil).1
        exact hrest (htokens' ▸ mem_cons_self)
      rw [callEnds_cons (cons_ne_nil _ _)] at hb
      refine callEnds_oneByOne_append hflat ?_
      rcases mem_cons.mp hb with hb | hb
      · exact .inr ⟨hne, hb⟩
      · exact .inl (ih hrest hb)

theorem start_hasPrompt (p : DetokenizerParams) (stream : σ) : (p.start stream).HasPrompt p :=
  Nat.le_refl _

/-- The report of any grouping into calls is that of one token at a time, at the stop string that
ends first, exactly if the stop strings that end in one call are listed in a fitting order. -/
theorem reportAll_oneByOne_iff (dec : Decoder σ) (p : DetokenizerParams) (stream : σ)
    (hstop : ∀ s ∈ p.stop, s ≠ []) (calls : List (List TokenId)) (hcalls : [] ∉ calls)
    (stopTerminated : Bool) :
    let d := p.start stream
    let text := d.fullText dec p calls stopTerminated
    let lo := d.minBound dec p calls stopTerminated
    (d.reportAll dec p calls stopTerminated =
          d.reportAll dec p (oneByOne calls.flatten) stopTerminated ∧
        EarliestCut p text lo (d.reportAll dec p calls stopTerminated)) ↔
      ListsEarliest p.stop text lo (callEnds dec p d calls stopTerminated) := by
  intro d text lo
  have hgrouped := reportAll_outcome dec hstop calls stopTerminated
    (start_hasPrompt p stream) hcalls
  have hsingle := reportAll_outcome dec hstop (oneByOne calls.flatten) stopTerminated
    (start_hasPrompt p stream) (nil_notMem_oneByOne _)
  have htext : d.fullText dec p (oneByOne calls.flatten) stopTerminated = text := by
    simp only [text, fullText, flatten_oneByOne]
  have hlo : d.minBound dec p (oneByOne calls.flatten) stopTerminated = lo := by
    simp only [lo, minBound, flatten_oneByOne]
  rw [htext, hlo] at hsingle
  exact hgrouped.eq_earliestCut_iff hsingle fun b hb => callEnds_subset_oneByOne hcalls hb

/-- Token 0 is the letter `a`, every other token the letter `b`. -/
def letters : Decoder Unit where
  decodeNext _ _ token := (if token = 0 then ['a'] else ['b'], ())

def bThenA : DetokenizerParams where
  stop := [['b'], ['a']]

/-- With one token in each call no later stop string comes in between. -/
theorem reportAll_oneByOne_iff_letters :
    ListsEarliest bThenA.stop ((bThenA.start ()).fullText letters bThenA [[0], [1]] false)
      ((bThenA.start ()).minBound letters bThenA [[0], [1]] false)
      (callEnds letters bThenA (bThenA.start ()) [[0], [1]] false) := by
  have hdone : CompletedAt ((bThenA.start ()).fullText letters bThenA [[0], [1]] false)
      ((bThenA.start ()).minBound letters bThenA [[0], [1]] false) ['a'] 1 :=
    ⟨by decide, by decide, by decide⟩
  have hearliest : Earliest bThenA.stop ((bThenA.start ()).fullText letters bThenA [[0], [1]] false)
      ((bThenA.start ()).minBound letters bThenA [[0], [1]] false) 1 :=
    ⟨⟨['a'], by decide, hdone⟩, fun _ _ _ h => Nat.lt_of_le_of_lt (Nat.zero_le _) h.behind⟩
  exact (reportAll_oneByOne_iff letters bThenA () (by decide) [[0], [1]] (by decide) false).mp
    ⟨by decide, .inr ⟨['a'], by decide, 1, hdone, hearliest, by decide⟩⟩

/-- Both letters in one call: the text is cut behind the first stop string. -/
theorem reportAll_bThenA :
    (bThenA.start ()).reportAll letters bThenA [[0, 1]] false = (some ['b'], ['a']) ∧
      (bThenA.start ()).reportAll letters bThenA (oneByOne [0, 1]) false = (some ['a'], []) := by
  decide

end DetokState
end Vllm.Output
