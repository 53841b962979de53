import Mathlib

/-! The n-gram proposer: a failure-function search on the reversed tokens, and what it drafts. -/
namespace Vllm.SpecDecode
open List Function

variable {α : Type}

/-- The variables of the search loop; `lps` holds zero where nothing was stored. -/
structure Search where
  lps : Nat → Nat
  longestNgram : Nat
  position : Nat
  prevLps : Nat
  i : Nat

def Search.start : Search :=
  { lps := fun _ => 0, longestNgram := 0, position := 0, prevLps := 0, i := 1 }

/-- One round of the search loop. -/
def searchStep [DecidableEq α] (tokens : List α) (maxNgram : Nat) (s : Search) : Search :=
  if tokens[s.prevLps]? = tokens[s.i]? then
    let prevLps := s.prevLps + 1
    let longer := s.longestNgram ≤ prevLps
    -- the table is kept for the first `maxNgram` tokens only
    let lps := if s.i < maxNgram then update s.lps s.i prevLps else s.lps
    { lps
      longestNgram := if longer then prevLps else s.longestNgram
      position := if longer then s.i else s.position
      prevLps := if prevLps = maxNgram then lps (maxNgram - 1) else prevLps
      i := s.i + 1 }
  else if s.prevLps ≠ 0 then { s with prevLps := s.lps (s.prevLps - 1) }
  else { s with i := s.i + 1 }

def searchLoop [DecidableEq α] (tokens : List α) (maxNgram : Nat) : Nat → Search → Option Search
  | 0, s => if s.i < tokens.length then none else some s
  | fuel + 1, s =>
    if s.i < tokens.length then searchLoop tokens maxNgram fuel (searchStep tokens maxNgram s)
    else some s

def findLongestMatchedNgramAndProposeTokens [DecidableEq α] (fuel : Nat)
    (originTokens : List α) (minNgram maxNgram : Nat) (maxModelLen k : Int) : Option (List α) :=
  let totalToken := originTokens.length
  if totalToken < minNgram then some []
  else
    let k := min k (maxModelLen - totalToken)
    if k ≤ 0 then some []
    else do
      let s ← searchLoop originTokens.reverse maxNgram fuel .start
      if s.longestNgram < minNgram then some []
      else
        let startPosition := totalToken - 1 - s.position + s.longestNgram
        some ((originTokens.drop startPosition).take
          (min k.toNat (totalToken - startPosition)))

/-- The last `n` tokens also occur at `p`, before the place where they stand. -/
def RecursAt (tokens : List α) (n p : Nat) : Prop :=
  p < tokens.length - n ∧ tokens.drop (tokens.length - n) <+: tokens.drop p

instance [DecidableEq α] (tokens : List α) (n p : Nat) : Decidable (RecursAt tokens n p) :=
  inferInstanceAs (Decidable (_ ∧ _))

/-- The greatest length up to `maxNgram` at which the end of the tokens occurs before. -/
def longestRecurring [DecidableEq α] (tokens : List α) (maxNgram : Nat) : Nat :=
  Nat.findGreatest (fun n => ∃ p < tokens.length, RecursAt tokens n p) maxNgram

/-- The first `w` tokens end the first `e` ones, and are not all of them. -/
def Ends (tokens : List α) (w e : Nat) : Prop :=
  w < e ∧ tokens.take w <:+ tokens.take e

variable {tokens : List α} {maxNgram v w e : Nat} {s : Search}

theorem ends_zero (he : 0 < e) : Ends tokens 0 e :=
  ⟨he, by rw [take_zero]; exact nil_suffix⟩

theorem ends_succ_iff (he : e < tokens.length) :
    Ends tokens (w + 1) (e + 1) ↔ Ends tokens w e ∧ tokens[w]? = tokens[e]? := by
  unfold Ends
  rw [Nat.add_lt_add_iff_right]
  constructor
  · rintro ⟨hlt, hsuffix⟩
    have hw := hlt.trans he
    rw [take_add_one, take_add_one, getElem?_eq_getElem hw, getElem?_eq_getElem he,
      Option.toList_some, Option.toList_some, suffix_concat_iff] at hsuffix
    obtain hnil | ⟨front, hfront, hsuffix⟩ := hsuffix
    · exact absurd hnil (append_ne_nil_of_right_ne_nil _ (cons_ne_nil _ _))
    obtain ⟨rfl, hlast⟩ := append_inj' hfront rfl
    rw [getElem?_eq_getElem hw, getElem?_eq_getElem he, Option.some_inj]
    exact ⟨⟨hlt, hsuffix⟩, singleton_inj.mp hlast⟩
  · rintro ⟨⟨hlt, front, hfront⟩, hlast⟩
    refine ⟨hlt, front, ?_⟩
    rw [take_add_one, take_add_one, hlast, ← hfront, append_assoc]

/-- Of two beginnings that end the same tokens the shorter one ends the longer one. -/
theorem Ends.shorter (hv : Ends tokens v e) (hwv : w < v) (he : e ≤ tokens.length) :
    Ends tokens w e ↔ Ends tokens w v := by
  have hlt := hv.1
  constructor
  · intro hw
    refine ⟨hwv, suffix_of_suffix_length_le hw.2 hv.2 ?_⟩
    rw [length_take, length_take]
    omega
  · intro hw
    exact ⟨hwv.trans hlt, hw.2.trans hv.2⟩

/-- The ends of the reversed tokens are what recurs in the tokens. -/
theorem ends_reverse_iff (he : e ≤ tokens.length) :
    Ends tokens.reverse w e ↔ RecursAt tokens w (tokens.length - e) := by
  unfold Ends RecursAt
  rw [take_reverse, take_reverse, reverse_suffix]
  constructor
  · rintro ⟨hlt, hprefix⟩
    exact ⟨by omega, hprefix⟩
  · rintro ⟨hlt, hprefix⟩
    exact ⟨by omega, hprefix⟩

/-- What the loop knows in front of token `i`. -/
structure SearchInv (tokens : List α) (maxNgram : Nat) (s : Search) : Prop where
  within : s.i ≤ tokens.length
  ends : Ends tokens s.prevLps s.i
  capped : s.prevLps < maxNgram
  /-- No beginning that is longer than the current one goes on with token `i`. -/
  longer : ∀ w < maxNgram, Ends tokens w s.i → tokens[w]? = tokens[s.i]? → w ≤ s.prevLps
  table : ∀ e, 0 < e → e ≤ s.i → e ≤ maxNgram → IsGreatest {w | Ends tokens w e} (s.lps (e - 1))
  empty : ∀ j, s.i ≤ j → s.lps j = 0
  best : ∀ e ≤ s.i, ∀ w ≤ maxNgram, Ends tokens w e → w ≤ s.longestNgram
  found : s.longestNgram ≠ 0 → s.longestNgram ≤ maxNgram ∧
    IsGreatest {e | e ≤ s.i ∧ Ends tokens s.longestNgram e} (s.position + 1)

theorem searchInv_start (hlen : 1 ≤ tokens.length) (hmax : 1 ≤ maxNgram) :
    SearchInv tokens maxNgram .start where
  within := hlen
  ends := ends_zero Nat.one_pos
  capped := hmax
  longer w _ h _ := Nat.lt_succ_iff.mp h.1
  table e hpos he _ := by
    obtain rfl : e = 1 := Nat.le_antisymm he hpos
    exact ⟨ends_zero hpos, fun w h => Nat.lt_succ_iff.mp h.1⟩
  empty _ _ := rfl
  best _ he _ _ h := Nat.lt_succ_iff.mp (h.1.trans_le he)
  found h := absurd rfl h

/-- A beginning that fails at token `i` is given up for the next shorter one. -/
theorem SearchInv.fallback (h : SearchInv tokens maxNgram s)
    (hne : tokens[s.prevLps]? ≠ tokens[s.i]?) (hprev : s.prevLps ≠ 0) :
    s.lps (s.prevLps - 1) < s.prevLps ∧
      SearchInv tokens maxNgram { s with prevLps := s.lps (s.prevLps - 1) } := by
  obtain ⟨hends, hgreatest⟩ :=
    h.table s.prevLps (Nat.pos_of_ne_zero hprev) h.ends.1.le h.capped.le
  refine ⟨hends.1, { h with
    ends := (h.ends.shorter hends.1 h.within).mpr hends
    capped := hends.1.trans h.capped
    longer := fun w hw hwi htoken => ?_ }⟩
  have hle := h.longer w hw hwi htoken
  have hlt : w < s.prevLps := lt_of_le_of_ne hle fun heq => hne (heq ▸ htoken)
  exact hgreatest ((h.ends.shorter hlt h.within).mp hwi)

/-- The loop goes on to the next token with `v`, the longest beginning up to the cap that ends
there. -/
theorem SearchInv.advance (h : SearchInv tokens maxNgram s) (hi : s.i < tokens.length)
    (hv : IsGreatest {w | w ≤ maxNgram ∧ Ends tokens w (s.i + 1)} v) {next : Search}
    (hnext : next.i = s.i + 1)
    (hlps : next.lps = if s.i < maxNgram then update s.lps s.i v else s.lps)
    (hprev : next.prevLps = if v = maxNgram then next.lps (maxNgram - 1) else v)
    (hbest : (s.longestNgram ≤ v ∧ next.longestNgram = v ∧ next.position = s.i) ∨
      (v = 0 ∨ v < s.longestNgram) ∧ next.longestNgram = s.longestNgram ∧
        next.position = s.position) :
    SearchInv tokens maxNgram next := by
  obtain ⟨⟨hvmax, hvends⟩, hgreatest⟩ := hv
  have hkeeps : ∀ j, j ≠ s.i → next.lps j = s.lps j := by
    intro j hj
    rw [hlps]
    split
    · exact update_of_ne hj _ _
    · rfl
  have htable : ∀ e, 0 < e → e ≤ next.i → e ≤ maxNgram →
      IsGreatest {w | Ends tokens w e} (next.lps (e - 1)) := by
    intro e hpos he hemax
    rw [hnext] at he
    rcases Nat.le_succ_iff.mp he with hle | rfl
    · rw [hkeeps _ (by omega)]
      exact h.table e hpos hle hemax
    · have hmax : s.i < maxNgram := hemax
      rw [hlps, if_pos hmax, Nat.succ_sub_one, update_self]
      exact ⟨hvends, fun w hw => hgreatest ⟨by have := hw.1; omega, hw⟩⟩
  -- the longest beginning below the cap, with the table where the cap is reached
  have hends : Ends tokens next.prevLps next.i ∧ next.prevLps < maxNgram ∧
      ∀ w < maxNgram, Ends tokens w next.i → w ≤ next.prevLps := by
    rw [hnext, hprev]
    by_cases hcap : v = maxNgram
    · subst hcap
      obtain ⟨hbends, hbmax⟩ := htable v (Nat.zero_lt_of_lt h.capped)
        (by rw [hnext]; exact hvends.1.le) le_rfl
      rw [if_pos rfl]
      exact ⟨(hvends.shorter hbends.1 hi).mpr hbends, hbends.1, fun w hw hwi =>
        hbmax ((hvends.shorter hw hi).mp hwi)⟩
    · rw [if_neg hcap]
      exact ⟨hvends, lt_of_le_of_ne hvmax hcap, fun w hw hwi => hgreatest ⟨hw.le, hwi⟩⟩
  refine ⟨hnext ▸ hi, hends.1, hends.2.1, fun w hw hwi _ => hends.2.2 w hw hwi, htable,
    fun j hj => ?_, fun e he w hw hwe => ?_, fun hne => ?_⟩
  · rw [hkeeps j (by omega)]
    exact h.empty j (by omega)
  · rw [hnext] at he
    rcases Nat.le_succ_iff.mp he with hle | rfl
    · have hold := h.best e hle w hw hwe
      omega
    · have hwv := hgreatest ⟨hw, hwe⟩
      omega
  · rw [hnext]
    obtain ⟨-, hl, hp⟩ | ⟨hless, hl, hp⟩ := hbest
    · rw [hl, hp]
      exact ⟨hvmax, ⟨le_rfl, hvends⟩, fun e he => he.1⟩
    · rw [hl] at hne ⊢
      rw [hp]
      obtain ⟨hle, ⟨hpos, hends⟩, hlast⟩ := h.found hne
      refine ⟨hle, ⟨Nat.le_succ_of_le hpos, hends⟩, fun e he => ?_⟩
      rcases Nat.le_succ_iff.mp he.1 with hle' | rfl
      · exact hlast ⟨hle', he.2⟩
      · have hlev := hgreatest ⟨hle, he.2⟩
        omega

variable [DecidableEq α]

/-- A round keeps what the loop knows and comes nearer to the end. -/
theorem SearchInv.step (h : SearchInv tokens maxNgram s) (hi : s.i < tokens.length) :
    SearchInv tokens maxNgram (searchStep tokens maxNgram s) ∧
      2 * (tokens.length - (searchStep tokens maxNgram s).i) +
          (searchStep tokens maxNgram s).prevLps <
        2 * (tokens.length - s.i) + s.prevLps := by
  unfold searchStep
  split
  · rename_i htoken
    have hv : IsGreatest {w | w ≤ maxNgram ∧ Ends tokens w (s.i + 1)} (s.prevLps + 1) := by
      refine ⟨⟨h.capped, (ends_succ_iff hi).mpr ⟨h.ends, htoken⟩⟩, ?_⟩
      rintro (_ | w) ⟨hw, hwi⟩
      · exact Nat.zero_le _
      · obtain ⟨hends, hlast⟩ := (ends_succ_iff hi).mp hwi
        exact Nat.succ_le_succ (h.longer w hw hends hlast)
    generalize hnext : Search.mk .. = next
    have hinv : SearchInv tokens maxNgram next := by
      rw [← hnext]
      refine h.advance hi hv rfl rfl rfl ?_
      by_cases hc : s.longestNgram ≤ s.prevLps + 1
      · exact .inl ⟨hc, if_pos hc, if_pos hc⟩
      · exact .inr ⟨.inr (not_le.mp hc), if_neg hc, if_neg hc⟩
    have hstep : next.i = s.i + 1 := by rw [← hnext]
    have hle := hv.2 ⟨hinv.capped.le, hstep ▸ hinv.ends⟩
    exact ⟨hinv, by omega⟩
  · rename_i htoken
    split
    · rename_i hprev
      obtain ⟨hlt, hinv⟩ := h.fallback htoken hprev
      exact ⟨hinv, Nat.add_lt_add_left hlt _⟩
    · rename_i hprev
      have hprev := not_not.mp hprev
      have hv : IsGreatest {w | w ≤ maxNgram ∧ Ends tokens w (s.i + 1)} 0 := by
        refine ⟨⟨Nat.zero_le _, ends_zero (Nat.succ_pos _)⟩, ?_⟩
        rintro (_ | w) ⟨hw, hwi⟩
        · exact le_rfl
        · obtain ⟨hends, hlast⟩ := (ends_succ_iff hi).mp hwi
          have hzero := h.longer w hw hends hlast
          rw [hprev, Nat.le_zero] at hzero
          rw [hprev] at htoken
          exact absurd (hzero ▸ hlast) htoken
      refine ⟨h.advance hi hv rfl ?_ ?_ ?_, by simp only; omega⟩
      · split
        · exact (update_eq_self_iff.mpr (h.empty s.i le_rfl).symm).symm
        · rfl
      · rw [if_neg (Nat.ne_of_lt (Nat.zero_lt_of_lt h.capped))]
        exact hprev
      · exact .inr ⟨.inl rfl, rfl, rfl⟩

theorem searchLoop_inv (fuel : Nat) (h : SearchInv tokens maxNgram s)
    (hfuel : 2 * (tokens.length - s.i) + s.prevLps ≤ fuel) :
    ∃ s', searchLoop tokens maxNgram fuel s = some s' ∧ SearchInv tokens maxNgram s' ∧
      s'.i = tokens.length := by
  have hwithin := h.within
  induction fuel generalizing s with
  | zero =>
    rw [searchLoop, if_neg (by omega)]
    exact ⟨s, rfl, h, by omega⟩
  | succ fuel ih =>
    rw [searchLoop]
    split
    · rename_i hi
      obtain ⟨hinv, hless⟩ := h.step hi
      exact ih hinv (by omega) hinv.within
    · exact ⟨s, rfl, h, by omega⟩

theorem longestRecurring_spec (tokens : List α) (maxNgram : Nat)
    (hne : longestRecurring tokens maxNgram ≠ 0) :
    longestRecurring tokens maxNgram ≤ maxNgram ∧
      ∃ p < tokens.length, RecursAt tokens (longestRecurring tokens maxNgram) p :=
  ⟨Nat.findGreatest_le maxNgram, Nat.findGreatest_of_ne_zero rfl hne⟩

theorem searchLoop_longest {fuel : Nat} (hlen : 1 ≤ tokens.length) (hmax : 1 ≤ maxNgram)
    (hfuel : 2 * tokens.length ≤ fuel) :
    ∃ s, searchLoop tokens.reverse maxNgram fuel .start = some s ∧
      s.longestNgram = longestRecurring tokens maxNgram ∧
      (s.longestNgram ≠ 0 →
        IsLeast {p | RecursAt tokens s.longestNgram p} (tokens.length - 1 - s.position)) := by
  have hrev := tokens.length_reverse
  obtain ⟨s, hs, h, hi⟩ := searchLoop_inv fuel (searchInv_start (hrev.symm ▸ hlen) hmax)
    (by rw [hrev]; simp only [Search.start]; omega)
  rw [hrev] at hi
  have hrecurs : ∀ p n, RecursAt tokens n p → Ends tokens.reverse n (tokens.length - p) := by
    intro p n hp
    have hlt := hp.1
    rw [ends_reverse_iff (Nat.sub_le _ _), Nat.sub_sub_self (by omega)]
    exact hp
  refine ⟨s, hs, Nat.le_antisymm ?_ ?_, fun hne => ?_⟩
  · by_contra hlt
    obtain ⟨hle, ⟨hpos, hends⟩, -⟩ := h.found (by omega)
    rw [hi] at hpos
    exact hlt (Nat.le_findGreatest hle ⟨_, by omega, (ends_reverse_iff hpos).mp hends⟩)
  · by_contra hlt
    obtain ⟨hle, p, -, hp⟩ := longestRecurring_spec tokens maxNgram (by omega)
    exact hlt (h.best _ (by omega) _ hle (hrecurs p _ hp))
  · obtain ⟨-, ⟨hpos, hends⟩, hlast⟩ := h.found hne
    rw [hi] at hpos
    rw [Nat.sub_sub, Nat.add_comm 1]
    refine ⟨(ends_reverse_iff hpos).mp hends, fun p hp => ?_⟩
    have hle := hlast ⟨by omega, hrecurs p _ hp⟩
    omega

/-- The draft is what follows the earliest place at which the longest recurring end of the tokens
occurs; where none is long enough, or no token fits below the model length, there is no draft. -/
theorem propose_longest_earliest (tokens : List α) {minNgram maxNgram : Nat}
    (hmin : 1 ≤ minNgram) (hmax : minNgram ≤ maxNgram) (maxModelLen k : Int) {fuel : Nat}
    (hfuel : 2 * tokens.length ≤ fuel) :
    let draft := findLongestMatchedNgramAndProposeTokens fuel tokens minNgram maxNgram maxModelLen k
    let n := longestRecurring tokens maxNgram
    let room := min k (maxModelLen - tokens.length)
    if n < minNgram ∨ room ≤ 0 then draft = some []
    else ∃ p, IsLeast {p | RecursAt tokens n p} p ∧
      draft = some ((tokens.drop (p + n)).take room.toNat) := by
  unfold findLongestMatchedNgramAndProposeTokens
  by_cases hshort : tokens.length < minNgram
  · have hn : longestRecurring tokens maxNgram < minNgram := by
      by_contra hlt
      obtain ⟨-, p, -, hp, -⟩ := longestRecurring_spec tokens maxNgram (by omega)
      omega
    rw [if_pos hshort, if_pos (.inl hn)]
  rw [if_neg hshort]
  by_cases hfits : min k (maxModelLen - tokens.length) ≤ 0
  · rw [if_pos hfits, if_pos (.inr hfits)]
  obtain ⟨s, hs, hlongest, hleast⟩ := searchLoop_longest (by omega) (hmin.trans hmax) hfuel
  rw [if_neg hfits, hs, ← hlongest, Option.bind_eq_bind, Option.bind_some]
  by_cases hmatch : s.longestNgram < minNgram
  · rw [if_pos hmatch, if_pos (.inl hmatch)]
  rw [if_neg hmatch, if_neg (not_or.mpr ⟨hmatch, hfits⟩)]
  refine ⟨_, hleast (by omega), congrArg some ?_⟩
  rw [take_eq_take_iff, length_drop]
  omega

theorem propose_longest_earliest_two :
    ∃ p, IsLeast {p | RecursAt [7, 8, 9, 7, 8] (longestRecurring [7, 8, 9, 7, 8] 3) p} p ∧
      findLongestMatchedNgramAndProposeTokens 10 [7, 8, 9, 7, 8] 1 3 100 2 =
        some (([7, 8, 9, 7, 8].drop (p + longestRecurring [7, 8, 9, 7, 8] 3)).take 2) := by
  have h := propose_longest_earliest [7, 8, 9, 7, 8] (by decide : 1 ≤ 1) (by decide : 1 ≤ 3) 100 2
    (by decide : 2 * 5 ≤ 10)
  rwa [if_neg (by decide)] at h

end Vllm.SpecDecode
