import Vllm.KVCache.HybridVisit

/-! The configurations whose answers are always servable, exactly: for every other one there
is a pool for which the loop returns blocks that do not fit the hit length. -/
namespace Vllm.KVCache
open List LoopState KVCacheConfig Nat

variable {cfg : HybridConfig} {g : SpecGroup} {f : Nat → Nat → Bool} {st : LoopState}
variable {H k m bound : Nat} {rows : List Row}

def Unservable (cfg : HybridConfig) : Prop :=
  ∃ q blocks L, q.pool.NullUncached ∧ cfg.findLongestCacheHit q = .ok (blocks, L) ∧
    ¬ cfg.Servable q blocks L

/-- When what the visits keep leaves some group with rows of another length than the hit, the
answer is not servable. -/
theorem unservable_of_scene (f : Nat → Nat → Bool) (maxLength : Nat)
    {P : Nat → Nat → LoopState → Prop} (kept : KeptOnScene cfg f maxLength P)
    (finish : ∀ {H L st}, P H cfg.attentionGroups.length st →
      (L = H ∧ H ≤ st.currHitLength ∨
        cfg.isSimpleHybrid = true ∧ L = st.currHitLength ∧ L < H) →
      ∃ k g rows, cfg.attentionGroups[k]? = some g ∧ cfg.finalHits st L k = some rows ∧
        rows.length * g.spec.blockSize ≠ L) : Unservable cfg := by
  obtain ⟨L, H, st, hresult, inv, hend⟩ := findLongestCacheHit_scene kept
  obtain ⟨k, g, rows, hk, hrows, hne⟩ := finish inv hend
  exact ⟨_, _, L, sceneQuery_nullUncached _ _ _, hresult, fun served => hne (served.length_eq hk hrows)⟩

def Fresh (k : Nat) (st : LoopState) : Prop := ∀ i, k ≤ i → st.hits i = none

theorem Fresh.found (fresh : Fresh k st) (g : SpecGroup) (rows : List Row) :
    Fresh (k + 1) (st.found k g rows) := fun i hi => by
  rw [found_hits_of_ne g rows (by omega)]
  exact fresh i (by omega)

theorem Fresh.not_isSome (fresh : Fresh k st) : ¬ (st.hits k).isSome = true := by
  simp [fresh k le_rfl]

/-- Only the rows of a leading full-attention group are cut to the hit length. -/
theorem finalHits_ne_zero (hk : cfg.attentionGroups[k]? = some g)
    (hnot : ¬ (k = 0 ∧ g.spec.isFullAttention = true)) (hrows : st.hits k = some rows)
    (hne : rows ≠ []) :
    ∃ k g rows, cfg.attentionGroups[k]? = some g ∧ cfg.finalHits st 0 k = some rows ∧
      rows.length * g.spec.blockSize ≠ 0 :=
  ⟨k, g, rows, hk, (finalHits_eq_hits hk hnot st 0).trans hrows,
    Nat.mul_ne_zero (by simpa using hne) (cfg.blockSize_pos (mem_of_getElem? hk)).ne'⟩

/-! ### Two full-attention groups and a third group -/

/-- The first two groups found blocks and keep them. -/
def TwoKept (st : LoopState) : Prop :=
  (st.hits 0).isSome = true ∧ ∃ rows, st.hits 1 = some rows ∧ rows ≠ []

theorem TwoKept.found (kept : TwoKept st) (hk : 2 ≤ k) (g : SpecGroup) (rows : List Row) :
    TwoKept (st.found k g rows) := by
  rw [TwoKept, found_hits_of_ne g rows (by omega), found_hits_of_ne g rows (by omega)]
  exact kept

theorem unservable_of_second_full {g₀ g₁ : SpecGroup} (h₀ : cfg.attentionGroups[0]? = some g₀)
    (h₁ : cfg.attentionGroups[1]? = some g₁) (hfull₀ : g₀.spec.isFullAttention = true)
    (hfull₁ : g₁.spec.isFullAttention = true) (hlong : 2 < cfg.attentionGroups.length) :
    Unservable cfg := by
  have hpos := cfg.scheduler_pos
  have hfull : ∀ {k g}, cfg.attentionGroups[k]? = some g → k < 2 →
      g.spec.isFullAttention = true := by
    intro k g hk hk2
    obtain rfl | rfl : k = 0 ∨ k = 1 := by omega
    · exact Option.some.inj (h₀.symm.trans hk) ▸ hfull₀
    · exact Option.some.inj (h₁.symm.trans hk) ▸ hfull₁
  -- in the first round the first two groups find blocks and the others none
  refine unservable_of_scene (fun k _ => decide (k < 2)) (2 * cfg.schedulerBlockSize)
    (P := fun H k st => (H = 0 ∧ st.currHitLength = 0 ∧ TwoKept st) ∨ (0 < H ∧ Fresh k st ∧
      (k < 2 → ∃ c, st.currHitLength = c * cfg.schedulerBlockSize ∧ 1 ≤ c ∧ c ≤ 2) ∧
      (k = 1 → (st.hits 0).isSome = true) ∧ (1 < k → TwoKept st) ∧ (2 < k → st.currHitLength = 0)))
    ⟨.inr ⟨by omega, fun _ _ => rfl, fun _ => ⟨2, rfl, by omega, le_rfl⟩, by omega, by omega,
      by omega⟩, ?_, ?_, ?_⟩ ?_
  · rintro H k g st hk (⟨hH, hzero, kept⟩ | ⟨-, fresh, -⟩) - hsome
    · exact .inl ⟨hH, by simp [hzero], kept⟩
    · exact absurd hsome fresh.not_isSome
  · rintro H k g st rows bound (⟨hH, hzero, kept⟩ | ⟨hH, fresh, hcurr, hfirst, hkept, -⟩) hnew visit
    · have hk2 : 2 ≤ k := by
        by_contra hk2
        refine hnew ⟨hfull visit.group (by omega), ?_⟩
        obtain ⟨hsome, rows, hrows, -⟩ := kept
        obtain rfl | rfl : k = 0 ∨ k = 1 := by omega
        · exact hsome
        · rw [hrows]
          rfl
      obtain rfl := visit.none fun t _ => decide_eq_false (by omega)
      exact .inl ⟨hH, by simp [found], kept.found hk2 g []⟩
    by_cases hk2 : k < 2
    · obtain ⟨c, hc, hc1, hc2⟩ := hcurr hk2
      have hfull := hfull visit.group hk2
      obtain ⟨c', hlen, hc1', hc2', -⟩ := visit.ample (n := 1) 0 (Nat.mul_pos Nat.one_pos hpos)
        (fun w hw => by simp [KVCacheSpec.isFullAttention, hw] at hfull) (fun _ => rfl)
        (fun t _ => decide_eq_true hk2) hc hc1 hc2
      refine .inr ⟨hH, fresh.found g rows, fun _ => ⟨c', hlen, hc1', hc2'⟩, fun h => ?_, fun h => ?_,
        fun h => by omega⟩
      · obtain rfl : k = 0 := by omega
        rfl
      · obtain rfl : k = 1 := by omega
        refine ⟨(found_hits_of_ne g rows zero_ne_one).symm ▸ hfirst rfl, rows, found_hits_self .., ?_⟩
        rintro rfl
        have := Nat.mul_pos hc1' hpos
        simp [← hlen] at this
    · obtain rfl := visit.none fun t _ => decide_eq_false hk2
      exact .inr ⟨hH, fresh.found g [], fun h => by omega, fun h => by omega,
        fun _ => (hkept (by omega)).found (by omega) g [], fun _ => by simp [found]⟩
  · rintro H st (⟨rfl, -⟩ | ⟨-, -, -, -, hkept, hzero⟩) hlt -
    · exact absurd hlt (Nat.not_lt_zero _)
    · exact .inl ⟨hzero hlong, hzero hlong, hkept (by omega)⟩
  · intro H L st inv hend
    obtain ⟨rfl, -, rows, hrows, hne⟩ : L = 0 ∧ TwoKept st := by
      rcases inv with ⟨rfl, hzero, kept⟩ | ⟨hH, -, -, -, hkept, hzero⟩
      · exact ⟨by omega, kept⟩
      · have := hzero hlong
        exact ⟨by omega, hkept (by omega)⟩
    exact finalHits_ne_zero h₁ (fun h => by cases h.1) hrows hne

/-! ### An overshooting Mamba group -/

section Overshoot

/-- Everything for the groups before `m`; for `m` the first state and the one at `n + 2`
alignments; for the groups behind it the tokens in between. -/
def staggered (align m n k t : Nat) : Bool :=
  if k < m then true
  else if k = m then t == align || t == (n + 2) * align
  else decide (2 * align < t) && decide (t ≤ (n + 1) * align)

/-- A round with hit length 0: as long as the group is not verified, its visit leaves it a
block. -/
def AtZero (m k : Nat) (st : LoopState) : Prop :=
  (k ≤ m → m ∉ st.eagleVerified) ∧ (m < k → ∃ rows, st.hits m = some rows ∧ rows ≠ [])

variable {n bound : Nat} {b : SpecGroup}
variable (hm : cfg.attentionGroups[m]? = some g) (hover : cfg.IsOvershooting g)

section
include hm hover

theorem ne_of_isFullAttention (hk : cfg.attentionGroups[k]? = some b)
    (hfull : b.spec.isFullAttention = true) : k ≠ m := by
  rintro rfl
  rw [← Option.some.inj (hm.symm.trans hk), isFullAttention_of_isMamba hover.1] at hfull
  cases hfull

theorem AtZero.trim (inv : AtZero m k st) (hk : cfg.attentionGroups[k]? = some b)
    (hfull : b.spec.isFullAttention = true) (n : Nat) :
    AtZero m (k + 1) { st with currHitLength := n } := by
  have hne := ne_of_isFullAttention hm hover hk hfull
  exact ⟨fun h => inv.1 (by omega), fun h => inv.2 (by omega)⟩

theorem AtZero.find {maxLength : Nat} (inv : AtZero m k st)
    (hcached : f m cfg.schedulerBlockSize = true) (hmax : cfg.schedulerBlockSize ≤ maxLength)
    (visit : SceneVisit cfg f maxLength k b st bound rows) :
    AtZero m (k + 1) (st.found k b rows) := by
  by_cases hkm : k = m
  · subst hkm
    obtain ⟨hk, hle, hbound, hhit⟩ := visit
    cases hm.symm.trans hk
    obtain ⟨hmamba, heagle, hblock⟩ := hover
    refine ⟨fun h => by omega, fun _ => ⟨rows, found_hits_self .., ?_⟩⟩
    rintro rfl
    have hpos := cfg.blockSize_pos (mem_of_getElem? hk)
    rw [dropsAt_eq_true heagle (inv.1 le_rfl), if_pos rfl] at hbound
    have hone : 0 < bound / g.spec.blockSize :=
      div_pos (hbound ▸ Nat.le_min.mpr ⟨le_add_left _ _, hblock ▸ hmax⟩) hpos
    obtain ⟨row, hrow⟩ := (groupScene_readsAt hk hle).hit hone (by simpa [hblock] using hcached)
    rw [sceneHit, managerHit_of_isMamba hmamba] at hhit
    have hlen := le_mambaHit_length hhit hone ⟨row, hrow⟩
      (by rw [hblock]; exact Nat.dvd_mul_left _ _)
    simp at hlen
  · refine ⟨fun h => notMem_found_verified b rows (Ne.symm hkm) (inv.1 (by omega)), fun h => ?_⟩
    rw [found_hits_of_ne b rows (Ne.symm hkm)]
    exact inv.2 (by omega)

theorem AtZero.finish (inv : AtZero m cfg.attentionGroups.length st) :
    ∃ k g rows, cfg.attentionGroups[k]? = some g ∧ cfg.finalHits st 0 k = some rows ∧
      rows.length * g.spec.blockSize ≠ 0 := by
  obtain ⟨rows, hrows, hne⟩ := inv.2 (List.getElem?_eq_some_iff.mp hm).1
  exact finalHits_ne_zero hm (fun h => ne_of_isFullAttention hm hover hm h.2 rfl) hrows hne

/-- It is visited last: it raises the hit that the groups before it had given up. -/
theorem unservable_of_last_overshoot (hlast : m + 1 = cfg.attentionGroups.length) :
    Unservable cfg := by
  have hpos := cfg.scheduler_pos
  have htwo := cfg.two_groups
  obtain ⟨hmamba, heagle, hblock⟩ := hover
  refine unservable_of_scene (fun k _ => decide (k = m)) cfg.schedulerBlockSize
    (P := fun H k st => H = cfg.schedulerBlockSize ∧ Fresh k st ∧ (0 < k → st.hits 0 = some []) ∧
      (k ≤ m → m ∉ st.eagleVerified) ∧ (m < k → st.currHitLength = cfg.schedulerBlockSize))
    ⟨⟨rfl, fun _ _ => rfl, fun h => absurd h (Nat.lt_irrefl 0), fun _ => not_mem_nil,
      nofun⟩,
      fun _ inv _ hsome => absurd hsome inv.2.1.not_isSome, ?_, ?_⟩ ?_
  · rintro H k a st rows bound ⟨rfl, fresh, hhits, hver, -⟩ - visit
    have hlt := (List.getElem?_eq_some_iff.mp visit.group).1
    refine ⟨rfl, fresh.found a rows, fun _ => ?_, fun h => ?_, fun h => ?_⟩
    · rcases Nat.eq_zero_or_pos k with rfl | hkpos
      · rw [found_hits_self, visit.none fun t _ => decide_eq_false (by omega)]
      · rw [found_hits_of_ne a rows (by omega)]
        exact hhits hkpos
    · exact notMem_found_verified a rows (by omega) (hver (by omega))
    · obtain rfl : k = m := by omega
      obtain ⟨hk, hle, hbound, hhit⟩ := visit
      cases hm.symm.trans hk
      rw [dropsAt_eq_true heagle (hver le_rfl), if_pos rfl, hblock] at hbound
      have hge : cfg.schedulerBlockSize ≤ bound := hbound ▸ Nat.le_min.mpr ⟨le_add_left _ _, le_rfl⟩
      exact sceneHit_mamba (f := fun i _ => decide (i = k)) hk hle hmamba hpos hge (Nat.dvd_refl _)
        (decide_eq_true rfl) (fun t' h h' => by omega) hhit
  · rintro H st ⟨rfl, -, -, -, hcurr⟩ hlt _
    exact absurd hlt (hcurr (by omega)).not_lt
  · rintro H L st ⟨rfl, -, hhits, -, hcurr⟩ hend
    obtain ⟨a, ha⟩ : ∃ a, cfg.attentionGroups[0]? = some a := ⟨_, getElem?_eq_getElem (by omega)⟩
    have hL : L = cfg.schedulerBlockSize := by
      omega
    refine ⟨0, a, [], ha, ?_, by simp [hL, hpos.ne]⟩
    simp only [finalHits, head?_eq_getElem?, ha]
    split
    · simp [hhits (by omega)]
    · exact hhits (by omega)

theorem not_simpleHybrid (hafter : m + 1 < cfg.attentionGroups.length) :
    cfg.isSimpleHybrid = false := by
  rcases Nat.eq_zero_or_pos m with rfl | hpos
  · simp [isSimpleHybrid, head?_eq_getElem?, hm, isFullAttention_of_isMamba hover.1]
  · have hne : cfg.attentionGroups.length ≠ 2 := by omega
    simp [isSimpleHybrid, hne]

theorem not_fullAttention_after (hmk : m < k) (hk : cfg.attentionGroups[k]? = some b) :
    b.spec.isFullAttention = false := Bool.eq_false_iff.mpr fun h => by
  have hfull := cfg.isFullAttention_of_lt hmk hm hk h
  rw [isFullAttention_of_isMamba hover.1] at hfull
  cases hfull

/-- A later group without EAGLE clears what was verified. -/
theorem unservable_of_plain_after {j : Nat} {a : SpecGroup}
    (hj : cfg.attentionGroups[j]? = some a) (hmj : m < j) (hplain : a.useEagle = false) :
    Unservable cfg := by
  have hpos := cfg.scheduler_pos
  obtain ⟨n, hn⟩ := exists_window_bound cfg.attentionGroups
  have hjlt := (List.getElem?_eq_some_iff.mp hj).1
  have hsimple := not_simpleHybrid hm hover (by omega)
  have hmax : 0 < (n + 1 + 1) * cfg.schedulerBlockSize := Nat.mul_pos (succ_pos _) hpos
  refine unservable_of_scene (fun k _ => decide (k < j)) ((n + 1 + 1) * cfg.schedulerBlockSize)
    (P := fun H k st => (H = 0 ∧ AtZero m k st) ∨ (0 < H ∧ Fresh k st ∧
      (k ≤ j → ∃ c, st.currHitLength = c * cfg.schedulerBlockSize ∧ n + 1 ≤ c ∧ c ≤ n + 1 + 1) ∧
      (j < k → st.currHitLength = 0 ∧ m ∉ st.eagleVerified)))
    ⟨.inr ⟨hmax, fun _ _ => rfl, fun _ => ⟨n + 1 + 1, rfl, le_succ _, le_rfl⟩,
      nofun⟩, ?_, ?_, ?_⟩ ?_
  · rintro H k b st hk (⟨hH, inv⟩ | ⟨-, fresh, -⟩) hfull hsome
    · exact .inl ⟨hH, inv.trim hm hover hk hfull _⟩
    · exact absurd hsome fresh.not_isSome
  · rintro H k b st rows bound (⟨hH, inv⟩ | ⟨hH, fresh, hcurr, hend⟩) - visit
    · exact .inl ⟨hH, inv.find hm hover (decide_eq_true hmj)
        (Nat.le_mul_of_pos_left _ (succ_pos _)) visit⟩
    refine .inr ⟨hH, fresh.found b rows, fun hkj => ?_, fun hjk => ?_⟩
    · obtain ⟨c, hc, hc1, hc2⟩ := hcurr (by omega)
      obtain ⟨c', hlen, hc1', hc2', -⟩ := visit.ample 0 (Nat.mul_pos (succ_pos n) hpos)
        (fun w hw => (Nat.zero_add _).trans_le ((hn _ (mem_of_getElem? visit.group) w hw).trans
          ((le_succ n).trans (Nat.le_mul_of_pos_right _ hpos))))
        (fun _ => rfl) (fun t _ => decide_eq_true hkj) hc hc1 hc2
      exact ⟨c', hlen, hc1', hc2'⟩
    · obtain rfl := visit.none fun t _ => decide_eq_false (by omega)
      refine ⟨by simp [found], ?_⟩
      rcases Nat.lt_or_eq_of_le (le_of_lt_succ hjk) with h | rfl
      · exact notMem_found_verified b [] (by omega) (hend h).2
      obtain ⟨c, hc, hc1, -⟩ := hcurr le_rfl
      cases hj.symm.trans visit.group
      have hcpos : 0 < st.currHitLength := hc ▸ Nat.mul_pos (by omega) hpos
      have hdrop : dropsAt j a st = false := dropsAt_eq_false fun h => by
        rw [hplain] at h
        cases h
      simp [found, hdrop, hcpos]
  · rintro H st (⟨rfl, -⟩ | ⟨-, -, -, hend⟩) hlt -
    · exact absurd hlt (Nat.not_lt_zero _)
    · exact .inl ⟨(hend hjlt).1, fun _ => (hend hjlt).2, nofun⟩
  · rintro H L st (⟨rfl, inv⟩ | ⟨hH, -, -, hend⟩) hexit
    · obtain rfl : L = 0 := by omega
      exact inv.finish hm hover
    · rw [hsimple] at hexit
      simp at hexit
      omega

/-- The first round on that pool: every EAGLE group is verified and the hit is `n` or `n + 1`
alignments in the end. -/
structure FirstRound (cfg : HybridConfig) (m n k : Nat) (st : LoopState) : Prop where
  fresh : Fresh k st
  length : ∃ c, st.currHitLength = c * cfg.schedulerBlockSize ∧ n ≤ c ∧ c ≤ n + 2 ∧
    (k ≤ m → n + 1 ≤ c) ∧ (m + 1 < k → c ≤ n + 1)
  verified_lt : ∀ i ∈ st.eagleVerified, i < k
  verified : ∀ i a, i < k → cfg.attentionGroups[i]? = some a → a.useEagle = true →
    i ∈ st.eagleVerified

/-- The second round, with hit length `H`: the group falls back to its first state, which clears
what was verified, and the groups behind it find nothing. -/
structure SecondRound (cfg : HybridConfig) (m H k : Nat) (st : LoopState) : Prop where
  before : k ≤ m → st.currHitLength = H ∧
    ∀ i a, cfg.attentionGroups[i]? = some a → a.useEagle = true → i ∈ st.eagleVerified
  behind : m < k → st.currHitLength ≤ cfg.schedulerBlockSize ∧
    (m + 1 < k → st.currHitLength = 0) ∧ ∀ i ∈ st.eagleVerified, m < i ∧ i < k

theorem SecondRound.trim (inv : SecondRound cfg m H k st) (hH : cfg.schedulerBlockSize ∣ H)
    (hk : cfg.attentionGroups[k]? = some b) (hfull : b.spec.isFullAttention = true) :
    SecondRound cfg m H (k + 1) { st with
      currHitLength := st.currHitLength / b.spec.blockSize * b.spec.blockSize } := by
  have hne := ne_of_isFullAttention hm hover hk hfull
  have hkm : k < m := by
    by_contra h
    rw [not_fullAttention_after hm hover (by omega) hk] at hfull
    cases hfull
  obtain ⟨hcurr, hver⟩ := inv.before hkm.le
  refine ⟨fun _ => ⟨?_, hver⟩, fun h => by omega⟩
  rw [← hcurr] at hH ⊢
  exact Nat.div_mul_cancel (Nat.dvd_trans (cfg.blockSize_dvd (mem_of_getElem? hk)) hH)

variable (heagle : ∀ k a, m < k → cfg.attentionGroups[k]? = some a → a.useEagle = true)
include heagle

theorem FirstRound.find (inv : FirstRound cfg m n k st) (hn : 2 < n)
    (hfits : ∀ w, b.spec.kind = .slidingWindow w → 2 * cfg.schedulerBlockSize + (w - 1) ≤
      n * cfg.schedulerBlockSize) (visit : SceneVisit cfg (staggered cfg.schedulerBlockSize m n)
      ((n + 2) * cfg.schedulerBlockSize) k b st bound rows) :
    FirstRound cfg m n (k + 1) (st.found k b rows) := by
  have hpos := cfg.scheduler_pos
  have ⟨hk, hle, hbound, hhit⟩ := visit
  obtain ⟨fresh, ⟨c, hc, hc1, hc2, hbefore, -⟩, hlt, hver⟩ := inv
  have hfresh : k ∉ st.eagleVerified := fun h => absurd (hlt k h) (Nat.lt_irrefl k)
  suffices h : ∃ c', rows.length * b.spec.blockSize = c' * cfg.schedulerBlockSize ∧ n ≤ c' ∧
      c' ≤ n + 2 ∧ (k < m → n + 1 ≤ c') ∧ (m < k → c' ≤ n + 1) ∧
      (dropsAt k b st = false → c' = c) by
    obtain ⟨c', hlen, hn1, hn2, hleft, hright, hsame⟩ := h
    refine ⟨fresh.found b rows, ⟨c', hlen, hn1, hn2, hleft, fun h => hright (by omega)⟩, ?_, ?_⟩
    · intro i hi
      rcases mem_verified_of_found hi with rfl | hi
      · exact lt_succ_self i
      · exact (hlt i hi).trans (lt_succ_self k)
    · intro i a hi ha hea
      refine mem_found_verified b rows (fun hdrop => by rw [hlen, hsame hdrop, hc]) ?_
      rcases Nat.lt_succ_iff_lt_or_eq.mp hi with hi | rfl
      · exact .inl (hver i a hi ha hea)
      · cases hk.symm.trans ha
        exact .inr ⟨rfl, dropsAt_eq_true hea hfresh⟩
  rw [hc] at hbound
  rcases Nat.lt_trichotomy k m with hkm | rfl | hkm
  · obtain ⟨c', hlen, hc1', hc2', hsame⟩ := visit.ample (n := n + 1) 0
      (Nat.mul_pos (succ_pos n) hpos)
      (fun w hw => by have := hfits w hw; rw [Nat.add_mul]; omega) (fun _ => rfl)
      (fun t _ => by simp [staggered, hkm]) hc (hbefore hkm.le) hc2
    exact ⟨c', hlen, by omega, hc2', fun _ => hc1', fun h => by omega, hsame⟩
  · cases hm.symm.trans hk
    obtain ⟨hmamba, hea, hblock⟩ := hover
    have hdrop := dropsAt_eq_true hea hfresh
    rw [hdrop, if_pos rfl, hblock, ← succ_mul, Nat.min_eq_right
      (Nat.mul_le_mul_right _ (succ_le_succ (hbefore le_rfl)))] at hbound
    have hlen := sceneHit_mamba (f := staggered cfg.schedulerBlockSize k n) hk hle hmamba
      (Nat.mul_pos (succ_pos _) hpos) hbound.ge (Nat.dvd_mul_left _ _) (by simp [staggered])
      (fun t' h h' => absurd h (Nat.not_lt.mpr (hbound ▸ h'))) hhit
    exact ⟨n + 2, hlen, by omega, le_rfl, fun h => by omega, fun h => by omega,
      fun h => by rw [hdrop] at h; cases h⟩
  · have hdrop := dropsAt_eq_true (heagle k b hkm hk) hfresh
    have hfull := not_fullAttention_after hm hover hkm hk
    have hkm' : ¬ k < m := by omega
    have hge := Nat.mul_le_mul_right cfg.schedulerBlockSize hc1
    rw [hdrop] at hbound hhit
    have hsettles : Settles b.spec (staggered cfg.schedulerBlockSize m n k)
        cfg.schedulerBlockSize bound (2 * cfg.schedulerBlockSize) n := by
      refine ⟨Nat.mul_lt_mul_of_pos_right hn hpos, hfits, ?_, ?_, ?_, ?_⟩
      · intro h
        rw [hfull] at h
        cases h
      · have := blockSize_le hk
        rw [hbound, if_pos rfl, Nat.add_mul]
        omega
      · intro t ht ht'
        simp [staggered, hkm', hkm.ne', ht, ht']
      · intro t ht _
        simp [staggered, hkm', hkm.ne', Nat.not_le.mpr ht]
    obtain ⟨c', hlen, hc1', hc2', -⟩ := sceneHit_settles hk hle hsettles hhit
    exact ⟨c', hlen, hc1', by omega, fun h => by omega, fun _ => hc2',
      fun h => by rw [hdrop] at h; cases h⟩

theorem SecondRound.find (inv : SecondRound cfg m H k st)
    (hH : cfg.schedulerBlockSize ∣ H) (hlow : cfg.schedulerBlockSize < H)
    (hhigh : H < (n + 2) * cfg.schedulerBlockSize)
    (visit : SceneVisit cfg (staggered cfg.schedulerBlockSize m n)
      ((n + 2) * cfg.schedulerBlockSize) k b st bound rows) :
    SecondRound cfg m H (k + 1) (st.found k b rows) := by
  have ⟨hk, hle, hbound, hhit⟩ := visit
  rcases Nat.lt_trichotomy k m with hkm | rfl | hkm
  · obtain ⟨hcurr, hver⟩ := inv.before hkm.le
    have hdrop := dropsAt_eq_false (hver k b hk)
    rw [hdrop, if_neg Bool.false_ne_true, hcurr] at hbound
    rw [hdrop, hbound] at hhit
    have hlen := sceneHit_all hk (hbound ▸ hle) hH (fun t _ => by simp [staggered, hkm]) hhit
    refine ⟨fun _ => ⟨hlen, fun i a hi hea => ?_⟩, fun h => by omega⟩
    exact mem_found_verified b rows (fun _ => by omega) (.inl (hver i a hi hea))
  · cases hm.symm.trans hk
    obtain ⟨hcurr, hver⟩ := inv.before le_rfl
    have hdrop := dropsAt_eq_false (hver k g hk)
    rw [hdrop, if_neg Bool.false_ne_true] at hbound
    have hlen := sceneHit_mamba (f := staggered cfg.schedulerBlockSize k n) hk hle hover.1
      cfg.scheduler_pos (by omega) (Nat.dvd_refl _) (by simp [staggered]) (fun t' h h' => by
        have hne : t' ≠ (n + 2) * cfg.schedulerBlockSize := by omega
        simp [staggered, h.ne', hne]) hhit
    refine ⟨fun h => by omega, fun _ => ⟨hlen.le, fun h => by omega, fun i hi => ?_⟩⟩
    simp [found, hdrop, hlen, hcurr, hlow] at hi
  · obtain ⟨hcurr, -, hver⟩ := inv.behind hkm
    have hkm' : ¬ k < m := by omega
    rw [dropsAt_eq_true (heagle k b hkm hk) fun h => absurd (hver k h).2 (Nat.lt_irrefl k),
      if_pos rfl] at hbound
    obtain rfl := visit.none fun t ht => by
      have := blockSize_le hk
      have hshort : ¬ 2 * cfg.schedulerBlockSize < t := by omega
      simp [staggered, hkm', hkm.ne', hshort]
    refine ⟨fun h => by omega, fun _ => ⟨by simp [found], fun _ => by simp [found], fun i hi => ?_⟩⟩
    rcases mem_verified_of_found hi with rfl | hi
    · exact ⟨hkm, lt_succ_self i⟩
    · exact ⟨(hver i hi).1, (hver i hi).2.trans (lt_succ_self k)⟩

theorem unservable_of_eagle_after (hafter : m + 1 < cfg.attentionGroups.length) :
    Unservable cfg := by
  have hpos := cfg.scheduler_pos
  obtain ⟨n, hn⟩ := exists_window_bound cfg.attentionGroups
  have hfits : ∀ {k : Nat} {b : SpecGroup}, cfg.attentionGroups[k]? = some b → ∀ w,
      b.spec.kind = .slidingWindow w → 2 * cfg.schedulerBlockSize + (w - 1) ≤
        (n + 3) * cfg.schedulerBlockSize := fun hb w hw => by
    have hle := (hn _ (mem_of_getElem? hb) w hw).trans (Nat.le_mul_of_pos_right n hpos)
    rw [Nat.add_mul]
    omega
  have hsimple := not_simpleHybrid hm hover hafter
  have hlt : ∀ {c c' : Nat}, c < c' → c * cfg.schedulerBlockSize < c' * cfg.schedulerBlockSize :=
    fun h => Nat.mul_lt_mul_of_pos_right h hpos
  refine unservable_of_scene (staggered cfg.schedulerBlockSize m (n + 3))
    ((n + 3 + 2) * cfg.schedulerBlockSize)
    (P := fun H k st => (H = 0 ∧ AtZero m k st) ∨
      (H = (n + 3 + 2) * cfg.schedulerBlockSize ∧ FirstRound cfg m (n + 3) k st) ∨
      ((∃ c, H = c * cfg.schedulerBlockSize ∧ 1 < c ∧ c < n + 3 + 2) ∧ SecondRound cfg m H k st))
    ⟨.inr (.inl ⟨rfl, fun _ _ => rfl, ⟨n + 3 + 2, rfl, by omega, le_rfl, fun _ => by omega,
      fun h => by omega⟩, by simp, fun i a hi => by omega⟩), ?_, ?_, ?_⟩ ?_
  · rintro H k b st hk (⟨hH, inv⟩ | ⟨-, inv⟩ | ⟨⟨c, rfl, hc⟩, inv⟩) hfull hsome
    · exact .inl ⟨hH, inv.trim hm hover hk hfull _⟩
    · exact absurd hsome inv.fresh.not_isSome
    · exact .inr (.inr ⟨⟨c, rfl, hc⟩, inv.trim hm hover (Nat.dvd_mul_left _ _) hk hfull⟩)
  · rintro H k b st rows bound (⟨hH, inv⟩ | ⟨hH, inv⟩ | ⟨⟨c, rfl, hc⟩, inv⟩) - visit
    · exact .inl ⟨hH, inv.find hm hover (by simp [staggered])
        (Nat.le_mul_of_pos_left _ (succ_pos _)) visit⟩
    · exact .inr (.inl ⟨hH, inv.find hm hover heagle (by omega) (hfits visit.group) visit⟩)
    · have hlow := hlt hc.1
      rw [Nat.one_mul] at hlow
      exact .inr (.inr ⟨⟨c, rfl, hc⟩, inv.find hm hover heagle (Nat.dvd_mul_left _ _) hlow (hlt hc.2)
        visit⟩)
  · rintro H st (⟨rfl, -⟩ | ⟨-, inv⟩ | ⟨-, inv⟩) hless -
    · exact absurd hless (Nat.not_lt_zero _)
    · obtain ⟨c, hc, hc1, -, -, hc2⟩ := inv.length
      exact .inr (.inr ⟨⟨c, hc, by omega, by omega⟩, fun _ => ⟨rfl, fun i a hi =>
        inv.verified i a (List.getElem?_eq_some_iff.mp hi).1 hi⟩, nofun⟩)
    · obtain ⟨-, hzero, hver⟩ := inv.behind (by omega)
      exact .inl ⟨hzero hafter, fun _ h => absurd (hver m h).1 (Nat.lt_irrefl m),
        nofun⟩
  · rintro H L st (⟨rfl, inv⟩ | ⟨rfl, inv⟩ | ⟨⟨c, rfl, hc⟩, inv⟩) hexit
    · obtain rfl : L = 0 := by omega
      exact inv.finish hm hover
    · obtain ⟨c, hc, -, -, -, hc2⟩ := inv.length
      have := hlt (show c < n + 3 + 2 from lt_succ_of_le (hc2 hafter))
      simp [hsimple] at hexit
      omega
    · have hzero := (inv.behind (by omega)).2.1 hafter
      have := Nat.mul_pos (zero_lt_of_lt hc.1) hpos
      simp [hsimple] at hexit
      omega

end

theorem unservable_of_overshooting (hg : g ∈ cfg.attentionGroups) (hover : cfg.IsOvershooting g) :
    Unservable cfg := by
  obtain ⟨m, hm⟩ := mem_iff_getElem?.mp hg
  have hlt := (List.getElem?_eq_some_iff.mp hm).1
  rcases Nat.lt_or_eq_of_le (succ_le_of_lt hlt) with hafter | hlast
  · by_cases heagle : ∀ k a, m < k → cfg.attentionGroups[k]? = some a → a.useEagle = true
    · exact unservable_of_eagle_after hm hover heagle hafter
    · push Not at heagle
      obtain ⟨j, a, hmj, hj, hplain⟩ := heagle
      exact unservable_of_plain_after hm hover hj hmj (Bool.eq_false_iff.mpr hplain)
  · exact unservable_of_last_overshoot hm hover hlast

end Overshoot

theorem unservable_of_full_groups
    (hcount : 1 < cfg.attentionGroups.countP fun g => g.spec.isFullAttention)
    (hlength : cfg.attentionGroups.length ≠ 2) : Unservable cfg := by
  have htwo := cfg.two_groups
  -- full attention is sorted to the front
  have hfront : cfg.attentionGroups.countP (fun g => g.spec.isFullAttention) =
      (cfg.splitGroups.filter (·.spec.isFullAttention)).length := by
    rw [attentionGroups, countP_append, countP_eq_length_filter,
      countP_eq_length_filter, filter_filter, filter_filter]
    simp
  have hget : ∀ k < 2, ∃ g, cfg.attentionGroups[k]? = some g ∧ g.spec.isFullAttention = true := by
    intro k hk
    have hlt : k < (cfg.splitGroups.filter (·.spec.isFullAttention)).length := by omega
    refine ⟨(cfg.splitGroups.filter (·.spec.isFullAttention))[k], ?_, ?_⟩
    · rw [attentionGroups, getElem?_append_left hlt, getElem?_eq_getElem hlt]
    · exact (mem_filter.mp (getElem_mem hlt)).2
  obtain ⟨g₀, h₀, hfull₀⟩ := hget 0 (by omega)
  obtain ⟨g₁, h₁, hfull₁⟩ := hget 1 (by omega)
  exact unservable_of_second_full h₀ h₁ hfull₀ hfull₁ (by omega)

/-- Every answer is servable, whatever the pool holds, exactly for these configurations. -/
theorem findLongestCacheHit_servable_iff (cfg : HybridConfig) :
    (∀ q blocks L, q.pool.NullUncached → cfg.findLongestCacheHit q = .ok (blocks, L) →
      cfg.Servable q blocks L) ↔ cfg.AlwaysServable := by
  constructor
  · intro served
    have hnot : ¬ Unservable cfg := by
      rintro ⟨q, blocks, L, hnull, hfind, hbad⟩
      exact hbad (served q blocks L hnull hfind)
    refine ⟨?_, ?_⟩
    · by_contra hmany
      push Not at hmany
      exact hnot (unservable_of_full_groups hmany.1 hmany.2)
    · intro g hg hover
      exact hnot (unservable_of_overshooting hg hover)
  · intro ok q blocks L hnull hfind
    exact findLongestCacheHit_servable ok hnull hfind

def eagleHybrid : HybridConfig where
  groups := [⟨⟨2, .fullAttention, 0⟩, false⟩, ⟨⟨2, .mamba .all 0, 0⟩, false⟩]
  useEagle := true
  schedulerBlockSize := 2
  hashBlockSize := 2
  hash_pos := Nat.two_pos
  scheduler_pos := Nat.two_pos
  block_pos := by decide
  hash_dvd := by decide
  scheduler_dvd := by decide
  kinds := by simp [KVCacheSpec.IsHybridKind]
  two_groups := by decide
  ids_fit := by decide

/-- Only the Mamba state behind the first block is left in the pool. -/
def strayState : HitQuery where
  pool :=
    { numGpuBlocks := 2
      enableCaching := true
      hashBlockSize := 2
      blockHash := fun b => if b = 1 then some (makeBlockHashWithGroupId [7] 1) else none
      freeQueue := [1]
      numFreeBlocks := 1
      cached := fun key => if key = makeBlockHashWithGroupId [7] 1 then [1] else [] }
  hashes := [[7]]
  maxCacheHitLength := 2

/-- The hit has two tokens, but full attention gets no block for them. -/
theorem findLongestCacheHit_strayState :
    strayState.pool.NullUncached ∧
      eagleHybrid.findLongestCacheHit strayState = .ok ([[], [1]], 2) ∧
      ¬ eagleHybrid.Servable strayState [[], [1]] 2 := by
  refine ⟨?_, rfl, ?_⟩
  · intro key hmem
    simp only [strayState] at hmem
    split at hmem
    · exact absurd (mem_singleton.mp hmem) (by decide)
    · cases hmem
  · intro served
    obtain ⟨bs, hbs, hgroup⟩ := served.groups 0 _ rfl
    obtain rfl : [] = bs := Option.some.inj hbs
    exact absurd hgroup.length_eq (by decide)

end Vllm.KVCache
