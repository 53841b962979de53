import Vllm.KVCache.HybridVisit

/-! When the look-ahead block that the EAGLE drop consumed is cached at the final hit length.
`eagle_verified` is cleared when a lookup without the drop shortens the hit, but not when the
drop of another group does. -/
namespace Vllm.KVCache
open SpecGroup LoopState Bool List Option

/-- A group that forgets its look-ahead block when it is searched again. -/
def SpecGroup.isEagleWindow (g : SpecGroup) : Bool :=
  g.useEagle && !g.spec.isFullAttention

/-- Flags on full attention, and on one sliding-window group at most. -/
structure KVCacheConfig.OneEagleWindow (cfg : KVCacheConfig) : Prop where
  not_mamba : ∀ g ∈ cfg.attentionGroups, g.useEagle = true → g.spec.isMamba = false
  one : cfg.attentionGroups.Pairwise fun a b => ¬ (a.isEagleWindow = true ∧ b.isEagleWindow = true)

variable {cfg : HybridConfig} {q : HitQuery} {g : SpecGroup} {st st' : LoopState}
variable {rows : List Row} {H L k : Nat}

/-- In a round with hit length `H`, before attention group `k` is visited. -/
structure LookaheadCached (cfg : HybridConfig) (q : HitQuery) (H k : Nat) (st : LoopState) :
    Prop where
  curr_le : st.currHitLength ≤ H
  aligned : cfg.schedulerBlockSize ∣ st.currHitLength ∨
    ((∀ i, st.hits i = none) ∧ st.currHitLength = q.maxCacheHitLength)
  done : ∀ j < k, (st.hits j).isSome = true
  looked : ∀ i ∈ st.eagleVerified, ∀ j ≤ i, (st.hits j).isSome = true
  full : ∀ i g, cfg.attentionGroups[i]? = some g → g.useEagle = true →
    g.spec.isFullAttention = true → (st.hits i).isSome = true → 0 < st.currHitLength →
    ∀ j ≤ st.currHitLength / g.spec.blockSize, (cfg.lookup q g).Cached j
  window : ∀ i g, cfg.attentionGroups[i]? = some g → g.isEagleWindow = true →
    i ∈ st.eagleVerified → 0 < st.currHitLength →
    (cfg.lookup q g).Cached (st.currHitLength / g.spec.blockSize)
  visited : ∀ i g, i < k → cfg.attentionGroups[i]? = some g → g.isEagleWindow = true →
    i ∈ st.eagleVerified ∨ st.currHitLength < H ∧ (cfg.isSimpleHybrid = true → i + 1 < k)
  simple : cfg.isSimpleHybrid = true → ∀ i ∈ st.eagleVerified, i < k

namespace LookaheadCached

section
variable (inv : LookaheadCached cfg q H k st)
include inv

theorem trim (hk : cfg.attentionGroups[k]? = some g)
    (hfull : g.spec.isFullAttention = true) (hsome : (st.hits k).isSome = true) :
    LookaheadCached cfg q H (k + 1) { st with
      currHitLength := st.currHitLength / g.spec.blockSize * g.spec.blockSize } := by
  have haligned : cfg.schedulerBlockSize ∣ st.currHitLength :=
    inv.aligned.resolve_right fun h => by rw [h.1 k] at hsome; cases hsome
  rw [Nat.div_mul_cancel (Nat.dvd_trans (cfg.blockSize_dvd (mem_of_getElem? hk)) haligned)]
  refine ⟨inv.curr_le, .inl haligned, fun j hj => ?_, inv.looked, inv.full, inv.window,
    fun i a hi ha hwin => ?_, fun hsimple i hi => Nat.lt_succ_of_lt (inv.simple hsimple i hi)⟩
  · rcases Nat.lt_succ_iff_lt_or_eq.mp hj with hj | rfl
    · exact inv.done j hj
    · exact hsome
  · rcases Nat.lt_succ_iff_lt_or_eq.mp hi with hi | rfl
    · exact (inv.visited i a hi ha hwin).imp_right fun h => ⟨h.1, fun _ => Nat.succ_lt_succ hi⟩
    · simp [isEagleWindow, some.inj (ha.symm.trans hk), hfull] at hwin

variable (once : cfg.OneEagleWindow) (hk : cfg.attentionGroups[k]? = some g)
include once hk

/-- While a window is in the memory, only a lookup without the drop shortens the hit. -/
theorem dropsAt_of_verified
    (hnew : ¬ (g.spec.isFullAttention = true ∧ (st.hits k).isSome = true)) {i : Nat} {a : SpecGroup}
    (ha : cfg.attentionGroups[i]? = some a) (hwin : a.isEagleWindow = true)
    (hi : i ∈ st.eagleVerified) : dropsAt k g st = false := by
  refine dropsAt_eq_false fun hflag => ?_
  obtain ⟨hi', rfl⟩ := List.getElem?_eq_some_iff.mp ha
  obtain ⟨hk', rfl⟩ := List.getElem?_eq_some_iff.mp hk
  have hone := pairwise_iff_getElem.mp once.one
  rcases Nat.lt_trichotomy i k with hlt | rfl | hlt
  · cases hfull : cfg.attentionGroups[k].spec.isFullAttention with
    | false => exact absurd ⟨hwin, by simp [isEagleWindow, hflag, hfull]⟩ (hone i k hi' hk' hlt)
    | true =>
      have := cfg.isFullAttention_of_lt hlt ha hk hfull
      simp [isEagleWindow, this] at hwin
  · exact hi
  · cases hfull : cfg.attentionGroups[k].spec.isFullAttention with
    | false => exact absurd ⟨by simp [isEagleWindow, hflag, hfull], hwin⟩ (hone k i hk' hi' hlt)
    | true => exact absurd ⟨hfull, inv.looked i hi k hlt.le⟩ hnew

theorem find (hnew : ¬ (g.spec.isFullAttention = true ∧ (st.hits k).isSome = true))
    (hle : rows.length * g.spec.blockSize ≤ st.currHitLength) {m : Nat}
    (hhit : managerHit g.spec (cfg.lookup q g) cfg.schedulerBlockSize m (dropsAt k g st) = .ok rows) :
    LookaheadCached cfg q H (k + 1) (st.found k g rows) := by
  have hmem : g ∈ cfg.attentionGroups := mem_of_getElem? hk
  have hblock := cfg.blockSize_pos hmem
  have ok := managerHit_ok (cfg.isHybridKind hmem) hblock hhit
  have hcurr := inv.curr_le
  have hsome : ∀ {j}, j < k + 1 ∨ (st.hits j).isSome = true →
      ((st.found k g rows).hits j).isSome = true := by
    intro j hj
    by_cases hjk : j = k
    · rw [hjk, found_hits_self]
      rfl
    · rw [found_hits_of_ne g rows hjk]
      exact hj.elim (fun hj => inv.done j (by omega)) id
  have serves : g.useEagle = true → dropsAt k g st = true → 0 < rows.length * g.spec.blockSize →
      Serves g.spec (cfg.lookup q g) cfg.schedulerBlockSize m true rows.length :=
    fun hflag hdrop hpos => managerHit_serves (cfg.isHybridKind hmem) hblock
      (fun _ => once.not_mamba g hmem hflag) (hdrop ▸ hhit) (Nat.pos_of_mul_pos_right hpos)
  refine ⟨hle.trans hcurr, .inl ok.length.aligned, fun j hj => hsome (.inl hj),
    fun i hi j hj => hsome ?_, fun i a ha hea hfull hsome' hpos j hj => ?_,
    fun i a ha hwin hi hpos => ?_, fun i a hi ha hwin => ?_, fun hsimple i hi => ?_⟩
  · rcases mem_verified_of_found hi with rfl | hi
    · exact .inl (Nat.lt_succ_of_le hj)
    · exact .inr (inv.looked i hi j hj)
  · by_cases hik : i = k
    · subst hik
      cases ha.symm.trans hk
      have hdrop := dropsAt_eq_true hea fun h => hnew ⟨hfull, inv.looked i h i le_rfl⟩
      simp only [found, Nat.mul_div_cancel _ hblock] at hj
      rcases Nat.lt_or_eq_of_le hj with hj | rfl
      · exact (serves hea hdrop hpos).needed j ((neededBlock_fullAttention hfull).mpr hj)
      · exact (serves hea hdrop hpos).ahead rfl
    · rw [found_hits_of_ne g rows hik] at hsome'
      exact inv.full i a ha hea hfull hsome' (Nat.lt_of_lt_of_le hpos hle) j
        (hj.trans (Nat.div_le_div_right hle))
  · by_cases hold : i ∈ st.eagleVerified
    · have hdrop := inv.dropsAt_of_verified once hk hnew ha hwin hold
      have hsame : rows.length * g.spec.blockSize = st.currHitLength := by
        simp only [found, hdrop, false_eq_true, if_false] at hi
        split at hi
        · cases hi
        · omega
      have hcached := inv.window i a ha hwin hold (hsame ▸ hpos)
      rwa [← hsame] at hcached
    · obtain rfl := (mem_verified_of_found hi).resolve_right hold
      cases ha.symm.trans hk
      simp only [isEagleWindow, and_eq_true] at hwin
      simp only [found, Nat.mul_div_cancel _ hblock]
      exact (serves hwin.1 (dropsAt_eq_true hwin.1 hold) hpos).ahead rfl
  · by_cases hold : i ∈ st.eagleVerified
    · have hdrop := inv.dropsAt_of_verified once hk hnew ha hwin hold
      simp only [found, hdrop, false_eq_true, if_false]
      split
      · exact .inr ⟨by omega, fun hsimple => Nat.succ_lt_succ (inv.simple hsimple i hold)⟩
      · exact .inl hold
    · rcases Nat.lt_succ_iff_lt_or_eq.mp hi with hlt | rfl
      · exact .inr ⟨Nat.lt_of_le_of_lt hle ((inv.visited i a hlt ha hwin).resolve_left hold).1,
          fun _ => Nat.succ_lt_succ hlt⟩
      · cases ha.symm.trans hk
        simp only [isEagleWindow, and_eq_true] at hwin
        simp [found, dropsAt_eq_true hwin.1 hold]
  · rcases mem_verified_of_found hi with rfl | hi
    · exact Nat.lt_succ_self i
    · exact Nat.lt_succ_of_lt (inv.simple hsimple i hi)

theorem step (h : cfg.visitGroup q k g st = .ok st') :
    LookaheadCached cfg q H (k + 1) st' := by
  have hmem : g ∈ cfg.attentionGroups := mem_of_getElem? hk
  rcases visitGroup_cases h with ⟨hfull, hsome, rfl⟩ | ⟨hnew, rows, hhit, rfl⟩
  · exact inv.trim hk hfull hsome
  have ok := managerHit_ok (cfg.isHybridKind hmem) (cfg.blockSize_pos hmem) hhit
  have hle : rows.length * g.spec.blockSize ≤ st.currHitLength :=
    ok.length_le_curr hmem (fun hover => by
      cases (once.not_mamba g hmem hover.2.1).symm.trans hover.1) (fun hdrop => by
      simp only [dropsAt, and_eq_true] at hdrop
      exact hdrop.1) (inv.aligned.imp_right And.right)
  exact inv.find once hk hnew hle hhit

end

variable (inv : LookaheadCached cfg q H cfg.attentionGroups.length st)
include inv

theorem next
    (hmore : cfg.isSimpleHybrid = false) : LookaheadCached cfg q st.currHitLength 0 st := by
  refine ⟨le_rfl, inv.aligned, nofun, inv.looked, inv.full,
    inv.window, nofun, fun hsimple => ?_⟩
  rw [hmore] at hsimple
  cases hsimple

theorem finished (hend : L = H ∧ H ≤ st.currHitLength ∨
      cfg.isSimpleHybrid = true ∧ L = st.currHitLength ∧ L < H) (hpos : 0 < L)
    (hk : cfg.attentionGroups[k]? = some g) (heagle : g.useEagle = true) :
    (cfg.lookup q g).Cached (L / g.spec.blockSize) := by
  have hlt := (List.getElem?_eq_some_iff.mp hk).1
  have hcurr := inv.curr_le
  obtain rfl : L = st.currHitLength := by omega
  cases hfull : g.spec.isFullAttention with
  | true => exact inv.full k g hk heagle hfull (inv.done k hlt) hpos _ le_rfl
  | false =>
    have hwin : g.isEagleWindow = true := by simp [isEagleWindow, heagle, hfull]
    rcases inv.visited k g hlt hk hwin with hver | ⟨hshort, hlast⟩
    · exact inv.window k g hk hwin hver hpos
    -- only the exit after the first round leaves with a shorter hit, and then `k` came last
    rcases hend with ⟨hsame, -⟩ | ⟨hsimple, -⟩
    · omega
    have hbefore := hlast hsimple
    simp only [KVCacheConfig.isSimpleHybrid, and_eq_true, beq_iff_eq] at hsimple
    obtain rfl : k = 0 := by omega
    rw [head?_eq_getElem?, hk, any_some, hfull] at hsimple
    cases hsimple.2

end LookaheadCached

theorem lookahead_cached (once : cfg.OneEagleWindow) {blocks : List (List BlockId)}
    (h : cfg.findLongestCacheHit q = .ok (blocks, L)) (hpos : 0 < L) (hg : g ∈ cfg.attentionGroups)
    (heagle : g.useEagle = true) : (cfg.lookup q g).Cached (L / g.spec.blockSize) := by
  have hrule := @findLongestCacheHit_rule cfg.toKVCacheConfig q (LookaheadCached cfg q) (fun _ => True)
    (fun hg inv hvisit => inv.step once hg hvisit) (fun _ _ _ => trivial)
    (fun inv _ hmore => inv.next hmore)
    ⟨le_rfl, .inr ⟨fun _ => rfl, rfl⟩, nofun,
      nofun, nofun,
      nofun, nofun,
      nofun⟩
  rw [h] at hrule
  obtain ⟨H, st, inv, -, hend⟩ := hrule
  obtain ⟨k, hk⟩ := mem_iff_getElem?.mp hg
  exact inv.finished hend hpos hk heagle

/-! ### Two flagged windows -/

section TwoWindows

variable {a b n t bound : Nat} {ga gb : SpecGroup}

/-- Group `a` lacks the block behind `n` alignments, group `b` all that is behind `n + 1` of them. -/
def lookaheadLost (align blockSize a b n k t : Nat) : Bool :=
  if k = a then decide (t ≤ n * align ∨ n * align + blockSize < t)
  else if k = b then decide (t ≤ (n + 1) * align)
  else true

theorem lookaheadLost_of_ne {align blockSize : Nat} (hka : k ≠ a)
    (ht : k = b → t ≤ (n + 1) * align) : lookaheadLost align blockSize a b n k t = true := by
  rw [lookaheadLost, if_neg hka]
  split
  · rename_i hkb
    exact decide_eq_true (ht hkb)
  · rfl

/-- Before group `b` is visited the hit has `2 * n + 1` alignments or one more. -/
structure BeforeSecond (cfg : HybridConfig) (a b n k : Nat) (st : LoopState) : Prop where
  le : k ≤ b
  verified_lt : ∀ i ∈ st.eagleVerified, i < k
  verified : a < k → a ∈ st.eagleVerified
  length : ∃ c, st.currHitLength = c * cfg.schedulerBlockSize ∧ 2 * n + 1 ≤ c ∧ c ≤ 2 * n + 1 + 1

/-- From then on it has `n`, and group `a` is searched without the drop. -/
def AfterSecond (cfg : HybridConfig) (a n : Nat) (st : LoopState) : Prop :=
  st.currHitLength = n * cfg.schedulerBlockSize ∧ a ∈ st.eagleVerified

/-- A visit of a group that has all blocks it is asked for keeps the hit. -/
theorem SceneVisit.keeps {f : Nat → Nat → Bool} {maxLength : Nat}
    (visit : SceneVisit cfg f maxLength k g st bound rows)
    (hmamba : g.useEagle = true → g.spec.isMamba = false) (hn : 0 < n)
    (hwindow : ∀ w, g.spec.kind = .slidingWindow w → w - 1 < n * cfg.schedulerBlockSize)
    (hcurr : st.currHitLength = n * cfg.schedulerBlockSize)
    (hmax : (n + 1) * cfg.schedulerBlockSize ≤ maxLength)
    (all : ∀ t ≤ n * cfg.schedulerBlockSize, f k t = true)
    (ahead : dropsAt k g st = true → ∀ t ≤ (n + 1) * cfg.schedulerBlockSize, f k t = true) :
    rows.length * g.spec.blockSize = n * cfg.schedulerBlockSize := by
  obtain ⟨hk, hle, hbound, hhit⟩ := visit
  rw [hcurr] at hbound
  cases hdrop : dropsAt k g st with
  | false =>
    rw [hdrop] at hbound hhit
    subst hbound
    exact sceneHit_all hk hle (Nat.dvd_mul_left _ _) all hhit
  | true =>
    have hblock := blockSize_le hk
    have hadd : (n + 1) * cfg.schedulerBlockSize =
      n * cfg.schedulerBlockSize + cfg.schedulerBlockSize := Nat.succ_mul n _
    rw [hdrop, if_pos rfl, Nat.min_eq_left (by omega)] at hbound
    rw [hdrop] at hhit
    have settles : Settles g.spec (f k) cfg.schedulerBlockSize bound 0 n :=
      ⟨Nat.mul_pos hn cfg.scheduler_pos, fun w hw => by have := hwindow w hw; omega,
        fun _ => ⟨rfl, by omega⟩, hbound.ge, fun t _ ht => ahead hdrop t ht,
        fun t ht ht' => by omega⟩
    obtain ⟨n', hlen, -, -, hexact⟩ := sceneHit_settles hk hle settles hhit
    simp only [dropsAt, and_eq_true] at hdrop
    rw [hlen, hexact (hmamba hdrop.1)]

variable (ha : cfg.attentionGroups[a]? = some ga) (hb : cfg.attentionGroups[b]? = some gb)
  (hab : a < b) (hwa : ga.isEagleWindow = true) (hwb : gb.isEagleWindow = true)
  (hmamba : ∀ g ∈ cfg.attentionGroups, g.useEagle = true → g.spec.isMamba = false)
  (hn : 1 < n) (hwindow : ∀ g ∈ cfg.attentionGroups, ∀ w, g.spec.kind = .slidingWindow w →
    w - 1 < n * cfg.schedulerBlockSize)

section
include hmamba hn hwindow

theorem AfterSecond.find (inv : AfterSecond cfg a n st)
    (visit : SceneVisit cfg (lookaheadLost cfg.schedulerBlockSize ga.spec.blockSize a b n)
      ((2 * n + 1 + 1) * cfg.schedulerBlockSize) k g st bound rows) :
    AfterSecond cfg a n (st.found k g rows) := by
  obtain ⟨hcurr, hver⟩ := inv
  have hg := mem_of_getElem? visit.group
  have hlen := visit.keeps (hmamba g hg) (by omega) (hwindow g hg) hcurr
    (Nat.mul_le_mul_right _ (by omega)) (fun t ht => ?_) fun hdrop t ht => ?_
  · exact ⟨hlen, mem_found_verified g rows (fun _ => by omega) (.inl hver)⟩
  · by_cases hka : k = a
    · rw [lookaheadLost, if_pos hka]
      exact decide_eq_true (.inl ht)
    · exact lookaheadLost_of_ne hka fun _ => ht.trans (Nat.mul_le_mul_right _ (Nat.le_succ n))
  · refine lookaheadLost_of_ne (fun hka => ?_) fun _ => ht
    simp [dropsAt, hka, hver] at hdrop

include ha hb hab hwa hwb

theorem BeforeSecond.find (inv : BeforeSecond cfg a b n k st)
    (visit : SceneVisit cfg (lookaheadLost cfg.schedulerBlockSize ga.spec.blockSize a b n)
      ((2 * n + 1 + 1) * cfg.schedulerBlockSize) k g st bound rows) :
    BeforeSecond cfg a b n (k + 1) (st.found k g rows) ∨ AfterSecond cfg a n (st.found k g rows) := by
  obtain ⟨hkb, hlt, hver, c, hcurr, hc, hc'⟩ := inv
  have hg := mem_of_getElem? visit.group
  have hblock := blockSize_le visit.group
  have hblock' := blockSize_le ha
  have htwo : 2 ≤ n * cfg.schedulerBlockSize :=
    Nat.mul_le_mul hn cfg.scheduler_pos
  have hadd : (n + 1) * cfg.schedulerBlockSize =
    n * cfg.schedulerBlockSize + cfg.schedulerBlockSize := Nat.succ_mul n _
  have hlong : (2 * n + 1) * cfg.schedulerBlockSize =
      (n + 1) * cfg.schedulerBlockSize + n * cfg.schedulerBlockSize := by
    rw [← Nat.add_mul]
    congr 1
    omega
  have hdrop (hflag : g.useEagle = true) : dropsAt k g st = true :=
    dropsAt_eq_true hflag fun h => Nat.lt_irrefl _ (hlt k h)
  simp only [isEagleWindow, and_eq_true, Bool.not_eq_true'] at hwa hwb
  by_cases hkb' : k = b
  · -- only `n + 1` alignments are cached
    subst hkb'
    obtain rfl : gb = g := some.inj (hb.symm.trans visit.group)
    obtain ⟨hk, hle, hbound, hhit⟩ := visit
    have hcle := Nat.mul_le_mul_right cfg.schedulerBlockSize hc
    have hmax := Nat.mul_le_mul_right cfg.schedulerBlockSize (show n + 1 ≤ 2 * n + 1 + 1 by omega)
    rw [hdrop hwb.1, if_pos rfl, hcurr] at hbound
    rw [hdrop hwb.1] at hhit
    have hval (t : Nat) : lookaheadLost cfg.schedulerBlockSize ga.spec.blockSize a k n k t =
        decide (t ≤ (n + 1) * cfg.schedulerBlockSize) := by
      rw [lookaheadLost, if_neg hab.ne', if_pos rfl]
    have settles : Settles gb.spec (lookaheadLost cfg.schedulerBlockSize ga.spec.blockSize a k n k)
        cfg.schedulerBlockSize bound 0 n := by
      refine ⟨by omega, fun w hw => ?_, fun h => ?_, by omega, fun t _ ht => ?_, fun t ht _ => ?_⟩
      · rw [Nat.zero_add]
        exact (hwindow gb hg w hw).le
      · rw [hwb.2] at h
        cases h
      · rw [hval]
        exact decide_eq_true ht
      · rw [hval]
        exact decide_eq_false (Nat.not_le.mpr ht)
    obtain ⟨c', hlen, -, -, hsame⟩ := sceneHit_settles hk hle settles hhit
    rw [hsame (hmamba gb hg hwb.1)] at hlen
    exact .inr ⟨hlen, mem_found_verified gb rows (fun h => by rw [hdrop hwb.1] at h; cases h)
      (.inl (hver hab))⟩
  · -- the block that group `a` lacks is far behind the hit
    have hself (hka : k = a) : g.useEagle = true ∧ g.spec.isFullAttention = false := by
      subst hka
      cases ha.symm.trans visit.group
      exact hwa
    have hample := visit.ample (n := 2 * n + 1)
      (if k = a then n * cfg.schedulerBlockSize + ga.spec.blockSize + 1 else 0)
      (by split <;> omega) (fun w hw => by have := hwindow g hg w hw; split <;> omega)
      (fun h => if_neg fun hka => ?_) (fun t ht => ?_) hcurr hc hc'
    · obtain ⟨c', hlen, hlow, hhigh, hsame⟩ := hample
      refine .inl ⟨by omega, fun i hi => ?_, fun hak => ?_, c', hlen, hlow, hhigh⟩
      · exact (mem_verified_of_found hi).elim (fun h => by omega) fun h => Nat.lt_succ_of_lt (hlt i h)
      · refine mem_found_verified g rows (fun h => by rw [hlen, hsame h, hcurr]) ?_
        rcases Nat.lt_succ_iff_lt_or_eq.mp hak with hak | rfl
        · exact .inl (hver hak)
        · exact .inr ⟨rfl, hdrop (hself rfl).1⟩
    · rw [(hself hka).2, hdrop (hself hka).1] at h
      simp at h
    · by_cases hka : k = a
      · rw [if_pos hka] at ht
        rw [lookaheadLost, if_pos hka]
        exact decide_eq_true (.inr (by omega))
      · exact lookaheadLost_of_ne hka fun h => absurd h hkb'

end

include ha hb hab hwa hwb hmamba

/-- Of two flagged windows the first can lose its look-ahead block. -/
theorem lookahead_uncached : ∃ q blocks L, cfg.findLongestCacheHit q = .ok (blocks, L) ∧ 0 < L ∧
    ¬ (cfg.lookup q ga).Cached (L / ga.spec.blockSize) := by
  obtain ⟨n₀, hn₀⟩ := exists_window_bound cfg.attentionGroups
  obtain ⟨n, hn, hwindow⟩ : ∃ n, 1 < n ∧ ∀ g ∈ cfg.attentionGroups, ∀ w,
      g.spec.kind = .slidingWindow w → w - 1 < n * cfg.schedulerBlockSize :=
    ⟨n₀ + 2, by omega, fun g hg w hw => (show w - 1 < n₀ + 2 by have := hn₀ g hg w hw; omega).trans_le
      (Nat.le_mul_of_pos_right _ cfg.scheduler_pos)⟩
  have hlt := (List.getElem?_eq_some_iff.mp hb).1
  have hnot : ga.spec.isFullAttention = false := by
    simp only [isEagleWindow, and_eq_true, Bool.not_eq_true'] at hwa
    exact hwa.2
  have hsame {k c} {g : SpecGroup} {st : LoopState} (hk : cfg.attentionGroups[k]? = some g)
      (hc : st.currHitLength = c * cfg.schedulerBlockSize) :
      st.currHitLength / g.spec.blockSize * g.spec.blockSize = st.currHitLength :=
    Nat.div_mul_cancel (Nat.dvd_trans (cfg.blockSize_dvd (mem_of_getElem? hk))
      (hc ▸ Nat.dvd_mul_left _ _))
  have kept : KeptOnScene cfg (lookaheadLost cfg.schedulerBlockSize ga.spec.blockSize a b n)
      ((2 * n + 1 + 1) * cfg.schedulerBlockSize) fun H k st =>
        (H = (2 * n + 1 + 1) * cfg.schedulerBlockSize ∧ BeforeSecond cfg a b n k st) ∨
          (n * cfg.schedulerBlockSize ≤ H ∧ AfterSecond cfg a n st) := by
    refine ⟨.inl ⟨rfl, Nat.zero_le _, nofun, nofun, _, rfl, Nat.le_succ _, le_rfl⟩, ?_, ?_,
      fun inv _ _ => inv.elim (fun h => absurd h.2.le (by omega)) fun h => .inr ⟨h.2.1.ge, h.2⟩⟩
    · rintro H k g st hk (⟨hH, hle, hver, -, c, hcurr, hc⟩ | ⟨hH, hcurr, hver⟩) hfull -
      · -- full attention comes before the windows
        have hka : k < a := by
          rcases Nat.lt_trichotomy k a with h | rfl | h
          · exact h
          · cases ha.symm.trans hk
            exact absurd hfull (by simp [hnot])
          · exact absurd (cfg.isFullAttention_of_lt h ha hk hfull) (by simp [hnot])
        exact .inl ⟨hH, by omega, fun i hi => Nat.lt_succ_of_lt (hver i hi), fun h => by omega, c,
          (hsame hk hcurr).trans hcurr, hc⟩
      · exact .inr ⟨hH, (hsame hk hcurr).trans hcurr, hver⟩
    · rintro H k g st rows bound (⟨hH, inv⟩ | ⟨hH, inv⟩) - visit
      · exact (inv.find ha hb hab hwa hwb hmamba hn hwindow visit).imp (fun h => ⟨hH, h⟩)
          fun h => ⟨hH ▸ Nat.mul_le_mul_right _ (by omega), h⟩
      · exact .inr ⟨hH, inv.find hmamba hn hwindow visit⟩
  obtain ⟨L, H, st, hresult, inv, hend⟩ := findLongestCacheHit_scene kept
  rcases inv with ⟨-, inv⟩ | ⟨hH, hcurr, -⟩
  · exact absurd inv.le (by omega)
  obtain rfl : L = n * cfg.schedulerBlockSize := by omega
  refine ⟨_, _, _, hresult, Nat.mul_pos (Nat.zero_lt_of_lt hn) cfg.scheduler_pos, fun hcached => ?_⟩
  have hg := mem_of_getElem? ha
  have hpos := cfg.blockSize_pos hg
  obtain ⟨m, hm⟩ := Nat.dvd_trans (cfg.blockSize_dvd hg) (Nat.dvd_mul_left cfg.schedulerBlockSize n)
  have hends : (m + 1) * ga.spec.blockSize = n * cfg.schedulerBlockSize + ga.spec.blockSize := by
    rw [Nat.succ_mul, hm, Nat.mul_comm]
  rw [hm, Nat.mul_div_cancel_left _ hpos] at hcached
  have hlast : m < (2 * n + 1 + 1) * cfg.schedulerBlockSize / ga.spec.blockSize := by
    refine (Nat.le_div_iff_mul_le hpos).mpr ?_
    have hadd : (n + 1) * cfg.schedulerBlockSize =
      n * cfg.schedulerBlockSize + cfg.schedulerBlockSize := Nat.succ_mul n _
    have hle := Nat.mul_le_mul_right cfg.schedulerBlockSize (show n + 1 ≤ 2 * n + 1 + 1 by omega)
    have hblock := blockSize_le ha
    rw [hends]
    omega
  have hread := (groupScene_readsAt ha le_rfl).of_cached hlast hcached
  simp only [lookaheadLost, if_true, hends, decide_eq_true_eq] at hread
  omega

end TwoWindows

/-- The look-ahead block of every flagged group is always cached behind the hit exactly if at most
one sliding-window group is flagged. -/
theorem findLongestCacheHit_lookahead
    (hmamba : ∀ g ∈ cfg.attentionGroups, g.useEagle = true → g.spec.isMamba = false) :
    (∀ q blocks L, cfg.findLongestCacheHit q = .ok (blocks, L) → 0 < L →
      ∀ g ∈ cfg.attentionGroups, g.useEagle = true →
        (cfg.lookup q g).Cached (L / g.spec.blockSize)) ↔
      cfg.attentionGroups.Pairwise fun a b =>
        ¬ (a.isEagleWindow = true ∧ b.isEagleWindow = true) := by
  refine ⟨fun h => pairwise_iff_getElem.mpr fun a b ha hb hab ⟨hwa, hwb⟩ => ?_,
    fun one q blocks L h hpos g hg heagle => lookahead_cached ⟨hmamba, one⟩ h hpos hg heagle⟩
  obtain ⟨q, blocks, L, hfind, hpos, hlost⟩ := lookahead_uncached (getElem?_eq_getElem ha)
    (getElem?_eq_getElem hb) hab hwa hwb hmamba
  simp only [isEagleWindow, and_eq_true] at hwa
  exact hlost (h q blocks L hfind hpos _ (getElem_mem ha) hwa.1)

/-- Of two windows the first is flagged for EAGLE. -/
theorem findLongestCacheHit_lookahead_one_window :
    (windowHybrid false 2 (true, false)).findLongestCacheHit (heldFor [2, 3] [2]) =
        .ok ([[0, 0, 3], [0, 0, 9]], 3) ∧
      ((windowHybrid false 2 (true, false)).lookup (heldFor [2, 3] [2])
        ⟨⟨1, .slidingWindow 2, 0⟩, [0], true⟩).Cached 3 :=
  ⟨rfl, (@findLongestCacheHit_lookahead (windowHybrid false 2 (true, false)) (by decide)).mpr
    (by decide) (heldFor [2, 3] [2]) _ 3 rfl (by decide) ⟨⟨1, .slidingWindow 2, 0⟩, [0], true⟩
    (by decide) rfl⟩

/-- The drop of the second group shortens the hit to three blocks. The first group, verified at
five, is accepted there without its look-ahead block. -/
theorem findLongestCacheHit_lookahead_lost :
    (windowHybrid false 2 (true, true)).findLongestCacheHit (heldFor [2, 4, 5] [2, 3]) =
        .ok ([[0, 0, 3], [0, 0, 9]], 3) ∧
      (windowHybrid false 2 (true, true)).lookup (heldFor [2, 4, 5] [2, 3])
        ⟨⟨1, .slidingWindow 2, 0⟩, [0], true⟩ 3 = .ok none :=
  ⟨rfl, rfl⟩

end Vllm.KVCache
