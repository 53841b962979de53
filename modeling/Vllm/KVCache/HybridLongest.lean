import Vllm.KVCache.HybridServable
import Vllm.KVCache.LongestHit

/-! Without EAGLE groups the hybrid loop finds the longest hit that every group can serve, and
its exit after one round for one full-attention group and another loses nothing. -/
namespace Vllm.KVCache
open KVCacheConfig KVCacheSpec Bool
namespace KVCacheConfig

variable (cfg : KVCacheConfig) (q : HitQuery)

def ServedBy (g : SpecGroup) (L : Nat) : Prop :=
  ∀ i, NeededBlock g.spec (L / g.spec.blockSize) i → (cfg.lookup q g).Cached i

structure CanServe (L : Nat) : Prop where
  le_max : L ≤ q.maxCacheHitLength
  aligned : cfg.schedulerBlockSize ∣ L
  served : ∀ g ∈ cfg.attentionGroups, cfg.ServedBy q g L

/-- The answer when the loop is always iterated to its fixed point. -/
def findAtFixedPoint : Except HitError (List (List BlockId) × Nat) :=
  match cfg.loopWith false q (q.maxCacheHitLength + 1) q.maxCacheHitLength
      { currHitLength := q.maxCacheHitLength } with
  | .error e => .error e
  | .ok (st, hitLength) =>
    .ok ((List.range cfg.groups.length).map (cfg.groupBlocks (cfg.finalHits st hitLength)),
      hitLength)

end KVCacheConfig

variable {cfg : HybridConfig} {q : HitQuery} {g : SpecGroup} {st st' : LoopState}
variable {rows : List Row} {H L k m align : Nat} {lookup : Lookup}

theorem lookup_hashed (hg : g ∈ cfg.attentionGroups)
    (hm : m / cfg.hashBlockSize ≤ q.hashes.length) :
    (cfg.lookup q g).Hashed (m / g.spec.blockSize) := by
  intro i hi
  have hpos := cfg.hash_pos
  obtain ⟨scale, hscale⟩ := cfg.hash_dvd_blockSize hg
  have hblock := cfg.blockSize_pos hg
  have hle : (i + 1) * scale ≤ q.hashes.length := by
    refine le_trans ?_ hm
    rw [Nat.le_div_iff_mul_le hpos, Nat.mul_assoc, Nat.mul_comm scale, ← hscale]
    exact (Nat.le_div_iff_mul_le hblock).mp hi
  have hlt : (i + 1) * scale - 1 < q.hashes.length := by
    have hends : 0 < (i + 1) * scale :=
      Nat.mul_pos (Nat.succ_pos i) (Nat.pos_of_mul_pos_left (hscale ▸ hblock))
    omega
  refine ⟨q.pool.getCachedBlock q.hashes[(i + 1) * scale - 1] g.groupIds, ?_⟩
  rw [lookup, poolLookup, groupHash_eq hpos, hscale, Nat.mul_div_cancel_left _ hpos,
    List.getElem?_eq_getElem hlt]

theorem managerHit_servedBy (hg : g ∈ cfg.attentionGroups) {drop : Bool}
    (hhit : managerHit g.spec (cfg.lookup q g) cfg.schedulerBlockSize m drop = .ok rows) :
    cfg.ServedBy q g (rows.length * g.spec.blockSize) := by
  have ok := managerHit_ok (cfg.isHybridKind hg) (cfg.blockSize_pos hg) hhit
  intro i hi
  rw [Nat.mul_div_cancel _ (cfg.blockSize_pos hg)] at hi
  obtain ⟨blocks, hblocks⟩ := ok.needed i hi
  exact ⟨blocks, ok.found i blocks hblocks⟩

/-- What full attention can serve, it can serve in part. -/
theorem KVCacheConfig.ServedBy.mono {cfg : KVCacheConfig} (hfull : g.spec.isFullAttention = true)
    (served : cfg.ServedBy q g L) (hle : m ≤ L) : cfg.ServedBy q g m := fun i hi =>
  served i ((neededBlock_fullAttention hfull).mpr
    (((neededBlock_fullAttention hfull).mp hi).trans_le (Nat.div_le_div_right hle)))

/-! ### The longest hit -/

/-- The assumptions on the groups: no EAGLE, and windows of more than one token. -/
structure HybridConfig.Plain (cfg : HybridConfig) : Prop where
  no_eagle : ∀ g ∈ cfg.attentionGroups, g.useEagle = false
  windows : ∀ g ∈ cfg.attentionGroups, ∀ w, g.spec.kind = .slidingWindow w → 1 < w

theorem HybridConfig.Plain.dropsAt (plain : cfg.Plain) (hg : g ∈ cfg.attentionGroups) (idx : Nat)
    (st : LoopState) : dropsAt idx g st = false :=
  dropsAt_eq_false fun h => by rw [plain.no_eagle g hg] at h; cases h

theorem KVCacheConfig.CanServe.le_hit (plain : cfg.Plain) (hg : g ∈ cfg.attentionGroups)
    (can : cfg.CanServe q L) (hle : L ≤ m)
    (hhit : managerHit g.spec (cfg.lookup q g) cfg.schedulerBlockSize m false = .ok rows) :
    L ≤ rows.length * g.spec.blockSize := by
  have hdiv : L / g.spec.blockSize * g.spec.blockSize = L :=
    Nat.div_mul_cancel (Nat.dvd_trans (cfg.blockSize_dvd hg) can.aligned)
  have finds : FindsLength g.spec (cfg.lookup q g) cfg.schedulerBlockSize false
      (L / g.spec.blockSize) := fun w hw => .inl (plain.windows g hg w hw)
  have hlen := le_managerHit_length (cfg.isHybridKind hg) (cfg.blockSize_pos hg) finds
    ⟨by rw [hdiv]; exact can.aligned, Nat.div_le_div_right hle, nofun,
      can.served g hg⟩ hhit
  exact hdiv ▸ Nat.mul_le_mul_right _ hlen

/-- In a round with hit length `H`, before attention group `k` is visited. A full-attention
group that was looked up once serves every shorter hit; of the others, those visited in this
round serve the hit if it was not shortened since. -/
structure Longest (cfg : HybridConfig) (q : HitQuery) (H k : Nat) (st : LoopState) : Prop where
  le_max : H ≤ q.maxCacheHitLength
  curr_le : st.currHitLength ≤ H
  aligned : cfg.schedulerBlockSize ∣ st.currHitLength ∨ (k = 0 ∧ ∀ i, st.hits i = none)
  upper : ∀ L, cfg.CanServe q L → L ≤ st.currHitLength
  full : ∀ i g, cfg.attentionGroups[i]? = some g → g.spec.isFullAttention = true →
    (st.hits i).isSome = true ∨ i < k → cfg.ServedBy q g st.currHitLength
  served : ∀ i g, i < k → cfg.attentionGroups[i]? = some g →
    st.currHitLength = H ∨ i + 1 = k → cfg.ServedBy q g st.currHitLength

theorem Longest.step (plain : cfg.Plain) (inv : Longest cfg q H k st)
    (hg : cfg.attentionGroups[k]? = some g) (h : cfg.visitGroup q k g st = .ok st') :
    Longest cfg q H (k + 1) st' := by
  have hmem : g ∈ cfg.attentionGroups := List.mem_of_getElem? hg
  rcases visitGroup_cases h with ⟨hfull, hsome, rfl⟩ | ⟨-, rows, hhit, rfl⟩
  · have haligned : cfg.schedulerBlockSize ∣ st.currHitLength :=
      inv.aligned.resolve_right fun h => by rw [h.2 k] at hsome; cases hsome
    rw [Nat.div_mul_cancel (Nat.dvd_trans (cfg.blockSize_dvd hmem) haligned)]
    have hserved := inv.full k g hg hfull (.inl hsome)
    refine ⟨inv.le_max, inv.curr_le, .inl haligned, inv.upper, fun i a ha hfull' hi => ?_,
      fun i a hi ha hor => ?_⟩
    · by_cases hik : i = k
      · exact inv.full i a ha hfull' (.inl (hik ▸ hsome))
      · exact inv.full i a ha hfull' (hi.imp_right fun h => by omega)
    · by_cases hik : i = k
      · subst hik
        exact Option.some.inj (hg.symm.trans ha) ▸ hserved
      · exact inv.served i a (by omega) ha (hor.imp_right fun h => by omega)
  · rw [plain.dropsAt hmem] at hhit
    have ok := managerHit_ok (cfg.isHybridKind hmem) (cfg.blockSize_pos hmem) hhit
    have hserved := managerHit_servedBy hmem hhit
    have hle : rows.length * g.spec.blockSize ≤ st.currHitLength := ok.length.le_max
    have hle' := inv.curr_le
    refine ⟨inv.le_max, hle.trans hle', .inl ok.length.aligned,
      fun L can => can.le_hit plain hmem (inv.upper L can) hhit, fun i a ha hfull' hi => ?_,
      fun i a hi ha hor => ?_⟩
    · by_cases hik : i = k
      · subst hik
        exact Option.some.inj (hg.symm.trans ha) ▸ hserved
      · rw [found_hits_of_ne g rows hik] at hi
        exact (inv.full i a ha hfull' (hi.imp_right fun h => by omega)).mono hfull' hle
    · by_cases hik : i = k
      · subst hik
        exact Option.some.inj (hg.symm.trans ha) ▸ hserved
      · have hsame : rows.length * g.spec.blockSize = H := hor.resolve_right fun h => by omega
        have hcurr : st.currHitLength = rows.length * g.spec.blockSize := by omega
        have hold := inv.served i a (by omega) ha (.inl (by omega))
        rwa [hcurr] at hold

theorem Longest.next (inv : Longest cfg q H cfg.attentionGroups.length st) :
    Longest cfg q st.currHitLength 0 st := by
  have htwo := cfg.two_groups
  exact ⟨inv.curr_le.trans inv.le_max, le_rfl, .inl (inv.aligned.resolve_right fun h => by omega),
    inv.upper, fun i g hg hfull hi => inv.full i g hg hfull (.inl (hi.resolve_right (Nat.not_lt_zero i))),
    nofun⟩

/-- At both exits of the loop every group serves the current length. -/
theorem Longest.finished (inv : Longest cfg q H cfg.attentionGroups.length st)
    (hend : L = H ∧ H ≤ st.currHitLength ∨
      cfg.isSimpleHybrid = true ∧ L = st.currHitLength ∧ L < H) :
    IsGreatest {L | cfg.CanServe q L} L := by
  have htwo := cfg.two_groups
  have hcurr : L = st.currHitLength := by
    have := inv.curr_le
    omega
  subst hcurr
  refine ⟨⟨inv.curr_le.trans inv.le_max, inv.aligned.resolve_right fun h => by omega, ?_⟩, inv.upper⟩
  intro g hg
  obtain ⟨i, hi⟩ := List.mem_iff_getElem?.mp hg
  have hlt := (List.getElem?_eq_some_iff.mp hi).1
  rcases hend with ⟨hsame, -⟩ | ⟨hsimple, -⟩
  · exact inv.served i g hlt hi (.inl hsame)
  simp only [isSimpleHybrid, and_eq_true, beq_iff_eq] at hsimple
  rcases Nat.eq_zero_or_pos i with rfl | hpos
  · rw [List.head?_eq_getElem?, hi] at hsimple
    exact inv.full 0 g hi hsimple.2 (.inr hlt)
  · exact inv.served i g hlt hi (.inr (by omega))

/-! ### The exit after one round -/

/-- A scan that starts at the end of the run it found finds this run again. -/
theorem windowScan_again {blockSize need i : Nat} {run run' : List (List BlockId)}
    {found : Option Nat}
    (h : windowScan lookup blockSize align need false i run = .ok (found, run')) :
    found.getD 0 + run'.length = i + run.length ∨
      windowScan lookup blockSize align need false (found.getD 0 + run'.length) [] =
        .ok (found, run') := by
  induction i generalizing run with
  | zero =>
    cases h
    exact .inl rfl
  | succ i ih =>
    have hfresh : windowScan lookup blockSize align need false i [] = .ok (found, run') →
        windowScan lookup blockSize align need false (found.getD 0 + run'.length) [] =
          .ok (found, run') := fun h' => (ih h').elim (fun heq => heq ▸ h') id
    rw [windowScan] at h
    split at h
    · cases h
    · exact .inr (hfresh h)
    simp only [false_eq_true, if_false] at h
    by_cases hskip : run = [] ∧ blockSize ≠ align ∧ (i + 1) * blockSize % align ≠ 0
    · rw [if_pos hskip] at h
      exact .inr (hfresh (hskip.1 ▸ h))
    rw [if_neg hskip] at h
    split at h
    · cases h
      exact .inl (by simp only [Option.getD_some, List.length_cons]; omega)
    · refine (ih h).imp_left fun heq => ?_
      rw [heq, List.length_cons]
      omega

theorem mambaScan_again {blockSize i j : Nat} {blocks : List BlockId}
    (h : mambaScan lookup blockSize align i = .ok (some (j, blocks))) :
    mambaScan lookup blockSize align (j + 1) = .ok (some (j, blocks)) := by
  induction i with
  | zero => cases h
  | succ i ih =>
    have hself := h
    rw [mambaScan] at h
    split at h
    · cases h
    · exact ih h
    split at h
    · exact ih h
    · cases h
      exact hself

/-- A lookup bounded by the length it found finds the same blocks. -/
theorem managerHit_again {spec : KVCacheSpec} (hkind : spec.IsHybridKind)
    (hpos : 0 < spec.blockSize) (hfull : spec.isFullAttention = false)
    (hhit : managerHit spec lookup align m false = .ok rows) :
    managerHit spec lookup align (rows.length * spec.blockSize) false = .ok rows := by
  unfold managerHit at hhit ⊢
  split at hhit
  · rename_i h
    simp [isFullAttention, h] at hfull
  · rename_i h
    simp [isFullAttention, h] at hfull
  · unfold slidingWindowHit at hhit ⊢
    split at hhit
    · cases hhit
    rename_i found run scan
    obtain ⟨ok, -⟩ := windowScan_spec _ _ (RunOk.nil lookup false le_rfl) scan
    have hagain : windowScan lookup spec.blockSize align
        (contiguousBlocksForHit _ spec.blockSize false) false (found.getD 0 + run.length) [] =
          .ok (found, run) :=
      (windowScan_again scan).elim (fun heq => heq ▸ scan) id
    have hlen : rows.length = found.getD 0 + run.length := by
      rw [← Except.ok.inj hhit]
      cases found with
      | some i => simp
      | none =>
        have haligned : align ∣ run.length * spec.blockSize := by
          by_cases hrun : run = []
          · simp [hrun]
          · simpa using ok.aligned hrun
        simp [alignDown_eq_self haligned]
    rw [Nat.mul_div_cancel _ hpos, hlen, hagain]
    exact hhit
  · rename_i h
    simp [IsHybridKind, h] at hkind
  · unfold mambaHit at hhit ⊢
    rw [Nat.mul_div_cancel _ hpos]
    split at hhit
    · cases hhit
    · cases hhit
      rfl
    · rename_i scan
      cases hhit
      simp [mambaScan_again scan]
  · cases hhit

/-- With one full-attention group and another, a second round changes neither the length nor
the blocks. -/
theorem second_round_same (plain : cfg.Plain) (hsimple : cfg.isSimpleHybrid = true)
    (h : cfg.visitGroups q cfg.attentionGroups 0 { currHitLength := m } = .ok st) :
    ∃ st', cfg.visitGroups q cfg.attentionGroups 0 st = .ok st' ∧
      st'.currHitLength = st.currHitLength ∧ st'.hits = st.hits := by
  simp only [isSimpleHybrid, and_eq_true, beq_iff_eq] at hsimple
  obtain ⟨g₀, g₁, hgs⟩ := List.length_eq_two.mp hsimple.1
  have hfull₀ : g₀.spec.isFullAttention = true := by simpa [hgs] using hsimple.2
  have hmem₀ : g₀ ∈ cfg.attentionGroups := by simp [hgs]
  have hmem₁ : g₁ ∈ cfg.attentionGroups := by simp [hgs]
  rw [hgs] at h ⊢
  simp only [visitGroups] at h ⊢
  split at h
  · cases h
  rename_i st₀ hvisit₀
  split at h
  · cases h
  rename_i st₁ hvisit₁
  cases h
  obtain ⟨rows₀, -, rfl⟩ := ((visitGroup_cases hvisit₀).resolve_left fun h => by cases h.2.1).2
  obtain ⟨rows₁, hhit, rfl⟩ := ((visitGroup_cases hvisit₁).resolve_left fun h => by cases h.2.1).2
  rw [plain.dropsAt hmem₁] at hhit
  have ok := managerHit_ok (cfg.isHybridKind hmem₁) (cfg.blockSize_pos hmem₁) hhit
  have htrim : ∀ {g : SpecGroup}, g ∈ cfg.attentionGroups → rows₁.length * g₁.spec.blockSize /
      g.spec.blockSize * g.spec.blockSize = rows₁.length * g₁.spec.blockSize := fun hg =>
    Nat.div_mul_cancel (Nat.dvd_trans (cfg.blockSize_dvd hg) ok.length.aligned)
  rw [visitGroup_trim hfull₀ rfl]
  dsimp only
  by_cases hfull₁ : g₁.spec.isFullAttention = true
  · rw [visitGroup_trim hfull₁ rfl]
    exact ⟨_, rfl, by simp only [LoopState.found, htrim hmem₀, htrim hmem₁], rfl⟩
  · rw [visitGroup_lookup (fun h => hfull₁ h.1) ?_]
    · exact ⟨_, rfl, rfl, Function.update_idem ..⟩
    rw [plain.dropsAt hmem₁]
    simp only [LoopState.found, htrim hmem₀]
    exact managerHit_again (cfg.isHybridKind hmem₁) (cfg.blockSize_pos hmem₁)
      (eq_false_iff.mpr hfull₁) hhit

theorem findAtFixedPoint_eq (plain : cfg.Plain) (q : HitQuery) :
    cfg.findAtFixedPoint q = cfg.findLongestCacheHit q := by
  unfold findAtFixedPoint findLongestCacheHit
  rw [hitLoop_eq_loopWith]
  cases hsimple : cfg.isSimpleHybrid with
  | false => rfl
  | true =>
    rw [loopWith, loopWith]
    cases hround : cfg.visitGroups q cfg.attentionGroups 0
        { currHitLength := q.maxCacheHitLength } with
    | error e => rfl
    | ok st =>
      dsimp only
      by_cases hge : st.currHitLength ≥ q.maxCacheHitLength
      · rw [if_pos hge, if_pos hge]
      rw [if_neg hge, if_neg hge, if_neg Bool.false_ne_true, if_pos rfl]
      obtain ⟨st', hround', hcurr, hhits⟩ := second_round_same plain hsimple hround
      obtain ⟨fuel, hfuel⟩ := Nat.exists_eq_succ_of_ne_zero
        (Nat.ne_of_gt (Nat.zero_lt_of_lt (Nat.lt_of_not_le hge)))
      have hlast : cfg.loopWith false q q.maxCacheHitLength st.currHitLength st =
          .ok (st', st.currHitLength) := by
        rw [hfuel, loopWith, hround']
        exact if_pos hcurr.ge
      rw [hlast]
      simp only [finalHits, hhits]

/-- Without EAGLE groups and with windows of at least two tokens the loop ends with the greatest
length that every group can serve on its own, as it would without its early exit. -/
theorem findLongestCacheHit_greatest (plain : cfg.Plain)
    (hashed : q.maxCacheHitLength / cfg.hashBlockSize ≤ q.hashes.length) :
    ∃ blocks L, cfg.findLongestCacheHit q = .ok (blocks, L) ∧
      IsGreatest {L | cfg.CanServe q L} L ∧ cfg.findAtFixedPoint q = .ok (blocks, L) := by
  rw [findAtFixedPoint_eq plain]
  have hrule := @findLongestCacheHit_rule cfg.toKVCacheConfig q (Longest cfg q) (fun _ => False)
    (fun hg inv hvisit => inv.step plain hg hvisit)
    (fun {H k g st e} hg inv hvisit => by
      have hmem : g ∈ cfg.attentionGroups := List.mem_of_getElem? hg
      have hraise := visitGroup_error hvisit
      rw [plain.dropsAt hmem] at hraise
      obtain ⟨rows, hrows⟩ := managerHit_returns (cfg.isHybridKind hmem) (lookup_hashed hmem
        ((Nat.div_le_div_right (inv.curr_le.trans inv.le_max)).trans hashed)) false
      cases hrows.symm.trans hraise)
    (fun inv _ _ => inv.next)
    ⟨le_rfl, le_rfl, .inr ⟨rfl, fun _ => rfl⟩, fun _ can => can.le_max,
      fun i _ _ _ h => h.elim nofun nofun,
      nofun⟩
  split at hrule
  · exact hrule.elim
  · rename_i blocks L hresult
    obtain ⟨H, st, inv, -, hend⟩ := hrule
    exact ⟨blocks, L, hresult, inv.finished hend, hresult⟩

theorem mem_windowHybrid {window : Nat}
    (hg : g ∈ (windowHybrid true window (false, false)).attentionGroups) :
    g = ⟨⟨1, .fullAttention, 0⟩, [0], false⟩ ∨ g = ⟨⟨1, .slidingWindow window, 1⟩, [1], false⟩ := by
  have hpair : g ∈ [⟨⟨1, .fullAttention, 0⟩, [0], false⟩,
      (⟨⟨1, .slidingWindow window, 1⟩, [1], false⟩ : SpecGroup)] := hg
  simpa using hpair

theorem findLongestCacheHit_greatest_three_blocks :
    ∃ blocks L, (windowHybrid true 2 (false, false)).findLongestCacheHit
        (heldFor [0, 1, 2, 3] [0, 2, 4]) = .ok (blocks, L) ∧ L = 3 ∧
      IsGreatest {L | (windowHybrid true 2 (false, false)).CanServe
        (heldFor [0, 1, 2, 3] [0, 2, 4]) L} L := by
  obtain ⟨blocks, L, hfind, hgreatest, -⟩ :=
    @findLongestCacheHit_greatest (windowHybrid true 2 (false, false))
      (heldFor [0, 1, 2, 3] [0, 2, 4])
      ⟨by decide, fun g hg w hw => by
        rcases mem_windowHybrid hg with rfl | rfl
        · cases hw
        · cases hw
          decide⟩ (by decide)
  refine ⟨blocks, L, hfind, ?_, hgreatest⟩
  cases hfind
  rfl

/-- A window of one token needs no block, but its lookup asks for one. With a bound of more blocks
than hashes the lookup of a window fails. -/
theorem findLongestCacheHit_one_token_window :
    ((windowHybrid true 1 (false, false)).CanServe (heldFor [0] []) 1 ∧
      (windowHybrid true 1 (false, false)).findLongestCacheHit (heldFor [0] []) =
        .ok ([[], []], 0)) ∧
    (windowHybrid false 2 (false, false)).findLongestCacheHit
      { heldFor [0] [0] with maxCacheHitLength := 7 } = .error .indexError := by
  refine ⟨⟨⟨by decide, Nat.dvd_refl 1, fun g hg i hi => ?_⟩, rfl⟩, rfl⟩
  rcases mem_windowHybrid hg with rfl | rfl
  · obtain rfl : i = 0 := by simpa [NeededBlock] using hi
    exact ⟨[1], rfl⟩
  · simp only [NeededBlock, Nat.div_one] at hi
    omega

end Vllm.KVCache
