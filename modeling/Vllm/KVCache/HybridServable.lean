import Vllm.KVCache.Hybrid

/-! When the answer of the hybrid loop is servable: every group gets blocks for exactly the
hit length, found in the pool, with all blocks present that its attention needs. -/
namespace Vllm.KVCache
open List KVCacheConfig Option
namespace KVCacheConfig

variable (cfg : KVCacheConfig) (q : HitQuery)

/-- One group can use its blocks for a hit of `hitLength` tokens. -/
structure GroupServed (gid : GroupId) (spec : KVCacheSpec)
    (blocks : List BlockId) (hitLength : Nat) : Prop where
  length_eq : blocks.length * spec.blockSize = hitLength
  cached : ∀ i b, blocks[i]? = some b → b ≠ nullBlock →
    ∃ h, groupHash cfg.hashBlockSize spec.blockSize q.hashes i = some h ∧
      q.pool.getOneBlock (makeBlockHashWithGroupId h gid) = some b
  needed : ∀ i, NeededBlock spec blocks.length i → ∃ b, blocks[i]? = some b ∧ b ≠ nullBlock

structure Servable (blocks : List (List BlockId)) (hitLength : Nat) : Prop where
  le_max : hitLength ≤ q.maxCacheHitLength
  groups : ∀ gid g, cfg.groups[gid]? = some g →
    ∃ bs, blocks[gid]? = some bs ∧ cfg.GroupServed q gid g.spec bs hitLength

/-- An EAGLE-flagged Mamba group whose block spans the whole alignment. The lookup ignores
the drop, so it may return one block more than the bound. -/
def IsOvershooting (g : SpecGroup) : Prop :=
  g.spec.isMamba = true ∧ g.useEagle = true ∧ g.spec.blockSize = cfg.schedulerBlockSize

/-- The configurations whose answers are always servable. -/
def AlwaysServable : Prop :=
  ((cfg.attentionGroups.countP fun g => g.spec.isFullAttention) ≤ 1 ∨
      cfg.attentionGroups.length = 2) ∧
    ∀ g ∈ cfg.attentionGroups, ¬ cfg.IsOvershooting g

end KVCacheConfig

/-! ### Attention groups and KV-cache groups -/

variable {useEagle : Bool} {spec : KVCacheSpec} {g : SpecGroup} {i : GroupId} {gs : List SpecGroup}

theorem addGroup_ids (hg : g ∈ addGroup i spec useEagle gs) : g.groupIds ≠ [] ∨ g ∈ gs := by
  induction gs with
  | nil =>
    simp only [addGroup, mem_singleton] at hg
    exact .inl (by simp [hg])
  | cons g₀ gs ih =>
    rw [addGroup] at hg
    split at hg
    · rcases mem_cons.mp hg with rfl | hmem
      · exact .inl (by simp)
      · exact .inr (mem_cons_of_mem _ hmem)
    · rcases mem_cons.mp hg with rfl | hmem
      · exact .inr mem_cons_self
      · exact (ih hmem).imp_right (mem_cons_of_mem _)

variable {j : GroupId} (cfg : HybridConfig)

theorem addGroup_mem_ids (hg : g ∈ addGroup i spec useEagle gs) (hj : j ∈ g.groupIds) :
    (j = i ∧ g.spec = spec) ∨ ∃ g' ∈ gs, g'.spec = g.spec ∧ j ∈ g'.groupIds := by
  induction gs with
  | nil =>
    simp only [addGroup, mem_singleton] at hg
    subst hg
    exact .inl ⟨by simpa using hj, rfl⟩
  | cons g₀ gs ih =>
    rw [addGroup] at hg
    split at hg
    · rename_i hsame
      rcases mem_cons.mp hg with rfl | hmem
      · rcases mem_append.mp hj with hold | hnew
        · exact .inr ⟨g₀, mem_cons_self, rfl, hold⟩
        · exact .inl ⟨by simpa using hnew, hsame⟩
      · exact .inr ⟨g, mem_cons_of_mem _ hmem, rfl, hj⟩
    · rcases mem_cons.mp hg with rfl | hmem
      · exact .inr ⟨g, mem_cons_self, rfl, hj⟩
      · refine (ih hmem).imp_right ?_
        rintro ⟨g', hg', hrest⟩
        exact ⟨g', mem_cons_of_mem _ hg', hrest⟩

theorem addGroup_covers (hj : j = i ∨ ∃ g ∈ gs, j ∈ g.groupIds) :
    ∃ g ∈ addGroup i spec useEagle gs, j ∈ g.groupIds := by
  induction gs with
  | nil =>
    rcases hj with rfl | ⟨g, hg, -⟩
    · exact ⟨_, mem_singleton.mpr rfl, by simp⟩
    · cases hg
  | cons g₀ gs ih =>
    rw [addGroup]
    split
    · rcases hj with rfl | ⟨g, hg, hmem⟩
      · exact ⟨_, mem_cons_self, by simp⟩
      · rcases mem_cons.mp hg with rfl | hg
        · exact ⟨_, mem_cons_self, mem_append_left _ hmem⟩
        · exact ⟨g, mem_cons_of_mem _ hg, hmem⟩
    · have hrest : (j = i ∨ ∃ g ∈ gs, j ∈ g.groupIds) ∨ j ∈ g₀.groupIds := by
        rcases hj with rfl | ⟨g, hg, hmem⟩
        · exact .inl (.inl rfl)
        · rcases mem_cons.mp hg with rfl | hg
          · exact .inr hmem
          · exact .inl (.inr ⟨g, hg, hmem⟩)
      rcases hrest with hrest | hmem
      · obtain ⟨g, hg, hmem⟩ := ih hrest
        exact ⟨g, mem_cons_of_mem _ hg, hmem⟩
      · exact ⟨g₀, mem_cons_self, hmem⟩

theorem addGroup_specs (i : GroupId) (spec : KVCacheSpec) (useEagle : Bool) (gs : List SpecGroup) :
    (addGroup i spec useEagle gs).map (·.spec) =
      if spec ∈ gs.map (·.spec) then gs.map (·.spec) else gs.map (·.spec) ++ [spec] := by
  induction gs with
  | nil => simp [addGroup]
  | cons g₀ gs ih =>
    rw [addGroup]
    by_cases hsame : g₀.spec = spec
    · simp [hsame]
    have hne : ¬ spec = g₀.spec := fun h => hsame h.symm
    rw [if_neg hsame]
    simp only [map_cons, mem_cons, hne, false_or, ih]
    split
    · rfl
    · rfl

/-- The attention groups partition the first `n` KV-cache groups by spec. -/
structure SplitOk (groups : List KVCacheGroupSpec) (n : Nat) (gs : List SpecGroup) : Prop where
  ids_ne_nil : ∀ g ∈ gs, g.groupIds ≠ []
  spec_eq : ∀ g ∈ gs, ∀ j ∈ g.groupIds, (groups[j]?).map (·.spec) = some g.spec
  covers : ∀ j < n, ∃ g ∈ gs, j ∈ g.groupIds
  specs_nodup : (gs.map (·.spec)).Nodup

theorem SplitOk.addGroup {groups : List KVCacheGroupSpec} {n : Nat} (ok : SplitOk groups n gs)
    {g : KVCacheGroupSpec} (hg : groups[n]? = some g) (useEagle : Bool) :
    SplitOk groups (n + 1) (addGroup n g.spec useEagle gs) := by
  refine ⟨?_, ?_, ?_, ?_⟩
  · intro a ha
    exact (addGroup_ids ha).elim id (ok.ids_ne_nil a)
  · intro a ha j hj
    rcases addGroup_mem_ids ha hj with ⟨rfl, hspec⟩ | ⟨a', ha', hspec, hj'⟩
    · rw [hg, hspec]
      rfl
    · rw [ok.spec_eq a' ha' j hj', hspec]
  · intro j hj
    apply addGroup_covers
    rcases Nat.lt_succ_iff_lt_or_eq.mp hj with hlt | rfl
    · exact .inr (ok.covers j hlt)
    · exact .inl rfl
  · rw [addGroup_specs]
    split
    · exact ok.specs_nodup
    · rename_i hnew
      exact nodup_append.mpr ⟨ok.specs_nodup, nodup_singleton _,
        fun a ha b hb => by rw [mem_singleton.mp hb]; exact fun h => hnew (h ▸ ha)⟩

theorem splitOk_foldl {cfg : KVCacheConfig} (l : List KVCacheGroupSpec) (n : Nat)
    (acc : List SpecGroup) (hl : ∀ k, l[k]? = cfg.groups[n + k]? ∨ l.length ≤ k)
    (ok : SplitOk cfg.groups n acc) :
    SplitOk cfg.groups (n + l.length)
      ((l.zipIdx n).foldl (fun acc p => addGroup p.2 p.1.spec (cfg.isEagle p.1) acc) acc) := by
  induction l generalizing n acc with
  | nil => exact ok
  | cons g l ih =>
    have hg : cfg.groups[n]? = some g := by
      rcases hl 0 with h | h
      · simpa using h.symm
      · simp at h
    have hrest : ∀ k, l[k]? = cfg.groups[n + 1 + k]? ∨ l.length ≤ k := by
      intro k
      rcases hl (k + 1) with h | h
      · exact .inl (by rw [getElem?_cons_succ] at h; rw [h]; congr 1; omega)
      · exact .inr (by simpa using h)
    have hdone := ih (n + 1) _ hrest (ok.addGroup hg (cfg.isEagle g))
    rw [length_cons, Nat.add_comm l.length 1, ← Nat.add_assoc]
    exact hdone

theorem KVCacheConfig.splitGroups_ok (cfg : KVCacheConfig) :
    SplitOk cfg.groups cfg.groups.length cfg.splitGroups := by
  have hfold := splitOk_foldl cfg.groups 0 [] (fun k => .inl (by rw [Nat.zero_add]))
    ⟨by simp, by simp, by simp, nodup_nil⟩
  rwa [Nat.zero_add] at hfold

theorem KVCacheConfig.attentionGroups_ok (cfg : KVCacheConfig) :
    SplitOk cfg.groups cfg.groups.length cfg.attentionGroups := by
  have ok := cfg.splitGroups_ok
  have hperm : cfg.attentionGroups.Perm cfg.splitGroups := by
    exact filter_append_perm (fun g : SpecGroup => g.spec.isFullAttention) cfg.splitGroups
  refine ⟨?_, ?_, ?_, ?_⟩
  · intro g hg
    exact ok.ids_ne_nil g (hperm.mem_iff.mp hg)
  · intro g hg
    exact ok.spec_eq g (hperm.mem_iff.mp hg)
  · intro j hj
    obtain ⟨g, hg, hmem⟩ := ok.covers j hj
    exact ⟨g, hperm.mem_iff.mpr hg, hmem⟩
  · exact (hperm.map _).nodup_iff.mpr ok.specs_nodup

section
variable (hg : g ∈ cfg.attentionGroups)
include hg

theorem HybridConfig.group_of_attentionGroup :
    ∃ g' ∈ cfg.groups, g'.spec = g.spec := by
  have ok := cfg.attentionGroups_ok
  obtain ⟨j, hj⟩ := exists_mem_of_ne_nil _ (ok.ids_ne_nil g hg)
  obtain ⟨g', hg', hspec⟩ := map_eq_some_iff.mp (ok.spec_eq g hg j hj)
  exact ⟨g', mem_of_getElem? hg', hspec⟩

theorem HybridConfig.blockSize_pos : 0 < g.spec.blockSize := by
  obtain ⟨g', hg', hspec⟩ := cfg.group_of_attentionGroup hg
  exact hspec ▸ cfg.block_pos g' hg'

theorem HybridConfig.blockSize_dvd :
    g.spec.blockSize ∣ cfg.schedulerBlockSize := by
  obtain ⟨g', hg', hspec⟩ := cfg.group_of_attentionGroup hg
  exact hspec ▸ cfg.scheduler_dvd g' hg'

theorem HybridConfig.hash_dvd_blockSize :
    cfg.hashBlockSize ∣ g.spec.blockSize := by
  obtain ⟨g', hg', hspec⟩ := cfg.group_of_attentionGroup hg
  exact hspec ▸ cfg.hash_dvd g' hg'

theorem HybridConfig.isHybridKind : g.spec.IsHybridKind := by
  obtain ⟨g', hg', hspec⟩ := cfg.group_of_attentionGroup hg
  exact hspec ▸ cfg.kinds g' hg'

end

/-- Full attention comes first: behind a group of another kind there is none. -/
theorem KVCacheConfig.attentionGroups_sorted (cfg : KVCacheConfig) :
    cfg.attentionGroups.Pairwise fun a b =>
      b.spec.isFullAttention = true → a.spec.isFullAttention = true := by
  rw [attentionGroups, pairwise_append]
  refine ⟨?_, ?_, ?_⟩
  · exact pairwise_of_forall_mem_list fun a ha b _ _ => (mem_filter.mp ha).2
  · refine pairwise_of_forall_mem_list fun a _ b hb hfull => ?_
    have hnot := (mem_filter.mp hb).2
    simp [hfull] at hnot
  · intro a ha b _ _
    exact (mem_filter.mp ha).2

theorem KVCacheConfig.isFullAttention_of_lt (cfg : KVCacheConfig) {i j : Nat} {a b : SpecGroup}
    (hlt : i < j) (ha : cfg.attentionGroups[i]? = some a) (hb : cfg.attentionGroups[j]? = some b)
    (hfull : b.spec.isFullAttention = true) : a.spec.isFullAttention = true := by
  obtain ⟨hi, rfl⟩ := List.getElem?_eq_some_iff.mp ha
  obtain ⟨hj, rfl⟩ := List.getElem?_eq_some_iff.mp hb
  exact pairwise_iff_getElem.mp cfg.attentionGroups_sorted i j hi hj hlt hfull

/-! ### One visit -/

section Loop

variable {cfg : HybridConfig} {q : HitQuery}

structure RowsOk (cfg : HybridConfig) (q : HitQuery) (g : SpecGroup) (rows : List Row) : Prop where
  aligned : cfg.schedulerBlockSize ∣ rows.length * g.spec.blockSize
  found : RowsFound (cfg.lookup q g) rows
  needed : ∀ i, NeededBlock g.spec rows.length i → ∃ blocks, rows[i]? = some (some blocks)

variable {g : SpecGroup} {st st' : LoopState} {rows : List Row} {L k H : Nat} {gid : GroupId}
  {drop : Bool}

theorem HitOk.rowsOk {maxLength : Nat}
    (ok : HitOk g.spec (cfg.lookup q g) cfg.schedulerBlockSize maxLength drop rows) :
    RowsOk cfg q g rows :=
  ⟨ok.length.aligned, ok.found, ok.needed⟩

/-- A lookup never exceeds the current length, unless the group overshoots. -/
theorem HitOk.length_le_curr {curr : Nat} (hg : g ∈ cfg.attentionGroups)
    (hno : ¬ cfg.IsOvershooting g) (hdrop : drop = true → g.useEagle = true)
    (hcurr : cfg.schedulerBlockSize ∣ curr ∨ curr = q.maxCacheHitLength)
    (ok : HitOk g.spec (cfg.lookup q g) cfg.schedulerBlockSize (lookupBound q g curr drop) drop
      rows) : rows.length * g.spec.blockSize ≤ curr := by
  have hle := ok.length.le_max
  cases drop with
  | false => exact hle
  | true =>
    simp only [lookupBound, if_true] at hle
    by_cases hmamba : g.spec.isMamba = true
    · rcases hcurr with ⟨c, rfl⟩ | rfl
      · -- aligned lengths below `curr + block_size` are at most `curr`
        have hne : g.spec.blockSize ≠ cfg.schedulerBlockSize := fun h => hno ⟨hmamba, hdrop rfl, h⟩
        have hlt : g.spec.blockSize < cfg.schedulerBlockSize :=
          lt_of_le_of_ne (Nat.le_of_dvd cfg.scheduler_pos (cfg.blockSize_dvd hg)) hne
        obtain ⟨n, hn⟩ := ok.length.aligned
        rw [hn] at hle ⊢
        have hlt' : cfg.schedulerBlockSize * n < cfg.schedulerBlockSize * (c + 1) := by
          rw [Nat.mul_succ]
          omega
        exact Nat.mul_le_mul_left _ (Nat.lt_succ_iff.mp (Nat.lt_of_mul_lt_mul_left hlt'))
      · exact hle.trans (Nat.min_le_right _ _)
    · rcases ok.length.dropped_le (by simpa using hmamba) with hzero | hshort
      · simp [hzero]
      · simp only [lookupBound, if_true] at hshort
        omega

/-! ### One round of the loop -/

/-- The state in a round with hit length `H`, before attention group `idx` is visited. -/
structure Visited (cfg : HybridConfig) (q : HitQuery) (H idx : Nat) (st : LoopState) : Prop where
  curr_le : st.currHitLength ≤ H
  aligned : cfg.schedulerBlockSize ∣ st.currHitLength ∨
    (idx = 0 ∧ st.hits 0 = none ∧ st.currHitLength = q.maxCacheHitLength)
  rows : ∀ k g rows, cfg.attentionGroups[k]? = some g → st.hits k = some rows → RowsOk cfg q g rows
  done : ∀ k < idx, ∃ rows, st.hits k = some rows
  lower : ∀ k g rows, cfg.attentionGroups[k]? = some g → st.hits k = some rows →
    (k < idx ∨ (k = 0 ∧ g.spec.isFullAttention = true)) →
    st.currHitLength ≤ rows.length * g.spec.blockSize
  upper : ∀ k g rows, k < idx → cfg.attentionGroups[k]? = some g → st.hits k = some rows →
    ¬ (k = 0 ∧ g.spec.isFullAttention = true) → rows.length * g.spec.blockSize ≤ H
  last : ∀ k g rows, k + 1 = idx → k ≠ 0 → cfg.attentionGroups[k]? = some g →
    st.hits k = some rows → rows.length * g.spec.blockSize = st.currHitLength
  fresh : ∀ k g, idx ≤ k → k ≠ 0 → cfg.attentionGroups[k]? = some g →
    g.spec.isFullAttention = true → st.hits k = none

theorem Visited.step {idx : Nat} (inv : Visited cfg q H idx st)
    (hg : cfg.attentionGroups[idx]? = some g) (hno : ¬ cfg.IsOvershooting g)
    (h : cfg.visitGroup q idx g st = .ok st') : Visited cfg q H (idx + 1) st' := by
  have hmem : g ∈ cfg.attentionGroups := mem_of_getElem? hg
  rcases visitGroup_cases h with ⟨hfull, hsome, rfl⟩ | ⟨-, rows, hhit, rfl⟩
  · -- a trimmed result can only be the first group's, and its length is aligned by now
    obtain ⟨rows₀, hrows₀⟩ := isSome_iff_exists.mp hsome
    have hidx : idx = 0 := by
      by_contra hne
      rw [inv.fresh idx g le_rfl hne hg hfull] at hrows₀
      cases hrows₀
    subst hidx
    have haligned : cfg.schedulerBlockSize ∣ st.currHitLength :=
      inv.aligned.resolve_right fun h => by rw [h.2.1] at hrows₀; cases hrows₀
    have htrim : st.currHitLength / g.spec.blockSize * g.spec.blockSize = st.currHitLength :=
      Nat.div_mul_cancel (Nat.dvd_trans (cfg.blockSize_dvd hmem) haligned)
    simp only [htrim]
    refine ⟨inv.curr_le, .inl haligned, inv.rows, ?_, ?_, ?_, ?_, ?_⟩
    · intro k hk
      obtain rfl : k = 0 := by omega
      exact ⟨rows₀, hrows₀⟩
    · intro k g' rows hk hrows hor
      have hk0 : k = 0 := by omega
      subst hk0
      obtain rfl : g = g' := some.inj (hg.symm.trans hk)
      exact inv.lower 0 g rows hk hrows (.inr ⟨rfl, hfull⟩)
    · intro k g' rows hlt hk hrows hnot
      have hk0 : k = 0 := by omega
      subst hk0
      obtain rfl : g = g' := some.inj (hg.symm.trans hk)
      exact absurd ⟨rfl, hfull⟩ hnot
    · omega
    · intro k g' hle hne
      exact inv.fresh k g' (Nat.zero_le k) hne
  · have ok := managerHit_ok (cfg.isHybridKind hmem) (cfg.blockSize_pos hmem) hhit
    have hle : rows.length * g.spec.blockSize ≤ st.currHitLength :=
      ok.length_le_curr hmem hno (fun h => (Bool.and_eq_true_iff.mp h).1)
        (inv.aligned.imp_right fun h => h.2.2)
    refine ⟨hle.trans inv.curr_le, .inl ok.length.aligned, ?_, ?_, ?_, ?_, ?_, ?_⟩
    · intro k g' rows' hk hrows'
      rcases found_hits_cases hg hk hrows' with ⟨rfl, rfl, rfl⟩ | ⟨-, hold⟩
      · exact ok.rowsOk
      · exact inv.rows k g' rows' hk hold
    · intro k hk
      by_cases heq : k = idx
      · exact ⟨rows, heq ▸ found_hits_self st idx g rows⟩
      · rw [found_hits_of_ne g rows heq]
        exact inv.done k (by omega)
    · intro k g' rows' hk hrows' hor
      rcases found_hits_cases hg hk hrows' with ⟨rfl, rfl, rfl⟩ | ⟨hne, hold⟩
      · exact le_rfl
      · exact hle.trans (inv.lower k g' rows' hk hold (hor.imp_left fun hlt => by omega))
    · intro k g' rows' hlt hk hrows' hnot
      rcases found_hits_cases hg hk hrows' with ⟨rfl, rfl, rfl⟩ | ⟨hne, hold⟩
      · exact hle.trans inv.curr_le
      · exact inv.upper k g' rows' (by omega) hk hold hnot
    · intro k g' rows' hk _ hget hrows'
      rcases found_hits_cases hg hget hrows' with ⟨-, rfl, rfl⟩ | ⟨hne, -⟩
      · rfl
      · omega
    · intro k g' hle' hne hget hfull
      rw [found_hits_of_ne g rows (by omega)]
      exact inv.fresh k g' (by omega) hne hget hfull

/-! ### The whole loop -/

/-- The state the loop ends in, for an answer of `L` tokens. -/
structure Finished (cfg : HybridConfig) (q : HitQuery) (L : Nat) (st : LoopState) : Prop where
  le_max : L ≤ q.maxCacheHitLength
  aligned : cfg.schedulerBlockSize ∣ L
  served : ∀ k g, cfg.attentionGroups[k]? = some g →
    ∃ rows, st.hits k = some rows ∧ RowsOk cfg q g rows ∧ L ≤ rows.length * g.spec.blockSize ∧
      (¬ (k = 0 ∧ g.spec.isFullAttention = true) → rows.length * g.spec.blockSize = L)

/-- With a second full-attention group the loop makes one round only. -/
theorem no_second_full_attention (ok : cfg.AlwaysServable) (hsimple : ¬ cfg.isSimpleHybrid = true)
    (hk : k ≠ 0) (hg : cfg.attentionGroups[k]? = some g) (hfull : g.spec.isFullAttention = true) :
    False := by
  have hsorted := cfg.attentionGroups_sorted
  simp only [AlwaysServable, isSimpleHybrid] at ok hsimple
  cases hgs : cfg.attentionGroups with
  | nil => simp [hgs] at hg
  | cons g₀ gs =>
    rw [hgs] at hsorted ok hsimple hg
    obtain ⟨j, rfl⟩ := Nat.exists_eq_succ_of_ne_zero hk
    have hmem : g ∈ gs := mem_of_getElem? (by simpa using hg)
    have hfull₀ : g₀.spec.isFullAttention = true := (pairwise_cons.mp hsorted).1 g hmem hfull
    have hpos : 0 < gs.countP fun g => g.spec.isFullAttention := countP_pos_iff.mpr ⟨g, hmem, hfull⟩
    rcases ok.1 with hcount | htwo
    · rw [countP_cons, if_pos hfull₀] at hcount
      omega
    · exact hsimple (by simpa [hfull₀] using htwo)

theorem Visited.finished (hH : H ≤ q.maxCacheHitLength)
    (inv : Visited cfg q H cfg.attentionGroups.length st) (hend : L = H ∧ H ≤ st.currHitLength ∨
      cfg.isSimpleHybrid = true ∧ L = st.currHitLength ∧ L < H) : Finished cfg q L st := by
  have htwo := cfg.two_groups
  have haligned := inv.aligned.resolve_right fun h => by omega
  have hcurr : L = st.currHitLength := by
    have := inv.curr_le
    omega
  refine ⟨by omega, hcurr ▸ haligned, ?_⟩
  intro k g hk
  have hlt := (List.getElem?_eq_some_iff.mp hk).1
  obtain ⟨rows, hrows⟩ := inv.done k hlt
  have hlower := inv.lower k g rows hk hrows (.inl hlt)
  refine ⟨rows, hrows, inv.rows k g rows hk hrows, hcurr ▸ hlower, ?_⟩
  intro hnot
  rcases hend with ⟨rfl, -⟩ | ⟨hsimple, -, -⟩
  · -- every group accepted the length
    exact Nat.le_antisymm (inv.upper k g rows hlt hk hrows hnot) (hcurr ▸ hlower)
  · -- the simple hybrid ends after one round
    simp only [isSimpleHybrid, Bool.and_eq_true, beq_iff_eq] at hsimple
    have hk0 : k ≠ 0 := by
      rintro rfl
      rw [head?_eq_getElem?, hk] at hsimple
      exact hnot ⟨rfl, hsimple.2⟩
    rw [inv.last k g rows (by omega) hk0 hk hrows, hcurr]

theorem Visited.next (ok : cfg.AlwaysServable) (inv : Visited cfg q H cfg.attentionGroups.length st)
    (hsimple : cfg.isSimpleHybrid = false) :
    Visited cfg q st.currHitLength 0 st := by
  have htwo := cfg.two_groups
  refine ⟨le_rfl, .inl (inv.aligned.resolve_right fun h => by omega), inv.rows,
    nofun, ?_,
    nofun,
    fun k g rows hk => absurd hk (Nat.succ_ne_zero k), ?_⟩
  · intro k g rows hk hrows _
    exact inv.lower k g rows hk hrows (.inl (List.getElem?_eq_some_iff.mp hk).1)
  · intro k g _ hk hg hfull
    exact (no_second_full_attention ok (by simp [hsimple]) hk hg hfull).elim

/-! ### From attention groups back to KV-cache groups -/

theorem mapM_getElem? {α β : Type} {f : α → Option β} {xs : List α} {ys : List β}
    (h : xs.mapM f = some ys) {k : Nat} {x : α} (hk : xs[k]? = some x) :
    ∃ y, ys[k]? = some y ∧ f x = some y := by
  induction xs generalizing ys k with
  | nil => simp at hk
  | cons x₀ xs ih =>
    simp only [mapM_cons, bind_eq_bind, bind_eq_some_iff, Option.pure_def, some.injEq] at h
    obtain ⟨y₀, hy₀, ys', hys', rfl⟩ := h
    cases k with
    | zero =>
      obtain rfl : x₀ = x := by simpa using hk
      exact ⟨y₀, rfl, hy₀⟩
    | succ k => exact ih hys' (by simpa using hk)

/-- In the column of a group id, the row of a cached block holds the block cached for it. -/
theorem column_some {pool : BlockPool} {hbs blockSize : Nat} {hashes : List BlockHash}
    {groupIds : List GroupId}
    (hfound : RowsFound (poolLookup pool hbs blockSize hashes groupIds) rows)
    (hgid : gid ∈ groupIds) {i : Nat} {blocks : List BlockId}
    (hrow : rows[i]? = some (some blocks)) :
    ∃ hash b, groupHash hbs blockSize hashes i = some hash ∧
      pool.getOneBlock (makeBlockHashWithGroupId hash gid) = some b ∧
      (column rows (groupIds.idxOf gid))[i]? = some b := by
  have h := hfound i blocks hrow
  unfold poolLookup at h
  split at h
  · cases h
  rename_i hash hhash
  have hget : groupIds[groupIds.idxOf gid]? = some gid := by
    rw [getElem?_eq_getElem (idxOf_lt_length_iff.mpr hgid), getElem_idxOf]
  obtain ⟨b, hb, hone⟩ := mapM_getElem? (Except.ok.inj h) hget
  refine ⟨hash, b, hhash, hone, ?_⟩
  rw [column, getElem?_map, hrow, map_some, getD_some, getD_eq_getElem?_getD, hb, getD_some]

theorem column_served {cfg : KVCacheConfig} (hnull : q.pool.NullUncached)
    (hlength : rows.length * g.spec.blockSize = L) (hfound : RowsFound (cfg.lookup q g) rows)
    (hneeded : ∀ i, NeededBlock g.spec rows.length i → ∃ blocks, rows[i]? = some (some blocks))
    (hgid : gid ∈ g.groupIds) :
    cfg.GroupServed q gid g.spec
      (column rows (g.groupIds.idxOf gid)) L := by
  have hlen : (column rows (g.groupIds.idxOf gid)).length = rows.length := by
    simp [column]
  refine ⟨by rw [hlen, hlength], ?_, ?_⟩
  · intro i b hb hne
    have hcolumn := hb
    rw [column, getElem?_map, map_eq_some_iff] at hb
    obtain ⟨row, hrow, rfl⟩ := hb
    cases row with
    | none => exact absurd rfl hne
    | some blocks =>
      obtain ⟨hash, b, hhash, hone, hb⟩ := column_some hfound hgid hrow
      cases hcolumn.symm.trans hb
      exact ⟨hash, hhash, hone⟩
  · intro i hi
    rw [hlen] at hi
    obtain ⟨blocks, hrow⟩ := hneeded i hi
    obtain ⟨hash, b, -, hone, hb⟩ := column_some hfound hgid hrow
    refine ⟨b, hb, ?_⟩
    rintro rfl
    exact hnull _ (mem_of_head? hone)

theorem findGroup_spec {cfg : KVCacheConfig} {g : KVCacheGroupSpec} (hg : cfg.groups[gid]? = some g) :
    ∃ a idx, cfg.findGroup gid = some (a, idx) ∧ cfg.attentionGroups[idx]? = some a ∧
      gid ∈ a.groupIds ∧ a.spec = g.spec := by
  have ok := cfg.attentionGroups_ok
  obtain ⟨a, ha, hmem⟩ := ok.covers gid (List.getElem?_eq_some_iff.mp hg).1
  obtain ⟨k, hk⟩ := mem_iff_getElem?.mp ha
  have hsome : (cfg.findGroup gid).isSome := by
    rw [findGroup, find?_isSome]
    exact ⟨(a, k), mk_mem_zipIdx_iff_getElem?.mpr hk, by simpa using hmem⟩
  obtain ⟨⟨b, idx⟩, hb⟩ := isSome_iff_exists.mp hsome
  have hbmem : gid ∈ b.groupIds := by simpa using find?_some hb
  have hidx : cfg.attentionGroups[idx]? = some b :=
    mk_mem_zipIdx_iff_getElem?.mp (mem_of_find?_eq_some hb)
  have hspec := ok.spec_eq b (mem_of_getElem? hidx) gid hbmem
  rw [hg] at hspec
  exact ⟨b, idx, hb, hidx, hbmem, (some.inj hspec).symm⟩

/-- Each attention group gives its rows to some KV-cache group of the same spec. -/
theorem exists_groupBlocks {cfg : KVCacheConfig} (hk : cfg.attentionGroups[k]? = some g)
    {hits : Nat → Option (List Row)} (hrows : hits k = some rows) :
    ∃ gid g' j, cfg.groups[gid]? = some g' ∧ g'.spec = g.spec ∧
      cfg.groupBlocks hits gid = column rows j := by
  have ok := cfg.attentionGroups_ok
  have hg : g ∈ cfg.attentionGroups := mem_of_getElem? hk
  obtain ⟨gid, hgid⟩ := exists_mem_of_ne_nil _ (ok.ids_ne_nil g hg)
  obtain ⟨g', hg', hspec⟩ := map_eq_some_iff.mp (ok.spec_eq g hg gid hgid)
  obtain ⟨a, idx, hfind, hidx, -, haspec⟩ := findGroup_spec hg'
  -- the group id leads back to attention group `k`, since specs are not repeated
  have hsame : idx = k := by
    have hlt : idx < (cfg.attentionGroups.map (·.spec)).length := by
      rw [length_map]
      exact (List.getElem?_eq_some_iff.mp hidx).1
    refine (getElem?_inj hlt ok.specs_nodup).mp ?_
    rw [getElem?_map, getElem?_map, hidx, hk, map_some, map_some, haspec, hspec]
  subst hsame
  exact ⟨gid, g', _, hg', hspec, by simp only [groupBlocks, hfind, hrows]; rfl⟩

/-- Cutting the first group leaves every group with rows for exactly the hit length. -/
theorem Finished.finalHits (fin : Finished cfg q L st) (hk : cfg.attentionGroups[k]? = some g) :
    ∃ rows, cfg.finalHits st L k = some rows ∧ rows.length * g.spec.blockSize = L ∧
      RowsFound (cfg.lookup q g) rows ∧
      ∀ i, NeededBlock g.spec rows.length i → ∃ blocks, rows[i]? = some (some blocks) := by
  obtain ⟨rows, hrows, hok, hle, heq⟩ := fin.served k g hk
  by_cases hfirst : k = 0 ∧ g.spec.isFullAttention = true
  · obtain ⟨rfl, hfull⟩ := hfirst
    have hmem : g ∈ cfg.attentionGroups := mem_of_getElem? hk
    have hcut : L / g.spec.blockSize * g.spec.blockSize = L :=
      Nat.div_mul_cancel (Nat.dvd_trans (cfg.blockSize_dvd hmem) fin.aligned)
    have hshort : L / g.spec.blockSize ≤ rows.length :=
      Nat.div_le_of_le_mul (by rwa [Nat.mul_comm] at hle)
    have hlen : (rows.take (L / g.spec.blockSize)).length = L / g.spec.blockSize := by
      rw [length_take, Nat.min_eq_left hshort]
    refine ⟨rows.take (L / g.spec.blockSize), ?_, by rw [hlen, hcut], ?_, ?_⟩
    · simp only [finalHits, head?_eq_getElem?, hk, hfull, if_true,
        Function.update_self, hrows, map_some]
    · intro i blocks hi
      rw [getElem?_take] at hi
      split at hi
      · exact hok.found i blocks hi
      · cases hi
    · intro i hi
      rw [hlen, neededBlock_fullAttention hfull] at hi
      obtain ⟨blocks, hblocks⟩ :=
        hok.needed i ((neededBlock_fullAttention hfull).mpr (hi.trans_le hshort))
      exact ⟨blocks, by rw [getElem?_take, if_pos hi, hblocks]⟩
  · exact ⟨rows, (finalHits_eq_hits hk hfirst st L).trans hrows, heq hfirst, hok.found, hok.needed⟩

theorem findLongestCacheHit_servable (ok : cfg.AlwaysServable) (hnull : q.pool.NullUncached)
    {blocks : List (List BlockId)} (h : cfg.findLongestCacheHit q = .ok (blocks, L)) :
    cfg.Servable q blocks L := by
  have hrule := @findLongestCacheHit_rule cfg.toKVCacheConfig q
    (fun H k st => H ≤ q.maxCacheHitLength ∧ Visited cfg q H k st) (fun _ => True)
    (fun hg inv hvisit => ⟨inv.1, inv.2.step hg (ok.2 _ (mem_of_getElem? hg)) hvisit⟩)
    (fun _ _ _ => trivial)
    (fun inv _ hsimple => ⟨inv.2.curr_le.trans inv.1, inv.2.next ok hsimple⟩)
    ⟨le_rfl, le_rfl, .inr ⟨rfl, rfl, rfl⟩, nofun,
      nofun, nofun,
      nofun,
      fun k g rows hk => absurd hk (Nat.succ_ne_zero k), fun k g _ _ _ _ => rfl⟩
  rw [h] at hrule
  obtain ⟨H, st, ⟨hH, inv⟩, rfl, hend⟩ := hrule
  have fin := inv.finished hH hend
  refine ⟨fin.le_max, ?_⟩
  intro gid g hg
  obtain ⟨a, idx, hfind, hidx, hgid, hspec⟩ := findGroup_spec hg
  obtain ⟨rows, hrows, hlength, hfound, hneeded⟩ := fin.finalHits hidx
  refine ⟨column rows (a.groupIds.idxOf gid), ?_, ?_⟩
  · have hlt := (List.getElem?_eq_some_iff.mp hg).1
    simp [hlt, groupBlocks, hfind, hrows]
  · rw [← hspec]
    exact column_served hnull hlength hfound hneeded hgid

end Loop

end Vllm.KVCache
