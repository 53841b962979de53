import Vllm.KVCache.HybridScene

/-! Runs of the hybrid loop on pools that hold a chosen set of blocks: what each visit of a
group returns there, and how a round or the whole loop ends. -/
namespace Vllm.KVCache
open List KVCacheConfig

/-! ### Pools that hold a chosen set of blocks -/

namespace KVCacheConfig

/-- A pool with one block for each key whose block ends at a token in `cachedAt`, and a prompt
whose `i`-th hash has length `i`. -/
def sceneQuery (cfg : KVCacheConfig) (cachedAt : KVCacheSpec → Nat → Bool) (maxLength : Nat) :
    HitQuery where
  pool :=
    { numGpuBlocks := 0
      enableCaching := true
      hashBlockSize := cfg.hashBlockSize
      cached := fun key =>
        match cfg.groups[getGroupId key]? with
        | some g =>
          if cachedAt g.spec (((getBlockHash key).length + 1) * cfg.hashBlockSize) then
            [1 + getGroupId key + 2 ^ 32 * (getBlockHash key).length]
          else []
        | none => [] }
  hashes := (range (maxLength / cfg.hashBlockSize)).map (replicate · 1)
  maxCacheHitLength := maxLength

end KVCacheConfig

theorem sceneQuery_nullUncached (cfg : KVCacheConfig) (cachedAt : KVCacheSpec → Nat → Bool)
    (maxLength : Nat) : (cfg.sceneQuery cachedAt maxLength).pool.NullUncached := by
  intro key hmem
  simp only [sceneQuery] at hmem
  split at hmem
  · split at hmem
    · have hzero : (0 : Nat) = 1 + getGroupId key + 2 ^ 32 * (getBlockHash key).length :=
        mem_singleton.mp hmem
      omega
    · cases hmem
  · cases hmem

theorem mapM_some {α β : Type} {f : α → Option β} {g : α → β} {xs : List α}
    (h : ∀ x ∈ xs, f x = some (g x)) : xs.mapM f = some (xs.map g) := by
  induction xs with
  | nil => rfl
  | cons x xs ih =>
    rw [mapM_cons, h x mem_cons_self, ih fun y hy => h y (mem_cons_of_mem _ hy)]
    rfl

variable {n : Nat} {drop : Bool}

section Scene

variable {cfg : HybridConfig} {cachedAt : KVCacheSpec → Nat → Bool} {maxLength : Nat}

variable {g : SpecGroup} {idx k : Nat} {st : LoopState} {q : HitQuery} {rows : List Row}
  {spec : KVCacheSpec}

theorem scene_groupHash (cachedAt : KVCacheSpec → Nat → Bool) (hg : g ∈ cfg.attentionGroups)
    {i : Nat} (hi : (i + 1) * g.spec.blockSize ≤ maxLength) :
    ∃ hash, groupHash cfg.hashBlockSize g.spec.blockSize
        (cfg.sceneQuery cachedAt maxLength).hashes i = some hash ∧
      (hash.length + 1) * cfg.hashBlockSize = (i + 1) * g.spec.blockSize := by
  obtain ⟨scale, hscale⟩ := cfg.hash_dvd_blockSize hg
  have hhash := cfg.hash_pos
  have hdiv : g.spec.blockSize / cfg.hashBlockSize = scale := by
    rw [hscale, Nat.mul_div_cancel_left _ hhash]
  have hpos : 0 < scale := by
    have hblock := cfg.blockSize_pos hg
    rw [hscale] at hblock
    exact Nat.pos_of_mul_pos_left hblock
  have hends : 0 < (i + 1) * scale := Nat.mul_pos (Nat.succ_pos i) hpos
  have hlast : (i + 1) * scale - 1 < maxLength / cfg.hashBlockSize := by
    have hle : (i + 1) * scale ≤ maxLength / cfg.hashBlockSize := by
      rw [Nat.le_div_iff_mul_le hhash, Nat.mul_assoc, Nat.mul_comm scale, ← hscale]
      exact hi
    omega
  refine ⟨replicate ((i + 1) * scale - 1) 1, ?_, ?_⟩
  · rw [groupHash_eq hhash, hdiv]
    simp [sceneQuery, hlast]
  · rw [length_replicate, Nat.sub_add_cancel hends, Nat.mul_assoc, Nat.mul_comm scale, ← hscale]

theorem scene_lookup (hg : g ∈ cfg.attentionGroups) {i : Nat}
    (hi : (i + 1) * g.spec.blockSize ≤ maxLength) :
    ∃ row, cfg.lookup (cfg.sceneQuery cachedAt maxLength) g i =
      .ok (if cachedAt g.spec ((i + 1) * g.spec.blockSize) then some row else none) := by
  have ok := cfg.attentionGroups_ok
  obtain ⟨hash, hhash, hends⟩ := scene_groupHash cachedAt hg hi
  have hone : ∀ gid ∈ g.groupIds, (cfg.sceneQuery cachedAt maxLength).pool.getOneBlock
      (makeBlockHashWithGroupId hash gid) =
        if cachedAt g.spec ((i + 1) * g.spec.blockSize) then
          some (1 + gid + 2 ^ 32 * hash.length) else none := by
    intro gid hgid
    obtain ⟨g', hg', hspec⟩ := Option.map_eq_some_iff.mp (ok.spec_eq g hg gid hgid)
    have hlt : gid < 2 ^ 32 := (List.getElem?_eq_some_iff.mp hg').1.trans_le cfg.ids_fit
    simp only [BlockPool.getOneBlock, sceneQuery, getGroupId_make hash hlt,
      getBlockHash_make, hg', hspec, hends]
    split
    · rfl
    · rfl
  refine ⟨g.groupIds.map fun gid => 1 + gid + 2 ^ 32 * hash.length, ?_⟩
  simp only [KVCacheConfig.lookup, poolLookup, hhash, BlockPool.getCachedBlock]
  by_cases hc : cachedAt g.spec ((i + 1) * g.spec.blockSize) = true
  · rw [if_pos hc]
    exact congrArg _ (mapM_some fun gid hgid => by rw [hone gid hgid, if_pos hc])
  rw [if_neg hc]
  obtain ⟨gid, ids, hids⟩ := exists_cons_of_ne_nil (ok.ids_ne_nil g hg)
  rw [hids, mapM_cons, hone gid (by rw [hids]; exact mem_cons_self), if_neg hc]
  rfl

theorem scene_readsAt (cachedAt : KVCacheSpec → Nat → Bool) (hg : g ∈ cfg.attentionGroups)
    (hn : n ≤ maxLength) :
    ReadsAt (cfg.lookup (cfg.sceneQuery cachedAt maxLength) g) g.spec (cachedAt g.spec) n :=
  fun _ hi => scene_lookup hg ((end_le_of_lt_div hi).trans hn)

theorem KVCacheConfig.Servable.length_eq {L : Nat} (hk : cfg.attentionGroups[k]? = some g)
    (hrows : cfg.finalHits st L k = some rows) (served : cfg.Servable q
      ((range cfg.groups.length).map (cfg.groupBlocks (cfg.finalHits st L))) L) :
    rows.length * g.spec.blockSize = L := by
  obtain ⟨gid, g', j, hg', hspec, hblocks⟩ := exists_groupBlocks hk hrows
  obtain ⟨bs, hbs, hgroup⟩ := served.groups gid g' hg'
  have hlt := (List.getElem?_eq_some_iff.mp hg').1
  rw [getElem?_map, getElem?_range hlt, Option.map_some, hblocks] at hbs
  have hlen := hgroup.length_eq
  rwa [← Option.some.inj hbs, hspec, column, length_map] at hlen

theorem dropsAt_eq_true (hg : g.useEagle = true) (h : idx ∉ st.eagleVerified) :
    dropsAt idx g st = true := by
  simp [dropsAt, hg, h]

theorem mem_verified_of_found (h : k ∈ (st.found idx g rows).eagleVerified) :
    k = idx ∨ k ∈ st.eagleVerified := by
  simp only [LoopState.found] at h
  split at h
  · exact mem_cons.mp h
  · split at h
    · cases h
    · exact .inr h

theorem notMem_found_verified (g : SpecGroup) (rows : List Row) (hk : k ≠ idx)
    (h : k ∉ st.eagleVerified) : k ∉ (st.found idx g rows).eagleVerified :=
  fun hmem => (mem_verified_of_found hmem).elim hk h

theorem lookupBound_le {curr : Nat} (h : curr ≤ q.maxCacheHitLength) :
    lookupBound q g curr drop ≤ q.maxCacheHitLength := by
  cases drop with
  | false => exact h
  | true => exact Nat.min_le_right _ _

theorem managerHit_of_isMamba (hmamba : spec.isMamba = true) (lookup : Lookup) (align n : Nat)
    (drop : Bool) :
    managerHit spec lookup align n drop = mambaHit lookup spec.blockSize align n := by
  unfold KVCacheSpec.isMamba at hmamba
  unfold managerHit
  split at hmamba
  · rename_i h
    rw [h]
  · cases hmamba

theorem isFullAttention_of_isMamba (hmamba : spec.isMamba = true) :
    spec.isFullAttention = false := by
  unfold KVCacheSpec.isMamba at hmamba
  unfold KVCacheSpec.isFullAttention
  split at hmamba
  · rename_i h
    rw [h]
  · cases hmamba

end Scene

/-! ### Scenes that differ from group to group -/

def KVCacheConfig.specIndex (cfg : KVCacheConfig) (spec : KVCacheSpec) : Nat :=
  (cfg.attentionGroups.map (·.spec)).idxOf spec

theorem specIndex_eq {cfg : KVCacheConfig} {k : Nat} {g : SpecGroup}
    (hk : cfg.attentionGroups[k]? = some g) : cfg.specIndex g.spec = k := by
  obtain ⟨hlt, rfl⟩ := List.getElem?_eq_some_iff.mp hk
  have hidx := cfg.attentionGroups_ok.specs_nodup.idxOf_getElem k (by simpa using hlt)
  simpa [specIndex] using hidx

/-- The scene in which attention group `k` has the blocks ending at the tokens in `f k`. -/
def KVCacheConfig.groupScene (cfg : KVCacheConfig) (f : Nat → Nat → Bool) (maxLength : Nat) :
    HitQuery :=
  cfg.sceneQuery (fun spec t => f (cfg.specIndex spec) t) maxLength

section GroupScene

variable {cfg : HybridConfig} {f : Nat → Nat → Bool} {maxLength k : Nat} {g : SpecGroup}
variable {st : LoopState}

theorem groupScene_readsAt (hk : cfg.attentionGroups[k]? = some g) (hn : n ≤ maxLength) :
    ReadsAt (cfg.lookup (cfg.groupScene f maxLength) g) g.spec (f k) n := by
  have reads := scene_readsAt (fun spec t => f (cfg.specIndex spec) t) (mem_of_getElem? hk) hn
  rw [specIndex_eq hk] at reads
  exact reads

def KVCacheConfig.sceneHit (cfg : KVCacheConfig) (f : Nat → Nat → Bool) (maxLength : Nat)
    (g : SpecGroup) (bound : Nat) (drop : Bool) : Except HitError (List Row) :=
  managerHit g.spec (cfg.lookup (cfg.groupScene f maxLength) g) cfg.schedulerBlockSize bound drop

variable {bound : Nat} {rows : List Row}

theorem sceneHit_all (hk : cfg.attentionGroups[k]? = some g) (hbound : bound ≤ maxLength)
    (haligned : cfg.schedulerBlockSize ∣ bound) (all : ∀ t ≤ bound, f k t = true)
    (hhit : cfg.sceneHit f maxLength g bound false = .ok rows) :
    rows.length * g.spec.blockSize = bound := by
  have hg := mem_of_getElem? hk
  obtain ⟨rows', hrows', hlen⟩ := managerHit_all (cfg.isHybridKind hg) (cfg.blockSize_pos hg)
    (cfg.blockSize_dvd hg) (groupScene_readsAt hk hbound) haligned all
  rwa [Except.ok.inj (hhit.symm.trans hrows')]

theorem sceneHit_settles {lo : Nat} (hk : cfg.attentionGroups[k]? = some g)
    (hbound : bound ≤ maxLength) (ok : Settles g.spec (f k) cfg.schedulerBlockSize bound lo n)
    (hhit : cfg.sceneHit f maxLength g bound true = .ok rows) :
    ∃ n', rows.length * g.spec.blockSize = n' * cfg.schedulerBlockSize ∧ n ≤ n' ∧ n' ≤ n + 1 ∧
      (g.spec.isMamba = false → n' = n) := by
  have hg := mem_of_getElem? hk
  exact managerHit_settles (cfg.isHybridKind hg) (cfg.blockSize_pos hg) (cfg.blockSize_dvd hg)
    (groupScene_readsAt hk hbound) ok hhit

theorem sceneHit_mamba {t : Nat} (hk : cfg.attentionGroups[k]? = some g)
    (hbound : bound ≤ maxLength) (hmamba : g.spec.isMamba = true) (htpos : 0 < t) (ht : t ≤ bound)
    (haligned : cfg.schedulerBlockSize ∣ t) (hit : f k t = true)
    (miss : ∀ t', t < t' → t' ≤ bound → f k t' = false)
    (hhit : cfg.sceneHit f maxLength g bound drop = .ok rows) :
    rows.length * g.spec.blockSize = t := by
  have hg := mem_of_getElem? hk
  rw [sceneHit, managerHit_of_isMamba hmamba] at hhit
  exact mambaHit_at (cfg.blockSize_pos hg) (cfg.blockSize_dvd hg) (groupScene_readsAt hk hbound)
    htpos ht haligned hit miss hhit

theorem blockSize_le (hk : cfg.attentionGroups[k]? = some g) :
    g.spec.blockSize ≤ cfg.schedulerBlockSize :=
  Nat.le_of_dvd cfg.scheduler_pos (cfg.blockSize_dvd (mem_of_getElem? hk))

/-- A length in which the windows of all groups fit. -/
theorem exists_window_bound (gs : List SpecGroup) :
    ∃ n, ∀ g ∈ gs, ∀ w, g.spec.kind = .slidingWindow w → w - 1 ≤ n := by
  induction gs with
  | nil => exact ⟨0, nofun⟩
  | cons g gs ih =>
    obtain ⟨n, hn⟩ := ih
    obtain ⟨n', hn'⟩ : ∃ n', ∀ w, g.spec.kind = .slidingWindow w → w - 1 ≤ n' := by
      cases hkind : g.spec.kind with
      | slidingWindow w => exact ⟨w - 1, fun w' h => by rw [SpecKind.slidingWindow.inj h]⟩
      | _ => exact ⟨0, nofun⟩
    refine ⟨max n n', ?_⟩
    intro a ha w hw
    rcases mem_cons.mp ha with rfl | ha
    · exact (hn' w hw).trans (Nat.le_max_right _ _)
    · exact (hn a ha w hw).trans (Nat.le_max_left _ _)

theorem mem_found_verified {i : Nat} (b : SpecGroup) (rows : List Row)
    (hkeep : dropsAt k b st = false → st.currHitLength ≤ rows.length * b.spec.blockSize)
    (h : i ∈ st.eagleVerified ∨ (i = k ∧ dropsAt k b st = true)) :
    i ∈ (st.found k b rows).eagleVerified := by
  simp only [LoopState.found]
  cases hdrop : dropsAt k b st with
  | true =>
    rcases h with h | ⟨rfl, -⟩
    · exact mem_cons_of_mem _ h
    · exact mem_cons_self
  | false =>
    rw [if_neg (by decide), if_neg (Nat.not_lt.mpr (hkeep hdrop))]
    exact h.resolve_right fun h => by rw [hdrop] at h; cases h.2

/-! ### The loop on a scene -/

/-- A lookup of group `k` on a scene, with the bound it is given. -/
structure SceneVisit (cfg : HybridConfig) (f : Nat → Nat → Bool) (maxLength k : Nat) (g : SpecGroup)
    (st : LoopState) (bound : Nat) (rows : List Row) : Prop where
  group : cfg.attentionGroups[k]? = some g
  le_max : bound ≤ maxLength
  bound_eq : bound = if dropsAt k g st then min (st.currHitLength + g.spec.blockSize) maxLength
    else st.currHitLength
  hit : cfg.sceneHit f maxLength g bound (dropsAt k g st) = .ok rows

theorem SceneVisit.none (visit : SceneVisit cfg f maxLength k g st bound rows)
    (none : ∀ t ≤ bound, f k t = false) : rows = [] := by
  have hg := mem_of_getElem? visit.group
  exact managerHit_none (cfg.isHybridKind hg) (cfg.blockSize_pos hg)
    (groupScene_readsAt visit.group visit.le_max) none visit.hit

/-- A group that has everything behind `lo` cached, with room for its window, keeps the hit length
or shortens it by one alignment. -/
theorem SceneVisit.ample {n c : Nat}
    (visit : SceneVisit cfg f ((n + 1) * cfg.schedulerBlockSize) k g st bound rows) (lo : Nat)
    (hlo : lo < n * cfg.schedulerBlockSize)
    (hwindow : ∀ w, g.spec.kind = .slidingWindow w → lo + (w - 1) ≤ n * cfg.schedulerBlockSize)
    (hzero : g.spec.isFullAttention = true ∨ dropsAt k g st = false → lo = 0)
    (all : ∀ t ≥ lo, f k t = true) (hcurr : st.currHitLength = c * cfg.schedulerBlockSize)
    (hc : n ≤ c) (hc' : c ≤ n + 1) :
    ∃ c', rows.length * g.spec.blockSize = c' * cfg.schedulerBlockSize ∧ n ≤ c' ∧ c' ≤ n + 1 ∧
      (dropsAt k g st = false → c' = c) := by
  obtain ⟨hk, hle, hbound, hhit⟩ := visit
  rw [hcurr] at hbound
  cases hdrop : dropsAt k g st with
  | true =>
    have hblock := blockSize_le hk
    have hlow := Nat.mul_le_mul_right cfg.schedulerBlockSize hc
    have hadd : (n + 1) * cfg.schedulerBlockSize = n * cfg.schedulerBlockSize +
      cfg.schedulerBlockSize := Nat.succ_mul n _
    rw [hdrop] at hhit
    rw [hdrop, if_pos rfl] at hbound
    obtain ⟨c', hlen, hn, hn', -⟩ := sceneHit_settles hk hle ⟨hlo, hwindow,
      fun hfull => ⟨hzero (.inl hfull), hle⟩, by omega, fun t ht _ => all t ht.le,
      fun t ht ht' => by omega⟩ hhit
    exact ⟨c', hlen, hn, hn', nofun⟩
  | false =>
    rw [hdrop] at hbound hhit
    subst hbound
    refine ⟨c, sceneHit_all hk hle (Nat.dvd_mul_left _ _) (fun t _ => all t ?_) hhit, hc, hc',
      fun _ => rfl⟩
    rw [hzero (.inr hdrop)]
    exact Nat.zero_le t

/-- What the visits of the loop on a scene keep. -/
structure KeptOnScene (cfg : HybridConfig) (f : Nat → Nat → Bool) (maxLength : Nat)
    (P : Nat → Nat → LoopState → Prop) : Prop where
  start : P maxLength 0 { currHitLength := maxLength }
  trim : ∀ {H k g st}, cfg.attentionGroups[k]? = some g → P H k st →
    g.spec.isFullAttention = true → (st.hits k).isSome = true →
    P H (k + 1) { st with currHitLength := st.currHitLength / g.spec.blockSize * g.spec.blockSize }
  find : ∀ {H k g st rows bound}, P H k st →
    ¬ (g.spec.isFullAttention = true ∧ (st.hits k).isSome = true) →
    SceneVisit cfg f maxLength k g st bound rows → P H (k + 1) (st.found k g rows)
  next : ∀ {H st}, P H cfg.attentionGroups.length st → st.currHitLength < H →
    cfg.isSimpleHybrid = false → P st.currHitLength 0 st

/-- The rule for the loop on a scene: it returns, and what the visits keep holds at its end. -/
theorem findLongestCacheHit_scene {P : Nat → Nat → LoopState → Prop}
    (kept : KeptOnScene cfg f maxLength P) :
    ∃ L H st, cfg.findLongestCacheHit (cfg.groupScene f maxLength) =
        .ok ((range cfg.groups.length).map (cfg.groupBlocks (cfg.finalHits st L)), L) ∧
      P H cfg.attentionGroups.length st ∧ (L = H ∧ H ≤ st.currHitLength ∨
        cfg.isSimpleHybrid = true ∧ L = st.currHitLength ∧ L < H) := by
  have hle : ∀ {g curr}, curr ≤ maxLength → ∀ drop,
      lookupBound (cfg.groupScene f maxLength) g curr drop ≤ maxLength :=
    fun hcurr _ => lookupBound_le hcurr
  have hrule := @findLongestCacheHit_rule cfg.toKVCacheConfig (cfg.groupScene f maxLength)
    (fun H k st => st.currHitLength ≤ maxLength ∧ P H k st) (fun _ => False)
    (fun {H k g st st'} hk inv hvisit => by
      rcases visitGroup_cases hvisit with ⟨hfull, hsome, rfl⟩ | ⟨hnew, rows, hhit, rfl⟩
      · exact ⟨(Nat.div_mul_le_self _ _).trans inv.1, kept.trim hk inv.2 hfull hsome⟩
      · have hg := mem_of_getElem? hk
        have ok := managerHit_ok (cfg.isHybridKind hg) (cfg.blockSize_pos hg) hhit
        exact ⟨ok.length.le_max.trans (hle inv.1 _), kept.find inv.2 hnew
          ⟨hk, hle inv.1 _, rfl, hhit⟩⟩)
    (fun {H k g st e} hk inv hvisit => by
      obtain ⟨rows, hrows⟩ := managerHit_returns (cfg.isHybridKind (mem_of_getElem? hk))
        (groupScene_readsAt hk (hle inv.1 (dropsAt k g st))).hashed (dropsAt k g st)
      cases hrows.symm.trans (visitGroup_error hvisit))
    (fun inv hlt hsimple => ⟨inv.1, kept.next inv.2 hlt hsimple⟩) ⟨le_rfl, kept.start⟩
  split at hrule
  · exact hrule.elim
  · rename_i blocks L hresult
    obtain ⟨H, st, ⟨-, inv⟩, rfl, hend⟩ := hrule
    exact ⟨L, H, st, hresult, inv, hend⟩

end GroupScene
end Vllm.KVCache
