import Vllm.KVCache.HybridServable
import Vllm.KVCache.KVManager

/-! Where the blocks of a cache hit come from: whatever the coordinator, block `i` of a group
is the null block or the cached block for the hash of block `i`. -/
namespace Vllm.KVCache
open List KVCacheConfig Option Nat

variable {rows : List Row} {spec : KVCacheSpec} {align maxLength i idx gid : Nat} {lookup : Lookup}
  {hits : List (List BlockId)} {drop : Bool} {b : BlockId}

theorem chunkScan_found {n : Nat} (h : chunkScan lookup i n = .ok rows) {k : Nat}
    {blocks : List BlockId} (hk : rows[k]? = some (some blocks)) :
    lookup (i + k) = .ok (some blocks) := by
  induction n generalizing i k rows with
  | zero =>
    cases h
    cases hk
  | succ n ih =>
    rw [chunkScan] at h
    split at h
    · cases h
    · cases h
      cases hk
    rename_i found hlookup
    obtain ⟨rest, hrest, rfl⟩ := Run.map_eq_ok h
    cases k with
    | zero =>
      cases hk
      exact hlookup
    | succ k =>
      rw [← succ_add_eq_add_succ]
      exact ih hrest hk

theorem managerHit_not_cross (h : managerHit spec lookup align maxLength drop = .ok rows) :
    spec.kind ≠ .crossAttention := by
  intro hkind
  rw [managerHit, hkind] at h
  cases h

theorem managerHit_found (h : managerHit spec lookup align maxLength drop = .ok rows) :
    RowsFound lookup rows := by
  have hfull : RowsFound lookup (fullAttentionHit lookup spec.blockSize align maxLength drop) := by
    intro i blocks hi
    obtain ⟨found, hrow, hlookup⟩ := fullAttentionHit_getElem? hi
    rw [hlookup, some.inj hrow]
  unfold managerHit at h
  split at h
  · cases h
    exact hfull
  · cases h
    exact hfull
  · obtain ⟨i, run, n, rfl, -, ok, -, -⟩ := slidingWindowHit_spec h
    exact ok.rowsFound n
  · unfold chunkedLocalHit at h
    split at h
    · cases h
    obtain ⟨rest, hscan, rfl⟩ := Run.map_eq_ok h
    intro i blocks hi
    rw [getElem?_append] at hi
    split at hi
    · rename_i hlt
      rw [length_replicate] at hlt
      rw [getElem?_replicate, if_pos hlt] at hi
      cases hi
    · rename_i hge
      rw [length_replicate] at hge hi
      have hfound := chunkScan_found hscan hi
      rwa [Nat.add_sub_cancel' (Nat.le_of_not_lt hge)] at hfound
  · rcases mambaHit_spec h with rfl | ⟨i, blocks, rfl, hlookup, -⟩
    · intro k found hk
      cases hk
    intro k found hk
    rw [runRows_getElem?] at hk
    split at hk
    · cases hk
    obtain ⟨b, hb, hsame⟩ := map_eq_some_iff.mp hk
    obtain ⟨hlt, hb⟩ := List.getElem?_eq_some_iff.mp hb
    have hki : k = i := by
      rw [length_singleton] at hlt
      omega
    subst hki
    simp only [Nat.sub_self, getElem_cons_zero] at hb
    rw [hlookup, hb, some.inj hsame]
  · cases h

section
variable {cfg : KVCacheConfig} {q : HitQuery}

def HitsFound (cfg : KVCacheConfig) (q : HitQuery) (hits : Nat → Option (List Row)) : Prop :=
  ∀ idx g rows, cfg.attentionGroups[idx]? = some g → hits idx = some rows →
    RowsFound (cfg.lookup q g) rows ∧ g.spec.kind ≠ .crossAttention

variable {st st' : LoopState}

theorem visitGroup_found {g : SpecGroup} (hg : cfg.attentionGroups[idx]? = some g)
    (hits : HitsFound cfg q st.hits) (h : cfg.visitGroup q idx g st = .ok st') :
    HitsFound cfg q st'.hits := by
  rcases visitGroup_cases h with ⟨-, -, rfl⟩ | ⟨-, rows, hhit, rfl⟩
  · exact hits
  intro k a found ha hfound
  rcases found_hits_cases hg ha hfound with ⟨rfl, rfl, rfl⟩ | ⟨-, hold⟩
  · exact ⟨managerHit_found hhit, managerHit_not_cross hhit⟩
  · exact hits k a found ha hold

theorem finalHits_found (hits : HitsFound cfg q st.hits) (L : Nat) :
    HitsFound cfg q (cfg.finalHits st L) := by
  have hcut : ∀ n, HitsFound cfg q (Function.update st.hits 0 ((st.hits 0).map (·.take n))) := by
    intro n idx g rows hg hrows
    by_cases hidx : idx = 0
    · subst hidx
      obtain ⟨full, hfull, rfl⟩ := map_eq_some_iff.mp hrows
      obtain ⟨hfound, hcross⟩ := hits 0 g full hg hfull
      refine ⟨fun i blocks hi => ?_, hcross⟩
      rw [getElem?_take] at hi
      split at hi
      · exact hfound i blocks hi
      · cases hi
    · rw [Function.update_of_ne hidx] at hrows
      exact hits idx g rows hg hrows
  unfold finalHits
  split
  · split
    · exact hcut _
    · exact hits
  · exact hits

def HitBlock (pool : BlockPool) (hbs blockSize : Nat) (hashes : List BlockHash) (gid : GroupId)
    (i : Nat) (b : BlockId) : Prop :=
  b = nullBlock ∨ ∃ h, groupHash hbs blockSize hashes i = some h ∧
    pool.getOneBlock (makeBlockHashWithGroupId h gid) = some b

theorem column_hitBlock {pool : BlockPool} {hbs blockSize : Nat} {hashes : List BlockHash}
    {groupIds : List GroupId} {gid : GroupId} {rows : List Row}
    (hfound : RowsFound (poolLookup pool hbs blockSize hashes groupIds) rows)
    (hgid : gid ∈ groupIds) (hb : (column rows (groupIds.idxOf gid))[i]? = some b) :
    HitBlock pool hbs blockSize hashes gid i b := by
  have hcolumn := hb
  rw [column, getElem?_map, map_eq_some_iff] at hb
  obtain ⟨row, hrow, rfl⟩ := hb
  cases row with
  | none => exact .inl rfl
  | some blocks =>
    obtain ⟨hash, b, hhash, hone, hb⟩ := column_some hfound hgid hrow
    cases hcolumn.symm.trans hb
    exact .inr ⟨hash, hhash, hone⟩

theorem findLongestCacheHit_source {L : Nat} (h : cfg.findLongestCacheHit q = .ok (hits, L))
    (hb : (hits.getD gid [])[i]? = some b) :
    ∃ g, cfg.groups[gid]? = some g ∧ g.spec.kind ≠ .crossAttention ∧
      HitBlock q.pool cfg.hashBlockSize g.spec.blockSize q.hashes gid i b := by
  have hrule := @findLongestCacheHit_rule cfg q (fun _ _ st => HitsFound cfg q st.hits)
    (fun _ => True) (fun hg hits hvisit => visitGroup_found hg hits hvisit) (fun _ _ _ => trivial)
    (fun hits _ _ => hits) nofun
  rw [h] at hrule
  obtain ⟨H, st, hits, rfl, -⟩ := hrule
  have hfound := finalHits_found hits L
  rw [getD_eq_getElem?_getD, getElem?_map] at hb
  by_cases hlt : gid < cfg.groups.length
  · obtain ⟨a, idx, hfind, hidx, hmem, hspec⟩ := findGroup_spec (getElem?_eq_getElem hlt)
    refine ⟨cfg.groups[gid], getElem?_eq_getElem hlt, ?_⟩
    simp only [getElem?_range hlt, map_some, getD_some, groupBlocks, hfind] at hb
    split at hb
    · cases hb
    rename_i rows hrows
    rw [← hspec]
    obtain ⟨hrowsFound, hcross⟩ := hfound idx a rows hidx hrows
    exact ⟨hcross, column_hitBlock hrowsFound hmem hb⟩
  · rw [getElem?_eq_none (length_range.trans_le (Nat.le_of_not_lt hlt))] at hb
    cases hb

end

/-! ### The hit length

Attention lookups never return more than they are asked for, so the length only shrinks and
every group keeps blocks for at least that length. With other groups the last one decides. -/

theorem chunkScan_length {n : Nat} (h : chunkScan lookup i n = .ok rows) : rows.length ≤ n := by
  induction n generalizing i rows with
  | zero =>
    cases h
    exact Nat.le_refl 0
  | succ n ih =>
    rw [chunkScan] at h
    split at h
    · cases h
    · cases h
      exact Nat.zero_le _
    obtain ⟨rest, hrest, rfl⟩ := Run.map_eq_ok h
    exact succ_le_succ (ih hrest)

theorem managerHit_length (hkind : spec.isMamba = false)
    (h : managerHit spec lookup align maxLength drop = .ok rows) :
    rows.length * spec.blockSize ≤ maxLength ∧
      (drop = true → rows.length = 0 ∨ rows.length * spec.blockSize + spec.blockSize ≤ maxLength) := by
  unfold managerHit at h
  split at h
  · cases h
    have ok := fullAttentionHit_length lookup spec.blockSize align maxLength drop
    exact ⟨ok.le_max, ok.dropped_le⟩
  · cases h
    have ok := fullAttentionHit_length lookup spec.blockSize align maxLength drop
    exact ⟨ok.le_max, ok.dropped_le⟩
  · obtain ⟨i, run, n, rfl, hn, ok, haligned, -⟩ := slidingWindowHit_spec h
    have length := lengthOk_of_le haligned (hn.imp_left fun h => h.trans ok.fits)
    rw [length_take, runRows_length, Nat.min_eq_left (by omega)]
    exact ⟨length.le_max, length.dropped_le⟩
  · rename_i chunk _
    unfold chunkedLocalHit at h
    split at h
    · cases h
    rename_i hdrop
    obtain ⟨rest, hscan, rfl⟩ := Run.map_eq_ok h
    have hlen := chunkScan_length hscan
    have hstart : maxLength / chunk * chunk / spec.blockSize ≤ maxLength / spec.blockSize :=
      Nat.div_le_div_right (div_mul_le_self _ _)
    refine ⟨?_, fun hd => absurd (.inl hd) hdrop⟩
    rw [length_append, length_replicate]
    refine Nat.le_trans (Nat.mul_le_mul_right _ ?_) (div_mul_le_self maxLength spec.blockSize)
    omega
  · rename_i hm
    rw [KVCacheSpec.isMamba, hm] at hkind
    cases hkind
  · cases h

section
variable {cfg : KVCacheConfig} {q : HitQuery}

/-- The loop variables in the middle of a round that started with `H` tokens. -/
structure Shrinks (cfg : KVCacheConfig) (H idx : Nat) (st : LoopState) : Prop where
  curr_le : st.currHitLength ≤ H
  lower : ∀ k g rows, cfg.attentionGroups[k]? = some g → st.hits k = some rows →
    st.currHitLength ≤ rows.length * g.spec.blockSize
  done : ∀ k < idx, (st.hits k).isSome

variable {g : SpecGroup} {st st' : LoopState} {L : Nat}

theorem Shrinks.step {H : Nat} (inv : Shrinks cfg H idx st)
    (hg : cfg.attentionGroups[idx]? = some g) (hkind : g.spec.isMamba = false)
    (h : cfg.visitGroup q idx g st = .ok st') : Shrinks cfg H (idx + 1) st' := by
  rcases visitGroup_cases h with ⟨-, hsome, rfl⟩ | ⟨-, rows, hhit, rfl⟩
  · have hle : st.currHitLength / g.spec.blockSize * g.spec.blockSize ≤ st.currHitLength :=
      div_mul_le_self _ _
    refine ⟨hle.trans inv.curr_le, fun k a rows ha hrows => hle.trans (inv.lower k a rows ha hrows),
      fun k hk => ?_⟩
    rcases Nat.lt_succ_iff_lt_or_eq.mp hk with hlt | rfl
    · exact inv.done k hlt
    · exact hsome
  · obtain ⟨hmax, hdropped⟩ := managerHit_length hkind hhit
    -- the EAGLE drop gives back the extra block of the bound
    have hle : rows.length * g.spec.blockSize ≤ st.currHitLength := by
      cases hdrop : dropsAt idx g st with
      | false =>
        rw [hdrop] at hmax
        exact hmax
      | true =>
        rcases hdropped hdrop with hzero | hshort
        · rw [hzero, Nat.zero_mul]
          exact Nat.zero_le _
        · rw [hdrop, lookupBound, if_pos rfl] at hshort
          omega
    refine ⟨hle.trans inv.curr_le, fun k a found ha hfound => ?_, fun k hk => ?_⟩
    · rcases found_hits_cases hg ha hfound with ⟨rfl, rfl, rfl⟩ | ⟨-, hold⟩
      · exact Nat.le_refl _
      · exact hle.trans (inv.lower k a found ha hold)
    · by_cases hidx : k = idx
      · rw [hidx, found_hits_self]
        rfl
      · rw [found_hits_of_ne g rows hidx]
        exact inv.done k (by omega)

/-- Behind the visit of group `k` that is not full attention, its rows have the hit length. -/
def LastFound (cfg : KVCacheConfig) (idx : Nat) (st : LoopState) : Prop :=
  ∀ k g, k + 1 = idx → cfg.attentionGroups[k]? = some g → g.spec.isFullAttention = false →
    ∃ rows, st.hits k = some rows ∧ st.currHitLength = rows.length * g.spec.blockSize

theorem visitGroup_lastFound (hg : cfg.attentionGroups[idx]? = some g)
    (h : cfg.visitGroup q idx g st = .ok st') : LastFound cfg (idx + 1) st' := by
  intro k a hk ha hother
  obtain rfl := succ.inj hk
  cases hg.symm.trans ha
  rcases visitGroup_cases h with ⟨hfull, -⟩ | ⟨-, rows, -, rfl⟩
  · rw [hfull] at hother
    cases hother
  · exact ⟨rows, found_hits_self .., rfl⟩

variable (htwo : 1 < cfg.attentionGroups.length) (h : cfg.findLongestCacheHit q = .ok (hits, L))
include htwo h

/-- Some group behind the first keeps rows for the whole hit length. -/
theorem findLongestCacheHit_lower :
    ∃ st k g rows,
      hits = (range cfg.groups.length).map (cfg.groupBlocks (cfg.finalHits st L)) ∧
      k ≠ 0 ∧ cfg.attentionGroups[k]? = some g ∧ st.hits k = some rows ∧
      L ≤ rows.length * g.spec.blockSize := by
  have hrule := @findLongestCacheHit_rule cfg q (fun H k st => LastFound cfg k st ∧
      ((∀ g ∈ cfg.attentionGroups, g.spec.isMamba = false) → Shrinks cfg H k st))
    (fun _ => True)
    (fun hg inv hvisit => ⟨visitGroup_lastFound hg hvisit, fun hkinds =>
      (inv.2 hkinds).step hg (hkinds _ (mem_of_getElem? hg)) hvisit⟩)
    (fun _ _ _ => trivial)
    (fun inv _ _ => ⟨fun k _ hk => absurd hk (succ_ne_zero k), fun hkinds =>
      ⟨Nat.le_refl _, (inv.2 hkinds).lower, nofun⟩⟩)
    ⟨fun k _ hk => absurd hk (succ_ne_zero k), fun _ =>
      ⟨Nat.le_refl _, nofun, nofun⟩⟩
  rw [h] at hrule
  obtain ⟨H, st, ⟨hlast, hshrinks⟩, rfl, hend⟩ := hrule
  have hle : L ≤ st.currHitLength := by omega
  have hlt : cfg.attentionGroups.length - 1 < cfg.attentionGroups.length := by omega
  have hg := getElem?_eq_getElem hlt
  cases hfull : cfg.attentionGroups[cfg.attentionGroups.length - 1].spec.isFullAttention with
  | false =>
    obtain ⟨rows, hrows, hcurr⟩ := hlast _ _ (by omega) hg hfull
    exact ⟨st, _, _, rows, rfl, by omega, hg, hrows, hle.trans_eq hcurr⟩
  | true =>
    -- full attention comes first, so there is nothing else
    have hkinds : ∀ a ∈ cfg.attentionGroups, a.spec.isMamba = false := by
      intro a ha
      obtain ⟨j, hj, rfl⟩ := getElem_of_mem ha
      have hfull' : cfg.attentionGroups[j].spec.isFullAttention = true := by
        rcases Nat.lt_or_ge j (cfg.attentionGroups.length - 1) with hlt' | hge
        · exact pairwise_iff_getElem.mp cfg.attentionGroups_sorted j _ hj hlt hlt' hfull
        · obtain rfl : j = cfg.attentionGroups.length - 1 := by omega
          exact hfull
      unfold KVCacheSpec.isFullAttention at hfull'
      unfold KVCacheSpec.isMamba
      split at hfull' <;> simp_all
    obtain ⟨rows, hrows⟩ := isSome_iff_exists.mp ((hshrinks hkinds).done _ hlt)
    exact ⟨st, _, _, rows, rfl, by omega, hg, hrows,
      hle.trans ((hshrinks hkinds).lower _ _ rows hg hrows)⟩

theorem findLongestCacheHit_nil (hnil : ∀ i, hits.getD i [] = []) : L = 0 := by
  -- that group is not cut at the end
  obtain ⟨st, k, g, rows, rfl, hk, hg, hrows, hle⟩ := findLongestCacheHit_lower htwo h
  obtain ⟨gid, g', j, hg', -, hblocks⟩ :=
    exists_groupBlocks hg ((finalHits_eq_hits hg (fun h => hk h.1) st L).trans hrows)
  have hgid := hnil gid
  have hlt := (List.getElem?_eq_some_iff.mp hg').1
  rw [getD_eq_getElem?_getD, getElem?_map, getElem?_range hlt, map_some,
    getD_some, hblocks, column, map_eq_nil_iff] at hgid
  rw [hgid, length_nil, Nat.zero_mul] at hle
  exact le_zero.mp hle

end

namespace CacheConfig

/-- The block size at which the lookup of a group reads the hashes. -/
def lookupBlockSize (cfg : CacheConfig) (g : KVCacheGroupSpec) : Nat :=
  if cfg.groups.length = 1 then g.spec.blockSize * cfg.worldSize else g.spec.blockSize

variable {cfg : CacheConfig} {L : Nat} {hits : List (List BlockId)}

variable {s : KVState} {request : Request}

/-- An answer comes from no lookup at all, from the lookup of the only group, or from the loop of
the hybrid coordinator. -/
theorem getComputedBlocks_cases (h : cfg.getComputedBlocks s request = .ok (hits, L)) :
    (hits = cfg.groups.map (fun _ => []) ∧ L = 0) ∨
      cfg.enableCaching = true ∧
        ((∃ g rows, cfg.groups = [g] ∧ (cfg.worldSize = 1 ∨ g.spec.isFullAttention = true) ∧
            managerHit { g.spec with blockSize := g.spec.blockSize * cfg.worldSize }
              (poolLookup s.pool cfg.hashBlockSize (g.spec.blockSize * cfg.worldSize)
                request.blockHashes [0]) (g.spec.blockSize * cfg.worldSize)
              (request.numTokens - 1) (cfg.isEagle g) = .ok rows ∧
            hits = [column rows 0] ∧
            L = rows.length * (g.spec.blockSize * cfg.worldSize)) ∨
          cfg.groups.length ≠ 1 ∧
            cfg.findLongestCacheHit ⟨s.pool, request.blockHashes, request.numTokens - 1⟩ =
              .ok (hits, L)) := by
  unfold getComputedBlocks at h
  split at h
  · cases h
    exact .inl ⟨rfl, rfl⟩
  rename_i hcaching
  push Not at hcaching
  unfold coordinatorHit at h
  rw [if_neg hcaching.1] at h
  refine .inr ⟨by simpa using hcaching.1, ?_⟩
  split at h
  · rename_i g hgroups
    unfold unitaryHit at h
    simp only at h
    split at h
    · cases h
    rename_i hworld
    split at h
    · cases h
    rename_i rows hhit
    cases h
    refine .inl ⟨g, rows, hgroups, ?_, hhit, rfl, rfl⟩
    by_cases hone : cfg.worldSize = 1
    · exact .inl hone
    · exact .inr (eq_true_of_ne_false fun hfull => hworld ⟨hone, hfull⟩)
  · rename_i hmany
    split at h
    · cases h
    rename_i hit hfind
    cases h
    refine .inr ⟨fun hone => ?_, hfind⟩
    obtain ⟨a, ha⟩ := length_eq_one_iff.mp hone
    exact hmany a ha

theorem getD_map_nil (gs : List KVCacheGroupSpec) (i : Nat) :
    (gs.map fun _ => ([] : List BlockId)).getD i [] = [] := by
  rw [getD_eq_getElem?_getD, getElem?_map]
  cases gs[i]? with
  | none => rfl
  | some _ => rfl

variable (h : cfg.getComputedBlocks s request = .ok (hits, L))
include h

theorem getComputedBlocks_source (hb : (hits.getD gid [])[i]? = some b) :
    ∃ g, cfg.groups[gid]? = some g ∧ g.spec.kind ≠ .crossAttention ∧
      HitBlock s.pool cfg.hashBlockSize (cfg.lookupBlockSize g) request.blockHashes gid i b := by
  rcases getComputedBlocks_cases h with ⟨rfl, -⟩ | ⟨-, ⟨g, rows, hgroups, -, hhit, rfl, -⟩ |
    ⟨hmany, hfind⟩⟩
  · rw [getD_map_nil] at hb
    cases hb
  · have hgid : gid = 0 := by
      by_contra hne
      obtain ⟨k, rfl⟩ := exists_eq_succ_of_ne_zero hne
      cases hb
    subst hgid
    have hcross := managerHit_not_cross hhit
    refine ⟨g, by rw [hgroups]; rfl, hcross, ?_⟩
    rw [lookupBlockSize, if_pos (by rw [hgroups]; rfl)]
    exact column_hitBlock (managerHit_found hhit) (mem_singleton.mpr rfl) hb
  · obtain ⟨g, hg, hcross, hblock⟩ := findLongestCacheHit_source hfind hb
    refine ⟨g, hg, hcross, ?_⟩
    rw [lookupBlockSize, if_neg hmany]
    exact hblock

theorem getComputedBlocks_nil (hnil : ∀ i, hits.getD i [] = []) : L = 0 := by
  rcases getComputedBlocks_cases h with ⟨-, rfl⟩ | ⟨hcaching, ⟨g, rows, -, -, -, rfl, rfl⟩ |
    ⟨hmany, hfind⟩⟩
  · rfl
  · have hzero : column rows 0 = [] := hnil 0
    rw [column, map_eq_nil_iff] at hzero
    rw [hzero, length_nil, Nat.zero_mul]
  · exact findLongestCacheHit_nil (cfg.two_groups hcaching hmany) hfind hnil

end CacheConfig
end Vllm.KVCache
