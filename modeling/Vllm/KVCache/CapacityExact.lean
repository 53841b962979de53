import Vllm.KVCache.Capacity

/-! The prediction of `allocate_slots` against its allocation, over all groups: for a first
allocation with hits and external tokens, and for a request that holds blocks already. -/
namespace Vllm.KVCache
open List Manager PySeq

namespace KVState

/-! ### The prediction as a sum -/

theorem sumGroups_eq {f : Nat → Manager → ManagerState → Except KVError Int}
    (cost : Nat → Group → Int) (groups : List Group) (i : Nat) {n : Int}
    (hcost : ∀ k g v, groups[k]? = some g → f (i + k) g.1 g.2 = .ok v → v = cost (i + k) g)
    (h : sumGroups f i groups = .ok n) : n = groupSum cost i groups := by
  induction groups generalizing i n with
  | nil =>
    cases h
    rfl
  | cons g groups ih =>
    obtain ⟨m, st⟩ := g
    rw [sumGroups] at h
    split at h
    · cases h
    rename_i v hv
    split at h
    · cases h
    rename_i total htotal
    cases h
    have hhead := hcost 0 (m, st) v rfl hv
    have htail := ih (i + 1) (fun k g w hg hw => by
      have hk := hcost (k + 1) g w hg
      rw [← Nat.succ_add_eq_add_succ] at hk
      exact hk hw) htotal
    rw [hhead, htail]
    rfl

theorem requiredBlocks_uncapped (m : Manager) (numTokens : Nat) :
    m.requiredBlocks numTokens false = cdiv numTokens m.blockSize := by
  unfold requiredBlocks
  split
  · rfl
  · rfl

theorem getNumBlocksToAllocate_attention {m : Manager} (hkind : m.spec.isMamba = false)
    (pool : BlockPool) (st : ManagerState) (r : ReqId) (numTokens : Nat) (hits : List BlockId)
    (total numTokensMain : Nat) (applyCap : Bool) :
    m.getNumBlocksToAllocate pool st r numTokens hits total numTokensMain applyCap =
      m.baseNumBlocksToAllocate pool st r numTokens hits total applyCap := by
  unfold KVCacheSpec.isMamba at hkind
  unfold Manager.getNumBlocksToAllocate
  split
  · rename_i hm
    simp only [hm] at hkind
    cases hkind
  · rfl

section
variable {m : Manager} {pool : BlockPool} {st : ManagerState} {r : ReqId}
  {numTokens total numTokensMain : Nat} {hits : List BlockId} {n : Int}

theorem getNumBlocksToAllocate_untracked (hkind : m.spec.isMamba = false)
    (huntracked : st.numCachedBlock r = none)
    (h : m.getNumBlocksToAllocate pool st r numTokens hits total numTokensMain false = .ok n) :
    n = max ((cdiv numTokens m.blockSize : Int) -
        max (m.numSkippedBlocks total) ((hits.length + (st.blocksOf r).length : Nat) : Int)) 0 +
      numEvictable pool
        (hits.drop (max 0 (m.numSkippedBlocks total - (st.blocksOf r).length)).toNat) := by
  rw [getNumBlocksToAllocate_attention hkind] at h
  unfold baseNumBlocksToAllocate at h
  simp only [huntracked, Option.isSome_none, Bool.false_eq_true, if_false,
    requiredBlocks_uncapped] at h
  cases h
  rfl

theorem getNumBlocksToAllocate_tracked (hkind : m.spec.isMamba = false)
    (htracked : (st.numCachedBlock r).isSome)
    (h : m.getNumBlocksToAllocate pool st r numTokens hits total numTokensMain false = .ok n) :
    n = m.newCost numTokens (st.blocksOf r).length := by
  rw [getNumBlocksToAllocate_attention hkind] at h
  unfold baseNumBlocksToAllocate at h
  simp only [htracked, if_true, requiredBlocks_uncapped] at h
  split at h
  · cases h
  · cases h
    rfl

end

/-! ### A first allocation -/

section
variable {c : PoolConfig} {s s' : KVState} {frame : List BlockId} {r : ReqId}

theorem managers_getElem? (h : s'.managers = s.managers) {k : Nat} {g g' : Group}
    (hg : s'.groups[k]? = some g) (hg' : s.groups[k]? = some g') : g.1 = g'.1 := by
  have hk := congrArg (fun ms : List Manager => ms[k]?) h
  simp only [managers, getElem?_map, hg, hg', Option.map_some, Option.some.injEq] at hk
  exact hk

theorem managers_length (h : s'.managers = s.managers) : s'.groups.length = s.groups.length := by
  have hlen := congrArg length h
  rwa [managers, managers, length_map, length_map] at hlen

/-- What a first allocation assumes of a call: a request without blocks, hits of a lookup, and
no table that ends behind the external tokens. -/
structure FirstCall (c : PoolConfig) (s : KVState) (r : ReqId) (hits : List (List BlockId))
    (numLocal numExternal : Nat) : Prop where
  live : HitsLive c hits
  distinct : DistinctHits hits
  first : EachGroup (FirstHits r hits) s.groups
  untracked : EachGroup (fun _ _ st => st.numCachedBlock r = none ∧ st.allocatedBlockReqs r = false)
    s.groups
  window : EachGroup (fun _ m _ => m.spec.kind ≠ .slidingWindow 0) s.groups
  fits : EachGroup (fun i m _ => HitFits hits numLocal numExternal i m) s.groups

def externalCost (hits : List (List BlockId)) (numLocal numExternal : Nat) (i : Nat) (g : Group) :
    Int :=
  g.1.externalCost numLocal numExternal (localLength hits (numLocal + numExternal) i g.1)

theorem externalInWindow_zero (m : Manager) (numLocal : Nat) :
    m.externalInWindow numLocal 0 ≤ 0 := by
  unfold externalInWindow
  simp only
  split
  · exact Int.min_le_right _ _
  · exact Int.le_refl 0

theorem externalCost_zero (hits : List (List BlockId)) (numLocal : Nat) (i : Nat) (g : Group) :
    externalCost hits numLocal 0 i g = 0 := by
  rw [externalCost, Manager.externalCost, if_pos (.inr (externalInWindow_zero g.1 numLocal))]

variable {hits : List (List BlockId)} {numExternal numLocal : Nat} {m : Manager} {n : Int}
  {st : ManagerState} {cfg : CacheConfig} {pool : BlockPool} {a : SlotArgs}

theorem allocateNewComputedBlocks_exact (owned : s.Owned c frame)
    (call : FirstCall c s r hits numLocal numExternal)
    (hfree : groupSum (localCost s.pool hits (numLocal + numExternal)) 0 s.groups +
      groupSum (externalCost hits numLocal numExternal) 0 s.groups ≤ s.pool.numFreeBlocks) :
    ∃ s', s.allocateNewComputedBlocks r hits numLocal numExternal = .ok s' ∧ s'.Owned c frame ∧
      EachGroup (fun i m st => ((st.blocksOf r).length : Int) =
        localLength hits (numLocal + numExternal) i m +
          m.externalCost numLocal numExternal (localLength hits (numLocal + numExternal) i m))
        s'.groups ∧
      s'.pool.numFreeBlocks = s.pool.numFreeBlocks -
        (groupSum (localCost s.pool hits (numLocal + numExternal)) 0 s.groups +
          groupSum (externalCost hits numLocal numExternal) 0 s.groups) := by
  have hext := groupSum_nonneg (externalCost hits numLocal numExternal)
    (fun i g => g.1.externalCost_nonneg _ _ _) 0 s.groups
  obtain ⟨s₁, hlocal, howned₁, hlen₁, hnum₁⟩ := addLocalComputedBlocks_exact owned
    (r := r) numLocal numExternal call.live call.distinct call.first (by omega)
  have hmanagers := forGroupsUnit_managers hlocal
  have huntracked : ¬ s.groups.any (fun g => (g.2.numCachedBlock r).isSome) = true := by
    rw [any_eq_true]
    rintro ⟨g, hg, hsome⟩
    obtain ⟨i, hi⟩ := mem_iff_getElem?.mp hg
    rw [(call.untracked i g hi).1] at hsome
    cases hsome
  unfold allocateNewComputedBlocks
  rw [if_neg huntracked, hlocal]
  simp only
  by_cases hpos : 0 < numExternal
  · rw [if_pos hpos]
    have hsame : groupSum (fun i g => g.1.externalCost numLocal numExternal
        (localLength hits (numLocal + numExternal) i g.1)) 0 s₁.groups =
        groupSum (externalCost hits numLocal numExternal) 0 s.groups := by
      refine groupSum_congr _ _ 0 (managers_length hmanagers) fun k g g' hg hg' => ?_
      rw [externalCost, managers_getElem? hmanagers hg hg']
    have hfits : EachGroup (fun i m _ => m.spec.kind ≠ .crossAttention →
        0 < m.externalInWindow numLocal numExternal →
        localLength hits (numLocal + numExternal) i m ≤
          cdiv (numLocal + numExternal) m.blockSize) s₁.groups := by
      intro i g hg hcross hwindow
      obtain ⟨g', hg'⟩ : ∃ g', s.groups[i]? = some g' := by
        have hlt := (List.getElem?_eq_some_iff.mp hg).1
        rw [managers_length hmanagers] at hlt
        exact ⟨s.groups[i], getElem?_eq_getElem hlt⟩
      have hfit := (call.fits i g' hg').resolve_left (Nat.ne_of_gt hpos)
      rw [← managers_getElem? hmanagers hg hg'] at hfit
      rw [localLength, if_neg hcross, localTable_length]
      have hskip := numSkippedBlocks_le (getNumSkippedTokens_le_of_inWindow hwindow)
      exact Nat.max_le.mpr ⟨hskip, hfit⟩
    obtain ⟨s₂, hexternal, howned₂, hlen₂, hnum₂⟩ := allocateExternalComputedBlocks_exact howned₁
      numLocal numExternal hlen₁ hfits (by omega)
    exact ⟨s₂, hexternal, howned₂, hlen₂, by omega⟩
  · obtain rfl : numExternal = 0 := Nat.eq_zero_of_not_pos hpos
    have hzero : groupSum (externalCost hits numLocal 0) 0 s.groups = 0 :=
      groupSum_eq_zero s.groups 0 fun k g _ => externalCost_zero hits numLocal (0 + k) g
    refine ⟨s₁, rfl, howned₁, ?_, by omega⟩
    intro i g hg
    have hcost := externalCost_zero hits numLocal i g
    rw [externalCost] at hcost
    rw [hlen₁ i g hg, hcost, Int.add_zero]

def firstNewCost (hits : List (List BlockId)) (numLocal numExternal numTokens numEncoder : Nat)
    (i : Nat) (g : Group) : Int :=
  max ((cdiv (if g.1.spec.kind = .crossAttention then numEncoder else numTokens)
      g.1.blockSize : Int) -
    (localLength hits (numLocal + numExternal) i g.1 +
      externalCost hits numLocal numExternal i g)) 0

theorem numSkippedBlocks_zero (hcross : m.spec.kind = .crossAttention) (total : Nat) :
    m.numSkippedBlocks total = 0 := by
  rw [numSkippedBlocks, getNumSkippedTokens, hcross]
  simp

theorem prediction_first {i : Nat} {numTokens numEncoder numTokensMain : Nat}
    (hattention : m.spec.isMamba = false) (huntracked : st.numCachedBlock r = none)
    (hfirst : FirstHits r hits i m st) (hslots : numLocal + numExternal ≤ numTokens)
    (h : (if m.spec.kind = .crossAttention then
        m.getNumBlocksToAllocate pool st r numEncoder [] 0 numEncoder false
      else m.getNumBlocksToAllocate pool st r numTokens (hits.getD i []) (numLocal + numExternal)
        numTokensMain false) = .ok n) :
    n = localCost pool hits (numLocal + numExternal) i (m, st) +
      externalCost hits numLocal numExternal i (m, st) +
      firstNewCost hits numLocal numExternal numTokens numEncoder i (m, st) := by
  by_cases hcross : m.spec.kind = .crossAttention
  · rw [if_pos hcross] at h
    have hn := getNumBlocksToAllocate_untracked hattention huntracked h
    rw [numSkippedBlocks_zero hcross, hfirst.empty] at hn
    simp only [localCost, externalCost, firstNewCost, localLength, Manager.externalCost, hcross,
      if_true, true_or]
    rw [hn]
    simp [numEvictable]
  · rw [if_neg hcross] at h
    have hn := getNumBlocksToAllocate_untracked hattention huntracked h
    have hmono : cdiv (numLocal + numExternal) m.blockSize ≤ cdiv numTokens m.blockSize :=
      cdiv_mono hslots
    have hkept : (hits.getD i []).drop
        (max 0 (m.numSkippedBlocks (numLocal + numExternal) - ((st.blocksOf r).length : Int))).toNat =
        m.keptHits (hits.getD i []) (numLocal + numExternal) := by
      rw [hfirst.empty, keptHits]
      congr 1
      simp only [length_nil]
      omega
    rw [hkept, hfirst.empty, length_nil, Nat.add_zero] at hn
    simp only [localCost, externalCost, firstNewCost, localLength, Manager.externalCost, hcross,
      if_false, false_or]
    rw [hn, localTable_length]
    split
    · omega
    · omega

theorem getNumSkippedTokens_le (hwindow : m.spec.kind ≠ .slidingWindow 0) (total : Nat) :
    m.getNumSkippedTokens total ≤ total := by
  unfold getNumSkippedTokens
  split
  · rename_i window hkind
    have hpos : window ≠ 0 := fun h => hwindow (h ▸ hkind)
    omega
  · exact Int.ofNat_le.mpr (Nat.div_mul_le_self _ _)
  · omega
  · exact Int.natCast_nonneg _
  · exact Int.natCast_nonneg _
  · exact Int.natCast_nonneg _

theorem allocateNewBlocks_first {s₁ : KVState} (owned : s₁.Owned c frame)
    (hmanagers : s₁.managers = s.managers) (numTokens numTokensMain numEncoder : Nat)
    (hattention : EachGroup (fun _ m _ => m.spec.isMamba = false) s.groups)
    (hlen : EachGroup (fun i m st => ((st.blocksOf r).length : Int) =
        localLength hits (numLocal + numExternal) i m +
          m.externalCost numLocal numExternal (localLength hits (numLocal + numExternal) i m))
        s₁.groups)
    (hfree : groupSum (firstNewCost hits numLocal numExternal numTokens numEncoder) 0 s.groups ≤
      s₁.pool.numFreeBlocks) :
    ∃ s' new, s₁.allocateNewBlocks r numTokens numTokensMain numEncoder = .ok (s', new) ∧
      s'.Owned c frame ∧ s'.pool.numFreeBlocks = s₁.pool.numFreeBlocks -
        groupSum (firstNewCost hits numLocal numExternal numTokens numEncoder) 0 s.groups := by
  have hlength := managers_length hmanagers
  have hkind : EachGroup (fun _ m _ => m.spec.isMamba = false) s₁.groups := by
    intro i g hg
    have hlt := (List.getElem?_eq_some_iff.mp hg).1
    rw [hlength] at hlt
    have hg' : s.groups[i]? = some s.groups[i] := getElem?_eq_getElem hlt
    rw [managers_getElem? hmanagers hg hg']
    exact hattention i _ hg'
  have hsame : groupSum (fun _ => newCost r numTokens numEncoder) 0 s₁.groups =
      groupSum (firstNewCost hits numLocal numExternal numTokens numEncoder) 0 s.groups := by
    refine groupSum_congr _ _ 0 hlength fun k g g' hg hg' => ?_
    have hk := hlen k g hg
    have hm := managers_getElem? hmanagers hg hg'
    rw [newCost, Manager.newCost, firstNewCost, hk, externalCost, hm, Nat.zero_add]
  rw [← hsame] at hfree ⊢
  exact allocateNewBlocks_exact owned numTokensMain hkind hfree

theorem getD_eq_nil {hits : List (List BlockId)} (h : ¬ hits.any (· ≠ [])) (i : Nat) :
    hits.getD i [] = [] := by
  rw [getD_eq_getElem?_getD]
  cases hi : hits[i]? with
  | none => rfl
  | some hit =>
    by_contra hne
    exact h (any_eq_true.mpr ⟨hit, mem_of_getElem? hi, decide_eq_true hne⟩)

/-! ### A later allocation -/

def Covers (r : ReqId) (numComputed : Nat) (_ : Nat) (m : Manager) (st : ManagerState) : Prop :=
  m.spec.kind ≠ .crossAttention → cdiv numComputed m.blockSize ≤ (st.blocksOf r).length

theorem prediction_later {i : Nat} {total numTokens numEncoder numTokensMain : Nat}
    (hattention : m.spec.isMamba = false) (hwindow : m.spec.kind ≠ .slidingWindow 0)
    (hcovers : Covers r total i m st) (h : (if m.spec.kind = .crossAttention then
        m.getNumBlocksToAllocate pool st r numEncoder [] 0 numEncoder false
      else m.getNumBlocksToAllocate pool st r numTokens [] total numTokensMain false) = .ok n) :
    n = newCost r numTokens numEncoder (m, st) := by
  unfold newCost
  by_cases hcross : m.spec.kind = .crossAttention
  · rw [if_pos hcross] at h ⊢
    cases htracked : st.numCachedBlock r with
    | some _ =>
      exact getNumBlocksToAllocate_tracked hattention (by rw [htracked]; rfl) h
    | none =>
      have hn := getNumBlocksToAllocate_untracked hattention htracked h
      rw [numSkippedBlocks_zero hcross] at hn
      rw [hn, Manager.newCost]
      simp [numEvictable]
  · rw [if_neg hcross] at h ⊢
    cases htracked : st.numCachedBlock r with
    | some _ =>
      exact getNumBlocksToAllocate_tracked hattention (by rw [htracked]; rfl) h
    | none =>
      have hn := getNumBlocksToAllocate_untracked hattention htracked h
      have hskip := numSkippedBlocks_le (getNumSkippedTokens_le hwindow total)
      have hlen := hcovers hcross
      rw [hn, Manager.newCost, drop_nil, length_nil]
      simp only [numEvictable, countP_nil]
      omega

theorem takeBlocks_later (owned : s.Owned c frame)
    (hattention : EachGroup (fun _ m _ => m.spec.isMamba = false) s.groups)
    (hwindow : EachGroup (fun _ m _ => m.spec.kind ≠ .slidingWindow 0) s.groups)
    (hcovers : EachGroup (Covers a.request.requestId a.numLocal) s.groups)
    (hnone : ¬ (a.newComputedBlocks.any (· ≠ []) ∨ 0 < a.numExternalComputedTokens))
    (hpredict : s.numBlocksToAllocate cfg a = .ok n) (hfree : n ≤ s.pool.numFreeBlocks) :
    ∃ s' new, s.takeBlocks cfg a = .ok (s', new) ∧ s'.Owned c frame ∧
      s'.pool.numFreeBlocks = s.pool.numFreeBlocks - n := by
  obtain ⟨hhits, hext⟩ := not_or.mp hnone
  have hext : a.numExternalComputedTokens = 0 := Nat.eq_zero_of_not_pos hext
  have hsum := sumGroups_eq (fun _ => newCost a.request.requestId
      (a.numTokensNeedSlot cfg.maxModelLen) a.numEncoderTokens) s.groups 0
    (fun k g v hg hv => by
      rw [Nat.zero_add, getD_eq_nil hhits, hext] at hv
      exact prediction_later (hattention k g hg) (hwindow k g hg) (hcovers k g hg) hv) hpredict
  rw [hsum] at hfree ⊢
  unfold takeBlocks
  simp only
  rw [if_neg hnone]
  exact allocateNewBlocks_exact owned (a.numTokensMain cfg.maxModelLen) hattention hfree

/-! ### All tables of a first allocation -/

theorem takeBlocks_first (owned : s.Owned c frame)
    (hattention : EachGroup (fun _ m _ => m.spec.isMamba = false) s.groups)
    (call : FirstCall c s a.request.requestId a.newComputedBlocks a.numLocal
      a.numExternalComputedTokens)
    (hempty : (∀ i, a.newComputedBlocks.getD i [] = []) → a.numExternalComputedTokens = 0 →
      a.numLocal = 0)
    (hslots : a.numLocal + a.numExternalComputedTokens ≤ a.numTokensNeedSlot cfg.maxModelLen)
    (hpredict : s.numBlocksToAllocate cfg a = .ok n) (hfree : n ≤ s.pool.numFreeBlocks) :
    ∃ s' new, s.takeBlocks cfg a = .ok (s', new) ∧ s'.Owned c frame ∧
      s'.pool.numFreeBlocks = s.pool.numFreeBlocks - n := by
  have hsum := sumGroups_eq (fun i g =>
      (localCost s.pool a.newComputedBlocks (a.numLocal + a.numExternalComputedTokens) i g +
        externalCost a.newComputedBlocks a.numLocal a.numExternalComputedTokens i g) +
      firstNewCost a.newComputedBlocks a.numLocal a.numExternalComputedTokens
        (a.numTokensNeedSlot cfg.maxModelLen) a.numEncoderTokens i g) s.groups 0
    (fun k g v hg hv => by
      rw [Nat.zero_add] at hv ⊢
      exact prediction_first (hattention k g hg) (call.untracked k g hg).1 (call.first k g hg)
        hslots hv) hpredict
  rw [groupSum_add, groupSum_add] at hsum
  have hnew := groupSum_nonneg (firstNewCost a.newComputedBlocks a.numLocal
      a.numExternalComputedTokens (a.numTokensNeedSlot cfg.maxModelLen) a.numEncoderTokens)
    (fun i g => Int.le_max_right _ _) 0 s.groups
  by_cases hcomputed : a.newComputedBlocks.any (· ≠ []) ∨ 0 < a.numExternalComputedTokens
  · unfold takeBlocks
    simp only
    rw [if_pos hcomputed]
    obtain ⟨s₁, hok, howned₁, hlen₁, hnum₁⟩ := allocateNewComputedBlocks_exact owned call (by omega)
    obtain ⟨s', new, hok', howned', hnum'⟩ := allocateNewBlocks_first howned₁
      (allocateNewComputedBlocks_grown hok).managers (a.numTokensNeedSlot cfg.maxModelLen)
      (a.numTokensMain cfg.maxModelLen) a.numEncoderTokens hattention hlen₁ (by omega)
    rw [hok]
    exact ⟨s', new, hok', howned', by omega⟩
  · -- nothing is touched, and no table is needed yet
    obtain ⟨hnone, hext⟩ := not_or.mp hcomputed
    have hlocal := hempty (getD_eq_nil hnone) (Nat.eq_zero_of_not_pos hext)
    refine takeBlocks_later owned hattention call.window (fun i g hg _ => ?_) hcomputed
      hpredict hfree
    rw [hlocal, cdiv_zero]
    exact Nat.zero_le _

end
end KVState
end Vllm.KVCache
