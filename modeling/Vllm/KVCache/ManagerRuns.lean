import Vllm.KVCache.TableGrowth

/-! Runs of the KV-cache manager: the operations of its callers in any order, and the ownership
of blocks in every state that is reached. -/
namespace Vllm.KVCache
open BlockPool List KVState Run

/-! ### The managers stay as they were constructed -/

def KVState.managers (s : KVState) : List Manager := s.groups.map Prod.fst

variable {cfg : CacheConfig}

namespace KVState
section
variable {s s' : KVState}

theorem forGroupsUnit_managers
    {f : Nat → Manager → BlockPool → ManagerState → Except KVError (BlockPool × ManagerState)}
    (h : s.forGroupsUnit f = .ok s') : s'.managers = s.managers :=
  (forGroupsUnit_rel (R := fun _ _ _ => True) (fun _ _ _ _ _ _ _ => trivial) h).managers

theorem allocateSlots_managers {a : SlotArgs} {new : Option (List (List BlockId))}
    (h : s.allocateSlots cfg a = .ok (s', new)) :
    s'.managers = s.managers := by
  cases new with
  | none => exact (allocateSlots_tables h).managers
  | some _ => exact (allocateSlots_tables h).managers

end
end KVState

/-! ### Operations -/

/-- A manager together with the tables that were popped and not freed yet. -/
structure RunState extends KVState where
  popped : List (List BlockId) := []

/-- The calls of the manager's users. With `lookup`, `get_computed_blocks` runs right before
`allocate_slots` and gives it the hits; without, there are none. -/
inductive KVOp
  | allocateSlots (lookup : Bool) (a : SlotArgs)
  | cacheBlocks (request : Request) (numComputed : Nat)
  | removeSkippedBlocks (r : ReqId) (totalComputed : Nat) (numPrompt : Option Nat)
  | free (r : ReqId)
  | popBlocksForFree (r : ReqId)
  | freeBlocks (i : Nat)
  | evictBlocks (blockIds : List BlockId)
  | resetPrefixCache
  | newStepStarts

namespace CacheConfig

def withHits (cfg : CacheConfig) (s : KVState) (lookup : Bool) (a : SlotArgs) :
    Except KVError SlotArgs :=
  if lookup then
    match cfg.getComputedBlocks s a.request with
    | .error e => .error e
    | .ok (hits, numTokens) =>
      .ok { a with newComputedBlocks := hits, numNewComputedTokens := numTokens }
  else .ok { a with newComputedBlocks := [], numNewComputedTokens := 0 }

def onManager (s : RunState) (result : Except KVError KVState) : Except KVError RunState :=
  match result with
  | .error e => .error e
  | .ok kv => .ok { s with toKVState := kv }

def step (cfg : CacheConfig) (s : RunState) : KVOp → Except KVError RunState
  | .allocateSlots lookup a =>
    match cfg.withHits s.toKVState lookup a with
    | .error e => .error e
    | .ok a => onManager s ((s.toKVState.allocateSlots cfg a).map Prod.fst)
  | .cacheBlocks request numComputed =>
    if cfg.enableCaching then onManager s (s.toKVState.cacheBlocks cfg request numComputed)
    else .ok s
  | .removeSkippedBlocks r totalComputed numPrompt =>
    onManager s (s.toKVState.removeSkippedBlocks r totalComputed numPrompt)
  | .free r => onManager s (s.toKVState.free r)
  | .popBlocksForFree r =>
    .ok ⟨(s.toKVState.popBlocksForFree r).1, (s.toKVState.popBlocksForFree r).2 :: s.popped⟩
  | .freeBlocks i =>
    match s.popped[i]? with
    | none => .error .indexError
    | some blocks =>
      .ok ⟨{ s.toKVState with pool := s.pool.freeBlocks blocks.reverse }, s.popped.eraseIdx i⟩
  | .evictBlocks blockIds =>
    match s.pool.evictBlocks blockIds with
    | .error e => .error e
    | .ok pool => .ok { s with pool := pool }
  | .resetPrefixCache => .ok { s with pool := s.pool.resetPrefixCache.1 }
  | .newStepStarts => .ok { s with toKVState := s.toKVState.newStepStarts }

end CacheConfig

def RunState.references (s : RunState) : List BlockId :=
  groupsHeld s.groups ++ s.popped.flatten

structure Accounted (s : RunState) : Prop where
  queued : ∀ b, b ≠ nullBlock → b < s.pool.numGpuBlocks →
    s.pool.freeQueue.count b = if s.pool.refCnt b = 0 then 1 else 0
  counted : ∀ b, b ≠ nullBlock → b < s.pool.numGpuBlocks →
    s.pool.refCnt b = s.references.count b
  numFree : s.pool.numFreeBlocks = s.pool.freeQueue.length
  nullUnqueued : nullBlock ∉ s.pool.freeQueue
  unowned : ∀ n pool bs, s.pool.getNewBlocks n = .ok (pool, bs) → ∀ b ∈ bs, b ∉ s.references

/-! ### When hits fit -/

namespace CacheConfig

def poolConfig (cfg : CacheConfig) : PoolConfig :=
  ⟨cfg.numBlocks, cfg.enableCaching, cfg.hashBlockSize⟩

/-- The configurations whose hits are never longer than the hit length: no prefix caching, one
group, or a hybrid model whose answers are servable. -/
def AlwaysFits (cfg : CacheConfig) : Prop :=
  cfg.enableCaching = false ∨ cfg.groups.length = 1 ∨
    ∃ hybrid : HybridConfig,
      hybrid.toKVCacheConfig = cfg.toKVCacheConfig ∧ hybrid.AlwaysServable

/-- In every group the hits of a call end before its external tokens do. -/
def AllocationFits (cfg : CacheConfig) (s : RunState) : KVOp → Prop
  | .allocateSlots lookup a => cfg.AlwaysFits ∨ ∀ a', cfg.withHits s.toKVState lookup a = .ok a' →
      EachGroup (fun i m _ =>
        HitFits a'.newComputedBlocks a'.numLocal a'.numExternalComputedTokens i m) s.groups
  | _ => True

structure RunInv (cfg : CacheConfig) (s : RunState) : Prop where
  owned : s.toKVState.Owned cfg.poolConfig s.popped.flatten
  managers : s.managers = cfg.create.managers

variable {cfg : CacheConfig} {s s' : RunState}

theorem create_managers_getElem? (cfg : CacheConfig) (i : Nat) :
    cfg.create.managers[i]? = (cfg.groups[i]?).map (cfg.manager i) := by
  rw [managers, create, getElem?_map, getElem?_map, getElem?_zipIdx, Option.map_map, Option.map_map]
  rw [Nat.zero_add]
  rfl

variable {i : Nat} {a : SlotArgs}

theorem RunInv.group (inv : cfg.RunInv s) {g : Group} (hg : s.groups[i]? = some g) :
    ∃ spec, cfg.groups[i]? = some spec ∧ g.1 = cfg.manager i spec := by
  have hm : s.managers[i]? = some g.1 := by
    rw [KVState.managers, getElem?_map, hg]
    rfl
  rw [inv.managers, create_managers_getElem?] at hm
  obtain ⟨spec, hspec, heq⟩ := Option.map_eq_some_iff.mp hm
  exact ⟨spec, hspec, heq.symm⟩

theorem RunInv.start (cfg : CacheConfig) : cfg.RunInv { toKVState := cfg.create } := by
  have hheld : groupsHeld cfg.create.groups = [] := by
    rw [groupsHeld, create, flatMap_map]
    exact flatMap_eq_nil_iff.mpr fun _ _ => rfl
  refine ⟨⟨?_, rfl⟩, rfl⟩
  rw [hheld]
  exact create_sound cfg.poolConfig cfg.blocks_pos

section
variable (inv : cfg.RunInv s) {lookup : Bool} {a' : SlotArgs}
include inv

theorem RunInv.getComputedBlocks_length (hfits : cfg.AlwaysFits)
    {request : Request} {hits : List (List BlockId)} {L : Nat}
    (h : cfg.getComputedBlocks s.toKVState request = .ok (hits, L)) {g : KVCacheGroupSpec}
    (hg : cfg.groups[i]? = some g) : (hits.getD i []).length * (cfg.manager i g).blockSize ≤ L := by
  rcases getComputedBlocks_cases h with ⟨rfl, -⟩ | ⟨hcaching, ⟨spec, rows, hgroups, -, -, rfl, rfl⟩ |
    ⟨hmany, hfind⟩⟩
  · simp
  · have hi : i = 0 := by
      have hlt := (List.getElem?_eq_some_iff.mp hg).1
      rw [hgroups, length_singleton] at hlt
      omega
    subst hi
    rw [hgroups] at hg
    cases hg
    simp [KVCacheConfig.column, manager, Manager.blockSize]
  · have hworld : cfg.worldSize = 1 := by
      have hlt := (List.getElem?_eq_some_iff.mp hg).1
      exact cfg.world_one (by omega)
    obtain ⟨hybrid, hsame, hserve⟩ := (hfits.resolve_left (by simp [hcaching])).resolve_left hmany
    rw [← hsame] at hfind hg
    have hnull : s.pool.NullUncached := fun key hmem =>
      (inv.owned.1.cached_live key _ hmem).1 rfl
    obtain ⟨bs, hbs, served⟩ := (findLongestCacheHit_servable hserve hnull hfind).groups i g hg
    rw [getD_eq_getElem?_getD, hbs, Option.getD_some, Manager.blockSize, manager, hworld,
      Nat.mul_one]
    exact Nat.le_of_eq served.length_eq

theorem RunInv.hitFits (hfits : cfg.AllocationFits s (.allocateSlots lookup a))
    (h : cfg.withHits s.toKVState lookup a = .ok a') :
    EachGroup (fun i m _ =>
      HitFits a'.newComputedBlocks a'.numLocal a'.numExternalComputedTokens i m)
      s.groups := by
  rcases hfits with hfits | hfits
  · intro i g hg
    obtain ⟨spec, hspec, hm⟩ := inv.group hg
    refine .inr ?_
    rw [hm]
    unfold withHits at h
    split at h
    · split at h
      · cases h
      rename_i hits L hlookup
      cases h
      have hlen := inv.getComputedBlocks_length hfits hlookup hspec
      have hpos : 0 < (cfg.manager i spec).blockSize :=
        Nat.mul_pos (cfg.block_size_pos spec (mem_of_getElem? hspec)) cfg.world_pos
      refine PySeq.le_cdiv hpos (Nat.le_trans hlen ?_)
      simp only [SlotArgs.numLocal]
      omega
    · cases h
      exact Nat.zero_le _
  · exact hfits a' h

/-! ### Every step keeps the accounting -/

theorem onManager_inv {result : Except KVError KVState}
    (howned : ∀ kv, result = .ok kv → kv.Owned cfg.poolConfig s.popped.flatten ∧
      kv.managers = s.managers) (h : onManager s result = .ok s') : cfg.RunInv s' := by
  unfold onManager at h
  split at h
  · cases h
  · rename_i kv
    cases h
    obtain ⟨hown, hmanagers⟩ := howned kv rfl
    exact ⟨hown, hmanagers.trans inv.managers⟩

theorem RunInv.withHits_live (h : cfg.withHits s.toKVState lookup a = .ok a') :
    HitsLive cfg.poolConfig a'.newComputedBlocks := by
  unfold withHits at h
  split at h
  · split at h
    · cases h
    · rename_i hits L hlookup
      cases h
      exact hitsLive_of_getComputedBlocks inv.owned hlookup
  · cases h
    intro i b hb
    cases hb

theorem allocateSlots_inv (hfits : cfg.AllocationFits s (.allocateSlots lookup a))
    (h : cfg.step s (.allocateSlots lookup a) = .ok s') : cfg.RunInv s' := by
  rw [step] at h
  split at h
  · cases h
  rename_i a' hargs
  refine onManager_inv inv (fun kv hkv => ?_) h
  obtain ⟨result, hslots, rfl⟩ := map_eq_ok hkv
  exact ⟨allocateSlots_owned inv.owned (inv.withHits_live hargs)
    (inv.hitFits hfits hargs) hslots, allocateSlots_managers hslots⟩

theorem popBlocksForFree_inv (r : ReqId) : cfg.RunInv ⟨(s.toKVState.popBlocksForFree r).1,
      (s.toKVState.popBlocksForFree r).2 :: s.popped⟩ := by
  refine ⟨popBlocksForFree_owned inv.owned r, ?_⟩
  rw [← inv.managers]
  simp only [managers, popBlocksForFree, map_map]
  rfl

theorem freeBlocks_inv {blocks : List BlockId} (hget : s.popped[i]? = some blocks) :
    cfg.RunInv ⟨{ s.toKVState with pool := s.pool.freeBlocks blocks.reverse },
      s.popped.eraseIdx i⟩ := by
  obtain ⟨hlt, hblocks⟩ := List.getElem?_eq_some_iff.mp hget
  refine ⟨⟨freeBlocks_sound (inv.owned.1.perm ?_), inv.owned.2⟩, inv.managers⟩
  -- the popped list leaves the references
  have hsplit : s.popped.Perm (blocks :: s.popped.eraseIdx i) := by
    rw [← hblocks]
    exact (getElem_cons_eraseIdx_perm hlt).symm
  have hflat : s.popped.flatten.Perm (blocks.reverse ++ (s.popped.eraseIdx i).flatten) := by
    refine hsplit.flatten.trans ?_
    exact (reverse_perm blocks).symm.append_right _
  refine (hflat.append_left _).trans ?_
  exact perm_append_comm_assoc _ _ _

theorem step_inv (op : KVOp) (hfits : cfg.AllocationFits s op)
    (h : cfg.step s op = .ok s') : cfg.RunInv s' := by
  cases op with
  | allocateSlots lookup a => exact allocateSlots_inv inv hfits h
  | cacheBlocks request numComputed =>
    rw [step] at h
    split at h
    · exact onManager_inv inv (fun kv hkv =>
        ⟨cacheBlocks_owned inv.owned hkv, forGroupsUnit_managers hkv⟩) h
    · cases h
      exact inv
  | removeSkippedBlocks r totalComputed numPrompt =>
    exact onManager_inv inv (fun kv hkv =>
      ⟨removeSkippedBlocks_owned inv.owned hkv, forGroupsUnit_managers hkv⟩) h
  | free r =>
    exact onManager_inv inv (fun kv hkv =>
      ⟨free_owned inv.owned hkv, forGroupsUnit_managers hkv⟩) h
  | popBlocksForFree r =>
    cases h
    exact popBlocksForFree_inv inv r
  | freeBlocks i =>
    rw [step] at h
    split at h
    · cases h
    · rename_i hget
      cases h
      exact freeBlocks_inv inv hget
  | evictBlocks blockIds =>
    rw [step] at h
    split at h
    · cases h
    rename_i pool hevict
    cases h
    obtain ⟨hsound, hcfg⟩ := evictBlocks_sound blockIds inv.owned.1 hevict
    exact ⟨⟨hsound, hcfg.trans inv.owned.2⟩, inv.managers⟩
  | resetPrefixCache =>
    cases h
    obtain ⟨hsound, hcfg⟩ := resetPrefixCache_sound inv.owned.1
    exact ⟨⟨hsound, hcfg.trans inv.owned.2⟩, inv.managers⟩
  | newStepStarts =>
    cases h
    refine ⟨newStepStarts_owned inv.owned, ?_⟩
    rw [← inv.managers]
    simp only [managers, newStepStarts, map_map]
    rfl

theorem RunInv.accounted : Accounted s where
  queued b hnull hlt := by
    have hlive : s.pool.IsLive b := ⟨hnull, hlt⟩
    have hqueued := inv.owned.1.balanced.queued b hlive
    have hcounted := inv.owned.1.balanced.counted b hlive
    rw [hqueued, hcounted]
    simp only [Int.natCast_eq_zero]
  counted b hnull hlt := inv.owned.1.balanced.counted b ⟨hnull, hlt⟩
  numFree := inv.owned.1.numFree
  nullUnqueued hmem := (inv.owned.1.balanced.mem_live nullBlock hmem).1 rfl
  unowned n pool bs hget b hb := by
    have hn : 0 ≤ n := by
      by_contra hneg
      have hlen := getNewBlocks_length hget
      rw [Int.toNat_of_nonpos (by omega)] at hlen
      rw [length_eq_zero_iff.mp hlen] at hb
      cases hb
    exact (getNewBlocks_taken inv.owned.1 hn hget).unowned b hb

end

end CacheConfig

/-- In every run whose allocations fit, the free queue, the reference counts and the block
tables agree in every state. -/
theorem reaches_accounted (cfg : CacheConfig) (s : RunState)
    (h : Reaches cfg.step cfg.AllocationFits { toKVState := cfg.create } s) : Accounted s := by
  have inv : cfg.RunInv s :=
    h.invariant (CacheConfig.RunInv.start cfg) fun _ op _ inv hfits hstep =>
      CacheConfig.step_inv inv op hfits hstep
  exact inv.accounted

/-- No block leaks: the prefix cache resets exactly when only the null block is held. -/
theorem reaches_reset_iff (cfg : CacheConfig) (s : RunState)
    (h : Reaches cfg.step cfg.AllocationFits { toKVState := cfg.create } s) :
    s.pool.resetPrefixCache.2 = true ↔ ∀ b ∈ s.references, b = nullBlock := by
  obtain ⟨⟨⟨bal, hfree, hheld, -, -⟩, hcfg⟩, -⟩ : cfg.RunInv s :=
    h.invariant (.start cfg) fun _ op _ inv hfits hstep => CacheConfig.step_inv inv op hfits hstep
  have hpos : 0 < s.pool.numGpuBlocks := congrArg PoolConfig.numGpuBlocks hcfg ▸ cfg.blocks_pos
  have hqueue : s.pool.freeQueue.toFinset =
      {b ∈ Finset.Ioo 0 s.pool.numGpuBlocks | b ∉ s.references} := by
    ext b
    have hlive := bal.mem_live b
    have hcount := bal.queued b
    rw [mem_toFinset]
    grind [IsLive, nullBlock, RunState.references]
  -- so the queue is full iff the filter keeps every block
  have hall := @Finset.card_filter_eq_iff _ (.Ioo 0 s.pool.numGpuBlocks) (· ∉ s.references) _
  rw [← hqueue, toFinset_card_of_nodup bal.nodup, Nat.card_Ioo] at hall
  rw [resetPrefixCache, hfree]
  grind [IsLive, nullBlock, RunState.references]

theorem CacheConfig.allocationFits_of_alwaysFits (hfits : cfg.AlwaysFits)
    (s : RunState) (op : KVOp) : cfg.AllocationFits s op := by
  cases op with
  | allocateSlots lookup a => exact .inl hfits
  | _ => trivial

def promptRequest (r : ReqId) (n : Nat) (hashes : List BlockHash) : Request where
  requestId := r
  numPromptTokens := n
  promptTokenIds := replicate n 0
  allTokenIds := replicate n 0
  blockHashes := hashes

def oneGroup : CacheConfig where
  groups := [⟨⟨2, .fullAttention, 0⟩, false⟩]
  useEagle := false
  schedulerBlockSize := 2
  hashBlockSize := 2
  numBlocks := 12
  enableCaching := true
  maxModelLen := 64
  maxNumBatchedTokens := 64
  blocks_pos := by decide
  world_pos := Nat.one_pos
  block_size_pos := by decide
  window_pos := by decide
  hash_pos := by decide
  hash_dvd := by decide
  world_one := by decide
  two_groups := by decide
  ids_fit := by decide

/-- A prompt is computed and cached; the next request hits it and loads two more tokens. -/
def hitAndLoad : List KVOp :=
  [.allocateSlots true { request := promptRequest 0 7 [[1], [2], [3]], numNewTokens := 7 },
    .free 0,
    .allocateSlots true
      { request := promptRequest 1 9 [[1], [2], [3], [4]], numNewTokens := 1,
        numExternalComputedTokens := 2 }]

theorem reaches_oneGroup (ops : List KVOp) (refs : List BlockId)
    (h : (run oneGroup.step { toKVState := oneGroup.create } ops).map (·.references) = .ok refs) :
    ∃ s, Reaches oneGroup.step oneGroup.AllocationFits { toKVState := oneGroup.create } s ∧
      s.references = refs := by
  obtain ⟨s, hstate, hrefs⟩ := map_eq_ok h
  have hfits : oneGroup.AlwaysFits := .inr (.inl rfl)
  exact ⟨s, Reaches.start.run ops
    (fun s op _ => CacheConfig.allocationFits_of_alwaysFits hfits s op) hstate, hrefs⟩

theorem reaches_accounted_oneGroup :
    ∃ s, Reaches oneGroup.step oneGroup.AllocationFits { toKVState := oneGroup.create } s ∧
      s.references = [1, 2, 3, 4, 5] ∧ Accounted s := by
  obtain ⟨s, hreach, hrefs⟩ := reaches_oneGroup hitAndLoad [1, 2, 3, 4, 5] (by decide +kernel)
  exact ⟨s, hreach, hrefs, reaches_accounted oneGroup s hreach⟩

/-- The cache is not reset while the second request holds its blocks. -/
theorem reaches_reset_iff_hitAndLoad :
    (∃ s, Reaches oneGroup.step oneGroup.AllocationFits { toKVState := oneGroup.create } s ∧
      s.references = [1, 2, 3, 4, 5] ∧ s.pool.resetPrefixCache.2 = false) ∧
    ∃ s, Reaches oneGroup.step oneGroup.AllocationFits { toKVState := oneGroup.create } s ∧
      s.references = [] ∧ s.pool.resetPrefixCache.2 = true := by
  obtain ⟨s, hreach, hrefs⟩ := reaches_oneGroup hitAndLoad [1, 2, 3, 4, 5] (by decide +kernel)
  obtain ⟨s', hreach', hrefs'⟩ := reaches_oneGroup (hitAndLoad ++ [.free 1]) [] (by decide +kernel)
  have hheld := reaches_reset_iff oneGroup s hreach
  have hfreed := reaches_reset_iff oneGroup s' hreach'
  rw [hrefs] at hheld
  rw [hrefs'] at hfreed
  exact ⟨⟨s, hreach, hrefs, Bool.eq_false_iff.mpr (mt hheld.mp (by decide))⟩,
    ⟨s', hreach', hrefs', hfreed.mpr nofun⟩⟩

def twoLayouts : CacheConfig where
  groups :=
    [⟨⟨2, .fullAttention, 0⟩, false⟩, ⟨⟨2, .fullAttention, 1⟩, false⟩,
      ⟨⟨2, .slidingWindow 3, 0⟩, false⟩]
  useEagle := false
  schedulerBlockSize := 2
  hashBlockSize := 2
  numBlocks := 20
  enableCaching := true
  maxModelLen := 64
  maxNumBatchedTokens := 64
  blocks_pos := by decide
  world_pos := Nat.one_pos
  block_size_pos := by decide
  window_pos := by decide
  hash_pos := by decide
  hash_dvd := by decide
  world_one := by decide
  two_groups := by decide
  ids_fit := by decide

/-- A prompt is cached, its window blocks are evicted, and the same prompt comes back with two
external tokens: the hit length is zero, but the second layout has three hit blocks. -/
def strayHits : List KVOp :=
  [.allocateSlots true { request := promptRequest 0 7 [[1], [2], [3]], numNewTokens := 7 },
    .free 0,
    .evictBlocks [9, 10, 11],
    .allocateSlots true
      { request := promptRequest 1 7 [[1], [2], [3]], numNewTokens := 5,
        numExternalComputedTokens := 2 }]

/-- The pool then counts nine free blocks while seven are queued. -/
theorem reaches_unaccounted :
    ∃ s, Reaches twoLayouts.step (fun _ _ => True) { toKVState := twoLayouts.create } s ∧
      s.pool.numFreeBlocks = 9 ∧ s.pool.freeQueue.length = 7 ∧ ¬ Accounted s := by
  have hrun : (run twoLayouts.step { toKVState := twoLayouts.create } strayHits).map
      (fun s => (s.pool.numFreeBlocks, s.pool.freeQueue.length)) = .ok (9, 7) := by
    decide +kernel
  obtain ⟨s, hstate, hpair⟩ := map_eq_ok hrun
  obtain ⟨hfree, hlen⟩ := Prod.mk.inj hpair
  refine ⟨s, Reaches.start.run strayHits (fun _ _ _ => trivial) hstate, hfree, hlen, ?_⟩
  intro accounted
  have hnum := accounted.numFree
  rw [hfree, hlen] at hnum
  cases hnum

end Vllm.KVCache
