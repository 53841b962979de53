import Vllm.KVCache.Hybrid
import Vllm.KVCache.Manager

/-! The coordinators and the KV-cache manager (`vllm/v1/core/kv_cache_coordinator.py`,
`vllm/v1/core/kv_cache_manager.py`), with `allocate_slots` and the operations that the
scheduler interleaves. -/
namespace Vllm.KVCache

/-- The arguments of `KVCacheManager` and of its coordinator, as far as the configuration code
accepts them: context parallelism needs a single group, a hybrid model has two kinds of
attention, cached blocks consist of whole hash blocks, and a window holds at least the current
token. -/
structure CacheConfig extends KVCacheConfig where
  numBlocks : Nat
  enableCaching : Bool
  worldSize : Nat := 1
  maxModelLen : Nat
  maxNumBatchedTokens : Nat
  watermarkBlocks : Nat := 0
  retentionInterval : Option Nat := none
  blocks_pos : 0 < numBlocks
  world_pos : 0 < worldSize
  block_size_pos : ∀ g ∈ groups, 0 < g.spec.blockSize
  window_pos : ∀ g ∈ groups, g.spec.kind ≠ .slidingWindow 0
  hash_pos : 0 < hashBlockSize
  hash_dvd : enableCaching = true → ∀ g ∈ groups, hashBlockSize ∣ g.spec.blockSize * worldSize
  world_one : 1 < groups.length → worldSize = 1
  two_groups : enableCaching = true → groups.length ≠ 1 →
    1 < toKVCacheConfig.attentionGroups.length
  ids_fit : groups.length ≤ 2 ^ 32

abbrev Group := Manager × ManagerState

structure KVState where
  pool : BlockPool
  groups : List Group

namespace CacheConfig

def managerUsesEagle (cfg : CacheConfig) (gid : GroupId) (g : KVCacheGroupSpec) : Bool :=
  if cfg.enableCaching = false then false
  else if cfg.groups.length = 1 then cfg.isEagle g
  else cfg.attentionGroups.any fun a => a.useEagle && decide (gid ∈ a.groupIds)

def manager (cfg : CacheConfig) (gid : GroupId) (g : KVCacheGroupSpec) : Manager where
  spec := g.spec
  worldSize := cfg.worldSize
  kvCacheGroupId := gid
  schedulerBlockSize := cfg.schedulerBlockSize
  enableCaching := cfg.enableCaching
  useEagle := cfg.managerUsesEagle gid g
  maxAdmissionBlocks :=
    g.spec.maxAdmissionBlocksPerRequest cfg.maxNumBatchedTokens cfg.maxModelLen

def create (cfg : CacheConfig) : KVState where
  pool := BlockPool.create ⟨cfg.numBlocks, cfg.enableCaching, cfg.hashBlockSize⟩
  groups := cfg.groups.zipIdx.map fun p => (cfg.manager p.2 p.1, {})

end CacheConfig

/-- A loop over the managers that threads the pool. -/
def overGroups {β : Type}
    (f : Nat → Manager → BlockPool → ManagerState → Except KVError (BlockPool × ManagerState × β)) :
    Nat → BlockPool → List Group → Except KVError (BlockPool × List Group × List β)
  | _, pool, [] => .ok (pool, [], [])
  | i, pool, (m, st) :: rest =>
    match f i m pool st with
    | .error e => .error e
    | .ok (pool, st, out) =>
      match overGroups f (i + 1) pool rest with
      | .error e => .error e
      | .ok (pool, rest, outs) => .ok (pool, (m, st) :: rest, out :: outs)

namespace KVState

def forGroups {β : Type} (s : KVState)
    (f : Nat → Manager → BlockPool → ManagerState → Except KVError (BlockPool × ManagerState × β)) :
    Except KVError (KVState × List β) :=
  match overGroups f 0 s.pool s.groups with
  | .error e => .error e
  | .ok (pool, groups, outs) => .ok (⟨pool, groups⟩, outs)

def forGroupsUnit (s : KVState)
    (f : Nat → Manager → BlockPool → ManagerState → Except KVError (BlockPool × ManagerState)) :
    Except KVError KVState :=
  match s.forGroups fun i m pool st => (f i m pool st).map fun p => (p.1, p.2, ()) with
  | .error e => .error e
  | .ok (s, _) => .ok s

/-! ### The coordinator -/

def sumGroups (f : Nat → Manager → ManagerState → Except KVError Int) :
    Nat → List Group → Except KVError Int
  | _, [] => .ok 0
  | i, (m, st) :: rest =>
    match f i m st with
    | .error e => .error e
    | .ok n =>
      match sumGroups f (i + 1) rest with
      | .error e => .error e
      | .ok total => .ok (n + total)

def getNumBlocksToAllocate (s : KVState) (r : ReqId) (numTokens : Nat)
    (newComputed : List (List BlockId)) (numEncoder totalComputed numTokensMain : Nat)
    (applyCap : Bool) : Except KVError Int :=
  sumGroups (fun i m st =>
    if m.spec.kind = .crossAttention then
      m.getNumBlocksToAllocate s.pool st r numEncoder [] 0 numEncoder applyCap
    else
      m.getNumBlocksToAllocate s.pool st r numTokens (newComputed.getD i []) totalComputed
        numTokensMain applyCap) 0 s.groups

/-- `KVCacheCoordinator.allocate_new_computed_blocks`: all hits are touched before any block
for external tokens is taken. -/
def allocateNewComputedBlocks (s : KVState) (r : ReqId) (newComputed : List (List BlockId))
    (numLocal numExternal : Nat) : Except KVError KVState :=
  if s.groups.any fun g => (g.2.numCachedBlock r).isSome then
    if newComputed.any (· ≠ []) then .error .assertion else .ok s
  else
    match s.forGroupsUnit fun i m pool st =>
        m.addLocalComputedBlocks pool st r (newComputed.getD i []) numLocal numExternal with
    | .error e => .error e
    | .ok s =>
      if 0 < numExternal then
        s.forGroupsUnit fun _ m pool st =>
          m.allocateExternalComputedBlocks pool st r numLocal numExternal
      else .ok s

def allocateNewBlocks (s : KVState) (r : ReqId) (numTokens numTokensMain numEncoder : Nat) :
    Except KVError (KVState × List (List BlockId)) :=
  s.forGroups fun _ m pool st =>
    m.allocateNewBlocks pool st r
      (if m.spec.kind = .crossAttention then numEncoder else numTokens) numTokensMain

def removeSkippedBlocks (s : KVState) (r : ReqId) (totalComputed : Nat) (numPrompt : Option Nat) :
    Except KVError KVState :=
  s.forGroupsUnit fun _ m pool st => m.removeSkippedBlocks pool st r totalComputed numPrompt

def numTokensToCache (cfg : CacheConfig) (m : Manager) (numComputed : Nat) : Nat :=
  if cfg.enableCaching = false ∨ cfg.groups.length = 1 then numComputed
  else
    let aligned := numComputed / cfg.schedulerBlockSize * cfg.schedulerBlockSize
    if m.useEagle ∧ 0 < aligned then min numComputed (aligned + m.blockSize) else aligned

def cacheBlocks (cfg : CacheConfig) (s : KVState) (request : Request) (numComputed : Nat) :
    Except KVError KVState :=
  s.forGroupsUnit fun _ m pool st =>
    m.cacheBlocks pool st request (numTokensToCache cfg m numComputed) cfg.retentionInterval

def free (s : KVState) (r : ReqId) : Except KVError KVState :=
  s.forGroupsUnit fun _ _ pool st => .ok (st.free pool r)

def popBlocksForFree (s : KVState) (r : ReqId) : KVState × List BlockId :=
  ({ s with groups := s.groups.map fun g => (g.1, (g.2.popBlocksForFree r).1) },
    s.groups.flatMap fun g => (g.2.popBlocksForFree r).2)

def newStepStarts (s : KVState) : KVState :=
  { s with groups := s.groups.map fun g => (g.1, { g.2 with cachedBlocksThisStep := [] }) }

end KVState

/-! ### The prefix-cache lookup -/

namespace CacheConfig

variable (cfg : CacheConfig)

def unitaryHit (g : KVCacheGroupSpec) (q : HitQuery) : Except KVError (List (List BlockId) × Nat) :=
  let blockSize := g.spec.blockSize * cfg.worldSize
  -- only full attention supports context parallelism
  if cfg.worldSize ≠ 1 ∧ g.spec.isFullAttention = false then .error .assertion
  else
    match managerHit { g.spec with blockSize := blockSize }
        (poolLookup q.pool cfg.hashBlockSize blockSize q.hashes [0]) blockSize q.maxCacheHitLength
        (cfg.isEagle g) with
    | .error _ => .error .lookupFailed
    | .ok rows => .ok ([KVCacheConfig.column rows 0], rows.length * blockSize)

/-- `find_longest_cache_hit` of the coordinator that `get_kv_cache_coordinator` chooses. -/
def coordinatorHit (q : HitQuery) : Except KVError (List (List BlockId) × Nat) :=
  if cfg.enableCaching = false then .ok (cfg.groups.map fun _ => [], 0)
  else
    match cfg.groups with
    | [g] => cfg.unitaryHit g q
    | _ =>
      match cfg.findLongestCacheHit q with
      | .error _ => .error .lookupFailed
      | .ok hit => .ok hit

def getComputedBlocks (s : KVState) (request : Request) :
    Except KVError (List (List BlockId) × Nat) :=
  if cfg.enableCaching = false ∨ request.skipReadingPrefixCache then
    .ok (cfg.groups.map fun _ => [], 0)
  else cfg.coordinatorHit ⟨s.pool, request.blockHashes, request.numTokens - 1⟩

end CacheConfig

/-- The arguments of `allocate_slots`. The number of new tokens can be negative. -/
structure SlotArgs where
  request : Request
  numNewTokens : Int
  numNewComputedTokens : Nat := 0
  newComputedBlocks : List (List BlockId) := []
  numLookaheadTokens : Nat := 0
  numExternalComputedTokens : Nat := 0
  delayCacheBlocks : Bool := false
  numEncoderTokens : Nat := 0
  fullSequenceMustFit : Bool := false
  reservedBlocks : Int := 0
  hasScheduledReqs : Bool := true

namespace SlotArgs

variable (a : SlotArgs) (maxModelLen : Nat)

def numLocal : Nat := a.request.numComputedTokens.toNat + a.numNewComputedTokens

def totalComputed : Nat :=
  min (a.numLocal + a.numExternalComputedTokens) maxModelLen

def numTokensMain : Nat :=
  (a.totalComputed maxModelLen + a.numNewTokens).toNat

def numTokensNeedSlot : Nat :=
  min (a.totalComputed maxModelLen + a.numNewTokens + a.numLookaheadTokens).toNat maxModelLen

def watermark (watermarkBlocks : Nat) : Nat :=
  if a.hasScheduledReqs ∧ (a.request.status = .waiting ∨ a.request.status = .preempted) then
    watermarkBlocks
  else 0

end SlotArgs

namespace KVState

variable (cfg : CacheConfig) (s : KVState) (a : SlotArgs)

def fullSequenceFits : Except KVError Bool :=
  if a.fullSequenceMustFit = false then .ok true
  else
    let numTokens := min a.request.numTokens cfg.maxModelLen
    match s.getNumBlocksToAllocate a.request.requestId numTokens a.newComputedBlocks
        a.numEncoderTokens (a.totalComputed cfg.maxModelLen) numTokens true with
    | .error e => .error e
    | .ok n => .ok (decide (n + a.watermark cfg.watermarkBlocks ≤ s.pool.numFreeBlocks))

def numBlocksToAllocate : Except KVError Int :=
  s.getNumBlocksToAllocate a.request.requestId (a.numTokensNeedSlot cfg.maxModelLen)
    a.newComputedBlocks a.numEncoderTokens (a.numLocal + a.numExternalComputedTokens)
    (a.numTokensMain cfg.maxModelLen) false

/-- The part of `allocate_slots` that takes blocks: hits, external tokens, new tokens. -/
def takeBlocks : Except KVError (KVState × List (List BlockId)) :=
  let r := a.request.requestId
  let computed :=
    if a.newComputedBlocks.any (· ≠ []) ∨ 0 < a.numExternalComputedTokens then
      s.allocateNewComputedBlocks r a.newComputedBlocks a.numLocal a.numExternalComputedTokens
    else .ok s
  match computed with
  | .error e => .error e
  | .ok s =>
    s.allocateNewBlocks r (a.numTokensNeedSlot cfg.maxModelLen) (a.numTokensMain cfg.maxModelLen)
      a.numEncoderTokens

def commitBlocks : Except KVError KVState :=
  if cfg.enableCaching = false ∨ a.delayCacheBlocks then .ok s
  else
    s.cacheBlocks cfg a.request
      (min (a.numTokensMain cfg.maxModelLen) a.request.numTokens)

def allocateSlots : Except KVError (KVState × Option (List (List BlockId))) :=
  if a.numNewTokens = 0 ∧ a.numExternalComputedTokens = 0 then .error .noNewTokens
  else
    match s.fullSequenceFits cfg a with
    | .error e => .error e
    | .ok false => .ok (s, none)
    | .ok true =>
      match s.removeSkippedBlocks a.request.requestId (a.totalComputed cfg.maxModelLen)
          (some a.request.numPromptTokens) with
      | .error e => .error e
      | .ok s =>
        match s.numBlocksToAllocate cfg a with
        | .error e => .error e
        | .ok n =>
          if s.pool.numFreeBlocks - a.reservedBlocks < n + a.watermark cfg.watermarkBlocks then
            .ok (s, none)
          else
            match s.takeBlocks cfg a with
            | .error e => .error e
            | .ok (s, new) =>
              match s.commitBlocks cfg a with
              | .error e => .error e
              | .ok s => .ok (s, some new)

end KVState
end Vllm.KVCache
