import Vllm.Sched.State

/-! The KV-cache manager (`vllm/v1/core/kv_cache_manager.py`) behind the calls of the
scheduler. -/
namespace Vllm.Sched

open KVCache

def perGroupHits (cfg : CacheConfig) (q : HitQuery) :
    List SpecGroup → Except KVError (List (SpecGroup × List Row))
  | [] => .ok []
  | g :: gs =>
    match managerHit g.spec (cfg.lookup q g) cfg.schedulerBlockSize q.maxCacheHitLength
        g.useEagle, perGroupHits cfg q gs with
    | .error _, _ => .error .lookupFailed
    | .ok _, .error e => .error e
    | .ok rows, .ok rest => .ok ((g, rows) :: rest)

variable (cfg : CacheConfig)

/-- `find_longest_cache_hit_per_group`, with the maximum of the lengths. -/
def findLongestCacheHitPerGroup (s : KVState) (request : Request) : Except KVError PrefixHit :=
  match perGroupHits cfg ⟨s.pool, request.blockHashes, request.numTokens - 1⟩
      cfg.attentionGroups with
  | .error e => .error e
  | .ok hits =>
    .ok
      { blocks := (List.range cfg.groups.length).map fun gid =>
          (hits.find? fun h => gid ∈ h.1.groupIds).elim [] fun h =>
            KVCacheConfig.column h.2 (h.1.groupIds.idxOf gid)
        numTokens := (hits.map fun h => h.2.length * h.1.spec.blockSize).foldl max 0 }

def requestRemainingBlocks (s : KVState) (request : Request) : Except KVError Int :=
  let numTokens := min request.numTokens cfg.maxModelLen
  s.getNumBlocksToAllocate request.requestId numTokens [] 0 request.numComputedTokens.toNat
    numTokens true

/-- `KVCacheManager`. The lookup leaves out the hint for the admission of common prefixes. -/
def kvOps : KVOps KVState where
  newStepStarts := KVState.newStepStarts
  getComputedBlocks := fun s request =>
    (cfg.getComputedBlocks s request).map fun hit => { blocks := hit.1, numTokens := hit.2 }
  findLongestCacheHitPerGroup := findLongestCacheHitPerGroup cfg
  allocateSlots := fun s a => s.allocateSlots cfg a
  remainingBlocks := requestRemainingBlocks cfg
  getBlocks := fun s r => s.groups.map fun g => g.2.blocksOf r
  cacheBlocks := fun s request n =>
    if cfg.enableCaching then s.cacheBlocks cfg request n.toNat else .ok s
  free := KVState.free
  popBlocksForFree := KVState.popBlocksForFree
  freeBlocks := fun s blocks => { s with pool := s.pool.freeBlocks blocks }
  removeSkippedBlocks := fun s r computed numPrompt =>
    s.removeSkippedBlocks r computed.toNat (some numPrompt)
  evictBlocks := fun s blocks => (s.pool.evictBlocks blocks).map fun pool => { s with pool := pool }
  resetPrefixCache := fun s =>
    let reset := s.pool.resetPrefixCache
    ({ s with pool := reset.1 }, reset.2)

end Vllm.Sched
