import Vllm.KVCache.CacheHit
import Vllm.Lib.ListDict

/-! The single-type KV-cache managers (`vllm/v1/core/single_type_kv_cache_manager.py`): block
tables per request, the capacity predictor and the three allocation phases. -/
namespace Vllm.KVCache
open PySeq Function

/-- `max_admission_blocks_per_request` of the specs that recycle blocks. -/
def KVCacheSpec.maxAdmissionBlocksPerRequest (spec : KVCacheSpec)
    (maxNumBatchedTokens maxModelLen : Nat) : Option Nat :=
  match spec.kind with
  | .slidingWindow window =>
    some (cdiv (min (window - 1 + maxNumBatchedTokens) maxModelLen) spec.blockSize + 1)
  | .chunkedLocal chunk =>
    some (cdiv (min (chunk + maxNumBatchedTokens) maxModelLen) spec.blockSize)
  | _ => none

/-- What a manager is constructed with; `worldSize` is `dcp_world_size * pcp_world_size`. -/
structure Manager where
  spec : KVCacheSpec
  worldSize : Nat := 1
  kvCacheGroupId : GroupId
  schedulerBlockSize : Nat
  enableCaching : Bool
  useEagle : Bool := false
  maxAdmissionBlocks : Option Nat := none
  deriving DecidableEq, Repr

def Manager.blockSize (m : Manager) : Nat := m.spec.blockSize * m.worldSize

/-- The tables of a manager. The last three fields are those of `MambaManager`. A missing
block table is an empty one. -/
structure ManagerState where
  reqToBlocks : AList fun _ : ReqId => List BlockId := ∅
  numCachedBlock : ReqId → Option Nat := fun _ => none
  lastStateBlockIdx : ReqId → Option Nat := fun _ => none
  allocatedBlockReqs : ReqId → Bool := fun _ => false
  cachedBlocksThisStep : List HashKey := []

namespace ManagerState

variable (st : ManagerState) (r : ReqId)

def blocksOf : List BlockId := ListDict.get st.reqToBlocks r

def setBlocks (blocks : List BlockId) : ManagerState :=
  { st with reqToBlocks := st.reqToBlocks.insert r blocks }

def setNumCached (n : Nat) : ManagerState :=
  { st with numCachedBlock := update st.numCachedBlock r (some n) }

def held : List BlockId := ListDict.flat st.reqToBlocks

end ManagerState

def numEvictable (pool : BlockPool) (blocks : List BlockId) : Nat :=
  blocks.countP fun b => pool.refCnt b = 0 ∧ b ≠ nullBlock

namespace Manager

variable (m : Manager) (pool : BlockPool) (st : ManagerState)

def getNumSkippedTokens (numComputed : Nat) : Int :=
  match m.spec.kind with
  | .slidingWindow window => max 0 (numComputed - window + 1)
  | .chunkedLocal chunk => (numComputed / chunk * chunk : Nat)
  | .mamba _ _ => numComputed - 1
  | .fullAttention | .rswa _ | .crossAttention => 0

def numSkippedBlocks (numComputed : Nat) : Int :=
  m.getNumSkippedTokens numComputed / m.blockSize

/-! ### The capacity predictor -/

/-- `num_required_blocks`, with the admission cap of the managers that recycle blocks. -/
def requiredBlocks (numTokens : Nat) (applyCap : Bool) : Nat :=
  match m.maxAdmissionBlocks with
  | some cap =>
    if applyCap then min (cdiv numTokens m.blockSize) cap
    else cdiv numTokens m.blockSize
  | none => cdiv numTokens m.blockSize

/-- `SingleTypeKVCacheManager.get_num_blocks_to_allocate`. -/
def baseNumBlocksToAllocate (r : ReqId)
    (numTokens : Nat) (newComputed : List BlockId) (totalComputed : Nat) (applyCap : Bool) :
    Except KVError Int :=
  let required := m.requiredBlocks numTokens applyCap
  let numReq := (st.blocksOf r).length
  if (st.numCachedBlock r).isSome then
    if newComputed ≠ [] then .error .assertion
    else .ok (max ((required : Int) - numReq) 0)
  else
    let skipped := m.numSkippedBlocks totalComputed
    let numLocal := newComputed.length + numReq
    let numNew := max ((required : Int) - max skipped numLocal) 0
    let skippedNew := max 0 (skipped - numReq)
    .ok (numNew + numEvictable pool (newComputed.drop skippedNew.toNat))

/-- `MambaManager.get_num_blocks_to_allocate` in align mode. -/
def alignNumBlocksToAllocate (numSpec : Nat) (pool : BlockPool) (st : ManagerState)
    (r : ReqId) (newComputed : List BlockId) (numTokensMain : Nat) : Int :=
  let required := cdiv numTokensMain m.blockSize + numSpec
  let numNew : Int := required - newComputed.length - (st.blocksOf r).length
  let numNew :=
    if 0 < numNew then if st.allocatedBlockReqs r then 1 else 1 + (numSpec : Int) else numNew
  numNew + numEvictable pool newComputed

def getNumBlocksToAllocate (r : ReqId)
    (numTokens : Nat) (newComputed : List BlockId) (totalComputed numTokensMain : Nat)
    (applyCap : Bool) : Except KVError Int :=
  match m.spec.kind with
  | .mamba mode numSpec =>
    -- a state cached in this step cannot be read in this step
    if (newComputed.getLast?.bind pool.blockHash).any (· ∈ st.cachedBlocksThisStep) then
      .ok (pool.numGpuBlocks + 1)
    else if mode = .align then
      .ok (m.alignNumBlocksToAllocate numSpec pool st r newComputed numTokensMain)
    else
      m.baseNumBlocksToAllocate pool st r (numTokens + m.spec.blockSize * numSpec) newComputed
        totalComputed applyCap
  | _ => m.baseNumBlocksToAllocate pool st r numTokens newComputed totalComputed applyCap

/-! ### Allocation -/

def keptHits (newComputed : List BlockId) (total : Nat) : List BlockId :=
  newComputed.drop (m.numSkippedBlocks total).toNat

/-- The table that `add_local_computed_blocks` makes: null blocks, then the hits. -/
def localTable (newComputed : List BlockId) (total : Nat) : List BlockId :=
  List.replicate (m.numSkippedBlocks total).toNat nullBlock ++ m.keptHits newComputed total

def addLocalComputedBlocks (r : ReqId) (newComputed : List BlockId) (numLocal numExternal : Nat) :
    Except KVError (BlockPool × ManagerState) :=
  if m.spec.kind = .crossAttention then
    if newComputed ≠ [] then .error .assertion else .ok (pool, st)
  else if st.blocksOf r ≠ [] then .error .assertion
  else
    let kept := m.keptHits newComputed (numLocal + numExternal)
    let blocks := m.localTable newComputed (numLocal + numExternal)
    let st := (st.setBlocks r blocks).setNumCached r blocks.length
    if m.enableCaching then
      match pool.touch kept with
      | .error e => .error e
      | .ok pool => .ok (pool, st)
    else if kept ≠ [] then .error .assertion
    else .ok (pool, st)

def externalInWindow (numLocal numExternal : Nat) : Int :=
  let skipped := m.getNumSkippedTokens (numLocal + numExternal)
  if 0 < skipped then min (((numLocal + numExternal : Nat) : Int) - skipped) numExternal
  else numExternal

def allocateExternalComputedBlocks (r : ReqId)
    (numLocal numExternal : Nat) : Except KVError (BlockPool × ManagerState) :=
  if m.spec.kind = .crossAttention then .ok (pool, st)
  else if m.externalInWindow numLocal numExternal ≤ 0 then .ok (pool, st)
  else
    let blocks := st.blocksOf r
    let numNew : Int := cdiv (numLocal + numExternal) m.blockSize - blocks.length
    match pool.getNewBlocks numNew with
    | .error e => .error e
    | .ok (pool, allocated) => .ok (pool, st.setBlocks r (blocks ++ allocated))

def baseAllocateNewBlocks (r : ReqId)
    (numTokens : Nat) : Except KVError (BlockPool × ManagerState × List BlockId) :=
  let blocks := st.blocksOf r
  let numNew : Int := cdiv numTokens m.blockSize - blocks.length
  if numNew ≤ 0 then .ok (pool, st, [])
  else
    match pool.getNewBlocks numNew with
    | .error e => .error e
    | .ok (pool, new) => .ok (pool, st.setBlocks r (blocks ++ new), new)

/-- The loop that moves speculative blocks from index `i` on behind the others. -/
def reuseSpeculative (numSkipped : Nat) : Nat → Nat → List BlockId → Except KVError (List BlockId)
  | _, 0, blocks => .ok blocks
  | i, k + 1, blocks =>
    if i < numSkipped then
      match blocks[i]? with
      | none => .error .indexError
      | some b => reuseSpeculative numSkipped (i + 1) k ((blocks ++ [b]).set i nullBlock)
    else .ok blocks

/-- `MambaManager.allocate_new_blocks` in align mode. A request that was allocated before has
more than `numSpec` blocks, so the indices are not negative. -/
def alignAllocateNewBlocks (numSpec : Nat) (pool : BlockPool) (st : ManagerState)
    (r : ReqId) (numTokensMain : Nat) : Except KVError (BlockPool × ManagerState × List BlockId) :=
  let blocks := st.blocksOf r
  let required := cdiv numTokensMain m.blockSize + numSpec
  if required ≤ blocks.length then .ok (pool, st, [])
  else
    let prevLen := blocks.length
    let allocated := st.allocatedBlockReqs r
    let lastState :=
      if allocated then some (prevLen - 1 - numSpec)
      else if 0 < prevLen then some (prevLen - 1)
      else st.lastStateBlockIdx r
    let numSkipped := required - numSpec - 1
    let padded := blocks ++ List.replicate (numSkipped - prevLen) nullBlock
    let moved :=
      if allocated then reuseSpeculative numSkipped (prevLen - numSpec) numSpec padded
      else .ok padded
    match moved with
    | .error e => .error e
    | .ok blocks =>
      let numNew : Int := required - blocks.length
      if (if allocated then 1 else (numSpec : Int) + 1) < numNew then .error .assertion
      else
        match pool.getNewBlocks numNew with
        | .error e => .error e
        | .ok (pool, new) =>
          .ok
            (pool,
              { st.setBlocks r (blocks ++ new) with
                lastStateBlockIdx := update st.lastStateBlockIdx r lastState
                allocatedBlockReqs := update st.allocatedBlockReqs r true },
              (blocks ++ new).drop prevLen)

def allocateNewBlocks (r : ReqId)
    (numTokens numTokensMain : Nat) : Except KVError (BlockPool × ManagerState × List BlockId) :=
  match m.spec.kind with
  | .mamba mode numSpec =>
    if mode = .align then m.alignAllocateNewBlocks numSpec pool st r numTokensMain
    else m.baseAllocateNewBlocks pool st r (numTokens + m.blockSize * numSpec)
  | _ => m.baseAllocateNewBlocks pool st r numTokens

/-! ### Caching -/

/-- The latest aligned token before the last prompt token, in blocks. -/
def replayBlock (align blockSize numPrompt : Nat) : Int :=
  ((numPrompt : Int) - 1) / align * align / blockSize

/-- `SlidingWindowManager.reachable_block_mask`. -/
def windowMask (window start stop : Nat) (retention : Option Nat) (numPrompt : Nat) :
    Except KVError (Option (List Bool)) :=
  let blockSize := m.spec.blockSize
  if m.schedulerBlockSize % blockSize ≠ 0 then .error .assertion
  else
    let need := contiguousBlocksForHit window blockSize m.useEagle
    let shift := if m.useEagle then 1 else 0
    let perSegment : Option Nat :=
      match retention with
      | none => some (m.schedulerBlockSize / blockSize)
      | some 0 => none
      | some interval => some (interval / blockSize)
    if perSegment.any (· ≤ need) then .ok none
    else
      let inSegment (i : Nat) : Bool :=
        perSegment.any fun per => shift ≤ i ∧ per - need ≤ (i - shift) % per
      let promptEnd := replayBlock m.schedulerBlockSize blockSize numPrompt + shift
      let inReplay (i : Nat) : Bool :=
        retention.isSome && decide (promptEnd - need ≤ i ∧ (i : Int) < promptEnd)
      .ok (some ((List.range' start (stop - start)).map fun i => inSegment i || inReplay i))

/-- `MambaManager.reachable_block_mask`. -/
def mambaMask (start stop : Nat) (retention : Option Nat) (numPrompt : Nat) : Option (List Bool) :=
  let blockSize := m.spec.blockSize
  match retention with
  | none => none
  | some interval =>
    let perSegment : Option Nat := if interval = 0 then none else some (interval / blockSize)
    if perSegment.any (· ≤ 1) then none
    else
      let inSegment (i : Nat) : Bool :=
        perSegment.any fun per =>
          let firstBoundary := (start + per) / per * per - 1
          firstBoundary ≤ i ∧ (i - firstBoundary) % per = 0
      let boundary := replayBlock m.schedulerBlockSize blockSize numPrompt - 1
      some ((List.range' start (stop - start)).map fun i => inSegment i || decide (boundary = i))

def reachableBlockMask (start stop : Nat) (retention : Option Nat) (numPrompt : Nat) :
    Except KVError (Option (List Bool)) :=
  match m.spec.kind with
  | .slidingWindow window => m.windowMask window start stop retention numPrompt
  | .mamba _ _ => .ok (m.mambaMask start stop retention numPrompt)
  | _ => .ok none

def cacheBlocks (request : Request)
    (numTokens : Nat) (retention : Option Nat) : Except KVError (BlockPool × ManagerState) :=
  let r := request.requestId
  let numCached := (st.numCachedBlock r).getD 0
  let numFull := numTokens / m.blockSize
  if m.spec.kind = .crossAttention then .error .cachingDisabled
  else if numFull ≤ numCached then .ok (pool, st)
  else
    match m.reachableBlockMask numCached numFull retention request.numPromptTokens with
    | .error e => .error e
    | .ok mask =>
      match pool.cacheFullBlocks request.blockHashes (st.blocksOf r) numCached numFull m.blockSize
          m.kvCacheGroupId mask with
      | .error e => .error e
      | .ok pool =>
        let st := st.setNumCached r numFull
        if m.spec.isMamba then
          let new := ((st.blocksOf r).take numFull).drop numCached
          .ok (pool, { st with cachedBlocksThisStep := st.cachedBlocksThisStep ++
            (new.filter (· ≠ nullBlock)).filterMap pool.blockHash })
        else .ok (pool, st)

/-! ### Freeing -/

/-- The backward loop of `_remove_blocks_in_range`: the table and the freed blocks. -/
def removeBackward (first : Nat) : Nat → List BlockId → List BlockId × List BlockId
  | 0, blocks => (blocks, [])
  | i + 1, blocks =>
    match blocks[i]? with
    | none => (blocks, [])
    | some b =>
      if i < first ∨ b = nullBlock then (blocks, [])
      else
        let rest := removeBackward first i (blocks.set i nullBlock)
        (rest.1, b :: rest.2)

def removeBlocksInRange (r : ReqId) (first last : Nat) : BlockPool × ManagerState :=
  let blocks := st.blocksOf r
  let removed := removeBackward first (min last blocks.length) blocks
  (pool.freeBlocks removed.2, st.setBlocks r removed.1)

def baseRemoveSkippedBlocks (r : ReqId) (totalComputed : Nat) : BlockPool × ManagerState :=
  if m.getNumSkippedTokens totalComputed ≤ 0 then (pool, st)
  else removeBlocksInRange pool st r 0 (m.numSkippedBlocks totalComputed).toNat

def removeSkippedBlocks (r : ReqId)
    (totalComputed : Nat) (numPrompt : Option Nat) : Except KVError (BlockPool × ManagerState) :=
  match m.spec.kind with
  | .rswa window =>
    match numPrompt with
    | none => .ok (m.baseRemoveSkippedBlocks pool st r totalComputed)
    | some numPrompt =>
      .ok (removeBlocksInRange pool st r (cdiv numPrompt m.blockSize)
        (max numPrompt (totalComputed - window) / m.blockSize))
  | .mamba mode numSpec =>
    -- all drafts that are not verified yet may be rejected
    let numComputed := totalComputed - numSpec
    let (pool, st) := m.baseRemoveSkippedBlocks pool st r numComputed
    match (if mode = .align then st.lastStateBlockIdx r else none) with
    | none => .ok (pool, st)
    | some idx =>
      if idx + 1 < cdiv numComputed m.blockSize then
        match (st.blocksOf r)[idx]? with
        | none => .error .indexError
        | some b =>
          if b = nullBlock then .ok (pool, st)
          else .ok (pool.freeBlocks [b], st.setBlocks r ((st.blocksOf r).set idx nullBlock))
      else .ok (pool, st)
  | _ => .ok (m.baseRemoveSkippedBlocks pool st r totalComputed)

end Manager

def ManagerState.popBlocksForFree (st : ManagerState) (r : ReqId) : ManagerState × List BlockId :=
  ({ st with
      reqToBlocks := st.reqToBlocks.erase r
      numCachedBlock := update st.numCachedBlock r none
      lastStateBlockIdx := update st.lastStateBlockIdx r none
      allocatedBlockReqs := update st.allocatedBlockReqs r false }, st.blocksOf r)

def ManagerState.free (st : ManagerState) (pool : BlockPool) (r : ReqId) : BlockPool × ManagerState :=
  (pool.freeBlocks (st.popBlocksForFree r).2.reverse, (st.popBlocksForFree r).1)

end Vllm.KVCache
