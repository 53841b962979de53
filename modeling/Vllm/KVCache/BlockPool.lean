import Vllm.KVCache.HashIsolation
import Vllm.KVCache.Spec
import Vllm.Lib.RefCount
import Vllm.Lib.Run

/-! The block pool (`vllm/v1/core/block_pool.py`). Blocks are numbered, with one function per
field of `KVCacheBlock`; block 0 is the null block. The doubly linked free list is the list
of its block ids in order. -/
namespace Vllm.KVCache
open Function

abbrev BlockId := Nat
abbrev GroupId := Nat
abbrev HashKey := Bytes

instance : LawfulBEq HashKey := inferInstance

def nullBlock : BlockId := 0

structure PoolConfig where
  numGpuBlocks : Nat
  enableCaching : Bool
  hashBlockSize : Nat
  deriving DecidableEq, Repr

/-- `BlockPool`. `cached` is `cached_block_hash_to_block`, with the blocks of a key in
insertion order; `extraHashes` is `cached_block_hashes_by_block`. -/
structure BlockPool extends PoolConfig where
  refCnt : BlockId → Int := fun _ => 0
  blockHash : BlockId → Option HashKey := fun _ => none
  blockHashNumTokens : BlockId → Option Nat := fun _ => none
  freeQueue : List BlockId := []
  numFreeBlocks : Int := 0
  cached : HashKey → List BlockId := fun _ => []
  extraHashes : BlockId → List HashKey := fun _ => []

inductive KVError
  /-- `ValueError` of `get_new_blocks`. -/
  | cannotGetBlocks (numBlocks : Int)
  /-- An `assert`. -/
  | assertion
  /-- `RuntimeError` of `FreeKVCacheBlockQueue.remove`. -/
  | notInFreeList (block : BlockId)
  /-- The pop left the free list: it hands out the tail sentinel or fails on the next block. -/
  | offFreeList
  | indexError
  /-- `ValueError` of `allocate_slots`. -/
  | noNewTokens
  /-- `ValueError` of `CrossAttentionManager.cache_blocks`. -/
  | cachingDisabled
  | lookupFailed
  /-- `OverflowError` of `make_block_hash_with_group_id`. -/
  | groupIdOverflow
  deriving DecidableEq, Repr

namespace BlockPool

def create (cfg : PoolConfig) : BlockPool where
  toPoolConfig := cfg
  freeQueue := (List.range cfg.numGpuBlocks).tail
  numFreeBlocks := cfg.numGpuBlocks - 1

/-! ### The prefix cache -/

variable (pool : BlockPool)

def getOneBlock (key : HashKey) : Option BlockId := (pool.cached key).head?

/-- `BlockPool.get_cached_block`: one block for every group, or a miss. -/
def getCachedBlock (blockHash : BlockHash) (groupIds : List GroupId) : Option (List BlockId) :=
  groupIds.mapM fun g => pool.getOneBlock (makeBlockHashWithGroupId blockHash g)

def NullUncached : Prop := ∀ key, nullBlock ∉ pool.cached key

/-- `BlockHashToBlockMap.pop` for each of the keys. -/
def popKeys (cached : HashKey → List BlockId) (b : BlockId) (keys : List HashKey) :
    HashKey → List BlockId :=
  fun key => if key ∈ keys then (cached key).erase b else cached key

/-- `_remove_cached_block_hashes`, which is also all that `_maybe_evict_cached_block` does. -/
def removeCachedBlockHashes (b : BlockId) : BlockPool :=
  let keys := (pool.blockHash b).toList ++ pool.extraHashes b
  if keys = [] then pool
  else
    { pool with
      cached := popKeys pool.cached b keys
      extraHashes := update pool.extraHashes b []
      blockHash := update pool.blockHash b none
      blockHashNumTokens := update pool.blockHashNumTokens b none }

def insertBlockHash (key : HashKey) (b : BlockId) (numTokens : Nat) : Except KVError BlockPool :=
  if pool.blockHash b = some key ∨ b ∈ pool.cached key then .ok pool
  else
    let cached := update pool.cached key (pool.cached key ++ [b])
    match pool.blockHash b with
    | none =>
      -- the assertion of `set_block_hash`
      if pool.blockHashNumTokens b ≠ none then .error .assertion
      else
        .ok
          { pool with
            cached := cached
            blockHash := update pool.blockHash b (some key)
            blockHashNumTokens := update pool.blockHashNumTokens b (some numTokens) }
    | some _ =>
      .ok
        { pool with
          cached := cached
          extraHashes := update pool.extraHashes b (pool.extraHashes b ++ [key]) }

/-- One block of `cache_full_blocks`, with the hash of its prefix. -/
def cacheFullBlock (groupId : GroupId) (blockHash : BlockHash)
    (numHashTokens : Nat) (b : BlockId) : Except KVError BlockPool :=
  let key := makeBlockHashWithGroupId blockHash groupId
  match pool.blockHash b with
  | none => pool.insertBlockHash key b numHashTokens
  | some _ =>
    match pool.blockHashNumTokens b with
    | some n =>
      if n < numHashTokens then (pool.removeCachedBlockHashes b).insertBlockHash key b numHashTokens
      else .error .assertion
    | none => .error .assertion

end BlockPool

/-- `BlockHashListWithBlockSize` over the request's hashes, or the hashes themselves when
the block size is the hash block size. -/
def groupHash (hbs blockSize : Nat) (hashes : List BlockHash) (i : Nat) : Option BlockHash :=
  if blockSize = hbs then hashes[i]? else getValueAt hashes (blockSize / hbs) i

theorem groupHash_eq {hbs : Nat} (hpos : 0 < hbs) (blockSize : Nat) (hashes : List BlockHash)
    (i : Nat) : groupHash hbs blockSize hashes i = hashes[(i + 1) * (blockSize / hbs) - 1]? := by
  unfold groupHash
  split
  · rename_i heq
    rw [heq, Nat.div_self hpos, Nat.mul_one, Nat.add_sub_cancel]
  · rfl

def numGroupHashes (hbs blockSize : Nat) (hashes : List BlockHash) : Nat :=
  if blockSize = hbs then hashes.length else hashes.length / (blockSize / hbs)

namespace BlockPool

/-- The loop of `cache_full_blocks` from block `i` on; `mask` is aligned with the blocks. -/
def cacheLoop (hashes : List BlockHash) (blockSize : Nat) (groupId : GroupId) :
    Nat → List (BlockId × Bool) → BlockPool → Except KVError BlockPool
  | _, [], pool => .ok pool
  | i, (b, reachable) :: rest, pool =>
    if b = nullBlock ∨ reachable = false then cacheLoop hashes blockSize groupId (i + 1) rest pool
    else
      match groupHash pool.hashBlockSize blockSize hashes i with
      | none => .error .indexError
      | some h =>
        match pool.cacheFullBlock groupId h ((i + 1) * blockSize) b with
        | .error e => .error e
        | .ok pool => cacheLoop hashes blockSize groupId (i + 1) rest pool

def cacheFullBlocks (pool : BlockPool) (hashes : List BlockHash) (blocks : List BlockId)
    (numCached numFull blockSize : Nat) (groupId : GroupId) (mask : Option (List Bool)) :
    Except KVError BlockPool :=
  if numFull ≤ numCached then .ok pool
  else
    let newFull := (blocks.take numFull).drop numCached
    let mask := mask.getD (List.replicate newFull.length true)
    if mask.length ≠ newFull.length then .error .assertion
    else if blockSize ≠ pool.hashBlockSize ∧ blockSize % pool.hashBlockSize ≠ 0 then
      .error .assertion
    else if numGroupHashes pool.hashBlockSize blockSize hashes < numFull then .error .assertion
    else cacheLoop hashes blockSize groupId numCached (newFull.zip mask) pool

def evictBlocks (pool : BlockPool) (blockIds : List BlockId) : Except KVError BlockPool :=
  Run.run (fun pool b => if pool.numGpuBlocks ≤ b then .error .assertion
    else .ok (pool.removeCachedBlockHashes b)) pool blockIds

def resetPrefixCache (pool : BlockPool) : BlockPool × Bool :=
  if pool.numGpuBlocks - pool.numFreeBlocks ≠ 1 then (pool, false)
  else
    ({ pool with
        cached := fun _ => []
        extraHashes := fun _ => []
        blockHash := fun _ => none
        blockHashNumTokens := fun _ => none }, true)

/-! ### Allocation -/

/-- `FreeKVCacheBlockQueue.popleft_n`. A negative count pops nothing but is subtracted. -/
def popleftN (pool : BlockPool) (n : Int) : Except KVError (BlockPool × List BlockId) :=
  if n = 0 then .ok (pool, [])
  else if pool.numFreeBlocks < n then .error .assertion
  else if pool.freeQueue.length < n.toNat then .error .offFreeList
  else
    .ok
      ({ pool with
          numFreeBlocks := pool.numFreeBlocks - n
          freeQueue := pool.freeQueue.drop n.toNat },
        pool.freeQueue.take n.toNat)

def evictIfCaching (pool : BlockPool) (b : BlockId) : BlockPool :=
  if pool.enableCaching then pool.removeCachedBlockHashes b else pool

/-- One block in the loop of `get_new_blocks` over the popped blocks. -/
def claimBlock (pool : BlockPool) (b : BlockId) : Except KVError BlockPool :=
  let pool := pool.evictIfCaching b
  if pool.refCnt b ≠ 0 then .error .assertion
  else .ok { pool with refCnt := RefCount.retain pool.refCnt [b] }

def getNewBlocks (pool : BlockPool) (n : Int) : Except KVError (BlockPool × List BlockId) :=
  if pool.numFreeBlocks < n then .error (.cannotGetBlocks n)
  else
    match pool.popleftN n with
    | .error e => .error e
    | .ok (pool, ret) =>
      (Run.run claimBlock pool ret).map (·, ret)

def touch (pool : BlockPool) : List BlockId → Except KVError BlockPool
  | [] => .ok pool
  | b :: bs =>
    let retained := { pool with refCnt := RefCount.retain pool.refCnt [b] }
    if pool.refCnt b = 0 ∧ b ≠ nullBlock then
      if b ∈ pool.freeQueue then
        touch
          { retained with
            freeQueue := pool.freeQueue.erase b
            numFreeBlocks := pool.numFreeBlocks - 1 } bs
      else .error (.notInFreeList b)
    else touch retained bs

/-- `BlockPool.free_blocks`. Blocks without a hash go to the front of the queue. -/
def freeBlocks (pool : BlockPool) (ordered : List BlockId) : BlockPool :=
  let released := RefCount.release pool.refCnt ordered
  let freed := released.2.filter (· ≠ nullBlock)
  { pool with
    refCnt := released.1
    freeQueue := freed.filter (fun b => (pool.blockHash b).isNone) ++ pool.freeQueue ++
      freed.filter (fun b => !(pool.blockHash b).isNone)
    numFreeBlocks := pool.numFreeBlocks + freed.length }

end BlockPool
end Vllm.KVCache
