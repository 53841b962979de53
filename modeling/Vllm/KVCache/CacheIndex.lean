import Vllm.KVCache.BlockHashMap
import Vllm.KVCache.IncrementalHash
import Vllm.KVCache.PoolSound
import Vllm.Lib.Run

/-! The prefix-cache index of the block pool (`vllm/v1/core/block_pool.py`) with its event
queue: every operation on `cached_block_hash_to_block`, and that the index stays inverse to the
hashes that the blocks own. -/
namespace Vllm.KVCache
open List Function BlockPool BlockHashToBlockMap Run

/-- `BlockStored`; the medium and the metadata that is added later are left out. -/
structure BlockStored where
  blockHashes : List BlockHash
  parentBlockHash : Option BlockHash
  tokenIds : List TokenId
  blockSize : Nat
  loraId : Option Nat
  loraName : Option String
  extraKeys : Option (List (Option (List ExtraKey)))
  groupIdx : GroupId
  deriving DecidableEq, Repr

/-- `KVCacheEvent`, with raw hashes. -/
inductive KVCacheEvent
  | blockStored (event : BlockStored)
  | blockRemoved (blockHashes : List BlockHash) (groupIdx : GroupId)
  | allBlocksCleared
  deriving DecidableEq, Repr

/-- The keys that a block owns: its hash and its entry in `cached_block_hashes_by_block`. -/
def BlockPool.ownedKeys (pool : BlockPool) (b : BlockId) : List HashKey :=
  (pool.blockHash b).toList ++ pool.extraHashes b

/-- `BlockPool` with the map that it really keeps and the events that it has emitted. The field
`cached` of the pool is the contents of `index`. -/
structure EventPool extends BlockPool where
  enableKvCacheEvents : Bool
  index : BlockHashToBlockMap := {}
  kvEventQueue : List KVCacheEvent := []

namespace EventPool

def create (cfg : PoolConfig) (enableKvCacheEvents : Bool) : EventPool where
  toBlockPool := BlockPool.create cfg
  enableKvCacheEvents := enableKvCacheEvents

/-! ### Removing and inserting keys -/

/-- The loop of `_remove_cached_block_hashes`, with the keys that were found. -/
def popKeys (b : BlockId) : List HashKey → BlockHashToBlockMap → BlockHashToBlockMap × List HashKey
  | [], map => (map, [])
  | key :: keys, map =>
    let popped := map.pop key b
    let rest := popKeys b keys popped.1
    (rest.1, if popped.2 then key :: rest.2 else rest.2)

def removeCachedBlockHashes (ep : EventPool) (b : BlockId) : EventPool × List HashKey :=
  let keys := ep.ownedKeys b
  if keys = [] then (ep, [])
  else
    let popped := popKeys b keys ep.index
    ({ ep with
        toBlockPool := ep.toBlockPool.removeCachedBlockHashes b
        index := popped.1 }, popped.2)

def emitBlockRemovedEvents (ep : EventPool) (keys : List HashKey) : EventPool :=
  if ep.enableKvCacheEvents then
    { ep with
      kvEventQueue := ep.kvEventQueue ++
        keys.map fun key => .blockRemoved [getBlockHash key] (getGroupId key) }
  else ep

def maybeEvictCachedBlock (ep : EventPool) (b : BlockId) : EventPool :=
  (ep.removeCachedBlockHashes b).1.emitBlockRemovedEvents (ep.removeCachedBlockHashes b).2

def insertBlockHash (ep : EventPool) (key : HashKey) (b : BlockId) (numTokens : Nat) :
    Except KVError EventPool :=
  if ep.blockHash b = some key ∨ ep.index.contain key b then .ok ep
  else
    match ep.toBlockPool.insertBlockHash key b numTokens with
    | .error e => .error e
    | .ok pool => .ok { ep with toBlockPool := pool, index := ep.index.insert key b }

/-! ### Caching -/

def cacheFullBlock (ep : EventPool) (groupId : GroupId) (blockHash : BlockHash)
    (numHashTokens : Nat) (b : BlockId) : Except KVError EventPool :=
  let key := makeBlockHashWithGroupId blockHash groupId
  if 2 ^ 32 ≤ groupId then .error .groupIdOverflow
  else if (ep.blockHash b).isNone then ep.insertBlockHash key b numHashTokens
  else if (ep.blockHashNumTokens b).any (· < numHashTokens) then
    (ep.maybeEvictCachedBlock b).insertBlockHash key b numHashTokens
  else .error .assertion

/-- The first loop of `cache_full_blocks`, with `new_hashes`. -/
def cacheLoop (hashes : List BlockHash) (blockSize : Nat) (groupId : GroupId) :
    Nat → List (BlockId × Bool) → EventPool → Except KVError (EventPool × List BlockHash)
  | _, [], ep => .ok (ep, [])
  | i, (b, reachable) :: rest, ep =>
    if b = nullBlock ∨ reachable = false then cacheLoop hashes blockSize groupId (i + 1) rest ep
    else
      match groupHash ep.hashBlockSize blockSize hashes i with
      | none => .error .indexError
      | some h =>
        match ep.cacheFullBlock groupId h ((i + 1) * blockSize) b with
        | .error e => .error e
        | .ok ep =>
          match cacheLoop hashes blockSize groupId (i + 1) rest ep with
          | .error e => .error e
          | .ok (ep, newHashes) => .ok (ep, h :: newHashes)

/-- The second loop, over `range(num_cached_blocks, num_full_blocks)`: the extra keys of the
blocks that are neither null nor masked out. -/
def extraKeysLoop (env : HashEnv) (request : Request) (blockSize : Nat) (blocks : List BlockId)
    (mask : Option (List Bool)) (numCached : Nat) :
    Nat → Nat → Int → Except KVError (List (Option (List ExtraKey)))
  | _, 0, _ => .ok []
  | i, k + 1, currMmIdx =>
    match blocks[i]? with
    | none => .error .indexError
    | some b =>
      if b = nullBlock then extraKeysLoop env request blockSize blocks mask numCached (i + 1) k currMmIdx
      else
        match mask.elim (some true) (·[i - numCached]?) with
        | none => .error .indexError
        | some false =>
          extraKeysLoop env request blockSize blocks mask numCached (i + 1) k currMmIdx
        | some true =>
          let extra := generateBlockHashExtraKeys env request (i * blockSize)
            (i * blockSize + blockSize) currMmIdx
          match extraKeysLoop env request blockSize blocks mask numCached (i + 1) k extra.2 with
          | .error e => .error e
          | .ok rest => .ok (extra.1 :: rest)

/-- The stored event of `cache_full_blocks`. -/
def storedEvent (request : Request) (parent : Option BlockHash) (start stop blockSize : Nat)
    (newHashes : List BlockHash) (extraKeys : Option (List (Option (List ExtraKey))))
    (groupId : GroupId) : BlockStored where
  blockHashes := newHashes
  parentBlockHash := parent
  tokenIds := (request.allTokenIds.drop start).take (stop - start)
  blockSize := blockSize
  loraId := request.loraRequest.map (·.loraIntId)
  loraName := request.loraRequest.map (·.loraName)
  extraKeys := extraKeys
  groupIdx := groupId

def emitBlockStored (ep : EventPool) (event : BlockStored) : EventPool :=
  { ep with kvEventQueue := ep.kvEventQueue ++ [.blockStored event] }

/-- The arguments of `cache_full_blocks`. -/
structure FullBlocks where
  request : Request
  blocks : List BlockId
  numCached : Nat
  numFull : Nat
  blockSize : Nat
  groupId : GroupId
  mask : Option (List Bool) := none

namespace FullBlocks

def newFull (a : FullBlocks) : List BlockId := (a.blocks.take a.numFull).drop a.numCached

def masked (a : FullBlocks) : List (BlockId × Bool) :=
  a.newFull.zip (a.mask.getD (replicate a.newFull.length true))

end FullBlocks

variable (env : HashEnv) (ep : EventPool) (request : Request)

def cacheFullBlocks (a : FullBlocks) : Except KVError EventPool :=
  if a.numFull ≤ a.numCached then .ok ep
  else if a.mask.any (·.length ≠ a.newFull.length) then .error .assertion
  else if a.blockSize ≠ ep.hashBlockSize ∧ a.blockSize % ep.hashBlockSize ≠ 0 then
    .error .assertion
  else if numGroupHashes ep.hashBlockSize a.blockSize a.request.blockHashes < a.numFull then
    .error .assertion
  else
    match cacheLoop a.request.blockHashes a.blockSize a.groupId a.numCached a.masked ep with
    | .error e => .error e
    | .ok (ep, newHashes) =>
      if ep.enableKvCacheEvents = false then .ok ep
      else
        let parent :=
          if a.numCached = 0 then none
          else groupHash ep.hashBlockSize a.blockSize a.request.blockHashes (a.numCached - 1)
        match extraKeysLoop env a.request a.blockSize a.blocks a.mask a.numCached a.numCached
            (a.numFull - a.numCached) 0 with
        | .error e => .error e
        | .ok extraKeys =>
          .ok (ep.emitBlockStored (storedEvent a.request parent (a.numCached * a.blockSize)
            (a.numFull * a.blockSize) a.blockSize newHashes
            (if extraKeys = [] then none else some extraKeys) a.groupId))

/-- `cache_partial_block` after its assertions, with the hash of the prefix. -/
def cachePartialHash (b : BlockId)
    (numTokens : Nat) (groupId : GroupId) (blockHash : BlockHash) : Except KVError EventPool :=
  let numHashBlocks := numTokens / ep.hashBlockSize
  let key := makeBlockHashWithGroupId blockHash groupId
  let alreadyCached := decide (ep.blockHash b = some key) || ep.index.contain key b
  let shorter := (ep.blockHash b).isSome &&
    (ep.blockHashNumTokens b).any (· < numHashBlocks * ep.hashBlockSize)
  let promoted := if !alreadyCached && shorter then ep.maybeEvictCachedBlock b else ep
  match promoted.insertBlockHash key b (numHashBlocks * ep.hashBlockSize) with
  | .error e => .error e
  | .ok ep =>
    if ep.enableKvCacheEvents && !alreadyCached then
      let parent := if 1 < numHashBlocks then request.blockHashes[numHashBlocks - 2]? else none
      let start := (numHashBlocks - 1) * ep.hashBlockSize
      let extra := generateBlockHashExtraKeys env request start numTokens
        (if 0 < start then -1 else 0)
      .ok (ep.emitBlockStored (storedEvent request parent start numTokens (numTokens - start)
        [blockHash] (some [extra.1]) groupId))
    else .ok ep

def cachePartialBlock (b : BlockId)
    (numTokens : Nat) (groupId : GroupId) (blockSize : Nat) : Except KVError EventPool :=
  if b = nullBlock then .ok ep
  else if ¬ (ep.hashBlockSize < blockSize ∧ blockSize % ep.hashBlockSize = 0 ∧
      numTokens % blockSize ≠ 0 ∧ numTokens % ep.hashBlockSize = 0 ∧
      0 < numTokens / ep.hashBlockSize) then .error .assertion
  else
    match request.blockHashes[numTokens / ep.hashBlockSize - 1]? with
    | none => .error .assertion
    | some blockHash =>
      if 2 ^ 32 ≤ groupId then .error .groupIdOverflow
      else ep.cachePartialHash env request b numTokens groupId blockHash

/-! ### The other operations -/

def evictIfCaching (b : BlockId) : EventPool :=
  if ep.enableCaching then ep.maybeEvictCachedBlock b else ep

def claimBlock (b : BlockId) : Except KVError EventPool :=
  let ep := ep.evictIfCaching b
  if ep.refCnt b ≠ 0 then .error .assertion
  else .ok { ep with refCnt := RefCount.retain ep.refCnt [b] }

def getNewBlocks (n : Int) : Except KVError (EventPool × List BlockId) :=
  if ep.numFreeBlocks < n then .error (.cannotGetBlocks n)
  else
    match ep.toBlockPool.popleftN n with
    | .error e => .error e
    | .ok (pool, ret) =>
      (run claimBlock { ep with toBlockPool := pool } ret).map (·, ret)

def evictBlocks (blockIds : List BlockId) : Except KVError EventPool :=
  run (fun ep b => if ep.numGpuBlocks ≤ b then .error .assertion
    else .ok (ep.maybeEvictCachedBlock b)) ep blockIds

def resetPrefixCache (ep : EventPool) : EventPool :=
  if ep.toBlockPool.resetPrefixCache.2 then
    { ep with
      toBlockPool := ep.toBlockPool.resetPrefixCache.1
      index := {}
      kvEventQueue :=
        if ep.enableKvCacheEvents then ep.kvEventQueue ++ [.allBlocksCleared]
        else ep.kvEventQueue }
  else ep

end EventPool

inductive PoolOp
  | getNewBlocks (n : Int)
  | touch (blocks : List BlockId)
  | freeBlocks (ordered : List BlockId)
  | cacheFullBlocks (a : EventPool.FullBlocks)
  | cachePartialBlock (request : Request) (b : BlockId) (numTokens : Nat) (groupId : GroupId)
      (blockSize : Nat)
  | evictBlocks (blockIds : List BlockId)
  | resetPrefixCache

def EventPool.step (env : HashEnv) (ep : EventPool) : PoolOp → Except KVError EventPool
  | .getNewBlocks n => (ep.getNewBlocks n).map Prod.fst
  | .touch blocks => (ep.toBlockPool.touch blocks).map fun pool => { ep with toBlockPool := pool }
  | .freeBlocks ordered => .ok { ep with toBlockPool := ep.toBlockPool.freeBlocks ordered }
  | .cacheFullBlocks a => ep.cacheFullBlocks env a
  | .cachePartialBlock request b numTokens groupId blockSize =>
    ep.cachePartialBlock env request b numTokens groupId blockSize
  | .evictBlocks blockIds => ep.evictBlocks blockIds
  | .resetPrefixCache => .ok ep.resetPrefixCache

/-! ### The index and the keys of the blocks -/

namespace BlockPool

variable {pool pool' : BlockPool}

/-- A block is stored under exactly the keys that it owns, and it owns none without a hash. -/
structure IndexExact (pool : BlockPool) : Prop where
  owns : ∀ key b, b ∈ pool.cached key ↔ key ∈ pool.ownedKeys b
  nodup : ∀ key, (pool.cached key).Nodup
  keys_nodup : ∀ b, (pool.ownedKeys b).Nodup
  unhashed : ∀ b, pool.blockHash b = none → pool.extraHashes b = []

theorem create_indexExact (cfg : PoolConfig) : (create cfg).IndexExact :=
  ⟨fun _ _ => iff_of_false not_mem_nil not_mem_nil, fun _ => nodup_nil,
    fun _ => nodup_nil, fun _ _ => rfl⟩

variable {b : BlockId} {key : HashKey}

theorem mem_ownedKeys :
    key ∈ pool.ownedKeys b ↔ pool.blockHash b = some key ∨ key ∈ pool.extraHashes b := by
  rw [ownedKeys, mem_append, Option.mem_toList]

theorem IndexExact.ownedKeys_of_unhashed (exact : pool.IndexExact) (h : pool.blockHash b = none) :
    pool.ownedKeys b = [] := by
  rw [ownedKeys, h, exact.unhashed b h]
  rfl

theorem cached_removeCachedBlockHashes (pool : BlockPool) (b : BlockId) (key : HashKey) :
    (pool.removeCachedBlockHashes b).cached key =
      if key ∈ pool.ownedKeys b then (pool.cached key).erase b else pool.cached key := by
  unfold removeCachedBlockHashes
  simp only
  split
  · rename_i hkeys
    rw [ownedKeys, hkeys, if_neg not_mem_nil]
  · rfl

theorem ownedKeys_removeCachedBlockHashes (pool : BlockPool) (b : BlockId) :
    (pool.removeCachedBlockHashes b).ownedKeys = update pool.ownedKeys b [] := by
  unfold removeCachedBlockHashes
  simp only
  split
  · rename_i hkeys
    exact (update_eq_self_iff.mpr hkeys.symm).symm
  · funext c
    by_cases hc : c = b
    · simp [ownedKeys, hc]
    · simp [ownedKeys, hc]

theorem IndexExact.removeCachedBlockHashes (exact : pool.IndexExact) (b : BlockId) :
    (pool.removeCachedBlockHashes b).IndexExact := by
  constructor
  · intro key c
    rw [cached_removeCachedBlockHashes]
    by_cases hc : c = b
    · subst hc
      rw [ownedKeys_removeCachedBlockHashes, update_self]
      refine iff_of_false ?_ not_mem_nil
      split
      · exact (exact.nodup key).not_mem_erase
      · rename_i hkey
        exact fun hmem => hkey ((exact.owns key c).mp hmem)
    · rw [ownedKeys_removeCachedBlockHashes, update_of_ne hc, ← exact.owns key c]
      split
      · exact mem_erase_of_ne hc
      · exact Iff.rfl
  · intro key
    rw [cached_removeCachedBlockHashes]
    split
    · exact (exact.nodup key).erase b
    · exact exact.nodup key
  · rw [ownedKeys_removeCachedBlockHashes]
    exact (forall_update_iff _ fun _ keys => Nodup keys).mpr
      ⟨nodup_nil, fun c _ => exact.keys_nodup c⟩
  · intro c hnone
    by_cases hc : c = b
    · subst hc
      have hkeys := congrFun (ownedKeys_removeCachedBlockHashes pool c) c
      rw [update_self] at hkeys
      exact (append_eq_nil_iff.mp hkeys).2
    revert hnone
    unfold BlockPool.removeCachedBlockHashes
    simp only
    split
    · exact exact.unhashed c
    · simp only [update_of_ne hc]
      exact exact.unhashed c

/-- A new key of a block goes to the end of its keys, whether it becomes the primary hash or
a further one. -/
structure KeyAdded (pool pool' : BlockPool) (key : HashKey) (b : BlockId) : Prop where
  fresh : b ∉ pool.cached key
  cached : pool'.cached = update pool.cached key (pool.cached key ++ [b])
  keys_self : pool'.ownedKeys b = pool.ownedKeys b ++ [key]
  keys_other : ∀ c, c ≠ b → pool'.ownedKeys c = pool.ownedKeys c
  unhashed : ∀ c, pool'.blockHash c = none → pool'.extraHashes c = []

theorem insertBlockHash_keyAdded (exact : pool.IndexExact) {n : Nat} (hfresh : b ∉ pool.cached key)
    (h : pool.insertBlockHash key b n = .ok pool') : KeyAdded pool pool' key b := by
  have hne : pool.blockHash b ≠ some key := fun heq =>
    hfresh ((exact.owns key b).mpr (mem_ownedKeys.mpr (.inl heq)))
  rw [insertBlockHash, if_neg (not_or.mpr ⟨hne, hfresh⟩)] at h
  split at h
  · rename_i hnone
    split at h
    · cases h
    cases h
    refine ⟨hfresh, rfl, ?_, ?_, ?_⟩
    · simp only [ownedKeys, update_self, hnone, exact.unhashed b hnone]
      rfl
    · intro c hc
      simp only [ownedKeys, update_of_ne hc]
    · intro c hcnone
      by_cases hc : c = b
      · subst hc
        exact exact.unhashed c hnone
      · simp only [update_of_ne hc] at hcnone
        exact exact.unhashed c hcnone
  · rename_i hsome
    cases h
    refine ⟨hfresh, rfl, ?_, ?_, ?_⟩
    · simp only [ownedKeys, update_self, append_assoc]
    · intro c hc
      simp only [ownedKeys, update_of_ne hc]
    · intro c hcnone
      have hc : c ≠ b := by
        rintro rfl
        rw [hsome] at hcnone
        cases hcnone
      simp only [update_of_ne hc]
      exact exact.unhashed c hcnone

theorem KeyAdded.indexExact (added : KeyAdded pool pool' key b) (exact : pool.IndexExact) :
    pool'.IndexExact := by
  have hnew : key ∉ pool.ownedKeys b := fun hmem => added.fresh ((exact.owns key b).mpr hmem)
  refine ⟨?_, ?_, ?_, added.unhashed⟩
  · intro k c
    rw [added.cached]
    by_cases hc : c = b
    · subst hc
      rw [added.keys_self, mem_append, mem_singleton, ← exact.owns k c]
      by_cases hk : k = key
      · subst hk
        simp only [update_self, mem_append, mem_singleton]
      · simp only [update_of_ne hk, hk, or_false]
    · rw [added.keys_other c hc, ← exact.owns k c]
      by_cases hk : k = key
      · subst hk
        simp only [update_self, mem_append, mem_singleton, hc, or_false]
      · rw [update_of_ne hk]
  · intro k
    rw [added.cached]
    by_cases hk : k = key
    · subst hk
      rw [update_self, ← concat_eq_append]
      exact (exact.nodup k).concat added.fresh
    · rw [update_of_ne hk]
      exact exact.nodup k
  · intro c
    by_cases hc : c = b
    · subst hc
      rw [added.keys_self, ← concat_eq_append]
      exact (exact.keys_nodup c).concat hnew
    · rw [added.keys_other c hc]
      exact exact.keys_nodup c

theorem IndexExact.congr (exact : pool.IndexExact) (hcached : pool'.cached = pool.cached)
    (hhash : pool'.blockHash = pool.blockHash) (hextra : pool'.extraHashes = pool.extraHashes) :
    pool'.IndexExact := by
  have hkeys : pool'.ownedKeys = pool.ownedKeys := by
    funext b
    rw [ownedKeys, hhash, hextra, ownedKeys]
  refine ⟨?_, hcached ▸ exact.nodup, hkeys ▸ exact.keys_nodup, ?_⟩
  · rw [hcached, hkeys]
    exact exact.owns
  · rw [hhash, hextra]
    exact exact.unhashed

end BlockPool

namespace EventPool

variable {ep ep' : EventPool}

/-- The map holds what the pool model says, and both are inverse to the keys of the blocks. -/
structure Indexed (ep : EventPool) : Prop where
  agrees : ∀ key, ep.index.blocks key = ep.cached key
  exact : ep.toBlockPool.IndexExact

theorem create_indexed (cfg : PoolConfig) (events : Bool) : (create cfg events).Indexed :=
  ⟨fun _ => rfl, create_indexExact cfg⟩

theorem blocks_popKeys (b : BlockId) (keys : List HashKey) (hnodup : keys.Nodup)
    (map : BlockHashToBlockMap) (key : HashKey) :
    (popKeys b keys map).1.blocks key =
      if key ∈ keys then (map.blocks key).erase b else map.blocks key := by
  induction keys generalizing map with
  | nil => rfl
  | cons k keys ih =>
    rw [nodup_cons] at hnodup
    rw [popKeys, ih hnodup.2]
    by_cases hk : key = k
    · subst hk
      rw [if_neg hnodup.1, if_pos mem_cons_self, blocks_pop_self]
    · rw [blocks_pop_of_ne map hk]
      simp only [mem_cons, hk, false_or]

theorem popKeys_found (b : BlockId) (keys : List HashKey) (hnodup : keys.Nodup)
    (map : BlockHashToBlockMap) (hfound : ∀ key ∈ keys, b ∈ map.blocks key) :
    (popKeys b keys map).2 = keys := by
  induction keys generalizing map with
  | nil => rfl
  | cons k keys ih =>
    rw [nodup_cons] at hnodup
    have hpop : (map.pop k b).2 = true := (map.pop_found k b).mpr (hfound k mem_cons_self)
    have hrest : (popKeys b keys (map.pop k b).1).2 = keys := by
      apply ih hnodup.2
      intro key hkey
      have hne : key ≠ k := fun heq => hnodup.1 (heq ▸ hkey)
      rw [blocks_pop_of_ne map hne]
      exact hfound key (mem_cons_of_mem k hkey)
    simp only [popKeys, hpop, hrest, if_true]

theorem removeCachedBlockHashes_pool (ep : EventPool) (b : BlockId) :
    (ep.removeCachedBlockHashes b).1.toBlockPool = ep.toBlockPool.removeCachedBlockHashes b := by
  unfold removeCachedBlockHashes
  simp only
  split
  · rename_i hkeys
    exact (if_pos hkeys).symm
  · rfl

@[simp] theorem emitBlockRemovedEvents_pool (ep : EventPool) (keys : List HashKey) :
    (ep.emitBlockRemovedEvents keys).toBlockPool = ep.toBlockPool := by
  unfold emitBlockRemovedEvents
  split <;> rfl

@[simp] theorem emitBlockRemovedEvents_index (ep : EventPool) (keys : List HashKey) :
    (ep.emitBlockRemovedEvents keys).index = ep.index := by
  unfold emitBlockRemovedEvents
  split <;> rfl

theorem maybeEvictCachedBlock_pool (ep : EventPool) (b : BlockId) :
    (ep.maybeEvictCachedBlock b).toBlockPool = ep.toBlockPool.removeCachedBlockHashes b := by
  rw [maybeEvictCachedBlock, emitBlockRemovedEvents_pool, removeCachedBlockHashes_pool]

variable {pool : BlockPool} {b : BlockId} {bs n : Nat} {key : HashKey} {g : GroupId} {r : Request}
    {ret : List BlockId} {env : HashEnv} {hash : BlockHash} {a : FullBlocks}

/-! ### One operation -/

/-- A block of `cache_full_blocks` is inserted as it is or after its eviction. -/
theorem cacheFullBlock_cases (h : ep.cacheFullBlock g hash n b = .ok ep') :
    g < 2 ^ 32 ∧
      ((ep.blockHash b = none ∧
          ep.insertBlockHash (makeBlockHashWithGroupId hash g) b n = .ok ep') ∨
        (ep.maybeEvictCachedBlock b).insertBlockHash (makeBlockHashWithGroupId hash g) b n =
          .ok ep') := by
  unfold cacheFullBlock at h
  split at h
  · cases h
  rename_i hg
  refine ⟨Nat.lt_of_not_le hg, ?_⟩
  split at h
  · rename_i hnone
    exact .inl ⟨Option.isNone_iff_eq_none.mp hnone, h⟩
  · split at h
    · exact .inr h
    · cases h

/-- `cache_full_blocks` runs the first loop; with events it then runs the second one and emits
the stored event. -/
theorem cacheFullBlocks_cases (h : ep.cacheFullBlocks env a = .ok ep') :
    ep' = ep ∨
      (a.numCached < a.numFull ∧ a.mask.any (·.length ≠ a.newFull.length) = false ∧
        ∃ mid new,
          cacheLoop a.request.blockHashes a.blockSize a.groupId a.numCached a.masked ep =
            .ok (mid, new) ∧
          ((mid.enableKvCacheEvents = false ∧ ep' = mid) ∨
            (mid.enableKvCacheEvents = true ∧ ∃ parent extraKeys,
              extraKeysLoop env a.request a.blockSize a.blocks a.mask a.numCached a.numCached
                (a.numFull - a.numCached) 0 = .ok extraKeys ∧
              ep' = mid.emitBlockStored (storedEvent a.request parent (a.numCached * a.blockSize)
                (a.numFull * a.blockSize) a.blockSize new
                (if extraKeys = [] then none else some extraKeys) a.groupId)))) := by
  unfold cacheFullBlocks at h
  split at h
  · cases h
    exact .inl rfl
  rename_i hlt
  split at h
  · cases h
  rename_i hmask
  split at h
  · cases h
  split at h
  · cases h
  split at h
  · cases h
  rename_i mid new hloop
  refine .inr ⟨Nat.lt_of_not_le hlt, Bool.eq_false_iff.mpr hmask, mid, new, hloop, ?_⟩
  split at h
  · rename_i hoff
    cases h
    exact .inl ⟨hoff, rfl⟩
  · rename_i hon
    simp only at h
    split at h
    · cases h
    · rename_i extraKeys hextra
      cases h
      exact .inr ⟨Bool.eq_true_of_not_eq_false hon, _, extraKeys, hextra, rfl⟩

theorem cachePartialBlock_cases (h : ep.cachePartialBlock env r b n g bs = .ok ep') :
    ep' = ep ∨ (g < 2 ^ 32 ∧ ∃ hash, ep.cachePartialHash env r b n g hash = .ok ep') := by
  unfold cachePartialBlock at h
  split at h
  · cases h
    exact .inl rfl
  split at h
  · cases h
  split at h
  · cases h
  rename_i hash _
  split at h
  · cases h
  · rename_i hg
    exact .inr ⟨Nat.lt_of_not_le hg, hash, h⟩

theorem claimBlock_cases (h : ep.claimBlock b = .ok ep') :
    ep' = { ep.evictIfCaching b with
      refCnt := RefCount.retain (ep.evictIfCaching b).refCnt [b] } := by
  unfold claimBlock at h
  dsimp only at h
  split at h
  · cases h
  · exact (Except.ok.inj h).symm

theorem evictBlocks_rule (Inv : EventPool → Prop) {bs : List BlockId}
    (hone : ∀ {ep} b, Inv ep → Inv (ep.maybeEvictCachedBlock b)) (hs : Inv ep)
    (h : ep.evictBlocks bs = .ok ep') : Inv ep' := by
  refine run_rule (fun _ => Inv) (fun {b _ _ _} hs h => ?_) hs h
  split at h
  · cases h
  · cases h
    exact hone b hs

variable {pool' : BlockPool} {cfg : PoolConfig} {events : Bool}

theorem popleftN_same {n : Int} (h : pool.popleftN n = .ok (pool', ret)) :
    pool'.toPoolConfig = pool.toPoolConfig ∧ pool'.cached = pool.cached ∧
      pool'.blockHash = pool.blockHash ∧ pool'.extraHashes = pool.extraHashes := by
  unfold popleftN at h
  split at h
  · cases h
    exact ⟨rfl, rfl, rfl, rfl⟩
  split at h
  · cases h
  split at h
  · cases h
  · cases h
    exact ⟨rfl, rfl, rfl, rfl⟩

theorem getNewBlocks_cases {n : Int} (h : ep.getNewBlocks n = .ok (ep', ret)) :
    ∃ pool, ep.toBlockPool.popleftN n = .ok (pool, ret) ∧
      run claimBlock { ep with toBlockPool := pool } ret = .ok ep' := by
  unfold getNewBlocks at h
  split at h
  · cases h
  split at h
  · cases h
  rename_i pool popped hpop
  obtain ⟨last, hclaim, heq⟩ := map_eq_ok h
  cases heq
  exact ⟨pool, hpop, hclaim⟩

theorem touch_same (bs : List BlockId) (h : pool.touch bs = .ok pool') :
    pool'.cached = pool.cached ∧ pool'.blockHash = pool.blockHash ∧
      pool'.extraHashes = pool.extraHashes := by
  induction bs generalizing pool with
  | nil =>
    cases h
    exact ⟨rfl, rfl, rfl⟩
  | cons b bs ih =>
    rw [touch] at h
    split at h
    · split at h
      · have hrest := ih h
        exact hrest
      · cases h
    · have hrest := ih h
      exact hrest

section
variable (indexed : ep.Indexed)
include indexed

theorem Indexed.contain_iff (key : HashKey) (b : BlockId) :
    ep.index.contain key b = true ↔ b ∈ ep.cached key := by
  rw [BlockHashToBlockMap.contain_iff, indexed.agrees]

theorem Indexed.removed_keys (b : BlockId) : (ep.removeCachedBlockHashes b).2 = ep.ownedKeys b := by
  unfold removeCachedBlockHashes
  simp only
  split
  · rename_i hkeys
    exact hkeys.symm
  apply popKeys_found b _ (indexed.exact.keys_nodup b)
  intro key hkey
  rw [indexed.agrees]
  exact (indexed.exact.owns key b).mpr hkey

theorem Indexed.removeCachedBlockHashes (b : BlockId) :
    (ep.removeCachedBlockHashes b).1.Indexed := by
  constructor
  · intro key
    rw [removeCachedBlockHashes_pool, cached_removeCachedBlockHashes, ← indexed.agrees key]
    unfold EventPool.removeCachedBlockHashes
    simp only
    split
    · rename_i hkeys
      rw [hkeys, if_neg not_mem_nil]
    · exact blocks_popKeys b _ (indexed.exact.keys_nodup b) ep.index key
  · rw [removeCachedBlockHashes_pool]
    exact indexed.exact.removeCachedBlockHashes b

theorem Indexed.of_same (hpool : ep'.toBlockPool = ep.toBlockPool)
    (hindex : ep'.index = ep.index) : ep'.Indexed := by
  refine ⟨?_, ?_⟩
  · rw [hindex, hpool]
    exact indexed.agrees
  · rw [hpool]
    exact indexed.exact

theorem Indexed.with_pool (hcached : pool.cached = ep.cached)
    (hhash : pool.blockHash = ep.blockHash) (hextra : pool.extraHashes = ep.extraHashes) :
    ({ ep with toBlockPool := pool } : EventPool).Indexed := by
  refine ⟨?_, indexed.exact.congr hcached hhash hextra⟩
  intro key
  rw [hcached]
  exact indexed.agrees key

theorem Indexed.with_refCnt (refCnt : BlockId → Int) :
    ({ ep with refCnt := refCnt } : EventPool).Indexed :=
  indexed.with_pool rfl rfl rfl

theorem Indexed.maybeEvictCachedBlock (b : BlockId) : (ep.maybeEvictCachedBlock b).Indexed :=
  (indexed.removeCachedBlockHashes b).of_same (emitBlockRemovedEvents_pool _ _)
    (emitBlockRemovedEvents_index _ _)

theorem Indexed.insert_cases (h : ep.insertBlockHash key b n = .ok ep') :
    (b ∈ ep.cached key ∧ ep' = ep) ∨
      ∃ pool, KeyAdded ep.toBlockPool pool key b ∧
        ep' = { ep with toBlockPool := pool, index := ep.index.insert key b } := by
  unfold insertBlockHash at h
  simp only [indexed.contain_iff] at h
  split at h
  · rename_i hold
    cases h
    refine .inl ⟨?_, rfl⟩
    rcases hold with hhash | hmem
    · exact (indexed.exact.owns key b).mpr (mem_ownedKeys.mpr (.inl hhash))
    · exact hmem
  · rename_i hnew
    split at h
    · cases h
    rename_i pool hins
    cases h
    rw [not_or] at hnew
    exact .inr ⟨pool, insertBlockHash_keyAdded indexed.exact hnew.2 hins, rfl⟩

theorem Indexed.keyAdded
    (added : KeyAdded ep.toBlockPool pool key b) :
    ({ ep with toBlockPool := pool, index := ep.index.insert key b } : EventPool).Indexed := by
  refine ⟨?_, added.indexExact indexed.exact⟩
  intro k
  have hfresh : b ∉ ep.index.blocks key := by
    rw [indexed.agrees]
    exact added.fresh
  simp only [added.cached]
  by_cases hk : k = key
  · subst hk
    rw [update_self, blocks_insert_self hfresh, indexed.agrees]
  · rw [update_of_ne hk, blocks_insert_of_ne _ hk, indexed.agrees]

theorem Indexed.insertBlockHash (h : ep.insertBlockHash key b n = .ok ep') : ep'.Indexed := by
  rcases indexed.insert_cases h with ⟨-, rfl⟩ | ⟨pool, added, rfl⟩
  · exact indexed
  · exact indexed.keyAdded added

theorem Indexed.cacheLoop {hashes : List BlockHash} (blocks : List (BlockId × Bool)) {i : Nat}
    {new : List BlockHash}
    (h : EventPool.cacheLoop hashes bs g i blocks ep = .ok (ep', new)) : ep'.Indexed := by
  induction blocks generalizing i ep new with
  | nil =>
    cases h
    exact indexed
  | cons entry rest ih =>
    rw [EventPool.cacheLoop] at h
    split at h
    · exact ih indexed h
    split at h
    · cases h
    split at h
    · cases h
    rename_i mid hblock
    split at h
    · cases h
    rename_i last new' hrest
    cases h
    refine ih ?_ hrest
    rcases (cacheFullBlock_cases hblock).2 with ⟨-, hins⟩ | hins
    · exact indexed.insertBlockHash hins
    · exact (indexed.maybeEvictCachedBlock _).insertBlockHash hins

theorem Indexed.cacheFullBlocks (h : ep.cacheFullBlocks env a = .ok ep') : ep'.Indexed := by
  rcases cacheFullBlocks_cases h with rfl | ⟨-, -, mid, new, hloop, hend⟩
  · exact indexed
  have hmid := indexed.cacheLoop _ hloop
  rcases hend with ⟨-, rfl⟩ | ⟨-, parent, extraKeys, -, rfl⟩
  · exact hmid
  · exact hmid.of_same rfl rfl

theorem Indexed.cachePartialHash_cases (h : ep.cachePartialHash env r b n g hash = .ok ep') :
    (b ∈ ep.cached (makeBlockHashWithGroupId hash g) ∧ ep' = ep) ∨
      (b ∉ ep.cached (makeBlockHashWithGroupId hash g) ∧
        ∃ base mid len, (base = ep ∨ base = ep.maybeEvictCachedBlock b) ∧
          base.insertBlockHash (makeBlockHashWithGroupId hash g) b len = .ok mid ∧
          ((mid.enableKvCacheEvents = false ∧ ep' = mid) ∨
            (mid.enableKvCacheEvents = true ∧ ∃ parent start stop size extra,
              ep' = mid.emitBlockStored
                (storedEvent r parent start stop size [hash] (some [extra]) g)))) := by
  unfold cachePartialHash at h
  simp only at h
  split at h
  · cases h
  rename_i mid hins
  by_cases hold : b ∈ ep.cached (makeBlockHashWithGroupId hash g)
  · have hcached : ep.index.contain (makeBlockHashWithGroupId hash g) b = true :=
      (indexed.contain_iff _ b).mpr hold
    simp only [hcached, Bool.or_true, Bool.not_true, Bool.false_and, Bool.and_false,
      Bool.false_eq_true, if_false] at h hins
    cases h
    refine .inl ⟨hold, ?_⟩
    rcases indexed.insert_cases hins with ⟨-, hsame⟩ | ⟨pool, added, -⟩
    · exact hsame
    · exact absurd hold added.fresh
  · have hcached : ep.index.contain (makeBlockHashWithGroupId hash g) b = false :=
      Bool.eq_false_iff.mpr fun heq => hold ((indexed.contain_iff _ b).mp heq)
    have hhash : ep.blockHash b ≠ some (makeBlockHashWithGroupId hash g) := fun heq =>
      hold ((indexed.exact.owns _ b).mpr (mem_ownedKeys.mpr (.inl heq)))
    refine .inr ⟨hold, _, mid, _, ?_, hins, ?_⟩
    · split
      · exact .inr rfl
      · exact .inl rfl
    · simp only [hcached, hhash, decide_false, Bool.or_false, Bool.not_false, Bool.and_true] at h
      split at h
      · rename_i hon
        cases h
        exact .inr ⟨hon, _, _, _, _, _, rfl⟩
      · rename_i hoff
        cases h
        exact .inl ⟨Bool.eq_false_iff.mpr hoff, rfl⟩

theorem Indexed.cachePartialBlock (h : ep.cachePartialBlock env r b n g bs = .ok ep') :
    ep'.Indexed := by
  rcases cachePartialBlock_cases h with rfl | ⟨-, hash, hpart⟩
  · exact indexed
  rcases indexed.cachePartialHash_cases hpart with ⟨-, rfl⟩ | ⟨-, base, mid, len, hbase, hins, hend⟩
  · exact indexed
  have hbaseIndexed : base.Indexed := by
    rcases hbase with rfl | rfl
    · exact indexed
    · exact indexed.maybeEvictCachedBlock b
  have hmid := hbaseIndexed.insertBlockHash hins
  rcases hend with ⟨-, rfl⟩ | ⟨-, parent, start, stop, size, extra, rfl⟩
  · exact hmid
  · exact hmid.of_same rfl rfl

/-- The claimed blocks lose all keys when caching is enabled, and none gets one. -/
theorem claimBlocks_indexed (bs : List BlockId) (h : run claimBlock ep bs = .ok ep') :
    ep'.Indexed ∧ (∀ b, ep.ownedKeys b = [] → ep'.ownedKeys b = []) ∧
      (ep.enableCaching = true → ∀ b ∈ bs, ep'.ownedKeys b = []) := by
  induction bs generalizing ep with
  | nil =>
    cases h
    exact ⟨indexed, fun _ hb => hb, nofun⟩
  | cons b bs ih =>
    obtain ⟨_, hone, hrest⟩ := run_cons h
    rw [claimBlock_cases hone] at hrest
    by_cases hcaching : ep.enableCaching = true
    · rw [evictIfCaching, if_pos hcaching] at hrest
      have hevict := indexed.maybeEvictCachedBlock b
      have hpool := maybeEvictCachedBlock_pool ep b
      have hconfig : (ep.maybeEvictCachedBlock b).enableCaching = true := by
        rw [hpool, (removeCachedBlockHashes_same ep.toBlockPool b).config]
        exact hcaching
      obtain ⟨hlast, hkeep, hclaimed⟩ := ih (hevict.with_refCnt _) hrest
      have hkeys := (congrArg ownedKeys hpool).trans
        (ownedKeys_removeCachedBlockHashes ep.toBlockPool b)
      have hself : ep'.ownedKeys b = [] := hkeep b ((congrFun hkeys b).trans (update_self ..))
      refine ⟨hlast, ?_, ?_⟩
      · intro c hc
        by_cases hcb : c = b
        · exact hcb ▸ hself
        · exact hkeep c ((congrFun hkeys c).trans ((update_of_ne hcb ..).trans hc))
      · intro _ c hc
        rcases mem_cons.mp hc with rfl | hc
        · exact hself
        · exact hclaimed hconfig c hc
    · rw [evictIfCaching, if_neg hcaching] at hrest
      obtain ⟨hlast, hkeep, -⟩ := ih (indexed.with_refCnt _) hrest
      exact ⟨hlast, hkeep, fun hyes => absurd hyes hcaching⟩

theorem Indexed.getNewBlocks {n : Int} (h : ep.getNewBlocks n = .ok (ep', ret)) :
    ep'.Indexed ∧ (ep.enableCaching = true → ∀ b ∈ ret, ep'.ownedKeys b = []) := by
  obtain ⟨pool, hpop, hclaim⟩ := getNewBlocks_cases h
  obtain ⟨hconfig, hcached, hhash, hextra⟩ := popleftN_same hpop
  have hpopped := indexed.with_pool hcached hhash hextra
  obtain ⟨hlast, -, hclaimed⟩ := claimBlocks_indexed hpopped ret hclaim
  refine ⟨hlast, fun hcaching => hclaimed ?_⟩
  rw [hconfig]
  exact hcaching

theorem Indexed.resetPrefixCache : ep.resetPrefixCache.Indexed := by
  unfold EventPool.resetPrefixCache
  split
  · rename_i hreset
    have hpool : ep.toBlockPool.resetPrefixCache.1 =
        { ep.toBlockPool with
          cached := fun _ => []
          extraHashes := fun _ => []
          blockHash := fun _ => none
          blockHashNumTokens := fun _ => none } := by
      unfold BlockPool.resetPrefixCache at hreset ⊢
      split at hreset
      · cases hreset
      · rename_i hfree
        rw [if_neg hfree]
    rw [hpool]
    exact ⟨fun _ => rfl, fun _ _ => iff_of_false not_mem_nil not_mem_nil,
      fun _ => nodup_nil, fun _ => nodup_nil, fun _ _ => rfl⟩
  · exact indexed

theorem Indexed.step (op : PoolOp) (h : ep.step env op = .ok ep') : ep'.Indexed := by
  cases op with
  | getNewBlocks n =>
    obtain ⟨result, hnew, rfl⟩ := map_eq_ok h
    exact (indexed.getNewBlocks hnew).1
  | touch blocks =>
    obtain ⟨pool, htouch, rfl⟩ := map_eq_ok h
    obtain ⟨hcached, hhash, hextra⟩ := touch_same blocks htouch
    exact indexed.with_pool hcached hhash hextra
  | freeBlocks ordered =>
    cases h
    exact ⟨indexed.agrees, indexed.exact.congr rfl rfl rfl⟩
  | cacheFullBlocks a => exact indexed.cacheFullBlocks h
  | cachePartialBlock r b n g bs => exact indexed.cachePartialBlock h
  | evictBlocks bs => exact evictBlocks_rule Indexed (fun b h => h.maybeEvictCachedBlock b) indexed h
  | resetPrefixCache =>
    cases h
    exact indexed.resetPrefixCache

end

/-! ### Runs -/

def Reachable (env : HashEnv) (cfg : PoolConfig) (events : Bool) : EventPool → Prop :=
  Reaches (step env) (fun _ _ => True) (create cfg events)

theorem Reachable.indexed (h : Reachable env cfg events ep) : ep.Indexed :=
  Reaches.invariant (create_indexed cfg events) (fun _ op _ indexed _ hstep =>
    indexed.step op hstep) h

/-- The three structures of the prefix cache are inverse to each other in every reachable
state, and with caching enabled a new block owns no key. -/
theorem reachable_indexExact {env : HashEnv} {cfg : PoolConfig} {events : Bool}
    (h : Reachable env cfg events ep) :
    (∀ key b, b ∈ ep.index.blocks key ↔
        ep.blockHash b = some key ∨ key ∈ ep.extraHashes b) ∧
      (∀ b, ep.blockHash b = none → ∀ key, b ∉ ep.index.blocks key) ∧
      (ep.enableCaching = true → ∀ n ep' ret, ep.getNewBlocks n = .ok (ep', ret) →
        ∀ b ∈ ret, ∀ key, b ∉ ep'.index.blocks key) := by
  have indexed := h.indexed
  refine ⟨?_, ?_, ?_⟩
  · intro key b
    rw [indexed.agrees, indexed.exact.owns, mem_ownedKeys]
  · intro b hnone key
    rw [indexed.agrees, indexed.exact.owns, indexed.exact.ownedKeys_of_unhashed hnone]
    exact not_mem_nil
  · intro hcaching n ep' ret hnew b hb key
    obtain ⟨hlast, hclaimed⟩ := indexed.getNewBlocks hnew
    rw [hlast.agrees, hlast.exact.owns, hclaimed hcaching b hb]
    exact not_mem_nil

theorem Reachable.run (ops : List PoolOp)
    (h : Run.run (step env) (create cfg events) ops = .ok ep) :
    Reachable env cfg events ep :=
  Reaches.start.run ops (fun _ _ _ => trivial) h

def twoFullBlocks (blocks : List BlockId) : FullBlocks where
  request := { allTokenIds := [1, 2, 3, 4], blockHashes := [[7], [8]] }
  blocks := blocks
  numCached := 0
  numFull := 2
  blockSize := 2
  groupId := 0

theorem reachable_indexExact_cached :
    ∃ ep, Reachable listingEnv ⟨4, true, 2⟩ false ep ∧
      1 ∈ ep.index.blocks (makeBlockHashWithGroupId [7] 0) ∧
      ∀ n ep' ret, ep.getNewBlocks n = .ok (ep', ret) →
        ∀ b ∈ ret, ∀ key, b ∉ ep'.index.blocks key := by
  have hrun : (run (step listingEnv) (create ⟨4, true, 2⟩ false)
      [.getNewBlocks 2, .cacheFullBlocks (twoFullBlocks [1, 2])]).map (fun ep =>
        (ep.enableCaching, ep.index.blocks (makeBlockHashWithGroupId [7] 0))) =
      .ok (true, [1]) := by decide +kernel
  obtain ⟨ep, hstate, hview⟩ := map_eq_ok hrun
  obtain ⟨hcaching, hblocks⟩ := Prod.mk.inj hview
  have hreach : Reachable listingEnv ⟨4, true, 2⟩ false ep := Reachable.run _ hstate
  refine ⟨ep, hreach, ?_, (reachable_indexExact hreach).2.2 hcaching⟩
  rw [hblocks]
  exact mem_singleton.mpr rfl

/-- A pool without caching does not evict: a block that was cached in it is handed out with
its keys. -/
theorem uncached_pool_hands_out_key :
    ∃ ep ep' ret, Reachable listingEnv ⟨3, false, 2⟩ false ep ∧
      ep.getNewBlocks 1 = .ok (ep', ret) ∧
      ∃ b ∈ ret, b ∈ ep'.index.blocks (makeBlockHashWithGroupId [8] 0) := by
  have hrun : (run (step listingEnv) (create ⟨3, false, 2⟩ false)
      [.getNewBlocks 2, .cacheFullBlocks (twoFullBlocks [1, 2]), .freeBlocks [2, 1]]).map
        (fun ep => (ep.getNewBlocks 1).map fun new =>
          (new.2, new.1.index.blocks (makeBlockHashWithGroupId [8] 0))) =
      .ok (.ok ([2], [2])) := by decide +kernel
  obtain ⟨ep, hstate, hview⟩ := map_eq_ok hrun
  obtain ⟨⟨ep', ret⟩, hget, hblocks⟩ := map_eq_ok hview
  obtain ⟨rfl, hblocks⟩ := Prod.mk.inj hblocks
  refine ⟨ep, ep', [2], Reachable.run _ hstate, hget, 2, mem_singleton.mpr rfl, ?_⟩
  rw [hblocks]
  exact mem_singleton.mpr rfl

end EventPool

end Vllm.KVCache
