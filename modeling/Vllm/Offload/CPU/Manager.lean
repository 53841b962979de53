import Vllm.Lib.Run
import Vllm.Offload.CPU.PolicyLaws

/-! The CPU offloading manager (`kv_offload/cpu/manager.py`), for any cache policy. Its metrics are
left out. -/
namespace Vllm.Offload.CPU
open CachePolicy

structure OffloadingEvent (K : Type) where
  keys : List K
  removed : Bool
  deriving DecidableEq, Repr

inductive LookupResult
  | miss
  | hit
  | hitPending
  | retry
  deriving DecidableEq, Repr

structure PrepareStoreOutput (K : Type) where
  keysToStore : List K
  blockIds : List Nat
  evictedKeys : List K
  deriving DecidableEq, Repr

structure CPUOffloadingManager (K σ : Type) where
  numBlocks : Nat
  numAllocatedBlocks : Nat := 0
  freeList : List Nat := []
  events : Option (List (OffloadingEvent K))
  policy : σ
  numEvictableCacheBlocks : Int := 0
  storeThreshold : Nat
  maxTrackerSize : Int
  counts : Option (Dict K Nat)

namespace CPUOffloadingManager

variable {K σ : Type} [DecidableEq K] [CachePolicy K σ]

def new (numBlocks : Nat) (policy : σ) (enableEvents : Bool) (storeThreshold : Nat)
    (maxTrackerSize : Int) : CPUOffloadingManager K σ where
  numBlocks := numBlocks
  events := if enableEvents then some [] else none
  policy := policy
  storeThreshold := storeThreshold
  maxTrackerSize := maxTrackerSize
  counts := if 2 ≤ storeThreshold then some ∅ else none

/-! ### The block pool -/

def getNumFreeBlocks (m : CPUOffloadingManager K σ) : Int :=
  m.freeList.length + m.numBlocks - m.numAllocatedBlocks

/-- `_allocate_blocks`: fresh slots first, then slots from the end of the free list. -/
def allocateBlocks (m : CPUOffloadingManager K σ) (n : Nat) :
    Except Error (List Nat × CPUOffloadingManager K σ) :=
  let numFresh : Int := min n (m.numBlocks - m.numAllocatedBlocks)
  let numReused : Int := n - numFresh
  if (m.freeList.length : Int) < numReused then .error .assertion
  else
    .ok (List.range' m.numAllocatedBlocks numFresh.toNat ++
        m.freeList.reverse.take numReused.toNat,
      { m with
        numAllocatedBlocks := m.numAllocatedBlocks + numFresh.toNat
        freeList := (m.freeList.reverse.drop numReused.toNat).reverse })

/-! ### Lookups and loads -/

/-- The part of `lookup` that counts how often a key was asked for. -/
def countLookup (m : CPUOffloadingManager K σ) (key : K) :
    Except Error (CPUOffloadingManager K σ) :=
  match m.counts with
  | none => .ok m
  | some counts =>
    match counts.lookup key with
    | some n => .ok { m with counts := some (Dict.setItem (Dict.moveToEnd counts key) key (n + 1)) }
    | none =>
      if m.maxTrackerSize ≤ counts.keys.length then
        if counts.keys = [] then .error .key
        else .ok { m with counts := some (Dict.setItem (Dict.popFirst counts) key 1) }
      else .ok { m with counts := some (Dict.setItem counts key 1) }

def lookup (m : CPUOffloadingManager K σ) (key : K) :
    Except Error (LookupResult × CPUOffloadingManager K σ) :=
  match m.countLookup key with
  | .error e => .error e
  | .ok m =>
    match CachePolicy.get m.policy key with
    | none => .ok (.miss, m)
    | some block => .ok (if block.isReady then .hit else .hitPending, m)

def loadOne (m : CPUOffloadingManager K σ) (key : K) :
    Except Error (Nat × CPUOffloadingManager K σ) :=
  match CachePolicy.get m.policy key with
  | none => .error .assertion
  | some block =>
    let refCnt := int32 (block.refCnt + 1)
    if block.isReady = false then .error .assertion
    else if block.refCnt = 0 then
      match markNonEvictable m.policy key with
      | .error e => .error e
      | .ok policy =>
        if m.numEvictableCacheBlocks - 1 < 0 then .error .assertion
        else
          .ok (block.blockId,
            { m with
              policy := setRef policy key refCnt
              numEvictableCacheBlocks := m.numEvictableCacheBlocks - 1 })
    else .ok (block.blockId, { m with policy := setRef m.policy key refCnt })

def prepareLoad : List K → CPUOffloadingManager K σ →
    Except Error (List Nat × CPUOffloadingManager K σ)
  | [], m => .ok ([], m)
  | key :: keys, m =>
    match m.loadOne key with
    | .error e => .error e
    | .ok (blockId, m) =>
      match prepareLoad keys m with
      | .error e => .error e
      | .ok (blockIds, m) => .ok (blockId :: blockIds, m)

def touch (m : CPUOffloadingManager K σ) (keys : List K) : CPUOffloadingManager K σ :=
  { m with policy := CachePolicy.touch m.policy keys }

def unloadOne (m : CPUOffloadingManager K σ) (key : K) : Except Error (CPUOffloadingManager K σ) :=
  match CachePolicy.get m.policy key with
  | none => .error .assertion
  | some block =>
    let refCnt := int32 (block.refCnt - 1)
    if ¬ 0 < block.refCnt then .error .assertion
    else if refCnt = 0 then
      .ok { m with
        numEvictableCacheBlocks := m.numEvictableCacheBlocks + 1
        policy := markEvictable (setRef m.policy key refCnt) key }
    else .ok { m with policy := setRef m.policy key refCnt }

def completeLoad (keys : List K) (m : CPUOffloadingManager K σ) :
    Except Error (CPUOffloadingManager K σ) :=
  Run.run unloadOne m keys

/-! ### Stores -/

def emit (m : CPUOffloadingManager K σ) (keys : List K) (removed : Bool) :
    CPUOffloadingManager K σ :=
  if keys = [] then m else { m with events := m.events.map (· ++ [⟨keys, removed⟩]) }

def frequent (m : CPUOffloadingManager K σ) (keys : List K) : List K :=
  match m.counts with
  | none => keys
  | some counts => keys.filter fun key => m.storeThreshold ≤ (counts.lookup key).getD 0

def makeRoom (m : CPUOffloadingManager K σ) (numBlocksToEvict : Int) (isProtected : List K) :
    Except Error (Option (List K × CPUOffloadingManager K σ)) :=
  if numBlocksToEvict ≤ 0 then .ok (some ([], m))
  else if m.numEvictableCacheBlocks < numBlocksToEvict then .ok none
  else
    match evict m.policy numBlocksToEvict.toNat isProtected with
    | .error e => .error e
    | .ok none => .ok none
    | .ok (some (evicted, policy)) =>
      if m.numEvictableCacheBlocks - evicted.length < 0 then .error .assertion
      else
        .ok (some (evicted.map Prod.fst,
          { m with
            policy
            numEvictableCacheBlocks := m.numEvictableCacheBlocks - evicted.length
            freeList := m.freeList ++ evicted.map (·.2.blockId) }))

def insertAll (m : CPUOffloadingManager K σ) (blocks : List (K × Nat)) : CPUOffloadingManager K σ :=
  { m with
    policy := blocks.foldl (fun p e => CachePolicy.insert p e.1 { blockId := e.2 }) m.policy }

def storeNew (m : CPUOffloadingManager K σ) (keysToStore evictedKeys : List K) :
    Except Error (PrepareStoreOutput K × CPUOffloadingManager K σ) :=
  match (m.emit evictedKeys true).allocateBlocks keysToStore.length with
  | .error e => .error e
  | .ok (blockIds, m) =>
    if blockIds.length ≠ keysToStore.length then .error .assertion
    else .ok (⟨keysToStore, blockIds, evictedKeys⟩, m.insertAll (keysToStore.zip blockIds))

def prepareStore (m : CPUOffloadingManager K σ) (keys : List K) :
    Except Error (Option (PrepareStoreOutput K) × CPUOffloadingManager K σ) :=
  let keys := m.frequent keys
  let keysToStore := keys.filter fun key => (CachePolicy.get m.policy key).isNone
  if keysToStore = [] then .ok (some ⟨[], [], []⟩, m)
  else
    match m.makeRoom (keysToStore.length - m.getNumFreeBlocks) keys with
    | .error e => .error e
    | .ok none => .ok (none, m)
    | .ok (some (evictedKeys, m)) =>
      match m.storeNew keysToStore evictedKeys with
      | .error e => .error e
      | .ok (output, m) => .ok (some output, m)

def storedOne (acc : List K × CPUOffloadingManager K σ) (key : K) :
    List K × CPUOffloadingManager K σ :=
  let (storedKeys, m) := acc
  match CachePolicy.get m.policy key with
  | none => acc
  | some block =>
    if block.isReady then acc
    else
      (storedKeys ++ [key],
        { m with
          policy := markEvictable (setRef m.policy key 0) key
          numEvictableCacheBlocks := m.numEvictableCacheBlocks + 1 })

def unstoredOne (m : CPUOffloadingManager K σ) (key : K) :
    Except Error (CPUOffloadingManager K σ) :=
  match CachePolicy.get m.policy key with
  | none => .ok m
  | some block =>
    if block.isReady then .ok m
    else
      match remove m.policy key with
      | .error e => .error e
      | .ok policy => .ok { m with policy, freeList := m.freeList ++ [block.blockId] }

def completeStore (m : CPUOffloadingManager K σ) (keys : List K) (success : Bool) :
    Except Error (CPUOffloadingManager K σ) :=
  if success then
    let (storedKeys, m) := keys.foldl storedOne ([], m)
    .ok (m.emit storedKeys false)
  else Run.run unstoredOne m keys

/-! ### Reset and events -/

def resetCache (m : CPUOffloadingManager K σ) : CPUOffloadingManager K σ :=
  { m with
    policy := clear m.policy
    numEvictableCacheBlocks := 0
    freeList := []
    numAllocatedBlocks := 0 }

def takeEvents (m : CPUOffloadingManager K σ) :
    List (OffloadingEvent K) × CPUOffloadingManager K σ :=
  (m.events.getD [], { m with events := m.events.map fun _ => [] })

end CPUOffloadingManager
end Vllm.Offload.CPU
