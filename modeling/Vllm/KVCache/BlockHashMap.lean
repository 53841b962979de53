import Vllm.KVCache.BlockPool

/-! `BlockHashToBlockMap` (`vllm/v1/core/block_pool.py`): a key holds one block, or a dict of
blocks once there has been a second one. -/
namespace Vllm.KVCache
open List Function

/-- The value of a key. A dict of blocks is the list of its block ids in insertion order. -/
inductive KVCacheBlocks
  | one (b : BlockId)
  | many (bs : List BlockId)
  deriving DecidableEq, Repr

variable {b : BlockId}

namespace KVCacheBlocks

def toList : KVCacheBlocks → List BlockId
  | one b => [b]
  | many bs => bs

def insert : KVCacheBlocks → BlockId → KVCacheBlocks
  | one b₀, b => many (if b = b₀ then [b₀] else [b₀, b])
  | many bs, b => many (if b ∈ bs then bs else bs ++ [b])

def remove : KVCacheBlocks → BlockId → Option KVCacheBlocks
  | one b₀, b => if b₀ = b then none else some (one b₀)
  | many bs, b => if bs.erase b = [] then none else some (many (bs.erase b))

theorem toList_insert {v : KVCacheBlocks} (h : b ∉ v.toList) :
    (v.insert b).toList = v.toList ++ [b] := by
  cases v with
  | one b₀ =>
    have hne : b ≠ b₀ := fun heq => h (heq ▸ mem_singleton.mpr rfl)
    exact if_neg hne
  | many bs => exact if_neg h

theorem toList_remove (v : KVCacheBlocks) (b : BlockId) :
    (v.remove b).elim [] toList = v.toList.erase b := by
  cases v with
  | one b₀ =>
    by_cases heq : b₀ = b
    · subst heq
      simp [remove, toList]
    · rw [remove, if_neg heq, toList, erase_cons_tail (by simpa using heq)]
      rfl
  | many bs =>
    rw [remove]
    split
    · rename_i hnil
      exact hnil.symm
    · rfl

end KVCacheBlocks

structure BlockHashToBlockMap where
  cache : HashKey → Option KVCacheBlocks := fun _ => none

namespace BlockHashToBlockMap

def blocks (map : BlockHashToBlockMap) (key : HashKey) : List BlockId :=
  (map.cache key).elim [] KVCacheBlocks.toList

def getOneBlock (map : BlockHashToBlockMap) (key : HashKey) : Option BlockId :=
  match map.cache key with
  | none => none
  | some (.one b) => some b
  | some (.many bs) => bs.head?

def contain (map : BlockHashToBlockMap) (key : HashKey) (b : BlockId) : Bool :=
  match map.cache key with
  | none => false
  | some (.one b₀) => decide (b₀ = b)
  | some (.many bs) => decide (b ∈ bs)

def insert (map : BlockHashToBlockMap) (key : HashKey) (b : BlockId) : BlockHashToBlockMap :=
  ⟨update map.cache key (some ((map.cache key).elim (.one b) (·.insert b)))⟩

/-- `pop`, with whether a block was found. -/
def pop (map : BlockHashToBlockMap) (key : HashKey) (b : BlockId) : BlockHashToBlockMap × Bool :=
  match map.cache key with
  | none => (map, false)
  | some v => (⟨update map.cache key (v.remove b)⟩, decide (b ∈ v.toList))

variable (map : BlockHashToBlockMap) (key : HashKey)

theorem contain_iff (b : BlockId) : map.contain key b = true ↔ b ∈ map.blocks key := by
  unfold contain blocks
  cases map.cache key with
  | none => exact iff_of_false Bool.false_ne_true not_mem_nil
  | some v =>
    cases v with
    | one b₀ =>
      rw [decide_eq_true_iff]
      exact eq_comm.trans mem_singleton.symm
    | many bs => exact decide_eq_true_iff

theorem blocks_insert_self {map : BlockHashToBlockMap} {key : HashKey} (h : b ∉ map.blocks key) :
    (map.insert key b).blocks key = map.blocks key ++ [b] := by
  unfold blocks at h
  simp only [blocks, insert, update_self]
  cases hv : map.cache key with
  | none => rfl
  | some v =>
    rw [hv] at h
    exact KVCacheBlocks.toList_insert h

theorem blocks_insert_of_ne {key key' : HashKey} (h : key' ≠ key) (b : BlockId) :
    (map.insert key b).blocks key' = map.blocks key' := by
  simp only [blocks, insert, update_of_ne h]

theorem blocks_pop_self (b : BlockId) :
    (map.pop key b).1.blocks key = (map.blocks key).erase b := by
  unfold pop blocks
  cases hv : map.cache key with
  | none =>
    simp only [hv]
    rfl
  | some v =>
    simp only [update_self]
    exact v.toList_remove b

theorem blocks_pop_of_ne {key key' : HashKey} (h : key' ≠ key) (b : BlockId) :
    (map.pop key b).1.blocks key' = map.blocks key' := by
  unfold pop blocks
  cases map.cache key with
  | none => rfl
  | some v => simp only [update_of_ne h]

theorem pop_found (b : BlockId) : (map.pop key b).2 = true ↔ b ∈ map.blocks key := by
  unfold pop blocks
  cases map.cache key with
  | none => exact iff_of_false Bool.false_ne_true not_mem_nil
  | some v => exact decide_eq_true_iff

end BlockHashToBlockMap
end Vllm.KVCache
