import Vllm.KVCache.Manager
import Vllm.KVCache.PoolSound

/-! The operations of one manager keep the accounting of the pool: `frame` stands for the
references held by other groups and by popped requests. -/
namespace Vllm.KVCache
open BlockPool List

namespace ManagerState

def others (st : ManagerState) (r : ReqId) : List BlockId :=
  ListDict.flat (st.reqToBlocks.erase r)

theorem held_perm (st : ManagerState) (r : ReqId) : st.held.Perm (st.blocksOf r ++ st.others r) :=
  ListDict.flat_perm st.reqToBlocks r

@[simp] theorem held_setBlocks (st : ManagerState) (r : ReqId) (blocks : List BlockId) :
    (st.setBlocks r blocks).held = blocks ++ st.others r :=
  ListDict.flat_insert st.reqToBlocks r blocks

@[simp] theorem blocksOf_setBlocks (st : ManagerState) (r : ReqId) (blocks : List BlockId) :
    (st.setBlocks r blocks).blocksOf r = blocks :=
  ListDict.get_insert st.reqToBlocks r blocks

end ManagerState

variable {new : List BlockId}

section
variable {pool pool' : BlockPool} {st st' : ManagerState} {frame : List BlockId} {r : ReqId}

theorem BlockPool.Sound.split (sound : pool.Sound (st.held ++ frame)) (r : ReqId) :
    pool.Sound (st.blocksOf r ++ (st.others r ++ frame)) := by
  refine sound.perm ?_
  rw [← append_assoc]
  exact (st.held_perm r).append_right frame

theorem BlockPool.Sound.blocksOf_live (sound : pool.Sound (st.held ++ frame)) (r : ReqId) :
    ∀ b ∈ st.blocksOf r, b = nullBlock ∨ pool.IsLive b := by
  intro b hb
  exact (sound.split r).held_live b (mem_append_left _ hb)

/-- The table of a request may be replaced by one with the same non-null references. -/
theorem BlockPool.Sound.setBlocks {old : List BlockId}
    (sound : pool.Sound (old ++ (st.others r ++ frame)))
    (hcount : ∀ b ≠ nullBlock, new.count b = old.count b) :
    pool.Sound ((st.setBlocks r new).held ++ frame) := by
  rw [ManagerState.held_setBlocks, append_assoc]
  refine sound.congr fun b hb => ?_
  simp only [count_append, hcount b hb]

end

namespace Manager

section
variable {m : Manager} {pool pool' : BlockPool} {st st' : ManagerState} {frame : List BlockId}
  {r : ReqId}

/-! ### The three allocation phases -/

variable {b x : BlockId} {i numExternal numTokens numLocal : Nat} {blocks : List BlockId}

theorem count_localTable (m : Manager) (newComputed : List BlockId) (total : Nat)
    (hb : b ≠ nullBlock) :
    (m.localTable newComputed total).count b = (m.keptHits newComputed total).count b := by
  rw [localTable, count_append, count_replicate, if_neg, Nat.zero_add]
  simpa using fun h : nullBlock = b => hb h.symm

theorem localTable_length (m : Manager) (newComputed : List BlockId) (total : Nat) :
    (m.localTable newComputed total).length =
      max (m.numSkippedBlocks total).toNat newComputed.length := by
  rw [localTable, length_append, length_replicate, keptHits, length_drop]
  omega

variable {newComputed : List BlockId} {retention : Option Nat} {request : Request}
  {numTokensMain : Nat}

theorem addLocalComputedBlocks_cases
    (h : m.addLocalComputedBlocks pool st r newComputed numLocal numExternal = .ok (pool', st')) :
    (m.spec.kind = .crossAttention ∧ newComputed = [] ∧ pool' = pool ∧ st' = st) ∨
      (m.spec.kind ≠ .crossAttention ∧ st.blocksOf r = [] ∧
        pool.touch (m.keptHits newComputed (numLocal + numExternal)) = .ok pool' ∧
        st' = (st.setBlocks r (m.localTable newComputed (numLocal + numExternal))).setNumCached r
          (m.localTable newComputed (numLocal + numExternal)).length) := by
  unfold addLocalComputedBlocks at h
  by_cases hcross : m.spec.kind = .crossAttention
  · rw [if_pos hcross] at h
    split at h
    · cases h
    · rename_i hnil
      cases h
      exact .inl ⟨hcross, by push Not at hnil; exact hnil, rfl, rfl⟩
  · rw [if_neg hcross] at h
    simp only at h
    split at h
    · cases h
    rename_i hempty
    push Not at hempty
    refine .inr ⟨hcross, hempty, ?_⟩
    split at h
    · split at h
      · cases h
      · rename_i htouch
        cases h
        exact ⟨htouch, rfl⟩
    · split at h
      · cases h
      rename_i hnil
      push Not at hnil
      cases h
      rw [hnil]
      exact ⟨rfl, rfl⟩

theorem addLocalComputedBlocks_sound (sound : pool.Sound (st.held ++ frame))
    (hlive : ∀ b ∈ newComputed, b = nullBlock ∨ pool.IsLive b)
    (h : m.addLocalComputedBlocks pool st r newComputed numLocal numExternal = .ok (pool', st')) :
    pool'.Sound (st'.held ++ frame) ∧ pool'.toPoolConfig = pool.toPoolConfig := by
  rcases addLocalComputedBlocks_cases h with ⟨-, -, rfl, rfl⟩ | ⟨-, hempty, htouch, rfl⟩
  · exact ⟨sound, rfl⟩
  have hsplit := sound.split r
  rw [hempty] at hsplit
  obtain ⟨pool₁, htouch₁, touched⟩ :=
    touch_sound (m.keptHits newComputed (numLocal + numExternal)) hsplit
      fun b hb => hlive b (mem_of_mem_drop hb)
  rw [htouch] at htouch₁
  cases htouch₁
  exact ⟨touched.sound.setBlocks fun b hb => m.count_localTable newComputed _ hb, touched.config⟩

theorem numSkippedBlocks_le_div {total n : Nat} (h : m.getNumSkippedTokens total ≤ n) :
    m.numSkippedBlocks total ≤ ((n / m.blockSize : Nat) : Int) := by
  rw [numSkippedBlocks, Int.natCast_ediv]
  rcases Nat.eq_zero_or_pos m.blockSize with hzero | hpos
  · rw [hzero, Int.natCast_zero, Int.ediv_zero, Int.ediv_zero]
  · exact Int.ediv_le_ediv (Int.natCast_pos.mpr hpos) h

/-- The skipped blocks end before the computed tokens do. -/
theorem numSkippedBlocks_le {total : Nat} (h : m.getNumSkippedTokens total ≤ total) :
    (m.numSkippedBlocks total).toNat ≤ PySeq.cdiv total m.blockSize := by
  have hdiv := numSkippedBlocks_le_div h
  have hcdiv := PySeq.div_le_cdiv total m.blockSize
  omega

/-- A table that is extended by blocks taken from the pool. -/
theorem extend_sound (sound : pool.Sound (st.held ++ frame)) {n : Int} (hn : 0 ≤ n)
    (h : pool.getNewBlocks n = .ok (pool', new))
    (hcount : ∀ b ≠ nullBlock, blocks.count b = (st.blocksOf r).count b) :
    pool'.Sound ((st.setBlocks r (blocks ++ new)).held ++ frame) ∧
      pool'.toPoolConfig = pool.toPoolConfig := by
  have taken := getNewBlocks_taken (sound.split r) hn h
  refine ⟨?_, taken.config⟩
  have hsound : pool'.Sound ((new ++ st.blocksOf r) ++ (st.others r ++ frame)) := by
    rw [append_assoc]
    exact taken.sound
  refine hsound.setBlocks fun b hb => ?_
  rw [count_append, count_append, hcount b hb, Nat.add_comm]

theorem getNumSkippedTokens_le_of_inWindow (h : 0 < m.externalInWindow numLocal numExternal) :
    m.getNumSkippedTokens (numLocal + numExternal) ≤ (numLocal + numExternal : Nat) := by
  unfold externalInWindow at h
  simp only at h
  split at h <;> omega

/-- External tokens need blocks; the count is not negative when the hits fit. -/
theorem allocateExternalComputedBlocks_sound (sound : pool.Sound (st.held ++ frame))
    (hfit : m.spec.kind ≠ .crossAttention → 0 < m.externalInWindow numLocal numExternal →
      (st.blocksOf r).length ≤ PySeq.cdiv (numLocal + numExternal) m.blockSize)
    (h : m.allocateExternalComputedBlocks pool st r numLocal numExternal = .ok (pool', st')) :
    pool'.Sound (st'.held ++ frame) ∧ pool'.toPoolConfig = pool.toPoolConfig := by
  unfold allocateExternalComputedBlocks at h
  simp only at h
  split at h
  · cases h
    exact ⟨sound, rfl⟩
  rename_i hcross
  split at h
  · cases h
    exact ⟨sound, rfl⟩
  have hlen := hfit hcross (by omega)
  split at h
  · cases h
  · rename_i hget
    cases h
    exact extend_sound sound (by omega) hget fun b _ => rfl

theorem baseAllocateNewBlocks_sound (sound : pool.Sound (st.held ++ frame))
    (h : m.baseAllocateNewBlocks pool st r numTokens = .ok (pool', st', new)) :
    pool'.Sound (st'.held ++ frame) ∧ pool'.toPoolConfig = pool.toPoolConfig := by
  unfold baseAllocateNewBlocks at h
  simp only at h
  split at h
  · cases h
    exact ⟨sound, rfl⟩
  split at h
  · cases h
  · rename_i hget
    cases h
    exact extend_sound sound (by omega) hget fun b _ => rfl

theorem count_moved (hget : blocks[i]? = some x) (hb : b ≠ nullBlock) :
    ((blocks ++ [x]).set i nullBlock).count b = blocks.count b := by
  obtain ⟨hlt, hx⟩ := List.getElem?_eq_some_iff.mp hget
  have hne : ¬ (nullBlock == b) = true := by simpa using fun h : nullBlock = b => hb h.symm
  have hset : (blocks ++ [x]).set i nullBlock = blocks.set i nullBlock ++ [x] :=
    set_append_left i nullBlock hlt
  rw [hset, count_append, count_set hlt, if_neg hne, hx, count_singleton]
  by_cases hxb : x = b
  · subst hxb
    have hpos : 0 < blocks.count x := count_pos_iff.mpr (mem_of_getElem? hget)
    rw [if_pos (beq_self_eq_true x)]
    omega
  · have hbeq : ¬ (x == b) = true := by simpa using hxb
    rw [if_neg hbeq, Nat.sub_zero, Nat.add_zero]

/-- The loop over the speculative blocks keeps the non-null references. -/
theorem reuseSpeculative_spec {numSkipped : Nat} (k i : Nat) {moved : List BlockId}
    (h : reuseSpeculative numSkipped i k blocks = .ok moved) :
    moved.length = blocks.length + min k (numSkipped - i) ∧
      ∀ b ≠ nullBlock, moved.count b = blocks.count b := by
  induction k generalizing i blocks with
  | zero =>
    cases h
    simp
  | succ k ih =>
    rw [reuseSpeculative] at h
    split at h
    · split at h
      · cases h
      rename_i hlt x hget
      obtain ⟨hlen, hcount⟩ := ih (i + 1) h
      rw [length_set, length_append, length_singleton] at hlen
      refine ⟨by omega, fun b hb => ?_⟩
      rw [hcount b hb, count_moved hget hb]
    · cases h
      refine ⟨by omega, fun b _ => rfl⟩

theorem alignAllocateNewBlocks_sound (sound : pool.Sound (st.held ++ frame)) {numSpec : Nat}
    (h : m.alignAllocateNewBlocks numSpec pool st r numTokensMain = .ok (pool', st', new)) :
    pool'.Sound (st'.held ++ frame) ∧ pool'.toPoolConfig = pool.toPoolConfig := by
  unfold alignAllocateNewBlocks at h
  simp only at h
  generalize hblocks : st.blocksOf r = blocks at h
  generalize hreq : PySeq.cdiv numTokensMain m.blockSize + numSpec = required at h
  split at h
  · cases h
    exact ⟨sound, rfl⟩
  generalize hpadded : blocks ++ replicate (required - numSpec - 1 - blocks.length) nullBlock =
    padded at h
  have hpadlen : padded.length = blocks.length + (required - numSpec - 1 - blocks.length) := by
    rw [← hpadded, length_append, length_replicate]
  have hpadcount : ∀ b ≠ nullBlock, padded.count b = blocks.count b := by
    intro b hb
    rw [← hpadded, count_append, count_replicate, if_neg, Nat.add_zero]
    simpa using fun h : nullBlock = b => hb h.symm
  split at h
  · cases h
  rename_i moved hmoved
  -- either way the table ends before the required length
  have hspec : moved.length ≤ required ∧ ∀ b ≠ nullBlock, moved.count b = blocks.count b := by
    split at hmoved
    · obtain ⟨hlen, hcount⟩ := reuseSpeculative_spec numSpec _ hmoved
      exact ⟨by omega, fun b hb => (hcount b hb).trans (hpadcount b hb)⟩
    · cases hmoved
      exact ⟨by omega, hpadcount⟩
  generalize (if st.allocatedBlockReqs r = true then 1 else (numSpec : Int) + 1) = limit at h
  split at h
  · cases h
  split at h
  · cases h
  rename_i hget
  cases h
  exact extend_sound sound (by omega) hget fun b hb => by rw [hspec.2 b hb, hblocks]

theorem allocateNewBlocks_sound (sound : pool.Sound (st.held ++ frame))
    (h : m.allocateNewBlocks pool st r numTokens numTokensMain = .ok (pool', st', new)) :
    pool'.Sound (st'.held ++ frame) ∧ pool'.toPoolConfig = pool.toPoolConfig := by
  unfold allocateNewBlocks at h
  split at h
  · split at h
    · exact alignAllocateNewBlocks_sound sound h
    · exact baseAllocateNewBlocks_sound sound h
  · exact baseAllocateNewBlocks_sound sound h

/-! ### Caching -/

/-- Caching leaves the block tables as they are. -/
theorem cacheBlocks_cases
    (h : m.cacheBlocks pool st request numTokens retention = .ok (pool', st')) :
    (pool' = pool ∧ st' = st) ∨
      ∃ mask keys, pool.cacheFullBlocks request.blockHashes (st.blocksOf request.requestId)
          ((st.numCachedBlock request.requestId).getD 0) (numTokens / m.blockSize) m.blockSize
          m.kvCacheGroupId mask = .ok pool' ∧
        st' = { st.setNumCached request.requestId (numTokens / m.blockSize) with
          cachedBlocksThisStep := keys } := by
  unfold cacheBlocks at h
  simp only at h
  split at h
  · cases h
  split at h
  · cases h
    exact .inl ⟨rfl, rfl⟩
  split at h
  · cases h
  split at h
  · cases h
  rename_i mask _ _ _ hcache
  refine .inr ⟨mask, ?_⟩
  split at h
  · cases h
    exact ⟨_, hcache, rfl⟩
  · cases h
    exact ⟨_, hcache, rfl⟩

theorem cacheBlocks_sound (sound : pool.Sound (st.held ++ frame))
    (h : m.cacheBlocks pool st request numTokens retention = .ok (pool', st')) :
    pool'.Sound (st'.held ++ frame) ∧ pool'.toPoolConfig = pool.toPoolConfig := by
  rcases cacheBlocks_cases h with ⟨rfl, rfl⟩ | ⟨mask, keys, hcache, rfl⟩
  · exact ⟨sound, rfl⟩
  obtain ⟨same, hsound⟩ :=
    cacheFullBlocks_sound sound (sound.blocksOf_live request.requestId) hcache
  exact ⟨hsound, same.config⟩

/-! ### Freeing -/

theorem count_cleared (hget : blocks[i]? = some x) (hb : b ≠ nullBlock) :
    (x :: blocks.set i nullBlock).count b = blocks.count b := by
  obtain ⟨hlt, -⟩ := List.getElem?_eq_some_iff.mp hget
  have hset : (blocks ++ [x]).set i nullBlock = blocks.set i nullBlock ++ [x] :=
    set_append_left i nullBlock hlt
  rw [← count_moved hget hb, hset]
  exact (perm_append_singleton x _).symm.count_eq b

theorem removeBackward_count (first i : Nat) (blocks : List BlockId) (hb : b ≠ nullBlock) :
    ((removeBackward first i blocks).2 ++ (removeBackward first i blocks).1).count b =
      blocks.count b := by
  induction i generalizing blocks with
  | zero => rfl
  | succ i ih =>
    rw [removeBackward]
    split
    · rfl
    rename_i x hget
    split
    · rfl
    · simp only [cons_append]
      rw [← count_cleared hget hb, count_cons, count_cons, ih]

section
variable (sound : pool.Sound (st.held ++ frame))
include sound

theorem removeBlocksInRange_sound (first last : Nat) :
    (removeBlocksInRange pool st r first last).1.Sound
      ((removeBlocksInRange pool st r first last).2.held ++ frame) := by
  unfold removeBlocksInRange
  simp only
  generalize hremoved : removeBackward first (min last (st.blocksOf r).length) (st.blocksOf r) =
    removed
  have hsound : pool.Sound (removed.2 ++ (removed.1 ++ (st.others r ++ frame))) := by
    rw [← append_assoc]
    refine (sound.split r).congr fun b hb => ?_
    have hcount := removeBackward_count first (min last (st.blocksOf r).length) (st.blocksOf r) hb
    rw [hremoved] at hcount
    rw [count_append, hcount, ← count_append]
  exact (freeBlocks_sound hsound).setBlocks fun b _ => rfl

theorem baseRemoveSkippedBlocks_sound (numComputed : Nat) :
    (m.baseRemoveSkippedBlocks pool st r numComputed).1.Sound
      ((m.baseRemoveSkippedBlocks pool st r numComputed).2.held ++ frame) ∧
      (m.baseRemoveSkippedBlocks pool st r numComputed).1.toPoolConfig = pool.toPoolConfig := by
  unfold baseRemoveSkippedBlocks
  split
  · exact ⟨sound, rfl⟩
  · exact ⟨removeBlocksInRange_sound sound 0 _, rfl⟩

theorem clearBlock_sound (hget : (st.blocksOf r)[i]? = some x) :
    (pool.freeBlocks [x]).Sound ((st.setBlocks r ((st.blocksOf r).set i nullBlock)).held ++ frame) := by
  have hsound : pool.Sound ([x] ++ ((st.blocksOf r).set i nullBlock ++ (st.others r ++ frame))) := by
    refine (sound.split r).congr fun b hb => ?_
    have hcount := count_cleared hget hb
    simp only [count_append, singleton_append, count_cons] at hcount ⊢
    omega
  exact (freeBlocks_sound hsound).setBlocks fun b _ => rfl

theorem removeSkippedBlocks_sound {totalComputed : Nat} {numPrompt : Option Nat}
    (h : m.removeSkippedBlocks pool st r totalComputed numPrompt = .ok (pool', st')) :
    pool'.Sound (st'.held ++ frame) ∧ pool'.toPoolConfig = pool.toPoolConfig := by
  unfold removeSkippedBlocks at h
  split at h
  · split at h
    · have hbase := baseRemoveSkippedBlocks_sound (m := m) (r := r) sound totalComputed
      rw [Except.ok.inj h] at hbase
      exact hbase
    · cases h
      exact ⟨removeBlocksInRange_sound sound _ _, rfl⟩
  · rename_i mode numSpec _
    have hbase := baseRemoveSkippedBlocks_sound (m := m) (r := r) sound (totalComputed - numSpec)
    simp only at h
    split at h
    · cases h
      exact hbase
    split at h
    · split at h
      · cases h
      rename_i hget
      split at h
      · cases h
        exact hbase
      · cases h
        exact ⟨clearBlock_sound hbase.1 hget, hbase.2⟩
    · cases h
      exact hbase
  · have hbase := baseRemoveSkippedBlocks_sound (m := m) (r := r) sound totalComputed
    rw [Except.ok.inj h] at hbase
    exact hbase

end

end
end Manager

section
variable {pool : BlockPool} {st : ManagerState} {frame : List BlockId}

theorem ManagerState.popBlocksForFree_perm (st : ManagerState) (r : ReqId) :
    st.held.Perm ((st.popBlocksForFree r).2 ++ (st.popBlocksForFree r).1.held) :=
  st.held_perm r

theorem ManagerState.free_sound (sound : pool.Sound (st.held ++ frame)) (r : ReqId) :
    (st.free pool r).1.Sound ((st.free pool r).2.held ++ frame) := by
  refine freeBlocks_sound (sound.perm ?_)
  rw [← append_assoc]
  refine ((st.popBlocksForFree_perm r).trans ?_).append_right frame
  exact (reverse_perm _).symm.append_right _

end
end Vllm.KVCache
