import Vllm.KVCache.BlockPool

/-! The accounting of the block pool: reference counts and the free queue against the list of
all references held by requests. -/
namespace Vllm.KVCache
open RefCount List Function Except

namespace BlockPool

variable {pool pool' : BlockPool} {held held' : List BlockId}

def IsLive (pool : BlockPool) (b : BlockId) : Prop := b ≠ nullBlock ∧ b < pool.numGpuBlocks

structure Hashed (pool : BlockPool) : Prop where
  nodup : ∀ key, (pool.cached key).Nodup
  hash_eq : ∀ key, ∀ b ∈ pool.cached key, pool.blockHash b = some key
  no_extra : ∀ b, pool.extraHashes b = []

/-- `held` is the list of all references outside the pool. -/
structure Sound (pool : BlockPool) (held : List BlockId) : Prop where
  balanced : Balanced pool.IsLive pool.freeQueue pool.refCnt held
  numFree : pool.numFreeBlocks = pool.freeQueue.length
  held_live : ∀ b ∈ held, b = nullBlock ∨ pool.IsLive b
  cached_live : ∀ key, ∀ b ∈ pool.cached key, pool.IsLive b
  hashed : pool.Hashed

theorem create_sound (cfg : PoolConfig) (hpos : 0 < cfg.numGpuBlocks) : (create cfg).Sound [] := by
  have hmem : ∀ b, b ∈ (range cfg.numGpuBlocks).tail ↔ (create cfg).IsLive b := by
    intro b
    rw [mem_iff_getElem?]
    simp only [getElem?_tail, create]
    constructor
    · rintro ⟨i, hi⟩
      have hget := List.getElem?_eq_some_iff.mp hi
      obtain ⟨hlt, rfl⟩ := hget
      simp only [length_range] at hlt
      simp only [getElem_range]
      exact ⟨Nat.succ_ne_zero i, hlt⟩
    · rintro ⟨hne, hlt⟩
      refine ⟨b - 1, ?_⟩
      rw [Nat.sub_add_cancel (Nat.pos_of_ne_zero hne)]
      simp [hlt]
  refine ⟨⟨fun b hb => (hmem b).mp hb, ?_, fun b _ => rfl⟩, ?_, by simp, by simp [create],
    ⟨fun _ => nodup_nil, by simp [create], fun _ => rfl⟩⟩
  · intro b hb
    have hnodup : (range cfg.numGpuBlocks).tail.Nodup := nodup_range.sublist (tail_sublist _)
    exact count_eq_one_of_mem hnodup ((hmem b).mpr hb)
  · simp only [create, length_tail, length_range]
    omega

theorem Sound.perm (sound : pool.Sound held) (h : held.Perm held') : pool.Sound held' :=
  ⟨sound.balanced.perm h, sound.numFree, fun b hb => sound.held_live b (h.mem_iff.mpr hb),
    sound.cached_live, sound.hashed⟩

/-- References to the null block are not counted. -/
theorem Sound.congr (sound : pool.Sound held)
    (h : ∀ b, b ≠ nullBlock → held'.count b = held.count b) : pool.Sound held' := by
  refine ⟨sound.balanced.congr fun b hb => h b hb.1, sound.numFree, ?_, sound.cached_live,
    sound.hashed⟩
  intro b hb
  by_cases hnull : b = nullBlock
  · exact .inl hnull
  · refine sound.held_live b (count_pos_iff.mp ?_)
    rw [← h b hnull]
    exact count_pos_iff.mpr hb

/-- What the operations on the prefix cache leave alone. -/
structure SameAccounts (pool pool' : BlockPool) : Prop where
  config : pool'.toPoolConfig = pool.toPoolConfig
  refCnt : pool'.refCnt = pool.refCnt
  freeQueue : pool'.freeQueue = pool.freeQueue
  numFree : pool'.numFreeBlocks = pool.numFreeBlocks

theorem SameAccounts.refl (pool : BlockPool) : SameAccounts pool pool :=
  ⟨rfl, rfl, rfl, rfl⟩

theorem SameAccounts.trans {pool'' : BlockPool} (h : SameAccounts pool pool')
    (h' : SameAccounts pool' pool'') : SameAccounts pool pool'' :=
  ⟨h'.config.trans h.config, h'.refCnt.trans h.refCnt, h'.freeQueue.trans h.freeQueue,
    h'.numFree.trans h.numFree⟩

theorem isLive_of_config (h : pool'.toPoolConfig = pool.toPoolConfig) :
    pool'.IsLive = pool.IsLive := by
  funext b
  simp only [IsLive, h]

theorem Sound.of_sameAccounts (sound : pool.Sound held) (same : SameAccounts pool pool')
    (hcached : ∀ key, ∀ b ∈ pool'.cached key, pool.IsLive b) (hhashed : pool'.Hashed) :
    pool'.Sound held := by
  have hlive := isLive_of_config same.config
  refine ⟨?_, ?_, ?_, ?_, hhashed⟩
  · rw [hlive, same.freeQueue, same.refCnt]
    exact sound.balanced
  · rw [same.numFree, same.freeQueue]
    exact sound.numFree
  · rw [hlive]
    exact sound.held_live
  · rw [hlive]
    exact hcached

/-! ### The prefix cache -/

theorem removeCachedBlockHashes_same (pool : BlockPool) (b : BlockId) :
    SameAccounts pool (pool.removeCachedBlockHashes b) := by
  unfold removeCachedBlockHashes
  simp only
  split
  · exact .refl pool
  · exact ⟨rfl, rfl, rfl, rfl⟩

variable {b : BlockId} {key : HashKey} {n blockSize : Nat} {groupId : GroupId} {bs : List BlockId}
  {pool : BlockPool} {hashes : List BlockHash}

theorem mem_cached_of_removeCachedBlockHashes {c : BlockId}
    (h : c ∈ (pool.removeCachedBlockHashes b).cached key) : c ∈ pool.cached key := by
  unfold removeCachedBlockHashes at h
  simp only at h
  split at h
  · exact h
  simp only [popKeys] at h
  split at h
  · exact mem_of_mem_erase h
  · exact h

theorem blockHash_removeCachedBlockHashes (pool : BlockPool) (b : BlockId) :
    (pool.removeCachedBlockHashes b).blockHash b = none := by
  unfold removeCachedBlockHashes
  simp only
  split
  · rename_i hkeys
    rw [append_eq_nil_iff, Option.toList_eq_nil_iff] at hkeys
    exact hkeys.1
  · exact update_self b none pool.blockHash

theorem Hashed.removeCachedBlockHashes (hashed : pool.Hashed) (b : BlockId) :
    (pool.removeCachedBlockHashes b).Hashed := by
  unfold BlockPool.removeCachedBlockHashes
  simp only [hashed.no_extra b, append_nil]
  split
  · exact hashed
  refine ⟨?_, ?_, ?_⟩
  · intro key
    simp only [popKeys]
    split
    · exact (hashed.nodup key).erase b
    · exact hashed.nodup key
  · intro key c hc
    simp only [popKeys] at hc
    have hne : c ≠ b := by
      rintro rfl
      split at hc
      · exact (hashed.nodup key).not_mem_erase hc
      · rename_i hkey
        exact hkey (Option.mem_toList.mpr (hashed.hash_eq key c hc))
    have hmem : c ∈ pool.cached key := by
      split at hc
      · exact mem_of_mem_erase hc
      · exact hc
    simp only [update_of_ne hne]
    exact hashed.hash_eq key c hmem
  · intro c
    by_cases hc : c = b
    · subst hc
      exact update_self c [] pool.extraHashes
    · simp only [update_of_ne hc]
      exact hashed.no_extra c

theorem Sound.removeCachedBlockHashes (sound : pool.Sound held) (b : BlockId) :
    (pool.removeCachedBlockHashes b).Sound held :=
  sound.of_sameAccounts (removeCachedBlockHashes_same pool b)
    (fun key c hc => sound.cached_live key c (mem_cached_of_removeCachedBlockHashes hc))
    (sound.hashed.removeCachedBlockHashes b)

theorem insertBlockHash_same (h : pool.insertBlockHash key b n = .ok pool') :
    SameAccounts pool pool' ∧ ∀ k, ∀ c ∈ pool'.cached k, c ∈ pool.cached k ∨ c = b := by
  have hupdate : ∀ k, ∀ c ∈ update pool.cached key (pool.cached key ++ [b]) k,
      c ∈ pool.cached k ∨ c = b := by
    intro k c hc
    by_cases hk : k = key
    · subst hk
      rw [update_self] at hc
      exact (mem_append.mp hc).imp_right mem_singleton.mp
    · rw [update_of_ne hk] at hc
      exact .inl hc
  unfold insertBlockHash at h
  split at h
  · obtain rfl := ok.inj h
    exact ⟨.refl pool, fun k c hc => .inl hc⟩
  split at h
  · split at h
    · cases h
    · cases h
      exact ⟨⟨rfl, rfl, rfl, rfl⟩, hupdate⟩
  · cases h
    exact ⟨⟨rfl, rfl, rfl, rfl⟩, hupdate⟩

theorem Hashed.insertBlockHash (hashed : pool.Hashed) (hnone : pool.blockHash b = none)
    (h : pool.insertBlockHash key b n = .ok pool') : pool'.Hashed := by
  have hfresh : ∀ k, b ∉ pool.cached k := by
    intro k hb
    rw [hashed.hash_eq k b hb] at hnone
    cases hnone
  unfold BlockPool.insertBlockHash at h
  split at h
  · cases h
    exact hashed
  simp only [hnone] at h
  split at h
  · cases h
  cases h
  refine ⟨?_, ?_, hashed.no_extra⟩
  · intro k
    by_cases hk : k = key
    · subst hk
      simp only [update_self, ← concat_eq_append]
      exact (hashed.nodup k).concat (hfresh k)
    · simp only [update_of_ne hk]
      exact hashed.nodup k
  · intro k c hc
    by_cases hk : k = key
    · subst hk
      simp only [update_self] at hc
      rcases mem_append.mp hc with hold | hnew
      · have hne : c ≠ b := fun heq => hfresh k (heq ▸ hold)
        simp only [update_of_ne hne]
        exact hashed.hash_eq k c hold
      · obtain rfl := mem_singleton.mp hnew
        simp only [update_self]
    · simp only [update_of_ne hk] at hc
      have hne : c ≠ b := fun heq => hfresh k (heq ▸ hc)
      simp only [update_of_ne hne]
      exact hashed.hash_eq k c hc

theorem Sound.insertBlockHash (sound : pool.Sound held) (hb : pool.IsLive b)
    (hnone : pool.blockHash b = none) (h : pool.insertBlockHash key b n = .ok pool') :
    pool'.Sound held := by
  obtain ⟨same, hcached⟩ := insertBlockHash_same h
  refine sound.of_sameAccounts same (fun k c hc => ?_) (sound.hashed.insertBlockHash hnone h)
  rcases hcached k c hc with hold | rfl
  · exact sound.cached_live k c hold
  · exact hb

theorem cacheFullBlock_sound (sound : pool.Sound held) {hash : BlockHash} (hb : pool.IsLive b)
    (h : pool.cacheFullBlock groupId hash n b = .ok pool') :
    SameAccounts pool pool' ∧ pool'.Sound held := by
  unfold cacheFullBlock at h
  split at h
  · rename_i hnone
    exact ⟨(insertBlockHash_same h).1, sound.insertBlockHash hb hnone h⟩
  split at h
  · split at h
    · have hremoved := removeCachedBlockHashes_same pool b
      have hlive : (pool.removeCachedBlockHashes b).IsLive b := by
        rw [isLive_of_config hremoved.config]
        exact hb
      exact ⟨hremoved.trans (insertBlockHash_same h).1,
        (sound.removeCachedBlockHashes b).insertBlockHash hlive
          (blockHash_removeCachedBlockHashes pool b) h⟩
    · cases h
  · cases h

theorem cacheLoop_sound (rest : List (BlockId × Bool)) (i : Nat) (sound : pool.Sound held)
    (hlive : ∀ p ∈ rest, p.1 = nullBlock ∨ pool.IsLive p.1)
    (h : cacheLoop hashes blockSize groupId i rest pool = .ok pool') :
    SameAccounts pool pool' ∧ pool'.Sound held := by
  induction rest generalizing i pool with
  | nil =>
    obtain rfl := ok.inj h
    exact ⟨.refl pool, sound⟩
  | cons p rest ih =>
    obtain ⟨b, reachable⟩ := p
    have hrest : ∀ p ∈ rest, p.1 = nullBlock ∨ pool.IsLive p.1 :=
      fun p hp => hlive p (mem_cons_of_mem _ hp)
    rw [cacheLoop] at h
    split at h
    · exact ih (i + 1) sound hrest h
    rename_i hskip
    split at h
    · cases h
    split at h
    · cases h
    rename_i pool₁ hcache
    have hb : pool.IsLive b := (hlive (b, reachable) mem_cons_self).resolve_left
      fun hnull => hskip (.inl hnull)
    obtain ⟨same₁, sound₁⟩ := cacheFullBlock_sound sound hb hcache
    obtain ⟨same, sound'⟩ := ih (i + 1) sound₁
      (by rw [isLive_of_config same₁.config]; exact hrest) h
    exact ⟨same₁.trans same, sound'⟩

theorem cacheFullBlocks_sound (sound : pool.Sound held) {blocks : List BlockId}
    {numCached numFull : Nat} {mask : Option (List Bool)}
    (hlive : ∀ b ∈ blocks, b = nullBlock ∨ pool.IsLive b)
    (h : pool.cacheFullBlocks hashes blocks numCached numFull blockSize groupId mask = .ok pool') :
    SameAccounts pool pool' ∧ pool'.Sound held := by
  unfold cacheFullBlocks at h
  simp only at h
  split at h
  · obtain rfl := ok.inj h
    exact ⟨.refl pool, sound⟩
  split at h
  · cases h
  split at h
  · cases h
  split at h
  · cases h
  · refine cacheLoop_sound _ _ sound ?_ h
    intro p hp
    exact hlive p.1 (mem_of_mem_take (mem_of_mem_drop (of_mem_zip hp).1))

theorem evictBlocks_sound (bs : List BlockId) (sound : pool.Sound held)
    (h : pool.evictBlocks bs = .ok pool') :
    pool'.Sound held ∧ pool'.toPoolConfig = pool.toPoolConfig := by
  refine Run.run_rule (fun _ p => p.Sound held ∧ p.toPoolConfig = pool.toPoolConfig)
    (fun {b _ p _} hp hone => ?_) ⟨sound, rfl⟩ h
  split at hone
  · cases hone
  · cases hone
    exact ⟨hp.1.removeCachedBlockHashes b, (removeCachedBlockHashes_same p b).config.trans hp.2⟩

theorem resetPrefixCache_sound (sound : pool.Sound held) :
    pool.resetPrefixCache.1.Sound held ∧
      pool.resetPrefixCache.1.toPoolConfig = pool.toPoolConfig := by
  unfold resetPrefixCache
  split
  · exact ⟨sound, rfl⟩
  · exact ⟨sound.of_sameAccounts ⟨rfl, rfl, rfl, rfl⟩ nofun
      ⟨fun _ => nodup_nil, nofun, fun _ => rfl⟩, rfl⟩

/-! ### Allocation -/

theorem evictIfCaching_same (pool : BlockPool) (b : BlockId) :
    SameAccounts pool (pool.evictIfCaching b) := by
  unfold evictIfCaching
  split
  · exact removeCachedBlockHashes_same pool b
  · exact .refl pool

/-- Claiming popped blocks only counts them and drops their hashes. -/
theorem claimBlocks_spec (bs : List BlockId) (h : Run.run claimBlock pool bs = .ok pool') :
    pool'.toPoolConfig = pool.toPoolConfig ∧ pool'.refCnt = retain pool.refCnt bs ∧
      pool'.freeQueue = pool.freeQueue ∧ pool'.numFreeBlocks = pool.numFreeBlocks ∧
      (∀ key, ∀ b ∈ pool'.cached key, b ∈ pool.cached key) ∧ (pool.Hashed → pool'.Hashed) := by
  refine Run.run_rule (fun rest p => p.toPoolConfig = pool.toPoolConfig ∧
    retain p.refCnt rest = retain pool.refCnt bs ∧ p.freeQueue = pool.freeQueue ∧
    p.numFreeBlocks = pool.numFreeBlocks ∧ (∀ key, ∀ b ∈ p.cached key, b ∈ pool.cached key) ∧
    (pool.Hashed → p.Hashed)) (fun {b _ p _} hp hone => ?_)
    ⟨rfl, rfl, rfl, rfl, fun _ _ hb => hb, id⟩ h
  obtain ⟨hcfg, hcnt, hqueue, hnum, hmem, hkeep⟩ := hp
  have hsame := evictIfCaching_same p b
  have hcached : ∀ key, ∀ c ∈ (p.evictIfCaching b).cached key, c ∈ p.cached key := by
    intro key c hc
    unfold evictIfCaching at hc
    split at hc
    · exact mem_cached_of_removeCachedBlockHashes hc
    · exact hc
  have hhashed : p.Hashed → (p.evictIfCaching b).Hashed := by
    intro hashed
    unfold evictIfCaching
    split
    · exact hashed.removeCachedBlockHashes b
    · exact hashed
  unfold claimBlock at hone
  dsimp only at hone
  split at hone
  · cases hone
  cases hone
  refine ⟨hsame.config.trans hcfg, ?_, hsame.freeQueue.trans hqueue, hsame.numFree.trans hnum,
    fun key c hc => hmem key c (hcached key c hc), fun hashed => { hhashed (hkeep hashed) with }⟩
  rw [hsame.refCnt]
  exact hcnt

theorem claimBlocks_ok (bs : List BlockId) (pool : BlockPool) (hnodup : bs.Nodup)
    (hzero : ∀ b ∈ bs, pool.refCnt b = 0) : ∃ pool', Run.run claimBlock pool bs = .ok pool' := by
  induction bs generalizing pool with
  | nil => exact ⟨pool, rfl⟩
  | cons b bs ih =>
    have hsame := (evictIfCaching_same pool b).refCnt
    rw [Run.run, claimBlock, if_neg (by rw [hsame]; exact fun h => h (hzero b mem_cons_self))]
    refine ih _ (nodup_cons.mp hnodup).2 ?_
    intro c hc
    have hne : c ≠ b := fun h => (nodup_cons.mp hnodup).1 (h ▸ hc)
    simp only [hsame, retain, update_of_ne hne]
    exact hzero c (mem_cons_of_mem b hc)

variable {n : Int}

/-- What is popped is a front part of the queue, also when the count is not positive. -/
theorem popleftN_spec {ret : List BlockId} (h : pool.popleftN n = .ok (pool', ret)) :
    pool'.toPoolConfig = pool.toPoolConfig ∧ pool'.refCnt = pool.refCnt ∧
      pool.freeQueue = ret ++ pool'.freeQueue ∧ ret.length = n.toNat ∧
      pool'.numFreeBlocks = pool.numFreeBlocks - n ∧ pool'.cached = pool.cached ∧
      (pool.Hashed → pool'.Hashed) := by
  unfold popleftN at h
  by_cases hzero : n = 0
  · rw [if_pos hzero] at h
    obtain ⟨rfl, rfl⟩ := Prod.mk.inj (ok.inj h)
    exact ⟨rfl, rfl, rfl, by simp [hzero], by omega, rfl, id⟩
  · rw [if_neg hzero] at h
    split at h
    · cases h
    split at h
    · cases h
    rename_i hlong
    obtain ⟨rfl, rfl⟩ := Prod.mk.inj (ok.inj h)
    refine ⟨rfl, rfl, (take_append_drop _ _).symm, ?_, rfl, rfl, fun hashed => { hashed with }⟩
    rw [length_take]
    exact Nat.min_eq_left (Nat.le_of_not_lt hlong)

/-- The new blocks come from the front of the queue and were referenced by nobody. -/
structure Taken (pool pool' : BlockPool) (held bs : List BlockId) (n : Int) : Prop where
  sound : pool'.Sound (bs ++ held)
  config : pool'.toPoolConfig = pool.toPoolConfig
  length : bs.length = n.toNat
  queue : pool.freeQueue = bs ++ pool'.freeQueue
  live : ∀ b ∈ bs, pool.IsLive b
  unowned : ∀ b ∈ bs, b ∉ held
  cached : ∀ key, ∀ b ∈ pool'.cached key, b ∈ pool.cached key

theorem getNewBlocks_cases (h : pool.getNewBlocks n = .ok (pool', bs)) :
    ∃ pool₁, pool.popleftN n = .ok (pool₁, bs) ∧ Run.run claimBlock pool₁ bs = .ok pool' := by
  unfold getNewBlocks at h
  split at h
  · cases h
  split at h
  · cases h
  rename_i pool₁ ret hpop
  obtain ⟨pool₂, hclaim, heq⟩ := Run.map_eq_ok h
  cases heq
  exact ⟨pool₁, hpop, hclaim⟩

theorem getNewBlocks_length (h : pool.getNewBlocks n = .ok (pool', bs)) : bs.length = n.toNat := by
  obtain ⟨pool₁, hpop, -⟩ := getNewBlocks_cases h
  exact (popleftN_spec hpop).2.2.2.1

theorem getNewBlocks_taken (sound : pool.Sound held) (hn : 0 ≤ n)
    (h : pool.getNewBlocks n = .ok (pool', bs)) : Taken pool pool' held bs n := by
  obtain ⟨pool₁, hpop, hclaim⟩ := getNewBlocks_cases h
  obtain ⟨hcfg, hcnt, hqueue, hnum, hcached, hhashed⟩ := claimBlocks_spec bs hclaim
  obtain ⟨hcfg₁, hcnt₁, hqueue₁, hlen, hnum₁, hcached₁, hhashed₁⟩ := popleftN_spec hpop
  have hbal := sound.balanced
  rw [hqueue₁] at hbal
  have hlive : ∀ b ∈ bs, pool.IsLive b := fun b hb => hbal.mem_live b (mem_append_left _ hb)
  have hcfg' := hcfg.trans hcfg₁
  have hlive' := isLive_of_config hcfg'
  refine ⟨⟨?_, ?_, ?_, ?_, hhashed (hhashed₁ sound.hashed)⟩, hcfg', hlen, ?_, hlive, ?_, ?_⟩
  · rw [hlive', hqueue, hcnt, hcnt₁]
    exact hbal.take bs pool₁.freeQueue
  · have hfree := sound.numFree
    rw [hqueue₁, length_append] at hfree
    rw [hqueue]
    omega
  · rw [hlive']
    intro b hb
    exact (mem_append.mp hb).elim (fun hb => .inr (hlive b hb)) (sound.held_live b)
  · rw [hlive']
    intro key b hb
    exact sound.cached_live key b (hcached₁ ▸ hcached key b hb)
  · rw [hqueue]
    exact hqueue₁
  · intro b hb hheld
    have hqueued := hbal.queued b (hlive b hb)
    have hpos : 0 < held.count b := count_pos_iff.mpr hheld
    have hpos' : 0 < (bs ++ pool₁.freeQueue).count b := count_pos_iff.mpr (mem_append_left _ hb)
    rw [if_neg (by omega)] at hqueued
    omega
  · intro key b hb
    exact hcached₁ ▸ hcached key b hb

theorem getNewBlocks_ok (sound : pool.Sound held) (hn : 0 ≤ n) (hfree : n ≤ pool.numFreeBlocks) :
    ∃ pool' bs, pool.getNewBlocks n = .ok (pool', bs) := by
  have hlen := sound.numFree
  unfold getNewBlocks
  rw [if_neg (by omega)]
  unfold popleftN
  by_cases hzero : n = 0
  · rw [if_pos hzero]
    exact ⟨pool, [], rfl⟩
  rw [if_neg hzero, if_neg (by omega), if_neg (by omega)]
  simp only
  have hnodup := sound.balanced.nodup
  obtain ⟨pool', hclaim⟩ := claimBlocks_ok (pool.freeQueue.take n.toNat)
    { pool with
      numFreeBlocks := pool.numFreeBlocks - n
      freeQueue := pool.freeQueue.drop n.toNat }
    (hnodup.sublist (take_sublist _ _)) (fun b hb => by
      have hmem := mem_of_mem_take hb
      exact (sound.balanced.mem_iff (sound.balanced.mem_live b hmem)).mp hmem)
  rw [hclaim]
  exact ⟨pool', _, rfl⟩

/-- What `touch` leaves alone, and the counts it changes. -/
structure Touched (pool pool' : BlockPool) (held bs : List BlockId) : Prop where
  sound : pool'.Sound (bs ++ held)
  config : pool'.toPoolConfig = pool.toPoolConfig
  refCnt : pool'.refCnt = retain pool.refCnt bs
  cached : pool'.cached = pool.cached
  blockHash : pool'.blockHash = pool.blockHash

def shared (pool : BlockPool) (b : BlockId) : BlockPool :=
  { pool with
    refCnt := retain pool.refCnt [b]
    freeQueue := pool.freeQueue.erase b
    numFreeBlocks := (pool.freeQueue.erase b).length }

theorem Sound.mem_freeQueue (sound : pool.Sound held) (hb : b = nullBlock ∨ pool.IsLive b) :
    b ∈ pool.freeQueue ↔ pool.refCnt b = 0 ∧ b ≠ nullBlock := by
  refine ⟨fun hmem => ?_, fun hfree => (sound.balanced.mem_iff (hb.resolve_left hfree.2)).mpr hfree.1⟩
  have hlive := sound.balanced.mem_live b hmem
  exact ⟨(sound.balanced.mem_iff hlive).mp hmem, hlive.1⟩

theorem Sound.share (sound : pool.Sound held) (hb : b = nullBlock ∨ pool.IsLive b) :
    (pool.shared b).Sound (b :: held) := by
  refine ⟨sound.balanced.share b, rfl, ?_, sound.cached_live, { sound.hashed with }⟩
  intro c hc
  rcases mem_cons.mp hc with rfl | hc
  · exact hb
  · exact sound.held_live c hc

/-- One step of `touch`, with the queue as if the block were always removed from it. -/
theorem touch_cons (sound : pool.Sound held) (hb : b = nullBlock ∨ pool.IsLive b)
    (bs : List BlockId) : pool.touch (b :: bs) = (pool.shared b).touch bs := by
  have hmem := sound.mem_freeQueue hb
  have hnum := sound.numFree
  rw [touch, shared]
  by_cases hfree : pool.refCnt b = 0 ∧ b ≠ nullBlock
  · have hlen := length_erase_of_mem (hmem.mpr hfree)
    have hpos := length_pos_of_mem (hmem.mpr hfree)
    rw [if_pos hfree, if_pos (hmem.mpr hfree)]
    congr 2
    omega
  · rw [if_neg hfree, erase_of_not_mem (mt hmem.mp hfree), ← hnum]

theorem touch_sound (bs : List BlockId) {held : List BlockId} (sound : pool.Sound held)
    (hlive : ∀ b ∈ bs, b = nullBlock ∨ pool.IsLive b) :
    ∃ pool', pool.touch bs = .ok pool' ∧ Touched pool pool' held bs := by
  induction bs generalizing pool held with
  | nil => exact ⟨pool, rfl, sound, rfl, rfl, rfl, rfl⟩
  | cons b bs ih =>
    have hb := hlive b mem_cons_self
    rw [touch_cons sound hb]
    obtain ⟨pool', hok, touched⟩ := ih (sound.share hb) (fun c hc => hlive c (mem_cons_of_mem b hc))
    refine ⟨pool', hok, ?_, touched.config, ?_, touched.cached, touched.blockHash⟩
    · refine touched.sound.perm ?_
      exact perm_middle
    · rw [touched.refCnt]
      rfl

theorem freeBlocks_queue (pool : BlockPool) (bs : List BlockId) :
    (pool.freeBlocks bs).freeQueue.Perm
      ((release pool.refCnt bs).2.filter (· ≠ nullBlock) ++ pool.freeQueue) := by
  generalize hfreed : (release pool.refCnt bs).2.filter (· ≠ nullBlock) = freed
  have hsplit := filter_append_perm (fun b => (pool.blockHash b).isNone) freed
  simp only [freeBlocks, hfreed]
  rw [append_assoc]
  refine (perm_append_comm.append_left _).trans ?_
  rw [← append_assoc]
  exact hsplit.append_right _

/-- Freed references leave the accounts; blocks without references are queued again. -/
theorem freeBlocks_sound (sound : pool.Sound (bs ++ held)) : (pool.freeBlocks bs).Sound held := by
  have hqueue := freeBlocks_queue pool bs
  refine ⟨?_, ?_, ?_, sound.cached_live, { sound.hashed with }⟩
  · refine sound.balanced.drop ?_ ?_
    · intro b hb
      rcases mem_append.mp (hqueue.mem_iff.mp hb) with hb | hb
      · obtain ⟨hrel, hnull⟩ := mem_filter.mp hb
        have hmem := mem_append_left held (mem_of_mem_release hrel)
        exact (sound.held_live b hmem).resolve_left (of_decide_eq_true hnull)
      · exact sound.balanced.mem_live b hb
    · intro b hb
      have hkept : ((release pool.refCnt bs).2.filter (· ≠ nullBlock)).count b =
          (release pool.refCnt bs).2.count b := count_filter (by simpa using hb.1)
      rw [hqueue.count_eq, count_append, hkept, Nat.add_comm]
  · rw [hqueue.length_eq, length_append]
    simp only [freeBlocks, sound.numFree]
    omega
  · intro b hb
    exact sound.held_live b (mem_append_right _ hb)

end BlockPool
end Vllm.KVCache
