import Vllm.KVCache.CacheIndex

/-! What a consumer of the KV events rebuilds: the events that a block pool emits, replayed over
a multiset of hashes with their groups, give the entries of the prefix-cache index. -/
namespace Vllm.KVCache
open List Function BlockPool

/-- A hash in a group, as the events name it. -/
abbrev Entry := BlockHash × GroupId

/-! ### Replay -/

/-- Takes one copy of each hash out; `none` when there is no copy left. -/
def removeEach (g : GroupId) : List BlockHash → Multiset Entry → Option (Multiset Entry)
  | [], m => some m
  | h :: hs, m => if (h, g) ∈ m then removeEach g hs (m.erase (h, g)) else none

def replayEvent (m : Multiset Entry) : KVCacheEvent → Option (Multiset Entry)
  | .blockStored e => some (m + ↑(e.blockHashes.map fun h => (h, e.groupIdx)))
  | .blockRemoved hs g => removeEach g hs m
  | .allBlocksCleared => some 0

/-- The state of a consumer after the events; `none` when one removed what was not there. -/
def replay (events : List KVCacheEvent) : Option (Multiset Entry) :=
  events.foldlM replayEvent 0

variable {m : Multiset Entry}

theorem replay_append (events more : List KVCacheEvent) (h : replay events = some m) :
    replay (events ++ more) = more.foldlM replayEvent m := by
  unfold replay at h ⊢
  rw [foldlM_append, h]
  rfl

/-! ### Keys and entries -/

def entryOf (key : HashKey) : Entry := (getBlockHash key, getGroupId key)

def IsKey (key : HashKey) : Prop :=
  ∃ h g, g < 2 ^ 32 ∧ key = makeBlockHashWithGroupId h g

theorem entryOf_make (h : BlockHash) {g : GroupId} (hg : g < 2 ^ 32) :
    entryOf (makeBlockHashWithGroupId h g) = (h, g) := by
  rw [entryOf, getBlockHash_make, getGroupId_make h hg]

theorem IsKey.entryOf_eq_iff {key : HashKey} (hkey : IsKey key) (e : Entry) :
    entryOf key = e ↔ e.2 < 2 ^ 32 ∧ key = makeBlockHashWithGroupId e.1 e.2 := by
  obtain ⟨h, g, hg, rfl⟩ := hkey
  rw [entryOf_make h hg]
  constructor
  · rintro rfl
    exact ⟨hg, rfl⟩
  · rintro ⟨he, heq⟩
    rw [← entryOf_make h hg, heq, entryOf_make e.1 he]

theorem count_map_entryOf {keys : List HashKey} (hnodup : keys.Nodup)
    (hkeys : ∀ key ∈ keys, IsKey key) (e : Entry) :
    (↑(keys.map entryOf) : Multiset Entry).count e =
      if e.2 < 2 ^ 32 ∧ makeBlockHashWithGroupId e.1 e.2 ∈ keys then 1 else 0 := by
  have hinj : ∀ x ∈ keys, ∀ y ∈ keys, entryOf x = entryOf y → x = y := by
    intro x hx y hy heq
    obtain ⟨h, g, hg, rfl⟩ := hkeys x hx
    rw [entryOf_make h hg] at heq
    exact (((hkeys y hy).entryOf_eq_iff (h, g)).mp heq.symm).2.symm
  have hmem : e ∈ keys.map entryOf ↔ e.2 < 2 ^ 32 ∧ makeBlockHashWithGroupId e.1 e.2 ∈ keys := by
    rw [mem_map]
    constructor
    · rintro ⟨key, hkey, heq⟩
      obtain ⟨hg, rfl⟩ := ((hkeys key hkey).entryOf_eq_iff e).mp heq
      exact ⟨hg, hkey⟩
    · rintro ⟨hg, hkey⟩
      exact ⟨_, hkey, entryOf_make e.1 hg⟩
  split
  · rename_i he
    exact Multiset.count_eq_one_of_mem (Multiset.coe_nodup.mpr (hnodup.map_on hinj))
      (Multiset.mem_coe.mpr (hmem.mpr he))
  · rename_i he
    exact Multiset.count_eq_zero_of_notMem fun h => he (hmem.mp (Multiset.mem_coe.mp h))

/-- Removed events take out the entries of their keys, if these are there. -/
theorem replay_removed (keys : List HashKey) (hle : (↑(keys.map entryOf) : Multiset Entry) ≤ m) :
    (keys.map fun key => KVCacheEvent.blockRemoved [getBlockHash key] (getGroupId key)).foldlM
      replayEvent m = some (m - ↑(keys.map entryOf)) := by
  induction keys generalizing m with
  | nil =>
    rw [map_nil, map_nil, Multiset.coe_nil, Multiset.sub_zero]
    rfl
  | cons key keys ih =>
    rw [map_cons, ← Multiset.cons_coe] at hle
    have hmem : entryOf key ∈ m := Multiset.mem_of_le hle (Multiset.mem_cons_self _ _)
    have hrest : (↑(keys.map entryOf) : Multiset Entry) ≤ m.erase (entryOf key) := by
      have herase := Multiset.erase_le_erase (entryOf key) hle
      rwa [Multiset.erase_cons_head] at herase
    have hstep : replayEvent m (.blockRemoved [getBlockHash key] (getGroupId key)) =
        some (m.erase (entryOf key)) := if_pos hmem
    rw [map_cons, foldlM_cons, hstep, map_cons, ← Multiset.cons_coe, Multiset.sub_cons]
    exact ih hrest

/-! ### The pool and its consumer -/

def BlockPool.entryBlocks (pool : BlockPool) (e : Entry) : List BlockId :=
  if e.2 < 2 ^ 32 then pool.cached (makeBlockHashWithGroupId e.1 e.2) else []

theorem BlockPool.mem_entryBlocks {pool : BlockPool} (exact : pool.IndexExact) {e : Entry}
    {b : BlockId} : b ∈ pool.entryBlocks e ↔
      e.2 < 2 ^ 32 ∧ makeBlockHashWithGroupId e.1 e.2 ∈ pool.ownedKeys b := by
  unfold entryBlocks
  split
  · rename_i hg
    rw [exact.owns, and_iff_right hg]
  · rename_i hg
    exact iff_of_false not_mem_nil fun h => hg h.1

theorem countP_notMem_nil (l : List BlockId) : l.countP (· ∉ ([] : List BlockId)) = l.length := by
  simp

/-- A stored event with extra keys has one entry of them for each of its hashes. -/
def BlockStored.Aligned (event : BlockStored) : Prop :=
  ∀ keys, event.extraKeys = some keys → keys.length = event.blockHashes.length

namespace EventPool

variable {ep ep' : EventPool} {announcing : List BlockId}

/-- The consumer of the events so far has the entries of all blocks but those in `announcing`,
for which the stored event is still to come. -/
structure Announced (ep : EventPool) (announcing : List BlockId) : Prop where
  enabled : ep.enableKvCacheEvents = true
  indexed : ep.Indexed
  keyed : ∀ b, ∀ key ∈ ep.ownedKeys b, IsKey key
  replayed : ∃ m, replay ep.kvEventQueue = some m ∧
    ∀ e, m.count e = (ep.entryBlocks e).countP (· ∉ announcing)
  aligned : ∀ event, .blockStored event ∈ ep.kvEventQueue → event.Aligned

theorem create_announced (cfg : PoolConfig) : (create cfg true).Announced [] := by
  refine ⟨rfl, create_indexed cfg true, nofun, ⟨0, rfl, ?_⟩,
    nofun⟩
  intro e
  unfold entryBlocks
  split <;> rfl

/-- Only the hashes of the pool and the events matter. -/
theorem Announced.congr (h : ep.Announced announcing) (hindexed : ep'.Indexed)
    (henabled : ep'.enableKvCacheEvents = ep.enableKvCacheEvents)
    (hqueue : ep'.kvEventQueue = ep.kvEventQueue) (hcached : ep'.cached = ep.cached) :
    ep'.Announced announcing := by
  have hentry : ep'.entryBlocks = ep.entryBlocks := by
    funext e
    rw [entryBlocks, hcached, entryBlocks]
  refine ⟨henabled.trans h.enabled, hindexed, ?_, ?_, ?_⟩
  · intro b key hkey
    rw [← hindexed.exact.owns, hcached, h.indexed.exact.owns] at hkey
    exact h.keyed b key hkey
  · rw [hqueue, hentry]
    exact h.replayed
  · rw [hqueue]
    exact h.aligned

theorem maybeEvictCachedBlock_queue (h : ep.Announced announcing) (b : BlockId) :
    (ep.maybeEvictCachedBlock b).kvEventQueue = ep.kvEventQueue ++
      (ep.ownedKeys b).map fun key => .blockRemoved [getBlockHash key] (getGroupId key) := by
  have hsame : (ep.removeCachedBlockHashes b).1.enableKvCacheEvents = ep.enableKvCacheEvents ∧
      (ep.removeCachedBlockHashes b).1.kvEventQueue = ep.kvEventQueue := by
    unfold removeCachedBlockHashes
    simp only
    split <;> exact ⟨rfl, rfl⟩
  rw [maybeEvictCachedBlock, emitBlockRemovedEvents, hsame.1, if_pos h.enabled,
    h.indexed.removed_keys, hsame.2]

theorem maybeEvictCachedBlock_enabled (ep : EventPool) (b : BlockId) :
    (ep.maybeEvictCachedBlock b).enableKvCacheEvents = ep.enableKvCacheEvents := by
  unfold maybeEvictCachedBlock emitBlockRemovedEvents removeCachedBlockHashes
  simp only
  split <;> split <;> rfl

theorem entryBlocks_evict (ep : EventPool) (b : BlockId) (e : Entry) :
    (ep.maybeEvictCachedBlock b).entryBlocks e =
      if e.2 < 2 ^ 32 ∧ makeBlockHashWithGroupId e.1 e.2 ∈ ep.ownedKeys b then
        (ep.entryBlocks e).erase b
      else ep.entryBlocks e := by
  rw [maybeEvictCachedBlock_pool, entryBlocks, cached_removeCachedBlockHashes, entryBlocks]
  by_cases hg : e.2 < 2 ^ 32
  · simp only [hg, if_true, true_and]
  · simp only [hg, if_false, false_and]

variable {b : BlockId} {g : GroupId} {bs i numCached : Nat} {mask : Option (List Bool)}
  {env : HashEnv} {r : Request}

/-- An evicted block has its entries removed, when these have been announced. -/
theorem Announced.evict (h : ep.Announced announcing) (hb : b ∉ announcing) :
    (ep.maybeEvictCachedBlock b).Announced announcing := by
  obtain ⟨m, hm, hcount⟩ := h.replayed
  have hkeys := count_map_entryOf (h.indexed.exact.keys_nodup b) (h.keyed b)
  -- an entry of the block is counted for this block
  have hheld : ∀ e, e.2 < 2 ^ 32 ∧ makeBlockHashWithGroupId e.1 e.2 ∈ ep.ownedKeys b →
      b ∈ ep.entryBlocks e := fun e he =>
    (mem_entryBlocks h.indexed.exact).mpr he
  have hle : (↑((ep.ownedKeys b).map entryOf) : Multiset Entry) ≤ m := by
    rw [Multiset.le_iff_count]
    intro e
    rw [hkeys e, hcount e]
    split
    · rename_i he
      exact countP_pos_iff.mpr ⟨b, hheld e he, by simpa using hb⟩
    · exact Nat.zero_le _
  refine ⟨(maybeEvictCachedBlock_enabled ep b).trans h.enabled,
    h.indexed.maybeEvictCachedBlock b, ?_, ⟨m - ↑((ep.ownedKeys b).map entryOf), ?_, ?_⟩, ?_⟩
  · intro c key hkey
    rw [maybeEvictCachedBlock_pool, ownedKeys_removeCachedBlockHashes] at hkey
    by_cases hc : c = b
    · rw [hc, update_self] at hkey
      exact absurd hkey not_mem_nil
    · rw [update_of_ne hc] at hkey
      exact h.keyed c key hkey
  · rw [maybeEvictCachedBlock_queue h, replay_append _ _ hm, replay_removed _ hle]
  · intro e
    rw [Multiset.count_sub, hkeys e, hcount e, entryBlocks_evict]
    split
    · rename_i he
      rw [countP_erase, if_pos ⟨hheld e he, by simpa using hb⟩]
    · rfl
  · intro event hmem
    rw [maybeEvictCachedBlock_queue h, mem_append] at hmem
    rcases hmem with hold | hnew
    · exact h.aligned event hold
    · obtain ⟨key, -, heq⟩ := mem_map.mp hnew
      cases heq

/-! ### Stored events -/

section stored

variable {hash : BlockHash} {g : GroupId} {b : BlockId} {pool : BlockPool}

theorem entryBlocks_keyAdded (hg : g < 2 ^ 32)
    (added : KeyAdded ep.toBlockPool pool (makeBlockHashWithGroupId hash g) b) (e : Entry) :
    pool.entryBlocks e =
      if e = (hash, g) then ep.entryBlocks e ++ [b] else ep.entryBlocks e := by
  rw [entryBlocks, entryBlocks, added.cached]
  by_cases he : e.2 < 2 ^ 32
  · rw [if_pos he, if_pos he]
    by_cases heq : e = (hash, g)
    · subst heq
      rw [if_pos rfl, update_self]
    have hne : makeBlockHashWithGroupId e.1 e.2 ≠ makeBlockHashWithGroupId hash g := by
      intro hkey
      obtain ⟨h₁, h₂⟩ := makeBlockHashWithGroupId_inj he hg hkey
      exact heq (Prod.ext h₁ h₂)
    rw [if_neg heq, update_of_ne hne]
  · have hne : e ≠ (hash, g) := by
      rintro rfl
      exact he hg
    rw [if_neg he, if_neg he, if_neg hne]

section
variable (h : ep.Announced announcing)
include h

theorem Announced.keyed_keyAdded (hg : g < 2 ^ 32)
    (added : KeyAdded ep.toBlockPool pool (makeBlockHashWithGroupId hash g) b)
    (c : BlockId) (key : HashKey) (hkey : key ∈ pool.ownedKeys c) : IsKey key := by
  by_cases hc : c = b
  · rw [hc, added.keys_self, mem_append, mem_singleton] at hkey
    rcases hkey with hold | rfl
    · exact h.keyed b key hold
    · exact ⟨hash, g, hg, rfl⟩
  · rw [added.keys_other c hc] at hkey
    exact h.keyed c key hkey

/-- A block that gets its only key awaits its stored event. -/
theorem Announced.insert (hg : g < 2 ^ 32)
    (hnone : ep.ownedKeys b = [])
    (added : KeyAdded ep.toBlockPool pool (makeBlockHashWithGroupId hash g) b) :
    ({ ep with
        toBlockPool := pool
        index := ep.index.insert (makeBlockHashWithGroupId hash g) b } : EventPool).Announced
      (b :: announcing) ∧
    ∀ e, (pool.entryBlocks e).countP (· ∈ b :: announcing) =
      (ep.entryBlocks e).countP (· ∈ announcing) + if e = (hash, g) then 1 else 0 := by
  have habsent : ∀ e, b ∉ ep.entryBlocks e := by
    intro e hmem
    have howned := ((mem_entryBlocks h.indexed.exact).mp hmem).2
    rw [hnone] at howned
    exact not_mem_nil howned
  have hsame : ∀ e, ∀ c ∈ ep.entryBlocks e, c ∈ b :: announcing ↔ c ∈ announcing := fun e c hc =>
    mem_cons.trans (or_iff_right fun heq => habsent e (heq ▸ hc))
  have hout : ∀ e, (ep.entryBlocks e).countP (· ∉ b :: announcing) =
      (ep.entryBlocks e).countP (· ∉ announcing) := fun e =>
    countP_congr fun c hc => by simp only [hsame e c hc]
  have hin : ∀ e, (ep.entryBlocks e).countP (· ∈ b :: announcing) =
      (ep.entryBlocks e).countP (· ∈ announcing) := fun e =>
    countP_congr fun c hc => by simp only [hsame e c hc]
  obtain ⟨m, hm, hcount⟩ := h.replayed
  refine ⟨⟨h.enabled, h.indexed.keyAdded added, h.keyed_keyAdded hg added, ⟨m, hm, ?_⟩,
    h.aligned⟩, ?_⟩
  · intro e
    rw [hcount e, ← hout e, entryBlocks_keyAdded hg added]
    split
    · simp only [countP_append, countP_cons, countP_nil, mem_cons_self,
        not_true_eq_false, decide_false, Bool.false_eq_true, if_false, Nat.add_zero]
    · rfl
  · intro e
    rw [← hin e, entryBlocks_keyAdded hg added]
    split
    · simp only [countP_append, countP_cons, countP_nil, mem_cons_self,
        decide_true, if_true, Nat.zero_add]
    · rfl

theorem Announced.aligned_stored {event : BlockStored}
    (haligned : event.Aligned) (e : BlockStored)
    (hmem : .blockStored e ∈ ep.kvEventQueue ++ [.blockStored event]) : e.Aligned := by
  rcases mem_append.mp hmem with hold | hnew
  · exact h.aligned e hold
  · cases mem_singleton.mp hnew
    exact haligned

/-- The stored event announces the blocks that await it. -/
theorem Announced.stored (event : BlockStored)
    (haligned : event.Aligned) (hnew : ∀ e, (ep.entryBlocks e).countP (· ∈ announcing) =
      (↑(event.blockHashes.map fun hash => (hash, event.groupIdx)) : Multiset Entry).count e) :
    (ep.emitBlockStored event).Announced [] := by
  obtain ⟨m, hm, hcount⟩ := h.replayed
  refine ⟨h.enabled, h.indexed.of_same rfl rfl, h.keyed, ⟨_, replay_append _ _ hm, ?_⟩,
    h.aligned_stored haligned⟩
  intro e
  rw [Multiset.count_add, hcount e, ← hnew e]
  have hsplit := length_eq_countP_add_countP (· ∈ announcing) (l := ep.entryBlocks e)
  simp only [decide_eq_true_eq] at hsplit
  refine Eq.trans ?_ (countP_notMem_nil (ep.entryBlocks e)).symm
  rw [hsplit, Nat.add_comm]

end

/-- A further key that is announced at once; the block may have others. -/
theorem Announced.insert_stored (h : ep.Announced []) (hg : g < 2 ^ 32)
    (added : KeyAdded ep.toBlockPool pool (makeBlockHashWithGroupId hash g) b)
    (event : BlockStored) (haligned : event.Aligned) (hhashes : event.blockHashes = [hash])
    (hgroup : event.groupIdx = g) :
    (({ ep with
        toBlockPool := pool
        index := ep.index.insert (makeBlockHashWithGroupId hash g) b } :
        EventPool).emitBlockStored event).Announced [] := by
  obtain ⟨m, hm, hcount⟩ := h.replayed
  refine ⟨h.enabled, (h.indexed.keyAdded added).of_same rfl rfl, h.keyed_keyAdded hg added,
    ⟨_, replay_append _ _ hm, ?_⟩, h.aligned_stored haligned⟩
  intro e
  have hentry : (emitBlockStored { ep with
        toBlockPool := pool
        index := ep.index.insert (makeBlockHashWithGroupId hash g) b } event).entryBlocks e =
      if e = (hash, g) then ep.entryBlocks e ++ [b] else ep.entryBlocks e :=
    entryBlocks_keyAdded hg added e
  rw [Multiset.count_add, hcount e, hhashes, hgroup, hentry]
  by_cases he : e = (hash, g)
  · rw [he]
    simp only [map_cons, map_nil, Multiset.coe_singleton, Multiset.count_singleton_self,
      countP_append, countP_cons, countP_nil, not_mem_nil, not_false_eq_true,
      decide_true, if_true, Nat.zero_add]
  · simp only [map_cons, map_nil, Multiset.coe_singleton,
      Multiset.count_singleton, he, if_false, Nat.add_zero]

end stored

/-! ### One operation -/

/-- The entries that `cache_full_blocks` does not skip. -/
def cacheable (entry : BlockId × Bool) : Bool := entry.1 ≠ nullBlock && entry.2

theorem cacheable_eq_false_iff (entry : BlockId × Bool) :
    cacheable entry = false ↔ entry.1 = nullBlock ∨ entry.2 = false := by
  simp only [cacheable, Bool.and_eq_false_iff, decide_eq_false_iff_not, not_not]

theorem Announced.cacheFullBlock {hash : BlockHash} {n : Nat} (h : ep.Announced announcing)
    (hb : b ∉ announcing) (hblock : ep.cacheFullBlock g hash n b = .ok ep') :
    ep'.Announced (b :: announcing) ∧
      ∀ e, (ep'.entryBlocks e).countP (· ∈ b :: announcing) =
        (ep.entryBlocks e).countP (· ∈ announcing) + if e = (hash, g) then 1 else 0 := by
  obtain ⟨hg, hcases⟩ := cacheFullBlock_cases hblock
  -- the block owns no key when it is inserted
  obtain ⟨base, hbase, hkept, hnone, hins⟩ : ∃ base : EventPool, base.Announced announcing ∧
      (∀ e, (base.entryBlocks e).countP (· ∈ announcing) =
        (ep.entryBlocks e).countP (· ∈ announcing)) ∧ base.ownedKeys b = [] ∧
      base.insertBlockHash (makeBlockHashWithGroupId hash g) b n = .ok ep' := by
    rcases hcases with ⟨hnone, hins⟩ | hins
    · exact ⟨ep, h, fun _ => rfl, h.indexed.exact.ownedKeys_of_unhashed hnone, hins⟩
    refine ⟨_, h.evict hb, ?_, ?_, hins⟩
    · intro e
      rw [entryBlocks_evict]
      split
      · rw [countP_erase, if_neg fun hmem => hb (of_decide_eq_true hmem.2), Nat.sub_zero]
      · rfl
    · rw [maybeEvictCachedBlock_pool, ownedKeys_removeCachedBlockHashes, update_self]
  rcases hbase.indexed.insert_cases hins with ⟨hmem, -⟩ | ⟨pool, added, rfl⟩
  · rw [hbase.indexed.exact.owns, hnone] at hmem
    exact absurd hmem not_mem_nil
  obtain ⟨hnew, hcount⟩ := hbase.insert hg hnone added
  refine ⟨hnew, fun e => ?_⟩
  rw [← hkept e]
  exact hcount e

/-- The first loop of `cache_full_blocks`: the new hashes are those of the blocks that await
the stored event. -/
theorem Announced.cacheLoop {hashes : List BlockHash} (blocks : List (BlockId × Bool))
    (h : ep.Announced announcing) (hdistinct : ((blocks.filter cacheable).map Prod.fst).Nodup)
    (hfresh : ∀ b ∈ (blocks.filter cacheable).map Prod.fst, b ∉ announcing) {new : List BlockHash}
    (hloop : EventPool.cacheLoop hashes bs g i blocks ep = .ok (ep', new)) :
    new.length = (blocks.filter cacheable).length ∧
      ∃ announcing', ep'.Announced announcing' ∧
        ∀ e, (ep'.entryBlocks e).countP (· ∈ announcing') =
          (ep.entryBlocks e).countP (· ∈ announcing) +
            (↑(new.map fun hash => (hash, g)) : Multiset Entry).count e := by
  induction blocks generalizing i ep announcing new with
  | nil =>
    cases hloop
    exact ⟨rfl, announcing, h, fun e => rfl⟩
  | cons entry rest ih =>
    obtain ⟨b, reachable⟩ := entry
    rw [EventPool.cacheLoop] at hloop
    split at hloop
    · rename_i hskip
      have hout : cacheable (b, reachable) = false := (cacheable_eq_false_iff _).mpr hskip
      rw [filter_cons_of_neg (by rw [hout]; exact Bool.false_ne_true)] at hdistinct hfresh ⊢
      exact ih h hdistinct hfresh hloop
    · rename_i hskip
      have hin : cacheable (b, reachable) = true :=
        Bool.eq_true_of_not_eq_false fun hout => hskip ((cacheable_eq_false_iff _).mp hout)
      rw [filter_cons_of_pos hin] at hdistinct hfresh ⊢
      rw [map_cons, nodup_cons] at hdistinct
      split at hloop
      · cases hloop
      split at hloop
      · cases hloop
      rename_i mid hblock
      split at hloop
      · cases hloop
      rename_i last new' hrest
      cases hloop
      obtain ⟨hmid, hcount⟩ := h.cacheFullBlock (hfresh b mem_cons_self) hblock
      have hfresh' : ∀ c ∈ (rest.filter cacheable).map Prod.fst, c ∉ b :: announcing := by
        intro c hc hmem
        rcases mem_cons.mp hmem with rfl | hmem
        · exact hdistinct.1 hc
        · exact hfresh c (mem_cons_of_mem b hc) hmem
      obtain ⟨hlen, announcing', hlast, htotal⟩ := ih hmid hdistinct.2 hfresh' hrest
      refine ⟨by rw [length_cons, length_cons, hlen], announcing', hlast, ?_⟩
      intro e
      rw [htotal e, hcount e, map_cons, ← Multiset.cons_coe, Multiset.count_cons,
        Nat.add_assoc, Nat.add_comm (Multiset.count e _)]

/-- The mask from block `i` on, for the next `n` blocks. -/
def maskFrom (mask : Option (List Bool)) (numCached i n : Nat) : List Bool :=
  mask.elim (replicate n true) (·.drop (i - numCached))

theorem zip_maskFrom_cons (hi : numCached ≤ i) (b : BlockId) (blocks : List BlockId) :
    (b :: blocks).zip (maskFrom mask numCached i (blocks.length + 1)) =
      match mask.elim (some true) (·[i - numCached]?) with
      | none => []
      | some reachable =>
        (b, reachable) :: blocks.zip (maskFrom mask numCached (i + 1) blocks.length) := by
  cases mask with
  | none => rfl
  | some m =>
    have hsub : i + 1 - numCached = i - numCached + 1 := by omega
    simp only [maskFrom, Option.elim, hsub]
    cases hm : m[i - numCached]? with
    | none =>
      rw [drop_eq_nil_of_le (List.getElem?_eq_none_iff.mp hm)]
      rfl
    | some reachable =>
      obtain ⟨hlt, hget⟩ := List.getElem?_eq_some_iff.mp hm
      rw [drop_eq_getElem_cons hlt, hget]
      rfl

theorem zip_maskFrom_eq_nil (h : mask.elim (some true) (·[i - numCached]?) = none)
    (blocks : List BlockId) (n : Nat) : blocks.zip (maskFrom mask numCached (i + 1) n) = [] := by
  cases mask with
  | none => cases h
  | some m =>
    have hle : m.length ≤ i + 1 - numCached := (List.getElem?_eq_none_iff.mp h).trans (by omega)
    rw [maskFrom, Option.elim, drop_eq_nil_of_le hle, zip_nil_right]

/-- The second loop visits the blocks that the first one caches. -/
theorem extraKeysLoop_length {blocks : List BlockId} (k : Nat) {idx : Int} (hi : numCached ≤ i)
    {keys : List (Option (List ExtraKey))}
    (h : extraKeysLoop env r bs blocks mask numCached i k idx = .ok keys) :
    keys.length = ((((blocks.drop i).take k).zip
      (maskFrom mask numCached i ((blocks.drop i).take k).length)).filter cacheable).length := by
  induction k generalizing i idx keys with
  | zero =>
    cases h
    rfl
  | succ k ih =>
    rw [extraKeysLoop] at h
    split at h
    · cases h
    rename_i b hb
    obtain ⟨hlt, hget⟩ := List.getElem?_eq_some_iff.mp hb
    rw [drop_eq_getElem_cons hlt, hget, take_succ_cons, length_cons, zip_maskFrom_cons hi]
    have hnext : numCached ≤ i + 1 := Nat.le_succ_of_le hi
    split at h
    · rename_i hnull
      rw [ih hnext h]
      split
      · rename_i hend
        rw [zip_maskFrom_eq_nil hend]
      rename_i reachable _
      have hout : cacheable (b, reachable) = false := (cacheable_eq_false_iff _).mpr (.inl hnull)
      rw [filter_cons_of_neg (Bool.eq_false_iff.mp hout)]
    · rename_i hnull
      split at h
      · cases h
      · rename_i hreach
        have hout : cacheable (b, false) = false := (cacheable_eq_false_iff _).mpr (.inr rfl)
        rw [ih hnext h, hreach, filter_cons_of_neg (Bool.eq_false_iff.mp hout)]
      · rename_i hreach
        simp only at h
        split at h
        · cases h
        rename_i rest hrest
        cases h
        have hin : cacheable (b, true) = true := by
          simp only [cacheable, hnull, ne_eq, not_false_eq_true, decide_true, Bool.and_true]
        rw [length_cons, ih hnext hrest, hreach, filter_cons_of_pos hin, length_cons]

theorem FullBlocks.masked_eq (a : FullBlocks) :
    a.masked = ((a.blocks.drop a.numCached).take (a.numFull - a.numCached)).zip
      (maskFrom a.mask a.numCached a.numCached
        ((a.blocks.drop a.numCached).take (a.numFull - a.numCached)).length) := by
  rw [masked, newFull, drop_take]
  cases a.mask with
  | none => rfl
  | some m => rw [maskFrom, Option.elim, Nat.sub_self, drop_zero, Option.getD_some]

/-- One call of `cache_full_blocks` does not get a block twice. -/
def FullBlocks.Distinct (a : FullBlocks) : Prop :=
  ((a.masked.filter cacheable).map Prod.fst).Nodup

instance (a : FullBlocks) : Decidable a.Distinct := inferInstanceAs (Decidable (Nodup _))

theorem Announced.cacheFullBlocks {a : FullBlocks} (h : ep.Announced []) (hdistinct : a.Distinct)
    (hop : ep.cacheFullBlocks env a = .ok ep') : ep'.Announced [] := by
  rcases cacheFullBlocks_cases hop with rfl | ⟨-, -, mid, new, hloop, hend⟩
  · exact h
  obtain ⟨hlen, announcing, hmid, hcount⟩ :=
    h.cacheLoop a.masked hdistinct (fun _ _ => not_mem_nil) hloop
  rcases hend with ⟨hoff, -⟩ | ⟨-, parent, extraKeys, hextra, rfl⟩
  · rw [hmid.enabled] at hoff
    cases hoff
  refine hmid.stored _ ?_ ?_
  · intro keys hkeys
    simp only [storedEvent] at hkeys ⊢
    split at hkeys
    · cases hkeys
    · cases hkeys
      rw [extraKeysLoop_length _ (Nat.le_refl _) hextra, hlen, a.masked_eq]
  · intro e
    rw [hcount e]
    simp only [not_mem_nil, decide_false, countP_false, const_apply, Nat.zero_add, storedEvent]

theorem Announced.cachePartialBlock {n : Nat} (h : ep.Announced [])
    (hop : ep.cachePartialBlock env r b n g bs = .ok ep') : ep'.Announced [] := by
  rcases cachePartialBlock_cases hop with rfl | ⟨hg, hash, hpart⟩
  · exact h
  rcases h.indexed.cachePartialHash_cases hpart with
    ⟨-, rfl⟩ | ⟨hnew, base, mid, len, hbase, hins, hend⟩
  · exact h
  · have hbaseAnnounced : base.Announced [] := by
      rcases hbase with rfl | rfl
      · exact h
      · exact h.evict not_mem_nil
    rcases hbaseAnnounced.indexed.insert_cases hins with ⟨hmem, -⟩ | ⟨pool, added, rfl⟩
    · refine absurd ?_ hnew
      rcases hbase with rfl | rfl
      · exact hmem
      · rw [maybeEvictCachedBlock_pool] at hmem
        exact mem_cached_of_removeCachedBlockHashes hmem
    · rcases hend with ⟨hoff, -⟩ | ⟨-, parent, start, stop, size, extra, rfl⟩
      · rw [show _ = true from hbaseAnnounced.enabled] at hoff
        cases hoff
      refine hbaseAnnounced.insert_stored hg added _ ?_ rfl rfl
      intro keys hkeys
      cases hkeys
      rfl

theorem Announced.claimBlock (h : ep.Announced []) (hop : ep.claimBlock b = .ok ep') :
    ep'.Announced [] := by
  have hevicted : (ep.evictIfCaching b).Announced [] := by
    unfold evictIfCaching
    split
    · exact h.evict not_mem_nil
    · exact h
  rw [claimBlock_cases hop]
  exact hevicted.congr (hevicted.indexed.with_refCnt _) rfl rfl rfl

theorem Announced.resetPrefixCache (h : ep.Announced []) : ep.resetPrefixCache.Announced [] := by
  have hindexed := h.indexed.resetPrefixCache
  revert hindexed
  unfold EventPool.resetPrefixCache
  split
  · intro hindexed
    have hempty : ∀ key, ep.toBlockPool.resetPrefixCache.1.cached key = [] := fun key =>
      (hindexed.agrees key).symm
    simp only [h.enabled, if_true]
    obtain ⟨m, hm, -⟩ := h.replayed
    refine ⟨rfl, hindexed.of_same rfl rfl, ?_, ⟨0, replay_append _ _ hm, ?_⟩, ?_⟩
    · intro b key hkey
      have hmem := (hindexed.exact.owns key b).mpr hkey
      rw [hempty] at hmem
      exact absurd hmem not_mem_nil
    · intro e
      have hnone : ep.toBlockPool.resetPrefixCache.1.entryBlocks e = [] := by
        rw [entryBlocks, hempty, ite_self]
      simp only [hnone, Multiset.count_zero, countP_nil]
    · intro event hmem
      rcases mem_append.mp hmem with hold | hnew
      · exact h.aligned event hold
      · cases mem_singleton.mp hnew
  · exact fun _ => h

/-- What a call must meet: the blocks of one `cache_full_blocks` are distinct. -/
def DistinctBlocks (_ : EventPool) : PoolOp → Prop
  | .cacheFullBlocks a => a.Distinct
  | _ => True

instance (ep : EventPool) (op : PoolOp) : Decidable (DistinctBlocks ep op) := by
  cases op <;> unfold DistinctBlocks <;> infer_instance

theorem Announced.step (h : ep.Announced []) (op : PoolOp) (hok : DistinctBlocks ep op)
    (hop : ep.step env op = .ok ep') : ep'.Announced [] := by
  have hindexed := h.indexed.step op hop
  cases op with
  | getNewBlocks n =>
    obtain ⟨⟨last, ret⟩, hnew, rfl⟩ := Run.map_eq_ok hop
    obtain ⟨pool, hpop, hclaim⟩ := getNewBlocks_cases hnew
    obtain ⟨-, hcached, hhash, hextra⟩ := popleftN_same hpop
    have hpopped : ({ ep with toBlockPool := pool } : EventPool).Announced [] :=
      h.congr (h.indexed.with_pool hcached hhash hextra) rfl rfl hcached
    exact Run.run_rule (fun _ ep => ep.Announced []) (fun h hone => h.claimBlock hone) hpopped hclaim
  | touch blocks =>
    obtain ⟨pool, htouch, rfl⟩ := Run.map_eq_ok hop
    exact h.congr hindexed rfl rfl (touch_same blocks htouch).1
  | freeBlocks ordered =>
    cases hop
    exact h.congr hindexed rfl rfl rfl
  | cacheFullBlocks a => exact h.cacheFullBlocks hok hop
  | cachePartialBlock r b n g bs => exact h.cachePartialBlock hop
  | evictBlocks bs => exact evictBlocks_rule (·.Announced []) (fun _ h => h.evict not_mem_nil) h hop
  | resetPrefixCache =>
    cases hop
    exact h.resetPrefixCache

/-! ### Runs -/

/-- A consumer that has replayed the events has, for every hash and group, as many copies as
the index has blocks, and nothing else is in the index. -/
def ReplaysTo (ep : EventPool) : Prop :=
  ∃ m, replay ep.kvEventQueue = some m ∧
    (∀ hash g, m.count (hash, g) =
      if g < 2 ^ 32 then (ep.index.blocks (makeBlockHashWithGroupId hash g)).length else 0) ∧
    ∀ key b, b ∈ ep.index.blocks key → IsKey key

theorem Announced.replaysTo (h : ep.Announced []) : ep.ReplaysTo := by
  obtain ⟨m, hm, hcount⟩ := h.replayed
  refine ⟨m, hm, ?_, ?_⟩
  · intro hash g
    rw [hcount, countP_notMem_nil, entryBlocks, h.indexed.agrees]
    split <;> rfl
  · intro key b hb
    rw [h.indexed.agrees, h.indexed.exact.owns] at hb
    exact h.keyed b key hb

/-- In every run whose calls of `cache_full_blocks` get distinct blocks, the events replay to
the index, and extra keys are aligned with the hashes. -/
theorem reaches_replaysTo {env : HashEnv} {cfg : PoolConfig}
    (h : Run.Reaches (step env) DistinctBlocks (create cfg true) ep) :
    ep.ReplaysTo ∧ ∀ event, .blockStored event ∈ ep.kvEventQueue → event.Aligned := by
  have hannounced : ep.Announced [] := by
    induction h with
    | start => exact create_announced cfg
    | next op _ hok hop ih => exact ih.step op hok hop
  exact ⟨hannounced.replaysTo, hannounced.aligned⟩

/-- Caching, promotion of an evicted block and a reset. -/
theorem reaches_replaysTo_cached :
    ∃ ep, Run.Reaches (step listingEnv) DistinctBlocks (create ⟨4, true, 2⟩ true) ep ∧
      ep.kvEventQueue.length = 3 ∧ ep.ReplaysTo := by
  have hrun : (Run.runIf (step listingEnv) DistinctBlocks (create ⟨4, true, 2⟩ true)
      [.getNewBlocks 2, .cacheFullBlocks (twoFullBlocks [1, 2]), .evictBlocks [1],
        .freeBlocks [2, 1], .resetPrefixCache]).map (·.kvEventQueue.length) = some 3 := by
    decide +kernel
  obtain ⟨ep, hstate, hlen⟩ := Option.map_eq_some_iff.mp hrun
  have hreach := Run.Reaches.start.runIf _ hstate
  exact ⟨ep, hreach, hlen, (reaches_replaysTo hreach).1⟩

/-- A block that is cached twice in one call: its first hash is removed before it is stored. -/
theorem repeated_block_removes_absent :
    ∃ ep, Reachable listingEnv ⟨4, true, 2⟩ true ep ∧ replay ep.kvEventQueue = none := by
  have hrun : (Run.run (step listingEnv) (create ⟨4, true, 2⟩ true)
      [.getNewBlocks 2, .cacheFullBlocks (twoFullBlocks [1, 1])]).map
        (fun ep => decide (replay ep.kvEventQueue = none)) = .ok true := by
    decide +kernel
  obtain ⟨ep, hstate, hnone⟩ := Run.map_eq_ok hrun
  exact ⟨ep, Reachable.run _ hstate, of_decide_eq_true hnone⟩

end EventPool
end Vllm.KVCache
