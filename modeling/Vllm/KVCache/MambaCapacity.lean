import Vllm.KVCache.CapacityRuns

/-! The capacity predictor of a Mamba manager, against what its three allocation phases take from
the pool. -/
namespace Vllm.KVCache
open BlockPool ManagerState List PySeq KVState CacheConfig Option Int

/-! ### Computations that take free blocks -/

/-- `result` takes `cost` blocks from `pool`, and raises only when fewer are free. -/
structure Spends {α : Type} (pool : BlockPool) (cost : Int)
    (result : Except KVError (BlockPool × α)) : Prop where
  ok : cost ≤ pool.numFreeBlocks →
    ∃ p, result = .ok p ∧ p.1.numFreeBlocks = pool.numFreeBlocks - cost
  short : pool.numFreeBlocks < cost → ∃ n, result = .error (.cannotGetBlocks n)

variable {n : Int} {held : List BlockId} {pool : BlockPool}

namespace Spends
variable {α β : Type} {pool : BlockPool} {cost cost' : Int}
  {result : Except KVError (BlockPool × α)}

theorem nothing (sound : pool.Sound held) (x : α) : Spends pool 0 (.ok (pool, x)) := by
  refine ⟨fun _ => ⟨_, rfl, (Int.sub_zero _).symm⟩, fun h => ?_⟩
  have hnum := sound.numFree
  omega

theorem bind {f : BlockPool × α → Except KVError (BlockPool × β)} (h : Spends pool cost result)
    (hnonneg : 0 ≤ cost') (hnext : ∀ p, result = .ok p → Spends p.1 cost' (f p)) :
    Spends pool (cost + cost') (result.bind f) := by
  by_cases hfree : cost ≤ pool.numFreeBlocks
  · obtain ⟨p, hp, hnum⟩ := h.ok hfree
    have hthen := hnext p hp
    rw [hp]
    refine ⟨fun hle => ?_, fun hlt => hthen.short (by omega)⟩
    obtain ⟨p', hp', hnum'⟩ := hthen.ok (by omega)
    exact ⟨p', hp', by omega⟩
  · obtain ⟨n, hn⟩ := h.short (by omega)
    rw [hn]
    exact ⟨fun hle => absurd hle (by omega), fun _ => ⟨n, rfl⟩⟩

theorem map {f : α → β} (h : Spends pool cost result) :
    Spends pool cost (result.map fun p => (p.1, f p.2)) := by
  refine ⟨fun hle => ?_, fun hlt => ?_⟩
  · obtain ⟨p, hp, hnum⟩ := h.ok hle
    exact ⟨_, by rw [hp]; rfl, hnum⟩
  · obtain ⟨n, hn⟩ := h.short hlt
    exact ⟨n, by rw [hn]; rfl⟩

theorem ne_assertion (h : Spends pool cost result) : result ≠ .error .assertion := by
  intro herror
  by_cases hfree : cost ≤ pool.numFreeBlocks
  · obtain ⟨p, hp, -⟩ := h.ok hfree
    rw [hp] at herror
    cases herror
  · obtain ⟨n, hn⟩ := h.short (by omega)
    rw [hn] at herror
    cases herror

/-- With `n` free blocks the computation stays within `n` blocks iff its cost does. -/
theorem within_iff (h : Spends pool cost result) (hn : n ≤ pool.numFreeBlocks) :
    (∃ p, result = .ok p ∧ pool.numFreeBlocks - p.1.numFreeBlocks ≤ n) ↔ cost ≤ n := by
  by_cases hfree : cost ≤ pool.numFreeBlocks
  · obtain ⟨p, hp, hnum⟩ := h.ok hfree
    constructor
    · rintro ⟨p', hp', hle⟩
      cases hp.symm.trans hp'
      omega
    · intro hle
      exact ⟨p, hp, by omega⟩
  · obtain ⟨e, he⟩ := h.short (by omega)
    constructor
    · rintro ⟨p, hp, -⟩
      cases he.symm.trans hp
    · omega

end Spends

theorem BlockPool.Sound.numFree_le (sound : pool.Sound held) :
    pool.numFreeBlocks ≤ pool.numGpuBlocks := by
  have hnodup : pool.freeQueue.Nodup := by
    refine nodup_iff_count_le_one.mpr fun b => ?_
    by_cases hb : b ∈ pool.freeQueue
    · rw [sound.balanced.queued b (sound.balanced.mem_live b hb)]
      split <;> omega
    · rw [count_eq_zero_of_not_mem hb]
      omega
  have hsub : pool.freeQueue ⊆ range pool.numGpuBlocks := fun b hb =>
    mem_range.mpr (sound.balanced.mem_live b hb).2
  have hlen := (subperm_of_subset hnodup hsub).length_le
  rw [length_range] at hlen
  rw [sound.numFree]
  omega

theorem getNewBlocks_spends (sound : pool.Sound held) (hn : 0 ≤ n) :
    Spends pool n (pool.getNewBlocks n) := by
  refine ⟨fun hle => ?_, fun hlt => ⟨n, ?_⟩⟩
  · obtain ⟨pool', bs, hget, -, hnum⟩ := Manager.getNewBlocks_numFree sound hn hle
    exact ⟨(pool', bs), hget, hnum⟩
  · rw [getNewBlocks, if_pos hlt]

/-! ### The phases of a manager -/

namespace Manager

variable {numTokensMain numTokens : Nat} {p : BlockPool × ManagerState}

section
variable {m : Manager} {pool : BlockPool} {st : ManagerState} {frame : List BlockId} {r : ReqId}

theorem addLocalComputedBlocks_spends (numLocal numExternal : Nat)
    (sound : pool.Sound (st.held ++ frame)) {hits : List BlockId}
    (hattention : m.spec.kind ≠ .crossAttention) (hempty : st.blocksOf r = [])
    (hlive : ∀ b ∈ hits, b = nullBlock ∨ pool.IsLive b)
    (hnodup : ((m.keptHits hits (numLocal + numExternal)).filter (· ≠ nullBlock)).Nodup)
    (hcaching : m.enableCaching = true ∨ hits = []) :
    Spends pool (numEvictable pool (m.keptHits hits (numLocal + numExternal)))
      (m.addLocalComputedBlocks pool st r hits numLocal numExternal) := by
  obtain ⟨pool', st', hok⟩ := addLocalComputedBlocks_ok (m := m) numLocal numExternal sound hempty
    hlive (fun h => absurd h hattention) hcaching
  obtain ⟨hsound', -⟩ := addLocalComputedBlocks_sound sound hlive hok
  have hnum : pool'.numFreeBlocks = pool.numFreeBlocks -
      numEvictable pool (m.keptHits hits (numLocal + numExternal)) := by
    rcases addLocalComputedBlocks_cases hok with ⟨hcross, -⟩ | ⟨-, -, htouch, -⟩
    · exact absurd hcross hattention
    · have hsplit := sound.split r
      exact touch_numFree _ hsplit (fun b hb => hlive b (mem_of_mem_drop hb)) hnodup htouch
  refine ⟨fun _ => ⟨(pool', st'), hok, hnum⟩, fun hlt => ?_⟩
  have hnonneg := hsound'.numFree
  omega

theorem allocateExternalComputedBlocks_spends (sound : pool.Sound (st.held ++ frame))
    {numLocal numExternal : Nat}
    (hfit : m.spec.kind ≠ .crossAttention → 0 < m.externalInWindow numLocal numExternal →
      (st.blocksOf r).length ≤ cdiv (numLocal + numExternal) m.blockSize) :
    Spends pool (m.externalCost numLocal numExternal (st.blocksOf r).length)
      (m.allocateExternalComputedBlocks pool st r numLocal numExternal) := by
  refine ⟨fun hle => ?_, fun hlt => ?_⟩
  · obtain ⟨pool', st', hok, hnum, -⟩ := allocateExternalComputedBlocks_exact sound hfit hle
    exact ⟨(pool', st'), hok, hnum⟩
  · have hfree := sound.numFree
    unfold externalCost at hlt
    unfold allocateExternalComputedBlocks
    split at hlt
    · omega
    rename_i hneeded
    push Not at hneeded
    rw [if_neg hneeded.1, if_neg (by omega)]
    simp only
    rw [getNewBlocks, if_pos (by omega)]
    exact ⟨_, rfl⟩

theorem baseAllocateNewBlocks_spends (sound : pool.Sound (st.held ++ frame)) (numTokens : Nat) :
    Spends pool (m.newCost numTokens (st.blocksOf r).length)
      (m.baseAllocateNewBlocks pool st r numTokens) := by
  refine ⟨fun hle => ?_, fun hlt => ?_⟩
  · obtain ⟨pool', st', new, hok, hnum⟩ := baseAllocateNewBlocks_exact sound hle
    exact ⟨(pool', st', new), hok, hnum⟩
  · have hfree := sound.numFree
    unfold newCost at hlt
    unfold baseAllocateNewBlocks
    rw [if_neg (by omega), getNewBlocks, if_pos (by omega)]
    exact ⟨_, rfl⟩

/-- Blocks for new tokens in align mode, behind a table of `len` blocks. -/
def alignCost (m : Manager) (numSpec numTokensMain len : Nat) (allocated : Bool) : Int :=
  if cdiv numTokensMain m.blockSize + numSpec ≤ len then 0
  else if allocated then 1
  else min ((cdiv numTokensMain m.blockSize + numSpec : Int) - len) (numSpec + 1)

theorem reuseSpeculative_ok (numSkipped k i : Nat) {blocks : List BlockId}
    (h : i + k ≤ blocks.length) : ∃ moved, reuseSpeculative numSkipped i k blocks = .ok moved := by
  induction k generalizing i blocks with
  | zero => exact ⟨blocks, rfl⟩
  | succ k ih =>
    rw [reuseSpeculative]
    split
    · have hi : i < blocks.length := by omega
      rw [getElem?_eq_getElem hi]
      refine ih (i + 1) ?_
      rw [length_set, length_append]
      omega
    · exact ⟨blocks, rfl⟩

/-- The assertions on `num_new_blocks` hold: one block for a request with reusable speculative
blocks, at most the speculative ones and the running state otherwise. -/
theorem alignAllocateNewBlocks_spends (sound : pool.Sound (st.held ++ frame)) {numSpec : Nat}
    (hreserved : st.allocatedBlockReqs r = true → numSpec ≤ (st.blocksOf r).length) :
    Spends pool
      (m.alignCost numSpec numTokensMain (st.blocksOf r).length (st.allocatedBlockReqs r))
      (m.alignAllocateNewBlocks numSpec pool st r numTokensMain) := by
  unfold alignCost alignAllocateNewBlocks
  simp only
  generalize hblocks : st.blocksOf r = blocks at hreserved ⊢
  generalize hreq : cdiv numTokensMain m.blockSize = required
  by_cases hnone : required + numSpec ≤ blocks.length
  · rw [if_pos hnone, if_pos hnone]
    exact .nothing sound _
  rw [if_neg hnone, if_neg hnone]
  generalize hpadded : blocks ++ replicate (required + numSpec - numSpec - 1 - blocks.length)
    nullBlock = padded
  have hpadlen : padded.length =
      blocks.length + (required + numSpec - numSpec - 1 - blocks.length) := by
    rw [← hpadded, length_append, length_replicate]
  generalize hcost : (if st.allocatedBlockReqs r = true then 1 else
    min ((required + numSpec : Int) - blocks.length) (numSpec + 1)) = cost
  -- the table that is left for the new blocks
  have htable : ∃ moved, (if st.allocatedBlockReqs r = true then
      reuseSpeculative (required + numSpec - numSpec - 1) (blocks.length - numSpec) numSpec padded
      else .ok padded) = .ok moved ∧ ((required + numSpec : Nat) : Int) - moved.length = cost ∧
        0 ≤ cost ∧ cost ≤ if st.allocatedBlockReqs r = true then 1 else (numSpec : Int) + 1 := by
    cases hallocated : st.allocatedBlockReqs r with
    | true =>
      have hlen := hreserved hallocated
      rw [hallocated] at hcost
      have hindices : blocks.length - numSpec + numSpec ≤ padded.length := by omega
      obtain ⟨moved, hmoved⟩ := reuseSpeculative_ok (required + numSpec - numSpec - 1) numSpec
        (blocks.length - numSpec) hindices
      have hmovedlen := (reuseSpeculative_spec numSpec _ hmoved).1
      simp only [if_true] at hcost ⊢
      exact ⟨moved, hmoved, by omega, by omega, by omega⟩
    | false =>
      rw [hallocated] at hcost
      simp only [Bool.false_eq_true, if_false] at hcost ⊢
      exact ⟨padded, rfl, by omega, by omega, by omega⟩
  obtain ⟨moved, hmoved, hnew, hnonneg, hlimit⟩ := htable
  rw [hmoved]
  simp only
  rw [hnew, if_neg (by omega)]
  have hget := getNewBlocks_spends sound hnonneg
  refine ⟨fun hle => ?_, fun hlt => ?_⟩
  · obtain ⟨p, hp, hnum⟩ := hget.ok hle
    rw [hp]
    exact ⟨_, rfl, hnum⟩
  · obtain ⟨n, hn⟩ := hget.short hlt
    rw [hn]
    exact ⟨n, rfl⟩

theorem allocateExternalComputedBlocks_table {pool' : BlockPool} {st' : ManagerState}
    {numLocal numExternal : Nat}
    (h : m.allocateExternalComputedBlocks pool st r numLocal numExternal = .ok (pool', st')) :
    ((st'.blocksOf r).length : Int) = (st.blocksOf r).length +
        m.externalCost numLocal numExternal (st.blocksOf r).length ∧
      st'.allocatedBlockReqs = st.allocatedBlockReqs := by
  unfold allocateExternalComputedBlocks at h
  unfold externalCost
  split at h
  · rename_i hcross
    cases h
    rw [if_pos (.inl hcross)]
    exact ⟨(Int.add_zero _).symm, rfl⟩
  · rename_i hcross
    split at h
    · rename_i hwindow
      cases h
      rw [if_pos (.inr hwindow)]
      exact ⟨(Int.add_zero _).symm, rfl⟩
    · rename_i hwindow
      rw [if_neg (not_or.mpr ⟨hcross, hwindow⟩)]
      simp only at h
      split at h
      · cases h
      rename_i hget
      cases h
      have hlen := getNewBlocks_length hget
      refine ⟨?_, rfl⟩
      rw [blocksOf_setBlocks, length_append]
      omega

end

/-! ### A whole call in one manager -/

variable (m : Manager) (i : Nat) (cfg : CacheConfig)

/-- `allocate_new_computed_blocks` of the coordinator, in one manager. -/
def computedFor (pool : BlockPool) (st : ManagerState) (r : ReqId)
    (hits : List BlockId) (numLocal numExternal : Nat) :
    Except KVError (BlockPool × ManagerState) :=
  if (st.numCachedBlock r).isSome then
    if hits ≠ [] then .error .assertion else .ok (pool, st)
  else
    (m.addLocalComputedBlocks pool st r hits numLocal numExternal).bind fun p =>
      if 0 < numExternal then
        m.allocateExternalComputedBlocks p.1 p.2 r numLocal numExternal
      else .ok p

/-- The phases of `allocate_slots` that take blocks, in the manager of group `i`. -/
def takeFor (pool : BlockPool) (st : ManagerState)
    (a : SlotArgs) : Except KVError (BlockPool × ManagerState) :=
  (if a.newComputedBlocks.any (· ≠ []) ∨ 0 < a.numExternalComputedTokens then
      m.computedFor pool st a.request.requestId (a.newComputedBlocks.getD i []) a.numLocal
        a.numExternalComputedTokens
    else .ok (pool, st)).bind fun p =>
      (m.allocateNewBlocks p.1 p.2 a.request.requestId (a.numTokensNeedSlot cfg.maxModelLen)
        (a.numTokensMain cfg.maxModelLen)).map fun q => (q.1, q.2.1)

/-- What the manager of group `i` predicts for the same call. -/
def predictFor (pool : BlockPool) (st : ManagerState) (a : SlotArgs) : Except KVError Int :=
  m.getNumBlocksToAllocate pool st a.request.requestId (a.numTokensNeedSlot cfg.maxModelLen)
    (a.newComputedBlocks.getD i []) (a.numLocal + a.numExternalComputedTokens)
    (a.numTokensMain cfg.maxModelLen) false

section
variable {m : Manager} {pool : BlockPool} {st : ManagerState} {frame : List BlockId} {r : ReqId}

def computedCost (m : Manager) (pool : BlockPool) (hits : List BlockId)
    (numLocal numExternal : Nat) : Int :=
  numEvictable pool (m.keptHits hits (numLocal + numExternal)) +
    if 0 < numExternal then
      m.externalCost numLocal numExternal (m.localTable hits (numLocal + numExternal)).length
    else 0

def computedLength (m : Manager) (hits : List BlockId) (numLocal numExternal : Nat) : Int :=
  (m.localTable hits (numLocal + numExternal)).length +
    if 0 < numExternal then
      m.externalCost numLocal numExternal (m.localTable hits (numLocal + numExternal)).length
    else 0

/-- A request without blocks, and hits that the manager can take. -/
structure FirstFor (m : Manager) (pool : BlockPool) (st : ManagerState) (r : ReqId)
    (hits : List BlockId) (numLocal numExternal : Nat) : Prop where
  kind : m.spec.kind ≠ .crossAttention
  empty : st.blocksOf r = []
  untracked : st.numCachedBlock r = none
  live : ∀ b ∈ hits, b = nullBlock ∨ pool.IsLive b
  distinct : (hits.filter (· ≠ nullBlock)).Nodup
  caching : m.enableCaching = true ∨ hits = []
  fits : numExternal = 0 ∨ hits.length ≤ cdiv (numLocal + numExternal) m.blockSize

variable {hits : List BlockId} {numLocal numExternal : Nat}

section
variable (first : FirstFor m pool st r hits numLocal numExternal)
include first

theorem FirstFor.local_ok
    (h : m.addLocalComputedBlocks pool st r hits numLocal numExternal = .ok p) :
    (p.2.blocksOf r).length = (m.localTable hits (numLocal + numExternal)).length ∧
      p.2.allocatedBlockReqs = st.allocatedBlockReqs := by
  rcases addLocalComputedBlocks_cases h with ⟨hcross, -⟩ | ⟨-, -, -, heq⟩
  · exact absurd hcross first.kind
  · rw [heq]
    exact ⟨congrArg length (blocksOf_setBlocks st r _), rfl⟩

theorem FirstFor.external_fits (hext : 0 < numExternal)
    (hwindow : 0 < m.externalInWindow numLocal numExternal) :
    (m.localTable hits (numLocal + numExternal)).length ≤
      cdiv (numLocal + numExternal) m.blockSize := by
  rw [localTable_length]
  have hskipped := numSkippedBlocks_le (getNumSkippedTokens_le_of_inWindow hwindow)
  have hlen := first.fits.resolve_left (by omega)
  omega

variable (sound : pool.Sound (st.held ++ frame))
include sound

theorem computedFor_spends :
    Spends pool (m.computedCost pool hits numLocal numExternal)
      (m.computedFor pool st r hits numLocal numExternal) := by
  unfold computedFor computedCost
  rw [first.untracked]
  have hnodup := first.distinct.sublist
    ((drop_sublist (m.numSkippedBlocks (numLocal + numExternal)).toNat hits).filter _)
  have hlocal := addLocalComputedBlocks_spends (m := m) numLocal numExternal sound first.kind
    first.empty first.live hnodup first.caching
  refine hlocal.bind ?_ fun p hp => ?_
  · split
    · exact externalCost_nonneg ..
    · exact Int.le_refl 0
  · have hsound := (addLocalComputedBlocks_sound sound first.live hp).1
    split
    · rename_i hext
      rw [← (first.local_ok hp).1]
      refine allocateExternalComputedBlocks_spends hsound fun _ hwindow => ?_
      rw [(first.local_ok hp).1]
      exact first.external_fits hext hwindow
    · exact .nothing hsound p.2

theorem computedFor_ok (h : m.computedFor pool st r hits numLocal numExternal = .ok p) :
    p.1.Sound (p.2.held ++ frame) ∧
      ((p.2.blocksOf r).length : Int) = m.computedLength hits numLocal numExternal ∧
      p.2.allocatedBlockReqs = st.allocatedBlockReqs := by
  unfold computedFor at h
  rw [first.untracked, isSome_none, if_neg Bool.false_ne_true] at h
  unfold computedLength
  simp only [Except.bind] at h
  split at h
  · cases h
  rename_i q hlocal
  have hsound := (addLocalComputedBlocks_sound sound first.live hlocal).1
  obtain ⟨hlen, hallocated⟩ := first.local_ok hlocal
  split at h
  · rename_i hext
    have hfit : m.spec.kind ≠ .crossAttention → 0 < m.externalInWindow numLocal numExternal →
        (q.2.blocksOf r).length ≤ cdiv (numLocal + numExternal) m.blockSize := by
      intro _ hwindow
      rw [hlen]
      exact first.external_fits hext hwindow
    obtain ⟨htable, hsame⟩ := allocateExternalComputedBlocks_table h
    rw [if_pos hext, ← hlen]
    exact ⟨(allocateExternalComputedBlocks_sound hsound hfit h).1, htable, hsame.trans hallocated⟩
  · rename_i hext
    cases h
    rw [if_neg hext, hlen]
    exact ⟨hsound, rfl, hallocated⟩

end

/-! ### Mamba managers -/

/-- What new tokens take behind a table of `len` blocks. -/
def mambaNewCost (m : Manager) (mode : MambaCacheMode) (numSpec numTokens numTokensMain len : Nat)
    (allocated : Bool) : Int :=
  if mode = .align then m.alignCost numSpec numTokensMain len allocated
  else m.newCost (numTokens + m.blockSize * numSpec) len

theorem mambaNewCost_nonneg (m : Manager) (mode : MambaCacheMode)
    (numSpec numTokens numTokensMain len : Nat) (allocated : Bool) :
    0 ≤ m.mambaNewCost mode numSpec numTokens numTokensMain len allocated := by
  unfold mambaNewCost
  split
  · unfold alignCost
    split
    · exact Int.le_refl 0
    · split <;> omega
  · exact newCost_nonneg ..

theorem numEvictable_split (pool : BlockPool) (hits : List BlockId) (k : Nat) :
    numEvictable pool hits = numEvictable pool (hits.take k) + numEvictable pool (hits.drop k) := by
  unfold numEvictable
  rw [← countP_append, take_append_drop]

/-- The prediction is at least what the phases take. In align mode the table and the hits are not
longer than what the tokens require, up to the evictable hits in front of the last state, and
external tokens either end in the last block, or are behind an evictable hit. In the other modes
the predicted speculative blocks are as many as the allocated ones. -/
def PredictionCovers (m : Manager) (mode : MambaCacheMode) (numSpec : Nat) (pool : BlockPool)
    (tableLength : Nat) (hits : List BlockId)
    (numLocal numExternal numTokens numTokensMain : Nat) : Prop :=
  let skipped := (m.numSkippedBlocks (numLocal + numExternal)).toNat
  if mode = .align then
    tableLength + hits.length ≤ cdiv numTokensMain m.blockSize + numSpec +
        numEvictable pool (hits.take skipped) ∧
      (numExternal = 0 ∨ skipped < hits.length ∨
        cdiv numTokensMain m.blockSize ≤
          cdiv (numLocal + numExternal) m.blockSize ∨ 0 < numEvictable pool hits)
  else
    cdiv (numTokens + m.blockSize * numSpec) m.blockSize ≤
        cdiv (numTokens + m.spec.blockSize * numSpec) m.blockSize ∨
      cdiv (numTokens + m.blockSize * numSpec) m.blockSize ≤
        max skipped (tableLength + hits.length)

theorem align_later_covers (m : Manager) (numSpec : Nat) (pool : BlockPool) (st : ManagerState)
    (r : ReqId) (numLocal numTokens numTokensMain : Nat) :
    m.alignCost numSpec numTokensMain (st.blocksOf r).length (st.allocatedBlockReqs r) ≤
        m.alignNumBlocksToAllocate numSpec pool st r [] numTokensMain ↔
      m.PredictionCovers .align numSpec pool (st.blocksOf r).length [] numLocal 0 numTokens
        numTokensMain := by
  unfold PredictionCovers alignNumBlocksToAllocate alignCost
  rw [if_pos rfl, and_iff_left (.inl rfl), take_nil]
  have hnone : numEvictable pool [] = 0 := rfl
  simp only [hnone, length_nil]
  cases st.allocatedBlockReqs r with
  | true =>
    split <;> split <;> omega
  | false =>
    split <;> split <;> omega

variable {mode : MambaCacheMode} {numSpec : Nat} (hkind : m.spec.kind = .mamba mode numSpec)
include hkind

theorem mamba_allocateNewBlocks_spends (sound : pool.Sound (st.held ++ frame))
    (numTokens numTokensMain : Nat)
    (hreserved : st.allocatedBlockReqs r = true → numSpec ≤ (st.blocksOf r).length) :
    Spends pool (m.mambaNewCost mode numSpec numTokens numTokensMain (st.blocksOf r).length
        (st.allocatedBlockReqs r)) (m.allocateNewBlocks pool st r numTokens numTokensMain) := by
  unfold allocateNewBlocks mambaNewCost
  rw [hkind]
  simp only
  split
  · exact alignAllocateNewBlocks_spends sound hreserved
  · exact baseAllocateNewBlocks_spends sound _

theorem mamba_externalCost (hext : 0 < numExternal) (len : Nat) :
    m.externalCost numLocal numExternal len =
      max ((cdiv (numLocal + numExternal) m.blockSize : Int) - len) 0 := by
  have hskipped : m.getNumSkippedTokens (numLocal + numExternal) =
      ((numLocal + numExternal : Nat) : Int) - 1 := by
    rw [getNumSkippedTokens, hkind]
  have hwindow : ¬ m.externalInWindow numLocal numExternal ≤ 0 := by
    unfold externalInWindow
    simp only [hskipped]
    split <;> omega
  unfold externalCost
  rw [if_neg (not_or.mpr ⟨by simp [hkind], hwindow⟩)]

/-- A prediction that the pool can meet is not the one that postpones the request. -/
theorem mamba_prediction (sound : pool.Sound held) {total : Nat}
    (h : m.getNumBlocksToAllocate pool st r numTokens hits total numTokensMain false = .ok n)
    (hfree : n ≤ pool.numFreeBlocks) :
    if mode = .align then n = m.alignNumBlocksToAllocate numSpec pool st r hits numTokensMain
    else m.baseNumBlocksToAllocate pool st r (numTokens + m.spec.blockSize * numSpec) hits total
      false = .ok n := by
  have hle := sound.numFree_le
  unfold getNumBlocksToAllocate at h
  rw [hkind] at h
  simp only at h
  split at h
  · cases h
    omega
  split at h
  · rename_i hmode
    cases h
    rw [if_pos hmode]
  · rename_i hmode
    rw [if_neg hmode]
    exact h

variable (hpos : 0 < m.blockSize) {len : Nat}
include hpos

theorem mamba_numSkippedBlocks (total : Nat) :
    (total = 0 → (m.numSkippedBlocks total).toNat = 0) ∧
      (0 < total → m.numSkippedBlocks total = (m.numSkippedBlocks total).toNat ∧
        cdiv total m.blockSize = (m.numSkippedBlocks total).toNat + 1) := by
  have hskipped : m.numSkippedBlocks total = ((total : Int) - 1) / m.blockSize := by
    rw [numSkippedBlocks, getNumSkippedTokens, hkind]
  constructor
  · intro hzero
    have hneg : ((total : Int) - 1) / m.blockSize < 0 :=
      ediv_neg_of_neg_of_pos (by omega) (by omega)
    omega
  · intro htotal
    have hnat : m.numSkippedBlocks total = (((total - 1) / m.blockSize : Nat) : Int) := by
      rw [hskipped, natCast_ediv]
      congr 1
      omega
    refine ⟨by rw [hnat, toNat_natCast], ?_⟩
    have hsum : total + (m.blockSize - 1) = total - 1 + m.blockSize := by omega
    rw [hnat, cdiv, hsum, Nat.add_div_right _ hpos, toNat_natCast]

/-- What hits and external tokens of a first allocation take, and the table that they leave. -/
theorem mamba_computed (pool : BlockPool) (hits : List BlockId) (numLocal numExternal : Nat) :
    let skipped := (m.numSkippedBlocks (numLocal + numExternal)).toNat
    let external : Int := if 0 < numExternal ∧ hits.length ≤ skipped then 1 else 0
    m.computedCost pool hits numLocal numExternal =
        numEvictable pool (hits.drop skipped) + external ∧
      m.computedLength hits numLocal numExternal = (max skipped hits.length : Nat) + external := by
  obtain ⟨-, hsome⟩ := mamba_numSkippedBlocks hkind hpos (numLocal + numExternal)
  have htable := m.localTable_length hits (numLocal + numExternal)
  simp only
  unfold computedCost computedLength
  rw [keptHits, htable]
  rcases Nat.eq_zero_or_pos numExternal with hext | hext
  · rw [if_neg (by omega), if_neg (by omega)]
    exact ⟨rfl, rfl⟩
  rw [mamba_externalCost hkind hext]
  split <;> omega

theorem align_first_covers (hmode : mode = .align)
    (first : FirstFor m pool st r hits numLocal numExternal)
    (hallocated : st.allocatedBlockReqs r = false) (hmain : numLocal + numExternal ≤ numTokensMain)
    (hlen : (len : Int) = m.computedLength hits numLocal numExternal) :
    m.computedCost pool hits numLocal numExternal + m.alignCost numSpec numTokensMain len false ≤
        m.alignNumBlocksToAllocate numSpec pool st r hits numTokensMain ↔
      m.PredictionCovers mode numSpec pool 0 hits numLocal numExternal numTokens
        numTokensMain := by
  obtain ⟨hzero, hsome⟩ := mamba_numSkippedBlocks hkind hpos (numLocal + numExternal)
  obtain ⟨hcost, hlength⟩ := mamba_computed hkind hpos pool hits numLocal numExternal
  have hcomputed : cdiv (numLocal + numExternal) m.blockSize ≤
      cdiv numTokensMain m.blockSize := cdiv_mono hmain
  rw [hcost]
  rw [hlength] at hlen
  unfold PredictionCovers alignNumBlocksToAllocate alignCost
  rw [first.empty, hallocated]
  simp only [length_nil, Bool.false_eq_true, if_false]
  generalize hskip : (m.numSkippedBlocks (numLocal + numExternal)).toNat = skipped at *
  have hdropped : hits.length ≤ skipped → numEvictable pool (hits.drop skipped) = 0 := by
    intro hle
    rw [drop_eq_nil_of_le hle]
    rfl
  rw [numEvictable_split pool hits skipped]
  generalize numEvictable pool (hits.drop skipped) = dropped at *
  generalize numEvictable pool (hits.take skipped) = taken at *
  generalize cdiv numTokensMain m.blockSize = required at *
  generalize cdiv (numLocal + numExternal) m.blockSize = computed at *
  by_cases hext : 0 < numExternal ∧ hits.length ≤ skipped
  · have hcdiv := (hsome (by omega)).2
    rw [if_pos hext] at hlen ⊢
    split <;> split <;> omega
  · -- no external block: the prediction falls short only if the hits are too long
    have hsecond : numExternal = 0 ∨ skipped < hits.length ∨ required ≤ computed ∨
        0 < taken + dropped := by omega
    rw [if_neg hext] at hlen ⊢
    rw [and_iff_left hsecond]
    clear hdropped hzero hsome hsecond hext
    split <;> split <;> omega

theorem base_first_covers (hmode : mode ≠ .align)
    (first : FirstFor m pool st r hits numLocal numExternal)
    (hslots : numLocal + numExternal ≤ numTokens)
    (hlen : (len : Int) = m.computedLength hits numLocal numExternal)
    (h : m.baseNumBlocksToAllocate pool st r (numTokens + m.spec.blockSize * numSpec) hits
      (numLocal + numExternal) false = .ok n) :
    m.computedCost pool hits numLocal numExternal +
        m.newCost (numTokens + m.blockSize * numSpec) len ≤ n ↔
      m.PredictionCovers mode numSpec pool 0 hits numLocal numExternal numTokens
        numTokensMain := by
  obtain ⟨hzero, hsome⟩ := mamba_numSkippedBlocks hkind hpos (numLocal + numExternal)
  obtain ⟨hcost, hlength⟩ := mamba_computed hkind hpos pool hits numLocal numExternal
  have hneeded : cdiv (numLocal + numExternal) m.blockSize ≤
      cdiv (numTokens + m.blockSize * numSpec) m.blockSize := cdiv_mono (by omega)
  unfold baseNumBlocksToAllocate at h
  rw [first.untracked, first.empty] at h
  simp only [isSome_none, Bool.false_eq_true, if_false, length_nil, requiredBlocks_uncapped] at h
  have hn := Except.ok.inj h
  have hskipNew : (max 0 (m.numSkippedBlocks (numLocal + numExternal) - ((0 : Nat) : Int))).toNat =
      (m.numSkippedBlocks (numLocal + numExternal)).toNat := by omega
  rw [hskipNew] at hn
  rw [hcost, ← hn]
  rw [hlength] at hlen
  unfold PredictionCovers newCost
  rw [if_neg hmode, Nat.zero_add]
  have hmax : max (m.numSkippedBlocks (numLocal + numExternal)) ((hits.length + 0 : Nat) : Int) =
      (max (m.numSkippedBlocks (numLocal + numExternal)).toNat hits.length : Nat) := by omega
  rw [hmax]
  -- an external block is one of the required ones
  have hnew : (if 0 < numExternal ∧
        hits.length ≤ (m.numSkippedBlocks (numLocal + numExternal)).toNat then (1 : Int) else 0) +
      max ((cdiv (numTokens + m.blockSize * numSpec) m.blockSize : Int) - len) 0 =
      max ((cdiv (numTokens + m.blockSize * numSpec) m.blockSize : Int) -
        (max (m.numSkippedBlocks (numLocal + numExternal)).toNat hits.length : Nat)) 0 := by
    split at hlen
    · rename_i hext
      rw [if_pos hext]
      omega
    · rename_i hext
      rw [if_neg hext]
      omega
  omega

theorem base_later_covers (hmode : mode ≠ .align)
    (hcovers : cdiv numLocal m.blockSize ≤ (st.blocksOf r).length)
    (h : m.baseNumBlocksToAllocate pool st r (numTokens + m.spec.blockSize * numSpec) []
      (numLocal + 0) false = .ok n) :
    m.newCost (numTokens + m.blockSize * numSpec) (st.blocksOf r).length ≤ n ↔
      m.PredictionCovers mode numSpec pool (st.blocksOf r).length [] numLocal 0 numTokens
        numTokensMain := by
  obtain ⟨hzero, hsome⟩ := mamba_numSkippedBlocks hkind hpos (numLocal + 0)
  have hskipped : (m.numSkippedBlocks (numLocal + 0)).toNat ≤ (st.blocksOf r).length := by
    rcases Nat.eq_zero_or_pos numLocal with hlocal | hlocal
    · rw [hzero hlocal]
      exact Nat.zero_le _
    · have hcdiv := (hsome hlocal).2
      rw [Nat.add_zero] at hcdiv ⊢
      omega
  have hn : n = max ((cdiv (numTokens + m.spec.blockSize * numSpec) m.blockSize : Int) -
      (st.blocksOf r).length) 0 := by
    unfold baseNumBlocksToAllocate at h
    simp only [requiredBlocks_uncapped, drop_nil, length_nil] at h
    split at h
    · exact (Except.ok.inj h).symm
    have hevictable : numEvictable pool [] = 0 := rfl
    rw [← Except.ok.inj h]
    omega
  unfold PredictionCovers newCost
  rw [if_neg hmode, length_nil]
  omega

end

/-! ### The manager's share of a call -/

section
variable {m : Manager} {i : Nat} {cfg : CacheConfig} {pool : BlockPool} {st : ManagerState}
  {frame : List BlockId} {a : SlotArgs} {mode : MambaCacheMode} {numSpec : Nat}

/-- The call succeeds and takes at most `n` blocks from the free queue. -/
def StaysWithin (m : Manager) (i : Nat) (cfg : CacheConfig) (pool : BlockPool) (st : ManagerState)
    (a : SlotArgs) (n : Int) : Prop :=
  ∃ p, m.takeFor i cfg pool st a = .ok p ∧
    (pool.freeQueue.length : Int) - p.1.freeQueue.length ≤ n

theorem staysWithin_iff (sound : pool.Sound (st.held ++ frame)) {cost : Int}
    (hspends : Spends pool cost (m.takeFor i cfg pool st a))
    (hsound : ∀ p, m.takeFor i cfg pool st a = .ok p → p.1.Sound (p.2.held ++ frame))
    (hfree : n ≤ pool.numFreeBlocks) : m.StaysWithin i cfg pool st a n ↔ cost ≤ n := by
  rw [← hspends.within_iff hfree]
  constructor
  · rintro ⟨p, hp, hle⟩
    rw [← sound.numFree, ← (hsound p hp).numFree] at hle
    exact ⟨p, hp, hle⟩
  · rintro ⟨p, hp, hle⟩
    rw [sound.numFree, (hsound p hp).numFree] at hle
    exact ⟨p, hp, hle⟩

theorem takeFor_sound_of {q : BlockPool × ManagerState} {r : ReqId}
    (sound : q.1.Sound (q.2.held ++ frame))
    (h : ((m.allocateNewBlocks q.1 q.2 r numTokens numTokensMain).map
      fun x => (x.1, x.2.1)) = .ok p) : p.1.Sound (p.2.held ++ frame) := by
  obtain ⟨x, hnew, rfl⟩ := Run.map_eq_ok h
  exact (allocateNewBlocks_sound sound hnew).1

section
variable (hkind : m.spec.kind = .mamba mode numSpec) (hpos : 0 < m.blockSize)
  (sound : pool.Sound (st.held ++ frame))
include hkind hpos sound

theorem later_staysWithin_iff
    (hnone : ¬ (a.newComputedBlocks.any (· ≠ []) ∨ 0 < a.numExternalComputedTokens))
    (hcovers : cdiv a.numLocal m.blockSize ≤ (st.blocksOf a.request.requestId).length)
    (hreserved : st.allocatedBlockReqs a.request.requestId = true →
      numSpec ≤ (st.blocksOf a.request.requestId).length) (h : m.predictFor i cfg pool st a = .ok n)
    (hfree : n ≤ pool.numFreeBlocks) :
    m.takeFor i cfg pool st a ≠ .error .assertion ∧
      (m.StaysWithin i cfg pool st a n ↔
        m.PredictionCovers mode numSpec pool (st.blocksOf a.request.requestId).length
          (a.newComputedBlocks.getD i []) a.numLocal a.numExternalComputedTokens
          (a.numTokensNeedSlot cfg.maxModelLen) (a.numTokensMain cfg.maxModelLen)) := by
  obtain ⟨hhits, hext⟩ := not_or.mp hnone
  have hnew := (mamba_allocateNewBlocks_spends hkind sound (a.numTokensNeedSlot cfg.maxModelLen)
    (a.numTokensMain cfg.maxModelLen) hreserved).map (f := fun x => x.1)
  have htake : m.takeFor i cfg pool st a =
      (m.allocateNewBlocks pool st a.request.requestId (a.numTokensNeedSlot cfg.maxModelLen)
        (a.numTokensMain cfg.maxModelLen)).map fun q => (q.1, q.2.1) := by
    unfold takeFor
    rw [if_neg hnone]
    rfl
  rw [← htake] at hnew
  refine ⟨hnew.ne_assertion, ?_⟩
  have hsound : ∀ p, m.takeFor i cfg pool st a = .ok p → p.1.Sound (p.2.held ++ frame) := by
    intro p hp
    rw [htake] at hp
    exact takeFor_sound_of (q := (pool, st)) sound hp
  have hprediction := mamba_prediction hkind sound h hfree
  rw [staysWithin_iff sound hnew hsound hfree]
  rw [getD_eq_nil hhits, Nat.eq_zero_of_not_pos hext] at hprediction ⊢
  by_cases hmode : mode = .align
  · subst hmode
    rw [hprediction]
    exact align_later_covers ..
  · rw [if_neg hmode] at hprediction
    rw [mambaNewCost, if_neg hmode]
    exact base_later_covers hkind hpos hmode hcovers hprediction

section
variable (first : FirstFor m pool st a.request.requestId (a.newComputedBlocks.getD i []) a.numLocal
    a.numExternalComputedTokens)
  (hallocated : st.allocatedBlockReqs a.request.requestId = false)
include first hallocated

/-- A first call with computed blocks. -/
theorem takeFor_first (cfg : CacheConfig)
    (hphase : a.newComputedBlocks.any (· ≠ []) ∨ 0 < a.numExternalComputedTokens) :
    ∃ len : Nat, (len : Int) = m.computedLength (a.newComputedBlocks.getD i []) a.numLocal
        a.numExternalComputedTokens ∧
      Spends pool (m.computedCost pool (a.newComputedBlocks.getD i []) a.numLocal
          a.numExternalComputedTokens +
          m.mambaNewCost mode numSpec (a.numTokensNeedSlot cfg.maxModelLen)
            (a.numTokensMain cfg.maxModelLen) len false) (m.takeFor i cfg pool st a) ∧
      ∀ p, m.takeFor i cfg pool st a = .ok p → p.1.Sound (p.2.held ++ frame) := by
  unfold takeFor
  obtain ⟨hcost, hlength⟩ := mamba_computed hkind hpos pool _ _ _
  refine ⟨(m.computedLength (a.newComputedBlocks.getD i []) a.numLocal
    a.numExternalComputedTokens).toNat, ?_, ?_⟩
  · rw [hlength]
    split <;> omega
  · rw [if_pos hphase]
    refine ⟨(computedFor_spends first sound).bind (mambaNewCost_nonneg ..) fun p hp => ?_,
      fun p hp => ?_⟩
    · obtain ⟨hsound, hlen, hsame⟩ := computedFor_ok first sound hp
      have hfalse : p.2.allocatedBlockReqs a.request.requestId = false := by
        rw [hsame]
        exact hallocated
      have hnew := mamba_allocateNewBlocks_spends (r := a.request.requestId) hkind hsound
        (a.numTokensNeedSlot cfg.maxModelLen) (a.numTokensMain cfg.maxModelLen)
        (fun htrue => absurd (hfalse.symm.trans htrue) Bool.false_ne_true)
      rw [hfalse] at hnew
      rw [← hlen]
      exact hnew.map
    · cases hcomputed : m.computedFor pool st a.request.requestId
          (a.newComputedBlocks.getD i []) a.numLocal a.numExternalComputedTokens with
      | error e =>
        rw [hcomputed] at hp
        cases hp
      | ok q =>
        rw [hcomputed] at hp
        exact takeFor_sound_of (computedFor_ok first sound hcomputed).1 hp

theorem first_staysWithin_iff (hempty : (∀ i, a.newComputedBlocks.getD i [] = []) →
      a.numExternalComputedTokens = 0 → a.numLocal = 0)
    (hmodel : a.numLocal + a.numExternalComputedTokens ≤ cfg.maxModelLen)
    (hcount : 0 ≤ a.numNewTokens) (h : m.predictFor i cfg pool st a = .ok n)
    (hfree : n ≤ pool.numFreeBlocks) : m.takeFor i cfg pool st a ≠ .error .assertion ∧
      (m.StaysWithin i cfg pool st a n ↔
        m.PredictionCovers mode numSpec pool (st.blocksOf a.request.requestId).length
          (a.newComputedBlocks.getD i []) a.numLocal a.numExternalComputedTokens
          (a.numTokensNeedSlot cfg.maxModelLen) (a.numTokensMain cfg.maxModelLen)) := by
  by_cases hphase : a.newComputedBlocks.any (· ≠ []) ∨ 0 < a.numExternalComputedTokens
  swap
  · obtain ⟨hnone, hext⟩ := not_or.mp hphase
    refine later_staysWithin_iff hkind hpos sound hphase ?_
      (fun h => absurd (hallocated.symm.trans h) Bool.false_ne_true) h hfree
    rw [hempty (getD_eq_nil hnone) (Nat.eq_zero_of_not_pos hext), cdiv_zero]
    exact Nat.zero_le _
  obtain ⟨len, hlen, hspends, hsound⟩ := takeFor_first hkind hpos sound first hallocated cfg hphase
  refine ⟨hspends.ne_assertion, ?_⟩
  have hmain : a.numLocal + a.numExternalComputedTokens ≤ a.numTokensMain cfg.maxModelLen := by
    unfold SlotArgs.numTokensMain SlotArgs.totalComputed
    omega
  have hslots : a.numLocal + a.numExternalComputedTokens ≤ a.numTokensNeedSlot cfg.maxModelLen := by
    unfold SlotArgs.numTokensNeedSlot SlotArgs.totalComputed
    omega
  have hprediction := mamba_prediction hkind sound h hfree
  rw [staysWithin_iff sound hspends hsound hfree, first.empty]
  by_cases hmode : mode = .align
  · rw [if_pos hmode] at hprediction
    rw [hprediction, mambaNewCost, if_pos hmode]
    exact align_first_covers hkind hpos hmode first hallocated hmain hlen
  · rw [if_neg hmode] at hprediction
    rw [mambaNewCost, if_neg hmode]
    exact base_first_covers hkind hpos hmode first hslots hlen hprediction

end

end
end
end Manager

theorem groupsHeld_perm {groups : List Group} {i : Nat} {g : Group} (h : groups[i]? = some g) :
    (groupsHeld groups).Perm (g.2.held ++ groupsHeld (groups.eraseIdx i)) := by
  obtain ⟨hlt, rfl⟩ := List.getElem?_eq_some_iff.mp h
  exact ((getElem_cons_eraseIdx_perm hlt).symm.flatMap_right _).trans (.refl _)

/-- In every scheduler-driven run whose allocations fit, the assertions of a Mamba manager hold in
every call, and the call stays within the manager's prediction exactly when it covers it. -/
theorem reaches_mamba_staysWithin_iff (cfg : CacheConfig) (s : SchedState)
    (h : Run.Reaches cfg.schedStep cfg.ScheduledStep { toKVState := cfg.create } s)
    (lookup : Bool) (a a' : SlotArgs)
    (hstep : cfg.ScheduledStep s (.call (.allocateSlots lookup a)))
    (hargs : cfg.withHits s.toKVState lookup a = .ok a')
    (hmodel : a'.numLocal + a'.numExternalComputedTokens ≤ cfg.maxModelLen) (s₁ : KVState)
    (hremove : afterRemoval cfg s.toKVState a' = .ok s₁) (i : Nat) (m : Manager)
    (st : ManagerState) (hg : s₁.groups[i]? = some (m, st)) (mode : MambaCacheMode)
    (numSpec : Nat) (hkind : m.spec.kind = .mamba mode numSpec) (n : Int)
    (hpredict : m.predictFor i cfg s₁.pool st a' = .ok n) (hfree : n ≤ s₁.pool.numFreeBlocks) :
    m.takeFor i cfg s₁.pool st a' ≠ .error .assertion ∧
      (m.StaysWithin i cfg s₁.pool st a' n ↔
        m.PredictionCovers mode numSpec s₁.pool (st.blocksOf a'.request.requestId).length
          (a'.newComputedBlocks.getD i []) a'.numLocal a'.numExternalComputedTokens
          (a'.numTokensNeedSlot cfg.maxModelLen) (a'.numTokensMain cfg.maxModelLen)) := by
  have inv : cfg.SchedInv s := h.invariant (SchedInv.start cfg)
    fun _ op _ inv hok hstep => schedStep_inv inv op hok hstep
  obtain ⟨⟨⟨hnodup, -⟩, hcontinues⟩, hfits⟩ := hstep
  have hrun := (inv.removed hremove).run
  obtain ⟨spec, hspec, hm⟩ : ∃ spec, cfg.groups[i]? = some spec ∧ m = cfg.manager i spec :=
    hrun.group hg
  have hpos : 0 < m.blockSize := by
    rw [hm]
    exact Nat.mul_pos (cfg.block_size_pos spec (mem_of_getElem? hspec)) cfg.world_pos
  have hsound : s₁.pool.Sound
      (st.held ++ (groupsHeld (s₁.groups.eraseIdx i) ++ s.popped.flatten)) := by
    refine hrun.owned.1.perm ?_
    rw [← append_assoc]
    exact (groupsHeld_perm hg).append_right _
  have hcross : m.spec.kind ≠ .crossAttention := by
    rw [hkind]
    exact nofun
  cases hcomputed : s.computed a.request.requestId with
  | none =>
    rw [hcomputed] at hcontinues
    have call := inv.firstCall hargs hremove hnodup hcomputed hfits
    have hfirst := call.first i (m, st) hg
    obtain ⟨huntracked, hallocated⟩ := call.untracked i (m, st) hg
    have hlive : ∀ b ∈ a'.newComputedBlocks.getD i [], b = nullBlock ∨ s₁.pool.IsLive b := by
      intro b hb
      have hb' := call.live i b hb
      rw [← hrun.owned.2] at hb'
      exact hb'
    refine Manager.first_staysWithin_iff hkind hpos hsound
      { kind := hcross
        empty := hfirst.empty
        untracked := huntracked
        live := hlive
        distinct := filter_nodup_of_getElem?_inj _ fun k k' b hb hk hk' =>
          (call.distinct i i k k' b hb hk hk').2
        caching := hfirst.caching
        fits := call.fits i (m, st) hg } hallocated
      (fun hnil _ => withHits_empty hcontinues.1 hargs hnil) hmodel ?_ hpredict hfree
    rw [(withHits_request hargs).2.2.1]
    exact hcontinues.2
  | some c =>
    rw [hcomputed] at hcontinues
    obtain ⟨hnone, htables⟩ := inv.continued hargs hremove hcomputed hcontinues hmodel
    obtain ⟨hcovers, hreserved⟩ := htables i (m, st) hg
    have hspeculative : m.numSpeculative = numSpec := by
      rw [Manager.numSpeculative, hkind]
    exact Manager.later_staysWithin_iff hkind hpos hsound hnone (hcovers hcross)
      (hspeculative ▸ hreserved) hpredict hfree

/-- The blocks that group `i` predicts and takes in a call whose prediction is free. -/
def predictedAndTaken (cfg : CacheConfig) (s : KVState) (lookup : Bool) (a : SlotArgs) (i : Nat) :
    Option (Int × Int) :=
  match cfg.withHits s lookup a with
  | .error _ => none
  | .ok a' =>
    match afterRemoval cfg s a' with
    | .error _ => none
    | .ok s₁ =>
      match s₁.groups[i]? with
      | none => none
      | some (m, st) =>
        match m.predictFor i cfg s₁.pool st a', m.takeFor i cfg s₁.pool st a' with
        | .ok n, .ok p =>
          if n ≤ s₁.pool.numFreeBlocks then
            some (n, (s₁.pool.freeQueue.length : Int) - p.1.freeQueue.length)
          else none
        | _, _ => none

theorem predictedAndTaken_eq {cfg : CacheConfig} {s : KVState} {lookup : Bool} {a : SlotArgs}
    {i : Nat} {taken : Int} (h : predictedAndTaken cfg s lookup a i = some (n, taken)) :
    ∃ a' s₁ m st p, cfg.withHits s lookup a = .ok a' ∧ afterRemoval cfg s a' = .ok s₁ ∧
      s₁.groups[i]? = some (m, st) ∧ m.predictFor i cfg s₁.pool st a' = .ok n ∧
      n ≤ s₁.pool.numFreeBlocks ∧ m.takeFor i cfg s₁.pool st a' = .ok p ∧
      (s₁.pool.freeQueue.length : Int) - p.1.freeQueue.length = taken := by
  unfold predictedAndTaken at h
  split at h
  · cases h
  rename_i a' hargs
  split at h
  · cases h
  rename_i s₁ hremove
  split at h
  · cases h
  rename_i m st hg
  split at h
  · rename_i p hpredict htake
    split at h
    · rename_i hfree
      cases h
      exact ⟨a', s₁, m, st, p, hargs, hremove, hg, hpredict, hfree, htake, rfl⟩
    · cases h
  · cases h

def oneMamba : CacheConfig :=
  { oneGroup with
    groups := [⟨⟨2, .mamba .align 0, 0⟩, false⟩]
    block_size_pos := by decide
    window_pos := by decide
    hash_dvd := by decide
    world_one := by decide
    two_groups := by decide
    ids_fit := by decide }

/-- A prompt is computed in two steps and freed. -/
def twoStepsAndFree : List SchedOp :=
  [.call (.allocateSlots true
      { request := promptRequest 0 7 [[1], [2], [3]], numNewTokens := 4 }),
    .call .newStepStarts,
    .call (.allocateSlots false
      { request := { promptRequest 0 7 [[1], [2], [3]] with numComputedTokens := 4 },
        numNewTokens := 3 }),
    .call (.free 0), .call .newStepStarts]

def fiveMoreTokens : SlotArgs where
  request := promptRequest 1 9 [[1], [2], [3], [4]]
  numNewTokens := 5

/-- The next request hits four tokens of it. -/
theorem reaches_mamba_staysWithin_iff_oneMamba :
    ∃ s a' s₁ m st, Run.Reaches oneMamba.schedStep oneMamba.ScheduledStep
        { toKVState := oneMamba.create } s ∧
      oneMamba.withHits s.toKVState true fiveMoreTokens = .ok a' ∧ a'.numNewComputedTokens = 4 ∧
      afterRemoval oneMamba s.toKVState a' = .ok s₁ ∧ s₁.groups[0]? = some (m, st) ∧
      m.predictFor 0 oneMamba s₁.pool st a' = .ok 2 ∧
      m.takeFor 0 oneMamba s₁.pool st a' ≠ .error .assertion ∧
      (m.StaysWithin 0 oneMamba s₁.pool st a' 2 ↔
        m.PredictionCovers .align 0 s₁.pool (st.blocksOf a'.request.requestId).length
          (a'.newComputedBlocks.getD 0 []) a'.numLocal a'.numExternalComputedTokens
          (a'.numTokensNeedSlot 64) (a'.numTokensMain 64)) := by
  have hrun : (Run.runIf oneMamba.schedStep SchedulerCall { toKVState := oneMamba.create }
      twoStepsAndFree).map (fun s => (s.computed 1,
        (oneMamba.withHits s.toKVState true fiveMoreTokens).map (·.numNewComputedTokens),
        predictedAndTaken oneMamba s.toKVState true fiveMoreTokens 0)) =
        some (none, .ok 4, some (2, 2)) := by decide +kernel
  obtain ⟨s, hstate, hview⟩ := map_eq_some_iff.mp hrun
  simp only [Prod.mk.injEq] at hview
  obtain ⟨hcomputed, hnum, hcall⟩ := hview
  have hsched : ∀ s op, SchedulerCall s op → oneMamba.ScheduledStep s op := by
    intro s op hcall
    refine ⟨hcall, ?_⟩
    cases op with
    | call op => exact allocationFits_of_alwaysFits (.inr (.inl rfl)) s.toRunState op
    | rollback r n => trivial
  have hreach := (Run.Reaches.start.runIf twoStepsAndFree hstate).mono hsched
  obtain ⟨a', s₁, m, st, p, hargs, hremove, hg, hpredict, hfree, -⟩ := predictedAndTaken_eq hcall
  rw [hargs] at hnum
  have hnum : a'.numNewComputedTokens = 4 := Except.ok.inj hnum
  obtain ⟨hrequest, hexternal, -⟩ := withHits_request hargs
  have hlocal : a'.numLocal + a'.numExternalComputedTokens ≤ oneMamba.maxModelLen := by
    rw [SlotArgs.numLocal, hnum, hrequest, hexternal]
    decide
  have hkind : m.spec.kind = .mamba .align 0 := by
    have inv : oneMamba.SchedInv s := hreach.invariant (SchedInv.start oneMamba)
      fun _ op _ inv hok hstep => schedStep_inv inv op hok hstep
    have hmanagers := congrArg (·[0]?) ((forGroupsUnit_managers hremove).trans inv.run.managers)
    simp only [managers, getElem?_map, hg, map_some] at hmanagers
    rw [some.inj hmanagers]
    rfl
  have hcontinues : Continues (s.computed 1) true fiveMoreTokens := by
    rw [hcomputed]
    decide
  refine ⟨s, a', s₁, m, st, hreach, hargs, hnum, hremove, hg, hpredict, ?_⟩
  exact reaches_mamba_staysWithin_iff oneMamba s hreach true fiveMoreTokens a'
    (hsched s _ ⟨by decide, hcontinues⟩) hargs hlocal s₁ hremove 0 m st hg .align 0 hkind 2
    hpredict hfree

def twoLoadedTokens : SlotArgs where
  request := promptRequest 0 7 [[1], [2], [3]]
  numNewTokens := 5
  numExternalComputedTokens := 2

/-- The external state and the running state are two blocks, but one is predicted. -/
theorem mamba_prediction_too_small :
    SchedulerCall { toKVState := oneMamba.create } (.call (.allocateSlots true twoLoadedTokens)) ∧
      ∃ a' s₁ m st, oneMamba.withHits oneMamba.create true twoLoadedTokens = .ok a' ∧
        afterRemoval oneMamba oneMamba.create a' = .ok s₁ ∧ s₁.groups[0]? = some (m, st) ∧
        m.predictFor 0 oneMamba s₁.pool st a' = .ok 1 ∧ 1 ≤ s₁.pool.numFreeBlocks ∧
        ¬ m.StaysWithin 0 oneMamba s₁.pool st a' 1 := by
  refine ⟨by decide, ?_⟩
  have hcall : predictedAndTaken oneMamba oneMamba.create true twoLoadedTokens 0 = some (1, 2) := by
    decide +kernel
  obtain ⟨a', s₁, m, st, p, hargs, hremove, hg, hpredict, hfree, htake, htaken⟩ :=
    predictedAndTaken_eq hcall
  refine ⟨a', s₁, m, st, hargs, hremove, hg, hpredict, hfree, ?_⟩
  rintro ⟨p', htake', hle⟩
  cases htake.symm.trans htake'
  omega

end Vllm.KVCache
