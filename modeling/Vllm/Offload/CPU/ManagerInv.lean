import Vllm.Offload.CPU.Manager

/-! The invariant of the CPU offloading manager and what each call does to it. -/
namespace Vllm.Offload.CPU
open Multiset CachePolicy CPUOffloadingManager

theorem int32_of_lt {n : Int} (hneg : -1 ≤ n) (hlt : n < 2 ^ 31) : int32 n = n := by
  rw [int32, Int.bmod_def]
  omega

variable {refCnt : Int} {block : BlockStatus} {K : Type}

theorem Recounts.keys {key : K} {live live' : Multiset (K × BlockStatus)}
    (h : Recounts key block refCnt live live') :
    live'.map Prod.fst = live.map Prod.fst := by
  obtain ⟨rest, rfl, rfl⟩ := h
  simp only [map_cons]

theorem Recounts.placement {key : K} {live live' : Multiset (K × BlockStatus)}
    (h : Recounts key block refCnt live live') :
    live'.map (fun e => (e.1, e.2.blockId)) = live.map (fun e => (e.1, e.2.blockId)) := by
  obtain ⟨rest, rfl, rfl⟩ := h
  simp only [map_cons]

/-- The slots that `_allocate_blocks` hands out were in no use. -/
theorem CPUOffloadingManager.allocateBlocks_ok {σ : Type} {m : CPUOffloadingManager K σ} {n : Nat}
    (hle : m.numAllocatedBlocks ≤ m.numBlocks) (hroom : (n : Int) ≤ m.getNumFreeBlocks) :
    ∃ blockIds freeList numAllocatedBlocks, m.allocateBlocks n =
        .ok (blockIds, { m with numAllocatedBlocks, freeList }) ∧
      blockIds.length = n ∧ numAllocatedBlocks ≤ m.numBlocks ∧
      (blockIds : Multiset Nat) + freeList + range m.numAllocatedBlocks =
        m.freeList + range numAllocatedBlocks := by
  unfold getNumFreeBlocks at hroom
  unfold allocateBlocks
  generalize hfresh : min n (m.numBlocks - m.numAllocatedBlocks) = fresh
  have hnumFresh : min (n : Int) (m.numBlocks - m.numAllocatedBlocks) = fresh := by omega
  simp only [hnumFresh]
  rw [if_neg (by omega)]
  have hreused : ((n : Int) - fresh).toNat = n - fresh := by omega
  simp only [Int.toNat_natCast, hreused]
  refine ⟨_, _, _, rfl, ?_, by omega, ?_⟩
  · rw [List.length_append, List.length_range', List.length_take, List.length_reverse]
    omega
  · have hsplit : (m.freeList : Multiset Nat) = (m.freeList.reverse.take (n - fresh) : List Nat) +
        ((m.freeList.reverse.drop (n - fresh)).reverse : List Nat) := by
      rw [coe_reverse, coe_add, List.take_append_drop, coe_reverse]
    have hrange : range (m.numAllocatedBlocks + fresh) =
        range m.numAllocatedBlocks + (List.range' m.numAllocatedBlocks fresh : List Nat) := by
      rw [← coe_range, ← coe_range, coe_add, List.range_eq_range',
        List.range_eq_range', ← List.range'_append]
      simp
    rw [hsplit, hrange, ← coe_add]
    abel

section
variable {K σ : Type} [CachePolicy K σ] [LawfulCachePolicy K σ]

namespace CPUOffloadingManager

def live (m : CPUOffloadingManager K σ) : Multiset (K × BlockStatus) :=
  LawfulCachePolicy.live m.policy

variable (m : CPUOffloadingManager K σ)

def liveKeys : Multiset K := m.live.map Prod.fst

def slots : Multiset Nat := m.live.map (·.2.blockId)

def placement : Multiset (K × Nat) :=
  m.live.map fun e => (e.1, e.2.blockId)

theorem liveKeys_eq : m.liveKeys = m.placement.map Prod.fst := by
  rw [placement, map_map]
  rfl

theorem slots_eq : m.slots = m.placement.map Prod.snd := by
  rw [placement, map_map]
  rfl

theorem liveKeys_emit (keys : List K) (removed : Bool) :
    (m.emit keys removed).liveKeys = m.liveKeys := by
  unfold emit
  split
  · rfl
  · rfl

end CPUOffloadingManager

/-- A call leaves every block in its slot and emits nothing. -/
structure Keeps (m m' : CPUOffloadingManager K σ) : Prop where
  placement : m'.placement = m.placement
  events : m'.events = m.events

theorem Keeps.trans {m m' m'' : CPUOffloadingManager K σ} (h : Keeps m m') (h' : Keeps m' m'') :
    Keeps m m'' :=
  ⟨h'.placement.trans h.placement, h'.events.trans h.events⟩

theorem Keeps.liveKeys {m m' : CPUOffloadingManager K σ} (h : Keeps m m') :
    m'.liveKeys = m.liveKeys := by
  rw [liveKeys_eq, h.placement, ← liveKeys_eq]

theorem LawfulCachePolicy.insertAll {p : σ} (blocks : List (K × Nat)) (hp : Inv p)
    (hnodup : (blocks.map Prod.fst).Nodup) (hnew : ∀ e ∈ blocks, get p e.1 = none) :
    let p' := blocks.foldl (fun p e => insert p e.1 { blockId := e.2 }) p
    Inv p' ∧ live p' =
      ((blocks.map fun e => (e.1, { blockId := e.2 }) : List (K × BlockStatus)) :
        Multiset (K × BlockStatus)) + live p := by
  induction blocks generalizing p with
  | nil => exact ⟨hp, (zero_add _).symm⟩
  | cons e blocks ih =>
    obtain ⟨hnot, hnodup⟩ := List.nodup_cons.mp hnodup
    have hcnt : ({ blockId := e.2 } : BlockStatus).refCnt ≠ 0 := by simp
    obtain ⟨hinv, hlive⟩ := insert_new hp (hnew e List.mem_cons_self) hcnt
    have hrest : ∀ e' ∈ blocks, get (insert p e.1 { blockId := e.2 }) e'.1 = none := by
      intro e' he'
      rw [Option.eq_none_iff_forall_ne_some]
      intro b hb
      rw [get_iff hinv, hlive, mem_cons] at hb
      rcases hb with heq | hb
      · have hkey : e'.1 = e.1 := (Prod.mk.inj heq).1
        exact hnot (List.mem_map.mpr ⟨e', he', hkey⟩)
      · have hsome := (get_iff hp).mpr hb
        rw [hnew e' (List.mem_cons_of_mem _ he')] at hsome
        cases hsome
    obtain ⟨hinv', hlive'⟩ := ih hinv hnodup hrest
    refine ⟨hinv', ?_⟩
    rw [List.foldl_cons, hlive', hlive, List.map_cons, ← cons_coe, cons_add, add_cons]

variable [DecidableEq K] {keys : List K}

/-- What holds between calls: `reading` has each key once for each load that is not completed,
`writing` the keys whose store is not completed. -/
structure ManagerInv (reading writing : Multiset K) (m : CPUOffloadingManager K σ) : Prop where
  policy : LawfulCachePolicy.Inv m.policy
  slots : m.slots + m.freeList = range m.numAllocatedBlocks
  allocated_le : m.numAllocatedBlocks ≤ m.numBlocks
  evictable : m.numEvictableCacheBlocks = (m.live.countP (·.2.refCnt = 0) : Nat)
  refs : ∀ e ∈ m.live, e.2.refCnt = if e.1 ∈ writing then -1 else (reading.count e.1 : Int)
  reading_live : ∀ key ∈ reading, key ∈ m.liveKeys ∧ key ∉ writing
  writing_live : ∀ key ∈ writing, key ∈ m.liveKeys
  writing_nodup : writing.Nodup
  bounded : ∀ key, reading.count key < 2 ^ 31

theorem le_erase_of_cons_le {key : K} {s : Multiset K}
    (h : ((key :: keys : List K) : Multiset K) ≤ s) :
    key ∈ s ∧ (keys : Multiset K) ≤ s.erase key := by
  rw [← cons_coe] at h
  have hmem := mem_of_le h (mem_cons_self _ _)
  refine ⟨hmem, ?_⟩
  rw [← cons_le_cons_iff key, cons_erase hmem]
  exact h

namespace ManagerInv

variable {reading writing : Multiset K} {m m' : CPUOffloadingManager K σ} {key : K}
  {block : BlockStatus} {policy : σ}

section
variable (inv : ManagerInv reading writing m)
include inv

theorem nodup_keys : m.liveKeys.Nodup :=
  LawfulCachePolicy.nodup_keys inv.policy

theorem get_iff : get m.policy key = some block ↔ (key, block) ∈ m.live :=
  LawfulCachePolicy.get_iff inv.policy

theorem exists_get (h : key ∈ m.liveKeys) : ∃ block, get m.policy key = some block := by
  obtain ⟨e, he, rfl⟩ := mem_map.mp h
  exact ⟨e.2, inv.get_iff.mpr he⟩

theorem mem_liveKeys (h : get m.policy key = some block) : key ∈ m.liveKeys :=
  mem_map.mpr ⟨_, inv.get_iff.mp h, rfl⟩

theorem get_none_iff : get m.policy key = none ↔ key ∉ m.liveKeys := by
  rw [← not_iff_not, not_not, ← ne_eq, Option.ne_none_iff_exists']
  exact ⟨fun ⟨_, h⟩ => inv.mem_liveKeys h, inv.exists_get⟩

theorem refCnt_eq (h : get m.policy key = some block) :
    block.refCnt = if key ∈ writing then -1 else (reading.count key : Int) :=
  inv.refs _ (inv.get_iff.mp h)

theorem isReady_iff (h : get m.policy key = some block) : block.isReady = true ↔ key ∉ writing := by
  rw [BlockStatus.isReady, inv.refCnt_eq h]
  split
  · rename_i hw
    simp [hw]
  · rename_i hw
    simp [hw]

/-- The count of one block changes, with who uses it. -/
theorem recount {numEvictable : Int} {reading' writing' : Multiset K}
    (hpolicy : LawfulCachePolicy.Inv policy)
    (hlive : Recounts key block refCnt m.live (LawfulCachePolicy.live policy))
    (hcnt : refCnt = if key ∈ writing' then -1 else (reading'.count key : Int))
    (hwriting : ∀ k, k ≠ key → (k ∈ writing' ↔ k ∈ writing))
    (hreading : ∀ k, k ≠ key → reading'.count k = reading.count k)
    (hevictable : numEvictable = m.numEvictableCacheBlocks + (if refCnt = 0 then 1 else 0) -
      (if block.refCnt = 0 then 1 else 0)) (hapart : key ∈ reading' → key ∉ writing')
    (hnodup : writing'.Nodup) (hbounded : reading'.count key < 2 ^ 31) :
    ManagerInv reading' writing'
      { m with policy, numEvictableCacheBlocks := numEvictable } := by
  have hkeys : liveKeys
      { m with policy, numEvictableCacheBlocks := numEvictable } = m.liveKeys := hlive.keys
  have hplacement : placement
      { m with policy, numEvictableCacheBlocks := numEvictable } = m.placement := hlive.placement
  obtain ⟨rest, hold, hnew⟩ := hlive
  have hkey : key ∈ m.liveKeys := by
    rw [liveKeys, hold]
    exact mem_map_of_mem _ (mem_cons_self _ _)
  have hrest : ∀ e ∈ rest, e.1 ≠ key := by
    intro e he heq
    have hkeys' := inv.nodup_keys
    rw [liveKeys, hold, map_cons, nodup_cons] at hkeys'
    exact hkeys'.1 (mem_map.mpr ⟨e, he, heq⟩)
  have hreading_mem : ∀ k, k ≠ key → (k ∈ reading' ↔ k ∈ reading) := by
    intro k hk
    rw [← count_pos, hreading k hk, count_pos]
  exact {
    policy := hpolicy
    slots := by
      rw [slots_eq, hplacement, ← slots_eq]
      exact inv.slots
    allocated_le := inv.allocated_le
    evictable := by
      have hcount := inv.evictable
      rw [live] at hcount ⊢
      rw [live] at hold
      rw [hold] at hcount
      simp only [hnew, countP_cons, hevictable, hcount, Nat.cast_add, Nat.cast_ite,
        Nat.cast_one, Nat.cast_zero]
      omega
    refs := by
      intro e he
      change e ∈ LawfulCachePolicy.live policy at he
      rw [hnew, mem_cons] at he
      rcases he with rfl | he
      · exact hcnt
      · rw [hreading e.1 (hrest e he), inv.refs e (hold ▸ mem_cons_of_mem he)]
        simp only [hwriting e.1 (hrest e he)]
    reading_live := by
      intro k hk
      have hk' : k ∈ m.liveKeys ∧ k ∉ writing' := by
        by_cases heq : k = key
        · subst heq
          exact ⟨hkey, hapart hk⟩
        · rw [hwriting k heq]
          exact inv.reading_live k ((hreading_mem k heq).mp hk)
      rw [hkeys]
      exact hk'
    writing_live := by
      intro k hk
      have hk' : k ∈ m.liveKeys := by
        by_cases heq : k = key
        · exact heq ▸ hkey
        · exact inv.writing_live k ((hwriting k heq).mp hk)
      rw [hkeys]
      exact hk'
    writing_nodup := hnodup
    bounded := by
      intro k
      by_cases heq : k = key
      · exact heq ▸ hbounded
      · rw [hreading k heq]
        exact inv.bounded k }

/-! ### Loads -/

theorem loadOne (hlive : key ∈ m.liveKeys)
    (hready : key ∉ writing) (hroom : reading.count key + 1 < 2 ^ 31) :
    ∃ blockId m', m.loadOne key = .ok (blockId, m') ∧ ManagerInv (key ::ₘ reading) writing m' ∧
      Keeps m m' ∧ (key, blockId) ∈ m.placement := by
  obtain ⟨block, hget⟩ := inv.exists_get hlive
  have hcnt := inv.refCnt_eq hget
  rw [if_neg hready] at hcnt
  have hisReady := (inv.isReady_iff hget).mpr hready
  have hwrap : int32 (block.refCnt + 1) = ((key ::ₘ reading).count key : Int) := by
    rw [int32_of_lt (by omega) (by omega), hcnt, count_cons_self]
    rfl
  have hplace : (key, block.blockId) ∈ m.placement := mem_map.mpr ⟨_, inv.get_iff.mp hget, rfl⟩
  have hnonzero : int32 (block.refCnt + 1) ≠ 0 := by
    rw [hwrap, count_cons_self]
    omega
  have hother : ∀ k, k ≠ key → (key ::ₘ reading).count k = reading.count k := fun k hk =>
    count_cons_of_ne hk _
  have hbounded : (key ::ₘ reading).count key < 2 ^ 31 := by
    rw [count_cons_self]
    exact hroom
  unfold CPUOffloadingManager.loadOne
  simp only [hget, hisReady, Bool.true_eq_false, if_false]
  split
  · rename_i hzero
    obtain ⟨p, hmark, hinv, hre⟩ := LawfulCachePolicy.pin inv.policy hget hzero hnonzero
    have hpos : 0 < m.live.countP (·.2.refCnt = 0) := countP_pos.mpr ⟨_, inv.get_iff.mp hget, hzero⟩
    have hnum := inv.evictable
    simp only [hmark]
    rw [if_neg (by omega)]
    refine ⟨_, _, rfl, ?_, ⟨hre.placement, rfl⟩, hplace⟩
    refine inv.recount hinv hre ?_ (fun _ _ => Iff.rfl) hother ?_ (fun _ => hready)
      inv.writing_nodup hbounded
    · rw [if_neg hready]
      exact hwrap
    · omega
  · rename_i hused
    obtain ⟨hinv, hre⟩ := LawfulCachePolicy.repin inv.policy hget hused hnonzero
    refine ⟨_, _, rfl, ?_, ⟨hre.placement, rfl⟩, hplace⟩
    refine inv.recount hinv hre ?_ (fun _ _ => Iff.rfl) hother ?_ (fun _ => hready)
      inv.writing_nodup hbounded
    · rw [if_neg hready]
      exact hwrap
    · omega

theorem prepareLoad (keys : List K) (hnodup : keys.Nodup)
    (hkeys : ∀ key ∈ keys, key ∈ m.liveKeys ∧ key ∉ writing ∧ reading.count key + 1 < 2 ^ 31) :
    ∃ blockIds m', prepareLoad keys m = .ok (blockIds, m') ∧
      ManagerInv ((keys : Multiset K) + reading) writing m' ∧ Keeps m m' ∧
      List.Forall₂ (fun key blockId => (key, blockId) ∈ m.placement) keys blockIds := by
  induction keys generalizing m reading with
  | nil =>
    refine ⟨[], m, rfl, ?_, ⟨rfl, rfl⟩, .nil⟩
    rw [coe_nil, zero_add]
    exact inv
  | cons key keys ih =>
    obtain ⟨hnot, hnodup⟩ := List.nodup_cons.mp hnodup
    obtain ⟨hlive, hready, hroom⟩ := hkeys key List.mem_cons_self
    obtain ⟨blockId, m₁, hone, hinv, hkeep, hplace⟩ := inv.loadOne hlive hready hroom
    have hrest : ∀ k ∈ keys, k ∈ m₁.liveKeys ∧ k ∉ writing ∧
        (key ::ₘ reading).count k + 1 < 2 ^ 31 := by
      intro k hk
      obtain ⟨hlive', hready', hroom'⟩ := hkeys k (List.mem_cons_of_mem _ hk)
      refine ⟨?_, hready', ?_⟩
      · rw [hkeep.liveKeys]
        exact hlive'
      · have hne : k ≠ key := fun heq => hnot (heq ▸ hk)
        rw [count_cons_of_ne hne]
        exact hroom'
    obtain ⟨blockIds, m₂, hload, hinv', hkeep', hplaces⟩ := ih hinv hnodup hrest
    refine ⟨blockId :: blockIds, m₂, ?_, ?_, hkeep.trans hkeep', .cons hplace ?_⟩
    · rw [prepareLoad, hone]
      simp only [hload]
    · rw [← cons_coe, cons_add]
      rw [add_cons] at hinv'
      exact hinv'
    · rw [← hkeep.placement]
      exact hplaces

theorem unloadOne (hkey : key ∈ reading) :
    ∃ m', m.unloadOne key = .ok m' ∧ ManagerInv (reading.erase key) writing m' ∧ Keeps m m' := by
  obtain ⟨hlive, hready⟩ := inv.reading_live key hkey
  obtain ⟨block, hget⟩ := inv.exists_get hlive
  have hcnt := inv.refCnt_eq hget
  rw [if_neg hready] at hcnt
  have hpos : 0 < reading.count key := count_pos.mpr hkey
  have hlt := inv.bounded key
  have hwrap : int32 (block.refCnt - 1) = ((reading.erase key).count key : Int) := by
    rw [int32_of_lt (by omega) (by omega), hcnt, count_erase_self]
    omega
  have hused : block.refCnt ≠ 0 := by omega
  have hother : ∀ k, k ≠ key → (reading.erase key).count k = reading.count k := fun k hk =>
    count_erase_of_ne hk _
  have hbounded : (reading.erase key).count key < 2 ^ 31 := by
    rw [count_erase_self]
    omega
  unfold CPUOffloadingManager.unloadOne
  simp only [hget]
  rw [if_neg (by omega)]
  split
  · rename_i hzero
    obtain ⟨hinv, hre⟩ := LawfulCachePolicy.unpin inv.policy hget hused
    rw [hzero]
    refine ⟨_, rfl, ?_, ⟨hre.placement, rfl⟩⟩
    refine inv.recount hinv hre ?_ (fun _ _ => Iff.rfl) hother ?_ (fun _ => hready)
      inv.writing_nodup hbounded
    · rw [if_neg hready, ← hwrap, hzero]
    · omega
  · rename_i hnonzero
    obtain ⟨hinv, hre⟩ := LawfulCachePolicy.repin inv.policy hget hused hnonzero
    refine ⟨_, rfl, ?_, ⟨hre.placement, rfl⟩⟩
    refine inv.recount hinv hre ?_ (fun _ _ => Iff.rfl) hother ?_ (fun _ => hready)
      inv.writing_nodup hbounded
    · rw [if_neg hready]
      exact hwrap
    · omega

theorem completeLoad (keys : List K) (hkeys : (keys : Multiset K) ≤ reading) :
    ∃ m', completeLoad keys m = .ok m' ∧
      ManagerInv (reading - (keys : Multiset K)) writing m' ∧ Keeps m m' := by
  induction keys generalizing m reading with
  | nil =>
    refine ⟨m, rfl, ?_, rfl, rfl⟩
    rw [coe_nil, Multiset.sub_zero]
    exact inv
  | cons key keys ih =>
    obtain ⟨hmem, hrest⟩ := le_erase_of_cons_le hkeys
    obtain ⟨m₁, hone, hinv, hkeep⟩ := inv.unloadOne hmem
    obtain ⟨m₂, hload, hinv', hkeep'⟩ := ih hinv hrest
    refine ⟨m₂, ?_, ?_, hkeep.trans hkeep'⟩
    · rw [completeLoad, Run.run, hone]
      exact hload
    · rw [← cons_coe, sub_cons]
      exact hinv'

/-! ### Stores that end -/

theorem storedOne (storedKeys : List K) (hkey : key ∈ writing) :
    ∃ m', storedOne (storedKeys, m) key = (storedKeys ++ [key], m') ∧
      ManagerInv reading (writing.erase key) m' ∧ Keeps m m' := by
  obtain ⟨block, hget⟩ := inv.exists_get (inv.writing_live key hkey)
  have hcnt := inv.refCnt_eq hget
  rw [if_pos hkey] at hcnt
  have hnotReady := Bool.eq_false_iff.mpr fun h => (inv.isReady_iff hget).mp h hkey
  have hunread : reading.count key = 0 := count_eq_zero.mpr fun h => (inv.reading_live key h).2 hkey
  have hgone : key ∉ writing.erase key := fun h =>
    ((inv.writing_nodup.mem_erase_iff).mp h).1 rfl
  obtain ⟨hinv, hre⟩ := LawfulCachePolicy.unpin inv.policy hget (by omega)
  unfold CPUOffloadingManager.storedOne
  simp only [hget, hnotReady, Bool.false_eq_true, if_false]
  refine ⟨_, rfl, ?_, ⟨hre.placement, rfl⟩⟩
  refine inv.recount hinv hre ?_ (fun k hk => mem_erase_of_ne hk) (fun _ _ => rfl) ?_
    (fun h => absurd (count_pos.mpr h) (by omega)) (inv.writing_nodup.erase _)
    (inv.bounded key)
  · rw [if_neg hgone, hunread]
    rfl
  · omega

theorem foldl_storedOne (keys : List K) (storedKeys : List K)
    (hkeys : (keys : Multiset K) ≤ writing) :
    ∃ m', keys.foldl CPUOffloadingManager.storedOne (storedKeys, m) = (storedKeys ++ keys, m') ∧
      ManagerInv reading (writing - (keys : Multiset K)) m' ∧ Keeps m m' := by
  induction keys generalizing m writing storedKeys with
  | nil =>
    refine ⟨m, ?_, ?_, rfl, rfl⟩
    · rw [List.append_nil]
      rfl
    · rw [coe_nil, Multiset.sub_zero]
      exact inv
  | cons key keys ih =>
    obtain ⟨hmem, hrest⟩ := le_erase_of_cons_le hkeys
    obtain ⟨m₁, hone, hinv, hkeep⟩ := inv.storedOne storedKeys hmem
    obtain ⟨m₂, hfold, hinv', hkeep'⟩ := ih hinv (storedKeys ++ [key]) hrest
    refine ⟨m₂, ?_, ?_, hkeep.trans hkeep'⟩
    · rw [List.foldl_cons, hone, hfold, List.append_assoc]
      rfl
    · rw [← cons_coe, sub_cons]
      exact hinv'

theorem unstoredOne (hkey : key ∈ writing) :
    ∃ blockId m', m.unstoredOne key = .ok m' ∧ ManagerInv reading (writing.erase key) m' ∧
      m.placement = (key, blockId) ::ₘ m'.placement ∧ m'.events = m.events := by
  obtain ⟨block, hget⟩ := inv.exists_get (inv.writing_live key hkey)
  have hcnt := inv.refCnt_eq hget
  rw [if_pos hkey] at hcnt
  have hnotReady := Bool.eq_false_iff.mpr fun h => (inv.isReady_iff hget).mp h hkey
  obtain ⟨p, hremove, hinv, hlive⟩ := LawfulCachePolicy.remove_live inv.policy hget
  have hlive : m.live = (key, block) ::ₘ LawfulCachePolicy.live p := hlive
  have hnodup := inv.nodup_keys
  rw [liveKeys, hlive, map_cons, nodup_cons] at hnodup
  have hkeep : ∀ k, k ≠ key → k ∈ m.liveKeys → k ∈ (LawfulCachePolicy.live p).map Prod.fst := by
    intro k hk hmem
    rw [liveKeys, hlive, map_cons, mem_cons] at hmem
    exact hmem.resolve_left hk
  unfold CPUOffloadingManager.unstoredOne
  simp only [hget, hnotReady, Bool.false_eq_true, if_false, hremove]
  refine ⟨block.blockId, _, rfl, ?_, ?_, rfl⟩
  · exact {
      policy := hinv
      slots := by
        have hslots := inv.slots
        rw [CPUOffloadingManager.slots, hlive, map_cons] at hslots
        rw [← hslots, ← coe_add, CPUOffloadingManager.slots, live, ← singleton_add]
        abel
      allocated_le := inv.allocated_le
      evictable := by
        have hnum := inv.evictable
        have hused : ¬ block.refCnt = 0 := by omega
        rw [hlive, countP_cons, if_neg hused] at hnum
        exact hnum
      refs := fun e he => by
        have hne : e.1 ≠ key := fun heq => hnodup.1 (mem_map.mpr ⟨e, he, heq⟩)
        have hold := inv.refs e (hlive ▸ mem_cons_of_mem he)
        simp only [mem_erase_of_ne hne]
        exact hold
      reading_live := fun k hk => by
        obtain ⟨hmem, hnot⟩ := inv.reading_live k hk
        have hne : k ≠ key := fun heq => hnot (heq ▸ hkey)
        exact ⟨hkeep k hne hmem, fun h => hnot (mem_of_mem_erase h)⟩
      writing_live := fun k hk => by
        obtain ⟨hne, hk⟩ := (inv.writing_nodup.mem_erase_iff).mp hk
        exact hkeep k hne (inv.writing_live k hk)
      writing_nodup := inv.writing_nodup.erase _
      bounded := inv.bounded }
  · rw [placement, hlive, map_cons]
    rfl

/-- A store that failed: its blocks are free again. -/
theorem unstore (keys : List K) (hkeys : (keys : Multiset K) ≤ writing) :
    ∃ gone m', Run.run CPUOffloadingManager.unstoredOne m keys = .ok m' ∧
      ManagerInv reading (writing - (keys : Multiset K)) m' ∧ m.placement = gone + m'.placement ∧
      gone.map Prod.fst = (keys : Multiset K) ∧ m'.events = m.events := by
  induction keys generalizing m writing with
  | nil =>
    refine ⟨0, m, rfl, ?_, (zero_add _).symm, rfl, rfl⟩
    rw [coe_nil, Multiset.sub_zero]
    exact inv
  | cons key keys ih =>
    obtain ⟨hmem, hrest⟩ := le_erase_of_cons_le hkeys
    obtain ⟨blockId, m₁, hone, hinv, hplace, hevents⟩ := inv.unstoredOne hmem
    obtain ⟨gone, m₂, hall, hinv', hplace', hgone, hevents'⟩ := ih hinv hrest
    refine ⟨(key, blockId) ::ₘ gone, m₂, ?_, ?_, ?_, ?_, hevents'.trans hevents⟩
    · rw [Run.run, hone]
      exact hall
    · rw [← cons_coe, sub_cons]
      exact hinv'
    · rw [hplace, hplace', cons_add]
    · rw [map_cons, hgone, cons_coe]

/-! ### New stores -/

/-- What makes room is in no use and not protected. -/
theorem makeRoom (n : Int) (isProtected : List K) : m.makeRoom n isProtected = .ok none ∨
      ∃ evictedKeys m', m.makeRoom n isProtected = .ok (some (evictedKeys, m')) ∧
        ManagerInv reading writing m' ∧
        (∃ gone, m.placement = gone + m'.placement ∧
          gone.map Prod.fst = (evictedKeys : Multiset K)) ∧
        (∀ key ∈ evictedKeys, key ∉ reading ∧ key ∉ writing ∧ key ∉ isProtected) ∧
        m'.events = m.events ∧ m.getNumFreeBlocks + n ≤ m'.getNumFreeBlocks := by
  unfold CPUOffloadingManager.makeRoom
  split
  · refine .inr ⟨[], m, rfl, inv, ⟨0, (zero_add _).symm, rfl⟩, nofun, rfl, by omega⟩
  split
  · exact .inl rfl
  rcases LawfulCachePolicy.evict_live n.toNat isProtected inv.policy with
    hfail | ⟨evicted, p, hevict, hinv, hlen, hidle, hlive⟩
  · simp only [hfail, true_or]
  · have hlive : m.live = evicted + LawfulCachePolicy.live p := hlive
    have hnum := inv.evictable
    have hlenInt : (evicted.length : Int) = n := by omega
    simp only [hevict, hlenInt]
    rw [if_neg (by omega)]
    have hunused : ∀ e ∈ evicted, e.1 ∉ reading ∧ e.1 ∉ writing := by
      intro e he
      have hrefs := inv.refs e (hlive ▸ mem_add.mpr (.inl (mem_coe.mpr he)))
      rw [(hidle e he).1] at hrefs
      split at hrefs
      · omega
      · rename_i hw
        exact ⟨count_eq_zero.mp (by omega), hw⟩
    have hkeep : ∀ k, k ∈ m.liveKeys → k ∉ evicted.map Prod.fst →
        k ∈ (LawfulCachePolicy.live p).map Prod.fst := by
      intro k hk hnot
      rw [liveKeys, hlive, map_add, mem_add] at hk
      exact hk.resolve_left hnot
    have hout : ∀ k, k ∈ reading ∨ k ∈ writing → k ∉ evicted.map Prod.fst := by
      intro k hk hmem
      obtain ⟨e, he, rfl⟩ := List.mem_map.mp hmem
      exact hk.elim (hunused e he).1 (hunused e he).2
    refine .inr ⟨_, _, rfl, ?_, ⟨evicted.map fun e => (e.1, e.2.blockId), ?_, ?_⟩, ?_, rfl, ?_⟩
    · exact { inv with
        policy := hinv
        slots := by
          have hslots := inv.slots
          rw [CPUOffloadingManager.slots, hlive, map_add] at hslots
          rw [← hslots, ← coe_add, CPUOffloadingManager.slots, live]
          abel
        evictable := by
          have hall : (evicted : Multiset (K × BlockStatus)).countP (·.2.refCnt = 0) =
              evicted.length := by
            rw [countP_eq_card.mpr fun e he => (hidle e he).1, coe_card]
          rw [hlive, countP_add] at hnum
          change m.numEvictableCacheBlocks - n =
            ((LawfulCachePolicy.live p).countP (·.2.refCnt = 0) : Nat)
          omega
        refs := fun e he => inv.refs e (hlive ▸ mem_add.mpr (.inr he))
        reading_live := fun k hk =>
          ⟨hkeep k (inv.reading_live k hk).1 (hout k (.inl hk)), (inv.reading_live k hk).2⟩
        writing_live := fun k hk => hkeep k (inv.writing_live k hk) (hout k (.inr hk)) }
    · rw [placement, hlive, map_add]
      rfl
    · rw [map_coe, List.map_map]
      rfl
    · intro k hk
      obtain ⟨e, he, rfl⟩ := List.mem_map.mp hk
      exact ⟨(hunused e he).1, (hunused e he).2, (hidle e he).2⟩
    · simp only [getNumFreeBlocks, List.length_append, List.length_map]
      omega

theorem storeNew {keysToStore : List K} (evictedKeys : List K) (hnodup : keysToStore.Nodup)
    (hnew : ∀ key ∈ keysToStore, key ∉ m.liveKeys)
    (hroom : (keysToStore.length : Int) ≤ m.getNumFreeBlocks) :
    ∃ blockIds m', m.storeNew keysToStore evictedKeys =
        .ok (⟨keysToStore, blockIds, evictedKeys⟩, m') ∧
      blockIds.length = keysToStore.length ∧
      ManagerInv reading ((keysToStore : Multiset K) + writing) m' ∧
      m'.placement = (keysToStore.zip blockIds : List (K × Nat)) + m.placement ∧
      m'.events = (m.emit evictedKeys true).events := by
  have hsame : ∃ events, m.emit evictedKeys true = { m with events } := by
    unfold emit
    split
    · exact ⟨m.events, rfl⟩
    · exact ⟨_, rfl⟩
  unfold CPUOffloadingManager.storeNew
  obtain ⟨events, hevents⟩ := hsame
  rw [hevents]
  obtain ⟨blockIds, freeList, numAllocatedBlocks, hallocate, hlen, hle, hslots⟩ :=
    allocateBlocks_ok (m := { m with events }) inv.allocated_le hroom
  have hfst : (keysToStore.zip blockIds).map Prod.fst = keysToStore := List.map_fst_zip hlen.ge
  have hsnd : (keysToStore.zip blockIds).map Prod.snd = blockIds := List.map_snd_zip hlen.le
  obtain ⟨hinv, hlive⟩ := LawfulCachePolicy.insertAll (keysToStore.zip blockIds) inv.policy
    (by rw [hfst]; exact hnodup) fun e he =>
      inv.get_none_iff.mpr (hnew e.1 (hfst ▸ List.mem_map_of_mem he))
  simp only [hallocate, hlen, ne_eq, not_true_eq_false, if_false, insertAll]
  generalize (keysToStore.zip blockIds).foldl (fun p e => insert p e.1 { blockId := e.2 }) m.policy =
    policy at hinv hlive ⊢
  have hstored : ∀ e ∈ (keysToStore.zip blockIds).map
      (fun e => ((e.1, { blockId := e.2 }) : K × BlockStatus)),
      e.1 ∈ keysToStore ∧ e.2.refCnt = -1 := by
    intro e he
    obtain ⟨e', he', rfl⟩ := List.mem_map.mp he
    exact ⟨hfst ▸ List.mem_map_of_mem he', rfl⟩
  have hplace : placement { m with policy, freeList, numAllocatedBlocks, events } =
      (keysToStore.zip blockIds : List (K × Nat)) + m.placement := by
    rw [placement, live, hlive, map_add, map_coe, List.map_map]
    exact congrArg (fun l : List (K × Nat) => (l : Multiset (K × Nat)) + m.placement) (List.map_id _)
  have hkeys : liveKeys { m with policy, freeList, numAllocatedBlocks, events } =
      (keysToStore : Multiset K) + m.liveKeys := by
    rw [liveKeys_eq, hplace, map_add, ← liveKeys_eq, map_coe, hfst]
  have hapart : ∀ key, key ∈ m.liveKeys →
      (key ∈ (keysToStore : Multiset K) + writing ↔ key ∈ writing) := by
    intro key hkey
    rw [mem_add]
    exact or_iff_right fun h => hnew key h hkey
  exact ⟨blockIds, _, rfl, hlen,
    { policy := hinv
      slots := by
        rw [slots_eq, hplace, map_add, ← slots_eq, map_coe, hsnd]
        refine add_left_cancel (a := (m.freeList : Multiset Nat)) ?_
        rw [← hslots, ← inv.slots]
        abel
      allocated_le := hle
      evictable := by
        have hzero : ((keysToStore.zip blockIds).map
            (fun e => ((e.1, { blockId := e.2 }) : K × BlockStatus)) :
            Multiset (K × BlockStatus)).countP (·.2.refCnt = 0) = 0 := by
          refine countP_eq_zero.mpr fun e he => ?_
          rw [(hstored e he).2]
          decide
        rw [inv.evictable, live]
        change _ = ((LawfulCachePolicy.live policy).countP (·.2.refCnt = 0) : Int)
        rw [hlive, countP_add, hzero, Nat.zero_add]
      refs := fun e he => by
        change e ∈ LawfulCachePolicy.live policy at he
        rw [hlive, mem_add] at he
        rcases he with he | he
        · obtain ⟨hmem, hcnt⟩ := hstored e he
          rw [if_pos (mem_add.mpr (.inl (mem_coe.mpr hmem))), hcnt]
        · simp only [hapart e.1 (mem_map_of_mem _ he)]
          exact inv.refs e he
      reading_live := fun key hkey => by
        obtain ⟨hmem, hnot⟩ := inv.reading_live key hkey
        refine ⟨?_, fun h => hnot ((hapart key hmem).mp h)⟩
        rw [hkeys]
        exact mem_add.mpr (.inr hmem)
      writing_live := fun key hkey => by
        rw [hkeys]
        rcases mem_add.mp hkey with h | h
        · exact mem_add.mpr (.inl h)
        · exact mem_add.mpr (.inr (inv.writing_live key h))
      writing_nodup := nodup_add.mpr ⟨coe_nodup.mpr hnodup, inv.writing_nodup,
        disjoint_left.mpr fun {key} hkey hw =>
          hnew key (mem_coe.mp hkey) (inv.writing_live key hw)⟩
      bounded := inv.bounded }, hplace, rfl⟩

/-- `prepare_store` fails and changes nothing, or it stores the keys that are not there in place of
blocks that nobody uses. -/
theorem prepareStore (hnodup : keys.Nodup) : m.prepareStore keys = .ok (none, m) ∨
      ∃ output m', m.prepareStore keys = .ok (some output, m') ∧ output.keysToStore =
          (m.frequent keys).filter (fun key => (get m.policy key).isNone) ∧
        output.blockIds.length = output.keysToStore.length ∧
        ManagerInv reading ((output.keysToStore : Multiset K) + writing) m' ∧
        (∃ gone kept, m.placement = gone + kept ∧
          m'.placement = (output.keysToStore.zip output.blockIds : List (K × Nat)) + kept ∧
          gone.map Prod.fst = (output.evictedKeys : Multiset K)) ∧
        (∀ key ∈ output.evictedKeys, key ∉ reading ∧ key ∉ writing) ∧
        m'.events = (m.emit output.evictedKeys true).events := by
  have hfrequent : (m.frequent keys).Nodup := by
    unfold frequent
    split
    · exact hnodup
    · exact hnodup.filter _
  unfold CPUOffloadingManager.prepareStore
  simp only
  generalize hkeys : m.frequent keys = frequent at hfrequent ⊢
  generalize hstore : frequent.filter (fun key => (get m.policy key).isNone) = keysToStore
  have hnew : ∀ key ∈ keysToStore, key ∈ frequent ∧ key ∉ m.liveKeys := by
    intro key hkey
    rw [← hstore, List.mem_filter, Option.isNone_iff_eq_none, inv.get_none_iff] at hkey
    exact hkey
  split
  · rename_i hempty
    subst hempty
    refine .inr ⟨_, _, rfl, rfl, rfl, ?_, ⟨0, m.placement, (zero_add _).symm, ?_, rfl⟩, nofun, rfl⟩
    · rw [coe_nil, zero_add]
      exact inv
    · exact (zero_add _).symm
  · rcases inv.makeRoom (keysToStore.length - m.getNumFreeBlocks) frequent with
      hnone | ⟨evictedKeys, m₁, hroom, inv₁, ⟨gone, hgone, hevicted⟩, hidle, hevents, hfree⟩
    · rw [hnone]
      exact .inl rfl
    · have hnew' : ∀ key ∈ keysToStore, key ∉ m₁.liveKeys := by
        intro key hkey hlive
        refine (hnew key hkey).2 ?_
        rw [liveKeys_eq, hgone, map_add, mem_add, ← liveKeys_eq]
        exact .inr hlive
      obtain ⟨blockIds, m₂, hsome, hlen, inv₂, hplace, hevents'⟩ := inv₁.storeNew evictedKeys
        (hstore ▸ hfrequent.filter _) hnew' (by omega)
      simp only [hroom, hsome]
      refine .inr ⟨_, _, rfl, rfl, hlen, inv₂, ⟨gone, m₁.placement, hgone, hplace, hevicted⟩,
        fun key hkey => ⟨(hidle key hkey).1, (hidle key hkey).2.1⟩, ?_⟩
      rw [hevents']
      unfold emit
      split
      · exact hevents
      · exact congrArg (Option.map (· ++ [⟨evictedKeys, true⟩])) hevents

/-! ### Calls that store nothing -/

theorem of_live {counts : Option (Dict K Nat)} {events : Option (List (OffloadingEvent K))}
    (hpolicy : LawfulCachePolicy.Inv policy) (hlive : LawfulCachePolicy.live policy = m.live) :
    ManagerInv reading writing { m with policy, counts, events } where
  __ := inv
  policy := hpolicy
  slots := by
    rw [← inv.slots, CPUOffloadingManager.slots, CPUOffloadingManager.slots, ← hlive]
    rfl
  evictable := by
    rw [inv.evictable, ← hlive]
    rfl
  refs e he := inv.refs e (hlive ▸ he)
  reading_live key hkey := by
    obtain ⟨hlive', hready⟩ := inv.reading_live key hkey
    rw [liveKeys, ← hlive] at hlive'
    exact ⟨hlive', hready⟩
  writing_live key hkey := by
    have hlive' := inv.writing_live key hkey
    rw [liveKeys, ← hlive] at hlive'
    exact hlive'

theorem touch (keys : List K) : ManagerInv reading writing (m.touch keys) ∧ Keeps m (m.touch keys) := by
  obtain ⟨hpolicy, hlive⟩ := LawfulCachePolicy.touch_live keys inv.policy
  refine ⟨inv.of_live hpolicy hlive, ?_, rfl⟩
  exact congrArg (map fun e : K × BlockStatus => (e.1, e.2.blockId)) hlive

theorem takeEvents : ManagerInv reading writing m.takeEvents.2 :=
  inv.of_live inv.policy rfl

theorem emit (keys : List K) (removed : Bool) : ManagerInv reading writing (m.emit keys removed) := by
  unfold CPUOffloadingManager.emit
  split
  · exact inv
  · exact inv.of_live inv.policy rfl

theorem lookup (key : K) (htracker : m.counts.isSome → 1 ≤ m.maxTrackerSize) :
    ∃ result m', m.lookup key = .ok (result, m') ∧ ManagerInv reading writing m' ∧ Keeps m m' := by
  have hcount : ∃ counts, m.countLookup key = .ok { m with counts } := by
    unfold countLookup
    split
    · exact ⟨m.counts, rfl⟩
    rename_i counts hcounts
    rw [hcounts] at htracker
    split
    · exact ⟨_, rfl⟩
    split
    · rename_i hfull
      rw [if_neg]
      · exact ⟨_, rfl⟩
      · intro hempty
        rw [hempty] at hfull
        have := htracker rfl
        simp only [List.length_nil, Nat.cast_zero] at hfull
        omega
    · exact ⟨_, rfl⟩
  obtain ⟨counts, hcount⟩ := hcount
  unfold CPUOffloadingManager.lookup
  rw [hcount]
  simp only
  split
  · exact ⟨_, _, rfl, inv.of_live inv.policy rfl, rfl, rfl⟩
  · exact ⟨_, _, rfl, inv.of_live inv.policy rfl, rfl, rfl⟩

end

theorem of_empty (hpolicy : LawfulCachePolicy.Inv m.policy) (hlive : m.live = 0)
    (hfree : m.freeList = []) (hallocated : m.numAllocatedBlocks = 0)
    (hevictable : m.numEvictableCacheBlocks = 0) : ManagerInv 0 0 m where
  policy := hpolicy
  slots := by
    rw [CPUOffloadingManager.slots, hlive, hfree, hallocated]
    rfl
  allocated_le := by
    rw [hallocated]
    exact Nat.zero_le _
  evictable := by
    rw [hlive, hevictable]
    rfl
  refs e he := by
    rw [hlive] at he
    cases he
  reading_live := nofun
  writing_live := nofun
  writing_nodup := nodup_zero
  bounded key := by
    rw [count_zero]
    decide

/-- `reset_cache` forgets who uses a block. -/
theorem resetCache (inv : ManagerInv reading writing m) :
    ManagerInv 0 0 m.resetCache ∧ m.resetCache.placement = 0 := by
  obtain ⟨hpolicy, hlive⟩ := LawfulCachePolicy.clear_live inv.policy
  have hlive : m.resetCache.live = 0 := hlive
  refine ⟨of_empty hpolicy hlive rfl rfl rfl, ?_⟩
  rw [placement, hlive]
  rfl

theorem new (numBlocks : Nat) (enableEvents : Bool) (storeThreshold : Nat) (maxTrackerSize : Int)
    (hpolicy : LawfulCachePolicy.Inv policy) (hempty : LawfulCachePolicy.live policy = 0) :
    ManagerInv 0 0 (new numBlocks policy enableEvents storeThreshold maxTrackerSize) :=
  of_empty hpolicy hempty rfl rfl rfl

end ManagerInv
end
end Vllm.Offload.CPU
