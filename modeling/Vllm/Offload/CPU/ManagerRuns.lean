import Vllm.Lib.Run
import Vllm.Offload.CPU.ManagerInv

/-! Runs of the CPU offloading manager: any calls in any order, with a record of the loads and
stores that are not completed and of the events that were taken. -/
namespace Vllm.Offload.CPU
open Multiset CPUOffloadingManager Run Prod

/-- The keys that are there after some events. -/
def replay {K : Type} [DecidableEq K] (events : List (OffloadingEvent K)) : Finset K :=
  events.foldl (fun ready e =>
    if e.removed then ready \ e.keys.toFinset else ready ∪ e.keys.toFinset) ∅

theorem replay_snoc {K : Type} [DecidableEq K] (events : List (OffloadingEvent K))
    (e : OffloadingEvent K) :
    replay (events ++ [e]) =
      if e.removed then replay events \ e.keys.toFinset else replay events ∪ e.keys.toFinset := by
  rw [replay, List.foldl_append]
  rfl

theorem replay_emit {K σ : Type} [DecidableEq K] {m : CPUOffloadingManager K σ}
    {events : List (OffloadingEvent K)} {keys : List K} {removed : Bool} (taken : List (OffloadingEvent K))
    (hevents : (m.emit keys removed).events = some events) :
    ∃ old, m.events = some old ∧
      replay (taken ++ events) =
        if removed then replay (taken ++ old) \ keys.toFinset
        else replay (taken ++ old) ∪ keys.toFinset := by
  unfold emit at hevents
  split at hevents
  · rename_i hempty
    refine ⟨events, hevents, ?_⟩
    rw [hempty, List.toFinset_nil, Finset.sdiff_empty, Finset.union_empty, ite_self]
  · obtain ⟨old, hold, rfl⟩ := Option.map_eq_some_iff.mp hevents
    refine ⟨old, hold, ?_⟩
    rw [← List.append_assoc, replay_snoc]

structure ManagerRun (K σ : Type) where
  manager : CPUOffloadingManager K σ
  reading : Multiset K := 0
  writing : Multiset K := 0
  taken : List (OffloadingEvent K) := []

namespace ManagerRun

inductive Op (K : Type)
  | lookup (key : K)
  | prepareLoad (keys : List K)
  | completeLoad (keys : List K)
  | touch (keys : List K)
  | prepareStore (keys : List K)
  | completeStore (keys : List K) (success : Bool)
  | resetCache
  | takeEvents

section
variable {K σ : Type} [DecidableEq K] [CachePolicy K σ]

variable (g : ManagerRun K σ)

def step : Op K → Except Error (ManagerRun K σ)
  | .lookup key =>
    (g.manager.lookup key).map fun r => { g with manager := r.2 }
  | .prepareLoad keys =>
    (prepareLoad keys g.manager).map fun r =>
      { g with manager := r.2, reading := (keys : Multiset K) + g.reading }
  | .completeLoad keys =>
    (completeLoad keys g.manager).map fun m =>
      { g with manager := m, reading := g.reading - (keys : Multiset K) }
  | .touch keys => .ok { g with manager := g.manager.touch keys }
  | .prepareStore keys =>
    (g.manager.prepareStore keys).map fun r =>
      { g with
        manager := r.2
        writing := (r.1.map fun output => (output.keysToStore : Multiset K)).getD 0 + g.writing }
  | .completeStore keys success =>
    (g.manager.completeStore keys success).map fun m =>
      { g with manager := m, writing := g.writing - (keys : Multiset K) }
  | .resetCache => .ok { g with manager := g.manager.resetCache, reading := 0, writing := 0 }
  | .takeEvents =>
    .ok { g with manager := g.manager.takeEvents.2, taken := g.taken ++ g.manager.takeEvents.1 }

def Ready (m : CPUOffloadingManager K σ) (key : K) : Prop :=
  ∃ block, CachePolicy.get m.policy key = some block ∧ block.isReady = true

/-- The keys of a call are distinct and completions match what is not completed. Only keys that are
ready are loaded, each fewer than `2 ^ 31` times at once; a tracker holds at least one key; and the
cache is reset only if nobody follows the events or no key is ready. -/
def Safe : Op K → Prop
  | .lookup _ => g.manager.counts.isSome → 1 ≤ g.manager.maxTrackerSize
  | .prepareLoad keys =>
    keys.Nodup ∧ ∀ key ∈ keys, Ready g.manager key ∧ g.reading.count key + 1 < 2 ^ 31
  | .completeLoad keys => (keys : Multiset K) ≤ g.reading
  | .prepareStore keys => keys.Nodup
  | .completeStore keys _ => (keys : Multiset K) ≤ g.writing
  | .resetCache => g.manager.events = none ∨ ∀ key, ¬ Ready g.manager key
  | _ => True

/-- The calls that are safe, and resets at any time. -/
def Matched : Op K → Prop
  | .resetCache => True
  | op => g.Safe op

theorem Safe.matched {g : ManagerRun K σ} {op : Op K} (h : g.Safe op) : g.Matched op := by
  cases op with
  | resetCache => trivial
  | _ => exact h

end

section
variable {K σ : Type} [DecidableEq K] [CachePolicy K σ] [LawfulCachePolicy K σ]

structure Sound (g : ManagerRun K σ) : Prop where
  /-- The slots of the blocks and the free ones are the allocated ones, each once. -/
  slots : g.manager.slots + g.manager.freeList = range g.manager.numAllocatedBlocks
  evictable : g.manager.numEvictableCacheBlocks =
    (g.manager.live.countP (fun e => e.2.isReady = true ∧ e.2.refCnt = 0) : Nat)
  inUse : ∀ key, key ∈ g.reading ∨ key ∈ g.writing → key ∈ g.manager.liveKeys
  /-- What follows the events knows the keys that are ready. -/
  replay : ∀ events, g.manager.events = some events →
    ∀ key, key ∈ replay (g.taken ++ events) ↔ Ready g.manager key

structure Inv (g : ManagerRun K σ) : Prop where
  manager : ManagerInv g.reading g.writing g.manager
  replay : ∀ events, g.manager.events = some events →
    ∀ key, key ∈ replay (g.taken ++ events) ↔ key ∈ g.manager.liveKeys ∧ key ∉ g.writing

variable {g g' : ManagerRun K σ} {reading : Multiset K}

theorem ready_iff {writing : Multiset K} {m : CPUOffloadingManager K σ} {key : K}
    (inv : ManagerInv reading writing m) :
    Ready m key ↔ key ∈ m.liveKeys ∧ key ∉ writing := by
  constructor
  · rintro ⟨block, hget, hready⟩
    exact ⟨inv.mem_liveKeys hget, (inv.isReady_iff hget).mp hready⟩
  · rintro ⟨hlive, hwriting⟩
    obtain ⟨block, hget⟩ := inv.exists_get hlive
    exact ⟨block, hget, (inv.isReady_iff hget).mpr hwriting⟩

theorem Inv.sound (inv : Inv g) : Sound g where
  slots := inv.manager.slots
  evictable := by
    rw [inv.manager.evictable]
    congr 1
    refine countP_congr rfl fun e _ => ?_
    simp only [eq_iff_iff]
    refine ⟨fun hzero => ⟨?_, hzero⟩, fun h => h.2⟩
    rw [BlockStatus.isReady, hzero]
    rfl
  inUse key hkey := hkey.elim (fun h => (inv.manager.reading_live key h).1)
    (inv.manager.writing_live key)
  replay events hevents key := by
    rw [inv.replay events hevents key, ready_iff inv.manager]

theorem Inv.keeps (inv : Inv g) {m : CPUOffloadingManager K σ} (hm : ManagerInv reading g.writing m)
    (hkeep : Keeps g.manager m) :
    Inv { g with manager := m, reading } where
  manager := hm
  replay events hevents key := by
    rw [hkeep.liveKeys]
    exact inv.replay events (hkeep.events ▸ hevents) key

/-- The call succeeds and keeps the tables, and what follows the events if it is safe. -/
def Steps (g : ManagerRun K σ) (op : Op K) : Prop :=
  ∃ g', g.step op = .ok g' ∧ ManagerInv g'.reading g'.writing g'.manager ∧
    (g.Safe op → Inv g → Inv g')

section
variable (inv : ManagerInv g.reading g.writing g.manager)
include inv

theorem steps_lookup (key : K) (hsafe : g.Safe (.lookup key)) : Steps g (.lookup key) := by
  obtain ⟨result, m, hlookup, hm, hkeep⟩ := inv.lookup key hsafe
  refine ⟨_, ?_, hm, fun _ inv => inv.keeps hm hkeep⟩
  rw [step, hlookup]
  rfl

variable (keys : List K)

theorem steps_prepareLoad (hsafe : g.Safe (.prepareLoad keys)) : Steps g (.prepareLoad keys) := by
  obtain ⟨hnodup, hkeys⟩ := hsafe
  have hready : ∀ key ∈ keys, key ∈ g.manager.liveKeys ∧ key ∉ g.writing ∧
      g.reading.count key + 1 < 2 ^ 31 := by
    intro key hkey
    obtain ⟨hready, hroom⟩ := hkeys key hkey
    obtain ⟨hlive, hwriting⟩ := (ready_iff inv).mp hready
    exact ⟨hlive, hwriting, hroom⟩
  obtain ⟨blockIds, m, hload, hm, hkeep, -⟩ := inv.prepareLoad keys hnodup hready
  refine ⟨_, ?_, hm, fun _ inv => inv.keeps hm hkeep⟩
  rw [step, hload]
  rfl

theorem steps_completeLoad (hsafe : g.Safe (.completeLoad keys)) :
    Steps g (.completeLoad keys) := by
  obtain ⟨m, hload, hm, hkeep⟩ := inv.completeLoad keys hsafe
  refine ⟨_, ?_, hm, fun _ inv => inv.keeps hm hkeep⟩
  rw [step, hload]
  rfl

theorem steps_prepareStore (hsafe : g.Safe (.prepareStore keys)) :
    Steps g (.prepareStore keys) := by
  rcases inv.prepareStore hsafe with
    hnone | ⟨output, m, hsome, -, hlen, hm, ⟨gone, kept, hold, hnew, hgone⟩, -, hevents⟩
  · refine ⟨g, ?_, inv, fun _ => id⟩
    rw [step, hnone]
    simp only [Except.map, Option.map_none, Option.getD_none, zero_add]
  · refine ⟨{ g with manager := m, writing := (output.keysToStore : Multiset K) + g.writing }, ?_,
      hm, fun _ inv => ⟨hm, fun events hsome key => ?_⟩⟩
    · rw [step, hsome]
      rfl
    · have hoverwritten : m.liveKeys = (output.keysToStore : Multiset K) + kept.map fst := by
        rw [liveKeys_eq, hnew, Multiset.map_add, map_coe, List.map_fst_zip hlen.ge]
      have hlive : g.manager.liveKeys = (output.evictedKeys : Multiset K) + kept.map fst := by
        rw [liveKeys_eq, hold, Multiset.map_add, hgone]
      have hnodup := inv.manager.nodup_keys
      have hnodup' := hm.nodup_keys
      rw [hlive, nodup_add] at hnodup
      rw [hoverwritten, nodup_add] at hnodup'
      obtain ⟨old, hevents', hreplay⟩ := replay_emit g.taken (hevents ▸ hsome)
      rw [hreplay, if_pos rfl, Finset.mem_sdiff, inv.replay old hevents' key, hlive, hoverwritten]
      simp only [List.mem_toFinset, mem_add, mem_coe, not_or]
      have hapart : key ∈ output.evictedKeys → key ∉ kept.map fst := fun h =>
        disjoint_left.mp hnodup.2.2 (mem_coe.mpr h)
      have hapart' : key ∈ output.keysToStore → key ∉ kept.map fst := fun h =>
        disjoint_left.mp hnodup'.2.2 (mem_coe.mpr h)
      tauto

theorem steps_completeStore (success : Bool)
    (hsafe : g.Safe (.completeStore keys success)) : Steps g (.completeStore keys success) := by
  have hkeys : (keys : Multiset K) ≤ g.writing := hsafe
  have hdone : ∀ key, key ∈ g.writing - (keys : Multiset K) ↔ key ∈ g.writing ∧ key ∉ keys := by
    intro key
    rw [mem_sub, ← mem_coe, ← count_pos, ← count_pos]
    have hone := nodup_iff_count_le_one.mp inv.writing_nodup key
    omega
  cases success with
  | true =>
    obtain ⟨m, hfold, hm, hkeep⟩ := inv.foldl_storedOne keys [] hkeys
    refine ⟨{ g with manager := m.emit keys false, writing := g.writing - (keys : Multiset K) }, ?_,
      hm.emit keys false, fun _ inv => ⟨hm.emit keys false, fun events hsome key => ?_⟩⟩
    · rw [step, completeStore, if_pos rfl, hfold]
      rfl
    · obtain ⟨old, hold, hreplay⟩ := replay_emit g.taken hsome
      rw [hreplay, if_neg Bool.false_ne_true, Finset.mem_union,
        inv.replay old (hkeep.events ▸ hold) key, hdone, List.mem_toFinset]
      have hlive : (m.emit keys false).liveKeys = g.manager.liveKeys := by
        rw [liveKeys_emit, hkeep.liveKeys]
      rw [hlive]
      have hthere : key ∈ keys → key ∈ g.manager.liveKeys := fun h =>
        inv.manager.writing_live key (mem_of_le hkeys (mem_coe.mpr h))
      tauto
  | false =>
    obtain ⟨gone, m, hall, hm, hplace, hgone, hevents⟩ := inv.unstore keys hkeys
    refine ⟨{ g with manager := m, writing := g.writing - (keys : Multiset K) }, ?_,
      hm, fun _ inv => ⟨hm, fun events hsome key => ?_⟩⟩
    · rw [step, completeStore, if_neg Bool.false_ne_true, hall]
      rfl
    · have hlive : g.manager.liveKeys = (keys : Multiset K) + m.liveKeys := by
        rw [liveKeys_eq, hplace, Multiset.map_add, hgone, ← liveKeys_eq]
      have hnodup := inv.manager.nodup_keys
      rw [hlive, nodup_add] at hnodup
      have hapart : key ∈ keys → key ∉ m.liveKeys := fun h =>
        disjoint_left.mp hnodup.2.2 (mem_coe.mpr h)
      have hthere : key ∈ keys → key ∈ g.writing := fun h =>
        mem_of_le hkeys (mem_coe.mpr h)
      rw [inv.replay events (hevents ▸ hsome) key, hdone, hlive, mem_add, mem_coe]
      tauto

end

theorem Inv.resetCache (inv : Inv g) (hsafe : g.Safe .resetCache) :
    Inv { g with manager := g.manager.resetCache, reading := 0, writing := 0 } := by
  obtain ⟨hm, hempty⟩ := inv.manager.resetCache
  refine ⟨hm, fun events hsome key => ?_⟩
  have hnone : key ∉ g.manager.resetCache.liveKeys := by
    rw [liveKeys_eq, hempty]
    exact notMem_zero key
  rcases hsafe with hoff | hready
  · have hsome : g.manager.events = some events := hsome
    rw [hoff] at hsome
    cases hsome
  · have hold := (inv.replay events hsome key).not.mpr
      (fun h => hready key ((ready_iff inv.manager).mpr h))
    exact ⟨fun h => absurd h hold, fun h => absurd h.1 hnone⟩

theorem Inv.takeEvents (inv : Inv g) :
    Inv { g with
      manager := g.manager.takeEvents.2
      taken := g.taken ++ g.manager.takeEvents.1 } := by
  refine ⟨inv.manager.takeEvents, fun events hsome key => ?_⟩
  obtain ⟨old, hold, rfl⟩ := Option.map_eq_some_iff.mp hsome
  have hread := inv.replay old hold key
  change key ∈ CPU.replay (g.taken ++ g.manager.events.getD [] ++ []) ↔ _
  rw [hold, List.append_nil]
  exact hread

theorem steps_of_matched (inv : ManagerInv g.reading g.writing g.manager) (op : Op K)
    (h : g.Matched op) : Steps g op := by
  cases op with
  | lookup key => exact steps_lookup inv key h
  | prepareLoad keys => exact steps_prepareLoad inv keys h
  | completeLoad keys => exact steps_completeLoad inv keys h
  | touch keys =>
    obtain ⟨hm, hkeep⟩ := inv.touch keys
    exact ⟨_, rfl, hm, fun _ inv => inv.keeps hm hkeep⟩
  | prepareStore keys => exact steps_prepareStore inv keys h
  | completeStore keys success => exact steps_completeStore inv keys success h
  | resetCache => exact ⟨_, rfl, inv.resetCache.1, fun hsafe inv => inv.resetCache hsafe⟩
  | takeEvents => exact ⟨_, rfl, inv.takeEvents, fun _ inv => inv.takeEvents⟩

theorem step_inv (inv : Inv g) (op : Op K) (hsafe : g.Safe op) :
    ∃ g', g.step op = .ok g' ∧ Inv g' := by
  obtain ⟨g', hg', -, hinv⟩ := steps_of_matched inv.manager op hsafe.matched
  exact ⟨g', hg', hinv hsafe inv⟩

theorem Inv.reaches {g₀ : ManagerRun K σ} (inv : Inv g₀) (h : Reaches step Safe g₀ g) : Inv g := by
  refine h.invariant inv fun s op s' inv hsafe hstep => ?_
  obtain ⟨g', hg', inv'⟩ := step_inv inv op hsafe
  rw [hstep] at hg'
  cases hg'
  exact inv'

theorem live_of_prepareStore_none {m m' : CPUOffloadingManager K σ} {keys : List K}
    (h : m.prepareStore keys = .ok (none, m')) : m'.live = m.live := by
  unfold prepareStore at h
  simp only at h
  split at h
  · cases h
  split at h
  · cases h
  · cases h
    rfl
  · split at h
    · cases h
    · cases h

/-- What holds in each state: the tables are right, no safe call fails, a store that is refused
leaves the blocks alone, and a block in use is not evicted. -/
structure Managed (g : ManagerRun K σ) : Prop extends Sound g where
  succeeds : ∀ op, g.Safe op → ∃ g', g.step op = .ok g'
  refused : ∀ keys m, g.manager.prepareStore keys = .ok (none, m) → m.live = g.manager.live
  evicted : ∀ keys output m, keys.Nodup → g.manager.prepareStore keys = .ok (some output, m) →
    ∀ key ∈ output.evictedKeys, key ∉ g.reading ∧ key ∉ g.writing

theorem Inv.managed (inv : Inv g) : Managed g where
  toSound := inv.sound
  succeeds op hsafe := by
    obtain ⟨g', hg', -⟩ := step_inv inv op hsafe
    exact ⟨g', hg'⟩
  refused _ _ := live_of_prepareStore_none
  evicted keys output m hnodup hstore := by
    rcases inv.manager.prepareStore hnodup with hnone | ⟨_, _, hsome, -, -, -, -, hidle, -⟩
    · rw [hnone] at hstore
      cases hstore
    · rw [hsome] at hstore
      cases hstore
      exact hidle

theorem Inv.new {policy : σ} (numBlocks : Nat) (enableEvents : Bool) (storeThreshold : Nat)
    (maxTrackerSize : Int) (hpolicy : LawfulCachePolicy.Inv policy)
    (hempty : LawfulCachePolicy.live policy = 0) :
    Inv ⟨.new numBlocks policy enableEvents storeThreshold maxTrackerSize, 0, 0, []⟩ where
  manager := .new numBlocks enableEvents storeThreshold maxTrackerSize hpolicy hempty
  replay events hevents key := by
    cases enableEvents with
    | false => cases hevents
    | true =>
      obtain rfl : [] = events := Option.some.inj hevents
      have hnone : key ∉ (CPUOffloadingManager.new numBlocks policy true storeThreshold
          maxTrackerSize).liveKeys := by
        change key ∉ (LawfulCachePolicy.live policy).map fst
        rw [hempty]
        exact notMem_zero key
      exact ⟨fun h => absurd h (Finset.notMem_empty key), fun h => absurd h.1 hnone⟩

end

section
variable {K : Type} [DecidableEq K]

def startLRU (numBlocks : Nat) (enableEvents : Bool) (storeThreshold : Nat)
    (maxTrackerSize : Int) : ManagerRun K (LRU K) :=
  ⟨.new numBlocks {} enableEvents storeThreshold maxTrackerSize, 0, 0, []⟩

def startARC (rounding : Rounding) (numBlocks : Nat) (enableEvents : Bool) (storeThreshold : Nat)
    (maxTrackerSize : Int) : ManagerRun K (ARC K) :=
  ⟨.new numBlocks { rounding, cacheCapacity := numBlocks } enableEvents storeThreshold
    maxTrackerSize, 0, 0, []⟩

section
variable {numBlocks storeThreshold : Nat} {enableEvents : Bool} {maxTrackerSize : Int}

theorem startLRU_inv :
    Inv (startLRU (K := K) numBlocks enableEvents storeThreshold maxTrackerSize) :=
  .new _ _ _ _ ⟨fun _ => ⟨nofun, nofun⟩⟩ rfl

theorem startARC_inv {rounding : Rounding} (hexact : numBlocks ≤ 2 ^ 53) :
    Inv (startARC (K := K) rounding numBlocks enableEvents storeThreshold maxTrackerSize) :=
  .new _ _ _ _ (ARC.empty_wellFormed rounding hexact) rfl

end

/-- In every run of safe calls with either policy the tables of the manager are right; the lists of
ARC are apart and within the capacity. -/
theorem reaches_managed (numBlocks : Nat) (enableEvents : Bool) (storeThreshold : Nat)
    (maxTrackerSize : Int) :
    (∀ g : ManagerRun K (LRU K),
      Reaches step Safe (startLRU numBlocks enableEvents storeThreshold maxTrackerSize) g →
      g.Managed) ∧
    ∀ (rounding : Rounding) (g : ManagerRun K (ARC K)), numBlocks ≤ 2 ^ 53 →
      Reaches step Safe
        (startARC rounding numBlocks enableEvents storeThreshold maxTrackerSize) g →
      g.Managed ∧ g.manager.policy.WellFormed := by
  refine ⟨fun g hreaches => (startLRU_inv.reaches hreaches).managed,
    fun rounding g hexact hreaches => ?_⟩
  have inv := (startARC_inv hexact).reaches hreaches
  exact ⟨inv.managed, inv.manager.policy⟩

end

def exactRounding : Rounding := ⟨id, fun _ h => h, fun _ _ _ h => h⟩

def storeAndRead : List (Op Nat) := [.prepareStore [1], .completeStore [1] true, .prepareLoad [1]]

theorem reaches_storeAndRead :
    (∃ g, run step (startLRU 2 true 1 0) storeAndRead = .ok g ∧ g.reading = {1} ∧
      Reaches step Safe (startLRU 2 true 1 0) g) ∧
    ∃ g, run step (startARC exactRounding 2 true 1 0) storeAndRead = .ok g ∧ g.reading = {1} ∧
      Reaches step Safe (startARC exactRounding 2 true 1 0) g := by
  have hmeets {σ : Type} [CachePolicy Nat σ] {g₀ g₁ g₂ g : ManagerRun Nat σ}
      (h₁ : g₀.step (.prepareStore [1]) = .ok g₁) (hwriting : g₁.writing = {1})
      (h₂ : g₁.step (.completeStore [1] true) = .ok g₂) (hreading : g₂.reading = 0)
      (hready : Ready g₂.manager 1) (h₃ : g₂.step (.prepareLoad [1]) = .ok g) :
      Reaches step Safe g₀ g := by
    have hstore : g₀.Safe (.prepareStore [1]) := List.nodup_singleton 1
    have hcomplete : g₁.Safe (.completeStore [1] true) := hwriting.ge
    have hload : g₂.Safe (.prepareLoad [1]) := by
      refine ⟨List.nodup_singleton 1, List.forall_mem_singleton.mpr ⟨hready, ?_⟩⟩
      rw [hreading]
      decide
    exact ((Reaches.start.next _ hstore h₁).next _ hcomplete h₂).next _ hload h₃
  exact ⟨⟨_, rfl, rfl, hmeets rfl rfl rfl rfl ⟨_, rfl, rfl⟩ rfl⟩,
    ⟨_, rfl, rfl, hmeets rfl rfl rfl rfl ⟨_, rfl, rfl⟩ rfl⟩⟩

theorem reaches_managed_storeAndRead :
    (∃ g, run step (startLRU 2 true 1 0) storeAndRead = .ok g ∧ g.reading = {1} ∧
      g.Managed) ∧
    ∃ g, run step (startARC exactRounding 2 true 1 0) storeAndRead =
      .ok g ∧ g.reading = {1} ∧ g.Managed ∧ g.manager.policy.WellFormed := by
  obtain ⟨hlru, harc⟩ := reaches_managed (K := Nat) 2 true 1 0
  obtain ⟨⟨g, hrun, hreading, hreach⟩, g', hrun', hreading', hreach'⟩ := reaches_storeAndRead
  exact ⟨⟨g, hrun, hreading, hlru g hreach⟩,
    ⟨g', hrun', hreading', harc exactRounding g' (by decide) hreach'⟩⟩

/-- A reset says nothing: who follows the events still has the key. -/
theorem resetCache_silent :
    (run step (startLRU 2 true 1 0)
        [.prepareStore [1], .completeStore [1] true, .takeEvents, .resetCache]).map
        (fun g => (replay (g.taken ++ g.manager.events.getD []),
          CachePolicy.get g.manager.policy 1)) = .ok ({1}, none) ∧
    (run step (startARC exactRounding 2 true 1 0)
        [.prepareStore [1], .completeStore [1] true, .takeEvents, .resetCache]).map
        (fun g => (replay (g.taken ++ g.manager.events.getD []),
          CachePolicy.get g.manager.policy 1)) = .ok ({1}, none) :=
  ⟨rfl, rfl⟩

end ManagerRun
end Vllm.Offload.CPU
