import Vllm.Offload.CPU.ManagerRuns

/-! When a store is refused: with LRU only if there is too little room, with ARC also if the blocks
that nobody uses are in `t1` and its target keeps them there. -/
namespace Vllm.Offload.CPU
open Multiset Dict AList Prod Run.Reaches

variable {K : Type} [DecidableEq K] {keys isProtected : List K} {p : LRU K}

/-- A block that may be evicted; with the count 0 it is ready. -/
def Idle (isProtected : List K) (e : K × BlockStatus) : Prop :=
  e.2.refCnt = 0 ∧ e.1 ∉ isProtected

instance (isProtected : List K) : DecidablePred (Idle isProtected) :=
  fun _ => inferInstanceAs (Decidable (_ ∧ _))

theorem countP_idle_le {live : Multiset (K × BlockStatus)} (hnodup : (live.map fst).Nodup)
    (h : ∀ e ∈ live, Idle isProtected e → e.1 ∈ keys) :
    live.countP (Idle isProtected) ≤ keys.length := by
  have hidle := nodup_of_le (map_le_map (filter_le (Idle isProtected) live)) hnodup
  rw [countP_eq_card_filter, ← card_map fst, ← coe_card]
  refine card_le_card ((le_iff_subset hidle).mpr fun key hkey => ?_)
  obtain ⟨e, he, rfl⟩ := mem_map.mp hkey
  exact mem_coe.mpr (h e (mem_of_mem_filter he) (of_mem_filter he))

/-! ### LRU -/

/-- A search that ends early went over every evictable block. -/
theorem LRU.candidates_all {n : Nat} {found result : List (K × BlockStatus)}
    (h : p.candidates n isProtected keys found = .ok result) (hlen : result.length < n) :
    found ⊆ result ∧ ∀ key ∈ keys, key ∉ isProtected → key ∈ result.map fst := by
  induction keys generalizing found with
  | nil =>
    cases h
    exact ⟨List.Subset.refl _, nofun⟩
  | cons key keys ih =>
    rw [candidates] at h
    split at h
    · rename_i hprotected
      obtain ⟨hsub, hall⟩ := ih h
      exact ⟨hsub, List.forall_mem_cons.mpr ⟨fun hfree => absurd hprotected hfree, hall⟩⟩
    split at h
    · cases h
    rename_i block _
    split at h
    · cases h
    split at h
    · cases h
      omega
    obtain ⟨hsub, hall⟩ := ih h
    refine ⟨fun e he => hsub (List.mem_append_left _ he), List.forall_mem_cons.mpr ⟨fun _ => ?_, hall⟩⟩
    exact List.mem_map_of_mem (hsub (List.mem_append_right _ (List.mem_singleton_self (key, block))))

theorem LRU.evict_none {n : Nat} (hp : p.WellFormed) (h : p.evict n isProtected = .ok none) :
    (items p.blocks).countP (Idle isProtected) < n := by
  unfold evict at h
  split at h
  · cases h
  split at h
  · cases h
  rename_i found hfound
  split at h
  · rename_i hlen
    refine lt_of_le_of_lt ?_ ((List.length_map (f := fst)).trans_lt hlen)
    refine countP_idle_le (LawfulCachePolicy.nodup_keys (p := p) hp) fun e he hidle => ?_
    exact (candidates_all hfound hlen).2 e.1
      (mem_keys.mp ((hp.evictable e.1).mpr ⟨e.2, mem_items.mp he, hidle.1⟩)) hidle.2
  · cases h

/-! ### ARC -/

namespace ARC

variable {p : ARC K} {n : Nat} {isProtected : List K}

/-- The target of `t1` lets go what `t2` lacks for `n` evictions. -/
def Balanced (p : ARC K) (isProtected : List K) (n : Int) : Prop :=
  n ≤ (items p.t2).countP (Idle isProtected) ∨
    truncate p.targetT1Size + n ≤ p.t1.keys.length + 1 + (items p.t2).countP (Idle isProtected)

theorem pick_none {blocks : Dict K BlockStatus} {excluded : List K}
    (h : pick blocks (isProtected ++ excluded) = none) :
    ∀ e ∈ items blocks, Idle isProtected e → e.1 ∈ excluded := by
  intro e he hidle
  have hnone := List.find?_eq_none.mp (Option.map_eq_none_iff.mp h) ⟨e.1, e.2⟩
    (lookup_iff_mem_entries.mp (mem_items.mp he))
  simp only [hidle.1, List.mem_append, hidle.2, false_or, true_and, decide_eq_true_eq,
    not_not] at hnone
  exact hnone

/-- Where the selection fails: nothing is left in `t2`, and `t1` has nothing either or is below its
target. -/
theorem select_none {virtualT1Size : Int} {found : List (Candidate K)}
    (hfound : ∀ c ∈ found, c.fromT1 = true → c.key ∈ p.t1)
    (h : p.select isProtected n virtualT1Size found = none) :
    ∃ last : List (Candidate K), last.length < found.length + n ∧
      (∀ c ∈ last, c.fromT1 = true → c.key ∈ p.t1) ∧
      pick p.t2 (isProtected ++ last.map (·.key)) = none ∧
      (pick p.t1 (isProtected ++ last.map (·.key)) = none ∨
        virtualT1Size + found.countP (·.fromT1) <
          truncate p.targetT1Size + last.countP (·.fromT1)) := by
  induction n generalizing virtualT1Size found with
  | zero => cases h
  | succ n ih =>
    rw [select] at h
    split at h
    · rename_i key block hpick
      split at hpick
      · obtain ⟨last, hlen, hlast, ht2, ht1⟩ := ih (by
          refine List.forall_mem_append.mpr ⟨hfound, List.forall_mem_singleton.mpr fun _ => ?_⟩
          exact mem_of_lookup (pick_spec hpick).1) h
        simp only [List.length_append, List.length_singleton, List.countP_append,
          List.countP_singleton, if_true] at hlen ht1
        exact ⟨last, by omega, hlast, ht2, ht1.imp_right fun _ => by omega⟩
      · cases hpick
    rename_i hnone
    split at h
    · obtain ⟨last, hlen, hlast, ht2, ht1⟩ := ih (List.forall_mem_append.mpr
        ⟨hfound, List.forall_mem_singleton.mpr (absurd · Bool.false_ne_true)⟩) h
      simp only [List.length_append, List.length_singleton, List.countP_append,
        List.countP_singleton, Bool.false_eq_true, if_false] at hlen ht1
      exact ⟨last, by omega, hlast, ht2, ht1.imp_right fun _ => by omega⟩
    · rename_i ht2
      refine ⟨found, by omega, hfound, ht2, ?_⟩
      split at hnone
      · exact .inl hnone
      · exact .inr (by omega)

theorem evict_none (hp : p.WellFormed) (hbalanced : p.Balanced isProtected n)
    (h : p.evict n isProtected = .ok none) : p.blocks.countP (Idle isProtected) < n := by
  unfold evict at h
  split at h
  · cases h
  split at h
  · rename_i hselect
    obtain ⟨last, hlen, hlast, ht2, ht1⟩ := select_none (by simp) hselect
    have hidle₂ := pick_none ht2
    have hnodup₂ : ((items p.t2).map fst).Nodup := by
      rw [items_keys]
      exact coe_nodup.mpr p.t2.keys_nodup
    simp only [List.length_nil, zero_add, List.countP_nil] at hlen ht1
    rcases ht1 with ht1 | ht1
    · have hidle₁ := pick_none ht1
      have hle : p.blocks.countP (Idle isProtected) ≤ (last.map (·.key)).length :=
        countP_idle_le (LawfulCachePolicy.nodup_keys (p := p) hp) fun e he =>
          (mem_add.mp he).elim (hidle₁ e) (hidle₂ e)
      rw [List.length_map] at hle
      omega
    · -- `t1` went below its target and what was in `t2` is found, so `n` blocks were found
      have hle : (items p.t2).countP (Idle isProtected) ≤
          ((last.filter fun c => !c.fromT1).map (·.key)).length := by
        refine countP_idle_le hnodup₂ fun e he hidle => ?_
        obtain ⟨c, hc, hkey⟩ := List.mem_map.mp (hidle₂ e he hidle)
        refine List.mem_map.mpr ⟨c, List.mem_filter.mpr ⟨hc, ?_⟩, hkey⟩
        rw [Bool.not_eq_true', Bool.eq_false_iff]
        exact fun hfrom => hp.t1_t2 c.key (hlast c hc hfrom)
          (mem_of_lookup (hkey ▸ mem_items.mp he))
      have hsum := List.length_eq_countP_add_countP (·.fromT1) (l := last)
      rw [List.length_map, ← List.countP_eq_length_filter] at hle
      simp only [Bool.not_eq_true, Bool.decide_eq_false] at hsum
      unfold Balanced at hbalanced
      omega
  · cases h

end ARC

/-! ### The manager -/

namespace ManagerRun
open CPUOffloadingManager

section
variable {σ : Type} [CachePolicy K σ] [LawfulCachePolicy K σ] {g g₀ : ManagerRun K σ}

def numToEvict (m : CPUOffloadingManager K σ) (keys : List K) : Int :=
  ((m.frequent keys).filter fun key => (CachePolicy.get m.policy key).isNone).length -
    m.getNumFreeBlocks

/-- A store is refused only if the free slots and the blocks that may be evicted are too few for the
new keys. -/
def RefusedIfFull (m : CPUOffloadingManager K σ) (keys : List K) : Prop :=
  (m.prepareStore keys).map fst = .ok none →
    m.getNumFreeBlocks + m.live.countP (Idle (m.frequent keys)) <
      ((m.frequent keys).filter fun key => (CachePolicy.get m.policy key).isNone).length

theorem managerInv_reaches (inv : Inv g₀) (h : Run.Reaches step Matched g₀ g) :
    ManagerInv g.reading g.writing g.manager := by
  induction h with
  | start => exact inv.manager
  | next op _ hop hstep ih =>
    obtain ⟨g', hg', inv', -⟩ := steps_of_matched ih op hop
    rw [hstep] at hg'
    cases hg'
    exact inv'

/-- No assertion fails in a run of matched calls, whatever the policy evicts. -/
theorem reaches_never_raises (inv : Inv g₀) (h : Run.Reaches step Matched g₀ g) (op : Op K)
    (hop : g.Matched op) : ∃ g', g.step op = .ok g' := by
  obtain ⟨g', hstep, -⟩ := steps_of_matched (managerInv_reaches inv h) op hop
  exact ⟨g', hstep⟩

theorem refusedIfFull_of_evict {reading writing : Multiset K} {m : CPUOffloadingManager K σ}
    (inv : ManagerInv reading writing m)
    (hevict : ∀ n : Nat, n = numToEvict m keys →
      CachePolicy.evict m.policy n (m.frequent keys) = .ok none →
        m.live.countP (Idle (m.frequent keys)) < n) : RefusedIfFull m keys := by
  intro h
  have hle : m.live.countP (Idle (m.frequent keys)) ≤ m.live.countP (·.2.refCnt = 0) := by
    rw [countP_eq_card_filter, countP_eq_card_filter]
    exact card_le_card (monotone_filter_right _ fun e hidle => hidle.1)
  have hevictable := inv.evictable
  unfold numToEvict at hevict
  unfold prepareStore makeRoom at h
  dsimp only at h
  split at h
  · cases h
  split at h
  · cases h
  · rename_i hroom
    split at hroom
    · cases hroom
    split at hroom
    · omega
    split at hroom
    · cases hroom
    · rename_i hnone
      have hfew := hevict _ (Int.toNat_of_nonneg (by omega)) hnone
      omega
    · split at hroom <;> cases hroom
  · split at h <;> cases h

end

/-- With LRU a store is refused only if there is too little room; with ARC too, unless the target
keeps blocks in `t1`. -/
theorem reaches_refusedIfFull (numBlocks : Nat) (enableEvents : Bool) (storeThreshold : Nat)
    (maxTrackerSize : Int) :
    (∀ g : ManagerRun K (LRU K),
      Run.Reaches step Matched (startLRU numBlocks enableEvents storeThreshold maxTrackerSize) g →
      ∀ keys, RefusedIfFull g.manager keys) ∧
    ∀ (rounding : Rounding) (g : ManagerRun K (ARC K)), numBlocks ≤ 2 ^ 53 →
      Run.Reaches step Matched
        (startARC rounding numBlocks enableEvents storeThreshold maxTrackerSize) g →
      ∀ keys, g.manager.policy.Balanced (g.manager.frequent keys) (numToEvict g.manager keys) →
        RefusedIfFull g.manager keys := by
  refine ⟨fun g hreaches keys => ?_, fun rounding g hexact hreaches keys hbalanced => ?_⟩
  · have inv := managerInv_reaches startLRU_inv hreaches
    exact refusedIfFull_of_evict inv fun n _ => LRU.evict_none inv.policy
  · have inv := managerInv_reaches (startARC_inv hexact) hreaches
    exact refusedIfFull_of_evict inv fun n hn => ARC.evict_none inv.policy (hn ▸ hbalanced)

/-- The key that is read was stored before. -/
theorem reaches_never_raises_storeAndRead :
    (∃ g, Run.run step (startLRU 2 true 1 0) storeAndRead = .ok g ∧
      ∃ g', g.step (.completeLoad [1]) = .ok g') ∧
    ∃ g, Run.run step (startARC exactRounding 2 true 1 0) storeAndRead = .ok g ∧
      ∃ g', g.step (.completeLoad [1]) = .ok g' := by
  obtain ⟨⟨g, hrun, hreading, hreach⟩, g', hrun', hreading', hreach'⟩ := reaches_storeAndRead
  have hlru := hreach.mono fun g op => Safe.matched
  have harc := hreach'.mono fun g op => Safe.matched
  exact ⟨⟨g, hrun, reaches_never_raises startLRU_inv hlru _ hreading.ge⟩,
    ⟨g', hrun', reaches_never_raises (startARC_inv (by decide)) harc _ hreading'.ge⟩⟩

/-- Of the two slots one is being read, and there are two new keys. -/
theorem reaches_refusedIfFull_storeAndRead :
    (∃ g, Run.run step (startLRU 2 true 1 0) storeAndRead = .ok g ∧
      (g.manager.prepareStore [2, 3]).map fst = .ok none ∧ RefusedIfFull g.manager [2, 3]) ∧
    ∃ g, Run.run step (startARC exactRounding 2 true 1 0) storeAndRead = .ok g ∧
      (g.manager.prepareStore [2, 3]).map fst = .ok none ∧
      numToEvict g.manager [2, 3] = 1 ∧ RefusedIfFull g.manager [2, 3] := by
  obtain ⟨hlru, harc⟩ := reaches_refusedIfFull (K := Nat) 2 true 1 0
  obtain ⟨⟨g, hrun, -, hreach⟩, g', hrun', -, hreach'⟩ := reaches_storeAndRead
  refine ⟨⟨g, hrun, ?_, hlru g (hreach.mono fun g op => Safe.matched) [2, 3]⟩, ⟨g', hrun', ?_, ?_,
    harc exactRounding g' (by decide) (hreach'.mono fun g op => Safe.matched) [2, 3] (.inr ?_)⟩⟩
  · cases hrun
    rfl
  all_goals cases hrun'
  · rfl
  · rfl
  · decide

/-- Two hits on evicted keys raise the target to the whole cache: of two new keys the second finds no
victim, although nobody uses any block. -/
theorem prepareStore_refused_idle :
    ∃ g : ManagerRun Nat (ARC Nat),
      Run.Reaches step Matched (startARC exactRounding 2 false 1 0) g ∧
      ¬ RefusedIfFull g.manager [5, 6] := by
  have hstore (g : ManagerRun Nat (ARC Nat)) {keys : List Nat} (hkeys : keys.Nodup) :
      g.Matched (.prepareStore keys) := hkeys
  have h₁ := (start : Run.Reaches step Matched
    (startARC exactRounding 2 false 1 0) _).next (.prepareStore [1, 2]) (hstore _ (by decide)) rfl
  have h₂ := h₁.next (.completeStore [1, 2] true) le_rfl rfl
  have h₃ := h₂.next (.prepareStore [3, 4]) (hstore _ (by decide)) rfl
  have h₄ := h₃.next (.completeStore [3, 4] true) le_rfl rfl
  refine ⟨_, h₄.next (.touch [1, 2]) trivial rfl, fun hfull => ?_⟩
  exact absurd (hfull (by decide +kernel)) (by decide +kernel)

end ManagerRun
end Vllm.Offload.CPU
