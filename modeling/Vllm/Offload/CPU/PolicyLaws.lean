import Vllm.Offload.CPU.Policy

/-! What the manager relies on: a policy keeps a set of blocks, one for each key, and evicts only
blocks that nobody uses. Both policies do. -/
namespace Vllm.Offload.CPU
open Multiset Dict AList Prod

open CachePolicy (get setRef insert remove touch clear evict markEvictable markNonEvictable)

def Recounts {K : Type} (key : K) (block : BlockStatus) (refCnt : Int)
    (live live' : Multiset (K × BlockStatus)) : Prop :=
  ∃ rest, live = (key, block) ::ₘ rest ∧ live' = (key, { block with refCnt }) ::ₘ rest

/-- The laws of `CachePolicy`: `live` are the blocks, `Inv` is what the policy keeps between
calls. -/
class LawfulCachePolicy (K : outParam Type) (σ : Type) [CachePolicy K σ] where
  Inv : σ → Prop
  live : σ → Multiset (K × BlockStatus)
  nodup_keys {p : σ} : Inv p → ((live p).map fst).Nodup
  get_iff {p : σ} {key : K} {block : BlockStatus} :
    Inv p → (get p key = some block ↔ (key, block) ∈ live p)
  insert_new {p : σ} {key : K} {block : BlockStatus} : Inv p → get p key = none →
    block.refCnt ≠ 0 →
    Inv (insert p key block) ∧ live (insert p key block) = (key, block) ::ₘ live p
  remove_live {p : σ} {key : K} {block : BlockStatus} : Inv p → get p key = some block →
    ∃ p', remove p key = .ok p' ∧ Inv p' ∧ live p = (key, block) ::ₘ live p'
  touch_live {p : σ} (keys : List K) : Inv p →
    Inv (touch p keys) ∧ live (touch p keys) = live p
  evict_live {p : σ} (n : Nat) (isProtected : List K) : Inv p →
    evict p n isProtected = .ok none ∨ ∃ evicted p', evict p n isProtected = .ok (some (evicted, p')) ∧
      Inv p' ∧ evicted.length = n ∧ (∀ e ∈ evicted, e.2.refCnt = 0 ∧ e.1 ∉ isProtected) ∧
      live p = evicted + live p'
  clear_live {p : σ} : Inv p → Inv (clear p) ∧ live (clear p) = 0
  /-- A block is used for the first time. -/
  pin {p : σ} {key : K} {block : BlockStatus} {refCnt : Int} : Inv p → get p key = some block →
    block.refCnt = 0 → refCnt ≠ 0 → ∃ p', markNonEvictable p key = .ok p' ∧
      Inv (setRef p' key refCnt) ∧ Recounts key block refCnt (live p) (live (setRef p' key refCnt))
  /-- A block that is used already. -/
  repin {p : σ} {key : K} {block : BlockStatus} {refCnt : Int} : Inv p → get p key = some block →
    block.refCnt ≠ 0 → refCnt ≠ 0 →
    Inv (setRef p key refCnt) ∧ Recounts key block refCnt (live p) (live (setRef p key refCnt))
  /-- A block that nobody uses any more. -/
  unpin {p : σ} {key : K} {block : BlockStatus} : Inv p → get p key = some block →
    block.refCnt ≠ 0 → Inv (markEvictable (setRef p key 0) key) ∧
      Recounts key block 0 (live p) (live (markEvictable (setRef p key 0) key))

/-! ### LRU -/

namespace LRU

variable {K : Type} [DecidableEq K] {p : LRU K} {key : K} {block : BlockStatus}

structure WellFormed (p : LRU K) : Prop where
  evictable : ∀ key, key ∈ p.evictableBlocks ↔
    ∃ block, p.blocks.lookup key = some block ∧ block.refCnt = 0

theorem recounts_setItem (h : p.blocks.lookup key = some block) (refCnt : Int) :
    Recounts key block refCnt (items p.blocks)
      (items (setItem p.blocks key { block with refCnt })) :=
  ⟨items (p.blocks.erase key), items_of_lookup h, items_setItem _ _ _⟩

theorem setRef_wellFormed (h : p.WellFormed) {evictableBlocks : Dict K Unit} {refCnt : Int}
    (hget : p.blocks.lookup key = some block) (hevictable : ∀ key', key' ∈ evictableBlocks ↔
      (key' = key ∧ refCnt = 0) ∨ (key' ≠ key ∧ key' ∈ p.evictableBlocks)) :
    WellFormed ⟨evictableBlocks, setItem p.blocks key { block with refCnt }⟩ := by
  refine ⟨fun key' => ?_⟩
  rw [hevictable, h.evictable]
  simp only [lookup_setItem_iff]
  constructor
  · rintro (⟨rfl, hzero⟩ | ⟨hne, b, hb, hzero⟩)
    · exact ⟨_, .inl ⟨rfl, rfl⟩, hzero⟩
    · exact ⟨b, .inr ⟨hne, hb⟩, hzero⟩
  · rintro ⟨b, ⟨rfl, rfl⟩ | ⟨hne, hb⟩, hzero⟩
    · exact .inl ⟨rfl, hzero⟩
    · exact .inr ⟨hne, b, hb, hzero⟩

theorem setRef_of_lookup (hget : p.blocks.lookup key = some block) (refCnt : Int) :
    p.setRef key refCnt =
      ⟨p.evictableBlocks, setItem p.blocks key { block with refCnt }⟩ := by
  rw [setRef, hget]

theorem notMem_evictable (h : p.WellFormed) (hget : p.blocks.lookup key = some block)
    (hused : block.refCnt ≠ 0) : key ∉ p.evictableBlocks := by
  intro hmem
  obtain ⟨b, hb, hzero⟩ := (h.evictable key).mp hmem
  rw [hget, Option.some.injEq] at hb
  exact hused (hb ▸ hzero)

theorem insert_wellFormed (h : p.WellFormed) (hnew : p.blocks.lookup key = none)
    (hcnt : block.refCnt ≠ 0) : (p.insert key block).WellFormed := by
  refine ⟨fun key' => ?_⟩
  simp only [insert, if_neg hcnt, lookup_setItem_iff, h.evictable]
  constructor
  · rintro ⟨b, hb, hzero⟩
    refine ⟨b, .inr ⟨?_, hb⟩, hzero⟩
    rintro rfl
    rw [hnew] at hb
    cases hb
  · rintro ⟨b, ⟨rfl, rfl⟩ | ⟨-, hb⟩, hzero⟩
    · exact absurd hzero hcnt
    · exact ⟨b, hb, hzero⟩

theorem remove_wellFormed (h : p.WellFormed) (key : K) :
    WellFormed ⟨p.evictableBlocks.erase key, p.blocks.erase key⟩ := by
  refine ⟨fun key' => ?_⟩
  simp only [mem_erase, lookup_erase_iff, h.evictable]
  constructor
  · rintro ⟨hne, b, hb, hzero⟩
    exact ⟨b, ⟨hne, hb⟩, hzero⟩
  · rintro ⟨b, ⟨hne, hb⟩, hzero⟩
    exact ⟨hne, b, hb, hzero⟩

theorem removeAll_wellFormed (keys : List K) (h : p.WellFormed) :
    WellFormed ⟨eraseAll p.evictableBlocks keys, eraseAll p.blocks keys⟩ := by
  induction keys generalizing p with
  | nil => exact h
  | cons key keys ih => exact ih (remove_wellFormed h key)

theorem touchOne_wellFormed (h : p.WellFormed) (key : K) :
    (p.touchOne key).WellFormed ∧ (p.touchOne key).blocks = p.blocks := by
  unfold touchOne
  split
  · refine ⟨⟨fun key' => ?_⟩, rfl⟩
    rw [mem_moveToEnd]
    exact h.evictable key'
  · exact ⟨h, rfl⟩

theorem touch_wellFormed (keys : List K) (h : p.WellFormed) :
    (p.touch keys).WellFormed ∧ (p.touch keys).blocks = p.blocks := by
  unfold touch
  generalize keys.reverse = keys
  induction keys generalizing p with
  | nil => exact ⟨h, rfl⟩
  | cons key keys ih =>
    obtain ⟨hone, hblocks⟩ := touchOne_wellFormed h key
    obtain ⟨hrest, hblocks'⟩ := ih hone
    exact ⟨hrest, hblocks'.trans hblocks⟩

/-- What `evict` finds: blocks with the count 0 that are not protected, each once. -/
theorem candidates_ok (h : p.WellFormed) (n : Nat) (isProtected : List K) (keys : List K)
    (found : List (K × BlockStatus)) (hlen : found.length < n)
    (hkeys : ∀ key ∈ keys, key ∈ p.evictableBlocks) (hnodup : (found.map fst ++ keys).Nodup)
    (hfound : ∀ e ∈ found, p.blocks.lookup e.1 = some e.2 ∧ e.2.refCnt = 0 ∧ e.1 ∉ isProtected) :
    ∃ result, p.candidates n isProtected keys found = .ok result ∧ result.length ≤ n ∧
      (result.map fst).Nodup ∧
      ∀ e ∈ result, p.blocks.lookup e.1 = some e.2 ∧ e.2.refCnt = 0 ∧ e.1 ∉ isProtected := by
  induction keys generalizing found with
  | nil =>
    rw [List.append_nil] at hnodup
    exact ⟨found, rfl, hlen.le, hnodup, hfound⟩
  | cons key keys ih =>
    have hrest : ∀ key' ∈ keys, key' ∈ p.evictableBlocks := fun key' hk =>
      hkeys key' (List.mem_cons_of_mem _ hk)
    rw [candidates]
    split
    · refine ih found hlen hrest (hnodup.sublist ?_) hfound
      exact (List.sublist_cons_self key keys).append_left _
    rename_i hfree
    obtain ⟨block, hlookup, hzero⟩ := (h.evictable key).mp (hkeys key List.mem_cons_self)
    have hfound' : ∀ e ∈ found ++ [(key, block)],
        p.blocks.lookup e.1 = some e.2 ∧ e.2.refCnt = 0 ∧ e.1 ∉ isProtected := by
      intro e he
      rcases List.mem_append.mp he with he | he
      · exact hfound e he
      · rw [List.mem_singleton.mp he]
        exact ⟨hlookup, hzero, hfree⟩
    have hnodup' : ((found ++ [(key, block)]).map fst ++ keys).Nodup := by
      rw [List.map_append, List.append_assoc]
      exact hnodup
    simp only [hlookup, hzero, ne_eq, not_true_eq_false, if_false]
    split
    · rename_i hfull
      exact ⟨_, rfl, hfull.le, hnodup'.sublist (List.sublist_append_left _ _), hfound'⟩
    rename_i hmore
    refine ih _ ?_ hrest hnodup' hfound'
    rw [List.length_append, List.length_singleton] at hmore ⊢
    omega

theorem items_eraseAll {blocks : Dict K BlockStatus} (es : List (K × BlockStatus))
    (hnodup : (es.map fst).Nodup) (hlookup : ∀ e ∈ es, blocks.lookup e.1 = some e.2) :
    items blocks = es + items (eraseAll blocks (es.map fst)) := by
  induction es generalizing blocks with
  | nil => exact (zero_add _).symm
  | cons e es ih =>
    obtain ⟨hnot, hnodup⟩ := List.nodup_cons.mp hnodup
    have hrest : ∀ e' ∈ es, (blocks.erase e.1).lookup e'.1 = some e'.2 := fun e' he' =>
      lookup_erase_iff.mpr ⟨fun heq => hnot (heq ▸ List.mem_map_of_mem he'),
        hlookup e' (List.mem_cons_of_mem _ he')⟩
    rw [items_of_lookup (hlookup e List.mem_cons_self), ih hnodup hrest, ← cons_coe, cons_add]
    rfl

instance : LawfulCachePolicy K (LRU K) where
  Inv := WellFormed
  live p := items p.blocks
  nodup_keys {p} _ := by
    rw [items_keys]
    exact coe_nodup.mpr p.blocks.keys_nodup
  get_iff _ := mem_items.symm
  insert_new h hnew hcnt :=
    ⟨insert_wellFormed h hnew hcnt,
      items_setItem_of_notMem (lookup_eq_none.mp hnew)⟩
  remove_live {p key block} h hget :=
    ⟨_, if_pos (mem_of_lookup hget), remove_wellFormed h key, items_of_lookup hget⟩
  touch_live keys h := by
    obtain ⟨hwf, hblocks⟩ := touch_wellFormed keys h
    exact ⟨hwf, congrArg items hblocks⟩
  evict_live {p} n isProtected h := by
    change p.evict n isProtected = _ ∨ ∃ _ _, p.evict n isProtected = _ ∧ _
    unfold evict
    split
    · rename_i hzero
      exact .inr ⟨[], p, rfl, h, hzero.symm, nofun, (zero_add _).symm⟩
    rename_i hpos
    obtain ⟨found, hok, hle, hnodup, hfound⟩ := candidates_ok h n isProtected
      p.evictableBlocks.keys [] (Nat.pos_of_ne_zero hpos) (fun key hk => mem_keys.mpr hk)
      p.evictableBlocks.keys_nodup nofun
    simp only [hok]
    split
    · exact .inl rfl
    rename_i henough
    refine .inr ⟨found, _, rfl, removeAll_wellFormed _ h, by omega, fun e he => (hfound e he).2, ?_⟩
    exact items_eraseAll found hnodup fun e he => (hfound e he).1
  clear_live _ := ⟨⟨fun key => ⟨nofun, nofun⟩⟩, rfl⟩
  pin {p key block refCnt} h hget hzero hcnt := by
    have hmem : key ∈ p.evictableBlocks := (h.evictable key).mpr ⟨block, hget, hzero⟩
    have hset := setRef_of_lookup (p := ⟨p.evictableBlocks.erase key, p.blocks⟩) hget refCnt
    refine ⟨_, if_pos hmem, ?_⟩
    change WellFormed (setRef ⟨p.evictableBlocks.erase key, p.blocks⟩ key refCnt) ∧
      Recounts _ _ _ _ (items (setRef ⟨p.evictableBlocks.erase key, p.blocks⟩ key
        refCnt).blocks)
    rw [hset]
    refine ⟨setRef_wellFormed h hget fun key' => ?_, recounts_setItem hget refCnt⟩
    simp only [mem_erase, hcnt, and_false, false_or]
  repin {p key block refCnt} h hget hused hcnt := by
    change WellFormed (setRef p key refCnt) ∧ Recounts _ _ _ _ (items (setRef p key refCnt).blocks)
    rw [setRef_of_lookup hget]
    refine ⟨setRef_wellFormed h hget fun key' => ?_, recounts_setItem hget refCnt⟩
    simp only [hcnt, and_false, false_or]
    refine (and_iff_right_of_imp ?_).symm
    rintro hmem rfl
    exact notMem_evictable h hget hused hmem
  unpin {p key block} h hget hused := by
    change WellFormed (markEvictable (setRef p key 0) key) ∧
      Recounts _ _ _ _ (items (markEvictable (setRef p key 0) key).blocks)
    rw [setRef_of_lookup hget]
    refine ⟨setRef_wellFormed h hget fun key' => ?_, recounts_setItem hget 0⟩
    simp only [mem_setItem, and_true]
    by_cases hk : key' = key
    · simp only [hk, true_or]
    · simp only [hk, false_or, ne_eq, not_false_eq_true, true_and]

end LRU

/-! ### ARC -/

namespace ARC

section
variable {K : Type} {p : ARC K}

structure Apart (p : ARC K) : Prop where
  t1_t2 : ∀ key ∈ p.t1, key ∉ p.t2
  t1_b1 : ∀ key ∈ p.t1, key ∉ p.b1
  t1_b2 : ∀ key ∈ p.t1, key ∉ p.b2
  t2_b1 : ∀ key ∈ p.t2, key ∉ p.b1
  t2_b2 : ∀ key ∈ p.t2, key ∉ p.b2
  b1_b2 : ∀ key ∈ p.b1, key ∉ p.b2

/-- The lists are apart, the ghost lists and the target stay within the capacity. -/
structure WellFormed (p : ARC K) : Prop extends Apart p where
  b1_le : p.b1.keys.length ≤ p.cacheCapacity
  b2_le : p.b2.keys.length ≤ p.cacheCapacity
  target_nonneg : 0 ≤ p.targetT1Size
  target_le : p.targetT1Size ≤ p.cacheCapacity
  exact : p.cacheCapacity ≤ 2 ^ 53

def blocks (p : ARC K) : Multiset (K × BlockStatus) := items p.t1 + items p.t2

theorem shrink_wellFormed (h : p.WellFormed) {t1 t2 : Dict K BlockStatus}
    (ht1 : ∀ key ∈ t1, key ∈ p.t1) (ht2 : ∀ key ∈ t2, key ∈ p.t2) :
    WellFormed { p with t1, t2 } where
  __ := h
  t1_t2 key hk hb := h.t1_t2 key (ht1 key hk) (ht2 key hb)
  t1_b1 key hk := h.t1_b1 key (ht1 key hk)
  t1_b2 key hk := h.t1_b2 key (ht1 key hk)
  t2_b1 key hk := h.t2_b1 key (ht2 key hk)
  t2_b2 key hk := h.t2_b2 key (ht2 key hk)

theorem empty_wellFormed (rounding : Rounding) {cacheCapacity : Nat}
    (h : cacheCapacity ≤ 2 ^ 53) : WellFormed ({ rounding, cacheCapacity } : ARC K) where
  t1_t2 := nofun
  t1_b1 := nofun
  t1_b2 := nofun
  t2_b1 := nofun
  t2_b2 := nofun
  b1_b2 := nofun
  b1_le := Nat.zero_le _
  b2_le := Nat.zero_le _
  target_nonneg := le_refl _
  target_le := Nat.cast_nonneg _
  exact := h

theorem delta_nonneg (p : ARC K) (n m : Nat) : 0 ≤ p.delta n m :=
  zero_le_one.trans (le_max_left _ _)

theorem trim_spec (p : ARC K) (ghost : Dict K Unit) :
    (∀ key ∈ p.trim ghost, key ∈ ghost) ∧ (p.trim ghost).keys.length ≤ p.cacheCapacity := by
  have hentries : (p.trim ghost).entries =
      ghost.entries.drop (ghost.keys.length - p.cacheCapacity) :=
    entries_popFirst_iterate _ _
  have hkeys : (p.trim ghost).keys = ghost.keys.drop (ghost.keys.length - p.cacheCapacity) := by
    rw [AList.keys, hentries]
    exact List.map_drop
  refine ⟨fun key hk => ?_, ?_⟩
  · rw [mem_keys, hkeys] at hk
    exact mem_keys.mpr (List.mem_of_mem_drop hk)
  · rw [hkeys, List.length_drop]
    omega

end

variable {K : Type} [DecidableEq K] {p : ARC K} {key : K} {block : BlockStatus}

theorem get_eq_some_iff (h : p.Apart) : p.get key = some block ↔ (key, block) ∈ p.blocks := by
  rw [get, blocks, mem_add, mem_items, mem_items]
  cases ht1 : p.t1.lookup key with
  | none => simp
  | some b =>
    have hnone : p.t2.lookup key = none := lookup_eq_none.mpr (h.t1_t2 key (mem_of_lookup ht1))
    simp [hnone]

theorem get_eq_none_iff : p.get key = none ↔ key ∉ p.t1 ∧ key ∉ p.t2 := by
  rw [get, Option.or_eq_none_iff, lookup_eq_none, lookup_eq_none]

theorem insert_wellFormed (h : p.WellFormed) (hnew : key ∉ p.t1 ∧ key ∉ p.t2)
    (block : BlockStatus) : (p.insert key block).WellFormed where
  __ := h
  t1_t2 key' hk := by
    rcases mem_setItem.mp hk with rfl | hk
    · exact hnew.2
    · exact h.t1_t2 key' hk
  t1_b1 key' hk hb := by
    obtain ⟨hne, hb⟩ := mem_erase.mp hb
    rcases mem_setItem.mp hk with rfl | hk
    · exact hne rfl
    · exact h.t1_b1 key' hk hb
  t1_b2 key' hk hb := by
    obtain ⟨hne, hb⟩ := mem_erase.mp hb
    rcases mem_setItem.mp hk with rfl | hk
    · exact hne rfl
    · exact h.t1_b2 key' hk hb
  t2_b1 key' hk hb := h.t2_b1 key' hk (mem_erase.mp hb).2
  t2_b2 key' hk hb := h.t2_b2 key' hk (mem_erase.mp hb).2
  b1_b2 key' hk hb := h.b1_b2 key' (mem_erase.mp hk).2 (mem_erase.mp hb).2
  b1_le := by
    refine le_trans ?_ h.b1_le
    simp only [insert, keys_erase]
    exact List.length_erase_le
  b2_le := by
    refine le_trans ?_ h.b2_le
    simp only [insert, keys_erase]
    exact List.length_erase_le

theorem remove_wellFormed (h : p.WellFormed) (hget : p.get key = some block) :
    ∃ p', p.remove key = .ok p' ∧ p'.WellFormed ∧ p.blocks = (key, block) ::ₘ p'.blocks := by
  unfold remove
  cases ht1 : p.t1.lookup key with
  | some b =>
    rw [if_pos (mem_of_lookup ht1)]
    refine ⟨_, rfl, shrink_wellFormed h (fun _ hk => (mem_erase.mp hk).2) (fun _ hk => hk), ?_⟩
    rw [get, ht1, Option.some_or, Option.some.injEq] at hget
    rw [blocks, items_of_lookup ht1, hget]
    rfl
  | none =>
    rw [if_neg (lookup_eq_none.mp ht1)]
    refine ⟨_, rfl, shrink_wellFormed h (fun _ hk => hk) (fun _ hk => (mem_erase.mp hk).2), ?_⟩
    rw [get, ht1] at hget
    rw [blocks, items_of_lookup hget, add_cons]
    rfl

theorem setRef_wellFormed (h : p.WellFormed) (hget : p.get key = some block) (refCnt : Int) :
    (p.setRef key refCnt).WellFormed ∧
      Recounts key block refCnt p.blocks (p.setRef key refCnt).blocks := by
  unfold setRef
  have hkeep (d : Dict K BlockStatus) (b : BlockStatus) (hmem : key ∈ d) :
      ∀ key' ∈ setItem d key b, key' ∈ d := by
    intro key' hk
    rcases mem_setItem.mp hk with rfl | hk
    · exact hmem
    · exact hk
  cases ht1 : p.t1.lookup key with
  | some b =>
    rw [get, ht1, Option.some_or, Option.some.injEq] at hget
    subst hget
    refine ⟨shrink_wellFormed h (hkeep p.t1 _ (mem_of_lookup ht1)) (fun _ hk => hk),
      items (p.t1.erase key) + items p.t2, ?_, ?_⟩
    · rw [blocks, items_of_lookup ht1, cons_add]
    · simp only [blocks, items_setItem, cons_add]
  | none =>
    rw [get, ht1, Option.none_or] at hget
    simp only [hget]
    refine ⟨shrink_wellFormed h (fun _ hk => hk) (hkeep p.t2 _ (mem_of_lookup hget)),
      items p.t1 + items (p.t2.erase key), ?_, ?_⟩
    · rw [blocks, items_of_lookup hget, add_cons]
    · simp only [blocks, items_setItem, add_cons]

theorem length_keys_moveToEnd (ghost : Dict K Unit) (key : K) :
    (moveToEnd ghost key).keys.length = ghost.keys.length := by
  have hcard := congrArg card (items_moveToEnd ghost key)
  simp only [items, coe_card, List.length_map] at hcard
  simp only [AList.keys, List.keys, List.length_map]
  exact hcard

theorem touchOne_wellFormed (h : p.WellFormed) (key : K) :
    (p.touchOne key).WellFormed ∧ (p.touchOne key).blocks = p.blocks := by
  unfold touchOne
  cases ht1 : p.t1.lookup key with
  | some b =>
    have hmem := mem_of_lookup ht1
    have hfresh : key ∉ p.t1.erase key := fun hk => (mem_erase.mp hk).1 rfl
    simp only
    split
    · refine ⟨shrink_wellFormed h (fun key' hk => ?_) (fun _ hk => hk), ?_⟩
      · rcases mem_setItem.mp hk with rfl | hk
        · exact hmem
        · exact (mem_erase.mp hk).2
      · rw [blocks, items_setItem_of_notMem hfresh, ← items_of_lookup ht1]
        rfl
    · -- the block moves from `t1` to `t2`
      refine ⟨?_, ?_⟩
      · exact { h with
          t1_t2 := fun key' hk hb => by
            obtain ⟨hne, hk⟩ := mem_erase.mp hk
            rcases mem_setItem.mp hb with rfl | hb
            · exact hne rfl
            · exact h.t1_t2 key' hk hb
          t1_b1 := fun key' hk => h.t1_b1 key' (mem_erase.mp hk).2
          t1_b2 := fun key' hk => h.t1_b2 key' (mem_erase.mp hk).2
          t2_b1 := fun key' hk => by
            rcases mem_setItem.mp hk with rfl | hk
            · exact h.t1_b1 key' hmem
            · exact h.t2_b1 key' hk
          t2_b2 := fun key' hk => by
            rcases mem_setItem.mp hk with rfl | hk
            · exact h.t1_b2 key' hmem
            · exact h.t2_b2 key' hk }
      · rw [blocks, items_setItem_of_notMem (h.t1_t2 key hmem), blocks,
          items_of_lookup ht1, add_cons, cons_add]
  | none =>
    simp only
    split
    · refine ⟨shrink_wellFormed h (fun _ hk => hk) (fun _ hk => mem_moveToEnd.mp hk), ?_⟩
      rw [blocks, items_moveToEnd]
      rfl
    · split
      · refine ⟨{ h with
          t1_b1 := fun key' hk hb => h.t1_b1 key' hk (mem_moveToEnd.mp hb)
          t2_b1 := fun key' hk hb => h.t2_b1 key' hk (mem_moveToEnd.mp hb)
          b1_b2 := fun key' hk => h.b1_b2 key' (mem_moveToEnd.mp hk)
          b1_le := (length_keys_moveToEnd p.b1 key).trans_le h.b1_le
          target_nonneg := le_min (p.rounding.nonneg _
            (add_nonneg h.target_nonneg (p.delta_nonneg _ _))) (Nat.cast_nonneg _)
          target_le := min_le_right _ _ }, rfl⟩
      · split
        · refine ⟨{ h with
            t1_b2 := fun key' hk hb => h.t1_b2 key' hk (mem_moveToEnd.mp hb)
            t2_b2 := fun key' hk hb => h.t2_b2 key' hk (mem_moveToEnd.mp hb)
            b1_b2 := fun key' hk hb => h.b1_b2 key' hk (mem_moveToEnd.mp hb)
            b2_le := (length_keys_moveToEnd p.b2 key).trans_le h.b2_le
            target_nonneg := le_max_right _ _
            target_le := max_le (p.rounding.le_natCast _ _ h.exact
              ((sub_le_self _ (p.delta_nonneg _ _)).trans h.target_le)) (Nat.cast_nonneg _) },
            rfl⟩
        · exact ⟨h, rfl⟩

theorem touch_wellFormed (keys : List K) (h : p.WellFormed) :
    (p.touch keys).WellFormed ∧ (p.touch keys).blocks = p.blocks := by
  unfold touch
  generalize keys.reverse = keys
  induction keys generalizing p with
  | nil => exact ⟨h, rfl⟩
  | cons key keys ih =>
    obtain ⟨hone, hblocks⟩ := touchOne_wellFormed h key
    obtain ⟨hrest, hblocks'⟩ := ih hone
    exact ⟨hrest, hblocks'.trans hblocks⟩

theorem pick_spec {blocks : Dict K BlockStatus} {excluded : List K} {e : K × BlockStatus}
    (h : pick blocks excluded = some e) :
    blocks.lookup e.1 = some e.2 ∧ e.2.refCnt = 0 ∧ e.1 ∉ excluded := by
  obtain ⟨entry, hfind, rfl⟩ := Option.map_eq_some_iff.mp h
  have hcond : entry.2.refCnt = 0 ∧ entry.1 ∉ excluded := by
    have hfound := List.find?_some hfind
    exact of_decide_eq_true hfound
  exact ⟨lookup_iff_mem_entries.mpr (List.mem_of_find?_eq_some hfind), hcond.1, hcond.2⟩

def Eligible (p : ARC K) (isProtected : List K) (c : Candidate K) : Prop :=
  (if c.fromT1 then p.t1 else p.t2).lookup c.key = some c.block ∧ c.block.refCnt = 0 ∧
    c.key ∉ isProtected

theorem select_spec (n : Nat) (virtualT1Size : Int) (isProtected : List K)
    (found result : List (Candidate K)) (hnodup : (found.map (·.key)).Nodup)
    (hfound : ∀ c ∈ found, p.Eligible isProtected c)
    (h : p.select isProtected n virtualT1Size found = some result) :
    result.length = found.length + n ∧ (result.map (·.key)).Nodup ∧
      ∀ c ∈ result, p.Eligible isProtected c := by
  induction n generalizing virtualT1Size found with
  | zero =>
    rw [select, Option.some.injEq] at h
    subst h
    exact ⟨rfl, hnodup, hfound⟩
  | succ n ih =>
    have hnext : ∀ (virtualT1Size : Int) (c : Candidate K), p.Eligible isProtected c →
        c.key ∉ found.map (·.key) →
        p.select isProtected n virtualT1Size (found ++ [c]) = some result →
        result.length = found.length + (n + 1) ∧ (result.map (·.key)).Nodup ∧
          ∀ c ∈ result, p.Eligible isProtected c := by
      intro virtualT1Size c hc hnew hsel
      have hnodup' : ((found ++ [c]).map (·.key)).Nodup := by
        rw [List.map_append, List.map_singleton, ← List.concat_eq_append]
        exact hnodup.concat hnew
      have hfound' : ∀ c' ∈ found ++ [c], p.Eligible isProtected c' := by
        intro c' hc'
        rcases List.mem_append.mp hc' with hc' | hc'
        · exact hfound c' hc'
        · rw [List.mem_singleton.mp hc']
          exact hc
      obtain ⟨hlen, hrest⟩ := ih virtualT1Size (found ++ [c]) hnodup' hfound' hsel
      refine ⟨?_, hrest⟩
      rw [hlen, List.length_append, List.length_singleton]
      omega
    rw [select] at h
    split at h
    · rename_i key block hpick
      split at hpick
      · obtain ⟨hlookup, hzero, hex⟩ := pick_spec hpick
        rw [List.mem_append, not_or] at hex
        exact hnext _ ⟨key, block, true⟩ ⟨hlookup, hzero, hex.1⟩ hex.2 h
      · cases hpick
    · split at h
      · rename_i key block hpick
        obtain ⟨hlookup, hzero, hex⟩ := pick_spec hpick
        rw [List.mem_append, not_or] at hex
        exact hnext _ ⟨key, block, false⟩ ⟨hlookup, hzero, hex.1⟩ hex.2 h
      · cases h

theorem applyEviction_apart (h : p.Apart) (c : Candidate K)
    (hmem : c.key ∈ if c.fromT1 then p.t1 else p.t2) : (p.applyEviction c).Apart := by
  unfold applyEviction
  cases hfrom : c.fromT1 with
  | true =>
    rw [hfrom] at hmem
    exact { h with
      t1_t2 := fun key hk => h.t1_t2 key (mem_erase.mp hk).2
      t1_b1 := fun key hk hb => by
        obtain ⟨hne, hk⟩ := mem_erase.mp hk
        rcases mem_setItem.mp hb with rfl | hb
        · exact hne rfl
        · exact h.t1_b1 key hk hb
      t1_b2 := fun key hk => h.t1_b2 key (mem_erase.mp hk).2
      t2_b1 := fun key hk hb => by
        rcases mem_setItem.mp hb with rfl | hb
        · exact h.t1_t2 c.key hmem hk
        · exact h.t2_b1 key hk hb
      b1_b2 := fun key hb => by
        rcases mem_setItem.mp hb with rfl | hb
        · exact h.t1_b2 c.key hmem
        · exact h.b1_b2 key hb }
  | false =>
    rw [hfrom] at hmem
    exact { h with
      t1_t2 := fun key hk hb => h.t1_t2 key hk (mem_erase.mp hb).2
      t1_b2 := fun key hk hb => by
        rcases mem_setItem.mp hb with rfl | hb
        · exact h.t1_t2 c.key hk hmem
        · exact h.t1_b2 key hk hb
      t2_b1 := fun key hk => h.t2_b1 key (mem_erase.mp hk).2
      t2_b2 := fun key hk hb => by
        obtain ⟨hne, hk⟩ := mem_erase.mp hk
        rcases mem_setItem.mp hb with rfl | hb
        · exact hne rfl
        · exact h.t2_b2 key hk hb
      b1_b2 := fun key hk hb => by
        rcases mem_setItem.mp hb with rfl | hb
        · exact h.t2_b1 c.key hmem hk
        · exact h.b1_b2 key hk hb }

theorem applyEviction_blocks (c : Candidate K)
    (hlookup : (if c.fromT1 then p.t1 else p.t2).lookup c.key = some c.block) :
    p.blocks = (c.key, c.block) ::ₘ (p.applyEviction c).blocks := by
  unfold applyEviction
  cases hfrom : c.fromT1 with
  | true =>
    rw [hfrom] at hlookup
    simp only [if_true] at hlookup ⊢
    rw [blocks, items_of_lookup hlookup]
    rfl
  | false =>
    rw [hfrom] at hlookup
    simp only [Bool.false_eq_true, if_false] at hlookup ⊢
    rw [blocks, items_of_lookup hlookup, add_cons]
    rfl

theorem applyEviction_lookup {c c' : Candidate K} (hne : c'.key ≠ c.key)
    (hlookup : (if c'.fromT1 then p.t1 else p.t2).lookup c'.key = some c'.block) :
    (if c'.fromT1 then (p.applyEviction c).t1 else (p.applyEviction c).t2).lookup c'.key =
      some c'.block := by
  unfold applyEviction
  cases c.fromT1 <;> cases hfrom : c'.fromT1 <;>
    simp only [hfrom, if_true, Bool.false_eq_true, if_false] at hlookup ⊢ <;>
    first
      | exact hlookup
      | exact lookup_erase_iff.mpr ⟨hne, hlookup⟩

theorem applyEviction_bounds (p : ARC K) (c : Candidate K) :
    (p.applyEviction c).cacheCapacity = p.cacheCapacity ∧
      (p.applyEviction c).targetT1Size = p.targetT1Size := by
  unfold applyEviction
  split <;> exact ⟨rfl, rfl⟩

theorem applyEvictions (found : List (Candidate K)) (h : p.Apart)
    (hnodup : (found.map (·.key)).Nodup)
    (hfound : ∀ c ∈ found, (if c.fromT1 then p.t1 else p.t2).lookup c.key = some c.block) :
    let p' := found.foldl applyEviction p
    p'.Apart ∧ p.blocks = ((found.map fun c => (c.key, c.block) : List _) : Multiset _) + p'.blocks ∧
      p'.cacheCapacity = p.cacheCapacity ∧ p'.targetT1Size = p.targetT1Size := by
  induction found generalizing p with
  | nil => exact ⟨h, (zero_add _).symm, rfl, rfl⟩
  | cons c found ih =>
    obtain ⟨hnot, hnodup⟩ := List.nodup_cons.mp hnodup
    have hc := hfound c List.mem_cons_self
    have hapart := applyEviction_apart h c (mem_of_lookup hc)
    obtain ⟨hrest, hblocks, hcap, htarget⟩ := ih hapart hnodup fun c' hc' =>
      applyEviction_lookup (fun heq => hnot (List.mem_map.mpr ⟨c', hc', heq⟩))
        (hfound c' (List.mem_cons_of_mem _ hc'))
    obtain ⟨hcap', htarget'⟩ := p.applyEviction_bounds c
    refine ⟨hrest, ?_, hcap.trans hcap', htarget.trans htarget'⟩
    rw [applyEviction_blocks c hc, hblocks]
    rfl

theorem evict_wellFormed (h : p.WellFormed) (n : Nat) (isProtected : List K) :
    p.evict n isProtected = .ok none ∨ ∃ evicted p',
      p.evict n isProtected = .ok (some (evicted, p')) ∧ p'.WellFormed ∧ evicted.length = n ∧
      (∀ e ∈ evicted, e.2.refCnt = 0 ∧ e.1 ∉ isProtected) ∧ p.blocks = evicted + p'.blocks := by
  unfold evict
  split
  · rename_i hzero
    exact .inr ⟨[], p, rfl, h, hzero.symm, nofun, (zero_add _).symm⟩
  cases hselect : p.select isProtected n p.t1.keys.length [] with
  | none => exact .inl rfl
  | some found =>
    obtain ⟨hlen, hnodup, hfound⟩ := select_spec n _ isProtected [] found List.nodup_nil nofun
      hselect
    obtain ⟨hapart, hblocks, hcap, htarget⟩ := applyEvictions found h.toApart hnodup
      fun c hc => (hfound c hc).1
    refine .inr ⟨_, _, rfl, ?_, ?_, fun e he => ?_, hblocks⟩
    · generalize found.foldl applyEviction p = p' at hapart hcap htarget
      obtain ⟨hb1, hb1_le⟩ := p'.trim_spec p'.b1
      obtain ⟨hb2, hb2_le⟩ := p'.trim_spec p'.b2
      exact {
        t1_t2 := hapart.t1_t2
        t1_b1 := fun key hk hb => hapart.t1_b1 key hk (hb1 key hb)
        t1_b2 := fun key hk hb => hapart.t1_b2 key hk (hb2 key hb)
        t2_b1 := fun key hk hb => hapart.t2_b1 key hk (hb1 key hb)
        t2_b2 := fun key hk hb => hapart.t2_b2 key hk (hb2 key hb)
        b1_b2 := fun key hk hb => hapart.b1_b2 key (hb1 key hk) (hb2 key hb)
        b1_le := hb1_le
        b2_le := hb2_le
        target_nonneg := by
          simp only [htarget]
          exact h.target_nonneg
        target_le := by
          simp only [htarget, hcap]
          exact h.target_le
        exact := by
          simp only [hcap]
          exact h.exact }
    · rw [List.length_map, hlen, List.length_nil, Nat.zero_add]
    · obtain ⟨c, hc, rfl⟩ := List.mem_map.mp he
      exact (hfound c hc).2

instance : LawfulCachePolicy K (ARC K) where
  Inv := WellFormed
  live := blocks
  nodup_keys {p} h := by
    rw [blocks, Multiset.map_add, items_keys, items_keys]
    refine nodup_add.mpr ⟨coe_nodup.mpr p.t1.keys_nodup,
      coe_nodup.mpr p.t2.keys_nodup, disjoint_left.mpr fun {key} hk hb => ?_⟩
    exact h.t1_t2 key (mem_keys.mpr (mem_coe.mp hk)) (mem_keys.mpr (mem_coe.mp hb))
  get_iff h := get_eq_some_iff h.toApart
  insert_new {p key block} h hnew _ := by
    have hnone := get_eq_none_iff.mp hnew
    refine ⟨insert_wellFormed h hnone block, ?_⟩
    change items (setItem p.t1 key block) + items p.t2 = _
    rw [items_setItem_of_notMem hnone.1, cons_add]
    rfl
  remove_live h hget := remove_wellFormed h hget
  touch_live keys h := touch_wellFormed keys h
  evict_live n isProtected h := evict_wellFormed h n isProtected
  clear_live {p} h := ⟨empty_wellFormed p.rounding h.exact, rfl⟩
  pin {p key block refCnt} h hget _ _ := ⟨p, rfl, setRef_wellFormed h hget refCnt⟩
  repin h hget _ _ := setRef_wellFormed h hget _
  unpin h hget _ := setRef_wellFormed h hget 0

end ARC
end Vllm.Offload.CPU
