import Vllm.Worker.InputBatchRows

/-! Where the requests of a batch are: `req_id_to_index` is the inverse of `req_ids`, the rows without a
request hold nothing that a new request would inherit, and `condense` closes the gaps. -/
namespace Vllm.Worker.InputBatch
open List Function Column Dict Equiv AList

variable {K F G : Type} {b : InputBatch K F G} {i : Nat}

def reqAt (b : InputBatch K F G) (i : Nat) : Option K := b.reqIds.getD i none

theorem reqAt_eq_some {id : K} : b.reqAt i = some id ↔ b.reqIds[i]? = some (some id) := by
  rw [reqAt, getD_eq_getElem?_getD]
  cases b.reqIds[i]? with
  | none => simp
  | some o => simp

theorem lt_of_reqAt {id : K} (h : b.reqAt i = some id) : i < b.reqIds.length :=
  (List.getElem?_eq_some_iff.mp (reqAt_eq_some.mp h)).1

theorem reqAt_of_le (h : b.reqIds.length ≤ i) : b.reqAt i = none := by
  rw [reqAt, getD_eq_getElem?_getD, getElem?_eq_none h]
  rfl

variable [DecidableEq K] {b : InputBatch K F G} {i j k loraId : Nat} {id : K}
  {r : CachedRequestState K F G}

theorem reqAt_enter (hi : i ≤ b.reqIds.length) :
    (b.enter i id).reqAt k = if k = i then some id else b.reqAt k := by
  unfold reqAt enter
  split
  · rename_i hlast
    split
    · rename_i hk
      rw [hk, hlast, getD_eq_getElem?_getD, getElem?_concat_length]
      rfl
    · rw [getD_eq_getElem?_getD, getD_eq_getElem?_getD]
      rcases Nat.lt_or_ge k b.reqIds.length with hlt | hge
      · rw [getElem?_append_left hlt]
      · rw [getElem?_eq_none hge, getElem?_eq_none]
        rw [length_append, length_singleton]
        omega
  · split
    · rename_i hk
      rw [hk, getD_set_self _ _ _ (by omega)]
    · rename_i hk
      rw [getD_set_of_ne _ _ _ hk]

theorem reqAt_clearRow (hi : i < b.reqIds.length) :
    (b.clearRow i id).reqAt k = if k = i then none else b.reqAt k := by
  unfold reqAt clearRow
  split
  · rename_i hk
    rw [hk, getD_set_self _ _ _ hi]
  · rename_i hk
    rw [getD_set_of_ne _ _ _ hk]

omit [DecidableEq K] in
theorem reqAt_swapRows (hi : i < b.reqIds.length) (hj : j < b.reqIds.length) :
    (b.swapRows i j).reqAt k = b.reqAt (Equiv.swap i j k) :=
  getD_swap _ _ hi hj

theorem reqAt_moveRow (hi : i < b.reqIds.length) (hj : j < b.reqIds.length) :
    (b.moveRow i j id).reqAt k =
      if k = i then none else if k = j then some id else b.reqAt k := by
  unfold reqAt moveRow
  split
  · rename_i hk
    rw [hk, getD_set_self _ _ _ (by rw [length_set]; exact hi)]
  rename_i hk
  rw [getD_set_of_ne _ _ _ hk]
  split
  · rename_i hkj
    rw [hkj, getD_set_self _ _ _ hj]
  · rename_i hkj
    rw [getD_set_of_ne _ _ _ hkj]

/-! ### The requests of a LoRA -/

theorem mem_lora_writeRow_of_mem [Zero F] (h : id ∈ b.loraIdToRequestIds loraId) :
    id ∈ (b.writeRow i r).loraIdToRequestIds loraId := by
  simp only [writeRow]
  split
  · exact h
  by_cases hl : loraId = r.loraIntId
  · rw [hl, update_self]
    exact Finset.mem_insert_of_mem (hl ▸ h)
  · rw [update_of_ne hl]
    exact h

theorem mem_lora_writeRow_self [Zero F] (h : r.loraIntId ≠ 0) :
    r.reqId ∈ (b.writeRow i r).loraIdToRequestIds r.loraIntId := by
  simp only [writeRow, if_neg h, update_self]
  exact Finset.mem_insert_self _ _

theorem mem_lora_clearRow {id' : K} (hne : id' ≠ id) (h : id' ∈ b.loraIdToRequestIds loraId) :
    id' ∈ (b.clearRow i id).loraIdToRequestIds loraId := by
  simp only [clearRow]
  split
  · exact h
  by_cases hl : loraId = b.requestLoraMapping i
  · rw [hl, update_self]
    exact Finset.mem_erase_of_ne_of_mem hne (hl ▸ h)
  · rw [update_of_ne hl]
    exact h

theorem requestLoraMapping_clearRow_of_ne (hk : k ≠ i) :
    (b.clearRow i id).requestLoraMapping k = b.requestLoraMapping k := by
  simp only [clearRow]
  split
  · rfl
  · exact set_of_ne _ _ _ hk

structure Layout (b : InputBatch K F G) : Prop where
  index : ∀ id i, b.reqIdToIndex.lookup id = some i ↔ b.reqAt i = some id
  spec : b.reqIds.length ≤ b.specTokenIds.length
  specFree : ∀ i, b.reqIds.length ≤ i → b.specTokenIds.getD i [] = []
  free : ∀ i, b.reqAt i = none → b.generators i = none ∧ b.badWordsTokenIds i = none
  lora : ∀ id i, b.reqAt i = some id → b.requestLoraMapping i ≠ 0 →
    id ∈ b.loraIdToRequestIds (b.requestLoraMapping i)

namespace Layout

theorem index_unique (h : b.Layout) (hi : b.reqAt i = some id) (hj : b.reqAt j = some id) : i = j :=
  Option.some.inj (((h.index id i).mpr hi).symm.trans ((h.index id j).mpr hj))

theorem mem (h : b.Layout) (hi : b.reqAt i = some id) : id ∈ b.reqIdToIndex :=
  mem_of_lookup ((h.index id i).mpr hi)

theorem numReqs_eq (h : b.Layout) {n : Nat} (hrows : ∀ i, b.reqAt i = none ↔ n ≤ i) :
    b.numReqs = n := by
  have hindex : ∀ id ∈ b.reqIdToIndex.keys, ∃ i, b.reqAt i = some id ∧
      (b.reqIdToIndex.lookup id).getD 0 = i := by
    intro id hid
    obtain ⟨i, hi⟩ := exists_lookup (AList.mem_keys.mpr hid)
    exact ⟨i, (h.index id i).mp hi, by rw [hi, Option.getD_some]⟩
  have hperm : (b.reqIdToIndex.keys.map fun id => (b.reqIdToIndex.lookup id).getD 0).Perm
      (range n) := by
    refine (perm_ext_iff_of_nodup ?_ nodup_range).mpr fun i => ?_
    · refine Nodup.map_on (fun id hid id' hid' heq => ?_) b.reqIdToIndex.keys_nodup
      obtain ⟨i, hi, hget⟩ := hindex id hid
      obtain ⟨i', hi', hget'⟩ := hindex id' hid'
      obtain rfl : i = i' := hget.symm.trans (heq.trans hget')
      exact Option.some.inj (hi.symm.trans hi')
    · rw [mem_map, mem_range]
      constructor
      · rintro ⟨id, hid, rfl⟩
        obtain ⟨i, hi, hget⟩ := hindex id hid
        rw [hget]
        by_contra hge
        rw [(hrows i).mpr (Nat.le_of_not_lt hge)] at hi
        cases hi
      · intro hlt
        obtain ⟨id, hid⟩ : ∃ id, b.reqAt i = some id :=
          Option.ne_none_iff_exists'.mp fun hnone => absurd ((hrows i).mp hnone) (Nat.not_le_of_lt hlt)
        refine ⟨id, AList.mem_keys.mp (h.mem hid), ?_⟩
        rw [(h.index id i).mpr hid, Option.getD_some]
  rw [numReqs, ← length_range (n := n), ← hperm.length_eq, length_map]

theorem length_enter (hi : i ≤ b.reqIds.length) :
    b.reqIds.length ≤ (b.enter i id).reqIds.length ∧ i < (b.enter i id).reqIds.length ∧
      (b.reqIds.length ≤ b.specTokenIds.length →
        (b.enter i id).reqIds.length ≤ (b.enter i id).specTokenIds.length) := by
  unfold enter
  split
  · rw [length_append, length_append]
    simp only [length_singleton]
    omega
  · rw [length_set, length_set]
    omega

theorem add [Zero F] (h : b.Layout) (hi : i ≤ b.reqIds.length) (hfree : b.reqAt i = none)
    (hnew : b.reqIdToIndex.lookup r.reqId = none) :
    ((b.enter i r.reqId).writeRow i r).Layout := by
  have hreqAt : ∀ k, ((b.enter i r.reqId).writeRow i r).reqAt k =
      if k = i then some r.reqId else b.reqAt k := fun k => reqAt_enter hi
  obtain ⟨hle, hlt, hspec⟩ := @length_enter K F G _ b i r.reqId hi
  have hne : ∀ {k}, ((b.enter i r.reqId).writeRow i r).reqAt k = none →
      k ≠ i ∧ b.reqAt k = none := by
    intro k hk
    rw [hreqAt] at hk
    split at hk
    · cases hk
    · rename_i hne
      exact ⟨hne, hk⟩
  refine ⟨fun id k => ?_, hspec h.spec, fun k hk => ?_, fun k hk => ?_, fun id k hk hlora => ?_⟩
  · refine lookup_insert_iff.trans ?_
    rw [hreqAt, h.index]
    split
    · rename_i hki
      subst hki
      constructor
      · rintro (⟨rfl, -⟩ | ⟨-, hat⟩)
        · rfl
        · rw [hfree] at hat
          cases hat
      · intro hsome
        exact .inl ⟨(Option.some.inj hsome).symm, rfl⟩
    · rename_i hki
      constructor
      · rintro (⟨-, hk⟩ | ⟨-, hat⟩)
        · exact absurd hk hki
        · exact hat
      · intro hat
        refine .inr ⟨fun hid => ?_, hat⟩
        rw [← h.index, hid, hnew] at hat
        cases hat
  · have hk' : (b.enter i r.reqId).reqIds.length ≤ k := hk
    exact (@specTokenIds_enter_of_ne K F G b i k _ r.reqId (by omega)).trans
      (h.specFree k (by omega))
  · rw [generators_writeRow_of_ne (hne hk).1, badWordsTokenIds_writeRow_of_ne (hne hk).1]
    exact h.free k (hne hk).2
  · rw [hreqAt] at hk
    split at hk
    · rename_i hki
      cases hk
      have hmap : ((b.enter i r.reqId).writeRow i r).requestLoraMapping k = r.loraIntId := by
        rw [hki]
        exact set_self _ _ _
      rw [hmap] at hlora ⊢
      exact mem_lora_writeRow_self hlora
    · rename_i hki
      have hmap : ((b.enter i r.reqId).writeRow i r).requestLoraMapping k = b.requestLoraMapping k :=
        set_of_ne _ _ _ hki
      rw [hmap] at hlora ⊢
      exact mem_lora_writeRow_of_mem (h.lora id k hk hlora)

theorem clearRow (h : b.Layout) (hi : b.reqAt i = some id) : (b.clearRow i id).Layout := by
  have hlt := lt_of_reqAt hi
  have hreqAt : ∀ k, (b.clearRow i id).reqAt k = if k = i then none else b.reqAt k :=
    fun k => reqAt_clearRow hlt
  have hlen : (b.clearRow i id).reqIds.length = b.reqIds.length := length_set
  refine ⟨fun id' k => ?_, ?_, fun k hk => ?_, fun k hk => ?_, fun id' k hk hlora => ?_⟩
  · refine lookup_erase_iff.trans ?_
    rw [hreqAt, h.index]
    split
    · rename_i hki
      subst hki
      constructor
      · rintro ⟨hne, hat⟩
        exact absurd (Option.some.inj (hat.symm.trans hi)) hne
      · exact nofun
    · rename_i hki
      constructor
      · exact And.right
      · intro hat
        refine ⟨fun hid => hki ?_, hat⟩
        subst hid
        exact h.index_unique hat hi
  · refine hlen.le.trans (h.spec.trans ?_)
    exact length_set.ge
  · rw [hlen] at hk
    exact (getD_set_of_ne _ _ _ (by omega)).trans (h.specFree k hk)
  · rw [hreqAt] at hk
    split at hk
    · rename_i hki
      rw [hki]
      exact ⟨set_self _ _ _, set_self _ _ _⟩
    · rename_i hki
      exact (h.free k hk).imp (set_of_ne _ _ _ hki).trans (set_of_ne _ _ _ hki).trans
  · rw [hreqAt] at hk
    split at hk
    · cases hk
    rename_i hki
    rw [requestLoraMapping_clearRow_of_ne hki] at hlora ⊢
    refine mem_lora_clearRow (fun hid => hki ?_) (h.lora id' k hk hlora)
    subst hid
    exact h.index_unique hk hi

theorem swap {idI idJ : K} (h : b.Layout) (hi : b.reqAt i = some idI) (hj : b.reqAt j = some idJ) :
    ({ b.swapRows i j with
      reqIdToIndex := (b.reqIdToIndex.insert idI j).insert idJ i } : InputBatch K F G).Layout := by
  have hlti := lt_of_reqAt hi
  have hltj := lt_of_reqAt hj
  have hreqAt : ∀ k, (b.swapRows i j).reqAt k = b.reqAt (Equiv.swap i j k) :=
    fun k => reqAt_swapRows hlti hltj
  have hlen : (b.swapRows i j).reqIds.length = b.reqIds.length := by
    rw [swapRows, length_set, length_set]
  have hspec : (b.swapRows i j).specTokenIds.length = b.specTokenIds.length := by
    rw [swapRows, length_set, length_set]
  refine ⟨fun id k => ?_, (hlen.trans_le h.spec).trans hspec.ge, fun k hk => ?_, fun k hk => ?_,
    fun id k hk hlora => ?_⟩
  · -- writing the two indices is the same as swapping all of them
    have hindex : ((b.reqIdToIndex.insert idI j).insert idJ i).lookup id =
        (b.reqIdToIndex.lookup id).map (Equiv.swap i j) := by
      by_cases hidJ : id = idJ
      · rw [hidJ, lookup_insert, (h.index idJ j).mpr hj, Option.map_some, swap_apply_right]
      rw [lookup_insert_ne hidJ]
      by_cases hidI : id = idI
      · rw [hidI, lookup_insert, (h.index idI i).mpr hi, Option.map_some, swap_apply_left]
      rw [lookup_insert_ne hidI]
      cases hlookup : b.reqIdToIndex.lookup id with
      | none => rfl
      | some a =>
        have ha := (h.index id a).mp hlookup
        rw [Option.map_some, swap_apply_of_ne_of_ne]
        · rintro rfl
          exact hidI (Option.some.inj (ha.symm.trans hi))
        · rintro rfl
          exact hidJ (Option.some.inj (ha.symm.trans hj))
    change _ ↔ (b.swapRows i j).reqAt k = some id
    rw [hindex, hreqAt, ← h.index, Option.map_eq_some_iff]
    constructor
    · rintro ⟨a, ha, rfl⟩
      rwa [swap_apply_self]
    · exact fun hk => ⟨_, hk, swap_apply_self ..⟩
  · have hk' : b.reqIds.length ≤ k := hlen.symm.trans_le hk
    refine (getD_swap _ _ (hlti.trans_le h.spec) (hltj.trans_le h.spec)).trans ?_
    rw [swap_apply_of_ne_of_ne (by omega) (by omega)]
    exact h.specFree k hk'
  · exact (h.free _ ((hreqAt k).symm.trans hk)).imp (swap_apply _ _ _ _).trans
      (swap_apply _ _ _ _).trans
  · have hmap : (b.swapRows i j).requestLoraMapping k = b.requestLoraMapping (Equiv.swap i j k) :=
      swap_apply _ _ _ _
    rw [hmap] at hlora ⊢
    exact h.lora id _ ((hreqAt k).symm.trans hk) hlora

theorem moveRow (h : b.Layout) (hi : b.reqAt i = some id) (hj : b.reqAt j = none)
    (hlt : j < b.reqIds.length) : (b.moveRow i j id).Layout := by
  have hlti := lt_of_reqAt hi
  have hne : i ≠ j := by
    rintro rfl
    rw [hi] at hj
    cases hj
  have hreqAt : ∀ k, (b.moveRow i j id).reqAt k =
      if k = i then none else if k = j then some id else b.reqAt k :=
    fun k => reqAt_moveRow hlti hlt
  have hlen : (b.moveRow i j id).reqIds.length = b.reqIds.length := by
    rw [InputBatch.moveRow, length_set, length_set]
  have hspec : (b.moveRow i j id).specTokenIds.length = b.specTokenIds.length := by
    rw [InputBatch.moveRow, length_set, length_set, length_set]
  refine ⟨fun id' k => ?_, (hlen.trans_le h.spec).trans hspec.ge, fun k hk => ?_, fun k hk => ?_,
    fun id' k hk hlora => ?_⟩
  · refine lookup_insert_iff.trans ?_
    rw [hreqAt, h.index]
    by_cases hki : k = i
    · subst hki
      rw [if_pos rfl]
      constructor
      · rintro (⟨-, heq⟩ | ⟨hne', hat⟩)
        · exact absurd heq hne
        · exact absurd (Option.some.inj (hat.symm.trans hi)) hne'
      · intro h
        cases h
    · rw [if_neg hki]
      by_cases hkj : k = j
      · subst hkj
        rw [if_pos rfl, hj, Option.some.injEq]
        constructor
        · rintro (⟨rfl, -⟩ | ⟨-, hat⟩)
          · rfl
          · cases hat
        · rintro rfl
          exact .inl ⟨rfl, rfl⟩
      · rw [if_neg hkj]
        constructor
        · rintro (⟨-, heq⟩ | ⟨-, hat⟩)
          · exact absurd heq hkj
          · exact hat
        · intro hat
          refine .inr ⟨fun heq => hki ?_, hat⟩
          subst heq
          exact h.index_unique hat hi
  · have hk' : b.reqIds.length ≤ k := hlen.symm.trans_le hk
    refine (getD_set_of_ne _ _ _ (by omega)).trans ((getD_set_of_ne _ _ _ (by omega)).trans
      ((getD_set_of_ne _ _ _ (by omega)).trans (h.specFree k hk')))
  · rw [hreqAt] at hk
    split at hk
    · rename_i hki
      rw [hki]
      exact ⟨popTo_src _ hne, popTo_src _ hne⟩
    rename_i hki
    split at hk
    · cases hk
    · rename_i hkj
      exact (h.free k hk).imp (popTo_of_ne _ hki hkj).trans (popTo_of_ne _ hki hkj).trans
  · rw [hreqAt] at hk
    split at hk
    · cases hk
    split at hk
    · rename_i hkj
      cases hk
      have hmap : (b.moveRow i j id).requestLoraMapping k = b.requestLoraMapping i := by
        rw [hkj]
        exact move_self _ _ _
      rw [hmap] at hlora ⊢
      exact h.lora id i hi hlora
    · rename_i hkj
      have hmap : (b.moveRow i j id).requestLoraMapping k = b.requestLoraMapping k :=
        move_of_ne _ _ _ hkj
      rw [hmap] at hlora ⊢
      exact h.lora id' k hk hlora

theorem updateRow (h : b.Layout) (hi : i < b.reqIds.length) (u : Update) :
    (b.updateRow i u).Layout := by
  cases u with
  | specTokenIds ids =>
    refine ⟨h.index, h.spec.trans length_set.ge, fun k hk => ?_, h.free, h.lora⟩
    have hk' : b.reqIds.length ≤ k := hk
    exact (getD_set_of_ne _ _ _ (by omega)).trans (h.specFree k hk')
  | tokenIds ids | numTokensNoSpec n | numComputedTokens n | blockIds ids | numAcceptedTokens n =>
    exact { h with }

end Layout
end Vllm.Worker.InputBatch
