import Vllm.Worker.InputBatchCondense

/-! Removing and adding requests: the builder lists the empty rows, the lowest one is filled first. -/
namespace Vllm.Worker.InputBatch
open List Function Option AList

variable {K F G : Type} {b b' : InputBatch K F G} {i j k : Nat} {id : K}
  {rows : K → Option (Row F G)}

def nextRow (b : InputBatch K F G) : Nat := b.reqIds.findIdx isNone

theorem nextRow_eq (hi : i ≤ b.reqIds.length) (hnone : b.reqAt i = none)
    (hlive : ∀ j < i, b.reqAt j ≠ none) : b.nextRow = i := by
  have hbelow : ∀ j (hj : j < i) (hlt : j < b.reqIds.length), (b.reqIds[j]).isNone = false := by
    intro j hj hlt
    have hat := hlive j hj
    rw [reqAt, getD_eq_getElem?_getD, getElem?_eq_getElem hlt] at hat
    rw [isNone_eq_false_iff]
    exact isSome_iff_ne_none.mpr hat
  rcases Nat.lt_or_eq_of_le hi with hlt | rfl
  · rw [nextRow, findIdx_eq hlt]
    refine ⟨?_, fun j hj => hbelow j hj (hj.trans hlt)⟩
    rw [reqAt, getD_eq_getElem?_getD, getElem?_eq_getElem hlt, getD_some] at hnone
    rw [hnone]
    rfl
  · rw [nextRow, findIdx_eq_length]
    intro o ho
    obtain ⟨j, hj, rfl⟩ := mem_iff_getElem.mp ho
    exact hbelow j hj hj

structure Registers (b : InputBatch K F G) (i : Nat) (u : BatchUpdateBuilder) : Prop where
  le : i ≤ b.reqIds.length
  free : b.reqAt i = none
  next : b.nextRow = i
  nodup : u.removed.Nodup
  empty : ∀ j, j ∈ u.removed ↔ j ≠ i ∧ j < b.reqIds.length ∧ b.reqAt j = none
  size : b.numReqs + 1 + u.removed.length = max b.reqIds.length (i + 1)
  sorted : u.isRemovedSorted = true → u.removed.Pairwise (· ≥ ·)

/-- No row is empty: the request goes behind the last one. -/
theorem Open.registers_nil (h : b.Open) (hnone : b.batchUpdateBuilder.removed = []) :
    b.Registers b.numReqs b.batchUpdateBuilder := by
  have hpacked := h.packed hnone
  have hlen : b.numReqs = b.reqIds.length := hpacked.length.symm
  have hfree : b.reqAt b.numReqs = none := reqAt_of_le hlen.ge
  refine ⟨hlen.le, hfree, nextRow_eq hlen.le hfree fun j hj hat => ?_, h.nodup, fun j => ?_, ?_,
    h.sorted⟩
  · exact absurd ((hpacked.dense j).mp hat) (Nat.not_le_of_lt hj)
  · rw [h.empty]
    constructor
    · rintro ⟨hlt, hat⟩
      exact ⟨by omega, hlt, hat⟩
    · exact And.right
  · rw [hnone, length_nil]
    omega

theorem Open.registers_concat (h : b.Open)
    (hsorted : b.batchUpdateBuilder.removed.Pairwise (· ≥ ·)) {removed : List Nat}
    (hremoved : b.batchUpdateBuilder.removed = removed ++ [i]) :
    b.Registers i { b.batchUpdateBuilder with removed } := by
  have hempty := h.empty
  have hnodup := h.nodup
  have hsize := h.size
  rw [hremoved] at hsorted hempty hnodup hsize
  obtain ⟨hlt, hfree⟩ := (hempty i).mp (mem_append_right _ (mem_singleton_self i))
  have hmin : ∀ j ∈ removed, i ≤ j := fun j hj =>
    (pairwise_append.mp hsorted).2.2 j hj i (mem_singleton_self i)
  have hnot : i ∉ removed := fun hmem =>
    (nodup_append.mp hnodup).2.2 i hmem i (mem_singleton_self i) rfl
  refine ⟨hlt.le, hfree, nextRow_eq hlt.le hfree fun j hj hat => ?_,
    (nodup_append.mp hnodup).1, fun j => ?_, ?_, fun _ => (pairwise_append.mp hsorted).1⟩
  · rcases mem_append.mp ((hempty j).mpr ⟨hj.trans hlt, hat⟩) with hmem | hmem
    · exact absurd (hmin j hmem) (Nat.not_le_of_lt hj)
    · exact absurd (mem_singleton.mp hmem) (Nat.ne_of_lt hj)
  · rw [← hempty, mem_append, mem_singleton]
    constructor
    · exact fun hj => ⟨fun heq => hnot (heq ▸ hj), .inl hj⟩
    · rintro ⟨hne, hj | hj⟩
      · exact hj
      · exact absurd hj hne
  · rw [length_append, length_singleton] at hsize
    change b.numReqs + 1 + removed.length = _
    omega

theorem Open.registers (h : b.Open) :
    b.Registers (b.batchUpdateBuilder.popRemoved.1.getD b.numReqs)
      b.batchUpdateBuilder.popRemoved.2 := by
  unfold BatchUpdateBuilder.popRemoved
  by_cases hnone : b.batchUpdateBuilder.removed = []
  · rw [if_pos hnone]
    exact h.registers_nil hnone
  rw [if_neg hnone]
  obtain ⟨hopen, hsorted⟩ := h.sortRemoved
  have hne : b.sortRemoved.batchUpdateBuilder.removed ≠ [] := by
    intro hnil
    have hsize := hopen.size.trans h.size.symm
    change b.numReqs + _ = _ at hsize
    rw [hnil, length_nil] at hsize
    exact hnone (length_eq_zero_iff.mp (by omega))
  obtain hnil | ⟨removed, last, hlast⟩ := eq_nil_or_concat b.sortRemoved.batchUpdateBuilder.removed
  · exact absurd hnil hne
  · rw [concat_eq_append] at hlast
    have hregisters := hopen.registers_concat hsorted hlast
    change b.batchUpdateBuilder.ensureRemovedSorted.removed = _ at hlast
    simp only [hlast, getLast?_concat, getD_some, dropLast_concat]
    exact { hregisters with }

theorem Open.registerAddRequest_eq (h : b.Open) :
    b.registerAddRequest =
      if b.nextRow < b.maxNumReqs then
        .ok (b.nextRow, { b with batchUpdateBuilder := b.batchUpdateBuilder.popRemoved.2 })
      else .error .assertion := by
  rw [h.registers.next]
  rfl

variable [DecidableEq K]

/-! ### Adding -/

theorem numReqs_insert (h : b.reqIdToIndex.lookup id = none) :
    (b.reqIdToIndex.insert id i).keys.length = b.numReqs + 1 := by
  have hnot : id ∉ b.reqIdToIndex.keys := fun hmem =>
    lookup_eq_none.mp h (AList.mem_keys.mpr hmem)
  rw [keys_insert, length_cons, erase_of_not_mem hnot, numReqs]

theorem addRequest_tracked [Zero F] {r : CachedRequestState K F G} (h : b.Tracked rows)
    (hopen : b.Open) (hnew : b.reqIdToIndex.lookup r.reqId = none)
    (hmask : r.samplingParams.allowedTokenIds ≠ [] ∨ b.maskRow b.nextRow = fun _ => false)
    (hadd : b.addRequest r = .ok b') :
    b'.Tracked (Function.update rows r.reqId (some (Row.ofRequest b.vocabSize r))) ∧ b'.Open := by
  unfold addRequest at hadd
  have hregisters := hopen.registers
  rw [← hregisters.next] at hregisters
  rw [hopen.registerAddRequest_eq] at hadd
  by_cases hfits : b.nextRow < b.maxNumReqs
  · rw [if_pos hfits] at hadd
    generalize b.batchUpdateBuilder.popRemoved.2 = u at hadd hregisters
    generalize hi : b.nextRow = i at hadd hregisters hmask
    cases hadd
    have htracked := @Tracked.with_builder K F G _ b rows u h
    have hreqAt : ∀ k, ((({ b with batchUpdateBuilder := u } : InputBatch K F G).enter i
        r.reqId).writeRow i r).reqAt k = if k = i then some r.reqId else b.reqAt k :=
      fun k => reqAt_enter hregisters.le
    refine ⟨⟨htracked.layout.add hregisters.le hregisters.free hnew, fun id k hk => ?_⟩, ?_⟩
    · rw [hreqAt] at hk
      split at hk
      · rename_i hki
        cases hk
        subst hki
        refine ⟨_, update_self .., holds_add_self ⟨?_, ?_, ?_, ?_⟩⟩
        · exact fun heq => h.layout.specFree k heq.ge
        · exact (h.layout.free k hregisters.free).1
        · exact (h.layout.free k hregisters.free).2
        · exact hmask
      · rename_i hki
        obtain ⟨row, hrow, hholds⟩ := htracked.follows id k hk
        have hne : id ≠ r.reqId := by
          rintro rfl
          rw [← h.layout.index, hnew] at hk
          cases hk
        exact ⟨row, (update_of_ne hne _ _).trans hrow, hholds.add_of_ne hki⟩
    · have hlen : (({ b with batchUpdateBuilder := u } : InputBatch K F G).enter i
          r.reqId).reqIds.length = max b.reqIds.length (i + 1) := by
        have hle := hregisters.le
        simp only [enter]
        split
        · rw [length_append, length_singleton]
          omega
        · rw [length_set]
          omega
      refine ⟨hregisters.nodup, fun j => ?_, ?_, hregisters.sorted⟩
      · refine (hregisters.empty j).trans ?_
        change _ ↔ j < (({ b with batchUpdateBuilder := u } : InputBatch K F G).enter i
          r.reqId).reqIds.length ∧ _
        rw [hreqAt]
        have hle := hregisters.le
        split
        · rename_i hji
          exact ⟨fun hne => absurd hji hne.1, nofun⟩
        · rename_i hji
          exact ⟨fun hj => ⟨by omega, hj.2.2⟩, fun hj => ⟨hji, by omega, hj.2⟩⟩
      · refine Eq.trans ?_ (hregisters.size.trans hlen.symm)
        exact congrArg (· + u.removed.length) (numReqs_insert hnew)
  · rw [if_neg hfits] at hadd
    cases hadd

/-! ### Removing -/

theorem Tracked.clearRow (h : b.Tracked rows) (hi : b.reqAt i = some id) :
    (b.clearRow i id).Tracked (Function.update rows id none) := by
  refine ⟨h.layout.clearRow hi, fun id' k hk => ?_⟩
  rw [reqAt_clearRow (lt_of_reqAt hi)] at hk
  split at hk
  · cases hk
  rename_i hki
  have hne : id' ≠ id := by
    rintro rfl
    exact hki (h.layout.index_unique hk hi)
  obtain ⟨row, hrow, hholds⟩ := h.follows id' k hk
  exact ⟨row, (update_of_ne hne _ _).trans hrow, hholds.clearRow_of_ne hki⟩

theorem Open.clearRow (h : b.Open) (hi : b.reqAt i = some id)
    (hlookup : b.reqIdToIndex.lookup id = some i)
    (hsorted : b.batchUpdateBuilder.isRemovedSorted = false) :
    ({ b.clearRow i id with
      batchUpdateBuilder := { b.batchUpdateBuilder with
        removed := b.batchUpdateBuilder.removed ++ [i] } } : InputBatch K F G).Open := by
  have hlt := lt_of_reqAt hi
  have hnot : i ∉ b.batchUpdateBuilder.removed := fun hmem => by
    rw [((h.empty i).mp hmem).2] at hi
    cases hi
  have hkey := AList.mem_keys.mp (Dict.mem_of_lookup hlookup)
  refine ⟨?_, fun j => ?_, ?_, fun htrue => ?_⟩
  · exact (nodup_append_comm.trans nodup_cons).mpr ⟨hnot, h.nodup⟩
  · change j ∈ b.batchUpdateBuilder.removed ++ [i] ↔
      j < (b.reqIds.set i none).length ∧ (b.clearRow i id).reqAt j = none
    rw [mem_append, mem_singleton, h.empty, length_set, reqAt_clearRow hlt]
    split
    · rename_i hji
      subst hji
      exact ⟨fun _ => ⟨hlt, rfl⟩, fun _ => .inr rfl⟩
    · rename_i hji
      exact ⟨fun hj => hj.resolve_right hji, .inl⟩
  · change (b.reqIdToIndex.erase id).keys.length + (b.batchUpdateBuilder.removed ++ [i]).length =
      (b.reqIds.set i none).length
    have hsize := h.size
    have hpos := length_pos_of_mem hkey
    rw [keys_erase, length_erase_of_mem hkey, length_append, length_singleton, length_set]
    rw [numReqs] at hsize
    omega
  · rw [hsorted] at htrue
    cases htrue

theorem removeRequest_tracked (h : b.Tracked rows) (hopen : b.Open)
    (hremove : b.removeRequest id = .ok b') :
    b'.Tracked (Function.update rows id none) ∧ b'.Open ∧
      b'.batchUpdateBuilder.isRemovedSorted = b.batchUpdateBuilder.isRemovedSorted := by
  unfold removeRequest at hremove
  split at hremove
  · rename_i hnone
    cases hremove
    refine ⟨⟨h.layout, fun id' k hk => ?_⟩, hopen, rfl⟩
    have hne : id' ≠ id := by
      rintro rfl
      rw [← h.layout.index, hnone] at hk
      cases hk
    obtain ⟨row, hrow, hholds⟩ := h.follows id' k hk
    exact ⟨row, (update_of_ne hne _ _).trans hrow, hholds⟩
  · rename_i i hlookup
    have hi := (h.layout.index id i).mp hlookup
    unfold BatchUpdateBuilder.removedAppend at hremove
    split at hremove
    · cases hremove
    rename_i u happend
    split at happend
    · cases happend
    rename_i hsorted
    cases happend
    split at hremove
    · cases hremove
    · cases hremove
      exact ⟨(h.clearRow hi).with_builder,
        hopen.clearRow hi hlookup (Bool.not_eq_true _ ▸ hsorted), rfl⟩

/-! ### Swapping, updating and refreshing -/

omit [DecidableEq K] in
theorem Packed.refreshMetadata (h : b.Packed) : b.refreshMetadata.Open ∧ b.refreshMetadata.Packed := by
  refine ⟨⟨.nil, fun i => ⟨nofun, ?_⟩, h.length.symm, nofun⟩, h.with_builder⟩
  rintro ⟨hlt, hnone⟩
  have hle := (h.dense i).mp hnone
  rw [← h.length] at hle
  exact absurd hlt (Nat.not_lt_of_le hle)

theorem swapStates_tracked (h : b.Tracked rows) (hpacked : b.Packed)
    (hmask : b.maskRow i = b.maskRow j) (hswap : b.swapStates i j = .ok b') :
    b'.Tracked rows ∧ b'.Packed := by
  unfold swapStates at hswap
  split at hswap
  · rename_i idI idJ hatI hatJ
    have hi := reqAt_eq_some.mpr hatI
    have hj := reqAt_eq_some.mpr hatJ
    rw [(h.layout.index idI i).mpr hi, (h.layout.index idJ j).mpr hj] at hswap
    cases hswap
    have hlti := lt_of_reqAt hi
    have hltj := lt_of_reqAt hj
    have hreqAt : ∀ k, (b.swapRows i j).reqAt k = b.reqAt (Equiv.swap i j k) :=
      fun k => reqAt_swapRows hlti hltj
    have hnum : ((b.reqIdToIndex.insert idI j).insert idJ i).keys.length = b.numReqs := by
      rw [length_keys_insert (mem_insert _ |>.mpr (.inr (h.layout.mem hj))),
        length_keys_insert (h.layout.mem hi), numReqs]
    refine ⟨⟨h.layout.swap hi hj, fun id k hk => ?_⟩, fun k => ?_, ?_⟩
    · obtain ⟨row, hrow, hholds⟩ := h.follows id _ ((hreqAt k).symm.trans hk)
      have hswapped := hholds.swapRows (hlti.trans_le h.layout.spec) (hltj.trans_le h.layout.spec) hmask
      exact ⟨row, hrow, hswapped.entry, hswapped.tokenIds, hswapped.isTokenIds, hswapped.blocks⟩
    · change (b.swapRows i j).reqAt k = none ↔ _ ≤ k
      rw [hreqAt, hpacked.dense]
      change _ ↔ ((b.reqIdToIndex.insert idI j).insert idJ i).keys.length ≤ k
      rw [hpacked.length] at hlti hltj
      rw [hnum]
      by_cases hki : k = i
      · rw [hki, Equiv.swap_apply_left]
        omega
      by_cases hkj : k = j
      · rw [hkj, Equiv.swap_apply_right]
        omega
      · rw [Equiv.swap_apply_of_ne_of_ne hki hkj]
    · rw [swapRows, length_set, length_set, hpacked.length]
      exact hnum.symm
  · cases hswap
  · cases hswap

omit [DecidableEq K] in
theorem updateRow_lists (b : InputBatch K F G) (i : Nat) (u : Update) :
    (b.updateRow i u).reqIds = b.reqIds ∧ (b.updateRow i u).reqIdToIndex = b.reqIdToIndex ∧
      (b.updateRow i u).batchUpdateBuilder = b.batchUpdateBuilder := by
  cases u with
  | specTokenIds ids | tokenIds ids | numTokensNoSpec n | numComputedTokens n | blockIds ids
  | numAcceptedTokens n => exact ⟨rfl, rfl, rfl⟩

omit [DecidableEq K] in
theorem Open.of_lists (h : b.Open) (hids : b'.reqIds = b.reqIds)
    (hindex : b'.reqIdToIndex = b.reqIdToIndex)
    (hbuilder : b'.batchUpdateBuilder = b.batchUpdateBuilder) : b'.Open := by
  refine ⟨hbuilder ▸ h.nodup, fun i => ?_, ?_, hbuilder ▸ h.sorted⟩
  · rw [hbuilder, hids, reqAt, hids]
    exact h.empty i
  · rw [hbuilder, hids, numReqs, hindex]
    exact h.size

omit [DecidableEq K] in
theorem Packed.of_lists (h : b.Packed) (hids : b'.reqIds = b.reqIds)
    (hindex : b'.reqIdToIndex = b.reqIdToIndex) : b'.Packed := by
  refine ⟨fun i => ?_, ?_⟩
  · rw [reqAt, hids, numReqs, hindex]
    exact h.dense i
  · rw [hids, numReqs, hindex]
    exact h.length

theorem update_tracked {u : Update} (h : b.Tracked rows) (hupdate : b.update id u = .ok b') :
    b'.Tracked (Function.update rows id ((rows id).map (·.update u))) ∧
      ∃ i, b' = b.updateRow i u := by
  unfold update at hupdate
  split at hupdate
  · cases hupdate
  rename_i i hlookup
  cases hupdate
  refine ⟨?_, i, rfl⟩
  have hi := (h.layout.index id i).mp hlookup
  have hlt := lt_of_reqAt hi
  have hreqAt : ∀ k, (b.updateRow i u).reqAt k = b.reqAt k := fun k => by
    rw [reqAt, (b.updateRow_lists i u).1, reqAt]
  refine ⟨h.layout.updateRow hlt u, fun id' k hk => ?_⟩
  rw [hreqAt] at hk
  obtain ⟨row, hrow, hholds⟩ := h.follows id' k hk
  by_cases hki : k = i
  · subst hki
    cases hk.symm.trans hi
    refine ⟨row.update u, ?_, hholds.updateRow_self (hlt.trans_le h.layout.spec) u⟩
    rw [update_self, hrow, map_some]
  · have hne : id' ≠ id := by
      rintro rfl
      exact hki (h.layout.index_unique hk hi)
    exact ⟨row, (update_of_ne hne _ _).trans hrow, hholds.updateRow_of_ne hki u⟩

end Vllm.Worker.InputBatch
