import Vllm.Worker.InputBatchLayout

/-! `condense`: the requests in the highest rows move down into the empty rows, and every row keeps the
state of its request. -/
namespace Vllm.Worker.InputBatch
open List

variable {K F G : Type} [DecidableEq K] {b : InputBatch K F G} {i j k last : Nat} {id : K}
  {rows : K → Option (Row F G)} {u : BatchUpdateBuilder} {removed : List Nat}

/-- The layout is right, and the row of each request holds its state. -/
structure Tracked (b : InputBatch K F G) (rows : K → Option (Row F G)) : Prop where
  layout : b.Layout
  follows : ∀ id i, b.reqAt i = some id → ∃ row, rows id = some row ∧ b.Holds i row

theorem length_keys_insert {d : Dict K Nat} (h : id ∈ d) :
    (d.insert id j).keys.length = d.keys.length := by
  have hmem := AList.mem_keys.mp h
  have hpos := length_pos_of_mem hmem
  rw [AList.keys_insert, length_cons, length_erase_of_mem hmem]
  omega

theorem Tracked.moveRow (h : b.Tracked rows) (hi : b.reqAt i = some id) (hj : b.reqAt j = none)
    (hlt : j < b.reqIds.length) : (b.moveRow i j id).Tracked rows := by
  have hlti := lt_of_reqAt hi
  have hmove : b.Movable i j := {
    ne := by
      rintro rfl
      rw [hi] at hj
      cases hj
    dst_lt := hlt.trans_le h.layout.spec
    src_lt := hlti.trans_le h.layout.spec
    generators := (h.layout.free j hj).1
    badWords := (h.layout.free j hj).2 }
  refine ⟨h.layout.moveRow hi hj hlt, fun id' k hk => ?_⟩
  rw [reqAt_moveRow hlti hlt] at hk
  split at hk
  · cases hk
  rename_i hki
  split at hk
  · rename_i hkj
    cases hk
    obtain ⟨row, hrow, hholds⟩ := h.follows id i hi
    subst hkj
    exact ⟨row, hrow, hholds.moveRow_self hmove⟩
  · rename_i hkj
    obtain ⟨row, hrow, hholds⟩ := h.follows id' k hk
    exact ⟨row, hrow, hholds.moveRow_of_ne hki hkj⟩

/-! ### The loop -/

theorem largestLive_spec (removed : List Nat) (n : Nat) :
    largestLive removed n ≤ n ∧
      (∀ j, largestLive removed n < j → j ≤ n → j ∈ removed) ∧
      (largestLive removed n ∈ removed → largestLive removed n = 0) := by
  induction n with
  | zero => exact ⟨Nat.le_refl 0, fun j hlt hle => by rw [largestLive] at hlt; omega, fun _ => rfl⟩
  | succ n ih =>
    rw [largestLive]
    obtain ⟨hle, hbetween, hzero⟩ := ih
    split
    · rename_i hmem
      refine ⟨Nat.le_succ_of_le hle, fun j hlt hj => ?_, hzero⟩
      rcases Nat.lt_or_eq_of_le hj with hj' | rfl
      · exact hbetween j hlt (Nat.le_of_lt_succ hj')
      · exact hmem
    · rename_i hmem
      exact ⟨Nat.le_refl _, fun j hlt hj => by omega, fun h => absurd h hmem⟩

/-- The empty rows are those of a list and those behind `last`. -/
structure Gaps (b : InputBatch K F G) (removed : List Nat) (last : Nat) : Prop where
  sorted : removed.Pairwise (· < ·)
  last_lt : last < b.reqIds.length
  empty : ∀ i, b.reqAt i = none ↔ i ∈ removed ∨ last < i

omit [DecidableEq K] in
/-- The row that the inner loop finds has a request, and no row behind it has one. -/
theorem Gaps.largestLive (h : b.Gaps removed last) (hlive : ∃ i, b.reqAt i ≠ none) :
    b.Gaps removed (largestLive removed last) ∧ largestLive removed last ∉ removed := by
  obtain ⟨hle, hbetween, hzero⟩ := largestLive_spec removed last
  have hnot : InputBatch.largestLive removed last ∉ removed := by
    intro hmem
    obtain ⟨i, hi⟩ := hlive
    refine hi ((h.empty i).mpr ?_)
    have h0 := hzero hmem
    rcases Nat.eq_zero_or_pos i with rfl | hpos
    · exact .inl (h0 ▸ hmem)
    · rcases Nat.lt_or_ge last i with hlt | hge
      · exact .inr hlt
      · exact .inl (hbetween i (by omega) hge)
  refine ⟨⟨h.sorted, Nat.lt_of_le_of_lt hle h.last_lt, fun i => ?_⟩, hnot⟩
  rw [h.empty i]
  constructor
  · rintro (hmem | hlt)
    · exact .inl hmem
    · exact .inr (Nat.lt_of_le_of_lt hle hlt)
  · rintro (hmem | hlt)
    · exact .inl hmem
    · rcases Nat.lt_or_ge last i with hlast | hge
      · exact .inr hlast
      · exact .inl (hbetween i hlt hge)

def Dense (b : InputBatch K F G) : Prop := ∀ i, b.reqAt i = none ↔ b.numReqs ≤ i

theorem Gaps.moveRow {empty : Nat} (h : b.Gaps (empty :: removed) last) (hlt : empty < last) :
    (b.moveRow last empty id).Gaps removed (last - 1) := by
  have hlen : (b.moveRow last empty id).reqIds.length = b.reqIds.length := by
    rw [InputBatch.moveRow, length_set, length_set]
  have hbelow := (pairwise_cons.mp h.sorted).1
  refine ⟨(pairwise_cons.mp h.sorted).2, ?_, fun i => ?_⟩
  · have := h.last_lt
    omega
  · rw [reqAt_moveRow h.last_lt (hlt.trans h.last_lt)]
    split
    · exact ⟨fun _ => .inr (by omega), fun _ => rfl⟩
    · split
      · rename_i he
        subst he
        refine ⟨fun h => (by cases h), ?_⟩
        rintro (hmem | hlt')
        · exact absurd (hbelow i hmem) (Nat.lt_irrefl i)
        · omega
      · rename_i he
        rw [h.empty i, mem_cons]
        constructor
        · rintro ((heq | hmem) | hlt')
          · exact absurd heq he
          · exact .inl hmem
          · exact .inr (by omega)
        · rintro (hmem | hlt')
          · exact .inl (.inr hmem)
          · exact .inr (by omega)

/-- The loop of `condense` raises nothing and leaves no gap. -/
theorem condenseLoop_dense (removed : List Nat) {b : InputBatch K F G} (htracked : b.Tracked rows)
    (hgaps : b.Gaps removed last) (hlive : ∃ i, b.reqAt i ≠ none) :
    ∃ left b', condenseLoop removed last b = .ok (left, b') ∧ b'.Tracked rows ∧ b'.Dense ∧
      b'.numReqs = b.numReqs ∧ b'.reqIds.length = b.reqIds.length := by
  induction removed generalizing last b with
  | nil =>
    refine ⟨[], b, rfl, htracked, ?_, rfl, rfl⟩
    have hrows : ∀ i, b.reqAt i = none ↔ last + 1 ≤ i := fun i => by
      rw [hgaps.empty i]
      simp only [not_mem_nil, false_or]
      omega
    rw [Dense, htracked.layout.numReqs_eq hrows]
    exact hrows
  | cons empty removed ih =>
    obtain ⟨hfound, hnot⟩ := hgaps.largestLive hlive
    rw [condenseLoop]
    generalize largestLive (empty :: removed) last = found at hfound hnot
    have hne : found ≠ empty := fun heq => hnot (heq ▸ mem_cons_self)
    have hbelow := (pairwise_cons.mp hgaps.sorted).1
    split
    · refine ⟨_, b, rfl, htracked, ?_, rfl, rfl⟩
      have hrows : ∀ i, b.reqAt i = none ↔ found + 1 ≤ i := by
        intro i
        rw [hfound.empty i, mem_cons]
        constructor
        · rintro ((rfl | hmem) | hlt)
          · omega
          · have := hbelow i hmem
            omega
          · exact hlt
        · exact .inr
      rw [Dense, htracked.layout.numReqs_eq hrows]
      exact hrows
    · rename_i hlt
      obtain ⟨id, hid⟩ : ∃ id, b.reqAt found = some id := by
        refine Option.ne_none_iff_exists'.mp fun hnone => ?_
        rcases (hfound.empty found).mp hnone with hmem | hlt'
        · exact hnot hmem
        · exact absurd hlt' (Nat.lt_irrefl found)
      have hempty : b.reqAt empty = none := (hfound.empty empty).mpr (.inl mem_cons_self)
      have hempty_lt : empty < b.reqIds.length := (Nat.lt_of_not_le hlt).trans hfound.last_lt
      have hlive' : (b.moveRow found empty id).reqAt empty ≠ none := by
        rw [reqAt_moveRow hfound.last_lt hempty_lt, if_neg hne.symm, if_pos rfl]
        exact nofun
      obtain ⟨left, b', hloop, htracked', hdense, hnum, hlen⟩ :=
        ih (htracked.moveRow hid hempty hempty_lt)
          (hfound.moveRow (Nat.lt_of_not_le hlt)) ⟨empty, hlive'⟩
      refine ⟨left, b', ?_, htracked', hdense, ?_, ?_⟩
      · rw [reqAt_eq_some.mp hid]
        exact hloop
      · exact hnum.trans (length_keys_insert (htracked.layout.mem hid))
      · rw [hlen, moveRow, length_set, length_set]

/-! ### The rows that were removed -/

/-- While requests are removed and added, the builder lists the empty rows. -/
structure Open (b : InputBatch K F G) : Prop where
  nodup : b.batchUpdateBuilder.removed.Nodup
  empty : ∀ i, i ∈ b.batchUpdateBuilder.removed ↔ i < b.reqIds.length ∧ b.reqAt i = none
  size : b.numReqs + b.batchUpdateBuilder.removed.length = b.reqIds.length
  sorted : b.batchUpdateBuilder.isRemovedSorted = true →
    b.batchUpdateBuilder.removed.Pairwise (· ≥ ·)

omit [DecidableEq K] in
theorem Open.sortRemoved (h : b.Open) :
    b.sortRemoved.Open ∧ b.sortRemoved.batchUpdateBuilder.removed.Pairwise (· ≥ ·) := by
  have hperm : b.sortRemoved.batchUpdateBuilder.removed.Perm b.batchUpdateBuilder.removed := by
    unfold InputBatch.sortRemoved BatchUpdateBuilder.ensureRemovedSorted
    simp only
    split
    · exact .refl _
    · exact perm_insertionSort _ _
  have hsorted : b.sortRemoved.batchUpdateBuilder.removed.Pairwise (· ≥ ·) := by
    unfold InputBatch.sortRemoved BatchUpdateBuilder.ensureRemovedSorted
    simp only
    split
    · rename_i hsorted
      exact h.sorted hsorted
    · exact pairwise_insertionSort _ _
  refine ⟨⟨hperm.nodup_iff.mpr h.nodup, fun i => hperm.mem_iff.trans (h.empty i), ?_,
    fun _ => hsorted⟩, hsorted⟩
  rw [hperm.length_eq]
  exact h.size

theorem Tracked.with_builder (h : b.Tracked rows) :
    ({ b with batchUpdateBuilder := u } : InputBatch K F G).Tracked rows :=
  ⟨{ h.layout with }, fun id i hi => by
      obtain ⟨row, hrow, hholds⟩ := h.follows id i hi
      exact ⟨row, hrow, { hholds with }⟩⟩

/-! ### The whole call -/

structure Packed (b : InputBatch K F G) : Prop where
  dense : b.Dense
  length : b.reqIds.length = b.numReqs

omit [DecidableEq K] in
theorem getD_take {α : Type} (l : List α) (d : α) (n k : Nat) :
    (l.take n).getD k d = if k < n then l.getD k d else d := by
  rw [getD_eq_getElem?_getD, getElem?_take, getD_eq_getElem?_getD]
  split
  · rfl
  · rfl

omit [DecidableEq K] in
theorem reqAt_trim (hdense : b.Dense) : (b.trim b.numReqs).reqAt k = b.reqAt k := by
  have hat : (b.trim b.numReqs).reqAt k = if k < b.numReqs then b.reqAt k else none :=
    getD_take _ _ _ _
  rw [hat]
  split
  · rfl
  · rename_i hge
    exact ((hdense k).mpr (Nat.le_of_not_lt hge)).symm

theorem Tracked.trim (h : b.Tracked rows) (hdense : b.Dense) (hle : b.numReqs ≤ b.reqIds.length) :
    (b.trim b.numReqs).Tracked rows ∧ (b.trim b.numReqs).Packed := by
  have hreqAt : ∀ k, (b.trim b.numReqs).reqAt k = b.reqAt k := fun k => reqAt_trim hdense
  have hlen : (b.trim b.numReqs).reqIds.length = b.numReqs :=
    length_take.trans (Nat.min_eq_left hle)
  have hspec : (b.trim b.numReqs).specTokenIds.length = b.numReqs :=
    length_take.trans (Nat.min_eq_left (hle.trans h.layout.spec))
  refine ⟨⟨⟨fun id i => ?_, hlen.le.trans hspec.ge, fun k hk => ?_, fun k hk => ?_,
    fun id k hk => ?_⟩, fun id k hk => ?_⟩, ⟨fun k => ?_, hlen⟩⟩
  · rw [hreqAt]
    exact h.layout.index id i
  · rw [hlen] at hk
    exact (getD_take _ _ _ _).trans (if_neg (Nat.not_lt_of_le hk))
  · rw [hreqAt] at hk
    exact h.layout.free k hk
  · rw [hreqAt] at hk
    exact h.layout.lora id k hk
  · rw [hreqAt] at hk
    obtain ⟨row, hrow, hholds⟩ := h.follows id k hk
    have hlt : k < b.numReqs := by
      by_contra hge
      rw [(hdense k).mpr (Nat.le_of_not_lt hge)] at hk
      cases hk
    refine ⟨row, hrow, ?_, hholds.tokenIds, hholds.isTokenIds, hholds.blocks⟩
    have hsame : (b.specTokenIds.take b.numReqs).getD k [] = b.specTokenIds.getD k [] :=
      (getD_take _ _ _ _).trans (if_pos hlt)
    rw [← hholds.entry]
    simp only [entry, InputBatch.trim, hsame, maskRow]
  · rw [hreqAt]
    exact hdense k

omit [DecidableEq K] in
theorem Packed.with_builder (h : b.Packed) :
    ({ b with batchUpdateBuilder := u } : InputBatch K F G).Packed :=
  ⟨h.dense, h.length⟩

theorem Open.exists_live (hlayout : b.Layout) (h : b.numReqs ≠ 0) : ∃ i, b.reqAt i ≠ none := by
  obtain ⟨id, hid⟩ := exists_mem_of_length_pos (Nat.pos_of_ne_zero h)
  obtain ⟨i, hi⟩ := Dict.exists_lookup (AList.mem_keys.mpr hid)
  refine ⟨i, ?_⟩
  rw [(hlayout.index id i).mp hi]
  exact nofun

theorem reqAt_of_numReqs_eq_zero (hlayout : b.Layout) (h : b.numReqs = 0) : b.reqAt i = none := by
  by_contra hne
  obtain ⟨id, hid⟩ := Option.ne_none_iff_exists'.mp hne
  have hpos := length_pos_of_mem (AList.mem_keys.mp (hlayout.mem hid))
  rw [numReqs] at h
  omega

omit [DecidableEq K] in
theorem Open.gaps (hopen : b.Open) (hnum : b.numReqs ≠ 0)
    (hsorted : b.batchUpdateBuilder.removed.Pairwise (· ≥ ·)) :
    b.Gaps b.batchUpdateBuilder.removed.reverse
      (b.numReqs + b.batchUpdateBuilder.removed.length - 1) := by
  have hsize := hopen.size
  refine ⟨?_, by omega, fun i => ?_⟩
  · rw [pairwise_reverse]
    refine (hsorted.and hopen.nodup).imp fun hab => ?_
    exact Nat.lt_of_le_of_ne hab.1 (Ne.symm hab.2)
  · rw [mem_reverse, hopen.empty]
    constructor
    · intro hnone
      rcases Nat.lt_or_ge i b.reqIds.length with hlt | hge
      · exact .inl ⟨hlt, hnone⟩
      · exact .inr (by omega)
    · rintro (⟨-, hnone⟩ | hlt)
      · exact hnone
      · exact reqAt_of_le (by omega)

omit [DecidableEq K] in
theorem Open.packed (hopen : b.Open) (hnone : b.batchUpdateBuilder.removed = []) : b.Packed := by
  have hsize := hopen.size
  rw [hnone, length_nil, Nat.add_zero] at hsize
  refine ⟨fun i => ⟨fun hat => ?_, fun hge => reqAt_of_le (by omega)⟩, hsize.symm⟩
  by_contra hlt
  have hmem := (hopen.empty i).mpr ⟨by omega, hat⟩
  rw [hnone] at hmem
  cases hmem

theorem closeGaps_packed (h : b.Tracked rows) (hopen : b.Open)
    (hsorted : b.batchUpdateBuilder.removed.Pairwise (· ≥ ·)) :
    ∃ b', b.closeGaps = .ok b' ∧ b'.Tracked rows ∧ b'.Packed := by
  unfold closeGaps
  simp only
  split
  · rename_i hnone
    exact ⟨b, rfl, h, hopen.packed hnone⟩
  split
  · rename_i hnum
    have hdense : b.Dense := fun i =>
      ⟨fun _ => hnum.trans_le (Nat.zero_le i), fun _ => reqAt_of_numReqs_eq_zero h.layout hnum⟩
    obtain ⟨htrim, hpacked⟩ := h.trim hdense (hnum.trans_le (Nat.zero_le _))
    rw [hnum] at htrim hpacked
    exact ⟨_, rfl, htrim, hpacked⟩
  · rename_i hnum
    obtain ⟨left, b', hloop, htracked', hdense, hnum', hlen⟩ :=
      condenseLoop_dense _ h (hopen.gaps hnum hsorted) (Open.exists_live h.layout hnum)
    have hle : b'.numReqs ≤ b'.reqIds.length := by
      have hsize := hopen.size
      omega
    obtain ⟨htrim, hpacked⟩ := htracked'.trim hdense hle
    rw [hnum'] at htrim hpacked
    rw [hloop]
    exact ⟨_, rfl, htrim.with_builder, hpacked.with_builder⟩

theorem condense_packed (h : b.Tracked rows) (hopen : b.Open) :
    ∃ b', b.condense = .ok b' ∧ b'.Tracked rows ∧ b'.Packed :=
  closeGaps_packed h.with_builder hopen.sortRemoved.1 hopen.sortRemoved.2

end Vllm.Worker.InputBatch
