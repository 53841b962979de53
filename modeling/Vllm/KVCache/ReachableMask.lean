import Vllm.KVCache.HybridScene
import Vllm.KVCache.Manager

/-! `SlidingWindowManager.reachable_block_mask` (`vllm/v1/core/single_type_kv_cache_manager.py`)
against the lookup: the blocks that are kept out of the prefix cache are not missed. -/
namespace Vllm.KVCache
open List

/-- The lookup when only the blocks that `kept` marks are cached. -/
def Lookup.only (lookup : Lookup) (kept : List Bool) : Lookup := fun i =>
  match lookup i with
  | .ok (some blocks) => if kept[i]?.getD true then .ok (some blocks) else .ok none
  | found => found

namespace Manager

/-- The blocks from `start` on that are cached by consecutive calls for `sizes` blocks each,
without sparse retention. -/
def keptOver (m : Manager) (numPrompt : Nat) : Nat → List Nat → Except KVError (List Bool)
  | _, [] => .ok []
  | start, size :: sizes =>
    match m.reachableBlockMask start (start + size) none numPrompt with
    | .error e => .error e
    | .ok mask =>
      (m.keptOver numPrompt (start + size) sizes).map ((mask.getD (replicate size true)) ++ ·)

variable {m : Manager} {window : Nat}

/-- Whether block `i` is in the tail of its segment. -/
def inTail (m : Manager) (window i : Nat) : Bool :=
  let need := contiguousBlocksForHit window m.spec.blockSize m.useEagle
  let per := m.schedulerBlockSize / m.spec.blockSize
  let shift := if m.useEagle then 1 else 0
  decide (per ≤ need) || decide (shift ≤ i ∧ per - need ≤ (i - shift) % per)

theorem reachableBlockMask_window (hkind : m.spec.kind = .slidingWindow window)
    (hdvd : m.spec.blockSize ∣ m.schedulerBlockSize) (start size numPrompt : Nat) :
    ∃ mask, m.reachableBlockMask start (start + size) none numPrompt = .ok mask ∧
      mask.getD (replicate size true) =
        (range' start size).map (m.inTail window) := by
  rw [reachableBlockMask, hkind]
  simp only [windowMask, Nat.mod_eq_zero_of_dvd hdvd, ne_eq, not_true, if_false,
    Option.any_some, decide_eq_true_eq, Option.isSome_none, Bool.false_and, Bool.or_false,
    Nat.add_sub_cancel_left]
  split
  · rename_i hdense
    refine ⟨none, rfl, ?_⟩
    have hall : m.inTail window = fun _ => true := funext fun i => by simp [inTail, hdense]
    rw [hall, map_const', length_range', Option.getD_none]
  · rename_i hsparse
    exact ⟨_, rfl, map_congr_left fun i _ => by simp [inTail, hsparse]⟩

/-- How the range is cut into calls does not matter. -/
theorem keptOver_eq (hkind : m.spec.kind = .slidingWindow window)
    (hdvd : m.spec.blockSize ∣ m.schedulerBlockSize) (numPrompt start : Nat) (sizes : List Nat) :
    m.keptOver numPrompt start sizes =
      .ok ((range' start sizes.sum).map (m.inTail window)) := by
  induction sizes generalizing start with
  | nil => rfl
  | cons size sizes ih =>
    obtain ⟨mask, hmask, htails⟩ := reachableBlockMask_window hkind hdvd start size numPrompt
    rw [keptOver, hmask]
    dsimp only
    rw [ih, Except.map, htails, ← map_append, sum_cons, range'_append_1]

/-- The tail of a segment holds the `d`-th block before its end, if a hit there needs it. -/
theorem inTail_of_needed {n d : Nat} (hpos : 0 < m.spec.blockSize)
    (hdvd : m.spec.blockSize ∣ m.schedulerBlockSize) (hn : 0 < n)
    (haligned : m.schedulerBlockSize ∣ n * m.spec.blockSize) (hlow : d = 0 → m.useEagle = true)
    (hhigh : d ≤ PySeq.cdiv (window - 1) m.spec.blockSize) : m.inTail window (n - d) = true := by
  obtain ⟨per, hper⟩ := hdvd
  rw [hper, Nat.mul_comm n] at haligned
  obtain ⟨k, rfl⟩ := Nat.dvd_of_mul_dvd_mul_left hpos haligned
  simp only [inTail, Bool.or_eq_true, decide_eq_true_eq]
  rw [hper, Nat.mul_div_cancel_left _ hpos]
  unfold contiguousBlocksForHit
  by_cases hdense : per ≤ PySeq.cdiv (window - 1) m.spec.blockSize + if m.useEagle then 1 else 0
  · exact .inl hdense
  obtain ⟨j, rfl⟩ := Nat.exists_eq_succ_of_ne_zero (Nat.pos_of_mul_pos_left hn).ne'
  rw [Nat.mul_succ] at *
  generalize hshift : (if m.useEagle = true then 1 else 0) = shift at *
  have hpositive : 0 < d + shift := by
    by_cases hd : d = 0
    · rw [← hshift, if_pos (hlow hd)]
      omega
    · omega
  have hmod : (per * j + per - d - shift) % per = per - (d + shift) := by
    rw [show per * j + per - d - shift = per - (d + shift) + per * j by omega,
      Nat.add_mul_mod_self_left, Nat.mod_eq_of_lt (by omega)]
  exact .inr ⟨by omega, by rw [hmod]; omega⟩

end Manager

section

variable {m : Manager} {lookup : Lookup} {drop : Bool} {window maxLength n : Nat} {kept : List Bool}

theorem Lookup.cached_of_only {i : Nat} (h : (lookup.only kept).Cached i) : lookup.Cached i := by
  obtain ⟨blocks, hblocks⟩ := h
  unfold only at hblocks
  split at hblocks
  · rename_i found hfound
    exact ⟨found, hfound⟩
  · exact ⟨blocks, hblocks⟩

theorem Lookup.cached_only {i : Nat} (h : lookup.Cached i) (hkept : kept[i]?.getD true = true) :
    (lookup.only kept).Cached i := by
  obtain ⟨blocks, hblocks⟩ := h
  exact ⟨blocks, by rw [only, hblocks]; exact if_pos hkept⟩

theorem Lookup.only_of_all (all : ∀ b ∈ kept, b = true) : lookup.only kept = lookup := by
  funext i
  have hkept : kept[i]?.getD true = true := by
    cases hget : kept[i]? with
    | none => rfl
    | some b => exact all b (mem_of_getElem? hget)
  unfold only
  split
  · rename_i hfound
    rw [if_pos hkept, hfound]
  · rfl

theorem Lookup.Hashed.only (hashed : lookup.Hashed n) (kept : List Bool) :
    (lookup.only kept).Hashed n := by
  intro i hi
  obtain ⟨found, hfound⟩ := hashed i hi
  unfold Lookup.only
  split
  · split
    · exact ⟨_, rfl⟩
    · exact ⟨_, rfl⟩
  · exact ⟨found, hfound⟩

/-- A length that can be served is served by the tails alone. -/
theorem Serves.only (hkind : m.spec.kind = .slidingWindow window) (hpos : 0 < m.spec.blockSize)
    (hdvd : m.spec.blockSize ∣ m.schedulerBlockSize) (hdrop : drop = true → m.useEagle = true)
    (hn : 0 < n) (serves : Serves m.spec lookup m.schedulerBlockSize maxLength drop n) (size : Nat) :
    Serves m.spec (lookup.only ((range' 0 size).map (m.inTail window)))
      m.schedulerBlockSize maxLength drop n := by
  have hkept : ∀ d, (d = 0 → drop = true) → d ≤ PySeq.cdiv (window - 1) m.spec.blockSize →
      ((range' 0 size).map (m.inTail window))[n - d]?.getD true = true := by
    intro d hlow hhigh
    by_cases hin : n - d < size
    · rw [getElem?_map, getElem?_range' hin, Option.map_some, Option.getD_some,
        Nat.zero_add, Nat.one_mul]
      exact Manager.inTail_of_needed hpos hdvd hn serves.aligned (fun h => hdrop (hlow h)) hhigh
    · rw [getElem?_eq_none (by simpa using hin)]
      rfl
  refine ⟨serves.aligned, serves.fits, fun h => ?_, fun i hi => ?_⟩
  · exact Lookup.cached_only (serves.ahead h) (hkept 0 (fun _ => h) (Nat.zero_le _))
  · obtain ⟨hlt, hback⟩ := (neededBlock_slidingWindow hkind hpos).mp hi
    refine Lookup.cached_only (serves.needed i hi) ?_
    have hat := hkept (n - i) (fun h => by omega) (by omega)
    rwa [Nat.sub_sub_self hlt.le] at hat

theorem Serves.of_only {spec : KVCacheSpec} {align : Nat}
    (serves : Serves spec (lookup.only kept) align maxLength drop n) :
    Serves spec lookup align maxLength drop n :=
  ⟨serves.aligned, serves.fits, fun h => Lookup.cached_of_only (serves.ahead h),
    fun i hi => Lookup.cached_of_only (serves.needed i hi)⟩

/-- Segments longer than the window leave no run that is short and reaches the start. -/
theorem findsLength_of_sparse (hkind : m.spec.kind = .slidingWindow window)
    (hpos : 0 < m.spec.blockSize) (hwindow : 1 < window ∨ drop = true)
    (hsparse : PySeq.cdiv (window - 1) m.spec.blockSize < m.schedulerBlockSize / m.spec.blockSize)
    (hn : 0 < n) (haligned : m.schedulerBlockSize ∣ n * m.spec.blockSize) :
    FindsLength m.spec lookup m.schedulerBlockSize drop n := by
  intro w hw
  obtain rfl : w = window := by simpa [hkind] using hw.symm
  cases drop with
  | false => exact .inl (hwindow.resolve_right Bool.false_ne_true)
  | true =>
    refine .inr (hsparse.le.trans (Nat.div_le_of_le_mul ?_))
    rw [Nat.mul_comm]
    exact Nat.le_of_dvd (Nat.mul_pos hn hpos) haligned

/-- The search finds the same length when only the blocks that the masks of consecutive calls mark
are cached. -/
def HitKept (m : Manager) (window : Nat) (lookup : Lookup) (maxLength : Nat) (drop : Bool)
    (numPrompt : Nat) (sizes : List Nat) : Prop :=
  ∃ kept rows rows', m.keptOver numPrompt 0 sizes = .ok kept ∧
    slidingWindowHit lookup window m.spec.blockSize m.schedulerBlockSize maxLength drop =
      .ok rows ∧
    slidingWindowHit (lookup.only kept) window m.spec.blockSize m.schedulerBlockSize maxLength
      drop = .ok rows' ∧
    rows'.length = rows.length

/-- The window has two tokens, or the search drops the EAGLE block, or EAGLE is on and every block
ends a segment. -/
def KeepsEnds (m : Manager) (window : Nat) (drop : Bool) : Prop :=
  1 < window ∨ drop = true ∨ m.useEagle = true ∧ m.schedulerBlockSize = m.spec.blockSize

theorem hitKept (hkind : m.spec.kind = .slidingWindow window)
    (hpos : 0 < m.spec.blockSize) (hdvd : m.spec.blockSize ∣ m.schedulerBlockSize)
    (hdrop : drop = true → m.useEagle = true) (hends : KeepsEnds m window drop)
    (hashed : lookup.Hashed (maxLength / m.spec.blockSize)) (numPrompt : Nat) (sizes : List Nat) :
    HitKept m window lookup maxLength drop numPrompt sizes := by
  have hybrid := isHybridKind_slidingWindow hkind
  have hmamba : drop = true → m.spec.isMamba = false := fun _ => by
    simp [KVCacheSpec.isMamba, hkind]
  obtain ⟨rows, hrows⟩ := managerHit_returns hybrid hashed drop
  obtain ⟨rows', hrows'⟩ := managerHit_returns hybrid
    (hashed.only ((range' 0 sizes.sum).map (m.inTail window))) drop
  refine ⟨_, rows, rows', Manager.keptOver_eq hkind hdvd numPrompt 0 sizes,
    by rw [← managerHit_slidingWindow hkind, hrows],
    by rw [← managerHit_slidingWindow hkind, hrows'], ?_⟩
  by_cases hdense : m.schedulerBlockSize / m.spec.blockSize ≤
      contiguousBlocksForHit window m.spec.blockSize m.useEagle
  · -- every block is kept
    rw [Lookup.only_of_all fun b hb => ?_, hrows] at hrows'
    · rw [Except.ok.inj hrows']
    obtain ⟨i, -, rfl⟩ := mem_map.mp hb
    simp [Manager.inTail, hdense]
  rw [contiguousBlocksForHit] at hdense
  have hsparse : PySeq.cdiv (window - 1) m.spec.blockSize <
      m.schedulerBlockSize / m.spec.blockSize := by omega
  have hwindow : 1 < window ∨ drop = true := by
    refine hends.imp_right fun h => h.resolve_right ?_
    rintro ⟨heagle, hsame⟩
    apply hdense
    rw [hsame, Nat.div_self hpos, if_pos heagle]
    exact Nat.le_add_left 1 _
  apply Nat.le_antisymm
  · rcases Nat.eq_zero_or_pos rows'.length with hzero | hn
    · omega
    have serves := managerHit_serves hybrid hpos hmamba hrows' hn
    exact le_managerHit_length hybrid hpos
      (findsLength_of_sparse hkind hpos hwindow hsparse hn serves.aligned) serves.of_only hrows
  · rcases Nat.eq_zero_or_pos rows.length with hzero | hn
    · omega
    have serves := managerHit_serves hybrid hpos hmamba hrows hn
    exact le_managerHit_length hybrid hpos
      (findsLength_of_sparse hkind hpos hwindow hsparse hn serves.aligned)
      (serves.only hkind hpos hdvd hdrop hn _) hrows'

/-- A window of one token keeps no block of the first segment. -/
theorem inTail_one_token
    (hdvd : m.spec.blockSize ∣ m.schedulerBlockSize) (hends : ¬ KeepsEnds m window drop) {i : Nat}
    (hi : i < m.schedulerBlockSize / m.spec.blockSize) : m.inTail window i = false := by
  simp only [KeepsEnds, not_or, Nat.not_lt, Bool.not_eq_true] at hends
  obtain ⟨hwindow, -, hends⟩ := hends
  have hneed : PySeq.cdiv (window - 1) m.spec.blockSize = 0 := by
    rw [Nat.sub_eq_zero_of_le hwindow]
    exact PySeq.cdiv_zero ..
  simp only [Manager.inTail, contiguousBlocksForHit, hneed, Nat.zero_add, Bool.or_eq_false_iff,
    decide_eq_false_iff_not]
  have hlen := Nat.div_mul_cancel hdvd
  generalize m.schedulerBlockSize / m.spec.blockSize = per at hi hlen ⊢
  cases heagle : m.useEagle with
  | false =>
    have hmod : i % per = i := Nat.mod_eq_of_lt hi
    simp only [Bool.false_eq_true, if_false, Nat.sub_zero, hmod]
    omega
  | true =>
    have hone : per ≠ 1 := fun h => hends ⟨heagle, by rw [← hlen, h, Nat.one_mul]⟩
    have hmod : (i - 1) % per = i - 1 := Nat.mod_eq_of_lt (by omega)
    simp only [if_true, hmod]
    omega

/-- Caching only what the masks mark, whatever calls they come from, loses no hit exactly if the
window has at least two tokens, or the search drops the EAGLE block, or EAGLE is on and every
block ends a segment. -/
theorem windowHit_keptOver (hkind : m.spec.kind = .slidingWindow window)
    (hpos : 0 < m.spec.blockSize) (hdvd : m.spec.blockSize ∣ m.schedulerBlockSize)
    (hsched : 0 < m.schedulerBlockSize) (hdrop : drop = true → m.useEagle = true) :
    (∀ lookup maxLength numPrompt sizes, lookup.Hashed (maxLength / m.spec.blockSize) →
      HitKept m window lookup maxLength drop numPrompt sizes) ↔ KeepsEnds m window drop := by
  refine ⟨fun kept => ?_, fun hends lookup maxLength numPrompt sizes hashed =>
    hitKept hkind hpos hdvd hdrop hends hashed numPrompt sizes⟩
  by_contra hends
  -- one segment, all of it cached
  obtain ⟨marked, rows, rows', hmarked, hrows, hrows', hlen⟩ :=
    kept allCached m.schedulerBlockSize 0 [m.schedulerBlockSize / m.spec.blockSize]
      fun _ _ => ⟨_, rfl⟩
  obtain rfl : drop = false := by simpa [KeepsEnds] using fun h => hends (.inr (.inl h))
  rw [Manager.keptOver_eq hkind hdvd, sum_singleton, Except.ok.injEq] at hmarked
  have hnone : slidingWindowHit (allCached.only marked) window m.spec.blockSize
      m.schedulerBlockSize m.schedulerBlockSize false = .ok [] := by
    rw [slidingWindowHit, windowScan_none fun i hi => ?_]
    · rfl
    rw [← hmarked, Lookup.only, allCached]
    simp [hi, inTail_one_token hdvd hends hi]
  have reads : ReadsAt allCached m.spec (fun _ => true) m.schedulerBlockSize := fun _ _ => ⟨[], rfl⟩
  obtain ⟨rows₁, hrows₁, hlen₁⟩ := managerHit_all (isHybridKind_slidingWindow hkind) hpos hdvd reads
    (Nat.dvd_refl m.schedulerBlockSize) fun _ _ => rfl
  rw [managerHit_slidingWindow hkind, hrows, Except.ok.injEq] at hrows₁
  rw [hnone, Except.ok.injEq] at hrows'
  rw [← hrows₁, ← hlen, ← hrows', length_nil, Nat.zero_mul] at hlen₁
  omega

end

def windowManager (window : Nat) : Manager where
  spec := ⟨1, .slidingWindow window, 0⟩
  kvCacheGroupId := 0
  schedulerBlockSize := 2
  enableCaching := true

theorem windowHit_keptOver_two_calls : HitKept (windowManager 2) 2 allCached 4 false 4 [1, 3] :=
  (windowHit_keptOver rfl (by decide) (by decide) (by decide) (by decide)).mpr (.inl (by decide))
    allCached 4 4 [1, 3] fun _ _ => ⟨_, rfl⟩

/-- A window of one token needs no block for a hit, so that none is kept, but the search starts
at a cached block. -/
theorem windowHit_keptOver_one_token :
    (windowManager 1).keptOver 4 0 [4] = .ok [false, false, false, false] ∧
      (slidingWindowHit allCached 1 1 2 4 false).map length = .ok 4 ∧
      slidingWindowHit (allCached.only [false, false, false, false]) 1 1 2 4 false = .ok [] :=
  ⟨rfl, rfl, rfl⟩

end Vllm.KVCache
