import Vllm.KVCache.Hybrid

/-! The lookups of the single-type managers find the longest hit: no aligned length within the
bound whose blocks are cached exceeds the one that is returned. -/
namespace Vllm.KVCache
open List KVCacheSpec Except Nat Option

/-- Every block below `n` has its hash, so that looking it up does not raise. -/
def Lookup.Hashed (lookup : Lookup) (n : Nat) : Prop := ∀ i < n, ∃ found, lookup i = .ok found

def Lookup.Cached (lookup : Lookup) (i : Nat) : Prop := ∃ blocks, lookup i = .ok (some blocks)

variable {lookup : Lookup} {spec : KVCacheSpec} {rows : List Row} {drop : Bool}
variable {window blockSize align maxLength need n m : Nat}

theorem managerHit_returns (hkind : spec.IsHybridKind)
    (hashed : lookup.Hashed (maxLength / spec.blockSize)) (drop : Bool) :
    ∃ rows, managerHit spec lookup align maxLength drop = .ok rows := by
  cases hhit : managerHit spec lookup align maxLength drop with
  | ok rows => exact ⟨rows, rfl⟩
  | error e =>
    rcases managerHit_error hhit with ⟨k, hk, hlookup⟩ | ⟨-, hno⟩
    · obtain ⟨found, hfound⟩ := hashed k hk
      rw [hfound] at hlookup
      cases hlookup
    · exact absurd hkind hno

theorem le_alignDown (haligned : align ∣ n * blockSize) (hle : n ≤ m) :
    n ≤ alignDown blockSize align m := by
  induction m with
  | zero => exact hle
  | succ m ih =>
    rw [alignDown]
    split
    · rename_i hcut
      rcases le_succ_iff.mp hle with hlt | rfl
      · exact ih hlt
      · exact absurd (mod_eq_zero_of_dvd haligned) hcut.2
    · exact hle

/-! ### Full attention -/

theorem le_hitPrefix_length {i : Nat} (hle : n ≤ m) (all : ∀ k < n, lookup.Cached (i + k)) :
    n ≤ (hitPrefix lookup i m).length := by
  induction m generalizing i n with
  | zero => exact hle
  | succ m ih =>
    cases n with
    | zero => exact Nat.zero_le _
    | succ n =>
      obtain ⟨blocks, hblocks⟩ := all 0 (succ_pos n)
      rw [hitPrefix, ← Nat.add_zero i, hblocks]
      refine succ_le_succ (ih (le_of_succ_le_succ hle) fun k hk => ?_)
      rw [Nat.add_assoc, Nat.add_comm 1]
      exact all (k + 1) (succ_lt_succ hk)

theorem le_fullAttentionHit_length (haligned : align ∣ n * blockSize)
    (hfits : n + (if drop then 1 else 0) ≤ maxLength / blockSize)
    (all : ∀ i < n + (if drop then 1 else 0), lookup.Cached i) :
    n ≤ (fullAttentionHit lookup blockSize align maxLength drop).length := by
  have hscan : n + (if drop then 1 else 0) ≤ (hitPrefix lookup 0 (maxLength / blockSize)).length :=
    le_hitPrefix_length hfits fun k hk => by rw [Nat.zero_add]; exact all k hk
  unfold fullAttentionHit
  rw [length_take, Nat.min_eq_left (alignDown_le _ _ _)]
  apply le_alignDown haligned
  cases drop with
  | false => exact hscan
  | true =>
    rw [if_pos rfl] at hscan ⊢
    rw [length_dropLast]
    omega

/-! ### Mamba -/

theorem mambaScan_last {j : Nat} {found : Option (Nat × List BlockId)}
    (scan : mambaScan lookup blockSize align m = .ok found) (hj : j < m) (hit : lookup.Cached j)
    (haligned : align ∣ (j + 1) * blockSize) : ∃ i blocks, found = some (i, blocks) ∧ j ≤ i := by
  induction m with
  | zero => omega
  | succ m ih =>
    rw [mambaScan] at scan
    rcases Nat.lt_succ_iff_lt_or_eq.mp hj with hlt | rfl
    · split at scan
      · cases scan
      · exact ih scan hlt
      · split at scan
        · exact ih scan hlt
        · exact ⟨m, _, (ok.inj scan).symm, hlt.le⟩
    · obtain ⟨blocks, hblocks⟩ := hit
      rw [hblocks] at scan
      dsimp only at scan
      rw [if_neg fun hmod => hmod.2 (mod_eq_zero_of_dvd haligned)] at scan
      exact ⟨j, blocks, (ok.inj scan).symm, le_rfl⟩

theorem le_mambaHit_length (hit : mambaHit lookup blockSize align maxLength = .ok rows)
    (hfits : n + 1 ≤ maxLength / blockSize) (cached : lookup.Cached n)
    (haligned : align ∣ (n + 1) * blockSize) : n + 1 ≤ rows.length := by
  unfold mambaHit at hit
  split at hit
  · cases hit
  · rename_i hscan
    obtain ⟨i, blocks, hnone, -⟩ := mambaScan_last hscan hfits cached haligned
    cases hnone
  · rename_i i blocks hscan
    obtain ⟨j, blocks', hfound, hle⟩ := mambaScan_last hscan hfits cached haligned
    cases hfound
    rw [← ok.inj hit]
    simpa using hle

/-! ### Sliding window -/

/-- A run that the scan may end with reaches at least as far as any aligned run of
`max need 1` cached blocks, or of all blocks from the start. -/
theorem le_windowScan {found : Option Nat} {run' : List (List BlockId)} (i : Nat)
    (run : List (List BlockId)) (haligned : align ∣ n * blockSize)
    (hits : ∀ k < n + (if drop then 1 else 0),
      n + (if drop then 1 else 0) ≤ k + max need 1 → lookup.Cached k)
    (hshort : run.length < max need 1) (hle : n + (if drop then 1 else 0) ≤ i + run.length)
    (scan : windowScan lookup blockSize align need drop i run = .ok (found, run')) :
    n + (if drop then 1 else 0) ≤ found.getD 0 + run'.length ∧
      (found = none → run'.length < max need 1) := by
  induction i generalizing run with
  | zero =>
    obtain ⟨rfl, rfl⟩ := scan
    exact ⟨hle, fun _ => hshort⟩
  | succ i ih =>
    rw [windowScan] at scan
    split at scan
    · cases scan
    · -- a miss: an end behind it would need the block
      rename_i hmiss
      refine ih [] (by simp) ?_ scan
      by_contra hbehind
      obtain ⟨blocks, hblocks⟩ := hits i (by simpa using hbehind) (by omega)
      rw [hmiss] at hblocks
      cases hblocks
    rename_i blocks hlookup
    by_cases hskip : run = [] ∧ blockSize ≠ align ∧
        (if drop then i else i + 1) * blockSize % align ≠ 0
    · rw [if_pos hskip] at scan
      refine ih run hshort ?_ scan
      obtain ⟨rfl, -, hmod⟩ := hskip
      rw [length_nil] at hle ⊢
      by_contra hbehind
      apply hmod
      apply mod_eq_zero_of_dvd
      convert haligned using 2
      cases drop with
      | false =>
        simp only [Bool.false_eq_true, if_false] at hle hbehind ⊢
        omega
      | true =>
        simp only [if_true] at hle hbehind ⊢
        omega
    rw [if_neg hskip] at scan
    by_cases hneed : need ≤ (blocks :: run).length
    · rw [if_pos hneed] at scan
      obtain ⟨rfl, rfl⟩ := Prod.mk.inj (ok.inj scan)
      refine ⟨?_, fun h => by cases h⟩
      rw [getD_some, length_cons]
      omega
    · rw [if_neg hneed] at scan
      rw [length_cons] at hneed
      exact ih (blocks :: run) (by rw [length_cons]; omega) (by rw [length_cons]; omega) scan

theorem le_slidingWindowHit_length
    (hit : slidingWindowHit lookup window blockSize align maxLength drop = .ok rows)
    (haligned : align ∣ n * blockSize) (hfits : n + (if drop then 1 else 0) ≤ maxLength / blockSize)
    (hits : ∀ k < n + (if drop then 1 else 0), n + (if drop then 1 else 0) ≤
      k + max (contiguousBlocksForHit window blockSize drop) 1 → lookup.Cached k)
    (hlong : drop = true → blockSize = align ∨ PySeq.cdiv (window - 1) blockSize ≤ n) :
    n ≤ rows.length := by
  unfold slidingWindowHit at hit
  split at hit
  · cases hit
  rename_i found run scan
  obtain ⟨hle, hend⟩ := le_windowScan _ _ haligned hits (by simp) (by simpa using hfits) scan
  cases found with
  | some i =>
    rw [getD_some] at hle
    cases drop with
    | false =>
      rw [← ok.inj hit]
      simpa using hle
    | true =>
      rw [← ok.inj hit]
      simp only [if_true, length_take, length_dropLast, length_append,
        length_replicate, length_map] at hle ⊢
      exact Nat.le_min.mpr ⟨le_alignDown haligned (by omega), by omega⟩
  | none =>
    have hdown := alignDown_le blockSize align run.length
    rw [getD_none, Nat.zero_add] at hle
    cases drop with
    | false =>
      rw [← ok.inj hit]
      simp only [length_take, length_map, Nat.min_eq_left hdown]
      exact le_alignDown haligned hle
    | true =>
      have hkept : n + 1 ≤ alignDown blockSize align run.length := by
        rcases hlong rfl with rfl | hneed
        · rwa [alignDown_eq_self (Nat.dvd_mul_left _ _)]
        · have hshort := hend rfl
          simp only [contiguousBlocksForHit, if_true] at hshort hle
          omega
      rw [← ok.inj hit]
      simp only [length_take, length_dropLast, length_map, Nat.min_eq_left hdown]
      exact Nat.le_min.mpr ⟨le_alignDown haligned (by omega), by omega⟩

/-! ### Any hybrid kind -/

/-- The group can serve `n` blocks of a prompt on its own; with the EAGLE drop the block behind
them is cached as well. -/
structure Serves (spec : KVCacheSpec) (lookup : Lookup) (align maxLength : Nat) (drop : Bool)
    (n : Nat) : Prop where
  aligned : align ∣ n * spec.blockSize
  fits : n + (if drop then 1 else 0) ≤ maxLength / spec.blockSize
  ahead : drop = true → lookup.Cached n
  needed : ∀ i, NeededBlock spec n i → lookup.Cached i

theorem fullAttentionHit_ahead (h : 0 < (fullAttentionHit lookup blockSize align maxLength true).length) :
    lookup.Cached (fullAttentionHit lookup blockSize align maxLength true).length := by
  have hlt : (fullAttentionHit lookup blockSize align maxLength true).length <
      (hitPrefix lookup 0 (maxLength / blockSize)).length := by
    simp only [fullAttentionHit, if_true, length_take, length_dropLast] at h ⊢
    omega
  obtain ⟨blocks, -, hlookup⟩ := hitPrefix_getElem? (getElem?_eq_getElem hlt)
  exact ⟨blocks, by rwa [Nat.zero_add] at hlookup⟩

theorem slidingWindowHit_ahead
    (hit : slidingWindowHit lookup window blockSize align maxLength true = .ok rows)
    (h : 0 < rows.length) : lookup.Cached rows.length := by
  obtain ⟨i, run, n, rfl, hn, ok, -, hwindow⟩ := slidingWindowHit_spec hit
  have hlen : ((runRows i run).take n).length = n := by
    rw [length_take, runRows_length]
    omega
  rw [hlen] at h ⊢
  rw [if_pos rfl] at hn
  have hlt : n - i < run.length := by omega
  refine ⟨run[n - i], ?_⟩
  have hhit := ok.hit (n - i) _ (getElem?_eq_getElem hlt)
  rwa [Nat.add_sub_cancel' (by omega)] at hhit

theorem managerHit_serves (hkind : spec.IsHybridKind) (hpos : 0 < spec.blockSize)
    (hdrop : drop = true → spec.isMamba = false)
    (hit : managerHit spec lookup align maxLength drop = .ok rows) (h : 0 < rows.length) :
    Serves spec lookup align maxLength drop rows.length := by
  have ok := managerHit_ok hkind hpos hit
  have hfits : ∀ m, m * spec.blockSize ≤ maxLength → m ≤ maxLength / spec.blockSize :=
    fun m => (le_div_iff_mul_le hpos).mpr
  refine ⟨ok.length.aligned, ?_, ?_, ?_⟩
  · cases drop with
    | false => exact hfits _ ok.length.le_max
    | true =>
      have hshort := (ok.length.dropped_le (by simp [hdrop rfl])).resolve_left h.ne'
      rw [← succ_mul] at hshort
      exact hfits _ hshort
  · rintro rfl
    unfold managerHit at hit
    split at hit
    · cases hit
      exact fullAttentionHit_ahead h
    · cases hit
      exact fullAttentionHit_ahead h
    · exact slidingWindowHit_ahead hit h
    · rename_i hlocal
      simp [IsHybridKind, hlocal] at hkind
    · rename_i hmamba
      simp [isMamba, hmamba] at hdrop
    · cases hit
  · intro i hi
    obtain ⟨blocks, hblocks⟩ := ok.needed i hi
    exact ⟨blocks, ok.found i blocks hblocks⟩

/-- The lengths that a window lookup finds when they can be served. With a window of one token
no block is needed, but the scan starts at a cached block; with the EAGLE drop a run from the
start of the prompt that is shorter than the window is aligned once too often. -/
def FindsLength (spec : KVCacheSpec) (lookup : Lookup) (align : Nat) (drop : Bool) (n : Nat) :
    Prop :=
  ∀ w, spec.kind = .slidingWindow w →
    if drop then spec.blockSize = align ∨ PySeq.cdiv (w - 1) spec.blockSize ≤ n
    else 1 < w ∨ lookup.Cached (n - 1)

/-- No length that can be served exceeds what a lookup returns. -/
theorem le_managerHit_length (hkind : spec.IsHybridKind) (hpos : 0 < spec.blockSize)
    (finds : FindsLength spec lookup align drop n) (serves : Serves spec lookup align maxLength drop n)
    (hit : managerHit spec lookup align maxLength drop = .ok rows) : n ≤ rows.length := by
  have hall : spec.isFullAttention = true → ∀ i < n + (if drop then 1 else 0), lookup.Cached i := by
    intro hfull i hi
    by_cases hlt : i < n
    · exact serves.needed i ((neededBlock_fullAttention hfull).mpr hlt)
    · cases drop with
      | false => exact absurd hi hlt
      | true => exact (show i = n by simp at hi; omega) ▸ serves.ahead rfl
  unfold managerHit at hit
  split at hit
  · rename_i hkind
    rw [← ok.inj hit]
    exact le_fullAttentionHit_length serves.aligned serves.fits
      (hall (by simp [isFullAttention, hkind]))
  · rename_i hkind
    rw [← ok.inj hit]
    exact le_fullAttentionHit_length serves.aligned serves.fits
      (hall (by simp [isFullAttention, hkind]))
  · rename_i w hkind
    have hfinds := finds w hkind
    refine le_slidingWindowHit_length hit serves.aligned serves.fits ?_ ?_
    · intro k hk hback
      have hneeded := fun h => serves.needed k ((neededBlock_slidingWindow hkind hpos).mpr h)
      cases drop with
      | false =>
        simp only [contiguousBlocksForHit, Bool.false_eq_true, if_false] at hback hk hfinds
        rcases Nat.eq_zero_or_pos (PySeq.cdiv (w - 1) spec.blockSize) with hzero | hneed
        · have hw : ¬ 1 < w := fun h => absurd hzero ((PySeq.lt_cdiv_iff hpos 0).mpr (by omega)).ne'
          rw [show k = n - 1 by omega]
          exact hfinds.resolve_left hw
        · exact hneeded ⟨by omega, by omega⟩
      | true =>
        simp only [contiguousBlocksForHit, if_true] at hback hk
        rcases Nat.lt_succ_iff_lt_or_eq.mp hk with hlt | rfl
        · exact hneeded ⟨hlt, by omega⟩
        · exact serves.ahead rfl
    · rintro rfl
      exact hfinds
  · rename_i hlocal
    simp [IsHybridKind, hlocal] at hkind
  · rename_i hmamba
    cases n with
    | zero => exact Nat.zero_le _
    | succ n =>
      have hfits := serves.fits
      exact le_mambaHit_length hit (by omega) (serves.needed n (by simp [NeededBlock, hmamba]))
        serves.aligned
  · cases hit

/-! ### The EAGLE drop of a sliding window -/

section
variable (hkind : spec.kind = .slidingWindow window)
include hkind

theorem managerHit_slidingWindow :
    managerHit spec lookup align maxLength drop =
      slidingWindowHit lookup window spec.blockSize align maxLength drop := by
  rw [managerHit, hkind]

theorem isHybridKind_slidingWindow :
    spec.IsHybridKind := by
  rw [IsHybridKind, hkind]
  trivial

/-- A run from the start of the prompt that ends the scan is cut by two alignments, between
which the EAGLE block is dropped. -/
theorem eagle_short_run (hpos : 0 < spec.blockSize)
    (hdvd : spec.blockSize ∣ align) {run : List (List BlockId)}
    (ok : RunOk lookup spec.blockSize align (maxLength / spec.blockSize) true 0 run)
    (greatest : ∀ m, Serves spec lookup align maxLength true m → m ≤ n)
    (hn : n = alignDown spec.blockSize align (alignDown spec.blockSize align run.length - 1)) :
    n = 0 ∨ spec.blockSize = align := by
  by_contra hno
  obtain ⟨hzero, hne⟩ := not_or.mp hno
  have hdown := alignDown_le spec.blockSize align run.length
  have hdown' := alignDown_le spec.blockSize align (alignDown spec.blockSize align run.length - 1)
  have hrun : run ≠ [] := by
    rintro rfl
    exact hzero (le_zero.mp (hn ▸ hdown'))
  have hends : align ∣ (run.length - 1) * spec.blockSize := by
    have := ok.aligned hrun
    rwa [Nat.zero_add, if_pos rfl] at this
  have hcached : ∀ i < run.length, lookup.Cached i := fun i hi => by
    have hhit := ok.hit i _ (getElem?_eq_getElem hi)
    rw [Nat.zero_add] at hhit
    exact ⟨_, hhit⟩
  have hfits := ok.fits
  have hle := greatest (run.length - 1)
    ⟨hends, by simp only [if_true]; omega, fun _ => hcached _ (by omega),
      fun i hi => hcached i
        (((neededBlock_slidingWindow hkind hpos).mp hi).1.trans_le (sub_le _ _))⟩
  -- so the first alignment kept the whole run, which then spans two aligned ends
  have hkept : alignDown spec.blockSize align run.length = run.length := by omega
  have haligned := hkept ▸ alignDown_dvd spec.blockSize align run.length
  have hblock : align ∣ spec.blockSize := by
    rw [Nat.sub_mul, Nat.one_mul] at hends
    have hge : spec.blockSize ≤ run.length * spec.blockSize :=
      Nat.le_mul_of_pos_left _ (length_pos_iff.mpr hrun)
    exact (dvd_sub_iff_right hge haligned).mp hends
  exact hne (Nat.dvd_antisymm hdvd hblock)

end

/-- The EAGLE lookup of a window finds the greatest length whose look-ahead block and window are
cached, unless this length lies within the first window and blocks are finer than alignment. -/
theorem eagleWindowHit_greatest_iff (hkind : spec.kind = .slidingWindow window)
    (hpos : 0 < spec.blockSize) (hdvd : spec.blockSize ∣ align)
    (hashed : lookup.Hashed (maxLength / spec.blockSize))
    (greatest : IsGreatest {n | n = 0 ∨ Serves spec lookup align maxLength true n} n) :
    (∃ rows, slidingWindowHit lookup window spec.blockSize align maxLength true = .ok rows ∧
        rows.length = n) ↔
      n = 0 ∨ spec.blockSize = align ∨ PySeq.cdiv (window - 1) spec.blockSize ≤ n := by
  have hybrid := isHybridKind_slidingWindow hkind
  constructor
  · rintro ⟨rows, hit, hlen⟩
    unfold slidingWindowHit at hit
    split at hit
    · cases hit
    rename_i found run scan
    obtain ⟨ok, hfound⟩ := windowScan_spec _ _ (RunOk.nil lookup true le_rfl) scan
    rw [← Except.ok.inj hit] at hlen
    cases found with
    | some i =>
      obtain ⟨hneed, hne⟩ := hfound (by simp)
      have haligned := ok.aligned hne
      simp only [if_true, getD_some] at haligned
      simp only [length_take, length_dropLast, length_append, length_replicate,
        length_map, alignDown_eq_self haligned, Nat.min_self] at hlen
      simp only [contiguousBlocksForHit, if_true] at hneed
      exact .inr (.inr (by omega))
    | none =>
      refine (eagle_short_run hkind hpos hdvd ok (fun m hm => greatest.2 (.inr hm)) ?_).imp_right
        .inl
      simp only [length_take, length_dropLast, length_map,
        Nat.min_eq_left (alignDown_le _ _ _)] at hlen
      exact hlen.symm
  · intro hcond
    obtain ⟨rows, hit⟩ := managerHit_returns hybrid hashed true
    refine ⟨rows, by rw [← managerHit_slidingWindow hkind, hit], Nat.le_antisymm ?_ ?_⟩
    · apply greatest.2
      rcases Nat.eq_zero_or_pos rows.length with hzero | hrows
      · exact .inl hzero
      · exact .inr (managerHit_serves hybrid hpos (by simp [isMamba, hkind]) hit hrows)
    · rcases Nat.eq_zero_or_pos n with rfl | hn
      · exact Nat.zero_le _
      refine le_managerHit_length hybrid hpos (fun w hw => ?_) (greatest.1.resolve_left hn.ne') hit
      obtain rfl : w = window := by simpa [hkind] using hw.symm
      exact hcond.resolve_left hn.ne'

def allCached : Lookup := fun _ => .ok (some [])

theorem cached_allCached (i : Nat) : allCached.Cached i := ⟨[], rfl⟩

/-- Two blocks can be served out of three, for every window. -/
theorem allCached_greatest (window : Nat) :
    IsGreatest {n | n = 0 ∨ Serves ⟨1, .slidingWindow window, 0⟩ allCached 2 3 true n} 2 := by
  refine ⟨.inr ⟨⟨1, rfl⟩, by simp, fun _ => cached_allCached 2, fun i _ => cached_allCached i⟩, ?_⟩
  rintro n (rfl | serves)
  · exact Nat.zero_le 2
  · have hfits := serves.fits
    simp only [if_true, Nat.div_one] at hfits
    omega

theorem eagleWindowHit_two_blocks :
    ∃ rows, slidingWindowHit allCached 2 1 2 3 true = .ok rows ∧ rows.length = 2 :=
  (@eagleWindowHit_greatest_iff _ ⟨1, .slidingWindow 2, 0⟩ _ _ _ _ rfl (by decide) (by decide)
    (fun _ _ => ⟨_, rfl⟩) (allCached_greatest 2)).mpr (.inr (.inr (by decide)))

/-- In a window of nine tokens the same prompt loses its two blocks. -/
theorem eagleWindowHit_lost :
    IsGreatest {n | n = 0 ∨ Serves ⟨1, .slidingWindow 9, 0⟩ allCached 2 3 true n} 2 ∧
      slidingWindowHit allCached 9 1 2 3 true = .ok [] :=
  ⟨allCached_greatest 9, rfl⟩

end Vllm.KVCache
