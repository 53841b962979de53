import Vllm.KVCache.HybridServable
import Vllm.KVCache.LongestHit

/-! Lookups evaluated on pools where a group either has a block cached or not: what the
managers return when everything is cached, when nothing is, and around a known run. -/
namespace Vllm.KVCache
open Nat KVCacheSpec

/-- Block `i < bound` of the group is cached exactly if `c i`. -/
def Reads (lookup : Lookup) (c : Nat → Bool) (bound : Nat) : Prop :=
  ∀ i < bound, ∃ row, lookup i = .ok (if c i then some row else none)

variable {lookup : Lookup} {c : Nat → Bool} {bound : Nat}

theorem Reads.hit {i : Nat} (reads : Reads lookup c bound) (hi : i < bound) (hc : c i = true) :
    ∃ row, lookup i = .ok (some row) := by
  obtain ⟨row, hrow⟩ := reads i hi
  exact ⟨row, by rw [hrow, if_pos hc]⟩

theorem Reads.miss {i : Nat} (reads : Reads lookup c bound) (hi : i < bound) (hc : c i = false) :
    lookup i = .ok none := by
  obtain ⟨row, hrow⟩ := reads i hi
  rw [hrow, hc, if_neg (by decide)]

theorem Reads.hashed (reads : Reads lookup c bound) : lookup.Hashed bound :=
  fun i hi => (reads i hi).imp' (fun row => if c i then some row else none) fun _ h => h

theorem Reads.of_cached {i : Nat} (reads : Reads lookup c bound) (hi : i < bound)
    (hcached : lookup.Cached i) : c i = true := by
  by_contra hc
  obtain ⟨blocks, hblocks⟩ := hcached
  rw [reads.miss hi (Bool.not_eq_true _ ▸ hc)] at hblocks
  cases hblocks

theorem windowScan_none {blockSize align need i : Nat} {drop : Bool}
    (none : ∀ k < i, lookup k = .ok none) :
    windowScan lookup blockSize align need drop i [] = .ok (Option.none, []) := by
  induction i with
  | zero => rfl
  | succ i ih =>
    rw [windowScan, none i (lt_succ_self i)]
    exact ih fun k hk => none k (hk.trans (lt_succ_self i))

/-! ### Any hybrid kind

The pool is described by the tokens at which cached blocks of the group end. -/

section Managers

variable {spec : KVCacheSpec} {lookup : Lookup} {cachedAt : Nat → Bool} {maxLength align : Nat}

/-- The blocks of `spec` within `maxLength` tokens are cached exactly where `cachedAt` says. -/
def ReadsAt (lookup : Lookup) (spec : KVCacheSpec) (cachedAt : Nat → Bool) (maxLength : Nat) : Prop :=
  Reads lookup (fun i => cachedAt ((i + 1) * spec.blockSize)) (maxLength / spec.blockSize)

theorem end_le_of_lt_div {blockSize maxLength i : Nat} (hi : i < maxLength / blockSize) :
    (i + 1) * blockSize ≤ maxLength :=
  (Nat.mul_le_mul_right _ hi).trans (div_mul_le_self _ _)

theorem managerHit_none (hkind : spec.IsHybridKind) (hpos : 0 < spec.blockSize)
    (reads : ReadsAt lookup spec cachedAt maxLength) (none : ∀ t ≤ maxLength, cachedAt t = false)
    {drop : Bool} {rows : List Row} (hit : managerHit spec lookup align maxLength drop = .ok rows) :
    rows = [] := by
  have hmiss : ∀ k < maxLength / spec.blockSize, lookup k = .ok Option.none :=
    fun k hk => reads.miss hk (none _ (end_le_of_lt_div hk))
  by_cases hwindow : ∃ w, spec.kind = .slidingWindow w
  · obtain ⟨w, hw⟩ := hwindow
    rw [managerHit_slidingWindow hw, slidingWindowHit, windowScan_none hmiss] at hit
    cases drop <;> exact (Except.ok.inj hit).symm
  -- the other kinds need the last block of what they return
  have ok := managerHit_ok hkind hpos hit
  rcases Nat.eq_zero_or_pos rows.length with hzero | hrows
  · exact List.length_eq_zero_iff.mp hzero
  have hlast : NeededBlock spec rows.length (rows.length - 1) := by
    unfold NeededBlock
    unfold IsHybridKind at hkind
    split at hkind <;> simp_all
    omega
  obtain ⟨blocks, hblocks⟩ := ok.needed _ hlast
  have hfits := (le_div_iff_mul_le hpos).mpr ok.length.le_max
  have hfound := ok.found _ blocks hblocks
  rw [hmiss _ (by omega)] at hfound
  cases hfound

theorem managerHit_all (hkind : spec.IsHybridKind) (hpos : 0 < spec.blockSize)
    (hdvd : spec.blockSize ∣ align) (reads : ReadsAt lookup spec cachedAt maxLength)
    (hmax : align ∣ maxLength) (all : ∀ t ≤ maxLength, cachedAt t = true) :
    ∃ rows, managerHit spec lookup align maxLength false = .ok rows ∧
      rows.length * spec.blockSize = maxLength := by
  have hmul : maxLength / spec.blockSize * spec.blockSize = maxLength :=
    Nat.div_mul_cancel (Nat.dvd_trans hdvd hmax)
  have hhit : ∀ k < maxLength / spec.blockSize, lookup.Cached k :=
    fun k hk => reads.hit hk (all _ (end_le_of_lt_div hk))
  obtain ⟨rows, hit⟩ := managerHit_returns hkind reads.hashed false
  refine ⟨rows, hit, Nat.le_antisymm (managerHit_ok hkind hpos hit).length.le_max ?_⟩
  rw [← hmul]
  apply Nat.mul_le_mul_right
  rcases Nat.eq_zero_or_pos (maxLength / spec.blockSize) with hzero | hn
  · rw [hzero]
    exact Nat.zero_le _
  have serves : Serves spec lookup align maxLength false (maxLength / spec.blockSize) :=
    ⟨by rwa [hmul], le_rfl, Bool.noConfusion, fun i hi => hhit i (lt_of_neededBlock hi)⟩
  have finds : FindsLength spec lookup align false (maxLength / spec.blockSize) :=
    fun w _ => .inr (hhit _ (by omega))
  exact le_managerHit_length hkind hpos finds serves hit

/-- A pool that holds the tokens in `(lo, (n + 1) * align]` of a group, with enough of them
for the window, looked up with a bound of more than `n * align`. -/
structure Settles (spec : KVCacheSpec) (cachedAt : Nat → Bool) (align maxLength lo n : Nat) :
    Prop where
  lo_lt : lo < n * align
  window : ∀ w, spec.kind = .slidingWindow w → lo + (w - 1) ≤ n * align
  full : spec.isFullAttention = true → lo = 0 ∧ maxLength ≤ (n + 1) * align
  bound : n * align + spec.blockSize ≤ maxLength
  hit : ∀ t, lo < t → t ≤ (n + 1) * align → cachedAt t = true
  miss : ∀ t, (n + 1) * align < t → t ≤ maxLength → cachedAt t = false

variable {lo n : Nat}

/-- The aligned length `n * align` of a settled pool can be served with the EAGLE drop. -/
theorem Settles.serves (hpos : 0 < spec.blockSize) (hdvd : spec.blockSize ∣ align)
    (reads : ReadsAt lookup spec cachedAt maxLength)
    (ok : Settles spec cachedAt align maxLength lo n) {m : Nat}
    (hm : m * spec.blockSize = n * align) : Serves spec lookup align maxLength true m := by
  have hlo := ok.lo_lt
  have hbound := ok.bound
  have hblock : spec.blockSize ≤ align :=
    le_of_dvd (Nat.pos_of_mul_pos_left (zero_lt_of_lt hlo)) hdvd
  have hfits : m < maxLength / spec.blockSize :=
    (le_div_iff_mul_le hpos).mpr (by rw [succ_mul, hm]; exact hbound)
  have hcached : ∀ i ≤ m, lo < (i + 1) * spec.blockSize → lookup.Cached i := by
    intro i hi hlow
    refine reads.hit (by omega) (ok.hit _ hlow ?_)
    have hle := Nat.mul_le_mul_right spec.blockSize (succ_le_succ hi)
    rw [succ_mul m, hm] at hle
    rw [succ_mul n]
    exact hle.trans (Nat.add_le_add_left hblock _)
  refine ⟨⟨n, by rw [hm, Nat.mul_comm]⟩, hfits, fun _ => hcached m le_rfl ?_, fun i hi => ?_⟩
  · rw [succ_mul]
    omega
  refine hcached i (lt_of_neededBlock hi).le ?_
  by_cases hfull : spec.isFullAttention = true
  · rw [(ok.full hfull).1]
    exact Nat.mul_pos (succ_pos i) hpos
  unfold NeededBlock at hi
  split at hi
  · rename_i h
    simp [isFullAttention, h] at hfull
  · rename_i h
    simp [isFullAttention, h] at hfull
  · rename_i w hw
    have hwindow := ok.window w hw
    omega
  · rw [hi, hm]
    exact hlo
  · exact hi.elim
  · exact hi.elim

/-- Behind all but the last block of a hit some block is cached. -/
theorem managerHit_cached_end (hkind : spec.IsHybridKind) (hpos : 0 < spec.blockSize)
    {rows : List Row} (hit : managerHit spec lookup align maxLength true = .ok rows)
    (h : 0 < rows.length) :
    ∃ i < maxLength / spec.blockSize, rows.length ≤ i + 1 ∧ lookup.Cached i := by
  have ok := managerHit_ok hkind hpos hit
  cases hmamba : spec.isMamba with
  | true =>
    have hlast : NeededBlock spec rows.length (rows.length - 1) := by
      unfold isMamba at hmamba
      unfold NeededBlock
      split at hmamba <;> simp_all
      omega
    obtain ⟨blocks, hblocks⟩ := ok.needed _ hlast
    have hfits := (le_div_iff_mul_le hpos).mpr ok.length.le_max
    exact ⟨rows.length - 1, by omega, by omega, blocks, ok.found _ blocks hblocks⟩
  | false =>
    have serves := managerHit_serves hkind hpos (fun _ => hmamba) hit h
    exact ⟨rows.length, serves.fits, le_succ _, serves.ahead rfl⟩

theorem managerHit_settles (hkind : spec.IsHybridKind) (hpos : 0 < spec.blockSize)
    (hdvd : spec.blockSize ∣ align) (reads : ReadsAt lookup spec cachedAt maxLength)
    (ok : Settles spec cachedAt align maxLength lo n) {rows : List Row}
    (hit : managerHit spec lookup align maxLength true = .ok rows) :
    ∃ n', rows.length * spec.blockSize = n' * align ∧ n ≤ n' ∧ n' ≤ n + 1 ∧
      (spec.isMamba = false → n' = n) := by
  have halign : 0 < align := Nat.pos_of_mul_pos_left (zero_lt_of_lt ok.lo_lt)
  obtain ⟨k, hk⟩ := (managerHit_ok hkind hpos hit).length.aligned
  rw [Nat.mul_comm align] at hk
  have hlow : n ≤ k := by
    obtain ⟨m, hm⟩ := Nat.dvd_trans hdvd (Nat.dvd_mul_left align n)
    rw [Nat.mul_comm spec.blockSize] at hm
    have finds : FindsLength spec lookup align true m := fun w hw => .inr <| by
      rw [PySeq.cdiv_le_iff hpos]
      have := ok.window w hw
      omega
    have hle := le_managerHit_length hkind hpos finds (ok.serves hpos hdvd reads hm.symm) hit
    refine Nat.le_of_mul_le_mul_right ?_ halign
    rw [← hk, hm]
    exact Nat.mul_le_mul_right _ hle
  refine ⟨k, hk, hlow, ?_, fun hmamba => hlow.antisymm' ?_⟩
  · by_contra hfar
    have hlt : (n + 1) * align < k * align := Nat.mul_lt_mul_of_pos_right (by omega) halign
    have hrows : 0 < rows.length := Nat.pos_of_mul_pos_right (by rw [hk]; omega)
    obtain ⟨i, hi, hend, hcached⟩ := managerHit_cached_end hkind hpos hit hrows
    have hle := Nat.mul_le_mul_right spec.blockSize hend
    have hmiss := ok.miss ((i + 1) * spec.blockSize) (by omega) (end_le_of_lt_div hi)
    exact absurd (reads.of_cached hi hcached) (by simp [hmiss])
  · -- the block that was dropped is cached
    by_contra hfar
    have hlt : (n + 1) * align ≤ k * align := Nat.mul_le_mul_right _ (by omega)
    have hrows : 0 < rows.length :=
      Nat.pos_of_mul_pos_right (by rw [hk]; exact Nat.mul_pos (by omega) halign)
    have serves := managerHit_serves hkind hpos (fun _ => hmamba) hit hrows
    have hmiss := ok.miss ((rows.length + 1) * spec.blockSize)
      (by rw [succ_mul rows.length, hk]; omega)
      (end_le_of_lt_div serves.fits)
    exact absurd (reads.of_cached serves.fits (serves.ahead rfl)) (by simp [hmiss])

theorem mambaHit_at {t : Nat} (hpos : 0 < spec.blockSize) (hdvd : spec.blockSize ∣ align)
    (reads : ReadsAt lookup spec cachedAt maxLength) (htpos : 0 < t) (ht : t ≤ maxLength)
    (haligned : align ∣ t) (hit : cachedAt t = true)
    (miss : ∀ t', t < t' → t' ≤ maxLength → cachedAt t' = false) {rows : List Row}
    (hrows : mambaHit lookup spec.blockSize align maxLength = .ok rows) :
    rows.length * spec.blockSize = t := by
  obtain ⟨m, rfl⟩ := Nat.dvd_trans hdvd haligned
  obtain ⟨j, rfl⟩ := exists_eq_succ_of_ne_zero (Nat.pos_of_mul_pos_left htpos).ne'
  rw [Nat.mul_comm] at *
  have hj : j + 1 ≤ maxLength / spec.blockSize := (le_div_iff_mul_le hpos).mpr ht
  have hle := le_mambaHit_length hrows hj (reads.hit hj hit) haligned
  refine congrArg (spec.blockSize * ·) (Nat.le_antisymm ?_ hle)
  rcases mambaHit_spec hrows with rfl | ⟨i, blocks, rfl, hlookup, hlength⟩
  · exact Nat.zero_le _
  by_contra hbehind
  rw [runRows_length, List.length_singleton, Nat.not_le] at hbehind
  have hi : i < maxLength / spec.blockSize := (le_div_iff_mul_le hpos).mpr hlength.le_max
  have hmiss := miss _ (Nat.mul_lt_mul_of_pos_right hbehind hpos) hlength.le_max
  exact absurd (reads.of_cached hi ⟨blocks, hlookup⟩) (by simp [hmiss])

end Managers
end Vllm.KVCache
