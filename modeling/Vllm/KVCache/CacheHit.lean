import Vllm.KVCache.BlockPool
import Vllm.Lib.Run

/-! The cache-hit lookups of the single-type managers
(`vllm/v1/core/single_type_kv_cache_manager.py`). A lookup returns one list of blocks per
group id; here it returns the positions of these lists, each either a null block in every
group or one cached block per group. -/
namespace Vllm.KVCache
open List KVCacheSpec Option Nat Except

/-- The blocks of one position: `none` for the null block, else one block per group id. -/
abbrev Row := Option (List BlockId)

inductive HitError
  | indexError
  | assertion
  | notImplemented
  | outOfFuel
  deriving DecidableEq, Repr

abbrev Lookup := Nat → Except HitError (Option (List BlockId))

def poolLookup (pool : BlockPool) (hbs blockSize : Nat) (hashes : List BlockHash)
    (groupIds : List GroupId) : Lookup := fun i =>
  match groupHash hbs blockSize hashes i with
  | none => .error .indexError
  | some h => .ok (pool.getCachedBlock h groupIds)

/-- How many of `n` blocks are left by `while len * block_size % alignment_tokens: pop()`. -/
def alignDown (blockSize align : Nat) : Nat → Nat
  | 0 => 0
  | n + 1 =>
    if blockSize ≠ align ∧ (n + 1) * blockSize % align ≠ 0 then alignDown blockSize align n
    else n + 1

/-- The left-to-right scan of full attention; it ends with the hashes or at a miss. -/
def hitPrefix (lookup : Lookup) (i : Nat) : Nat → List Row
  | 0 => []
  | n + 1 =>
    match lookup i with
    | .ok (some blocks) => some blocks :: hitPrefix lookup (i + 1) n
    | _ => []

/-- `FullAttentionManager.find_longest_cache_hit`. -/
def fullAttentionHit (lookup : Lookup) (blockSize align maxLength : Nat) (dropEagle : Bool) :
    List Row :=
  let computed := hitPrefix lookup 0 (maxLength / blockSize)
  let computed := if dropEagle then computed.dropLast else computed
  computed.take (alignDown blockSize align computed.length)

def contiguousBlocksForHit (window blockSize : Nat) (useEagle : Bool) : Nat :=
  PySeq.cdiv (window - 1) blockSize + if useEagle then 1 else 0

/-- The right-to-left scan of the sliding window. `run` holds the contiguous hits right of
block `i`; the result is the number of null blocks in front of them, or `none` if the scan
ran out before the run was long enough. -/
def windowScan (lookup : Lookup) (blockSize align need : Nat) (dropEagle : Bool) :
    Nat → List (List BlockId) → Except HitError (Option Nat × List (List BlockId))
  | 0, run => .ok (none, run)
  | i + 1, run =>
    match lookup i with
    | .error e => .error e
    | .ok none => windowScan lookup blockSize align need dropEagle i []
    | .ok (some blocks) =>
      if run = [] ∧ blockSize ≠ align ∧ (if dropEagle then i else i + 1) * blockSize % align ≠ 0 then
        windowScan lookup blockSize align need dropEagle i run
      else if need ≤ (blocks :: run).length then .ok (some i, blocks :: run)
      else windowScan lookup blockSize align need dropEagle i (blocks :: run)

/-- `SlidingWindowManager.find_longest_cache_hit`. -/
def slidingWindowHit (lookup : Lookup) (window blockSize align maxLength : Nat)
    (dropEagle : Bool) : Except HitError (List Row) :=
  match windowScan lookup blockSize align (contiguousBlocksForHit window blockSize dropEagle)
      dropEagle (maxLength / blockSize) [] with
  | .error e => .error e
  | .ok (found, run) =>
    let computed := match found with
      | some i => replicate i none ++ run.map some
      | none => (run.map some).take (alignDown blockSize align run.length)
    if dropEagle then
      .ok (computed.dropLast.take (alignDown blockSize align (computed.length - 1)))
    else .ok computed

/-- The right-to-left scan for the last aligned Mamba state. -/
def mambaScan (lookup : Lookup) (blockSize align : Nat) :
    Nat → Except HitError (Option (Nat × List BlockId))
  | 0 => .ok none
  | i + 1 =>
    match lookup i with
    | .error e => .error e
    | .ok none => mambaScan lookup blockSize align i
    | .ok (some blocks) =>
      if blockSize ≠ align ∧ (i + 1) * blockSize % align ≠ 0 then mambaScan lookup blockSize align i
      else .ok (some (i, blocks))

/-- `MambaManager.find_longest_cache_hit`; it takes no notice of the EAGLE drop. -/
def mambaHit (lookup : Lookup) (blockSize align maxLength : Nat) : Except HitError (List Row) :=
  match mambaScan lookup blockSize align (maxLength / blockSize) with
  | .error e => .error e
  | .ok none => .ok []
  | .ok (some (i, blocks)) => .ok (replicate i none ++ [some blocks])

/-- The scan of the current chunk in `ChunkedLocalAttentionManager`. -/
def chunkScan (lookup : Lookup) (i : Nat) : Nat → Except HitError (List Row)
  | 0 => .ok []
  | n + 1 =>
    match lookup i with
    | .error e => .error e
    | .ok none => .ok []
    | .ok (some blocks) => (chunkScan lookup (i + 1) n).map (some blocks :: ·)

/-- `ChunkedLocalAttentionManager.find_longest_cache_hit`. -/
def chunkedLocalHit (lookup : Lookup) (chunk blockSize align maxLength : Nat) (dropEagle : Bool) :
    Except HitError (List Row) :=
  if dropEagle ∨ blockSize ≠ align then .error .assertion
  else
    let startBlock := maxLength / chunk * chunk / blockSize
    (chunkScan lookup startBlock (maxLength / blockSize - startBlock)).map
      (replicate startBlock none ++ ·)

/-- `find_longest_cache_hit` of the manager that serves a spec. -/
def managerHit (spec : KVCacheSpec) (lookup : Lookup) (align maxLength : Nat) (dropEagle : Bool) :
    Except HitError (List Row) :=
  match spec.kind with
  | .fullAttention | .rswa _ =>
    .ok (fullAttentionHit lookup spec.blockSize align maxLength dropEagle)
  | .slidingWindow window => slidingWindowHit lookup window spec.blockSize align maxLength dropEagle
  | .chunkedLocal chunk => chunkedLocalHit lookup chunk spec.blockSize align maxLength dropEagle
  | .mamba _ _ => mambaHit lookup spec.blockSize align maxLength
  | .crossAttention => .error .notImplemented

/-! ### What a lookup returns -/

theorem alignDown_le (blockSize align n : Nat) : alignDown blockSize align n ≤ n := by
  induction n with
  | zero => exact le_rfl
  | succ n ih =>
    rw [alignDown]
    split
    · exact ih.trans (le_succ n)
    · exact le_rfl

theorem alignDown_dvd (blockSize align n : Nat) : align ∣ alignDown blockSize align n * blockSize := by
  induction n with
  | zero => simp [alignDown]
  | succ n ih =>
    rw [alignDown]
    split
    · exact ih
    rename_i hstop
    by_cases heq : blockSize = align
    · exact heq ▸ Nat.dvd_mul_left blockSize (n + 1)
    · exact dvd_of_mod_eq_zero (by_contra fun hmod => hstop ⟨heq, hmod⟩)

variable {align i maxBlocks maxLength n blockSize k : Nat} {rows : List Row} {spec : KVCacheSpec}
  {lookup : Lookup} {drop dropped : Bool} {run : List (List BlockId)} {blocks : List BlockId}
  {row : Row}

theorem alignDown_eq_self (h : align ∣ n * blockSize) : alignDown blockSize align n = n := by
  cases n with
  | zero => rfl
  | succ n => rw [alignDown, if_neg (fun hmod => hmod.2 (mod_eq_zero_of_dvd h))]

/-- Every row that is not null holds what the pool has cached for its block. -/
def RowsFound (lookup : Lookup) (rows : List Row) : Prop :=
  ∀ i blocks, rows[i]? = some (some blocks) → lookup i = .ok (some blocks)

/-- The lengths a lookup may return: aligned, within the bound, and one block short of it
when the EAGLE drop applied. -/
structure LengthOk (blockSize align maxLength : Nat) (dropped : Bool) (n : Nat) : Prop where
  aligned : align ∣ n * blockSize
  le_max : n * blockSize ≤ maxLength
  dropped_le : dropped = true → n = 0 ∨ n * blockSize + blockSize ≤ maxLength

theorem hitPrefix_length_le (lookup : Lookup) (i n : Nat) : (hitPrefix lookup i n).length ≤ n := by
  induction n generalizing i with
  | zero => exact le_rfl
  | succ n ih =>
    rw [hitPrefix]
    split
    · exact succ_le_succ (ih (i + 1))
    · exact Nat.zero_le _

theorem hitPrefix_getElem? (h : (hitPrefix lookup i n)[k]? = some row) :
    ∃ blocks, row = some blocks ∧ lookup (i + k) = .ok (some blocks) := by
  induction n generalizing i k with
  | zero => simp [hitPrefix] at h
  | succ n ih =>
    rw [hitPrefix] at h
    split at h
    · rename_i blocks hlookup
      cases k with
      | zero => exact ⟨blocks, by simpa using h.symm, hlookup⟩
      | succ k =>
        obtain ⟨found, hrow, hfound⟩ := ih (by simpa using h)
        exact ⟨found, hrow, by rwa [Nat.add_right_comm] at hfound⟩
    · simp at h

/-- The bound that holds once the last block of at most `maxLength / blockSize` is dropped. -/
theorem lengthOk_of_le (haligned : align ∣ n * blockSize)
    (hle : n + (if dropped then 1 else 0) ≤ maxLength / blockSize ∨ n = 0) :
    LengthOk blockSize align maxLength dropped n := by
  have hmul : ∀ m, m ≤ maxLength / blockSize → m * blockSize ≤ maxLength := fun m hm =>
    (Nat.mul_le_mul_right blockSize hm).trans (div_mul_le_self maxLength blockSize)
  refine ⟨haligned, ?_, ?_⟩
  · rcases hle with hle | rfl
    · exact hmul n (by omega)
    · simp
  · intro hdrop
    rcases hle with hle | rfl
    · refine .inr ?_
      rw [← succ_mul]
      exact hmul (n + 1) (by simpa [hdrop] using hle)
    · exact .inl rfl

theorem fullAttentionHit_length (lookup : Lookup) (blockSize align maxLength : Nat) (drop : Bool) :
    LengthOk blockSize align maxLength drop
      (fullAttentionHit lookup blockSize align maxLength drop).length := by
  have hscan := hitPrefix_length_le lookup 0 (maxLength / blockSize)
  have hdown := alignDown_le blockSize align
  cases drop with
  | false =>
    have hlen := hdown (hitPrefix lookup 0 (maxLength / blockSize)).length
    simp only [fullAttentionHit, Bool.false_eq_true, if_false, length_take, Nat.min_eq_left hlen]
    exact lengthOk_of_le (alignDown_dvd _ _ _) (.inl (by simpa using hlen.trans hscan))
  | true =>
    have hlen := hdown (hitPrefix lookup 0 (maxLength / blockSize)).dropLast.length
    simp only [fullAttentionHit, if_true, length_take, Nat.min_eq_left hlen]
    refine lengthOk_of_le (alignDown_dvd _ _ _) ?_
    rw [length_dropLast] at hlen ⊢
    simp only [if_true]
    omega

theorem fullAttentionHit_getElem?
    (h : (fullAttentionHit lookup blockSize align maxLength drop)[i]? = some row) :
    ∃ blocks, row = some blocks ∧ lookup i = .ok (some blocks) := by
  have hscan : (hitPrefix lookup 0 (maxLength / blockSize))[i]? = some row := by
    simp only [fullAttentionHit, getElem?_take] at h
    cases drop with
    | false =>
      simp only [Bool.false_eq_true, if_false] at h
      split at h
      · exact h
      · cases h
    | true =>
      simp only [if_true, dropLast_eq_take, getElem?_take] at h
      split at h
      · split at h
        · exact h
        · cases h
      · cases h
  simpa using hitPrefix_getElem? hscan

/-- A run of hits from block `i` on, ending where a prefix may end. -/
structure RunOk (lookup : Lookup) (blockSize align maxBlocks : Nat) (dropped : Bool) (i : Nat)
    (run : List (List BlockId)) : Prop where
  hit : ∀ k blocks, run[k]? = some blocks → lookup (i + k) = .ok (some blocks)
  fits : i + run.length ≤ maxBlocks
  aligned : run ≠ [] → align ∣ (i + run.length - (if dropped then 1 else 0)) * blockSize

theorem RunOk.nil (lookup : Lookup) (dropped : Bool) (hi : i ≤ maxBlocks) :
    RunOk lookup blockSize align maxBlocks dropped i [] :=
  ⟨fun k blocks h => by simp at h, hi, fun h => absurd rfl h⟩

theorem RunOk.cons (ok : RunOk lookup blockSize align maxBlocks dropped (i + 1) run)
    (hit : lookup i = .ok (some blocks)) (starts : ¬ (run = [] ∧ blockSize ≠ align ∧
      (if dropped then i else i + 1) * blockSize % align ≠ 0)) :
    RunOk lookup blockSize align maxBlocks dropped i (blocks :: run) := by
  refine ⟨?_, ?_, ?_⟩
  · intro k found hk
    cases k with
    | zero => simp only [getElem?_cons_zero, some.injEq] at hk; rw [← hk]; exact hit
    | succ k =>
      have hfound := ok.hit k found hk
      rwa [Nat.add_right_comm] at hfound
  · have hfits := ok.fits
    rw [length_cons]
    omega
  · intro _
    rw [length_cons, ← Nat.add_assoc, Nat.add_right_comm]
    by_cases hrun : run = []
    · subst hrun
      have haligned : align ∣ (if dropped then i else i + 1) * blockSize := by
        by_cases heq : blockSize = align
        · exact heq ▸ Nat.dvd_mul_left _ _
        · exact dvd_of_mod_eq_zero (by_contra fun hmod => starts ⟨rfl, heq, hmod⟩)
      cases dropped with
      | false => simpa using haligned
      | true => simpa using haligned
    · exact ok.aligned hrun

theorem windowScan_spec {need : Nat} (i : Nat) (run : List (List BlockId)) {found : Option Nat}
    {run' : List (List BlockId)} (ok : RunOk lookup blockSize align maxBlocks drop i run)
    (scan : windowScan lookup blockSize align need drop i run = .ok (found, run')) :
    RunOk lookup blockSize align maxBlocks drop (found.getD 0) run' ∧
      (found ≠ none → need ≤ run'.length ∧ run' ≠ []) := by
  induction i generalizing run with
  | zero =>
    obtain ⟨rfl, rfl⟩ := scan
    exact ⟨ok, fun h => absurd rfl h⟩
  | succ i ih =>
    have hi : i ≤ maxBlocks := by
      have := ok.fits
      omega
    rw [windowScan] at scan
    split at scan
    · cases scan
    · exact ih [] (RunOk.nil lookup drop hi) scan
    rename_i blocks hlookup
    by_cases hskip : run = [] ∧ blockSize ≠ align ∧
        (if drop then i else i + 1) * blockSize % align ≠ 0
    · rw [if_pos hskip, hskip.1] at scan
      exact ih [] (RunOk.nil lookup drop hi) scan
    · have ok' := ok.cons hlookup hskip
      rw [if_neg hskip] at scan
      by_cases hneed : need ≤ (blocks :: run).length
      · rw [if_pos hneed] at scan
        obtain ⟨rfl, rfl⟩ := scan
        exact ⟨ok', fun _ => ⟨hneed, by simp⟩⟩
      · rw [if_neg hneed] at scan
        exact ih (blocks :: run) ok' scan

def runRows (i : Nat) (run : List (List BlockId)) : List Row :=
  replicate i none ++ run.map some

@[simp] theorem runRows_length (i : Nat) (run : List (List BlockId)) :
    (runRows i run).length = i + run.length := by
  simp [runRows]

theorem runRows_getElem? :
    (runRows i run)[k]? = if k < i then some none else (run[k - i]?).map some := by
  rw [runRows, getElem?_append]
  by_cases hk : k < i
  · simp [hk]
  · simp [hk]

theorem RunOk.rowsFound (ok : RunOk lookup blockSize align maxBlocks dropped i run) (n : Nat) :
    RowsFound lookup ((runRows i run).take n) := by
  intro k blocks hk
  rw [getElem?_take] at hk
  split at hk
  · rw [runRows_getElem?] at hk
    split at hk
    · cases hk
    rename_i hge
    obtain ⟨found, hfound, hsame⟩ := map_eq_some_iff.mp hk
    have hlookup := ok.hit (k - i) found hfound
    rwa [Nat.add_sub_cancel' (Nat.le_of_not_lt hge), some.inj hsame] at hlookup
  · cases hk

variable {window : Nat}

/-- A window lookup returns a run behind null blocks, cut to an aligned length: either the
run starts at block 0, or what is left of it spans the window. -/
theorem slidingWindowHit_spec
    (hit : slidingWindowHit lookup window blockSize align maxLength drop = .ok rows) :
    ∃ i run n, rows = (runRows i run).take n ∧
      (n + (if drop then 1 else 0) ≤ i + run.length ∨ n = 0) ∧
      RunOk lookup blockSize align (maxLength / blockSize) drop i run ∧
      align ∣ n * blockSize ∧ (i = 0 ∨ i + PySeq.cdiv (window - 1) blockSize ≤ n) := by
  unfold slidingWindowHit at hit
  split at hit
  · cases hit
  rename_i found run scan
  obtain ⟨ok, hfound⟩ := windowScan_spec _ _ (RunOk.nil lookup drop le_rfl) scan
  cases found with
  | some i =>
    obtain ⟨hneed, hne⟩ := hfound (by simp)
    have hpos := length_pos_iff.mpr hne
    have haligned := ok.aligned hne
    simp only [getD_some] at ok haligned
    refine ⟨i, run, i + run.length - (if drop then 1 else 0), ?_, ?_, ok, haligned, .inr ?_⟩
    · cases drop with
      | false =>
        rw [← Except.ok.inj hit]
        exact (take_of_length_le (by simp)).symm
      | true =>
        simp only [if_true] at haligned ⊢
        rw [← Except.ok.inj hit]
        show (runRows i run).dropLast.take (alignDown _ _ ((runRows i run).length - 1)) = _
        rw [runRows_length, alignDown_eq_self haligned, dropLast_eq_take, take_take,
          runRows_length, Nat.min_self]
    · cases drop with
      | false => exact .inl le_rfl
      | true => exact .inl (by simp only [if_true]; omega)
    · rw [contiguousBlocksForHit] at hneed
      omega
  | none =>
    have hrows : run.map some = runRows 0 run := by simp [runRows]
    have hdown := alignDown_le blockSize align run.length
    cases drop with
    | false =>
      refine ⟨0, run, alignDown blockSize align run.length, ?_, .inl ?_, ok, alignDown_dvd _ _ _,
        .inl rfl⟩
      · rw [← Except.ok.inj hit, ← hrows]
      · simpa using hdown
    | true =>
      have hdown' := alignDown_le blockSize align (alignDown blockSize align run.length - 1)
      have hlen : ((run.map some).take (alignDown blockSize align run.length)).length =
          alignDown blockSize align run.length := by
        rw [length_take, length_map, Nat.min_eq_left hdown]
      refine ⟨0, run, alignDown blockSize align (alignDown blockSize align run.length - 1), ?_, ?_,
        ok, alignDown_dvd _ _ _, .inl rfl⟩
      · rw [← Except.ok.inj hit]
        rw [dropLast_eq_take, take_take, hlen, take_take]
        congr 1
        omega
      · simp only [if_true]
        omega

theorem mambaScan_spec {m : Nat}
    (scan : mambaScan lookup blockSize align m = .ok (some (i, blocks))) :
    i < m ∧ lookup i = .ok (some blocks) ∧ align ∣ (i + 1) * blockSize := by
  induction m with
  | zero => simp [mambaScan] at scan
  | succ m ih =>
    rw [mambaScan] at scan
    split at scan
    · cases scan
    · obtain ⟨hlt, hrest⟩ := ih scan
      exact ⟨hlt.trans (lt_succ_self m), hrest⟩
    rename_i found hlookup
    split at scan
    · obtain ⟨hlt, hrest⟩ := ih scan
      exact ⟨hlt.trans (lt_succ_self m), hrest⟩
    rename_i hstop
    simp only [ok.injEq, some.injEq, Prod.mk.injEq] at scan
    obtain ⟨rfl, rfl⟩ := scan
    refine ⟨lt_succ_self m, hlookup, ?_⟩
    by_cases heq : blockSize = align
    · exact heq ▸ Nat.dvd_mul_left _ _
    · exact dvd_of_mod_eq_zero (by_contra fun hmod => hstop ⟨heq, hmod⟩)

/-- A Mamba lookup returns nothing, or null blocks and the state at an aligned length. -/
theorem mambaHit_spec (hit : mambaHit lookup blockSize align maxLength = .ok rows) :
    rows = [] ∨ ∃ i blocks, rows = runRows i [blocks] ∧ lookup i = .ok (some blocks) ∧
      LengthOk blockSize align maxLength false (i + 1) := by
  unfold mambaHit at hit
  split at hit
  · cases hit
  · exact .inl (ok.inj hit).symm
  rename_i i blocks scan
  obtain ⟨hlt, hlookup, haligned⟩ := mambaScan_spec scan
  refine .inr ⟨i, blocks, (ok.inj hit).symm, hlookup, ?_⟩
  refine lengthOk_of_le haligned (.inl ?_)
  exact hlt

/-- The blocks that a group must have to compute the token behind `n` blocks: all of them
for full attention, those that overlap the last `window - 1` tokens for a sliding window,
the last one for Mamba. -/
def NeededBlock (spec : KVCacheSpec) (n i : Nat) : Prop :=
  match spec.kind with
  | .fullAttention | .rswa _ => i < n
  | .slidingWindow window => i < n ∧ n * spec.blockSize < (i + 1) * spec.blockSize + (window - 1)
  | .mamba _ _ => i + 1 = n
  | .chunkedLocal _ | .crossAttention => False

def KVCacheSpec.IsHybridKind (spec : KVCacheSpec) : Prop :=
  match spec.kind with
  | .fullAttention | .rswa _ | .slidingWindow _ | .mamba _ _ => True
  | .chunkedLocal _ | .crossAttention => False

def KVCacheSpec.isMamba (spec : KVCacheSpec) : Bool :=
  match spec.kind with
  | .mamba _ _ => true
  | _ => false

structure HitOk (spec : KVCacheSpec) (lookup : Lookup) (align maxLength : Nat) (drop : Bool)
    (rows : List Row) : Prop where
  length : LengthOk spec.blockSize align maxLength (drop && !spec.isMamba) rows.length
  found : RowsFound lookup rows
  needed : ∀ i, NeededBlock spec rows.length i → ∃ blocks, rows[i]? = some (some blocks)

theorem lt_of_neededBlock (h : NeededBlock spec n i) : i < n := by
  unfold NeededBlock at h
  split at h
  · exact h
  · exact h
  · exact h.1
  · omega
  · exact h.elim
  · exact h.elim

theorem neededBlock_fullAttention (hfull : spec.isFullAttention = true) :
    NeededBlock spec n i ↔ i < n := by
  unfold isFullAttention at hfull
  unfold NeededBlock
  split at hfull <;> simp_all

/-- The window reaches back over `cdiv (window - 1)` blocks. -/
theorem neededBlock_slidingWindow (hkind : spec.kind = .slidingWindow window)
    (hpos : 0 < spec.blockSize) :
    NeededBlock spec n k ↔ k < n ∧ n ≤ k + PySeq.cdiv (window - 1) spec.blockSize := by
  simp only [NeededBlock, hkind]
  refine and_congr_right fun hk => ?_
  have hback := PySeq.lt_cdiv_iff (a := window - 1) hpos (n - (k + 1))
  have hle : (k + 1) * spec.blockSize ≤ n * spec.blockSize := Nat.mul_le_mul_right _ hk
  rw [Nat.sub_mul] at hback
  omega

theorem slidingWindowHit_ok (hkind : spec.kind = .slidingWindow window) (hpos : 0 < spec.blockSize)
    (hit : slidingWindowHit lookup window spec.blockSize align maxLength drop = .ok rows) :
    HitOk spec lookup align maxLength drop rows := by
  obtain ⟨i, run, n, rfl, hn, ok, haligned, hwindow⟩ := slidingWindowHit_spec hit
  have hlen : ((runRows i run).take n).length = n := by
    rw [length_take, runRows_length]
    omega
  refine ⟨?_, ok.rowsFound n, ?_⟩
  · rw [hlen]
    simpa [isMamba, hkind] using
      lengthOk_of_le haligned (hn.imp_left fun h => h.trans ok.fits)
  · intro k hneeded
    rw [hlen] at hneeded
    obtain ⟨hk, hback⟩ := (neededBlock_slidingWindow hkind hpos).mp hneeded
    have hrun : i ≤ k := by omega
    have hget : k - i < run.length := by omega
    refine ⟨run[k - i], ?_⟩
    rw [getElem?_take, if_pos hk, runRows_getElem?, if_neg (Nat.not_lt.mpr hrun),
      getElem?_eq_getElem hget]
    rfl

theorem mambaHit_ok {mode : MambaCacheMode} {numSpec : Nat}
    (hkind : spec.kind = .mamba mode numSpec)
    (hit : mambaHit lookup spec.blockSize align maxLength = .ok rows) :
    HitOk spec lookup align maxLength drop rows := by
  have hmamba : spec.isMamba = true := by simp [isMamba, hkind]
  rcases mambaHit_spec hit with rfl | ⟨i, blocks, rfl, hlookup, hlength⟩
  · refine ⟨?_, fun k blocks hk => by simp at hk, ?_⟩
    · exact lengthOk_of_le (by simp) (.inr rfl)
    · intro k hneeded
      simp [NeededBlock, hkind] at hneeded
  · refine ⟨by simpa [hmamba] using hlength, ?_, ?_⟩
    · intro k found hk
      rw [runRows_getElem?] at hk
      split at hk
      · cases hk
      obtain ⟨b, hb, hsame⟩ := map_eq_some_iff.mp hk
      have hki : k = i := by
        have := (List.getElem?_eq_some_iff.mp hb).1
        simp only [length_singleton] at this
        omega
      subst hki
      simp only [Nat.sub_self, getElem?_cons_zero, some.injEq] at hb hsame
      rw [hlookup, hb, hsame]
    · intro k hneeded
      simp only [NeededBlock, hkind, runRows_length, length_singleton] at hneeded
      obtain rfl : k = i := by omega
      exact ⟨blocks, by rw [runRows_getElem?]; simp⟩

theorem fullAttentionHit_ok (lookup : Lookup) (align maxLength : Nat) (drop : Bool)
    (hfull : spec.isFullAttention = true) :
    HitOk spec lookup align maxLength drop
      (fullAttentionHit lookup spec.blockSize align maxLength drop) := by
  have hmamba : spec.isMamba = false := by
    simp only [isFullAttention] at hfull
    unfold isMamba
    split at hfull <;> simp_all
  refine ⟨?_, ?_, ?_⟩
  · simpa [hmamba] using fullAttentionHit_length lookup spec.blockSize align maxLength drop
  · intro i blocks hi
    obtain ⟨found, hrow, hlookup⟩ := fullAttentionHit_getElem? hi
    rw [hlookup, some.inj hrow]
  · intro i hneeded
    have hi := (neededBlock_fullAttention hfull).mp hneeded
    obtain ⟨blocks, hrow, -⟩ := fullAttentionHit_getElem? (getElem?_eq_getElem hi)
    exact ⟨blocks, by rw [getElem?_eq_getElem hi, hrow]⟩

/-- One statement for the lookups of all hybrid kinds. -/
theorem managerHit_ok (hkind : spec.IsHybridKind) (hpos : 0 < spec.blockSize)
    (hit : managerHit spec lookup align maxLength drop = .ok rows) :
    HitOk spec lookup align maxLength drop rows := by
  unfold managerHit at hit
  split at hit
  · rename_i h
    rw [← ok.inj hit]
    exact fullAttentionHit_ok lookup align maxLength drop (by simp [isFullAttention, h])
  · rename_i h
    rw [← ok.inj hit]
    exact fullAttentionHit_ok lookup align maxLength drop (by simp [isFullAttention, h])
  · rename_i window h
    exact slidingWindowHit_ok h hpos hit
  · rename_i h
    simp [IsHybridKind, h] at hkind
  · rename_i mode numSpec h
    exact mambaHit_ok h hit
  · cases hit

end Vllm.KVCache
