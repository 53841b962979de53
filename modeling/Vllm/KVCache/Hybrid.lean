import Vllm.KVCache.CacheHit

/-! `HybridKVCacheCoordinator.find_longest_cache_hit`
(`vllm/v1/core/kv_cache_coordinator.py`): the fixed-point loop over the attention groups of
a hybrid model, and when its answer can be served by every group. -/
namespace Vllm.KVCache
open Except Function Nat

structure KVCacheGroupSpec where
  spec : KVCacheSpec
  isEagleGroup : Bool := false
  deriving DecidableEq, Repr

/-- `SpecGroup`: the KV-cache groups that share a spec. The manager class is that of the spec. -/
structure SpecGroup where
  spec : KVCacheSpec
  groupIds : List GroupId
  useEagle : Bool
  deriving DecidableEq, Repr

/-- The inner `for ... else` of `verify_and_split_kv_cache_groups`. -/
def addGroup (i : GroupId) (spec : KVCacheSpec) (useEagle : Bool) : List SpecGroup → List SpecGroup
  | [] => [⟨spec, [i], useEagle⟩]
  | g :: rest =>
    if g.spec = spec then
      { g with groupIds := g.groupIds ++ [i], useEagle := g.useEagle || useEagle } :: rest
    else g :: addGroup i spec useEagle rest

structure KVCacheConfig where
  groups : List KVCacheGroupSpec
  useEagle : Bool
  schedulerBlockSize : Nat
  hashBlockSize : Nat
  deriving DecidableEq, Repr

namespace KVCacheConfig

variable (cfg : KVCacheConfig)

/-- Membership in `eagle_group_ids`, with the fall-back to all groups. -/
def isEagle (g : KVCacheGroupSpec) : Bool :=
  g.isEagleGroup || (cfg.useEagle && cfg.groups.all fun g => !g.isEagleGroup)

def splitGroups : List SpecGroup :=
  cfg.groups.zipIdx.foldl (fun acc p => addGroup p.2 p.1.spec (cfg.isEagle p.1) acc) []

/-- `attention_groups`: full attention is sorted to the front. -/
def attentionGroups : List SpecGroup :=
  cfg.splitGroups.filter (·.spec.isFullAttention) ++
    cfg.splitGroups.filter (!·.spec.isFullAttention)

end KVCacheConfig

/-- A configuration that the constructor accepts. Group ids must fit the four bytes of a key. -/
structure HybridConfig extends KVCacheConfig where
  hash_pos : 0 < hashBlockSize
  scheduler_pos : 0 < schedulerBlockSize
  block_pos : ∀ g ∈ groups, 0 < g.spec.blockSize
  hash_dvd : ∀ g ∈ groups, hashBlockSize ∣ g.spec.blockSize
  scheduler_dvd : ∀ g ∈ groups, g.spec.blockSize ∣ schedulerBlockSize
  kinds : ∀ g ∈ groups, g.spec.IsHybridKind
  two_groups : 1 < toKVCacheConfig.attentionGroups.length
  ids_fit : groups.length ≤ 2 ^ 32

/-- The variables of the loop; `hits` is indexed by attention group. -/
structure LoopState where
  currHitLength : Nat
  eagleVerified : List Nat := []
  hits : Nat → Option (List Row) := fun _ => none
  longestHitLength : Nat := 0

structure HitQuery where
  pool : BlockPool
  hashes : List BlockHash
  maxCacheHitLength : Nat

namespace KVCacheConfig

variable (cfg : KVCacheConfig) (q : HitQuery)

def lookup (g : SpecGroup) : Lookup :=
  poolLookup q.pool cfg.hashBlockSize g.spec.blockSize q.hashes g.groupIds

/-- One pass of the `for` loop body. -/
def visitGroup (idx : Nat) (g : SpecGroup) (st : LoopState) : Except HitError LoopState :=
  let blockSize := g.spec.blockSize
  if g.spec.isFullAttention ∧ (st.hits idx).isSome then
    .ok { st with currHitLength := st.currHitLength / blockSize * blockSize }
  else
    let drop := g.useEagle && !st.eagleVerified.contains idx
    let maxLength :=
      if drop then min (st.currHitLength + blockSize) q.maxCacheHitLength else st.currHitLength
    match managerHit g.spec (cfg.lookup q g) cfg.schedulerBlockSize maxLength drop with
    | .error e => .error e
    | .ok rows =>
      let newHitLength := rows.length * blockSize
      .ok
        { currHitLength := newHitLength
          eagleVerified :=
            if drop then idx :: st.eagleVerified
            else if newHitLength < st.currHitLength then [] else st.eagleVerified
          hits := update st.hits idx (some rows)
          longestHitLength := max st.longestHitLength newHitLength }

def visitGroups (cfg : KVCacheConfig) (q : HitQuery) :
    List SpecGroup → Nat → LoopState → Except HitError LoopState
  | [], _, st => .ok st
  | g :: gs, idx, st =>
    match cfg.visitGroup q idx g st with
    | .error e => .error e
    | .ok st => cfg.visitGroups q gs (idx + 1) st

def isSimpleHybrid : Bool :=
  cfg.attentionGroups.length == 2 &&
    (cfg.attentionGroups.head?.any fun g => g.spec.isFullAttention)

/-- The `while True` loop. The hit length shrinks in every round that does not end it. -/
def hitLoop (cfg : KVCacheConfig) (q : HitQuery) :
    Nat → Nat → LoopState → Except HitError (LoopState × Nat)
  | 0, _, _ => .error .outOfFuel
  | fuel + 1, hitLength, st =>
    match cfg.visitGroups q cfg.attentionGroups 0 { st with currHitLength := hitLength } with
    | .error e => .error e
    | .ok st =>
      if st.currHitLength ≥ hitLength then .ok (st, hitLength)
      else if cfg.isSimpleHybrid then .ok (st, st.currHitLength)
      else cfg.hitLoop q fuel st.currHitLength st

/-- The list of the `k`-th group id in the rows of its attention group. -/
def column (rows : List Row) (k : Nat) : List BlockId :=
  rows.map fun row => (row.getD []).getD k nullBlock

/-- Only the first attention group is cut to the final length, if it is full attention. -/
def finalHits (st : LoopState) (hitLength : Nat) : Nat → Option (List Row) :=
  match cfg.attentionGroups.head? with
  | some first =>
    if first.spec.isFullAttention then
      update st.hits 0 ((st.hits 0).map (·.take (hitLength / first.spec.blockSize)))
    else st.hits
  | none => st.hits

def findGroup (gid : GroupId) : Option (SpecGroup × Nat) :=
  cfg.attentionGroups.zipIdx.find? fun p => gid ∈ p.1.groupIds

def groupBlocks (hits : Nat → Option (List Row)) (gid : GroupId) : List BlockId :=
  match cfg.findGroup gid with
  | none => []
  | some (g, idx) =>
    match hits idx with
    | none => []
    | some rows => column rows (g.groupIds.idxOf gid)

def findLongestCacheHit : Except HitError (List (List BlockId) × Nat) :=
  match cfg.hitLoop q (q.maxCacheHitLength + 1) q.maxCacheHitLength
      { currHitLength := q.maxCacheHitLength } with
  | .error e => .error e
  | .ok (st, hitLength) =>
    .ok ((List.range cfg.groups.length).map (cfg.groupBlocks (cfg.finalHits st hitLength)),
      hitLength)

end KVCacheConfig
/-! ### The loop ends

The only errors are those of the lookups. -/

variable {e : HitError} {lookup : Lookup} {align : Nat} {drop : Bool}

theorem windowScan_error {blockSize need : Nat} {i : Nat} {run : List (List BlockId)}
    (h : windowScan lookup blockSize align need drop i run = .error e) :
    ∃ k < i, lookup k = .error e := by
  induction i generalizing run with
  | zero => cases h
  | succ i ih =>
    have hrest : ∀ {run'}, windowScan lookup blockSize align need drop i run' = .error e →
        ∃ k < i + 1, lookup k = .error e := by
      intro run' h'
      obtain ⟨k, hk, hlookup⟩ := ih h'
      exact ⟨k, hk.trans (lt_succ_self i), hlookup⟩
    rw [windowScan] at h
    split at h
    · rename_i e' hlookup
      exact ⟨i, lt_succ_self i, by rw [hlookup, error.inj h]⟩
    · exact hrest h
    by_cases hskip : run = [] ∧ blockSize ≠ align ∧
        (if drop then i else i + 1) * blockSize % align ≠ 0
    · rw [if_pos hskip] at h
      exact hrest h
    · rw [if_neg hskip] at h
      split at h
      · cases h
      · exact hrest h

theorem mambaScan_error {blockSize m : Nat} (h : mambaScan lookup blockSize align m = .error e) :
    ∃ k < m, lookup k = .error e := by
  induction m with
  | zero => cases h
  | succ m ih =>
    have hrest : mambaScan lookup blockSize align m = .error e →
        ∃ k < m + 1, lookup k = .error e := by
      intro h'
      obtain ⟨k, hk, hlookup⟩ := ih h'
      exact ⟨k, hk.trans (lt_succ_self m), hlookup⟩
    rw [mambaScan] at h
    split at h
    · rename_i e' hlookup
      exact ⟨m, lt_succ_self m, by rw [hlookup, error.inj h]⟩
    · exact hrest h
    · split at h
      · exact hrest h
      · cases h

theorem chunkScan_error {i n : Nat} (h : chunkScan lookup i n = .error e) :
    ∃ k, i ≤ k ∧ k < i + n ∧ lookup k = .error e := by
  induction n generalizing i with
  | zero => cases h
  | succ n ih =>
    rw [chunkScan] at h
    split at h
    · rename_i e' hlookup
      exact ⟨i, le_rfl, by omega, by rw [hlookup, error.inj h]⟩
    · cases h
    simp only [Except.map] at h
    split at h
    · rename_i e' hrest
      obtain ⟨k, hk, hk', hlookup⟩ := ih (i := i + 1) (by rw [hrest, error.inj h])
      exact ⟨k, by omega, by omega, hlookup⟩
    · cases h

theorem managerHit_error {spec : KVCacheSpec} {maxLength : Nat}
    (h : managerHit spec lookup align maxLength drop = .error e) :
    (∃ k < maxLength / spec.blockSize, lookup k = .error e) ∨
      (e ≠ .outOfFuel ∧ ¬ spec.IsHybridKind) := by
  unfold managerHit at h
  split at h
  · cases h
  · cases h
  · unfold slidingWindowHit at h
    split at h
    · rename_i e' hscan
      exact .inl (windowScan_error (by rw [hscan, error.inj h]))
    · cases drop with
      | false => cases h
      | true => cases h
  · rename_i hkind
    unfold chunkedLocalHit at h
    split at h
    · exact .inr ⟨by rw [← error.inj h]; decide, by simp [KVCacheSpec.IsHybridKind, hkind]⟩
    simp only [Except.map] at h
    split at h
    · rename_i e' hscan
      obtain ⟨k, hk, hk', hlookup⟩ := chunkScan_error (by rw [hscan, error.inj h])
      exact .inl ⟨k, by omega, hlookup⟩
    · cases h
  · unfold mambaHit at h
    split at h
    · rename_i e' hscan
      exact .inl (mambaScan_error (by rw [hscan, error.inj h]))
    · cases h
    · cases h
  · rename_i hkind
    exact .inr ⟨by rw [← error.inj h]; decide, by simp [KVCacheSpec.IsHybridKind, hkind]⟩

/-! ### Rules for the loop -/

section Rules

variable {cfg : KVCacheConfig} {q : HitQuery} {g : SpecGroup} {idx k : Nat}
variable {st st' : LoopState} {rows : List Row}

/-- The bound a lookup is given, when `drop` says that the EAGLE drop applies. -/
def lookupBound (q : HitQuery) (g : SpecGroup) (curr : Nat) (drop : Bool) : Nat :=
  if drop then min (curr + g.spec.blockSize) q.maxCacheHitLength else curr

/-- Whether a visit of group `idx` applies the EAGLE drop. -/
def dropsAt (idx : Nat) (g : SpecGroup) (st : LoopState) : Bool :=
  g.useEagle && !st.eagleVerified.contains idx

theorem dropsAt_eq_false (h : g.useEagle = true → idx ∈ st.eagleVerified) :
    dropsAt idx g st = false := by
  cases hg : g.useEagle with
  | false => simp [dropsAt, hg]
  | true => simp [dropsAt, h hg]

def LoopState.found (st : LoopState) (idx : Nat) (g : SpecGroup) (rows : List Row) : LoopState where
  currHitLength := rows.length * g.spec.blockSize
  eagleVerified :=
    if dropsAt idx g st then idx :: st.eagleVerified
    else if rows.length * g.spec.blockSize < st.currHitLength then [] else st.eagleVerified
  hits := update st.hits idx (some rows)
  longestHitLength := max st.longestHitLength (rows.length * g.spec.blockSize)

theorem visitGroup_trim (hfull : g.spec.isFullAttention = true)
    (hsome : (st.hits idx).isSome = true) :
    cfg.visitGroup q idx g st =
      .ok { st with currHitLength := st.currHitLength / g.spec.blockSize * g.spec.blockSize } := by
  simp [KVCacheConfig.visitGroup, hfull, hsome]

theorem visitGroup_eq (hnew : ¬ (g.spec.isFullAttention = true ∧ (st.hits idx).isSome = true)) :
    cfg.visitGroup q idx g st =
      (managerHit g.spec (cfg.lookup q g) cfg.schedulerBlockSize
        (lookupBound q g st.currHitLength (dropsAt idx g st)) (dropsAt idx g st)).map
        (st.found idx g) := by
  unfold KVCacheConfig.visitGroup
  simp only [hnew, if_false]
  unfold lookupBound dropsAt
  split
  · rename_i hhit
    rw [hhit]
    rfl
  · rename_i hhit
    rw [hhit]
    rfl

theorem visitGroup_lookup
    (hnew : ¬ (g.spec.isFullAttention = true ∧ (st.hits idx).isSome = true))
    (hhit : managerHit g.spec (cfg.lookup q g) cfg.schedulerBlockSize
      (lookupBound q g st.currHitLength (dropsAt idx g st)) (dropsAt idx g st) = .ok rows) :
    cfg.visitGroup q idx g st = .ok (st.found idx g rows) := by
  rw [visitGroup_eq hnew, hhit]
  rfl

/-- A visit trims a full-attention result found before, or looks the group up. -/
theorem visitGroup_cases (h : cfg.visitGroup q idx g st = .ok st') :
    (g.spec.isFullAttention = true ∧ (st.hits idx).isSome ∧
        st' = { st with currHitLength :=
          st.currHitLength / g.spec.blockSize * g.spec.blockSize }) ∨
      (¬ (g.spec.isFullAttention = true ∧ (st.hits idx).isSome) ∧
        ∃ rows, managerHit g.spec (cfg.lookup q g) cfg.schedulerBlockSize
            (lookupBound q g st.currHitLength (dropsAt idx g st)) (dropsAt idx g st) = .ok rows ∧
          st' = st.found idx g rows) := by
  by_cases hskip : g.spec.isFullAttention = true ∧ (st.hits idx).isSome
  · rw [visitGroup_trim hskip.1 hskip.2] at h
    exact .inl ⟨hskip.1, hskip.2, (ok.inj h).symm⟩
  rw [visitGroup_eq hskip] at h
  obtain ⟨rows, hhit, rfl⟩ := Run.map_eq_ok h
  exact .inr ⟨hskip, rows, hhit, rfl⟩

theorem visitGroup_error (h : cfg.visitGroup q idx g st = .error e) :
    managerHit g.spec (cfg.lookup q g) cfg.schedulerBlockSize
      (lookupBound q g st.currHitLength (dropsAt idx g st)) (dropsAt idx g st) = .error e := by
  by_cases hskip : g.spec.isFullAttention = true ∧ (st.hits idx).isSome
  · rw [visitGroup_trim hskip.1 hskip.2] at h
    cases h
  rw [visitGroup_eq hskip] at h
  simp only [Except.map] at h
  split at h
  · rename_i hhit
    exact hhit.trans (congrArg _ (error.inj h))
  · cases h

theorem found_hits_of_ne (g : SpecGroup) (rows : List Row) (hk : k ≠ idx) :
    (st.found idx g rows).hits k = st.hits k :=
  update_of_ne hk _ _

theorem found_hits_self (st : LoopState) (idx : Nat) (g : SpecGroup) (rows : List Row) :
    (st.found idx g rows).hits idx = some rows :=
  update_self ..

/-- The rows of a group after a visit are the new ones, or those it had. -/
theorem found_hits_cases (hg : cfg.attentionGroups[idx]? = some g) {a : SpecGroup}
    (ha : cfg.attentionGroups[k]? = some a) {found : List Row}
    (h : (st.found idx g rows).hits k = some found) :
    (k = idx ∧ a = g ∧ found = rows) ∨ (k ≠ idx ∧ st.hits k = some found) := by
  by_cases hk : k = idx
  · subst hk
    rw [found_hits_self] at h
    exact .inl ⟨rfl, Option.some.inj (ha.symm.trans hg), (Option.some.inj h).symm⟩
  · rw [found_hits_of_ne g rows hk] at h
    exact .inr ⟨hk, h⟩

/-- Only the first group is cut at the end, and only if it is full attention. -/
theorem finalHits_eq_hits (hk : cfg.attentionGroups[k]? = some g)
    (hnot : ¬ (k = 0 ∧ g.spec.isFullAttention = true)) (st : LoopState) (L : Nat) :
    cfg.finalHits st L k = st.hits k := by
  unfold KVCacheConfig.finalHits
  cases hhead : cfg.attentionGroups.head? with
  | none => rfl
  | some first =>
    by_cases hfull : first.spec.isFullAttention = true
    · simp only [hfull, if_true]
      refine update_of_ne ?_ _ _
      rintro rfl
      rw [List.head?_eq_getElem?, hk] at hhead
      exact hnot ⟨rfl, Option.some.inj hhead ▸ hfull⟩
    · simp only [hfull, Bool.false_eq_true, if_false]

def KVCacheConfig.loopWith (cfg : KVCacheConfig) (shortcut : Bool) (q : HitQuery) :
    Nat → Nat → LoopState → Except HitError (LoopState × Nat)
  | 0, _, _ => .error .outOfFuel
  | fuel + 1, hitLength, st =>
    match cfg.visitGroups q cfg.attentionGroups 0 { st with currHitLength := hitLength } with
    | .error e => .error e
    | .ok st =>
      if st.currHitLength ≥ hitLength then .ok (st, hitLength)
      else if shortcut then .ok (st, st.currHitLength)
      else cfg.loopWith shortcut q fuel st.currHitLength st

theorem hitLoop_eq_loopWith (fuel H : Nat) (st : LoopState) :
    cfg.hitLoop q fuel H st = cfg.loopWith cfg.isSimpleHybrid q fuel H st := by
  induction fuel generalizing H st with
  | zero => rfl
  | succ fuel ih =>
    simp only [KVCacheConfig.hitLoop, KVCacheConfig.loopWith, ih]

section
variable {P : Nat → Nat → LoopState → Prop} {E : HitError → Prop}
  (step : ∀ {H k g st st'}, cfg.attentionGroups[k]? = some g → P H k st →
    cfg.visitGroup q k g st = .ok st' → P H (k + 1) st')
  (raise : ∀ {H k g st e}, cfg.attentionGroups[k]? = some g → P H k st →
    cfg.visitGroup q k g st = .error e → E e)
include step raise

/-- What every visit keeps holds at the end of a round; what a visit may raise, a round may. -/
theorem visitGroups_rule {H : Nat} (start : P H 0 st) :
    match cfg.visitGroups q cfg.attentionGroups 0 st with
    | .ok st' => P H cfg.attentionGroups.length st'
    | .error e => E e := by
  have hrest : ∀ (gs : List SpecGroup) (idx : Nat) (st : LoopState),
      (∀ k, gs[k]? = cfg.attentionGroups[idx + k]?) → P H idx st →
      match cfg.visitGroups q gs idx st with
      | .ok st' => P H (idx + gs.length) st'
      | .error e => E e := by
    intro gs
    induction gs with
    | nil => exact fun idx st _ h => h
    | cons g gs ih =>
      intro idx st hgs h
      have hg : cfg.attentionGroups[idx]? = some g := (hgs 0).symm
      rw [KVCacheConfig.visitGroups]
      cases hvisit : cfg.visitGroup q idx g st with
      | error e => exact raise hg h hvisit
      | ok st₁ =>
        have hall := ih (idx + 1) st₁
          (fun k => by rw [succ_add_eq_add_succ, ← hgs (k + 1)]; rfl) (step hg h hvisit)
        rwa [succ_add_eq_add_succ] at hall
  have hall := hrest _ 0 st (fun k => by rw [Nat.zero_add]) start
  rwa [Nat.zero_add] at hall

/-- The loop ends in a round that did not shorten the hit, or with its exit after the first. -/
theorem loopWith_rule {shortcut : Bool}
    (next : ∀ {H st}, P H cfg.attentionGroups.length st → st.currHitLength < H →
      shortcut = false → P st.currHitLength 0 st) (st : LoopState) {fuel H : Nat} (hfuel : H < fuel)
    (start : P H 0 { st with currHitLength := H }) :
    match cfg.loopWith shortcut q fuel H st with
    | .error e => E e
    | .ok (st', L) => ∃ H, P H cfg.attentionGroups.length st' ∧
        (L = H ∧ H ≤ st'.currHitLength ∨ shortcut = true ∧ L = st'.currHitLength ∧ L < H) := by
  induction fuel generalizing H st with
  | zero => exact absurd hfuel (Nat.not_lt_zero H)
  | succ fuel ih =>
    have hround := visitGroups_rule (P := P) step raise start
    rw [KVCacheConfig.loopWith]
    split at hround
    · rename_i st₁ hvisits
      rw [hvisits]
      dsimp only
      by_cases hge : st₁.currHitLength ≥ H
      · rw [if_pos hge]
        exact ⟨H, hround, .inl ⟨rfl, hge⟩⟩
      rw [if_neg hge]
      cases hshortcut : shortcut with
      | true => exact ⟨H, hround, .inr ⟨rfl, rfl, Nat.lt_of_not_le hge⟩⟩
      | false =>
        subst hshortcut
        exact ih st₁ (by omega) (next hround (Nat.lt_of_not_le hge) rfl)
    · rename_i e hvisits
      rw [hvisits]
      exact hround

theorem findLongestCacheHit_rule
    (next : ∀ {H st}, P H cfg.attentionGroups.length st → st.currHitLength < H →
      cfg.isSimpleHybrid = false → P st.currHitLength 0 st)
    (start : P q.maxCacheHitLength 0 { currHitLength := q.maxCacheHitLength }) :
    match cfg.findLongestCacheHit q with
    | .error e => E e
    | .ok (blocks, L) => ∃ H st, P H cfg.attentionGroups.length st ∧
        blocks = (List.range cfg.groups.length).map (cfg.groupBlocks (cfg.finalHits st L)) ∧
        (L = H ∧ H ≤ st.currHitLength ∨
          cfg.isSimpleHybrid = true ∧ L = st.currHitLength ∧ L < H) := by
  have hloop := loopWith_rule (P := P) step raise next { currHitLength := q.maxCacheHitLength }
    (lt_succ_self q.maxCacheHitLength) start
  rw [← hitLoop_eq_loopWith] at hloop
  unfold KVCacheConfig.findLongestCacheHit
  split at hloop
  · rename_i hresult
    rw [hresult]
    exact hloop
  · rename_i st L hresult
    rw [hresult]
    obtain ⟨H, hend, hlength⟩ := hloop
    exact ⟨H, st, hend, rfl, hlength⟩

end

end Rules

/-- Full attention or a window, and a window, over blocks of one token. -/
def windowHybrid (full : Bool) (window : Nat) (eagle : Bool × Bool) : HybridConfig where
  groups :=
    [⟨⟨1, if full then .fullAttention else .slidingWindow 2, 0⟩, eagle.1⟩,
      ⟨⟨1, .slidingWindow window, 1⟩, eagle.2⟩]
  useEagle := eagle.1
  schedulerBlockSize := 1
  hashBlockSize := 1
  hash_pos := Nat.one_pos
  scheduler_pos := Nat.one_pos
  block_pos := by simp
  hash_dvd := by simp
  scheduler_dvd := by simp
  kinds := by cases full <;> simp [KVCacheSpec.IsHybridKind]
  two_groups := by
    cases full <;> simp [KVCacheConfig.attentionGroups, KVCacheConfig.splitGroups, addGroup,
      KVCacheSpec.isFullAttention]
  ids_fit := by simp

/-- A prompt of six blocks, of which the pool holds those named for the two groups. -/
def heldFor (first second : List Nat) : HitQuery where
  pool :=
    { numGpuBlocks := 13
      enableCaching := true
      hashBlockSize := 1
      cached := fun key => (List.range 6).flatMap fun i =>
        (if i ∈ first ∧ key = makeBlockHashWithGroupId [.ofNat i] 0 then [1 + i] else []) ++
          if i ∈ second ∧ key = makeBlockHashWithGroupId [.ofNat i] 1 then [7 + i] else [] }
  hashes := (List.range 6).map ([.ofNat ·])
  maxCacheHitLength := 6

end Vllm.KVCache
