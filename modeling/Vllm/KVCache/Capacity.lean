import Vllm.KVCache.ManagerRuns

/-! The capacity predictor of the attention managers is exact: what it returns is what the
three allocation phases take from the free queue. -/
namespace Vllm.KVCache
open BlockPool List PySeq

/-! ### Touching hits -/

theorem numEvictable_cons (pool : BlockPool) (b : BlockId) (bs : List BlockId) :
    numEvictable pool (b :: bs) =
      numEvictable pool bs + if pool.refCnt b = 0 ∧ b ≠ nullBlock then 1 else 0 := by
  rw [numEvictable, countP_cons, numEvictable]
  simp only [decide_eq_true_eq]

variable {bs : List BlockId} {b : BlockId}

theorem numEvictable_congr {pool pool' : BlockPool}
    (h : ∀ b ∈ bs, b ≠ nullBlock → pool'.refCnt b = pool.refCnt b) :
    numEvictable pool' bs = numEvictable pool bs := by
  refine countP_congr fun b hb => ?_
  simp only [decide_eq_true_eq]
  constructor
  · rintro ⟨hzero, hnull⟩
    exact ⟨h b hb hnull ▸ hzero, hnull⟩
  · rintro ⟨hzero, hnull⟩
    exact ⟨(h b hb hnull).trans hzero, hnull⟩

theorem retain_of_not_mem {cnt : BlockId → Int} (h : b ∉ bs) :
    RefCount.retain cnt bs b = cnt b := by
  rw [RefCount.retain_apply, count_eq_zero_of_not_mem h]
  omega

variable {held : List BlockId} {cost : Nat → Group → Int} {numTokens : Nat}

/-- Touching distinct blocks takes exactly the evictable ones from the queue. -/
theorem touch_numFree (bs : List BlockId) {pool pool' : BlockPool} (sound : pool.Sound held)
    (hlive : ∀ b ∈ bs, b = nullBlock ∨ pool.IsLive b) (hnodup : (bs.filter (· ≠ nullBlock)).Nodup)
    (h : pool.touch bs = .ok pool') :
    pool'.numFreeBlocks = pool.numFreeBlocks - numEvictable pool bs := by
  induction bs generalizing pool held with
  | nil =>
    cases h
    simp [numEvictable]
  | cons b bs ih =>
    have hb := hlive b mem_cons_self
    rw [touch_cons sound hb] at h
    have hrest : (bs.filter (· ≠ nullBlock)).Nodup := by
      rw [filter_cons] at hnodup
      split at hnodup
      · exact (nodup_cons.mp hnodup).2
      · exact hnodup
    have hstep := ih (sound.share hb) (fun c hc => hlive c (mem_cons_of_mem b hc)) hrest h
    -- the counts of the other hits are as before
    have hsame : numEvictable (pool.shared b) bs = numEvictable pool bs := by
      refine numEvictable_congr fun c hc hnull => retain_of_not_mem ?_
      rw [mem_singleton]
      rintro rfl
      rw [filter_cons, if_pos (by simpa using hnull)] at hnodup
      exact (nodup_cons.mp hnodup).1 (mem_filter.mpr ⟨hc, by simpa using hnull⟩)
    have hmem := sound.mem_freeQueue hb
    rw [hstep, hsame, numEvictable_cons, sound.numFree]
    simp only [shared]
    by_cases hfree : pool.refCnt b = 0 ∧ b ≠ nullBlock
    · have hpos := length_pos_of_mem (hmem.mpr hfree)
      rw [length_erase_of_mem (hmem.mpr hfree), if_pos hfree]
      omega
    · rw [erase_of_not_mem (mt hmem.mp hfree), if_neg hfree, Nat.add_zero]

/-! ### Loops that spend free blocks -/

def groupSum (cost : Nat → Group → Int) : Nat → List Group → Int
  | _, [] => 0
  | i, g :: gs => cost i g + groupSum cost (i + 1) gs

theorem groupSum_nonneg (cost : Nat → Group → Int) (h : ∀ i g, 0 ≤ cost i g) (i : Nat)
    (gs : List Group) : 0 ≤ groupSum cost i gs := by
  induction gs generalizing i with
  | nil => exact Int.le_refl 0
  | cons g gs ih =>
    have hg := h i g
    have hgs := ih (i + 1)
    rw [groupSum]
    omega

theorem groupSum_add (cost cost' : Nat → Group → Int) (i : Nat) (gs : List Group) :
    groupSum (fun i g => cost i g + cost' i g) i gs = groupSum cost i gs + groupSum cost' i gs := by
  induction gs generalizing i with
  | nil => rfl
  | cons g gs ih =>
    simp only [groupSum, ih]
    omega

theorem groupSum_congr {cost' : Nat → Group → Int} (gs gs' : List Group) (i : Nat)
    (hlen : gs.length = gs'.length)
    (h : ∀ k g g', gs[k]? = some g → gs'[k]? = some g' → cost (i + k) g = cost' (i + k) g') :
    groupSum cost i gs = groupSum cost' i gs' := by
  induction gs generalizing i gs' with
  | nil =>
    obtain rfl := length_eq_zero_iff.mp hlen.symm
    rfl
  | cons g gs ih =>
    cases gs' with
    | nil => cases hlen
    | cons g' gs' =>
      have hhead := h 0 g g' rfl rfl
      have htail := ih gs' (i + 1) (Nat.succ.inj hlen) fun k a a' ha ha' => by
        have hk := h (k + 1) a a' ha ha'
        rwa [← Nat.succ_add_eq_add_succ] at hk
      rw [groupSum, htail]
      exact congrArg (· + _) hhead

theorem groupSum_eq_zero (gs : List Group) (i : Nat)
    (h : ∀ k g, gs[k]? = some g → cost (i + k) g = 0) : groupSum cost i gs = 0 := by
  induction gs generalizing i with
  | nil => rfl
  | cons g gs ih =>
    have hhead := h 0 g rfl
    have htail := ih (i + 1) fun k a ha => by
      have hk := h (k + 1) a ha
      rwa [← Nat.succ_add_eq_add_succ] at hk
    rw [Nat.add_zero] at hhead
    rw [groupSum, htail, hhead]
    rfl

section
variable {cost : Nat → Group → Int} (hcost : ∀ i g, 0 ≤ cost i g)
  {I : List Group → List Group → BlockPool → Prop} {s : KVState}
include hcost

section
variable {β : Type}
  {f : Nat → Manager → BlockPool → ManagerState → Except KVError (BlockPool × ManagerState × β)}
  (hstep : ∀ done m st rest pool, I done ((m, st) :: rest) pool →
    cost done.length (m, st) ≤ pool.numFreeBlocks →
    ∃ pool' st' out, f done.length m pool st = .ok (pool', st', out) ∧
      I (done ++ [(m, st')]) rest pool' ∧
      pool'.numFreeBlocks = pool.numFreeBlocks - cost done.length (m, st))
include hstep

/-- A loop in which each manager takes its cost from the free blocks succeeds when the sum of
the costs is free, and takes exactly that. -/
theorem overGroups_spend (rest done : List Group) {pool : BlockPool} (hinv : I done rest pool)
    (hfree : groupSum cost done.length rest ≤ pool.numFreeBlocks) :
    ∃ pool' groups' outs, overGroups f done.length pool rest = .ok (pool', groups', outs) ∧
      I (done ++ groups') [] pool' ∧
      pool'.numFreeBlocks = pool.numFreeBlocks - groupSum cost done.length rest := by
  induction rest generalizing done pool with
  | nil =>
    refine ⟨pool, [], [], rfl, ?_, ?_⟩
    · rw [append_nil]
      exact hinv
    · rw [groupSum, Int.sub_zero]
  | cons g rest ih =>
    obtain ⟨m, st⟩ := g
    rw [groupSum] at hfree
    have hlater := groupSum_nonneg cost hcost (done.length + 1) rest
    obtain ⟨pool₁, st₁, out, hf, hinv₁, hnum₁⟩ := hstep done m st rest pool hinv (by omega)
    have hlen : (done ++ [(m, st₁)]).length = done.length + 1 := by
      rw [length_append, length_singleton]
    obtain ⟨pool', groups', outs, hover, hinv', hnum'⟩ :=
      ih (done ++ [(m, st₁)]) hinv₁ (by rw [hlen]; omega)
    rw [hlen] at hover hnum'
    refine ⟨pool', (m, st₁) :: groups', out :: outs, ?_, ?_, ?_⟩
    · rw [overGroups, hf]
      simp only [hover]
    · rw [append_assoc] at hinv'
      exact hinv'
    · rw [groupSum]
      omega

theorem KVState.forGroups_spend (hinv : I [] s.groups s.pool)
    (hfree : groupSum cost 0 s.groups ≤ s.pool.numFreeBlocks) :
    ∃ s' outs, s.forGroups f = .ok (s', outs) ∧ I s'.groups [] s'.pool ∧
      s'.pool.numFreeBlocks = s.pool.numFreeBlocks - groupSum cost 0 s.groups := by
  obtain ⟨pool', groups', outs, hover, hinv', hnum⟩ :=
    overGroups_spend hcost hstep s.groups [] hinv hfree
  refine ⟨⟨pool', groups'⟩, outs, ?_, hinv', hnum⟩
  rw [length_nil] at hover
  rw [forGroups, hover]

end

theorem KVState.forGroupsUnit_spend
    {f : Nat → Manager → BlockPool → ManagerState → Except KVError (BlockPool × ManagerState)}
    (hstep : ∀ done m st rest pool, I done ((m, st) :: rest) pool →
      cost done.length (m, st) ≤ pool.numFreeBlocks →
      ∃ pool' st', f done.length m pool st = .ok (pool', st') ∧
        I (done ++ [(m, st')]) rest pool' ∧
        pool'.numFreeBlocks = pool.numFreeBlocks - cost done.length (m, st))
    (hinv : I [] s.groups s.pool) (hfree : groupSum cost 0 s.groups ≤ s.pool.numFreeBlocks) :
    ∃ s', s.forGroupsUnit f = .ok s' ∧ I s'.groups [] s'.pool ∧
      s'.pool.numFreeBlocks = s.pool.numFreeBlocks - groupSum cost 0 s.groups := by
  obtain ⟨s', outs, hfor, hinv', hnum⟩ := forGroups_spend hcost
    (f := fun i m pool st => (f i m pool st).map fun p => (p.1, p.2, ()))
    (fun done m st rest pool hI hle => by
      obtain ⟨pool', st', hf, hI', hnum⟩ := hstep done m st rest pool hI hle
      exact ⟨pool', st', (), by rw [hf]; rfl, hI', hnum⟩) hinv hfree
  refine ⟨s', ?_, hinv', hnum⟩
  rw [forGroupsUnit, hfor]

end

/-! ### What one manager takes -/

namespace Manager

section
variable {m : Manager} {pool pool' : BlockPool} {st st' : ManagerState} {frame : List BlockId}
  {r : ReqId}

def externalCost (m : Manager) (numLocal numExternal len : Nat) : Int :=
  if m.spec.kind = .crossAttention ∨ m.externalInWindow numLocal numExternal ≤ 0 then 0
  else max ((cdiv (numLocal + numExternal) m.blockSize : Int) - len) 0

def newCost (m : Manager) (numTokens len : Nat) : Int :=
  max ((cdiv numTokens m.blockSize : Int) - len) 0

theorem externalCost_nonneg (m : Manager) (numLocal numExternal len : Nat) :
    0 ≤ m.externalCost numLocal numExternal len := by
  unfold externalCost
  split
  · exact Int.le_refl 0
  · exact Int.le_max_right _ _

theorem newCost_nonneg (m : Manager) (numTokens len : Nat) : 0 ≤ m.newCost numTokens len :=
  Int.le_max_right _ _

theorem getNewBlocks_numFree (sound : pool.Sound held) {n : Int} (hn : 0 ≤ n)
    (hfree : n ≤ pool.numFreeBlocks) : ∃ pool' bs, pool.getNewBlocks n = .ok (pool', bs) ∧
      (bs.length : Int) = n ∧ pool'.numFreeBlocks = pool.numFreeBlocks - n := by
  obtain ⟨pool', bs, hget⟩ := getNewBlocks_ok sound hn hfree
  have taken := getNewBlocks_taken sound hn hget
  have hlen : (bs.length : Int) = n := by
    rw [taken.length]
    omega
  refine ⟨pool', bs, hget, hlen, ?_⟩
  have hqueue := congrArg length taken.queue
  rw [length_append] at hqueue
  rw [taken.sound.numFree, sound.numFree]
  omega

theorem baseAllocateNewBlocks_exact (sound : pool.Sound (st.held ++ frame))
    (hfree : m.newCost numTokens (st.blocksOf r).length ≤ pool.numFreeBlocks) :
    ∃ pool' st' new, m.baseAllocateNewBlocks pool st r numTokens = .ok (pool', st', new) ∧
      pool'.numFreeBlocks = pool.numFreeBlocks - m.newCost numTokens (st.blocksOf r).length := by
  unfold newCost at hfree ⊢
  unfold baseAllocateNewBlocks
  by_cases hnone : (cdiv numTokens m.blockSize : Int) - (st.blocksOf r).length ≤ 0
  · rw [if_pos hnone]
    exact ⟨pool, st, [], rfl, by omega⟩
  rw [if_neg hnone]
  obtain ⟨pool', new, hget, -, hnum⟩ := getNewBlocks_numFree sound
    (n := (cdiv numTokens m.blockSize : Int) - (st.blocksOf r).length) (by omega) (by omega)
  rw [hget]
  exact ⟨pool', _, new, rfl, by omega⟩

theorem allocateExternalComputedBlocks_exact (sound : pool.Sound (st.held ++ frame))
    {numLocal numExternal : Nat}
    (hfit : m.spec.kind ≠ .crossAttention → 0 < m.externalInWindow numLocal numExternal →
      (st.blocksOf r).length ≤ cdiv (numLocal + numExternal) m.blockSize)
    (hfree : m.externalCost numLocal numExternal (st.blocksOf r).length ≤ pool.numFreeBlocks) :
    ∃ pool' st', m.allocateExternalComputedBlocks pool st r numLocal numExternal =
        .ok (pool', st') ∧
      pool'.numFreeBlocks =
        pool.numFreeBlocks - m.externalCost numLocal numExternal (st.blocksOf r).length ∧
      ((st'.blocksOf r).length : Int) =
        (st.blocksOf r).length + m.externalCost numLocal numExternal (st.blocksOf r).length := by
  unfold externalCost at hfree ⊢
  unfold allocateExternalComputedBlocks
  by_cases hcross : m.spec.kind = .crossAttention
  · rw [if_pos hcross, if_pos (.inl hcross)]
    exact ⟨pool, st, rfl, by omega, by omega⟩
  rw [if_neg hcross]
  simp only
  by_cases hwindow : m.externalInWindow numLocal numExternal ≤ 0
  · rw [if_pos hwindow, if_pos (.inr hwindow)]
    exact ⟨pool, st, rfl, by omega, by omega⟩
  have hlen := hfit hcross (by omega)
  rw [if_neg (not_or.mpr ⟨hcross, hwindow⟩)] at hfree ⊢
  rw [if_neg hwindow]
  obtain ⟨pool', new, hget, hnew, hnum⟩ := getNewBlocks_numFree sound
    (n := (cdiv (numLocal + numExternal) m.blockSize : Int) - (st.blocksOf r).length)
    (by omega) (by omega)
  rw [hget]
  refine ⟨pool', _, rfl, by omega, ?_⟩
  rw [ManagerState.blocksOf_setBlocks, length_append]
  omega

theorem addLocalComputedBlocks_ok (numLocal numExternal : Nat)
    (sound : pool.Sound (st.held ++ frame)) {hits : List BlockId} (hempty : st.blocksOf r = [])
    (hlive : ∀ b ∈ hits, b = nullBlock ∨ pool.IsLive b)
    (hcross : m.spec.kind = .crossAttention → hits = [])
    (hcaching : m.enableCaching = true ∨ hits = []) :
    ∃ pool' st', m.addLocalComputedBlocks pool st r hits numLocal numExternal = .ok (pool', st') := by
  unfold addLocalComputedBlocks
  by_cases hkind : m.spec.kind = .crossAttention
  · rw [if_pos hkind, if_neg (fun h => h (hcross hkind))]
    exact ⟨pool, st, rfl⟩
  rw [if_neg hkind, if_neg (fun h => h hempty)]
  simp only
  have hsplit := sound.split r
  obtain ⟨pool', htouch, -⟩ := touch_sound (m.keptHits hits (numLocal + numExternal)) hsplit
    fun b hb => hlive b (mem_of_mem_drop hb)
  rcases hcaching with hcaching | hnil
  · rw [if_pos hcaching, htouch]
    exact ⟨pool', _, rfl⟩
  split
  · rw [htouch]
    exact ⟨pool', _, rfl⟩
  · rw [if_neg (by rw [keptHits, hnil, drop_nil]; exact fun h => h rfl)]
    exact ⟨pool, _, rfl⟩

end
end Manager

/-! ### The three phases of a first allocation -/

/-- A block that is not null stands at one place of the hits only. -/
def DistinctHits (hits : List (List BlockId)) : Prop :=
  ∀ (i i' k k' : Nat) (b : BlockId), b ≠ nullBlock → (hits.getD i [])[k]? = some b →
    (hits.getD i' [])[k']? = some b → i = i' ∧ k = k'

theorem filter_nodup_of_getElem?_inj (bs : List BlockId)
    (h : ∀ (k k' : Nat) (b : BlockId), b ≠ nullBlock → bs[k]? = some b → bs[k']? = some b → k = k') :
    (bs.filter (· ≠ nullBlock)).Nodup := by
  induction bs with
  | nil => exact nodup_nil
  | cons b bs ih =>
    have hrest := ih fun k k' c hc hk hk' => Nat.succ.inj (h (k + 1) (k' + 1) c hc hk hk')
    rw [filter_cons]
    split
    · rename_i hb
      refine nodup_cons.mpr ⟨fun hmem => ?_, hrest⟩
      obtain ⟨k, hk⟩ := mem_iff_getElem?.mp (mem_filter.mp hmem).1
      cases h 0 (k + 1) b (of_decide_eq_true hb) rfl hk
    · exact hrest

variable {hits : List (List BlockId)}

theorem DistinctHits.kept_nodup (h : DistinctHits hits) (m : Manager) (i total : Nat) :
    ((m.keptHits (hits.getD i []) total).filter (· ≠ nullBlock)).Nodup := by
  have hnodup := filter_nodup_of_getElem?_inj (hits.getD i []) fun k k' b hb hk hk' =>
    (h i i k k' b hb hk hk').2
  exact hnodup.sublist ((drop_sublist _ _).filter _)

theorem DistinctHits.not_mem (h : DistinctHits hits) {i i' : Nat} (hne : i ≠ i')
    (hb : b ≠ nullBlock) (hmem : b ∈ hits.getD i []) :
    b ∉ hits.getD i' [] := by
  intro hmem'
  obtain ⟨k, hk⟩ := mem_iff_getElem?.mp hmem
  obtain ⟨k', hk'⟩ := mem_iff_getElem?.mp hmem'
  exact hne (h i i' k k' b hb hk hk').1

namespace KVState
section
variable {c : PoolConfig} {s : KVState} {frame : List BlockId} {r : ReqId}

/-- What the hits of a group take from the queue of `pool`. -/
def localCost (pool : BlockPool) (hits : List (List BlockId)) (total : Nat) (i : Nat) (g : Group) :
    Int :=
  if g.1.spec.kind = .crossAttention then 0
  else numEvictable pool (g.1.keptHits (hits.getD i []) total)

def localLength (hits : List (List BlockId)) (total : Nat) (i : Nat) (m : Manager) : Nat :=
  if m.spec.kind = .crossAttention then 0 else (m.localTable (hits.getD i []) total).length

structure FirstHits (r : ReqId) (hits : List (List BlockId)) (i : Nat) (m : Manager)
    (st : ManagerState) : Prop where
  empty : st.blocksOf r = []
  cross : m.spec.kind = .crossAttention → hits.getD i [] = []
  caching : m.enableCaching = true ∨ hits.getD i [] = []

theorem addLocalComputedBlocks_exact (owned : s.Owned c frame) (numLocal numExternal : Nat)
    (hlive : HitsLive c hits) (hdistinct : DistinctHits hits)
    (hfirst : EachGroup (FirstHits r hits) s.groups)
    (hfree : groupSum (localCost s.pool hits (numLocal + numExternal)) 0 s.groups ≤
      s.pool.numFreeBlocks) :
    ∃ s', (s.forGroupsUnit fun i m pool st =>
        m.addLocalComputedBlocks pool st r (hits.getD i []) numLocal numExternal) = .ok s' ∧
      s'.Owned c frame ∧
      EachGroup (fun i m st =>
        (st.blocksOf r).length = localLength hits (numLocal + numExternal) i m) s'.groups ∧
      s'.pool.numFreeBlocks = s.pool.numFreeBlocks -
        groupSum (localCost s.pool hits (numLocal + numExternal)) 0 s.groups := by
  have hrule := forGroupsUnit_spend (s := s) (f := fun i m pool st =>
      m.addLocalComputedBlocks pool st r (hits.getD i []) numLocal numExternal)
    (I := fun done rest pool => BetweenGroups c frame done rest pool ∧
      EachGroup (fun i m st =>
        (st.blocksOf r).length = localLength hits (numLocal + numExternal) i m) done ∧
      RestGroups (FirstHits r hits) done rest ∧
      ∀ i ≥ done.length, ∀ b ∈ hits.getD i [], b ≠ nullBlock → pool.refCnt b = s.pool.refCnt b)
    ?_ ?_ ⟨owned, nofun, fun i g hg => ?_, fun _ _ _ _ _ => rfl⟩ hfree
  · obtain ⟨s', hfor, ⟨⟨hsound, hcfg⟩, hlen, -, -⟩, hnum⟩ := hrule
    exact ⟨s', hfor, ⟨hsound, hcfg⟩, hlen, hnum⟩
  · intro i g
    unfold localCost
    split
    · exact Int.le_refl 0
    · exact Int.natCast_nonneg _
  · rintro done m st rest pool ⟨hbetween, hdone, hrest, hsame⟩ hle
    have hhere := hrest 0 (m, st) rfl
    have hlivePool : ∀ b ∈ hits.getD done.length [], b = nullBlock ∨ pool.IsLive b := by
      intro b hb
      have hb' := hlive done.length b hb
      rw [← hbetween.2] at hb'
      exact hb'
    obtain ⟨pool', st', hok⟩ := Manager.addLocalComputedBlocks_ok (m := m) numLocal numExternal
      hbetween.front hhere.empty hlivePool hhere.cross hhere.caching
    obtain ⟨hsound', hcfg'⟩ := Manager.addLocalComputedBlocks_sound hbetween.front hlivePool hok
    refine ⟨pool', st', hok, ?_⟩
    have hnext : BetweenGroups c frame (done ++ [(m, st')]) rest pool' :=
      .next m hsound' (hcfg'.trans hbetween.2)
    rcases Manager.addLocalComputedBlocks_cases hok with
      ⟨hcross, -, rfl, rfl⟩ | ⟨hcross, -, htouch, rfl⟩
    · refine ⟨⟨hnext, hdone.concat ?_, hrest.next _, ?_⟩, ?_⟩
      · rw [hhere.empty, localLength, if_pos hcross]
        rfl
      · intro i hi
        exact hsame i (by rw [length_append] at hi; omega)
      · rw [localCost, if_pos hcross, Int.sub_zero]
    · have hsplit := hbetween.front.split r
      have hkept : ∀ b ∈ m.keptHits (hits.getD done.length []) (numLocal + numExternal),
          b ∈ hits.getD done.length [] := fun b hb => mem_of_mem_drop hb
      have hkeptLive := fun b hb => hlivePool b (hkept b hb)
      refine ⟨⟨hnext, hdone.concat ?_, hrest.next _, ?_⟩, ?_⟩
      · rw [localLength, if_neg hcross]
        exact congrArg length (ManagerState.blocksOf_setBlocks st r _)
      · intro i hi b hb hnull
        rw [length_append, length_singleton] at hi
        obtain ⟨pool₁, htouch₁, touched⟩ := touch_sound _ hsplit hkeptLive
        rw [htouch] at htouch₁
        cases htouch₁
        -- a later hit is not among those touched here
        rw [touched.refCnt, retain_of_not_mem, hsame i (by omega) b hb hnull]
        exact fun hmem => hdistinct.not_mem (by omega) hnull hb (hkept b hmem)
      · have htaken := touch_numFree _ hsplit hkeptLive (hdistinct.kept_nodup m _ _) htouch
        rw [numEvictable_congr fun b hb hnull =>
          hsame done.length (Nat.le_refl _) b (hkept b hb) hnull] at htaken
        rw [htaken, localCost, if_neg hcross]
  · simpa using hfirst i g hg

theorem allocateExternalComputedBlocks_exact (owned : s.Owned c frame)
    (numLocal numExternal : Nat) {len : Nat → Manager → Nat}
    (hlen : EachGroup (fun i m st => (st.blocksOf r).length = len i m) s.groups)
    (hfit : EachGroup (fun i m _ => m.spec.kind ≠ .crossAttention →
      0 < m.externalInWindow numLocal numExternal →
      len i m ≤ cdiv (numLocal + numExternal) m.blockSize) s.groups)
    (hfree : groupSum (fun i g => g.1.externalCost numLocal numExternal (len i g.1)) 0 s.groups ≤
      s.pool.numFreeBlocks) :
    ∃ s', (s.forGroupsUnit fun _ m pool st =>
        m.allocateExternalComputedBlocks pool st r numLocal numExternal) = .ok s' ∧
      s'.Owned c frame ∧
      EachGroup (fun i m st => ((st.blocksOf r).length : Int) =
        len i m + m.externalCost numLocal numExternal (len i m)) s'.groups ∧
      s'.pool.numFreeBlocks = s.pool.numFreeBlocks -
        groupSum (fun i g => g.1.externalCost numLocal numExternal (len i g.1)) 0 s.groups := by
  have hrule := forGroupsUnit_spend (s := s)
    (f := fun _ m pool st => m.allocateExternalComputedBlocks pool st r numLocal numExternal)
    (I := fun done rest pool => BetweenGroups c frame done rest pool ∧
      EachGroup (fun i m st => ((st.blocksOf r).length : Int) =
        len i m + m.externalCost numLocal numExternal (len i m)) done ∧
      RestGroups (fun i m st => (st.blocksOf r).length = len i m ∧
        (m.spec.kind ≠ .crossAttention → 0 < m.externalInWindow numLocal numExternal →
          len i m ≤ cdiv (numLocal + numExternal) m.blockSize)) done rest)
    (fun i g => g.1.externalCost_nonneg _ _ _) ?_
    ⟨owned, nofun, fun i g hg => ?_⟩ hfree
  · obtain ⟨s', hfor, ⟨⟨hsound, hcfg⟩, hdone, -⟩, hnum⟩ := hrule
    exact ⟨s', hfor, ⟨hsound, hcfg⟩, hdone, hnum⟩
  · rintro done m st rest pool ⟨hbetween, hdone, hrest⟩ hle
    obtain ⟨hhere, hfits⟩ := hrest 0 (m, st) rfl
    simp only [Nat.add_zero] at hhere hfits hle
    rw [← hhere] at hfits hle
    obtain ⟨pool', st', hok, hnum, hlen'⟩ :=
      Manager.allocateExternalComputedBlocks_exact hbetween.front hfits hle
    obtain ⟨hsound', hcfg'⟩ := Manager.allocateExternalComputedBlocks_sound hbetween.front hfits hok
    rw [hhere] at hnum hlen'
    exact ⟨pool', st', hok, ⟨.next m hsound' (hcfg'.trans hbetween.2), hdone.concat hlen',
      hrest.next _⟩, hnum⟩
  · rw [length_nil, Nat.zero_add]
    exact ⟨hlen i g hg, hfit i g hg⟩

def newCost (r : ReqId) (numTokens numEncoder : Nat) (g : Group) : Int :=
  g.1.newCost (if g.1.spec.kind = .crossAttention then numEncoder else numTokens)
    (g.2.blocksOf r).length

theorem allocateNewBlocks_exact (owned : s.Owned c frame) {numEncoder : Nat} (numTokensMain : Nat)
    (hkind : EachGroup (fun _ m _ => m.spec.isMamba = false) s.groups)
    (hfree : groupSum (fun _ => newCost r numTokens numEncoder) 0 s.groups ≤ s.pool.numFreeBlocks) :
    ∃ s' new, s.allocateNewBlocks r numTokens numTokensMain numEncoder = .ok (s', new) ∧
      s'.Owned c frame ∧ s'.pool.numFreeBlocks =
        s.pool.numFreeBlocks - groupSum (fun _ => newCost r numTokens numEncoder) 0 s.groups := by
  have hrule := forGroups_spend (s := s) (f := fun _ m pool st => m.allocateNewBlocks pool st r
      (if m.spec.kind = .crossAttention then numEncoder else numTokens) numTokensMain)
    (I := fun done rest pool => BetweenGroups c frame done rest pool ∧
      RestGroups (fun _ m _ => m.spec.isMamba = false) done rest)
    (fun i g => g.1.newCost_nonneg _ _) ?_ ⟨owned, fun i g hg => hkind i g hg⟩ hfree
  · obtain ⟨s', new, hfor, ⟨⟨hsound, hcfg⟩, -⟩, hnum⟩ := hrule
    exact ⟨s', new, hfor, ⟨hsound, hcfg⟩, hnum⟩
  · rintro done m st rest pool ⟨hbetween, hrest⟩ hle
    have hattention : ∀ n, m.allocateNewBlocks pool st r n numTokensMain =
        m.baseAllocateNewBlocks pool st r n := by
      intro n
      have hmamba := hrest 0 (m, st) rfl
      unfold KVCacheSpec.isMamba at hmamba
      unfold Manager.allocateNewBlocks
      split
      · rename_i hm
        simp only [hm] at hmamba
        cases hmamba
      · rfl
    obtain ⟨pool', st', new, hok, hnum⟩ := Manager.baseAllocateNewBlocks_exact hbetween.front hle
    rw [← hattention] at hok
    obtain ⟨hsound', hcfg'⟩ := Manager.allocateNewBlocks_sound hbetween.front hok
    exact ⟨pool', st', new, hok, ⟨.next m hsound' (hcfg'.trans hbetween.2), hrest.next _⟩, hnum⟩

end
end KVState
end Vllm.KVCache
