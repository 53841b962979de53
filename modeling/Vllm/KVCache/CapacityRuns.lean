import Vllm.KVCache.CapacityExact

/-! Runs in which a scheduler drives the KV-cache manager, and the exactness of the free-block
check of `allocate_slots` in every state that they reach. -/
namespace Vllm.KVCache
open ManagerState List Function KVState SlotArgs Option

/-! ### The hits of a lookup are distinct blocks -/

variable {i : Nat}

theorem groupHash_inj {hbs blockSize : Nat} (hpos : 0 < hbs) (hblock : 0 < blockSize)
    (hdvd : hbs ∣ blockSize) {hashes : List BlockHash} (hnodup : hashes.Nodup) {i' : Nat}
    {h : BlockHash} (hi : groupHash hbs blockSize hashes i = some h)
    (hi' : groupHash hbs blockSize hashes i' = some h) : i = i' := by
  rw [groupHash_eq hpos] at hi hi'
  have hidx := (getElem?_inj (List.getElem?_eq_some_iff.mp hi).1 hnodup).mp (hi.trans hi'.symm)
  have hscale : 0 < blockSize / hbs := Nat.div_pos (Nat.le_of_dvd hblock hdvd) hpos
  have hleft : 0 < (i + 1) * (blockSize / hbs) := Nat.mul_pos (Nat.succ_pos i) hscale
  have hright : 0 < (i' + 1) * (blockSize / hbs) := Nat.mul_pos (Nat.succ_pos i') hscale
  have hmul : (i + 1) * (blockSize / hbs) = (i' + 1) * (blockSize / hbs) := by omega
  exact Nat.succ.inj (Nat.eq_of_mul_eq_mul_right hscale hmul)

namespace CacheConfig
variable {cfg : CacheConfig} {hits : List (List BlockId)} {request : Request}

theorem lookupBlockSize_eq {g : KVCacheGroupSpec} (hg : cfg.groups[i]? = some g) :
    cfg.lookupBlockSize g = g.spec.blockSize * cfg.worldSize := by
  unfold lookupBlockSize
  split
  · rfl
  · have hlt := (List.getElem?_eq_some_iff.mp hg).1
    rw [cfg.world_one (by omega), Nat.mul_one]

/-- Without prefix caching there are no hits. -/
theorem caching_of_hit {s : KVState} {L : Nat} (h : cfg.getComputedBlocks s request = .ok (hits, L))
    {k : Nat} {b : BlockId} (hb : (hits.getD i [])[k]? = some b) : cfg.enableCaching = true := by
  rcases getComputedBlocks_cases h with ⟨rfl, -⟩ | ⟨hcaching, -⟩
  · rw [getD_map_nil] at hb
    cases hb
  · exact hcaching

/-- A cached block has one key, which fixes its group and its position. -/
theorem distinctHits_of_getComputedBlocks {s : KVState} {c : PoolConfig} {frame : List BlockId}
    (owned : s.Owned c frame) (hnodup : request.blockHashes.Nodup) {L : Nat}
    (h : cfg.getComputedBlocks s request = .ok (hits, L)) : DistinctHits hits := by
  intro i i' k k' b hnull hb hb'
  obtain ⟨g, hg, -, hblock⟩ := getComputedBlocks_source h hb
  obtain ⟨g', hg', -, hblock'⟩ := getComputedBlocks_source h hb'
  obtain ⟨hash, hhash, hcached⟩ := hblock.resolve_left hnull
  obtain ⟨hash', hhash', hcached'⟩ := hblock'.resolve_left hnull
  have hkey := owned.1.hashed.hash_eq _ b (mem_of_head? hcached)
  have hkey' := owned.1.hashed.hash_eq _ b (mem_of_head? hcached')
  have hlt := (List.getElem?_eq_some_iff.mp hg).1
  have hlt' := (List.getElem?_eq_some_iff.mp hg').1
  obtain ⟨rfl, rfl⟩ := makeBlockHashWithGroupId_inj (by have := cfg.ids_fit; omega)
    (by have := cfg.ids_fit; omega) (some.inj (hkey.symm.trans hkey'))
  refine ⟨rfl, ?_⟩
  cases hg.symm.trans hg'
  have hmem := mem_of_getElem? hg
  rw [lookupBlockSize_eq hg] at hhash hhash'
  exact groupHash_inj cfg.hash_pos (Nat.mul_pos (cfg.block_size_pos g hmem) cfg.world_pos)
    (cfg.hash_dvd (caching_of_hit h hb) g hmem) hnodup hhash hhash'

/-! ### Scheduler-driven runs -/

end CacheConfig

/-- A run state with the number of computed tokens of every request that holds blocks. -/
structure SchedState extends RunState where
  computed : ReqId → Option Nat := fun _ => none

/-- A call of the manager, or a decrease of `num_computed_tokens`: rejected drafts, blocks that
failed to load, the last token of a full hit. -/
inductive SchedOp
  | call (op : KVOp)
  | rollback (r : ReqId) (numComputed : Nat)

namespace CacheConfig
variable {cfg : CacheConfig}

/-- The computed tokens after a call; a successful allocation is followed by a step that computes
the allocated tokens. -/
def computedAfter (cfg : CacheConfig) (s : SchedState) : KVOp → ReqId → Option Nat
  | .allocateSlots lookup a =>
    match cfg.withHits s.toKVState lookup a with
    | .error _ => s.computed
    | .ok a =>
      match s.toKVState.allocateSlots cfg a with
      | .ok (_, some _) => update s.computed a.request.requestId
          (some (a.numTokensMain cfg.maxModelLen))
      | _ => s.computed
  | .free r | .popBlocksForFree r => update s.computed r none
  | _ => s.computed

def schedStep (cfg : CacheConfig) (s : SchedState) : SchedOp → Except KVError SchedState
  | .call op =>
    match cfg.step s.toRunState op with
    | .error e => .error e
    | .ok s' => .ok ⟨s', cfg.computedAfter s op⟩
  | .rollback r numComputed =>
    match s.computed r with
    | none => .ok s
    | some c => .ok { s with computed := update s.computed r (some (min numComputed c)) }

end CacheConfig

/-- A request without blocks is looked up from its first token, for a number of tokens that is not
negative; later calls continue where the request stands, without hits and external tokens. -/
def Continues (computed : Option Nat) (lookup : Bool) (a : SlotArgs) : Prop :=
  match computed with
  | none => a.request.numComputedTokens = 0 ∧ 0 ≤ a.numNewTokens
  | some c =>
    a.request.numComputedTokens = c ∧ lookup = false ∧ a.numExternalComputedTokens = 0

instance (computed : Option Nat) (lookup : Bool) (a : SlotArgs) :
    Decidable (Continues computed lookup a) := by
  cases computed with
  | none => exact inferInstanceAs (Decidable (_ ∧ _))
  | some c => exact inferInstanceAs (Decidable (_ ∧ _ ∧ _))

/-- How the scheduler calls the manager; only requests with blocks are cached. The block hashes
of a request are distinct, as they are for a collision-free hash. -/
def SchedulerCall (s : SchedState) : SchedOp → Prop
  | .call (.allocateSlots lookup a) =>
    (a.request.blockHashes.Nodup ∧ 0 ≤ a.reservedBlocks) ∧
      Continues (s.computed a.request.requestId) lookup a
  | .call (.cacheBlocks request _) => (s.computed request.requestId).isSome
  | _ => True

instance (s : SchedState) (op : SchedOp) : Decidable (SchedulerCall s op) := by
  unfold SchedulerCall
  split <;> infer_instance

/-- The tables of a request by its computed tokens: untouched, or long enough for them and for
the speculative blocks. -/
def TableFor (maxModelLen : Nat) (computed : Option Nat) (r : ReqId) (i : Nat) (m : Manager)
    (st : ManagerState) : Prop :=
  match computed with
  | none => st.blocksOf r = [] ∧ st.numCachedBlock r = none ∧ st.allocatedBlockReqs r = false
  | some c => Covers r (min c maxModelLen) i m st ∧
      (st.allocatedBlockReqs r = true → m.numSpeculative ≤ (st.blocksOf r).length)

section
variable {maxModelLen : Nat} {computed : Option Nat} {r : ReqId} {i : Nat} {m : Manager}
  {st st' : ManagerState}

theorem TableFor.same (h : TableFor maxModelLen computed r i m st) (hsame : SameFor r st st') :
    TableFor maxModelLen computed r i m st' := by
  cases computed with
  | none =>
    obtain ⟨hempty, hnone, hfalse⟩ := h
    have hlen := hsame.length_eq
    rw [hempty] at hlen
    exact ⟨length_eq_zero_iff.mp hlen, hsame.tracked.trans hnone, hsame.allocated.trans hfalse⟩
  | some c =>
    obtain ⟨hcovers, hreserved⟩ := h
    refine ⟨fun hcross => ?_, fun hallocated => ?_⟩
    · rw [hsame.length_eq]
      exact hcovers hcross
    · rw [hsame.length_eq]
      exact hreserved (hsame.allocated ▸ hallocated)

theorem TableFor.grown {c : Nat} (h : TableFor maxModelLen (some c) r i m st)
    (hgrown : Grown m r st st') : TableFor maxModelLen (some c) r i m st' := by
  obtain ⟨hcovers, hreserved⟩ := h
  refine ⟨fun hcross => (hcovers hcross).trans hgrown.length_le, fun hallocated => ?_⟩
  rcases hgrown.reserved hallocated with hbefore | hlen
  · exact (hreserved hbefore).trans hgrown.length_le
  · exact hlen

theorem TableFor.extended {numTokens main : Nat} (h : TableFor maxModelLen computed r i m st)
    (hmain : min main maxModelLen ≤ numTokens) (hext : m.Extended r numTokens st st') :
    TableFor maxModelLen (some main) r i m st' := by
  refine ⟨fun hcross => (PySeq.cdiv_mono hmain).trans (hext.covers hcross), fun hallocated => ?_⟩
  rcases hext.grown.reserved hallocated with hbefore | hlen
  · cases computed with
    | none =>
      rw [h.2.2] at hbefore
      cases hbefore
    | some c => exact (h.2 hbefore).trans hext.grown.length_le
  · exact hlen

def TablesFor (maxModelLen : Nat) (computed : ReqId → Option Nat) (groups : List Group) : Prop :=
  ∀ r, EachGroup (TableFor maxModelLen (computed r) r) groups

variable {groups groups' : List Group} {f : ReqId → Option Nat}

section
variable (h : TablesFor maxModelLen f groups)
include h

theorem TablesFor.sameShape
    (hrel : GroupsRel (fun _ => SameShape) groups groups') : TablesFor maxModelLen f groups' :=
  fun r => (h r).of_rel (fun _ _ _ _ hsame htable => htable.same (hsame r)) hrel

theorem TablesFor.grown (hsome : (f r).isSome)
    (hrel : GroupsRel (fun m => Grown m r) groups groups') : TablesFor maxModelLen f groups' := by
  intro r'
  refine (h r').of_rel (fun i m st st' hgrown htable => ?_) hrel
  by_cases hr : r' = r
  · subst hr
    obtain ⟨c, hc⟩ := isSome_iff_exists.mp hsome
    rw [hc] at htable ⊢
    exact htable.grown hgrown
  · exact htable.same (hgrown.others r' hr)

theorem TablesFor.extended {numTokens main : Nat} (hmain : min main maxModelLen ≤ numTokens)
    (hrel : GroupsRel (fun m => m.Extended r numTokens) groups groups') :
    TablesFor maxModelLen (update f r (some main)) groups' := by
  intro r'
  refine (h r').of_rel (fun i m st st' hext htable => ?_) hrel
  by_cases hr : r' = r
  · subst hr
    rw [update_self]
    exact htable.extended hmain hext
  · rw [update_of_ne hr]
    exact htable.same (hext.grown.others r' hr)

theorem TablesFor.dropped
    (hrel : GroupsRel (fun _ st st' => st' = (st.popBlocksForFree r).1) groups groups') :
    TablesFor maxModelLen (update f r none) groups' := by
  intro r'
  refine (h r').of_rel (fun i m st st' hpop htable => ?_) hrel
  subst hpop
  by_cases hr : r' = r
  · subst hr
    rw [update_self]
    exact ⟨ListDict.get_erase _ _, update_self .., update_self ..⟩
  · rw [update_of_ne hr]
    refine htable.same ⟨?_, update_of_ne hr .., update_of_ne hr ..⟩
    rw [blocksOf, blocksOf, ManagerState.popBlocksForFree, ListDict.get_erase_of_ne _ hr]

theorem TablesFor.lowered {c : Nat} (hc : f r = some c)
    (n : Nat) : TablesFor maxModelLen (update f r (some (min n c))) groups := by
  intro r'
  by_cases hr : r' = r
  · subst hr
    rw [update_self]
    intro i g hg
    have htable := h r' i g hg
    rw [hc] at htable
    exact ⟨fun hcross => (PySeq.cdiv_mono (by omega)).trans (htable.1 hcross), htable.2⟩
  · rw [update_of_ne hr]
    exact h r'

end

end

/-! ### Every step keeps the tables -/

variable {a : SlotArgs} {cfg : CacheConfig}

namespace CacheConfig
variable {cfg : CacheConfig}

def Attention (cfg : CacheConfig) : Prop := ∀ g ∈ cfg.groups, g.spec.isMamba = false

instance (cfg : CacheConfig) : Decidable cfg.Attention :=
  inferInstanceAs (Decidable (∀ g ∈ cfg.groups, g.spec.isMamba = false))

theorem RunInv.attention {s : RunState} (inv : cfg.RunInv s) (hkinds : cfg.Attention) :
    EachGroup (fun _ m _ => m.spec.isMamba = false) s.groups := by
  intro i g hg
  obtain ⟨spec, hspec, hm⟩ := inv.group hg
  rw [hm]
  exact hkinds spec (mem_of_getElem? hspec)

theorem RunInv.window {s : RunState} (inv : cfg.RunInv s) :
    EachGroup (fun _ m _ => m.spec.kind ≠ .slidingWindow 0) s.groups := by
  intro i g hg
  obtain ⟨spec, hspec, hm⟩ := inv.group hg
  rw [hm]
  exact cfg.window_pos spec (mem_of_getElem? hspec)

structure SchedInv (cfg : CacheConfig) (s : SchedState) : Prop where
  run : cfg.RunInv s.toRunState
  tables : TablesFor cfg.maxModelLen s.computed s.groups

/-- The hits of an allocation fit; see `AllocationFits`. -/
def SchedFits (cfg : CacheConfig) (s : SchedState) : SchedOp → Prop
  | .call op => cfg.AllocationFits s.toRunState op
  | .rollback _ _ => True

theorem SchedInv.start (cfg : CacheConfig) : cfg.SchedInv { toKVState := cfg.create } := by
  refine ⟨RunInv.start cfg, fun r i g hg => ?_⟩
  simp only [create, getElem?_map, map_eq_some_iff] at hg
  obtain ⟨_, -, rfl⟩ := hg
  exact ⟨rfl, rfl, rfl⟩

variable {s : SchedState} {s' : RunState}

theorem onManager_eq {result : Except KVError KVState} {s : RunState}
    (h : onManager s result = .ok s') : result = .ok s'.toKVState := by
  unfold onManager at h
  split at h
  · cases h
  · cases h
    rfl

theorem SchedInv.allocateSlots_tables (inv : cfg.SchedInv s) {lookup : Bool}
    (h : cfg.step s.toRunState (.allocateSlots lookup a) = .ok s') :
    TablesFor cfg.maxModelLen (cfg.computedAfter s (.allocateSlots lookup a)) s'.groups := by
  rw [step] at h
  rw [computedAfter]
  cases hargs : cfg.withHits s.toKVState lookup a with
  | error e =>
    rw [hargs] at h
    cases h
  | ok a' =>
    rw [hargs] at h
    obtain ⟨⟨kv, new⟩, hslots, hkv⟩ := Run.map_eq_ok (onManager_eq h)
    have htables := KVState.allocateSlots_tables hslots
    rw [← hkv]
    simp only [hslots]
    cases new with
    | none => exact inv.tables.sameShape htables
    | some new => exact inv.tables.extended (Nat.le_refl _) htables

theorem SchedInv.call_tables (inv : cfg.SchedInv s) (op : KVOp)
    (hcall : SchedulerCall s (.call op)) (h : cfg.step s.toRunState op = .ok s') :
    TablesFor cfg.maxModelLen (cfg.computedAfter s op) s'.groups := by
  cases op with
  | allocateSlots lookup a => exact inv.allocateSlots_tables h
  | cacheBlocks request numComputed =>
    rw [step] at h
    split at h
    · exact inv.tables.grown hcall (cacheBlocks_grown (onManager_eq h))
    · cases h
      exact inv.tables
  | removeSkippedBlocks r total numPrompt =>
    exact inv.tables.sameShape (removeSkippedBlocks_shape (onManager_eq h))
  | free r =>
    refine inv.tables.dropped (forGroupsUnit_rel (fun _ _ _ _ _ _ hok => ?_) (onManager_eq h))
    cases hok
    rfl
  | popBlocksForFree r =>
    cases h
    refine inv.tables.dropped (r := r) ?_
    exact forall₂_map_right_iff.mpr (forall₂_same.mpr fun _ _ => ⟨rfl, rfl⟩)
  | freeBlocks i =>
    rw [step] at h
    split at h
    · cases h
    · cases h
      exact inv.tables
  | evictBlocks blockIds =>
    rw [step] at h
    split at h
    · cases h
    · cases h
      exact inv.tables
  | resetPrefixCache =>
    cases h
    exact inv.tables
  | newStepStarts =>
    cases h
    refine inv.tables.sameShape ?_
    exact forall₂_map_right_iff.mpr (forall₂_same.mpr fun _ _ => ⟨rfl, fun _ => ⟨rfl, rfl, rfl⟩⟩)

theorem schedStep_inv {s' : SchedState} (inv : cfg.SchedInv s)
    (op : SchedOp) (hok : SchedulerCall s op ∧ cfg.SchedFits s op)
    (h : cfg.schedStep s op = .ok s') : cfg.SchedInv s' := by
  obtain ⟨hcall, hfits⟩ := hok
  cases op with
  | call op =>
    rw [schedStep] at h
    split at h
    · cases h
    · rename_i hstep
      cases h
      exact ⟨step_inv inv.run op hfits hstep, inv.call_tables op hcall hstep⟩
  | rollback r n =>
    rw [schedStep] at h
    split at h
    · cases h
      exact inv
    · rename_i hc
      cases h
      exact ⟨inv.run, inv.tables.lowered hc n⟩

end CacheConfig

/-! ### The free-block check -/

def CheckPasses (cfg : CacheConfig) (s : KVState) (a : SlotArgs) (n : Int) : Prop :=
  s.numBlocksToAllocate cfg a = .ok n ∧
    n + a.watermark cfg.watermarkBlocks ≤ s.pool.numFreeBlocks - a.reservedBlocks

def afterRemoval (cfg : CacheConfig) (s : KVState) (a : SlotArgs) : Except KVError KVState :=
  s.removeSkippedBlocks a.request.requestId (a.totalComputed cfg.maxModelLen)
    (some a.request.numPromptTokens)

/-- After the check no phase of the call raises, and together they take the predicted number of
blocks from the free queue; a refused call does no more than `remove_skipped_blocks`. -/
structure ExactCheck (cfg : CacheConfig) (s : KVState) (a : SlotArgs) : Prop where
  taken : ∀ s₁ n, afterRemoval cfg s a = .ok s₁ → CheckPasses cfg s₁ a n →
    ∃ s₂ new, s₁.takeBlocks cfg a = .ok (s₂, new) ∧
      (s₂.pool.freeQueue.length : Int) = s₁.pool.freeQueue.length - n
  refused : ∀ s', s.allocateSlots cfg a = .ok (s', none) →
    s' = s ∨ afterRemoval cfg s a = .ok s'

theorem allocateSlots_refused {s s' : KVState} (h : s.allocateSlots cfg a = .ok (s', none)) :
    s' = s ∨ afterRemoval cfg s a = .ok s' := by
  rcases allocateSlots_cases h with ⟨-, rfl⟩ | ⟨s₁, hremove, ⟨-, rfl⟩ | ⟨_, _, -, -, hnone⟩⟩
  · exact .inl rfl
  · exact .inr hremove
  · cases hnone

namespace CacheConfig
variable {cfg : CacheConfig} {s : SchedState} {s₁ : KVState} {lookup : Bool} {a a' : SlotArgs}

theorem withHits_request {s : KVState} (h : cfg.withHits s lookup a = .ok a') :
    a'.request = a.request ∧ a'.numExternalComputedTokens = a.numExternalComputedTokens ∧
      a'.numNewTokens = a.numNewTokens ∧ a'.reservedBlocks = a.reservedBlocks := by
  unfold withHits at h
  split at h
  · split at h
    · cases h
    · cases h
      exact ⟨rfl, rfl, rfl, rfl⟩
  · cases h
    exact ⟨rfl, rfl, rfl, rfl⟩

theorem withHits_false {s : KVState} (h : cfg.withHits s false a = .ok a') :
    a'.newComputedBlocks = [] ∧ a'.numNewComputedTokens = 0 := by
  cases h
  exact ⟨rfl, rfl⟩

theorem withHits_cases {s : KVState} (h : cfg.withHits s lookup a = .ok a') :
    cfg.getComputedBlocks s a.request = .ok (a'.newComputedBlocks, a'.numNewComputedTokens) ∨
      a'.newComputedBlocks = [] ∧ a'.numNewComputedTokens = 0 := by
  unfold withHits at h
  split at h
  · split at h
    · cases h
    · rename_i hlookup
      cases h
      exact .inl hlookup
  · cases h
    exact .inr ⟨rfl, rfl⟩

theorem RunInv.distinctHits {s : RunState} (inv : cfg.RunInv s)
    (hnodup : a.request.blockHashes.Nodup) (h : cfg.withHits s.toKVState lookup a = .ok a') :
    DistinctHits a'.newComputedBlocks := by
  rcases withHits_cases h with hlookup | ⟨hnil, -⟩
  · exact distinctHits_of_getComputedBlocks inv.owned hnodup hlookup
  · rw [hnil]
    intro i i' k k' b _ hb
    cases hb

/-- Cross-attention groups and managers without caching get no hits. -/
theorem hits_of_manager {s : KVState} (h : cfg.withHits s lookup a = .ok a')
    {spec : KVCacheGroupSpec} (hspec : cfg.groups[i]? = some spec) :
    (spec.spec.kind = .crossAttention → a'.newComputedBlocks.getD i [] = []) ∧
      (cfg.enableCaching = true ∨ a'.newComputedBlocks.getD i [] = []) := by
  rcases withHits_cases h with hlookup | ⟨hnil, -⟩
  · cases hhits : a'.newComputedBlocks.getD i [] with
    | nil => exact ⟨fun _ => rfl, .inr rfl⟩
    | cons b rest =>
      have hb : (a'.newComputedBlocks.getD i [])[0]? = some b := by
        rw [hhits]
        rfl
      obtain ⟨g, hg, hcross, -⟩ := getComputedBlocks_source hlookup hb
      cases hspec.symm.trans hg
      exact ⟨fun hkind => absurd hkind hcross, .inl (caching_of_hit hlookup hb)⟩
  · rw [hnil]
    exact ⟨fun _ => rfl, .inr rfl⟩

theorem SchedInv.removed (inv : cfg.SchedInv s)
    (hremove : afterRemoval cfg s.toKVState a = .ok s₁) :
    cfg.SchedInv { s with toKVState := s₁ } :=
  ⟨⟨removeSkippedBlocks_owned inv.run.owned hremove,
    (forGroupsUnit_managers hremove).trans inv.run.managers⟩,
    inv.tables.sameShape (removeSkippedBlocks_shape hremove)⟩

section
variable (inv : cfg.SchedInv s) (hargs : cfg.withHits s.toKVState lookup a = .ok a')
  (hremove : afterRemoval cfg s.toKVState a' = .ok s₁)
include inv hargs hremove

theorem SchedInv.tablesFor : EachGroup (TableFor cfg.maxModelLen
    (s.computed a.request.requestId) a'.request.requestId) s₁.groups := by
  rw [← (withHits_request hargs).1]
  exact (inv.removed hremove).tables _

/-- A call for a request without blocks meets the conditions of a first allocation. -/
theorem SchedInv.firstCall (hnodup : a.request.blockHashes.Nodup)
    (hnone : s.computed a.request.requestId = none)
    (hfits : cfg.AllocationFits s.toRunState (.allocateSlots lookup a)) :
    FirstCall cfg.poolConfig s₁ a'.request.requestId a'.newComputedBlocks a'.numLocal
      a'.numExternalComputedTokens := by
  have hrun := (inv.removed hremove).run
  have htable := inv.tablesFor hargs hremove
  rw [hnone] at htable
  refine
    { live := inv.run.withHits_live hargs
      distinct := inv.run.distinctHits hnodup hargs
      first := fun i g hg => ?_
      untracked := fun i g hg => (htable i g hg).2
      window := hrun.window
      fits := (inv.run.hitFits hfits hargs).of_rel (fun _ _ _ _ _ hfit => hfit)
        (removeSkippedBlocks_shape hremove) }
  obtain ⟨spec, hspec, hm⟩ := hrun.group hg
  obtain ⟨hcross, hcaching⟩ := hits_of_manager hargs hspec
  rw [hm]
  exact ⟨(htable i g hg).1, hcross, hcaching⟩

/-- A call for a request with blocks continues behind its tokens, without hits. -/
theorem SchedInv.continued {c : Nat} (hcomputed : s.computed a.request.requestId = some c)
    (hcontinues : Continues (some c) lookup a)
    (hmodel : a'.numLocal + a'.numExternalComputedTokens ≤ cfg.maxModelLen) :
    ¬ (a'.newComputedBlocks.any (· ≠ []) ∨ 0 < a'.numExternalComputedTokens) ∧
      EachGroup (fun i m st => Covers a'.request.requestId a'.numLocal i m st ∧
        (st.allocatedBlockReqs a'.request.requestId = true →
          m.numSpeculative ≤ (st.blocksOf a'.request.requestId).length)) s₁.groups := by
  obtain ⟨hc, rfl, hext⟩ := hcontinues
  obtain ⟨hrequest, hexternal, -⟩ := withHits_request hargs
  obtain ⟨hhits, hnum⟩ := withHits_false hargs
  have hlocal : a'.numLocal = c := by
    rw [numLocal, hnum, hrequest, hc]
    rfl
  have htable := inv.tablesFor hargs hremove
  rw [hcomputed] at htable
  have hmin : min c cfg.maxModelLen = a'.numLocal := by omega
  refine ⟨by rw [hhits, hexternal, hext]; simp, ?_⟩
  rw [← hmin]
  exact htable

end

theorem withHits_empty {s : KVState}
    (hzero : a.request.numComputedTokens = 0) (hargs : cfg.withHits s lookup a = .ok a')
    (hempty : ∀ i, a'.newComputedBlocks.getD i [] = []) : a'.numLocal = 0 := by
  rw [numLocal, (withHits_request hargs).1, hzero]
  rcases withHits_cases hargs with hlookup | ⟨-, hnum⟩
  · rw [getComputedBlocks_nil hlookup hempty]
    rfl
  · rw [hnum]
    rfl

theorem SchedInv.takeBlocks (inv : cfg.SchedInv s) (hkinds : cfg.Attention)
    (hcall : SchedulerCall s (.call (.allocateSlots lookup a)))
    (hfits : cfg.AllocationFits s.toRunState (.allocateSlots lookup a))
    (hargs : cfg.withHits s.toKVState lookup a = .ok a')
    (hmodel : a'.numLocal + a'.numExternalComputedTokens ≤ cfg.maxModelLen)
    (hremove : afterRemoval cfg s.toKVState a' = .ok s₁) {n : Int}
    (hpredict : s₁.numBlocksToAllocate cfg a' = .ok n) (hfree : n ≤ s₁.pool.numFreeBlocks) :
    ∃ s₂ new, s₁.takeBlocks cfg a' = .ok (s₂, new) ∧
      s₂.Owned cfg.poolConfig s.popped.flatten ∧
        s₂.pool.numFreeBlocks = s₁.pool.numFreeBlocks - n := by
  obtain ⟨⟨hnodup, -⟩, hcontinues⟩ := hcall
  have hrun := (inv.removed hremove).run
  cases hcomputed : s.computed a.request.requestId with
  | none =>
    rw [hcomputed] at hcontinues
    have hslots : a'.numLocal + a'.numExternalComputedTokens ≤
        a'.numTokensNeedSlot cfg.maxModelLen := by
      have hcount := hcontinues.2
      rw [← (withHits_request hargs).2.2.1] at hcount
      unfold numTokensNeedSlot totalComputed
      omega
    exact takeBlocks_first hrun.owned (hrun.attention hkinds)
      (inv.firstCall hargs hremove hnodup hcomputed hfits)
      (fun hempty _ => withHits_empty hcontinues.1 hargs hempty) hslots hpredict hfree
  | some c =>
    rw [hcomputed] at hcontinues
    obtain ⟨hnone, htables⟩ := inv.continued hargs hremove hcomputed hcontinues hmodel
    exact takeBlocks_later hrun.owned (hrun.attention hkinds) hrun.window
      (fun i g hg => (htables i g hg).1) hnone hpredict hfree

def ScheduledStep (cfg : CacheConfig) (s : SchedState) (op : SchedOp) : Prop :=
  SchedulerCall s op ∧ cfg.SchedFits s op

end CacheConfig

/-- In every scheduler-driven run over attention groups whose allocations fit, the free-block
check of every call is exact. -/
theorem reaches_exactCheck (cfg : CacheConfig) (hkinds : cfg.Attention) (s : SchedState)
    (h : Run.Reaches cfg.schedStep cfg.ScheduledStep { toKVState := cfg.create } s)
    (lookup : Bool) (a a' : SlotArgs)
    (hstep : cfg.ScheduledStep s (.call (.allocateSlots lookup a)))
    (hargs : cfg.withHits s.toKVState lookup a = .ok a')
    (htokens : a'.numLocal + a'.numExternalComputedTokens ≤ a'.request.numTokens)
    (hmodel : a'.request.numTokens ≤ cfg.maxModelLen) : ExactCheck cfg s.toKVState a' := by
  have inv : cfg.SchedInv s := h.invariant (CacheConfig.SchedInv.start cfg)
    fun _ op _ inv hok hstep => CacheConfig.schedStep_inv inv op hok hstep
  refine ⟨fun s₁ n hremove hpass => ?_, fun s' => allocateSlots_refused⟩
  obtain ⟨hpredict, hfree⟩ := hpass
  have howned := removeSkippedBlocks_owned inv.run.owned hremove
  have hreserved := hstep.1.1.2
  rw [← (CacheConfig.withHits_request hargs).2.2.2] at hreserved
  obtain ⟨s₂, new, htake, howned₂, hnum⟩ := inv.takeBlocks hkinds hstep.1 hstep.2 hargs
    (htokens.trans hmodel) hremove hpredict (by omega)
  refine ⟨s₂, new, htake, ?_⟩
  rw [← howned₂.1.numFree, ← howned.1.numFree, hnum]

def sixMoreTokens : SlotArgs where
  request := { promptRequest 1 9 [[1], [2], [3], [4]] with numComputedTokens := 8 }
  numNewTokens := 6

/-- A prompt is computed and freed; the next request hits three blocks of it. -/
def hitThenDecode : List SchedOp :=
  [.call (.allocateSlots true
      { request := promptRequest 0 7 [[1], [2], [3]], numNewTokens := 7 }),
    .call (.free 0),
    .call (.allocateSlots true
      { request := promptRequest 1 9 [[1], [2], [3], [4]], numNewTokens := 2 })]

theorem reaches_exactCheck_oneGroup :
    ∃ s, Run.Reaches oneGroup.schedStep oneGroup.ScheduledStep
        { toKVState := oneGroup.create } s ∧
      s.computed 1 = some 8 ∧ ExactCheck oneGroup s.toKVState sixMoreTokens := by
  have hrun : (Run.runIf oneGroup.schedStep SchedulerCall { toKVState := oneGroup.create }
      hitThenDecode).map (fun s => s.computed 1) = some (some 8) := by decide +kernel
  obtain ⟨s, hstate, hcomputed⟩ := map_eq_some_iff.mp hrun
  have hfits : oneGroup.AlwaysFits := .inr (.inl rfl)
  have hsched : ∀ s op, SchedulerCall s op → oneGroup.ScheduledStep s op := by
    intro s op hcall
    refine ⟨hcall, ?_⟩
    cases op with
    | call op => exact CacheConfig.allocationFits_of_alwaysFits hfits s.toRunState op
    | rollback r n => trivial
  have hreach := (Run.Reaches.start.runIf hitThenDecode hstate).mono hsched
  have hnodup : sixMoreTokens.request.blockHashes.Nodup := by decide
  have hcontinues : Continues (s.computed 1) false sixMoreTokens := by
    rw [hcomputed]
    decide
  refine ⟨s, hreach, hcomputed, ?_⟩
  exact reaches_exactCheck oneGroup (by decide) s hreach false sixMoreTokens sixMoreTokens
    (hsched s _ ⟨⟨hnodup, le_refl _⟩, hcontinues⟩) rfl (by decide) (by decide)

def overruns (cfg : CacheConfig) (s : KVState) (a : SlotArgs) : Bool :=
  match afterRemoval cfg s a with
  | .error _ => false
  | .ok s₁ =>
    match s₁.numBlocksToAllocate cfg a with
    | .error _ => false
    | .ok n =>
      decide (n + a.watermark cfg.watermarkBlocks ≤ s₁.pool.numFreeBlocks - a.reservedBlocks) &&
        (s₁.takeBlocks cfg a).toOption.isNone

theorem not_exactCheck_of_overruns {s : KVState} (h : overruns cfg s a = true) :
    ¬ ExactCheck cfg s a := by
  intro exact
  unfold overruns at h
  split at h
  · cases h
  rename_i s₁ hremove
  split at h
  · cases h
  rename_i n hpredict
  obtain ⟨hfree, hnone⟩ := Bool.and_eq_true_iff.mp h
  obtain ⟨s₂, new, htake, -⟩ := exact.taken s₁ n hremove ⟨hpredict, of_decide_eq_true hfree⟩
  rw [htake] at hnone
  cases hnone

def freshPrompt : SlotArgs where
  request := promptRequest 2 6 [[4], [5], [6]]
  numNewTokens := 6

/-- After the hits behind the hit length of `strayHits`, nine blocks count as free, nine are
needed, and `popleft_n` finds seven. -/
theorem reaches_inexactCheck :
    ∃ s a', Run.Reaches twoLayouts.schedStep SchedulerCall { toKVState := twoLayouts.create } s ∧
      SchedulerCall s (.call (.allocateSlots true freshPrompt)) ∧
      twoLayouts.withHits s.toKVState true freshPrompt = .ok a' ∧
      a'.numLocal + a'.numExternalComputedTokens ≤ a'.request.numTokens ∧
      a'.request.numTokens ≤ twoLayouts.maxModelLen ∧
      ¬ ExactCheck twoLayouts s.toKVState a' := by
  have hrun : (Run.runIf twoLayouts.schedStep SchedulerCall { toKVState := twoLayouts.create }
      (strayHits.map .call)).map (fun s => (s.computed 2,
        (twoLayouts.withHits s.toKVState true freshPrompt).map fun a =>
          (a.numNewComputedTokens, overruns twoLayouts s.toKVState a))) =
        some (none, .ok (0, true)) := by decide +kernel
  obtain ⟨s, hstate, hpair⟩ := map_eq_some_iff.mp hrun
  obtain ⟨hcomputed, hcall⟩ := Prod.mk.inj hpair
  obtain ⟨a', hargs, hpair⟩ := Run.map_eq_ok hcall
  obtain ⟨hnum, hoverruns⟩ := Prod.mk.inj hpair
  obtain ⟨hrequest, hexternal, -⟩ := CacheConfig.withHits_request hargs
  have hcontinues : Continues (s.computed 2) true freshPrompt := by
    rw [hcomputed]
    decide
  refine ⟨s, a', Run.Reaches.start.runIf _ hstate, ⟨by decide, hcontinues⟩, hargs, ?_, ?_,
    not_exactCheck_of_overruns hoverruns⟩
  · rw [numLocal, hnum, hexternal, hrequest]
    decide
  · rw [hrequest]
    decide

end Vllm.KVCache
