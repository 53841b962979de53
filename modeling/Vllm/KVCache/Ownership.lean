import Vllm.KVCache.HitSource
import Vllm.KVCache.ManagerSound

/-! Ownership of blocks over whole runs of the KV-cache manager: the free queue, the reference
counts and the block tables agree in every reachable state. -/
namespace Vllm.KVCache
open BlockPool List Manager

/-! ### Loops over the managers -/

def groupsHeld (groups : List Group) : List BlockId := groups.flatMap fun g => g.2.held

@[simp] theorem groupsHeld_append (gs gs' : List Group) :
    groupsHeld (gs ++ gs') = groupsHeld gs ++ groupsHeld gs' :=
  flatMap_append

@[simp] theorem groupsHeld_cons (g : Group) (gs : List Group) :
    groupsHeld (g :: gs) = g.2.held ++ groupsHeld gs := rfl

@[simp] theorem groupsHeld_nil : groupsHeld [] = [] := rfl

variable {p : Nat → Manager → ManagerState → Prop}

section
variable {β : Type}
  {f : Nat → Manager → BlockPool → ManagerState → Except KVError (BlockPool × ManagerState × β)}

variable {pool : BlockPool} {frame : List BlockId} {st : ManagerState} {done rest : List Group}
  {c : PoolConfig}

variable {pool' : BlockPool} {groups' : List Group} {m : Manager}

/-- The rule for a loop over the managers: `I done rest pool` holds between two of them. -/
theorem overGroups_invariant {I : List Group → List Group → BlockPool → Prop}
    (hstep : ∀ done m st rest pool pool' st' out, I done ((m, st) :: rest) pool →
      f done.length m pool st = .ok (pool', st', out) → I (done ++ [(m, st')]) rest pool')
    (rest : List Group) (done : List Group) {outs : List β} (hinv : I done rest pool)
    (h : overGroups f done.length pool rest = .ok (pool', groups', outs)) :
    I (done ++ groups') [] pool' := by
  induction rest generalizing done pool groups' outs with
  | nil =>
    cases h
    rw [append_nil]
    exact hinv
  | cons g rest ih =>
    obtain ⟨m, st⟩ := g
    rw [overGroups] at h
    split at h
    · cases h
    rename_i pool₁ st₁ out hf
    split at h
    · cases h
    rename_i hrest
    cases h
    have hnext := hstep done m st rest _ _ _ _ hinv hf
    have hdone := ih (done ++ [(m, st₁)]) hnext
      (by rw [length_append, length_singleton]; exact hrest)
    rw [append_assoc] at hdone
    exact hdone

/-- What a method of one manager owes to the accounting: `pre` may be used, and `post` holds
of the new tables. -/
def KeepsAccounts (c : PoolConfig) (pre post : Nat → Manager → ManagerState → Prop)
    (f : Nat → Manager → BlockPool → ManagerState → Except KVError (BlockPool × ManagerState × β)) :
    Prop :=
  ∀ i m st pool pool' st' out frame, pre i m st → pool.toPoolConfig = c →
    pool.Sound (st.held ++ frame) → f i m pool st = .ok (pool', st', out) →
    (pool'.Sound (st'.held ++ frame) ∧ pool'.toPoolConfig = pool.toPoolConfig) ∧ post i m st'

def EachGroup (p : Nat → Manager → ManagerState → Prop) (groups : List Group) : Prop :=
  ∀ i g, groups[i]? = some g → p i g.1 g.2

theorem EachGroup.concat (h : EachGroup p done) (hlast : p done.length m st) :
    EachGroup p (done ++ [(m, st)]) := by
  intro i g hg
  rcases Nat.lt_or_ge i done.length with hlt | hge
  · rw [getElem?_append_left hlt] at hg
    exact h i g hg
  rw [getElem?_append_right hge] at hg
  obtain ⟨hlt, rfl⟩ := List.getElem?_eq_some_iff.mp hg
  have hi : i = done.length := by
    rw [length_singleton] at hlt
    omega
  subst hi
  simpa using hlast

def RestGroups (p : Nat → Manager → ManagerState → Prop) (done rest : List Group) : Prop :=
  ∀ i g, rest[i]? = some g → p (done.length + i) g.1 g.2

theorem RestGroups.next {g : Group} (h : RestGroups p done (g :: rest)) (g' : Group) :
    RestGroups p (done ++ [g']) rest := by
  intro i a ha
  have hnext := h (i + 1) a ha
  rw [length_append, Nat.add_right_comm]
  exact hnext

def BetweenGroups (c : PoolConfig) (frame : List BlockId) (done rest : List Group)
    (pool : BlockPool) : Prop :=
  pool.Sound (groupsHeld done ++ (groupsHeld rest ++ frame)) ∧ pool.toPoolConfig = c

theorem BetweenGroups.front (h : BetweenGroups c frame done ((m, st) :: rest) pool) :
    pool.Sound (st.held ++ (groupsHeld done ++ (groupsHeld rest ++ frame))) := by
  refine h.1.perm ?_
  rw [groupsHeld_cons, append_assoc]
  exact perm_append_comm_assoc _ _ _

theorem BetweenGroups.next (m : Manager) {pool : BlockPool}
    (hsound : pool.Sound (st.held ++ (groupsHeld done ++ (groupsHeld rest ++ frame))))
    (hconfig : pool.toPoolConfig = c) : BetweenGroups c frame (done ++ [(m, st)]) rest pool := by
  refine ⟨hsound.perm ?_, hconfig⟩
  rw [groupsHeld_append, groupsHeld_cons, groupsHeld_nil, append_nil, append_assoc]
  exact perm_append_comm_assoc _ _ _

theorem overGroups_sound {pre post : Nat → Manager → ManagerState → Prop}
    (hf : KeepsAccounts c pre post f) {groups : List Group} {outs : List β}
    (hpre : EachGroup pre groups) (hconfig : pool.toPoolConfig = c)
    (sound : pool.Sound (groupsHeld groups ++ frame))
    (h : overGroups f 0 pool groups = .ok (pool', groups', outs)) :
    pool'.Sound (groupsHeld groups' ++ frame) ∧ pool'.toPoolConfig = c ∧
      EachGroup post groups' := by
  have hrule := overGroups_invariant (f := f)
    (I := fun done rest pool => BetweenGroups c frame done rest pool ∧ EachGroup post done ∧
      RestGroups pre done rest) ?_ groups [] ⟨⟨sound, hconfig⟩, nofun, ?_⟩ h
  · obtain ⟨⟨hsound, hcfg⟩, hpost, -⟩ := hrule
    exact ⟨hsound, hcfg, hpost⟩
  · rintro done m st rest pool pool' st' out ⟨hbetween, hpost, hrest⟩ hok
    obtain ⟨⟨hsound, hcfg⟩, hpost'⟩ :=
      hf done.length m st pool pool' st' out _ (hrest 0 (m, st) rfl) hbetween.2 hbetween.front hok
    exact ⟨.next m hsound (hcfg.trans hbetween.2), hpost.concat hpost', hrest.next _⟩
  · intro i g hg
    simpa using hpre i g hg

end

namespace KVState

/-- The accounting of a state; `frame` are references outside the tables. -/
def Owned (c : PoolConfig) (s : KVState) (frame : List BlockId) : Prop :=
  s.pool.Sound (groupsHeld s.groups ++ frame) ∧ s.pool.toPoolConfig = c

variable {new : List (List BlockId)} {cfg : CacheConfig} {request : Request}

section
variable {c : PoolConfig} {s s' : KVState} {frame : List BlockId}
  {p q : Nat → Manager → ManagerState → Prop}
  {f : Nat → Manager → BlockPool → ManagerState → Except KVError (BlockPool × ManagerState)}

theorem forGroups_owned {β : Type}
    {f : Nat → Manager → BlockPool → ManagerState → Except KVError (BlockPool × ManagerState × β)}
    (hf : KeepsAccounts c p q f) (owned : s.Owned c frame) (hpre : EachGroup p s.groups)
    {outs : List β} (h : s.forGroups f = .ok (s', outs)) :
    s'.Owned c frame ∧ EachGroup q s'.groups := by
  unfold forGroups at h
  split at h
  · cases h
  rename_i hover
  cases h
  obtain ⟨hsound, hcfg, hpost⟩ := overGroups_sound hf hpre owned.2 owned.1 hover
  exact ⟨⟨hsound, hcfg⟩, hpost⟩

theorem forGroupsUnit_owned (hf : ∀ i m st pool pool' st' frame, p i m st → pool.toPoolConfig = c →
      pool.Sound (st.held ++ frame) → f i m pool st = .ok (pool', st') →
      (pool'.Sound (st'.held ++ frame) ∧ pool'.toPoolConfig = pool.toPoolConfig) ∧ q i m st')
    (owned : s.Owned c frame) (hpre : EachGroup p s.groups) (h : s.forGroupsUnit f = .ok s') :
    s'.Owned c frame ∧ EachGroup q s'.groups := by
  unfold forGroupsUnit at h
  split at h
  · cases h
  rename_i hfor
  cases h
  refine forGroups_owned (fun i m st pool pool' st' out frame hpre hcfg hsound hok => ?_) owned
    hpre hfor
  obtain ⟨result, hfst, heq⟩ := Run.map_eq_ok hok
  cases heq
  exact hf i m st pool result.1 result.2 frame hpre hcfg hsound hfst

theorem forGroupsUnit_owned_of_sound
    (hf : ∀ i m st pool pool' st' frame, pool.Sound (st.held ++ frame) →
      f i m pool st = .ok (pool', st') →
      pool'.Sound (st'.held ++ frame) ∧ pool'.toPoolConfig = pool.toPoolConfig)
    (owned : s.Owned c frame) (h : s.forGroupsUnit f = .ok s') : s'.Owned c frame := by
  have hkeep := forGroupsUnit_owned (p := fun _ _ _ => True) (q := fun _ _ _ => True)
    (fun i m st pool pool' st' frame _ _ hsound hok =>
      ⟨hf i m st pool pool' st' frame hsound hok, trivial⟩) owned (fun _ _ _ => trivial) h
  exact hkeep.1

variable {r : ReqId}

section
variable (owned : s.Owned c frame)
include owned

theorem removeSkippedBlocks_owned {total : Nat} {numPrompt : Option Nat}
    (h : s.removeSkippedBlocks r total numPrompt = .ok s') : s'.Owned c frame :=
  forGroupsUnit_owned_of_sound (fun _ _ _ _ _ _ _ hsound hok =>
    removeSkippedBlocks_sound hsound hok) owned h

theorem cacheBlocks_owned {numComputed : Nat} (h : s.cacheBlocks cfg request numComputed = .ok s') :
    s'.Owned c frame :=
  forGroupsUnit_owned_of_sound (fun _ _ _ _ _ _ _ hsound hok =>
    cacheBlocks_sound hsound hok) owned h

theorem free_owned (h : s.free r = .ok s') : s'.Owned c frame := by
  refine forGroupsUnit_owned_of_sound (fun i m st pool pool' st' frame hsound hok => ?_) owned h
  cases hok
  exact ⟨st.free_sound hsound r, rfl⟩

theorem allocateNewBlocks_owned {numTokens numTokensMain numEncoder : Nat}
    (h : s.allocateNewBlocks r numTokens numTokensMain numEncoder = .ok (s', new)) :
    s'.Owned c frame := by
  have hkeep := forGroups_owned (p := fun _ _ _ => True) (q := fun _ _ _ => True)
    (fun i m st pool pool' st' out frame _ _ hsound hok =>
      ⟨allocateNewBlocks_sound hsound hok, trivial⟩) owned (fun _ _ _ => trivial) h
  exact hkeep.1

theorem newStepStarts_owned : s.newStepStarts.Owned c frame := by
  have hheld : groupsHeld s.newStepStarts.groups = groupsHeld s.groups := by
    simp only [groupsHeld, newStepStarts, flatMap_map]
    rfl
  refine ⟨?_, owned.2⟩
  rw [hheld]
  exact owned.1

theorem popBlocksForFree_owned (r : ReqId) :
    (s.popBlocksForFree r).1.Owned c ((s.popBlocksForFree r).2 ++ frame) := by
  refine ⟨owned.1.perm ?_, owned.2⟩
  rw [← append_assoc]
  refine Perm.append_right frame ?_
  simp only [popBlocksForFree]
  induction s.groups with
  | nil => exact .refl _
  | cons g gs ih =>
    simp only [groupsHeld_cons, map_cons, flatMap_cons]
    refine ((g.2.popBlocksForFree_perm r).append ih).trans ?_
    refine (perm_append_comm.append_right _).trans ?_
    rw [append_assoc, append_assoc]
    refine Perm.append_left _ ?_
    rw [← append_assoc, ← append_assoc]
    exact perm_append_comm.append_right _

end

end

/-! ### Allocation -/

/-- Hits for a group that are not longer than the tokens computed after the call. -/
def HitFits (hits : List (List BlockId)) (numLocal numExternal : Nat) (i : Nat) (m : Manager) :
    Prop :=
  numExternal = 0 ∨
    (hits.getD i []).length ≤ PySeq.cdiv (numLocal + numExternal) m.blockSize

section
variable {c : PoolConfig} {s s' : KVState} {frame : List BlockId} {hits : List (List BlockId)}
  {a : SlotArgs} {numLocal numExternal : Nat} {r : ReqId}

theorem allocateNewComputedBlocks_cases
    (h : s.allocateNewComputedBlocks r hits numLocal numExternal = .ok s') :
    (s.groups.any (fun g => (g.2.numCachedBlock r).isSome) = true ∧ s' = s) ∨
      ∃ s₁, s.forGroupsUnit (fun i m pool st =>
          m.addLocalComputedBlocks pool st r (hits.getD i []) numLocal numExternal) = .ok s₁ ∧
        (0 < numExternal ∧ s₁.forGroupsUnit (fun _ m pool st =>
            m.allocateExternalComputedBlocks pool st r numLocal numExternal) = .ok s' ∨
          numExternal = 0 ∧ s' = s₁) := by
  unfold allocateNewComputedBlocks at h
  split at h
  · rename_i htracked
    split at h
    · cases h
    · cases h
      exact .inl ⟨htracked, rfl⟩
  split at h
  · cases h
  rename_i s₁ hlocal
  refine .inr ⟨s₁, hlocal, ?_⟩
  split at h
  · rename_i hext
    exact .inl ⟨hext, h⟩
  · rename_i hext
    cases h
    exact .inr ⟨Nat.eq_zero_of_not_pos hext, rfl⟩

theorem takeBlocks_cases (h : s.takeBlocks cfg a = .ok (s', new)) :
    ∃ s₁, ((a.newComputedBlocks.any (· ≠ []) ∨ 0 < a.numExternalComputedTokens) ∧
          s.allocateNewComputedBlocks a.request.requestId a.newComputedBlocks a.numLocal
            a.numExternalComputedTokens = .ok s₁ ∨
        ¬ (a.newComputedBlocks.any (· ≠ []) ∨ 0 < a.numExternalComputedTokens) ∧ s₁ = s) ∧
      s₁.allocateNewBlocks a.request.requestId (a.numTokensNeedSlot cfg.maxModelLen)
        (a.numTokensMain cfg.maxModelLen) a.numEncoderTokens = .ok (s', new) := by
  unfold takeBlocks at h
  simp only at h
  split at h
  · cases h
  rename_i s₁ hcomputed
  refine ⟨s₁, ?_, h⟩
  split at hcomputed
  · rename_i hphase
    exact .inl ⟨hphase, hcomputed⟩
  · rename_i hphase
    cases hcomputed
    exact .inr ⟨hphase, rfl⟩

/-- A refused call does no more than `remove_skipped_blocks`. -/
theorem allocateSlots_cases {new : Option (List (List BlockId))}
    (h : s.allocateSlots cfg a = .ok (s', new)) :
    (new = none ∧ s' = s) ∨
      ∃ s₁, s.removeSkippedBlocks a.request.requestId (a.totalComputed cfg.maxModelLen)
          (some a.request.numPromptTokens) = .ok s₁ ∧
        (new = none ∧ s' = s₁ ∨ ∃ s₂ out, s₁.takeBlocks cfg a = .ok (s₂, out) ∧
          s₂.commitBlocks cfg a = .ok s' ∧ new = some out) := by
  unfold allocateSlots at h
  split at h
  · cases h
  split at h
  · cases h
  · cases h
    exact .inl ⟨rfl, rfl⟩
  split at h
  · cases h
  rename_i s₁ hremove
  refine .inr ⟨s₁, hremove, ?_⟩
  split at h
  · cases h
  split at h
  · cases h
    exact .inl ⟨rfl, rfl⟩
  split at h
  · cases h
  rename_i s₂ out htake
  split at h
  · cases h
  · rename_i hcommit
    cases h
    exact .inr ⟨s₂, out, htake, hcommit, rfl⟩

def HitsLive (c : PoolConfig) (hits : List (List BlockId)) : Prop :=
  ∀ i, ∀ b ∈ hits.getD i [], b = nullBlock ∨ (b ≠ nullBlock ∧ b < c.numGpuBlocks)

/-- The accounting of the computed blocks, with what hits make of every table (`p` to `q`) and
external tokens keep. -/
theorem allocateNewComputedBlocks_each (owned : s.Owned c frame) (hlive : HitsLive c hits)
    (hfit : EachGroup (fun i m _ => HitFits hits numLocal numExternal i m) s.groups)
    {q : Nat → Manager → ManagerState → Prop} (hp : EachGroup p s.groups)
    (hhits : ∀ i m st pool pool' st', p i m st →
      m.addLocalComputedBlocks pool st r (hits.getD i []) numLocal numExternal = .ok (pool', st') →
      q i m st')
    (hexternal : ∀ i m st pool pool' st' frame, q i m st → pool.Sound (st.held ++ frame) →
      m.allocateExternalComputedBlocks pool st r numLocal numExternal = .ok (pool', st') →
      q i m st') (h : s.allocateNewComputedBlocks r hits numLocal numExternal = .ok s') :
    s'.Owned c frame ∧
      (s.groups.any (fun g => (g.2.numCachedBlock r).isSome) = false → EachGroup q s'.groups) := by
  rcases allocateNewComputedBlocks_cases h with ⟨htracked, rfl⟩ | ⟨s₁, hlocal, hlast⟩
  · exact ⟨owned, fun hnone => Bool.noConfusion (htracked.symm.trans hnone)⟩
  -- after the hits, the tables still end before the external tokens do
  have hphase : s₁.Owned c frame ∧ EachGroup (fun i m st => (numExternal = 0 ∨
      (m.spec.kind ≠ .crossAttention → 0 < m.externalInWindow numLocal numExternal →
        (st.blocksOf r).length ≤ PySeq.cdiv (numLocal + numExternal) m.blockSize)) ∧ q i m st)
      s₁.groups := by
    refine forGroupsUnit_owned (p := fun i m st => HitFits hits numLocal numExternal i m ∧ p i m st)
      (fun i m st pool pool' st' frame hpre hcfg hsound hok => ?_)
      owned (fun i g hg => ⟨hfit i g hg, hp i g hg⟩) hlocal
    refine ⟨addLocalComputedBlocks_sound hsound (fun b hb => ?_) hok, ?_,
      hhits i m st pool pool' st' hpre.2 hok⟩
    · have hb' := hlive i b hb
      rw [← hcfg] at hb'
      exact hb'
    · refine hpre.1.imp_right fun hlen hcross hwindow => ?_
      rcases addLocalComputedBlocks_cases hok with ⟨hc, -⟩ | ⟨-, -, -, rfl⟩
      · exact absurd hc hcross
      have hpad := numSkippedBlocks_le (getNumSkippedTokens_le_of_inWindow hwindow)
      have htable := m.localTable_length (hits.getD i []) (numLocal + numExternal)
      have hblocks := ManagerState.blocksOf_setBlocks st r
        (m.localTable (hits.getD i []) (numLocal + numExternal))
      refine Nat.le_trans (Nat.le_of_eq (congrArg length hblocks)) ?_
      rw [htable]
      exact Nat.max_le.mpr ⟨hpad, hlen⟩
  rcases hlast with ⟨hext, hok⟩ | ⟨-, rfl⟩
  · have hkeep := forGroupsUnit_owned (q := q) (fun i m st pool pool' st' frame hpre _ hsound hok =>
        ⟨allocateExternalComputedBlocks_sound hsound
          (hpre.1.resolve_left (Nat.ne_of_gt hext)) hok,
          hexternal i m st pool pool' st' frame hpre.2 hsound hok⟩) hphase.1 hphase.2 hok
    exact ⟨hkeep.1, fun _ => hkeep.2⟩
  · exact ⟨hphase.1, fun _ i g hg => (hphase.2 i g hg).2⟩

variable {cfg : CacheConfig} {a : SlotArgs}

variable (owned : s.Owned c frame)
include owned

theorem takeBlocks_owned (hlive : HitsLive c a.newComputedBlocks)
    (hfit : EachGroup (fun i m _ =>
      HitFits a.newComputedBlocks a.numLocal a.numExternalComputedTokens i m) s.groups)
    (h : s.takeBlocks cfg a = .ok (s', new)) : s'.Owned c frame := by
  obtain ⟨s₁, ⟨-, hcomputed⟩ | ⟨-, rfl⟩, hnew⟩ := takeBlocks_cases h
  · have hkeep := allocateNewComputedBlocks_each (p := fun _ _ _ => True) (q := fun _ _ _ => True)
      owned hlive hfit (fun _ _ _ => trivial) (fun _ _ _ _ _ _ _ _ => trivial)
      (fun _ _ _ _ _ _ _ _ _ _ => trivial) hcomputed
    exact allocateNewBlocks_owned hkeep.1 hnew
  · exact allocateNewBlocks_owned owned hnew

theorem commitBlocks_owned (h : s.commitBlocks cfg a = .ok s') :
    s'.Owned c frame := by
  unfold commitBlocks at h
  split at h
  · cases h
    exact owned
  · exact cacheBlocks_owned owned h

theorem allocateSlots_owned (hlive : HitsLive c a.newComputedBlocks)
    (hfit : EachGroup (fun i m _ =>
      HitFits a.newComputedBlocks a.numLocal a.numExternalComputedTokens i m) s.groups)
    {new : Option (List (List BlockId))} (h : s.allocateSlots cfg a = .ok (s', new)) :
    s'.Owned c frame := by
  rcases allocateSlots_cases h with ⟨-, rfl⟩ | ⟨s₁, hremove, htaken⟩
  · exact owned
  have hphase := forGroupsUnit_owned (q := fun i m _ =>
      HitFits a.newComputedBlocks a.numLocal a.numExternalComputedTokens i m)
    (fun i m st pool pool' st' frame hpre _ hsound hok =>
      ⟨removeSkippedBlocks_sound hsound hok, hpre⟩) owned hfit hremove
  rcases htaken with ⟨-, rfl⟩ | ⟨s₂, out, htake, hcommit, -⟩
  · exact hphase.1
  · exact commitBlocks_owned (takeBlocks_owned hphase.1 hlive hphase.2 htake) hcommit

theorem hitsLive_of_getComputedBlocks {L : Nat}
    (h : cfg.getComputedBlocks s request = .ok (hits, L)) :
    HitsLive c hits := by
  intro i b hb
  obtain ⟨k, hk⟩ := mem_iff_getElem?.mp hb
  obtain ⟨g, -, -, hnull | ⟨hash, -, hone⟩⟩ := CacheConfig.getComputedBlocks_source h hk
  · exact .inl hnull
  · have hlive := owned.1.cached_live _ b (mem_of_head? hone)
    rw [IsLive, owned.2] at hlive
    exact .inr hlive

end
end KVState
end Vllm.KVCache
