import Vllm.KVCache.Ownership

/-! How the operations change the block tables: an operation for one request leaves the other
requests alone, and tables only get longer until they are freed. -/
namespace Vllm.KVCache
open List PySeq

def Manager.numSpeculative (m : Manager) : Nat :=
  match m.spec.kind with
  | .mamba _ numSpec => numSpec
  | _ => 0

namespace ManagerState

theorem blocksOf_setBlocks_of_ne (st : ManagerState) {r r' : ReqId} (h : r' ≠ r)
    (blocks : List BlockId) : (st.setBlocks r blocks).blocksOf r' = st.blocksOf r' :=
  ListDict.get_insert_of_ne st.reqToBlocks h blocks

/-- A request that has as many blocks as before and is tracked as before. -/
structure SameFor (r : ReqId) (st st' : ManagerState) : Prop where
  length_eq : (st'.blocksOf r).length = (st.blocksOf r).length
  tracked : st'.numCachedBlock r = st.numCachedBlock r
  allocated : st'.allocatedBlockReqs r = st.allocatedBlockReqs r

/-- The tables after an operation of `m` for request `r`. -/
structure Grown (m : Manager) (r : ReqId) (st st' : ManagerState) : Prop where
  length_le : (st.blocksOf r).length ≤ (st'.blocksOf r).length
  others : ∀ r' ≠ r, SameFor r' st st'
  reserved : st'.allocatedBlockReqs r = true →
    st.allocatedBlockReqs r = true ∨ m.numSpeculative ≤ (st'.blocksOf r).length

variable {m : Manager} {r : ReqId} {st st₁ st' : ManagerState} {blocks : List BlockId}

theorem SameFor.refl (r : ReqId) (st : ManagerState) : SameFor r st st := ⟨rfl, rfl, rfl⟩

theorem SameFor.trans (h : SameFor r st st₁) (h' : SameFor r st₁ st') : SameFor r st st' :=
  ⟨h'.length_eq.trans h.length_eq, h'.tracked.trans h.tracked, h'.allocated.trans h.allocated⟩

theorem SameFor.setBlocks (st : ManagerState) {r r' : ReqId}
    (h : r' = r → blocks.length = (st.blocksOf r).length) :
    SameFor r' st (st.setBlocks r blocks) := by
  refine ⟨?_, rfl, rfl⟩
  by_cases hr : r' = r
  · subst hr
    rw [blocksOf_setBlocks, h rfl]
  · rw [st.blocksOf_setBlocks_of_ne hr]

theorem Grown.of_same (m : Manager) (r : ReqId) (h : ∀ r', SameFor r' st st') :
    Grown m r st st' where
  length_le := Nat.le_of_eq (h r).length_eq.symm
  others r' _ := h r'
  reserved hallocated := .inl ((h r).allocated ▸ hallocated)

theorem Grown.refl (m : Manager) (r : ReqId) (st : ManagerState) : Grown m r st st :=
  .of_same m r fun r' => .refl r' st

theorem Grown.trans (h : Grown m r st st₁) (h' : Grown m r st₁ st') : Grown m r st st' where
  length_le := h.length_le.trans h'.length_le
  others r' hr' := (h.others r' hr').trans (h'.others r' hr')
  reserved hallocated := by
    rcases h'.reserved hallocated with hfirst | hlen
    · exact (h.reserved hfirst).imp_right fun hlen => hlen.trans h'.length_le
    · exact .inr hlen

theorem Grown.setBlocks (m : Manager) (st : ManagerState) {r : ReqId}
    (h : (st.blocksOf r).length ≤ blocks.length) : Grown m r st (st.setBlocks r blocks) where
  length_le := by
    rw [blocksOf_setBlocks]
    exact h
  others r' hr' := .setBlocks st fun hr => absurd hr hr'
  reserved hallocated := .inl hallocated

theorem Grown.setNumCached (h : Grown m r st st') (n : Nat) :
    Grown m r st (st'.setNumCached r n) where
  length_le := h.length_le
  others r' hr' := by
    have hsame := h.others r' hr'
    exact ⟨hsame.length_eq, (Function.update_of_ne hr' _ _).trans hsame.tracked, hsame.allocated⟩
  reserved := h.reserved

/-- Tables of the same lengths, for requests that are tracked as before. -/
def SameShape (st st' : ManagerState) : Prop := ∀ r, SameFor r st st'

end ManagerState

variable {numPrompt : Option Nat} {numExternal total : Nat} {request : Request}

namespace Manager
open ManagerState

variable {m : Manager} {pool pool' : BlockPool} {st st' : ManagerState} {r : ReqId}
  {new : List BlockId} {numTokens : Nat}

theorem removeBackward_length (first i : Nat) (blocks : List BlockId) :
    (removeBackward first i blocks).1.length = blocks.length := by
  induction i generalizing blocks with
  | zero => rfl
  | succ i ih =>
    rw [removeBackward]
    split
    · rfl
    · split
      · rfl
      · rw [ih, length_set]

theorem baseRemoveSkippedBlocks_shape (m : Manager) (pool : BlockPool) (st : ManagerState)
    (r : ReqId) (numComputed : Nat) :
    SameShape st (m.baseRemoveSkippedBlocks pool st r numComputed).2 := by
  intro r'
  unfold baseRemoveSkippedBlocks
  split
  · exact .refl r' st
  · exact .setBlocks st fun _ => removeBackward_length _ _ _

theorem removeSkippedBlocks_shape
    (h : m.removeSkippedBlocks pool st r total numPrompt = .ok (pool', st')) :
    SameShape st st' := by
  unfold removeSkippedBlocks at h
  split at h
  · split at h
    · have hbase := baseRemoveSkippedBlocks_shape m pool st r total
      rw [Except.ok.inj h] at hbase
      exact hbase
    · cases h
      exact fun r' => .setBlocks st fun _ => removeBackward_length _ _ _
  · rename_i mode numSpec _
    have hbase := baseRemoveSkippedBlocks_shape m pool st r (total - numSpec)
    simp only at h
    generalize m.baseRemoveSkippedBlocks pool st r (total - numSpec) = base at h hbase
    split at h
    · cases h
      exact hbase
    split at h
    · split at h
      · cases h
      split at h
      · cases h
        exact hbase
      · cases h
        exact fun r' => (hbase r').trans (.setBlocks base.2 fun _ => length_set ..)
    · cases h
      exact hbase
  · have hbase := baseRemoveSkippedBlocks_shape m pool st r total
    rw [Except.ok.inj h] at hbase
    exact hbase

theorem addLocalComputedBlocks_grown {hits : List BlockId} {numLocal : Nat}
    (h : m.addLocalComputedBlocks pool st r hits numLocal numExternal = .ok (pool', st')) :
    Grown m r st st' := by
  rcases addLocalComputedBlocks_cases h with ⟨-, -, -, rfl⟩ | ⟨-, hempty, -, rfl⟩
  · exact .refl m r st'
  · refine (Grown.setBlocks m st ?_).setNumCached _
    rw [hempty]
    exact Nat.zero_le _

theorem allocateExternalComputedBlocks_grown {numLocal : Nat}
    (h : m.allocateExternalComputedBlocks pool st r numLocal numExternal = .ok (pool', st')) :
    Grown m r st st' := by
  unfold allocateExternalComputedBlocks at h
  simp only at h
  split at h
  · cases h
    exact .refl m r st
  split at h
  · cases h
    exact .refl m r st
  split at h
  · cases h
  · cases h
    exact .setBlocks m st (by rw [length_append]; omega)

theorem cacheBlocks_grown {retention : Option Nat}
    (h : m.cacheBlocks pool st request numTokens retention = .ok (pool', st')) :
    Grown m request.requestId st st' := by
  rcases cacheBlocks_cases h with ⟨-, rfl⟩ | ⟨mask, keys, -, rfl⟩
  · exact .refl m _ st'
  have hsame := (Grown.refl m request.requestId st).setNumCached (numTokens / m.blockSize)
  exact ⟨hsame.length_le, fun r' hr' => ⟨rfl, (hsame.others r' hr').tracked, rfl⟩, hsame.reserved⟩

/-- The table of a request after an allocation that covers `numTokens` tokens. -/
structure Extended (m : Manager) (r : ReqId) (numTokens : Nat) (st st' : ManagerState) :
    Prop where
  grown : Grown m r st st'
  covers : m.spec.kind ≠ .crossAttention →
    cdiv numTokens m.blockSize ≤ (st'.blocksOf r).length

theorem baseAllocateNewBlocks_grown
    (h : m.baseAllocateNewBlocks pool st r numTokens = .ok (pool', st', new)) :
    Grown m r st st' ∧ cdiv numTokens m.blockSize ≤ (st'.blocksOf r).length := by
  unfold baseAllocateNewBlocks at h
  simp only at h
  split at h
  · cases h
    exact ⟨.refl m r st, by omega⟩
  split at h
  · cases h
  rename_i hget
  cases h
  have hlen := BlockPool.getNewBlocks_length hget
  refine ⟨.setBlocks m st (by rw [length_append]; omega), ?_⟩
  rw [blocksOf_setBlocks, length_append]
  omega

theorem alignAllocateNewBlocks_grown {numSpec numTokensMain : Nat}
    (hspec : m.numSpeculative = numSpec)
    (h : m.alignAllocateNewBlocks numSpec pool st r numTokensMain = .ok (pool', st', new)) :
    Grown m r st st' ∧
      cdiv numTokensMain m.blockSize + numSpec ≤ (st'.blocksOf r).length := by
  unfold alignAllocateNewBlocks at h
  simp only at h
  split at h
  · cases h
    exact ⟨.refl m r st, by omega⟩
  split at h
  · cases h
  rename_i moved hmoved
  generalize (if st.allocatedBlockReqs r = true then 1 else (numSpec : Int) + 1) = limit at h
  split at h
  · cases h
  split at h
  · cases h
  rename_i new hget
  cases h
  have hlen := BlockPool.getNewBlocks_length hget
  have htable : cdiv numTokensMain m.blockSize + numSpec ≤ (moved ++ new).length := by
    rw [length_append]
    omega
  have hlonger : (st.blocksOf r).length ≤ (moved ++ new).length := by
    omega
  have hset := Grown.setBlocks m st hlonger
  have hblocks : (st.setBlocks r (moved ++ new)).blocksOf r = moved ++ new := blocksOf_setBlocks ..
  refine ⟨⟨hset.length_le, fun r' hr' => ?_, fun _ => .inr ?_⟩, ?_⟩
  · have hsame := hset.others r' hr'
    exact ⟨hsame.length_eq, hsame.tracked, Function.update_of_ne hr' _ _⟩
  · refine Nat.le_trans ?_ (Nat.le_of_eq (congrArg length hblocks).symm)
    omega
  · exact htable.trans (Nat.le_of_eq (congrArg length hblocks).symm)

theorem allocateNewBlocks_extended {numTokensMain numEncoder covered : Nat}
    (hslots : covered ≤ numTokens) (hmain : covered ≤ numTokensMain)
    (h : m.allocateNewBlocks pool st r
      (if m.spec.kind = .crossAttention then numEncoder else numTokens) numTokensMain =
        .ok (pool', st', new)) : m.Extended r covered st st' := by
  unfold allocateNewBlocks at h
  split at h
  · rename_i mode numSpec hkind
    have hcross : m.spec.kind ≠ .crossAttention := by
      rw [hkind]
      exact nofun
    split at h
    · have hspec : m.numSpeculative = numSpec := by
        rw [numSpeculative, hkind]
      obtain ⟨hgrown, hlen⟩ := alignAllocateNewBlocks_grown hspec h
      refine ⟨hgrown, fun _ => ?_⟩
      have hmono : cdiv covered m.blockSize ≤ cdiv numTokensMain m.blockSize := cdiv_mono hmain
      omega
    · obtain ⟨hgrown, hlen⟩ := baseAllocateNewBlocks_grown h
      exact ⟨hgrown, fun _ => (cdiv_mono (by omega)).trans hlen⟩
  · obtain ⟨hgrown, hlen⟩ := baseAllocateNewBlocks_grown h
    refine ⟨hgrown, fun hcross => ?_⟩
    rw [if_neg hcross] at hlen
    exact (cdiv_mono hslots).trans hlen

end Manager

/-! ### The same for all groups -/

def GroupsRel (R : Manager → ManagerState → ManagerState → Prop) : List Group → List Group → Prop :=
  Forall₂ fun g g' => g'.1 = g.1 ∧ R g.1 g.2 g'.2

variable {R : Manager → ManagerState → ManagerState → Prop} {groups' groups : List Group} {β : Type}

theorem GroupsRel.refl (hrefl : ∀ m st, R m st st) (groups : List Group) :
    GroupsRel R groups groups :=
  forall₂_same.mpr fun g _ => ⟨rfl, hrefl g.1 g.2⟩

theorem GroupsRel.trans {R' R'' : Manager → ManagerState → ManagerState → Prop}
    (hcomp : ∀ m st st₁ st', R m st st₁ → R' m st₁ st' → R'' m st st') {groups₁ : List Group}
    (h : GroupsRel R groups groups₁) (h' : GroupsRel R' groups₁ groups') :
    GroupsRel R'' groups groups' := by
  induction h generalizing groups' with
  | nil =>
    cases h'
    exact .nil
  | cons hhead _ ih =>
    cases h' with
    | cons hhead' htail' =>
      refine .cons ⟨hhead'.1.trans hhead.1, ?_⟩ (ih htail')
      exact hcomp _ _ _ _ hhead.2 (hhead.1 ▸ hhead'.2)

theorem GroupsRel.managers (h : GroupsRel R groups groups') :
    groups'.map Prod.fst = groups.map Prod.fst := by
  induction h with
  | nil => rfl
  | cons hhead _ ih => rw [map_cons, map_cons, hhead.1, ih]

theorem EachGroup.of_rel {p q : Nat → Manager → ManagerState → Prop}
    (hstep : ∀ i m st st', R m st st' → p i m st → q i m st') (hp : EachGroup p groups)
    (h : GroupsRel R groups groups') : EachGroup q groups' := by
  intro i g' hg'
  obtain ⟨hlt', hget'⟩ := List.getElem?_eq_some_iff.mp hg'
  have hlt : i < groups.length := h.length_eq ▸ hlt'
  obtain ⟨hm, hR⟩ := Forall₂.get h hlt hlt'
  rw [get_eq_getElem, get_eq_getElem, hget'] at hm hR
  rw [hm]
  exact hstep i _ _ _ hR (hp i _ (getElem?_eq_getElem hlt))

theorem overGroups_rel
    {f : Nat → Manager → BlockPool → ManagerState → Except KVError (BlockPool × ManagerState × β)}
    (hf : ∀ i m pool st pool' st' out, f i m pool st = .ok (pool', st', out) → R m st st')
    (groups : List Group) (i : Nat) {pool pool' : BlockPool} {outs : List β}
    (h : overGroups f i pool groups = .ok (pool', groups', outs)) : GroupsRel R groups groups' := by
  induction groups generalizing i pool groups' outs with
  | nil =>
    cases h
    exact .nil
  | cons g groups ih =>
    obtain ⟨m, st⟩ := g
    rw [overGroups] at h
    split at h
    · cases h
    rename_i hhead
    split at h
    · cases h
    · rename_i hrest
      cases h
      exact .cons ⟨rfl, hf i m _ st _ _ _ hhead⟩ (ih (i + 1) hrest)

namespace KVState
open ManagerState

variable {s s' : KVState} {R : Manager → ManagerState → ManagerState → Prop} {r : ReqId}

theorem forGroups_rel
    {f : Nat → Manager → BlockPool → ManagerState → Except KVError (BlockPool × ManagerState × β)}
    (hf : ∀ i m pool st pool' st' out, f i m pool st = .ok (pool', st', out) → R m st st')
    {outs : List β} (h : s.forGroups f = .ok (s', outs)) : GroupsRel R s.groups s'.groups := by
  unfold forGroups at h
  split at h
  · cases h
  · rename_i hover
    cases h
    exact overGroups_rel hf _ 0 hover

theorem forGroupsUnit_rel
    {f : Nat → Manager → BlockPool → ManagerState → Except KVError (BlockPool × ManagerState)}
    (hf : ∀ i m pool st pool' st', f i m pool st = .ok (pool', st') → R m st st')
    (h : s.forGroupsUnit f = .ok s') : GroupsRel R s.groups s'.groups := by
  unfold forGroupsUnit at h
  split at h
  · cases h
  rename_i hfor
  cases h
  refine forGroups_rel (fun i m pool st pool' st' out hok => ?_) hfor
  obtain ⟨p, hstep, heq⟩ := Run.map_eq_ok hok
  cases heq
  exact hf i m pool st _ _ hstep

theorem removeSkippedBlocks_shape (h : s.removeSkippedBlocks r total numPrompt = .ok s') :
    GroupsRel (fun _ => SameShape) s.groups s'.groups :=
  forGroupsUnit_rel (fun _ _ _ _ _ _ hok => Manager.removeSkippedBlocks_shape hok) h

variable {cfg : CacheConfig} {a : SlotArgs}

theorem cacheBlocks_grown {numComputed : Nat} (h : s.cacheBlocks cfg request numComputed = .ok s') :
    GroupsRel (fun m => Grown m request.requestId) s.groups s'.groups :=
  forGroupsUnit_rel (fun _ _ _ _ _ _ hok => Manager.cacheBlocks_grown hok) h

theorem commitBlocks_grown (h : s.commitBlocks cfg a = .ok s') :
    GroupsRel (fun m => Grown m a.request.requestId) s.groups s'.groups := by
  unfold commitBlocks at h
  split at h
  · cases h
    exact .refl (fun m => Grown.refl m _) _
  · exact cacheBlocks_grown h

theorem allocateNewComputedBlocks_grown {hits : List (List BlockId)} {numLocal : Nat}
    (h : s.allocateNewComputedBlocks r hits numLocal numExternal = .ok s') :
    GroupsRel (fun m => Grown m r) s.groups s'.groups := by
  rcases allocateNewComputedBlocks_cases h with ⟨-, rfl⟩ | ⟨s₁, hlocal, hexternal⟩
  · exact .refl (fun m => Grown.refl m r) _
  have hfirst := forGroupsUnit_rel (R := fun m => Grown m r)
    (fun _ _ _ _ _ _ hok => Manager.addLocalComputedBlocks_grown hok) hlocal
  rcases hexternal with ⟨-, hok⟩ | ⟨-, rfl⟩
  · have hsecond := forGroupsUnit_rel (R := fun m => Grown m r)
      (fun _ _ _ _ _ _ hok => Manager.allocateExternalComputedBlocks_grown hok) hok
    exact hfirst.trans (fun _ _ _ _ h h' => h.trans h') hsecond
  · exact hfirst

def covered (cfg : CacheConfig) (a : SlotArgs) : Nat :=
  min (a.numTokensMain cfg.maxModelLen) cfg.maxModelLen

theorem takeBlocks_extended {new : List (List BlockId)} (h : s.takeBlocks cfg a = .ok (s', new)) :
    GroupsRel (fun m => m.Extended a.request.requestId (covered cfg a)) s.groups s'.groups := by
  obtain ⟨s₁, hcomputed, hnew⟩ := takeBlocks_cases h
  have hfirst : GroupsRel (fun m => Grown m a.request.requestId) s.groups s₁.groups := by
    rcases hcomputed with ⟨-, hcomputed⟩ | ⟨-, rfl⟩
    · exact allocateNewComputedBlocks_grown hcomputed
    · exact .refl (fun m => Grown.refl m _) _
  have hslots : covered cfg a ≤ a.numTokensNeedSlot cfg.maxModelLen := by
    unfold covered SlotArgs.numTokensNeedSlot SlotArgs.numTokensMain
    omega
  have hmain : covered cfg a ≤ a.numTokensMain cfg.maxModelLen := Nat.min_le_left _ _
  have hsecond := forGroups_rel (R := fun m => m.Extended a.request.requestId (covered cfg a))
    (fun _ _ _ _ _ _ _ hok => Manager.allocateNewBlocks_extended hslots hmain hok) hnew
  refine hfirst.trans (fun m st st₁ st' hgrown hext => ?_) hsecond
  exact ⟨hgrown.trans hext.grown, hext.covers⟩

theorem allocateSlots_tables {new : Option (List (List BlockId))}
    (h : s.allocateSlots cfg a = .ok (s', new)) :
    match new with
    | none => GroupsRel (fun _ => SameShape) s.groups s'.groups
    | some _ =>
      GroupsRel (fun m => m.Extended a.request.requestId (covered cfg a)) s.groups s'.groups := by
  rcases allocateSlots_cases h with ⟨rfl, rfl⟩ | ⟨s₁, hremove, htaken⟩
  · exact .refl (fun _ st r => .refl r st) _
  have hshape := removeSkippedBlocks_shape hremove
  rcases htaken with ⟨rfl, rfl⟩ | ⟨s₂, out, htake, hcommit, rfl⟩
  · exact hshape
  have hsecond : GroupsRel (fun m => m.Extended a.request.requestId (covered cfg a))
      s.groups s₂.groups := by
    refine hshape.trans (fun m st st₁ st' hsame hext => ?_) (takeBlocks_extended htake)
    exact ⟨(Grown.of_same m _ hsame).trans hext.grown, hext.covers⟩
  refine hsecond.trans (fun m st st₁ st' hext hgrown => ?_) (commitBlocks_grown hcommit)
  exact ⟨hext.grown.trans hgrown, fun hcross => (hext.covers hcross).trans hgrown.length_le⟩

end KVState
end Vllm.KVCache
