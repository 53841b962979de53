import Vllm.Lib.Run
import Vllm.Worker.InputBatchSteps

/-! Runs of the batch: in each step requests are removed and added, the gaps are closed, rows are swapped
and the metadata is refreshed. Rows follow their requests as long as the mask of allowed tokens, which
is not moved like the rest, makes no difference. -/
namespace Vllm.Worker
open InputBatch Run

inductive Phase
  | idle
  | removing
  | adding
  | packed
  deriving DecidableEq

structure BatchRun (K F G : Type) where
  batch : InputBatch K F G
  phase : Phase := .idle
  rows : K → Option (Row F G) := fun _ => none

inductive BatchOp (K F G : Type)
  | remove (id : K)
  | add (r : CachedRequestState K F G)
  | condense
  | swap (i j : Nat)
  | refresh
  | update (id : K) (u : Update)

namespace BatchRun
section
variable {K F G : Type}

/-- The operations come in the order of a step; a request that is added is new, and rows that are
swapped have requests. -/
def InOrder [DecidableEq K] (s : BatchRun K F G) : BatchOp K F G → Prop
  | .remove _ => s.phase = .idle ∨ s.phase = .removing
  | .add r => s.phase ≠ .packed ∧ s.batch.reqIdToIndex.lookup r.reqId = none
  | .condense => s.phase ≠ .packed
  | .swap i j => s.phase = .packed ∧ i < s.batch.numReqs ∧ j < s.batch.numReqs
  | .refresh => s.phase = .packed
  | .update _ _ => True

/-- A request that allows all tokens gets a row whose mask is clear, and rows that are swapped have the
same mask. -/
def MaskKept (s : BatchRun K F G) : BatchOp K F G → Prop
  | .add r =>
    r.samplingParams.allowedTokenIds ≠ [] ∨ s.batch.maskRow s.batch.nextRow = fun _ => false
  | .swap i j => s.batch.maskRow i = s.batch.maskRow j
  | _ => True

variable [DecidableEq K] [Zero F]

def step (s : BatchRun K F G) : BatchOp K F G → Except Error (BatchRun K F G)
  | .remove id => (s.batch.removeRequest id).map fun batch =>
    { batch, phase := .removing, rows := Function.update s.rows id none }
  | .add r => (s.batch.addRequest r).map fun batch =>
    { batch
      phase := .adding
      rows := Function.update s.rows r.reqId (some (Row.ofRequest s.batch.vocabSize r)) }
  | .condense => s.batch.condense.map fun batch => { s with batch, phase := .packed }
  | .swap i j => (s.batch.swapStates i j).map fun batch => { s with batch }
  | .refresh => .ok { s with batch := s.batch.refreshMetadata, phase := .idle }
  | .update id u => (s.batch.update id u).map fun batch =>
    { s with batch, rows := Function.update s.rows id ((s.rows id).map (·.update u)) }

def Safe (s : BatchRun K F G) (op : BatchOp K F G) : Prop := s.InOrder op ∧ s.MaskKept op

def InPhase (batch : InputBatch K F G) : Phase → Prop
  | .idle => batch.Open ∧ batch.Packed ∧ batch.batchUpdateBuilder.isRemovedSorted = false
  | .removing => batch.Open ∧ batch.batchUpdateBuilder.isRemovedSorted = false
  | .adding => batch.Open
  | .packed => batch.Packed

variable {batch : InputBatch K F G} {phase : Phase} {s : BatchRun K F G} {op : BatchOp K F G}

omit [DecidableEq K] [Zero F] in
theorem InPhase.open (h : InPhase batch phase) (hphase : phase ≠ .packed) : batch.Open := by
  cases phase with
  | idle => exact h.1
  | removing => exact h.1
  | adding => exact h
  | packed => exact absurd rfl hphase

omit [DecidableEq K] [Zero F] in
/-- While requests are removed, the removed rows are not sorted yet. -/
theorem InPhase.removing (h : InPhase batch phase) (hphase : phase = .idle ∨ phase = .removing) :
    batch.Open ∧ batch.batchUpdateBuilder.isRemovedSorted = false := by
  obtain rfl | rfl := hphase
  · exact ⟨h.1, h.2.2⟩
  · exact h

omit [DecidableEq K] [Zero F] in
theorem InPhase.updateRow (h : InPhase batch phase) (i : Nat) (u : Update) :
    InPhase (batch.updateRow i u) phase := by
  obtain ⟨hids, hindex, hbuilder⟩ := batch.updateRow_lists i u
  cases phase with
  | idle =>
    exact ⟨h.1.of_lists hids hindex hbuilder, h.2.1.of_lists hids hindex, hbuilder ▸ h.2.2⟩
  | removing => exact ⟨h.1.of_lists hids hindex hbuilder, hbuilder ▸ h.2⟩
  | adding => exact Open.of_lists h hids hindex hbuilder
  | packed => exact Packed.of_lists h hids hindex

structure Sound (s : BatchRun K F G) : Prop where
  tracked : s.batch.Tracked s.rows
  phase : InPhase s.batch s.phase

theorem step_sound {s' : BatchRun K F G} (h : s.Sound) (hsafe : s.Safe op)
    (hstep : s.step op = .ok s') : s'.Sound := by
  obtain ⟨horder, hmask⟩ := hsafe
  cases op with
  | remove id =>
    obtain ⟨batch, hremove, rfl⟩ := map_eq_ok hstep
    obtain ⟨hopen, hsorted⟩ := h.phase.removing horder
    obtain ⟨htracked, hopen', hsorted'⟩ := removeRequest_tracked h.tracked hopen hremove
    exact ⟨htracked, hopen', hsorted'.trans hsorted⟩
  | add r =>
    obtain ⟨batch, hadd, rfl⟩ := map_eq_ok hstep
    obtain ⟨htracked, hopen⟩ :=
      addRequest_tracked h.tracked (h.phase.open horder.1) horder.2 hmask hadd
    exact ⟨htracked, hopen⟩
  | condense =>
    obtain ⟨batch, hcondense, rfl⟩ := map_eq_ok hstep
    obtain ⟨batch', hcondense', htracked, hpacked⟩ :=
      condense_packed h.tracked (h.phase.open horder)
    cases hcondense'.symm.trans hcondense
    exact ⟨htracked, hpacked⟩
  | swap i j =>
    obtain ⟨batch, hswap, rfl⟩ := map_eq_ok hstep
    have hphase := h.phase
    rw [horder.1] at hphase
    obtain ⟨htracked, hpacked⟩ := swapStates_tracked h.tracked hphase hmask hswap
    refine ⟨htracked, ?_⟩
    rw [horder.1]
    exact hpacked
  | refresh =>
    cases hstep
    have hphase := h.phase
    rw [horder] at hphase
    obtain ⟨hopen, hpacked⟩ := Packed.refreshMetadata hphase
    exact ⟨h.tracked.with_builder, hopen, hpacked, rfl⟩
  | update id u =>
    obtain ⟨batch, hupdate, rfl⟩ := map_eq_ok hstep
    obtain ⟨htracked, i, rfl⟩ := update_tracked h.tracked hupdate
    exact ⟨htracked, h.phase.updateRow i u⟩

/-! ### No operation raises -/

/-- There is room for a new request, and a request that is updated is there. -/
def Fits (s : BatchRun K F G) : BatchOp K F G → Prop
  | .add _ => s.batch.nextRow < s.batch.maxNumReqs
  | .update id _ => s.batch.reqIdToIndex.lookup id ≠ none
  | _ => True

theorem step_ok (h : s.Sound) (horder : s.InOrder op) (hfits : s.Fits op) :
    ∃ s', s.step op = .ok s' := by
  cases op with
  | remove id =>
    obtain ⟨-, hsorted⟩ := h.phase.removing horder
    simp only [step, removeRequest]
    split
    · exact ⟨_, rfl⟩
    rename_i i hlookup
    have hat := (h.tracked.layout.index id i).mp hlookup
    have hlora : ¬ (s.batch.requestLoraMapping i ≠ 0 ∧
        s.batch.loraIdToRequestIds (s.batch.requestLoraMapping i) = ∅) := by
      rintro ⟨hne, hnone⟩
      have hmem := h.tracked.layout.lora id i hat hne
      rw [hnone] at hmem
      exact absurd hmem (Finset.notMem_empty id)
    simp only [BatchUpdateBuilder.removedAppend, hsorted, Bool.false_eq_true, if_false,
      if_neg hlora]
    exact ⟨_, rfl⟩
  | add r =>
    simp only [step, addRequest, (h.phase.open horder.1).registerAddRequest_eq,
      if_pos (show s.batch.nextRow < s.batch.maxNumReqs from hfits)]
    exact ⟨_, rfl⟩
  | condense =>
    obtain ⟨batch, hcondense, -⟩ := condense_packed h.tracked (h.phase.open horder)
    simp only [step, hcondense]
    exact ⟨_, rfl⟩
  | swap i j =>
    obtain ⟨hphase, hi, hj⟩ := horder
    have hpacked := h.phase
    rw [hphase] at hpacked
    obtain ⟨idI, hatI⟩ := Option.ne_none_iff_exists'.mp fun hnone =>
      absurd ((hpacked.dense i).mp hnone) (Nat.not_le_of_lt hi)
    obtain ⟨idJ, hatJ⟩ := Option.ne_none_iff_exists'.mp fun hnone =>
      absurd ((hpacked.dense j).mp hnone) (Nat.not_le_of_lt hj)
    simp only [step, swapStates, reqAt_eq_some.mp hatI,
      reqAt_eq_some.mp hatJ, (h.tracked.layout.index idI i).mpr hatI,
      (h.tracked.layout.index idJ j).mpr hatJ]
    exact ⟨_, rfl⟩
  | refresh => exact ⟨_, rfl⟩
  | update id u =>
    obtain ⟨i, hlookup⟩ := Option.ne_none_iff_exists'.mp hfits
    simp only [step, update, hlookup]
    exact ⟨_, rfl⟩

/-! ### Whole runs -/

/-- The live requests fill the first rows between the steps, `req_id_to_index` is the inverse of
`req_ids`, and the row of each request holds what was written for it. -/
structure Followed (s : BatchRun K F G) : Prop where
  rowsFilled : s.phase = .idle ∨ s.phase = .packed → s.batch.reqIds.length = s.batch.numReqs ∧
    ∀ i < s.batch.numReqs, ∃ id, s.batch.reqIds[i]? = some (some id)
  index : ∀ id i, s.batch.reqIdToIndex.lookup id = some i ↔ s.batch.reqIds[i]? = some (some id)
  rows : ∀ id i, s.batch.reqIdToIndex.lookup id = some i →
    ∃ row, s.rows id = some row ∧ s.batch.Holds i row

omit [Zero F] in
theorem Sound.followed (h : s.Sound) : s.Followed := by
  have hindex := h.tracked.layout.index
  refine ⟨fun hphase => ?_, fun id i => ?_, fun id i hi => h.tracked.follows id i ((hindex id i).mp hi)⟩
  · have hpacked : s.batch.Packed := by
      have hsound := h.phase
      obtain hphase | hphase := hphase
      · rw [hphase] at hsound
        exact hsound.2.1
      · rw [hphase] at hsound
        exact hsound
    refine ⟨hpacked.length, fun i hi => ?_⟩
    obtain ⟨id, hat⟩ := Option.ne_none_iff_exists'.mp fun hnone =>
      absurd ((hpacked.dense i).mp hnone) (Nat.not_le_of_lt hi)
    exact ⟨id, reqAt_eq_some.mp hat⟩
  · rw [hindex, reqAt_eq_some]

section
variable (maxNumReqs vocabSize : Nat) (blocksPerKvBlock : List Nat) (temperature topP : Column F)
  (topK : Column Int) (frequencyPenalties presencePenalties repetitionPenalties : Column F)

def start : BatchRun K F G where
  batch := .new maxNumReqs vocabSize blocksPerKvBlock temperature topP topK frequencyPenalties
    presencePenalties repetitionPenalties

omit [Zero F] in
theorem start_sound : Sound (start (K := K) (G := G) maxNumReqs vocabSize blocksPerKvBlock
    temperature topP topK frequencyPenalties presencePenalties repetitionPenalties) := by
  have hspec : ∀ i, (List.replicate maxNumReqs ([] : List Token)).getD i [] = [] := by
    intro i
    rw [List.getD_eq_getElem?_getD, List.getElem?_replicate]
    split
    · rfl
    · rfl
  exact ⟨⟨⟨fun id i => ⟨nofun, nofun⟩, Nat.zero_le _, fun i _ => hspec i,
    fun i _ => ⟨rfl, rfl⟩, nofun⟩, nofun⟩, ⟨.nil, fun i => ⟨nofun, nofun⟩, rfl, nofun⟩,
    ⟨fun i => ⟨fun _ => Nat.zero_le i, fun _ => rfl⟩, rfl⟩, rfl⟩

/-- In every run whose requests get clear masks and that swaps equal masks only, rows follow their
requests, and no operation raises unless there is no room. -/
theorem reaches_followed {s : BatchRun K F G}
    (h : Reaches step Safe (start maxNumReqs vocabSize blocksPerKvBlock temperature topP topK
      frequencyPenalties presencePenalties repetitionPenalties) s) :
    s.Followed ∧ ∀ op, s.InOrder op → s.Fits op → ∃ s', s.step op = .ok s' := by
  have hsound : s.Sound := h.invariant (start_sound ..)
    fun _ _ _ hs hok hstep => step_sound hs hok hstep
  exact ⟨hsound.followed, fun op horder hfits => step_ok hsound horder hfits⟩

end
end

section

def greedyRequest (id : Nat) (allowed : List Nat) : CachedRequestState Nat Int Unit where
  reqId := id
  prompt := .tokenIds [5, 6] none
  outputTokenIds := []
  numComputedTokens := 0
  blockIds := [[id]]
  samplingParams :=
    { greedy := true, temperature := 0, topP := 1, topK := 0, frequencyPenalty := 0
      presencePenalty := 0, repetitionPenalty := 1, allowedTokenIds := allowed
      badWordsTokenIds := [] }
  generator := none
  loraIntId := 0

def smallStart : BatchRun Nat Int Unit :=
  start 4 10 [1] (fun _ => 0) (fun _ => 0) (fun _ => 0) (fun _ => 0) (fun _ => 0) (fun _ => 0)

/-- A request whose row masks a token that it allows is not followed. -/
theorem not_followed {s : BatchRun Nat Int Unit} (id i token : Nat) (row : Row Int Unit)
    (hlookup : s.batch.reqIdToIndex.lookup id = some i) (hrow : s.rows id = some row)
    (hmasked : s.batch.maskRow i token = true) (hallowed : row.mask token = false) :
    ¬ s.Followed := by
  intro h
  obtain ⟨row', hrow', hholds⟩ := h.rows id i hlookup
  cases hrow.symm.trans hrow'
  have hmask := congrFun (congrArg Entry.mask hholds.entry) token
  cases hmasked.symm.trans (hmask.trans hallowed)

/-- Two requests with different allowed tokens are swapped: both rows get the mask of the second. A
request that moves down leaves its mask behind: the next request in its row, which allows all tokens,
inherits it. -/
theorem reaches_unfollowed :
    (∃ s, Reaches step InOrder smallStart s ∧ s.phase = .idle ∧ ¬ s.Followed) ∧
      ∃ s, Reaches step InOrder smallStart s ∧ s.phase = .idle ∧ ¬ s.Followed := by
  have hstart : Reaches step InOrder smallStart _ := .start
  constructor
  · have hfirst := hstart.next (BatchOp.add (greedyRequest 1 [1])) ⟨nofun, rfl⟩ rfl
    have hsecond := hfirst.next (BatchOp.add (greedyRequest 2 [2])) ⟨nofun, rfl⟩ rfl
    have hpacked := hsecond.next BatchOp.condense nofun rfl
    have hswapped := hpacked.next (BatchOp.swap 0 1) ⟨rfl, by decide, by decide⟩ rfl
    have hidle := hswapped.next BatchOp.refresh rfl rfl
    exact ⟨_, hidle, rfl, not_followed 1 1 1 _ rfl rfl rfl rfl⟩
  · have hfirst := hstart.next (BatchOp.add (greedyRequest 1 [])) ⟨nofun, rfl⟩ rfl
    have hsecond := hfirst.next (BatchOp.add (greedyRequest 2 [2])) ⟨nofun, rfl⟩ rfl
    have hpacked := hsecond.next BatchOp.condense nofun rfl
    have hidle := hpacked.next BatchOp.refresh rfl rfl
    have hremoved := hidle.next (BatchOp.remove 1) (.inl rfl) rfl
    have hmoved := hremoved.next BatchOp.condense nofun rfl
    have hagain := hmoved.next BatchOp.refresh rfl rfl
    have hthird := hagain.next (BatchOp.add (greedyRequest 3 [])) ⟨nofun, rfl⟩ rfl
    have hdone := (hthird.next BatchOp.condense nofun rfl).next BatchOp.refresh rfl rfl
    exact ⟨_, hdone, rfl, not_followed 3 1 1 _ rfl rfl rfl rfl⟩

/-- Three requests, of which the first is removed. The last moves down and swaps with the second,
which allows the same token. -/
theorem reaches_followed_small :
    ∃ s, Reaches step Safe smallStart s ∧ s.phase = .packed ∧
      s.batch.reqIds = [some 2, some 3] ∧ s.batch.maskRow 1 5 = true ∧ s.Followed := by
  have hstart : Reaches step Safe smallStart _ := .start
  have hfirst := hstart.next (BatchOp.add (greedyRequest 1 [])) ⟨⟨nofun, rfl⟩, .inr rfl⟩ rfl
  have hsecond := hfirst.next (BatchOp.add (greedyRequest 2 [2])) ⟨⟨nofun, rfl⟩, .inl nofun⟩ rfl
  have hthird := hsecond.next (BatchOp.add (greedyRequest 3 [2])) ⟨⟨nofun, rfl⟩, .inl nofun⟩ rfl
  have hpacked := hthird.next BatchOp.condense ⟨nofun, trivial⟩ rfl
  have hidle := hpacked.next BatchOp.refresh ⟨rfl, trivial⟩ rfl
  have hremoved := hidle.next (BatchOp.remove 1) ⟨.inl rfl, trivial⟩ rfl
  have hmoved := hremoved.next BatchOp.condense ⟨nofun, trivial⟩ rfl
  have hswapped := hmoved.next (BatchOp.swap 0 1) ⟨⟨rfl, by decide, by decide⟩, rfl⟩ rfl
  exact ⟨_, hswapped, rfl, rfl, rfl, (reaches_followed _ _ _ _ _ _ _ _ _ hswapped).1⟩

end
end BatchRun
end Vllm.Worker
