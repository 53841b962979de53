import Vllm.Sched.ScheduledCounts
import Vllm.Sched.StreamingCount

/-! The counts of every `SchedulerOutput` of a run, and a run of the asynchronous scheduler that
schedules a negative count. -/
namespace Vllm.Sched
open List

namespace SchedulerOutput

/-- Every count is positive and in range, and the total is within the budget of a step. -/
structure WellFormed (cfg : SchedConfig) (req : ReqId → Request) (out : SchedulerOutput) : Prop where
  counts : ∀ e ∈ out.numScheduledTokens, InRange cfg (req e.1) e.2
  total : out.totalNumScheduledTokens ≤ cfg.maxNumScheduledTokens

end SchedulerOutput

namespace Pass

variable {κ : Type} {env : SchedEnv κ} {d : Bool} {s : SchedulerState κ} {p q : Pass κ}

variable {cfg : SchedConfig}

theorem Sound.constraintsHold (h : Sound cfg p) : p.constraintsHold cfg = true := by
  have htotal : p.tokenBudget + p.total ≤ _ := h.total
  have hbudget := h.budget
  simp only [Pass.constraintsHold, Bool.and_eq_true, decide_eq_true_eq]
  exact ⟨⟨⟨by omega, h.budget⟩, h.bound⟩, h.scheduledLe⟩

theorem Sound.wellFormed (h : Sound cfg p) (k : Nat) :
    (p.output cfg k).WellFormed cfg p.state.req := by
  have htotal : p.tokenBudget + p.total ≤ _ := h.total
  have hbudget := h.budget
  refine ⟨fun e he => (h.inRange e he).2, ?_⟩
  show p.total ≤ _
  omega

theorem RunningInv.sound (h : RunningInv cfg s p)
    (hbound : s.running.length ≤ cfg.maxNumRunningReqs) : Sound cfg p where
  __ := h
  inRange := fun e he => (h.inRange e he).imp_left fun hmem =>
    mem_of_mem_take (h.scheduled.subset hmem)
  scheduledLe := by
    have hle := h.scheduled.length_le
    rw [h.noneAdmitted.1, h.noneAdmitted.2]
    rw [length_take] at hle
    simp only [length_nil]
    omega
  bound := h.sub.length_le.trans hbound

theorem RunningInv.waitingInv (h : RunningInv cfg s p) (hqueues : QueuesKept s p)
    (hfit : s.LengthsFit cfg) (hcounter : 0 ≤ s.numWaitingForStreamingInput)
    (hbound : s.running.length ≤ cfg.maxNumRunningReqs) (hnone : p.preemptedReqs = []) :
    WaitingInv cfg p := by
  obtain ⟨hwaiting, hskipped, hrunning, hreq⟩ := hqueues hnone
  have hnot : ∀ x ∈ s.waiting ++ s.skippedWaiting, x ∉ s.running := by
    intro x hx hmem
    have honce := hfit.once
    rw [append_assoc] at honce
    exact (disjoint_of_nodup_append honce) hmem hx
  refine { h.sound hbound with once := ?_, fits := ?_, counter := ?_ }
  · rw [Once, hwaiting, hskipped, hrunning, ← append_assoc]
    exact hfit.once
  · intro x hx
    rw [hwaiting, hskipped] at hx
    rw [hreq x (hnot x hx)]
    obtain ⟨hpos, hstop⟩ := hfit.prompt x hx
    refine ⟨hfit.computed x ?_, hpos, hstop⟩
    rw [append_assoc]
    exact mem_append_right _ hx
  · rw [h.counter]
    exact hcounter

end Pass

theorem SchedulerState.schedulePass_sound {κ : Type} {env : SchedEnv κ} {s : SchedulerState κ}
    {p : Pass κ} (hfit : s.LengthsFit env.cfg) (hcounter : 0 ≤ s.numWaitingForStreamingInput)
    (hbound : s.running.length ≤ env.cfg.maxNumRunningReqs) (h : s.schedulePass env = .ok p) :
    p.Sound env.cfg := by
  obtain ⟨p₁, loras, hrunning, -, hwaiting⟩ := schedulePass_cases h
  obtain ⟨hinv, hqueues⟩ := Pass.runningLoop_inv hfit hrunning
  rcases Pass.scheduleWaiting_cases hwaiting with ⟨-, rfl⟩ | ⟨hnone, -, q, hloop, rfl⟩
  · exact { hinv.sound hbound with }
  have hstart : Pass.WaitingInv env.cfg { p₁ with scheduledLoras := loras } :=
    { hinv.waitingInv hqueues hfit hcounter hbound hnone with }
  have hend : Pass.WaitingInv env.cfg q := by
    refine Pass.waitingLoop_invariant (Pass.WaitingInv env.cfg) ?_ hstart hloop
    exact fun hp hselect _ hroom hturn => hp.turn hselect hroom hturn
  exact { hend with }

/-! ### Runs -/

instance {κ : Type} (cfg : SchedConfig) (s : SchedulerState κ) : Decidable (s.LengthsFit cfg) :=
  decidable_of_iff
    ((s.running ++ s.waiting ++ s.skippedWaiting).Nodup ∧
      (∀ r ∈ s.running ++ s.waiting ++ s.skippedWaiting, 0 ≤ (s.req r).numComputedTokens) ∧
      (∀ r ∈ s.running, (s.req r).numComputedTokens ≤
        (s.req r).numTokensWithSpec + (s.req r).numOutputPlaceholders) ∧
      (∀ r ∈ s.running,
        (s.req r).numComputedTokens + cfg.numSampledTokensPerStep ≤ cfg.maxModelLen) ∧
      ∀ r ∈ s.waiting ++ s.skippedWaiting,
        0 < (s.req r).numTokens ∧ (s.req r).numTokens ≤ cfg.maxModelLen)
    ⟨fun ⟨a, b, c, d, e⟩ => ⟨a, b, c, d, e⟩, fun ⟨a, b, c, d, e⟩ => ⟨a, b, c, d, e⟩⟩

def Engine.CountSafe {κ : Type} (core : SchedCore κ) (e : Engine κ) (op : EngineOp) : Prop :=
  op.Admissible ∧ (op.isSchedule = true → e.sched.LengthsFit core.cfg)

instance {κ : Type} (core : SchedCore κ) (e : Engine κ) (op : EngineOp) :
    Decidable (e.CountSafe core op) :=
  inferInstanceAs (Decidable (_ ∧ (_ → _)))

/-- In every run whose steps are scheduled in states in which the lengths fit, the counts of the
next step are well formed and the assertions at its end hold. -/
theorem Engine.reaches_wellFormed {κ : Type} {core : SchedCore κ} {kv : κ} {e : Engine κ}
    (h : Run.Reaches (step core) (CountSafe core) (create core.cfg kv) e)
    (hfit : e.sched.LengthsFit core.cfg) (answers : Answers) {p : Pass κ}
    (hpass : e.sched.schedulePass (env core answers) = .ok p) :
    p.constraintsHold core.cfg = true ∧
      ∀ k, (p.output core.cfg k).WellFormed core.cfg p.state.req := by
  obtain ⟨hcounted, hbound⟩ := reaches_bounded (fun _ _ hok => hok.1) h
  have hcounter : 0 ≤ e.sched.numWaitingForStreamingInput := (Int.natCast_nonneg _).trans hcounted
  have hsound := SchedulerState.schedulePass_sound hfit hcounter hbound hpass
  exact ⟨hsound.constraintsHold, hsound.wellFormed⟩

def roomyOps : KVOps Unit where
  newStepStarts := id
  getComputedBlocks := fun _ _ => .ok {}
  findLongestCacheHitPerGroup := fun _ _ => .ok {}
  allocateSlots := fun _ _ => .ok ((), some [])
  remainingBlocks := fun _ _ => .ok 0
  getBlocks := fun _ _ => []
  cacheBlocks := fun _ _ _ => .ok ()
  free := fun _ _ => .ok ()
  popBlocksForFree := fun _ _ => ((), [])
  freeBlocks := fun _ _ => ()
  removeSkippedBlocks := fun _ _ _ _ => .ok ()
  evictBlocks := fun _ _ => .ok ()
  resetPrefixCache := fun _ => ((), true)

def paddedCore : SchedCore Unit where
  cfg :=
    { maxNumRunningReqs := 2, maxNumScheduledTokens := 16, maxModelLen := 8,
      asyncScheduling := true, numSpecTokens := 2, numLookaheadTokens := 2, hasConnector := true }
  ops := roomyOps

def promptRequest (r : ReqId) (n : Nat) : Request where
  requestId := r
  promptTokenIds := replicate n 1
  numPromptTokens := n
  allTokenIds := replicate n 1

/-- Request 1 is admitted with five tokens from the connector, and padded up to the model
length. -/
def paddedOps : List EngineOp :=
  [.addRequest (promptRequest 0 2) fun _ => false, .schedule {},
    .addRequest (promptRequest 1 6) fun _ => false,
    .schedule { matchedTokens := fun r => if r = 1 then some 5 else some 0 },
    .updateFromOutput { sampledTokenIds := fun r => if r = 0 then [7] else [] }]

theorem Engine.reaches_wellFormed_padded :
    ∃ e p, Run.Reaches (step paddedCore) (CountSafe paddedCore) (create paddedCore.cfg ()) e ∧
      e.sched.schedulePass (env paddedCore {}) = .ok p ∧
      p.numScheduledTokens = [(0, 3), (1, 6)] ∧
      (p.output paddedCore.cfg 0).WellFormed paddedCore.cfg p.state.req := by
  have hrun : ((Run.runIf (step paddedCore) (CountSafe paddedCore)
      (create paddedCore.cfg ()) (paddedOps.take 3)).map fun e =>
        (decide (e.sched.LengthsFit paddedCore.cfg),
          (e.sched.schedulePass (env paddedCore {})).map (·.numScheduledTokens))) =
      some (true, .ok [(0, 3), (1, 6)]) := by
    decide +kernel
  obtain ⟨e, he, heval⟩ := Option.map_eq_some_iff.mp hrun
  obtain ⟨hfit, hpass⟩ := Prod.mk.inj heval
  obtain ⟨p, hp, hcounts⟩ := Run.map_eq_ok hpass
  have hreach := Run.Reaches.start.runIf _ he
  exact ⟨e, p, hreach, hp, hcounts, (reaches_wellFormed hreach (of_decide_eq_true hfit) {} hp).2 0⟩

/-- The step after the padded admission schedules minus one token. -/
theorem Engine.reaches_negative_count :
    ∃ e p, Run.Reaches (step paddedCore) (fun _ op => op.Admissible) (create paddedCore.cfg ()) e ∧
      e.sched.schedulePass (env paddedCore {}) = .ok p ∧ (1, -1) ∈ p.numScheduledTokens := by
  have hrun : ((Run.runIf (step paddedCore) (fun _ op => op.Admissible)
      (create paddedCore.cfg ()) paddedOps).map fun e =>
        (e.sched.schedulePass (env paddedCore {})).map (·.numScheduledTokens)) =
      some (.ok [(0, 2), (1, -1)]) := by
    decide +kernel
  obtain ⟨e, he, heval⟩ := Option.map_eq_some_iff.mp hrun
  obtain ⟨p, hp, hcounts⟩ := Run.map_eq_ok heval
  exact ⟨e, p, Run.Reaches.start.runIf _ he, hp, by rw [hcounts]; simp⟩

end Vllm.Sched
