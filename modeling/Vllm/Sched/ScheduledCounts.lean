import Vllm.Sched.CountBounds
import Vllm.Sched.Engine
import Vllm.Sched.RunningOrder

/-! The counts of a `SchedulerOutput`: what each turn of the two loops keeps, and the assertions
at the end of `schedule`. -/
namespace Vllm.Sched
open List Function SchedConfig

structure InRange (cfg : SchedConfig) (request : Request) (n : Int) : Prop where
  pos : 1 ≤ n
  computed : 0 ≤ request.numComputedTokens
  stop : request.numComputedTokens + n ≤ cfg.maxModelLen

/-- The state of the requests in which `schedule` counts correctly. -/
structure SchedulerState.LengthsFit {κ : Type} (cfg : SchedConfig) (s : SchedulerState κ) : Prop where
  once : (s.running ++ s.waiting ++ s.skippedWaiting).Nodup
  computed : ∀ r ∈ s.running ++ s.waiting ++ s.skippedWaiting, 0 ≤ (s.req r).numComputedTokens
  tokens : ∀ r ∈ s.running, (s.req r).numComputedTokens ≤
    (s.req r).numTokensWithSpec + (s.req r).numOutputPlaceholders
  room : ∀ r ∈ s.running,
    (s.req r).numComputedTokens + cfg.numSampledTokensPerStep ≤ cfg.maxModelLen
  prompt : ∀ r ∈ s.waiting ++ s.skippedWaiting,
    0 < (s.req r).numTokens ∧ (s.req r).numTokens ≤ cfg.maxModelLen

namespace Pass

variable {κ : Type} {env : SchedEnv κ} {cfg : SchedConfig} {d b : Bool} {s : SchedulerState κ}
  {p p' q : Pass κ} {r v : ReqId} {n : Int} {a : Admission} {plan : EncoderPlan} {request : Request}
  {w : WaitingQueue} {req : ReqId → Request} {ids : List ReqId} {left : Int}
  {counts : List (ReqId × Int)}

/-- The counts are in range, one for each request, and they and the rest of the budget are within
the budget of a step. -/
structure Counted (cfg : SchedConfig) (req : ReqId → Request) (ids : List ReqId) (left : Int)
    (counts : List (ReqId × Int)) : Prop where
  budget : 0 ≤ left
  total : left + (counts.map (·.2)).sum ≤ cfg.maxNumScheduledTokens
  keys : (counts.map (·.1)).Nodup
  inRange : ∀ e ∈ counts, e.1 ∈ ids ∧ InRange cfg (req e.1) e.2

section
variable (h : Counted cfg req ids left counts)
include h

theorem Counted.withRequest (hr : r ∉ ids) (request : Request) :
    Counted cfg (update req r request) ids left counts := by
  refine { h with inRange := fun e he => ?_ }
  obtain ⟨hmem, hrange⟩ := h.inRange e he
  rw [update_of_ne (ne_of_mem_of_not_mem hmem hr)]
  exact ⟨hmem, hrange⟩

theorem Counted.add (hr : r ∉ ids) (henough : n ≤ left) (hrange : InRange cfg request n) :
    Counted cfg (update req r request) (ids ++ [r]) (left - n) (dictSet counts r n) where
  budget := by omega
  total := by
    have htotal := h.total
    rw [dictSet_of_forall_ne fun e he => ne_of_mem_of_not_mem (h.inRange e he).1 hr, map_append,
      sum_append, map_singleton, sum_singleton]
    omega
  keys := dictSet_keys_nodup h.keys
  inRange := by
    intro e he
    rcases mem_dictSet he with rfl | ⟨he, hne⟩
    · rw [update_self]
      exact ⟨mem_append_right _ (mem_singleton_self r), hrange⟩
    · rw [update_of_ne hne]
      exact (h.inRange e he).imp_left (mem_append_left _)

end

/-! ### Running requests -/

structure RunningInv (cfg : SchedConfig) (s : SchedulerState κ) (p : Pass κ) : Prop extends
    Placed s p,
    Counted cfg p.state.req p.scheduledRunningReqs p.tokenBudget p.numScheduledTokens where
  untouched : ∀ x ∈ p.state.running, x ∉ p.scheduledRunningReqs → p.state.req x = s.req x
  noneAdmitted : p.scheduledNewReqs = [] ∧ p.scheduledResumedReqs = []
  counter : p.state.numWaitingForStreamingInput = s.numWaitingForStreamingInput

theorem startPass_runningInv (env : SchedEnv κ) (s : SchedulerState κ) :
    RunningInv env.cfg s (s.startPass env) where
  budget := by
    unfold SchedulerState.startPass
    dsimp only
    split <;> omega
  total := by
    show (if s.pauseState = .pausedAll then (0 : Int) else env.cfg.maxNumScheduledTokens) + 0 ≤ _
    split <;> omega
  keys := nodup_nil
  inRange := nofun
  sub := Sublist.refl _
  scheduled := nil_subperm
  untouched := fun x _ _ => rfl
  noneAdmitted := ⟨rfl, rfl⟩
  counter := rfl

section
variable (h : RunningInv cfg s p)
include h

theorem RunningInv.advance : RunningInv cfg s p.advance :=
  { h with toPlaced := h.toPlaced.advance }

theorem RunningInv.withEncoder (encoder : EncoderCache) :
    RunningInv cfg s (p.withEncoder encoder) := { h with }

theorem RunningInv.withKv (kv : κ) : RunningInv cfg s (p.withKv kv) :=
  { h with }

theorem RunningInv.removed (hs : s.running.Nodup)
    (hremoved : Removed cfg p q v) : RunningInv cfg s q ∧ p.tokenBudget ≤ q.tokenBudget := by
  have hplaced := h.toPlaced.removed hremoved
  rcases hremoved.kept with ⟨hnot, rfl⟩ | ⟨hin, hdraw⟩
  · refine ⟨{ h with toPlaced := hplaced, untouched := ?_ }, le_refl _⟩
    exact fun x hx => h.untouched x (mem_of_mem_erase hx)
  obtain ⟨m, hm, rfl⟩ := withdraw_cases hdraw
  have hmem : (v, m) ∈ p.numScheduledTokens := mem_of_lookup hm
  have hpos := (h.inRange (v, m) hmem).2.pos
  have hsum := dictErase_sum h.keys hmem
  have htotal := h.total
  have hbudget := h.budget
  refine ⟨{ h with
    toPlaced := hplaced
    budget := ?_
    total := ?_
    keys := h.keys.sublist dictErase_keys_sublist
    inRange := ?_
    untouched := ?_ }, ?_⟩
  · show 0 ≤ p.tokenBudget + m
    omega
  · show p.tokenBudget + m + ((dictErase p.numScheduledTokens v).map (·.2)).sum ≤ _
    omega
  · intro e he
    obtain ⟨he, hne⟩ := mem_dictErase.mp he
    exact (h.inRange e he).imp_left (mem_erase_of_ne hne).mpr
  · intro x hx hnot
    have hxv : x ≠ v := ((hs.sublist h.sub).mem_erase_iff.mp hx).1
    exact h.untouched x (mem_of_mem_erase hx) fun hsched => hnot ((mem_erase_of_ne hxv).mpr hsched)
  · show p.tokenBudget ≤ p.tokenBudget + m
    omega

theorem RunningInv.preempt (hrunning : v ∉ p.state.running)
    (hsched : v ∉ p.scheduledRunningReqs) (hp : p.preempt env v = .ok p') :
    RunningInv cfg s p' := by
  have hplaced := h.toPlaced.preempt hp
  obtain ⟨s', hs', rfl⟩ := preempt_cases hp
  obtain ⟨-, kv, deferred, encoder, order, rfl⟩ := SchedulerState.preemptRequest_cases hs'
  refine { h with
    toPlaced := hplaced, toCounted := h.toCounted.withRequest hsched _, untouched := ?_ }
  intro x hx hnot
  have hne : x ≠ v := fun heq => hrunning (heq ▸ hx)
  show update p.state.req v _ x = _
  rw [update_of_ne hne]
  exact h.untouched x hx hnot

end

theorem RunningInv.preempts (h : RunningInv env.cfg s p) (hs : s.running.Nodup)
    (hindex : p.reqIndex < p.state.running.length ∨ env.cfg.policy = .priority)
    (hp : Preempts env r n p v p') :
    RunningInv env.cfg s p' ∧ p.tokenBudget ≤ p'.tokenBudget := by
  obtain ⟨kv, q, -, hremoved, hpreempt, hout⟩ := h.toPlaced.preempts hs hindex rfl hp
  obtain ⟨hinv, hbudget⟩ := (h.withKv kv).removed hs hremoved
  refine ⟨hinv.preempt hout hremoved.unscheduled hpreempt, ?_⟩
  rw [(preempt_frame hpreempt).2.2.2]
  exact hbudget

/-- The preemptions of other requests leave enough of the budget. -/
theorem RunningInv.retries (hs : s.running.Nodup) (hp : Retries env r n p q)
    (h : RunningInv env.cfg s p) (hat : PlacedAt env.cfg s r p) :
    RunningInv env.cfg s q ∧ p.tokenBudget ≤ q.tokenBudget := by
  induction hp with
  | done => exact ⟨h, le_refl _⟩
  | next hv hfirst _ ih =>
    obtain ⟨hinv, hbudget⟩ := h.preempts hs hat.index hfirst
    obtain ⟨hlast, hle⟩ := ih hinv (hat.retries hs (.next hv hfirst (.done _)))
    exact ⟨hlast, hbudget.trans hle⟩

theorem runningTokens_inRange {encoder : EncoderCache} (hfit : s.LengthsFit env.cfg)
    (hr : r ∈ s.running) (hreq : p.state.req r = s.req r) (hbudget : 0 < p.tokenBudget)
    (hplan : p.planRunning env r = .ok (encoder, plan))
    (hn : n = runningTokens env.cfg (p.state.req r) plan) (hne : n ≠ 0) :
    InRange env.cfg (p.state.req r) n ∧ n ≤ p.tokenBudget := by
  rw [hreq] at hn ⊢
  unfold planRunning at hplan
  rw [hreq] at hplan
  have hcount := runningCount_nonneg (le_of_lt hbudget) (hfit.tokens r hr) (hfit.room r hr)
  obtain ⟨hlow, hhigh⟩ := tryScheduleEncoderInputs_bounds hcount hplan
  have hle := runningCount_le_budget env.cfg (s.req r) p.tokenBudget
  have hlen := runningCount_le_maxModelLen env.cfg (s.req r) p.tokenBudget
  have hcut : 0 ≤ n ∧ n ≤ plan.numNew := by
    rw [hn]
    unfold runningTokens
    split
    · exact mambaBlockAlignedSplit_bounds (s.req r) hlow _ 0
    · exact ⟨hlow, le_refl _⟩
  exact ⟨⟨by omega, hfit.computed r (by simp [hr]), by omega⟩, by omega⟩

theorem RunningInv.commit {blocks : List (List KVCache.BlockId)} (h : RunningInv cfg s p)
    (hat : PlacedAt cfg s r p) (henough : n ≤ p.tokenBudget)
    (hrange : InRange cfg (p.state.req r) n) (hp : p.commitRunning r n plan blocks = .ok p') :
    RunningInv cfg s p' := by
  have hplaced := hat.commit hp
  obtain ⟨encoder, -, rfl⟩ := commitRunning_cases hp
  refine { h with
    toPlaced := hplaced
    toCounted := h.toCounted.add hat.unscheduled henough { hrange with }
    untouched := ?_ }
  intro x hx hnot
  have hnot' : x ∉ p.scheduledRunningReqs ++ [r] := hnot
  rw [mem_append, mem_singleton, not_or] at hnot'
  show update p.state.req r _ x = _
  rw [update_of_ne hnot'.2]
  exact h.untouched x hx hnot'.1

/-- A turn of the loop over the running requests keeps the counts in order. -/
theorem RunningInv.turn (hfit : s.LengthsFit env.cfg) (h : RunningInv env.cfg s p)
    (hr : p.state.running[p.reqIndex]? = some r) (hbudget : 0 < p.tokenBudget)
    (hturn : RunningTurn env d p r p' b) : RunningInv env.cfg s p' := by
  have hs : s.running.Nodup := (nodup_append.mp (nodup_append.mp hfit.once).1).1
  have hat : PlacedAt env.cfg s r p := h.toPlaced.placedAt hs hr
  have hreq := h.untouched r hat.mem hat.unscheduled
  have hmem : r ∈ s.running := h.sub.subset hat.mem
  cases hturn with
  | passedOver => exact h.advance
  | nothing => exact (h.withEncoder _).advance
  | @preempted encoder plan n q _ hskip hplan hn hne hretries hself =>
    have hat' : PlacedAt env.cfg s r (p.withEncoder encoder) := { hat with }
    obtain ⟨hinv, -⟩ := retries hs hretries (h.withEncoder encoder) hat'
    exact (hinv.preempts hs (PlacedAt.retries hs hretries hat').index hself).1
  | @granted encoder plan n q _ kv blocks hskip hplan hn hne hretries halloc hcommit =>
    obtain ⟨hrange, hle⟩ := runningTokens_inRange hfit hmem hreq hbudget hplan hn hne
    have hat' : PlacedAt env.cfg s r (p.withEncoder encoder) := { hat with }
    obtain ⟨hinv, hmore⟩ := retries hs hretries (h.withEncoder encoder) hat'
    have hq : PlacedAt env.cfg s r q := PlacedAt.retries hs hretries hat'
    rw [hreq, ← hinv.untouched r hq.mem hq.unscheduled] at hrange
    exact (hinv.withKv kv).commit { hq with } (hle.trans hmore) hrange hcommit

theorem runningLoop_inv {fuel : Nat} (hfit : s.LengthsFit env.cfg)
    (h : runningLoop env d fuel (s.startPass env) = .ok p) :
    RunningInv env.cfg s p ∧ QueuesKept s p := by
  refine runningLoop_invariant (fun p => RunningInv env.cfg s p ∧ QueuesKept s p)
    (fun {p p' r b} hinv hr hbudget hturn => ?_) ?_ h
  · have hmem : r ∈ s.running := hinv.1.sub.subset (mem_of_getElem? hr)
    exact ⟨hinv.1.turn hfit hr hbudget hturn, hinv.2.turn hmem hturn⟩
  · exact ⟨startPass_runningInv env s, fun _ => ⟨rfl, rfl, rfl, fun _ _ => rfl⟩⟩

/-! ### Waiting requests -/

theorem cachedTokens_computed {cached : CachedTokens} (hcomputed : 0 ≤ (s.req r).numComputedTokens)
    (h : cachedTokens env s r = .ok (some cached)) : 0 ≤ cached.numComputed := by
  unfold cachedTokens at h
  dsimp only at h
  split at h
  · cases h
    exact hcomputed
  split at h
  · cases h
  · cases h
  split at h
  · cases h
  split at h
  · cases h
  · cases h
    exact Int.add_nonneg (Int.natCast_nonneg _) (Int.natCast_nonneg _)

/-- The tokens of a waiting request fit into the budget and the model length. -/
theorem admissionCount_cases {numComputed count : Int} {pad : Bool}
    (htokens : request.numTokens ≤ cfg.maxModelLen)
    (h : admissionCount cfg d p request numComputed = .ok (some (count, pad))) :
    0 < count ∧ count ≤ p.tokenBudget ∧ numComputed + count ≤ cfg.maxModelLen := by
  unfold admissionCount at h
  dsimp only at h
  generalize hpadded : (if padsSpecDecode cfg p (request.numTokens - numComputed) = true then
    1 + (cfg.numSpecTokens : Int) else request.numTokens - numComputed) = padded at h
  have hcap := capLongPrefill_le cfg padded
  split at h
  · cases h
  split at h
  · cases h
  rename_i hpad
  split at h
  · cases h
  split at h
  · cases h
  cases h
  refine ⟨by omega, min_le_right _ _, ?_⟩
  split at hpadded
  · rename_i hp
    simp only [hp, true_and] at hpad
    omega
  · omega

/-- What a step ends with. -/
structure Sound (cfg : SchedConfig) (p : Pass κ) : Prop extends
    Counted cfg p.state.req p.state.running p.tokenBudget p.numScheduledTokens where
  scheduledLe : p.scheduledNewReqs.length + p.scheduledResumedReqs.length +
    p.scheduledRunningReqs.length ≤ p.state.running.length
  bound : p.state.running.length ≤ cfg.maxNumRunningReqs

structure Fits (cfg : SchedConfig) (request : Request) : Prop where
  computed : 0 ≤ request.numComputedTokens
  pos : 0 < request.numTokens
  stop : request.numTokens ≤ cfg.maxModelLen

structure WaitingInv (cfg : SchedConfig) (p : Pass κ) : Prop extends Sound cfg p where
  once : Once p.state
  fits : ∀ x ∈ p.state.waiting ++ p.state.skippedWaiting, Fits cfg (p.state.req x)
  counter : 0 ≤ p.state.numWaitingForStreamingInput

theorem Promoted.fits {a b : Request} (h : Promoted a b) (hfits : Fits cfg a) : Fits cfg b := by
  obtain ⟨status, computed, rfl, hc⟩ := h
  have hcomputed := hfits.computed
  have hpos := hfits.pos
  refine { hfits with computed := ?_ }
  show 0 ≤ computed
  omega

theorem WaitingInv.withRequest (h : WaitingInv cfg p) (hr : r ∉ p.state.running)
    (hfits : r ∈ p.state.waiting ++ p.state.skippedWaiting → Fits cfg request) :
    WaitingInv cfg (p.withState { p.state with req := update p.state.req r request }) :=
  { h with
    toCounted := h.toCounted.withRequest hr request
    fits := (forall_update_iff p.state.req fun x y =>
      x ∈ p.state.waiting ++ p.state.skippedWaiting → Fits cfg y).mpr ⟨hfits, fun x _ => h.fits x⟩ }

theorem WaitingInv.promote (h : WaitingInv env.cfg p)
    (hr : r ∈ p.state.waiting ++ p.state.skippedWaiting)
    (hs : tryPromote env p.state r = .ok (s, b)) :
    WaitingInv env.cfg (p.withState s) ∧ s.waiting = p.state.waiting ∧
      s.skippedWaiting = p.state.skippedWaiting ∧ s.running = p.state.running ∧
      s.numWaitingForStreamingInput = p.state.numWaitingForStreamingInput := by
  obtain ⟨request, kv, finished, failed, rfl, hpromoted, -⟩ := tryPromote_cases hs
  have hnot : r ∉ p.state.running := fun hmem => disjoint_of_nodup_append h.once hmem hr
  have hinv := h.withRequest hnot fun _ => hpromoted.fits (h.fits r hr)
  exact ⟨{ hinv with }, rfl, rfl, rfl, rfl⟩

section
variable (h : WaitingInv cfg p)
include h

theorem WaitingInv.withEncoder (encoder : EncoderCache) :
    WaitingInv cfg (p.withEncoder encoder) := { h with }

theorem WaitingInv.withKv (kv : κ) : WaitingInv cfg (p.withKv kv) :=
  { h with }

theorem WaitingInv.pop (hperm : (p.state.waiting ++ p.state.skippedWaiting).Perm
      (r :: ((popWaiting cfg p.state w).waiting ++ (popWaiting cfg p.state w).skippedWaiting))) :
    WaitingInv cfg (p.withState (popWaiting cfg p.state w)) ∧
      r ∉ (popWaiting cfg p.state w).running ++
        ((popWaiting cfg p.state w).waiting ++ (popWaiting cfg p.state w).skippedWaiting) := by
  obtain ⟨honce, hnot⟩ := h.once.pop hperm
  have hfits := fun x hx => h.fits x (hperm.mem_iff.mpr (mem_cons_of_mem r hx))
  cases w <;> exact ⟨{ h with once := honce, fits := hfits }, hnot⟩

theorem WaitingInv.startLoad
    (hr : r ∉ p.state.running ++ (p.state.waiting ++ p.state.skippedWaiting)) :
    WaitingInv cfg (startLoad cfg p r a) := by
  rw [mem_append, not_or] at hr
  exact { h.withRequest hr.1 fun hmem => absurd hmem hr.2 with }

end

variable (h : WaitingInv env.cfg p)
include h

theorem WaitingInv.admitRequest
    (hr : r ∉ p.state.running ++ (p.state.waiting ++ p.state.skippedWaiting))
    (hroom : (p.state.running.length : Int) + p.state.numWaitingForStreamingInput <
      env.cfg.maxNumRunningReqs) (hpos : 1 ≤ a.numNew) (hbudget : a.numNew ≤ p.tokenBudget)
    (hcomputed : 0 ≤ a.cached.numComputed)
    (hstop : a.cached.numComputed + a.numNew ≤ env.cfg.maxModelLen)
    (hp : p.admitRequest env r a = .ok p') : WaitingInv env.cfg p' := by
  obtain ⟨hstatus, encoder, -, rfl⟩ := admit_cases hp
  have hpush := h.once.push hr
  rw [mem_append, not_or] at hr
  have hcounter := h.counter
  have hle := h.scheduledLe
  refine
    { h.withRequest hr.1 fun hmem => absurd hmem hr.2 with
      toCounted := h.toCounted.add hr.1 hbudget ⟨hpos, hcomputed, hstop⟩
      once := hpush, scheduledLe := ?_, bound := ?_ }
  · show (if (p.state.req r).status = .waiting then p.scheduledNewReqs ++ [r]
        else p.scheduledNewReqs).length +
      (if (p.state.req r).status = .preempted then p.scheduledResumedReqs ++ [r]
        else p.scheduledResumedReqs).length + p.scheduledRunningReqs.length ≤
      (p.state.running ++ [r]).length
    rcases hstatus with hstatus | hstatus <;> rw [hstatus] <;>
      simp only [reduceCtorEq, if_true, if_false, length_append, length_singleton] <;>
      omega
  · show (p.state.running ++ [r]).length ≤ _
    rw [length_append, length_singleton]
    omega

/-- What a request is admitted with is in range. -/
theorem WaitingInv.admits
    (hr : r ∈ p.state.waiting ++ p.state.skippedWaiting) (hadmits : Admits env d p r s a) :
    WaitingInv env.cfg (p.withState s) ∧
      (a.cached.loadKvAsync = false → 1 ≤ a.numNew ∧ a.numNew ≤ p.tokenBudget ∧
        0 ≤ a.cached.numComputed ∧ a.cached.numComputed + a.numNew ≤ env.cfg.maxModelLen) ∧
      s.waiting = p.state.waiting ∧ s.skippedWaiting = p.state.skippedWaiting ∧
      s.running = p.state.running ∧
      s.numWaitingForStreamingInput = p.state.numWaitingForStreamingInput := by
  cases hadmits with
  | load hfound hasync =>
    obtain ⟨hinv, hframe⟩ := h.promote hr hfound.promoted
    refine ⟨hinv, fun hsync => ?_, hframe⟩
    rw [hasync] at hsync
    cases hsync
  | @tokens s cached count n pad encoder plan hfound hsync hcount hplan hn hplanned hne =>
    obtain ⟨hinv, hframe⟩ := h.promote hr hfound.promoted
    refine ⟨hinv.withEncoder encoder, fun _ => ?_, hframe⟩
    have hfits := hinv.fits r (hframe.1 ▸ hframe.2.1 ▸ hr)
    have hcomputed := cachedTokens_computed hfits.computed hfound.found
    obtain ⟨hpos, hle, hstop⟩ := admissionCount_cases hfits.stop hcount
    obtain ⟨hlow, hhigh⟩ := tryScheduleEncoderInputs_bounds (le_of_lt hpos) hplan
    have hcut : 0 ≤ n ∧ n ≤ plan.numNew := by
      rw [hn]
      unfold waitingTokens
      split
      · exact mambaBlockAlignedSplit_bounds (s.req r) hlow _ _
      · exact ⟨hlow, le_refl _⟩
    dsimp only
    exact ⟨by omega, by omega, hcomputed, by omega⟩

theorem WaitingInv.turn (hselect : selectWaiting env.cfg p.state = some (w, r))
    (hroom : (p.state.running.length : Int) + p.state.numWaitingForStreamingInput <
      env.cfg.maxNumRunningReqs) (hturn : WaitingTurn env d p w r p' b) : WaitingInv env.cfg p' := by
  have hr : r ∈ p.state.waiting ++ p.state.skippedWaiting := selectWaiting_mem hselect
  cases hturn with
  | skip hvisited =>
    cases hvisited with
    | skip hpromote =>
      obtain ⟨hinv, hwaiting, hskipped, -⟩ := h.promote hr hpromote
      have hpop := hinv.pop (popWaiting_perm _ hselect hwaiting hskipped)
      exact { hpop.1 with }
  | stop hvisited =>
    cases hvisited with
    | refused hfound => exact (h.promote hr hfound.promoted).1
    | nothing hfound _ _ => exact (h.promote hr hfound.promoted).1.withEncoder _
  | @full s a reserved kv encoder hadmits halloc hfree =>
    exact ((h.admits hr hadmits).1.withKv kv).withEncoder encoder
  | @loads s a reserved kv blocks hadmits hasync halloc =>
    obtain ⟨hinv, -, hwaiting, hskipped, -⟩ := h.admits hr hadmits
    obtain ⟨hpop, hnot⟩ := (hinv.withKv kv).pop
      (popWaiting_perm { s with kv := kv } hselect hwaiting hskipped)
    exact hpop.startLoad hnot
  | @admits s a reserved kv blocks _ hadmits hsync halloc hgrant =>
    obtain ⟨hinv, hrange, hwaiting, hskipped, hrunning, hcounter⟩ := h.admits hr hadmits
    obtain ⟨hpop, hnot⟩ := (hinv.withKv kv).pop
      (popWaiting_perm { s with kv := kv } hselect hwaiting hskipped)
    obtain ⟨hrun, hcount⟩ := popWaiting_frame env.cfg { s with kv := kv } w
    obtain ⟨hpos, hle, hcomputed, hstop⟩ := hrange hsync
    refine hpop.admitRequest hnot ?_ hpos hle hcomputed hstop hgrant
    show ((popWaiting env.cfg { s with kv := kv } w).running.length : Int) +
        (popWaiting env.cfg { s with kv := kv } w).numWaitingForStreamingInput < _
    rw [hrun, hcount, hrunning, hcounter]
    exact hroom

end Pass
end Vllm.Sched
