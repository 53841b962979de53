import Vllm.KVCache.ManagerRuns
import Vllm.Sched.FenceCases
import Vllm.Sched.KVInterface

/-! Deferred frees in runs of the engine: the counters and the deferred frees of the scheduler
agree with the trace. -/
namespace Vllm.Sched
open List Trace Pass

open KVCache (BlockId KVError)

/-! ### Events -/

namespace FenceView

variable {v : FenceView} {events : List KVEvent}

def Frees : KVEvent → Prop
  | .released _ _ | .freed _ _ | .skipped _ _ => True
  | _ => False

theorem see_released (v : FenceView) (r : ReqId) (blocks : List BlockId) :
    v.see (.released r blocks) = if blocks = [] then v
      else { v with releases := v.releases ++ [(v.steps.length, blocks)] } := rfl

theorem foldl_frees (h : ∀ ev ∈ events, Frees ev) : events.foldl see v =
    { v with releases := v.releases ++ heldBack v.steps.length events } := by
  induction events generalizing v with
  | nil =>
    show v = _
    rw [heldBack, filterMap_nil, append_nil]
  | cons ev events ih =>
    rw [foldl_cons, ih fun ev' hev => h ev' (mem_cons_of_mem ev hev)]
    have hev := h ev (mem_cons_self ..)
    cases ev with
    | released r blocks =>
      rw [see_released]
      split
      · rename_i hnil
        simp only [heldBack, filterMap_cons, hnil, if_true]
      · rename_i hne
        simp only [heldBack, filterMap_cons, hne, if_false, append_assoc, singleton_append]
    | freed r blocks => rfl
    | skipped r blocks => rfl
    | _ => exact hev.elim

/-- The events of preemptions and finished requests do not make a request busy. -/
theorem clean_frees (h : ∀ ev ∈ events, Frees ev ∧ v.Safe ev) : Clean see Safe v events := by
  induction events generalizing v with
  | nil => exact clean_nil
  | cons ev events ih =>
    obtain ⟨hfrees, hsafe⟩ := h ev (mem_cons_self ..)
    refine clean_cons.mpr ⟨hsafe, ih fun ev' hev => ?_⟩
    obtain ⟨hfrees', hsafe'⟩ := h ev' (mem_cons_of_mem ev hev)
    have hbusy : ∀ r, (v.see ev).Busy r ↔ v.Busy r := by
      intro r
      cases ev with
      | released r blocks =>
        rw [see_released]
        split <;> exact Iff.rfl
      | freed r blocks => exact Iff.rfl
      | skipped r blocks => exact Iff.rfl
      | _ => exact hfrees.elim
    refine ⟨hfrees', ?_⟩
    cases ev' with
    | freed r blocks => exact hsafe'.imp_right (mt (hbusy r).mp)
    | skipped r blocks => exact hsafe'.imp_right (mt (hbusy r).mp)
    | released r blocks => trivial
    | _ => exact hfrees'.elim

def returns (ready : List (Nat × List BlockId)) : List KVEvent :=
  ready.map fun e => .returned e.2.reverse

theorem foldl_returns (ready : List (Nat × List BlockId)) :
    (returns ready).foldl see v = { v with returned := v.returned + ready.length } := by
  induction ready generalizing v with
  | nil => rfl
  | cons e ready ih =>
    refine ih.trans ?_
    rw [length_cons, Nat.add_comm ready.length 1, ← Nat.add_assoc]
    rfl

/-- The next releases may be returned when their fences are behind. -/
theorem clean_returns {ready rest : List (Nat × List BlockId)}
    (h : v.releases.drop v.returned = ready ++ rest) (hready : ∀ e ∈ ready, e.1 ≤ v.processed) :
    Clean see Safe v (returns ready) := by
  induction ready generalizing v with
  | nil => exact clean_nil
  | cons e ready ih =>
    refine clean_cons.mpr ⟨?_, ih ?_ fun e' he' => hready e' (mem_cons_of_mem e he')⟩
    · refine ⟨e.1, e.2, ?_, rfl, hready e (mem_cons_self ..)⟩
      rw [← head?_drop, h]
      rfl
    · show v.releases.drop (v.returned + 1) = _
      rw [← drop_drop, h]
      rfl

end FenceView

/-! ### The books of the scheduler -/

variable {κ : Type} {events : List KVEvent}

/-- The counters and the deferred frees agree with the trace. `batches` are the requests of the
steps that are not processed. -/
structure Books (I : κ → Prop) (s : SchedulerState (Logged κ)) (v : FenceView)
    (batches : List (List ReqId)) : Prop where
  kv : I s.kv.kv
  steps : s.schedStepSeq = v.steps.length
  processed : s.processedStepSeq = v.processed
  le : v.processed ≤ v.steps.length
  batches : v.steps.drop v.processed = batches
  last : ∀ j ids r, v.processed ≤ j → v.steps[j]? = some ids → r ∈ ids →
    j < (s.req r).lastSchedSeq
  bounded : ∀ r, (s.req r).lastSchedSeq ≤ s.schedStepSeq
  deferred : s.deferredFrees = v.releases.drop v.returned
  returned : v.returned ≤ v.releases.length
  ordered : (v.releases.map (·.1)).Pairwise (· ≤ ·)
  fences : ∀ e ∈ v.releases, e.1 ≤ v.steps.length
  pending : ∀ e ∈ s.deferredFrees, v.processed < e.1

def stepIds (outs : List SchedulerOutput) : List (List ReqId) :=
  (outs.filter (·.nonEmpty)).map (·.ids)

namespace Books

open SchedulerState FenceView

variable {I : κ → Prop} {allow : ReqId → List BlockId → Prop} {s s' : SchedulerState (Logged κ)}
  {v : FenceView} {batches : List (List ReqId)} {r : ReqId} {ids : List ReqId}
  {e : Nat × List BlockId}

/-- The last step of a busy request is not processed. -/
theorem last_of_busy (h : Books I s v batches) (hbusy : v.Busy r) :
    s.processedStepSeq < (s.req r).lastSchedSeq := by
  obtain ⟨ids, hids, hr⟩ := hbusy
  obtain ⟨j, hj⟩ := mem_iff_getElem?.mp hids
  rw [getElem?_drop] at hj
  have hlast := h.last (v.processed + j) ids r (Nat.le_add_right ..) hj hr
  rw [h.processed]
  omega

theorem heldBack_filter (fence : Nat) {keep : KVEvent → Bool}
    (hkeep : ∀ r blocks, keep (.released r blocks) = true) (events : List KVEvent) :
    heldBack fence (events.filter keep) = heldBack fence events := by
  induction events with
  | nil => rfl
  | cons ev events ih =>
    rw [filter_cons]
    cases ev with
    | released r blocks =>
      rw [if_pos (hkeep r blocks)]
      exact (heldBack_append fence [.released r blocks] _).trans
        ((congrArg _ ih).trans (heldBack_append fence [.released r blocks] events).symm)
    | _ =>
      split
      · exact ih
      · exact ih

theorem mem_heldBack {fence : Nat} (he : e ∈ heldBack fence events) :
    e.1 = fence ∧ ∃ r, .released r e.2 ∈ events := by
  obtain ⟨ev, hev, hsome⟩ := mem_filterMap.mp he
  cases ev with
  | released r blocks =>
    dsimp only at hsome
    split at hsome
    · cases hsome
    · cases hsome
      exact ⟨rfl, r, hev⟩
  | _ => cases hsome

section
variable (h : Books I s v batches)
include h

theorem released (hreleased : Released I allow s s')
    (hallow : ∀ r blocks, allow r blocks → blocks = [] ∨ ¬v.Busy r) (keep : KVEvent → Bool)
    (hkeep : ∀ r blocks, keep (.released r blocks) = true) :
    ∃ new, s'.kv.log = s.kv.log ++ new ∧ Clean see Safe v (new.filter keep) ∧
      Books I s' ((new.filter keep).foldl see v) batches := by
  obtain ⟨new, hlog, hallowed, hdeferred⟩ := hreleased.log h.kv
  have hevents : ∀ ev ∈ new.filter keep, Frees ev ∧ v.Safe ev := by
    intro ev hev
    have hone := hallowed ev (mem_filter.mp hev).1
    cases ev with
    | released r blocks => exact ⟨trivial, trivial⟩
    | freed r blocks => exact ⟨trivial, .inr fun hbusy => absurd hone (not_le.mpr (h.last_of_busy hbusy))⟩
    | skipped r blocks => exact ⟨trivial, hallow r blocks hone⟩
    | _ => exact hone.elim
  refine ⟨new, hlog, clean_frees hevents, ?_⟩
  rw [foldl_frees fun ev hev => (hevents ev hev).1, heldBack_filter _ hkeep, ← h.steps]
  have hfence : ∀ e ∈ heldBack s.schedStepSeq new, e.1 = s.schedStepSeq :=
    fun e he => (mem_heldBack he).1
  exact
    { kv := hreleased.kv h.kv
      steps := hreleased.seq.trans h.steps
      processed := hreleased.processed.trans h.processed
      le := h.le
      batches := h.batches
      last := fun j ids r hj hids hr => by
        rw [hreleased.last r]
        exact h.last j ids r hj hids hr
      bounded := fun r => by
        rw [hreleased.last r, hreleased.seq]
        exact h.bounded r
      deferred := by
        rw [hdeferred, h.deferred]
        exact (drop_append_of_le_length h.returned).symm
      returned := h.returned.trans (length_append ▸ Nat.le_add_right ..)
      ordered := by
        rw [map_append]
        refine pairwise_append.mpr ⟨h.ordered, ?_, ?_⟩
        · refine pairwise_of_forall_mem_list fun a ha b hb => ?_
          obtain ⟨e, he, rfl⟩ := mem_map.mp ha
          obtain ⟨e', he', rfl⟩ := mem_map.mp hb
          rw [hfence e he, hfence e' he']
        · intro a ha b hb
          obtain ⟨e, he, rfl⟩ := mem_map.mp ha
          obtain ⟨e', he', rfl⟩ := mem_map.mp hb
          rw [hfence e' he', h.steps]
          exact h.fences e he
      fences := by
        intro e he
        rcases mem_append.mp he with he | he
        · exact h.fences e he
        · rw [hfence e he, h.steps]
      pending := by
        intro e he
        rw [hdeferred] at he
        rcases mem_append.mp he with he | he
        · exact h.pending e he
        obtain ⟨hseq, r, hr⟩ := mem_heldBack he
        have hlast : s.processedStepSeq < (s.req r).lastSchedSeq := hallowed _ hr
        have hbounded := h.bounded r
        rw [h.processed] at hlast
        show v.processed < e.1
        omega }

/-- The trace stays, and the last step of a busy request does not go back. -/
theorem moved (hkv : I s'.kv.kv) (hfences : s'.fences = s.fences)
    (hlast : ∀ x, v.Busy x → (s.req x).lastSchedSeq ≤ (s'.req x).lastSchedSeq)
    (hbounded : ∀ x, (s'.req x).lastSchedSeq ≤ s.schedStepSeq) : Books I s' v batches := by
  simp only [SchedulerState.fences, Prod.mk.injEq] at hfences
  obtain ⟨hseq, hprocessed, hdeferred⟩ := hfences
  refine { h with
    kv := hkv
    steps := hseq.trans h.steps
    processed := hprocessed.trans h.processed
    last := fun j ids x hj hids hx => ?_
    bounded := hseq ▸ hbounded
    deferred := hdeferred.trans h.deferred
    pending := fun e he => h.pending e (hdeferred ▸ he) }
  refine (h.last j ids x hj hids hx).trans_le (hlast x ⟨ids, ?_, hx⟩)
  refine mem_iff_getElem?.mpr ⟨j - v.processed, ?_⟩
  rw [getElem?_drop, Nat.add_sub_cancel' hj]
  exact hids

theorem loads (hloads : Loads I s s') : Books I s' v batches :=
  h.moved (hloads.kv h.kv) hloads.fences (fun x _ => (hloads.last x).ge)
    fun x => (hloads.last x).trans_le (h.bounded x)

theorem added (hkv : s'.kv = s.kv) (hfences : s'.fences = s.fences) (hfresh : ¬v.Busy r)
    (hnew : (s'.req r).lastSchedSeq = 0) (hothers : ∀ x, x ≠ r → s'.req x = s.req x) :
    Books I s' v batches := by
  refine h.moved (hkv ▸ h.kv) hfences (fun x hbusy => ?_) fun x => ?_
  · rw [hothers x fun heq => hfresh (heq ▸ hbusy)]
  · by_cases heq : x = r
    · rw [heq, hnew]
      exact Nat.zero_le _
    · rw [hothers x heq]
      exact h.bounded x

theorem scheduledEmpty (hkv : s'.kv = s.kv) (hfences : s'.fences = s.fences)
    (hlast : ∀ x, (s'.req x).lastSchedSeq =
      if x ∈ ids then s.schedStepSeq else (s.req x).lastSchedSeq) : Books I s' v batches := by
  refine h.moved (hkv ▸ h.kv) hfences (fun x _ => ?_) fun x => ?_
  · rw [hlast x]
    split
    · exact h.bounded x
    · exact Nat.le_refl _
  · rw [hlast x]
    split
    · exact Nat.le_refl _
    · exact h.bounded x

theorem scheduled (hkv : s'.kv = s.kv) (hseq : s'.schedStepSeq = s.schedStepSeq + 1)
    (hprocessed : s'.processedStepSeq = s.processedStepSeq)
    (hdeferred : s'.deferredFrees = s.deferredFrees) (hlast : ∀ x, (s'.req x).lastSchedSeq =
      if x ∈ ids then s.schedStepSeq + 1 else (s.req x).lastSchedSeq) :
    Books I s' (v.see (.scheduled ids)) (batches ++ [ids])where
  kv := hkv ▸ h.kv
  steps := by
    show _ = (v.steps ++ [ids]).length
    rw [hseq, h.steps, length_append, length_singleton]
  processed := hprocessed.trans h.processed
  le := h.le.trans (length_append ▸ Nat.le_add_right ..)
  batches := by
    rw [← h.batches]
    exact drop_append_of_le_length h.le
  last := by
    intro j ids' x hj hids hx
    have hids : (v.steps ++ [ids])[j]? = some ids' := hids
    rw [hlast x]
    by_cases hold : j < v.steps.length
    · rw [getElem?_append_left hold] at hids
      have hj' := h.last j ids' x hj hids hx
      split
      · exact (hj'.trans_le (h.bounded x)).trans (Nat.lt_succ_self _)
      · exact hj'
    · -- the new step is the last one
      rw [getElem?_append_right (not_lt.mp hold), getElem?_singleton] at hids
      split at hids
      · cases hids
        rw [if_pos hx, h.steps]
        omega
      · cases hids
  bounded := by
    intro x
    rw [hlast x, hseq]
    split
    · exact Nat.le_refl _
    · exact (h.bounded x).trans (Nat.le_succ _)
  deferred := hdeferred.trans h.deferred
  returned := h.returned
  ordered := h.ordered
  fences := fun e he => (h.fences e he).trans (length_append ▸ Nat.le_add_right ..)
  pending := fun e he => h.pending e (hdeferred ▸ he)

end

theorem drain_log (ops : KVOps κ) (freeQueue : κ → List BlockId) (hkeeps : ops.Keeps I)
    (ready : List (Nat × List BlockId)) (l : Logged κ) (hI : I l.kv) :
    let drained := ready.foldl (fun kv e => (ops.logged freeQueue).freeBlocks kv e.2.reverse) l
    I drained.kv ∧ drained.log = l.log ++ returns ready := by
  induction ready generalizing l with
  | nil => exact ⟨hI, (append_nil _).symm⟩
  | cons e ready ih =>
    obtain ⟨hkept, hlog⟩ := ih ((ops.logged freeQueue).freeBlocks l e.2.reverse)
      (hkeeps.freeBlocks hI)
    refine ⟨hkept, hlog.trans ?_⟩
    show l.log ++ [.returned e.2.reverse] ++ returns ready = _
    rw [append_assoc]
    rfl

theorem lt_of_mem_dropWhile {n : Nat} {l : List (Nat × List BlockId)}
    (h : (l.map (·.1)).Pairwise (· ≤ ·)) (he : e ∈ l.dropWhile fun e => e.1 ≤ n) : n < e.1 := by
  induction l with
  | nil => cases he
  | cons first l ih =>
    obtain ⟨hfirst, hrest⟩ := pairwise_cons.mp h
    rw [dropWhile_cons] at he
    split at he
    · exact ih hrest he
    rename_i hahead
    have hlt : n < first.1 := not_le.mp fun hle => hahead (decide_eq_true hle)
    rcases mem_cons.mp he with rfl | he
    · exact hlt
    · exact hlt.trans_le (hfirst e.1 (mem_map_of_mem he))

/-- The oldest step is processed, and the releases before it are returned. -/
theorem processedStep {core : SchedCore κ} (freeQueue : κ → List BlockId)
    (hkeeps : core.ops.Keeps I) (h : Books I s v (ids :: batches)) :
    let s' := ({ s with processedStepSeq := s.processedStepSeq + 1 } :
      SchedulerState (Logged κ)).drainDeferredFrees (core.logged freeQueue).ops
    ∃ new, s'.kv.log = s.kv.log ++ new ∧ Clean see Safe (v.see .processed) new ∧
      Books I s' (new.foldl see (v.see .processed)) batches := by
  have hsplit : v.releases.drop v.returned =
      (s.deferredFrees.takeWhile fun e => e.1 ≤ s.processedStepSeq + 1) ++
        s.deferredFrees.dropWhile fun e => e.1 ≤ s.processedStepSeq + 1 := by
    rw [takeWhile_append_dropWhile, h.deferred]
  have hready : ∀ e ∈ s.deferredFrees.takeWhile fun e => e.1 ≤ s.processedStepSeq + 1,
      e.1 ≤ (v.see .processed).processed := by
    intro e he
    have hmem := mem_takeWhile_imp he
    have hle : e.1 ≤ s.processedStepSeq + 1 := of_decide_eq_true hmem
    rw [h.processed] at hle
    exact hle
  obtain ⟨hI, hlog⟩ := drain_log core.ops freeQueue hkeeps
    (s.deferredFrees.takeWhile fun e => e.1 ≤ s.processedStepSeq + 1) s.kv h.kv
  refine ⟨_, hlog, clean_returns hsplit hready, ?_⟩
  rw [foldl_returns]
  have hcons : v.processed < v.steps.length := by
    by_contra hlen
    have hnil := h.batches
    rw [drop_of_length_le (not_lt.mp hlen)] at hnil
    cases hnil
  exact
    { h with
      kv := hI
      processed := congrArg (· + 1) h.processed
      le := hcons
      batches := by
        show v.steps.drop (v.processed + 1) = _
        rw [← drop_drop, h.batches]
        rfl
      last := fun j ids r hj hids hr => h.last j ids r ((Nat.le_succ _).trans hj) hids hr
      deferred := by
        show _ = v.releases.drop (v.returned + _)
        rw [← drop_drop, hsplit, drop_left]
        rfl
      returned := by
        have hlen := congrArg length hsplit
        rw [length_drop, length_append] at hlen
        have hle := h.returned
        show v.returned + _ ≤ v.releases.length
        omega
      pending := by
        intro e he
        have hordered : (s.deferredFrees.map (·.1)).Pairwise (· ≤ ·) := by
          rw [h.deferred, map_drop]
          exact h.ordered.sublist (drop_sublist ..)
        have hlt := lt_of_mem_dropWhile hordered he
        rw [h.processed] at hlt
        exact hlt }

/-- The oldest step leaves the engine. One without tokens is not counted. -/
theorem stepProcessed {core : SchedCore κ} (freeQueue : κ → List BlockId)
    (hkeeps : core.ops.Keeps I) (hdefer : core.cfg.deferBlockFree = true) {out : SchedulerOutput}
    {rest : List SchedulerOutput} (h : Books I s v (stepIds (out :: rest))) :
    let s' := (core.logged freeQueue).stepProcessed s out
    let mark := (((out :: rest).head?.filter (·.nonEmpty)).map fun _ => KVEvent.processed).toList
    ∃ new, s'.kv.log = s.kv.log ++ new ∧ Clean see Safe v (mark ++ new) ∧
      Books I s' ((mark ++ new).foldl see v) (stepIds rest) := by
  rw [head?_cons, Option.filter_some, SchedCore.stepProcessed]
  by_cases hempty : out.nonEmpty = true
  · have hids : stepIds (out :: rest) = out.ids :: stepIds rest := by
      rw [stepIds, filter_cons, if_pos hempty]
      rfl
    rw [hids] at h
    obtain ⟨new, hlog, hclean, hdrained⟩ := h.processedStep freeQueue hkeeps
    rw [if_pos hempty, if_pos ⟨hdefer, of_decide_eq_true hempty⟩]
    exact ⟨new, hlog, clean_cons.mpr ⟨trivial, hclean⟩, hdrained⟩
  · have hids : stepIds (out :: rest) = stepIds rest := by
      rw [stepIds, filter_cons, if_neg hempty]
      rfl
    rw [hids] at h
    rw [if_neg hempty, if_neg fun h => hempty (decide_eq_true h.2)]
    exact ⟨[], (append_nil _).symm, clean_nil, h⟩

/-- The log is not part of the books. -/
theorem withLog (h : Books I s v batches) (log : List KVEvent) :
    Books I { s with kv := { s.kv with log := log } } v batches :=
  { h with }

theorem busy_iff (h : Books I s v batches) : v.Busy r ↔ ∃ ids ∈ batches, r ∈ ids := by
  unfold Busy
  rw [h.batches]

end Books

/-! ### Steps of the engine -/

namespace FencedEngine

open SchedulerState FenceView

variable {I : κ → Prop} {allow : ReqId → List BlockId → Prop} {core : SchedCore κ}
  {freeQueue : κ → List BlockId} {e e' : FencedEngine κ}

/-- The trace is fenced, and the scheduler keeps books of it. -/
structure FenceInv (I : κ → Prop) (e : FencedEngine κ) : Prop where
  fenced : Fenced e.trace
  books : Books I e.engine.sched e.view (stepIds e.engine.inFlight)
  keys : ∀ out ∈ e.engine.inFlight, out.ids.Nodup

theorem FenceInv.append (h : FenceInv I e) {engine : Engine (Logged κ)}
    (hclean : Clean see Safe e.view events)
    (hbooks : Books I engine.sched (events.foldl see e.view) (stepIds engine.inFlight))
    (hkeys : ∀ out ∈ engine.inFlight, out.ids.Nodup) :
    FenceInv I { engine := engine, trace := e.trace ++ events } where
  fenced := clean_append.mpr ⟨h.fenced, hclean⟩
  books := by
    unfold view
    rw [foldl_append]
    exact hbooks
  keys := hkeys

variable {s : SchedulerState (Logged κ)} {env : SchedEnv (Logged κ)} {out : SchedulerOutput}
  {p : Pass (Logged κ)}

theorem FenceInv.released (h : FenceInv I e) (hreleased : Released I allow e.cleared.sched s)
    (hallow : ∀ r blocks, allow r blocks → blocks = [] ∨ ¬e.view.Busy r) :
    FenceInv I { engine := { e.engine with sched := s }, trace := e.trace ++ s.kv.log } := by
  obtain ⟨new, hlog, hclean, hbooks⟩ :=
    (h.books.withLog []).released hreleased hallow (fun _ => true) fun _ _ => rfl
  rw [filter_true] at hclean hbooks
  refine h.append ?_ ?_ h.keys
  · rw [hlog]
    exact hclean
  · rw [hlog]
    exact hbooks

/-- A step is processed: its requests are released behind the fence of the next one. -/
theorem FenceInv.update (hkeeps : core.ops.Keeps I) (hdefer : core.cfg.deferBlockFree = true)
    (h : FenceInv I e) {rest : List SchedulerOutput} (hflight : e.engine.inFlight = out :: rest)
    {result : SchedCore.StepResult}
    (hallow : ∀ r blocks, allow r blocks → blocks = [] ∨ ¬∃ ids ∈ stepIds rest, r ∈ ids)
    (hskip : ∀ r ∈ out.ids, core.ends result r (e.engine.sched.req r) = true →
      SkipAllowed core freeQueue I allow r)
    (hfailed : result.invalidBlockIds = [] ∨ core.cfg.recomputeKvLoadFailures = true ∨
      ∀ r, SkipAllowed core freeQueue I allow r)
    (hs : (core.logged freeQueue).updateFromOutput e.cleared.sched out result = .ok s) :
    FenceInv I
      { engine := { sched := s, inFlight := rest }
        trace := e.trace ++ (((e.engine.inFlight.head?.filter (·.nonEmpty)).map
          fun _ => .processed).toList ++ s.kv.log) } := by
  have hkeys : out.ids.Nodup := h.keys out (hflight ▸ mem_cons_self ..)
  have hrest : ∀ out ∈ rest, out.ids.Nodup :=
    fun x hx => h.keys x (hflight ▸ mem_cons_of_mem out hx)
  obtain ⟨s₁, s₂, s₃, failed, stopped, hcase⟩ := SchedCore.updateFromOutput_cases hs
  have hskip : ∀ r ∈ out.ids, core.ends result r (e.cleared.sched.req r) = true →
      SkipAllowed core freeQueue I allow r := hskip
  have hreleased := SchedCore.UpdateCase.released hkeeps hdefer hkeys hskip hfailed hcase
  have hbooks : Books I e.cleared.sched e.view (stepIds e.engine.inFlight) := h.books.withLog []
  rw [hflight] at hbooks ⊢
  obtain ⟨new, hlog, hclean, hstarted⟩ := hbooks.stepProcessed freeQueue hkeeps hdefer
  obtain ⟨new', hlog', hclean', hfinal⟩ := hstarted.released hreleased
    (fun r blocks hr => (hallow r blocks hr).imp_right (mt hstarted.busy_iff.mp))
    (fun _ => true) fun _ _ => rfl
  rw [filter_true] at hclean' hfinal
  have hlog : ((core.logged freeQueue).stepProcessed e.cleared.sched out).kv.log = new := hlog
  rw [hlog', hlog]
  rw [← foldl_append] at hfinal
  have happend : FenceInv I ⟨⟨s, rest⟩, e.trace ++ (_ ++ new')⟩ :=
    h.append (clean_append.mpr ⟨hclean, hclean'⟩) hfinal hrest
  rwa [append_assoc] at happend

/-- The loops of a step: preemptions, or loads that are taken up. -/
theorem schedulePass_released (hf : Fencing core freeQueue I env) (h : s.schedulePass env = .ok p) :
    ∃ s₁, Released I (fun _ _ => False) s s₁ ∧ (p.state = s₁ ∨ (Loads I s₁ p.state ∧
      ∀ x, (p.state.req x).numPreemptions = (s.req x).numPreemptions)) := by
  obtain ⟨p₁, loras, hrunning, -, hwaiting⟩ := schedulePass_cases h
  have hstart : Released I (fun _ _ => False) s (s.startPass env).state := by
    refine .of_eq ?_ ?_ rfl fun _ => rfl
    · show (env.ops.newStepStarts s.kv).log = s.kv.log
      rw [hf.ops]
      rfl
    · intro hI
      show I (env.ops.newStepStarts s.kv).kv
      rw [hf.ops]
      exact hf.keeps.newStepStarts hI
  obtain ⟨hreleased, hunpreempted⟩ :
      Released I (fun _ _ => False) s p₁.state ∧ Unpreempted s p₁ := by
    refine runningLoop_invariant
      (fun p => Released I (fun _ _ => False) s p.state ∧ Unpreempted s p) ?_
      ⟨hstart, fun _ _ => rfl⟩ hrunning
    intro p p' r b hp _ _ hturn
    exact ⟨hp.1.trans (hturn.released hf), hturn.unpreempted hp.2⟩
  refine ⟨p₁.state, hreleased, ?_⟩
  rcases scheduleWaiting_cases hwaiting with ⟨-, rfl⟩ | ⟨hnone, -, q, hloop, rfl⟩
  · exact .inl rfl
  have hloads : Loads I p₁.state q.state := by
    have hrefl : Loads I p₁.state ({ p₁ with scheduledLoras := loras } : Pass (Logged κ)).state :=
      .same 0 rfl id rfl rfl
    refine waitingLoop_invariant (fun p => Loads I p₁.state p.state) ?_ hrefl hloop
    intro p p' w r b hp _ _ _ hturn
    exact hp.trans (hturn.onlyLoads hf)
  refine .inr ⟨hloads.trans (.same 0 rfl id rfl rfl), fun x => ?_⟩
  exact (hloads.preemptions x).trans (hunpreempted hnone x)

/-- The books after the loops. The frees of failed loads are not part of the trace. -/
theorem schedulePass_books (hf : Fencing core freeQueue I env) (s' : SchedulerState (Logged κ))
    {v : FenceView} {batches : List (List ReqId)} (hbooks : Books I s v batches)
    (hempty : s.kv.log = [])
    (hsame : ∀ x, (s'.req x).numPreemptions = (p.state.req x).numPreemptions)
    (h : s.schedulePass env = .ok p) :
    Clean see Safe v (p.state.kv.log.filter (ofPreempted s s')) ∧
      Books I p.state ((p.state.kv.log.filter (ofPreempted s s')).foldl see v) batches := by
  obtain ⟨s₁, hreleased, hrest⟩ := schedulePass_released hf h
  obtain ⟨new, hlog, hclean, hfirst⟩ := hbooks.released hreleased (fun _ _ hr => hr.elim)
    (ofPreempted s s') fun _ _ => rfl
  rw [hempty] at hlog
  rcases hrest with heq | ⟨hloads, hkept⟩
  · rw [heq, hlog]
    exact ⟨hclean, hfirst⟩
  obtain ⟨freed, hfreed, hall⟩ := hloads.log
  have hnone : freed.filter (ofPreempted s s') = [] := by
    refine filter_eq_nil_iff.mpr fun ev hev => ?_
    obtain ⟨r, blocks, rfl⟩ := hall ev hev
    have heq := (hsame r).trans (hkept r)
    simp only [ofPreempted, decide_eq_true_eq]
    omega
  rw [hfreed, filter_append, hnone, append_nil, hlog]
  exact ⟨hclean, hfirst.loads hloads⟩

theorem FenceInv.schedule (hkeeps : core.ops.Keeps I) (hdefer : core.cfg.deferBlockFree = true)
    (h : FenceInv I e) {answers : Answers}
    (hs : e.cleared.sched.schedule (Engine.env (core.logged freeQueue) answers) = .ok (s, out)) :
    FenceInv I
      { engine := { sched := s, inFlight := e.engine.inFlight ++ [out] }
        trace := e.trace ++ (s.kv.log.filter (ofPreempted e.engine.sched s) ++
          (((e.engine.inFlight ++ [out]).getLast?.filter (·.nonEmpty)).map
            fun out => .scheduled out.ids).toList) } := by
  obtain ⟨p, k, hpass, -, -, hout, hafter⟩ := schedule_cases hs
  have hf : Fencing core freeQueue I (Engine.env (core.logged freeQueue) answers) :=
    ⟨hkeeps, rfl, rfl, hdefer⟩
  have hmarked := updateAfterSchedule_lastSchedSeq hdefer hafter
  obtain ⟨req, inflight, num, hfinal, hreq⟩ := updateAfterSchedule_cases hafter
  have hkv : s.kv = p.state.kv := by rw [hfinal]
  have hprocessed : s.processedStepSeq = p.state.processedStepSeq := by rw [hfinal]
  have hdeferred : s.deferredFrees = p.state.deferredFrees := by rw [hfinal]
  have hseq : s.schedStepSeq =
      if out.nonEmpty = true then p.state.schedStepSeq + 1 else p.state.schedStepSeq := by
    rw [hfinal]
    refine if_congr ⟨fun hboth => decide_eq_true hboth.2, fun htokens => ?_⟩ rfl rfl
    exact ⟨hdefer, of_decide_eq_true htokens⟩
  have hlast : ∀ x, (s.req x).lastSchedSeq =
      if x ∈ out.ids then s.schedStepSeq else (p.state.req x).lastSchedSeq := by
    intro x
    rw [hmarked x, hfinal]
    rfl
  have hsame : ∀ x, (s.req x).numPreemptions = (p.state.req x).numPreemptions := by
    intro x
    obtain ⟨_, _, _, _, _, _, heq⟩ := hreq x
    rw [hfinal]
    show (req x).numPreemptions = _
    rw [heq]
  have hkeys : ∀ x ∈ e.engine.inFlight ++ [out], x.ids.Nodup := by
    intro x hx
    rcases mem_append.mp hx with hx | hx
    · exact h.keys x hx
    · rw [mem_singleton.mp hx, hout]
      exact schedulePass_keyed hpass
  obtain ⟨hclean, hbooks⟩ := schedulePass_books hf s (h.books.withLog []) rfl hsame hpass
  rw [← hkv] at hclean hbooks
  rw [getLast?_concat, Option.filter_some]
  by_cases hempty : out.nonEmpty = true
  · rw [if_pos hempty] at hseq ⊢
    have hids : stepIds (e.engine.inFlight ++ [out]) = stepIds e.engine.inFlight ++ [out.ids] := by
      rw [stepIds, filter_append, map_append, filter_singleton, hempty]
      rfl
    refine h.append (clean_append.mpr ⟨hclean, ?_⟩) ?_ hkeys
    · exact clean_cons.mpr ⟨trivial, clean_nil⟩
    · rw [foldl_append, hids]
      rw [hseq] at hlast
      exact hbooks.scheduled hkv hseq hprocessed hdeferred hlast
  · rw [if_neg hempty] at hseq ⊢
    have hids : stepIds (e.engine.inFlight ++ [out]) = stepIds e.engine.inFlight := by
      rw [stepIds, filter_append, map_append, filter_singleton, Bool.eq_false_iff.mpr hempty]
      exact append_nil _
    rw [Option.map_none, Option.toList_none, append_nil]
    refine h.append hclean ?_ hkeys
    rw [hids]
    rw [hseq] at hlast
    refine hbooks.scheduledEmpty hkv ?_ hlast
    rw [fences, hseq, hprocessed, hdeferred]
    rfl

end FencedEngine
end Vllm.Sched
