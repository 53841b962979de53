import Vllm.Lib.Run
import Vllm.Sched.Schedule

/-! What one turn of the two loops of `schedule` can do, and the induction over the turns. The
facts about whole steps of the scheduler go through these lemmas. -/
namespace Vllm.Sched
open List Function SchedulerState

open KVCache (BlockId KVError)

variable {request : Request} {r : ReqId}

theorem apply_update {β : Type} (f : Request → β) {req : ReqId → Request}
    (h : f request = f (req r)) (x : ReqId) :
    f (update req r request x) = f (req x) :=
  (forall_update_iff req fun x y => f y = f (req x)).mpr ⟨h, fun _ _ => rfl⟩ x

/-! ### Dictionaries -/

section Dict

variable {β : Type} {d : List (ReqId × β)} {r : ReqId} {v : β} {e : ReqId × β}

theorem dictSet_of_forall_ne (h : ∀ e ∈ d, e.1 ≠ r) : dictSet d r v = d ++ [(r, v)] := by
  unfold dictSet
  rw [if_neg]
  simpa only [any_eq_true, decide_eq_true_eq, not_exists, not_and] using h

theorem dictSet_keys_nodup (h : (d.map (·.1)).Nodup) : ((dictSet d r v).map (·.1)).Nodup := by
  by_cases hmem : r ∈ d.map (·.1)
  · have hset : (dictSet d r v).map (·.1) = d.map (·.1) := by
      obtain ⟨e, he, hkey⟩ := mem_map.mp hmem
      unfold dictSet
      rw [if_pos (any_eq_true.mpr ⟨e, he, decide_eq_true hkey⟩), map_map]
      refine map_congr_left fun e' _ => ?_
      by_cases hr : e'.1 = r
      · simp [hr]
      · simp [hr]
    rw [hset]
    exact h
  · rw [dictSet_of_forall_ne fun e he heq => hmem (mem_map.mpr ⟨e, he, heq⟩), map_append]
    exact h.append (nodup_singleton r) (disjoint_singleton.mpr hmem)

theorem mem_dictSet (h : e ∈ dictSet d r v) : e = (r, v) ∨ e ∈ d ∧ e.1 ≠ r := by
  unfold dictSet at h
  grind

theorem mem_dictErase : e ∈ dictErase d r ↔ e ∈ d ∧ e.1 ≠ r := by
  simp [dictErase]

theorem dictErase_keys_sublist : ((dictErase d r).map (·.1)).Sublist (d.map (·.1)) :=
  (filter_sublist ..).map _

theorem dictErase_of_forall_ne (h : ∀ e ∈ d, e.1 ≠ r) : dictErase d r = d :=
  filter_eq_self.mpr fun e he => decide_eq_true (h e he)

theorem mem_of_lookup {d : List (ReqId × β)} (h : d.lookup r = some v) : (r, v) ∈ d := by
  induction d with
  | nil => cases h
  | cons e d ih =>
    rw [lookup_cons] at h
    split at h
    · rename_i hkey
      cases h
      rw [beq_iff_eq.mp hkey]
      exact mem_cons_self ..
    · exact mem_cons_of_mem e (ih h)

theorem dictErase_sum {d : List (ReqId × Int)} {n : Int} (hkeys : (d.map (·.1)).Nodup)
    (h : (r, n) ∈ d) : ((dictErase d r).map (·.2)).sum + n = (d.map (·.2)).sum := by
  induction d with
  | nil => cases h
  | cons e d ih =>
    obtain ⟨hnot, hkeys⟩ := nodup_cons.mp hkeys
    rcases mem_cons.mp h with rfl | hmem
    · have hrest : dictErase ((r, n) :: d) r = d := by
        rw [dictErase, filter_cons_of_neg (by simp)]
        exact dictErase_of_forall_ne fun e he heq => hnot (mem_map.mpr ⟨e, he, heq⟩)
      rw [hrest, map_cons, sum_cons]
      omega
    · have hkey : e.1 ≠ r := fun heq => hnot (mem_map.mpr ⟨_, hmem, heq.symm⟩)
      have hrest : dictErase (e :: d) r = e :: dictErase d r :=
        filter_cons_of_pos (decide_eq_true hkey)
      rw [hrest, map_cons, map_cons, sum_cons, sum_cons, ← ih hkeys hmem]
      omega

end Dict

/-! ### Preemption -/

namespace SchedulerState

variable {κ : Type} {cfg : SchedConfig} {ops : KVOps κ} {s s' : SchedulerState κ} {r : ReqId}

theorem freeRequestBlocks_cases (h : s.freeRequestBlocks ops cfg r = .ok s') :
    ∃ kv deferred, s' = { s with kv := kv, deferredFrees := deferred } := by
  unfold freeRequestBlocks at h
  split at h
  · split at h
    · cases h
    · rename_i kv _
      cases h
      exact ⟨kv, s.deferredFrees, rfl⟩
  · cases h
    exact ⟨_, _, rfl⟩

/-- The stages of a preemption. -/
theorem preemptRequest_stages (h : s.preemptRequest ops cfg r = .ok s') :
    (s.req r).status = .running ∧ ∃ s₁ encoder order,
      s.freeRequestBlocks ops cfg r = .ok s₁ ∧ s.encoder.free (s.req r) = .ok encoder ∧
      s' = { s₁ with
        req := update s.req r (preempted (s.req r))
        encoder := encoder
        inflightPrefills := s.inflightPrefills.filter (· ≠ r)
        waiting := s.waiting.prependRequest cfg.policy order r
        resetPreemptedReqIds := s.resetPreemptedReqIds.insert r } := by
  unfold preemptRequest at h
  split at h
  · cases h
  rename_i hstatus
  split at h
  · cases h
  rename_i s₁ hfree
  obtain ⟨kv, deferred, rfl⟩ := freeRequestBlocks_cases hfree
  split at h
  · cases h
  · rename_i encoder hencoder
    cases h
    exact ⟨not_not.mp hstatus, _, encoder, _, hfree, hencoder, rfl⟩

/-- The preempted request goes to the waiting queue. -/
theorem preemptRequest_cases (h : s.preemptRequest ops cfg r = .ok s') :
    (s.req r).status = .running ∧ ∃ kv deferred encoder order,
      s' = { s with
        req := update s.req r (preempted (s.req r))
        kv := kv
        deferredFrees := deferred
        encoder := encoder
        inflightPrefills := s.inflightPrefills.filter (· ≠ r)
        waiting := s.waiting.prependRequest cfg.policy order r
        resetPreemptedReqIds := s.resetPreemptedReqIds.insert r } := by
  obtain ⟨hstatus, s₁, encoder, order, hfree, -, rfl⟩ := preemptRequest_stages h
  obtain ⟨kv, deferred, rfl⟩ := freeRequestBlocks_cases hfree
  exact ⟨hstatus, kv, deferred, encoder, order, rfl⟩

end SchedulerState

namespace Pass

variable {κ : Type} {env : SchedEnv κ} {d : Bool} {p p' : Pass κ} {r : ReqId}

/-- A fold that keeps one of the two elements it compares ends with an element of the list. -/
theorem foldl_choice_mem {α : Type} {choose : α → α → α}
    (h : ∀ a b, choose a b = a ∨ choose a b = b) (l : List α) (a : α) :
    l.foldl choose a ∈ a :: l := by
  induction l generalizing a with
  | nil => exact mem_cons_self ..
  | cons b l ih =>
    rw [foldl_cons]
    have hmem := ih (choose a b)
    cases h a b with
    | inl ha =>
      rw [ha] at hmem ⊢
      exact cons_subset_cons a (subset_cons_self b l) hmem
    | inr hb =>
      rw [hb] at hmem ⊢
      exact mem_cons_of_mem a hmem

variable {v : ReqId} {s s' : SchedulerState κ} {cfg : SchedConfig} {n : Int} {fuel : Nat} {b : Bool}
    {q : WaitingQueue} {cached : CachedTokens} {plan : EncoderPlan} {a : Admission}

theorem lowestPriority_mem {l : List ReqId} (h : lowestPriority s l = some v) : v ∈ l := by
  cases l with
  | nil => cases h
  | cons r rs =>
    cases h
    refine foldl_choice_mem (fun a b => ?_) rs r
    dsimp only
    split
    · exact .inr rfl
    · exact .inl rfl

/-- A victim leaves the running list; under the priority policy it may have been scheduled in
this step. -/
theorem takeVictim_cases {q : Pass κ} (h : p.takeVictim cfg = .ok (q, v)) :
    (cfg.policy = .priority ∧ v ∈ p.state.running ∧ v ∈ p.scheduledRunningReqs ∧
      (p.withRunning (p.state.running.erase v)).withdraw v = .ok q) ∨
    (cfg.policy = .priority ∧ v ∈ p.state.running ∧ v ∉ p.scheduledRunningReqs ∧
      q = p.withRunning (p.state.running.erase v)) ∨
    (cfg.policy = .fcfs ∧ p.state.running.getLast? = some v ∧
      q = p.withRunning p.state.running.dropLast) := by
  unfold takeVictim at h
  split at h
  · rename_i hpolicy
    split at h
    · cases h
    rename_i v' hv
    have hmem := lowestPriority_mem hv
    dsimp only at h
    split at h
    · rename_i hsched
      obtain ⟨q', hdraw, heq⟩ := Run.map_eq_ok h
      cases heq
      exact .inl ⟨hpolicy, hmem, hsched, hdraw⟩
    · rename_i hsched
      cases h
      exact .inr (.inl ⟨hpolicy, hmem, hsched, rfl⟩)
  · rename_i hpolicy
    split at h
    · cases h
    · rename_i v' hv
      cases h
      exact .inr (.inr ⟨hpolicy, hv, rfl⟩)

theorem withdraw_cases {q : Pass κ} (h : p.withdraw v = .ok q) :
    ∃ n, p.numScheduledTokens.lookup v = some n ∧ q = p.withdrawn v n := by
  unfold withdraw at h
  split at h
  · rename_i n _ hn _
    cases h
    exact ⟨n, hn, rfl⟩
  · cases h

theorem preempt_cases (h : p.preempt env v = .ok p') :
    ∃ s, p.state.preemptRequest env.ops env.cfg v = .ok s ∧
      p' = { p with state := s, preemptedReqs := p.preemptedReqs ++ [v] } := by
  unfold preempt at h
  split at h
  · cases h
  · rename_i s hs
    cases h
    exact ⟨s, hs, rfl⟩

/-! ### Running requests -/

theorem allocateEncoder_cases (h : p.allocateEncoder r plan = .ok p') :
    ∃ encoder, p.state.encoder.allocateInputs (p.state.req r) (plan.inputs ++ plan.external) =
      .ok encoder ∧ p' = p.withInputs r plan encoder := by
  obtain ⟨encoder, hencoder, rfl⟩ := Run.map_eq_ok h
  exact ⟨encoder, hencoder, rfl⟩

theorem commitRunning_cases {blocks : List (List BlockId)}
    (h : p.commitRunning r n plan blocks = .ok p') :
    ∃ encoder, (p.granted r n blocks).state.encoder.allocateInputs
        ((p.granted r n blocks).state.req r) (plan.inputs ++ plan.external) = .ok encoder ∧
      p' = (p.granted r n blocks).withInputs r plan encoder :=
  allocateEncoder_cases h

def Preempts (env : SchedEnv κ) (r : ReqId) (n : Int) (p : Pass κ) (v : ReqId) (p' : Pass κ) :
    Prop :=
  ∃ kv q, p.allocateOne env r n = .ok (kv, none) ∧
    (p.withKv kv).takeVictim env.cfg = .ok (q, v) ∧ q.preempt env v = .ok p'

/-- The preemptions of other requests in favour of `r`. -/
inductive Retries (env : SchedEnv κ) (r : ReqId) (n : Int) : Pass κ → Pass κ → Prop
  | done (p : Pass κ) : Retries env r n p p
  | next {p p₁ p₂ : Pass κ} {v : ReqId} (hv : v ≠ r) (first : Preempts env r n p v p₁)
      (rest : Retries env r n p₁ p₂) : Retries env r n p p₂

theorem allocateRunning_cases {blocks : Option (List (List BlockId))}
    (h : allocateRunning env r n fuel p = .ok (p', blocks)) :
    ∃ q, Retries env r n p q ∧
      ((blocks = none ∧ Preempts env r n q r p') ∨
        ∃ kv granted, q.allocateOne env r n = .ok (kv, some granted) ∧ blocks = some granted ∧
          p' = q.withKv kv) := by
  induction fuel generalizing p with
  | zero => cases h
  | succ fuel ih =>
    unfold allocateRunning at h
    split at h
    · cases h
    · rename_i kv granted halloc
      cases h
      exact ⟨p, .done p, .inr ⟨kv, granted, halloc, rfl, rfl⟩⟩
    · rename_i kv halloc
      split at h
      · cases h
      rename_i q v hvictim
      split at h
      · cases h
      rename_i p₁ hpreempt
      have hone : Preempts env r n p v p₁ := ⟨kv, q, halloc, hvictim, hpreempt⟩
      split at h
      · rename_i hv
        cases h
        subst hv
        exact ⟨p, .done p, .inl ⟨rfl, hone⟩⟩
      · rename_i hv
        obtain ⟨q', hretries, hlast⟩ := ih h
        exact ⟨q', .next hv hone hretries, hlast⟩

/-- What a turn of the loop over the running requests does, and whether the loop goes on. -/
inductive RunningTurn (env : SchedEnv κ) (d : Bool) (p : Pass κ) (r : ReqId) :
    Pass κ → Bool → Prop
  | passedOver (h : skipsRunning d p.state (p.state.req r) = true) :
      RunningTurn env d p r p.advance true
  | nothing {encoder : EncoderCache} {plan : EncoderPlan}
      (hskip : skipsRunning d p.state (p.state.req r) = false)
      (hplan : p.planRunning env r = .ok (encoder, plan))
      (hzero : runningTokens env.cfg (p.state.req r) plan = 0) :
      RunningTurn env d p r (p.withEncoder encoder).advance true
  | preempted {encoder : EncoderCache} {plan : EncoderPlan} {n : Int} {q p' : Pass κ}
      (hskip : skipsRunning d p.state (p.state.req r) = false)
      (hplan : p.planRunning env r = .ok (encoder, plan))
      (hn : n = runningTokens env.cfg (p.state.req r) plan) (hne : n ≠ 0)
      (hretries : Retries env r n (p.withEncoder encoder) q) (hself : Preempts env r n q r p') :
      RunningTurn env d p r p' false
  | granted {encoder : EncoderCache} {plan : EncoderPlan} {n : Int} {q p' : Pass κ} {kv : κ}
      {blocks : List (List BlockId)}
      (hskip : skipsRunning d p.state (p.state.req r) = false)
      (hplan : p.planRunning env r = .ok (encoder, plan))
      (hn : n = runningTokens env.cfg (p.state.req r) plan) (hne : n ≠ 0)
      (hretries : Retries env r n (p.withEncoder encoder) q)
      (halloc : q.allocateOne env r n = .ok (kv, some blocks))
      (hcommit : (q.withKv kv).commitRunning r n plan blocks = .ok p') :
      RunningTurn env d p r p' true

theorem runningStep_turn (h : p.runningStep env d r = .ok (p', b)) :
    RunningTurn env d p r p' b := by
  unfold runningStep at h
  split at h
  · rename_i hskip
    cases h
    exact .passedOver hskip
  · rename_i hskip
    have hskip := Bool.eq_false_iff.mpr hskip
    split at h
    · cases h
    rename_i encoder plan hplan
    dsimp only at h
    split at h
    · rename_i hzero
      cases h
      exact .nothing hskip hplan hzero
    · rename_i hne
      split at h
      · cases h
      · rename_i q halloc
        cases h
        obtain ⟨q, hretries, ⟨-, hself⟩ | ⟨_, _, _, hsome, _⟩⟩ := allocateRunning_cases halloc
        · exact .preempted hskip hplan rfl hne hretries hself
        · cases hsome
      · rename_i q blocks halloc
        obtain ⟨q, hretries, ⟨hnone, -⟩ | ⟨kv, granted, hone, hsome, rfl⟩⟩ :=
          allocateRunning_cases halloc
        · cases hnone
        · cases hsome
          obtain ⟨p₁, hcommit, heq⟩ := Run.map_eq_ok h
          cases heq
          exact .granted hskip hplan rfl hne hretries hone hcommit

theorem runningLoop_invariant (Inv : Pass κ → Prop)
    (hturn : ∀ {p p' : Pass κ} {r : ReqId} {b : Bool}, Inv p →
      p.state.running[p.reqIndex]? = some r → 0 < p.tokenBudget →
      RunningTurn env d p r p' b → Inv p') (hp : Inv p) (h : runningLoop env d fuel p = .ok p') :
    Inv p' := by
  induction fuel generalizing p with
  | zero =>
    cases h
    exact hp
  | succ fuel ih =>
    unfold runningLoop at h
    split at h
    · cases h
      exact hp
    rename_i r hr
    split at h
    · cases h
      exact hp
    split at h
    · cases h
    · rename_i q hstep
      cases h
      exact hturn hp hr (by omega) (runningStep_turn hstep)
    · rename_i q hstep
      exact ih (hturn hp hr (by omega) (runningStep_turn hstep)) h

/-! ### Waiting requests -/

theorem selectWaiting_cases (h : selectWaiting cfg s = some (q, r)) :
    (q = .waiting ∧ s.waiting.head? = some r) ∨ (q = .skipped ∧ s.skippedWaiting.head? = some r) := by
  unfold selectWaiting at h
  split at h
  · rename_i hk
    cases h
    exact .inr ⟨rfl, hk⟩
  · rename_i hw hk
    split at h
    · cases h
      exact .inl ⟨rfl, hw⟩
    · cases h
      exact .inr ⟨rfl, hk⟩
  · rename_i hk
    cases h
    exact .inr ⟨rfl, hk⟩
  · rename_i hw _
    cases h
    exact .inl ⟨rfl, hw⟩
  · cases h

theorem popWaiting_perm (s' : SchedulerState κ) (h : selectWaiting cfg s = some (q, r))
    (hw : s'.waiting = s.waiting) (hk : s'.skippedWaiting = s.skippedWaiting) :
    (s'.waiting ++ s'.skippedWaiting).Perm
      (r :: ((popWaiting cfg s' q).waiting ++ (popWaiting cfg s' q).skippedWaiting)) := by
  rcases selectWaiting_cases h with ⟨rfl, hhead⟩ | ⟨rfl, hhead⟩
  · obtain ⟨rest, hrest⟩ := head?_eq_some_iff.mp hhead
    have hpop : (popWaiting cfg s' .waiting).waiting.Perm rest := by
      show (s'.waiting.popRequest cfg.policy s'.lt).Perm rest
      rw [hw, hrest]
      exact RequestQueue.popRequest_perm _ _ rest r
    rw [hw, hrest]
    exact Perm.cons r (hpop.symm.append_right _)
  · obtain ⟨rest, hrest⟩ := head?_eq_some_iff.mp hhead
    have hpop : (popWaiting cfg s' .skipped).skippedWaiting.Perm rest := by
      show (s'.skippedWaiting.popRequest cfg.policy s'.lt).Perm rest
      rw [hk, hrest]
      exact RequestQueue.popRequest_perm _ _ rest r
    rw [hk, hrest]
    exact perm_middle.trans (Perm.cons r (hpop.symm.append_left _))

/-- The request that a promotion leaves: another status, and the last token of a complete load
is computed again. -/
def Promoted (q q' : Request) : Prop :=
  ∃ status computed, q' = { q with status := status, numComputedTokens := computed } ∧
    (computed = q.numComputedTokens ∨
      (q.numComputedTokens = q.numTokens ∧ computed = (q.numTokens : Int) - 1))

theorem Promoted.refl (q : Request) : Promoted q q :=
  ⟨q.status, q.numComputedTokens, rfl, .inl rfl⟩

theorem updateWaitingForRemoteKv_cases (h : updateWaitingForRemoteKv env s r = .ok s') :
    ∃ kv failed computed,
      s' = { s with
        req := update s.req r { s.req r with numComputedTokens := computed }
        kv := kv
        finishedRecvingKvReqIds := s.finishedRecvingKvReqIds.filter (· ≠ r)
        failedRecvingKvReqIds := failed } ∧
      (computed = (s.req r).numComputedTokens ∨
        ((s.req r).numComputedTokens = (s.req r).numTokens ∧
          computed = ((s.req r).numTokens : Int) - 1)) ∧
      (env.ops.free s.kv r = .ok kv ∨
        env.ops.cacheBlocks s.kv (s.req r) (s.req r).numComputedTokens = .ok kv) := by
  unfold updateWaitingForRemoteKv at h
  dsimp only at h
  split at h
  · cases h
  split at h
  · split at h
    · cases h
    rename_i kv hkv
    cases h
    refine ⟨kv, s.failedRecvingKvReqIds.filter (· ≠ r), (s.req r).numComputedTokens, ?_, .inl rfl, ?_⟩
    · rw [update_eq_self]
    · split at hkv
      · exact .inr hkv
      · exact .inl hkv
  · split at h
    · cases h
    rename_i kv hkv
    cases h
    by_cases hfull : (s.req r).numComputedTokens = (s.req r).numTokens
    · refine ⟨kv, s.failedRecvingKvReqIds, (s.req r).numTokens - 1, ?_, .inr ⟨hfull, rfl⟩, .inr hkv⟩
      simp only [setReq, if_pos hfull]
    · refine ⟨kv, s.failedRecvingKvReqIds, (s.req r).numComputedTokens, ?_, .inl rfl, .inr hkv⟩
      simp only [setReq, if_neg hfull]

/-- A promotion changes the request and the blocks only: it frees or caches the blocks of a load,
and never makes a request wait for streaming input. -/
def PromotesTo (env : SchedEnv κ) (s : SchedulerState κ) (r : ReqId) (s' : SchedulerState κ) : Prop :=
  ∃ request kv finished failed,
    s' = { s with
      req := update s.req r request
      kv := kv
      finishedRecvingKvReqIds := finished
      failedRecvingKvReqIds := failed } ∧ Promoted (s.req r) request ∧
    (request.status = .waitingForStreamingReq → (s.req r).status = .waitingForStreamingReq) ∧
    (kv = s.kv ∨ env.ops.free s.kv r = .ok kv ∨
      env.ops.cacheBlocks s.kv (s.req r) (s.req r).numComputedTokens = .ok kv)

theorem tryPromote_cases (h : tryPromote env s r = .ok (s', b)) : PromotesTo env s r s' := by
  have hsame : PromotesTo env s r s := by
    refine ⟨s.req r, s.kv, s.finishedRecvingKvReqIds, s.failedRecvingKvReqIds, ?_, .refl _, id,
      .inl rfl⟩
    rw [update_eq_self]
  unfold tryPromote at h
  split at h
  · split at h
    · split at h
      · cases h
      rename_i s₁ hs₁
      cases h
      obtain ⟨kv, failed, computed, rfl, hcomputed, hkv⟩ := updateWaitingForRemoteKv_cases hs₁
      refine ⟨{ s.req r with
          numComputedTokens := computed
          status := if (s.req r).numPreemptions ≠ 0 then .preempted else .waiting },
        kv, s.finishedRecvingKvReqIds.filter (· ≠ r), failed, ?_, ⟨_, computed, rfl, hcomputed⟩,
        fun hwaits => ?_, .inr hkv⟩
      · simp only [setReq, update_self, update_idem]
      · split at hwaits <;> cases hwaits
    · cases h
      exact hsame
  · split at h
    · cases h
      exact ⟨{ s.req r with status := .waiting }, s.kv, s.finishedRecvingKvReqIds,
        s.failedRecvingKvReqIds, rfl, ⟨.waiting, _, rfl, .inl rfl⟩, nofun, .inl rfl⟩
    · cases h
      exact hsame
  · split at h
    · cases h
    · cases h
      exact hsame
  · cases h
    exact hsame

/-- The head of a queue can be scheduled or loaded, with the cached tokens that were found. -/
structure Found (env : SchedEnv κ) (p : Pass κ) (r : ReqId) (s : SchedulerState κ)
    (cached : CachedTokens) : Prop where
  promoted : tryPromote env p.state r = .ok (s, true)
  fitsLoras : exceedsLoras env.cfg p (s.req r) = false
  found : cachedTokens env s r = .ok (some cached)

/-- What a waiting request is about to be admitted with, and the state at that point. -/
inductive Admits (env : SchedEnv κ) (d : Bool) (p : Pass κ) (r : ReqId) :
    SchedulerState κ → Admission → Prop
  | load {s : SchedulerState κ} {cached : CachedTokens} (hfound : Found env p r s cached)
      (hasync : cached.loadKvAsync = true) (hexternal : cached.numExternal ≠ 0) :
      Admits env d p r s
        { cached, numNew := 0, plan := { numNew := 0, budget := p.encoderComputeBudget } }
  | tokens {s : SchedulerState κ} {cached : CachedTokens} {count n : Int} {pad : Bool}
      {encoder : EncoderCache} {plan : EncoderPlan} (hfound : Found env p r s cached)
      (hsync : cached.loadKvAsync = false)
      (hcount : admissionCount env.cfg d p (s.req r) cached.numComputed = .ok (some (count, pad)))
      (hplan : (p.withState s).planWaiting env r cached count = .ok (encoder, plan))
      (hn : n = waitingTokens env.cfg (s.req r) cached plan)
      (hplanned : plan.numNew ≠ 0) (hne : n ≠ 0) :
      Admits env d p r { s with encoder := encoder } { cached, numNew := n, padSpecDecode := pad, plan }

inductive Visited (env : SchedEnv κ) (d : Bool) (p : Pass κ) (r : ReqId) :
    SchedulerState κ → Visit → Prop
  | skip {s : SchedulerState κ} {b : Bool} (hpromote : tryPromote env p.state r = .ok (s, b)) :
      Visited env d p r s .skip
  | refused {s : SchedulerState κ} {cached : CachedTokens} (hfound : Found env p r s cached) :
      Visited env d p r s .stop
  | nothing {s : SchedulerState κ} {cached : CachedTokens} {count : Int} {pad : Bool}
      {encoder : EncoderCache} {plan : EncoderPlan} (hfound : Found env p r s cached)
      (hcount : admissionCount env.cfg d p (s.req r) cached.numComputed = .ok (some (count, pad)))
      (hplan : (p.withState s).planWaiting env r cached count = .ok (encoder, plan)) :
      Visited env d p r { s with encoder := encoder } .stop
  | allocate {s : SchedulerState κ} {a : Admission} (h : Admits env d p r s a) :
      Visited env d p r s (.allocate a)

/-- A visit promotes the request, and may plan its encoder inputs. -/
theorem Visited.rule {P : SchedulerState κ → Prop} {v : Visit} (h : Visited env d p r s v)
    (hpromote : ∀ {s b}, tryPromote env p.state r = .ok (s, b) → P s)
    (hplan : ∀ {s cached count encoder plan}, P s →
      (p.withState s).planWaiting env r cached count = .ok (encoder, plan) →
      P { s with encoder := encoder }) : P s := by
  cases h with
  | skip h => exact hpromote h
  | refused hfound => exact hpromote hfound.promoted
  | nothing hfound _ h => exact hplan (hpromote hfound.promoted) h
  | allocate h =>
    cases h with
    | load hfound => exact hpromote hfound.promoted
    | tokens hfound _ _ h => exact hplan (hpromote hfound.promoted) h

theorem planAdmission_visited {v : Visit} (hfound : Found env p r s cached)
    (hsync : cached.loadKvAsync = false)
    (h : planAdmission env d (p.withState s) r cached = .ok (s', v)) : Visited env d p r s' v := by
  unfold planAdmission at h
  split at h
  · cases h
  · cases h
    exact .refused hfound
  rename_i count pad hcount
  split at h
  · cases h
  rename_i encoder plan hplan
  dsimp only at h
  split at h
  · cases h
    exact .nothing hfound hcount hplan
  rename_i hne
  obtain ⟨hplanned, hne⟩ := not_or.mp hne
  cases h
  exact .allocate (.tokens hfound hsync hcount hplan rfl hplanned hne)

theorem visit_visited {v : Visit} (h : p.visit env d r = .ok (s', v)) : Visited env d p r s' v := by
  unfold visit at h
  split at h
  · cases h
  · rename_i hpromote
    cases h
    exact .skip hpromote
  · rename_i s hpromote
    split at h
    · cases h
      exact .skip hpromote
    rename_i hlora
    split at h
    · cases h
    · cases h
      exact .skip hpromote
    rename_i cached hcached
    have hfound : Found env p r s cached := ⟨hpromote, Bool.eq_false_iff.mpr hlora, hcached⟩
    split at h
    · rename_i hasync
      split at h
      · cases h
      · rename_i hexternal
        cases h
        exact .allocate (.load hfound hasync hexternal)
    · rename_i hsync
      exact planAdmission_visited hfound (Bool.eq_false_iff.mpr hsync) h

/-- What a turn of the loop over the waiting requests does, and whether the loop goes on. -/
inductive WaitingTurn (env : SchedEnv κ) (d : Bool) (p : Pass κ) (q : WaitingQueue) (r : ReqId) :
    Pass κ → Bool → Prop
  | skip {s : SchedulerState κ} (h : Visited env d p r s .skip) :
      WaitingTurn env d p q r ((p.withState s).skipWaiting env.cfg q r) true
  | stop {s : SchedulerState κ} (h : Visited env d p r s .stop) :
      WaitingTurn env d p q r (p.withState s) false
  | full {s : SchedulerState κ} {a : Admission} {reserved : Int} {kv : κ} {encoder : EncoderCache}
      (h : Admits env d p r s a)
      (halloc : env.ops.allocateSlots s.kv (admissionArgs env.cfg s r a reserved) = .ok (kv, none))
      (hfree : ((s.req r).mmFeatures = [] ∧ encoder = s.encoder) ∨
        s.encoder.free (s.req r) = .ok encoder) :
      WaitingTurn env d p q r (p.withState { s with kv := kv, encoder := encoder }) false
  | loads {s : SchedulerState κ} {a : Admission} {reserved : Int} {kv : κ}
      {blocks : List (List BlockId)} (h : Admits env d p r s a) (hasync : a.cached.loadKvAsync = true)
      (halloc : env.ops.allocateSlots s.kv (admissionArgs env.cfg s r a reserved) =
        .ok (kv, some blocks)) :
      WaitingTurn env d p q r
        (startLoad env.cfg (p.withState (popWaiting env.cfg { s with kv := kv } q)) r a) true
  | admits {s : SchedulerState κ} {a : Admission} {reserved : Int} {kv : κ}
      {blocks : List (List BlockId)} {p' : Pass κ} (h : Admits env d p r s a)
      (hsync : a.cached.loadKvAsync = false)
      (halloc : env.ops.allocateSlots s.kv (admissionArgs env.cfg s r a reserved) =
        .ok (kv, some blocks))
      (hgrant : (p.withState (popWaiting env.cfg { s with kv := kv } q)).admitRequest env r a = .ok p') :
      WaitingTurn env d p q r p' true

theorem allocateWaiting_turn (hadmits : Admits env d p r s a)
    (h : (p.withState s).allocateWaiting env q r a = .ok (p', b)) :
    WaitingTurn env d p q r p' b := by
  unfold allocateWaiting at h
  dsimp only at h
  split at h
  · cases h
  split at h
  · cases h
  · rename_i kv halloc
    split at h
    · rename_i hmm
      cases h
      exact .full hadmits halloc (.inl ⟨hmm, rfl⟩)
    · obtain ⟨encoder, hencoder, heq⟩ := Run.map_eq_ok h
      cases heq
      exact .full hadmits halloc (.inr hencoder)
  · rename_i kv blocks halloc
    split at h
    · rename_i hasync
      cases h
      exact .loads hadmits hasync halloc
    · rename_i hsync
      obtain ⟨p₁, hgrant, heq⟩ := Run.map_eq_ok h
      cases heq
      exact .admits hadmits (Bool.eq_false_iff.mpr hsync) halloc hgrant

theorem waitingStep_turn (h : p.waitingStep env d q r = .ok (p', b)) :
    WaitingTurn env d p q r p' b := by
  unfold waitingStep at h
  split at h
  · cases h
  · rename_i s hvisit
    cases h
    exact .skip (visit_visited hvisit)
  · rename_i s hvisit
    cases h
    exact .stop (visit_visited hvisit)
  · rename_i s a hvisit
    cases visit_visited hvisit with
    | allocate hadmits => exact allocateWaiting_turn hadmits h

theorem waitingLoop_invariant (Inv : Pass κ → Prop)
    (hturn : ∀ {p p' : Pass κ} {q : WaitingQueue} {r : ReqId} {b : Bool}, Inv p →
      selectWaiting env.cfg p.state = some (q, r) → 0 < p.tokenBudget →
      (p.state.running.length : Int) + p.state.numWaitingForStreamingInput <
        env.cfg.maxNumRunningReqs →
      WaitingTurn env d p q r p' b → Inv p') (hp : Inv p) (h : waitingLoop env d fuel p = .ok p') :
    Inv p' := by
  induction fuel generalizing p with
  | zero =>
    cases h
    exact hp
  | succ fuel ih =>
    unfold waitingLoop at h
    split at h
    · cases h
      exact hp
    rename_i q r hselect
    split at h
    · cases h
      exact hp
    split at h
    · cases h
    · rename_i hstep
      cases h
      exact hturn hp hselect (by omega) (by omega) (waitingStep_turn hstep)
    · rename_i hstep
      exact ih (hturn hp hselect (by omega) (by omega) (waitingStep_turn hstep)) h

theorem admit_cases (h : p.admitRequest env r a = .ok p') :
    ((p.state.req r).status = .waiting ∨ (p.state.req r).status = .preempted) ∧
    ∃ encoder, (p.admitted env r a).state.encoder.allocateInputs
        ((p.admitted env r a).state.req r) (a.plan.inputs ++ a.plan.external) = .ok encoder ∧
      p' = (p.admitted env r a).withInputs r a.plan encoder := by
  unfold admitRequest at h
  dsimp only at h
  split at h
  · cases h
  · exact ⟨by tauto, allocateEncoder_cases h⟩

/-! ### The two loops -/

theorem scheduleWaiting_cases (h : p.scheduleWaiting env d = .ok p') :
    ((p.preemptedReqs ≠ [] ∨ p.state.pauseState ≠ .unpaused) ∧ p' = p) ∨
      (p.preemptedReqs = [] ∧ p.state.pauseState = .unpaused ∧ ∃ q,
        waitingLoop env d (p.state.waiting.length + p.state.skippedWaiting.length) p = .ok q ∧
          p' = q.requeue env d) := by
  unfold scheduleWaiting at h
  split at h
  · rename_i hno
    cases h
    exact .inl ⟨hno, rfl⟩
  · rename_i hno
    obtain ⟨hpre, hpause⟩ := not_or.mp hno
    obtain ⟨q, hq, rfl⟩ := Run.map_eq_ok h
    exact .inr ⟨not_not.mp hpre, not_not.mp hpause, q, hq, rfl⟩

/-! ### The requests of a step -/

def Keyed (p : Pass κ) : Prop := (p.numScheduledTokens.map (·.1)).Nodup

theorem Preempts.keyed (h : Preempts env r n p v p') (hp : p.Keyed) : p'.Keyed := by
  obtain ⟨kv, q, -, hvictim, hpreempt⟩ := h
  obtain ⟨s, -, rfl⟩ := preempt_cases hpreempt
  rcases takeVictim_cases hvictim with ⟨-, -, -, hdraw⟩ | ⟨-, -, -, rfl⟩ | ⟨-, -, rfl⟩
  · obtain ⟨m, -, rfl⟩ := withdraw_cases hdraw
    exact hp.sublist dictErase_keys_sublist
  · exact hp
  · exact hp

theorem Retries.keyed {q : Pass κ} (h : Retries env r n p q) (hp : p.Keyed) : q.Keyed := by
  induction h with
  | done => exact hp
  | next _ hfirst _ ih => exact ih (hfirst.keyed hp)

theorem RunningTurn.keyed (h : RunningTurn env d p r p' b) (hp : p.Keyed) : p'.Keyed := by
  cases h with
  | passedOver => exact hp
  | nothing => exact hp
  | @preempted encoder _ _ q _ _ _ _ _ hretries hself =>
    have hq : q.Keyed := Retries.keyed (p := p.withEncoder encoder) hretries hp
    exact hself.keyed hq
  | @granted encoder _ _ q _ _ _ _ _ _ _ hretries _ hcommit =>
    have hq : q.Keyed := Retries.keyed (p := p.withEncoder encoder) hretries hp
    obtain ⟨_, -, rfl⟩ := commitRunning_cases hcommit
    exact dictSet_keys_nodup hq

theorem WaitingTurn.keyed (h : WaitingTurn env d p q r p' b) (hp : p.Keyed) : p'.Keyed := by
  cases h with
  | skip => exact hp
  | stop => exact hp
  | full => exact hp
  | loads => exact hp
  | admits _ _ _ hgrant =>
    obtain ⟨-, _, -, rfl⟩ := admit_cases hgrant
    exact dictSet_keys_nodup hp

end Pass

namespace SchedulerState

variable {κ : Type} {env : SchedEnv κ} {cfg : SchedConfig} {s s' : SchedulerState κ} {p : Pass κ}

theorem schedulePass_cases (h : s.schedulePass env = .ok p) :
    ∃ p₁ loras, Pass.runningLoop env (s.deferPrefills env.answers) s.running.length
        (s.startPass env) = .ok p₁ ∧ p₁.runningLoras env.cfg = .ok loras ∧
      ({ p₁ with scheduledLoras := loras } : Pass κ).scheduleWaiting env
        (s.deferPrefills env.answers) = .ok p := by
  unfold schedulePass at h
  dsimp only at h
  split at h
  · cases h
  rename_i p₁ hp₁
  split at h
  · cases h
  · rename_i loras hloras
    exact ⟨p₁, loras, hp₁, hloras, h⟩

theorem schedulePass_keyed (h : s.schedulePass env = .ok p) : p.Keyed := by
  obtain ⟨p₁, loras, hrunning, -, hwaiting⟩ := schedulePass_cases h
  have hstart : (s.startPass env).Keyed := nodup_nil
  have hrun : p₁.Keyed :=
    Pass.runningLoop_invariant Pass.Keyed (fun hp _ _ hturn => hturn.keyed hp) hstart hrunning
  have hfirst : ({ p₁ with scheduledLoras := loras } : Pass κ).Keyed := hrun
  rcases Pass.scheduleWaiting_cases hwaiting with ⟨-, rfl⟩ | ⟨-, -, q, hloop, rfl⟩
  · exact hfirst
  · have hq : q.Keyed :=
      Pass.waitingLoop_invariant Pass.Keyed (fun hp _ _ _ hturn => hturn.keyed hp) hfirst hloop
    exact hq

variable {out : SchedulerOutput} {counts : List (ReqId × Int)}

/-- The stages of `schedule` behind the two loops. -/
theorem schedule_cases (h : s.schedule env = .ok (s', out)) :
    ∃ p k, s.schedulePass env = .ok p ∧ p.constraintsHold env.cfg = true ∧
      p.numSpecTokensToSchedule env.cfg = .ok k ∧ out = p.output env.cfg k ∧
      ({ p.state with
        encoder := p.state.encoder.getFreedMmHashes.1
        schedStepSeq :=
          if env.cfg.deferBlockFree ∧ 0 < out.totalNumScheduledTokens then p.state.schedStepSeq + 1
          else p.state.schedStepSeq } : SchedulerState κ).updateAfterSchedule env.cfg out =
        .ok s' := by
  unfold schedule at h
  split at h
  · cases h
  rename_i p hp
  unfold finishPass at h
  split at h
  · cases h
  rename_i hhold
  split at h
  · cases h
  rename_i k hk
  dsimp only at h
  split at h
  · cases h
  · rename_i s₁ hs₁
    cases h
    exact ⟨p, k, hp, Bool.not_eq_false _ ▸ hhold, hk, rfl, hs₁⟩

/-- What `_update_after_schedule` can change of a request. -/
def Advanced (q q' : Request) : Prop :=
  ∃ computed seq chunk placeholders drafts eligible, q' =
    { q with
      numComputedTokens := computed
      lastSchedSeq := seq
      isPrefillChunk := chunk
      numOutputPlaceholders := placeholders
      specTokenIds := drafts
      nextDecodeEligibleStep := eligible }

theorem Advanced.refl (q : Request) : Advanced q q :=
  ⟨q.numComputedTokens, q.lastSchedSeq, q.isPrefillChunk, q.numOutputPlaceholders, q.specTokenIds,
    q.nextDecodeEligibleStep, rfl⟩

theorem Advanced.trans {q q' q'' : Request} (h : Advanced q q') (h' : Advanced q' q'') :
    Advanced q q'' := by
  obtain ⟨_, _, _, _, _, _, rfl⟩ := h
  obtain ⟨computed, seq, chunk, placeholders, drafts, eligible, rfl⟩ := h'
  exact ⟨computed, seq, chunk, placeholders, drafts, eligible, rfl⟩

theorem advanced_update {q : Request} (h : Advanced (s.req r) q) (x : ReqId) :
    Advanced (s.req x) (update s.req r q x) := by
  by_cases hx : x = r
  · subst hx
    rw [update_self]
    exact h
  · rw [update_of_ne hx]
    exact .refl _

theorem updateScheduled_cases (h : s.updateScheduled cfg counts = .ok s') :
    ∃ req inflight, s' = { s with req := req, inflightPrefills := inflight } ∧
      ∀ x, Advanced (s.req x) (req x) := by
  induction counts generalizing s with
  | nil =>
    cases h
    exact ⟨_, _, rfl, fun x => .refl _⟩
  | cons e counts ih =>
    unfold updateScheduled at h
    split at h
    · cases h
    · obtain ⟨req, inflight, rfl, hreq⟩ := ih h
      refine ⟨req, inflight, rfl, fun x => Advanced.trans ?_ (hreq x)⟩
      exact advanced_update ⟨_, _, _, _, _, _, rfl⟩ x

theorem updateScheduled_lastSchedSeq (hdefer : cfg.deferBlockFree = true)
    (h : s.updateScheduled cfg counts = .ok s') (x : ReqId) :
    (s'.req x).lastSchedSeq =
      if x ∈ counts.map (·.1) then s.schedStepSeq else (s.req x).lastSchedSeq := by
  induction counts generalizing s with
  | nil =>
    cases h
    exact (if_neg not_mem_nil).symm
  | cons e counts ih =>
    obtain ⟨r, n⟩ := e
    unfold updateScheduled at h
    split at h
    · cases h
    have hrest := ih h
    by_cases hx : x = r
    · subst hx
      have hset : (s.setReq x (afterScheduled cfg s.schedStepSeq n)).req x =
          afterScheduled cfg s.schedStepSeq n (s.req x) := update_self ..
      have hmem : x ∈ ((x, n) :: counts).map (·.1) := mem_cons_self ..
      rw [hrest]
      split
      · rfl
      rw [hset]
      unfold afterScheduled
      simp only [hdefer, if_true]
    · have hset : (s.setReq r (afterScheduled cfg s.schedStepSeq n)).req x = s.req x :=
        update_of_ne hx ..
      have hmem : x ∈ ((r, n) :: counts).map (·.1) ↔ x ∈ counts.map (·.1) := by
        rw [map_cons, mem_cons]
        exact or_iff_right hx
      rw [hrest, if_congr hmem rfl rfl]
      show (if _ then s.schedStepSeq else
        ((s.setReq r (afterScheduled cfg s.schedStepSeq n)).req x).lastSchedSeq) = _
      rw [hset]

theorem addPlaceholders_advanced (out : SchedulerOutput) (step : Nat) (r : ReqId) (q : Request) :
    Advanced q (addPlaceholders cfg out step r q) := by
  unfold addPlaceholders
  split
  · exact .refl q
  · exact ⟨_, _, _, _, _, _, rfl⟩

/-- The end of a step changes the counters of the scheduled requests only. -/
theorem updateAfterSchedule_cases (h : s.updateAfterSchedule cfg out = .ok s') :
    ∃ req inflight num,
      s' = { s with
        req := req
        inflightPrefills := inflight
        finishedReqIds := []
        resetPreemptedReqIds := []
        numSpecPlaceholders := num } ∧ ∀ x, Advanced (s.req x) (req x) := by
  have hfold : ∀ (counts : List (ReqId × Int)) (s : SchedulerState κ), ∃ req,
      counts.foldl (fun s e => s.setReq e.1 (addPlaceholders cfg out s.currentStep e.1)) s =
        { s with req := req } ∧ ∀ x, Advanced (s.req x) (req x) := by
    intro counts
    induction counts with
    | nil => exact fun s => ⟨s.req, rfl, fun x => .refl _⟩
    | cons e counts ih =>
      intro s
      obtain ⟨req, heq, hreq⟩ := ih (s.setReq e.1 (addPlaceholders cfg out s.currentStep e.1))
      refine ⟨req, heq, fun x => Advanced.trans ?_ (hreq x)⟩
      exact advanced_update (addPlaceholders_advanced out s.currentStep e.1 (s.req e.1)) x
  unfold updateAfterSchedule at h
  split at h
  · cases h
  rename_i s₁ hs₁
  obtain ⟨req, inflight, rfl, hreq⟩ := updateScheduled_cases hs₁
  dsimp only at h
  split at h
  · obtain ⟨req', heq, hreq'⟩ := hfold out.numScheduledTokens
      { s with
        req := req
        inflightPrefills := inflight
        finishedReqIds := []
        resetPreemptedReqIds := []
        numSpecPlaceholders := out.numSpecTokensToSchedule }
    rw [heq] at h
    cases h
    exact ⟨req', inflight, _, rfl, fun x => (hreq x).trans (hreq' x)⟩
  · cases h
    exact ⟨req, inflight, _, rfl, hreq⟩

theorem updateAfterSchedule_lastSchedSeq (hdefer : cfg.deferBlockFree = true)
    (h : s.updateAfterSchedule cfg out = .ok s') (x : ReqId) :
    (s'.req x).lastSchedSeq =
      if x ∈ out.numScheduledTokens.map (·.1) then s.schedStepSeq
      else (s.req x).lastSchedSeq := by
  have hfold : ∀ (counts : List (ReqId × Int)) (s : SchedulerState κ),
      ((counts.foldl (fun s e => s.setReq e.1 (addPlaceholders cfg out s.currentStep e.1)) s).req
        x).lastSchedSeq = (s.req x).lastSchedSeq := by
    intro counts
    induction counts with
    | nil => exact fun s => rfl
    | cons e counts ih =>
      intro s
      rw [foldl_cons, ih]
      show (update s.req e.1 _ x).lastSchedSeq = _
      by_cases hx : x = e.1
      · subst hx
        rw [update_self]
        unfold addPlaceholders
        split <;> rfl
      · rw [update_of_ne hx]
  unfold updateAfterSchedule at h
  split at h
  · cases h
  rename_i s₁ hs₁
  rw [← updateScheduled_lastSchedSeq hdefer hs₁ x]
  split at h
  · cases h
    exact hfold _ _
  · cases h
    rfl

end SchedulerState
end Vllm.Sched
