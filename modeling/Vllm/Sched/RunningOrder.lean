import Vllm.Sched.ScheduleCases

/-! Where the requests that `schedule` has scheduled stand in the running list while requests
are preempted in the middle of the loop. -/
namespace Vllm.Sched
open List

/-! ### Lists without one element -/

section Lists

variable {α : Type} [DecidableEq α]

variable {l a : List α} {k : Nat} {v : α}

theorem take_erase_of_mem (h : v ∈ l.take (k + 1)) :
    (l.erase v).take k = (l.take (k + 1)).erase v := by
  conv_lhs => rw [← take_append_drop (k + 1) l]
  rw [erase_append_left _ h]
  by_cases hk : k + 1 ≤ l.length
  · rw [take_append_of_le_length]
    · rw [take_of_length_le]
      rw [length_erase_of_mem h, length_take]
      omega
    · rw [length_erase_of_mem h, length_take]
      omega
  · rw [drop_of_length_le (by omega), append_nil, take_of_length_le]
    rw [length_erase_of_mem h, length_take]
    omega

theorem take_erase_of_not_mem (h : v ∉ l.take k) : (l.erase v).take k = l.take k := by
  conv_lhs => rw [← take_append_drop k l]
  rw [erase_append_right _ h]
  by_cases hk : k ≤ l.length
  · rw [take_append_of_le_length (by rw [length_take]; omega)]
    exact take_of_length_le (by rw [length_take]; omega)
  · rw [drop_of_length_le (by omega), erase_nil, append_nil]
    exact take_of_length_le (by rw [length_take]; omega)

theorem subperm_take_erase (h : a.Subperm (l.take k)) (hv : v ∉ a) :
    a.Subperm ((l.erase v).take k) := by
  by_cases hmem : v ∈ l.take k
  · cases k with
    | zero => cases hmem
    | succ k =>
      have herase := h.erase v
      rw [erase_of_not_mem hv, ← take_erase_of_mem hmem] at herase
      exact herase.trans (take_sublist_take_left (Nat.le_succ k)).subperm
  · rw [take_erase_of_not_mem hmem]
    exact h

theorem erase_subperm_take_erase (h : a.Subperm (l.take k)) (hv : v ∈ a) :
    (a.erase v).Subperm ((l.erase v).take (k - 1)) := by
  have hmem := h.subset hv
  cases k with
  | zero => cases hmem
  | succ k =>
    rw [Nat.add_sub_cancel, take_erase_of_mem hmem]
    exact h.erase v

theorem dropLast_eq_erase (hnodup : l.Nodup) (h : l.getLast? = some v) :
    l.dropLast = l.erase v := by
  obtain ⟨l', rfl⟩ := getLast?_eq_some_iff.mp h
  have hnot : v ∉ l' := by
    intro hv
    exact (disjoint_of_nodup_append hnodup) hv (mem_singleton_self v)
  rw [dropLast_concat, erase_append_right _ hnot, erase_cons_head, append_nil]

omit [DecidableEq α] in
theorem not_mem_take_of_getLast (hnodup : l.Nodup) (h : l.getLast? = some v) (hk : k < l.length) :
    v ∉ l.take k := by
  obtain ⟨l', rfl⟩ := getLast?_eq_some_iff.mp h
  rw [length_append, length_singleton] at hk
  rw [take_append_of_le_length (Nat.le_of_lt_succ hk)]
  exact fun hv => (disjoint_of_nodup_append hnodup) (mem_of_mem_take hv) (mem_singleton_self v)

end Lists

namespace Pass

variable {κ : Type} {env : SchedEnv κ} {cfg : SchedConfig} {d : Bool} {s : SchedulerState κ}
  {p p' q : Pass κ} {r v : ReqId} {n : Int} {w : WaitingQueue}

/-- The scheduled requests are among those that the loop has passed, and no request has joined
the running list of the state `s`. -/
structure Placed (s : SchedulerState κ) (p : Pass κ) : Prop where
  sub : p.state.running.Sublist s.running
  scheduled : p.scheduledRunningReqs.Subperm (p.state.running.take p.reqIndex)

theorem Placed.advance (h : Placed s p) : Placed s p.advance :=
  ⟨h.sub, h.scheduled.trans (take_sublist_take_left (Nat.le_succ _)).subperm⟩

theorem Placed.scheduled_nodup (h : Placed s p) (hs : s.running.Nodup) :
    p.scheduledRunningReqs.Nodup := by
  obtain ⟨l, hperm, hsub⟩ := h.scheduled
  exact hperm.nodup_iff.mp (((hs.sublist h.sub).sublist (take_sublist _ _)).sublist hsub)

structure Removed (cfg : SchedConfig) (p q : Pass κ) (v : ReqId) : Prop where
  mem : v ∈ p.state.running
  running : q.state.running = p.state.running.erase v
  unscheduled : v ∉ q.scheduledRunningReqs
  kept : (v ∉ p.scheduledRunningReqs ∧ q = p.withRunning (p.state.running.erase v)) ∨
    (v ∈ p.scheduledRunningReqs ∧
      (p.withRunning (p.state.running.erase v)).withdraw v = .ok q)
  last : (p.state.running.getLast? = some v ∧ v ∉ p.scheduledRunningReqs) ∨ cfg.policy = .priority

/-- The victim leaves the running list, and what was scheduled for it is taken back. -/
theorem Removed.scheduled (h : Removed cfg p q v) :
    (v ∉ p.scheduledRunningReqs ∧ q.scheduledRunningReqs = p.scheduledRunningReqs ∧
      q.reqIndex = p.reqIndex) ∨
    (v ∈ p.scheduledRunningReqs ∧ q.scheduledRunningReqs = p.scheduledRunningReqs.erase v ∧
      q.reqIndex = p.reqIndex - 1) := by
  rcases h.kept with ⟨hnot, rfl⟩ | ⟨hin, hdraw⟩
  · exact .inl ⟨hnot, rfl, rfl⟩
  · obtain ⟨m, -, rfl⟩ := withdraw_cases hdraw
    exact .inr ⟨hin, rfl, rfl⟩

theorem Placed.removed (h : Placed s p) (hremoved : Removed cfg p q v) : Placed s q := by
  constructor
  · rw [hremoved.running]
    exact erase_sublist.trans h.sub
  · rw [hremoved.running]
    rcases hremoved.scheduled with ⟨hnot, heq, hi⟩ | ⟨hin, heq, hi⟩
    · rw [heq, hi]
      exact subperm_take_erase h.scheduled hnot
    · rw [heq, hi]
      exact erase_subperm_take_erase h.scheduled hin

theorem Placed.takeVictim (h : Placed s p) (hs : s.running.Nodup)
    (hindex : p.reqIndex < p.state.running.length ∨ cfg.policy = .priority)
    (hq : p.takeVictim cfg = .ok (q, v)) : Removed cfg p q v := by
  have hnodup := hs.sublist h.sub
  rcases takeVictim_cases hq with ⟨hprio, hmem, hsched, hdraw⟩ | ⟨hprio, hmem, hsched, rfl⟩ |
    ⟨hpolicy, hlast, rfl⟩
  · have hrest := (h.scheduled_nodup hs).not_mem_erase (a := v)
    refine ⟨hmem, ?_, ?_, .inr ⟨hsched, hdraw⟩, .inr hprio⟩
    · obtain ⟨m, -, rfl⟩ := withdraw_cases hdraw
      rfl
    · obtain ⟨m, -, rfl⟩ := withdraw_cases hdraw
      exact hrest
  · exact ⟨hmem, rfl, hsched, .inl ⟨hsched, rfl⟩, .inr hprio⟩
  · have hindex : p.reqIndex < p.state.running.length := by
      cases hindex with
      | inl hlt => exact hlt
      | inr hprio => rw [hpolicy] at hprio; cases hprio
    -- the last request is behind all that are scheduled
    have hsched : v ∉ p.scheduledRunningReqs := fun hv =>
      not_mem_take_of_getLast hnodup hlast hindex (h.scheduled.subset hv)
    rw [dropLast_eq_erase hnodup hlast]
    exact ⟨mem_of_getLast? hlast, rfl, hsched, .inl ⟨hsched, rfl⟩, .inl ⟨hlast, hsched⟩⟩

theorem Placed.preempts (h : Placed s p) (hs : s.running.Nodup)
    (hindex : p.reqIndex < p.state.running.length ∨ cfg.policy = .priority)
    (hcfg : env.cfg = cfg) (hp : Preempts env r n p v p') :
    ∃ kv q, p.allocateOne env r n = .ok (kv, none) ∧ Removed cfg (p.withKv kv) q v ∧
      q.preempt env v = .ok p' ∧ v ∉ q.state.running := by
  subst hcfg
  obtain ⟨kv, q, halloc, hvictim, hpreempt⟩ := hp
  have hplaced : Placed s (p.withKv kv) := ⟨h.sub, h.scheduled⟩
  have hremoved := hplaced.takeVictim hs hindex hvictim
  refine ⟨kv, q, halloc, hremoved, hpreempt, ?_⟩
  rw [hremoved.running]
  exact (hs.sublist h.sub).not_mem_erase

theorem preempt_frame (h : p.preempt env v = .ok p') :
    p'.state.running = p.state.running ∧ p'.scheduledRunningReqs = p.scheduledRunningReqs ∧
      p'.reqIndex = p.reqIndex ∧ p'.tokenBudget = p.tokenBudget := by
  obtain ⟨s', hs', rfl⟩ := preempt_cases h
  obtain ⟨-, kv, deferred, encoder, order, rfl⟩ := SchedulerState.preemptRequest_cases hs'
  exact ⟨rfl, rfl, rfl, rfl⟩

theorem Placed.preempt (h : Placed s p) (hp : p.preempt env v = .ok p') : Placed s p' := by
  obtain ⟨hrunning, hsched, hindex, -⟩ := preempt_frame hp
  constructor
  · rw [hrunning]
    exact h.sub
  · rw [hrunning, hsched, hindex]
    exact h.scheduled

/-- The loop is about to schedule `r`. -/
structure PlacedAt (cfg : SchedConfig) (s : SchedulerState κ) (r : ReqId) (p : Pass κ) : Prop
    extends Placed s p where
  mem : r ∈ p.state.running
  unscheduled : r ∉ p.scheduledRunningReqs
  fits : (r :: p.scheduledRunningReqs).Subperm (p.state.running.take (p.reqIndex + 1))
  head : p.state.running[p.reqIndex]? = some r ∨ cfg.policy = .priority

theorem PlacedAt.index (h : PlacedAt cfg s r p) :
    p.reqIndex < p.state.running.length ∨ cfg.policy = .priority := by
  cases h.head with
  | inl hget => exact .inl (List.getElem?_eq_some_iff.mp hget).1
  | inr hpolicy => exact .inr hpolicy

theorem Placed.placedAt (h : Placed s p) (hs : s.running.Nodup)
    (hr : p.state.running[p.reqIndex]? = some r) : PlacedAt cfg s r p := by
  have htake : p.state.running.take (p.reqIndex + 1) = p.state.running.take p.reqIndex ++ [r] := by
    rw [take_add_one, hr, Option.toList_some]
  have hnot : r ∉ p.state.running.take p.reqIndex := by
    have hnodup := (hs.sublist h.sub).sublist (take_sublist (p.reqIndex + 1) p.state.running)
    rw [htake] at hnodup
    exact fun hmem => (disjoint_of_nodup_append hnodup) hmem (mem_singleton_self r)
  exact
    { h with
      mem := mem_of_getElem? hr
      unscheduled := fun hmem => hnot (h.scheduled.subset hmem)
      fits := by
        rw [htake]
        exact ((subperm_cons r).mpr h.scheduled).trans (perm_append_singleton r _).symm.subperm
      head := .inl hr }

theorem getElem?_erase_getLast {l : List ReqId} {i : Nat} {x y : ReqId} (hnodup : l.Nodup)
    (hlast : l.getLast? = some y) (hne : y ≠ x) (hget : l[i]? = some x) :
    (l.erase y)[i]? = some x := by
  rw [← dropLast_eq_erase hnodup hlast]
  obtain ⟨l', rfl⟩ := getLast?_eq_some_iff.mp hlast
  rw [dropLast_concat]
  by_cases hi : i < l'.length
  · rwa [getElem?_append_left hi] at hget
  · have hmem := hget
    rw [getElem?_append_right (by omega)] at hmem
    exact (hne (mem_singleton.mp (mem_of_getElem? hmem)).symm).elim

theorem PlacedAt.removed (h : PlacedAt cfg s r p) (hs : s.running.Nodup) (hv : v ≠ r)
    (hremoved : Removed cfg p q v) : PlacedAt cfg s r q := by
  have hnodup := hs.sublist h.sub
  refine
    { h.toPlaced.removed hremoved with
      mem := ?_, unscheduled := ?_, fits := ?_, head := ?_ }
  · rw [hremoved.running]
    exact (mem_erase_of_ne hv.symm).mpr h.mem
  · rcases hremoved.scheduled with ⟨-, heq, -⟩ | ⟨-, heq, -⟩
    · rw [heq]
      exact h.unscheduled
    · rw [heq]
      exact fun hin => h.unscheduled (mem_of_mem_erase hin)
  · rw [hremoved.running]
    rcases hremoved.scheduled with ⟨hnot, heq, hi⟩ | ⟨hin, heq, hi⟩
    · rw [heq, hi]
      exact subperm_take_erase h.fits fun hmem => (mem_cons.mp hmem).elim hv fun hmem => hnot hmem
    · have herase := erase_subperm_take_erase h.fits (mem_cons_of_mem r hin)
      have hpos : 0 < p.reqIndex := by
        have htake := h.scheduled.subset hin
        by_contra hzero
        rw [Nat.eq_zero_of_not_pos hzero] at htake
        cases htake
      rw [erase_cons_tail (by simpa using hv.symm)] at herase
      rw [heq, hi, Nat.sub_add_cancel hpos]
      exact herase
  · rcases hremoved.last with ⟨hlast, hnot⟩ | hprio
    · rcases h.head with hget | hprio
      · rcases hremoved.scheduled with ⟨-, -, hi⟩ | ⟨hin, -, -⟩
        · rw [hremoved.running, hi]
          exact .inl (getElem?_erase_getLast hnodup hlast hv hget)
        · exact (hnot hin).elim
      · exact .inr hprio
    · exact .inr hprio

theorem PlacedAt.preempt (h : PlacedAt cfg s r p) (hp : p.preempt env v = .ok p') :
    PlacedAt cfg s r p' := by
  obtain ⟨hrunning, hsched, hindex, -⟩ := preempt_frame hp
  refine
    { h.toPlaced.preempt hp with
      mem := hrunning ▸ h.mem
      unscheduled := hsched ▸ h.unscheduled
      fits := ?_, head := ?_ }
  · rw [hrunning, hsched, hindex]
    exact h.fits
  · rw [hrunning, hindex]
    exact h.head

theorem PlacedAt.retries (hs : s.running.Nodup) (hp : Retries env r n p q)
    (h : PlacedAt env.cfg s r p) : PlacedAt env.cfg s r q := by
  induction hp with
  | done => exact h
  | next hv hfirst _ ih =>
    obtain ⟨kv, q, -, hremoved, hpreempt, -⟩ := h.toPlaced.preempts hs h.index rfl hfirst
    have hkv : PlacedAt env.cfg s r (withKv _ kv) := { h with }
    exact ih ((hkv.removed hs hv hremoved).preempt hpreempt)

theorem PlacedAt.commit {plan : EncoderPlan} {blocks : List (List KVCache.BlockId)}
    (h : PlacedAt cfg s r p) (hp : p.commitRunning r n plan blocks = .ok p') : Placed s p' := by
  obtain ⟨encoder, -, rfl⟩ := commitRunning_cases hp
  exact ⟨h.sub, (perm_append_singleton r _).subperm.trans h.fits⟩

/-! ### The queues -/

/-- Without a preemption the loop leaves the waiting requests alone. -/
def QueuesKept (s : SchedulerState κ) (p : Pass κ) : Prop :=
  p.preemptedReqs = [] → p.state.waiting = s.waiting ∧ p.state.skippedWaiting = s.skippedWaiting ∧
    p.state.running = s.running ∧ ∀ x ∉ s.running, p.state.req x = s.req x

theorem preempts_preemptedReqs (hp : Preempts env r n p v p') : p'.preemptedReqs ≠ [] := by
  obtain ⟨kv, q, -, -, hpreempt⟩ := hp
  obtain ⟨s', -, rfl⟩ := preempt_cases hpreempt
  exact append_ne_nil_of_right_ne_nil _ (cons_ne_nil _ _)

theorem Retries.preemptedReqs (hp : Retries env r n p q) (hne : p.preemptedReqs ≠ []) :
    q.preemptedReqs ≠ [] := by
  induction hp with
  | done => exact hne
  | next _ hfirst _ ih => exact ih (preempts_preemptedReqs hfirst)

theorem Retries.queuesKept (hp : Retries env r n p q) (h : QueuesKept s p) : QueuesKept s q := by
  induction hp with
  | done => exact h
  | next _ hfirst _ ih => exact ih fun hnil => (preempts_preemptedReqs hfirst hnil).elim

theorem QueuesKept.turn {b : Bool} (h : QueuesKept s p) (hmem : r ∈ s.running)
    (hturn : RunningTurn env d p r p' b) : QueuesKept s p' := by
  cases hturn with
  | passedOver => exact h
  | nothing => exact h
  | preempted _ _ _ _ _ hself => exact fun hnil => (preempts_preemptedReqs hself hnil).elim
  | @granted encoder plan n q _ kv blocks _ _ _ _ hretries _ hcommit =>
    have hq : QueuesKept s q := hretries.queuesKept (p := p.withEncoder encoder) h
    obtain ⟨encoder', -, rfl⟩ := commitRunning_cases hcommit
    intro hnil
    obtain ⟨hwaiting, hskipped, hrunning, hreq⟩ := hq hnil
    refine ⟨hwaiting, hskipped, hrunning, fun x hx => ?_⟩
    have hne : x ≠ r := fun heq => hx (heq ▸ hmem)
    show Function.update q.state.req r _ x = _
    rw [Function.update_of_ne hne]
    exact hreq x hx

/-- No request is in two queues or in one of them twice. -/
def Once (s : SchedulerState κ) : Prop := (s.running ++ (s.waiting ++ s.skippedWaiting)).Nodup

theorem selectWaiting_mem (h : selectWaiting cfg s = some (w, r)) :
    r ∈ s.waiting ++ s.skippedWaiting := by
  rcases selectWaiting_cases h with ⟨-, hhead⟩ | ⟨-, hhead⟩
  · exact mem_append_left _ (mem_of_mem_head? hhead)
  · exact mem_append_right _ (mem_of_mem_head? hhead)

theorem popWaiting_frame (cfg : SchedConfig) (s : SchedulerState κ) (w : WaitingQueue) :
    (popWaiting cfg s w).running = s.running ∧
      (popWaiting cfg s w).numWaitingForStreamingInput = s.numWaitingForStreamingInput := by
  cases w <;> exact ⟨rfl, rfl⟩

theorem Once.pop (h : Once s) (hperm : (s.waiting ++ s.skippedWaiting).Perm
      (r :: ((popWaiting cfg s w).waiting ++ (popWaiting cfg s w).skippedWaiting))) :
    Once (popWaiting cfg s w) ∧ r ∉ (popWaiting cfg s w).running ++
      ((popWaiting cfg s w).waiting ++ (popWaiting cfg s w).skippedWaiting) := by
  have hall := (hperm.append_left s.running).nodup_iff.mp h
  rw [Once, (popWaiting_frame cfg s w).1]
  exact (nodup_cons.mp (perm_middle.nodup_iff.mp hall)).symm

theorem Once.push (h : Once s) (hr : r ∉ s.running ++ (s.waiting ++ s.skippedWaiting)) :
    (s.running ++ [r] ++ (s.waiting ++ s.skippedWaiting)).Nodup := by
  rw [append_assoc]
  exact perm_middle.nodup_iff.mpr (nodup_cons.mpr ⟨hr, h⟩)

end Pass
end Vllm.Sched
