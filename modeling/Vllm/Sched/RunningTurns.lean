import Vllm.Sched.EncoderRuns

/-! Which of the running requests the loop of `schedule` looks at, while preemptions move the
others under its index. -/
namespace Vllm.Sched
open List Prod Engine KVCache

namespace Pass

variable {κ : Type}

variable {env : SchedEnv κ} {d : Bool} {s : SchedulerState κ} {p p' q : Pass κ} {r v : ReqId}
  {n : Int} {cfg : SchedConfig} {seen : List ReqId} {fuel : Nat}

/-- What the turns so far have looked at stands before the index; when the last request is the
victim, nothing else does. -/
structure Seen (cfg : SchedConfig) (fuel : Nat) (seen : List ReqId) (p : Pass κ) : Prop where
  left : p.state.running.length ≤ p.reqIndex + fuel
  before : ∀ x ∈ p.state.running, x ∈ seen → x ∈ p.state.running.take p.reqIndex
  looked : cfg.policy = .fcfs → ∀ x ∈ p.state.running.take p.reqIndex, x ∈ seen

theorem Seen.preempts (h : Seen env.cfg fuel seen p) (hat : PlacedAt env.cfg s r p)
    (hs : s.running.Nodup) (hp : Preempts env r n p v p') : Seen env.cfg fuel seen p' := by
  obtain ⟨kv, q, -, hremoved, hpreempt, -⟩ := hat.toPlaced.preempts hs hat.index rfl hp
  obtain ⟨hrunning, hsched, hindex, -⟩ := preempt_frame hpreempt
  have hrun : p'.state.running = p.state.running.erase v := hrunning.trans hremoved.running
  have hnodup := hs.sublist hat.sub
  have hlen : (p.state.running.erase v).length = p.state.running.length - 1 :=
    length_erase_of_mem hremoved.mem
  have hleft := h.left
  have hother : ∀ x ∈ p.state.running.erase v, x ∈ p.state.running ∧ x ≠ v :=
    fun x hx => ⟨mem_of_mem_erase hx, (hnodup.mem_erase_iff.mp hx).1⟩
  rcases hremoved.scheduled with ⟨hnot, -, hi⟩ | ⟨hin, -, hi⟩
  · have hindex : p'.reqIndex = p.reqIndex := hindex.trans hi
    refine ⟨?_, fun x hx hseen => ?_, fun hfcfs x hx => h.looked hfcfs x ?_⟩
    · rw [hrun, hindex]
      omega
    · rw [hrun] at hx ⊢
      obtain ⟨hx, hne⟩ := hother x hx
      rw [hindex]
      exact singleton_subperm_iff.mp (subperm_take_erase (singleton_subperm_iff.mpr
        (h.before x hx hseen)) fun hmem => hne (mem_singleton.mp hmem).symm)
    · have hpriority : env.cfg.policy ≠ .priority := by simp [hfcfs]
      have hlast := (hremoved.last.resolve_right hpriority).1
      have hlt := hat.index.resolve_right hpriority
      rwa [hrun, hindex, take_erase_of_not_mem (not_mem_take_of_getLast hnodup hlast hlt)] at hx
  · -- only the priority policy takes back a request of this step
    have hindex : p'.reqIndex = p.reqIndex - 1 := hindex.trans hi
    have htake : v ∈ p.state.running.take p.reqIndex := hat.scheduled.subset hin
    refine ⟨?_, fun x hx hseen => ?_, fun hfcfs => ?_⟩
    · rw [hrun, hindex]
      omega
    · rw [hrun] at hx ⊢
      obtain ⟨hx, hne⟩ := hother x hx
      rw [hindex]
      exact (erase_subperm_take_erase (Subperm.refl _) htake).subset
        ((mem_erase_of_ne hne).mpr (h.before x hx hseen))
    · exact absurd hin (hremoved.last.resolve_right (by simp [hfcfs])).2

theorem Seen.retries (hp : Retries env r n p q) (h : Seen env.cfg fuel seen p)
    (hat : PlacedAt env.cfg s r p) (hs : s.running.Nodup) : Seen env.cfg fuel seen q := by
  induction hp with
  | done => exact h
  | next hv hfirst _ ih =>
    exact ih (h.preempts hat hs hfirst) (hat.retries hs (.next hv hfirst (.done _)))

/-- The turn is over, and `r` stands before the index. -/
theorem Seen.next (h : Seen env.cfg (fuel + 1) seen q) (hat : PlacedAt env.cfg s r q)
    (hrun : p'.state.running = q.state.running) (hindex : p'.reqIndex = q.reqIndex + 1) :
    Seen env.cfg fuel (seen ++ [r]) p' := by
  refine ⟨?_, fun x hx hseen => ?_, fun hfcfs x hx => ?_⟩
  · rw [hrun]
    have := h.left
    omega
  · rw [hrun] at hx ⊢
    rw [hindex]
    rcases mem_append.mp hseen with hseen | hseen
    · exact (take_sublist_take_left (Nat.le_succ _)).subset (h.before x hx hseen)
    · rw [mem_singleton.mp hseen]
      exact hat.fits.subset mem_cons_self
  · have hhead := hat.head.resolve_right (by simp [hfcfs])
    rw [hrun, hindex, take_add_one, hhead, mem_append] at hx
    exact mem_append.mpr (hx.imp_left (h.looked hfcfs x))

end Pass

end Vllm.Sched
