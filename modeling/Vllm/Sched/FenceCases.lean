import Vllm.Sched.FenceLog
import Vllm.Sched.RunningOrder
import Vllm.Sched.StopCases

/-! Which events each operation of the scheduler logs, and which blocks it keeps behind a
fence. -/
namespace Vllm.Sched
open List Function Request

open KVCache (BlockId KVError SlotArgs)

structure KVOps.Keeps {κ : Type} (ops : KVOps κ) (I : κ → Prop) : Prop where
  newStepStarts : ∀ {kv}, I kv → I (ops.newStepStarts kv)
  allocateSlots : ∀ {kv kv' args blocks}, I kv → ops.allocateSlots kv args = .ok (kv', blocks) → I kv'
  cacheBlocks : ∀ {kv kv' request n}, I kv → ops.cacheBlocks kv request n = .ok kv' → I kv'
  free : ∀ {kv kv' r}, I kv → ops.free kv r = .ok kv' → I kv'
  popBlocksForFree : ∀ {kv r}, I kv → I (ops.popBlocksForFree kv r).1
  freeBlocks : ∀ {kv blocks}, I kv → I (ops.freeBlocks kv blocks)
  removeSkippedBlocks : ∀ {kv kv' r computed numPrompt}, I kv →
    ops.removeSkippedBlocks kv r computed numPrompt = .ok kv' → I kv'
  evictBlocks : ∀ {kv kv' blocks}, I kv → ops.evictBlocks kv blocks = .ok kv' → I kv'
  resetPrefixCache : ∀ {kv}, I kv → I (ops.resetPrefixCache kv).1

def heldBack (fence : Nat) (events : List KVEvent) : List (Nat × List BlockId) :=
  events.filterMap fun
    | .released _ blocks => if blocks = [] then none else some (fence, blocks)
    | _ => none

theorem heldBack_append (fence : Nat) (events events' : List KVEvent) :
    heldBack fence (events ++ events') = heldBack fence events ++ heldBack fence events' :=
  filterMap_append ..

namespace SchedulerState

variable {κ : Type} {I : κ → Prop} {allow : ReqId → List BlockId → Prop}
  {s s' s'' : SchedulerState (Logged κ)} {r : ReqId}

/-- The events that an operation may log: blocks are freed at once when the last step of the
request is processed, and released otherwise. -/
def Allows (s : SchedulerState (Logged κ)) (allow : ReqId → List BlockId → Prop) : KVEvent → Prop
  | .freed r _ => (s.req r).lastSchedSeq ≤ s.processedStepSeq
  | .skipped r blocks => allow r blocks
  | .released r _ => s.processedStepSeq < (s.req r).lastSchedSeq
  | _ => False

/-- The counters stay, and what is released is kept behind the current fence. -/
structure Released (I : κ → Prop) (allow : ReqId → List BlockId → Prop)
    (s s' : SchedulerState (Logged κ)) : Prop where
  seq : s'.schedStepSeq = s.schedStepSeq
  processed : s'.processedStepSeq = s.processedStepSeq
  last : ∀ x, (s'.req x).lastSchedSeq = (s.req x).lastSchedSeq
  kv : I s.kv.kv → I s'.kv.kv
  log : I s.kv.kv → ∃ new, s'.kv.log = s.kv.log ++ new ∧ (∀ ev ∈ new, s.Allows allow ev) ∧
    s'.deferredFrees = s.deferredFrees ++ heldBack s.schedStepSeq new

theorem Released.trans (h : Released I allow s s') (h' : Released I allow s' s'') :
    Released I allow s s'' where
  seq := h'.seq.trans h.seq
  processed := h'.processed.trans h.processed
  last := fun x => (h'.last x).trans (h.last x)
  kv := fun hI => h'.kv (h.kv hI)
  log := by
    intro hI
    obtain ⟨new, hlog, hallowed, hdeferred⟩ := h.log hI
    obtain ⟨new', hlog', hallowed', hdeferred'⟩ := h'.log (h.kv hI)
    refine ⟨new ++ new', ?_, fun ev hev => ?_, ?_⟩
    · rw [hlog', hlog, append_assoc]
    · rcases mem_append.mp hev with hev | hev
      · exact hallowed ev hev
      have hev' := hallowed' ev hev
      cases ev with
      | freed r blocks =>
        show (s.req r).lastSchedSeq ≤ s.processedStepSeq
        rw [← h.last r, ← h.processed]
        exact hev'
      | released r blocks =>
        show s.processedStepSeq < (s.req r).lastSchedSeq
        rw [← h.last r, ← h.processed]
        exact hev'
      | _ => exact hev'
    · rw [hdeferred', hdeferred, heldBack_append, h.seq, append_assoc]

/-- The counters of the steps and what is behind a fence. -/
def fences (s : SchedulerState (Logged κ)) : Nat × Nat × List (Nat × List BlockId) :=
  (s.schedStepSeq, s.processedStepSeq, s.deferredFrees)

theorem Released.of_eq (hkv : s'.kv.log = s.kv.log) (hI : I s.kv.kv → I s'.kv.kv)
    (hfences : s'.fences = s.fences)
    (hlast : ∀ x, (s'.req x).lastSchedSeq = (s.req x).lastSchedSeq) : Released I allow s s' where
  seq := congrArg Prod.fst hfences
  processed := congrArg (·.2.1) hfences
  last := hlast
  kv := hI
  log := fun _ => ⟨[], by rw [hkv, append_nil], nofun,
    (congrArg (·.2.2) hfences).trans (append_nil _).symm⟩

theorem Released.refl (s : SchedulerState (Logged κ)) : Released I allow s s :=
  .of_eq rfl id rfl fun _ => rfl

/-- The queues and the encoder cache are not looked at. -/
theorem Released.setReq (s : SchedulerState (Logged κ)) (r : ReqId) (f : Request → Request)
    (hf : (f (s.req r)).lastSchedSeq = (s.req r).lastSchedSeq) :
    Released I allow s (s.setReq r f) :=
  .of_eq rfl id rfl (apply_update lastSchedSeq hf)

end SchedulerState

section Ops

variable {κ : Type} {I : κ → Prop} {allow : ReqId → List BlockId → Prop} {core : SchedCore κ}
  {freeQueue : κ → List BlockId} {s s' : SchedulerState (Logged κ)} {r : ReqId}

open SchedulerState

theorem Released.withKv {kv : Logged κ} (hI : I s.kv.kv → I kv.kv) (hlog : kv.log = s.kv.log) :
    Released I allow s { s with kv := kv } :=
  .of_eq hlog hI rfl fun _ => rfl

theorem Released.withEncoder (s : SchedulerState (Logged κ)) (encoder : EncoderCache) :
    Released I allow s { s with encoder := encoder } :=
  .of_eq rfl id rfl fun _ => rfl

theorem SchedulerState.freeRequestBlocks_released (hkeeps : core.ops.Keeps I)
    (hdefer : core.cfg.deferBlockFree = true)
    (h : s.freeRequestBlocks (core.logged freeQueue).ops core.cfg r = .ok s') :
    Released I allow s s' := by
  unfold freeRequestBlocks at h
  rw [hdefer] at h
  split at h
  · rename_i hlast
    have hlast : (s.req r).lastSchedSeq ≤ s.processedStepSeq := hlast.resolve_left (by decide)
    split at h
    · cases h
    rename_i kv hkv
    obtain ⟨kv', hkv', rfl⟩ := Run.map_eq_ok hkv
    cases h
    refine ⟨rfl, rfl, fun _ => rfl, fun hI => hkeeps.free hI hkv', fun _ => ⟨_, rfl, ?_, ?_⟩⟩
    · intro ev hev
      rw [mem_singleton.mp hev]
      exact hlast
    · exact (append_nil _).symm
  · rename_i hlast
    cases h
    refine ⟨rfl, rfl, fun _ => rfl, fun hI => hkeeps.popBlocksForFree hI, fun _ => ⟨_, rfl, ?_, ?_⟩⟩
    · intro ev hev
      rw [mem_singleton.mp hev]
      exact not_le.mp (not_or.mp hlast).2
    · show (if (core.ops.popBlocksForFree s.kv.kv r).2 = [] then _ else _) = _
      split
      · rename_i hnil
        simp only [heldBack, filterMap_cons, hnil, if_true, filterMap_nil, append_nil]
      · rename_i hne
        simp only [heldBack, filterMap_cons, hne, if_false, filterMap_nil]
        rfl

/-! ### Changes -/

/-- The blocks that leave the window of a finished request may be given back at once. -/
def SkipAllowed (core : SchedCore κ) (freeQueue : κ → List BlockId) (I : κ → Prop)
    (allow : ReqId → List BlockId → Prop) (r : ReqId) : Prop :=
  core.cfg.hasConnector = false ∨ ∀ {kv kv' : κ} {computed : Int} {numPrompt : Nat}, I kv →
    core.ops.removeSkippedBlocks kv r computed numPrompt = .ok kv' →
      allow r (newlyFree freeQueue kv kv')

namespace SchedCore

variable {who : ReqId → Prop}

theorem Change.released (hkeeps : core.ops.Keeps I) (hdefer : core.cfg.deferBlockFree = true)
    (h : Change (core.logged freeQueue) who (SkipAllowed core freeQueue I allow) s s') :
    Released I allow s s' := by
  cases h with
  | tables hbooks =>
    simp only [books, Prod.mk.injEq] at hbooks
    obtain ⟨hreq, hkv, -, hdeferred, hseq, hprocessed, -⟩ := hbooks
    exact .of_eq (by rw [hkv]) (by rw [hkv]; exact id)
      (by rw [fences, hseq, hprocessed, hdeferred]; rfl) fun x => by rw [hreq]
  | request _ hlast => exact Released.setReq s _ _ hlast
  | truncated _ h hkv =>
    have hkv : (I s.kv.kv → I s'.kv.kv) ∧ s'.kv.log = s.kv.log := by
      rcases hkv with heq | ⟨blocks, hevict⟩
      · rw [heq]
        exact ⟨id, rfl⟩
      · obtain ⟨kv, hkv, heq⟩ := Run.map_eq_ok hevict
        rw [← heq]
        exact ⟨fun hI => hkeeps.evictBlocks hI hkv, rfl⟩
    obtain ⟨req, kv, failed, rfl, hreq⟩ := h
    refine .of_eq hkv.2 hkv.1 rfl fun x => ?_
    obtain ⟨computed, heq⟩ := hreq x
    show (req x).lastSchedSeq = _
    rw [heq]
  | encoder => exact Released.withEncoder s _
  | freeBlocks h => exact freeRequestBlocks_released hkeeps hdefer h
  | skipBlocks hconnector hskip h =>
    obtain ⟨kv', hkv', rfl⟩ := Run.map_eq_ok h
    refine ⟨rfl, rfl, fun _ => rfl, fun hI => hkeeps.removeSkippedBlocks hI hkv',
      fun hI => ⟨_, rfl, fun ev hev => ?_, (append_nil _).symm⟩⟩
    rw [mem_singleton.mp hev]
    refine (hskip.resolve_left fun hno => ?_) hI hkv'
    have hconnector : core.cfg.hasConnector = true := hconnector
    rw [hno] at hconnector
    cases hconnector
  | cacheBlocks h =>
    obtain ⟨kv', hkv', rfl⟩ := Run.map_eq_ok h
    exact Released.withKv (fun hI => hkeeps.cacheBlocks hI hkv') rfl
  | resetBlocks => exact Released.withKv (fun hI => hkeeps.resetPrefixCache hI) rfl

theorem Changes.released (hkeeps : core.ops.Keeps I) (hdefer : core.cfg.deferBlockFree = true)
    (h : Changes (core.logged freeQueue) who (SkipAllowed core freeQueue I allow) s s') :
    Released I allow s s' := by
  induction h with
  | refl => exact .refl _
  | tail _ hone ih => exact ih.trans (hone.released hkeeps hdefer)

theorem updateRequestAsSession_released (core : SchedCore (Logged κ))
    (s : SchedulerState (Logged κ)) (r : ReqId) (update : StreamingUpdate) :
    Released I allow s (core.updateRequestAsSession s r update) := by
  have hmerge : (core.mergeSession (s.req r) update).lastSchedSeq = (s.req r).lastSchedSeq := by
    unfold mergeSession
    split <;> rfl
  have hset : Released I allow s (s.setReq r (core.mergeSession · update)) :=
    Released.setReq s r _ hmerge
  exact hset.trans (.of_eq rfl id rfl fun _ => rfl)

theorem Moves.released (hkeeps : core.ops.Keeps I) (hdefer : core.cfg.deferBlockFree = true)
    (h : Moves (core.logged freeQueue) (fun _ => True) (SkipAllowed core freeQueue I allow) s s') :
    Released I allow s s' := by
  induction h with
  | refl => exact .refl _
  | @tail s₁ _ _ hone ih =>
    refine ih.trans ?_
    cases hone with
    | change h => exact h.released hkeeps hdefer
    | session => exact updateRequestAsSession_released _ s₁ _ _
    | @wait r =>
      have hset : Released I allow s₁ (s₁.setReq r (withStatus .waitingForStreamingReq)) :=
        Released.setReq s₁ r _ rfl
      exact hset.trans (.of_eq rfl id rfl fun _ => rfl)
    | @finish valid _ _ _ h =>
      have hleave : Released I allow s₁ (leaveQueues core.cfg s₁ valid) :=
        .of_eq rfl id rfl fun _ => rfl
      exact hleave.trans (h.released hkeeps hdefer)

theorem preemptRequest_released (hkeeps : core.ops.Keeps I)
    (hdefer : core.cfg.deferBlockFree = true)
    (h : s.preemptRequest (core.logged freeQueue).ops core.cfg r = .ok s') :
    Released I allow s s' := by
  have hchanges : Changes (core.logged freeQueue) (fun _ => True)
      (SkipAllowed core freeQueue I allow) s s' := preemptRequest_changes trivial h
  exact hchanges.released hkeeps hdefer

/-! ### The output of a step -/

variable {result : StepResult}

theorem logged_appendTokens (core : SchedCore κ) (freeQueue : κ → List BlockId)
    (ts : List TokenId) (q : Request) :
    (core.logged freeQueue).appendTokens ts q = core.appendTokens ts q := by
  induction ts generalizing q with
  | nil => rfl
  | cons t ts ih =>
    unfold appendTokens
    dsimp only
    rw [ih]
    rfl

theorem logged_ends (core : SchedCore κ) (freeQueue : κ → List BlockId) (result : StepResult)
    (r : ReqId) (q : Request) : (core.logged freeQueue).ends result r q = core.ends result r q := by
  unfold ends
  rw [logged_appendTokens]
  rfl

/-- `update_from_output` behind the processed step. -/
theorem UpdateCase.released (hkeeps : core.ops.Keeps I) (hdefer : core.cfg.deferBlockFree = true)
    {out : SchedulerOutput} {s₁ s₂ s₃ : SchedulerState (Logged κ)} {failed : List ReqId}
    {stopped : Stopped} (hkeys : out.ids.Nodup)
    (hskip : ∀ r ∈ out.ids, core.ends result r (s.req r) = true →
      SkipAllowed core freeQueue I allow r)
    (hfailed : result.invalidBlockIds = [] ∨ core.cfg.recomputeKvLoadFailures = true ∨
      ∀ r, SkipAllowed core freeQueue I allow r)
    (h : UpdateCase (core.logged freeQueue) s out result s₁ s₂ s₃ s' failed stopped) :
    Released I allow ((core.logged freeQueue).stepProcessed s out) s' := by
  have hprocess : Moves (core.logged freeQueue) (fun _ => True)
      (SkipAllowed core freeQueue I allow) s₁ s₂ := by
    -- a request that comes up is the one from before the loop
    refine (processRequests_rule (fun (rest : List (ReqId × Int)) s' => Moves _ _ _ s₁ s' ∧
      (rest.map Prod.fst).Nodup ∧ ∀ x ∈ rest.map Prod.fst, x ∈ out.ids ∧ s'.req x = s₁.req x) ?_ ?_
      ⟨.refl, hkeys, fun x hx => ⟨hx, rfl⟩⟩ h.process).1
    · rintro e rest s₄ ⟨hs, hkeys, hsame⟩
      exact ⟨hs, (nodup_cons.mp hkeys).2, fun x hx => hsame x (mem_cons_of_mem _ hx)⟩
    rintro ⟨r, n⟩ rest s₄ s₅ _ _ ⟨hs, hkeys, hsame⟩ hmem hone
    obtain ⟨hnot, hkeys⟩ := nodup_cons.mp hkeys
    obtain ⟨hr, hreq⟩ := hsame r (mem_cons_self ..)
    obtain ⟨_, _, _, _, b, hcase, -⟩ := processRequest_cases hone
    refine ⟨hs.trans (hcase.moves trivial hmem ?_), hkeys, fun x hx => ?_⟩
    · rintro rfl
      have hends := hcase.ends
      rw [hreq, h.ends, logged_ends] at hends
      exact hskip r hr hends
    · have hone : Moves (core.logged freeQueue) (· = r) (fun _ => True) s₄ s₅ :=
        hcase.moves rfl hmem fun _ => trivial
      rw [hone.req_eq fun heq => hnot (heq ▸ hx)]
      exact hsame x (mem_cons_of_mem _ hx)
  refine Moves.released hkeeps hdefer (h.moves (fun _ => trivial) (fun hne hno => ?_) hprocess)
  rcases hfailed with hnone | hrecompute | hall
  · rcases h.invalid with ⟨-, -, hnil⟩ | ⟨hsome, -⟩
    · exact (hne hnil).elim
    · exact (hsome hnone).elim
  · have hno : core.cfg.recomputeKvLoadFailures = false := hno
    rw [hrecompute] at hno
    cases hno
  · exact hall

end SchedCore

/-! ### Steps -/

namespace Pass

variable {env : SchedEnv (Logged κ)} {d : Bool} {p p' q : Pass (Logged κ)} {v : ReqId} {n : Int}

structure Fencing (core : SchedCore κ) (freeQueue : κ → List BlockId) (I : κ → Prop)
    (env : SchedEnv (Logged κ)) : Prop where
  keeps : core.ops.Keeps I
  cfg : env.cfg = core.cfg
  ops : env.ops = core.ops.logged freeQueue
  defer : core.cfg.deferBlockFree = true

theorem takeVictim_released {cfg : SchedConfig} (h : p.takeVictim cfg = .ok (q, v)) :
    Released I allow p.state q.state := by
  rcases takeVictim_cases h with ⟨-, -, -, hdraw⟩ | ⟨-, -, -, rfl⟩ | ⟨-, -, rfl⟩
  · obtain ⟨m, -, rfl⟩ := withdraw_cases hdraw
    exact .of_eq rfl id rfl fun _ => rfl
  · exact .of_eq rfl id rfl fun _ => rfl
  · exact .of_eq rfl id rfl fun _ => rfl

section
variable (hf : Fencing core freeQueue I env)
include hf

theorem allocateSlots_kept {kv kv' : Logged κ}
    {args : SlotArgs} {blocks : Option (List (List BlockId))}
    (h : env.ops.allocateSlots kv args = .ok (kv', blocks)) :
    (I kv.kv → I kv'.kv) ∧ kv'.log = kv.log := by
  rw [hf.ops] at h
  obtain ⟨⟨kv₁, blocks₁⟩, hkv, heq⟩ := Run.map_eq_ok h
  obtain ⟨rfl, -⟩ := Prod.mk.inj heq
  exact ⟨fun hI => hf.keeps.allocateSlots hI hkv, rfl⟩

theorem Preempts.released (h : Preempts env r n p v p') :
    Released I allow p.state p'.state := by
  obtain ⟨kv, q, halloc, hvictim, hpreempt⟩ := h
  obtain ⟨hI, hlog⟩ := allocateSlots_kept hf halloc
  obtain ⟨s', hs', rfl⟩ := preempt_cases hpreempt
  rw [hf.ops, hf.cfg] at hs'
  have hkv : Released I allow p.state (p.withKv kv).state := Released.withKv hI hlog
  have hpreempted : Released I allow q.state s' :=
    SchedCore.preemptRequest_released hf.keeps hf.defer hs'
  exact hkv.trans ((takeVictim_released hvictim).trans hpreempted)

theorem Retries.released (h : Retries env r n p q) :
    Released I allow p.state q.state := by
  induction h with
  | done => exact .refl _
  | next _ hfirst _ ih => exact (hfirst.released hf).trans ih

end

variable {b : Bool}

theorem RunningTurn.released (hf : Fencing core freeQueue I env) (h : RunningTurn env d p r p' b) :
    Released I allow p.state p'.state := by
  have hencoder : ∀ encoder, Released I allow p.state (p.withEncoder encoder).state :=
    fun encoder => Released.withEncoder p.state encoder
  cases h with
  | passedOver => exact .refl _
  | nothing => exact hencoder _
  | preempted _ _ _ _ hretries hself =>
    exact (hencoder _).trans ((hretries.released hf).trans (hself.released hf))
  | @granted _ _ _ q _ kv _ _ _ _ _ hretries halloc hcommit =>
    obtain ⟨encoder, -, rfl⟩ := commitRunning_cases hcommit
    obtain ⟨hI, hlog⟩ := allocateSlots_kept hf halloc
    have hkv : Released I allow q.state (q.withKv kv).state := Released.withKv hI hlog
    have hset : Released I allow (q.withKv kv).state
        ((q.withKv kv).state.setReq r fun q => { q with specTokenIds := [] }) :=
      Released.setReq _ r _ rfl
    have hlast := hkv.trans (hset.trans (Released.withEncoder _ encoder))
    exact (hencoder _).trans ((hretries.released hf).trans hlast)

/-- Without a preemption the loop leaves the number of preemptions alone. -/
def Unpreempted (s : SchedulerState (Logged κ)) (p : Pass (Logged κ)) : Prop :=
  p.preemptedReqs = [] → ∀ x, (p.state.req x).numPreemptions = (s.req x).numPreemptions

theorem RunningTurn.unpreempted (hp : Unpreempted s p) (h : RunningTurn env d p r p' b) :
    Unpreempted s p' := by
  cases h with
  | passedOver => exact hp
  | nothing => exact hp
  | preempted _ _ _ _ _ hself => exact fun hnil => (preempts_preemptedReqs hself hnil).elim
  | @granted encoder _ _ q _ _ _ _ _ _ _ hretries _ hcommit =>
    obtain ⟨_, -, rfl⟩ := commitRunning_cases hcommit
    intro hnil x
    have hq : q = p.withEncoder encoder := by
      cases hretries with
      | done => rfl
      | next _ hfirst hrest =>
        exact (hrest.preemptedReqs (preempts_preemptedReqs hfirst) hnil).elim
    subst hq
    refine (apply_update numPreemptions ?_ x).trans (hp hnil x)
    rfl

/-! ### Waiting requests -/

/-- No request is preempted and nothing is released. Blocks are freed for loads that failed. -/
structure Loads (I : κ → Prop) (s s' : SchedulerState (Logged κ)) : Prop where
  fences : s'.fences = s.fences
  last : ∀ x, (s'.req x).lastSchedSeq = (s.req x).lastSchedSeq
  preemptions : ∀ x, (s'.req x).numPreemptions = (s.req x).numPreemptions
  kv : I s.kv.kv → I s'.kv.kv
  log : ∃ new, s'.kv.log = s.kv.log ++ new ∧ ∀ ev ∈ new, ∃ r blocks, ev = .freed r blocks

theorem Loads.trans {s'' : SchedulerState (Logged κ)} (h : Loads I s s') (h' : Loads I s' s'') :
    Loads I s s'' where
  fences := h'.fences.trans h.fences
  last := fun x => (h'.last x).trans (h.last x)
  preemptions := fun x => (h'.preemptions x).trans (h.preemptions x)
  kv := fun hI => h'.kv (h.kv hI)
  log := by
    obtain ⟨new, hlog, hfreed⟩ := h.log
    obtain ⟨new', hlog', hfreed'⟩ := h'.log
    refine ⟨new ++ new', by rw [hlog', hlog, append_assoc], fun ev hev => ?_⟩
    rcases mem_append.mp hev with hev | hev
    · exact hfreed ev hev
    · exact hfreed' ev hev

theorem Loads.of_eq (q : Request) (hlog : s'.kv.log = s.kv.log) (hI : I s.kv.kv → I s'.kv.kv)
    (hfences : s'.fences = s.fences) (hreq : s'.req = update s.req r q)
    (hlast : q.lastSchedSeq = (s.req r).lastSchedSeq)
    (hpreemptions : q.numPreemptions = (s.req r).numPreemptions) : Loads I s s' where
  fences := hfences
  last := hreq ▸ apply_update lastSchedSeq hlast
  preemptions := hreq ▸ apply_update numPreemptions hpreemptions
  kv := hI
  log := ⟨[], by rw [hlog, append_nil], nofun⟩

theorem Loads.same (r : ReqId) (hlog : s'.kv.log = s.kv.log) (hI : I s.kv.kv → I s'.kv.kv)
    (hfences : s'.fences = s.fences) (hreq : s'.req = s.req) : Loads I s s' :=
  .of_eq (s.req r) hlog hI hfences (hreq.trans (update_eq_self r s.req).symm) rfl rfl

theorem tryPromote_loads (hf : Fencing core freeQueue I env) (h : tryPromote env s r = .ok (s', b)) :
    Loads I s s' := by
  obtain ⟨_, kv, finished, failed, rfl, ⟨status, computed, rfl, -⟩, -, hkv⟩ := tryPromote_cases h
  rw [hf.ops] at hkv
  have hrequest : Loads I s { s with
      req := update s.req r
        { s.req r with status := status, numComputedTokens := computed }
      finishedRecvingKvReqIds := finished
      failedRecvingKvReqIds := failed } :=
    .of_eq _ rfl id rfl rfl rfl rfl
  rcases hkv with heq | hfree | hcache
  · subst heq
    exact hrequest
  · obtain ⟨kv', hkv', rfl⟩ := Run.map_eq_ok hfree
    refine { hrequest with kv := fun hI => hf.keeps.free hI hkv', log := ⟨_, rfl, ?_⟩ }
    intro ev hev
    exact ⟨r, _, mem_singleton.mp hev⟩
  · obtain ⟨kv', hkv', rfl⟩ := Run.map_eq_ok hcache
    exact { hrequest with
      kv := fun hI => hf.keeps.cacheBlocks hI hkv'
      log := ⟨[], (append_nil _).symm, nofun⟩ }

theorem Visited.loads (hf : Fencing core freeQueue I env) {visit : Visit}
    (h : Visited env d p r s visit) : Loads I p.state s :=
  h.rule (tryPromote_loads hf) fun hloads _ => hloads.trans (.same r rfl id rfl rfl)

theorem popWaiting_loads (cfg : SchedConfig) (s : SchedulerState (Logged κ)) (w : WaitingQueue)
    (r : ReqId) : Loads I s (popWaiting cfg s w) := by
  cases w <;> exact .same r rfl id rfl rfl

theorem WaitingTurn.onlyLoads (hf : Fencing core freeQueue I env) {w : WaitingQueue}
    (h : WaitingTurn env d p w r p' b) : Loads I p.state p'.state := by
  cases h with
  | @skip s hvisited => exact (hvisited.loads hf).trans (popWaiting_loads env.cfg s w r)
  | stop hvisited => exact hvisited.loads hf
  | full hadmits halloc =>
    obtain ⟨hI, hlog⟩ := allocateSlots_kept hf halloc
    exact (Visited.loads hf (.allocate hadmits)).trans (.same r hlog hI rfl rfl)
  | @loads s a _ kv _ hadmits _ halloc =>
    obtain ⟨hI, hlog⟩ := allocateSlots_kept hf halloc
    have hkv : Loads I s { s with kv := kv } := .same r hlog hI rfl rfl
    have hpop := hkv.trans (popWaiting_loads env.cfg { s with kv := kv } w r)
    refine (Visited.loads hf (.allocate hadmits)).trans (hpop.trans ?_)
    exact .of_eq _ rfl id rfl rfl rfl rfl
  | @admits s a _ kv _ _ hadmits _ halloc hgrant =>
    obtain ⟨hI, hlog⟩ := allocateSlots_kept hf halloc
    have hkv : Loads I s { s with kv := kv } := .same r hlog hI rfl rfl
    have hpop := hkv.trans (popWaiting_loads env.cfg { s with kv := kv } w r)
    obtain ⟨-, encoder, -, rfl⟩ := admit_cases hgrant
    refine (Visited.loads hf (.allocate hadmits)).trans (hpop.trans ?_)
    exact .of_eq _ rfl id rfl rfl rfl rfl

end Pass

end Ops
end Vllm.Sched
