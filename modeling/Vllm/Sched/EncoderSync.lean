import Vllm.Sched.EncoderHashes
import Vllm.Sched.RunningOrder

/-! What a step announces to the workers covers what it adds to the encoder cache. Under the
priority policy this needs that a request whose inputs were announced is not preempted in the
same step. -/
namespace Vllm.Sched
open List Function EncoderCache Request

def inputHashes (req : ReqId → Request) (inputs : List (ReqId × List Nat)) : List String :=
  inputs.flatMap fun e => itemHashes (req e.1) e.2

theorem inputHashes_congr {req req' : ReqId → Request} (inputs : List (ReqId × List Nat))
    (h : ∀ x, (req' x).mmFeatures = (req x).mmFeatures) :
    inputHashes req' inputs = inputHashes req inputs := by
  unfold inputHashes itemHashes
  simp only [h]

theorem inputHashes_append (req : ReqId → Request) (inputs inputs' : List (ReqId × List Nat)) :
    inputHashes req (inputs ++ inputs') = inputHashes req inputs ++ inputHashes req inputs' :=
  flatMap_append ..

theorem inputHashes_add (req : ReqId → Request) (inputs : List (ReqId × List Nat)) (r : ReqId)
    (items : List Nat) :
    inputHashes req (if items = [] then inputs else inputs ++ [(r, items)]) =
      inputHashes req inputs ++ itemHashes (req r) items := by
  split
  · rename_i hnil
    rw [hnil]
    exact (append_nil _).symm
  · rw [inputHashes_append, inputHashes, inputHashes, flatMap_singleton]

def Outranks (a b : Request) : Prop :=
  a.priority < b.priority ∨ (a.priority = b.priority ∧ a.arrivalTime < b.arrivalTime)

instance (a b : Request) : Decidable (Outranks a b) := inferInstanceAs (Decidable (_ ∨ (_ ∧ _)))

theorem Outranks.trans {a b c : Request} (h : Outranks a b) (h' : Outranks b c) : Outranks a c := by
  unfold Outranks at *
  omega

namespace Pass

variable {κ : Type} {env : SchedEnv κ} {cfg : SchedConfig} {d : Bool} {s : SchedulerState κ}
  {p p' q : Pass κ} {r v : ReqId} {n : Int} {worker : List String} {encoder : EncoderCache}
  {plan : EncoderPlan}

/-- The victim of the priority policy outranks no running request. -/
theorem lowestPriority_not_outranks {l : List ReqId} (h : lowestPriority s l = some v) :
    ∀ x ∈ l, ¬Outranks (s.req v) (s.req x) := by
  cases l with
  | nil => cases h
  | cons a l =>
    cases h
    dsimp only
    induction l generalizing a with
    | nil => simp [Outranks]
    | cons b l ih =>
      rw [foldl_cons]
      split
      · rename_i hlt
        refine forall_mem_cons.mpr ⟨fun hout => ?_, ih b⟩
        exact ih b b mem_cons_self (Outranks.trans hout hlt)
      · rename_i hle
        obtain ⟨ha, hl⟩ := forall_mem_cons.mp (ih a)
        refine forall_mem_cons.mpr ⟨ha, forall_mem_cons.mpr ⟨?_, hl⟩⟩
        unfold Outranks at ha ⊢
        omega

theorem takeVictim_not_outranks (hpolicy : cfg.policy = .priority)
    (h : p.takeVictim cfg = .ok (q, v)) :
    ∀ x ∈ p.state.running, ¬Outranks (p.state.req v) (p.state.req x) := by
  unfold takeVictim at h
  rw [hpolicy] at h
  dsimp only at h
  split at h
  · cases h
  rename_i v' hv
  have hworst := lowestPriority_not_outranks hv
  split at h
  · obtain ⟨q', -, heq⟩ := Run.map_eq_ok h
    cases heq
    exact hworst
  · cases h
    exact hworst

/-! ### The announced hashes -/

def announced (p : Pass κ) : List String :=
  inputHashes p.state.req (p.scheduledEncoderInputs ++ p.externalEncoderInputs)

/-- What the scheduler holds, the workers have and keep, or get in this step. -/
def Mirrored (worker : List String) (p : Pass κ) : Prop :=
  ∀ x, p.state.encoder.holds x = true →
    (x ∈ worker ∧ x ∉ p.state.encoder.evicted) ∨ x ∈ p.announced

theorem Mirrored.evicts (h : Mirrored worker p) (hev : Evicts p.state.encoder p'.state.encoder)
    (hannounced : p.announced ⊆ p'.announced) : Mirrored worker p' := by
  intro x hx
  rcases h x (hev.holds x hx) with ⟨hw, hnot⟩ | hx'
  · exact .inl ⟨hw, fun hin => hnot (hev.evicted x hx hin)⟩
  · exact .inr (hannounced hx')

theorem Mirrored.frame (h : Mirrored worker p) (hev : Evicts p.state.encoder p'.state.encoder)
    (hreq : ∀ x, (p'.state.req x).mmFeatures = (p.state.req x).mmFeatures)
    (hinputs : p'.scheduledEncoderInputs = p.scheduledEncoderInputs)
    (hexternal : p'.externalEncoderInputs = p.externalEncoderInputs) : Mirrored worker p' := by
  refine h.evicts hev ?_
  unfold announced
  rw [hinputs, hexternal, inputHashes_congr _ hreq]
  exact Subset.refl _

theorem mem_announced_withInputs (hkey : ∀ e ∈ p.scheduledEncoderInputs, e.1 ≠ r) {x : String} :
    x ∈ (p.withInputs r plan encoder).announced ↔
      x ∈ p.announced ∨ x ∈ itemHashes (p.state.req r) (plan.inputs ++ plan.external) := by
  rw [announced, announced, inputHashes_append, inputHashes_append, itemHashes_append]
  simp only [withInputs, dictSet_of_forall_ne hkey, inputHashes_add, mem_append]
  tauto

/-- The inputs of one more request are allocated and announced. -/
theorem Mirrored.withInputs (h : Mirrored worker p)
    (hkey : ∀ e ∈ p.scheduledEncoderInputs, e.1 ≠ r)
    (halloc : p.state.encoder.allocateInputs (p.state.req r) (plan.inputs ++ plan.external) =
      .ok encoder) : Mirrored worker (p.withInputs r plan encoder) := by
  obtain ⟨hev, hholds⟩ := allocateInputs_holds halloc
  intro x hx
  rw [mem_announced_withInputs hkey]
  rcases hholds x hx with hx | hx
  · rcases h x hx with ⟨hw, hnot⟩ | hx
    · exact .inl ⟨hw, fun hin => hnot (hev ▸ hin)⟩
    · exact .inr (.inl hx)
  · exact .inr (.inr hx)

theorem mem_withInputs {e : ReqId × List Nat}
    (h : e ∈ (p.withInputs r plan encoder).scheduledEncoderInputs) :
    (e = (r, plan.inputs) ∧ plan.inputs ≠ []) ∨ e ∈ p.scheduledEncoderInputs := by
  have h' : e ∈ if plan.inputs = [] then p.scheduledEncoderInputs else
      dictSet p.scheduledEncoderInputs r plan.inputs := h
  split at h'
  · exact .inr h'
  · rename_i hne
    exact (mem_dictSet h').imp (⟨·, hne⟩) And.left

/-! ### Running requests -/

/-- The items of a request and its rank. -/
def itemsAndRank (a : Request) : List MultiModalFeature × Int × Nat :=
  (a.mmFeatures, a.priority, a.arrivalTime)

theorem Outranks.congr {a a' b b' : Request} (ha : itemsAndRank a' = itemsAndRank a)
    (hb : itemsAndRank b' = itemsAndRank b) (h : Outranks a b) : Outranks a' b' := by
  simp only [itemsAndRank, Prod.mk.injEq] at ha hb
  unfold Outranks at h ⊢
  omega

theorem preempt_same (h : p.preempt env v = .ok p') (x : ReqId) :
    itemsAndRank (p'.state.req x) = itemsAndRank (p.state.req x) := by
  obtain ⟨s', hs', rfl⟩ := preempt_cases h
  obtain ⟨-, kv, deferred, encoder, order, rfl⟩ := SchedulerState.preemptRequest_cases hs'
  refine apply_update itemsAndRank ?_ x
  rfl

/-- What the loop over the running requests keeps, from the state `s` on. -/
structure EncoderInv (cfg : SchedConfig) (s : SchedulerState κ) (worker : List String)
    (p : Pass κ) : Prop extends Placed s p where
  mirrored : Mirrored worker p
  keys : ∀ e ∈ p.scheduledEncoderInputs,
    e.1 ∈ p.scheduledRunningReqs ∧ ¬ItemsDone cfg (s.req e.1)
  same : ∀ x, itemsAndRank (p.state.req x) = itemsAndRank (s.req x)
  computed : ∀ x ∈ p.state.running,
    (p.state.req x).numComputedTokens = (s.req x).numComputedTokens

/-- A running request is outranked by those in front of it that still have items to compute. -/
def VictimsDone (cfg : SchedConfig) (s : SchedulerState κ) : Prop :=
  cfg.policy = .fcfs ∨
    s.running.Pairwise fun a b => Outranks (s.req a) (s.req b) ∨ ItemsDone cfg (s.req a)

instance (cfg : SchedConfig) (s : SchedulerState κ) : Decidable (VictimsDone cfg s) :=
  inferInstanceAs (Decidable (_ ∨ _))

def Ahead (r : ReqId) (p : Pass κ) : Prop :=
  ∃ l l', p.state.running = l ++ r :: l' ∧ p.scheduledRunningReqs ⊆ l

theorem Placed.ahead (h : Placed s p) (hr : p.state.running[p.reqIndex]? = some r) : Ahead r p := by
  refine ⟨p.state.running.take p.reqIndex, p.state.running.drop (p.reqIndex + 1), ?_,
    h.scheduled.subset⟩
  obtain ⟨hlt, rfl⟩ := List.getElem?_eq_some_iff.mp hr
  exact (take_append_drop p.reqIndex p.state.running).symm.trans (by rw [drop_eq_getElem_cons hlt])

theorem Ahead.removed (h : Ahead r p) (hv : v ≠ r) (hremoved : Removed cfg p q v) : Ahead r q := by
  obtain ⟨l, l', hl, hsub⟩ := h
  have hscheduled : ∀ x ∈ q.scheduledRunningReqs, x ∈ p.scheduledRunningReqs ∧ x ≠ v := by
    intro x hx
    refine ⟨?_, fun heq => hremoved.unscheduled (heq ▸ hx)⟩
    rcases hremoved.scheduled with ⟨-, heq, -⟩ | ⟨-, heq, -⟩
    · exact heq ▸ hx
    · exact mem_of_mem_erase (heq ▸ hx)
  by_cases hin : v ∈ l
  · refine ⟨l.erase v, l', ?_, fun x hx => ?_⟩
    · rw [hremoved.running, hl, erase_append_left _ hin]
    · obtain ⟨hx, hne⟩ := hscheduled x hx
      exact (mem_erase_of_ne hne).mpr (hsub hx)
  · refine ⟨l, l'.erase v, ?_, fun x hx => hsub (hscheduled x hx).1⟩
    rw [hremoved.running, hl, erase_append_right _ hin, erase_cons_tail (by simpa using hv.symm)]

variable {s' : SchedulerState κ} {a : Admission} {b : Bool}

theorem preemptRequest_encoder {ops : KVOps κ} (h : s.preemptRequest ops cfg r = .ok s') :
    s.encoder.free (s.req r) = .ok s'.encoder := by
  obtain ⟨-, s₁, encoder, order, -, hencoder, rfl⟩ := SchedulerState.preemptRequest_stages h
  exact hencoder

namespace EncoderInv

section
variable (h : EncoderInv cfg s worker p)
include h

theorem advance : EncoderInv cfg s worker p.advance :=
  { h with toPlaced := h.toPlaced.advance }

theorem withKv (kv : κ) : EncoderInv cfg s worker (p.withKv kv) :=
  { h with }

theorem withEncoder (hev : Evicts p.state.encoder encoder) :
    EncoderInv cfg s worker (p.withEncoder encoder) :=
  { h with mirrored := h.mirrored.evicts hev (Subset.refl _) }

/-- A victim that was scheduled in this step has no items to compute. -/
theorem victim_done (hvictims : VictimsDone cfg s)
    (hahead : Ahead r p) (hremoved : Removed cfg p q v) (hvictim : p.takeVictim cfg = .ok (q, v))
    (hsched : v ∈ p.scheduledRunningReqs) : ItemsDone cfg (s.req v) := by
  have hpolicy : cfg.policy = .priority := by
    rcases hremoved.last with ⟨-, hnot⟩ | hpolicy
    · exact (hnot hsched).elim
    · exact hpolicy
  obtain ⟨l, l', hl, hsub⟩ := hahead
  have hpair : Outranks (s.req v) (s.req r) ∨ ItemsDone cfg (s.req v) := by
    rcases hvictims with hfcfs | hpair
    · rw [hpolicy] at hfcfs
      cases hfcfs
    · have hrunning := hpair.sublist h.sub
      rw [hl] at hrunning
      exact (pairwise_append.mp hrunning).2.2 v (hsub hsched) r (mem_cons_self ..)
  refine hpair.resolve_left fun hout => ?_
  have hr : r ∈ p.state.running := hl ▸ mem_append_right l (mem_cons_self ..)
  exact takeVictim_not_outranks hpolicy hvictim r hr (Outranks.congr (h.same v) (h.same r) hout)

/-- Nothing that was announced is taken back. -/
theorem removed (hdone : v ∈ p.scheduledRunningReqs → ItemsDone cfg (s.req v))
    (hremoved : Removed cfg p q v) : EncoderInv cfg s worker q := by
  have hplaced := h.toPlaced.removed hremoved
  rcases hremoved.kept with ⟨-, rfl⟩ | ⟨hin, hdraw⟩
  · exact { h with
      toPlaced := hplaced
      computed := fun x hx => h.computed x (mem_of_mem_erase hx) }
  · obtain ⟨m, -, rfl⟩ := withdraw_cases hdraw
    have herase : dictErase p.scheduledEncoderInputs v = p.scheduledEncoderInputs :=
      dictErase_of_forall_ne fun e he heq => (h.keys e he).2 (heq ▸ hdone hin)
    refine { h with
      toPlaced := hplaced
      mirrored := ?_
      keys := ?_
      computed := fun x hx => h.computed x (mem_of_mem_erase hx) }
    · exact h.mirrored.frame (.refl _) (fun _ => rfl) herase rfl
    · intro e he
      obtain ⟨he, hne⟩ := mem_dictErase.mp he
      exact (h.keys e he).imp_left (mem_erase_of_ne hne).mpr

theorem preempt (hrunning : v ∉ p.state.running)
    (hp : p.preempt env v = .ok p') : EncoderInv cfg s worker p' := by
  have hplaced := h.toPlaced.preempt hp
  have hsame := preempt_same hp
  obtain ⟨s', hs', rfl⟩ := preempt_cases hp
  have hencoder := free_frees (preemptRequest_encoder hs')
  obtain ⟨-, kv, deferred, encoder, order, rfl⟩ := SchedulerState.preemptRequest_cases hs'
  refine { h with
    toPlaced := hplaced, same := fun x => (hsame x).trans (h.same x), mirrored := ?_, computed := ?_ }
  · exact h.mirrored.frame hencoder.evicts (fun x => congrArg Prod.fst (hsame x)) rfl rfl
  · intro x hx
    have hne : x ≠ v := fun heq => hrunning (heq ▸ hx)
    show (update p.state.req v _ x).numComputedTokens = _
    rw [update_of_ne hne]
    exact h.computed x hx

end

theorem preempts (h : EncoderInv env.cfg s worker p) (hs : s.running.Nodup)
    (hvictims : VictimsDone env.cfg s) (hat : PlacedAt env.cfg s r p) (hahead : Ahead r p)
    (hp : Preempts env r n p v p') :
    EncoderInv env.cfg s worker p' ∧ (v ≠ r → Ahead r p') := by
  obtain ⟨kv, q, -, hvictim, hpreempt⟩ := hp
  have hplaced : Placed s (p.withKv kv) := (h.withKv kv).toPlaced
  have hahead' : Ahead r (p.withKv kv) := hahead
  have hremoved := hplaced.takeVictim hs hat.index hvictim
  have hout : v ∉ q.state.running := by
    rw [hremoved.running]
    exact (hs.sublist h.sub).not_mem_erase
  have hinv := (h.withKv kv).removed
    ((h.withKv kv).victim_done hvictims hahead' hremoved hvictim) hremoved
  refine ⟨hinv.preempt hout hpreempt, fun hv => ?_⟩
  obtain ⟨l, l', hl, hsub⟩ := hahead'.removed hv hremoved
  obtain ⟨hrunning, hsched, -, -⟩ := preempt_frame hpreempt
  exact ⟨l, l', hrunning.trans hl, hsched ▸ hsub⟩

theorem retries (hs : s.running.Nodup) (hvictims : VictimsDone env.cfg s)
    (hp : Retries env r n p q) (h : EncoderInv env.cfg s worker p)
    (hat : PlacedAt env.cfg s r p) (hahead : Ahead r p) :
    EncoderInv env.cfg s worker q ∧ Ahead r q := by
  induction hp with
  | done => exact ⟨h, hahead⟩
  | next hv hfirst _ ih =>
    obtain ⟨hinv, hnext⟩ := h.preempts hs hvictims hat hahead hfirst
    exact ih hinv (hat.retries hs (.next hv hfirst (.done _))) (hnext hv)

theorem commit {blocks : List (List KVCache.BlockId)} (h : EncoderInv cfg s worker p)
    (hat : PlacedAt cfg s r p) (hitems : plan.inputs ≠ [] → ¬ItemsDone cfg (s.req r))
    (hp : p.commitRunning r n plan blocks = .ok p') : EncoderInv cfg s worker p' := by
  have hplaced := hat.commit hp
  obtain ⟨encoder, hencoder, rfl⟩ := commitRunning_cases hp
  have hmirrored : Mirrored worker (p.granted r n blocks) :=
    h.mirrored.frame (.refl _) (apply_update mmFeatures rfl) rfl rfl
  refine
    { toPlaced := hplaced
      mirrored := hmirrored.withInputs
        (fun e he => ne_of_mem_of_not_mem (h.keys e he).1 hat.unscheduled) hencoder
      same := fun x => .trans (apply_update itemsAndRank ?_ x) (h.same x)
      computed := fun x hx => .trans (apply_update numComputedTokens ?_ x) (h.computed x hx)
      keys := fun e he => ?_ }
  · rcases mem_withInputs he with ⟨rfl, hne⟩ | he
    · exact ⟨mem_append_right _ (mem_singleton_self r), hitems hne⟩
    · exact (h.keys e he).imp_left (mem_append_left _)
  · rfl
  · rfl

/-- Inputs are planned only for requests with items to compute. -/
theorem planned (h : EncoderInv env.cfg s worker p) (hr : r ∈ p.state.running)
    (hplan : p.planRunning env r = .ok (encoder, plan)) (hne : plan.inputs ≠ []) :
    ¬ItemsDone env.cfg (s.req r) := by
  intro hdone
  refine hne (ItemsDone.plan ?_ hplan)
  unfold ItemsDone at hdone ⊢
  rw [show (p.state.req r).mmFeatures = _ from congrArg Prod.fst (h.same r), h.computed r hr]
  exact hdone

theorem turn (hs : s.running.Nodup) (hvictims : VictimsDone env.cfg s)
    (h : EncoderInv env.cfg s worker p) (hr : p.state.running[p.reqIndex]? = some r)
    (hturn : RunningTurn env d p r p' b) : EncoderInv env.cfg s worker p' := by
  have hat : PlacedAt env.cfg s r p := h.toPlaced.placedAt hs hr
  have hahead : Ahead r p := h.toPlaced.ahead hr
  cases hturn with
  | passedOver => exact h.advance
  | nothing _ hplan => exact (h.withEncoder (tryScheduleEncoderInputs_evicts hplan)).advance
  | @preempted encoder plan n q _ hskip hplan hn hne hretries hself =>
    have hinv := h.withEncoder (tryScheduleEncoderInputs_evicts hplan)
    have hat' : PlacedAt env.cfg s r (p.withEncoder encoder) := { hat with }
    obtain ⟨hq, haheadq⟩ := retries hs hvictims hretries hinv hat' hahead
    exact (hq.preempts hs hvictims (PlacedAt.retries hs hretries hat') haheadq hself).1
  | @granted encoder plan n q _ kv blocks hskip hplan hn hne hretries halloc hcommit =>
    have hinv := h.withEncoder (tryScheduleEncoderInputs_evicts hplan)
    have hat' : PlacedAt env.cfg s r (p.withEncoder encoder) := { hat with }
    obtain ⟨hq, -⟩ := retries hs hvictims hretries hinv hat' hahead
    have hatq : PlacedAt env.cfg s r q := PlacedAt.retries hs hretries hat'
    exact (hq.withKv kv).commit { hatq with } (h.planned hat.mem hplan) hcommit

end EncoderInv

/-! ### Waiting requests -/

structure EncoderWait (worker : List String) (p : Pass κ) : Prop where
  mirrored : Mirrored worker p
  once : Once p.state
  keys : ∀ e ∈ p.scheduledEncoderInputs, e.1 ∈ p.state.running

/-- The head of a queue is visited: only its request and the encoder cache change. -/
structure VisitFrame (s s' : SchedulerState κ) : Prop where
  running : s'.running = s.running
  waiting : s'.waiting = s.waiting
  skippedWaiting : s'.skippedWaiting = s.skippedWaiting
  mmFeatures : ∀ x, (s'.req x).mmFeatures = (s.req x).mmFeatures
  evicts : Evicts s.encoder s'.encoder

theorem tryPromote_visitFrame (h : tryPromote env s r = .ok (s', b)) : VisitFrame s s' := by
  obtain ⟨request, kv, finished, failed, rfl, hpromoted, -⟩ := tryPromote_cases h
  obtain ⟨status, computed, rfl, -⟩ := hpromoted
  exact ⟨rfl, rfl, rfl, apply_update mmFeatures rfl, .refl _⟩

theorem VisitFrame.withEncoder (h : VisitFrame s s')
    (hev : Evicts s'.encoder encoder) : VisitFrame s { s' with encoder := encoder } :=
  { h with evicts := h.evicts.trans hev }

theorem VisitFrame.withKv (h : VisitFrame s s') (kv : κ) :
    VisitFrame s { s' with kv := kv } := { h with }

theorem Visited.visitFrame {v : Visit} (h : Visited env d p r s v) : VisitFrame p.state s :=
  h.rule tryPromote_visitFrame fun hframe hplan =>
    hframe.withEncoder (tryScheduleEncoderInputs_evicts hplan)

namespace EncoderWait

section
variable (h : EncoderWait worker p) {w : WaitingQueue}
include h

theorem visit (hs : VisitFrame p.state s) : EncoderWait worker (p.withState s) where
  mirrored := h.mirrored.frame hs.evicts hs.mmFeatures rfl rfl
  once := by
    unfold Once withState
    rw [hs.running, hs.waiting, hs.skippedWaiting]
    exact h.once
  keys := by
    intro e he
    show e.1 ∈ s.running
    rw [hs.running]
    exact h.keys e he

theorem pop (hs : VisitFrame p.state s) (hselect : selectWaiting cfg p.state = some (w, r)) :
    EncoderWait worker (p.withState (popWaiting cfg s w)) ∧ r ∉ (popWaiting cfg s w).running ++
        ((popWaiting cfg s w).waiting ++ (popWaiting cfg s w).skippedWaiting) := by
  have hvisit := h.visit hs
  obtain ⟨honce, hnot⟩ := hvisit.once.pop (popWaiting_perm _ hselect hs.waiting hs.skippedWaiting)
  cases w <;> exact ⟨{ hvisit with once := honce }, hnot⟩

theorem startLoad : EncoderWait worker (startLoad cfg p r a) := by
  exact { h with mirrored := h.mirrored.frame (.refl _) (apply_update mmFeatures rfl) rfl rfl }

theorem admitRequest (hr : r ∉ p.state.running ++ (p.state.waiting ++ p.state.skippedWaiting))
    (hp : p.admitRequest env r a = .ok p') : EncoderWait worker p' := by
  obtain ⟨-, encoder, hencoder, rfl⟩ := admit_cases hp
  have hkey : ∀ e ∈ p.scheduledEncoderInputs, e.1 ≠ r :=
    fun e he => ne_of_mem_of_not_mem (mem_append_left _ (h.keys e he)) hr
  have hmirrored : Mirrored worker (p.admitted env r a) :=
    h.mirrored.frame (.refl _) (apply_update mmFeatures rfl) rfl rfl
  refine ⟨hmirrored.withInputs hkey hencoder, h.once.push hr, ?_⟩
  intro e he
  rcases mem_withInputs he with ⟨rfl, -⟩ | he
  · exact mem_append_right _ (mem_singleton_self r)
  · exact mem_append_left _ (h.keys e he)

theorem turn (hselect : selectWaiting env.cfg p.state = some (w, r))
    (hturn : WaitingTurn env d p w r p' b) : EncoderWait worker p' := by
  cases hturn with
  | skip hvisited =>
    have hpop := (h.pop hvisited.visitFrame hselect).1
    exact { hpop with }
  | stop hvisited => exact h.visit hvisited.visitFrame
  | @full s a reserved kv encoder hadmits halloc hfree =>
    have hev : Evicts s.encoder encoder := by
      rcases hfree with ⟨-, rfl⟩ | hfree
      · exact .refl _
      · exact (free_frees hfree).evicts
    exact h.visit (((Visited.allocate hadmits).visitFrame.withKv kv).withEncoder hev)
  | @loads s a reserved kv blocks hadmits hasync halloc =>
    exact (h.pop ((Visited.allocate hadmits).visitFrame.withKv kv) hselect).1.startLoad
  | @admits s a reserved kv blocks _ hadmits hsync halloc hgrant =>
    obtain ⟨hpop, hnot⟩ := h.pop ((Visited.allocate hadmits).visitFrame.withKv kv) hselect
    exact hpop.admitRequest hnot hgrant

end

end EncoderWait

end Pass

/-! ### Steps -/

namespace SchedulerState

open Pass

variable {κ : Type} {env : SchedEnv κ} {s s' : SchedulerState κ} {p : Pass κ} {worker : List String}

structure EncoderSafe (cfg : SchedConfig) (s : SchedulerState κ) : Prop where
  once : (s.running ++ s.waiting ++ s.skippedWaiting).Nodup
  victims : VictimsDone cfg s

instance (cfg : SchedConfig) (s : SchedulerState κ) : Decidable (s.EncoderSafe cfg) :=
  decidable_of_iff
    ((s.running ++ s.waiting ++ s.skippedWaiting).Nodup ∧ VictimsDone cfg s)
    ⟨fun ⟨a, b⟩ => ⟨a, b⟩, fun ⟨a, b⟩ => ⟨a, b⟩⟩

/-- What the scheduler holds is in the cache of the workers, and no eviction is unknown to
them. -/
structure Synced (worker : List String) (s : SchedulerState κ) : Prop where
  held : ∀ x, s.encoder.holds x = true → x ∈ worker
  evicted : s.encoder.evicted = []

theorem schedulePass_mirrored (hsafe : s.EncoderSafe env.cfg) (hsync : s.Synced worker)
    (h : s.schedulePass env = .ok p) : Mirrored worker p := by
  obtain ⟨p₁, loras, hrunning, -, hwaiting⟩ := schedulePass_cases h
  have honce : Once s := by
    unfold Once
    rw [← append_assoc]
    exact hsafe.once
  have hs : s.running.Nodup := (nodup_append.mp honce).1
  have hstart : EncoderInv env.cfg s worker (s.startPass env) :=
    { sub := Sublist.refl _
      scheduled := nil_subperm
      mirrored := fun x hx => .inl ⟨hsync.held x hx, by
        show x ∉ s.encoder.evicted
        rw [hsync.evicted]
        exact not_mem_nil⟩
      keys := nofun
      same := fun x => .refl _
      computed := fun x _ => rfl }
  have hinv : EncoderInv env.cfg s worker p₁ ∧ QueuesKept s p₁ := by
    refine runningLoop_invariant (fun p => EncoderInv env.cfg s worker p ∧ QueuesKept s p)
      (fun {p p' r b} hinv hr _ hturn => ?_) ⟨hstart, fun _ => ⟨rfl, rfl, rfl, fun _ _ => rfl⟩⟩
      hrunning
    exact ⟨hinv.1.turn hs hsafe.victims hr hturn,
      hinv.2.turn (hinv.1.sub.subset (mem_of_getElem? hr)) hturn⟩
  rcases scheduleWaiting_cases hwaiting with ⟨-, rfl⟩ | ⟨hnone, -, q, hloop, rfl⟩
  · exact hinv.1.mirrored
  obtain ⟨hw, hk, hrun, -⟩ := hinv.2 hnone
  have hwait : EncoderWait worker { p₁ with scheduledLoras := loras } :=
    { mirrored := hinv.1.mirrored
      once := by
        unfold Once
        rw [hw, hk, hrun]
        exact honce
      keys := fun e he =>
        mem_of_mem_take (hinv.1.scheduled.subset (hinv.1.keys e he).1) }
  have hend : EncoderWait worker q := waitingLoop_invariant (EncoderWait worker)
      (fun hp hselect _ _ hturn => hp.turn hselect hturn) hwait hloop
  exact hend.mirrored

end SchedulerState
end Vllm.Sched
