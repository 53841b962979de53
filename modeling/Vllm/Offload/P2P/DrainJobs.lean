import Vllm.Offload.P2P.JobReports

/-! What `drain_jobs` of the P2P tier waits for: the loads under way and the transfers in flight.
A store job without a transfer is not waited for. -/
namespace Vllm.Offload.P2P
open List P2PTier Dict Run

namespace ServerRole

variable {K : Type} {r r' : ServerRole K}

/-- Every open job is in a transfer, and no abort waits. -/
structure Draining (r : ServerRole K) : Prop where
  carried : ∀ jobId ∈ r.storeJobs, ∃ tid xfer, r.inflight.lookup tid = some xfer ∧
    jobId ∈ xfer.jobIds
  aborts : r.pendingAborts = ∅

theorem Draining.shrink (h : r.Draining) (hjobs : ∀ jobId ∈ r'.storeJobs, jobId ∈ r.storeJobs)
    (hinflight : ∀ tid xfer, r.inflight.lookup tid = some xfer →
      r'.inflight.lookup tid = some xfer)
    (haborts : r'.pendingAborts = r.pendingAborts) : r'.Draining := by
  refine ⟨fun jobId hjob => ?_, haborts.trans h.aborts⟩
  obtain ⟨tid, xfer, hlookup, hmem⟩ := h.carried jobId (hjobs jobId hjob)
  exact ⟨tid, xfer, hinflight tid xfer hlookup, hmem⟩

theorem Shrinks.mem (h : r.Shrinks r') (jobId : JobId) (hmem : jobId ∈ r'.storeJobs) :
    jobId ∈ r.storeJobs := by
  obtain ⟨start, hlookup⟩ := exists_lookup hmem
  exact mem_of_lookup (h.storeJobs jobId start hlookup)

theorem pendingAborts_finalizeOutbound (kv : KvRequestId) (success : Option Bool) :
    (r.finalizeOutbound kv success).pendingAborts = r.pendingAborts := by
  unfold finalizeOutbound
  split <;> rfl

theorem pendingAborts_submitFailed (kv : KvRequestId) :
    (r.submitFailed kv).pendingAborts = r.pendingAborts :=
  submitFailed_rule (P := (·.pendingAborts = r.pendingAborts)) rfl (fun _ _ => rfl)
    fun h _ => (pendingAborts_finalizeOutbound _ _).trans h

theorem Draining.finalizeOutbound (h : r.Draining) (kv : KvRequestId) (success : Option Bool) :
    (r.finalizeOutbound kv success).Draining := by
  refine h.shrink (finalizeOutbound_shrinks r kv success).mem (fun tid xfer hlookup => ?_)
    (pendingAborts_finalizeOutbound kv success)
  rw [inflight_finalizeOutbound]
  exact hlookup

theorem Draining.onDone (tids : List TransferId) {acc acc' : List StoreResult × ServerRole K}
    (h : acc.2.Draining) (hdone : ServerRole.onDone tids acc = .ok acc') : acc'.2.Draining := by
  refine onDone_rule (P := fun acc => acc.2.Draining) tids hdone h ?_
  intro results r tid xfer r' h hlookup
  obtain ⟨hjobs, haborts⟩ := foldl_reportJob_tables xfer.kvRequestId true xfer.jobIds
    (results, (r.inflightPop tid).2)
  have hinflight := inflight_foldl_reportJob xfer.kvRequestId true xfer.jobIds
    (results, (r.inflightPop tid).2)
  obtain ⟨_, hpop⟩ := inflightPop_eq r tid
  generalize xfer.jobIds.foldl (reportJob xfer.kvRequestId true)
    (results, (r.inflightPop tid).2) = acc₁ at hjobs haborts hinflight
  simp only [hpop] at hjobs haborts hinflight
  have hdraining : acc₁.2.Draining := by
    refine ⟨fun jobId hjob => ?_, haborts.trans h.aborts⟩
    obtain ⟨hopen, hnot⟩ := hjobs jobId hjob
    obtain ⟨tid', xfer', hlookup', hmem⟩ := h.carried jobId hopen
    refine ⟨tid', xfer', ?_, hmem⟩
    rw [hinflight]
    refine lookup_erase_iff.mpr ⟨?_, hlookup'⟩
    rintro rfl
    rw [hlookup, Option.some.injEq] at hlookup'
    exact hnot (hlookup' ▸ hmem)
  exact fun hcount => countDone_rule hcount hdraining
    (fun _ => hdraining.shrink (fun _ h => h) (fun _ _ h => h) rfl)
    fun success h => h.finalizeOutbound _ success

end ServerRole

namespace Serving

variable {K : Type} {s s' : Serving K} {kv : KvRequestId}

theorem submitTransfer_draining (h : s.role.Draining)
    (hfresh : s.transport.nextId ∉ s.role.inflight) (kv : KvRequestId) (result : MatchResult) :
    (s.submitTransfer kv result).role.Draining := by
  have hshrinks := (submitTransfer_handles hfresh kv result).shrinks
  revert hshrinks
  unfold submitTransfer NixlTransport.writeBlocks
  by_cases hpeer : s.role.peerId ∈ s.transport.remoteDlists
  · simp only [if_pos hpeer]
    refine fun hshrinks => h.shrink hshrinks.mem (fun tid xfer hlookup => ?_) rfl
    refine lookup_setItem_iff.mpr (.inr ⟨?_, hlookup⟩)
    rintro rfl
    exact hfresh (mem_of_lookup hlookup)
  · simp only [if_neg hpeer]
    refine fun hshrinks => h.shrink hshrinks.mem (fun tid xfer hlookup => ?_)
      (ServerRole.pendingAborts_submitFailed kv)
    rwa [ServerRole.inflight_submitFailed]

theorem onFetch_draining [DecidableEq K] (h : s.role.Draining)
    (hfresh : s.transport.nextId ∉ s.role.inflight) {blocks : List (K × Nat)}
    (hfetch : s.onFetch kv blocks = .ok s') : s'.role.Draining := by
  have hset (req : OutboundRequestState K) :
      ({ s.role with outbound := s.role.outbound.insert kv req } : ServerRole K).Draining :=
    h.shrink (fun _ h => h) (fun _ _ h => h) rfl
  have hrecord : (s.recordDemand kv blocks).role.Draining := by
    unfold recordDemand
    simp only
    split
    · exact submitTransfer_draining (s := ⟨{ s.role with
        outbound := s.role.outbound.insert kv
          (((s.role.outbound.lookup kv).getD {}).addFetchDemand blocks).2 }, s.transport⟩)
        (hset _) hfresh kv _
    · exact hset _
  exact onFetch_rule (P := (·.role.Draining)) hfetch (fun _ => hrecord)
    fun _ h _ => h.finalizeOutbound kv none

/-- `collect_results` while no transfer fails. -/
theorem collectResults_draining (h : s.role.Draining) {now : Time}
    {check : TransferId → XferState} (hcheck : ∀ tid, check tid ≠ .err)
    {results : List StoreResult} (hcollect : s.collectResults now check = .ok (results, s')) :
    s'.role.Draining := by
  obtain ⟨acc, failedIds, role, hdone, hfailed, rfl⟩ := collectResults_ok hcollect
  have hnone : (s.transport.poll check).1.failed = [] := by
    refine eq_nil_iff_forall_not_mem.mpr fun tid hmem => ?_
    exact hcheck tid (NixlTransport.mem_poll_failed.mp hmem).2
  rw [hnone] at hfailed
  cases hfailed
  have hsurface : (s.role.surface now).2.Draining :=
    h.shrink (fun jobId hjob => (mem_eraseAll.mp hjob).2) (fun _ _ h => h) rfl
  exact hsurface.onDone _ hdone

theorem drainPendingAborts_of_empty (h : s.role.pendingAborts = ∅) (now : Time)
    (raises : TransferId → Bool) : s.drainPendingAborts now raises = s := by
  rw [drainPendingAborts, h]
  rfl

end Serving

section
variable {K : Type} [DecidableEq K]

namespace Session

variable {home : JobId → Option KvRequestId}

structure Calm (input : PollInput K) : Prop where
  noAbort : ∀ d ∈ input.deliveries, ∀ kv, d.received ≠ .message (.abortFetch kv)
  noFailure : ∀ tid, input.check tid ≠ .err

theorem onMessage_draining (acc : Session K × NixlTransport) (d : Delivery K)
    (inv : ServingJobs home (serving acc)) (h : acc.1.server.Draining)
    (hcalm : ∀ kv, d.received ≠ .message (.abortFetch kv)) :
    (onMessage acc d).1.server.Draining := by
  unfold onMessage
  simp only
  split
  · exact h
  split
  · split
    · exact h
    · exact h
  · exact h
  · split
    · exact h
    · rename_i s hfetch
      exact Serving.onFetch_draining h inv.fresh_nextId hfetch
  · rename_i kv hreceived
    exact absurd hreceived (hcalm kv)
  · exact h
  · exact h
  · exact h
  · exact h

theorem poll_draining {session session' : Session K} {t t' : NixlTransport} {input : PollInput K}
    {result : SessionPollResult} (inv : ServingJobs home ⟨session.server, t⟩)
    (hsafe : session.PollSafe input) (hcalm : Calm input) (h : session.server.Draining)
    (hpoll : session.poll t input = .ok (result, session', t')) : session'.server.Draining := by
  obtain ⟨-, -, -, -, hdraining⟩ := onMessages_accounts (fun session => session.server.Draining)
    input.deliveries (session, t) inv hsafe.distinct hsafe.idle
    (fun acc d hd inv h => onMessage_draining acc d inv h (hcalm.noAbort d hd)) h
  unfold poll at hpoll
  simp only at hpoll
  split at hpoll
  · cases hpoll
  rename_i stores s hcollect
  have hs := Serving.collectResults_draining hdraining hcalm.noFailure hcollect
  rw [Serving.drainPendingAborts_of_empty hs.aborts] at hpoll
  cases hpoll
  exact hs

end Session

/-! ### The tier -/

namespace P2PTier

variable {home : JobId → Option KvRequestId} {t t' : P2PTier K}

/-- What `drain_jobs` waits for is all there is: nothing is parked, and every open store job of a
session is in a transfer. -/
structure DrainReady (t : P2PTier K) : Prop where
  parked : ∀ kv batches, t.unboundStores.lookup kv = some batches → batches = []
  draining : ∀ peerId session, t.sessions.lookup peerId = some session →
    session.server.Draining

/-- The steps of `_poll_once`, without aborts of fetches and failures of transfers. -/
def CalmStep : Op K → Prop
  | .accept _ => True
  | .pollSession _ input => Session.Calm input
  | .reapSession _ => True
  | .reapUnbound _ _ => True
  | _ => False

theorem DrainReady.bindFetches (h : t.DrainReady) (peerId : PeerId) (now : Time)
    (kvs : List KvRequestId) : (kvs.foldl (bindFetch peerId now) t).DrainReady := by
  induction kvs generalizing t with
  | nil => exact h
  | cons kv kvs ih =>
    have hnone : (t.unboundStores.lookup kv).getD [] = [] := by
      cases hlookup : t.unboundStores.lookup kv with
      | none => rfl
      | some batches => exact h.parked kv batches hlookup
    refine ih ?_
    unfold bindFetch
    simp only [hnone, foldl_nil]
    refine ⟨fun kv' batches hlookup => ?_, h.draining⟩
    exact h.parked kv' batches (lookup_erase_iff.mp hlookup).2

theorem DrainReady.step (h : t.DrainReady) (hkept : t.JobsKept home) (op : Op K)
    (hcalm : CalmStep op) (hsafe : t.StepSafe op) (hstep : t.step op = .ok t') :
    t'.DrainReady := by
  cases op with
  | accept peerId =>
    cases hstep
    unfold openSession
    split
    · exact h
    refine ⟨h.parked, fun p session hlookup => ?_⟩
    rcases lookup_setItem_iff.mp hlookup with ⟨-, rfl⟩ | ⟨-, hlookup⟩
    · exact ⟨fun jobId hjob => absurd hjob (AList.notMem_empty jobId), rfl⟩
    · exact h.draining p session hlookup
  | pollSession peerId input =>
    have hpolled : t.pollSession peerId input = .ok t' := hstep
    unfold pollSession at hpolled
    split at hpolled
    · cases hpolled
      exact h
    rename_i session hlookup
    split at hpolled
    · cases hpolled
    rename_i result session' data hpoll
    cases hpolled
    have hready : DrainReady (({ t with
        sessions := t.sessions.setItem peerId session', data } : P2PTier K).addResults
        result.loads result.stores) := by
      refine ⟨h.parked, fun p s hs => ?_⟩
      rcases lookup_setItem_iff.mp hs with ⟨-, rfl⟩ | ⟨-, hs⟩
      · exact Session.poll_draining (hkept.sessions hlookup).1
          (hsafe session hlookup) hcalm (h.draining peerId session hlookup) hpoll
      · exact h.draining p s hs
    exact hready.bindFetches peerId _ _
  | reapSession peerId =>
    cases hstep
    unfold reapSession
    split
    · exact h
    split
    · exact h
    · refine ⟨h.parked, fun p session hlookup => ?_⟩
      exact h.draining p session (lookup_erase_iff.mp hlookup).2
  | reapUnbound now kv =>
    cases hstep
    unfold reapUnbound
    split
    · exact h
    split
    · refine ⟨fun kv' batches hlookup => ?_, h.draining⟩
      exact h.parked kv' batches (lookup_erase_iff.mp hlookup).2
    · exact h
  | newRequest ctx => exact absurd hcalm id
  | submitStore job now => exact absurd hcalm id
  | submitLoad job now => exact absurd hcalm id
  | requestFinished ctx => exact absurd hcalm id
  | takeFinished => exact absurd hcalm id

/-! ### The passes of `drain_jobs` -/

def RoundMeets (ok : P2PTier K → Op K → Prop) (t : P2PTier K) (round : Round K) : Prop :=
  let t₁ := round.newConnections.foldl openSession t
  Run.Meets step ok t (round.newConnections.map .accept) ∧
    Run.Meets step ok t₁
      (t₁.sessions.keys.map fun peerId => .pollSession peerId (round.inputs peerId)) ∧
    ∀ t₂, t₁.pollAll round.inputs = .ok t₂ →
      let t₃ := t₂.sessions.keys.foldl reapSession t₂
      Run.Meets step ok t₂ (t₂.sessions.keys.map .reapSession) ∧
        Run.Meets step ok t₃ (t₃.unboundStores.keys.map (.reapUnbound round.now))

def DrainMeets (ok : P2PTier K → Op K → Prop) : List (Round K) → P2PTier K → Prop
  | [], _ => True
  | round :: rounds, t =>
    RoundMeets ok t round ∧ ∀ t', t.pollOnce round = .ok t' → DrainMeets ok rounds t'

variable {ok : P2PTier K → Op K → Prop}

theorem pollOnce_reaches {round : Round K} (hmeets : RoundMeets ok t round)
    (h : t.pollOnce round = .ok t') : Reaches step ok t t' := by
  obtain ⟨hconnect, hpolls, hreap⟩ := hmeets
  have h₁ := Reaches.start.meets _ hconnect (run_map (g := openSession) _ (fun _ _ => rfl) t)
  unfold pollOnce at h
  simp only at h
  split at h
  · cases h
  rename_i t₂ hpoll
  obtain ⟨hreaps, hunbound⟩ := hreap t₂ hpoll
  have h₂ := h₁.meets _ hpolls ((run_map_eq ..).trans hpoll)
  have h₃ := h₂.meets _ hreaps (run_map (g := reapSession) _ (fun _ _ => rfl) t₂)
  have h₄ := h₃.meets _ hunbound (run_map (g := reapUnbound round.now) _ (fun _ _ => rfl) _)
  cases h
  exact h₄

theorem drainJobs_reaches (rounds : List (Round K)) (hmeets : DrainMeets ok rounds t)
    (h : drainJobs rounds t = .ok (some t')) :
    Reaches step ok t t' ∧ t'.pending = false := by
  induction rounds generalizing t with
  | nil => cases h
  | cons round rounds ih =>
    rw [drainJobs] at h
    split at h
    · cases h
    rename_i t₁ hpoll
    have hone := pollOnce_reaches hmeets.1 hpoll
    split at h
    · obtain ⟨hrest, hdone⟩ := ih (hmeets.2 t₁ hpoll) h
      exact ⟨hone.trans hrest, hdone⟩
    · rename_i hpending
      cases h
      exact ⟨hone, Bool.eq_false_iff.mpr hpending⟩

def Queued (t : P2PTier K) (jobId : JobId) : Prop :=
  (∃ result ∈ t.finishedJobs, result.jobId = jobId) ∨
    ∃ peerId session, t.sessions.lookup peerId = some session ∧
      ∃ result ∈ session.server.pendingStoreResults, result.jobId = jobId

end P2PTier
end
namespace P2PTier

variable {K : Type} {t : P2PTier K} {session : Session K} {jobId : JobId}

theorem queued_of_session {peerId : PeerId} (hlookup : t.sessions.lookup peerId = some session)
    (hpending : t.pending = false) (hdraining : session.server.Draining)
    (hcollected : session.client.completedLoads = []) (hjob : jobId ∈ session.jobs) :
    t.Queued jobId := by
  have hidle := any_eq_false.mp hpending _ (lookup_iff_mem_entries.mp hlookup)
  simp only [Bool.or_eq_true, Bool.not_eq_true', not_or, Bool.not_eq_false,
    List.isEmpty_iff] at hidle
  have hinbound : session.client.inbound.entries = [] := map_eq_nil_iff.mp hidle.1
  have hinflight : ∀ tid, tid ∉ session.server.inflight := by
    intro tid hmem
    have hkey := AList.mem_keys.mp hmem
    rw [hidle.2] at hkey
    cases hkey
  have hclosed : session.server.storeJobs.keys = [] := by
    refine eq_nil_iff_forall_not_mem.mpr fun jobId hmem => ?_
    obtain ⟨tid, xfer, hxfer, -⟩ := hdraining.carried jobId (AList.mem_keys.mpr hmem)
    exact hinflight tid (mem_of_lookup hxfer)
  rw [Session.jobs, ClientRole.jobs, total, hinbound, hcollected, ServerRole.jobs, hclosed] at hjob
  obtain ⟨result, hresult, heq⟩ := mem_map.mp (Multiset.mem_coe.mp hjob)
  exact .inr ⟨peerId, session, hlookup, result, hresult, heq⟩

end P2PTier

namespace JobRun

section
variable {K : Type} [DecidableEq K] {g : JobRun K}

theorem drain_inv {tier : P2PTier K} (inv : Inv g) (hready : g.tier.DrainReady)
    (h : Reaches P2PTier.step (fun t op => t.StepSafe op ∧ CalmStep op) g.tier tier) :
    Inv ⟨tier, g.submitted, g.returned⟩ ∧ tier.DrainReady := by
  induction h with
  | start => exact ⟨inv, hready⟩
  | next op _ hok hstep ih =>
    rename_i t t' _
    obtain ⟨inv', hready'⟩ := ih
    have hcalm := hok.2
    have hnone : op.submits = [] ∧ op.returns t = [] := by
      cases op <;> first | exact ⟨rfl, rfl⟩ | exact absurd hcalm id
    obtain ⟨g', hg', hinv⟩ := step_inv inv' op ⟨by rw [hnone.1]; exact nofun, hok.1⟩
    simp only [step, hstep, hnone, append_nil] at hg'
    cases hg'
    obtain ⟨home, hkept, -⟩ := inv'.kept
    exact ⟨hinv, hready'.step hkept op hcalm hok.1 hstep⟩

/-- In a run of safe steps each job that was submitted is in one place or was returned once, and
no safe step fails. If a drain starts while every store job is in a transfer and all its steps are
safe and calm, every job has a result when it returns. -/
theorem reaches_reportedOnce (h : Reaches step Safe ({} : JobRun K) g) :
    g.Accounted ∧ (∀ op, g.Safe op → ∃ g', g.step op = .ok g') ∧
      ∀ rounds tier, g.tier.DrainReady →
        DrainMeets (fun t op => t.StepSafe op ∧ CalmStep op) rounds g.tier →
        drainJobs rounds g.tier = .ok (some tier) →
        ∀ jobId ∈ g.submitted, jobId ∈ g.returned ∨ tier.Queued jobId := by
  have inv := reaches_inv h
  refine ⟨inv.accounted, fun op hsafe => ?_, fun rounds tier hready hmeets hdrain jobId hjob => ?_⟩
  · obtain ⟨g', hg', -⟩ := step_inv inv op hsafe
    exact ⟨g', hg'⟩
  · obtain ⟨hreaches, hpending⟩ := drainJobs_reaches rounds hmeets hdrain
    obtain ⟨inv', hready'⟩ := drain_inv inv hready hreaches
    obtain ⟨home, hkept, -⟩ := inv'.kept
    have hmem : jobId ∈ (g.returned : Multiset JobId) + tier.jobs := by
      rw [inv'.jobs]
      exact Multiset.mem_coe.mpr hjob
    rcases Multiset.mem_add.mp hmem with hreturned | htier
    · exact .inl (Multiset.mem_coe.mp hreturned)
    rcases Multiset.mem_add.mp htier with hrest | hsession
    · rcases Multiset.mem_add.mp hrest with hfinished | hparked
      · obtain ⟨result, hresult, heq⟩ := mem_map.mp (Multiset.mem_coe.mp hfinished)
        exact .inr (.inl ⟨result, hresult, heq⟩)
      obtain ⟨⟨kv, batches⟩, hentry, hbatch⟩ := mem_total.mp hparked
      have hnil := hready'.parked kv batches (lookup_iff_mem_entries.mpr hentry)
      simp only [hnil] at hbatch
      cases hbatch
    · obtain ⟨⟨peerId, session⟩, hentry, hjobs⟩ := mem_total.mp hsession
      have hlookup := lookup_iff_mem_entries.mpr hentry
      exact .inr (queued_of_session hlookup hpending
        (hready'.draining peerId session hlookup) (hkept.sessions hlookup).2 hjobs)

end

def storeAndDrain : List (Op Nat) :=
  [.accept 1, .pollSession 1 (quiet [.connect true, .message (.fetch 5 [(7, 0)])]),
    .submitStore ⟨0, [(7, 3)], { decode := some { kvRequestId := some 5 } }⟩ 0]

theorem reaches_reportedOnce_storeAndDrain :
    ∃ g tier, run step {} storeAndDrain = .ok g ∧ g.submitted = [0] ∧ g.Accounted ∧
      drainJobs [{ inputs := fun _ => allDone }] g.tier = .ok (some tier) ∧
      tier.Queued 0 := by
  have hstart : Reaches step Safe ({} : JobRun Nat) {} := .start
  have hopen := hstart.next (Op.accept 1) ⟨nofun, trivial⟩ rfl
  have hfetch := hopen.next (Op.pollSession 1 (quiet [.connect true, .message (.fetch 5 [(7, 0)])]))
    ⟨nofun, fun session hlookup => by
      cases hlookup
      exact ⟨by decide, by decide, nofun⟩⟩ rfl
  have hstore := hfetch.next
    (Op.submitStore ⟨0, [(7, 3)], { decode := some { kvRequestId := some 5 } }⟩ 0)
    ⟨by decide, trivial⟩ rfl
  obtain ⟨haccounted, -, hdrain⟩ := reaches_reportedOnce hstore
  refine ⟨_, _, rfl, rfl, haccounted, rfl, ?_⟩
  have hqueued := hdrain [{ inputs := fun _ => allDone }] _ ?_ ?_ rfl 0 (by decide)
  · exact hqueued.resolve_left (by decide)
  · refine ⟨fun kv batches hlookup => ?_, fun peerId session hlookup => ?_⟩
    · have hnone : (none : Option (List (UnboundStoreBatch Nat))) = some batches := hlookup
      cases hnone
    · cases lookup_iff_mem_entries.mp hlookup with
      | head =>
        refine ⟨fun jobId hjob => ?_, rfl⟩
        obtain rfl : jobId = 0 := mem_singleton.mp (AList.mem_keys.mp hjob)
        exact ⟨0, _, rfl, mem_singleton_self 0⟩
      | tail _ hmem => cases hmem
  · refine ⟨⟨trivial, ⟨⟨fun session hlookup => ?_, nofun, nofun⟩, fun _ _ => trivial⟩,
      fun t₂ hpoll => ?_⟩, fun _ _ => trivial⟩
    · cases hlookup
      exact ⟨nodup_nil, nofun, fun _ _ _ jobId _ (h : jobId ∈ []) => not_mem_nil h⟩
    · cases hpoll
      exact ⟨⟨⟨fun session hlookup _ => by
        cases hlookup
        rfl, trivial⟩, fun _ _ => trivial⟩, trivial⟩

/-- A job that timed out is reported again when its request ends. A load whose request finishes is
never reported. A drain returns while a job is parked. -/
theorem step_miscounts :
    (run step ({} : JobRun Nat)
        [.accept 1, .pollSession 1 (quiet [.connect true, .message (.fetch 5 [(7, 0)])]),
          .submitStore ⟨0, [(8, 3)], { decode := some { kvRequestId := some 5 } }⟩ 0,
          .pollSession 1 { quiet [] with serverNow := 30000 }, .takeFinished,
          .requestFinished { decode := some { kvRequestId := some 5 } },
          .pollSession 1 (quiet []), .takeFinished]).map (fun g => g.returned) =
      .ok [0, 0] ∧
    (run step ({} : JobRun Nat)
        [.accept 1,
          .submitLoad ⟨0, [(7, 0)], { prefill := some { kvRequestId := some 5, remote := some 1 } }⟩ 0,
          .requestFinished { prefill := some { kvRequestId := some 5, remote := some 1 } }]).map
        (fun g => (g.submitted, g.returned, decide (g.tier.jobs = 0))) = .ok ([0], [], true) ∧
    (run step ({} : JobRun Nat)
        [.submitStore ⟨0, [(7, 3)], { decode := some { kvRequestId := some 5 } }⟩ 0]).map
        (fun g => (drainJobs [{ inputs := fun _ => quiet [] }] g.tier).map
          (·.map fun t => (t.finishedJobs, t.unboundStores.keys))) =
      .ok (.ok (some ([], [5]))) :=
  ⟨rfl, rfl, rfl⟩

end JobRun
end Vllm.Offload.P2P
