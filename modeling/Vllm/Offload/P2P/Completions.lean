import Vllm.Lib.Run
import Vllm.Offload.P2P.Tier

/-! Which session learns that a transfer ended: the tables of the sessions against the table of the
one transport. -/
namespace Vllm.Offload.P2P
open ServerRole AList Dict

namespace ServerRole

variable {K : Type} {r₀ r r' : ServerRole K} {results : List StoreResult} {tid : TransferId}
  {xfer : InflightXfer}

/-! ### The jobs of the transfers that ended -/

theorem foldl_reportJob_tables (kv : KvRequestId) (success : Bool) (jobIds : List JobId)
    (acc : List StoreResult × ServerRole K) :
    let acc' := jobIds.foldl (reportJob kv success) acc
    (∀ jobId ∈ acc'.2.storeJobs, jobId ∈ acc.2.storeJobs ∧ jobId ∉ jobIds) ∧
      acc'.2.pendingAborts = acc.2.pendingAborts := by
  induction jobIds generalizing acc with
  | nil => exact ⟨fun _ h => ⟨h, List.not_mem_nil⟩, rfl⟩
  | cons jobId jobIds ih =>
    obtain ⟨hjobs, haborts⟩ := ih (reportJob kv success acc jobId)
    have hone : (∀ j ∈ (reportJob kv success acc jobId).2.storeJobs,
        j ∈ acc.2.storeJobs ∧ j ≠ jobId) ∧
        (reportJob kv success acc jobId).2.pendingAborts = acc.2.pendingAborts := by
      unfold reportJob
      split
      · exact ⟨fun j h => ⟨(mem_erase.mp h).2, (mem_erase.mp h).1⟩, rfl⟩
      · rename_i hclosed
        exact ⟨fun j h => ⟨h, fun heq => hclosed (heq ▸ h)⟩, rfl⟩
    refine ⟨fun j h => ?_, haborts.trans hone.2⟩
    obtain ⟨hopen, hnot⟩ := hjobs j h
    obtain ⟨hold, hne⟩ := hone.1 j hopen
    exact ⟨hold, List.not_mem_cons_of_ne_of_not_mem hne hnot⟩

/-- The job is open, or it has a result. -/
def Accounted (acc : List StoreResult × ServerRole K) (jobId : JobId) : Prop :=
  jobId ∈ acc.2.storeJobs ∨ jobId ∈ (acc.1 ++ acc.2.pendingStoreResults).map (·.jobId)

theorem foldl_reportJob_accounted (kv : KvRequestId) (success : Bool) (jobIds : List JobId)
    {acc : List StoreResult × ServerRole K} {jobId : JobId} (h : Accounted acc jobId) :
    Accounted (jobIds.foldl (reportJob kv success) acc) jobId := by
  refine List.foldlRecOn (motive := (Accounted · jobId)) jobIds _ h fun acc h job _ => ?_
  unfold reportJob
  split
  · simp only [Accounted, mem_erase, List.map_append, List.map_cons, List.mem_append,
      List.mem_singleton, List.map_nil] at h ⊢
    by_cases heq : jobId = job
    · exact .inr (.inl (.inr heq))
    · tauto
  · exact h

/-- What `collect_results` has done since `r₀`: no open job is lost, and the jobs of a transfer
that left the table are closed. -/
structure Collects (r₀ : ServerRole K) (acc : List StoreResult × ServerRole K) : Prop where
  accounted : ∀ jobId ∈ r₀.storeJobs, Accounted acc jobId
  closed : ∀ tid xfer, r₀.inflight.lookup tid = some xfer →
    acc.2.inflight.lookup tid = some xfer ∨ ∀ jobId ∈ xfer.jobIds, jobId ∉ acc.2.storeJobs

theorem surface_collects (r : ServerRole K) (now : Time) : Collects r (r.surface now) := by
  refine ⟨fun jobId hopen => ?_, fun tid xfer hlookup => .inl hlookup⟩
  by_cases hmem : jobId ∈ r.expiredJobs now
  · refine .inr ?_
    simpa [surface, timeoutPendingStoreJobs] using .inl hmem
  · exact .inl (mem_eraseAll.mpr ⟨hmem, hopen⟩)

theorem Collects.finalizeOutbound (h : Collects r₀ (results, r)) (kv : KvRequestId)
    (success : Option Bool) : Collects r₀ (results, r.finalizeOutbound kv success) := by
  unfold ServerRole.finalizeOutbound
  split
  · exact h
  rename_i req _
  refine ⟨fun jobId hopen => ?_, fun tid xfer hlookup => ?_⟩
  · have haccounted := h.accounted jobId hopen
    by_cases hmem : jobId ∈ req.pendingJobIds
    · exact .inr (by simp [hmem])
    · simp only [Accounted, mem_eraseAll, List.map_append, List.mem_append] at haccounted ⊢
      tauto
  · exact (h.closed tid xfer hlookup).imp id fun hclosed jobId hmem hopen =>
      hclosed jobId hmem (mem_eraseAll.mp hopen).2

theorem Collects.reportJobs (h : Collects r₀ (results, r)) (success : Bool)
    (hlookup : r.inflight.lookup tid = some xfer) :
    Collects r₀ (xfer.jobIds.foldl (reportJob xfer.kvRequestId success)
      (results, (r.inflightPop tid).2)) := by
  have htables := (foldl_reportJob_tables xfer.kvRequestId success xfer.jobIds
    (results, (r.inflightPop tid).2)).1
  obtain ⟨_, hpop⟩ := inflightPop_eq r tid
  refine ⟨fun jobId hopen => foldl_reportJob_accounted _ _ _ ?_, fun tid' xfer' hlookup' => ?_⟩
  · rw [hpop]
    exact h.accounted jobId hopen
  rw [inflight_foldl_reportJob]
  simp only [hpop] at htables ⊢
  rcases h.closed tid' xfer' hlookup' with hkept | hclosed
  · by_cases heq : tid' = tid
    · rw [heq, hlookup, Option.some.injEq] at hkept
      subst hkept
      exact .inr fun jobId hmem hopen => (htables jobId hopen).2 hmem
    · exact .inl (lookup_erase_iff.mpr ⟨heq, hkept⟩)
  · exact .inr fun jobId hmem hopen => hclosed jobId hmem (htables jobId hopen).1

theorem Collects.dropFailed (h : Collects r₀ (results, r)) (kv : KvRequestId) :
    Collects r₀ (results, r.dropFailed kv) := by
  unfold ServerRole.dropFailed
  split
  · exact h
  · exact ⟨h.accounted, h.closed⟩

end ServerRole

namespace Serving

variable {K : Type} {others : TransferId → Prop} {s s' : Serving K} {check : TransferId → XferState}
  {results : List StoreResult} {now : Time}

/-- The transport carries the transfers of the role and those of other roles. -/
def Agrees (others : TransferId → Prop) (s : Serving K) : Prop :=
  ∀ tid, (tid ∈ s.transport.inflight ↔ tid ∈ s.role.inflight ∨ others tid) ∧
    (tid ∈ s.role.inflight → ¬ others tid) ∧
    (tid ∈ s.transport.inflight → tid < s.transport.nextId)

section
variable (agrees : Agrees others s)
include agrees

theorem Agrees.congr (hrole : s'.role.inflight = s.role.inflight)
    (htransport : s'.transport = s.transport) : Agrees others s' := by
  intro tid
  rw [hrole, htransport]
  exact agrees tid

theorem Agrees.drop (gone : TransferId → Prop) (hown : ∀ tid, gone tid → tid ∈ s.role.inflight)
    (hrole : ∀ tid, tid ∈ s'.role.inflight ↔ tid ∈ s.role.inflight ∧ ¬ gone tid)
    (htransport : ∀ tid, tid ∈ s'.transport.inflight ↔ tid ∈ s.transport.inflight ∧ ¬ gone tid)
    (hnext : s'.transport.nextId = s.transport.nextId) : Agrees others s' := by
  intro tid
  obtain ⟨hmem, hapart, hfresh⟩ := agrees tid
  have := hown tid
  rw [hrole, htransport, hnext]
  tauto

theorem Agrees.ended_iff (check : TransferId → XferState) (tid : TransferId)
    (hmem : tid ∈ s.role.inflight) :
    (tid ∉ (s.transport.poll check).1.done ∧ tid ∉ (s.transport.poll check).1.failed) ↔
      ¬ (check tid).Ended := by
  have hin := (agrees tid).1.mpr (.inl hmem)
  rw [NixlTransport.mem_poll_done, NixlTransport.mem_poll_failed, XferState.Ended]
  tauto

variable (now : Time) (raises : TransferId → Bool) (kvRequestId : KvRequestId)

theorem submitTransfer_agrees
    (result : MatchResult) : Agrees others (s.submitTransfer kvRequestId result) := by
  unfold submitTransfer NixlTransport.writeBlocks
  by_cases hpeer : s.role.peerId ∈ s.transport.remoteDlists
  · simp only [if_pos hpeer]
    intro tid
    obtain ⟨hmem, hapart, hfresh⟩ := agrees tid
    have hnew : tid ∈ s.transport.inflight → tid ≠ s.transport.nextId := fun h => (hfresh h).ne
    simp only [inflightAdd, mem_setItem, Nat.lt_succ_iff_lt_or_eq]
    grind
  · simp only [if_neg hpeer]
    exact agrees.congr (inflight_submitFailed _) rfl

theorem addStoredBlocks_agrees [DecidableEq K]
    (kvRequestId : KvRequestId) (blocks : List (K × Nat)) (jobId : JobId) (now : Time) :
    Agrees others (s.addStoredBlocks kvRequestId blocks jobId now) := by
  unfold addStoredBlocks
  simp only
  split
  · refine submitTransfer_agrees ?_ _ _
    exact agrees
  · exact agrees

theorem recordDemand_agrees [DecidableEq K] (kvRequestId : KvRequestId) (blocks : List (K × Nat)) :
    Agrees others (s.recordDemand kvRequestId blocks) := by
  unfold recordDemand
  simp only
  split
  · refine submitTransfer_agrees ?_ _ _
    exact agrees
  · exact agrees

theorem drainAbort_agrees : Agrees others (s.drainAbort now raises kvRequestId) := by
  unfold drainAbort
  simp only
  generalize hids : inflightOf _ [kvRequestId] = ids
  have hown : ∀ tid ∈ ids, tid ∈ s.role.inflight := by
    subst hids
    exact fun tid htid => mem_inflight_of_mem_inflightOf htid
  split
  · exact agrees
  split
  · refine agrees.drop (· ∈ ids) hown (fun tid => ?_) (fun tid => ?_) rfl
    · simp only [finalizeAbort, inflight_popAll, mem_eraseAll]
      exact and_comm
    · rw [NixlTransport.mem_cancel_immediate]
      exact and_comm
  · -- what could not be released stays in both tables
    generalize hstill : (s.transport.cancel ids .wait raises).1 = still
    refine agrees.drop (fun tid => tid ∈ ids ∧ tid ∉ still)
      (fun tid h => hown tid h.1) (fun tid => ?_) (fun tid => ?_)
      (NixlTransport.nextId_cancel ..)
    · have hpop : ∀ role : ServerRole K, (if still = [] then role.finalizeAbort kvRequestId
          else role).inflight = role.inflight := by
        intro role
        split <;> rfl
      rw [hpop, inflight_popAll, mem_eraseAll, List.mem_filter, decide_eq_true_eq]
      exact and_comm
    · rw [NixlTransport.mem_cancel_wait, hstill]
      tauto

end

/-- The requests with a failed transfer lose their other transfers. -/
def Cancelled (s : Serving K) (check : TransferId → XferState) (tid : TransferId) : Prop :=
  ∃ xfer, s.role.inflight.lookup tid = some xfer ∧ ∃ tid' ∈ (s.transport.poll check).1.failed,
    ∃ xfer', s.role.inflight.lookup tid' = some xfer' ∧ xfer'.kvRequestId = xfer.kvRequestId

theorem cancelFailed_tables (s : Serving K) (failedIds : List KvRequestId) :
    (∀ tid, tid ∈ (s.cancelFailed failedIds).role.inflight ↔
        tid ∈ s.role.inflight ∧ tid ∉ s.role.inflightOf failedIds) ∧
      (∀ tid, tid ∈ (s.cancelFailed failedIds).transport.inflight ↔
        tid ∈ s.transport.inflight ∧ tid ∉ s.role.inflightOf failedIds) ∧
      (s.cancelFailed failedIds).transport.nextId = s.transport.nextId ∧
      (s.cancelFailed failedIds).role.storeJobs = s.role.storeJobs ∧
      (s.cancelFailed failedIds).role.pendingStoreResults = s.role.pendingStoreResults := by
  unfold cancelFailed
  split
  · rename_i hnone
    simp [hnone, mem_inflightOf]
  · obtain ⟨_, hpop⟩ := popAll_eq s.role (s.role.inflightOf failedIds)
    simp only [hpop, mem_eraseAll, NixlTransport.mem_cancel_immediate]
    exact ⟨fun _ => and_comm, fun _ => and_comm, rfl, trivial, trivial⟩

section
variable (h : s.collectResults now check = .ok (results, s'))
include h

/-- The tables after `collect_results`: whatever ended is gone. -/
theorem collectResults_tables :
    (∀ tid, tid ∈ s'.role.inflight ↔ (tid ∈ s.role.inflight ∧
        tid ∉ (s.transport.poll check).1.done ∧ tid ∉ (s.transport.poll check).1.failed) ∧
          ¬ s.Cancelled check tid) ∧
      (∀ tid, tid ∈ s'.transport.inflight ↔
        (tid ∈ s.transport.inflight ∧ ¬ (check tid).Ended) ∧ ¬ s.Cancelled check tid) ∧
      s'.transport.nextId = s.transport.nextId := by
  obtain ⟨acc, failedIds, role, hdone, hfailed, rfl⟩ := collectResults_ok h
  have hinflight := inflight_onFailed (s.transport.poll check).1.failed [] acc
  have hmem := fun kv => @mem_onFailed_ids kv K (s.transport.poll check).1.failed [] acc
  rw [hfailed, inflight_onDone _ hdone] at hinflight hmem
  have hids : ∀ tid, tid ∉ (s.transport.poll check).1.done →
      tid ∉ (s.transport.poll check).1.failed →
      (tid ∈ role.inflightOf failedIds ↔ s.Cancelled check tid) := by
    intro tid hnot hnot'
    rw [mem_inflightOf, hinflight, lookup_eraseAll hnot', lookup_eraseAll hnot, Cancelled]
    refine exists_congr fun xfer => and_congr_right fun _ => ?_
    rw [hmem, or_iff_right List.not_mem_nil]
    refine exists_congr fun tid' => and_congr_right fun htid' => ?_
    rw [lookup_eraseAll]
    · rfl
    · rw [NixlTransport.mem_poll_done]
      rw [NixlTransport.mem_poll_failed] at htid'
      exact fun hmem => nomatch hmem.2.symm.trans htid'.2
  obtain ⟨hrole, htransport, hnext, -⟩ :=
    cancelFailed_tables ⟨role, (s.transport.poll check).2⟩ failedIds
  refine ⟨fun tid => ?_, fun tid => ?_, hnext⟩
  · rw [hrole, hinflight, mem_eraseAll, mem_eraseAll]
    have := hids tid
    simp only [surface, timeoutPendingStoreJobs]
    tauto
  · rw [htransport, NixlTransport.mem_poll_inflight]
    have := hids tid
    rw [NixlTransport.mem_poll_done, NixlTransport.mem_poll_failed] at this
    rw [XferState.Ended]
    tauto

/-- The jobs of a transfer that ended are closed, and those that were open have a result. -/
theorem collectResults_jobs {tid : TransferId} {xfer : InflightXfer}
    (hlookup : s.role.inflight.lookup tid = some xfer)
    (hended : tid ∈ (s.transport.poll check).1.done ∨ tid ∈ (s.transport.poll check).1.failed)
    {jobId : JobId} (hjob : jobId ∈ xfer.jobIds) :
    jobId ∉ s'.role.storeJobs ∧ (jobId ∈ s.role.storeJobs →
      jobId ∈ (results ++ s'.role.pendingStoreResults).map (·.jobId)) := by
  obtain ⟨acc, failedIds, role, hdone, hfailed, rfl⟩ := collectResults_ok h
  have hacc : Collects s.role acc :=
    onDone_rule _ hdone (surface_collects s.role now) fun hr hlookup hcount => by
      have hreport := hr.reportJobs true hlookup
      exact countDone_rule (P := fun r => Collects s.role (_, r)) hcount hreport
        (fun _ => ⟨hreport.accounted, hreport.closed⟩) fun _ hr => hr.finalizeOutbound ..
  have hcollects : Collects s.role (results, role) := by
    have := onFailed_rule (s.transport.poll check).1.failed [] hacc
      fun hr hlookup => (hr.reportJobs false hlookup).dropFailed _
    rwa [hfailed] at this
  have hgone : tid ∉ role.inflight := by
    have hinflight := inflight_onFailed (s.transport.poll check).1.failed [] acc
    rw [hfailed, inflight_onDone _ hdone] at hinflight
    rw [hinflight, mem_eraseAll, mem_eraseAll]
    tauto
  have hclosed : jobId ∉ role.storeJobs :=
    (hcollects.closed tid xfer hlookup).resolve_left (fun hkept => hgone (mem_of_lookup hkept))
      jobId hjob
  obtain ⟨-, -, -, hjobs, hpending⟩ :=
    cancelFailed_tables ⟨role, (s.transport.poll check).2⟩ failedIds
  rw [hjobs, hpending]
  exact ⟨hclosed, fun hopen => (hcollects.accounted jobId hopen).resolve_left hclosed⟩

end

/-- After `collect_results` the transport has the other transfers that are still running. -/
theorem collectResults_agrees (agrees : Agrees others s)
    (h : s.collectResults now check = .ok (results, s')) :
    Agrees (fun tid => others tid ∧ ¬ (check tid).Ended) s' := by
  obtain ⟨hrole, htransport, hnext⟩ := collectResults_tables h
  intro tid
  obtain ⟨hmem, hapart, hfresh⟩ := agrees tid
  have hended := agrees.ended_iff check tid
  have hown : s.Cancelled check tid → tid ∈ s.role.inflight :=
    fun ⟨_, hlookup, _⟩ => mem_of_lookup hlookup
  rw [hrole, htransport, hnext]
  grind

end Serving

namespace Session

variable {K : Type} [DecidableEq K] {others : TransferId → Prop}

/-- The server role and the transport when the messages of a poll are dealt with. -/
def received (session : Session K) (t : NixlTransport) (input : PollInput K) : Serving K :=
  ⟨(input.deliveries.foldl onMessage (session, t)).1.server,
    (input.deliveries.foldl onMessage (session, t)).2⟩

end Session

namespace P2PTier

variable {K : Type} {t t' : P2PTier K} {peerId : PeerId} {session : Session K}

def Holds (t : P2PTier K) (peerId : PeerId) (tid : TransferId) : Prop :=
  ∃ session, t.sessions.lookup peerId = some session ∧ tid ∈ session.server.inflight

def HeldByOthers (t : P2PTier K) (peerId : PeerId) (tid : TransferId) : Prop :=
  ∃ q, q ≠ peerId ∧ t.Holds q tid

/-- Each transfer of the transport is held by one session, and no session holds another one. -/
structure Consistent (t : P2PTier K) : Prop where
  mem_iff : ∀ tid, tid ∈ t.data.inflight ↔ ∃ peerId, t.Holds peerId tid
  unique : ∀ p q tid, t.Holds p tid → t.Holds q tid → p = q
  fresh : ∀ tid, tid ∈ t.data.inflight → tid < t.data.nextId

section
variable (h : Consistent t)
include h

theorem Consistent.agrees (hlookup : t.sessions.lookup peerId = some session) :
    Serving.Agrees (t.HeldByOthers peerId) ⟨session.server, t.data⟩ := by
  refine fun tid => ⟨?_, fun hmem => ?_, h.fresh tid⟩
  · rw [h.mem_iff]
    constructor
    · rintro ⟨q, hq⟩
      by_cases heq : q = peerId
      · subst heq
        obtain ⟨session', hlookup', hmem⟩ := hq
        rw [hlookup] at hlookup'
        cases hlookup'
        exact .inl hmem
      · exact .inr ⟨q, heq, hq⟩
    · rintro (hmem | ⟨q, -, hq⟩)
      · exact ⟨peerId, session, hlookup, hmem⟩
      · exact ⟨q, hq⟩
  · rintro ⟨q, hne, hq⟩
    exact hne (h.unique q peerId tid hq ⟨session, hlookup, hmem⟩)

theorem Consistent.update (hself : t'.sessions.lookup peerId = some session)
    (hothers : ∀ q, q ≠ peerId → t'.sessions.lookup q = t.sessions.lookup q)
    (agrees : Serving.Agrees (t.HeldByOthers peerId) ⟨session.server, t'.data⟩) :
    Consistent t' := by
  have holds_self : ∀ tid, t'.Holds peerId tid → tid ∈ session.server.inflight := by
    rintro tid ⟨session', hlookup, hmem⟩
    rw [hself] at hlookup
    cases hlookup
    exact hmem
  have holds_other : ∀ {q}, q ≠ peerId → ∀ tid, t'.Holds q tid ↔ t.Holds q tid := by
    intro q hne tid
    rw [Holds, Holds, hothers q hne]
  refine ⟨fun tid => ?_, fun p q tid hp hq => ?_, fun tid => (agrees tid).2.2⟩
  · rw [(agrees tid).1]
    constructor
    · rintro (hmem | ⟨q, hne, hq⟩)
      · exact ⟨peerId, session, hself, hmem⟩
      · exact ⟨q, (holds_other hne tid).mpr hq⟩
    · rintro ⟨q, hq⟩
      by_cases heq : q = peerId
      · subst heq
        exact .inl (holds_self tid hq)
      · exact .inr ⟨q, heq, (holds_other heq tid).mp hq⟩
  · by_cases hp' : p = peerId
    · by_cases hq' : q = peerId
      · rw [hp', hq']
      · subst hp'
        exact absurd ⟨q, hq', (holds_other hq' tid).mp hq⟩ ((agrees tid).2.1 (holds_self tid hp))
    · by_cases hq' : q = peerId
      · subst hq'
        exact absurd ⟨p, hp', (holds_other hp' tid).mp hp⟩ ((agrees tid).2.1 (holds_self tid hq))
      · exact h.unique p q tid ((holds_other hp' tid).mp hp) ((holds_other hq' tid).mp hq)

theorem Consistent.setItem (hsessions : t'.sessions = t.sessions.setItem peerId session)
    (agrees : Serving.Agrees (t.HeldByOthers peerId) ⟨session.server, t'.data⟩) :
    Consistent t' := by
  refine h.update ?_ (fun q hne => ?_) agrees
  · rw [hsessions, lookup_setItem_self]
  · rw [hsessions, lookup_setItem_ne hne]

end

variable {others : TransferId → Prop}

variable [DecidableEq K]

section
variable (h : Consistent t) {input : PollInput K} (hlookup : t.sessions.lookup peerId = some session)
  (hpoll : t.pollSession peerId input = .ok t')
include h hlookup hpoll

end

/-! ### Runs -/

def quiet (deliveries : List (Received Nat)) : PollInput Nat where
  deliveries := deliveries.map fun received => ⟨received, 0, fun _ => false⟩
  check := fun _ => .proc
  raises := fun _ => false

def allDone : PollInput Nat where
  check := fun _ => .done
  raises := fun _ => false

end P2PTier
end Vllm.Offload.P2P
