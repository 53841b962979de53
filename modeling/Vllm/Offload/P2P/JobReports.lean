import Vllm.Offload.P2P.SessionJobs

/-! Where the jobs of a P2P tier are: parked, in a session, or among the results that
`get_finished_jobs` returns next. -/
namespace Vllm.Offload.P2P
open Multiset Function Dict P2PTier AList

variable {jobId : JobId} {home' : JobId → Option KvRequestId}

namespace P2PTier

section
variable {K : Type} {session : Session K} {peerId : PeerId} {t : P2PTier K}

def finishedIds (t : P2PTier K) : Multiset JobId := (t.finishedJobs.map (·.jobId) : List JobId)

def batchJobs (batches : List (UnboundStoreBatch K)) : Multiset JobId :=
  (batches.map (·.jobId) : List JobId)

def parked (t : P2PTier K) : Multiset JobId :=
  total t.unboundStores fun _ batches => batchJobs batches

def jobs (t : P2PTier K) : Multiset JobId :=
  t.finishedIds + t.parked + total t.sessions fun _ session => session.jobs

theorem mem_jobs_of_session (hlookup : t.sessions.lookup peerId = some session)
    (h : jobId ∈ session.server.storeJobs) :
    jobId ∈ t.jobs := by
  rw [jobs, total_of_lookup hlookup]
  refine mem_add.mpr (.inr (mem_add.mpr (.inl ?_)))
  refine mem_add.mpr (.inr (mem_add.mpr (.inl ?_)))
  exact mem_coe.mpr (mem_keys.mp h)

theorem jobs_setSession (hlookup : t.sessions.lookup peerId = some session) (session' : Session K)
    (data : NixlTransport) :
    session.jobs + ({ t with sessions := t.sessions.setItem peerId session', data } :
      P2PTier K).jobs = session'.jobs + t.jobs := by
  simp only [jobs, finishedIds, parked, total_setItem, total_of_lookup hlookup]
  abel

theorem jobs_addSession {session' : Session K} (hlookup : t.sessions.lookup peerId = some session)
    (data : NixlTransport) {new : Multiset JobId} (hnew : session'.jobs = new + session.jobs) :
    ({ t with sessions := t.sessions.setItem peerId session', data } : P2PTier K).jobs =
      new + t.jobs := by
  have hset := jobs_setSession hlookup session' data
  rw [hnew, add_assoc, add_left_comm] at hset
  exact add_left_cancel hset

theorem parked_split (t : P2PTier K) (kv : KvRequestId) :
    t.parked = batchJobs ((t.unboundStores.lookup kv).getD []) +
      total (t.unboundStores.erase kv) fun _ batches => batchJobs batches := by
  cases hlookup : t.unboundStores.lookup kv with
  | none =>
    rw [erase_of_notMem (lookup_eq_none.mp hlookup)]
    exact (zero_add _).symm
  | some batches => rw [parked, total_of_lookup hlookup, Option.getD_some]

theorem jobs_finishJob (t : P2PTier K) (jobId : JobId) (success : Bool) :
    (t.finishJob jobId success).jobs = {jobId} + t.jobs := by
  simp only [jobs, finishedIds, finishJob, parked, List.map_append, List.map_singleton,
    ← coe_add, coe_singleton]
  abel

theorem jobs_addResults (t : P2PTier K) (loads : List LoadResult) (stores : List StoreResult) :
    (t.addResults loads stores).jobs =
      ClientRole.loadJobs loads + ServerRole.resultJobs stores + t.jobs := by
  simp only [jobs, finishedIds, addResults, parked, List.map_append, List.map_map, comp_def,
    ← coe_add, ClientRole.loadJobs, ServerRole.resultJobs]
  abel

end

variable {K : Type} [DecidableEq K] {home : JobId → Option KvRequestId} {t t' : P2PTier K}
  {peerId : PeerId} {kv : KvRequestId}

/-- The tables of a tier, with the request that each store job was submitted for. -/
structure JobsKept (home : JobId → Option KvRequestId) (t : P2PTier K) : Prop where
  sessions : ∀ {peerId session}, t.sessions.lookup peerId = some session →
    ServingJobs home ⟨session.server, t.data⟩ ∧ session.client.completedLoads = []
  bound : ∀ kv peerId, t.kvToSession.lookup kv = some peerId → peerId ∈ t.sessions
  parked : ∀ kv batches, t.unboundStores.lookup kv = some batches → ∀ batch ∈ batches,
    home batch.jobId = some kv

/-- The tables are kept, and the jobs are the same. -/
def Recounts (home : JobId → Option KvRequestId) (t t' : P2PTier K) : Prop :=
  JobsKept home t' ∧ t'.jobs = t.jobs

namespace JobsKept

theorem start : JobsKept home ({} : P2PTier K) :=
  ⟨nofun, nofun, nofun⟩

section
variable (h : JobsKept home t)
include h

theorem congr (hsessions : t'.sessions = t.sessions) (hdata : t'.data = t.data)
    (hbound : t'.kvToSession = t.kvToSession) (hparked : t'.unboundStores = t.unboundStores) :
    JobsKept home t' := by
  refine ⟨?_, ?_, ?_⟩
  · rw [hsessions, hdata]
    exact h.sessions
  · rw [hsessions, hbound]
    exact h.bound
  · rw [hparked]
    exact h.parked

theorem mono (hhome : ∀ jobId kv, home jobId = some kv → home' jobId = some kv) :
    JobsKept home' t where
  __ := h
  sessions hlookup := (h.sessions hlookup).imp_left fun h => ⟨h.role.mono hhome, h.fresh⟩
  parked kv batches hlookup batch hbatch := hhome _ _ (h.parked kv batches hlookup batch hbatch)

theorem home_of_mem (kv : KvRequestId) :
    ∀ batch ∈ (t.unboundStores.lookup kv).getD [], home batch.jobId = some kv := by
  cases hlookup : t.unboundStores.lookup kv with
  | none => exact nofun
  | some batches => exact h.parked kv batches hlookup

theorem setSession (peerId : PeerId) (session' : Session K) {data : NixlTransport}
    (hserving : ServingJobs home ⟨session'.server, data⟩) (hnext : t.data.nextId ≤ data.nextId)
    (hcollected : session'.client.completedLoads = []) :
    JobsKept home { t with sessions := t.sessions.setItem peerId session', data } where
  sessions hlookup := by
    rcases lookup_setItem_iff.mp hlookup with ⟨-, rfl⟩ | ⟨-, hlookup⟩
    · exact ⟨hserving, hcollected⟩
    · exact (h.sessions hlookup).imp_left fun hold =>
        ⟨hold.role, fun tid hmem => (hold.fresh tid hmem).trans_le hnext⟩
  bound kv peerId' hlookup := mem_setItem.mpr (.inr (h.bound kv peerId' hlookup))
  parked := h.parked

theorem openSession (peerId : PeerId) :
    Recounts home t (t.openSession peerId) := by
  unfold P2PTier.openSession
  split
  · exact ⟨h, rfl⟩
  rename_i hnew
  refine ⟨h.setSession peerId _ ⟨.start peerId, fun tid hmem => ?_⟩ (le_refl _) rfl, ?_⟩
  · exact absurd hmem (notMem_empty tid)
  · have hzero : ({ server := { peerId } } : Session K).jobs = 0 := rfl
    simp only [jobs, finishedIds, P2PTier.parked, total_setItem, erase_of_notMem hnew, hzero, zero_add]

theorem onNewRequest (ctx : ReqContext) : Recounts home t (t.onNewRequest ctx) := by
  unfold P2PTier.onNewRequest
  split
  · exact ⟨h, rfl⟩
  · exact h.openSession _

theorem finishSession (peerId : PeerId) (kv : KvRequestId)
    (hload : ∀ session, t.sessions.lookup peerId = some session → kv ∉ session.client.inbound) :
    Recounts home t (t.finishSession peerId kv) := by
  unfold P2PTier.finishSession
  cases hlookup : t.sessions.lookup peerId with
  | none => exact ⟨h, rfl⟩
  | some session =>
    obtain ⟨hserving, hcollected⟩ := h.sessions hlookup
    obtain ⟨hrole, hsame⟩ := hserving.role.finish kv
    simp only [ClientRole.cancel_of_notMem (hload session hlookup)]
    refine ⟨h.setSession peerId _ ⟨hrole, fun tid hmem => ?_⟩ (le_refl _) hcollected, ?_⟩
    · simp only [ServerRole.inflight_finish] at hmem
      exact hserving.fresh tid hmem
    · refine (jobs_addSession hlookup t.data ?_).trans (zero_add _)
      exact (congrArg (session.client.jobs + ·) hsame).trans (zero_add _).symm

theorem onRequestFinished (ctx : ReqContext)
    (hload : ∀ kv, ((ctx.prefill.filter (·.truthy)).or ctx.decode).bind (·.kvRequestId) = some kv →
      ∀ peerId session, t.sessions.lookup peerId = some session → kv ∉ session.client.inbound) :
    Recounts home t (t.onRequestFinished ctx) := by
  unfold P2PTier.onRequestFinished
  simp only
  split
  · exact ⟨h, rfl⟩
  rename_i kv hkv
  split
  · split
    · exact ⟨h.congr rfl rfl rfl rfl, rfl⟩
    rename_i peerId _
    have hkept : JobsKept home
        { t with failedReqIds := t.failedReqIds.filter (· ≠ kv) } := h.congr rfl rfl rfl rfl
    exact hkept.finishSession peerId kv (hload kv hkv peerId)
  · split
    · exact ⟨h.congr rfl rfl rfl rfl, rfl⟩
    rename_i peerId _
    have hkept : JobsKept home { t with
        failedReqIds := t.failedReqIds.filter (· ≠ kv)
        kvToSession := t.kvToSession.erase kv } :=
      ⟨h.sessions, fun kv' peerId' hlookup =>
        h.bound kv' peerId' (lookup_erase_iff.mp hlookup).2, h.parked⟩
    exact hkept.finishSession peerId kv (hload kv hkv peerId)

theorem addStoredBlocks (hmem : peerId ∈ t.sessions) (blocks : List (K × Nat)) (now : Time)
    (hhome : home jobId = some kv) (hnew : jobId ∉ t.jobs) :
    let t' := t.addStoredBlocks peerId kv blocks jobId now
    JobsKept home t' ∧ t'.jobs = {jobId} + t.jobs ∧ ∀ p, p ∈ t.sessions → p ∈ t'.sessions := by
  obtain ⟨session, hlookup⟩ := exists_lookup hmem
  unfold P2PTier.addStoredBlocks
  simp only [hlookup]
  obtain ⟨hserving, hnext, hjobs⟩ := (h.sessions hlookup).1.addStoredBlocks blocks now
    hhome fun hopen => hnew (mem_jobs_of_session hlookup hopen)
  generalize Serving.addStoredBlocks ⟨session.server, t.data⟩ kv blocks jobId now = s at *
  refine ⟨h.setSession peerId { session with server := s.role } hserving hnext
    (h.sessions hlookup).2, ?_, fun p hp => mem_setItem.mpr (.inr hp)⟩
  refine jobs_addSession hlookup s.transport ?_
  simp only [Session.jobs, hjobs]
  abel

theorem addStoredBatches (kv : KvRequestId) (now : Time) (batches : List (UnboundStoreBatch K))
    (hmem : peerId ∈ t.sessions) (hhome : ∀ batch ∈ batches, home batch.jobId = some kv)
    (hnodup : (batchJobs batches + t.jobs).Nodup) :
    let t' := batches.foldl
      (fun t batch => t.addStoredBlocks peerId kv batch.blocks batch.jobId now) t
    JobsKept home t' ∧ t'.jobs = batchJobs batches + t.jobs ∧
      ∀ p, p ∈ t.sessions → p ∈ t'.sessions := by
  induction batches generalizing t with
  | nil => exact ⟨h, (zero_add _).symm, fun _ hp => hp⟩
  | cons batch batches ih =>
    have hcons : batchJobs (batch :: batches) = {batch.jobId} + batchJobs batches := rfl
    rw [hcons] at hnodup ⊢
    have hnew : batch.jobId ∉ t.jobs := by
      intro hjob
      rw [add_assoc] at hnodup
      exact (nodup_cons.mp hnodup).1 (mem_add.mpr (.inr hjob))
    obtain ⟨hkept, hjobs, hsub⟩ := h.addStoredBlocks hmem batch.blocks now
      (hhome batch List.mem_cons_self) hnew
    obtain ⟨hkept', hjobs', hsub'⟩ := ih hkept (hsub peerId hmem)
      (fun b hb => hhome b (List.mem_cons_of_mem _ hb)) (by
        rw [hjobs, ← add_assoc, add_comm (batchJobs batches)]
        exact hnodup)
    refine ⟨hkept', ?_, fun p hp => hsub' p (hsub p hp)⟩
    rw [List.foldl_cons, hjobs', hjobs]
    abel

theorem bindFetch (hmem : peerId ∈ t.sessions) (now : Time)
    (kv : KvRequestId) (hnodup : t.jobs.Nodup) :
    let t' := bindFetch peerId now t kv
    JobsKept home t' ∧ t'.jobs = t.jobs ∧ ∀ p, p ∈ t.sessions → p ∈ t'.sessions := by
  have hkept : JobsKept home { t with
      kvToSession := t.kvToSession.setItem kv peerId
      unboundStores := t.unboundStores.erase kv } := by
    refine ⟨h.sessions, fun kv' peerId' hlookup => ?_, fun kv' batches hlookup => ?_⟩
    · rcases lookup_setItem_iff.mp hlookup with ⟨-, rfl⟩ | ⟨-, hlookup⟩
      · exact hmem
      · exact h.bound kv' peerId' hlookup
    · exact h.parked kv' batches (lookup_erase_iff.mp hlookup).2
  have hjobs : batchJobs ((t.unboundStores.lookup kv).getD []) + ({ t with
      kvToSession := t.kvToSession.setItem kv peerId
      unboundStores := t.unboundStores.erase kv } : P2PTier K).jobs = t.jobs := by
    rw [jobs, jobs, parked_split t kv]
    simp only [finishedIds, P2PTier.parked]
    abel
  obtain ⟨hkept', hjobs', hsub⟩ := hkept.addStoredBatches kv now _ hmem (h.home_of_mem kv)
    (by rw [hjobs]; exact hnodup)
  exact ⟨hkept', hjobs'.trans hjobs, hsub⟩

theorem bindFetches (peerId : PeerId) (now : Time) (kvs : List KvRequestId)
    (hmem : peerId ∈ t.sessions) (hnodup : t.jobs.Nodup) :
    Recounts home t (kvs.foldl (P2PTier.bindFetch peerId now) t) := by
  induction kvs generalizing t with
  | nil => exact ⟨h, rfl⟩
  | cons kv kvs ih =>
    obtain ⟨hkept, hjobs, hsub⟩ := h.bindFetch hmem now kv hnodup
    obtain ⟨hkept', hjobs'⟩ := ih hkept (hsub peerId hmem) (by rw [hjobs]; exact hnodup)
    exact ⟨hkept', hjobs'.trans hjobs⟩

theorem pollSession (peerId : PeerId) (input : PollInput K) (hnodup : t.jobs.Nodup)
    (hsafe : ∀ session, t.sessions.lookup peerId = some session → session.PollSafe input) :
    ∃ t', t.pollSession peerId input = .ok t' ∧ Recounts home t t' := by
  unfold P2PTier.pollSession
  cases hlookup : t.sessions.lookup peerId with
  | none => exact ⟨t, rfl, h, rfl⟩
  | some session =>
    obtain ⟨result, session', data, hpoll, hserving, hnext, hjobs, hcollected⟩ :=
      Session.poll_accounts (h.sessions hlookup).1 (hsafe session hlookup)
    simp only [hpoll]
    have hset := jobs_setSession hlookup session' data
    have hkept := (h.setSession peerId session' hserving hnext hcollected)
    have hresults : JobsKept home (({ t with
        sessions := t.sessions.setItem peerId session', data } : P2PTier K).addResults
        result.loads result.stores) := hkept.congr rfl rfl rfl rfl
    have hsum := jobs_addResults ({ t with
      sessions := t.sessions.setItem peerId session', data } : P2PTier K) result.loads result.stores
    rw [← hjobs, add_comm _ session'.jobs, add_assoc] at hset
    have hsame := hsum.trans (add_left_cancel hset)
    obtain ⟨hkept', hjobs'⟩ := hresults.bindFetches peerId input.bindNow result.newFetchIds
      (mem_setItem.mpr (.inl rfl)) (by rw [hsame]; exact hnodup)
    exact ⟨_, rfl, hkept', hjobs'.trans hsame⟩

/-- A session that died has nothing left to report but what `close` fails. -/
theorem reapSession (peerId : PeerId)
    (hsurfaced : ∀ session, t.sessions.lookup peerId = some session → session.alive = false →
      session.server.pendingStoreResults = []) :
    Recounts home t (t.reapSession peerId) := by
  unfold P2PTier.reapSession
  cases hlookup : t.sessions.lookup peerId with
  | none => exact ⟨h, rfl⟩
  | some session =>
    simp only
    split
    · exact ⟨h, rfl⟩
    rename_i hdead
    refine ⟨⟨fun hs => ?_, fun kv p hp => ?_, h.parked⟩, ?_⟩
    · exact (h.sessions (lookup_erase_iff.mp hs).2).imp_left fun hold => ⟨hold.role, hold.fresh⟩
    · have hold := lookup_of_lookup_eraseAll hp
      refine mem_erase.mpr ⟨?_, h.bound kv p hold⟩
      rintro rfl
      refine (mem_eraseAll.mp (mem_of_lookup hp)).1 (List.mem_filter.mpr ⟨?_, ?_⟩)
      · exact mem_keys.mp (mem_of_lookup hold)
      · exact decide_eq_true hold
    · have hclient := session.client.close_jobs (h.sessions hlookup).2
      have hserver : session.server.jobs = (session.server.storeJobs.keys : Multiset JobId) := by
        rw [ServerRole.jobs, hsurfaced session hlookup (Bool.eq_false_iff.mpr hdead)]
        exact add_zero _
      simp only [jobs, finishedIds, P2PTier.parked, total_of_lookup hlookup, Session.jobs,
        hserver, ← hclient, Session.close, Serving.close, List.map_append, List.map_map, comp_def,
        List.map_id', ← coe_add]
      abel

variable (job : JobMetadata K) (now : Time)

theorem reapUnbound (kv : KvRequestId) : Recounts home t (reapUnbound now t kv) := by
  unfold P2PTier.reapUnbound
  cases hlookup : t.unboundStores.lookup kv with
  | none => exact ⟨h, rfl⟩
  | some batches =>
    simp only
    split
    · refine ⟨⟨h.sessions, h.bound, fun kv' batches' hlookup' => ?_⟩, ?_⟩
      · exact h.parked kv' batches' (lookup_erase_iff.mp hlookup').2
      · simp only [jobs, finishedIds, P2PTier.parked, total_of_lookup hlookup, batchJobs,
          List.map_append, List.map_map, comp_def, ← coe_add]
        abel
    · exact ⟨h, rfl⟩

theorem park (batch : UnboundStoreBatch K) (hhome : home batch.jobId = some kv) :
    let t' : P2PTier K := { t with
      unboundStores := t.unboundStores.setItem kv
        ((t.unboundStores.lookup kv).getD [] ++ [batch]) }
    JobsKept home t' ∧ t'.jobs = {batch.jobId} + t.jobs := by
  refine ⟨⟨h.sessions, h.bound, fun kv' batches hlookup b hb => ?_⟩, ?_⟩
  · rcases lookup_setItem_iff.mp hlookup with ⟨rfl, rfl⟩ | ⟨-, hlookup⟩
    · rcases List.mem_append.mp hb with hb | hb
      · exact h.home_of_mem kv' b hb
      · rw [List.mem_singleton.mp hb]
        exact hhome
    · exact h.parked kv' batches hlookup b hb
  · have happend (batches : List (UnboundStoreBatch K)) :
        batchJobs (batches ++ [batch]) = {batch.jobId} + batchJobs batches := by
      rw [batchJobs, List.map_append, add_comm]
      rfl
    rw [jobs, jobs, parked_split t kv]
    simp only [finishedIds, P2PTier.parked, total_setItem, happend]
    abel

theorem submitStore (hnew : job.jobId ∉ t.jobs) (hfree : home job.jobId = none) :
    ∃ home' : JobId → Option KvRequestId, JobsKept home' (t.submitStore job now) ∧
      (t.submitStore job now).jobs = {job.jobId} + t.jobs ∧
      ∀ jobId, (home' jobId).isSome → jobId = job.jobId ∨ (home jobId).isSome := by
  unfold P2PTier.submitStore
  split
  · exact ⟨home, h.congr rfl rfl rfl rfl, jobs_finishJob t _ _, fun _ => .inr⟩
  split
  · exact ⟨home, h.congr rfl rfl rfl rfl, jobs_finishJob t _ _, fun _ => .inr⟩
  rename_i kv _
  have hmono : ∀ jobId kv', home jobId = some kv' →
      update home job.jobId (some kv) jobId = some kv' := by
    intro jobId kv' hjob
    rw [update_of_ne, hjob]
    rintro rfl
    rw [hfree] at hjob
    cases hjob
  have hhome : update home job.jobId (some kv) job.jobId = some kv := update_self ..
  refine ⟨update home job.jobId (some kv), ?_⟩
  have hsome : ∀ jobId, (update home job.jobId (some kv) jobId).isSome →
      jobId = job.jobId ∨ (home jobId).isSome := by
    intro jobId hjob
    by_cases heq : jobId = job.jobId
    · exact .inl heq
    · rw [update_of_ne heq] at hjob
      exact .inr hjob
  split
  · rename_i peerId hbound
    obtain ⟨hkept, hjobs, -⟩ := (h.mono hmono).addStoredBlocks (h.bound kv peerId hbound)
      job.blocks now hhome hnew
    exact ⟨hkept, hjobs, hsome⟩
  · obtain ⟨hkept, hjobs⟩ := (h.mono hmono).park ⟨job.jobId, job.blocks, now⟩ hhome
    exact ⟨hkept, hjobs, hsome⟩

theorem submitLoad (hload : ∀ peerId kv, job.reqContext.prefill.bind (·.remote) = some peerId →
      job.reqContext.prefill.bind (·.kvRequestId) = some kv →
      ∀ session, t.sessions.lookup peerId = some session → kv ∉ session.client.inbound) :
    JobsKept home (t.submitLoad job now) ∧ (t.submitLoad job now).jobs = {job.jobId} + t.jobs := by
  unfold P2PTier.submitLoad
  split
  · rename_i peerId kv hremote hkv
    split
    · exact ⟨h.congr rfl rfl rfl rfl, jobs_finishJob t _ _⟩
    split
    · exact ⟨h.congr rfl rfl rfl rfl, jobs_finishJob t job.jobId false⟩
    rename_i session hlookup
    obtain ⟨hserving, hcollected⟩ := h.sessions hlookup
    refine ⟨h.setSession peerId _ hserving (le_refl _) hcollected, ?_⟩
    refine jobs_addSession hlookup t.data ?_
    rw [Session.jobs, ClientRole.requestBlocks_jobs (hload peerId kv hremote hkv session hlookup),
      Session.jobs, add_assoc]
  · exact ⟨h.congr rfl rfl rfl rfl, jobs_finishJob t _ _⟩

end

end JobsKept
end P2PTier
/-! ### Runs -/

namespace P2PTier.Op

variable {K : Type}

def submits : Op K → List JobId
  | .submitStore job _ => [job.jobId]
  | .submitLoad job _ => [job.jobId]
  | _ => []

def returns (t : P2PTier K) : Op K → List JobId
  | .takeFinished => t.takeFinished.1.map (·.jobId)
  | _ => []

end P2PTier.Op

section
variable {K : Type} [DecidableEq K]

/-- A step that loses no job and reports none again: a request has no load under way when it loads
again or finishes, a session that is removed has no result waiting, and polls are safe. -/
def P2PTier.StepSafe (t : P2PTier K) : Op K → Prop
  | .submitLoad job _ => ∀ peerId kv, job.reqContext.prefill.bind (·.remote) = some peerId →
      job.reqContext.prefill.bind (·.kvRequestId) = some kv →
      ∀ session, t.sessions.lookup peerId = some session → kv ∉ session.client.inbound
  | .requestFinished ctx => ∀ kv,
      ((ctx.prefill.filter (·.truthy)).or ctx.decode).bind (·.kvRequestId) = some kv →
      ∀ peerId session, t.sessions.lookup peerId = some session → kv ∉ session.client.inbound
  | .pollSession peerId input =>
    ∀ session, t.sessions.lookup peerId = some session → session.PollSafe input
  | .reapSession peerId =>
    ∀ session, t.sessions.lookup peerId = some session → session.alive = false →
      session.server.pendingStoreResults = []
  | _ => True

/-- A tier with the jobs that were submitted and those that `get_finished_jobs` returned. -/
structure JobRun (K : Type) where
  tier : P2PTier K := {}
  submitted : List JobId := []
  returned : List JobId := []

namespace JobRun

variable {g g' : JobRun K} {tier : P2PTier K}

def step (g : JobRun K) (op : Op K) : Except ServerError (JobRun K) :=
  match g.tier.step op with
  | .error e => .error e
  | .ok tier => .ok ⟨tier, g.submitted ++ op.submits, g.returned ++ op.returns g.tier⟩

def Safe (g : JobRun K) (op : Op K) : Prop :=
  (∀ jobId ∈ op.submits, jobId ∉ g.submitted) ∧ g.tier.StepSafe op

/-- Each job that was submitted is in one place or was returned once, and no other job is. -/
def Accounted (g : JobRun K) : Prop :=
  ∀ jobId, g.returned.count jobId + g.tier.jobs.count jobId =
    if jobId ∈ g.submitted then 1 else 0

structure Inv (g : JobRun K) : Prop where
  kept : ∃ home : JobId → Option KvRequestId, g.tier.JobsKept home ∧
    ∀ jobId, (home jobId).isSome → jobId ∈ g.submitted
  jobs : (g.returned : Multiset JobId) + g.tier.jobs = g.submitted
  nodup : g.submitted.Nodup

section
variable (inv : Inv g)
include inv

theorem Inv.accounted : g.Accounted := by
  intro jobId
  have hcount := congrArg (count jobId) inv.jobs
  rw [count_add, coe_count, coe_count] at hcount
  rw [hcount]
  split
  · rename_i hmem
    exact List.count_eq_one_of_mem inv.nodup hmem
  · rename_i hmem
    exact List.count_eq_zero_of_not_mem hmem

theorem Inv.tier_nodup : g.tier.jobs.Nodup := by
  have hle : g.tier.jobs ≤ (g.submitted : Multiset JobId) := by
    rw [← inv.jobs]
    exact le_add_left _ _
  exact nodup_of_le hle (coe_nodup.mpr inv.nodup)

theorem Inv.notMem (h : jobId ∉ g.submitted) : jobId ∉ g.tier.jobs := by
  intro hmem
  have hsub : jobId ∈ (g.submitted : Multiset JobId) := by
    rw [← inv.jobs]
    exact mem_add.mpr (.inr hmem)
  exact h (mem_coe.mp hsub)

theorem Inv.same (hhome : ∀ j, (home' j).isSome → j ∈ g.submitted)
    (h : Recounts home' g.tier tier) : Inv ⟨tier, g.submitted ++ [], g.returned ++ []⟩ := by
  rw [List.append_nil, List.append_nil]
  exact ⟨⟨home', h.1, hhome⟩, by rw [h.2]; exact inv.jobs, inv.nodup⟩

theorem Inv.submit (hnew : jobId ∉ g.submitted) (hkept : tier.JobsKept home')
    (hhome : ∀ j, (home' j).isSome → j = jobId ∨ j ∈ g.submitted)
    (hjobs : tier.jobs = {jobId} + g.tier.jobs) :
    Inv ⟨tier, g.submitted ++ [jobId], g.returned ++ []⟩ where
  kept := ⟨home', hkept, fun j hj => (hhome j hj).elim
    (fun heq => List.mem_append_right _ (List.mem_singleton.mpr heq)) (List.mem_append_left _)⟩
  jobs := by
    rw [List.append_nil, hjobs, add_left_comm, inv.jobs, ← coe_add, add_comm, coe_singleton]
  nodup := by
    rw [← List.concat_eq_append]
    exact inv.nodup.concat hnew

/-- A safe step succeeds and keeps account of the jobs. -/
theorem step_inv (op : Op K) (hsafe : g.Safe op) :
    ∃ g', g.step op = .ok g' ∧ Inv g' := by
  obtain ⟨hnew, hsafe⟩ := hsafe
  obtain ⟨home, hkept, hhome⟩ := inv.kept
  cases op with
  | newRequest ctx => exact ⟨_, rfl, inv.same hhome (hkept.onNewRequest ctx)⟩
  | accept peerId => exact ⟨_, rfl, inv.same hhome (hkept.openSession peerId)⟩
  | submitStore job now =>
    have hjob := hnew job.jobId (List.mem_singleton.mpr rfl)
    have hfree : home job.jobId = none := Option.not_isSome_iff_eq_none.mp fun h => hjob (hhome _ h)
    obtain ⟨home', hkept', hjobs, hsome⟩ := hkept.submitStore job now (inv.notMem hjob) hfree
    exact ⟨_, rfl, inv.submit hjob hkept' (fun j hj => (hsome j hj).imp_right (hhome j)) hjobs⟩
  | submitLoad job now =>
    have hjob := hnew job.jobId (List.mem_singleton.mpr rfl)
    obtain ⟨hkept', hjobs⟩ := hkept.submitLoad job now hsafe
    exact ⟨_, rfl, inv.submit hjob hkept' (fun j hj => .inr (hhome j hj)) hjobs⟩
  | requestFinished ctx => exact ⟨_, rfl, inv.same hhome (hkept.onRequestFinished ctx hsafe)⟩
  | pollSession peerId input =>
    obtain ⟨tier, hpoll, hsame⟩ := hkept.pollSession peerId input inv.tier_nodup hsafe
    refine ⟨_, ?_, inv.same hhome hsame⟩
    simp only [step, P2PTier.step, hpoll]
    rfl
  | reapSession peerId => exact ⟨_, rfl, inv.same hhome (hkept.reapSession peerId hsafe)⟩
  | reapUnbound now kv => exact ⟨_, rfl, inv.same hhome (hkept.reapUnbound now kv)⟩
  | takeFinished =>
    refine ⟨_, rfl, ⟨home, hkept.congr rfl rfl rfl rfl, fun j hj => ?_⟩, ?_, ?_⟩
    · exact List.mem_append_left _ (hhome j hj)
    · have hreturned : (g.tier.takeFinished.1.map (·.jobId) : Multiset JobId) +
          g.tier.takeFinished.2.jobs = g.tier.jobs := by
        simp only [takeFinished, jobs, finishedIds, parked, List.map_nil, coe_nil]
        abel
      simp only [Op.submits, Op.returns, List.append_nil, ← coe_add, add_assoc]
      rw [← inv.jobs, ← hreturned]
    · simp only [Op.submits, List.append_nil]
      exact inv.nodup

end

theorem start_inv : Inv ({} : JobRun K) :=
  ⟨⟨fun _ => none, .start, nofun⟩, rfl, List.nodup_nil⟩

theorem reaches_inv (h : Run.Reaches step Safe ({} : JobRun K) g) : Inv g := by
  refine h.invariant start_inv fun s op s' inv hsafe hstep => ?_
  obtain ⟨g', hg', inv'⟩ := step_inv inv op hsafe
  rw [hg', Except.ok.injEq] at hstep
  exact hstep ▸ inv'

end JobRun
end
end Vllm.Offload.P2P
