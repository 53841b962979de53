import Vllm.Offload.P2P.StoreJobs

/-! The jobs of a session: what its two roles still have to report, through the messages of a poll
and the poll itself. -/
namespace Vllm.Offload.P2P
open List ServerRole Dict

/-! ### The client role -/

namespace ClientRole

variable {K : Type} {c : ClientRole K} {kv : KvRequestId}

def loadJobs (loads : List LoadResult) : Multiset JobId := (loads.map (·.jobId) : List JobId)

def jobs (c : ClientRole K) : Multiset JobId :=
  total c.inbound (fun _ req => {req.jobId}) + loadJobs c.completedLoads

theorem requestBlocks_jobs (hnew : kv ∉ c.inbound) (jobId : JobId) (blocks : List (K × Nat))
    (now : Time) : (c.requestBlocks jobId kv blocks now).jobs = {jobId} + c.jobs := by
  simp only [jobs, requestBlocks, total_setItem, erase_of_notMem hnew, add_assoc]

theorem cancel_of_notMem (h : kv ∉ c.inbound) : c.cancel kv = c := by
  have hlookup : c.inbound.lookup kv = none := AList.lookup_eq_none.mpr h
  rw [cancel, hlookup]

theorem complete_jobs (c : ClientRole K) (kv : KvRequestId) (success : Bool) :
    (c.complete kv success).jobs = c.jobs := by
  unfold complete
  cases hlookup : c.inbound.lookup kv with
  | none => rfl
  | some req =>
    simp only [jobs, loadJobs, total_of_lookup hlookup, map_append, map_singleton,
      ← Multiset.coe_add, Multiset.coe_singleton]
    abel

theorem expire_jobs (now : Time) (c : ClientRole K) (kv : KvRequestId) :
    (expire now c kv).jobs = c.jobs := by
  unfold expire
  cases hlookup : c.inbound.lookup kv with
  | none => rfl
  | some req =>
    simp only
    split
    · split
      · simp only [jobs, total_setItem, total_of_lookup hlookup]
      · rfl
    · split
      · exact complete_jobs c kv false
      · rfl

theorem collectResults_jobs (c : ClientRole K) (now : Time) :
    loadJobs (c.collectResults now).1 + (c.collectResults now).2.jobs = c.jobs := by
  have hfold : ∀ (kvs : List KvRequestId) (c : ClientRole K),
      (kvs.foldl (expire now) c).jobs = c.jobs := by
    intro kvs
    induction kvs with
    | nil => exact fun c => rfl
    | cons kv kvs ih => exact fun c => (ih _).trans (expire_jobs now c kv)
  rw [← hfold c.inbound.keys c, collectResults]
  simp only [jobs, loadJobs, map_nil, Multiset.coe_nil]
  abel

theorem close_jobs (h : c.completedLoads = []) :
    (((c.close.1).map Prod.fst : List JobId) : Multiset JobId) = c.jobs := by
  have hsum : ∀ entries : List (Sigma fun _ : KvRequestId => InboundRequestState),
      ((entries.map fun e => e.2.jobId : List JobId) : Multiset JobId) =
        (entries.map fun e => ({e.2.jobId} : Multiset JobId)).sum := by
    intro entries
    induction entries with
    | nil => rfl
    | cons e entries ih =>
      rw [map_cons, ← Multiset.cons_coe, ih, map_cons, sum_cons, Multiset.singleton_add]
  rw [jobs, h, close, map_map]
  exact (hsum c.inbound.entries).trans (add_zero _).symm

end ClientRole

/-! ### What the messages of a poll change -/

namespace ServerRole

variable {K : Type} {r r' r'' : ServerRole K} {kv : KvRequestId} {now : Time}

/-- `r'` has no job that `r` does not have, open or in a request. -/
structure Shrinks (r r' : ServerRole K) : Prop where
  pending : ∀ kv req', r'.outbound.lookup kv = some req' → ∀ jobId ∈ req'.pendingJobIds,
    ∃ req, r.outbound.lookup kv = some req ∧ jobId ∈ req.pendingJobIds
  storeJobs : ∀ jobId start, r'.storeJobs.lookup jobId = some start →
    r.storeJobs.lookup jobId = some start

/-- No job that a request still reports is past its deadline. -/
def Lasts (r : ServerRole K) (now : Time) : Prop :=
  ∀ kv req, r.outbound.lookup kv = some req → ∀ jobId ∈ req.pendingJobIds,
    jobId ∉ r.expiredJobs now

theorem mem_expiredJobs {jobId : JobId} : jobId ∈ r.expiredJobs now ↔
    ∃ start, r.storeJobs.lookup jobId = some start ∧ start + storeTimeout ≤ now := by
  simp only [expiredJobs, mem_map, mem_filter, decide_eq_true_eq]
  constructor
  · rintro ⟨e, ⟨hmem, hle⟩, rfl⟩
    exact ⟨e.2, lookup_iff_mem_entries.mpr hmem, hle⟩
  · rintro ⟨start, hlookup, hle⟩
    exact ⟨⟨jobId, start⟩, ⟨lookup_iff_mem_entries.mp hlookup, hle⟩, rfl⟩

theorem Lasts.shrinks (h : r.Lasts now) (hshrinks : r.Shrinks r') : r'.Lasts now := by
  intro kv req' hlookup jobId hjob hexpired
  obtain ⟨req, hreq, hmem⟩ := hshrinks.pending kv req' hlookup jobId hjob
  obtain ⟨start, hstart, hle⟩ := mem_expiredJobs.mp hexpired
  exact h kv req hreq jobId hmem
    (mem_expiredJobs.mpr ⟨start, hshrinks.storeJobs jobId start hstart, hle⟩)

theorem Shrinks.refl (r : ServerRole K) : r.Shrinks r :=
  ⟨fun _ req h _ hjob => ⟨req, h, hjob⟩, fun _ _ h => h⟩

theorem Shrinks.trans (h : r.Shrinks r') (h' : r'.Shrinks r'') : r.Shrinks r'' := by
  refine ⟨fun kv req'' hlookup jobId hjob => ?_, fun jobId start hlookup => ?_⟩
  · obtain ⟨req', hreq', hmem'⟩ := h'.pending kv req'' hlookup jobId hjob
    exact h.pending kv req' hreq' jobId hmem'
  · exact h.storeJobs jobId start (h'.storeJobs jobId start hlookup)

theorem Shrinks.setOutbound (r : ServerRole K) (kv : KvRequestId) {req' : OutboundRequestState K}
    (h : req'.pendingJobIds = ((r.outbound.lookup kv).getD {}).pendingJobIds) :
    r.Shrinks { r with outbound := r.outbound.insert kv req' } := by
  refine ⟨fun kv' req hlookup jobId hjob => ?_, fun _ _ h => h⟩
  rcases lookup_insert_iff.mp hlookup with ⟨rfl, rfl⟩ | ⟨-, hlookup⟩
  · rw [h] at hjob
    cases hold : r.outbound.lookup kv' with
    | none => exact absurd (hold ▸ hjob) not_mem_nil
    | some req₀ => exact ⟨req₀, rfl, by rwa [hold] at hjob⟩
  · exact ⟨req, hlookup, hjob⟩

theorem Shrinks.eraseOutbound (r : ServerRole K) (kv : KvRequestId) :
    r.Shrinks { r with outbound := r.outbound.erase kv } :=
  ⟨fun _ req hlookup _ hjob => ⟨req, (lookup_erase_iff.mp hlookup).2, hjob⟩, fun _ _ h => h⟩

theorem Shrinks.of_eq (houtbound : r'.outbound = r.outbound) (hjobs : r'.storeJobs = r.storeJobs) :
    r.Shrinks r' := by
  refine ⟨fun kv req hlookup jobId hjob => ⟨req, ?_, hjob⟩, fun jobId start hlookup => ?_⟩
  · rw [← houtbound]
    exact hlookup
  · rw [← hjobs]
    exact hlookup

theorem finalizeOutbound_shrinks (r : ServerRole K) (kv : KvRequestId) (success : Option Bool) :
    r.Shrinks (r.finalizeOutbound kv success) := by
  unfold finalizeOutbound
  split
  · exact .refl r
  · exact ⟨fun _ req' hlookup _ hjob => ⟨req', (lookup_erase_iff.mp hlookup).2, hjob⟩,
      fun jobId start hlookup => lookup_of_lookup_eraseAll hlookup⟩

theorem submitFailed_shrinks (r : ServerRole K) (kv : KvRequestId) :
    r.Shrinks (r.submitFailed kv) :=
  submitFailed_rule (.refl r) (fun _ h => .setOutbound r kv (by rw [h]; rfl))
    fun h _ => h.trans (finalizeOutbound_shrinks _ kv _)

theorem popAll_shrinks (r : ServerRole K) (tids : List TransferId) : r.Shrinks (r.popAll tids) := by
  induction tids generalizing r with
  | nil => exact .refl r
  | cons tid tids ih =>
    have hpop : r.Shrinks (r.inflightPop tid).2 := by
      unfold inflightPop
      split
      · exact .refl r
      · exact .of_eq rfl rfl
    exact hpop.trans (ih _)

theorem flight_congr (h : r'.inflight = r.inflight) (kv : KvRequestId) :
    r'.flight kv = r.flight kv := by
  rw [flight, flight, h]

theorem flight_popAll_le (r : ServerRole K) (tids : List TransferId) (kv : KvRequestId) :
    (r.popAll tids).flight kv ≤ r.flight kv := by
  induction tids generalizing r with
  | nil => exact le_refl _
  | cons tid tids ih =>
    refine (ih (r.inflightPop tid).2).trans ?_
    cases hlookup : r.inflight.lookup tid with
    | none =>
      rw [inflightPop, hlookup]
    | some xfer =>
      rw [flight_pop hlookup kv]
      exact Nat.le_add_left _ _

end ServerRole

namespace Serving

variable {K : Type} {s s' s'' : Serving K} {kv : KvRequestId}

/-- What a message leaves of a role: only a fetch of a request submits a transfer of it. -/
structure Handles (fetched : Option KvRequestId) (s s' : Serving K) : Prop where
  shrinks : s.role.Shrinks s'.role
  flight : ∀ kv, fetched ≠ some kv → s'.role.flight kv ≤ s.role.flight kv

theorem Handles.trans {fetched : Option KvRequestId} (h : Handles fetched s s')
    (h' : Handles fetched s' s'') : Handles fetched s s'' :=
  ⟨h.shrinks.trans h'.shrinks, fun kv hkv => (h'.flight kv hkv).trans (h.flight kv hkv)⟩

theorem submitTransfer_handles (hfresh : s.transport.nextId ∉ s.role.inflight) (kv : KvRequestId)
    (result : MatchResult) : Handles (some kv) s (s.submitTransfer kv result) := by
  unfold submitTransfer NixlTransport.writeBlocks
  by_cases hpeer : s.role.peerId ∈ s.transport.remoteDlists
  · simp only [if_pos hpeer]
    refine ⟨.of_eq rfl rfl, fun kv' hkv => ?_⟩
    rw [flight_add hfresh, if_neg fun h => hkv (congrArg some h), Nat.zero_add]
  · simp only [if_neg hpeer]
    exact ⟨submitFailed_shrinks _ kv, fun kv' _ =>
      (flight_congr (inflight_submitFailed kv) kv').le⟩

theorem onFetch_handles [DecidableEq K] (hfresh : s.transport.nextId ∉ s.role.inflight)
    {blocks : List (K × Nat)} (h : s.onFetch kv blocks = .ok s') : Handles (some kv) s s' := by
  have hrecord : Handles (some kv) s (s.recordDemand kv blocks) := by
    unfold recordDemand
    obtain ⟨ws, hresult, demanded⟩ :=
      ((s.role.outbound.lookup kv).getD {}).addFetchDemand_demanded blocks
    have hset := Shrinks.setOutbound s.role kv demanded.pending
    simp only
    split
    · have hsubmit := submitTransfer_handles (s := ⟨{ s.role with
        outbound := s.role.outbound.insert kv
          (((s.role.outbound.lookup kv).getD {}).addFetchDemand blocks).2 }, s.transport⟩)
        hfresh kv (((s.role.outbound.lookup kv).getD {}).addFetchDemand blocks).1
      exact ⟨hset.trans hsubmit.shrinks, hsubmit.flight⟩
    · exact ⟨hset, fun _ _ => le_refl _⟩
  refine onFetch_rule h (fun _ => hrecord) fun _ h' _ =>
    h'.trans ⟨finalizeOutbound_shrinks _ kv _, fun kv' _ => ?_⟩
  exact (flight_congr (inflight_finalizeOutbound kv none) kv').le

variable (s : Serving K) (now : Time) (raises : TransferId → Bool)

theorem drainAbort_handles (kv : KvRequestId) : Handles none s (s.drainAbort now raises kv) := by
  unfold drainAbort
  simp only
  have hpop (tids : List TransferId) : Handles none s ⟨popAll
      { s.role with outbound := s.role.outbound.erase kv } tids, s.transport⟩ :=
    ⟨(Shrinks.eraseOutbound s.role kv).trans (popAll_shrinks _ tids),
      fun kv' _ => flight_popAll_le
        { s.role with outbound := s.role.outbound.erase kv } tids kv'⟩
  split
  · exact (hpop []).trans ⟨.of_eq rfl rfl, fun _ _ => le_refl _⟩
  split
  · exact (hpop _).trans ⟨.of_eq rfl rfl, fun _ _ => le_refl _⟩
  split
  · exact (hpop _).trans ⟨.of_eq rfl rfl, fun _ _ => le_refl _⟩
  · exact (hpop _).trans ⟨.of_eq rfl rfl, fun _ _ => le_refl _⟩

theorem onAbortFetch_handles
    (kv : KvRequestId) : Handles none s (s.onAbortFetch now raises kv) := by
  have hset (pendingAborts : Dict KvRequestId Time) :
      Handles none s { s with role := { s.role with pendingAborts } } :=
    ⟨.of_eq rfl rfl, fun _ _ => le_refl _⟩
  exact (hset _).trans (drainAbort_handles _ now raises kv)

end Serving
/-! ### Sessions -/

def Received.fetched {K : Type} : Received K → Option KvRequestId
  | .message (.fetch kv _) => some kv
  | _ => none

namespace Session

section
variable {K : Type}

def jobs (session : Session K) : Multiset JobId := session.client.jobs + session.server.jobs

def serving (acc : Session K × NixlTransport) : Serving K := ⟨acc.1.server, acc.2⟩

/-- The requests that a poll fetches are different ones without transfers in flight, and no job
that a request still reports is past its deadline. -/
structure PollSafe (session : Session K) (input : PollInput K) : Prop where
  distinct : (input.deliveries.filterMap (·.received.fetched)).Nodup
  idle : ∀ kv ∈ input.deliveries.filterMap (·.received.fetched), session.server.flight kv = 0
  lasts : session.server.Lasts input.serverNow

end

variable {K : Type} [DecidableEq K] {home : JobId → Option KvRequestId} {session : Session K}

structure Accounts (home : JobId → Option KvRequestId) (fetched : Option KvRequestId)
    (acc acc' : Session K × NixlTransport) : Prop where
  inv : ServingJobs home (serving acc')
  nextId : acc.2.nextId ≤ acc'.2.nextId
  jobs : acc'.1.jobs = acc.1.jobs
  handles : Serving.Handles fetched (serving acc) (serving acc')

theorem accounts_of_server {fetched : Option KvRequestId} {session' : Session K}
    {t t' : NixlTransport} (inv : ServingJobs home ⟨session.server, t⟩)
    (hserver : session'.server = session.server)
    (hclient : session'.client.jobs = session.client.jobs) (hnext : t'.nextId = t.nextId) :
    Accounts home fetched (session, t) (session', t') := by
  refine ⟨⟨?_, fun tid hmem => ?_⟩, hnext.ge, ?_, ⟨.of_eq ?_ ?_, fun kv _ => ?_⟩⟩
  · simp only [serving, hserver]
    exact inv.role
  · simp only [serving, hserver, hnext] at hmem ⊢
    exact inv.fresh tid hmem
  · rw [jobs, hserver, hclient, jobs]
  · simp only [serving, hserver]
  · simp only [serving, hserver]
  · simp only [serving, hserver, le_refl]

theorem onMessage_accounts (acc : Session K × NixlTransport) (d : Delivery K)
    (inv : ServingJobs home (serving acc))
    (hidle : ∀ kv, d.received.fetched = some kv → acc.1.server.flight kv = 0) :
    Accounts home d.received.fetched acc (onMessage acc d) := by
  obtain ⟨session, t⟩ := acc
  unfold onMessage
  simp only
  split
  · exact accounts_of_server inv rfl rfl rfl
  split
  · split
    · exact accounts_of_server inv rfl rfl rfl
    · exact accounts_of_server inv rfl rfl rfl
  · exact accounts_of_server inv rfl rfl rfl
  · rename_i kv blocks hreceived
    rw [hreceived] at hidle ⊢
    split
    · exact accounts_of_server inv rfl rfl rfl
    rename_i s hfetch
    have haccounts := inv.onFetch (hidle kv rfl) hfetch
    refine ⟨haccounts.inv, haccounts.nextId, ?_, ?_⟩
    · have hjobs := (zero_add _).symm.trans haccounts.jobs
      exact congrArg (session.client.jobs + ·) hjobs
    · exact Serving.onFetch_handles inv.fresh_nextId hfetch
  · rename_i kv hreceived
    rw [hreceived]
    have haccounts := inv.onAbortFetch d.now d.raises kv
    refine ⟨haccounts.inv, haccounts.nextId, ?_, Serving.onAbortFetch_handles _ _ _ _⟩
    have hjobs := (zero_add _).symm.trans haccounts.jobs
    exact congrArg (session.client.jobs + ·) hjobs
  · exact accounts_of_server inv rfl (ClientRole.complete_jobs ..) rfl
  · exact accounts_of_server inv rfl (ClientRole.complete_jobs ..) rfl
  · exact accounts_of_server inv rfl rfl rfl
  · exact accounts_of_server inv rfl rfl rfl

/-- All messages of a poll; `P` is what else each of them keeps. -/
theorem onMessages_accounts (P : Session K → Prop) (deliveries : List (Delivery K))
    (acc : Session K × NixlTransport) (inv : ServingJobs home (serving acc))
    (hdistinct : (deliveries.filterMap (·.received.fetched)).Nodup)
    (hidle : ∀ kv ∈ deliveries.filterMap (·.received.fetched), acc.1.server.flight kv = 0)
    (hkeeps : ∀ acc, ∀ d ∈ deliveries, ServingJobs home (serving acc) → P acc.1 →
      P (onMessage acc d).1) (hstart : P acc.1) :
    let acc' := deliveries.foldl onMessage acc
    ServingJobs home (serving acc') ∧ acc.2.nextId ≤ acc'.2.nextId ∧ acc'.1.jobs = acc.1.jobs ∧
      acc.1.server.Shrinks acc'.1.server ∧ P acc'.1 := by
  induction deliveries generalizing acc with
  | nil => exact ⟨inv, le_refl _, rfl, .refl _, hstart⟩
  | cons d deliveries ih =>
    have hone := onMessage_accounts acc d inv fun kv hkv =>
      hidle kv (mem_filterMap.mpr ⟨d, mem_cons_self, hkv⟩)
    have hrest : ∀ kv ∈ deliveries.filterMap (·.received.fetched),
        d.received.fetched ≠ some kv := by
      intro kv hkv hd
      have hcons : (d :: deliveries).filterMap (·.received.fetched) =
          kv :: deliveries.filterMap (·.received.fetched) := filterMap_cons_some hd
      rw [hcons, nodup_cons] at hdistinct
      exact hdistinct.1 hkv
    have hsub : (deliveries.filterMap (·.received.fetched)).Sublist
        ((d :: deliveries).filterMap (·.received.fetched)) :=
      (sublist_cons_self d deliveries).filterMap _
    have hidle' : ∀ kv ∈ deliveries.filterMap (·.received.fetched),
        (onMessage acc d).1.server.flight kv = 0 := by
      intro kv hkv
      have hle := hone.handles.flight kv (hrest kv hkv)
      have hzero := hidle kv (hsub.subset hkv)
      simp only [serving] at hle
      omega
    obtain ⟨hinv, hnext, hjobs, hshrinks, hP⟩ := ih (onMessage acc d) hone.inv
      (hdistinct.sublist hsub) hidle'
      (fun acc d' hd' => hkeeps acc d' (mem_cons_of_mem _ hd'))
      (hkeeps acc d mem_cons_self inv hstart)
    exact ⟨hinv, hone.nextId.trans hnext, hjobs.trans hone.jobs,
      hone.handles.shrinks.trans hshrinks, hP⟩

/-- A poll hands out results of jobs of the session and keeps the other jobs. -/
theorem poll_accounts {t : NixlTransport} {input : PollInput K}
    (inv : ServingJobs home ⟨session.server, t⟩) (hsafe : session.PollSafe input) :
    ∃ result session' t', session.poll t input = .ok (result, session', t') ∧
      ServingJobs home ⟨session'.server, t'⟩ ∧ t.nextId ≤ t'.nextId ∧
      ClientRole.loadJobs result.loads + resultJobs result.stores + session'.jobs =
        session.jobs ∧ session'.client.completedLoads = [] := by
  obtain ⟨hinv, hnext, hjobs, hshrinks, -⟩ := onMessages_accounts (fun _ => True) input.deliveries
    (session, t) inv hsafe.distinct hsafe.idle (fun _ _ _ _ h => h) trivial
  unfold poll
  generalize input.deliveries.foldl onMessage (session, t) = acc at hinv hnext hjobs hshrinks ⊢
  obtain ⟨session₁, t₁⟩ := acc
  obtain ⟨results, s, hcollect, haccounts⟩ := hinv.collectResults input.serverNow input.check
    (hsafe.lasts.shrinks hshrinks)
  have hdrain := haccounts.inv.drainPendingAborts input.abortNow input.raises
  have hclient := session₁.client.collectResults_jobs input.clientNow
  have hcollect' : Serving.collectResults ⟨session₁.server, t₁⟩ input.serverNow input.check =
      .ok (results, s) := hcollect
  simp only [hcollect']
  refine ⟨_, _, _, rfl, hdrain.inv, hnext.trans (haccounts.nextId.trans hdrain.nextId), ?_, rfl⟩
  have hserver : resultJobs results +
      (s.drainPendingAborts input.abortNow input.raises).role.jobs = session₁.server.jobs := by
    rw [← zero_add (s.drainPendingAborts input.abortNow input.raises).role.jobs, hdrain.jobs]
    exact haccounts.jobs
  rw [← hjobs, jobs, jobs, ← hclient, ← hserver]
  abel

end Session
end Vllm.Offload.P2P
