import Vllm.Offload.P2P.ServerBlocks

/-! Runs of a server role: stored blocks, fetches, aborts, finishes and polls in any order. -/
namespace Vllm.Offload.P2P
open List Serving NixlTransport ServerRole AList

section
variable {K : Type} [DecidableEq K]

namespace ServingInv

variable {v : View K} {s : Serving K} {kv : KvRequestId} {jobId : JobId}

theorem request (inv : ServingInv v s) (kv : KvRequestId) :
    RequestInv v s.role [] kv ((s.role.outbound.lookup kv).getD {}) := by
  cases hlookup : s.role.outbound.lookup kv with
  | none => exact ⟨fun _ => ⟨rfl, nofun⟩, nofun, nofun⟩
  | some req => exact inv.role.requests hlookup

theorem unused_of_new {r : ServerRole K} {extra : KvRequestId → List (K × Nat)}
    (inv : RoleInv v extra r) (hnew : jobId ∉ v.jobs.map (·.jobId)) :
    RoleInv.Unused r jobId := by
  have hof : ∀ kv, ¬ v.Of jobId kv := fun kv ⟨job, hjob, heq, _⟩ =>
    hnew (mem_map.mpr ⟨job, hjob, heq⟩)
  refine ⟨fun tid xfer h hjob => ?_, fun kv req h hdemand key localIdx hkey => ?_⟩
  · exact hof _ (inv.open_jobs tid xfer h jobId hjob).2
  · exact hof _ (((inv.requests h).waits hdemand).blocks key jobId localIdx hkey).2.1

theorem addStoredBlocks (inv : ServingInv v s) (kv : KvRequestId) (blocks : List (K × Nat))
    (now : Time) (hnew : jobId ∉ v.jobs.map (·.jobId)) (done : KvRequestId → K × Nat → Prop)
    (hdone : ∀ kv x, v.done kv x → done kv x) :
    ∃ writes,
      ServingInv { v with jobs := v.jobs ++ [⟨jobId, kv, blocks⟩], done, writes }
        (s.addStoredBlocks kv blocks jobId now) := by
  have hagrees := addStoredBlocks_agrees inv.agrees kv blocks jobId now
  have hunused := unused_of_new inv.role hnew
  have hreq := inv.request kv
  revert hagrees
  unfold Serving.addStoredBlocks
  generalize (s.role.outbound.lookup kv).getD {} = req at hreq ⊢
  obtain ⟨ws, hresult, stored⟩ := req.addStoredBlocks_stored blocks jobId
  generalize req.addStoredBlocks blocks jobId = result at hresult stored ⊢
  obtain ⟨result, req'⟩ := result
  subst hresult
  intro hagrees
  have hunique : ((v.jobs ++ [(⟨jobId, kv, blocks⟩ : StoreJob K)]).map (·.jobId)).Nodup := by
    rw [map_append, map_singleton, ← concat_eq_append]
    exact inv.role.unique.concat hnew
  have hmem : (⟨jobId, kv, blocks⟩ : StoreJob K) ∈ v.jobs ++ [⟨jobId, kv, blocks⟩] :=
    mem_append_right _ mem_cons_self
  have hopened := (inv.role.mono (v.jobs ++ [⟨jobId, kv, blocks⟩]) done
    (fun job h => mem_append_left _ h) hunique hdone).openJob now
    (mem_map.mpr ⟨_, hmem, rfl⟩)
    (fun h => hnew (inv.role.known jobId (.inr (.inl h))))
    (fun h => hnew (inv.role.known jobId (.inr (.inr h))))
  have hset := hopened.setOutbound kv req' (ws.map Write.demand) ⟨?_, ?_, ?_⟩
  rotate_left
  · -- no demand: the blocks of the job wait with the others
    intro hfalse
    have waits := hreq.waits (stored.demandReceived.symm.trans hfalse)
    have hnil := stored.unmet
    rw [waits.unmet, perm_nil, append_eq_nil_iff] at hnil
    refine ⟨hnil.2, fun key jobId' localIdx hkey => ?_⟩
    rcases stored.available key _ hkey with hold | ⟨rfl, hblock⟩
    · obtain ⟨hopen, ⟨job, hjob, hof⟩, ⟨job', hjob', howns⟩, hfree⟩ :=
        waits.blocks key jobId' localIdx hold
      exact ⟨Dict.mem_setItem.mpr (.inr hopen), ⟨job, mem_append_left _ hjob, hof⟩,
        ⟨job', mem_append_left _ hjob', howns⟩, hfree⟩
    · exact ⟨Dict.mem_setItem.mpr (.inl rfl), ⟨_, hmem, rfl, rfl⟩, ⟨_, hmem, rfl, hblock⟩, hunused.1⟩
  · intro jobId' hjob
    rcases stored.pending jobId' hjob with rfl | hjob
    · exact ⟨_, hmem, rfl, rfl⟩
    · obtain ⟨job, hjob', hof⟩ := hreq.pending jobId' hjob
      exact ⟨job, mem_append_left _ hjob', hof⟩
  · -- what is matched is about to be submitted
    intro htrue
    obtain ⟨demand, written, meets⟩ := hreq.meets (stored.demandReceived.symm.trans htrue)
    refine ⟨demand, written, meets.demand, fun x hx => hdone kv x (meets.done x hx), ?_, ?_⟩
    · refine Subperm.trans (Perm.subperm ?_) meets.parts
      simp only [append_nil, append_assoc]
      refine Perm.append_left written ?_
      exact (perm_append_comm_assoc _ _ _).trans (stored.unmet.append_left _)
    · rw [stored.remaining]
      exact meets.remaining
  by_cases hsubmit : ws.map (·.localIdx) ≠ [] ∧ req'.demandReceived = true
  · have hne : ws ≠ [] := fun h => hsubmit.1 (by rw [h]; rfl)
    rw [if_pos hsubmit, if_neg hne]
    refine submitTransfer (s := ⟨{ s.role with
        storeJobs := s.role.storeJobs.setItem jobId now
        outbound := s.role.outbound.insert kv req' }, s.transport⟩) hset
      inv.agrees inv.handles hne (fun jobId' hjob => ?_) fun x hx => ?_
    · rw [mem_singleton.mp hjob]
      refine ⟨Dict.mem_setItem.mpr (.inl rfl), ⟨_, hmem, rfl, rfl⟩, hunused.1, ?_⟩
      intro kv' req'' h hfalse
      rcases Dict.lookup_insert_iff.mp h with ⟨-, rfl⟩ | ⟨-, h⟩
      · rw [hsubmit.2] at hfalse
        cases hfalse
      · exact hunused.2 kv' req'' h hfalse
    · obtain ⟨hjob, hblock⟩ := stored.source x hx
      rw [hjob]
      exact ⟨mem_singleton_self _, _, hmem, rfl, hblock⟩
  · rw [if_neg hsubmit] at hagrees ⊢
    exact ⟨v.writes, hset.dropExtra, hagrees, inv.handles⟩

/-- A fetch is recorded while no transfer of the request is in flight. -/
theorem recordDemand (inv : ServingInv v s) (hsent : s.role.sent = v.sent) (kv : KvRequestId)
    (blocks : List (K × Nat)) (done : KvRequestId → K × Nat → Prop)
    (hdone : ∀ kv', kv' ≠ kv → ∀ x, v.done kv' x → done kv' x)
    (hfirst : ((s.role.outbound.lookup kv).getD {}).demandReceived = false)
    (hidle : ∀ tid xfer, s.role.inflight.lookup tid = some xfer → xfer.kvRequestId ≠ kv) :
    ∃ writes,
      ServingInv { v with demands := v.demands.insert kv blocks, done, writes }
        (s.recordDemand kv blocks) := by
  have hagrees := recordDemand_agrees inv.agrees kv blocks
  have hreq := inv.request kv
  have waits := hreq.waits hfirst
  have hnone : ∀ req, s.role.outbound.lookup kv = some req → req.demandReceived = false := by
    intro req hreq
    rw [hreq] at hfirst
    exact hfirst
  have hflight : s.role.inflightOf [kv] = [] := by
    rw [eq_nil_iff_forall_not_mem]
    intro tid htid
    obtain ⟨xfer, hlookup, hkv⟩ := mem_inflightOf.mp htid
    exact hidle tid xfer hlookup (mem_singleton.mp hkv)
  have hredemand := inv.role.redemand hsent kv blocks done hnone hdone
  revert hagrees
  unfold Serving.recordDemand
  generalize (s.role.outbound.lookup kv).getD {} = req at hreq waits ⊢
  obtain ⟨ws, hresult, demanded⟩ := req.addFetchDemand_demanded blocks
  generalize req.addFetchDemand blocks = result at hresult demanded ⊢
  obtain ⟨result, req'⟩ := result
  subst hresult
  intro hagrees
  have hreceived : req'.demandReceived = true := demanded.demandReceived
  have hset := hredemand.setOutbound kv req' (ws.map Write.demand)
    ⟨fun hfalse => (by rw [hreceived] at hfalse; cases hfalse),
      fun jobId hjob => hreq.pending jobId (by rw [demanded.pending] at hjob; exact hjob),
      fun _ => ⟨blocks, [], lookup_insert _, fun _ h => (by cases h), ?_, ?_⟩⟩
  rotate_left
  · have hunmet := demanded.unmet
    have hempty : ({ req with demandReceived := true, remaining := blocks.length } :
        OutboundRequestState K).unmet = [] := waits.unmet
    rw [hempty, append_nil] at hunmet
    rw [View.inFlight, hflight, flatMap_nil, append_nil]
    exact hunmet
  · rw [demanded.remaining]
    rfl
  by_cases hsubmit : ws.map (·.localIdx) ≠ []
  · have hne : ws ≠ [] := fun h => hsubmit (by rw [h]; rfl)
    rw [if_pos hsubmit]
    refine submitTransfer (s := ⟨{ s.role with
        outbound := s.role.outbound.insert kv req' }, s.transport⟩) hset
      inv.agrees inv.handles hne (fun jobId hjob => ?_) fun x hx => ?_
    · obtain ⟨x, hx, rfl⟩ := mem_map.mp (mem_dedup.mp hjob)
      obtain ⟨hopen, hof, -, hfree⟩ := waits.blocks _ _ _ (demanded.source x hx)
      refine ⟨hopen, hof, hfree, fun kv' req'' h hfalse key localIdx hkey => ?_⟩
      rcases Dict.lookup_insert_iff.mp h with ⟨-, rfl⟩ | ⟨hne', h⟩
      · rw [hreceived] at hfalse
        cases hfalse
      · -- the job of a block of this request is no job of another one
        exact hne' (inv.role.of_unique
          (((inv.role.requests h).waits hfalse).blocks key _ localIdx hkey).2.1 hof)
    · exact ⟨mem_dedup.mpr (mem_map_of_mem hx), (waits.blocks _ _ _ (demanded.source x hx)).2.2.1⟩
  · rw [if_neg hsubmit] at hagrees ⊢
    exact ⟨v.writes, hset.dropExtra, hagrees, inv.handles⟩

theorem demandReceived_recordDemand (s : Serving K) (kv : KvRequestId) (blocks : List (K × Nat))
    {req : OutboundRequestState K}
    (h : (s.recordDemand kv blocks).role.outbound.lookup kv = some req) :
    req.demandReceived = true := by
  obtain ⟨ws, -, demanded⟩ := ((s.role.outbound.lookup kv).getD {}).addFetchDemand_demanded blocks
  revert h
  unfold Serving.recordDemand
  generalize ((s.role.outbound.lookup kv).getD {}).addFetchDemand blocks = result at demanded ⊢
  simp only
  have hreceived : result.2.demandReceived = true := demanded.demandReceived
  split
  · unfold Serving.submitTransfer writeBlocks
    split
    · intro h
      rw [inflightAdd, lookup_insert] at h
      cases h
      exact hreceived
    · intro h
      simp only [submitFailed, lookup_insert] at h
      split at h
      · rw [lookup_insert] at h
        cases h
        exact hreceived
      · simp only [finalizeOutbound, lookup_insert, lookup_erase] at h
        cases h
  · intro h
    rw [lookup_insert] at h
    cases h
    exact hreceived

section
variable (inv : ServingInv v s)
include inv

theorem onFetch (hsent : s.role.sent = v.sent) (kv : KvRequestId)
    (blocks : List (K × Nat)) (done : KvRequestId → K × Nat → Prop)
    (hdone : ∀ kv', kv' ≠ kv → ∀ x, v.done kv' x → done kv' x)
    (hidle : ∀ tid xfer, s.role.inflight.lookup tid = some xfer → xfer.kvRequestId ≠ kv)
    {s' : Serving K} (h : s.onFetch kv blocks = .ok s') :
    ∃ writes, ServingInv { v with demands := v.demands.insert kv blocks, done, writes } s' := by
  refine onFetch_rule (P := fun s => ∃ writes, ServingInv { v with
    demands := v.demands.insert kv blocks, done, writes } s) h
    (inv.recordDemand hsent kv blocks done hdone · hidle) ?_
  rintro _ rfl ⟨writes, hrecord⟩ hnone
  refine ⟨writes, hrecord.role.finalizeOutbound (fun tid xfer hx => ?_) fun req' hreq' hz => ?_,
    hrecord.agrees.congr (inflight_finalizeOutbound ..) rfl, hrecord.handles⟩
  · exact hrecord.role.counted.none_inflight hnone hx
  · exact ⟨demandReceived_recordDemand s kv blocks hreq', of_decide_eq_true hz⟩

variable (now : Time) (raises : TransferId → Bool)

theorem drainAbort (kv : KvRequestId) : ServingInv v (s.drainAbort now raises kv) := by
  have hagrees := drainAbort_agrees inv.agrees now raises kv
  have hack : ∀ r : ServerRole K, RoleInv v (fun _ => []) r →
      RoleInv v (fun _ => []) (r.finalizeAbort kv) := by
    intro r hr
    exact (hr.setAborts (r.pendingAborts.erase kv)).send nofun
  have herased := inv.role.eraseOutbound kv
  revert hagrees
  unfold Serving.drainAbort
  simp only
  split
  · exact fun hagrees => ⟨hack _ herased, hagrees, inv.handles⟩
  split
  · exact fun hagrees => inv.shrink (hack _ (herased.popAll _)) hagrees rfl fun tid => lookup_cancel
  refine fun hagrees => inv.shrink ?_ hagrees rfl fun tid => lookup_cancel
  split
  · exact hack _ (herased.popAll _)
  · exact herased.popAll _

theorem onAbortFetch (kv : KvRequestId) : ServingInv v (s.onAbortFetch now raises kv) := by
  refine drainAbort ⟨?_, ?_, ?_⟩ now raises kv
  · exact inv.role.setAborts _
  · exact inv.agrees
  · exact inv.handles

theorem drainPendingAborts : ServingInv v (s.drainPendingAborts now raises) :=
  drainPendingAborts_rule (P := ServingInv v) (fun kv h => h.drainAbort now raises kv) inv

theorem finish (kv : KvRequestId) : ServingInv v { s with role := s.role.finish kv } :=
  ⟨inv.role.finish kv, inv.agrees.congr (inflight_finish kv) rfl, inv.handles⟩

/-- A poll, with no job that expires in use. `done` has what the transfers that are done wrote. -/
theorem collectResults (check : TransferId → XferState)
    (hexpired : ∀ jobId ∈ s.role.expiredJobs now, RoleInv.Unused s.role jobId)
    (done : KvRequestId → K × Nat → Prop) (hdone : ∀ kv x, v.done kv x → done kv x)
    (hwritten : ∀ tid ∈ (s.transport.poll check).1.done, ∀ xfer,
      s.role.inflight.lookup tid = some xfer →
      ∀ x ∈ v.writes tid, done xfer.kvRequestId x.demand) :
    ∃ results s', s.collectResults now check = .ok (results, s') ∧
      ServingInv { v with done, reported := v.reported ++ results.map (·.jobId) } s' := by
  have hmono := inv.role.mono v.jobs done (fun _ h => h) inv.role.unique hdone
  have hsurface := hmono.surface now hexpired
  obtain ⟨acc, hok, hacc⟩ := RoleInv.onDone (s.transport.poll check).1.done hsurface hwritten
  have hfailed := RoleInv.onFailed (s.transport.poll check).1.failed [] hacc
  generalize hres : onFailed (s.transport.poll check).1.failed [] acc = res at hfailed
  obtain ⟨failedIds, results, role⟩ := res
  have hcollect : s.collectResults now check =
      .ok (results, cancelFailed ⟨role, (s.transport.poll check).2⟩ failedIds) := by
    unfold Serving.collectResults
    simp only [hok, hres]
  refine ⟨results, _, hcollect, inv.shrink ?_ ?_ rfl fun tid => ?_⟩
  · unfold cancelFailed
    split
    · exact hfailed
    · exact hfailed.popAll _
  · have hagrees := collectResults_agrees inv.agrees hcollect
    simp only [false_and] at hagrees
    exact hagrees
  · intro htid
    have hpolled : tid ∈ (s.transport.poll check).2.inflight ∧
        (cancelFailed ⟨role, (s.transport.poll check).2⟩
          failedIds).transport.inflight.lookup tid =
            (s.transport.poll check).2.inflight.lookup tid := by
      revert htid
      unfold cancelFailed
      split
      · exact fun h => ⟨h, rfl⟩
      · exact fun h => ⟨(Dict.mem_eraseAll.mp h).2, lookup_cancel h⟩
    rw [hpolled.2]
    exact lookup_poll_inflight (mem_poll_inflight.mp hpolled.1).2

/-- The messages of one operation are not looked at in the next one. -/
theorem rebase : ServingInv { v with sent := s.role.sent } s := by
  refine ⟨?_, inv.agrees, inv.handles⟩
  exact { inv.role with
    carries := fun tid xfer h => { inv.role.carries tid xfer h with }
    requests := fun h => (inv.role.requests h).imp id (fun _ _ h => h) fun _ meets => { meets with }
    answers := ⟨[], (append_nil _).symm, nofun⟩ }

end

end ServingInv
end

/-! ### Runs -/

/-- A transfer that is done, with the request it was for and the jobs reported before. -/
structure Written where
  kvRequestId : KvRequestId
  handle : Handle
  reported : List JobId

/-- What the callers of a role see: the jobs they submitted, those whose result they got, the last
demand of each request, and the transfers for it that are done. -/
structure Ledger (K : Type) where
  jobs : List (StoreJob K) := []
  reported : List JobId := []
  demands : Dict KvRequestId (List (K × Nat)) := ∅
  written : List Written := []

namespace Ledger

variable {K : Type}

def Owns (l : Ledger K) (jobId : JobId) (key : K) (localIdx : Nat) : Prop :=
  ∃ job ∈ l.jobs, job.jobId = jobId ∧ (key, localIdx) ∈ job.blocks

/-- A demanded key was written to its place, from a block of a job that was not reported. -/
def Done (l : Ledger K) (kv : KvRequestId) (x : K × Nat) : Prop :=
  ∃ y ∈ l.written, y.kvRequestId = kv ∧ ∃ localIdx jobId,
    (localIdx, x.2) ∈ y.handle.localIdxs.zip y.handle.remoteIdxs ∧
      l.Owns jobId x.1 localIdx ∧ jobId ∉ y.reported

def view (l : Ledger K) (writes : TransferId → List (Write K)) (sent : List (Message K)) :
    View K where
  jobs := l.jobs
  reported := l.reported
  demands := l.demands
  done := l.Done
  writes := writes
  sent := sent

end Ledger

structure ServerRun (K : Type) where
  serving : Serving K
  ledger : Ledger K := {}

namespace ServerRun

variable {K : Type}

inductive Op (K : Type)
  | connect
  | addStoredBlocks (kvRequestId : KvRequestId) (blocks : List (K × Nat)) (jobId : JobId)
      (now : Time)
  | fetch (kvRequestId : KvRequestId) (blocks : List (K × Nat))
  | abortFetch (now : Time) (raises : TransferId → Bool) (kvRequestId : KvRequestId)
  | finish (kvRequestId : KvRequestId)
  | collectResults (now : Time) (check : TransferId → XferState)
  | drainPendingAborts (now : Time) (raises : TransferId → Bool)

def doneWrites (s : ServerRun K) (check : TransferId → XferState) : List Written :=
  (s.serving.transport.poll check).1.done.filterMap fun tid =>
    match s.serving.role.inflight.lookup tid, s.serving.transport.inflight.lookup tid with
    | some xfer, some handle => some ⟨xfer.kvRequestId, handle, s.ledger.reported⟩
    | _, _ => none

variable [DecidableEq K]

/-- One operation. A fetch that violates the protocol changes nothing. -/
def step (s : ServerRun K) : Op K → Except ServerError (ServerRun K)
  | .connect =>
    .ok { s with
      serving.transport := s.serving.transport.addRemotePeer s.serving.role.peerId }
  | .addStoredBlocks kv blocks jobId now =>
    .ok
      { serving := s.serving.addStoredBlocks kv blocks jobId now
        ledger := { s.ledger with jobs := s.ledger.jobs ++ [⟨jobId, kv, blocks⟩] } }
  | .fetch kv blocks =>
    match s.serving.onFetch kv blocks with
    | .error _ => .ok s
    | .ok serving =>
      .ok
        { serving
          ledger :=
            { s.ledger with
              demands := s.ledger.demands.insert kv blocks
              written := s.ledger.written.filter (·.kvRequestId ≠ kv) } }
  | .abortFetch now raises kv => .ok { s with serving := s.serving.onAbortFetch now raises kv }
  | .finish kv => .ok { s with serving.role := s.serving.role.finish kv }
  | .collectResults now check =>
    match s.serving.collectResults now check with
    | .error e => .error e
    | .ok (results, serving) =>
      .ok
        { serving
          ledger :=
            { s.ledger with
              reported := s.ledger.reported ++ results.map (·.jobId)
              written := s.ledger.written ++ s.doneWrites check } }
  | .drainPendingAborts now raises =>
    .ok { s with serving := s.serving.drainPendingAborts now raises }

/-- Every job is new; a request is fetched again only after its transfers ended; and no job times
out while one of its blocks is in flight or waits for a fetch. -/
def Safe (s : ServerRun K) : Op K → Prop
  | .addStoredBlocks _ _ jobId _ => jobId ∉ s.ledger.jobs.map (·.jobId)
  | .fetch kv _ => ∀ tid xfer, s.serving.role.inflight.lookup tid = some xfer →
      xfer.kvRequestId ≠ kv
  | .collectResults now _ => ∀ jobId ∈ s.serving.role.expiredJobs now,
      RoleInv.Unused s.serving.role jobId
  | _ => True

def Inv (s : ServerRun K) : Prop :=
  ∃ writes, ServingInv (s.ledger.view writes s.serving.role.sent) s.serving

/-- Every block of a transfer is the one that a job of the transfer stored for its request under
some key, and the job was not reported. -/
def BlocksOpen (s : ServerRun K) : Prop :=
  ∀ tid handle, s.serving.transport.inflight.lookup tid = some handle →
    ∃ xfer, s.serving.role.inflight.lookup tid = some xfer ∧
      ∀ localIdx ∈ handle.localIdxs, ∃ job ∈ s.ledger.jobs, ∃ key, (key, localIdx) ∈ job.blocks ∧
        job.jobId ∈ xfer.jobIds ∧ job.kvRequestId = xfer.kvRequestId ∧
          job.jobId ∉ s.ledger.reported

/-- A request is answered with success only if all of its demand was written. -/
def AnswersRight (s s' : ServerRun K) : Prop :=
  ∃ new, s'.serving.role.sent = s.serving.role.sent ++ new ∧
    ∀ kv, .transferDone kv true ∈ new → ∃ blocks,
      s'.ledger.demands.lookup kv = some blocks ∧ ∀ x ∈ blocks, s'.ledger.Done kv x

variable {s s' : ServerRun K} {writes : TransferId → List (Write K)}

section
variable (inv : ServingInv (s.ledger.view writes s.serving.role.sent) s.serving)
include inv

theorem blocksOpen_of_inv : s.BlocksOpen := by
  intro tid handle hlookup
  have htid : tid ∈ s.serving.role.inflight :=
    ((inv.agrees tid).1.mp (Dict.mem_of_lookup hlookup)).resolve_right id
  obtain ⟨xfer, hxfer⟩ := Dict.exists_lookup htid
  refine ⟨xfer, hxfer, fun localIdx hmem => ?_⟩
  rw [(inv.handles tid handle hlookup).1] at hmem
  obtain ⟨x, hx, rfl⟩ := mem_map.mp hmem
  obtain ⟨hjob, job, hjobs, heq, hblock⟩ := (inv.role.carries tid xfer hxfer).source x hx
  rw [← heq] at hjob
  obtain ⟨hopen, hof⟩ := inv.role.open_jobs tid xfer hxfer _ hjob
  exact ⟨job, hjobs, x.key, hblock, hjob, inv.role.of_unique ⟨job, hjobs, rfl, rfl⟩ hof,
    (inv.role.live _ hopen).1⟩

/-- What a transfer that is done wrote counts as written. -/
theorem done_of_doneWrites
    {check : TransferId → XferState} {l : Ledger K} (hjobs : l.jobs = s.ledger.jobs)
    (hwritten : ∀ y ∈ s.doneWrites check, y ∈ l.written) {tid : TransferId}
    (htid : tid ∈ (s.serving.transport.poll check).1.done) {xfer : InflightXfer}
    (hxfer : s.serving.role.inflight.lookup tid = some xfer) {x : Write K} (hx : x ∈ writes tid) :
    l.Done xfer.kvRequestId x.demand := by
  obtain ⟨handle, hhandle⟩ := Dict.exists_lookup (mem_poll_done.mp htid).1
  obtain ⟨hlocal, hremote⟩ := inv.handles tid handle hhandle
  obtain ⟨hjob, job, hmem, heq, hblock⟩ := (inv.role.carries tid xfer hxfer).source x hx
  refine ⟨⟨xfer.kvRequestId, handle, s.ledger.reported⟩, hwritten _ ?_, rfl, x.localIdx, x.jobId,
    ?_, ⟨job, ?_, heq, hblock⟩, ?_⟩
  · refine mem_filterMap.mpr ⟨tid, htid, ?_⟩
    rw [hxfer, hhandle]
  · have hzip : handle.localIdxs.zip handle.remoteIdxs =
        (writes tid).map fun x => (x.localIdx, x.remoteIdx) := by
      rw [hlocal, hremote]
      exact zip_map'
    rw [hzip]
    exact mem_map.mpr ⟨x, hx, rfl⟩
  · rw [hjobs]
    exact hmem
  · exact (inv.role.live _ (inv.role.open_jobs tid xfer hxfer _ hjob).1).1

theorem step_serving (op : Op K) (hsafe : s.Safe op) : ∃ s' writes', s.step op = .ok s' ∧
      ServingInv (s'.ledger.view writes' s.serving.role.sent) s'.serving := by
  cases op with
  | connect =>
    exact ⟨_, writes, rfl, inv.role, inv.agrees, inv.handles⟩
  | addStoredBlocks kv blocks jobId now =>
    obtain ⟨writes', hinv⟩ := inv.addStoredBlocks kv blocks now hsafe
      (Ledger.Done { s.ledger with jobs := s.ledger.jobs ++ [⟨jobId, kv, blocks⟩] })
      fun kv' x ⟨y, hy, hkv, localIdx, j, hzip, ⟨job, hjob, howns⟩, hreported⟩ =>
        ⟨y, hy, hkv, localIdx, j, hzip, ⟨job, mem_append_left _ hjob, howns⟩, hreported⟩
    exact ⟨_, writes', rfl, hinv⟩
  | fetch kv blocks =>
    cases hfetch : s.serving.onFetch kv blocks with
    | error e => exact ⟨s, writes, by rw [step, hfetch], inv⟩
    | ok serving =>
      -- transfers for the earlier demand of the request do not count any more
      obtain ⟨writes', hinv⟩ := inv.onFetch rfl kv blocks (Ledger.Done
          { s.ledger with
            demands := s.ledger.demands.insert kv blocks
            written := s.ledger.written.filter (·.kvRequestId ≠ kv) })
        (fun kv' hne x ⟨y, hy, hkv, h⟩ =>
          ⟨y, mem_filter.mpr ⟨hy, decide_eq_true (by rw [hkv]; exact hne)⟩, hkv, h⟩)
        hsafe hfetch
      exact ⟨_, writes', by rw [step, hfetch], hinv⟩
  | abortFetch now raises kv => exact ⟨_, writes, rfl, inv.onAbortFetch now raises kv⟩
  | finish kv => exact ⟨_, writes, rfl, inv.finish kv⟩
  | collectResults now check =>
    obtain ⟨results, serving, hok, hinv⟩ := inv.collectResults now check hsafe
      (Ledger.Done { s.ledger with written := s.ledger.written ++ s.doneWrites check })
      (fun kv x ⟨y, hy, h⟩ => ⟨y, mem_append_left _ hy, h⟩)
      fun tid htid xfer hxfer x hx =>
        done_of_doneWrites
          (l := { s.ledger with written := s.ledger.written ++ s.doneWrites check }) inv rfl
          (fun y hy => mem_append_right _ hy) htid hxfer hx
    exact ⟨_, writes, by rw [step, hok], hinv⟩
  | drainPendingAborts now raises =>
    exact ⟨_, writes, rfl, inv.drainPendingAborts now raises⟩

end

def start (peerId : PeerId) : ServerRun K where
  serving := { role := { peerId }, transport := {} }

theorem start_inv (peerId : PeerId) : (start (K := K) peerId).Inv := by
  refine ⟨fun _ => [], ?_, fun tid => ⟨⟨nofun, fun h => h.elim nofun nofun⟩, nofun, nofun⟩, nofun⟩
  exact {
    unique := nodup_nil
    counted := fun kv => ⟨rfl, nofun⟩
    live := nofun
    known := fun jobId h => by rcases h with h | h | h <;> cases h
    open_jobs := nofun
    once := nofun
    carries := nofun
    requests := nofun
    answers := ⟨[], rfl, nofun⟩ }

/-- In every run in which no job times out while its blocks are used and no request is fetched
again while a transfer of it is in flight, the role transfers from blocks of open jobs only and
answers with success only what it has written; no operation fails. -/
theorem reaches_blocksOpen (peerId : PeerId) (h : Run.Reaches step Safe (start (K := K) peerId) s) :
    s.BlocksOpen ∧ ∀ op, s.Safe op → ∃ s', s.step op = .ok s' ∧ s.AnswersRight s' := by
  have hinv : s.Inv := by
    refine h.invariant (start_inv peerId) fun s op s' ⟨writes, inv⟩ hsafe hstep => ?_
    obtain ⟨s₁, writes', hs₁, inv'⟩ := step_serving inv op hsafe
    rw [hstep] at hs₁
    cases hs₁
    exact ⟨writes', inv'.rebase⟩
  obtain ⟨writes, inv⟩ := hinv
  refine ⟨blocksOpen_of_inv inv, fun op hsafe => ?_⟩
  obtain ⟨s', writes', hs', inv'⟩ := step_serving inv op hsafe
  exact ⟨s', hs', inv'.role.answers⟩

def storeAndFetch : List (Op Nat) :=
  [.connect, .addStoredBlocks 5 [(7, 3)] 0 0, .fetch 5 [(7, 1)]]

theorem reaches_blocksOpen_storeAndFetch :
    ∃ s, Run.run step (start 1) storeAndFetch = .ok s ∧ s.BlocksOpen ∧
      s.serving.transport.inflight.keys = [0] := by
  have hstart : Run.Reaches step Safe (start (K := Nat) 1) (start 1) := .start
  have hconnected := hstart.next Op.connect trivial rfl
  have hstored := hconnected.next (Op.addStoredBlocks 5 [(7, 3)] 0 0) not_mem_nil rfl
  have hfetched := hstored.next (Op.fetch 5 [(7, 1)]) (fun tid xfer h => by
    have hnone : (none : Option InflightXfer) = some xfer := h
    cases hnone) rfl
  exact ⟨_, rfl, (reaches_blocksOpen 1 hfetched).1, rfl⟩

/-- The job times out before the fetch: the transfer is from a block of a job that was reported
already. And a request that is fetched again while a transfer of an aborted fetch is in flight is
answered with success, though its key was never stored. -/
theorem collectResults_released :
    (Run.run step (start 1)
        [.connect, .addStoredBlocks 5 [(7, 3)] 0 0, .collectResults 30000 (fun _ => .proc),
          .fetch 5 [(7, 1)]]).map (fun s =>
        (s.ledger.reported, s.serving.transport.inflight.entries.map (·.2.localIdxs))) =
      .ok ([0], [[3]]) ∧
    (Run.run step (start 1) [.connect, .addStoredBlocks 5 [(7, 3)] 0 0, .fetch 5 [(7, 1)],
          .abortFetch 0 (fun _ => true) 5, .fetch 5 [(8, 2)],
          .collectResults 0 (fun _ => .done)]).map (fun s => s.serving.role.sent) =
      .ok [.transferDone 5 true] :=
  ⟨rfl, rfl⟩

end ServerRun
end Vllm.Offload.P2P
