import Vllm.Offload.P2P.ServerBlocks

/-! The store jobs of a server role: each is open or has a result that waits, until it is
reported. -/
namespace Vllm.Offload.P2P
open List Function Dict ServerRole AList

variable {tid : TransferId} {xfer : InflightXfer}

namespace ServerRole

variable {K : Type} {r : ServerRole K}

def jobs (r : ServerRole K) : Multiset JobId :=
  (r.storeJobs.keys : Multiset JobId) + (r.pendingStoreResults.map (·.jobId) : List JobId)

def resultJobs (results : List StoreResult) : Multiset JobId :=
  (results.map (·.jobId) : List JobId)

@[simp] theorem resultJobs_append (xs ys : List StoreResult) :
    resultJobs (xs ++ ys) = resultJobs xs + resultJobs ys := by
  rw [resultJobs, map_append]
  rfl

def flight (r : ServerRole K) (kv : KvRequestId) : Nat :=
  ((r.inflight.entries.filter (·.2.kvRequestId = kv)).map (·.2.blockCount)).sum

theorem flight_add (hnew : tid ∉ r.inflight) (xfer : InflightXfer) (kv : KvRequestId) :
    (r.inflightAdd tid xfer).flight kv =
      (if xfer.kvRequestId = kv then xfer.blockCount else 0) + r.flight kv := by
  have hperm := ((entries_setItem_perm r.inflight tid xfer).filter
    fun e => decide (e.2.kvRequestId = kv)).map (·.2.blockCount)
  refine hperm.sum_nat.trans ?_
  rw [erase_of_notMem hnew]
  simp only [flight, filter_cons, decide_eq_true_eq]
  split
  · rw [map_cons, sum_cons]
  · rw [Nat.zero_add]

theorem flight_pop (hlookup : r.inflight.lookup tid = some xfer) (kv : KvRequestId) :
    r.flight kv = (if xfer.kvRequestId = kv then xfer.blockCount else 0) +
      (r.inflightPop tid).2.flight kv := by
  have hperm := ((entries_perm hlookup).filter
    fun e => decide (e.2.kvRequestId = kv)).map (·.2.blockCount)
  have hpop : (r.inflightPop tid).2.flight kv =
      (((r.inflight.erase tid).entries.filter (·.2.kvRequestId = kv)).map (·.2.blockCount)).sum := by
    rw [flight, inflight_inflightPop]
  rw [hpop]
  refine hperm.sum_nat.trans ?_
  simp only [filter_cons, decide_eq_true_eq]
  split
  · rw [map_cons, sum_cons]
  · rw [Nat.zero_add]

theorem jobs_inflightPop (r : ServerRole K) (tid : TransferId) :
    (r.inflightPop tid).2.jobs = r.jobs := by
  unfold inflightPop
  split <;> rfl

theorem expiredJobs_sublist (r : ServerRole K) (now : Time) :
    (r.expiredJobs now).Sublist r.storeJobs.keys :=
  (filter_sublist).map _

end ServerRole

namespace OutboundRequestState

variable {K : Type} [DecidableEq K]

theorem matchStored_pendingJobIds (jobId : JobId) (blocks : List (K × Nat))
    (req : OutboundRequestState K) :
    (matchStored jobId blocks req).2.pendingJobIds = req.pendingJobIds := by
  induction blocks generalizing req with
  | nil => rfl
  | cons block blocks ih =>
    rw [matchStored]
    split
    · exact ih _
    · exact ih _

variable (req : OutboundRequestState K) (blocks : List (K × Nat))

theorem addStoredBlocks_pendingJobIds (jobId : JobId) :
    (req.addStoredBlocks blocks jobId).2.pendingJobIds = req.pendingJobIds.insert jobId :=
  matchStored_pendingJobIds jobId blocks _

theorem matchDemand_available (req : OutboundRequestState K) (key : K)
    (entry : JobId × Nat) (h : (matchDemand blocks req).2.available.lookup key = some entry) :
    req.available.lookup key = some entry := by
  induction blocks generalizing req with
  | nil => exact h
  | cons block blocks ih =>
    obtain ⟨key', remoteIdx⟩ := block
    rw [matchDemand] at h
    split at h
    · exact (lookup_erase_iff.mp (ih _ h)).2
    · exact ih { req with demanded := req.demanded.insert key' remoteIdx } h

theorem addFetchDemand_available (key : K)
    (entry : JobId × Nat) (h : (req.addFetchDemand blocks).2.available.lookup key = some entry) :
    req.available.lookup key = some entry :=
  matchDemand_available blocks { req with demandReceived := true, remaining := blocks.length } key
    entry h

end OutboundRequestState

section
variable {K : Type} [DecidableEq K] {jobId : JobId}

/-- The jobs that a request still reports are open; what is in flight, over but not counted
(`owed`), or waits for supply remains to be transferred. -/
structure RequestOk (home : JobId → Option KvRequestId) (owed : Nat) (r : ServerRole K)
    (kv : KvRequestId) (req : OutboundRequestState K) : Prop where
  nodup : req.pendingJobIds.Nodup
  pending : ∀ jobId ∈ req.pendingJobIds, jobId ∈ r.storeJobs ∧ home jobId = some kv
  available : ∀ key entry, req.available.lookup key = some entry → home entry.1 = some kv
  room : req.demandReceived = true → owed + r.flight kv + req.unmet.length ≤ req.remaining
  idle : req.demandReceived = false → req.unmet = []

/-- The store jobs of a role: `home` says for which request each one was added. -/
structure JobsInv (home : JobId → Option KvRequestId) (owed : KvRequestId → Nat)
    (r : ServerRole K) : Prop where
  counted : r.Counted
  opened : ∀ jobId ∈ r.storeJobs, (home jobId).isSome
  carried : ∀ tid xfer, r.inflight.lookup tid = some xfer → ∀ jobId ∈ xfer.jobIds,
    home jobId = some xfer.kvRequestId
  requests : ∀ {kv req}, r.outbound.lookup kv = some req → RequestOk home (owed kv) r kv req

namespace JobsInv

variable {home : JobId → Option KvRequestId} {owed : KvRequestId → Nat} {r : ServerRole K}
  {kv : KvRequestId}

section
variable (inv : JobsInv home owed r)
include inv

theorem eraseOutbound (kv : KvRequestId) :
    JobsInv home owed { r with outbound := r.outbound.erase kv } :=
  { inv with requests := fun h => { inv.requests (lookup_erase_iff.mp h).2 with } }

theorem setOutbound (kv : KvRequestId) (pairs : Nat) (req : OutboundRequestState K)
    (hreq : RequestOk home pairs r kv req) : JobsInv home (update owed kv pairs)
      { r with outbound := r.outbound.insert kv req } := by
  refine { inv with requests := fun {kv' req'} h => ?_ }
  rcases lookup_insert_iff.mp h with ⟨rfl, rfl⟩ | ⟨hne, h⟩
  · rw [update_self]
    exact { hreq with }
  · rw [update_of_ne hne]
    exact { inv.requests h with }

theorem replace (kv : KvRequestId) (req : OutboundRequestState K)
    (hreq : RequestOk home (owed kv) r kv req) :
    JobsInv home owed { r with outbound := r.outbound.insert kv req } := by
  have hset := inv.setOutbound kv _ req hreq
  rw [update_eq_self] at hset
  exact hset

theorem retire (storeJobs : Dict JobId Time)
    (results : List StoreResult) (hsub : ∀ jobId ∈ storeJobs, jobId ∈ r.storeJobs)
    (hkeep : ∀ kv req, r.outbound.lookup kv = some req → ∀ jobId ∈ req.pendingJobIds,
      jobId ∈ storeJobs) : JobsInv home owed { r with storeJobs, pendingStoreResults := results } :=
  { inv with
    opened := fun jobId h => inv.opened jobId (hsub jobId h)
    requests := fun h => { inv.requests h with pending := fun jobId hjob =>
      ⟨hkeep _ _ h jobId hjob, ((inv.requests h).pending jobId hjob).2⟩ } }

theorem setSent (sent : List (Message K)) : JobsInv home owed { r with sent } :=
  { inv with requests := fun h => { inv.requests h with } }

theorem setAborts (pendingAborts : Dict KvRequestId Time) :
    JobsInv home owed { r with pendingAborts } :=
  { inv with requests := fun h => { inv.requests h with } }

theorem dropOwed : JobsInv home (fun _ => 0) r :=
  { inv with
    requests := fun h =>
      { inv.requests h with
        room := fun hdemand => by
          have := (inv.requests h).room hdemand
          omega } }

theorem finalizeOutbound (kv : KvRequestId) (success : Option Bool) :
    JobsInv home owed (r.finalizeOutbound kv success) ∧
      (r.finalizeOutbound kv success).jobs = r.jobs := by
  unfold ServerRole.finalizeOutbound
  cases hlookup : r.outbound.lookup kv with
  | none => exact ⟨inv, rfl⟩
  | some req =>
    have hpending := (inv.requests hlookup).pending
    refine ⟨?_, ?_⟩
    · refine setSent (retire (inv.eraseOutbound kv) _ _ (fun jobId h => ?_) ?_) _
      · exact (mem_eraseAll.mp h).2
      · intro kv' req' h jobId hjob
        obtain ⟨hne, h⟩ := lookup_erase_iff.mp h
        obtain ⟨hopen, hhome⟩ := (inv.requests h).pending jobId hjob
        refine mem_eraseAll.mpr ⟨fun hmem => hne ?_, hopen⟩
        exact Option.some.inj (hhome.symm.trans (hpending jobId hmem).2)
    · have hperm := keys_eraseAll_perm (inv.requests hlookup).nodup
        fun jobId h => (hpending jobId h).1
      have hkeys : (r.storeJobs.keys : Multiset JobId) = (req.pendingJobIds : Multiset JobId) +
          ((eraseAll r.storeJobs req.pendingJobIds).keys : List JobId) := by
        exact Multiset.coe_eq_coe.mpr hperm.symm
      simp only [jobs, map_append, map_map, comp_def, map_id', ← Multiset.coe_add, hkeys]
      abel

theorem submitFailed (kv : KvRequestId) :
    JobsInv home owed (r.submitFailed kv) ∧ (r.submitFailed kv).jobs = r.jobs := by
  refine submitFailed_rule (P := fun r' => JobsInv home owed r' ∧ r'.jobs = r.jobs)
    ⟨inv, rfl⟩ (fun _ h => ⟨inv.replace kv _ { inv.requests h with }, rfl⟩) fun h _ => ?_
  exact ⟨(h.1.finalizeOutbound kv _).1, (h.1.finalizeOutbound kv _).2.trans h.2⟩

theorem finish (kv : KvRequestId) : JobsInv home owed (r.finish kv) ∧ (r.finish kv).jobs = r.jobs := by
  unfold ServerRole.finish
  cases hlookup : r.outbound.lookup kv with
  | none => exact ⟨inv, rfl⟩
  | some req =>
    have hset := inv.replace kv { req with finishing := true }
      { inv.requests hlookup with }
    simp only
    split
    · exact ⟨hset, rfl⟩
    · split
      · exact ⟨hset, rfl⟩
      · exact hset.finalizeOutbound kv none

end

theorem reportJob {acc : List StoreResult × ServerRole K} (inv : JobsInv home owed acc.2)
    (success : Bool) (hhome : home jobId = some kv) :
    let acc' := ServerRole.reportJob kv success acc jobId
    JobsInv home owed acc'.2 ∧ resultJobs acc'.1 + acc'.2.jobs =
      resultJobs acc.1 + acc.2.jobs := by
  unfold ServerRole.reportJob
  split
  · rename_i hopen
    refine ⟨?_, ?_⟩
    · have hother : ∀ kv' req, acc.2.outbound.lookup kv' = some req → kv' ≠ kv →
          ∀ jobId' ∈ req.pendingJobIds, jobId' ∈ acc.2.storeJobs.erase jobId := by
        intro kv' req h hne jobId' hjob
        obtain ⟨hopen', hhome'⟩ := (inv.requests h).pending jobId' hjob
        refine mem_erase.mpr ⟨fun heq => hne ?_, hopen'⟩
        rw [heq, hhome] at hhome'
        exact (Option.some.inj hhome').symm
      cases hlookup : acc.2.outbound.lookup kv with
      | none =>
        refine inv.retire _ _ (fun jobId' h => (mem_erase.mp h).2) fun kv' req h => ?_
        refine hother kv' req h fun heq => ?_
        rw [heq, hlookup] at h
        cases h
      | some req =>
        have hset := inv.replace kv
          { req with pendingJobIds := req.pendingJobIds.filter (· ≠ jobId) }
          { inv.requests hlookup with
            nodup := (inv.requests hlookup).nodup.filter _
            pending := fun jobId' h => (inv.requests hlookup).pending jobId' (mem_filter.mp h).1 }
        refine hset.retire (acc.2.storeJobs.erase jobId) acc.2.pendingStoreResults
          (fun jobId' h => (mem_erase.mp h).2) fun kv' req' h jobId' hjob => ?_
        rcases lookup_insert_iff.mp h with ⟨-, rfl⟩ | ⟨hne, h⟩
        · obtain ⟨hmem, hne⟩ := mem_filter.mp hjob
          exact mem_erase.mpr ⟨of_decide_eq_true hne, ((inv.requests hlookup).pending jobId' hmem).1⟩
        · exact hother kv' req' h hne jobId' hjob
    · have hkeys : (acc.2.storeJobs.keys : Multiset JobId) =
          {jobId} + ((acc.2.storeJobs.erase jobId).keys : List JobId) := by
        rw [keys_erase]
        exact (Multiset.cons_erase (AList.mem_keys.mp hopen)).symm
      rw [resultJobs_append]
      simp only [jobs, hkeys]
      rw [show resultJobs [(⟨jobId, success⟩ : StoreResult)] = {jobId} from rfl]
      abel
  · exact ⟨inv, rfl⟩

theorem reportJobs (kv : KvRequestId) (success : Bool) (jobIds : List JobId)
    (acc : List StoreResult × ServerRole K) (inv : JobsInv home owed acc.2)
    (hhome : ∀ jobId ∈ jobIds, home jobId = some kv) :
    let acc' := jobIds.foldl (ServerRole.reportJob kv success) acc
    JobsInv home owed acc'.2 ∧ resultJobs acc'.1 + acc'.2.jobs =
      resultJobs acc.1 + acc.2.jobs := by
  induction jobIds generalizing acc with
  | nil => exact ⟨inv, rfl⟩
  | cons jobId jobIds ih =>
    obtain ⟨hinv, hjobs⟩ := inv.reportJob success (hhome jobId mem_cons_self)
    obtain ⟨hinv', hjobs'⟩ := ih (ServerRole.reportJob kv success acc jobId) hinv
      fun jobId' h => hhome jobId' (mem_cons_of_mem _ h)
    exact ⟨hinv', hjobs'.trans hjobs⟩

theorem pop (inv : JobsInv home (fun _ => 0) r) (hlookup : r.inflight.lookup tid = some xfer) :
    JobsInv home (update (fun _ => 0) xfer.kvRequestId xfer.blockCount) (r.inflightPop tid).2 := by
  have hpop : (r.inflightPop tid).2 = { r with
      inflight := (r.inflightPop tid).2.inflight
      inflightPerReq := (r.inflightPop tid).2.inflightPerReq } := by
    rw [inflightPop, hlookup]
  rw [hpop]
  exact { inv with
    counted := by
      exact inv.counted.pop tid
    carried := fun tid' xfer' h => by
      simp only [inflight_inflightPop] at h
      exact inv.carried tid' xfer' (lookup_erase_iff.mp h).2
    requests := fun {kv req} h => by
      refine { inv.requests h with room := fun hdemand => ?_ }
      have hroom := (inv.requests h).room hdemand
      rw [flight_pop hlookup kv] at hroom
      rw [← hpop]
      by_cases hkv : xfer.kvRequestId = kv
      · subst hkv
        rw [if_pos rfl] at hroom
        rw [update_self]
        omega
      · rw [update_of_ne (Ne.symm hkv)]
        omega }

theorem popOne (inv : JobsInv home (fun _ => 0) r) (tid : TransferId) :
    JobsInv home (fun _ => 0) (r.inflightPop tid).2 := by
  cases hlookup : r.inflight.lookup tid with
  | none =>
    rw [inflightPop, hlookup]
    exact inv
  | some xfer => exact (inv.pop hlookup).dropOwed

theorem popAll (tids : List TransferId) (inv : JobsInv home (fun _ => 0) r) :
    JobsInv home (fun _ => 0) (r.popAll tids) ∧ (r.popAll tids).jobs = r.jobs := by
  induction tids generalizing r with
  | nil => exact ⟨inv, rfl⟩
  | cons tid tids ih =>
    obtain ⟨hinv, hjobs⟩ := ih (inv.popOne tid)
    exact ⟨hinv, hjobs.trans (jobs_inflightPop r tid)⟩

theorem countDone
    (inv : JobsInv home (update (fun _ => 0) xfer.kvRequestId xfer.blockCount) r) :
    ∃ r', r.countDone xfer = .ok r' ∧ JobsInv home (fun _ => 0) r' ∧ r'.jobs = r.jobs := by
  unfold ServerRole.countDone
  cases hlookup : r.outbound.lookup xfer.kvRequestId with
  | none => exact ⟨r, rfl, inv.dropOwed, rfl⟩
  | some req =>
    simp only
    split
    · exact ⟨r, rfl, inv.dropOwed, rfl⟩
    rename_i hreceived
    have hroom := (inv.requests hlookup).room (eq_true_of_ne_false hreceived)
    rw [update_self] at hroom
    rw [if_neg (by omega)]
    have hset := (inv.setOutbound _ 0 { req with remaining := req.remaining - xfer.blockCount }
      { inv.requests hlookup with
        room := fun _ => by
          show 0 + r.flight xfer.kvRequestId + req.unmet.length ≤ req.remaining - xfer.blockCount
          omega }).dropOwed
    split
    · exact ⟨_, rfl, hset.finalizeOutbound _ _⟩
    · split
      · exact ⟨_, rfl, hset.finalizeOutbound _ _⟩
      · exact ⟨_, rfl, hset, rfl⟩

theorem dropFailed (inv : JobsInv home owed r) (kv : KvRequestId) :
    JobsInv home owed (r.dropFailed kv) ∧ (r.dropFailed kv).jobs = r.jobs := by
  unfold ServerRole.dropFailed
  cases r.outbound.lookup kv with
  | none => exact ⟨inv, rfl⟩
  | some req => exact ⟨(inv.eraseOutbound kv).setSent _, rfl⟩

theorem onDone (tids : List TransferId) (acc : List StoreResult × ServerRole K)
    (inv : JobsInv home (fun _ => 0) acc.2) :
    ∃ acc', onDone tids acc = .ok acc' ∧ JobsInv home (fun _ => 0) acc'.2 ∧
      resultJobs acc'.1 + acc'.2.jobs = resultJobs acc.1 + acc.2.jobs := by
  refine onDone_succeeds (P := fun acc' => JobsInv home (fun _ => 0) acc'.2 ∧
    resultJobs acc'.1 + acc'.2.jobs = resultJobs acc.1 + acc.2.jobs) tids ⟨inv, rfl⟩ ?_
  intro results r xfer tid _ ⟨inv, hsum⟩ hlookup
  obtain ⟨hreported, hjobs⟩ := reportJobs xfer.kvRequestId true xfer.jobIds
    (results, (r.inflightPop tid).2) (inv.pop hlookup) (inv.carried tid xfer hlookup)
  obtain ⟨r', hcount, hinv, hsame⟩ := hreported.countDone
  refine ⟨r', hcount, hinv, ?_⟩
  simp only [hsame, hjobs, jobs_inflightPop]
  exact hsum

theorem onFailed (tids : List TransferId) (failedIds : List KvRequestId)
    (acc : List StoreResult × ServerRole K) (inv : JobsInv home (fun _ => 0) acc.2) :
    let acc' := (onFailed tids failedIds acc).2
    JobsInv home (fun _ => 0) acc'.2 ∧
      resultJobs acc'.1 + acc'.2.jobs = resultJobs acc.1 + acc.2.jobs := by
  refine onFailed_rule (P := fun acc' => JobsInv home (fun _ => 0) acc'.2 ∧
    resultJobs acc'.1 + acc'.2.jobs = resultJobs acc.1 + acc.2.jobs) tids failedIds ⟨inv, rfl⟩ ?_
  intro results r tid xfer ⟨inv, hsum⟩ hlookup
  obtain ⟨hreported, hjobs⟩ := reportJobs xfer.kvRequestId false xfer.jobIds
    (results, (r.inflightPop tid).2) (inv.pop hlookup).dropOwed (inv.carried tid xfer hlookup)
  obtain ⟨hdropped, hsame⟩ := hreported.dropFailed xfer.kvRequestId
  refine ⟨hdropped, ?_⟩
  simp only [hsame, hjobs, jobs_inflightPop]
  exact hsum

/-- The timeouts, if no request still reports a job that expires. -/
theorem surface (inv : JobsInv home owed r) (now : Time)
    (hexpired : ∀ kv req, r.outbound.lookup kv = some req → ∀ jobId ∈ req.pendingJobIds,
      jobId ∉ r.expiredJobs now) :
    JobsInv home owed (r.surface now).2 ∧
      resultJobs (r.surface now).1 + (r.surface now).2.jobs = r.jobs := by
  have hsub := expiredJobs_sublist r now
  refine ⟨?_, ?_⟩
  · refine inv.retire _ _ (fun jobId h => (mem_eraseAll.mp h).2) fun kv req h jobId hjob => ?_
    exact mem_eraseAll.mpr ⟨hexpired kv req h jobId hjob, ((inv.requests h).pending jobId hjob).1⟩
  · have hperm := keys_eraseAll_perm (r.storeJobs.keys_nodup.sublist hsub)
      fun jobId h => AList.mem_keys.mpr (hsub.subset h)
    have hkeys : (r.storeJobs.keys : Multiset JobId) = (r.expiredJobs now : Multiset JobId) +
        ((eraseAll r.storeJobs (r.expiredJobs now)).keys : List JobId) := by
      exact Multiset.coe_eq_coe.mpr hperm.symm
    simp only [ServerRole.surface, timeoutPendingStoreJobs, jobs, hkeys, resultJobs, map_append,
      ← Multiset.coe_add, map_map, comp_def, map_id', map_nil, Multiset.coe_nil, add_zero]
    abel

theorem add {blockCount : Nat} {jobIds : List JobId}
    (inv : JobsInv home (update (fun _ => 0) kv blockCount) r) (hnew : tid ∉ r.inflight)
    (hjobs : ∀ jobId ∈ jobIds, home jobId = some kv) :
    JobsInv home (fun _ => 0) (r.inflightAdd tid ⟨kv, blockCount, jobIds⟩) := by
  refine { inv with
    counted := inv.counted.add hnew _
    carried := ?_
    requests := fun {kv' req} h => { inv.requests h with room := fun hdemand => ?_ } }
  · intro tid' xfer h
    rcases lookup_setItem_iff.mp h with ⟨-, rfl⟩ | ⟨-, h⟩
    · exact hjobs
    · exact inv.carried tid' xfer h
  · have hroom := (inv.requests h).room hdemand
    rw [flight_add hnew]
    by_cases hkv : kv = kv'
    · subst hkv
      rw [update_self] at hroom
      simp only [if_true]
      omega
    · rw [if_neg hkv]
      omega

theorem openJob (inv : JobsInv home owed r) (now : Time) (hhome : home jobId = some kv) :
    JobsInv home owed { r with storeJobs := r.storeJobs.setItem jobId now } := by
  refine { inv with
    opened := fun jobId' h => ?_
    requests := fun h => { inv.requests h with pending := fun jobId' hjob =>
      ((inv.requests h).pending jobId' hjob).imp_left fun h => mem_setItem.mpr (.inr h) } }
  rcases mem_setItem.mp h with rfl | h
  · rw [hhome]
    rfl
  · exact inv.opened jobId' h

theorem mono (inv : JobsInv home owed r) {home' : JobId → Option KvRequestId}
    (hhome : ∀ jobId kv, home jobId = some kv → home' jobId = some kv) :
    JobsInv home' owed r := by
  refine ⟨inv.counted, fun jobId h => ?_,
    fun tid xfer h jobId hjob => hhome _ _ (inv.carried tid xfer h jobId hjob), fun h =>
      { inv.requests h with
        pending := fun jobId hjob => ((inv.requests h).pending jobId hjob).imp_right (hhome _ _)
        available := fun key entry h' => hhome _ _ ((inv.requests h).available key entry h') }⟩
  obtain ⟨kv, hkv⟩ := Option.isSome_iff_exists.mp (inv.opened jobId h)
  rw [hhome jobId kv hkv]
  rfl

theorem start (peerId : PeerId) : JobsInv home owed ({ peerId } : ServerRole K) where
  counted _ := ⟨rfl, nofun⟩
  opened jobId h := absurd h (notMem_empty jobId)
  carried := nofun
  requests := nofun

end JobsInv

/-! ### With the transport -/

structure ServingJobs (home : JobId → Option KvRequestId) (s : Serving K) : Prop where
  role : JobsInv home (fun _ => 0) s.role
  fresh : ∀ tid ∈ s.role.inflight, tid < s.transport.nextId

/-- `s` becomes `s'` and hands out results of `jobs`. -/
structure Accounts (home : JobId → Option KvRequestId) (s : Serving K) (jobs : Multiset JobId)
    (s' : Serving K) : Prop where
  inv : ServingJobs home s'
  nextId : s.transport.nextId ≤ s'.transport.nextId
  jobs : jobs + s'.role.jobs = s.role.jobs

namespace ServingJobs

variable {home : JobId → Option KvRequestId} {s s' s'' : Serving K} {kv : KvRequestId}

theorem refl (inv : ServingJobs home s) : Accounts home s 0 s :=
  ⟨inv, le_refl _, zero_add _⟩

theorem trans {jobs jobs' : Multiset JobId} (h : Accounts home s jobs s')
    (h' : Accounts home s' jobs' s'') : Accounts home s (jobs + jobs') s'' :=
  ⟨h'.inv, h.nextId.trans h'.nextId, by rw [add_assoc, h'.jobs, h.jobs]⟩

theorem fresh_nextId (inv : ServingJobs home s) : s.transport.nextId ∉ s.role.inflight :=
  fun h => Nat.lt_irrefl _ (inv.fresh _ h)

theorem submitTransfer (result : MatchResult)
    (role : JobsInv home (update (fun _ => 0) kv result.localIdxs.length) s.role)
    (fresh : ∀ tid ∈ s.role.inflight, tid < s.transport.nextId)
    (hjobs : ∀ jobId ∈ result.jobIds, home jobId = some kv) :
    Accounts home s 0 (s.submitTransfer kv result) := by
  unfold Serving.submitTransfer NixlTransport.writeBlocks
  by_cases hpeer : s.role.peerId ∈ s.transport.remoteDlists
  · simp only [if_pos hpeer]
    have hnew : s.transport.nextId ∉ s.role.inflight := fun h => Nat.lt_irrefl _ (fresh _ h)
    refine ⟨⟨role.add hnew hjobs, fun tid h => ?_⟩, Nat.le_succ _, zero_add _⟩
    rcases mem_setItem.mp h with rfl | h
    · exact Nat.lt_succ_self _
    · exact Nat.lt_succ_of_lt (fresh tid h)
  · simp only [if_neg hpeer]
    obtain ⟨hrole, hjobs⟩ := role.dropOwed.submitFailed kv
    refine ⟨⟨hrole, fun tid h => ?_⟩, le_refl _, (zero_add _).trans hjobs⟩
    rw [inflight_submitFailed] at h
    exact fresh tid h

section
variable (inv : ServingJobs home s)
include inv

/-- The request of `kv`, or the fresh one that takes its place. -/
theorem request (kv : KvRequestId) :
    RequestOk home 0 s.role kv ((s.role.outbound.lookup kv).getD {}) := by
  cases hlookup : s.role.outbound.lookup kv with
  | none => exact ⟨nodup_nil, nofun, nofun, nofun, fun _ => rfl⟩
  | some req => exact inv.role.requests hlookup

theorem addStoredBlocks (blocks : List (K × Nat)) (now : Time) (hhome : home jobId = some kv)
    (hnew : jobId ∉ s.role.storeJobs) :
    let s' := s.addStoredBlocks kv blocks jobId now
    ServingJobs home s' ∧ s.transport.nextId ≤ s'.transport.nextId ∧
      s'.role.jobs = {jobId} + s.role.jobs := by
  have hok := inv.request kv
  unfold Serving.addStoredBlocks
  generalize (s.role.outbound.lookup kv).getD {} = req at hok ⊢
  have hpend := OutboundRequestState.addStoredBlocks_pendingJobIds req blocks jobId
  obtain ⟨ws, hresult, stored⟩ := req.addStoredBlocks_stored blocks jobId
  generalize req.addStoredBlocks blocks jobId = result at hresult stored hpend ⊢
  obtain ⟨result, req'⟩ := result
  simp only at hresult stored hpend ⊢
  have hlen := stored.unmet.length_eq
  rw [length_append, length_map] at hlen
  have hset := (inv.role.openJob now hhome).setOutbound kv ws.length req' ⟨?_, ?_, ?_, ?_, ?_⟩
  rotate_left
  · rw [hpend]
    exact hok.nodup.insert
  · intro jobId' hjob
    rcases stored.pending jobId' hjob with rfl | hjob
    · exact ⟨mem_setItem.mpr (.inl rfl), hhome⟩
    · exact (hok.pending jobId' hjob).imp_left fun h => mem_setItem.mpr (.inr h)
  · intro key entry h
    rcases stored.available key entry h with h | ⟨rfl, -⟩
    · exact hok.available key entry h
    · exact hhome
  · intro htrue
    have hle := hok.room (stored.demandReceived.symm.trans htrue)
    have hflight : ({ s.role with storeJobs := s.role.storeJobs.setItem jobId now } :
        ServerRole K).flight kv = s.role.flight kv := rfl
    rw [hflight, stored.remaining]
    omega
  · intro hfalse
    have hnil := stored.unmet
    rw [hok.idle (stored.demandReceived.symm.trans hfalse), perm_nil, append_eq_nil_iff] at hnil
    exact hnil.2
  have hjobs : ({ s.role with
      storeJobs := s.role.storeJobs.setItem jobId now
      outbound := s.role.outbound.insert kv req' } : ServerRole K).jobs = {jobId} + s.role.jobs := by
    simp only [jobs, keys_setItem_of_notMem hnew, ← Multiset.coe_add, Multiset.coe_singleton]
    abel
  split
  · have haccounts := submitTransfer (s := ⟨{ s.role with
        storeJobs := s.role.storeJobs.setItem jobId now
        outbound := s.role.outbound.insert kv req' }, s.transport⟩) result
      (by rw [hresult, length_map]; exact hset) inv.fresh ?_
    · refine ⟨haccounts.inv, haccounts.nextId, ?_⟩
      exact ((zero_add _).symm.trans haccounts.jobs).trans hjobs
    · intro jobId' hjob
      rw [hresult] at hjob
      split at hjob
      · cases hjob
      · rw [mem_singleton.mp hjob]
        exact hhome
  · exact ⟨⟨hset.dropOwed, inv.fresh⟩, le_refl _, hjobs⟩

theorem recordDemand (kv : KvRequestId) (blocks : List (K × Nat))
    (hfirst : ((s.role.outbound.lookup kv).getD {}).demandReceived = false)
    (hflight : s.role.flight kv = 0) :
    Accounts home s 0 (s.recordDemand kv blocks) := by
  have hok := inv.request kv
  unfold Serving.recordDemand
  generalize (s.role.outbound.lookup kv).getD {} = req at hok hfirst ⊢
  have havail := OutboundRequestState.addFetchDemand_available req blocks
  obtain ⟨ws, hresult, demanded⟩ := req.addFetchDemand_demanded blocks
  generalize req.addFetchDemand blocks = result at hresult demanded havail ⊢
  obtain ⟨result, req'⟩ := result
  simp only at hresult demanded havail ⊢
  have hlen := demanded.unmet.length_le
  have hunmet : ({ req with demandReceived := true, remaining := blocks.length } :
      OutboundRequestState K).unmet = req.unmet := rfl
  rw [hunmet, hok.idle hfirst, append_nil, length_append, length_map] at hlen
  have hset := inv.role.setOutbound kv ws.length req'
    { nodup := by rw [demanded.pending]; exact hok.nodup
      pending := by rw [demanded.pending]; exact hok.pending
      available := fun key entry h => hok.available key entry (havail key entry h)
      room := fun _ => by
        rw [hflight, demanded.remaining]
        omega
      idle := fun h => by
        rw [demanded.demandReceived] at h
        cases h }
  split
  · have haccounts := submitTransfer (s := ⟨{ s.role with
        outbound := s.role.outbound.insert kv req' }, s.transport⟩) result
      (by rw [hresult, length_map]; exact hset) inv.fresh ?_
    · exact { haccounts with }
    · intro jobId hjob
      rw [hresult] at hjob
      obtain ⟨x, hx, rfl⟩ := mem_map.mp (mem_dedup.mp hjob)
      exact hok.available x.key _ (demanded.source x hx)
  · exact ⟨⟨hset.dropOwed, inv.fresh⟩, le_refl _, zero_add _⟩

theorem onFetch {kv : KvRequestId} {blocks : List (K × Nat)}
    (hflight : s.role.flight kv = 0) (h : s.onFetch kv blocks = .ok s') :
    Accounts home s 0 s' := by
  refine Serving.onFetch_rule h (inv.recordDemand kv blocks · hflight) fun _ hrecord _ => ?_
  obtain ⟨hrole, hjobs⟩ := hrecord.inv.role.finalizeOutbound kv none
  refine ⟨⟨hrole, fun tid hmem => ?_⟩, hrecord.nextId, ?_⟩
  · rw [inflight_finalizeOutbound] at hmem
    exact hrecord.inv.fresh tid hmem
  · simp only [hjobs]
    exact hrecord.jobs

theorem popAll (tids : List TransferId) (transport : NixlTransport)
    (hnext : transport.nextId = s.transport.nextId) :
    Accounts home s 0 ⟨s.role.popAll tids, transport⟩ := by
  obtain ⟨hrole, hjobs⟩ := inv.role.popAll tids
  refine ⟨⟨hrole, fun tid hmem => ?_⟩, hnext.ge, (zero_add _).trans hjobs⟩
  simp only [inflight_popAll, mem_eraseAll] at hmem
  simp only [hnext]
  exact inv.fresh tid hmem.2

theorem finalizeAbort (kv : KvRequestId) : Accounts home s 0 { s with role := s.role.finalizeAbort kv } :=
  ⟨⟨(inv.role.setAborts (s.role.pendingAborts.erase kv)).setSent
    (s.role.sent ++ [Message.abortAck kv]), inv.fresh⟩, le_refl _, zero_add _⟩

variable (now : Time) (raises : TransferId → Bool)

theorem drainAbort (kv : KvRequestId) : Accounts home s 0 (s.drainAbort now raises kv) := by
  unfold Serving.drainAbort
  simp only
  have hdrop : Accounts home s 0
      { s with role := { s.role with outbound := s.role.outbound.erase kv } } :=
    ⟨⟨inv.role.eraseOutbound kv, inv.fresh⟩, le_refl _, zero_add _⟩
  split
  · exact trans hdrop (hdrop.inv.finalizeAbort kv)
  split
  · have hpop := hdrop.inv.popAll (inflightOf
      { s.role with outbound := s.role.outbound.erase kv } [kv])
      (s.transport.cancel (inflightOf
        { s.role with outbound := s.role.outbound.erase kv } [kv]) .immediate raises).2 rfl
    exact trans hdrop (trans hpop (hpop.inv.finalizeAbort kv))
  · generalize inflightOf { s.role with outbound := s.role.outbound.erase kv } [kv] = ids
    have hnext := NixlTransport.nextId_cancel (t := s.transport) ids .wait raises
    generalize s.transport.cancel ids .wait raises = cancelled at hnext ⊢
    have hpop := hdrop.inv.popAll (ids.filter (· ∉ cancelled.1)) _ hnext
    split
    · exact trans hdrop (trans hpop (hpop.inv.finalizeAbort kv))
    · exact trans hdrop hpop

theorem onAbortFetch (kv : KvRequestId) : Accounts home s 0 (s.onAbortFetch now raises kv) := by
  have hset (pendingAborts : Dict KvRequestId Time) :
      ServingJobs home { s with role := { s.role with pendingAborts } } :=
    ⟨inv.role.setAborts pendingAborts, inv.fresh⟩
  have hdrain := (hset (if kv ∈ s.role.pendingAborts then s.role.pendingAborts
    else s.role.pendingAborts.setItem kv now)).drainAbort now raises kv
  exact { hdrain with }

theorem drainPendingAborts : Accounts home s 0 (s.drainPendingAborts now raises) :=
  Serving.drainPendingAborts_rule (P := Accounts home s 0)
    (fun kv h => trans h (h.inv.drainAbort now raises kv)) inv.refl

theorem collectResults (check : TransferId → XferState)
    (hexpired : ∀ kv req, s.role.outbound.lookup kv = some req → ∀ jobId ∈ req.pendingJobIds,
      jobId ∉ s.role.expiredJobs now) :
    ∃ results s', s.collectResults now check = .ok (results, s') ∧
      Accounts home s (resultJobs results) s' := by
  obtain ⟨hsurface, hsurfaced⟩ := inv.role.surface now hexpired
  obtain ⟨acc, hdone, haccinv, haccjobs⟩ :=
    JobsInv.onDone (s.transport.poll check).1.done (s.role.surface now) hsurface
  obtain ⟨hfailinv, hfailjobs⟩ := JobsInv.onFailed (s.transport.poll check).1.failed [] acc haccinv
  have htable := (inflight_onFailed (s.transport.poll check).1.failed [] acc)
  have htable' := inflight_onDone _ hdone
  unfold Serving.collectResults
  simp only [hdone]
  generalize onFailed (s.transport.poll check).1.failed [] acc = out at *
  obtain ⟨failedIds, results, role⟩ := out
  simp only at hfailinv hfailjobs htable
  have hcollect : Accounts home s (resultJobs results) ⟨role, (s.transport.poll check).2⟩ := by
    refine ⟨⟨hfailinv, fun tid hmem => ?_⟩, le_refl _, ?_⟩
    · simp only [htable, htable', mem_eraseAll] at hmem
      exact inv.fresh tid hmem.2.2
    · exact hfailjobs.trans (haccjobs.trans hsurfaced)
  refine ⟨results, _, rfl, ?_⟩
  unfold Serving.cancelFailed
  split
  · exact hcollect
  have hpop := trans hcollect (hcollect.inv.popAll (role.inflightOf failedIds)
    ((s.transport.poll check).2.cancel (role.inflightOf failedIds) .immediate fun _ => false).2
    rfl)
  rw [add_zero] at hpop
  exact hpop

end

end ServingJobs
end
end Vllm.Offload.P2P
