import Vllm.Offload.P2P.Completions

/-! From which blocks a server role transfers: every block of a transfer in flight belongs to a
store job that was not reported, and a request is answered with success once all of its blocks
were written. -/
namespace Vllm.Offload.P2P
open List Dict Function ServerRole AList

/-! ### Matching supply and demand -/

/-- One block of a transfer, with the key it is for and the job it comes from. -/
structure Write (K : Type) where
  key : K
  localIdx : Nat
  remoteIdx : Nat
  jobId : JobId

def Write.demand {K : Type} (x : Write K) : K × Nat := (x.key, x.remoteIdx)

namespace OutboundRequestState

variable {K : Type} {req : OutboundRequestState K}

def unmet (req : OutboundRequestState K) : List (K × Nat) :=
  req.demanded.entries.map fun e => (e.1, e.2)

variable [DecidableEq K]

/-- What the matching of blocks of a job leaves of a request. -/
structure Stored (jobId : JobId) (blocks : List (K × Nat)) (req req' : OutboundRequestState K)
    (ws : List (Write K)) : Prop where
  demandReceived : req'.demandReceived = req.demandReceived
  remaining : req'.remaining = req.remaining
  pending : ∀ j ∈ req'.pendingJobIds, j = jobId ∨ j ∈ req.pendingJobIds
  source : ∀ x ∈ ws, x.jobId = jobId ∧ (x.key, x.localIdx) ∈ blocks
  unmet : (ws.map Write.demand ++ req'.unmet).Perm req.unmet
  available : ∀ key v, req'.available.lookup key = some v →
    req.available.lookup key = some v ∨ (v.1 = jobId ∧ (key, v.2) ∈ blocks)

theorem matchStored_stored (jobId : JobId) (blocks : List (K × Nat))
    (req : OutboundRequestState K) :
    ∃ ws : List (Write K), (matchStored jobId blocks req).1 =
        ws.map (fun x => (x.localIdx, x.remoteIdx)) ∧
      Stored jobId blocks req (matchStored jobId blocks req).2 ws := by
  induction blocks generalizing req with
  | nil => exact ⟨[], rfl, ⟨rfl, rfl, fun _ h => .inr h, nofun, .refl _, fun _ _ h => .inl h⟩⟩
  | cons block blocks ih =>
    obtain ⟨key, localIdx⟩ := block
    rw [matchStored]
    cases hlookup : req.demanded.lookup key with
    | some remoteIdx =>
      obtain ⟨ws, hpairs, stored⟩ := ih { req with demanded := req.demanded.erase key }
      refine ⟨⟨key, localIdx, remoteIdx, jobId⟩ :: ws, ?_, stored.demandReceived,
        stored.remaining, stored.pending, ?_, ?_, ?_⟩
      · simp only [hpairs, map_cons]
      · intro x hx
        rcases mem_cons.mp hx with rfl | hx
        · exact ⟨rfl, mem_cons_self⟩
        · exact ⟨(stored.source x hx).1, mem_cons_of_mem _ (stored.source x hx).2⟩
      · have hentries := (entries_perm hlookup).map fun e => (e.1, e.2)
        exact ((stored.unmet.cons _).trans hentries.symm)
      · intro k v hv
        exact (stored.available k v hv).imp_right fun h =>
          ⟨h.1, mem_cons_of_mem _ h.2⟩
    | none =>
      obtain ⟨ws, hpairs, stored⟩ :=
        ih { req with available := req.available.insert key (jobId, localIdx) }
      refine ⟨ws, hpairs, stored.demandReceived, stored.remaining, stored.pending, ?_,
        stored.unmet, ?_⟩
      · exact fun x hx =>
          ⟨(stored.source x hx).1, mem_cons_of_mem _ (stored.source x hx).2⟩
      · intro k v hv
        rcases stored.available k v hv with h | ⟨hjob, hmem⟩
        · rcases lookup_insert_iff.mp h with ⟨rfl, rfl⟩ | ⟨-, h⟩
          · exact .inr ⟨rfl, mem_cons_self⟩
          · exact .inl h
        · exact .inr ⟨hjob, mem_cons_of_mem _ hmem⟩

theorem addStoredBlocks_stored (req : OutboundRequestState K) (blocks : List (K × Nat))
    (jobId : JobId) :
    ∃ ws : List (Write K), (req.addStoredBlocks blocks jobId).1 =
        ⟨ws.map (·.localIdx), ws.map (·.remoteIdx), if ws = [] then [] else [jobId]⟩ ∧
      Stored jobId blocks req (req.addStoredBlocks blocks jobId).2 ws := by
  obtain ⟨ws, hpairs, stored⟩ := matchStored_stored jobId blocks
    { req with pendingJobIds := req.pendingJobIds.insert jobId }
  refine ⟨ws, ?_, stored.demandReceived, stored.remaining, fun j hj => ?_, stored.source,
    stored.unmet, stored.available⟩
  · simp only [addStoredBlocks, hpairs, map_map, map_eq_nil_iff]
    rfl
  · rcases stored.pending j hj with hj | hj
    · exact .inl hj
    · exact mem_insert_iff.mp hj

/-- What the matching of a fetch leaves of a request. -/
structure Demanded (blocks : List (K × Nat)) (req req' : OutboundRequestState K)
    (ws : List (Write K)) : Prop where
  demandReceived : req'.demandReceived = req.demandReceived
  remaining : req'.remaining = req.remaining
  pending : req'.pendingJobIds = req.pendingJobIds
  source : ∀ x ∈ ws, req.available.lookup x.key = some (x.jobId, x.localIdx)
  unmet : (ws.map Write.demand ++ req'.unmet).Subperm (blocks ++ req.unmet)

theorem unmet_insert_subperm (req : OutboundRequestState K) (key : K) (remoteIdx : Nat) :
    ({ req with demanded := req.demanded.insert key remoteIdx } :
        OutboundRequestState K).unmet.Subperm ((key, remoteIdx) :: req.unmet) := by
  refine (subperm_cons _).mpr ?_
  exact ((kerase_sublist key req.demanded.entries).map fun e => (e.1, e.2)).subperm

theorem matchDemand_demanded (blocks : List (K × Nat)) (req : OutboundRequestState K) :
    ∃ ws : List (Write K), (matchDemand blocks req).1 =
        ws.map (fun x => (x.jobId, x.localIdx, x.remoteIdx)) ∧
      Demanded blocks req (matchDemand blocks req).2 ws := by
  induction blocks generalizing req with
  | nil => exact ⟨[], rfl, ⟨rfl, rfl, rfl, nofun, .refl _⟩⟩
  | cons block blocks ih =>
    obtain ⟨key, remoteIdx⟩ := block
    rw [matchDemand]
    cases hlookup : req.available.lookup key with
    | some entry =>
      obtain ⟨jobId, localIdx⟩ := entry
      obtain ⟨ws, hpairs, demanded⟩ := ih { req with available := req.available.erase key }
      refine ⟨⟨key, localIdx, remoteIdx, jobId⟩ :: ws, ?_, demanded.demandReceived,
        demanded.remaining, demanded.pending, ?_, ?_⟩
      · simp only [hpairs, map_cons]
      · intro x hx
        rcases mem_cons.mp hx with rfl | hx
        · exact hlookup
        · exact (lookup_erase_iff.mp (demanded.source x hx)).2
      · exact (subperm_cons _).mpr demanded.unmet
    | none =>
      obtain ⟨ws, hpairs, demanded⟩ := ih { req with demanded := req.demanded.insert key remoteIdx }
      refine ⟨ws, hpairs, demanded.demandReceived, demanded.remaining, demanded.pending,
        demanded.source, demanded.unmet.trans ?_⟩
      refine ((subperm_append_left blocks).mpr (unmet_insert_subperm req key remoteIdx)).trans ?_
      exact perm_middle.subperm

theorem addFetchDemand_demanded (req : OutboundRequestState K) (blocks : List (K × Nat)) :
    ∃ ws : List (Write K), (req.addFetchDemand blocks).1 =
        ⟨ws.map (·.localIdx), ws.map (·.remoteIdx), (ws.map (·.jobId)).dedup⟩ ∧
      Demanded blocks { req with demandReceived := true, remaining := blocks.length }
        (req.addFetchDemand blocks).2 ws := by
  obtain ⟨ws, hpairs, demanded⟩ := matchDemand_demanded blocks
    { req with demandReceived := true, remaining := blocks.length }
  refine ⟨ws, ?_, demanded⟩
  simp only [addFetchDemand, hpairs, map_map]
  rfl

end OutboundRequestState

/-! ### The transfers of a request -/

variable {kv : KvRequestId}

namespace ServerRole

variable {K : Type} {r : ServerRole K}

variable {tid : TransferId} {xfer : InflightXfer}

theorem inflightOf_add (hnew : tid ∉ r.inflight) (xfer : InflightXfer) (kv : KvRequestId) :
    ((r.inflightAdd tid xfer).inflightOf [kv]).Perm
      (if xfer.kvRequestId = kv then tid :: r.inflightOf [kv] else r.inflightOf [kv]) := by
  have hentries := ((entries_setItem_perm r.inflight tid xfer).filter
    fun e => decide (e.2.kvRequestId ∈ [kv])).map (·.1)
  refine hentries.trans ?_
  rw [erase_of_notMem hnew]
  simp only [inflightOf, filter_cons, mem_singleton, decide_eq_true_eq]
  split <;> exact .refl _

theorem inflightOf_pop (hlookup : r.inflight.lookup tid = some xfer) (kv : KvRequestId) :
    (r.inflightOf [kv]).Perm (if xfer.kvRequestId = kv then
      tid :: (r.inflightPop tid).2.inflightOf [kv] else (r.inflightPop tid).2.inflightOf [kv]) := by
  have hentries := ((entries_perm hlookup).filter
    fun e => decide (e.2.kvRequestId ∈ [kv])).map (·.1)
  have hpop : (r.inflightPop tid).2.inflightOf [kv] =
      ((r.inflight.erase tid).entries.filter (·.2.kvRequestId ∈ [kv])).map (·.1) := by
    rw [inflightOf, inflight_inflightPop]
  rw [hpop]
  refine hentries.trans ?_
  simp only [filter_cons, mem_singleton, decide_eq_true_eq]
  split <;> exact .refl _

def Counted (r : ServerRole K) : Prop :=
  ∀ kv, (r.inflightPerReq.lookup kv).getD 0 = (r.inflightOf [kv]).length ∧
    r.inflightPerReq.lookup kv ≠ some 0

theorem Counted.none_inflight (counted : r.Counted) (h : r.hasInflightFor kv = false)
    (hlookup : r.inflight.lookup tid = some xfer) : xfer.kvRequestId ≠ kv := by
  rintro rfl
  have hnone : r.inflightPerReq.lookup xfer.kvRequestId = none := Option.isSome_eq_false_iff.mp h
    |> Option.isNone_iff_eq_none.mp
  have hlen := (counted xfer.kvRequestId).1
  rw [hnone] at hlen
  have hmem := mem_inflightOf.mpr ⟨xfer, hlookup, mem_singleton_self _⟩
  rw [length_eq_zero_iff.mp hlen.symm] at hmem
  cases hmem

theorem Counted.add (counted : r.Counted) (hnew : tid ∉ r.inflight) (xfer : InflightXfer) :
    (r.inflightAdd tid xfer).Counted := by
  intro kv
  rw [(inflightOf_add hnew xfer kv).length_eq]
  by_cases hkv : xfer.kvRequestId = kv
  · subst hkv
    simp only [inflightAdd, lookup_insert, if_true, length_cons, Option.getD_some]
    exact ⟨by rw [(counted _).1], by simp⟩
  · simp only [inflightAdd, lookup_insert_ne (Ne.symm hkv), if_neg hkv]
    exact counted kv

theorem Counted.pop (counted : r.Counted) (tid : TransferId) : (r.inflightPop tid).2.Counted := by
  cases hlookup : r.inflight.lookup tid with
  | none =>
    rw [inflightPop, hlookup]
    exact counted
  | some xfer =>
    intro kv
    have hperm := (inflightOf_pop hlookup kv).length_eq
    obtain ⟨hlen, hzero⟩ := counted kv
    have hpop : (r.inflightPop tid).2.inflightPerReq =
        if 1 < (r.inflightPerReq.lookup xfer.kvRequestId).getD 0 then
          r.inflightPerReq.insert xfer.kvRequestId
            ((r.inflightPerReq.lookup xfer.kvRequestId).getD 0 - 1)
        else r.inflightPerReq.erase xfer.kvRequestId := by
      rw [inflightPop, hlookup]
    by_cases hkv : xfer.kvRequestId = kv
    · subst hkv
      rw [if_pos rfl, length_cons] at hperm
      rw [hpop]
      split
      · simp only [lookup_insert, Option.getD_some, ne_eq, Option.some.injEq]
        omega
      · simp only [lookup_erase, Option.getD_none]
        exact ⟨by omega, fun h => by cases h⟩
    · rw [if_neg hkv] at hperm
      have hsame : (r.inflightPop tid).2.inflightPerReq.lookup kv = r.inflightPerReq.lookup kv := by
        rw [hpop]
        split
        · exact lookup_insert_ne (Ne.symm hkv)
        · exact lookup_erase_ne (Ne.symm hkv)
      rw [hsame, ← hperm]
      exact ⟨hlen, hzero⟩

end ServerRole

/-! ### The invariant of a role -/

structure StoreJob (K : Type) where
  jobId : JobId
  kvRequestId : KvRequestId
  blocks : List (K × Nat)

/-- What is known of a role besides its tables: the jobs, those that were reported, the demand of
each request, which part of it was written (`done`), the blocks of each transfer, and the messages
that were sent before. -/
structure View (K : Type) where
  jobs : List (StoreJob K)
  reported : List JobId
  demands : Dict KvRequestId (List (K × Nat))
  done : KvRequestId → K × Nat → Prop
  writes : TransferId → List (Write K)
  sent : List (Message K)

namespace View

variable {K : Type}

def Of (v : View K) (jobId : JobId) (kv : KvRequestId) : Prop :=
  ∃ job ∈ v.jobs, job.jobId = jobId ∧ job.kvRequestId = kv

def Owns (v : View K) (jobId : JobId) (key : K) (localIdx : Nat) : Prop :=
  ∃ job ∈ v.jobs, job.jobId = jobId ∧ (key, localIdx) ∈ job.blocks

def Answered (v : View K) (kv : KvRequestId) : Prop :=
  ∃ blocks, v.demands.lookup kv = some blocks ∧ ∀ x ∈ blocks, v.done kv x

def inFlight (v : View K) (r : ServerRole K) (kv : KvRequestId) : List (K × Nat) :=
  (r.inflightOf [kv]).flatMap fun tid => (v.writes tid).map Write.demand

/-- A block of an open job of the request that is not in flight. -/
def Spare (v : View K) (r : ServerRole K) (kv : KvRequestId) (key : K) (jobId : JobId)
    (localIdx : Nat) : Prop :=
  jobId ∈ r.storeJobs ∧ v.Of jobId kv ∧ v.Owns jobId key localIdx ∧
    ∀ tid xfer, r.inflight.lookup tid = some xfer → jobId ∉ xfer.jobIds

end View

section
variable {K : Type} {req : OutboundRequestState K}

/-- The demand of a request: what was written, what is over but not counted yet (`extra`), what is
in flight and what waits for supply are different parts of it. -/
structure Meets (v : View K) (r : ServerRole K) (extra : List (K × Nat)) (kv : KvRequestId)
    (req : OutboundRequestState K) (blocks written : List (K × Nat)) : Prop where
  demand : v.demands.lookup kv = some blocks
  done : ∀ x ∈ written, v.done kv x
  parts : (written ++ extra ++ v.inFlight r kv ++ req.unmet).Subperm blocks
  remaining : req.remaining + written.length = blocks.length

theorem Meets.all_done {v : View K} {r : ServerRole K} {extra : List (K × Nat)}
    {blocks written : List (K × Nat)} (h : Meets v r extra kv req blocks written)
    (hzero : req.remaining = 0) : v.Answered kv := by
  refine ⟨blocks, h.demand, fun x hx => h.done x ?_⟩
  have hsub : written.Subperm blocks := by
    refine Subperm.trans ?_ h.parts
    rw [append_assoc, append_assoc]
    exact (prefix_append _ _).sublist.subperm
  have hlen := h.remaining
  exact (hsub.perm_of_length_le (by omega)).mem_iff.mpr hx

variable [DecidableEq K] {ws : List (Write K)} {jobIds : List JobId}

/-- A request whose demand is not known. -/
structure Waits (v : View K) (r : ServerRole K) (kv : KvRequestId)
    (req : OutboundRequestState K) : Prop where
  unmet : req.unmet = []
  blocks : ∀ key jobId localIdx, req.available.lookup key = some (jobId, localIdx) →
    v.Spare r kv key jobId localIdx

/-- What is known of a request; `pairs` of its demand are over or about to be submitted. -/
structure RequestInv (v : View K) (r : ServerRole K) (pairs : List (K × Nat)) (kv : KvRequestId)
    (req : OutboundRequestState K) : Prop where
  waits : req.demandReceived = false → Waits v r kv req
  pending : ∀ jobId ∈ req.pendingJobIds, v.Of jobId kv
  meets : req.demandReceived = true → ∃ blocks written, Meets v r pairs kv req blocks written

theorem RequestInv.imp {v v' : View K} {r r' : ServerRole K} {pairs pairs' : List (K × Nat)}
    (h : RequestInv v r pairs kv req) (hof : ∀ {jobId}, v.Of jobId kv → v'.Of jobId kv)
    (hspare : ∀ {key jobId localIdx}, req.demandReceived = false →
      req.available.lookup key = some (jobId, localIdx) → v.Spare r kv key jobId localIdx →
      v'.Spare r' kv key jobId localIdx)
    (hmeets : ∀ {blocks written}, req.demandReceived = true →
      Meets v r pairs kv req blocks written → Meets v' r' pairs' kv req blocks written) :
    RequestInv v' r' pairs' kv req where
  waits hdemand := ⟨(h.waits hdemand).unmet, fun key jobId localIdx hkey =>
    hspare hdemand hkey ((h.waits hdemand).blocks key jobId localIdx hkey)⟩
  pending jobId hjob := hof (h.pending jobId hjob)
  meets hdemand := (h.meets hdemand).imp fun _ => Exists.imp fun _ => hmeets hdemand

structure Carries (v : View K) (tid : TransferId) (xfer : InflightXfer) : Prop where
  nonempty : v.writes tid ≠ []
  blockCount : xfer.blockCount = (v.writes tid).length
  source : ∀ x ∈ v.writes tid, x.jobId ∈ xfer.jobIds ∧ v.Owns x.jobId x.key x.localIdx

structure RoleInv (v : View K) (extra : KvRequestId → List (K × Nat)) (r : ServerRole K) :
    Prop where
  unique : (v.jobs.map (·.jobId)).Nodup
  counted : r.Counted
  live : ∀ jobId ∈ r.storeJobs, jobId ∉ v.reported ∧
    jobId ∉ r.pendingStoreResults.map (·.jobId)
  known : ∀ jobId, jobId ∈ r.storeJobs ∨ jobId ∈ v.reported ∨
    jobId ∈ r.pendingStoreResults.map (·.jobId) → jobId ∈ v.jobs.map (·.jobId)
  open_jobs : ∀ tid xfer, r.inflight.lookup tid = some xfer → ∀ jobId ∈ xfer.jobIds,
    jobId ∈ r.storeJobs ∧ v.Of jobId xfer.kvRequestId
  once : ∀ tid xfer tid' xfer', r.inflight.lookup tid = some xfer →
    r.inflight.lookup tid' = some xfer' → ∀ jobId ∈ xfer.jobIds, jobId ∈ xfer'.jobIds → tid = tid'
  carries : ∀ tid xfer, r.inflight.lookup tid = some xfer → Carries v tid xfer
  requests : ∀ {kv req}, r.outbound.lookup kv = some req → RequestInv v r (extra kv) kv req
  answers : ∃ new, r.sent = v.sent ++ new ∧ ∀ kv, .transferDone kv true ∈ new → v.Answered kv

namespace RoleInv

variable {v : View K} {extra : KvRequestId → List (K × Nat)} {r : ServerRole K} {kv : KvRequestId}

theorem pop (inv : RoleInv v (fun _ => []) r) (hlookup : r.inflight.lookup tid = some xfer) :
    RoleInv v (update (fun _ => []) xfer.kvRequestId
      ((v.writes tid).map Write.demand)) (r.inflightPop tid).2 := by
  have hrest : ∀ tid' xfer', (r.inflightPop tid).2.inflight.lookup tid' = some xfer' →
      r.inflight.lookup tid' = some xfer' := by
    intro tid' xfer' h
    rw [inflight_inflightPop] at h
    exact (lookup_erase_iff.mp h).2
  have hpop : (r.inflightPop tid).2 = { r with
      inflight := (r.inflightPop tid).2.inflight
      inflightPerReq := (r.inflightPop tid).2.inflightPerReq } := by
    rw [inflightPop, hlookup]
  rw [hpop]
  exact { inv with
    counted := by
      exact inv.counted.pop tid
    open_jobs := fun tid' xfer' h => inv.open_jobs tid' xfer' (hrest tid' xfer' h)
    once := fun t₁ x₁ t₂ x₂ h₁ h₂ => inv.once t₁ x₁ t₂ x₂ (hrest t₁ x₁ h₁) (hrest t₂ x₂ h₂)
    carries := fun tid' xfer' h => inv.carries tid' xfer' (hrest tid' xfer' h)
    requests := by
      intro kv req h
      refine (inv.requests h).imp id (fun _ _ spare => ⟨spare.1, spare.2.1, spare.2.2.1,
        fun tid' xfer' h' => spare.2.2.2 tid' xfer' (hrest tid' xfer' h')⟩)
        fun {_ written} _ meets => { meets with parts := ?_ }
      have hflight : (v.inFlight r kv).Perm (update (fun _ => []) xfer.kvRequestId
          ((v.writes tid).map Write.demand) kv ++ v.inFlight (r.inflightPop tid).2 kv) := by
        refine ((inflightOf_pop hlookup kv).flatMap_right _).trans ?_
        by_cases hkv : xfer.kvRequestId = kv
        · subst hkv
          rw [if_pos rfl, flatMap_cons, update_self]
          rfl
        · rw [if_neg hkv, update_of_ne (Ne.symm hkv), nil_append]
          rfl
      refine Subperm.trans (Perm.subperm ?_) meets.parts
      rw [append_nil, append_assoc written]
      exact (hflight.symm.append_left written).append_right _ }

section
variable (inv : RoleInv v extra r)
include inv

/-- The requests, the aborts and the messages change. -/
theorem withRequests {extra' : KvRequestId → List (K × Nat)}
    (outbound : Dict KvRequestId (OutboundRequestState K)) (pendingAborts : Dict KvRequestId Time)
    (sent : List (Message K))
    (hreq : ∀ kv req, outbound.lookup kv = some req → RequestInv v r (extra' kv) kv req)
    (hsent : ∃ new, sent = v.sent ++ new ∧ ∀ kv, .transferDone kv true ∈ new → v.Answered kv) :
    RoleInv v extra' { r with outbound, pendingAborts, sent } :=
  { inv with
    answers := hsent
    requests := fun h => (hreq _ _ h).imp id (fun _ _ h => h) fun _ meets => { meets with } }

theorem eraseOutbound (kv : KvRequestId) :
    RoleInv v extra { r with outbound := r.outbound.erase kv } :=
  inv.withRequests _ r.pendingAborts r.sent
    (fun _ _ h => inv.requests (lookup_erase_iff.mp h).2) inv.answers

theorem setOutbound (kv : KvRequestId) (req : OutboundRequestState K)
    (pairs : List (K × Nat)) (hreq : RequestInv v r pairs kv req) :
    RoleInv v (update extra kv pairs) { r with outbound := r.outbound.insert kv req } := by
  refine inv.withRequests _ r.pendingAborts r.sent (fun kv' req' h => ?_) inv.answers
  rcases lookup_insert_iff.mp h with ⟨rfl, rfl⟩ | ⟨hne, h⟩
  · rw [update_self]
    exact hreq
  · rw [update_of_ne hne]
    exact inv.requests h

theorem insertOutbound (req : OutboundRequestState K) (hreq : RequestInv v r (extra kv) kv req) :
    RoleInv v extra { r with outbound := r.outbound.insert kv req } := by
  have hset := inv.setOutbound kv req _ hreq
  rw [update_eq_self] at hset
  exact hset

/-- A job whose blocks are neither in flight nor wait for a fetch. -/
def Unused (r : ServerRole K) (jobId : JobId) : Prop :=
  (∀ tid xfer, r.inflight.lookup tid = some xfer → jobId ∉ xfer.jobIds) ∧
    ∀ kv req, r.outbound.lookup kv = some req → req.demandReceived = false →
      ∀ key localIdx, req.available.lookup key ≠ some (jobId, localIdx)

theorem retire (storeJobs : Dict JobId Time) (results : List StoreResult) (reported : List JobId)
    (hsub : ∀ jobId ∈ storeJobs, jobId ∈ r.storeJobs ∧ jobId ∉ reported ∧
      jobId ∉ results.map (·.jobId))
    (hgone : ∀ jobId ∈ r.storeJobs, jobId ∉ storeJobs → Unused r jobId)
    (hknown : ∀ jobId, jobId ∈ reported ∨ jobId ∈ results.map (·.jobId) →
      jobId ∈ v.jobs.map (·.jobId)) :
    RoleInv { v with reported } extra { r with storeJobs, pendingStoreResults := results } :=
  { inv with
    live := fun jobId h => (hsub jobId h).2
    known := fun jobId h => by
      rcases h with h | h
      · exact inv.known jobId (.inl (hsub jobId h).1)
      · exact hknown jobId h
    open_jobs := fun tid xfer h jobId hjob => by
      obtain ⟨hopen, hof⟩ := inv.open_jobs tid xfer h jobId hjob
      refine ⟨Classical.byContradiction fun hout => ?_, hof⟩
      exact (hgone jobId hopen hout).1 tid xfer h hjob
    carries := fun tid xfer h => { inv.carries tid xfer h with }
    requests := fun h => (inv.requests h).imp id (fun hdemand hkey spare =>
      ⟨Classical.byContradiction fun hout =>
        (hgone _ spare.1 hout).2 _ _ h hdemand _ _ hkey, spare.2⟩) fun _ meets => { meets with } }

theorem setAborts (pendingAborts : Dict KvRequestId Time) :
    RoleInv v extra { r with pendingAborts } :=
  inv.withRequests r.outbound pendingAborts r.sent (fun _ _ => inv.requests) inv.answers

theorem send {m : Message K} (hm : ∀ kv, m = .transferDone kv true → v.Answered kv) :
    RoleInv v extra { r with sent := r.sent ++ [m] } := by
  refine inv.withRequests r.outbound r.pendingAborts _ (fun _ _ => inv.requests) ?_
  obtain ⟨new, hsent, hnew⟩ := inv.answers
  refine ⟨new ++ [m], by rw [hsent, append_assoc], fun kv hkv => ?_⟩
  rcases mem_append.mp hkv with hkv | hkv
  · exact hnew kv hkv
  · exact hm kv (mem_singleton.mp hkv).symm

theorem modify (hlookup : r.outbound.lookup kv = some req) (finishing : Bool)
    {pendingJobIds : List JobId} (hpending : ∀ jobId ∈ pendingJobIds, jobId ∈ req.pendingJobIds) :
    RoleInv v extra
      { r with outbound := r.outbound.insert kv { req with finishing, pendingJobIds } } := by
  refine inv.insertOutbound _ ⟨fun h => ?_, fun jobId h => ?_, fun h => ?_⟩
  · exact { (inv.requests hlookup).waits h with }
  · exact (inv.requests hlookup).pending jobId (hpending jobId h)
  · obtain ⟨blocks, written, meets⟩ := (inv.requests hlookup).meets h
    exact ⟨blocks, written, { meets with }⟩

theorem dropExtra : RoleInv v (fun _ => []) r :=
  { inv with
    requests := fun h => (inv.requests h).imp id (fun _ _ h => h) fun _ meets => { meets with
      parts := .trans (Sublist.subperm (((Sublist.append_left (nil_sublist _) _).append_right
        _).append_right _)) meets.parts } }

theorem of_unique {kv' : KvRequestId} (h : v.Of jobId kv) (h' : v.Of jobId kv') : kv = kv' := by
  obtain ⟨job, hjob, rfl, rfl⟩ := h
  obtain ⟨job', hjob', heq, rfl⟩ := h'
  rw [inj_on_of_nodup_map inv.unique hjob' hjob heq]

/-- The end of a request without a transfer in flight; with success only if all was written. -/
theorem finalizeOutbound
    (hidle : ∀ tid xfer, r.inflight.lookup tid = some xfer → xfer.kvRequestId ≠ kv)
    {success : Option Bool} (hsuccess : ∀ req, r.outbound.lookup kv = some req →
      success.getD (decide (req.remaining = 0)) = true →
        req.demandReceived = true ∧ req.remaining = 0) :
    RoleInv v extra (r.finalizeOutbound kv success) := by
  unfold ServerRole.finalizeOutbound
  cases hlookup : r.outbound.lookup kv with
  | none => exact inv
  | some req =>
    have hpending := (inv.requests hlookup).pending
    have herased := inv.eraseOutbound kv
    have hretired := herased.retire (eraseAll r.storeJobs req.pendingJobIds)
      (r.pendingStoreResults ++ req.pendingJobIds.map fun jobId =>
        ⟨jobId, success.getD (decide (req.remaining = 0))⟩) v.reported ?_ ?_ ?_
    · refine hretired.send fun kv' hm => ?_
      simp only [Message.transferDone.injEq] at hm
      obtain ⟨rfl, htrue⟩ := hm
      obtain ⟨hdemand, hzero⟩ := hsuccess req hlookup htrue
      obtain ⟨blocks, written, meets⟩ := (inv.requests hlookup).meets hdemand
      exact meets.all_done hzero
    · intro jobId hjob
      obtain ⟨hout, hopen⟩ := mem_eraseAll.mp hjob
      refine ⟨hopen, (inv.live jobId hopen).1, fun hmem => ?_⟩
      rw [map_append, mem_append, map_map] at hmem
      rcases hmem with hmem | hmem
      · exact (inv.live jobId hopen).2 hmem
      · obtain ⟨jobId', hjob', rfl⟩ := mem_map.mp hmem
        exact hout hjob'
    · -- a pending job belongs to this request, which has nothing in flight
      intro jobId hopen hgone
      have hmem : jobId ∈ req.pendingJobIds := by
        by_contra hout
        exact hgone (mem_eraseAll.mpr ⟨hout, hopen⟩)
      refine ⟨fun tid xfer h hjob => ?_, fun kv' req' h hdemand key localIdx hkey => ?_⟩
      · exact hidle tid xfer h
          (inv.of_unique (inv.open_jobs tid xfer h jobId hjob).2 (hpending jobId hmem))
      · obtain ⟨hne, h⟩ := lookup_erase_iff.mp h
        exact hne (inv.of_unique (((inv.requests h).waits hdemand).blocks key jobId localIdx
          hkey).2.1 (hpending jobId hmem))
    · intro jobId hjob
      rw [map_append, mem_append, map_map] at hjob
      rcases hjob with hjob | hjob | hjob
      · exact inv.known jobId (.inr (.inl hjob))
      · exact inv.known jobId (.inr (.inr hjob))
      · obtain ⟨jobId', hjob', rfl⟩ := mem_map.mp hjob
        obtain ⟨job, hmem, heq, -⟩ := hpending jobId' hjob'
        exact mem_map.mpr ⟨job, hmem, heq⟩

theorem submitFailed (kv : KvRequestId) : RoleInv v extra (r.submitFailed kv) :=
  submitFailed_rule inv
    (fun _ h => inv.modify h true fun _ hjob => hjob)
    fun inv' hnone => inv'.finalizeOutbound (fun _ _ h => inv'.counted.none_inflight hnone h)
      nofun

theorem finish (kv : KvRequestId) : RoleInv v extra (r.finish kv) := by
  unfold ServerRole.finish
  cases hlookup : r.outbound.lookup kv with
  | none => exact inv
  | some req =>
    have hset := inv.modify hlookup true fun _ h => h
    simp only
    split
    · exact hset
    rename_i hdemand
    split
    · exact hset
    rename_i hnone
    refine hset.finalizeOutbound (fun tid xfer h => ?_) fun req' h hzero => ?_
    · exact hset.counted.none_inflight (Bool.eq_false_iff.mpr hnone) h
    · rw [lookup_insert] at h
      cases h
      exact ⟨eq_true_of_ne_false hdemand, of_decide_eq_true hzero⟩

theorem unused_of_pop (hlookup : r.inflight.lookup tid = some xfer)
    (hjob : jobId ∈ xfer.jobIds) : Unused (r.inflightPop tid).2 jobId := by
  refine ⟨fun tid' xfer' h hjob' => ?_, fun kv req h hdemand key localIdx hkey => ?_⟩
  · rw [inflight_inflightPop] at h
    obtain ⟨hne, h⟩ := lookup_erase_iff.mp h
    exact hne (inv.once tid' xfer' tid xfer h hlookup jobId hjob' hjob)
  · have houtbound : (r.inflightPop tid).2.outbound = r.outbound := by
      rw [inflightPop, hlookup]
    rw [houtbound] at h
    exact (((inv.requests h).waits hdemand).blocks key jobId localIdx hkey).2.2.2 tid xfer hlookup
      hjob

theorem dropFailed (kv : KvRequestId) : RoleInv v extra (r.dropFailed kv) := by
  unfold ServerRole.dropFailed
  cases hlookup : r.outbound.lookup kv with
  | none => exact inv
  | some req =>
    simp only
    split
    · exact (inv.eraseOutbound kv).send nofun
    · exact inv.eraseOutbound kv

theorem mono (jobs : List (StoreJob K))
    (done : KvRequestId → K × Nat → Prop) (hsub : ∀ job ∈ v.jobs, job ∈ jobs)
    (hunique : (jobs.map (·.jobId)).Nodup) (hdone : ∀ kv x, v.done kv x → done kv x) :
    RoleInv { v with jobs, done } extra r := by
  have hof : ∀ {jobId kv}, v.Of jobId kv → View.Of { v with jobs, done } jobId kv :=
    fun ⟨job, hjob, h⟩ => ⟨job, hsub job hjob, h⟩
  have howns : ∀ {jobId key i}, v.Owns jobId key i → View.Owns { v with jobs, done } jobId key i :=
    fun ⟨job, hjob, h⟩ => ⟨job, hsub job hjob, h⟩
  exact { inv with
    unique := hunique
    known := fun jobId h => by
      obtain ⟨job, hjob, heq⟩ := mem_map.mp (inv.known jobId h)
      exact mem_map.mpr ⟨job, hsub job hjob, heq⟩
    open_jobs := fun tid xfer h jobId hjob => (inv.open_jobs tid xfer h jobId hjob).imp_right hof
    carries := fun tid xfer h => { inv.carries tid xfer h with
      source := fun x hx => ((inv.carries tid xfer h).source x hx).imp_right howns }
    requests := fun h => (inv.requests h).imp hof
      (fun _ _ spare => ⟨spare.1, hof spare.2.1, howns spare.2.2.1, spare.2.2.2⟩)
      fun _ meets => { meets with done := fun x hx => hdone _ x (meets.done x hx) }
    answers := by
      obtain ⟨new, hsent, hnew⟩ := inv.answers
      refine ⟨new, hsent, fun kv hkv => ?_⟩
      obtain ⟨blocks, hblocks, hall⟩ := hnew kv hkv
      exact ⟨blocks, hblocks, fun x hx => hdone kv x (hall x hx)⟩ }

theorem openJob (now : Time) (hjob : jobId ∈ v.jobs.map (·.jobId))
    (hreported : jobId ∉ v.reported) (hresults : jobId ∉ r.pendingStoreResults.map (·.jobId)) :
    RoleInv v extra { r with storeJobs := r.storeJobs.setItem jobId now } :=
  { inv with
    live := fun jobId' h => by
      rcases mem_setItem.mp h with rfl | h
      · exact ⟨hreported, hresults⟩
      · exact inv.live jobId' h
    known := fun jobId' h => by
      rcases h with h | h
      · rcases mem_setItem.mp h with rfl | h
        · exact hjob
        · exact inv.known jobId' (.inl h)
      · exact inv.known jobId' (.inr h)
    open_jobs := fun tid xfer h jobId' hjob' =>
      (inv.open_jobs tid xfer h jobId' hjob').imp_left fun h => mem_setItem.mpr (.inr h)
    requests := fun h => (inv.requests h).imp id
      (fun _ _ spare => ⟨mem_setItem.mpr (.inr spare.1), spare.2⟩) fun _ meets => { meets with } }

/-- A new demand of a request that has none, before anything is sent. -/
theorem redemand (hsent : r.sent = v.sent) (kv : KvRequestId)
    (blocks : List (K × Nat)) (done : KvRequestId → K × Nat → Prop)
    (hnone : ∀ req, r.outbound.lookup kv = some req → req.demandReceived = false)
    (hdone : ∀ kv', kv' ≠ kv → ∀ x, v.done kv' x → done kv' x) :
    RoleInv { v with demands := v.demands.insert kv blocks, done } extra r :=
  { inv with
    carries := fun tid xfer h => { inv.carries tid xfer h with }
    requests := fun {kv' req} h => (inv.requests h).imp id (fun _ _ h => h) fun hdemand meets => by
      have hne : kv' ≠ kv := by
        rintro rfl
        rw [hnone req h] at hdemand
        cases hdemand
      exact { meets with
        demand := (lookup_insert_ne hne).trans meets.demand
        done := fun x hx => hdone kv' hne x (meets.done x hx) }
    answers := ⟨[], by rw [append_nil]; exact hsent, nofun⟩ }

end

theorem reportJob (kv : KvRequestId)
    (inv : RoleInv { v with reported := reported ++ acc.1.map (·.jobId) } extra acc.2)
    (success : Bool) (hunused : Unused acc.2 jobId) :
    let acc' := reportJob kv success acc jobId
    RoleInv { v with reported := reported ++ acc'.1.map (·.jobId) } extra acc'.2 ∧
      ∀ jobId', Unused acc.2 jobId' → Unused acc'.2 jobId' := by
  unfold ServerRole.reportJob
  split
  · rename_i hopen
    have hretired := inv.retire (acc.2.storeJobs.erase jobId) acc.2.pendingStoreResults
      (reported ++ acc.1.map (·.jobId) ++ [jobId]) ?_ ?_ ?_
    · have hreported : reported ++ (acc.1 ++ [(⟨jobId, success⟩ : StoreResult)]).map (·.jobId) =
          reported ++ acc.1.map (·.jobId) ++ [jobId] := by
        rw [map_append, append_assoc]
        rfl
      simp only [hreported]
      cases hlookup : acc.2.outbound.lookup kv with
      | none => exact ⟨hretired, fun jobId' h => h⟩
      | some req =>
        refine ⟨hretired.modify hlookup _ fun _ h => (mem_filter.mp h).1,
          fun jobId' h => ⟨h.1, fun kv' req' hkv' hdemand => ?_⟩⟩
        rcases lookup_insert_iff.mp hkv' with ⟨rfl, rfl⟩ | ⟨-, hkv'⟩
        · exact h.2 kv' req hlookup hdemand
        · exact h.2 kv' req' hkv' hdemand
    · intro jobId' hmem
      obtain ⟨hne, hopen'⟩ := mem_erase.mp hmem
      obtain ⟨hreported, hresults⟩ := inv.live jobId' hopen'
      refine ⟨hopen', fun hmem' => ?_, hresults⟩
      rcases mem_append.mp hmem' with hmem' | hmem'
      · exact hreported hmem'
      · exact hne (mem_singleton.mp hmem')
    · intro jobId' hopen' hgone
      have heq : jobId' = jobId := by
        by_contra hne
        exact hgone (mem_erase.mpr ⟨hne, hopen'⟩)
      rw [heq]
      exact hunused
    · intro jobId' hmem
      rcases hmem with hmem | hmem
      · rcases mem_append.mp hmem with hmem | hmem
        · exact inv.known jobId' (.inr (.inl hmem))
        · rw [mem_singleton.mp hmem]
          exact inv.known jobId (.inl hopen)
      · exact inv.known jobId' (.inr (.inr hmem))
  · exact ⟨inv, fun _ h => h⟩

theorem reportJobs (kv : KvRequestId) (success : Bool) (jobIds : List JobId)
    (acc : List StoreResult × ServerRole K)
    (inv : RoleInv { v with reported := reported ++ acc.1.map (·.jobId) } extra acc.2)
    (hunused : ∀ jobId ∈ jobIds, Unused acc.2 jobId) :
    let acc' := jobIds.foldl (ServerRole.reportJob kv success) acc
    RoleInv { v with reported := reported ++ acc'.1.map (·.jobId) } extra acc'.2 := by
  induction jobIds generalizing acc with
  | nil => exact inv
  | cons jobId jobIds ih =>
    obtain ⟨hinv, hstill⟩ := reportJob kv inv success (hunused jobId mem_cons_self)
    exact ih _ hinv fun jobId' h => hstill jobId' (hunused jobId' (mem_cons_of_mem _ h))

theorem countDone {pairs : List (K × Nat)}
    (inv : RoleInv v (update (fun _ => []) xfer.kvRequestId pairs) r)
    (hlen : xfer.blockCount = pairs.length) (hdone : ∀ x ∈ pairs, v.done xfer.kvRequestId x) :
    ∃ r', r.countDone xfer = .ok r' ∧ RoleInv v (fun _ => []) r' := by
  unfold ServerRole.countDone
  cases hlookup : r.outbound.lookup xfer.kvRequestId with
  | none => exact ⟨r, rfl, inv.dropExtra⟩
  | some req =>
    simp only
    split
    · exact ⟨r, rfl, inv.dropExtra⟩
    rename_i hreceived
    obtain ⟨blocks, written, meets⟩ := (inv.requests hlookup).meets (eq_true_of_ne_false hreceived)
    have hparts := meets.parts
    rw [update_self] at hparts
    have hle := hparts.length_le
    have hremaining := meets.remaining
    simp only [length_append] at hle
    rw [if_neg (by omega)]
    have hmeets : Meets v r [] xfer.kvRequestId
        { req with remaining := req.remaining - xfer.blockCount } blocks (written ++ pairs) :=
      ⟨meets.demand, fun x hx => (mem_append.mp hx).elim (meets.done x) (hdone x), by
        rw [append_nil]
        exact hparts, by
        simp only [length_append]
        omega⟩
    have hset := inv.dropExtra.insertOutbound { req with remaining := req.remaining - xfer.blockCount }
      ⟨fun h => absurd h hreceived, (inv.requests hlookup).pending, fun _ => ⟨_, _, hmeets⟩⟩
    split
    · -- every block was written, so that nothing of the request is in flight
      rename_i hzero
      refine ⟨_, rfl, hset.finalizeOutbound (fun tid' xfer' h heq => ?_) fun req' h _ => ?_⟩
      · have hmem : tid' ∈ r.inflightOf [xfer.kvRequestId] :=
          mem_inflightOf.mpr ⟨xfer', h, mem_singleton.mpr heq⟩
        obtain ⟨x, hx⟩ := exists_mem_of_ne_nil _ (inv.carries tid' xfer' h).nonempty
        have hflight : x.demand ∈ v.inFlight r xfer.kvRequestId := mem_flatMap.mpr
          ⟨tid', hmem, mem_map_of_mem hx⟩
        have hpos := length_pos_of_mem hflight
        omega
      · rw [lookup_insert] at h
        cases h
        exact ⟨eq_true_of_ne_false hreceived, hzero⟩
    · split
      · rename_i hnone
        refine ⟨_, rfl, hset.finalizeOutbound (fun tid' xfer' h => ?_) nofun⟩
        exact hset.counted.none_inflight hnone.2 h
      · exact ⟨_, rfl, hset⟩

theorem popOne (inv : RoleInv v (fun _ => []) r) (tid : TransferId) :
    RoleInv v (fun _ => []) (r.inflightPop tid).2 := by
  cases hlookup : r.inflight.lookup tid with
  | none =>
    rw [inflightPop, hlookup]
    exact inv
  | some xfer => exact (inv.pop hlookup).dropExtra

theorem popAll (tids : List TransferId) (inv : RoleInv v (fun _ => []) r) :
    RoleInv v (fun _ => []) (r.popAll tids) := by
  induction tids generalizing r with
  | nil => exact inv
  | cons tid tids ih => exact ih (inv.popOne tid)

/-- The transfers that are done, all of whose blocks count as written. -/
theorem onDone (tids : List TransferId)
    (inv : RoleInv { v with reported := reported ++ acc.1.map (·.jobId) } (fun _ => []) acc.2)
    (hdone : ∀ tid ∈ tids, ∀ xfer, acc.2.inflight.lookup tid = some xfer →
      ∀ x ∈ v.writes tid, v.done xfer.kvRequestId x.demand) :
    ∃ acc', onDone tids acc = .ok acc' ∧
      RoleInv { v with reported := reported ++ acc'.1.map (·.jobId) } (fun _ => []) acc'.2 := by
  have hP := onDone_succeeds (P := fun acc' => RoleInv
      { v with reported := reported ++ acc'.1.map (·.jobId) } (fun _ => []) acc'.2 ∧
      ∀ tid xfer, acc'.2.inflight.lookup tid = some xfer → acc.2.inflight.lookup tid = some xfer)
    tids ⟨inv, fun _ _ h => h⟩ fun {results r xfer} tid htid ⟨inv, hsame⟩ hlookup => by
      have hreported := reportJobs xfer.kvRequestId true xfer.jobIds
        (results, (r.inflightPop tid).2) (inv.pop hlookup) fun jobId h => inv.unused_of_pop hlookup h
      have hcarries := inv.carries tid xfer hlookup
      obtain ⟨r', hcount, hinv⟩ := hreported.countDone
        (hcarries.blockCount.trans (length_map _).symm) fun x hx => by
          obtain ⟨y, hy, rfl⟩ := mem_map.mp hx
          exact hdone tid htid xfer (hsame tid xfer hlookup) y hy
      refine ⟨r', hcount, hinv, fun tid' xfer' h' => hsame tid' xfer' ?_⟩
      simp only [inflight_countDone hcount, inflight_foldl_reportJob, inflight_inflightPop] at h'
      exact (lookup_erase_iff.mp h').2
  obtain ⟨acc', hacc', hinv, -⟩ := hP
  exact ⟨acc', hacc', hinv⟩

theorem onFailed (tids : List TransferId) (failedIds : List KvRequestId)
    (inv : RoleInv { v with reported := reported ++ acc.1.map (·.jobId) } (fun _ => []) acc.2) :
    let acc' := (onFailed tids failedIds acc).2
    RoleInv { v with reported := reported ++ acc'.1.map (·.jobId) } (fun _ => []) acc'.2 :=
  onFailed_rule (P := fun acc => RoleInv
      { v with reported := reported ++ acc.1.map (·.jobId) } (fun _ => []) acc.2)
    tids failedIds inv fun inv hlookup => (reportJobs _ false _ _ (inv.pop hlookup).dropExtra
      fun _ h => inv.unused_of_pop hlookup h).dropFailed _

/-- The timeouts, if no job that expires is used. -/
theorem surface (inv : RoleInv v (fun _ => []) r) (now : Time)
    (hexpired : ∀ jobId ∈ r.expiredJobs now, Unused r jobId) :
    RoleInv { v with reported := v.reported ++ (r.surface now).1.map (·.jobId) } (fun _ => [])
      (r.surface now).2 := by
  have hresults : (r.surface now).1.map (·.jobId) =
      r.expiredJobs now ++ r.pendingStoreResults.map (·.jobId) := by
    simp only [ServerRole.surface, timeoutPendingStoreJobs, map_append, map_map, comp_def, map_id']
  rw [hresults]
  refine inv.retire _ _ _ (fun jobId h => ?_) (fun jobId hopen hgone => ?_) (fun jobId h => ?_)
  · obtain ⟨hout, hopen⟩ := mem_eraseAll.mp h
    obtain ⟨hreported, hpending⟩ := inv.live jobId hopen
    refine ⟨hopen, ?_, not_mem_nil⟩
    simp only [mem_append, not_or]
    exact ⟨hreported, hout, hpending⟩
  · refine hexpired jobId ?_
    by_contra hout
    exact hgone (mem_eraseAll.mpr ⟨hout, hopen⟩)
  · simp only [mem_append, map_nil, not_mem_nil, or_false] at h
    rcases h with h | h | h
    · exact inv.known jobId (.inr (.inl h))
    · obtain ⟨e, he, rfl⟩ := mem_map.mp h
      exact inv.known e.1 (.inl (mem_of_lookup (lookup_iff_mem_entries.mpr (mem_filter.mp he).1)))
    · exact inv.known jobId (.inr (.inr h))

theorem add (inv : RoleInv v (update (fun _ => []) kv (ws.map Write.demand)) r)
    (hnew : tid ∉ r.inflight) (hne : ws ≠ [])
    (hjobs : ∀ jobId ∈ jobIds, jobId ∈ r.storeJobs ∧ v.Of jobId kv ∧ Unused r jobId)
    (hsource : ∀ x ∈ ws, x.jobId ∈ jobIds ∧ v.Owns x.jobId x.key x.localIdx) :
    RoleInv { v with writes := update v.writes tid ws } (fun _ => [])
      (r.inflightAdd tid ⟨kv, ws.length, jobIds⟩) := by
  have hcases : ∀ tid' xfer',
      (r.inflightAdd tid ⟨kv, ws.length, jobIds⟩).inflight.lookup tid' = some xfer' →
      (tid' = tid ∧ xfer' = ⟨kv, ws.length, jobIds⟩) ∨
        (tid' ≠ tid ∧ r.inflight.lookup tid' = some xfer') :=
    fun tid' xfer' h => lookup_setItem_iff.mp h
  have hold : ∀ {tid'}, tid' ≠ tid → update v.writes tid ws tid' = v.writes tid' :=
    fun h => update_of_ne h _ _
  exact { inv with
    counted := inv.counted.add hnew _
    open_jobs := fun tid' xfer' h jobId hjob => by
      rcases hcases tid' xfer' h with ⟨rfl, rfl⟩ | ⟨-, h⟩
      · exact ⟨(hjobs jobId hjob).1, (hjobs jobId hjob).2.1⟩
      · exact inv.open_jobs tid' xfer' h jobId hjob
    once := fun t₁ x₁ t₂ x₂ h₁ h₂ jobId hjob₁ hjob₂ => by
      rcases hcases t₁ x₁ h₁ with ⟨rfl, rfl⟩ | ⟨-, hold₁⟩ <;>
        rcases hcases t₂ x₂ h₂ with ⟨rfl, rfl⟩ | ⟨-, hold₂⟩
      · rfl
      · exact absurd hjob₂ ((hjobs jobId hjob₁).2.2.1 t₂ x₂ hold₂)
      · exact absurd hjob₁ ((hjobs jobId hjob₂).2.2.1 t₁ x₁ hold₁)
      · exact inv.once t₁ x₁ t₂ x₂ hold₁ hold₂ jobId hjob₁ hjob₂
    carries := fun tid' xfer' h => by
      rcases hcases tid' xfer' h with ⟨rfl, rfl⟩ | ⟨hne', h⟩
      · refine ⟨?_, ?_, ?_⟩ <;> simp only [update_self]
        · exact hne
        · exact hsource
      · obtain ⟨hnonempty, hcount, hsource'⟩ := inv.carries tid' xfer' h
        rw [← hold hne'] at hnonempty hcount hsource'
        exact ⟨hnonempty, hcount, hsource'⟩
    requests := fun {kv' req} h => by
      refine (inv.requests h).imp id (fun hdemand hkey spare => ⟨spare.1, spare.2.1, spare.2.2.1,
        fun tid' xfer' h' => ?_⟩) fun {_ written} _ meets => { meets with parts := ?_ }
      · rcases hcases tid' xfer' h' with ⟨rfl, rfl⟩ | ⟨-, h'⟩
        · exact fun hjob => (hjobs _ hjob).2.2.2 kv' req h hdemand _ _ hkey
        · exact spare.2.2.2 tid' xfer' h'
      have hflight : (View.inFlight { v with writes := update v.writes tid ws }
          (r.inflightAdd tid ⟨kv, ws.length, jobIds⟩) kv').Perm
          (update (fun _ => []) kv (ws.map Write.demand) kv' ++ v.inFlight r kv') := by
        have hrest : View.inFlight { v with writes := update v.writes tid ws } r kv' =
            v.inFlight r kv' := by
          refine flatMap_congr fun tid' htid' => ?_
          have hmem := mem_inflight_of_mem_inflightOf htid'
          exact congrArg _ (hold fun heq => hnew (heq ▸ hmem))
        refine ((inflightOf_add hnew _ kv').flatMap_right _).trans ?_
        by_cases hkv : kv = kv'
        · subst hkv
          rw [if_pos rfl, flatMap_cons, update_self, ← hrest]
          simp only [update_self]
          rfl
        · rw [if_neg hkv, update_of_ne (Ne.symm hkv), nil_append, ← hrest]
          rfl
      refine Subperm.trans (Perm.subperm ?_) meets.parts
      rw [append_nil]
      refine ((hflight.append_left written).append_right _).trans (Perm.of_eq ?_)
      simp only [append_assoc] }

end RoleInv

/-! ### The role with the transport -/

/-- A role alone with the transport; `writes` says what is in each transfer. -/
structure ServingInv (v : View K) (s : Serving K) : Prop where
  role : RoleInv v (fun _ => []) s.role
  agrees : Serving.Agrees (fun _ => False) s
  handles : ∀ tid h, s.transport.inflight.lookup tid = some h →
    h.localIdxs = (v.writes tid).map (·.localIdx) ∧
      h.remoteIdxs = (v.writes tid).map (·.remoteIdx)

namespace ServingInv

variable {v : View K} {s : Serving K} {kv : KvRequestId}

theorem shrink (inv : ServingInv v s) {v' : View K} {s' : Serving K}
    (role : RoleInv v' (fun _ => []) s'.role) (agrees : Serving.Agrees (fun _ => False) s')
    (hwrites : v'.writes = v.writes) (hlookup : ∀ tid, tid ∈ s'.transport.inflight →
      s'.transport.inflight.lookup tid = s.transport.inflight.lookup tid) : ServingInv v' s' := by
  refine ⟨role, agrees, fun tid h hh => ?_⟩
  rw [hwrites]
  exact inv.handles tid h ((hlookup tid (mem_of_lookup hh)).symm.trans hh)

theorem submitTransfer (role : RoleInv v (update (fun _ => []) kv (ws.map Write.demand)) s.role)
    (agrees : Serving.Agrees (fun _ => False) s)
    (handles : ∀ tid h, s.transport.inflight.lookup tid = some h →
      h.localIdxs = (v.writes tid).map (·.localIdx) ∧
        h.remoteIdxs = (v.writes tid).map (·.remoteIdx)) (hne : ws ≠ [])
    (hjobs : ∀ jobId ∈ jobIds, jobId ∈ s.role.storeJobs ∧ v.Of jobId kv ∧
      RoleInv.Unused s.role jobId)
    (hsource : ∀ x ∈ ws, x.jobId ∈ jobIds ∧ v.Owns x.jobId x.key x.localIdx) :
    ∃ writes, ServingInv { v with writes }
      (s.submitTransfer kv ⟨ws.map (·.localIdx), ws.map (·.remoteIdx), jobIds⟩) := by
  have hagrees := Serving.submitTransfer_agrees agrees kv
    ⟨ws.map (·.localIdx), ws.map (·.remoteIdx), jobIds⟩
  revert hagrees
  unfold Serving.submitTransfer NixlTransport.writeBlocks
  by_cases hpeer : s.role.peerId ∈ s.transport.remoteDlists
  · simp only [if_pos hpeer, length_map]
    intro hagrees
    have hfresh : s.transport.nextId ∉ s.role.inflight := fun hmem =>
      Nat.lt_irrefl _ ((agrees _).2.2 ((agrees _).1.mpr (.inl hmem)))
    refine ⟨update v.writes s.transport.nextId ws,
      role.add hfresh hne hjobs hsource, hagrees, fun tid h hh => ?_⟩
    rcases lookup_setItem_iff.mp hh with ⟨rfl, rfl⟩ | ⟨hne', hh⟩
    · simp only [update_self, and_self]
    · simp only [update_of_ne hne']
      exact handles tid h hh
  · simp only [if_neg hpeer]
    intro hagrees
    exact ⟨v.writes, role.dropExtra.submitFailed kv, hagrees, handles⟩

end ServingInv
end
end Vllm.Offload.P2P
