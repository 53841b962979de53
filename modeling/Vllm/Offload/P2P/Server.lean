import Vllm.Offload.P2P.Transport

/-! The server role of a P2P session (`tiering/p2p/session/server.py`). `K` is the type of
offload keys; times are in milliseconds, and each call reads the clock once. -/
namespace Vllm.Offload.P2P
open Dict

abbrev JobId := Nat
abbrev KvRequestId := Nat
abbrev Time := Nat

/-- The messages between two peers, without those of the handshake that only a session reads. -/
inductive Message (K : Type)
  | fetch (kvRequestId : KvRequestId) (blocks : List (K × Nat))
  | transferDone (kvRequestId : KvRequestId) (success : Bool)
  | abortFetch (kvRequestId : KvRequestId)
  | abortAck (kvRequestId : KvRequestId)
  deriving DecidableEq, Repr

def storeTimeout : Time := 30000
def cancelDrainTimeout : Time := 10000

structure StoreResult where
  jobId : JobId
  success : Bool
  deriving DecidableEq, Repr

structure InflightXfer where
  kvRequestId : KvRequestId
  blockCount : Nat
  jobIds : List JobId
  deriving DecidableEq, Repr

structure MatchResult where
  localIdxs : List Nat
  remoteIdxs : List Nat
  jobIds : List JobId
  deriving DecidableEq, Repr

/-- `_OutboundRequestState`. `available` has the blocks that wait for demand with their jobs,
`demanded` the blocks that the peer wants. -/
structure OutboundRequestState (K : Type) where
  demandReceived : Bool := false
  available : Dict K (JobId × Nat) := ∅
  demanded : Dict K Nat := ∅
  remaining : Nat := 0
  finishing : Bool := false
  pendingJobIds : List JobId := []

namespace OutboundRequestState

variable {K : Type} [DecidableEq K]

/-- The loop of `add_stored_blocks`: pairs of a local and a remote block. -/
def matchStored (jobId : JobId) :
    List (K × Nat) → OutboundRequestState K → List (Nat × Nat) × OutboundRequestState K
  | [], req => ([], req)
  | (key, localIdx) :: blocks, req =>
    match req.demanded.lookup key with
    | some remoteIdx =>
      let rest := matchStored jobId blocks { req with demanded := req.demanded.erase key }
      ((localIdx, remoteIdx) :: rest.1, rest.2)
    | none =>
      matchStored jobId blocks { req with available := req.available.insert key (jobId, localIdx) }

def addStoredBlocks (req : OutboundRequestState K) (blocks : List (K × Nat)) (jobId : JobId) :
    MatchResult × OutboundRequestState K :=
  let result :=
    matchStored jobId blocks { req with pendingJobIds := req.pendingJobIds.insert jobId }
  (⟨result.1.map Prod.fst, result.1.map Prod.snd, if result.1 = [] then [] else [jobId]⟩, result.2)

/-- The loop of `add_fetch_demand`: a job with a local and a remote block. -/
def matchDemand : List (K × Nat) → OutboundRequestState K →
    List (JobId × Nat × Nat) × OutboundRequestState K
  | [], req => ([], req)
  | (key, remoteIdx) :: blocks, req =>
    match req.available.lookup key with
    | some (jobId, localIdx) =>
      let rest := matchDemand blocks { req with available := req.available.erase key }
      ((jobId, localIdx, remoteIdx) :: rest.1, rest.2)
    | none => matchDemand blocks { req with demanded := req.demanded.insert key remoteIdx }

def addFetchDemand (req : OutboundRequestState K) (blocks : List (K × Nat)) :
    MatchResult × OutboundRequestState K :=
  let result := matchDemand blocks { req with demandReceived := true, remaining := blocks.length }
  (⟨result.1.map (·.2.1), result.1.map (·.2.2), (result.1.map (·.1)).dedup⟩, result.2)

end OutboundRequestState

/-- A protocol violation of the peer, or a failed `assert`. -/
inductive ServerError
  | value
  | assertion
  deriving DecidableEq, Repr

/-- `ServerRole`; `sent` are the messages that went to the send callback. -/
structure ServerRole (K : Type) where
  peerId : PeerId
  outbound : Dict KvRequestId (OutboundRequestState K) := ∅
  inflight : Dict TransferId InflightXfer := ∅
  inflightPerReq : Dict KvRequestId Nat := ∅
  storeJobs : Dict JobId Time := ∅
  pendingAborts : Dict KvRequestId Time := ∅
  pendingStoreResults : List StoreResult := []
  sent : List (Message K) := []

namespace ServerRole

variable {K : Type}

def hasInflightFor (r : ServerRole K) (kvRequestId : KvRequestId) : Bool :=
  (r.inflightPerReq.lookup kvRequestId).isSome

def inflightAdd (r : ServerRole K) (tid : TransferId) (xfer : InflightXfer) : ServerRole K :=
  { r with
    inflight := r.inflight.setItem tid xfer
    inflightPerReq := r.inflightPerReq.insert xfer.kvRequestId
      ((r.inflightPerReq.lookup xfer.kvRequestId).getD 0 + 1) }

/-- `_inflight_pop`; a count that reaches zero leaves. -/
def inflightPop (r : ServerRole K) (tid : TransferId) : Option InflightXfer × ServerRole K :=
  match r.inflight.lookup tid with
  | none => (none, r)
  | some xfer =>
    let count := (r.inflightPerReq.lookup xfer.kvRequestId).getD 0
    (some xfer,
      { r with
        inflight := r.inflight.erase tid
        inflightPerReq :=
          if 1 < count then r.inflightPerReq.insert xfer.kvRequestId (count - 1)
          else r.inflightPerReq.erase xfer.kvRequestId })

def popAll (r : ServerRole K) (tids : List TransferId) : ServerRole K :=
  tids.foldl (fun r tid => (r.inflightPop tid).2) r

def inflightOf (r : ServerRole K) (kvRequestIds : List KvRequestId) : List TransferId :=
  (r.inflight.entries.filter (·.2.kvRequestId ∈ kvRequestIds)).map (·.1)

/-- `_finalize_outbound`. Without `success` it is whether all blocks were transferred. -/
def finalizeOutbound (r : ServerRole K) (kvRequestId : KvRequestId) (success : Option Bool) :
    ServerRole K :=
  match r.outbound.lookup kvRequestId with
  | none => r
  | some req =>
    let success := success.getD (decide (req.remaining = 0))
    { r with
      outbound := r.outbound.erase kvRequestId
      storeJobs := eraseAll r.storeJobs req.pendingJobIds
      pendingStoreResults :=
        r.pendingStoreResults ++ req.pendingJobIds.map fun jobId => ⟨jobId, success⟩
      sent := r.sent ++ [.transferDone kvRequestId success] }

/-- A transfer could not be submitted: its request ends as soon as nothing is in flight. -/
def submitFailed (r : ServerRole K) (kvRequestId : KvRequestId) : ServerRole K :=
  match r.outbound.lookup kvRequestId with
  | none => r
  | some req =>
    let r := { r with outbound := r.outbound.insert kvRequestId { req with finishing := true } }
    if r.hasInflightFor kvRequestId then r else r.finalizeOutbound kvRequestId (some false)

def finish (r : ServerRole K) (kvRequestId : KvRequestId) : ServerRole K :=
  match r.outbound.lookup kvRequestId with
  | none => r
  | some req =>
    let r := { r with outbound := r.outbound.insert kvRequestId { req with finishing := true } }
    if req.demandReceived = false then r
    else if r.hasInflightFor kvRequestId then r
    else r.finalizeOutbound kvRequestId none

def finalizeAbort (r : ServerRole K) (kvRequestId : KvRequestId) : ServerRole K :=
  { r with
    pendingAborts := r.pendingAborts.erase kvRequestId
    sent := r.sent ++ [.abortAck kvRequestId] }

def expiredJobs (r : ServerRole K) (now : Time) : List JobId :=
  (r.storeJobs.entries.filter fun e => e.2 + storeTimeout ≤ now).map (·.1)

def timeoutPendingStoreJobs (r : ServerRole K) (now : Time) : List StoreResult × ServerRole K :=
  ((r.expiredJobs now).map fun jobId => ⟨jobId, false⟩,
    { r with storeJobs := eraseAll r.storeJobs (r.expiredJobs now) })

/-- The first part of `collect_results`: the timeouts and the results that were deferred. -/
def surface (r : ServerRole K) (now : Time) : List StoreResult × ServerRole K :=
  let (results, r) := r.timeoutPendingStoreJobs now
  (results ++ r.pendingStoreResults, { r with pendingStoreResults := [] })

/-- The result of one job of a transfer that ended; a job that was reported already is skipped. -/
def reportJob (kvRequestId : KvRequestId) (success : Bool) (acc : List StoreResult × ServerRole K)
    (jobId : JobId) : List StoreResult × ServerRole K :=
  if jobId ∈ acc.2.storeJobs then
    (acc.1 ++ [⟨jobId, success⟩],
      { acc.2 with
        storeJobs := acc.2.storeJobs.erase jobId
        outbound :=
          match acc.2.outbound.lookup kvRequestId with
          | none => acc.2.outbound
          | some req =>
            acc.2.outbound.insert kvRequestId
              { req with pendingJobIds := req.pendingJobIds.filter (· ≠ jobId) } })
  else acc

def countDone (r : ServerRole K) (xfer : InflightXfer) : Except ServerError (ServerRole K) :=
  match r.outbound.lookup xfer.kvRequestId with
  | none => .ok r
  | some req =>
    if req.demandReceived = false then .ok r
    else if req.remaining < xfer.blockCount then .error .assertion
    else
      let remaining := req.remaining - xfer.blockCount
      let r := { r with outbound := r.outbound.insert xfer.kvRequestId { req with remaining } }
      if remaining = 0 then .ok (r.finalizeOutbound xfer.kvRequestId (some true))
      else if req.finishing ∧ r.hasInflightFor xfer.kvRequestId = false then
        .ok (r.finalizeOutbound xfer.kvRequestId (some false))
      else .ok r

/-- The loop of `collect_results` over the transfers that are done. A transfer that the role does
not know is dropped. -/
def onDone : List TransferId → List StoreResult × ServerRole K →
    Except ServerError (List StoreResult × ServerRole K)
  | [], acc => .ok acc
  | tid :: tids, (results, r) =>
    match r.inflightPop tid with
    | (none, r) => onDone tids (results, r)
    | (some xfer, r) =>
      let (results, r) := xfer.jobIds.foldl (reportJob xfer.kvRequestId true) (results, r)
      match r.countDone xfer with
      | .error e => .error e
      | .ok r => onDone tids (results, r)

def dropFailed (r : ServerRole K) (kvRequestId : KvRequestId) : ServerRole K :=
  match r.outbound.lookup kvRequestId with
  | none => r
  | some req =>
    { r with
      outbound := r.outbound.erase kvRequestId
      sent := if req.demandReceived then r.sent ++ [.transferDone kvRequestId false] else r.sent }

/-- The loop over the transfers that failed, with the requests they belong to. -/
def onFailed : List TransferId → List KvRequestId → List StoreResult × ServerRole K →
    List KvRequestId × List StoreResult × ServerRole K
  | [], failedIds, acc => (failedIds, acc)
  | tid :: tids, failedIds, (results, r) =>
    match r.inflightPop tid with
    | (none, r) => onFailed tids failedIds (results, r)
    | (some xfer, r) =>
      let (results, r) := xfer.jobIds.foldl (reportJob xfer.kvRequestId false) (results, r)
      onFailed tids (failedIds.insert xfer.kvRequestId) (results, r.dropFailed xfer.kvRequestId)

end ServerRole

structure Serving (K : Type) where
  role : ServerRole K
  transport : NixlTransport

namespace Serving

variable {K : Type}

variable (s : Serving K) (now : Time) (raises : TransferId → Bool)

def submitTransfer (kvRequestId : KvRequestId) (result : MatchResult) : Serving K :=
  match s.transport.writeBlocks s.role.peerId result.localIdxs result.remoteIdxs with
  | (some tid, transport) =>
    { role := s.role.inflightAdd tid ⟨kvRequestId, result.localIdxs.length, result.jobIds⟩
      transport }
  | (none, transport) => { role := s.role.submitFailed kvRequestId, transport }

def addStoredBlocks [DecidableEq K] (s : Serving K) (kvRequestId : KvRequestId)
    (blocks : List (K × Nat)) (jobId : JobId) (now : Time) : Serving K :=
  let result := ((s.role.outbound.lookup kvRequestId).getD {}).addStoredBlocks blocks jobId
  let s : Serving K :=
    { s with
      role :=
        { s.role with
          storeJobs := s.role.storeJobs.setItem jobId now
          outbound := s.role.outbound.insert kvRequestId result.2 } }
  if result.1.localIdxs ≠ [] ∧ result.2.demandReceived then s.submitTransfer kvRequestId result.1
  else s

/-- The demand of a fetch is recorded, and what is there already is submitted. -/
def recordDemand [DecidableEq K] (s : Serving K) (kvRequestId : KvRequestId)
    (blocks : List (K × Nat)) : Serving K :=
  let result := ((s.role.outbound.lookup kvRequestId).getD {}).addFetchDemand blocks
  let s : Serving K :=
    { s with role := { s.role with outbound := s.role.outbound.insert kvRequestId result.2 } }
  if result.1.localIdxs ≠ [] then s.submitTransfer kvRequestId result.1 else s

/-- `on_fetch`; a second fetch of a request is a protocol violation. A submission that failed
may have finalized the request. -/
def onFetch [DecidableEq K] (s : Serving K) (kvRequestId : KvRequestId)
    (blocks : List (K × Nat)) : Except ServerError (Serving K) :=
  if ((s.role.outbound.lookup kvRequestId).getD {}).demandReceived then .error .value
  else
    let s := s.recordDemand kvRequestId blocks
    match s.role.outbound.lookup kvRequestId with
    | none => .ok s
    | some req =>
      if req.finishing ∧ s.role.hasInflightFor kvRequestId = false then
        .ok { s with role := s.role.finalizeOutbound kvRequestId none }
      else .ok s

def drainAbort (kvRequestId : KvRequestId) : Serving K :=
  let role := { s.role with outbound := s.role.outbound.erase kvRequestId }
  let ids := role.inflightOf [kvRequestId]
  if ids = [] then { s with role := role.finalizeAbort kvRequestId }
  else if ((role.pendingAborts.lookup kvRequestId).map
      fun start => decide (start + cancelDrainTimeout ≤ now)).getD false then
    { role := (role.popAll ids).finalizeAbort kvRequestId
      transport := (s.transport.cancel ids .immediate raises).2 }
  else
    let (still, transport) := s.transport.cancel ids .wait raises
    let role := role.popAll (ids.filter (· ∉ still))
    { role := if still = [] then role.finalizeAbort kvRequestId else role, transport }

def onAbortFetch (kvRequestId : KvRequestId) : Serving K :=
  let pendingAborts :=
    if kvRequestId ∈ s.role.pendingAborts then s.role.pendingAborts
    else s.role.pendingAborts.setItem kvRequestId now
  drainAbort { s with role := { s.role with pendingAborts } } now raises kvRequestId

def drainPendingAborts : Serving K :=
  s.role.pendingAborts.keys.foldl (fun s kvRequestId => s.drainAbort now raises kvRequestId) s

/-- The other transfers of requests with a failed one are cancelled. -/
def cancelFailed (failedIds : List KvRequestId) : Serving K :=
  if failedIds = [] then s
  else
    let ids := s.role.inflightOf failedIds
    { role := s.role.popAll ids
      transport := (s.transport.cancel ids .immediate fun _ => false).2 }

def collectResults (check : TransferId → XferState) :
    Except ServerError (List StoreResult × Serving K) :=
  let (polled, transport) := s.transport.poll check
  match ServerRole.onDone polled.done (s.role.surface now) with
  | .error e => .error e
  | .ok acc =>
    let (failedIds, results, role) := ServerRole.onFailed polled.failed [] acc
    .ok (results, cancelFailed ⟨role, transport⟩ failedIds)

/-- `close`: the store jobs that are still open. -/
def close : List JobId × Serving K :=
  (s.role.storeJobs.keys,
    { role := { peerId := s.role.peerId, sent := s.role.sent }
      transport := (s.transport.cancel s.role.inflight.keys .immediate fun _ => false).2 })

end Serving

/-! ### The table of transfers in flight -/

variable {kv : KvRequestId}

namespace ServerRole

variable {K : Type} {r r' : ServerRole K} {tid : TransferId} {kvRequestIds : List KvRequestId}
  {xfer : InflightXfer}

theorem inflightPop_of_none (h : r.inflight.lookup tid = none) : r.inflightPop tid = (none, r) := by
  rw [inflightPop, h]

theorem inflightPop_of_some (h : r.inflight.lookup tid = some xfer) :
    r.inflightPop tid = (some xfer, (r.inflightPop tid).2) := by
  rw [inflightPop, h]

/-- Apart from the two tables of transfers, `_inflight_pop` changes nothing. -/
theorem inflightPop_eq (r : ServerRole K) (tid : TransferId) :
    ∃ inflightPerReq, (r.inflightPop tid).2 =
      { r with inflight := r.inflight.erase tid, inflightPerReq } := by
  unfold inflightPop
  cases hlookup : r.inflight.lookup tid with
  | none => exact ⟨_, by rw [erase_of_notMem (AList.lookup_eq_none.mp hlookup)]⟩
  | some xfer => exact ⟨_, rfl⟩

theorem inflight_inflightPop (r : ServerRole K) (tid : TransferId) :
    (r.inflightPop tid).2.inflight = r.inflight.erase tid := by
  obtain ⟨_, hpop⟩ := inflightPop_eq r tid
  rw [hpop]

theorem popAll_eq (r : ServerRole K) (tids : List TransferId) :
    ∃ inflightPerReq, r.popAll tids =
      { r with inflight := eraseAll r.inflight tids, inflightPerReq } := by
  induction tids generalizing r with
  | nil => exact ⟨_, rfl⟩
  | cons tid tids ih =>
    obtain ⟨_, hpop⟩ := inflightPop_eq r tid
    obtain ⟨inflightPerReq, hrest⟩ := ih (r.inflightPop tid).2
    refine ⟨inflightPerReq, hrest.trans ?_⟩
    rw [hpop, eraseAll_cons]

theorem inflight_popAll (r : ServerRole K) (tids : List TransferId) :
    (r.popAll tids).inflight = eraseAll r.inflight tids := by
  obtain ⟨_, hpop⟩ := popAll_eq r tids
  rw [hpop]

theorem mem_inflightOf :
    tid ∈ r.inflightOf kvRequestIds ↔
      ∃ xfer, r.inflight.lookup tid = some xfer ∧ xfer.kvRequestId ∈ kvRequestIds := by
  simp only [inflightOf, List.mem_map, List.mem_filter, decide_eq_true_eq]
  constructor
  · rintro ⟨⟨tid, xfer⟩, ⟨hmem, hkv⟩, rfl⟩
    exact ⟨xfer, lookup_iff_mem_entries.mpr hmem, hkv⟩
  · rintro ⟨xfer, hlookup, hkv⟩
    exact ⟨⟨tid, xfer⟩, ⟨lookup_iff_mem_entries.mp hlookup, hkv⟩, rfl⟩

theorem mem_inflight_of_mem_inflightOf (h : tid ∈ r.inflightOf kvRequestIds) : tid ∈ r.inflight := by
  obtain ⟨xfer, hlookup, -⟩ := mem_inflightOf.mp h
  exact mem_of_lookup hlookup

@[simp] theorem inflight_finalizeOutbound (kvRequestId : KvRequestId) (success : Option Bool) :
    (r.finalizeOutbound kvRequestId success).inflight = r.inflight := by
  unfold finalizeOutbound
  split <;> rfl

/-- A failed submission marks the request, and may finalize it. -/
theorem submitFailed_rule {P : ServerRole K → Prop} (h : P r)
    (mark : ∀ req, r.outbound.lookup kv = some req →
      P { r with outbound := r.outbound.insert kv { req with finishing := true } })
    (last : ∀ {r}, P r → r.hasInflightFor kv = false → P (r.finalizeOutbound kv (some false))) :
    P (r.submitFailed kv) := by
  unfold submitFailed
  split
  · exact h
  rename_i req hlookup
  simp only
  split
  · exact mark req hlookup
  · rename_i hnone
    exact last (mark req hlookup) (Bool.eq_false_iff.mpr hnone)

@[simp] theorem inflight_submitFailed (kvRequestId : KvRequestId) :
    (r.submitFailed kvRequestId).inflight = r.inflight :=
  submitFailed_rule (P := (·.inflight = r.inflight)) rfl (fun _ _ => rfl)
    fun h _ => (inflight_finalizeOutbound ..).trans h

@[simp] theorem inflight_finish (kvRequestId : KvRequestId) :
    (r.finish kvRequestId).inflight = r.inflight := by
  unfold finish
  split
  · rfl
  simp only
  split
  · rfl
  · split
    · rfl
    · exact inflight_finalizeOutbound ..

@[simp] theorem inflight_foldl_reportJob (kvRequestId : KvRequestId) (success : Bool)
    (jobIds : List JobId) (acc : List StoreResult × ServerRole K) :
    (jobIds.foldl (reportJob kvRequestId success) acc).2.inflight = acc.2.inflight := by
  induction jobIds generalizing acc with
  | nil => rfl
  | cons jobId jobIds ih =>
    rw [List.foldl_cons, ih]
    unfold reportJob
    split <;> rfl

/-- Counting a transfer changes its request, and may finalize it. -/
theorem countDone_rule {P : ServerRole K → Prop} (h : r.countDone xfer = .ok r') (same : P r)
    (set : ∀ req, P { r with outbound := r.outbound.insert xfer.kvRequestId req })
    (last : ∀ {r} success, P r → P (r.finalizeOutbound xfer.kvRequestId success)) : P r' := by
  unfold countDone at h
  split at h
  · cases h
    exact same
  split at h
  · cases h
    exact same
  split at h
  · cases h
  simp only at h
  split at h
  · cases h
    exact last _ (set _)
  split at h
  · cases h
    exact last _ (set _)
  · cases h
    exact set _

theorem inflight_countDone (h : r.countDone xfer = .ok r') : r'.inflight = r.inflight :=
  countDone_rule (P := (·.inflight = r.inflight)) h rfl (fun _ => rfl)
    fun _ h => (inflight_finalizeOutbound ..).trans h

@[simp] theorem inflight_dropFailed (kvRequestId : KvRequestId) :
    (r.dropFailed kvRequestId).inflight = r.inflight := by
  unfold dropFailed
  split <;> rfl

theorem inflight_onDone (tids : List TransferId) {acc acc' : List StoreResult × ServerRole K}
    (h : onDone tids acc = .ok acc') :
    acc'.2.inflight = eraseAll acc.2.inflight tids := by
  induction tids generalizing acc with
  | nil => cases h; rfl
  | cons tid tids ih =>
    rw [eraseAll_cons, ← inflight_inflightPop]
    rw [onDone] at h
    split at h
    · rename_i r₁ hpop
      rw [hpop]
      exact ih h
    · rename_i xfer r₁ hpop
      rw [hpop]
      simp only at h
      split at h
      · cases h
      · rename_i r₂ hcount
        rw [ih h, inflight_countDone hcount, inflight_foldl_reportJob]

section Rules

variable {P : List StoreResult × ServerRole K → Prop} {acc acc' : List StoreResult × ServerRole K}

/-- What every transfer that is done keeps holds after all of them. -/
theorem onDone_rule (tids : List TransferId) (h : onDone tids acc = .ok acc') (start : P acc)
    (step : ∀ {results r tid xfer r'}, P (results, r) → r.inflight.lookup tid = some xfer →
      let acc := xfer.jobIds.foldl (reportJob xfer.kvRequestId true) (results, (r.inflightPop tid).2)
      acc.2.countDone xfer = .ok r' → P (acc.1, r')) : P acc' := by
  induction tids generalizing acc with
  | nil =>
    cases h
    exact start
  | cons tid tids ih =>
    obtain ⟨results, r⟩ := acc
    rw [onDone] at h
    cases hlookup : r.inflight.lookup tid with
    | none =>
      rw [inflightPop_of_none hlookup] at h
      exact ih h start
    | some xfer =>
      rw [inflightPop_of_some hlookup] at h
      simp only at h
      split at h
      · cases h
      · rename_i r' hcount
        exact ih h (step start hlookup hcount)

theorem onDone_succeeds (tids : List TransferId) (start : P acc)
    (step : ∀ {results r xfer}, ∀ tid ∈ tids, P (results, r) → r.inflight.lookup tid = some xfer →
      let acc := xfer.jobIds.foldl (reportJob xfer.kvRequestId true) (results, (r.inflightPop tid).2)
      ∃ r', acc.2.countDone xfer = .ok r' ∧ P (acc.1, r')) :
    ∃ acc', onDone tids acc = .ok acc' ∧ P acc' := by
  induction tids generalizing acc with
  | nil => exact ⟨acc, rfl, start⟩
  | cons tid tids ih =>
    obtain ⟨results, r⟩ := acc
    have rest := fun {results r xfer} tid' h => @step results r xfer tid' (List.mem_cons_of_mem _ h)
    rw [onDone]
    cases hlookup : r.inflight.lookup tid with
    | none =>
      rw [inflightPop_of_none hlookup]
      exact ih start rest
    | some xfer =>
      obtain ⟨r', hcount, hP⟩ := step tid List.mem_cons_self start hlookup
      rw [inflightPop_of_some hlookup]
      simp only [hcount]
      exact ih hP rest

theorem onFailed_rule (tids : List TransferId) (failedIds : List KvRequestId) (start : P acc)
    (step : ∀ {results r tid xfer}, P (results, r) → r.inflight.lookup tid = some xfer →
      let acc :=
        xfer.jobIds.foldl (reportJob xfer.kvRequestId false) (results, (r.inflightPop tid).2)
      P (acc.1, acc.2.dropFailed xfer.kvRequestId)) : P (onFailed tids failedIds acc).2 := by
  induction tids generalizing failedIds acc with
  | nil => exact start
  | cons tid tids ih =>
    obtain ⟨results, r⟩ := acc
    rw [onFailed]
    cases hlookup : r.inflight.lookup tid with
    | none =>
      rw [inflightPop_of_none hlookup]
      exact ih failedIds start
    | some xfer =>
      rw [inflightPop_of_some hlookup]
      exact ih _ (step start hlookup)

end Rules

theorem inflight_onFailed (tids : List TransferId) (failedIds : List KvRequestId)
    (acc : List StoreResult × ServerRole K) :
    (onFailed tids failedIds acc).2.2.inflight = eraseAll acc.2.inflight tids := by
  induction tids generalizing failedIds acc with
  | nil => rfl
  | cons tid tids ih =>
    rw [eraseAll_cons, ← inflight_inflightPop, onFailed]
    split
    · rename_i r₁ hpop
      rw [hpop, ih]
    · rename_i xfer r₁ hpop
      rw [hpop, ih, inflight_dropFailed, inflight_foldl_reportJob]

/-- The requests of the failed transfers that the role knows. -/
theorem mem_onFailed_ids (tids : List TransferId) (failedIds : List KvRequestId)
    (acc : List StoreResult × ServerRole K) :
    kv ∈ (onFailed tids failedIds acc).1 ↔ kv ∈ failedIds ∨
      ∃ tid ∈ tids, ∃ xfer, acc.2.inflight.lookup tid = some xfer ∧ xfer.kvRequestId = kv := by
  induction tids generalizing failedIds acc with
  | nil => simp [onFailed]
  | cons tid tids ih =>
    rw [onFailed]
    cases hlookup : acc.2.inflight.lookup tid with
    | none =>
      simp only [inflightPop_of_none hlookup, ih, List.exists_mem_cons_iff, hlookup, reduceCtorEq,
        false_and, exists_false, false_or]
    | some xfer =>
      rw [inflightPop_of_some hlookup]
      simp only [ih, inflight_dropFailed, inflight_foldl_reportJob, inflight_inflightPop,
        List.mem_insert_iff, List.exists_mem_cons_iff, lookup_erase_iff]
      constructor
      · rintro ((rfl | hmem) | ⟨tid', htid', xfer', ⟨-, hlookup'⟩, hkv⟩)
        · exact .inr (.inl ⟨xfer, hlookup, rfl⟩)
        · exact .inl hmem
        · exact .inr (.inr ⟨tid', htid', xfer', hlookup', hkv⟩)
      · rintro (hmem | ⟨xfer', hlookup', rfl⟩ | ⟨tid', htid', xfer', hlookup', rfl⟩)
        · exact .inl (.inr hmem)
        · rw [hlookup, Option.some.injEq] at hlookup'
          exact .inl (.inl (hlookup' ▸ rfl))
        · by_cases heq : tid' = tid
          · rw [heq, hlookup, Option.some.injEq] at hlookup'
            exact .inl (.inl (hlookup' ▸ rfl))
          · exact .inr ⟨tid', htid', xfer', ⟨heq, hlookup'⟩, rfl⟩

end ServerRole

variable {K : Type} {s s' : Serving K} {now : Time}

/-- What holds once the demand is recorded holds after a fetch, if finalizing keeps it. -/
theorem Serving.onFetch_rule [DecidableEq K] {blocks : List (K × Nat)} {P : Serving K → Prop}
    (h : s.onFetch kv blocks = .ok s')
    (record : ((s.role.outbound.lookup kv).getD {}).demandReceived = false →
      P (s.recordDemand kv blocks))
    (last : ∀ {s₁}, s₁ = s.recordDemand kv blocks → P s₁ → s₁.role.hasInflightFor kv = false →
      P { s₁ with role := s₁.role.finalizeOutbound kv none }) : P s' := by
  unfold onFetch at h
  split at h
  · cases h
  rename_i hfirst
  have hrecord := record (Bool.eq_false_iff.mpr hfirst)
  simp only at h
  split at h
  · cases h
    exact hrecord
  split at h
  · rename_i hfinal
    cases h
    exact last rfl hrecord hfinal.2
  · cases h
    exact hrecord

theorem Serving.drainPendingAborts_rule {P : Serving K → Prop} {raises : TransferId → Bool}
    (step : ∀ {s} kv, P s → P (s.drainAbort now raises kv)) (h : P s) :
    P (s.drainPendingAborts now raises) := by
  unfold drainPendingAborts
  generalize s.role.pendingAborts.keys = kvs
  induction kvs generalizing s with
  | nil => exact h
  | cons kv kvs ih => exact ih (step kv h)

/-- What a successful `collect_results` did. -/
theorem Serving.collectResults_ok {check : TransferId → XferState} {results : List StoreResult}
    (h : s.collectResults now check = .ok (results, s')) :
    ∃ acc failedIds role,
      ServerRole.onDone (s.transport.poll check).1.done (s.role.surface now) = .ok acc ∧
      ServerRole.onFailed (s.transport.poll check).1.failed [] acc = (failedIds, results, role) ∧
      s' = cancelFailed ⟨role, (s.transport.poll check).2⟩ failedIds := by
  unfold collectResults at h
  simp only at h
  split at h
  · cases h
  · rename_i acc hdone
    cases h
    exact ⟨acc, _, _, hdone, rfl, rfl⟩

end Vllm.Offload.P2P
