import Vllm.Lib.Run
import Vllm.Offload.P2P.Server

/-! The client role of a P2P session (`tiering/p2p/session/client.py`), the session itself
(`session.py`) and the secondary tier over all sessions (`tiering/p2p/manager.py`). The queue of
messages before the handshake, what the control transport carries and the shutdown of the tier are
left out. -/
namespace Vllm.Offload.P2P

/-! ### The client role -/

def loadTimeout : Time := 30000
def abortAckTimeout : Time := 10000

structure InboundRequestState where
  jobId : JobId
  submittedAt : Time
  abortedAt : Option Time := none
  deriving DecidableEq, Repr

structure LoadResult where
  jobId : JobId
  kvRequestId : KvRequestId
  success : Bool
  deriving DecidableEq, Repr

structure ClientRole (K : Type) where
  inbound : Dict KvRequestId InboundRequestState := ∅
  completedLoads : List LoadResult := []
  sent : List (Message K) := []

namespace ClientRole

variable {K : Type}

variable (c : ClientRole K) (kvRequestId : KvRequestId) (success : Bool)

def requestBlocks (jobId : JobId) (kvRequestId : KvRequestId)
    (blocks : List (K × Nat)) (now : Time) : ClientRole K :=
  { c with
    inbound := c.inbound.setItem kvRequestId { jobId, submittedAt := now }
    sent := c.sent ++ [.fetch kvRequestId blocks] }

def cancel : ClientRole K :=
  match c.inbound.lookup kvRequestId with
  | none => c
  | some req =>
    { c with
      inbound := c.inbound.erase kvRequestId
      sent := if req.abortedAt = none then c.sent ++ [.abortFetch kvRequestId] else c.sent }

/-- A load that ended: `on_transfer_done`, and `on_abort_ack` without success. -/
def complete : ClientRole K :=
  match c.inbound.lookup kvRequestId with
  | none => c
  | some req =>
    { c with
      inbound := c.inbound.erase kvRequestId
      completedLoads := c.completedLoads ++ [⟨req.jobId, kvRequestId, success⟩] }

def onTransferDone : ClientRole K :=
  c.complete kvRequestId success

def onAbortAck : ClientRole K :=
  c.complete kvRequestId false

/-- The timeout of one load: an abort is sent, or the load fails. -/
def expire (now : Time) (c : ClientRole K) (kvRequestId : KvRequestId) : ClientRole K :=
  match c.inbound.lookup kvRequestId with
  | none => c
  | some req =>
    match req.abortedAt with
    | none =>
      if req.submittedAt + loadTimeout ≤ now then
        { c with
          inbound := c.inbound.setItem kvRequestId { req with abortedAt := some now }
          sent := c.sent ++ [.abortFetch kvRequestId] }
      else c
    | some abortedAt =>
      if abortedAt + abortAckTimeout ≤ now then c.complete kvRequestId false else c

def collectResults (now : Time) : List LoadResult × ClientRole K :=
  let c := c.inbound.keys.foldl (expire now) c
  (c.completedLoads, { c with completedLoads := [] })

/-- `close`: the loads that are still open. -/
def close : List (JobId × KvRequestId) × ClientRole K :=
  (c.inbound.entries.map fun e => (e.2.jobId, e.1), { sent := c.sent })

end ClientRole

/-! ### Sessions -/

variable (K : Type)

/-- What a session receives. `connect` says whether the handshake data is valid. -/
inductive Received | connect (valid : Bool)
  | connectAck
  | message (m : Message K)
  | malformed
  | disconnect
  deriving DecidableEq, Repr

structure Session where
  alive : Bool := true
  sendReady : Bool := false
  newFetchIds : List KvRequestId := []
  client : ClientRole K := {}
  server : ServerRole K

structure Delivery where
  received : Received K
  now : Time
  raises : TransferId → Bool

structure PollInput where
  deliveries : List (Delivery K) := []
  clientNow : Time := 0
  serverNow : Time := 0
  check : TransferId → XferState
  abortNow : Time := 0
  bindNow : Time := 0
  raises : TransferId → Bool

namespace Session

variable {K : Type} [DecidableEq K]

def withServer (session : Session K) (s : Serving K) : Session K × NixlTransport :=
  ({ session with server := s.role }, s.transport)

/-- `_on_message`. A protocol violation closes the connection; nothing is handled after that. -/
def onMessage (acc : Session K × NixlTransport) (d : Delivery K) : Session K × NixlTransport :=
  let (session, t) := acc
  if session.alive = false then acc
  else
    let serving : Serving K := ⟨session.server, t⟩
    match d.received with
    | .connect valid =>
      if session.sendReady ∨ valid = false then ({ session with alive := false }, t)
      else (session, t.addRemotePeer session.server.peerId)
    | .connectAck => ({ session with sendReady := true }, t)
    | .message (.fetch kvRequestId blocks) =>
      match serving.onFetch kvRequestId blocks with
      | .error _ => ({ session with alive := false }, t)
      | .ok s =>
        { session with newFetchIds := session.newFetchIds ++ [kvRequestId] }.withServer s
    | .message (.abortFetch kvRequestId) =>
      session.withServer (serving.onAbortFetch d.now d.raises kvRequestId)
    | .message (.transferDone kvRequestId success) =>
      ({ session with client := session.client.onTransferDone kvRequestId success }, t)
    | .message (.abortAck kvRequestId) =>
      ({ session with client := session.client.onAbortAck kvRequestId }, t)
    | .malformed => ({ session with alive := false }, t)
    | .disconnect => ({ session with alive := false }, t)

structure SessionPollResult where
  loads : List LoadResult
  stores : List StoreResult
  newFetchIds : List KvRequestId

def poll (session : Session K) (t : NixlTransport) (input : PollInput K) :
    Except ServerError (SessionPollResult × Session K × NixlTransport) :=
  let (session, t) := input.deliveries.foldl onMessage (session, t)
  let (loads, client) := session.client.collectResults input.clientNow
  match Serving.collectResults ⟨session.server, t⟩ input.serverNow input.check with
  | .error e => .error e
  | .ok (stores, s) =>
    let s := s.drainPendingAborts input.abortNow input.raises
    .ok (⟨loads, stores, session.newFetchIds⟩,
      { session with client, server := s.role, newFetchIds := [] }, s.transport)

def close (session : Session K) (t : NixlTransport) :
    (List (JobId × KvRequestId) × List JobId) × NixlTransport :=
  let stores := Serving.close ⟨session.server, t⟩
  ((session.client.close.1, stores.1), stores.2.transport)

end Session

/-! ### The tier -/

def unboundStoreTimeout : Time := 60000

/-- The `prefill` or `decode` entry of the parameters of a request; `rest` says whether it has
entries that are not read here. -/
structure RoleParams where
  kvRequestId : Option KvRequestId := none
  remote : Option PeerId := none
  rest : Bool := false
  deriving DecidableEq, Repr

/-- An empty dictionary counts as absent. -/
def RoleParams.truthy (params : RoleParams) : Bool :=
  params.kvRequestId.isSome || params.remote.isSome || params.rest

structure ReqContext where
  prefill : Option RoleParams := none
  decode : Option RoleParams := none
  deriving DecidableEq, Repr

structure JobMetadata (K : Type) where
  jobId : JobId
  blocks : List (K × Nat)
  reqContext : ReqContext

structure JobResult where
  jobId : JobId
  success : Bool
  deriving DecidableEq, Repr

structure UnboundStoreBatch (K : Type) where
  jobId : JobId
  blocks : List (K × Nat)
  submittedAt : Time

/-- `P2PSecondaryTierManager`. A session is named by its peer, in `kvToSession` as well: the
entries of a session that died leave with it. -/
structure P2PTier (K : Type) where
  data : NixlTransport := {}
  sessions : Dict PeerId (Session K) := ∅
  kvToSession : Dict KvRequestId PeerId := ∅
  unboundStores : Dict KvRequestId (List (UnboundStoreBatch K)) := ∅
  finishedJobs : List JobResult := []
  failedReqIds : List KvRequestId := []

namespace P2PTier

variable {K : Type} [DecidableEq K]

def finishJob (t : P2PTier K) (jobId : JobId) (success : Bool) : P2PTier K :=
  { t with finishedJobs := t.finishedJobs ++ [⟨jobId, success⟩] }

def openSession (t : P2PTier K) (peerId : PeerId) : P2PTier K :=
  if peerId ∈ t.sessions then t
  else { t with sessions := t.sessions.setItem peerId { server := { peerId } } }

def onNewRequest (t : P2PTier K) (ctx : ReqContext) : P2PTier K :=
  match ctx.prefill.bind (·.remote) with
  | none => t
  | some peerId => t.openSession peerId

def finishSession (t : P2PTier K) (peerId : PeerId) (kvRequestId : KvRequestId) : P2PTier K :=
  match t.sessions.lookup peerId with
  | none => t
  | some session =>
    { t with
      sessions := t.sessions.setItem peerId
        { session with
          client := session.client.cancel kvRequestId
          server := session.server.finish kvRequestId } }

def onRequestFinished (t : P2PTier K) (ctx : ReqContext) : P2PTier K :=
  let prefill := ctx.prefill.filter (·.truthy)
  match (prefill.or ctx.decode).bind (·.kvRequestId) with
  | none => t
  | some kvRequestId =>
    let t := { t with failedReqIds := t.failedReqIds.filter (· ≠ kvRequestId) }
    match prefill with
    | some params =>
      match params.remote with
      | none => t
      | some peerId => t.finishSession peerId kvRequestId
    | none =>
      match t.kvToSession.lookup kvRequestId with
      | none => t
      | some peerId =>
        { t with kvToSession := t.kvToSession.erase kvRequestId }.finishSession peerId kvRequestId

def addStoredBlocks (t : P2PTier K) (peerId : PeerId) (kvRequestId : KvRequestId)
    (blocks : List (K × Nat)) (jobId : JobId) (now : Time) : P2PTier K :=
  match t.sessions.lookup peerId with
  | none => t
  | some session =>
    let s := Serving.addStoredBlocks ⟨session.server, t.data⟩ kvRequestId blocks jobId now
    { t with
      sessions := t.sessions.setItem peerId { session with server := s.role }
      data := s.transport }

def submitStore (t : P2PTier K) (job : JobMetadata K) (now : Time) : P2PTier K :=
  match job.reqContext.decode with
  | none => t.finishJob job.jobId true
  | some decode =>
    match decode.kvRequestId with
    | none => t.finishJob job.jobId false
    | some kvRequestId =>
      match t.kvToSession.lookup kvRequestId with
      | some peerId => t.addStoredBlocks peerId kvRequestId job.blocks job.jobId now
      | none =>
        { t with
          unboundStores := t.unboundStores.setItem kvRequestId
            ((t.unboundStores.lookup kvRequestId).getD [] ++ [⟨job.jobId, job.blocks, now⟩]) }

def submitLoad (t : P2PTier K) (job : JobMetadata K) (now : Time) : P2PTier K :=
  match job.reqContext.prefill.bind (·.remote), job.reqContext.prefill.bind (·.kvRequestId) with
  | some peerId, some kvRequestId =>
    if job.blocks = [] then t.finishJob job.jobId true
    else
      match t.sessions.lookup peerId with
      | none =>
        { t.finishJob job.jobId false with failedReqIds := t.failedReqIds.insert kvRequestId }
      | some session =>
        { t with
          sessions := t.sessions.setItem peerId
            { session with
              client := session.client.requestBlocks job.jobId kvRequestId job.blocks now } }
  | _, _ => t.finishJob job.jobId false

/-- A request that a peer fetched: the parked batches go to its session. -/
def bindFetch (peerId : PeerId) (now : Time) (t : P2PTier K) (kvRequestId : KvRequestId) :
    P2PTier K :=
  let batches := (t.unboundStores.lookup kvRequestId).getD []
  batches.foldl
    (fun t batch => t.addStoredBlocks peerId kvRequestId batch.blocks batch.jobId now)
    { t with
      kvToSession := t.kvToSession.setItem kvRequestId peerId
      unboundStores := t.unboundStores.erase kvRequestId }

def addResults (t : P2PTier K) (loads : List LoadResult) (stores : List StoreResult) : P2PTier K :=
  { t with
    finishedJobs := t.finishedJobs ++ (loads.map fun l => ⟨l.jobId, l.success⟩) ++
      stores.map fun s => ⟨s.jobId, s.success⟩
    failedReqIds := (loads.filter (!·.success)).foldl (fun ids l => ids.insert l.kvRequestId)
      t.failedReqIds }

/-- The loop of `_poll_once` for one session. -/
def pollSession (t : P2PTier K) (peerId : PeerId) (input : PollInput K) :
    Except ServerError (P2PTier K) :=
  match t.sessions.lookup peerId with
  | none => .ok t
  | some session =>
    match session.poll t.data input with
    | .error e => .error e
    | .ok (result, session, data) =>
      let t := { t with sessions := t.sessions.setItem peerId session, data }
      let t := t.addResults result.loads result.stores
      .ok (result.newFetchIds.foldl (bindFetch peerId input.bindNow) t)

/-- `_reap_dead_sessions`, one session. -/
def reapSession (t : P2PTier K) (peerId : PeerId) : P2PTier K :=
  match t.sessions.lookup peerId with
  | none => t
  | some session =>
    if session.alive then t
    else
      let ((failedLoads, failedStores), data) := session.close t.data
      let stale := t.kvToSession.keys.filter fun kv => t.kvToSession.lookup kv = some peerId
      { t with
        data := data.removeRemotePeer peerId
        sessions := t.sessions.erase peerId
        kvToSession := Dict.eraseAll t.kvToSession stale
        finishedJobs := t.finishedJobs ++ (failedLoads.map fun l => ⟨l.1, false⟩) ++
          failedStores.map fun jobId => ⟨jobId, false⟩
        failedReqIds := failedLoads.foldl (fun ids l => ids.insert l.2) t.failedReqIds }

/-- `_reap_unbound_stores`, one request; the oldest batch is the first. -/
def reapUnbound (now : Time) (t : P2PTier K) (kvRequestId : KvRequestId) : P2PTier K :=
  match t.unboundStores.lookup kvRequestId with
  | none => t
  | some batches =>
    if (batches.head?.map fun b => decide (b.submittedAt + unboundStoreTimeout ≤ now)).getD false
    then
      { t with
        unboundStores := t.unboundStores.erase kvRequestId
        failedReqIds := t.failedReqIds.insert kvRequestId
        finishedJobs := t.finishedJobs ++ batches.map fun b => ⟨b.jobId, false⟩ }
    else t

def takeFinished (t : P2PTier K) : List JobResult × P2PTier K :=
  (t.finishedJobs, { t with finishedJobs := [] })

def pollAll (t : P2PTier K) (inputs : PeerId → PollInput K) : Except ServerError (P2PTier K) :=
  Run.run (fun t peerId => t.pollSession peerId (inputs peerId)) t t.sessions.keys

structure Round (K : Type) where
  newConnections : List PeerId := []
  inputs : PeerId → PollInput K
  now : Time := 0

def pollOnce (t : P2PTier K) (round : Round K) : Except ServerError (P2PTier K) :=
  let t := round.newConnections.foldl openSession t
  match t.pollAll round.inputs with
  | .error e => .error e
  | .ok t =>
    let t := t.sessions.keys.foldl reapSession t
    .ok (t.unboundStores.keys.foldl (reapUnbound round.now) t)

def getFinishedJobs (t : P2PTier K) (round : Round K) :
    Except ServerError (List JobResult × P2PTier K) :=
  match t.pollOnce round with
  | .error e => .error e
  | .ok t => .ok t.takeFinished

/-- What `drain_jobs` waits for. -/
def pending (t : P2PTier K) : Bool :=
  t.sessions.entries.any fun e =>
    !e.2.client.inbound.keys.isEmpty || !e.2.server.inflight.keys.isEmpty

/-- `drain_jobs` over the passes it makes; it has not returned when they run out. -/
def drainJobs : List (Round K) → P2PTier K → Except ServerError (Option (P2PTier K))
  | [], _ => .ok none
  | round :: rounds, t =>
    match t.pollOnce round with
    | .error e => .error e
    | .ok t => if t.pending then drainJobs rounds t else .ok (some t)

inductive Op (K : Type)
  | newRequest (ctx : ReqContext)
  | accept (peerId : PeerId)
  | submitStore (job : JobMetadata K) (now : Time)
  | submitLoad (job : JobMetadata K) (now : Time)
  | requestFinished (ctx : ReqContext)
  | pollSession (peerId : PeerId) (input : PollInput K)
  | reapSession (peerId : PeerId)
  | reapUnbound (now : Time) (kvRequestId : KvRequestId)
  | takeFinished

def step (t : P2PTier K) : Op K → Except ServerError (P2PTier K)
  | .newRequest ctx => .ok (t.onNewRequest ctx)
  | .accept peerId => .ok (t.openSession peerId)
  | .submitStore job now => .ok (t.submitStore job now)
  | .submitLoad job now => .ok (t.submitLoad job now)
  | .requestFinished ctx => .ok (t.onRequestFinished ctx)
  | .pollSession peerId input => t.pollSession peerId input
  | .reapSession peerId => .ok (t.reapSession peerId)
  | .reapUnbound now kvRequestId => .ok (t.reapUnbound now kvRequestId)
  | .takeFinished => .ok t.takeFinished.2

end P2PTier
end Vllm.Offload.P2P
