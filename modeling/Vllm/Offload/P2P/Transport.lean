import Vllm.Lib.OrderedDict

/-! The data transport of the P2P tier (`tiering/p2p/data/nixl.py`). One transport serves all
peers. What the NIXL agent says of a transfer, and whether it can release a handle, comes from
outside; submitting a transfer to a known peer succeeds. -/
namespace Vllm.Offload.P2P
open Dict List

abbrev PeerId := Nat
abbrev TransferId := Nat

/-- What `check_xfer_state` says of a transfer, or that it raised. -/
inductive XferState
  | done
  | proc
  | pend
  | err
  | raised
  deriving DecidableEq, Repr

def XferState.Ended (state : XferState) : Prop := state = .done ∨ state = .err

/-- A prepared write: local block `localIdxs[i]` goes to block `remoteIdxs[i]` of the peer. -/
structure Handle where
  peerId : PeerId
  localIdxs : List Nat
  remoteIdxs : List Nat
  deriving DecidableEq, Repr

inductive CancelMode
  | immediate
  | wait
  deriving DecidableEq, Repr

structure PollResult where
  done : List TransferId
  failed : List TransferId
  deriving DecidableEq, Repr

structure NixlTransport where
  remoteDlists : List PeerId := []
  inflight : Dict TransferId Handle := ∅
  nextId : TransferId := 0

namespace NixlTransport

variable {t : NixlTransport}

def addRemotePeer (t : NixlTransport) (peerId : PeerId) : NixlTransport :=
  { t with remoteDlists := t.remoteDlists.insert peerId }

def removeRemotePeer (t : NixlTransport) (peerId : PeerId) : NixlTransport :=
  { t with remoteDlists := t.remoteDlists.filter (· ≠ peerId) }

/-- `write_blocks`; no transfer for a peer that is not registered. -/
def writeBlocks (t : NixlTransport) (peerId : PeerId) (localIdxs remoteIdxs : List Nat) :
    Option TransferId × NixlTransport :=
  if peerId ∈ t.remoteDlists then
    (some t.nextId,
      { t with
        inflight := t.inflight.setItem t.nextId ⟨peerId, localIdxs, remoteIdxs⟩
        nextId := t.nextId + 1 })
  else (none, t)

/-- `poll`: what ended leaves the transport, whoever asked. -/
def poll (t : NixlTransport) (check : TransferId → XferState) : PollResult × NixlTransport :=
  let done := t.inflight.keys.filter (check · = .done)
  let failed := t.inflight.keys.filter (check · = .err)
  (⟨done, failed⟩, { t with inflight := eraseAll (eraseAll t.inflight done) failed })

/-- `cancel`. In wait mode a transfer whose handle cannot be released stays. -/
def cancel (t : NixlTransport) (transferIds : List TransferId) (mode : CancelMode)
    (raises : TransferId → Bool) : List TransferId × NixlTransport :=
  match mode with
  | .immediate => ([], { t with inflight := eraseAll t.inflight transferIds })
  | .wait =>
    let known := transferIds.filter (· ∈ t.inflight)
    (known.filter raises,
      { t with inflight := eraseAll t.inflight (known.filter (!raises ·)) })

variable {check : TransferId → XferState} {tid : TransferId} {raises : TransferId → Bool}
  {ids : List TransferId}

theorem mem_poll_done : tid ∈ (t.poll check).1.done ↔ tid ∈ t.inflight ∧ check tid = .done := by
  rw [poll, mem_filter, decide_eq_true_eq, AList.mem_keys]

theorem mem_poll_failed : tid ∈ (t.poll check).1.failed ↔ tid ∈ t.inflight ∧ check tid = .err := by
  rw [poll, mem_filter, decide_eq_true_eq, AList.mem_keys]

theorem mem_poll_inflight :
    tid ∈ (t.poll check).2.inflight ↔ tid ∈ t.inflight ∧ ¬ (check tid).Ended := by
  have hdone : tid ∈ t.inflight.keys.filter (check · = .done) ↔
      tid ∈ t.inflight ∧ check tid = .done := mem_poll_done
  have hfailed : tid ∈ t.inflight.keys.filter (check · = .err) ↔
      tid ∈ t.inflight ∧ check tid = .err := mem_poll_failed
  simp only [poll, mem_eraseAll, hdone, hfailed, XferState.Ended]
  tauto

theorem lookup_poll_inflight (h : ¬ (check tid).Ended) :
    (t.poll check).2.inflight.lookup tid = t.inflight.lookup tid := by
  rw [XferState.Ended, not_or] at h
  refine (lookup_eraseAll fun hmem => h.2 ?_).trans (lookup_eraseAll fun hmem => h.1 ?_)
  · exact of_decide_eq_true (mem_filter.mp hmem).2
  · exact of_decide_eq_true (mem_filter.mp hmem).2

theorem mem_cancel_immediate :
    tid ∈ (t.cancel ids .immediate raises).2.inflight ↔ tid ∉ ids ∧ tid ∈ t.inflight :=
  mem_eraseAll

/-- In wait mode the identifiers that are handed back are those that are still there. -/
theorem mem_cancel_wait :
    tid ∈ (t.cancel ids .wait raises).2.inflight ↔
      tid ∈ t.inflight ∧ (tid ∈ ids → tid ∈ (t.cancel ids .wait raises).1) := by
  simp only [cancel, mem_eraseAll, mem_filter, decide_eq_true_eq, Bool.not_eq_true']
  cases raises tid <;> simp <;> tauto

theorem lookup_cancel {mode : CancelMode} (h : tid ∈ (t.cancel ids mode raises).2.inflight) :
    (t.cancel ids mode raises).2.inflight.lookup tid = t.inflight.lookup tid := by
  cases mode with
  | immediate => exact lookup_eraseAll (mem_eraseAll.mp h).1
  | wait => exact lookup_eraseAll (mem_eraseAll.mp h).1

@[simp] theorem nextId_cancel (ids : List TransferId) (mode : CancelMode)
    (raises : TransferId → Bool) : (t.cancel ids mode raises).2.nextId = t.nextId := by
  cases mode <;> rfl

end NixlTransport
end Vllm.Offload.P2P
