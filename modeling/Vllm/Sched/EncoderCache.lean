import Mathlib.Data.List.Sort
import Vllm.KVCache.BlockPool
import Vllm.Lib.Run

/-! The managers of the encoder cache (`vllm/v1/core/encoder_cache_manager.py`). Sets are lists.
The order of a request's cached ids decides which of its entries is evicted first; they ascend,
as CPython walks a set of ids below the size of its table. -/
namespace Vllm.Sched
open Function

inductive SchedError
  | assertion
  | indexError
  | keyError
  /-- `RuntimeError` for the status of an admitted request. -/
  | invalidStatus
  /-- `RuntimeError` of `reset_prefix_cache`. -/
  | resetFailed
  | kv (e : KVCache.KVError)
  deriving DecidableEq, Repr

def mmFeature (request : Request) (i : Nat) : Except SchedError MultiModalFeature :=
  match request.mmFeatures[i]? with
  | none => .error .indexError
  | some f => .ok f

/-- `EncoderCacheManager`. An entry of `cached` holds the requests that refer to it, and an
entry of `freeable` the number of its embeddings. -/
structure EncoderCacheManager where
  cacheSize : Nat
  numFreeSlots : Int
  numFreeableSlots : Int
  cached : String → Option (List ReqId) := fun _ => none
  requestCachedIds : ReqId → List Nat := fun _ => []
  freeable : List (String × Nat) := []
  freed : List String := []

namespace EncoderCacheManager

def create (cacheSize : Nat) : EncoderCacheManager where
  cacheSize := cacheSize
  numFreeSlots := cacheSize
  numFreeableSlots := cacheSize

def refer (m : EncoderCacheManager) (mmHash : String) (r : ReqId) (i : Nat) : EncoderCacheManager :=
  { m with
    cached := update m.cached mmHash (some (((m.cached mmHash).getD []).insert r))
    requestCachedIds := update m.requestCachedIds r
      (((m.requestCachedIds r).erase i).orderedInsert (· ≤ ·) i) }

def checkAndUpdateCache (m : EncoderCacheManager) (request : Request) (i : Nat) :
    Except SchedError (EncoderCacheManager × Bool) :=
  match mmFeature request i with
  | .error e => .error e
  | .ok f =>
    match m.cached f.identifier with
    | none => .ok (m, false)
    | some [] =>
      match m.freeable.lookup f.identifier with
      | none => .error .keyError
      | some numEmbeds =>
        .ok
          ({ m with
              freeable := m.freeable.filter (·.1 ≠ f.identifier)
              numFreeableSlots := m.numFreeableSlots - numEmbeds }.refer f.identifier
                request.requestId i, true)
    | some (_ :: _) => .ok (m.refer f.identifier request.requestId i, true)

/-- The eviction loop of `can_allocate`, over the entries of `freeable`. -/
def evictLoop (need : Int) :
    List (String × Nat) → EncoderCacheManager → Except SchedError EncoderCacheManager
  | entries, m =>
    if need ≤ m.numFreeSlots then .ok { m with freeable := entries }
    else
      match entries with
      | [] => .error .keyError
      | (mmHash, numEmbeds) :: rest =>
        if m.cached mmHash = none then .error .keyError
        else
          evictLoop need rest
            { m with
              cached := update m.cached mmHash none
              freed := m.freed ++ [mmHash]
              numFreeSlots := m.numFreeSlots + numEmbeds }

def canAllocate (m : EncoderCacheManager) (request : Request) (i : Nat)
    (encoderComputeBudget : Int) (numEmbedsToSchedule : Nat) :
    Except SchedError (EncoderCacheManager × Bool) :=
  match mmFeature request i with
  | .error e => .error e
  | .ok f =>
    let numEmbeds := f.mmPosition.getNumEmbeds
    let need : Int := numEmbeds + numEmbedsToSchedule
    if encoderComputeBudget < numEmbeds then .ok (m, false)
    else if need ≤ m.numFreeSlots then .ok (m, true)
    else if m.numFreeableSlots < need then .ok (m, false)
    else
      match evictLoop need m.freeable m with
      | .error e => .error e
      | .ok m => .ok (m, true)

def allocate (m : EncoderCacheManager) (request : Request) (i : Nat) :
    Except SchedError EncoderCacheManager :=
  match mmFeature request i with
  | .error e => .error e
  | .ok f =>
    let numEmbeds := f.mmPosition.getNumEmbeds
    if m.numFreeSlots < numEmbeds ∨ m.numFreeableSlots < numEmbeds then .error .assertion
    else
      .ok
        { m.refer f.identifier request.requestId i with
          numFreeSlots := m.numFreeSlots - numEmbeds
          numFreeableSlots := m.numFreeableSlots - numEmbeds }

def setFreeable (freeable : List (String × Nat)) (mmHash : String) (numEmbeds : Nat) :
    List (String × Nat) :=
  if freeable.any (·.1 = mmHash) then
    freeable.map fun e => if e.1 = mmHash then (mmHash, numEmbeds) else e
  else freeable ++ [(mmHash, numEmbeds)]

def freeEncoderInput (m : EncoderCacheManager) (request : Request) (i : Nat) :
    Except SchedError EncoderCacheManager :=
  match mmFeature request i with
  | .error e => .error e
  | .ok f =>
    let r := request.requestId
    let m := { m with
      requestCachedIds := update m.requestCachedIds r
        ((m.requestCachedIds r).filter (· ≠ i)) }
    match m.cached f.identifier with
    | none | some [] => .ok m
    | some refs =>
      let left := refs.filter (· ≠ r)
      let m := { m with cached := update m.cached f.identifier (some left) }
      if left = [] then
        let numEmbeds := f.mmPosition.getNumEmbeds
        .ok
          { m with
            freeable := setFreeable m.freeable f.identifier numEmbeds
            numFreeableSlots := m.numFreeableSlots + numEmbeds }
      else .ok m

def free (m : EncoderCacheManager) (request : Request) : Except SchedError EncoderCacheManager :=
  Run.run (·.freeEncoderInput request ·) m (m.requestCachedIds request.requestId)

end EncoderCacheManager

/-- `EncoderDecoderCacheManager`, which only counts slots. -/
structure EncoderDecoderCacheManager where
  cacheSize : Nat
  numFreeSlots : Int
  allocated : List String := []
  toFree : List String := []

namespace EncoderDecoderCacheManager

def canAllocate (m : EncoderDecoderCacheManager) (request : Request) (i : Nat)
    (encoderComputeBudget : Int) (numEmbedsToSchedule : Nat) : Except SchedError Bool :=
  match mmFeature request i with
  | .error e => .error e
  | .ok f =>
    let numEmbeds := f.mmPosition.getNumEmbeds
    .ok (decide (numEmbeds ≤ encoderComputeBudget ∧
      ((numEmbeds + numEmbedsToSchedule : Nat) : Int) ≤ m.numFreeSlots))

def allocate (m : EncoderDecoderCacheManager) (request : Request) (i : Nat) :
    Except SchedError EncoderDecoderCacheManager :=
  match mmFeature request i with
  | .error e => .error e
  | .ok f =>
    .ok
      { m with
        numFreeSlots := m.numFreeSlots - f.mmPosition.getNumEmbeds
        allocated := m.allocated ++ [f.identifier] }

def freeEncoderInput (m : EncoderDecoderCacheManager) (request : Request) (i : Nat) :
    Except SchedError EncoderDecoderCacheManager :=
  match mmFeature request i with
  | .error e => .error e
  | .ok f => .ok { m with numFreeSlots := m.numFreeSlots + f.mmPosition.getNumEmbeds }

end EncoderDecoderCacheManager

inductive EncoderCache
  | decoderOnly (m : EncoderCacheManager)
  | encoderDecoder (m : EncoderDecoderCacheManager)

namespace EncoderCache

def create (isEncoderDecoder : Bool) (cacheSize : Nat) : EncoderCache :=
  if isEncoderDecoder then .encoderDecoder { cacheSize, numFreeSlots := cacheSize }
  else .decoderOnly (EncoderCacheManager.create cacheSize)

def checkAndUpdateCache (c : EncoderCache) (request : Request) (i : Nat) :
    Except SchedError (EncoderCache × Bool) :=
  match c with
  | .decoderOnly m => (m.checkAndUpdateCache request i).map fun p => (.decoderOnly p.1, p.2)
  | .encoderDecoder m => .ok (.encoderDecoder m, false)

def canAllocate (c : EncoderCache) (request : Request) (i : Nat) (encoderComputeBudget : Int)
    (numEmbedsToSchedule : Nat) : Except SchedError (EncoderCache × Bool) :=
  match c with
  | .decoderOnly m =>
    (m.canAllocate request i encoderComputeBudget numEmbedsToSchedule).map fun p =>
      (.decoderOnly p.1, p.2)
  | .encoderDecoder m =>
    (m.canAllocate request i encoderComputeBudget numEmbedsToSchedule).map fun b =>
      (.encoderDecoder m, b)

def allocate (c : EncoderCache) (request : Request) (i : Nat) : Except SchedError EncoderCache :=
  match c with
  | .decoderOnly m => (m.allocate request i).map .decoderOnly
  | .encoderDecoder m => (m.allocate request i).map .encoderDecoder

def allocateInputs (c : EncoderCache) (request : Request) (inputs : List Nat) :
    Except SchedError EncoderCache :=
  Run.run (·.allocate request ·) c inputs

def freeEncoderInput (c : EncoderCache) (request : Request) (i : Nat) :
    Except SchedError EncoderCache :=
  match c with
  | .decoderOnly m => (m.freeEncoderInput request i).map .decoderOnly
  | .encoderDecoder m => (m.freeEncoderInput request i).map .encoderDecoder

def free (c : EncoderCache) (request : Request) : Except SchedError EncoderCache :=
  match c with
  | .decoderOnly m => (m.free request).map .decoderOnly
  | .encoderDecoder m =>
    (Run.run (·.freeEncoderInput request ·) m (List.range request.mmFeatures.length)).map
      .encoderDecoder

def getCachedInputIds (c : EncoderCache) (request : Request) : List Nat :=
  match c with
  | .decoderOnly m => m.requestCachedIds request.requestId
  | .encoderDecoder _ => List.range request.mmFeatures.length

def getFreedMmHashes (c : EncoderCache) : EncoderCache × List String :=
  match c with
  | .decoderOnly m => (.decoderOnly { m with freed := [] }, m.freed)
  | .encoderDecoder m =>
    (.encoderDecoder { m with toFree := m.allocated, allocated := [] }, m.toFree)

end EncoderCache
end Vllm.Sched
