import Vllm.Multimodal.Mirror

/-! Runs of one front-end and one engine: requests are processed one after the other, and each is
sent to the engine or rejected by a later check. -/
namespace Vllm.Multimodal
open List

structure CachePair (K I U : Type) where
  sender : SenderCache K U
  receiver : ReceiverCache K I

namespace CachePair

variable {K I U : Type}

def start (size : I → Nat) (maxsize : Nat) : CachePair K I U :=
  ⟨.new maxsize, .new maxsize size⟩

variable [DecidableEq K]

/-- One request, with whether the checks after the processor accept it. A request on which the
processor fails is not sent, but what it did to the cache stays. -/
def step (size : I → Nat) (g : CachePair K I U) (request : MMItems K I U × Bool) :
    Except Error (CachePair K I U) :=
  match processItems size request.1 g.sender with
  | (.error _, sender) => .ok { g with sender }
  | (.ok outs, sender) =>
    if request.2 then
      match getAndUpdateFeatures (features request.1 outs) g.receiver with
      | .error e => .error e
      | .ok (_, receiver) => .ok ⟨sender, receiver⟩
    else .ok { g with sender }

/-- The placeholders come in the order of the modalities; the processor does not fail once it updates
its cache; and only a request without items is rejected afterwards. -/
def Safe (size : I → Nat) (g : CachePair K I U) (request : MMItems K I U × Bool) : Prop :=
  InOrder request.1 ∧ (request.2 = true ∨ request.1.flatten = []) ∧
    ∀ merged, getCacheMissingItems g.sender request.1 = .ok merged →
      ∃ outs sender, mergeMMKwargs size merged g.sender = (.ok outs, sender)

variable {size : I → Nat} {g : CachePair K I U}

def Mirrored (size : I → Nat) (g : CachePair K I U) : Prop := Mirrors size g.sender g.receiver

end CachePair
end Vllm.Multimodal
