import Vllm.Lib.LRUCache

/-! The multi-modal caches of the front-end and of the engine (`multimodal/cache.py`), what the
processor does with the first (`multimodal/processing/processor.py`) and how the items of a request
are handed on (`v1/engine/input_processor.py`). Keys are the hashes of items; `I` are processed
items, `U` their prompt updates. -/
namespace Vllm.Multimodal

inductive Error
  | missingData
  | missingItem
  | expectedCached
  | tooLarge
  deriving DecidableEq, Repr

structure ItemMetadata (U : Type) where
  itemSize : Nat
  promptUpdates : U

/-- `MultiModalProcessorSenderCache`: it keeps the sizes of the items only. -/
abbrev SenderCache (K U : Type) := LRUCache K (ItemMetadata U)

abbrev ReceiverCache (K I : Type) := LRUCache K I

variable {K I U : Type}

def SenderCache.new (maxsize : Nat) : SenderCache K U := ⟨maxsize, (·.itemSize), []⟩

def ReceiverCache.new (maxsize : Nat) (size : I → Nat) : ReceiverCache K I := ⟨maxsize, size, []⟩

/-- An item of a request: what the processor makes of its data, if the request has them, and where
its placeholder starts. -/
structure MMItem (K I U : Type) where
  hash : K
  data : Option (I × U)
  offset : Nat

abbrev MMItems (K I U : Type) := List (List (MMItem K I U))

structure MMFeature (K I : Type) where
  data : Option I
  mmHash : K
  offset : Nat

def modalityFeatures (request : MMItems K I U) (outs : List (List (Option I))) :
    List (List (MMFeature K I)) :=
  (request.zip outs).map fun m => (m.1.zip m.2).map fun e => ⟨e.2, e.1.hash, e.1.offset⟩

def features (request : MMItems K I U) (outs : List (List (Option I))) : List (MMFeature K I) :=
  (modalityFeatures request outs).flatten.insertionSort fun a b => a.offset ≤ b.offset

variable [DecidableEq K]

/-- `MultiModalProcessorSenderCache.get_and_update_item`: an item that is cached is not sent. -/
def SenderCache.getAndUpdateItem (c : SenderCache K U) (size : I → Nat) (item : Option (I × U))
    (hash : K) : Except Error (Option I × U) × SenderCache K U :=
  match c.get hash with
  | (some cached, c) => (.ok (none, cached.promptUpdates), c)
  | (none, c) =>
    match item with
    | none => (.error .expectedCached, c)
    | some (item, updates) =>
      match c.set hash ⟨size item, updates⟩ with
      | none => (.error .tooLarge, c)
      | some c => (.ok (some item, updates), c)

def ReceiverCache.getAndUpdateItem (c : ReceiverCache K I) (item : Option I) (hash : K) :
    Except Error (I × ReceiverCache K I) :=
  match c.get hash with
  | (some cached, c) => .ok (cached, c)
  | (none, c) =>
    match item with
    | none => .error .expectedCached
    | some item =>
      match c.set hash item with
      | none => .error .tooLarge
      | some c => .ok (item, c)

def missingData (c : SenderCache K U) : List (MMItem K I U) → Except Error (List (I × U))
  | [] => .ok []
  | item :: items =>
    if (c.lookup item.hash).isSome then missingData c items
    else
      match item.data with
      | none => .error .missingData
      | some data => (missingData c items).map (data :: ·)

/-- `_get_cache_missing_items`: whether each item is cached, and the data of the others. -/
def getCacheMissingItems (c : SenderCache K U) :
    MMItems K I U → Except Error (List (List (K × Bool) × List (I × U)))
  | [] => .ok []
  | items :: rest =>
    match missingData c items with
    | .error e => .error e
    | .ok missing =>
      (getCacheMissingItems c rest).map
        ((items.map fun item => (item.hash, (c.lookup item.hash).isSome), missing) :: ·)

/-- The next item of `_merge_mm_kwargs`: none if it is cached, and else the next that was missing. -/
def nextItem (isCached : Bool) (missing : List (I × U)) : Option (Option (I × U) × List (I × U)) :=
  if isCached then some (none, missing)
  else
    match missing with
    | [] => none
    | item :: missing => some (some item, missing)

/-- The loop of `_merge_mm_kwargs` over the items of one modality. -/
def mergeItems (size : I → Nat) :
    List (K × Bool) → List (I × U) → SenderCache K U → Except Error (List (Option I)) × SenderCache K U
  | [], _, c => (.ok [], c)
  | (hash, isCached) :: rest, missing, c =>
    match nextItem isCached missing with
    | none => (.error .missingItem, c)
    | some (item, missing) =>
      match c.getAndUpdateItem size item hash with
      | (.error e, c) => (.error e, c)
      | (.ok out, c) =>
        match mergeItems size rest missing c with
        | (.error e, c) => (.error e, c)
        | (.ok outs, c) => (.ok (out.1 :: outs), c)

def mergeModalities (size : I → Nat) : List (List (K × Bool) × List (I × U)) → SenderCache K U →
    Except Error (List (List (Option I))) × SenderCache K U
  | [], c => (.ok [], c)
  | (hashes, missing) :: rest, c =>
    match mergeItems size hashes missing c with
    | (.error e, c) => (.error e, c)
    | (.ok outs, c) =>
      match mergeModalities size rest c with
      | (.error e, c) => (.error e, c)
      | (.ok outss, c) => (.ok (outs :: outss), c)

/-- `_merge_mm_kwargs`: every hash is touched before the first update. -/
def mergeMMKwargs (size : I → Nat) (merged : List (List (K × Bool) × List (I × U)))
    (c : SenderCache K U) : Except Error (List (List (Option I))) × SenderCache K U :=
  mergeModalities size merged
    (merged.foldl (fun c m => m.1.foldl (fun c e => c.touch e.1) c) c)

/-- What the processor does with the cache for one request: the items to send, by modality. -/
def processItems (size : I → Nat) (request : MMItems K I U) (c : SenderCache K U) :
    Except Error (List (List (Option I))) × SenderCache K U :=
  match getCacheMissingItems c request with
  | .error e => (.error e, c)
  | .ok merged => mergeMMKwargs size merged c

def updateFeatures : List (MMFeature K I) → ReceiverCache K I →
    Except Error (List I × ReceiverCache K I)
  | [], c => .ok ([], c)
  | feature :: rest, c =>
    match ReceiverCache.getAndUpdateItem c feature.data feature.mmHash with
    | .error e => .error e
    | .ok (item, c) =>
      match updateFeatures rest c with
      | .error e => .error e
      | .ok (items, c) => .ok (item :: items, c)

def getAndUpdateFeatures (mmFeatures : List (MMFeature K I)) (c : ReceiverCache K I) :
    Except Error (List I × ReceiverCache K I) :=
  updateFeatures mmFeatures (mmFeatures.foldl (fun c f => c.touch f.mmHash) c)

end Vllm.Multimodal
