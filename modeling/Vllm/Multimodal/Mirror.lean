import Vllm.Lib.Run
import Vllm.Multimodal.Caches

/-! The cache of the front-end knows what the cache of the engine holds, as long as both see the same
items in the same order. -/
namespace Vllm.Multimodal
open List Function

variable {K I U : Type} {size : I → Nat} {s s' : SenderCache K U} {r : ReceiverCache K I}

/-- The caches hold the same items of the same sizes in the same order. -/
structure Mirrors (size : I → Nat) (s : SenderCache K U) (r : ReceiverCache K I) : Prop where
  sender : s.getsizeof = (·.itemSize)
  receiver : r.getsizeof = size
  sizes : s.sizes = r.sizes

theorem Mirrors.keys (h : Mirrors size s r) : s.entries.map Prod.fst = r.entries.map Prod.fst := by
  have hentries := congrArg (fun c : LRUCache K Nat => c.entries.map Prod.fst) h.sizes
  simp only [LRUCache.sizes, map_map] at hentries
  exact hentries

variable {outss : List (List (Option I))}

theorem modalityFeatures_map (request : MMItems K I U)
    (hlen : outss.map length = request.map length) :
    (modalityFeatures request outss).map (·.map (·.mmHash)) = request.map (·.map (·.hash)) ∧
      (modalityFeatures request outss).map (·.map (·.offset)) = request.map (·.map (·.offset)) ∧
      (modalityFeatures request outss).map (·.map (·.data)) = outss := by
  induction request generalizing outss with
  | nil =>
    obtain rfl := map_eq_nil_iff.mp hlen
    exact ⟨rfl, rfl, rfl⟩
  | cons items request ih =>
    cases outss with
    | nil => cases hlen
    | cons outs outss =>
      simp only [map_cons, cons.injEq] at hlen
      obtain ⟨hhash, hoffset, hdata⟩ := ih hlen.2
      have hitem {β : Type} (g : MMItem K I U → β) :
          (items.zip outs).map (fun e => g e.1) = items.map g := by
        rw [← map_fst_zip hlen.1.ge, map_map, map_fst_zip hlen.1.ge]
        rfl
      have hout : (items.zip outs).map (fun e => e.2) = outs := map_snd_zip hlen.1.le
      simp only [modalityFeatures] at hhash hoffset hdata ⊢
      simp only [zip_cons_cons, map_cons, hhash, hoffset, hdata, map_map,
        comp_def, hitem, hout, and_self]

variable [DecidableEq K] {merged : List (List (K × Bool) × List (I × U))} {missing : List (I × U)}
  {outs : List (Option I)} {fs : List (MMFeature K I)}

section
variable (h : Mirrors size s r)
include h

theorem Mirrors.touch (hash : K) :
    Mirrors size (s.touch hash) (r.touch hash) where
  sender := (s.getsizeof_touch hash).trans h.sender
  receiver := (r.getsizeof_touch hash).trans h.receiver
  sizes := by rw [s.sizes_touch, r.sizes_touch, h.sizes]

theorem Mirrors.lookup_isSome (hash : K) :
    (r.lookup hash).isSome = (s.lookup hash).isSome := by
  have hlookup := congrArg (LRUCache.lookup · hash) h.sizes
  simp only [LRUCache.lookup_sizes] at hlookup
  rw [← Option.isSome_map (f := r.getsizeof), ← hlookup, Option.isSome_map]

theorem Mirrors.set {hash : K} {item : I} {updates : U}
    (hset : s.set hash ⟨size item, updates⟩ = some s') :
    ∃ r', r.set hash item = some r' ∧ Mirrors size s' r' := by
  have hsizes : (r.set hash item).map LRUCache.sizes = some s'.sizes := by
    have hs := s.sizes_set hash ⟨size item, updates⟩
    rw [hset, h.sender] at hs
    rw [r.sizes_set, h.receiver, ← h.sizes]
    exact hs.symm
  obtain ⟨r', hr', heq⟩ := Option.map_eq_some_iff.mp hsizes
  exact ⟨r', hr', (s.getsizeof_set hash hset).trans h.sender,
    (r.getsizeof_set hash hr').trans h.receiver, heq.symm⟩

theorem Mirrors.getAndUpdateItem {item : Option (I × U)} {hash : K}
    {out : Option I × U} (hsend : SenderCache.getAndUpdateItem s size item hash = (.ok out, s')) :
    ∃ got r', ReceiverCache.getAndUpdateItem r out.1 hash = .ok (got, r') ∧ Mirrors size s' r' := by
  have hsome := h.lookup_isSome hash
  unfold SenderCache.getAndUpdateItem at hsend
  unfold ReceiverCache.getAndUpdateItem
  simp only [LRUCache.get] at hsend ⊢
  cases hs : s.lookup hash with
  | some cached =>
    rw [hs] at hsend hsome
    cases hsend
    obtain ⟨got, hgot⟩ := Option.isSome_iff_exists.mp hsome
    rw [hgot]
    exact ⟨got, _, rfl, h.touch hash⟩
  | none =>
    rw [hs] at hsend hsome
    have hnone : r.lookup hash = none := Option.not_isSome_iff_eq_none.mp (by
      rw [hsome]
      exact Bool.false_ne_true)
    rw [hnone]
    simp only [LRUCache.touch_of_lookup_none _ _ hs,
      LRUCache.touch_of_lookup_none _ _ hnone] at hsend ⊢
    cases item with
    | none => cases hsend
    | some data =>
      simp only at hsend
      split at hsend
      · cases hsend
      rename_i hset
      cases hsend
      obtain ⟨r', hr', hmirrors⟩ := h.set hset
      simp only [hr']
      exact ⟨_, _, rfl, hmirrors⟩

end

theorem updateFeatures_append {fs' : List (MMFeature K I)} {r r' r'' : ReceiverCache K I}
    {items items' : List I} (h : updateFeatures fs r = .ok (items, r'))
    (h' : updateFeatures fs' r' = .ok (items', r'')) :
    updateFeatures (fs ++ fs') r = .ok (items ++ items', r'') := by
  induction fs generalizing r items with
  | nil =>
    cases h
    exact h'
  | cons f fs ih =>
    rw [updateFeatures] at h
    split at h
    · cases h
    rename_i hone
    split at h
    · cases h
    rename_i hrest
    cases h
    rw [cons_append, updateFeatures, hone]
    simp only [ih hrest]
    rfl

theorem Mirrors.mergeItems (hashes : List (K × Bool)) (h : Mirrors size s r)
    (hmerge : Multimodal.mergeItems size hashes missing s = (.ok outs, s'))
    (hhash : fs.map (·.mmHash) = hashes.map Prod.fst) (hdata : fs.map (·.data) = outs) :
    ∃ items r', updateFeatures fs r = .ok (items, r') ∧ Mirrors size s' r' := by
  induction hashes generalizing s r missing outs fs with
  | nil =>
    cases hmerge
    obtain rfl := map_eq_nil_iff.mp hhash
    exact ⟨_, _, rfl, h⟩
  | cons e hashes ih =>
    rw [Multimodal.mergeItems] at hmerge
    split at hmerge
    · cases hmerge
    split at hmerge
    · cases hmerge
    rename_i hsend
    split at hmerge
    · cases hmerge
    rename_i hrest
    cases hmerge
    cases fs with
    | nil => cases hhash
    | cons f fs =>
      simp only [map_cons, cons.injEq] at hhash hdata
      obtain ⟨got, r₁, hgot, hmirrors⟩ := h.getAndUpdateItem hsend
      obtain ⟨items, r₂, hupdate, hmirrors'⟩ := ih hmirrors hrest hhash.2 hdata.2
      refine ⟨got :: items, r₂, ?_, hmirrors'⟩
      rw [updateFeatures, hhash.1, hdata.1, hgot]
      simp only [hupdate]

theorem Mirrors.mergeModalities (merged : List (List (K × Bool) × List (I × U)))
    (h : Mirrors size s r) (hmerge : Multimodal.mergeModalities size merged s = (.ok outss, s'))
    {fss : List (List (MMFeature K I))}
    (hhash : fss.map (·.map (·.mmHash)) = merged.map fun m => m.1.map Prod.fst)
    (hdata : fss.map (·.map (·.data)) = outss) :
    ∃ items r', updateFeatures fss.flatten r = .ok (items, r') ∧ Mirrors size s' r' := by
  induction merged generalizing s r outss fss with
  | nil =>
    cases hmerge
    obtain rfl := map_eq_nil_iff.mp hhash
    exact ⟨_, _, rfl, h⟩
  | cons m merged ih =>
    obtain ⟨hashes, missing⟩ := m
    rw [Multimodal.mergeModalities] at hmerge
    split at hmerge
    · cases hmerge
    rename_i hone
    split at hmerge
    · cases hmerge
    rename_i hrest
    cases hmerge
    cases fss with
    | nil => cases hhash
    | cons fs fss =>
      simp only [map_cons, cons.injEq] at hhash hdata
      obtain ⟨items, r₁, hupdate, hmirrors⟩ := h.mergeItems hashes hone hhash.1 hdata.1
      obtain ⟨items', r₂, hupdate', hmirrors'⟩ := ih hmirrors hrest hhash.2 hdata.2
      exact ⟨_, _, updateFeatures_append hupdate hupdate', hmirrors'⟩

theorem mergeItems_length (hashes : List (K × Bool))
    (hmerge : mergeItems size hashes missing s = (.ok outs, s')) :
    outs.length = hashes.length := by
  induction hashes generalizing s missing outs with
  | nil =>
    cases hmerge
    rfl
  | cons e hashes ih =>
    rw [mergeItems] at hmerge
    split at hmerge
    · cases hmerge
    split at hmerge
    · cases hmerge
    split at hmerge
    · cases hmerge
    · rename_i hrest
      cases hmerge
      rw [length_cons, length_cons, ih hrest]

theorem mergeModalities_length (merged : List (List (K × Bool) × List (I × U)))
    (hmerge : mergeModalities size merged s = (.ok outss, s')) :
    outss.map length = merged.map fun m => m.1.length := by
  induction merged generalizing s outss with
  | nil =>
    cases hmerge
    rfl
  | cons m merged ih =>
    obtain ⟨hashes, missing⟩ := m
    rw [mergeModalities] at hmerge
    split at hmerge
    · cases hmerge
    rename_i hone
    split at hmerge
    · cases hmerge
    · rename_i hrest
      cases hmerge
      rw [map_cons, map_cons, ih hrest, mergeItems_length hashes hone]

theorem getCacheMissingItems_hashes {request : MMItems K I U}
    (h : getCacheMissingItems s request = .ok merged) :
    (merged.map fun m => m.1.map Prod.fst) = request.map (·.map (·.hash)) := by
  induction request generalizing merged with
  | nil =>
    cases h
    rfl
  | cons items request ih =>
    rw [getCacheMissingItems] at h
    split at h
    · cases h
    obtain ⟨rest, hrest, rfl⟩ := Run.map_eq_ok h
    simp only [map_cons, ih hrest, map_map, comp_def]

theorem Mirrors.foldl_touch (hashes : List K) (h : Mirrors size s r) :
    Mirrors size (hashes.foldl LRUCache.touch s) (hashes.foldl LRUCache.touch r) := by
  induction hashes generalizing s r with
  | nil => exact h
  | cons hash hashes ih => exact ih (h.touch hash)

def InOrder (request : MMItems K I U) : Prop :=
  (request.flatten.map (·.offset)).Pairwise (· ≤ ·)

theorem Mirrors.request (h : Mirrors size s r) {request : MMItems K I U}
    (hmissing : getCacheMissingItems s request = .ok merged)
    (hmerge : mergeMMKwargs size merged s = (.ok outss, s')) (horder : InOrder request) :
    ∃ items r', getAndUpdateFeatures (features request outss) r = .ok (items, r') ∧
      Mirrors size s' r' := by
  have hhashes := getCacheMissingItems_hashes hmissing
  have hlen : outss.map length = request.map length := by
    rw [mergeModalities_length _ hmerge]
    have hmap := congrArg (map length) hhashes
    simp only [map_map, comp_def, length_map] at hmap
    exact hmap
  obtain ⟨hhash, hoffset, hdata⟩ := modalityFeatures_map request hlen
  have hsorted : features request outss = (modalityFeatures request outss).flatten := by
    refine Pairwise.insertionSort_eq ?_
    have hpairwise : ((modalityFeatures request outss).flatten.map (·.offset)).Pairwise
        (· ≤ ·) := by
      rw [map_flatten, hoffset, ← map_flatten]
      exact horder
    exact pairwise_map.mp hpairwise
  have htouch : (modalityFeatures request outss).flatten.foldl (fun c f => c.touch f.mmHash) r =
      (request.flatten.map (·.hash)).foldl LRUCache.touch r := by
    rw [map_flatten, ← hhash, ← map_flatten, foldl_map]
  have htouch' : merged.foldl (fun c m => m.1.foldl (fun c e => c.touch e.1) c) s =
      (request.flatten.map (·.hash)).foldl LRUCache.touch s := by
    rw [map_flatten, ← hhashes, foldl_flatten]
    simp only [foldl_map]
  rw [mergeMMKwargs, htouch'] at hmerge
  rw [getAndUpdateFeatures, hsorted, htouch]
  exact (h.foldl_touch _).mergeModalities merged hmerge (hhash.trans hhashes.symm) hdata

end Vllm.Multimodal
