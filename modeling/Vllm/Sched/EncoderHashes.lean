import Vllm.Lib.Run
import Vllm.Sched.CountBounds

/-! Which hashes the encoder cache manager holds after each of its operations, and which ones it
has evicted. -/
namespace Vllm.Sched
open List Function EncoderCache EncoderCacheManager Option

namespace EncoderCache

variable {c c' c'' : EncoderCache}

/-- The hash is a key of `cached`. The manager of encoder-decoder models has no such keys. -/
def holds : EncoderCache → String → Bool
  | .decoderOnly m, h => (m.cached h).isSome
  | .encoderDecoder _, _ => false

def evicted : EncoderCache → List String
  | .decoderOnly m => m.freed
  | .encoderDecoder _ => []

/-- Hashes are only lost, and those that are left have not been evicted in between. -/
structure Evicts (c c' : EncoderCache) : Prop where
  holds : ∀ h, c'.holds h = true → c.holds h = true
  evicted : ∀ h, c'.holds h = true → h ∈ c'.evicted → h ∈ c.evicted

theorem Evicts.refl (c : EncoderCache) : Evicts c c := ⟨fun _ h => h, fun _ _ h => h⟩

theorem Evicts.trans (h : Evicts c c') (h' : Evicts c' c'') : Evicts c c'' :=
  ⟨fun x hx => h.holds x (h'.holds x hx),
    fun x hx hev => h.evicted x (h'.holds x hx) (h'.evicted x hx hev)⟩

/-- Hashes are only lost, and none is evicted. -/
structure Frees (c c' : EncoderCache) : Prop where
  holds : ∀ h, c'.holds h = true → c.holds h = true
  evicted : c'.evicted = c.evicted

theorem Frees.refl (c : EncoderCache) : Frees c c := ⟨fun _ h => h, rfl⟩

theorem Frees.trans (h : Frees c c') (h' : Frees c' c'') : Frees c c'' :=
  ⟨fun x hx => h.holds x (h'.holds x hx), h'.evicted.trans h.evicted⟩

theorem Frees.of_eq {m m' : EncoderCacheManager} (hcached : m'.cached = m.cached)
    (hfreed : m'.freed = m.freed) : Frees (.decoderOnly m) (.decoderOnly m') :=
  ⟨fun x hx => (congrArg (fun cached => (cached x).isSome) hcached).symm.trans hx, hfreed⟩

theorem Frees.evicts (h : Frees c c') : Evicts c c' :=
  ⟨h.holds, fun _ _ hev => h.evicted ▸ hev⟩

end EncoderCache

variable {budget : Int} {b : Bool} {is : List Nat} {numEmbeds : Nat}

namespace EncoderCacheManager

variable {m m' : EncoderCacheManager} {request : Request} {x : String} {i : Nat}

theorem refer_cached_isSome {mmHash : String} {r : ReqId} :
    ((m.refer mmHash r i).cached x).isSome = true ↔ x = mmHash ∨ (m.cached x).isSome = true := by
  by_cases hx : x = mmHash
  · subst hx
    simp only [refer, update_self, isSome_some, true_or]
  · simp only [refer, update_of_ne hx, hx, false_or]

/-- A lookup neither adds nor evicts a hash. -/
theorem checkAndUpdateCache_frees (h : m.checkAndUpdateCache request i = .ok (m', b)) :
    Frees (.decoderOnly m) (.decoderOnly m') := by
  have hrefer : ∀ {m₁ : EncoderCacheManager} {mmHash : String} {refs : List ReqId},
      m₁.cached = m.cached → m₁.freed = m.freed → m.cached mmHash = some refs →
        Frees (.decoderOnly m) (.decoderOnly (m₁.refer mmHash request.requestId i)) := by
    intro m₁ mmHash refs hcached hfreed hin
    refine ⟨fun x hx => ?_, hfreed⟩
    show (m.cached x).isSome = true
    rcases refer_cached_isSome.mp hx with rfl | hx
    · rw [hin, isSome_some]
    · rw [← hcached]
      exact hx
  unfold checkAndUpdateCache at h
  split at h
  · cases h
  split at h
  · cases h
    exact .refl _
  · rename_i hcached
    split at h
    · cases h
    · cases h
      exact hrefer rfl rfl hcached
  · rename_i hcached
    cases h
    exact hrefer rfl rfl hcached

theorem evictLoop_evicts {need : Int} {entries : List (String × Nat)}
    (h : evictLoop need entries m = .ok m') :
    Evicts (.decoderOnly m) (.decoderOnly m') := by
  induction entries generalizing m with
  | nil =>
    unfold evictLoop at h
    split at h
    · cases h
      refine Frees.evicts ?_
      exact .of_eq rfl rfl
    · cases h
  | cons e entries ih =>
    unfold evictLoop at h
    split at h
    · cases h
      refine Frees.evicts ?_
      exact .of_eq rfl rfl
    · dsimp only at h
      split at h
      · cases h
      refine Evicts.trans ⟨fun x hx => ?_, fun x hx hev => ?_⟩ (ih h)
      · by_cases hxe : x = e.1
        · rw [hxe] at hx
          simp only [holds, update_self, isSome_none] at hx
          cases hx
        · simpa only [holds, update_of_ne hxe] using hx
      · rcases mem_append.mp hev with hev | hev
        · exact hev
        · rw [mem_singleton.mp hev] at hx
          simp only [holds, update_self, isSome_none] at hx
          cases hx

theorem canAllocate_evicts (h : m.canAllocate request i budget numEmbeds = .ok (m', b)) :
    Evicts (.decoderOnly m) (.decoderOnly m') := by
  unfold canAllocate at h
  split at h
  · cases h
  dsimp only at h
  split at h
  · cases h
    exact .refl _
  split at h
  · cases h
    exact .refl _
  split at h
  · cases h
    exact .refl _
  split at h
  · cases h
  · rename_i hloop
    cases h
    exact evictLoop_evicts hloop

/-- The entries stay when their last reference goes. -/
theorem freeEncoderInput_frees (h : m.freeEncoderInput request i = .ok m') :
    Frees (.decoderOnly m) (.decoderOnly m') := by
  unfold freeEncoderInput at h
  split at h
  · cases h
  rename_i f hf
  dsimp only at h
  split at h
  · cases h
    exact .of_eq rfl rfl
  · cases h
    exact .of_eq rfl rfl
  rename_i refs _ hcached
  have hkeeps : ∀ x left, (update m.cached f.identifier (some left) x).isSome = true →
        (m.cached x).isSome = true := by
    intro x left hx
    by_cases hxf : x = f.identifier
    · rw [hxf, hcached, isSome_some]
    · simpa only [update_of_ne hxf] using hx
  split at h
  · cases h
    exact ⟨fun x hx => hkeeps x _ hx, rfl⟩
  · cases h
    exact ⟨fun x hx => hkeeps x _ hx, rfl⟩

theorem free_frees (h : m.free request = .ok m') : Frees (.decoderOnly m) (.decoderOnly m') :=
  Run.run_rule (fun _ m' => Frees (.decoderOnly m) (.decoderOnly m'))
    (fun hm hfree => hm.trans (freeEncoderInput_frees hfree)) (.refl _) h

end EncoderCacheManager

namespace EncoderCache

variable {c c' : EncoderCache} {request : Request} {x : String} {i : Nat}

/-- Between managers of encoder-decoder models. -/
theorem Frees.encoderDecoder (m m' : EncoderDecoderCacheManager) :
    Frees (.encoderDecoder m) (.encoderDecoder m') :=
  ⟨fun _ h => h, rfl⟩

theorem checkAndUpdateCache_frees (h : c.checkAndUpdateCache request i = .ok (c', b)) :
    Frees c c' := by
  cases c with
  | decoderOnly m =>
    obtain ⟨⟨m', b'⟩, hm, heq⟩ := Run.map_eq_ok h
    cases heq
    exact checkAndUpdateCache_frees hm
  | encoderDecoder m =>
    cases h
    exact .refl _

theorem canAllocate_evicts (h : c.canAllocate request i budget numEmbeds = .ok (c', b)) :
    Evicts c c' := by
  cases c with
  | decoderOnly m =>
    obtain ⟨⟨m', b'⟩, hm, heq⟩ := Run.map_eq_ok h
    cases heq
    exact canAllocate_evicts hm
  | encoderDecoder m =>
    obtain ⟨b', -, heq⟩ := Run.map_eq_ok h
    cases heq
    exact .refl _

theorem freeEncoderInput_frees (h : c.freeEncoderInput request i = .ok c') : Frees c c' := by
  cases c with
  | decoderOnly m =>
    obtain ⟨m', hm, rfl⟩ := Run.map_eq_ok h
    exact freeEncoderInput_frees hm
  | encoderDecoder m =>
    obtain ⟨m', -, rfl⟩ := Run.map_eq_ok h
    exact .encoderDecoder m m'

theorem free_frees (h : c.free request = .ok c') : Frees c c' := by
  cases c with
  | decoderOnly m =>
    obtain ⟨m', hm, rfl⟩ := Run.map_eq_ok h
    exact free_frees hm
  | encoderDecoder m =>
    obtain ⟨m', -, rfl⟩ := Run.map_eq_ok h
    exact .encoderDecoder m m'

end EncoderCache

/-! ### Encoder inputs of a step -/

def itemHashes (request : Request) (inputs : List Nat) : List String :=
  inputs.filterMap fun i => request.mmFeatures[i]?.map (·.identifier)

theorem itemHashes_append (request : Request) (inputs inputs' : List Nat) :
    itemHashes request (inputs ++ inputs') =
      itemHashes request inputs ++ itemHashes request inputs' :=
  filterMap_append ..

namespace EncoderCache

variable {c c' : EncoderCache} {request : Request} {x : String} {i : Nat}

theorem allocate_holds (h : c.allocate request i = .ok c') :
    c'.evicted = c.evicted ∧
      ∀ x, c'.holds x = true → c.holds x = true ∨ x ∈ itemHashes request [i] := by
  cases c with
  | decoderOnly m =>
    obtain ⟨m', hm, rfl⟩ := Run.map_eq_ok h
    unfold EncoderCacheManager.allocate at hm
    split at hm
    · cases hm
    rename_i f hf
    dsimp only at hm
    split at hm
    · cases hm
    cases hm
    refine ⟨rfl, fun x hx => ?_⟩
    rcases (refer_cached_isSome (i := i)).mp hx with rfl | hx
    · refine .inr ?_
      simp only [itemHashes, filterMap_cons, mmFeature_eq_ok hf, map_some,
        filterMap_nil, mem_singleton]
    · exact .inl hx
  | encoderDecoder m =>
    obtain ⟨m', -, rfl⟩ := Run.map_eq_ok h
    exact ⟨rfl, fun x hx => .inl hx⟩

theorem allocateInputs_holds (h : c.allocateInputs request is = .ok c') :
    c'.evicted = c.evicted ∧
      ∀ x, c'.holds x = true → c.holds x = true ∨ x ∈ itemHashes request is := by
  induction is generalizing c with
  | nil =>
    cases h
    exact ⟨rfl, fun x hx => .inl hx⟩
  | cons i is ih =>
    obtain ⟨c₁, halloc, h⟩ := Run.run_cons h
    obtain ⟨hev, hholds⟩ := allocate_holds halloc
    obtain ⟨hev', hholds'⟩ := ih h
    refine ⟨hev'.trans hev, fun x hx => ?_⟩
    have hsplit : itemHashes request (i :: is) =
        itemHashes request [i] ++ itemHashes request is := itemHashes_append request [i] is
    rw [hsplit, mem_append]
    rcases hholds' x hx with hx | hx
    · exact (hholds x hx).imp_right .inl
    · exact .inr (.inr hx)

theorem getFreedMmHashes_holds (c : EncoderCache) :
    c.getFreedMmHashes.1.evicted = [] ∧
      ∀ x, c.getFreedMmHashes.1.holds x = true →
        c.holds x = true ∧ (x ∉ c.evicted → x ∉ c.getFreedMmHashes.2) := by
  cases c with
  | decoderOnly m => exact ⟨rfl, fun x hx => ⟨hx, id⟩⟩
  | encoderDecoder m => exact ⟨rfl, nofun⟩

end EncoderCache

variable {scan scan' : EncoderScan} {w : EncoderWindow} {cfg : SchedConfig} {answers : Answers}
  {request : Request} {n : Option Int} {numNew : Int}

/-- Planning the inputs of a request only evicts. -/
theorem scanItem_evicts {i : Nat} {f : MultiModalFeature}
    (h : scanItem cfg answers w i f scan = .ok (scan', n)) :
    Evicts scan.encoder scan'.encoder := by
  unfold scanItem at h
  split at h
  · cases h
    exact .refl _
  split at h
  · cases h
  · rename_i halloc
    cases h
    exact canAllocate_evicts halloc
  · rename_i halloc
    split at h
    · cases h
      exact canAllocate_evicts halloc
    split at h
    · cases h
      exact canAllocate_evicts halloc
    · cases h
      exact canAllocate_evicts halloc

theorem scanInput_evicts {i : Nat} (h : scanInput cfg answers w i scan = .ok (scan', n)) :
    Evicts scan.encoder scan'.encoder := by
  unfold scanInput at h
  split at h
  · cases h
  split at h
  · split at h
    · split at h
      · cases h
      · cases h
        exact .refl _
    · exact scanItem_evicts h
  · split at h
    · cases h
      exact .refl _
    split at h
    · cases h
    · rename_i hcheck
      cases h
      exact (checkAndUpdateCache_frees hcheck).evicts
    · rename_i hcheck
      exact (checkAndUpdateCache_frees hcheck).evicts.trans (scanItem_evicts h)

theorem scanInputs_evicts {n : Int} (h : scanInputs cfg answers w is scan = .ok (scan', n)) :
    Evicts scan.encoder scan'.encoder := by
  induction is generalizing scan with
  | nil =>
    cases h
    exact .refl _
  | cons i is ih =>
    unfold scanInputs at h
    split at h
    · cases h
    · rename_i hscan
      cases h
      exact scanInput_evicts hscan
    · rename_i hscan
      exact (scanInput_evicts hscan).trans (ih h)

theorem tryScheduleEncoderInputs_evicts {encoder encoder' : EncoderCache} {numComputed : Int}
    {plan : EncoderPlan}
    (h : tryScheduleEncoderInputs cfg answers encoder request numComputed numNew budget =
      .ok (encoder', plan)) : Evicts encoder encoder' := by
  unfold tryScheduleEncoderInputs at h
  split at h
  · cases h
    exact .refl _
  dsimp only at h
  split at h
  · cases h
  · rename_i hscan
    cases h
    exact scanInputs_evicts hscan

def ItemsDone (cfg : SchedConfig) (request : Request) : Prop :=
  request.mmFeatures = [] ∨
    (cfg.isEncoderDecoder = false ∧
      ∀ f ∈ request.mmFeatures, (f.stop : Int) ≤ request.numComputedTokens)

instance (cfg : SchedConfig) (request : Request) : Decidable (ItemsDone cfg request) :=
  inferInstanceAs (Decidable (_ ∨ (_ ∧ _)))

theorem ItemsDone.plan {encoder encoder' : EncoderCache} {plan : EncoderPlan}
    (hdone : ItemsDone cfg request)
    (h : tryScheduleEncoderInputs cfg answers encoder request request.numComputedTokens numNew
      budget = .ok (encoder', plan)) : plan.inputs = [] := by
  unfold tryScheduleEncoderInputs at h
  split at h
  · cases h
    rfl
  rename_i hne
  rcases hdone with hnil | ⟨hcfg, hdone⟩
  · exact (hne (.inr hnil)).elim
  have hlo : (mmFeaturesInWindow request.mmFeatures request.numComputedTokens
      (request.numComputedTokens + numNew + cfg.shift)).1 = request.mmFeatures.length := by
    unfold mmFeaturesInWindow
    rw [takeWhile_eq_self_iff.mpr]
    intro f hf
    have := hdone f hf
    exact decide_eq_true (by omega)
  have hhi : (mmFeaturesInWindow request.mmFeatures request.numComputedTokens
      (request.numComputedTokens + numNew + cfg.shift)).2 ≤ request.mmFeatures.length :=
    (takeWhile_sublist _).length_le
  dsimp only at h
  rw [hcfg, if_neg Bool.false_ne_true, hlo, Nat.sub_eq_zero_of_le hhi] at h
  cases h
  rfl

end Vllm.Sched
