import Vllm.Sched.TokenCounts

/-! Every clamp on the number of new tokens keeps a count that is not negative between zero and
what it was. -/
namespace Vllm.Sched
open List

variable {cfg : SchedConfig} {request : Request} {numNew budget : Int}

namespace SchedConfig

theorem capLongPrefill_le (cfg : SchedConfig) (n : Int) : cfg.capLongPrefill n ≤ n := by
  unfold capLongPrefill
  split <;> omega

theorem capLongPrefill_nonneg {n : Int} (h : 0 ≤ n) : 0 ≤ cfg.capLongPrefill n := by
  unfold capLongPrefill
  split <;> omega

theorem runningCount_le_budget (cfg : SchedConfig) (request : Request) (budget : Int) :
    cfg.runningCount request budget ≤ budget := by
  dsimp only [runningCount]
  omega

theorem runningCount_le_maxModelLen (cfg : SchedConfig) (request : Request) (budget : Int) :
    request.numComputedTokens + cfg.runningCount request budget ≤ cfg.maxModelLen := by
  dsimp only [runningCount]
  omega

theorem runningCount_nonneg (hbudget : 0 ≤ budget) (htokens : request.numComputedTokens ≤
      request.numTokensWithSpec + request.numOutputPlaceholders)
    (hlen : request.numComputedTokens + cfg.numSampledTokensPerStep ≤ cfg.maxModelLen) :
    0 ≤ cfg.runningCount request budget := by
  have hcap : 0 ≤ cfg.capLongPrefill (request.numTokensWithSpec + request.numOutputPlaceholders -
      request.numComputedTokens) := capLongPrefill_nonneg (by omega)
  dsimp only [runningCount]
  omega

theorem floor_bounds {n : Int} (b : Nat) (h : 0 ≤ n) : 0 ≤ n / b * b ∧ n / b * b ≤ n := by
  constructor
  · exact Int.mul_nonneg (Int.ediv_nonneg h (Int.natCast_nonneg b)) (Int.natCast_nonneg b)
  · have hmod : 0 ≤ n % b ∨ (b : Int) = 0 := by
      by_cases hb : (b : Int) = 0
      · exact .inr hb
      · exact .inl (Int.emod_nonneg n hb)
    have hdiv := Int.mul_ediv_add_emod n b
    cases hmod with
    | inl hmod => linarith
    | inr hb => simpa [hb] using h

theorem mambaBlockAlignedSplit_bounds (request : Request) (h : 0 ≤ numNew) (numComputed : Int)
    (numUncached : Nat) :
    0 ≤ cfg.mambaBlockAlignedSplit request numNew numComputed numUncached ∧
      cfg.mambaBlockAlignedSplit request numNew numComputed numUncached ≤ numNew := by
  have hfloor := floor_bounds cfg.blockSize h
  have huncached := floor_bounds cfg.blockSize (Int.natCast_nonneg numUncached)
  unfold mambaBlockAlignedSplit
  dsimp only
  generalize (if cfg.useEagle = true then _ else _ : Int) = last
  split
  · split
    · split <;> omega
    · split
      · split <;> omega
      · split <;> omega
  · omega

end SchedConfig

/-! ### Encoder inputs -/

variable {i : Nat} {f : MultiModalFeature} {scan scan' : EncoderScan} {w : EncoderWindow}
    {answers : Answers} {n : Int}

theorem mmFeaturesInWindow_offset_lt {features : List MultiModalFeature} {start stop : Int}
    (hi : i < (mmFeaturesInWindow features start stop).2) (hf : features[i]? = some f) :
    (f.mmPosition.offset : Int) < stop := by
  have hpre := takeWhile_prefix (l := features)
    (fun f : MultiModalFeature => decide ((f.mmPosition.offset : Int) < stop))
  have hget := hpre.getElem hi
  have hmem := all_eq_true.mp (all_takeWhile (l := features)) _ (getElem_mem hi)
  rw [hget] at hmem
  rw [getElem?_eq_getElem (hi.trans_le hpre.length_le)] at hf
  cases hf
  exact of_decide_eq_true hmem

theorem mmFeature_eq_ok (h : mmFeature request i = .ok f) : request.mmFeatures[i]? = some f := by
  unfold mmFeature at h
  split at h
  · cases h
  · rename_i hget
    cases h
    exact hget

theorem scanItem_bounds (hnew : 0 ≤ w.numNew)
    (hoffset : (f.mmPosition.offset : Int) < w.numComputed + w.numNew + w.shift)
    (h : scanItem cfg answers w i f scan = .ok (scan', some n)) : 0 ≤ n ∧ n ≤ w.numNew := by
  unfold scanItem at h
  split at h
  · cases h
    omega
  split at h
  · cases h
  · cases h
    unfold EncoderWindow.beforeItem
    split <;> omega
  · split at h
    · cases h
    · split at h <;> cases h

theorem scanInput_bounds (hnew : 0 ≤ w.numNew) (hoffset : ∀ f, w.request.mmFeatures[i]? = some f →
      (f.mmPosition.offset : Int) < w.numComputed + w.numNew + w.shift)
    (h : scanInput cfg answers w i scan = .ok (scan', some n)) : 0 ≤ n ∧ n ≤ w.numNew := by
  unfold scanInput at h
  split at h
  · cases h
  rename_i f hf
  have hlt := hoffset f (mmFeature_eq_ok hf)
  split at h
  · split at h
    · split at h <;> cases h
    · exact scanItem_bounds hnew hlt h
  · split at h
    · cases h
    split at h
    · cases h
    · cases h
    · exact scanItem_bounds hnew hlt h

theorem scanInputs_bounds {is : List Nat} (hnew : 0 ≤ w.numNew)
    (hoffset : ∀ i ∈ is, ∀ f, w.request.mmFeatures[i]? = some f →
      (f.mmPosition.offset : Int) < w.numComputed + w.numNew + w.shift)
    (h : scanInputs cfg answers w is scan = .ok (scan', n)) : 0 ≤ n ∧ n ≤ w.numNew := by
  induction is generalizing scan with
  | nil =>
    cases h
    omega
  | cons i is ih =>
    unfold scanInputs at h
    split at h
    · cases h
    · rename_i hscan
      cases h
      exact scanInput_bounds hnew (hoffset i (mem_cons_self ..)) hscan
    · exact ih (fun j hj => hoffset j (mem_cons_of_mem i hj)) h

theorem tryScheduleEncoderInputs_bounds {encoder encoder' : EncoderCache} {numComputed : Int}
    {plan : EncoderPlan} (hnew : 0 ≤ numNew)
    (h : tryScheduleEncoderInputs cfg answers encoder request numComputed numNew budget =
      .ok (encoder', plan)) : 0 ≤ plan.numNew ∧ plan.numNew ≤ numNew := by
  unfold tryScheduleEncoderInputs at h
  split at h
  · cases h
    exact ⟨hnew, le_refl numNew⟩
  dsimp only at h
  split at h
  · cases h
  rename_i hscan
  cases h
  refine scanInputs_bounds hnew ?_ hscan
  intro i hi f hf
  have hlt : i < (mmFeaturesInWindow request.mmFeatures numComputed
      (numComputed + numNew + cfg.shift)).2 := by
    obtain ⟨j, hj, rfl⟩ := mem_range'.mp hi
    omega
  exact mmFeaturesInWindow_offset_lt hlt hf

end Vllm.Sched
