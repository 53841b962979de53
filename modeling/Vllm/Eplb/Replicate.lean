import Mathlib

/-! The replication of the experts of one layer: each redundant replica goes to the expert whose
replicas carry the most, and no other choice of counts has a lighter heaviest replica. -/
namespace Vllm.Eplb
open Function List Finset Nat

inductive ReplicateError where
  | assertion | emptySequence
  deriving DecidableEq, Repr

variable {K : Type} [Field K] [LinearOrder K] {numLog : Nat}

/-- `np.argmax` of a row: the first of its greatest entries. -/
def argmax (row : Fin numLog → K) : Except ReplicateError (Fin numLog) :=
  match (finRange numLog).find? fun e => ∀ f, row f ≤ row e with
  | none => .error .emptySequence
  | some e => .ok e

/-- The loop of `replicate_experts` for one row: what each physical expert holds, and the number of
replicas of each logical one. -/
def replicateLoop (weight : Fin numLog → K) :
    Nat → List (Fin numLog) × (Fin numLog → Nat) →
      Except ReplicateError (List (Fin numLog) × (Fin numLog → Nat))
  | 0, s => .ok s
  | rounds + 1, (phy2log, logcnt) => do
    let redundant ← argmax fun e => weight e / logcnt e
    replicateLoop weight rounds
      (phy2log ++ [redundant], update logcnt redundant (logcnt redundant + 1))

/-- `replicate_experts` of one row of loads. -/
def replicateExperts (weight : Fin numLog → K) (numPhy : Nat) :
    Except ReplicateError (List (Fin numLog) × (Fin numLog → Nat)) :=
  if numPhy < numLog then .error .assertion
  else replicateLoop weight (numPhy - numLog) (finRange numLog, fun _ => 1)

/-- The counts among which the replication chooses. -/
structure Counts (numPhy : Nat) (cnt : Fin numLog → Nat) : Prop where
  pos : ∀ e, 1 ≤ cnt e
  total : ∑ e, cnt e = numPhy

/-- The load of the heaviest replica. -/
def maxLoad (weight : Fin numLog → K) (cnt : Fin numLog → Nat) : WithBot K :=
  univ.sup fun e => ((weight e / cnt e : K) : WithBot K)

omit [Field K] in
theorem argmax_spec (row : Fin numLog → K) :
    (numLog = 0 ∧ argmax row = .error .emptySequence) ∨
      ∃ e, argmax row = .ok e ∧ ∀ f, row f ≤ row e := by
  unfold argmax
  split
  · rename_i hnone
    refine .inl ⟨?_, rfl⟩
    by_contra hne
    have : Nonempty (Fin numLog) := ⟨⟨0, Nat.pos_of_ne_zero hne⟩⟩
    obtain ⟨e, he⟩ := Finite.exists_max row
    exact find?_eq_none.mp hnone e (mem_finRange e) (decide_eq_true he)
  · rename_i e hsome
    exact .inr ⟨e, rfl, of_decide_eq_true (find?_some hsome :)⟩

/-- What each round keeps: an expert with a second replica carried, before it got its last one, at
least what any replica carries now. -/
structure Greedy (weight : Fin numLog → K) (phy2log : List (Fin numLog))
    (cnt : Fin numLog → Nat) : Prop where
  count : ∀ e, phy2log.count e = cnt e
  pos : ∀ e, 1 ≤ cnt e
  last : ∀ e f, 2 ≤ cnt f → weight e / cnt e ≤ weight f / (cnt f - 1 : Nat)

variable {weight : Fin numLog → K} {phy2log : List (Fin numLog)} {cnt cnt' : Fin numLog → Nat}
  {numPhy : Nat}

theorem greedy_start : Greedy weight (finRange numLog) fun _ => 1 where
  count e := count_eq_one_of_mem (nodup_finRange numLog) (mem_finRange e)
  pos _ := le_rfl
  last _ _ h := absurd h (by decide)

theorem Greedy.counts (h : Greedy weight phy2log cnt) : Counts phy2log.length cnt := by
  refine ⟨h.pos, ?_⟩
  rw [sum_congr rfl fun e _ => (h.count e).symm]
  simpa using Multiset.sum_count_eq_card (m := (phy2log : Multiset (Fin numLog)))
    fun e _ => mem_univ e

variable [IsStrictOrderedRing K]

theorem Greedy.step (hweight : ∀ e, 0 ≤ weight e) (h : Greedy weight phy2log cnt) {e₀ : Fin numLog}
    (hmax : ∀ f, weight f / cnt f ≤ weight e₀ / cnt e₀) :
    Greedy weight (phy2log ++ [e₀]) (update cnt e₀ (cnt e₀ + 1)) := by
  have hle : ∀ e, cnt e ≤ update cnt e₀ (cnt e₀ + 1) e := by
    intro e
    rcases eq_or_ne e e₀ with rfl | hne
    · rw [update_self]
      exact le_succ _
    · rw [update_of_ne hne]
  refine ⟨fun e => ?_, fun e => (h.pos e).trans (hle e), fun e f hf => ?_⟩
  · rw [count_append, h.count e]
    rcases eq_or_ne e e₀ with rfl | hne
    · rw [update_self, count_singleton_self]
    · rw [update_of_ne hne, count_eq_zero_of_not_mem (by simpa using hne), Nat.add_zero]
  -- a further replica only takes load off those that are there
  have hless : weight e / (update cnt e₀ (cnt e₀ + 1) e : Nat) ≤ weight e / cnt e :=
    div_le_div_of_nonneg_left (hweight e) (cast_pos.mpr (h.pos e)) (cast_le.mpr (hle e))
  refine hless.trans ?_
  rcases eq_or_ne f e₀ with rfl | hne
  · rw [update_self]
    exact hmax e
  · rw [update_of_ne hne] at hf ⊢
    exact h.last e f hf

theorem replicateLoop_greedy (hweight : ∀ e, 0 ≤ weight e) (rounds : Nat)
    (hne : rounds = 0 ∨ numLog ≠ 0) (h : Greedy weight phy2log cnt) :
    ∃ phy2log' cnt', replicateLoop weight rounds (phy2log, cnt) = .ok (phy2log', cnt') ∧
      phy2log'.length = phy2log.length + rounds ∧ Greedy weight phy2log' cnt' := by
  induction rounds generalizing phy2log cnt with
  | zero => exact ⟨phy2log, cnt, rfl, rfl, h⟩
  | succ rounds ih =>
    have hexperts := hne.resolve_left (succ_ne_zero rounds)
    rcases argmax_spec fun e => weight e / cnt e with ⟨hzero, -⟩ | ⟨e₀, hargmax, hmax⟩
    · exact absurd hzero hexperts
    obtain ⟨phy2log', cnt', hloop, hlength, hgreedy⟩ := ih (.inr hexperts) (h.step hweight hmax)
    refine ⟨phy2log', cnt', ?_, ?_, hgreedy⟩
    · rw [replicateLoop, hargmax]
      exact hloop
    · rw [hlength, length_append, length_singleton]
      omega

/-- The exchange: where another choice of counts has a lighter expert `e`, it gave `e` a replica
that an expert `f` went without, and the load of `f` is then the greater one. -/
theorem Greedy.maxLoad_le (hweight : ∀ e, 0 ≤ weight e) (h : Greedy weight phy2log cnt)
    (hcnt : Counts phy2log.length cnt') : maxLoad weight cnt ≤ maxLoad weight cnt' := by
  refine Finset.sup_le fun e _ => ?_
  have hload : ∀ f, weight e / cnt e ≤ weight f / cnt' f →
      ((weight e / cnt e : K) : WithBot K) ≤ maxLoad weight cnt' := by
    intro f hf
    exact (WithBot.coe_le_coe.mpr hf).trans
      (le_sup (f := fun e => ((weight e / cnt' e : K) : WithBot K)) (mem_univ f))
  by_cases hmore : cnt' e ≤ cnt e
  · exact hload e (div_le_div_of_nonneg_left (hweight e) (cast_pos.mpr (hcnt.pos e))
      (cast_le.mpr hmore))
  -- the totals are the same, so some other expert has fewer replicas
  obtain ⟨f, -, hf⟩ : ∃ f ∈ univ, cnt' f < cnt f := by
    by_contra hnone
    push Not at hnone
    have hlt := Finset.sum_lt_sum hnone ⟨e, mem_univ e, not_le.mp hmore⟩
    rw [h.counts.total, hcnt.total] at hlt
    exact lt_irrefl _ hlt
  have hone := hcnt.pos f
  refine hload f ((h.last e f (by omega)).trans ?_)
  exact div_le_div_of_nonneg_left (hweight f) (cast_pos.mpr hone) (cast_le.mpr (by omega))

/-- The replication returns for every row of loads with an expert; its counts are those of what it
placed and their heaviest replica is the lightest there can be. -/
theorem replicateExperts_minimal (weight : Fin numLog → K) (hweight : ∀ e, 0 ≤ weight e)
    (numPhy : Nat) (hnum : numLog ≤ numPhy) :
    (numLog = 0 ∧ numPhy ≠ 0 ∧ replicateExperts weight numPhy = .error .emptySequence) ∨
    ∃ phy2log logcnt, replicateExperts weight numPhy = .ok (phy2log, logcnt) ∧
      phy2log.length = numPhy ∧ (∀ e, phy2log.count e = logcnt e) ∧ Counts numPhy logcnt ∧
      ∀ cnt, Counts numPhy cnt → maxLoad weight logcnt ≤ maxLoad weight cnt := by
  unfold replicateExperts
  rw [if_neg (not_lt.mpr hnum)]
  by_cases hne : numPhy - numLog = 0 ∨ numLog ≠ 0
  · obtain ⟨phy2log, logcnt, hloop, hlength, hgreedy⟩ :=
      replicateLoop_greedy hweight _ hne greedy_start
    rw [length_finRange, Nat.add_sub_cancel' hnum] at hlength
    have hcounts := hgreedy.counts
    rw [hlength] at hcounts
    exact .inr ⟨phy2log, logcnt, hloop, hlength, hgreedy.count, hcounts, fun cnt hcnt =>
      hgreedy.maxLoad_le hweight (hlength.symm ▸ hcnt)⟩
  · obtain ⟨hrounds, hzero⟩ := not_or.mp hne
    have hzero := not_not.mp hzero
    obtain ⟨rounds, hrounds⟩ := exists_eq_succ_of_ne_zero hrounds
    rcases argmax_spec fun e => weight e / (1 : Nat) with ⟨-, hargmax⟩ | ⟨e, -⟩
    · refine .inl ⟨hzero, by omega, ?_⟩
      rw [hrounds, replicateLoop, hargmax]
      rfl
    · exact absurd e.isLt (by omega)

theorem replicateExperts_minimal_two :
    ∃ phy2log logcnt, replicateExperts ![(3 : ℚ), 1] 4 = .ok (phy2log, logcnt) ∧
      ∀ cnt, Counts 4 cnt → maxLoad ![(3 : ℚ), 1] logcnt ≤ maxLoad ![(3 : ℚ), 1] cnt := by
  rcases replicateExperts_minimal ![(3 : ℚ), 1] (by decide) 4 (by decide) with
    ⟨h, -⟩ | ⟨phy2log, logcnt, hok, -, -, -, hmin⟩
  · exact absurd h (by decide)
  · exact ⟨phy2log, logcnt, hok, hmin⟩

end Vllm.Eplb
