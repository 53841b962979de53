/-! Event traces in which every event is judged by what a fold has seen before it. -/
namespace Vllm.Trace

variable {ε ν : Type} {see : ν → ε → ν} {safe : ν → ε → Prop} {v : ν} {l l' : List ε} {ev : ε}

/-- Every event of the trace is safe after the events before it. -/
def Clean (see : ν → ε → ν) (safe : ν → ε → Prop) (v : ν) (l : List ε) : Prop :=
  ∀ before ev after, l = before ++ ev :: after → safe (before.foldl see v) ev

theorem clean_nil : Clean see safe v [] := by
  intro before ev after h
  cases before <;> cases h

theorem clean_cons : Clean see safe v (ev :: l) ↔ safe v ev ∧ Clean see safe (see v ev) l := by
  constructor
  · intro h
    refine ⟨h [] ev l rfl, fun before ev' after heq => ?_⟩
    exact h (ev :: before) ev' after (by rw [heq, List.cons_append])
  · rintro ⟨hfirst, hrest⟩ before ev' after heq
    cases before with
    | nil =>
      obtain ⟨rfl, -⟩ := List.cons.inj heq
      exact hfirst
    | cons ev'' before =>
      obtain ⟨rfl, htail⟩ := List.cons.inj heq
      exact hrest before ev' after htail

theorem clean_append :
    Clean see safe v (l ++ l') ↔ Clean see safe v l ∧ Clean see safe (l.foldl see v) l' := by
  induction l generalizing v with
  | nil => exact ⟨fun h => ⟨clean_nil, h⟩, fun h => h.2⟩
  | cons ev l ih => rw [List.cons_append, clean_cons, clean_cons, ih, and_assoc, List.foldl_cons]

end Vllm.Trace
