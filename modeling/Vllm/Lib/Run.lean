/-! Runs of a system whose operations may fail: the states that are reached by operations that
meet a condition, and the induction over them. -/
namespace Vllm.Run

variable {σ ι ε : Type} {step : σ → ι → Except ε σ} {ok ok' : σ → ι → Prop} {s₀ : σ}

/-- The states reached from `s₀` by operations that succeed and meet `ok` where they are taken. -/
inductive Reaches (step : σ → ι → Except ε σ) (ok : σ → ι → Prop) (s₀ : σ) : σ → Prop
  | start : Reaches step ok s₀ s₀
  | next {s s' : σ} (i : ι) : Reaches step ok s₀ s → ok s i → step s i = .ok s' →
      Reaches step ok s₀ s'

theorem Reaches.invariant {Inv : σ → Prop} (hstart : Inv s₀)
    (hstep : ∀ s i s', Inv s → ok s i → step s i = .ok s' → Inv s') {s : σ}
    (h : Reaches step ok s₀ s) : Inv s := by
  induction h with
  | start => exact hstart
  | next i _ hok hstep' ih => exact hstep _ i _ ih hok hstep'

def run (step : σ → ι → Except ε σ) : σ → List ι → Except ε σ
  | s, [] => .ok s
  | s, i :: is =>
    match step s i with
    | .error e => .error e
    | .ok s' => run step s' is

variable {is : List ι} {s s' : σ}

theorem run_cons {i : ι} (h : run step s (i :: is) = .ok s') :
    ∃ s₁, step s i = .ok s₁ ∧ run step s₁ is = .ok s' := by
  rw [run] at h
  split at h
  · cases h
  · rename_i s₁ hstep
    exact ⟨s₁, hstep, h⟩

/-- The rule for a loop: the invariant may speak of the operations that are left. -/
theorem run_rule (Inv : List ι → σ → Prop)
    (hstep : ∀ {i is s s'}, Inv (i :: is) s → step s i = .ok s' → Inv is s') (h : Inv is s)
    (hrun : run step s is = .ok s') : Inv [] s' := by
  induction is generalizing s with
  | nil =>
    cases hrun
    exact h
  | cons i is ih =>
    obtain ⟨s₁, hone, hrest⟩ := run_cons hrun
    exact ih (hstep h hone) hrest

theorem Reaches.run (is : List ι) (hok : ∀ s, ∀ i ∈ is, ok s i) (h : Reaches step ok s₀ s)
    (hrun : Run.run step s is = .ok s') : Reaches step ok s₀ s' := by
  refine (run_rule (fun is s => (∀ s, ∀ i ∈ is, ok s i) ∧ Reaches step ok s₀ s)
    (fun {i is s s'} h hstep => ⟨fun s j hj => h.1 s j (List.mem_cons_of_mem i hj), ?_⟩)
    ⟨hok, h⟩ hrun).2
  exact h.2.next i (h.1 s i List.mem_cons_self) hstep

def Meets (step : σ → ι → Except ε σ) (ok : σ → ι → Prop) : σ → List ι → Prop
  | _, [] => True
  | s, i :: is => ok s i ∧ ∀ s', step s i = .ok s' → Meets step ok s' is

theorem Reaches.meets (is : List ι) (h : Reaches step ok s₀ s) (hmeets : Meets step ok s is)
    (hrun : Run.run step s is = .ok s') : Reaches step ok s₀ s' :=
  (run_rule (fun is s => Meets step ok s is ∧ Reaches step ok s₀ s)
    (fun h hstep => ⟨h.1.2 _ hstep, h.2.next _ h.1.1 hstep⟩) ⟨hmeets, h⟩ hrun).2

theorem Reaches.trans (h : Reaches step ok s₀ s) (h' : Reaches step ok s s') :
    Reaches step ok s₀ s' := by
  induction h' with
  | start => exact h
  | next i _ hok hstep ih => exact ih.next i hok hstep

theorem run_map {κ : Type} {f : κ → ι} {g : σ → κ → σ} (ks : List κ)
    (h : ∀ s k, step s (f k) = .ok (g s k)) (s : σ) :
    run step s (ks.map f) = .ok (ks.foldl g s) := by
  induction ks generalizing s with
  | nil => rfl
  | cons k ks ih =>
    rw [List.map_cons, run, h]
    exact ih (g s k)

theorem run_map_eq {κ : Type} (f : κ → ι) (ks : List κ) (s : σ) :
    run step s (ks.map f) = run (fun s k => step s (f k)) s ks := by
  induction ks generalizing s with
  | nil => rfl
  | cons k ks ih =>
    rw [List.map_cons, run, run]
    cases step s (f k) with
    | error e => rfl
    | ok s' => exact ih s'

theorem map_eq_ok {β : Type} {f : σ → β} {b : β} {r : Except ε σ}
    (h : r.map f = .ok b) : ∃ s, r = .ok s ∧ f s = b := by
  cases r with
  | error e => cases h
  | ok s => exact ⟨s, rfl, Except.ok.inj h⟩

theorem mapError_eq_ok {ε' : Type} {f : ε → ε'} {r : Except ε σ} (h : r.mapError f = .ok s) :
    r = .ok s := by
  cases r with
  | error e => cases h
  | ok s => exact congrArg _ (Except.ok.inj h)

/-- Runs one operation after the other as long as they meet the condition. -/
def runIf (step : σ → ι → Except ε σ) (ok : σ → ι → Prop) [∀ s i, Decidable (ok s i)] :
    σ → List ι → Option σ
  | s, [] => some s
  | s, i :: is =>
    if ok s i then
      match step s i with
      | .error _ => none
      | .ok s' => runIf step ok s' is
    else none

theorem Reaches.runIf [∀ s i, Decidable (ok s i)] (is : List ι)
    (h : Reaches step ok s₀ s) (hrun : Run.runIf step ok s is = some s') :
    Reaches step ok s₀ s' := by
  induction is generalizing s with
  | nil =>
    cases hrun
    exact h
  | cons i is ih =>
    rw [Run.runIf] at hrun
    split at hrun
    · rename_i hok
      split at hrun
      · cases hrun
      · rename_i hstep
        exact ih (h.next i hok hstep) hrun
    · cases hrun

theorem Reaches.mono (hok : ∀ s i, ok s i → ok' s i) (h : Reaches step ok s₀ s) :
    Reaches step ok' s₀ s := by
  induction h with
  | start => exact .start
  | next i _ hi hstep ih => exact ih.next i (hok _ i hi) hstep

end Vllm.Run
