import Vllm.Output.DeltaRuns

/-! One call of `generate` in delta mode and in final-only mode, with the same outputs of the
engine and the same aborts; each consumer reads when it wants. -/
namespace Vllm.Output
open Detokenizer

def StreamConfig.withKind {σ : Type} (cfg : StreamConfig σ) (outputKind : RequestOutputKind) :
    StreamConfig σ :=
  { cfg with outputKind }

structure Modes (σ L : Type) where
  delta : Frontend σ L
  final : Frontend σ L

namespace Modes

variable {σ L : Type} {cfg : StreamConfig σ} {n : Nat} {g : Nat → Generation σ L}

inductive Op (L : Type)
  | both (op : Frontend.Op L)
  | readDelta
  | readFinal

def step (cfg : StreamConfig σ) (m : Modes σ L) : Op L → Except OutputError (Modes σ L)
  | .both op =>
    match m.delta.step (cfg.withKind .delta) op, m.final.step (cfg.withKind .finalOnly) op with
    | .ok delta, .ok final => .ok ⟨delta, final⟩
    | _, _ => .error .assertion
  | .readDelta => .ok { m with delta := m.delta.get }
  | .readFinal => .ok { m with final := m.final.get }

def start (cfg : StreamConfig σ) (stream : Option σ) (n : Nat) : Modes σ L where
  delta := .start (cfg.withKind .delta) stream n
  final := .start (cfg.withKind .finalOnly) stream n

def Safe (cfg : StreamConfig σ) (m : Modes σ L) : Op L → Prop
  | .both op => m.delta.Safe (cfg.withKind .delta) op
  | .readDelta => True
  | .readFinal => True

end Modes

def Generation.start {σ L : Type} (cfg : StreamConfig σ) (stream : Option σ) (n i : Nat) :
    Generation σ L where
  detokenizer := .fromNewRequest cfg stream
  finished := decide (n ≤ i)

namespace Detokenizer

variable {σ : Type} (cfg : StreamConfig σ) (stream : Option σ)

@[simp] theorem text_fromNewRequest : (fromNewRequest cfg stream).text = [] := by
  cases stream <;> rfl

@[simp] theorem offset_fromNewRequest : (fromNewRequest cfg stream).offset = 0 := by
  cases stream <;> rfl

@[simp] theorem outputTokenIds_fromNewRequest :
    (fromNewRequest cfg stream).outputTokenIds cfg = [] := by
  cases stream with
  | none => rfl
  | some stream => exact List.drop_length

theorem ready_fromNewRequest : (fromNewRequest cfg stream).Ready cfg := by
  cases stream with
  | none => trivial
  | some stream => exact DetokState.start_hasPrompt cfg.params stream

theorem setOffset_fromNewRequest :
    (fromNewRequest cfg stream).setOffset 0 = fromNewRequest cfg stream := by
  cases stream <;> rfl

end Detokenizer

namespace Frontend

variable {σ L : Type} {cfg : StreamConfig σ} {stream : Option σ} {n : Nat}

theorem start_requestStates_some {i : Nat} {st : RequestState σ}
    (hst : (start (L := L) cfg stream n).requestStates i = some st) :
    i < n ∧ st = { detokenizer := .fromNewRequest cfg stream } := by
  simp only [start] at hst
  split at hst
  · exact ⟨‹_›, (Option.some.inj hst).symm⟩
  · cases hst

theorem start_requestStates_none {i : Nat}
    (hnone : (start (L := L) cfg stream n).requestStates i = none) : n ≤ i := by
  simp only [start] at hnone
  split at hnone
  · cases hnone
  · omega

theorem start_delta (cfg : StreamConfig σ) (stream : Option σ) (n : Nat) :
    DeltaInv cfg n (Generation.start cfg stream n) (start (L := L) cfg stream n) := by
  refine ⟨fun i => ⟨fun st hst => ?_, fun hnone => ?_, rfl⟩, ⟨nofun, nofun⟩,
    fun parent hparent i st hst => ?_⟩
  · obtain ⟨hi, rfl⟩ := start_requestStates_some hst
    refine ⟨hi, decide_eq_false (by omega), setOffset_fromNewRequest cfg stream, ?_⟩
    refine ⟨ready_fromNewRequest cfg stream, ?_, fun _ => ?_, ?_, ?_, ?_, rfl⟩
    · rw [offset_fromNewRequest]
      exact Nat.zero_le _
    · rw [offset_fromNewRequest]
      exact Nat.zero_le _
    · rw [text_fromNewRequest, List.take_nil]
      rfl
    · rw [outputTokenIds_fromNewRequest]
      split
      · exact ⟨rfl, Nat.le_refl 0⟩
      · rfl
    · rw [outputTokenIds_fromNewRequest]
      split <;> rfl
  · refine ⟨decide_eq_true (start_requestStates_none hnone), ?_⟩
    simp only [AllSent, Generation.start, text_fromNewRequest, outputTokenIds_fromNewRequest]
    rfl
  · obtain ⟨hi, -⟩ := start_requestStates_some hst
    simp only [start] at hparent
    split at hparent
    · cases hparent
    · cases hparent
      exact List.mem_range.mpr hi

theorem start_final (cfg : StreamConfig σ) (hfinal : cfg.outputKind = .finalOnly)
    (stream : Option σ) (hn : 0 < n) :
    FinalInv cfg n (Generation.start cfg stream n) (start (L := L) cfg stream n) := by
  refine ⟨⟨fun _ => rfl, fun _ _ => rfl, fun hparent => ?_, fun parent hparent => ?_⟩,
    fun i st hst => ?_, fun i hnone => decide_eq_true (start_requestStates_none hnone),
    fun _ _ => ⟨rfl, rfl⟩, fun hnone => ?_⟩
  · simp only [start] at hparent
    split at hparent
    · assumption
    · cases hparent
  · simp only [start] at hparent
    split at hparent
    · cases hparent
    cases hparent
    refine ⟨List.nodup_range, fun i => ?_, ?_, fun i hi hnone => ?_⟩
    · simp only [start, List.mem_range]
      split <;> simp [*]
    · exact List.length_replicate
    · exact absurd hi (Nat.not_lt.mpr (start_requestStates_none hnone))
  · obtain ⟨hi, rfl⟩ := start_requestStates_some hst
    exact ⟨hi, decide_eq_false (by omega), rfl⟩
  · exact absurd hn (Nat.not_lt.mpr (start_requestStates_none (hnone 0)))

end Frontend

namespace Modes

variable {σ L : Type} {cfg : StreamConfig σ} {n : Nat} {m : Modes σ L}

def Inv (cfg : StreamConfig σ) (n : Nat) (m : Modes σ L) : Prop :=
  ∃ g : Nat → Generation σ L, m.delta.DeltaInv (cfg.withKind .delta) n g ∧
    m.final.FinalInv (cfg.withKind .finalOnly) n g

theorem start_inv (cfg : StreamConfig σ) (stream : Option σ) (hn : 0 < n) :
    Inv (L := L) cfg n (start cfg stream n) :=
  ⟨Generation.start cfg stream n, Frontend.start_delta (cfg.withKind .delta) stream n,
    Frontend.start_final (cfg.withKind .finalOnly) rfl stream hn⟩

theorem Inv.step (inv : Inv cfg n m) (op : Op L) (hsafe : m.Safe cfg op) :
    ∃ m', m.step cfg op = .ok m' ∧ Inv cfg n m' := by
  obtain ⟨g, hdelta, hfinal⟩ := inv
  cases op with
  | both op =>
    obtain ⟨delta, hd, hdelta'⟩ := Frontend.step_delta rfl hdelta op hsafe
    obtain ⟨final, hf, hfinal'⟩ := Frontend.step_final rfl hfinal op
    exact ⟨⟨delta, final⟩, by rw [Modes.step, hd, hf], _, hdelta', hfinal'⟩
  | readDelta =>
    obtain ⟨delta, hd, hdelta'⟩ := Frontend.step_delta rfl hdelta .get trivial
    cases hd
    exact ⟨_, rfl, g, hdelta', hfinal⟩
  | readFinal =>
    obtain ⟨final, hf, hfinal'⟩ := Frontend.step_final rfl hfinal .get
    cases hf
    exact ⟨_, rfl, g, hdelta, hfinal'⟩

/-- The outputs of delta mode add up to the completions of final-only mode. -/
def AddsUp (n : Nat) (m : Modes σ L) : Prop :=
  ∃ out, m.final.received = [out] ∧ out.outputs.length = n ∧
    ∀ i < n, ∃ c, out.outputs[i]? = some c ∧ c.index = i ∧
      sentIn i (m.delta.received.flatMap (·.outputs)) = c.sent

/-- Once all requests ended and both consumers read to the end. -/
theorem Inv.addsUp (inv : Inv cfg n m) (hended : ∀ i, m.delta.requestStates i = none)
    (hdelta : m.delta.output = none) (hfinal : m.final.output = none) : AddsUp n m := by
  obtain ⟨g, delta, final⟩ := inv
  have hall : ∀ i, m.final.requestStates i = none := by
    intro i
    cases hst : m.final.requestStates i with
    | none => rfl
    | some st =>
      have hrunning := (final.running i st hst).2.1
      rw [((delta.child i).ended (hended i)).1] at hrunning
      cases hrunning
  rcases final.done hall with ⟨o, ho, -⟩ | ⟨-, out, hreceived, hout⟩
  · rw [hfinal] at ho
    cases ho
  refine ⟨out, hreceived, hout.length, fun i hi => ?_⟩
  obtain ⟨c, hc, hindex, hsent⟩ := hout.completions i hi
  refine ⟨c, hc, hindex, ?_⟩
  have hpending : m.delta.pendingOutputs = [] := by rw [Frontend.pendingOutputs, hdelta]
  have hallsent : m.delta.sent i = _ := ((delta.child i).ended (hended i)).2
  rw [Frontend.sent, hpending] at hallsent
  rw [hsent]
  exact (Sent.append_empty _).symm.trans hallsent

theorem get_output (s : Frontend σ L) : s.get.output = none := by
  unfold Frontend.get
  cases houtput : s.output with
  | none => exact houtput
  | some o => rfl

theorem get_requestStates (s : Frontend σ L) : s.get.requestStates = s.requestStates := by
  unfold Frontend.get
  cases s.output <;> rfl

/-- In every run in which each output has a token to send, no step fails, and once all requests
ended what the consumer reads in delta mode adds up to what it reads in final-only mode. -/
theorem reaches_addsUp (cfg : StreamConfig σ) (stream : Option σ) (hn : 0 < n)
    (h : Run.Reaches (step cfg) (Safe cfg) (start cfg stream n) m) :
    (∀ op, m.Safe cfg op → ∃ m', m.step cfg op = .ok m') ∧
      ((∀ i, m.delta.requestStates i = none) → AddsUp n ⟨m.delta.get, m.final.get⟩) := by
  have inv : Inv cfg n m := by
    refine h.invariant (start_inv cfg stream hn) fun m op m' inv hsafe hstep => ?_
    obtain ⟨m₁, hm₁, inv₁⟩ := inv.step op hsafe
    rw [hstep] at hm₁
    cases hm₁
    exact inv₁
  refine ⟨fun op hsafe => ?_, fun hended => ?_⟩
  · obtain ⟨m', hm', -⟩ := inv.step op hsafe
    exact ⟨m', hm'⟩
  · obtain ⟨m₁, hm₁, inv₁⟩ := inv.step .readDelta trivial
    cases hm₁
    obtain ⟨m₂, hm₂, inv₂⟩ := inv₁.step .readFinal trivial
    cases hm₂
    refine inv₂.addsUp (fun i => ?_) (get_output _) (get_output _)
    rw [get_requestStates]
    exact hended i

def idsOnly : StreamConfig Unit where
  decoder := { decodeNext := fun _ _ _ => ([], ()) }
  params := {}
  stop_ne_nil := nofun
  outputKind := .delta
  streamInterval := 1
  logprobs := true

def twoTokens : List (Op Nat) :=
  [.both (.output 0 [(7, 70)] none none), .both (.output 0 [(8, 80)] (some .length) none)]

theorem reaches_addsUp_twoTokens :
    ∃ m, Run.run (step idsOnly) (start idsOnly none 1) twoTokens = .ok m ∧
      AddsUp 1 ⟨m.delta.get, m.final.get⟩ := by
  have hsome : ∀ (m : Modes Unit Nat) (i t l : Nat) (finishReason : Option FinishReason)
      (stopReason : Option StopReason),
      m.Safe idsOnly (.both (.output i [(t, l)] finishReason stopReason)) :=
    fun _ _ _ _ _ _ _ hnil => absurd hnil (List.cons_ne_nil _ _)
  refine ⟨_, rfl, (reaches_addsUp idsOnly none Nat.one_pos
    ((Run.Reaches.start.next _ (hsome _ 0 7 70 none none) rfl).next _
      (hsome _ 0 8 80 (some .length) none) rfl)).2 fun i => ?_⟩
  by_cases hi : i = 0
  · subst hi
    rfl
  · exact (Function.update_of_ne hi _ _).trans
      ((Function.update_of_ne hi _ _).trans (if_neg (by omega)))

/-- A token that is read before the request is aborted: the last output has no token and the
logprobs of all. -/
theorem step_abort_repeats :
    (Run.run (step idsOnly) (start idsOnly none 1)
        [.both (.output 0 [(7, 70)] none none), .readDelta, .both (.abort 0), .readDelta,
          .readFinal]).map (fun m =>
      (sentIn 0 (m.delta.received.flatMap (·.outputs)),
        m.final.received.map fun out => out.outputs.map CompletionOutput.sent)) =
      .ok (⟨[], [7], [70, 70]⟩, [[⟨[], [7], [70]⟩]]) :=
  rfl

end Modes
end Vllm.Output
