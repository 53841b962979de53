import Vllm.Lib.Run
import Vllm.Output.RequestOutputs
import Vllm.Output.StopGrouping

/-! Streamed deltas against the final output: what a consumer in delta mode has read of a request
that ended is what the output in final-only mode holds. -/
namespace Vllm.Output
open TextSearch List Detokenizer CompletionOutput LogprobsRef Frontend Nat

/-! ### Text that was sent stays -/

namespace DetokState

variable {σ : Type} {dec : Decoder σ} {p : DetokenizerParams} {d : DetokState σ}

theorem length_le_stopBuffer {s : Text} (hs : s ∈ p.stop) (hincl : p.includeStopStrInOutput = false) :
    s.length ≤ p.stopBufferLength + 1 := by
  have hmax : s.length ≤ (p.stop.map length).foldr max 0 := by
    generalize p.stop = stop at hs
    induction stop with
    | nil => cases hs
    | cons t stop ih =>
      rcases mem_cons.mp hs with rfl | hs
      · exact Nat.le_max_left _ _
      · exact (ih hs).trans (Nat.le_max_right _ _)
  rw [DetokenizerParams.stopBufferLength, if_pos ⟨ne_nil_of_mem hs, hincl⟩]
  omega

theorem le_length_cutText {text s : Text} {lo e old : Nat} (hs : s ∈ p.stop)
    (hdone : CompletedAt text lo s e) (hlo : old ≤ lo) :
    old - p.stopBufferLength ≤ (cutText p.includeStopStrInOutput text s e).length := by
  have hbehind := hdone.behind
  have hwithin := hdone.within
  unfold cutText
  split
  · rw [length_take]
    omega
  rename_i hincl
  have hbuffer := length_le_stopBuffer hs (by simpa using hincl)
  rw [length_take]
  omega

theorem cutText_isPrefix (incl : Bool) (text s : Text) (e : Nat) : cutText incl text s e <+: text := by
  unfold cutText
  split
  · exact take_prefix _ _
  · exact take_prefix _ _

theorem take_eq_of_prefix {front text : Text} {n : Nat} (h : front <+: text) (hn : n ≤ front.length) :
    text.take n = front.take n := by
  obtain ⟨rest, rfl⟩ := h
  exact take_append_of_le_length hn

structure Updated (p : DetokenizerParams) (d : DetokState σ) (tokens : List TokenId)
    (result : Option Text × DetokState σ) : Prop where
  tokenIds : result.2.tokenIds = d.tokenIds ++ tokens
  offset : result.2.lastOutputTextOffset = d.lastOutputTextOffset
  length : d.outputText.length - p.stopBufferLength ≤ result.2.outputText.length
  grows : result.1 = none → d.outputText <+: result.2.outputText
  sent : result.2.outputText.take (d.outputText.length - p.stopBufferLength) =
    d.outputText.take (d.outputText.length - p.stopBufferLength)

theorem update_updated (dec : Decoder σ) (h : d.HasPrompt p) (hstop : ∀ s ∈ p.stop, s ≠ [])
    (tokens : List TokenId) (stopTerminated : Bool) :
    Updated p d tokens (d.update dec p tokens stopTerminated) := by
  by_cases hne : tokens = []
  · rw [hne]
    exact ⟨(append_nil _).symm, rfl, sub_le _ _, fun _ => prefix_rfl, rfl⟩
  have hfront : d.outputText <+: (d.shown dec p tokens stopTerminated).outputText :=
    outputText_prefix_decodeAll _
  rcases update_spec dec h hstop hne stopTerminated with
    ⟨hcall, -⟩ | ⟨s, e, hfirst, hcall⟩
  · rw [hcall]
    refine ⟨rfl, lastOutputTextOffset_decodeAll _, ?_, fun _ => hfront, ?_⟩
    · exact (sub_le _ _).trans hfront.length_le
    · exact take_eq_of_prefix hfront (sub_le _ _)
  · have hmem : s ∈ p.stop := by
      obtain ⟨before, after, hsplit, -⟩ := hfirst.listed
      rw [hsplit]
      exact mem_append_right _ mem_cons_self
    have hlo : d.outputText.length ≤ stopBound dec p d (shownTokens p tokens stopTerminated) :=
      (outputText_prefix_decodeAll _).length_le
    have hlen := le_length_cutText hmem hfirst.first.toCompletedAt hlo
    rw [hcall]
    refine ⟨rfl, lastOutputTextOffset_decodeAll _, hlen, fun hnone => (by cases hnone), ?_⟩
    have hcut := cutText_isPrefix p.includeStopStrInOutput
      (d.shown dec p tokens stopTerminated).outputText s e
    rw [← take_eq_of_prefix hcut hlen]
    exact take_eq_of_prefix hfront (sub_le _ _)

/-! ### The offset of sent text is only read by outputs -/

def setOffset (n : Nat) (d : DetokState σ) : DetokState σ := { d with lastOutputTextOffset := n }

theorem decodeTokens_setOffset (n offset : Nat) (tokens : List TokenId) :
    (d.setOffset n).decodeTokens dec p offset tokens =
      ((d.decodeTokens dec p offset tokens).1.setOffset n,
        (d.decodeTokens dec p offset tokens).2) := by
  induction tokens generalizing d offset with
  | nil => rfl
  | cons token tokens ih => exact ih (d := d.decodeToken dec token) _

theorem evaluateStop_setOffset (n offset : Nat) :
    evaluateStop p (d.setOffset n) offset =
      ((evaluateStop p d offset).1, (evaluateStop p d offset).2.setOffset n) := by
  have hsame : (d.setOffset n).numOutputTokens p = d.numOutputTokens p := rfl
  have htext : (d.setOffset n).outputText = d.outputText := rfl
  unfold evaluateStop
  rw [hsame, htext]
  split
  · split <;> rfl
  · rfl

theorem update_setOffset (dec : Decoder σ) (p : DetokenizerParams) (d : DetokState σ) (n : Nat)
    (tokens : List TokenId) (stopTerminated : Bool) :
    (d.setOffset n).update dec p tokens stopTerminated =
      ((d.update dec p tokens stopTerminated).1,
        (d.update dec p tokens stopTerminated).2.setOffset n) := by
  have htext : (d.setOffset n).outputText = d.outputText := rfl
  unfold update
  by_cases hne : tokens = []
  · rw [if_pos hne, if_pos hne]
  rw [if_neg hne, if_neg hne]
  simp only [htext, decodeTokens_setOffset]
  generalize d.decodeTokens dec p d.outputText.length (shownTokens p tokens stopTerminated) = decoded
  exact evaluateStop_setOffset (d := { decoded.1 with
    tokenIds := decoded.1.tokenIds ++
      tokens.drop (shownTokens p tokens stopTerminated).length }) n decoded.2

end DetokState

namespace Detokenizer

variable {σ : Type} {cfg : StreamConfig σ} {d : Detokenizer σ}

def text : Detokenizer σ → Text
  | plain _ => []
  | base d => d.outputText

def offset : Detokenizer σ → Nat
  | plain _ => 0
  | base d => d.lastOutputTextOffset

def heldBack (cfg : StreamConfig σ) : Detokenizer σ → Nat
  | plain _ => 0
  | base _ => cfg.params.stopBufferLength

def setOffset (n : Nat) : Detokenizer σ → Detokenizer σ
  | plain tokenIds => plain tokenIds
  | base d => base (d.setOffset n)

def Ready (cfg : StreamConfig σ) : Detokenizer σ → Prop
  | plain _ => True
  | base d => d.HasPrompt cfg.params

section
variable (cfg : StreamConfig σ) (d : Detokenizer σ)

theorem numOutputTokens_eq :
    d.numOutputTokens cfg = (d.outputTokenIds cfg).length := by
  cases d with
  | plain tokenIds => rfl
  | base d => exact (length_drop ..).symm

theorem update_setOffset (n : Nat)
    (tokens : List TokenId) (stopTerminated : Bool) :
    (d.setOffset n).update cfg tokens stopTerminated =
      ((d.update cfg tokens stopTerminated).1,
        (d.update cfg tokens stopTerminated).2.setOffset n) := by
  cases d with
  | plain tokenIds => rfl
  | base d =>
    have hupdate := d.update_setOffset cfg.decoder cfg.params n tokens stopTerminated
    simp only [setOffset, update, hupdate]

/-- What `update` does to a detokenizer whose held-back text was not sent. -/
structure Updated (tokens : List TokenId)
    (result : Option Text × Detokenizer σ) : Prop where
  ready : result.2.Ready cfg
  tokenIds : result.2.outputTokenIds cfg = d.outputTokenIds cfg ++ tokens
  offset : result.2.offset = d.offset
  sent : result.2.text.take d.offset = d.text.take d.offset
  within : d.offset ≤ result.2.text.length
  held : result.1 = none → d.offset ≤ result.2.text.length - result.2.heldBack cfg

end

theorem update_updated (ready : d.Ready cfg) (hheld : d.offset ≤ d.text.length - d.heldBack cfg)
    (tokens : List TokenId) (stopTerminated : Bool) :
    Updated cfg d tokens (d.update cfg tokens stopTerminated) := by
  cases d with
  | plain tokenIds => exact ⟨trivial, rfl, rfl, rfl, zero_le _, fun _ => zero_le _⟩
  | base d =>
    have updated := DetokState.update_updated cfg.decoder ready cfg.stop_ne_nil tokens
      stopTerminated
    have hlen := updated.length
    simp only [offset, text, heldBack] at hheld
    simp only [Ready, DetokState.HasPrompt] at ready
    refine ⟨?_, ?_, updated.offset, ?_, hheld.trans hlen, fun hnone => ?_⟩
    · simp only [update, Ready, DetokState.HasPrompt, updated.tokenIds, length_append]
      omega
    · simp only [update, outputTokenIds, DetokState.outputTokenIds, updated.tokenIds]
      exact drop_append_of_le_length ready
    · have hsent := congrArg (take d.lastOutputTextOffset) updated.sent
      rwa [take_take, take_take, Nat.min_eq_left hheld] at hsent
    · have hgrows := (updated.grows hnone).length_le
      simp only [update, offset, text, heldBack]
      omega

variable (cfg : StreamConfig σ) (d : Detokenizer σ) (finished : Bool)

/-- What `get_next_output_text` returns in delta mode. -/
structure Advanced (result : Text × Detokenizer σ) : Prop where
  ready : d.Ready cfg → result.2.Ready cfg
  tokenIds : result.2.outputTokenIds cfg = d.outputTokenIds cfg
  text : result.2.text = d.text
  same : ∀ n, result.2.setOffset n = d.setOffset n
  sent : d.text.take d.offset ++ result.1 = d.text.take result.2.offset
  all : finished = true → d.offset ≤ d.text.length → result.2.offset = d.text.length
  held : finished = false → d.offset ≤ d.text.length - d.heldBack cfg →
    result.2.offset ≤ d.text.length - result.2.heldBack cfg

theorem getNextOutputText_advanced :
    Advanced cfg d finished (d.getNextOutputText cfg finished true) := by
  cases d with
  | plain tokenIds =>
    exact ⟨id, rfl, rfl, fun _ => rfl, rfl, fun _ _ => rfl, fun _ _ => zero_le _⟩
  | base d =>
    simp only [getNextOutputText, DetokState.getNextOutputText, Bool.true_eq_false, if_false]
    generalize hbuffer : (if finished = true then 0 else cfg.params.stopBufferLength) = buffer
    by_cases hlt : d.lastOutputTextOffset < d.outputText.length - buffer
    · rw [if_pos hlt]
      refine ⟨id, rfl, rfl, fun _ => rfl, ?_, fun hfin _ => ?_, fun hfin _ => ?_⟩
      · simp only [text, offset]
        have htake : d.outputText.take d.lastOutputTextOffset =
            (d.outputText.take (d.outputText.length - buffer)).take d.lastOutputTextOffset := by
          rw [take_take, Nat.min_eq_left (Nat.le_of_lt hlt)]
        rw [htake, take_append_drop]
      · rw [hfin] at hbuffer
        simp only [text, offset]
        simp only [if_true] at hbuffer
        omega
      · rw [hfin] at hbuffer
        simp only [Bool.false_eq_true, if_false] at hbuffer
        simp only [text, offset, heldBack]
        omega
    · rw [if_neg hlt]
      refine ⟨id, rfl, rfl, fun _ => rfl, append_nil _, fun hfin hle => ?_, fun _ hheld => hheld⟩
      rw [hfin] at hbuffer
      simp only [if_true] at hbuffer
      simp only [text, offset] at hle ⊢
      omega

end Detokenizer

/-! ### One request in delta mode -/

/-- What a consumer has of one completion. -/
@[ext] structure Sent (L : Type) where
  text : Text := []
  tokenIds : List TokenId := []
  positions : List L := []

namespace Sent

variable {L : Type}

def append (a b : Sent L) : Sent L :=
  ⟨a.text ++ b.text, a.tokenIds ++ b.tokenIds, a.positions ++ b.positions⟩

@[simp] theorem append_empty (a : Sent L) : a.append {} = a := by
  simp [append]

@[simp] theorem empty_append (a : Sent L) : append {} a = a := by
  simp [append]

theorem append_assoc (a b c : Sent L) : (a.append b).append c = a.append (b.append c) := by
  simp [append]

end Sent

/-- The positions that logprobs refer to, where `positions` is the list of the request. -/
def LogprobsRef.resolve {L : Type} (positions : List L) : Option (LogprobsRef L) → List L
  | none => []
  | some (.slice own) => own
  | some .ofRequest => positions

def CompletionOutput.chunk {L : Type} (positions : List L)
    (c : CompletionOutput (LogprobsRef L)) : Sent L :=
  ⟨c.text, c.tokenIds, resolve positions c.logprobs⟩

section
variable {σ L : Type} {cfg : StreamConfig σ} {st st' : RequestState σ} {positions : List L}
  {sent : Sent L} {newTokenIds tokenIds : List TokenId} {finished : Bool}

structure Awaits (cfg : StreamConfig σ) (st : RequestState σ) (positions : List L) (sent : Sent L)
    (newTokenIds : List TokenId) (finished : Bool) : Prop where
  ready : st.detokenizer.Ready cfg
  within : st.detokenizer.offset ≤ st.detokenizer.text.length
  held : finished = false →
    st.detokenizer.offset ≤ st.detokenizer.text.length - st.detokenizer.heldBack cfg
  text : sent.text = st.detokenizer.text.take st.detokenizer.offset
  tokens :
    if 1 < cfg.streamInterval then
      sent.tokenIds = (st.detokenizer.outputTokenIds cfg).take st.sentTokensOffset ∧
        st.sentTokensOffset ≤ (st.detokenizer.outputTokenIds cfg).length
    else st.detokenizer.outputTokenIds cfg = sent.tokenIds ++ newTokenIds
  length : positions.length =
    if cfg.logprobs then (st.detokenizer.outputTokenIds cfg).length else 0
  positions : sent.positions = positions.take sent.tokenIds.length

def Keeps (cfg : StreamConfig σ) (st : RequestState σ) (positions : List L) (sent : Sent L) : Prop :=
  Awaits cfg st positions sent [] false

def AllSent (cfg : StreamConfig σ) (detokenizer : Detokenizer σ) (positions : List L)
    (sent : Sent L) : Prop :=
  sent = ⟨detokenizer.text, detokenizer.outputTokenIds cfg, positions⟩

theorem Keeps.sent_length_le (keeps : Keeps cfg st positions sent) :
    sent.tokenIds.length ≤ (st.detokenizer.outputTokenIds cfg).length := by
  have htokens := keeps.tokens
  split at htokens
  · rw [htokens.1, length_take]
    exact Nat.min_le_right _ _
  · rw [htokens, length_append]
    exact le_add_right _ _

theorem Keeps.update (keeps : Keeps cfg st positions sent) (tokens : List (TokenId × L))
    (stopTerminated : Bool) {result : Option Text × Detokenizer σ}
    (hresult : st.detokenizer.update cfg (tokens.map Prod.fst) stopTerminated = result)
    (hfinished : finished = false → result.1 = none) :
    Awaits cfg { st with detokenizer := result.2 }
      (positions ++ if cfg.logprobs then tokens.map Prod.snd else []) sent (tokens.map Prod.fst)
      finished := by
  have updated := update_updated keeps.ready (keeps.held rfl) (tokens.map Prod.fst) stopTerminated
  rw [hresult] at updated
  have hsent := keeps.sent_length_le
  refine ⟨updated.ready, ?_, fun hfin => ?_, ?_, ?_, ?_, ?_⟩
  · rw [updated.offset]
    exact updated.within
  · rw [updated.offset]
    exact updated.held (hfinished hfin)
  · rw [keeps.text, updated.offset, updated.sent]
  · have htokens := keeps.tokens
    rw [updated.tokenIds]
    by_cases hinterval : 1 < cfg.streamInterval
    · rw [if_pos hinterval] at htokens ⊢
      rw [take_append_of_le_length htokens.2, length_append]
      exact ⟨htokens.1, htokens.2.trans (le_add_right _ _)⟩
    · rw [if_neg hinterval] at htokens ⊢
      rw [htokens, append_nil]
  · have hlength := keeps.length
    rw [updated.tokenIds, length_append, length_append, hlength, length_map]
    split
    · rw [length_map]
    · rfl
  · have hlength := keeps.length
    rw [keeps.positions]
    by_cases hlogprobs : cfg.logprobs = true
    · rw [if_pos hlogprobs] at hlength
      rw [take_append_of_le_length (by omega)]
    · rw [if_neg hlogprobs, append_nil]

theorem tokensToSend_none (hnone : tokensToSend cfg st newTokenIds finished = none)
    (awaits : Awaits cfg st positions sent newTokenIds finished) :
    finished = false ∧ Keeps cfg st positions sent := by
  unfold tokensToSend at hnone
  by_cases hinterval : 1 < cfg.streamInterval
  · rw [if_pos hinterval] at hnone
    simp only at hnone
    split at hnone
    · rename_i hskip
      have htokens := awaits.tokens
      rw [if_pos hinterval] at htokens
      exact ⟨hskip.1, awaits.ready, awaits.within, fun _ => awaits.held hskip.1, awaits.text,
        by rw [if_pos hinterval]; exact htokens, awaits.length, awaits.positions⟩
    · split at hnone <;> cases hnone
  · rw [if_neg hinterval] at hnone
    cases hnone

variable (hdelta : cfg.outputKind = .delta)
include hdelta

theorem tokensToSend_some (hsome : tokensToSend cfg st newTokenIds finished = some (tokenIds, st'))
    (awaits : Awaits cfg st positions sent newTokenIds finished) :
    st'.detokenizer = st.detokenizer ∧
      st.detokenizer.outputTokenIds cfg = sent.tokenIds ++ tokenIds ∧
      (1 < cfg.streamInterval →
        st'.sentTokensOffset = (st.detokenizer.outputTokenIds cfg).length) := by
  have htokens := awaits.tokens
  unfold tokensToSend at hsome
  by_cases hinterval : 1 < cfg.streamInterval
  · rw [if_pos hinterval] at hsome htokens
    simp only at hsome
    split at hsome
    · cases hsome
    · cases hsome
      refine ⟨rfl, ?_, fun _ => numOutputTokens_eq cfg _⟩
      rw [htokens.1, take_append_drop]
  · rw [if_neg hinterval] at hsome htokens
    cases hsome
    exact ⟨rfl, htokens, fun h => absurd h hinterval⟩

/-- The logprobs of an output that sends tokens are those of these tokens. -/
theorem resolve_newCompletionOutput (st : RequestState σ)
    (i : Nat) (finishReason : Option FinishReason) (stopReason : Option StopReason)
    (hlength : positions.length = if cfg.logprobs then (sent.tokenIds ++ tokenIds).length else 0)
    (hsafe : cfg.logprobs = true → tokenIds = [] → positions = []) :
    resolve positions (newCompletionOutput cfg positions i st tokenIds
      finishReason stopReason).1.logprobs = positions.drop sent.tokenIds.length := by
  simp only [newCompletionOutput, hdelta, decide_true, if_true, true_and]
  by_cases hlogprobs : cfg.logprobs = true
  · rw [if_pos hlogprobs, length_append] at hlength
    rw [if_neg (by simp [hlogprobs])]
    by_cases hpositions : positions = []
    · rw [if_neg (by simp [hpositions]), hpositions]
      simp [resolve]
    rw [if_pos hpositions]
    have htokens : tokenIds ≠ [] := fun hnil => hpositions (hsafe hlogprobs hnil)
    have hpos := length_pos_iff.mpr htokens
    have hbound : PySeq.sliceBound (-(tokenIds.length : Int)) positions.length =
        sent.tokenIds.length := by
      unfold PySeq.sliceBound
      rw [if_pos (by omega)]
      omega
    rw [hbound]
    rfl
  · have hpositions : positions = [] := by
      rw [if_neg hlogprobs] at hlength
      exact length_eq_zero_iff.mp hlength
    rw [if_pos (by simpa using hlogprobs), hpositions, drop_nil]
    rfl

/-- An output is made: what it adds is what was not sent yet. -/
theorem Awaits.newCompletionOutput {finishReason : Option FinishReason}
    (awaits : Awaits cfg st positions sent newTokenIds finishReason.isSome)
    (hsome : tokensToSend cfg st newTokenIds finishReason.isSome = some (tokenIds, st'))
    (hsafe : cfg.logprobs = true → tokenIds = [] → positions = []) (i : Nat)
    (stopReason : Option StopReason) {c : CompletionOutput (LogprobsRef L)} {st₂ : RequestState σ}
    (hnew : Frontend.newCompletionOutput cfg positions i st' tokenIds finishReason stopReason =
      (c, st₂)) :
    (∀ n, st₂.detokenizer.setOffset n = st.detokenizer.setOffset n) ∧
      (finishReason = none → Keeps cfg st₂ positions (sent.append (c.chunk positions))) ∧
      (finishReason.isSome = true →
        AllSent cfg st.detokenizer positions (sent.append (c.chunk positions))) := by
  obtain ⟨hsame, htokens, hoffset⟩ := tokensToSend_some hdelta hsome awaits
  have hlength := awaits.length
  rw [htokens] at hlength
  have hresolve := resolve_newCompletionOutput hdelta st' i finishReason stopReason hlength hsafe
  rw [hnew] at hresolve
  have advanced := st.detokenizer.getNextOutputText_advanced cfg finishReason.isSome
  rw [← hsame] at advanced
  have hc : c.text = (st'.detokenizer.getNextOutputText cfg finishReason.isSome true).1 ∧
      c.tokenIds = tokenIds ∧ st₂ = { st' with
        detokenizer := (st'.detokenizer.getNextOutputText cfg finishReason.isSome true).2 } := by
    simp only [Frontend.newCompletionOutput, hdelta, decide_true, if_true] at hnew
    cases hnew
    exact ⟨rfl, rfl, rfl⟩
  generalize hnext : st'.detokenizer.getNextOutputText cfg finishReason.isSome true = next
    at advanced hc
  obtain ⟨hctext, hctokens, rfl⟩ := hc
  rw [hsame] at advanced
  have htext : (sent.append (c.chunk positions)).text = st.detokenizer.text.take next.2.offset := by
    rw [← advanced.sent, ← awaits.text, ← hctext]
    rfl
  have htokenIds : (sent.append (c.chunk positions)).tokenIds =
      st.detokenizer.outputTokenIds cfg := by
    rw [htokens, ← hctokens]
    rfl
  have hpositions : (sent.append (c.chunk positions)).positions = positions := by
    have hsplit : (sent.append (c.chunk positions)).positions =
        sent.positions ++ resolve positions c.logprobs := rfl
    rw [hsplit, hresolve, awaits.positions, take_append_drop]
  refine ⟨advanced.same, fun hfin => ?_, fun hfin => ?_⟩
  · have hunfinished : finishReason.isSome = false := by rw [hfin]; rfl
    have hheld := advanced.held hunfinished (awaits.held hunfinished)
    refine ⟨advanced.ready awaits.ready, ?_, fun _ => ?_, ?_, ?_, ?_, ?_⟩
    · rw [advanced.text]
      exact hheld.trans (sub_le _ _)
    · rw [advanced.text]
      exact hheld
    · rw [advanced.text, htext]
    · rw [advanced.tokenIds, htokenIds, append_nil]
      split
      · rename_i hinterval
        rw [hoffset hinterval, take_length]
        exact ⟨rfl, Nat.le_refl _⟩
      · rfl
    · rw [advanced.tokenIds]
      exact awaits.length
    · have hle : positions.length ≤ (st.detokenizer.outputTokenIds cfg).length := by
        rw [awaits.length]
        split <;> omega
      rw [hpositions, htokenIds, take_of_length_le hle]
  · refine Sent.ext ?_ htokenIds hpositions
    rw [htext, advanced.all hfin awaits.within, take_length]

end

/-! ### The collector -/

def CompletionOutput.sent {L : Type} (c : CompletionOutput (List L)) : Sent L :=
  ⟨c.text, c.tokenIds, c.logprobs.getD []⟩

def sentIn {L : Type} (i : Nat) : List (CompletionOutput (List L)) → Sent L
  | [] => {}
  | c :: cs => if c.index = i then c.sent.append (sentIn i cs) else sentIn i cs

theorem sentIn_append {L : Type} (i : Nat) (cs cs' : List (CompletionOutput (List L))) :
    sentIn i (cs ++ cs') = (sentIn i cs).append (sentIn i cs') := by
  induction cs with
  | nil => exact (Sent.empty_append _).symm
  | cons c cs ih =>
    rw [cons_append, sentIn, sentIn, ih]
    split
    · exact (Sent.append_assoc _ _ _).symm
    · rfl

theorem sentIn_eq_empty {L : Type} {i : Nat} {cs : List (CompletionOutput (List L))}
    (h : i ∉ cs.map (·.index)) : sentIn i cs = {} := by
  induction cs with
  | nil => rfl
  | cons c cs ih =>
    rw [map_cons, mem_cons, not_or] at h
    rw [sentIn, if_neg (fun heq => h.1 heq.symm), ih h.2]

namespace Frontend

variable {σ L : Type} {cfg : StreamConfig σ} {s s' : Frontend σ L}
  {next : CompletionOutput (LogprobsRef L)}

def readCompletion (s : Frontend σ L) (c : CompletionOutput (LogprobsRef L)) :
    CompletionOutput (List L) where
  index := c.index
  text := c.text
  tokenIds := c.tokenIds
  logprobs := c.logprobs.map fun ref => s.positions c.index (some ref)
  finishReason := c.finishReason
  stopReason := c.stopReason

theorem sent_readCompletion (c : CompletionOutput (LogprobsRef L)) :
    (s.readCompletion c).sent = c.chunk (s.sampleLogprobs c.index) := by
  refine Sent.ext rfl rfl ?_
  simp only [sent, readCompletion, chunk]
  cases c.logprobs with
  | none => rfl
  | some ref => cases ref <;> rfl

def pendingOutputs (s : Frontend σ L) : List (CompletionOutput (List L)) :=
  match s.output with
  | none => []
  | some output => output.outputs.map s.readCompletion

/-- What the consumer has of a request, or can take at once. -/
def sent (s : Frontend σ L) (i : Nat) : Sent L :=
  (sentIn i (s.received.flatMap (·.outputs))).append (sentIn i s.pendingOutputs)

theorem sent_get (s : Frontend σ L) (i : Nat) : s.get.sent i = s.sent i := by
  unfold get sent pendingOutputs
  cases houtput : s.output with
  | none => simp only [houtput]
  | some output =>
    simp only [flatMap_append, flatMap_singleton, sentIn_append]
    rw [sentIn, Sent.append_empty]
    rfl

/-- The logprobs of a waiting completion: there if they were asked for, and the list of the
request itself only if the request ended. -/
def RefOk (cfg : StreamConfig σ) (s : Frontend σ L) (c : CompletionOutput (LogprobsRef L)) : Prop :=
  c.logprobs.isSome = cfg.logprobs ∧ (c.logprobs = some .ofRequest → s.requestStates c.index = none)

theorem addCompletion_same (cfg : StreamConfig σ) {c : CompletionOutput (LogprobsRef L)}
    (hindex : c.index = next.index)
    (hext : s.positions next.index next.logprobs ≠ [] → ∃ own, c.logprobs = some (.slice own))
    (outputs : List (CompletionOutput (LogprobsRef L))) :
    ∃ merged, addCompletion true s next (c :: outputs) = .ok (merged :: outputs, s) ∧
      merged.index = c.index ∧
      merged.chunk (s.sampleLogprobs c.index) = (c.chunk (s.sampleLogprobs c.index)).append
        (next.chunk (s.sampleLogprobs next.index)) ∧
      (RefOk cfg s c → RefOk cfg s merged) := by
  have hmore : s.positions next.index next.logprobs =
      resolve (s.sampleLogprobs next.index) next.logprobs := by
    cases next.logprobs with
    | none => rfl
    | some ref => cases ref <;> rfl
  rw [addCompletion, if_neg (not_not.mpr hindex), if_neg Bool.noConfusion]
  by_cases hempty : s.positions next.index next.logprobs = []
  · rw [if_pos hempty]
    refine ⟨_, rfl, rfl, Sent.ext rfl rfl ?_, id⟩
    rw [hmore] at hempty
    simp only [chunk, Sent.append, hempty, append_nil]
  · obtain ⟨own, hown⟩ := hext hempty
    rw [if_neg hempty, hown]
    refine ⟨_, rfl, rfl, Sent.ext rfl rfl ?_, fun href => ⟨?_, fun hnone => ?_⟩⟩
    · simp only [chunk, Sent.append, hown, hmore]
      rfl
    · rw [← href.1, hown]
      rfl
    · cases hnone

theorem addCompletion_delta (cfg : StreamConfig σ) (s : Frontend σ L)
    (next : CompletionOutput (LogprobsRef L))
    {outputs : List (CompletionOutput (LogprobsRef L))} (hnodup : (outputs.map (·.index)).Nodup)
    (hext : s.positions next.index next.logprobs ≠ [] →
      ∀ c ∈ outputs, c.index = next.index → ∃ own, c.logprobs = some (.slice own)) :
    ∃ outputs', addCompletion true s next outputs = .ok (outputs', s) ∧
      (∀ j, sentIn j (outputs'.map s.readCompletion) =
        (sentIn j (outputs.map s.readCompletion)).append
          (if next.index = j then next.chunk (s.sampleLogprobs next.index) else {})) ∧
      (outputs'.map (·.index)).Nodup ∧
      (∀ j ∈ outputs'.map (·.index), j = next.index ∨ j ∈ outputs.map (·.index)) ∧
      (RefOk cfg s next → (∀ c ∈ outputs, RefOk cfg s c) → ∀ c ∈ outputs', RefOk cfg s c) := by
  induction outputs with
  | nil =>
    refine ⟨[next], rfl, fun j => ?_, by simp, fun j hj => ?_, fun hnext _ c hc => ?_⟩
    · simp only [map_nil, map_cons, sentIn, sent_readCompletion, Sent.append_empty,
        Sent.empty_append]
      rfl
    · exact .inl (mem_singleton.mp hj)
    · rw [mem_singleton.mp hc]
      exact hnext
  | cons c outputs ih =>
    rw [map_cons, nodup_cons] at hnodup
    by_cases hindex : c.index = next.index
    · obtain ⟨merged, hadd, hmerged, hchunk, href⟩ := addCompletion_same cfg hindex
        (fun hmore => hext hmore c mem_cons_self hindex) outputs
      have hindices : (merged :: outputs).map (·.index) = (c :: outputs).map (·.index) := by
        rw [map_cons, map_cons, hmerged]
      refine ⟨merged :: outputs, hadd, fun j => ?_, ?_, fun j hj => ?_, fun _ hall c' hc' => ?_⟩
      · have hreadm : (s.readCompletion merged).index = c.index := hmerged
        have hreadc : (s.readCompletion c).index = c.index := rfl
        rw [map_cons, map_cons, sentIn, sentIn, hreadm, hreadc, ← hindex,
          sent_readCompletion, sent_readCompletion, hmerged, hchunk, hindex]
        by_cases hj : next.index = j
        · -- the others have another index
          have hrest : sentIn j (outputs.map s.readCompletion) = {} := by
            refine sentIn_eq_empty fun hmem => hnodup.1 ?_
            rw [map_map] at hmem
            rw [hindex, hj]
            exact hmem
          rw [if_pos hj, if_pos hj, if_pos hj, hrest, Sent.append_empty, Sent.append_empty]
        · rw [if_neg hj, if_neg hj, if_neg hj, Sent.append_empty]
      · rw [hindices, map_cons, nodup_cons]
        exact hnodup
      · rw [hindices] at hj
        exact .inr hj
      · rcases mem_cons.mp hc' with rfl | hc'
        · exact href (hall c mem_cons_self)
        · exact hall c' (mem_cons_of_mem _ hc')
    · obtain ⟨outputs', hadd, hsent, hnodup', hsub, hrefs⟩ :=
        ih hnodup.2 fun hmore c' hc' => hext hmore c' (mem_cons_of_mem _ hc')
      refine ⟨c :: outputs', ?_, fun j => ?_, ?_, ?_, ?_⟩
      · rw [addCompletion, if_pos hindex, hadd]
      · rw [map_cons, map_cons, sentIn, sentIn, hsent]
        split
        · exact (Sent.append_assoc _ _ _).symm
        · rfl
      · rw [map_cons, nodup_cons]
        refine ⟨fun hmem => ?_, hnodup'⟩
        exact (hsub _ hmem).elim hindex hnodup.1
      · intro j hj
        rcases mem_cons.mp hj with rfl | hj
        · exact .inr mem_cons_self
        · exact (hsub j hj).imp_right (mem_cons_of_mem _)
      · intro hnext hall c' hc'
        rcases mem_cons.mp hc' with rfl | hc'
        · exact hall _ mem_cons_self
        · exact hrefs hnext (fun d hd => hall d (mem_cons_of_mem _ hd)) c' hc'

structure PendingOk (cfg : StreamConfig σ) (s : Frontend σ L) : Prop where
  nodup : ∀ o, s.output = some o → (o.outputs.map (·.index)).Nodup
  refs : ∀ o, s.output = some o → ∀ c ∈ o.outputs, RefOk cfg s c

theorem put_delta (hdelta : cfg.outputKind = .delta) (pending : PendingOk cfg s)
    (hnext : RefOk cfg s next)
    (hext : s.positions next.index next.logprobs ≠ [] → ∀ o, s.output = some o → ∀ c ∈ o.outputs,
      c.index = next.index → c.logprobs ≠ some .ofRequest) (finished : Bool) :
    ∃ o, s.put cfg ⟨[next], finished⟩ = .ok { s with output := some o } ∧
      PendingOk cfg { s with output := some o } ∧
      ∀ j, sent { s with output := some o } j =
        (s.sent j).append
          (if next.index = j then next.chunk (s.sampleLogprobs next.index) else {}) := by
  cases houtput : s.output with
  | none =>
    refine ⟨⟨[next], finished⟩, ?_, ⟨?_, ?_⟩, fun j => ?_⟩
    · rw [put, houtput]
    · rintro o ⟨⟩
      simp
    · rintro o ⟨⟩ c hc
      rw [mem_singleton.mp hc]
      exact hnext
    · have hpending : s.pendingOutputs = [] := by rw [pendingOutputs, houtput]
      have hnew : pendingOutputs { s with output := some ⟨[next], finished⟩ } =
          [s.readCompletion next] := rfl
      rw [sent, sent, hpending, hnew]
      simp only [sentIn, Sent.append_empty, sent_readCompletion]
      rfl
  | some o =>
    obtain ⟨outputs, hadd, hsent, hnodup, -, hrefs⟩ := addCompletion_delta cfg s
      next (pending.nodup o houtput) (fun hmore c hc hindex => by
        have href := pending.refs o houtput c hc
        have hlogprobs : cfg.logprobs = true := by
          rw [← hnext.1]
          cases hl : next.logprobs with
          | none =>
            rw [hl] at hmore
            exact absurd rfl hmore
          | some _ => rfl
        have hne := hext hmore o houtput c hc hindex
        have hsome := href.1
        rw [hlogprobs] at hsome
        cases hl : c.logprobs with
        | none =>
          rw [hl] at hsome
          cases hsome
        | some ref =>
          cases ref with
          | slice own => exact ⟨own, rfl⟩
          | ofRequest => exact absurd hl hne)
    refine ⟨⟨outputs, o.finished || finished⟩, ?_, ⟨?_, ?_⟩, fun j => ?_⟩
    · rw [put, houtput]
      simp only [hdelta, decide_true, addAll, hadd]
    · rintro o' ⟨⟩
      exact hnodup
    · rintro o' ⟨⟩ c hc
      exact hrefs hnext (pending.refs o houtput) c hc
    · have hpending : s.pendingOutputs = o.outputs.map s.readCompletion := by
        rw [pendingOutputs, houtput]
      have hnew : pendingOutputs { s with output := some ⟨outputs, o.finished || finished⟩ } =
          outputs.map s.readCompletion := rfl
      rw [sent, sent, hpending, hnew, hsent, Sent.append_assoc]

end Frontend
end Vllm.Output
