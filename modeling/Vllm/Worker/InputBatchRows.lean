import Vllm.Worker.InputBatch

/-! What the row of a request holds, and what the operations of the batch do to the rows: each moves
or swaps whole rows, except for the mask of allowed tokens. -/
namespace Vllm.Worker
open List Slice Column Option

structure Entry (F G : Type) where
  numTokensNoSpec : Nat
  numPromptTokens : Nat
  numComputedTokens : Nat
  specTokenIds : List Token
  temperature : F
  topP : F
  topK : Int
  frequencyPenalty : F
  presencePenalty : F
  repetitionPenalty : F
  numAcceptedTokens : Nat
  loraId : Nat
  generator : Option G
  badWordsTokenIds : Option (List (List Token))
  mask : Nat → Bool

/-- The state of a request: what was written for it. Positions of the prompt that are embeddings have
no token id. -/
structure Row (F G : Type) extends Entry F G where
  tokenIds : Nat → Option Token
  isTokenIds : Nat → Option Bool
  blockIds : Nat → List Nat

namespace Row
variable {K F G : Type}

def activeTokenCount (e : Row F G) : Nat := e.numTokensNoSpec + e.specTokenIds.length

def promptTokenIds : Prompt → Nat → Option Token
  | .tokenIds ids _ => write (fun _ => none) 0 (ids.map some)
  | .embeds _ => fun _ => none

def promptFlags : Prompt → Nat → Option Bool
  | .tokenIds ids (some isTokenIds) =>
    trim (write (fun _ => none) 0 (isTokenIds.map some)) ids.length
  | .tokenIds ids none => fill (fun _ => none) 0 ids.length (some true)
  | .embeds length => fill (fun _ => none) 0 length (some false)

/-- What `add_request` is to write for a request. -/
def ofRequest [Zero F] (vocabSize : Nat) (r : CachedRequestState K F G) : Row F G where
  numTokensNoSpec := r.prompt.length + r.outputTokenIds.length
  numPromptTokens := r.prompt.length
  numComputedTokens := r.numComputedTokens
  specTokenIds := []
  temperature := if r.samplingParams.greedy then 0 else r.samplingParams.temperature
  topP := r.samplingParams.topP
  topK := InputBatch.rowTopK vocabSize r.samplingParams.topK
  frequencyPenalty := r.samplingParams.frequencyPenalty
  presencePenalty := r.samplingParams.presencePenalty
  repetitionPenalty := r.samplingParams.repetitionPenalty
  numAcceptedTokens := 1
  loraId := r.loraIntId
  generator := r.generator
  badWordsTokenIds :=
    if r.samplingParams.badWordsTokenIds = [] then none else some r.samplingParams.badWordsTokenIds
  mask :=
    if r.samplingParams.allowedTokenIds = [] then fun _ => false
    else fun token => decide (token ∉ r.samplingParams.allowedTokenIds)
  tokenIds :=
    write (promptTokenIds r.prompt) r.prompt.length (r.outputTokenIds.map some)
  isTokenIds :=
    fill (promptFlags r.prompt) r.prompt.length
      (r.prompt.length + r.outputTokenIds.length) (some true)
  blockIds := fun g => r.blockIds.getD g []

def update (e : Row F G) : InputBatch.Update → Row F G
  | .specTokenIds ids =>
    let start := e.numTokensNoSpec
    { e with
      specTokenIds := ids
      tokenIds := write (trim e.tokenIds start) start (ids.map some)
      isTokenIds :=
        fill (trim e.isTokenIds start) start (start + ids.length) (some true) }
  | .tokenIds ids =>
    let start := e.numTokensNoSpec
    { e with
      numTokensNoSpec := start + ids.length
      tokenIds := write e.tokenIds start (ids.map some)
      isTokenIds := fill e.isTokenIds start (start + ids.length) (some true) }
  | .numTokensNoSpec n =>
    { e with
      numTokensNoSpec := n
      tokenIds := trim e.tokenIds (n + e.specTokenIds.length)
      isTokenIds := trim e.isTokenIds (n + e.specTokenIds.length) }
  | .numComputedTokens n => { e with numComputedTokens := n }
  | .blockIds ids => { e with blockIds := fun g => e.blockIds g ++ ids.getD g [] }
  | .numAcceptedTokens n => { e with numAcceptedTokens := n }

end Row

namespace InputBatch
section
variable {K F G : Type}

/-- The row of the mask; nothing is masked before it is allocated. -/
def maskRow (b : InputBatch K F G) (i : Nat) : Nat → Bool :=
  (b.allowedTokenIdsMask.getD fun _ _ => false) i

def entry (b : InputBatch K F G) (i : Nat) : Entry F G where
  numTokensNoSpec := b.numTokensNoSpec i
  numPromptTokens := b.numPromptTokens i
  numComputedTokens := b.numComputedTokens i
  specTokenIds := b.specTokenIds.getD i []
  temperature := b.temperature i
  topP := b.topP i
  topK := b.topK i
  frequencyPenalty := b.frequencyPenalties i
  presencePenalty := b.presencePenalties i
  repetitionPenalty := b.repetitionPenalties i
  numAcceptedTokens := b.numAcceptedTokens i
  loraId := b.requestLoraMapping i
  generator := b.generators i
  badWordsTokenIds := b.badWordsTokenIds i
  mask := b.maskRow i

/-- A row holds the state of a request: up to the active length its token ids and flags, its blocks,
and an entry of each column. -/
structure Holds (b : InputBatch K F G) (i : Nat) (e : Row F G) : Prop where
  entry : b.entry i = e.toEntry
  tokenIds : Known e.activeTokenCount e.tokenIds (b.tokenIds i)
  isTokenIds : Known e.activeTokenCount e.isTokenIds (b.isTokenIds i)
  blocks : b.blockTable.Holds i e.blockIds

variable {b : InputBatch K F G} {i j k : Nat} {e : Row F G} {allowed : List Nat}

theorem Holds.activeTokenCount (h : b.Holds i e) : b.activeTokenCount i = e.activeTokenCount := by
  have hnum : b.numTokensNoSpec i = e.numTokensNoSpec := congrArg Entry.numTokensNoSpec h.entry
  have hspec : b.specTokenIds.getD i [] = e.specTokenIds := congrArg Entry.specTokenIds h.entry
  rw [InputBatch.activeTokenCount, Row.activeTokenCount, hnum, hspec]

/-! ### The rows of the mask -/

section
variable {mask : Option (Column (Nat → Bool))}

theorem maskRow_swapViews
    (h : mask.getD (fun _ _ => false) i = mask.getD (fun _ _ => false) j) :
    (mask.map fun m => swapViews m i j).getD (fun _ _ => false) k =
      mask.getD (fun _ _ => false) (Equiv.swap i j k) := by
  cases mask with
  | none => rfl
  | some m =>
    have hrows : m i = m j := h
    have hviews : swapViews m i j = m.swap i j := by
      simp only [swapViews, set_self, Column.swap, hrows]
    simp only [map_some, getD_some, hviews, swap_apply]

theorem maskRow_move_self :
    (mask.map fun m => m.move i j).getD (fun _ _ => false) j = mask.getD (fun _ _ => false) i := by
  cases mask with
  | none => rfl
  | some m => simp only [map_some, getD_some, move_self]

theorem maskRow_move_of_ne (h : k ≠ j) :
    (mask.map fun m => m.move i j).getD (fun _ _ => false) k = mask.getD (fun _ _ => false) k := by
  cases mask with
  | none => rfl
  | some m => simp only [map_some, getD_some, m.move_of_ne i j h]

theorem maskRow_set_of_ne (row : Nat → Bool) (h : k ≠ i) :
    (mask.map fun m => m.set i row).getD (fun _ _ => false) k = mask.getD (fun _ _ => false) k := by
  cases mask with
  | none => rfl
  | some m => simp only [map_some, getD_some, m.set_of_ne i row h]

end

theorem maskRow_writeAllowed_self (h : allowed ≠ [] ∨ b.maskRow i = fun _ => false) :
    (b.writeAllowed i allowed).getD (fun _ _ => false) i =
      if allowed = [] then fun _ => false else fun token => decide (token ∉ allowed) := by
  unfold writeAllowed
  split
  · rename_i hnone
    exact h.resolve_left fun hne => hne hnone
  · rw [getD_some, set_self]

theorem maskRow_writeAllowed_of_ne (hi : k ≠ i) :
    (b.writeAllowed i allowed).getD (fun _ _ => false) k = b.maskRow k := by
  unfold writeAllowed
  split
  · rfl
  · rw [getD_some, set_of_ne _ _ _ hi, maskRow]

/-! ### Swapping and moving rows -/

theorem Holds.swapRows (hi : i < b.specTokenIds.length) (hj : j < b.specTokenIds.length)
    (hmask : b.maskRow i = b.maskRow j) (h : b.Holds (Equiv.swap i j k) e) :
    (b.swapRows i j).Holds k e := by
  have hle : k = i ∨ k = j →
      e.activeTokenCount ≤ max (b.activeTokenCount i) (b.activeTokenCount j) := by
    rw [← h.activeTokenCount]
    rintro (rfl | rfl)
    · rw [Equiv.swap_apply_left]
      exact Nat.le_max_right _ _
    · rw [Equiv.swap_apply_right]
      exact Nat.le_max_left _ _
  refine ⟨?_, h.tokenIds.swapRows hle, h.isTokenIds.swapRows hle, h.blocks.swapRow⟩
  rw [← h.entry]
  simp only [InputBatch.entry, InputBatch.swapRows, swap_apply, getD_swap _ _ hi hj,
    maskRow, maskRow_swapViews hmask]

/-- What moving a row to an empty one needs. -/
structure Movable (b : InputBatch K F G) (src dst : Nat) : Prop where
  ne : src ≠ dst
  dst_lt : dst < b.specTokenIds.length
  src_lt : src < b.specTokenIds.length
  generators : b.generators dst = none
  badWords : b.badWordsTokenIds dst = none

variable [DecidableEq K] {id : K}

theorem Holds.moveRow_self (hmove : b.Movable i j) (h : b.Holds i e) :
    (b.moveRow i j id).Holds j e := by
  have hle : e.activeTokenCount ≤ b.activeTokenCount i := h.activeTokenCount.ge
  refine ⟨?_, ?_, ?_, h.blocks.moveRow_self⟩
  · rw [← h.entry]
    have hspec := getD_set_self (b.specTokenIds.set i (b.specTokenIds.getD j [])) []
      (b.specTokenIds.getD i []) (by rw [length_set]; exact hmove.dst_lt)
    simp only [InputBatch.entry, moveRow, move_self, maskRow, maskRow_move_self,
      popTo_dst _ hmove.ne hmove.generators, popTo_dst _ hmove.ne hmove.badWords,
      getD_set_of_ne _ _ _ hmove.ne.symm, hspec]
  · simp only [moveRow, set_self]
    exact h.tokenIds.copy hle _
  · simp only [moveRow, set_self]
    exact h.isTokenIds.copy hle _

theorem Holds.moveRow_of_ne (hi : k ≠ i) (hj : k ≠ j) (h : b.Holds k e) :
    (b.moveRow i j id).Holds k e := by
  refine ⟨?_, ?_, ?_, h.blocks.moveRow_of_ne hj⟩
  · rw [← h.entry]
    simp only [InputBatch.entry, moveRow, move_of_ne _ _ _ hj, maskRow,
      maskRow_move_of_ne hj, popTo_of_ne _ hi hj, getD_set_of_ne _ _ _ hi,
      getD_set_of_ne _ _ _ hj]
  · simp only [moveRow, set_of_ne _ _ _ hj]
    exact h.tokenIds
  · simp only [moveRow, set_of_ne _ _ _ hj]
    exact h.isTokenIds

theorem Holds.clearRow_of_ne (hi : k ≠ i) (h : b.Holds k e) : (b.clearRow i id).Holds k e := by
  have hlora : (if b.requestLoraMapping i = 0 then b.requestLoraMapping
      else b.requestLoraMapping.set i 0) k = b.requestLoraMapping k := by
    split
    · rfl
    · rw [set_of_ne _ _ _ hi]
  refine ⟨?_, h.tokenIds, h.isTokenIds, h.blocks.clearRow_of_ne hi⟩
  rw [← h.entry]
  simp only [InputBatch.entry, clearRow, set_of_ne _ _ _ hi, maskRow,
    maskRow_set_of_ne _ hi, getD_set_of_ne _ _ _ hi, hlora]

/-! ### Adding a request -/

theorem known_writePrompt (row : Nat → Token) (prompt : Prompt) :
    Known prompt.length (Row.promptTokenIds prompt) (writePrompt row prompt) := by
  cases prompt with
  | tokenIds ids flags =>
    exact (known_none ids.length row).write ids (Nat.zero_add _).le
  | embeds length => exact known_none _ _

theorem known_writePromptFlags (row : Nat → Bool) (prompt : Prompt) :
    Known prompt.length (Row.promptFlags prompt) (writePromptFlags row prompt) := by
  cases prompt with
  | tokenIds ids flags =>
    cases flags with
    | none => exact (known_none ids.length row).fill true (Nat.le_refl _)
    | some flags =>
      exact ((known_none flags.length row).write flags (Nat.zero_add _).le).trim ids.length
  | embeds length => exact (known_none length row).fill false (Nat.le_refl _)

theorem specTokenIds_enter_self (hspec : i = b.reqIds.length → b.specTokenIds.getD i [] = []) :
    (b.enter i id).specTokenIds.getD i [] = [] := by
  unfold enter
  split
  · rename_i hi
    have hnone := hspec hi
    rw [getD_eq_getElem?_getD] at hnone ⊢
    rcases Nat.lt_or_ge i b.specTokenIds.length with hlt | hge
    · rw [getElem?_append_left hlt, hnone]
    rw [getElem?_append_right hge]
    cases i - b.specTokenIds.length with
    | zero => rfl
    | succ n => rfl
  · rcases Nat.lt_or_ge i b.specTokenIds.length with hlt | hge
    · exact getD_set_self _ _ _ hlt
    · rw [getD_eq_getElem?_getD, getElem?_eq_none (by rw [length_set]; exact hge)]
      rfl

theorem specTokenIds_enter_of_ne (hi : k ≠ i) :
    (b.enter i id).specTokenIds.getD k [] = b.specTokenIds.getD k [] := by
  unfold enter
  split
  · rw [getD_eq_getElem?_getD, getD_eq_getElem?_getD]
    rcases Nat.lt_or_ge k b.specTokenIds.length with hlt | hge
    · rw [getElem?_append_left hlt]
    rw [getElem?_append_right hge, getElem?_eq_none hge]
    cases k - b.specTokenIds.length with
    | zero => rfl
    | succ n => rfl
  · exact getD_set_of_ne _ _ _ hi

variable [Zero F] {r : CachedRequestState K F G}

/-- What an empty row needs to take a request: it has no generator, no bad words, no drafts, and its
mask is clear unless the request writes it. -/
structure Takes (b : InputBatch K F G) (i : Nat) (allowed : List Nat) : Prop where
  spec : i = b.reqIds.length → b.specTokenIds.getD i [] = []
  generators : b.generators i = none
  badWords : b.badWordsTokenIds i = none
  mask : allowed ≠ [] ∨ b.maskRow i = fun _ => false

theorem generators_writeRow_self (h : b.generators i = none) :
    (b.writeRow i r).generators i = r.generator := by
  simp only [writeRow]
  split
  · exact set_self _ _ _
  · rename_i hnone
    rw [h]
    exact (not_isSome_iff_eq_none.mp hnone).symm

theorem generators_writeRow_of_ne (hi : k ≠ i) :
    (b.writeRow i r).generators k = b.generators k := by
  simp only [writeRow]
  split
  · exact set_of_ne _ _ _ hi
  · rfl

theorem badWordsTokenIds_writeRow_self (h : b.badWordsTokenIds i = none) :
    (b.writeRow i r).badWordsTokenIds i =
      if r.samplingParams.badWordsTokenIds = [] then none
      else some r.samplingParams.badWordsTokenIds := by
  simp only [writeRow]
  split
  · exact h
  · exact set_self _ _ _

theorem badWordsTokenIds_writeRow_of_ne (hi : k ≠ i) :
    (b.writeRow i r).badWordsTokenIds k = b.badWordsTokenIds k := by
  simp only [writeRow]
  split
  · rfl
  · exact set_of_ne _ _ _ hi

theorem holds_add_self (h : b.Takes i r.samplingParams.allowedTokenIds) :
    ((b.enter i r.reqId).writeRow i r).Holds i (Row.ofRequest b.vocabSize r) := by
  have hspec := @specTokenIds_enter_self K F G b i _ r.reqId h.spec
  have hgenerator := @generators_writeRow_self K F G (b.enter i r.reqId) i _ _ r h.generators
  have hbad := @badWordsTokenIds_writeRow_self K F G (b.enter i r.reqId) i _ _ r h.badWords
  have hmask := @maskRow_writeAllowed_self K F G (b.enter i r.reqId) i _ h.mask
  refine ⟨?_, ?_, ?_, MultiGroupBlockTable.holds_addRow_self _ _ _⟩
  · rw [entry, hgenerator, hbad]
    simp only [writeRow, set_self, maskRow, Row.ofRequest, hspec, hmask]
    rfl
  · simp only [writeRow, set_self]
    exact ((known_writePrompt _ r.prompt).mono (Nat.le_add_right _ _)).write _ (Nat.le_refl _)
  · simp only [writeRow, set_self]
    exact ((known_writePromptFlags _ r.prompt).mono (Nat.le_add_right _ _)).fill true (Nat.le_refl _)

theorem Holds.add_of_ne (hi : k ≠ i) (h : b.Holds k e) :
    ((b.enter i r.reqId).writeRow i r).Holds k e := by
  have hspec := @specTokenIds_enter_of_ne K F G b i k _ r.reqId hi
  have hmask := @maskRow_writeAllowed_of_ne K F G (b.enter i r.reqId) i k
    r.samplingParams.allowedTokenIds hi
  refine ⟨?_, ?_, ?_, h.blocks.addRow_of_ne hi⟩
  · rw [← h.entry, InputBatch.entry, generators_writeRow_of_ne hi,
      badWordsTokenIds_writeRow_of_ne hi]
    simp only [writeRow, set_of_ne _ _ _ hi, maskRow, hmask, hspec]
    rfl
  · simp only [writeRow, set_of_ne _ _ _ hi]
    exact h.tokenIds
  · simp only [writeRow, set_of_ne _ _ _ hi]
    exact h.isTokenIds

end

/-! ### Updating a row -/

section
variable {K F G : Type} {b : InputBatch K F G} {i k : Nat} {e : Row F G}

theorem Holds.updateRow_self (hi : i < b.specTokenIds.length) (h : b.Holds i e) (u : Update) :
    (b.updateRow i u).Holds i (e.update u) := by
  have hentry := h.entry
  have hstart : b.numTokensNoSpec i = e.numTokensNoSpec := congrArg Entry.numTokensNoSpec hentry
  cases u with
  | specTokenIds ids =>
    refine ⟨?_, ?_, ?_, h.blocks⟩
    · change { b.entry i with specTokenIds := (b.specTokenIds.set i ids).getD i [] } = _
      rw [hentry, getD_set_self _ _ _ hi]
      rfl
    · simp only [updateRow, set_self, hstart]
      exact ((h.tokenIds.trim _).mono (Nat.le_add_right _ ids.length)).write ids (Nat.le_refl _)
    · simp only [updateRow, set_self, hstart]
      exact ((h.isTokenIds.trim _).mono (Nat.le_add_right _ ids.length)).fill true (Nat.le_refl _)
  | tokenIds ids =>
    have hactive : (e.update (.tokenIds ids)).activeTokenCount = e.activeTokenCount + ids.length :=
      Nat.add_right_comm _ _ _
    have hle : e.numTokensNoSpec + ids.length ≤ e.activeTokenCount + ids.length :=
      Nat.add_le_add_right (Nat.le_add_right _ _) _
    refine ⟨?_, ?_, ?_, h.blocks⟩
    · change { b.entry i with
        numTokensNoSpec := b.numTokensNoSpec.set i (b.numTokensNoSpec i + ids.length) i } = _
      rw [hentry, set_self, hstart]
      rfl
    · simp only [updateRow, set_self, hstart, hactive]
      exact (h.tokenIds.mono (Nat.le_add_right _ _)).write ids hle
    · simp only [updateRow, set_self, hstart, hactive]
      exact (h.isTokenIds.mono (Nat.le_add_right _ _)).fill true hle
  | numTokensNoSpec n =>
    refine ⟨?_, h.tokenIds.trim _, h.isTokenIds.trim _, h.blocks⟩
    change { b.entry i with numTokensNoSpec := b.numTokensNoSpec.set i n i } = _
    rw [hentry, set_self]
    rfl
  | numComputedTokens n =>
    refine ⟨?_, h.tokenIds, h.isTokenIds, h.blocks⟩
    change { b.entry i with numComputedTokens := b.numComputedTokens.set i n i } = _
    rw [hentry, set_self]
    rfl
  | blockIds ids => exact ⟨hentry, h.tokenIds, h.isTokenIds, h.blocks.appendRow_self⟩
  | numAcceptedTokens n =>
    refine ⟨?_, h.tokenIds, h.isTokenIds, h.blocks⟩
    change { b.entry i with numAcceptedTokens := b.numAcceptedTokens.set i n i } = _
    rw [hentry, set_self]
    rfl

theorem Holds.updateRow_of_ne (hi : k ≠ i) (h : b.Holds k e) (u : Update) :
    (b.updateRow i u).Holds k e := by
  cases u with
  | blockIds ids => exact ⟨h.entry, h.tokenIds, h.isTokenIds, h.blocks.appendRow_of_ne hi⟩
  | specTokenIds ids | tokenIds ids | numTokensNoSpec n | numComputedTokens n
  | numAcceptedTokens n =>
    refine ⟨?_, ?_, ?_, h.blocks⟩
    · rw [← h.entry]
      simp only [InputBatch.entry, updateRow, set_of_ne _ _ _ hi, getD_set_of_ne _ _ _ hi, maskRow]
    · simp only [updateRow, set_of_ne _ _ _ hi]
      exact h.tokenIds
    · simp only [updateRow, set_of_ne _ _ _ hi]
      exact h.isTokenIds

end
end InputBatch
end Vllm.Worker
