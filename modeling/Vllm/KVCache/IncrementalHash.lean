import Vllm.KVCache.BlockHash

/-! Block hashes of a request whose tokens grow: output tokens are appended, and the
updates of a streaming session cut the tokens back and add prompt tokens and items.
The hashes kept along the way are compared with one pass over the final request. -/
namespace Vllm.KVCache
open List PySeq Nat

/-- `Request.append_output_token_ids`, before the hashes are updated. -/
def extendTokens (r : Request) (tokens : List TokenId) : Request :=
  { r with
    outputTokenIds := r.outputTokenIds ++ tokens
    allTokenIds := r.allTokenIds ++ tokens }

def appendOutputTokenIds (env : HashEnv) (hbs : Nat) (r : Request) (tokens : List TokenId) :
    Request :=
  updateBlockHashes env hbs (extendTokens r tokens)

/-- An item of an update, placed behind the tokens that are kept. -/
def MultiModalFeature.shift (base : Nat) (f : MultiModalFeature) : MultiModalFeature :=
  { f with mmPosition := { f.mmPosition with offset := f.mmPosition.offset + base } }

/-- The token and item part of `_update_request_as_session`, before the hashes are updated. -/
def mergeUpdate (session : Request) (update : StreamingUpdate) : Request :=
  let computed := session.numComputedTokens
  let keptOutput := slice session.allTokenIds session.numPromptTokens computed
  let kept := delFrom session.allTokenIds computed
  { session with
    outputTokenIds := []
    promptTokenIds := session.promptTokenIds ++ keptOutput ++ update.promptTokenIds
    mmFeatures := session.mmFeatures ++
      update.mmFeatures.map (MultiModalFeature.shift kept.length)
    allTokenIds := kept ++ update.promptTokenIds }

/-- `Scheduler._update_request_as_session` on the request itself. -/
def updateRequestAsSession (env : HashEnv) (hbs : Nat) (session : Request)
    (update : StreamingUpdate) : Request :=
  let merged := updateBlockHashes env hbs (mergeUpdate session update)
  { merged with
    numPromptTokens := merged.promptTokenIds.length
    arrivalTime := update.arrivalTime
    samplingParams := update.samplingParams
    status := .waiting }

/-- How a request changes between two looks at its hashes. The scheduler moves
`num_computed_tokens` freely in between. -/
inductive Growth
  | append (tokens : List TokenId)
  | session (update : StreamingUpdate)
  | computed (numComputedTokens : Int)
  deriving DecidableEq, Repr

def grow (env : HashEnv) (hbs : Nat) (r : Request) : Growth → Request
  | .append tokens => appendOutputTokenIds env hbs r tokens
  | .session update => updateRequestAsSession env hbs r update
  | .computed n => { r with numComputedTokens := n }

/-- `Request.__init__` ends by hashing the prompt's full blocks. -/
def createRequest (env : HashEnv) (hbs : Nat) (r : Request) : Request :=
  updateBlockHashes env hbs { r with blockHashes := [] }

/-- The hasher restarts at the last item. That is harmless when every other item ends
before the first block to hash, or lies with the last one behind the last full block. -/
def RestartSafe (hbs : Nat) (r : Request) : Prop :=
  r.blockHashes = [] ∨ ∀ f ∈ r.mmFeatures.dropLast,
    f.stop ≤ r.blockHashes.length * hbs ∨
      (numFullBlocks hbs r * hbs ≤ f.mmPosition.offset ∧
        ∀ g ∈ r.mmFeatures.getLast?, numFullBlocks hbs r * hbs ≤ g.mmPosition.offset)

/-- No item outlasts the last one; the hasher stops looking once the last one has ended. -/
def LastEndsLast (fs : List MultiModalFeature) : Prop :=
  ∀ f ∈ fs, ∀ last ∈ fs.getLast?, f.stop ≤ last.stop

/-- A growth step that keeps the hashes exact: the restart is harmless and, for a
session update, no hashed block reaches into the tokens that are cut off. -/
def SafeGrowth (hbs : Nat) (r : Request) : Growth → Prop
  | .append tokens => RestartSafe hbs (extendTokens r tokens)
  | .session update =>
    RestartSafe hbs (mergeUpdate r update) ∧
      r.blockHashes.length * hbs ≤ sliceBound r.numComputedTokens r.numTokens ∧
      (update.mmFeatures = [] ∨ LastEndsLast r.mmFeatures)
  | .computed _ => True

def HashesExact (env : HashEnv) (hbs : Nat) (r : Request) : Prop :=
  r.blockHashes = fromScratchHashes env hbs r

/-! ### Blocks that a growth step leaves alone -/

variable {r r' : Request} {hbs stop start : Nat} {env : HashEnv}

theorem chainHashes_congr {n : Nat}
    (same : ∀ j < n, blockContent env hbs r j = blockContent env hbs r' j) :
    chainHashes env hbs r n = chainHashes env hbs r' n := by
  unfold chainHashes
  congr 1
  exact map_congr_left fun j hj => same j (mem_range.mp hj)

theorem mmLoop_append_ahead (fs gs : List MultiModalFeature) (idx : Nat)
    (ahead : ∀ g ∈ gs, stop ≤ g.mmPosition.offset) :
    (mmLoop start stop (fs ++ gs) idx).1 = (mmLoop start stop fs idx).1 := by
  induction fs generalizing idx with
  | nil => simpa [mmLoop] using mmLoop_ahead ahead idx
  | cons f fs ih => simp only [cons_append, mmLoop, ih (idx + 1)]; grind

theorem mmLoop_passed (hlt : start < stop) (fs : List MultiModalFeature)
    (idx : Nat) (passed : ∀ f ∈ fs, f.stop ≤ start) : (mmLoop start stop fs idx).1 = [] := by
  have hdrop := mmLoop_drop hlt le_rfl fs fs.length idx idx
    (fun f hf => .inl (passed f (mem_of_mem_take hf)))
  rw [← hdrop, drop_length]
  rfl

/-- Items placed behind a block leave its keys alone. -/
theorem mmKeysAt_append_ahead {gs : List MultiModalFeature} (hlt : start < stop)
    (items : r'.mmFeatures = r.mmFeatures ++ gs) (ahead : ∀ g ∈ gs, stop ≤ g.mmPosition.offset)
    (nested : gs = [] ∨ LastEndsLast r.mmFeatures) :
    mmKeysAt r' start stop = mmKeysAt r start stop := by
  rcases eq_nil_or_concat' gs with rfl | ⟨gs', newLast, rfl⟩
  · rw [append_nil] at items
    simp only [mmKeysAt, genMmExtraHashKeys, items]
  have hpast : ¬ newLast.stop ≤ start := by
    have := ahead newLast (by simp)
    have : newLast.mmPosition.offset ≤ newLast.stop := le_add_right _ _
    omega
  have hnew : mmKeysAt r' start stop = (mmLoop start stop r.mmFeatures 0).1 := by
    simp only [mmKeysAt, genMmExtraHashKeys, items,
      getLast?_append, getLast?_singleton, Option.some_or, hpast, if_false]
    simpa using mmLoop_append_ahead r.mmFeatures (gs' ++ [newLast]) 0 ahead
  rw [hnew, mmKeysAt, genMmExtraHashKeys]
  cases hlast : r.mmFeatures.getLast? with
  | none => simp [getLast?_eq_none_iff.mp hlast, mmLoop]
  | some last =>
    by_cases hended : last.stop ≤ start
    · -- the old pass stopped looking, and every old item has ended by now
      have lastEnds := nested.resolve_left (by simp)
      simpa [hended] using mmLoop_passed hlt r.mmFeatures 0
        (fun f hf => (lastEnds f hf last hlast).trans hended)
    · simp [hended]

theorem blockContent_extendTokens (hpos : 0 < hbs) (tokens : List TokenId) {j : Nat}
    (hj : j < numFullBlocks hbs r) :
    blockContent env hbs (extendTokens r tokens) j = blockContent env hbs r j := by
  have hfull : j * hbs + hbs ≤ r.allTokenIds.length := by
    rw [← succ_mul]
    exact (le_div_iff_mul_le hpos).mp hj
  refine Prod.ext ?_ rfl
  simp only [blockContent, extendTokens]
  rw [drop_append_of_le_length (by omega), take_append_of_le_length]
  rw [length_drop]
  omega

theorem blockContent_mergeUpdate (hpos : 0 < hbs) (update : StreamingUpdate)
    {j : Nat} (kept : (j + 1) * hbs ≤ sliceBound r.numComputedTokens r.numTokens)
    (nested : update.mmFeatures = [] ∨ LastEndsLast r.mmFeatures) :
    blockContent env hbs (mergeUpdate r update) j = blockContent env hbs r j := by
  have hkept : j * hbs + hbs ≤ sliceBound r.numComputedTokens r.numTokens := by
    rwa [← succ_mul]
  have hkeys : mmKeysAt (mergeUpdate r update) (j * hbs) (j * hbs + hbs) =
      mmKeysAt r (j * hbs) (j * hbs + hbs) := by
    refine mmKeysAt_append_ahead (Nat.lt_add_of_pos_right hpos) rfl ?_ ?_
    · intro g hg
      obtain ⟨f, -, rfl⟩ := mem_map.mp hg
      simp only [MultiModalFeature.shift, delFrom_length]
      exact hkept.trans (le_add_left _ _)
    · rcases nested with hnil | hlast
      · exact .inl (by rw [hnil, map_nil])
      · exact .inr hlast
  refine Prod.ext ?_ ?_
  · have hlen : (delFrom r.allTokenIds r.numComputedTokens).length =
        sliceBound r.numComputedTokens r.numTokens := delFrom_length _ _
    simp only [blockContent, mergeUpdate]
    rw [drop_append_of_le_length (by omega), take_append_of_le_length
      (by rw [length_drop]; omega), delFrom, drop_take, take_take,
      Nat.min_eq_left]
    change hbs ≤ sliceBound r.numComputedTokens r.numTokens - j * hbs
    omega
  · simp only [blockContent, extraKeysAt, generateBlockHashExtraKeys]
    rw [mmKeysAt] at hkeys
    rw [hkeys]
    rfl

/-! ### One step and whole runs -/

theorem pointerOk_of_restartSafe (safe : RestartSafe hbs r) :
    r.blockHashes.length = 0 ∨ PointerOk r.mmFeatures (numFullBlocks hbs r * hbs)
      (r.blockHashes.length * hbs) (resolveIdx r.mmFeatures (-1)) := by
  rcases safe with hnil | hothers
  · exact .inl (by rw [hnil]; rfl)
  refine .inr ?_
  have hidx : resolveIdx r.mmFeatures (-1) = r.mmFeatures.length - 1 := by
    rw [resolveIdx, if_pos (by decide)]
    omega
  rw [hidx]
  intro f hf
  rw [← dropLast_eq_take] at hf
  refine (hothers f hf).imp_right fun hahead => ⟨hahead.1, ?_⟩
  intro g hg
  apply hahead.2
  cases hfs : r.mmFeatures.getLast? with
  | none => simp [getLast?_eq_none_iff.mp hfs] at hg
  | some last =>
    obtain ⟨init, hinit⟩ := getLast?_eq_some_iff.mp hfs
    rw [hinit] at hg
    simpa [eq_comm] using hg

/-- Hashing after a change is exact if the change left the hashed blocks alone. -/
theorem updateBlockHashes_exact (hpos : 0 < hbs)
    (exactBefore : HashesExact env hbs r) (sameHashes : r'.blockHashes = r.blockHashes)
    (sameBlocks : ∀ j < r.blockHashes.length, blockContent env hbs r' j = blockContent env hbs r j)
    (enough : r.blockHashes.length ≤ numFullBlocks hbs r') (safe : RestartSafe hbs r') :
    HashesExact env hbs (updateBlockHashes env hbs r') := by
  have hbefore : r.blockHashes = chainHashes env hbs r r.blockHashes.length := by
    have hexact : r.blockHashes = chainHashes env hbs r (numFullBlocks hbs r) :=
      exactBefore.trans (fromScratchHashes_eq env hpos r)
    have hlen : r.blockHashes.length = numFullBlocks hbs r := by
      rw [hexact, chainHashes_length]
    rw [hlen]
    exact hexact
  have hchain : r'.blockHashes = chainHashes env hbs r' r'.blockHashes.length := by
    rw [sameHashes, chainHashes_congr sameBlocks]
    exact hbefore
  have hdone := requestBlockHasher_eq hpos hchain (by rwa [sameHashes])
    (pointerOk_of_restartSafe safe)
  exact hdone.trans (fromScratchHashes_eq env hpos r').symm

theorem HashesExact.length (hpos : 0 < hbs) (h : HashesExact env hbs r) :
    r.blockHashes.length = numFullBlocks hbs r := by
  rw [h, fromScratchHashes_eq env hpos, chainHashes_length]

theorem fromScratchHashes_congr (hpos : 0 < hbs)
    (content : blockContent env hbs r' = blockContent env hbs r)
    (tokens : r'.numTokens = r.numTokens) :
    fromScratchHashes env hbs r' = fromScratchHashes env hbs r := by
  rw [fromScratchHashes_eq env hpos, fromScratchHashes_eq env hpos, chainHashes, chainHashes,
    content, numFullBlocks, numFullBlocks, tokens]

theorem createRequest_exact (r : Request) : HashesExact env hbs (createRequest env hbs r) := rfl

theorem appendOutputTokenIds_exact (hpos : 0 < hbs) (tokens : List TokenId)
    (exactBefore : HashesExact env hbs r) (safe : RestartSafe hbs (extendTokens r tokens)) :
    HashesExact env hbs (appendOutputTokenIds env hbs r tokens) := by
  have hlen := exactBefore.length hpos
  refine updateBlockHashes_exact hpos exactBefore rfl ?_ ?_ safe
  · intro j hj
    exact blockContent_extendTokens hpos tokens (by rwa [← hlen])
  · rw [hlen]
    apply Nat.div_le_div_right
    simp [Request.numTokens, extendTokens]

theorem updateRequestAsSession_exact (hpos : 0 < hbs) (update : StreamingUpdate)
    (exactBefore : HashesExact env hbs r) (safe : SafeGrowth hbs r (.session update)) :
    HashesExact env hbs (updateRequestAsSession env hbs r update) := by
  obtain ⟨restart, kept, nested⟩ := safe
  have hmerged : HashesExact env hbs (updateBlockHashes env hbs (mergeUpdate r update)) := by
    refine updateBlockHashes_exact hpos exactBefore rfl ?_ ?_ restart
    · intro j hj
      exact blockContent_mergeUpdate hpos update ((Nat.mul_le_mul_right hbs hj).trans kept) nested
    · rw [numFullBlocks, le_div_iff_mul_le hpos]
      refine kept.trans ?_
      simp [Request.numTokens, mergeUpdate]
  refine hmerged.trans (Eq.symm ?_)
  exact fromScratchHashes_congr hpos rfl rfl

theorem grow_exact (hpos : 0 < hbs) {g : Growth}
    (exactBefore : HashesExact env hbs r) (safe : SafeGrowth hbs r g) :
    HashesExact env hbs (grow env hbs r g) := by
  cases g with
  | append tokens => exact appendOutputTokenIds_exact hpos tokens exactBefore safe
  | session update => exact updateRequestAsSession_exact hpos update exactBefore safe
  | computed n =>
    refine exactBefore.trans (Eq.symm ?_)
    exact fromScratchHashes_congr hpos rfl rfl

def GrowsSafely (env : HashEnv) (hbs : Nat) (r r' : Request) : Prop :=
  ∃ g, SafeGrowth hbs r g ∧ r' = grow env hbs r g

/-- Along every run of safe growth steps from a new request, the hashes kept
incrementally are those of one pass. -/
theorem hashes_exact_of_safe_run {env : HashEnv} {hbs : Nat} (hpos : 0 < hbs) {r₀ r : Request}
    (run : Relation.ReflTransGen (GrowsSafely env hbs) (createRequest env hbs r₀) r) :
    r.blockHashes = fromScratchHashes env hbs r := by
  induction run with
  | refl => exact createRequest_exact r₀
  | tail _ step ih =>
    obtain ⟨g, safe, rfl⟩ := step
    exact grow_exact hpos ih safe

instance (env : HashEnv) (hbs : Nat) (r : Request) : Decidable (HashesExact env hbs r) :=
  inferInstanceAs (Decidable (_ = _))

/-- A hash that lists what it is given: parent, tokens and number of extra keys. -/
def listingEnv : HashEnv where
  hashFunction := fun input => input.parent ++ input.tokens.map (fun t => UInt8.ofNat t.toNat) ++
    [UInt8.ofNat (input.extraKeys.getD []).length]
  noneHash := [0]
  embedsDigest := flatten

/-- A session of two chunks: the generated token 6 is discarded, and the block that
would have held it is completed by the second chunk. -/
theorem hashes_exact_of_safe_run_session :
    ∃ r, Relation.ReflTransGen (GrowsSafely listingEnv 4) (createRequest listingEnv 4
          { promptTokenIds := [1, 2, 3, 4, 5], allTokenIds := [1, 2, 3, 4, 5] }) r ∧
      r.allTokenIds = [1, 2, 3, 4, 5, 7, 8, 9] ∧ r.blockHashes.length = 2 ∧
      r.blockHashes = fromScratchHashes listingEnv 4 r := by
  let start := createRequest listingEnv 4
    { promptTokenIds := [1, 2, 3, 4, 5], allTokenIds := [1, 2, 3, 4, 5] }
  let sampled := grow listingEnv 4 start (.append [6])
  let computed := grow listingEnv 4 sampled (.computed 5)
  let final := grow listingEnv 4 computed (.session { promptTokenIds := [7, 8, 9] })
  have run : Relation.ReflTransGen (GrowsSafely listingEnv 4) start final := by
    refine .tail (.tail (.single ⟨.append [6], ?_, rfl⟩) ⟨.computed 5, trivial, rfl⟩)
      ⟨.session _, ⟨?_, ?_, .inl rfl⟩, rfl⟩
    · exact .inr nofun
    · exact .inr nofun
    · decide
  exact ⟨final, run, by decide, by decide, hashes_exact_of_safe_run (by decide) run⟩

/-- Two runs that leave the kept hashes different from a fresh pass. In the first, the
session update discards a generated token that a hashed block contains. In the second,
two items stand in the unhashed tail of the prompt and only the last one enters the keys. -/
theorem incremental_hashes_diverge :
    ¬ HashesExact listingEnv 2
        ([Growth.append [4], .computed 3, .session { promptTokenIds := [5] }].foldl
          (grow listingEnv 2) (createRequest listingEnv 2
            { promptTokenIds := [1, 2, 3], allTokenIds := [1, 2, 3] })) ∧
      ¬ HashesExact listingEnv 4
        ([Growth.append [7, 8]].foldl (grow listingEnv 4) (createRequest listingEnv 4
          { promptTokenIds := [1, 2, 3, 4, 9, 9], allTokenIds := [1, 2, 3, 4, 9, 9],
            mmFeatures := [⟨"image", { offset := 4, length := 1 }⟩,
              ⟨"audio", { offset := 5, length := 1 }⟩] })) := by
  decide

end Vllm.KVCache
