import Vllm.Lib.HashChain
import Vllm.Request

/-! Block hashing for prefix caching (`vllm/v1/core/kv_cache_utils.py`). The hash
function, `NONE_HASH` and the digest of a slice of prompt embeddings are parameters. -/
namespace Vllm.KVCache
open List HashChain Nat

abbrev BlockHash := Bytes

/-- One entry of the extra-keys tuple. The tuple is untagged: a LoRA name and a cache
salt are both plain strings, a multimodal key is a pair, an embedding key is bytes. -/
inductive ExtraKey
  | str (s : String)
  | mm (identifier : String) (relOffset : Int)
  | embeds (digest : Bytes)
  deriving DecidableEq, Repr

/-- What `hash_function` is applied to: parent hash, block tokens, extra keys. -/
structure HashInput where
  parent : BlockHash
  tokens : List TokenId
  extraKeys : Option (List ExtraKey)
  deriving DecidableEq, Repr

structure HashEnv where
  hashFunction : HashInput → BlockHash
  noneHash : BlockHash
  embedsDigest : List Bytes → Bytes

/-- The `while` loop of `_gen_mm_extra_hash_keys` over the items from `idx` on. -/
def mmLoop (start stop : Nat) : List MultiModalFeature → Nat → List ExtraKey × Nat
  | [], idx => ([], idx)
  | f :: fs, idx =>
    if stop > f.mmPosition.offset then
      if start ≥ f.stop then mmLoop start stop fs (idx + 1)
      else
        let key := ExtraKey.mm f.identifier (f.mmPosition.offset - start)
        if stop ≥ f.stop then
          let rest := mmLoop start stop fs (idx + 1)
          (key :: rest.1, rest.2)
        else ([key], idx)
    else ([], idx)

/-- `_gen_mm_extra_hash_keys`. A negative index counts from the end; `-1` is the only
one ever passed, so the assertion on it cannot fail. -/
def genMmExtraHashKeys (r : Request) (start stop : Nat) (startMmIdx : Int) : List ExtraKey × Int :=
  match r.mmFeatures.getLast? with
  | none => ([], startMmIdx)
  | some last =>
    if last.stop ≤ start then ([], startMmIdx)
    else
      let idx := if startMmIdx < 0 then (r.mmFeatures.length + startMmIdx).toNat
        else startMmIdx.toNat
      let out := mmLoop start stop (r.mmFeatures.drop idx) idx
      (out.1, out.2)

def genLoraExtraHashKeys (r : Request) : List ExtraKey :=
  match r.loraRequest with
  | none => []
  | some lora => [.str lora.loraName]

/-- The salt enters the first block only, and an empty salt counts as none. -/
def cacheSaltKeys (r : Request) (start : Nat) : List ExtraKey :=
  match r.cacheSalt with
  | none => []
  | some salt => if start = 0 ∧ salt ≠ "" then [.str salt] else []

/-- `_gen_prompt_embeds_extra_hash_keys`; the per-request memo of digests is left out. -/
def genPromptEmbedsExtraHashKeys (env : HashEnv) (r : Request) (start stop : Nat) : List ExtraKey :=
  match r.promptEmbeds with
  | none => []
  | some rows => [.embeds (env.embedsDigest ((rows.drop start).take (stop - start)))]

/-- Python's `tuple(extra_keys)`, or `None` when there are none. -/
def keysTuple (keys : List ExtraKey) : Option (List ExtraKey) :=
  if keys = [] then none else some keys

def generateBlockHashExtraKeys (env : HashEnv) (r : Request) (start stop : Nat)
    (startMmIdx : Int) : Option (List ExtraKey) × Int :=
  let mm := genMmExtraHashKeys r start stop startMmIdx
  (keysTuple (genLoraExtraHashKeys r ++ mm.1 ++ cacheSaltKeys r start ++
    genPromptEmbedsExtraHashKeys env r start stop), mm.2)

/-- `hash_block_tokens`; a missing or empty parent stands for `NONE_HASH`. -/
def hashBlockTokens (env : HashEnv) (parent : Option BlockHash) (tokens : List TokenId)
    (extraKeys : Option (List ExtraKey)) : BlockHash :=
  let parent := match parent with
    | none => env.noneHash
    | some h => if h = [] then env.noneHash else h
  env.hashFunction ⟨parent, tokens, extraKeys⟩

/-- The `while True` loop of `request_block_hasher`; `fuel` bounds the number of blocks. -/
def hasherLoop (env : HashEnv) (hbs : Nat) (r : Request) :
    Nat → Nat → Int → Option BlockHash → List BlockHash
  | 0, _, _, _ => []
  | fuel + 1, start, currMmIdx, prev =>
    let stop := start + hbs
    if stop > r.numTokens then []
    else
      let extra := generateBlockHashExtraKeys env r start stop currMmIdx
      let tokens := (r.allTokenIds.drop start).take hbs
      let hash := hashBlockTokens env prev tokens extra.1
      hash :: hasherLoop env hbs r fuel stop extra.2 (some hash)

/-- `request_block_hasher`: the hashes of the full blocks not hashed yet. -/
def requestBlockHasher (env : HashEnv) (hbs : Nat) (r : Request) : List BlockHash :=
  let start := r.blockHashes.length * hbs
  if start + hbs > r.numTokens then []
  else
    let currMmIdx : Int := if start > 0 then -1 else 0
    hasherLoop env hbs r (r.numTokens / hbs) start currMmIdx r.blockHashes.getLast?

def updateBlockHashes (env : HashEnv) (hbs : Nat) (r : Request) : Request :=
  { r with blockHashes := r.blockHashes ++ requestBlockHasher env hbs r }

/-- The hashes computed in one pass over the current tokens and items. -/
def fromScratchHashes (env : HashEnv) (hbs : Nat) (r : Request) : List BlockHash :=
  requestBlockHasher env hbs { r with blockHashes := [] }

/-! ### The multimodal pointer

The loop carries a pointer into the items. It may skip items that end before the
block, or items that lie beyond every block still to be hashed. -/

/-- The list position that a pointer denotes. -/
def resolveIdx (fs : List MultiModalFeature) (idx : Int) : Nat :=
  if idx < 0 then (fs.length + idx).toNat else idx.toNat

@[simp] theorem resolveIdx_natCast (fs : List MultiModalFeature) (idx : Nat) :
    resolveIdx fs (idx : Int) = idx := by
  unfold resolveIdx
  split <;> omega

/-- Every skipped item ends before `start`, or it and all later items lie past `limit`. -/
def PointerOk (fs : List MultiModalFeature) (limit start idx : Nat) : Prop :=
  ∀ f ∈ fs.take idx, f.stop ≤ start ∨
    (limit ≤ f.mmPosition.offset ∧ ∀ g ∈ fs.drop idx, limit ≤ g.mmPosition.offset)

theorem mmLoop_fst_eq (start stop : Nat) (fs : List MultiModalFeature) (i j : Nat) :
    (mmLoop start stop fs i).1 = (mmLoop start stop fs j).1 := by
  induction fs generalizing i j with
  | nil => rfl
  | cons f fs ih => grind [mmLoop]

/-- The loop moves the pointer over items that end inside or before the block. -/
theorem mmLoop_snd (start stop : Nat) (hle : start ≤ stop) (fs : List MultiModalFeature)
    (idx : Nat) :
    ∃ k ≤ fs.length, (mmLoop start stop fs idx).2 = idx + k ∧ ∀ f ∈ fs.take k, f.stop ≤ stop := by
  induction fs generalizing idx with
  | nil => exact ⟨0, by simp [mmLoop]⟩
  | cons f fs ih =>
    obtain ⟨k, hk, hsnd, hpassed⟩ := ih (idx + 1)
    by_cases hadvance : stop > f.mmPosition.offset ∧ f.stop ≤ stop
    · refine ⟨k + 1, by simpa using hk, ?_, ?_⟩
      · simp only [mmLoop, hadvance.1, hadvance.2, if_true]
        split <;> simp only [hsnd] <;> omega
      · simpa using ⟨hadvance.2, hpassed⟩
    · refine ⟨0, by simp, ?_, by simp⟩
      grind [mmLoop]

variable {stop start : Nat}

/-- Items that all lie beyond the block give no key. -/
theorem mmLoop_ahead {fs : List MultiModalFeature} (ahead : ∀ f ∈ fs, stop ≤ f.mmPosition.offset)
    (idx : Nat) :
    (mmLoop start stop fs idx).1 = [] := by
  cases fs with
  | nil => rfl
  | cons f fs => simp [mmLoop, Nat.not_lt.mpr (ahead f (by simp))]

variable {hbs limit : Nat} {r : Request} {idx : Int} {env : HashEnv}

/-- The keys of a block do not depend on how far a sound pointer has moved. -/
theorem mmLoop_drop (hlt : start < stop) (hlimit : stop ≤ limit) (fs : List MultiModalFeature)
    (idx i j : Nat) (ok : PointerOk fs limit start idx) :
    (mmLoop start stop (fs.drop idx) i).1 = (mmLoop start stop fs j).1 := by
  induction fs generalizing idx i j with
  | nil => simp [mmLoop]
  | cons f fs ih =>
    cases idx with
    | zero => exact mmLoop_fst_eq start stop (f :: fs) i j
    | succ idx =>
      rcases ok f (by simp) with hpassed | ⟨hahead, hrest⟩
      · have hreached : stop > f.mmPosition.offset := by
          have : f.mmPosition.offset ≤ f.stop := le_add_right _ _
          omega
        have okTail : PointerOk fs limit start idx := fun g hg => by
          simpa using ok g (by simp [hg])
        simpa [mmLoop, hreached, hpassed] using ih idx i (j + 1) okTail
      · have hnotReached : ¬ stop > f.mmPosition.offset := by omega
        rw [mmLoop_ahead (fun g hg => hlimit.trans (hrest g hg)) i]
        simp [mmLoop, hnotReached]

/-- The keys of a block as a fresh pointer computes them. -/
def mmKeysAt (r : Request) (start stop : Nat) : List ExtraKey :=
  (genMmExtraHashKeys r start stop 0).1

theorem genMmExtraHashKeys_fst (hlt : start < stop) (hlimit : stop ≤ limit)
    (ok : PointerOk r.mmFeatures limit start (resolveIdx r.mmFeatures idx)) :
    (genMmExtraHashKeys r start stop idx).1 = mmKeysAt r start stop := by
  unfold mmKeysAt genMmExtraHashKeys
  cases r.mmFeatures.getLast? with
  | none => rfl
  | some last =>
    by_cases hpast : last.stop ≤ start
    · simp [hpast]
    · simpa [hpast, resolveIdx] using mmLoop_drop hlt hlimit r.mmFeatures _ _ 0 ok

theorem genMmExtraHashKeys_snd (hle : start ≤ stop)
    (ok : PointerOk r.mmFeatures limit start (resolveIdx r.mmFeatures idx)) :
    PointerOk r.mmFeatures limit stop
      (resolveIdx r.mmFeatures (genMmExtraHashKeys r start stop idx).2) := by
  have okStay : PointerOk r.mmFeatures limit stop (resolveIdx r.mmFeatures idx) :=
    fun f hf => (ok f hf).imp_left (·.trans hle)
  unfold genMmExtraHashKeys
  cases r.mmFeatures.getLast? with
  | none => exact okStay
  | some last =>
    by_cases hpast : last.stop ≤ start
    · simpa [hpast] using okStay
    obtain ⟨k, -, hsnd, hpassed⟩ := mmLoop_snd start stop hle
      (r.mmFeatures.drop (resolveIdx r.mmFeatures idx)) (resolveIdx r.mmFeatures idx)
    have hidx : resolveIdx r.mmFeatures
        ((mmLoop start stop (r.mmFeatures.drop (resolveIdx r.mmFeatures idx))
          (resolveIdx r.mmFeatures idx)).2 : Int) = resolveIdx r.mmFeatures idx + k := by
      rw [hsnd, resolveIdx_natCast]
    simp only [hpast, if_false]
    change PointerOk r.mmFeatures limit stop (resolveIdx r.mmFeatures
      ((mmLoop start stop (r.mmFeatures.drop (resolveIdx r.mmFeatures idx))
        (resolveIdx r.mmFeatures idx)).2 : Int))
    rw [hidx]
    intro f hf
    rw [take_add, mem_append] at hf
    rcases hf with hold | hnew
    · refine (okStay f hold).imp_right fun ⟨hf, hrest⟩ => ⟨hf, fun g hg => hrest g ?_⟩
      rw [← drop_drop] at hg
      exact mem_of_mem_drop hg
    · exact .inl (hpassed f hnew)

/-! ### The hash list as a chain over block contents -/

/-- The extra keys of a block as a fresh pointer computes them. -/
def extraKeysAt (env : HashEnv) (r : Request) (start stop : Nat) : Option (List ExtraKey) :=
  (generateBlockHashExtraKeys env r start stop 0).1

/-- What the `j`-th full block contributes to the chain: its tokens and extra keys. -/
def blockContent (env : HashEnv) (hbs : Nat) (r : Request) (j : Nat) :
    List TokenId × Option (List ExtraKey) :=
  ((r.allTokenIds.drop (j * hbs)).take hbs, extraKeysAt env r (j * hbs) (j * hbs + hbs))

def chainStep (env : HashEnv) (parent : BlockHash)
    (content : List TokenId × Option (List ExtraKey)) : BlockHash :=
  hashBlockTokens env (some parent) content.1 content.2

def numFullBlocks (hbs : Nat) (r : Request) : Nat := r.numTokens / hbs

/-- The hashes of the first `n` blocks. -/
def chainHashes (env : HashEnv) (hbs : Nat) (r : Request) (n : Nat) : List BlockHash :=
  digests (chainStep env) env.noneHash ((range n).map (blockContent env hbs r))

@[simp] theorem chainHashes_length (env : HashEnv) (hbs : Nat) (r : Request) (n : Nat) :
    (chainHashes env hbs r n).length = n := by
  simp [chainHashes]

theorem hashBlockTokens_getD (env : HashEnv) (prev : Option BlockHash) (tokens : List TokenId)
    (extra : Option (List ExtraKey)) :
    hashBlockTokens env prev tokens extra =
      chainStep env (prev.getD env.noneHash) (tokens, extra) := by
  cases prev with
  | none => simp [hashBlockTokens, chainStep]
  | some h => rfl

theorem generateBlockHashExtraKeys_fst (hlt : start < stop) (hlimit : stop ≤ limit)
    (ok : PointerOk r.mmFeatures limit start (resolveIdx r.mmFeatures idx)) :
    (generateBlockHashExtraKeys env r start stop idx).1 = extraKeysAt env r start stop := by
  simp only [extraKeysAt, generateBlockHashExtraKeys, genMmExtraHashKeys_fst hlt hlimit ok, mmKeysAt]

/-- From a sound pointer the loop extends the chain to the last full block. -/
theorem hasherLoop_eq (hpos : 0 < hbs) (fuel j : Nat) (idx : Int) (prev : Option BlockHash)
    (hfuel : numFullBlocks hbs r ≤ j + fuel)
    (ok : PointerOk r.mmFeatures (numFullBlocks hbs r * hbs) (j * hbs)
      (resolveIdx r.mmFeatures idx)) :
    hasherLoop env hbs r fuel (j * hbs) idx prev =
      digests (chainStep env) (prev.getD env.noneHash)
        ((range' j (numFullBlocks hbs r - j)).map (blockContent env hbs r)) := by
  induction fuel generalizing j idx prev with
  | zero =>
    rw [Nat.sub_eq_zero_of_le (by simpa using hfuel)]
    rfl
  | succ fuel ih =>
    have hfull : j * hbs + hbs ≤ r.numTokens ↔ j < numFullBlocks hbs r := by
      rw [← succ_mul]
      exact (le_div_iff_mul_le hpos).symm
    by_cases hlast : j < numFullBlocks hbs r
    · have hstop : ¬ j * hbs + hbs > r.numTokens := Nat.not_lt.mpr (hfull.mpr hlast)
      have hlimit : j * hbs + hbs ≤ numFullBlocks hbs r * hbs := by
        rw [← succ_mul]
        exact Nat.mul_le_mul_right hbs hlast
      have hrest : numFullBlocks hbs r - j = numFullBlocks hbs r - (j + 1) + 1 := by omega
      have hnext := genMmExtraHashKeys_snd (le_add_right (j * hbs) hbs) ok
      rw [← succ_mul] at hnext
      have htail := ih (j + 1) _ (some (chainStep env (prev.getD env.noneHash)
        (blockContent env hbs r j))) (by omega) hnext
      have hhead : hashBlockTokens env prev ((r.allTokenIds.drop (j * hbs)).take hbs)
          (generateBlockHashExtraKeys env r (j * hbs) (j * hbs + hbs) idx).1 =
          chainStep env (prev.getD env.noneHash) (blockContent env hbs r j) := by
        rw [hashBlockTokens_getD,
          generateBlockHashExtraKeys_fst (Nat.lt_add_of_pos_right hpos) hlimit ok]
        rfl
      rw [succ_mul] at htail
      simp only [hasherLoop, hstop, if_false, hrest, range'_succ, map_cons, digests, hhead]
      exact congrArg _ htail
    · have hstop : j * hbs + hbs > r.numTokens := Nat.lt_of_not_le (mt hfull.mp hlast)
      rw [Nat.sub_eq_zero_of_le (Nat.le_of_not_lt hlast)]
      simp [hasherLoop, hstop]

theorem chainHashes_extend (env : HashEnv) (hbs : Nat) (r : Request) {n m : Nat} (hle : n ≤ m) :
    chainHashes env hbs r m = chainHashes env hbs r n ++
      digests (chainStep env) ((chainHashes env hbs r n).getLast?.getD env.noneHash)
        ((range' n (m - n)).map (blockContent env hbs r)) := by
  have hrange : range m = range n ++ range' n (m - n) := by
    have happend : range' 0 n ++ range' (0 + n) (m - n) = range' 0 (n + (m - n)) := range'_append_1
    rwa [Nat.zero_add, Nat.add_sub_cancel' hle, ← range_eq_range', ← range_eq_range',
      eq_comm] at happend
  unfold chainHashes
  rw [← getLastD_eq_getLast?, digests_getLastD, hrange, map_append, digests_append]

/-- From a sound pointer the hasher completes a chain of `n` hashes. -/
theorem requestBlockHasher_eq (hpos : 0 < hbs) {n : Nat}
    (hashed : r.blockHashes = chainHashes env hbs r n) (hn : n ≤ numFullBlocks hbs r)
    (ok : n = 0 ∨ PointerOk r.mmFeatures (numFullBlocks hbs r * hbs) (n * hbs)
      (resolveIdx r.mmFeatures (-1))) :
    r.blockHashes ++ requestBlockHasher env hbs r =
      chainHashes env hbs r (numFullBlocks hbs r) := by
  have hlen : r.blockHashes.length = n := by rw [hashed, chainHashes_length]
  have hfull : n * hbs + hbs ≤ r.numTokens ↔ n < numFullBlocks hbs r := by
    rw [← succ_mul]
    exact (le_div_iff_mul_le hpos).symm
  by_cases hmore : n < numFullBlocks hbs r
  · have hstop : ¬ n * hbs + hbs > r.numTokens := Nat.not_lt.mpr (hfull.mpr hmore)
    have okStart : PointerOk r.mmFeatures (numFullBlocks hbs r * hbs) (n * hbs)
        (resolveIdx r.mmFeatures (if n * hbs > 0 then -1 else 0)) := by
      rcases Nat.eq_zero_or_pos n with rfl | hn0
      · intro f hf
        simp [resolveIdx] at hf
      · have hok := ok.resolve_left (Nat.pos_iff_ne_zero.mp hn0)
        simpa [Nat.mul_pos hn0 hpos] using hok
    simp only [requestBlockHasher, hlen, hstop, if_false]
    rw [hasherLoop_eq hpos _ n _ _ (by simp [numFullBlocks]) okStart,
      chainHashes_extend env hbs r hn, hashed]
  · have hstop : n * hbs + hbs > r.numTokens := Nat.lt_of_not_le (mt hfull.mp hmore)
    have hn' : numFullBlocks hbs r = n := Nat.le_antisymm (Nat.le_of_not_lt hmore) hn
    simp only [requestBlockHasher, hlen, hstop, if_true, append_nil, hn']
    exact hashed

theorem fromScratchHashes_eq (env : HashEnv) (hpos : 0 < hbs) (r : Request) :
    fromScratchHashes env hbs r = chainHashes env hbs r (numFullBlocks hbs r) := by
  let fresh : Request := { r with blockHashes := [] }
  have hpass := requestBlockHasher_eq hpos (r := fresh) (show [] = chainHashes env hbs fresh 0 from rfl)
    (zero_le _) (.inl rfl)
  exact hpass

end Vllm.KVCache
