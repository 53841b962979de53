import Vllm.KVCache.BlockHash

/-! What equal block hashes say about two requests. The hash chain fixes the token
slices and the extra-keys tuples of all blocks; what the tuples say about the LoRA
adapter, the items and the salt is read off their shape. -/
namespace Vllm.KVCache
open List Function HashChain UInt8 Nat

/-- The hash function never collides, never returns `NONE_HASH`, and its digests are
not empty (an empty parent hash would be replaced by `NONE_HASH`). -/
structure HashEnv.CollisionFree (env : HashEnv) : Prop where
  injective : Injective env.hashFunction
  ne_noneHash : ∀ input, env.hashFunction input ≠ env.noneHash
  ne_nil : ∀ input, env.hashFunction input ≠ []

/-- `BlockHashListWithBlockSize._get_value_at`, for `scale` hashes a block. -/
def getValueAt (blockHashes : List BlockHash) (scale idx : Nat) : Option BlockHash :=
  blockHashes[(idx + 1) * scale - 1]?

/-- `group_id.to_bytes(4, "big")`, defined for ids below `2 ^ 32`. -/
def groupIdBytes (groupId : Nat) : Bytes :=
  [ofNat (groupId / 2 ^ 24), ofNat (groupId / 2 ^ 16), ofNat (groupId / 2 ^ 8),
    ofNat groupId]

def makeBlockHashWithGroupId (blockHash : BlockHash) (groupId : Nat) : Bytes :=
  blockHash ++ groupIdBytes groupId

def getBlockHash (key : Bytes) : BlockHash := key.take (key.length - 4)

def getGroupId (key : Bytes) : Nat :=
  (key.drop (key.length - 4)).foldl (fun acc byte => acc * 256 + byte.toNat) 0

@[simp] theorem getBlockHash_make (blockHash : BlockHash) (groupId : Nat) :
    getBlockHash (makeBlockHashWithGroupId blockHash groupId) = blockHash := by
  simp [getBlockHash, makeBlockHashWithGroupId, groupIdBytes]

theorem getGroupId_make (blockHash : BlockHash) {groupId : Nat} (hlt : groupId < 2 ^ 32) :
    getGroupId (makeBlockHashWithGroupId blockHash groupId) = groupId := by
  simp only [getGroupId, makeBlockHashWithGroupId, groupIdBytes, length_append,
    length_cons, length_nil, Nat.add_sub_cancel, drop_left, foldl_cons,
    foldl_nil, toNat_ofNat']
  omega

theorem makeBlockHashWithGroupId_inj {h h' : BlockHash} {g g' : Nat} (hg : g < 2 ^ 32)
    (hg' : g' < 2 ^ 32) (same : makeBlockHashWithGroupId h g = makeBlockHashWithGroupId h' g') :
    h = h' ∧ g = g' := by
  constructor
  · rw [← getBlockHash_make h g, same, getBlockHash_make]
  · rw [← getGroupId_make h hg, same, getGroupId_make h' hg']

/-! ### From a hash to the contents of all blocks behind it -/

/-- The chain link once parents are known to be non-empty. -/
def link (env : HashEnv) (parent : BlockHash) (content : List TokenId × Option (List ExtraKey)) :
    BlockHash :=
  env.hashFunction ⟨parent, content.1, content.2⟩

variable {env : HashEnv}

theorem link_collisionFree (free : env.CollisionFree) :
    CollisionFree (link env) env.noneHash where
  step_inj := by
    intro a b x y same
    have hinput := free.injective same
    injection hinput with hparent htokens hkeys
    exact ⟨hparent, Prod.ext htokens hkeys⟩
  step_ne_seed := fun a x => free.ne_noneHash _

theorem digests_chainStep (free : env.CollisionFree) (parent : BlockHash)
    (hparent : parent = env.noneHash ∨ parent ≠ [])
    (contents : List (List TokenId × Option (List ExtraKey))) :
    digests (chainStep env) parent contents =
      digests (link env) parent contents := by
  induction contents generalizing parent with
  | nil => rfl
  | cons content contents ih =>
    have hstep : chainStep env parent content = link env parent content := by
      simp only [chainStep, hashBlockTokens, link]
      rcases hparent with rfl | hne
      · simp
      · simp [hne]
    have hlink : link env parent content ≠ [] := free.ne_nil _
    simp only [digests, hstep]
    rw [ih _ (.inr hlink)]

variable {hbs : Nat} {a b r : Request}

theorem fromScratchHashes_getElem? (free : env.CollisionFree) (hpos : 0 < hbs) (r : Request)
    {i : Nat} (hi : i < numFullBlocks hbs r) :
    (fromScratchHashes env hbs r)[i]? = some (digest (link env) env.noneHash
      ((range (i + 1)).map (blockContent env hbs r))) := by
  rw [fromScratchHashes_eq env hpos, chainHashes, digests_chainStep free _ (.inl rfl),
    digests_getElem? _ _ _ _ (by simpa using hi), ← map_take, take_range,
    Nat.min_eq_left hi]

theorem lt_of_fromScratchHashes_getElem? (hpos : 0 < hbs) {i : Nat} {h : BlockHash}
    (hget : (fromScratchHashes env hbs r)[i]? = some h) :
    i < numFullBlocks hbs r := by
  obtain ⟨hi, -⟩ := List.getElem?_eq_some_iff.mp hget
  rwa [fromScratchHashes_eq env hpos, chainHashes_length] at hi

def SameHashAt (xs ys : List BlockHash) (i : Nat) : Prop :=
  ∃ h, xs[i]? = some h ∧ ys[i]? = some h

/-- A hash fixes the contents of its block and of every block before it. -/
theorem sameHashAt_iff (free : env.CollisionFree) (hpos : 0 < hbs) (a b : Request) (i : Nat) :
    SameHashAt (fromScratchHashes env hbs a) (fromScratchHashes env hbs b) i ↔
      i < numFullBlocks hbs a ∧ i < numFullBlocks hbs b ∧
        ∀ j ≤ i, blockContent env hbs a j = blockContent env hbs b j := by
  constructor
  · rintro ⟨h, hha, hhb⟩
    have hia := lt_of_fromScratchHashes_getElem? hpos hha
    have hib := lt_of_fromScratchHashes_getElem? hpos hhb
    rw [fromScratchHashes_getElem? free hpos a hia] at hha
    rw [fromScratchHashes_getElem? free hpos b hib] at hhb
    have hcontents := (link_collisionFree free).digest_inj (Option.some.inj (hha.trans hhb.symm))
    refine ⟨hia, hib, fun j hj => ?_⟩
    exact map_inj_left.mp hcontents j (mem_range.mpr (lt_succ_of_le hj))
  · rintro ⟨hia, hib, same⟩
    refine ⟨_, fromScratchHashes_getElem? free hpos a hia, ?_⟩
    rw [fromScratchHashes_getElem? free hpos b hib]
    congr 2
    exact map_inj_left.mpr fun j hj => (same j (le_of_lt_succ (mem_range.mp hj))).symm

/-! ### What a tuple of extra keys says -/

def strKeys (s : Option String) : List ExtraKey := s.toList.map .str

variable (start : Nat)

/-- The key of an item at an absolute offset, in a block that starts at `start`. -/
def itemKey (item : String × Nat) : ExtraKey := .mm item.1 (item.2 - start)

def loraName (r : Request) : Option String := r.loraRequest.map (·.loraName)

/-- The salt that enters the first block; an empty salt does not. -/
def effectiveSalt (r : Request) : Option String := r.cacheSalt.filter (· ≠ "")

theorem itemKey_injective : Injective (itemKey start) := by
  rintro ⟨s, o⟩ ⟨s', o'⟩ same
  simp only [itemKey, ExtraKey.mm.injEq] at same
  exact Prod.ext same.1 (by omega)

theorem strKeys_injective : Injective strKeys := by
  intro s s' same
  cases s <;> cases s' <;> simp_all [strKeys]

theorem items_append_salt_inj {items items' : List (String × Nat)}
    {salt salt' : Option String} (same : items.map (itemKey start) ++ strKeys salt =
      items'.map (itemKey start) ++ strKeys salt') : items = items' ∧ salt = salt' := by
  induction items generalizing items' with
  | nil =>
    cases items' with
    | nil => exact ⟨rfl, strKeys_injective same⟩
    | cons item items' => cases salt <;> simp [strKeys, itemKey] at same
  | cons item items ih =>
    cases items' with
    | nil => cases salt' <;> simp [strKeys, itemKey] at same
    | cons item' items' =>
      simp only [map_cons, cons_append, cons.injEq] at same
      obtain ⟨hitems, hsalt⟩ := ih same.2
      exact ⟨by rw [itemKey_injective start same.1, hitems], hsalt⟩

/-- A tuple that starts with a LoRA name equals one that does not only if it is nothing
but that name, and the other is nothing but a salt of the same text. -/
theorem lora_eq_salt {x : String} {items items' : List (String × Nat)}
    {salt salt' : Option String} (same : .str x :: (items.map (itemKey start) ++ strKeys salt) =
      items'.map (itemKey start) ++ strKeys salt') :
    items = [] ∧ items' = [] ∧ salt = none ∧ salt' = some x := by
  cases items' with
  | cons item items' => simp [itemKey] at same
  | nil =>
    cases salt' with
    | none => simp [strKeys] at same
    | some y => cases salt <;> simp_all [strKeys]

/-- The tuple is untagged: besides equal parts, a lone LoRA name can equal a lone salt. -/
theorem untagged_eq_iff (lora lora' salt salt' : Option String)
    (items items' : List (String × Nat)) :
    strKeys lora ++ (items.map (itemKey start) ++ strKeys salt) =
        strKeys lora' ++ (items'.map (itemKey start) ++ strKeys salt') ↔
      (lora = lora' ∧ items = items' ∧ salt = salt') ∨
        (items = [] ∧ items' = [] ∧
          ∃ x, (lora = some x ∧ salt = none ∧ lora' = none ∧ salt' = some x) ∨
            (lora' = some x ∧ salt' = none ∧ lora = none ∧ salt = some x)) := by
  constructor
  · intro same
    cases lora with
    | none =>
      cases lora' with
      | none =>
        obtain ⟨hitems, hsalt⟩ := items_append_salt_inj start same
        exact .inl ⟨rfl, hitems, hsalt⟩
      | some y =>
        obtain ⟨hitems', hitems, hsalt', hsalt⟩ := lora_eq_salt start same.symm
        exact .inr ⟨hitems, hitems', y, .inr ⟨rfl, hsalt', rfl, hsalt⟩⟩
    | some x =>
      cases lora' with
      | none =>
        obtain ⟨hitems, hitems', hsalt, hsalt'⟩ := lora_eq_salt start same
        exact .inr ⟨hitems, hitems', x, .inl ⟨rfl, hsalt, rfl, hsalt'⟩⟩
      | some y =>
        have hcons : ExtraKey.str x = .str y ∧ items.map (itemKey start) ++ strKeys salt =
            items'.map (itemKey start) ++ strKeys salt' := cons.inj same
        obtain ⟨hitems, hsalt⟩ := items_append_salt_inj start hcons.2
        exact .inl ⟨congrArg some (ExtraKey.str.inj hcons.1), hitems, hsalt⟩
  · rintro (⟨rfl, rfl, rfl⟩ | ⟨rfl, rfl, x, ⟨rfl, rfl, rfl, rfl⟩ | ⟨rfl, rfl, rfl, rfl⟩⟩)
    · rfl
    · rfl
    · rfl

/-! ### Which items a block records -/

/-- The items the loop can look at: up to and including the first one that does not
both start and end before the block does. -/
def reachedItems (fs : List MultiModalFeature) (stop : Nat) : List MultiModalFeature :=
  fs.take ((fs.takeWhile fun f => f.mmPosition.offset < stop ∧ f.stop ≤ stop).length + 1)

/-- The identifiers and absolute offsets of the items that enter a block's keys: those
reached that overlap the block, unless the last item has ended before it. -/
def recordedItems (fs : List MultiModalFeature) (start stop : Nat) : List (String × Nat) :=
  if ∃ last ∈ fs.getLast?, last.stop ≤ start then []
  else ((reachedItems fs stop).filter fun f => f.mmPosition.offset < stop ∧ start < f.stop).map
    fun f => (f.identifier, f.mmPosition.offset)

theorem reachedItems_cons (f : MultiModalFeature) (fs : List MultiModalFeature) (stop : Nat) :
    reachedItems (f :: fs) stop =
      f :: if f.mmPosition.offset < stop ∧ f.stop ≤ stop then reachedItems fs stop else [] := by
  by_cases hcont : f.mmPosition.offset < stop ∧ f.stop ≤ stop
  · simp [reachedItems, hcont]
  · simp [reachedItems, hcont]

theorem mmLoop_eq_reached {start stop : Nat} (hlt : start < stop) (fs : List MultiModalFeature)
    (idx : Nat) :
    (mmLoop start stop fs idx).1 =
      ((reachedItems fs stop).filter fun f => f.mmPosition.offset < stop ∧ start < f.stop).map
        fun f => itemKey start (f.identifier, f.mmPosition.offset) := by
  induction fs generalizing idx with
  | nil => rfl
  | cons f fs ih =>
    have htail := ih (idx + 1)
    rw [reachedItems_cons]
    by_cases hreached : f.mmPosition.offset < stop
    · by_cases hpassed : f.stop ≤ start
      · have hends : f.stop ≤ stop := hpassed.trans hlt.le
        simp [mmLoop, hreached, hpassed, hends, Nat.not_lt.mpr hpassed, htail]
      · by_cases hends : f.stop ≤ stop
        · simp [mmLoop, hreached, hpassed, hends, Nat.lt_of_not_le hpassed, htail, itemKey]
        · simp [mmLoop, hreached, hpassed, hends, Nat.lt_of_not_le hpassed, itemKey]
    · simp [mmLoop, hreached]

theorem mmKeysAt_eq {start stop : Nat} (hlt : start < stop) (r : Request) :
    mmKeysAt r start stop = (recordedItems r.mmFeatures start stop).map (itemKey start) := by
  simp only [mmKeysAt, genMmExtraHashKeys, recordedItems]
  cases hlast : r.mmFeatures.getLast? with
  | none => simp [getLast?_eq_none_iff.mp hlast, reachedItems]
  | some last =>
    by_cases hended : last.stop ≤ start
    · simp [hended]
    · simpa [hended, comp_def] using mmLoop_eq_reached hlt r.mmFeatures 0

/-! ### Agreement on a prefix -/

theorem genLoraExtraHashKeys_eq (r : Request) : genLoraExtraHashKeys r = strKeys (loraName r) := by
  cases h : r.loraRequest <;> simp [genLoraExtraHashKeys, strKeys, loraName, h]

theorem cacheSaltKeys_eq (r : Request) (start : Nat) :
    cacheSaltKeys r start = strKeys (if start = 0 then effectiveSalt r else none) := by
  cases h : r.cacheSalt with
  | none => simp [cacheSaltKeys, effectiveSalt, h, strKeys]
  | some salt =>
    by_cases hstart : start = 0 <;> by_cases hempty : salt = "" <;>
      simp [cacheSaltKeys, effectiveSalt, h, strKeys, hstart, hempty, Option.filter]

theorem keysTuple_injective : Injective keysTuple := by
  intro xs ys same
  simp only [keysTuple] at same
  split at same <;> split at same <;> simp_all

def recordedInBlock (hbs : Nat) (r : Request) (j : Nat) : List (String × Nat) :=
  recordedItems r.mmFeatures (j * hbs) (j * hbs + hbs)

theorem extraKeysAt_eq (env : HashEnv) (hpos : 0 < hbs)
    (noEmbeds : r.promptEmbeds = none) (j : Nat) :
    extraKeysAt env r (j * hbs) (j * hbs + hbs) =
      keysTuple (strKeys (loraName r) ++ ((recordedInBlock hbs r j).map (itemKey (j * hbs)) ++
        strKeys (if j = 0 then effectiveSalt r else none))) := by
  have hstart : (j * hbs = 0) = (j = 0) := by
    rw [mul_eq_zero, or_iff_left hpos.ne']
  have hkeys := mmKeysAt_eq (Nat.lt_add_of_pos_right hpos : j * hbs < j * hbs + hbs) r
  have hembeds : genPromptEmbedsExtraHashKeys env r (j * hbs) (j * hbs + hbs) = [] := by
    simp [genPromptEmbedsExtraHashKeys, noEmbeds]
  simp only [mmKeysAt] at hkeys
  simp only [extraKeysAt, generateBlockHashExtraKeys, hkeys, hembeds, genLoraExtraHashKeys_eq,
    cacheSaltKeys_eq, hstart, recordedInBlock, append_assoc, append_nil]

/-- The identifiers and absolute offsets of the items overlapping the first `limit` tokens. -/
def itemsWithin (r : Request) (limit : Nat) : List (String × Nat) :=
  (r.mmFeatures.filter fun f => f.mmPosition.offset < limit ∧ 0 < f.mmPosition.length).map
    fun f => (f.identifier, f.mmPosition.offset)

def TokensAgree (hbs : Nat) (a b : Request) (i : Nat) : Prop :=
  a.allTokenIds.take ((i + 1) * hbs) = b.allTokenIds.take ((i + 1) * hbs)

def ItemsAgree (hbs : Nat) (a b : Request) (i : Nat) : Prop :=
  ∀ item, item ∈ itemsWithin a ((i + 1) * hbs) ↔ item ∈ itemsWithin b ((i + 1) * hbs)

/-- What two requests have to share before blocks `0` to `i` of one may serve the other. -/
structure Isolated (hbs : Nat) (a b : Request) (i : Nat) : Prop where
  tokens : TokensAgree hbs a b i
  items : ItemsAgree hbs a b i
  lora : loraName a = loraName b
  salt : a.cacheSalt = b.cacheSalt

/-- The first block of `a` is keyed by an adapter alone, that of `b` by a salt of the same text. -/
def LoraSaltSwap (hbs : Nat) (a b : Request) : Prop :=
  recordedInBlock hbs a 0 = [] ∧ recordedInBlock hbs b 0 = [] ∧
    ∃ x, loraName a = some x ∧ effectiveSalt a = none ∧ loraName b = none ∧ effectiveSalt b = some x

def RecordsAgree (hbs : Nat) (a b : Request) (i : Nat) : Prop :=
  loraName a = loraName b ∧ effectiveSalt a = effectiveSalt b ∧
    ∀ j ≤ i, recordedInBlock hbs a j = recordedInBlock hbs b j

/-- `a` has an item that `b` lacks, and no block shows it: none of `a` records the item, or `b`
records one of no length in its place. -/
def HiddenItem (hbs : Nat) (a b : Request) (i : Nat) : Prop :=
  ∃ item ∈ itemsWithin a ((i + 1) * hbs), item ∉ itemsWithin b ((i + 1) * hbs) ∧
    ((∀ j ≤ i, item ∉ recordedInBlock hbs a j) ∨
      ∃ f ∈ b.mmFeatures, f.mmPosition.length = 0 ∧ (f.identifier, f.mmPosition.offset) = item)

/-- An empty salt enters no key. -/
def EmptySalt (a b : Request) : Prop := a.cacheSalt = some "" ∧ b.cacheSalt = none

/-- Pairs that the keys cannot tell apart at block `i` although they differ: an adapter
name and a salt trade places in the first block, or the requests differ in an item that
no block records, or in an empty against a missing salt. -/
def Confusable (hbs : Nat) (a b : Request) (i : Nat) : Prop :=
  i < numFullBlocks hbs a ∧ i < numFullBlocks hbs b ∧ TokensAgree hbs a b i ∧
    ((i = 0 ∧ (LoraSaltSwap hbs a b ∨ LoraSaltSwap hbs b a)) ∨
      (RecordsAgree hbs a b i ∧
        ((HiddenItem hbs a b i ∨ HiddenItem hbs b a i) ∨ EmptySalt a b ∨ EmptySalt b a)))

theorem mem_recordedInBlock {item : String × Nat} {j : Nat} (h : item ∈ recordedInBlock hbs r j) :
    ∃ f ∈ r.mmFeatures, f.mmPosition.offset < j * hbs + hbs ∧
      (f.identifier, f.mmPosition.offset) = item := by
  unfold recordedInBlock recordedItems at h
  split at h
  · cases h
  obtain ⟨f, hf, hitem⟩ := mem_map.mp h
  obtain ⟨hreached, hoverlap⟩ := mem_filter.mp hf
  exact ⟨f, mem_of_mem_take hreached, (of_decide_eq_true hoverlap).1, hitem⟩

theorem RecordsAgree.hidden {i : Nat} (h : RecordsAgree hbs a b i) {item : String × Nat}
    (ha : item ∈ itemsWithin a ((i + 1) * hbs)) (hb : item ∉ itemsWithin b ((i + 1) * hbs)) :
    HiddenItem hbs a b i := by
  refine ⟨item, ha, hb, or_iff_not_imp_left.mpr fun hrecorded => ?_⟩
  push Not at hrecorded
  obtain ⟨j, hj, hin⟩ := hrecorded
  rw [h.2.2 j hj] at hin
  obtain ⟨f, hf, hlt, rfl⟩ := mem_recordedInBlock hin
  have hstop := Nat.mul_le_mul_right hbs (succ_le_succ hj)
  rw [succ_mul] at hstop
  refine ⟨f, hf, Nat.eq_zero_of_not_pos fun hpos => hb ?_, rfl⟩
  exact mem_map.mpr ⟨f, mem_filter.mpr ⟨hf, decide_eq_true ⟨hlt.trans_le hstop, hpos⟩⟩, rfl⟩

theorem itemsAgree_iff {i : Nat} (h : RecordsAgree hbs a b i) :
    ItemsAgree hbs a b i ↔ ¬ (HiddenItem hbs a b i ∨ HiddenItem hbs b a i) := by
  constructor
  · rintro agree (⟨item, hin, hnot, -⟩ | ⟨item, hin, hnot, -⟩)
    · exact hnot ((agree item).mp hin)
    · exact hnot ((agree item).mpr hin)
  · intro clear item
    have hback : RecordsAgree hbs b a i := ⟨h.1.symm, h.2.1.symm, fun j hj => (h.2.2 j hj).symm⟩
    constructor
    · exact fun hin => by_contra fun hnot => clear (.inl (h.hidden hin hnot))
    · exact fun hin => by_contra fun hnot => clear (.inr (hback.hidden hin hnot))

theorem cacheSalt_eq_iff (h : effectiveSalt a = effectiveSalt b) :
    a.cacheSalt = b.cacheSalt ↔ ¬ (EmptySalt a b ∨ EmptySalt b a) := by
  unfold effectiveSalt at h
  unfold EmptySalt
  cases ha : a.cacheSalt with
  | none => cases hb : b.cacheSalt <;> grind
  | some salt => cases hb : b.cacheSalt <;> grind

theorem tokensAgree_iff (hbs : Nat) (a b : Request) (i : Nat) :
    TokensAgree hbs a b i ↔
      ∀ j ≤ i, (a.allTokenIds.drop (j * hbs)).take hbs = (b.allTokenIds.drop (j * hbs)).take hbs := by
  constructor
  · intro same j hj
    have hwithin : j * hbs + hbs ≤ (i + 1) * hbs := by
      rw [← succ_mul]
      exact Nat.mul_le_mul_right hbs (succ_le_succ hj)
    have hslice : ∀ xs : List TokenId,
        (xs.drop (j * hbs)).take hbs = ((xs.take ((i + 1) * hbs)).drop (j * hbs)).take hbs := by
      intro xs
      rw [drop_take, take_take, Nat.min_eq_left (by omega)]
    rw [hslice, hslice b.allTokenIds, same]
  · intro blocks
    induction i with
    | zero => simpa [TokensAgree] using blocks 0 le_rfl
    | succ i ih =>
      have hinit := ih fun j hj => blocks j (hj.trans (le_succ i))
      simp only [TokensAgree] at hinit ⊢
      rw [succ_mul (i + 1), take_add, take_add, hinit, blocks (i + 1) le_rfl]

theorem extraKeysAt_eq_iff (env : HashEnv) (hpos : 0 < hbs) (ha : a.promptEmbeds = none)
    (hb : b.promptEmbeds = none) (j : Nat) :
    extraKeysAt env a (j * hbs) (j * hbs + hbs) = extraKeysAt env b (j * hbs) (j * hbs + hbs) ↔
      (loraName a = loraName b ∧ recordedInBlock hbs a j = recordedInBlock hbs b j ∧
        (j = 0 → effectiveSalt a = effectiveSalt b)) ∨
      (j = 0 ∧ (LoraSaltSwap hbs a b ∨ LoraSaltSwap hbs b a)) := by
  rw [extraKeysAt_eq env hpos ha, extraKeysAt_eq env hpos hb, keysTuple_injective.eq_iff,
    untagged_eq_iff]
  cases j with
  | succ j => simp
  | zero =>
    simp only [if_true, true_and, forall_const]
    refine or_congr Iff.rfl ?_
    constructor
    · rintro ⟨hra, hrb, x, hswap | hswap⟩
      · exact .inl ⟨hra, hrb, x, hswap⟩
      · exact .inr ⟨hrb, hra, x, hswap⟩
    · rintro (⟨hra, hrb, x, hswap⟩ | ⟨hrb, hra, x, hswap⟩)
      · exact ⟨hra, hrb, x, .inl hswap⟩
      · exact ⟨hra, hrb, x, .inr hswap⟩

/-- A swap needs one request with an adapter and one without; later blocks show that. -/
theorem LoraSaltSwap.lora_ne (swap : LoraSaltSwap hbs a b) : loraName a ≠ loraName b := by
  obtain ⟨-, -, x, ha, -, hb, -⟩ := swap
  rw [ha, hb]
  exact Option.some_ne_none x

theorem blockContents_agree_iff (env : HashEnv) (hpos : 0 < hbs) (ha : a.promptEmbeds = none)
    (hb : b.promptEmbeds = none) (i : Nat) :
    (∀ j ≤ i, blockContent env hbs a j = blockContent env hbs b j) ↔
      TokensAgree hbs a b i ∧
        ((i = 0 ∧ (LoraSaltSwap hbs a b ∨ LoraSaltSwap hbs b a)) ∨ RecordsAgree hbs a b i) := by
  rw [tokensAgree_iff]
  simp only [blockContent, Prod.mk.injEq, extraKeysAt_eq_iff env hpos ha hb]
  constructor
  · intro same
    refine ⟨fun j hj => (same j hj).1, ?_⟩
    rcases (same 0 (Nat.zero_le i)).2 with ⟨hlora, -, hsalt⟩ | ⟨-, hswap⟩
    · refine .inr ⟨hlora, hsalt rfl, fun j hj => ?_⟩
      rcases (same j hj).2 with ⟨-, hrecorded, -⟩ | ⟨-, hswap⟩
      · exact hrecorded
      · exact absurd hlora (hswap.elim LoraSaltSwap.lora_ne (fun h => h.lora_ne.symm))
    · rcases Nat.eq_zero_or_pos i with rfl | hi
      · exact .inl ⟨rfl, hswap⟩
      -- the second block shows the adapter, so the swap is out
      rcases (same 1 hi).2 with ⟨hlora, -, -⟩ | ⟨habsurd, -⟩
      · exact absurd hlora (hswap.elim LoraSaltSwap.lora_ne (fun h => h.lora_ne.symm))
      · exact absurd habsurd (by decide)
  · rintro ⟨htokens, ⟨rfl, hswap⟩ | ⟨hlora, hsalt, hrecorded⟩⟩ j hj
    · obtain rfl : j = 0 := le_zero.mp hj
      exact ⟨htokens 0 hj, .inr ⟨rfl, hswap⟩⟩
    · exact ⟨htokens j hj, .inl ⟨hlora, hrecorded j hj, fun _ => hsalt⟩⟩

theorem isolated_scale (hbs : Nat) (a b : Request) {scale : Nat} (hscale : 0 < scale) (idx : Nat) :
    Isolated (scale * hbs) a b idx ↔ Isolated hbs a b ((idx + 1) * scale - 1) := by
  have hrange : (idx + 1) * (scale * hbs) = ((idx + 1) * scale - 1 + 1) * hbs := by
    rw [Nat.sub_add_cancel (Nat.mul_pos (succ_pos idx) hscale), Nat.mul_assoc]
  have htokens : TokensAgree (scale * hbs) a b idx ↔ TokensAgree hbs a b ((idx + 1) * scale - 1) := by
    rw [TokensAgree, TokensAgree, hrange]
  have hitems : ItemsAgree (scale * hbs) a b idx ↔ ItemsAgree hbs a b ((idx + 1) * scale - 1) := by
    rw [ItemsAgree, ItemsAgree, hrange]
  constructor
  · rintro ⟨tokens, items, lora, salt⟩
    exact ⟨htokens.mp tokens, hitems.mp items, lora, salt⟩
  · rintro ⟨tokens, items, lora, salt⟩
    exact ⟨htokens.mpr tokens, hitems.mpr items, lora, salt⟩

/-- Equal hashes isolate exactly the pairs that the keys tell apart. -/
theorem isolated_iff_not_confusable (free : env.CollisionFree) (hpos : 0 < hbs)
    (ha : a.promptEmbeds = none) (hb : b.promptEmbeds = none) (i : Nat) :
    (SameHashAt (fromScratchHashes env hbs a) (fromScratchHashes env hbs b) i →
      Isolated hbs a b i) ↔ ¬ Confusable hbs a b i := by
  rw [sameHashAt_iff free hpos, blockContents_agree_iff env hpos ha hb]
  constructor
  · rintro isolates ⟨hia, hib, htokens, ⟨rfl, hswap⟩ | ⟨hrecords, hdiffer⟩⟩
    · have isolated := isolates ⟨hia, hib, htokens, .inl ⟨rfl, hswap⟩⟩
      exact hswap.elim (fun h => h.lora_ne isolated.lora) (fun h => h.lora_ne isolated.lora.symm)
    · have isolated := isolates ⟨hia, hib, htokens, .inr hrecords⟩
      exact hdiffer.elim ((itemsAgree_iff hrecords).mp isolated.items)
        ((cacheSalt_eq_iff hrecords.2.1).mp isolated.salt)
  · rintro clear ⟨hia, hib, htokens, hswap | hrecords⟩
    · exact absurd ⟨hia, hib, htokens, .inl hswap⟩ clear
    · have hsame := fun hdiffer => clear ⟨hia, hib, htokens, .inr ⟨hrecords, hdiffer⟩⟩
      exact ⟨htokens, (itemsAgree_iff hrecords).mpr (hsame ∘ .inl), hrecords.1,
        (cacheSalt_eq_iff hrecords.2.1).mpr (hsame ∘ .inr)⟩

/-- Prefix-cache isolation: at the granularity of the hashes, at every multiple of it,
and between KV-cache groups. -/
theorem prefix_cache_isolation {env : HashEnv} (free : env.CollisionFree) {hbs : Nat}
    (hpos : 0 < hbs) {a b : Request} (ha : a.promptEmbeds = none) (hb : b.promptEmbeds = none) :
    (∀ i, (SameHashAt (fromScratchHashes env hbs a) (fromScratchHashes env hbs b) i →
        Isolated hbs a b i) ↔ ¬ Confusable hbs a b i) ∧
      (∀ scale idx, 0 < scale →
        (((∃ h, getValueAt (fromScratchHashes env hbs a) scale idx = some h ∧
            getValueAt (fromScratchHashes env hbs b) scale idx = some h) →
          Isolated (scale * hbs) a b idx) ↔ ¬ Confusable hbs a b ((idx + 1) * scale - 1))) ∧
      ∀ (h h' : BlockHash) (g g' : Nat), g < 2 ^ 32 → g' < 2 ^ 32 → g ≠ g' →
        makeBlockHashWithGroupId h g ≠ makeBlockHashWithGroupId h' g' := by
  refine ⟨isolated_iff_not_confusable free hpos ha hb, ?_, ?_⟩
  · intro scale idx hscale
    rw [isolated_scale hbs a b hscale]
    exact isolated_iff_not_confusable free hpos ha hb _
  · intro h h' g g' hg hg' hne same
    exact hne (makeBlockHashWithGroupId_inj hg hg' same).2

/-- Some hash function meets the assumptions: number the inputs and count in unary. -/
theorem exists_collisionFree : ∃ env : HashEnv, env.CollisionFree := by
  have : Countable Char := Injective.countable (f := Char.toNat) fun _ _ => Char.toNat_inj.mp
  have : Countable String :=
    Injective.countable (f := String.toList) fun _ _ => String.toList_inj.mp
  have : Countable ExtraKey := by
    let code (key : ExtraKey) : String ⊕ (String × Int) ⊕ Bytes :=
      key.casesOn .inl (fun identifier offset => .inr (.inl (identifier, offset)))
        fun digest => .inr (.inr digest)
    refine Injective.countable (f := code) ?_
    intro x y same
    cases x <;> cases y <;> simp_all [code]
  have : Countable HashInput := by
    refine Injective.countable (f := fun i : HashInput => (i.parent, i.tokens, i.extraKeys)) ?_
    rintro ⟨p, t, e⟩ ⟨p', t', e'⟩ same
    simpa using same
  obtain ⟨number, hnumber⟩ := exists_injective_nat HashInput
  refine ⟨⟨fun input => replicate (number input + 1) 1, [0], flatten⟩, ?_, ?_, ?_⟩
  · intro x y same
    exact hnumber (by simpa using congrArg length same)
  · intro input same
    simp [replicate_succ] at same
  · intro input same
    simp at same

def adapterRequest : Request :=
  { allTokenIds := [1, 2], loraRequest := some ⟨"tenant", 1⟩ }
def saltedRequest : Request := { allTokenIds := [1, 2], cacheSalt := some "tenant" }

def videoRequest (audio : String) : Request :=
  { allTokenIds := [1, 2, 3, 4, 5, 6]
    mmFeatures := [⟨"video", { offset := 0, length := 6 }⟩, ⟨audio, { offset := 1, length := 2 }⟩] }

/-- A longer request for the same adapter shares the first block, and rightly so. -/
theorem prefix_cache_isolation_adapter :
    ∃ env : HashEnv, env.CollisionFree ∧
      SameHashAt (fromScratchHashes env 2 adapterRequest)
        (fromScratchHashes env 2 { adapterRequest with allTokenIds := [1, 2, 3, 4] }) 0 ∧
      Isolated 2 adapterRequest { adapterRequest with allTokenIds := [1, 2, 3, 4] } 0 := by
  obtain ⟨env, free⟩ := exists_collisionFree
  have same : SameHashAt (fromScratchHashes env 2 adapterRequest)
      (fromScratchHashes env 2 { adapterRequest with allTokenIds := [1, 2, 3, 4] }) 0 :=
    ⟨_, rfl, rfl⟩
  refine ⟨env, free, same, ((prefix_cache_isolation free (by decide) rfl rfl).1 0).mpr ?_ same⟩
  rintro ⟨-, -, -, ⟨-, hswap | hswap⟩ | ⟨hrecords, hdiffer⟩⟩
  · exact hswap.lora_ne rfl
  · exact hswap.lora_ne rfl
  · exact hdiffer.elim ((itemsAgree_iff hrecords).mp fun _ => Iff.rfl)
      ((cacheSalt_eq_iff rfl).mp rfl)

/-- Under a collision-free hash the adapter and the salt share a first block, and two
different audio tracks of one video share the block before the tracks end. -/
theorem prefix_cache_confuses :
    ∃ env : HashEnv, env.CollisionFree ∧
      (SameHashAt (fromScratchHashes env 2 adapterRequest)
          (fromScratchHashes env 2 saltedRequest) 0 ∧
        ¬ Isolated 2 adapterRequest saltedRequest 0) ∧
      (SameHashAt (fromScratchHashes env 4 (videoRequest "speech"))
          (fromScratchHashes env 4 (videoRequest "music")) 0 ∧
        ¬ Isolated 4 (videoRequest "speech") (videoRequest "music") 0) := by
  obtain ⟨env, free⟩ := exists_collisionFree
  refine ⟨env, free, ⟨⟨_, rfl, rfl⟩, fun isolated => ?_⟩, ⟨⟨_, rfl, rfl⟩, fun isolated => ?_⟩⟩
  · exact absurd isolated.lora (by decide)
  · exact absurd ((isolated.items ("speech", 1)).mp (by decide)) (by decide)

end Vllm.KVCache
