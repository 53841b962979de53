import Vllm.Lib.OrderedDict

/-! The cache policies of the CPU offloading manager (`kv_offload/cpu/policies/`). A block is shared
between the manager and the policy; a change of its reference count is a `setRef` of the policy. -/
namespace Vllm.Offload.CPU
open Dict

inductive Error
  | assertion
  | key
  deriving DecidableEq, Repr

/-- The value of a `c_int32` field after an assignment. -/
def int32 (n : Int) : Int := n.bmod (2 ^ 32)

/-- A block that is not ready has the count -1. -/
structure BlockStatus where
  refCnt : Int := -1
  blockId : Nat
  deriving DecidableEq, Repr

def BlockStatus.isReady (b : BlockStatus) : Bool := 0 ≤ b.refCnt

/-- The operations of `CachePolicy`. -/
class CachePolicy (K : outParam Type) (σ : Type) where
  get : σ → K → Option BlockStatus
  setRef : σ → K → Int → σ
  insert : σ → K → BlockStatus → σ
  remove : σ → K → Except Error σ
  touch : σ → List K → σ
  clear : σ → σ
  evict : σ → Nat → List K → Except Error (Option (List (K × BlockStatus) × σ))
  markEvictable : σ → K → σ
  markNonEvictable : σ → K → Except Error σ

/-! ### LRU -/

/-- `LRUCachePolicy`; `evictableBlocks` are the blocks that nobody uses, the oldest first. -/
structure LRU (K : Type) where
  evictableBlocks : Dict K Unit := ∅
  blocks : Dict K BlockStatus := ∅

namespace LRU

variable {K : Type} [DecidableEq K]

variable (p : LRU K)

def get (key : K) : Option BlockStatus := p.blocks.lookup key

def setRef (key : K) (refCnt : Int) : LRU K :=
  match p.blocks.lookup key with
  | some block => { p with blocks := setItem p.blocks key { block with refCnt } }
  | none => p

def insert (key : K) (block : BlockStatus) : LRU K where
  blocks := setItem p.blocks key block
  evictableBlocks :=
    if block.refCnt = 0 then setItem p.evictableBlocks key () else p.evictableBlocks

def remove (key : K) : Except Error (LRU K) :=
  if key ∈ p.blocks then
    .ok { blocks := p.blocks.erase key, evictableBlocks := p.evictableBlocks.erase key }
  else .error .key

def touchOne (key : K) : LRU K :=
  if key ∈ p.evictableBlocks then
    { p with evictableBlocks := moveToEnd p.evictableBlocks key }
  else p

def touch (keys : List K) : LRU K := keys.reverse.foldl touchOne p

def clear (_ : LRU K) : LRU K := {}

/-- The loop of `evict` over the evictable blocks. -/
def candidates (p : LRU K) (n : Nat) (isProtected : List K) :
    List K → List (K × BlockStatus) → Except Error (List (K × BlockStatus))
  | [], found => .ok found
  | key :: keys, found =>
    if key ∈ isProtected then candidates p n isProtected keys found
    else
      match p.blocks.lookup key with
      | none => .error .key
      | some block =>
        if block.refCnt ≠ 0 then .error .assertion
        else if (found ++ [(key, block)]).length = n then .ok (found ++ [(key, block)])
        else candidates p n isProtected keys (found ++ [(key, block)])

def evict (n : Nat) (isProtected : List K) :
    Except Error (Option (List (K × BlockStatus) × LRU K)) :=
  if n = 0 then .ok (some ([], p))
  else
    match p.candidates n isProtected p.evictableBlocks.keys [] with
    | .error e => .error e
    | .ok found =>
      if found.length < n then .ok none
      else
        .ok (some (found,
          { evictableBlocks := eraseAll p.evictableBlocks (found.map Prod.fst)
            blocks := eraseAll p.blocks (found.map Prod.fst) }))

def markEvictable (key : K) : LRU K :=
  { p with evictableBlocks := setItem p.evictableBlocks key () }

def markNonEvictable (key : K) : Except Error (LRU K) :=
  if key ∈ p.evictableBlocks then
    .ok { p with evictableBlocks := p.evictableBlocks.erase key }
  else .error .key

instance : CachePolicy K (LRU K) where
  get := get
  setRef := setRef
  insert := insert
  remove := remove
  touch := touch
  clear := clear
  evict := evict
  markEvictable := markEvictable
  markNonEvictable := markNonEvictable

end LRU

/-! ### ARC -/

/-- How the host rounds the results of float operations: a result that is not negative stays so,
and rounding does not go past a whole number that a float has. -/
structure Rounding where
  round : ℚ → ℚ
  nonneg : ∀ x : ℚ, 0 ≤ x → 0 ≤ round x
  le_natCast : ∀ (x : ℚ) (n : Nat), n ≤ 2 ^ 53 → x ≤ n → round x ≤ n

def truncate (x : ℚ) : Int := if 0 ≤ x then ⌊x⌋ else ⌈x⌉

/-- `ARCCachePolicy`: `t1` holds what was used once, `t2` what was used again, `b1` and `b2` the
keys that were evicted from them. -/
structure ARC (K : Type) where
  rounding : Rounding
  cacheCapacity : Nat
  targetT1Size : ℚ := 0
  t1 : Dict K BlockStatus := ∅
  t2 : Dict K BlockStatus := ∅
  b1 : Dict K Unit := ∅
  b2 : Dict K Unit := ∅

namespace ARC

variable {K : Type} [DecidableEq K]

def get (p : ARC K) (key : K) : Option BlockStatus := (p.t1.lookup key).or (p.t2.lookup key)

def setRef (p : ARC K) (key : K) (refCnt : Int) : ARC K :=
  match p.t1.lookup key with
  | some block => { p with t1 := setItem p.t1 key { block with refCnt } }
  | none =>
    match p.t2.lookup key with
    | some block => { p with t2 := setItem p.t2 key { block with refCnt } }
    | none => p

def insert (p : ARC K) (key : K) (block : BlockStatus) : ARC K :=
  { p with t1 := setItem p.t1 key block, b1 := p.b1.erase key, b2 := p.b2.erase key }

def remove (p : ARC K) (key : K) : Except Error (ARC K) :=
  if key ∈ p.t1 then .ok { p with t1 := p.t1.erase key }
  else .ok { p with t2 := p.t2.erase key }

/-- `max(1, n / m)`. -/
def delta (p : ARC K) (n m : Nat) : ℚ := max 1 (p.rounding.round (n / m))

def touchOne (p : ARC K) (key : K) : ARC K :=
  match p.t1.lookup key with
  | some block =>
    -- a block that is being stored is not really touched twice
    if block.isReady = false then { p with t1 := setItem (p.t1.erase key) key block }
    else { p with t1 := p.t1.erase key, t2 := setItem p.t2 key block }
  | none =>
    if key ∈ p.t2 then { p with t2 := moveToEnd p.t2 key }
    else if key ∈ p.b1 then
      { p with
        targetT1Size := min
          (p.rounding.round (p.targetT1Size + p.delta p.b2.keys.length p.b1.keys.length))
          p.cacheCapacity
        b1 := moveToEnd p.b1 key }
    else if key ∈ p.b2 then
      { p with
        targetT1Size := max
          (p.rounding.round (p.targetT1Size - p.delta p.b1.keys.length p.b2.keys.length)) 0
        b2 := moveToEnd p.b2 key }
    else p

def touch (p : ARC K) (keys : List K) : ARC K := keys.reverse.foldl touchOne p

def clear (p : ARC K) : ARC K := { rounding := p.rounding, cacheCapacity := p.cacheCapacity }

def pick (blocks : Dict K BlockStatus) (excluded : List K) : Option (K × BlockStatus) :=
  (blocks.entries.find? fun e => e.2.refCnt = 0 ∧ e.1 ∉ excluded).map fun e => (e.1, e.2)

structure Candidate (K : Type) where
  key : K
  block : BlockStatus
  fromT1 : Bool

/-- The loop of `evict` that selects; nothing changes yet. -/
def select (p : ARC K) (isProtected : List K) :
    Nat → Int → List (Candidate K) → Option (List (Candidate K))
  | 0, _, found => some found
  | n + 1, virtualT1Size, found =>
    let excluded := isProtected ++ found.map (·.key)
    let fromT1 := if truncate p.targetT1Size ≤ virtualT1Size then pick p.t1 excluded else none
    match fromT1 with
    | some (key, block) => select p isProtected n (virtualT1Size - 1) (found ++ [⟨key, block, true⟩])
    | none =>
      match pick p.t2 excluded with
      | some (key, block) => select p isProtected n virtualT1Size (found ++ [⟨key, block, false⟩])
      | none => none

def applyEviction (p : ARC K) (c : Candidate K) : ARC K :=
  if c.fromT1 then { p with t1 := p.t1.erase c.key, b1 := setItem p.b1 c.key () }
  else { p with t2 := p.t2.erase c.key, b2 := setItem p.b2 c.key () }

def trim (p : ARC K) (ghost : Dict K Unit) : Dict K Unit :=
  popFirst^[ghost.keys.length - p.cacheCapacity] ghost

def evict (p : ARC K) (n : Nat) (isProtected : List K) :
    Except Error (Option (List (K × BlockStatus) × ARC K)) :=
  if n = 0 then .ok (some ([], p))
  else
    match p.select isProtected n p.t1.keys.length [] with
    | none => .ok none
    | some found =>
      let p := found.foldl applyEviction p
      .ok (some (found.map fun c => (c.key, c.block), { p with b1 := p.trim p.b1, b2 := p.trim p.b2 }))

instance : CachePolicy K (ARC K) where
  get := get
  setRef := setRef
  insert := insert
  remove := remove
  touch := touch
  clear := clear
  evict := evict
  markEvictable p _ := p
  markNonEvictable p _ := .ok p

end ARC
end Vllm.Offload.CPU
