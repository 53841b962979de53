import Mathlib

/-! A cache that is bounded by the total size of its values and gives up the entry that was not used
for the longest time. What it holds depends on the sizes of the values only. -/
namespace Vllm

structure LRUCache (K V : Type) where
  maxsize : Nat
  getsizeof : V → Nat
  entries : List (K × V) := []

namespace LRUCache

section
variable {K V : Type}

def currsize (getsizeof : V → Nat) (entries : List (K × V)) : Nat :=
  (entries.map fun e => getsizeof e.2).sum

def makeRoom (maxsize size : Nat) (getsizeof : V → Nat) : List (K × V) → List (K × V)
  | [] => []
  | e :: entries =>
    if maxsize < currsize getsizeof (e :: entries) + size then
      makeRoom maxsize size getsizeof entries
    else e :: entries

theorem currsize_map (f : V → Nat) (entries : List (K × V)) :
    currsize id (entries.map fun e => (e.1, f e.2)) = currsize f entries := by
  rw [currsize, List.map_map]
  rfl

theorem makeRoom_map (f : V → Nat) (maxsize size : Nat) (entries : List (K × V)) :
    (makeRoom maxsize size f entries).map (fun e => (e.1, f e.2)) =
      makeRoom maxsize size id (entries.map fun e => (e.1, f e.2)) := by
  induction entries with
  | nil => rfl
  | cons e entries ih =>
    have hsize := currsize_map f (e :: entries)
    rw [List.map_cons] at hsize
    rw [List.map_cons, makeRoom, makeRoom, hsize]
    split
    · exact ih
    · rfl

end

variable {K V : Type} [DecidableEq K]

def lookup (c : LRUCache K V) (key : K) : Option V :=
  (c.entries.find? (·.1 = key)).map Prod.snd

def moveLast (entries : List (K × V)) (key : K) (value : V) : List (K × V) :=
  entries.filter (·.1 ≠ key) ++ [(key, value)]

def touch (c : LRUCache K V) (key : K) : LRUCache K V :=
  match c.lookup key with
  | some value => { c with entries := moveLast c.entries key value }
  | none => c

def get (c : LRUCache K V) (key : K) : Option V × LRUCache K V := (c.lookup key, c.touch key)

def grows (c : LRUCache K V) (key : K) (size : Nat) : Bool :=
  (c.lookup key).all fun old => c.getsizeof old < size

/-- `cache[key] = value`; no result if the value is too large. -/
def set (c : LRUCache K V) (key : K) (value : V) : Option (LRUCache K V) :=
  let size := c.getsizeof value
  if c.maxsize < size then none
  else
    let entries :=
      if c.grows key size then makeRoom c.maxsize size c.getsizeof c.entries else c.entries
    some { c with entries := moveLast entries key value }

/-! ### The sizes -/

def sizes (c : LRUCache K V) : LRUCache K Nat :=
  ⟨c.maxsize, id, c.entries.map fun e => (e.1, c.getsizeof e.2)⟩

variable (c : LRUCache K V) (key : K)

theorem lookup_sizes : c.sizes.lookup key = (c.lookup key).map c.getsizeof := by
  rw [lookup, lookup, sizes]
  simp only [List.find?_map, Option.map_map]
  rfl

theorem moveLast_map (f : V → Nat) (entries : List (K × V)) (value : V) :
    (moveLast entries key value).map (fun e => (e.1, f e.2)) =
      moveLast (entries.map fun e => (e.1, f e.2)) key (f value) := by
  rw [moveLast, moveLast, List.map_append, List.filter_map]
  rfl

theorem sizes_touch : (c.touch key).sizes = c.sizes.touch key := by
  unfold touch
  rw [lookup_sizes]
  cases c.lookup key with
  | none => rfl
  | some value =>
    simp only [Option.map_some, sizes, moveLast_map]

theorem grows_sizes (size : Nat) : c.sizes.grows key size = c.grows key size := by
  rw [grows, lookup_sizes, Option.all_map]
  rfl

theorem sizes_set (value : V) :
    (c.set key value).map sizes = c.sizes.set key (c.getsizeof value) := by
  unfold set
  have hbound : c.sizes.maxsize = c.maxsize := rfl
  have hid (n : Nat) : c.sizes.getsizeof n = n := rfl
  simp only [hbound, hid, grows_sizes]
  split
  · rfl
  simp only [Option.map_some, sizes, moveLast_map]
  split
  · rw [makeRoom_map]
  · rfl

/-! ### What no operation changes -/

theorem touch_of_lookup_none (h : c.lookup key = none) : c.touch key = c := by
  rw [touch, h]

theorem getsizeof_touch : (c.touch key).getsizeof = c.getsizeof := by
  unfold touch
  split
  · rfl
  · rfl

theorem getsizeof_set {c' : LRUCache K V} {value : V} (h : c.set key value = some c') :
    c'.getsizeof = c.getsizeof := by
  unfold set at h
  simp only at h
  split at h
  · cases h
  · cases h
    rfl

end LRUCache
end Vllm
