import Mathlib

/-! Binary heaps in a list, as Python's `heapq` keeps them. The order may change under a heap
that is in use, so nothing is assumed of it: the operations are permutations. -/
namespace Vllm.Heap
open List

variable {α : Type} (lt : α → α → Bool)

def swap (l : List α) (i j : Nat) : List α :=
  match l[i]?, l[j]? with
  | some a, some b => (l.set i b).set j a
  | _, _ => l

theorem swap_perm (l : List α) (i j : Nat) : (swap l i j).Perm l := by
  unfold swap
  split
  · rename_i a b hi hj
    obtain ⟨hilt, rfl⟩ := List.getElem?_eq_some_iff.mp hi
    obtain ⟨hjlt, rfl⟩ := List.getElem?_eq_some_iff.mp hj
    exact set_set_perm hilt hjlt
  · exact .refl l

/-- `_siftdown`: the element at `pos` moves towards `start` while it is before its parent. -/
def siftdown (start : Nat) : Nat → Nat → List α → List α
  | 0, _, l => l
  | fuel + 1, pos, l =>
    if start < pos then
      let parent := (pos - 1) / 2
      match l[pos]?, l[parent]? with
      | some x, some y =>
        if lt x y then siftdown start fuel parent (swap l pos parent) else l
      | _, _ => l
    else l

theorem siftdown_perm (start fuel pos : Nat) (l : List α) :
    (siftdown lt start fuel pos l).Perm l := by
  induction fuel generalizing pos l with
  | zero => exact .refl l
  | succ fuel ih =>
    rw [siftdown]
    split
    · simp only
      split
      · split
        · exact (ih _ _).trans (swap_perm l _ _)
        · exact .refl l
      · exact .refl l
    · exact .refl l

/-- The first loop of `_siftup`: the smaller child moves up until the hole is a leaf. -/
def bubble : Nat → Nat → List α → List α × Nat
  | 0, pos, l => (l, pos)
  | fuel + 1, pos, l =>
    let left := 2 * pos + 1
    match l[left]? with
    | none => (l, pos)
    | some x =>
      let child := if l[left + 1]?.any (fun y => !lt x y) then left + 1 else left
      bubble fuel child (swap l pos child)

theorem bubble_perm (fuel pos : Nat) (l : List α) : (bubble lt fuel pos l).1.Perm l := by
  induction fuel generalizing pos l with
  | zero => exact .refl l
  | succ fuel ih =>
    rw [bubble]
    split
    · exact .refl l
    · exact (ih _ _).trans (swap_perm l _ _)

def siftup (pos : Nat) (l : List α) : List α :=
  let moved := bubble lt l.length pos l
  siftdown lt pos moved.2 moved.2 moved.1

theorem siftup_perm (pos : Nat) (l : List α) : (siftup lt pos l).Perm l :=
  (siftdown_perm lt _ _ _ _).trans (bubble_perm lt _ _ _)

def push (l : List α) (x : α) : List α := siftdown lt 0 l.length l.length (l ++ [x])

def pop (l : List α) : List α :=
  match l.dropLast, l.getLast? with
  | _ :: rest, some x => siftup lt 0 (x :: rest)
  | _, _ => []

theorem pop_perm (x : α) (l : List α) : (pop lt (x :: l)).Perm l := by
  rcases eq_nil_or_concat l with rfl | ⟨l, y, rfl⟩
  · exact .refl []
  rw [concat_eq_append]
  have hdrop : (x :: (l ++ [y])).dropLast = x :: l := by
    rw [← cons_append, dropLast_concat]
  have hlast : (x :: (l ++ [y])).getLast? = some y := by
    rw [← cons_append, getLast?_concat]
  rw [pop, hdrop, hlast]
  exact (siftup_perm lt 0 _).trans (perm_append_singleton y l).symm

/-- The loop of `heapify` over the inner nodes, from the last one on. -/
def heapifyFrom : Nat → List α → List α
  | 0, l => l
  | i + 1, l => heapifyFrom i (siftup lt i l)

def heapify (l : List α) : List α := heapifyFrom lt (l.length / 2) l

def drain : Nat → List α → List α
  | fuel + 1, x :: l => x :: drain fuel (pop lt (x :: l))
  | _, _ => []

end Vllm.Heap
