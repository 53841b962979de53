import Mathlib

/-! Arrays with one entry for each row: single rows are written, moved and swapped. -/
namespace Vllm
open List Equiv Option

abbrev Column (α : Type) := Nat → α

namespace Column
variable {α : Type} (c : Column α) (i j k : Nat)

def set (c : Column α) (i : Nat) (a : α) : Column α := Function.update c i a

def move (c : Column α) (src dst : Nat) : Column α := c.set dst (c src)

def swap (c : Column α) (i j : Nat) : Column α := (c.set i (c j)).set j (c i)

/-- `pop(src, None)` of a dictionary; a value is set at `dst`. -/
def popTo (c : Column (Option α)) (src dst : Nat) : Column (Option α) :=
  match c src with
  | none => c.set src none
  | some a => (c.set src none).set dst (some a)

@[simp] theorem set_self (a : α) : c.set i a i = a := by
  rw [set, Function.update_self]

theorem set_of_ne (a : α) {k : Nat} (h : k ≠ i) : c.set i a k = c k := by
  rw [set, Function.update_of_ne h]

@[simp] theorem move_self : c.move i j j = c i := c.set_self j (c i)

theorem move_of_ne {k : Nat} (h : k ≠ j) : c.move i j k = c k := c.set_of_ne j (c i) h

theorem swap_apply : c.swap i j k = c (Equiv.swap i j k) := by
  unfold swap
  by_cases hj : k = j
  · rw [hj, set_self, swap_apply_right]
  rw [set_of_ne _ _ _ hj]
  by_cases hi : k = i
  · rw [hi, set_self, swap_apply_left]
  · rw [set_of_ne _ _ _ hi, swap_apply_of_ne_of_ne hi hj]

variable (c : Column (Option α))

theorem popTo_src {i j : Nat} (h : i ≠ j) : c.popTo i j i = none := by
  cases hsrc : c i with
  | none =>
    simp only [popTo, hsrc]
    rw [set_self]
  | some a =>
    simp only [popTo, hsrc]
    rw [set_of_ne _ _ _ h, set_self]

theorem popTo_dst {i j : Nat} (h : i ≠ j) (hfree : c j = none) :
    c.popTo i j j = c i := by
  cases hsrc : c i with
  | none =>
    simp only [popTo, hsrc]
    rw [set_of_ne _ _ _ h.symm, hfree]
  | some a =>
    simp only [popTo, hsrc]
    rw [set_self]

theorem popTo_of_ne {i j k : Nat} (hi : k ≠ i) (hj : k ≠ j) :
    c.popTo i j k = c k := by
  cases hsrc : c i with
  | none =>
    simp only [popTo, hsrc]
    rw [set_of_ne _ _ _ hi]
  | some a =>
    simp only [popTo, hsrc]
    rw [set_of_ne _ _ _ hj, set_of_ne _ _ _ hi]

end Column

/-! ### Slices of a row -/

namespace Slice
variable {α : Type}

def write (row : Nat → α) (start : Nat) (xs : List α) : Nat → α := fun p =>
  if start ≤ p then xs[p - start]?.getD (row p) else row p

def fill (row : Nat → α) (start stop : Nat) (a : α) : Nat → α := fun p =>
  if start ≤ p ∧ p < stop then a else row p

def copy (n : Nat) (src dst : Nat → α) : Nat → α := fun p => if p < n then src p else dst p

def take (row : Nat → α) (n : Nat) : List α := (range n).map row

theorem copy_of_lt {n p : Nat} (src dst : Nat → α) (h : p < n) : copy n src dst p = src p := if_pos h

@[simp] theorem take_length (row : Nat → α) (n : Nat) : (take row n).length = n := by
  rw [take, length_map, length_range]

theorem take_congr {row row' : Nat → α} {n : Nat} (h : ∀ p < n, row p = row' p) :
    take row n = take row' n :=
  map_congr_left fun p hp => h p (mem_range.mp hp)

theorem take_copy (n : Nat) (src dst : Nat → α) : take (copy n src dst) n = take src n :=
  take_congr fun _ hp => copy_of_lt src dst hp

theorem take_write (row : Nat → α) (n : Nat) (xs : List α) :
    take (write row n xs) (n + xs.length) = take row n ++ xs := by
  refine ext_getElem? fun p => ?_
  rw [take, getElem?_map]
  rcases Nat.lt_or_ge p n with hp | hp
  · rw [getElem?_append_left (by rw [take_length]; exact hp), take, getElem?_map,
      getElem?_range (by omega), getElem?_range hp]
    exact congrArg some (if_neg (Nat.not_le_of_lt hp))
  · rw [getElem?_append_right (by rw [take_length]; exact hp), take_length]
    rcases Nat.lt_or_ge p (n + xs.length) with hlt | hge
    · have hx : xs[p - n]? = some (xs.get ⟨p - n, by omega⟩) := getElem?_eq_getElem (by omega)
      rw [getElem?_range hlt, map_some, write, if_pos hp, hx]
      rfl
    · rw [getElem?_eq_none (by rw [length_range]; exact hge), getElem?_eq_none (by omega)]
      rfl

/-! ### What is known of a row -/

def Known (n : Nat) (known : Nat → Option α) (row : Nat → α) : Prop :=
  ∀ p a, known p = some a → p < n ∧ row p = a

def trim (known : Nat → Option α) (n : Nat) : Nat → Option α := fun p =>
  if p < n then known p else none

variable {n m start stop : Nat} {known : Nat → Option α} {row : Nat → α}

theorem known_none (n : Nat) (row : Nat → α) : Known n (fun _ => none) row := nofun

section
variable (h : Known n known row)
include h

theorem Known.mono (hle : n ≤ m) : Known m known row := fun p a hp =>
  ⟨Nat.lt_of_lt_of_le (h p a hp).1 hle, (h p a hp).2⟩

theorem Known.trim (m : Nat) : Known m (trim known m) row := by
  intro p a hp
  unfold Slice.trim at hp
  split at hp
  · rename_i hlt
    exact ⟨hlt, (h p a hp).2⟩
  · cases hp

theorem Known.copy (hle : n ≤ m) (dst : Nat → α) : Known n known (copy m row dst) := fun p a hp =>
  ⟨(h p a hp).1, (copy_of_lt row dst (Nat.lt_of_lt_of_le (h p a hp).1 hle)).trans (h p a hp).2⟩

theorem Known.write (xs : List α) (hle : start + xs.length ≤ n) :
    Known n (write known start (xs.map some)) (write row start xs) := by
  intro p a hp
  unfold Slice.write at hp ⊢
  split at hp
  · rename_i hstart
    rw [if_pos hstart]
    rw [getElem?_map] at hp
    cases hx : xs[p - start]? with
    | none =>
      rw [hx] at hp
      exact h p a hp
    | some x =>
      rw [hx] at hp
      cases hp
      have hlt : p - start < xs.length := (List.getElem?_eq_some_iff.mp hx).1
      exact ⟨by omega, rfl⟩
  · rename_i hstart
    rw [if_neg hstart]
    exact h p a hp

theorem Known.fill (a : α) (hle : stop ≤ n) :
    Known n (fill known start stop (some a)) (fill row start stop a) := by
  intro p x hp
  unfold Slice.fill at hp ⊢
  split at hp
  · rename_i hin
    rw [if_pos hin]
    exact ⟨Nat.lt_of_lt_of_le hin.2 hle, some.inj hp⟩
  · rename_i hout
    rw [if_neg hout]
    exact h p x hp

end

def swapRows (c : Column (Nat → α)) (n i j : Nat) : Column (Nat → α) :=
  (c.set i (copy n (c j) (c i))).set j (copy n (c i) (c j))

theorem Known.swapRows {c : Column (Nat → α)} {i j k : Nat} (h : Known n known (c (swap i j k)))
    (hle : k = i ∨ k = j → n ≤ m) : Known n known (swapRows c m i j k) := by
  unfold Slice.swapRows
  by_cases hkj : k = j
  · rw [hkj, swap_apply_right] at h
    rw [hkj, Column.set_self]
    exact h.copy (hle (.inr hkj)) _
  · rw [Column.set_of_ne _ _ _ hkj]
    by_cases hki : k = i
    · rw [hki, swap_apply_left] at h
      rw [hki, Column.set_self]
      exact h.copy (hle (.inl hki)) _
    · rw [swap_apply_of_ne_of_ne hki hkj] at h
      rw [Column.set_of_ne _ _ _ hki]
      exact h

end Slice

/-! ### Lists as columns -/

section
variable {α : Type} (l : List α) (d : α) {i j k : Nat}

theorem getD_set_self (a : α) (h : i < l.length) : (l.set i a).getD i d = a := by
  rw [getD_eq_getElem?_getD, getElem?_set_self h, getD_some]

theorem getD_set_of_ne (a : α) (h : k ≠ i) : (l.set i a).getD k d = l.getD k d := by
  rw [getD_eq_getElem?_getD, getElem?_set_ne h.symm, getD_eq_getElem?_getD]

theorem getD_swap (hi : i < l.length) (hj : j < l.length) :
    ((l.set i (l.getD j d)).set j (l.getD i d)).getD k d = l.getD (swap i j k) d := by
  by_cases hkj : k = j
  · rw [hkj, getD_set_self _ _ _ (by rw [length_set]; exact hj), swap_apply_right]
  rw [getD_set_of_ne _ _ _ hkj]
  by_cases hki : k = i
  · rw [hki, getD_set_self _ _ _ hi, swap_apply_left]
  · rw [getD_set_of_ne _ _ _ hki, swap_apply_of_ne_of_ne hki hkj]

end
end Vllm
