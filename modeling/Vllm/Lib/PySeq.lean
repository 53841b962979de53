import Mathlib

/-! Python sequence and integer conventions over arbitrary element types: slice
bounds that may be negative, and ceiling division. -/
namespace PySeq

variable {α : Type*} {b a : Nat}

/-- The position a slice bound denotes: negative bounds count from the end, and
every bound is clamped to the sequence. -/
def sliceBound (bound : Int) (length : Nat) : Nat :=
  if bound < 0 then (length + bound).toNat else min bound.toNat length

def slice (xs : List α) (lo hi : Int) : List α :=
  (xs.take (sliceBound hi xs.length)).drop (sliceBound lo xs.length)

/-- What `del xs[lo:]` leaves of `xs`. -/
def delFrom (xs : List α) (lo : Int) : List α := xs.take (sliceBound lo xs.length)

def cdiv (a b : Nat) : Nat := (a + (b - 1)) / b

theorem sliceBound_le (bound : Int) (length : Nat) : sliceBound bound length ≤ length := by
  unfold sliceBound
  split <;> omega

@[simp] theorem delFrom_length (xs : List α) (lo : Int) :
    (delFrom xs lo).length = sliceBound lo xs.length := by
  rw [delFrom, List.length_take, Nat.min_eq_left (sliceBound_le lo xs.length)]

theorem cdiv_le_iff (hb : 0 < b) (n : Nat) : cdiv a b ≤ n ↔ a ≤ n * b := by
  rw [cdiv, ← Nat.lt_succ_iff, Nat.div_lt_iff_lt_mul hb, Nat.succ_mul]
  omega

theorem lt_cdiv_iff (hb : 0 < b) (n : Nat) : n < cdiv a b ↔ n * b < a := by
  rw [← Nat.not_le, cdiv_le_iff hb, Nat.not_le]

@[simp] theorem cdiv_zero (b : Nat) : cdiv 0 b = 0 := by
  rw [cdiv, Nat.zero_add]
  rcases Nat.eq_zero_or_pos b with rfl | hb
  · rfl
  · exact Nat.div_eq_of_lt (Nat.sub_lt hb Nat.one_pos)

@[simp] theorem cdiv_mul_self (hb : 0 < b) (n : Nat) : cdiv (n * b) b = n := by
  apply Nat.le_antisymm
  · exact (cdiv_le_iff hb n).mpr le_rfl
  · rcases n with _ | n
    · simp
    · exact (lt_cdiv_iff hb n).mpr (Nat.mul_lt_mul_of_pos_right (Nat.lt_succ_self n) hb)

theorem cdiv_mono {a' : Nat} (h : a ≤ a') : cdiv a b ≤ cdiv a' b :=
  Nat.div_le_div_right (Nat.add_le_add_right h _)

theorem le_cdiv {n : Nat} (hb : 0 < b) (h : n * b ≤ a) : n ≤ cdiv a b :=
  Nat.le_trans (Nat.le_of_eq (cdiv_mul_self hb n).symm) (cdiv_mono h)

theorem div_le_cdiv (a b : Nat) : a / b ≤ cdiv a b :=
  Nat.div_le_div_right (Nat.le_add_right a _)

end PySeq
