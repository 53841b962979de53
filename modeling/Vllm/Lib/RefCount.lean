import Mathlib

/-! Reference counts with a queue of unreferenced items. `held` lists the references that
exist outside, with repetition; `live` says which items take part in the accounting. -/
namespace Vllm.RefCount
open List Function

variable {α : Type} [DecidableEq α] {xs : List α}

def retain (cnt : α → Int) : List α → α → Int
  | [] => cnt
  | x :: xs => retain (update cnt x (cnt x + 1)) xs

/-- Drops one reference after the other; the list holds the items whose count became zero. -/
def release (cnt : α → Int) : List α → (α → Int) × List α
  | [] => (cnt, [])
  | x :: xs =>
    let rest := release (update cnt x (cnt x - 1)) xs
    (rest.1, if cnt x - 1 = 0 then x :: rest.2 else rest.2)

variable (cnt : α → Int)

theorem retain_apply (xs : List α) (a : α) : retain cnt xs a = cnt a + xs.count a := by
  induction xs generalizing cnt with
  | nil => simp [retain]
  | cons x xs ih =>
    rw [retain, ih]
    by_cases hax : a = x
    · subst hax
      rw [update_self, count_cons_self]
      omega
    · rw [update_of_ne hax, count_cons_of_ne (Ne.symm hax)]

theorem release_fst (xs : List α) (a : α) : (release cnt xs).1 a = cnt a - xs.count a := by
  induction xs generalizing cnt with
  | nil => simp [release]
  | cons x xs ih =>
    rw [release, ih]
    by_cases hax : a = x
    · subst hax
      rw [update_self, count_cons_self]
      omega
    · rw [update_of_ne hax, count_cons_of_ne (Ne.symm hax)]

theorem mem_of_mem_release {cnt : α → Int} {a : α} (h : a ∈ (release cnt xs).2) : a ∈ xs := by
  induction xs generalizing cnt with
  | nil => exact h
  | cons x xs ih =>
    rw [release] at h
    split at h
    · rcases mem_cons.mp h with rfl | h
      · exact mem_cons_self
      · exact mem_cons_of_mem x (ih h)
    · exact mem_cons_of_mem x (ih h)

/-- An item is listed exactly if its last reference was among those dropped. -/
theorem count_release_snd (xs : List α) (a : α) (h : (xs.count a : Int) ≤ cnt a) :
    (release cnt xs).2.count a = if a ∈ xs ∧ cnt a = xs.count a then 1 else 0 := by
  induction xs generalizing cnt with
  | nil => simp [release]
  | cons x xs ih =>
    rw [release]
    by_cases hax : a = x
    · subst hax
      rw [count_cons_self] at h ⊢
      have hrest := ih (update cnt a (cnt a - 1)) (by rw [update_self]; omega)
      rw [update_self] at hrest
      by_cases hzero : cnt a - 1 = 0
      · -- the last reference: no later occurrence
        have hnone : xs.count a = 0 := by omega
        have hmem : a ∉ xs := count_eq_zero.mp hnone
        rw [if_pos hzero, count_cons_self, hrest, if_neg fun h => hmem h.1, if_pos]
        exact ⟨mem_cons_self, by rw [hnone]; push_cast; omega⟩
      · rw [if_neg hzero, hrest]
        by_cases hlast : cnt a = xs.count a + 1
        · have hmem : a ∈ xs := count_pos_iff.mp (by omega)
          rw [if_pos ⟨hmem, by omega⟩, if_pos ⟨mem_cons_self, by push_cast; omega⟩]
        · rw [if_neg fun h => hlast (by omega), if_neg fun h => hlast (by push_cast at h; omega)]
    · rw [count_cons_of_ne (Ne.symm hax)] at h ⊢
      have hrest := ih (update cnt x (cnt x - 1)) (by rwa [update_of_ne hax])
      rw [update_of_ne hax] at hrest
      have hmem : a ∈ x :: xs ↔ a ∈ xs := by simp [hax]
      simp only [hmem]
      split
      · rw [count_cons_of_ne (Ne.symm hax), hrest]
      · exact hrest

/-- The queue holds exactly the live items without references, each once, and the counts are
those of `held`. -/
structure Balanced (live : α → Prop) (queue : List α) (cnt : α → Int) (held : List α) : Prop where
  mem_live : ∀ a ∈ queue, live a
  queued : ∀ a, live a → queue.count a = if held.count a = 0 then 1 else 0
  counted : ∀ a, live a → cnt a = held.count a

namespace Balanced

variable {live : α → Prop} {queue : List α} {cnt : α → Int} {held : List α}

section
variable (bal : Balanced live queue cnt held) {held' : List α}
include bal

theorem mem_iff {a : α} (ha : live a) : a ∈ queue ↔ cnt a = 0 := by
  rw [← count_pos_iff, bal.queued a ha, bal.counted a ha]
  split
  · simp_all
  · simp_all

theorem nodup : queue.Nodup := by
  rw [nodup_iff_count_le_one]
  intro a
  by_cases ha : a ∈ queue
  · rw [bal.queued a (bal.mem_live a ha)]
    split
    · exact Nat.le_refl 1
    · exact Nat.zero_le 1
  · rw [count_eq_zero.mpr ha]
    exact Nat.zero_le 1

/-- Only the live references matter. -/
theorem congr (h : ∀ a, live a → held'.count a = held.count a) : Balanced live queue cnt held' :=
  ⟨bal.mem_live, fun a ha => by rw [h a ha, bal.queued a ha],
    fun a ha => by rw [h a ha, bal.counted a ha]⟩

theorem perm (h : held.Perm held') : Balanced live queue cnt held' :=
  bal.congr fun a _ => (h.count_eq a).symm

end

theorem take (xs rest : List α) (bal : Balanced live (xs ++ rest) cnt held) :
    Balanced live rest (retain cnt xs) (xs ++ held) := by
  refine ⟨fun a ha => bal.mem_live a (mem_append_right xs ha), ?_, ?_⟩
  · intro a ha
    have hqueued := bal.queued a ha
    rw [count_append] at hqueued ⊢
    split at hqueued
    · split
      · omega
      · omega
    · rw [if_neg (by omega)]
      omega
  · intro a ha
    rw [retain_apply, bal.counted a ha, count_append]
    omega

theorem share (x : α) (bal : Balanced live queue cnt held) :
    Balanced live (queue.erase x) (retain cnt [x]) (x :: held) := by
  refine ⟨fun a ha => bal.mem_live a (mem_of_mem_erase ha), ?_, ?_⟩
  · intro a ha
    have hqueued := bal.queued a ha
    by_cases hax : a = x
    · subst hax
      rw [count_erase_self, count_cons_self, if_neg (Nat.succ_ne_zero _)]
      split at hqueued
      · omega
      · omega
    · rw [count_erase_of_ne hax, count_cons_of_ne (Ne.symm hax), hqueued]
  · intro a ha
    rw [retain_apply, bal.counted a ha]
    by_cases hax : a = x
    · subst hax
      simp only [count_cons_self, count_nil]
      omega
    · simp only [count_cons_of_ne (Ne.symm hax), count_nil]
      omega

/-- Dropped references; the live items without references are queued again, in any order. -/
theorem drop {queue' : List α} (bal : Balanced live queue cnt (xs ++ held))
    (hlive : ∀ a ∈ queue', live a)
    (hqueue : ∀ a, live a → queue'.count a = queue.count a + (release cnt xs).2.count a) :
    Balanced live queue' (release cnt xs).1 held := by
  refine ⟨hlive, ?_, ?_⟩
  · intro a ha
    have hcnt := bal.counted a ha
    rw [count_append] at hcnt
    rw [hqueue a ha, bal.queued a ha, count_release_snd cnt xs a (by omega), count_append]
    by_cases hx : a ∈ xs
    · have hpos : 0 < xs.count a := count_pos_iff.mpr hx
      rw [if_neg (by omega)]
      by_cases hheld : held.count a = 0
      · rw [if_pos ⟨hx, by omega⟩, if_pos hheld]
      · rw [if_neg fun h => hheld (by omega), if_neg hheld]
    · have hzero : xs.count a = 0 := count_eq_zero.mpr hx
      rw [hzero, Nat.zero_add, if_neg (fun h : a ∈ xs ∧ _ => hx h.1), Nat.add_zero]
  · intro a ha
    rw [release_fst, bal.counted a ha, count_append]
    omega

end Balanced
end Vllm.RefCount
