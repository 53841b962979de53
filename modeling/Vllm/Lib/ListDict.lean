import Mathlib

/-! Dictionaries of lists with a default of `[]`, as Python's `defaultdict(list)`: the
elements of all lists together, up to order. -/
namespace Vllm.ListDict
open List AList

variable {κ α : Type}

def flat (d : AList fun _ : κ => List α) : List α := d.entries.flatMap (·.2)

variable [DecidableEq κ]

def get (d : AList fun _ : κ => List α) (k : κ) : List α := (d.lookup k).getD []

section
variable (d : AList fun _ : κ => List α)
include d

@[simp] theorem get_insert (k : κ) (xs : List α) : get (d.insert k xs) k = xs := by
  rw [get, lookup_insert, Option.getD_some]

theorem get_insert_of_ne {k k' : κ} (h : k' ≠ k) (xs : List α) : get (d.insert k xs) k' = get d k' := by
  rw [get, lookup_insert_ne h, get]

@[simp] theorem get_erase (k : κ) : get (d.erase k) k = [] := by
  rw [get, lookup_erase, Option.getD_none]

theorem get_erase_of_ne {k k' : κ} (h : k' ≠ k) : get (d.erase k) k' = get d k' := by
  rw [get, lookup_erase_ne h, get]

theorem flat_insert (k : κ) (xs : List α) : flat (d.insert k xs) = xs ++ flat (d.erase k) := rfl

end

theorem flatMap_kerase_perm (k : κ) (l : List ((_ : κ) × List α)) :
    (l.flatMap (·.2)).Perm ((l.dlookup k).getD [] ++ (l.kerase k).flatMap (·.2)) := by
  induction l with
  | nil => simp
  | cons p l ih =>
    obtain ⟨k', xs⟩ := p
    by_cases hk : k = k'
    · subst hk
      have htail : (⟨k, xs⟩ :: l : List ((_ : κ) × List α)).kerase k = l := kerase_cons_eq rfl
      rw [dlookup_cons_eq, htail]
      exact .refl _
    · have htail : (⟨k', xs⟩ :: l : List ((_ : κ) × List α)).kerase k = ⟨k', xs⟩ :: l.kerase k :=
        kerase_cons_ne hk
      rw [dlookup_cons_ne l ⟨k', xs⟩ hk, htail]
      simp only [flatMap_cons]
      refine (ih.append_left xs).trans ?_
      rw [← append_assoc, ← append_assoc]
      exact perm_append_comm.append_right _

theorem flat_perm (d : AList fun _ : κ => List α) (k : κ) :
    (flat d).Perm (get d k ++ flat (d.erase k)) :=
  flatMap_kerase_perm k d.entries

end Vllm.ListDict
