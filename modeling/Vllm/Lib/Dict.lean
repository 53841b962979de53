import Mathlib

/-! Python dictionaries as association lists. `insert` puts a key to the front, for dictionaries that
are not iterated over. -/
namespace Vllm
open List AList

abbrev Dict (κ ν : Type) := AList fun _ : κ => ν

namespace Dict

section
variable {κ ν : Type} {d : Dict κ ν}

def total {M : Type} [AddCommMonoid M] (d : Dict κ ν) (f : κ → ν → M) : M :=
  (d.entries.map fun e => f e.1 e.2).sum

theorem mem_total {α : Type} {f : κ → ν → Multiset α} {a : α} :
    a ∈ total d f ↔ ∃ e ∈ d.entries, a ∈ f e.1 e.2 := by
  rw [total]
  induction d.entries with
  | nil => simp
  | cons e entries ih =>
    rw [map_cons, sum_cons, Multiset.mem_add, ih, exists_mem_cons_iff]

end

variable {κ ν : Type} [DecidableEq κ] {d : Dict κ ν} {k k' : κ} {v v' : ν} {ks : List κ}

def eraseAll (d : Dict κ ν) (ks : List κ) : Dict κ ν := ks.foldl (fun d k => d.erase k) d

@[simp] theorem eraseAll_nil : eraseAll d [] = d := rfl

@[simp] theorem eraseAll_cons (ks : List κ) : eraseAll d (k :: ks) = eraseAll (d.erase k) ks := rfl

@[simp] theorem mem_eraseAll : k ∈ eraseAll d ks ↔ k ∉ ks ∧ k ∈ d := by
  induction ks generalizing d with
  | nil => simp
  | cons k' ks ih =>
    rw [eraseAll_cons, ih, mem_erase, mem_cons]
    tauto

theorem lookup_eraseAll (h : k ∉ ks) : (eraseAll d ks).lookup k = d.lookup k := by
  induction ks generalizing d with
  | nil => rfl
  | cons k' ks ih =>
    rw [mem_cons, not_or] at h
    rw [eraseAll_cons, ih h.2, lookup_erase_ne h.1]

theorem lookup_of_lookup_eraseAll (h : (eraseAll d ks).lookup k = some v) :
    d.lookup k = some v := by
  have hk : k ∉ ks := (mem_eraseAll.mp (lookup_isSome.mp (by rw [h]; rfl))).1
  rwa [lookup_eraseAll hk] at h

theorem erase_of_notMem (h : k ∉ d) : d.erase k = d :=
  AList.ext (kerase_of_notMem_keys h)

theorem mem_of_lookup (h : d.lookup k = some v) : k ∈ d :=
  lookup_isSome.mp (by rw [h]; rfl)

theorem exists_lookup (h : k ∈ d) : ∃ v, d.lookup k = some v :=
  Option.isSome_iff_exists.mp (lookup_isSome.mpr h)

theorem lookup_iff_mem_entries : d.lookup k = some v ↔ ⟨k, v⟩ ∈ d.entries :=
  mem_lookup_iff

theorem lookup_insert_iff :
    (d.insert k v).lookup k' = some v' ↔ (k' = k ∧ v' = v) ∨ (k' ≠ k ∧ d.lookup k' = some v') := by
  by_cases hk : k' = k
  · subst hk
    rw [lookup_insert, Option.some.injEq]
    constructor
    · rintro rfl
      exact .inl ⟨rfl, rfl⟩
    · rintro (⟨-, rfl⟩ | ⟨hne, -⟩)
      · rfl
      · exact absurd rfl hne
  · rw [lookup_insert_ne hk]
    constructor
    · exact fun h => .inr ⟨hk, h⟩
    · rintro (⟨heq, -⟩ | ⟨-, h⟩)
      · exact absurd heq hk
      · exact h

theorem lookup_erase_iff : (d.erase k).lookup k' = some v' ↔ k' ≠ k ∧ d.lookup k' = some v' := by
  by_cases hk : k' = k
  · subst hk
    rw [lookup_erase]
    exact ⟨nofun, fun h => absurd rfl h.1⟩
  · rw [lookup_erase_ne hk]
    exact ⟨fun h => ⟨hk, h⟩, And.right⟩

theorem entries_perm (h : d.lookup k = some v) :
    d.entries.Perm (⟨k, v⟩ :: (d.erase k).entries) := by
  obtain ⟨b, l₁, l₂, -, hd, he⟩ := exists_of_kerase (AList.mem_keys.mp (mem_of_lookup h))
  have hb : d.lookup k = some b := lookup_iff_mem_entries.mpr (by rw [hd]; simp)
  cases hb.symm.trans h
  have herase : (d.erase k).entries = l₁ ++ l₂ := he
  rw [hd, herase]
  exact perm_middle

theorem keys_eraseAll_perm (hnodup : ks.Nodup) (hmem : ∀ k ∈ ks, k ∈ d) :
    (ks ++ (eraseAll d ks).keys).Perm d.keys := by
  induction ks generalizing d with
  | nil => exact .refl _
  | cons k ks ih =>
    obtain ⟨hk, hnodup⟩ := nodup_cons.mp hnodup
    have hrest : ∀ k' ∈ ks, k' ∈ d.erase k := fun k' hk' =>
      mem_erase.mpr ⟨fun heq => hk (heq ▸ hk'), hmem k' (mem_cons_of_mem _ hk')⟩
    have hperm := (ih hnodup hrest).cons k
    rw [keys_erase] at hperm
    refine hperm.trans (perm_cons_erase ?_).symm
    exact AList.mem_keys.mp (hmem k mem_cons_self)

/-! ### Sums over the entries -/

section
variable {M : Type} [AddCommMonoid M] {f : κ → ν → M}

theorem total_of_lookup (h : d.lookup k = some v) : total d f = f k v + total (d.erase k) f := by
  have hperm := (entries_perm h).map fun e : Sigma fun _ : κ => ν => f e.1 e.2
  exact hperm.sum_eq.trans sum_cons

end

end Dict
end Vllm
