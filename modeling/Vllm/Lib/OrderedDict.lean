import Vllm.Lib.Dict

/-! Python dictionaries with their order: the oldest entry is the first. -/
namespace Vllm.Dict
open List

section
variable {κ ν : Type}

variable (d : Dict κ ν)

def items : Multiset (κ × ν) := (d.entries.map fun e => (e.1, e.2) : List (κ × ν))

theorem items_keys : (items d).map Prod.fst = (d.keys : Multiset κ) := by
  rw [items, Multiset.map_coe, map_map]
  rfl

def popFirst : Dict κ ν :=
  ⟨d.entries.tail, d.nodupKeys.sublist (tail_sublist _)⟩

theorem entries_popFirst_iterate (n : Nat) (d : Dict κ ν) :
    (popFirst^[n] d).entries = d.entries.drop n := by
  induction n generalizing d with
  | zero => rfl
  | succ n ih => rw [Function.iterate_succ_apply, ih, popFirst, drop_tail, Nat.add_comm]

end

variable {κ ν : Type} [DecidableEq κ] {d : Dict κ ν} {k k' : κ} {v v' : ν}

/-- The entry of `k` gets the value `v`. -/
def setValue (k : κ) (v : ν) (e : Sigma fun _ : κ => ν) : Sigma fun _ : κ => ν :=
  if e.1 = k then ⟨k, v⟩ else e

theorem setValue_fst (k : κ) (v : ν) (e : Sigma fun _ : κ => ν) : (setValue k v e).1 = e.1 := by
  unfold setValue
  split
  · rename_i hk
    exact hk.symm
  · rfl

/-- `d[k] = v`: a key that is there keeps its place. -/
def setItem (d : Dict κ ν) (k : κ) (v : ν) : Dict κ ν :=
  if h : k ∈ d then
    ⟨d.entries.map (setValue k v), by
      rw [NodupKeys, keys, map_map]
      exact (congrArg Nodup (map_congr_left fun e _ => setValue_fst k v e)).mpr d.nodupKeys⟩
  else
    ⟨d.entries ++ [⟨k, v⟩], by
      rw [NodupKeys, keys, map_append, nodup_append]
      refine ⟨d.nodupKeys, nodup_singleton _, fun a ha b hb heq => h ?_⟩
      rw [map_singleton, mem_singleton] at hb
      have hkey : a = k := heq.trans hb
      exact AList.mem_keys.mpr (hkey ▸ ha)⟩

def moveToEnd (d : Dict κ ν) (k : κ) : Dict κ ν :=
  match d.lookup k with
  | some v => setItem (d.erase k) k v
  | none => d

theorem mem_items : (k, v) ∈ items d ↔ d.lookup k = some v := by
  rw [lookup_iff_mem_entries, items, Multiset.mem_coe, mem_map]
  constructor
  · rintro ⟨e, he, heq⟩
    obtain ⟨rfl, rfl⟩ := Prod.mk.inj heq
    exact he
  · exact fun h => ⟨⟨k, v⟩, h, rfl⟩

theorem items_of_lookup (h : d.lookup k = some v) : items d = (k, v) ::ₘ items (d.erase k) :=
  Multiset.coe_eq_coe.mpr ((entries_perm h).map fun e => (e.1, e.2))

theorem entries_setItem_perm (d : Dict κ ν) (k : κ) (v : ν) :
    (setItem d k v).entries.Perm (⟨k, v⟩ :: (d.erase k).entries) := by
  unfold setItem
  split
  · rename_i hmem
    obtain ⟨v₀, hlookup⟩ := exists_lookup hmem
    refine ((entries_perm hlookup).map (setValue k v)).trans (Perm.of_eq ?_)
    have hrest : (d.erase k).entries.map (setValue k v) = (d.erase k).entries.map id :=
      map_congr_left fun e he => if_neg fun hk => by
        have hmem : e.1 ∈ d.erase k := mem_of_lookup (lookup_iff_mem_entries.mpr he)
        exact (AList.mem_erase.mp hmem).1 hk
    rw [map_cons, setValue, if_pos rfl, hrest, map_id]
  · rename_i hmem
    rw [erase_of_notMem hmem]
    exact perm_append_singleton _ _

theorem items_setItem (d : Dict κ ν) (k : κ) (v : ν) :
    items (setItem d k v) = (k, v) ::ₘ items (d.erase k) :=
  Multiset.coe_eq_coe.mpr ((entries_setItem_perm d k v).map fun e => (e.1, e.2))

theorem items_setItem_of_notMem (h : k ∉ d) : items (setItem d k v) = (k, v) ::ₘ items d := by
  rw [items_setItem, erase_of_notMem h]

theorem lookup_setItem (d : Dict κ ν) (k k' : κ) (v : ν) :
    (setItem d k v).lookup k' = (d.insert k v).lookup k' :=
  AList.perm_lookup (entries_setItem_perm d k v)

@[simp] theorem lookup_setItem_self (d : Dict κ ν) (k : κ) (v : ν) :
    (setItem d k v).lookup k = some v := by
  rw [lookup_setItem, AList.lookup_insert]

theorem lookup_setItem_ne (h : k' ≠ k) : (setItem d k v).lookup k' = d.lookup k' := by
  rw [lookup_setItem, AList.lookup_insert_ne h]

theorem lookup_setItem_iff : (setItem d k v).lookup k' = some v' ↔
    (k' = k ∧ v' = v) ∨ (k' ≠ k ∧ d.lookup k' = some v') := by
  rw [lookup_setItem, lookup_insert_iff]

theorem mem_setItem : k' ∈ setItem d k v ↔ k' = k ∨ k' ∈ d := by
  rw [← AList.lookup_isSome, lookup_setItem, AList.lookup_isSome, AList.mem_insert]

theorem entries_setItem_of_notMem (h : k ∉ d) :
    (setItem d k v).entries = d.entries ++ [⟨k, v⟩] := by
  rw [setItem, dif_neg h]

theorem total_setItem {M : Type} [AddCommMonoid M] {f : κ → ν → M} :
    total (setItem d k v) f = f k v + total (d.erase k) f :=
  ((entries_setItem_perm d k v).map _).sum_eq.trans sum_cons

theorem keys_setItem_of_notMem (h : k ∉ d) : (setItem d k v).keys = d.keys ++ [k] := by
  rw [AList.keys, entries_setItem_of_notMem h]
  exact map_append

theorem items_moveToEnd (d : Dict κ ν) (k : κ) : items (moveToEnd d k) = items d := by
  unfold moveToEnd
  cases hlookup : d.lookup k with
  | none => rfl
  | some v =>
    rw [items_of_lookup hlookup]
    exact items_setItem_of_notMem fun h => (AList.mem_erase.mp h).1 rfl

theorem mem_iff_of_items {d' : Dict κ ν} (h : items d = items d') : k ∈ d ↔ k ∈ d' := by
  have hlookup (v : ν) : d.lookup k = some v ↔ d'.lookup k = some v := by
    rw [← mem_items, h, mem_items]
  constructor
  · intro hmem
    obtain ⟨v, hv⟩ := exists_lookup hmem
    exact mem_of_lookup ((hlookup v).mp hv)
  · intro hmem
    obtain ⟨v, hv⟩ := exists_lookup hmem
    exact mem_of_lookup ((hlookup v).mpr hv)

@[simp] theorem mem_moveToEnd : k' ∈ moveToEnd d k ↔ k' ∈ d :=
  mem_iff_of_items (items_moveToEnd d k)

end Vllm.Dict
