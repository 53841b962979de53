import Mathlib

/-! Chained digests over arbitrary item and digest types. A chain feeds every
digest into the next one, so that under a collision-free step one digest fixes
the whole list of items behind it. -/
namespace HashChain

variable {ι κ : Type*}

/-- The digest of a whole list, starting from a seed. -/
def digest (step : κ → ι → κ) (seed : κ) (items : List ι) : κ := items.foldl step seed

/-- All digests of the non-empty prefixes, shortest first. -/
def digests (step : κ → ι → κ) : κ → List ι → List κ
  | _, [] => []
  | seed, x :: xs => step seed x :: digests step (step seed x) xs

section
variable (step : κ → ι → κ)
include step

variable (seed : κ) (xs : List ι)

@[simp] theorem digest_nil (seed : κ) : digest step seed [] = seed := rfl

@[simp] theorem digest_cons (seed : κ) (x : ι) (xs : List ι) :
    digest step seed (x :: xs) = digest step (step seed x) xs := rfl

theorem digest_concat (x : ι) : digest step seed (xs ++ [x]) = step (digest step seed xs) x := by
  simp [digest]

@[simp] theorem digests_nil (seed : κ) : digests step seed [] = [] := rfl

@[simp] theorem digests_length (seed : κ) (xs : List ι) : (digests step seed xs).length = xs.length := by
  induction xs generalizing seed with
  | nil => rfl
  | cons x xs ih => simp [digests, ih]

theorem digests_append (xs ys : List ι) : digests step seed (xs ++ ys) =
      digests step seed xs ++ digests step (digest step seed xs) ys := by
  induction xs generalizing seed with
  | nil => rfl
  | cons x xs ih => simp [digests, ih]

/-- The last digest, or the seed for an empty chain, is the digest of the whole list. -/
theorem digests_getLastD : (digests step seed xs).getLastD seed = digest step seed xs := by
  induction xs using List.reverseRecOn with
  | nil => rfl
  | append_singleton xs x ih =>
    rw [digests_append, digest_concat]
    simp [digests]

theorem digests_getElem? (i : Nat) (hi : i < xs.length) :
    (digests step seed xs)[i]? = some (digest step seed (xs.take (i + 1))) := by
  induction xs generalizing seed i with
  | nil => simp at hi
  | cons x xs ih =>
    cases i with
    | zero => simp [digests]
    | succ i =>
      have hi' : i < xs.length := by simpa using hi
      simpa [digests] using ih (step seed x) i hi'

end

/-- A step that never merges two inputs and never returns to the seed. -/
structure CollisionFree (step : κ → ι → κ) (seed : κ) : Prop where
  step_inj : ∀ {a b x y}, step a x = step b y → a = b ∧ x = y
  step_ne_seed : ∀ a x, step a x ≠ seed

theorem CollisionFree.digest_inj {step : κ → ι → κ} {seed : κ} (free : CollisionFree step seed)
    {xs ys : List ι} (same : digest step seed xs = digest step seed ys) : xs = ys := by
  induction xs using List.reverseRecOn generalizing ys with
  | nil =>
    cases ys using List.reverseRecOn with
    | nil => rfl
    | append_singleton ys y =>
      rw [digest_concat] at same
      exact absurd same.symm (free.step_ne_seed _ _)
  | append_singleton xs x ih =>
    cases ys using List.reverseRecOn with
    | nil =>
      rw [digest_concat] at same
      exact absurd same (free.step_ne_seed _ _)
    | append_singleton ys y =>
      rw [digest_concat, digest_concat] at same
      obtain ⟨hinit, hlast⟩ := free.step_inj same
      rw [ih hinit, hlast]

end HashChain
