import Mathlib.Data.Finset.Card
import Mathlib.Data.Fintype.EquivFin
import Mathlib.Order.Interval.Finset.Nat

/-!
# The lowest free number

Numbers are handed out the way a kernel hands out descriptors: the lowest one that is not in use.

* `lowestFree_lt_iff` — it is below a bound just when some number below the bound is free.
* `lowestFree_le_card` — it is at most how many are in use.
-/

set_option autoImplicit false

/-- The lowest number that is not in use. -/
def lowestFree (used : Finset ℕ) : ℕ := Nat.find (Infinite.exists_notMem_finset used)

variable {used : Finset ℕ} {n : ℕ}

theorem lowestFree_notMem (used : Finset ℕ) : lowestFree used ∉ used :=
  Nat.find_spec (Infinite.exists_notMem_finset used)

theorem lowestFree_le (h : n ∉ used) : lowestFree used ≤ n := Nat.find_min' _ h

theorem lowestFree_lt_iff : lowestFree used < n ↔ ∃ k < n, k ∉ used := Nat.find_lt_iff _ _

/-- All numbers below it are in use. -/
theorem range_lowestFree_subset (used : Finset ℕ) : Finset.range (lowestFree used) ⊆ used := by
  intro k hk
  by_contra hfree
  exact absurd (lowestFree_le hfree) (not_le.2 (Finset.mem_range.1 hk))

theorem lowestFree_le_card (used : Finset ℕ) : lowestFree used ≤ used.card := by
  simpa only [Finset.card_range] using Finset.card_le_card (range_lowestFree_subset used)

@[simp] theorem lowestFree_range (n : ℕ) : lowestFree (Finset.range n) = n := by
  refine le_antisymm (lowestFree_le Finset.notMem_range_self) ?_
  by_contra hlt
  exact lowestFree_notMem _ (Finset.mem_range.2 (not_le.1 hlt))
