import Mathlib.Data.List.FinRange
import Mathlib.Logic.Function.Basic

/-!
# Tables of chains

A hash table with a chain for each bucket, as a function from the buckets to lists.  `contents` are
the entries in the order in which a walk through the buckets meets them; what is in a table is said
up to that order.
-/

set_option autoImplicit false

namespace Buckets

variable {n : Nat} {α : Type*} {f : Fin n → List α}

/-- The entries of all chains. -/
def contents (f : Fin n → List α) : List α := (List.finRange n).flatMap f

theorem mem_contents_iff {a : α} : a ∈ contents f ↔ ∃ i, a ∈ f i := by
  rw [contents, List.mem_flatMap]
  exact exists_congr fun i => and_iff_right (List.mem_finRange i)

private theorem flatMap_update_perm {ι : Type*} [DecidableEq ι] (f : ι → List α) {i : ι} {a : α}
    {chain : List α} (hchain : chain.Perm (a :: f i)) {l : List ι} (hnodup : l.Nodup) (h : i ∈ l) :
    (l.flatMap (Function.update f i chain)).Perm (a :: l.flatMap f) := by
  induction l with
  | nil => cases h
  | cons j l ih =>
    rw [List.nodup_cons] at hnodup
    rw [List.flatMap_cons, List.flatMap_cons]
    by_cases hj : j = i
    · subst hj
      have hrest : l.flatMap (Function.update f j chain) = l.flatMap f := by
        rw [List.flatMap_congr]
        intro k hk
        have hkj : k ≠ j := fun he => hnodup.1 (by rwa [he] at hk)
        rw [Function.update_of_ne hkj]
      rw [Function.update_self, hrest]
      exact hchain.append_right _
    · rw [Function.update_of_ne hj]
      have ih := ih hnodup.2 ((List.mem_cons.1 h).resolve_left fun he => hj he.symm)
      exact (ih.append_left (f j)).trans List.perm_middle

/-- **An entry more in a chain** is an entry more in the table. -/
theorem contents_update_perm {i : Fin n} {a : α} {chain : List α} (h : chain.Perm (a :: f i)) :
    (contents (Function.update f i chain)).Perm (a :: contents f) :=
  flatMap_update_perm f h (List.nodup_finRange n) (List.mem_finRange i)

end Buckets
