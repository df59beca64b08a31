import Mathlib.Data.List.Rotate
import Mathlib.Data.Nat.Count

/-!
# Scanning a ring

The places `0 … n - 1`, some of which are members.  A counter runs over the places and around the end,
and stops behind the first member it meets.

* `members` — the members in the order of their places.
* `passed` — how many members lie below a counter.  A turn around the ring passes each of them once
  (`passed_add_size`), and the member a counter stops at is the one with the number of those it has passed
  (`getElem?_members`).
* `perm_of_cyclic` — what takes the members one after the other takes each of them once in a turn.
-/

set_option autoImplicit false

namespace CyclicScan

variable {n c : ℕ} {p q : ℕ → Bool}

def members (n : ℕ) (p : ℕ → Bool) : List ℕ := (List.range n).filter p

/-- How many members a counter has passed. -/
def passed (n : ℕ) (p : ℕ → Bool) (c : ℕ) : ℕ := Nat.count (fun j => p (j % n) = true) c

theorem mem_members_iff {i : ℕ} : i ∈ members n p ↔ i < n ∧ p i = true := by
  rw [members, List.mem_filter, List.mem_range]

theorem passed_succ_of_mem (h : p (c % n) = true) : passed n p (c + 1) = passed n p c + 1 := by
  rw [passed, Nat.count_succ, if_pos h, passed]

theorem passed_succ_of_notMem (h : p (c % n) = false) : passed n p (c + 1) = passed n p c := by
  rw [passed, Nat.count_succ, if_neg (by simp [h]), Nat.add_zero, passed]

/-- What a counter passes depends on the members only. -/
theorem passed_congr (hn : 0 < n) (h : ∀ i < n, p i = q i) (c : ℕ) : passed n p c = passed n q c := by
  induction c with
  | zero => rfl
  | succ c ih =>
    rw [passed, passed, Nat.count_succ, Nat.count_succ, h _ (Nat.mod_lt c hn)]
    exact congrArg (· + _) ih

/-- The members below a place are those a counter has passed on its first turn. -/
theorem passed_eq_length (hc : c ≤ n) : passed n p c = ((List.range c).filter p).length := by
  induction c with
  | zero => rfl
  | succ c ih =>
    rw [passed, Nat.count_succ, ← passed, ih (Nat.le_of_succ_le hc), List.range_succ, List.filter_append,
      List.length_append, Nat.mod_eq_of_lt hc]
    cases hp : p c <;> simp [hp]

theorem passed_size : passed n p n = (members n p).length := passed_eq_length le_rfl

/-- **A turn around the ring** passes each member once. -/
theorem passed_add_size (c : ℕ) : passed n p (c + n) = passed n p c + (members n p).length := by
  have hshift : Nat.count (fun j => p ((j + n) % n) = true) c = passed n p c := by
    simp only [Nat.add_mod_right, passed]
  rw [passed, Nat.count_add', hshift, ← passed, passed_size]

/-- **The member a counter stops at** has the number of those it has passed, counted around. -/
theorem getElem?_members (hn : 0 < n) (h : p (c % n) = true) :
    (members n p)[passed n p c % (members n p).length]? = some (c % n) := by
  induction c using Nat.strong_induction_on with
  | _ c ih =>
    rcases Nat.lt_or_ge c n with hlt | hge
    · rw [Nat.mod_eq_of_lt hlt] at h ⊢
      obtain ⟨k, rfl⟩ := Nat.exists_eq_add_of_lt hlt
      have hsplit : members (c + k + 1) p = (List.range c).filter p ++
          c :: ((List.range k).map (c + 1 + ·)).filter p := by
        rw [members, show c + k + 1 = c + (k + 1) by omega, List.range_add, List.range_succ_eq_map,
          List.filter_append, List.map_cons, List.filter_cons, if_pos (by simpa using h), List.map_map]
        simp [Function.comp_def, Nat.add_assoc, Nat.add_comm 1]
      have hpassed : passed (c + k + 1) p c = ((List.range c).filter p).length :=
        passed_eq_length (by omega)
      have hbelow : passed (c + k + 1) p c < (members (c + k + 1) p).length := by
        rw [hsplit, hpassed, List.length_append, List.length_cons]
        omega
      rw [Nat.mod_eq_of_lt hbelow, hpassed, hsplit, List.getElem?_append_right le_rfl, Nat.sub_self]
      rfl
    · obtain ⟨d, rfl⟩ := Nat.exists_eq_add_of_le' hge
      rw [Nat.add_mod_right] at h ⊢
      rw [passed_add_size, Nat.add_mod_right]
      exact ih d (by omega) h

/-- **A turn takes each member once**, wherever it begins. -/
theorem perm_of_cyclic {α : Type*} {members : List α} {taken : List (Option α)} (m : ℕ)
    (hlen : taken.length = members.length)
    (h : ∀ k < taken.length, taken[k]? = some members[(m + k) % members.length]?) :
    taken.Perm (members.map some) := by
  have hrotate : taken = (members.rotate m).map some := by
    refine List.ext_getElem? fun k => ?_
    rcases Nat.lt_or_ge k members.length with hk | hk
    · have hpos : (m + k) % members.length < members.length := Nat.mod_lt _ (Nat.zero_lt_of_lt hk)
      rw [h k (hlen ▸ hk), List.getElem?_map, List.getElem?_rotate hk, Nat.add_comm k,
        List.getElem?_eq_getElem hpos, Option.map_some]
    · rw [List.getElem?_eq_none (hlen ▸ hk), List.getElem?_eq_none (by simpa using hk)]
  rw [hrotate]
  exact (List.rotate_perm _ _).map some

end CyclicScan
