import Mathlib.Algebra.BigOperators.Ring.Finset
import Mathlib.Algebra.Order.BigOperators.Group.Finset
import Mathlib.Algebra.Order.Group.Int
import Mathlib.Algebra.Ring.Int.Defs
import Mathlib.Tactic.Linarith
import Mathlib.Tactic.Ring

/-!
# Smooth weighted round robin

Everyone has a weight and an account.  In a round everyone is given their weight, and someone who then
has most is picked and pays the sum of all weights.

* `Rounds.account_eq` — what is in an account behind some rounds is a matter of how often its owner was
  picked.
* `Rounds.neg_total_lt` — no account is ever down by the sum of the weights.
* `Rounds.count_eq` — so in as many rounds as the sum of the weights, each is picked as often as their
  weight says.
-/

set_option autoImplicit false

namespace SmoothRoundRobin

variable {ι : Type*} [DecidableEq ι] {s : Finset ι} {w c c' : ι → ℤ} {i : ι} {picks : List ι}

/-- A round in which `i` is picked. -/
structure Round (s : Finset ι) (w c : ι → ℤ) (i : ι) (c' : ι → ℤ) : Prop where
  mem : i ∈ s
  most : ∀ j ∈ s, c j + w j ≤ c i + w i
  pays : ∀ j ∈ s, c' j = c j + w j - if j = i then ∑ k ∈ s, w k else 0

/-- Rounds one after the other, and who is picked in them. -/
inductive Rounds (s : Finset ι) (w c : ι → ℤ) : List ι → (ι → ℤ) → Prop
  | nil : Rounds s w c [] c
  | concat {picks : List ι} {d d' : ι → ℤ} {i : ι} (hs : Rounds s w c picks d)
    (h : Round s w d i d') : Rounds s w c (picks ++ [i]) d'

/-- A round moves what there is, and adds nothing. -/
theorem Round.sum_eq (h : Round s w c i c') : ∑ j ∈ s, c' j = ∑ j ∈ s, c j := by
  have hpays : ∑ j ∈ s, c' j = ∑ j ∈ s, (c j + w j - if j = i then ∑ k ∈ s, w k else 0) :=
    Finset.sum_congr rfl h.pays
  rw [hpays, Finset.sum_sub_distrib, Finset.sum_add_distrib, Finset.sum_ite_eq' s i, if_pos h.mem,
    add_sub_cancel_right]

theorem Rounds.sum_eq (h : Rounds s w c picks c') : ∑ j ∈ s, c' j = ∑ j ∈ s, c j := by
  induction h with
  | nil => rfl
  | concat _ h ih => rw [h.sum_eq, ih]

/-- Who has most has something, if there is something to have. -/
theorem Round.pos (h : Round s w c i c') (hsum : ∑ j ∈ s, c j = 0) (hpos : 0 < ∑ j ∈ s, w j) :
    0 < c i + w i := by
  by_contra hle
  have hnonpos : ∑ j ∈ s, (c j + w j) ≤ 0 :=
    Finset.sum_nonpos fun j hj => (h.most j hj).trans (not_lt.1 hle)
  rw [Finset.sum_add_distrib, hsum] at hnonpos
  linarith

/-- **No account is ever down by the sum of the weights**: who pays it had something before. -/
theorem Rounds.neg_total_lt (h : Rounds s w c picks c') (hw : ∀ j ∈ s, 0 ≤ w j)
    (hpos : 0 < ∑ j ∈ s, w j) (hsum : ∑ j ∈ s, c j = 0) (hc : ∀ j ∈ s, -∑ k ∈ s, w k < c j) :
    ∀ j ∈ s, -∑ k ∈ s, w k < c' j := by
  induction h with
  | nil => exact hc
  | concat hs h ih =>
    intro j hj
    have hj' := ih j hj
    have hwj := hw j hj
    rw [h.pays j hj]
    split_ifs with hji
    · have := h.pos (hs.sum_eq.trans hsum) hpos
      rw [hji]
      linarith
    · linarith

/-- What is in an account behind some rounds. -/
theorem Rounds.account_eq (h : Rounds s w c picks c') : ∀ j ∈ s,
    c' j = c j + picks.length * w j - picks.count j * ∑ k ∈ s, w k := by
  induction h with
  | nil => simp
  | @concat picks d d' i _ h ih =>
    intro j hj
    rw [h.pays j hj, ih j hj, List.length_append, List.length_singleton, List.count_append,
      List.count_singleton]
    split_ifs with hji hij hij
    · push_cast
      ring
    · exact absurd (by rw [hji, beq_self_eq_true]) hij
    · exact absurd (beq_iff_eq.1 hij).symm hji
    · push_cast
      ring

theorem Rounds.mem_of_mem (h : Rounds s w c picks c') : ∀ j ∈ picks, j ∈ s := by
  induction h with
  | nil => exact fun j hj => absurd hj List.not_mem_nil
  | concat _ h ih =>
    intro j hj
    rcases List.mem_append.1 hj with hj | hj
    · exact ih j hj
    · rw [List.mem_singleton.1 hj]
      exact h.mem

/-- Every round picks someone. -/
theorem Rounds.sum_count (h : Rounds s w c picks c') : ∑ j ∈ s, picks.count j = picks.length := by
  have hmem := h.mem_of_mem
  rw [← List.sum_toFinset_count_eq_length]
  refine (Finset.sum_subset (fun j hj => hmem j (List.mem_toFinset.1 hj)) fun j _ hj => ?_).symm
  exact List.count_eq_zero.2 fun hj' => hj (List.mem_toFinset.2 hj')

/-- **A full cycle**: in as many rounds as the sum of the weights, each is picked as often as their weight
says. -/
theorem Rounds.count_eq (h : Rounds s w c picks c') (hw : ∀ j ∈ s, 0 ≤ w j)
    (hc : ∀ j ∈ s, c j = 0) (hlen : picks.length = ∑ j ∈ s, w j) :
    ∀ j ∈ s, picks.count j = w j := by
  have hsum : ∑ j ∈ s, c j = 0 := Finset.sum_eq_zero hc
  -- nobody is picked more often
  have hle : ∀ j ∈ s, (picks.count j : ℤ) ≤ w j := by
    intro j hj
    by_cases hpos : 0 < ∑ k ∈ s, w k
    · have hlow := h.neg_total_lt hw hpos hsum (fun k hk => by rw [hc k hk]; linarith) j hj
      rw [h.account_eq j hj, hc j hj, hlen] at hlow
      by_contra hlt
      have : (∑ k ∈ s, w k) * (w j + 1) ≤ (∑ k ∈ s, w k) * picks.count j :=
        mul_le_mul_of_nonneg_left (not_le.1 hlt) hpos.le
      linarith
    · have hzero : picks.length = 0 := by
        have := not_lt.1 hpos
        rw [← hlen] at this
        omega
      rw [List.length_eq_zero_iff.1 hzero, List.count_nil]
      exact hw j hj
  have htotal : ∑ j ∈ s, (picks.count j : ℤ) = ∑ j ∈ s, w j := by
    rw [← hlen, ← h.sum_count]
    push_cast
    rfl
  exact (Finset.sum_eq_sum_iff_of_le hle).1 htotal

/-- And all accounts are as they were. -/
theorem Rounds.account_eq_zero (h : Rounds s w c picks c') (hw : ∀ j ∈ s, 0 ≤ w j)
    (hc : ∀ j ∈ s, c j = 0) (hlen : picks.length = ∑ j ∈ s, w j) : ∀ j ∈ s, c' j = 0 := by
  intro j hj
  rw [h.account_eq j hj, hc j hj, h.count_eq hw hc hlen j hj, hlen]
  ring

end SmoothRoundRobin
