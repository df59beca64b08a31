import Mathlib.Algebra.BigOperators.Group.Finset.Basic
import Mathlib.Algebra.Order.BigOperators.Group.Finset
import Mathlib.Data.List.Nodup
import Mathlib.Data.Nat.ModEq

/-!
# Spreading evenly

A sequence of choices among `k` places, taken in rounds of `k`.

* `evenlyTaken_prefixes_iff` — it is even at all times exactly if no place is chosen twice in a round.
* `nodup_residues_iff` — and where the choices are the residues of numbers that grow, this is to say that
  `k` divides no difference of two of them.
-/

set_option autoImplicit false

namespace EvenSpread

variable {k n x : ℕ} {l p : List ℕ}

/-- No place is chosen more often than another, save for once. -/
def EvenlyTaken (k : ℕ) (l : List ℕ) : Prop := ∀ i < k, ∀ j < k, l.count i ≤ l.count j + 1

instance (k : ℕ) (l : List ℕ) : Decidable (EvenlyTaken k l) :=
  inferInstanceAs (Decidable (∀ i < k, ∀ j < k, l.count i ≤ l.count j + 1))

/-- The choices of a round. -/
def roundOf {α : Type*} (k n : ℕ) (l : List α) : List α := (l.drop (k * n)).take k

theorem roundOf_map {α β : Type*} (f : α → β) (l : List α) : roundOf k n (l.map f) = (roundOf k n l).map f := by
  rw [roundOf, roundOf, List.map_take, List.map_drop]

theorem roundOf_succ {α : Type*} (l : List α) : roundOf k (n + 1) l = roundOf k n (l.drop k) := by
  rw [roundOf, roundOf, List.drop_drop, Nat.mul_succ, Nat.add_comm k]

theorem mem_of_mem_roundOf {α : Type*} {l : List α} {a : α} (h : a ∈ roundOf k n l) : a ∈ l :=
  List.mem_of_mem_drop (List.mem_of_mem_take h)

/-! ## Counting -/

theorem sum_count (hl : ∀ x ∈ l, x < k) : ∑ x ∈ Finset.range k, l.count x = l.length := by
  have hsum := @Multiset.sum_count_eq_card ℕ _ (Finset.range k) (l : Multiset ℕ)
    (fun x hx => Finset.mem_range.2 (hl x hx))
  simpa using hsum

/-- In an even sequence of at most `n` rounds every place is chosen `n` times at most. -/
theorem EvenlyTaken.count_le (h : EvenlyTaken k l) (hl : ∀ x ∈ l, x < k) (hx : x < k)
    (hlen : l.length ≤ k * n) : l.count x ≤ n := by
  by_contra hgt
  have hlt : ∑ _y ∈ Finset.range k, n < ∑ y ∈ Finset.range k, l.count y := by
    refine Finset.sum_lt_sum (fun y hy => ?_) ⟨x, Finset.mem_range.2 hx, Nat.lt_of_not_le hgt⟩
    have := h x hx y (Finset.mem_range.1 hy)
    omega
  rw [sum_count hl, Finset.sum_const_nat fun _ _ => rfl, Finset.card_range] at hlt
  omega

/-- In an even sequence of at least `n` rounds every place is chosen `n` times at least. -/
theorem EvenlyTaken.le_count (h : EvenlyTaken k l) (hl : ∀ x ∈ l, x < k) (hx : x < k)
    (hlen : k * n ≤ l.length) : n ≤ l.count x := by
  by_contra hlt
  have hgt : ∑ y ∈ Finset.range k, l.count y < ∑ _y ∈ Finset.range k, n := by
    refine Finset.sum_lt_sum (fun y hy => ?_) ⟨x, Finset.mem_range.2 hx, Nat.lt_of_not_le hlt⟩
    have := h y (Finset.mem_range.1 hy) x hx
    omega
  rw [sum_count hl, Finset.sum_const_nat fun _ _ => rfl, Finset.card_range] at hgt
  omega

/-- A round in which no place is chosen twice chooses each of them. -/
theorem count_full (hl : ∀ x ∈ l, x < k) (hnodup : l.Nodup) (hlen : l.length = k) (hx : x < k) :
    l.count x = 1 := by
  have hsub : l.Subperm (List.range k) :=
    List.subperm_of_subset hnodup fun y hy => List.mem_range.2 (hl y hy)
  have hperm := hsub.perm_of_length_le (by rw [List.length_range, hlen])
  rw [hperm.count_eq]
  exact List.count_eq_one_of_mem List.nodup_range (List.mem_range.2 hx)

/-! ## Rounds -/

/-- **Where no place is chosen twice in a round, every place is chosen once in each round that is over.** -/
theorem count_of_rounds (hk : 0 < k) (hl : ∀ x ∈ l, x < k) (h : ∀ n, (roundOf k n l).Nodup) (hx : x < k) :
    l.length / k ≤ l.count x ∧ l.count x ≤ l.length / k + 1 := by
  induction hm : l.length using Nat.strong_induction_on generalizing l with
  | _ m ih =>
    subst hm
    have hfirst := h 0
    rw [roundOf, Nat.mul_zero, List.drop_zero] at hfirst
    rcases Nat.lt_or_ge l.length k with hlt | hge
    · rw [List.take_of_length_le hlt.le] at hfirst
      rw [Nat.div_eq_of_lt hlt]
      exact ⟨Nat.zero_le _, List.nodup_iff_count_le_one.1 hfirst x⟩
    · -- the first round is over, and the others are those of the rest
      have hone : (l.take k).count x = 1 := count_full (fun y hy => hl y (List.mem_of_mem_take hy)) hfirst
        (by rw [List.length_take, Nat.min_eq_left hge]) hx
      have hrest := ih (l.drop k).length (by rw [List.length_drop]; omega)
        (fun y hy => hl y (List.mem_of_mem_drop hy)) (fun n => roundOf_succ l ▸ h (n + 1)) rfl
      have hcount : l.count x = (l.take k).count x + (l.drop k).count x := by
        rw [← List.count_append, List.take_append_drop]
      have hdiv := Nat.add_div_left (l.length - k) hk
      rw [Nat.add_sub_cancel' hge] at hdiv
      rw [List.length_drop] at hrest
      omega

theorem evenlyTaken_of_rounds (hk : 0 < k) (hl : ∀ x ∈ l, x < k) (h : ∀ n, (roundOf k n l).Nodup) :
    EvenlyTaken k l := by
  intro i hi j hj
  have hle := (count_of_rounds hk hl h hi).2
  have hge := (count_of_rounds hk hl h hj).1
  omega

/-- The rounds of a beginning are beginnings of the rounds. -/
theorem roundOf_isPrefix (h : p <+: l) : roundOf k n p <+: roundOf k n l :=
  (h.drop _).take _

/-- **A sequence is even at all times exactly if no place is chosen twice in a round.** -/
theorem evenlyTaken_prefixes_iff (hk : 0 < k) (hl : ∀ x ∈ l, x < k) :
    (∀ p, p <+: l → EvenlyTaken k p) ↔ ∀ n, (roundOf k n l).Nodup := by
  constructor
  · intro h n
    rw [List.nodup_iff_count_le_one]
    intro x
    by_contra htwo
    have hmem : x ∈ roundOf k n l := List.count_pos_iff.1 (by omega)
    have hx := hl x (mem_of_mem_roundOf hmem)
    have hstart : k * n ≤ (l.take (k * n)).length := by
      have hne : l.drop (k * n) ≠ [] := List.ne_nil_of_mem (List.mem_of_mem_take hmem)
      rw [Ne, List.drop_eq_nil_iff] at hne
      rw [List.length_take]
      omega
    have hbefore := (h _ (List.take_prefix (k * n) l)).le_count
      (fun y hy => hl y (List.mem_of_mem_take hy)) hx hstart
    have hbehind := (h _ (List.take_prefix (k * n + k) l)).count_le
      (fun y hy => hl y (List.mem_of_mem_take hy)) hx
      (show _ ≤ k * (n + 1) by rw [Nat.mul_succ]; exact List.length_take_le _ _)
    rw [List.take_add, List.count_append, ← roundOf] at hbehind
    omega
  · intro h p hp
    exact evenlyTaken_of_rounds hk (fun x hx => hl x (hp.subset hx))
      fun n => (h n).sublist (roundOf_isPrefix hp).sublist

/-! ## Residues -/

/-- **The residues of numbers that grow are different exactly if `k` divides no difference of two.** -/
theorem nodup_residues_iff (hl : l.Pairwise (· < ·)) (c : ℕ) :
    (l.map fun t => (c + t) % k).Nodup ↔ l.Pairwise fun s t => ¬ k ∣ t - s := by
  have hiff : ∀ {s t : ℕ}, s < t → ((c + s) % k ≠ (c + t) % k ↔ ¬ k ∣ t - s) := fun {s t} hst => by
    have hdvd := Nat.modEq_iff_dvd' (n := k) (Nat.add_le_add_left hst.le c)
    rw [Nat.add_sub_add_left] at hdvd
    exact not_congr hdvd
  rw [List.Nodup, List.pairwise_map]
  exact ⟨fun h => (h.and hl).imp fun hst => (hiff hst.2).1 hst.1,
    fun h => (h.and hl).imp fun hst => (hiff hst.2).2 hst.1⟩

end EvenSpread
