import Mathlib.Algebra.BigOperators.Group.List.Basic
import Mathlib.Algebra.GroupWithZero.Nat
import Mathlib.Data.List.Infix
import Mathlib.Tactic.SplitIfs

/-!
# Filling a room greedily

Items are put into a room one after another.  An item for which there is no room left is passed
over, and the next one is tried.

* `fill_isPrefix_iff` — what is kept is the beginning of the list if and only if no item behind the
  first that is passed over would have had room in its place.
-/

set_option autoImplicit false

namespace GreedyFill

variable {α : Type*} (w : α → ℕ)

/-- The items that are kept. -/
def fill : ℕ → List α → List α
  | _, [] => []
  | room, c :: s => if w c ≤ room then c :: fill (room - w c) s else fill room s

/-- The room that items take. -/
def weight (s : List α) : ℕ := (s.map w).sum

/-- Behind the first item that is passed over, there is none for which there would be room. -/
def Stops (room : ℕ) (s : List α) : Prop :=
  ∀ a c b, s = a ++ c :: b → weight w a ≤ room → room < weight w a + w c →
    ∀ d ∈ b, room < weight w a + w d

variable {w} {room : ℕ} {a b s : List α} {c : α}

@[simp] theorem weight_nil : weight w [] = 0 := rfl

@[simp] theorem weight_cons : weight w (c :: s) = w c + weight w s := by simp [weight]

@[simp] theorem weight_append : weight w (a ++ b) = weight w a + weight w b := by simp [weight]

theorem weight_fill_le (room : ℕ) (s : List α) : weight w (fill w room s) ≤ room := by
  induction s generalizing room with
  | nil => simp [fill]
  | cons c s ih =>
    rw [fill]
    split_ifs with hc
    · have := ih (room - w c)
      rw [weight_cons]
      omega
    · exact ih room

theorem fill_append (h : weight w a ≤ room) (b : List α) :
    fill w room (a ++ b) = a ++ fill w (room - weight w a) b := by
  induction a generalizing room with
  | nil => simp
  | cons c a ih =>
    rw [weight_cons] at h
    rw [List.cons_append, fill, if_pos (by omega), ih (by omega), weight_cons, List.cons_append,
      Nat.sub_sub]

/-- Where there is room for all of them, all are kept. -/
theorem fill_eq_self (h : weight w s ≤ room) : fill w room s = s := by
  simpa [fill] using fill_append h []

theorem fill_eq_nil_iff : fill w room s = [] ↔ ∀ d ∈ s, room < w d := by
  induction s with
  | nil => simp [fill]
  | cons c s ih =>
    rw [fill, List.forall_mem_cons, ← ih]
    split_ifs with hc
    · simp [Nat.not_lt.2 hc]
    · simp [Nat.lt_of_not_le hc]

/-- The first item for which there is no room. -/
theorem exists_first_over (h : room < weight w s) :
    ∃ a c b, s = a ++ c :: b ∧ weight w a ≤ room ∧ room < weight w a + w c := by
  induction s generalizing room with
  | nil => simp at h
  | cons c s ih =>
    rw [weight_cons] at h
    by_cases hc : w c ≤ room
    · obtain ⟨a, d, b, rfl, hle, hlt⟩ := @ih (room - w c) (by omega)
      exact ⟨c :: a, d, b, rfl, by rw [weight_cons]; omega, by rw [weight_cons]; omega⟩
    · exact ⟨[], c, s, rfl, Nat.zero_le _, by simpa using hc⟩

theorem fill_over (h : weight w a ≤ room) (hc : room < weight w a + w c) (b : List α) :
    fill w room (a ++ c :: b) = a ++ fill w (room - weight w a) b := by
  rw [fill_append h, fill, if_neg (by omega)]

/-- Items that are kept and begin the list leave out what is passed over. -/
theorem fill_isPrefix_over_iff (h : weight w a ≤ room) (hc : room < weight w a + w c) (b : List α) :
    fill w room (a ++ c :: b) <+: a ++ c :: b ↔ fill w (room - weight w a) b = [] := by
  rw [fill_over h hc, List.prefix_append_right_inj]
  constructor
  · intro hp
    have hle := weight_fill_le (w := w) (room - weight w a) b
    cases hfill : fill w (room - weight w a) b with
    | nil => rfl
    | cons d t =>
      rw [hfill] at hp hle
      obtain ⟨rfl, -⟩ := List.cons_prefix_cons.1 hp
      rw [weight_cons] at hle
      omega
  · intro hfill
    rw [hfill]
    exact List.nil_prefix

/-- **What is kept begins the list** if and only if nothing fits behind the first item that does
not. -/
theorem fill_isPrefix_iff : fill w room s <+: s ↔ Stops w room s := by
  constructor
  · rintro hp a c b rfl hle hlt d hd
    have := fill_eq_nil_iff.1 ((fill_isPrefix_over_iff hle hlt b).1 hp) d hd
    omega
  · intro hstops
    by_cases hfits : weight w s ≤ room
    · rw [fill_eq_self hfits]
    · obtain ⟨a, c, b, rfl, hle, hlt⟩ := exists_first_over (Nat.lt_of_not_le hfits)
      rw [fill_isPrefix_over_iff hle hlt, fill_eq_nil_iff]
      intro d hd
      have := hstops a c b rfl hle hlt d hd
      omega

end GreedyFill
