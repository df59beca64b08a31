import Mathlib.Data.Set.Finite.Basic
import Mathlib.Logic.Relation

/-!
# Who waits for whom

A relation `W a b` says that `a` waits for `b`.  Some wait in a circle if a set of them waits for none
but one another (`Circular`): then nobody in the set goes on.

* `circular_of_finite` — finitely many that wait for none but one another.
* `AddsEdge.circular_iff` — one that begins to wait closes a circle exactly if the one it waits for is
  waiting for it already, directly or through others.
-/

set_option autoImplicit false

variable {α : Type*} {W W' : α → α → Prop}

/-- **A circular wait**: some wait for none but one another. -/
def Circular (W : α → α → Prop) : Prop :=
  ∃ S : Finset α, S.Nonempty ∧ ∀ a ∈ S, ∃ b ∈ S, W a b

/-- Where fewer wait, fewer wait in a circle. -/
theorem Circular.mono (hW : ∀ a b, W a b → W' a b) (h : Circular W) : Circular W' := by
  obtain ⟨S, hne, hS⟩ := h
  refine ⟨S, hne, fun a ha => ?_⟩
  obtain ⟨b, hb, hab⟩ := hS a ha
  exact ⟨b, hb, hW a b hab⟩

/-- Those that wait are finitely many, and each waits for another of them. -/
theorem circular_of_finite {P : α → Prop} (hfinite : {a | P a}.Finite) {a : α} (ha : P a)
    (hP : ∀ a, P a → ∃ b, P b ∧ W a b) : Circular W := by
  refine ⟨hfinite.toFinset, ⟨a, hfinite.mem_toFinset.2 ha⟩, fun b hb => ?_⟩
  obtain ⟨c, hc, hbc⟩ := hP b (hfinite.mem_toFinset.1 hb)
  exact ⟨c, hfinite.mem_toFinset.2 hc, hbc⟩

/-- In `W'`, `a` waits for `b` and for no other; the others wait as they do in `W`. -/
structure AddsEdge (W W' : α → α → Prop) (a b : α) : Prop where
  new : ∀ c, W' a c ↔ c = b
  old : ∀ x, x ≠ a → ∀ c, W' x c ↔ W x c

/-- Those on a way to `a` wait for one another. -/
theorem exists_finset_of_reflTransGen {a b : α} (h : Relation.ReflTransGen W b a) :
    ∃ S : Finset α, b ∈ S ∧ a ∈ S ∧ ∀ x ∈ S, x ≠ a → ∃ y ∈ S, W x y := by
  classical
  induction h using Relation.ReflTransGen.head_induction_on with
  | refl =>
    refine ⟨{a}, Finset.mem_singleton_self a, Finset.mem_singleton_self a, fun x hx hne => ?_⟩
    exact absurd (Finset.mem_singleton.1 hx) hne
  | @head b c hbc _ ih =>
    obtain ⟨S, hc, ha, hS⟩ := ih
    refine ⟨insert b S, Finset.mem_insert_self b S, Finset.mem_insert_of_mem ha, fun x hx hne => ?_⟩
    obtain rfl | hx := Finset.mem_insert.1 hx
    · exact ⟨c, Finset.mem_insert_of_mem hc, hbc⟩
    · obtain ⟨y, hy, hxy⟩ := hS x hx hne
      exact ⟨y, Finset.mem_insert_of_mem hy, hxy⟩

/-- **One that begins to wait closes a circle exactly if it is waited for by the one it waits for**,
directly or through others. -/
theorem AddsEdge.circular_iff {a b : α} (h : AddsEdge W W' a b) (hacyclic : ¬ Circular W) :
    Circular W' ↔ Relation.ReflTransGen W b a := by
  classical
  constructor
  · rintro ⟨S, hne, hS⟩
    by_contra hway
    have hold : ∀ x ∈ S, x ≠ a → ∃ y ∈ S, W x y := fun x hx hxa => by
      obtain ⟨y, hy, hxy⟩ := hS x hx
      exact ⟨y, hy, (h.old x hxa y).1 hxy⟩
    by_cases ha : a ∈ S
    · -- those that `b` waits for, directly or through others, are a circle without `a`
      obtain ⟨c, hc, hac⟩ := hS a ha
      obtain rfl := (h.new c).1 hac
      refine hacyclic ⟨S.filter (Relation.ReflTransGen W c), ⟨c, Finset.mem_filter.2 ⟨hc, .refl⟩⟩,
        fun x hx => ?_⟩
      obtain ⟨hx, hcx⟩ := Finset.mem_filter.1 hx
      have hxa : x ≠ a := by
        rintro rfl
        exact hway hcx
      obtain ⟨y, hy, hxy⟩ := hold x hx hxa
      exact ⟨y, Finset.mem_filter.2 ⟨hy, hcx.tail hxy⟩, hxy⟩
    · refine hacyclic ⟨S, hne, fun x hx => hold x hx ?_⟩
      rintro rfl
      exact ha hx
  · intro hway
    obtain ⟨S, hb, ha, hS⟩ := exists_finset_of_reflTransGen hway
    refine ⟨S, ⟨a, ha⟩, fun x hx => ?_⟩
    by_cases hxa : x = a
    · exact ⟨b, hb, hxa ▸ (h.new b).2 rfl⟩
    · obtain ⟨y, hy, hxy⟩ := hS x hx hxa
      exact ⟨y, hy, (h.old x hxa y).2 hxy⟩
