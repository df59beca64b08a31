import Mathlib.Algebra.BigOperators.Group.List.Basic
import Mathlib.Data.List.Perm.Basic
import Mathlib.Data.List.Infix

/-!
# Arrays with a count

Entries in the first places of an array.  An entry is written to the place a search has found, or
behind the last one if there is room; it is dropped by moving the last one to its place.

* `dropAt_perm` — what is dropped is the entry at the place, and nothing else.
* `pairwise_writeSlot_iff` — an entry that is written over the first one it clashes with leaves no two
  that clash exactly if it clashes with one at most.
* `exists_sum_map` — what is summed up over the entries changes with one of them.
* `forall_dropSlot_iff` — dropping the first entry of a kind leaves none of it exactly if there was at
  most one.
-/

set_option autoImplicit false

namespace Slots

variable {α β : Type*} {l : List α} {p : α → Bool}

/-- The array after `a[i] = a[--count]`. -/
def dropAt (l : List α) (i : Nat) : List α :=
  match l.getLast? with
  | none => l
  | some last => (l.set i last).dropLast

/-- An entry is dropped if the search has found one. -/
def dropSlot (slot : Option Nat) (l : List α) : List α :=
  match slot with
  | none => l
  | some i => dropAt l i

/-- An entry is written to the place that the search has found, or to the end. -/
def writeSlot (slot : Option Nat) (room : Bool) (a : α) (l : List α) : List α :=
  match slot with
  | some i => l.set i a
  | none => if room then l ++ [a] else l

theorem dropAt_concat (l : List α) (i : Nat) (last : α) :
    dropAt (l ++ [last]) i = if i < l.length then l.set i last else l := by
  rw [dropAt, List.getLast?_concat]
  simp only
  split
  · rename_i hi
    rw [List.set_append_left _ _ hi, List.dropLast_concat]
  · rename_i hi
    rw [List.set_append_right _ _ (Nat.le_of_not_lt hi)]
    cases i - l.length <;> exact List.dropLast_concat

/-- **Dropping** takes away the entry at the place. -/
theorem dropAt_perm {i : Nat} {a : α} (h : l[i]? = some a) : l.Perm (a :: dropAt l i) := by
  obtain rfl | ⟨init, last, rfl⟩ := List.eq_nil_or_concat l
  · cases h
  rw [List.concat_eq_append] at h ⊢
  rw [dropAt_concat]
  split
  · rename_i hi
    rw [List.getElem?_append_left hi] at h
    obtain ⟨_, rfl⟩ := List.getElem?_eq_some_iff.1 h
    have herase := List.getElem_cons_eraseIdx_perm hi
    calc (init ++ [last]).Perm (last :: init) := List.perm_append_singleton _ _
      _ |>.Perm (last :: init[i] :: init.eraseIdx i) := (herase.symm).cons _
      _ |>.Perm (init[i] :: last :: init.eraseIdx i) := List.Perm.swap _ _ _
      _ |>.Perm (init[i] :: init.set i last) := ((List.set_perm_cons_eraseIdx hi last).symm).cons _
  · rename_i hi
    -- the entry is the last one
    have hlast : last = a := by
      rw [List.getElem?_append_right (Nat.le_of_not_lt hi)] at h
      exact List.mem_singleton.1 (List.mem_of_getElem? h) |>.symm
    rw [← hlast]
    exact List.perm_append_singleton _ _

theorem map_dropAt (f : α → β) (l : List α) (i : Nat) : (dropAt l i).map f = dropAt (l.map f) i := by
  rw [dropAt, dropAt, List.getLast?_map]
  cases l.getLast? with
  | none => rfl
  | some last => simp only [Option.map_some, List.map_dropLast, List.map_set]

theorem map_dropSlot (f : α → β) (slot : Option Nat) (l : List α) :
    (dropSlot slot l).map f = dropSlot slot (l.map f) := by
  cases slot with
  | none => rfl
  | some i => exact map_dropAt f l i

theorem map_writeSlot (f : α → β) (slot : Option Nat) (room : Bool) (a : α) (l : List α) :
    (writeSlot slot room a l).map f = writeSlot slot room (f a) (l.map f) := by
  cases slot with
  | some i => exact List.map_set
  | none => cases room <;> simp [writeSlot]

theorem mem_writeSlot {slot : Option Nat} {room : Bool} {a b : α} (h : b ∈ writeSlot slot room a l) :
    b = a ∨ b ∈ l := by
  cases slot with
  | some i => exact (List.mem_or_eq_of_mem_set h).symm
  | none =>
    rw [writeSlot] at h
    split at h
    · rcases List.mem_append.1 h with h | h
      · exact Or.inr h
      · exact Or.inl (List.mem_singleton.1 h)
    · exact Or.inr h

theorem writeSlot_of_full {slot : Option Nat} {room : Bool} (h : (slot.isSome || room) = false) (a : α)
    (l : List α) : writeSlot slot room a l = l := by
  obtain ⟨hslot, rfl⟩ := Bool.or_eq_false_iff.1 h
  rw [Option.isSome_eq_false_iff, Option.isNone_iff_eq_none] at hslot
  rw [hslot]
  rfl

/-- An entry that is written to the place of the first entry of a kind is the first one of any part of
the kind that it is of. -/
theorem findIdx?_writeSlot {p q : α → Bool} (hqp : ∀ b, q b = true → p b = true) {a : α}
    (ha : q a = true) {room : Bool} (h : ((l.findIdx? p).isSome || room) = true) :
    ∃ i, (writeSlot (l.findIdx? p) room a l).findIdx? q = some i ∧
      (writeSlot (l.findIdx? p) room a l)[i]? = some a := by
  cases hfind : l.findIdx? p with
  | none =>
    rw [hfind] at h
    have hnone : l.findIdx? q = none := List.findIdx?_eq_none_iff.2 fun b hb => by
      by_contra hb'
      have := hqp b (Bool.not_eq_false _ ▸ hb')
      rw [List.findIdx?_eq_none_iff.1 hfind b hb] at this
      cases this
    refine ⟨l.length, ?_, ?_⟩
    · rw [writeSlot, if_pos (by simpa using h), List.findIdx?_append, hnone]
      simp [ha]
    · rw [writeSlot, if_pos (by simpa using h)]
      simp
  | some i =>
    obtain ⟨hi, -, hbefore⟩ := List.findIdx?_eq_some_iff_getElem.1 hfind
    refine ⟨i, List.findIdx?_eq_some_iff_getElem.2 ⟨?_, ?_, fun j hj => ?_⟩, ?_⟩
    · rwa [writeSlot, List.length_set]
    · simpa [writeSlot] using ha
    · have hne : i ≠ j := Nat.ne_of_gt hj
      simp only [writeSlot, List.getElem_set_ne hne]
      intro hq
      exact hbefore j hj (hqp _ hq)
    · rw [writeSlot, List.getElem?_set_self hi]

/-- **What a search and a drop do**: there is no entry of the kind and nothing changes, or the first
one is taken away. -/
theorem dropSlot_findIdx?_cases (p : α → Bool) (l : List α) :
    ((∀ a ∈ l, p a = false) ∧ dropSlot (l.findIdx? p) l = l) ∨
      ∃ i a, l.findIdx? p = some i ∧ l[i]? = some a ∧ p a = true ∧
        l.Perm (a :: dropSlot (l.findIdx? p) l) := by
  cases hfind : l.findIdx? p with
  | none => exact Or.inl ⟨List.findIdx?_eq_none_iff.1 hfind, rfl⟩
  | some i =>
    obtain ⟨hi, hp, -⟩ := List.findIdx?_eq_some_iff_getElem.1 hfind
    have hget : l[i]? = some l[i] := List.getElem?_eq_getElem hi
    exact Or.inr ⟨i, l[i], rfl, hget, hp, dropAt_perm hget⟩

theorem mem_of_mem_dropSlot {slot : Option Nat} {b : α} (h : b ∈ dropSlot slot l) : b ∈ l := by
  cases slot with
  | none => exact h
  | some i =>
    cases hget : l[i]? with
    | some a => exact (dropAt_perm hget).mem_iff.2 (List.mem_cons_of_mem _ h)
    | none =>
      rw [dropSlot, dropAt] at h
      split at h
      · exact h
      · rw [List.set_eq_of_length_le (List.getElem?_eq_none_iff.1 hget)] at h
        exact List.mem_of_mem_dropLast h

/-- **None is left exactly if there was at most one.** -/
theorem forall_dropSlot_iff (p : α → Bool) (l : List α) :
    (∀ a ∈ dropSlot (l.findIdx? p) l, p a = false) ↔ l.countP p ≤ 1 := by
  obtain ⟨hnone, he⟩ | ⟨i, a, -, -, ha, hperm⟩ := dropSlot_findIdx?_cases p l
  · rw [he]
    have hzero : l.countP p = 0 := List.countP_eq_zero.2 fun a ha => by rw [hnone a ha]; decide
    exact iff_of_true hnone (hzero ▸ Nat.zero_le 1)
  · rw [hperm.countP_eq, List.countP_cons_of_pos ha, Nat.succ_le_succ_iff, Nat.le_zero,
      List.countP_eq_zero]
    simp only [Bool.not_eq_true]

/-- **What a search and a write do**: the entry goes behind the others or there is no room, or it takes
the place of the first one of the kind. -/
theorem writeSlot_findIdx?_cases (p : α → Bool) (room : Bool) (a : α) (l : List α) :
    ((∀ b ∈ l, p b = false) ∧
        (writeSlot (l.findIdx? p) room a l = l ++ [a] ∨ writeSlot (l.findIdx? p) room a l = l)) ∨
      ∃ l₁ b l₂, l = l₁ ++ b :: l₂ ∧ (∀ c ∈ l₁, p c = false) ∧ p b = true ∧
        writeSlot (l.findIdx? p) room a l = l₁ ++ a :: l₂ := by
  cases hfind : l.findIdx? p with
  | none =>
    refine Or.inl ⟨List.findIdx?_eq_none_iff.1 hfind, ?_⟩
    cases room
    · exact Or.inr rfl
    · exact Or.inl rfl
  | some i =>
    obtain ⟨hi, hp, hbefore⟩ := List.findIdx?_eq_some_iff_getElem.1 hfind
    refine Or.inr ⟨l.take i, l[i], l.drop (i + 1), ?_, fun c hc => ?_, hp, ?_⟩
    · rw [List.getElem_cons_drop, List.take_append_drop]
    · obtain ⟨j, hj, rfl⟩ := List.mem_take_iff_getElem.1 hc
      exact Bool.not_eq_true _ ▸ hbefore j (by omega)
    · exact List.set_eq_take_append_cons_drop.trans (if_pos hi)

section Pairwise

variable {R : α → α → Prop} (hR : ∀ a b, R a b → R b a)

include hR

theorem pairwise_dropSlot (h : l.Pairwise R) (p : α → Bool) :
    (dropSlot (l.findIdx? p) l).Pairwise R := by
  obtain ⟨-, he⟩ | ⟨i, a, -, -, -, hperm⟩ := dropSlot_findIdx?_cases p l
  · rwa [he]
  · exact ((hperm.pairwise_iff fun {a b} => hR a b).1 h).of_cons

/-- **An entry is written over the first one it clashes with**: no two clash behind it if and only if it
was the only one. -/
theorem pairwise_writeSlot_iff (h : l.Pairwise R) {a : α} (hp : ∀ b, p b = false ↔ R a b) (room : Bool) :
    (writeSlot (l.findIdx? p) room a l).Pairwise R ↔ l.countP p ≤ 1 := by
  obtain ⟨hnone, he⟩ | ⟨l₁, b, l₂, rfl, hbefore, hb, he⟩ := writeSlot_findIdx?_cases p room a l
  · have hzero : l.countP p = 0 := List.countP_eq_zero.2 fun b hb => by simp [hnone b hb]
    refine iff_of_true ?_ (hzero ▸ Nat.zero_le 1)
    rcases he with he | he <;> rw [he]
    · refine List.pairwise_append.2 ⟨h, List.pairwise_singleton _ _, fun b hb c hc => ?_⟩
      rw [List.mem_singleton.1 hc]
      exact hR _ _ ((hp b).1 (hnone b hb))
    · exact h
  · have hzero : l₁.countP p = 0 := List.countP_eq_zero.2 fun c hc => by simp [hbefore c hc]
    have hmiddle := fun x => @List.pairwise_middle _ R (fun {a b} => hR a b) x l₁ l₂
    rw [hmiddle, List.pairwise_cons] at h
    rw [he, hmiddle, List.pairwise_cons, and_iff_left h.2, List.countP_append, List.countP_cons_of_pos hb,
      hzero, Nat.zero_add, Nat.succ_le_succ_iff, Nat.le_zero, List.countP_eq_zero]
    simp only [List.mem_append, Bool.not_eq_true, hp]
    exact ⟨fun hall c hc => hall c (Or.inr hc), fun hall c hc =>
      hc.elim (fun hc => (hp c).1 (hbefore c hc)) (hall c)⟩

end Pairwise

/-! ## Sums over the entries -/

/-- One of the entries and all the others. -/
theorem exists_sum_map {M : Type*} [AddCommMonoid M] (f : α → M) {i : Nat} {a : α}
    (h : l[i]? = some a) : ∃ rest, (l.map f).sum = f a + rest ∧
      (∀ b, ((l.set i b).map f).sum = f b + rest) ∧ ((l.eraseIdx i).map f).sum = rest := by
  obtain ⟨hi, rfl⟩ := List.getElem?_eq_some_iff.1 h
  refine ⟨((l.eraseIdx i).map f).sum, ?_, fun b => ?_, rfl⟩
  · rw [← ((List.getElem_cons_eraseIdx_perm hi).map f).sum_eq, List.map_cons, List.sum_cons]
  · rw [((List.set_perm_cons_eraseIdx hi b).map f).sum_eq, List.map_cons, List.sum_cons]

end Slots
