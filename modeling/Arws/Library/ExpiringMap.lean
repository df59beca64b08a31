import Mathlib.Data.List.Perm.Basic
import Mathlib.Logic.Function.Basic

/-!
# Maps whose entries expire

Every entry of the map has a moment from which on it does not count.  A table that holds the map keeps
each entry until then; it may drop the entry later, at any time.

* `Holds.lookup_eq_some_iff` — what is looked up in the map is what the table has.
* `Holds.insert`, `Holds.erase`, `Holds.drop`, `Holds.later` — what may be done to a table.
-/

set_option autoImplicit false

variable {κ α : Type*}

/-- A value and the moment from which on it does not count, for some keys. -/
abbrev ExpiringMap (κ α : Type*) := κ → Option (α × Nat)

namespace ExpiringMap

def empty : ExpiringMap κ α := fun _ => none

/-- What the map has for a key at a moment. -/
def lookup (m : ExpiringMap κ α) (now : Nat) (k : κ) : Option α :=
  ((m k).filter fun e => now < e.2).map (·.1)

theorem lookup_eq_some_iff {m : ExpiringMap κ α} {now : Nat} {k : κ} {a : α} :
    m.lookup now k = some a ↔ ∃ expiry, m k = some (a, expiry) ∧ now < expiry := by
  simp [lookup, Option.filter_eq_some_iff]

section Change

variable [DecidableEq κ]

def insert (m : ExpiringMap κ α) (k : κ) (a : α) (expiry : Nat) : ExpiringMap κ α :=
  Function.update m k (some (a, expiry))

def erase (m : ExpiringMap κ α) (k : κ) : ExpiringMap κ α := Function.update m k none

end Change

/-- **The entries hold the map**: they are of it, no two of them have one key, and all that count are
there. -/
structure Holds (m : ExpiringMap κ α) (now : Nat) (entries : List (κ × α × Nat)) : Prop where
  nodup : (entries.map (·.1)).Nodup
  of_mem : ∀ e ∈ entries, m e.1 = some e.2
  mem : ∀ k a expiry, m k = some (a, expiry) → now < expiry → (k, a, expiry) ∈ entries

namespace Holds

variable {m : ExpiringMap κ α} {now : Nat} {entries entries' : List (κ × α × Nat)}

theorem empty : Holds (.empty : ExpiringMap κ α) now [] :=
  ⟨List.nodup_nil, fun e he => absurd he List.not_mem_nil, fun k a x h => by cases h⟩

theorem perm (h : Holds m now entries) (hperm : entries'.Perm entries) : Holds m now entries' where
  nodup := (hperm.map _).nodup_iff.2 h.nodup
  of_mem e he := h.of_mem e (hperm.mem_iff.1 he)
  mem k a x hk hx := hperm.mem_iff.2 (h.mem k a x hk hx)

/-- Time passes. -/
theorem later (h : Holds m now entries) {now' : Nat} (hle : now ≤ now') : Holds m now' entries where
  nodup := h.nodup
  of_mem := h.of_mem
  mem k a x hk hx := h.mem k a x hk (Nat.lt_of_le_of_lt hle hx)

/-- Entries whose time is over may be dropped. -/
theorem drop (h : Holds m now entries) (hsub : entries'.Sublist entries)
    (hkept : ∀ e ∈ entries, now < e.2.2 → e ∈ entries') : Holds m now entries' where
  nodup := (hsub.map _).nodup h.nodup
  of_mem e he := h.of_mem e (hsub.subset he)
  mem k a x hk hx := hkept _ (h.mem k a x hk hx) hx

/-- **What is looked up** is what the entries have. -/
theorem lookup_eq_some_iff (h : Holds m now entries) {k : κ} {a : α} :
    m.lookup now k = some a ↔ ∃ expiry, (k, a, expiry) ∈ entries ∧ now < expiry := by
  rw [ExpiringMap.lookup_eq_some_iff]
  constructor
  · rintro ⟨x, hk, hx⟩
    exact ⟨x, h.mem k a x hk hx, hx⟩
  · rintro ⟨x, hmem, hx⟩
    exact ⟨x, h.of_mem _ hmem, hx⟩

section Change

variable [DecidableEq κ]

/-- A key that is not there is added. -/
theorem insert (h : Holds m now entries) {k : κ} (hk : k ∉ entries.map (·.1)) (a : α) (expiry : Nat) :
    Holds (m.insert k a expiry) now ((k, a, expiry) :: entries) where
  nodup := List.nodup_cons.2 ⟨hk, h.nodup⟩
  of_mem e he := by
    rcases List.mem_cons.1 he with rfl | he
    · exact Function.update_self ..
    · have hne : e.1 ≠ k := fun hek => hk (hek ▸ List.mem_map_of_mem he)
      rw [ExpiringMap.insert, Function.update_of_ne hne]
      exact h.of_mem e he
  mem j b x hj hx := by
    by_cases hjk : j = k
    · subst hjk
      rw [ExpiringMap.insert, Function.update_self] at hj
      cases hj
      exact List.mem_cons_self
    · rw [ExpiringMap.insert, Function.update_of_ne hjk] at hj
      exact List.mem_cons_of_mem _ (h.mem j b x hj hx)

/-- The entry of a key is taken away. -/
theorem erase {e : κ × α × Nat} (h : Holds m now (e :: entries)) :
    Holds (m.erase e.1) now entries where
  nodup := (List.nodup_cons.1 h.nodup).2
  of_mem f hf := by
    have hne : f.1 ≠ e.1 := by
      intro hfe
      refine (List.nodup_cons.1 h.nodup).1 ?_
      show e.1 ∈ entries.map (·.1)
      rw [← hfe]
      exact List.mem_map_of_mem hf
    rw [ExpiringMap.erase, Function.update_of_ne hne]
    exact h.of_mem f (List.mem_cons_of_mem _ hf)
  mem j b x hj hx := by
    by_cases hje : j = e.1
    · rw [hje, ExpiringMap.erase, Function.update_self] at hj
      cases hj
    · rw [ExpiringMap.erase, Function.update_of_ne hje] at hj
      rcases List.mem_cons.1 (h.mem j b x hj hx) with rfl | hmem
      · exact absurd rfl hje
      · exact hmem

/-- A key that is not there is taken away: its entry, if there was one, does not count any more. -/
theorem erase_of_notMem (h : Holds m now entries) {k : κ} (hk : k ∉ entries.map (·.1)) :
    Holds (m.erase k) now entries where
  nodup := h.nodup
  of_mem e he := by
    have hne : e.1 ≠ k := fun hek => hk (hek ▸ List.mem_map_of_mem he)
    rw [ExpiringMap.erase, Function.update_of_ne hne]
    exact h.of_mem e he
  mem j b x hj hx := by
    by_cases hjk : j = k
    · rw [hjk, ExpiringMap.erase, Function.update_self] at hj
      cases hj
    · rw [ExpiringMap.erase, Function.update_of_ne hjk] at hj
      exact h.mem j b x hj hx

end Change

end Holds

end ExpiringMap
