import Mathlib.Data.List.Nodup
import Mathlib.Logic.Function.Basic
import Arws.Library.Slots

/-!
# Tables of records with a key

A table is a list of records, and a record is found by its key.  While no two records have one key the
table is a map from keys to records, whatever the order of the records.

* `lookup_eq_some_iff` — the map has the records of the table.
* `lookup_concat`, `lookup_modify`, `lookup_dropAt` — what is done to the table is done to the map.
* `lookup_append_singleton`, `lookup_modify_first` — and what is left of that where keys are repeated.
-/

set_option autoImplicit false

namespace KeyedTable

open Slots

variable {α κ : Type*} {key : α → κ} {l l' : List α}

theorem nodup_concat {a : α} :
    ((l ++ [a]).map key).Nodup ↔ (l.map key).Nodup ∧ key a ∉ l.map key := by
  rw [List.map_append, List.map_singleton]
  exact (List.perm_append_singleton _ _).nodup_iff.trans (List.nodup_cons.trans and_comm)

/-- A change that leaves the keys alone. -/
theorem map_modify {f : α → α} {i : ℕ} (hf : ∀ a, key (f a) = key a) : (l.modify i f).map key = l.map key := by
  refine List.ext_getElem (by simp) fun j hj _ => ?_
  simp only [List.getElem_map, List.getElem_modify]
  split
  · exact hf _
  · rfl

variable [DecidableEq κ]

/-- The first record with a key. -/
def lookup (key : α → κ) (l : List α) (k : κ) : Option α := l.find? fun a => key a = k

theorem lookup_eq_none_iff {k : κ} : lookup key l k = none ↔ k ∉ l.map key := by
  simp [lookup, List.find?_eq_none]

theorem lookup_eq_some_iff (hnodup : (l.map key).Nodup) {k : κ} {a : α} :
    lookup key l k = some a ↔ a ∈ l ∧ key a = k := by
  constructor
  · intro h
    exact ⟨List.mem_of_find?_eq_some h, of_decide_eq_true (List.find?_some h :)⟩
  · rintro ⟨ha, rfl⟩
    cases hfind : lookup key l (key a) with
    | none => exact absurd (List.mem_map_of_mem ha) (lookup_eq_none_iff.1 hfind)
    | some b =>
      have hb := List.mem_of_find?_eq_some hfind
      have hkey : key b = key a := of_decide_eq_true (List.find?_some hfind :)
      rw [List.inj_on_of_nodup_map hnodup hb ha hkey]

/-- The order of the records does not matter. -/
theorem lookup_perm (h : l'.Perm l) (hnodup : (l.map key).Nodup) : lookup key l' = lookup key l := by
  funext k
  refine Option.ext fun a => ?_
  rw [lookup_eq_some_iff hnodup, lookup_eq_some_iff ((h.map key).nodup_iff.2 hnodup), h.mem_iff]

theorem lookup_concat {a : α} (ha : key a ∉ l.map key) :
    lookup key (l ++ [a]) = Function.update (lookup key l) (key a) (some a) := by
  funext k
  rw [lookup, List.find?_append]
  by_cases hk : k = key a
  · subst hk
    have hnone : l.find? (fun b => key b = key a) = none := lookup_eq_none_iff.2 ha
    rw [hnone, Function.update_self]
    simp
  · rw [Function.update_of_ne hk, lookup]
    have hother : [a].find? (fun b => decide (key b = k)) = none := by simp [Ne.symm hk]
    rw [hother, Option.or_none]

theorem lookup_append_singleton (a : α) (k : κ) :
    lookup key (l ++ [a]) k = (lookup key l k).or (if key a = k then some a else none) := by
  rw [lookup, List.find?_append, lookup, List.find?_singleton]
  simp only [decide_eq_true_eq]

section Modify

variable {f : α → α} {i : ℕ}

theorem lookup_modify (hf : ∀ a, key (f a) = key a) (hnodup : (l.map key).Nodup) {a : α}
    (ha : l[i]? = some a) :
    lookup key (l.modify i f) = Function.update (lookup key l) (key a) (some (f a)) := by
  obtain ⟨hi, rfl⟩ := List.getElem?_eq_some_iff.1 ha
  have hnodup' : ((l.modify i f).map key).Nodup := by rwa [map_modify hf]
  funext k
  by_cases hk : k = key l[i]
  · subst hk
    rw [Function.update_self, lookup_eq_some_iff hnodup']
    refine ⟨List.mem_iff_getElem.2 ⟨i, by simpa using hi, by simp⟩, hf _⟩
  · rw [Function.update_of_ne hk]
    refine Option.ext fun b => ?_
    rw [lookup_eq_some_iff hnodup, lookup_eq_some_iff hnodup']
    refine and_congr_left fun hb => ?_
    -- what has another key is not the record that changes
    simp only [List.mem_iff_getElem, List.length_modify, List.getElem_modify]
    refine exists_congr fun j => exists_congr fun hj => ?_
    by_cases hij : i = j
    · subst hij
      rw [if_pos rfl]
      refine iff_of_false (fun h => hk ?_) (fun h => hk ?_)
      · rw [← hb, ← h, hf]
      · rw [← hb, ← h]
    · rw [if_neg hij]

/-- The first record with a key is changed, and with it what the key leads to, even if there are others
with that key. -/
theorem lookup_modify_first (hf : ∀ a, key (f a) = key a) {k₀ : κ}
    (hi : l.findIdx? (fun a => key a = k₀) = some i) (k : κ) :
    lookup key (l.modify i f) k = if k = k₀ then (lookup key l k₀).map f else lookup key l k := by
  induction l generalizing i with
  | nil => cases hi
  | cons a l ih =>
    rw [List.findIdx?_cons] at hi
    by_cases ha : key a = k₀
    · rw [if_pos (by simpa using ha)] at hi
      cases hi
      rw [List.modify_zero_cons, lookup, lookup, lookup, List.find?_cons, List.find?_cons,
        List.find?_cons]
      simp only [hf, ha, decide_true]
      by_cases hk : k = k₀
      · rw [if_pos hk, hk, decide_eq_true rfl]
        rfl
      · rw [if_neg hk, decide_eq_false (Ne.symm hk)]
    · rw [if_neg (by simpa using ha)] at hi
      obtain ⟨j, hj, rfl⟩ := Option.map_eq_some_iff.1 hi
      have := ih hj
      rw [lookup, lookup, lookup] at this
      rw [List.modify_succ_cons, lookup, lookup, lookup, List.find?_cons, List.find?_cons,
        List.find?_cons, this, decide_eq_false ha]
      by_cases hk : k = k₀
      · rw [if_pos hk, if_pos hk, decide_eq_false (hk ▸ ha)]
      · rw [if_neg hk, if_neg hk]

end Modify

/-- A record is dropped. -/
theorem lookup_dropAt (hnodup : (l.map key).Nodup) {i : ℕ} {a : α} (ha : l[i]? = some a) :
    ((dropAt l i).map key).Nodup ∧
      lookup key (dropAt l i) = Function.update (lookup key l) (key a) none := by
  have hperm := dropAt_perm ha
  have hcons : (key a :: (dropAt l i).map key).Nodup := (hperm.map key).nodup_iff.1 hnodup
  obtain ⟨hnew, hnodup'⟩ := List.nodup_cons.1 hcons
  refine ⟨hnodup', ?_⟩
  rw [← lookup_perm hperm.symm hnodup]
  funext k
  by_cases hk : k = key a
  · rw [hk, Function.update_self, lookup_eq_none_iff]
    exact hnew
  · rw [Function.update_of_ne hk, lookup, lookup, List.find?_cons_of_neg (by simpa using Ne.symm hk)]

end KeyedTable
