import Mathlib.Data.List.Basic

/-!
# Buffers that texts are formatted into

A buffer as `malloc` gives it, with what has been written to each of its places since.  Texts are
formatted into it with a size, and a number of bytes is taken from its front.

* `Holds.format` — a text formatted at the end of what the buffer holds is behind it, as far as it fits.
* `format_outside` — formatting changes nothing outside of the places it is given.
-/

set_option autoImplicit false

namespace FormatBuffer

variable {α : Type*}

/-- What was written to each place, if anything was. -/
abbrev Buffer (α : Type*) := ℕ → Option α

/-- The buffer before anything is written. -/
def fresh : Buffer α := fun _ => none

/-- A text is written from a place on. -/
def store (buf : Buffer α) (off : ℕ) (s : List α) : Buffer α := fun i =>
  if off ≤ i ∧ i < off + s.length then s[i - off]? else buf i

/-- As much of a text is written as the size leaves room for beside the terminator. -/
def format (nul : α) (buf : Buffer α) (off size : ℕ) (s : List α) : Buffer α :=
  if size = 0 then buf else store buf off (s.take (size - 1) ++ [nul])

/-- The first bytes of the buffer. -/
def taken (buf : Buffer α) (n : ℕ) : List (Option α) := (List.range n).map buf

/-- The buffer begins with a text. -/
def Holds (buf : Buffer α) (s : List α) : Prop := taken buf s.length = s.map some

variable {nul : α} {buf buf' : Buffer α} {off size n : ℕ} {s t : List α}

@[simp] theorem length_taken (buf : Buffer α) (n : ℕ) : (taken buf n).length = n := by
  rw [taken, List.length_map, List.length_range]

theorem taken_congr (h : ∀ i < n, buf' i = buf i) : taken buf' n = taken buf n :=
  List.map_congr_left fun i hi => h i (List.mem_range.1 hi)

/-- A place that was not written to is among the first bytes. -/
theorem none_mem_taken {i : ℕ} (hi : i < n) (h : buf i = none) : none ∈ taken buf n :=
  List.mem_map.2 ⟨i, List.mem_range.2 hi, h⟩

theorem store_outside {i : ℕ} (h : i < off ∨ off + s.length ≤ i) : store buf off s i = buf i :=
  if_neg (by omega)

theorem store_inside {i : ℕ} (h : i < s.length) : store buf off s (off + i) = s[i]? := by
  rw [store, if_pos (by omega), Nat.add_sub_cancel_left]

theorem format_outside {i : ℕ} (h : i < off ∨ off + size ≤ i) : format nul buf off size s i = buf i := by
  rw [format]
  split_ifs
  · rfl
  · have hlen : (s.take (size - 1) ++ [nul]).length ≤ size := by
      rw [List.length_append, List.length_take, List.length_singleton]
      omega
    exact store_outside (by omega)

/-- What is formatted at a place ends there, as far as there is room. -/
theorem format_end (nul : α) (buf : Buffer α) (off : ℕ) (hsize : size ≠ 0) (s : List α) :
    format nul buf off size s (off + (s.take (size - 1)).length) = some nul := by
  have hlt : (s.take (size - 1)).length < (s.take (size - 1) ++ [nul]).length := by
    rw [List.length_append]
    exact Nat.lt_succ_self _
  rw [format, if_neg hsize, store_inside hlt, List.getElem?_append_right (Nat.le_refl _), Nat.sub_self]
  rfl

theorem holds_nil (buf : Buffer α) : Holds buf [] := rfl

/-- A buffer that begins with a text goes on with another one. -/
theorem Holds.append (h : Holds buf s) (hnext : ∀ i < t.length, buf (s.length + i) = t[i]?) :
    Holds buf (s ++ t) := by
  rw [Holds, List.length_append, taken, List.range_add, List.map_append, List.map_append, ← h, taken]
  congr 1
  refine List.ext_getElem? fun i => ?_
  rw [List.map_map, List.getElem?_map, List.getElem?_map]
  by_cases hi : i < t.length
  · rw [List.getElem?_range hi, Option.map_some, Function.comp_apply, hnext i hi,
      List.getElem?_eq_getElem hi, Option.map_some]
  · rw [List.getElem?_eq_none (by simpa using hi), List.getElem?_eq_none (by simpa using hi)]
    rfl

theorem Holds.congr (h : Holds buf s) (hsame : ∀ i < s.length, buf' i = buf i) : Holds buf' s :=
  (taken_congr hsame).trans h

/-- **Formatting at the end** adds as much of the text as there is room for. -/
theorem Holds.format (h : Holds buf s) (nul : α) (size : ℕ) (t : List α) :
    Holds (format nul buf s.length size t) (s ++ t.take (size - 1)) := by
  have hkept : Holds (FormatBuffer.format nul buf s.length size t) s :=
    h.congr fun i hi => format_outside (Or.inl hi)
  refine hkept.append fun i hi => ?_
  have hsize : size ≠ 0 := by
    rintro rfl
    exact absurd hi (by simp)
  rw [FormatBuffer.format, if_neg hsize, store_inside, List.getElem?_append_left hi]
  rw [List.length_append]
  exact Nat.lt_add_right _ hi

/-- What a buffer holds, it holds a part of. -/
theorem Holds.take (h : Holds buf s) (n : ℕ) : Holds buf (s.take n) := by
  have hsplit : Holds buf (s.take n ++ s.drop n) := by rwa [List.take_append_drop]
  rw [Holds, List.length_append, taken, List.range_add, List.map_append, List.map_append] at hsplit
  exact List.append_inj_left hsplit (by simp)

end FormatBuffer
