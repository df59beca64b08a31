import Mathlib.Data.Int.Notation
import Mathlib.Data.List.Basic
import Mathlib.Tactic.SplitIfs

/-!
# Appending to a buffer

The memory around a buffer, its places counted from the first byte of the buffer, and the append that
a C program makes from `vsnprintf`: it writes as much of a text as there is room for beside the
terminator, and returns the position behind it, or -1 if that is not all of it.

The caller may go on after a -1.  The next append is then called at a negative position.

* `Filled.append` — a text that fits is behind what the buffer holds.
* `Filled.append_full` — one that does not fit leaves the position -1, and nothing is written outside.
* `Astray.append` — after a -1 every append goes astray.
-/

set_option autoImplicit false

namespace AppendBuffer

variable {α : Type*}

/-- What was written to each place, if anything was. -/
abbrev Memory (α : Type*) := ℤ → Option α

/-- A text is written from a place on. -/
def store (mem : Memory α) (off : ℤ) (s : List α) : Memory α := fun i =>
  if off ≤ i ∧ i < off + s.length then s[(i - off).toNat]? else mem i

structure Writer (α : Type*) where
  mem : Memory α
  pos : ℤ
  /-- The positions of the appends so far, the last one first. -/
  calls : List ℤ

/-- Nothing is written yet. -/
def Writer.start : Writer α := ⟨fun _ => none, 0, []⟩

/-- `append_str`, for the text that is formatted. -/
def append (nul : α) (size : ℕ) (w : Writer α) (text : List α) : Writer α :=
  let rem := size - w.pos
  if rem ≤ 0 then ⟨w.mem, -1, w.pos :: w.calls⟩
  else ⟨store w.mem w.pos (text.take (rem - 1).toNat ++ [nul]),
    if (text.length : ℤ) < rem then w.pos + text.length else -1, w.pos :: w.calls⟩

/-- Nothing was written outside the buffer, and no append was called before it. -/
structure Within (size : ℕ) (w : Writer α) : Prop where
  calls : ∀ p ∈ w.calls, 0 ≤ p
  mem : ∀ i, w.mem i ≠ none → 0 ≤ i ∧ i < size

/-- The memory holds a text from the first place on. -/
def Holds (mem : Memory α) (s : List α) : Prop := ∀ i : ℕ, i < s.length → mem i = s[i]?

/-- The buffer holds a text up to the position. -/
structure Filled (size : ℕ) (w : Writer α) (s : List α) : Prop extends Within size w where
  pos : w.pos = s.length
  holds : Holds w.mem s

/-- An append was called before the buffer. -/
def Astray (w : Writer α) : Prop := ∃ p ∈ w.calls, p < 0

variable {nul : α} {size : ℕ} {w : Writer α} {mem : Memory α} {off i : ℤ} {s t : List α}

theorem store_outside (h : i < off ∨ off + s.length ≤ i) : store mem off s i = mem i :=
  if_neg (by omega)

theorem store_inside {k : ℕ} (h : k < s.length) : store mem off s (off + k) = s[k]? := by
  rw [store, if_pos (by omega), show off + k - off = k by omega, Int.toNat_natCast]

theorem Astray.not_within (h : Astray w) : ¬ Within size w := by
  obtain ⟨p, hp, hneg⟩ := h
  intro hw
  have := hw.calls p hp
  omega

theorem filled_start : Filled size (.start : Writer α) [] where
  calls := fun _ hp => absurd hp List.not_mem_nil
  mem := fun _ hi => absurd rfl hi
  pos := rfl
  holds := fun i hi => absurd hi (Nat.not_lt_zero i)

/-- A text stored where another one ends is behind it. -/
theorem Holds.store (h : Holds mem s) (t u : List α) :
    Holds (store mem s.length (t ++ u)) (s ++ t) := by
  intro i hi
  rw [List.length_append] at hi
  by_cases hlt : i < s.length
  · rw [store_outside (Or.inl (by omega)), h i hlt, List.getElem?_append_left hlt]
  · obtain ⟨k, rfl⟩ := Nat.exists_eq_add_of_le (Nat.not_lt.1 hlt)
    have hk : k < t.length := by omega
    rw [Int.natCast_add, store_inside (by rw [List.length_append]; omega),
      List.getElem?_append_left hk, List.getElem?_append_right (by omega), Nat.add_sub_cancel_left]

/-- A text stored in the buffer leaves nothing outside. -/
theorem Within.store (h : Within size w) (h0 : 0 ≤ off) (hend : off + s.length ≤ size)
    (hi : AppendBuffer.store w.mem off s i ≠ none) : 0 ≤ i ∧ i < size := by
  by_cases hin : off ≤ i ∧ i < off + s.length
  · omega
  · rw [store_outside (by omega)] at hi
    exact h.mem i hi

theorem Filled.calls_cons (h : Filled size w s) : ∀ p ∈ w.pos :: w.calls, 0 ≤ p :=
  List.forall_mem_cons.2 ⟨by rw [h.pos]; omega, h.calls⟩

/-- **A text that fits** is behind what the buffer holds. -/
theorem Filled.append (h : Filled size w s) (hfit : s.length + t.length < size) :
    Filled size (append nul size w t) (s ++ t) := by
  have hpos := h.pos
  have htake : t.take (size - w.pos - 1).toNat = t := List.take_of_length_le (by omega)
  rw [AppendBuffer.append, if_neg (by omega), if_pos (by omega), htake]
  refine ⟨⟨h.calls_cons, fun i hi => ?_⟩, ?_, ?_⟩
  · refine h.toWithin.store ?_ ?_ hi
    · omega
    · rw [List.length_append, List.length_singleton]
      omega
  · simp only [hpos, List.length_append, Int.natCast_add]
  · simp only [hpos]
    exact h.holds.store t [nul]

/-- **A text that does not fit** leaves the position -1, and nothing is written outside. -/
theorem Filled.append_full (h : Filled size w s) (hfull : size ≤ s.length + t.length) :
    (AppendBuffer.append nul size w t).pos = -1 ∧ Within size (AppendBuffer.append nul size w t) := by
  have hpos := h.pos
  by_cases hrem : size - w.pos ≤ 0
  · rw [AppendBuffer.append, if_pos hrem]
    exact ⟨rfl, h.calls_cons, h.mem⟩
  · rw [AppendBuffer.append, if_neg hrem, if_neg (by omega)]
    refine ⟨rfl, h.calls_cons, fun i hi => h.toWithin.store ?_ ?_ hi⟩
    · omega
    · rw [List.length_append, List.length_take, List.length_singleton]
      omega

theorem append_calls (w : Writer α) (t : List α) :
    (append nul size w t).calls = w.pos :: w.calls := by
  rw [append]
  split_ifs <;> rfl

/-- **After a -1** every append goes astray. -/
theorem Astray.append (h : Astray w ∨ w.pos < 0) (t : List α) : Astray (append nul size w t) := by
  rw [Astray, append_calls]
  obtain ⟨p, hp, hneg⟩ | hneg := h
  · exact ⟨p, List.mem_cons_of_mem _ hp, hneg⟩
  · exact ⟨w.pos, List.mem_cons_self .., hneg⟩

/-- Bytes copied behind the text, as far as the buffer goes. -/
theorem Filled.copy (h : Filled size w s) (hfit : s.length + t.length ≤ size) :
    Filled size { w with mem := store w.mem w.pos t, pos := w.pos + t.length } (s ++ t) := by
  have hpos := h.pos
  refine ⟨⟨h.calls, fun i hi => h.toWithin.store ?_ ?_ hi⟩, ?_, ?_⟩
  · omega
  · omega
  · simp only [hpos, List.length_append, Int.natCast_add]
  · simp only [hpos]
    simpa only [List.append_nil] using h.holds.store t []

end AppendBuffer
