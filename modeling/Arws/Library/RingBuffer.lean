import Mathlib.Data.List.Range
import Mathlib.Data.Nat.ModEq
import Mathlib.Logic.Function.Basic

/-!
# Ring buffers

A fixed number of cells with the place of the first entry, the place behind the last one and a count.
Entries are written at the tail and read at the head, and both places wrap.

* `RingBuffer.contents` — the entries from the head on.
* `RingBuffer.contents_push`, `RingBuffer.Valid.contents_pop` — the ring is a queue: what is pushed comes
  behind the contents, and what is popped is the first of them.
* `RingBuffer.Valid` — the places fit the count; kept by both operations.
-/

set_option autoImplicit false

/-- The cells, of which those below the size of the ring are used. -/
structure RingBuffer (α : Type*) where
  cells : ℕ → α
  head : ℕ
  tail : ℕ
  count : ℕ

namespace RingBuffer

variable {α : Type*} {size : ℕ} {r : RingBuffer α}

def push (size : ℕ) (x : α) (r : RingBuffer α) : RingBuffer α :=
  { r with
    cells := Function.update r.cells r.tail x
    tail := (r.tail + 1) % size
    count := r.count + 1 }

/-- The entry at the head. -/
def first (r : RingBuffer α) : α := r.cells r.head

def pop (size : ℕ) (r : RingBuffer α) : RingBuffer α :=
  { r with
    head := (r.head + 1) % size
    count := r.count - 1 }

/-- The place of an entry, counted from the head. -/
def place (size : ℕ) (r : RingBuffer α) (i : ℕ) : ℕ := (r.head + i) % size

/-- What is in the ring, the first entry in front. -/
def contents (size : ℕ) (r : RingBuffer α) : List α :=
  (List.range r.count).map fun i => r.cells (r.place size i)

structure Valid (size : ℕ) (r : RingBuffer α) : Prop where
  head_lt : r.head < size
  count_le : r.count ≤ size
  tail_eq : r.tail = r.place size r.count

@[simp] theorem length_contents : (r.contents size).length = r.count := by
  rw [contents, List.length_map, List.length_range]

/-- Different entries have different places. -/
theorem place_ne {i j : ℕ} (hij : i < j) (hj : j < size) : r.place size i ≠ r.place size j := by
  intro h
  have hmod : Nat.ModEq size i j := Nat.ModEq.add_left_cancel' r.head h
  rw [Nat.ModEq, Nat.mod_eq_of_lt (hij.trans hj), Nat.mod_eq_of_lt hj] at hmod
  exact hij.ne hmod

/-- **What is pushed** comes behind the contents. -/
theorem contents_push (h : r.Valid size) (hroom : r.count < size) (x : α) :
    (r.push size x).contents size = r.contents size ++ [x] := by
  have hcells : ∀ i, i < r.count →
      Function.update r.cells r.tail x (r.place size i) = r.cells (r.place size i) := by
    intro i hi
    rw [h.tail_eq]
    exact Function.update_of_ne (place_ne hi hroom) x r.cells
  have hlast : Function.update r.cells r.tail x (r.place size r.count) = x := by
    rw [h.tail_eq, Function.update_self]
  calc (r.push size x).contents size
      = (List.range (r.count + 1)).map fun i =>
          Function.update r.cells r.tail x (r.place size i) := rfl
    _ = ((List.range r.count).map fun i =>
          Function.update r.cells r.tail x (r.place size i)) ++ [x] := by
        rw [List.range_succ, List.map_append, List.map_singleton, hlast]
    _ = r.contents size ++ [x] := by
        rw [contents, List.map_congr_left fun i hi => hcells i (List.mem_range.1 hi)]

theorem Valid.push (h : r.Valid size) (hroom : r.count < size) (x : α) :
    (r.push size x).Valid size where
  head_lt := h.head_lt
  count_le := hroom
  tail_eq := by
    change (r.tail + 1) % size = (r.head + (r.count + 1)) % size
    rw [h.tail_eq, place, Nat.mod_add_mod, Nat.add_assoc]

/-- **What is popped** is the first of the contents. -/
theorem contents_pop (hpos : 0 < r.count) :
    r.contents size = r.cells (r.place size 0) :: (r.pop size).contents size := by
  have hnext : ∀ i, r.place size (i + 1) = (r.pop size).place size i := by
    intro i
    change (r.head + (i + 1)) % size = ((r.head + 1) % size + i) % size
    rw [Nat.mod_add_mod, Nat.add_right_comm, Nat.add_assoc]
  obtain ⟨n, hn⟩ := Nat.exists_eq_succ_of_ne_zero hpos.ne'
  have hpop : (r.pop size).count = n := by
    change r.count - 1 = n
    rw [hn, Nat.succ_sub_one]
  rw [contents, contents, hpop, hn, Nat.succ_eq_add_one, List.range_succ_eq_map, List.map_cons,
    List.map_map]
  refine congrArg _ (List.map_congr_left fun i _ => ?_)
  exact congrArg r.cells (hnext i)

theorem Valid.place_zero (h : r.Valid size) : r.place size 0 = r.head :=
  Nat.mod_eq_of_lt h.head_lt

theorem Valid.contents_pop (h : r.Valid size) (hpos : 0 < r.count) :
    r.contents size = r.first :: (r.pop size).contents size := by
  rw [RingBuffer.contents_pop hpos, h.place_zero, first]

theorem Valid.pop (h : r.Valid size) (hpos : 0 < r.count) : (r.pop size).Valid size where
  head_lt := Nat.mod_lt _ (Nat.zero_lt_of_lt h.head_lt)
  count_le := (Nat.sub_le _ _).trans h.count_le
  tail_eq := by
    change r.tail = ((r.head + 1) % size + (r.count - 1)) % size
    rw [h.tail_eq, place, Nat.mod_add_mod, Nat.add_assoc, Nat.add_sub_of_le hpos]

/-- An empty ring. -/
theorem valid_empty {cells : ℕ → α} (hsize : 0 < size) : (⟨cells, 0, 0, 0⟩ : RingBuffer α).Valid size where
  head_lt := hsize
  count_le := Nat.zero_le _
  tail_eq := (Nat.zero_mod size).symm

end RingBuffer
