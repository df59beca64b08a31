import Arws.Library.CString

/-!
# Checked computations

A computation in memory ends with a result, gives up by itself, or does what no computation should: it
touches a byte outside of its areas, or its turns run out.  A model that has the last two as outcomes can say
that the program has none of them.

* `Returns` — the computation ends well, and its result has a property.  `Returns.bind` is the rule for one
  step after the other.
* `readAt`, `put` — a byte that is read, and bytes that are written behind others into an area.
-/

set_option autoImplicit false

universe u

namespace Checked

/-- Why a computation has no result. -/
inductive Stop
  /-- A byte outside of an area was read or written. -/
  | outside
  /-- The turns ran out. -/
  | unfinished
  /-- The computation gave up by itself. -/
  | refused
  deriving DecidableEq

variable {α β : Type u} {P Q : α → Prop} {x : Except Stop α}

/-- The computation gives up or returns what has the property. -/
def Returns (P : α → Prop) : Except Stop α → Prop
  | .ok a => P a
  | .error .refused => True
  | .error _ => False

@[simp] theorem returns_ok {a : α} : Returns P (.ok a) ↔ P a := Iff.rfl

@[simp] theorem returns_refused : Returns P (.error .refused) := trivial

@[simp] theorem ok_bind (a : α) (f : α → Except Stop β) : (Except.ok a >>= f) = f a := rfl

/-- A result of two steps is one of the first, and of the second on it. -/
theorem bind_eq_ok {f : α → Except Stop β} {b : β} (h : (x >>= f) = .ok b) : ∃ a, x = .ok a ∧ f a = .ok b := by
  cases x with
  | ok a => exact ⟨a, rfl, h⟩
  | error e => cases h

theorem Returns.mono (h : Returns P x) (hPQ : ∀ a, P a → Q a) : Returns Q x := by
  cases x with
  | ok a => exact hPQ a h
  | error e =>
    cases e with
    | refused => trivial
    | outside => exact h
    | unfinished => exact h

/-- **One step after the other**. -/
theorem Returns.bind {R : β → Prop} {f : α → Except Stop β} (h : Returns P x)
    (hf : ∀ a, P a → Returns R (f a)) : Returns R (x >>= f) := by
  cases x with
  | ok a => exact hf a h
  | error e =>
    cases e with
    | refused => trivial
    | outside => exact h
    | unfinished => exact h

theorem Returns.ite {c : Prop} [Decidable c] {y : Except Stop α} (hx : c → Returns P x)
    (hy : ¬ c → Returns P y) : Returns P (if c then x else y) := by
  by_cases hc : c
  · rw [if_pos hc]
    exact hx hc
  · rw [if_neg hc]
    exact hy hc

/-- A computation that has a result did not give up where it could. -/
theorem of_ite_refused {c : Prop} [Decidable c] {a : α} (h : (if c then .error .refused else x) = .ok a) :
    ¬ c ∧ x = .ok a := by
  by_cases hc : c
  · rw [if_pos hc] at h
    cases h
  · rw [if_neg hc] at h
    exact ⟨hc, h⟩

/-- A computation that ends well has a result or gave up. -/
theorem Returns.cases (h : Returns P x) : x = .error .refused ∨ ∃ a, x = .ok a ∧ P a := by
  cases x with
  | ok a => exact .inr ⟨a, rfl, h⟩
  | error e =>
    cases e with
    | refused => exact .inl rfl
    | outside => exact h.elim
    | unfinished => exact h.elim

/-- A byte of a memory area. -/
def readAt (mem : Bytes) (i : ℕ) : Except Stop UInt8 :=
  match mem[i]? with
  | some c => .ok c
  | none => .error .outside

theorem readAt_of_lt {mem : Bytes} {i : ℕ} (h : i < mem.length) : readAt mem i = .ok mem[i] := by
  rw [readAt, List.getElem?_eq_getElem h]

theorem readAt_of_eq_some {mem : Bytes} {i : ℕ} {c : UInt8} (h : mem[i]? = some c) :
    readAt mem i = .ok c := by
  rw [readAt, h]

theorem cons_of_readAt {mem : Bytes} {c : UInt8} (h : readAt mem 0 = .ok c) : ∃ t, mem = c :: t := by
  cases mem with
  | nil => cases h
  | cons d t =>
    obtain rfl : d = c := Except.ok.inj h
    exact ⟨t, rfl⟩

theorem returns_readAt {mem : Bytes} {i : ℕ} (h : i < mem.length) :
    Returns (fun c => mem[i]? = some c) (readAt mem i) := by
  rw [readAt_of_lt h, returns_ok]
  exact List.getElem?_eq_getElem h

/-- Bytes that are written behind those that an area of some room holds already. -/
def put (room : ℕ) (out s : Bytes) : Except Stop Bytes :=
  if out.length + s.length ≤ room then .ok (out ++ s) else .error .outside

theorem eq_of_put {room : ℕ} {out s r : Bytes} (h : put room out s = .ok r) : r = out ++ s := by
  rw [put] at h
  split_ifs at h
  exact (Except.ok.inj h).symm

theorem put_of_le {room : ℕ} {out s : Bytes} (h : out.length + s.length ≤ room) :
    put room out s = .ok (out ++ s) := if_pos h

end Checked
