import Mathlib.Data.List.Basic

/-!
# Resources that are acquired and released

What a program does with its resources is a list of uses: it acquires a resource, accesses it, releases it.
The ledger is what it holds behind these uses, if each of them is in order: a resource that is held is not
acquired, and what is not held is neither accessed nor released.

* `Disciplined` — all uses are in order.  `Cleared` — and nothing is held behind them.
* `Cleared.count_release` — every resource was released as often as it was acquired.
-/

set_option autoImplicit false

universe u

namespace Ledger

variable {R : Type u} [DecidableEq R]

inductive Use (R : Type u)
  | acquire (r : R)
  | access (r : R)
  | release (r : R)
  deriving DecidableEq

/-- What is held behind a use, if it is in order. -/
def step (held : List R) : Use R → Option (List R)
  | .acquire r => if r ∈ held then none else some (r :: held)
  | .access r => if r ∈ held then some held else none
  | .release r => if r ∈ held then some (held.erase r) else none

/-- What is held behind uses, from what was held in front of them. -/
def run (held : List R) (uses : List (Use R)) : Option (List R) := uses.foldlM step held

/-- All uses are in order. -/
def Disciplined (uses : List (Use R)) : Prop := (run [] uses).isSome = true

/-- All uses are in order, and nothing is held. -/
def Cleared (uses : List (Use R)) : Prop := run [] uses = some []

instance (uses : List (Use R)) : Decidable (Cleared uses) := inferInstanceAs (Decidable (_ = _))

theorem run_append (held : List R) (uses more : List (Use R)) :
    run held (uses ++ more) = (run held uses).bind fun held => run held more := List.foldlM_append

/-- **The balance**: what was held and acquired was released or is held. -/
theorem count_run {held after : List R} {uses : List (Use R)} (h : run held uses = some after) (r : R) :
    held.count r + uses.count (.acquire r) = uses.count (.release r) + after.count r := by
  induction uses generalizing held with
  | nil =>
    cases h
    exact Nat.add_comm ..
  | cons use uses ih =>
    rw [run, List.foldlM_cons] at h
    obtain ⟨next, hstep, hrun⟩ := Option.bind_eq_some_iff.1 h
    have hbalance := ih hrun
    cases use with
    | acquire r' =>
      obtain ⟨-, hnext⟩ := Option.ite_none_left_eq_some.1 hstep
      cases hnext
      simp only [List.count_cons, beq_iff_eq] at hbalance
      simp only [List.count_cons, beq_iff_eq, Use.acquire.injEq, reduceCtorEq, if_false, Nat.add_zero]
      omega
    | access r' =>
      obtain ⟨-, hnext⟩ := Option.ite_none_right_eq_some.1 hstep
      cases hnext
      simpa [List.count_cons] using hbalance
    | release r' =>
      obtain ⟨hmem, hnext⟩ := Option.ite_none_right_eq_some.1 hstep
      cases hnext
      have hpos := List.count_pos_iff.2 hmem
      simp only [List.count_cons, beq_iff_eq, Use.release.injEq, reduceCtorEq, if_false, Nat.add_zero]
      rw [List.count_erase] at hbalance
      simp only [beq_iff_eq] at hbalance
      split_ifs at hbalance ⊢ with heq
      · subst heq
        omega
      · omega

/-- Everything was released as often as it was acquired. -/
theorem Cleared.count_release {uses : List (Use R)} (h : Cleared uses) (r : R) :
    uses.count (.release r) = uses.count (.acquire r) := by
  have := count_run h r
  simpa using this.symm

end Ledger
