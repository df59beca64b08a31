import Mathlib.Logic.Basic

/-!
# Machines and their runs

A `Machine` is a set of initial states with a partial step function: `step s a = none` says that
the action `a` is not enabled in `s`.  What can be said of a machine is said of the states its
runs reach.

* `ReachUnder C` — the states reached by the runs in which every step meets the condition `C` on
  the state before it and the action taken.  `Reach` is the case without a condition.
* `ReachUnder.invariant` — the induction over a run, stated once: what the initial states have and
  every step that meets `C` keeps, every state reached has.
* `reachUnder_iff` — the runs that meet `C` are the runs in which every step leads to a state with a
  property, if each step of a state with the invariant does so exactly if it meets `C`.
* `reachUnder_iff_reach_and` — and if the property is one of the whole past, the runs that meet `C` are
  those to a state that has it.
* `runUnder` — the run along a list of actions, which computes, and `reachUnder_of_runUnder`, by
  which a computed run is a run; `reachUnder_of_forall` if the condition is one on the actions.
-/

set_option autoImplicit false

/-- A transition system whose steps are named by the action that causes them. -/
structure Machine (S A : Type*) where
  /-- The states a run may start in. -/
  init : S → Prop
  /-- The state after an action, if the action is enabled. -/
  step : S → A → Option S

namespace Machine

variable {S A : Type*} {M : Machine S A} {C : S → A → Prop}

/-- The states reached by runs all of whose steps meet `C`. -/
inductive ReachUnder (M : Machine S A) (C : S → A → Prop) : S → Prop
  | start {s : S} (h : M.init s) : ReachUnder M C s
  | next {s t : S} {a : A} (hr : ReachUnder M C s) (hc : C s a) (hs : M.step s a = some t) :
      ReachUnder M C t

/-- The states reached by any run at all. -/
abbrev Reach (M : Machine S A) : S → Prop := M.ReachUnder fun _ _ => True

/-- Runs that meet a condition meet a weaker one. -/
theorem ReachUnder.mono {D : S → A → Prop} (hCD : ∀ s a, C s a → D s a) {s : S}
    (h : M.ReachUnder C s) : M.ReachUnder D s := by
  induction h with
  | start h => exact .start h
  | next _ hc hs ih => exact .next ih (hCD _ _ hc) hs

/-- **The rule for invariants**: a property of the initial states that every step meeting `C`
keeps holds in every state reached under `C`. -/
theorem ReachUnder.invariant {I : S → Prop} (hinit : ∀ s, M.init s → I s)
    (hstep : ∀ s a t, I s → C s a → M.step s a = some t → I t) {s : S}
    (h : M.ReachUnder C s) : I s := by
  induction h with
  | start h => exact hinit _ h
  | next _ hc hs ih => exact hstep _ _ _ ih hc hs

/-- **The rule for exact conditions**: if a step leads to a state with the property exactly if it meets
`C`, the runs that meet `C` are those that lead to no other state. -/
theorem reachUnder_iff {I P : S → Prop} (hinit : ∀ s, M.init s → I s)
    (hstep : ∀ s a t, I s → C s a → M.step s a = some t → I t)
    (hexact : ∀ s a t, I s → M.step s a = some t → (P t ↔ C s a)) {s : S} :
    M.ReachUnder C s ↔ M.ReachUnder (fun s a => ∃ t, M.step s a = some t ∧ P t) s := by
  constructor
  · intro h
    induction h with
    | start h => exact .start h
    | next hr hc hs ih =>
      have hI := hr.invariant hinit hstep
      exact .next ih ⟨_, hs, (hexact _ _ _ hI hs).2 hc⟩ hs
  · intro h
    induction h with
    | start h => exact .start h
    | next _ hP hs ih =>
      obtain ⟨t, ht, hP⟩ := hP
      have hI := ih.invariant hinit hstep
      exact .next ih ((hexact _ _ _ hI ht).1 hP) hs

/-- **The rule for what is never done**: if a step keeps a property of the past exactly if it meets `C`,
the runs that meet `C` are those to a state with the property. -/
theorem reachUnder_iff_reach_and {I P : S → Prop} (hinit : ∀ s, M.init s → I s ∧ P s)
    (hstep : ∀ s a t, I s → M.step s a = some t → I t)
    (hexact : ∀ s a t, I s → M.step s a = some t → (P t ↔ P s ∧ C s a)) {s : S} :
    M.ReachUnder C s ↔ M.Reach s ∧ P s := by
  have hreach : ∀ {s}, M.Reach s → I s := fun h =>
    h.invariant (fun s hs => (hinit s hs).1) fun s a t hI _ hs => hstep s a t hI hs
  constructor
  · intro h
    induction h with
    | start h => exact ⟨.start h, (hinit _ h).2⟩
    | next _ hc hs ih => exact ⟨.next ih.1 trivial hs, (hexact _ _ _ (hreach ih.1) hs).2 ⟨ih.2, hc⟩⟩
  · rintro ⟨h, hP⟩
    induction h with
    | start h => exact .start h
    | next hr _ hs ih =>
      obtain ⟨hP, hc⟩ := (hexact _ _ _ (hreach hr) hs).1 hP
      exact .next (ih hP) hc hs

/-- The state after a list of actions, if each of them is enabled and meets `C` in its turn. -/
def runUnder (M : Machine S A) (C : S → A → Prop) [∀ s a, Decidable (C s a)] (s : S) :
    List A → Option S
  | [] => some s
  | a :: as => if C s a then (M.step s a).bind fun t => runUnder M C t as else none

/-- A run that computes is a run. -/
theorem reachUnder_of_runUnder [∀ s a, Decidable (C s a)] {s t : S} {as : List A}
    (hs : M.ReachUnder C s) (h : M.runUnder C s as = some t) : M.ReachUnder C t := by
  induction as generalizing s with
  | nil => cases h; exact hs
  | cons a as ih =>
    rw [runUnder] at h
    split at h
    · rename_i hc
      obtain ⟨u, hu, h⟩ := Option.bind_eq_some_iff.1 h
      exact ih (.next hs hc hu) h
    · cases h

/-- A run that computes, along actions that meet a condition. -/
theorem reachUnder_of_forall {P : A → Prop} {s t : S} {as : List A} (hs : M.ReachUnder (fun _ => P) s)
    (has : ∀ a ∈ as, P a) (h : M.runUnder (fun _ _ => True) s as = some t) :
    M.ReachUnder (fun _ => P) t := by
  induction as generalizing s with
  | nil => cases h; exact hs
  | cons a as ih =>
    rw [runUnder, if_pos trivial] at h
    obtain ⟨u, hu, h⟩ := Option.bind_eq_some_iff.1 h
    exact ih (.next hs (has a List.mem_cons_self) hu) (fun b hb => has b (List.mem_cons_of_mem a hb)) h

end Machine
