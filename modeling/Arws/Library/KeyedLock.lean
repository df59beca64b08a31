import Mathlib.Logic.Function.Basic
import Mathlib.Data.List.Basic
import Arws.Library.Transition

/-!
# Keyed locks over one condition variable

A table with a flag for each key, guarded by one mutex and one condition variable that all keys
share.  To lock a key a thread takes the mutex and tests the flag of its key: it sets a flag that
is clear, and otherwise sleeps on the condition variable and tests again when it is woken.  To
unlock, a thread clears the flag and signals, which wakes at least one sleeper but not more than
it likes, whatever key each of them waits for.

Two things weaken such a lock, and the model has both.

* A key may lie outside the table (`guarded k = false`): then `lock` and `unlock` return at once.
* When the system is halted, a thread that finds it so leaves `lock` without the flag.

`Exclusive` is what remains: while the system runs, a guarded key has one thread at most in its
critical section.  `Taken` is the converse of its invariant: a flag that is set is some thread's.
-/

set_option autoImplicit false

namespace KeyedLock

variable {W K : Type*}

/-- Where a thread is: outside, at the test in the loop of `lock`, or between a `lock` that
returned and its `unlock`. -/
inductive Place (K : Type*)
  | outside
  | locking (k : K)
  | inside (k : K)
  deriving DecidableEq

structure State (W K : Type*) where
  /-- The system has not been halted. -/
  running : Bool
  /-- The flag of each key. -/
  locked : K → Bool
  place : W → Place K
  /-- The threads asleep on the condition variable; each is at the test of its loop. -/
  asleep : List W

inductive Act (W K : Type*)
  /-- The thread calls `lock`. -/
  | call (w : W) (k : K)
  /-- The thread, which is awake and has the mutex, makes the test of the loop. -/
  | test (w : W)
  /-- The thread wakes although nobody signalled. -/
  | wake (w : W)
  /-- The thread calls `unlock`; its signal wakes the threads `woken`. -/
  | unlock (w : W) (woken : List W)
  /-- The system is halted. -/
  | halt

/-- Nothing is locked and nobody is in the code of the lock. -/
def State.start : State W K := ⟨true, fun _ => false, fun _ => .outside, []⟩

/-- **Mutual exclusion**: while the system runs, two threads in the critical section of one guarded
key are one thread. -/
def Exclusive (guarded : K → Bool) (s : State W K) : Prop :=
  s.running = true → ∀ k, guarded k = true → ∀ w v,
    s.place w = .inside k → s.place v = .inside k → w = v

/-- What carries it: the flag of a guarded key is set while a thread is in its critical section. -/
structure Held (guarded : K → Bool) (s : State W K) : Prop where
  exclusive : Exclusive guarded s
  locked : s.running = true → ∀ w k, guarded k = true → s.place w = .inside k → s.locked k = true

theorem Held.start (guarded : K → Bool) : Held guarded (State.start : State W K) :=
  ⟨fun _ _ _ _ _ h _ => (nomatch h), fun _ _ _ _ h => nomatch h⟩

/-- A halted system has nothing to keep. -/
theorem Held.of_halted {guarded : K → Bool} {s : State W K} (h : s.running = false) :
    Held guarded s :=
  ⟨fun hr => absurd (h.symm.trans hr) (by decide), fun hr => absurd (h.symm.trans hr) (by decide)⟩

variable [DecidableEq W]

def State.move (s : State W K) (w : W) (p : Place K) : State W K :=
  { s with place := Function.update s.place w p }

@[simp] theorem State.move_place (s : State W K) (w : W) (p : Place K) :
    (s.move w p).place = Function.update s.place w p := rfl

variable [DecidableEq K]

/-- One step of a thread. -/
def step (guarded : K → Bool) (s : State W K) : Act W K → Option (State W K)
  | .call w k =>
    match s.place w with
    | .outside => some (s.move w (if guarded k then .locking k else .inside k))
    | _ => none
  | .test w =>
    match s.place w with
    | .locking k =>
      if w ∈ s.asleep then none
      else if s.running = false then some (s.move w (.inside k))
      else if s.locked k = false then
        some { s.move w (.inside k) with locked := Function.update s.locked k true }
      else some { s with asleep := w :: s.asleep }
    | _ => none
  | .wake w => if w ∈ s.asleep then some { s with asleep := s.asleep.erase w } else none
  | .unlock w woken =>
    match s.place w with
    | .inside k =>
      if guarded k = false then some (s.move w .outside)
      else if (∀ v ∈ woken, v ∈ s.asleep) ∧ (woken = [] → s.asleep = []) then
        some { s.move w .outside with
          locked := Function.update s.locked k false
          asleep := s.asleep.filter (· ∉ woken) }
      else none
    | _ => none
  | .halt => some { s with running := false }

variable {guarded : K → Bool} {s t : State W K}

/-! ## What a step does -/

theorem step_call_cases {w : W} {k : K} (hs : step guarded s (.call w k) = some t) :
    s.place w = .outside ∧ t = s.move w (if guarded k then .locking k else .inside k) := by
  rw [step] at hs
  split at hs <;> cases hs
  exact ⟨‹_›, rfl⟩

theorem step_test_cases {w : W} (hs : step guarded s (.test w) = some t) :
    ∃ k, s.place w = .locking k ∧
      (s.running = false ∧ t = s.move w (.inside k) ∨
        s.running = true ∧ s.locked k = false ∧
          t = { s.move w (.inside k) with locked := Function.update s.locked k true } ∨
        s.running = true ∧ s.locked k = true ∧ t = { s with asleep := w :: s.asleep }) := by
  rw [step] at hs
  split at hs
  · rename_i k hk
    refine ⟨k, hk, ?_⟩
    split_ifs at hs with _ hrun hfree <;> cases hs
    · exact Or.inl ⟨hrun, rfl⟩
    · exact Or.inr (Or.inl ⟨Bool.not_eq_false _ ▸ hrun, hfree, rfl⟩)
    · exact Or.inr (Or.inr ⟨Bool.not_eq_false _ ▸ hrun, Bool.not_eq_false _ ▸ hfree, rfl⟩)
  · cases hs

theorem step_wake_cases {w : W} (hs : step guarded s (.wake w) = some t) :
    w ∈ s.asleep ∧ t = { s with asleep := s.asleep.erase w } := by
  rw [step] at hs
  split at hs <;> cases hs
  exact ⟨‹_›, rfl⟩

theorem step_unlock_cases {w : W} {woken : List W}
    (hs : step guarded s (.unlock w woken) = some t) :
    ∃ k, s.place w = .inside k ∧
      (guarded k = false ∧ t = s.move w .outside ∨
        guarded k = true ∧ t = { s.move w .outside with
          locked := Function.update s.locked k false
          asleep := s.asleep.filter (· ∉ woken) }) := by
  rw [step] at hs
  split at hs
  · rename_i k hk
    refine ⟨k, hk, ?_⟩
    split_ifs at hs with hg <;> cases hs
    · exact Or.inl ⟨hg, rfl⟩
    · exact Or.inr ⟨Bool.not_eq_false _ ▸ hg, rfl⟩
  · cases hs

/-! ## Mutual exclusion -/

omit [DecidableEq K] in
/-- Moving a thread to a place that is no critical section of a guarded key keeps the invariant. -/
theorem Held.move (h : Held guarded s) {w : W} {p : Place K}
    (hp : ∀ k, guarded k = true → p ≠ .inside k) : Held guarded (s.move w p) := by
  have hplace : ∀ v k, guarded k = true → (s.move w p).place v = .inside k →
      s.place v = .inside k := by
    intro v k hk hv
    rw [State.move_place, Function.update_apply] at hv
    split at hv
    · exact absurd hv (hp k hk)
    · exact hv
  exact ⟨fun hr k hk v v' hv hv' =>
      h.exclusive hr k hk v v' (hplace v k hk hv) (hplace v' k hk hv'),
    fun hr v k hk hv => h.locked hr v k hk (hplace v k hk hv)⟩

/-- A thread that sets a clear flag is alone in the critical section. -/
theorem Held.acquire (h : Held guarded s) (hr : s.running = true) {w : W} {k : K}
    (hfree : s.locked k = false) :
    Held guarded { s.move w (.inside k) with locked := Function.update s.locked k true } := by
  -- before the step nobody was in the critical section, or the flag would be set
  have hnone : ∀ v, guarded k = true → s.place v ≠ .inside k := by
    intro v hk hv
    rw [h.locked hr v k hk hv] at hfree
    cases hfree
  have hplace : ∀ v k', guarded k' = true →
      Function.update s.place w (.inside k) v = .inside k' →
      v = w ∧ k' = k ∨ k' ≠ k ∧ s.place v = .inside k' := by
    intro v k' hk' hv
    rw [Function.update_apply] at hv
    split at hv
    · rename_i hvw
      cases hv
      exact Or.inl ⟨hvw, rfl⟩
    · refine Or.inr ⟨?_, hv⟩
      rintro rfl
      exact hnone v hk' hv
  constructor
  · intro _ k' hk' v v' hv hv'
    rcases hplace v k' hk' hv with ⟨rfl, rfl⟩ | ⟨hne, hv⟩ <;>
      rcases hplace v' k' hk' hv' with ⟨rfl, heq⟩ | ⟨hne', hv'⟩
    · rfl
    · exact absurd rfl hne'
    · exact absurd heq hne
    · exact h.exclusive hr k' hk' v v' hv hv'
  · intro _ v k' hk' hv
    change Function.update s.locked k true k' = true
    rw [Function.update_apply]
    split
    · rfl
    · rename_i hne
      rcases hplace v k' hk' hv with ⟨-, rfl⟩ | ⟨-, hv⟩
      · exact absurd rfl hne
      · exact h.locked hr v k' hk' hv

/-- A thread that leaves its critical section may clear the flag. -/
theorem Held.release (h : Held guarded s) {w : W} {k : K} (hw : s.place w = .inside k)
    (asleep : List W) :
    Held guarded { s.move w .outside with
      locked := Function.update s.locked k false, asleep := asleep } := by
  have hm := h.move (w := w) (p := .outside) fun _ _ => nofun
  refine ⟨hm.exclusive, fun hr v k' hk' hv => ?_⟩
  change Function.update s.locked k false k' = true
  have hv' : s.place v = .inside k' ∧ v ≠ w := by
    change Function.update s.place w .outside v = .inside k' at hv
    rw [Function.update_apply] at hv
    split at hv
    · cases hv
    · exact ⟨hv, ‹_›⟩
  rw [Function.update_apply, if_neg]
  · exact h.locked hr v k' hk' hv'.1
  · rintro rfl
    exact hv'.2 (h.exclusive hr k' hk' v w hv'.1 hw)

/-- **Every step keeps mutual exclusion.** -/
theorem Held.step (h : Held guarded s) {a : Act W K} (hs : KeyedLock.step guarded s a = some t) :
    Held guarded t := by
  cases a with
  | call w k =>
    obtain ⟨-, rfl⟩ := step_call_cases hs
    refine h.move fun k' hk' => ?_
    split
    · nofun
    · rintro ⟨rfl⟩
      contradiction
  | test w =>
    obtain ⟨k, -, ⟨hrun, rfl⟩ | ⟨hrun, hfree, rfl⟩ | ⟨-, -, rfl⟩⟩ := step_test_cases hs
    · exact .of_halted hrun
    · exact h.acquire hrun hfree
    · exact ⟨h.exclusive, h.locked⟩
  | wake w =>
    obtain ⟨-, rfl⟩ := step_wake_cases hs
    exact ⟨h.exclusive, h.locked⟩
  | unlock w woken =>
    obtain ⟨k, hk, ⟨-, rfl⟩ | ⟨-, rfl⟩⟩ := step_unlock_cases hs
    · exact h.move fun _ _ => nofun
    · exact h.release hk _
  | halt =>
    cases hs
    exact .of_halted rfl

/-! ## Whose the flags are -/

/-- A flag is set only while a thread is in the critical section of its key. -/
def Taken (s : State W K) : Prop := ∀ k, s.locked k = true → ∃ w, s.place w = .inside k

omit [DecidableEq K] in
/-- A thread that is in no critical section moves. -/
theorem Taken.move (h : Taken s) {w : W} (hw : ∀ k, s.place w ≠ .inside k) (p : Place K) :
    Taken (s.move w p) := by
  intro k hk
  obtain ⟨v, hv⟩ := h k hk
  refine ⟨v, ?_⟩
  rw [State.move_place, Function.update_of_ne, hv]
  rintro rfl
  exact hw k hv

/-- **Where every key is guarded, no flag stays set** behind a thread that leaves. -/
theorem Taken.step (h : Taken s) (hall : ∀ k, guarded k = true) (hrun : s.running = true)
    {a : Act W K} (hs : KeyedLock.step guarded s a = some t) : Taken t := by
  cases a with
  | call w k =>
    obtain ⟨hw, rfl⟩ := step_call_cases hs
    exact h.move (by rw [hw]; nofun) _
  | test w =>
    obtain ⟨k, hk, ⟨hhalt, -⟩ | ⟨-, -, rfl⟩ | ⟨-, -, rfl⟩⟩ := step_test_cases hs
    · cases hrun.symm.trans hhalt
    · intro k' hk'
      obtain rfl | hne := eq_or_ne k' k
      · exact ⟨w, Function.update_self w _ s.place⟩
      · exact h.move (w := w) (by rw [hk]; nofun) _ k' ((Function.update_of_ne hne _ _).symm.trans hk')
    · exact h
  | wake w =>
    obtain ⟨-, rfl⟩ := step_wake_cases hs
    exact h
  | unlock w woken =>
    obtain ⟨k, hk, ⟨hg, -⟩ | ⟨-, rfl⟩⟩ := step_unlock_cases hs
    · cases (hall k).symm.trans hg
    · intro k' hk'
      obtain rfl | hne := eq_or_ne k' k
      · cases (Function.update_self k' false s.locked).symm.trans hk'
      · obtain ⟨v, hv⟩ := h k' ((Function.update_of_ne hne _ _).symm.trans hk')
        refine ⟨v, (Function.update_of_ne ?_ _ _).trans hv⟩
        rintro rfl
        cases hk.symm.trans hv
        exact hne rfl
  | halt =>
    cases hs
    exact h

/-- A thread sleeps that waits for the key. -/
def State.Waiting (s : State W K) (k : K) : Prop := ∃ v ∈ s.asleep, s.place v = .locking k

instance (s : State W K) (k : K) : Decidable (s.Waiting k) :=
  inferInstanceAs (Decidable (∃ v ∈ s.asleep, s.place v = .locking k))

/-- A critical section of a key that is not guarded is entered without a test. -/
theorem step_call_of_not_guarded {w : W} {k : K} (hk : guarded k = false)
    (hw : s.place w = .outside) :
    KeyedLock.step guarded s (.call w k) = some (s.move w (.inside k)) := by
  rw [KeyedLock.step, hw, hk]
  rfl

end KeyedLock
