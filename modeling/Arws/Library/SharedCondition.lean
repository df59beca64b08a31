import Arws.Library.KeyedLock

/-!
# A condition that all keys share

The keyed lock of `KeyedLock`, in more detail: which condition a thread sleeps on, and what the table of
flags has room for.

* The condition is created by the first call of `lock`, without the mutex.  A thread that has found none
  creates one, even if another thread has done so meanwhile; from then on everybody uses the new one, and
  who sleeps on the old one is not reached by any signal.
* The table grows, and `ensure` may fail to make room for the flag of a key.  The thread then sleeps as if
  the key were locked.
* A signal wakes at least one of those who sleep on the condition, whichever key it waits for.

`NoLostWakeup` says that the waiters for a key whose flag is clear are not all left asleep.  It holds in
the runs whose signals and tests fit (`attended_of_reach`), and `noLostWakeup_unlock_iff` and
`noLostWakeup_test_iff` say that they have to.  `lock_reach` takes the details off again: every run is one
of the keyed lock.
-/

set_option autoImplicit false

namespace SharedCondition

variable {W K T A : Type*}

/-! ## The table of flags -/

/-- A table with a flag for each key, and what is known of its growth. -/
structure FlagTable (T K A : Type*) where
  /-- Keys for which `lock` and `unlock` do anything. -/
  guarded : K → Bool
  /-- Room is made for the flag of a key, if memory is granted; the second value tells whether there is
  some. -/
  ensure : T → K → A → T × Bool
  /-- The table has a flag for the key. -/
  present : T → K → Bool
  /-- The table has one for good. -/
  Holds : T → K → Prop
  holds_ensure : ∀ t k a, (ensure t k a).2 = true → Holds (ensure t k a).1 k
  holds_mono : ∀ t k k' a, Holds t k → Holds (ensure t k' a).1 k
  present_of_holds : ∀ t k, Holds t k → present t k = true

/-! ## The threads -/

/-- Where a thread is. -/
inductive Place (K : Type*)
  | outside
  /-- It has found no condition and is about to create one. -/
  | creating (k : K)
  /-- At the test in the loop of `lock`. -/
  | locking (k : K)
  /-- Between a `lock` that returned and its `unlock`. -/
  | inside (k : K)
  deriving DecidableEq

structure State (W K T : Type*) where
  /-- The system has not been halted. -/
  running : Bool
  table : T
  /-- The flag of each key. -/
  locked : K → Bool
  place : W → Place K
  /-- How many conditions were created; the last one is in use. -/
  conds : Nat
  /-- The threads asleep, each with its condition. -/
  asleep : List (W × Nat)
  /-- The threads that were woken and have not made the test again. -/
  woken : List W

inductive Act (W K A : Type*)
  /-- The thread calls `lock` and looks for the condition. -/
  | call (w : W) (k : K)
  /-- The thread has created a condition and puts it in the place of the one in use. -/
  | create (w : W)
  /-- The thread, which is awake and has the mutex, makes the test of the loop. -/
  | test (w : W) (a : A)
  /-- The thread wakes although nobody signalled. -/
  | wake (w : W)
  /-- The thread calls `unlock`; its signal wakes the threads `woken`. -/
  | unlock (w : W) (woken : List W)
  /-- The system is halted. -/
  | halt

/-- Nothing is locked, nobody is in the code of the lock, and there is no condition. -/
def State.start (table : T) : State W K T := ⟨true, table, fun _ => false, fun _ => .outside, 0, [], []⟩

/-- A thread sleeps that waits for the key. -/
def State.Waiting (s : State W K T) (k : K) : Prop := ∃ p ∈ s.asleep, s.place p.1 = .locking k

/-- A thread that waits for the key was woken and has not made the test again. -/
def State.Roused (s : State W K T) (k : K) : Prop := ∃ v ∈ s.woken, s.place v = .locking k

/-- **No wakeup is lost**: where a thread sleeps that waits for a key, the flag of the key is set or
another one that waits for it was woken. -/
def NoLostWakeup (s : State W K T) : Prop := ∀ k, s.Waiting k → s.locked k = true ∨ s.Roused k

variable [DecidableEq W]

def State.move (s : State W K T) (w : W) (p : Place K) : State W K T :=
  { s with place := Function.update s.place w p }

/-- The threads are woken. -/
def State.rouse (s : State W K T) (woken : List W) : State W K T :=
  { s with asleep := s.asleep.filter fun p => p.1 ∉ woken, woken := s.woken ++ woken }

variable [DecidableEq K]

/-- **The test of the loop.**  The flags that the table has no room for any more are gone. -/
def State.test (flags : FlagTable T K A) (s : State W K T) (w : W) (k : K) (a : A) : State W K T :=
  if s.running = false then { s.move w (.inside k) with woken := s.woken.filter (· ≠ w) }
  else
    let made := flags.ensure s.table k a
    let locked := fun k' => s.locked k' && flags.present made.1 k'
    if made.2 = true ∧ locked k = false then
      { s.move w (.inside k) with
        table := made.1
        locked := Function.update locked k true
        woken := s.woken.filter (· ≠ w) }
    else
      { s with
        table := made.1
        locked := locked
        asleep := (w, s.conds) :: s.asleep
        woken := s.woken.filter (· ≠ w) }

/-- One step of a thread. -/
def step (flags : FlagTable T K A) (s : State W K T) : Act W K A → Option (State W K T)
  | .call w k =>
    match s.place w with
    | .outside => some (s.move w (if flags.guarded k = false then .inside k
        else if s.conds = 0 then .creating k else .locking k))
    | _ => none
  | .create w =>
    match s.place w with
    | .creating k => some { s.move w (.locking k) with conds := s.conds + 1 }
    | _ => none
  | .test w a =>
    match s.place w with
    | .locking k => if w ∈ s.asleep.map Prod.fst then none else some (s.test flags w k a)
    | _ => none
  | .wake w => if w ∈ s.asleep.map Prod.fst then some (s.rouse [w]) else none
  | .unlock w woken =>
    match s.place w with
    | .inside k =>
      if flags.guarded k = false ∨ flags.present s.table k = false then some (s.move w .outside)
      else if (∀ v ∈ woken, (v, s.conds) ∈ s.asleep) ∧
          (woken = [] → ∀ p ∈ s.asleep, p.2 ≠ s.conds) then
        some { (s.move w .outside).rouse woken with locked := Function.update s.locked k false }
      else none
    | _ => none
  | .halt => some { s with running := false }

def machine (W : Type*) [DecidableEq W] (flags : FlagTable T K A) (table : T) :
    Machine (State W K T) (Act W K A) where
  init s := s = .start table
  step := step flags

variable {flags : FlagTable T K A} {table : T} {s t : State W K T} {a : Act W K A}

/-! ## What a step does -/

/-- A flag that is set is one the table has for good. -/
def State.Kept (flags : FlagTable T K A) (s : State W K T) : Prop :=
  ∀ k, s.locked k = true → flags.Holds s.table k

theorem step_call_cases {w : W} {k : K} (hs : step flags s (.call w k) = some t) :
    s.place w = .outside ∧ t = s.move w (if flags.guarded k = false then .inside k
      else if s.conds = 0 then .creating k else .locking k) := by
  rw [step] at hs
  split at hs <;> cases hs
  exact ⟨‹_›, rfl⟩

theorem step_create_cases {w : W} (hs : step flags s (.create w) = some t) :
    ∃ k, s.place w = .creating k ∧ t = { s.move w (.locking k) with conds := s.conds + 1 } := by
  rw [step] at hs
  split at hs <;> cases hs
  exact ⟨_, ‹_›, rfl⟩

theorem step_wake_cases {w : W} (hs : step flags s (.wake w) = some t) :
    w ∈ s.asleep.map Prod.fst ∧ t = s.rouse [w] := by
  rw [step] at hs
  split at hs <;> cases hs
  exact ⟨‹_›, rfl⟩

omit [DecidableEq W] [DecidableEq K] in
/-- No growth of the table takes a flag away. -/
theorem State.Kept.locked_ensure (h : s.Kept flags) (k : K) (a : A) :
    (fun k' => s.locked k' && flags.present (flags.ensure s.table k a).1 k') = s.locked := by
  funext k'
  cases hk : s.locked k' with
  | false => rfl
  | true => rw [flags.present_of_holds _ _ (flags.holds_mono _ _ k a (h k' hk)), Bool.and_true]

theorem step_test_cases (h : s.Kept flags) {w : W} {a : A} (hs : step flags s (.test w a) = some t) :
    ∃ k, s.place w = .locking k ∧ w ∉ s.asleep.map Prod.fst ∧
      (s.running = false ∧ t = { s.move w (.inside k) with woken := s.woken.filter (· ≠ w) } ∨
        s.running = true ∧ (flags.ensure s.table k a).2 = true ∧ s.locked k = false ∧
          t = { s.move w (.inside k) with
            table := (flags.ensure s.table k a).1
            locked := Function.update s.locked k true
            woken := s.woken.filter (· ≠ w) } ∨
        s.running = true ∧ ((flags.ensure s.table k a).2 = false ∨ s.locked k = true) ∧
          t = { s with
            table := (flags.ensure s.table k a).1
            asleep := (w, s.conds) :: s.asleep
            woken := s.woken.filter (· ≠ w) }) := by
  rw [step] at hs
  split at hs
  · rename_i k hk
    split at hs
    · cases hs
    · rename_i hw
      cases hs
      refine ⟨k, hk, hw, ?_⟩
      have hflag : (s.locked k && flags.present (flags.ensure s.table k a).1 k) = s.locked k :=
        congrFun (h.locked_ensure k a) k
      simp only [State.test, h.locked_ensure, hflag]
      split_ifs with hrun hfree
      · exact .inl ⟨hrun, rfl⟩
      · exact .inr (.inl ⟨Bool.not_eq_false _ ▸ hrun, hfree.1, hfree.2, rfl⟩)
      · refine .inr (.inr ⟨Bool.not_eq_false _ ▸ hrun, ?_, rfl⟩)
        rw [not_and_or, Bool.not_eq_true, Bool.not_eq_false] at hfree
        exact hfree
  · cases hs

theorem step_unlock_cases {w : W} {woken : List W} (hs : step flags s (.unlock w woken) = some t) :
    ∃ k, s.place w = .inside k ∧
      ((flags.guarded k = false ∨ flags.present s.table k = false) ∧ t = s.move w .outside ∨
        flags.guarded k = true ∧ flags.present s.table k = true ∧
          (∀ v ∈ woken, (v, s.conds) ∈ s.asleep) ∧ (woken = [] → ∀ p ∈ s.asleep, p.2 ≠ s.conds) ∧
          t = { (s.move w .outside).rouse woken with locked := Function.update s.locked k false }) := by
  rw [step] at hs
  split at hs
  · rename_i k hk
    refine ⟨k, hk, ?_⟩
    split_ifs at hs with hout hsignal <;> cases hs
    · exact .inl ⟨hout, rfl⟩
    · rw [not_or, Bool.not_eq_false, Bool.not_eq_false] at hout
      exact .inr ⟨hout.1, hout.2, hsignal.1, hsignal.2, rfl⟩
  · cases hs

/-- **Every step keeps the flags.** -/
theorem State.Kept.step (h : s.Kept flags) (hs : SharedCondition.step flags s a = some t) :
    t.Kept flags := by
  cases a with
  | call w k =>
    obtain ⟨-, rfl⟩ := step_call_cases hs
    exact h
  | create w =>
    obtain ⟨k, -, rfl⟩ := step_create_cases hs
    exact h
  | test w a =>
    obtain ⟨k, -, -, ⟨-, rfl⟩ | ⟨-, hmade, -, rfl⟩ | ⟨-, -, rfl⟩⟩ := step_test_cases h hs
    · exact h
    · intro k' hk'
      by_cases hkk : k' = k
      · rw [hkk]
        exact flags.holds_ensure _ _ _ hmade
      · exact flags.holds_mono _ _ _ _ (h k' ((Function.update_of_ne hkk ..).symm.trans hk'))
    · exact fun k' hk' => flags.holds_mono _ _ _ _ (h k' hk')
  | wake w =>
    obtain ⟨-, rfl⟩ := step_wake_cases hs
    exact h
  | unlock w woken =>
    obtain ⟨k, -, ⟨-, rfl⟩ | ⟨-, -, -, -, rfl⟩⟩ := step_unlock_cases hs
    · exact h
    · intro k' hk'
      by_cases hkk : k' = k
      · rw [hkk] at hk'
        exact absurd ((Function.update_self ..).symm.trans hk') Bool.false_ne_true
      · exact h k' ((Function.update_of_ne hkk ..).symm.trans hk')
  | halt =>
    cases hs
    exact h

/-! ## The details taken off -/

/-- Where a thread is in the keyed lock. -/
def Place.plain : Place K → KeyedLock.Place K
  | .outside => .outside
  | .creating k => .locking k
  | .locking k => .locking k
  | .inside k => .inside k

/-- The state as the keyed lock has it, where a sleeper is a thread that takes its time with the test. -/
def State.lock (s : State W K T) : KeyedLock.State W K :=
  ⟨s.running, s.locked, fun w => (s.place w).plain, []⟩

omit [DecidableEq K] in
theorem State.lock_move (s : State W K T) (w : W) (p : Place K) :
    (s.move w p).lock = s.lock.move w p.plain := by
  refine congrArg (fun place => KeyedLock.State.mk s.running s.locked place []) ?_
  funext v
  show (Function.update s.place w p v).plain =
    Function.update (fun w => (s.place w).plain) w p.plain v
  rw [Function.update_apply, Function.update_apply]
  split <;> rfl

def keyedLock (W : Type*) [DecidableEq W] (guarded : K → Bool) :
    Machine (KeyedLock.State W K) (KeyedLock.Act W K) where
  init s := s = .start
  step := KeyedLock.step guarded

/-- **A step is one of the keyed lock**, or none. -/
theorem lock_step (h : s.Kept flags) (hs : step flags s a = some t) :
    t.lock = s.lock ∨ ∃ b, KeyedLock.step flags.guarded s.lock b = some t.lock := by
  cases a with
  | call w k =>
    obtain ⟨hw, rfl⟩ := step_call_cases hs
    refine .inr ⟨.call w k, ?_⟩
    rw [KeyedLock.step, show s.lock.place w = .outside from congrArg Place.plain hw, State.lock_move]
    refine congrArg (fun p => some (s.lock.move w p)) ?_
    cases flags.guarded k with
    | false => rfl
    | true => by_cases hc : s.conds = 0 <;> simp [hc, Place.plain]
  | create w =>
    obtain ⟨k, hw, rfl⟩ := step_create_cases hs
    refine .inl ((State.lock_move s w _).trans ?_)
    have hplace : s.lock.place w = .locking k := congrArg Place.plain hw
    rw [Place.plain, KeyedLock.State.move, ← hplace, Function.update_eq_self]
  | test w a =>
    obtain ⟨k, hw, -, hcases⟩ := step_test_cases h hs
    have hplace : s.lock.place w = .locking k := congrArg Place.plain hw
    have hawake : w ∉ s.lock.asleep := List.not_mem_nil
    obtain ⟨hrun, rfl⟩ | ⟨hrun, -, hfree, rfl⟩ | ⟨-, -, rfl⟩ := hcases
    · refine .inr ⟨.test w, ?_⟩
      rw [KeyedLock.step, hplace]
      simp only
      rw [if_neg hawake, if_pos (show s.lock.running = false from hrun)]
      exact congrArg some (State.lock_move s w (.inside k)).symm
    · refine .inr ⟨.test w, ?_⟩
      rw [KeyedLock.step, hplace]
      simp only
      rw [if_neg hawake, if_neg (by rw [show s.lock.running = true from hrun]; decide),
        if_pos (show s.lock.locked k = false from hfree)]
      refine congrArg some ?_
      rw [show KeyedLock.Place.inside k = Place.plain (.inside k) from rfl, ← State.lock_move]
      rfl
    · exact .inl rfl
  | wake w =>
    obtain ⟨-, rfl⟩ := step_wake_cases hs
    exact .inl rfl
  | unlock w woken =>
    obtain ⟨k, hw, hcases⟩ := step_unlock_cases hs
    have hplace : s.lock.place w = .inside k := congrArg Place.plain hw
    refine .inr ⟨.unlock w [], ?_⟩
    rw [KeyedLock.step, hplace]
    simp only
    by_cases hg : flags.guarded k = false
    · rw [if_pos hg]
      obtain ⟨-, rfl⟩ | ⟨hguarded, -⟩ := hcases
      · exact congrArg some (State.lock_move s w .outside).symm
      · exact absurd hg (by rw [hguarded]; decide)
    · rw [if_neg hg, if_pos ⟨fun v hv => absurd hv List.not_mem_nil, fun _ => rfl⟩]
      refine congrArg some ?_
      obtain ⟨hout, rfl⟩ | ⟨-, -, -, -, rfl⟩ := hcases
      · -- the flag that is not in the table is clear
        have hfree : s.locked k = false := by
          by_contra hlocked
          have hpresent := flags.present_of_holds _ _ (h k (Bool.not_eq_false _ ▸ hlocked))
          rw [hout.resolve_left hg] at hpresent
          cases hpresent
        have hsame : Function.update s.lock.locked k false = s.lock.locked := by
          rw [← show s.lock.locked k = false from hfree, Function.update_eq_self]
        rw [hsame, State.lock_move]
        rfl
      · have hmoved := State.lock_move s w .outside
        rw [show KeyedLock.Place.outside = Place.plain (.outside : Place K) from rfl, ← hmoved]
        rfl
  | halt =>
    cases hs
    exact .inr ⟨.halt, rfl⟩

/-- **Every run is one of the keyed lock.** -/
theorem lock_reach (h : (machine W flags table).Reach s) :
    s.Kept flags ∧ (keyedLock W flags.guarded).Reach s.lock := by
  refine h.invariant (I := fun s => s.Kept flags ∧ (keyedLock W flags.guarded).Reach s.lock) ?_ ?_
  · rintro s rfl
    exact ⟨nofun, .start rfl⟩
  · rintro s a t ⟨hkept, hreach⟩ - hs
    refine ⟨hkept.step hs, ?_⟩
    obtain heq | ⟨b, hb⟩ := lock_step hkept hs
    · rw [heq]
      exact hreach
    · exact hreach.next trivial hb

/-- So two threads are never in the critical section of one guarded key while the system runs. -/
theorem exclusive_of_reach (h : (machine W flags table).Reach s) :
    KeyedLock.Exclusive flags.guarded s.lock := by
  have hheld : KeyedLock.Held flags.guarded s.lock := by
    refine (lock_reach h).2.invariant ?_ fun s b t hI _ hb => hI.step hb
    rintro s rfl
    exact .start flags.guarded
  exact hheld.exclusive

/-! ## Lost wakeups -/

/-- Beside the thread, another one was woken that waits for the key. -/
def State.RousedBut (s : State W K T) (w : W) (k : K) : Prop :=
  ∃ v ∈ s.woken, v ≠ w ∧ s.place v = .locking k

/-- What a thread has to find when it leaves the sleepers for its key to others: because the system is
halted, or because it becomes a sleeper itself when there is no room for the flag. -/
def TestFits (flags : FlagTable T K A) (s : State W K T) (w : W) (k : K) (a : A) : Prop :=
  (if s.running = false then s.Waiting k else (flags.ensure s.table k a).2 = false) →
    s.locked k = true ∨ s.RousedBut w k

/-- When a key is unlocked that a thread sleeps for, somebody sleeps on the condition in use and everybody
who does so waits for this key, or one that waits for it was woken before; and tests fit. -/
def SignalFits (flags : FlagTable T K A) (s : State W K T) : Act W K A → Prop
  | .unlock w _ => ∀ k, s.place w = .inside k → flags.guarded k = true →
      flags.present s.table k = true → s.Waiting k →
        ((∃ p ∈ s.asleep, p.2 = s.conds) ∧ ∀ p ∈ s.asleep, p.2 = s.conds → s.place p.1 = .locking k) ∨
          s.Roused k
  | .test w a => ∀ k, s.place w = .locking k → TestFits flags s w k a
  | _ => True

instance (s : State W K T) (k : K) : Decidable (s.Waiting k) :=
  inferInstanceAs (Decidable (∃ p ∈ s.asleep, s.place p.1 = .locking k))

instance (s : State W K T) (k : K) : Decidable (s.Roused k) :=
  inferInstanceAs (Decidable (∃ v ∈ s.woken, s.place v = .locking k))

instance (s : State W K T) (w : W) (k : K) : Decidable (s.RousedBut w k) :=
  inferInstanceAs (Decidable (∃ v ∈ s.woken, v ≠ w ∧ s.place v = .locking k))

instance (s : State W K T) (w : W) (k : K) (a : A) : Decidable (TestFits flags s w k a) :=
  inferInstanceAs (Decidable ((if s.running = false then s.Waiting k
    else (flags.ensure s.table k a).2 = false) → s.locked k = true ∨ s.RousedBut w k))

instance (s : State W K T) : (a : Act W K A) → Decidable (SignalFits flags s a)
  | .unlock w _ =>
    match hw : s.place w with
    | .inside k =>
      decidable_of_iff (flags.guarded k = true → flags.present s.table k = true → s.Waiting k →
          ((∃ p ∈ s.asleep, p.2 = s.conds) ∧
            ∀ p ∈ s.asleep, p.2 = s.conds → s.place p.1 = .locking k) ∨ s.Roused k)
        ⟨fun h _ hk => Place.inside.inj (hw.symm.trans hk) ▸ h, fun h => h k hw⟩
    | .outside => isTrue fun _ hk => nomatch hw.symm.trans hk
    | .creating _ => isTrue fun _ hk => nomatch hw.symm.trans hk
    | .locking _ => isTrue fun _ hk => nomatch hw.symm.trans hk
  | .test w a =>
    match hw : s.place w with
    | .locking k =>
      decidable_of_iff (TestFits flags s w k a)
        ⟨fun h _ hk => Place.locking.inj (hw.symm.trans hk) ▸ h, fun h => h k hw⟩
    | .outside => isTrue fun _ hk => nomatch hw.symm.trans hk
    | .creating _ => isTrue fun _ hk => nomatch hw.symm.trans hk
    | .inside _ => isTrue fun _ hk => nomatch hw.symm.trans hk
  | .call .. => isTrue trivial
  | .create _ => isTrue trivial
  | .wake _ => isTrue trivial
  | .halt => isTrue trivial

omit [DecidableEq W] [DecidableEq K] in
/-- What carries it: a sleeper is at the test of its loop. -/
structure Attended (flags : FlagTable T K A) (s : State W K T) : Prop where
  asleep : ∀ p ∈ s.asleep, ∃ k, s.place p.1 = .locking k
  kept : s.Kept flags
  noLost : NoLostWakeup s

omit [DecidableEq W] [DecidableEq K] in
theorem Attended.start (flags : FlagTable T K A) (table : T) :
    Attended flags (State.start table : State W K T) where
  asleep := fun _ hp => absurd hp List.not_mem_nil
  kept := nofun
  noLost := fun _ hwait => absurd hwait.choose_spec.1 List.not_mem_nil

omit [DecidableEq W] [DecidableEq K] in
/-- A thread that is not at the test is not asleep. -/
theorem Attended.ne_of_mem (h : Attended flags s) {w : W} (hw : ∀ k, s.place w ≠ .locking k)
    {p : W × Nat} (hp : p ∈ s.asleep) : p.1 ≠ w := by
  rintro rfl
  obtain ⟨k, hk⟩ := h.asleep p hp
  exact hw k hk

omit [DecidableEq K] in
theorem State.move_place_of_ne (s : State W K T) {w v : W} (hv : v ≠ w) (p : Place K) :
    (s.move w p).place v = s.place v := Function.update_of_ne hv ..

omit [DecidableEq K] in
/-- A thread that is not at the test goes somewhere. -/
theorem Attended.move (h : Attended flags s) {w : W} (hw : ∀ k, s.place w ≠ .locking k) (p : Place K) :
    Attended flags (s.move w p) where
  asleep := fun q hq => by
    rw [s.move_place_of_ne (h.ne_of_mem hw hq)]
    exact h.asleep q hq
  kept := h.kept
  noLost := by
    rintro k ⟨q, hq, hqk⟩
    rw [s.move_place_of_ne (h.ne_of_mem hw hq)] at hqk
    refine (h.noLost k ⟨q, hq, hqk⟩).imp_right ?_
    rintro ⟨v, hv, hvk⟩
    refine ⟨v, hv, (s.move_place_of_ne ?_ p).trans hvk⟩
    rintro rfl
    exact hw k hvk

omit [DecidableEq K] in
theorem State.mem_rouse {s : State W K T} {woken : List W} {p : W × Nat} :
    p ∈ (s.rouse woken).asleep ↔ p ∈ s.asleep ∧ p.1 ∉ woken := by
  rw [State.rouse, List.mem_filter, decide_eq_true_eq]

omit [DecidableEq K] in
/-- Whoever is woken, no wakeup is lost by it. -/
theorem Attended.rouse (h : Attended flags s) (woken : List W) : Attended flags (s.rouse woken) where
  asleep := fun p hp => h.asleep p (State.mem_rouse.1 hp).1
  kept := h.kept
  noLost := by
    rintro k ⟨p, hp, hpk⟩
    refine (h.noLost k ⟨p, (State.mem_rouse.1 hp).1, hpk⟩).imp_right ?_
    rintro ⟨v, hv, hvk⟩
    exact ⟨v, List.mem_append_left _ hv, hvk⟩

/-- **A test** loses no wakeup exactly if it fits. -/
theorem noLostWakeup_test_iff (h : Attended flags s) {w : W} {a : A}
    (hs : step flags s (.test w a) = some t) : NoLostWakeup t ↔ SignalFits flags s (.test w a) := by
  obtain ⟨k, hplace, hawake, hcases⟩ := step_test_cases h.kept hs
  have hne : ∀ p ∈ s.asleep, p.1 ≠ w := by
    rintro p hp rfl
    exact hawake (List.mem_map_of_mem hp)
  have hfits : SignalFits flags s (.test w a) ↔ TestFits flags s w k a :=
    ⟨fun hfit => hfit k hplace, fun hfit k' hk' => Place.locking.inj (hplace.symm.trans hk') ▸ hfit⟩
  -- the thread waits for no other key
  have hother : ∀ k' v, k' ≠ k → s.place v = .locking k' → v ≠ w := by
    rintro k' v hk' hv rfl
    exact hk' (Place.locking.inj (hv.symm.trans hplace))
  have hwoken : ∀ v, v ∈ s.woken.filter (· ≠ w) ↔ v ∈ s.woken ∧ v ≠ w := fun v => by
    rw [List.mem_filter, decide_eq_true_eq]
  rw [hfits, TestFits]
  obtain ⟨hrun, rfl⟩ | ⟨hrun, hmade, hfree, rfl⟩ | ⟨hrun, hnot, rfl⟩ := hcases
  · rw [if_pos hrun]
    constructor
    · rintro hlost ⟨p, hp, hpk⟩
      refine (hlost k ⟨p, hp, (s.move_place_of_ne (hne p hp) _).trans hpk⟩).imp_right ?_
      rintro ⟨v, hv, hvk⟩
      obtain ⟨hv, hvw⟩ := (hwoken v).1 hv
      exact ⟨v, hv, hvw, (s.move_place_of_ne hvw _).symm.trans hvk⟩
    · rintro hfit k' ⟨p, hp, hpk⟩
      have hpk' : s.place p.1 = .locking k' := (s.move_place_of_ne (hne p hp) _).symm.trans hpk
      by_cases hk : k' = k
      · rw [hk] at hpk' ⊢
        refine (hfit ⟨p, hp, hpk'⟩).imp_right ?_
        rintro ⟨v, hv, hvw, hvk⟩
        exact ⟨v, (hwoken v).2 ⟨hv, hvw⟩, (s.move_place_of_ne hvw _).trans hvk⟩
      · refine (h.noLost k' ⟨p, hp, hpk'⟩).imp_right ?_
        rintro ⟨v, hv, hvk⟩
        have hvw := hother k' v hk hvk
        exact ⟨v, (hwoken v).2 ⟨hv, hvw⟩, (s.move_place_of_ne hvw _).trans hvk⟩
  · -- the thread takes the key
    rw [if_neg (by rw [hrun]; decide)]
    refine iff_of_true ?_ fun hfull => absurd (hmade.symm.trans hfull) (by decide)
    rintro k' ⟨p, hp, hpk⟩
    by_cases hk : k' = k
    · rw [hk]
      exact .inl (Function.update_self ..)
    · have hpk' : s.place p.1 = .locking k' := (s.move_place_of_ne (hne p hp) _).symm.trans hpk
      refine (h.noLost k' ⟨p, hp, hpk'⟩).imp (fun hl => (Function.update_of_ne hk ..).trans hl) ?_
      rintro ⟨v, hv, hvk⟩
      have hvw := hother k' v hk hvk
      exact ⟨v, (hwoken v).2 ⟨hv, hvw⟩, (s.move_place_of_ne hvw _).trans hvk⟩
  · -- the thread sleeps for the key
    rw [if_neg (by rw [hrun]; decide)]
    constructor
    · rintro hlost -
      refine (hlost k ⟨(w, s.conds), List.mem_cons_self .., hplace⟩).imp_right ?_
      rintro ⟨v, hv, hvk⟩
      obtain ⟨hv, hvw⟩ := (hwoken v).1 hv
      exact ⟨v, hv, hvw, hvk⟩
    · rintro hfit k' ⟨p, hp, hpk⟩
      by_cases hk : k' = k
      · rw [hk]
        refine (hnot.elim hfit Or.inl).imp_right ?_
        rintro ⟨v, hv, hvw, hvk⟩
        exact ⟨v, (hwoken v).2 ⟨hv, hvw⟩, hvk⟩
      · have hp' : p ∈ s.asleep := by
          refine (List.mem_cons.1 hp).resolve_left ?_
          rintro rfl
          exact hother k' w hk hpk rfl
        refine (h.noLost k' ⟨p, hp', hpk⟩).imp_right ?_
        rintro ⟨v, hv, hvk⟩
        exact ⟨v, (hwoken v).2 ⟨hv, hother k' v hk hvk⟩, hvk⟩

/-- A thread that makes the test goes to sleep or on. -/
theorem asleep_test (h : Attended flags s) {w : W} {a : A} (hs : step flags s (.test w a) = some t) :
    ∀ p ∈ t.asleep, ∃ k, t.place p.1 = .locking k := by
  obtain ⟨k, hplace, hawake, hcases⟩ := step_test_cases h.kept hs
  have hmoved : ∀ p ∈ s.asleep, ∃ k', (s.move w (.inside k)).place p.1 = .locking k' := by
    intro p hp
    obtain ⟨k', hk'⟩ := h.asleep p hp
    refine ⟨k', (s.move_place_of_ne ?_ _).trans hk'⟩
    rintro rfl
    exact hawake (List.mem_map_of_mem hp)
  obtain ⟨-, rfl⟩ | ⟨-, -, -, rfl⟩ | ⟨-, -, rfl⟩ := hcases
  · exact hmoved
  · exact hmoved
  · intro p hp
    obtain rfl | hp := List.mem_cons.1 hp
    · exact ⟨k, hplace⟩
    · exact h.asleep p hp

/-- **An unlock loses no wakeup, whoever its signal wakes, exactly if its signal fits**: otherwise it
may wake a waiter for another key, or nobody on the condition in use. -/
theorem noLostWakeup_unlock_iff (h : Attended flags s) (w : W) :
    (∀ woken t, step flags s (.unlock w woken) = some t → NoLostWakeup t) ↔
      SignalFits flags s (.unlock w []) := by
  have hother : ∀ {k}, s.place w = .inside k → ∀ k', s.place w ≠ .locking k' := by
    intro k hplace k'
    rw [hplace]
    nofun
  constructor
  · intro hall k hplace hguard hpresent hwait
    have hmoved := hother hplace
    by_contra hnot
    obtain ⟨hsignal, hnone⟩ := not_or.1 hnot
    -- some signal reaches no waiter for the key
    obtain ⟨woken, hwoken, hsome, hmiss⟩ : ∃ woken : List W, (∀ v ∈ woken, (v, s.conds) ∈ s.asleep) ∧
        (woken = [] → ∀ p ∈ s.asleep, p.2 ≠ s.conds) ∧ ∀ v ∈ woken, s.place v ≠ .locking k := by
      by_cases hex : ∃ p ∈ s.asleep, p.2 = s.conds
      · obtain ⟨v, c, hv, hc, hvk⟩ : ∃ v c, (v, c) ∈ s.asleep ∧ c = s.conds ∧ s.place v ≠ .locking k := by
          by_contra hsame
          refine hsignal ⟨hex, fun p hp hc => ?_⟩
          by_contra hpk
          exact hsame ⟨p.1, p.2, hp, hc, hpk⟩
        subst hc
        refine ⟨[v], fun u hu => ?_, fun hnil => absurd hnil (List.cons_ne_nil _ _), fun u hu => ?_⟩
        · rw [List.mem_singleton.1 hu]
          exact hv
        · rw [List.mem_singleton.1 hu]
          exact hvk
      · exact ⟨[], nofun, fun _ p hp hc => hex ⟨p, hp, hc⟩, nofun⟩
    have hstep : step flags s (.unlock w woken) = some
        { (s.move w .outside).rouse woken with locked := Function.update s.locked k false } := by
      rw [step, hplace]
      simp only
      rw [if_neg (by rw [hguard, hpresent]; decide), if_pos ⟨hwoken, hsome⟩]
    obtain ⟨p, hp, hpk⟩ := hwait
    have hasleep : p ∈ ((s.move w .outside).rouse woken).asleep :=
      State.mem_rouse.2 ⟨hp, fun hmem => hmiss _ hmem hpk⟩
    have hplaceP := (s.move_place_of_ne (h.ne_of_mem hmoved hp) .outside).trans hpk
    obtain hlocked | ⟨v, hv, hvk⟩ := hall woken _ hstep k ⟨p, hasleep, hplaceP⟩
    · exact Bool.false_ne_true ((Function.update_self ..).symm.trans hlocked)
    · have hvw : v ≠ w := by
        rintro rfl
        exact nomatch (Function.update_self ..).symm.trans hvk
      have hvk' := (s.move_place_of_ne hvw .outside).symm.trans hvk
      obtain hv | hv := List.mem_append.1 hv
      · exact hnone ⟨v, hv, hvk'⟩
      · exact hmiss v hv hvk'
  · intro hfits woken t hs k' hwait'
    obtain ⟨k, hplace, hcases⟩ := step_unlock_cases hs
    have hmoved := h.move (hother hplace) .outside
    obtain ⟨-, rfl⟩ | ⟨hguard, hpresent, hwoken, hsome, rfl⟩ := hcases
    · exact hmoved.noLost k' hwait'
    · obtain ⟨p, hp, hpk⟩ := hwait'
      by_cases hk : k' = k
      · rw [hk] at hpk ⊢
        have hp' := (State.mem_rouse.1 hp).1
        have hpk' := (s.move_place_of_ne (h.ne_of_mem (hother hplace) hp') .outside).symm.trans hpk
        refine .inr ?_
        have hrouse : ∀ v, v ∈ s.woken ++ woken → s.place v = .locking k →
            ∃ u ∈ s.woken ++ woken, (s.move w .outside).place u = .locking k := by
          intro v hv hvk
          refine ⟨v, hv, (s.move_place_of_ne ?_ _).trans hvk⟩
          rintro rfl
          exact hother hplace k hvk
        obtain ⟨⟨q, hq, hqc⟩, hall⟩ | ⟨v, hv, hvk⟩ := hfits k hplace hguard hpresent ⟨p, hp', hpk'⟩
        · -- the signal wakes somebody, and everybody it can wake waits for this key
          obtain ⟨v, hv⟩ : ∃ v, v ∈ woken :=
            List.exists_mem_of_ne_nil _ fun hnil => hsome hnil q hq hqc
          exact hrouse v (List.mem_append_right _ hv) (hall _ (hwoken v hv) rfl)
        · exact hrouse v (List.mem_append_left _ hv) hvk
      · refine ((hmoved.rouse woken).noLost k' ⟨p, hp, hpk⟩).imp_left fun hl => ?_
        exact (Function.update_of_ne hk ..).trans hl

/-- **Every step that fits keeps it.** -/
theorem Attended.step (h : Attended flags s) (hfits : SignalFits flags s a)
    (hs : SharedCondition.step flags s a = some t) : Attended flags t := by
  have hkept := h.kept.step hs
  cases a with
  | call w k =>
    obtain ⟨hw, rfl⟩ := step_call_cases hs
    exact h.move (by rw [hw]; nofun) _
  | create w =>
    obtain ⟨k, hw, rfl⟩ := step_create_cases hs
    have hmoved := h.move (w := w) (by rw [hw]; nofun) (.locking k)
    exact ⟨hmoved.asleep, hkept, hmoved.noLost⟩
  | test w a => exact ⟨asleep_test h hs, hkept, (noLostWakeup_test_iff h hs).2 hfits⟩
  | wake w =>
    obtain ⟨-, rfl⟩ := step_wake_cases hs
    exact h.rouse [w]
  | unlock w woken =>
    refine ⟨?_, hkept, (noLostWakeup_unlock_iff h w).2 hfits woken t hs⟩
    obtain ⟨k, hw, hcases⟩ := step_unlock_cases hs
    have hmoved := h.move (w := w) (by rw [hw]; nofun) .outside
    obtain ⟨-, rfl⟩ | ⟨-, -, -, -, rfl⟩ := hcases
    · exact hmoved.asleep
    · exact (hmoved.rouse woken).asleep
  | halt =>
    cases hs
    exact ⟨h.asleep, hkept, h.noLost⟩

/-- **Runs whose signals and tests fit lose no wakeup.** -/
theorem attended_of_reach (h : (machine W flags table).ReachUnder (SignalFits flags) s) :
    Attended flags s := by
  refine h.invariant ?_ fun _ _ _ hI hfits hs => hI.step hfits hs
  rintro s rfl
  exact .start flags table

end SharedCondition
