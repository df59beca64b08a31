import Arws.Library.Transition
import Arws.Library.KeyedLock
import Arws.Gateway.Registry

/-!
# One worker at a time on a backend's socket

`arws_dispatch` sends a request to a registered backend and reads the answer from the same socket,
between `arws_dispatch_lock` and `arws_dispatch_unlock` of the backend's id.  The table behind
these has a flag for each id below `ARWS_MAX_BACKENDS`, and for any other id both return at once.
Ids are not bounded by the table: the registry hands out the next one to each new name, for ever.

* `oneWorker_iff` — at most one worker is at the backend with an id at a time, in every run, exactly
  if the table has a flag for the id.
* `two_inside` — every id beyond the table is handed out in some run, to a backend that two workers
  are then at together.
-/

set_option autoImplicit false

namespace Arws
namespace Gateway

open CString KeyedLock

variable {W : Type*} [DecidableEq W]

/-- The test both `arws_dispatch_lock` and `arws_dispatch_unlock` start with: `dispatch_locks` has
a flag for the id. -/
def hasDispatchLock (backendId : Int) : Bool :=
  !decide (backendId < 0 ∨ backendId ≥ arwsMaxBackends)

/-- The registry, and `gateway_running`, `dispatch_locks` and the workers in the code of the
lock. -/
structure DispatchState (W : Type*) where
  registry : Registry
  locks : KeyedLock.State W Int

inductive DispatchAct (W : Type*)
  /-- `arws_register_backend`, for a control connection. -/
  | register (name : Bytes) (fd : Int)
  /-- `arws_unregister_backend`, by name or when a connection ends. -/
  | unregister (backendId : Int)
  /-- A worker's step in `arws_dispatch_lock` or `arws_dispatch_unlock`, or `arws_stop`. -/
  | lock (act : KeyedLock.Act W Int)

/-- The branch of `arws_dispatch` that locks is for `route.backend_id >= 0`. -/
def DispatchAct.enabled : DispatchAct W → Bool
  | .lock (.call _ backendId) => decide (0 ≤ backendId)
  | _ => true

def dispatchStep (s : DispatchState W) (act : DispatchAct W) : Option (DispatchState W) :=
  if act.enabled then
    match act with
    | .register name fd => some { s with registry := (arwsRegisterBackend s.registry name fd).1 }
    | .unregister backendId =>
      some { s with registry := (arwsUnregisterBackend s.registry backendId).1 }
    | .lock act => (KeyedLock.step hasDispatchLock s.locks act).map fun l => { s with locks := l }
  else none

/-- After `arws_init` and `arws_start`. -/
def DispatchState.start : DispatchState W := ⟨arwsRegistryInit, .start⟩

def dispatchMachine (W : Type*) [DecidableEq W] : Machine (DispatchState W) (DispatchAct W) where
  init s := s = .start
  step := dispatchStep

/-- **One worker at a time**: while the gateway runs, two workers between `arws_dispatch_lock` and
`arws_dispatch_unlock` of the registered backend with the id are one worker. -/
def OneWorker (s : DispatchState W) (id : Int) : Prop :=
  s.locks.running = true → s.registry.hasId id → ∀ w v,
    s.locks.place w = .inside id → s.locks.place v = .inside id → w = v

/-- What every run keeps: the flags of the table are respected, and ids are counted from 1. -/
theorem held_of_reach {s : DispatchState W} (h : (dispatchMachine W).Reach s) :
    Held hasDispatchLock s.locks ∧ s.registry.Numbered := by
  refine h.invariant (I := fun s => Held hasDispatchLock s.locks ∧ s.registry.Numbered) ?_ ?_
  · rintro s rfl
    exact ⟨.start _, numbered_init⟩
  · rintro s act t ⟨hheld, hnumbered⟩ - hs
    simp only [dispatchMachine, dispatchStep, Option.ite_none_right_eq_some] at hs
    obtain ⟨-, hs⟩ := hs
    cases act with
    | register name fd =>
      cases hs
      exact ⟨hheld, hnumbered.register name fd⟩
    | unregister backendId =>
      cases hs
      exact ⟨hheld, hnumbered.unregister backendId⟩
    | lock act =>
      obtain ⟨l, hl, rfl⟩ := Option.map_eq_some_iff.1 hs
      exact ⟨hheld.step hl, hnumbered⟩

/-- **A backend with an id in the table has one worker at a time**, whatever registrations,
unregistrations and dispatches the run has. -/
theorem oneWorker_of_lt {s : DispatchState W} (h : (dispatchMachine W).Reach s) {id : Int}
    (hid : id < arwsMaxBackends) : OneWorker s id := by
  obtain ⟨hheld, hnumbered⟩ := held_of_reach h
  intro hrun hhas
  have hpos := (hnumbered.ids id hhas).1
  have hguarded : hasDispatchLock id = true := by
    simp only [hasDispatchLock, Bool.not_eq_true', decide_eq_false_iff_not]
    omega
  exact hheld.exclusive hrun id hguarded

/-! ## Ids beyond the table -/

/-- A name that comes and goes uses up the ids. -/
theorem reach_nextBackendId (n : Nat) :
    (dispatchMachine W).Reach ⟨⟨[], n + 1⟩, .start⟩ := by
  induction n with
  | zero => exact .start rfl
  | succ n ih =>
    have hreg : (dispatchMachine W).Reach
        ⟨⟨[⟨n + 1, 0, 0, [], true⟩], n + 1 + 1⟩, .start⟩ :=
      .next (a := .register [] 0) ih trivial rfl
    refine .next (a := .unregister (n + 1)) hreg trivial ?_
    simp [dispatchMachine, dispatchStep, DispatchAct.enabled, arwsUnregisterBackend, removeAt]

/-- A worker that calls for an id beyond the table is at the backend at once. -/
theorem step_call_beyond {s : DispatchState W} {w : W} {id : Int} (hid : arwsMaxBackends ≤ id)
    (hw : s.locks.place w = .outside) :
    (dispatchMachine W).step s (.lock (.call w id)) =
      some { s with locks := s.locks.move w (.inside id) } := by
  have hpos : 0 ≤ id := Int.le_trans (by decide) hid
  have hout : hasDispatchLock id = false := by
    simp only [hasDispatchLock, Bool.not_eq_false', decide_eq_true_eq]
    exact Or.inr hid
  change dispatchStep s _ = _
  rw [dispatchStep, if_pos (show (DispatchAct.lock (.call w id)).enabled = true from
    decide_eq_true hpos)]
  simp only [step_call_of_not_guarded hout hw, Option.map_some]

/-- **Beyond the table there is no lock**: every id from `ARWS_MAX_BACKENDS` on is handed out to
some backend in some run, and two workers are then at that backend together. -/
theorem two_inside {w v : W} (hwv : w ≠ v) {id : Int} (hid : arwsMaxBackends ≤ id) :
    ∃ s, (dispatchMachine W).Reach s ∧ s.locks.running = true ∧
      s.registry.hasId id ∧
      s.locks.place w = .inside id ∧ s.locks.place v = .inside id := by
  obtain ⟨n, rfl⟩ : ∃ n : Nat, id = n + 1 :=
    ⟨(id - 1).toNat, by have : (64 : Int) ≤ id := hid; omega⟩
  have hreg : (dispatchMachine W).Reach ⟨⟨[⟨n + 1, 0, 0, [], true⟩], n + 1 + 1⟩, .start⟩ :=
    .next (a := .register [] 0) (reach_nextBackendId n) trivial rfl
  have hw := Machine.ReachUnder.next hreg trivial (step_call_beyond (w := w) hid rfl)
  have hv := Machine.ReachUnder.next hw trivial (step_call_beyond (w := v) hid
    (by rw [State.move_place, Function.update_of_ne hwv.symm]; rfl))
  refine ⟨_, hv, rfl, ⟨_, List.mem_singleton_self _, rfl⟩, ?_, ?_⟩
  · simp [Function.update_of_ne hwv]
  · simp

/-- **One worker at a time, in every run, exactly if the id is in the table.** -/
theorem oneWorker_iff [Nontrivial W] (id : Int) :
    (∀ s, (dispatchMachine W).Reach s → OneWorker s id) ↔ id < arwsMaxBackends := by
  constructor
  · intro h
    by_contra hid
    obtain ⟨w, v, hwv⟩ := exists_pair_ne W
    obtain ⟨s, hs, hrun, hhas, hw, hv⟩ := two_inside hwv (Int.not_lt.1 hid)
    exact hwv (h s hs hrun hhas w v hw hv)
  · exact fun hid s hs => oneWorker_of_lt hs hid

/-- A backend registers, and two workers call for it. -/
private def twoCalls : List (DispatchAct Bool) :=
  [.register (ascii "app") 3, .lock (.call true 1), .lock (.test true), .lock (.call false 1),
    .lock (.test false)]

/-- One of the two is at the backend, and the other sleeps. -/
theorem oneWorker_one :
    ∃ s, (dispatchMachine Bool).runUnder (fun _ _ => True) .start twoCalls = some s ∧
      s.registry.hasId 1 ∧ s.locks.place true = .inside 1 ∧ s.locks.asleep = [false] ∧
      OneWorker s 1 := by
  have hrun : ∃ s, (dispatchMachine Bool).runUnder (fun _ _ => True) .start twoCalls = some s ∧
      s.registry.hasId 1 ∧ s.locks.place true = .inside 1 ∧ s.locks.asleep = [false] :=
    ⟨_, rfl, ⟨_, List.mem_singleton_self _, rfl⟩, rfl, rfl⟩
  obtain ⟨s, hs, hid, hplace, hasleep⟩ := hrun
  exact ⟨s, hs, hid, hplace, hasleep,
    (oneWorker_iff 1).2 (by decide) s (Machine.reachUnder_of_runUnder (.start rfl) hs)⟩

/-- **Not every run keeps workers apart**: the 64th id is beyond the table. -/
theorem not_oneWorker : ¬ ∀ s, (dispatchMachine Bool).Reach s → ∀ id, OneWorker s id := by
  intro h
  obtain ⟨s, hs, hrun, hhas, ht, hf⟩ := two_inside Bool.false_ne_true (Int.le_refl arwsMaxBackends)
  exact Bool.false_ne_true (h s hs _ hrun hhas false true ht hf)

end Gateway
end Arws
