import Arws.Gateway.DispatchLock
import Arws.Library.SharedCondition
import Mathlib.Order.Lattice

/-!
# Wakeups of the dispatch lock and the query lock

`arws_dispatch_unlock` and `query_unlock_fd` signal the one condition that the waiters for every
backend, or for every descriptor, sleep on.  `ar_cond_signal` wakes one of them, and it need not be
one that waits for what was unlocked: then it finds its own flag set and sleeps again.

`arws_init` creates the two mutexes before there is a thread, but each condition is created by the first
call of `arws_dispatch_lock` or `query_lock_fd`, and by every other one that has found none before; here
`ar_cond_create` succeeds.  `query_locks_ensure` may fail, and then its thread sleeps for a descriptor
that nobody has locked.

* `noLostWakeup_of_signalFits` — no wakeup is lost in a run if whatever is unlocked has a waiter on the
  condition in use and nothing else has one there, or one was woken before, and if nobody leaves a free
  descriptor for want of memory, or sleepers behind when the gateway stops.
* `noLostWakeup_after_unlock_iff` — and an unlock whose signal does not fit can lose one.
* `not_noLostWakeup` — two backends with a waiter each are enough to lose one.
-/

set_option autoImplicit false

namespace Arws
namespace Gateway

open SharedCondition

/-! ## The two tables -/

/-- `dispatch_locks`: an array, whose flags are all there. -/
def dispatchFlags : FlagTable Unit Int Unit where
  guarded := hasDispatchLock
  ensure _ _ _ := ((), true)
  present _ _ := true
  Holds _ _ := True
  holds_ensure _ _ _ _ := trivial
  holds_mono _ _ _ _ _ := trivial
  present_of_holds _ _ _ := rfl

/-- `query_locks_max` and `query_resp_slots_max`. -/
structure QueryRoom where
  locksMax : Nat
  slotsMax : Nat
  slotsMax_le : slotsMax ≤ locksMax

/-- `new_max`: `(fd + 256) & ~255`, and 64 at least. -/
def newMax (fd : Nat) : Nat :=
  let newMax := (fd + 256) / 256 * 256
  if newMax < 64 then 64 else newMax

theorem lt_newMax (fd : Nat) : fd < newMax fd := by
  simp only [newMax]
  split <;> omega

/-- `query_locks_ensure`, for the results of its two calls of `realloc`. -/
def queryLocksEnsure (room : QueryRoom) (fd : Nat) (granted : Bool × Bool) : QueryRoom × Bool :=
  if h : fd < room.locksMax ∧ fd < room.slotsMax then (room, true)
  else
    have hle : room.slotsMax ≤ newMax fd := by
      have := room.slotsMax_le
      have := lt_newMax fd
      omega
    if granted.1 = false then (room, false)
    else if granted.2 = false then (⟨newMax fd, room.slotsMax, hle⟩, false)
    else (⟨newMax fd, newMax fd, le_rfl⟩, true)

/-- `query_locks` may shrink, but not below a slot. -/
theorem slotsMax_le_queryLocksEnsure (room : QueryRoom) (fd : Nat) (granted : Bool × Bool) :
    room.slotsMax ≤ (queryLocksEnsure room fd granted).1.slotsMax := by
  have hmax := room.slotsMax_le
  have hfd := lt_newMax fd
  rw [queryLocksEnsure]
  split_ifs with hroom
  · exact le_rfl
  · exact le_rfl
  · exact le_rfl
  · show room.slotsMax ≤ newMax fd
    omega

theorem lt_slotsMax_of_queryLocksEnsure {room : QueryRoom} {fd : Nat} {granted : Bool × Bool}
    (h : (queryLocksEnsure room fd granted).2 = true) :
    fd < (queryLocksEnsure room fd granted).1.slotsMax := by
  rw [queryLocksEnsure] at h ⊢
  split_ifs at h ⊢ with hroom
  · exact hroom.2
  · exact lt_newMax fd

/-- `query_locks`, which grows with the descriptors.  A flag is set only below `query_resp_slots_max`. -/
def queryFlags : FlagTable QueryRoom Nat (Bool × Bool) where
  guarded _ := true
  ensure := queryLocksEnsure
  present room fd := decide (fd < room.locksMax)
  Holds room fd := fd < room.slotsMax
  holds_ensure _ _ _ := lt_slotsMax_of_queryLocksEnsure
  holds_mono room _ fd granted h := h.trans_le (slotsMax_le_queryLocksEnsure room fd granted)
  present_of_holds room _ h := decide_eq_true (h.trans_le room.slotsMax_le)

/-! ## The two locks -/

variable (W : Type*) [DecidableEq W]

/-- The workers in the code of `arws_dispatch_lock` and `arws_dispatch_unlock`. -/
def dispatchLocks : Machine (State W Int Unit) (SharedCondition.Act W Int Unit) := machine W dispatchFlags ()

/-- The handlers in the code of `query_lock_fd` and `query_unlock_fd`. -/
def queryLocks : Machine (State W Nat QueryRoom) (SharedCondition.Act W Nat (Bool × Bool)) :=
  machine W queryFlags ⟨0, 0, le_rfl⟩

variable {W}

/-- **One worker at a backend, and one handler at a descriptor**, also where conditions are created twice
and memory is short. -/
theorem exclusive_of_locks :
    (∀ s, (dispatchLocks W).Reach s → KeyedLock.Exclusive hasDispatchLock s.lock) ∧
      ∀ s, (queryLocks W).Reach s → KeyedLock.Exclusive (fun _ => true) s.lock :=
  ⟨fun _ h => exclusive_of_reach h, fun _ h => exclusive_of_reach h⟩

/-- **No wakeup is lost in either lock**, in the runs whose signals and tests fit. -/
theorem noLostWakeup_of_signalFits :
    (∀ s, (dispatchLocks W).ReachUnder (SignalFits dispatchFlags) s → NoLostWakeup s) ∧
      ∀ s, (queryLocks W).ReachUnder (SignalFits queryFlags) s → NoLostWakeup s :=
  ⟨fun _ h => (attended_of_reach h).noLost, fun _ h => (attended_of_reach h).noLost⟩

/-- A backend and a descriptor are locked, and a thread sleeps for each; the unlock wakes it. -/
theorem noLostWakeup_of_one_waiter : ∃ (s : State Bool Int Unit) (t : State Bool Nat QueryRoom),
    s.locked 1 = false ∧ t.locked 7 = false ∧ s.woken = [false] ∧ t.woken = [false] ∧
      NoLostWakeup s ∧ NoLostWakeup t := by
  obtain ⟨s, hs, hlocked, hwoken⟩ : ∃ s, (dispatchLocks Bool).runUnder (SignalFits dispatchFlags)
      (.start ()) [.call true 1, .create true, .test true (), .call false 1, .test false (),
        .unlock true [false]] = some s ∧ s.locked 1 = false ∧ s.woken = [false] := ⟨_, rfl, rfl, rfl⟩
  obtain ⟨t, ht, hlocked', hwoken'⟩ : ∃ t, (queryLocks Bool).runUnder (SignalFits queryFlags)
      (.start ⟨0, 0, le_rfl⟩) [.call true 7, .create true, .test true (true, true), .call false 7,
        .test false (true, true), .unlock true [false]] = some t ∧
      t.locked 7 = false ∧ t.woken = [false] := ⟨_, rfl, rfl, rfl⟩
  exact ⟨s, t, hlocked, hlocked', hwoken, hwoken',
    noLostWakeup_of_signalFits.1 s (Machine.reachUnder_of_runUnder (.start rfl) hs),
    noLostWakeup_of_signalFits.2 t (Machine.reachUnder_of_runUnder (.start rfl) ht)⟩

/-- **The condition on an unlock is exact**: in the runs so far, whoever the signal wakes, no wakeup
is lost by the unlock that comes next exactly if its signal fits. -/
theorem noLostWakeup_after_unlock_iff (w : W) :
    (∀ s, (dispatchLocks W).ReachUnder (SignalFits dispatchFlags) s →
      ((∀ woken t, step dispatchFlags s (.unlock w woken) = some t → NoLostWakeup t) ↔
        SignalFits dispatchFlags s (.unlock w []))) ∧
      ∀ s, (queryLocks W).ReachUnder (SignalFits queryFlags) s →
        ((∀ woken t, step queryFlags s (.unlock w woken) = some t → NoLostWakeup t) ↔
          SignalFits queryFlags s (.unlock w [])) :=
  ⟨fun _ h => noLostWakeup_unlock_iff (attended_of_reach h) w,
    fun _ h => noLostWakeup_unlock_iff (attended_of_reach h) w⟩

/-- **And so is the condition on a test.** -/
theorem noLostWakeup_after_test_iff {s t : State W Nat QueryRoom} {w : W} {granted : Bool × Bool}
    (h : (queryLocks W).ReachUnder (SignalFits queryFlags) s)
    (hs : (queryLocks W).step s (.test w granted) = some t) :
    NoLostWakeup t ↔ SignalFits queryFlags s (.test w granted) :=
  noLostWakeup_test_iff (attended_of_reach h) hs

/-- Two backends are locked, and a worker sleeps for each; the first is unlocked, and the signal wakes
the worker that waits for the second. -/
private def twoBackends : List (SharedCondition.Act Nat Int Unit) :=
  [.call 0 1, .create 0, .test 0 (), .call 1 2, .test 1 (), .call 2 1, .test 2 (), .call 3 2, .test 3 (),
    .unlock 0 [3]]

/-- **A wakeup can be lost.** -/
theorem not_noLostWakeup : ¬ ∀ s, (dispatchLocks Nat).Reach s → NoLostWakeup s := by
  intro h
  obtain ⟨s, hs, hwait, hlocked, hwoken, hplace⟩ : ∃ s,
      (dispatchLocks Nat).runUnder (fun _ _ => True) (.start ()) twoBackends = some s ∧
        s.Waiting 1 ∧ s.locked 1 = false ∧ s.woken = [3] ∧ s.place 3 = .locking 2 :=
    ⟨_, rfl, ⟨(2, 1), by decide, rfl⟩, rfl, rfl, rfl⟩
  obtain hl | ⟨v, hv, hvk⟩ := h s (Machine.reachUnder_of_runUnder (.start rfl) hs) 1 hwait
  · rw [hlocked] at hl
    cases hl
  · rw [hwoken, List.mem_singleton] at hv
    rw [hv, hplace] at hvk
    cases hvk

end Gateway
end Arws
