import Arws.Library.RingBuffer
import Arws.Library.Transition
import Arws.Server.Descriptors

/-!
# The job queue

The accepting thread hands its connections to the workers through `job_queue`.  `pool_push` and
`pool_pop` hold `job_mutex` while they look at the queue; a push that finds no space lets go of the mutex,
sleeps and looks again, and a pop that finds nothing waits for the condition.

The machine has any number of threads, each of which may call either function; what happens while the
mutex is held is one step.

* `poolPush_eq_some`, `poolPop_eq_some` — the queue is a ring buffer, and the two functions are its
  operations.
* `jobQueue_fifo` — in every run the indices fit the count, and what was pushed is what was popped followed
  by what is in the queue.
-/

set_option autoImplicit false

namespace Arws
namespace Server

/-- `job_queue` with its indices; `poolShutdown` is set nowhere. -/
structure JobQueue (α : Type*) where
  jobQueue : ℤ → α
  jobHead : ℤ
  jobTail : ℤ
  jobCount : ℤ
  poolShutdown : Bool

variable {ι α : Type*}

/-- `pool_push` once it holds `job_mutex`, unless it has to let go of it again. -/
def poolPush (ec : α) (q : JobQueue α) : Option (JobQueue α) :=
  if queueSize ≤ q.jobCount ∧ q.poolShutdown = false then none
  else if q.poolShutdown then some q
  else some { q with
    jobQueue := Function.update q.jobQueue q.jobTail ec
    jobTail := (q.jobTail + 1).tmod queueSize
    jobCount := q.jobCount + 1 }

/-- `pool_pop` once it holds `job_mutex`, unless it has to wait; without a job if it returns −1. -/
def poolPop (q : JobQueue α) : Option (Option α × JobQueue α) :=
  if q.jobCount = 0 ∧ q.poolShutdown = false then none
  else if q.poolShutdown ∧ q.jobCount = 0 then some (none, q)
  else some (some (q.jobQueue q.jobHead), { q with
    jobHead := (q.jobHead + 1).tmod queueSize
    jobCount := q.jobCount - 1 })

/-- The jobs in the queue, from `job_head` on. -/
def JobQueue.jobs (q : JobQueue α) : List α :=
  (List.range q.jobCount.toNat).map fun i : ℕ => q.jobQueue ((q.jobHead + i).tmod queueSize)

/-! ## The queue as a ring buffer -/

/-- The indices are those of a ring buffer, and so are the cells. -/
structure Represents (q : JobQueue α) (r : RingBuffer α) : Prop where
  cells : ∀ i : ℕ, q.jobQueue i = r.cells i
  head : q.jobHead = r.head
  tail : q.jobTail = r.tail
  count : q.jobCount = r.count
  running : q.poolShutdown = false

variable {q q' : JobQueue α} {r : RingBuffer α} {ec : α}

theorem succ_tmod (n : ℕ) : ((n : ℤ) + 1).tmod queueSize = ((n + 1) % queueSize : ℕ) := by
  rw [Int.natCast_mod, Int.tmod_eq_emod_of_nonneg (by omega), Int.natCast_succ]

theorem Represents.place (h : Represents q r) (i : ℕ) :
    (q.jobHead + i).tmod queueSize = (r.place queueSize i : ℕ) := by
  rw [h.head, RingBuffer.place, Int.natCast_mod, Int.tmod_eq_emod_of_nonneg (by omega),
    Int.natCast_add]

theorem Represents.jobs (h : Represents q r) : q.jobs = r.contents queueSize := by
  rw [JobQueue.jobs, h.count, Int.toNat_natCast]
  refine List.map_congr_left fun i _ => ?_
  rw [h.place, h.cells]

/-- **A push** goes through if there is space, and puts the connection at the tail. -/
theorem poolPush_eq_some (h : Represents q r) (hq : poolPush ec q = some q') :
    r.count < queueSize ∧ Represents q' (r.push queueSize ec) := by
  rw [poolPush, h.running, h.count, h.tail, if_neg Bool.false_ne_true] at hq
  split_ifs at hq with hfull
  obtain rfl := Option.some.inj hq
  have hroom : r.count < queueSize := by
    by_contra hle
    exact hfull ⟨by exact_mod_cast not_lt.1 hle, rfl⟩
  refine ⟨hroom, ⟨fun i => ?_, h.head, succ_tmod _, ?_, rfl⟩⟩
  · simp only [RingBuffer.push, Function.update_apply, Int.natCast_inj, h.cells]
  · simp [RingBuffer.push]

/-- **A pop** goes through if the queue is not empty, and takes the connection at the head. -/
theorem poolPop_eq_some {job : Option α} (h : Represents q r) (hq : poolPop q = some (job, q')) :
    0 < r.count ∧ job = some r.first ∧ Represents q' (r.pop queueSize) := by
  rw [poolPop, h.running, h.count, h.head,
    @if_neg (false = true ∧ _) _ fun hboth => Bool.false_ne_true hboth.1] at hq
  split_ifs at hq with hempty
  obtain ⟨rfl, rfl⟩ := Prod.mk.inj (Option.some.inj hq)
  have hpos : 0 < r.count := by
    rw [Nat.pos_iff_ne_zero]
    exact fun hzero => hempty ⟨congrArg Nat.cast hzero, rfl⟩
  refine ⟨hpos, congrArg some (h.cells _), ⟨h.cells, succ_tmod _, h.tail, ?_, rfl⟩⟩
  exact (Int.natCast_pred_of_pos hpos).symm

/-! ## Producers and consumers -/

/-- How far a thread is. -/
inductive PoolThread (α : Type*)
  | idle
  /-- In `pool_push`, without the mutex. -/
  | pushing (ec : α)
  /-- In `pool_pop`, without the mutex. -/
  | popping
  /-- In `ar_cond_wait`. -/
  | waiting

inductive PoolAction (ι α : Type*)
  | callPush (thread : ι) (ec : α)
  | callPop (thread : ι)
  /-- A thread gets the mutex and keeps it until it lets go of it. -/
  | enter (thread : ι)
  /-- `ar_cond_wait` returns, after a signal or without one. -/
  | wake (thread : ι)

/-- The threads and the queue, with what was pushed and what was popped so far. -/
structure PoolState (ι α : Type*) where
  threads : ι → PoolThread α
  queue : JobQueue α
  pushed : List α
  popped : List α

variable [DecidableEq ι]

def PoolState.at (s : PoolState ι α) (thread : ι) (now : PoolThread α) : PoolState ι α :=
  { s with threads := Function.update s.threads thread now }

/-- A push that holds the mutex. -/
def PoolState.enterPush (s : PoolState ι α) (thread : ι) (ec : α) : PoolState ι α :=
  match poolPush ec s.queue with
  | none => s
  | some queue =>
    { s.at thread .idle with
      queue
      pushed := if s.queue.poolShutdown then s.pushed else s.pushed ++ [ec] }

/-- A pop that holds the mutex. -/
def PoolState.enterPop (s : PoolState ι α) (thread : ι) : PoolState ι α :=
  match poolPop s.queue with
  | none => s.at thread .waiting
  | some (job, queue) => { s.at thread .idle with queue, popped := s.popped ++ job.toList }

def poolStep (s : PoolState ι α) : PoolAction ι α → Option (PoolState ι α)
  | .callPush thread ec =>
    match s.threads thread with
    | .idle => some (s.at thread (.pushing ec))
    | _ => none
  | .callPop thread =>
    match s.threads thread with
    | .idle => some (s.at thread .popping)
    | _ => none
  | .enter thread =>
    match s.threads thread with
    | .pushing ec => some (s.enterPush thread ec)
    | .popping => some (s.enterPop thread)
    | _ => none
  | .wake thread =>
    match s.threads thread with
    | .waiting => some (s.at thread .popping)
    | _ => none

/-- `server_start` makes the queue empty; what its cells hold does not matter. -/
def jobMachine (ι α : Type*) [DecidableEq ι] : Machine (PoolState ι α) (PoolAction ι α) where
  init s := (∀ thread, s.threads thread = .idle) ∧ s.queue.jobHead = 0 ∧ s.queue.jobTail = 0 ∧
    s.queue.jobCount = 0 ∧ s.queue.poolShutdown = false ∧ s.pushed = [] ∧ s.popped = []
  step := poolStep

/-- The queue is a ring buffer that holds what was pushed and not popped. -/
def RingHolds (s : PoolState ι α) : Prop :=
  ∃ r : RingBuffer α, Represents s.queue r ∧ r.Valid queueSize ∧
    s.pushed = s.popped ++ r.contents queueSize

theorem RingHolds.enterPush {s : PoolState ι α} (h : RingHolds s) (thread : ι) (ec : α) :
    RingHolds (s.enterPush thread ec) := by
  obtain ⟨r, hr, hvalid, hpushed⟩ := h
  rw [PoolState.enterPush]
  split
  · exact ⟨r, hr, hvalid, hpushed⟩
  · rename_i queue hq
    obtain ⟨hroom, hr'⟩ := poolPush_eq_some hr hq
    refine ⟨r.push queueSize ec, hr', hvalid.push hroom ec, ?_⟩
    calc (if s.queue.poolShutdown then s.pushed else s.pushed ++ [ec])
        = s.pushed ++ [ec] := if_neg (by simp [hr.running])
      _ = s.popped ++ (r.push queueSize ec).contents queueSize := by
          rw [RingBuffer.contents_push hvalid hroom, ← List.append_assoc, ← hpushed]

theorem RingHolds.enterPop {s : PoolState ι α} (h : RingHolds s) (thread : ι) :
    RingHolds (s.enterPop thread) := by
  obtain ⟨r, hr, hvalid, hpushed⟩ := h
  rw [PoolState.enterPop]
  split
  · exact ⟨r, hr, hvalid, hpushed⟩
  · rename_i job queue hq
    obtain ⟨hpos, rfl, hr'⟩ := poolPop_eq_some hr hq
    refine ⟨r.pop queueSize, hr', hvalid.pop hpos, ?_⟩
    calc s.pushed = s.popped ++ r.first :: (r.pop queueSize).contents queueSize := by
          rw [hpushed, hvalid.contents_pop hpos]
      _ = (s.popped ++ [r.first]) ++ (r.pop queueSize).contents queueSize := by simp

/-- What a step can do. -/
theorem poolStep_cases {s t : PoolState ι α} {a : PoolAction ι α} (h : poolStep s a = some t) :
    (∃ thread now, t = s.at thread now) ∨ (∃ thread ec, t = s.enterPush thread ec) ∨
      ∃ thread, t = s.enterPop thread := by
  cases a <;> simp only [poolStep] at h <;> split at h <;> cases h
  · exact .inl ⟨_, _, rfl⟩
  · exact .inl ⟨_, _, rfl⟩
  · exact .inr (.inl ⟨_, _, rfl⟩)
  · exact .inr (.inr ⟨_, rfl⟩)
  · exact .inl ⟨_, _, rfl⟩

theorem ringHolds_of_reach {s : PoolState ι α} (h : (jobMachine ι α).Reach s) : RingHolds s := by
  refine h.invariant (fun s hs => ?_) fun s a t hI _ hst => ?_
  · obtain ⟨_, hhead, htail, hcount, hrunning, hpushed, hpopped⟩ := hs
    refine ⟨⟨fun i => s.queue.jobQueue i, 0, 0, 0⟩, ⟨fun _ => rfl, hhead, htail, hcount, hrunning⟩,
      RingBuffer.valid_empty (by decide), ?_⟩
    rw [hpushed, hpopped]
    rfl
  · obtain ⟨thread, now, rfl⟩ | ⟨thread, ec, rfl⟩ | ⟨thread, rfl⟩ := poolStep_cases hst
    · exact hI
    · exact hI.enterPush thread ec
    · exact hI.enterPop thread

/-- **The job queue is a bounded FIFO**: in every run the count is within the queue and the tail fits it,
and what was pushed is what was popped, in the same order, followed by what is in the queue. -/
theorem jobQueue_fifo {s : PoolState ι α} (h : (jobMachine ι α).Reach s) :
    0 ≤ s.queue.jobCount ∧ s.queue.jobCount ≤ queueSize ∧
      (0 ≤ s.queue.jobHead ∧ s.queue.jobHead < queueSize) ∧
      s.queue.jobTail = (s.queue.jobHead + s.queue.jobCount).tmod queueSize ∧
      s.popped <+: s.pushed ∧ s.pushed = s.popped ++ s.queue.jobs := by
  obtain ⟨r, hr, hvalid, hpushed⟩ := ringHolds_of_reach h
  refine ⟨?_, ?_, ⟨?_, ?_⟩, ?_, ⟨_, hpushed.symm⟩, ?_⟩
  · exact hr.count ▸ Int.natCast_nonneg _
  · exact hr.count ▸ Int.ofNat_le.2 hvalid.count_le
  · exact hr.head ▸ Int.natCast_nonneg _
  · exact hr.head ▸ Int.ofNat_lt.2 hvalid.head_lt
  · rw [hr.tail, hr.count, hr.place, hvalid.tail_eq]
  · rw [hr.jobs, hpushed]

private def emptyPool : PoolState Bool ℕ :=
  ⟨fun _ => .idle, ⟨fun _ => 0, 0, 0, 0, false⟩, [], []⟩

/-- One thread pushes two connections; the other waits for the first of them and takes it. -/
private def handOver : List (PoolAction Bool ℕ) :=
  [.callPop true, .enter true, .callPush false 7, .enter false, .wake true, .callPush false 8,
    .enter false, .enter true]

theorem jobQueue_fifo_handOver : ∃ s : PoolState Bool ℕ, s.pushed = [7, 8] ∧ s.popped = [7] ∧
    s.queue.jobCount ≤ queueSize ∧ s.popped <+: s.pushed := by
  obtain ⟨s, hs, hpushed, hpopped⟩ : ∃ s, (jobMachine Bool ℕ).runUnder (fun _ _ => True) emptyPool
      handOver = some s ∧ s.pushed = [7, 8] ∧ s.popped = [7] := ⟨_, rfl, rfl, rfl⟩
  have hinit : (jobMachine Bool ℕ).init emptyPool := ⟨fun _ => rfl, rfl, rfl, rfl, rfl, rfl, rfl⟩
  have hfifo := jobQueue_fifo (Machine.reachUnder_of_runUnder (.start hinit) hs)
  exact ⟨s, hpushed, hpopped, hfifo.2.1, hfifo.2.2.2.2.1⟩

end Server
end Arws
