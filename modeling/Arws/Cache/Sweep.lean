import Arws.Cache.Soundness
import Mathlib.Data.Fintype.Basic

/-!
# The sweep and its clock

`arws_cache_cleanup` reads the clock, takes the shard mutexes one by one and frees what has expired at
the time it has read.  Until it has the mutex of a shard, calls for keys of that shard go on, and the
clock as well.

* `SweepsRight` — what a sweep frees is older than its time to live, and no age wraps around.
* `sweepsRight_of_reach` — so it is as long as nothing is stored at a time that a waiting sweep has not
  read.
* `not_sweepsRight` — otherwise the sweep frees an entry that was stored one millisecond ago.
-/

set_option autoImplicit false

namespace Arws
namespace Cache

/-! ## The table under its mutexes -/

/-- How far a call of `arws_cache_cleanup` is. -/
inductive Cleanup
  | idle
  /-- It has read the clock and holds the mutexes of the first shards. -/
  | locking (now taken : Nat)
  /-- It has swept and given back the mutexes of the first shards. -/
  | unlocking (given : Nat)
  deriving DecidableEq

/-- The clock reading of a sweep that is still to come. -/
def Cleanup.reading : Cleanup → Option Nat
  | .locking now _ => some now
  | _ => none

structure SweepState (ι : Type*) where
  cache : Table
  clock : Nat
  /-- The shard mutexes that a cleanup holds. -/
  locked : Nat → Bool
  cleanups : ι → Cleanup

inductive SweepAction (ι : Type*)
  | tick (ms : Nat)
  /-- Another call, with the mutexes it needs. -/
  | call (op : CacheOp)
  /-- `now = ar_time_ms()`. -/
  | start (thread : ι)
  | lock (thread : ι)
  /-- The loop over the entries, with all mutexes held. -/
  | sweep (thread : ι)
  | unlock (thread : ι)

/-- No cleanup holds a mutex that the call needs. -/
def enabled (locked : Nat → Bool) : CacheOp → Bool
  | .get key _ => !locked (getShard key)
  | .set key _ _ => !locked (getShard key)
  | .clear => (List.range cacheShards).all fun shard => !locked shard
  | .setTtl _ => true
  | .cleanup => false

variable {ι : Type*} [DecidableEq ι]

def SweepState.at (s : SweepState ι) (thread : ι) (now : Cleanup) : SweepState ι :=
  { s with cleanups := Function.update s.cleanups thread now }

def sweepStep (s : SweepState ι) : SweepAction ι → Option (SweepState ι)
  | .tick ms => if s.clock + ms < 2 ^ 64 then some { s with clock := s.clock + ms } else none
  | .call op =>
    if enabled s.locked op then some { s with cache := applyOp s.cache s.clock op } else none
  | .start thread =>
    if s.cleanups thread = .idle then some (s.at thread (.locking s.clock 0)) else none
  | .lock thread =>
    match s.cleanups thread with
    | .locking now shard =>
      if shard < cacheShards ∧ s.locked shard = false then
        some { s.at thread (.locking now (shard + 1)) with
          locked := Function.update s.locked shard true }
      else none
    | _ => none
  | .sweep thread =>
    match s.cleanups thread with
    | .locking now taken =>
      if taken = cacheShards then
        some { s.at thread (.unlocking 0) with cache := arwsCacheCleanup s.cache now }
      else none
    | _ => none
  | .unlock thread =>
    match s.cleanups thread with
    | .unlocking shard =>
      some { s.at thread (if shard + 1 < cacheShards then .unlocking (shard + 1) else .idle) with
        locked := Function.update s.locked shard false }
    | _ => none

/-- The cache with any number of threads that clean it up, from start-up on. -/
def sweepMachine (ι : Type*) [DecidableEq ι] : Machine (SweepState ι) (SweepAction ι) where
  init s := s.cache = CacheState.start.cache ∧ s.clock < 2 ^ 64 ∧
    (∀ shard, s.locked shard = false) ∧ ∀ thread, s.cleanups thread = .idle
  step := sweepStep

/-- **Every sweep about to run frees what has expired**: no entry is younger than the time it has read,
and what it frees has outlived its time to live. -/
def SweepsRight (s : SweepState ι) : Prop :=
  ∀ thread now, s.cleanups thread = .locking now cacheShards →
    ∀ slot, (s.cache.cache slot).inUse = true → (s.cache.cache slot).storedAt ≤ now ∧
      (swept s.cache now slot = true → 0 < (s.cache.cache slot).ttl ∧
        (s.cache.cache slot).ttl * 1000 < (s.clock : Int) - (s.cache.cache slot).storedAt)

/-- The call stores nothing, or every sweep still to come has read the time at which it does. -/
def StoresRead (s : SweepState ι) : SweepAction ι → Prop
  | .call (.set _ data alloc) => data.length ≠ 0 → 0 < s.cache.cacheTtl → alloc = true →
      ∀ thread, ∀ now ∈ (s.cleanups thread).reading, s.clock ≤ now
  | _ => True

/-! ## The invariant -/

/-- No entry is younger than the clock, or than the reading of a sweep still to come. -/
structure ReadLast (s : SweepState ι) : Prop where
  clock : s.clock < 2 ^ 64
  stored : ∀ slot, (s.cache.cache slot).inUse = true → (s.cache.cache slot).storedAt ≤ s.clock
  readings : ∀ thread, ∀ now ∈ (s.cleanups thread).reading, now ≤ s.clock ∧
    ∀ slot, (s.cache.cache slot).inUse = true → (s.cache.cache slot).storedAt ≤ now

/-- A thread goes on without reading the clock. -/
theorem ReadLast.at {s : SweepState ι} (h : ReadLast s) {thread : ι} {next : Cleanup}
    (hnext : ∀ now ∈ next.reading, now ∈ (s.cleanups thread).reading) {locked : Nat → Bool} :
    ReadLast { s.at thread next with locked } where
  clock := h.clock
  stored := h.stored
  readings := by
    intro t now hnow
    by_cases ht : t = thread
    · subst ht
      simp only [SweepState.at, Function.update_self] at hnow
      exact h.readings t now (hnext now hnow)
    · simp only [SweepState.at, Function.update_of_ne ht] at hnow
      exact h.readings t now hnow

omit [DecidableEq ι] in
/-- A table whose entries were all there before, or are not younger than any reading. -/
theorem ReadLast.cache {s : SweepState ι} (h : ReadLast s) {c : Table}
    (hc : ∀ slot, (c.cache slot).inUse = true →
      ((s.cache.cache slot).inUse = true ∧ (c.cache slot).storedAt = (s.cache.cache slot).storedAt) ∨
      ((c.cache slot).storedAt = s.clock ∧
        ∀ thread, ∀ now ∈ (s.cleanups thread).reading, s.clock ≤ now)) :
    ReadLast { s with cache := c } where
  clock := h.clock
  stored slot huse := by
    obtain ⟨hold, hsame⟩ | ⟨hnew, -⟩ := hc slot huse
    · exact hsame ▸ h.stored slot hold
    · exact hnew.le
  readings thread now hnow := by
    obtain ⟨hle, hentries⟩ := h.readings thread now hnow
    refine ⟨hle, fun slot huse => ?_⟩
    obtain ⟨hold, hsame⟩ | ⟨hnew, hread⟩ := hc slot huse
    · exact hsame ▸ hentries slot hold
    · exact hnew ▸ hread thread now hnow

omit [DecidableEq ι] in
theorem ReadLast.call {s : SweepState ι} (h : ReadLast s) {op : CacheOp}
    (hc : StoresRead s (.call op)) : ReadLast { s with cache := applyOp s.cache s.clock op } := by
  refine h.cache fun slot huse => ?_
  obtain ⟨-, hsame⟩ | ⟨key, data, rfl, hok, hnew⟩ | ⟨key, data, rfl, hold, htaken⟩ := entry_applyOp huse
  · rw [hsame] at huse ⊢
    exact .inl ⟨huse, rfl⟩
  · obtain ⟨hdata, httl⟩ := accepted_of_set hok
    rw [hnew]
    exact .inr ⟨rfl, hc hdata httl rfl⟩
  · rw [htaken]
    exact .inl ⟨hold, rfl⟩

theorem readLast_step {s t : SweepState ι} {a : SweepAction ι} (h : ReadLast s) (hc : StoresRead s a)
    (hst : sweepStep s a = some t) : ReadLast t := by
  cases a with
  | tick ms =>
    simp only [sweepStep, Option.ite_none_right_eq_some, Option.some.injEq] at hst
    obtain ⟨hclock, rfl⟩ := hst
    refine ⟨hclock, fun slot huse => ?_, fun thread now hnow => ?_⟩
    · exact (h.stored slot huse).trans (Nat.le_add_right _ _)
    · obtain ⟨hle, hentries⟩ := h.readings thread now hnow
      exact ⟨hle.trans (Nat.le_add_right _ _), hentries⟩
  | call op =>
    simp only [sweepStep, Option.ite_none_right_eq_some, Option.some.injEq] at hst
    obtain ⟨-, rfl⟩ := hst
    exact h.call hc
  | start thread =>
    simp only [sweepStep, Option.ite_none_right_eq_some, Option.some.injEq] at hst
    obtain ⟨-, rfl⟩ := hst
    refine ⟨h.clock, h.stored, fun u now hnow => ?_⟩
    by_cases hu : u = thread
    · -- what is in the table now was stored by now
      subst hu
      simp only [SweepState.at, Function.update_self, Cleanup.reading, Option.mem_some_iff] at hnow
      subst hnow
      exact ⟨le_rfl, h.stored⟩
    · simp only [SweepState.at, Function.update_of_ne hu] at hnow
      exact h.readings u now hnow
  | lock thread =>
    simp only [sweepStep] at hst
    cases hthread : s.cleanups thread with
    | locking now shard =>
      simp only [hthread, Option.ite_none_right_eq_some, Option.some.injEq] at hst
      obtain ⟨-, rfl⟩ := hst
      exact h.at fun now' hnow' => by rwa [hthread]
    | idle => simp [hthread] at hst
    | unlocking given => simp [hthread] at hst
  | sweep thread =>
    simp only [sweepStep] at hst
    cases hthread : s.cleanups thread with
    | locking now taken =>
      simp only [hthread, Option.ite_none_right_eq_some, Option.some.injEq] at hst
      obtain ⟨-, rfl⟩ := hst
      have hswept := @ReadLast.at ι _ s h thread (.unlocking 0) nofun s.locked
      refine hswept.cache fun slot huse => .inl ?_
      simp only [arwsCacheCleanup] at huse ⊢
      split_ifs at huse ⊢
      · cases huse
      · exact ⟨huse, rfl⟩
    | idle => simp [hthread] at hst
    | unlocking given => simp [hthread] at hst
  | unlock thread =>
    simp only [sweepStep] at hst
    cases hthread : s.cleanups thread with
    | unlocking shard =>
      simp only [hthread, Option.some.injEq] at hst
      subst hst
      refine h.at fun now hnow => ?_
      split_ifs at hnow <;> cases hnow
    | idle => simp [hthread] at hst
    | locking now taken => simp [hthread] at hst

theorem readLast_of_reach {s : SweepState ι} (h : (sweepMachine ι).ReachUnder StoresRead s) :
    ReadLast s := by
  refine h.invariant (fun s hs => ?_) fun s a t hI hc hst => readLast_step hI hc hst
  obtain ⟨hcache, hclock, -, hidle⟩ := hs
  refine ⟨hclock, fun slot huse => ?_, fun thread now hnow => ?_⟩
  · rw [hcache] at huse
    cases huse
  · rw [hidle] at hnow
    cases hnow

/-- **The sweep frees only expired entries** in every run in which nothing is stored at a time that a
sweep still to come has not read. -/
theorem sweepsRight_of_reach {s : SweepState ι} (h : (sweepMachine ι).ReachUnder StoresRead s) :
    SweepsRight s := by
  have hlast := readLast_of_reach h
  intro thread now hready slot huse
  obtain ⟨hle, hentries⟩ := hlast.readings thread now (by rw [hready]; rfl)
  have hstored := hentries slot huse
  refine ⟨hstored, fun hsw => ?_⟩
  have hnow := hle.trans_lt hlast.clock
  simp only [swept, huse, CacheEntry.expired, expired, elapsed_eq_sub hstored hnow, Bool.true_and,
    Bool.and_eq_true, decide_eq_true_eq] at hsw
  omega

/-! ## One sweep -/

instance [Fintype ι] : ∀ (s : SweepState ι) a, Decidable (StoresRead s a)
  | s, .call (.set _ data alloc) => inferInstanceAs (Decidable (data.length ≠ 0 → 0 < s.cache.cacheTtl →
      alloc = true → ∀ thread, ∀ now ∈ (s.cleanups thread).reading, s.clock ≤ now))
  | _, .tick _ | _, .call (.get _ _) | _, .call .clear | _, .call .cleanup | _, .call (.setTtl _)
  | _, .start _ | _, .lock _ | _, .sweep _ | _, .unlock _ => isTrue trivial

private def quiet (clock : Nat) : SweepState Unit :=
  ⟨CacheState.start.cache, clock, fun _ => false, fun _ => .idle⟩

private def lockAll : List (SweepAction Unit) := List.replicate cacheShards (.lock ())

/-- An entry that has outlived its 60 seconds when the sweep begins. -/
theorem sweepsRight_of_expired : ∃ s : SweepState Unit, s.cleanups () = .locking 62000 cacheShards ∧
    (∃ slot, swept s.cache 62000 slot = true) ∧ SweepsRight s := by
  obtain ⟨s, hs, hready, hswept⟩ : ∃ s, (sweepMachine Unit).runUnder StoresRead (quiet 1000)
      ([.call (.set [97] [120] true), .tick 61000, .start ()] ++ lockAll) = some s ∧
      s.cleanups () = .locking 62000 cacheShards ∧ swept s.cache 62000 (homeSlot [97]) = true :=
    ⟨_, rfl, rfl, by decide +kernel⟩
  have hinit : (sweepMachine Unit).init (quiet 1000) :=
    ⟨rfl, by decide, fun _ => rfl, fun _ => rfl⟩
  exact ⟨s, hready, ⟨_, hswept⟩, sweepsRight_of_reach (Machine.reachUnder_of_runUnder (.start hinit) hs)⟩

/-- **A sweep frees what was stored after it has read the clock**: one millisecond later is enough. -/
theorem not_sweepsRight : ¬ ∀ s : SweepState Unit, (sweepMachine Unit).Reach s → SweepsRight s := by
  intro h
  obtain ⟨s, hs, hready, hage⟩ : ∃ s, (sweepMachine Unit).runUnder (fun _ _ => True) (quiet 1000)
      ([.start (), .tick 1, .call (.set [97] [120] true)] ++ lockAll) = some s ∧
      s.cleanups () = .locking 1000 cacheShards ∧ (s.cache.cache (homeSlot [97])).inUse = true ∧
        (s.cache.cache (homeSlot [97])).storedAt = 1001 ∧
        swept s.cache 1000 (homeSlot [97]) = true ∧ s.clock = 1001 :=
    ⟨_, rfl, rfl, by decide +kernel, by decide +kernel, by decide +kernel, rfl⟩
  have hinit : (sweepMachine Unit).init (quiet 1000) :=
    ⟨rfl, by decide, fun _ => rfl, fun _ => rfl⟩
  obtain ⟨huse, hstored, hswept, hclock⟩ := hage
  obtain ⟨-, hold⟩ :=
    h s (Machine.reachUnder_of_runUnder (.start hinit) hs) () 1000 hready (homeSlot [97]) huse
  obtain ⟨hpos, hlt⟩ := hold hswept
  rw [hstored, hclock] at hlt
  omega

end Cache
end Arws
