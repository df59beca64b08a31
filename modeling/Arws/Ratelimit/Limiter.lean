import Arws.Library.CString
import Arws.Library.FixedWindow

/-!
# The rate limiter

`arws_ratelimit.c`: a table with an entry for each client address, and a list of rules.  A check
finds the entry of the address, or makes one, and counts the request against the first rule that
matches its host and its path.  There is one counter in an entry, whatever rule it is counted for.

Times are readings of `ar_time_ms() / 1000`.  A check reads the clock twice: when it looks whether
the address is blocked and when it counts.

* `arwsRatelimitCheck_spec` — what a check does is a matter of the entry of its address.
* `passes_eq` — over a run of checks of one address, its entry counts as `FixedWindow` does, once it
  is not blocked any more.
-/

set_option autoImplicit false

namespace Arws
namespace Ratelimit

open CString FixedWindow

structure RlEntry where
  ip : Bytes
  count : Nat
  windowStart : Nat
  blocked : Bool
  blockedUntil : Nat
  deriving DecidableEq

structure RlRule where
  host : Bytes
  pathPattern : Bytes
  maxRequests : Int
  windowSeconds : Int
  deriving DecidableEq

/-- `rl_entries` and the first `rl_rule_count` of `rl_rules`. -/
structure Limiter where
  entries : List RlEntry
  rules : List RlRule
  deriving DecidableEq

def arwsRlMaxIps : Nat := 2000
def arwsRlMaxRules : Nat := 64
def arwsRlDefaultMax : Int := 5000
def arwsRlDefaultWindow : Int := 60

/-- `arws_ratelimit_init`. -/
def arwsRatelimitInit : Limiter := ⟨List.replicate arwsRlMaxIps ⟨[], 0, 0, false, 0⟩, []⟩

/-! ## Rules -/

/-- `arws_ratelimit_set_rule`; a null host is `*`. -/
def arwsRatelimitSetRule (s : Limiter) (host : Option Bytes) (pathPattern : Bytes)
    (maxReq windowSec : Int) : Limiter :=
  let host := host.getD (ascii "*")
  match s.rules.findIdx? fun r => r.host == host && r.pathPattern == pathPattern with
  | some i =>
    { s with rules := s.rules.modify i fun r =>
        { r with maxRequests := maxReq, windowSeconds := windowSec } }
  | none =>
    if s.rules.length ≥ arwsRlMaxRules then s
    else { s with rules := s.rules ++ [⟨host.take 255, pathPattern.take 127, maxReq, windowSec⟩] }

/-- `path_matches`. -/
def pathMatches (pattern path : Bytes) : Bool :=
  if pattern = [] ∨ pattern = [42] then true
  else if ascii "/*" <:+ pattern then (pattern.take (pattern.length - 2)).isPrefixOf path
  else pattern.isPrefixOf path

/-- `rule_matches`. -/
def RlRule.matches (r : RlRule) (host : Option Bytes) (path : Bytes) : Bool :=
  (r.host == [] || r.host == [42] || host == some r.host) && pathMatches r.pathPattern path

/-- The rule that governs a host and a path. -/
def ruleFor (rules : List RlRule) (host : Option Bytes) (path : Bytes) : Option RlRule :=
  rules.find? (·.matches host path)

/-- A window as the `uint64_t` it is compared as. -/
def limitOf (maxReq window : Int) : Limit := ⟨maxReq, (window % 2 ^ 64).toNat⟩

def RlRule.limit (r : RlRule) : Limit := limitOf r.maxRequests r.windowSeconds

/-- `max_req` and `window`. -/
def limitFor (rules : List RlRule) (host : Option Bytes) (path : Bytes) : Limit :=
  match ruleFor rules host path with
  | some r => r.limit
  | none => limitOf arwsRlDefaultMax arwsRlDefaultWindow

/-! ## Entries -/

/-- The entry of an address; an entry without an address is free. -/
def RlEntry.holds (e : RlEntry) (ip : Bytes) : Bool := e.ip != [] && e.ip == ip

/-- What `arws_ratelimit_is_blocked` does to the entry of the address. -/
def RlEntry.unblock (e : RlEntry) (asked : Nat) : RlEntry :=
  if e.blocked && decide (e.blockedUntil ≤ asked) then { e with blocked := false, count := 0 } else e

/-- `arws_ratelimit_is_blocked`. -/
def arwsRatelimitIsBlocked (s : Limiter) (ip : Bytes) (asked : Nat) : Limiter × Bool :=
  match s.entries.findIdx? (·.holds ip) with
  | none => (s, false)
  | some i => ({ s with entries := s.entries.modify i (·.unblock asked) },
      s.entries[i]?.any fun e => (e.unblock asked).blocked)

/-- `oldest_idx`: the first of the entries that are oldest, of those older than the clock. -/
def oldestIdx (entries : List RlEntry) (now : Nat) : Nat :=
  (entries.zipIdx.foldl (fun (oldest : Nat × Nat) e =>
    if e.1.ip != [] && decide (e.1.windowStart < oldest.2) then (e.2, e.1.windowStart) else oldest)
    (0, now)).1

def freshEntry (ip : Bytes) (now : Nat) : RlEntry := ⟨ip.take 63, 0, now, false, 0⟩

/-- `entry_idx`, and the entries with one for the address. -/
def entryIdx (entries : List RlEntry) (ip : Bytes) (now : Nat) : List RlEntry × Nat :=
  match entries.findIdx? (·.holds ip) with
  | some i => (entries, i)
  | none =>
    let i := (entries.findIdx? fun e => e.ip == []).getD (oldestIdx entries now)
    (entries.set i (freshEntry ip now), i)

/-- The last part of `arws_ratelimit_check`; the difference is one of `uint64_t`. -/
def RlEntry.counted (e : RlEntry) (now : Nat) (limit : Limit) : RlEntry × Bool :=
  if (now + 2 ^ 64 - e.windowStart) % 2 ^ 64 ≥ limit.window then
    ({ e with windowStart := now, count := 1 }, true)
  else ({ e with count := e.count + 1 }, decide ((e.count + 1 : Nat) ≤ limit.max))

/-- A call of `arws_ratelimit_check` for an address, with the two readings of the clock. -/
structure Check where
  host : Option Bytes
  path : Bytes
  asked : Nat
  now : Nat
  deriving DecidableEq

/-- `arws_ratelimit_check`. -/
def arwsRatelimitCheck (s : Limiter) (ip : Bytes) (c : Check) : Limiter × Bool :=
  let (s, blocked) := arwsRatelimitIsBlocked s ip c.asked
  if blocked then (s, false)
  else
    let (entries, i) := entryIdx s.entries ip c.now
    match entries[i]? with
    | none => (s, true)
    | some e =>
      let (e, allowed) := e.counted c.now (limitFor s.rules c.host c.path)
      ({ s with entries := entries.set i e }, allowed)

/-! ## The entry of an address -/

/-- What an address looks like: not empty, and short enough for its field. -/
structure IsIp (ip : Bytes) : Prop where
  ne_nil : ip ≠ []
  length_le : ip.length ≤ 63

/-- The entry that a check finds. -/
def Limiter.entryOf (s : Limiter) (ip : Bytes) : Option RlEntry := s.entries.find? (·.holds ip)

/-- There is an entry for the address, or room for one. -/
def Limiter.HasRoom (s : Limiter) (ip : Bytes) : Prop :=
  (s.entryOf ip).isSome = true ∨ ∃ e ∈ s.entries, e.ip = []

instance (s : Limiter) (ip : Bytes) : Decidable (s.HasRoom ip) :=
  inferInstanceAs (Decidable (_ ∨ _))

/-- At the start no address has an entry. -/
theorem entryOf_of_init {s : Limiter} (h : s.entries = arwsRatelimitInit.entries) (ip : Bytes) :
    s.entryOf ip = none := by
  rw [Limiter.entryOf, h, List.find?_eq_none]
  intro e he
  rw [List.eq_of_mem_replicate he]
  exact Bool.false_ne_true

theorem free_of_init {s : Limiter} (h : s.entries = arwsRatelimitInit.entries) :
    ∃ e ∈ s.entries, e.ip = [] :=
  ⟨⟨[], 0, 0, false, 0⟩, h ▸ List.mem_replicate.2 ⟨by decide, rfl⟩, rfl⟩

/-- A check, as far as the entry of its address goes. -/
def RlEntry.checked (e : RlEntry) (c : Check) (limit : Limit) : RlEntry × Bool :=
  let e := e.unblock c.asked
  if e.blocked then (e, false) else e.counted c.now limit

theorem holds_iff {e : RlEntry} {ip : Bytes} (hip : IsIp ip) : e.holds ip = true ↔ e.ip = ip := by
  rw [RlEntry.holds, Bool.and_eq_true, bne_iff_ne, beq_iff_eq]
  exact ⟨And.right, fun h => ⟨h ▸ hip.ne_nil, h⟩⟩

@[simp] theorem unblock_ip (e : RlEntry) (asked : Nat) : (e.unblock asked).ip = e.ip := by
  rw [RlEntry.unblock]
  split <;> rfl

@[simp] theorem counted_ip (e : RlEntry) (now : Nat) (limit : Limit) :
    (e.counted now limit).1.ip = e.ip := by
  rw [RlEntry.counted]
  split <;> rfl

@[simp] theorem checked_ip (e : RlEntry) (c : Check) (limit : Limit) :
    (e.checked c limit).1.ip = e.ip := by
  rw [RlEntry.checked]
  split <;> simp

/-- An entry found is the first one. -/
theorem findIdx?_cases {entries : List RlEntry} {P : RlEntry → Bool} {i : Nat}
    (h : entries.findIdx? P = some i) :
    ∃ hi : i < entries.length, P entries[i] = true ∧ entries.find? P = some entries[i] ∧
      ∀ j (hj : j < entries.length), j < i → P entries[j] = false := by
  obtain ⟨hi, hp, hlt⟩ := List.findIdx?_eq_some_iff_getElem.1 h
  have hbefore : ∀ j (hj : j < entries.length), j < i → P entries[j] = false := by
    intro j hj hji
    simpa using hlt j hji
  refine ⟨hi, hp, List.find?_eq_some_iff_getElem.2 ⟨hp, i, hi, rfl, fun j hj => ?_⟩, hbefore⟩
  rw [hbefore j (hj.trans hi) hj]
  rfl

section Set

variable {entries : List RlEntry} {P : RlEntry → Bool} {i : Nat} {e : RlEntry}

/-- Where an entry is written to behind others that are not it, it is found. -/
theorem find?_set (hi : i < entries.length)
    (hbefore : ∀ j (hj : j < entries.length), j < i → P entries[j] = false) (he : P e = true) :
    (entries.set i e).find? P = some e := by
  rw [List.find?_eq_some_iff_getElem]
  refine ⟨he, i, by rwa [List.length_set], by rw [List.getElem_set_self], fun j hj => ?_⟩
  rw [List.getElem_set_of_ne (by omega), hbefore j (hj.trans hi) hj]
  rfl

theorem findIdx?_set (hi : i < entries.length)
    (hbefore : ∀ j (hj : j < entries.length), j < i → P entries[j] = false) (he : P e = true) :
    (entries.set i e).findIdx? P = some i := by
  rw [List.findIdx?_eq_some_iff_getElem]
  refine ⟨by rwa [List.length_set], by rwa [List.getElem_set_self], fun j hj => ?_⟩
  rw [List.getElem_set_of_ne (by omega), hbefore j (hj.trans hi) hj]
  exact Bool.false_ne_true

end Set

section Find

variable {s : Limiter} {ip : Bytes}

theorem entryOf_eq_none (hfind : s.entries.findIdx? (·.holds ip) = none) : s.entryOf ip = none := by
  rw [Limiter.entryOf, List.find?_eq_none]
  intro e he
  rw [List.findIdx?_eq_none_iff.1 hfind e he]
  exact Bool.false_ne_true

/-- The room of an address without an entry is a free one. -/
theorem Limiter.HasRoom.exists_free (hroom : s.HasRoom ip)
    (hfind : s.entries.findIdx? (·.holds ip) = none) :
    ∃ i, s.entries.findIdx? (fun e => e.ip == []) = some i := by
  obtain ⟨e, he, hempty⟩ : ∃ e ∈ s.entries, e.ip = [] :=
    hroom.resolve_left (by rw [entryOf_eq_none hfind]; exact Bool.false_ne_true)
  refine Option.isSome_iff_exists.1 ?_
  rw [List.findIdx?_isSome, List.any_eq_true]
  exact ⟨e, he, by rw [hempty]; rfl⟩

theorem modify_unblock {entries : List RlEntry} {i : Nat} (hi : i < entries.length) (asked : Nat) :
    entries.modify i (·.unblock asked) = entries.set i (entries[i].unblock asked) := by
  rw [List.modify_eq_set_getElem?, List.getElem?_eq_getElem hi]
  rfl

end Find

/-- **What a check does**: it counts in the entry of the address, which is made if it is not there,
and touches no rule. -/
theorem arwsRatelimitCheck_spec {s : Limiter} {ip : Bytes} {c : Check} (hip : IsIp ip)
    (hroom : s.HasRoom ip) :
    (arwsRatelimitCheck s ip c).1.entryOf ip =
        some (((s.entryOf ip).getD (freshEntry ip c.now)).checked c
          (limitFor s.rules c.host c.path)).1 ∧
      (arwsRatelimitCheck s ip c).2 =
        (((s.entryOf ip).getD (freshEntry ip c.now)).checked c (limitFor s.rules c.host c.path)).2 ∧
      (arwsRatelimitCheck s ip c).1.rules = s.rules := by
  have hholds : ∀ {e e' : RlEntry}, e'.ip = e.ip → e.holds ip = true → e'.holds ip = true :=
    fun h he => (holds_iff hip).2 (h.trans ((holds_iff hip).1 he))
  cases hfind : s.entries.findIdx? (·.holds ip) with
  | some i =>
    obtain ⟨hi, hip', hentry, hbefore⟩ := findIdx?_cases hfind
    have hunblock := hholds (unblock_ip s.entries[i] c.asked) hip'
    have hagain := findIdx?_set (P := (·.holds ip)) hi hbefore hunblock
    have hsome : s.entryOf ip = some s.entries[i] := hentry
    rw [hsome, Option.getD_some, arwsRatelimitCheck, arwsRatelimitIsBlocked, hfind,
      RlEntry.checked]
    simp only [List.getElem?_eq_getElem hi, Option.any_some, modify_unblock hi]
    cases hblocked : (s.entries[i].unblock c.asked).blocked with
    | true => exact ⟨find?_set hi hbefore hunblock, rfl, rfl⟩
    | false =>
      simp only [entryIdx, hagain, Bool.false_eq_true, if_false, List.getElem?_set_self hi,
        List.set_set]
      exact ⟨find?_set hi hbefore (hholds (counted_ip _ _ _) hunblock), trivial, trivial⟩
  | none =>
    -- the address has no entry yet, and there is a free one
    have hnone := entryOf_eq_none hfind
    obtain ⟨i, hfree⟩ := hroom.exists_free hfind
    obtain ⟨hi, -, -, -⟩ := findIdx?_cases hfree
    have hbefore : ∀ j (hj : j < s.entries.length), j < i → s.entries[j].holds ip = false :=
      fun j hj _ => List.findIdx?_eq_none_iff.1 hfind _ (List.getElem_mem hj)
    have hfresh : (freshEntry ip c.now).holds ip = true :=
      (holds_iff hip).2 (List.take_of_length_le hip.length_le)
    have hchecked : (freshEntry ip c.now).checked c (limitFor s.rules c.host c.path) =
        (freshEntry ip c.now).counted c.now (limitFor s.rules c.host c.path) := rfl
    rw [hnone, Option.getD_none, hchecked, arwsRatelimitCheck, arwsRatelimitIsBlocked, hfind]
    simp only [entryIdx, hfind, hfree, Option.getD_some, Bool.false_eq_true, if_false,
      List.getElem?_set_self hi, List.set_set]
    exact ⟨find?_set hi hbefore (hholds (counted_ip _ _ _) hfresh), trivial, trivial⟩

/-! ## Runs -/

/-- The limiter after checks of one address. -/
def afterChecks (s : Limiter) (ip : Bytes) (cs : List Check) : Limiter :=
  cs.foldl (fun s c => (arwsRatelimitCheck s ip c).1) s

/-- Whether a check is passed after others. -/
def passes (s : Limiter) (ip : Bytes) (seen : List Check) (c : Check) : Bool :=
  (arwsRatelimitCheck (afterChecks s ip seen) ip c).2

/-- The checks follow on one another, and the clock does not go back. -/
structure InOrder (s : Limiter) (ip : Bytes) (cs : List Check) : Prop where
  order : cs.Pairwise fun c d => c.now ≤ d.asked
  asked : ∀ c ∈ cs, c.asked ≤ c.now ∧ c.now < 2 ^ 64
  started : ∀ e ∈ s.entryOf ip, ∀ c ∈ cs, e.windowStart ≤ c.now

/-- The counter in an entry; a blocked one is set back when it is unblocked. -/
def counterOf (e : Option RlEntry) : Option Counter :=
  e.map fun e => ⟨if e.blocked then 0 else e.count, e.windowStart⟩

/-- The address is blocked when the check looks. -/
def held (e : Option RlEntry) (c : Check) : Bool :=
  e.any fun e => e.blocked && decide (c.asked < e.blockedUntil)

def hitOf (rules : List RlRule) (c : Check) : Hit := ⟨c.now, limitFor rules c.host c.path⟩

/-- The hits of the checks that find the address unblocked. -/
def hitsOf (s : Limiter) (ip : Bytes) (cs : List Check) : List Hit :=
  (cs.filter fun c => !held (s.entryOf ip) c).map (hitOf s.rules)

theorem counted_eq_hit {e : RlEntry} {now : Nat} (limit : Limit) (hstart : e.windowStart ≤ now)
    (hnow : now < 2 ^ 64) :
    e.counted now limit =
      ({ e with
          count := (Counter.hit ⟨e.count, e.windowStart⟩ ⟨now, limit⟩).1.count
          windowStart := (Counter.hit ⟨e.count, e.windowStart⟩ ⟨now, limit⟩).1.start },
        (Counter.hit ⟨e.count, e.windowStart⟩ ⟨now, limit⟩).2) := by
  have helapsed : (now + 2 ^ 64 - e.windowStart) % 2 ^ 64 = now - e.windowStart := by
    rw [show now + 2 ^ 64 - e.windowStart = now - e.windowStart + 2 ^ 64 by omega,
      Nat.add_mod_right, Nat.mod_eq_of_lt (by omega)]
  have hover : Counter.Over ⟨e.count, e.windowStart⟩ ⟨now, limit⟩ ↔
      limit.window ≤ now - e.windowStart := by
    simp only [Counter.Over]
    omega
  rw [RlEntry.counted, helapsed, Counter.hit]
  simp only [hover, ge_iff_le]
  split <;> rfl

section Step

variable {s : Limiter} {ip : Bytes} {c : Check}

theorem checked_held {e : RlEntry} (limit : Limit) (h : held (some e) c = true) :
    e.checked c limit = (e, false) := by
  rw [held, Option.any_some, Bool.and_eq_true, decide_eq_true_eq] at h
  have hun : e.unblock c.asked = e := by
    rw [RlEntry.unblock, if_neg]
    simp only [Bool.and_eq_true, decide_eq_true_eq, not_and]
    omega
  rw [RlEntry.checked, hun, if_pos h.1]

theorem checked_not_held {e : RlEntry} (limit : Limit) (h : held (some e) c = false)
    (hstart : e.windowStart ≤ c.now) (hnow : c.now < 2 ^ 64) :
    ∃ e', e'.blocked = false ∧
      e.checked c limit = (e', (Counter.hit ⟨if e.blocked then 0 else e.count, e.windowStart⟩
        ⟨c.now, limit⟩).2) ∧
      (⟨e'.count, e'.windowStart⟩ : Counter) =
        (Counter.hit ⟨if e.blocked then 0 else e.count, e.windowStart⟩ ⟨c.now, limit⟩).1 := by
  have hun : (e.unblock c.asked).blocked = false ∧
      (e.unblock c.asked).count = (if e.blocked then 0 else e.count) ∧
      (e.unblock c.asked).windowStart = e.windowStart := by
    rw [held, Option.any_some] at h
    rw [RlEntry.unblock]
    cases hb : e.blocked with
    | false => simp [hb]
    | true =>
      simp only [hb, Bool.true_and, decide_eq_false_iff_not, Nat.not_lt] at h
      simp [h]
  obtain ⟨hblocked, hcount, hwindow⟩ := hun
  rw [RlEntry.checked]
  simp only [hblocked, Bool.false_eq_true, if_false]
  rw [counted_eq_hit limit (hwindow ▸ hstart) hnow, hcount, hwindow]
  refine ⟨_, ?_, rfl, rfl⟩
  exact hblocked

/-- A check of a blocked address is not passed and changes nothing in its entry. -/
theorem check_held (hip : IsIp ip) (hroom : s.HasRoom ip) (h : held (s.entryOf ip) c = true) :
    (arwsRatelimitCheck s ip c).2 = false ∧
      (arwsRatelimitCheck s ip c).1.entryOf ip = s.entryOf ip := by
  obtain ⟨hentry, hok, -⟩ := arwsRatelimitCheck_spec (c := c) hip hroom
  cases he : s.entryOf ip with
  | none =>
    rw [he] at h
    cases h
  | some e =>
    rw [he] at h hentry hok
    rw [Option.getD_some, checked_held _ h] at hentry hok
    exact ⟨hok, hentry⟩

/-- Any other check is a hit on the counter in the entry. -/
theorem check_not_held (hip : IsIp ip) (hroom : s.HasRoom ip)
    (h : held (s.entryOf ip) c = false) (hstart : ∀ e ∈ s.entryOf ip, e.windowStart ≤ c.now)
    (hnow : c.now < 2 ^ 64) :
    (arwsRatelimitCheck s ip c).2 =
        ((met (counterOf (s.entryOf ip)) (hitOf s.rules c)).hit (hitOf s.rules c)).2 ∧
      counterOf ((arwsRatelimitCheck s ip c).1.entryOf ip) =
        some ((met (counterOf (s.entryOf ip)) (hitOf s.rules c)).hit (hitOf s.rules c)).1 ∧
      ∀ d, held ((arwsRatelimitCheck s ip c).1.entryOf ip) d = false := by
  obtain ⟨hentry, hok, -⟩ := arwsRatelimitCheck_spec (c := c) hip hroom
  have hheld : held (some ((s.entryOf ip).getD (freshEntry ip c.now))) c = false := by
    cases he : s.entryOf ip with
    | none => rfl
    | some e => rwa [he] at h
  have hle : ((s.entryOf ip).getD (freshEntry ip c.now)).windowStart ≤ c.now := by
    cases he : s.entryOf ip with
    | none => exact le_rfl
    | some e => exact hstart e he
  have hmet : met (counterOf (s.entryOf ip)) (hitOf s.rules c) =
      ⟨if ((s.entryOf ip).getD (freshEntry ip c.now)).blocked then 0
        else ((s.entryOf ip).getD (freshEntry ip c.now)).count,
        ((s.entryOf ip).getD (freshEntry ip c.now)).windowStart⟩ := by
    cases s.entryOf ip <;> rfl
  obtain ⟨e', hblocked, hchecked, hcounter⟩ :=
    checked_not_held (limitFor s.rules c.host c.path) hheld hle hnow
  rw [hchecked] at hentry hok
  rw [hentry, hok, hmet]
  refine ⟨rfl, ?_, fun d => ?_⟩
  · rw [counterOf, Option.map_some, hblocked]
    exact congrArg some hcounter
  · rw [held, Option.any_some, hblocked, Bool.false_and]

theorem hasRoom_check (hip : IsIp ip) (hroom : s.HasRoom ip) :
    (arwsRatelimitCheck s ip c).1.HasRoom ip :=
  Or.inl (by rw [(arwsRatelimitCheck_spec hip hroom).1]; rfl)

end Step

theorem afterChecks_concat (s : Limiter) (ip : Bytes) (cs : List Check) (c : Check) :
    afterChecks s ip (cs ++ [c]) = (arwsRatelimitCheck (afterChecks s ip cs) ip c).1 := by
  rw [afterChecks, List.foldl_append]
  rfl

theorem hitsOf_concat (s : Limiter) (ip : Bytes) (cs : List Check) (c : Check) :
    hitsOf s ip (cs ++ [c]) =
      if held (s.entryOf ip) c then hitsOf s ip cs else hitsOf s ip cs ++ [hitOf s.rules c] := by
  rw [hitsOf, List.filter_append, List.map_append]
  cases h : held (s.entryOf ip) c <;> simp [h, hitsOf]

section Run

variable {s : Limiter} {ip : Bytes}

theorem InOrder.of_append {cs cs' : List Check} (h : InOrder s ip (cs ++ cs')) : InOrder s ip cs where
  order := (List.pairwise_append.1 h.order).1
  asked := fun c hc => h.asked c (List.mem_append_left _ hc)
  started := fun e he c hc => h.started e he c (List.mem_append_left _ hc)

theorem InOrder.filter {cs : List Check} (h : InOrder s ip cs) (P : Check → Bool) :
    InOrder s ip (cs.filter P) where
  order := h.order.filter P
  asked := fun c hc => h.asked c (List.mem_of_mem_filter hc)
  started := fun e he c hc => h.started e he c (List.mem_of_mem_filter hc)

theorem InOrder.timed {cs : List Check} (h : InOrder s ip cs) :
    Timed (counterOf (s.entryOf ip)) (hitsOf s ip cs) where
  sorted := by
    rw [hitsOf, List.pairwise_map]
    refine List.Pairwise.filter _ (h.order.imp_of_mem fun {c d} _ hd hle => ?_)
    exact hle.trans (h.asked d hd).1
  started := by
    intro d hd x hx
    obtain ⟨e, he, rfl⟩ := Option.map_eq_some_iff.1 hd
    obtain ⟨c, hc, rfl⟩ := List.mem_map.1 hx
    exact h.started e he c (List.mem_of_mem_filter hc)

/-- What checks of one address leave behind. -/
structure Tracked (s : Limiter) (ip : Bytes) (cs : List Check) : Prop where
  rules : (afterChecks s ip cs).rules = s.rules
  hasRoom : (afterChecks s ip cs).HasRoom ip
  /-- The entry holds the counter of the hits. -/
  counter : counterOf ((afterChecks s ip cs).entryOf ip) =
    run (counterOf (s.entryOf ip)) (hitsOf s ip cs)
  /-- A later check finds the address blocked if it was, for so long, from the start. -/
  block : ∀ d, (∀ c ∈ cs, c.asked ≤ d.asked) →
    held ((afterChecks s ip cs).entryOf ip) d = held (s.entryOf ip) d

theorem Tracked.started {cs : List Check} {c : Check} (h : Tracked s ip cs)
    (ho : InOrder s ip (cs ++ [c])) (hheld : held (s.entryOf ip) c = false) :
    ∀ e ∈ (afterChecks s ip cs).entryOf ip, e.windowStart ≤ c.now := by
  intro e he
  have htimed := ho.timed
  rw [hitsOf_concat, hheld, if_neg Bool.false_ne_true] at htimed
  have hle := start_met_le htimed
  rwa [← h.counter, Option.mem_def.1 he] at hle

theorem InOrder.asked_le {cs : List Check} {c : Check} (ho : InOrder s ip (cs ++ [c])) :
    ∀ x ∈ cs, x.asked ≤ c.asked := fun x hx =>
  (ho.asked x (List.mem_append_left _ hx)).1.trans
    ((List.pairwise_append.1 ho.order).2.2 x hx c (by simp))

theorem tracked_afterChecks {cs : List Check} (hip : IsIp ip) (hroom : s.HasRoom ip)
    (ho : InOrder s ip cs) : Tracked s ip cs := by
  induction cs using List.reverseRecOn with
  | nil => exact ⟨rfl, hroom, rfl, fun _ _ => rfl⟩
  | append_singleton cs c ih =>
    have h := ih ho.of_append
    have hsame : held ((afterChecks s ip cs).entryOf ip) c = held (s.entryOf ip) c :=
      h.block c ho.asked_le
    have hrules := (arwsRatelimitCheck_spec (c := c) hip h.hasRoom).2.2
    cases hheld : held (s.entryOf ip) c with
    | true =>
      obtain ⟨-, hentry⟩ := check_held hip h.hasRoom (hsame.trans hheld)
      refine ⟨?_, ?_, ?_, fun d hd => ?_⟩
      · rw [afterChecks_concat, hrules, h.rules]
      · rw [afterChecks_concat]
        exact hasRoom_check hip h.hasRoom
      · rw [afterChecks_concat, hentry, h.counter, hitsOf_concat, if_pos hheld]
      · rw [afterChecks_concat, hentry]
        exact h.block d fun x hx => hd x (List.mem_append_left _ hx)
    | false =>
      obtain ⟨-, hcounter, hfree⟩ := check_not_held hip h.hasRoom (hsame.trans hheld)
        (h.started ho hheld) (ho.asked c (by simp)).2
      refine ⟨?_, ?_, ?_, fun d hd => ?_⟩
      · rw [afterChecks_concat, hrules, h.rules]
      · rw [afterChecks_concat]
        exact hasRoom_check hip h.hasRoom
      · rw [afterChecks_concat, hcounter, h.counter, h.rules, hitsOf_concat, hheld,
          if_neg Bool.false_ne_true, run_concat]
      · rw [afterChecks_concat, hfree]
        -- whoever was not blocked for `c` is not blocked later
        have hle := hd c (by simp)
        cases he : s.entryOf ip with
        | none => rfl
        | some e =>
          rw [he, held, Option.any_some] at hheld
          rw [held, Option.any_some]
          cases hb : e.blocked with
          | false => rfl
          | true =>
            simp only [hb, Bool.true_and, decide_eq_false_iff_not] at hheld
            simp only [Bool.true_and, Bool.false_eq, decide_eq_false_iff_not]
            omega

/-- **Over a run an entry counts hits**, except while its address is blocked. -/
theorem passes_eq {seen : List Check} {c : Check} (hip : IsIp ip) (hroom : s.HasRoom ip)
    (ho : InOrder s ip (seen ++ [c])) :
    passes s ip seen c =
      (!held (s.entryOf ip) c && admitted (counterOf (s.entryOf ip)) (hitsOf s ip seen)
        (hitOf s.rules c)) := by
  have h := tracked_afterChecks hip hroom ho.of_append
  have hsame := h.block c ho.asked_le
  rw [passes]
  cases hheld : held (s.entryOf ip) c with
  | true => exact (check_held hip h.hasRoom (hsame.trans hheld)).1
  | false =>
    rw [(check_not_held hip h.hasRoom (hsame.trans hheld) (h.started ho hheld)
      (ho.asked c (by simp)).2).1, h.counter, h.rules, admitted]
    rfl

end Run

end Ratelimit
end Arws
