import Mathlib.Data.List.Dedup
import Mathlib.Data.List.Perm.Subperm
import Arws.Ratelimit.Block

/-!
# One counter for each address

The checks of all addresses go through one table, in any order.  As long as there are no more addresses
than entries, each address has its entry to itself from its first check on, and the table as a whole does
what a counter of its own for each address would do.

* `simulates_check` — a check of one address is a hit on the counter of that address.
* `decisions_eq_reference` — so every run is decided as the counters decide it, and no address passes more
  than 10000 checks in a minute.
-/

set_option autoImplicit false

namespace Arws
namespace Ratelimit

open CString FixedWindow

/-- A call of `arws_ratelimit_check`. -/
structure RlCall where
  ip : Bytes
  check : Check
  deriving DecidableEq

/-- What a limiter decides, call by call. -/
def decisions : Limiter → List RlCall → List Bool
  | _, [] => []
  | s, c :: calls =>
    (arwsRatelimitCheck s c.ip c.check).2 :: decisions (arwsRatelimitCheck s c.ip c.check).1 calls

/-- The limiter behind the calls. -/
def afterCalls (s : Limiter) (calls : List RlCall) : Limiter :=
  calls.foldl (fun s c => (arwsRatelimitCheck s c.ip c.check).1) s

/-! ## The reference -/

/-- A call as a counter counts it. -/
def RlCall.hit (limit : RlCall → Limit) (c : RlCall) : Hit := ⟨c.check.now, limit c⟩

/-- The counter of the address behind a call, and what it decides. -/
def RlCall.counted (limit : RlCall → Limit) (counters : Bytes → Option Counter) (c : RlCall) :
    Counter × Bool :=
  (met (counters c.ip) (c.hit limit)).hit (c.hit limit)

/-- What separate counters for the addresses decide, call by call. -/
def reference (limit : RlCall → Limit) : (Bytes → Option Counter) → List RlCall → List Bool
  | _, [] => []
  | counters, c :: calls =>
    (c.counted limit counters).2 ::
      reference limit (Function.update counters c.ip (some (c.counted limit counters).1)) calls

/-- The calls follow on one another, and the clock does not go back. -/
structure InTime (calls : List RlCall) : Prop where
  order : calls.Pairwise fun c d => c.check.now ≤ d.check.asked
  asked : ∀ c ∈ calls, c.check.asked ≤ c.check.now ∧ c.check.now < 2 ^ 64

/-- Calls of addresses that all find an entry. -/
structure Orderly (calls : List RlCall) : Prop extends InTime calls where
  ip : ∀ c ∈ calls, IsIp c.ip
  addresses : (calls.map (·.ip)).dedup.length ≤ arwsRlMaxIps

/-- How many calls of an address are allowed from a moment on, in a minute. -/
def allowedIn (calls : List RlCall) (oks : List Bool) (ip : Bytes) (t : Nat) : Nat :=
  (calls.zip oks).countP fun c =>
    c.1.ip = ip ∧ c.2 = true ∧ t ≤ c.1.check.now ∧ c.1.check.now ≤ t + 60

/-! ## The addresses in the table -/

/-- The addresses that have an entry. -/
def Limiter.used (s : Limiter) : List Bytes := (s.entries.map (·.ip)).filter (· ≠ [])

/-- An empty place that is filled is one more. -/
theorem filter_set_perm {l : List Bytes} {i : Nat} {a : Bytes} (ha : a ≠ []) (h : l[i]? = some []) :
    ((l.set i a).filter (· ≠ [])).Perm (a :: l.filter (· ≠ [])) := by
  obtain ⟨hi, hget⟩ := List.getElem?_eq_some_iff.1 h
  have hset := (List.set_perm_cons_eraseIdx hi a).filter (· ≠ [])
  have hrest := (List.getElem_cons_eraseIdx_perm hi).filter (· ≠ [])
  rw [hget, List.filter_cons_of_neg (by simp)] at hrest
  rw [List.filter_cons_of_pos (by simpa using ha)] at hset
  exact hset.trans (hrest.cons a)

/-- An address that has no entry is not among those in the table. -/
theorem notMem_used {s : Limiter} {ip : Bytes} (hip : IsIp ip) (h : s.entryOf ip = none) :
    ip ∉ s.used := by
  intro hmem
  obtain ⟨e, he, heq⟩ := List.mem_map.1 (List.mem_filter.1 hmem).1
  rw [Limiter.entryOf, List.find?_eq_none] at h
  exact h e he ((holds_iff hip).2 heq)

/-- With as many places as addresses there is room for each. -/
theorem hasRoom_of_used {s : Limiter} {ip : Bytes} {ips : List Bytes} (hip : IsIp ip) (hmem : ip ∈ ips)
    (hnodup : s.used.Nodup) (hsub : s.used ⊆ ips) (hlen : ips.length ≤ s.entries.length) :
    s.HasRoom ip := by
  cases hentry : s.entryOf ip with
  | some e => exact Or.inl (by rw [hentry]; rfl)
  | none =>
    refine Or.inr ?_
    by_contra hfull
    have hall : s.used = s.entries.map (·.ip) := by
      rw [Limiter.used, List.filter_eq_self]
      intro a ha
      obtain ⟨e, he, rfl⟩ := List.mem_map.1 ha
      exact decide_eq_true fun hempty => hfull ⟨e, he, hempty⟩
    have hle := (List.Nodup.subperm (hnodup.cons (notMem_used hip hentry))
      (List.cons_subset.2 ⟨hmem, hsub⟩)).length_le
    rw [List.length_cons, hall, List.length_map] at hle
    omega

/-- An entry that is written over with one of the same address keeps the addresses. -/
theorem map_ip_set {entries : List RlEntry} {i : Nat} (hi : i < entries.length) {e : RlEntry}
    (he : e.ip = entries[i].ip) : (entries.set i e).map (·.ip) = entries.map (·.ip) := by
  have hi' : i < (entries.map (·.ip)).length := by rwa [List.length_map]
  have hget : entries[i].ip = (entries.map (·.ip))[i] := (List.getElem_map _).symm
  rw [List.map_set, he, hget, List.set_getElem_self]

/-- **A check keeps the addresses in the table**, or writes its own to a free place. -/
theorem addresses_check {s : Limiter} {ip : Bytes} (c : Check) (hip : IsIp ip) (hroom : s.HasRoom ip) :
    (arwsRatelimitCheck s ip c).1.entries.map (·.ip) = s.entries.map (·.ip) ∨
      s.entryOf ip = none ∧ ∃ i : Nat, (s.entries.map (·.ip))[i]? = some [] ∧
        (arwsRatelimitCheck s ip c).1.entries.map (·.ip) = (s.entries.map (·.ip)).set i ip := by
  cases hfind : s.entries.findIdx? (·.holds ip) with
  | some i =>
    refine Or.inl ?_
    obtain ⟨hi, hholds, -, hbefore⟩ := findIdx?_cases hfind
    have hunblock : (s.entries[i].unblock c.asked).holds ip = true := by
      rw [RlEntry.holds, unblock_ip]
      exact hholds
    have hagain := findIdx?_set (P := (·.holds ip)) hi hbefore hunblock
    rw [arwsRatelimitCheck, arwsRatelimitIsBlocked, hfind]
    simp only [modify_unblock hi]
    split
    · exact map_ip_set hi (unblock_ip _ _)
    · simp only [entryIdx, hagain, List.getElem?_set_self hi, List.set_set]
      exact map_ip_set hi (by rw [counted_ip, unblock_ip])
  | none =>
    obtain ⟨i, hfree⟩ := hroom.exists_free hfind
    obtain ⟨hi, hfreeip, -, -⟩ := findIdx?_cases hfree
    refine Or.inr ⟨entryOf_eq_none hfind, i, ?_, ?_⟩
    · rw [List.getElem?_map, List.getElem?_eq_getElem hi, Option.map_some, beq_iff_eq.1 hfreeip]
    · rw [arwsRatelimitCheck, arwsRatelimitIsBlocked, hfind]
      simp only [entryIdx, hfind, hfree, Option.getD_some, Bool.false_eq_true, if_false,
        List.getElem?_set_self hi, List.set_set, List.map_set, counted_ip, freshEntry,
        List.take_of_length_le hip.length_le]

/-- What a check does to the addresses in use. -/
theorem used_check {s : Limiter} {ip : Bytes} (c : Check) (hip : IsIp ip) (hroom : s.HasRoom ip) :
    (arwsRatelimitCheck s ip c).1.used = s.used ∨
      ip ∉ s.used ∧ (arwsRatelimitCheck s ip c).1.used.Perm (ip :: s.used) := by
  rcases addresses_check c hip hroom with heq | ⟨hnone, i, hfree, heq⟩
  · exact Or.inl (by rw [Limiter.used, heq, Limiter.used])
  · refine Or.inr ⟨notMem_used hip hnone, ?_⟩
    rw [Limiter.used, heq]
    exact filter_set_perm hip.ne_nil hfree

theorem length_entries_check {s : Limiter} {ip : Bytes} (c : Check) (hip : IsIp ip)
    (hroom : s.HasRoom ip) : (arwsRatelimitCheck s ip c).1.entries.length = s.entries.length := by
  rw [← List.length_map (·.ip), ← @List.length_map _ _ s.entries (·.ip)]
  rcases addresses_check c hip hroom with heq | ⟨-, i, -, heq⟩
  · rw [heq]
  · rw [heq, List.length_set]

/-! ## The table as separate counters -/

/-- The table does what the counters do, for addresses that all find a place in it. -/
structure Simulates (s : Limiter) (limit : RlCall → Limit) (counters : Bytes → Option Counter)
    (ips : List Bytes) : Prop where
  limit_eq : ∀ c : RlCall, limitFor s.rules c.check.host c.check.path = limit c
  counter : ∀ ip, IsIp ip → counterOf (s.entryOf ip) = counters ip
  unblocked : ∀ ip, IsIp ip → ∀ e ∈ s.entryOf ip, e.blocked = false
  nodup : s.used.Nodup
  subset : s.used ⊆ ips
  length_le : ips.length ≤ s.entries.length

@[simp] theorem counted_blocked (e : RlEntry) (now : Nat) (limit : Limit) :
    (e.counted now limit).1.blocked = e.blocked := by
  rw [RlEntry.counted]
  split <;> rfl

theorem unblock_of_unblocked {e : RlEntry} (h : e.blocked = false) (asked : Nat) : e.unblock asked = e := by
  rw [RlEntry.unblock, h]
  rfl

section Step

variable {s : Limiter} {limit : RlCall → Limit} {counters : Bytes → Option Counter}
  {ips : List Bytes} {c : RlCall}

theorem Simulates.hasRoom (h : Simulates s limit counters ips) (hip : IsIp c.ip) (hmem : c.ip ∈ ips) :
    s.HasRoom c.ip :=
  hasRoom_of_used hip hmem h.nodup h.subset h.length_le

/-- A check leaves an entry that is not blocked. -/
theorem unblocked_check (h : Simulates s limit counters ips) (hip : IsIp c.ip) (hmem : c.ip ∈ ips) :
    ∀ e ∈ (arwsRatelimitCheck s c.ip c.check).1.entryOf c.ip, e.blocked = false := by
  intro e he
  rw [(arwsRatelimitCheck_spec hip (h.hasRoom hip hmem)).1] at he
  cases he
  have hunblocked : ((s.entryOf c.ip).getD (freshEntry c.ip c.check.now)).blocked = false := by
    cases hentry : s.entryOf c.ip with
    | none => rfl
    | some e => exact h.unblocked c.ip hip e hentry
  rw [RlEntry.checked, unblock_of_unblocked hunblocked]
  simp only [hunblocked, Bool.false_eq_true, if_false, counted_blocked]

/-- **A check of one address is a hit on the counter of that address.** -/
theorem simulates_check (h : Simulates s limit counters ips) (hip : IsIp c.ip) (hmem : c.ip ∈ ips)
    (hstart : ∀ d ∈ counters c.ip, d.start ≤ c.check.now) (hnow : c.check.now < 2 ^ 64) :
    (arwsRatelimitCheck s c.ip c.check).2 = (c.counted limit counters).2 ∧
      Simulates (arwsRatelimitCheck s c.ip c.check).1 limit
        (Function.update counters c.ip (some (c.counted limit counters).1)) ips := by
  have hroom := h.hasRoom hip hmem
  have hhit : hitOf s.rules c.check = c.hit limit := congrArg (Hit.mk c.check.now) (h.limit_eq c)
  have hheld : held (s.entryOf c.ip) c.check = false := by
    cases hentry : s.entryOf c.ip with
    | none => rfl
    | some e => rw [held, Option.any_some, h.unblocked c.ip hip e hentry, Bool.false_and]
  have hle : ∀ e ∈ s.entryOf c.ip, e.windowStart ≤ c.check.now := by
    intro e he
    have := hstart _ (by rw [← h.counter c.ip hip, Option.mem_def.1 he]; exact rfl)
    exact this
  obtain ⟨hok, hcounter, -⟩ := check_not_held hip hroom hheld hle hnow
  rw [hhit, h.counter c.ip hip] at hok hcounter
  have hother : ∀ ip, ip ≠ c.ip →
      (arwsRatelimitCheck s c.ip c.check).1.entryOf ip = s.entryOf ip := fun ip hne =>
    entryOf_check_other (Ne.symm hne) hip.length_le (Or.inl hroom)
  refine ⟨hok, ?_, fun ip hip' => ?_, fun ip hip' => ?_, ?_, ?_, ?_⟩
  · rw [(arwsRatelimitCheck_spec hip hroom).2.2]
    exact h.limit_eq
  · by_cases heq : ip = c.ip
    · rw [heq, hcounter, Function.update_self]
      rfl
    · rw [hother ip heq, Function.update_of_ne heq, h.counter ip hip']
  · by_cases heq : ip = c.ip
    · rw [heq]
      exact unblocked_check h hip hmem
    · rw [hother ip heq]
      exact h.unblocked ip hip'
  · rcases used_check c.check hip hroom with heq | ⟨hnew, hperm⟩
    · rw [heq]
      exact h.nodup
    · exact hperm.nodup_iff.2 (h.nodup.cons hnew)
  · rcases used_check c.check hip hroom with heq | ⟨-, hperm⟩
    · rw [heq]
      exact h.subset
    · exact fun a ha => List.cons_subset.2 ⟨hmem, h.subset⟩ (hperm.mem_iff.1 ha)
  · rw [length_entries_check c.check hip hroom]
    exact h.length_le

end Step

/-! ## Runs -/

/-- A table in which no address has an entry simulates counters that have not begun. -/
theorem simulates_init {s : Limiter} (hs : s.entries = arwsRatelimitInit.entries) {ips : List Bytes}
    (hips : ips.length ≤ arwsRlMaxIps) :
    Simulates s (fun c => limitFor s.rules c.check.host c.check.path) (fun _ => none) ips := by
  have hused : s.used = [] := by
    rw [Limiter.used, hs, arwsRatelimitInit, List.map_replicate, List.filter_replicate]
    rfl
  refine ⟨fun _ => rfl, fun ip _ => ?_, fun ip _ e he => ?_, ?_, ?_, ?_⟩
  · rw [entryOf_of_init hs]
    rfl
  · rw [entryOf_of_init hs] at he
    cases he
  · rw [hused]
    exact List.nodup_nil
  · rw [hused]
    exact List.nil_subset ips
  · rw [hs, arwsRatelimitInit, List.length_replicate]
    exact hips

/-- What a run of calls needs of the counters it begins with. -/
structure Runnable (counters : Bytes → Option Counter) (ips : List Bytes) (calls : List RlCall) :
    Prop where
  order : calls.Pairwise fun c d => c.check.now ≤ d.check.now
  now_lt : ∀ c ∈ calls, c.check.now < 2 ^ 64
  ip : ∀ c ∈ calls, IsIp c.ip ∧ c.ip ∈ ips
  started : ∀ ip, ∀ d ∈ counters ip, ∀ c ∈ calls, d.start ≤ c.check.now

theorem Runnable.of_inTime {calls : List RlCall} {ips : List Bytes} (h : InTime calls)
    (hip : ∀ c ∈ calls, IsIp c.ip ∧ c.ip ∈ ips) : Runnable (fun _ => none) ips calls where
  order := h.order.imp_of_mem fun {c d} _ hd hle => hle.trans (h.asked d hd).1
  now_lt := fun c hc => (h.asked c hc).2
  ip := hip
  started := fun ip d hd => by cases hd

section Run

variable {s : Limiter} {limit : RlCall → Limit} {counters : Bytes → Option Counter}
  {ips : List Bytes} {c : RlCall} {calls : List RlCall}

theorem Runnable.of_cons (h : Runnable counters ips (c :: calls)) (limit : RlCall → Limit) :
    Runnable (Function.update counters c.ip (some (c.counted limit counters).1)) ips calls := by
  obtain ⟨hfirst, horder⟩ := List.pairwise_cons.1 h.order
  refine ⟨horder, fun d hd => h.now_lt d (List.mem_cons_of_mem _ hd),
    fun d hd => h.ip d (List.mem_cons_of_mem _ hd), fun ip d hd x hx => ?_⟩
  by_cases heq : ip = c.ip
  · subst heq
    rw [Function.update_self, Option.mem_some_iff] at hd
    subst hd
    refine (start_hit_le (start_met_le_of_started fun d hd => ?_)).trans (hfirst x hx)
    exact h.started c.ip d hd c List.mem_cons_self
  · rw [Function.update_of_ne heq] at hd
    exact h.started ip d hd x (List.mem_cons_of_mem _ hx)

/-- **A run is decided as the counters decide it.** -/
theorem decisions_eq (h : Simulates s limit counters ips) (hr : Runnable counters ips calls) :
    decisions s calls = reference limit counters calls := by
  induction calls generalizing s counters with
  | nil => rfl
  | cons c calls ih =>
    obtain ⟨hip, hmem⟩ := hr.ip c List.mem_cons_self
    obtain ⟨hok, hnext⟩ := simulates_check h hip hmem
      (fun d hd => hr.started c.ip d hd c List.mem_cons_self) (hr.now_lt c List.mem_cons_self)
    rw [decisions, reference, hok, ih hnext (hr.of_cons limit)]

/-- No counter is beyond the number of the calls. -/
theorem count_le_afterCalls {n : Nat} (h : Simulates s limit counters ips) (hr : Runnable counters ips calls)
    (hn : ∀ ip, ∀ d ∈ counters ip, d.count ≤ n) :
    ∀ ip, IsIp ip → ∀ e ∈ (afterCalls s calls).entryOf ip, e.count ≤ n + calls.length := by
  induction calls generalizing s counters n with
  | nil =>
    intro ip hip e he
    have hentry : s.entryOf ip = some e := he
    have hcount := hn ip _ (by rw [← h.counter ip hip, hentry]; exact rfl)
    simp only [h.unblocked ip hip e hentry, Bool.false_eq_true, if_false] at hcount
    exact hcount
  | cons c calls ih =>
    obtain ⟨hip, hmem⟩ := hr.ip c List.mem_cons_self
    obtain ⟨-, hnext⟩ := simulates_check h hip hmem
      (fun d hd => hr.started c.ip d hd c List.mem_cons_self) (hr.now_lt c List.mem_cons_self)
    intro ip hip' e he
    have hle := ih (n := n + 1) hnext (hr.of_cons limit) ?_ ip hip' e he
    · rw [List.length_cons]
      omega
    intro ip' d hd
    by_cases heq : ip' = c.ip
    · subst heq
      rw [Function.update_self, Option.mem_some_iff] at hd
      subst hd
      have hmet : (met (counters c.ip) (c.hit limit)).count ≤ n := by
        cases hc : counters c.ip with
        | none => exact Nat.zero_le n
        | some d => exact hn c.ip d hc
      exact (count_hit_le _ _).trans (by omega)
    · rw [Function.update_of_ne heq] at hd
      exact (hn ip' d hd).trans (Nat.le_succ n)

/-- The calls of an address that the counters allow are the hits that its counter admits. -/
theorem allowedIn_reference (limit : RlCall → Limit) (counters : Bytes → Option Counter)
    (calls : List RlCall) (ip : Bytes) (t : Nat) :
    allowedIn calls (reference limit counters calls) ip t =
      within (passed (counters ip) ((calls.filter fun c => c.ip = ip).map (·.hit limit))) t 60 := by
  induction calls generalizing counters with
  | nil => rfl
  | cons c calls ih =>
    rw [reference, allowedIn, List.zip_cons_cons, List.countP_cons, ← allowedIn, ih]
    by_cases heq : c.ip = ip
    · subst heq
      rw [Function.update_self, List.filter_cons_of_pos (by simp), List.map_cons, passed]
      rw [RlCall.counted]
      cases hok : ((met (counters c.ip) (c.hit limit)).hit (c.hit limit)).2 with
      | true =>
        rw [if_pos rfl, within_cons]
        simp only [true_and, decide_eq_true_eq]
        rfl
      | false => simp
    · rw [Function.update_of_ne (Ne.symm heq), List.filter_cons_of_neg (by simpa using heq),
        if_neg (by simp [heq])]
      rfl

end Run

/-- **The table is a counter for each address**: every run is decided as separate counters decide it, in
no minute an address passes more than 10000 checks, and no counter of a run that an `int` can count is
beyond an `int`. -/
theorem decisions_eq_reference {calls : List RlCall} (h : Orderly calls) (hfew : calls.length < 2 ^ 31) :
    decisions arwsRatelimitInit calls = reference (fun _ => ⟨5000, 60⟩) (fun _ => none) calls ∧
      (∀ ip t, allowedIn calls (decisions arwsRatelimitInit calls) ip t ≤ 10000) ∧
      ∀ ip, IsIp ip → ∀ e ∈ (afterCalls arwsRatelimitInit calls).entryOf ip, e.count < 2 ^ 31 := by
  have hsim : Simulates arwsRatelimitInit (fun _ => ⟨5000, 60⟩) (fun _ => none)
      (calls.map (·.ip)).dedup := simulates_init rfl h.addresses
  have hrun : Runnable (fun _ => none) (calls.map (·.ip)).dedup calls :=
    .of_inTime h.toInTime fun c hc => ⟨h.ip c hc, List.mem_dedup.2 (List.mem_map_of_mem hc)⟩
  have heq := decisions_eq hsim hrun
  refine ⟨heq, fun ip t => ?_, fun ip hip e he => ?_⟩
  · rw [heq, allowedIn_reference]
    have htimed : Timed none ((calls.filter fun c => c.ip = ip).map (·.hit fun _ => ⟨5000, 60⟩)) :=
      ⟨List.pairwise_map.2 (hrun.order.filter _), fun d hd => by cases hd⟩
    refine @within_passed_le 5000 60 t (by decide) (by decide) none _ htimed fun x hx => ?_
    obtain ⟨c, -, rfl⟩ := List.mem_map.1 hx
    rfl
  · have := count_le_afterCalls (n := 0) hsim hrun (fun ip d hd => by cases hd) ip hip e he
    omega

private def callOf (ip : String) (now : Nat) : RlCall := ⟨ascii ip, none, ascii "/", now, now⟩

private theorem orderly_two : Orderly [callOf "10.0.0.1" 0, callOf "10.0.0.2" 60] where
  order := by decide
  asked := by decide
  ip := by
    simp only [List.mem_cons, List.not_mem_nil, or_false]
    rintro c (rfl | rfl)
    · exact ⟨by decide, by decide⟩
    · exact ⟨by decide, by decide⟩
  addresses := by decide

/-- The first calls of two addresses are allowed. -/
theorem decisions_of_two_addresses :
    decisions arwsRatelimitInit [callOf "10.0.0.1" 0, callOf "10.0.0.2" 60] = [true, true] := by
  rw [(decisions_eq_reference orderly_two (by decide)).1]
  decide

end Ratelimit
end Arws
