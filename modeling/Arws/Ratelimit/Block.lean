import Arws.Library.Transition
import Arws.Ratelimit.Limiter

/-!
# Blocked addresses

`arws_ratelimit_block_ip` notes the end of the block in the entry of the address.  The table has 2000
entries: without one for the address and without a free one the block is not noted anywhere, and a
check of an address without an entry writes over the oldest entry of a full table, blocked or not.

* `entryOf_check_other` — what a check does to the entries of other addresses.
* `staysBlocked_of_reach` — a block holds until it ends in every run in which it finds a place and no
  check takes that place away.
* `not_staysBlocked` — and is lost at once when 2000 other addresses were there before.
-/

set_option autoImplicit false

namespace Arws
namespace Ratelimit

open CString

/-- `arws_ratelimit_block_ip`; the sum is one of `uint64_t`. -/
def arwsRatelimitBlockIp (s : Limiter) (ip : Bytes) (seconds : Int) (now : Nat) : Limiter :=
  let blockedUntil := ((now + seconds) % 2 ^ 64).toNat
  match s.entries.findIdx? (·.holds ip) with
  | some i =>
    { s with entries := s.entries.modify i fun e =>
        { e with blocked := true, blockedUntil := blockedUntil } }
  | none =>
    match s.entries.findIdx? fun e => e.ip == [] with
    | some i => { s with entries := s.entries.set i ⟨ip.take 63, 0, now, true, blockedUntil⟩ }
    | none => s

/-! ## The entries of other addresses -/

theorem holds_other {e : RlEntry} {ip ip' : Bytes} (hne : ip' ≠ ip) (h : e.ip = ip') :
    e.holds ip = false := by
  rw [RlEntry.holds, h, beq_eq_false_iff_ne.2 hne, Bool.and_false]

theorem ip_of_holds {e : RlEntry} {ip : Bytes} (h : e.holds ip = true) : e.ip = ip :=
  beq_iff_eq.1 (Bool.and_eq_true _ _ ▸ h).2

theorem holds_free {e : RlEntry} {ip : Bytes} (h : e.ip = []) : e.holds ip = false := by
  rw [RlEntry.holds, h]
  rfl

/-- Where an entry that is not it is written over with another that is not it, the same is found. -/
theorem find?_set_other {entries : List RlEntry} {P : RlEntry → Bool} {i : Nat} {e : RlEntry}
    (hold : ∀ e' ∈ entries[i]?, P e' = false) (hnew : P e = false) :
    (entries.set i e).find? P = entries.find? P := by
  induction entries generalizing i with
  | nil => rfl
  | cons x entries ih =>
    cases i with
    | zero =>
      have hx : P x = false := hold x rfl
      rw [List.set_cons_zero, List.find?_cons_of_neg (by simp [hnew]),
        List.find?_cons_of_neg (by simp [hx])]
    | succ i =>
      rw [List.set_cons_succ]
      cases hx : P x with
      | true => rw [List.find?_cons_of_pos hx, List.find?_cons_of_pos hx]
      | false =>
        rw [List.find?_cons_of_neg (by simp [hx]), List.find?_cons_of_neg (by simp [hx])]
        exact ih hold

section Other

variable {s : Limiter} {ip ip' : Bytes}

/-- The entry that is found for one address is none of another. -/
theorem holds_found {i : Nat} (hne : ip' ≠ ip) (h : s.entries.findIdx? (·.holds ip') = some i) :
    ∀ e ∈ s.entries[i]?, e.ip = ip' ∧ e.holds ip = false := by
  obtain ⟨hi, hholds, -, -⟩ := findIdx?_cases h
  intro e he
  rw [List.getElem?_eq_getElem hi] at he
  cases he
  exact ⟨ip_of_holds hholds, holds_other hne (ip_of_holds hholds)⟩

theorem entryOf_modify_other {i : Nat} {f : RlEntry → RlEntry} (hne : ip' ≠ ip)
    (hf : ∀ e, (f e).ip = e.ip) (h : s.entries.findIdx? (·.holds ip') = some i) :
    (s.entries.modify i f).find? (·.holds ip) = s.entryOf ip := by
  rw [List.modify_eq_set_getElem?]
  cases he : s.entries[i]? with
  | none => rfl
  | some e =>
    obtain ⟨hip', -⟩ := holds_found hne h e he
    exact find?_set_other (fun e' he' => (holds_found hne h e' he').2)
      (holds_other hne ((hf e).trans hip'))

theorem entryOf_isBlocked_other (hne : ip' ≠ ip) (asked : Nat) :
    (arwsRatelimitIsBlocked s ip' asked).1.entryOf ip = s.entryOf ip := by
  rw [arwsRatelimitIsBlocked]
  cases hfind : s.entries.findIdx? (·.holds ip') with
  | none => rfl
  | some i => exact entryOf_modify_other hne (fun e => unblock_ip e asked) hfind

theorem entryOf_blockIp_other (hne : ip' ≠ ip) (hlen : ip'.length ≤ 63) (seconds : Int) (now : Nat) :
    (arwsRatelimitBlockIp s ip' seconds now).entryOf ip = s.entryOf ip := by
  rw [arwsRatelimitBlockIp]
  cases hfind : s.entries.findIdx? (·.holds ip') with
  | some i => exact entryOf_modify_other hne (fun e => rfl) hfind
  | none =>
    cases hfree : s.entries.findIdx? (fun e => e.ip == []) with
    | none => rfl
    | some i =>
      obtain ⟨hi, hempty, -, -⟩ := findIdx?_cases hfree
      refine find?_set_other (fun e he => ?_) (holds_other hne (List.take_of_length_le hlen))
      rw [List.getElem?_eq_getElem hi] at he
      cases he
      exact holds_free (beq_iff_eq.1 hempty)

/-- The check writes over no entry of the address. -/
def Spares (s : Limiter) (ip ip' : Bytes) (now : Nat) : Prop :=
  s.HasRoom ip' ∨ ∀ e ∈ s.entries[oldestIdx s.entries now]?, e.holds ip = false

/-- **The entry of an address survives the checks of others**, as long as they find an entry or room
for one, or write over a third. -/
theorem entryOf_check_other {c : Check} (hne : ip' ≠ ip) (hlen : ip'.length ≤ 63)
    (h : Spares s ip ip' c.now) : (arwsRatelimitCheck s ip' c).1.entryOf ip = s.entryOf ip := by
  have hsame := entryOf_isBlocked_other (s := s) hne c.asked
  cases hfind : s.entries.findIdx? (·.holds ip') with
  | some i =>
    obtain ⟨hi, hholds, -, hbefore⟩ := findIdx?_cases hfind
    obtain ⟨hip', -⟩ := holds_found hne hfind s.entries[i] (List.getElem?_eq_getElem hi)
    have hunblock : (s.entries[i].unblock c.asked).holds ip' = true := by
      rw [RlEntry.holds, unblock_ip]
      exact hholds
    have hagain := findIdx?_set (P := (·.holds ip')) hi hbefore hunblock
    rw [arwsRatelimitIsBlocked, hfind] at hsame
    rw [arwsRatelimitCheck, arwsRatelimitIsBlocked, hfind]
    simp only [modify_unblock hi] at hsame ⊢
    split
    · exact hsame
    · simp only [entryIdx, hagain, List.getElem?_set_self hi, List.set_set]
      refine find?_set_other (fun e he => (holds_found hne hfind e he).2) (holds_other hne ?_)
      rw [counted_ip, unblock_ip, hip']
  | none =>
    rw [arwsRatelimitCheck, arwsRatelimitIsBlocked, hfind]
    simp only [entryIdx, hfind, Bool.false_eq_true, if_false]
    -- the place that is taken is a free one, or that of the oldest entry
    have hplace : ∀ e ∈ s.entries[(s.entries.findIdx? fun e => e.ip == []).getD
        (oldestIdx s.entries c.now)]?, e.holds ip = false := by
      cases hfree : s.entries.findIdx? (fun e => e.ip == []) with
      | some i =>
        obtain ⟨hi, hempty, -, -⟩ := findIdx?_cases hfree
        intro e he
        rw [Option.getD_some, List.getElem?_eq_getElem hi] at he
        cases he
        exact holds_free (beq_iff_eq.1 hempty)
      | none =>
        refine h.resolve_left fun hroom => ?_
        obtain ⟨i, hi⟩ := hroom.exists_free hfind
        rw [hfree] at hi
        cases hi
    generalize (s.entries.findIdx? fun e => e.ip == []).getD (oldestIdx s.entries c.now) = i at hplace ⊢
    cases hget : (s.entries.set i (freshEntry ip' c.now))[i]? with
    | none => rfl
    | some e =>
      obtain ⟨hi, rfl⟩ := List.getElem?_eq_some_iff.1 hget
      rw [List.getElem_set_self]
      simp only [List.set_set]
      refine find?_set_other hplace (holds_other hne ?_)
      rw [counted_ip]
      exact List.take_of_length_le hlen

end Other

/-! ## The entry of the address -/

section Own

variable {s : Limiter} {ip : Bytes}

theorem entryOf_isBlocked_self (hip : IsIp ip) (asked : Nat) :
    (arwsRatelimitIsBlocked s ip asked).1.entryOf ip = (s.entryOf ip).map (·.unblock asked) := by
  rw [arwsRatelimitIsBlocked]
  cases hfind : s.entries.findIdx? (·.holds ip) with
  | none =>
    rw [entryOf_eq_none hfind, Option.map_none]
  | some i =>
    obtain ⟨hi, hholds, hentry, hbefore⟩ := findIdx?_cases hfind
    have hsome : s.entryOf ip = some s.entries[i] := hentry
    have hholds' : (s.entries[i].unblock asked).holds ip = true := by
      rw [holds_iff hip, unblock_ip, (holds_iff hip).1 hholds]
    rw [hsome, Option.map_some]
    simp only [Limiter.entryOf, List.modify_eq_set_getElem?, List.getElem?_eq_getElem hi]
    exact find?_set hi hbefore hholds'

/-- A block that finds a place is noted there. -/
theorem entryOf_blockIp_self (hip : IsIp ip) (hroom : s.HasRoom ip) (seconds : Int) (now : Nat) :
    ∃ e, (arwsRatelimitBlockIp s ip seconds now).entryOf ip = some e ∧ e.blocked = true ∧
      e.blockedUntil = ((now + seconds) % 2 ^ 64).toNat := by
  rw [arwsRatelimitBlockIp]
  cases hfind : s.entries.findIdx? (·.holds ip) with
  | some i =>
    obtain ⟨hi, hholds, -, hbefore⟩ := findIdx?_cases hfind
    simp only [Limiter.entryOf, List.modify_eq_set_getElem?, List.getElem?_eq_getElem hi]
    exact ⟨_, find?_set hi hbefore ((holds_iff hip).2 ((holds_iff hip).1 hholds)), rfl, rfl⟩
  | none =>
    obtain ⟨i, hfree⟩ := hroom.exists_free hfind
    obtain ⟨hi, -, -, -⟩ := findIdx?_cases hfree
    simp only [hfree]
    refine ⟨_, find?_set hi (fun j hj _ => ?_)
      ((holds_iff hip).2 (List.take_of_length_le hip.length_le)), rfl, rfl⟩
    exact List.findIdx?_eq_none_iff.1 hfind _ (List.getElem_mem hj)

end Own

/-! ## Runs -/

inductive LimiterCall
  | check (ip : Bytes) (c : Check)
  | blockIp (ip : Bytes) (seconds : Int) (now : Nat)
  | isBlocked (ip : Bytes) (asked : Nat)
  | setRule (host : Option Bytes) (pathPattern : Bytes) (maxReq windowSec : Int)

/-- The greatest reading of `ar_time_ms() / 1000`. -/
def lastSecond : Nat := (2 ^ 64 - 1) / 1000

/-- The call comes at the time or later, with an address that fits the field and an `int`. -/
def LimiterCall.Possible (clock : Nat) : LimiterCall → Prop
  | .check ip c => ip.length ≤ 63 ∧ clock ≤ c.asked ∧ c.asked ≤ c.now ∧ c.now ≤ lastSecond
  | .blockIp ip seconds now =>
    ip.length ≤ 63 ∧ -2 ^ 31 ≤ seconds ∧ seconds < 2 ^ 31 ∧ clock ≤ now ∧ now ≤ lastSecond
  | .isBlocked ip asked => ip.length ≤ 63 ∧ clock ≤ asked ∧ asked ≤ lastSecond
  | .setRule .. => True

instance (clock : Nat) (a : LimiterCall) : Decidable (a.Possible clock) := by
  cases a <;> unfold LimiterCall.Possible <;> infer_instance

def LimiterCall.perform (s : Limiter) : LimiterCall → Limiter
  | .check ip c => (arwsRatelimitCheck s ip c).1
  | .blockIp ip seconds now => arwsRatelimitBlockIp s ip seconds now
  | .isBlocked ip asked => (arwsRatelimitIsBlocked s ip asked).1
  | .setRule host pathPattern maxReq windowSec =>
    arwsRatelimitSetRule s host pathPattern maxReq windowSec

/-- The last reading of the clock. -/
def LimiterCall.clock (clock : Nat) : LimiterCall → Nat
  | .check _ c => c.now
  | .blockIp _ _ now => now
  | .isBlocked _ asked => asked
  | .setRule .. => clock

/-- The end of the block of an address: its last block for a time counts. -/
def LimiterCall.ends (ip : Bytes) (ends : Option Nat) : LimiterCall → Option Nat
  | .blockIp ip' seconds now =>
    if ip' = ip then if 0 < seconds then some (now + seconds.toNat) else none else ends
  | _ => ends

/-- The limiter with the last reading of the clock and, beside it, when the block of the address that
is watched ends. -/
structure BlockState where
  limiter : Limiter
  clock : Nat
  ends : Option Nat

/-- Any calls one behind the other, while the clock does not go back. -/
def blockMachine (ip : Bytes) : Machine BlockState LimiterCall where
  init s := s = ⟨arwsRatelimitInit, 0, none⟩
  step s a :=
    if a.Possible s.clock then some ⟨a.perform s.limiter, a.clock s.clock, a.ends ip s.ends⟩ else none

theorem blockMachine_step {ip : Bytes} {s t : BlockState} {a : LimiterCall} :
    (blockMachine ip).step s a = some t ↔
      a.Possible s.clock ∧ ⟨a.perform s.limiter, a.clock s.clock, a.ends ip s.ends⟩ = t := by
  simp only [blockMachine, Option.ite_none_right_eq_some, Option.some.injEq]

/-- **What a block is for**: until it ends, every check of the address is refused. -/
def StaysBlocked (ip : Bytes) (s : BlockState) : Prop :=
  ∀ u ∈ s.ends, ∀ c : Check, s.clock ≤ c.asked → c.asked < u →
    (arwsRatelimitCheck s.limiter ip c).2 = false

/-- A block of the address finds a place in the table, and until it ends no check takes it. -/
def KeepsBlock (ip : Bytes) (s : BlockState) : LimiterCall → Prop
  | .check ip' c => ip' ≠ ip → (∃ u ∈ s.ends, c.now < u) → Spares s.limiter ip ip' c.now
  | .blockIp ip' seconds _ => ip' = ip → 0 < seconds → s.limiter.HasRoom ip
  | _ => True

/-- The block is noted in the entry of the address. -/
def Noted (ip : Bytes) (s : BlockState) : Prop :=
  ∀ u ∈ s.ends, s.clock < u →
    ∃ e, s.limiter.entryOf ip = some e ∧ e.blocked = true ∧ e.blockedUntil = u

section

variable {ip : Bytes} {s t : BlockState}

theorem Noted.staysBlocked (hip : IsIp ip) (h : Noted ip s) : StaysBlocked ip s := by
  intro u hu c hclock hc
  obtain ⟨e, he, hblocked, huntil⟩ := h u hu (hclock.trans_lt hc)
  have hheld : held (s.limiter.entryOf ip) c = true := by
    rw [he, held, Option.any_some, hblocked, huntil, decide_eq_true hc]
    rfl
  exact (check_held hip (Or.inl (by rw [he]; rfl)) hheld).1

/-- A block that lasts is not noted otherwise when the entry stays as it is. -/
theorem Noted.of_entryOf_eq {l : Limiter} {clock : Nat} (h : Noted ip s) (hclock : s.clock ≤ clock)
    (hentry : (∃ u ∈ s.ends, clock < u) → l.entryOf ip = s.limiter.entryOf ip) :
    Noted ip ⟨l, clock, s.ends⟩ := by
  intro u hu hlt
  obtain ⟨e, he, hnoted⟩ := h u hu (Nat.lt_of_le_of_lt hclock hlt)
  exact ⟨e, (hentry ⟨u, hu, hlt⟩).trans he, hnoted⟩

/-- A check of the address, or the question whether it is blocked, leaves the block noted. -/
theorem Noted.held {asked : Nat} (h : Noted ip s) (hclock : s.clock ≤ asked)
    (hlt : ∃ u ∈ s.ends, asked < u) :
    ∃ e, s.limiter.entryOf ip = some e ∧ e.blocked = true ∧ asked < e.blockedUntil := by
  obtain ⟨u, hu, hlt⟩ := hlt
  obtain ⟨e, he, hblocked, rfl⟩ := h u hu (Nat.lt_of_le_of_lt hclock hlt)
  exact ⟨e, he, hblocked, hlt⟩

theorem noted_check {ip' : Bytes} {c : Check} (hip : IsIp ip) (h : Noted ip s)
    (ha : (LimiterCall.check ip' c).Possible s.clock) (hc : KeepsBlock ip s (.check ip' c)) :
    Noted ip ⟨(arwsRatelimitCheck s.limiter ip' c).1, c.now, s.ends⟩ := by
  obtain ⟨hlen, hclock, hnow, -⟩ := ha
  refine h.of_entryOf_eq (hclock.trans hnow) fun hlasts => ?_
  by_cases hself : ip' = ip
  · subst hself
    obtain ⟨u, hu, hlt⟩ := hlasts
    obtain ⟨e, he, hblocked, huntil⟩ := h.held hclock ⟨u, hu, hnow.trans_lt hlt⟩
    refine (check_held hip (Or.inl (by rw [he]; rfl)) ?_).2
    rw [he, Ratelimit.held, Option.any_some, hblocked, decide_eq_true huntil]
    rfl
  · exact entryOf_check_other hself hlen (hc hself hlasts)

theorem noted_isBlocked {ip' : Bytes} {asked : Nat} (hip : IsIp ip) (h : Noted ip s)
    (ha : (LimiterCall.isBlocked ip' asked).Possible s.clock) :
    Noted ip ⟨(arwsRatelimitIsBlocked s.limiter ip' asked).1, asked, s.ends⟩ := by
  obtain ⟨-, hclock, -⟩ := ha
  refine h.of_entryOf_eq hclock fun hlasts => ?_
  by_cases hself : ip' = ip
  · subst hself
    obtain ⟨e, he, -, huntil⟩ := h.held hclock hlasts
    have hun : e.unblock asked = e := by
      rw [RlEntry.unblock, if_neg]
      simp only [Bool.and_eq_true, decide_eq_true_eq, not_and]
      omega
    rw [entryOf_isBlocked_self hip, he, Option.map_some, hun]
  · exact entryOf_isBlocked_other hself asked

theorem noted_blockIp {ip' : Bytes} {seconds : Int} {now : Nat} (hip : IsIp ip) (h : Noted ip s)
    (ha : (LimiterCall.blockIp ip' seconds now).Possible s.clock)
    (hc : KeepsBlock ip s (.blockIp ip' seconds now)) :
    Noted ip ⟨arwsRatelimitBlockIp s.limiter ip' seconds now, now,
      (LimiterCall.blockIp ip' seconds now).ends ip s.ends⟩ := by
  obtain ⟨hlen, -, hseconds, hclock, hnow⟩ := ha
  rw [LimiterCall.ends]
  by_cases hself : ip' = ip
  · subst hself
    rw [if_pos rfl]
    split
    · rename_i hpos
      intro u hu _
      cases hu
      obtain ⟨e, he, hblocked, huntil⟩ := entryOf_blockIp_self hip (hc rfl hpos) seconds now
      refine ⟨e, he, hblocked, huntil.trans ?_⟩
      rw [lastSecond] at hnow
      omega
    · intro u hu
      cases hu
  · rw [if_neg hself]
    exact h.of_entryOf_eq hclock fun _ => entryOf_blockIp_other hself hlen seconds now

theorem noted_step {a : LimiterCall} (hip : IsIp ip) (h : Noted ip s) (hc : KeepsBlock ip s a)
    (hs : (blockMachine ip).step s a = some t) : Noted ip t := by
  obtain ⟨ha, rfl⟩ := blockMachine_step.1 hs
  cases a with
  | check ip' c => exact noted_check hip h ha hc
  | blockIp ip' seconds now => exact noted_blockIp hip h ha hc
  | isBlocked ip' asked => exact noted_isBlocked hip h ha
  | setRule host pathPattern maxReq windowSec =>
    refine h.of_entryOf_eq le_rfl fun _ => ?_
    show (arwsRatelimitSetRule s.limiter host pathPattern maxReq windowSec).entryOf ip = _
    simp only [arwsRatelimitSetRule]
    split
    · rfl
    · split <;> rfl

end

/-- **A blocked address stays blocked** in every run in which its block finds a place in the table and
no check takes it away before the block ends. -/
theorem staysBlocked_of_reach {ip : Bytes} (hip : IsIp ip) {s : BlockState}
    (h : (blockMachine ip).ReachUnder (KeepsBlock ip) s) : StaysBlocked ip s := by
  have hnoted : Noted ip s := by
    refine h.invariant (I := Noted ip) (fun s hs => ?_) fun s a t hI hc hs => noted_step hip hI hc hs
    subst hs
    intro u hu
    cases hu
  exact hnoted.staysBlocked hip

/-! ## A full table -/

private def digit (n : Nat) : UInt8 := .ofNat (48 + n % 10)

private theorem digit_inj {m n : Nat} (h : digit m = digit n) : m % 10 = n % 10 := by
  have := congrArg UInt8.toNat h
  simp only [digit, UInt8.toNat_ofNat'] at this
  omega

/-- The address `10.a.b.1cd` with the digits of a number. -/
private def otherIp (n : Nat) : Bytes :=
  [49, 48, 46, digit (n / 1000), 46, digit (n / 100), 46, 49, digit (n / 10), digit n]

private theorem otherIp_inj {m n : Nat} (hm : m < arwsRlMaxIps) (hn : n < arwsRlMaxIps)
    (h : otherIp m = otherIp n) : m = n := by
  simp only [otherIp, List.cons.injEq, true_and, and_true] at h
  obtain ⟨h₁, h₂, h₃, h₄⟩ := h
  have h₁ := digit_inj h₁
  have h₂ := digit_inj h₂
  have h₃ := digit_inj h₃
  have h₄ := digit_inj h₄
  rw [arwsRlMaxIps] at hm hn
  omega

/-- The table after a check of each of the first addresses. -/
private def filled (n : Nat) : List RlEntry :=
  (List.range n).map (fun k => ⟨otherIp k, 1, 0, false, 0⟩) ++
    List.replicate (arwsRlMaxIps - n) ⟨[], 0, 0, false, 0⟩

private def blockedIp : Bytes := ascii "192.0.2.1"

private theorem isIp_blockedIp : IsIp blockedIp := ⟨by decide, by decide⟩

private def rootCheck : Check := ⟨none, ascii "/", 0, 0⟩

private theorem findIdx?_filled {n : Nat} {ip : Bytes} (h : ∀ k < n, otherIp k ≠ ip) :
    (filled n).findIdx? (·.holds ip) = none := by
  rw [List.findIdx?_eq_none_iff]
  intro e he
  rcases List.mem_append.1 he with he | he
  · obtain ⟨k, hk, rfl⟩ := List.mem_map.1 he
    exact holds_other (h k (List.mem_range.1 hk)) rfl
  · exact holds_free (by rw [List.eq_of_mem_replicate he])

private theorem findIdx?_taken (n : Nat) :
    ((List.range n).map fun k => (⟨otherIp k, 1, 0, false, 0⟩ : RlEntry)).findIdx?
      (fun e => e.ip == []) = none := by
  rw [List.findIdx?_eq_none_iff]
  intro e he
  obtain ⟨k, -, rfl⟩ := List.mem_map.1 he
  rfl

private theorem filled_split {n : Nat} (hn : n < arwsRlMaxIps) :
    filled n = (List.range n).map (fun k => ⟨otherIp k, 1, 0, false, 0⟩) ++
      ⟨[], 0, 0, false, 0⟩ :: List.replicate (arwsRlMaxIps - (n + 1)) ⟨[], 0, 0, false, 0⟩ := by
  rw [filled, show arwsRlMaxIps - n = arwsRlMaxIps - (n + 1) + 1 by omega, List.replicate_succ]

private theorem findIdx?_free_filled {n : Nat} (hn : n < arwsRlMaxIps) :
    (filled n).findIdx? (fun e => e.ip == []) = some n := by
  rw [filled_split hn, List.findIdx?_append, findIdx?_taken, Option.none_or, List.findIdx?_cons]
  simp

private theorem set_filled {n : Nat} (hn : n < arwsRlMaxIps) :
    (filled n).set n ⟨otherIp n, 1, 0, false, 0⟩ = filled (n + 1) := by
  have hlength : ((List.range n).map fun k => (⟨otherIp k, 1, 0, false, 0⟩ : RlEntry)).length = n := by
    rw [List.length_map, List.length_range]
  rw [filled_split hn, List.set_append_right _ _ hlength.le, hlength, Nat.sub_self,
    List.set_cons_zero, filled, List.range_succ, List.map_append, List.append_assoc]
  rfl

private theorem length_filled {n : Nat} (hn : n ≤ arwsRlMaxIps) : (filled n).length = arwsRlMaxIps := by
  rw [filled, List.length_append, List.length_map, List.length_range, List.length_replicate]
  omega

/-- A first check is counted and passed. -/
private theorem counted_fresh (ip : Bytes) :
    (freshEntry ip 0).counted 0 (limitFor [] none (ascii "/")) =
      (⟨ip.take 63, 1, 0, false, 0⟩, true) := by
  have hlimit : limitFor [] none (ascii "/") = ⟨5000, 60⟩ := rfl
  simp [RlEntry.counted, freshEntry, hlimit]

private theorem check_filled {n : Nat} (hn : n < arwsRlMaxIps) :
    (arwsRatelimitCheck ⟨filled n, []⟩ (otherIp n) rootCheck).1 = ⟨filled (n + 1), []⟩ := by
  have hnone : (filled n).findIdx? (·.holds (otherIp n)) = none :=
    findIdx?_filled fun k hk h => hk.ne (otherIp_inj (hk.trans hn) hn h)
  have hlt : n < (filled n).length := by rwa [length_filled hn.le]
  rw [arwsRatelimitCheck, arwsRatelimitIsBlocked, hnone]
  simp only [entryIdx, hnone, findIdx?_free_filled hn, Option.getD_some, Bool.false_eq_true, if_false,
    List.getElem?_set_self hlt, List.set_set]
  rw [← set_filled hn, rootCheck, counted_fresh]
  rfl

/-- One check of each of the first addresses. -/
private theorem reach_filled {n : Nat} (hn : n ≤ arwsRlMaxIps) :
    (blockMachine blockedIp).Reach ⟨⟨filled n, []⟩, 0, none⟩ := by
  induction n with
  | zero => exact .start rfl
  | succ n ih =>
    refine .next (ih (by omega)) trivial (a := .check (otherIp n) rootCheck) ?_
    have hpossible : (LimiterCall.check (otherIp n) rootCheck).Possible 0 :=
      ⟨by simp [otherIp], le_rfl, le_rfl, Nat.zero_le _⟩
    refine blockMachine_step.2 ⟨hpossible, ?_⟩
    simp only [LimiterCall.perform, check_filled hn]
    rfl

/-- With every entry as old as the clock the first is written over. -/
private theorem oldestIdx_zero (entries : List RlEntry) : oldestIdx entries 0 = 0 := by
  have hfold : ∀ l : List (RlEntry × Nat), l.foldl (fun (oldest : Nat × Nat) e =>
      if e.1.ip != [] && decide (e.1.windowStart < oldest.2) then (e.2, e.1.windowStart)
      else oldest) (0, 0) = (0, 0) := by
    intro l
    induction l with
    | nil => rfl
    | cons e l ih => rw [List.foldl_cons, decide_eq_false (Nat.not_lt_zero _), Bool.and_false]; exact ih
  rw [oldestIdx, hfold]

private theorem findIdx?_full (ip : Bytes) (h : ∀ k, otherIp k ≠ ip) :
    (filled arwsRlMaxIps).findIdx? (·.holds ip) = none ∧
      (filled arwsRlMaxIps).findIdx? (fun e => e.ip == []) = none := by
  refine ⟨findIdx?_filled fun k _ => h k, ?_⟩
  rw [filled, Nat.sub_self, List.replicate_zero, List.append_nil, findIdx?_taken]

private theorem otherIp_ne (k : Nat) : otherIp k ≠ blockedIp := by
  intro h
  have := congrArg List.length h
  simp [otherIp, blockedIp, ascii] at this

/-- With a full table the block is noted nowhere, -/
private theorem blockIp_full :
    arwsRatelimitBlockIp ⟨filled arwsRlMaxIps, []⟩ blockedIp 60 0 = ⟨filled arwsRlMaxIps, []⟩ := by
  obtain ⟨hnone, hfree⟩ := findIdx?_full blockedIp otherIp_ne
  simp only [arwsRatelimitBlockIp, hnone, hfree]

/-- and the next check is a first one. -/
private theorem check_evicting {entries : List RlEntry} {ip : Bytes} (hne : entries ≠ [])
    (hnone : entries.findIdx? (·.holds ip) = none)
    (hfree : entries.findIdx? (fun e => e.ip == []) = none) :
    (arwsRatelimitCheck ⟨entries, []⟩ ip rootCheck).2 = true := by
  rw [arwsRatelimitCheck, arwsRatelimitIsBlocked, hnone]
  simp only [hnone, entryIdx, hfree, Option.getD_none, rootCheck, oldestIdx_zero, Bool.false_eq_true,
    if_false, List.getElem?_set_self (List.length_pos_iff.2 hne), counted_fresh]

/-- **A block may be lost as it is made**: with 2000 other addresses in the table it is noted nowhere,
and the next check of the address is passed. -/
theorem not_staysBlocked :
    ¬ ∀ ip, IsIp ip → ∀ s, (blockMachine ip).Reach s → StaysBlocked ip s := by
  intro h
  have hblock : (blockMachine blockedIp).Reach ⟨⟨filled arwsRlMaxIps, []⟩, 0, some 60⟩ := by
    refine .next (reach_filled le_rfl) trivial (a := .blockIp blockedIp 60 0)
      (blockMachine_step.2 ⟨by decide, ?_⟩)
    simp only [LimiterCall.perform, blockIp_full]
    rfl
  have hlength : 0 < (filled arwsRlMaxIps).length := by rw [length_filled le_rfl]; decide
  have hrefused := h blockedIp isIp_blockedIp _ hblock 60 rfl rootCheck le_rfl (by decide)
  obtain ⟨hnone, hfree⟩ := findIdx?_full blockedIp otherIp_ne
  rw [check_evicting (List.ne_nil_of_length_pos hlength) hnone hfree] at hrefused
  cases hrefused

/-- The address is blocked for a minute at second 5, and asked for at second 6. -/
theorem staysBlocked_when_asked :
    StaysBlocked blockedIp
      ⟨(arwsRatelimitIsBlocked (arwsRatelimitBlockIp arwsRatelimitInit blockedIp 60 5)
        blockedIp 6).1, 6, some 65⟩ := by
  have hblock : (blockMachine blockedIp).ReachUnder (KeepsBlock blockedIp)
      ⟨arwsRatelimitBlockIp arwsRatelimitInit blockedIp 60 5, 5, some 65⟩ :=
    .next (.start rfl) (a := .blockIp blockedIp 60 5) (fun _ _ => Or.inr (free_of_init rfl))
      (blockMachine_step.2 ⟨by decide, rfl⟩)
  refine staysBlocked_of_reach isIp_blockedIp (.next hblock (a := .isBlocked blockedIp 6) trivial
    (blockMachine_step.2 ⟨by decide, ?_⟩))
  simp only [LimiterCall.perform, LimiterCall.clock, LimiterCall.ends]

end Ratelimit
end Arws
