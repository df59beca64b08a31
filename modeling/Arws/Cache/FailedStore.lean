import Arws.Cache.Soundness

/-!
# Stores that fail

When its allocation fails, `arws_cache_set` has already freed the old block of its slot, or evicted an
entry, and returns −1 without putting anything back.

The machine keeps, next to the cache, the table before and behind every `set` that returned −1.

* `FailedSet.Unseen` — every `get` answers behind the call as it did before it, and no entry in use is
  without its data.
* `unseen_iff` — the runs in which every failed `set` is unseen are those in which each of them is refused
  at once, ends its search at a free slot, or evicts an entry nobody could read any more
  (`NothingBehind`).
* `not_unseen` — a `set` of a key in use takes the data of its entry away.
-/

set_option autoImplicit false

namespace Arws
namespace Cache

open Probing

/-! ## What a failed `set` leaves -/

/-- The table before and behind a `set` that returned −1. -/
structure FailedSet where
  before : Table
  after : Table
  now : Nat

/-- An entry in use points to as many bytes as its length says. -/
def NoNullData (c : Table) : Prop :=
  ∀ slot, ¬ ((c.cache slot).inUse = true ∧ (c.cache slot).data = none ∧ 0 < (c.cache slot).len)

/-- **Nothing is seen of the call**, now or later. -/
def FailedSet.Unseen (f : FailedSet) : Prop :=
  (∀ key time alloc, f.now ≤ time → time < 2 ^ 64 →
    (arwsCacheGet f.after key time alloc).2 = (arwsCacheGet f.before key time alloc).2) ∧
  NoNullData f.after

/-- What becomes of a call, if it is a `set` that returns −1. -/
def failedSet (c : Table) (now : Nat) : CacheOp → Option FailedSet
  | .set key data alloc =>
    if (arwsCacheSet c key data now alloc).2 = -1 then
      some ⟨c, (arwsCacheSet c key data now alloc).1, now⟩
    else none
  | _ => none

structure StoreState where
  cache : Table
  clock : Nat
  failures : List FailedSet

/-- The cache under any history of calls, with the failed ones kept. -/
def storeMachine : Machine StoreState CacheCall where
  init s := s = ⟨CacheState.start.cache, CacheState.start.clock, []⟩
  step s call :=
    if s.clock ≤ call.now ∧ call.now < 2 ^ 64 then
      some ⟨applyOp s.cache call.now call.op, call.now,
        s.failures ++ (failedSet s.cache call.now call.op).toList⟩
    else none

/-- Every entry whose search gets as far as the slot has expired. -/
def NothingBehind (c : Table) (now : Nat) (v : Slot) : Prop :=
  ∀ slot, findSlot c (c.cache slot).key = some slot →
    dist (homeSlot (c.cache slot).key) v ≤ dist (homeSlot (c.cache slot).key) slot →
      (c.cache slot).expired now = true

/-- The `set` is refused before it looks for a slot, or finds a free one, or has to evict an entry and
nothing that could be read lies at its slot or behind it. -/
def Harmless (c : Table) (now : Nat) (key data : Bytes) : Prop :=
  data.length = 0 ∨ c.cacheTtl ≤ 0 ∨
    (∃ slot, findSlot c key = some slot ∧ (c.cache slot).inUse = false) ∨
    findSlot c key = none ∧ ∃ v, IsVictim c now v ∧ NothingBehind c now v

/-- The call is no `set` whose allocation fails, or a harmless one. -/
def FailsHarmless (s : StoreState) (call : CacheCall) : Prop :=
  match call.op with
  | .set key data false => Harmless s.cache call.now key data
  | _ => True

/-! ## What a `get` answers -/

/-- What `arws_cache_get` does with the entry its search ends at. -/
def answer (e : CacheEntry) (now : Nat) (alloc : Bool) : GetResult :=
  if !e.inUse then .miss
  else if e.expired now then .miss
  else if !alloc then .miss
  else match e.data with
    | none => .fault
    | some data => .hit (data.take e.len)

theorem arwsCacheGet_of_none {c : Table} {key : Bytes} {now : Nat} {alloc : Bool}
    (h : findSlot c key = none) : (arwsCacheGet c key now alloc).2 = .miss := by
  rw [arwsCacheGet, h]

theorem arwsCacheGet_of_some {c : Table} {key : Bytes} {now : Nat} {alloc : Bool} {slot : Slot}
    (h : findSlot c key = some slot) :
    (arwsCacheGet c key now alloc).2 = answer (c.cache slot) now alloc := by
  simp only [arwsCacheGet, h, answer]
  split_ifs <;> try rfl
  cases (c.cache slot).data <;> rfl

theorem answer_free {e : CacheEntry} (h : e.inUse = false) (now : Nat) (alloc : Bool) :
    answer e now alloc = .miss := by
  rw [answer, h]
  rfl

theorem answer_expired {e : CacheEntry} {now : Nat} (h : e.expired now = true) (alloc : Bool) :
    answer e now alloc = .miss := by
  rw [answer, h, if_pos rfl, ite_self]

/-- An entry in use that has not expired is returned. -/
theorem answer_ne_miss {e : CacheEntry} {now : Nat} (huse : e.inUse = true)
    (hlive : e.expired now = false) : answer e now true ≠ .miss := by
  rw [answer, huse, hlive]
  cases e.data <;> simp

/-! ## One failed `set` -/

/-- What the tables of all runs have. -/
structure Sound (c : Table) (clock : Nat) : Prop where
  len : ∀ slot, (c.cache slot).inUse = true → 0 < (c.cache slot).len
  past : ∀ slot, (c.cache slot).inUse = true → (c.cache slot).storedAt ≤ clock

variable {c : Table} {key data : Bytes} {now : Nat} {slot v : Slot}

theorem Sound.applyOp {clock : Nat} (h : Sound c clock) (hle : clock ≤ now) (op : CacheOp) :
    Sound (applyOp c now op) now := by
  constructor <;> intro slot huse <;>
    obtain ⟨-, hsame⟩ | ⟨key, data, rfl, hok, hnew⟩ | ⟨key, data, rfl, hold, htaken⟩ :=
      entry_applyOp huse
  · rw [hsame] at huse ⊢
    exact h.len slot huse
  · rw [hnew]
    exact Nat.pos_of_ne_zero (accepted_of_set hok).1
  · rw [htaken]
    exact h.len slot hold
  · rw [hsame] at huse ⊢
    exact (h.past slot huse).trans hle
  · rw [hnew]
    exact le_rfl
  · rw [htaken]
    exact (h.past slot hold).trans hle

/-- Other calls take no data away. -/
theorem NoNullData.applyOp {op : CacheOp} (h : NoNullData c)
    (hop : ∀ key data, op ≠ .set key data false) : NoNullData (applyOp c now op) := by
  rintro slot ⟨huse, hnull, hlen⟩
  obtain ⟨-, hsame⟩ | ⟨key, data, rfl, -, hnew⟩ | ⟨key, data, rfl, -⟩ := entry_applyOp huse
  · rw [hsame] at huse hnull hlen
    exact h slot ⟨huse, hnull, hlen⟩
  · rw [hnew] at hnull
    cases hnull
  · exact hop key data rfl

theorem setEntry_setEntry (c : Table) (slot : Slot) (e f : CacheEntry) :
    (c.setEntry slot e).setEntry slot f = c.setEntry slot f := by
  rw [Table.setEntry, Table.setEntry, Table.setEntry, Function.update_idem]

theorem findSlot_takeData : findSlot (c.setEntry slot { c.cache slot with data := none }) key =
    findSlot c key := by
  have hkey : keyAt (c.setEntry slot { c.cache slot with data := none }) = keyAt c := by
    rw [keyAt_setEntry]
    exact Function.update_eq_self_iff.2 rfl
  rw [findSlot_eq_search, hkey, ← findSlot_eq_search]

/-- The free slot whose pointer is overwritten stays free. -/
theorem unseen_of_free (hnull : NoNullData c) (hfree : (c.cache slot).inUse = false) :
    (⟨c, c.setEntry slot { c.cache slot with data := none }, now⟩ : FailedSet).Unseen := by
  refine ⟨fun key time alloc _ _ => ?_, ?_⟩
  · change (arwsCacheGet (c.setEntry slot { c.cache slot with data := none }) key time alloc).2 =
      (arwsCacheGet c key time alloc).2
    cases hf : findSlot c key with
    | none => rw [arwsCacheGet_of_none hf, arwsCacheGet_of_none (findSlot_takeData.trans hf)]
    | some t =>
      rw [arwsCacheGet_of_some hf, arwsCacheGet_of_some (findSlot_takeData.trans hf)]
      by_cases ht : t = slot
      · subst ht
        rw [setEntry_self]
        exact (@answer_free { c.cache t with data := none } hfree ..).trans (answer_free hfree ..).symm
      · rw [setEntry_of_ne _ _ ht]
  · rintro t ⟨huse, hdata, hlen⟩
    by_cases ht : t = slot
    · subst ht
      rw [setEntry_self] at huse
      exact Bool.false_ne_true (hfree.symm.trans huse)
    · rw [setEntry_of_ne _ _ ht] at huse hdata hlen
      exact hnull t ⟨huse, hdata, hlen⟩

theorem findSlot_evict_of_lt {t : Slot} (hf : findSlot c key = some t)
    (hlt : dist (homeSlot key) t < dist (homeSlot key) v) :
    findSlot (c.setEntry v .zero) key = some t := by
  rw [findSlot_eq_search] at hf
  rw [findSlot_eq_search, keyAt_setEntry]
  exact search_free_of_lt hf hlt

theorem findSlot_evict_of_le {t : Slot} (hf : findSlot c key = some t)
    (hle : dist (homeSlot key) v ≤ dist (homeSlot key) t) :
    findSlot (c.setEntry v .zero) key = some v := by
  rw [findSlot_eq_search] at hf
  rw [findSlot_eq_search, keyAt_setEntry]
  exact search_free_of_le hf hle

theorem findSlot_evict_of_none (hf : findSlot c key = none) :
    findSlot (c.setEntry v .zero) key = some v := by
  rw [findSlot_eq_search] at hf
  rw [findSlot_eq_search, keyAt_setEntry]
  exact search_free_of_none hf

/-- A slot that is emptied answers nothing. -/
theorem arwsCacheGet_evicted {time : Nat} {alloc : Bool}
    (h : findSlot (c.setEntry v .zero) key = some v) :
    (arwsCacheGet (c.setEntry v .zero) key time alloc).2 = .miss := by
  rw [arwsCacheGet_of_some h, setEntry_self]
  exact answer_free rfl ..

/-- **An eviction is unseen** exactly if nothing that could be read lies at the slot or behind it. -/
theorem unseen_evict_iff (hsound : Sound c now) (hnull : NoNullData c) (hclock : now < 2 ^ 64)
    (hfull : Full c) :
    (⟨c, c.setEntry v .zero, now⟩ : FailedSet).Unseen ↔ NothingBehind c now v := by
  constructor
  · rintro ⟨hsame, -⟩ slot hf hle
    by_contra hlive
    rw [Bool.not_eq_true] at hlive
    have hget := hsame (c.cache slot).key now true le_rfl hclock
    simp only at hget
    rw [arwsCacheGet_evicted (findSlot_evict_of_le hf hle), arwsCacheGet_of_some hf] at hget
    exact answer_ne_miss (hfull slot) hlive hget.symm
  · intro hbehind
    refine ⟨fun key time alloc hle hlt => ?_, ?_⟩
    · change (arwsCacheGet (c.setEntry v .zero) key time alloc).2 = (arwsCacheGet c key time alloc).2
      cases hf : findSlot c key with
      | none => rw [arwsCacheGet_of_none hf, arwsCacheGet_evicted (findSlot_evict_of_none hf)]
      | some t =>
        rcases lt_or_ge (dist (homeSlot key) t) (dist (homeSlot key) v) with hbefore | hreach
        · have htv : t ≠ v := by
            rintro rfl
            exact lt_irrefl _ hbefore
          rw [arwsCacheGet_of_some hf, arwsCacheGet_of_some (findSlot_evict_of_lt hf hbefore),
            setEntry_of_ne _ _ htv]
        · have hkey : (c.cache t).key = key := by
            obtain ⟨hfree | hkey, -⟩ := findSlot_eq_some_iff.1 hf
            · rw [hfull t] at hfree
              cases hfree
            · exact hkey
          subst hkey
          have hexpired := expired_mono (hsound.past t (hfull t)) hle hlt (hbehind t hf hreach)
          rw [arwsCacheGet_evicted (findSlot_evict_of_le hf hreach), arwsCacheGet_of_some hf,
            answer_expired hexpired]
    · rintro slot ⟨huse, hdata, hlen⟩
      by_cases hslot : slot = v
      · rw [hslot, setEntry_self] at huse
        cases huse
      · simp only at huse hdata hlen
        rw [setEntry_of_ne _ _ hslot] at huse hdata hlen
        exact hnull slot ⟨huse, hdata, hlen⟩

/-- **When a failed allocation is unseen.** -/
theorem unseen_iff_harmless (hsound : Sound c now) (hnull : NoNullData c) (hclock : now < 2 ^ 64) :
    (⟨c, (arwsCacheSet c key data now false).1, now⟩ : FailedSet).Unseen ↔
      Harmless c now key data := by
  have hrefused : (⟨c, c, now⟩ : FailedSet).Unseen := ⟨fun _ _ _ _ _ => rfl, hnull⟩
  rw [arwsCacheSet, Harmless]
  by_cases hdata : data.length = 0
  · rw [if_pos hdata]
    exact iff_of_true hrefused (.inl hdata)
  by_cases httl : c.cacheTtl ≤ 0
  · rw [if_neg hdata, if_pos httl]
    exact iff_of_true hrefused (.inr (.inl httl))
  rw [if_neg hdata, if_neg httl, or_iff_right hdata, or_iff_right httl]
  obtain ⟨slot, hf, hs⟩ | ⟨slot, hf, hv, hs⟩ | hs := slotForSet_cases c key now
  · simp only [hs, Bool.not_false, if_true, hf, Option.some.injEq, exists_eq_left', reduceCtorEq,
      false_and, or_false]
    constructor
    · rintro ⟨-, hkept⟩
      by_contra huse
      rw [Bool.not_eq_false] at huse
      refine hkept slot ?_
      rw [setEntry_self]
      exact ⟨huse, rfl, hsound.len slot huse⟩
    · exact unseen_of_free hnull
  · obtain ⟨hfull, -⟩ := findSlot_eq_none_iff.1 hf
    have hvictim := (evictVictim_eq_some_iff hfull).1 hv
    have hempty : (c.setEntry slot .zero).setEntry slot
        { (c.setEntry slot .zero).cache slot with data := none } = c.setEntry slot .zero := by
      rw [setEntry_self]
      exact setEntry_setEntry ..
    simp only [hs, Bool.not_false, if_true, hempty, hf, reduceCtorEq, false_and, exists_false, true_and,
      false_or]
    rw [unseen_evict_iff hsound hnull hclock hfull]
    constructor
    · exact fun hbehind => ⟨slot, hvictim, hbehind⟩
    · rintro ⟨v, hv', hbehind⟩
      rwa [hvictim.eq hv']
  · -- a full table always has a victim
    cases hf : findSlot c key with
    | some slot =>
      have hslot := @slotForSet_of_some c key now slot hf
      rw [hs] at hslot
      cases hslot
    | none =>
      obtain ⟨slot, hslot, -⟩ := evictVictim_isVictim now (findSlot_eq_none_iff.1 hf).1
      rw [← slotForSet_of_none hf, hs] at hslot
      cases hslot

/-! ## Runs -/

/-- The invariant: where every failed `set` was unseen, nothing is without its data. -/
structure StoreInv (s : StoreState) : Prop where
  sound : Sound s.cache s.clock
  noNull : (∀ f ∈ s.failures, f.Unseen) → NoNullData s.cache

theorem arwsCacheSet_failed (c : Table) (key data : Bytes) (now : Nat) :
    (arwsCacheSet c key data now false).2 = -1 := by
  obtain h | ⟨slot, c', -, h⟩ := arwsCacheSet_cases c key data now false <;> rw [h]
  rfl

theorem failedSet_failed : failedSet c now (.set key data false) =
    some ⟨c, (arwsCacheSet c key data now false).1, now⟩ := by
  rw [failedSet, if_pos (arwsCacheSet_failed ..)]

/-- A `set` that has its memory is refused only before it looks for a slot. -/
theorem failedSet_refused {f : FailedSet} (h : failedSet c now (.set key data true) = some f) :
    f = ⟨c, c, now⟩ := by
  rw [failedSet, Option.ite_none_right_eq_some, Option.some.injEq] at h
  obtain ⟨hfailed, rfl⟩ := h
  obtain h | ⟨slot, c', -, h⟩ := arwsCacheSet_cases c key data now true
  · rw [h]
  · rw [h] at hfailed
    cases hfailed

theorem forall_failedSet_iff {s : StoreState} (hsound : Sound s.cache s.clock)
    (hnull : NoNullData s.cache) {call : CacheCall} (hle : s.clock ≤ call.now)
    (hlt : call.now < 2 ^ 64) :
    (∀ f ∈ (failedSet s.cache call.now call.op).toList, f.Unseen) ↔ FailsHarmless s call := by
  have hsound : Sound s.cache call.now := ⟨hsound.len, fun slot h => (hsound.past slot h).trans hle⟩
  simp only [Option.mem_toList, FailsHarmless]
  obtain ⟨now, op⟩ := call
  cases op with
  | set key data alloc =>
    cases alloc with
    | true =>
      refine iff_of_true (fun f hf => ?_) trivial
      rw [failedSet_refused hf]
      exact ⟨fun _ _ _ _ _ => rfl, hnull⟩
    | false =>
      rw [failedSet_failed]
      refine Iff.trans ?_ (unseen_iff_harmless hsound hnull hlt)
      exact ⟨fun h => h _ rfl, fun h f hf => Option.some.inj hf ▸ h⟩
  | get key alloc => exact iff_of_true nofun trivial
  | clear => exact iff_of_true nofun trivial
  | cleanup => exact iff_of_true nofun trivial
  | setTtl seconds => exact iff_of_true nofun trivial

theorem storeInv_step {s t : StoreState} {call : CacheCall} (h : StoreInv s)
    (hst : storeMachine.step s call = some t) : StoreInv t := by
  simp only [storeMachine, Option.ite_none_right_eq_some, Option.some.injEq] at hst
  obtain ⟨⟨hle, hlt⟩, rfl⟩ := hst
  refine ⟨h.sound.applyOp hle call.op, fun hunseen => ?_⟩
  rw [List.forall_mem_append] at hunseen
  obtain ⟨hbefore, hcall⟩ := hunseen
  by_cases hop : ∀ key data, call.op ≠ .set key data false
  · exact (h.noNull hbefore).applyOp hop
  · push Not at hop
    obtain ⟨key, data, hop⟩ := hop
    rw [hop] at hcall ⊢
    exact (hcall _ (Option.mem_toList.2 failedSet_failed)).2

/-- **When failed stores are unseen**: the runs in which every `set` that returned −1 changed nothing
visible are those in which each of them was harmless. -/
theorem unseen_iff {s : StoreState} :
    storeMachine.ReachUnder FailsHarmless s ↔
      storeMachine.Reach s ∧ ∀ f ∈ s.failures, f.Unseen := by
  refine Machine.reachUnder_iff_reach_and (I := StoreInv) (P := fun s => ∀ f ∈ s.failures, f.Unseen)
    ?_ (fun _ _ _ h hst => storeInv_step h hst) ?_
  · rintro s rfl
    exact ⟨⟨⟨nofun, nofun⟩, fun _ => nofun⟩, nofun⟩
  · intro s call t hI hst
    simp only [storeMachine, Option.ite_none_right_eq_some, Option.some.injEq] at hst
    obtain ⟨⟨hle, hlt⟩, rfl⟩ := hst
    simp only [List.forall_mem_append]
    exact and_congr_right fun hbefore => forall_failedSet_iff hI.sound (hI.noNull hbefore) hle hlt

/-- **A failed `set` of a key in use loses the old value**, and leaves its entry without data. -/
theorem not_unseen : ¬ ∀ s, storeMachine.Reach s → ∀ f ∈ s.failures, f.Unseen := by
  intro h
  have hrun : ∃ s, storeMachine.runUnder (fun _ _ => True) ⟨CacheState.start.cache, 0, []⟩
      [⟨1000, .set [97] [120] true⟩, ⟨2000, .set [97] [121] false⟩] = some s ∧
      ∃ f ∈ s.failures, (arwsCacheGet f.before [97] 3000 true).2 = .hit [120] ∧
        (arwsCacheGet f.after [97] 3000 true).2 = .fault ∧ f.now = 2000 :=
    ⟨_, rfl, _, List.mem_singleton_self _, by decide +kernel, by decide +kernel, rfl⟩
  obtain ⟨s, hs, f, hf, hbefore, hafter, hnow⟩ := hrun
  obtain ⟨hsame, -⟩ := h s (Machine.reachUnder_of_runUnder (.start rfl) hs) f hf
  have hget := hsame [97] 3000 true (by rw [hnow]; decide) (by decide)
  rw [hbefore, hafter] at hget
  cases hget

end Cache
end Arws
