import Arws.Cache.Table

/-!
# What the cache finds again

A cache should behave as a map from keys to their last stored value, up to expiry.  `Ideal` is
that map, kept next to the table by `auditMachine` through a history of calls, and `Faithful` says
that the table answers as the map does: a live binding is found, what is found is the last value
stored, and no key sits in two slots.

`find_slot` stops at the first free slot, and an expired entry is freed in place.  So the table is
faithful as long as no entry that is freed lies on the probe path of one that stays
(`KeepsChains`), and `Inv` is the invariant that shows it: the two facts of `Probing`, and the
agreement of every entry with its binding.  Without that condition a live entry is lost as soon as
an expired one is freed on its path (`not_faithful_of_roomAtSet`).
-/

set_option autoImplicit false

namespace Arws
namespace Cache

open CString Probing

/-! ## The map the cache stands for -/

/-- A value with the time it was stored and its time to live in seconds. -/
structure Stored where
  data : Bytes
  storedAt : Nat
  ttl : Int
  deriving DecidableEq

def Stored.expired (m : Stored) (now : Nat) : Bool := Cache.expired m.ttl m.storedAt now

/-- The last value stored under each key. -/
abbrev Ideal := Bytes → Option Stored

/-- A call's effect on the map.  A `set` that gets as far as the table ends the old binding
whether it succeeds or not; reading and sweeping bind nothing. -/
def idealStep (m : Ideal) (c : Table) (now : Nat) : CacheOp → Ideal
  | .set key data alloc =>
    if data.length = 0 ∨ c.cacheTtl ≤ 0 then m
    else if (arwsCacheSet c key data now alloc).2 = 0 then
      Function.update m key (some ⟨data, now, c.cacheTtl⟩)
    else Function.update m key none
  | .clear => fun _ => none
  | _ => m

/-- The cache with the map it should behave as. -/
structure AuditState where
  cache : Table
  clock : Nat
  ideal : Ideal

def AuditState.start : AuditState := ⟨CacheState.start.cache, CacheState.start.clock, fun _ => none⟩

/-- `cacheMachine`, with the map kept alongside. -/
def auditMachine : Machine AuditState CacheCall where
  init s := s = .start
  step s call :=
    if s.clock ≤ call.now ∧ call.now < 2 ^ 64 then
      some ⟨applyOp s.cache call.now call.op, call.now,
        idealStep s.ideal s.cache call.now call.op⟩
    else none

/-- The table answers as the map does, now and at any later time. -/
structure Faithful (s : AuditState) : Prop where
  /-- A binding that has not expired is found. -/
  complete : ∀ key m now, s.ideal key = some m → s.clock ≤ now → now < 2 ^ 64 →
    m.expired now = false → (arwsCacheGet s.cache key now true).2 = .hit m.data
  /-- What is found is the value last stored. -/
  fresh : ∀ key now alloc data, (arwsCacheGet s.cache key now alloc).2 = .hit data →
    ∃ m, s.ideal key = some m ∧ m.data = data
  /-- No two slots in use hold the same key. -/
  once : ∀ a b, (s.cache.cache a).inUse = true → (s.cache.cache b).inUse = true →
    (s.cache.cache a).key = (s.cache.cache b).key → a = b

/-! ## The conditions on a history -/

/-- No `set` of the history meets a full table, so nothing is evicted. -/
def RoomAtSet (s : AuditState) (call : CacheCall) : Prop :=
  match call.op with
  | .set _ _ _ => ∃ slot, (s.cache.cache slot).inUse = false
  | _ => True

/-- The entries a call frees because they have expired. -/
def expiring (c : Table) (now : Nat) : CacheOp → Slot → Bool
  | .get key _ => fun t => swept c now t && (c.cache t).key == key
  | .cleanup => swept c now
  | _ => fun _ => false

/-- The key fits its field, and no entry freed as expired lies on the probe path of an entry that
stays. -/
def KeepsChains (s : AuditState) (call : CacheCall) : Prop :=
  (∀ key data alloc, call.op = .set key data alloc → key.length < 512) ∧
    OffPath homeSlot (keyAt s.cache) (expiring s.cache call.now call.op)

/-- A call after which a faithful cache is still faithful. -/
def Undisturbed (s : AuditState) (call : CacheCall) : Prop := RoomAtSet s call ∧ KeepsChains s call

/-! ## What each operation does to the table -/

theorem keyAt_of_findSlot {c : Table} {key : Bytes} {t : Slot} (h : findSlot c key = some t) :
    keyAt c t = none ∨ keyAt c t = some key := by
  rw [findSlot_eq_search] at h
  exact (search_eq_some_iff.1 h).1

/-- `arws_cache_get` changes the table only where it meets an expired entry. -/
theorem arwsCacheGet_table (c : Table) (key : Bytes) (now : Nat) (alloc : Bool) :
    (∃ t, findSlot c key = some t ∧ swept c now t = true ∧
      (arwsCacheGet c key now alloc).1 = c.setEntry t .zero) ∨
    (∀ t, findSlot c key = some t → swept c now t = false) ∧
      (arwsCacheGet c key now alloc).1 = c := by
  rw [arwsCacheGet]
  cases hf : findSlot c key with
  | none => exact Or.inr ⟨fun t ht => (by cases ht), rfl⟩
  | some t =>
    by_cases hu : (c.cache t).inUse = true
    · by_cases he : (c.cache t).expired now = true
      · refine Or.inl ⟨t, rfl, by simp [swept, hu, he], ?_⟩
        simp [hu, he]
      · refine Or.inr ⟨fun s hs => ?_, ?_⟩
        · cases hs
          simp [swept, he]
        · simp only [hu, Bool.not_true, Bool.false_eq_true, if_false, he]
          cases alloc
          · rfl
          · cases (c.cache t).data <;> rfl
    · refine Or.inr ⟨fun s hs => ?_, ?_⟩
      · cases hs
        simp [swept, hu]
      · simp [hu]

/-- A hit is the data of an entry in use that has not expired and holds the key. -/
theorem arwsCacheGet_eq_hit {c : Table} {key data : Bytes} {now : Nat} {alloc : Bool}
    (h : (arwsCacheGet c key now alloc).2 = .hit data) :
    ∃ t d, findSlot c key = some t ∧ (c.cache t).inUse = true ∧ (c.cache t).key = key ∧
      (c.cache t).data = some d ∧ data = d.take (c.cache t).len := by
  rw [arwsCacheGet] at h
  cases hf : findSlot c key with
  | none => simp [hf] at h
  | some t =>
    simp only [hf] at h
    split_ifs at h with hu he ha
    · cases hd : (c.cache t).data with
      | none => simp [hd] at h
      | some d =>
        simp only [hd, GetResult.hit.injEq] at h
        have hu' : (c.cache t).inUse = true := by simpa using hu
        have hk : (c.cache t).key = key := by
          rcases keyAt_of_findSlot hf with hk | hk
          · rw [keyAt_eq_none_iff, hu'] at hk
            cases hk
          · exact (keyAt_eq_some_iff.1 hk).2
        exact ⟨t, d, rfl, hu', hk, hd, h.symm⟩

/-- With a slot found, `arws_cache_set` writes to that slot and to no other. -/
theorem arwsCacheSet_of_findSlot {c : Table} {key data : Bytes} {now : Nat} {alloc : Bool}
    {t : Slot} (hd : data.length ≠ 0) (ht : 0 < c.cacheTtl) (hf : findSlot c key = some t) :
    arwsCacheSet c key data now alloc =
      if alloc then (c.setEntry t (newEntry key data now c.cacheTtl), 0)
      else (c.setEntry t { c.cache t with data := none }, -1) := by
  rw [arwsCacheSet, if_neg hd, if_neg (by omega), slotForSet, hf]
  cases alloc <;> rfl

/-- A table with a free slot has a slot for every key. -/
theorem findSlot_isSome {c : Table} {slot : Slot} (h : (c.cache slot).inUse = false)
    (key : Bytes) : ∃ t, findSlot c key = some t := by
  cases hf : findSlot c key with
  | some t => exact ⟨t, rfl⟩
  | none =>
    rw [findSlot_eq_search, search_eq_none_iff] at hf
    exact absurd (keyAt_eq_none_iff.2 h) (hf slot).1

/-! ## The invariant -/

/-- What a history that keeps chains maintains. -/
structure Inv (s : AuditState) : Prop where
  chained : Chained homeSlot (keyAt s.cache)
  once : HeldOnce (keyAt s.cache)
  /-- Every entry in use is the binding of its key; one without data has none. -/
  held : ∀ t, (s.cache.cache t).inUse = true →
    s.ideal (s.cache.cache t).key =
      (s.cache.cache t).data.map fun d => ⟨d, (s.cache.cache t).storedAt, (s.cache.cache t).ttl⟩
  /-- The length of an entry is that of its data. -/
  len : ∀ t d, (s.cache.cache t).data = some d → (s.cache.cache t).len = d.length
  /-- A binding that has not expired is in the table. -/
  present : ∀ k m, s.ideal k = some m → m.expired s.clock = false → ∃ t, keyAt s.cache t = some k
  /-- Nothing was stored in the future. -/
  past : ∀ k m, s.ideal k = some m → m.storedAt ≤ s.clock

theorem inv_start : Inv .start where
  chained := fun s k h => by simp [AuditState.start, CacheState.start, arwsCacheInit, keyAt,
    CacheEntry.zero] at h
  once := fun s t k h => by simp [AuditState.start, CacheState.start, arwsCacheInit, keyAt,
    CacheEntry.zero] at h
  held := fun t h => by simp [AuditState.start, CacheState.start, arwsCacheInit,
    CacheEntry.zero] at h
  len := fun t d h => by simp [AuditState.start, CacheState.start, arwsCacheInit,
    CacheEntry.zero] at h
  present := fun k m h => by cases h
  past := fun k m h => by cases h

variable {s : AuditState} {now : Nat}

/-- The entry of a key that is bound is its binding. -/
theorem Inv.eq_of_keyAt (hi : Inv s) {t : Slot} {k : Bytes} {m : Stored}
    (ht : keyAt s.cache t = some k) (hm : s.ideal k = some m) :
    ∃ d, (s.cache.cache t).data = some d ∧
      m = ⟨d, (s.cache.cache t).storedAt, (s.cache.cache t).ttl⟩ := by
  obtain ⟨hu, hk⟩ := keyAt_eq_some_iff.1 ht
  have hheld := hi.held t hu
  rw [hk, hm] at hheld
  obtain ⟨d, hd, heq⟩ := Option.map_eq_some_iff.1 hheld.symm
  exact ⟨d, hd, heq.symm⟩

/-- A binding still alive later is in the table now. -/
theorem Inv.present_later (hi : Inv s) (hle : s.clock ≤ now) (hlt : now < 2 ^ 64) {k : Bytes}
    {m : Stored} (hm : s.ideal k = some m) (he : m.expired now = false) :
    ∃ t, keyAt s.cache t = some k := by
  refine hi.present k m hm ?_
  by_contra hc
  rw [Bool.not_eq_false] at hc
  have := expired_mono (hi.past k m hm) hle hlt hc
  rw [Stored.expired] at he
  rw [this] at he
  cases he

/-- The slot that holds a key is the slot a search for it finds. -/
theorem Inv.findSlot_of_keyAt (hi : Inv s) {k : Bytes} {t : Slot} (h : keyAt s.cache t = some k) :
    findSlot s.cache k = some t := by
  rw [findSlot_eq_search]
  exact search_of_held hi.chained hi.once h

/-- An entry in use that a search does not end at has another key. -/
theorem Inv.key_ne (hi : Inv s) {key : Bytes} {t u : Slot} (hf : findSlot s.cache key = some t)
    (hu : (s.cache.cache u).inUse = true) (hut : u ≠ t) : (s.cache.cache u).key ≠ key := by
  intro hk
  have := hi.findSlot_of_keyAt (keyAt_eq_some_iff.2 ⟨hu, hk⟩)
  rw [hf, Option.some_inj] at this
  exact hut this.symm

/-- **Freeing expired entries off the paths of the others keeps the invariant.** -/
theorem Inv.free (hi : Inv s) (hle : s.clock ≤ now) (hlt : now < 2 ^ 64) (gone : Slot → Bool)
    (hoff : OffPath homeSlot (keyAt s.cache) gone) (hgone : ∀ t, gone t = true → swept s.cache now t)
    {c : Table} (hc : ∀ t, c.cache t = if gone t then .zero else s.cache.cache t) :
    Inv ⟨c, now, s.ideal⟩ := by
  have hkey : keyAt c = Probing.free (keyAt s.cache) gone := by
    funext t
    simp only [keyAt, hc, Probing.free]
    by_cases h : gone t = true
    · simp [h, CacheEntry.zero]
    · simp [h]
  refine ⟨hkey ▸ hi.chained.free hoff, hkey ▸ hi.once.free gone, ?_, ?_, ?_, ?_⟩
  · intro t ht
    simp only [hc] at ht ⊢
    by_cases h : gone t = true
    · simp [h, CacheEntry.zero] at ht
    · simp only [h, Bool.false_eq_true, if_false] at ht ⊢
      exact hi.held t ht
  · intro t d hd
    simp only [hc] at hd ⊢
    by_cases h : gone t = true
    · simp [h, CacheEntry.zero] at hd
    · simp only [h, Bool.false_eq_true, if_false] at hd ⊢
      exact hi.len t d hd
  · intro k m hm he
    obtain ⟨t, ht⟩ := hi.present_later hle hlt hm he
    refine ⟨t, ?_⟩
    rw [hkey, free_eq_some_iff]
    refine ⟨?_, ht⟩
    -- an entry freed has expired, and its binding is the entry
    by_contra hg
    rw [Bool.not_eq_false] at hg
    obtain ⟨hu, -⟩ := keyAt_eq_some_iff.1 ht
    obtain ⟨d, hd, rfl⟩ := hi.eq_of_keyAt ht hm
    have hsw := hgone t hg
    simp only [swept, hu, Bool.true_and, CacheEntry.expired] at hsw
    rw [Stored.expired] at he
    rw [he] at hsw
    cases hsw
  · intro k m hm
    exact (hi.past k m hm).trans hle

/-- The entries a `get` frees are those it finds expired. -/
theorem Inv.get_free (hi : Inv s) (key : Bytes) (alloc : Bool) (t : Slot) :
    (arwsCacheGet s.cache key now alloc).1.cache t =
      if expiring s.cache now (.get key alloc) t then .zero else s.cache.cache t := by
  have hexp : ∀ u, expiring s.cache now (.get key alloc) u = true →
      findSlot s.cache key = some u ∧ swept s.cache now u = true := by
    intro u hu
    simp only [expiring, Bool.and_eq_true, beq_iff_eq] at hu
    have huse : (s.cache.cache u).inUse = true := by
      have := hu.1
      simp only [swept, Bool.and_eq_true] at this
      exact this.1
    exact ⟨hi.findSlot_of_keyAt (keyAt_eq_some_iff.2 ⟨huse, hu.2⟩), hu.1⟩
  rcases arwsCacheGet_table s.cache key now alloc with ⟨u, hf, hsw, hc⟩ | ⟨hno, hc⟩
  · rw [hc]
    by_cases htu : t = u
    · subst htu
      have hk : (s.cache.cache t).key = key := by
        simp only [swept, Bool.and_eq_true] at hsw
        rcases keyAt_of_findSlot hf with hk | hk
        · rw [keyAt_eq_none_iff, hsw.1] at hk
          cases hk
        · exact (keyAt_eq_some_iff.1 hk).2
      rw [setEntry_self, if_pos (by simp [expiring, hsw, hk])]
    · rw [setEntry_of_ne _ _ htu, if_neg]
      intro ht
      have := (hexp t ht).1
      rw [hf, Option.some_inj] at this
      exact htu this.symm
  · rw [hc, if_neg]
    intro ht
    have := hno t (hexp t ht).1
    rw [(hexp t ht).2] at this
    cases this

/-- What a write to the slot of a key has to show: the entry is the binding of the key. -/
theorem Inv.of_setEntry (hi : Inv s) (hle : s.clock ≤ now) {key : Bytes} {t : Slot}
    (hf : findSlot s.cache key = some t) {e : CacheEntry} {b : Option Stored}
    (hchained : Chained homeSlot (keyAt (s.cache.setEntry t e)))
    (honce : HeldOnce (keyAt (s.cache.setEntry t e)))
    (hheld : e.inUse = true → e.key = key ∧ b = e.data.map fun d => ⟨d, e.storedAt, e.ttl⟩)
    (hlen : ∀ d, e.data = some d → e.len = d.length)
    (hpresent : ∀ k m, Function.update s.ideal key b k = some m → m.expired now = false →
      ∃ u, keyAt (s.cache.setEntry t e) u = some k)
    (hpast : ∀ m, b = some m → m.storedAt ≤ now) :
    Inv ⟨s.cache.setEntry t e, now, Function.update s.ideal key b⟩ where
  chained := hchained
  once := honce
  held := by
    intro u hu
    by_cases hut : u = t
    · subst hut
      simp only [setEntry_self] at hu ⊢
      obtain ⟨hk, hb⟩ := hheld hu
      rw [hk, Function.update_self, hb]
    · simp only [setEntry_of_ne _ _ hut] at hu ⊢
      rw [Function.update_of_ne (hi.key_ne hf hu hut)]
      exact hi.held u hu
  len := by
    intro u d hud
    by_cases hut : u = t
    · subst hut
      simp only [setEntry_self] at hud ⊢
      exact hlen d hud
    · simp only [setEntry_of_ne _ _ hut] at hud ⊢
      exact hi.len u d hud
  present := hpresent
  past := by
    intro k m hm
    dsimp only at hm ⊢
    by_cases hk : k = key
    · rw [hk, Function.update_self] at hm
      exact hpast m hm
    · rw [Function.update_of_ne hk] at hm
      exact (hi.past k m hm).trans hle

/-- **A `set` that finds a slot keeps the invariant**, whether its allocation succeeds or not. -/
theorem Inv.set (hi : Inv s) (hle : s.clock ≤ now) (hlt : now < 2 ^ 64) {key data : Bytes}
    (hlen : key.length < 512) (hd : data.length ≠ 0) (httl : 0 < s.cache.cacheTtl) {t : Slot}
    (hf : findSlot s.cache key = some t) (alloc : Bool) :
    Inv ⟨(arwsCacheSet s.cache key data now alloc).1, now,
      idealStep s.ideal s.cache now (.set key data alloc)⟩ := by
  have hkeyt := keyAt_of_findSlot hf
  have hsearch := findSlot_eq_search s.cache key ▸ hf
  have htake : key.take 511 = key := List.take_of_length_le (by omega)
  rw [idealStep, if_neg (by omega), arwsCacheSet_of_findSlot hd httl hf]
  cases alloc with
  | true =>
    rw [if_pos rfl, if_pos rfl]
    have hkey : keyAt (s.cache.setEntry t (newEntry key data now s.cache.cacheTtl)) =
        Function.update (keyAt s.cache) t (some key) := by
      rw [keyAt_setEntry]
      simp [newEntry, htake]
    refine hi.of_setEntry hle hf (hkey ▸ hi.chained.put hsearch)
      (hkey ▸ HeldOnce.put hi.chained hi.once hsearch) (fun _ => ⟨htake, rfl⟩)
      (fun d hd => ?_) (fun k m hm he => ?_) fun m hm => ?_
    · cases hd
      rfl
    · by_cases hk : k = key
      · exact ⟨t, by simp only [hkey, hk, Function.update_self]⟩
      · rw [Function.update_of_ne hk] at hm
        obtain ⟨u, hu⟩ := hi.present_later hle hlt hm he
        refine ⟨u, ?_⟩
        rw [hkey, Function.update_of_ne, hu]
        rintro rfl
        rcases hkeyt with h | h
        · rw [h] at hu
          cases hu
        · rw [h, Option.some_inj] at hu
          exact hk hu.symm
    · cases hm
      exact le_rfl
  | false =>
    simp only [Bool.false_eq_true, if_false, show ¬(-1 : Int) = 0 by decide]
    have hkey : keyAt (s.cache.setEntry t { s.cache.cache t with data := none }) =
        keyAt s.cache := by
      rw [keyAt_setEntry]
      exact Function.update_eq_self_iff.2 rfl
    refine hi.of_setEntry hle hf (hkey ▸ hi.chained) (hkey ▸ hi.once) (fun hu => ⟨?_, rfl⟩)
      (fun d hd => ?_) (fun k m hm he => ?_) fun m hm => ?_
    · rcases hkeyt with h | h
      · rw [keyAt_eq_none_iff] at h
        exact absurd (h.symm.trans hu) Bool.false_ne_true
      · exact (keyAt_eq_some_iff.1 h).2
    · cases hd
    · by_cases hk : k = key
      · rw [hk, Function.update_self] at hm
        cases hm
      · rw [Function.update_of_ne hk] at hm
        rw [hkey]
        exact hi.present_later hle hlt hm he
    · cases hm

/-- Time passing and changes of the default lifetime touch no entry. -/
theorem Inv.of_cache_eq (hi : Inv s) (hle : s.clock ≤ now) (hlt : now < 2 ^ 64) {c : Table}
    (hc : c.cache = s.cache.cache) : Inv ⟨c, now, s.ideal⟩ :=
  hi.free hle hlt (fun _ => false) (fun _ _ _ _ _ _ => rfl) (fun _ h => by cases h)
    (fun t => by simp [hc])

/-- One call keeps the invariant. -/
theorem inv_step {t : AuditState} {call : CacheCall} (hi : Inv s)
    (hc : Undisturbed s call) (hs : auditMachine.step s call = some t) :
    Inv t := by
  obtain ⟨hroom, hfits, hoff⟩ := hc
  obtain ⟨now, op⟩ := call
  simp only [auditMachine, Option.ite_none_right_eq_some, Option.some_inj] at hs
  obtain ⟨⟨hle, hlt⟩, rfl⟩ := hs
  cases op with
  | get key alloc =>
    refine hi.free hle hlt _ hoff (fun u hu => ?_) (hi.get_free key alloc)
    simp only [expiring, Bool.and_eq_true] at hu
    exact hu.1
  | set key data alloc =>
    by_cases hd : data.length = 0
    · simp only [applyOp, arwsCacheSet, idealStep, hd, true_or, if_true]
      exact hi.of_cache_eq hle hlt rfl
    by_cases ht : s.cache.cacheTtl ≤ 0
    · simp only [applyOp, arwsCacheSet, idealStep, hd, ht, or_true, if_true, if_false]
      exact hi.of_cache_eq hle hlt rfl
    obtain ⟨slot, hslot⟩ := hroom
    obtain ⟨u, hf⟩ := findSlot_isSome hslot key
    exact hi.set hle hlt (hfits key data alloc rfl) hd (by omega) hf alloc
  | clear =>
    refine ⟨fun u k hu => ?_, fun u v k hu => ?_, fun u hu => ?_, fun u d hd => ?_,
      fun k m hm => (by cases hm), fun k m hm => (by cases hm)⟩
    · cases hu
    · cases hu
    · cases hu
    · cases hd
  | cleanup => exact hi.free hle hlt _ hoff (fun _ hu => hu) (fun _ => rfl)
  | setTtl seconds => exact hi.of_cache_eq hle hlt rfl

/-- The invariant is what faithfulness asks for. -/
theorem Inv.faithful (hi : Inv s) : Faithful s where
  complete key m now hm hle hlt he := by
    obtain ⟨t, ht⟩ := hi.present_later hle hlt hm he
    have hf := hi.findSlot_of_keyAt ht
    obtain ⟨hu, -⟩ := keyAt_eq_some_iff.1 ht
    obtain ⟨d, hd, rfl⟩ := hi.eq_of_keyAt ht hm
    have he' : (s.cache.cache t).expired now = false := he
    simp [arwsCacheGet, hf, hu, he', hd, hi.len t d hd]
  fresh key now alloc data h := by
    obtain ⟨t, d, hf, hu, hk, hd, hdata⟩ := arwsCacheGet_eq_hit h
    have hheld := hi.held t hu
    rw [hk, hd] at hheld
    refine ⟨_, hheld, ?_⟩
    rw [hdata, hi.len t d hd, List.take_length]
  once a b ha hb hk := hi.once a b _ (keyAt_eq_some_iff.2 ⟨ha, rfl⟩)
    (keyAt_eq_some_iff.2 ⟨hb, hk.symm⟩)

/-- **A cache whose chains are kept behaves as the map**, in every state of every history without
evictions. -/
theorem faithful_of_undisturbed {s : AuditState} (h : auditMachine.ReachUnder Undisturbed s) :
    Faithful s :=
  (h.invariant (I := Inv) (fun s h0 => by rw [show s = .start from h0]; exact inv_start)
    (fun _ _ _ hi hc hs => inv_step hi hc hs)).faithful

/-- **The condition is needed**: an entry freed on the path of a live one loses the live one. -/
theorem not_faithful_of_freed_on_path {s t : AuditState} {call : CacheCall} (hi : Inv s)
    (hs : auditMachine.step s call = some t) (hid : t.ideal = s.ideal) {gone : Slot → Bool}
    (hkey : keyAt t.cache = free (keyAt s.cache) gone) {k : Bytes} {m : Stored}
    (hm : s.ideal k = some m) (he : m.expired call.now = false) {u : Slot}
    (hu : keyAt s.cache u = some k) {i : Nat} (hlt : i < dist (homeSlot k) u)
    (hfreed : gone (probe (homeSlot k) i) = true) : ¬ Faithful t := by
  intro hf
  simp only [auditMachine, Option.ite_none_right_eq_some, Option.some_inj] at hs
  obtain ⟨hclock, rfl⟩ := hs
  have hhit := hf.complete k m call.now (by rw [hid, hm]) (Nat.le_refl _) hclock.2 he
  obtain ⟨v, _, hfind, hv, hvk, -, -⟩ := arwsCacheGet_eq_hit hhit
  have hvkey := keyAt_eq_some_iff.2 ⟨hv, hvk⟩
  rw [hkey] at hvkey
  have huv : v = u := hi.once _ _ _ (free_eq_some_iff.1 hvkey).2 hu
  subst huv
  rw [findSlot_eq_search] at hfind
  refine ((search_eq_some_iff.1 hfind).2 i hlt).1 ?_
  rw [hkey, free, if_pos hfreed]

/-! ## A chain that breaks

`/ab` and `/bA` have the same hash, so the second is stored one slot behind the first.  When the
first expires and a request for it frees its slot, the second is no longer found. -/

private def keyAb : Bytes :=
  arwsCacheMakeKey 512 (some (ascii "GET")) (some (ascii "a")) (some (ascii "/ab")) none

private def keyBa : Bytes :=
  arwsCacheMakeKey 512 (some (ascii "GET")) (some (ascii "a")) (some (ascii "/bA")) none

/-- A `set` into a table with room disturbs nothing. -/
private theorem reach_set {s : AuditState} (h : auditMachine.ReachUnder Undisturbed s) (now : Nat)
    (key data : Bytes) (hroom : ∃ slot, (s.cache.cache slot).inUse = false)
    (hlen : key.length < 512) (hle : s.clock ≤ now) (hlt : now < 2 ^ 64) :
    auditMachine.ReachUnder Undisturbed ⟨applyOp s.cache now (.set key data true), now,
      idealStep s.ideal s.cache now (.set key data true)⟩ := by
  refine .next (a := ⟨now, .set key data true⟩) h ⟨hroom, fun _ _ _ hk => ?_, fun _ _ _ _ _ _ => rfl⟩
    (if_pos ⟨hle, hlt⟩)
  cases hk
  exact hlen

/-- The table after `/ab` and `/bA` were stored: the second answers from behind the first. -/
theorem hit_behind_first :
    (arwsCacheGet (applyOp (applyOp AuditState.start.cache 0 (.set keyAb (ascii "x") true)) 50000
      (.set keyBa (ascii "y") true)) keyBa 60000 true).2 = .hit (ascii "y") := by
  have h1 := reach_set (.start rfl) 0 keyAb (ascii "x") ⟨0, rfl⟩ (by decide)
    (by decide) (by decide)
  have h2 := reach_set h1 50000 keyBa (ascii "y") ⟨0, by decide +kernel⟩
    (by decide) (by decide) (by decide)
  exact (faithful_of_undisturbed h2).complete keyBa ⟨ascii "y", 50000, 60⟩ 60000
    (by decide +kernel) (by decide) (by decide) (by decide)

private def breakingCalls : List CacheCall :=
  [⟨0, .set keyAb (ascii "x") true⟩, ⟨50000, .set keyBa (ascii "y") true⟩,
    ⟨61000, .get keyAb true⟩]

instance : ∀ s call, Decidable (RoomAtSet s call)
  | s, ⟨_, .set _ _ _⟩ => inferInstanceAs (Decidable (∃ slot, (s.cache.cache slot).inUse = false))
  | _, ⟨_, .get _ _⟩ | _, ⟨_, .clear⟩ | _, ⟨_, .cleanup⟩ | _, ⟨_, .setTtl _⟩ => isTrue trivial

/-- **Without that condition the cache loses entries** although nothing is evicted. -/
theorem not_faithful_of_roomAtSet :
    ¬ ∀ s, auditMachine.ReachUnder RoomAtSet s → Faithful s := by
  intro h
  have hrun : ((auditMachine.runUnder RoomAtSet .start breakingCalls).map fun s =>
      (s.ideal keyBa, s.clock, (arwsCacheGet s.cache keyBa 61000 true).2)) =
        some (some ⟨ascii "y", 50000, 60⟩, 61000, .miss) := by decide +kernel
  obtain ⟨s, hs, hv⟩ := Option.map_eq_some_iff.1 hrun
  simp only [Prod.mk.injEq] at hv
  have hf := h s (Machine.reachUnder_of_runUnder (.start rfl) hs)
  have := hf.complete keyBa _ 61000 hv.1 (by omega) (by decide) (by decide)
  rw [hv.2.2] at this
  cases this

end Cache
end Arws
