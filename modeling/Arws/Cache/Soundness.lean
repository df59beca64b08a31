import Arws.Cache.Striping
import Arws.Cache.Completeness

/-!
# Where a hit comes from

A history is the list of its calls.  Every entry in use was written by one `set` of the history, and
nothing but another `set`, an expiry or a `clear` ever changes it.

* `entry_applyOp` — what one call can do to an entry that is in use behind it.
* `Written` — the call of the history that wrote an entry.
* `hit_sound` — what `arws_cache_get` returns was stored by a `set` that succeeded, with no `clear` since,
  and has not outlived the `cache_ttl` of that time.
-/

set_option autoImplicit false

namespace Arws
namespace Cache

/-! ## What a call does to one entry -/

/-- The slot a `set` writes to: the one its search ends at, or the one it has emptied. -/
theorem slotForSet_cases (c : Table) (key : Bytes) (now : Nat) :
    (∃ slot, findSlot c key = some slot ∧ slotForSet c key now = (c, some slot)) ∨
      (∃ slot, findSlot c key = none ∧ evictVictim c now = some slot ∧
        slotForSet c key now = (c.setEntry slot .zero, some slot)) ∨
      slotForSet c key now = (c, none) := by
  rw [slotForSet]
  cases hf : findSlot c key with
  | some slot => exact .inl ⟨slot, by simp⟩
  | none =>
    simp only [evictOne]
    cases hv : evictVictim c now with
    | some slot => exact .inr (.inl ⟨slot, by simp⟩)
    | none => exact .inr (.inr rfl)

/-- **What `arws_cache_set` does**: it is refused before it has a slot, or it writes to its slot, or the
allocation fails when the slot is already without data. -/
theorem arwsCacheSet_cases (c : Table) (key data : Bytes) (now : Nat) (alloc : Bool) :
    arwsCacheSet c key data now alloc = (c, -1) ∨
      ∃ slot c', slotForSet c key now = (c', some slot) ∧ arwsCacheSet c key data now alloc =
        if alloc then (c'.setEntry slot (newEntry key data now c.cacheTtl), 0)
        else (c'.setEntry slot { c'.cache slot with data := none }, -1) := by
  rw [arwsCacheSet]
  by_cases hdata : data.length = 0
  · exact .inl (if_pos hdata)
  by_cases httl : c.cacheTtl ≤ 0
  · exact .inl (by rw [if_neg hdata, if_pos httl])
  rw [if_neg hdata, if_neg httl]
  obtain ⟨slot, -, hs⟩ | ⟨slot, -, -, hs⟩ | hs := slotForSet_cases c key now
  · exact .inr ⟨slot, c, hs, by rw [hs]; cases alloc <;> rfl⟩
  · exact .inr ⟨slot, c.setEntry slot .zero, hs, by rw [hs]; cases alloc <;> rfl⟩
  · exact .inl (by rw [hs])

/-- A `set` that succeeds has data and a time to live. -/
theorem accepted_of_set {c : Table} {key data : Bytes} {now : Nat} {alloc : Bool}
    (h : (arwsCacheSet c key data now alloc).2 = 0) : data.length ≠ 0 ∧ 0 < c.cacheTtl := by
  rw [arwsCacheSet] at h
  constructor
  · intro hdata
    rw [if_pos hdata] at h
    cases h
  · by_contra httl
    rw [if_pos (not_lt.1 httl), ite_self] at h
    cases h

/-- A `set` writes an entry, or takes its data away, or leaves it as it was. -/
theorem entry_arwsCacheSet {c : Table} {key data : Bytes} {now : Nat} {alloc : Bool} {slot : Slot}
    (huse : ((arwsCacheSet c key data now alloc).1.cache slot).inUse = true) :
    (arwsCacheSet c key data now alloc).1.cache slot = c.cache slot ∨
      (alloc = true ∧ (arwsCacheSet c key data now alloc).2 = 0 ∧
        (arwsCacheSet c key data now alloc).1.cache slot = newEntry key data now c.cacheTtl) ∨
      (alloc = false ∧ (c.cache slot).inUse = true ∧
        (arwsCacheSet c key data now alloc).1.cache slot = { c.cache slot with data := none }) := by
  obtain hset | ⟨t, c', hs, hset⟩ := arwsCacheSet_cases c key data now alloc
  · exact .inl (by rw [hset])
  rw [hset] at huse ⊢
  have hother : slot ≠ t → c'.cache slot = c.cache slot := by
    intro hne
    obtain ⟨u, -, hu⟩ | ⟨u, -, -, hu⟩ | hu := slotForSet_cases c key now <;>
      obtain ⟨rfl, ht⟩ := Prod.mk.inj (hs.symm.trans hu)
    · rfl
    · exact setEntry_of_ne c _ (Option.some.inj ht ▸ hne)
    · rfl
  cases alloc with
  | true =>
    rw [if_pos rfl] at huse ⊢
    by_cases hst : slot = t
    · subst hst
      exact .inr (.inl ⟨rfl, rfl, setEntry_self ..⟩)
    · exact .inl (by rw [setEntry_of_ne _ _ hst, hother hst])
  | false =>
    rw [if_neg Bool.false_ne_true] at huse ⊢
    by_cases hst : slot = t
    · subst hst
      rw [setEntry_self] at huse ⊢
      obtain ⟨u, -, hu⟩ | ⟨u, -, -, hu⟩ | hu := slotForSet_cases c key now <;>
        obtain ⟨rfl, ht⟩ := Prod.mk.inj (hs.symm.trans hu)
      · exact .inr (.inr ⟨rfl, huse, rfl⟩)
      · -- the emptied slot is not in use
        rw [Option.some.inj ht, setEntry_self] at huse
        cases huse
      · cases ht
    · exact .inl (by rw [setEntry_of_ne _ _ hst, hother hst])

/-- **What a call does to an entry** that is in use behind it. -/
theorem entry_applyOp {c : Table} {now : Nat} {op : CacheOp} {slot : Slot}
    (huse : ((applyOp c now op).cache slot).inUse = true) :
    (op ≠ .clear ∧ (applyOp c now op).cache slot = c.cache slot) ∨
      (∃ key data, op = .set key data true ∧ (arwsCacheSet c key data now true).2 = 0 ∧
        (applyOp c now op).cache slot = newEntry key data now c.cacheTtl) ∨
      (∃ key data, op = .set key data false ∧ (c.cache slot).inUse = true ∧
        (applyOp c now op).cache slot = { c.cache slot with data := none }) := by
  cases op with
  | get key alloc =>
    refine .inl ⟨by rintro ⟨⟩, ?_⟩
    simp only [applyOp] at huse ⊢
    obtain ⟨t, -, -, hc⟩ | ⟨-, hc⟩ := arwsCacheGet_table c key now alloc <;> rw [hc] at huse ⊢
    by_cases hst : slot = t
    · rw [hst, setEntry_self] at huse
      cases huse
    · exact setEntry_of_ne c _ hst
  | set key data alloc =>
    obtain h | ⟨rfl, hok, h⟩ | ⟨rfl, hc, h⟩ := entry_arwsCacheSet huse
    · exact .inl ⟨by rintro ⟨⟩, h⟩
    · exact .inr (.inl ⟨key, data, rfl, hok, h⟩)
    · exact .inr (.inr ⟨key, data, rfl, hc, h⟩)
  | clear => cases huse
  | cleanup =>
    refine .inl ⟨by rintro ⟨⟩, ?_⟩
    simp only [applyOp, arwsCacheCleanup] at huse ⊢
    split_ifs at huse ⊢ with hsw
    · cases huse
    · rfl
  | setTtl seconds => exact .inl ⟨by rintro ⟨⟩, rfl⟩

/-! ## Histories -/

/-- The table after the calls of a history. -/
def cacheAfter (log : List CacheCall) : Table :=
  log.foldl (fun c call => applyOp c call.now call.op) CacheState.start.cache

theorem cacheAfter_concat (log : List CacheCall) (call : CacheCall) :
    cacheAfter (log ++ [call]) = applyOp (cacheAfter log) call.now call.op := by
  rw [cacheAfter, List.foldl_append]
  rfl

/-- The key of a `set` fits its field, and its allocation succeeds. -/
def Ordinary : CacheOp → Prop
  | .set key _ alloc => key.length < 512 ∧ alloc = true
  | _ => True

/-- A history of ordinary calls up to a time, with a clock that does not go back. -/
structure History (log : List CacheCall) (now : Nat) : Prop where
  ordinary : ∀ call ∈ log, Ordinary call.op
  times : (log.map CacheCall.now ++ [now]).Pairwise (· ≤ ·)
  clock : now < 2 ^ 64

theorem History.past {log : List CacheCall} {now : Nat} (h : History log now) {call : CacheCall}
    (hcall : call ∈ log) : call.now ≤ now :=
  (List.pairwise_append.1 h.times).2.2 _ (List.mem_map_of_mem hcall) _ (List.mem_singleton_self _)

/-- A `set` of the history that succeeded, with no `clear` behind it, wrote these data with the
`cache_ttl` of that time. -/
def StoredIn (log : List CacheCall) (key data : Bytes) (storedAt : Nat) (ttl : Int) : Prop :=
  ∃ before after, log = before ++ ⟨storedAt, .set key data true⟩ :: after ∧
    (arwsCacheSet (cacheAfter before) key data storedAt true).2 = 0 ∧
    (∀ call ∈ after, call.op ≠ .clear) ∧ ttl = (cacheAfter before).cacheTtl

theorem StoredIn.mem {log : List CacheCall} {key data : Bytes} {storedAt : Nat} {ttl : Int}
    (h : StoredIn log key data storedAt ttl) : ⟨storedAt, .set key data true⟩ ∈ log := by
  obtain ⟨before, after, rfl, -⟩ := h
  simp

theorem StoredIn.concat {log : List CacheCall} {key data : Bytes} {storedAt : Nat} {ttl : Int}
    (h : StoredIn log key data storedAt ttl) {call : CacheCall} (hclear : call.op ≠ .clear) :
    StoredIn (log ++ [call]) key data storedAt ttl := by
  obtain ⟨before, after, rfl, hok, hkept, httl⟩ := h
  refine ⟨before, after ++ [call], by rw [List.append_assoc, List.cons_append], hok, ?_, httl⟩
  intro c hc
  obtain hc | hc := List.mem_append.1 hc
  · exact hkept c hc
  · rwa [List.mem_singleton.1 hc]

/-- An entry is as a `set` of the history wrote it. -/
def Written (log : List CacheCall) (e : CacheEntry) : Prop :=
  ∃ data, e.data = some data ∧ e.len = data.length ∧ StoredIn log e.key data e.storedAt e.ttl

/-- **The invariant**: every entry in use is as a `set` wrote it. -/
theorem written_of_inUse {log : List CacheCall} (h : ∀ call ∈ log, Ordinary call.op) {slot : Slot}
    (huse : ((cacheAfter log).cache slot).inUse = true) :
    Written log ((cacheAfter log).cache slot) := by
  induction log using List.reverseRecOn with
  | nil => cases huse
  | append_singleton log call ih =>
    have hcall := h call (by simp)
    replace ih := ih fun c hc => h c (List.mem_append_left _ hc)
    obtain ⟨now, op⟩ := call
    rw [cacheAfter_concat] at huse ⊢
    obtain ⟨hclear, hsame⟩ | ⟨key, data, rfl, hok, hnew⟩ | ⟨key, data, rfl, -⟩ := entry_applyOp huse
    · rw [hsame] at huse ⊢
      obtain ⟨data, hdata, hlen, hstored⟩ := ih huse
      exact ⟨data, hdata, hlen, hstored.concat hclear⟩
    · have hfits : key.take 511 = key := List.take_of_length_le (by have := hcall.1; omega)
      rw [hnew, newEntry, hfits]
      exact ⟨data, rfl, rfl, log, [], rfl, hok, by simp, rfl⟩
    · cases hcall.2

theorem StoredIn.ttl_pos {log : List CacheCall} {key data : Bytes} {storedAt : Nat} {ttl : Int}
    (h : StoredIn log key data storedAt ttl) : 0 < ttl := by
  obtain ⟨before, after, -, hok, -, rfl⟩ := h
  exact (accepted_of_set hok).2

theorem live_of_hit {c : Table} {key data : Bytes} {now : Nat} {alloc : Bool} {slot : Slot}
    (h : (arwsCacheGet c key now alloc).2 = .hit data) (hf : findSlot c key = some slot) :
    (c.cache slot).expired now = false := by
  rw [Bool.eq_false_iff]
  intro he
  simp only [arwsCacheGet, hf, he, if_true] at h
  split_ifs at h

/-- **A hit is sound**: the data were stored by a `set` of the key that succeeded, no `clear` happened
since, and at most the `cache_ttl` of that time has passed. -/
theorem hit_sound {log : List CacheCall} {key data : Bytes} {now : Nat} {alloc : Bool}
    (h : History log now) (hget : (arwsCacheGet (cacheAfter log) key now alloc).2 = .hit data) :
    ∃ storedAt ttl, StoredIn log key data storedAt ttl ∧
      (now : Int) - storedAt ≤ ttl * 1000 := by
  obtain ⟨slot, stored, hf, huse, rfl, hdata, rfl⟩ := arwsCacheGet_eq_hit hget
  obtain ⟨written, hwritten, hlen, hstored⟩ := written_of_inUse h.ordinary huse
  obtain rfl := Option.some.inj (hwritten.symm.trans hdata)
  refine ⟨_, _, by rwa [hlen, List.take_length], ?_⟩
  have hpast := h.past hstored.mem
  have hpos := hstored.ttl_pos
  have hlive := live_of_hit hget hf
  rw [CacheEntry.expired, expired, elapsed_eq_sub hpast h.clock] at hlive
  simp only [hpos, decide_true, Bool.true_and, decide_eq_false_iff_not, not_lt] at hlive
  omega

/-- Two values of one key, of which the second was stored with a longer time to live. -/
private def twoSets : List CacheCall :=
  [⟨1000, .set [97] [120] true⟩, ⟨2000, .setTtl 90⟩, ⟨3000, .set [97] [121] true⟩,
    ⟨4000, .cleanup⟩]

theorem hit_sound_twoSets : ∃ storedAt ttl, StoredIn twoSets [97] [121] storedAt ttl ∧
    ((93000 : Nat) : Int) - storedAt ≤ ttl * 1000 := by
  have hordinary : ∀ call ∈ twoSets, Ordinary call.op := by
    simp [twoSets, Ordinary]
  exact @hit_sound _ _ _ _ true ⟨hordinary, by decide, by decide⟩ (by decide +kernel)

end Cache
end Arws
