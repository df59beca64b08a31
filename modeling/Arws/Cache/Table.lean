import Arws.Library.CString
import Arws.Library.Probing
import Arws.Library.Transition

/-!
# The response cache

`arws_cache.c`: one table of `ARWS_CACHE_MAX_ENTRIES` entries under open addressing, guarded by
`CACHE_SHARDS` mutexes.  Keys are C strings (no zero byte), `data` is the block an entry points
to, with `none` for the null pointer, and times are the milliseconds `ar_time_ms` returns, so
numbers below `2 ^ 64` whose differences wrap.

What the environment decides is an argument: the clock reading `now` of a call and whether its
`ar_mem_alloc` succeeds.  Every call here is a whole critical section.

`keyAt` reads the table the way `Probing` does, and `findSlot_eq_search` is the bridge: the loop
of `find_slot` is the search of that library.
-/

set_option autoImplicit false

namespace Arws
namespace Cache

open CString Probing

/-- `ARWS_CACHE_MAX_ENTRIES`. -/
abbrev arwsCacheMaxEntries : Nat := 256

instance : NeZero arwsCacheMaxEntries := ⟨by decide⟩

/-- `CACHE_SHARDS`. -/
abbrev cacheShards : Nat := 16

/-- `ARWS_CACHE_DEFAULT_TTL`. -/
def arwsCacheDefaultTtl : Int := 60

/-- The index of a table entry. -/
abbrev Slot := Fin arwsCacheMaxEntries

structure CacheEntry where
  key : Bytes
  data : Option Bytes
  len : Nat
  storedAt : Nat
  ttl : Int
  inUse : Bool
  deriving DecidableEq

/-- An entry after `memset(&cache[i], 0, sizeof(CacheEntry))`. -/
def CacheEntry.zero : CacheEntry := ⟨[], none, 0, 0, 0, false⟩

/-- The static state of the file: the table and `cache_ttl`. -/
structure Table where
  cache : Slot → CacheEntry
  cacheTtl : Int

/-- Overwrite one entry. -/
def Table.setEntry (c : Table) (s : Slot) (e : CacheEntry) : Table :=
  { c with cache := Function.update c.cache s e }

@[simp] theorem setEntry_cacheTtl (c : Table) (s : Slot) (e : CacheEntry) :
    (c.setEntry s e).cacheTtl = c.cacheTtl := rfl

@[simp] theorem setEntry_self (c : Table) (s : Slot) (e : CacheEntry) :
    (c.setEntry s e).cache s = e := Function.update_self ..

theorem setEntry_of_ne (c : Table) {s t : Slot} (e : CacheEntry) (h : t ≠ s) :
    (c.setEntry s e).cache t = c.cache t := Function.update_of_ne h ..

/-! ## Hashing and probing -/

/-- A `char` promoted to `unsigned int`: the compiler targets signed `char`s. -/
def charToUnsigned (c : UInt8) : UInt32 :=
  if c < 128 then c.toUInt32 else c.toUInt32 + 0xFFFFFF00

def cacheHash (key : Bytes) : UInt32 :=
  key.foldl (fun hash c => ((hash <<< 5) + hash) + charToUnsigned c) 5381

def getShard (key : Bytes) : Nat := (cacheHash key).toNat % cacheShards

/-- `h % ARWS_CACHE_MAX_ENTRIES`, where probing for a key starts. -/
def homeSlot (key : Bytes) : Slot := Fin.ofNat _ (cacheHash key).toNat

/-- `find_slot`, with `none` for -1. -/
def findSlot (c : Table) (key : Bytes) : Option Slot :=
  firstStop (fun slot => !(c.cache slot).inUse || (c.cache slot).key == key) (homeSlot key)

/-! ## Ages

The subtraction is on `uint64_t`, so it wraps when the clock reading is the smaller number. -/

def elapsed (now storedAt : Nat) : Nat := (now + 2 ^ 64 - storedAt) % 2 ^ 64

def expired (ttl : Int) (storedAt now : Nat) : Bool :=
  decide (0 < ttl) && decide (ttl.toNat * 1000 < elapsed now storedAt)

def CacheEntry.expired (e : CacheEntry) (now : Nat) : Bool := Cache.expired e.ttl e.storedAt now

theorem elapsed_eq_sub {now storedAt : Nat} (h : storedAt ≤ now) (hn : now < 2 ^ 64) :
    elapsed now storedAt = now - storedAt := by
  rw [elapsed, show now + 2 ^ 64 - storedAt = now - storedAt + 2 ^ 64 by omega,
    Nat.add_mod_right, Nat.mod_eq_of_lt (by omega)]

/-- What has expired stays expired while the clock goes on. -/
theorem expired_mono {ttl : Int} {storedAt now later : Nat} (h : storedAt ≤ now)
    (hle : now ≤ later) (hlt : later < 2 ^ 64) (he : expired ttl storedAt now = true) :
    expired ttl storedAt later = true := by
  simp only [expired, Bool.and_eq_true, decide_eq_true_eq] at he ⊢
  rw [elapsed_eq_sub h (by omega)] at he
  rw [elapsed_eq_sub (h.trans hle) hlt]
  exact ⟨he.1, by omega⟩

/-! ## Eviction -/

/-- The loop of `evict_one` over the slots still to visit, with `oldest_slot` so far: an expired
entry ends it at once. -/
def evictScan (c : Table) (now : Nat) (oldest : Option Slot) : List Slot → Option Slot
  | [] => oldest
  | i :: rest =>
    if !(c.cache i).inUse then evictScan c now oldest rest
    else if (c.cache i).expired now then some i
    else match oldest with
      | none => evictScan c now (some i) rest
      | some o =>
        if (c.cache i).storedAt < (c.cache o).storedAt then evictScan c now (some i) rest
        else evictScan c now oldest rest

/-- The slot `evict_one` empties. -/
def evictVictim (c : Table) (now : Nat) : Option Slot :=
  evictScan c now none (List.finRange arwsCacheMaxEntries)

def evictOne (c : Table) (now : Nat) : Table × Option Slot :=
  match evictVictim c now with
  | some i => (c.setEntry i .zero, some i)
  | none => (c, none)

/-! ## The operations -/

def arwsCacheInit (c : Table) : Table := { c with cache := fun _ => .zero }

def arwsCacheSetTtl (c : Table) (seconds : Int) : Table :=
  { c with cacheTtl := if seconds > 0 then seconds else 0 }

def arwsCacheGetTtl (c : Table) : Int := c.cacheTtl

/-- What `arws_cache_get` does for its caller: -1, 0 with a copy of the data, or a `memcpy` from
the null pointer. -/
inductive GetResult where
  | miss
  | hit (data : Bytes)
  | fault
  deriving DecidableEq

def arwsCacheGet (c : Table) (key : Bytes) (now : Nat) (alloc : Bool) : Table × GetResult :=
  match findSlot c key with
  | none => (c, .miss)
  | some slot =>
    if !(c.cache slot).inUse then (c, .miss)
    else if (c.cache slot).expired now then (c.setEntry slot .zero, .miss)
    else if !alloc then (c, .miss)
    else match (c.cache slot).data with
      | none => (c, .fault)
      | some data => (c, .hit (data.take (c.cache slot).len))

/-- The slot `arws_cache_set` writes to, and the table with that slot made available. -/
def slotForSet (c : Table) (key : Bytes) (now : Nat) : Table × Option Slot :=
  match findSlot c key with
  | some slot => (c, some slot)
  | none => evictOne c now

/-- The entry `arws_cache_set` leaves behind: the key is cut to its field. -/
def newEntry (key data : Bytes) (now : Nat) (ttl : Int) : CacheEntry :=
  { key := key.take 511, data := some data, len := data.length, storedAt := now, ttl := ttl,
    inUse := true }

def arwsCacheSet (c : Table) (key data : Bytes) (now : Nat) (alloc : Bool) : Table × Int :=
  if data.length = 0 then (c, -1)
  else if c.cacheTtl ≤ 0 then (c, -1)
  else match slotForSet c key now with
    | (c, none) => (c, -1)
    | (c, some slot) =>
      -- the old block is freed and the pointer overwritten before the result is checked
      if !alloc then (c.setEntry slot { c.cache slot with data := none }, -1)
      else (c.setEntry slot (newEntry key data now c.cacheTtl), 0)

def arwsCacheClear (c : Table) : Table := { c with cache := fun _ => .zero }

/-- The entries a sweep at `now` frees. -/
def swept (c : Table) (now : Nat) (s : Slot) : Bool :=
  (c.cache s).inUse && (c.cache s).expired now

def arwsCacheCleanup (c : Table) (now : Nat) : Table :=
  { c with cache := fun s => if swept c now s then .zero else c.cache s }

/-- `arws_cache_make_key`: a null argument is replaced by its stand-in and the text is cut to the
buffer. -/
def arwsCacheMakeKey (outSize : Nat) (method host path query : Option Bytes) : Bytes :=
  (method.getD (ascii "*") ++ ascii "|" ++ host.getD (ascii "*") ++ ascii "|" ++
    path.getD (ascii "/") ++ ascii "|" ++ query.getD (ascii "*")).take (outSize - 1)

/-! ## The table as `Probing` sees it -/

/-- The key in a slot, if the slot is in use. -/
def keyAt (c : Table) (s : Slot) : Option Bytes :=
  if (c.cache s).inUse then some (c.cache s).key else none

theorem keyAt_eq_none_iff {c : Table} {s : Slot} : keyAt c s = none ↔ (c.cache s).inUse = false := by
  rw [keyAt]
  cases (c.cache s).inUse <;> simp

theorem keyAt_eq_some_iff {c : Table} {s : Slot} {k : Bytes} :
    keyAt c s = some k ↔ (c.cache s).inUse = true ∧ (c.cache s).key = k := by
  rw [keyAt]
  cases (c.cache s).inUse <;> simp

/-- **The loop of `find_slot` is the search of the library.** -/
theorem findSlot_eq_search (c : Table) (key : Bytes) :
    findSlot c key = search homeSlot (keyAt c) key := by
  rw [findSlot, search]
  congr 1
  funext s
  rw [keyAt]
  cases (c.cache s).inUse <;> simp

theorem keyAt_setEntry (c : Table) (s : Slot) (e : CacheEntry) :
    keyAt (c.setEntry s e) =
      Function.update (keyAt c) s (if e.inUse then some e.key else none) := by
  funext t
  by_cases h : t = s
  · subst h
    rw [keyAt, setEntry_self, Function.update_self]
  · rw [keyAt, setEntry_of_ne c e h, Function.update_of_ne h, keyAt]

/-! ## Histories

A sequential history of calls, each a whole critical section, with a clock that does not go
back. -/

inductive CacheOp where
  | get (key : Bytes) (alloc : Bool)
  | set (key data : Bytes) (alloc : Bool)
  | clear
  | cleanup
  | setTtl (seconds : Int)

/-- An operation and the clock reading it sees. -/
structure CacheCall where
  now : Nat
  op : CacheOp

def applyOp (c : Table) (now : Nat) : CacheOp → Table
  | .get key alloc => (arwsCacheGet c key now alloc).1
  | .set key data alloc => (arwsCacheSet c key data now alloc).1
  | .clear => arwsCacheClear c
  | .cleanup => arwsCacheCleanup c now
  | .setTtl seconds => arwsCacheSetTtl c seconds

/-- The cache between two calls, with the last clock reading. -/
structure CacheState where
  cache : Table
  clock : Nat

/-- The state `arws_cache_init` leaves at start-up. -/
def CacheState.start : CacheState :=
  ⟨arwsCacheInit ⟨fun _ => .zero, arwsCacheDefaultTtl⟩, 0⟩

/-- The cache under any history of calls. -/
def cacheMachine : Machine CacheState CacheCall where
  init s := s = .start
  step s call :=
    if s.clock ≤ call.now ∧ call.now < 2 ^ 64 then
      some ⟨applyOp s.cache call.now call.op, call.now⟩
    else none

end Cache
end Arws
