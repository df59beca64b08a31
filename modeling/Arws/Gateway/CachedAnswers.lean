import Arws.Cache.Soundness
import Arws.Gateway.Dispatcher

/-!
# Answers from the cache

Many workers dispatch at once.  A dispatch looks its request up in the cache, and if it finds nothing it
awaits its backend, stores the response if it may, and passes it on; what other workers do comes in between.
Every answer is written down, and of those that come from the cache it is said where they come from.

`arws_cache_get` and `arws_cache_set` hold the mutex of their key's shard only, and look for slots, or for
one to evict, in the whole table.  So calls for keys of two shards may be in one entry at a time, and then
the model says nothing about the table: a `Race` is whatever they find and leave.  What is shown is shown of
the runs without one.

* `arwsDispatch_eq_lookUp` — a dispatch is its look-up and what it does then.
* `Held` — **the invariant**: what is in the cache is a response that a backend gave to an earlier request.
* `cached_of_response` — so, where no calls for two shards overlap, every answer from the cache is such a
  response to a request with the same key, and not older than its time to live.
* `answered_site` — and where the backends have one response for each key, requests get it, from the cache or
  not.
-/

set_option autoImplicit false

namespace Arws
namespace Gateway

open CString Cache Router Server Upstream

/-! ## A dispatch in two parts -/

/-- A dispatch in front of the exchange with its backend. -/
structure Awaiting where
  env : DispatchEnv
  backendId : Int
  req : HttpRequest
  raw : Bytes

/-- A request for a route with a backend, up to the exchange. -/
def lookUpBackend (env : DispatchEnv) (backendId : Int) (req : HttpRequest) (s : Tables) :
    Option (Tables × (Outcome ⊕ Awaiting)) :=
  match arwsBuildHttpRequest env.clientIp req 32768 with
  | .error .undefined => none
  | .error .failed => some (s, .inl ⟨.badGateway (ascii "Bad Gateway"), none, -1⟩)
  | .ok (head, body) =>
    if useCache env req then
      match arwsCacheGet s.cache (cacheKey req) env.getNow env.alloc with
      | (_, .fault) => none
      | (cache, .hit data) => some ({ s with cache := cache }, .inl ⟨.cached data, none, 0⟩)
      | (cache, .miss) => some ({ s with cache := cache }, .inr ⟨env, backendId, req, head ++ body⟩)
    else some (s, .inr ⟨env, backendId, req, head ++ body⟩)

/-- `arws_dispatch` up to the exchange with a backend. -/
def lookUp (env : DispatchEnv) (req : HttpRequest) (effectiveMode : Bytes) (s : Tables) :
    Option (Tables × (Outcome ⊕ Awaiting)) :=
  (arwsRouteMatch env.routes s.rrCounter req effectiveMode).bind fun (rrCounter, route) =>
    let s := { s with rrCounter := rrCounter }
    match route with
    | none => some (s, .inl ⟨.notFound, none, 0⟩)
    | some route =>
      if route.useHandler then some (s, .inl ⟨.handler, none, 0⟩)
      else if route.useRedirect ∧ route.redirectTarget.text ≠ [] then
        some (s, .inl ⟨.redirect route.redirectTarget.text, none, 0⟩)
      else if route.proxyTarget.text ≠ [] then
        (dispatchTarget env route.proxyTarget.text s).map fun (s, out) => (s, .inl out)
      else if route.backendId ≥ 0 then lookUpBackend env route.backendId req s
      else some (s, .inl ⟨.notFound, none, 0⟩)

/-- The exchange with the backend, and what is done with the response. -/
def Awaiting.exchange (a : Awaiting) (s : Tables) : Tables × Outcome :=
  Gateway.exchange a.env a.backendId a.req a.raw s

/-- What a look-up comes to when nothing comes in between. -/
def finished : Tables × (Outcome ⊕ Awaiting) → Tables × Outcome
  | (s, .inl out) => (s, out)
  | (s, .inr a) => a.exchange s

variable {env : DispatchEnv} {req : HttpRequest} {mode data : Bytes} {s s' : Tables}
  {r : Outcome ⊕ Awaiting}

theorem dispatchBackend_eq_lookUpBackend (env : DispatchEnv) (backendId : Int) (req : HttpRequest)
    (s : Tables) :
    dispatchBackend env backendId req s = (lookUpBackend env backendId req s).map finished := by
  rw [dispatchBackend, lookUpBackend]
  rcases arwsBuildHttpRequest env.clientIp req 32768 with e | ⟨head, body⟩
  · cases e <;> rfl
  · simp only
    split_ifs
    · rcases arwsCacheGet s.cache (cacheKey req) env.getNow env.alloc with ⟨cache, result⟩
      cases result <;> rfl
    · rfl

/-- **A dispatch is its look-up and what it does then**. -/
theorem arwsDispatch_eq_lookUp (env : DispatchEnv) (req : HttpRequest) (mode : Bytes) (s : Tables) :
    arwsDispatch env req mode s = (lookUp env req mode s).map finished := by
  rw [arwsDispatch, lookUp, Option.map_bind]
  congr 1
  funext found
  obtain ⟨rrCounter, route⟩ := found
  cases route with
  | none => rfl
  | some route =>
    simp only [Function.comp_apply]
    split_ifs
    · rfl
    · rfl
    · rw [Option.map_map]
      exact Option.map_id'.symm ▸ rfl
    · exact dispatchBackend_eq_lookUpBackend ..
    · rfl

/-- What a look-up does: it asks the cache at most, and what it answers from there was found. -/
structure LooksUp (env : DispatchEnv) (req : HttpRequest) (s s' : Tables) (r : Outcome ⊕ Awaiting) :
    Prop where
  cache : s'.cache = s.cache ∨ s'.cache = applyOp s.cache env.getNow (.get (cacheKey req) env.alloc)
  cached : ∀ out data, r = .inl out → out.answer = .cached data →
    (arwsCacheGet s.cache (cacheKey req) env.getNow env.alloc).2 = .hit data
  noResponse : ∀ out data, r = .inl out → out.answer ≠ .response data
  awaiting : ∀ a, r = .inr a → a.env = env ∧ a.req = req

/-- An answer that has nothing to do with the cache. -/
theorem LooksUp.of_answer {out : Outcome} (hcache : s'.cache = s.cache)
    (hout : ∀ data, out.answer ≠ .cached data ∧ out.answer ≠ .response data) :
    LooksUp env req s s' (.inl out) where
  cache := .inl hcache
  cached := by
    rintro out data ⟨⟩ hcached
    exact absurd hcached (hout data).1
  noResponse := by
    rintro out data ⟨⟩
    exact (hout data).2
  awaiting := by rintro a ⟨⟩

theorem looksUp_of_backend {backendId : Int} (h : lookUpBackend env backendId req s = some (s', r)) :
    LooksUp env req s s' r := by
  rw [lookUpBackend] at h
  split at h
  · cases h
  · cases h
    exact .of_answer rfl fun _ => ⟨Answer.noConfusion, Answer.noConfusion⟩
  · split_ifs at h
    · split at h
      · cases h
      · rename_i cache data hget
        cases h
        refine ⟨.inr (congrArg Prod.fst hget).symm, ?_, ?_, ?_⟩
        · rintro out data ⟨⟩ ⟨⟩
          exact congrArg Prod.snd hget
        · rintro out data ⟨⟩ ⟨⟩
        · rintro a ⟨⟩
      · rename_i cache hget
        cases h
        refine ⟨.inr (congrArg Prod.fst hget).symm, ?_, ?_, ?_⟩
        · rintro out data ⟨⟩
        · rintro out data ⟨⟩
        · rintro a ⟨⟩
          exact ⟨rfl, rfl⟩
    · cases h
      refine ⟨.inl rfl, ?_, ?_, ?_⟩
      · rintro out data ⟨⟩
      · rintro out data ⟨⟩
      · rintro a ⟨⟩
        exact ⟨rfl, rfl⟩

/-- A request for a target is not answered by the gateway's own backends. -/
theorem dispatchTarget_cases {proxyTarget : Bytes} {out : Outcome}
    (h : dispatchTarget env proxyTarget s = some (s', out)) :
    s'.cache = s.cache ∧ ∀ data, out.answer ≠ .cached data ∧ out.answer ≠ .response data := by
  unfold dispatchTarget at h
  split at h
  · obtain ⟨⟨pools, selected⟩, -, h⟩ := Option.bind_eq_some_iff.1 h
    cases selected with
    | none =>
      cases h
      exact ⟨rfl, fun _ => ⟨Answer.noConfusion, Answer.noConfusion⟩⟩
    | some node =>
      obtain ⟨n, -, h⟩ := Option.map_eq_some_iff.1 h
      cases h
      exact ⟨rfl, fun _ => ⟨Answer.noConfusion, Answer.noConfusion⟩⟩
  · cases h
    exact ⟨rfl, fun _ => ⟨Answer.noConfusion, Answer.noConfusion⟩⟩

theorem looksUp_of_lookUp (h : lookUp env req mode s = some (s', r)) : LooksUp env req s s' r := by
  rw [lookUp] at h
  obtain ⟨⟨rrCounter, route⟩, -, h⟩ := Option.bind_eq_some_iff.1 h
  cases route with
  | none =>
    cases h
    exact .of_answer rfl fun _ => ⟨Answer.noConfusion, Answer.noConfusion⟩
  | some route =>
    simp only at h
    split_ifs at h
    · cases h
      exact .of_answer rfl fun _ => ⟨Answer.noConfusion, Answer.noConfusion⟩
    · cases h
      exact .of_answer rfl fun _ => ⟨Answer.noConfusion, Answer.noConfusion⟩
    · obtain ⟨⟨s₁, out⟩, htarget, h⟩ := Option.map_eq_some_iff.1 h
      cases h
      obtain ⟨hcache, hout⟩ := dispatchTarget_cases htarget
      exact .of_answer hcache hout
    · have hlooks := looksUp_of_backend h
      exact ⟨hlooks.cache, hlooks.cached, hlooks.noResponse, hlooks.awaiting⟩
    · cases h
      exact .of_answer rfl fun _ => ⟨Answer.noConfusion, Answer.noConfusion⟩

/-- **What an exchange comes to**: no response and the tables as they were, or a response, which is stored in
the cache if it may be. -/
theorem exchange_cases {a : Awaiting} {out : Outcome} (h : a.exchange s = (s', out)) :
    (s' = s ∧ ∀ data, out.answer ≠ .cached data ∧ out.answer ≠ .response data) ∨
      ∃ resp, out.answer = .response resp ∧ a.env.readResponse a.backendId = some resp ∧ (s' = s ∨
        useCache a.env a.req = true ∧ mayBeStored a.env.stack resp = true ∧
          s'.cache = applyOp s.cache a.env.setNow (.set (cacheKey a.req) resp a.env.alloc)) := by
  rw [Awaiting.exchange, exchange] at h
  split_ifs at h
  · cases h
    exact .inl ⟨rfl, fun _ => ⟨Answer.noConfusion, Answer.noConfusion⟩⟩
  · split at h
    · cases h
      exact .inl ⟨rfl, fun _ => ⟨Answer.noConfusion, Answer.noConfusion⟩⟩
    · cases h
      exact .inl ⟨rfl, fun _ => ⟨Answer.noConfusion, Answer.noConfusion⟩⟩
    · rename_i resp _ hresp
      refine .inr ⟨resp, ?_⟩
      split_ifs at h with hstored
      · cases h
        obtain ⟨huse, hmay⟩ := Bool.and_eq_true_iff.1 hstored
        exact ⟨rfl, hresp, .inr ⟨huse, hmay, rfl⟩⟩
      · cases h
        exact ⟨rfl, hresp, .inl rfl⟩

/-! ## The workers -/

/-- An answer, with the clock and the time to live at the time it was given. -/
structure Answered where
  env : DispatchEnv
  req : HttpRequest
  answer : Answer
  time : ℕ
  ttl : Int

structure CachingState (ι : Type*) where
  tables : Tables
  clock : ℕ
  /-- The dispatches that await their backend. -/
  awaiting : ι → Option Awaiting
  /-- The answers so far, in their order. -/
  answered : List Answered

/-- What a call on the cache finds and what it leaves when it overlaps with one for a key of another shard. -/
structure Race where
  found : Cache.Table
  left : Cache.Table

inductive CachingAct (ι : Type*)
  /-- A dispatch up to the exchange, with its `arws_cache_get`. -/
  | lookUp (worker : ι) (env : DispatchEnv) (req : HttpRequest) (effectiveMode : Bytes) (race : Option Race)
  /-- The exchange, with its `arws_cache_set`. -/
  | exchange (worker : ι) (race : Option Race)
  /-- The counters and the pools are whatever other threads make of them. -/
  | others (rrCounter : Int) (pools : List ArwsUpstreamPool)
  /-- `arws_cache_clear`, `arws_cache_cleanup` and `arws_cache_set_ttl`. -/
  | clear
  | cleanup (now : ℕ)
  | setTtl (seconds : Int)

/-- The call on the cache overlaps with no other one. -/
def CachingAct.Alone {ι : Type*} : CachingAct ι → Prop
  | .lookUp _ _ _ _ race => race = none
  | .exchange _ race => race = none
  | _ => True

/-- The tables as a call finds them. -/
def Tables.found (s : Tables) (race : Option Race) : Tables :=
  match race with
  | none => s
  | some race => { s with cache := race.found }

/-- The tables behind a call. -/
def Tables.left (s : Tables) (race : Option Race) : Tables :=
  match race with
  | none => s
  | some race => { s with cache := race.left }

variable {ι : Type*}

namespace CachingState

/-- The state behind a call on the cache. -/
def call (s : CachingState ι) (now : ℕ) (op : CacheOp) : CachingState ι :=
  { s with tables := { s.tables with cache := applyOp s.tables.cache now op }, clock := now }

/-- The state behind an answer. -/
def answer (s : CachingState ι) (tables : Tables) (env : DispatchEnv) (req : HttpRequest) (answer : Answer)
    (now : ℕ) : CachingState ι :=
  { s with
    tables := tables, clock := now
    answered := s.answered ++ [⟨env, req, answer, now, s.tables.cache.cacheTtl⟩] }

/-- The state with another dispatch of a worker. -/
def await [DecidableEq ι] (s : CachingState ι) (w : ι) (a : Option Awaiting) : CachingState ι :=
  { s with awaiting := Function.update s.awaiting w a }

end CachingState

def cachingStep [DecidableEq ι] (s : CachingState ι) : CachingAct ι → Option (CachingState ι)
  | .lookUp w env req mode race =>
    if (s.awaiting w).isNone ∧ s.clock ≤ env.getNow ∧ env.getNow < 2 ^ 64 then
      (Gateway.lookUp env req mode (s.tables.found race)).map fun
        | (tables, .inl out) => s.answer (tables.left race) env req out.answer env.getNow
        | (tables, .inr a) => { s with tables := tables.left race, clock := env.getNow }.await w (some a)
    else none
  | .exchange w race =>
    (s.awaiting w).bind fun a =>
      if s.clock ≤ a.env.setNow ∧ a.env.setNow < 2 ^ 64 then
        let done := a.exchange (s.tables.found race)
        some ((s.answer (done.1.left race) a.env a.req done.2.answer a.env.setNow).await w none)
      else none
  | .others rrCounter pools => some { s with tables := { s.tables with rrCounter, pools } }
  | .clear => some (s.call s.clock .clear)
  | .cleanup now => if s.clock ≤ now ∧ now < 2 ^ 64 then some (s.call now .cleanup) else none
  | .setTtl seconds => some (s.call s.clock (.setTtl seconds))

/-- The workers of the gateway, from its start on. -/
def caching (ι : Type*) [DecidableEq ι] : Machine (CachingState ι) (CachingAct ι) where
  init s := s.tables.cache = CacheState.start.cache ∧ s.clock = 0 ∧ s.awaiting = (fun _ => none) ∧
    s.answered = []
  step := cachingStep

/-! ## Where a cached answer comes from -/

/-- The answer `a` with these data is the response that the answer `b` passed on. -/
structure Origin (b a : Answered) (data : Bytes) : Prop where
  response : b.answer = .response data
  key : cacheKey b.req = cacheKey a.req
  cacheable : useCache b.env b.req = true
  stored : mayBeStored b.env.stack data = true
  earlier : b.time ≤ a.time
  fresh : (a.time : Int) - b.time ≤ b.ttl * 1000

/-- The entry holds the response that was passed on. -/
structure HoldsResponse (e : CacheEntry) (data : Bytes) (b : Answered) : Prop where
  response : b.answer = .response data
  key : e.key = cacheKey b.req
  cacheable : useCache b.env b.req = true
  stored : mayBeStored b.env.stack data = true
  len : e.len = data.length
  storedAt : e.storedAt = b.time
  ttl : e.ttl = b.ttl
  ttl_pos : 0 < e.ttl

/-- **The invariant**: every entry with data holds a response that was passed on. -/
structure Held (answered : List Answered) (c : Table) (clock : ℕ) : Prop where
  holds : ∀ slot data, (c.cache slot).inUse = true → (c.cache slot).data = some data →
    ∃ b ∈ answered, HoldsResponse (c.cache slot) data b
  past : ∀ b ∈ answered, b.time ≤ clock
  clock : clock < 2 ^ 64

variable {answered : List Answered} {c : Table} {clock now : ℕ}

/-- Calls other than `arws_cache_set` keep the invariant, and so does a `set` of a response that is passed
on. -/
theorem Held.applyOp (h : Held answered c clock) (hle : clock ≤ now) (hlt : now < 2 ^ 64) {op : CacheOp}
    {more : List Answered} (hmore : ∀ b ∈ more, b.time ≤ now)
    (hset : ∀ key data alloc, op = .set key data alloc → ∃ b ∈ more, b.answer = .response data ∧
      key = cacheKey b.req ∧ useCache b.env b.req = true ∧ mayBeStored b.env.stack data = true ∧
        b.time = now ∧ b.ttl = c.cacheTtl) : Held (answered ++ more) (Cache.applyOp c now op) now where
  holds slot data huse hdata := by
    obtain ⟨-, hkept⟩ | ⟨key, stored, rfl, hok, hnew⟩ | ⟨key, stored, -, -, hnone⟩ := entry_applyOp huse
    · rw [hkept] at huse hdata ⊢
      obtain ⟨b, hb, hholds⟩ := h.holds slot data huse hdata
      exact ⟨b, List.mem_append_left _ hb, hholds⟩
    · obtain ⟨b, hb, hresponse, hkey, huse, hmay, htime, httl⟩ := hset _ _ _ rfl
      rw [hnew] at hdata ⊢
      obtain rfl : stored = data := Option.some.inj hdata
      have hfits : key.take 511 = key := List.take_of_length_le (hkey ▸ length_cacheKey_le b.req)
      exact ⟨b, List.mem_append_right _ hb, hresponse, hfits.trans hkey, huse, hmay, rfl, htime.symm,
        httl.symm, (accepted_of_set hok).2⟩
    · rw [hnone] at hdata
      cases hdata
  past b hb := by
    obtain hb | hb := List.mem_append.1 hb
    · exact (h.past b hb).trans hle
    · exact hmore b hb
  clock := hlt

/-- The invariant is about the cache and the answers. -/
theorem Held.of_eq (h : Held answered c clock) (hle : clock ≤ now) (hlt : now < 2 ^ 64)
    {more : List Answered} (hmore : ∀ b ∈ more, b.time ≤ now) : Held (answered ++ more) c now where
  holds slot data huse hdata := by
    obtain ⟨b, hb, hholds⟩ := h.holds slot data huse hdata
    exact ⟨b, List.mem_append_left _ hb, hholds⟩
  past b hb := by
    obtain hb | hb := List.mem_append.1 hb
    · exact (h.past b hb).trans hle
    · exact hmore b hb
  clock := hlt

/-- **A hit** is a response that was passed on, and it is fresh. -/
theorem Held.origin (h : Held answered c clock) {env : DispatchEnv} {req : HttpRequest} {ttl : Int}
    (hle : clock ≤ env.getNow) (hlt : env.getNow < 2 ^ 64)
    (hhit : (arwsCacheGet c (cacheKey req) env.getNow env.alloc).2 = .hit data) :
    ∃ b ∈ answered, Origin b ⟨env, req, .cached data, env.getNow, ttl⟩ data := by
  obtain ⟨slot, stored, hfind, huse, hkey, hdata, rfl⟩ := arwsCacheGet_eq_hit hhit
  obtain ⟨b, hb, hholds⟩ := h.holds slot stored huse hdata
  have hpast := (h.past b hb).trans hle
  have hlive := live_of_hit hhit hfind
  rw [CacheEntry.expired, expired, hholds.storedAt, elapsed_eq_sub hpast hlt, hholds.ttl] at hlive
  have hpos : 0 < b.ttl := hholds.ttl ▸ hholds.ttl_pos
  simp only [hpos, decide_true, Bool.true_and, decide_eq_false_iff_not, not_lt] at hlive
  rw [hholds.len, List.take_length]
  exact ⟨b, hb, hholds.response, hholds.key.symm.trans hkey, hholds.cacheable, hholds.stored, hpast,
    by simp only; omega⟩

/-- Every answer from the cache has an origin among those before it. -/
def Supported (answered : List Answered) : Prop :=
  ∀ before a after data, answered = before ++ a :: after → a.answer = .cached data →
    ∃ b ∈ before, Origin b a data

theorem Supported.concat (h : Supported answered) {a : Answered}
    (ha : ∀ data, a.answer = .cached data → ∃ b ∈ answered, Origin b a data) :
    Supported (answered ++ [a]) := by
  intro before b after data hsplit hcached
  obtain rfl | ⟨after, z, rfl⟩ := after.eq_nil_or_concat'
  · obtain ⟨rfl, hb⟩ := List.append_inj' hsplit rfl
    cases hb
    exact ha data hcached
  · rw [← List.cons_append, ← List.append_assoc] at hsplit
    obtain ⟨rfl, -⟩ := List.append_inj' hsplit rfl
    exact h before b after data rfl hcached

/-- What holds between two steps. -/
structure CachingState.Sound (s : CachingState ι) : Prop where
  held : Held s.answered s.tables.cache s.clock
  supported : Supported s.answered

namespace CachingState
namespace Sound

variable {s : CachingState ι}

/-- An answer that is neither from the cache nor to be found there. -/
theorem answer (h : s.Sound) {tables : Tables} {env : DispatchEnv} {req : HttpRequest} {answer : Answer}
    {now : ℕ} (hcached : ∀ data, answer = .cached data →
      ∃ b ∈ s.answered, Origin b ⟨env, req, answer, now, s.tables.cache.cacheTtl⟩ data)
    (hheld : Held (s.answered ++ [⟨env, req, answer, now, s.tables.cache.cacheTtl⟩]) tables.cache now) :
    (s.answer tables env req answer now).Sound :=
  ⟨hheld, h.supported.concat hcached⟩

theorem call (h : s.Sound) {now : ℕ} {op : CacheOp} (hle : s.clock ≤ now) (hlt : now < 2 ^ 64)
    (hop : ∀ key data alloc, op ≠ .set key data alloc) : (s.call now op).Sound where
  held := by
    have hnone : ∀ b ∈ ([] : List Answered), b.time ≤ now := by simp
    have := h.held.applyOp hle hlt hnone fun key data alloc (he : op = _) => absurd he (hop key data alloc)
    rwa [List.append_nil] at this
  supported := h.supported

variable [DecidableEq ι]

theorem lookUp (h : s.Sound) {w : ι} {env : DispatchEnv} {req : HttpRequest} {mode : Bytes}
    {t : CachingState ι} (hs : cachingStep s (.lookUp w env req mode none) = some t) : t.Sound := by
  obtain ⟨⟨-, hle, hlt⟩, hs⟩ := Option.ite_none_right_eq_some.1 hs
  obtain ⟨⟨tables, r⟩, hlook, rfl⟩ := Option.map_eq_some_iff.1 hs
  have hlooks := looksUp_of_lookUp hlook
  have hheld : ∀ more : List Answered, (∀ b ∈ more, b.time ≤ env.getNow) →
      Held (s.answered ++ more) tables.cache env.getNow := by
    intro more hmore
    obtain hc | hc := hlooks.cache
    · rw [hc]
      exact h.held.of_eq hle hlt hmore
    · rw [hc]
      exact h.held.applyOp hle hlt hmore (by rintro key data alloc ⟨⟩)
  cases r with
  | inl out =>
    refine h.answer (fun data hcached => ?_) (hheld _ (by simp))
    rw [hcached]
    exact h.held.origin hle hlt (hlooks.cached out data rfl hcached)
  | inr a =>
    have hkept := hheld [] (by simp)
    rw [List.append_nil] at hkept
    exact ⟨hkept, h.supported⟩

theorem exchange (h : s.Sound) {w : ι} {t : CachingState ι}
    (hs : cachingStep s (.exchange w none) = some t) : t.Sound := by
  obtain ⟨a, -, hs⟩ := Option.bind_eq_some_iff.1 hs
  obtain ⟨⟨hle, hlt⟩, hs⟩ := Option.ite_none_right_eq_some.1 hs
  obtain rfl := Option.some.inj hs
  cases hexchange : a.exchange (s.tables.found none) with
  | mk tables out =>
    have hsound : (s.answer tables a.env a.req out.answer a.env.setNow).Sound := by
      obtain ⟨rfl, hout⟩ | ⟨resp, hresp, -, hcache⟩ := exchange_cases hexchange
      · exact h.answer (fun data hcached => absurd hcached (hout data).1)
          (h.held.of_eq hle hlt (by simp))
      · refine h.answer (fun data hcached => ?_) ?_
        · rw [hresp] at hcached
          cases hcached
        · obtain rfl | ⟨huse, hmay, hc⟩ := hcache
          · exact h.held.of_eq hle hlt (by simp)
          · rw [hc]
            refine h.held.applyOp hle hlt (by simp) ?_
            rintro key data alloc ⟨⟩
            exact ⟨_, List.mem_singleton_self _, hresp, rfl, huse, hmay, rfl, rfl⟩
    exact ⟨hsound.held, hsound.supported⟩

/-- **One step** without a race keeps the invariant. -/
theorem step (h : s.Sound) {act : CachingAct ι} {t : CachingState ι} (halone : act.Alone)
    (hs : cachingStep s act = some t) : t.Sound := by
  cases act with
  | lookUp w env req mode race =>
    obtain rfl : race = none := halone
    exact h.lookUp hs
  | exchange w race =>
    obtain rfl : race = none := halone
    exact h.exchange hs
  | others rrCounter pools =>
    cases hs
    exact ⟨h.held, h.supported⟩
  | clear =>
    cases hs
    exact h.call le_rfl h.held.clock (by rintro key data alloc ⟨⟩)
  | cleanup now =>
    obtain ⟨⟨hle, hlt⟩, hs⟩ := Option.ite_none_right_eq_some.1 hs
    cases hs
    exact h.call hle hlt (by rintro key data alloc ⟨⟩)
  | setTtl seconds =>
    cases hs
    exact h.call le_rfl h.held.clock (by rintro key data alloc ⟨⟩)

end Sound
end CachingState

variable [DecidableEq ι]

theorem sound_of_reach {s : CachingState ι} (h : (caching ι).ReachUnder (fun _ act => act.Alone) s) :
    s.Sound := by
  refine h.invariant (fun s hs => ?_) fun s act t hI halone hs => hI.step halone hs
  obtain ⟨hcache, hclock, -, hanswered⟩ := hs
  refine ⟨⟨fun slot data huse => ?_, ?_, ?_⟩, ?_⟩
  · rw [hcache] at huse
    cases huse
  · simp [hanswered]
  · rw [hclock]
    decide
  · intro before a after data hsplit
    simp [hanswered] at hsplit

/-- A backend that has one response for all requests on all hosts. -/
private def oneResponse (resp : Bytes) (now : ℕ) : DispatchEnv where
  routes := (arwsAddRoute (fun _ => []) (some .zero) (ascii "*") (ascii "*") none none 1).1
  clientIp := ascii "10.0.0.1"
  isNoCache _ _ := false
  configCacheTtl := 60
  forward _ := -1
  sendRequest _ raw := raw.length
  readResponse _ := some resp
  stack := []
  getNow := now
  setNow := now + 5
  alloc := true

private def pageRequest : HttpRequest :=
  ⟨ascii "GET", ascii "/", none, [], [], ascii "a", [], 0⟩

/-- A response that is short enough to be stored. -/
private def shortPage : Bytes := ascii "HTTP/1.1 2\r\n\r\npage"

/-- A worker looks a page up while another one awaits it, and a third one finds it. -/
private def threeWorkers : List (CachingAct ℕ) :=
  [.lookUp 0 (oneResponse shortPage 1000) pageRequest (ascii "production") none,
    .lookUp 1 (oneResponse shortPage 1001) pageRequest (ascii "production") none,
    .exchange 0 none, .exchange 1 none,
    .lookUp 2 (oneResponse shortPage 60000) pageRequest (ascii "production") none]

private def gatewayStart : CachingState ℕ := ⟨⟨0, [], CacheState.start.cache⟩, 0, fun _ => none, []⟩

private theorem gatewayStart_init : (caching ℕ).init gatewayStart := ⟨rfl, rfl, rfl, rfl⟩

private theorem exists_threeWorkers : ∃ s a,
    (caching ℕ).runUnder (fun _ _ => True) gatewayStart threeWorkers = some s ∧ a ∈ s.answered ∧
      a.answer = .cached shortPage := by
  obtain ⟨s, hs, hanswers⟩ := Option.map_eq_some_iff.1
    (show ((caching ℕ).runUnder (fun _ _ => True) gatewayStart threeWorkers).map
      (fun s => s.answered.map (·.answer)) =
        some [.response shortPage, .response shortPage, .cached shortPage] by decide +kernel)
  obtain ⟨a, ha, hcached⟩ := List.mem_map.1
    (show Answer.cached shortPage ∈ s.answered.map (·.answer) by simp [hanswers])
  exact ⟨s, a, hs, ha, hcached⟩

private theorem alone_threeWorkers : ∀ act ∈ threeWorkers, act.Alone := by
  simp only [threeWorkers, List.forall_mem_cons]
  exact ⟨rfl, rfl, rfl, rfl, rfl, fun _ h => nomatch h⟩

/-- The backends have the response of the site for the key of a request, or none. -/
def ReadsFrom (site : Bytes → Bytes) (env : DispatchEnv) (req : HttpRequest) : Prop :=
  ∀ backendId resp, env.readResponse backendId = some resp → resp = site (cacheKey req)

/-- A dispatch of the run reads from the site. -/
def FromSite (site : Bytes → Bytes) : CachingAct ι → Prop
  | .lookUp _ env req _ _ => ReadsFrom site env req
  | _ => True

/-- What was read came from the site, and what is read will. -/
structure CachingState.OfSite (site : Bytes → Bytes) (s : CachingState ι) : Prop where
  awaiting : ∀ w a, s.awaiting w = some a → ReadsFrom site a.env a.req
  responses : ∀ a ∈ s.answered, ∀ data, a.answer = .response data → data = site (cacheKey a.req)

variable {site : Bytes → Bytes} {s : CachingState ι}

theorem CachingState.OfSite.await (h : s.OfSite site) {w : ι} {a : Option Awaiting}
    (ha : ∀ b, a = some b → ReadsFrom site b.env b.req) : (s.await w a).OfSite site where
  awaiting v b hb := by
    replace hb : Function.update s.awaiting w a v = some b := hb
    by_cases hvw : v = w
    · subst hvw
      rw [Function.update_self] at hb
      exact ha b hb
    · rw [Function.update_of_ne hvw] at hb
      exact h.awaiting v b hb
  responses := h.responses

omit [DecidableEq ι] in
theorem CachingState.OfSite.answer (h : s.OfSite site) {tables : Tables} {env : DispatchEnv}
    {req : HttpRequest} {answer : Answer} {now : ℕ}
    (ha : ∀ data, answer = .response data → data = site (cacheKey req)) :
    (s.answer tables env req answer now).OfSite site where
  awaiting := h.awaiting
  responses a hmem data hdata := by
    obtain hmem | hmem := List.mem_append.1 hmem
    · exact h.responses a hmem data hdata
    · obtain rfl := List.mem_singleton.1 hmem
      exact ha data hdata

theorem CachingState.OfSite.step (h : s.OfSite site) {act : CachingAct ι} {t : CachingState ι}
    (hact : FromSite site act) (hs : cachingStep s act = some t) : t.OfSite site := by
  cases act with
  | lookUp w env req mode race =>
    obtain ⟨-, hs⟩ := Option.ite_none_right_eq_some.1 hs
    obtain ⟨⟨tables, r⟩, hlook, rfl⟩ := Option.map_eq_some_iff.1 hs
    have hlooks := looksUp_of_lookUp hlook
    cases r with
    | inl out => exact h.answer fun data hdata => absurd hdata (hlooks.noResponse out data rfl)
    | inr a =>
      have hstate : CachingState.OfSite site
          { s with tables := tables.left race, clock := env.getNow } := ⟨h.awaiting, h.responses⟩
      refine hstate.await fun b hb => ?_
      obtain rfl := Option.some.inj hb
      obtain ⟨henv, hreq⟩ := hlooks.awaiting a rfl
      rw [henv, hreq]
      exact hact
  | exchange w race =>
    obtain ⟨a, ha, hs⟩ := Option.bind_eq_some_iff.1 hs
    obtain ⟨-, hs⟩ := Option.ite_none_right_eq_some.1 hs
    obtain rfl := Option.some.inj hs
    refine (h.answer fun data hdata => ?_).await (by rintro b ⟨⟩)
    obtain ⟨-, hout⟩ | ⟨resp, hresp, hread, -⟩ := exchange_cases
      (Prod.mk.eta : ((a.exchange (s.tables.found race)).1, (a.exchange (s.tables.found race)).2) = _).symm
    · exact absurd hdata (hout data).2
    · rw [hresp] at hdata
      obtain rfl := Answer.response.inj hdata
      exact h.awaiting w a ha _ _ hread
  | others rrCounter pools =>
    cases hs
    exact ⟨h.awaiting, h.responses⟩
  | clear =>
    cases hs
    exact ⟨h.awaiting, h.responses⟩
  | cleanup now =>
    obtain ⟨-, hs⟩ := Option.ite_none_right_eq_some.1 hs
    cases hs
    exact ⟨h.awaiting, h.responses⟩
  | setTtl seconds =>
    cases hs
    exact ⟨h.awaiting, h.responses⟩

/-- **The cache is transparent** in the runs without a race: where the backends have one response for each key, a
request that is answered from the cache gets what it would get from a backend. -/
theorem answered_site (h : (caching ι).ReachUnder (fun _ act => FromSite site act ∧ act.Alone) s) {a : Answered}
    (ha : a ∈ s.answered) {data : Bytes} (hdata : a.answer = .response data ∨ a.answer = .cached data) :
    data = site (cacheKey a.req) := by
  have hsite : s.OfSite site := by
    refine h.invariant (fun s hs => ?_) fun s act t hI hact hs => hI.step hact.1 hs
    obtain ⟨-, -, hawaiting, hanswered⟩ := hs
    refine ⟨fun w a hw => ?_, fun a ha => ?_⟩
    · rw [hawaiting] at hw
      cases hw
    · rw [hanswered] at ha
      cases ha
  obtain hresponse | hcached := hdata
  · exact hsite.responses a ha data hresponse
  · obtain ⟨before, after, hsplit⟩ := List.append_of_mem ha
    have hsound := sound_of_reach (h.mono fun _ _ hact => hact.2)
    obtain ⟨b, hb, horigin⟩ := hsound.supported before a after data hsplit hcached
    have hmem : b ∈ s.answered := by
      rw [hsplit]
      exact List.mem_append_left _ hb
    rw [← horigin.key]
    exact hsite.responses b hmem data horigin.response

/-- A site with one page, which it has for the key of the request. -/
private def onePage (key : Bytes) : Bytes := if key = cacheKey pageRequest then shortPage else []

/-- The third worker gets the page of the site. -/
theorem answered_site_threeWorkers :
    ∃ a : Answered, a.answer = .cached shortPage ∧ shortPage = onePage (cacheKey a.req) := by
  obtain ⟨s, a, hs, ha, hcached⟩ := exists_threeWorkers
  have hread : ∀ now, ReadsFrom onePage (oneResponse shortPage now) pageRequest := by
    rintro now backendId resp ⟨⟩
    exact (if_pos rfl).symm
  have hsite : ∀ act ∈ threeWorkers, FromSite onePage act ∧ act.Alone := by
    simp only [threeWorkers, List.forall_mem_cons]
    exact ⟨⟨hread 1000, rfl⟩, ⟨hread 1001, rfl⟩, ⟨trivial, rfl⟩, ⟨trivial, rfl⟩, ⟨hread 60000, rfl⟩,
      fun _ h => nomatch h⟩
  have hreach := Machine.reachUnder_of_forall (.start gatewayStart_init) hsite hs
  exact ⟨a, hcached, answered_site hreach ha (.inr hcached)⟩

end Gateway
end Arws
