import Arws.Backend.Response
import Arws.Cache.Completeness
import Arws.Cache.Striping
import Arws.Router.Route
import Arws.Server.Forward
import Arws.Upstream.Pool

/-!
# Dispatching a request

`dispatcher.c`: the route of the request is looked up, and the request is answered with 404, given
to a handler, redirected, forwarded to the target of a proxy route, or sent to a backend, whose
response is stored in the cache if it may be.

What the calls to others return is an argument of `arwsDispatch` (`DispatchEnv`); the tables they
work on are its state.  There is no result where the code is undefined.

* `replayed_iff_length` — what is stored depends on the length of the header block and on nothing in it.
* `cookiesKeptOut_iff` — so no response with a cookie is stored, and hardly any other one.
-/

set_option autoImplicit false

namespace Arws
namespace Gateway

open CString Cache Probing Router Server Upstream

/-- How a request is answered. -/
inductive Answer
  | notFound
  | handler
  | redirect (targetUrl : Bytes)
  | unavailable (text : Bytes)
  | badGateway (text : Bytes)
  /-- `arws_stream_proxy_forward` answers. -/
  | forwarded (target : Bytes)
  /-- A response from the cache. -/
  | cached (data : Bytes)
  | response (resp : Bytes)
  deriving DecidableEq

/-- The tables a dispatch works on. -/
structure Tables where
  rrCounter : Int
  pools : List ArwsUpstreamPool
  cache : Table

/-- What a dispatch comes to. -/
structure Outcome where
  answer : Answer
  /-- The pool and the node that `arws_upstream_select` points to, if it is called and does. -/
  selected : Option (Nat × Nat)
  result : Int
  deriving DecidableEq

structure DispatchEnv where
  routes : RouteTable
  clientIp : Bytes
  /-- `arws_config_is_no_cache`, for a host and a path. -/
  isNoCache : Bytes → Bytes → Bool
  /-- `arws_config_get_cache_ttl`. -/
  configCacheTtl : Int
  /-- What `arws_stream_proxy_forward` returns for a target. -/
  forward : Bytes → Int
  /-- What `arws_backend_send_request` returns for a backend and a request. -/
  sendRequest : Int → Bytes → Int
  /-- What `arws_backend_read_response` reads from a backend, if anything. -/
  readResponse : Int → Option Bytes
  /-- What `resp_buf` holds before. -/
  stack : Bytes
  /-- The clock at the call of `arws_cache_get` and at that of `arws_cache_set`. -/
  getNow : Nat
  setNow : Nat
  /-- There is memory for the cache. -/
  alloc : Bool

/-! ## The parts -/

/-- The text behind the last dot, if there is one. -/
def extension (path : Bytes) : Option Bytes :=
  if path.contains 46 then some (path.reverse.takeWhile (· != 46)).reverse else none

/-- `is_static_path`. -/
def isStaticPath (path : Bytes) : Bool :=
  (extension path).any fun ext =>
    ["css", "js", "png", "jpg", "jpeg", "gif", "svg", "ico", "woff", "woff2", "ttf", "webp",
      "pdf"].any fun e => strcaseeq ext (ascii e)

/-- A letter as `header_name_eq` compares it. -/
def toUpper (c : UInt8) : UInt8 := if 97 ≤ c && c ≤ 122 then c - 32 else c

/-- `header_name_eq`. -/
def headerNameEq (p name : Bytes) (nlen : Nat) : Bool :=
  (p.take nlen).map toUpper == (name.take nlen).map toUpper

/-- `hlen` of `response_has_set_cookie`. -/
def headerBlockLength (buf : Bytes) : Nat := (strstr crlfcrlf buf).getD buf.length

/-- `response_has_set_cookie`, with its test as it stands in the code: a name that is equal compares
as 1. -/
def responseHasSetCookie (buf : Bytes) : Bool :=
  (List.range (headerBlockLength buf - 10)).any fun i =>
    !headerNameEq (buf.drop i) (ascii "Set-Cookie") 10

/-- The test on a response before it is stored.  Of a response of 9 bytes the byte behind it is
looked at as well. -/
def mayBeStored (stack resp : Bytes) : Bool :=
  decide (9 ≤ resp.length) && (ascii "HTTP/1.1 ").isPrefixOf resp &&
    (Backend.memory stack resp)[9]? == some 50 && !responseHasSetCookie resp

/-- `use_cache`. -/
def useCache (env : DispatchEnv) (req : HttpRequest) : Bool :=
  req.method == ascii "GET" && !env.isNoCache req.host req.path &&
    (isStaticPath req.path || decide (env.configCacheTtl > 0))

/-- `cache_key`. -/
def cacheKey (req : HttpRequest) : Bytes :=
  arwsCacheMakeKey 512 (some req.method) (some req.host) (some req.path) req.queryParams

/-- `final_target` for a node. -/
def nodeTarget (node : ArwsBackendNode) : Bytes :=
  (ascii "http://" ++ node.host ++ ascii ":" ++ printDecimal node.port).take 255

/-- A request for a route with a target. -/
def dispatchTarget (env : DispatchEnv) (proxyTarget : Bytes) (s : Tables) :
    Option (Tables × Outcome) :=
  match proxyTarget with
  | 64 :: poolName => (arwsUpstreamSelect s.pools poolName env.clientIp).bind fun (pools, selected) =>
    match selected with
    | none => some ({ s with pools := pools },
        ⟨.unavailable (ascii "No healthy backend available in upstream pool"), none, 0⟩)
    | some (p, i) => (pools[p]?.bind fun pool => pool.nodes[i]?).map fun node =>
        ({ s with pools := pools },
          ⟨.forwarded (nodeTarget node), some (p, i), env.forward (nodeTarget node)⟩)
  | target => some (s, ⟨.forwarded (target.take 255), none, env.forward (target.take 255)⟩)

/-- The request is sent to the backend, and its response is stored and passed on. -/
def exchange (env : DispatchEnv) (backendId : Int) (req : HttpRequest) (raw : Bytes)
    (s : Tables) : Tables × Outcome :=
  if env.sendRequest backendId raw < 0 then
    (s, ⟨.badGateway (ascii "Backend unavailable"), none, -1⟩)
  else match env.readResponse backendId with
    | none | some [] => (s, ⟨.badGateway (ascii "Backend error"), none, -1⟩)
    | some resp =>
      if useCache env req && mayBeStored env.stack resp then
        ({ s with cache := (arwsCacheSet s.cache (cacheKey req) resp env.setNow env.alloc).1 },
          ⟨.response resp, none, 0⟩)
      else (s, ⟨.response resp, none, 0⟩)

/-- A request for a route with a backend. -/
def dispatchBackend (env : DispatchEnv) (backendId : Int) (req : HttpRequest) (s : Tables) :
    Option (Tables × Outcome) :=
  match arwsBuildHttpRequest env.clientIp req 32768 with
  | .error .undefined => none
  | .error .failed => some (s, ⟨.badGateway (ascii "Bad Gateway"), none, -1⟩)
  | .ok (head, body) =>
    if useCache env req then
      match arwsCacheGet s.cache (cacheKey req) env.getNow env.alloc with
      | (_, .fault) => none
      | (cache, .hit data) => some ({ s with cache := cache }, ⟨.cached data, none, 0⟩)
      | (cache, .miss) => some (exchange env backendId req (head ++ body) { s with cache := cache })
    else some (exchange env backendId req (head ++ body) s)

/-- `arws_dispatch`. -/
def arwsDispatch (env : DispatchEnv) (req : HttpRequest) (effectiveMode : Bytes)
    (s : Tables) : Option (Tables × Outcome) :=
  (arwsRouteMatch env.routes s.rrCounter req effectiveMode).bind fun (rrCounter, route) =>
    let s := { s with rrCounter := rrCounter }
    match route with
    | none => some (s, ⟨.notFound, none, 0⟩)
    | some route =>
      if route.useHandler then some (s, ⟨.handler, none, 0⟩)
      else if route.useRedirect ∧ route.redirectTarget.text ≠ [] then
        some (s, ⟨.redirect route.redirectTarget.text, none, 0⟩)
      else if route.proxyTarget.text ≠ [] then dispatchTarget env route.proxyTarget.text s
      else if route.backendId ≥ 0 then dispatchBackend env route.backendId req s
      else some (s, ⟨.notFound, none, 0⟩)

/-! ## What is stored -/

/-- A header line with the name, in any letter case. -/
def isSetCookieLine (line : Bytes) : Bool :=
  line.contains 58 && strcaseeq (line.takeWhile (· != 58)) (ascii "Set-Cookie")

/-- The bytes before the first empty line. -/
def headerBlock (resp : Bytes) : Bytes := resp.take (headerBlockLength resp)

/-- The lines of the header block behind the status line hold a `Set-Cookie`. -/
def HasSetCookie (resp : Bytes) : Prop :=
  ∃ line ∈ (splitLines (headerBlock resp)).tail, isSetCookieLine line = true

instance (resp : Bytes) : Decidable (HasSetCookie resp) :=
  inferInstanceAs (Decidable (∃ line ∈ (splitLines (headerBlock resp)).tail,
    isSetCookieLine line = true))

/-- The response to a request is in the cache: it is what a look-up yields from now on. -/
def Replayed (env : DispatchEnv) (req : HttpRequest) (s : Tables) (resp : Bytes) : Prop :=
  (arwsCacheGet s.cache (cacheKey req) env.setNow true).2 = .hit resp

instance (env : DispatchEnv) (req : HttpRequest) (s : Tables) (resp : Bytes) :
    Decidable (Replayed env req s resp) :=
  inferInstanceAs (Decidable (_ = _))

/-- **What the exclusion is for**: the response is stored if it sets no cookie, and only then. -/
def CookiesKeptOut (env : DispatchEnv) (req : HttpRequest) (s : Tables) (resp : Bytes) :
    Prop :=
  Replayed env req s resp ↔ ¬ HasSetCookie resp

/-- A response with a status line has no `Set-Cookie` at its start, and that is what the loop takes
for one. -/
theorem responseHasSetCookie_iff {resp : Bytes} (h : ascii "HTTP/1.1 " <+: resp) :
    responseHasSetCookie resp = true ↔ 10 < headerBlockLength resp := by
  rw [responseHasSetCookie, List.any_eq_true]
  constructor
  · rintro ⟨i, hi, -⟩
    have := List.mem_range.1 hi
    omega
  · intro hlen
    refine ⟨0, List.mem_range.2 (by omega), ?_⟩
    obtain ⟨rest, rfl⟩ := h
    simp [headerNameEq, ascii, toUpper]

theorem length_le_of_mem_splitLines {line : Bytes} : ∀ {s : Bytes}, line ∈ splitLines s →
    line.length ≤ s.length
  | [], h => by simp_all [splitLines]
  | [c], h => by simp_all [splitLines]
  | c :: d :: s, h => by
    rw [splitLines] at h
    split at h
    · rcases List.mem_cons.1 h with rfl | h
      · exact Nat.zero_le _
      · have := length_le_of_mem_splitLines h
        simp only [List.length_cons]
        omega
    · split at h
      · rename_i first rest hs
        have ih : ∀ l ∈ first :: rest, l.length ≤ (d :: s).length := fun l hl =>
          length_le_of_mem_splitLines (hs ▸ hl)
        rcases List.mem_cons.1 h with rfl | h
        · have := ih first List.mem_cons_self
          simp only [List.length_cons] at this ⊢
          omega
        · have := ih line (List.mem_cons_of_mem _ h)
          simp only [List.length_cons] at this ⊢
          omega
      · rw [List.mem_singleton.1 h]
        simp

/-- A header line with a name of ten letters does not fit into ten bytes. -/
theorem headerBlockLength_of_hasSetCookie {resp : Bytes} (h : HasSetCookie resp) :
    10 < headerBlockLength resp := by
  obtain ⟨line, hmem, hline⟩ := h
  rw [isSetCookieLine, Bool.and_eq_true] at hline
  obtain ⟨hcolon, hname⟩ := hline
  have hten : (line.takeWhile (· != 58)).length = 10 := by
    have := congrArg List.length (beq_iff_eq.1 hname)
    simpa [ascii] using this
  have hlt : (line.takeWhile (· != 58)).length < line.length := by
    refine lt_of_le_of_ne (List.takeWhile_prefix _).length_le fun he => ?_
    have hall := List.takeWhile_eq_self_iff.1 ((List.takeWhile_prefix _).eq_of_length he)
    have := hall 58 (List.contains_iff_mem.1 hcolon)
    simp at this
  have hle := length_le_of_mem_splitLines (List.mem_of_mem_tail hmem)
  rw [headerBlock, List.length_take] at hle
  omega

/-! ## What a look-up yields -/

section Table

variable {c : Table} {key data : Bytes} {now : Nat}

theorem arwsCacheGet_of_free {slot : Cache.Slot} (hf : findSlot c key = some slot)
    (hfree : (c.cache slot).inUse = false) (now : Nat) (alloc : Bool) :
    (arwsCacheGet c key now alloc).2 = .miss := by
  rw [arwsCacheGet, hf]
  simp [hfree]

/-- The probing for a key ends where it did, when a key was put there or the entry was freed. -/
theorem findSlot_setEntry {slot : Cache.Slot} {e : CacheEntry}
    (hbefore : ∀ i, i < dist (homeSlot key) slot →
      (c.cache (probe (homeSlot key) i)).inUse = true ∧
        (c.cache (probe (homeSlot key) i)).key ≠ key)
    (he : e.inUse = false ∨ e.key = key) :
    findSlot (c.setEntry slot e) key = some slot := by
  rw [findSlot, firstStop_eq_some_iff]
  refine ⟨by rw [setEntry_self]; rcases he with he | he <;> simp [he], fun i hi => ?_⟩
  have hne : probe (homeSlot key) i ≠ slot := by
    intro h
    rw [← h, dist_probe _ (hi.trans (dist_lt _ _))] at hi
    exact absurd hi (Nat.lt_irrefl i)
  obtain ⟨huse, hkey⟩ := hbefore i hi
  rw [setEntry_of_ne _ _ hne, huse]
  simpa using hkey

theorem before_of_findSlot {slot : Cache.Slot} (hf : findSlot c key = some slot) (i : Nat)
    (hi : i < dist (homeSlot key) slot) :
    (c.cache (probe (homeSlot key) i)).inUse = true ∧ (c.cache (probe (homeSlot key) i)).key ≠ key := by
  have := (firstStop_eq_some_iff.1 hf).2 i hi
  simpa using this

/-- What was not found is not there. -/
theorem arwsCacheGet_miss_miss (hmiss : (arwsCacheGet c key now true).2 = .miss) (later : Nat)
    (alloc : Bool) :
    (arwsCacheGet (arwsCacheGet c key now true).1 key later alloc).2 = .miss := by
  obtain ⟨slot, hf, -, htable⟩ | ⟨hkept, htable⟩ := arwsCacheGet_table c key now true
  · rw [htable]
    exact arwsCacheGet_of_free (findSlot_setEntry (before_of_findSlot hf) (Or.inl rfl))
      (by rw [setEntry_self]; rfl) later alloc
  · rw [htable]
    cases hf : findSlot c key with
    | none => rw [arwsCacheGet, hf]
    | some slot =>
      cases huse : (c.cache slot).inUse with
      | false => exact arwsCacheGet_of_free hf huse later alloc
      | true =>
        have hfresh : (c.cache slot).expired now = false := by
          simpa [swept, huse] using hkept slot hf
        rw [arwsCacheGet, hf] at hmiss
        cases hd : (c.cache slot).data <;> simp [huse, hfresh, hd] at hmiss

theorem not_expired_now (ttl : Int) (now : Nat) : expired ttl now now = false := by
  have : elapsed now now = 0 := by
    rw [elapsed, show now + 2 ^ 64 - now = 2 ^ 64 by omega, Nat.mod_self]
  simp [expired, this]

theorem arwsCacheGet_newEntry {slot : Cache.Slot} {ttl : Int} (hlen : key.length ≤ 511)
    (hbefore : ∀ i, i < dist (homeSlot key) slot →
      (c.cache (probe (homeSlot key) i)).inUse = true ∧
        (c.cache (probe (homeSlot key) i)).key ≠ key) :
    (arwsCacheGet (c.setEntry slot (newEntry key data now ttl)) key now true).2 = .hit data := by
  have hkey : (newEntry key data now ttl).key = key := List.take_of_length_le hlen
  rw [arwsCacheGet, findSlot_setEntry hbefore (Or.inr hkey)]
  simp [newEntry, CacheEntry.expired, not_expired_now]

/-- What was stored is found. -/
theorem arwsCacheGet_arwsCacheSet (hdata : data ≠ []) (hlen : key.length ≤ 511)
    (httl : 0 < c.cacheTtl) :
    (arwsCacheGet (arwsCacheSet c key data now true).1 key now true).2 = .hit data := by
  have hd : data.length ≠ 0 := fun h => hdata (List.length_eq_zero_iff.1 h)
  cases hf : findSlot c key with
  | some slot =>
    rw [arwsCacheSet_of_findSlot hd httl hf]
    exact arwsCacheGet_newEntry hlen (before_of_findSlot hf)
  | none =>
    -- every slot holds another key, and one of them makes room
    have hstop := firstStop_eq_none_iff.1 hf
    have hother : ∀ slot, (c.cache slot).inUse = true ∧ (c.cache slot).key ≠ key := fun slot => by
      simpa using hstop slot
    obtain ⟨slot, hvictim, -⟩ := evictVictim_isVictim now fun slot => (hother slot).1
    rw [arwsCacheSet, if_neg hd, if_neg (by omega), slotForSet, hf, evictOne, hvictim]
    refine arwsCacheGet_newEntry hlen fun i hi => ?_
    have hne : probe (homeSlot key) i ≠ slot := by
      intro h
      rw [← h, dist_probe _ (hi.trans (dist_lt _ _))] at hi
      exact absurd hi (Nat.lt_irrefl i)
    rw [setEntry_of_ne _ _ hne]
    exact hother _

end Table

section Dispatch

variable {env : DispatchEnv} {req : HttpRequest} {mode resp : Bytes} {s s' : Tables}
  {out : Outcome}

/-- A request for a target is not answered with a response from a backend. -/
theorem dispatchTarget_answer {proxyTarget : Bytes}
    (h : dispatchTarget env proxyTarget s = some (s', out)) : out.answer ≠ .response resp := by
  unfold dispatchTarget at h
  split at h
  · obtain ⟨⟨pools, selected⟩, -, h⟩ := Option.bind_eq_some_iff.1 h
    cases selected with
    | none =>
      cases h
      exact Answer.noConfusion
    | some node =>
      obtain ⟨n, -, h⟩ := Option.map_eq_some_iff.1 h
      cases h
      exact Answer.noConfusion
  · cases h
    exact Answer.noConfusion

theorem exchange_response {backendId : Int} {raw : Bytes}
    (h : exchange env backendId req raw s = (s', out)) (hans : out.answer = .response resp) :
    resp ≠ [] ∧ s'.cache =
      if useCache env req && mayBeStored env.stack resp then
        (arwsCacheSet s.cache (cacheKey req) resp env.setNow env.alloc).1
      else s.cache := by
  rw [exchange] at h
  split at h
  · cases h
    cases hans
  · split at h
    · cases h
      cases hans
    · cases h
      cases hans
    · rename_i r hr _
      split_ifs at h with hstore
      · cases h
        cases hans
        exact ⟨fun he => by simp_all, (if_pos hstore).symm⟩
      · cases h
        cases hans
        exact ⟨fun he => by simp_all, (if_neg hstore).symm⟩

/-- **What comes before a response**: the look-up found nothing, and the response is stored if it may
be. -/
theorem dispatchBackend_response {backendId : Int}
    (h : dispatchBackend env backendId req s = some (s', out)) (hans : out.answer = .response resp)
    (huse : useCache env req = true) :
    resp ≠ [] ∧ (arwsCacheGet s.cache (cacheKey req) env.getNow env.alloc).2 = .miss ∧
      s'.cache =
        if mayBeStored env.stack resp then
          (arwsCacheSet (arwsCacheGet s.cache (cacheKey req) env.getNow env.alloc).1 (cacheKey req)
            resp env.setNow env.alloc).1
        else (arwsCacheGet s.cache (cacheKey req) env.getNow env.alloc).1 := by
  rw [dispatchBackend] at h
  split at h
  · cases h
  · cases h
    cases hans
  · rw [if_pos huse] at h
    split at h
    · cases h
    · cases h
      cases hans
    · rename_i cache hget
      obtain ⟨hne, hcache⟩ := exchange_response (Option.some_inj.1 h) hans
      rw [huse, Bool.true_and] at hcache
      rw [hget]
      exact ⟨hne, rfl, hcache⟩

theorem arwsDispatch_response (h : arwsDispatch env req mode s = some (s', out))
    (hans : out.answer = .response resp) :
    ∃ rrCounter backendId,
      dispatchBackend env backendId req { s with rrCounter := rrCounter } = some (s', out) := by
  rw [arwsDispatch] at h
  obtain ⟨⟨rrCounter, route⟩, -, h⟩ := Option.bind_eq_some_iff.1 h
  cases route with
  | none =>
    cases h
    cases hans
  | some route =>
    simp only at h
    split_ifs at h with hhandler hredirect htarget hbackend
    · cases h
      cases hans
    · cases h
      cases hans
    · exact absurd hans (dispatchTarget_answer h)
    · exact ⟨rrCounter, route.backendId, h⟩
    · cases h
      cases hans

theorem mayBeStored_iff {stack : Bytes} (h : ascii "HTTP/1.1 2" <+: resp) :
    mayBeStored stack resp = true ↔ headerBlockLength resp ≤ 10 := by
  have hstatus : ascii "HTTP/1.1 " <+: resp := (by decide : ascii "HTTP/1.1 " <+: _).trans h
  have hset := responseHasSetCookie_iff hstatus
  obtain ⟨rest, rfl⟩ := h
  have hlen : 9 ≤ (ascii "HTTP/1.1 2" ++ rest).length := by
    rw [List.length_append]
    exact Nat.le_add_right_of_le (by decide)
  have hnine : (Backend.memory stack (ascii "HTTP/1.1 2" ++ rest))[9]? = some 50 := by
    simp [Backend.memory, ascii]
  rw [mayBeStored, hnine, List.isPrefixOf_iff_prefix.2 hstatus, decide_eq_true hlen]
  rw [← not_iff_not, Nat.not_le, ← hset]
  cases responseHasSetCookie (ascii "HTTP/1.1 2" ++ rest) <;> decide

theorem length_cacheKey_le (req : HttpRequest) : (cacheKey req).length ≤ 511 := by
  rw [cacheKey, arwsCacheMakeKey, List.length_take]
  exact Nat.min_le_left _ _

/-- **A response is stored if and only if its header block has at most ten bytes**, whatever is in
it. -/
theorem replayed_iff_length (h : arwsDispatch env req mode s = some (s', out))
    (hans : out.answer = .response resp) (huse : useCache env req = true)
    (hstatus : ascii "HTTP/1.1 2" <+: resp) (httl : 0 < s.cache.cacheTtl)
    (halloc : env.alloc = true) :
    Replayed env req s' resp ↔ headerBlockLength resp ≤ 10 := by
  obtain ⟨rrCounter, backendId, hback⟩ := arwsDispatch_response h hans
  obtain ⟨hne, hmiss, hcache⟩ := dispatchBackend_response hback hans huse
  simp only [halloc] at hmiss hcache
  rw [Replayed, hcache, ← @mayBeStored_iff _ env.stack hstatus]
  cases hstore : mayBeStored env.stack resp with
  | true =>
    rw [if_pos rfl]
    refine iff_of_true (arwsCacheGet_arwsCacheSet hne (length_cacheKey_le req) ?_) rfl
    obtain ⟨slot, -, -, htable⟩ | ⟨-, htable⟩ :=
      arwsCacheGet_table s.cache (cacheKey req) env.getNow true
    · rw [htable]
      exact httl
    · rw [htable]
      exact httl
  | false =>
    rw [if_neg Bool.false_ne_true, arwsCacheGet_miss_miss hmiss]
    exact iff_of_false (fun he => by cases he) Bool.false_ne_true

/-- **Responses with cookies are kept out, and nearly all others with them**: a response to a
cacheable `GET` request is stored as it should be if and only if it sets a cookie, or its header
block has at most ten bytes. -/
theorem cookiesKeptOut_iff (h : arwsDispatch env req mode s = some (s', out))
    (hans : out.answer = .response resp) (huse : useCache env req = true)
    (hstatus : ascii "HTTP/1.1 2" <+: resp) (httl : 0 < s.cache.cacheTtl)
    (halloc : env.alloc = true) :
    CookiesKeptOut env req s' resp ↔ HasSetCookie resp ∨ headerBlockLength resp ≤ 10 := by
  rw [CookiesKeptOut, replayed_iff_length h hans huse hstatus httl halloc]
  by_cases hset : HasSetCookie resp
  · have := headerBlockLength_of_hasSetCookie hset
    exact iff_of_true (iff_of_false (by omega) (not_not_intro hset)) (Or.inl hset)
  · simp only [hset, not_false_eq_true, iff_true, false_or]

end Dispatch

/-- A backend that answers every request on every host with the text. -/
private def answering (text : String) : DispatchEnv where
  routes := (arwsAddRoute (fun _ => []) (some .zero) (ascii "*") (ascii "*") none none 1).1
  clientIp := ascii "10.0.0.1"
  isNoCache _ _ := false
  configCacheTtl := 60
  forward _ := -1
  sendRequest _ raw := raw.length
  readResponse _ := some (ascii text)
  stack := []
  getNow := 0
  setNow := 0
  alloc := true

private def getRequest : HttpRequest :=
  ⟨ascii "GET", ascii "/", none, [], [], ascii "a", [], 0⟩

private def atStart : Tables := ⟨0, [], CacheState.start.cache⟩

private theorem answering_response (text : String)
    (h : (arwsDispatch (answering text) getRequest (ascii "production") atStart).map (·.2) =
      some ⟨.response (ascii text), none, 0⟩) :
    ∃ s' out, arwsDispatch (answering text) getRequest (ascii "production") atStart =
      some (s', out) ∧ out.answer = .response (ascii text) := by
  obtain ⟨⟨s', out⟩, hs, rfl⟩ := Option.map_eq_some_iff.1 h
  exact ⟨s', _, hs, rfl⟩

/-- A response with a cookie is not stored. -/
theorem cookiesKeptOut_of_cookie :
    ∃ s', CookiesKeptOut (answering "HTTP/1.1 200 OK\r\nset-cookie: a=b\r\n\r\n") getRequest s'
      (ascii "HTTP/1.1 200 OK\r\nset-cookie: a=b\r\n\r\n") := by
  obtain ⟨s', out, hs, hans⟩ := answering_response
    "HTTP/1.1 200 OK\r\nset-cookie: a=b\r\n\r\n" (by decide +kernel)
  exact ⟨s', (cookiesKeptOut_iff hs hans (by decide +kernel) (by decide +kernel) (by decide)
    (by decide)).2 (Or.inl (by decide +kernel))⟩

/-- **A plain response is not stored**: `header_name_eq` returns 1 for names that are equal, and
`response_has_set_cookie` takes any ten bytes that are not `Set-Cookie` for a cookie. -/
theorem not_cookiesKeptOut :
    ¬ ∀ (env : DispatchEnv) req mode s s' out resp, arwsDispatch env req mode s = some (s', out) →
      out.answer = .response resp → useCache env req = true → ascii "HTTP/1.1 2" <+: resp →
      0 < s.cache.cacheTtl → env.alloc = true → CookiesKeptOut env req s' resp := by
  intro h
  obtain ⟨s', out, hs, hans⟩ := answering_response "HTTP/1.1 200 OK\r\n\r\n" (by decide +kernel)
  have huse : useCache (answering "HTTP/1.1 200 OK\r\n\r\n") getRequest = true := by decide +kernel
  have hstatus : ascii "HTTP/1.1 2" <+: ascii "HTTP/1.1 200 OK\r\n\r\n" := by decide +kernel
  have hkept := h _ _ _ _ _ _ _ hs hans huse hstatus (by decide) (by decide)
  rw [CookiesKeptOut, replayed_iff_length hs hans huse hstatus (by decide) (by decide)] at hkept
  exact absurd hkept (by decide +kernel)

end Gateway
end Arws
