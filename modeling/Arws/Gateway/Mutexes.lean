import Arws.Cache.Table
import Arws.Library.LockOrder
import Mathlib.Data.List.FinRange

/-!
# The mutexes of the gateway

Every table of the gateway has a mutex, and every function that reads or changes one takes its mutex and releases
it on each of its ways out.  Three of them hold more than one at a time: `arws_config_load` registers the routes of
the file while it holds the configuration, `arws_upstream_create_pool` and `arws_upstream_get_all_pools` go into
the pools while they hold the list of pools, and the cache is cleared and swept under all of its shards.

A `Call` is a call of one of these functions on one of its ways, and `locking` what it does with mutexes.  The
time is that between start and stop: `arws_init`, the first `arws_config_load`, `arws_start` and `server_start`
have created the mutexes, and `arws_stop` has not been called.  So there is no call of a function that puts a
new mutex in the place of one (the `init` functions), or that only `arws_stop` comes to: `arws_upstream_cleanup`
destroys the mutexes of the pools, and `arws_close_all_backends` sends while it holds `registry_mutex`.

* `ordered_locking` — every call takes its mutexes in one order, and holds none when it waits or returns.
* `deadlock_free` — whatever threads call whatever of these functions, they never wait for one another in a
  circle, and one that waits for a mutex waits for a thread that goes on.
-/

set_option autoImplicit false

namespace Arws.Gateway

open LockOrder Arws.Cache

abbrev arwsMaxPools : Nat := 64

/-- The mutexes, each under its name in the source. -/
inductive Mutex
  | configMutex
  | routeMutex
  | upstreamGlobalMutex
  | poolMutex (i : Fin arwsMaxPools)
  | shardMutex (s : Fin cacheShards)
  | queryMutex
  | dispatchMutex
  | adminMutex
  | registryMutex
  | sessionMutex
  /-- `rl_mutex` of `arws_ratelimit.c`. -/
  | rlMutex
  | econnMutex
  | jobMutex
  | connLimitMutex
  deriving DecidableEq

/-- The order in which the mutexes are taken.  Only what is held together is told apart. -/
def Mutex.rank : Mutex → ℕ
  | .configMutex => 0
  | .routeMutex => 1
  | .upstreamGlobalMutex => 0
  | .poolMutex _ => 1
  | .shardMutex s => s
  | _ => 0

theorem Mutex.rank_lt (m : Mutex) : m.rank < cacheShards := by
  cases m with
  | shardMutex s => exact s.isLt
  | _ => simp [Mutex.rank, cacheShards]

/-! ## What the functions lock -/

/-- `ar_mutex_lock(m)`, what is done inside, and `ar_mutex_unlock(m)` on every way out. -/
def within (m : Mutex) (inside : List (Op Mutex)) : List (Op Mutex) := .lock m :: inside ++ [.unlock m]

/-- The mutex given up and taken again, `n` times: `ar_cond_wait`, or `ar_mutex_unlock`, `ar_sleep_ms` and
`ar_mutex_lock`. -/
def waiting (m : Mutex) (n : ℕ) : List (Op Mutex) := (List.replicate n [.unlock m, .sleep, .lock m]).flatten

/-- The mutexes of all shards, first to last, taken and then released. -/
def allShards : List (Op Mutex) :=
  (List.finRange cacheShards).map (fun s => .lock (.shardMutex s)) ++
    (List.finRange cacheShards).map fun s => .unlock (.shardMutex s)

/-- The calls of the functions that lock while the gateway runs, from where they lock on.  What a call does with mutexes can depend on the
state (`waits`, the turns of a loop that waits; `routes`, the routes that a file has; `pools`, the pools that are
in use): every choice is a call. -/
inductive Call
  -- arws_config.c
  | arwsConfigLoad (routes : ℕ)
  | arwsConfigGetPath
  | arwsConfigGetBindAddress
  | arwsConfigGetEffectiveMode
  | arwsConfigIsMaintenanceIp
  | arwsConfigAddOverride
  | arwsConfigRemoveOverride
  | arwsConfigSetGlobal
  | arwsConfigGetCacheTtl
  | arwsConfigSetCacheTtl
  | arwsConfigAddProxyRoute
  | arwsConfigAddStreamRoute
  | arwsConfigIsNoCache
  -- router_ex.c
  | arwsAddRedirectRoute
  | arwsAddRoute
  | arwsAddProxyRoute
  | arwsAddStreamRoute
  | arwsAddHandler
  | arwsRemoveRoute
  | arwsRemoveRoutesByBackend
  | arwsRouteMatch
  -- arws_upstream.c and arws_health.c
  | arwsUpstreamCreatePool (free : Option (Fin arwsMaxPools))
  | arwsUpstreamSetHealthParams (i : Fin arwsMaxPools)
  | arwsUpstreamAddNode (i : Fin arwsMaxPools)
  | arwsUpstreamRemoveNode (i : Fin arwsMaxPools)
  | arwsUpstreamSetNodeDrain (i : Fin arwsMaxPools)
  | arwsUpstreamGetAllPools (pools : List (Fin arwsMaxPools))
  | arwsUpstreamSelect (i : Fin arwsMaxPools)
  | arwsUpstreamRelease (i : Fin arwsMaxPools)
  | healthCheckWorker (i : Fin arwsMaxPools)
  -- arws_cache.c
  | arwsCacheGet (key : Bytes)
  | arwsCacheSet (key : Bytes)
  | arwsCacheClear
  | arwsCacheCleanup
  -- arws_gateway.c
  | queryLockFd (waits : ℕ)
  | queryUnlockFd
  | isQueryLocked
  | storeResponse
  | awaitResponse (waits : ℕ)
  | arwsDispatchLock (waits : ℕ)
  | arwsDispatchUnlock
  | addClientFd
  | removeClientFd
  | namedAdd
  | namedFind
  | namedRemove
  | forgetClient
  -- registry.c
  | arwsBackendCount
  | arwsRegisterBackend
  | arwsUnregisterBackend
  | arwsFindBackendIdByFd
  | arwsFindBackendByName
  | arwsGetBackendFd
  -- arws_session.c
  | arwsSessionCreate
  | arwsSessionVerify
  | arwsSessionDestroy
  | arwsSessionCleanup
  -- arws_ratelimit.c
  | arwsRatelimitSetRule
  | arwsRatelimitCheck
  | arwsRatelimitBlockIp
  -- server.c
  | econnAlloc
  | econnFree
  | poolPush (waits : ℕ)
  | poolPop (waits : ℕ)
  /-- `active_connections` read and changed, in `server_start` and `pool_worker`. -/
  | countConnection

/-- The mutex of the shard of a key. -/
def shardMutexOf (key : Bytes) : Mutex := .shardMutex ⟨getShard key, Nat.mod_lt _ (by decide)⟩

/-- What a call does with mutexes. -/
def locking : Call → List (Op Mutex)
  | .arwsConfigLoad routes => within .configMutex (List.replicate routes (within .routeMutex [])).flatten
  | .arwsConfigGetPath | .arwsConfigGetBindAddress | .arwsConfigGetEffectiveMode | .arwsConfigIsMaintenanceIp
  | .arwsConfigAddOverride | .arwsConfigRemoveOverride | .arwsConfigSetGlobal | .arwsConfigGetCacheTtl
  | .arwsConfigSetCacheTtl | .arwsConfigAddProxyRoute | .arwsConfigAddStreamRoute | .arwsConfigIsNoCache =>
    within .configMutex []
  | .arwsAddRedirectRoute | .arwsAddRoute | .arwsAddProxyRoute | .arwsAddStreamRoute
  | .arwsAddHandler | .arwsRemoveRoute | .arwsRemoveRoutesByBackend | .arwsRouteMatch =>
    within .routeMutex []
  -- a free place is set up under its own mutex
  | .arwsUpstreamCreatePool free =>
    within .upstreamGlobalMutex (free.toList.flatMap fun i => within (.poolMutex i) [])
  | .arwsUpstreamGetAllPools pools =>
    within .upstreamGlobalMutex (pools.flatMap fun i => within (.poolMutex i) [])
  | .arwsUpstreamSetHealthParams i | .arwsUpstreamAddNode i | .arwsUpstreamRemoveNode i
  | .arwsUpstreamSetNodeDrain i | .arwsUpstreamSelect i | .arwsUpstreamRelease i | .healthCheckWorker i =>
    within (.poolMutex i) []
  | .arwsCacheClear | .arwsCacheCleanup => allShards
  | .arwsCacheGet key | .arwsCacheSet key => within (shardMutexOf key) []
  | .queryLockFd waits | .awaitResponse waits => within .queryMutex (waiting .queryMutex waits)
  | .queryUnlockFd | .isQueryLocked | .storeResponse => within .queryMutex []
  | .arwsDispatchLock waits => within .dispatchMutex (waiting .dispatchMutex waits)
  | .arwsDispatchUnlock => within .dispatchMutex []
  | .addClientFd | .removeClientFd | .namedAdd | .namedFind | .namedRemove | .forgetClient =>
    within .adminMutex []
  | .arwsBackendCount | .arwsRegisterBackend | .arwsUnregisterBackend | .arwsFindBackendIdByFd
  | .arwsFindBackendByName | .arwsGetBackendFd =>
    within .registryMutex []
  | .arwsSessionCreate | .arwsSessionVerify | .arwsSessionDestroy | .arwsSessionCleanup =>
    within .sessionMutex []
  | .arwsRatelimitSetRule | .arwsRatelimitCheck | .arwsRatelimitBlockIp =>
    within .rlMutex []
  | .econnAlloc | .econnFree => within .econnMutex []
  | .poolPush waits | .poolPop waits => within .jobMutex (waiting .jobMutex waits)
  | .countConnection => within .connLimitMutex []

/-! ## Every call is in order -/

variable {m : Mutex} {held : List Mutex} {inside : List (Op Mutex)}

theorem run_within (habove : ∀ h ∈ held, h.rank < m.rank)
    (hinside : run Mutex.rank (m :: held) inside = some (m :: held)) :
    run Mutex.rank held (within m inside) = some held := by
  have hlock : next Mutex.rank held (.lock m) = some (m :: held) := if_pos habove
  have hunlock : run Mutex.rank (m :: held) [.unlock m] = some held := by simp [run, next]
  rw [within, List.cons_append, run_cons, hlock, Option.bind_some, run_append, hinside, Option.bind_some, hunlock]

theorem ordered_within (hinside : run Mutex.rank [m] inside = some [m]) : Ordered Mutex.rank (within m inside) :=
  run_within (by simp) hinside

/-- Nothing else is held by one that waits. -/
theorem run_waiting (m : Mutex) (n : ℕ) : run Mutex.rank [m] (waiting m n) = some [m] :=
  run_loop (by simp [run, next]) n

theorem ordered_allShards : Ordered Mutex.rank allShards := by decide

theorem ordered_locking (c : Call) : Ordered Mutex.rank (locking c) := by
  have hpools : ∀ pools : List (Fin arwsMaxPools), run Mutex.rank [.upstreamGlobalMutex]
      (pools.flatMap fun i => within (.poolMutex i) []) = some [.upstreamGlobalMutex] :=
    fun pools => run_flatMap fun i _ => run_within (by simp [Mutex.rank]) rfl
  cases c with
  | arwsConfigLoad routes => exact ordered_within (run_loop (run_within (by simp [Mutex.rank]) rfl) routes)
  | arwsUpstreamCreatePool free => exact ordered_within (hpools free.toList)
  | arwsUpstreamGetAllPools pools => exact ordered_within (hpools pools)
  | arwsCacheClear | arwsCacheCleanup => exact ordered_allShards
  | queryLockFd waits | awaitResponse waits | arwsDispatchLock waits | poolPush waits | poolPop waits =>
    exact ordered_within (run_waiting _ waits)
  | _ => exact ordered_within rfl

/-! ## The threads -/

variable {W : Type*} [DecidableEq W]

/-- **No deadlock** between start and stop.  Whatever threads call whatever of the functions in whatever order,
they never wait for one another in a circle; and a thread that waits for a mutex waits, directly or through
others, for one that goes on. -/
theorem deadlock_free {s : State Mutex W} (h : (threads W locking).Reach s) :
    ¬ Circular (Waits s) ∧
      ∀ w v, Waits s w v → ∃ u, Relation.ReflTransGen (Waits s) v u ∧ Goes locking s u := by
  have hsound := sound_of_reach ordered_locking h
  exact ⟨hsound.not_circular, fun w v hw => hsound.exists_goes Mutex.rank_lt hw⟩

/-- While one thread loads a configuration of one route, a second one looks a route up, and a third one asks for
the path of the configuration. -/
private def loadAndMatch : List (Act ℕ Call) :=
  [.call 0 (.arwsConfigLoad 1), .go 0, .call 1 .arwsRouteMatch, .go 1, .call 2 .arwsConfigGetPath]

/-- The third thread waits for the first, and the first for the second. -/
theorem deadlock_free_loadAndMatch : ∃ s : State Mutex ℕ, Waits s 2 0 ∧ Waits s 0 1 ∧ ¬ Circular (Waits s) ∧
    ∃ u, Relation.ReflTransGen (Waits s) 0 u ∧ Goes locking s u := by
  obtain ⟨s, hs, hview⟩ := Option.map_eq_some_iff.1
    (show ((threads ℕ locking).runUnder (fun _ _ => True) ⟨fun _ => none, fun _ => []⟩ loadAndMatch).map
      (fun s => (s.ops 2, s.owner .configMutex, s.ops 0, s.owner .routeMutex)) =
        some (within .configMutex [], some 0, within .routeMutex [] ++ [.unlock .configMutex], some 1) by decide)
  have hreach := Machine.reachUnder_of_runUnder (M := threads ℕ locking) (.start rfl) hs
  simp only [Prod.mk.injEq] at hview
  obtain ⟨hthird, hconfig, hfirst, hroute⟩ := hview
  have hwait : Waits s 2 0 := ⟨_, _, hthird, hconfig⟩
  have hfree := deadlock_free hreach
  exact ⟨s, hwait, ⟨_, _, hfirst, hroute⟩, hfree.1, hfree.2 2 0 hwait⟩

end Arws.Gateway
