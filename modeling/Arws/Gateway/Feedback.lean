import Mathlib.Algebra.BigOperators.Group.List.Basic
import Mathlib.Data.List.DropRight
import Arws.Gateway.Dispatcher

/-!
# What the dispatcher tells the load balancer

A node that `arws_upstream_select` has handed out counts one connection until it is handed back with
`arws_upstream_release`, which also counts its failures.  `arws_dispatch` never hands one back.

`fedBack_iff` — over a run of requests for routes with a pool, the connections are as before in the
end exactly when no request found a node.
-/

set_option autoImplicit false

namespace Arws
namespace Gateway

open CString Router Server Upstream

/-- A request as it comes to `arws_dispatch`. -/
structure DispatchCall where
  env : DispatchEnv
  req : HttpRequest
  effectiveMode : Bytes

def DispatchCall.dispatch (call : DispatchCall) (s : Tables) :
    Option (Tables × Outcome) :=
  arwsDispatch call.env call.req call.effectiveMode s

/-- The requests, one after the other. -/
def dispatchAll : List DispatchCall → Tables → Option (Tables × List Outcome)
  | [], s => some (s, [])
  | call :: calls, s => (call.dispatch s).bind fun (s, out) =>
    (dispatchAll calls s).map fun (s, outs) => (s, out :: outs)

/-- The name of the pool of a route. -/
def routePool? (route : ArwsRoute) : Option Bytes :=
  if route.useHandler ∨ route.useRedirect ∧ route.redirectTarget.text ≠ [] then none
  else match route.proxyTarget.text with
    | 64 :: poolName => some poolName
    | _ => none

/-- The pool that the route of a request names. -/
def DispatchCall.pool? (call : DispatchCall) (s : Tables) : Option Bytes :=
  (arwsRouteMatch call.env.routes s.rrCounter call.req call.effectiveMode).bind fun m =>
    m.2.bind routePool?

/-- Every request is served through a route with a pool. -/
def AllPooled : List DispatchCall → Tables → Prop
  | [], _ => True
  | call :: calls, s => (call.pool? s).isSome = true ∧
      ∀ r ∈ call.dispatch s, AllPooled calls r.1

/-- The pool with the name has a node to select. -/
def HasNode (pools : List ArwsUpstreamPool) (poolName : Bytes) : Prop :=
  ∃ p pool, arwsUpstreamGetPool pools poolName = some p ∧ pools[p]? = some pool ∧ pool.Selectable

/-- No request finds a node in its pool. -/
def NoneServed : List DispatchCall → Tables → Prop
  | [], _ => True
  | call :: calls, s => (∀ poolName ∈ call.pool? s, ¬ HasNode s.pools poolName) ∧
      ∀ r ∈ call.dispatch s, NoneServed calls r.1

/-- `active_conns` of all nodes. -/
def Tables.conns (s : Tables) : List (List Int) := s.pools.map (·.conns)

/-- As many forwards to the node as its threshold says have failed, and none since. -/
def Tripped (outs : List Outcome) (node : Nat × Nat) (fallThreshold : Int) : Prop :=
  fallThreshold ≤
    ((outs.filter fun out => out.selected = some node).rtakeWhile fun out => out.result = -1).length

instance (outs : List Outcome) (node : Nat × Nat) (fallThreshold : Int) :
    Decidable (Tripped outs node fallThreshold) :=
  inferInstanceAs (Decidable (_ ≤ _))

/-- **What the load balancer is to be told**: every connection is over when the dispatch is, and a
node that fails again and again is not selected any more. -/
structure FedBack (s s' : Tables) (outs : List Outcome) : Prop where
  conns : s'.conns = s.conns
  tripped : ∀ seen out later p i pool, outs = seen ++ out :: later → s.pools[p]? = some pool →
    Tripped seen (p, i) pool.fallThreshold → out.selected ≠ some (p, i)

/-! ## One request -/

/-- The connections of all pools. -/
def Tables.total (s : Tables) : Int := (s.conns.map List.sum).sum

theorem sum_modify (l : List Int) {i : Nat} (hi : i < l.length) :
    (l.modify i (· + 1)).sum = l.sum + 1 := by
  induction l generalizing i with
  | nil => cases hi
  | cons a l ih =>
    cases i with
    | zero =>
      rw [List.modify_zero_cons, List.sum_cons, List.sum_cons]
      omega
    | succ i =>
      rw [List.modify_succ_cons, List.sum_cons, List.sum_cons, ih (Nat.lt_of_succ_lt_succ hi)]
      omega

theorem map_set_self {α β : Type*} (f : α → β) {l : List α} {i : Nat} {a b : α}
    (hget : l[i]? = some a) (hf : f b = f a) : (l.set i b).map f = l.map f := by
  rw [List.map_set, hf]
  refine List.ext_getElem? fun j => ?_
  rw [List.getElem?_set]
  split
  · rename_i h
    subst h
    rw [List.getElem?_map, hget, List.length_map,
      if_pos (List.getElem?_eq_some_iff.1 hget).1, Option.map_some]
  · rfl

/-- **What `arws_upstream_select` does to the connections**: it finds no node, as there is none, or it
finds one, and there is one connection more. -/
theorem arwsUpstreamSelect_cases {pools pools' : List ArwsUpstreamPool} {poolName clientIp : Bytes}
    {selected : Option (Nat × Nat)}
    (h : arwsUpstreamSelect pools poolName clientIp = some (pools', selected)) :
    (¬ HasNode pools poolName ∧ selected = none ∧
        pools'.map ArwsUpstreamPool.conns = pools.map ArwsUpstreamPool.conns) ∨
      (HasNode pools poolName ∧ selected.isSome = true ∧
        ((pools'.map ArwsUpstreamPool.conns).map List.sum).sum =
          ((pools.map ArwsUpstreamPool.conns).map List.sum).sum + 1) := by
  rw [arwsUpstreamSelect] at h
  cases hp : arwsUpstreamGetPool pools poolName with
  | none =>
    rw [hp] at h
    cases h
    refine Or.inl ⟨?_, rfl, rfl⟩
    rintro ⟨p, pool, hp', -⟩
    rw [hp] at hp'
    cases hp'
  | some p =>
    simp only [hp] at h
    cases hget : pools[p]? with
    | none =>
      rw [hget] at h
      cases h
      refine Or.inl ⟨?_, rfl, rfl⟩
      rintro ⟨q, pool, hp', hget', -⟩
      rw [hp, Option.some_inj] at hp'
      subst hp'
      rw [hget] at hget'
      cases hget'
    | some pool =>
      simp only [hget] at h
      obtain ⟨⟨pool', found⟩, hsel, h⟩ := Option.map_eq_some_iff.1 h
      cases h
      have hnode : HasNode pools poolName ↔ pool.Selectable := by
        constructor
        · rintro ⟨q, pool', hp', hget', hs⟩
          rw [hp, Option.some_inj] at hp'
          subst hp'
          rw [hget, Option.some_inj] at hget'
          subst hget'
          exact hs
        · exact fun hs => ⟨p, pool, hp, hget, hs⟩
      rw [hnode]
      obtain ⟨rfl, hno, r, rfl⟩ | ⟨i, rfl, hyes, hi, hconns⟩ := selectFrom_cases hsel
      · exact Or.inl ⟨hno, rfl, map_set_self _ hget rfl⟩
      · refine Or.inr ⟨hyes, rfl, ?_⟩
        obtain ⟨hlt, hpool⟩ := List.getElem?_eq_some_iff.1 hget
        have hsum : pool'.conns.sum = pool.conns.sum + 1 := by
          rw [hconns, sum_modify _ (by simpa [ArwsUpstreamPool.conns] using hi)]
        rw [List.map_map, List.map_map, List.map_set, List.sum_set', dif_pos (by simpa using hlt)]
        simp only [List.getElem_map, Function.comp, hpool, hsum]
        omega

section Step

variable {call : DispatchCall} {s s' : Tables} {out : Outcome}

theorem dispatch_of_pool? {poolName : Bytes} (hpool : call.pool? s = some poolName)
    (h : call.dispatch s = some (s', out)) :
    ∃ rrCounter, dispatchTarget call.env (64 :: poolName) { s with rrCounter := rrCounter } =
      some (s', out) := by
  obtain ⟨⟨rrCounter, found⟩, hmatch, hfound⟩ := Option.bind_eq_some_iff.1 hpool
  obtain ⟨route, rfl, hroute⟩ := Option.bind_eq_some_iff.1 hfound
  rw [DispatchCall.dispatch, arwsDispatch, hmatch, Option.bind_some] at h
  unfold routePool? at hroute
  split_ifs at hroute with hother
  obtain ⟨hhandler, hredirect⟩ := not_or.1 hother
  simp only [hhandler, hredirect, if_false] at h
  split at hroute
  · rename_i htext
    cases hroute
    rw [htext, if_pos (List.cons_ne_nil _ _)] at h
    exact ⟨rrCounter, h⟩
  · cases hroute

/-- **One request for a route with a pool**: it finds no node and leaves the connections as they
are, or it finds one and leaves one connection more. -/
theorem dispatch_cases (hpool : (call.pool? s).isSome = true)
    (h : call.dispatch s = some (s', out)) :
    ((∀ poolName ∈ call.pool? s, ¬ HasNode s.pools poolName) ∧ out.selected = none ∧
        s'.conns = s.conns) ∨
      ((∃ poolName ∈ call.pool? s, HasNode s.pools poolName) ∧ s'.total = s.total + 1) := by
  obtain ⟨poolName, hname⟩ := Option.isSome_iff_exists.1 hpool
  obtain ⟨rrCounter, htarget⟩ := dispatch_of_pool? hname h
  rw [dispatchTarget] at htarget
  obtain ⟨⟨pools, selected⟩, hsel, htarget⟩ := Option.bind_eq_some_iff.1 htarget
  simp only [hname, Option.mem_def, Option.some.injEq, forall_eq', exists_eq_left']
  obtain ⟨hno, rfl, hconns⟩ | ⟨hyes, hsome, htotal⟩ := arwsUpstreamSelect_cases hsel
  · cases htarget
    exact Or.inl ⟨hno, rfl, hconns⟩
  · obtain ⟨⟨p, i⟩, rfl⟩ := Option.isSome_iff_exists.1 hsome
    obtain ⟨node, -, htarget⟩ := Option.map_eq_some_iff.1 htarget
    cases htarget
    exact Or.inr ⟨hyes, htotal⟩

end Step

/-! ## A run -/

/-- **Over a run**, either no request finds a node and nothing changes, or there are more connections
in the end. -/
theorem dispatchAll_cases {calls : List DispatchCall} {s s' : Tables} {outs : List Outcome}
    (hpools : AllPooled calls s) (h : dispatchAll calls s = some (s', outs)) :
    (NoneServed calls s ∧ s'.conns = s.conns ∧ ∀ out ∈ outs, out.selected = none) ∨
      (¬ NoneServed calls s ∧ s.total < s'.total) := by
  induction calls generalizing s outs with
  | nil =>
    cases h
    exact Or.inl ⟨trivial, rfl, fun out hout => by cases hout⟩
  | cons call calls ih =>
    obtain ⟨⟨t, out⟩, hcall, h⟩ := Option.bind_eq_some_iff.1 h
    obtain ⟨⟨t', outs'⟩, hrest, h⟩ := Option.map_eq_some_iff.1 h
    cases h
    obtain ⟨hpool, hpools⟩ := hpools
    have hserved : NoneServed (call :: calls) s ↔
        (∀ poolName ∈ call.pool? s, ¬ HasNode s.pools poolName) ∧ NoneServed calls t := by
      rw [NoneServed, hcall]
      simp
    rw [hserved]
    have hlater : (NoneServed calls t ∧ s'.conns = t.conns ∧ ∀ out ∈ outs', out.selected = none) ∨
        (¬ NoneServed calls t ∧ t.total < s'.total) := ih (hpools _ hcall) hrest
    obtain ⟨hno, hsel, hconns⟩ | ⟨⟨poolName, hname, hyes⟩, htotal⟩ := dispatch_cases hpool hcall
    · obtain ⟨hnone, hconns', hsel'⟩ | ⟨hsome, hlt⟩ := hlater
      · refine Or.inl ⟨⟨hno, hnone⟩, hconns'.trans hconns, fun o ho => ?_⟩
        rcases List.mem_cons.1 ho with rfl | ho
        · exact hsel
        · exact hsel' o ho
      · refine Or.inr ⟨fun hall => hsome hall.2, ?_⟩
        rwa [Tables.total, hconns, ← Tables.total] at hlt
    · refine Or.inr ⟨fun hall => hall.1 poolName hname hyes, ?_⟩
      obtain ⟨-, hconns', -⟩ | ⟨-, hlt⟩ := hlater
      · have : s'.total = t.total := by rw [Tables.total, hconns', Tables.total]
        omega
      · omega

/-- **The load balancer is told what it has to know exactly when it found no node for any request**:
the dispatcher hands no node back. -/
theorem fedBack_iff {calls : List DispatchCall} {s s' : Tables} {outs : List Outcome}
    (hpools : AllPooled calls s) (h : dispatchAll calls s = some (s', outs)) :
    FedBack s s' outs ↔ NoneServed calls s := by
  obtain ⟨hnone, hconns, hsel⟩ | ⟨hsome, hlt⟩ := dispatchAll_cases hpools h
  · refine iff_of_true ⟨hconns, ?_⟩ hnone
    rintro seen out later p i pool rfl - - hout
    rw [hsel out (by simp)] at hout
    cases hout
  · refine iff_of_false (fun hfed => ?_) hsome
    rw [Tables.total, Tables.total, hfed.conns] at hlt
    exact absurd hlt (lt_irrefl _)

/-- A request on every host and every path goes to the pool, where every forward fails. -/
private def pooledCall : DispatchCall where
  env :=
    { routes := (arwsAddProxyRoute (fun _ => []) (some .zero) (ascii "*") (ascii "*") none none
        (ascii "@web")).1
      clientIp := ascii "10.0.0.1"
      isNoCache := fun _ _ => false
      configCacheTtl := 60
      forward := fun _ => -1
      sendRequest := fun _ _ => -1
      readResponse := fun _ => none
      stack := []
      getNow := 0
      setNow := 0
      alloc := true }
  req := ⟨ascii "GET", ascii "/", none, [], [], ascii "a", [], 0⟩
  effectiveMode := ascii "production"

/-- The pool that the route names, with these nodes. -/
private def webPool (nodes : List ArwsBackendNode) : Tables :=
  ⟨0, [⟨ascii "web", .leastConn, nodes, 0, 3, 2, true⟩], Cache.CacheState.start.cache⟩

private theorem allPooled_webPool (nodes : List ArwsBackendNode) :
    AllPooled [pooledCall] (webPool nodes) := by
  refine ⟨?_, fun _ _ => trivial⟩
  have : pooledCall.pool? (webPool nodes) = pooledCall.pool? (webPool []) := rfl
  rw [this]
  decide +kernel

/-- A request is served and there is no node for it. -/
theorem fedBack_of_no_node :
    ∃ s' outs, dispatchAll [pooledCall] (webPool []) = some (s', outs) ∧
      FedBack (webPool []) s' outs := by
  obtain ⟨⟨s', outs⟩, hs⟩ : ∃ r, dispatchAll [pooledCall] (webPool []) = some r :=
    Option.isSome_iff_exists.1 (by decide +kernel)
  refine ⟨s', outs, hs, (fedBack_iff (allPooled_webPool []) hs).2 ⟨?_, fun _ _ => trivial⟩⟩
  rintro poolName - ⟨p, pool, -, hpool, n, hn, -⟩
  rw [List.getElem?_eq_some_iff] at hpool
  obtain ⟨hp, rfl⟩ := hpool
  obtain rfl : p = 0 := Nat.lt_one_iff.1 hp
  cases hn

/-- **A node is not handed back**: after one request it counts a connection that nobody has. -/
theorem not_fedBack :
    ¬ ∀ calls s s' outs, AllPooled calls s → dispatchAll calls s = some (s', outs) →
      FedBack s s' outs := by
  intro h
  have hrun : (dispatchAll [pooledCall] (webPool [addedNode (ascii "10.0.0.2") 80 1 0])).map
      (fun r => r.1.conns) = some [[1]] := by decide +kernel
  obtain ⟨⟨s', outs⟩, hs, hconns⟩ := Option.map_eq_some_iff.1 hrun
  have hfed := (h _ _ _ _ (allPooled_webPool _) hs).conns
  rw [hconns] at hfed
  exact absurd hfed (by decide +kernel)

end Gateway
end Arws
