import Arws.Library.Buckets
import Arws.Library.CharArray
import Arws.Server.Request

/-!
# The route table

`router_ex.c`: a hash table of chains of routes, the functions that add one, and the search for the
route of a request.

A route is the memory that was allocated for it: `strncpy` leaves the last byte of a field as it
was, and what a function does not write holds what the memory held before.  So the functions take
that memory, or `none` when there is none to be had.  A field is read as its `text`.
-/

set_option autoImplicit false

namespace Arws
namespace Router

open CString Server

structure ArwsRoute where
  pathPrefix : CharArray 256
  method : CharArray 16
  host : CharArray 256
  mode : CharArray 16
  backendId : Int
  useHandler : Bool
  useStream : Bool
  useRedirect : Bool
  proxyTarget : CharArray 256
  redirectTarget : CharArray 256
  deriving DecidableEq

/-- Memory that holds zeros. -/
def ArwsRoute.zero : ArwsRoute :=
  ⟨.ofString 255 [], .ofString 15 [], .ofString 255 [], .ofString 15 [], 0, false, false, false,
    .ofString 255 [], .ofString 255 []⟩

/-- `ROUTE_HASH_SIZE`. -/
abbrev routeHashSize : Nat := 256

instance neZero_routeHashSize : @NeZero Nat (@Zero.ofOfNat0 Nat (instOfNatNat 0)) routeHashSize :=
  ⟨Nat.succ_ne_zero 255⟩

/-- `route_table`. -/
abbrev RouteTable := Fin routeHashSize → List ArwsRoute

/-- `ARWS_MAX_BACKENDS`, the length of the array of candidates. -/
def arwsMaxCandidates : Nat := 64

/-- `hash_route`; a null pointer is hashed as the empty string is. -/
def hashRoute (pathPrefix method host mode : Bytes) : Fin routeHashSize :=
  Fin.ofNat routeHashSize ((pathPrefix ++ method ++ host ++ mode).foldl
    (fun (hash : UInt32) c => ((hash <<< 5) + hash) + promotedChar c) 5381).toNat

/-! ## Adding a route -/

/-- The prefix that is stored: `*` stands for every path, and every other prefix starts with a slash
or an asterisk. -/
def normalizedPrefix (pathPrefix : Bytes) : Bytes :=
  if pathPrefix = [42] then ascii "/*"
  else if pathPrefix.head? = some 47 ∨ pathPrefix.head? = some 42 then pathPrefix
  else (47 :: pathPrefix).take 255

/-- A field that is emptied, and written to if there is something to write. -/
def optionalField {n : Nat} (field : CharArray (n + 1)) (s : Option Bytes) : CharArray (n + 1) :=
  match s with
  | none => field.put 0 0
  | some s => (field.put 0 0).strncpy s

/-- What every function that adds a route to a backend or to a target writes. -/
def ArwsRoute.written (node : ArwsRoute) (pathPrefix method : Bytes) (host mode : Option Bytes)
    (backendId : Int) (useStream useRedirect : Bool) : ArwsRoute :=
  { node with
    pathPrefix := node.pathPrefix.strncpy (normalizedPrefix pathPrefix)
    method := node.method.strncpy method
    host := optionalField node.host host
    mode := optionalField node.mode mode
    backendId := backendId
    useHandler := false
    useStream := useStream
    useRedirect := useRedirect }

def RouteTable.insert (table : RouteTable) (idx : Fin routeHashSize) (route : ArwsRoute) :
    RouteTable :=
  Function.update table idx (route :: table idx)

/-- A route at the head of the chain of what it is found by. -/
def RouteTable.link (table : RouteTable) (pathPrefix method : Bytes) (host mode : Option Bytes)
    (route : ArwsRoute) : RouteTable :=
  table.insert (hashRoute (normalizedPrefix pathPrefix) method (host.getD []) (mode.getD [])) route

/-- `arws_add_redirect_route`. -/
def arwsAddRedirectRoute (table : RouteTable) (node : Option ArwsRoute)
    (pathPrefix method : Bytes) (host mode : Option Bytes) (targetUrl : Bytes) : RouteTable × Int :=
  match node with
  | none => (table, -1)
  | some node =>
    let route := node.written pathPrefix method host mode (-1) false true
    (table.link pathPrefix method host mode
      { route with redirectTarget := route.redirectTarget.strncpy targetUrl }, 0)

/-- `arws_add_route`. -/
def arwsAddRoute (table : RouteTable) (node : Option ArwsRoute) (pathPrefix method : Bytes)
    (host mode : Option Bytes) (backendId : Int) : RouteTable × Int :=
  match node with
  | none => (table, -1)
  | some node =>
    (table.link pathPrefix method host mode
      (node.written pathPrefix method host mode backendId false false), 0)

/-- `arws_add_proxy_route`. -/
def arwsAddProxyRoute (table : RouteTable) (node : Option ArwsRoute) (pathPrefix method : Bytes)
    (host mode : Option Bytes) (targetUrl : Bytes) : RouteTable × Int :=
  match node with
  | none => (table, -1)
  | some node =>
    let route := node.written pathPrefix method host mode (-1) false false
    (table.link pathPrefix method host mode
      { route with proxyTarget := route.proxyTarget.strncpy targetUrl }, 0)

/-- `arws_add_stream_route`. -/
def arwsAddStreamRoute (table : RouteTable) (node : Option ArwsRoute) (pathPrefix method : Bytes)
    (host mode : Option Bytes) (targetUrl : Bytes) : RouteTable × Int :=
  match node with
  | none => (table, -1)
  | some node =>
    let route := node.written pathPrefix method host mode (-1) true false
    (table.link pathPrefix method host mode
      { route with proxyTarget := route.proxyTarget.strncpy targetUrl }, 0)

/-- `arws_add_handler`, which takes the prefix as it is. -/
def arwsAddHandler (table : RouteTable) (node : Option ArwsRoute) (pathPrefix method : Bytes)
    (host mode : Option Bytes) : RouteTable × Int :=
  match node with
  | none => (table, -1)
  | some node =>
    (table.insert (hashRoute pathPrefix method (host.getD []) (mode.getD []))
      { node with
        pathPrefix := node.pathPrefix.strncpy pathPrefix
        method := node.method.strncpy method
        host := optionalField node.host host
        mode := optionalField node.mode mode
        backendId := -1
        useHandler := true
        useStream := false
        useRedirect := false }, 0)

/-! ## Finding a route -/

/-- `is_loopback_host`. -/
def isLoopbackHost (host : Bytes) : Bool :=
  strcaseeq host (ascii "localhost") || strcaseeq host (ascii "0.0.0.0") ||
    strcaseeq host (ascii "::1") || strcaseeq host (ascii "[::1]") ||
    (ascii "127.").isPrefixOf host

/-- Two names below loopback hosts with the same first label. -/
def sameLoopbackLabel (routeHost reqHost : Bytes) : Bool :=
  match strchr 46 routeHost, strchr 46 reqHost with
  | some r, some q =>
    r == q && strcaseeq (routeHost.take r) (reqHost.take q) &&
      isLoopbackHost (routeHost.drop (r + 1)) && isLoopbackHost (reqHost.drop (q + 1))
  | _, _ => false

/-- `host_matches`. -/
def hostMatches (routeHost reqHost : Bytes) : Bool :=
  if routeHost = [] ∨ routeHost = [42] then true
  else if reqHost = [] then false
  else strcaseeq routeHost reqHost || (isLoopbackHost routeHost && isLoopbackHost reqHost) ||
    sameLoopbackLabel routeHost reqHost ||
    (strcaseeq (reqHost.take 4) (ascii "www.") && strcaseeq routeHost (reqHost.drop 4))

/-- `path_matches`. -/
def pathMatches (pathPrefix reqPath : Bytes) : Bool :=
  if pathPrefix = [] then true
  else if pathPrefix.getLast? = some 42 then pathPrefix.dropLast.isPrefixOf reqPath
  else if pathPrefix = reqPath then true
  else decide (1 < pathPrefix.length) && pathPrefix.isPrefixOf reqPath &&
    (match (reqPath.drop pathPrefix.length).head? with
      | none => true
      | some c => c == 47 || c == 63 || pathPrefix.getLast? == some 47)

/-- `route_priority`. -/
def routePriority (route : ArwsRoute) (path : Bytes) : Nat :=
  let pathPrefix := route.pathPrefix.text
  let effective := if pathPrefix.getLast? = some 42 then pathPrefix.dropLast else pathPrefix
  effective.length * 1000 + (if effective = path then 50000 else 0) +
    (if route.host.text ≠ [] ∧ route.host.text ≠ [42] then 100 else 0)

/-- What `arws_route_match` asks of a route. -/
def ArwsRoute.serves (route : ArwsRoute) (req : HttpRequest) (effectiveMode : Bytes) : Bool :=
  (route.method.text == req.method || route.method.text == [42]) &&
    hostMatches route.host.text req.host && pathMatches route.pathPrefix.text req.path &&
    (route.mode.text == [] || route.useStream || route.proxyTarget.text != [] ||
      route.mode.text == effectiveMode || route.mode.text == [42])

/-- `best_priority`, if a route has been found, and the candidates of that priority. -/
structure Candidates where
  bestPriority : Option Nat
  candidates : List ArwsRoute

/-- What the loop of `arws_route_match` does with a route that serves the request. -/
def Candidates.consider (found : Candidates) (path : Bytes) (route : ArwsRoute) : Candidates :=
  let prio := routePriority route path
  if found.bestPriority.all (· < prio) then ⟨some prio, [route]⟩
  else if found.bestPriority = some prio ∧ found.candidates.length < arwsMaxCandidates then
    { found with candidates := found.candidates ++ [route] }
  else found

/-- The routes in the order in which the loop visits them. -/
def RouteTable.routes (table : RouteTable) : List ArwsRoute :=
  (List.finRange routeHashSize).flatMap table

def RouteTable.candidates (table : RouteTable) (req : HttpRequest) (effectiveMode : Bytes) :
    List ArwsRoute :=
  ((table.routes.filter fun route => route.serves req effectiveMode).foldl
    (fun found route => found.consider req.path route) (⟨none, []⟩ : Candidates)).candidates

/-- `arws_route_match`: `rr_counter` behind it and the route; nothing when the `int` that the counter
has wrapped to is negative and so is the index. -/
def arwsRouteMatch (table : RouteTable) (rrCounter : Int) (req : HttpRequest)
    (effectiveMode : Bytes) : Option (Int × Option ArwsRoute) :=
  let candidates := table.candidates req effectiveMode
  if candidates = [] then some (rrCounter, none)
  else
    let idx := (toInt rrCounter).tmod candidates.length
    if idx < 0 then none else some (rrCounter + 1, candidates[idx.toNat]?)

/-! ## The routes of a table -/

theorem mem_routes_iff {table : RouteTable} {route : ArwsRoute} :
    route ∈ table.routes ↔ ∃ idx, route ∈ table idx :=
  Buckets.mem_contents_iff

/-- A route that is put into a table is one more of its routes. -/
theorem routes_insert (table : RouteTable) (idx : Fin routeHashSize) (route : ArwsRoute) :
    (table.insert idx route).routes.Perm (route :: table.routes) :=
  Buckets.contents_update_perm (List.Perm.refl _)

end Router
end Arws
