import Arws.Gateway.Dispatcher

/-!
# Routes as they are stored

Five functions add a route.  Each of them writes to memory as it was allocated, and what it does not
write is read by the router and by the dispatcher nevertheless.

* `arwsAdd_eq` — what each of them stores.
* `treated_of_unspoilt` — a route whose fields are in order is matched and dispatched as the kind of route
  that it was added as.
* `stored_iff` — the fields are in order exactly if the strings leave room for their terminators, or the
  memory has one at the end of the field, and if it starts with one in the targets that are not written.
* `not_storedAs` — a route to a backend is dispatched to what the memory held.
-/

set_option autoImplicit false

namespace Arws
namespace Gateway

open CString Router Server

/-! ## What is added -/

/-- The functions that add a route, each with what it takes beside the strings that all of them take. -/
inductive AddedKind
  | backend (backendId : Int)
  | proxy (targetUrl : Bytes)
  | stream (targetUrl : Bytes)
  | redirect (targetUrl : Bytes)
  | handler

namespace AddedKind

/-- What is copied to `proxy_target`, if anything is. -/
def proxyTarget : AddedKind → Option Bytes
  | .proxy targetUrl | .stream targetUrl => some targetUrl
  | .backend _ | .redirect _ | .handler => none

/-- What is copied to `redirect_target`, if anything is. -/
def redirectTarget : AddedKind → Option Bytes
  | .redirect targetUrl => some targetUrl
  | .backend _ | .proxy _ | .stream _ | .handler => none

def backendId : AddedKind → Int
  | .backend backendId => backendId
  | .proxy _ | .stream _ | .redirect _ | .handler => -1

def useHandler : AddedKind → Bool
  | .handler => true
  | .backend _ | .proxy _ | .stream _ | .redirect _ => false

def useStream : AddedKind → Bool
  | .stream _ => true
  | .backend _ | .proxy _ | .redirect _ | .handler => false

def useRedirect : AddedKind → Bool
  | .redirect _ => true
  | .backend _ | .proxy _ | .stream _ | .handler => false

/-- A prefix is normalized by every function but `arws_add_handler`. -/
def storedPrefix (kind : AddedKind) (pathPrefix : Bytes) : Bytes :=
  match kind with
  | .handler => pathPrefix
  | .backend _ | .proxy _ | .stream _ | .redirect _ => normalizedPrefix pathPrefix

end AddedKind

/-- The arguments of a function that adds a route: C strings, so there is no zero in them. -/
structure RouteArgs where
  kind : AddedKind
  pathPrefix : Bytes
  method : Bytes
  host : Option Bytes
  mode : Option Bytes
  pathPrefix_zero : (0 : UInt8) ∉ pathPrefix
  method_zero : (0 : UInt8) ∉ method
  host_zero : ∀ s ∈ host, (0 : UInt8) ∉ s
  mode_zero : ∀ s ∈ mode, (0 : UInt8) ∉ s
  proxyTarget_zero : ∀ s ∈ kind.proxyTarget, (0 : UInt8) ∉ s
  redirectTarget_zero : ∀ s ∈ kind.redirectTarget, (0 : UInt8) ∉ s

/-- The call of the function. -/
def arwsAdd (table : RouteTable) (node : Option ArwsRoute) (args : RouteArgs) : RouteTable × Int :=
  match args.kind with
  | .backend backendId =>
    arwsAddRoute table node args.pathPrefix args.method args.host args.mode backendId
  | .proxy targetUrl =>
    arwsAddProxyRoute table node args.pathPrefix args.method args.host args.mode targetUrl
  | .stream targetUrl =>
    arwsAddStreamRoute table node args.pathPrefix args.method args.host args.mode targetUrl
  | .redirect targetUrl =>
    arwsAddRedirectRoute table node args.pathPrefix args.method args.host args.mode targetUrl
  | .handler => arwsAddHandler table node args.pathPrefix args.method args.host args.mode

/-- A target that is written if there is something to write. -/
def copied (field : CharArray 256) (s : Option Bytes) : CharArray 256 :=
  match s with
  | none => field
  | some s => field.strncpy s

/-- The route in the memory of a node. -/
def RouteArgs.stored (args : RouteArgs) (node : ArwsRoute) : ArwsRoute where
  pathPrefix := node.pathPrefix.strncpy (args.kind.storedPrefix args.pathPrefix)
  method := node.method.strncpy args.method
  host := optionalField node.host args.host
  mode := optionalField node.mode args.mode
  backendId := args.kind.backendId
  useHandler := args.kind.useHandler
  useStream := args.kind.useStream
  useRedirect := args.kind.useRedirect
  proxyTarget := copied node.proxyTarget args.kind.proxyTarget
  redirectTarget := copied node.redirectTarget args.kind.redirectTarget

/-- The bucket of the route. -/
def RouteArgs.bucket (args : RouteArgs) : Fin routeHashSize :=
  hashRoute (args.kind.storedPrefix args.pathPrefix) args.method (args.host.getD []) (args.mode.getD [])

/-- **Every function stores the route, and no other one, and says so.** -/
theorem arwsAdd_eq (table : RouteTable) (node : ArwsRoute) (args : RouteArgs) :
    arwsAdd table (some node) args = (table.insert args.bucket (args.stored node), 0) := by
  rw [arwsAdd, RouteArgs.bucket, RouteArgs.stored]
  cases args.kind <;> rfl

/-! ## What a route ought to be -/

/-- The fields of a route are in order for its kind. -/
structure StoredAs (kind : AddedKind) (route : ArwsRoute) : Prop where
  pathPrefix : (0 : UInt8) ∈ route.pathPrefix.bytes
  method : (0 : UInt8) ∈ route.method.bytes
  host : (0 : UInt8) ∈ route.host.bytes
  mode : (0 : UInt8) ∈ route.mode.bytes
  proxyTarget : (0 : UInt8) ∈ route.proxyTarget.bytes
  redirectTarget : (0 : UInt8) ∈ route.redirectTarget.bytes
  noProxy : kind.proxyTarget = none → route.proxyTarget.text = []
  noRedirect : kind.redirectTarget = none → route.redirectTarget.text = []

/-- The modes do not matter to a stream, nor to a proxy. -/
def AddedKind.anyMode : AddedKind → Bool
  | .stream _ => true
  | .proxy targetUrl => targetUrl != []
  | .backend _ | .redirect _ | .handler => false

/-- The requests that a route is added for, with its strings as far as they fit. -/
def RouteArgs.serves (args : RouteArgs) (req : HttpRequest) (effectiveMode : Bytes) : Bool :=
  let mode := (args.mode.getD []).take 15
  (args.method.take 15 == req.method || args.method.take 15 == [42]) &&
    hostMatches ((args.host.getD []).take 255) req.host &&
    pathMatches ((args.kind.storedPrefix args.pathPrefix).take 255) req.path &&
    (mode == [] || args.kind.anyMode || mode == effectiveMode || mode == [42])

/-- What a request for a route of a kind comes to. -/
def AddedKind.dispatched (kind : AddedKind) (env : DispatchEnv) (req : HttpRequest) (s : Tables) :
    Option (Tables × Outcome) :=
  match kind with
  | .handler => some (s, ⟨.handler, none, 0⟩)
  | .redirect targetUrl =>
    if targetUrl = [] then some (s, ⟨.notFound, none, 0⟩)
    else some (s, ⟨.redirect (targetUrl.take 255), none, 0⟩)
  | .proxy targetUrl | .stream targetUrl =>
    if targetUrl = [] then some (s, ⟨.notFound, none, 0⟩)
    else dispatchTarget env (targetUrl.take 255) s
  | .backend backendId =>
    if backendId ≥ 0 then dispatchBackend env backendId req s else some (s, ⟨.notFound, none, 0⟩)

/-- The route is matched and dispatched as the kind that it was added as. -/
structure Treated (args : RouteArgs) (route : ArwsRoute) : Prop where
  serves : ∀ req effectiveMode, route.serves req effectiveMode = args.serves req effectiveMode
  dispatched : ∀ env req effectiveMode s rrCounter,
    arwsRouteMatch env.routes s.rrCounter req effectiveMode = some (rrCounter, some route) →
      arwsDispatch env req effectiveMode s = args.kind.dispatched env req { s with rrCounter := rrCounter }

/-! ## The memory -/

/-- **The memory that does for the arguments**: every string that is copied is shorter than its field by
two or the field ends with a zero, and a target that is not written starts with one. -/
structure Unspoilt (args : RouteArgs) (node : ArwsRoute) : Prop where
  pathPrefix : node.pathPrefix.Terminates (args.kind.storedPrefix args.pathPrefix)
  method : node.method.Terminates args.method
  host : ∀ s ∈ args.host, node.host.Terminates s
  mode : ∀ s ∈ args.mode, node.mode.Terminates s
  proxyTarget : ∀ s ∈ args.kind.proxyTarget, node.proxyTarget.Terminates s
  redirectTarget : ∀ s ∈ args.kind.redirectTarget, node.redirectTarget.Terminates s
  noProxy : args.kind.proxyTarget = none → node.proxyTarget.bytes.head? = some 0
  noRedirect : args.kind.redirectTarget = none → node.redirectTarget.bytes.head? = some 0

section Fields

variable {n : Nat} {field : CharArray (n + 1)}

theorem zero_mem_optionalField_iff (hn : 0 < n) {s : Option Bytes} (hs : ∀ t ∈ s, (0 : UInt8) ∉ t) :
    (0 : UInt8) ∈ (optionalField field s).bytes ↔ ∀ t ∈ s, field.Terminates t := by
  cases s with
  | none =>
    refine iff_of_true ?_ (fun _ h => nomatch h)
    refine List.mem_iff_getElem?.2 ⟨0, List.getElem?_set_self ?_⟩
    rw [field.length_eq]
    exact Nat.succ_pos n
  | some t =>
    rw [optionalField, CharArray.zero_mem_strncpy_iff _ (hs t rfl), field.terminates_put hn]
    simp

theorem text_optionalField (hn : 0 < n) {s : Option Bytes} (hs : ∀ t ∈ s, (0 : UInt8) ∉ t)
    (h : ∀ t ∈ s, field.Terminates t) : (optionalField field s).text = (s.getD []).take n := by
  cases s with
  | none =>
    rw [Option.getD_none, List.take_nil, optionalField, CharArray.text_eq_nil_iff, CharArray.put,
      List.head?_eq_getElem?, List.getElem?_set_self]
    rw [field.length_eq]
    exact Nat.succ_pos n
  | some t =>
    exact CharArray.text_strncpy_of_terminates _ (hs t rfl) ((field.terminates_put hn 0).2 (h t rfl))

end Fields

/-- A target has its terminator, and is empty if it is not written, exactly if it is so in the memory. -/
theorem copied_iff {field : CharArray 256} {s : Option Bytes} (hs : ∀ t ∈ s, (0 : UInt8) ∉ t) :
    (0 : UInt8) ∈ (copied field s).bytes ∧ (s = none → (copied field s).text = []) ↔
      (∀ t ∈ s, field.Terminates t) ∧ (s = none → field.bytes.head? = some 0) := by
  cases s with
  | none =>
    rw [copied, field.text_eq_nil_iff]
    exact ⟨fun h => ⟨fun _ ht => (nomatch ht), h.2⟩, fun h => ⟨List.mem_of_mem_head? (h.2 rfl), h.2⟩⟩
  | some t =>
    rw [copied, field.zero_mem_strncpy_iff (hs t rfl)]
    simp

theorem zero_notMem_storedPrefix (args : RouteArgs) :
    (0 : UInt8) ∉ args.kind.storedPrefix args.pathPrefix := by
  have hzero := args.pathPrefix_zero
  have hnormal : (0 : UInt8) ∉ normalizedPrefix args.pathPrefix := by
    rw [normalizedPrefix]
    split_ifs
    · decide
    · exact hzero
    · intro h
      rcases List.mem_cons.1 (List.mem_of_mem_take h) with h | h
      · cases h
      · exact hzero h
  unfold AddedKind.storedPrefix
  split
  · exact hzero
  all_goals exact hnormal

/-- **The fields are in order exactly if the memory does for the arguments.** -/
theorem storedAs_iff (args : RouteArgs) (node : ArwsRoute) :
    StoredAs args.kind (args.stored node) ↔ Unspoilt args node := by
  have hpath := node.pathPrefix.zero_mem_strncpy_iff (zero_notMem_storedPrefix args)
  have hmethod := node.method.zero_mem_strncpy_iff args.method_zero
  have hhost := @zero_mem_optionalField_iff 255 node.host (by decide) _ args.host_zero
  have hmode := @zero_mem_optionalField_iff 15 node.mode (by decide) _ args.mode_zero
  have hproxy := @copied_iff node.proxyTarget _ args.proxyTarget_zero
  have hredirect := @copied_iff node.redirectTarget _ args.redirectTarget_zero
  constructor
  · intro h
    obtain ⟨hp, hnp⟩ := hproxy.1 ⟨h.proxyTarget, h.noProxy⟩
    obtain ⟨hr, hnr⟩ := hredirect.1 ⟨h.redirectTarget, h.noRedirect⟩
    exact ⟨hpath.1 h.pathPrefix, hmethod.1 h.method, hhost.1 h.host, hmode.1 h.mode, hp, hr, hnp, hnr⟩
  · intro h
    obtain ⟨hp, hnp⟩ := hproxy.2 ⟨h.proxyTarget, h.noProxy⟩
    obtain ⟨hr, hnr⟩ := hredirect.2 ⟨h.redirectTarget, h.noRedirect⟩
    exact ⟨hpath.2 h.pathPrefix, hmethod.2 h.method, hhost.2 h.host, hmode.2 h.mode, hp, hr, hnp, hnr⟩

/-- What a target is read as. -/
theorem text_copied {field : CharArray 256} {s : Option Bytes} (hs : ∀ t ∈ s, (0 : UInt8) ∉ t)
    (h : ∀ t ∈ s, field.Terminates t) (hnone : s = none → field.bytes.head? = some 0) :
    (copied field s).text = (s.getD []).take 255 := by
  cases s with
  | none =>
    rw [Option.getD_none, List.take_nil]
    exact field.text_eq_nil_iff.2 (hnone rfl)
  | some t => exact field.text_strncpy_of_terminates (hs t rfl) (h t rfl)

/-! ## What is made of a route -/

section Kind

variable (kind : AddedKind) (route : ArwsRoute) (hproxy : route.proxyTarget.text =
  (kind.proxyTarget.getD []).take 255)

theorem take_eq_nil {s : Bytes} : s.take 255 = [] ↔ s = [] := by
  rw [List.take_eq_nil_iff, or_iff_right (by decide)]

include hproxy

/-- When the mode does not matter. -/
theorem anyMode_eq (hstream : route.useStream = kind.useStream) :
    (route.useStream || route.proxyTarget.text != []) = kind.anyMode := by
  rw [hstream, hproxy]
  cases kind with
  | proxy targetUrl =>
    change ((targetUrl.take 255) != []) = (targetUrl != [])
    rw [Bool.eq_iff_iff, bne_iff_ne, bne_iff_ne, Ne, take_eq_nil]
  | backend | stream | redirect | handler => rfl

/-- What is dispatched to. -/
theorem dispatched_eq (hredirect : route.redirectTarget.text = (kind.redirectTarget.getD []).take 255)
    (huse : route.useHandler = kind.useHandler ∧ route.useRedirect = kind.useRedirect ∧
      route.backendId = kind.backendId) (env : DispatchEnv) (req : HttpRequest) (s : Tables) :
    (if route.useHandler then some (s, ⟨.handler, none, 0⟩)
      else if route.useRedirect ∧ route.redirectTarget.text ≠ [] then
        some (s, ⟨.redirect route.redirectTarget.text, none, 0⟩)
      else if route.proxyTarget.text ≠ [] then dispatchTarget env route.proxyTarget.text s
      else if route.backendId ≥ 0 then dispatchBackend env route.backendId req s
      else some (s, ⟨.notFound, none, 0⟩)) = kind.dispatched env req s := by
  rw [huse.1, huse.2.1, huse.2.2, hproxy, hredirect]
  cases kind with
  | handler | backend => rfl
  | redirect targetUrl =>
    by_cases hnil : targetUrl = []
    · rw [hnil]
      rfl
    · simp [AddedKind.useHandler, AddedKind.useRedirect, AddedKind.redirectTarget, AddedKind.dispatched, hnil]
  | proxy targetUrl | stream targetUrl =>
    by_cases hnil : targetUrl = []
    · rw [hnil]
      rfl
    · simp [AddedKind.useHandler, AddedKind.useRedirect, AddedKind.proxyTarget, AddedKind.dispatched, hnil]

end Kind

/-- **A route whose fields are in order is treated as what it was added as.** -/
theorem treated_of_unspoilt {args : RouteArgs} {node : ArwsRoute} (h : Unspoilt args node) :
    Treated args (args.stored node) := by
  have hpath := node.pathPrefix.text_strncpy_of_terminates (zero_notMem_storedPrefix args) h.pathPrefix
  have hmethod := node.method.text_strncpy_of_terminates args.method_zero h.method
  have hhost := text_optionalField (by decide) args.host_zero h.host
  have hmode := text_optionalField (by decide) args.mode_zero h.mode
  have hproxy := text_copied args.proxyTarget_zero h.proxyTarget h.noProxy
  have hredirect := text_copied args.redirectTarget_zero h.redirectTarget h.noRedirect
  refine ⟨fun req effectiveMode => ?_, fun env req effectiveMode s rrCounter hmatch => ?_⟩
  · have hany := anyMode_eq args.kind (args.stored node) hproxy rfl
    rw [ArwsRoute.serves, RouteArgs.serves, ← hany]
    simp only [RouteArgs.stored, hpath, hmethod, hhost, hmode, Bool.or_assoc]
  · rw [arwsDispatch, hmatch, Option.bind_some]
    exact dispatched_eq args.kind _ hproxy hredirect ⟨rfl, rfl, rfl⟩ env req _

/-- **Every function stores its route in the memory of the node, and the fields of the route are in order,
so that it is treated as what it was added as, exactly if the memory does for the arguments.** -/
theorem stored_iff (table : RouteTable) (node : ArwsRoute) (args : RouteArgs) :
    arwsAdd table (some node) args = (table.insert args.bucket (args.stored node), 0) ∧
      (StoredAs args.kind (args.stored node) ∧ Treated args (args.stored node) ↔ Unspoilt args node) :=
  ⟨arwsAdd_eq table node args, fun h => (storedAs_iff args node).1 h.1,
    fun h => ⟨(storedAs_iff args node).2 h, treated_of_unspoilt h⟩⟩

/-- A route to the first backend, for every path. -/
def backendArgs : RouteArgs :=
  ⟨.backend 0, ascii "/", ascii "GET", none, none, by decide, by decide, by decide, by decide, by decide,
    by decide⟩

/-- **What the memory held is dispatched to**: the route to a backend has a target. -/
theorem not_storedAs : ¬ ∀ (table : RouteTable) (node route : ArwsRoute) (args : RouteArgs),
    arwsAdd table (some node) args = (table.insert args.bucket route, 0) → StoredAs args.kind route := by
  intro h
  have hstored := h (fun _ => []) { ArwsRoute.zero with proxyTarget := .ofString 255 [97] } _ backendArgs
    (arwsAdd_eq _ _ _)
  have hempty : (CharArray.ofString 255 [97]).text = [] := hstored.noProxy rfl
  have htext : (CharArray.ofString 255 [97]).text = [97] := by decide
  rw [htext] at hempty
  cases hempty

end Gateway
end Arws
