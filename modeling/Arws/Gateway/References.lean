import Arws.Gateway.Control

/-!
# Routes and the backends they are to

The handlers of the control connections run side by side.  A handler that registers a backend adds its
routes one by one behind that, and one that unregisters a backend removes its routes before that; the
registry and the route table have a mutex each, and nothing is held in between.

* `referenced_of_reach` — every route is to a registered backend, in every run in which a backend is not
  unregistered while its routes are added, and none of its routes is added while it is unregistered.
* `not_referenced_next` — behind any other step a route can be left without its backend.
* `not_referenced` — a backend that is unregistered between its registration and its route is enough for
  a route to none.
-/

set_option autoImplicit false

namespace Arws
namespace Gateway

open CString Router Config

/-- Where the handler of a connection is. -/
inductive HandlerPhase
  /-- Between two frames. -/
  | idle
  /-- In an `IPC_REGISTER` whose backend is registered, with the hosts that are left. -/
  | adding (frame : RegisterFrame) (backendId : Int) (hosts : List Bytes)
  /-- Before `arws_remove_routes_by_backend`. -/
  | found (backendId : Int)
  /-- Before `arws_unregister_backend`. -/
  | removed (backendId : Int)
  deriving DecidableEq

structure ConnHandler where
  fd : Int
  phase : HandlerPhase
  deriving DecidableEq

structure RouteState where
  registry : Registry
  routes : RouteTable
  handlers : List ConnHandler

def RouteState.start : RouteState := ⟨arwsRegistryInit, fun _ => [], []⟩

inductive RouteAct
  | accept (fd : Int)
  /-- The configuration is loaded again, for a frame or as the file has changed. -/
  | reload (calls : List Registration) (memory : Nat → Option ArwsRoute)
  /-- `IPC_REGISTER` up to `arws_register_backend`. -/
  | register (h : Nat) (buf : Bytes)
  /-- The next route of the frame. -/
  | addRoute (h : Nat) (node : Option ArwsRoute)
  /-- `IPC_UNREGISTER` with an id. -/
  | unregister (h : Nat) (backendId : Int)
  /-- The connection has ended. -/
  | disconnect (h : Nat)
  | removeRoutes (h : Nat)
  | unregisterBackend (h : Nat)

/-- The handler goes on with the hosts that are left. -/
def HandlerPhase.toAdd (frame : RegisterFrame) (backendId : Int) (hosts : List Bytes) : HandlerPhase :=
  if hosts = [] then .idle else .adding frame backendId hosts

def RouteState.setPhase (s : RouteState) (h : Nat) (phase : HandlerPhase) : RouteState :=
  { s with handlers := s.handlers.modify h fun handler => { handler with phase := phase } }

def routeStep (s : RouteState) : RouteAct → Option RouteState
  | .accept fd => some { s with handlers := s.handlers ++ [⟨fd, .idle⟩] }
  | .reload calls memory => some { s with routes := registerAll memory s.routes calls }
  | .register h buf =>
    match s.handlers[h]? with
    | some ⟨fd, .idle⟩ =>
      let frame := parseRegister buf
      let (registry, backendId) := frame.registerBackend s.registry fd
      some ({ s with registry := registry }.setPhase h
        (.toAdd frame backendId (frame.routeHosts backendId)))
    | _ => none
  | .addRoute h node =>
    match s.handlers[h]? with
    | some ⟨_, .adding frame backendId (host :: hosts)⟩ =>
      some ({ s with routes := frame.addRoute backendId s.routes host node }.setPhase h
        (.toAdd frame backendId hosts))
    | _ => none
  | .unregister h backendId =>
    match s.handlers[h]? with
    | some ⟨_, .idle⟩ => if 0 < backendId then some (s.setPhase h (.found backendId)) else none
    | _ => none
  | .disconnect h =>
    match s.handlers[h]? with
    | some ⟨fd, .idle⟩ =>
      let bid := arwsFindBackendIdByFd s.registry fd
      some (if bid > 0 then s.setPhase h (.found bid) else s)
    | _ => none
  | .removeRoutes h =>
    match s.handlers[h]? with
    | some ⟨_, .found backendId⟩ =>
      some ({ s with routes := (arwsRemoveRoutesByBackend s.routes backendId).1 }.setPhase h
        (.removed backendId))
    | _ => none
  | .unregisterBackend h =>
    match s.handlers[h]? with
    | some ⟨_, .removed backendId⟩ =>
      some ({ s with registry := (arwsUnregisterBackend s.registry backendId).1 }.setPhase h .idle)
    | _ => none

def routeHandlers : Machine RouteState RouteAct where
  init s := s = .start
  step := routeStep

/-- **Every route is to a registered backend**, if it is to a backend. -/
def Referenced (s : RouteState) : Prop :=
  ∀ route ∈ s.routes.routes, 0 < route.backendId → s.registry.hasId route.backendId

/-- No handler is in the middle of a frame. -/
def RouteState.Quiet (s : RouteState) : Prop := ∀ handler ∈ s.handlers, handler.phase = .idle

/-- The backend whose routes the handler adds. -/
def HandlerPhase.adds : HandlerPhase → Option Int
  | .adding frame backendId _ => if frame.namesBackend then some backendId else none
  | _ => none

/-- The backend that the handler unregisters next. -/
def HandlerPhase.drops : HandlerPhase → Option Int
  | .removed backendId => some backendId
  | _ => none

/-- No backend is unregistered while a handler adds its routes, and no route is added to a backend that
a handler unregisters next. -/
def Apart (s : RouteState) : RouteAct → Prop
  | .addRoute h node => node.isSome = true → ∀ handler ∈ s.handlers[h]?,
      ∀ backendId ∈ handler.phase.adds, ∀ other ∈ s.handlers, other.phase.drops ≠ some backendId
  | .unregisterBackend h => ∀ handler ∈ s.handlers[h]?, ∀ backendId ∈ handler.phase.drops,
      ∀ other ∈ s.handlers, other.phase.adds ≠ some backendId
  | _ => True

instance (s : RouteState) (act : RouteAct) : Decidable (Apart s act) :=
  match act with
  | .addRoute h node => inferInstanceAs (Decidable (node.isSome = true → ∀ handler ∈ s.handlers[h]?,
      ∀ backendId ∈ handler.phase.adds, ∀ other ∈ s.handlers, other.phase.drops ≠ some backendId))
  | .unregisterBackend h => inferInstanceAs (Decidable (∀ handler ∈ s.handlers[h]?,
      ∀ backendId ∈ handler.phase.drops, ∀ other ∈ s.handlers, other.phase.adds ≠ some backendId))
  | .accept _ | .reload .. | .register .. | .unregister .. | .disconnect _ | .removeRoutes _ =>
    isTrue trivial

/-! ## The steps -/

theorem HandlerPhase.eq_of_adds {phase : HandlerPhase} {backendId : Int} (h : phase.adds = some backendId) :
    ∃ frame hosts, phase = .adding frame backendId hosts ∧ frame.namesBackend = true := by
  cases phase with
  | adding frame id hosts =>
    obtain ⟨hbackend, he⟩ := Option.ite_none_right_eq_some.1 h
    cases he
    exact ⟨frame, hosts, rfl, hbackend⟩
  | idle | found _ | removed _ => cases h

theorem HandlerPhase.eq_of_drops {phase : HandlerPhase} {backendId : Int} (h : phase.drops = some backendId) :
    phase = .removed backendId := by
  cases phase with
  | removed id =>
    cases h
    rfl
  | idle | adding _ _ _ | found _ => cases h

/-- Where there is no memory for it, no route is added. -/
theorem addRoute_none (frame : RegisterFrame) (backendId : Int) (table : RouteTable) (host : Bytes) :
    frame.addRoute backendId table host none = table := by
  unfold RegisterFrame.addRoute
  split_ifs <;> rfl

/-- What the functions that add a route write to it. -/
theorem mem_addRoute {frame : RegisterFrame} {backendId : Int} {table : RouteTable} {host : Bytes}
    {node : ArwsRoute} {route : ArwsRoute}
    (h : route ∈ (frame.addRoute backendId table host (some node)).routes) :
    route ∈ table.routes ∨ route.backendId = if frame.namesBackend then backendId else -1 := by
  unfold RegisterFrame.addRoute at h
  rw [RegisterFrame.namesBackend]
  split_ifs at h with hredirect hproxy hstream
  all_goals
    rcases List.mem_cons.1 ((routes_insert _ _ _).mem_iff.1 h) with rfl | h
    · right
      simp_all [ArwsRoute.written]
    · exact Or.inl h

/-- A route of a backend, where there is memory for it. -/
theorem mem_addRoute_self {frame : RegisterFrame} (hbackend : frame.namesBackend = true)
    (backendId : Int) (table : RouteTable) (host : Bytes) (node : ArwsRoute) :
    ∃ route ∈ (frame.addRoute backendId table host (some node)).routes, route.backendId = backendId := by
  simp only [RegisterFrame.namesBackend, Bool.and_eq_true, Bool.not_eq_true', beq_iff_eq] at hbackend
  rw [RegisterFrame.addRoute, if_neg (by rw [hbackend.1]; decide), if_neg (fun hne => hne hbackend.2)]
  exact ⟨_, (routes_insert _ _ _).mem_iff.2 List.mem_cons_self, rfl⟩

/-- What the configuration registers is to no backend. -/
theorem mem_registerAll {memory : Nat → Option ArwsRoute} {table : RouteTable}
    {calls : List Registration} {route : ArwsRoute}
    (h : route ∈ (registerAll memory table calls).routes) :
    route ∈ table.routes ∨ route.backendId = -1 := by
  rcases List.mem_append.1 ((routes_registerAll memory table calls).mem_iff.1 h) with h | h
  · right
    obtain ⟨⟨r, i⟩, -, hr⟩ := List.mem_flatMap.1 h
    obtain ⟨node, -, rfl⟩ := Option.map_eq_some_iff.1 (Option.mem_toList.1 hr)
    obtain ⟨kind, path, host, mode, target⟩ := r
    cases kind <;> rfl
  · exact Or.inl h

/-! ## What every run keeps -/

/-- What the tables hold for a handler where it is: the backend whose routes it adds, and no route of a
backend that it unregisters next. -/
def HandlerPhase.Fits (registry : Registry) (table : RouteTable) : HandlerPhase → Prop
  | .idle => True
  | .adding frame backendId hosts =>
    hosts ≠ [] ∧ (frame.namesBackend = true → registry.hasId backendId)
  | .found backendId => 0 < backendId
  | .removed backendId => 0 < backendId ∧ ∀ route ∈ table.routes, route.backendId ≠ backendId

/-- A phase fits other tables if they have the backend that it adds routes of, and no more routes of
the one that it gives up. -/
theorem HandlerPhase.Fits.mono {phase : HandlerPhase} {registry registry' : Registry}
    {table table' : RouteTable} (hfits : phase.Fits registry table)
    (hids : ∀ i ∈ phase.adds, registry.hasId i → registry'.hasId i)
    (hroutes : ∀ i ∈ phase.drops, ∀ route ∈ table'.routes,
      route ∈ table.routes ∨ route.backendId ≠ i) :
    phase.Fits registry' table' := by
  cases phase with
  | idle => trivial
  | adding frame backendId hosts =>
    exact ⟨hfits.1, fun hbackend => hids backendId (if_pos hbackend) (hfits.2 hbackend)⟩
  | found backendId => exact hfits
  | removed backendId =>
    refine ⟨hfits.1, fun route hroute => ?_⟩
    rcases hroutes backendId rfl route hroute with hold | hne
    · exact hfits.2 route hold
    · exact hne

/-- A backend that is given up has a positive id. -/
theorem HandlerPhase.Fits.drops_pos {phase : HandlerPhase} {registry : Registry} {table : RouteTable}
    (hfits : phase.Fits registry table) {backendId : Int} (hdrops : phase.drops = some backendId) :
    0 < backendId := by
  rw [HandlerPhase.eq_of_drops hdrops] at hfits
  exact hfits.1

structure Linked (s : RouteState) : Prop where
  proper : s.registry.Proper
  referenced : Referenced s
  fits : ∀ handler ∈ s.handlers, handler.phase.Fits s.registry s.routes

section Step

variable {s t : RouteState} {h : Nat} {handler : ConnHandler}

theorem fits_toAdd {registry : Registry} {table : RouteTable} {frame : RegisterFrame} {backendId : Int}
    (hid : frame.namesBackend = true → registry.hasId backendId) (hosts : List Bytes) :
    (HandlerPhase.toAdd frame backendId hosts).Fits registry table := by
  rw [HandlerPhase.toAdd]
  split
  · trivial
  · rename_i hne
    exact ⟨hne, hid⟩

theorem handlers_setPhase_of_ne {phase : HandlerPhase} {i : Nat} (hne : i ≠ h) :
    (s.setPhase h phase).handlers[i]? = s.handlers[i]? := by
  simp [RouteState.setPhase, hne.symm]

/-- One handler goes on, and the others fit as before. -/
theorem fits_setPhase {phase : HandlerPhase} (hphase : phase.Fits s.registry s.routes)
    (hothers : ∀ handler ∈ s.handlers, handler.phase.Fits s.registry s.routes) :
    ∀ handler ∈ (s.setPhase h phase).handlers, handler.phase.Fits s.registry s.routes := by
  intro handler hmem
  obtain ⟨i, hi⟩ := List.mem_iff_getElem?.1 hmem
  simp only [RouteState.setPhase, List.getElem?_modify, Option.map_eq_map, Option.map_eq_some_iff] at hi
  obtain ⟨old, hold, rfl⟩ := hi
  split
  · exact hphase
  · exact hothers old (List.mem_of_getElem? hold)

theorem Linked.setPhase (hl : Linked s) (h : Nat) {phase : HandlerPhase}
    (hphase : phase.Fits s.registry s.routes) : Linked (s.setPhase h phase) :=
  ⟨hl.proper, hl.referenced, fits_setPhase hphase hl.fits⟩

/-- A table with other routes, each of them to a registered backend or to none that is given up. -/
theorem Linked.withRoutes (hl : Linked s) {table : RouteTable}
    (hnew : ∀ route ∈ table.routes, route ∈ s.routes.routes ∨
      (0 < route.backendId → s.registry.hasId route.backendId) ∧
        ∀ other ∈ s.handlers, ∀ backendId ∈ other.phase.drops, route.backendId ≠ backendId) :
    Linked { s with routes := table } := by
  refine ⟨hl.proper, fun route hroute hpos => ?_, fun other hother => ?_⟩
  · rcases hnew route hroute with hold | ⟨hid, -⟩
    · exact hl.referenced route hold hpos
    · exact hid hpos
  · refine (hl.fits other hother).mono (fun _ _ hid => hid) fun backendId hdrops route hroute => ?_
    exact (hnew route hroute).imp_right fun ⟨_, hdropped⟩ => hdropped other hother backendId hdrops

/-- A registry with at least the ids. -/
theorem Linked.withRegistry (hl : Linked s) {registry : Registry} (hproper : registry.Proper)
    (hids : ∀ i, s.registry.hasId i →
      registry.hasId i ∨ (∀ route ∈ s.routes.routes, route.backendId ≠ i) ∧
        ∀ other ∈ s.handlers, other.phase.adds ≠ some i) :
    Linked { s with registry := registry } := by
  refine ⟨hproper, fun route hroute hpos => ?_, fun other hother => ?_⟩
  · rcases hids _ (hl.referenced route hroute hpos) with hid | ⟨hnone, -⟩
    · exact hid
    · exact absurd rfl (hnone route hroute)
  · refine (hl.fits other hother).mono (fun backendId hadds hid => ?_) fun _ _ _ hroute => Or.inl hroute
    rcases hids backendId hid with hid | ⟨-, hnone⟩
    · exact hid
    · exact absurd hadds (hnone other hother)

/-- A route to no backend may be added at any time. -/
theorem Linked.withTargets (hl : Linked s) {table : RouteTable}
    (hnew : ∀ route ∈ table.routes, route ∈ s.routes.routes ∨ route.backendId = -1) :
    Linked { s with routes := table } := by
  refine hl.withRoutes fun route hroute => (hnew route hroute).imp_right fun hid => ?_
  rw [hid]
  refine ⟨fun hpos => absurd hpos (by decide), fun other hother backendId hdrops he => ?_⟩
  have hpos := (hl.fits other hother).drops_pos hdrops
  omega

theorem Linked.register (hl : Linked s) {fd : Int} (h : Nat) (frame : RegisterFrame) :
    Linked ({ s with registry := (frame.registerBackend s.registry fd).1 }.setPhase h
      (.toAdd frame (frame.registerBackend s.registry fd).2
        (frame.routeHosts (frame.registerBackend s.registry fd).2))) := by
  rw [RegisterFrame.registerBackend]
  split
  · rename_i hbackend
    have hregistry := hl.withRegistry (hl.proper.register frame.name fd)
      fun i hi => Or.inl (hi.register frame.name fd)
    refine hregistry.setPhase h ?_
    by_cases hpos : 0 < (arwsRegisterBackend s.registry frame.name fd).2
    · exact fits_toAdd (fun _ => hasId_registered hpos) _
    · -- no backend, and so no hosts
      have hhosts : frame.routeHosts (arwsRegisterBackend s.registry frame.name fd).2 = [] := by
        simp only [RegisterFrame.namesBackend, Bool.and_eq_true, Bool.not_eq_true', beq_iff_eq] at hbackend
        rw [RegisterFrame.routeHosts, if_neg (by rw [hbackend.1]; decide), if_neg]
        exact fun hor => hor.elim (fun hne => hne hbackend.2) hpos
      rw [hhosts]
      exact trivial
  · rename_i hbackend
    exact hl.setPhase h (fits_toAdd (fun hyes => absurd hyes hbackend) _)

theorem Linked.addRoute (hl : Linked s) {fd : Int} {frame : RegisterFrame} {backendId : Int}
    {host : Bytes} {hosts : List Bytes}
    (hget : s.handlers[h]? = some ⟨fd, .adding frame backendId (host :: hosts)⟩)
    {node : Option ArwsRoute} (hapart : Apart s (.addRoute h node)) :
    Linked ({ s with routes := frame.addRoute backendId s.routes host node }.setPhase h
      (.toAdd frame backendId hosts)) := by
  have hfits := hl.fits _ (List.mem_of_getElem? hget)
  refine Linked.setPhase ?_ h (fits_toAdd hfits.2 hosts)
  cases node with
  | none =>
    rw [addRoute_none]
    exact hl
  | some node =>
    by_cases hbackend : frame.namesBackend = true
    · refine hl.withRoutes fun route hroute => (mem_addRoute hroute).imp_right fun hid => ?_
      rw [if_pos hbackend] at hid
      rw [hid]
      refine ⟨fun _ => hfits.2 hbackend, fun other hother id hdrops he => ?_⟩
      exact hapart rfl _ hget backendId (if_pos hbackend) other hother (he ▸ hdrops)
    · refine hl.withTargets fun route hroute => (mem_addRoute hroute).imp_right fun hid => ?_
      rwa [if_neg hbackend] at hid

theorem Linked.removeRoutes (hl : Linked s) {fd backendId : Int}
    (hget : s.handlers[h]? = some ⟨fd, .found backendId⟩) :
    Linked ({ s with routes := (arwsRemoveRoutesByBackend s.routes backendId).1 }.setPhase h
      (.removed backendId)) := by
  have hpos : 0 < backendId := hl.fits _ (List.mem_of_getElem? hget)
  refine Linked.setPhase ?_ h ⟨hpos, fun route hroute => (mem_removeRoutesByBackend.1 hroute).2⟩
  exact hl.withRoutes fun route hroute => Or.inl (mem_removeRoutesByBackend.1 hroute).1

theorem Linked.unregisterBackend (hl : Linked s) {fd backendId : Int}
    (hget : s.handlers[h]? = some ⟨fd, .removed backendId⟩)
    (hapart : Apart s (.unregisterBackend h)) :
    Linked ({ s with registry := (arwsUnregisterBackend s.registry backendId).1 }.setPhase h
      .idle) := by
  have hfits := hl.fits _ (List.mem_of_getElem? hget)
  refine Linked.setPhase (hl.withRegistry (hl.proper.unregister backendId) fun i hi => ?_) h trivial
  by_cases hne : i = backendId
  · subst hne
    exact Or.inr ⟨hfits.2, hapart _ hget i rfl⟩
  · exact Or.inl (hi.unregister hne)

/-- **A step that keeps registration and removal of a backend apart keeps every route to a registered
backend.** -/
theorem Linked.step (hl : Linked s) {act : RouteAct} (hapart : Apart s act)
    (hs : routeStep s act = some t) : Linked t := by
  cases act with
  | accept fd =>
    cases hs
    refine ⟨hl.proper, hl.referenced, fun other hother => ?_⟩
    rcases List.mem_append.1 hother with hother | hother
    · exact hl.fits other hother
    · rw [List.mem_singleton.1 hother]
      trivial
  | reload calls memory =>
    cases hs
    exact hl.withTargets fun route hroute => mem_registerAll hroute
  | register h buf =>
    simp only [routeStep] at hs
    split at hs
    · cases hs
      exact hl.register h _
    · cases hs
  | addRoute h node =>
    simp only [routeStep] at hs
    split at hs
    · rename_i hget
      cases hs
      exact hl.addRoute hget hapart
    · cases hs
  | unregister h backendId =>
    simp only [routeStep] at hs
    split at hs
    · obtain ⟨hpos, hs⟩ := Option.ite_none_right_eq_some.1 hs
      cases hs
      exact hl.setPhase h hpos
    · cases hs
  | disconnect h =>
    simp only [routeStep] at hs
    split at hs
    · cases hs
      split
      · rename_i hpos
        exact hl.setPhase h hpos
      · exact hl
    · cases hs
  | removeRoutes h =>
    simp only [routeStep] at hs
    split at hs
    · rename_i hget
      cases hs
      exact hl.removeRoutes hget
    · cases hs
  | unregisterBackend h =>
    simp only [routeStep] at hs
    split at hs
    · rename_i hget
      cases hs
      exact hl.unregisterBackend hget hapart
    · cases hs

theorem step_addRoute {fd : Int} {frame : RegisterFrame} {backendId : Int} {host : Bytes}
    {hosts : List Bytes}
    (hget : s.handlers[h]? = some ⟨fd, .adding frame backendId (host :: hosts)⟩) (node : Option ArwsRoute) :
    routeStep s (.addRoute h node) = some ({ s with
      routes := frame.addRoute backendId s.routes host node }.setPhase h (.toAdd frame backendId hosts)) := by
  simp only [routeStep, hget]

theorem step_unregisterBackend {fd backendId : Int}
    (hget : s.handlers[h]? = some ⟨fd, .removed backendId⟩) :
    routeStep s (.unregisterBackend h) = some ({ s with
      registry := (arwsUnregisterBackend s.registry backendId).1 }.setPhase h .idle) := by
  simp only [routeStep, hget]

/-- A route is added to a backend that another handler unregisters next. -/
theorem not_referenced_of_added (hl : Linked s) {fd : Int} {frame : RegisterFrame} {backendId : Int}
    {host : Bytes} {hosts : List Bytes}
    (hget : s.handlers[h]? = some ⟨fd, .adding frame backendId (host :: hosts)⟩)
    (hbackend : frame.namesBackend = true) {i : Nat} {other : Int}
    (hi : s.handlers[i]? = some ⟨other, .removed backendId⟩) (node : ArwsRoute)
    (hs : routeStep s (.addRoute h (some node)) = some t) :
    ∃ u, routeStep t (.unregisterBackend i) = some u ∧ ¬ Referenced u := by
  rw [step_addRoute hget] at hs
  cases hs
  have hne : i ≠ h := by
    rintro rfl
    rw [hget] at hi
    cases hi
  refine ⟨_, step_unregisterBackend (by rw [handlers_setPhase_of_ne hne]; exact hi), fun hu => ?_⟩
  obtain ⟨route, hroute, hid⟩ := mem_addRoute_self hbackend backendId s.routes host node
  have hpos : 0 < backendId := (hl.fits _ (List.mem_of_getElem? hi)).drops_pos rfl
  have hleft := hu route hroute (hid ▸ hpos)
  rw [hid] at hleft
  exact hl.proper.not_hasId_unregister backendId hleft

/-- A backend is unregistered that another handler adds a route to next. -/
theorem not_referenced_of_unregistered (hl : Linked s) {fd backendId : Int}
    (hget : s.handlers[h]? = some ⟨fd, .removed backendId⟩) {i : Nat} {other : Int}
    {frame : RegisterFrame} (hbackend : frame.namesBackend = true) {hosts : List Bytes}
    (hi : s.handlers[i]? = some ⟨other, .adding frame backendId hosts⟩)
    (hs : routeStep s (.unregisterBackend h) = some t) :
    ∃ u, routeStep t (.addRoute i (some .zero)) = some u ∧ ¬ Referenced u := by
  rw [step_unregisterBackend hget] at hs
  cases hs
  have hne : i ≠ h := by
    rintro rfl
    rw [hget] at hi
    cases hi
  obtain ⟨host, hosts, rfl⟩ := List.exists_cons_of_ne_nil (hl.fits _ (List.mem_of_getElem? hi)).1
  refine ⟨_, step_addRoute (by rw [handlers_setPhase_of_ne hne]; exact hi) _, fun hu => ?_⟩
  obtain ⟨route, hroute, hid⟩ := mem_addRoute_self hbackend backendId s.routes host .zero
  have hpos : 0 < backendId := (hl.fits _ (List.mem_of_getElem? hget)).drops_pos rfl
  have hleft := hu route hroute (hid ▸ hpos)
  rw [hid] at hleft
  exact hl.proper.not_hasId_unregister backendId hleft

/-- **The condition leaves nothing out**: behind a step that does not keep them apart, the next step of
the other handler can leave a route without its backend. -/
theorem not_referenced_next (hl : Linked s) {act : RouteAct} (hs : routeStep s act = some t)
    (hnot : ¬ Apart s act) : ∃ act' u, routeStep t act' = some u ∧ ¬ Referenced u := by
  cases act with
  | addRoute h node =>
    simp only [Apart, not_forall, not_not] at hnot
    obtain ⟨hnode, ⟨fd, phase⟩, hhandler, backendId, hadds, ⟨other, ophase⟩, hother, hdrops⟩ := hnot
    obtain ⟨node, rfl⟩ := Option.isSome_iff_exists.1 hnode
    obtain ⟨frame, hosts, rfl, hbackend⟩ := HandlerPhase.eq_of_adds hadds
    obtain ⟨i, hi⟩ := List.mem_iff_getElem?.1 hother
    cases HandlerPhase.eq_of_drops hdrops
    have hget : s.handlers[h]? = some ⟨fd, .adding frame backendId hosts⟩ := hhandler
    obtain ⟨host, hosts, rfl⟩ := List.exists_cons_of_ne_nil (hl.fits _ (List.mem_of_getElem? hget)).1
    exact ⟨_, not_referenced_of_added hl hget hbackend hi node hs⟩
  | unregisterBackend h =>
    simp only [Apart, not_forall, not_not] at hnot
    obtain ⟨⟨fd, phase⟩, hhandler, backendId, hdrops, ⟨other, ophase⟩, hother, hadds⟩ := hnot
    obtain ⟨frame, hosts, rfl, hbackend⟩ := HandlerPhase.eq_of_adds hadds
    obtain ⟨i, hi⟩ := List.mem_iff_getElem?.1 hother
    cases HandlerPhase.eq_of_drops hdrops
    exact ⟨_, not_referenced_of_unregistered hl hhandler hbackend hi hs⟩
  | accept _ | reload _ _ | register _ _ | unregister _ _ | disconnect _ | removeRoutes _ =>
    exact absurd trivial hnot

end Step

theorem linked_of_reach {s : RouteState} (h : routeHandlers.ReachUnder Apart s) : Linked s := by
  refine h.invariant ?_ fun s act t hl hapart hs => hl.step hapart hs
  rintro s rfl
  refine ⟨proper_init, fun route hroute => ?_, fun other hother => by cases hother⟩
  obtain ⟨idx, hidx⟩ := mem_routes_iff.1 hroute
  cases hidx

/-- **Every route is to a registered backend** in every run that keeps the registration and the removal
of a backend apart, also while handlers are in the middle of a frame. -/
theorem referenced_of_reach {s : RouteState} (h : routeHandlers.ReachUnder Apart s) : Referenced s :=
  (linked_of_reach h).referenced

private def oneHost : RegisterFrame := parseRegister (ascii "a / GET a.com test")

/-- The first handler adds the one route that is left. -/
private theorem step_oneHost {s : RouteState}
    (h : s.handlers = [⟨5, .adding oneHost 1 [ascii "a.com"]⟩, ⟨6, .idle⟩]) :
    ∃ t, routeHandlers.step s (.addRoute 0 (some .zero)) = some t ∧ t.Quiet ∧ t.registry = s.registry ∧
      ∃ route ∈ t.routes.routes, route.backendId = 1 := by
  have hbackend : oneHost.namesBackend = true := by decide +kernel
  have hget : s.handlers[0]? = some ⟨5, .adding oneHost 1 [ascii "a.com"]⟩ := by rw [h]; rfl
  refine ⟨{ s with routes := oneHost.addRoute 1 s.routes (ascii "a.com") (some .zero) }.setPhase 0
    (.toAdd oneHost 1 []), ?_, ?_, rfl, mem_addRoute_self hbackend 1 s.routes (ascii "a.com") .zero⟩
  · exact step_addRoute hget _
  · simp only [RouteState.Quiet, RouteState.setPhase, h]
    simp [HandlerPhase.toAdd]

/-- A backend is registered with a route, while another one is registered and unregistered. -/
theorem referenced_between : ∃ s, s.Quiet ∧ (∃ route ∈ s.routes.routes, route.backendId = 1) ∧
    Referenced s := by
  obtain ⟨s, hs, hhandlers⟩ : ∃ s, routeHandlers.runUnder Apart .start
      [.accept 5, .accept 6, .register 0 (ascii "a / GET a.com test"),
        .register 1 (ascii "b / GET b.com test"), .addRoute 1 none, .unregister 1 2, .removeRoutes 1,
        .unregisterBackend 1] = some s ∧
        s.handlers = [⟨5, .adding oneHost 1 [ascii "a.com"]⟩, ⟨6, .idle⟩] := ⟨_, rfl, rfl⟩
  obtain ⟨t, ht, hquiet, -, hroute⟩ := step_oneHost hhandlers
  refine ⟨t, hquiet, hroute,
    referenced_of_reach (.next (Machine.reachUnder_of_runUnder (.start rfl) hs) ?_ ht)⟩
  rw [Apart, hhandlers]
  decide

/-- **A route is left without its backend**: the backend is unregistered by its id between its
registration and its route. -/
theorem not_referenced : ¬ ∀ s, routeHandlers.Reach s → s.Quiet → Referenced s := by
  intro h
  obtain ⟨s, hs, hhandlers, hnone⟩ : ∃ s, routeHandlers.runUnder (fun _ _ => True) .start
      [.accept 5, .accept 6, .register 0 (ascii "a / GET a.com test"), .unregister 1 1,
        .removeRoutes 1, .unregisterBackend 1] = some s ∧
        s.handlers = [⟨5, .adding oneHost 1 [ascii "a.com"]⟩, ⟨6, .idle⟩] ∧
        s.registry.backends = [] := ⟨_, rfl, rfl, rfl⟩
  obtain ⟨t, ht, hquiet, hregistry, route, hmem, hid⟩ := step_oneHost hhandlers
  obtain ⟨b, hb, -⟩ := h t (.next (Machine.reachUnder_of_runUnder (.start rfl) hs) trivial ht) hquiet
    route hmem (by rw [hid]; decide)
  rw [hregistry, hnone] at hb
  cases hb

end Gateway
end Arws
