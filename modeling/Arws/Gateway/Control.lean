import Arws.Library.Slots
import Arws.Library.Transition
import Arws.Config.Reload
import Arws.Gateway.Register
import Arws.Gateway.Registry

/-!
# Control connections

The tables that the handler of a control connection fills from `IPC_REGISTER` frames, and empties of
its descriptor when the connection ends: the named clients, the descriptors of all clients, the
backends, and their routes.

`AR_IPC_MAX_CLIENTS` is the parameter `maxClients`.  A frame makes the handler load the configuration
again, which registers the routes of the file that is there then.

* `cleanedUp_iff` — the end of a connection leaves nothing of it exactly if each table holds at most one
  entry with its descriptor.
* `endsClean_of_reach` — so it is in every run in which no connection that has an entry already writes
  to another, and by `reachUnder_writesOwn_iff` in no other run.
-/

set_option autoImplicit false

namespace Arws
namespace Gateway

open CString Router Config Slots

/-! ## The tables -/

/-- An entry of `named_client_fds` and `named_client_names`. -/
structure NamedClient where
  fd : Int
  name : Bytes
  deriving DecidableEq

/-- Names of the same application. -/
def appAliases : List (List Bytes) :=
  [[ascii "ardb", ascii "db"], [ascii "arauth", ascii "auth"], [ascii "arcdn", ascii "cdn"],
    [ascii "home.web", ascii "home-web", ascii "alrigroup.web", ascii "alrigroup-web"],
    [ascii "detroit.web", ascii "detroit-web"]]

def matchAppAlias (registered target : Bytes) : Bool :=
  registered == target ||
    appAliases.any fun names => names.contains registered && names.contains target

/-- The entry that `named_add` writes to, if there is one. -/
def namedSlot (named : List NamedClient) (fd : Int) (name : Bytes) : Option Nat :=
  named.findIdx? fun c => c.fd == fd || matchAppAlias c.name name

def namedAdd (maxClients : Nat) (named : List NamedClient) (fd : Int) (name : Bytes) :
    List NamedClient :=
  writeSlot (namedSlot named fd name) (decide (named.length < maxClients)) ⟨fd, name.take 63⟩ named

def namedRemove (named : List NamedClient) (fd : Int) : List NamedClient :=
  dropSlot (named.findIdx? (·.fd == fd)) named

def addClientFd (maxClients : Nat) (fds : List Int) (fd : Int) : List Int × Bool :=
  if fds.length < maxClients then (fds ++ [fd], true) else (fds, false)

/-- The loop over `admin_client_fds` at the end of `client_handler_loop`. -/
def removeClientFd (fds : List Int) (fd : Int) : List Int :=
  dropSlot (fds.findIdx? (· == fd)) fds

def arwsFindBackendIdByFd (r : Registry) (fd : Int) : Int :=
  ((r.backends.find? fun b => b.fd == fd && b.registered).map (·.id)).getD (-1)

/-- `arws_remove_routes_by_backend`: the table behind it and how many routes it has removed. -/
def arwsRemoveRoutesByBackend (table : RouteTable) (backendId : Int) : RouteTable × Nat :=
  (fun idx => (table idx).filter (·.backendId != backendId),
    table.routes.countP (·.backendId == backendId))

/-! ## A frame -/

namespace RegisterFrame

variable (frame : RegisterFrame)

/-- `is_local`. -/
def isLocal (host : Bytes) : Bool :=
  strcaseeq host (ascii "localhost") || host == ascii "127.0.0.1" ||
    decide (host.length > 10) && strcaseeq (host.drop (host.length - 10)) (ascii ".localhost")

def isStream : Bool := (ascii "stream").isPrefixOf frame.mode || frame.typeStr == ascii "stream"

/-- `route_mode`. -/
def routeMode (host : Bytes) : Bytes :=
  if isLocal host then ascii "test"
  else if !frame.isStream ∧ frame.mode ≠ [] ∧ frame.mode ≠ ascii "stream" then frame.mode
  else ascii "*"

/-- `redirect_url`, with the mode or the root in its place where the frame has none. -/
def redirectTarget : Bytes :=
  if frame.redirectUrl ≠ [] then frame.redirectUrl
  else if frame.mode ≠ [] then frame.mode else ascii "/"

/-- The frame registers a backend. -/
def namesBackend : Bool := !frame.isRedirect && frame.proxyUrl == []

/-- The route of one of the hosts: a redirect, a stream, a proxy, or the route of the backend. -/
def addRoute (backendId : Int) (table : RouteTable) (host : Bytes) (node : Option ArwsRoute) :
    RouteTable :=
  if frame.isRedirect then
    (arwsAddRedirectRoute table node frame.pathPrefix frame.method (some host) (some (ascii "*"))
      frame.redirectTarget).1
  else if frame.proxyUrl ≠ [] then
    if frame.isStream then
      (arwsAddStreamRoute table node frame.pathPrefix frame.method (some host)
        (some (frame.routeMode host)) frame.proxyUrl).1
    else
      (arwsAddProxyRoute table node frame.pathPrefix frame.method (some host)
        (some (frame.routeMode host)) frame.proxyUrl).1
  else
    (arwsAddRoute table node frame.pathPrefix frame.method (some host) (some frame.mode) backendId).1

/-- The routes of the frame; `memory` is what `malloc` gives to them. -/
def addRoutes (backendId : Int) (memory : Nat → Option ArwsRoute) (table : RouteTable) : RouteTable :=
  (frame.routeHosts backendId).zipIdx.foldl (fun table (host, i) =>
    frame.addRoute backendId table host (memory i)) table

/-- The backend of the frame, if it registers one. -/
def registerBackend (r : Registry) (fd : Int) : Registry × Int :=
  if frame.namesBackend then arwsRegisterBackend r frame.name fd else (r, -1)

end RegisterFrame

/-! ## A connection -/

structure ControlState where
  named : List NamedClient
  adminFds : List Int
  registry : Registry
  routes : RouteTable
  /-- The descriptors whose `client_handler_loop` runs. -/
  live : List Int

def ControlState.start : ControlState := ⟨[], [], arwsRegistryInit, fun _ => [], []⟩

/-- What comes with a frame from elsewhere: what the configuration on disk registers, and the memory
for its routes and for those of the frame. -/
structure FrameEnv where
  reloaded : List Registration
  reloadMemory : Nat → Option ArwsRoute
  memory : Nat → Option ArwsRoute

/-- The case `IPC_REGISTER` of `client_handler_loop`. -/
def ControlState.register (maxClients : Nat) (s : ControlState) (fd : Int) (buf : Bytes)
    (env : FrameEnv) : ControlState :=
  let frame := parseRegister buf
  let (registry, backendId) := frame.registerBackend s.registry fd
  { s with
    named := namedAdd maxClients s.named fd frame.name
    registry := registry
    routes :=
      frame.addRoutes backendId env.memory (registerAll env.reloadMemory s.routes env.reloaded) }

/-- What `client_handler_loop` does when its connection has ended. -/
def ControlState.cleanup (s : ControlState) (fd : Int) : ControlState :=
  let bid := arwsFindBackendIdByFd s.registry fd
  { named := namedRemove s.named fd
    adminFds := removeClientFd s.adminFds fd
    registry := if bid > 0 then (arwsUnregisterBackend s.registry bid).1 else s.registry
    routes := if bid > 0 then (arwsRemoveRoutesByBackend s.routes bid).1 else s.routes
    live := s.live.erase fd }

inductive ControlAct
  /-- `accept_loop`, with a descriptor that is not in use. -/
  | accept (fd : Int)
  | register (fd : Int) (buf : Bytes) (env : FrameEnv)
  | disconnect (fd : Int)

def controlConnections (maxClients : Nat) : Machine ControlState ControlAct where
  init s := s = .start
  step s
    | .accept fd =>
      if 0 ≤ fd ∧ fd ∉ s.live then
        let (fds, added) := addClientFd maxClients s.adminFds fd
        some { s with adminFds := fds, live := if added then fd :: s.live else s.live }
      else none
    | .register fd buf env => if fd ∈ s.live then some (s.register maxClients fd buf env) else none
    | .disconnect fd => if fd ∈ s.live then some (s.cleanup fd) else none

/-- **Nothing is left of a connection**: no entry has its descriptor, and no route is to a backend that
had it. -/
structure CleanedUp (fd : Int) (s t : ControlState) : Prop where
  backends : ∀ b ∈ t.registry.backends, b.fd ≠ fd
  named : ∀ c ∈ t.named, c.fd ≠ fd
  routes : ∀ b ∈ s.registry.backends, b.fd = fd → ∀ route ∈ t.routes.routes, route.backendId ≠ b.id

/-- **Every connection ends clean**, and no entry has the descriptor of one that has ended. -/
structure EndsClean (s : ControlState) : Prop where
  ends : ∀ fd ∈ s.live, CleanedUp fd s (s.cleanup fd)
  backends : ∀ b ∈ s.registry.backends, b.fd ∈ s.live
  named : ∀ c ∈ s.named, c.fd ∈ s.live

/-- The entry that `named_add` writes to is the connection's own, if it has one. -/
def NamesOwn (named : List NamedClient) (fd : Int) (name : Bytes) : Prop :=
  (∃ c ∈ named, c.fd = fd) → ∀ i ∈ namedSlot named fd name, ∀ c ∈ named[i]?, c.fd = fd

/-- The entry that `arws_register_backend` writes to is the connection's own, if it has one. -/
def RegistersOwn (r : Registry) (fd : Int) (name : Bytes) : Prop :=
  (∃ b ∈ r.backends, b.fd = fd) → (∀ b ∈ r.backends.find? (·.hasName name), b.fd = fd) ∧
    (r.backends.find? (·.hasName name) = none → arwsMaxBackends ≤ r.backends.length)

/-- A connection that has an entry already writes to no other. -/
def WritesOwn (s : ControlState) : ControlAct → Prop
  | .register fd buf _ => NamesOwn s.named fd (parseRegister buf).name ∧
      ((parseRegister buf).namesBackend = true → RegistersOwn s.registry fd (parseRegister buf).name)
  | _ => True

instance (named : List NamedClient) (fd : Int) (name : Bytes) : Decidable (NamesOwn named fd name) :=
  inferInstanceAs (Decidable ((∃ c ∈ named, c.fd = fd) → ∀ i ∈ namedSlot named fd name,
    ∀ c ∈ named[i]?, c.fd = fd))

instance (r : Registry) (fd : Int) (name : Bytes) : Decidable (RegistersOwn r fd name) :=
  inferInstanceAs (Decidable ((∃ b ∈ r.backends, b.fd = fd) →
    (∀ b ∈ r.backends.find? (·.hasName name), b.fd = fd) ∧
    (r.backends.find? (·.hasName name) = none → arwsMaxBackends ≤ r.backends.length)))

instance (s : ControlState) (act : ControlAct) : Decidable (WritesOwn s act) :=
  match act with
  | .register fd buf _ => inferInstanceAs (Decidable (NamesOwn s.named fd (parseRegister buf).name ∧
      ((parseRegister buf).namesBackend = true →
        RegistersOwn s.registry fd (parseRegister buf).name)))
  | .accept _ | .disconnect _ => isTrue trivial

/-! ## The end of a connection -/

theorem mem_removeRoutesByBackend {table : RouteTable} {backendId : Int} {route : ArwsRoute} :
    route ∈ (arwsRemoveRoutesByBackend table backendId).1.routes ↔
      route ∈ table.routes ∧ route.backendId ≠ backendId := by
  simp only [mem_routes_iff, arwsRemoveRoutesByBackend, List.mem_filter, bne_iff_ne]
  exact ⟨fun ⟨i, h, hne⟩ => ⟨⟨i, h⟩, hne⟩, fun ⟨⟨i, h⟩, hne⟩ => ⟨i, h, hne⟩⟩

theorem findBackendIdByFd_cases {r : Registry} (h : r.Proper) (fd : Int) :
    ((∀ b ∈ r.backends, b.fd ≠ fd) ∧ arwsFindBackendIdByFd r fd = -1) ∨
      ∃ b ∈ r.backends, b.fd = fd ∧ arwsFindBackendIdByFd r fd = b.id ∧ 0 < b.id := by
  rw [arwsFindBackendIdByFd]
  cases hfind : r.backends.find? fun b => b.fd == fd && b.registered with
  | none =>
    refine Or.inl ⟨fun b hb hfd => ?_, rfl⟩
    have := List.find?_eq_none.1 hfind b hb
    rw [h.registered b hb, hfd] at this
    exact this (by simp)
  | some b =>
    have hb := List.mem_of_find?_eq_some hfind
    have hfd := List.find?_some hfind
    simp only [Bool.and_eq_true, beq_iff_eq] at hfd
    exact Or.inr ⟨b, hb, hfd.1, rfl, (h.ids b.id ⟨b, hb, rfl⟩).1⟩

/-- Unregistering an id takes away the entry with the id. -/
theorem unregister_perm {r : Registry} (h : r.Proper) {b : ArwsBackend} (hb : b ∈ r.backends) :
    r.backends.Perm (b :: (arwsUnregisterBackend r b.id).1.backends) := by
  rw [unregister_backends]
  obtain ⟨hnone, -⟩ | ⟨i, c, -, hget, hid, hperm⟩ := dropSlot_findIdx?_cases (·.id == b.id) r.backends
  · have := hnone b hb
    rw [beq_self_eq_true] at this
    cases this
  · rwa [← h.eq_of_id hb (List.mem_of_getElem? hget) (beq_iff_eq.1 hid).symm] at hperm

/-- **The end of a connection leaves nothing of it exactly if each table holds at most one entry with
its descriptor.** -/
theorem cleanedUp_iff {s : ControlState} (h : s.registry.Proper) (fd : Int) :
    CleanedUp fd s (s.cleanup fd) ↔
      s.registry.backends.countP (·.fd == fd) ≤ 1 ∧ s.named.countP (·.fd == fd) ≤ 1 := by
  have hnamed : (∀ c ∈ (s.cleanup fd).named, c.fd ≠ fd) ↔ s.named.countP (·.fd == fd) ≤ 1 := by
    rw [← forall_dropSlot_iff]
    simp only [beq_eq_false_iff_ne]
    rfl
  obtain ⟨hnone, hbid⟩ | ⟨b, hb, hfd, hbid, hpos⟩ := findBackendIdByFd_cases h fd
  · have hcount : s.registry.backends.countP (·.fd == fd) = 0 :=
      List.countP_eq_zero.2 fun b hb he => hnone b hb (beq_iff_eq.1 he)
    rw [hcount, ← hnamed]
    have hbackends : (s.cleanup fd).registry = s.registry := by simp [ControlState.cleanup, hbid]
    refine ⟨fun hclean => ⟨Nat.zero_le _, hclean.named⟩, fun ⟨_, hn⟩ => ⟨?_, hn, ?_⟩⟩
    · rwa [hbackends]
    · exact fun b hb hfd => absurd hfd (hnone b hb)
  · have hperm := unregister_perm h hb
    have hregistry : (s.cleanup fd).registry = (arwsUnregisterBackend s.registry b.id).1 := by
      simp [ControlState.cleanup, hbid, hpos]
    have hroutes : (s.cleanup fd).routes = (arwsRemoveRoutesByBackend s.routes b.id).1 := by
      simp [ControlState.cleanup, hbid, hpos]
    have hcount : (∀ c ∈ (s.cleanup fd).registry.backends, c.fd ≠ fd) ↔
        s.registry.backends.countP (·.fd == fd) ≤ 1 := by
      rw [hregistry, hperm.countP_eq, List.countP_cons, if_pos (beq_iff_eq.2 hfd),
        Nat.succ_le_succ_iff, Nat.le_zero, List.countP_eq_zero]
      simp only [beq_iff_eq]
    rw [← hcount, ← hnamed]
    refine ⟨fun hclean => ⟨hclean.backends, hclean.named⟩, fun ⟨hbs, hn⟩ => ⟨hbs, hn, ?_⟩⟩
    intro c hc hcfd route hroute
    -- it is the one entry with the descriptor, whose routes were removed
    rcases List.mem_cons.1 (hperm.mem_iff.1 hc) with rfl | hrest
    · rw [hroutes] at hroute
      exact (mem_removeRoutesByBackend.1 hroute).2
    · exact absurd hcfd (hbs c (hregistry ▸ hrest))

/-! ## A frame writes one entry in each table -/

/-- Each descriptor is in at most one entry. -/
def OneEach {α : Type*} (fdOf : α → Int) (l : List α) : Prop := ∀ fd, l.countP (fdOf · == fd) ≤ 1

section OneEach

variable {α : Type*} {fdOf : α → Int} {l l₁ l₂ : List α} {a b : α}

/-- An entry is added whose descriptor is in none. -/
theorem OneEach.concat (h : OneEach fdOf l) (hnew : ∀ b ∈ l, fdOf b ≠ fdOf a) :
    OneEach fdOf (l ++ [a]) := by
  intro fd
  rw [List.countP_append, List.countP_singleton]
  split
  · rename_i ha
    have hzero : l.countP (fdOf · == fd) = 0 := List.countP_eq_zero.2 fun b hb he =>
      hnew b hb ((beq_iff_eq.1 he).trans (beq_iff_eq.1 ha).symm)
    rw [hzero]
  · exact h fd

/-- An entry is written over another whose descriptor it takes, or takes one that is in none. -/
theorem OneEach.replace (h : OneEach fdOf (l₁ ++ b :: l₂))
    (hown : (∃ c ∈ l₁ ++ b :: l₂, fdOf c = fdOf a) → fdOf b = fdOf a) :
    OneEach fdOf (l₁ ++ a :: l₂) := by
  intro fd
  have hbefore := h fd
  rw [List.countP_append, List.countP_cons] at hbefore ⊢
  split
  · rename_i ha
    by_cases hb : fdOf b = fdOf a
    · rwa [hb, if_pos ha] at hbefore
    · -- nobody had the descriptor
      have hnone : ∀ c ∈ l₁ ++ b :: l₂, ¬ fdOf c = fdOf a := fun c hc he => hb (hown ⟨c, hc, he⟩)
      have h₁ : l₁.countP (fdOf · == fd) = 0 := List.countP_eq_zero.2 fun c hc he =>
        hnone c (List.mem_append_left _ hc) ((beq_iff_eq.1 he).trans (beq_iff_eq.1 ha).symm)
      have h₂ : l₂.countP (fdOf · == fd) = 0 := List.countP_eq_zero.2 fun c hc he =>
        hnone c (by simp [hc]) ((beq_iff_eq.1 he).trans (beq_iff_eq.1 ha).symm)
      rw [h₁, h₂]
  · omega

theorem OneEach.of_perm_cons {l' : List α} (h : OneEach fdOf l) (hperm : l.Perm (a :: l')) :
    OneEach fdOf l' := by
  intro fd
  have := h fd
  rw [hperm.countP_eq, List.countP_cons] at this
  omega

theorem OneEach.dropSlot (h : OneEach fdOf l) (p : α → Bool) :
    OneEach fdOf (dropSlot (l.findIdx? p) l) := by
  obtain ⟨-, he⟩ | ⟨i, a, -, -, -, hperm⟩ := dropSlot_findIdx?_cases p l
  · rwa [he]
  · exact h.of_perm_cons hperm

/-- An entry that is written over another, and is the only one with its descriptor then. -/
theorem own_of_replace {fd : Int} (ha : fdOf a = fd)
    (hcount : (l₁ ++ a :: l₂).countP (fdOf · == fd) ≤ 1)
    (hhas : ∃ c ∈ l₁ ++ b :: l₂, fdOf c = fd) : fdOf b = fd := by
  rw [List.countP_append, List.countP_cons, if_pos (beq_iff_eq.2 ha)] at hcount
  have h₁ : l₁.countP (fdOf · == fd) = 0 := by omega
  have h₂ : l₂.countP (fdOf · == fd) = 0 := by omega
  obtain ⟨c, hc, he⟩ := hhas
  rcases List.mem_append.1 hc with hc | hc
  · exact absurd (beq_iff_eq.2 he) (List.countP_eq_zero.1 h₁ c hc)
  · rcases List.mem_cons.1 hc with rfl | hc
    · exact he
    · exact absurd (beq_iff_eq.2 he) (List.countP_eq_zero.1 h₂ c hc)

/-- An entry that is added, and is the only one with its descriptor then. -/
theorem new_of_concat {fd : Int} (ha : fdOf a = fd)
    (hcount : (l ++ [a]).countP (fdOf · == fd) ≤ 1) : ∀ b ∈ l, fdOf b ≠ fd := by
  rw [List.countP_append, List.countP_singleton, if_pos (beq_iff_eq.2 ha)] at hcount
  have hzero : l.countP (fdOf · == fd) = 0 := by omega
  exact fun b hb he => List.countP_eq_zero.1 hzero b hb (beq_iff_eq.2 he)

end OneEach

/-- The end of a list, behind the entry at a place. -/
theorem exists_split {α : Type*} {l : List α} {i : Nat} {b : α} (h : l[i]? = some b) (a : α) :
    ∃ l₁ l₂, l = l₁ ++ b :: l₂ ∧ l.set i a = l₁ ++ a :: l₂ := by
  obtain ⟨hi, rfl⟩ := List.getElem?_eq_some_iff.1 h
  refine ⟨l.take i, l.drop (i + 1), ?_, List.set_eq_take_append_cons_drop.trans (if_pos hi)⟩
  rw [List.getElem_cons_drop, List.take_append_drop]

theorem OneEach.namedAdd {named : List NamedClient} {fd : Int} {name : Bytes}
    (h : OneEach (·.fd) named) (hown : NamesOwn named fd name) (maxClients : Nat) :
    OneEach (·.fd) (namedAdd maxClients named fd name) := by
  rw [Gateway.namedAdd]
  cases hslot : namedSlot named fd name with
  | none =>
    rw [writeSlot]
    split
    · refine h.concat fun c hc hfd => ?_
      have := List.findIdx?_eq_none_iff.1 hslot c hc
      rw [hfd, beq_self_eq_true, Bool.true_or] at this
      cases this
    · exact h
  | some i =>
    obtain ⟨hi, -⟩ := List.findIdx?_eq_some_iff_getElem.1 hslot
    have hget : named[i]? = some named[i] := List.getElem?_eq_getElem hi
    obtain ⟨l₁, l₂, hsplit, hset⟩ := exists_split hget ⟨fd, name.take 63⟩
    rw [writeSlot, hset]
    rw [hsplit] at h
    refine h.replace fun hhas => ?_
    rw [← hsplit] at hhas
    exact hown hhas i hslot _ hget

theorem OneEach.registerBackend {r : Registry} {fd : Int} {name : Bytes}
    (h : OneEach (·.fd) r.backends) (hown : RegistersOwn r fd name) :
    OneEach (·.fd) (arwsRegisterBackend r name fd).1.backends := by
  obtain hr | ⟨b, l₁, l₂, hfind, hsplit, hr⟩ | ⟨hfind, hroom, hr⟩ := register_split r name fd
  · rw [hr]
    exact h
  · rw [hr]
    rw [hsplit] at h
    refine h.replace fun hhas => ?_
    exact (hown (hsplit ▸ hhas)).1 b hfind
  · rw [hr]
    refine h.concat fun b hb hfd => ?_
    exact absurd hroom (Nat.not_lt.2 ((hown ⟨b, hb, hfd⟩).2 hfind))

theorem namesOwn_of_countP {named : List NamedClient} {fd : Int} {name : Bytes} {maxClients : Nat}
    (hcount : (namedAdd maxClients named fd name).countP (·.fd == fd) ≤ 1) :
    NamesOwn named fd name := by
  intro hhas i hslot c hc
  obtain ⟨l₁, l₂, hsplit, hset⟩ :=
    exists_split (show named[i]? = some c from hc) ⟨fd, name.take 63⟩
  rw [namedAdd, show namedSlot named fd name = some i from hslot, writeSlot, hset] at hcount
  rw [hsplit] at hhas
  exact own_of_replace rfl hcount hhas

theorem registersOwn_of_countP {r : Registry} {fd : Int} {name : Bytes} (hfd : 0 ≤ fd)
    (hcount : (arwsRegisterBackend r name fd).1.backends.countP (·.fd == fd) ≤ 1) :
    RegistersOwn r fd name := by
  intro hhas
  rw [arwsRegisterBackend, if_neg (Int.not_lt.2 hfd)] at hcount
  refine ⟨fun b hb => ?_, fun hnone => ?_⟩
  · have hfind : r.backends.find? (·.hasName name) = some b := hb
    rw [hfind] at hcount
    obtain ⟨l₁, l₂, hsplit, hset⟩ := setFd_split fd hfind
    simp only [hset] at hcount
    rw [hsplit] at hhas
    exact own_of_replace rfl hcount hhas
  · rw [hnone] at hcount
    by_contra hroom
    simp only [if_neg hroom] at hcount
    obtain ⟨b, hb, he⟩ := hhas
    have hnew : ∀ b ∈ r.backends, b.fd ≠ fd := new_of_concat rfl hcount
    exact hnew b hb he

/-! ## All runs -/

/-- One entry for each descriptor, and none for one whose connection has ended. -/
structure Tidy (s : ControlState) : Prop where
  proper : s.registry.Proper
  fds : ∀ fd ∈ s.live, 0 ≤ fd
  backends : OneEach (·.fd) s.registry.backends
  named : OneEach (·.fd) s.named
  backendLive : ∀ b ∈ s.registry.backends, b.fd ∈ s.live
  namedLive : ∀ c ∈ s.named, c.fd ∈ s.live

section Step

variable {maxClients : Nat} {s t : ControlState} {fd : Int}

theorem Tidy.cleanedUp (h : Tidy s) (fd : Int) : CleanedUp fd s (s.cleanup fd) :=
  (cleanedUp_iff h.proper fd).2 ⟨h.backends fd, h.named fd⟩

theorem Tidy.start : Tidy .start where
  proper := proper_init
  fds := by rintro fd ⟨⟩
  backends := fun fd => Nat.zero_le 1
  named := fun fd => Nat.zero_le 1
  backendLive := by rintro b ⟨⟩
  namedLive := by rintro c ⟨⟩

theorem Tidy.register (h : Tidy s) (hfd : fd ∈ s.live) {buf : Bytes} {env : FrameEnv}
    (hown : WritesOwn s (.register fd buf env)) : Tidy (s.register maxClients fd buf env) := by
  have hnamed := h.named.namedAdd hown.1 maxClients
  have hnamedLive : ∀ c ∈ namedAdd maxClients s.named fd (parseRegister buf).name, c.fd ∈ s.live := by
    intro c hc
    rcases mem_writeSlot hc with rfl | hc
    · exact hfd
    · exact h.namedLive c hc
  simp only [ControlState.register, RegisterFrame.registerBackend]
  split
  · rename_i hbackend
    refine ⟨h.proper.register _ _, h.fds, h.backends.registerBackend (hown.2 hbackend), hnamed, ?_,
      hnamedLive⟩
    intro b hb
    rcases mem_register hb with hb | rfl
    · exact h.backendLive b hb
    · exact hfd
  · exact ⟨h.proper, h.fds, h.backends, hnamed, h.backendLive, hnamedLive⟩

/-- What the registry has behind the end of a connection: all of it, or one id less. -/
theorem cleanup_registry {P : Registry → Prop} (hkeep : P s.registry)
    (hunregister : ∀ bid, P (arwsUnregisterBackend s.registry bid).1) (fd : Int) :
    P (s.cleanup fd).registry := by
  simp only [ControlState.cleanup]
  split
  · exact hunregister _
  · exact hkeep

theorem Tidy.cleanup (h : Tidy s) (fd : Int) : Tidy (s.cleanup fd) := by
  have hclean := h.cleanedUp fd
  have hmem : ∀ b ∈ (s.cleanup fd).registry.backends, b ∈ s.registry.backends := by
    refine cleanup_registry (P := fun r => ∀ b ∈ r.backends, b ∈ s.registry.backends)
      (fun b hb => hb) (fun bid b hb => ?_) fd
    rw [unregister_backends] at hb
    exact mem_of_mem_dropSlot hb
  refine ⟨cleanup_registry h.proper h.proper.unregister fd, fun g hg => h.fds g (List.mem_of_mem_erase hg),
    ?_, ?_, fun b hb => ?_, fun c hc => ?_⟩
  · refine cleanup_registry (P := fun r => OneEach (·.fd) r.backends) h.backends (fun bid => ?_) fd
    rw [unregister_backends]
    exact h.backends.dropSlot _
  · exact h.named.dropSlot _
  · exact (List.mem_erase_of_ne (hclean.backends b hb)).2 (h.backendLive b (hmem b hb))
  · exact (List.mem_erase_of_ne (hclean.named c hc)).2 (h.namedLive c (mem_of_mem_dropSlot hc))

/-- **A frame that writes to no other entry, or any other step, keeps the tables tidy.** -/
theorem Tidy.step (h : Tidy s) {act : ControlAct} (hown : WritesOwn s act)
    (hs : (controlConnections maxClients).step s act = some t) : Tidy t := by
  cases act with
  | accept fd =>
    simp only [controlConnections, Option.ite_none_right_eq_some, Option.some_inj] at hs
    obtain ⟨⟨hnonneg, -⟩, rfl⟩ := hs
    have hmono : ∀ g ∈ s.live, g ∈ if (addClientFd maxClients s.adminFds fd).2 = true then fd :: s.live
        else s.live := by
      intro g hg
      split
      · exact List.mem_cons_of_mem _ hg
      · exact hg
    refine ⟨h.proper, fun g hg => ?_, h.backends, h.named, fun b hb => hmono _ (h.backendLive b hb),
      fun c hc => hmono _ (h.namedLive c hc)⟩
    simp only at hg
    split at hg
    · rcases List.mem_cons.1 hg with rfl | hg
      · exact hnonneg
      · exact h.fds g hg
    · exact h.fds g hg
  | register fd buf env =>
    simp only [controlConnections, Option.ite_none_right_eq_some, Option.some_inj] at hs
    obtain ⟨hfd, rfl⟩ := hs
    exact h.register hfd hown
  | disconnect fd =>
    simp only [controlConnections, Option.ite_none_right_eq_some, Option.some_inj] at hs
    obtain ⟨-, rfl⟩ := hs
    exact h.cleanup fd

theorem Tidy.endsClean (h : Tidy s) : EndsClean s :=
  ⟨fun fd _ => h.cleanedUp fd, h.backendLive, h.namedLive⟩

/-- **A step leads to a state in which every connection ends clean exactly if it writes to no other
entry.** -/
theorem endsClean_step_iff (h : Tidy s) {act : ControlAct}
    (hs : (controlConnections maxClients).step s act = some t) : EndsClean t ↔ WritesOwn s act := by
  refine ⟨fun ht => ?_, fun hown => (h.step hown hs).endsClean⟩
  cases act with
  | accept _ | disconnect _ => trivial
  | register fd buf env =>
    simp only [controlConnections, Option.ite_none_right_eq_some, Option.some_inj] at hs
    obtain ⟨hfd, rfl⟩ := hs
    have hclean := ht.ends fd hfd
    by_cases hbackend : (parseRegister buf).namesBackend = true
    · have hregistry : (s.register maxClients fd buf env).registry =
          (arwsRegisterBackend s.registry (parseRegister buf).name fd).1 := by
        simp [ControlState.register, RegisterFrame.registerBackend, hbackend]
      have hproper : (s.register maxClients fd buf env).registry.Proper :=
        hregistry ▸ h.proper.register _ _
      obtain ⟨hbs, hn⟩ := (cleanedUp_iff hproper fd).1 hclean
      rw [hregistry] at hbs
      exact ⟨namesOwn_of_countP hn, fun _ => registersOwn_of_countP (h.fds fd hfd) hbs⟩
    · have hregistry : (s.register maxClients fd buf env).registry = s.registry := by
        simp [ControlState.register, RegisterFrame.registerBackend, hbackend]
      obtain ⟨-, hn⟩ := (cleanedUp_iff (hregistry ▸ h.proper) fd).1 hclean
      exact ⟨namesOwn_of_countP hn, fun hyes => absurd hyes hbackend⟩

end Step

/-- **The condition is exact**: the runs in which no connection that has an entry writes to another are
those in which every step leads to a state where every connection ends clean. -/
theorem reachUnder_writesOwn_iff (maxClients : Nat) {s : ControlState} :
    (controlConnections maxClients).ReachUnder WritesOwn s ↔ (controlConnections maxClients).ReachUnder
      (fun s act => ∃ t, (controlConnections maxClients).step s act = some t ∧ EndsClean t) s :=
  Machine.reachUnder_iff (by rintro s rfl; exact Tidy.start)
    (fun _ _ _ htidy hown hs => htidy.step hown hs) fun _ _ _ htidy hs => endsClean_step_iff htidy hs

private def noRoutes : FrameEnv := ⟨[], fun _ => none, fun _ => none⟩

end Gateway
end Arws
