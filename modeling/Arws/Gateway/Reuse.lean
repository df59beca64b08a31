import Arws.Gateway.Control

/-!
# The end of a connection beside others

When a connection has ended, its handler looks for its backend by its descriptor and unregisters what it
has found by the id, closes the descriptor, and takes it from the named clients and from the list of all
clients, each under the mutex of its table.  Other handlers run in between, and behind the close a
connection may be accepted that is given the same number.

A named client carries the number of the connection that has written it, and an id that of the
connection that has registered it last; nothing but the statements looks at these.

* `sparesOthers_of_reach` — the end of a connection takes away nothing of another that lives, in every
  run in which nobody takes the name of a backend that is about to be unregistered, or writes a named
  client under a descriptor that is about to be removed; by `reachUnder_unhurried_iff` it is so in no
  other run.
* `not_sparesOthers` — a descriptor that is used again is enough to lose a named client.
-/

set_option autoImplicit false

namespace Arws
namespace Gateway

open CString Slots

/-- Where the handler of a connection is. -/
inductive LifePhase
  /-- Between two frames. -/
  | serving
  /-- In an `IPC_REGISTER`, behind `named_add`. -/
  | named (frame : RegisterFrame)
  /-- The connection has ended and its backend was found. -/
  | found (backendId : Int)
  /-- Before `ar_socket_close`. -/
  | closing
  /-- Before `named_remove`. -/
  | closed
  /-- Before the loop over `admin_client_fds`. -/
  | unnamed
  | done
  deriving DecidableEq

/-- The loop of `client_handler_loop` runs. -/
def LifePhase.lives : LifePhase → Bool
  | .serving | .named _ => true
  | _ => false

/-- The descriptor is not closed. -/
def LifePhase.isOpen : LifePhase → Bool
  | .serving | .named _ | .found _ | .closing => true
  | .closed | .unnamed | .done => false

structure Life where
  fd : Int
  phase : LifePhase
  deriving DecidableEq

structure ReuseState where
  /-- The named clients, each with the connection that has written it. -/
  named : List (NamedClient × Nat)
  adminFds : List Int
  registry : Registry
  /-- The connection that has registered an id last. -/
  registeredBy : Int → Option Nat
  /-- All connections that were accepted. -/
  lives : List Life

def ReuseState.start : ReuseState := ⟨[], [], arwsRegistryInit, fun _ => none, []⟩

/-- `named_client_fds` and `named_client_names`. -/
def ReuseState.clients (s : ReuseState) : List NamedClient := s.named.map (·.1)

def ReuseState.setPhase (s : ReuseState) (c : Nat) (phase : LifePhase) : ReuseState :=
  { s with lives := s.lives.modify c fun life => { life with phase := phase } }

/-- The frame whose backend is registered next. -/
def LifePhase.frame : LifePhase → Option RegisterFrame
  | .named frame => some frame
  | _ => none

inductive ReuseAct
  /-- `accept_loop`, with a number that is not in use. -/
  | accept (fd : Int)
  /-- `IPC_REGISTER` up to `named_add`. -/
  | name (c : Nat) (buf : Bytes)
  /-- The rest of the frame. -/
  | register (c : Nat)
  /-- The loop has ended, and the backend is looked for. -/
  | endLoop (c : Nat)
  | unregister (c : Nat)
  | close (c : Nat)
  | removeName (c : Nat)
  | removeFd (c : Nat)

def reuseStep (maxClients : Nat) (s : ReuseState) : ReuseAct → Option ReuseState
  | .accept fd =>
    if 0 ≤ fd ∧ ∀ life ∈ s.lives, life.phase.isOpen = true → life.fd ≠ fd then
      let (fds, added) := addClientFd maxClients s.adminFds fd
      some { s with adminFds := fds, lives := if added then s.lives ++ [⟨fd, .serving⟩] else s.lives }
    else none
  | .name c buf =>
    match s.lives[c]? with
    | some ⟨fd, .serving⟩ =>
      let frame := parseRegister buf
      let slot := namedSlot s.clients fd frame.name
      let room := decide (s.clients.length < maxClients)
      let named := writeSlot slot room (⟨fd, frame.name.take 63⟩, c) s.named
      some ({ s with named := named }.setPhase c (.named frame))
    | _ => none
  | .register c =>
    match s.lives[c]? with
    | some ⟨fd, .named frame⟩ =>
      let (registry, backendId) := frame.registerBackend s.registry fd
      let registeredBy :=
        if 0 < backendId then Function.update s.registeredBy backendId (some c) else s.registeredBy
      some ({ s with registry := registry, registeredBy := registeredBy }.setPhase c .serving)
    | _ => none
  | .endLoop c =>
    match s.lives[c]? with
    | some ⟨fd, .serving⟩ =>
      let bid := arwsFindBackendIdByFd s.registry fd
      some (s.setPhase c (if bid > 0 then .found bid else .closing))
    | _ => none
  | .unregister c =>
    match s.lives[c]? with
    | some ⟨_, .found bid⟩ =>
      some ({ s with registry := (arwsUnregisterBackend s.registry bid).1 }.setPhase c .closing)
    | _ => none
  | .close c =>
    match s.lives[c]? with
    | some ⟨_, .closing⟩ => some (s.setPhase c .closed)
    | _ => none
  | .removeName c =>
    match s.lives[c]? with
    | some ⟨fd, .closed⟩ =>
      let named := dropSlot (s.clients.findIdx? (·.fd == fd)) s.named
      some ({ s with named := named }.setPhase c .unnamed)
    | _ => none
  | .removeFd c =>
    match s.lives[c]? with
    | some ⟨fd, .unnamed⟩ => some ({ s with adminFds := removeClientFd s.adminFds fd }.setPhase c .done)
    | _ => none

def descriptors (maxClients : Nat) : Machine ReuseState ReuseAct where
  init s := s = .start
  step := reuseStep maxClients

/-- The handler of the connection still runs its loop. -/
def ReuseState.Alive (s : ReuseState) (c : Nat) : Prop := ∃ life ∈ s.lives[c]?, life.phase.lives = true

/-- **The end of a connection spares the others**: what it takes away next belongs to no other connection
that lives, and every connection that lives is in the list of all clients. -/
structure SparesOthers (s : ReuseState) : Prop where
  named : ∀ c fd, s.lives[c]? = some ⟨fd, .closed⟩ → ∀ i ∈ s.clients.findIdx? (·.fd == fd),
    ∀ e ∈ s.named[i]?, e.2 ≠ c → ¬ s.Alive e.2
  backends : ∀ c fd bid, s.lives[c]? = some ⟨fd, .found bid⟩ → s.registry.hasId bid →
    ∀ other ∈ s.registeredBy bid, other ≠ c → ¬ s.Alive other
  adminFds : ∀ life ∈ s.lives, life.phase.lives = true → life.fd ∈ s.adminFds

/-- `named_add` finds an entry to write to, or has room for one. -/
def ReuseState.hasSlot (maxClients : Nat) (s : ReuseState) (fd : Int) (name : Bytes) : Bool :=
  (namedSlot s.clients fd name).isSome || decide (s.clients.length < maxClients)

/-- Nobody writes a named client under a descriptor that is about to be removed, or takes the name of a
backend that is about to be unregistered. -/
def Unhurried (maxClients : Nat) (s : ReuseState) : ReuseAct → Prop
  | .name c buf => ∀ life ∈ s.lives[c]?, s.hasSlot maxClients life.fd (parseRegister buf).name = true →
      ∀ other ∈ s.lives, other.phase = .closed → other.fd ≠ life.fd
  | .register c => ∀ life ∈ s.lives[c]?, ∀ frame ∈ life.phase.frame, frame.namesBackend = true →
      ∀ b ∈ s.registry.backends.find? (·.hasName frame.name), ∀ other ∈ s.lives,
        other.phase ≠ .found b.id
  | _ => True

instance (maxClients : Nat) (s : ReuseState) (act : ReuseAct) : Decidable (Unhurried maxClients s act) :=
  match act with
  | .name c buf => inferInstanceAs (Decidable (∀ life ∈ s.lives[c]?,
      s.hasSlot maxClients life.fd (parseRegister buf).name = true →
        ∀ other ∈ s.lives, other.phase = .closed → other.fd ≠ life.fd))
  | .register c => inferInstanceAs (Decidable (∀ life ∈ s.lives[c]?, ∀ frame ∈ life.phase.frame,
      frame.namesBackend = true → ∀ b ∈ s.registry.backends.find? (·.hasName frame.name),
        ∀ other ∈ s.lives, other.phase ≠ .found b.id))
  | .accept _ | .endLoop _ | .unregister _ | .close _ | .removeName _ | .removeFd _ => isTrue trivial

/-! ## The tables are those of the code -/

theorem clients_name {maxClients : Nat} {s t : ReuseState} {c : Nat} {buf : Bytes}
    (h : reuseStep maxClients s (.name c buf) = some t) :
    ∃ life ∈ s.lives[c]?, t.clients = namedAdd maxClients s.clients life.fd (parseRegister buf).name := by
  simp only [reuseStep] at h
  split at h
  · rename_i fd hget
    cases h
    exact ⟨_, hget, map_writeSlot _ _ _ _ _⟩
  · cases h

theorem clients_removeName {maxClients : Nat} {s t : ReuseState} {c : Nat}
    (h : reuseStep maxClients s (.removeName c) = some t) :
    ∃ life ∈ s.lives[c]?, t.clients = namedRemove s.clients life.fd := by
  simp only [reuseStep] at h
  split at h
  · rename_i fd hget
    cases h
    exact ⟨_, hget, map_dropSlot _ _ _⟩
  · cases h

/-! ## What every run keeps -/

/-- What is known of a connection by where its handler is: nobody who lives has an entry that it takes
away next. -/
structure Guarded (s : ReuseState) (c : Nat) (life : Life) : Prop where
  closed : life.phase = .closed → ∀ e ∈ s.named, e.1.fd = life.fd → e.2 ≠ c → ¬ s.Alive e.2
  found : ∀ bid, life.phase = .found bid → bid < s.registry.nextBackendId ∧
    (s.registry.hasId bid → ∀ other ∈ s.registeredBy bid, other ≠ c → ¬ s.Alive other)

structure Kept (s : ReuseState) : Prop where
  proper : s.registry.Proper
  fds : ∀ life ∈ s.lives, 0 ≤ life.fd
  /-- No two open descriptors have the same number. -/
  distinct : ∀ (c d : Nat) (life other : Life), s.lives[c]? = some life → s.lives[d]? = some other →
    life.phase.isOpen = true → other.phase.isOpen = true → life.fd = other.fd → c = d
  namedFd : ∀ e ∈ s.named, ∃ life, s.lives[e.2]? = some life ∧ life.fd = e.1.fd
  backendFd : ∀ b ∈ s.registry.backends, ∃ c life, s.registeredBy b.id = some c ∧
    s.lives[c]? = some life ∧ life.fd = b.fd
  guarded : ∀ c life, s.lives[c]? = some life → Guarded s c life
  adminFds : s.adminFds.Perm ((s.lives.filter (·.phase != .done)).map (·.fd))

theorem isOpen_of_lives {phase : LifePhase} (h : phase.lives = true) : phase.isOpen = true := by
  cases phase with
  | serving | named _ => rfl
  | found _ | closing | closed | unnamed | done => cases h

theorem Kept.sparesOthers {s : ReuseState} (h : Kept s) : SparesOthers s := by
  refine ⟨fun c fd hget i hi e he hne => ?_, fun c fd bid hget hid => ?_, fun life hlife hlives => ?_⟩
  · refine (h.guarded c _ hget).closed rfl e (List.mem_of_getElem? he) ?_ hne
    obtain ⟨hlt, hfd, -⟩ := List.findIdx?_eq_some_iff_getElem.1 hi
    have hclient : s.clients[i]? = some e.1 := by
      rw [ReuseState.clients, List.getElem?_map, he, Option.map_some]
    rw [List.getElem?_eq_getElem hlt, Option.some_inj] at hclient
    rw [← hclient]
    exact beq_iff_eq.1 hfd
  · exact ((h.guarded c _ hget).found bid rfl).2 hid
  · refine h.adminFds.mem_iff.2 (List.mem_map.2 ⟨life, List.mem_filter.2 ⟨hlife, ?_⟩, rfl⟩)
    rw [bne_iff_ne]
    intro hdone
    rw [hdone] at hlives
    cases hlives

section Step

variable {s t : ReuseState} {c : Nat} {fd : Int} {q phase : LifePhase}

/-- One connection is in another phase, and the others are as they were. -/
theorem lives_setPhase {d : Nat} {life : Life} (h : (s.setPhase c phase).lives[d]? = some life) :
    ∃ old, s.lives[d]? = some old ∧ life.fd = old.fd ∧
      life.phase = if c = d then phase else old.phase := by
  simp only [ReuseState.setPhase, List.getElem?_modify, Option.map_eq_map, Option.map_eq_some_iff] at h
  obtain ⟨old, hold, rfl⟩ := h
  refine ⟨old, hold, ?_⟩
  split
  · exact ⟨rfl, rfl⟩
  · exact ⟨rfl, rfl⟩

/-- What the handler has only if it had it before was had before. -/
theorem holds_setPhase {P : LifePhase → Bool} (hget : s.lives[c]? = some ⟨fd, q⟩)
    (hP : P phase = true → P q = true) {d : Nat} {life : Life}
    (h : (s.setPhase c phase).lives[d]? = some life) (hyes : P life.phase = true) :
    ∃ old, s.lives[d]? = some old ∧ life.fd = old.fd ∧ P old.phase = true := by
  obtain ⟨old, hold, hfd, hphase⟩ := lives_setPhase h
  refine ⟨old, hold, hfd, ?_⟩
  rw [hphase] at hyes
  split at hyes
  · rename_i hcd
    subst hcd
    rw [hget] at hold
    cases hold
    exact hP hyes
  · exact hyes

theorem lives_setPhase_of_lives (c : Nat) (phase : LifePhase) {d : Nat} {old : Life}
    (h : s.lives[d]? = some old) :
    ∃ life, (s.setPhase c phase).lives[d]? = some life ∧ life.fd = old.fd := by
  simp only [ReuseState.setPhase, List.getElem?_modify, h, Option.map_eq_map, Option.map_some,
    Option.some_inj, exists_eq_left']
  split <;> rfl

theorem lives_setPhase_self (hget : s.lives[c]? = some ⟨fd, q⟩) :
    (s.setPhase c phase).lives[c]? = some ⟨fd, phase⟩ := by
  simp [ReuseState.setPhase, hget]

theorem lives_setPhase_of_ne {d : Nat} (hne : d ≠ c) :
    (s.setPhase c phase).lives[d]? = s.lives[d]? := by
  simp [ReuseState.setPhase, hne.symm]

/-- The descriptors that were not removed yet, with the one that goes on and without it. -/
theorem fds_setPhase (hget : s.lives[c]? = some ⟨fd, q⟩) (hq : q ≠ .done) (phase : LifePhase) :
    ∃ rest, ((s.lives.filter (·.phase != .done)).map (·.fd)).Perm (fd :: rest) ∧
      (((s.setPhase c phase).lives.filter (·.phase != .done)).map (·.fd)).Perm
        (if phase = .done then rest else fd :: rest) := by
  obtain ⟨hc, hlife⟩ := List.getElem?_eq_some_iff.1 hget
  have hsplit : s.lives = s.lives.take c ++ ⟨fd, q⟩ :: s.lives.drop (c + 1) := by
    rw [← hlife, List.getElem_cons_drop, List.take_append_drop]
  have hmodify : (s.setPhase c phase).lives = s.lives.take c ++ ⟨fd, phase⟩ :: s.lives.drop (c + 1) := by
    rw [ReuseState.setPhase, List.modify_eq_take_cons_drop hc, hlife]
  refine ⟨((s.lives.take c ++ s.lives.drop (c + 1)).filter (·.phase != .done)).map (·.fd), ?_, ?_⟩
  · conv_lhs => rw [hsplit]
    rw [List.filter_append, List.filter_cons, if_pos (bne_iff_ne.2 hq), List.filter_append,
      List.map_append, List.map_append, List.map_cons]
    exact List.perm_middle
  · rw [hmodify]
    split
    · rename_i hdone
      rw [List.filter_append, List.filter_cons, if_neg (by simp [hdone]), ← List.filter_append]
    · rename_i hne
      rw [List.filter_append, List.filter_cons, if_pos (bne_iff_ne.2 hne), List.filter_append,
        List.map_append, List.map_append, List.map_cons]
      exact List.perm_middle

/-- A handler that goes on: it does not come to life, nor does its descriptor open. -/
theorem Kept.goOn (h : Kept s) (hget : s.lives[c]? = some ⟨fd, q⟩)
    (hopen : phase.isOpen = true → q.isOpen = true) (hlives : phase.lives = true → q.lives = true)
    (hguarded : Guarded s c ⟨fd, phase⟩) {fds : List Int}
    (hfds : fds.Perm (((s.setPhase c phase).lives.filter (·.phase != .done)).map (·.fd))) :
    Kept { s.setPhase c phase with adminFds := fds } := by
  have halive : ∀ d, (s.setPhase c phase).Alive d → s.Alive d := by
    rintro d ⟨life, hlife, hyes⟩
    obtain ⟨old, hold, -, hyes⟩ := holds_setPhase (P := LifePhase.lives) hget hlives hlife hyes
    exact ⟨old, hold, hyes⟩
  refine ⟨h.proper, fun life hmem => ?_, ?_, ?_, ?_, ?_, hfds⟩
  · obtain ⟨d, hd⟩ := List.mem_iff_getElem?.1 hmem
    obtain ⟨old, hold, hfd, -⟩ := lives_setPhase hd
    rw [hfd]
    exact h.fds old (List.mem_of_getElem? hold)
  · intro d e life other hd he hlo hoo hfd
    obtain ⟨old, hold, hfd₁, hlo⟩ := holds_setPhase (P := LifePhase.isOpen) hget hopen hd hlo
    obtain ⟨old', hold', hfd₂, hoo⟩ := holds_setPhase (P := LifePhase.isOpen) hget hopen he hoo
    exact h.distinct d e old old' hold hold' hlo hoo (hfd₁.symm.trans (hfd.trans hfd₂))
  · intro e he
    obtain ⟨old, hold, hfd⟩ := h.namedFd e he
    obtain ⟨life, hlife, hfd'⟩ := lives_setPhase_of_lives c phase hold
    exact ⟨life, hlife, hfd'.trans hfd⟩
  · intro b hb
    obtain ⟨d, old, hby, hold, hfd⟩ := h.backendFd b hb
    obtain ⟨life, hlife, hfd'⟩ := lives_setPhase_of_lives c phase hold
    exact ⟨d, life, hby, hlife, hfd'.trans hfd⟩
  · intro d life hlife
    obtain ⟨old, hold, hfd, hphase⟩ := lives_setPhase hlife
    have hbefore : Guarded s d life := by
      obtain ⟨lfd, lphase⟩ := life
      subst hfd hphase
      split
      · rename_i hcd
        subst hcd
        rw [hget] at hold
        cases hold
        exact hguarded
      · exact h.guarded d old hold
    exact ⟨fun hclosed e he hefd hne hyes => hbefore.closed hclosed e he hefd hne (halive _ hyes),
      fun bid hfound => ⟨(hbefore.found bid hfound).1,
        fun hid other hother hne hyes => (hbefore.found bid hfound).2 hid other hother hne (halive _ hyes)⟩⟩

/-- A handler that goes on and is not done yet. -/
theorem Kept.next (h : Kept s) (hget : s.lives[c]? = some ⟨fd, q⟩) (hq : q ≠ .done)
    (hphase : phase ≠ .done) (hopen : phase.isOpen = true → q.isOpen = true)
    (hlives : phase.lives = true → q.lives = true) (hguarded : Guarded s c ⟨fd, phase⟩) :
    Kept (s.setPhase c phase) := by
  obtain ⟨rest, hbefore, hafter⟩ := fds_setPhase hget hq phase
  rw [if_neg hphase] at hafter
  exact h.goOn hget hopen hlives hguarded (h.adminFds.trans (hbefore.trans hafter.symm))

/-- A phase of which nothing is to be known. -/
theorem guarded_of_ne (hclosed : phase ≠ .closed) (hfound : ∀ bid, phase ≠ .found bid) :
    Guarded s c ⟨fd, phase⟩ :=
  ⟨fun h => absurd h hclosed, fun bid h => absurd h (hfound bid)⟩

/-- Another connection with an open descriptor of this number does not live. -/
theorem Kept.not_alive (h : Kept s) (hget : s.lives[c]? = some ⟨fd, q⟩) (hopen : q.isOpen = true)
    {d : Nat} {life : Life} (hd : s.lives[d]? = some life) (hfd : life.fd = fd) (hne : d ≠ c) :
    ¬ s.Alive d := by
  rintro ⟨life', hlife, hlives⟩
  rw [hd] at hlife
  cases hlife
  exact hne (h.distinct d c life ⟨fd, q⟩ hd hget (isOpen_of_lives hlives) hopen hfd)

/-- Named clients that are fewer, or written under no descriptor that is about to be removed. -/
theorem Kept.withNamed (h : Kept s) {named : List (NamedClient × Nat)}
    (hnew : ∀ e ∈ named, e ∈ s.named ∨ (∃ life, s.lives[e.2]? = some life ∧ life.fd = e.1.fd) ∧
      ∀ other ∈ s.lives, other.phase = .closed → other.fd ≠ e.1.fd) :
    Kept { s with named := named } := by
  refine ⟨h.proper, h.fds, h.distinct, fun e he => ?_, h.backendFd, fun d life hd => ?_, h.adminFds⟩
  · rcases hnew e he with hold | ⟨hlife, -⟩
    · exact h.namedFd e hold
    · exact hlife
  · refine ⟨fun hclosed e he hfd hne => ?_, (h.guarded d life hd).found⟩
    rcases hnew e he with hold | ⟨-, hother⟩
    · exact (h.guarded d life hd).closed hclosed e hold hfd hne
    · exact absurd hfd.symm (hother life (List.mem_of_getElem? hd) hclosed)

/-- A registry whose entries are known by who has registered them, and in which the backends that
handlers have found are as they were. -/
theorem Kept.withRegistry (h : Kept s) {registry : Registry} {registeredBy : Int → Option Nat}
    (hproper : registry.Proper)
    (hbackends : ∀ b ∈ registry.backends, ∃ d life, registeredBy b.id = some d ∧
      s.lives[d]? = some life ∧ life.fd = b.fd)
    (hfound : ∀ bid, (∃ life ∈ s.lives, life.phase = .found bid) → bid < s.registry.nextBackendId →
      bid < registry.nextBackendId ∧ (registry.hasId bid →
        s.registry.hasId bid ∧ registeredBy bid = s.registeredBy bid)) :
    Kept { s with registry := registry, registeredBy := registeredBy } := by
  refine ⟨hproper, h.fds, h.distinct, h.namedFd, hbackends, fun d life hd => ?_, h.adminFds⟩
  refine ⟨(h.guarded d life hd).closed, fun bid hbid => ?_⟩
  obtain ⟨hlt, hother⟩ := (h.guarded d life hd).found bid hbid
  obtain ⟨hlt', hsame⟩ := hfound bid ⟨life, List.mem_of_getElem? hd, hbid⟩ hlt
  refine ⟨hlt', fun hid => ?_⟩
  obtain ⟨hid, he⟩ := hsame hid
  exact fun other ho => hother hid other (he ▸ ho)

theorem Kept.unregister (h : Kept s) (bid : Int) :
    Kept { s with registry := (arwsUnregisterBackend s.registry bid).1 } := by
  refine h.withRegistry (h.proper.unregister bid) (fun b hb => ?_) fun id _ hlt => ?_
  · rw [unregister_backends] at hb
    exact h.backendFd b (mem_of_mem_dropSlot hb)
  · rw [nextBackendId_unregister]
    exact ⟨hlt, fun hid => ⟨hasId_unregister hid, rfl⟩⟩

/-- A backend is registered by the connection, under a name of which no handler has found the backend. -/
theorem Kept.register (h : Kept s) {name : Bytes} (hget : s.lives[c]? = some ⟨fd, q⟩)
    (hfound : ∀ b ∈ s.registry.backends.find? (·.hasName name), ∀ other ∈ s.lives,
      other.phase ≠ .found b.id) :
    Kept { s with
      registry := (arwsRegisterBackend s.registry name fd).1
      registeredBy :=
        if 0 < (arwsRegisterBackend s.registry name fd).2 then
          Function.update s.registeredBy (arwsRegisterBackend s.registry name fd).2 (some c)
        else s.registeredBy } := by
  have hproper := h.proper.register name fd
  obtain hr | ⟨b, l₁, l₂, hfind, hsplit, hr⟩ | ⟨-, -, hr⟩ := register_split s.registry name fd
  · rw [hr]
    exact h
  · -- the backend with the name has the descriptor of the connection now
    have hb : b ∈ s.registry.backends := List.mem_of_find?_eq_some hfind
    have hpos : 0 < b.id := (h.proper.ids b.id ⟨b, hb, rfl⟩).1
    rw [hr] at hproper ⊢
    dsimp only at hproper ⊢
    rw [if_pos hpos]
    have hold : ∀ b' ∈ l₁ ++ { b with fd := fd } :: l₂, b'.id ≠ b.id → b' ∈ s.registry.backends := by
      intro b' hb' hid
      rw [hsplit]
      rcases List.mem_append.1 hb' with hb' | hb'
      · exact List.mem_append_left _ hb'
      · rcases List.mem_cons.1 hb' with rfl | hb'
        · exact absurd rfl hid
        · simp [hb']
    refine h.withRegistry hproper (fun b' hb' => ?_) fun bid ⟨life, hlife, hbid⟩ hlt => ⟨hlt, ?_⟩
    · by_cases hid : b'.id = b.id
      · have hself : b' = { b with fd := fd } := hproper.eq_of_id hb' (by simp) hid
        rw [hself]
        exact ⟨c, _, Function.update_self .., hget, rfl⟩
      · rw [Function.update_of_ne hid]
        exact h.backendFd b' (hold b' hb' hid)
    · rintro ⟨b', hb', rfl⟩
      have hne : b'.id ≠ b.id := fun he => hfound b hfind life hlife (hbid.trans (by rw [he]))
      exact ⟨⟨b', hold b' hb' hne, rfl⟩, Function.update_of_ne hne _ _⟩
  · rw [hr] at hproper ⊢
    dsimp only at hproper ⊢
    rw [if_pos h.proper.next]
    refine h.withRegistry hproper (fun b' hb' => ?_) fun bid _ hlt =>
      ⟨Int.lt_trans hlt (Int.lt_succ _), ?_⟩
    · rcases List.mem_append.1 hb' with hb' | hb'
      · have hne : b'.id ≠ s.registry.nextBackendId :=
          Int.ne_of_lt (h.proper.ids b'.id ⟨b', hb', rfl⟩).2
        rw [Function.update_of_ne hne]
        exact h.backendFd b' hb'
      · rw [List.mem_singleton.1 hb']
        exact ⟨c, _, Function.update_self .., hget, rfl⟩
    · rintro ⟨b', hb', rfl⟩
      rcases List.mem_append.1 hb' with hb' | hb'
      · exact ⟨⟨b', hb', rfl⟩, Function.update_of_ne (Int.ne_of_lt hlt) _ _⟩
      · rw [List.mem_singleton.1 hb'] at hlt
        exact absurd hlt (Int.lt_irrefl _)

/-- A new connection has no entry yet, and its descriptor is not open elsewhere. -/
theorem Kept.accept (h : Kept s) {fd : Int} (hfd : 0 ≤ fd)
    (hnew : ∀ life ∈ s.lives, life.phase.isOpen = true → life.fd ≠ fd) :
    Kept { s with adminFds := s.adminFds ++ [fd], lives := s.lives ++ [⟨fd, .serving⟩] } := by
  have hget : ∀ {d : Nat} {life : Life}, (s.lives ++ [⟨fd, .serving⟩])[d]? = some life →
      s.lives[d]? = some life ∨ d = s.lives.length ∧ life = ⟨fd, .serving⟩ := by
    intro d life hd
    by_cases hlt : d < s.lives.length
    · rw [List.getElem?_append_left hlt] at hd
      exact Or.inl hd
    · have hle := Nat.le_of_not_lt hlt
      rw [List.getElem?_append_right hle] at hd
      obtain ⟨hidx, hlife⟩ := List.getElem?_eq_some_iff.1 hd
      have hzero : d - s.lives.length = 0 := Nat.lt_one_iff.1 hidx
      exact Or.inr ⟨by omega, by rw [← hlife]; simp [hzero]⟩
  have hold : ∀ {d : Nat} {life : Life}, s.lives[d]? = some life →
      (s.lives ++ [⟨fd, .serving⟩])[d]? = some life := by
    intro d life hd
    rwa [List.getElem?_append_left (List.getElem?_eq_some_iff.1 hd).1]
  refine ⟨h.proper, fun life hlife => ?_, ?_, fun e he => ?_, fun b hb => ?_, fun d life hd => ?_, ?_⟩
  · rcases List.mem_append.1 hlife with hlife | hlife
    · exact h.fds life hlife
    · rw [List.mem_singleton.1 hlife]
      exact hfd
  · intro d e life other hd he hlo hoo hfd
    rcases hget hd with hd | ⟨rfl, rfl⟩
    · rcases hget he with he | ⟨rfl, rfl⟩
      · exact h.distinct d e life other hd he hlo hoo hfd
      · exact absurd hfd (hnew life (List.mem_of_getElem? hd) hlo)
    · rcases hget he with he | ⟨rfl, -⟩
      · exact absurd hfd.symm (hnew other (List.mem_of_getElem? he) hoo)
      · rfl
  · obtain ⟨life, hlife, hfd⟩ := h.namedFd e he
    exact ⟨life, hold hlife, hfd⟩
  · obtain ⟨d, life, hby, hlife, hfd⟩ := h.backendFd b hb
    exact ⟨d, life, hby, hold hlife, hfd⟩
  · -- a connection that has an entry was there before
    have halive : ∀ {e : Nat} {life : Life}, s.lives[e]? = some life →
        ReuseState.Alive { s with adminFds := s.adminFds ++ [fd],
                                  lives := s.lives ++ [⟨fd, .serving⟩] } e → s.Alive e := by
      rintro e life he ⟨life', hlife', hyes⟩
      rw [hold he] at hlife'
      cases hlife'
      exact ⟨life, he, hyes⟩
    rcases hget hd with hd | ⟨-, rfl⟩
    · refine ⟨fun hclosed e he hfd hne hyes => ?_, fun bid hfound => ?_⟩
      · obtain ⟨owner, howner, -⟩ := h.namedFd e he
        exact (h.guarded d life hd).closed hclosed e he hfd hne (halive howner hyes)
      · obtain ⟨hlt, hother⟩ := (h.guarded d life hd).found bid hfound
        refine ⟨hlt, fun hid other ho hne hyes => ?_⟩
        obtain ⟨b, hb, rfl⟩ := hid
        obtain ⟨e, owner, hby, howner, -⟩ := h.backendFd b hb
        rw [show s.registeredBy b.id = some other from ho, Option.some_inj] at hby
        subst hby
        exact hother ⟨b, hb, rfl⟩ other ho hne (halive howner hyes)
    · exact guarded_of_ne (by decide) fun bid hbid => by cases hbid
  · rw [List.filter_append, List.map_append]
    exact h.adminFds.append_right _

/-- The end of the loop: the backend that is found is the connection's own. -/
theorem Kept.endLoop (h : Kept s) (hget : s.lives[c]? = some ⟨fd, .serving⟩) :
    Kept (s.setPhase c (if arwsFindBackendIdByFd s.registry fd > 0 then
      .found (arwsFindBackendIdByFd s.registry fd) else .closing)) := by
  obtain ⟨-, hbid⟩ | ⟨b, hb, hfd, hbid, hpos⟩ := findBackendIdByFd_cases h.proper fd
  · rw [hbid]
    exact h.next hget (by decide) (by decide) (fun _ => rfl) (fun _ => rfl)
      (guarded_of_ne (by decide) fun bid hfound => by cases hfound)
  · rw [hbid, if_pos hpos]
    refine h.next hget (by decide) (by simp) (fun _ => rfl) (fun _ => rfl)
      ⟨(fun hno => by cases hno), ?_⟩
    rintro bid hfound
    cases hfound
    refine ⟨(h.proper.ids b.id ⟨b, hb, rfl⟩).2, fun _ other hother hne => ?_⟩
    obtain ⟨d, life, hby, hlife, hlfd⟩ := h.backendFd b hb
    rw [show s.registeredBy b.id = some other from hother, Option.some_inj] at hby
    subst hby
    exact h.not_alive hget rfl hlife (hlfd.trans hfd) hne

/-- The descriptor is closed: whoever has an entry with it is not another connection that lives. -/
theorem Kept.close (h : Kept s) (hget : s.lives[c]? = some ⟨fd, .closing⟩) :
    Kept (s.setPhase c .closed) := by
  refine h.next hget (by decide) (by decide) (fun _ => rfl) (fun hno => by cases hno)
    ⟨fun _ e he hfd hne => ?_, fun bid hfound => by cases hfound⟩
  obtain ⟨owner, howner, hofd⟩ := h.namedFd e he
  exact h.not_alive hget rfl howner (hofd.trans hfd) hne

theorem Kept.removeFd (h : Kept s) (hget : s.lives[c]? = some ⟨fd, .unnamed⟩) :
    Kept ({ s with adminFds := removeClientFd s.adminFds fd }.setPhase c .done) := by
  obtain ⟨rest, hbefore, hafter⟩ := fds_setPhase hget (by decide) .done
  rw [if_pos rfl] at hafter
  have hperm := h.adminFds.trans hbefore
  refine h.goOn hget (fun hno => by cases hno) (fun hno => by cases hno)
    (guarded_of_ne (by decide) fun bid hfound => by cases hfound) (List.Perm.trans ?_ hafter.symm)
  obtain ⟨hnone, -⟩ | ⟨i, a, -, -, ha, hdrop⟩ := dropSlot_findIdx?_cases (· == fd) s.adminFds
  · have := hnone fd (hperm.mem_iff.2 List.mem_cons_self)
    rw [beq_self_eq_true] at this
    cases this
  · rw [beq_iff_eq.1 ha] at hdrop
    exact (hdrop.symm.trans hperm).cons_inv

/-- **A step that is not hurried keeps the ends of connections apart.** -/
theorem Kept.step (h : Kept s) {maxClients : Nat} {act : ReuseAct} (hact : Unhurried maxClients s act)
    (hs : reuseStep maxClients s act = some t) : Kept t := by
  cases act with
  | accept fd =>
    simp only [reuseStep, Option.ite_none_right_eq_some, Option.some_inj] at hs
    obtain ⟨⟨hfd, hnew⟩, rfl⟩ := hs
    rw [addClientFd]
    split
    · exact h.accept hfd hnew
    · exact h
  | name c buf =>
    simp only [reuseStep] at hs
    split at hs
    · rename_i fd hget
      cases hs
      refine Kept.next (h.withNamed fun e he => ?_) hget (by decide) (by simp) (fun _ => rfl)
        (fun _ => rfl) (guarded_of_ne (by simp) (by simp))
      cases hslot : s.hasSlot maxClients fd (parseRegister buf).name with
      | true =>
        rcases mem_writeSlot he with rfl | he
        · exact Or.inr ⟨⟨_, hget, rfl⟩, hact _ hget hslot⟩
        · exact Or.inl he
      | false =>
        rw [writeSlot_of_full hslot] at he
        exact Or.inl he
    · cases hs
  | register c =>
    simp only [reuseStep] at hs
    split at hs
    · rename_i fd frame hget
      cases hs
      refine Kept.next ?_ hget (by simp) (by simp) (fun _ => rfl) (fun _ => rfl)
        (guarded_of_ne (by simp) (by simp))
      rw [RegisterFrame.registerBackend]
      split
      · rename_i hbackend
        exact h.register hget (hact _ hget frame rfl hbackend)
      · exact h
    · cases hs
  | endLoop c =>
    simp only [reuseStep] at hs
    split at hs
    · rename_i fd hget
      cases hs
      exact h.endLoop hget
    · cases hs
  | unregister c =>
    simp only [reuseStep] at hs
    split at hs
    · rename_i fd bid hget
      cases hs
      exact (h.unregister bid).next hget (by simp) (by simp) (fun _ => rfl) (fun hno => by cases hno)
        (guarded_of_ne (by simp) (by simp))
    · cases hs
  | close c =>
    simp only [reuseStep] at hs
    split at hs
    · rename_i fd hget
      cases hs
      exact h.close hget
    · cases hs
  | removeName c =>
    simp only [reuseStep] at hs
    split at hs
    · rename_i fd hget
      cases hs
      exact (h.withNamed fun e he => Or.inl (mem_of_mem_dropSlot he)).next hget (by simp) (by simp)
        (fun hno => by cases hno) (fun hno => by cases hno) (guarded_of_ne (by simp) (by simp))
    · cases hs
  | removeFd c =>
    simp only [reuseStep] at hs
    split at hs
    · rename_i fd hget
      cases hs
      exact h.removeFd hget
    · cases hs

/-- A named client that is written under a descriptor that is about to be removed is the one that is
taken away. -/
theorem unhurried_of_named {maxClients : Nat} {buf : Bytes}
    (hs : reuseStep maxClients s (.name c buf) = some t) (ht : SparesOthers t) :
    Unhurried maxClients s (.name c buf) := by
  intro life hlife hslot other hother hclosed hfd
  simp only [reuseStep] at hs
  split at hs
  · rename_i fd hget
    cases hs
    rw [show s.lives[c]? = some life from hlife] at hget
    cases hget
    obtain ⟨d, hd⟩ := List.mem_iff_getElem?.1 hother
    have hne : d ≠ c := by
      rintro rfl
      rw [hd] at hlife
      cases hlife
      cases hclosed
    have hnamed : namedSlot s.clients fd (parseRegister buf).name =
        s.named.findIdx? fun e => e.1.fd == fd || matchAppAlias e.1.name (parseRegister buf).name :=
      List.findIdx?_map
    rw [ReuseState.hasSlot, hnamed] at hslot
    obtain ⟨i, hi, hentry⟩ := findIdx?_writeSlot (q := fun e => e.1.fd == fd)
      (fun e he => by rw [he, Bool.true_or])
      (a := ((⟨fd, (parseRegister buf).name.take 63⟩ : NamedClient), c)) (beq_self_eq_true fd) hslot
    rw [← hnamed] at hi hentry
    refine ht.named d fd ?_ i ?_ _ hentry hne.symm ⟨_, lives_setPhase_self hlife, rfl⟩
    · rw [lives_setPhase_of_ne hne]
      obtain ⟨ofd, ophase⟩ := other
      cases hclosed
      cases hfd
      exact hd
    · exact List.findIdx?_map.trans hi
  · cases hs

/-- A backend that a handler has found and that is registered again is the one that is unregistered. -/
theorem unhurried_of_registered (h : Kept s) {maxClients : Nat}
    (hs : reuseStep maxClients s (.register c) = some t) (ht : SparesOthers t) :
    Unhurried maxClients s (.register c) := by
  intro life hlife frame hframe hbackend b hb other hother hfound
  simp only [reuseStep] at hs
  split at hs
  · rename_i fd frame' hget
    cases hs
    rw [show s.lives[c]? = some life from hlife] at hget
    cases hget
    cases hframe
    obtain ⟨d, hd⟩ := List.mem_iff_getElem?.1 hother
    have hne : d ≠ c := by
      rintro rfl
      rw [hd] at hlife
      cases hlife
      cases hfound
    have hfd : ¬ fd < 0 := Int.not_lt.2 (h.fds _ (List.mem_of_getElem? hlife))
    have hregister : arwsRegisterBackend s.registry frame.name fd =
        ({ s.registry with backends := setFd frame.name fd s.registry.backends }, b.id) := by
      rw [arwsRegisterBackend, if_neg hfd, show s.registry.backends.find? _ = some b from hb]
    have hmem := List.mem_of_find?_eq_some (show s.registry.backends.find? _ = some b from hb)
    have hpos : 0 < b.id := (h.proper.ids b.id ⟨b, hmem, rfl⟩).1
    have hid : (frame.registerBackend s.registry fd).1.hasId b.id := by
      rw [RegisterFrame.registerBackend, if_pos hbackend]
      exact Registry.hasId.register ⟨b, hmem, rfl⟩ frame.name fd
    refine ht.backends d other.fd b.id ?_ hid c ?_ hne.symm ⟨_, lives_setPhase_self hlife, rfl⟩
    · rw [lives_setPhase_of_ne hne]
      obtain ⟨ofd, ophase⟩ := other
      cases hfound
      exact hd
    · simp [ReuseState.setPhase, RegisterFrame.registerBackend, hbackend, hregister, hpos]
  · cases hs

/-- **A step spares the others exactly if it is not hurried.** -/
theorem sparesOthers_step_iff (h : Kept s) {maxClients : Nat} {act : ReuseAct}
    (hs : reuseStep maxClients s act = some t) : SparesOthers t ↔ Unhurried maxClients s act := by
  refine ⟨fun ht => ?_, fun hact => (h.step hact hs).sparesOthers⟩
  cases act with
  | name c buf => exact unhurried_of_named hs ht
  | register c => exact unhurried_of_registered h hs ht
  | accept _ | endLoop _ | unregister _ | close _ | removeName _ | removeFd _ => trivial

end Step

theorem Kept.start : Kept .start where
  proper := proper_init
  fds := by rintro life ⟨⟩
  distinct := by rintro c d life other ⟨⟩
  namedFd := by rintro e ⟨⟩
  backendFd := by rintro b ⟨⟩
  guarded := by rintro c life ⟨⟩
  adminFds := .refl _

/-- **The end of a connection spares the others** in every run whose steps are not hurried. -/
theorem sparesOthers_of_reach (maxClients : Nat) {s : ReuseState}
    (h : (descriptors maxClients).ReachUnder (Unhurried maxClients) s) : SparesOthers s := by
  have hkept : Kept s := h.invariant (I := Kept) (by rintro s rfl; exact Kept.start)
    fun s act t hk hact hs => hk.step hact hs
  exact hkept.sparesOthers

/-- **The condition is exact**: the runs whose steps are not hurried are those in which every step leads
to a state where the end of a connection spares the others. -/
theorem reachUnder_unhurried_iff (maxClients : Nat) {s : ReuseState} :
    (descriptors maxClients).ReachUnder (Unhurried maxClients) s ↔
      (descriptors maxClients).ReachUnder
        (fun s act => ∃ t, reuseStep maxClients s act = some t ∧ SparesOthers t) s :=
  Machine.reachUnder_iff (by rintro s rfl; exact Kept.start)
    (fun _ _ _ hk hact hs => hk.step hact hs) fun _ _ _ hk hs => sparesOthers_step_iff hk hs

/-- A descriptor is used again while its last connection is still in the list of all clients. -/
theorem sparesOthers_reused : ∃ s : ReuseState, s.lives = [⟨5, .unnamed⟩, ⟨5, .serving⟩] ∧
    s.adminFds = [5, 5] ∧ SparesOthers s := by
  obtain ⟨s, hs, hlives, hfds⟩ : ∃ s, (descriptors 64).runUnder (Unhurried 64) .start
      [.accept 5, .name 0 (ascii "a / GET a.com test"), .register 0, .endLoop 0, .unregister 0,
        .close 0, .accept 5, .removeName 0, .name 1 (ascii "a / GET a.com test"), .register 1] =
          some s ∧ s.lives = [⟨5, .unnamed⟩, ⟨5, .serving⟩] ∧ s.adminFds = [5, 5] :=
    ⟨_, rfl, rfl, rfl⟩
  exact ⟨s, hlives, hfds, sparesOthers_of_reach 64 (Machine.reachUnder_of_runUnder (.start rfl) hs)⟩

/-- **A connection can lose its name to the end of another**: it has been given the descriptor that was
closed, and is named before the handler of the other comes to `named_remove`. -/
theorem not_sparesOthers : ¬ ∃ maxClients, 2 ≤ maxClients ∧
    ∀ s, (descriptors maxClients).Reach s → SparesOthers s := by
  rintro ⟨maxClients, hmax, h⟩
  obtain ⟨n, rfl⟩ := Nat.exists_eq_add_of_le' hmax
  obtain ⟨s, hs, hlives, hnamed⟩ : ∃ s, (descriptors (n + 2)).runUnder (fun _ _ => True) .start
      [.accept 5, .endLoop 0, .close 0, .accept 5, .name 1 (ascii "a / GET a.com test"),
        .register 1] = some s ∧ s.lives = [⟨5, .closed⟩, ⟨5, .serving⟩] ∧
        s.named = [(⟨5, ascii "a"⟩, 1)] := ⟨_, rfl, rfl, rfl⟩
  have hspares := (h s (Machine.reachUnder_of_runUnder (.start rfl) hs)).named 0 5
    (by rw [hlives]; rfl) 0 (by rw [ReuseState.clients, hnamed]; rfl) (⟨5, ascii "a"⟩, 1)
    (by rw [hnamed]; rfl) (by decide)
  exact hspares ⟨⟨5, .serving⟩, by rw [hlives]; rfl, rfl⟩

end Gateway
end Arws
