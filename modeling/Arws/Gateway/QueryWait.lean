import Arws.Gateway.Control
import Arws.Gateway.Query
import Arws.Library.WaitGraph

/-!
# Queries that wait for one another

While `client_handler_loop` waits for the answer to a query of its app, it reads nothing from that
app.  The answer is read by the handler of the target, which may be waiting itself; when handlers wait
for one another, or one for itself, every one of them waits until its deadline.

* `Unstuck` — no handlers wait in a circle, and no deadline passes before the answer is there.
* `unstuck_of_untangled` — so it is if no handler forwards a query to itself or to one that waits for
  it, directly or through others, and the lock loses no wakeup; a query forwarded otherwise closes a
  circle.
* `not_unstuck` — two apps that query one another are enough.
-/

set_option autoImplicit false

namespace Arws
namespace Gateway

open KeyedLock

/-! ## Whom a query goes to -/

def arwsGetBackend (r : Registry) (backendId : Int) : Option ArwsBackend :=
  r.backends.find? (·.id == backendId)

def arwsFindBackendByName (r : Registry) (name : Bytes) : Int :=
  ((r.backends.find? (·.name == name)).map (·.fd)).getD (-1)

def namedFind (named : List NamedClient) (name : Bytes) : Int :=
  ((named.find? fun c => matchAppAlias c.name name).map (·.fd)).getD (-1)

/-- `my_name`: only the backends with an id below `AR_IPC_MAX_CLIENTS` are looked at. -/
def myName (maxClients : Nat) (r : Registry) (clientFd : Int) : Option Bytes :=
  (List.range maxClients).findSome? fun (bi : Nat) =>
    ((arwsGetBackend r bi).filter (·.fd == clientFd)).map (·.name)

inductive QueryRoute
  /-- The gateway answers by itself. -/
  | gateway
  /-- The app that asks is sent the data. -/
  | own
  | notFound
  | forward (fd : Int)
  deriving DecidableEq

/-- Where the handler of a client sends a query for a target. -/
def queryRoute (maxClients : Nat) (r : Registry) (named : List NamedClient) (clientFd : Int)
    (target : Bytes) : QueryRoute :=
  if target = CString.ascii "arws" then .gateway
  else if myName maxClients r clientFd = some target then .own
  else
    let targetFd := arwsFindBackendByName r target
    let targetFd := if targetFd < 0 then namedFind named target else targetFd
    if targetFd < 0 then .notFound else .forward targetFd

/-- **An app with a high id is forwarded its own query**: the test for one does not look at it. -/
theorem queryRoute_self {maxClients : Nat} {r : Registry} {named : List NamedClient}
    {b : ArwsBackend} (hb : r.backends.find? (·.name == b.name) = some b) (hfd : 0 ≤ b.fd)
    (hhigh : ∀ c ∈ r.backends, c.fd = b.fd → (maxClients : Int) ≤ c.id)
    (hname : b.name ≠ CString.ascii "arws") :
    queryRoute maxClients r named b.fd b.name = .forward b.fd := by
  have hmy : myName maxClients r b.fd = none := by
    rw [myName, List.findSome?_eq_none_iff]
    intro bi hbi
    rw [Option.map_eq_none_iff, Option.filter_eq_none_iff]
    intro c hc hcfd
    have hid := List.find?_some hc
    have hle := hhigh c (List.mem_of_find?_eq_some hc) (by simpa using hcfd)
    have hlt := List.mem_range.1 hbi
    rw [beq_iff_eq] at hid
    omega
  have hfind : arwsFindBackendByName r b.name = b.fd := by
    rw [arwsFindBackendByName, hb]
    rfl
  have hneg : ¬ b.fd < 0 := Int.not_lt.2 hfd
  rw [queryRoute, if_neg hname, hmy, if_neg nofun, hfind]
  simp only [if_neg hneg]

/-! ## Who waits for whom -/

/-- The app whose answer a handler needs and has not got. -/
def Phase.waitsFor (slots : Nat → QueryRespSlot) : Phase → Option Nat
  | .locking _ _ target | .locked _ _ target => some target
  | .sent _ target | .waiting _ target _ =>
    if (slots target).hasResponse then none else some target
  | .idle | .unlocking _ _ _ _ | .replying _ _ _ => none

/-- The handler of `fd` waits for an answer that only the handler of `target` can read. -/
def QueryState.WaitsFor (s : QueryState) (fd target : Nat) : Prop :=
  (s.phase fd).waitsFor s.slots = some target

/-- **Nobody is stuck.** -/
structure Unstuck (s : QueryState) : Prop where
  acyclic : ¬ Circular s.WaitsFor
  inTime : ∀ fd id target deadline, s.phase fd = .waiting id target deadline →
    (s.slots target).hasResponse = false → s.now < deadline

/-! ## Time -/

def AppFrame.length : AppFrame → Nat
  | .query _ payload => payload.length
  | .answer _ _ data => data.length

/-- A handler that has nothing to do, unless it is woken in the lock. -/
def Phase.Rests (slots : Nat → QueryRespSlot) (asleep : Prop) : Phase → Prop
  | .idle => True
  | .locking _ _ _ => asleep
  | .waiting _ target _ => (slots target).hasResponse = false
  | .locked _ _ _ | .sent _ _ | .unlocking _ _ _ _ | .replying _ _ _ => False

/-- All apps have answered and all handlers have done what they can. -/
structure Settled (bufSize : Nat) (s : QueryState) : Prop where
  answered : ∀ fd, s.owed fd = []
  read : ∀ fd, s.phase fd = .idle → ∀ f ∈ (s.inbox fd).head?, bufSize < f.length
  rests : ∀ fd, (s.phase fd).Rests s.slots (fd ∈ s.locks.asleep)

/-- The gateway runs, the apps stay and answer promptly with frames that fit the buffer, and time
passes only when nobody has anything to do. -/
def Prompt (bufSize : Nat) (s : QueryState) : QueryAct → Prop
  | .ask _ payload => payload.length ≤ bufSize
  | .answer _ _ data => data.length ≤ bufSize
  | .hangUp _ | .stop => False
  | .tick _ => Settled bufSize s
  | _ => True

/-- The handler has a query to read. -/
def QueryState.ReadsQuery (s : QueryState) (fd : Nat) : Prop :=
  ∃ id payload, (s.inbox fd).head? = some (.query id payload)

/-- A query goes to an app whose handler is not the one that forwards it and does not wait for it,
directly or through others; and no handler sleeps for the lock of an app that is not locked. -/
def Untangled (s : QueryState) : QueryAct → Prop
  | .recv fd (some target) => s.ReadsQuery fd → ¬ Relation.ReflTransGen s.WaitsFor target fd
  | .tick _ => ∀ target, s.locks.Waiting target → s.locks.locked target = true
  | _ => True

/-! ## What the runs keep -/

/-- What holds of the answer a handler waits for: it is outstanding, and the wait has just begun. -/
def Phase.Awaited (out : Nat → List Nat) (slots : Nat → QueryRespSlot) (now : Nat) : Phase → Prop
  | .sent _ target => (slots target).hasResponse = false → out target ≠ []
  | .waiting _ target deadline =>
    (slots target).hasResponse = false → out target ≠ [] ∧ deadline = now + 3000
  | _ => True

structure Calm (bufSize : Nat) (s : QueryState) : Prop where
  running : s.locks.running = true
  held : Held hasQueryLock s.locks
  taken : Taken s.locks
  link : ∀ fd, s.locks.place fd = (s.phase fd).place
  small : ∀ fd, ∀ f ∈ s.inbox fd, f.length ≤ bufSize
  awaited : ∀ fd, (s.phase fd).Awaited s.outstanding s.slots s.now
  finite : {fd | s.phase fd ≠ .idle}.Finite
  acyclic : ¬ Circular s.WaitsFor

theorem Calm.start (bufSize : Nat) : Calm bufSize .start where
  running := rfl
  held := .start _
  taken _ h := nomatch h
  link _ := rfl
  small _ _ h := nomatch h
  awaited _ := trivial
  finite := by
    have hempty : {fd | QueryState.start.phase fd ≠ .idle} = ∅ :=
      Set.eq_empty_of_forall_notMem fun _ h => h rfl
    rw [hempty]
    exact Set.finite_empty
  acyclic := by
    rintro ⟨S, ⟨fd, hfd⟩, hS⟩
    obtain ⟨_, _, h⟩ := hS fd hfd
    cases h

variable {bufSize : Nat} {s t : QueryState}

/-- What a step leaves to those who wait for the answer of a target: there is an answer, or it is as
much outstanding as before. -/
def Keeps (s t : QueryState) (target : Nat) : Prop :=
  (t.slots target).hasResponse = false → (s.slots target).hasResponse = false ∧
    (s.outstanding target ≠ [] → t.outstanding target ≠ [])

theorem keeps_of_eq {target : Nat} (hslots : t.slots target = s.slots target)
    (hout : t.outstanding target = s.outstanding target) : Keeps s t target := by
  intro h
  rw [hslots] at h
  exact ⟨h, fun hne => by rwa [hout]⟩

theorem Phase.Awaited.mono {p : Phase} (hnow : t.now = s.now)
    (h : p.Awaited s.outstanding s.slots s.now)
    (hkeeps : ∀ target, p.place = .inside target → Keeps s t target) :
    p.Awaited t.outstanding t.slots t.now := by
  cases p with
  | sent id target =>
    intro hnone
    obtain ⟨hnone', hout⟩ := hkeeps target rfl hnone
    exact hout (h hnone')
  | waiting id target deadline =>
    intro hnone
    obtain ⟨hnone', hout⟩ := hkeeps target rfl hnone
    obtain ⟨hne, rfl⟩ := h hnone'
    exact ⟨hout hne, by rw [hnow]⟩
  | idle => trivial
  | locking id data target => trivial
  | locked id data target => trivial
  | unlocking id target type buf => trivial
  | replying id type buf => trivial

theorem Phase.waitsFor_mono {p : Phase} {y : Nat}
    (hkeeps : ∀ target, p.place = .inside target → Keeps s t target)
    (h : p.waitsFor t.slots = some y) : p.waitsFor s.slots = some y := by
  cases p with
  | sent id target =>
    simp only [Phase.waitsFor, Option.ite_none_left_eq_some, Bool.not_eq_true] at h ⊢
    exact ⟨(hkeeps target rfl h.1).1, h.2⟩
  | waiting id target deadline =>
    simp only [Phase.waitsFor, Option.ite_none_left_eq_some, Bool.not_eq_true] at h ⊢
    exact ⟨(hkeeps target rfl h.1).1, h.2⟩
  | idle => cases h
  | locking id data target => exact h
  | locked id data target => exact h
  | unlocking id target type buf => cases h
  | replying id type buf => cases h

theorem waitsFor_moved {fd y : Nat} {p : Phase} (hphase : t.phase = Function.update s.phase fd p) :
    t.WaitsFor fd y ↔ p.waitsFor t.slots = some y := by
  rw [QueryState.WaitsFor, hphase, Function.update_self]

theorem waitsFor_of_ne {fd x y : Nat} {p : Phase} (hphase : t.phase = Function.update s.phase fd p)
    (hx : x ≠ fd) : t.WaitsFor x y ↔ (s.phase x).waitsFor t.slots = some y := by
  rw [QueryState.WaitsFor, hphase, Function.update_of_ne hx]

/-- Handlers inside the lock of one target are one handler. -/
theorem Calm.eq_of_inside (h : Calm bufSize s) {fd fd' target : Nat}
    (hfd : (s.phase fd).place = .inside target) (hfd' : (s.phase fd').place = .inside target) :
    fd = fd' :=
  h.held.exclusive h.running target rfl fd fd' ((h.link fd).trans hfd) ((h.link fd').trans hfd')

/-- A step that moves no handler. -/
theorem Calm.of_stay (h : Calm bufSize s) (hheld : Held hasQueryLock t.locks)
    (htaken : Taken t.locks) (hrun : t.locks.running = true)
    (hplace : t.locks.place = s.locks.place) (hphase : t.phase = s.phase)
    (hsmall : ∀ x, ∀ f ∈ t.inbox x, f.length ≤ bufSize)
    (hkeeps : ∀ target, Keeps s t target) (hnow : t.now = s.now) : Calm bufSize t where
  running := hrun
  held := hheld
  taken := htaken
  link fd := by rw [hplace, hphase, h.link]
  small := hsmall
  awaited fd := by
    rw [hphase]
    exact (h.awaited fd).mono hnow fun target _ => hkeeps target
  finite := by
    rw [hphase]
    exact h.finite
  acyclic hcirc := by
    refine h.acyclic (hcirc.mono fun x y hxy => ?_)
    rw [QueryState.WaitsFor, hphase] at hxy
    exact Phase.waitsFor_mono (fun target _ => hkeeps target) hxy

/-- What a step that moves one handler has to show: the handlers in the lock of other targets find
theirs as they were, what the handler waits for is outstanding, and it closes no circle. -/
theorem Calm.of_move (h : Calm bufSize s) {fd : Nat} {p : Phase}
    (hheld : Held hasQueryLock t.locks) (htaken : Taken t.locks) (hrun : t.locks.running = true)
    (hplace : t.locks.place = Function.update s.locks.place fd p.place)
    (hphase : t.phase = Function.update s.phase fd p)
    (hsmall : ∀ x, ∀ f ∈ t.inbox x, f.length ≤ bufSize)
    (hkeeps : ∀ x target, x ≠ fd → (s.phase x).place = .inside target → Keeps s t target)
    (hnow : t.now = s.now) (hp : p.Awaited t.outstanding t.slots t.now)
    (hacyclic : (∀ x, x ≠ fd → ∀ y, t.WaitsFor x y → s.WaitsFor x y) → ¬ Circular t.WaitsFor) :
    Calm bufSize t where
  running := hrun
  held := hheld
  taken := htaken
  link x := by
    rw [hplace, hphase]
    by_cases hx : x = fd
    · rw [hx, Function.update_self, Function.update_self]
    · rw [Function.update_of_ne hx, Function.update_of_ne hx, h.link]
  small := hsmall
  awaited x := by
    rw [hphase]
    by_cases hx : x = fd
    · rw [hx, Function.update_self]
      exact hp
    · rw [Function.update_of_ne hx]
      exact (h.awaited x).mono hnow fun target => hkeeps x target hx
  finite := by
    refine (h.finite.insert fd).subset fun x hx => ?_
    by_cases hxfd : x = fd
    · exact Set.mem_insert_iff.2 (Or.inl hxfd)
    · refine Set.mem_insert_of_mem _ ?_
      rwa [hphase, Set.mem_ofPred_eq, Function.update_of_ne hxfd] at hx
  acyclic := hacyclic fun x hx _ hxy =>
    Phase.waitsFor_mono (fun target => hkeeps x target hx) ((waitsFor_of_ne hphase hx).1 hxy)

/-- A handler that waits for no one new closes no circle. -/
theorem Calm.acyclic_of_moved (h : Calm bufSize s) {fd : Nat}
    (hfd : ∀ y, t.WaitsFor fd y → s.WaitsFor fd y)
    (hothers : ∀ x, x ≠ fd → ∀ y, t.WaitsFor x y → s.WaitsFor x y) : ¬ Circular t.WaitsFor := by
  refine fun hcirc => h.acyclic (hcirc.mono fun x y hxy => ?_)
  by_cases hx : x = fd
  · subst hx
    exact hfd y hxy
  · exact hothers x hx y hxy

/-- A handler that goes on to a phase at the same place of the lock. -/
theorem Calm.of_setPhase (h : Calm bufSize s) {fd : Nat} {p : Phase}
    (hplace : p.place = (s.phase fd).place)
    (hp : p.Awaited s.outstanding s.slots s.now)
    (hwaits : ∀ y, p.waitsFor s.slots = some y → (s.phase fd).waitsFor s.slots = some y) :
    Calm bufSize (s.setPhase fd p) := by
  refine h.of_move h.held h.taken h.running ?_ rfl h.small (fun _ _ _ _ => keeps_of_eq rfl rfl) rfl hp
    (h.acyclic_of_moved fun y hy => ?_)
  · rw [hplace, ← h.link, Function.update_eq_self]
    rfl
  · have hy' := (waitsFor_moved (t := s.setPhase fd p) rfl).1 hy
    exact hwaits y hy'

/-! ## Every step but the passing of time -/

theorem Calm.ask (h : Calm bufSize s) (fd : Nat) {payload : Bytes}
    (hlen : payload.length ≤ bufSize) (hs : queryStep bufSize s (.ask fd payload) = some t) :
    Calm bufSize t := by
  cases hs
  refine h.of_stay h.held h.taken h.running rfl rfl (fun x f hf => ?_)
    (fun target => keeps_of_eq rfl (congrFun (outstanding_push_query fd s.nextId payload) target)) rfl
  obtain hf | ⟨rfl, -⟩ := mem_push hf
  · exact h.small x f hf
  · exact hlen

theorem Calm.answer (h : Calm bufSize s) {fd : Nat} {type : RespType} {data : Bytes}
    (hlen : data.length ≤ bufSize) (hs : queryStep bufSize s (.answer fd type data) = some t) :
    Calm bufSize t := by
  rw [queryStep] at hs
  split at hs
  · cases hs
  · rename_i id qdata rest ho
    cases hs
    refine h.of_stay h.held h.taken h.running rfl rfl (fun x f hf => ?_)
      (fun target => keeps_of_eq rfl (congrFun (outstanding_answer ho) target)) rfl
    obtain hf | ⟨rfl, -⟩ := mem_push hf
    · exact h.small x f hf
    · exact hlen

/-- An answer that is read is in the slot of its app. -/
theorem Calm.store (h : Calm bufSize s) (fd : Nat) (type : RespType) (data : Bytes) :
    Calm bufSize ((s.popInbox fd).setSlot fd (storeResponse bufSize type data)) := by
  refine h.of_stay h.held h.taken h.running rfl rfl
    (fun x f hf => h.small x f (mem_popInbox hf)) (fun target => ?_) rfl
  by_cases htarget : target = fd
  · subst htarget
    intro hnone
    cases (congrArg QueryRespSlot.hasResponse (Function.update_self target _ s.slots)).symm.trans hnone
  · exact keeps_of_eq (Function.update_of_ne htarget _ _) (outstanding_popInbox_of_ne htarget)

/-- The handler that takes up a query waits for its target, and the others wait as before. -/
theorem addsEdge_recv {fd target id : Nat} {data : Bytes} {locks : KeyedLock.State Nat Nat} :
    AddsEdge s.WaitsFor { (s.popInbox fd).setPhase fd (.locking id data target) with
      locks := locks }.WaitsFor fd target where
  new c := by
    refine (waitsFor_moved (s := s) (p := .locking id data target) rfl).trans ?_
    rw [Phase.waitsFor, Option.some_inj, eq_comm]
  old _ hx _ := waitsFor_of_ne rfl hx

/-- What a handler does with a frame: it fills a slot, refuses a query, or takes it up. -/
theorem recv_cases {fd : Nat} {target : Option Nat}
    (hs : queryStep bufSize s (.recv fd target) = some t) :
    s.phase fd = .idle ∧ s.locks.running = true ∧
      ((∃ id type data rest, s.inbox fd = .answer id type data :: rest ∧
          t = (s.popInbox fd).setSlot fd (storeResponse bufSize type data)) ∨
        ∃ id payload rest, s.inbox fd = .query id payload :: rest ∧
          (target = none ∧ t = { s.popInbox fd with
              replies := s.replies ++ [(id, .error (CString.ascii "target not found" ++ [0]))] } ∨
            ∃ y l, target = some y ∧ KeyedLock.step hasQueryLock s.locks (.call fd y) = some l ∧
              t = { (s.popInbox fd).setPhase fd
                (.locking id (queryTarget (recvBuf bufSize payload)).2 y) with locks := l })) := by
  rw [queryStep] at hs
  split at hs
  · rename_i hidle
    split at hs
    · rename_i hrun
      refine ⟨hidle, hrun, ?_⟩
      rw [recvFrame] at hs
      split at hs
      · cases hs
      · rename_i id type data rest hi
        split at hs <;> cases hs
        exact Or.inl ⟨id, type, data, rest, hi, rfl⟩
      · rename_i id payload rest hi
        refine Or.inr ⟨id, payload, rest, hi, ?_⟩
        split at hs
        · split at hs
          · cases hs
            exact Or.inl ⟨rfl, rfl⟩
          · rename_i y
            obtain ⟨l, hl, rfl⟩ := Option.map_eq_some_iff.1 hs
            exact Or.inr ⟨y, l, rfl, hl, rfl⟩
        · cases hs
    · cases hs
  · cases hs

theorem Calm.recv (h : Calm bufSize s) {fd : Nat} {target : Option Nat}
    (hc : Untangled s (.recv fd target)) (hs : queryStep bufSize s (.recv fd target) = some t) :
    Calm bufSize t := by
  obtain ⟨-, -, ⟨id, type, data, rest, -, rfl⟩ | ⟨id, payload, rest, hi, hquery⟩⟩ := recv_cases hs
  · exact h.store fd type data
  have hsmall : ∀ x, ∀ f ∈ (s.popInbox fd).inbox x, f.length ≤ bufSize :=
    fun x f hf => h.small x f (mem_popInbox hf)
  have hkeeps : ∀ target, Keeps s (s.popInbox fd) target := fun target =>
    keeps_of_eq rfl (congrFun (outstanding_popInbox_query hi) target)
  obtain ⟨-, rfl⟩ | ⟨y, l, rfl, hl, rfl⟩ := hquery
  · exact h.of_stay h.held h.taken h.running rfl rfl hsmall hkeeps rfl
  · have hplace : l.place = Function.update s.locks.place fd (.locking y) := by
      obtain ⟨-, rfl⟩ := step_call_cases hl
      rfl
    have hrun : l.running = true := by
      obtain ⟨-, rfl⟩ := step_call_cases hl
      exact h.running
    refine h.of_move (h.held.step hl) (h.taken.step (fun _ => rfl) h.running hl) hrun hplace rfl
      hsmall (fun _ target _ _ => hkeeps target) rfl trivial fun _ hcirc => ?_
    refine hc ⟨id, payload, by rw [hi]; rfl⟩ ?_
    exact (addsEdge_recv.circular_iff h.acyclic).1 hcirc

/-- A handler that takes the lock of its target goes on to it as before. -/
theorem Calm.test (h : Calm bufSize s) {fd : Nat}
    (hs : queryStep bufSize s (.test fd) = some t) : Calm bufSize t := by
  obtain ⟨id, data, target, l, hphase, hl, hrun, hcases⟩ :=
    queryStep_test_cases (h.link fd) h.running hs
  have hheld := h.held.step hl
  have htaken := h.taken.step (fun _ => rfl) h.running hl
  obtain ⟨-, hplace, rfl⟩ | ⟨hplace, rfl⟩ := hcases
  · refine h.of_move (p := .locked id data target) hheld htaken hrun hplace rfl h.small ?_ rfl
      trivial (h.acyclic_of_moved fun y hy => ?_)
    · intro x target' hne hx
      refine keeps_of_eq (Function.update_of_ne ?_ _ _) rfl
      -- two handlers would be inside the lock of the target
      rintro rfl
      refine hne (hheld.exclusive hrun target' rfl x fd ?_ ?_)
      · exact (congrFun hplace x).trans
          ((Function.update_of_ne hne _ _).trans ((h.link x).trans hx))
      · exact (congrFun hplace fd).trans (Function.update_self _ _ _)
    · have hy' := (waitsFor_moved (s := s) (p := .locked id data target) rfl).1 hy
      rw [QueryState.WaitsFor, hphase]
      exact hy'
  · exact h.of_stay hheld htaken hrun hplace rfl h.small (fun _ => keeps_of_eq rfl rfl) rfl

theorem Calm.wake (h : Calm bufSize s) {fd : Nat}
    (hs : queryStep bufSize s (.wake fd) = some t) : Calm bufSize t := by
  obtain ⟨l, hl, rfl⟩ := Option.map_eq_some_iff.1 hs
  obtain ⟨-, hl'⟩ := step_wake_cases hl
  refine h.of_stay (h.held.step hl) (h.taken.step (fun _ => rfl) h.running hl) ?_ ?_ rfl h.small
    (fun _ => keeps_of_eq rfl rfl) rfl
  · rw [hl']
    exact h.running
  · rw [hl']

/-- A query that is sent is outstanding until its answer is in the slot. -/
theorem Calm.send (h : Calm bufSize s) {fd : Nat} {ok : Bool}
    (hs : queryStep bufSize s (.send fd ok) = some t) : Calm bufSize t := by
  rw [queryStep] at hs
  split at hs
  · rename_i id data target hphase
    cases hs
    cases ok with
    | false =>
      refine h.of_setPhase (p := .unlocking id target none []) ?_ trivial fun y hy => by cases hy
      rw [hphase]
      rfl
    | true =>
      rw [if_pos rfl]
      refine h.of_move (p := .sent id target) h.held h.taken h.running ?_ rfl h.small ?_ rfl ?_
        (h.acyclic_of_moved fun y hy => ?_)
      · change s.locks.place = Function.update s.locks.place fd (Place.inside target)
        rw [show Place.inside target = s.locks.place fd by rw [h.link, hphase]; rfl,
          Function.update_eq_self]
      · intro x target' hne hx
        have htarget : target' ≠ target := by
          rintro rfl
          exact hne (h.eq_of_inside hx (by rw [hphase]; rfl))
        refine keeps_of_eq rfl ?_
        simp [QueryState.outstanding, QueryState.setPhase, Function.update_of_ne htarget]
      · intro _
        simp [QueryState.outstanding]
      · have hy' := (waitsFor_moved (s := s) (p := .sent id target) rfl).1 hy
        rw [QueryState.WaitsFor, hphase]
        exact (Option.ite_none_left_eq_some.1 hy').2
  · cases hs

theorem Calm.wait (h : Calm bufSize s) {fd : Nat}
    (hs : queryStep bufSize s (.wait fd) = some t) : Calm bufSize t := by
  rw [queryStep] at hs
  split at hs
  · rename_i id target hphase
    have hawaited := h.awaited fd
    rw [hphase] at hawaited
    cases hs
    refine h.of_setPhase (by rw [hphase]; rfl) (fun hnone => ⟨hawaited hnone, rfl⟩) fun y hy => ?_
    rw [hphase]
    exact hy
  · cases hs

theorem Calm.poll (h : Calm bufSize s) {fd : Nat}
    (hs : queryStep bufSize s (.poll fd) = some t) : Calm bufSize t := by
  rw [queryStep] at hs
  split at hs
  · rename_i id target deadline hphase
    cases hs
    simp only [pollSlot]
    split_ifs
    · exact h
    · exact h.of_setPhase (by rw [hphase]; rfl) trivial fun y hy => by cases hy
    · exact h.of_setPhase (by rw [hphase]; rfl) trivial fun y hy => by cases hy
  · cases hs

theorem Calm.unlock (h : Calm bufSize s) {fd : Nat} {woken : List Nat}
    (hs : queryStep bufSize s (.unlock fd woken) = some t) : Calm bufSize t := by
  rw [queryStep] at hs
  split at hs
  · rename_i id target type buf hphase
    obtain ⟨s', hs', rfl⟩ := Option.map_eq_some_iff.1 hs
    obtain ⟨l, hl, rfl⟩ := Option.map_eq_some_iff.1 hs'
    have hplace : l.place = Function.update s.locks.place fd .outside := by
      obtain ⟨k, -, ⟨-, rfl⟩ | ⟨-, rfl⟩⟩ := step_unlock_cases hl <;> rfl
    have hrun : l.running = true := by
      obtain ⟨k, -, ⟨-, rfl⟩ | ⟨-, rfl⟩⟩ := step_unlock_cases hl <;> exact h.running
    refine h.of_move (p := .replying id type buf) (h.held.step hl)
      (h.taken.step (fun _ => rfl) h.running hl) hrun hplace rfl h.small ?_ rfl trivial
      (h.acyclic_of_moved fun y hy => ?_)
    · intro x target' hne hx
      refine keeps_of_eq (Function.update_of_ne ?_ _ _) rfl
      rintro rfl
      exact hne (h.eq_of_inside hx (by rw [hphase]; rfl))
    · cases (waitsFor_moved (s := s) (p := .replying id type buf) rfl).1 hy
  · cases hs

theorem Calm.reply (h : Calm bufSize s) {fd : Nat}
    (hs : queryStep bufSize s (.reply fd) = some t) : Calm bufSize t := by
  rw [queryStep] at hs
  split at hs
  · rename_i id type buf hphase
    cases hs
    have hidle : Calm bufSize (s.setPhase fd .idle) :=
      h.of_setPhase (by rw [hphase]; rfl) trivial fun y hy => by cases hy
    exact { hidle with }
  · cases hs

/-! ## Time passes -/

/-- Whoever is waited for at rest waits itself: its answer would have been read otherwise. -/
theorem Calm.waits_of_waiting (h : Calm bufSize s) (hrest : Settled bufSize s)
    {fd id target deadline : Nat} (hphase : s.phase fd = .waiting id target deadline)
    (hnone : (s.slots target).hasResponse = false) : ∃ y, s.WaitsFor target y := by
  have hawaited := h.awaited fd
  rw [hphase] at hawaited
  have hout := (hawaited hnone).1
  -- the app has answered, so the answer lies before its handler
  have hinbox : s.inbox target ≠ [] := by
    intro hempty
    rw [QueryState.outstanding, hempty, hrest.answered target] at hout
    exact hout rfl
  have hrests := hrest.rests target
  show ∃ y, (s.phase target).waitsFor s.slots = some y
  cases hp : s.phase target with
  | idle =>
    obtain ⟨f, rest, hf⟩ := List.exists_cons_of_ne_nil hinbox
    have hlarge := hrest.read target hp f (by rw [hf]; rfl)
    have hsmall := h.small target f (by rw [hf]; exact List.mem_cons_self)
    omega
  | locking id data y => exact ⟨y, rfl⟩
  | waiting id y deadline =>
    rw [hp] at hrests
    exact ⟨y, if_neg (by rw [hrests]; decide)⟩
  | locked id data y => rw [hp] at hrests; exact hrests.elim
  | sent id y => rw [hp] at hrests; exact hrests.elim
  | unlocking id y type buf => rw [hp] at hrests; exact hrests.elim
  | replying id type buf => rw [hp] at hrests; exact hrests.elim

/-- A handler inside the lock of a target waits at rest. -/
theorem waiting_of_inside (hrest : Settled bufSize s) {fd target : Nat}
    (hin : (s.phase fd).place = .inside target) :
    ∃ id deadline, s.phase fd = .waiting id target deadline ∧ (s.slots target).hasResponse = false := by
  have hrests := hrest.rests fd
  cases hp : s.phase fd with
  | waiting id y deadline =>
    rw [hp] at hrests hin
    cases hin
    exact ⟨id, deadline, rfl, hrests⟩
  | idle => rw [hp] at hin; cases hin
  | locking id data y => rw [hp] at hin; cases hin
  | replying id type buf => rw [hp] at hin; cases hin
  | locked id data y => rw [hp] at hrests; exact hrests.elim
  | sent id y => rw [hp] at hrests; exact hrests.elim
  | unlocking id y type buf => rw [hp] at hrests; exact hrests.elim

/-- **Nobody waits when all have done what they can**: each would wait for another one that waits. -/
theorem Calm.not_waitsFor (h : Calm bufSize s) (hrest : Settled bufSize s)
    (hwoken : ∀ target, s.locks.Waiting target → s.locks.locked target = true) (fd target : Nat) :
    ¬ s.WaitsFor fd target := by
  intro hwaits
  refine h.acyclic (circular_of_finite (P := fun fd => ∃ y, s.WaitsFor fd y) ?_ ⟨target, hwaits⟩ ?_)
  · refine h.finite.subset fun x hx hidle => ?_
    obtain ⟨y, hy⟩ : ∃ y, (s.phase x).waitsFor s.slots = some y := hx
    rw [hidle] at hy
    cases hy
  · rintro x ⟨y, hy⟩
    refine ⟨y, ?_, hy⟩
    have hrests := hrest.rests x
    rw [QueryState.WaitsFor] at hy
    cases hp : s.phase x with
    | locking id data y' =>
      rw [hp] at hy hrests
      cases hy
      -- the lock is held by another handler, which waits for the same target
      have hlocked := hwoken y ⟨x, hrests, by rw [h.link, hp]; rfl⟩
      obtain ⟨v, hv⟩ := h.taken y hlocked
      obtain ⟨id', deadline, hv', hnone⟩ := waiting_of_inside hrest ((h.link v).symm.trans hv)
      exact h.waits_of_waiting hrest hv' hnone
    | waiting id y' deadline =>
      rw [hp] at hy
      obtain ⟨hnone, hy⟩ := Option.ite_none_left_eq_some.1 hy
      cases hy
      exact h.waits_of_waiting hrest hp (Bool.not_eq_true _ ▸ hnone)
    | idle => rw [hp] at hy; cases hy
    | locked id data y' => rw [hp] at hrests; exact hrests.elim
    | sent id y' => rw [hp] at hrests; exact hrests.elim
    | unlocking id y' type buf => rw [hp] at hrests; exact hrests.elim
    | replying id type buf => rw [hp] at hrests; exact hrests.elim

theorem Calm.tick (h : Calm bufSize s) (hrest : Settled bufSize s)
    (hwoken : ∀ target, s.locks.Waiting target → s.locks.locked target = true) {ms : Nat}
    (hs : queryStep bufSize s (.tick ms) = some t) : Calm bufSize t := by
  cases hs
  refine { h with awaited := fun fd => ?_ }
  have hawaited := h.awaited fd
  cases hp : s.phase fd with
  | sent id target =>
    rw [hp] at hawaited
    exact hawaited
  | waiting id target deadline =>
    intro hnone
    refine absurd ?_ (h.not_waitsFor hrest hwoken fd target)
    rw [QueryState.WaitsFor, hp]
    exact if_neg (by rw [hnone]; decide)
  | idle => trivial
  | locking id data target => trivial
  | locked id data target => trivial
  | unlocking id target type buf => trivial
  | replying id type buf => trivial

/-! ## Every run -/

theorem Calm.step (h : Calm bufSize s) {act : QueryAct} (hprompt : Prompt bufSize s act)
    (hc : Untangled s act) (hs : queryStep bufSize s act = some t) : Calm bufSize t := by
  cases act with
  | ask fd payload => exact h.ask fd hprompt hs
  | answer fd type data => exact h.answer hprompt hs
  | hangUp fd => exact hprompt.elim
  | recv fd target => exact h.recv hc hs
  | test fd => exact h.test hs
  | wake fd => exact h.wake hs
  | send fd ok => exact h.send hs
  | wait fd => exact h.wait hs
  | poll fd => exact h.poll hs
  | unlock fd woken => exact h.unlock hs
  | reply fd => exact h.reply hs
  | tick ms => exact h.tick hprompt hc hs
  | stop => exact hprompt.elim

theorem Calm.unstuck (h : Calm bufSize s) : Unstuck s where
  acyclic := h.acyclic
  inTime fd id target deadline hphase hnone := by
    have hawaited := h.awaited fd
    rw [hphase] at hawaited
    have := (hawaited hnone).2
    omega

theorem calm_of_reach
    (h : (queryMachine bufSize).ReachUnder (fun s act => Prompt bufSize s act ∧ Untangled s act) s) :
    Calm bufSize s :=
  h.invariant (I := Calm bufSize) (fun _ hs => by cases hs; exact .start bufSize)
    fun _ _ _ hi hc hs => hi.step hc.1 hc.2 hs

/-- A query that is taken up closes a circle exactly if its target waits for the handler. -/
theorem Calm.circular_recv_iff (h : Calm bufSize s) {fd target : Nat} (hquery : s.ReadsQuery fd)
    (hs : queryStep bufSize s (.recv fd (some target)) = some t) :
    Circular t.WaitsFor ↔ Relation.ReflTransGen s.WaitsFor target fd := by
  obtain ⟨id, payload, hhead⟩ := hquery
  obtain ⟨-, -, ⟨id', type, data, rest, hi, -⟩ | ⟨id', payload', rest, hi, hcases⟩⟩ := recv_cases hs
  · rw [hi] at hhead
    cases hhead
  obtain ⟨hnone, -⟩ | ⟨y, l, hy, -, rfl⟩ := hcases
  · cases hnone
  · cases hy
    exact addsEdge_recv.circular_iff h.acyclic

/-- **Nobody is stuck**, in every run of prompt apps in which no query is forwarded to a handler that
waits for the one that forwards it: no deadline passes, and when all have done what they can, every
query is answered.  A query that is forwarded otherwise closes a circle. -/
theorem unstuck_of_untangled (bufSize : Nat) {s : QueryState}
    (h : (queryMachine bufSize).ReachUnder
      (fun s act => Prompt bufSize s act ∧ Untangled s act) s) :
    Unstuck s ∧
      (Settled bufSize s → (∀ target, s.locks.Waiting target → s.locks.locked target = true) →
        ∀ fd target, ¬ s.WaitsFor fd target) ∧
      ∀ fd target t, s.ReadsQuery fd → queryStep bufSize s (.recv fd (some target)) = some t →
        (Circular t.WaitsFor ↔ Relation.ReflTransGen s.WaitsFor target fd) := by
  have hcalm := calm_of_reach h
  exact ⟨hcalm.unstuck, hcalm.not_waitsFor, fun _ _ _ => hcalm.circular_recv_iff⟩

/-- A handler at the top of its loop waits for nobody. -/
theorem untangled_of_idle {fd target : Nat} (hidle : s.phase target = .idle) (hne : target ≠ fd) :
    Untangled s (.recv fd (some target)) := by
  intro _ hway
  obtain rfl | ⟨y, hy, -⟩ := Relation.ReflTransGen.cases_head hway
  · exact hne rfl
  · rw [QueryState.WaitsFor, hidle] at hy
    cases hy

/-- The steps of a handler from a query up to the wait for its answer. -/
private def forwardTo (fd target : Nat) : List QueryAct :=
  [.ask fd (CString.ascii "app\nwho"), .recv fd (some target), .test fd, .send fd true, .wait fd]

/-- Those steps, with a query that goes to an idle handler if `idle` is set. -/
private def Forwards (idle : Bool) (s : QueryState) : QueryAct → Prop
  | .ask _ payload => payload.length ≤ 4096
  | .recv fd (some target) => idle = true → s.phase target = .idle ∧ target ≠ fd
  | .test _ | .send _ _ | .wait _ => True
  | _ => False

private instance (idle : Bool) : ∀ (s : QueryState) (act : QueryAct), Decidable (Forwards idle s act)
  | _, .ask _ payload => inferInstanceAs (Decidable (payload.length ≤ 4096))
  | s, .recv fd (some target) =>
    inferInstanceAs (Decidable (idle = true → s.phase target = .idle ∧ target ≠ fd))
  | _, .test _ | _, .send _ _ | _, .wait _ => .isTrue trivial
  | _, .recv _ none | _, .answer _ _ _ | _, .hangUp _ | _, .wake _ | _, .poll _ | _, .unlock _ _
  | _, .reply _ | _, .tick _ | _, .stop => .isFalse id

private theorem Forwards.prompt {idle : Bool} (s : QueryState) (act : QueryAct)
    (h : Forwards idle s act) : Prompt 4096 s act := by
  cases act <;> first | exact h | trivial

private theorem Forwards.untangled (s : QueryState) (act : QueryAct) (h : Forwards true s act) :
    Untangled s act := by
  cases act with
  | recv fd target =>
    cases target with
    | none => trivial
    | some target => exact untangled_of_idle (h rfl).1 (h rfl).2
  | tick ms => exact h.elim
  | _ => trivial

/-- One app queries another. -/
theorem unstuck_of_one_query : ∃ s : QueryState, s.WaitsFor 1 3 ∧ Unstuck s := by
  obtain ⟨s, hs, hwaits⟩ : ∃ s, (queryMachine 4096).runUnder (Forwards true) .start
      (forwardTo 1 3) = some s ∧ s.WaitsFor 1 3 := ⟨_, rfl, rfl⟩
  have hreach := (Machine.reachUnder_of_runUnder (.start rfl) hs).mono
    fun s act h => And.intro (Forwards.prompt s act h) (Forwards.untangled s act h)
  exact ⟨s, hwaits, (unstuck_of_untangled 4096 hreach).1⟩

/-- **Two apps that query one another wait for one another.** -/
theorem not_unstuck : ¬ ∀ s, (queryMachine 4096).ReachUnder (Prompt 4096) s → Unstuck s := by
  intro h
  obtain ⟨s, hs, h₁, h₂⟩ : ∃ s, (queryMachine 4096).runUnder (Forwards false) .start
      (forwardTo 1 2 ++ forwardTo 2 1) = some s ∧ s.WaitsFor 1 2 ∧ s.WaitsFor 2 1 :=
    ⟨_, rfl, rfl, rfl⟩
  have hreach := (Machine.reachUnder_of_runUnder (.start rfl) hs).mono Forwards.prompt
  refine (h s hreach).acyclic ⟨{1, 2}, ⟨1, by decide⟩, fun fd hfd => ?_⟩
  obtain rfl | hfd := Finset.mem_insert.1 hfd
  · exact ⟨2, by decide, h₁⟩
  · obtain rfl := Finset.mem_singleton.1 hfd
    exact ⟨1, by decide, h₂⟩

end Gateway
end Arws
