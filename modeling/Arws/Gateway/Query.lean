import Arws.Library.Transition
import Arws.Library.KeyedLock
import Arws.Library.CString

/-!
# Queries between apps

A control connection has a handler, `client_handler_loop`, that reads the frames its app sends.  An
`IPC_QUERY` frame names another app: the handler takes the query lock of the target's descriptor,
forwards the query and waits up to three seconds for the target's answer.  The answer arrives on
the target's connection, where the target's own handler puts it into the slot of that descriptor.
A frame that answers does not say which query it answers.

The model has all handlers, their sockets and the clock.  An app answers the queries it was sent
once each and in order, as late as it likes.  What a query and its answer have in common in the
model, an id, is not in the frames: no definition of the gateway's code reads it.

* `RepliesMatch` — what a client is sent as the answer to its query is what the target answered to
  that query.
* `repliesMatch_of_unowed` — so it is when every query finds its target owing no answer, and
  answers are shorter than the buffer.
* `not_repliesMatch` — without the first, the answer to a query that timed out is sent to the next
  client.

Queries for `arws` itself and for the app that asks never wait for another app and are left out.
-/

set_option autoImplicit false

namespace Arws
namespace Gateway

open KeyedLock

/-- The frames an app answers a query with. -/
inductive RespType
  | queryResp
  | response
  deriving DecidableEq

/-- `QueryRespSlot`; `respType` and `respBuf` are `resp_type` and the first `resp_len` bytes of
`resp_buf`. -/
structure QueryRespSlot where
  hasResponse : Bool
  respType : Option RespType
  respBuf : Bytes
  deriving DecidableEq

def QueryRespSlot.reset : QueryRespSlot := ⟨false, none, []⟩

/-- A frame an app has sent and its handler has not read. -/
inductive AppFrame
  /-- `IPC_QUERY`, the query of this id. -/
  | query (id : Nat) (payload : Bytes)
  /-- `IPC_QUERY_RESP` or `IPC_RESPONSE`, which answers the query of this id. -/
  | answer (id : Nat) (type : RespType) (data : Bytes)
  deriving DecidableEq

/-- What a client gets for a query. -/
inductive Reply
  | resp (data : Bytes)
  | error (text : Bytes)
  deriving DecidableEq

/-- Where a handler is in the `IPC_QUERY` case of its loop. -/
inductive Phase
  /-- At the top of the loop. -/
  | idle
  /-- In `query_lock_fd(target)`. -/
  | locking (id : Nat) (data : Bytes) (target : Nat)
  /-- `query_lock_fd` has returned. -/
  | locked (id : Nat) (data : Bytes) (target : Nat)
  /-- The query was sent. -/
  | sent (id : Nat) (target : Nat)
  /-- In the loop that waits for the answer. -/
  | waiting (id : Nat) (target : Nat) (deadline : Nat)
  /-- Before `query_unlock_fd(target)`, with `resp_type` and `resp_buf`. -/
  | unlocking (id : Nat) (target : Nat) (type : Option RespType) (buf : Bytes)
  /-- Before the reply is sent. -/
  | replying (id : Nat) (type : Option RespType) (buf : Bytes)
  deriving DecidableEq

structure QueryState where
  /-- `gateway_running`, `query_locks` and the handlers in the code of the lock. -/
  locks : KeyedLock.State Nat Nat
  phase : Nat → Phase
  slots : Nat → QueryRespSlot
  /-- What was sent by the app of a descriptor and is unread. -/
  inbox : Nat → List AppFrame
  /-- The queries sent to the app of a descriptor that it has not answered, with their data. -/
  owed : Nat → List (Nat × Bytes)
  now : Nat
  nextId : Nat
  /-- Every answer an app has given, with the query it answered. -/
  answered : List (Nat × Bytes)
  /-- Every reply a client was sent, with its query. -/
  replies : List (Nat × Reply)

inductive QueryAct
  /-- The app of `fd` sends an `IPC_QUERY` frame. -/
  | ask (fd : Nat) (payload : Bytes)
  /-- The app of `fd` answers the oldest query it owes an answer to. -/
  | answer (fd : Nat) (type : RespType) (data : Bytes)
  /-- The connection of `fd` ends and the descriptor goes to a new one. -/
  | hangUp (fd : Nat)
  /-- The handler reads a frame; for a query, `target` is what the name of the target is found
  to be. -/
  | recv (fd : Nat) (target : Option Nat)
  /-- The handler makes the test in the loop of `query_lock_fd`. -/
  | test (fd : Nat)
  | wake (fd : Nat)
  /-- The handler forwards its query, with success or not. -/
  | send (fd : Nat) (ok : Bool)
  /-- The handler computes its deadline. -/
  | wait (fd : Nat)
  /-- The handler makes the test of the loop that waits. -/
  | poll (fd : Nat)
  /-- The handler unlocks and its signal wakes the handlers `woken`. -/
  | unlock (fd : Nat) (woken : List Nat)
  | reply (fd : Nat)
  | tick (ms : Nat)
  /-- `arws_stop`. -/
  | stop

/-! ## The gateway's code -/

/-- `buf` and `len` after a frame was received into the buffer of `AR_IPC_BUF_SIZE` bytes: a frame
that fills it loses its last byte to the terminator. -/
def recvBuf (bufSize : Nat) (data : Bytes) : Bytes :=
  if data.length < bufSize then data else data.take (bufSize - 1) ++ [0]

/-- The target's name and the data of a query: its first line, at most 63 bytes of it, and what
follows. -/
def queryTarget (payload : Bytes) : Bytes × Bytes :=
  let target := (payload.take 63).takeWhile fun c => c != 10 && c != 0
  let rest := payload.drop target.length
  (target, if rest.head? = some 10 then rest.tail else rest)

/-- The slot after the handler's `IPC_QUERY_RESP` case. -/
def storeResponse (bufSize : Nat) (type : RespType) (data : Bytes) : QueryRespSlot :=
  let len := if data.length < bufSize then data.length else bufSize - 1
  ⟨true, some type, (recvBuf bufSize data).take len⟩

namespace QueryState

def setPhase (s : QueryState) (fd : Nat) (p : Phase) : QueryState :=
  { s with phase := Function.update s.phase fd p }

def setSlot (s : QueryState) (fd : Nat) (slot : QueryRespSlot) : QueryState :=
  { s with slots := Function.update s.slots fd slot }

/-- The frame at the head of the inbox is read. -/
def popInbox (s : QueryState) (fd : Nat) : QueryState :=
  { s with inbox := Function.update s.inbox fd (s.inbox fd).tail }

def push (s : QueryState) (fd : Nat) (f : AppFrame) : QueryState :=
  { s with inbox := Function.update s.inbox fd (s.inbox fd ++ [f]) }

@[simp] theorem push_inbox (s : QueryState) (fd : Nat) (f : AppFrame) :
    (s.push fd f).inbox = Function.update s.inbox fd (s.inbox fd ++ [f]) := rfl

@[simp] theorem popInbox_inbox (s : QueryState) (fd : Nat) :
    (s.popInbox fd).inbox = Function.update s.inbox fd (s.inbox fd).tail := rfl

end QueryState

/-- Every descriptor the lookups find has a lock. -/
def hasQueryLock (_ : Nat) : Bool := true

/-- The step of the lock that a handler takes. -/
def lockStep (s : QueryState) (act : KeyedLock.Act Nat Nat) : Option QueryState :=
  (KeyedLock.step hasQueryLock s.locks act).map fun l => { s with locks := l }

/-- One frame through `client_handler_loop`: an answer goes into the slot of the connection it came
from, and a query goes on to its target. -/
def recvFrame (bufSize : Nat) (s : QueryState) (fd : Nat) (target : Option Nat) :
    Option QueryState :=
  match s.inbox fd with
  | [] => none
  | .answer _ type data :: _ =>
    if data.length ≤ bufSize then
      some ((s.popInbox fd).setSlot fd (storeResponse bufSize type data))
    else none
  | .query id payload :: _ =>
    if payload.length ≤ bufSize then
      match target with
      | none =>
        some { s.popInbox fd with
          replies := s.replies ++ [(id, .error (CString.ascii "target not found" ++ [0]))] }
      | some t =>
        lockStep ((s.popInbox fd).setPhase fd
          (.locking id (queryTarget (recvBuf bufSize payload)).2 t)) (.call fd t)
    else none

/-- The test of `query_lock_fd`: the handler that takes the lock resets the slot of its target. -/
def queryLockTest (s : QueryState) (fd : Nat) (id : Nat) (data : Bytes) (target : Nat) :
    Option QueryState :=
  (lockStep s (.test fd)).map fun s' =>
    if s'.locks.place fd = .inside target then
      (if s.locks.running then s'.setSlot target .reset else s').setPhase fd
        (.locked id data target)
    else s'

/-- The test of the loop that waits for an answer. -/
def pollSlot (s : QueryState) (fd : Nat) (id target deadline : Nat) : QueryState :=
  let slot := s.slots target
  if s.locks.running && decide (s.now < deadline) && !slot.hasResponse then s
  else s.setPhase fd
    (if slot.hasResponse then .unlocking id target slot.respType slot.respBuf
      else .unlocking id target none [])

/-- What the client is sent in the end. -/
def replyOf (type : Option RespType) (buf : Bytes) : Reply :=
  if type.isSome then .resp buf else .error (CString.ascii "target error" ++ [0])

def queryStep (bufSize : Nat) (s : QueryState) : QueryAct → Option QueryState
  | .ask fd payload => some { s.push fd (.query s.nextId payload) with nextId := s.nextId + 1 }
  | .answer fd type data =>
    match s.owed fd with
    | [] => none
    | (id, _) :: rest =>
      some { s.push fd (.answer id type data) with
        owed := Function.update s.owed fd rest
        answered := (id, data) :: s.answered }
  | .hangUp fd =>
    match s.phase fd with
    | .idle => some { s with
        inbox := Function.update s.inbox fd []
        owed := Function.update s.owed fd [] }
    | _ => none
  | .recv fd target =>
    match s.phase fd with
    | .idle => if s.locks.running then recvFrame bufSize s fd target else none
    | _ => none
  | .test fd =>
    match s.phase fd with
    | .locking id data target => queryLockTest s fd id data target
    | _ => none
  | .wake fd => lockStep s (.wake fd)
  | .send fd ok =>
    match s.phase fd with
    | .locked id data target =>
      some (if ok then
        { s.setPhase fd (.sent id target) with
          owed := Function.update s.owed target (s.owed target ++ [(id, data)]) }
      else s.setPhase fd (.unlocking id target none []))
    | _ => none
  | .wait fd =>
    match s.phase fd with
    | .sent id target => some (s.setPhase fd (.waiting id target (s.now + 3000)))
    | _ => none
  | .poll fd =>
    match s.phase fd with
    | .waiting id target deadline => some (pollSlot s fd id target deadline)
    | _ => none
  | .unlock fd woken =>
    match s.phase fd with
    | .unlocking id target type buf =>
      (lockStep s (.unlock fd woken)).map fun s =>
        (s.setSlot target .reset).setPhase fd (.replying id type buf)
    | _ => none
  | .reply fd =>
    match s.phase fd with
    | .replying id type buf =>
      some { s.setPhase fd .idle with replies := s.replies ++ [(id, replyOf type buf)] }
    | _ => none
  | .tick ms => some { s with now := s.now + ms }
  | .stop => lockStep s .halt

def QueryState.start : QueryState where
  locks := .start
  phase _ := .idle
  slots _ := .reset
  inbox _ := []
  owed _ := []
  now := 0
  nextId := 0
  answered := []
  replies := []

/-- The gateway and its apps, for a buffer of `bufSize` bytes. -/
def queryMachine (bufSize : Nat) : Machine QueryState QueryAct where
  init s := s = .start
  step := queryStep bufSize

/-! ## The right answer -/

/-- **Replies match**: an answer a client was sent is the one its target gave to that query. -/
def RepliesMatch (s : QueryState) : Prop :=
  ∀ id data, (id, Reply.resp data) ∈ s.replies → (id, data) ∈ s.answered

def AppFrame.answers : AppFrame → Option Nat
  | .query _ _ => none
  | .answer id _ _ => some id

/-- The queries to the app of `fd` whose answers the gateway has still to read. -/
def QueryState.outstanding (s : QueryState) (fd : Nat) : List Nat :=
  (s.inbox fd).filterMap AppFrame.answers ++ (s.owed fd).map Prod.fst

/-- The target a handler is about to lock. -/
def Phase.lockTarget : Phase → Option Nat
  | .locking _ _ t => some t
  | _ => none

/-- The step is taken while the gateway runs; a handler that takes the lock of its target finds no
answer of that app outstanding; and an answer is shorter than the buffer. -/
def Unowed (bufSize : Nat) (s : QueryState) : QueryAct → Prop
  | .test fd => s.locks.running = true ∧ ∀ target ∈ (s.phase fd).lockTarget,
      s.locks.locked target = false → s.outstanding target = []
  | .answer _ _ data => s.locks.running = true ∧ data.length < bufSize
  | _ => s.locks.running = true

/-! ## What carries it -/

/-- Where a handler in a phase is in the code of the lock. -/
def Phase.place : Phase → Place Nat
  | .idle | .replying _ _ _ => .outside
  | .locking _ _ t => .locking t
  | .locked _ _ t | .sent _ t | .waiting _ t _ | .unlocking _ t _ _ => .inside t

/-- A handler that waits for the answer to `id`: nothing else is outstanding, and what the slot has
is that answer. -/
def Awaits (out : List Nat) (slot : QueryRespSlot) (answered : List (Nat × Bytes)) (id : Nat) :
    Prop :=
  (out = [] ∨ out = [id] ∧ slot.hasResponse = false) ∧
    (slot.hasResponse = true → (id, slot.respBuf) ∈ answered)

/-- What holds of the target and of the answer of a handler in a phase. -/
def Phase.Fits (out : Nat → List Nat) (slots : Nat → QueryRespSlot)
    (answered : List (Nat × Bytes)) : Phase → Prop
  | .idle | .locking _ _ _ => True
  | .locked _ _ t => out t = [] ∧ (slots t).hasResponse = false
  | .sent id t | .waiting id t _ => Awaits (out t) (slots t) answered id
  | .unlocking id _ type buf | .replying id type buf => type.isSome = true → (id, buf) ∈ answered

/-- What is outstanding at the target may be forgotten, and more answers may be given. -/
theorem Phase.Fits.mono {p : Phase} {out out' : Nat → List Nat} {slots slots' : Nat → QueryRespSlot}
    {answered answered' : List (Nat × Bytes)} (h : p.Fits out slots answered)
    (hout : ∀ t, p.place = .inside t → out' t = out t ∨ out' t = [])
    (hslots : ∀ t, p.place = .inside t → slots' t = slots t)
    (hans : ∀ x ∈ answered, x ∈ answered') : p.Fits out' slots' answered' := by
  have hawaits : ∀ id t, p.place = .inside t → Awaits (out t) (slots t) answered id →
      Awaits (out' t) (slots' t) answered' id := by
    intro id t ht ⟨ho, hs⟩
    rw [hslots t ht]
    refine ⟨?_, fun hr => hans _ (hs hr)⟩
    rcases hout t ht with he | he
    · rwa [he]
    · exact Or.inl he
  cases p with
  | idle => trivial
  | locking id data t => trivial
  | locked id data t =>
    refine ⟨?_, hslots t rfl ▸ h.2⟩
    rcases hout t rfl with he | he
    · exact he.trans h.1
    · exact he
  | sent id t => exact hawaits id t rfl h
  | waiting id t deadline => exact hawaits id t rfl h
  | unlocking id t type buf => exact fun hsome => hans _ (h hsome)
  | replying id type buf => exact fun hsome => hans _ (h hsome)

/-- The invariant. -/
structure Inv (bufSize : Nat) (s : QueryState) : Prop where
  held : Held hasQueryLock s.locks
  link : ∀ fd, s.locks.place fd = (s.phase fd).place
  fits : ∀ fd, (s.phase fd).Fits s.outstanding s.slots s.answered
  inbox : ∀ fd id type data, AppFrame.answer id type data ∈ s.inbox fd →
    data.length < bufSize ∧ (id, data) ∈ s.answered
  replies : RepliesMatch s

theorem Inv.start (bufSize : Nat) : Inv bufSize .start where
  held := .start _
  link _ := rfl
  fits _ := trivial
  inbox _ _ _ _ h := nomatch h
  replies _ _ h := nomatch h

variable {bufSize : Nat} {s t : QueryState}

/-- Handlers inside the lock of one target are one handler. -/
theorem Inv.eq_of_inside (h : Inv bufSize s) (hrun : s.locks.running = true) {fd fd' target : Nat}
    (hfd : (s.phase fd).place = .inside target) (hfd' : (s.phase fd').place = .inside target) :
    fd = fd' :=
  h.held.exclusive hrun target rfl fd fd' ((h.link fd).trans hfd) ((h.link fd').trans hfd')

/-- What a step that moves one handler has to show: the handler fits its new phase, and it changes
only the slot and the outstanding queries of a target nobody else is at. -/
theorem Inv.of_move (h : Inv bufSize s) {fd : Nat} {p : Phase}
    (hheld : Held hasQueryLock t.locks)
    (hplace : t.locks.place = Function.update s.locks.place fd p.place)
    (hphase : t.phase = Function.update s.phase fd p)
    (hfits : p.Fits t.outstanding t.slots t.answered)
    (hout : ∀ fd' target, fd' ≠ fd → (s.phase fd').place = .inside target →
      (t.outstanding target = s.outstanding target ∨ t.outstanding target = []) ∧
        t.slots target = s.slots target)
    (hans : ∀ x ∈ s.answered, x ∈ t.answered)
    (hinbox : ∀ fd id type data, AppFrame.answer id type data ∈ t.inbox fd →
      data.length < bufSize ∧ (id, data) ∈ t.answered)
    (hreplies : RepliesMatch t) : Inv bufSize t where
  held := hheld
  link fd' := by
    rw [hplace, hphase]
    by_cases hfd : fd' = fd
    · rw [hfd, Function.update_self, Function.update_self]
    · rw [Function.update_of_ne hfd, Function.update_of_ne hfd, h.link]
  fits fd' := by
    rw [hphase]
    by_cases hfd : fd' = fd
    · rw [hfd, Function.update_self]
      exact hfits
    · rw [Function.update_of_ne hfd]
      exact (h.fits fd').mono (fun target ht => (hout fd' target hfd ht).1)
        (fun target ht => (hout fd' target hfd ht).2) hans
  inbox := hinbox
  replies := hreplies

/-- A step that moves no handler and touches no slot. -/
theorem Inv.of_stay (h : Inv bufSize s) (hheld : Held hasQueryLock t.locks)
    (hplace : t.locks.place = s.locks.place) (hphase : t.phase = s.phase)
    (hout : ∀ target, t.outstanding target = s.outstanding target ∨ t.outstanding target = [])
    (hslots : t.slots = s.slots) (hans : ∀ x ∈ s.answered, x ∈ t.answered)
    (hinbox : ∀ fd id type data, AppFrame.answer id type data ∈ t.inbox fd →
      data.length < bufSize ∧ (id, data) ∈ t.answered)
    (hreplies : RepliesMatch t) : Inv bufSize t where
  held := hheld
  link fd := by rw [hplace, hphase, h.link]
  fits fd := by
    rw [hphase, hslots]
    exact (h.fits fd).mono (fun target _ => hout target) (fun _ _ => rfl) hans
  inbox := hinbox
  replies := hreplies

/-! ## What is outstanding, step by step -/

theorem outstanding_push_query (fd id : Nat) (payload : Bytes) :
    (s.push fd (.query id payload)).outstanding = s.outstanding := by
  funext fd'
  by_cases hfd : fd' = fd
  · subst hfd
    simp [QueryState.outstanding, QueryState.push, AppFrame.answers]
  · simp [QueryState.outstanding, QueryState.push, Function.update_of_ne hfd]

theorem mem_push {fd fd' : Nat} {f f' : AppFrame} (h : f ∈ (s.push fd f').inbox fd') :
    f ∈ s.inbox fd' ∨ f = f' ∧ fd' = fd := by
  by_cases hfd : fd' = fd
  · subst hfd
    rw [QueryState.push_inbox, Function.update_self] at h
    rcases List.mem_append.1 h with h | h
    · exact Or.inl h
    · exact Or.inr ⟨List.mem_singleton.1 h, rfl⟩
  · rw [QueryState.push_inbox, Function.update_of_ne hfd] at h
    exact Or.inl h

theorem mem_popInbox {fd fd' : Nat} {f : AppFrame} (h : f ∈ (s.popInbox fd).inbox fd') :
    f ∈ s.inbox fd' := by
  by_cases hfd : fd' = fd
  · subst hfd
    rw [QueryState.popInbox_inbox, Function.update_self] at h
    exact List.mem_of_mem_tail h
  · rwa [QueryState.popInbox_inbox, Function.update_of_ne hfd] at h

/-- An app that answers moves its oldest query to the end of its inbox. -/
theorem outstanding_answer {fd id : Nat} {type : RespType} {data qdata : Bytes}
    {rest : List (Nat × Bytes)} (ho : s.owed fd = (id, qdata) :: rest) :
    QueryState.outstanding { s.push fd (.answer id type data) with
      owed := Function.update s.owed fd rest
      answered := (id, data) :: s.answered } = s.outstanding := by
  funext fd'
  by_cases hfd : fd' = fd
  · subst hfd
    simp [QueryState.outstanding, QueryState.push, AppFrame.answers, ho]
  · simp [QueryState.outstanding, QueryState.push, Function.update_of_ne hfd]

theorem outstanding_popInbox_of_ne {fd fd' : Nat} (h : fd' ≠ fd) :
    (s.popInbox fd).outstanding fd' = s.outstanding fd' := by
  simp [QueryState.outstanding, QueryState.popInbox, Function.update_of_ne h]

/-- The query of the frame a handler reads is no longer outstanding. -/
theorem outstanding_popInbox {fd : Nat} {f : AppFrame} {rest : List AppFrame}
    (hi : s.inbox fd = f :: rest) :
    s.outstanding fd = f.answers.toList ++ (s.popInbox fd).outstanding fd := by
  cases f <;> simp [QueryState.outstanding, QueryState.popInbox, hi, AppFrame.answers,
    List.filterMap_cons]

theorem outstanding_popInbox_query {fd id : Nat} {payload : Bytes} {rest : List AppFrame}
    (hi : s.inbox fd = .query id payload :: rest) :
    (s.popInbox fd).outstanding = s.outstanding := by
  funext fd'
  by_cases hfd : fd' = fd
  · subst hfd
    exact (outstanding_popInbox hi).symm
  · exact outstanding_popInbox_of_ne hfd

/-! ## Every step -/

theorem Inv.ask (h : Inv bufSize s) (fd : Nat) (payload : Bytes)
    (hs : queryStep bufSize s (.ask fd payload) = some t) : Inv bufSize t := by
  cases hs
  refine h.of_stay h.held rfl rfl (fun target => Or.inl ?_) rfl (fun _ hx => hx) ?_ h.replies
  · exact congrFun (outstanding_push_query fd s.nextId payload) target
  · intro fd' id type data hmem
    rcases mem_push hmem with hmem | ⟨hmem, -⟩
    · exact h.inbox fd' id type data hmem
    · cases hmem

theorem Inv.answer (h : Inv bufSize s) {fd : Nat} {type : RespType} {data : Bytes}
    (hlen : data.length < bufSize) (hs : queryStep bufSize s (.answer fd type data) = some t) :
    Inv bufSize t := by
  rw [queryStep] at hs
  split at hs
  · cases hs
  · rename_i id qdata rest ho
    cases hs
    have hans : ∀ x ∈ s.answered, x ∈ (id, data) :: s.answered := fun _ hx =>
      List.mem_cons_of_mem _ hx
    refine h.of_stay h.held rfl rfl (fun target => Or.inl (congrFun (outstanding_answer ho) target))
      rfl hans ?_ fun id data hr => hans _ (h.replies id data hr)
    intro fd' id' type' data' hmem
    rcases mem_push hmem with hmem | ⟨hmem, -⟩
    · exact ⟨(h.inbox fd' id' type' data' hmem).1, hans _ (h.inbox fd' id' type' data' hmem).2⟩
    · cases hmem
      exact ⟨hlen, List.mem_cons_self⟩

theorem Inv.hangUp (h : Inv bufSize s) {fd : Nat}
    (hs : queryStep bufSize s (.hangUp fd) = some t) : Inv bufSize t := by
  rw [queryStep] at hs
  split at hs <;> cases hs
  refine h.of_stay h.held rfl rfl (fun target => ?_) rfl (fun _ hx => hx) ?_ h.replies
  · by_cases hfd : target = fd
    · exact Or.inr (by simp [QueryState.outstanding, hfd])
    · exact Or.inl (by simp [QueryState.outstanding, Function.update_of_ne hfd])
  · intro fd' id type data hmem
    by_cases hfd : fd' = fd
    · simp [hfd] at hmem
    · simp only [Function.update_of_ne hfd] at hmem
      exact h.inbox fd' id type data hmem

/-- The slot a handler fills holds the whole answer. -/
theorem storeResponse_eq {type : RespType} {data : Bytes} (h : data.length < bufSize) :
    storeResponse bufSize type data = ⟨true, some type, data⟩ := by
  simp [storeResponse, recvBuf, h]

/-- A handler that waits gets the answer to its own query, for nothing else is outstanding. -/
theorem Phase.Fits.store {p : Phase} {fd id : Nat} {out out' : Nat → List Nat}
    {slots : Nat → QueryRespSlot} {answered : List (Nat × Bytes)} {type : RespType} {data : Bytes}
    (h : p.Fits out slots answered) (hout : out fd = id :: out' fd)
    (hne : ∀ target, target ≠ fd → out' target = out target) (hans : (id, data) ∈ answered) :
    p.Fits out' (Function.update slots fd ⟨true, some type, data⟩) answered := by
  have hawaits : ∀ id' target, Awaits (out target) (slots target) answered id' →
      Awaits (out' target) (Function.update slots fd ⟨true, some type, data⟩ target)
        answered id' := by
    rintro id' target ⟨ho, hs⟩
    by_cases htarget : target = fd
    · subst htarget
      rw [Function.update_self]
      rw [hout] at ho
      rcases ho with ho | ⟨ho, -⟩
      · cases ho
      · obtain ⟨rfl, hnil⟩ := List.cons.inj ho
        exact ⟨Or.inl hnil, fun _ => hans⟩
    · rw [Function.update_of_ne htarget, hne target htarget]
      exact ⟨ho, hs⟩
  cases p with
  | idle => trivial
  | locking id data target => trivial
  | locked id' data' target =>
    have htarget : target ≠ fd := by
      rintro rfl
      rw [Phase.Fits, hout] at h
      exact absurd h.1 (List.cons_ne_nil _ _)
    rw [Phase.Fits, Function.update_of_ne htarget, hne target htarget]
    exact h
  | sent id' target => exact hawaits id' target h
  | waiting id' target deadline => exact hawaits id' target h
  | unlocking id' target type' buf => exact h
  | replying id' type' buf => exact h

theorem Inv.recv (h : Inv bufSize s) {fd : Nat} {target : Option Nat}
    (hs : queryStep bufSize s (.recv fd target) = some t) : Inv bufSize t := by
  rw [queryStep] at hs
  split at hs
  · rename_i hidle
    split at hs
    · rw [recvFrame] at hs
      split at hs
      · cases hs
      · rename_i id type data rest hi
        split at hs <;> cases hs
        obtain ⟨hlen, hans⟩ := h.inbox fd id type data (hi ▸ List.mem_cons_self)
        rw [storeResponse_eq hlen]
        exact {
          held := h.held
          link := h.link
          fits := fun fd' => (h.fits fd').store (outstanding_popInbox hi)
            (fun _ hne => outstanding_popInbox_of_ne hne) hans
          inbox := fun fd' id type data hmem => h.inbox fd' id type data (mem_popInbox hmem)
          replies := h.replies }
      · rename_i id payload rest hi
        have hinbox : ∀ fd' id type data, AppFrame.answer id type data ∈ (s.popInbox fd).inbox fd' →
            data.length < bufSize ∧ (id, data) ∈ s.answered :=
          fun fd' id type data hmem => h.inbox fd' id type data (mem_popInbox hmem)
        have hout : ∀ target, (s.popInbox fd).outstanding target = s.outstanding target ∨
            (s.popInbox fd).outstanding target = [] :=
          fun target => Or.inl (congrFun (outstanding_popInbox_query hi) target)
        split at hs
        · split at hs
          · cases hs
            refine h.of_stay h.held rfl rfl hout rfl (fun _ hx => hx) hinbox ?_
            intro id data hr
            rcases List.mem_append.1 hr with hr | hr
            · exact h.replies id data hr
            · cases List.mem_singleton.1 hr
          · rename_i target
            obtain ⟨l, hl, rfl⟩ := Option.map_eq_some_iff.1 hs
            obtain ⟨-, hl'⟩ := step_call_cases hl
            exact h.of_move (h.held.step hl) (hl' ▸ rfl) rfl trivial
              (fun _ target' _ _ => ⟨hout target', rfl⟩) (fun _ hx => hx) hinbox h.replies
        · cases hs
    · cases hs
  · cases hs

/-- A test in a running gateway: the handler takes the lock of its target and resets the slot, or it
sleeps. -/
theorem queryStep_test_cases {fd : Nat} (hlink : s.locks.place fd = (s.phase fd).place)
    (hrun : s.locks.running = true) (hs : queryStep bufSize s (.test fd) = some t) :
    ∃ id data target l, s.phase fd = .locking id data target ∧
      KeyedLock.step hasQueryLock s.locks (.test fd) = some l ∧ l.running = true ∧
      (s.locks.locked target = false ∧
          l.place = Function.update s.locks.place fd (.inside target) ∧
          t = (QueryState.setSlot { s with locks := l } target .reset).setPhase fd
            (.locked id data target) ∨
        l.place = s.locks.place ∧ t = { s with locks := l }) := by
  rw [queryStep] at hs
  split at hs
  · rename_i id data target hphase
    obtain ⟨s', hs', rfl⟩ := Option.map_eq_some_iff.1 hs
    obtain ⟨l, hl, rfl⟩ := Option.map_eq_some_iff.1 hs'
    obtain ⟨k, hk, hcases⟩ := step_test_cases hl
    rw [hlink, hphase] at hk
    cases hk
    refine ⟨id, data, target, l, hphase, hl, ?_⟩
    rcases hcases with ⟨hstop, -⟩ | ⟨-, hfree, hl'⟩ | ⟨-, -, hl'⟩
    · rw [hrun] at hstop
      cases hstop
    · have hplace : l.place = Function.update s.locks.place fd (.inside target) := by rw [hl']; rfl
      have hin : l.place fd = .inside target := by rw [hplace, Function.update_self]
      refine ⟨by rw [hl']; exact hrun, Or.inl ⟨hfree, hplace, ?_⟩⟩
      simp only [if_pos hin, if_pos hrun]
    · have hplace : l.place = s.locks.place := by rw [hl']
      have hin : l.place fd ≠ .inside target := by
        rw [hplace, hlink, hphase]
        exact fun hin => by cases hin
      refine ⟨by rw [hl']; exact hrun, Or.inr ⟨hplace, ?_⟩⟩
      simp only [if_neg hin]
  · cases hs

/-- The handler that takes the lock starts with an empty slot and an app that owes nothing. -/
theorem Inv.test (h : Inv bufSize s) {fd : Nat} (hc : Unowed bufSize s (.test fd))
    (hs : queryStep bufSize s (.test fd) = some t) : Inv bufSize t := by
  obtain ⟨hrun, hquiet⟩ := hc
  obtain ⟨id, data, target, l, hphase, hl, hrun', hcases⟩ :=
    queryStep_test_cases (h.link fd) hrun hs
  have hheld := h.held.step hl
  obtain ⟨hfree, hplace, rfl⟩ | ⟨hplace, rfl⟩ := hcases
  · refine h.of_move (p := .locked id data target) hheld hplace rfl
      ⟨hquiet target (by rw [hphase]; rfl) hfree, congrArg _ (Function.update_self _ _ _)⟩ ?_
      (fun _ hx => hx) h.inbox h.replies
    intro fd' target' hne hfd'
    refine ⟨Or.inl rfl, Function.update_of_ne ?_ _ _⟩
    -- two handlers would be inside the lock of the target
    rintro rfl
    refine hne (hheld.exclusive hrun' target' rfl fd' fd ?_ ?_)
    · exact (congrFun hplace fd').trans
        ((Function.update_of_ne hne _ _).trans ((h.link fd').trans hfd'))
    · exact (congrFun hplace fd).trans (Function.update_self _ _ _)
  · exact h.of_stay hheld hplace rfl (fun _ => Or.inl rfl) rfl (fun _ hx => hx) h.inbox h.replies

theorem Inv.wake (h : Inv bufSize s) {fd : Nat}
    (hs : queryStep bufSize s (.wake fd) = some t) : Inv bufSize t := by
  obtain ⟨l, hl, rfl⟩ := Option.map_eq_some_iff.1 hs
  obtain ⟨-, hl'⟩ := step_wake_cases hl
  exact h.of_stay (h.held.step hl) (hl' ▸ rfl) rfl (fun _ => Or.inl rfl) rfl (fun _ hx => hx)
    h.inbox h.replies

/-- A handler that goes on to a phase at the same place of the lock. -/
theorem Inv.of_setPhase (h : Inv bufSize s) {fd : Nat} {p : Phase}
    (hplace : p.place = (s.phase fd).place) (hfits : p.Fits s.outstanding s.slots s.answered) :
    Inv bufSize (s.setPhase fd p) := by
  refine h.of_move h.held ?_ rfl hfits (fun _ _ _ _ => ⟨Or.inl rfl, rfl⟩) (fun _ hx => hx)
    h.inbox h.replies
  rw [hplace, ← h.link, Function.update_eq_self]
  rfl

theorem Inv.send (h : Inv bufSize s) (hrun : s.locks.running = true) {fd : Nat} {ok : Bool}
    (hs : queryStep bufSize s (.send fd ok) = some t) : Inv bufSize t := by
  rw [queryStep] at hs
  split at hs
  · rename_i id data target hphase
    have hfits := h.fits fd
    rw [hphase] at hfits
    cases hs
    cases ok with
    | false =>
      refine h.of_setPhase (p := .unlocking id target none []) ?_ ?_
      · rw [hphase]
        rfl
      · nofun
    | true =>
      rw [if_pos rfl]
      refine h.of_move (p := .sent id target) h.held ?_ rfl ?_ ?_ (fun _ hx => hx) h.inbox h.replies
      · change s.locks.place = Function.update s.locks.place fd (Place.inside target)
        rw [show Place.inside target = s.locks.place fd by rw [h.link, hphase]; rfl,
          Function.update_eq_self]
      · -- the query is the only one the app owes an answer to
        refine ⟨Or.inr ⟨?_, hfits.2⟩, fun hr => absurd (hfits.2.symm.trans hr) (by decide)⟩
        have hout : (s.inbox target).filterMap AppFrame.answers ++
            (s.owed target).map Prod.fst = [] := hfits.1
        obtain ⟨hi, ho⟩ := List.append_eq_nil_iff.1 hout
        change (s.inbox target).filterMap AppFrame.answers ++
          (Function.update s.owed target (s.owed target ++ [(id, data)]) target).map Prod.fst = [id]
        rw [Function.update_self, List.map_append, ho, hi]
        rfl
      · intro fd' target' hne hfd'
        have htarget : target' ≠ target := by
          rintro rfl
          exact hne (h.eq_of_inside hrun hfd' (by rw [hphase]; rfl))
        refine ⟨Or.inl ?_, rfl⟩
        simp [QueryState.outstanding, QueryState.setPhase, Function.update_of_ne htarget]
  · cases hs

theorem Inv.wait (h : Inv bufSize s) {fd : Nat}
    (hs : queryStep bufSize s (.wait fd) = some t) : Inv bufSize t := by
  rw [queryStep] at hs
  split at hs
  · rename_i id target hphase
    have hfits := h.fits fd
    rw [hphase] at hfits
    cases hs
    exact h.of_setPhase (by rw [hphase]; rfl) hfits
  · cases hs

/-- The handler takes what the slot has, and that is the answer to its query. -/
theorem Inv.poll (h : Inv bufSize s) {fd : Nat}
    (hs : queryStep bufSize s (.poll fd) = some t) : Inv bufSize t := by
  rw [queryStep] at hs
  split at hs
  · rename_i id target deadline hphase
    have hfits := h.fits fd
    rw [hphase] at hfits
    cases hs
    simp only [pollSlot]
    split_ifs with _ hresp
    · exact h
    · exact h.of_setPhase (by rw [hphase]; rfl) fun _ => hfits.2 hresp
    · exact h.of_setPhase (by rw [hphase]; rfl) nofun
  · cases hs

theorem Inv.unlock (h : Inv bufSize s) (hrun : s.locks.running = true) {fd : Nat}
    {woken : List Nat} (hs : queryStep bufSize s (.unlock fd woken) = some t) :
    Inv bufSize t := by
  rw [queryStep] at hs
  split at hs
  · rename_i id target type buf hphase
    have hfits := h.fits fd
    rw [hphase] at hfits
    obtain ⟨s', hs', rfl⟩ := Option.map_eq_some_iff.1 hs
    obtain ⟨l, hl, rfl⟩ := Option.map_eq_some_iff.1 hs'
    have hplace : l.place = Function.update s.locks.place fd .outside := by
      obtain ⟨k, -, ⟨-, rfl⟩ | ⟨-, rfl⟩⟩ := step_unlock_cases hl <;> rfl
    refine h.of_move (p := .replying id type buf) (h.held.step hl) hplace rfl hfits ?_
      (fun _ hx => hx) h.inbox h.replies
    intro fd' target' hne hfd'
    refine ⟨Or.inl rfl, Function.update_of_ne ?_ _ _⟩
    rintro rfl
    exact hne (h.eq_of_inside hrun hfd' (by rw [hphase]; rfl))
  · cases hs

/-- A reply that answers is what the handler took from the slot. -/
theorem Phase.Fits.replyOf {id : Nat} {type : Option RespType} {buf data : Bytes}
    {out : Nat → List Nat} {slots : Nat → QueryRespSlot} {answered : List (Nat × Bytes)}
    (h : (Phase.replying id type buf).Fits out slots answered)
    (hdata : Reply.resp data = Gateway.replyOf type buf) : (id, data) ∈ answered := by
  rw [Gateway.replyOf] at hdata
  split at hdata <;> cases hdata
  exact h ‹_›

theorem Inv.reply (h : Inv bufSize s) {fd : Nat}
    (hs : queryStep bufSize s (.reply fd) = some t) : Inv bufSize t := by
  rw [queryStep] at hs
  split at hs
  · rename_i id type buf hphase
    have hfits := h.fits fd
    rw [hphase] at hfits
    cases hs
    have hidle : Inv bufSize (s.setPhase fd .idle) := h.of_setPhase (by rw [hphase]; rfl) trivial
    refine { hidle with replies := fun id' data hr => ?_ }
    rcases List.mem_append.1 hr with hr | hr
    · exact h.replies id' data hr
    · obtain ⟨rfl, hdata⟩ := Prod.mk.inj (List.mem_singleton.1 hr)
      exact hfits.replyOf hdata
  · cases hs

/-- **Every step keeps the invariant.** -/
theorem Inv.step (h : Inv bufSize s) {act : QueryAct} (hc : Unowed bufSize s act)
    (hs : queryStep bufSize s act = some t) : Inv bufSize t := by
  cases act with
  | ask fd payload => exact h.ask fd payload hs
  | answer fd type data => exact h.answer hc.2 hs
  | hangUp fd => exact h.hangUp hs
  | recv fd target => exact h.recv hs
  | test fd => exact h.test hc hs
  | wake fd => exact h.wake hs
  | send fd ok => exact h.send hc hs
  | wait fd => exact h.wait hs
  | poll fd => exact h.poll hs
  | unlock fd woken => exact h.unlock hc hs
  | reply fd => exact h.reply hs
  | tick ms =>
    cases hs
    exact { h with }
  | stop =>
    rw [queryStep] at hs
    obtain ⟨l, hl, rfl⟩ := Option.map_eq_some_iff.1 hs
    exact { h with held := h.held.step hl, link := by cases hl; exact h.link }

instance (bufSize : Nat) : ∀ (s : QueryState) (act : QueryAct), Decidable (Unowed bufSize s act)
  | s, .test fd => inferInstanceAs (Decidable (s.locks.running = true ∧
      ∀ target ∈ (s.phase fd).lockTarget,
        s.locks.locked target = false → s.outstanding target = []))
  | s, .answer _ _ data =>
    inferInstanceAs (Decidable (s.locks.running = true ∧ data.length < bufSize))
  | s, .ask _ _ | s, .hangUp _ | s, .recv _ _ | s, .wake _ | s, .send _ _ | s, .wait _
  | s, .poll _ | s, .unlock _ _ | s, .reply _ | s, .tick _ | s, .stop =>
    inferInstanceAs (Decidable (s.locks.running = true))

/-- The steps of a handler from its query up to the wait for the answer. -/
private def askAndWait (fd target : Nat) : List QueryAct :=
  [.ask fd (CString.ascii "app\nwho"), .recv fd (some target), .test fd, .send fd true, .wait fd]

end Gateway
end Arws
